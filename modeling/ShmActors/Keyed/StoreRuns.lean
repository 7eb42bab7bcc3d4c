import ShmActors.Keyed.Recycling
import ShmActors.Keyed.Store

/-! Any number of users of a keyed store, and what the recycling of slots gives
them: a slot in a creator's hand is free and in no other hand. -/

namespace ShmActors.Keyed

open Lib Core Program Actors StackActors
open Artifact (ArtifactHead Pool EntryState EntryWord)

/-- What the code does not see, beside the deliveries of slots: the creates under
way, as actor and key; the slots an open or an evict has read as live and has not
done with, as actor and slot; and the key every entry was published under, by
slot and generation. -/
structure Ledger where
  floor : Tags Unit × Deliveries
  creating : List (Nat × Nat)
  watched : List (Nat × Nat)
  published : Nat → Nat → Option Nat

section

variable {Content : Type}

/-- Without the entries of an actor. -/
def leave (actor : Nat) (entries : List (Nat × Nat)) : List (Nat × Nat) := entries.filter fun entry => entry.1 ≠ actor

/-- A create is under way from its first access. -/
def begins (call : KeyCall) (actor : Nat) (site : TableSite) (creating : List (Nat × Nat)) : List (Nat × Nat) :=
  match call, site with
  | .create keyId _, .loadNext => (actor, keyId) :: creating
  | _, _ => creating

/-- The key an open or an evict looks for. -/
def KeyCall.seeks : KeyCall → Option Nat
  | .open keyId | .evict keyId => some keyId
  | .create _ _ | .sweep => none

/-- A slot read as live is watched until its key is seen to be another. -/
def watches (call : KeyCall) (actor : Nat) (site : TableSite) (table : Table) (watched : List (Nat × Nat)) :
    List (Nat × Nat) :=
  match call.seeks, site with
  | some _, .scanState idx =>
    if (table.slot idx).word.state = .live then (actor, idx) :: leave actor watched else watched
  | some keyId, .scanKey idx =>
    if (table.slot idx).keyId = keyId then watched else leave actor watched
  | _, _ => watched

def publishes (site : TableSite) (before after : Table) (published : Nat → Nat → Option Nat) :
    Nat → Nat → Option Nat :=
  match site with
  | .exchangeWord idx .live =>
    if (before.slot idx).word = (after.slot idx).word then published
    else Function.update published idx
      (Function.update (published idx) (before.slot idx).word.gen (some (before.slot idx).keyId))
  | _ => published

def Ledger.note (catalog : Catalog) (actor : Nat) (site : KeyCall × KeySite) (before after : Store Content)
    (ledger : Ledger) : Ledger :=
  match site.2 with
  | .table access =>
    { floor := (users catalog).actors.track actor access before.table after.table ledger.floor
      creating := begins site.1 actor access ledger.creating
      watched := watches site.1 actor access before.table ledger.watched
      published := publishes access before.table after.table ledger.published }
  | .head _ _ => ledger
  | .returned _ =>
    { ledger with
      creating := leave actor ledger.creating
      watched := leave actor ledger.watched }

/-- No head of the free list, and no high-water mark, comes round. -/
def Paced (catalog : Catalog) (actor : Nat) (site : KeySite) (store : Store Content) (ledger : Ledger) : Prop :=
  match site with
  | .table access => (measured catalog).allowed actor access store.table ledger.floor
  | _ => True

instance (catalog : Catalog) (actor : Nat) (store : Store Content) (ledger : Ledger) :
    (site : KeySite) → Decidable (Paced catalog actor site store ledger)
  | .table access => inferInstanceAs (Decidable ((measured catalog).allowed actor access store.table ledger.floor))
  | .head _ _ | .returned _ => inferInstanceAs (Decidable True)

/-- Key ids are issued from 1 on. -/
def KeyCall.issued : KeyCall → Prop
  | .create keyId _ | .open keyId | .evict keyId => keyId ≠ 0
  | .sweep => True

instance : (call : KeyCall) → Decidable call.issued
  | .create keyId _ | .open keyId | .evict keyId => inferInstanceAs (Decidable (keyId ≠ 0))
  | .sweep => inferInstanceAs (Decidable True)

/-- The users of a store, in the runs that meet a condition. -/
abbrev storeUsers (catalog : Catalog) (pool : Pool)
    (meets : Nat → KeyCall × KeySite → Store Content → Ledger → Prop) :
    Actors (Store Content) (KeyCall × KeySite) Ledger KeyCall Unit KeyAnswer where
  program call := (answerAndReturn catalog pool call).label call
  enabled _ call := call.issued
  start own _ := own
  finish own _ _ := own
  track := Ledger.note catalog
  allowed actor site store ledger := Paced catalog actor site.2 store ledger ∧ meets actor site store ledger

section

variable (catalog : Catalog) (pool : Pool) (meets : Nat → KeyCall × KeySite → Store Content → Ledger → Prop)

end

/-- The runs that leave no interleaving out. -/
abbrev anyInterleaving (_ : Nat) (_ : KeyCall × KeySite) (_ : Store Content) (_ : Ledger) : Prop := True

abbrev KeyRun (Content : Type) :=
  Config (Store Content) (KeyCall × KeySite) Ledger KeyCall Unit KeyAnswer

def Ledger.blank : Ledger where
  floor := (⟨fun _ => 0, fun _ _ => 0⟩, .none)
  creating := []
  watched := []
  published _ _ := none

/-- A new store. -/
def emptyStore (Content : Type) (pool : Pool) : KeyRun Content where
  state :=
    { table := blankTable
      heads := fun _ => .fresh Artifact.noIncarnation
      heap := pool.create Content
      journals := fun _ => ⟨fun _ => 0, fun _ => none, 0⟩ }
  history := .blank
  thread _ := .idle ()

end

/-- What the slots' deliveries say of the table. -/
structure Orderly (catalog : Catalog) (table : Table) (deliveries : Deliveries) : Prop where
  exclusive : ∀ first second idx, (first, idx) ∈ deliveries.inHand → (second, idx) ∈ deliveries.inHand →
    first = second
  free : ∀ actor idx, (actor, idx) ∈ deliveries.inHand → (table.slot idx).word.state = .free
  range : ∀ actor idx, (actor, idx) ∈ deliveries.inHand → idx < catalog.capacity
  used : ∀ idx, (table.slot idx).word.state ≠ .free → idx < table.nextSlot ∧ idx < catalog.capacity

variable {catalog : Catalog}

theorem Placed.orderly
    (placed : Placed catalog deliveries table lists grips place bumped) : Orderly catalog table deliveries := by
  have known : ∀ idx, place idx ≠ .fresh → idx < table.nextSlot ∧ idx < catalog.capacity := by
    intro idx used
    have below := mt (placed.marked.fresh idx).mpr used
    have mark := placed.marked.mark
    have within := placed.marked.within
    omega
  refine ⟨fun first two idx one other => ?_, fun who idx held => ?_, fun who idx held => ?_,
    fun idx busy => known idx fun fresh => ?_⟩
  · have here := (placed.whereabouts.holders first idx).mp one
    rw [(placed.whereabouts.holders two idx).mp other] at here
    exact (Place.held.inj here).symm
  · have agrees := placed.worded.agrees idx
    rw [(placed.whereabouts.holders who idx).mp held] at agrees
    exact agrees
  · exact (known idx (by simp [(placed.whereabouts.holders who idx).mp held])).2
  · have agrees := placed.worded.agrees idx
    rw [fresh] at agrees
    exact busy agrees

section

variable {Content : Type} {catalog : Catalog} {pool : Pool}
  {meets : Nat → KeyCall × KeySite → Store Content → Ledger → Prop} {call : KeyCall} {actor : Nat} {Value : Type}
  {code : TableAct Value} {held : Option (Pending Unit) × Grip}

/-- The catalog's own invariant, in a store. -/
def onFloor (catalog : Catalog) (ledger : Ledger) (store : Store Content)
    (holdings : Nat → Option (Pending Unit) × Grip) : Prop :=
  (ownership catalog).inv ledger.floor store.table holdings

theorem wp_cat (holds : (measured catalog).wp (ownership catalog).inv actor code post held) :
    ((storeUsers catalog pool meets).under call).wp (onFloor catalog) actor (cat code : KeyAct Content Value)
      post held := by
  have lifted : ((storeUsers catalog pool meets).under call).wp _ actor
      (code.within (tableOf : Ref (Store Content) Table) .table) post held :=
    wp_within Ledger.floor (fun _ _ => rfl) (fun _ _ _ _ => rfl)
      (fun _ _ _ (may : _ ∧ _) => may.1) holds
  exact lifted

theorem wp_does (does : Does (ownership catalog) actor code post grip) :
    ((storeUsers catalog pool meets).under call).wp (onFloor catalog) actor (cat code : KeyAct Content Value)
      (fun val kept => kept.1 = none ∧ post val kept.2) (none, grip) :=
  wp_cat (wp_measured does)

/-- The code leaves the actor what it holds. -/
abbrev Rests (catalog : Catalog) (pool : Pool) (meets : Nat → KeyCall × KeySite → Store Content → Ledger → Prop)
    (call : KeyCall) (actor : Nat) (held : Option (Pending Unit) × Grip) (code : KeyAct Content Value) : Prop :=
  ((storeUsers catalog pool meets).under call).wp (onFloor catalog) actor code (fun _ kept => kept = held) held

theorem rests_then {code : KeyAct Content Value} (one : Rests catalog pool meets call actor held code)
    (later : ∀ val, Rests catalog pool meets call actor held (rest val)) :
    Rests catalog pool meets call actor held (code >>= rest) := by
  refine wp_then one ?_
  rintro val _ rfl
  exact later val

theorem rests_mild (every : code.Every (Mild catalog)) :
    Rests catalog pool meets call actor (none, grip) (cat code) :=
  wp_mono (wp_does (does_mild every)) fun _ _ new => Prod.ext new.1 new.2

/-- What happens on the heads is nothing to the catalog. -/
theorem rests_on (headOff : Nat) (code : Artifact.StoreAct Content Value) :
    Rests catalog pool meets call actor held (on headOff code) := by
  have anything : code.Every fun _ _ => True := by
    induction code with
    | ret val => trivial
    | act site update next ih => exact ⟨trivial, ih⟩
    | pick next ih => exact ih
    | halt => trivial
  refine wp_of_every (every_within anything fun site update _ => ?_)
  exact fun ledger store holdings ok _ => ok

/-- Accesses of which the deliveries record something. -/
def recorded : TableSite → Bool
  | .popExchange | .bump | .unbump | .exchangeWord _ .live => true
  | _ => false

theorem deliver_eq (unrecorded : recorded site = false) (who : Nat) (old new : Table)
    (past : Deliveries) : deliver catalog who site old new past = past := by
  cases site with
  | popExchange | bump | unbump => cases unrecorded
  | exchangeWord idx goal =>
    cases goal with
    | live => cases unrecorded
    | _ => rfl
  | _ => rfl

theorem mild_load (cell : Ref Table Value) (plain : role site = none) (unrecorded : recorded site = false) :
    (load site cell).Every (Mild catalog) :=
  ⟨⟨plain, deliver_eq unrecorded, fun _ => ⟨rfl, rfl, fun _ => rfl⟩⟩, fun _ => trivial⟩

theorem every_scan (keyId : Nat) (slots : List Nat) : (Catalog.scan keyId slots).Every (Mild catalog) := by
  induction slots with
  | nil => trivial
  | cons idx rest ih =>
    refine every_bind (mild_load _ rfl rfl) fun word => ?_
    split
    · refine every_bind (mild_load _ rfl rfl) fun key => ?_
      split
      · trivial
      · exact ih
    · exact ih

theorem every_findLiveByKey (keyId : Nat) : (catalog.findLiveByKey keyId).Every (Mild catalog) :=
  every_bind (mild_load _ rfl rfl) fun _ => every_scan keyId _

theorem rests_entryAt (idx : Nat) :
    Rests catalog pool meets call actor (none, grip) (entryAt pool idx : KeyAct Content _) := by
  refine rests_then (rests_mild (mild_load _ rfl rfl)) fun artifactId => ?_
  refine rests_then (rests_mild (mild_load _ rfl rfl)) fun headOff => ?_
  refine rests_then (rests_on headOff _) fun got => ?_
  cases got with
  | none => exact rfl
  | some artifact =>
    refine rests_then (rests_mild (mild_load _ rfl rfl)) fun keyId => ?_
    exact rests_then (rests_mild (mild_load _ rfl rfl)) fun kind => rfl

theorem rests_tryReclaimSlot (idx : Nat) :
    Rests catalog pool meets call actor (none, atRest ∅) (tryReclaimSlot pool idx : KeyAct Content Bool) :=
  wp_tryReclaim catalog ∅ wp_does fun _ headOff _ => rests_on headOff _

theorem rests_gen (idx : Nat) : Rests catalog pool meets call actor (none, grip) (cat (gen idx) : KeyAct Content Nat) :=
  rests_mild (every_bind (mild_load _ rfl rfl) fun _ => trivial)

theorem rests_create (keyId : Nat) (kind : RefKind) :
    Rests catalog pool meets call actor (none, atRest ∅) (create catalog pool keyId kind : KeyAct Content _) := by
  refine rests_then (rests_mild (every_findLiveByKey keyId)) fun got => ?_
  cases got with
  | some idx => exact rests_entryAt idx
  | none =>
    refine wp_then (wp_cat (wp_allocSlot ∅)) ?_
    rintro out _ rfl
    cases out with
    | error reason => exact rfl
    | ok idx =>
      refine wp_then (rests_gen idx) ?_
      rintro incarnation _ rfl
      refine wp_then (rests_on _ _) ?_
      rintro artifact _ rfl
      refine wp_bind (wp_mono
        (wp_does (does_publishSlot keyId kind (Finset.mem_insert_self idx ∅))) fun val kept new => ?_)
      rw [Finset.erase_insert (Finset.notMem_empty idx)] at new
      exact Prod.ext new.1 new.2

theorem rests_evict (keyId : Nat) :
    Rests catalog pool meets call actor (none, atRest ∅) (evict catalog pool keyId : KeyAct Content _) := by
  have reclaims (idx : Nat) : Rests catalog pool meets call actor (none, atRest ∅)
      (tryReclaimSlot pool idx >>= fun _ => pure (.ok ()) : KeyAct Content (Except StoreError Unit)) :=
    rests_then (rests_tryReclaimSlot idx) fun _ => rfl
  refine rests_then (rests_mild (every_findLiveByKey keyId)) fun got => ?_
  cases got with
  | none => exact rfl
  | some idx =>
    refine rests_then (rests_gen idx) fun expected => ?_
    refine wp_then (wp_does (does_tombstoneGen expected)) fun won kept new => ?_
    rw [show kept = (none, atRest ∅) from Prod.ext new.1 new.2]
    cases won with
    | false => exact rfl
    | true =>
      refine rests_then (rests_mild (mild_load _ rfl rfl)) fun artifactId => ?_
      refine rests_then (rests_mild (mild_load _ rfl rfl)) fun headOff => ?_
      refine rests_then (rests_on headOff _) fun attached => ?_
      cases attached with
      | none => exact reclaims idx
      | some artifact =>
        refine rests_then (rests_on headOff _) fun out => ?_
        split
        · exact reclaims idx
        · exact reclaims idx
        · exact rfl

theorem rests_reclaimAmong (slots : List Nat) : Rests catalog pool meets call actor (none, atRest ∅)
    (reclaimAmong tableOf .table (finished pool) slots : KeyAct Content Nat) := by
  induction slots with
  | nil => exact rfl
  | cons idx rest ih =>
    refine rests_then (rests_mild (mild_load _ rfl rfl)) fun word => ?_
    split
    · exact rests_then (rests_tryReclaimSlot idx) fun freed => rests_then ih fun others => rfl
    · exact ih

theorem rests_answer (call : KeyCall) :
    Rests catalog pool meets call actor (none, atRest ∅) (answer catalog pool call : KeyAct Content KeyAnswer) := by
  cases call with
  | create keyId kind => exact wp_bind (rests_create keyId kind)
  | «open» keyId =>
    refine wp_bind (rests_then (rests_mild (every_findLiveByKey keyId)) fun got => ?_)
    cases got with
    | none => exact rfl
    | some idx => exact rests_entryAt idx
  | evict keyId => exact wp_bind (rests_evict keyId)
  | sweep => exact wp_bind (rests_then (rests_mild (mild_load _ rfl rfl)) fun next => rests_reclaimAmong _)

end

theorem orderly_of_reachable {run : KeyRun Content}
    (reached : (storeUsers catalog pool meets).Reachable (emptyStore Content pool) run) :
    Orderly catalog run.state.table run.history.floor.2 := by
  have safe : (storeUsers catalog pool meets).Safe (onFloor catalog) (fun _ => (none, atRest ∅)) run := by
    refine safe_of_reachable (fun who own call _ => ?_) ?_ reached
    · refine wp_label (wp_then (rests_answer call) ?_)
      rintro answer _ rfl
      intro ledger store holdings ok same _
      refine ⟨_, ?_, rfl⟩
      rw [← same, Function.update_eq_self]
      exact ok
    · obtain ⟨holdings, ok, idle⟩ := safe_fresh catalog
      exact ⟨holdings, ok, idle⟩
  obtain ⟨holdings, ⟨lists, ok⟩, _⟩ := safe
  obtain ⟨place, bumped, placed⟩ := ok.own
  exact placed.orderly

end ShmActors.Keyed
