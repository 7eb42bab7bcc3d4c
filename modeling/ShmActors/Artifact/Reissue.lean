import ShmActors.Artifact.Endorsement
import ShmActors.Artifact.StoreProtocol

/-! The versions installed through handles of one incarnation. A commit installs
the successor of what `current` holds, so the numbers rise until a teardown
clears `current`; as long as nothing is installed over a cleared head, no number
is issued twice. -/

namespace ShmActors.Artifact

open Lib Core Program Function Actors

variable {Content : Type}

/-- The callers of one incarnation, evictions of its key and sweeps. -/
def OfOne (incarnation : Nat) : StoreCall Content → Prop
  | .use own _ => own = incarnation
  | .create => False
  | .evictKey | .sweep => True

instance (incarnation : Nat) : DecidablePred (OfOne incarnation : StoreCall Content → Prop)
  | .use own _ => inferInstanceAs (Decidable (own = incarnation))
  | .create => inferInstanceAs (Decidable False)
  | .evictKey | .sweep => inferInstanceAs (Decidable True)

/-- A first version is installed only where there was none before, and the
numbers do not run out. -/
def FirstOnce (actor : Nat) (site : StoreSite) (shelf : Shelf Content) (chronicle : Chronicle) : Prop :=
  match site with
  | .artifact .install =>
    (shelf.memory.head.current = noVersion → targetOf actor chronicle.log = some 1 →
      installs chronicle.log = []) ∧ targetOf actor chronicle.log ≠ some noVersion
  | _ => True

instance (actor : Nat) (shelf : Shelf Content) (chronicle : Chronicle) :
    (site : StoreSite) → Decidable (FirstOnce actor site shelf chronicle) := fun site => by
  unfold FirstOnce
  split <;> infer_instance

/-- A slot is live with a version that was installed through it. -/
abbrev LiveInstalled (config : StoreRun Content) (slot version : Nat) : Prop :=
  (config.state.memory.head.pins slot).state = .live ∧
    (config.state.memory.head.pins slot).version = version ∧
    ∃ entry ∈ installs config.history.log, entry.slot = some slot ∧ entry.version = version

/-- The version a commit in progress expects to find. -/
def Doing.expecting : Doing → Option Nat
  | .claimed _ _ expect | .deciding _ _ expect _ => some expect
  | _ => none

structure Rising (log : List Event) (memory : Memory Content) (phases : Nat → Phase) : Prop where
  rising : ((installs log).map Installed.version).Pairwise (· > ·)
  newest : memory.head.current = noVersion ∨
    ((installs log).map Installed.version).head? = some memory.head.current
  bounded : memory.head.current < 2 ^ 64
  target : ∀ actor expect, (phases actor).doing.expecting = some expect →
    targetOf actor log = some (successor expect)

section

variable {log : List Event} {mem new : Memory Content} {phases : Nat → Phase} {actor : Nat} {later : Phase}
  {phase : Phase}

/-- The accesses whose events are about versions. -/
def Site.numbers : Site → Bool
  | .claimVersion _ | .install => true
  | _ => false

/-- Two logs that say the same of versions. -/
def SameNumbers (first second : List Event) : Prop :=
  (∀ actor, targetOf actor second = targetOf actor first) ∧ installs second = installs first

variable {place : Site}

theorem sameNumbers_record (plain : place.numbers = false) (old new : Memory Content) :
    SameNumbers log (record actor place old new log) := by
  cases place with
  | claimVersion | install => cases plain
  | claim | elect =>
    unfold record
    dsimp only
    split <;> exact ⟨fun _ => rfl, rfl⟩
  | _ => exact ⟨fun _ => rfl, rfl⟩

variable (ok : Rising log mem phases)

include ok

/-- A move that installs nothing and expects nothing new. -/
theorem Rising.step (standing : phases actor = phase) (same : SameNumbers log longer)
    (now : new.head.current = mem.head.current ∨ new.head.current = noVersion)
    (carried : later.doing.expecting = none ∨ later.doing.expecting = phase.doing.expecting) :
    Rising longer new (update phases actor later) := by
  subst standing
  refine ⟨?_, ?_, ?_, ?_⟩
  · rw [same.2]
    exact ok.rising
  · rw [same.2]
    rcases now with kept | cleared
    · rw [kept]
      exact ok.newest
    · exact .inl cleared
  · rcases now with kept | cleared
    · rw [kept]
      exact ok.bounded
    · rw [cleared]
      decide
  · intro other expect expecting
    rw [same.1]
    by_cases own : other = actor
    · subst own
      rw [update_self] at expecting
      rcases carried with none | kept
      · rw [none] at expecting
        cases expecting
      · exact ok.target other expect (kept.symm.trans expecting)
    · rw [update_of_ne own] at expecting
      exact ok.target other expect expecting

theorem Rising.pass (standing : phases actor = phase) (plain : place.numbers = false)
    (now : new.head.current = mem.head.current ∨ new.head.current = noVersion)
    (carried : later.doing.expecting = none ∨ later.doing.expecting = phase.doing.expecting) :
    Rising (record actor place mem new log) new (update phases actor later) :=
  ok.step standing (sameNumbers_record plain mem new) now carried

theorem Rising.number (now : new.head.current = mem.head.current)
    (own : later.doing = .claimed slot manifest expect) :
    Rising (.numbered actor slot (successor expect) :: log) new (update phases actor later) := by
  refine ⟨ok.rising, ?_, ?_, ?_⟩
  · rw [now]
    exact ok.newest
  · rw [now]
    exact ok.bounded
  · intro other wanted expecting
    simp only [targetOf]
    by_cases same : other = actor
    · subst same
      rw [update_self, own] at expecting
      cases expecting
      rw [if_pos rfl]
    · rw [update_of_ne same] at expecting
      rw [if_neg (Ne.symm same)]
      exact ok.target other wanted expecting

/-- The install: over a cleared head it is the first, otherwise it exceeds the
newest. -/
theorem Rising.install (now : mem.head.current = expect) (set : new.head.current = successor expect)
    (own : (phases actor).doing.expecting = some expect) (done : later.doing.expecting = none)
    (one : mem.head.current = noVersion → targetOf actor log = some 1 → installs log = [])
    (room : targetOf actor log ≠ some noVersion) :
    Rising (.installed actor new.head.current :: log) new (update phases actor later) := by
  have target := ok.target actor expect own
  have bounded := ok.bounded
  refine ⟨?_, .inr rfl, ?_, ?_⟩
  · simp only [installs, List.map_cons, List.pairwise_cons]
    refine ⟨fun version in_ => ?_, ok.rising⟩
    rw [set]
    rcases ok.newest with cleared | newest
    · have fresh : installs log = [] := by
        refine one cleared ?_
        rw [target, ← now, cleared]
        rfl
      rw [fresh] at in_
      cases in_
    · have succ : successor expect = expect + 1 := by
        rw [target] at room
        unfold successor at room ⊢
        have : (expect + 1) % 2 ^ 64 ≠ 0 := fun zero => room (congrArg some zero)
        omega
      rw [succ, ← now]
      cases versions : (installs log).map Installed.version with
      | nil =>
        rw [versions] at newest
        cases newest
      | cons top rest =>
        rw [versions] at newest in_
        cases newest
        have below := ok.rising
        rw [versions, List.pairwise_cons] at below
        rcases List.mem_cons.mp in_ with rfl | older
        · omega
        · have := below.1 version older
          omega
  · rw [set]
    unfold successor
    omega
  · intro other wanted expecting
    by_cases same : other = actor
    · subst same
      rw [update_self, done] at expecting
      cases expecting
    · rw [update_of_ne same] at expecting
      exact ok.target other wanted expecting

omit ok

theorem expecting_at (errand : Errand) (slot : Nat) : (errand.at slot).expecting = none := by
  unfold Errand.at
  split <;> rfl

theorem expecting_owed (expect : Nat) (prior : PackedRef) : (owed expect prior).expecting = none := by
  unfold owed
  split <;> rfl

include ok

/-- Every move through a handle keeps the numbers rising. -/
theorem Rising.move (move : Move clears commits place (phases actor) later mem new)
    (one : place = .install → (mem.head.current = noVersion → targetOf actor log = some 1 →
      installs log = []) ∧ targetOf actor log ≠ some noVersion) :
    Rising (record actor place mem new log) new (update phases actor later) := by
  generalize standing : phases actor = phase at move
  cases move with
  | aside aside =>
    rw [aside.silent]
    exact ok.step standing ⟨fun _ => rfl, rfl⟩ (.inl aside.same.current) (.inr rfl)
  | number expect =>
    simp only [record, pins_set_version, update_self]
    exact ok.number rfl rfl
  | install now =>
    have moved : mem.head.current ≠ (current.set (successor _) mem).head.current :=
      now.trans_ne (successor_ne _)
    simp only [record]
    rw [if_neg moved]
    exact ok.install now rfl (by rw [standing]; rfl) rfl (one rfl).1 (one rfl).2
  | lose =>
    simp only [record, if_true]
    exact ok.step standing ⟨fun _ => rfl, rfl⟩ (.inl rfl) (.inl rfl)
  | decide => exact ok.pass standing rfl (.inl rfl) (.inr rfl)
  | endorse => exact ok.pass standing rfl (.inl rfl) (.inl (expecting_owed _ _))
  | scanPast | passVersion | passManifest => exact ok.pass standing rfl (.inl rfl) (.inl (expecting_at _ _))
  | again | target => exact ok.pass standing rfl (.inl rfl) (.inl (expecting_at _ 0))
  | undo | resign | drop | undoVersion =>
    refine ok.pass standing rfl (.inl rfl) (.inl ?_)
    dsimp only
    split <;> rfl
  | dropCurrent =>
    refine ok.pass standing rfl (.inl rfl) (.inl ?_)
    dsimp only
    split
    · rfl
    · exact expecting_at _ 0
  | clearCurrent => exact ok.pass standing rfl (.inr rfl) (.inl rfl)
  | _ =>
    exact ok.pass standing rfl (.inl rfl) (.inl rfl)

end

section

variable {nameId : Nat} {pool : Pool} {incarnation : Nat} {phase : Phase}

/-- The moves on a slot whose occupant is not replaced. -/
def shelfMoves : Protocol (Shelf Content) StoreSite Phase := fun site phase later before after =>
  match site with
  | .artifact place => Move True True place phase later before.memory after.memory
  | _ => later = phase ∧ after.memory.head.current = before.memory.head.current

theorem follows_through
    (follows : code.Follows (moves True True) post phase) : (through code).Follows shelfMoves post phase :=
  follows_within (fun _ _ _ _ _ move => move) follows

/-- An eviction and a sweep rest in the phase they begin in. -/
theorem sweeping_shelf (held : List (Nat × Nat)) : Sweeping nameId pool (shelfMoves : Protocol (Shelf Content) _ _)
    (· = ⟨.idle, held⟩) (fun _ => (· = ⟨.idle, held⟩)) where
  rests _ _ prepared := prepared
  entry phase _ site update onEntry keeps shelf := by
    have same : (update shelf).memory.head.current = shelf.memory.head.current := by rw [keeps]
    cases site with
    | scan | loadWord | exchangeWord | storeWord | popFree | pushFree => exact ⟨rfl, same⟩
    | _ => cases onEntry
  attach phase shelf resting := ⟨phase, ⟨rfl, rfl⟩, resting⟩
  tears incarnation phase prepared := by
    subst prepared
    exact follows_through (follows_evictAll held trivial)
  retire phase _ resting := ⟨phase, ⟨rfl, rfl⟩, resting⟩
  commission _ _ _ _ := ⟨rfl, rfl⟩

/-- What a user of the one incarnation holds between calls. -/
def RestingAt (incarnation : Nat) (desk : Desk) (phase : Phase) : Prop := Resting (desk incarnation) phase

theorem follows_visit
    (one : OfOne incarnation call) (holds : call.holds desk) (resting : RestingAt incarnation desk phase) :
    (visit nameId pool call).Follows shelfMoves
      (fun answer later => RestingAt incarnation ((desk.give call).take call answer) later) phase := by
  have idle : phase = ⟨.idle, phase.held⟩ := by rw [← resting.idle]
  cases call with
  | use own call =>
    obtain rfl : own = incarnation := one
    show Follows _ (StoreAnswer.used <$> through (perform ⟨nameId, own, pool⟩ call)) _ _
    rw [map_eq_pure_bind]
    refine follows_then (follows_through
      (follows_perform holds resting (fun _ => trivial) fun _ => trivial)) fun answer later rested => ?_
    have own_desk : (desk.give (.use own call)).take (.use own call) (.used answer) own =
        ((desk own).give call).take answer := by
      simp only [Desk.take, Desk.give, update_self]
    show Resting ((desk.give (.use own call)).take (.use own call) (.used answer) own) later
    rw [own_desk]
    exact rested
  | create => exact one.elim
  | evictKey =>
    show Follows _ ((fun _ => StoreAnswer.evicted) <$> evictKey nameId pool) _ _
    rw [map_eq_pure_bind]
    refine follows_seq ((sweeping_shelf phase.held).follows_evictKey idle) fun _ => ?_
    exact ⟨rfl, resting.pins⟩
  | sweep =>
    show Follows _ (StoreAnswer.swept <$> sweepTombstone nameId pool) _ _
    rw [map_eq_pure_bind]
    refine follows_seq ((sweeping_shelf phase.held).follows_sweepTombstone idle) fun _ => ?_
    exact ⟨rfl, resting.pins⟩

theorem keeps_rising : (storeUsers nameId pool (OfOne incarnation) FirstOnce).Keeps (fun _ site => shelfMoves site.2)
    (fun chronicle (shelf : Shelf Content) phases => Rising chronicle.log shelf.memory phases) := by
  rintro - who ⟨call, site⟩ later old new chronicle phases ok may move
  have still (quiet : later = phases who ∧
      new.memory.head.current = old.memory.head.current) :
      Rising chronicle.log new.memory (update phases who later) :=
    ok.step rfl ⟨fun _ => rfl, rfl⟩ (.inl quiet.2) (.inr (by rw [quiet.1]))
  cases site with
  | artifact place =>
    refine Rising.move ok move fun install => ?_
    subst install
    exact may
  | _ => exact still move

/-- As long as no first version is installed over an earlier one and the numbers
do not run out, no version is issued twice. -/
theorem versions_nodup {config : StoreRun Content}
    (reached : (storeUsers nameId pool (OfOne incarnation) FirstOnce).Reachable
      (occupied Content pool incarnation) config) :
    ((installs config.history.log).map Installed.version).Nodup ∧
      ∀ one other version, LiveInstalled config one version → LiveInstalled config other version → one = other := by
  have start : (storeUsers nameId pool (OfOne incarnation) FirstOnce).Guided (fun _ site => shelfMoves site.2)
      (fun chronicle (shelf : Shelf Content) phases => Rising chronicle.log shelf.memory phases)
      (RestingAt incarnation) (fun _ _ => True) (occupied Content pool incarnation) :=
    ⟨fun _ => ⟨.idle, []⟩, ⟨.nil, .inl rfl, Nat.two_pow_pos 64, fun _ _ expecting => nomatch expecting⟩,
      fun _ => ⟨rfl, .refl _⟩⟩
  obtain ⟨phases, valid, -⟩ := guided_of_reachable start reached (fun _ _ _ _ _ _ _ _ => trivial)
    (fun desk call phase enabled resting => ⟨trivial, follows_label (follows_bind
      (follows_mono (follows_visit enabled.1 enabled.2 resting) fun answer later rested =>
        fun shelf => ⟨later, ⟨rfl, rfl⟩, rested⟩))⟩) keeps_rising
  have once : ((installs config.history.log).map Installed.version).Nodup :=
    valid.rising.imp fun above => Nat.ne_of_gt above
  refine ⟨once, ?_⟩
  rintro one other version ⟨-, -, first, member, slot, number⟩ ⟨-, -, second, member', slot', number'⟩
  have same : first = second :=
    List.inj_on_of_nodup_map once member member' (number.trans number'.symm)
  subst same
  exact Option.some.inj (slot.symm.trans slot')

end

section

/-- A version is installed and pinned, the artifact torn down; a commit that
still expects no version follows. -/
def reissuing : List (Stretch (StoreCall Nat)) :=
  [.begin 1 (.use 1 (.commitOptimistic 1 0 .replace (row 5))), .run 1 200 1,
    .begin 2 (.use 1 (.pin none)), .run 2 200 1, .begin 3 (.use 1 .evictAll), .run 3 400 1,
    .begin 1 (.use 1 (.commitOptimistic 1 0 .replace (row 6))), .run 1 200 1]

def reissued : StoreRun Nat :=
  (storeUsers 7 small.pool (OfOne 1) anyStoreAccess).follow reissuing (occupied Nat small.pool 1)

/-- Version 1 is issued twice, and two slots are live with it. -/
theorem reissued_twice :
    (storeUsers 7 small.pool (OfOne 1) anyStoreAccess).Reachable (occupied Nat small.pool 1) reissued ∧
      ¬ ((installs reissued.history.log).map Installed.version).Nodup ∧
      ∃ one other version, one ≠ other ∧ LiveInstalled reissued one version ∧ LiveInstalled reissued other version :=
  ⟨reachable_follow _ .refl, by decide +kernel, 0, 1, 1, by decide, by decide +kernel, by decide +kernel⟩

/-- Two versions, a pin of the first, a teardown. -/
def issuing : List (Stretch (StoreCall Nat)) :=
  [.begin 1 (.use 1 (.commitOptimistic 1 0 .replace (row 5))), .run 1 200 1,
    .begin 2 (.use 1 (.pin none)), .run 2 200 1,
    .begin 1 (.use 1 (.commitOptimistic 1 1 .replace (row 6))), .run 1 200 1,
    .begin 3 (.use 1 .evictAll), .run 3 400 1]

def issued : StoreRun Nat :=
  (storeUsers 7 small.pool (OfOne 1) FirstOnce).follow issuing (occupied Nat small.pool 1)

theorem issued_once : (installs issued.history.log).map Installed.version = [2, 1] ∧
    LiveInstalled issued 0 1 ∧ ((installs issued.history.log).map Installed.version).Nodup ∧
      ∀ one other version, LiveInstalled issued one version → LiveInstalled issued other version → one = other :=
  ⟨by decide +kernel, by decide +kernel, versions_nodup (reachable_follow issuing .refl)⟩

end

end ShmActors.Artifact
