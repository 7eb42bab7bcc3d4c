import ShmActors.Keyed.Catalog
import Mathlib.Data.Finset.Card

/-! Slots of the catalog going round: creators take them from the free list or
from above the high-water mark, evictions and sweeps give them back under the
next generation. -/

namespace ShmActors.Keyed

open Lib Core Program Function Actors StackActors
open Artifact (EntryState EntryWord)

inductive CatalogCall where
  | alloc
  | publish (idx keyId : Nat) (kind : RefKind)
  | tombstone (idx gen : Nat)
  | reclaim (idx : Nat)

inductive CatalogAnswer where
  | allocated (outcome : Except StoreError Nat)
  | published
  | tombstoned (won : Bool)
  | reclaimed (freed : Bool)

/-- A quiescence predicate of which nothing is known. -/
def anyPredicate (_ _ : Nat) : TableAct Bool := .pick fun choice => .ret (decide (choice ≠ 0))

def serve (catalog : Catalog) : CatalogCall → TableAct CatalogAnswer
  | .alloc => .allocated <$> catalog.allocSlot
  | .publish idx keyId kind => (fun _ => .published) <$> catalog.publishSlot idx keyId kind
  | .tombstone idx gen => .tombstoned <$> tombstoneGen idx gen
  | .reclaim idx => .reclaimed <$> tryReclaim ⟨id, fun table _ => table⟩ id idx anyPredicate

/-- Creators publish what they hold; anyone evicts and sweeps. -/
def CatalogCall.open (held : Finset Nat) : CatalogCall → Prop
  | .publish idx _ _ => idx ∈ held
  | .alloc | .tombstone _ _ | .reclaim _ => True

instance (held : Finset Nat) : (call : CatalogCall) → Decidable (call.open held)
  | .publish idx _ _ => inferInstanceAs (Decidable (idx ∈ held))
  | .alloc | .tombstone _ _ | .reclaim _ => inferInstanceAs (Decidable True)

/-- What a creator holds after a call. -/
def heldAfter (held : Finset Nat) : CatalogCall → CatalogAnswer → Finset Nat
  | .alloc, .allocated (.ok idx) => insert idx held
  | .publish idx _ _, .published => held.erase idx
  | _, _ => held

/-- What the code does not see: the slots handed out with their generation,
newest first; the creators with the slots they hold; and the allocations that
have overshot the mark. -/
structure Deliveries where
  handed : List (Nat × Nat)
  inHand : List (Nat × Nat)
  excess : Finset Nat

def Deliveries.none : Deliveries := ⟨[], [], ∅⟩

/-- A creator is given a slot. -/
def Deliveries.hand (actor idx : Nat) (table : Table) (deliveries : Deliveries) : Deliveries :=
  { deliveries with
    handed := (idx, (table.slot idx).word.gen) :: deliveries.handed
    inHand := (actor, idx) :: deliveries.inHand }

def deliver (catalog : Catalog) (actor : Nat) (site : TableSite) (before after : Table)
    (deliveries : Deliveries) : Deliveries :=
  match site with
  | .popExchange =>
    if before.lists.head () = after.lists.head () then deliveries
    else deliveries.hand actor (before.lists.head ()).slot before
  | .bump =>
    if catalog.capacity ≤ before.nextSlot then
      { deliveries with excess := insert actor deliveries.excess }
    else
      deliveries.hand actor before.nextSlot before
  | .unbump => { deliveries with excess := deliveries.excess.erase actor }
  | .exchangeWord idx .live =>
    if (before.slot idx).word = (after.slot idx).word then deliveries
    else { deliveries with inHand := deliveries.inHand.erase (actor, idx) }
  | _ => deliveries

def role : TableSite → Option (Access Unit)
  | .popLoad | .pushLoad => some (.load ())
  | .popExchange | .pushExchange _ => some (.exchange ())
  | _ => none

/-- The catalog's users, in runs in which no head of the free list comes round
between a load and its exchange. -/
def users (catalog : Catalog) :
    StackActors Unit Table TableSite Deliveries CatalogCall (Finset Nat) CatalogAnswer where
  view := listsOf
  role := role
  record := deliver catalog
  program := serve catalog
  enabled held call := call.open held
  start held _ := held
  finish := heldAfter

instance (catalog : Catalog) (held : Finset Nat) (call : CatalogCall) :
    Decidable ((users catalog).actors.enabled held call) :=
  inferInstanceAs (Decidable (call.open held))

/-- The runs in which the high-water mark does not come round either. -/
abbrev measured (catalog : Catalog) :
    Actors Table TableSite (Tags Unit × Deliveries) CatalogCall (Finset Nat) CatalogAnswer :=
  { (users catalog).actors with
    allowed := fun actor site table history => (users catalog).actors.allowed actor site table history ∧
      (site = .bump → table.nextSlot + 1 < 2 ^ 32) }

abbrev CatalogRun :=
  Config Table TableSite (Tags Unit × Deliveries) CatalogCall (Finset Nat) CatalogAnswer

def freshCatalog : CatalogRun where
  state := blankTable
  history := (⟨fun _ => 0, fun _ _ => 0⟩, .none)
  thread _ := .idle ∅

/-- How slots go round. -/
structure Recycled (table : Table) (deliveries : Deliveries) : Prop where
  /-- No index is in two hands, or twice in one. -/
  exclusive : (deliveries.inHand.map Prod.snd).Nodup
  free : ∀ entry ∈ deliveries.inHand, (table.slot entry.2).word.state = .free
  distinct : deliveries.handed.Nodup
  listed : ∃ list, Linked table.lists.next (table.lists.head ()).slot list ∧
    ∀ idx ∈ list, (table.slot idx).word.state = .free
  mark : ∀ entry ∈ deliveries.handed, entry.1 < table.nextSlot
  /-- A slot is handed out under a higher generation each time, and under none
  past the last. -/
  rising : deliveries.handed.Pairwise fun later earlier => later.1 = earlier.1 → earlier.2 < later.2
  bounded : ∀ entry ∈ deliveries.handed, entry.2 < 2 ^ 32

/-- Where a slot is. -/
inductive Place where
  | fresh
  | listed
  | held (actor : Nat)
  | out
  | swept (actor gen : Nat)
  | freed (actor : Nat)
  | parked
  deriving DecidableEq

/-- The actor a slot is with. -/
@[simp]
def Place.actor : Place → Option Nat
  | held actor | swept actor _ | freed actor => some actor
  | fresh | listed | out | parked => none

/-- What the word says of a slot in its place. -/
def Place.Agrees (word : EntryWord) : Place → Prop
  | fresh | listed | held _ | freed _ => word.state = .free
  | out => word.state = .live ∨ word.state = .tombstone
  | swept _ gen => word = ⟨gen, .reclaiming⟩
  | parked => word.state = .reclaiming

/-- Whether a slot has its next generation already. -/
@[simp]
def Place.renewed : Place → Prop
  | listed | freed _ => True
  | fresh | held _ | out | swept _ _ | parked => False

/-- A place no creator has a say in, and no actor but this one. -/
def Place.Aside (actor : Nat) : Place → Prop
  | listed | out | parked => True
  | swept other _ | freed other => other = actor
  | fresh | held _ => False

inductive Sweep where
  | idle
  | claimed (idx gen : Nat)
  | freed (idx : Nat)

/-- What an actor has in hand: the slots it may publish, the one it sweeps, and
whether its allocation has overshot. -/
structure Grip where
  held : Finset Nat
  sweep : Sweep
  excess : Bool

def Grip.place (actor : Nat) (grip : Grip) (idx : Nat) : Option Place :=
  if idx ∈ grip.held then some (.held actor)
  else match grip.sweep with
    | .idle => none
    | .claimed slot gen => if slot = idx then some (.swept actor gen) else none
    | .freed slot => if slot = idx then some (.freed actor) else none

/-- The free list and the actors' hands, against the places. -/
structure Whereabouts (inHand : List (Nat × Nat)) (contents : Unit → List Nat) (grips : Nat → Grip)
    (place : Nat → Place) : Prop where
  listed : ∀ idx, idx ∈ contents () ↔ place idx = .listed
  hands : ∀ actor idx there, (grips actor).place actor idx = some there ↔
    place idx = there ∧ there.actor = some actor
  holders : ∀ actor idx, (actor, idx) ∈ inHand ↔ place idx = .held actor
  once : (inHand.map Prod.snd).Nodup

/-- The slots' words. -/
structure Worded (table : Table) (place : Nat → Place) : Prop where
  agrees : ∀ idx, (place idx).Agrees (table.slot idx).word
  gens : ∀ idx, (table.slot idx).word.gen < 2 ^ 32

/-- What has been handed out. -/
structure Logged (handed : List (Nat × Nat)) (table : Table) (place : Nat → Place) : Prop where
  known : ∀ entry ∈ handed, place entry.1 ≠ .fresh ∧ entry.2 ≤ (table.slot entry.1).word.gen
  passed : ∀ entry ∈ handed, (place entry.1).renewed → entry.2 < (table.slot entry.1).word.gen
  rising : handed.Pairwise fun later earlier => later.1 = earlier.1 → earlier.2 < later.2

/-- The high-water mark is past the slots in use by the allocations that have
still to undo theirs. -/
structure Marked (catalog : Catalog) (nextSlot : Nat) (excess : Finset Nat) (grips : Nat → Grip)
    (place : Nat → Place) (bumped : Nat) : Prop where
  within : bumped ≤ catalog.capacity
  fresh : ∀ idx, place idx = .fresh ↔ bumped ≤ idx
  mark : nextSlot = bumped + excess.card
  small : nextSlot < 2 ^ 32
  overshot : ∀ actor, actor ∈ excess ↔ (grips actor).excess = true
  full : excess.Nonempty → bumped = catalog.capacity

structure Placed (catalog : Catalog) (deliveries : Deliveries) (table : Table) (contents : Unit → List Nat)
    (grips : Nat → Grip) (place : Nat → Place) (bumped : Nat) : Prop where
  whereabouts : Whereabouts deliveries.inHand contents grips place
  worded : Worded table place
  logged : Logged deliveries.handed table place
  marked : Marked catalog table.nextSlot deliveries.excess grips place bumped

section

variable {catalog : Catalog} {excess : Finset Nat} {table table' : Table} {lists lists' : Unit → List Nat}
  {grips : Nat → Grip} {place : Nat → Place} {bumped who idx : Nat} {kept : Grip} {deliveries : Deliveries}

theorem Whereabouts.mem_held (known : Whereabouts inHand lists grips place) (who idx : Nat) :
    idx ∈ (grips who).held ↔ place idx = .held who := by
  have here := known.hands who idx (.held who)
  simp only [Place.actor, and_true] at here
  rw [← here, Grip.place]
  by_cases mine : idx ∈ (grips who).held
  · simp [mine]
  · cases (grips who).sweep <;> simp [mine]

theorem Whereabouts.place_eq (known : Whereabouts inHand lists grips place) (who idx : Nat) :
    (grips who).place who idx = if (place idx).actor = some who then some (place idx) else none := by
  by_cases mine : (place idx).actor = some who
  · rw [if_pos mine]
    exact (known.hands who idx _).mpr ⟨rfl, mine⟩
  · rw [if_neg mine, Option.eq_none_iff_forall_not_mem]
    intro there in_
    obtain ⟨rfl, theirs⟩ := (known.hands who idx there).mp in_
    exact mine theirs

/-- A slot changes places: it was with the actor or with nobody, and goes there. -/
theorem Whereabouts.move (before : Whereabouts inHand lists grips place) (target : Place)
    (source : ∀ other, (place idx).actor = some other → other = who)
    (goal : ∀ other, target.actor = some other → other = who)
    (there : kept.place who idx = if target.actor = some who then some target else none)
    (elsewhere : ∀ entry, entry ≠ idx → kept.place who entry = (grips who).place who entry)
    (listed : ∀ entry, entry ∈ lists' () ↔
      if entry = idx then target = .listed else entry ∈ lists ())
    (holders : ∀ holder entry, (holder, entry) ∈ inHand' ↔
      if entry = idx then target = .held holder else (holder, entry) ∈ inHand)
    (once : (inHand'.map Prod.snd).Nodup) :
    Whereabouts inHand' lists' (update grips who kept) (update place idx target) where
  listed entry := by
    by_cases same : entry = idx
    · simp [listed, same]
    · simp [listed, same, before.listed]
  hands other entry kind := by
    by_cases same : entry = idx
    · subst entry
      by_cases mine : other = who
      · subst other
        rw [update_self, update_self, there]
        by_cases owned : target.actor = some who
        · rw [if_pos owned]
          constructor
          · intro eq
            cases eq
            exact ⟨rfl, owned⟩
          · rintro ⟨rfl, _⟩
            rfl
        · rw [if_neg owned]
          constructor
          · nofun
          · rintro ⟨rfl, mine⟩
            exact absurd mine owned
      · rw [update_of_ne mine, update_self, before.hands]
        constructor
        · rintro ⟨rfl, theirs⟩
          exact absurd (source other theirs) mine
        · rintro ⟨rfl, theirs⟩
          exact absurd (goal other theirs) mine
    · by_cases mine : other = who
      · subst other
        rw [update_self, update_of_ne same, elsewhere entry same, before.hands]
      · rw [update_of_ne mine, update_of_ne same, before.hands]
  holders holder entry := by
    by_cases same : entry = idx
    · simp [holders, same]
    · simp [holders, same, before.holders]
  once := once

theorem Whereabouts.unlisted (known : Whereabouts inHand lists grips place) {target : Place}
    (source : place idx ≠ .listed) (goal : target ≠ .listed) (entry : Nat) :
    entry ∈ lists () ↔ if entry = idx then target = .listed else entry ∈ lists () := by
  by_cases eq : entry = idx
  · simp [eq, known.listed, source, goal]
  · simp [eq]

theorem Worded.at (known : Worded table place) (here : place idx = there) : there.Agrees (table.slot idx).word :=
  here ▸ known.agrees idx

/-- A word in use is of a slot that is out. -/
theorem Worded.out (known : Worded table place)
    (inUse : (table.slot idx).word.state = .live ∨ (table.slot idx).word.state = .tombstone) : place idx = .out := by
  have agrees := known.agrees idx
  cases here : place idx <;> simp_all [Place.Agrees]

theorem Worded.move (before : Worded table place) (target : Place)
    (others : ∀ entry, entry ≠ idx → (table'.slot entry).word = (table.slot entry).word)
    (agrees : target.Agrees (table'.slot idx).word) (gen : (table'.slot idx).word.gen < 2 ^ 32) :
    Worded table' (update place idx target) where
  agrees entry := by
    by_cases same : entry = idx
    · simpa [same] using agrees
    · simpa [same, others] using before.agrees entry
  gens entry := by
    by_cases same : entry = idx
    · simpa [same] using gen
    · simpa [same, others] using before.gens entry

theorem Logged.move (before : Logged handed table place) (target : Place)
    (others : ∀ entry, entry ≠ idx → (table'.slot entry).word = (table.slot entry).word)
    (used : target ≠ .fresh) (gen : (table.slot idx).word.gen ≤ (table'.slot idx).word.gen)
    (renewed : target.renewed → (place idx).renewed ∨
      (table.slot idx).word.gen < (table'.slot idx).word.gen) :
    Logged handed table' (update place idx target) where
  known entry in_ := by
    by_cases same : entry.1 = idx
    · simpa [same, used] using (same ▸ (before.known entry in_).2).trans gen
    · simpa [same, others] using before.known entry in_
  passed entry in_ next := by
    by_cases same : entry.1 = idx
    · rw [same, update_self] at next
      rw [same]
      rcases renewed next with already | bumped
      · exact (same ▸ before.passed entry in_ (same ▸ already)).trans_le gen
      · exact (same ▸ (before.known entry in_).2).trans_lt bumped
    · rw [update_of_ne same] at next
      simpa [same, others] using before.passed entry in_ next
  rising := before.rising

/-- A slot that nobody can have under its generation is handed out. -/
theorem Logged.hand (before : Logged handed table place)
    (ready : (place idx).renewed ∨ place idx = .fresh) (words : table'.slot = table.slot) :
    Logged ((idx, (table.slot idx).word.gen) :: handed) table' (update place idx (.held who)) where
  known entry in_ := by
    rcases List.mem_cons.mp in_ with rfl | old
    · simp [words]
    · rw [words]
      by_cases same : entry.1 = idx
      · simpa [same] using same ▸ (before.known entry old).2
      · simpa [same] using before.known entry old
  passed entry in_ next := by
    rcases List.mem_cons.mp in_ with rfl | old
    · simp at next
    · rw [words]
      by_cases same : entry.1 = idx
      · simp [same] at next
      · rw [update_of_ne same] at next
        exact before.passed entry old next
  rising := by
    refine List.pairwise_cons.mpr ⟨fun entry old same => ?_, before.rising⟩
    simp only at same
    rcases ready with renewed | fresh
    · rw [same] at renewed ⊢
      exact before.passed entry old renewed
    · exact absurd (same ▸ fresh) (before.known entry old).1

variable (before : Marked catalog nextSlot excess grips place bumped)

include before

theorem Marked.move (target : Place) (source : place idx ≠ .fresh) (goal : target ≠ .fresh)
    (same : kept.excess = (grips who).excess) :
    Marked catalog nextSlot excess (update grips who kept) (update place idx target) bumped where
  within := before.within
  fresh entry := by
    by_cases eq : entry = idx
    · have used : ¬bumped ≤ idx := fun beyond => source ((before.fresh idx).mpr beyond)
      simp [eq, goal, used]
    · simp [eq, before.fresh]
  mark := before.mark
  small := before.small
  overshot other := by
    by_cases mine : other = who
    · simp [mine, same, before.overshot]
    · simp [mine, before.overshot]
  full := before.full

omit before

/-- Nobody has undone a bump to come. -/
theorem Marked.over_empty (known : Marked catalog nextSlot excess grips place bumped)
    (below : nextSlot < catalog.capacity) : excess = ∅ ∧ bumped = nextSlot := by
  have none : excess = ∅ := by
    by_contra some
    have full := known.full (Finset.nonempty_iff_ne_empty.mpr some)
    have mark := known.mark
    omega
  refine ⟨none, ?_⟩
  have mark := known.mark
  rw [none, Finset.card_empty] at mark
  exact mark.symm

include before

theorem Marked.take (below : nextSlot < catalog.capacity) (same : kept.excess = (grips who).excess) :
    Marked catalog (nextSlot + 1) excess (update grips who kept)
      (update place nextSlot (.held who)) (nextSlot + 1) := by
  obtain ⟨none, eq⟩ := before.over_empty below
  refine ⟨below, fun entry => ?_, by simp [none], ?_, fun other => ?_, by simp [none]⟩
  · have fresh := before.fresh entry
    by_cases here : entry = nextSlot
    · simp [here]
    · rw [update_of_ne here, fresh]
      omega
  · have small := catalog.small
    omega
  · by_cases mine : other = who
    · simp [mine, same, before.overshot]
    · simp [mine, before.overshot]

theorem Marked.overshoot
    (beyond : catalog.capacity ≤ nextSlot) (one : (grips who).excess = false) (now : kept.excess = true)
    (room : nextSlot + 1 < 2 ^ 32) :
    Marked catalog (nextSlot + 1) (insert who excess) (update grips who kept) place bumped where
  within := before.within
  fresh := before.fresh
  mark := by
    rw [Finset.card_insert_of_notMem (by simp [before.overshot, one]), before.mark]
    omega
  small := room
  overshot other := by
    by_cases mine : other = who
    · simp [mine, now]
    · simp [mine, before.overshot]
  full _ := by
    by_cases some : excess.Nonempty
    · exact before.full some
    · have mark := before.mark
      have within := before.within
      rw [Finset.not_nonempty_iff_eq_empty.mp some, Finset.card_empty] at mark
      omega

theorem Marked.undo (mine : (grips who).excess = true) (now : kept.excess = false) :
    Marked catalog ((nextSlot + 2 ^ 32 - 1) % 2 ^ 32) (excess.erase who) (update grips who kept)
      place bumped := by
  have in_ := (before.overshot who).mpr mine
  have mark := before.mark
  have small := before.small
  have card := Finset.card_erase_add_one in_
  have next : (nextSlot + 2 ^ 32 - 1) % 2 ^ 32 = bumped + (excess.erase who).card := by
    rw [show nextSlot + 2 ^ 32 - 1 = (nextSlot - 1) + 2 ^ 32 by omega, Nat.add_mod_right,
      Nat.mod_eq_of_lt (by omega)]
    omega
  refine ⟨before.within, before.fresh, next, Nat.mod_lt _ (by decide), fun other => ?_, fun _ => ?_⟩
  · by_cases same : other = who
    · simp [same, now]
    · simp [same, before.overshot]
  · exact before.full ⟨who, in_⟩

omit before

/-- A slot no creator holds changes places. -/
theorem Placed.pass (before : Placed catalog deliveries table lists grips place bumped)
    (target : Place) (source : (place idx).Aside who) (goal : target.Aside who)
    (there : kept.place who idx = if target.actor = some who then some target else none)
    (elsewhere : ∀ entry, entry ≠ idx → kept.place who entry = (grips who).place who entry)
    (excess : kept.excess = (grips who).excess)
    (listed : ∀ entry, entry ∈ lists' () ↔
      if entry = idx then target = .listed else entry ∈ lists ())
    (mark : table'.nextSlot = table.nextSlot)
    (others : ∀ entry, entry ≠ idx → (table'.slot entry).word = (table.slot entry).word)
    (agrees : target.Agrees (table'.slot idx).word) (bound : (table'.slot idx).word.gen < 2 ^ 32)
    (gen : (table.slot idx).word.gen ≤ (table'.slot idx).word.gen)
    (renewed : target.renewed → (place idx).renewed ∨
      (table.slot idx).word.gen < (table'.slot idx).word.gen) :
    Placed catalog deliveries table' lists' (update grips who kept)
      (update place idx target) bumped := by
  have mine : ∀ {there : Place}, there.Aside who → ∀ other, there.actor = some other → other = who := by
    intro there aside other theirs
    cases there <;> simp_all [Place.Aside]
  have used : ∀ {there : Place}, there.Aside who → there ≠ .fresh := by
    rintro _ aside rfl
    exact aside
  have unheld : ∀ {there : Place}, there.Aside who → ∀ holder, there ≠ .held holder := by
    rintro _ aside _ rfl
    exact aside
  refine ⟨?_, before.worded.move target others agrees bound,
    before.logged.move target others (used goal) gen renewed, ?_⟩
  · refine before.whereabouts.move target (mine source) (mine goal) there elsewhere listed ?_
      before.whereabouts.once
    intro holder entry
    by_cases same : entry = idx
    · simp [same, before.whereabouts.holders, unheld source, unheld goal]
    · simp [same]
  · rw [mark]
    exact before.marked.move target (used source) (used goal) excess

theorem Placed.congr (before : Placed catalog deliveries table lists grips place bumped)
    (mark : table'.nextSlot = table.nextSlot) (words : ∀ idx, (table'.slot idx).word = (table.slot idx).word) :
    Placed catalog deliveries table' lists grips place bumped where
  whereabouts := before.whereabouts
  worded := ⟨by simpa only [words] using before.worded.agrees, by simpa only [words] using before.worded.gens⟩
  logged := ⟨by simpa only [words] using before.logged.known,
    by simpa only [words] using before.logged.passed, before.logged.rising⟩
  marked := by rw [mark]; exact before.marked

end

/-- Places can be found for the slots. The nodes are those a sweep has freed
and not yet pushed. -/
def ownership (catalog : Catalog) : (users catalog).Ownership Grip where
  own deliveries table contents grips := ∃ place bumped, Placed catalog deliveries table contents grips place bumped
  nodes grip idx := grip.sweep = .freed idx ∧ idx ∉ grip.held
  exclusive := by
    rintro _ _ _ grips ⟨place, _, placed⟩ first second slot inFirst inSecond
    have there : ∀ actor, (grips actor).sweep = .freed slot ∧ slot ∉ (grips actor).held →
        place slot = .freed actor := fun actor node =>
      ((placed.whereabouts.hands actor slot (.freed actor)).mp (by simp [Grip.place, node])).1
    have here := there first inFirst
    rw [there second inSecond] at here
    exact (Place.freed.inj here).symm
  outside := by
    rintro _ _ _ grips ⟨place, bumped, placed⟩ actor slot node
    have here : place slot = .freed actor :=
      ((placed.whereabouts.hands actor slot (.freed actor)).mp (by simp [Grip.place, node])).1
    refine ⟨fun atEnd => ?_, fun _ listed => ?_⟩
    · have used : ¬bumped ≤ slot := fun beyond => by
        have fresh := (placed.marked.fresh slot).mpr beyond
        rw [here] at fresh
        cases fresh
      have within := placed.marked.within
      have small := catalog.small
      simp only [listEnd] at atEnd
      omega
    · have there := (placed.whereabouts.listed slot).mp listed
      rw [here] at there
      cases there
  stable := by
    rintro _ _ _ _ memory ⟨place, bumped, placed⟩
    exact ⟨place, bumped, placed.congr rfl fun _ => rfl⟩

def popSites (catalog : Catalog) : (users catalog).StackSites () where
  load := .popLoad
  next := .popNext
  exchange := .popExchange
  quiet_exchange _ _ _ := by simp [users, deliver]

def pushSites (catalog : Catalog) (idx : Nat) : (users catalog).StackSites () where
  load := .pushLoad
  next := .pushNext
  exchange := .pushExchange idx
  quiet_exchange _ _ _ := rfl

/-- An access of which nothing is recorded, and which leaves the slots' words, the
mark and the free list as they are. -/
def Mild (catalog : Catalog) (site : TableSite) (update : Table → Table) : Prop :=
  role site = none ∧ (∀ actor before after past, deliver catalog actor site before after past = past) ∧
    ∀ table, (update table).nextSlot = table.nextSlot ∧ (update table).lists = table.lists ∧
      ∀ idx, ((update table).slot idx).word = (table.slot idx).word

section

variable {who idx : Nat} {entry gen : Nat} {held : Finset Nat}

theorem does_mild (every : code.Every (Mild catalog)) :
    Does (ownership catalog) who code (fun _ kept => kept = grip) grip := by
  refine does_of_every every (fun _ _ mild => mild.1) (fun _ _ mild table => (mild.2.2 table).2.1) ?_
  rintro site update ⟨_, quiet, same⟩ past table lists others ⟨place, bumped, placed⟩
  rw [show (users catalog).record who site table (update table) past = past from quiet who _ _ _]
  exact ⟨place, bumped, placed.congr (same table).1 (same table).2.2⟩

theorem does_store (mild : Mild catalog site (cell.set val)) :
    Does (ownership catalog) who (store site cell val) (fun _ kept => kept = grip) grip :=
  does_mild ⟨mild, fun _ => trivial⟩

/-- A slot given back to the free list. -/
theorem does_pushFree (held : Finset Nat) (free : idx ∉ held) :
    Does (ownership catalog) who (pushFree idx)
      (fun _ kept => kept = ⟨held, .idle, false⟩) ⟨held, .freed idx, false⟩ := by
  refine does_treiberPush (pushSites catalog idx) ⟨rfl, free⟩ ?_
  rintro past table lists others new ⟨place, bumped, placed⟩ same ne
  have here : place idx = .freed who :=
    ((placed.whereabouts.hands who idx (.freed who)).mp (by simp [Grip.place, same, free])).1
  refine ⟨⟨held, .idle, false⟩, ⟨_, bumped, placed.pass .listed (by simp [here, Place.Aside]) trivial
    (by simp [Grip.place, free]) (fun entry other => ?_) (by rw [same]) (fun entry => ?_) rfl
    (fun _ _ => rfl) (placed.worded.at here :) (placed.worded.gens idx) le_rfl (by simp [here])⟩, rfl⟩
  · simp [Grip.place, same, Ne.symm other]
  · by_cases eq : entry = idx <;> simp [eq]

theorem stays (same : grips who = grip) : update grips who grip = grips := by
  rw [← same, update_eq_self]

/-- An exchange of a slot's word, by what happens when it is won and when it is lost. -/
theorem does_exchangeWord (won : ∀ past table lists grips, (ownership catalog).own past table lists grips →
      grips who = grip → (table.slot idx).word = now → ∃ kept, (ownership catalog).own
          (deliver catalog who (.exchangeWord idx goal) table ((wordOf idx).set new table) past)
          ((wordOf idx).set new table) lists (update grips who kept) ∧ post none kept)
    (lost : ∀ past table lists grips, (ownership catalog).own past table lists grips →
      grips who = grip → (table.slot idx).word ≠ now → post (some (table.slot idx).word) grip) :
    Does (ownership catalog) who (compareExchange (.exchangeWord idx goal) (wordOf idx) now new) post grip := by
  have quiet : ∀ table past, deliver catalog who (.exchangeWord idx goal) table table past = past := by
    intro table past
    cases goal <;> simp [deliver]
  refine does_act rfl (fun table => ?_) fun past table lists grips owned same => ?_
  · by_cases got : (wordOf idx).get table = now
    · rw [if_pos got]
      rfl
    · rw [if_neg got]
  · by_cases got : (wordOf idx).get table = now
    · simp only [if_pos got]
      obtain ⟨kept, after, res⟩ := won past table lists grips owned same got
      exact ⟨kept, after, rfl, res⟩
    · simp only [if_neg got]
      refine ⟨grip, ?_, rfl, lost past table lists grips owned same got⟩
      rw [stays same, show (users catalog).record who _ table table past = past from quiet table past]
      exact owned

/-- `cas_state`, by the one exchange that is won. -/
theorem does_casState (won : ∀ past table lists grips gen, (ownership catalog).own past table lists grips →
      grips who = grip → (table.slot idx).word = ⟨gen, source⟩ → ∃ kept, (ownership catalog).own
          (deliver catalog who (.exchangeWord idx goal) table ((wordOf idx).set ⟨gen, goal⟩ table) past)
          ((wordOf idx).set ⟨gen, goal⟩ table) lists (update grips who kept) ∧ post true kept)
    (lost : ∀ past table lists grips, (ownership catalog).own past table lists grips →
      grips who = grip → (table.slot idx).word.state ≠ source → post false grip) :
    Does (ownership catalog) who (casState idx source goal) post grip := by
  refine does_bind (does_act rfl (fun _ => rfl) ?_)
  intro past table lists grips owned same
  refine ⟨grip, (stays same).symm ▸ owned, rfl, ?_⟩
  -- a word that is not in the state asked for has been seen that way
  refine wp_repeatFrom (fun (current : EntryWord) kept => kept = (none, grip) ∧
    (current.state ≠ source → post false grip)) ?_ ⟨rfl, lost past table lists grips owned same⟩
  rintro current _ ⟨rfl, otherwise⟩
  by_cases ready : current.state = source
  · rw [if_neg (not_not.mpr ready)]
    have exchanged : Does (ownership catalog) who
        (compareExchange (.exchangeWord idx goal) (wordOf idx) current ⟨current.gen, goal⟩)
        (fun out kept => out.elim (post true kept)
          fun now => kept = grip ∧ (now.state ≠ source → post false grip)) grip := by
      refine does_exchangeWord ?_ ?_
      · intro past table lists grips owned same got
        exact won past table lists grips current.gen owned same (ready ▸ got)
      · intro past table lists grips owned same _
        exact ⟨rfl, lost past table lists grips owned same⟩
    refine wp_then exchanged fun out kept new => ?_
    cases out with
    | none => exact new
    | some now => exact ⟨Prod.ext new.1 new.2.1, new.2.2⟩
  · rw [if_pos ready]
    exact ⟨rfl, otherwise ready⟩

theorem mild_field {read : Slot → Value} (plain : role site = none)
    (quiet : ∀ who old new past, deliver catalog who site old new past = past)
    (same : ∀ slot, (write val slot).word = slot.word) :
    Mild catalog site (((slotAt idx).field read write).set val) := by
  refine ⟨plain, quiet, fun table => ⟨rfl, rfl, fun entry => ?_⟩⟩
  by_cases eq : entry = idx
  · simp [Ref.field, slotAt, eq, same]
  · simp [Ref.field, slotAt, eq]

theorem set_word (idx : Nat) (word : EntryWord) (table : Table) :
    (((wordOf idx).set word table).slot idx).word = word := by
  simp [wordOf, Ref.field, slotAt]

theorem set_word_of_ne (other : entry ≠ idx) (word : EntryWord) (table : Table) :
    (((wordOf idx).set word table).slot entry).word = (table.slot entry).word := by
  simp [wordOf, Ref.field, slotAt, other]

/-- A slot's word changes and the slot with it, and it is on no list. -/
theorem passes (placed : Placed catalog past table lists grips place bumped) (same : grips who = grip)
    (got : (table.slot idx).word = old) (target : Place) (source : (place idx).Aside who) (goal : target.Aside who)
    (unlisted : place idx ≠ .listed) (unlisted' : target ≠ .listed)
    (there : kept.place who idx = if target.actor = some who then some target else none)
    (elsewhere : ∀ entry, entry ≠ idx → kept.place who entry = grip.place who entry)
    (excess : kept.excess = grip.excess) (agrees : target.Agrees word)
    (gen : word.gen = old.gen ∧ ¬target.renewed ∨ old.gen < word.gen ∧ word.gen < 2 ^ 32) :
    (ownership catalog).own past ((wordOf idx).set word table) lists (update grips who kept) := by
  refine ⟨_, bumped, placed.pass target source goal there (by rwa [same]) (by rwa [same])
    (placed.whereabouts.unlisted unlisted unlisted') rfl (fun _ other => set_word_of_ne other word table)
    ?_ ?_ ?_ fun next => .inr ?_⟩
  all_goals rw [set_word]
  · exact agrees
  all_goals
    have bound := placed.worded.gens idx
    subst old
    grind

theorem does_tombstoneGen (gen : Nat) :
    Does (ownership catalog) who (tombstoneGen idx gen) (fun _ kept => kept = grip) grip := by
  refine does_bind (does_exchangeWord ?_ fun _ _ _ _ _ _ _ => ⟨rfl, rfl⟩)
  rintro past table lists grips ⟨place, bumped, placed⟩ same got
  have out : place idx = .out := placed.worded.out (by simp [got])
  have here := placed.whereabouts.place_eq who idx
  rw [same, out] at here
  exact ⟨grip, passes placed same got .out (by simp [out, Place.Aside]) trivial (by simp [out]) (by simp) here
    (fun _ _ => rfl) rfl (.inr rfl) (by simp), rfl, rfl⟩

/-- What an actor holds between calls. -/
def atRest (held : Finset Nat) : Grip := ⟨held, .idle, false⟩

theorem place_claimed (other : entry ≠ idx) :
    Grip.place who ⟨held, .claimed idx gen, false⟩ entry = (atRest held).place who entry := by
  show _ = Grip.place who ⟨held, .idle, false⟩ entry
  simp [Grip.place, Ne.symm other]

theorem does_publishSlot (keyId : Nat) (kind : RefKind) (mine : idx ∈ held) :
    Does (ownership catalog) who (catalog.publishSlot idx keyId kind)
      (fun _ kept => kept = atRest (held.erase idx)) (atRest held) := by
  have written : Does (ownership catalog) who
      (writeFields idx keyId (catalog.artifactIdFor idx) (catalog.headOffFor idx) kind)
      (fun _ kept => kept = atRest held) (atRest held) :=
    does_mild ⟨mild_field rfl (fun _ _ _ _ => rfl) fun _ => rfl, fun _ =>
      ⟨mild_field rfl (fun _ _ _ _ => rfl) fun _ => rfl, fun _ =>
        ⟨mild_field rfl (fun _ _ _ _ => rfl) fun _ => rfl, fun _ =>
          ⟨mild_field rfl (fun _ _ _ _ => rfl) fun _ => rfl, fun _ => trivial⟩⟩⟩⟩
  refine does_bind (does_mono written ?_)
  rintro _ _ rfl
  have here : ∀ {past table lists grips place bumped},
      Placed catalog past table lists grips place bumped → grips who = atRest held →
      place idx = .held who := fun placed same =>
    (placed.whereabouts.mem_held who idx).mp (by simpa [same, atRest] using mine)
  refine does_bind (does_casState ?_ ?_)
  · rintro past table lists grips gen ⟨place, bumped, placed⟩ same got
    have bound := placed.worded.gens idx
    rw [got] at bound
    have shown : deliver catalog who (.exchangeWord idx .live) table ((wordOf idx).set ⟨gen, .live⟩ table) past =
        { past with inHand := past.inHand.erase (who, idx) } := by
      simp [deliver, set_word, got]
    have unique : past.inHand.Nodup := placed.whereabouts.once.of_map _
    refine ⟨atRest (held.erase idx), ?_, rfl, rfl⟩
    rw [shown]
    refine ⟨update place idx .out, bumped, ⟨?_, ?_, ?_, ?_⟩⟩
    · refine placed.whereabouts.move .out (by simp [here placed same]) (by simp) (by simp [Grip.place, atRest])
        (fun entry other => by simp [Grip.place, atRest, same, other])
        (placed.whereabouts.unlisted (by simp [here placed same]) (by simp)) (fun holder entry => ?_) ?_
      · rw [unique.mem_erase_iff]
        by_cases eq : entry = idx
        · simp [eq, placed.whereabouts.holders, here placed same, eq_comm]
        · simp [eq]
      · exact placed.whereabouts.once.sublist (List.erase_sublist.map _)
    · exact placed.worded.move .out (fun _ other => set_word_of_ne other _ _)
        (by rw [set_word]; exact .inl rfl) (by rw [set_word]; exact bound)
    · exact placed.logged.move .out (fun _ other => set_word_of_ne other _ _) (by simp)
        (by rw [set_word, got]) (by simp)
    · exact placed.marked.move .out (by simp [here placed same]) (by simp) (by rw [same]; rfl)
  · rintro past table lists grips ⟨place, bumped, placed⟩ same other
    exact absurd (placed.worded.at (here placed same)) other

theorem does_finishReclaim (free : idx ∉ held) :
    Does (ownership catalog) who (finishReclaim idx)
      (fun next kept => kept = ⟨held, if next.isSome then .freed idx else .idle, false⟩)
      ⟨held, .claimed idx gen, false⟩ := by
  have here : ∀ {past table lists grips place bumped},
      Placed catalog past table lists grips place bumped →
      grips who = ⟨held, .claimed idx gen, false⟩ →
      place idx = .swept who gen ∧ (table.slot idx).word = ⟨gen, .reclaiming⟩ := by
    intro past table lists grips place bumped placed same
    have there := ((placed.whereabouts.hands who idx (.swept who gen)).mp
      (by simp [Grip.place, same, free])).1
    exact ⟨there, placed.worded.at there⟩
  refine does_bind (does_act rfl (fun _ => rfl) ?_)
  rintro past table lists grips ⟨place, bumped, placed⟩ same
  obtain ⟨there, word⟩ := here placed same
  have got : (wordOf idx).get table = ⟨gen, .reclaiming⟩ := word
  rw [got]
  by_cases last : 2 ^ 32 ≤ gen + 1
  · refine ⟨⟨held, .idle, false⟩, ?_, rfl, ?_⟩
    · refine ⟨_, bumped, placed.pass .parked (by simp [there, Place.Aside]) trivial (by simp [Grip.place, free])
        (fun entry other => by simp [Grip.place, same, Ne.symm other]) (by rw [same])
        (placed.whereabouts.unlisted (by simp [there]) (by simp)) rfl
        (fun _ _ => rfl) (congrArg EntryWord.state word) (placed.worded.gens idx) le_rfl (by simp)⟩
    · show Does _ _ (ite (2 ^ 32 ≤ gen + 1) _ _) _ _
      rw [if_pos last]
      exact ⟨rfl, rfl⟩
  · refine ⟨⟨held, .claimed idx gen, false⟩, ?_, rfl, ?_⟩
    · rw [stays same]
      exact ⟨place, bumped, placed⟩
    · show Does _ _ (ite (2 ^ 32 ≤ gen + 1) _ _) _ _
      rw [if_neg last]
      refine does_bind (does_mono
        (does_store (mild_field rfl (fun _ _ _ _ => rfl) fun _ => rfl)) ?_)
      rintro _ _ rfl
      refine does_bind (does_act rfl (fun _ => rfl) ?_)
      rintro past table lists grips ⟨place, bumped, placed⟩ same
      obtain ⟨there, word⟩ := here placed same
      refine ⟨⟨held, .freed idx, false⟩, ?_, rfl, rfl, rfl⟩
      exact passes placed same word (.freed who) (by simp [there, Place.Aside]) rfl (by simp [there]) (by simp)
        (by simp [Grip.place, free]) (fun entry other => by simp [Grip.place, Ne.symm other]) rfl rfl
        (.inr ⟨Nat.lt_succ_self gen, Nat.not_le.mp last⟩)

theorem does_abortReclaim (free : idx ∉ held) :
    Does (ownership catalog) who (abortReclaim idx)
      (fun _ kept => kept = atRest held) ⟨held, .claimed idx gen, false⟩ := by
  have here : ∀ {past table lists grips place bumped},
      Placed catalog past table lists grips place bumped →
      grips who = ⟨held, .claimed idx gen, false⟩ → place idx = .swept who gen := fun placed same =>
    ((placed.whereabouts.hands who idx (.swept who gen)).mp (by simp [Grip.place, same, free])).1
  refine does_bind (does_act rfl (fun _ => rfl) ?_)
  rintro past table lists grips ⟨place, bumped, placed⟩ same
  have got : (wordOf idx).get table = ⟨gen, .reclaiming⟩ := placed.worded.at (here placed same)
  refine ⟨_, ⟨place, bumped, (stays same).symm ▸ placed⟩, rfl, ?_⟩
  refine does_act rfl (fun _ => rfl) ?_
  rintro past table lists grips ⟨place, bumped, placed⟩ same
  refine ⟨atRest held, ?_, rfl, rfl⟩
  rw [got]
  exact passes placed same (placed.worded.at (here placed same)) .out (by simp [here placed same, Place.Aside])
    trivial (by simp [here placed same]) (by simp) (by simp [Grip.place, atRest, free])
    (fun _ other => (place_claimed other).symm) rfl (.inr rfl) (by simp)

theorem does_beginReclaim (held : Finset Nat) :
    Does (ownership catalog) who (casState idx .tombstone .reclaiming)
      (fun won kept => if won then idx ∉ held ∧ ∃ gen, kept = ⟨held, .claimed idx gen, false⟩
        else kept = atRest held) (atRest held) := by
  refine does_casState ?_ fun _ _ _ _ _ _ _ => rfl
  rintro past table lists grips gen ⟨place, bumped, placed⟩ same got
  have out : place idx = .out := placed.worded.out (by simp [got])
  have free : idx ∉ held := by
    have mine := placed.whereabouts.mem_held who idx
    rw [same, out] at mine
    simpa [atRest] using mine
  refine ⟨⟨held, .claimed idx gen, false⟩, ?_, free, gen, rfl⟩
  exact passes placed same got (.swept who gen) (by simp [out, Place.Aside]) rfl (by simp [out]) (by simp)
    (by simp [Grip.place, free]) (fun _ other => place_claimed other) rfl rfl (by simp)

theorem does_load (plain : role site = none)
    (quiet : ∀ who old new past, deliver catalog who site old new past = past) :
    Does (ownership catalog) who (load site cell) (fun _ kept => kept = grip) grip :=
  does_mild ⟨⟨plain, quiet, fun _ => ⟨rfl, rfl, fun _ => rfl⟩⟩, fun _ => trivial⟩

section

variable {State Site History Op Local Result : Type} {actors : Actors State Site History Op Local Result}
  {inv : History → State → (Nat → Option (Pending Unit) × Grip) → Prop} {place : TableSite → Site}

/-- A sweep of one slot, among actors to whom the catalog's code is known to do
what it does. -/
theorem wp_tryReclaim (catalog : Catalog) (held : Finset Nat)
    (lift : ∀ {Value : Type} {code : TableAct Value} {post : Value → Grip → Prop} {grip : Grip},
      Does (ownership catalog) who code post grip →
      actors.wp inv who (code.within table place)
        (fun val kept => kept.1 = none ∧ post val kept.2) (none, grip))
    (quiet : ∀ artifactId headOff grip, actors.wp inv who (quiescent artifactId headOff)
      (fun _ kept => kept = (none, grip)) (none, grip)) :
    actors.wp inv who (tryReclaim table place idx quiescent) (fun _ kept => kept = (none, atRest held))
      (none, atRest held) := by
  have next : ∀ {Value Other : Type} {code : TableAct Value} {rest : Value → Program State Site Other}
      {between : Value → Grip → Prop} {post : Other → Option (Pending Unit) × Grip → Prop} {grip : Grip},
      Does (ownership catalog) who code between grip →
      (∀ val kept, between val kept → actors.wp inv who (rest val) post (none, kept)) →
      actors.wp inv who (code.within table place >>= rest) post (none, grip) := by
    intro Value Other code rest between post grip does later
    refine wp_then (lift does) fun val kept new => ?_
    rw [show kept = (none, kept.2) from Prod.ext new.1 rfl]
    exact later val kept.2 new.2
  refine next (does_beginReclaim held) fun won kept claimed => ?_
  cases won with
  | false => exact congrArg (Prod.mk none) claimed
  | true =>
    obtain ⟨free, gen, rfl⟩ := claimed
    refine next (does_load rfl fun _ _ _ _ => rfl) ?_
    rintro artifactId _ rfl
    refine next (does_load rfl fun _ _ _ _ => rfl) ?_
    rintro headOff _ rfl
    refine wp_then (quiet artifactId headOff _) ?_
    rintro calm _ rfl
    cases calm with
    | false => exact next (does_abortReclaim free) fun _ _ done => congrArg (Prod.mk none) done
    | true =>
      refine next (does_finishReclaim free) ?_
      rintro out _ rfl
      cases out with
      | none => exact rfl
      | some gen => exact next (does_pushFree held free) fun _ _ done => congrArg (Prod.mk none) done

end

/-- A bump past the end, or its undoing, is nothing to the slots in hand. -/
theorem Whereabouts.excess {excess : Bool}
    (old : Whereabouts inHand lists grips place) (same : grips who = ⟨held, sweep, excess⟩) (now : Bool) :
    Whereabouts inHand lists (update grips who ⟨held, sweep, now⟩) place where
  listed := old.listed
  hands other entry there := by
    have known := old.hands other entry there
    by_cases mine : other = who
    · subst other
      rw [same] at known
      rw [update_self]
      exact known
    · rwa [update_of_ne mine]
  holders := old.holders
  once := old.once

/-- What handing a slot over does to the hands. -/
theorem Whereabouts.hand (old : Whereabouts inHand lists grips place) (same : grips who = atRest held)
    (loose : (place idx).actor = none) (listed : ∀ entry, entry ∈ lists' () ↔ entry ≠ idx ∧ entry ∈ lists ()) :
    Whereabouts ((who, idx) :: inHand) lists' (update grips who (atRest (insert idx held)))
      (update place idx (.held who)) := by
  have unheld : ∀ holder, (holder, idx) ∉ inHand := by
    intro holder in_
    have there := (old.holders holder idx).mp in_
    simp [there] at loose
  refine old.move (.held who) (fun _ theirs => nomatch loose.symm.trans theirs) (by simp) (by simp [Grip.place, atRest])
    (fun entry other => by simp [Grip.place, atRest, same, other]) (fun entry => ?_) (fun holder entry => ?_) ?_
  · by_cases eq : entry = idx
    · simp [listed, eq]
    · simp [listed, eq]
  · by_cases eq : entry = idx
    · simp [eq, unheld, eq_comm]
    · simp [eq]
  · refine List.nodup_cons.mpr ⟨fun in_ => ?_, old.once⟩
    obtain ⟨⟨holder, _⟩, there, rfl⟩ := List.mem_map.mp in_
    exact unheld holder there

theorem does_popFree (held : Finset Nat) :
    Does (ownership catalog) who popFree
      (fun popped kept => kept = match popped with
        | some idx => atRest (insert idx held)
        | none => atRest held) (atRest held) := by
  refine does_treiberPop (popSites catalog) rfl ?_
  rintro past table lists others rest new ⟨place, bumped, placed⟩ same shape once ne
  generalize top : (((users catalog).view.get table).head ()).slot = idx at shape once
  have here := (placed.whereabouts.listed idx).mp (shape ▸ List.mem_cons_self)
  have shown : (users catalog).record who (popSites catalog).exchange table
      (((users catalog).view.head ()).set new table) past = past.hand who idx table := by
    have diff : (table.lists.head ()) ≠ new := Ne.symm ne
    have head : (table.lists.head ()).slot = idx := top
    simp only [users, deliver, popSites, StackView.head]
    rw [if_neg (by simpa [listsOf] using diff), head]
  refine ⟨atRest (insert idx held), ?_, rfl⟩
  rw [shown]
  refine ⟨update place idx (.held who), bumped, ⟨?_, ?_, ?_, ?_⟩⟩
  · refine placed.whereabouts.hand same (by simp [here]) fun entry => ?_
    have absent := once ()
    rw [update_self] at absent ⊢
    rw [shape, List.mem_cons]
    constructor
    · intro in_
      exact ⟨fun eq => absent (eq ▸ in_), .inr in_⟩
    · rintro ⟨other, eq | in_⟩
      · exact absurd eq other
      · exact in_
  · exact placed.worded.move (.held who) (fun _ _ => rfl) (placed.worded.at here :) (placed.worded.gens idx)
  · exact placed.logged.hand (.inl (by simp [here])) rfl
  · exact placed.marked.move (.held who) (by simp [here]) (by simp) (by rw [same]; rfl)

theorem lists_setNextSlot (catalog : Catalog) (next : Nat) (table : Table) :
    (users catalog).view.get (nextSlotOf.set next table) = (users catalog).view.get table := rfl

theorem measured_track (catalog : Catalog) (who : Nat) (site : TableSite) (old new : Table)
    (past : Tags Unit × Deliveries) :
    (measured catalog).track who site old new past =
      (users catalog).actors.track who site old new past := rfl

theorem wp_measured (does : Does (ownership catalog) who code post grip) :
    (measured catalog).wp (ownership catalog).inv who code
      (fun val kept => kept.1 = none ∧ post val kept.2) (none, grip) :=
  wp_transfer id (measured_track catalog who)
    (fun _ _ _ (may : _ ∧ _) => may.1) does

/-- The undoing of a bump past the end. -/
theorem wp_unbump (held : Finset Nat) :
    (measured catalog).wp (ownership catalog).inv who
      (fetchUpdate .unbump nextSlotOf fun next => (next + 2 ^ 32 - 1) % 2 ^ 32)
      (fun _ kept => kept = (none, atRest held)) (none, ⟨held, .idle, true⟩) := by
  refine wp_act_plain (measured_track catalog who) rfl (fun _ => lists_setNextSlot catalog _ _) ?_
  rintro past table lists grips ⟨place, bumped, placed⟩ same _
  exact ⟨atRest held, ⟨place, bumped, ⟨placed.whereabouts.excess same false,
    ⟨placed.worded.agrees, placed.worded.gens⟩,
    ⟨placed.logged.known, placed.logged.passed, placed.logged.rising⟩,
    placed.marked.undo (by rw [same]) rfl⟩⟩, rfl⟩

theorem wp_allocSlot (held : Finset Nat) :
    (measured catalog).wp (ownership catalog).inv who catalog.allocSlot
      (fun out kept => kept = (none, atRest (match out with
        | .ok idx => insert idx held
        | .error _ => held))) (none, atRest held) := by
  refine wp_then (wp_measured (does_popFree held)) fun popped kept new => ?_
  cases popped with
  | some idx => exact Prod.ext new.1 new.2
  | none =>
    rw [show kept = (none, atRest held) from Prod.ext new.1 new.2]
    refine wp_bind (wp_act_plain (measured_track catalog who) rfl
      (fun _ => lists_setNextSlot catalog _ _) ?_)
    rintro past table lists grips ⟨place, bumped, placed⟩ same may
    have room : table.nextSlot + 1 < 2 ^ 32 := may.2 rfl
    show ∃ kept, (ownership catalog).own (deliver catalog who .bump table
        (nextSlotOf.set ((table.nextSlot + 1) % 2 ^ 32) table) past.2)
        (nextSlotOf.set ((table.nextSlot + 1) % 2 ^ 32) table) lists (update grips who kept) ∧
      (measured catalog).wp (ownership catalog).inv who (ite (catalog.capacity ≤ table.nextSlot) _ _) _
        (none, kept)
    rw [Nat.mod_eq_of_lt room]
    by_cases beyond : catalog.capacity ≤ table.nextSlot
    · refine ⟨⟨held, .idle, true⟩, ?_, ?_⟩
      · rw [show deliver catalog who .bump table _ past.2 =
          { past.2 with excess := insert who past.2.excess } from if_pos beyond]
        refine ⟨place, bumped, ⟨?_, ⟨placed.worded.agrees, placed.worded.gens⟩,
          ⟨placed.logged.known, placed.logged.passed, placed.logged.rising⟩, ?_⟩⟩
        · exact placed.whereabouts.excess same true
        · exact placed.marked.overshoot beyond (by rw [same]; rfl) rfl room
      · rw [if_pos beyond]
        refine wp_then (wp_unbump held) ?_
        rintro _ _ rfl
        exact rfl
    · have below := Nat.not_le.mp beyond
      have fresh : place table.nextSlot = .fresh :=
        (placed.marked.fresh _).mpr (placed.marked.over_empty below).2.le
      refine ⟨atRest (insert table.nextSlot held), ?_, ?_⟩
      · rw [show deliver catalog who .bump table _ past.2 =
          past.2.hand who table.nextSlot table from if_neg beyond]
        refine ⟨update place table.nextSlot (.held who), table.nextSlot + 1, ⟨?_, ?_, ?_, ?_⟩⟩
        · refine placed.whereabouts.hand same (by simp [fresh]) fun entry => ?_
          refine ⟨fun in_ => ⟨fun eq => ?_, in_⟩, fun both => both.2⟩
          have listed := (placed.whereabouts.listed entry).mp in_
          rw [eq, fresh] at listed
          cases listed
        · exact placed.worded.move (.held who) (fun _ _ => rfl) (placed.worded.at fresh :) (placed.worded.gens _)
        · exact placed.logged.hand (.inr fresh) rfl
        · exact placed.marked.take below (by rw [same]; rfl)
      · rw [if_neg beyond]
        exact rfl

end

/-- Every slot is still above the mark. -/
theorem placed_blank (catalog : Catalog) :
    Placed catalog .none blankTable (fun _ => []) (fun _ => atRest ∅) (fun _ => .fresh) 0 where
  whereabouts := ⟨by simp, by simp [Grip.place, atRest], by simp [Deliveries.none], by simp [Deliveries.none]⟩
  worded := ⟨fun _ => rfl, fun _ => by simp [blankTable, firstGen]⟩
  logged := ⟨by simp [Deliveries.none], by simp [Deliveries.none], by simp [Deliveries.none]⟩
  marked := ⟨Nat.zero_le _, by simp, by simp [blankTable, Deliveries.none], by simp [blankTable],
    by simp [Deliveries.none, atRest], by simp [Deliveries.none]⟩

theorem safe_fresh (catalog : Catalog) :
    (measured catalog).Safe (ownership catalog).inv (fun held => (none, atRest held)) freshCatalog := by
  refine ⟨fun _ => (none, atRest ∅), ⟨fun _ => [], ?_, ⟨_, _, placed_blank catalog⟩, by simp⟩, fun _ => rfl⟩
  refine ⟨fun _ => .nil, fun _ => rfl, fun _ => List.nodup_nil, ?_, ?_⟩
  · exact fun _ _ ne => absurd rfl ne
  · simp [attempts]

theorem recycled_of_reachable (catalog : Catalog) {config : CatalogRun}
    (reached : (measured catalog).Reachable freshCatalog config) : Recycled config.state config.history.2 := by
  have safe : (measured catalog).Safe (ownership catalog).inv (fun held => (none, atRest held)) config := by
    refine safe_of_reachable (fun actor held call enabled => ?_) (safe_fresh catalog) reached
    cases call with
    | alloc =>
      refine wp_then (wp_allocSlot held) fun outcome kept after => ?_
      subst after
      cases outcome <;> exact rfl
    | publish idx keyId kind =>
      refine wp_then (wp_measured (does_publishSlot keyId kind enabled)) ?_
      exact fun _ _ after => Prod.ext after.1 after.2
    | tombstone idx gen =>
      refine wp_then (wp_measured (does_tombstoneGen gen)) ?_
      exact fun _ _ after => Prod.ext after.1 after.2
    | reclaim idx =>
      refine wp_then (wp_tryReclaim catalog held (fun does => ?_) fun _ _ _ _ => rfl) ?_
      · rw [within_whole]
        exact wp_measured does
      · exact fun _ _ after => after
  obtain ⟨holdings, ⟨contents, valid⟩, _⟩ := safe
  obtain ⟨place, bumped, placed⟩ := valid.own
  have free : ∀ idx, place idx = .listed ∨ (∃ actor, place idx = .held actor) →
      (config.state.slot idx).word.state = .free := by
    rintro idx (listed | ⟨actor, held⟩)
    · exact placed.worded.at listed
    · exact placed.worded.at held
  exact {
    exclusive := placed.whereabouts.once
    free := fun entry member => free _ (.inr ⟨entry.1, (placed.whereabouts.holders _ _).mp member⟩)
    distinct := by
      refine placed.logged.rising.imp ?_
      rintro later _ rises rfl
      exact lt_irrefl _ (rises rfl)
    listed := ⟨contents (), valid.stack.linked (), fun idx member =>
      free idx (.inl ((placed.whereabouts.listed idx).mp member))⟩
    mark := by
      intro entry member
      have used := mt (placed.marked.fresh entry.1).mpr (placed.logged.known entry member).1
      have mark := placed.marked.mark
      omega
    rising := placed.logged.rising
    bounded := fun entry member => (placed.logged.known entry member).2.trans_lt (placed.worded.gens _) }

/-- A slot is created, evicted and swept, and handed out again. -/
def comeback : List (Stretch CatalogCall) :=
  [.begin 0 .alloc, .run 0 9 1, .begin 0 (.publish 0 7 .artifact), .run 0 9 1,
    .begin 1 (.tombstone 0 1), .run 1 9 1, .begin 2 .alloc, .run 2 9 1,
    .begin 1 (.reclaim 0), .run 1 30 1, .begin 0 .alloc, .run 0 9 1]

theorem comeback_recycled :
    let config := (measured ⟨2, by decide, 1, 0⟩).follow comeback freshCatalog
    config.history.2.handed = [(0, 2), (1, 1), (0, 1)] ∧ Recycled config.state config.history.2 := by
  have reached : (measured ⟨2, by decide, 1, 0⟩).Reachable freshCatalog
      ((measured ⟨2, by decide, 1, 0⟩).follow comeback freshCatalog) :=
    reachable_follow comeback .refl
  exact ⟨by decide +kernel, recycled_of_reachable _ reached⟩

section

theorem takes_popFree (empty : (table.lists.head ()).slot = EMPTY) :
    (users catalog).actors.Takes who popFree table past (.ret none) table
      ((users catalog).actors.track who .popLoad table table past) := by
  refine .pick 1 (.act trivial ?_)
  show (users catalog).actors.Takes who
    ((ite (((listsOf.head ()).get table).slot = EMPTY) _ _ : TableAct _).bind _) _ _ _ _ _
  have none : ((listsOf.head ()).get table).slot = EMPTY := empty
  rw [if_pos none]
  exact .refl _ _ _

/-- An allocation that finds the free list empty, up to its bump. -/
theorem reachable_bump (reached : (users catalog).actors.Reachable freshCatalog run)
    (idle : run.thread who = .idle held) (empty : (run.state.lists.head ()).slot = EMPTY) :
    ∃ new : CatalogRun, (users catalog).actors.Reachable freshCatalog new ∧
      new.state = nextSlotOf.set ((run.state.nextSlot + 1) % 2 ^ 32) run.state ∧
      new.history.2 = deliver catalog who .bump run.state new.state run.history.2 ∧
      ∀ other, other ≠ who → new.thread other = run.thread other := by
  have started := reached.tail (.start run who held .alloc idle trivial)
  have takes : (users catalog).actors.Takes who (serve catalog .alloc) run.state run.history _ _ _ :=
    (((takes_popFree empty).bind _).bind _).trans (.act trivial (.refl _ _ _))
  exact ⟨_, reachable_takes takes started, rfl, rfl, fun other ne => update_of_ne ne _ _⟩

/-- The first slot is out and the allocations of `crowd` actors have overshot, none of
them undone. -/
theorem reachable_crowd (one : catalog.capacity = 1) (crowd : Nat) (room : crowd < 2 ^ 32) :
    ∃ run, (users catalog).actors.Reachable freshCatalog run ∧
      run.state = nextSlotOf.set ((crowd + 1) % 2 ^ 32) blankTable ∧
      run.history.2.handed = [(0, 1)] ∧ run.history.2.inHand = [(0, 0)] ∧
      ∀ who, crowd < who → run.thread who = .idle ∅ := by
  induction crowd with
  | zero =>
    have first : (users catalog).actors.Reachable freshCatalog freshCatalog := .refl
    obtain ⟨run, reached, st, past, rest⟩ := reachable_bump first (rfl : freshCatalog.thread 0 = _) rfl
    refine ⟨run, reached, st, ?_, ?_, fun who other => rest who (Nat.ne_of_gt other)⟩
    all_goals
      rw [past]
      simp [deliver, freshCatalog, blankTable, Deliveries.none, Deliveries.hand, firstGen, one]
  | succ crowd ih =>
    obtain ⟨old, earlier, blank, handed, inHand, idle⟩ := ih (Nat.lt_of_succ_lt room)
    have mark : old.state.nextSlot = crowd + 1 := by
      rw [blank]
      exact Nat.mod_eq_of_lt room
    obtain ⟨run, reached, st, past, rest⟩ := reachable_bump earlier
      (idle (crowd + 1) (Nat.lt_succ_self crowd)) (by rw [blank]; rfl)
    have overshot : deliver catalog (crowd + 1) .bump old.state run.state old.history.2 =
        { old.history.2 with excess := insert (crowd + 1) old.history.2.excess } :=
      if_pos (by omega)
    rw [overshot] at past
    refine ⟨run, reached, ?_, by rw [past]; exact handed, by rw [past]; exact inHand, fun who beyond => ?_⟩
    · rw [st, mark, blank]
      rfl
    · exact (rest who (Nat.ne_of_gt beyond)).trans (idle who (Nat.lt_of_succ_lt beyond))

end

/-- The mark has come round under the allocations that have still to undo their
bump, and the first slot is handed out a second time while it is held. -/
theorem crowded_not_recycled : ∃ catalog : Catalog, ∃ config,
    (users catalog).actors.Reachable freshCatalog config ∧ config.history.2.handed = [(0, 1), (0, 1)] ∧
      config.history.2.inHand.map Prod.snd = [0, 0] ∧ ¬Recycled config.state config.history.2 := by
  let catalog : Catalog := ⟨1, by decide, 1, 0⟩
  have one : catalog.capacity = 1 := rfl
  obtain ⟨before, earlier, blank, handed, inHand, idle⟩ := reachable_crowd one (2 ^ 32 - 1) (by decide)
  have mark : before.state.nextSlot = 0 := by
    rw [blank]
    rfl
  obtain ⟨config, reached, state, past, _⟩ := reachable_bump earlier (idle (2 ^ 32) (by decide)) (by rw [blank]; rfl)
  have second : deliver catalog (2 ^ 32) .bump before.state config.state before.history.2 =
      before.history.2.hand (2 ^ 32) before.state.nextSlot before.state :=
    if_neg (by omega)
  have twice : config.history.2.handed = [(0, 1), (0, 1)] := by
    rw [past, second, mark]
    simp only [Deliveries.hand, handed]
    rw [blank]
    rfl
  refine ⟨catalog, config, reached, twice, ?_, fun recycled => ?_⟩
  · rw [past, second, mark]
    simp [Deliveries.hand, inHand]
  · have distinct := recycled.distinct
    rw [twice] at distinct
    revert distinct
    decide

end ShmActors.Keyed
