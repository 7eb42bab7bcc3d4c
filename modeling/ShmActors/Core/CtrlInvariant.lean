import ShmActors.Core.CtrlSystem

/-! What every interleaving of control-word calls keeps, one lemma per access
that changes something. -/

namespace ShmActors.Core.CtrlSystem

open Lib Function

/-- Where the chunk is in its life. `owed` marks a free of a published chunk
whose caller has not yet been told. -/
inductive Phase where
  | listed
  | blank
  | loaning
  | loaned
  | dropping
  | owned
  | released
  | freeing (owed : Bool)
  | freed (owed : Bool)
  deriving DecidableEq

namespace Phase

def state : Phase → ChunkState
  | loaning | loaned => .loaned
  | owned | released => .published
  | _ => .free

/-- The owner word reads `OWNER_NONE`. -/
def ownerless : Phase → Bool
  | loaned | dropping | owned => false
  | _ => true

/-- What one holds to call the next operation in this phase. -/
def hold : Phase → Option Hold
  | listed => some .listed
  | blank => some .blank
  | loaned => some .loan
  | owned => some .owner
  | freed false => some .freed
  | _ => none

/-- Moved to `FREE`, the generation not yet bumped. -/
def pending : Phase → Nat
  | dropping | freeing _ => 1
  | _ => 0

def owed : Phase → Bool
  | freeing owed | freed owed => owed
  | _ => false

end Phase

/-- What an actor is in the middle of. `borrow gone` holds one borrow, having
seen the owner gone or not; `reclaim` is about to reclaim, with the publication
in which it saw the owner gone. -/
inductive Duty where
  | nothing
  | exclusive (phase : Phase)
  | borrow (gone : Bool)
  | reclaim (seen : Option Nat)
  deriving DecidableEq

/-- About to reclaim in this publication. -/
def Duty.Due (publication : Nat) (duty : Duty) : Prop :=
  duty = .reclaim none ∨ duty = .reclaim (some publication)

structure Shape (past : Past) (memory : Memory) (phase : Phase) (holder : Option Nat)
    (borrowers : Finset Nat) : Prop where
  word : memory.ctrl.word = ⟨phase.state, past.outstanding⟩
  owner : memory.ctrl.ownerActor = ownerNone ↔ phase.ownerless = true
  balance : past.outstanding = memory.holds .borrow + borrowers.card
  small : past.outstanding < 2 ^ 32
  quiet : phase.state ≠ .published → past.outstanding = 0
  holds : ∀ hold, hold ≠ .borrow →
    memory.holds hold = if holder = none ∧ phase.hold = some hold then 1 else 0

@[grind cases]
structure Duties (past : Past) (phase : Phase) (holder : Option Nat) (borrowers : Finset Nat)
    (duty : Nat → Duty) : Prop where
  role : ∀ actor place, duty actor = .exclusive place ↔ holder = some actor ∧ phase = place
  held : holder ≠ none → phase ≠ .released
  unheld : holder = none → phase = .released ∨ phase.hold ≠ none
  borrowing : ∀ actor, actor ∈ borrowers ↔ ∃ gone, duty actor = .borrow gone
  gone : ∀ actor, duty actor = .borrow true → phase = .released
  reclaiming : ∀ actor seen, duty actor = .reclaim (some seen) →
    past.seen actor = seen ∧ seen ≤ past.publications ∧
      (seen = past.publications → phase ≠ .owned)
  -- The last one out: a released chunk without borrows has somebody about to reclaim it.
  last : phase = .released → past.outstanding = 0 →
    ∃ actor, (duty actor).Due past.publications

structure Ledger (start generation : Nat) (past : Past) (phase : Phase) : Prop where
  generation : (generation + phase.pending) % 2 ^ 32 = (start + past.frees.length) % 2 ^ 32
  started : phase.state = .published ∨ phase.owed = true → 1 ≤ past.publications
  proper : ∀ freed ∈ past.frees, freed.outstanding = 0 ∧
    (freed.fromState = .published → freed.owner = ownerNone)
  freedOnce : (publishedFrees past.frees).Nodup
  freed : ∀ publication, publication ∈ publishedFrees past.frees ↔ 1 ≤ publication ∧
    (publication < past.publications ∨
      publication = past.publications ∧ phase.state ≠ .published)
  trueOnce : past.trues.Nodup
  reported : ∀ publication, publication ∈ past.trues ↔
    publication ∈ publishedFrees past.frees ∧
      ¬ (publication = past.publications ∧ phase.owed = true)

structure Inv (start : Nat) (past : Past) (memory : Memory) (duty : Nat → Duty) (phase : Phase)
    (holder : Option Nat) (borrowers : Finset Nat) : Prop where
  shape : Shape past memory phase holder borrowers
  duties : Duties past phase holder borrowers duty
  ledger : Ledger start memory.ctrl.generation past phase

def inv (start : Nat) (past : Past) (memory : Memory) (duty : Nat → Duty) : Prop :=
  ∃ phase holder borrowers, Inv start past memory duty phase holder borrowers

/-- Histories that differ at most in what is logged. -/
structure Past.Same (later past : Past) : Prop where
  outstanding : later.outstanding = past.outstanding
  publications : later.publications = past.publications
  seen : later.seen = past.seen

theorem Past.Same.refl (past : Past) : past.Same past := ⟨rfl, rfl, rfl⟩

theorem Past.same_free (past : Past) (mem : Memory) : (past.free mem).Same past :=
  ⟨rfl, rfl, rfl⟩

section

variable {past : Past} {phase : Phase} {holder : Option Nat} {borrowers : Finset Nat} {duty : Nat → Duty} {who : Nat}
  {gone : Bool}

/-- Somebody else's duty is still there after an actor's own has changed. -/
theorem due_update (got : ∃ other, (duty other).Due publication)
    (not_mine : ¬ (duty who).Due publication) (new : Duty) : ∃ other, (update duty who new other).Due publication := by
  obtain ⟨other, present⟩ := got
  refine ⟨other, ?_⟩
  rwa [update_of_ne]
  rintro rfl
  exact not_mine present

variable (duties : Duties past phase holder borrowers duty)

include duties

theorem Duties.congr (same : later.Same past) : Duties later phase holder borrowers duty := by
  obtain ⟨role, held, unheld, borrowing, gone, reclaiming, last⟩ := duties
  refine ⟨role, held, unheld, borrowing, gone, ?_, ?_⟩
  · rw [same.seen, same.publications]
    exact reclaiming
  · rw [same.outstanding, same.publications]
    exact last

theorem Duties.holder_eq (mine : duty who = .exclusive place) : holder = some who ∧ phase = place :=
  (duties.role who place).mp mine

/-- The holder moves the chunk on to a phase that is its own, too. -/
theorem Duties.advance (mine : duty who = .exclusive phase) (kept : next ≠ .released) (fresh : next ≠ .owned) :
    Duties past next (some who) borrowers (update duty who (.exclusive next)) := by
  constructor <;> grind

omit duties

theorem Duties.publish (duties : Duties past .loaned holder borrowers duty) (mine : duty who = .exclusive .loaned) :
    Duties { past with publications := past.publications + 1 } .owned (some who) borrowers
      (update duty who (.exclusive .owned)) := by
  constructor <;> grind

theorem Duties.take (duties : Duties past phase none borrowers duty)
    (mine : duty who = .nothing) (usable : phase.hold ≠ none) :
    Duties past phase (some who) borrowers (update duty who (.exclusive phase)) := by
  have moved : phase ≠ .released := by
    rintro rfl
    exact usable rfl
  constructor <;> grind

include duties

theorem Duties.give (mine : duty who = .exclusive phase) (usable : next.hold ≠ none)
    (same : next = .owned → phase = .owned) :
    Duties past next none borrowers (update duty who .nothing) := by
  have moved : next ≠ .released := by
    rintro rfl
    exact usable rfl
  constructor <;> grind

omit duties

theorem Duties.ownerRelease (duties : Duties past .owned holder borrowers duty)
    (mine : duty who = .exclusive .owned) :
    Duties past .released none borrowers (update duty who (.reclaim none)) := by
  refine ⟨by grind, by grind, by grind, by grind, by grind, by grind, ?_⟩
  exact fun _ _ => ⟨who, .inl (by simp)⟩

include duties

/-- Reading the owner to reclaim: gone in this publication, or still there. -/
theorem Duties.readOwner (mine : duty who = .reclaim none ∨ duty who = .nothing) :
    Duties { past with seen := update past.seen who past.publications } phase holder
      borrowers (update duty who
        (if phase.ownerless then .reclaim (some past.publications) else .nothing)) := by
  have owned : phase = .owned → phase.ownerless = false := by rintro rfl; rfl
  have released : phase = .released → phase.ownerless = true := by rintro rfl; rfl
  refine ⟨by grind, by grind, by grind, by grind, by grind, by grind, ?_⟩
  exact fun isReleased _ => ⟨who, .inr (by simp [released isReleased])⟩

theorem Duties.reclaimLost (mine : duty who = .reclaim seen) (other : ¬ (phase = .released ∧ past.outstanding = 0)) :
    Duties past phase holder borrowers (update duty who .nothing) := by
  constructor <;> grind

omit duties

theorem Duties.reclaimWon (duties : Duties past .released holder borrowers duty) (none_left : borrowers = ∅) :
    Duties past (.freeing true) (some who) borrowers (update duty who (.exclusive (.freeing true))) := by
  have nobody : ∀ other gone, duty other ≠ .borrow gone := by
    intro other gone borrows
    simpa [none_left] using (duties.borrowing other).mpr ⟨gone, borrows⟩
  constructor <;> grind

include duties

theorem Duties.borrow (mine : duty who = .nothing) (positive : outstanding ≠ 0) :
    Duties { past with outstanding := outstanding } phase holder (insert who borrowers)
      (update duty who (.borrow false)) := by
  constructor <;> grind

theorem Duties.giveBorrow (mine : duty who = .borrow gone) :
    Duties past phase holder (borrowers.erase who) (update duty who .nothing) := by
  refine ⟨by grind, by grind, by grind, by grind, by grind, by grind, ?_⟩
  intro isReleased noneLeft
  exact due_update (duties.last isReleased noneLeft) (by simp [mine, Duty.Due]) _

theorem Duties.readGone (mine : duty who = .borrow old) (seen : gone = true → phase = .released) :
    Duties past phase holder borrowers (update duty who (.borrow gone)) := by
  refine ⟨by grind, by grind, by grind, by grind, by grind, by grind, ?_⟩
  intro isReleased noneLeft
  exact due_update (duties.last isReleased noneLeft) (by simp [mine, Duty.Due]) _

omit duties

theorem Duties.releaseFree (duties : Duties past .released holder borrowers duty) (alone : borrowers = {who}) :
    Duties { past with outstanding := 0 } (.freeing true) (some who) ∅
      (update duty who (.exclusive (.freeing true))) := by
  have nobody : ∀ other gone, other ≠ who → duty other ≠ .borrow gone := by
    intro other gone ne borrows
    have in_ := (duties.borrowing other).mpr ⟨gone, borrows⟩
    rw [alone, Finset.mem_singleton] at in_
    exact ne in_
  constructor <;> grind

include duties

/-- Giving a borrow back: whoever brings the count to zero goes on to reclaim. -/
theorem Duties.release (mine : duty who = .borrow gone) (outstanding : Nat) :
    Duties { past with outstanding := outstanding } phase holder (borrowers.erase who)
      (update duty who (if outstanding = 0 then .reclaim none else .nothing)) := by
  refine ⟨by grind, by grind, by grind, by grind, by grind, by grind, ?_⟩
  intro _ noneLeft
  exact ⟨who, .inl (by rw [update_self, if_pos noneLeft])⟩

end

section

variable {start generation : Nat} {past : Past} {mem : Memory}

/-- The ledger does not look at borrows or at who has seen what. -/
theorem Ledger.congr (ledger : Ledger start generation past phase)
    (publications : later.publications = past.publications) (frees : later.frees = past.frees)
    (trues : later.trues = past.trues) : Ledger start generation later phase := by
  obtain ⟨bumped, started, proper, freedOnce, freed, trueOnce, reported⟩ := ledger
  constructor <;> simp_all

/-- A step that frees nothing, publishes nothing and tells nobody. -/
theorem Ledger.keep (ledger : Ledger start generation past phase)
    (pending : next.pending = phase.pending) (st : next.state = .published ↔ phase.state = .published)
    (owed : next.owed = phase.owed) : Ledger start generation past next := by
  obtain ⟨bumped, started, proper, freedOnce, freed, trueOnce, reported⟩ := ledger
  constructor <;> simp_all

theorem Ledger.publish (ledger : Ledger start generation past .loaned) :
    Ledger start generation { past with publications := past.publications + 1 } .owned where
  generation := ledger.generation
  started := by simp
  proper := ledger.proper
  freedOnce := ledger.freedOnce
  freed publication := by
    rw [ledger.freed]
    simp only [Phase.state, ne_eq, reduceCtorEq, not_false_eq_true, not_true, and_true, and_false,
      or_false]
    omega
  trueOnce := ledger.trueOnce
  reported publication := by
    rw [ledger.reported]
    simp [Phase.owed]

theorem Ledger.bump (ledger : Ledger start generation past (.freeing owed)) :
    Ledger start ((generation + 1) % 2 ^ 32) past (.freed owed) where
  generation := by
    have old := ledger.generation
    simp only [Phase.pending] at old ⊢
    omega
  started := ledger.started
  proper := ledger.proper
  freedOnce := ledger.freedOnce
  freed := ledger.freed
  trueOnce := ledger.trueOnce
  reported := ledger.reported

theorem Ledger.drop (ledger : Ledger start generation past .loaned)
    (st : mem.ctrl.word.state = .loaned) (quiet : past.outstanding = 0) :
    Ledger start generation (past.free mem) .dropping := by
  have same : publishedFrees (past.free mem).frees = publishedFrees past.frees := by
    simp [publishedFrees, Past.free, st]
  refine ⟨?_, by simp [Phase.state, Phase.owed], ?_, ?_, ?_, ledger.trueOnce, ?_⟩
  · have before := ledger.generation
    simp only [Phase.pending, Past.free, List.length_cons] at before ⊢
    omega
  · intro freed in_
    rcases List.mem_cons.mp in_ with rfl | old
    · exact ⟨quiet, by simp [st]⟩
    · exact ledger.proper freed old
  · rw [same]
    exact ledger.freedOnce
  · rw [same]
    simpa [Past.free, Phase.state] using ledger.freed
  · rw [same]
    simpa [Past.free, Phase.owed] using ledger.reported

/-- The one move to `FREE` of this publication. -/
theorem Ledger.free (ledger : Ledger start generation past .released)
    (st : mem.ctrl.word.state = .published) (owner : mem.ctrl.ownerActor = ownerNone)
    (quiet : past.outstanding = 0) : Ledger start generation (past.free mem) (.freeing true) := by
  have logged : publishedFrees (past.free mem).frees =
      past.publications :: publishedFrees past.frees := by
    simp [publishedFrees, Past.free, st]
  have fresh : past.publications ∉ publishedFrees past.frees := by
    rw [ledger.freed]
    simp [Phase.state]
  have started := ledger.started (.inl rfl)
  refine ⟨?_, fun _ => started, ?_, ?_, ?_, ledger.trueOnce, ?_⟩
  · have before := ledger.generation
    simp only [Phase.pending, Past.free, List.length_cons] at before ⊢
    omega
  · intro freed in_
    rcases List.mem_cons.mp in_ with rfl | old
    · exact ⟨quiet, fun _ => owner⟩
    · exact ledger.proper freed old
  · rw [logged, List.nodup_cons]
    exact ⟨fresh, ledger.freedOnce⟩
  · intro publication
    rw [logged, List.mem_cons, ledger.freed]
    simp only [Phase.state, Past.free, ne_eq, reduceCtorEq, not_false_eq_true, not_true, and_true,
      and_false, or_false]
    omega
  · intro publication
    have before := ledger.reported publication
    rw [logged, List.mem_cons]
    by_cases this : publication = past.publications
    · subst this
      simp only [Past.free, Phase.owed] at before ⊢
      simp [before, fresh]
    · simp only [Past.free, this, Phase.owed] at before ⊢
      simpa using before

theorem Ledger.report (ledger : Ledger start generation past (.freed true)) :
    Ledger start generation { past with trues := past.publications :: past.trues }
      (.freed false) := by
  obtain ⟨bumped, started, proper, freedOnce, freed, trueOnce, reported⟩ := ledger
  refine ⟨bumped, by simp [Phase.state, Phase.owed], proper, freedOnce, freed, ?_, ?_⟩
  · rw [List.nodup_cons, reported]
    exact ⟨by simp [Phase.owed], trueOnce⟩
  · intro publication
    have this_freed : past.publications ∈ publishedFrees past.frees := by
      rw [freed]
      exact ⟨started (.inr rfl), .inr ⟨rfl, by simp [Phase.state]⟩⟩
    rw [List.mem_cons, reported]
    by_cases this : publication = past.publications
    · simp [this, this_freed, Phase.owed]
    · simp [this]

end

end ShmActors.Core.CtrlSystem
