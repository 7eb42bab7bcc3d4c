import ShmActors.Core.CtrlInvariant

/-! The accesses that change a chunk's control word or a hold on it, one by one. -/

namespace ShmActors.Core.CtrlSystem

open Lib Function

variable {hold : Hold}

/-- A hold is usable in one phase only. -/
theorem Phase.eq_of_hold {phase other : Phase} (usable : phase.hold = some hold)
    (same : other.hold = some hold) : other = phase := by
  unfold Phase.hold at usable same
  split at usable <;> split at same <;> grind

theorem Memory.dropHold_eq_self {mem : Memory} (empty : mem.holds hold = 0) :
    mem.dropHold hold = mem := by
  have unchanged : update mem.holds hold (mem.holds hold - 1) = mem.holds := by
    rw [update_eq_self_iff]
    omega
  rw [Memory.dropHold, unchanged]

section

variable {start : Nat} {past : Past} {mem : Memory} {duty : Nat → Duty} {phase : Phase} {holder : Option Nat}
  {borrowers : Finset Nat} {who : Nat} {refcount : Nat} {gone : Bool} {st : ChunkState}
  (ok : Inv start past mem duty phase holder borrowers)

include ok

theorem Inv.hold_phase (proper : hold ≠ .borrow) (available : mem.holds hold ≠ 0) :
    holder = none ∧ phase.hold = some hold := by
  have counted := ok.shape.holds hold proper
  by_contra other
  rw [if_neg other] at counted
  exact available counted

/-- Without a hold to take, an operation leaves everything as it was. -/
theorem Inv.take_none (empty : mem.holds hold = 0) (mine : duty who = .nothing) :
    Inv start past (mem.dropHold hold) (update duty who .nothing) phase holder borrowers := by
  rw [Memory.dropHold_eq_self empty, ← mine, update_eq_self]
  exact ok

theorem Inv.take (proper : hold ≠ .borrow) (available : mem.holds hold ≠ 0) (mine : duty who = .nothing) :
    Inv start past (mem.dropHold hold) (update duty who (.exclusive phase)) phase
      (some who) borrowers := by
  obtain ⟨rfl, usable⟩ := ok.hold_phase proper available
  refine ⟨?_, ok.duties.take mine (by simp [usable]), ok.ledger⟩
  obtain ⟨word, owner, balance, small, quiet, holds⟩ := ok.shape
  refine ⟨word, owner, ?_, small, quiet, ?_⟩
  · rw [balance]
    simp [Memory.dropHold, Ne.symm proper]
  · intro other ne
    have counted := holds other ne
    by_cases same : other = hold
    · subst other
      simp only [usable, and_self, if_true] at counted
      simp [Memory.dropHold, counted]
    · have empty : mem.holds other = 0 := by
        rw [counted, usable]
        simp [Ne.symm same]
      simp [Memory.dropHold, same, empty]

/-- The holder hands the chunk on to whoever uses the hold next. -/
theorem Inv.give (proper : hold ≠ .borrow) (mine : duty who = .exclusive phase) (next : Phase)
    (usable : next.hold = some hold) (st : next.state = phase.state)
    (ownerless : next.ownerless = phase.ownerless) (owned : next = .owned → phase = .owned) (same : later.Same past)
    (ledger : Ledger start mem.ctrl.generation later next) :
    Inv start later (mem.addHold hold) (update duty who .nothing) next none borrowers := by
  obtain ⟨rfl, _⟩ := ok.duties.holder_eq mine
  obtain ⟨word, owner, balance, small, quiet, holds⟩ := ok.shape
  refine ⟨⟨?_, ?_, ?_, ?_, ?_, ?_⟩, ?_, ledger⟩
  · rw [st, same.outstanding]
    exact word
  · rw [ownerless]
    exact owner
  · rw [same.outstanding, balance]
    simp [Memory.addHold, Ne.symm proper]
  · rwa [same.outstanding]
  · rwa [st, same.outstanding]
  · intro other ne
    have counted := holds other ne
    simp only [reduceCtorEq, false_and, if_false] at counted
    by_cases eq : other = hold
    · subst other
      simp [Memory.addHold, counted, usable]
    · simp [Memory.addHold, counted, usable, eq, Ne.symm eq]
  · exact (ok.duties.give mine (by simp [usable]) owned).congr same

/-- The holder of an unpublished chunk takes the next step with it. -/
theorem Inv.advance (mine : duty who = .exclusive phase) (next : Phase) (ctrl : ChunkCtrl)
    (old : phase.state ≠ .published) (new : next.state ≠ .published) (word : ctrl.word = ⟨next.state, 0⟩)
    (owner : ctrl.ownerActor = ownerNone ↔ next.ownerless = true) (same : later.Same past)
    (ledger : Ledger start ctrl.generation later next) :
    Inv start later { mem with ctrl := ctrl } (update duty who (.exclusive next))
      next (some who) borrowers := by
  have quiet := ok.shape.quiet old
  obtain ⟨rfl, _⟩ := ok.duties.holder_eq mine
  refine ⟨⟨?_, owner, ?_, ?_, ?_, ?_⟩, ?_, ledger⟩
  · rw [same.outstanding, quiet]
    exact word
  · rw [same.outstanding]
    exact ok.shape.balance
  · rw [same.outstanding]
    exact ok.shape.small
  · rw [same.outstanding]
    exact fun _ => quiet
  · intro other ne
    simpa using ok.shape.holds other ne
  · refine (ok.duties.advance mine ?_ ?_).congr same
    · rintro rfl
      exact new rfl
    · rintro rfl
      exact new rfl

omit ok

theorem Inv.publish (ok : Inv start past mem duty .loaned holder borrowers)
    (mine : duty who = .exclusive .loaned) :
    Inv start { past with publications := past.publications + 1 }
      { mem with ctrl := { mem.ctrl with word := ⟨.published, 0⟩ } }
      (update duty who (.exclusive .owned)) .owned (some who) borrowers := by
  have quiet := ok.shape.quiet (by simp [Phase.state])
  obtain ⟨rfl, _⟩ := ok.duties.holder_eq mine
  refine ⟨⟨?_, ok.shape.owner, ok.shape.balance, ok.shape.small, fun _ => quiet, ?_⟩,
    ok.duties.publish mine, ok.ledger.publish⟩
  · rw [quiet]
    rfl
  · intro other ne
    simpa using ok.shape.holds other ne

theorem Inv.ownerRelease (ok : Inv start past mem duty .owned holder borrowers)
    (mine : duty who = .exclusive .owned) :
    Inv start past { mem with ctrl := { mem.ctrl with ownerActor := ownerNone } }
      (update duty who (.reclaim none)) .released none borrowers := by
  obtain ⟨word, owner, balance, small, quiet, holds⟩ := ok.shape
  obtain ⟨rfl, _⟩ := ok.duties.holder_eq mine
  refine ⟨⟨word, by simp [Phase.ownerless], balance, small, quiet, ?_⟩,
    ok.duties.ownerRelease mine, ?_⟩
  · intro other ne
    simpa [Phase.hold] using holds other ne
  · exact ok.ledger.keep rfl Iff.rfl rfl

include ok

theorem Inv.readOwner (mine : duty who = .reclaim none ∨ duty who = .nothing) :
    Inv start { past with seen := update past.seen who past.publications } mem
      (update duty who (if mem.ctrl.ownerActor = ownerNone
        then .reclaim (some past.publications) else .nothing)) phase holder borrowers := by
  obtain ⟨word, owner, balance, small, quiet, holds⟩ := ok.shape
  refine ⟨⟨word, owner, balance, small, quiet, holds⟩, ?_, ok.ledger.congr rfl rfl rfl⟩
  simpa only [owner] using ok.duties.readOwner mine

theorem Inv.reclaimLost (mine : duty who = .reclaim seen) (other : mem.ctrl.word ≠ ⟨.published, 0⟩) :
    Inv start past mem (update duty who .nothing) phase holder borrowers := by
  refine ⟨ok.shape, ok.duties.reclaimLost mine ?_, ok.ledger⟩
  rintro ⟨rfl, none_left⟩
  apply other
  rw [ok.shape.word, none_left]
  rfl

/-- The reclaimer's exchange: in time, it finds the publication it has seen
released. -/
theorem Inv.reclaimWon (mine : duty who = .reclaim (some seen))
    (got : mem.ctrl.word = ⟨.published, 0⟩) (timely : past.seen who = past.publications) :
    Inv start (past.free mem) { mem with ctrl := { mem.ctrl with word := ⟨.free, 0⟩ } }
      (update duty who (.exclusive (.freeing true))) (.freeing true) (some who) borrowers := by
  obtain ⟨word, owner, balance, small, quiet, holds⟩ := ok.shape
  obtain ⟨seen_eq, _, not_owned⟩ := ok.duties.reclaiming who seen mine
  rw [got] at word
  have released : phase = .released := by
    have st := congrArg Word.state word
    have now := not_owned (by rw [← seen_eq, timely])
    cases phase <;> simp_all [Phase.state]
  subst released
  have none_left : past.outstanding = 0 := (congrArg Word.refcount word).symm
  have nobody : borrowers = ∅ := by
    rw [← Finset.card_eq_zero]
    omega
  refine ⟨⟨?_, ?_, balance, small, fun _ => none_left, ?_⟩, ?_, ?_⟩
  · simp [Phase.state, Past.free, none_left]
  · simpa [Phase.ownerless] using owner
  · intro other ne
    simpa [Phase.hold] using holds other ne
  · exact (ok.duties.reclaimWon nobody).congr (past.same_free mem)
  · exact ok.ledger.free (by rw [got]) (owner.mpr rfl) none_left

theorem Inv.borrow (mine : duty who = .nothing) (got : mem.ctrl.word = ⟨.published, refcount⟩)
    (few : past.outstanding < 2 ^ 32 - 1) :
    Inv start { past with outstanding := past.outstanding + 1 }
      { mem with ctrl := { mem.ctrl with word := ⟨.published, (refcount + 1) % 2 ^ 32⟩ } }
      (update duty who (.borrow false)) phase holder (insert who borrowers) := by
  obtain ⟨word, owner, balance, small, quiet, holds⟩ := ok.shape
  rw [got] at word
  have st : phase.state = .published := (congrArg Word.state word).symm
  have count : refcount = past.outstanding := congrArg Word.refcount word
  have absent : who ∉ borrowers := by
    rw [ok.duties.borrowing, mine]
    simp
  refine ⟨⟨?_, owner, ?_, ?_, ?_, holds⟩, ok.duties.borrow mine (Nat.succ_ne_zero _),
    ok.ledger.congr rfl rfl rfl⟩
  · rw [st, count, Nat.mod_eq_of_lt (by omega)]
  · change past.outstanding + 1 = mem.holds .borrow + _
    rw [Finset.card_insert_of_notMem absent]
    omega
  · change past.outstanding + 1 < 2 ^ 32
    omega
  · exact fun other => absurd st other

/-- Only a published chunk is borrowed. -/
theorem Inv.borrowed_published (mine : duty who = .borrow gone) : phase.state = .published := by
  have present : who ∈ borrowers := (ok.duties.borrowing who).mpr ⟨gone, mine⟩
  have positive := Finset.card_pos.mpr ⟨who, present⟩
  have balance := ok.shape.balance
  by_contra other
  have := ok.shape.quiet other
  omega

theorem Inv.giveBorrow (mine : duty who = .borrow gone) :
    Inv start past (mem.addHold .borrow) (update duty who .nothing) phase holder
      (borrowers.erase who) := by
  obtain ⟨word, owner, balance, small, quiet, holds⟩ := ok.shape
  have present : who ∈ borrowers := (ok.duties.borrowing who).mpr ⟨gone, mine⟩
  refine ⟨⟨word, owner, ?_, small, quiet, ?_⟩, ok.duties.giveBorrow mine, ok.ledger⟩
  · have card := Finset.card_erase_add_one present
    simp only [Memory.addHold, update_self]
    omega
  · intro other ne
    simpa [Memory.addHold, ne] using holds other ne

theorem Inv.takeBorrow (mine : duty who = .nothing) (available : mem.holds .borrow ≠ 0) :
    Inv start past (mem.dropHold .borrow) (update duty who (.borrow false)) phase
      holder (insert who borrowers) := by
  obtain ⟨word, owner, balance, small, quiet, holds⟩ := ok.shape
  have absent : who ∉ borrowers := by
    rw [ok.duties.borrowing, mine]
    simp
  refine ⟨⟨word, owner, ?_, small, quiet, ?_⟩, ?_, ok.ledger⟩
  · rw [Finset.card_insert_of_notMem absent]
    simp only [Memory.dropHold, update_self]
    omega
  · intro other ne
    simpa [Memory.dropHold, ne] using holds other ne
  · exact ok.duties.borrow mine (by omega)

/-- A borrower reads the owner; a borrow keeps the publication in place, so a
released owner stays released. -/
theorem Inv.readGone (mine : duty who = .borrow old) : Inv start past mem (update duty who
      (.borrow (decide (mem.ctrl.ownerActor = ownerNone)))) phase holder borrowers := by
  refine ⟨ok.shape, ok.duties.readGone mine fun gone => ?_, ok.ledger⟩
  have ownerless := ok.shape.owner.mp (by simpa using gone)
  have st := ok.borrowed_published mine
  cases phase <;> simp_all [Phase.state, Phase.ownerless]

/-- The last borrower frees a released chunk with the exchange that returns its
borrow. -/
theorem Inv.releaseFree (mine : duty who = .borrow true) (got : mem.ctrl.word = ⟨st, 1⟩) :
    Inv start ({ past with outstanding := past.outstanding - 1 }.free mem)
      { mem with ctrl := { mem.ctrl with word := ⟨.free, 0⟩ } }
      (update duty who (.exclusive (.freeing true))) (.freeing true) (some who) ∅ := by
  have released := ok.duties.gone who mine
  subst released
  obtain ⟨word, owner, balance, small, quiet, holds⟩ := ok.shape
  have one : past.outstanding = 1 := by
    rw [got] at word
    exact (congrArg Word.refcount word).symm
  have present : who ∈ borrowers := (ok.duties.borrowing who).mpr ⟨true, mine⟩
  have card := Finset.card_pos.mpr ⟨who, present⟩
  have alone : borrowers = {who} := by
    obtain ⟨only, rfl⟩ := Finset.card_eq_one.mp (show borrowers.card = 1 by omega)
    rw [Finset.mem_singleton.mp present]
  have nothing_left : past.outstanding - 1 = 0 := by omega
  rw [nothing_left]
  refine ⟨⟨rfl, ?_, ?_, by simp [Past.free], fun _ => rfl, ?_⟩, ?_, ?_⟩
  · simpa [Phase.ownerless] using owner
  · change 0 = mem.holds .borrow + _
    simp only [Finset.card_empty]
    omega
  · intro other ne
    simpa [Phase.hold] using holds other ne
  · exact (ok.duties.releaseFree alone).congr (Past.same_free _ mem)
  · have old : Ledger start mem.ctrl.generation { past with outstanding := 0 } .released :=
      ok.ledger.congr rfl rfl rfl
    refine old.free ?_ (owner.mpr rfl) rfl
    rw [word]
    rfl

theorem Inv.release (mine : duty who = .borrow gone) (got : mem.ctrl.word = ⟨st, refcount⟩) :
    Inv start { past with outstanding := past.outstanding - 1 }
      { mem with ctrl :=
        { mem.ctrl with word := ⟨.published, (refcount + 2 ^ 32 - 1) % 2 ^ 32⟩ } }
      (update duty who (if refcount = 1 then .reclaim none else .nothing)) phase holder
      (borrowers.erase who) := by
  obtain ⟨word, owner, balance, small, quiet, holds⟩ := ok.shape
  have published := ok.borrowed_published mine
  have present : who ∈ borrowers := (ok.duties.borrowing who).mpr ⟨gone, mine⟩
  have card := Finset.card_erase_add_one present
  have count : refcount = past.outstanding := by
    rw [got] at word
    exact congrArg Word.refcount word
  have last_one : refcount = 1 ↔ past.outstanding - 1 = 0 := by omega
  refine ⟨⟨?_, owner, ?_, ?_, fun other => absurd published other, holds⟩, ?_,
    ok.ledger.congr rfl rfl rfl⟩
  · change (⟨.published, (refcount + 2 ^ 32 - 1) % 2 ^ 32⟩ : Word) = ⟨_, past.outstanding - 1⟩
    rw [published, show (refcount + 2 ^ 32 - 1) % 2 ^ 32 = past.outstanding - 1 by omega]
  · change past.outstanding - 1 = mem.holds .borrow + _
    omega
  · change past.outstanding - 1 < 2 ^ 32
    omega
  · simp only [last_one]
    exact ok.duties.release mine (past.outstanding - 1)

end

end ShmActors.Core.CtrlSystem
