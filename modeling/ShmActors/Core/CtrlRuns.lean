import ShmActors.Core.CtrlSteps

/-! The control word under every interleaving: the calls one by one, then whole
runs. -/

namespace ShmActors.Core.CtrlSystem

open Lib Function Actors

variable {start : Nat}

/-- Accesses that leave no trace in the history. -/
theorem track_untracked (who : Nat) (old new : Memory) (past : Past)
    (quiet : ∀ past, trackExchange label old new past = past) (other : label ≠ .reclaimOwner) :
    track who (.ctrl label) old new past = past := by
  cases label <;> simp_all [track]

theorem track_changed (who : Nat) (past : Past)
    (other : label ≠ .reclaimOwner) (diff : old.ctrl.word ≠ new.ctrl.word) :
    track who (.ctrl label) old new past = trackExchange label old new past := by
  cases label <;> simp_all [track]

theorem track_unchanged (who : Nat) (past : Past)
    (other : label ≠ .reclaimOwner) (same : old.ctrl.word = new.ctrl.word) :
    track who (.ctrl label) old new past = past := by
  cases label <;> simp_all [track]

/-- What code of an actor does to its duty, in undisturbed runs. -/
abbrev Leaves {Value : Type} (start actor : Nat) (program : Program Memory Site Value) (post : Value → Duty → Prop)
    (held : Duty) : Prop :=
  (actors Undisturbed).wp (inv start) actor program post held

section

variable {start : Nat}

theorem inv_of_track (noted : track who site old new past = later)
    (ok : Inv start later mem duty phase holder borrowers) :
    inv start ((actors may).track who site old new past) mem duty := by
  change inv start (track who site old new past) mem duty
  rw [noted]
  exact ⟨phase, holder, borrowers, ok⟩

/-- An access that neither changes the chunk nor teaches its caller anything. -/
theorem inv_unchanged (ok : inv start past mem duty) (mine : duty who = held) (other : label ≠ .reclaimOwner) :
    inv start ((actors Undisturbed).track who (.ctrl label) mem mem past) mem
      (update duty who held) := by
  obtain ⟨phase, holder, borrowers, ok⟩ := ok
  rw [← mine, update_eq_self]
  exact inv_of_track (track_unchanged who past other rfl) ok

theorem word_of_quiet (ok : Inv start past mem duty phase holder borrowers) (quiet : phase.state ≠ .published) :
    mem.ctrl.word = ⟨phase.state, 0⟩ := by
  rw [ok.shape.word, ok.shape.quiet quiet]

theorem wp_loadWord (other : label ≠ .reclaimOwner) (done : ∀ word, post word held) :
    Leaves start who (load (.ctrl label) (wordOf ctrlRef)) post held :=
  fun _ _ _ ok mine _ => ⟨held, inv_unchanged ok mine other, done _⟩

theorem wp_bumpGeneration
    (quiet : ∀ old new past, trackExchange label old new past = past) (other : label ≠ .reclaimOwner)
    (done : ∀ generation, post generation (.exclusive (.freed owed))) :
    Leaves start who (bumpGeneration .ctrl ctrlRef label) post (.exclusive (.freeing owed)) := by
  rintro past mem duty ⟨phase, holder, borrowers, ok⟩ mine _
  obtain ⟨_, rfl⟩ := ok.duties.holder_eq mine
  have word := word_of_quiet ok (by simp [Phase.state])
  exact ⟨_, inv_of_track (track_untracked _ _ _ _ (quiet _ _) other)
    (ok.advance mine (.freed owed)
      { mem.ctrl with generation := (mem.ctrl.generation + 1) % 2 ^ 32 }
      (by simp [Phase.state]) (by simp [Phase.state]) word ok.shape.owner (.refl past)
      ok.ledger.bump), done _⟩

theorem wp_tryLoan (real : owner ≠ ownerNone) : Leaves start who (tryLoan .ctrl ctrlRef owner)
      (fun res kept => res = .ok () ∧ kept = .exclusive .loaned) (.exclusive .blank) := by
  refine wp_bind (wp_compareExchange ?_ ?_)
  · rintro past mem duty ⟨phase, holder, borrowers, ok⟩ mine _ _
    obtain ⟨_, rfl⟩ := ok.duties.holder_eq mine
    refine ⟨.exclusive .loaning, inv_of_track (track_untracked _ _ _ _ (fun _ => rfl) (by simp))
      (ok.advance mine .loaning { mem.ctrl with word := ⟨.loaned, 0⟩ } (by simp [Phase.state])
        (by simp [Phase.state]) rfl ok.shape.owner (.refl past)
        (ok.ledger.keep rfl (by simp [Phase.state]) rfl)), ?_⟩
    rintro past mem duty ⟨phase, holder, borrowers, ok⟩ mine _
    obtain ⟨_, rfl⟩ := ok.duties.holder_eq mine
    have word := word_of_quiet ok (by simp [Phase.state])
    exact ⟨.exclusive .loaned, inv_of_track (track_untracked _ _ _ _ (fun _ => rfl) (by simp))
      (ok.advance mine .loaned { mem.ctrl with ownerActor := owner } (by simp [Phase.state])
        (by simp [Phase.state]) word (by simpa [Phase.ownerless] using real) (.refl past)
        (ok.ledger.keep rfl (by simp [Phase.state]) rfl)), rfl, rfl⟩
  · -- The holder of a chunk off the free list finds it free.
    rintro past mem duty ⟨phase, holder, borrowers, ok⟩ mine _ other
    obtain ⟨_, rfl⟩ := ok.duties.holder_eq mine
    exact absurd (word_of_quiet ok (by simp [Phase.state])) other

/-- The holder's exchange loop on a loaned chunk succeeds: nobody else moves the
word. -/
theorem wp_exchangeLoaned {load : CtrlSite} (other : load ≠ .reclaimOwner) (step : ∀ past mem duty holder borrowers,
      Inv start past mem duty .loaned holder borrowers → duty who = .exclusive .loaned →
      inv start ((actors Undisturbed).track who (.ctrl label) mem ((wordOf ctrlRef).set (new ⟨.loaned, 0⟩) mem) past)
        ((wordOf ctrlRef).set (new ⟨.loaned, 0⟩) mem) (update duty who (.exclusive next))) : Leaves start who
      (Lib.load (.ctrl load) (wordOf ctrlRef) >>= repeatFrom (exchangeWhile .ctrl ctrlRef label .loaned new))
      (fun res kept => res = .ok () ∧ kept = .exclusive next) (.exclusive .loaned) := by
  have got : ∀ {past mem duty}, inv start past mem duty →
      duty who = .exclusive .loaned →
      mem.ctrl.word = ⟨.loaned, 0⟩ ∧ ∃ holder borrowers,
        Inv start past mem duty .loaned holder borrowers := by
    rintro past mem duty ⟨phase, holder, borrowers, ok⟩ mine
    obtain ⟨_, rfl⟩ := ok.duties.holder_eq mine
    exact ⟨word_of_quiet ok (by simp [Phase.state]), holder, borrowers, ok⟩
  apply wp_bind
  intro past mem duty ok mine _
  refine ⟨_, inv_unchanged ok mine other, ?_⟩
  have entry : (wordOf ctrlRef).get mem = ⟨.loaned, 0⟩ := (got ok mine).1
  refine wp_repeatFrom
    (fun (cur : Word) held => cur = ⟨.loaned, 0⟩ ∧ held = Duty.exclusive .loaned) ?_ ⟨entry, rfl⟩
  rintro cur held ⟨rfl, rfl⟩
  refine wp_bind (wp_compareExchange ?_ ?_)
  · intro past mem duty ok mine _ _
    obtain ⟨_, holder, borrowers, ok⟩ := got ok mine
    exact ⟨_, step past mem duty holder borrowers ok mine, rfl, rfl⟩
  · intro past mem duty ok mine _ ne
    exact absurd (got ok mine).1 ne

theorem wp_publish :
    Leaves start who (Core.publish .ctrl ctrlRef)
      (fun res kept => res = .ok () ∧ kept = .exclusive .owned) (.exclusive .loaned) := by
  refine wp_exchangeLoaned (by simp) fun past mem duty holder borrowers ok mine => ?_
  refine inv_of_track ?_ (ok.publish mine)
  rw [track_changed _ _ (by simp)]
  · rfl
  · rw [ok.shape.word]
    simp [Phase.state, wordOf, Ref.field, ctrlRef]

theorem wp_dropLoan :
    Leaves start who (Core.dropLoan .ctrl ctrlRef)
      (fun res kept => res = .ok () ∧ kept = .exclusive (.freed false)) (.exclusive .loaned) := by
  have exchanged : Leaves start who
      (load (.ctrl .dropLoad) (wordOf ctrlRef) >>=
        repeatFrom (exchangeWhile .ctrl ctrlRef .dropExchange .loaned fun _ => ⟨.free, 0⟩))
      (fun res kept => res = .ok () ∧ kept = .exclusive .dropping) (.exclusive .loaned) := by
    refine wp_exchangeLoaned (by simp) fun past mem duty holder borrowers ok mine => ?_
    have quiet := ok.shape.quiet (by simp [Phase.state])
    refine inv_of_track ?_ (ok.advance mine .dropping { mem.ctrl with word := ⟨.free, 0⟩ }
      (by simp [Phase.state]) (by simp [Phase.state]) rfl ok.shape.owner (past.same_free mem)
      (ok.ledger.drop (by rw [ok.shape.word]; rfl) quiet))
    rw [track_changed _ _ (by simp)]
    · rfl
    · rw [ok.shape.word]
      simp [Phase.state, wordOf, Ref.field, ctrlRef]
  unfold dropLoan
  rw [← Program.bind_assoc]
  refine wp_then exchanged ?_
  rintro res kept ⟨rfl, rfl⟩
  apply wp_bind
  rintro past mem duty ⟨phase, holder, borrowers, ok⟩ mine _
  obtain ⟨_, rfl⟩ := ok.duties.holder_eq mine
  have word := word_of_quiet ok (by simp [Phase.state])
  refine ⟨.exclusive (.freeing false),
    inv_of_track (track_untracked _ _ _ _ (fun _ => rfl) (by simp))
      (ok.advance mine (.freeing false) { mem.ctrl with ownerActor := ownerNone }
        (by simp [Phase.state]) (by simp [Phase.state]) word (by simp [Phase.ownerless])
        (.refl past) (ok.ledger.keep rfl Iff.rfl rfl)), ?_⟩
  exact wp_bind (wp_bumpGeneration (fun _ _ _ => rfl) (by simp) fun _ => ⟨rfl, rfl⟩)

theorem wp_borrowShared :
    Leaves start who (borrowShared .ctrl ctrlRef)
      (fun res kept => kept = match res with
        | .ok () => .borrow false
        | .error _ => .nothing) .nothing := by
  refine wp_bind (wp_loadWord (by simp) fun cur => ?_)
  refine wp_repeatFrom (fun _ held => held = Duty.nothing) ?_ rfl
  rintro cur held rfl
  by_cases published : cur.state = .published
  · simp only [exchangeWhile, published, ne_eq, not_true, if_false]
    refine wp_bind (wp_compareExchange ?_ ?_)
    · rintro past mem duty ⟨phase, holder, borrowers, ok⟩ mine few got
      have word : mem.ctrl.word = ⟨.published, cur.refcount⟩ := by
        rw [← published]
        exact got
      refine ⟨.borrow false, inv_of_track ?_ (ok.borrow mine word few), rfl⟩
      rw [track_changed _ _ (by simp)]
      · rfl
      · rw [word]
        simp only [wordOf, Ref.field, ctrlRef, ne_eq, Word.mk.injEq, true_and]
        omega
    · intro past mem duty ok mine _ _
      exact ⟨.nothing, inv_unchanged ok mine (by simp), rfl⟩
  · simp only [exchangeWhile, published, ne_eq, not_false_eq_true, if_true]
    rfl

/-- What `try_reclaim` and the calls that end in it leave their caller with. -/
def Reclaimed (freed : Bool) (kept : Duty) : Prop :=
  kept = if freed then .exclusive (.freed true) else .nothing

theorem wp_tryReclaim (ready : held = .reclaim none ∨ held = .nothing) :
    Leaves start who (Core.tryReclaim .ctrl ctrlRef) Reclaimed held := by
  apply wp_bind
  rintro past mem duty ⟨phase, holder, borrowers, ok⟩ mine _
  refine ⟨_, inv_of_track rfl (ok.readOwner (mine ▸ ready)), ?_⟩
  by_cases gone : mem.ctrl.ownerActor = ownerNone
  · have none_read : (ownerOf ctrlRef).get mem = ownerNone := gone
    simp only [gone, none_read, ne_eq, not_true, if_false, if_true, wp]
    refine wp_bind (wp_compareExchange ?_ ?_)
    · rintro later mem duty ⟨phase, holder, borrowers, ok⟩ mine timely got
      refine ⟨_, inv_of_track ?_ (ok.reclaimWon mine got (timely got)), ?_⟩
      · rw [track_changed _ _ (by simp)]
        · rfl
        · rw [show mem.ctrl.word = _ from got]
          simp [wordOf, Ref.field, ctrlRef]
      · exact wp_bind (wp_bumpGeneration (fun _ _ _ => rfl) (by simp) fun _ => rfl)
    · rintro later mem duty ⟨phase, holder, borrowers, ok⟩ mine _ ne
      exact ⟨_, inv_of_track (track_unchanged _ _ (by simp) rfl)
        (ok.reclaimLost mine ne), rfl⟩
  · have none_read : (ownerOf ctrlRef).get mem ≠ ownerNone := gone
    simp only [gone, if_false, wp]
    rw [if_pos none_read]
    rfl

theorem wp_releaseExchange (cur : Word) (gone : Bool) :
    Leaves start who (releaseExchange .ctrl ctrlRef cur gone)
      (fun out kept => match out with
        | .inl _ => ∃ gone, kept = .borrow gone
        | .inr freed => Reclaimed freed kept) (.borrow gone) := by
  refine wp_bind (wp_compareExchange ?_ ?_)
  · rintro past mem duty ⟨phase, holder, borrowers, ok⟩ mine _ got
    have word : mem.ctrl.word = ⟨cur.state, cur.refcount⟩ := got
    by_cases last : cur.refcount = 1 ∧ gone = true
    · -- The last borrow of a released chunk: this exchange frees it.
      have new : releasedWord cur gone = ⟨.free, 0⟩ := if_pos last
      rw [new]
      rw [last.2] at mine
      rw [last.1] at word
      refine ⟨_, inv_of_track ?_ (ok.releaseFree mine word), ?_⟩
      · rw [track_changed _ _ (by simp)]
        · rfl
        · rw [word]
          simp [wordOf, Ref.field, ctrlRef]
      · exact wp_bind (wp_bumpGeneration (fun _ _ _ => rfl) (by simp) fun _ => rfl)
    · have new : releasedWord cur gone =
          ⟨.published, (cur.refcount + 2 ^ 32 - 1) % 2 ^ 32⟩ := if_neg last
      rw [new]
      refine ⟨_, inv_of_track ?_ (ok.release mine word), ?_⟩
      · rw [track_changed _ _ (by simp)]
        · rfl
        · rw [word]
          simp only [wordOf, Ref.field, ctrlRef, ne_eq, Word.mk.injEq, not_and]
          omega
      · by_cases one : cur.refcount = 1
        · simp only [one, reduceCtorEq, if_true, if_false]
          refine wp_then (wp_tryReclaim (.inl rfl)) ?_
          exact fun freed kept reclaimed => reclaimed
        · simp only [one, reduceCtorEq, if_false]
          rfl
  · intro past mem duty ok mine _ _
    exact ⟨_, inv_unchanged ok mine (by simp), _, rfl⟩

theorem wp_releaseShared :
    Leaves start who (releaseShared .ctrl ctrlRef) Reclaimed (.borrow false) := by
  refine wp_bind (wp_loadWord (by simp) fun cur => ?_)
  refine wp_repeatFrom (fun _ held => ∃ gone, held = Duty.borrow gone) ?_ ⟨_, rfl⟩
  rintro cur held ⟨old, rfl⟩
  apply wp_bind
  rintro past mem duty ⟨phase, holder, borrowers, ok⟩ mine _
  refine ⟨_, inv_of_track (track_unchanged _ _ (by simp) rfl) (ok.readGone mine), ?_⟩
  change Leaves start who
    (releaseExchange .ctrl ctrlRef cur (decide (mem.ctrl.ownerActor = ownerNone))) _ _
  refine wp_mono (wp_releaseExchange cur _) ?_
  intro out kept new
  cases out <;> exact new

theorem wp_ownerRelease :
    Leaves start who (Core.ownerRelease .ctrl ctrlRef) Reclaimed (.exclusive .owned) := by
  apply wp_bind
  rintro past mem duty ⟨phase, holder, borrowers, ok⟩ mine _
  obtain ⟨_, rfl⟩ := ok.duties.holder_eq mine
  exact ⟨_, inv_of_track (track_untracked _ _ _ _ (fun _ => rfl) (by simp))
    (ok.ownerRelease mine), wp_tryReclaim (.inl rfl)⟩

/-- An operation that needs a hold does nothing without one. -/
theorem wp_taking (phase : Phase) (proper : hold ≠ .borrow) (needed : phase.hold = some hold)
    (run : Leaves start who rest (fun _ kept => kept = .nothing) (.exclusive phase)) :
    Leaves start who (taking hold rest) (fun _ kept => kept = .nothing) .nothing := by
  rintro past mem duty ⟨now, holder, borrowers, ok⟩ mine _
  by_cases none_there : mem.holds hold = 0
  · exact ⟨_, inv_of_track rfl (ok.take_none none_there mine),
      by simp [none_there, wp]⟩
  · obtain ⟨_, usable⟩ := ok.hold_phase proper none_there
    obtain rfl := Phase.eq_of_hold needed usable
    refine ⟨_, inv_of_track rfl (ok.take proper none_there mine), ?_⟩
    simpa [none_there] using run

theorem wp_give (next : Phase) (proper : hold ≠ .borrow)
    (usable : next.hold = some hold) (st : next.state = phase.state)
    (ownerless : next.ownerless = phase.ownerless) (owned : next = .owned → phase = .owned)
    (pending : next.pending = phase.pending) (owed : next.owed = phase.owed) :
    Leaves start who (give hold) (fun _ kept => kept = .nothing) (.exclusive phase) := by
  rintro past mem duty ⟨now, holder, borrowers, ok⟩ mine _
  obtain ⟨_, rfl⟩ := ok.duties.holder_eq mine
  exact ⟨_, inv_of_track rfl (ok.give proper mine next usable st ownerless owned (.refl past)
    (ok.ledger.keep pending (by rw [st]) owed)), rfl⟩

theorem wp_report (reclaimed : Reclaimed freed kept) : Leaves start who (if freed then report else pure ())
      (fun _ kept => kept = .nothing) kept := by
  cases freed with
  | false => exact reclaimed
  | true =>
    obtain rfl : kept = _ := reclaimed
    rintro past mem duty ⟨phase, holder, borrowers, ok⟩ mine _
    obtain ⟨_, rfl⟩ := ok.duties.holder_eq mine
    exact ⟨.nothing, inv_of_track rfl (ok.give (by simp) mine (.freed false) rfl rfl rfl
      (by simp) ⟨rfl, rfl, rfl⟩ ok.ledger.report), rfl⟩

end

/-- Every operation starts and ends with no duty. -/
theorem wp_program (op : Op) (enabled : (actors Undisturbed).enabled () op) :
    Leaves start who (program op) (fun _ kept => kept = .nothing) .nothing := by
  cases op with
  | alloc =>
    exact wp_taking .listed (by simp) rfl
      (wp_give .blank (by simp) rfl rfl rfl (by simp) rfl rfl)
  | loan owner =>
    refine wp_taking .blank (by simp) rfl ?_
    refine wp_then (wp_tryLoan enabled) ?_
    rintro res kept ⟨rfl, rfl⟩
    exact wp_give .loaned (by simp) rfl rfl rfl (by simp) rfl rfl
  | publish =>
    refine wp_taking .loaned (by simp) rfl ?_
    refine wp_then wp_publish ?_
    rintro res kept ⟨rfl, rfl⟩
    exact wp_give .owned (by simp) rfl rfl rfl (by simp) rfl rfl
  | dropLoan =>
    refine wp_taking .loaned (by simp) rfl ?_
    refine wp_then wp_dropLoan ?_
    rintro res kept ⟨rfl, rfl⟩
    exact wp_give (.freed false) (by simp) rfl rfl rfl (by simp) rfl rfl
  | borrow =>
    refine wp_then wp_borrowShared ?_
    rintro res kept rfl
    cases res with
    | error reason => rfl
    | ok done =>
      rintro past mem duty ⟨phase, holder, borrowers, valid⟩ mine _
      exact ⟨_, inv_of_track rfl (valid.giveBorrow mine), rfl⟩
  | release =>
    rintro past mem duty ⟨phase, holder, borrowers, valid⟩ mine _
    by_cases none_there : mem.holds .borrow = 0
    · exact ⟨_, inv_of_track rfl (valid.take_none none_there mine),
        by simp [none_there, wp]⟩
    · refine ⟨_, inv_of_track rfl (valid.takeBorrow mine none_there), ?_⟩
      simp only [none_there, if_false]
      exact wp_then wp_releaseShared fun _ _ => wp_report
  | ownerRelease =>
    refine wp_taking .owned (by simp) rfl ?_
    exact wp_then wp_ownerRelease fun _ _ => wp_report
  | tryReclaim =>
    exact wp_then (wp_tryReclaim (.inr rfl)) fun _ _ => wp_report
  | free =>
    exact wp_taking (.freed false) (by simp) rfl
      (wp_give .listed (by simp) rfl rfl rfl (by simp) rfl rfl)

theorem safe_initial (start : Nat) : (actors Undisturbed).Safe (inv start) (fun _ => .nothing) (initial start) := by
  refine ⟨fun _ => .nothing, ⟨.listed, none, ∅, ?_, ?_, ?_⟩, fun _ => rfl⟩
  · refine ⟨rfl, ?_, rfl, by simp [initial], fun _ => rfl, ?_⟩
    · simp [initial, ChunkCtrl.initAt, Phase.ownerless]
    · intro hold _
      cases hold <;> rfl
  · constructor <;> simp [Phase.hold]
  · constructor <;> simp [initial, ChunkCtrl.initAt, publishedFrees, Phase.state, Phase.owed,
      Phase.pending]
    omega

theorem safe_of_reachable (reached : (actors Undisturbed).Reachable (initial start) run) :
    (actors Undisturbed).Safe (inv start) (fun _ => .nothing) run :=
  Actors.safe_of_reachable (fun _ _ op enabled => wp_program op enabled) (safe_initial start)
    reached

section

variable {start : Nat} (ok : Inv start past mem duty phase holder borrowers) (idle : ∀ who, duty who = .nothing)

include ok idle

/-- Between operations the chunk rests: it is on offer to somebody, or published
and released. -/
theorem Inv.resting : phase = .released ∨ phase.hold ≠ none := by
  refine ok.duties.unheld ?_
  by_contra held
  obtain ⟨who, taken⟩ := Option.ne_none_iff_exists'.mp held
  have busy := (ok.duties.role who phase).mpr ⟨taken, rfl⟩
  rw [idle] at busy
  cases busy

theorem Inv.pending_eq_zero : phase.pending = 0 := by
  rcases ok.resting idle with rfl | usable
  · rfl
  · cases phase <;> simp_all [Phase.hold, Phase.pending]

theorem Inv.owed_eq_false : phase.owed = false := by
  rcases ok.resting idle with rfl | usable
  · rfl
  · cases phase with
    | freed owed => cases owed <;> simp_all [Phase.hold, Phase.owed]
    | _ => simp_all [Phase.hold, Phase.owed]

/-- A published chunk at rest is still owned or borrowed: otherwise somebody
would be on the way to reclaim it. -/
theorem Inv.kept_alive (published : phase.state = .published) :
    mem.ctrl.ownerActor ≠ ownerNone ∨ past.outstanding ≠ 0 := by
  by_contra none_left
  rw [not_or, not_not, not_not] at none_left
  have ownerless := ok.shape.owner.mp none_left.1
  have released : phase = .released := by
    cases phase <;> simp_all [Phase.state, Phase.ownerless]
  obtain ⟨who, due⟩ := ok.duties.last released none_left.2
  rw [idle] at due
  rcases due with due | due <;> cases due

end

/-- Every run whose reclaims are not overtaken keeps the promises of the control
word, in every state it reaches. -/
theorem sound_of_reachable (generation : Nat) {run : Run}
    (reached : (actors Undisturbed).Reachable (initial generation) run) : Sound generation run := by
  obtain ⟨duty, ⟨phase, holder, borrowers, valid⟩, threads⟩ := safe_of_reachable reached
  have ledger := valid.ledger
  have resting : Idle run → ∀ actor, duty actor = .nothing := by
    intro idle actor
    have own := threads actor
    rw [idle actor] at own
    exact own
  have freed_before : ∀ publication, 1 ≤ publication → publication < run.history.publications →
      publication ∈ publishedFrees run.history.frees :=
    fun publication first earlier => (ledger.freed publication).mpr ⟨first, .inl earlier⟩
  constructor
  · exact ledger.proper
  · intro publication first _
    refine ⟨List.nodup_iff_count_le_one.mp ledger.freedOnce publication, fun earlier => ?_⟩
    exact List.count_eq_one_of_mem ledger.freedOnce (freed_before publication first earlier)
  · intro publication first _
    refine ⟨List.nodup_iff_count_le_one.mp ledger.trueOnce publication, fun earlier => ?_⟩
    refine List.count_eq_one_of_mem ledger.trueOnce ((ledger.reported publication).mpr ⟨?_, ?_⟩)
    · exact freed_before publication first earlier
    · rintro ⟨same, _⟩
      omega
  · rw [valid.shape.word]
  · refine ⟨borrowers, valid.shape.balance, fun actor among idle => ?_⟩
    obtain ⟨gone, borrowing⟩ := (valid.duties.borrowing actor).mp among
    have own := threads actor
    rw [idle] at own
    cases borrowing.symm.trans own
  · refine ⟨phase.pending, ?_, ledger.generation, fun idle => valid.pending_eq_zero (resting idle)⟩
    cases phase <;> simp [Phase.pending]
  · intro idle first
    by_cases published : phase.state = .published
    · left
      refine ⟨?_, valid.kept_alive (resting idle) published⟩
      rw [valid.shape.word]
      exact published
    · right
      have freed : run.history.publications ∈ publishedFrees run.history.frees :=
        (ledger.freed _).mpr ⟨first, .inr ⟨rfl, published⟩⟩
      have told : run.history.publications ∈ run.history.trues := by
        refine (ledger.reported _).mpr ⟨freed, ?_⟩
        simp [valid.owed_eq_false (resting idle)]
      exact ⟨List.count_eq_one_of_mem ledger.freedOnce freed,
        List.count_eq_one_of_mem ledger.trueOnce told⟩

section

instance (actor : Nat) (site : Site) (memory : Memory) (past : Past) :
    Decidable (Undisturbed actor site memory past) := by
  unfold Undisturbed
  split <;> infer_instance

instance (allowed : Nat → Site → Memory → Past → Prop)
    [∀ actor site memory past, Decidable (allowed actor site memory past)]
    (actor : Nat) (site : Site) (memory : Memory) (past : Past) :
    Decidable ((actors allowed).allowed actor site memory past) :=
  inferInstanceAs (Decidable (allowed actor site memory past))

instance (allowed : Nat → Site → Memory → Past → Prop) (own : Unit) :
    (op : Op) → Decidable ((actors allowed).enabled own op)
  | .loan owner => inferInstanceAs (Decidable (owner ≠ ownerNone))
  | .alloc | .publish | .dropLoan | .borrow | .release | .ownerRelease | .tryReclaim | .free =>
    inferInstanceAs (Decidable True)

/-- All interleavings, without a condition. -/
abbrev AnyOrder (_ : Nat) (_ : Site) (_ : Memory) (_ : Past) : Prop := True

def stepping (actor count : Nat) : List (Move Op) := List.replicate count (.step actor)

/-- Process 0 takes the chunk off the free list, loans and publishes it. -/
def offer (owner : Nat) : List (Move Op) :=
  [[.start 0 .alloc], stepping 0 2, [.start 0 (.loan owner)], stepping 0 4,
    [.start 0 .publish], stepping 0 2, [.pick 0 1], stepping 0 2].flatten

/-- Process 1 returns the last borrow while owner 7 still holds the chunk and
goes on to reclaim. It stops after reading the owner word, which owner 7's
release has just cleared; that release frees the chunk. -/
def lastBorrow : List (Move Op) :=
  [offer 7, [.start 0 .borrow], stepping 0 1, [.pick 0 1], stepping 0 2,
    [.start 1 .release], stepping 1 2, [.pick 1 1], stepping 1 2,
    [.start 2 .ownerRelease], stepping 2 2, stepping 1 1, stepping 2 4,
    [.start 2 .free], stepping 2 2].flatten

/-- The chunk is published again by owner 8, who holds it, when process 1's
exchange finds the word it was waiting for. -/
def overtaken : List (Move Op) := [lastBorrow, offer 8, stepping 1 1].flatten

/-- A reclaim left over from one publication frees the next one under its owner. -/
theorem overtaken_not_sound : ¬ ∀ run, (actors AnyOrder).Reachable (initial 0) run → Sound 0 run := by
  intro claimed
  have log : ((actors AnyOrder).performAll (initial 0) overtaken).map
      (fun run => run.history.frees) =
      some [⟨2, .published, 8, 0⟩, ⟨1, .published, ownerNone, 0⟩] := by decide +kernel
  obtain ⟨run, performed, frees⟩ := Option.map_eq_some_iff.mp log
  have released := (claimed run (reachable_of_performAll .refl performed)).released
    ⟨2, .published, 8, 0⟩ (by simp [frees])
  exact absurd (released.2 rfl) (by decide)

/-- The same two publications with process 1's exchange in its own. -/
theorem sound_after_recycling : ∃ run,
    (actors Undisturbed).performAll (initial 0) [lastBorrow, stepping 1 1, offer 8].flatten = some run ∧
    run.history.frees = [⟨1, .published, ownerNone, 0⟩] ∧ run.history.trues = [1] ∧
    run.state.ctrl = ⟨⟨.published, 0⟩, 8, 1⟩ ∧ Sound 0 run := by
  have log : ((actors Undisturbed).performAll (initial 0)
      [lastBorrow, stepping 1 1, offer 8].flatten).map
      (fun run => (run.history.frees, run.history.trues, run.state.ctrl)) =
      some ([⟨1, .published, ownerNone, 0⟩], [1], ⟨⟨.published, 0⟩, 8, 1⟩) := by decide +kernel
  obtain ⟨run, performed, seen⟩ := Option.map_eq_some_iff.mp log
  simp only [Prod.mk.injEq] at seen
  obtain ⟨frees, trues, ctrl⟩ := seen
  exact ⟨run, performed, frees, trues, ctrl,
    sound_of_reachable 0 (reachable_of_performAll .refl performed)⟩

end

end ShmActors.Core.CtrlSystem
