import ShmActors.Task.Retries

/-! A tag of a FREE head that comes round under a submit: its exchange puts a slot
on the stack that another submit holds, both publish it, and a task that may not
be retried is claimed twice. -/

namespace ShmActors.Task.Retries

open Lib Core Program

/-- Every interleaving with one reaper, whatever becomes of the tags. -/
abbrev untimed (queue : Queue) : Actors Memory (Stage × Site) Past Call Nat Answer :=
  staged queue track (OneReaper 0) fun _ _ _ _ => True

abbrev UntimedConfig := Config Memory (Stage × Site) Past Call Nat Answer

def submission : Call := .submit .zero 5 none

/-- A worker of shard 0 that fails what it claims. -/
def failing : Call := .work 0 none (fun _ => []) fun _ => .fail

section

theorem may_pushShard (new : goal () ((view.head shard).set ((memory.lists.head shard).bump slot)
      ((view.next slot).set (memory.lists.head shard).slot memory)) past) :
    ((untimed queue).under .plain).may who (pushShard shard slot) goal memory past :=
  may_treiberPush (fun _ => ⟨trivial, trivial⟩) rfl rfl trivial new

/-- A submit takes the top of FREE(0) and queues it on READY(0). -/
theorem may_submit (top : (memory.lists.head .first).slot = slot) (full : slot ≠ EMPTY) :
    (untimed queue).may who (Staged.call queue submission) (fun _ later newer =>
      later.lists.head .first = (memory.lists.head .first).bump (memory.lists.next slot) ∧
      (later.lists.head (.ready 0)).slot = slot ∧ later.lists.next slot = (memory.lists.head (.ready 0)).slot ∧
      (later.slot slot).state = .queued ∧
      newer = { past with task := Function.update past.task slot (past.task slot + 1) }) memory past := by
  subst top
  refine Actors.may_bind (Actors.may_bind (Actors.may_label (Actors.may_bind (Actors.may_bind ⟨0, ?_⟩))))
  show Actors.may _ _ (popShard .first >>= _) _ _ _
  refine Actors.may_bind (may_treiberPop (fun _ => ⟨trivial, trivial⟩) full trivial ?_)
  -- the reservation, the eight accesses to the fields, the choice of a shard and the publication
  refine ⟨trivial, trivial, trivial, trivial, trivial, trivial, trivial, trivial, trivial, 0, trivial, ?_⟩
  refine Actors.may_bind (Actors.may_label (may_pushShard ?_))
  exact ⟨trivial, rfl, rfl, Function.update_self .., stateOf_set_self _ _, rfl⟩

theorem may_claimPop (top : (memory.lists.head (.ready 0)).slot = slot)
    (full : slot ≠ EMPTY) (queued : (memory.slot slot).state = .queued)
    (new : goal (some slot) ((stateOf slot).set .claimed (afterPop (view.head (.ready 0)) view.next memory))
      { past with claims := ⟨slot, past.task slot, (memory.slot slot).seq⟩ :: past.claims }) :
    ((untimed queue).under (.lease none)).may who (claimPop 0) goal memory past := by
  subst top
  refine ⟨1, Actors.may_bind (Actors.may_bind (may_treiberPop (fun _ => ⟨trivial, trivial⟩) full trivial ?_))⟩
  refine Actors.may_bind (Actors.may_bind (Actors.may_compareExchange trivial queued ?_))
  show goal _ _ (ite ((memory.slot (memory.lists.head (.ready 0)).slot).state = .queued) _ _)
  rw [if_pos queued]
  exact new

theorem may_fail (claimed : (memory.slot slot).state = .claimed)
    (new : goal (.ok ()) ((view.head .first).set ((memory.lists.head .first).bump slot)
      ((view.next slot).set (memory.lists.head .first).slot ((stateOf slot).set .failed memory))) past) :
    (untimed queue).may who (Staged.fail slot (memory.slot slot).seq) goal memory past := by
  refine ⟨trivial, ?_⟩
  show Actors.may _ _ (if (memory.slot slot).seq ≠ (memory.slot slot).seq then _ else _) _ _ _
  rw [if_neg (not_not.mpr rfl)]
  refine Actors.may_bind (Actors.may_label (Actors.may_bind (Actors.may_compareExchange trivial claimed ?_)))
  exact Actors.may_bind (Actors.may_label ⟨0, may_pushShard ⟨trivial, new⟩⟩)

/-- A worker claims the top of READY(0), fails it and frees it on FREE(0). -/
theorem may_work (top : (memory.lists.head (.ready 0)).slot = slot) (full : slot ≠ EMPTY)
    (queued : (memory.slot slot).state = .queued) :
    (untimed queue).may who (Staged.call queue failing) (fun _ later newer =>
      later.lists.head .first = (memory.lists.head .first).bump slot ∧
      (later.lists.head (.ready 0)).slot = memory.lists.next slot ∧
      newer = { past with claims := ⟨slot, past.task slot, (memory.slot slot).seq⟩ :: past.claims }) memory past := by
  refine Actors.may_bind (Actors.may_bind (Actors.may_label (Actors.may_bind (may_claimPop top full queued ?_))))
  refine ⟨trivial, trivial, trivial, ?_⟩
  show Actors.may _ _ (Staged.settle _ .fail >>= _) _ _ _
  refine Actors.may_bind (Actors.may_bind (may_fail ?_ ?_))
  · exact (word_of_set TaskSlot.state _ _ _ _).trans (stateOf_set_self _ _)
  · subst top
    exact ⟨rfl, rfl, rfl⟩

end

section

theorem four_power : Nat.isPowerOfTwo 4 := ⟨2, rfl⟩

theorem four_fits : 4 < 2 ^ 32 := by decide

/-- A queue of four slots whose tasks are not retried. -/
def strict : Queue := ⟨4, 0, four_power, four_fits⟩

instance (reaper actor : Nat) : (op : Call) → Decidable (OneReaper reaper actor op)
  | .reap _ => inferInstanceAs (Decidable (actor = reaper))
  | .work _ _ _ _ | .submit _ _ _ | .cancel _ | .ack _ | .reapBindings _ _ | .poll _ => inferInstanceAs (Decidable True)

/-- Actor 0 is about to exchange the head it loaded, slot 0 with slot 1 below it.
Actor 2 holds slot 1 and has yet to publish it, slot 2 is queued on another shard,
and slot 0 is back on FREE(0). -/
def opened : UntimedConfig := (untimed strict).follow
  [.begin 0 submission, .run 0 5 8, .begin 1 submission, .run 1 90 8, .begin 2 submission, .run 2 15 8,
    .begin 1 submission, .run 1 90 9, .begin 3 failing, .run 3 90 8] ⟨init strict, blank, fun actor => .idle actor⟩

/-- What is left of the submit of actor 2. -/
def publishing : Steps Answer := Answer.submitted <$> do
  let shard ← nextShard.label .plain
  (publishQueued shard 1).label .plain
  let _ ← load (.plain, .field) waitersWorkRef
  return .ok ⟨1, 1⟩

set_option maxRecDepth 8000 in
theorem opened_zero : ∃ rest, opened.thread 0 = .running 0 submission (.act (.plain, .pop .first .exchange)
    (fun memory => if memory.lists.head .first = ⟨0, 0⟩ then (view.head .first).set ⟨1, 1⟩ memory else memory) rest) :=
  ⟨_, rfl⟩

set_option maxRecDepth 8000 in
theorem opened_two : opened.thread 2 = .running 2 submission publishing := rfl

set_option maxRecDepth 8000 in
theorem opened_idle : opened.thread 1 = .idle 1 ∧ opened.thread 3 = .idle 3 := ⟨rfl, rfl⟩

theorem may_publish :
    (untimed strict).may who publishing (fun _ later newer => (later.lists.head (.ready 0)).slot = 1 ∧
      (later.slot 1).state = .queued ∧ newer = past) memory past :=
  ⟨0, trivial, Actors.may_bind (Actors.may_bind (Actors.may_label (may_pushShard ⟨trivial, rfl, rfl, rfl⟩)))⟩

theorem call_alone (idle : run.thread who = .idle who)
    (holds : (untimed strict).may who (Staged.call strict op) (fun _ => goal) run.state run.history)
    (enabled : OneReaper 0 who op) : ∃ later, (untimed strict).Reachable run later ∧ goal later.state later.history ∧
      later.thread = run.thread := by
  obtain ⟨later, res, reached, reaches, threads⟩ := Actors.reaches_call idle enabled holds
  refine ⟨later, reached, reaches, ?_⟩
  rw [threads]
  exact (congrArg _ idle.symm).trans (Function.update_eq_self _ _)

/-- Slot 0 is on FREE(0) under this tag, and nobody but actors 1 and 3 has moved. -/
structure Around (tag : Nat) (config : UntimedConfig) : Prop where
  reached : (untimed strict).Reachable opened config
  threads : config.thread = opened.thread
  free : config.state.lists.head .first = ⟨tag % 2 ^ 32, 0⟩
  ready : (config.state.lists.head (.ready 0)).slot = EMPTY
  task : config.history.task 1 = 1

/-- A submit and a failure bring slot 0 back two tags further. -/
theorem Around.turn (around : Around tag run) : ∃ later, Around (tag + 2) later := by
  have top : (run.state.lists.head .first).slot = 0 := by rw [around.free]
  obtain ⟨middle, one, ⟨free, ready, next, queued, past⟩, same⟩ :=
    call_alone ((congrFun around.threads 1).trans opened_idle.1) (may_submit top (by decide)) trivial
  have threads := same.trans around.threads
  obtain ⟨later, two, ⟨freed, emptied, claimed⟩, same⟩ :=
    call_alone ((congrFun threads 3).trans opened_idle.2) (may_work ready (by decide) queued) trivial
  refine ⟨later, (around.reached.trans one).trans two, same.trans threads, ?_, ?_, ?_⟩
  · rw [freed, free, around.free]
    simp [Head.bump]
  · rw [emptied, next, around.ready]
  · rw [claimed, past]
    exact around.task

theorem around_turns (turns : Nat) : ∃ run, Around (4 + 2 * turns) run := by
  induction turns with
  | zero => exact ⟨opened, .refl, rfl, by decide +kernel, by decide +kernel, by decide +kernel⟩
  | succ turns ih =>
    obtain ⟨run, around⟩ := ih
    exact around.turn

/-- With the tag it loaded back, the exchange of actor 0 puts slot 1 on the stack. -/
theorem Around.exchanges (around : Around (2 ^ 32) run) :
    ∃ later, (untimed strict).Reachable opened later ∧ (later.state.lists.head .first).slot = 1 ∧
      later.history.task 1 = 1 ∧ ∀ other, other ≠ 0 → later.thread other = opened.thread other := by
  obtain ⟨rest, running⟩ := opened_zero
  have paused := (congrFun around.threads 0).trans running
  refine ⟨_, around.reached.tail (.act run 0 0 submission _ _ rest paused trivial), ?_, around.task, ?_⟩
  · simp only [around.free, Nat.mod_self, if_true]
    rfl
  · intro other ne
    exact (Function.update_of_ne ne _ _).trans (congrFun around.threads other)

/-- A tag comes round, and a task that may be tried once is claimed twice. -/
theorem rolled_not_bounded : ∃ config,
    (untimed strict).Reachable ⟨init strict, blank, fun actor => .idle actor⟩ config ∧
      ¬ Bounded strict config.history.claims := by
  obtain ⟨turned, around⟩ := around_turns (2 ^ 31 - 2)
  obtain ⟨one, reached, top, task, others⟩ := around.exchanges
  obtain ⟨two, submits, ⟨-, top, -, queued, renewed⟩, second⟩ :=
    call_alone ((others 1 (by decide)).trans opened_idle.1) (may_submit top (by decide)) trivial
  have idle : two.thread 3 = .idle 3 := (congrFun second 3).trans ((others 3 (by decide)).trans opened_idle.2)
  obtain ⟨three, claims, ⟨-, -, claimed⟩, third⟩ := call_alone idle (may_work top (by decide) queued) trivial
  have held : three.thread 2 = .running 2 submission publishing :=
    (congrFun (third.trans second) 2).trans ((others 2 (by decide)).trans opened_two)
  obtain ⟨four, result, publishes, ⟨top, queued, kept⟩, fourth⟩ := Actors.reaches_of_may held may_publish
  have idle : four.thread 3 = .idle 3 := by
    rw [fourth, Function.update_of_ne (by decide), third]
    exact idle
  obtain ⟨five, again, ⟨-, -, twice⟩, -⟩ := call_alone idle (may_work top (by decide) queued) trivial
  refine ⟨five, (Actors.reachable_follow _ .refl).trans (reached.trans (submits.trans (claims.trans
    (publishes.trans again)))), fun bounded => ?_⟩
  have few := (bounded 1 2).1
  rw [twice, kept, claimed, renewed] at few
  simp [claimsOf, task, strict] at few

/-- A worker dies with the task, `reap` requeues it, and a second worker fails it. -/
def retried : List (Stretch Call) :=
  [.begin 1 submission, .run 1 60 8, .begin 2 (.work 0 none (fun _ => []) fun _ => .drop), .run 2 60 8,
    .begin 0 (.reap 100), .run 0 60 8, .begin 3 failing, .run 3 60 8]

theorem bounded_of_retried :
    ((minders single track (OneReaper 0) fun _ _ _ _ => True).follow retried (dawn single blank)).history.2.claims =
      [⟨0, 1, 1⟩, ⟨0, 1, 1⟩] ∧
    Bounded single
      ((minders single track (OneReaper 0) fun _ _ _ _ => True).follow retried (dawn single blank)).history.2.claims :=
  ⟨by decide +kernel, bounded_of_reachable (Actors.reachable_follow retried .refl)⟩

end

end ShmActors.Task.Retries
