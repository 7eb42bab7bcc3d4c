import ShmActors.Lib.Labels

/-! What an actor can do when the others stand still: some choices of its own
lead its operation to the end with this outcome. -/

namespace ShmActors.Lib.Actors

open Function

variable {State Site Tag History Op Local Result Value Other : Type}

/-- Some run of the program by `actor` alone reaches the goal. -/
def may (actors : Actors State Site History Op Local Result) (actor : Nat) :
    Program State Site Value → (Value → State → History → Prop) → State → History → Prop
  | .ret value, goal, state, history => goal value state history
  | .act site update next, goal, state, history =>
    actors.allowed actor site state history ∧
      actors.may actor (next state) goal (update state)
        (actors.track actor site state (update state) history)
  | .pick next, goal, state, history => ∃ choice, actors.may actor (next choice) goal state history
  | .halt, _, _, _ => False

variable {actors : Actors State Site History Op Local Result}

theorem may_bind (holds : actors.may actor code
      (fun val state history => actors.may actor (rest val) goal state history) state history) :
    actors.may actor (code >>= rest) goal state history := by
  induction code generalizing state history with
  | ret val => exact holds
  | act site update next ih => exact ⟨holds.1, ih _ holds.2⟩
  | pick next ih =>
    obtain ⟨choice, holds⟩ := holds
    exact ⟨choice, ih choice holds⟩
  | halt => exact holds

theorem may_label {actors : Actors State (Tag × Site) History Op Local Result}
    (holds : (actors.under tag).may actor code goal state history) :
    actors.may actor (code.label tag) goal state history := by
  induction code generalizing state history with
  | ret val => exact holds
  | act site update next ih => exact ⟨holds.1, ih _ holds.2⟩
  | pick next ih =>
    obtain ⟨choice, holds⟩ := holds
    exact ⟨choice, ih choice holds⟩
  | halt => exact holds

theorem may_compareExchange [DecidableEq Value] {cell : Ref State Value}
    (may : actors.allowed actor site state history) (same : cell.get state = now)
    (after : goal none (cell.set new state) (actors.track actor site state (cell.set new state) history)) :
    actors.may actor (compareExchange site cell now new) goal state history := by
  refine ⟨may, ?_⟩
  show goal (if cell.get state = now then none else some (cell.get state)) _ _
  simp only [if_pos same]
  exact after

theorem Reachable.trans (earlier : actors.Reachable one middle) (later : actors.Reachable middle last) :
    actors.Reachable one last := by
  induction later with
  | refl => exact earlier
  | tail _ step ih => exact .tail ih step

/-- What an operation may do is done in some continuation of the run, in which
nobody else has moved. -/
theorem reaches_of_may {run : Config State Site History Op Local Result} {own : Local} {op : Op}
    {code : Program State Site Result} {goal : Result → State → History → Prop}
    (thread : run.thread actor = actors.settle own op code)
    (holds : actors.may actor code goal run.state run.history) :
    ∃ later res, actors.Reachable run later ∧ goal res later.state later.history ∧
      later.thread = Function.update run.thread actor (.idle (actors.finish own op res)) := by
  induction code generalizing run with
  | ret res =>
    refine ⟨run, res, .refl, holds, ?_⟩
    rw [show Thread.idle (actors.finish own op res) = run.thread actor from thread.symm,
      update_eq_self]
  | act site update next ih =>
    obtain ⟨may, new⟩ := holds
    obtain ⟨later, res, reached, reaches, threads⟩ := @ih run.state
      { state := update run.state
        history := actors.track actor site run.state (update run.state) run.history
        thread := Function.update run.thread actor (actors.settle own op (next run.state)) }
      (update_self ..) new
    have one := Reachable.tail .refl (Step.act run actor own op site update next thread may)
    exact ⟨later, res, one.trans reached, reaches, by rw [threads, update_idem]⟩
  | pick next ih =>
    obtain ⟨choice, new⟩ := holds
    obtain ⟨later, res, reached, reaches, threads⟩ := @ih choice
      (Config.setThread run actor (actors.settle own op (next choice)))
      (update_self ..) new
    have one : actors.Reachable run (Config.setThread run actor (actors.settle own op (next choice))) :=
      .tail .refl (.pick run actor own op next choice thread)
    refine ⟨later, res, one.trans reached, reaches, ?_⟩
    rw [threads, Config.setThread, update_idem]
  | halt => exact holds.elim

/-- What a call may do, an idle actor does. -/
theorem reaches_call (idle : run.thread actor = .idle own) (enabled : actors.enabled own op)
    (holds : actors.may actor (actors.program op) goal run.state run.history) :
    ∃ later res, actors.Reachable run later ∧ goal res later.state later.history ∧
      later.thread = update run.thread actor (.idle (actors.finish (actors.start own op) op res)) := by
  have started := Reachable.tail .refl (Step.start run actor own op idle enabled)
  have running : (Config.setThread run actor
      (actors.settle (actors.start own op) op (actors.program op))).thread actor = _ := update_self ..
  obtain ⟨later, res, reached, reaches, threads⟩ := reaches_of_may running holds
  refine ⟨later, res, started.trans reached, reaches, ?_⟩
  rw [threads, Config.setThread, update_idem]

end ShmActors.Lib.Actors
