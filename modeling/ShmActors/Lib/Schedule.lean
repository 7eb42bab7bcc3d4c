import ShmActors.Lib.Actors

/-! Interleavings as data: a schedule names who moves next, and running it
yields a reachable configuration. -/

namespace ShmActors.Lib

open Function

inductive Move (Op : Type) where
  | start (actor : Nat) (op : Op)
  | step (actor : Nat)
  | pick (actor choice : Nat)

def Move.actor {Op : Type} : Move Op → Nat
  | .start actor _ | .step actor | .pick actor _ => actor

/-- A coarser schedule: an actor begins an operation, or makes up to so many
moves in a row, every choice among them the same. -/
inductive Stretch (Op : Type) where
  | begin (actor : Nat) (op : Op)
  | run (actor moves choice : Nat)

def Stretch.actor {Op : Type} : Stretch Op → Nat
  | .begin actor _ | .run actor _ _ => actor

/-- The access an actor makes next: its operation, the site, and the state it
would leave. -/
def Config.upcoming {State Site History Op Local Result : Type} (config : Config State Site History Op Local Result)
    (actor : Nat) : Option (Op × Site × State) :=
  match config.thread actor with
  | .running _ op (.act site update _) => some (op, site, update config.state)
  | _ => none

theorem Config.running_of_upcoming {run : Config State Site History Op Local Result}
    (coming : run.upcoming who = some (op, site, new)) :
    ∃ own update next, run.thread who = .running own op (.act site update next) ∧ update run.state = new := by
  unfold Config.upcoming at coming
  split at coming
  next own _ _ update next running =>
    cases coming
    exact ⟨own, update, next, running, rfl⟩
  next => cases coming

namespace Actors

variable {State Site History Op Local Result : Type} (actors : Actors State Site History Op Local Result)
  [∀ own op, Decidable (actors.enabled own op)]
  [∀ actor site state past, Decidable (actors.allowed actor site state past)]
  {config initial : Config State Site History Op Local Result} {move : Move Op}

def perform (config : Config State Site History Op Local Result) :
    Move Op → Option (Config State Site History Op Local Result)
  | .start actor op => match config.thread actor with
    | .idle own =>
      if actors.enabled own op then
        some (Config.setThread config actor
          (actors.settle (actors.start own op) op (actors.program op)))
      else none
    | _ => none
  | .step actor => match config.thread actor with
    | .running own op (.act site update next) =>
      if actors.allowed actor site config.state config.history then
        some
          { state := update config.state
            history := actors.track actor site config.state (update config.state) config.history
            thread := Function.update config.thread actor
              (actors.settle own op (next config.state)) }
      else none
    | _ => none
  | .pick actor choice => match config.thread actor with
    | .running own op (.pick next) =>
      some (Config.setThread config actor (actors.settle own op (next choice)))
    | _ => none

def performAll (config : Config State Site History Op Local Result) :
    List (Move Op) → Option (Config State Site History Op Local Result)
  | [] => some config
  | move :: moves => match actors.perform config move with
    | some next => performAll next moves
    | none => none

/-- The next move of an actor, if it has one. -/
def advance (config : Config State Site History Op Local Result) (actor choice : Nat) :
    Config State Site History Op Local Result :=
  match config.thread actor with
  | .running _ _ (.act _ _ _) => (actors.perform config (.step actor)).getD config
  | .running _ _ (.pick _) => (actors.perform config (.pick actor choice)).getD config
  | _ => config

def advances (actor choice : Nat) :
    Nat → Config State Site History Op Local Result → Config State Site History Op Local Result
  | 0, config => config
  | moves + 1, config => advances actor choice moves (actors.advance config actor choice)

def follow : List (Stretch Op) → Config State Site History Op Local Result →
    Config State Site History Op Local Result
  | [], config => config
  | .begin actor op :: rest, config =>
    follow rest ((actors.perform config (.start actor op)).getD config)
  | .run actor moves choice :: rest, config => follow rest (actors.advances actor choice moves config)

variable {actors}

theorem step_of_perform (done : actors.perform config move = some next) : actors.Step config next := by
  cases move with
  | start actor op =>
    simp only [perform] at done
    split at done
    next own idle =>
      split at done
      next enabled =>
        cases done
        exact .start config actor own op idle enabled
      next => cases done
    next => cases done
  | step actor =>
    simp only [perform] at done
    split at done
    next own op site update rest running =>
      split at done
      next may =>
        cases done
        exact .act config actor own op site update rest running may
      next => cases done
    next => cases done
  | pick actor choice =>
    simp only [perform] at done
    split at done
    next own op rest running =>
      cases done
      exact .pick config actor own op rest choice running
    next => cases done

theorem reachable_of_performAll (earlier : actors.Reachable initial config)
    (done : actors.performAll config moves = some last) : actors.Reachable initial last := by
  induction moves generalizing config with
  | nil =>
    cases done
    exact earlier
  | cons move moves ih =>
    simp only [performAll] at done
    split at done
    next next one => exact ih (.tail earlier (step_of_perform one)) done
    next => cases done

theorem reachable_getD (earlier : actors.Reachable initial config) :
    actors.Reachable initial ((actors.perform config move).getD config) := by
  cases done : actors.perform config move with
  | none => exact earlier
  | some next => exact .tail earlier (step_of_perform done)

theorem reachable_advance (actor choice : Nat) (earlier : actors.Reachable initial config) :
    actors.Reachable initial (actors.advance config actor choice) := by
  unfold advance
  split
  · exact reachable_getD earlier
  · exact reachable_getD earlier
  · exact earlier

theorem reachable_advances (actor choice moves : Nat) (earlier : actors.Reachable initial config) :
    actors.Reachable initial (actors.advances actor choice moves config) := by
  induction moves generalizing config with
  | zero => exact earlier
  | succ moves ih => exact ih (reachable_advance actor choice earlier)

/-- Whatever a schedule asks for, it follows a run. -/
theorem reachable_follow (schedule : List (Stretch Op)) (earlier : actors.Reachable initial config) :
    actors.Reachable initial (actors.follow schedule config) := by
  induction schedule generalizing config with
  | nil => exact earlier
  | cons stretch rest ih =>
    cases stretch with
    | begin actor op => exact ih (reachable_getD earlier)
    | run actor moves choice => exact ih (reachable_advances actor choice moves earlier)

section

theorem thread_perform (done : actors.perform config move = some next) (others : other ≠ move.actor) :
    next.thread other = config.thread other := by
  cases move with
  | start | step =>
    simp only [perform] at done
    split at done
    · split at done
      · cases done
        exact update_of_ne others _ _
      · cases done
    · cases done
  | pick =>
    simp only [perform] at done
    split at done
    · cases done
      exact update_of_ne others _ _
    · cases done

theorem thread_getD (others : other ≠ move.actor) :
    ((actors.perform config move).getD config).thread other = config.thread other := by
  cases done : actors.perform config move with
  | none => rfl
  | some next => exact thread_perform done others

theorem thread_advances (choice moves : Nat) (others : other ≠ actor) :
    (actors.advances actor choice moves config).thread other = config.thread other := by
  induction moves generalizing config with
  | zero => rfl
  | succ moves ih =>
    refine ih.trans ?_
    unfold advance
    split
    · exact thread_getD others
    · exact thread_getD others
    · rfl

/-- An actor the schedule does not name stays where it is. -/
theorem thread_follow (schedule : List (Stretch Op)) (others : ∀ stretch ∈ schedule, other ≠ stretch.actor) :
    (actors.follow schedule config).thread other = config.thread other := by
  induction schedule generalizing config with
  | nil => rfl
  | cons stretch rest ih =>
    have one : other ≠ stretch.actor := others stretch List.mem_cons_self
    have later : ∀ stretch ∈ rest, other ≠ stretch.actor :=
      fun stretch in_ => others stretch (List.mem_cons_of_mem _ in_)
    cases stretch with
    | begin actor op => exact (ih later).trans (thread_getD one)
    | run actor moves choice => exact (ih later).trans (thread_advances choice moves one)

end

section

variable {State Site History Op Local Result Value Other : Type} (actors : Actors State Site History Op Local Result)

/-- What one actor's program can do while the others rest: the program left,
with the state and the history it leaves. -/
inductive Takes (actor : Nat) : Program State Site Value → State → History →
    Program State Site Value → State → History → Prop where
  | refl (program) (state : State) (history : History) : Takes actor program state history program state history
  | act {site update next state history rest state' history'}
      (allowed : actors.allowed actor site state history)
      (later : Takes actor (next state) (update state) (actors.track actor site state (update state) history)
        rest state' history') :
      Takes actor (.act site update next) state history rest state' history'
  | pick {next state history rest state' history'} (choice : Nat)
      (later : Takes actor (next choice) state history rest state' history') :
      Takes actor (.pick next) state history rest state' history'

variable {actors} {program rest : Program State Site Value}

theorem Takes.bind (takes : actors.Takes actor program state history rest state' history')
    (new : Value → Program State Site Other) :
    actors.Takes actor (program >>= new) state history (rest >>= new) state' history' := by
  induction takes with
  | refl => exact .refl _ _ _
  | act may _ ih => exact .act may ih
  | pick choice _ ih => exact .pick choice ih

theorem Takes.trans (one : actors.Takes actor program state history middle state' history')
    (two : actors.Takes actor middle state' history' rest state'' history'') :
    actors.Takes actor program state history rest state'' history'' := by
  induction one with
  | refl => exact two
  | act may _ ih => exact .act may (ih two)
  | pick choice _ ih => exact .pick choice (ih two)

theorem reachable_takes {initial : Config State Site History Op Local Result}
    {program rest : Program State Site Result} (takes : actors.Takes actor program state history rest state' history')
    (reached : actors.Reachable initial ⟨state, history, update thread actor (actors.settle own op program)⟩) :
    actors.Reachable initial ⟨state', history', update thread actor (actors.settle own op rest)⟩ := by
  induction takes with
  | refl => exact reached
  | act may _ ih =>
    apply ih
    have step := reached.tail (.act _ actor own op _ _ _ (update_self actor _ _) may)
    simpa only [update_idem] using step
  | pick choice _ ih =>
    apply ih
    have step := reached.tail (.pick _ actor own op _ choice (update_self actor _ _))
    simpa only [Config.setThread, update_idem] using step

end

end Actors

end ShmActors.Lib
