import ShmActors.Lib.Program

/-! Any number of actors running operations over one shared state, interleaved
step by step, and a rule that proves invariants of all their interleavings one
operation at a time. -/

namespace ShmActors.Lib

open Function

/-- What the actors may run. `history` is bookkeeping the code does not see:
`track` updates it after each access, and `allowed` says which accesses the
runs under study contain. -/
structure Actors (State Site History Op Local Result : Type) where
  program : Op → Program State Site Result
  enabled : Local → Op → Prop
  start : Local → Op → Local
  finish : Local → Op → Result → Local
  track : Nat → Site → State → State → History → History
  allowed : Nat → Site → State → History → Prop

inductive Thread (State Site Op Local Result : Type) : Type where
  | idle (own : Local)
  | running (own : Local) (op : Op) (rest : Program State Site Result)

structure Config (State Site History Op Local Result : Type) : Type where
  state : State
  history : History
  thread : Nat → Thread State Site Op Local Result

variable {State Site History Op Local Result Resource : Type}

def Thread.own : Thread State Site Op Local Result → Local
  | idle own => own
  | running own _ _ => own

namespace Actors

variable (actors : Actors State Site History Op Local Result) {Value : Type} {held : Resource}
  {post : Value → Resource → Prop}

/-- An operation whose program has returned leaves its actor idle again. -/
def settle (own : Local) (op : Op) :
    Program State Site Result → Thread State Site Op Local Result
  | .ret result => .idle (actors.finish own op result)
  | rest => .running own op rest

def Config.setThread (config : Config State Site History Op Local Result) (actor : Nat)
    (thread : Thread State Site Op Local Result) : Config State Site History Op Local Result :=
  { config with thread := update config.thread actor thread }

/-- One step of the whole system, by one actor. -/
inductive Step : Config State Site History Op Local Result →
    Config State Site History Op Local Result → Prop where
  | start (config) (actor : Nat) (own : Local) (op : Op)
      (idle : config.thread actor = .idle own) (enabled : actors.enabled own op) :
      Step config (Config.setThread config actor
        (actors.settle (actors.start own op) op (actors.program op)))
  | act (config) (actor : Nat) (own : Local) (op : Op) (site : Site) (update : State → State)
      (next : State → Program State Site Result)
      (running : config.thread actor = .running own op (.act site update next))
      (allowed : actors.allowed actor site config.state config.history) :
      Step config
        { state := update config.state
          history := actors.track actor site config.state (update config.state) config.history
          thread := Function.update config.thread actor
            (actors.settle own op (next config.state)) }
  | pick (config) (actor : Nat) (own : Local) (op : Op)
      (next : Nat → Program State Site Result) (choice : Nat)
      (running : config.thread actor = .running own op (.pick next)) :
      Step config (Config.setThread config actor (actors.settle own op (next choice)))

/-- Every configuration some interleaving reaches. -/
inductive Reachable (initial : Config State Site History Op Local Result) :
    Config State Site History Op Local Result → Prop where
  | refl : Reachable initial initial
  | tail {middle last} (earlier : Reachable initial middle) (step : actors.Step middle last) :
      Reachable initial last

/-- The weakest precondition of a program run by `actor` among others. `inv`
relates the state, the history and what every actor holds; the actor's own
holdings are the only thing a program may rely on between two of its steps. -/
def wp (inv : History → State → (Nat → Resource) → Prop) (actor : Nat) {Value : Type} :
    Program State Site Value → (Value → Resource → Prop) → Resource → Prop
  | .ret value, post, held => post value held
  | .act site update next, post, held =>
    ∀ history state holdings, inv history state holdings → holdings actor = held →
      actors.allowed actor site state history →
      ∃ kept, inv (actors.track actor site state (update state) history) (update state)
          (Function.update holdings actor kept) ∧
        wp inv actor (next state) post kept
  | .pick next, post, held => ∀ choice, wp inv actor (next choice) post held
  | .halt, _, _ => True

variable {actors} {inv : History → State → (Nat → Resource) → Prop} {actor : Nat} {program : Program State Site Value}

theorem wp_mono {one two : Value → Resource → Prop} (holds : actors.wp inv actor program one held)
    (weaker : ∀ val kept, one val kept → two val kept) : actors.wp inv actor program two held := by
  induction program generalizing held with
  | ret val => exact weaker val held holds
  | act site update next ih =>
    intro past st holdings ok same may
    obtain ⟨kept, new, rest⟩ := holds past st holdings ok same may
    exact ⟨kept, new, ih st rest⟩
  | pick next ih => exact fun choice => ih choice (holds choice)
  | halt => trivial

theorem wp_bind {rest : Value → Program State Site Other} {post : Other → Resource → Prop}
    (holds : actors.wp inv actor program (fun val kept => actors.wp inv actor (rest val) post kept) held) :
    actors.wp inv actor (program >>= rest) post held := by
  induction program generalizing held with
  | ret val => exact holds
  | act site update next ih =>
    intro past st holdings ok same may
    obtain ⟨kept, new, later⟩ := holds past st holdings ok same may
    exact ⟨kept, new, ih st later⟩
  | pick next ih => exact fun choice => ih choice (holds choice)
  | halt => trivial

theorem wp_then {Other : Type} {one : Value → Resource → Prop} {rest : Value → Program State Site Other}
    {post : Other → Resource → Prop} (holds : actors.wp inv actor program one held)
    (later : ∀ val kept, one val kept → actors.wp inv actor (rest val) post kept) :
    actors.wp inv actor (program >>= rest) post held :=
  wp_bind (wp_mono holds later)

/-- An exchange, by what happens when it is won and when it is lost. -/
theorem wp_compareExchange [DecidableEq Value] {site : Site} {cell : Ref State Value}
    {now new : Value} {post : Option Value → Resource → Prop}
    (won : ∀ past st holdings, inv past st holdings → holdings actor = held →
      actors.allowed actor site st past → cell.get st = now →
      ∃ kept, inv (actors.track actor site st (cell.set new st) past)
          (cell.set new st) (update holdings actor kept) ∧ post none kept)
    (lost : ∀ past st holdings, inv past st holdings → holdings actor = held →
      actors.allowed actor site st past → cell.get st ≠ now →
      ∃ kept, inv (actors.track actor site st st past) st
          (update holdings actor kept) ∧ post (some (cell.get st)) kept) :
    actors.wp inv actor (compareExchange site cell now new) post held := by
  intro past st holdings ok same may
  by_cases got : cell.get st = now
  · simpa only [if_pos got, wp] using won past st holdings ok same may got
  · simpa only [if_neg got, wp] using lost past st holdings ok same may got

/-- The loop rule: what one more round needs is what the loop started with. -/
theorem wp_repeatLoop {body : Program State Site (Option Value)}
    (round : actors.wp inv actor body (fun out kept => match out with
      | some val => post val kept
      | none => kept = held) held) :
    actors.wp inv actor (repeatLoop body) post held := by
  intro bound
  induction bound with
  | zero => trivial
  | succ bound ih =>
    apply wp_bind
    apply wp_mono round
    intro out kept new
    cases out with
    | some val => exact new
    | none =>
      subst new
      exact ih

theorem wp_repeatFrom {Loop : Type} {body : Loop → Program State Site (Loop ⊕ Value)} (between : Loop → Resource → Prop)
    (round : ∀ now held, between now held →
      actors.wp inv actor (body now) (fun out kept => match out with
        | .inl next => between next kept
        | .inr val => post val kept) held)
    {start : Loop} (entry : between start held) :
    actors.wp inv actor (repeatFrom body start) post held := by
  intro bound
  induction bound generalizing start held with
  | zero => trivial
  | succ bound ih =>
    apply wp_bind
    apply wp_mono (round start held entry)
    intro out kept new
    cases out with
    | inl next => exact ih new
    | inr val => exact new

/-- What the rule maintains: the invariant holds of some assignment of
holdings, idle actors hold what `rest` allows between operations, and every
running operation is safe to continue. -/
def SafeFor (actors : Actors State Site History Op Local Result)
    (inv : History → State → (Nat → Resource) → Prop) (rest : Nat → Local → Resource → Prop)
    (config : Config State Site History Op Local Result) : Prop :=
  ∃ holdings, inv config.history config.state holdings ∧
    ∀ actor, match config.thread actor with
      | .idle own => rest actor own (holdings actor)
      | .running own op program => actors.wp inv actor program
          (fun result kept => rest actor (actors.finish own op result) kept) (holdings actor)

/-- The case of actors that hold, between operations, what their local state says. -/
def Safe (actors : Actors State Site History Op Local Result)
    (inv : History → State → (Nat → Resource) → Prop) (holding : Local → Resource)
    (config : Config State Site History Op Local Result) : Prop :=
  actors.SafeFor inv (fun _ own held => held = holding own) config

section

variable {rest : Nat → Local → Resource → Prop} {known : Local → History → Prop}

theorem settle_safe {own : Local} {op : Op} {program : Program State Site Result} {held : Resource}
    (holds : actors.wp inv actor program
      (fun res kept => rest actor (actors.finish own op res) kept) held) :
    match actors.settle own op program with
      | .idle own => rest actor own held
      | .running own op program => actors.wp inv actor program
          (fun res kept => rest actor (actors.finish own op res) kept) held := by
  cases program <;> exact holds

/-- The rule. If every operation may start from what its actor holds and gives
back what its result says, every interleaving keeps the invariant. -/
theorem safeFor_of_reachable (specification : ∀ actor own op held, actors.enabled own op → rest actor own held →
      actors.wp inv actor (actors.program op)
        (fun res kept => rest actor (actors.finish (actors.start own op) op res) kept) held)
    (start : actors.SafeFor inv rest initial) (reached : actors.Reachable initial run) :
    actors.SafeFor inv rest run := by
  induction reached with
  | refl => exact start
  | tail earlier step ih =>
    obtain ⟨holdings, ok, threads⟩ := ih
    cases step with
    | start actor own op idle enabled =>
      refine ⟨holdings, ok, fun other => ?_⟩
      by_cases same : other = actor
      · subst other
        have held := threads actor
        rw [idle] at held
        simp only [Config.setThread, update_self]
        exact settle_safe (specification actor own op _ enabled held)
      · simpa [Config.setThread, same] using threads other
    | act actor own op site update next running may =>
      have holds := threads actor
      rw [running] at holds
      obtain ⟨kept, new, later⟩ := holds _ _ holdings ok rfl may
      refine ⟨_, new, fun other => ?_⟩
      by_cases same : other = actor
      · subst other
        simp only [update_self]
        exact settle_safe later
      · simpa [same] using threads other
    | pick actor own op next choice running =>
      have holds := threads actor
      rw [running] at holds
      refine ⟨holdings, ok, fun other => ?_⟩
      by_cases same : other = actor
      · subst other
        simp only [Config.setThread, update_self]
        exact settle_safe (holds choice)
      · simpa [Config.setThread, same] using threads other

theorem safe_of_reachable (specification : ∀ actor own op, actors.enabled own op →
      actors.wp inv actor (actors.program op)
        (fun res kept => kept = holding (actors.finish (actors.start own op) op res)) (holding own))
    (start : actors.Safe inv holding initial) (reached : actors.Reachable initial run) :
    actors.Safe inv holding run := by
  apply safeFor_of_reachable _ start reached
  rintro actor own op _ enabled rfl
  exact specification actor own op enabled

/-- What an actor learnt from its finished operations stays known, also while it
runs the next one. -/
theorem known_of_idle (starts : ∀ own op past, known own past → known (actors.start own op) past)
    (stable : ∀ actor site old new past own, known own past →
      known own (actors.track actor site old new past))
    (fromIdle : ∀ {run : Config State Site History Op Local Result}, actors.Reachable initial run →
      ∀ own, run.thread actor = .idle own → known own run.history)
    (one : known (initial.thread actor).own initial.history) (reached : actors.Reachable initial run) :
    known (run.thread actor).own run.history := by
  -- a thread that has just settled is idle or runs on with the same local state
  have settles : ∀ {run : Config State Site History Op Local Result} {own : Local} {op : Op}
      {program : Program State Site Result}, actors.Reachable initial run →
      run.thread actor = actors.settle own op program → known own run.history →
      known (run.thread actor).own run.history := by
    intro run own op program reached thread old
    cases program with
    | ret res =>
      rw [thread]
      exact fromIdle reached _ thread
    | act | pick | halt =>
      rw [thread]
      exact old
  induction reached with
  | refl => exact one
  | @tail middle _ earlier step ih =>
    have here := Reachable.tail earlier step
    cases step with
    | start other own op idle enabled =>
      by_cases same : actor = other
      · subst same
        apply settles here (by simp [Config.setThread]; rfl)
        rw [idle] at ih
        exact starts own op _ ih
      · simpa [Config.setThread, same] using ih
    | act other own op site update next running may =>
      have kept := stable other site middle.state (update middle.state) _ _ ih
      by_cases same : actor = other
      · subst same
        apply settles here (by simp; rfl)
        rw [running] at kept
        exact kept
      · simpa [same] using kept
    | pick other own op next choice running =>
      by_cases same : actor = other
      · subst same
        apply settles here (by simp [Config.setThread]; rfl)
        rw [running] at ih
        exact ih
      · simpa [Config.setThread, same] using ih

theorem known_of_reachable (starts : ∀ own op, actors.start own op = own)
    (stable : ∀ actor site old new past own, known own past →
      known own (actors.track actor site old new past))
    (settled : ∀ past st holdings actor own, inv past st holdings →
      rest actor own (holdings actor) → known own past)
    (safe : ∀ {run}, actors.Reachable initial run → actors.SafeFor inv rest run)
    (one : ∀ actor, known (initial.thread actor).own initial.history)
    (reached : actors.Reachable initial run) (actor : Nat) : known (run.thread actor).own run.history := by
  apply known_of_idle (fun own op past known => by rw [starts]; exact known) stable ?_ (one actor) reached
  intro run reached own idle
  obtain ⟨holdings, ok, threads⟩ := safe reached
  have held := threads actor
  rw [idle] at held
  exact settled _ _ _ actor own ok held

/-- Every access still to come is of the kinds its operation is made of. -/
theorem every_of_reachable {kind : Op → Site → (State → State) → Prop}
    (programs : ∀ op, (actors.program op).Every (kind op))
    (one : ∀ actor own op program, initial.thread actor = .running own op program → program.Every (kind op))
    (reached : actors.Reachable initial run) :
    ∀ actor own op program, run.thread actor = .running own op program → program.Every (kind op) := by
  have settles : ∀ {own own' : Local} {op op' : Op} {program program' : Program State Site Result},
      program.Every (kind op) → actors.settle own op program = .running own' op' program' →
      program'.Every (kind op') := by
    intro own own' op op' program program' every settled
    cases program with
    | ret res => cases settled
    | act | pick | halt =>
      cases settled
      exact every
  induction reached with
  | refl => exact one
  | tail earlier step ih =>
    intro actor own' op' program thread
    cases step with
    | start other own op idle enabled =>
      by_cases same : actor = other
      · subst same
        simp only [Config.setThread, update_self] at thread
        exact settles (programs op) thread
      · simp only [Config.setThread, update_of_ne same] at thread
        exact ih actor own' op' program thread
    | act other own op site update next running may =>
      by_cases same : actor = other
      · subst same
        simp only [update_self] at thread
        exact settles ((ih actor _ _ _ running).2 _) thread
      · simp only [update_of_ne same] at thread
        exact ih actor own' op' program thread
    | pick other own op next choice running =>
      by_cases same : actor = other
      · subst same
        simp only [Config.setThread, update_self] at thread
        exact settles (ih actor _ _ _ running choice) thread
      · simp only [Config.setThread, update_of_ne same] at thread
        exact ih actor own' op' program thread

end

/-- An operation may go on from other holdings that the invariant allows as well. -/
theorem wp_switch (switch : ∀ past st holdings, inv past st holdings → holdings actor = one →
      inv past st (Function.update holdings actor two)) (same : ∀ val, post val two → post val one)
    (holds : actors.wp inv actor program post two) : actors.wp inv actor program post one := by
  induction program with
  | ret val => exact same val holds
  | act site update next ih =>
    intro past st holdings ok held may
    obtain ⟨kept, new, later⟩ :=
      holds past st _ (switch past st holdings ok held) (by simp) may
    refine ⟨kept, ?_, later⟩
    rwa [update_idem] at new
  | pick next ih => exact fun choice => ih choice (holds choice)
  | halt => trivial

end Actors

end ShmActors.Lib
