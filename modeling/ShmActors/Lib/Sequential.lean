import ShmActors.Lib.Program

/-! The sequential reading of a program: one thread, nobody else. -/

namespace ShmActors.Lib

namespace Program

variable {State Site Result Other : Type}

/-- The program, started in `state`, can end with `result` in `final`. -/
def Eval : Program State Site Result → State → Result → State → Prop
  | ret value, state, result, final => result = value ∧ final = state
  | act _ update next, state, result, final => (next state).Eval (update state) result final
  | pick next, state, result, final => ∃ choice, (next choice).Eval state result final
  | halt, _, _, _ => False

/-- Whatever the program ends with satisfies `post`. -/
def Ensures (program : Program State Site Result) (state : State)
    (post : Result → State → Prop) : Prop :=
  ∀ result final, program.Eval state result final → post result final

theorem eval_bind (code : Program State Site Result)
    (rest : Result → Program State Site Other) (st : State) (val : Other) (final : State) :
    (code >>= rest).Eval st val final ↔
      ∃ res middle, code.Eval st res middle ∧ (rest res).Eval middle val final := by
  induction code generalizing st with
  | ret res =>
    constructor
    · intro run
      exact ⟨res, st, ⟨rfl, rfl⟩, run⟩
    · rintro ⟨_, _, ⟨rfl, rfl⟩, run⟩
      exact run
  | act site update next ih => exact ih st (update st)
  | pick next ih =>
    constructor
    · rintro ⟨choice, run⟩
      obtain ⟨res, middle, one, later⟩ := (ih choice st).mp run
      exact ⟨res, middle, ⟨choice, one⟩, later⟩
    · rintro ⟨res, middle, ⟨choice, one⟩, later⟩
      exact ⟨choice, (ih choice st).mpr ⟨res, middle, one, later⟩⟩
  | halt =>
    constructor
    · exact False.elim
    · rintro ⟨_, _, run, _⟩
      exact run

/-- The program run to its end, at the same number of every choice. -/
def play (choice : Nat) : Program State Site Result → State → Option (Result × State)
  | ret value, state => some (value, state)
  | act _ update next, state => (next state).play choice (update state)
  | pick next, state => (next choice).play choice state
  | halt, _ => none

theorem eval_of_play {code : Program State Site Result}
    (played : code.play choice st = some (res, final)) : code.Eval st res final := by
  induction code generalizing st with
  | ret val =>
    cases played
    exact ⟨rfl, rfl⟩
  | act site update next ih => exact ih st played
  | pick next ih => exact ⟨choice, ih choice played⟩
  | halt => cases played

section

variable {code : Program State Site Result} {rest : Result → Program State Site Other}

theorem Ensures.mono (runs : code.Ensures st one)
    (weaken : ∀ res final, one res final → post res final) : code.Ensures st post :=
  fun res final run => weaken res final (runs res final run)

theorem Ensures.bind (runs : code.Ensures st one)
    (later : ∀ res middle, one res middle → (rest res).Ensures middle goal) :
    (code >>= rest).Ensures st goal := by
  intro val final run
  obtain ⟨res, middle, begun, ended⟩ := (eval_bind code rest st val final).mp run
  exact later res middle (runs res middle begun) val final ended

theorem Ensures.and (runs : code.Ensures st one) (holds : code.Ensures st post) :
    code.Ensures st fun res final => one res final ∧ post res final :=
  fun res final run => ⟨runs res final run, holds res final run⟩

/-- What every access of the program keeps, its run keeps. -/
theorem Ensures.of_every (along : State → Prop)
    (each : code.Every fun _ update => ∀ st, along st → along (update st))
    (holds : along st) : code.Ensures st fun _ final => along final := by
  induction code generalizing st with
  | ret val =>
    rintro _ _ ⟨_, rfl⟩
    exact holds
  | act site update next ih => exact ih st (each.2 st) (each.1 st holds)
  | pick next ih =>
    rintro val final ⟨choice, run⟩
    exact ih choice (each choice) holds val final run
  | halt =>
    intro _ _ run
    exact run.elim

end

/-- The program has exactly one outcome. -/
def Yields (program : Program State Site Result) (state : State) (result : Result)
    (final : State) : Prop :=
  ∀ value last, program.Eval state value last ↔ value = result ∧ last = final

section

variable {code : Program State Site Result}

theorem yields_ret : (ret res : Program State Site Result).Yields st res st :=
  fun _ _ => Iff.rfl

/-- Behind a program of one outcome, the rest runs from there. -/
theorem Yields.eval_bind (runs : code.Yields st res middle) :
    (code >>= rest).Eval st val final ↔ (rest res).Eval middle val final := by
  rw [Program.eval_bind]
  constructor
  · rintro ⟨_, _, begun, ended⟩
    obtain ⟨rfl, rfl⟩ := (runs _ _).mp begun
    exact ended
  · intro ended
    exact ⟨res, middle, (runs _ _).mpr ⟨rfl, rfl⟩, ended⟩

theorem Yields.bind (runs : code.Yields st res middle) (later : (rest res).Yields middle val final) :
    (code >>= rest).Yields st val final :=
  fun _ _ => runs.eval_bind.trans (later _ _)

theorem Yields.ensures (runs : code.Yields st res final)
    (holds : post res final) : code.Ensures st post := by
  intro val last run
  obtain ⟨rfl, rfl⟩ := (runs _ _).mp run
  exact holds

theorem ensures_ret (holds : post res st) : (ret res : Program State Site Result).Ensures st post := by
  rintro _ _ ⟨rfl, rfl⟩
  exact holds

theorem Yields.ensures_bind (runs : code.Yields st res middle)
    (later : (rest res).Ensures middle goal) : (code >>= rest).Ensures st goal :=
  fun val final run => later val final (runs.eval_bind.mp run)

end

end Program

section

open Program

variable {now new : Value}

theorem yields_load (cell : Ref State Value) : (load site cell).Yields st (cell.get st) st :=
  fun _ _ => Iff.rfl

theorem yields_store (cell : Ref State Value) (val : Value) :
    (store site cell val).Yields st () (cell.set val st) :=
  fun _ _ => Iff.rfl

theorem yields_fetchUpdate (cell : Ref State Value) (change : Value → Value) :
    (fetchUpdate site cell change).Yields st (cell.get st) (cell.set (change (cell.get st)) st) :=
  fun _ _ => Iff.rfl

variable [DecidableEq Value]

theorem yields_compareExchange_won (matched : cell.get st = now) :
    (compareExchange site cell now new).Yields st none (cell.set new st) := by
  intro val last
  simp only [compareExchange, Eval, if_pos matched]

theorem yields_compareExchange_lost (differs : cell.get st ≠ now) :
    (compareExchange site cell now new).Yields st (some (cell.get st)) st := by
  intro val last
  simp only [compareExchange, Eval, if_neg differs]

theorem ensures_compareExchangeWeak (won : cell.get st = now → (rest none).Ensures (cell.set new st) goal)
    (lost : (rest (some (cell.get st))).Ensures st goal) :
    (compareExchangeWeak site cell now new >>= rest).Ensures st goal := by
  intro val final run
  obtain ⟨out, middle, ⟨choice, began⟩, ended⟩ := (eval_bind _ _ _ _ _).mp run
  cases choice with
  | zero =>
    obtain ⟨rfl, rfl⟩ := began
    exact lost val final ended
  | succ =>
    by_cases same : cell.get st = now
    · obtain ⟨rfl, rfl⟩ := (yields_compareExchange_won same _ _).mp began
      exact won same val final ended
    · obtain ⟨rfl, rfl⟩ := (yields_compareExchange_lost same _ _).mp began
      exact lost val final ended

end

section

open Program

/-- A loop that always leaves in its first round. -/
theorem ensures_repeatFrom (round : (body start).Ensures st fun out final => ∃ val, out = .inr val ∧ post val final) :
    (repeatFrom body start).Ensures st post := by
  rintro res last ⟨bound, run⟩
  cases bound with
  | zero => exact run.elim
  | succ bound =>
    obtain ⟨out, middle, one, later⟩ := (eval_bind _ _ _ _ _).mp run
    obtain ⟨val, rfl, holds⟩ := round out middle one
    obtain ⟨rfl, rfl⟩ := later
    exact holds

theorem ensures_repeatLoop {body : Program State Site (Option Value)} {inv : State → Prop} (round : ∀ st, inv st →
      body.Ensures st fun out final => out.elim (inv final) (post · final)) (holds : inv st) :
    (repeatLoop body).Ensures st post := by
  rintro res last ⟨bound, run⟩
  induction bound generalizing st with
  | zero => exact run.elim
  | succ bound ih =>
    obtain ⟨out, middle, one, later⟩ := (eval_bind _ _ _ _ _).mp run
    have ended := round st holds out middle one
    cases out with
    | none => exact ih ended later
    | some val =>
      obtain ⟨rfl, rfl⟩ := later
      exact ended

end

end ShmActors.Lib
