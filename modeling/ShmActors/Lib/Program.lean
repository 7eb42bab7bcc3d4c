import Mathlib.Algebra.Order.Ring.Nat
import Mathlib.Logic.Function.Basic

/-! Programs as trees of atomic steps. One tree is read in three ways: run to
completion, stopped after any number of steps, or interleaved with others. -/

namespace ShmActors.Lib

open Function

/-- A resumption: each `act` is one indivisible access to the shared state,
labelled by the source position it stands for. `pick` is a choice made outside
the program (a loop bound, a spurious failure); `halt` never steps again. -/
inductive Program (State Site Result : Type) : Type where
  | ret (result : Result)
  | act (site : Site) (update : State → State) (next : State → Program State Site Result)
  | pick (next : Nat → Program State Site Result)
  | halt

section

variable [DecidableEq Key] {table : Key → Option Value}

theorem update_none_eq_some : update table key none other = some val ↔ other ≠ key ∧ table other = some val := by
  by_cases same : other = key <;> simp [update_apply, same]

theorem update_some_eq_some : update table key (some new) other = some val ↔
    other = key ∧ new = val ∨ other ≠ key ∧ table other = some val := by
  by_cases same : other = key <;> simp [update_apply, same]

end

namespace Program

variable {State Site Result Other : Type} {kind : Site → (State → State) → Prop}

def bind (program : Program State Site Result)
    (rest : Result → Program State Site Other) : Program State Site Other :=
  match program with
  | ret result => rest result
  | act site update next => act site update (fun state => (next state).bind rest)
  | pick next => pick (fun choice => (next choice).bind rest)
  | halt => halt

instance : Monad (Program State Site) where
  pure := ret
  bind := bind

@[simp] theorem pure_eq (res : Result) : (pure res : Program State Site Result) = ret res := rfl

@[simp] theorem ret_bind (res : Result) (rest : Result → Program State Site Other) :
    (ret res >>= rest) = rest res := rfl

@[simp] theorem act_bind (site : Site) (update : State → State)
    (next : State → Program State Site Result) (rest : Result → Program State Site Other) :
    (act site update next >>= rest) = act site update (fun st => next st >>= rest) := rfl

@[simp] theorem pick_bind (next : Nat → Program State Site Result) (rest : Result → Program State Site Other) :
    (pick next >>= rest) = pick (fun choice => next choice >>= rest) := rfl

@[simp] theorem halt_bind (rest : Result → Program State Site Other) :
    ((halt : Program State Site Result) >>= rest) = halt := rfl

theorem bind_assoc (code : Program State Site Result)
    (one : Result → Program State Site Other) (two : Other → Program State Site Third) :
    (code >>= one) >>= two = code >>= fun res => one res >>= two := by
  induction code with
  | ret res => rfl
  | act site update next ih =>
    simp only [act_bind]
    congr 1
    funext st
    exact ih st
  | pick next ih =>
    simp only [pick_bind]
    congr 1
    funext choice
    exact ih choice
  | halt => rfl

theorem bind_ret (code : Program State Site Result) : code >>= ret = code := by
  induction code with
  | ret res => rfl
  | act site update next ih =>
    simp only [act_bind]
    congr 1
    funext st
    exact ih st
  | pick next ih =>
    simp only [pick_bind]
    congr 1
    funext choice
    exact ih choice
  | halt => rfl

instance : LawfulMonad (Program State Site) :=
  LawfulMonad.mk' _ (fun program => bind_ret program) (fun _ _ => rfl) bind_assoc

/-- Every access the program can make, at whatever values it reads, is of this
kind. -/
def Every (kind : Site → (State → State) → Prop) : Program State Site Result → Prop
  | ret _ => True
  | act site update next => kind site update ∧ ∀ state, (next state).Every kind
  | pick next => ∀ choice, (next choice).Every kind
  | halt => True

theorem every_bind {code : Program State Site Result}
    {rest : Result → Program State Site Other} (one : code.Every kind)
    (later : ∀ res, (rest res).Every kind) : (code >>= rest).Every kind := by
  induction code with
  | ret res => exact later res
  | act site update next ih => exact ⟨one.1, fun st => ih st (one.2 st)⟩
  | pick next ih => exact fun choice => ih choice (one choice)
  | halt => trivial

/-- What comes after an outcome, failed or not. -/
theorem every_try {Failure : Type}
    {code : Program State Site (Except Failure Result)} {rest : Except Failure Result → Program State Site Other}
    (one : code.Every kind) (fails : ∀ reason, (rest (.error reason)).Every kind)
    (succeeds : ∀ res, (rest (.ok res)).Every kind) : (code >>= rest).Every kind := by
  refine every_bind one fun out => ?_
  cases out with
  | error reason => exact fails reason
  | ok res => exact succeeds res

/-- What comes after a search, whether it finds something or not. -/
theorem every_found {code : Program State Site (Option Result)}
    {rest : Option Result → Program State Site Other} (one : code.Every kind) (absent : (rest none).Every kind)
    (present : ∀ res, (rest (some res)).Every kind) : (code >>= rest).Every kind := by
  refine every_bind one fun got => ?_
  cases got with
  | none => exact absent
  | some res => exact present res

/-- The program run to its end by itself, at the first of every choice. -/
def alone : Program State Site Result → State → Option (Result × State)
  | ret result, state => some (result, state)
  | act _ update next, state => (next state).alone (update state)
  | pick next, state => (next 0).alone state
  | halt, _ => none

theorem alone_bind (code : Program State Site Result) (rest : Result → Program State Site Other) (st : State) :
    (code >>= rest).alone st = (code.alone st).bind fun done => (rest done.1).alone done.2 := by
  induction code generalizing st with
  | ret res => rfl
  | act site update next ih => exact ih st (update st)
  | pick next ih => exact ih 0 st
  | halt => rfl

end Program

/-- A typed cell of the shared state. -/
structure Ref (State Value : Type) where
  get : State → Value
  set : Value → State → State

namespace Ref

variable {State Middle Value : Type}

/-- A field of the record another reference points at. -/
def field (outer : Ref State Middle) (get : Middle → Value) (set : Value → Middle → Middle) :
    Ref State Value where
  get state := get (outer.get state)
  set value state := outer.set (set value (outer.get state)) state

end Ref

section

variable {State Site Value : Type}

def load (site : Site) (cell : Ref State Value) : Program State Site Value :=
  .act site id (fun state => .ret (cell.get state))

def store (site : Site) (cell : Ref State Value) (value : Value) : Program State Site Unit :=
  .act site (cell.set value) (fun _ => .ret ())

/-- Read-modify-write; returns the previous value. -/
def fetchUpdate (site : Site) (cell : Ref State Value) (change : Value → Value) :
    Program State Site Value :=
  .act site (fun state => cell.set (change (cell.get state)) state)
    (fun state => .ret (cell.get state))

/-- Strong compare-exchange: `none` on success, the value found otherwise. -/
def compareExchange [DecidableEq Value] (site : Site) (cell : Ref State Value)
    (current new : Value) : Program State Site (Option Value) :=
  .act site (fun state => if cell.get state = current then cell.set new state else state)
    (fun state => .ret (if cell.get state = current then none else some (cell.get state)))

/-- Weak compare-exchange: as `compareExchange`, but it may fail on a match. -/
def compareExchangeWeak [DecidableEq Value] (site : Site) (cell : Ref State Value)
    (current new : Value) : Program State Site (Option Value) :=
  .pick fun choice => match choice with
    | 0 => .act site id (fun state => .ret (some (cell.get state)))
    | _ + 1 => compareExchange site cell current new

/-- A source `loop`: the body either finishes or goes round again. The bound is
picked outside, so every finite number of rounds is a run of the loop. -/
def rounds (body : Program State Site (Option Value)) : Nat → Program State Site Value
  | 0 => .halt
  | bound + 1 => body >>= fun outcome => match outcome with
    | some value => .ret value
    | none => rounds body bound

def repeatLoop (body : Program State Site (Option Value)) : Program State Site Value :=
  .pick (rounds body)

theorem every_repeatLoop {kind : Site → (State → State) → Prop}
    {body : Program State Site (Option Value)} (round : body.Every kind) : (repeatLoop body).Every kind := by
  intro bound
  induction bound with
  | zero => trivial
  | succ bound ih =>
    refine Program.every_bind round fun out => ?_
    cases out with
    | some val => trivial
    | none => exact ih

/-- As `repeatLoop`, for a body that hands a value to its next round. -/
def roundsFrom {Loop : Type} (body : Loop → Program State Site (Loop ⊕ Value)) :
    Nat → Loop → Program State Site Value
  | 0, _ => .halt
  | bound + 1, current => body current >>= fun outcome => match outcome with
    | .inl next => roundsFrom body bound next
    | .inr value => .ret value

def repeatFrom {Loop : Type} (body : Loop → Program State Site (Loop ⊕ Value)) (start : Loop) :
    Program State Site Value :=
  .pick fun bound => roundsFrom body bound start

/-- A source `for` over the elements of a list. -/
def forEach {Item : Type} (body : Item → Program State Site Unit) :
    List Item → Program State Site Unit
  | [] => .ret ()
  | item :: rest => body item >>= fun _ => forEach body rest

end

end ShmActors.Lib
