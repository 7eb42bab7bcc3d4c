import Mathlib.Algebra.Order.Ring.Nat
import Mathlib.Data.Finset.Card
import Mathlib.Logic.Function.Basic

/-! Tables that give ids to values: one map from the key of a value to its id, one
from the id back, each filled on the first write only, and a counter on 32 bits. -/

namespace ShmActors.Lib

open Function

structure Interner (Key Value : Type) where
  byKey : Key → Option Nat
  byId : Nat → Option Value
  nextId : Nat

namespace Interner

variable {Key Value : Type}

def empty (first : Nat) : Interner Key Value := ⟨fun _ => none, fun _ => none, first⟩

section

variable [DecidableEq Key] (key : Value → Key)

/-- The id of a value; a new value takes the next one. -/
def intern (table : Interner Key Value) (value : Value) : Nat × Interner Key Value :=
  match table.byKey (key value) with
  | some id => (id, table)
  | none => (table.nextId, {
      byKey := update table.byKey (key value) (some table.nextId)
      byId := update table.byId table.nextId (some value)
      nextId := (table.nextId + 1) % 2 ^ 32 })

/-- Record the id somebody else gave a value. -/
def insert (table : Interner Key Value) (id : Nat) (value : Value) : Interner Key Value where
  byKey := update table.byKey (key value) (some ((table.byKey (key value)).getD id))
  byId := update table.byId id (some ((table.byId id).getD value))
  nextId := if table.nextId ≤ id then (id + 1) % 2 ^ 32 else table.nextId

end

section

variable (key : Value → Key) (known : Set Value)

/-- What is cached for a value is an id that resolves to it. -/
def Agrees (table : Interner Key Value) : Prop :=
  ∀ value ∈ known, ∀ id, table.byKey (key value) = some id → id ≠ 0 ∧ table.byId id = some value

/-- The second table has all that the first has. -/
structure Grows (table later : Interner Key Value) : Prop where
  byKey : ∀ {name id}, table.byKey name = some id → later.byKey name = some id
  byId : ∀ {id value}, table.byId id = some value → later.byId id = some value

/-- A mint takes an id that is not in use. -/
def Fresh (table : Interner Key Value) (value : Value) : Prop :=
  table.byKey (key value) = none → table.nextId ≠ 0 ∧ table.byId table.nextId = none

/-- The ids were given out in order to the values seen. -/
structure Counted (first : Nat) (seen : Finset Value) (table : Interner Key Value) : Prop where
  nextId : table.nextId = (first + seen.card) % 2 ^ 32
  below : ∀ {id value}, table.byId id = some value → id < first + seen.card
  cached : ∀ value ∈ known, (table.byKey (key value)).isSome ↔ value ∈ seen

variable {key known}

theorem Grows.refl (table : Interner Key Value) : Grows table table := ⟨id, id⟩

theorem agrees_empty (one : Nat) : (empty one).Agrees key known := by
  intro value _ id cached
  cases cached

theorem counted_empty (small : one < 2 ^ 32) : Counted key known one ∅ (empty one) where
  nextId := (Nat.mod_eq_of_lt small).symm
  below got := by cases got
  cached value _ := by simp [empty]

theorem Counted.nextId_eq (counted : Counted key known one seen table) (room : one + seen.card < 2 ^ 32) :
    table.nextId = one + seen.card :=
  counted.nextId.trans (Nat.mod_eq_of_lt room)

theorem Counted.fresh (counted : Counted key known one seen table) (in_ : value ∈ known) (positive : 0 < one)
    (room : value ∉ seen → one + seen.card < 2 ^ 32) : table.Fresh key value := by
  intro uncached
  have new : value ∉ seen := fun old => by
    rw [← counted.cached value in_, uncached] at old
    cases old
  have next := counted.nextId_eq (room new)
  refine ⟨by omega, ?_⟩
  cases got : table.byId table.nextId with
  | none => rfl
  | some other =>
    have := counted.below got
    omega

end

section

variable [DecidableEq Key] {key : Value → Key} {known : Set Value} {table : Interner Key Value} {val : Value}
  {id : Nat}

/-- One more pair is recorded: an id that is not another value's. -/
theorem Agrees.update (agrees : table.Agrees key known) (ne : Set.InjOn key known) (in_ : val ∈ known)
    {cached next : Nat} (named : id ≠ 0) (unused : table.byId id = none ∨ table.byId id = some val)
    (hit : table.byKey (key val) = none ∧ cached = id ∨ table.byKey (key val) = some cached) :
    Agrees key known ⟨update table.byKey (key val) (some cached),
      update table.byId id (some val), next⟩ ∧
    Grows table ⟨update table.byKey (key val) (some cached),
      update table.byId id (some val), next⟩ := by
  constructor
  · intro other within got
    simp only [update_apply]
    by_cases same : key other = key val
    · obtain rfl := ne within in_ same
      have := agrees other within
      grind
    · have := agrees other within
      grind
  · constructor
    · intro name got had
      simp only [update_apply]
      grind
    · intro got other had
      simp only [update_apply]
      grind

theorem Agrees.intern (agrees : table.Agrees key known) (ne : Set.InjOn key known) (in_ : val ∈ known)
    (fresh : table.Fresh key val) :
    ((table.intern key val).2.Agrees key known ∧ Grows table (table.intern key val).2) ∧
      (table.intern key val).2.byKey (key val) = some (table.intern key val).1 := by
  unfold Interner.intern
  cases cached : table.byKey (key val) with
  | some id => exact ⟨⟨agrees, .refl _⟩, cached⟩
  | none =>
    obtain ⟨named, unused⟩ := fresh cached
    exact ⟨agrees.update ne in_ named (.inl unused) (.inl ⟨cached, rfl⟩), update_self ..⟩

theorem Agrees.insert (agrees : table.Agrees key known) (ne : Set.InjOn key known) (in_ : val ∈ known)
    (named : id ≠ 0) (unused : table.byId id = none ∨ table.byId id = some val) :
    ((table.insert key id val).Agrees key known ∧ Grows table (table.insert key id val)) ∧
      (table.insert key id val).byId id = some val := by
  have kept : (table.byId id).getD val = val := by
    rcases unused with absent | eq
    · rw [absent, Option.getD_none]
    · rw [eq, Option.getD_some]
  unfold Interner.insert
  rw [kept]
  refine ⟨agrees.update ne in_ named unused ?_, update_self ..⟩
  cases cached : table.byKey (key val) with
  | none => exact .inl ⟨rfl, rfl⟩
  | some prior => exact .inr rfl

theorem Counted.intern [DecidableEq Value] (counted : Counted key known one seen table)
    (ne : Set.InjOn key known) (in_ : val ∈ known) (room : val ∉ seen → one + seen.card < 2 ^ 32) :
    Counted key known one (Insert.insert val seen) (table.intern key val).2 := by
  unfold Interner.intern
  cases cached : table.byKey (key val) with
  | some id =>
    have old : val ∈ seen := (counted.cached val in_).mp (by rw [cached]; rfl)
    rwa [Finset.insert_eq_of_mem old]
  | none =>
    have new : val ∉ seen := fun old => by
      rw [← counted.cached val in_, cached] at old
      cases old
    have next := counted.nextId_eq (room new)
    constructor
    · rw [Finset.card_insert_of_notMem new, ← Nat.add_assoc, ← next]
    · intro id other got
      rw [Finset.card_insert_of_notMem new]
      by_cases same : id = table.nextId
      · omega
      · have := counted.below ((update_of_ne same ..).symm.trans got)
        omega
    · intro other within
      by_cases same : other = val
      · simp [same]
      · have different : key other ≠ key val := fun eq => same (ne within in_ eq)
        simp only [update_of_ne different, Finset.mem_insert, same, false_or]
        exact counted.cached other within

end

/-- The log is what the table answered, with the values seen so far. -/
structure Answered (key : Value → Key) (known : Set Value) (first : Nat) (seen : Finset Value)
    (log : List (Value × Nat)) (table : Interner Key Value) : Prop where
  agrees : table.Agrees key known
  counted : table.Counted key known first seen
  cached : ∀ entry ∈ log, entry.1 ∈ known ∧ table.byKey (key entry.1) = some entry.2

section

variable {key : Value → Key}

theorem answered_empty (small : one < 2 ^ 32) : Answered key known one ∅ [] (empty one) :=
  ⟨agrees_empty one, counted_empty small, by simp⟩

theorem Answered.intern [DecidableEq Key] [DecidableEq Value] (answered : Answered key known one seen log table)
    (ne : Set.InjOn key known) (in_ : val ∈ known) (positive : 0 < one)
    (room : val ∉ seen → one + seen.card < 2 ^ 32) :
    Answered key known one (Insert.insert val seen) ((val, (table.intern key val).1) :: log)
      (table.intern key val).2 := by
  obtain ⟨⟨agrees, grows⟩, own⟩ := answered.agrees.intern ne in_
    (answered.counted.fresh in_ positive room)
  refine ⟨agrees, answered.counted.intern ne in_ room, fun entry logged => ?_⟩
  rcases List.mem_cons.mp logged with rfl | old
  · exact ⟨in_, own⟩
  · obtain ⟨within, had⟩ := answered.cached entry old
    exact ⟨within, grows.byKey had⟩

theorem Answered.resolves (answered : Answered key known one seen log table)
    (logged : entry ∈ log) : entry.2 ≠ 0 ∧ table.byId entry.2 = some entry.1 :=
  answered.agrees _ (answered.cached entry logged).1 _ (answered.cached entry logged).2

theorem Answered.eq_iff (answered : Answered key known first seen log table)
    (first : one ∈ log) (second : two ∈ log) : one.2 = two.2 ↔ one.1 = two.1 := by
  constructor
  · intro same
    have resolved := (answered.resolves first).2
    rw [same, (answered.resolves second).2] at resolved
    exact (Option.some.inj resolved).symm
  · intro same
    have cached := (answered.cached one first).2
    rw [same, (answered.cached two second).2] at cached
    exact (Option.some.inj cached).symm

end

end Interner

end ShmActors.Lib
