import Mathlib.Data.List.Forall2
import Mathlib.Data.List.Basic
import Mathlib.Algebra.Order.Ring.Nat

/-! Bytes in memory: little-endian integers, records of fixed-width fields, and a
memory that is written region by region. -/

namespace ShmActors.Lib

theorem bind_eq_ok {rest : Value → Except Failure Other} :
    (one >>= rest) = .ok res ↔ ∃ val, one = .ok val ∧ rest val = .ok res := by
  cases one with
  | error reason =>
    constructor
    · intro wrong
      cases wrong
    · rintro ⟨_, wrong, _⟩
      cases wrong
  | ok val =>
    constructor
    · intro done
      exact ⟨val, rfl, done⟩
    · rintro ⟨_, same, done⟩
      cases same
      exact done

theorem guard_eq_ok [Decidable fails] {rest : Except Failure Value} :
    (if fails then .error reason else rest) = .ok res ↔ ¬fails ∧ rest = .ok res := by
  split <;> simp_all

theorem exists_of_isOk {out : Except Failure Value} (ok : out.isOk = true) :
    ∃ val, out = .ok val := by
  cases out with
  | error reason => cases ok
  | ok val => exact ⟨val, rfl⟩

abbrev Bytes := List UInt8

section

/-- `to_le_bytes` of an integer `width` bytes wide. -/
def leBytes : Nat → Nat → Bytes
  | 0, _ => []
  | width + 1, value => UInt8.ofNat value :: leBytes width (value / 256)

/-- `from_le_bytes`. -/
def readLE : Bytes → Nat
  | [] => 0
  | byte :: rest => byte.toNat + 256 * readLE rest

@[simp] theorem length_leBytes (width val : Nat) : (leBytes width val).length = width := by
  induction width generalizing val with
  | zero => rfl
  | succ width ih => simp [leBytes, ih]

theorem readLE_leBytes (fits : val < 256 ^ width) : readLE (leBytes width val) = val := by
  induction width generalizing val with
  | zero =>
    rw [Nat.pow_zero, Nat.lt_one_iff] at fits
    rw [fits]
    rfl
  | succ width ih =>
    have less : val / 256 < 256 ^ width := by
      rw [Nat.div_lt_iff_lt_mul (by decide), ← Nat.pow_succ]
      exact fits
    rw [leBytes, readLE, ih less, UInt8.toNat_ofNat']
    exact Nat.mod_add_div val 256

theorem readLE_lt (bytes : Bytes) : readLE bytes < 256 ^ bytes.length := by
  induction bytes with
  | nil => decide
  | cons byte rest ih =>
    have small := byte.toNat_lt
    rw [readLE, List.length_cons, Nat.pow_succ]
    omega

theorem leBytes_readLE (bytes : Bytes) : leBytes bytes.length (readLE bytes) = bytes := by
  induction bytes with
  | nil => rfl
  | cons byte rest ih =>
    have small := byte.toNat_lt
    have upper : (byte.toNat + 256 * readLE rest) / 256 = readLE rest := by omega
    rw [readLE, List.length_cons, leBytes, upper, ih]
    congr 1
    apply UInt8.toNat_inj.mp
    rw [UInt8.toNat_ofNat']
    omega

end

section

/-- A record of integers, packed one after the other. -/
def encodeFields : List Nat → List Nat → Bytes
  | width :: widths, value :: values => leBytes width value ++ encodeFields widths values
  | _, _ => []

def decodeFields : List Nat → Bytes → List Nat
  | [], _ => []
  | width :: widths, bytes => readLE (bytes.take width) :: decodeFields widths (bytes.drop width)

/-- Every field is of a width that holds its value. -/
def Fit (widths values : List Nat) : Prop := List.Forall₂ (fun width value => value < 256 ^ width) widths values

theorem length_encodeFields (fit : Fit widths values) : (encodeFields widths values).length = widths.sum := by
  induction fit with
  | nil => rfl
  | cons _ _ ih => simp [encodeFields, ih]

theorem decodeFields_encodeFields (fit : Fit widths values) :
    decodeFields widths (encodeFields widths values) = values := by
  induction fit with
  | nil => rfl
  | cons fits _ ih => simp [encodeFields, decodeFields, readLE_leBytes fits, ih]

end

section

/-- The bytes of the region of `length` bytes from `start` on. -/
def slice (memory : Nat → UInt8) (start length : Nat) : Bytes :=
  (List.range length).map fun index => memory (start + index)

/-- The memory after `bytes` have been copied to `start`. -/
def overwrite (memory : Nat → UInt8) (start : Nat) (bytes : Bytes) (address : Nat) : UInt8 :=
  if start ≤ address then bytes.getD (address - start) (memory address) else memory address

@[simp] theorem length_slice (memory : Nat → UInt8) (start length : Nat) :
    (slice memory start length).length = length := by
  simp [slice]

theorem slice_overwrite (memory : Nat → UInt8) (start : Nat) (bytes : Bytes) :
    slice (overwrite memory start bytes) start bytes.length = bytes := by
  apply List.ext_getElem (length_slice ..)
  intro index short inside
  simp [slice, overwrite, List.getD_eq_getElem?_getD, inside]

variable {memory : Nat → UInt8} {writes : List (Nat × Bytes)}

/-- A part of a region is a region. -/
theorem take_drop_slice (inside : skip + count ≤ length) :
    ((slice memory start length).drop skip).take count = slice memory (start + skip) count := by
  apply List.ext_getElem
  · simp
    omega
  · intro index _ _
    simp [slice, Nat.add_assoc]

/-- Two regions with no byte in common. -/
def Apart (first second : Nat × Nat) : Prop :=
  first.1 + first.2 ≤ second.1 ∨ second.1 + second.2 ≤ first.1

theorem Apart.symm (ne : Apart one two) : Apart two one :=
  Or.symm ne

theorem slice_overwrite_apart (ne : Apart (start, length) (target, bytes.length)) :
    slice (overwrite memory target bytes) start length = slice memory start length := by
  apply List.map_congr_left
  intro index in_
  have inside := List.mem_range.mp in_
  unfold overwrite
  split
  · rename_i reached
    rcases ne with old | behind
    · simp only at old
      omega
    · simp only at behind
      rw [List.getD_eq_getElem?_getD, List.getElem?_eq_none (by omega), Option.getD_none]
  · rfl

/-- Copies made one after the other: where to, and what. -/
def overwriteAll (memory : Nat → UInt8) (writes : List (Nat × Bytes)) : Nat → UInt8 :=
  writes.foldl (fun memory write => overwrite memory write.1 write.2) memory

/-- The region a copy fills. -/
def extent (write : Nat × Bytes) : Nat × Nat := (write.1, write.2.length)

theorem slice_overwriteAll_apart (ne : ∀ write ∈ writes, Apart (start, length) (extent write)) :
    slice (overwriteAll memory writes) start length = slice memory start length := by
  induction writes generalizing memory with
  | nil => rfl
  | cons write rest ih =>
    refine (ih fun other in_ => ne other (List.mem_cons_of_mem _ in_)).trans ?_
    exact slice_overwrite_apart (ne write List.mem_cons_self)

/-- Copies to regions apart from each other all stand in the end. -/
theorem slice_overwriteAll
    (ne : writes.Pairwise fun one two => Apart (extent one) (extent two)) (in_ : write ∈ writes) :
    slice (overwriteAll memory writes) write.1 write.2.length = write.2 := by
  induction writes generalizing memory with
  | nil => cases in_
  | cons one rest ih =>
    obtain ⟨here, later⟩ := List.pairwise_cons.mp ne
    rcases List.mem_cons.mp in_ with rfl | in_
    · exact (slice_overwriteAll_apart here).trans (slice_overwrite ..)
    · exact ih later in_

end

end ShmActors.Lib
