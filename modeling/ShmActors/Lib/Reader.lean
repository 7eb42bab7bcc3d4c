import ShmActors.Lib.Bytes

/-! Readers of a byte slice: a cursor that moves over the bytes read, and fails
where they would lie outside. What a reader accepts is stated as the bytes that
stand at its cursor. -/

namespace ShmActors.Lib

/-- A slice: memory from the slice's first byte on, and how many bytes belong to it. -/
structure Slice where
  memory : Nat → UInt8
  len : Nat

namespace Slice

def bytes (source : Slice) : Bytes := slice source.memory 0 source.len

/-- `get(start..stop)`. -/
def get? (source : Slice) (start stop : Nat) : Option Bytes :=
  if start ≤ stop ∧ stop ≤ source.len then some (slice source.memory start (stop - start)) else none

/-- The bytes stand in the slice, from a position on. -/
def Has (source : Slice) (pos : Nat) (bytes : Bytes) : Prop :=
  pos + bytes.length ≤ source.len ∧ slice source.memory pos bytes.length = bytes

/-- The slices have the same bytes; the memory around them may differ. -/
def Same (source other : Slice) : Prop :=
  source.len = other.len ∧ ∀ index < source.len, source.memory index = other.memory index

variable {source other : Slice} {pos : Nat} {bytes : Bytes}

theorem get?_eq_some : source.get? pos (pos + count) = some bytes ↔ bytes.length = count ∧ source.Has pos bytes := by
  unfold get? Has
  simp only [Nat.le_add_right, true_and, Nat.add_sub_cancel_left]
  constructor
  · intro got
    split at got
    · rename_i inside
      cases got
      simp [inside]
    · cases got
  · rintro ⟨rfl, inside, same⟩
    rw [if_pos inside, same]

theorem Same.get? (same : source.Same other) (start stop : Nat) : source.get? start stop = other.get? start stop := by
  unfold Slice.get?
  rw [← same.1]
  split
  · rename_i inside
    refine congrArg some (List.map_congr_left fun index in_ => same.2 _ ?_)
    have := List.mem_range.mp in_
    omega
  · rfl

theorem slice_add (mem : Nat → UInt8) (start one two : Nat) :
    slice mem start (one + two) = slice mem start one ++ slice mem (start + one) two := by
  simp [slice, List.range_add, Function.comp_def, Nat.add_assoc]

theorem has_append {one two : Bytes} :
    source.Has pos (one ++ two) ↔ source.Has pos one ∧ source.Has (pos + one.length) two := by
  unfold Has
  rw [List.length_append, slice_add, ← Nat.add_assoc]
  constructor
  · rintro ⟨inside, same⟩
    obtain ⟨left, right⟩ := List.append_inj same (length_slice ..)
    exact ⟨⟨by omega, left⟩, inside, right⟩
  · rintro ⟨⟨-, left⟩, inside, right⟩
    exact ⟨inside, by rw [left, right]⟩

theorem has_zero : source.Has 0 bytes ↔ bytes <+: source.bytes := by
  unfold Has Slice.bytes
  rw [Nat.zero_add]
  constructor
  · rintro ⟨inside, same⟩
    obtain ⟨rest, whole⟩ := Nat.exists_eq_add_of_le inside
    rw [whole, slice_add, same]
    exact List.prefix_append ..
  · intro part
    have inside : bytes.length ≤ source.len := by simpa using part.length_le
    obtain ⟨rest, whole⟩ := Nat.exists_eq_add_of_le inside
    rw [whole, slice_add] at part
    exact ⟨inside, (List.prefix_of_prefix_length_le (List.prefix_append ..) part (by simp)).eq_of_length
      (by simp)⟩

end Slice

/-- A reader returns the value and where the cursor is then. -/
abbrev Reader (Failure : Type) := ReaderT Slice (StateT Nat (Except Failure))

namespace Reader

variable {Failure Value Other : Type} {reader : Reader Failure Value} {source : Slice} {pos stop count width : Nat}
  {failure : Failure}

theorem bind_ok : (reader >>= rest) source pos = .ok (res, stop) ↔
      ∃ val middle, reader source pos = .ok (val, middle) ∧ rest val source middle = .ok (res, stop) := by
  refine bind_eq_ok.trans ⟨?_, ?_⟩
  · rintro ⟨⟨val, middle⟩, one, later⟩
    exact ⟨val, middle, one, later⟩
  · rintro ⟨val, middle, one, later⟩
    exact ⟨(val, middle), one, later⟩

theorem pure_ok : (pure val : Reader Failure Value) source pos = .ok (res, stop) ↔ res = val ∧ stop = pos := by
  constructor
  · intro done
    cases done
    exact ⟨rfl, rfl⟩
  · rintro ⟨rfl, rfl⟩
    rfl

/-- The next `count` bytes. -/
def take (count : Nat) (failure : Failure) : Reader Failure Bytes := fun source pos =>
  match source.get? pos (pos + count) with
  | some bytes => .ok (bytes, pos + count)
  | none => .error failure

theorem take_ok : take count failure source pos = .ok (bytes, stop) ↔
      bytes.length = count ∧ source.Has pos bytes ∧ stop = pos + bytes.length := by
  unfold take
  constructor
  · intro read
    split at read
    · rename_i got
      cases read
      obtain ⟨rfl, has⟩ := Slice.get?_eq_some.mp got
      exact ⟨rfl, has, rfl⟩
    · cases read
  · rintro ⟨rfl, has, rfl⟩
    rw [Slice.get?_eq_some.mpr ⟨rfl, has⟩]

/-- `from_le_bytes` of the next `width` bytes. -/
def int (width : Nat) (failure : Failure) : Reader Failure Nat := do
  return readLE (← take width failure)

theorem int_ok : int width failure source pos = .ok (val, stop) ↔
      val < 256 ^ width ∧ source.Has pos (leBytes width val) ∧ stop = pos + width := by
  refine bind_ok.trans ⟨?_, ?_⟩
  · rintro ⟨bytes, _, read, done⟩
    obtain ⟨rfl, has, rfl⟩ := take_ok.mp read
    obtain ⟨rfl, rfl⟩ := pure_ok.mp done
    exact ⟨readLE_lt bytes, by rwa [leBytes_readLE], rfl⟩
  · rintro ⟨fits, has, rfl⟩
    exact ⟨_, _, take_ok.mpr ⟨length_leBytes .., has, rfl⟩,
      pure_ok.mpr ⟨(readLE_leBytes fits).symm, by rw [length_leBytes]⟩⟩

/-- The reader reads no byte outside the slice. -/
def Local (reader : Reader Failure Value) : Prop :=
  ∀ source other : Slice, source.Same other → reader source = reader other

theorem Local.const : Local fun _ => out :=
  fun _ _ _ => rfl

theorem Local.bind (one : Local reader) (later : ∀ val, Local (rest val)) : Local (reader >>= rest) := by
  intro source other same
  exact congrArg₂ StateT.bind (one source other same) (funext fun val => later val source other same)

theorem Local.take : Local (take count failure) := by
  intro source other same
  funext pos
  rw [Reader.take, Reader.take, same.get?]

theorem Local.int : Local (int width failure) :=
  Local.take.bind fun _ => Local.const

end Reader

end ShmActors.Lib
