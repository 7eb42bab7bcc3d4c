import ShmActors.Arrow.RoundTrip

/-! What a batch shows, and what is left of it after a round trip. A null bitmap and
the bits of a Boolean column are shown from an offset on; the codec copies the
buffers whole and reads them from their beginning. -/

namespace ShmActors.Arrow

open Lib Core

/-- `DataType::Boolean`, the flat type whose values are bits. -/
def DataType.isBoolean : DataType → Bool
  | .flat 0 => true
  | _ => false

def bitAt (bytes : Bytes) (index : Nat) : Bool := (bytes.getD (index / 8) 0).toNat.testBit (index % 8)

/-- Whether a row is not null: its bit is set, counted from the bitmap's offset. -/
def isValid (nulls : Option Nulls) (index : Nat) : Bool :=
  nulls.all fun nulls => bitAt nulls.bitmap (nulls.offset + index)

/-- How Arrow reads a row: a bit, or a value out of the buffers of its type and the
rows of its children. -/
structure Reading (Value : Type) where
  bit : Bool → Value
  bit_inj : Function.Injective bit
  value : DataType → List Bytes → List (List (Option Value)) → Nat → Value

section

variable {Value : Type} (reading : Reading Value)

def rowAt (dataType : DataType) (offset : Nat) (nulls : Option Nulls) (buffers : List Bytes)
    (children : List (List (Option Value))) (index : Nat) : Option Value :=
  if isValid nulls index then
    some (if dataType.isBoolean then reading.bit (bitAt (buffers.headD []) (offset + index))
      else reading.value dataType buffers children (offset + index))
  else none

mutual

/-- The rows an array shows. -/
def rows : ArrayData → List (Option Value)
  | .node dataType len offset nulls buffers children =>
    (List.range len).map (rowAt reading dataType offset nulls buffers (rowsOf children))

def rowsOf : List ArrayData → List (List (Option Value))
  | [] => []
  | data :: rest => rows data :: rowsOf rest

end

/-- What `to_data` gives: only a Boolean array keeps its offset, the others have it
in their buffers. -/
def Given : ArrayData → Prop
  | .node dataType _ offset _ _ _ => dataType.isBoolean = false → offset = 0

/-- The bits a node shows are the ones its bitmaps begin with. -/
def Aligned : ArrayData → Prop
  | .node dataType len offset nulls buffers _ => ∀ index < len,
    isValid nulls index = isValid (nulls.map fun nulls => { nulls with offset := 0 }) index ∧
    (dataType.isBoolean = true → isValid nulls index = true →
      bitAt (buffers.headD []) (offset + index) = bitAt (buffers.headD []) index)

variable {reading}

mutual

theorem rows_rebased (data : ArrayData) (given : data.All Given) (aligned : data.All Aligned) :
    rows reading (rebased data) = rows reading data := by
  cases data with
  | node dataType len offset nulls buffers children =>
    simp only [rebased, rows]
    rw [rowsOf_rebased children given.2 aligned.2]
    refine List.map_congr_left fun index in_ => ?_
    obtain ⟨valid, bits⟩ := aligned.1 index (List.mem_range.mp in_)
    unfold rowAt
    rw [← valid]
    split
    next shown =>
      cases type : dataType.isBoolean with
      | true =>
        rw [if_pos rfl, if_pos rfl, bits type shown, Nat.zero_add]
      | false => simp [given.1 type]
    next => rfl

theorem rowsOf_rebased (list : List ArrayData) (given : ArrayData.AllOf Given list)
    (aligned : ArrayData.AllOf Aligned list) : rowsOf reading (rebasedAll list) = rowsOf reading list := by
  cases list with
  | nil => rfl
  | cons data rest =>
    rw [rebasedAll, rowsOf, rowsOf, rows_rebased data given.1 aligned.1, rowsOf_rebased rest given.2 aligned.2]

end

/-- A bit that is shown wrong is seen in the rows, whatever lies below. -/
theorem aligned_of_rows (same : rows reading (rebased data) = rows reading data) : Aligned data := by
  cases data with
  | node dataType len offset nulls buffers children =>
    intro index inside
    have row := List.map_inj_left.mp same index (List.mem_range.mpr inside)
    unfold rowAt at row
    have valid : isValid nulls index = isValid (nulls.map fun nulls => { nulls with offset := 0 }) index := by
      rw [Bool.eq_iff_iff]
      split at row <;> split at row <;> simp_all
    refine ⟨valid, fun type shown => reading.bit_inj ?_⟩
    rw [← valid, if_pos shown, if_pos shown, if_pos type, if_pos type, Nat.zero_add] at row
    exact (Option.some.inj row).symm

theorem aligned_of_rowsOf {list : List ArrayData} (same : rowsOf reading (rebasedAll list) = rowsOf reading list) :
    ∀ data ∈ list, Aligned data := by
  induction list with
  | nil => exact List.forall_mem_nil _
  | cons data rest ih =>
    obtain ⟨first, others⟩ := List.cons.inj same
    exact List.forall_mem_cons.mpr ⟨aligned_of_rows first, ih others⟩

/-- Two batches of one schema that show the same rows. -/
structure SameRows (reading : Reading Value) (first second : RecordBatch) : Prop where
  schema : first.schema = second.schema
  count : first.rows = second.rows
  columns : rowsOf reading first.columns = rowsOf reading second.columns

/-- When a batch comes back: no view type at any depth, arrays that Arrow accepts
read from the beginning, and aligned bits, of every node or, for this to be needed,
of every column. -/
structure ComesBack (arrow : ArrowCrate) (batch : RecordBatch) (back : Prop) : Prop where
  enough : DataType.allPlain batch.schema = true →
    ArrayData.AllOf (fun part => arrow.accepts part = true) (rebasedAll batch.columns) →
    ArrayData.AllOf Aligned batch.columns → back
  needed : back → DataType.allPlain batch.schema = true ∧
    ArrayData.AllOf (fun part => arrow.accepts part = true) (rebasedAll batch.columns) ∧
    ∀ column ∈ batch.columns, Aligned column

variable {allocator : ChunkAllocator} {contentKey : Schema → Nat} {registry learned : SchemaRegistry}
  {batch : RecordBatch} {memory after : Nat → UInt8} {chunks : List ChunkDesc} {arrow : ArrowCrate}

theorem comesBack_of_written (agrees : registry.Agrees contentKey) (columns : batch.schema ≠ [])
    (shaped : ShapedAll DataType.children batch.schema batch.columns) (given : ArrayData.AllOf Given batch.columns)
    (wrote : writeBatchChunks allocator contentKey registry batch memory = .ok (chunks, after, learned)) :
    ComesBack arrow batch (∃ result, SameRows reading result batch ∧
      readBatchChunks learned arrow after chunks (chunks.map ChunkDesc.generation) = .ok result) := by
  constructor
  · intro plain accepted aligned
    exact ⟨batch.rebased, ⟨rfl, rfl, rowsOf_rebased batch.columns given aligned⟩,
      (read_iff agrees columns shaped wrote).mpr ⟨plain, accepted, rfl⟩⟩
  · rintro ⟨result, same, read⟩
    obtain ⟨plain, accepted, rfl⟩ := (read_iff agrees columns shaped wrote).mp read
    exact ⟨plain, accepted, aligned_of_rowsOf same.columns⟩

end

/-- Arrow for Boolean columns: the buffer holds what the offset and the length say. -/
def bits : ArrowCrate := .checked fun
  | .node (.flat 0) len offset none [values] [] => offset + len ≤ 8 * values.length
  | _ => false

def readBits : Reading Bool := ⟨id, Function.injective_id, fun _ _ _ _ => false⟩

/-- `slice(1, 2)` of a Boolean column. -/
def slicedBits (values : Bytes) : RecordBatch where
  schema := [.flat 0]
  columns := [.node (.flat 0) 2 1 none [values] []]
  rows := 2
  complete := rfl
  even := by simp [ArrayData.len]

theorem slicedBits_shaped (values : Bytes) :
    ShapedAll DataType.children (slicedBits values).schema (slicedBits values).columns :=
  .cons (.node .nil) .nil

/-- The slice `[false, true]` of `[true, false, true, true]` is read back as
`[true, false]`. -/
theorem sliced_not_sameRows : ∃ chunks after learned result,
    writeBatchChunks (bump 256 (by decide)) List.length .new (slicedBits [13]) (fun _ => 0) =
      .ok (chunks, after, learned) ∧
    ArrayData.AllOf (fun part => bits.accepts part = true) (slicedBits [13]).columns ∧
    readBatchChunks learned bits after chunks (chunks.map ChunkDesc.generation) = .ok result ∧
    ¬ SameRows readBits result (slicedBits [13]) := by
  have ends : (writeBatchChunks (bump 256 (by decide)) List.length .new (slicedBits [13])
      (fun _ => 0)).isOk = true := by decide +kernel
  obtain ⟨⟨chunks, after, learned⟩, wrote⟩ := exists_of_isOk ends
  refine ⟨chunks, after, learned, (slicedBits [13]).rebased, wrote, ?_, ?_, fun same => ?_⟩
  · exact ⟨⟨rfl, trivial⟩, trivial⟩
  · exact (read_iff (SchemaRegistry.agrees_new _) (by simp [slicedBits]) (slicedBits_shaped _) wrote).mpr
      ⟨rfl, ⟨⟨rfl, trivial⟩, trivial⟩, rfl⟩
  · have wrong := same.columns
    revert wrong
    decide +kernel

/-- A slice of `[true, true, true]` is read back as it was. -/
theorem repeated_comesBack : ∃ chunks after learned,
    writeBatchChunks (bump 256 (by decide)) List.length .new (slicedBits [7]) (fun _ => 0) =
      .ok (chunks, after, learned) ∧
    let back := ∃ result, SameRows readBits result (slicedBits [7]) ∧
      readBatchChunks learned bits after chunks (chunks.map ChunkDesc.generation) = .ok result
    ComesBack bits (slicedBits [7]) back ∧ back := by
  have ends : (writeBatchChunks (bump 256 (by decide)) List.length .new (slicedBits [7])
      (fun _ => 0)).isOk = true := by decide +kernel
  obtain ⟨⟨chunks, after, learned⟩, wrote⟩ := exists_of_isOk ends
  have given : ArrayData.AllOf Given (slicedBits [7]).columns := ⟨⟨fun flat => (by cases flat), trivial⟩, trivial⟩
  have aligned : ArrayData.AllOf Aligned (slicedBits [7]).columns := by
    refine ⟨⟨?_, trivial⟩, trivial⟩
    unfold Aligned
    decide
  have fate : ComesBack bits (slicedBits [7]) (∃ result, SameRows readBits result (slicedBits [7]) ∧ _) :=
    comesBack_of_written (SchemaRegistry.agrees_new _) (by simp [slicedBits]) (slicedBits_shaped _) given wrote
  exact ⟨chunks, after, learned, wrote, fate, fate.enough rfl ⟨⟨rfl, trivial⟩, trivial⟩ aligned⟩

end ShmActors.Arrow
