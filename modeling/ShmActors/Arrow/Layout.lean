import ShmActors.Lib.Bytes
import ShmActors.Artifact.Manifest

/-! The data of `shm-arrow`: Arrow's array trees as far as the codec looks at
them, and the records of the batch layout, `shm-arrow/src/layout.rs`. -/

namespace ShmActors.Arrow

open Lib Core

/-- Arrow's data types; one without children is `flat`, under a number of its own. -/
inductive DataType where
  | flat (code : Nat)
  | struct (fields : List DataType)
  | list (item : DataType)
  | largeList (item : DataType)
  | fixedSizeList (item : DataType) (size : Nat)
  | listView (item : DataType)
  | largeListView (item : DataType)
  | map (entries : DataType)
  | union (fields : List DataType)
  | dictionary (key value : DataType)
  | runEndEncoded (runEnds values : DataType)

/-- `NullBuffer`: a bitmap, the bit its first row is at, and how many are null. -/
structure Nulls where
  bitmap : Bytes
  offset : Nat
  nullCount : Nat
  deriving DecidableEq, Repr

/-- `ArrayData`. -/
inductive ArrayData where
  | node (dataType : DataType) (len offset : Nat) (nulls : Option Nulls) (buffers : List Bytes)
    (children : List ArrayData)

namespace ArrayData

def dataType : ArrayData → DataType
  | node dataType .. => dataType

def len : ArrayData → Nat
  | node _ len .. => len

end ArrayData

abbrev Schema := List DataType

/-- `RecordBatch`: a column for each field of the schema, all of one length. -/
structure RecordBatch where
  schema : Schema
  columns : List ArrayData
  rows : Nat
  complete : columns.length = schema.length
  even : ∀ column ∈ columns, column.len = rows

inductive Error where
  | core (fault : Artifact.Fault)
  | arrow (message : String)
  | badMagic
  | unknownSchema (schemaId : Nat)
  | schemaMismatch (desc header : Nat)
  | chunkTooSmall (need size : Nat)
  | unsupported (message : String)
  | layout (message : String)

/-- `b"SHMARBT2"`. -/
def BATCH_MAGIC : Nat := readLE [0x53, 0x48, 0x4D, 0x41, 0x52, 0x42, 0x54, 0x32]

def BATCH_FORMAT : Nat := 2

def BUFFER_ALIGN : Nat := 64

structure BatchHeader where
  magic : Nat
  format : Nat
  schemaId : Nat
  rowCount : Nat
  nodeCount : Nat
  bufferCount : Nat
  chunkCount : Nat
  deriving DecidableEq, Repr

structure NodeEntry where
  len : Nat
  nullCount : Nat
  hasValidity : Nat
  dataBuffers : Nat
  childCount : Nat
  pad : Nat
  deriving DecidableEq, Repr

structure BufferEntry where
  chunkIndex : Nat
  offset : Nat
  len : Nat
  deriving DecidableEq, Repr

/-- How a record is laid out: the widths of its fields, and the record from and to
its fields. -/
structure Pod (Record : Type) where
  widths : List Nat
  fields : Record → List Nat
  ofFields : List Nat → Record

namespace Pod

variable {Record : Type} (pod : Pod Record)

def size : Nat := pod.widths.sum

def write (record : Record) : Bytes := encodeFields pod.widths (pod.fields record)

/-- `read_pod`. -/
def read (bytes : Bytes) : Record := pod.ofFields (decodeFields pod.widths bytes)

/-- Every field of the record fits in its place. -/
def Holds (record : Record) : Prop := Fit pod.widths (pod.fields record)

variable {pod}

theorem length_write (holds : pod.Holds record) : (pod.write record).length = pod.size :=
  length_encodeFields holds

theorem read_write (holds : pod.Holds record) (same : pod.ofFields (pod.fields record) = record) :
    pod.read (pod.write record) = record := by
  rw [read, write, decodeFields_encodeFields holds, same]

end Pod

def BatchHeader.pod : Pod BatchHeader where
  widths := [8, 4, 4, 4, 4, 4, 4]
  fields header := [header.magic, header.format, header.schemaId, header.rowCount, header.nodeCount,
    header.bufferCount, header.chunkCount]
  ofFields fields := ⟨fields.getD 0 0, fields.getD 1 0, fields.getD 2 0, fields.getD 3 0, fields.getD 4 0,
    fields.getD 5 0, fields.getD 6 0⟩

def NodeEntry.pod : Pod NodeEntry where
  widths := [4, 4, 4, 4, 4, 4]
  fields node := [node.len, node.nullCount, node.hasValidity, node.dataBuffers, node.childCount, node.pad]
  ofFields fields := ⟨fields.getD 0 0, fields.getD 1 0, fields.getD 2 0, fields.getD 3 0, fields.getD 4 0,
    fields.getD 5 0⟩

def BufferEntry.pod : Pod BufferEntry where
  widths := [4, 4, 4]
  fields entry := [entry.chunkIndex, entry.offset, entry.len]
  ofFields fields := ⟨fields.getD 0 0, fields.getD 1 0, fields.getD 2 0⟩

/-- `x` rounded up to a multiple of `a`. -/
def alignUp (x a : Nat) : Nat := (x + a - 1) / a * a

def nodesOffset : Nat := BatchHeader.pod.size

def buffersOffset (nodeCount : Nat) : Nat := nodesOffset + nodeCount * NodeEntry.pod.size

def payloadStart (nodeCount bufferCount : Nat) : Nat :=
  alignUp (buffersOffset nodeCount + bufferCount * BufferEntry.pod.size) BUFFER_ALIGN

theorem le_alignUp (x : Nat) (positive : 0 < a) : x ≤ alignUp x a := by
  unfold alignUp
  have split := Nat.div_add_mod (x + a - 1) a
  have rest := Nat.mod_lt (x + a - 1) positive
  rw [Nat.mul_comm] at split
  omega

end ShmActors.Arrow
