import ShmActors.Arrow.Layout

/-! The batch codec: `shm-arrow/src/write.rs` and `shm-arrow/src/read.rs`. Chunks
lie in the memory of one segment, at the offsets of their descriptors. -/

namespace ShmActors.Arrow

open Lib Core Function

/-- `ChunkAllocator`, for a caller that has the chunks `taken` in hand: the chunks
it gives out do not overlap. -/
structure ChunkAllocator where
  maxChunkSize : Nat
  alloc (taken : List ChunkDesc) (size : Nat) : Except Error ChunkDesc
  small : ∀ {taken size desc}, alloc taken size = .ok desc → desc.len < 2 ^ 32
  apart : ∀ {taken size desc}, alloc taken size = .ok desc → ∀ other ∈ taken,
    Apart (other.offset, other.len) (desc.offset, desc.len)

/-- `SchemaRegistry`: the local cache, keyed by the content hash of a schema. -/
structure SchemaRegistry where
  byId : Nat → Option Schema
  byHash : Nat → Option Nat
  nextId : Nat

def RAW_SCHEMA_ID : Nat := 0

namespace SchemaRegistry

variable (contentKey : Schema → Nat) (registry : SchemaRegistry)

def new : SchemaRegistry := ⟨fun _ => none, fun _ => none, 1⟩

def intern (schema : Schema) : Nat × SchemaRegistry :=
  match registry.byHash (contentKey schema) with
  | some id => (id, registry)
  | none => (registry.nextId, {
      byId := update registry.byId registry.nextId (some schema)
      byHash := update registry.byHash (contentKey schema) (some registry.nextId)
      nextId := (registry.nextId + 1) % 2 ^ 32 })

def resolve (id : Nat) : Option Schema := if id = RAW_SCHEMA_ID then none else registry.byId id

/-- What is cached for a schema resolves to it, and there is an id to mint. -/
structure Agrees : Prop where
  cached : ∀ {schema id}, registry.byHash (contentKey schema) = some id →
    id ≠ RAW_SCHEMA_ID ∧ id < 2 ^ 32 ∧ registry.byId id = some schema
  mints : registry.nextId ≠ RAW_SCHEMA_ID ∧ registry.nextId < 2 ^ 32

variable {contentKey registry}

theorem Agrees.interned (agrees : registry.Agrees contentKey) (schema : Schema) :
    (registry.intern contentKey schema).1 < 2 ^ 32 ∧
      (registry.intern contentKey schema).2.resolve (registry.intern contentKey schema).1 = some schema := by
  unfold intern resolve
  cases cached : registry.byHash (contentKey schema) with
  | some id =>
    obtain ⟨named, small, got⟩ := agrees.cached cached
    exact ⟨small, (if_neg named).trans got⟩
  | none => exact ⟨agrees.mints.2, by simp [agrees.mints.1]⟩

end SchemaRegistry

section

/-- `Plan`: the node table in pre-order and the buffers in its order. -/
structure Plan where
  nodes : List NodeEntry
  buffers : List Bytes

def ensureSupported : DataType → Except Error Unit
  | .dictionary _ _ => .error (.unsupported "dictionary type not supported")
  | .union _ => .error (.unsupported "union type not supported")
  | .map _ => .error (.unsupported "map type not supported")
  | .runEndEncoded _ _ => .error (.unsupported "run-end-encoded type not supported")
  | _ => .ok ()

/-- `u32::try_from`. -/
def tryU32 (value : Nat) (message : String) : Except Error Unit :=
  if value < 2 ^ 32 then .ok () else .error (.unsupported message)

/-- The entry `plan_node` pushes. -/
def nodeEntry (len : Nat) (nulls : Option Nulls) (buffers : List Bytes) (children : List ArrayData) : NodeEntry where
  len := len
  nullCount := nulls.elim 0 Nulls.nullCount
  hasValidity := if nulls.isSome then 1 else 0
  dataBuffers := buffers.length
  childCount := children.length
  pad := 0

mutual

/-- `plan_node`. The offset of a node is not looked at. -/
def planNode : ArrayData → Plan → Except Error Plan
  | .node dataType len _ nulls buffers children, plan => do
    ensureSupported dataType
    tryU32 len "array length exceeds u32"
    tryU32 (nulls.elim 0 Nulls.nullCount) "null count exceeds u32"
    tryU32 buffers.length "too many data buffers in a node"
    tryU32 children.length "too many children in a node"
    planNodes children {
      nodes := plan.nodes ++ [nodeEntry len nulls buffers children]
      buffers := plan.buffers ++ nulls.toList.map Nulls.bitmap ++ buffers }

def planNodes : List ArrayData → Plan → Except Error Plan
  | [], plan => .ok plan
  | data :: rest, plan => do
    let plan ← planNode data plan
    planNodes rest plan

end

mutual

/-- `is_normalized`. -/
def isNormalized : ArrayData → Bool
  | .node _ _ offset nulls _ children =>
    offset = 0 ∧ (nulls.elim 0 Nulls.offset) = 0 ∧ areNormalized children

def areNormalized : List ArrayData → Bool
  | [] => true
  | data :: rest => isNormalized data && areNormalized rest

end

/-- `ArrayData::slice`: the view moves, the buffers stay. -/
def ArrayData.slice (start length : Nat) : ArrayData → ArrayData
  | .node dataType _ offset nulls buffers children =>
    .node dataType length (offset + start)
      (nulls.map fun nulls => { nulls with offset := nulls.offset + start }) buffers children

/-- Arrow's `concat` of one array. -/
def concatOne (data : ArrayData) : ArrayData := data.slice 0 data.len

def normalize (data : ArrayData) : ArrayData := if isNormalized data then data else concatOne data

def planBatch (batch : RecordBatch) : Except Error Plan :=
  planNodes (batch.columns.map normalize) ⟨[], []⟩

/-- `Packing`: where each buffer goes, and how much of each chunk is used. -/
structure Packing where
  locs : List (Nat × Nat)
  chunkUsed : List Nat

/-- The loop of `pack`: `full` are the chunks closed, `cursor` the end of the one
that is being filled. -/
def packFrom (cap : Nat) (locs : List (Nat × Nat)) (full : List Nat) (cursor : Nat) :
    List Bytes → Except Error Packing
  | [] => .ok ⟨locs, full ++ [cursor]⟩
  | buffer :: rest =>
    if cap < buffer.length then .error (.unsupported "buffer exceeds max chunk size")
    else if cap < alignUp cursor BUFFER_ALIGN + buffer.length then
      packFrom cap (locs ++ [((full.length + 1) % 2 ^ 32, 0)]) (full ++ [cursor]) buffer.length rest
    else
      packFrom cap (locs ++ [(full.length % 2 ^ 32, alignUp cursor BUFFER_ALIGN % 2 ^ 32)]) full
        (alignUp cursor BUFFER_ALIGN + buffer.length) rest

def pack (plan : Plan) (cap : Nat) : Except Error Packing :=
  let start := payloadStart plan.nodes.length plan.buffers.length
  if cap < start then .error (.chunkTooSmall start cap) else packFrom cap [] [] start plan.buffers

/-- The allocation loop of `write_batch_chunks`. The chunks of a failed call are
returned to the allocator. -/
def allocChunks (allocator : ChunkAllocator) (schemaId : Nat) (taken : List ChunkDesc) :
    List Nat → Except Error (List ChunkDesc)
  | [] => .ok taken
  | used :: rest => do
    let desc ← allocator.alloc taken used
    if desc.len < used then .error (.chunkTooSmall used desc.len)
    else allocChunks allocator schemaId (taken ++ [{ desc with schemaId := schemaId }]) rest

/-- Records copied one after the other from `start` on. -/
def tableWrites {Record : Type} (pod : Pod Record) (start : Nat) : List Record → List (Nat × Bytes)
  | [] => []
  | record :: rest => (start, pod.write record) :: tableWrites pod (start + pod.size) rest

/-- `bases[chunk_index]`. -/
def baseOf (chunks : List ChunkDesc) (chunkIndex : Nat) : Nat := (chunks.map ChunkDesc.offset).getD chunkIndex 0

def bufferEntry (loc : Nat × Nat) (buffer : Bytes) : BufferEntry := ⟨loc.1, loc.2, buffer.length % 2 ^ 32⟩

def batchHeader (schemaId rows : Nat) (plan : Plan) (chunkCount : Nat) : BatchHeader where
  magic := BATCH_MAGIC
  format := BATCH_FORMAT
  schemaId := schemaId
  rowCount := rows
  nodeCount := plan.nodes.length
  bufferCount := plan.buffers.length
  chunkCount := chunkCount % 2 ^ 32

/-- Everything `write_batch_chunks` copies, in its order. -/
def batchWrites (header : BatchHeader) (plan : Plan) (locs : List (Nat × Nat)) (chunks : List ChunkDesc) :
    List (Nat × Bytes) :=
  let primary := baseOf chunks 0
  (primary, BatchHeader.pod.write header) ::
    (tableWrites NodeEntry.pod (primary + nodesOffset) plan.nodes ++
      (tableWrites BufferEntry.pod (primary + buffersOffset plan.nodes.length)
          (List.zipWith bufferEntry locs plan.buffers) ++
        List.zipWith (fun loc buffer => (baseOf chunks loc.1 + loc.2, buffer)) locs plan.buffers))

/-- `write_batch_chunks`; the chunks, the memory written and the registry after. -/
def writeBatchChunks (allocator : ChunkAllocator) (contentKey : Schema → Nat) (registry : SchemaRegistry)
    (batch : RecordBatch) (memory : Nat → UInt8) :
    Except Error (List ChunkDesc × (Nat → UInt8) × SchemaRegistry) := do
  let schemaId := (registry.intern contentKey batch.schema).1
  let plan ← planBatch batch
  let packing ← pack plan allocator.maxChunkSize
  tryU32 batch.rows "row count exceeds u32"
  tryU32 plan.nodes.length "node count exceeds u32"
  tryU32 plan.buffers.length "buffer count exceeds u32"
  let chunks ← allocChunks allocator schemaId [] packing.chunkUsed
  let header := batchHeader schemaId batch.rows plan packing.chunkUsed.length
  return (chunks, overwriteAll memory (batchWrites header plan packing.locs chunks),
    (registry.intern contentKey batch.schema).2)

end

section

/-- The `index`-th record of a table at `start`. -/
def readTable {Record : Type} (pod : Pod Record) (bytes : Bytes) (start count : Nat) : List Record :=
  (List.range count).map fun index => pod.read ((bytes.drop (start + index * pod.size)).take pod.size)

def checkExtents (chunkLens : List Nat) : List BufferEntry → Except Error Unit
  | [] => .ok ()
  | entry :: rest =>
    match chunkLens[entry.chunkIndex]? with
    | none => .error (.layout "buffer chunk_index out of range")
    | some chunkLen =>
      if chunkLen < entry.offset + entry.len then .error (.layout "buffer extends past its chunk")
      else checkExtents chunkLens rest

/-- `read_batch_layout`. The products and sums of 32-bit counts do not overflow a
64-bit size. -/
def readBatchLayout (primary : Bytes) (chunkLens : List Nat) :
    Except Error (BatchHeader × List NodeEntry × List BufferEntry) := do
  if primary.length < BatchHeader.pod.size then .error (.layout "primary chunk smaller than batch header")
  else
    let header := BatchHeader.pod.read (primary.take BatchHeader.pod.size)
    if header.magic ≠ BATCH_MAGIC ∨ header.format ≠ BATCH_FORMAT then .error .badMagic
    else if header.chunkCount ≠ chunkLens.length then .error (.layout "header chunk_count != chunk list length")
    else if primary.length < buffersOffset header.nodeCount + header.bufferCount * BufferEntry.pod.size then
      .error (.layout "node/buffer tables overrun primary chunk")
    else
      let nodes := readTable NodeEntry.pod primary nodesOffset header.nodeCount
      let entries := readTable BufferEntry.pod primary (buffersOffset header.nodeCount) header.bufferCount
      checkExtents chunkLens entries
      return (header, nodes, entries)

def childDataTypes : DataType → List DataType
  | .struct fields => fields
  | .list item | .largeList item | .fixedSizeList item _ => [item]
  | _ => []

/-- What the codec takes from Arrow: which array data its builder accepts, and
`RecordBatch::try_new`, which makes a batch of one column or more out of its parts. -/
structure ArrowCrate where
  accepts : ArrayData → Bool
  tryNew : Schema → List ArrayData → Except Error RecordBatch
  columns : ∀ {schema columns batch}, tryNew schema columns = .ok batch → batch.columns = columns
  makes : ∀ batch : RecordBatch, batch.schema ≠ [] → tryNew batch.schema batch.columns = .ok batch

/-- What a walk over the tables reads: the node table and the buffers by their index. -/
structure Tables where
  nodes : List NodeEntry
  buffer : Nat → Except Error Bytes
  arrow : ArrowCrate

/-- The node and buffer cursors `ni` and `bi`. -/
structure Cursor where
  node : Nat
  buffer : Nat
  deriving DecidableEq, Repr

namespace Tables

variable (tables : Tables)

def takeValidity (node : NodeEntry) (cursor : Cursor) : Except Error (Option Nulls × Cursor) := do
  if node.hasValidity ≠ 0 then
    let bitmap ← tables.buffer cursor.buffer
    return (some ⟨bitmap, 0, node.nullCount⟩, { cursor with buffer := cursor.buffer + 1 })
  else
    return (none, cursor)

def takeBuffers : Nat → Cursor → Except Error (List Bytes × Cursor)
  | 0, cursor => .ok ([], cursor)
  | count + 1, cursor => do
    let buffer ← tables.buffer cursor.buffer
    let (later, cursor) ← takeBuffers count { cursor with buffer := cursor.buffer + 1 }
    return (buffer :: later, cursor)

/-- `ArrayDataBuilder::build`. -/
def build (data : ArrayData) : Except Error ArrayData :=
  if tables.arrow.accepts data then .ok data else .error (.arrow "invalid array data")

mutual

/-- `build_node`. The children are built in the order of `child_data_types`. -/
def buildNode (dataType : DataType) (cursor : Cursor) : Except Error (ArrayData × Cursor) := do
  match tables.nodes[cursor.node]? with
  | none => .error (.layout "node table underrun")
  | some node =>
    let (nulls, cursor) ← tables.takeValidity node { cursor with node := cursor.node + 1 }
    let (buffers, cursor) ← tables.takeBuffers node.dataBuffers cursor
    if (childDataTypes dataType).length ≠ node.childCount then
      .error (.layout "schema child count != stored child count")
    else
      let built := match dataType with
        | .struct fields => buildNodes fields cursor
        | .list item | .largeList item | .fixedSizeList item _ =>
          (buildNode item cursor).map fun built => ([built.1], built.2)
        | _ => .ok ([], cursor)
      let (children, cursor) ← built
      let data ← tables.build (.node dataType node.len 0 nulls buffers children)
      return (data, cursor)

def buildNodes : List DataType → Cursor → Except Error (List ArrayData × Cursor)
  | [], cursor => .ok ([], cursor)
  | dataType :: rest, cursor => do
    let (data, cursor) ← buildNode dataType cursor
    let (later, cursor) ← buildNodes rest cursor
    return (data :: later, cursor)

end

end Tables

/-- `make_buffer`. -/
def makeBuffer (memory : Nat → UInt8) (chunks : List ChunkDesc) (entries : List BufferEntry) (index : Nat) :
    Except Error Bytes :=
  match entries[index]? with
  | none => .error (.layout "schema demands more buffers than the buffer table holds")
  | some entry => .ok (Lib.slice memory (baseOf chunks entry.chunkIndex + entry.offset) entry.len)

/-- The walk of `read_batch_chunks` over the fields of the schema. -/
def rebuildBatch (tables : Tables) (header : BatchHeader) (schema : Schema) : Except Error RecordBatch := do
  let (columns, cursor) ← tables.buildNodes schema ⟨0, 0⟩
  if cursor.node ≠ header.nodeCount ∨ cursor.buffer ≠ header.bufferCount then
    .error (.layout "node/buffer table not fully consumed by schema")
  else tables.arrow.tryNew schema columns

/-- `read_batch_chunks`; `generations` are those of the chunks' control words. -/
def readBatchChunks (registry : SchemaRegistry) (arrow : ArrowCrate) (memory : Nat → UInt8)
    (chunks : List ChunkDesc) (generations : List Nat) : Except Error RecordBatch := do
  match chunks with
  | [] => .error (.layout "empty chunk list")
  | first :: _ =>
    if chunks.length ≠ generations.length then .error (.layout "chunk / ctrl length mismatch")
    else if chunks.map ChunkDesc.generation ≠ generations then .error (.core (.ctrl .staleDescriptor))
    else
      let (header, nodes, entries) ← readBatchLayout (Lib.slice memory first.offset first.len)
        (chunks.map ChunkDesc.len)
      if header.schemaId ≠ first.schemaId then .error (.schemaMismatch first.schemaId header.schemaId)
      else match registry.resolve header.schemaId with
        | none => .error (.unknownSchema header.schemaId)
        | some schema => rebuildBatch ⟨nodes, makeBuffer memory chunks entries, arrow⟩ header schema

end

end ShmActors.Arrow
