import ShmActors.Arrow.Packing

/-! What the codec preserves. The writer flattens array trees in pre-order; the
reader, driven by the schema, rebuilds them from what is left of the two tables.
The tree comes back with every offset at 0. -/

namespace ShmActors.Arrow

open Lib Core

section

mutual

/-- The rows of the node table a tree takes, in pre-order. -/
def nodesOf : ArrayData → List NodeEntry
  | .node _ len _ nulls buffers children => nodeEntry len nulls buffers children :: nodesOfAll children

def nodesOfAll : List ArrayData → List NodeEntry
  | [] => []
  | data :: rest => nodesOf data ++ nodesOfAll rest

end

mutual

/-- The buffers of a tree, in the order of its nodes. -/
def buffersOf : ArrayData → List Bytes
  | .node _ _ _ nulls buffers children => nulls.toList.map Nulls.bitmap ++ buffers ++ buffersOfAll children

def buffersOfAll : List ArrayData → List Bytes
  | [] => []
  | data :: rest => buffersOf data ++ buffersOfAll rest

end

mutual

/-- The tree with the same buffers, read from their beginning. -/
def rebased : ArrayData → ArrayData
  | .node dataType len _ nulls buffers children =>
    .node dataType len 0 (nulls.map fun nulls => { nulls with offset := 0 }) buffers (rebasedAll children)

def rebasedAll : List ArrayData → List ArrayData
  | [] => []
  | data :: rest => rebased data :: rebasedAll rest

end

@[simp] theorem len_rebased (data : ArrayData) : (rebased data).len = data.len := by
  cases data
  rfl

theorem rebasedAll_eq_map (list : List ArrayData) : rebasedAll list = list.map rebased := by
  induction list with
  | nil => rfl
  | cons data rest ih => simp [rebasedAll, ih]

mutual

/-- Flat, `Struct`, `List`, `LargeList` and `FixedSizeList`, at every depth. -/
def DataType.plain : DataType → Bool
  | .flat _ => true
  | .struct fields => DataType.allPlain fields
  | .list item | .largeList item | .fixedSizeList item _ => item.plain
  | _ => false

def DataType.allPlain : List DataType → Bool
  | [] => true
  | first :: rest => first.plain && DataType.allPlain rest

end

/-- The types of the child arrays Arrow gives an array. -/
def DataType.children : DataType → List DataType
  | .flat _ => []
  | .struct fields | .union fields => fields
  | .list item | .largeList item | .fixedSizeList item _ | .listView item | .largeListView item => [item]
  | .map entries => [entries]
  | .dictionary _ value => [value]
  | .runEndEncoded runEnds values => [runEnds, values]

/-- The reader knows the children of the plain types and of no other that the writer
supports. -/
theorem DataType.children_known (supported : ensureSupported dataType = .ok ()) :
    childDataTypes dataType = dataType.children ∧ dataType.plain = DataType.allPlain dataType.children ∨
      (childDataTypes dataType).length ≠ dataType.children.length ∧ dataType.plain = false := by
  cases dataType with
  | flat | struct | list | largeList | fixedSizeList =>
    exact .inl ⟨rfl, by simp [DataType.children, DataType.plain, DataType.allPlain]⟩
  | listView | largeListView => exact .inr ⟨by simp [DataType.children, childDataTypes], rfl⟩
  | map | union | dictionary | runEndEncoded => cases supported

mutual

/-- The tree has the type and its children the types `children` gives. -/
inductive Shaped (children : DataType → List DataType) : DataType → ArrayData → Prop
  | node {dataType : DataType} {len offset : Nat} {nulls : Option Nulls} {buffers : List Bytes}
      {parts : List ArrayData} (each : ShapedAll children (children dataType) parts) :
      Shaped children dataType (.node dataType len offset nulls buffers parts)

inductive ShapedAll (children : DataType → List DataType) : List DataType → List ArrayData → Prop
  | nil : ShapedAll children [] []
  | cons {dataType : DataType} {types : List DataType} {data : ArrayData} {rest : List ArrayData}
      (first : Shaped children dataType data) (later : ShapedAll children types rest) :
      ShapedAll children (dataType :: types) (data :: rest)

end

theorem ShapedAll.length (shaped : ShapedAll children types list) : types.length = list.length := by
  induction list generalizing types with
  | nil =>
    cases shaped
    rfl
  | cons data rest ih =>
    cases shaped with
    | cons _ later => simp [ih later]

mutual

/-- The predicate holds of every node of the tree. -/
def ArrayData.All (holds : ArrayData → Prop) : ArrayData → Prop
  | .node dataType len offset nulls buffers children =>
    holds (.node dataType len offset nulls buffers children) ∧ ArrayData.AllOf holds children

def ArrayData.AllOf (holds : ArrayData → Prop) : List ArrayData → Prop
  | [] => True
  | data :: rest => data.All holds ∧ ArrayData.AllOf holds rest

end

end

section

/-- A node whose counts are of 32 bits fits in its row. -/
theorem nodeEntry_holds (lenFits : len < 2 ^ 32) (nullsFit : nulls.elim 0 Nulls.nullCount < 2 ^ 32)
    (buffersFit : buffers.length < 2 ^ 32) (childrenFit : children.length < 2 ^ 32) :
    NodeEntry.pod.Holds (nodeEntry len nulls buffers children) := by
  refine .cons lenFits (.cons nullsFit (.cons ?_ (.cons buffersFit (.cons childrenFit (.cons ?_ .nil)))))
  · show (if nulls.isSome then 1 else 0) < 256 ^ 4
    split <;> decide
  · show 0 < 256 ^ 4
    decide

theorem tryU32_ok (fits : tryU32 val message = .ok done) : val < 2 ^ 32 := by
  unfold tryU32 at fits
  split at fits
  · assumption
  · cases fits

mutual

theorem supported_of_planNode (data : ArrayData) (planned : planNode data old = .ok new) :
    data.All fun part => ensureSupported part.dataType = .ok () := by
  cases data with
  | node dataType len offset nulls buffers children =>
    unfold planNode at planned
    obtain ⟨_, supported, planned⟩ := bind_eq_ok.mp planned
    obtain ⟨_, -, planned⟩ := bind_eq_ok.mp planned
    obtain ⟨_, -, planned⟩ := bind_eq_ok.mp planned
    obtain ⟨_, -, planned⟩ := bind_eq_ok.mp planned
    obtain ⟨_, -, planned⟩ := bind_eq_ok.mp planned
    exact ⟨supported, supported_of_planNodes children planned⟩

theorem supported_of_planNodes (list : List ArrayData) (planned : planNodes list old = .ok new) :
    ArrayData.AllOf (fun part => ensureSupported part.dataType = .ok ()) list := by
  cases list with
  | nil => trivial
  | cons data rest =>
    unfold planNodes at planned
    obtain ⟨middle, one, later⟩ := bind_eq_ok.mp planned
    exact ⟨supported_of_planNode data one, supported_of_planNodes rest later⟩

end

/-- What planning appends to a plan. -/
def Planned (before after : Plan) (nodes : List NodeEntry) (buffers : List Bytes) : Prop :=
  after.nodes = before.nodes ++ nodes ∧ after.buffers = before.buffers ++ buffers ∧
    ∀ node ∈ nodes, NodeEntry.pod.Holds node

mutual

theorem planNode_ok (data : ArrayData) (planned : planNode data old = .ok new) :
    Planned old new (nodesOf data) (buffersOf data) := by
  cases data with
  | node dataType len offset nulls buffers children =>
    unfold planNode at planned
    obtain ⟨_, -, planned⟩ := bind_eq_ok.mp planned
    obtain ⟨_, lenFits, planned⟩ := bind_eq_ok.mp planned
    obtain ⟨_, nullsFit, planned⟩ := bind_eq_ok.mp planned
    obtain ⟨_, buffersFit, planned⟩ := bind_eq_ok.mp planned
    obtain ⟨_, childrenFit, planned⟩ := bind_eq_ok.mp planned
    obtain ⟨nodes, bytes, holds⟩ := planNodes_ok children planned
    refine ⟨by simp [nodes, nodesOf], by simp [bytes, buffersOf], fun node in_ => ?_⟩
    rcases List.mem_cons.mp in_ with rfl | in_
    · exact nodeEntry_holds (tryU32_ok lenFits) (tryU32_ok nullsFit) (tryU32_ok buffersFit) (tryU32_ok childrenFit)
    · exact holds node in_

theorem planNodes_ok (list : List ArrayData) (planned : planNodes list old = .ok new) :
    Planned old new (nodesOfAll list) (buffersOfAll list) := by
  cases list with
  | nil =>
    cases planned
    exact ⟨(List.append_nil _).symm, (List.append_nil _).symm, List.forall_mem_nil _⟩
  | cons data rest =>
    unfold planNodes at planned
    obtain ⟨middle, one, later⟩ := bind_eq_ok.mp planned
    obtain ⟨nodes, bytes, holds⟩ := planNode_ok data one
    obtain ⟨moreNodes, moreBytes, more⟩ := planNodes_ok rest later
    refine ⟨by simp [moreNodes, nodes, nodesOfAll], by simp [moreBytes, bytes, buffersOfAll], fun node in_ => ?_⟩
    rcases List.mem_append.mp in_ with here | behind
    · exact holds node here
    · exact more node behind

end

/-- One array's `concat` leaves it as it is. -/
theorem normalize_eq (data : ArrayData) : normalize data = data := by
  unfold normalize
  split
  · rfl
  · cases data with
    | node dataType len offset nulls buffers children => cases nulls <;> rfl

end

section

/-- The cursor behind so many rows and buffers. -/
def Cursor.past (cursor : Cursor) (nodes : List NodeEntry) (buffers : List Bytes) : Cursor :=
  ⟨cursor.node + nodes.length, cursor.buffer + buffers.length⟩

theorem Cursor.past_past (cursor : Cursor) (nodes moreNodes : List NodeEntry) (buffers moreBuffers : List Bytes) :
    (cursor.past nodes buffers).past moreNodes moreBuffers = cursor.past (nodes ++ moreNodes)
    (buffers ++ moreBuffers) := by
  simp [Cursor.past, Nat.add_assoc]

namespace Tables

variable {tables : Tables} {cursor : Cursor} {nodes moreNodes : List NodeEntry} {buffers moreBuffers : List Bytes}

/-- The tables continue at the cursor with these rows and buffers. -/
structure Continues (tables : Tables) (cursor : Cursor) (nodes : List NodeEntry) (buffers : List Bytes) : Prop where
  node : ∀ {index node}, nodes[index]? = some node → tables.nodes[cursor.node + index]? = some node
  buffer : ∀ {index buffer}, buffers[index]? = some buffer → tables.buffer (cursor.buffer + index) = .ok buffer

theorem Continues.left (continues : tables.Continues cursor (nodes ++ moreNodes) (buffers ++ moreBuffers)) :
    tables.Continues cursor nodes buffers where
  node got := continues.node (List.getElem?_append_left (List.getElem?_eq_some_iff.mp got).1 ▸ got)
  buffer got := continues.buffer (List.getElem?_append_left (List.getElem?_eq_some_iff.mp got).1 ▸ got)

theorem Continues.right (continues : tables.Continues cursor (nodes ++ moreNodes) (buffers ++ moreBuffers)) :
    tables.Continues (cursor.past nodes buffers) moreNodes moreBuffers where
  node {index node} got := by
    have later := @continues.node (nodes.length + index) node (by
      rw [List.getElem?_append_right (Nat.le_add_right ..), Nat.add_sub_cancel_left, got])
    rwa [← Nat.add_assoc] at later
  buffer {index buffer} got := by
    have later := @continues.buffer (buffers.length + index) buffer (by
      rw [List.getElem?_append_right (Nat.le_add_right ..), Nat.add_sub_cancel_left, got])
    rwa [← Nat.add_assoc] at later

theorem takeBuffers_ok (continues : tables.Continues cursor [] buffers) :
    tables.takeBuffers buffers.length cursor = .ok (buffers, cursor.past [] buffers) := by
  induction buffers generalizing cursor with
  | nil => rfl
  | cons buffer rest ih =>
    have here := @continues.buffer 0 buffer rfl
    have later : tables.Continues (cursor.past [] [buffer]) [] rest := continues.right
    have taken := ih later
    rw [Cursor.past_past] at taken
    simp only [List.length_cons, takeBuffers]
    rw [Nat.add_zero] at here
    rw [here]
    exact congrArg (fun out => out >>= fun built => Except.ok (buffer :: built.1, built.2)) taken

theorem takeValidity_ok (continues : tables.Continues cursor [] (nulls.toList.map Nulls.bitmap)) :
    tables.takeValidity (nodeEntry len nulls data children) cursor =
      .ok (nulls.map fun nulls => { nulls with offset := 0 }, cursor.past [] (nulls.toList.map Nulls.bitmap)) := by
  cases nulls with
  | none => rfl
  | some nulls =>
    have here := @continues.buffer 0 nulls.bitmap rfl
    rw [Nat.add_zero] at here
    simp only [takeValidity, nodeEntry, Option.isSome_some, if_true, here]
    rfl

theorem build_ok (built : tables.build data = .ok res) : tables.arrow.accepts data = true ∧ data = res := by
  unfold build at built
  split at built
  · exact ⟨‹_›, Except.ok.inj built⟩
  · cases built

/-- The children are built in the order of their types. -/
theorem buildNode_eq (dataType : DataType) (cursor : Cursor) : tables.buildNode dataType cursor =
    match tables.nodes[cursor.node]? with
    | none => .error (.layout "node table underrun")
    | some node => do
      let (nulls, cursor) ← tables.takeValidity node { cursor with node := cursor.node + 1 }
      let (buffers, cursor) ← tables.takeBuffers node.dataBuffers cursor
      if (childDataTypes dataType).length ≠ node.childCount then
        .error (.layout "schema child count != stored child count")
      else
        let (children, cursor) ← tables.buildNodes (childDataTypes dataType) cursor
        let data ← tables.build (.node dataType node.len 0 nulls buffers children)
        return (data, cursor) := by
  have single (item : DataType) (cursor : Cursor) : (tables.buildNode item cursor).map (fun built =>
      ([built.1], built.2)) =
      tables.buildNodes [item] cursor := by
    simp only [buildNodes]
    cases tables.buildNode item cursor <;> rfl
  have none_ (cursor : Cursor) : tables.buildNodes [] cursor = .ok ([], cursor) := by simp only [buildNodes]
  unfold buildNode
  cases dataType <;> simp only [childDataTypes, single, none_] <;> rfl

/-- A node of a tree the tables continue with, but for its children. -/
theorem buildNode_node {dataType : DataType} {children : List ArrayData}
    (continues : tables.Continues cursor (nodesOf (.node dataType len offset nulls buffers children))
      (buffersOf (.node dataType len offset nulls buffers children))) :
    tables.buildNode dataType cursor = if (childDataTypes dataType).length ≠ children.length then
        .error (.layout "schema child count != stored child count")
      else do
        let (parts, cursor) ← tables.buildNodes (childDataTypes dataType)
          (cursor.past [nodeEntry len nulls buffers children] (nulls.toList.map Nulls.bitmap ++ buffers))
        let data ← tables.build (.node dataType len 0 (nulls.map fun nulls => { nulls with offset := 0 }) buffers parts)
        return (data, cursor) := by
  have here := @continues.node 0 _ rfl
  rw [Nat.add_zero] at here
  -- The row of the node, its validity, and its own buffers.
  have whole : tables.Continues cursor ([nodeEntry len nulls buffers children] ++ nodesOfAll children)
      (nulls.toList.map Nulls.bitmap ++ buffers ++ buffersOfAll children) := continues
  have own : tables.Continues (cursor.past [nodeEntry len nulls buffers children] []) ([] ++ [])
      (nulls.toList.map Nulls.bitmap ++ buffers) := whole.left.right
  have validity : tables.takeValidity (nodeEntry len nulls buffers children) _ = _ := takeValidity_ok own.left
  have bytes := takeBuffers_ok own.right
  rw [Cursor.past_past, Cursor.past_past] at bytes
  rw [Cursor.past_past] at validity
  rw [buildNode_eq, here]
  show (tables.takeValidity (nodeEntry len nulls buffers children)
    (cursor.past [nodeEntry len nulls buffers children] []) >>= _) = _
  rw [validity]
  show (tables.takeBuffers buffers.length _ >>= _) = _
  rw [bytes]
  rfl

mutual

/-- A tree is rebuilt from its rows and buffers, which are consumed exactly, just
when its types are plain and Arrow accepts its nodes. -/
theorem buildNode_iff (data : ArrayData) {cursor : Cursor} (shaped : Shaped DataType.children dataType data)
    (supported : data.All fun part => ensureSupported part.dataType = .ok ())
    (continues : tables.Continues cursor (nodesOf data) (buffersOf data)) :
    tables.buildNode dataType cursor = .ok res ↔ dataType.plain = true ∧
      (rebased data).All (fun part => tables.arrow.accepts part = true) ∧
      res = (rebased data, cursor.past (nodesOf data) (buffersOf data)) := by
  cases shaped with
  | @node _ len offset nulls buffers children each =>
    have inner : tables.Continues (cursor.past [nodeEntry len nulls buffers children] _) _ _ := continues.right
    have own : ensureSupported dataType = .ok () := supported.1
    rw [buildNode_node continues, rebased, ArrayData.All, nodesOf, buffersOf]
    rcases DataType.children_known own with ⟨known, plain⟩ | ⟨unknown, plain⟩
    · have built {out} : tables.buildNodes dataType.children _ = .ok out ↔ _ :=
        buildNodes_iff children each supported.2 inner
      rw [Cursor.past_past] at built
      rw [known, if_neg (not_not_intro each.length), plain, bind_eq_ok]
      constructor
      · rintro ⟨out, below, node⟩
        obtain ⟨plain, accepted, rfl⟩ := built.mp below
        obtain ⟨data, accepts, done⟩ := bind_eq_ok.mp node
        obtain ⟨accepts, same⟩ := build_ok accepts
        cases done
        exact ⟨plain, ⟨accepts, accepted⟩, same ▸ rfl⟩
      · rintro ⟨plain, ⟨accepts, accepted⟩, rfl⟩
        exact ⟨_, built.mpr ⟨plain, accepted, rfl⟩, bind_eq_ok.mpr ⟨_, if_pos accepts, rfl⟩⟩
    · rw [if_pos (each.length ▸ unknown), plain]
      simp

theorem buildNodes_iff (list : List ArrayData) {cursor : Cursor} (shaped : ShapedAll DataType.children types list)
    (supported : ArrayData.AllOf (fun part => ensureSupported part.dataType = .ok ()) list)
    (continues : tables.Continues cursor (nodesOfAll list) (buffersOfAll list)) :
    tables.buildNodes types cursor = .ok res ↔ DataType.allPlain types = true ∧
      ArrayData.AllOf (fun part => tables.arrow.accepts part = true) (rebasedAll list) ∧
      res = (rebasedAll list, cursor.past (nodesOfAll list) (buffersOfAll list)) := by
  cases shaped with
  | nil => exact ⟨fun done => ⟨rfl, trivial, (Except.ok.inj done).symm⟩, fun ⟨_, _, same⟩ => same ▸ rfl⟩
  | @cons dataType types data rest one later =>
    have first {out} : tables.buildNode dataType cursor = .ok out ↔ _ :=
      buildNode_iff data one supported.1 continues.left
    have others {out} : tables.buildNodes types _ = .ok out ↔ _ := buildNodes_iff rest later supported.2 continues.right
    rw [Cursor.past_past] at others
    rw [buildNodes, bind_eq_ok, DataType.allPlain, Bool.and_eq_true, rebasedAll, ArrayData.AllOf]
    constructor
    · rintro ⟨out, here, more⟩
      obtain ⟨plain, accepted, rfl⟩ := first.mp here
      obtain ⟨out, behind, done⟩ := bind_eq_ok.mp more
      obtain ⟨allPlain, allAccepted, rfl⟩ := others.mp behind
      cases done
      exact ⟨⟨plain, allPlain⟩, ⟨accepted, allAccepted⟩, rfl⟩
    · rintro ⟨⟨plain, allPlain⟩, ⟨accepted, allAccepted⟩, rfl⟩
      exact ⟨_, first.mpr ⟨plain, accepted, rfl⟩,
        bind_eq_ok.mpr ⟨_, others.mpr ⟨allPlain, allAccepted, rfl⟩, rfl⟩⟩

end

end Tables

end

section

variable {batch : RecordBatch} {memory after : Nat → UInt8} {chunks : List ChunkDesc}

/-- What a successful write leaves. -/
structure Written (batch : RecordBatch) (header : BatchHeader) (memory : Nat → UInt8) (chunks : List ChunkDesc)
    (after : Nat → UInt8) (plan : Plan) (places : List (Nat × Nat)) (chunkUsed : List Nat) : Prop where
  laid : Laid plan header places chunkUsed chunks
  chunkCount : header.chunkCount = chunks.length
  nodes : plan.nodes = nodesOfAll batch.columns
  buffers : plan.buffers = buffersOfAll batch.columns
  supported : ArrayData.AllOf (fun part => ensureSupported part.dataType = .ok ()) batch.columns
  copied : after = overwriteAll memory (batchWrites header plan places chunks)

theorem writeBatchChunks_ok (agrees : registry.Agrees contentKey)
    (wrote : writeBatchChunks allocator contentKey registry batch memory = .ok (chunks, after, learned)) :
    learned = (registry.intern contentKey batch.schema).2 ∧ ∃ plan places chunkUsed,
      Written batch (batchHeader (registry.intern contentKey batch.schema).1 batch.rows plan chunkUsed.length)
        memory chunks after plan places chunkUsed := by
  unfold writeBatchChunks at wrote
  obtain ⟨plan, planned, wrote⟩ := bind_eq_ok.mp wrote
  obtain ⟨packing, packed, wrote⟩ := bind_eq_ok.mp wrote
  obtain ⟨_, rowsFit, wrote⟩ := bind_eq_ok.mp wrote
  obtain ⟨_, nodesFit, wrote⟩ := bind_eq_ok.mp wrote
  obtain ⟨_, buffersFit, wrote⟩ := bind_eq_ok.mp wrote
  obtain ⟨given, allocated, wrote⟩ := bind_eq_ok.mp wrote
  cases wrote
  have unchanged : batch.columns.map normalize = batch.columns := by
    rw [funext normalize_eq, List.map_id']
  rw [planBatch, unchanged] at planned
  obtain ⟨nodes, buffers, holds⟩ := planNodes_ok _ planned
  obtain ⟨places, locs, placed, -⟩ := pack_places packed
  have stamped : BatchHeader.pod.Holds
      (batchHeader (registry.intern contentKey batch.schema).1 batch.rows plan packing.chunkUsed.length) :=
    .cons (show BATCH_MAGIC < 256 ^ 8 by decide) (.cons (show BATCH_FORMAT < 256 ^ 4 by decide)
      (.cons (agrees.interned _).1 (.cons (tryU32_ok rowsFit)
      (.cons (tryU32_ok nodesFit) (.cons (tryU32_ok buffersFit) (.cons (Nat.mod_lt _ (by decide)) .nil))))))
  have none : Grants (registry.intern contentKey batch.schema).1 [] [] :=
    ⟨rfl, List.forall_mem_nil _, List.forall_mem_nil _, List.Pairwise.nil⟩
  have laid : Laid plan _ places packing.chunkUsed chunks :=
    ⟨nodes ▸ holds, stamped, placed, allocChunks_grants none allocated⟩
  refine ⟨rfl, plan, places, packing.chunkUsed, laid, ?_, nodes, buffers, supported_of_planNodes _ planned, ?_⟩
  · have few := placed.few
    have several := laid.few_buffers
    rw [laid.grants.length]
    refine Nat.mod_eq_of_lt ?_
    rw [List.length_nil] at few
    omega
  · rw [locs, laid.cut_places]

/-- The tables of a written batch, for the walk. -/
theorem Written.continues (written : Written batch header memory chunks after plan places chunkUsed)
    (arrow : ArrowCrate) :
    Tables.Continues ⟨plan.nodes, makeBuffer after chunks (List.zipWith bufferEntry places plan.buffers), arrow⟩
      ⟨0, 0⟩ (nodesOfAll batch.columns) (buffersOfAll batch.columns) where
  node got := by
    rw [Nat.zero_add, written.nodes, got]
  buffer got := by
    rw [← written.buffers] at got
    rw [Nat.zero_add, written.copied]
    exact written.laid.makeBuffer_ok got

/-- The batch with every offset at 0. -/
def RecordBatch.rebased (batch : RecordBatch) : RecordBatch where
  schema := batch.schema
  columns := rebasedAll batch.columns
  rows := batch.rows
  complete := by rw [rebasedAll_eq_map, List.length_map, batch.complete]
  even column member := by
    rw [rebasedAll_eq_map] at member
    obtain ⟨data, inside, rfl⟩ := List.mem_map.mp member
    rw [len_rebased, batch.even data inside]

/-- A written batch is read, and then with every offset at 0, just when its types
are plain and Arrow accepts its arrays so. -/
theorem read_iff {arrow : ArrowCrate} (agrees : registry.Agrees contentKey)
    (columns : batch.schema ≠ []) (shaped : ShapedAll DataType.children batch.schema batch.columns)
    (wrote : writeBatchChunks allocator contentKey registry batch memory = .ok (chunks, after, learned)) :
    readBatchChunks learned arrow after chunks (chunks.map ChunkDesc.generation) = .ok res ↔
      DataType.allPlain batch.schema = true ∧
      ArrayData.AllOf (fun part => arrow.accepts part = true) (rebasedAll batch.columns) ∧ res = batch.rebased := by
  obtain ⟨rfl, plan, places, chunkUsed, written⟩ := writeBatchChunks_ok agrees wrote
  obtain ⟨one, rest, cons, -⟩ := written.laid.primary
  have layout := written.laid.readBatchLayout_ok memory cons rfl rfl written.chunkCount rfl rfl
  rw [← written.copied] at layout
  have schemaId : one.schemaId = (registry.intern contentKey batch.schema).1 :=
    (written.laid.grants.small one (by rw [cons]; exact List.mem_cons_self)).2
  have resolved := (agrees.interned batch.schema).2
  -- The layout, the schema's id and its resolution are what was written; the walk is left.
  have walk : readBatchChunks (registry.intern contentKey batch.schema).2 arrow after chunks
      (chunks.map ChunkDesc.generation) = rebuildBatch
        ⟨plan.nodes, makeBuffer after chunks (List.zipWith bufferEntry places plan.buffers), arrow⟩
        (batchHeader (registry.intern contentKey batch.schema).1 batch.rows plan chunkUsed.length) batch.schema := by
    subst cons
    simp only [readBatchChunks, List.length_map, ne_eq, not_true_eq_false, if_false]
    rw [layout]
    refine (if_neg (not_not_intro schemaId.symm)).trans ?_
    dsimp only [batchHeader]
    rw [resolved]
  have consumed : (⟨0, 0⟩ : Cursor).past (nodesOfAll batch.columns) (buffersOfAll batch.columns) =
      ⟨plan.nodes.length, plan.buffers.length⟩ := by
    rw [written.nodes, written.buffers]
    simp [Cursor.past]
  have built {out} : Tables.buildNodes _ batch.schema ⟨0, 0⟩ = .ok out ↔ _ :=
    Tables.buildNodes_iff batch.columns shaped written.supported (written.continues arrow)
  rw [consumed] at built
  have made : arrow.tryNew batch.schema (rebasedAll batch.columns) = .ok batch.rebased :=
    arrow.makes batch.rebased columns
  rw [walk, rebuildBatch, bind_eq_ok]
  constructor
  · rintro ⟨out, walked, rest⟩
    obtain ⟨plain, accepted, rfl⟩ := built.mp walked
    have rest := (guard_eq_ok.mp rest).2
    rw [made] at rest
    exact ⟨plain, accepted, (Except.ok.inj rest).symm⟩
  · rintro ⟨plain, accepted, rfl⟩
    exact ⟨_, built.mpr ⟨plain, accepted, rfl⟩, (if_neg (by simp [batchHeader])).trans made⟩

end

section

mutual

theorem rebased_normalized (data : ArrayData) (normalized : isNormalized data = true) : rebased data = data := by
  cases data with
  | node dataType len offset nulls buffers children =>
    simp only [isNormalized, decide_eq_true_eq] at normalized
    obtain ⟨rfl, start, below⟩ := normalized
    rw [rebased, rebasedAll_normalized children below]
    cases nulls with
    | none => rfl
    | some nulls =>
      obtain ⟨bitmap, offset, nullCount⟩ := nulls
      obtain rfl : offset = 0 := start
      rfl

theorem rebasedAll_normalized (list : List ArrayData) (normalized : areNormalized list = true) :
    rebasedAll list = list := by
  cases list with
  | nil => rfl
  | cons data rest =>
    obtain ⟨here, others⟩ := Bool.and_eq_true_iff.mp (by simpa [areNormalized] using normalized)
    rw [rebasedAll, rebased_normalized data here, rebasedAll_normalized rest others]

end

variable {allocator : ChunkAllocator} {contentKey : Schema → Nat} {registry learned : SchemaRegistry}
  {batch : RecordBatch} {memory after : Nat → UInt8} {chunks : List ChunkDesc} {arrow : ArrowCrate}

/-- A batch of plain types at offset 0 is read as it was written. -/
theorem read_write_of_plain (agrees : registry.Agrees contentKey) (columns : batch.schema ≠ [])
    (plain : DataType.allPlain batch.schema = true) (shaped : ShapedAll DataType.children batch.schema batch.columns)
    (offsetFree : areNormalized batch.columns = true)
    (accepted : ArrayData.AllOf (fun part => arrow.accepts part = true) batch.columns)
    (wrote : writeBatchChunks allocator contentKey registry batch memory = .ok (chunks, after, learned)) :
    readBatchChunks learned arrow after chunks (chunks.map ChunkDesc.generation) = .ok batch := by
  have same := rebasedAll_normalized batch.columns offsetFree
  have whole : batch = batch.rebased := by
    unfold RecordBatch.rebased
    simp only [same]
  exact (read_iff agrees columns shaped wrote).mpr ⟨plain, same.symm ▸ accepted, whole⟩

/-- An allocator that gives out chunk after chunk, `cap` bytes each. -/
def bump (cap : Nat) (fits : cap < 2 ^ 32) : ChunkAllocator where
  maxChunkSize := cap
  alloc taken _ := .ok ⟨1, 0, (taken.map fun desc => desc.offset + desc.len).foldr max 0, cap, 0⟩
  small given := by
    cases given
    exact fits
  apart {taken _ _} given other member := by
    cases given
    left
    induction taken with
    | nil => cases member
    | cons first rest ih =>
      rcases List.mem_cons.mp member with rfl | member
      · exact Nat.le_max_left ..
      · exact Nat.le_trans (ih member) (Nat.le_max_right ..)

theorem SchemaRegistry.agrees_new (contentKey : Schema → Nat) : SchemaRegistry.new.Agrees contentKey where
  cached wrong := by cases wrong
  mints := ⟨by decide, by decide⟩

/-- `try_new` as it is documented: the row count is that of the first column. -/
def ArrowCrate.checked (accepts : ArrayData → Bool) : ArrowCrate where
  accepts := accepts
  tryNew schema columns :=
    if fits : columns.length = schema.length ∧ ∀ column ∈ columns, column.len = columns.head?.elim 0 ArrayData.len then
      .ok ⟨schema, columns, _, fits.1, fits.2⟩
    else .error (.arrow "the columns do not fit the schema")
  columns made := by
    split at made
    · cases made
      rfl
    · cases made
  makes batch named := by
    obtain ⟨schema, columns, rows, complete, even⟩ := batch
    obtain rfl : columns.head?.elim 0 ArrayData.len = rows := by
      cases columns with
      | nil => exact absurd (List.length_eq_zero_iff.mp complete.symm) named
      | cons first rest => exact even first List.mem_cons_self
    exact dif_pos ⟨complete, even⟩

/-- Three rows of a struct of bytes, one of them null, and of lists of bytes. -/
def nested : RecordBatch where
  schema := [.struct [.flat 2, .list (.flat 2)]]
  columns := [.node (.struct [.flat 2, .list (.flat 2)]) 3 0 none []
    [.node (.flat 2) 3 0 (some ⟨[5], 0, 1⟩) [[10, 0, 30]] [],
     .node (.list (.flat 2)) 3 0 none [[0, 0, 0, 0, 2, 0, 0, 0, 2, 0, 0, 0, 3, 0, 0, 0]]
       [.node (.flat 2) 3 0 none [[7, 8, 9]] []]]]
  rows := 3
  complete := rfl
  even := by simp [ArrayData.len]

/-- In chunks of 256 bytes it takes two of them. -/
theorem nested_read_write : ∃ chunks after learned,
    writeBatchChunks (bump 256 (by decide)) List.length .new nested (fun _ => 0) = .ok (chunks, after, learned) ∧
      chunks.length = 2 ∧
      readBatchChunks learned (.checked fun _ => true) after chunks (chunks.map ChunkDesc.generation) = .ok nested := by
  have ends : (writeBatchChunks (bump 256 (by decide)) List.length .new nested (fun _ => 0)).isOk = true := by
    decide +kernel
  obtain ⟨⟨chunks, after, learned⟩, wrote⟩ := exists_of_isOk ends
  refine ⟨chunks, after, learned, wrote, ?_, ?_⟩
  · have count : ((writeBatchChunks (bump 256 (by decide)) List.length .new nested (fun _ => 0)).toOption.map
        fun result => result.1.length) = some 2 := by decide +kernel
    rw [wrote] at count
    exact Option.some.inj count
  · refine read_write_of_plain (SchemaRegistry.agrees_new _) (by simp [nested]) rfl ?_ rfl ?_ wrote
    · exact .cons (.node (.cons (.node .nil) (.cons (.node (.cons (.node .nil) .nil)) .nil))) .nil
    · simp [nested, ArrayData.AllOf, ArrayData.All, ArrowCrate.checked]

end

end ShmActors.Arrow
