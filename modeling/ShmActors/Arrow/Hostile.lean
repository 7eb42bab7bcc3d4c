import ShmActors.Arrow.RoundTrip

/-! `read_batch_layout` and the walk of the schema over bytes nobody vouches for. -/

namespace ShmActors.Arrow

open Lib

section

variable {Record : Type} (pod : Pod Record) (bytes : Bytes)

/-- `read_pod`, where a read beyond the bytes has no result. -/
def readPod (offset : Nat) : Option Record :=
  if offset + pod.size ≤ bytes.length then some (pod.read ((bytes.drop offset).take pod.size)) else none

def readPods (start count : Nat) : Option (List Record) :=
  (List.range count).mapM fun index => readPod pod bytes (start + index * pod.size)

/-- `read_batch_layout` with every read checked. -/
def checkedLayout (primary : Bytes) (chunkLens : List Nat) :
    Option (Except Error (BatchHeader × List NodeEntry × List BufferEntry)) :=
  if primary.length < BatchHeader.pod.size then some (.error (.layout "primary chunk smaller than batch header"))
  else do
    let header ← readPod BatchHeader.pod primary 0
    if header.magic ≠ BATCH_MAGIC ∨ header.format ≠ BATCH_FORMAT then some (.error .badMagic)
    else if header.chunkCount ≠ chunkLens.length then some (.error (.layout "header chunk_count != chunk list length"))
    else if primary.length < buffersOffset header.nodeCount + header.bufferCount * BufferEntry.pod.size then
      some (.error (.layout "node/buffer tables overrun primary chunk"))
    else do
      let nodes ← readPods NodeEntry.pod primary nodesOffset header.nodeCount
      let entries ← readPods BufferEntry.pod primary (buffersOffset header.nodeCount) header.bufferCount
      some (checkExtents chunkLens entries >>= fun _ => .ok (header, nodes, entries))

variable {pod bytes}

theorem readPods_eq (fits : start + count * pod.size ≤ bytes.length) :
    readPods pod bytes start count = some (readTable pod bytes start count) := by
  have each : ∀ index ∈ List.range count, readPod pod bytes (start + index * pod.size) =
      some (pod.read ((bytes.drop (start + index * pod.size)).take pod.size)) := by
    intro index in_
    have room := Nat.mul_le_mul_right pod.size (List.mem_range.mp in_)
    rw [Nat.succ_mul] at room
    exact if_pos (by omega)
  unfold readPods readTable
  revert each
  induction List.range count with
  | nil => exact fun _ => rfl
  | cons index rest ih =>
    intro each
    rw [List.mapM_cons, each index (.head _), ih fun _ in_ => each _ (.tail _ in_)]
    rfl

/-- No read of the layout leaves the primary chunk. -/
theorem checkedLayout_eq (primary : Bytes) (chunkLens : List Nat) :
    checkedLayout primary chunkLens = some (readBatchLayout primary chunkLens) := by
  unfold checkedLayout readBatchLayout
  split
  · rfl
  · rename_i long
    rw [readPod, if_pos (by omega)]
    simp only [Option.bind_eq_bind, Option.bind_some, List.drop_zero]
    split
    · rfl
    · split
      · rfl
      · split
        · rfl
        · rename_i fits
          rw [readPods_eq (by unfold buffersOffset at fits; omega), readPods_eq (by omega)]
          rfl

theorem extents_of_check (checked : checkExtents chunkLens entries = .ok ()) (in_ : entry ∈ entries) :
    ∃ chunkLen, chunkLens[entry.chunkIndex]? = some chunkLen ∧ entry.offset + entry.len ≤ chunkLen := by
  induction entries with
  | nil => cases in_
  | cons one rest ih =>
    simp only [checkExtents] at checked
    split at checked
    · cases checked
    · rename_i chunkLen got
      obtain ⟨within, later⟩ := guard_eq_ok.mp checked
      rcases List.mem_cons.mp in_ with rfl | older
      · exact ⟨chunkLen, got, Nat.le_of_not_lt within⟩
      · exact ih later older

end

namespace Tables

variable {tables : Tables} {cursor middle next : Cursor} {buffers more : List Bytes}

/-- From one cursor to the next, the walk took these buffers, each from its own row. -/
def Takes (tables : Tables) (cursor : Cursor) (buffers : List Bytes) (next : Cursor) : Prop :=
  next.buffer = cursor.buffer + buffers.length ∧
    buffers.map Except.ok = (List.range' cursor.buffer buffers.length).map tables.buffer

theorem Takes.append (one : tables.Takes cursor buffers middle) (two : tables.Takes middle more next) :
    tables.Takes cursor (buffers ++ more) next := by
  refine ⟨by rw [two.1, one.1, List.length_append, Nat.add_assoc], ?_⟩
  rw [List.map_append, one.2, two.2, one.1, ← List.map_append, List.range'_append_1, List.length_append]

theorem takes_none (same : next.buffer = cursor.buffer) : tables.Takes cursor [] next := ⟨same, rfl⟩

theorem takes_one {buffer : Bytes} (read : tables.buffer cursor.buffer = .ok buffer)
    (moved : next.buffer = cursor.buffer + 1) : tables.Takes cursor [buffer] next :=
  ⟨moved, congrArg ([·]) read.symm⟩

theorem takes_takeValidity (taken : tables.takeValidity node cursor = .ok (nulls, next)) :
    tables.Takes cursor (nulls.toList.map Nulls.bitmap) next := by
  unfold takeValidity at taken
  split at taken
  · obtain ⟨bitmap, read, done⟩ := bind_eq_ok.mp taken
    cases done
    exact takes_one read rfl
  · cases taken
    exact takes_none rfl

theorem takes_takeBuffers (taken : tables.takeBuffers count cursor = .ok (buffers, next)) :
    tables.Takes cursor buffers next := by
  induction count generalizing cursor buffers with
  | zero =>
    cases taken
    exact takes_none rfl
  | succ count ih =>
    rw [takeBuffers] at taken
    obtain ⟨buffer, read, taken⟩ := bind_eq_ok.mp taken
    obtain ⟨⟨later, last⟩, rest, done⟩ := bind_eq_ok.mp taken
    cases done
    exact (takes_one read rfl).append (ih rest)

mutual

theorem takes_buildNode (data : ArrayData) {cursor next : Cursor}
    (built : tables.buildNode dataType cursor = .ok (data, next)) : tables.Takes cursor (buffersOf data) next := by
  cases data with
  | node _ len offset nulls buffers children =>
    rw [buildNode_eq] at built
    split at built
    · cases built
    · obtain ⟨⟨validity, middle⟩, one, built⟩ := bind_eq_ok.mp built
      obtain ⟨⟨own, later⟩, two, built⟩ := bind_eq_ok.mp built
      obtain ⟨_, built⟩ := guard_eq_ok.mp built
      obtain ⟨⟨each, last⟩, third, built⟩ := bind_eq_ok.mp built
      obtain ⟨tree, accepted, done⟩ := bind_eq_ok.mp built
      cases done
      have made := (ite_eq_iff.mp accepted).resolve_right fun wrong => by cases wrong.2
      injection Except.ok.inj made.2 with _ _ _ sameNulls sameOwn sameEach
      have before : tables.Takes cursor [] { cursor with node := cursor.node + 1 } := takes_none rfl
      exact before.append (((sameNulls ▸ takes_takeValidity one).append (sameOwn ▸ takes_takeBuffers two)).append
        (takes_buildNodes children (sameEach ▸ third)))

theorem takes_buildNodes (list : List ArrayData) {cursor next : Cursor}
    (built : tables.buildNodes types cursor = .ok (list, next)) : tables.Takes cursor (buffersOfAll list) next := by
  cases types with
  | nil =>
    simp only [buildNodes] at built
    cases built
    exact takes_none rfl
  | cons dataType types =>
    simp only [buildNodes] at built
    obtain ⟨⟨one, middle⟩, first, built⟩ := bind_eq_ok.mp built
    obtain ⟨⟨others, last⟩, two, done⟩ := bind_eq_ok.mp built
    cases list with
    | nil => cases done
    | cons data rest =>
      obtain ⟨⟨sameOne, sameOthers⟩, ends⟩ : (one = data ∧ others = rest) ∧ last = next := by
        simpa only [Except.ok.injEq, Prod.mk.injEq, List.cons.injEq] using Except.ok.inj done
      rw [sameOne] at first
      rw [sameOthers, ends] at two
      exact (takes_buildNode data first).append (takes_buildNodes rest two)

end

end Tables

/-- Whatever the bytes, the layout reads inside the primary chunk; what it accepts
is well formed, and a batch rebuilt from it has the buffers of the table, each once
and in order. -/
theorem hostile_batch (primary : Bytes) (chunkLens : List Nat) :
    checkedLayout primary chunkLens = some (readBatchLayout primary chunkLens) ∧
    ∀ {header nodes entries}, readBatchLayout primary chunkLens = .ok (header, nodes, entries) →
      (header.magic = BATCH_MAGIC ∧ header.format = BATCH_FORMAT ∧ header.chunkCount = chunkLens.length) ∧
      (nodes.length = header.nodeCount ∧ entries.length = header.bufferCount ∧
        buffersOffset header.nodeCount + header.bufferCount * BufferEntry.pod.size ≤ primary.length) ∧
      (∀ entry ∈ entries, ∃ chunkLen, chunkLens[entry.chunkIndex]? = some chunkLen ∧
        entry.offset + entry.len ≤ chunkLen) ∧
      ∀ {memory chunks arrow schema batch},
        rebuildBatch ⟨nodes, makeBuffer memory chunks entries, arrow⟩ header schema = .ok batch →
          (buffersOfAll batch.columns).map Except.ok =
            (List.range header.bufferCount).map (makeBuffer memory chunks entries) := by
  refine ⟨checkedLayout_eq primary chunkLens, fun {header nodes entries} read => ?_⟩
  obtain ⟨_, read⟩ := guard_eq_ok.mp read
  obtain ⟨magic, read⟩ := guard_eq_ok.mp read
  obtain ⟨count, read⟩ := guard_eq_ok.mp read
  obtain ⟨fits, read⟩ := guard_eq_ok.mp read
  obtain ⟨_, checked, done⟩ := bind_eq_ok.mp read
  cases done
  obtain ⟨magic, format⟩ := not_or.mp magic
  refine ⟨⟨not_not.mp magic, not_not.mp format, not_not.mp count⟩,
    ⟨length_readTable, length_readTable, Nat.le_of_not_lt fits⟩, fun _ => extents_of_check checked, ?_⟩
  intro memory chunks arrow schema batch rebuilt
  obtain ⟨⟨columns, cursor⟩, built, rebuilt⟩ := bind_eq_ok.mp rebuilt
  obtain ⟨consumed, rebuilt⟩ := guard_eq_ok.mp rebuilt
  obtain ⟨moved, taken⟩ := Tables.takes_buildNodes columns built
  rw [arrow.columns rebuilt, List.range_eq_range', taken, ← not_not.mp (not_or.mp consumed).2, moved, Nat.zero_add]

end ShmActors.Arrow
