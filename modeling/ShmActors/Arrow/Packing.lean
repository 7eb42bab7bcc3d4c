import Mathlib.Tactic.Ring
import ShmActors.Arrow.Codec

/-! Where a written batch lies: every buffer inside its chunk, and no two of the
copies `write_batch_chunks` makes overlap. -/

namespace ShmActors.Arrow

open Lib Core

section

/-- A buffer and its place: the chunk, and the offset there. -/
abbrev Placed := (Nat × Nat) × Bytes

/-- One buffer ends before the other begins, or they are in different chunks. -/
def Placed.Before (first second : Placed) : Prop :=
  first.1.1 = second.1.1 → first.1.2 + first.2.length ≤ second.1.2

/-- The places `pack_from` gives, before they are cut to 32 bits. -/
structure Places (full : List Nat) (cursor : Nat) (buffers : List Bytes) (places : List (Nat × Nat))
    (chunkUsed : List Nat) : Prop where
  length : places.length = buffers.length
  kept : full <+: chunkUsed
  current : ∃ used, chunkUsed[full.length]? = some used ∧ cursor ≤ used
  few : chunkUsed.length ≤ full.length + 1 + buffers.length
  inside : ∀ placed ∈ places.zip buffers, full.length ≤ placed.1.1 ∧
    (placed.1.1 = full.length → cursor ≤ placed.1.2) ∧
    ∃ used, chunkUsed[placed.1.1]? = some used ∧ placed.1.2 + placed.2.length ≤ used
  ordered : (places.zip buffers).Pairwise Placed.Before

section

/-- The buffer opens a chunk; the one so far is closed at the cursor. -/
theorem Places.fresh (later : Places (full ++ [cursor]) buffer.length rest places chunkUsed) :
    Places full cursor (buffer :: rest) ((full.length + 1, 0) :: places) chunkUsed := by
  have next : (full ++ [cursor]).length = full.length + 1 := by simp
  have closed : chunkUsed[full.length]? = some cursor := by
    obtain ⟨behind, rfl⟩ := later.kept
    simp
  refine ⟨by simp [later.length], (List.prefix_append ..).trans later.kept, ⟨cursor, closed, Nat.le_refl _⟩, ?_, ?_, ?_⟩
  · have few := later.few
    rw [next] at few
    rw [List.length_cons]
    omega
  · intro placed in_
    rcases List.mem_cons.mp in_ with rfl | in_
    · obtain ⟨used, got, fits⟩ := later.current
      rw [next] at got
      exact ⟨Nat.le_succ _, fun wrong => absurd wrong (Nat.succ_ne_self _), used, got, by simpa using fits⟩
    · obtain ⟨behind, -, extent⟩ := later.inside placed in_
      rw [next] at behind
      exact ⟨by omega, fun wrong => by omega, extent⟩
  · refine List.pairwise_cons.mpr ⟨fun placed in_ same => ?_, later.ordered⟩
    have beyond := (later.inside placed in_).2.1 (by rw [next]; exact same.symm)
    simpa using beyond

/-- The buffer goes behind the cursor. -/
theorem Places.fill (behind : cursor ≤ offset) (later : Places full (offset + buffer.length) rest places chunkUsed) :
    Places full cursor (buffer :: rest) ((full.length, offset) :: places) chunkUsed := by
  obtain ⟨used, got, fits⟩ := later.current
  refine ⟨by simp [later.length], later.kept, ⟨used, got, by omega⟩, ?_, ?_, ?_⟩
  · have few := later.few
    rw [List.length_cons]
    omega
  · intro placed in_
    rcases List.mem_cons.mp in_ with rfl | in_
    · exact ⟨Nat.le_refl _, fun _ => behind, used, got, fits⟩
    · obtain ⟨beyond, new, extent⟩ := later.inside placed in_
      exact ⟨beyond, fun same => by have := new same; omega, extent⟩
  · exact List.pairwise_cons.mpr ⟨fun placed in_ same => (later.inside placed in_).2.1 same.symm, later.ordered⟩

end

/-- A place cut to the width of its fields. -/
def cut (place : Nat × Nat) : Nat × Nat := (place.1 % 2 ^ 32, place.2 % 2 ^ 32)

/-- Places at the buffers' alignment, from one chunk to the next, in chunks of at
most `cap` bytes. -/
structure Fits (cap index : Nat) (places : List (Nat × Nat)) (chunkUsed : List Nat) : Prop where
  aligned : ∀ place ∈ places, BUFFER_ALIGN ∣ place.2
  room : ∀ used ∈ chunkUsed, used ≤ cap
  chain : (index :: places.map Prod.fst).IsChain fun index next => next = index ∨ next = index + 1

theorem Fits.cons (fits : Fits cap next places chunkUsed) (aligned : BUFFER_ALIGN ∣ offset)
    (near : next = index ∨ next = index + 1) : Fits cap index ((next, offset) :: places) chunkUsed where
  aligned := List.forall_mem_cons.mpr ⟨aligned, fits.aligned⟩
  room := fits.room
  chain := List.isChain_cons_cons.mpr ⟨near, fits.chain⟩

theorem packFrom_places (packed : packFrom cap locs full cursor buffers = .ok packing)
    (room : ∀ used ∈ full ++ [cursor], used ≤ cap) : ∃ places, packing.locs = locs ++ places.map cut ∧
      Places full cursor buffers places packing.chunkUsed ∧ Fits cap full.length places packing.chunkUsed := by
  induction buffers generalizing locs full cursor with
  | nil =>
    cases packed
    refine ⟨[], by simp, ⟨rfl, List.prefix_append .., ⟨cursor, by simp, Nat.le_refl _⟩, by simp, ?_, ?_⟩,
      List.forall_mem_nil _, room, .singleton _⟩
    · intro placed none
      cases none
    · exact List.Pairwise.nil
  | cons buffer rest ih =>
    unfold packFrom at packed
    split at packed
    · cases packed
    rename_i short
    split at packed
    · have more : ∀ used ∈ full ++ [cursor] ++ [buffer.length], used ≤ cap :=
        List.forall_mem_append.mpr ⟨room, List.forall_mem_singleton.mpr (Nat.le_of_not_lt short)⟩
      obtain ⟨places, locsEq, later, fits⟩ := ih packed more
      rw [List.length_append] at fits
      refine ⟨(full.length + 1, 0) :: places, ?_, later.fresh, fits.cons (Nat.dvd_zero _) (.inr rfl)⟩
      rw [locsEq]
      simp [cut]
    · rename_i here
      have more : ∀ used ∈ full ++ [alignUp cursor BUFFER_ALIGN + buffer.length], used ≤ cap :=
        List.forall_mem_append.mpr ⟨(List.forall_mem_append.mp room).1,
          List.forall_mem_singleton.mpr (Nat.le_of_not_lt here)⟩
      obtain ⟨places, locsEq, later, fits⟩ := ih packed more
      refine ⟨(full.length, alignUp cursor BUFFER_ALIGN) :: places, ?_, later.fill (le_alignUp _ (by decide)),
        fits.cons (Nat.dvd_mul_left ..) (.inl rfl)⟩
      rw [locsEq]
      simp [cut]

theorem pack_places (packed : pack plan cap = .ok packing) : ∃ places, packing.locs = places.map cut ∧
      Places [] (payloadStart plan.nodes.length plan.buffers.length) plan.buffers places packing.chunkUsed ∧
      Fits cap 0 places packing.chunkUsed := by
  simp only [pack] at packed
  split at packed
  · cases packed
  next large =>
    exact packFrom_places packed (List.forall_mem_singleton.mpr (Nat.le_of_not_lt large))

theorem packFrom_fails : (∃ error, packFrom cap locs full cursor buffers = .error error) ↔
    ∃ buffer ∈ buffers, cap < buffer.length := by
  induction buffers generalizing locs full cursor with
  | nil => simp [packFrom]
  | cons buffer rest ih =>
    unfold packFrom
    split
    next large => simp [large]
    next short => split <;> simp [ih, short]

/-- Every chunk has room for what is packed into it, has a length of 32 bits, and
no two of them overlap. -/
structure Grants (schemaId : Nat) (chunkUsed : List Nat) (chunks : List ChunkDesc) : Prop where
  length : chunks.length = chunkUsed.length
  room : ∀ pair ∈ chunkUsed.zip chunks, pair.1 ≤ pair.2.len
  small : ∀ desc ∈ chunks, desc.len < 2 ^ 32 ∧ desc.schemaId = schemaId
  apart : chunks.Pairwise fun first second => Apart (first.offset, first.len) (second.offset, second.len)

theorem allocChunks_grants (grants : Grants schemaId old taken)
    (allocated : allocChunks allocator schemaId taken chunkUsed = .ok chunks) :
    Grants schemaId (old ++ chunkUsed) chunks := by
  induction chunkUsed generalizing old taken with
  | nil =>
    cases allocated
    simpa using grants
  | cons used rest ih =>
    unfold allocChunks at allocated
    obtain ⟨desc, given, next⟩ := bind_eq_ok.mp allocated
    split at next
    · cases next
    rename_i large
    rw [List.append_cons]
    refine ih ⟨by simp [grants.length], ?_, ?_, ?_⟩ next
    · rw [List.zip_append grants.length.symm]
      intro pair in_
      rcases List.mem_append.mp in_ with earlier | here
      · exact grants.room pair earlier
      · rw [List.mem_singleton.mp here]
        exact Nat.le_of_not_lt large
    · intro other in_
      rcases List.mem_append.mp in_ with earlier | here
      · exact grants.small other earlier
      · rw [List.mem_singleton.mp here]
        exact ⟨(allocator.small given : desc.len < 2 ^ 32), rfl⟩
    · refine List.pairwise_append.mpr ⟨grants.apart, List.pairwise_singleton .., fun other in_ last here => ?_⟩
      rw [List.mem_singleton.mp here]
      exact allocator.apart given other in_

end

section

variable {pod : Pod Record} {start : Nat}

theorem mem_tableWrites (got : records[index]? = some record) :
    (start + index * pod.size, pod.write record) ∈ tableWrites pod start records := by
  induction records generalizing start index with
  | nil => simp at got
  | cons one rest ih =>
    cases index with
    | zero =>
      cases got
      simp [tableWrites]
    | succ index =>
      refine List.mem_cons_of_mem _ ?_
      have later := @ih (start + pod.size) index got
      rwa [show start + (index + 1) * pod.size = start + pod.size + index * pod.size by ring]

theorem tableWrites_within (holds : ∀ record ∈ records, pod.Holds record)
    (in_ : write ∈ tableWrites pod start records) :
    start ≤ write.1 ∧ write.1 + write.2.length ≤ start + records.length * pod.size := by
  induction records generalizing start with
  | nil => cases in_
  | cons one rest ih =>
    have size : (rest.length + 1) * pod.size = rest.length * pod.size + pod.size := by ring
    rw [List.length_cons, size]
    rcases List.mem_cons.mp in_ with rfl | in_
    · have length := Pod.length_write (holds one List.mem_cons_self)
      simp only [length]
      omega
    · have later := ih (fun record in_ => holds record (List.mem_cons_of_mem _ in_)) in_
      omega

theorem tableWrites_apart (holds : ∀ record ∈ records, pod.Holds record) :
    (tableWrites pod start records).Pairwise fun one two => Apart (extent one) (extent two) := by
  induction records generalizing start with
  | nil => exact List.Pairwise.nil
  | cons one rest ih =>
    have others (record : Record) (in_ : record ∈ rest) := holds record (List.mem_cons_of_mem _ in_)
    refine List.pairwise_cons.mpr ⟨fun write in_ => .inl ?_, ih others⟩
    have behind := (tableWrites_within others in_).1
    have length := Pod.length_write (holds one List.mem_cons_self)
    simpa [extent, length] using behind

theorem length_readTable : (readTable pod bytes start count).length = count := by
  simp [readTable]

/-- A table whose records all stand in memory reads back. -/
theorem readTable_eq (same : ∀ record ∈ records, pod.ofFields (pod.fields record) = record)
    (holds : ∀ record ∈ records, pod.Holds record) (inside : start + records.length * pod.size ≤ length)
    (stands : ∀ write ∈ tableWrites pod (base + start) records, Lib.slice mem write.1 write.2.length = write.2) :
    readTable pod (Lib.slice mem base length) start records.length = records := by
  apply List.ext_getElem length_readTable
  intro index _ short
  have in_ := List.getElem_mem short
  have here := stands _ (mem_tableWrites (List.getElem?_eq_getElem short))
  have within : start + index * pod.size + pod.size ≤ length := by
    have more : (index + 1) * pod.size ≤ records.length * pod.size := Nat.mul_le_mul_right _ short
    rw [Nat.add_mul, Nat.one_mul] at more
    omega
  simp only [readTable, List.getElem_map, List.getElem_range]
  rw [take_drop_slice within, ← Nat.add_assoc]
  rw [Pod.length_write (holds _ in_)] at here
  rw [here, Pod.read_write (holds _ in_) (same _ in_)]

end

theorem tables_le_payloadStart (nodeCount bufferCount : Nat) :
    buffersOffset nodeCount + bufferCount * BufferEntry.pod.size ≤ payloadStart nodeCount bufferCount :=
  le_alignUp _ (by decide)

/-- The tables have an entry for each buffer. -/
theorem few_of_payloadStart (small : payloadStart nodeCount bufferCount < 2 ^ 32) : bufferCount + 1 < 2 ^ 32 := by
  have tables := tables_le_payloadStart nodeCount bufferCount
  have size : BufferEntry.pod.size = 12 := rfl
  have behind : 32 ≤ buffersOffset nodeCount := Nat.le_add_right ..
  rw [size] at tables
  omega

/-- No place is cut that 32 bits have room for. -/
theorem map_cut {places : List (Nat × Nat)} (length : places.length = buffers.length)
    (small : ∀ placed ∈ places.zip buffers, placed.1.1 < 2 ^ 32 ∧ placed.1.2 < 2 ^ 32) : places.map cut = places := by
  have all : (places.zip buffers).map Prod.fst = places := List.map_fst_zip (Nat.le_of_eq length)
  conv => rhs; rw [← List.map_id places]
  apply List.map_congr_left
  intro place in_
  rw [← all] at in_
  obtain ⟨placed, inside, rfl⟩ := List.mem_map.mp in_
  unfold cut
  rw [Nat.mod_eq_of_lt (small placed inside).1, Nat.mod_eq_of_lt (small placed inside).2]
  rfl

/-- What `pack` gives for chunks of 32 bits' length, and when it gives nothing. -/
theorem pack_sound {plan : Plan} {cap : Nat} (small : cap < 2 ^ 32) :
    ((∃ error, pack plan cap = .error error) ↔
      cap < payloadStart plan.nodes.length plan.buffers.length ∨ ∃ buffer ∈ plan.buffers, cap < buffer.length) ∧
    ∀ packing, pack plan cap = .ok packing →
      packing.locs.length = plan.buffers.length ∧ (∀ used ∈ packing.chunkUsed, used ≤ cap) ∧
      (∀ placed ∈ packing.locs.zip plan.buffers, BUFFER_ALIGN ∣ placed.1.2 ∧
        (placed.1.1 = 0 → payloadStart plan.nodes.length plan.buffers.length ≤ placed.1.2) ∧
        ∃ used, packing.chunkUsed[placed.1.1]? = some used ∧ placed.1.2 + placed.2.length ≤ used) ∧
      (packing.locs.zip plan.buffers).Pairwise Placed.Before ∧
      (0 :: packing.locs.map Prod.fst).IsChain fun index next => next = index ∨ next = index + 1 := by
  constructor
  · simp only [pack]
    split
    next less => simp [less]
    next large => rw [packFrom_fails, or_iff_right large]
  intro packing packed
  obtain ⟨places, locs, placed, fits⟩ := pack_places packed
  obtain ⟨used, one, start⟩ := placed.current
  have several := few_of_payloadStart
    (Nat.lt_of_le_of_lt (Nat.le_trans start (fits.room used (List.mem_of_getElem? one))) small)
  have whole : places.map cut = places := by
    apply map_cut placed.length
    intro spot in_
    obtain ⟨-, -, used, got, end_⟩ := placed.inside spot in_
    have index : spot.1.1 < packing.chunkUsed.length := (List.getElem?_eq_some_iff.mp got).1
    have room := fits.room used (List.mem_of_getElem? got)
    have few := placed.few
    rw [List.length_nil] at few
    exact ⟨by omega, by omega⟩
  rw [locs, whole]
  refine ⟨placed.length, fits.room, fun spot in_ => ?_, placed.ordered, fits.chain⟩
  obtain ⟨-, behind, inside⟩ := placed.inside spot in_
  exact ⟨fits.aligned _ (List.of_mem_zip in_).1, behind, inside⟩

theorem pack_sound_two : ∃ (plan : Plan) (packing : Packing), packing = ⟨[(0, 64), (1, 0)], [65, 2]⟩ ∧
    pack plan 128 = .ok packing ∧
    ((∃ error, pack plan 128 = .error error) ↔
      128 < payloadStart plan.nodes.length plan.buffers.length ∨ ∃ buffer ∈ plan.buffers, 128 < buffer.length) ∧
    packing.locs.length = plan.buffers.length ∧ (∀ used ∈ packing.chunkUsed, used ≤ 128) ∧
    (∀ placed ∈ packing.locs.zip plan.buffers, BUFFER_ALIGN ∣ placed.1.2 ∧
      (placed.1.1 = 0 → payloadStart plan.nodes.length plan.buffers.length ≤ placed.1.2) ∧
      ∃ used, packing.chunkUsed[placed.1.1]? = some used ∧ placed.1.2 + placed.2.length ≤ used) ∧
    (packing.locs.zip plan.buffers).Pairwise Placed.Before ∧
    (0 :: packing.locs.map Prod.fst).IsChain fun index next => next = index ∨ next = index + 1 := by
  have packed : pack ⟨[], [[1], [2, 3]]⟩ 128 = .ok ⟨[(0, 64), (1, 0)], [65, 2]⟩ := rfl
  obtain ⟨fails, sound⟩ := pack_sound (show 128 < 2 ^ 32 by decide)
  exact ⟨_, _, rfl, packed, fails, sound _ packed⟩

/-- A header of 32 bytes is refused for chunks of 50, being padded; and a buffer
behind the first 4 GiB of a larger chunk is said to lie on the header. -/
theorem pack_pads_and_cuts :
    (buffersOffset 0 + 0 * BufferEntry.pod.size = 32 ∧ pack ⟨[], []⟩ 50 = .error (.chunkTooSmall 64 50)) ∧
    ∃ plan packing, pack plan (2 ^ 33) = .ok packing ∧ packing.locs[1]? = some (0, 0) := by
  have cuts (buffer : Bytes) (long : buffer.length = 2 ^ 32 - 64) :
      pack ⟨[], [buffer, [0]]⟩ (2 ^ 33) = .ok ⟨[(0, 64), (0, 0)], [2 ^ 32 + 1]⟩ := by
    simp [pack, packFrom, long, payloadStart, buffersOffset, nodesOffset, alignUp, BUFFER_ALIGN, Pod.size,
      BatchHeader.pod, BufferEntry.pod]
  exact ⟨⟨rfl, rfl⟩, _, _, cuts _ (List.length_replicate (a := 0)), rfl⟩

/-- A batch laid out in the chunks given for it. -/
structure Laid (plan : Plan) (header : BatchHeader) (places : List (Nat × Nat)) (chunkUsed : List Nat)
    (chunks : List ChunkDesc) : Prop where
  nodes : ∀ node ∈ plan.nodes, NodeEntry.pod.Holds node
  stamped : BatchHeader.pod.Holds header
  places : Places [] (payloadStart plan.nodes.length plan.buffers.length) plan.buffers places chunkUsed
  grants : Grants header.schemaId chunkUsed chunks

namespace Laid

variable {places : List (Nat × Nat)} (laid : Laid plan header places chunkUsed chunks)

include laid

/-- The chunk a used length belongs to. -/
theorem chunk_of_used {index used : Nat} (got : chunkUsed[index]? = some used) :
    ∃ desc, chunks[index]? = some desc ∧ used ≤ desc.len ∧ desc.len < 2 ^ 32 := by
  obtain ⟨inside, same⟩ := List.getElem?_eq_some_iff.mp got
  have short : index < chunks.length := laid.grants.length ▸ inside
  refine ⟨chunks[index], List.getElem?_eq_getElem short, ?_, (laid.grants.small _ (List.getElem_mem short)).1⟩
  have pair : (chunkUsed[index], chunks[index]) ∈ chunkUsed.zip chunks := by
    rw [← List.getElem_zip (h := by simp [short, inside])]
    exact List.getElem_mem _
  exact same ▸ laid.grants.room _ pair

/-- The primary chunk holds the tables. -/
theorem primary : ∃ desc rest, chunks = desc :: rest ∧ desc.len < 2 ^ 32 ∧
    payloadStart plan.nodes.length plan.buffers.length ≤ desc.len := by
  obtain ⟨used, got, fits⟩ := laid.places.current
  obtain ⟨desc, one, room, small⟩ := laid.chunk_of_used got
  cases chunks with
  | nil => cases one
  | cons head rest =>
    cases one
    exact ⟨_, rest, rfl, small, Nat.le_trans fits room⟩

theorem few_buffers : plan.buffers.length + 1 < 2 ^ 32 := by
  obtain ⟨desc, _, _, small, large⟩ := laid.primary
  exact few_of_payloadStart (Nat.lt_of_le_of_lt large small)

/-- Where a buffer lies: inside its chunk, and behind the tables in the primary. -/
theorem buffer_within (in_ : placed ∈ places.zip plan.buffers) :
    ∃ desc, chunks[placed.1.1]? = some desc ∧ placed.1.2 + placed.2.length ≤ desc.len ∧ desc.len < 2 ^ 32 ∧
      (placed.1.1 = 0 → payloadStart plan.nodes.length plan.buffers.length ≤ placed.1.2) := by
  obtain ⟨-, behind, used, got, fits⟩ := laid.places.inside placed in_
  obtain ⟨desc, chunk, room, small⟩ := laid.chunk_of_used got
  exact ⟨desc, chunk, Nat.le_trans fits room, small, behind⟩

theorem index_small (in_ : placed ∈ places.zip plan.buffers) : placed.1.1 < 2 ^ 32 := by
  obtain ⟨desc, chunk, -⟩ := laid.buffer_within in_
  have index : placed.1.1 < chunks.length := (List.getElem?_eq_some_iff.mp chunk).1
  have few := laid.places.few
  have several := laid.few_buffers
  rw [← laid.grants.length, List.length_nil] at few
  omega

theorem cut_places : places.map cut = places := by
  apply map_cut laid.places.length
  intro placed in_
  obtain ⟨desc, -, fits, small, -⟩ := laid.buffer_within in_
  exact ⟨laid.index_small in_, by omega⟩

theorem chunks_apart {first second : Nat} (differ : first ≠ second)
    (at1 : chunks[first]? = some one) (at2 : chunks[second]? = some two) :
    Apart (one.offset, one.len) (two.offset, two.len) := by
  obtain ⟨in1, rfl⟩ := List.getElem?_eq_some_iff.mp at1
  obtain ⟨in2, rfl⟩ := List.getElem?_eq_some_iff.mp at2
  have ne := List.pairwise_iff_getElem.mp laid.grants.apart
  rcases Nat.lt_or_gt_of_ne differ with less | more
  · exact ne first second in1 in2 less
  · exact (ne second first in2 in1 more).symm

end Laid

theorem baseOf_eq (got : chunks[index]? = some desc) : baseOf chunks index = desc.offset := by
  simp [baseOf, List.getD_eq_getElem?_getD, got]

namespace Laid

variable {places : List (Nat × Nat)} (laid : Laid plan header places chunkUsed chunks)

include laid

/-- The copies of the buffers. -/
theorem buffers_apart : (List.zipWith (fun loc buffer => (baseOf chunks loc.1 + loc.2, buffer)) places
    plan.buffers).Pairwise fun first second => Apart (extent first) (extent second) := by
  rw [← List.map_uncurry_zip_eq_zipWith, List.pairwise_map]
  refine laid.places.ordered.imp_of_mem fun {first second} in1 in2 old => ?_
  obtain ⟨one, at1, fits1, -⟩ := laid.buffer_within in1
  obtain ⟨two, at2, fits2, -⟩ := laid.buffer_within in2
  simp only [Function.uncurry_def, extent, baseOf_eq at1, baseOf_eq at2, Apart]
  by_cases same : first.1.1 = second.1.1
  · have ordered := old same
    rw [same, at2] at at1
    cases at1
    omega
  · have ne := laid.chunks_apart same at1 at2
    simp only [Apart] at ne
    omega

/-- A copy into the tables does not touch a buffer. -/
theorem table_apart {write : Nat × Bytes} (in_ : placed ∈ places.zip plan.buffers) (low : baseOf chunks 0 ≤ write.1)
    (high : write.1 + write.2.length ≤ baseOf chunks 0 + payloadStart plan.nodes.length plan.buffers.length) :
    Apart (extent write) (extent (baseOf chunks placed.1.1 + placed.1.2, placed.2)) := by
  obtain ⟨primary, rest, rfl, -, tables⟩ := laid.primary
  obtain ⟨desc, chunk, fits, -, behind⟩ := laid.buffer_within in_
  have one : (primary :: rest)[0]? = some primary := rfl
  rw [baseOf_eq one] at low high
  simp only [extent, baseOf_eq chunk, Apart]
  by_cases same : placed.1.1 = 0
  · have beyond := behind same
    rw [same, one] at chunk
    cases chunk
    omega
  · have ne := laid.chunks_apart same chunk one
    simp only [Apart] at ne
    omega

theorem entry_holds (in_ : entry ∈ List.zipWith bufferEntry places plan.buffers) :
    BufferEntry.pod.Holds entry ∧ ∃ desc, chunks[entry.chunkIndex]? = some desc ∧
      entry.offset + entry.len ≤ desc.len := by
  rw [← List.map_uncurry_zip_eq_zipWith] at in_
  obtain ⟨placed, inside, rfl⟩ := List.mem_map.mp in_
  obtain ⟨desc, chunk, fits, small, -⟩ := laid.buffer_within inside
  have index : placed.1.1 < 2 ^ 32 := laid.index_small inside
  have length : placed.2.length % 2 ^ 32 = placed.2.length := Nat.mod_eq_of_lt (by omega)
  refine ⟨.cons index (.cons ?_ (.cons ?_ .nil)), desc, chunk, ?_⟩
  · show placed.1.2 < 2 ^ 32
    omega
  · show placed.2.length % 2 ^ 32 < 2 ^ 32
    exact Nat.mod_lt _ (by decide)
  · show placed.1.2 + placed.2.length % 2 ^ 32 ≤ desc.len
    rw [length]
    exact fits

/-- No two copies of the write overlap. -/
theorem writes_apart : (batchWrites header plan places chunks).Pairwise
    fun one two => Apart (extent one) (extent two) := by
  have tables := tables_le_payloadStart plan.nodes.length plan.buffers.length
  have headerLength := Pod.length_write laid.stamped
  have entries (entry : BufferEntry) (in_ : entry ∈ List.zipWith bufferEntry places plan.buffers) :
      BufferEntry.pod.Holds entry := (laid.entry_holds in_).1
  have entryCount : (List.zipWith bufferEntry places plan.buffers).length = plan.buffers.length := by
    simp [laid.places.length]
  have buffer {write : Nat × Bytes} (in_ : write ∈ List.zipWith (fun loc buffer =>
      (baseOf chunks loc.1 + loc.2, buffer)) places plan.buffers) {table : Nat × Bytes}
      (low : baseOf chunks 0 ≤ table.1) (high : table.1 + table.2.length ≤
        baseOf chunks 0 + payloadStart plan.nodes.length plan.buffers.length) :
      Apart (extent table) (extent write) := by
    rw [← List.map_uncurry_zip_eq_zipWith] at in_
    obtain ⟨placed, inside, rfl⟩ := List.mem_map.mp in_
    exact laid.table_apart inside low high
  -- The header, the nodes, the entries and the buffers, each before the next.
  refine List.pairwise_cons.mpr ⟨fun write in_ => ?_, List.pairwise_append.mpr
    ⟨tableWrites_apart laid.nodes, List.pairwise_append.mpr ⟨tableWrites_apart entries, laid.buffers_apart, ?_⟩, ?_⟩⟩
  · rcases List.mem_append.mp in_ with node | in_
    · have within := tableWrites_within laid.nodes node
      exact .inl (by simpa [extent, headerLength, nodesOffset] using within.1)
    rcases List.mem_append.mp in_ with entry | placed
    · have within := tableWrites_within entries entry
      exact .inl (by simp only [extent, headerLength]; simp only [buffersOffset, nodesOffset] at within; omega)
    · refine buffer placed (Nat.le_refl _) ?_
      simp only [headerLength]
      simp only [buffersOffset, nodesOffset] at tables
      omega
  · intro entry inEntries placed inPlaced
    have within := tableWrites_within entries inEntries
    rw [entryCount] at within
    exact buffer inPlaced (by omega) (by omega)
  · intro node inNodes write in_
    have within := tableWrites_within laid.nodes inNodes
    rcases List.mem_append.mp in_ with entry | placed
    · have behind := tableWrites_within entries entry
      exact .inl (by simp only [extent]; simp only [buffersOffset] at behind; omega)
    · refine buffer placed (by omega) ?_
      simp only [buffersOffset] at tables
      omega

section

/-- Every copy stands in the memory written. -/
theorem stands (in_ : write ∈ batchWrites header plan places chunks) :
    Lib.slice (overwriteAll mem (batchWrites header plan places chunks)) write.1 write.2.length = write.2 :=
  slice_overwriteAll laid.writes_apart in_

theorem checkExtents_ok : checkExtents (chunks.map ChunkDesc.len) (List.zipWith bufferEntry places plan.buffers) =
    .ok () := by
  suffices each : ∀ entries : List BufferEntry, (∀ entry ∈ entries, ∃ desc, chunks[entry.chunkIndex]? = some desc ∧
      entry.offset + entry.len ≤ desc.len) → checkExtents (chunks.map ChunkDesc.len) entries = .ok () from
    each _ fun entry in_ => (laid.entry_holds in_).2
  intro entries within
  induction entries with
  | nil => rfl
  | cons entry rest ih =>
    obtain ⟨desc, got, fits⟩ := within entry List.mem_cons_self
    simp only [checkExtents, List.getElem?_map, got, Option.map_some]
    rw [if_neg (Nat.not_lt_of_le fits)]
    exact ih fun other in_ => within other (List.mem_cons_of_mem _ in_)

variable (mem) in
/-- The header and the tables are read as they were written. -/
theorem readBatchLayout_ok (cons : chunks = one :: rest)
    (magic : header.magic = BATCH_MAGIC) (format : header.format = BATCH_FORMAT)
    (chunkCount : header.chunkCount = chunks.length) (nodeCount : header.nodeCount = plan.nodes.length)
    (bufferCount : header.bufferCount = plan.buffers.length) :
    readBatchLayout (Lib.slice (overwriteAll mem (batchWrites header plan places chunks)) one.offset one.len)
      (chunks.map ChunkDesc.len) = .ok (header, plan.nodes, List.zipWith bufferEntry places plan.buffers) := by
  obtain ⟨primary, others, listed, -, large⟩ := laid.primary
  obtain rfl : primary = one := by
    rw [cons] at listed
    exact (List.cons.inj listed).1.symm
  have base : baseOf chunks 0 = primary.offset := baseOf_eq (by rw [cons]; rfl)
  have tables := tables_le_payloadStart plan.nodes.length plan.buffers.length
  have headerSize : BatchHeader.pod.size ≤ primary.len := by
    have behind : BatchHeader.pod.size ≤ buffersOffset plan.nodes.length := Nat.le_add_right ..
    omega
  generalize written : overwriteAll mem (batchWrites header plan places chunks) = new
  have stands {write : Nat × Bytes} (in_ : write ∈ batchWrites header plan places chunks) :
      Lib.slice new write.1 write.2.length = write.2 := written ▸ laid.stands in_
  have readHeader : BatchHeader.pod.read ((Lib.slice new primary.offset primary.len).take BatchHeader.pod.size) =
      header := by
    have here := stands List.mem_cons_self
    rw [base, Pod.length_write laid.stamped] at here
    have front : ((Lib.slice new primary.offset primary.len).drop 0).take BatchHeader.pod.size = _ :=
      take_drop_slice (by simpa using headerSize)
    rw [List.drop_zero, Nat.add_zero] at front
    rw [front, here, Pod.read_write laid.stamped rfl]
  have readNodes : readTable NodeEntry.pod (Lib.slice new primary.offset primary.len) nodesOffset
      plan.nodes.length = plan.nodes := by
    refine readTable_eq (fun _ _ => rfl) laid.nodes ?_ fun write in_ => stands ?_
    · exact Nat.le_trans (Nat.le_trans (Nat.le_add_right ..) tables) large
    · rw [← base] at in_
      exact List.mem_cons_of_mem _ (List.mem_append_left _ in_)
  have readEntries : readTable BufferEntry.pod (Lib.slice new primary.offset primary.len)
      (buffersOffset plan.nodes.length) plan.buffers.length = List.zipWith bufferEntry places plan.buffers := by
    have count : (List.zipWith bufferEntry places plan.buffers).length = plan.buffers.length := by
      simp [laid.places.length]
    rw [← count]
    refine readTable_eq (fun _ _ => rfl) (fun _ in_ => (laid.entry_holds in_).1) ?_ fun write in_ => stands ?_
    · rw [count]
      exact Nat.le_trans tables large
    · rw [← base] at in_
      exact List.mem_cons_of_mem _ (List.mem_append_right _ (List.mem_append_left _ in_))
  unfold readBatchLayout
  rw [length_slice, if_neg (Nat.not_lt_of_le headerSize)]
  simp only [readHeader]
  rw [if_neg (by simp [magic, format]), if_neg (by simp [chunkCount]), nodeCount, bufferCount,
    if_neg (Nat.not_lt_of_le (Nat.le_trans tables large)), readNodes, readEntries, laid.checkExtents_ok]
  rfl

/-- And so is each buffer. -/
theorem makeBuffer_ok (got : plan.buffers[index]? = some buffer) :
    makeBuffer (overwriteAll mem (batchWrites header plan places chunks)) chunks
      (List.zipWith bufferEntry places plan.buffers) index = .ok buffer := by
  obtain ⟨inside, rfl⟩ := List.getElem?_eq_some_iff.mp got
  have placedAt : index < places.length := laid.places.length ▸ inside
  have in_ : (places[index], plan.buffers[index]) ∈ places.zip plan.buffers := by
    have both : index < (places.zip plan.buffers).length := by simp [placedAt, inside]
    have pair : (places.zip plan.buffers)[index] = (places[index], plan.buffers[index]) := List.getElem_zip
    exact pair ▸ List.getElem_mem both
  obtain ⟨desc, -, fits, small, -⟩ := laid.buffer_within in_
  have short : places[index].2 + plan.buffers[index].length ≤ desc.len := fits
  have length : plan.buffers[index].length % 2 ^ 32 = plan.buffers[index].length := Nat.mod_eq_of_lt (by omega)
  have copied : (baseOf chunks places[index].1 + places[index].2, plan.buffers[index]) ∈
      batchWrites header plan places chunks := by
    refine List.mem_cons_of_mem _ (List.mem_append_right _ (List.mem_append_right _ ?_))
    rw [← List.map_uncurry_zip_eq_zipWith]
    exact List.mem_map.mpr ⟨_, in_, rfl⟩
  have entry : (List.zipWith bufferEntry places plan.buffers)[index]? =
      some (bufferEntry places[index] plan.buffers[index]) := by
    simp [placedAt, inside]
  simp only [makeBuffer, entry, bufferEntry, length]
  exact congrArg Except.ok (laid.stands copied)

end

end Laid

end ShmActors.Arrow
