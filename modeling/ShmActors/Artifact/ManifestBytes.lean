import ShmActors.Arrow.Codec

/-! The manifest's bytes: `write_manifest` and `parse_manifest_bytes` of
`shm-artifact/src/manifest.rs`, down to the header and the three tables behind it. -/

namespace ShmActors.Artifact

open Lib Core
open Arrow (Pod readTable)

/-- `b"SHMMFST5"`. -/
def MANIFEST_MAGIC : Nat := readLE [0x53, 0x48, 0x4D, 0x4D, 0x46, 0x53, 0x54, 0x35]

/-- `ChunkDesc` with its `_pad`. -/
structure RawDesc where
  desc : ChunkDesc
  pad : Nat
  deriving DecidableEq, Repr

/-- `KeptMember` with its `_pad`. -/
structure RawMember where
  member : KeptMember
  pad : Nat
  deriving DecidableEq, Repr

structure ManifestHeader where
  magic : Nat
  version : Nat
  artifactId : Nat
  schemaId : Nat
  chunkCount : Nat
  batchCount : Nat
  prevVersion : Nat
  prevRef : Nat
  prevGen : Nat
  depth : Nat
  totalBatches : Nat
  keptCount : Nat
  deriving DecidableEq, Repr

def RawDesc.pod : Pod RawDesc where
  widths := [4, 4, 4, 4, 4, 4]
  fields raw := [raw.desc.segmentId, raw.desc.generation, raw.desc.offset, raw.desc.len, raw.desc.schemaId, raw.pad]
  ofFields fields := ⟨⟨fields.getD 0 0, fields.getD 1 0, fields.getD 2 0, fields.getD 3 0, fields.getD 4 0⟩,
    fields.getD 5 0⟩

def RawMember.pod : Pod RawMember where
  widths := [8, 4, 4]
  fields raw := [raw.member.version, raw.member.batches, raw.pad]
  ofFields fields := ⟨⟨fields.getD 0 0, fields.getD 1 0⟩, fields.getD 2 0⟩

/-- A span, one `u32`. -/
def spanPod : Pod Nat where
  widths := [4]
  fields span := [span]
  ofFields fields := fields.getD 0 0

def ManifestHeader.pod : Pod ManifestHeader where
  widths := [8, 8, 4, 4, 4, 4, 8, 8, 4, 4, 4, 4]
  fields header := [header.magic, header.version, header.artifactId, header.schemaId, header.chunkCount,
    header.batchCount, header.prevVersion, header.prevRef, header.prevGen, header.depth, header.totalBatches,
    header.keptCount]
  ofFields fields := ⟨fields.getD 0 0, fields.getD 1 0, fields.getD 2 0, fields.getD 3 0, fields.getD 4 0,
    fields.getD 5 0, fields.getD 6 0, fields.getD 7 0, fields.getD 8 0, fields.getD 9 0, fields.getD 10 0,
    fields.getD 11 0⟩

/-- `to_bits`: the segment in the upper half of the word, the offset in the lower. -/
def PackedRef.toBits (ref : PackedRef) : Nat := ref.segmentId * 2 ^ 32 + ref.offset

def PackedRef.ofBits (bits : Nat) : PackedRef := ⟨bits / 2 ^ 32 % 2 ^ 32, bits % 2 ^ 32⟩

def chunksOffset : Nat := ManifestHeader.pod.size

def spansOffset (chunkCount : Nat) : Nat := chunksOffset + chunkCount * RawDesc.pod.size

def keptOffset (chunkCount batchCount : Nat) : Nat := spansOffset chunkCount + batchCount * spanPod.size

section

/-- The arguments of `write_manifest`. -/
structure ManifestArgs where
  artifactId : Nat
  version : Nat
  schemaId : Nat
  chunks : List RawDesc
  batchSpans : List Nat
  prev : Option ManifestLink
  window : Option (Nat × List RawMember)

def ManifestArgs.kept (args : ManifestArgs) : List RawMember := (args.window.getD (0, [])).2

def ManifestArgs.record (args : ManifestArgs) : Except Error VersionManifest :=
  manifestRecord args.artifactId args.version args.schemaId (args.chunks.map RawDesc.desc) args.batchSpans args.prev
    (args.window.map fun window => (window.1, window.2.map RawMember.member))

def headerOf (record : VersionManifest) : ManifestHeader where
  magic := MANIFEST_MAGIC
  version := record.version
  artifactId := record.artifactId
  schemaId := record.schemaId
  chunkCount := record.chunks.length
  batchCount := record.batchSpans.length
  prevVersion := record.prevVersion
  prevRef := record.prevRef.toBits
  prevGen := record.prevGen
  depth := record.depth
  totalBatches := record.totalBatches
  keptCount := record.kept.length

/-- What is copied to the start of the chunk. -/
def ManifestArgs.bytes (args : ManifestArgs) (record : VersionManifest) : Bytes :=
  ManifestHeader.pod.write (headerOf record) ++ (args.chunks.flatMap RawDesc.pod.write ++
    (args.batchSpans.flatMap spanPod.write ++
      args.kept.flatMap fun raw => RawMember.pod.write { raw with pad := 0 }))

/-- `write_manifest`: the bytes of the chunk after it. `alloc` returns those of a
chunk of the length asked for. -/
def writeManifestBytes (alloc : Nat → Except Error Bytes) (args : ManifestArgs) : Except Error Bytes := do
  let record ← args.record
  -- the rest of `window_ok`, which comes last
  if args.prev.isNone ∧ args.kept.any fun raw => raw.pad ≠ 0 then
    .error (.unsupported "malformed window members")
  else do
    let total := manifestLen args.chunks.length args.batchSpans.length args.kept.length
    let chunk ← alloc total
    if chunk.length < total then .error (.arrow (.chunkTooSmall total chunk.length))
    else .ok (args.bytes record ++ chunk.drop total)

end

section

/-- What the parser returns: the manifest, and the `_pad`s of its chunks. -/
structure ParsedManifest extends Manifest where
  pads : List Nat
  deriving DecidableEq, Repr

def ManifestHeader.record (header : ManifestHeader) (chunks : List RawDesc) (batchSpans : List Nat)
    (kept : List RawMember) : VersionManifest where
  version := header.version
  artifactId := header.artifactId
  schemaId := header.schemaId
  prevVersion := header.prevVersion
  prevRef := .ofBits header.prevRef
  prevGen := header.prevGen
  depth := header.depth
  totalBatches := header.totalBatches
  chunks := chunks.map RawDesc.desc
  batchSpans := batchSpans
  kept := kept.map RawMember.member

/-- `parse_manifest_bytes`. All its checks behind the magic fail with `VersionGone`,
so the extent and the pads are checked first here. -/
def parseManifestBytes (bytes : Bytes) : Except Error ParsedManifest :=
  if bytes.length < ManifestHeader.pod.size then .error .versionGone
  else
    let header := ManifestHeader.pod.read (bytes.take ManifestHeader.pod.size)
    if header.magic ≠ MANIFEST_MAGIC then .error .badMagic
    else if bytes.length < manifestLen header.chunkCount header.batchCount header.keptCount then .error .versionGone
    else
      let chunks := readTable RawDesc.pod bytes chunksOffset header.chunkCount
      let batchSpans := readTable spanPod bytes (spansOffset header.chunkCount) header.batchCount
      let kept := readTable RawMember.pod bytes (keptOffset header.chunkCount header.batchCount) header.keptCount
      if kept.any fun raw => raw.pad ≠ 0 then .error .versionGone
      else do
        let manifest ← parseManifest (header.record chunks batchSpans kept)
        return { toManifest := manifest, pads := chunks.map RawDesc.pad }

end

section

variable {pod : Pod Record} {records : List Record}

theorem readTable_succ (bytes : Bytes) (start count : Nat) :
    readTable pod bytes start (count + 1) =
      pod.read ((bytes.drop start).take pod.size) :: readTable pod bytes (start + pod.size) count := by
  simp only [readTable, List.range_succ_eq_map, List.map_cons, List.map_map, Nat.zero_mul, Nat.add_zero]
  congr 1
  apply List.map_congr_left
  intro index _
  simp only [Function.comp_apply, Nat.succ_eq_add_one, Nat.add_mul, Nat.one_mul]
  rw [Nat.add_assoc, Nat.add_comm pod.size]

theorem length_flatMap_write (holds : ∀ record ∈ records, pod.Holds record) :
    (records.flatMap pod.write).length = records.length * pod.size := by
  induction records with
  | nil => simp
  | cons record rest ih =>
    obtain ⟨one, later⟩ := List.forall_mem_cons.mp holds
    rw [List.flatMap_cons, List.length_append, Pod.length_write one, ih later, List.length_cons, Nat.add_mul,
      Nat.one_mul, Nat.add_comm]

/-- A table reads back from between whatever stands before and after it. -/
theorem readTable_write (old new : Bytes) (holds : ∀ record ∈ records, pod.Holds record)
    (same : ∀ record ∈ records, pod.ofFields (pod.fields record) = record) :
    readTable pod (old ++ (records.flatMap pod.write ++ new)) old.length records.length = records := by
  induction records generalizing old with
  | nil => rfl
  | cons record rest ih =>
    obtain ⟨one, later⟩ := List.forall_mem_cons.mp holds
    obtain ⟨same, others⟩ := List.forall_mem_cons.mp same
    have size := Pod.length_write one
    rw [List.length_cons, readTable_succ, List.drop_left, List.flatMap_cons, List.append_assoc,
      List.take_left' size, Pod.read_write one same]
    have rest := ih (old ++ pod.write record) later others
    rw [List.append_assoc, List.length_append, size] at rest
    rw [rest]

end

section

theorem PackedRef.ofBits_toBits (segment : ref.segmentId < 2 ^ 32) (offset : ref.offset < 2 ^ 32) :
    PackedRef.ofBits ref.toBits = ref := by
  have upper : (ref.segmentId * 2 ^ 32 + ref.offset) / 2 ^ 32 % 2 ^ 32 = ref.segmentId := by omega
  have lower : (ref.segmentId * 2 ^ 32 + ref.offset) % 2 ^ 32 = ref.offset := by omega
  rw [ofBits, toBits, upper, lower]

/-- The arguments are of their types: `u32`, and `u64` for versions. -/
structure ManifestArgs.Typed (args : ManifestArgs) : Prop where
  artifactId : args.artifactId < 2 ^ 32
  version : args.version < 2 ^ 64
  schemaId : args.schemaId < 2 ^ 32
  chunks : ∀ raw ∈ args.chunks, RawDesc.pod.Holds raw
  batchSpans : ∀ span ∈ args.batchSpans, spanPod.Holds span
  prev : ∀ link ∈ args.prev, link.mref.segmentId < 2 ^ 32 ∧ link.mref.offset < 2 ^ 32 ∧ link.generation < 2 ^ 32
  kept : ∀ raw ∈ args.kept, RawMember.pod.Holds raw

/-- The manifest parsed is the one written. -/
structure ParsedManifest.Matches (parsed : ParsedManifest) (args : ManifestArgs) : Prop where
  artifactId : parsed.artifactId = args.artifactId
  version : parsed.version = args.version
  schemaId : parsed.schemaId = args.schemaId
  chunks : parsed.chunks = args.chunks.map RawDesc.desc
  pads : parsed.pads = args.chunks.map RawDesc.pad
  batchSpans : parsed.batchSpans = args.batchSpans
  prev : parsed.prev = args.prev
  windowBase : parsed.windowBase = (args.window.getD (0, [])).1
  kept : parsed.kept = args.kept.map RawMember.member
  depth : parsed.depth = args.prev.elim 0 fun link => link.depth + 1
  totalBatches : parsed.totalBatches = args.prev.elim 0 ManifestLink.totalBatches + args.batchSpans.length

variable {args : ManifestArgs} {record : VersionManifest}

/-- What every record made holds, whatever its kind. -/
structure VersionManifest.Of (record : VersionManifest) (args : ManifestArgs) : Prop where
  version : record.version = args.version
  artifactId : record.artifactId = args.artifactId
  schemaId : record.schemaId = args.schemaId
  chunks : record.chunks = args.chunks.map RawDesc.desc
  batchSpans : record.batchSpans = args.batchSpans
  kept : record.kept = args.kept.map RawMember.member
  counts : args.chunks.length < 2 ^ 32 ∧ args.batchSpans.length < 2 ^ 32 ∧ args.kept.length < 2 ^ 32
  bare : args.prev.isSome = true → args.kept = []

theorem ManifestArgs.kept_eq (args : ManifestArgs) :
    ((args.window.map fun window => (window.1, window.2.map RawMember.member)).getD (0, [])).2 =
      args.kept.map RawMember.member := by
  unfold ManifestArgs.kept
  cases args.window <;> rfl

theorem ManifestArgs.base_eq (args : ManifestArgs) :
    ((args.window.map fun window => (window.1, window.2.map RawMember.member)).getD (0, [])).1 =
      (args.window.getD (0, [])).1 := by
  cases args.window <;> rfl

/-- A record that is made parses as what it was made from. -/
theorem parse_record (few : args.prev.elim 0 ManifestLink.totalBatches + args.batchSpans.length < 2 ^ 32)
    (made : args.record = .ok record) :
    record.Of args ∧ record.prevVersion < record.version ∧ record.depth < 2 ^ 32 ∧ record.totalBatches < 2 ^ 32 ∧
      (record.prevRef = .zero ∧ record.prevGen = 0 ∨
        ∃ link ∈ args.prev, record.prevRef = link.mref ∧ record.prevGen = link.generation) ∧
      ∃ manifest, parseManifest record = .ok manifest ∧
        (ParsedManifest.mk manifest (args.chunks.map RawDesc.pad)).Matches args := by
  unfold ManifestArgs.record manifestRecord at made
  simp only [args.kept_eq, args.base_eq, List.length_map] at made
  obtain ⟨chunks, made⟩ := guard_eq_ok.mp made
  obtain ⟨batches, made⟩ := guard_eq_ok.mp made
  obtain ⟨members, made⟩ := guard_eq_ok.mp made
  cases prev : args.prev with
  | some link =>
    simp only [prev] at made few
    obtain ⟨older, made⟩ := guard_eq_ok.mp made
    obtain ⟨alone, made⟩ := guard_eq_ok.mp made
    obtain ⟨shallow, made⟩ := guard_eq_ok.mp made
    have window : args.window = none := by simpa using alone
    have kept : args.kept = [] := by simp [ManifestArgs.kept, window]
    cases made
    simp only [Option.elim_some] at few
    refine ⟨⟨rfl, rfl, rfl, rfl, rfl, rfl, by omega, fun _ => kept⟩, by simp only; omega, by simp only; omega,
      by simp only; omega, .inr ⟨link, rfl, rfl, rfl⟩, ?_⟩
    have linked : link.mref ≠ .zero := by tauto
    have total : min (args.batchSpans.length + link.totalBatches) (2 ^ 32 - 1) =
        link.totalBatches + args.batchSpans.length := by omega
    refine ⟨_, (if_neg ?_).trans (if_neg fun root => linked root.1), ?_⟩
    · simp only [linked, kept, total, List.map_nil]
      simp
      omega
    · refine ⟨rfl, rfl, rfl, rfl, rfl, rfl, ?_, ?_, by simp [kept], by simp [prev], ?_⟩
      · simp only [if_neg linked, prev, total, Nat.add_sub_cancel]
      · simp [linked, window]
      · rw [prev]
        exact total
  | none =>
    simp only [prev] at made few
    obtain ⟨ok, made⟩ := guard_eq_ok.mp made
    have ok : windowOk args.version (args.window.getD (0, [])).1 (args.kept.map RawMember.member)
        args.batchSpans.length = true := by simpa using ok
    have older : (args.window.getD (0, [])).1 < args.version := by
      unfold windowOk at ok
      by_contra late
      rw [if_pos (Nat.le_of_not_lt late)] at ok
      cases ok
    cases made
    refine ⟨⟨rfl, rfl, rfl, rfl, rfl, rfl, by omega, by simp [prev]⟩, older, by simp only; omega, by simp only; omega,
      .inl ⟨rfl, rfl⟩, ?_⟩
    refine ⟨_, (if_neg ?_).trans (if_neg fun root => root.2 ok), ?_⟩
    · simpa using older
    · exact ⟨rfl, rfl, rfl, rfl, rfl, rfl, by simp [prev], by simp, rfl, by simp [prev], by simp [prev]⟩

/-- The header and the tables of what is written. -/
theorem typed_header (typed : args.Typed)
    (few : args.prev.elim 0 ManifestLink.totalBatches + args.batchSpans.length < 2 ^ 32)
    (made : args.record = .ok record) : ManifestHeader.pod.Holds (headerOf record) := by
  obtain ⟨of, older, depth, total, link, -⟩ := parse_record few made
  have version := typed.version
  have artifactId := typed.artifactId
  have schemaId := typed.schemaId
  have counts := of.counts
  rw [← of.version] at version
  rw [← of.artifactId] at artifactId
  rw [← of.schemaId] at schemaId
  have refs : record.prevRef.toBits < 2 ^ 64 ∧ record.prevGen < 2 ^ 32 := by
    rcases link with ⟨ref, gen⟩ | ⟨link, in_, ref, gen⟩
    · rw [ref, gen]
      decide
    · obtain ⟨segment, offset, generation⟩ := typed.prev link in_
      rw [ref, gen]
      exact ⟨by unfold PackedRef.toBits; omega, generation⟩
  have chunks : record.chunks.length < 2 ^ 32 := by rw [of.chunks, List.length_map]; exact counts.1
  have batches : record.batchSpans.length < 2 ^ 32 := by rw [of.batchSpans]; exact counts.2.1
  have members : record.kept.length < 2 ^ 32 := by rw [of.kept, List.length_map]; exact counts.2.2
  have prevVersion : record.prevVersion < 2 ^ 64 := Nat.lt_trans older version
  exact .cons (show MANIFEST_MAGIC < 256 ^ 8 by decide)
    (.cons version (.cons artifactId (.cons schemaId (.cons chunks (.cons batches
    (.cons prevVersion (.cons refs.1 (.cons refs.2 (.cons depth (.cons total (.cons members .nil)))))))))))

theorem ManifestHeader.ofFields_fields (header : ManifestHeader) : pod.ofFields (pod.fields header) = header := rfl

theorem headerOf_magic (record : VersionManifest) : (headerOf record).magic = MANIFEST_MAGIC := rfl

/-- The parser on bytes whose parts are known. -/
theorem parseManifestBytes_eq (read : ManifestHeader.pod.read (bytes.take ManifestHeader.pod.size) = header)
    (magic : header.magic = MANIFEST_MAGIC)
    (extent : manifestLen header.chunkCount header.batchCount header.keptCount ≤ bytes.length)
    (descs : readTable RawDesc.pod bytes chunksOffset header.chunkCount = chunks)
    (lengths : readTable spanPod bytes (spansOffset header.chunkCount) header.batchCount = spans)
    (members : readTable RawMember.pod bytes (keptOffset header.chunkCount header.batchCount) header.keptCount = kept)
    (unpadded : ∀ raw ∈ kept, raw.pad = 0) : parseManifestBytes bytes = (do
      let manifest ← parseManifest (header.record chunks spans kept)
      return { toManifest := manifest, pads := chunks.map RawDesc.pad }) := by
  subst read descs lengths members
  have long : ManifestHeader.pod.size ≤ bytes.length := by
    refine Nat.le_trans ?_ extent
    rw [manifestLen, Nat.add_assoc, Nat.add_assoc]
    exact Nat.le_add_right ..
  unfold parseManifestBytes
  rw [if_neg (Nat.not_lt.mpr long)]
  dsimp only
  rw [if_neg (not_not_intro magic), if_neg (Nat.not_lt.mpr extent), if_neg (by simpa using unpadded)]

/-- What is written parses as what was to be written, whatever the chunk holds
behind it. -/
theorem parse_written {alloc : Nat → Except Error Bytes} {written : Bytes} (typed : args.Typed)
    (few : args.prev.elim 0 ManifestLink.totalBatches + args.batchSpans.length < 2 ^ 32)
    (wrote : writeManifestBytes alloc args = .ok written) :
    ∃ parsed, parseManifestBytes written = .ok parsed ∧ parsed.Matches args := by
  obtain ⟨record, made, wrote⟩ := bind_eq_ok.mp wrote
  obtain ⟨of, -, -, -, link, manifest, parsed, agrees⟩ := parse_record few made
  obtain ⟨padded, wrote⟩ := guard_eq_ok.mp wrote
  obtain ⟨chunk, -, wrote⟩ := bind_eq_ok.mp wrote
  obtain ⟨-, wrote⟩ := guard_eq_ok.mp wrote
  cases wrote
  have unpadded : ∀ raw ∈ args.kept, raw.pad = 0 := by
    intro raw member
    by_contra set
    cases prev : args.prev with
    | none => exact padded ⟨by simp [prev], by simpa using ⟨raw, member, set⟩⟩
    | some link =>
      rw [of.bare (by simp [prev])] at member
      cases member
  have zeroed : (args.kept.flatMap fun raw => RawMember.pod.write { raw with pad := 0 }) =
      args.kept.flatMap RawMember.pod.write :=
    List.flatMap_congr fun raw member => by rw [← unpadded raw member]
  have header := typed_header typed few made
  have size : (ManifestHeader.pod.write (headerOf record)).length = chunksOffset := Pod.length_write header
  have chunks := length_flatMap_write typed.chunks
  have spans := length_flatMap_write typed.batchSpans
  have kept := length_flatMap_write typed.kept
  have counts : (headerOf record).chunkCount = args.chunks.length ∧
      (headerOf record).batchCount = args.batchSpans.length ∧ (headerOf record).keptCount = args.kept.length := by
    simp [headerOf, of.chunks, of.batchSpans, of.kept]
  have ref : PackedRef.ofBits record.prevRef.toBits = record.prevRef := by
    rcases link with ⟨root, -⟩ | ⟨link, member, ref, -⟩
    · rw [root]
      rfl
    · rw [ref]
      exact PackedRef.ofBits_toBits (typed.prev link member).1 (typed.prev link member).2.1
  have same : (headerOf record).record args.chunks args.batchSpans args.kept = record := by
    simp [ManifestHeader.record, headerOf, ref, ← of.chunks, ← of.batchSpans, ← of.kept]
  have total : manifestLen args.chunks.length args.batchSpans.length args.kept.length ≤ (args.bytes record).length := by
    rw [ManifestArgs.bytes, zeroed]
    simp only [List.length_append, size, chunks, spans, kept]
    exact Nat.le_of_eq (by rw [manifestLen, Nat.add_assoc, Nat.add_assoc]; rfl)
  generalize chunk.drop _ = behind
  have laid : args.bytes record ++ behind = ManifestHeader.pod.write (headerOf record) ++
      (args.chunks.flatMap RawDesc.pod.write ++ (args.batchSpans.flatMap spanPod.write ++
        (args.kept.flatMap RawMember.pod.write ++ behind))) := by
    simp [ManifestArgs.bytes, zeroed]
  have read : ManifestHeader.pod.read ((args.bytes record ++ behind).take ManifestHeader.pod.size) =
      headerOf record := by
    rw [laid, List.take_left' (Pod.length_write header)]
    exact Pod.read_write header (ManifestHeader.ofFields_fields _)
  have extent : manifestLen (headerOf record).chunkCount (headerOf record).batchCount (headerOf record).keptCount ≤
      (args.bytes record ++ behind).length := by
    rw [counts.1, counts.2.1, counts.2.2, List.length_append]
    exact Nat.le_add_right_of_le total
  have descs : readTable RawDesc.pod (args.bytes record ++ behind) chunksOffset (headerOf record).chunkCount =
      args.chunks := by
    rw [laid, counts.1, ← size]
    exact readTable_write _ _ typed.chunks fun _ _ => rfl
  have lengths : readTable spanPod (args.bytes record ++ behind) (spansOffset (headerOf record).chunkCount)
      (headerOf record).batchCount = args.batchSpans := by
    rw [laid, counts.1, counts.2.1, ← List.append_assoc]
    have table := readTable_write (ManifestHeader.pod.write (headerOf record) ++
      args.chunks.flatMap RawDesc.pod.write) (args.kept.flatMap RawMember.pod.write ++ behind)
      typed.batchSpans fun _ _ => rfl
    rwa [List.length_append, size, chunks] at table
  have members : readTable RawMember.pod (args.bytes record ++ behind)
      (keptOffset (headerOf record).chunkCount (headerOf record).batchCount) (headerOf record).keptCount =
      args.kept := by
    rw [laid, counts.1, counts.2.1, counts.2.2, ← List.append_assoc, ← List.append_assoc]
    have table := readTable_write (ManifestHeader.pod.write (headerOf record) ++
      args.chunks.flatMap RawDesc.pod.write ++ args.batchSpans.flatMap spanPod.write) behind
      typed.kept fun _ _ => rfl
    rwa [List.length_append, List.length_append, size, chunks, spans] at table
  refine ⟨_, ?_, agrees⟩
  rw [parseManifestBytes_eq read (headerOf_magic record) extent descs lengths members unpadded, same, parsed]
  rfl

/-- The second version of an artifact, one batch of one chunk, linked to the first. -/
def linkedArgs : ManifestArgs where
  artifactId := 5
  version := 2
  schemaId := 9
  chunks := [⟨⟨1, 2, 64, 4096, 9⟩, 0⟩]
  batchSpans := [1]
  prev := some ⟨1, ⟨1, 128⟩, 0, 0, 4⟩
  window := none

/-- A chunk with three bytes to spare, filled with what its last user left. -/
def usedChunk (total : Nat) : Except Error Bytes := .ok (List.replicate (total + 3) 0xFF)

theorem linked_parse_written : (writeManifestBytes usedChunk linkedArgs).isOk = true ∧
    ∃ written parsed, writeManifestBytes usedChunk linkedArgs = .ok written ∧
      parseManifestBytes written = .ok parsed ∧ parsed.Matches linkedArgs := by
  have ok : (writeManifestBytes usedChunk linkedArgs).isOk = true := by decide +kernel
  obtain ⟨written, wrote⟩ := exists_of_isOk ok
  have typed : linkedArgs.Typed := by
    refine ⟨by decide, by decide, by decide, ?_, ?_, by decide, by simp [linkedArgs, ManifestArgs.kept]⟩
    · simp [linkedArgs, Pod.Holds, Fit, RawDesc.pod]
    · simp [linkedArgs, Pod.Holds, Fit, spanPod]
  obtain ⟨parsed, read, agrees⟩ := parse_written typed (by decide) wrote
  exact ⟨ok, written, parsed, wrote, read, agrees⟩

end

section

/-- The structure the layout documents. -/
structure Manifest.WellFormed (manifest : Manifest) : Prop where
  partition : manifest.batchSpans.sum = manifest.chunks.length
  root : manifest.prev = none → manifest.depth = 0 ∧ manifest.totalBatches = manifest.batchSpans.length
  linked : ∀ link ∈ manifest.prev, link.version ≠ 0 ∧ link.version < manifest.version ∧
    manifest.batchSpans.length ≤ manifest.totalBatches
  window : windowOk manifest.version manifest.windowBase manifest.kept manifest.batchSpans.length = true

/-- What the parser checks of it. -/
structure Manifest.Checked (manifest : Manifest) : Prop where
  root : manifest.prev = none → manifest.depth = 0
  linked : ∀ link ∈ manifest.prev, link.version ≠ 0 ∧ link.version < manifest.version ∧ link.mref ≠ .zero ∧
    manifest.depth = link.depth + 1 ∧ manifest.totalBatches = link.totalBatches + manifest.batchSpans.length
  total : manifest.batchSpans.length ≤ manifest.totalBatches
  window : windowOk manifest.version manifest.windowBase manifest.kept manifest.batchSpans.length = true

/-- What it does not: the sum of the spans and the total of a root. -/
def Manifest.Tallied (manifest : Manifest) : Prop :=
  manifest.batchSpans.sum = manifest.chunks.length ∧
    (manifest.prev = none → manifest.totalBatches = manifest.batchSpans.length)

theorem Manifest.Checked.wellFormed_iff (checked : Checked manifest) : manifest.WellFormed ↔ manifest.Tallied := by
  constructor
  · exact fun formed => ⟨formed.partition, fun root => (formed.root root).2⟩
  · rintro ⟨partition, total⟩
    refine ⟨partition, fun root => ⟨checked.root root, total root⟩, fun link in_ => ?_, checked.window⟩
    obtain ⟨named, older, _⟩ := checked.linked link in_
    exact ⟨named, older, checked.total⟩

theorem windowOk_plain (positive : 0 < version) : windowOk version 0 [] count = true := by
  simp [windowOk, membersOk, Nat.not_le.mpr positive]

theorem checked_of_parse (parsed : parseManifest record = .ok manifest) : manifest.Checked := by
  obtain ⟨strict, parsed⟩ := guard_eq_ok.mp parsed
  obtain ⟨window, parsed⟩ := guard_eq_ok.mp parsed
  cases parsed
  by_cases root : record.prevRef = .zero
  · simp only [root, true_and, if_true, not_true_eq_false, false_and, false_or, true_iff] at strict window ⊢
    exact ⟨fun _ => by tauto, by simp, by simp only; omega, by simpa using window⟩
  · simp only [root, false_and, if_false, not_false_eq_true, true_and, false_or, false_iff] at strict ⊢
    push Not at strict
    obtain ⟨deep, ⟨named, bare⟩, older, total⟩ := strict
    refine ⟨fun unlinked => (by cases unlinked), ?_, total, ?_⟩
    · intro link in_
      obtain rfl := Option.mem_some_iff.mp in_
      exact ⟨named, older, root, by simp only; omega, by simp only; omega⟩
    · rw [bare]
      exact windowOk_plain (by simp only; omega)

/-- A root of version 1 with one batch of one chunk. -/
def tightRoot : Bytes :=
  ManifestHeader.pod.write ⟨MANIFEST_MAGIC, 1, 0, 0, 1, 1, 0, 0, 0, 0, 1, 0⟩ ++
    (RawDesc.pod.write ⟨⟨1, 0, 64, 64, 0⟩, 0⟩ ++ spanPod.write 1)

/-- A root of version 1 with a total of 7 batches: its own one has a span of 5
chunks, and there are none. -/
def looseRoot : Bytes :=
  ManifestHeader.pod.write ⟨MANIFEST_MAGIC, 1, 0, 0, 0, 1, 0, 0, 0, 0, 7, 0⟩ ++ spanPod.write 5

end

end ShmActors.Artifact
