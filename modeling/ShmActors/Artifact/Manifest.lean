import Mathlib.Algebra.BigOperators.Group.List.Basic
import ShmActors.Core.Ctrl

/-! The manifest chunk of `shm-artifact/src/manifest.rs`: the record written into
the chunk, its parser, and the walk along the predecessor links. -/

namespace ShmActors.Artifact

open Lib Core

/-- The errors of `shm-core` that an artifact passes on. -/
inductive Fault where
  | ctrl (reason : Core.Error)
  | outOfBounds
  | poolExhausted
  | layoutOverflow (message : String)
  | journalFull
  deriving DecidableEq, Repr

/-- The errors of `shm-arrow` that an artifact passes on. -/
inductive ArrowError where
  | chunkTooSmall (need size : Nat)
  | badMagic
  | schemaMismatch (desc header : Nat)
  | layout (message : String)
  deriving DecidableEq, Repr

inductive Error where
  | core (fault : Fault)
  | arrow (reason : ArrowError)
  | badMagic
  | versionGone
  | staleManifest
  | conflict (expected actual : Nat)
  | fenced
  | stale
  | writeLocked
  | unsupported (message : String)
  deriving DecidableEq, Repr

/-- `PackedRef`: segment and offset in one word. All zero means no reference. -/
structure PackedRef where
  segmentId : Nat
  offset : Nat
  deriving DecidableEq, Repr

def PackedRef.zero : PackedRef := ⟨0, 0⟩

def PackedRef.fromDesc (desc : ChunkDesc) : PackedRef := ⟨desc.segmentId, desc.offset⟩

structure ManifestLink where
  version : Nat
  mref : PackedRef
  generation : Nat
  depth : Nat
  totalBatches : Nat
  deriving DecidableEq, Repr

structure KeptMember where
  version : Nat
  batches : Nat
  deriving DecidableEq, Repr

/-- `VersionManifest` with the three arrays that follow it in the chunk; the
counts of the header are the lengths of the arrays. -/
structure VersionManifest where
  version : Nat
  artifactId : Nat
  schemaId : Nat
  prevVersion : Nat
  prevRef : PackedRef
  prevGen : Nat
  depth : Nat
  totalBatches : Nat
  chunks : List ChunkDesc
  batchSpans : List Nat
  kept : List KeptMember
  deriving DecidableEq, Repr

/-- The parsed view. -/
structure Manifest where
  artifactId : Nat
  version : Nat
  schemaId : Nat
  chunks : List ChunkDesc
  batchSpans : List Nat
  prev : Option ManifestLink
  depth : Nat
  totalBatches : Nat
  windowBase : Nat
  kept : List KeptMember
  deriving DecidableEq, Repr

/-- `manifest_len`: 64 bytes of header, then 24, 4 and 16 bytes an entry. -/
def manifestLen (chunkCount batchCount keptCount : Nat) : Nat :=
  64 + chunkCount * 24 + batchCount * 4 + keptCount * 16

namespace Manifest

def isWindowRoot (manifest : Manifest) : Bool :=
  manifest.prev.isNone && (manifest.windowBase != 0 || !manifest.kept.isEmpty)

def linkFrom (manifest : Manifest) (mref : PackedRef) (generation : Nat) : ManifestLink :=
  ⟨manifest.version, mref, generation, manifest.depth, manifest.totalBatches⟩

end Manifest

/-- The loop of `window_ok`: `prev` is the version of the member before. -/
def membersOk (version : Nat) : Option Nat → List KeptMember → Bool
  | _, [] => true
  | prev, member :: rest =>
    if member.batches = 0 ∨ version ≤ member.version then false
    else if prev.any fun before => member.version ≤ before then false
    else membersOk version (some member.version) rest

def windowOk (version windowBase : Nat) (kept : List KeptMember) (batchCount : Nat) : Bool :=
  if version ≤ windowBase then false
  else if !membersOk version none kept then false
  else if batchCount < (kept.map KeptMember.batches).sum then false
  else kept.head?.all fun member => windowBase ≤ member.version

/-- The part of `write_manifest` before it allocates: the record to be written.
`window` is a windowed root's base and kept members. -/
def manifestRecord (artifactId version schemaId : Nat) (chunks : List ChunkDesc)
    (batchSpans : List Nat) (prev : Option ManifestLink)
    (window : Option (Nat × List KeptMember)) : Except Error VersionManifest :=
  let windowBase := (window.getD (0, [])).1
  let kept := (window.getD (0, [])).2
  if 2 ^ 32 ≤ chunks.length then .error (.unsupported "too many chunks in manifest")
  else if 2 ^ 32 ≤ batchSpans.length then .error (.unsupported "too many batches in manifest")
  else if 2 ^ 32 ≤ kept.length then .error (.unsupported "too many kept members in manifest")
  else match prev with
  | some link =>
    if version ≤ link.version ∨ link.version = 0 ∨ link.mref = .zero then
      .error (.unsupported "manifest link must name an older version")
    else if window.isSome then .error (.unsupported "a linked manifest carries no window")
    else if 2 ^ 32 ≤ link.depth + 1 then .error (.unsupported "manifest chain too deep")
    else .ok {
      version, artifactId, schemaId, chunks, batchSpans, kept
      prevVersion := link.version
      prevRef := link.mref
      prevGen := link.generation
      depth := link.depth + 1
      -- `saturating_add`
      totalBatches := min (batchSpans.length + link.totalBatches) (2 ^ 32 - 1) }
  | none =>
    if !windowOk version windowBase kept batchSpans.length then
      .error (.unsupported "malformed window members")
    else .ok {
      version, artifactId, schemaId, chunks, batchSpans, kept
      prevVersion := windowBase
      prevRef := .zero
      prevGen := 0
      depth := 0
      totalBatches := batchSpans.length }

/-- `parse_manifest_bytes`, after the magic and the extent. -/
def parseManifest (record : VersionManifest) : Except Error Manifest :=
  let isRoot := record.prevRef = .zero
  let windowBase := if isRoot then record.prevVersion else 0
  if ¬ (isRoot ↔ record.depth = 0) ∨ (isRoot ∧ record.prevGen ≠ 0) ∨
      (¬ isRoot ∧ (record.prevVersion = 0 ∨ record.kept ≠ [])) ∨
      record.version ≤ record.prevVersion ∨ record.totalBatches < record.batchSpans.length then
    .error .versionGone
  else if isRoot ∧ ¬ windowOk record.version windowBase record.kept record.batchSpans.length then
    .error .versionGone
  else .ok {
    artifactId := record.artifactId
    version := record.version
    schemaId := record.schemaId
    chunks := record.chunks
    batchSpans := record.batchSpans
    prev := if isRoot then none else some {
      version := record.prevVersion
      mref := record.prevRef
      generation := record.prevGen
      depth := record.depth - 1
      totalBatches := record.totalBatches - record.batchSpans.length }
    depth := record.depth
    totalBatches := record.totalBatches
    windowBase := windowBase
    kept := record.kept }

section

variable {State Site Acc : Type}

/-- The loop of `walk_chain_newest_first`. `left` is `head.depth - hops`; `stop`
threads the state its closure captures. -/
def walkFrom (head : Manifest)
    (readPrev : ManifestLink → Program State Site (Except Error Manifest))
    (stop : Acc → Manifest → Acc × Bool) :
    Nat → Acc → Manifest → List Manifest → Program State Site (Except Error (List Manifest))
  | left, acc, cur, chain =>
    if 2 ^ 32 ≤ cur.batchSpans.length ∨ cur.totalBatches < cur.batchSpans.length then
      return .error .versionGone
    else if cur.artifactId ≠ head.artifactId ∨ cur.schemaId ≠ head.schemaId then
      return .error .versionGone
    else match cur.prev, left with
    | none, _ =>
      -- a root ends the chain exactly `head.depth` hops in
      if cur.depth ≠ 0 ∨ left ≠ 0 ∨ cur.totalBatches ≠ cur.batchSpans.length then
        return .error .versionGone
      else
        return .ok (chain ++ [cur])
    | some _, 0 => return .error .versionGone
    | some link, left + 1 =>
      if cur.depth = 0 then
        return .error .versionGone
      else if cur.version ≤ link.version ∨ link.depth ≠ cur.depth - 1 ∨
          link.totalBatches ≠ cur.totalBatches - cur.batchSpans.length then
        return .error .versionGone
      else if (stop acc cur).2 then
        return .ok (chain ++ [cur])
      else do
        match ← readPrev link with
        | .error reason => return .error reason
        | .ok prev =>
          if prev.version ≠ link.version ∨ prev.depth ≠ link.depth ∨
              prev.totalBatches ≠ link.totalBatches then
            return .error .versionGone
          else
            walkFrom head readPrev stop left (stop acc cur).1 prev (chain ++ [cur])

def walkChainNewestFirst (head : Manifest)
    (readPrev : ManifestLink → Program State Site (Except Error Manifest))
    (stop : Acc → Manifest → Acc × Bool) (acc : Acc) :
    Program State Site (Except Error (List Manifest)) :=
  walkFrom head readPrev stop head.depth acc head []

/-- Oldest first. -/
def walkChainWith (head : Manifest)
    (readPrev : ManifestLink → Program State Site (Except Error Manifest)) :
    Program State Site (Except Error (List Manifest)) := do
  match ← walkChainNewestFirst head readPrev (fun _ _ => ((), false)) () with
  | .error reason => return .error reason
  | .ok chain => return .ok chain.reverse

end

end ShmActors.Artifact
