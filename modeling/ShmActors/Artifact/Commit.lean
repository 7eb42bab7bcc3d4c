import ShmActors.Artifact.Journal
import ShmActors.Artifact.Window

/-! The write path of `shm-artifact/src/artifact.rs`: staging a batch and
`commit_staged_inner_j`, the one install path. -/

namespace ShmActors.Artifact

open Lib Core

inductive Commit where
  | replace
  | append
  | window (keepBatches : Nat)
  | patch
  deriving DecidableEq, Repr

/-- The source's `Artifact`: a handle over the pool of the data segment. -/
structure Handle where
  nameId : Nat
  incarnation : Nat
  pool : Pool

/-- What one chunk of a batch holds, and the bytes it takes. -/
structure Piece (Content : Type) where
  content : Content
  used : Nat

/-- A record batch as packed for the pool: one piece a chunk, at least one. -/
structure RecordBatch (Content : Type) where
  schemaId : Nat
  pieces : List (Piece Content)
  packed : pieces ≠ []

namespace RecordBatch

variable {Content : Type}

/-- The bytes of a batch's chunks; the primary one carries the header. -/
def pagesOf (schemaId count : Nat) : List (Piece Content) → List (Payload Content)
  | [] => []
  | first :: rest =>
    .primary schemaId count first.content :: rest.map fun piece => .continuation piece.content

def pages (batch : RecordBatch Content) : List (Payload Content) :=
  pagesOf batch.schemaId batch.pieces.length batch.pieces

end RecordBatch

section

variable {Content : Type} (pool : Pool)

/-- The allocation loop of `write_batch_chunks`. -/
def allocChunks (schemaId : Nat) (done : List ChunkDesc) :
    List (Piece Content) → Act Content (Except Error (List ChunkDesc))
  | [] => return .ok done
  | piece :: rest => do
    match ← pool.alloc piece.used with
    | .error reason =>
      forEach pool.free done
      return .error reason
    | .ok desc =>
      if desc.len < piece.used then do
        pool.free desc
        forEach pool.free done
        return .error (.arrow (.chunkTooSmall piece.used desc.len))
      else
        allocChunks schemaId (done ++ [{ desc with schemaId := schemaId }]) rest

def writeBatchChunks (batch : RecordBatch Content) : Act Content (Except Error (List ChunkDesc)) := do
  match ← allocChunks pool batch.schemaId [] batch.pieces with
  | .error reason => return .error reason
  | .ok descs =>
    forEach (fun (page : ChunkDesc × Payload Content) =>
      store (.writePayload (page.1.offset - 1)) (payloadAt (page.1.offset - 1)) page.2)
      (descs.zip batch.pages)
    return .ok descs

def loanChunk (owner : Nat) (desc : ChunkDesc) : Act Content (Except Error Unit) :=
  match pool.locate desc.offset with
  | none => return .error (.core .outOfBounds)
  | some chunk => onCtrl (fun site ctrl => tryLoan site ctrl owner) chunk

/-- `if let Ok(c) = pool.ctrl(d) { let _ = c.drop_loan(); }` -/
def dropLoanOf (desc : ChunkDesc) : Act Content Unit :=
  match pool.locate desc.offset with
  | none => return ()
  | some chunk => do let _ ← dropLoan (.ctrl chunk) (ctrlAt chunk)

def loanFrom (owner : Nat) (chunks done : List ChunkDesc) :
    List ChunkDesc → Act Content (Except Error Unit)
  | [] => return .ok ()
  | desc :: rest => do
    match ← loanChunk pool owner desc with
    | .ok () => loanFrom owner chunks (done ++ [desc]) rest
    | .error reason =>
      forEach (dropLoanOf pool) done
      forEach pool.free chunks
      return .error reason

def loanAll (owner : Nat) (chunks : List ChunkDesc) : Act Content (Except Error Unit) :=
  loanFrom pool owner chunks [] chunks

end

/-- The arguments of `commit_staged_inner_j`. -/
structure Request where
  expect : Nat
  owner : Nat
  commit : Commit
  staged : List ChunkDesc
  spans : List Nat
  schemaId : Nat
  leaseFence : Option Nat
  journal : Option BorrowJournal

section

variable {Content : Type} (artifact : Handle)

/-- `Error::Conflict` at what `current` reads now. -/
def conflict {Value : Type} (expect : Nat) : Act Content (Except Error Value) := do
  let actual ← load .loadCurrent current
  return .error (.conflict expect actual)

/-- A commit whose lease was fenced out must not install. -/
def fencedOut (request : Request) : Act Content Bool :=
  match request.leaseFence with
  | none => return false
  | some token => do
    let leased ← leaseHeldBy request.owner token
    return !leased

/-- Step 1: publish the staged chunks; a failure returns every one of them. -/
def publishAll (published : List ChunkDesc) : List ChunkDesc → Act Content (Except Error Unit)
  | [] => return .ok ()
  | desc :: rest => do
    match ← publishStaged artifact.pool desc with
    | .ok () => publishAll (published ++ [desc]) rest
    | .error reason =>
      releaseChunks artifact.pool published
      forEach (freeLoaned artifact.pool) (desc :: rest)
      return .error reason

/-- Free the slot a failed commit claimed, if it is still the commit's. -/
def unclaim : Option (Nat × Nat) → Act Content Unit
  | none => return ()
  | some (slot, version) => do
    let state ← load (.slotState slot) (slotState slot)
    if state ≠ .live then
      return ()
    else do
      let found ← load (.slotVersion slot) (slotVersion slot)
      if found ≠ version then
        return ()
      else do
        store (.clearVersion slot) (slotVersion slot) 0
        store (.clearState slot) (slotState slot) .free

/-- Release an `Append` link taken at `link.generation`. -/
def releaseLink : Option ManifestLink → Act Content Unit
  | none => return ()
  | some link =>
    match artifact.pool.locate link.mref.offset with
    | none => return ()
    | some chunk => do
      let generation ← loadGeneration chunk
      if generation = link.generation then
        releaseManifestRef artifact.pool link.mref (some link.generation)
      else
        return ()

def releaseStagedManifest : Option ChunkDesc → Act Content Unit
  | none => return ()
  | some desc => do let _ ← releaseChunk artifact.pool desc

def rollbackStaged (published : List ChunkDesc) (link : Option ManifestLink)
    (kept : List ChunkDesc) (manifest : Option ChunkDesc) (slot : Option (Nat × Nat)) :
    Act Content Unit := do
  unclaim slot
  releaseStagedManifest artifact manifest
  releaseLink artifact link
  releaseChunks artifact.pool kept
  releaseChunks artifact.pool published

/-- A prior version that moved or does not fit: undo and report. -/
def giveUp {Value : Type} (request : Request) (report : Act Content (Except Error Value)) :
    Act Content (Except Error Value) := do
  rollbackStaged artifact request.staged none [] none none
  report

/-- The manifest `manifest_desc` names, if it is `expect`'s and of this schema. -/
def readPrior (request : Request) (mref : PackedRef) (mismatch : String) :
    Act Content (Except Error Manifest) := do
  match ← readManifestChecked artifact.pool mref artifact.nameId request.expect with
  | .error _ => giveUp artifact request (conflict request.expect)
  | .ok prior =>
    if prior.schemaId ≠ request.schemaId then
      giveUp artifact request (return .error (.unsupported mismatch))
    else
      return .ok prior

/-- Step 3: one reference on the prior manifest, sampled and checked again. -/
def holdPrior (request : Request) (mref : PackedRef) (chunk : Nat) (prior : Manifest) :
    Act Content (Except Error (Option ManifestLink)) := do
  let generation ← loadGeneration chunk
  match ← onCtrl borrowShared chunk with
  | .error _ => giveUp artifact request (conflict request.expect)
  | .ok () =>
    let identity ← readManifestChecked artifact.pool mref artifact.nameId request.expect
    let now ← loadGeneration chunk
    if identity.isOk ∧ now = generation then
      return .ok (some (prior.linkFrom mref generation))
    else if now = generation then do
      releaseManifestRef artifact.pool mref (some generation)
      giveUp artifact request (conflict request.expect)
    else
      giveUp artifact request (conflict request.expect)

/-- Steps 2 and 3: the link of an `Append` with a prior version. -/
def appendLink (request : Request) : Act Content (Except Error (Option ManifestLink)) :=
  if request.commit = .append ∧ request.expect ≠ noVersion then do
    let mref ← load .loadManifestDesc manifestDesc
    match ← readPrior artifact request mref "Append schema differs from the prior version" with
    | .error reason => return .error reason
    | .ok prior =>
      match artifact.pool.locate mref.offset with
      | none => giveUp artifact request (return .error (.core .outOfBounds))
      | some chunk => holdPrior artifact request mref chunk prior
  else
    return .ok none

def windowOver (request : Request) (keepBatches : Nat) :
    Act Content (Except Error (Option WindowSet)) := do
  let mref ← load .loadManifestDesc manifestDesc
  match ← readPrior artifact request mref "Window schema differs from the prior version" with
  | .error reason => return .error reason
  | .ok prior =>
    match ← collectWindow artifact.pool prior keepBatches with
    | .error _ => giveUp artifact request (conflict request.expect)
    | .ok window => return .ok (some window)

/-- Step 2w: what a `Window` with a prior version re-lists. -/
def windowKept (request : Request) : Act Content (Except Error (Option WindowSet)) :=
  match request.commit with
  | .window keepBatches =>
    if request.expect ≠ noVersion then windowOver artifact request keepBatches else return .ok none
  | _ => return .ok none

/-- What a commit holds on its predecessor when it stages its manifest. -/
structure Prior where
  link : Option ManifestLink
  window : Option WindowSet

namespace Prior

def kept (prior : Prior) : List ChunkDesc := (prior.window.map WindowSet.chunks).getD []

def keptSpans (prior : Prior) : List Nat := (prior.window.map WindowSet.spans).getD []

def members (prior : Prior) : Option (Nat × List KeptMember) :=
  prior.window.map fun window => (window.base, window.members)

/-- The new manifest's own chunks: kept in row order, then staged. -/
def ownChunks (prior : Prior) (request : Request) : List ChunkDesc :=
  if prior.kept = [] then request.staged else prior.kept ++ request.staged

def ownSpans (prior : Prior) (request : Request) : List Nat :=
  if prior.kept = [] then request.spans else prior.keptSpans ++ request.spans

end Prior

def target (request : Request) : Nat := (request.expect + 1) % 2 ^ 64

/-- Undo a commit whose manifest is staged. -/
def abandon (request : Request) (prior : Prior) (manifest : ChunkDesc) (slot : Option (Nat × Nat)) :
    Act Content Unit :=
  rollbackStaged artifact request.staged prior.link prior.kept (some manifest) slot

def recordStaged (request : Request) (manifest : ChunkDesc) : Act Content (Option Nat) :=
  match request.journal with
  | none => return none
  | some journal => do
    match ← journal.record (.stagedManifest artifact.nameId artifact.incarnation
      (.fromDesc manifest) manifest.generation) with
    | .ok slot => return some slot
    | .error _ => return none

/-- `drop_rec`. -/
def dropRecord (request : Request) (recorded : Option Nat) : Act Content Unit :=
  match request.journal, recorded with
  | some journal, some slot => do let _ ← journal.release slot
  | _, _ => return ()

/-- The predecessor is no longer current: retire the slot that endorsed it. -/
def retirePrior (request : Request) (priorBits : PackedRef) : Act Content Unit :=
  if request.expect = noVersion then return ()
  else tryRetireVersionAt artifact.pool request.expect (some priorBits)

/-- What follows a won install CAS. -/
def finishInstall (request : Request) (manifest : ChunkDesc) (priorBits : PackedRef)
    (recorded : Option Nat) : Act Content (Except Error Nat) := do
  store .publishManifestDesc manifestDesc (.fromDesc manifest)
  let _ ← compareExchange .setSchema schemaId 0 request.schemaId
  retirePrior artifact request priorBits
  dropRecord request recorded
  return .ok (target request)

/-- Steps 4b and 6, the slot claimed. -/
def installClaimed (request : Request) (prior : Prior) (manifest : ChunkDesc)
    (recorded : Option Nat) (slot : Nat) : Act Content (Except Error Nat) := do
  let occupant ← isIncarnation artifact.incarnation
  if !occupant then do
    storeFree slot
    abandon artifact request prior manifest none
    dropRecord request recorded
    return .error .stale
  else do
    let priorBits ← load .loadManifestDesc manifestDesc
    match ← compareExchange .install current request.expect (target request) with
    | none => finishInstall artifact request manifest priorBits recorded
    | some actual =>
      abandon artifact request prior manifest (some (slot, target request))
      dropRecord request recorded
      return .error (.conflict request.expect actual)

/-- Steps 5 and 6. -/
def install (request : Request) (prior : Prior) (manifest : ChunkDesc) :
    Act Content (Except Error Nat) := do
  let recorded ← recordStaged artifact request manifest
  match ← claimSlot (target request) (.fromDesc manifest) with
  | none =>
    abandon artifact request prior manifest none
    dropRecord request recorded
    return .error (.unsupported "live-version table full")
  | some slot => installClaimed artifact request prior manifest recorded slot

/-- Step 4, then the install. -/
def stageAndInstall (request : Request) (prior : Prior) : Act Content (Except Error Nat) := do
  match ← stageChunk artifact.pool (writeManifest artifact.pool artifact.nameId (target request)
    request.schemaId (prior.ownChunks request) (prior.ownSpans request) prior.link prior.members)
    request.owner with
  | .error reason =>
    rollbackStaged artifact request.staged prior.link prior.kept none none
    return .error reason
  | .ok manifest => install artifact request prior manifest

def commitPublished (request : Request) : Act Content (Except Error Nat) := do
  match ← appendLink artifact request with
  | .error reason => return .error reason
  | .ok link =>
    match ← windowKept artifact request with
    | .error reason => return .error reason
    | .ok window => stageAndInstall artifact request ⟨link, window⟩

def commitStagedInnerJ (request : Request) : Act Content (Except Error Nat) := do
  let live ← isIncarnation artifact.incarnation
  if !live then
    return .error .stale
  else if request.commit = .patch then
    return .error (.unsupported "Patch commit deferred to v0.2")
  else do
    let fenced ← fencedOut request
    if fenced then do
      forEach (freeLoaned artifact.pool) request.staged
      return .error .fenced
    else match ← publishAll artifact [] request.staged with
    | .error reason => return .error reason
    | .ok () => commitPublished artifact request

/-- `commit_inner_j` for one batch, already packed. -/
def commitInnerJ (expect owner : Nat) (commit : Commit) (batch : RecordBatch Content)
    (leaseFence : Option Nat) (journal : Option BorrowJournal) : Act Content (Except Error Nat) := do
  if commit = .patch then
    return .error (.unsupported "Patch commit deferred to v0.2")
  else match ← writeBatchChunks artifact.pool batch with
  | .error reason => return .error reason
  | .ok staged =>
    match ← loanAll artifact.pool owner staged with
    | .error reason => return .error reason
    | .ok () =>
      commitStagedInnerJ artifact {
        expect, owner, commit, staged, leaseFence, journal
        spans := [staged.length]
        schemaId := batch.schemaId }

def evictCurrentOptimistic (owner expect : Nat) : Act Content (Except Error Nat) := do
  if expect = noVersion then
    return .error .versionGone
  else do
    let schema ← load .loadSchema schemaId
    commitStagedInnerJ artifact {
      expect, owner
      commit := .replace
      staged := []
      spans := []
      schemaId := schema
      leaseFence := none
      journal := none }

end

end ShmActors.Artifact
