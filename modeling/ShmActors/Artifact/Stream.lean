import ShmActors.Artifact.Pin

/-! Writers: the `Committer` of `shm-artifact/src/artifact.rs`, which holds the
write lease, and the transaction of `shm-stream/src/stream.rs`. -/

namespace ShmActors.Artifact

open Lib Core

/-- `Committer`: the lease as acquired, and the entry that backs it. -/
structure Committer where
  owner : Nat
  token : Nat
  lease : Option (BorrowJournal × Nat)
  deriving DecidableEq, Repr

section

variable {Content : Type} (artifact : Handle)

/-- `open_exclusive`, and `open_exclusive_journaled` with a journal. -/
def openExclusive (owner : Nat) (journal : Option BorrowJournal) :
    Act Content (Except Error Committer) := do
  match ← acquireWriteLease owner with
  | none => return .error .writeLocked
  | some token =>
    let occupant ← isIncarnation artifact.incarnation
    if !occupant then do
      let _ ← releaseWriteLease owner token
      return .error .stale
    else match journal with
    | none => return .ok ⟨owner, token, none⟩
    | some journal =>
      match ← journal.record (.writeLease artifact.nameId artifact.incarnation token) with
      | .ok slot => return .ok ⟨owner, token, some (journal, slot)⟩
      | .error reason =>
        let _ ← releaseWriteLease owner token
        return .error reason

namespace Committer

variable (committer : Committer)

def commit (kind : Commit) (batch : RecordBatch Content) : Act Content (Except Error Nat) := do
  let expect ← load .loadCurrent current
  commitInnerJ artifact expect committer.owner kind batch (some committer.token)
    (committer.lease.map Prod.fst)

def commitStaged (kind : Commit) (staged : List ChunkDesc) (spans : List Nat) (schemaId : Nat) :
    Act Content (Except Error Nat) := do
  let expect ← load .loadCurrent current
  commitStagedInnerJ artifact {
    expect, staged, spans, schemaId
    owner := committer.owner
    commit := kind
    leaseFence := some committer.token
    journal := committer.lease.map Prod.fst }

def evictCurrent : Act Content (Except Error Nat) := do
  let expect ← load .loadCurrent current
  if expect = noVersion then
    return .error .versionGone
  else do
    let schema ← load .loadSchema schemaId
    commitStagedInnerJ artifact {
      expect
      owner := committer.owner
      commit := .replace
      staged := []
      spans := []
      schemaId := schema
      leaseFence := some committer.token
      journal := none }

/-- `Drop for Committer`. A lease a replay has force-released is not its own. -/
def drop : Act Content Unit := do
  match committer.lease with
  | none => do let _ ← releaseWriteLease committer.owner committer.token
  | some (journal, slot) =>
    match ← journal.release slot with
    | .ok false => return ()
    | _ => do let _ ← releaseWriteLease committer.owner committer.token

end Committer

end

/-- `RAW_SCHEMA_ID`. -/
def rawSchemaId : Nat := 0

inductive Coordination where
  | exclusive
  | optimistic (expectVersion : Nat)
  deriving DecidableEq, Repr

inductive Coord where
  | exclusive (committer : Committer)
  | optimistic (expect : Nat)
  deriving DecidableEq, Repr

/-- A staged chunk and the journal slot it is recorded in. -/
structure Staged where
  desc : ChunkDesc
  slot : Nat
  deriving DecidableEq, Repr

structure StreamWriter where
  journal : BorrowJournal
  coord : Coord
  owner : Nat
  commitKind : Commit
  staged : List Staged
  batchSpans : List Nat
  schemaId : Option Nat
  deriving DecidableEq, Repr

/-- An error of a lower layer, or one of the stream's own. -/
inductive StreamError where
  | passed (reason : Error)
  | schemaMismatch (expected appended : Nat)
  | unsupported (message : String)
  deriving DecidableEq, Repr

namespace StreamWriter

variable {Content : Type} (artifact : Handle)

/-- `StreamWriter::open`. -/
def openWith (journal : BorrowJournal) (owner : Nat) (commitKind : Commit) :
    Coordination → Act Content (Except StreamError StreamWriter)
  | coordination =>
    if commitKind = .patch then
      return .error (.unsupported "Patch stream deferred to v0.3")
    else match coordination with
    | .optimistic expect => return .ok ⟨journal, .optimistic expect, owner, commitKind, [], [], none⟩
    | .exclusive => do
      match ← openExclusive artifact owner (some journal) with
      | .error reason => return .error (.passed reason)
      | .ok committer => return .ok ⟨journal, .exclusive committer, owner, commitKind, [], [], none⟩

/-- `if let Ok(c) = pool.ctrl(d) { let _ = c.drop_loan(); } let _ = pool.free(d);` -/
def returnLoan (desc : ChunkDesc) : Act Content Unit := do
  dropLoanOf artifact.pool desc
  artifact.pool.free desc

/-- Undo one staged chunk, unless a replay has reclaimed it. -/
def unstage (journal : BorrowJournal) (staged : Staged) : Act Content Unit := do
  match ← journal.release staged.slot with
  | .ok true => returnLoan artifact staged.desc
  | _ => return ()

/-- Loan one chunk and record it. -/
def stageOne (journal : BorrowJournal) (owner : Nat) (desc : ChunkDesc) :
    Act Content (Except Error Nat) := do
  match ← loanChunk artifact.pool owner desc with
  | .error reason => return .error reason
  | .ok () => journal.record (.chunkPin desc)

/-- Loan and record every chunk of a batch; a failure undoes the whole batch. -/
def stageEach (journal : BorrowJournal) (owner : Nat) (done : List Staged) :
    List ChunkDesc → Act Content (Except Error (List Staged))
  | [] => return .ok done
  | desc :: rest => do
    match ← stageOne artifact journal owner desc with
    | .ok slot => stageEach journal owner (done ++ [⟨desc, slot⟩]) rest
    | .error reason =>
      forEach (unstage artifact journal) done
      forEach (returnLoan artifact) (desc :: rest)
      return .error reason

/-- `append_batch`: the writer afterwards, and the error if there was one. -/
def appendBatch (writer : StreamWriter) (batch : RecordBatch Content) :
    Act Content (StreamWriter × Option StreamError) := do
  match ← writeBatchChunks artifact.pool batch with
  | .error reason => return (writer, some (.passed reason))
  | .ok descs =>
    if writer.schemaId.any fun expected => expected ≠ batch.schemaId then do
      forEach artifact.pool.free descs
      return (writer, some (.schemaMismatch (writer.schemaId.getD rawSchemaId) batch.schemaId))
    else match ← stageEach artifact writer.journal writer.owner [] descs with
    | .error reason => return (writer, some (.passed reason))
    | .ok staged =>
      return ({ writer with
        schemaId := some (writer.schemaId.getD batch.schemaId)
        staged := writer.staged ++ staged
        batchSpans := writer.batchSpans ++ [descs.length] }, none)

def install (writer : StreamWriter) : Act Content (Except Error Nat) :=
  match writer.coord with
  | .exclusive committer =>
    committer.commitStaged artifact writer.commitKind (writer.staged.map Staged.desc)
      writer.batchSpans (writer.schemaId.getD rawSchemaId)
  | .optimistic expect =>
    commitStagedInnerJ artifact {
      expect
      owner := writer.owner
      commit := writer.commitKind
      staged := writer.staged.map Staged.desc
      spans := writer.batchSpans
      schemaId := writer.schemaId.getD rawSchemaId
      leaseFence := none
      journal := some writer.journal }

/-- The write lease of an exclusive writer goes with it. -/
def dropCoord (writer : StreamWriter) : Act Content Unit :=
  match writer.coord with
  | .exclusive committer => committer.drop
  | .optimistic _ => return ()

/-- `commit(self)`, and the drop of what is left of the writer. -/
def commit (writer : StreamWriter) : Act Content (Except Error Nat) := do
  let result ← writer.install artifact
  forEach (fun staged => do let _ ← writer.journal.release (Staged.slot staged)) writer.staged
  writer.dropCoord
  return result

/-- `abort(self)`, which a drop without commit amounts to. -/
def abort (writer : StreamWriter) : Act Content Unit := do
  forEach (unstage artifact writer.journal) writer.staged
  writer.dropCoord

end StreamWriter

end ShmActors.Artifact
