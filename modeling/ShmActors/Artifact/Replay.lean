import ShmActors.Artifact.Quiet

/-! Crash replay, `reclaim_dead` of `shm-runtime/src/coordinator.rs`, and the
actor's own release of a journaled borrow. Whoever clears a journal slot's bit
performs the release of the borrow recorded there. -/

namespace ShmActors.Artifact

open Lib Core Program

section

variable {Content : Type} (journal : BorrowJournal)

/-- An actor's release of a borrow: `Drop for PinState`, `release_pin`. -/
def dropBorrow (slot : Nat) (work : Act Content Unit) : Act Content Unit := do
  match ← journal.release slot with
  | .ok false => return ()
  | _ => work

/-- The loop of `reclaim_dead` over the records read. -/
def replayEach (reclaim : JournalRecord → Act Content (List ChunkDesc)) :
    List (Nat × JournalRecord) → Act Content (List ChunkDesc)
  | [] => return []
  | (slot, record) :: rest => do
    match ← journal.release slot with
    | .ok true =>
      let freed ← reclaim record
      let later ← replayEach reclaim rest
      return freed ++ later
    | _ => replayEach reclaim rest

def replayWith (reclaim : JournalRecord → Act Content (List ChunkDesc)) : Act Content (List ChunkDesc) := do
  let entries ← journal.replayIndexed
  replayEach journal reclaim entries

end

section

variable {Content : Type} (artifact : Handle)

/-- `release_pin`, the journal slot won. -/
def releaseDesc (pool : Pool) (desc : ChunkDesc) : Act Content Unit :=
  match pool.locate desc.offset with
  | none => return ()
  | some chunk => do let _ ← releaseShared (.ctrl chunk) (ctrlAt chunk)

/-- Give up the hold a record names on a chunk; whether that frees it. -/
def releaseHold (chunk actorId : Nat) : Act Content Bool := do
  let word ← loadWord chunk
  match word.state with
  | .published =>
    let counted ← loadWord chunk
    if 0 < counted.refcount then releaseShared (.ctrl chunk) (ctrlAt chunk)
    else ownerRelease (.ctrl chunk) (ctrlAt chunk)
  | .loaned =>
    let owner ← loadOwner chunk
    if owner = actorId then do
      let dropped ← dropLoan (.ctrl chunk) (ctrlAt chunk)
      return dropped.isOk
    else
      return false
  | .free => return false

def reclaimOne (pool : Pool) (desc : ChunkDesc) (actorId : Nat) : Act Content (List ChunkDesc) :=
  match pool.locate desc.offset with
  | none => return []
  | some chunk => do
    let valid ← validate chunk desc
    if !valid then
      return []
    else do
      let recycled ← releaseHold chunk actorId
      if recycled then do
        pool.free desc
        return [desc]
      else
        return []

/-- `attach_artifact_by_id`: whether the recorded occupant is in service here. -/
def attachRecorded (artifactId incarnation : Nat) : Act Content Bool :=
  if artifactId ≠ artifact.nameId then return false
  else do
    let found ← load .incarnation Artifact.incarnation
    return found ≠ noIncarnation ∧ found = incarnation

/-- The match of `reclaim_dead` on a record whose slot is won. -/
def reclaimRecord (actorId : Nat) : JournalRecord → Act Content (List ChunkDesc)
  | .chunkPin desc =>
    if desc.segmentId = artifact.pool.segmentId then reclaimOne artifact.pool desc actorId else return []
  | .artifactPin artifactId incarnation version => do
    let attached ← attachRecorded artifact artifactId incarnation
    if attached then do
      let _ ← releaseLeakedPin artifact version
      return []
    else
      return []
  | .writeLease artifactId incarnation _ => do
    let attached ← attachRecorded artifact artifactId incarnation
    if attached then do
      let _ ← forceReleaseWriteLease
      return []
    else
      return []
  | .stagedManifest artifactId incarnation manifest generation => do
    let attached ← attachRecorded artifact artifactId incarnation
    if attached then do
      let _ ← reclaimStagedManifest artifact manifest generation
      return []
    else
      return []

def reclaimDead (journal : BorrowJournal) (actorId : Nat) : Act Content (List ChunkDesc) :=
  replayWith journal (reclaimRecord artifact actorId)

end

namespace Repairing

variable {kind : Kind Content} (repairing : Repairing kind)

include repairing

theorem every_reclaimOne (pool : Pool) (desc : ChunkDesc) (actorId : Nat) :
    Every kind (reclaimOne pool desc actorId : Act Content (List ChunkDesc)) := by
  unfold reclaimOne
  split
  · trivial
  refine every_bind (repairing.every_validate desc) fun ok => ?_
  split
  · trivial
  refine every_bind (every_bind (repairing.loadHeap _ rfl) fun word => ?_) fun recycled => ?_
  · split
    · refine every_bind (repairing.loadHeap _ rfl) fun counted => ?_
      split
      · exact repairing.every_releaseShared
      · exact repairing.every_ownerRelease
    · refine every_bind (repairing.loadHeap _ rfl) fun owner => ?_
      split
      · exact every_bind repairing.every_dropLoan fun _ => trivial
      · trivial
    · trivial
  · split
    · exact every_bind (repairing.every_free desc) fun _ => trivial
    · trivial

theorem every_reclaimRecord (artifact : Handle) (actorId : Nat) (record : JournalRecord) :
    Every kind (reclaimRecord artifact actorId record : Act Content (List ChunkDesc)) := by
  have attach (artifactId incarnation : Nat) :
      Every kind (attachRecorded artifact artifactId incarnation : Act Content Bool) := by
    unfold attachRecorded
    split
    · trivial
    · exact every_bind (repairing.loadHead _ rfl) fun _ => trivial
  cases record with
  | chunkPin desc =>
    simp only [reclaimRecord]
    split
    · exact repairing.every_reclaimOne artifact.pool desc actorId
    · trivial
  | artifactPin artifactId incarnation version =>
    refine every_bind (attach _ _) fun attached => ?_
    split
    · exact every_bind (repairing.every_releaseLeakedPin version) fun _ => trivial
    · trivial
  | writeLease artifactId incarnation fence =>
    refine every_bind (attach _ _) fun attached => ?_
    split
    · exact every_bind repairing.every_forceReleaseWriteLease fun _ => trivial
    · trivial
  | stagedManifest artifactId incarnation manifest generation =>
    refine every_bind (attach _ _) fun attached => ?_
    split
    · exact every_bind (repairing.every_reclaimStagedManifest manifest generation) fun _ => trivial
    · trivial

end Repairing

end ShmActors.Artifact
