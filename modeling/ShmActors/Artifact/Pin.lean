import ShmActors.Artifact.Commit

/-! The read path of `shm-artifact/src/artifact.rs`: pins, their drop;
and `evict_all`. -/

namespace ShmActors.Artifact

open Lib Core

/-- `PinState`: what a `VersionPin` keeps. -/
structure VersionPin where
  version : Nat
  slotIdx : Nat
  manifest : Manifest
  journal : Option (BorrowJournal × Nat)
  deriving DecidableEq, Repr

section

variable {Content : Type} (artifact : Handle)

/-- Back off: undo the bump and go round again. -/
def retryPin (slot : Nat) : Act Content (Option (Except Error VersionPin)) := do
  undoPin artifact.pool slot
  return none

/-- Back off for good. -/
def refusePin (slot : Nat) (reason : Error) : Act Content (Option (Except Error VersionPin)) := do
  undoPin artifact.pool slot
  return some (.error reason)

/-- The pin is accepted; journal it if asked to. -/
def grantPin (journal : Option BorrowJournal) (version slot : Nat) (manifest : Manifest) :
    Act Content (Option (Except Error VersionPin)) :=
  match journal with
  | none => return some (.ok ⟨version, slot, manifest, none⟩)
  | some journal => do
    match ← journal.record (.artifactPin artifact.nameId artifact.incarnation version) with
    | .ok entry => return some (.ok ⟨version, slot, manifest, some (journal, entry)⟩)
    | .error reason => refusePin artifact slot reason

/-- Step 4: the manifest, if the slot is the endorsed one. -/
def readPinned (journal : Option BorrowJournal) (version slot : Nat) :
    Act Content (Option (Except Error VersionPin)) := do
  let endorsed ← load .loadManifestDesc manifestDesc
  let own ← load (.slotManifest slot) (slotManifest slot)
  if own ≠ endorsed then
    retryPin artifact slot
  else match ← readManifestChecked artifact.pool endorsed artifact.nameId version with
  | .error _ => retryPin artifact slot
  | .ok manifest => grantPin artifact journal version slot manifest

/-- Steps 2, 3 and 3b. -/
def pinAt (journal : Option BorrowJournal) (version slot : Nat) :
    Act Content (Option (Except Error VersionPin)) := do
  publishPin slot
  let accepted ← acceptPin slot version
  if !accepted then
    retryPin artifact slot
  else do
    let occupant ← isIncarnation artifact.incarnation
    if !occupant then refusePin artifact slot .stale else readPinned artifact journal version slot

def pinRound (journal : Option BorrowJournal) : Act Content (Option (Except Error VersionPin)) := do
  let version ← load .loadCurrent current
  if version = noVersion then
    return some (.error .versionGone)
  else match ← findSlot version with
  | none => return none
  | some slot => pinAt artifact journal version slot

def pinInner (journal : Option BorrowJournal) : Act Content (Except Error VersionPin) :=
  repeatLoop (pinRound artifact journal)

/-- The pin's own decrement, and the retire it may owe. -/
def releasePin (pin : VersionPin) : Act Content Unit := do
  let prev ← unpin pin.slotIdx
  if prev = 1 then retireUnlessCurrent artifact.pool pin.version else return ()

/-- `Drop for PinState`. A journal entry a replay cleared took the decrement. -/
def dropPin (pin : VersionPin) : Act Content Unit :=
  match pin.journal with
  | none => releasePin artifact pin
  | some (journal, entry) => do
    match ← journal.release entry with
    | .ok false => return ()
    | _ => releasePin artifact pin

/-- Crash replay of a leaked pin. -/
def releaseLeakedPin (version : Nat) : Act Content Bool := do
  match ← findSlot version with
  | none => return false
  | some slot =>
    match ← tryUnpin slot with
    | none => return false
    | some prev =>
      if prev = 1 then do
        retireUnlessCurrent artifact.pool version
        return true
      else
        return true

end

section

variable {Content : Type} (artifact : Handle)

def EVICTOR_OWNER : Nat := 2 ^ 32 - 1

def seizeLease : Act Content Nat :=
  repeatLoop do
    let _ ← forceReleaseWriteLease
    acquireWriteLease EVICTOR_OWNER

def retireSlot (slot : Nat) : Act Content Unit := do
  let state ← load (.slotState slot) (slotState slot)
  if state ≠ .live then
    return ()
  else do
    let version ← load (.slotVersion slot) (slotVersion slot)
    if version = noVersion then return () else tryRetireVersion artifact.pool version

def evictAll : Act Content (Except Error Unit) := do
  let live ← isIncarnation artifact.incarnation
  if !live then
    return .error .stale
  else do
    let token ← seizeLease
    let occupant ← isIncarnation artifact.incarnation
    if !occupant then do
      let _ ← releaseWriteLease EVICTOR_OWNER token
      return .error .stale
    else do
      store .clearCurrent current noVersion
      store .clearManifestDesc manifestDesc .zero
      forEach (retireSlot artifact) (List.range MAX_LIVE_VERSIONS)
      let _ ← releaseWriteLease EVICTOR_OWNER token
      return .ok ()

end

section

variable {Content : Type} (artifact : Handle)

/-- Whether a live slot names the manifest. -/
def endorses (manifest : PackedRef) (slot : Nat) : Act Content Bool := do
  let state ← load (.slotState slot) (slotState slot)
  if state ≠ .live then
    return false
  else do
    let found ← load (.slotManifest slot) (slotManifest slot)
    return found = manifest

def reclaimStagedManifest (manifest : PackedRef) (generation : Nat) : Act Content Bool := do
  let endorsed ← load .loadManifestDesc manifestDesc
  if endorsed = manifest then
    return false
  else match ← findFrom (endorses manifest) (List.range MAX_LIVE_VERSIONS) with
  | some _ => return false
  | none =>
    match artifact.pool.locate manifest.offset with
    | none => return false
    | some chunk =>
      let valid ← validate chunk (manifestChunkDesc manifest generation)
      if !valid then
        return false
      else do
        let word ← loadWord chunk
        if word.state ≠ .published then
          return false
        else do
          releaseManifestRef artifact.pool manifest (some generation)
          return true

end

end ShmActors.Artifact
