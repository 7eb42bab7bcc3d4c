import ShmActors.Artifact.Pool

/-! The head's operations, `shm-artifact/src/head.rs`, and the retire path over
them. -/

namespace ShmActors.Artifact

open Lib Core

section

variable {Content : Type}

def publishPin (slot : Nat) : Act Content Unit := do
  let _ ← fetchUpdate (.publishPin slot) (slotPins slot) fun pins => (pins + 1) % 2 ^ 32
  return ()

def acceptPin (slot version : Nat) : Act Content Bool := do
  let state ← load (.slotState slot) (slotState slot)
  if state ≠ .live then
    return false
  else do
    let found ← load (.slotVersion slot) (slotVersion slot)
    return found = version

/-- Returns the count before. -/
def unpin (slot : Nat) : Act Content Nat :=
  fetchUpdate (.unpin slot) (slotPins slot) fun pins => (pins + 2 ^ 32 - 1) % 2 ^ 32

/-- Decrement unless the count is zero. -/
def tryUnpin (slot : Nat) : Act Content (Option Nat) := do
  let cur ← load (.pinScan slot) (slotPins slot)
  repeatFrom (fun cur => do
    if cur = 0 then
      return .inr none
    else match ← compareExchange (.exchangePins slot) (slotPins slot) cur (cur - 1) with
    | none => return .inr (some cur)
    | some now => return .inl now) cur

def electFreeing (slot : Nat) : Act Content Bool := do
  match ← compareExchange (.elect slot) (slotState slot) .live .freeing with
  | none => return true
  | some _ => return false

def pinScan (slot : Nat) : Act Content Nat := load (.pinScan slot) (slotPins slot)

def revertLive (slot : Nat) : Act Content Unit := store (.revert slot) (slotState slot) .live

def storeFree (slot : Nat) : Act Content Unit := do
  store (.clearVersion slot) (slotVersion slot) 0
  store (.clearManifest slot) (slotManifest slot) .zero
  store (.clearState slot) (slotState slot) .free

/-- The scan of `find_slot` and `find_slot_with_manifest`: the first slot that
passes the check. -/
def findFrom (check : Nat → Act Content Bool) : List Nat → Act Content (Option Nat)
  | [] => return none
  | slot :: rest => do
    let found ← check slot
    if found then return some slot else findFrom check rest

def tracks (version slot : Nat) : Act Content Bool := acceptPin slot version

def tracksManifest (version : Nat) (manifest : PackedRef) (slot : Nat) : Act Content Bool := do
  let tracked ← tracks version slot
  if !tracked then
    return false
  else do
    let found ← load (.slotManifest slot) (slotManifest slot)
    return found = manifest

def findSlot (version : Nat) : Act Content (Option Nat) :=
  findFrom (tracks version) (List.range MAX_LIVE_VERSIONS)

def findSlotWithManifest (version : Nat) (manifest : PackedRef) : Act Content (Option Nat) :=
  findFrom (tracksManifest version manifest) (List.range MAX_LIVE_VERSIONS)

def claimFrom (version : Nat) (manifest : PackedRef) : List Nat → Act Content (Option Nat)
  | [] => return none
  | slot :: rest => do
    match ← compareExchange (.claim slot) (slotState slot) .free .live with
    | some _ => claimFrom version manifest rest
    | none =>
      store (.claimManifest slot) (slotManifest slot) manifest
      store (.claimVersion slot) (slotVersion slot) version
      return some slot

def claimSlot (version : Nat) (manifest : PackedRef) : Act Content (Option Nat) :=
  claimFrom version manifest (List.range MAX_LIVE_VERSIONS)

end

section

variable {Content : Type}

/-- The word a release of a lease held under `fence` leaves. -/
def Lease.released (fence : Nat) : Lease := ⟨ownerNone, (fence + 1) % 2 ^ 32⟩

/-- The fence token acquired under, or `none` while an owner holds the lease. -/
def acquireWriteLease (owner : Nat) : Act Content (Option Nat) :=
  repeatLoop do
    let cur ← load .loadLease writeLease
    if cur.owner ≠ ownerNone then
      return some none
    else match ← compareExchange .exchangeLease writeLease cur ⟨owner, cur.fence⟩ with
    | none => return some (some cur.fence)
    | some _ => return none

def leaseHeldBy (owner fence : Nat) : Act Content Bool := do
  let cur ← load .loadLease writeLease
  return cur = ⟨owner, fence⟩

def releaseWriteLease (owner token : Nat) : Act Content Bool := do
  match ← compareExchange .exchangeLease writeLease ⟨owner, token⟩ (Lease.released token) with
  | none => return true
  | some _ => return false

def forceReleaseWriteLease : Act Content Bool :=
  repeatLoop do
    let cur ← load .loadLease writeLease
    if cur.owner = ownerNone then
      return some false
    else match ← compareExchange .exchangeLease writeLease cur (Lease.released cur.fence) with
    | none => return some true
    | some _ => return none

/-- `is_incarnation`. -/
def isIncarnation (expected : Nat) : Act Content Bool := do
  let found ← load .incarnation incarnation
  return found = expected

end

section

variable {Content : Type} (pool : Pool)

def findRetired (version : Nat) : Option PackedRef → Act Content (Option Nat)
  | some manifest => findSlotWithManifest version manifest
  | none => findSlot version

/-- The elected reclaimer's part of `try_retire_version_at`; `none` goes round
again. -/
def reclaimElected (slot : Nat) : Act Content (Option Unit) := do
  let pins ← pinScan slot
  if pins ≠ 0 then do
    revertLive slot
    let still ← pinScan slot
    if still ≠ 0 then return some () else return none
  else do
    let mref ← load (.slotManifest slot) (slotManifest slot)
    releaseManifestRef pool mref none
    storeFree slot
    return some ()

def retireRound (version : Nat) (manifest : Option PackedRef) : Act Content (Option Unit) := do
  match ← findRetired version manifest with
  | none => return some ()
  | some slot =>
    let now ← load .loadCurrent current
    if now = version then
      return some ()
    else do
      let elected ← electFreeing slot
      if elected then reclaimElected pool slot else return some ()

def tryRetireVersionAt (version : Nat) (manifest : Option PackedRef) : Act Content Unit :=
  repeatLoop (retireRound pool version manifest)

def tryRetireVersion (version : Nat) : Act Content Unit := tryRetireVersionAt pool version none

/-- Retire `version` if the count just taken to zero was its last pin's. -/
def retireUnlessCurrent (version : Nat) : Act Content Unit := do
  let now ← load .loadCurrent current
  if now = version then return () else tryRetireVersion pool version

def undoPin (slot : Nat) : Act Content Unit := do
  let prev ← unpin slot
  if prev ≠ 1 then
    return ()
  else do
    let version ← load (.slotVersion slot) (slotVersion slot)
    if version = 0 then return () else retireUnlessCurrent pool version

end

end ShmActors.Artifact
