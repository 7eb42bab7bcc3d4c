import ShmActors.Artifact.Stream
import ShmActors.Lib.Labels

/-! One slot of a keyed store's catalog and the head behind it: eviction of the
key, the tombstone sweep and the re-creation of `shm-store/src/store.rs` over
`shm-store/src/catalog.rs`. -/

namespace ShmActors.Artifact

open Lib Core Program

/-- `SLOT_FREE`, `SLOT_LIVE`, `SLOT_TOMBSTONE`, `SLOT_RECLAIMING`. -/
inductive EntryState where
  | free
  | live
  | tombstone
  | reclaiming
  deriving DecidableEq, Repr

/-- The packed `{gen, state}`. -/
structure EntryWord where
  gen : Nat
  state : EntryState
  deriving DecidableEq, Repr

/-- A catalog slot, and whether it is there to be allocated. -/
structure CatalogSlot where
  word : EntryWord
  unused : Bool

structure Shelf (Content : Type) where
  memory : Memory Content
  entry : CatalogSlot

/-- The accesses of the store, beside those made through a handle. `returned` is
none: it marks where a call ends. -/
inductive StoreSite where
  | artifact (site : Site)
  | attach
  | retireHead
  | scan
  | commission (incarnation : Nat)
  | readLease
  | initHead (incarnation : Nat)
  | carryLease
  | loadWord
  | exchangeWord
  | storeWord
  | popFree
  | pushFree
  | returned
  deriving DecidableEq, Repr

abbrev StoreAct (Content : Type) := Program (Shelf Content) StoreSite

section

variable {Content : Type}

def memoryOf : Ref (Shelf Content) (Memory Content) :=
  ⟨Shelf.memory, fun memory shelf => { shelf with memory := memory }⟩

def headOf : Ref (Shelf Content) ArtifactHead :=
  memoryOf.field Memory.head fun head memory => { memory with head := head }

def incarnationOf : Ref (Shelf Content) Nat :=
  headOf.field ArtifactHead.incarnation fun incarnation head => { head with incarnation := incarnation }

def leaseOf : Ref (Shelf Content) Lease :=
  headOf.field ArtifactHead.writeLease fun lease head => { head with writeLease := lease }

def entryOf : Ref (Shelf Content) CatalogSlot :=
  ⟨Shelf.entry, fun entry shelf => { shelf with entry := entry }⟩

def entryWord : Ref (Shelf Content) EntryWord :=
  entryOf.field CatalogSlot.word fun word entry => { entry with word := word }

def entryUnused : Ref (Shelf Content) Bool :=
  entryOf.field CatalogSlot.unused fun unused entry => { entry with unused := unused }

end

def noIncarnation : Nat := 0

section

variable {Content : Type}

/-- `cas_state`: at the gen found. -/
def casState (source goal : EntryState) : StoreAct Content Bool := do
  let cur ← load .loadWord entryWord
  repeatFrom (fun cur => do
    if cur.state ≠ source then
      return .inr false
    else match ← compareExchange .exchangeWord entryWord cur ⟨cur.gen, goal⟩ with
    | none => return .inr true
    | some now => return .inl now) cur

def tombstoneGen (gen : Nat) : StoreAct Content Bool := do
  match ← compareExchange .exchangeWord entryWord ⟨gen, .live⟩ ⟨gen, .tombstone⟩ with
  | none => return true
  | some _ => return false

def abortReclaim : StoreAct Content Unit := do
  let cur ← load .loadWord entryWord
  store .storeWord entryWord ⟨cur.gen, .tombstone⟩

/-- `finish_reclaim`: a slot whose gen would wrap stays as it is for good. -/
def finishReclaim : StoreAct Content Bool := do
  let cur ← load .loadWord entryWord
  if 2 ^ 32 ≤ cur.gen + 1 then
    return false
  else do
    store .storeWord entryWord ⟨cur.gen + 1, .free⟩
    return true

end

section

variable {Content : Type} (nameId : Nat) (pool : Pool)

/-- Code run through a handle. -/
def through {Result : Type} (code : Act Content Result) : StoreAct Content Result :=
  code.within memoryOf .artifact

/-- `attach_at`: a handle on the occupant found. -/
def attachAt : StoreAct Content (Option Handle) := do
  let incarnation ← load .attach incarnationOf
  if incarnation = noIncarnation then return none else return some ⟨nameId, incarnation, pool⟩

def attachAtIncarnation (expected : Nat) : StoreAct Content (Option Handle) := do
  match ← attachAt nameId pool with
  | none => return none
  | some artifact => if artifact.incarnation ≠ expected then return none else return some artifact

/-- The scan of `is_quiescent` over the pin slots. -/
def slotsQuiet : List Nat → StoreAct Content Bool
  | [] => return true
  | slot :: rest => do
    let head ← load .scan headOf
    if (head.pins slot).state ≠ .free then
      return false
    else do
      let head ← load .scan headOf
      if (head.pins slot).pins ≠ 0 then return false else slotsQuiet rest

def isQuiescent : StoreAct Content Bool := do
  let head ← load .scan headOf
  if head.current ≠ noVersion then
    return false
  else do
    let lease ← load .scan leaseOf
    if lease.owner ≠ ownerNone then return false else slotsQuiet (List.range MAX_LIVE_VERSIONS)

/-- `entry_is_finished`: tear down again, take the head out of service, scan. -/
def entryIsFinished : StoreAct Content Bool := do
  match ← attachAt nameId pool with
  | none => return false
  | some artifact =>
    match ← through (evictAll artifact) with
    | .error _ => return false
    | .ok () =>
      let held ← fetchUpdate .retireHead incarnationOf fun _ => noIncarnation
      let quiet ← isQuiescent
      if quiet then
        return true
      else do
        store (.commission held) incarnationOf held
        return false

def tryReclaimEntry : StoreAct Content Bool := do
  let begun ← casState .tombstone .reclaiming
  if !begun then
    return false
  else do
    let finished ← entryIsFinished nameId pool
    if !finished then do
      abortReclaim
      return false
    else do
      let freed ← finishReclaim
      if freed then do
        store .pushFree entryUnused true
        return true
      else
        return false

/-- `sweep_tombstones`, as far as it concerns this slot. -/
def sweepTombstone : StoreAct Content Bool := do
  let word ← load .loadWord entryWord
  if word.state = .tombstone then tryReclaimEntry nameId pool else return false

/-- `KeyedStore::evict` of the key the slot holds. -/
def evictKey : StoreAct Content Unit := do
  let word ← load .loadWord entryWord
  if word.state ≠ .live then
    return ()
  else do
    let found ← load .loadWord entryWord
    let won ← tombstoneGen found.gen
    if !won then
      return ()
    else do
      match ← attachAtIncarnation nameId pool found.gen with
      | none => pure ()
      | some artifact => do let _ ← through (evictAll artifact)
      let _ ← tryReclaimEntry nameId pool

/-- `Artifact::create_at`. The plain write of the fresh head is one step. -/
def createAt (incarnation : Nat) : StoreAct Content Handle := do
  let prior ← load .readLease leaseOf
  store (.initHead incarnation) headOf (.fresh noIncarnation)
  store .carryLease leaseOf ⟨ownerNone, prior.fence⟩
  store (.commission incarnation) incarnationOf incarnation
  return ⟨nameId, incarnation, pool⟩

/-- `KeyedStore::create`, when it allocates this slot. -/
def createEntry : StoreAct Content (Option Handle) := do
  let unused ← fetchUpdate .popFree entryUnused fun _ => false
  if !unused then
    return none
  else do
    let word ← load .loadWord entryWord
    let artifact ← createAt nameId pool word.gen
    let _ ← casState .free .live
    return some artifact

end

end ShmActors.Artifact
