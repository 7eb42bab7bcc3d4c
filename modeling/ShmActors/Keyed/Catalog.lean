import ShmActors.Artifact.Store
import ShmActors.Core.Treiber

/-! The catalog of `shm-store/src/catalog.rs`: a table of slots that hold keyed
entries, a high-water mark, and a free list of slots to be used again. -/

namespace ShmActors.Keyed

open Lib Core
open Artifact (EntryState EntryWord)

inductive RefKind where
  | rawChunk
  | object
  | artifact
  | dataset
  | result
  deriving DecidableEq, Repr

inductive StoreError where
  | notFound
  | catalogFull (capacity : Nat)
  | artifact (reason : Artifact.Error)
  deriving DecidableEq, Repr

/-- A slot, without its link in the free list. -/
structure Slot where
  keyId : Nat
  artifactId : Nat
  headOff : Nat
  kind : RefKind
  word : EntryWord

/-- The catalog segment: the header's words and the slots. -/
structure Table where
  nextSlot : Nat
  lists : Stacks Unit
  slot : Nat → Slot

/-- What a handle has cached, and the constants of the header. -/
structure Catalog where
  capacity : Nat
  small : capacity < 2 ^ 32
  headStride : Nat
  artifactIdBase : Nat

/-- `FIRST_GEN`. -/
def firstGen : Nat := 1

/-- One constructor a kind of access; an exchange or store of a slot's word is
named by the state it brings about. -/
inductive TableSite where
  | popLoad
  | popNext
  | popExchange
  | pushLoad
  | pushNext
  | pushExchange (idx : Nat)
  | bump
  | unbump
  | loadNext
  | scanState (idx : Nat)
  | scanKey (idx : Nat)
  | loadGen (idx : Nat)
  | loadWord (idx : Nat)
  | exchangeWord (idx : Nat) (goal : EntryState)
  | storeWord (idx : Nat) (goal : EntryState)
  | storeKey (idx : Nat)
  | storeArtifact (idx : Nat)
  | storeHead (idx : Nat)
  | storeKind (idx : Nat)
  | loadKey (idx : Nat)
  | loadArtifact (idx : Nat)
  | loadHead (idx : Nat)
  | loadKind (idx : Nat)
  deriving DecidableEq, Repr

abbrev TableAct := Program Table TableSite

section

def nextSlotOf : Ref Table Nat := ⟨Table.nextSlot, fun next table => { table with nextSlot := next }⟩

/-- `free_head` and the `next_free` links. -/
def listsOf : StackView Unit Table where
  get := Table.lists
  set lists table := { table with lists := lists }
  get_set _ _ := rfl

def slotAt (idx : Nat) : Ref Table Slot :=
  ⟨fun table => table.slot idx, fun slot table => { table with slot := Function.update table.slot idx slot }⟩

def wordOf (idx : Nat) : Ref Table EntryWord :=
  (slotAt idx).field Slot.word fun word slot => { slot with word := word }

def keyOf (idx : Nat) : Ref Table Nat :=
  (slotAt idx).field Slot.keyId fun key slot => { slot with keyId := key }

def artifactOf (idx : Nat) : Ref Table Nat :=
  (slotAt idx).field Slot.artifactId fun artifact slot => { slot with artifactId := artifact }

def headOffOf (idx : Nat) : Ref Table Nat :=
  (slotAt idx).field Slot.headOff fun headOff slot => { slot with headOff := headOff }

def kindOf (idx : Nat) : Ref Table RefKind :=
  (slotAt idx).field Slot.kind fun kind slot => { slot with kind := kind }

end

section

variable (idx : Nat)

def gen : TableAct Nat := do
  let word ← load (.loadGen idx) (wordOf idx)
  return word.gen

/-- `write_fields`. -/
def writeFields (keyId artifactId headOff : Nat) (kind : RefKind) : TableAct Unit := do
  store (.storeKey idx) (keyOf idx) keyId
  store (.storeArtifact idx) (artifactOf idx) artifactId
  store (.storeHead idx) (headOffOf idx) headOff
  store (.storeKind idx) (kindOf idx) kind

/-- `cas_state`: at the gen found. -/
def casState (source goal : EntryState) : TableAct Bool := do
  let cur ← load (.loadWord idx) (wordOf idx)
  repeatFrom (fun cur => do
    if cur.state ≠ source then
      return .inr false
    else match ← compareExchange (.exchangeWord idx goal) (wordOf idx) cur ⟨cur.gen, goal⟩ with
    | none => return .inr true
    | some now => return .inl now) cur

def tombstoneGen (gen : Nat) : TableAct Bool := do
  match ← compareExchange (.exchangeWord idx .tombstone) (wordOf idx) ⟨gen, .live⟩ ⟨gen, .tombstone⟩ with
  | none => return true
  | some _ => return false

def abortReclaim : TableAct Unit := do
  let cur ← load (.loadWord idx) (wordOf idx)
  store (.storeWord idx .tombstone) (wordOf idx) ⟨cur.gen, .tombstone⟩

/-- `finish_reclaim`: the gen of the next occupant, or nothing if it would wrap. -/
def finishReclaim : TableAct (Option Nat) := do
  let cur ← load (.loadWord idx) (wordOf idx)
  if 2 ^ 32 ≤ cur.gen + 1 then
    return none
  else do
    store (.storeKey idx) (keyOf idx) 0
    store (.storeWord idx .free) (wordOf idx) ⟨cur.gen + 1, .free⟩
    return some (cur.gen + 1)

end

def popFree : TableAct (Option Nat) := treiberPop .popLoad .popNext .popExchange (listsOf.head ()) listsOf.next

def pushFree (idx : Nat) : TableAct Unit :=
  treiberPush .pushLoad .pushNext (.pushExchange idx) (listsOf.head ()) idx listsOf.next

namespace Catalog

variable (catalog : Catalog)

def allocSlot : TableAct (Except StoreError Nat) := do
  match ← popFree with
  | some idx => return .ok idx
  | none => do
    let idx ← fetchUpdate .bump nextSlotOf fun next => (next + 1) % 2 ^ 32
    if catalog.capacity ≤ idx then do
      let _ ← fetchUpdate .unbump nextSlotOf fun next => (next + 2 ^ 32 - 1) % 2 ^ 32
      return .error (.catalogFull catalog.capacity)
    else
      return .ok idx

def headOffFor (idx : Nat) : Nat := idx * catalog.headStride % 2 ^ 32

def artifactIdFor (idx : Nat) : Nat := (catalog.artifactIdBase + idx) % 2 ^ 32

def publishSlot (idx keyId : Nat) (kind : RefKind) : TableAct (Nat × Nat) := do
  writeFields idx keyId (catalog.artifactIdFor idx) (catalog.headOffFor idx) kind
  let _ ← casState idx .free .live
  return (catalog.artifactIdFor idx, catalog.headOffFor idx)

/-- The slots `find_live_by_key` has still to look at. -/
def scan (keyId : Nat) : List Nat → TableAct (Option Nat)
  | [] => return none
  | idx :: rest => do
    let word ← load (.scanState idx) (wordOf idx)
    if word.state = .live then do
      let key ← load (.scanKey idx) (keyOf idx)
      if key = keyId then return some idx else scan keyId rest
    else
      scan keyId rest

def findLiveByKey (keyId : Nat) : TableAct (Option Nat) := do
  let next ← load .loadNext nextSlotOf
  scan keyId (List.range (min next catalog.capacity))

end Catalog

section

variable {State Site : Type} (table : Ref State Table) (place : TableSite → Site)

/-- `try_reclaim`; the quiescence predicate may look beyond the table. -/
def tryReclaim (idx : Nat) (quiescent : Nat → Nat → Program State Site Bool) : Program State Site Bool := do
  let begun ← (casState idx .tombstone .reclaiming).within table place
  if !begun then
    return false
  else do
    let artifactId ← (load (.loadArtifact idx) (artifactOf idx)).within table place
    let headOff ← (load (.loadHead idx) (headOffOf idx)).within table place
    let quiet ← quiescent artifactId headOff
    if !quiet then do
      (abortReclaim idx).within table place
      return false
    else match ← (finishReclaim idx).within table place with
      | some _ => do
        (pushFree idx).within table place
        return true
      | none => return false

/-- The slots `reclaim_tombstones` has still to look at. -/
def reclaimAmong (quiescent : Nat → Nat → Program State Site Bool) : List Nat → Program State Site Nat
  | [] => return 0
  | idx :: rest => do
    let word ← (load (.loadWord idx) (wordOf idx)).within table place
    if word.state = .tombstone then do
      let freed ← tryReclaim table place idx quiescent
      let others ← reclaimAmong quiescent rest
      return (if freed then 1 else 0) + others
    else
      reclaimAmong quiescent rest

def reclaimTombstones (catalog : Catalog) (quiescent : Nat → Nat → Program State Site Bool) :
    Program State Site Nat := do
  let next ← (load .loadNext nextSlotOf).within table place
  reclaimAmong table place quiescent (List.range (min next catalog.capacity))

end

/-- The segment `Catalog::init` leaves. -/
def blankTable : Table where
  nextSlot := 0
  lists := ⟨fun _ => ⟨0, EMPTY⟩, fun _ => EMPTY⟩
  slot _ := ⟨0, 0, 0, .rawChunk, ⟨firstGen, .free⟩⟩

end ShmActors.Keyed
