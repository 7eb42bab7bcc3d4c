import Mathlib.Data.BitVec
import ShmActors.Artifact.Manifest

/-! The shared memory of one artifact: its head, the chunk pool of its data
segment, and the borrow journals of the actors that use it. -/

namespace ShmActors.Artifact

open Lib Core Function

def noVersion : Nat := 0

def MAX_LIVE_VERSIONS : Nat := 64

/-- `SLOT_FREE`, `SLOT_LIVE`, `SLOT_FREEING`. -/
inductive SlotState where
  | free
  | live
  | freeing
  deriving DecidableEq, Repr

structure PinSlot where
  version : Nat
  manifest : PackedRef
  pins : Nat
  state : SlotState
  deriving DecidableEq, Repr

/-- The write lease word `{owner, fence}`. -/
structure Lease where
  owner : Nat
  fence : Nat
  deriving DecidableEq, Repr

structure ArtifactHead where
  current : Nat
  manifestDesc : PackedRef
  writeLease : Lease
  schemaId : Nat
  incarnation : Nat
  pins : Nat → PinSlot

def PinSlot.fresh : PinSlot := ⟨0, .zero, 0, .free⟩

/-- `ArtifactHead::fresh`, commissioned as `incarnation`. -/
def ArtifactHead.fresh (incarnation : Nat) : ArtifactHead where
  current := noVersion
  manifestDesc := .zero
  writeLease := ⟨ownerNone, 0⟩
  schemaId := 0
  incarnation := incarnation
  pins _ := .fresh

/-- What the bytes of a chunk hold: a free-list link, a manifest, the primary
chunk of a batch with its header, or a further chunk of one. -/
inductive Payload (Content : Type) where
  | link
  | manifest (record : VersionManifest)
  | primary (schemaId chunkCount : Nat) (content : Content)
  | continuation (content : Content)

structure SizeClass where
  chunkSize : Nat
  chunkCount : Nat

/-- A pool as laid out in a segment. Every chunk has a 32-bit offset of its own,
so there are fewer than `2 ^ 32` of them. -/
structure Pool where
  segmentId : Nat
  classes : List SizeClass
  fits : (classes.map SizeClass.chunkCount).sum < 2 ^ 32

/-- The pool's part of the segment: control words, payloads, free lists. -/
structure Heap (Content : Type) where
  ctrl : Nat → ChunkCtrl
  payload : Nat → Payload Content
  free : Nat → List Nat

inductive JournalRecord where
  | chunkPin (desc : ChunkDesc)
  | artifactPin (artifactId incarnation version : Nat)
  | writeLease (artifactId incarnation fence : Nat)
  | stagedManifest (artifactId incarnation : Nat) (manifest : PackedRef) (generation : Nat)
  deriving DecidableEq, Repr

/-- `none` is `ENTRY_EMPTY`. -/
structure Journal where
  bitmap : Nat → BitVec 64
  entries : Nat → Option JournalRecord
  hint : Nat

structure Memory (Content : Type) where
  head : ArtifactHead
  heap : Heap Content
  journals : Nat → Journal

/-- The accesses, one name for each position in the source that the proofs tell
apart. -/
inductive Site where
  | ctrl (chunk : Nat) (access : CtrlSite)
  | word (chunk : Nat)
  | generation (chunk : Nat)
  | owner (chunk : Nat)
  | pop (index : Nat)
  | push (chunk : Nat)
  | readPayload (chunk : Nat)
  | writePayload (chunk : Nat)
  | loadCurrent
  | install
  | clearCurrent
  | loadManifestDesc
  | publishManifestDesc
  | clearManifestDesc
  | loadSchema
  | setSchema
  | incarnation
  | loadLease
  | exchangeLease
  | slotState (slot : Nat)
  | slotVersion (slot : Nat)
  | slotManifest (slot : Nat)
  | claim (slot : Nat)
  | claimManifest (slot : Nat)
  | claimVersion (slot : Nat)
  | publishPin (slot : Nat)
  | unpin (slot : Nat)
  | exchangePins (slot : Nat)
  | elect (slot : Nat)
  | pinScan (slot : Nat)
  | revert (slot : Nat)
  | clearVersion (slot : Nat)
  | clearManifest (slot : Nat)
  | clearState (slot : Nat)
  | journalHint
  | journalWord (word : Nat)
  | journalRecord (slot : Nat)
  | journalRelease (slot : Nat)
  | journalEntry (slot : Nat)
  deriving DecidableEq, Repr

section

variable {Content : Type}

def headCell : Ref (Memory Content) ArtifactHead :=
  ⟨Memory.head, fun head memory => { memory with head := head }⟩

def current : Ref (Memory Content) Nat :=
  headCell.field ArtifactHead.current fun value head => { head with current := value }

def manifestDesc : Ref (Memory Content) PackedRef :=
  headCell.field ArtifactHead.manifestDesc fun value head => { head with manifestDesc := value }

def writeLease : Ref (Memory Content) Lease :=
  headCell.field ArtifactHead.writeLease fun value head => { head with writeLease := value }

def schemaId : Ref (Memory Content) Nat :=
  headCell.field ArtifactHead.schemaId fun value head => { head with schemaId := value }

def incarnation : Ref (Memory Content) Nat :=
  headCell.field ArtifactHead.incarnation fun value head => { head with incarnation := value }

def pinSlot (slot : Nat) : Ref (Memory Content) PinSlot :=
  headCell.field (fun head => head.pins slot)
    fun value head => { head with pins := update head.pins slot value }

def slotVersion (slot : Nat) : Ref (Memory Content) Nat :=
  (pinSlot slot).field PinSlot.version fun value entry => { entry with version := value }

def slotManifest (slot : Nat) : Ref (Memory Content) PackedRef :=
  (pinSlot slot).field PinSlot.manifest fun value entry => { entry with manifest := value }

def slotPins (slot : Nat) : Ref (Memory Content) Nat :=
  (pinSlot slot).field PinSlot.pins fun value entry => { entry with pins := value }

def slotState (slot : Nat) : Ref (Memory Content) SlotState :=
  (pinSlot slot).field PinSlot.state fun value entry => { entry with state := value }

def heapCell : Ref (Memory Content) (Heap Content) :=
  ⟨Memory.heap, fun heap memory => { memory with heap := heap }⟩

def ctrlAt (chunk : Nat) : Ref (Memory Content) ChunkCtrl :=
  heapCell.field (fun heap => heap.ctrl chunk)
    fun value heap => { heap with ctrl := update heap.ctrl chunk value }

def payloadAt (chunk : Nat) : Ref (Memory Content) (Payload Content) :=
  heapCell.field (fun heap => heap.payload chunk)
    fun value heap => { heap with payload := update heap.payload chunk value }

def freeAt (index : Nat) : Ref (Memory Content) (List Nat) :=
  heapCell.field (fun heap => heap.free index)
    fun value heap => { heap with free := update heap.free index value }

def journalCell (journal : Nat) : Ref (Memory Content) Journal :=
  ⟨fun memory => memory.journals journal,
    fun value memory => { memory with journals := update memory.journals journal value }⟩

def bitmapWord (journal word : Nat) : Ref (Memory Content) (BitVec 64) :=
  (journalCell journal).field (fun state => state.bitmap word)
    fun value state => { state with bitmap := update state.bitmap word value }

def journalEntry (journal slot : Nat) : Ref (Memory Content) (Option JournalRecord) :=
  (journalCell journal).field (fun state => state.entries slot)
    fun value state => { state with entries := update state.entries slot value }

def journalHint (journal : Nat) : Ref (Memory Content) Nat :=
  (journalCell journal).field Journal.hint fun value state => { state with hint := value }

end

namespace Pool

def totalChunks (pool : Pool) : Nat := (pool.classes.map SizeClass.chunkCount).sum

/-- The size class a chunk belongs to; chunks are numbered class after class. -/
def classOf : List SizeClass → Nat → Nat
  | [], _ => 0
  | first :: rest, chunk =>
    if chunk < first.chunkCount then 0 else classOf rest (chunk - first.chunkCount) + 1

/-- `locate`. A chunk's address is its number, counted from one. -/
def locate (pool : Pool) (offset : Nat) : Option Nat :=
  if 0 < offset ∧ offset ≤ pool.totalChunks then some (offset - 1) else none

/-- The chunks of each class, in the order `Pool::create` links them. -/
def chunksOf (pool : Pool) (index : Nat) : List Nat :=
  (List.range pool.totalChunks).filter fun chunk => classOf pool.classes chunk = index

/-- The pool as created: every chunk free and linked. -/
def create (Content : Type) (pool : Pool) : Heap Content where
  ctrl _ := .initAt 0
  payload _ := .link
  free index := pool.chunksOf index

end Pool

end ShmActors.Artifact
