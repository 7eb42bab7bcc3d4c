import ShmActors.Keyed.Catalog

/-! The keyed store of `shm-store/src/store.rs`: entries created, opened, evicted
and swept by key, over the catalog and one head for each of its slots. -/

namespace ShmActors.Keyed

open Lib Core Program
open Artifact (ArtifactHead Handle Heap Journal Pool EntryState EntryWord attachAt attachAtIncarnation
  createAt entryIsFinished evictAll through)

/-- The segments of a store: the catalog, the heads by their offset, the shared
data pool, and the journals of the actors. -/
structure Store (Content : Type) where
  table : Table
  heads : Nat → ArtifactHead
  heap : Heap Content
  journals : Nat → Journal

/-- A keyed entry: the artifact attached to, with the offset of its head. -/
structure Entry where
  artifact : Handle
  headOff : Nat
  keyId : Nat
  kind : RefKind

inductive KeyCall where
  | create (keyId : Nat) (kind : RefKind)
  | open (keyId : Nat)
  | evict (keyId : Nat)
  | sweep
  deriving DecidableEq, Repr

inductive KeyAnswer where
  | created (outcome : Except StoreError Entry)
  | opened (outcome : Except StoreError Entry)
  | evicted (outcome : Except StoreError Unit)
  | swept (freed : Nat)

/-- The accesses: to the catalog, and to the head at an offset and what belongs
to it. `returned` is none: it marks where a call ends. -/
inductive KeySite where
  | table (site : TableSite)
  | head (headOff : Nat) (site : Artifact.StoreSite)
  | returned (answer : KeyAnswer)

abbrev KeyAct (Content : Type) := Program (Store Content) KeySite

section

variable {Content : Type}

def tableOf : Ref (Store Content) Table := ⟨Store.table, fun table store => { store with table := table }⟩

/-- A head as the code of one slot sees it; the slot's own word is in the table. -/
def shelfAt (headOff : Nat) : Ref (Store Content) (Artifact.Shelf Content) where
  get store := ⟨⟨store.heads headOff, store.heap, store.journals⟩, ⟨⟨0, .free⟩, false⟩⟩
  set shelf store :=
    { store with
      heads := Function.update store.heads headOff shelf.memory.head
      heap := shelf.memory.heap
      journals := shelf.memory.journals }

/-- Code of the catalog. -/
def cat {Result : Type} (code : TableAct Result) : KeyAct Content Result := code.within tableOf .table

/-- Code on the head at an offset. -/
def on {Result : Type} (headOff : Nat) (code : Artifact.StoreAct Content Result) : KeyAct Content Result :=
  code.within (shelfAt headOff) (.head headOff)

end

section

variable {Content : Type} (catalog : Catalog) (pool : Pool)

/-- `entry_at`. -/
def entryAt (idx : Nat) : KeyAct Content (Except StoreError Entry) := do
  let artifactId ← cat (load (.loadArtifact idx) (artifactOf idx))
  let headOff ← cat (load (.loadHead idx) (headOffOf idx))
  match ← on headOff (attachAt artifactId pool) with
  | none => return .error (.artifact .stale)
  | some artifact => do
    let keyId ← cat (load (.loadKey idx) (keyOf idx))
    let kind ← cat (load (.loadKind idx) (kindOf idx))
    return .ok ⟨artifact, headOff, keyId, kind⟩

def create (keyId : Nat) (kind : RefKind) : KeyAct Content (Except StoreError Entry) := do
  match ← cat (catalog.findLiveByKey keyId) with
  | some idx => entryAt pool idx
  | none =>
    match ← cat catalog.allocSlot with
    | .error reason => return .error reason
    | .ok idx => do
      let incarnation ← cat (gen idx)
      let artifact ← on (catalog.headOffFor idx) (createAt (catalog.artifactIdFor idx) pool incarnation)
      let (_, headOff) ← cat (catalog.publishSlot idx keyId kind)
      return .ok ⟨artifact, headOff, keyId, kind⟩

def openId (keyId : Nat) : KeyAct Content (Except StoreError Entry) := do
  match ← cat (catalog.findLiveByKey keyId) with
  | none => return .error .notFound
  | some idx => entryAt pool idx

/-- `entry_is_finished`, as the catalog's predicate. -/
def finished (artifactId headOff : Nat) : KeyAct Content Bool := on headOff (entryIsFinished artifactId pool)

def tryReclaimSlot (idx : Nat) : KeyAct Content Bool := tryReclaim tableOf .table idx (finished pool)

/-- `KeyedStore::evict`, after its exchange has won. -/
def teardown (idx expected : Nat) : KeyAct Content (Except StoreError Unit) := do
  let artifactId ← cat (load (.loadArtifact idx) (artifactOf idx))
  let headOff ← cat (load (.loadHead idx) (headOffOf idx))
  match ← on headOff (attachAtIncarnation artifactId pool expected) with
  | none => do
    let _ ← tryReclaimSlot pool idx
    return .ok ()
  | some artifact =>
    match ← on headOff (through (evictAll artifact)) with
    | .ok _ | .error .stale => do
      let _ ← tryReclaimSlot pool idx
      return .ok ()
    | .error reason => return .error (.artifact reason)

def evict (keyId : Nat) : KeyAct Content (Except StoreError Unit) := do
  match ← cat (catalog.findLiveByKey keyId) with
  | none => return .ok ()
  | some idx => do
    let expected ← cat (gen idx)
    let won ← cat (tombstoneGen idx expected)
    if !won then return .ok () else teardown pool idx expected

/-- `sweep_tombstones`. -/
def sweepTombstones : KeyAct Content Nat := reclaimTombstones tableOf .table catalog (finished pool)

def answer : KeyCall → KeyAct Content KeyAnswer
  | .create keyId kind => .created <$> create catalog pool keyId kind
  | .open keyId => .opened <$> openId catalog pool keyId
  | .evict keyId => .evicted <$> evict catalog pool keyId
  | .sweep => .swept <$> sweepTombstones catalog pool

/-- A call up to its return. -/
def answerAndReturn (call : KeyCall) : KeyAct Content KeyAnswer := do
  let answer ← answer catalog pool call
  .act (.returned answer) id fun _ => .ret answer

end

end ShmActors.Keyed
