import ShmActors.Lib.Program

/-! The per-chunk control word of `shm-core/src/ctrl.rs`. -/

namespace ShmActors.Core

open Lib

/-- `FREE`, `LOANED`, `PUBLISHED`. -/
inductive ChunkState where
  | free
  | loaned
  | published
  deriving DecidableEq, Repr

/-- The packed word `{state:32 | refcount:32}`: one atomic. -/
structure Word where
  state : ChunkState
  refcount : Nat
  deriving DecidableEq, Repr

structure ChunkCtrl where
  word : Word
  ownerActor : Nat
  generation : Nat
  deriving DecidableEq, Repr

/-- `OWNER_NONE`: no owner, or an owner that has released. -/
def ownerNone : Nat := 0

/-- The descriptor by which a chunk travels. -/
structure ChunkDesc where
  segmentId : Nat
  generation : Nat
  offset : Nat
  len : Nat
  schemaId : Nat
  deriving DecidableEq, Repr

def ChunkDesc.zero : ChunkDesc := ⟨0, 0, 0, 0, 0⟩

inductive Error where
  | invalidState
  | staleDescriptor
  deriving DecidableEq, Repr

/-- `ChunkCtrl::init_at`. -/
def ChunkCtrl.initAt (generation : Nat) : ChunkCtrl := ⟨⟨.free, 0⟩, ownerNone, generation⟩

/-- One constructor per atomic access of the functions below. -/
inductive CtrlSite where
  | loanExchange | loanOwner
  | publishLoad | publishExchange
  | dropLoad | dropExchange | dropOwner | dropGeneration
  | borrowLoad | borrowExchange
  | releaseLoad | releaseOwner | releaseExchange | releaseGeneration
  | ownerRelease
  | reclaimOwner | reclaimExchange | reclaimGeneration
  deriving DecidableEq, Repr

section

variable {State Site : Type} (site : CtrlSite → Site) (ctrl : Ref State ChunkCtrl)

def wordOf : Ref State Word := ctrl.field ChunkCtrl.word fun word chunk => { chunk with word := word }

def ownerOf : Ref State Nat :=
  ctrl.field ChunkCtrl.ownerActor fun owner chunk => { chunk with ownerActor := owner }

def generationOf : Ref State Nat :=
  ctrl.field ChunkCtrl.generation fun generation chunk => { chunk with generation := generation }

/-- `generation.fetch_add(1)`, on 32 bits. -/
def bumpGeneration (label : CtrlSite) : Program State Site Nat :=
  fetchUpdate (site label) (generationOf ctrl) fun generation => (generation + 1) % 2 ^ 32

def tryLoan (owner : Nat) : Program State Site (Except Error Unit) := do
  match ← compareExchange (site .loanExchange) (wordOf ctrl) ⟨.free, 0⟩ ⟨.loaned, 0⟩ with
  | some _ => return .error .invalidState
  | none =>
    store (site .loanOwner) (ownerOf ctrl) owner
    return .ok ()

/-- The exchange loop shared by `publish`, `drop_loan` and `borrow_shared`: from
the word last seen, install `new` as long as the state is the expected one. -/
def exchangeWhile (label : CtrlSite) (expected : ChunkState) (new : Word → Word) (cur : Word) :
    Program State Site (Word ⊕ Except Error Unit) := do
  if cur.state ≠ expected then
    return .inr (.error .invalidState)
  match ← compareExchange (site label) (wordOf ctrl) cur (new cur) with
  | none => return .inr (.ok ())
  | some now => return .inl now

def publish : Program State Site (Except Error Unit) := do
  let cur ← load (site .publishLoad) (wordOf ctrl)
  repeatFrom (exchangeWhile site ctrl .publishExchange .loaned
    fun cur => ⟨.published, cur.refcount⟩) cur

def dropLoan : Program State Site (Except Error Unit) := do
  let cur ← load (site .dropLoad) (wordOf ctrl)
  match ← repeatFrom (exchangeWhile site ctrl .dropExchange .loaned fun _ => ⟨.free, 0⟩) cur with
  | .error reason => return .error reason
  | .ok () =>
    store (site .dropOwner) (ownerOf ctrl) ownerNone
    let _ ← bumpGeneration site ctrl .dropGeneration
    return .ok ()

def borrowShared : Program State Site (Except Error Unit) := do
  let cur ← load (site .borrowLoad) (wordOf ctrl)
  repeatFrom (exchangeWhile site ctrl .borrowExchange .published
    fun cur => ⟨.published, (cur.refcount + 1) % 2 ^ 32⟩) cur

def tryReclaim : Program State Site Bool := do
  let owner ← load (site .reclaimOwner) (ownerOf ctrl)
  if owner ≠ ownerNone then
    return false
  match ← compareExchange (site .reclaimExchange) (wordOf ctrl) ⟨.published, 0⟩ ⟨.free, 0⟩ with
  | none =>
    let _ ← bumpGeneration site ctrl .reclaimGeneration
    return true
  | some _ => return false

/-- The word `release_shared` tries to install. -/
def releasedWord (cur : Word) (ownerGone : Bool) : Word :=
  if cur.refcount = 1 ∧ ownerGone then ⟨.free, 0⟩
  else ⟨.published, (cur.refcount + 2 ^ 32 - 1) % 2 ^ 32⟩

def releaseExchange (cur : Word) (ownerGone : Bool) : Program State Site (Word ⊕ Bool) := do
  let new := releasedWord cur ownerGone
  match ← compareExchange (site .releaseExchange) (wordOf ctrl) cur new with
  | some now => return .inl now
  | none =>
    if new.state = .free then
      let _ ← bumpGeneration site ctrl .releaseGeneration
      return .inr true
    else if cur.refcount = 1 then
      -- The owner may have released between the check and the exchange.
      let freed ← tryReclaim site ctrl
      return .inr freed
    else
      return .inr false

def releaseRound (cur : Word) : Program State Site (Word ⊕ Bool) := do
  let owner ← load (site .releaseOwner) (ownerOf ctrl)
  releaseExchange site ctrl cur (owner = ownerNone)

def releaseShared : Program State Site Bool := do
  let cur ← load (site .releaseLoad) (wordOf ctrl)
  repeatFrom (releaseRound site ctrl) cur

def ownerRelease : Program State Site Bool := do
  store (site .ownerRelease) (ownerOf ctrl) ownerNone
  tryReclaim site ctrl

end

end ShmActors.Core
