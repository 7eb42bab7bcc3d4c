import ShmActors.Core.Ctrl
import ShmActors.Lib.Schedule
import Mathlib.Data.Finset.Card

/-! One chunk under any number of processes. What a caller of the control word
must hold for a call (the chunk off the free list, the loan, the ownership, a
borrow) is counted here; a hold may be used by any process, so a reclaimer
acting for a dead process is one more caller. -/

namespace ShmActors.Core.CtrlSystem

open Lib Function

inductive Hold where
  | listed
  | blank
  | loan
  | owner
  | borrow
  | freed
  deriving DecidableEq

structure Memory where
  ctrl : ChunkCtrl
  holds : Hold → Nat

inductive Site where
  | ctrl (label : CtrlSite)
  | take (hold : Hold)
  | give (hold : Hold)
  | report

inductive Op where
  | alloc
  | loan (owner : Nat)
  | publish
  | dropLoan
  | borrow
  | release
  | ownerRelease
  | tryReclaim
  | free

/-- A move to `FREE`, as it happened: in which publication, from which state,
under which owner word, and how many borrows were left. -/
structure Freed where
  publication : Nat
  fromState : ChunkState
  owner : Nat
  outstanding : Nat
  deriving DecidableEq

structure Past where
  publications : Nat
  outstanding : Nat
  /-- The publication in which each actor last read the owner to reclaim. -/
  seen : Nat → Nat
  frees : List Freed
  /-- The publications for which a caller got `true`, newest first. -/
  trues : List Nat

def ctrlRef : Ref Memory ChunkCtrl := ⟨Memory.ctrl, fun ctrl memory => { memory with ctrl := ctrl }⟩

def Memory.addHold (memory : Memory) (hold : Hold) : Memory :=
  { memory with holds := update memory.holds hold (memory.holds hold + 1) }

def Memory.dropHold (memory : Memory) (hold : Hold) : Memory :=
  { memory with holds := update memory.holds hold (memory.holds hold - 1) }

/-- Run an operation that uses up a hold, if there is one to use. -/
def taking (hold : Hold) (rest : Program Memory Site Unit) : Program Memory Site Unit :=
  .act (.take hold) (fun memory => memory.dropHold hold)
    (fun memory => if memory.holds hold = 0 then .ret () else rest)

def give (hold : Hold) : Program Memory Site Unit :=
  .act (.give hold) (fun memory => memory.addHold hold) (fun _ => .ret ())

/-- The caller got `true`: the chunk is now its to put on the free list. -/
def report : Program Memory Site Unit :=
  .act .report (fun memory => memory.addHold .freed) (fun _ => .ret ())

def program : Op → Program Memory Site Unit
  | .alloc => taking .listed (give .blank)
  | .loan owner => taking .blank do
    match ← Core.tryLoan .ctrl ctrlRef owner with
    | .ok () => give .loan
    | .error _ => give .blank
  | .publish => taking .loan do
    match ← Core.publish .ctrl ctrlRef with
    | .ok () => give .owner
    | .error _ => give .loan
  | .dropLoan => taking .loan do
    match ← Core.dropLoan .ctrl ctrlRef with
    | .ok () => give .freed
    | .error _ => give .loan
  | .borrow => do
    match ← borrowShared .ctrl ctrlRef with
    | .ok () => give .borrow
    | .error _ => return ()
  | .release => taking .borrow do
    if ← releaseShared .ctrl ctrlRef then report
  | .ownerRelease => taking .owner do
    if ← Core.ownerRelease .ctrl ctrlRef then report
  | .tryReclaim => do
    if ← Core.tryReclaim .ctrl ctrlRef then report
  | .free => taking .freed (give .listed)

def Past.free (past : Past) (before : Memory) : Past :=
  { past with
    frees := ⟨past.publications, before.ctrl.word.state, before.ctrl.ownerActor,
      past.outstanding⟩ :: past.frees }

def trackExchange (label : CtrlSite) (before after : Memory) (past : Past) : Past :=
  match label with
  | .publishExchange => { past with publications := past.publications + 1 }
  | .borrowExchange => { past with outstanding := past.outstanding + 1 }
  | .releaseExchange =>
    let past := { past with outstanding := past.outstanding - 1 }
    if after.ctrl.word.state = .free then past.free before else past
  | .dropExchange | .reclaimExchange => past.free before
  | _ => past

def track (actor : Nat) (site : Site) (before after : Memory) (past : Past) : Past :=
  match site with
  | .ctrl .reclaimOwner =>
    { past with seen := update past.seen actor past.publications }
  | .ctrl label => if before.ctrl.word = after.ctrl.word then past
    else trackExchange label before after past
  | .report => { past with trues := past.publications :: past.trues }
  | .take _ | .give _ => past

/-- The runs in which no `try_reclaim` that finds a reclaimable word is
overtaken by a new publication between its two accesses, and in which a count
never reaches the end of its 32 bits. -/
def Undisturbed (actor : Nat) (site : Site) (memory : Memory) (past : Past) : Prop :=
  match site with
  | .ctrl .reclaimExchange =>
    memory.ctrl.word = ⟨.published, 0⟩ → past.seen actor = past.publications
  | .ctrl .borrowExchange => past.outstanding < 2 ^ 32 - 1
  | _ => True

def actors (allowed : Nat → Site → Memory → Past → Prop) :
    Actors Memory Site Past Op Unit Unit where
  program := program
  enabled _ op := match op with
    | .loan owner => owner ≠ ownerNone
    | _ => True
  start _ _ := ()
  finish _ _ _ := ()
  track := track
  allowed := allowed

abbrev Run := Config Memory Site Past Op Unit Unit

/-- A new pool's chunk: on the free list, at some starting generation. -/
def initial (generation : Nat) : Run where
  state :=
    { ctrl := .initAt generation
      holds := fun hold => if hold = .listed then 1 else 0 }
  history := ⟨0, 0, fun _ => 0, [], []⟩
  thread _ := .idle ()

def Idle (run : Run) : Prop := ∀ actor, run.thread actor = .idle ()

/-- The publications whose chunk was freed, newest first. -/
def publishedFrees (frees : List Freed) : List Nat :=
  (frees.filter fun freed => freed.fromState = .published).map Freed.publication

/-- What the control word promises in a state of a run. -/
structure Sound (generation : Nat) (run : Run) : Prop where
  /-- A chunk is freed with no borrow left and its owner gone. -/
  released : ∀ freed ∈ run.history.frees, freed.outstanding = 0 ∧
    (freed.fromState = .published → freed.owner = ownerNone)
  /-- No publication is freed twice, and none is succeeded before it is freed. -/
  freed_once : ∀ publication, 1 ≤ publication → publication ≤ run.history.publications →
    (publishedFrees run.history.frees).count publication ≤ 1 ∧
    (publication < run.history.publications →
      (publishedFrees run.history.frees).count publication = 1)
  /-- One caller gets `true` for it. -/
  true_once : ∀ publication, 1 ≤ publication → publication ≤ run.history.publications →
    run.history.trues.count publication ≤ 1 ∧
    (publication < run.history.publications → run.history.trues.count publication = 1)
  refcount : run.state.ctrl.word.refcount = run.history.outstanding
  /-- The borrows counted are those held, and those of calls under way. -/
  borrows : ∃ underWay : Finset Nat, run.history.outstanding = run.state.holds .borrow + underWay.card ∧
    ∀ actor ∈ underWay, run.thread actor ≠ .idle ()
  /-- One generation per free; the bump follows the move within its operation. -/
  generation : ∃ pending ≤ 1, (run.state.ctrl.generation + pending) % 2 ^ 32 =
    (generation + run.history.frees.length) % 2 ^ 32 ∧ (Idle run → pending = 0)
  /-- Nothing is left behind: once all is released, somebody has freed it. -/
  settled : Idle run → 1 ≤ run.history.publications →
    (run.state.ctrl.word.state = .published ∧
      (run.state.ctrl.ownerActor ≠ ownerNone ∨ run.history.outstanding ≠ 0)) ∨
    ((publishedFrees run.history.frees).count run.history.publications = 1 ∧
      run.history.trues.count run.history.publications = 1)

end ShmActors.Core.CtrlSystem
