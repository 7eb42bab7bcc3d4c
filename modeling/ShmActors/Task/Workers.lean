import ShmActors.Task.Membership

/-! The task queue with its callers: a worker claims a task, may bind outputs,
and completes, fails or drops its claim; requesters poll. -/

namespace ShmActors.Task

open Lib Core Program

inductive TaskStatus where
  | queued
  | claimed
  | done (result : ChunkDesc)
  | failed
  | cancelled
  deriving DecidableEq

section

/-- The descriptor of a task seen `DONE`, unless its slot was reused meanwhile. -/
def pollResult (handle : TaskHandle) : Code (Except QueueError TaskStatus) := do
  let result ← load .field (resultOf handle.slotIdx)
  let seq ← load .field (seqOf handle.slotIdx)
  if seq ≠ handle.seq then return .error .staleHandle else return .ok (.done result)

def pollStatus (handle : TaskHandle) : TaskState → Code (Except QueueError TaskStatus)
  | .queued | .reserved => return .ok .queued
  | .claimed | .completing => return .ok .claimed
  | .done => pollResult handle
  | .failed => return .ok .failed
  | .cancelled => return .ok .cancelled
  | .empty => return .error .staleHandle

def poll (queue : Queue) (handle : TaskHandle) : Code (Except QueueError TaskStatus) := do
  if handle.slotIdx ≥ queue.capacity then
    return .error .staleHandle
  else do
    let seq ← load .field (seqOf handle.slotIdx)
    if seq ≠ handle.seq then
      return .error .staleHandle
    else do
      let state ← load .field (stateOf handle.slotIdx)
      pollStatus handle state

end

deriving instance DecidableEq for ClaimedTask

/-- What a worker does with its `ClaimedTask` in the end. -/
inductive Verdict where
  | complete (result : ChunkDesc)
  | fail
  | drop

/-- Who makes an access. -/
inductive Role where
  | caller
  | reaper
  | finisher (task : ClaimedTask) (verdict : Verdict)

inductive Call where
  | submit (request : ChunkDesc) (deadline : Nat) (input : Option LeaseBinding)
  | work (workerId : Nat) (deadline : Option Nat) (outputs : ClaimedTask → List LeaseBinding)
      (verdict : ClaimedTask → Verdict)
  | cancel (handle : TaskHandle)
  | reap (now : Nat)
  | ack (handle : TaskHandle)
  | reapBindings (now grace : Nat)
  | poll (handle : TaskHandle)

inductive Answer where
  | submitted (outcome : Except QueueError TaskHandle)
  | worked (outcome : Option (ClaimedTask × Option (Except QueueError Unit)))
  | cancelled (outcome : Except QueueError Unit)
  | reaped (report : ReapReport)
  | acked (outcome : Except QueueError Nat)
  | released (bindings : List LeaseBinding)
  | polled (outcome : Except QueueError TaskStatus)

/-- `complete(self, ..)`, `fail(self)`, or neither. -/
def settle (task : ClaimedTask) : Verdict → Code (Option (Except QueueError Unit))
  | .complete result => some <$> complete task.idx task.seq result
  | .fail => some <$> fail task.idx task.seq
  | .drop => return none

/-- The life of one claim. A thread that holds several claims at once is several
workers here: between its steps a worker waits for as long as it likes. -/
def work (workerId : Nat) (deadline : Option Nat) (outputs : ClaimedTask → List LeaseBinding)
    (verdict : ClaimedTask → Verdict) : Program Memory (Role × Site) Answer := do
  match ← (claimInner workerId deadline).label Role.caller with
  | none => return .worked none
  | some task =>
    (forEach (fun binding => do let _ ← bindOutput task.idx task.seq binding) (outputs task)).label
      Role.caller
    let outcome ← (settle task (verdict task)).label (Role.finisher task (verdict task))
    return .worked (some (task, outcome))

def call (queue : Queue) : Call → Program Memory (Role × Site) Answer
  | .submit request deadline input =>
    (Answer.submitted <$> submitInner queue request deadline input).label .caller
  | .work workerId deadline outputs verdict => work workerId deadline outputs verdict
  | .cancel handle => (Answer.cancelled <$> cancel queue handle).label .caller
  | .reap now => (Answer.reaped <$> reap queue now).label .reaper
  | .ack handle => (Answer.acked <$> ack queue handle).label .caller
  | .reapBindings now grace => (Answer.released <$> reapBindings queue now grace).label .caller
  | .poll handle => (Answer.polled <$> poll queue handle).label .caller

/-- What becomes of claims: a claim exchange won, a reaper's exchange won on the
slot, the exchange of a `complete` or `fail` call won, and its store of `DONE`. -/
inductive Mark where
  | claimed (actor slot : Nat)
  | reaped (slot : Nat)
  | won (actor : Nat) (task : ClaimedTask)
  | stored (actor : Nat) (task : ClaimedTask) (result : ChunkDesc)
  deriving DecidableEq

abbrev changed (slot : Nat) (before after : Memory) : Prop :=
  (before.slot slot).state ≠ (after.slot slot).state

def note (actor : Nat) (before after : Memory) : Role × Site → List Mark → List Mark
  | (_, .claim slot), marks => if changed slot before after then .claimed actor slot :: marks else marks
  | (_, .requeue slot), marks => if changed slot before after then .reaped slot :: marks else marks
  | (.finisher task _, .fail slot), marks | (.finisher task _, .complete slot), marks =>
    if changed slot before after then .won actor task :: marks else marks
  | (_, .fail slot), marks => if changed slot before after then .reaped slot :: marks else marks
  | (.finisher task (.complete result), .finish _), marks => .stored actor task result :: marks
  | _, marks => marks

/-- The bookkeeping of the stacks, and the marks. -/
abbrev WorkHistory := (Tags Shard × List Event) × List Mark

/-- An actor remembers what its calls returned, newest first. -/
abbrev workers (queue : Queue) (allowed : Nat → Role × Site → Memory → WorkHistory → Prop) :
    Actors Memory (Role × Site) WorkHistory Call (List (Call × Answer)) Answer where
  program := call queue
  enabled _ _ := True
  start own _ := own
  finish own op answer := (op, answer) :: own
  track actor site before after history :=
    ((system queue).actors.track actor site.2 before after history.1,
      note actor before after site history.2)
  allowed := allowed

/-- Every interleaving is a run. -/
abbrev anyWorkers (queue : Queue) := workers queue fun _ _ _ _ => True

abbrev WorkConfig := Config Memory (Role × Site) WorkHistory Call (List (Call × Answer)) Answer

def opening (queue : Queue) : WorkConfig where
  state := init queue
  history := ((⟨fun _ => 0, fun _ _ => 0⟩, []), [])
  thread _ := .idle []

theorem one_fits : 1 < 2 ^ 32 := by decide

/-- A queue of one slot. -/
def single : Queue := ⟨1, 3, Nat.isPowerOfTwo_one, one_fits⟩

/-- A worker that binds no output and completes with a chunk at `offset`. -/
def completing (offset : Nat) : Call :=
  .work 8 none (fun _ => []) fun _ => .complete ⟨0, 0, offset, 0, 0⟩

end ShmActors.Task
