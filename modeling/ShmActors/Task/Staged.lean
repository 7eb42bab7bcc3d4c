import ShmActors.Task.Workers

/-! The calls of the task queue with the position of each access: the same code,
labelled where the history of a run has to tell its accesses apart. -/

namespace ShmActors.Task

open Lib Core Program

/-- What an access is for. `plain` is any access a history need not single out. -/
inductive Stage where
  | plain
  -- submit, with its slot reserved
  | number (slot : Nat)
  | renew (slot : Nat)
  | reset (slot : Nat)
  | due (slot : Nat)
  | clear (slot : Nat)
  -- claim: the sweep over the shards, and the store of the fresh lease
  | lease (deadline : Option Nat)
  | stamp (slot : Nat)
  -- complete: the store of the result
  | answer (slot : Nat)
  -- reap: what it reads of a slot, its exchange, and the store of the retry
  | see (slot : Nat)
  | date (slot now : Nat)
  | count (slot : Nat)
  | lapse (slot now : Nat)
  | again (slot : Nat)
  -- cancel: the loads of the sequence number, the accesses they guard, the rest
  | check (handle : TaskHandle)
  | withdraw (handle : TaskHandle)
  | cancel (handle : TaskHandle)
  -- poll: its loads in order, and its return
  | ask (handle : TaskHandle)
  | look (handle : TaskHandle)
  | read (handle : TaskHandle)
  | recheck (handle : TaskHandle)
  | reply (handle : TaskHandle) (outcome : Except QueueError TaskStatus)

/-- The labels of code that runs as it stands. -/
def Stage.shared : Stage → Bool
  | .plain | .lease _ | .lapse _ _ => true
  | _ => false

/-- The labels of loads of a slot. -/
def Stage.reads : Stage → Bool
  | .number _ | .see _ | .date _ _ | .count _ | .ask _ | .look _ | .read _ | .recheck _ | .reply _ _ => true
  | _ => false

abbrev Steps (Value : Type) := Program Memory (Stage × Site) Value

section

/-- A kind of accesses: where they are made, and what they do. -/
abbrev Kind : Type := Site → (Memory → Memory) → Prop

/-- The kinds of access that include every one to the lease table. -/
def Admits (kind : Kind) : Prop :=
  ∀ update, (∀ memory, (update memory).lists = memory.lists ∧
    (update memory).cancelled = memory.cancelled ∧ (update memory).slot = memory.slot) →
    kind .field update

theorem Admits.load (admits : Admits kind) (cell : Ref Memory Value) : (load .field cell : Code Value).Every kind :=
  ⟨admits id fun _ => ⟨rfl, rfl, rfl⟩, fun _ => trivial⟩

/-- A cell of the lease table. -/
def Leased {Value : Type} (cell : Ref Memory Value) : Prop :=
  ∀ value memory, (cell.set value memory).lists = memory.lists ∧
    (cell.set value memory).cancelled = memory.cancelled ∧ (cell.set value memory).slot = memory.slot

theorem leased_field (idx : Nat) {get : LeaseSlot → Value} {set : Value → LeaseSlot → LeaseSlot} :
    Leased ((leaseRef idx).field get set) :=
  fun _ _ => ⟨rfl, rfl, rfl⟩

theorem leased_head : Leased (leaseView.head ()) := fun _ _ => ⟨rfl, rfl, rfl⟩

theorem leased_next (idx : Nat) : Leased (leaseView.next idx) := fun _ _ => ⟨rfl, rfl, rfl⟩

theorem Admits.store (admits : Admits kind) {cell : Ref Memory Value} (leased : Leased cell) (val : Value) :
    (store .field cell val : Code Unit).Every kind := ⟨admits _ (leased val), fun _ => trivial⟩

theorem Admits.exchange [DecidableEq Value] {cell : Ref Memory Value} (admits : Admits kind) (leased : Leased cell)
    (now new : Value) :
    (compareExchange .field cell now new : Code (Option Value)).Every kind := by
  refine ⟨admits _ fun mem => ?_, fun _ => trivial⟩
  split
  · exact leased new mem
  · exact ⟨rfl, rfl, rfl⟩

theorem Admits.exchangeWeak [DecidableEq Value] {cell : Ref Memory Value} (admits : Admits kind) (leased : Leased cell)
    (now new : Value) :
    (compareExchangeWeak .field cell now new : Code (Option Value)).Every kind := by
  intro choice
  cases choice with
  | zero => exact admits.load cell
  | succ choice => exact admits.exchange leased now new

end

namespace Staged

section

def writeFields (idx : Nat) (request : ChunkDesc) (deadline : Nat) : Steps Nat := do
  let seq ← load (.number idx, .field) (seqOf idx)
  let newSeq := (seq + 1) % 2 ^ 64
  store (.renew idx, .field) (seqOf idx) newSeq
  store (.plain, .field) (ownerOf idx) ownerNone
  store (.reset idx, .field) (retryOf idx) 0
  store (.plain, .field) (cancelOf idx) 0
  store (.due idx, .field) (deadlineOf idx) deadline
  store (.plain, .field) (requestOf idx) request
  store (.clear idx, .field) (resultOf idx) .zero
  return newSeq

def submitReserved (queue : Queue) (request : ChunkDesc) (deadline : Nat)
    (input : Option (LeaseBinding × Nat)) : Steps (Except QueueError TaskHandle) := do
  match ← (reserveSubmitSlot queue).label .plain with
  | none =>
    match input with
    | some (_, lease) => (pushLease lease).label .plain
    | none => pure ()
    return .error .queueFull
  | some idx =>
    let newSeq ← writeFields idx request deadline
    match input with
    | some (binding, lease) => (arm lease binding idx newSeq deadline).label .plain
    | none => pure ()
    let shard ← nextShard.label .plain
    (publishQueued shard idx).label .plain
    let _ ← load (.plain, .field) waitersWorkRef
    return .ok ⟨idx, newSeq⟩

def submitInner (queue : Queue) (request : ChunkDesc) (deadline : Nat)
    (input : Option LeaseBinding) : Steps (Except QueueError TaskHandle) :=
  match input with
  | none => submitReserved queue request deadline none
  | some binding => do
    match ← popLease.label .plain with
    | none => return .error .leaseTableFull
    | some lease => submitReserved queue request deadline (some (binding, lease))

end

section

def claimInner (workerId : Nat) (deadline : Option Nat) : Steps (Option ClaimedTask) := do
  match ← (firstOf claimPop (claimOrder workerId)).label (.lease deadline) with
  | none => return none
  | some idx =>
    store (.plain, .field) (ownerOf idx) workerId
    match deadline with
    | some deadline => store (.stamp idx, .field) (deadlineOf idx) deadline
    | none => pure ()
    let seq ← load (.plain, .field) (seqOf idx)
    let request ← load (.plain, .field) (requestOf idx)
    return some ⟨idx, seq, workerId, request⟩

def complete (idx seq : Nat) (result : ChunkDesc) : Steps (Except QueueError Unit) := do
  let current ← load (.plain, .field) (seqOf idx)
  if current ≠ seq then
    return .error .staleHandle
  if !(← (tryBeginComplete idx).label .plain) then
    return .error .lost
  store (.answer idx, .field) (resultOf idx) result
  store (.plain, .finish idx) (stateOf idx) .done
  (pushFree idx).label .plain
  let _ ← load (.plain, .field) waitersDoneRef
  return .ok ()

def fail (idx seq : Nat) : Steps (Except QueueError Unit) := do
  let current ← load (.plain, .field) (seqOf idx)
  if current ≠ seq then
    return .error .staleHandle
  if !(← (tryFail idx).label .plain) then
    return .error .lost
  (pushFree idx).label .plain
  let _ ← load (.plain, .field) waitersDoneRef
  return .ok ()

def settle (task : ClaimedTask) : Verdict → Steps (Option (Except QueueError Unit))
  | .complete result => some <$> complete task.idx task.seq result
  | .fail => some <$> fail task.idx task.seq
  | .drop => return none

def work (workerId : Nat) (deadline : Option Nat) (outputs : ClaimedTask → List LeaseBinding)
    (verdict : ClaimedTask → Verdict) : Steps Answer := do
  match ← claimInner workerId deadline with
  | none => return .worked none
  | some task =>
    forEach (fun binding => do let _ ← (bindOutput task.idx task.seq binding).label .plain) (outputs task)
    let outcome ← settle task (verdict task)
    return .worked (some (task, outcome))

end

section

def flagClaimed (handle : TaskHandle) : Steps Unit := do
  let state ← load (.cancel handle, .field) (stateOf handle.slotIdx)
  if state = .claimed then
    let seq ← load (.check handle, .field) (seqOf handle.slotIdx)
    if seq = handle.seq then
      store (.withdraw handle, .field) (cancelOf handle.slotIdx) 1

def cancel (queue : Queue) (handle : TaskHandle) : Steps (Except QueueError Unit) := do
  if handle.slotIdx ≥ queue.capacity then
    return .error .staleHandle
  let seq ← load (.check handle, .field) (seqOf handle.slotIdx)
  if seq ≠ handle.seq then
    return .error .staleHandle
  let _ ← countCancelled.label (.cancel handle)
  if ← (tryCancelQueued handle.slotIdx).label (.withdraw handle) then
    let _ ← load (.cancel handle, .field) waitersDoneRef
    return .ok ()
  let _ ← uncountCancelled.label (.cancel handle)
  flagClaimed handle
  return .ok ()

def pollResult (handle : TaskHandle) : Steps (Except QueueError TaskStatus) := do
  let result ← load (.read handle, .field) (resultOf handle.slotIdx)
  let seq ← load (.recheck handle, .field) (seqOf handle.slotIdx)
  if seq ≠ handle.seq then return .error .staleHandle else return .ok (.done result)

def pollStatus (handle : TaskHandle) : TaskState → Steps (Except QueueError TaskStatus)
  | .queued | .reserved => return .ok .queued
  | .claimed | .completing => return .ok .claimed
  | .done => pollResult handle
  | .failed => return .ok .failed
  | .cancelled => return .ok .cancelled
  | .empty => return .error .staleHandle

def poll (queue : Queue) (handle : TaskHandle) : Steps (Except QueueError TaskStatus) := do
  if handle.slotIdx ≥ queue.capacity then
    return .error .staleHandle
  else do
    let seq ← load (.ask handle, .field) (seqOf handle.slotIdx)
    if seq ≠ handle.seq then
      return .error .staleHandle
    else do
      let state ← load (.look handle, .field) (stateOf handle.slotIdx)
      pollStatus handle state

/-- The return of a poll, as an event of its own. -/
def reply (handle : TaskHandle) (outcome : Except QueueError TaskStatus) : Steps Unit :=
  .act (.reply handle outcome, .field) id fun _ => .ret ()

end

section

def reapLapsed (queue : Queue) (now idx : Nat) (report : ReapReport) : Steps ReapReport := do
  let retry ← load (.count idx, .field) (retryOf idx)
  if retry ≥ queue.maxRetries then
    if ← (tryFail idx).label (.lapse idx now) then
      (pushFree idx).label .plain
      return { report with failed := report.failed + 1 }
    return report
  if ← (tryBeginReapRequeue idx).label (.lapse idx now) then
    store (.again idx, .field) (retryOf idx) (retry + 1)
    store (.plain, .field) (ownerOf idx) ownerNone
    (publishQueued (Fin.ofNat shards idx) idx).label .plain
    return { report with requeued := report.requeued + 1 }
  return report

def reapSlots (queue : Queue) (now : Nat) : List Nat → ReapReport → Steps ReapReport
  | [], report => .ret report
  | idx :: rest, report => do
    let state ← load (.see idx, .field) (stateOf idx)
    if state ≠ .claimed then
      reapSlots queue now rest report
    else
      let deadline ← load (.date idx now, .field) (deadlineOf idx)
      if deadline ≥ now then
        reapSlots queue now rest report
      else
        let report ← reapLapsed queue now idx report
        reapSlots queue now rest report

def reap (queue : Queue) (now : Nat) : Steps ReapReport := do
  let report ← reapSlots queue now (List.range queue.capacity) ⟨0, 0⟩
  if report.requeued > 0 then
    let _ ← load (.plain, .field) waitersWorkRef
  if report.failed > 0 then
    let _ ← load (.plain, .field) waitersDoneRef
  return report

end

def call (queue : Queue) : Call → Steps Answer
  | .submit request deadline input => Answer.submitted <$> submitInner queue request deadline input
  | .work workerId deadline outputs verdict => work workerId deadline outputs verdict
  | .cancel handle => Answer.cancelled <$> cancel queue handle
  | .reap now => Answer.reaped <$> reap queue now
  | .ack handle => Answer.acked <$> (ack queue handle).label .plain
  | .reapBindings now grace => Answer.released <$> (reapBindings queue now grace).label .plain
  | .poll handle => do
    let outcome ← poll queue handle
    reply handle outcome
    return .polled outcome

section

/-! Without the labels, these are the calls of `Workers`. -/

variable (handle : TaskHandle)

variable (queue : Queue)

@[simp] theorem bare_writeFields (idx : Nat) (req : ChunkDesc) (due : Nat) :
    (writeFields idx req due).bare = Task.writeFields idx req due := by
  simp [writeFields, Task.writeFields]

@[simp] theorem bare_submitReserved (req : ChunkDesc) (due : Nat)
    (input : Option (LeaseBinding × Nat)) : (submitReserved queue req due input).bare =
      Task.submitReserved queue req due input := by
  simp only [submitReserved, Task.submitReserved, bare_bind, bare_label]
  congr 1
  funext got
  cases got <;> cases input <;> simp

@[simp] theorem bare_submitInner (req : ChunkDesc) (due : Nat)
    (input : Option LeaseBinding) : (submitInner queue req due input).bare =
      Task.submitInner queue req due input := by
  cases input with
  | none => exact bare_submitReserved queue req due none
  | some binding =>
    simp only [submitInner, Task.submitInner, bare_bind, bare_label]
    congr 1
    funext got
    cases got <;> simp

@[simp] theorem bare_claimInner (workerId : Nat) (due : Option Nat) :
    (claimInner workerId due).bare = Task.claimInner workerId due := by
  simp only [claimInner, Task.claimInner, bare_bind, bare_label]
  congr 1
  funext got
  cases got <;> cases due <;> simp

@[simp] theorem bare_flagClaimed : (flagClaimed handle).bare = Task.flagClaimed handle := by
  simp [flagClaimed, Task.flagClaimed]

@[simp] theorem bare_cancel : (cancel queue handle).bare = Task.cancel queue handle := by
  simp [cancel, Task.cancel]

@[simp] theorem bare_pollStatus (st : TaskState) :
    (pollStatus handle st).bare = Task.pollStatus handle st := by
  cases st <;> simp [pollStatus, Task.pollStatus, pollResult, Task.pollResult]

@[simp] theorem bare_poll : (poll queue handle).bare = Task.poll queue handle := by
  simp [poll, Task.poll]

@[simp] theorem bare_reapLapsed (now idx : Nat) (report : ReapReport) :
    (reapLapsed queue now idx report).bare = Task.reapLapsed queue idx report := by
  simp [reapLapsed, Task.reapLapsed]

@[simp] theorem bare_reapSlots (now : Nat) (slots : List Nat) (report : ReapReport) :
    (reapSlots queue now slots report).bare = Task.reapSlots queue now slots report := by
  induction slots generalizing report with
  | nil => rfl
  | cons idx rest ih => simp [reapSlots, Task.reapSlots, ih]

@[simp] theorem bare_reap (now : Nat) : (reap queue now).bare = Task.reap queue now := by
  simp [reap, Task.reap]

@[simp] theorem bare_complete (idx seq : Nat) (res : ChunkDesc) :
    (complete idx seq res).bare = Task.complete idx seq res := by
  simp [complete, Task.complete]

@[simp] theorem bare_fail (idx seq : Nat) : (fail idx seq).bare = Task.fail idx seq := by
  simp [fail, Task.fail]

@[simp] theorem bare_settle (task : ClaimedTask) (verdict : Verdict) :
    (settle task verdict).bare = Task.settle task verdict := by
  cases verdict <;> simp [settle, Task.settle]

theorem bare_work (workerId : Nat) (due : Option Nat) (outputs : ClaimedTask → List LeaseBinding)
    (verdict : ClaimedTask → Verdict) : (work workerId due outputs verdict).bare =
      (Task.work workerId due outputs verdict).bare := by
  simp only [work, Task.work, bare_bind, bare_claimInner, bare_label]
  congr 1
  funext got
  cases got <;> simp

/-- The staged calls are the calls; a poll makes its return visible. -/
theorem bare_call (op : Call) : (call queue op).bare = match op with
    | .poll handle => do
      let out ← Task.poll queue handle
      (reply handle out).bare
      return .polled out
    | op => (Task.call queue op).bare := by
  cases op with
  | work => exact bare_work _ _ _ _
  | submit | cancel | reap | ack | reapBindings | poll => simp [call, Task.call]

end

section

variable {kind : Stage × Site → (Memory → Memory) → Prop} {Value : Type}

theorem every_read (admits : Admits fun site => kind (stage, site)) (cell : Ref Memory Value) :
    (load (stage, .field) cell : Steps Value).Every kind :=
  ⟨admits id fun _ => ⟨rfl, rfl, rfl⟩, fun _ => trivial⟩

theorem every_plain {code : Code Value} (every : code.Every fun site => kind (.plain, site)) :
    (code.label .plain).Every kind := every_label every fun _ _ covered => covered

theorem every_poll (reads : ∀ {stage : Stage}, stage.reads = true → Admits fun site => kind (stage, site))
    (queue : Queue) (handle : TaskHandle) : (poll queue handle).Every kind := by
  unfold poll
  split
  · trivial
  refine every_bind (every_read (reads rfl) _) fun seq => ?_
  split
  · trivial
  refine every_bind (every_read (reads rfl) _) fun st => ?_
  cases st with
  | done =>
    refine every_bind (every_read (reads rfl) _) fun res => every_bind (every_read (reads rfl) _) fun seq => ?_
    split <;> trivial
  | _ => trivial

end

end Staged

/-- The staged calls, by actors who know their own number. -/
abbrev staged {History : Type} (queue : Queue)
    (track : Nat → Stage × Site → Memory → Memory → History → History)
    (enabled : Nat → Call → Prop) (allowed : Nat → Stage × Site → Memory → History → Prop) :
    Actors Memory (Stage × Site) History Call Nat Answer where
  program := Staged.call queue
  enabled := enabled
  start own _ := own
  finish own _ _ := own
  track := track
  allowed := allowed

end ShmActors.Task
