import ShmActors.Core.Ctrl
import ShmActors.Core.Treiber

/-! The task queue of `shm-task/src/queue.rs`: slots with a state word, riding
sharded FREE and READY stacks, and the lease side table. -/

namespace ShmActors.Task

open Lib Core Function

/-- `EMPTY` to `CANCELLED`, and the transient `RESERVED` and `COMPLETING`. -/
inductive TaskState where
  | empty
  | queued
  | claimed
  | done
  | failed
  | cancelled
  | reserved
  | completing
  deriving DecidableEq, Repr

structure TaskSlot where
  state : TaskState
  owner : Nat
  seq : Nat
  deadline : Nat
  retry : Nat
  cancel : Nat
  request : ChunkDesc
  result : ChunkDesc

abbrev shards : Nat := 8

instance : NeZero shards := ⟨by decide⟩

def drainDig : Nat := 4

/-- The heads of the header: eight FREE and eight READY shards. -/
inductive Shard where
  | free (index : Fin shards)
  | ready (index : Fin shards)
  deriving DecidableEq

/-- The shard on which every slot starts. -/
def Shard.first : Shard := .free ⟨0, by decide⟩

inductive LeaseState where
  | none
  | armed
  | released
  | acked
  deriving DecidableEq, Repr

/-- The packed `{gen:32 | state:32}`. -/
structure LeaseWord where
  generation : Nat
  state : LeaseState
  deriving DecidableEq, Repr

structure LeaseBinding where
  artifactId : Nat
  incarnation : Nat
  version : Nat
  deriving DecidableEq, Repr

structure LeaseSlot where
  word : LeaseWord
  version : Nat
  seq : Nat
  deadline : Nat
  artifactId : Nat
  incarnation : Nat
  slotIdx : Nat

structure Memory where
  cancelled : Nat
  waitersWork : Nat
  waitersDone : Nat
  slot : Nat → TaskSlot
  lists : Stacks Shard
  lease : Nat → LeaseSlot
  leases : Stacks Unit

/-- What a header fixes at initialization, past the `BadCapacity` check. -/
structure Queue where
  capacity : Nat
  maxRetries : Nat
  power : capacity.isPowerOfTwo
  fits : capacity < 2 ^ 32

/-- Two lease records a slot, saturating at `u32::MAX`. -/
def leaseCapacity (capacity : Nat) : Nat := min (2 * capacity) (2 ^ 32 - 1)

structure TaskHandle where
  slotIdx : Nat
  seq : Nat
  deriving DecidableEq, Repr

structure ClaimedTask where
  idx : Nat
  seq : Nat
  workerId : Nat
  request : ChunkDesc

structure ReapReport where
  requeued : Nat
  failed : Nat
  deriving DecidableEq, Repr

inductive QueueError where
  | staleHandle
  | lost
  | queueFull
  | leaseTableFull
  | notTerminal
  deriving DecidableEq, Repr

/-- The accesses of one loop over a stack head. -/
inductive Part where
  | load
  | next
  | exchange
  deriving DecidableEq

/-- Where an access stands: on a stack, on a slot's state word, on the count of
cancelled riders, or anywhere else. -/
inductive Site where
  | pop (shard : Shard) (part : Part)
  | push (shard : Shard) (slot : Nat) (part : Part)
  | claim (slot : Nat)
  | recover (slot : Nat)
  | cancel (slot : Nat)
  | complete (slot : Nat)
  | requeue (slot : Nat)
  | fail (slot : Nat)
  | reserve (slot : Nat)
  | publish (slot : Nat)
  | finish (slot : Nat)
  | count
  | uncount
  | field

abbrev Code (Value : Type) := Program Memory Site Value

section

def slotRef (idx : Nat) : Ref Memory TaskSlot where
  get memory := memory.slot idx
  set slot memory := { memory with slot := update memory.slot idx slot }

def stateOf (idx : Nat) : Ref Memory TaskState :=
  (slotRef idx).field TaskSlot.state fun state slot => { slot with state := state }

def ownerOf (idx : Nat) : Ref Memory Nat :=
  (slotRef idx).field TaskSlot.owner fun owner slot => { slot with owner := owner }

def seqOf (idx : Nat) : Ref Memory Nat :=
  (slotRef idx).field TaskSlot.seq fun seq slot => { slot with seq := seq }

def deadlineOf (idx : Nat) : Ref Memory Nat :=
  (slotRef idx).field TaskSlot.deadline fun deadline slot => { slot with deadline := deadline }

def retryOf (idx : Nat) : Ref Memory Nat :=
  (slotRef idx).field TaskSlot.retry fun retry slot => { slot with retry := retry }

def cancelOf (idx : Nat) : Ref Memory Nat :=
  (slotRef idx).field TaskSlot.cancel fun cancel slot => { slot with cancel := cancel }

def requestOf (idx : Nat) : Ref Memory ChunkDesc :=
  (slotRef idx).field TaskSlot.request fun request slot => { slot with request := request }

def resultOf (idx : Nat) : Ref Memory ChunkDesc :=
  (slotRef idx).field TaskSlot.result fun result slot => { slot with result := result }

def cancelledRef : Ref Memory Nat :=
  ⟨Memory.cancelled, fun cancelled memory => { memory with cancelled := cancelled }⟩

def waitersWorkRef : Ref Memory Nat :=
  ⟨Memory.waitersWork, fun waiters memory => { memory with waitersWork := waiters }⟩

def waitersDoneRef : Ref Memory Nat :=
  ⟨Memory.waitersDone, fun waiters memory => { memory with waitersDone := waiters }⟩

def leaseRef (idx : Nat) : Ref Memory LeaseSlot where
  get memory := memory.lease idx
  set lease memory := { memory with lease := update memory.lease idx lease }

def leaseWordOf (idx : Nat) : Ref Memory LeaseWord :=
  (leaseRef idx).field LeaseSlot.word fun word lease => { lease with word := word }

def leaseVersionOf (idx : Nat) : Ref Memory Nat :=
  (leaseRef idx).field LeaseSlot.version fun version lease => { lease with version := version }

def leaseSeqOf (idx : Nat) : Ref Memory Nat :=
  (leaseRef idx).field LeaseSlot.seq fun seq lease => { lease with seq := seq }

def leaseDeadlineOf (idx : Nat) : Ref Memory Nat :=
  (leaseRef idx).field LeaseSlot.deadline
    fun deadline lease => { lease with deadline := deadline }

def leaseArtifactOf (idx : Nat) : Ref Memory Nat :=
  (leaseRef idx).field LeaseSlot.artifactId
    fun artifactId lease => { lease with artifactId := artifactId }

def leaseIncarnationOf (idx : Nat) : Ref Memory Nat :=
  (leaseRef idx).field LeaseSlot.incarnation
    fun incarnation lease => { lease with incarnation := incarnation }

def leaseSlotOf (idx : Nat) : Ref Memory Nat :=
  (leaseRef idx).field LeaseSlot.slotIdx fun slotIdx lease => { lease with slotIdx := slotIdx }

/-- The slots' stacks: sixteen heads over the slots' `next` links. -/
def view : StackView Shard Memory where
  get := Memory.lists
  set lists memory := { memory with lists := lists }
  get_set _ _ := rfl

def leaseView : StackView Unit Memory where
  get := Memory.leases
  set lists memory := { memory with leases := lists }
  get_set _ _ := rfl

end

section

def popShard (shard : Shard) : Code (Option Nat) :=
  treiberPop (.pop shard .load) (.pop shard .next) (.pop shard .exchange) (view.head shard)
    view.next

def pushShard (shard : Shard) (idx : Nat) : Code Unit :=
  treiberPush (.push shard idx .load) (.push shard idx .next) (.push shard idx .exchange)
    (view.head shard) idx view.next

/-- The calling thread's cursor decides; any shard may come next. -/
def nextShard : Code (Fin shards) := .pick fun cursor => .ret (Fin.ofNat shards cursor)

/-- Try in order until one succeeds. -/
def firstOf (attempt : Fin shards → Code (Option Nat)) : List (Fin shards) → Code (Option Nat)
  | [] => .ret none
  | shard :: rest => do
    match ← attempt shard with
    | some idx => return some idx
    | none => firstOf attempt rest

def popFree : Code (Option Nat) := do
  let home ← nextShard
  firstOf (fun shard => popShard (.free shard))
    ((List.range shards).map fun k => Fin.ofNat shards (home + k))

def pushFree (idx : Nat) : Code Unit := do
  let shard ← nextShard
  pushShard (.free shard) idx

end

section

def tryClaim (idx : Nat) : Code Bool := do
  let found ← compareExchange (.claim idx) (stateOf idx) .queued .claimed
  return found.isNone

def tryBeginComplete (idx : Nat) : Code Bool := do
  let found ← compareExchange (.complete idx) (stateOf idx) .claimed .completing
  return found.isNone

def tryBeginReapRequeue (idx : Nat) : Code Bool := do
  let found ← compareExchange (.requeue idx) (stateOf idx) .claimed .reserved
  return found.isNone

def tryFail (idx : Nat) : Code Bool := do
  let found ← compareExchange (.fail idx) (stateOf idx) .claimed .failed
  return found.isNone

def tryCancelQueued (idx : Nat) : Code Bool := do
  let found ← compareExchange (.cancel idx) (stateOf idx) .queued .cancelled
  return found.isNone

def countCancelled : Code Nat :=
  fetchUpdate .count cancelledRef fun cancelled => (cancelled + 1) % 2 ^ 32

def uncountCancelled : Code Nat :=
  fetchUpdate .uncount cancelledRef fun cancelled => (cancelled + 2 ^ 32 - 1) % 2 ^ 32

end

/-- The claim loop over one shard: pop, claim, and hand cancelled nodes to FREE. -/
def claimPop (shard : Fin shards) : Code (Option Nat) :=
  repeatLoop do
    match ← popShard (.ready shard) with
    | none => return some none
    | some idx =>
      if ← tryClaim idx then
        return some (some idx)
      pushShard (.free shard) idx
      let _ ← uncountCancelled
      return none

/-- Push strictly after publish. -/
def publishQueued (shard : Fin shards) (idx : Nat) : Code Unit := do
  store (.publish idx) (stateOf idx) .queued
  pushShard (.ready shard) idx

section

def popLease : Code (Option Nat) :=
  treiberPop .field .field .field (leaseView.head ()) leaseView.next

def pushLease (idx : Nat) : Code Unit :=
  treiberPush .field .field .field (leaseView.head ()) idx leaseView.next

/-- `LeaseSlot::arm`: the fields, then the word of the next generation. -/
def arm (idx : Nat) (binding : LeaseBinding) (slotIdx seq deadline : Nat) : Code Unit := do
  store .field (leaseVersionOf idx) binding.version
  store .field (leaseSeqOf idx) seq
  store .field (leaseDeadlineOf idx) deadline
  store .field (leaseArtifactOf idx) binding.artifactId
  store .field (leaseIncarnationOf idx) binding.incarnation
  store .field (leaseSlotOf idx) slotIdx
  let word ← load .field (leaseWordOf idx)
  store .field (leaseWordOf idx) ⟨(word.generation + 1) % 2 ^ 32, .armed⟩

end

section

/-- One shard of the queue-full drain: pop up to `budget` nodes, keeping live
ones in hand, until a cancelled one turns up. The nodes in hand come newest
first, in the order they are pushed back. -/
def dig (shard : Fin shards) : Nat → List Nat → Code (Option Nat × List Nat)
  | 0, kept => .ret (none, kept)
  | budget + 1, kept => do
    match ← popShard (.ready shard) with
    | none => return (none, kept)
    | some idx =>
      match ← compareExchange (.recover idx) (stateOf idx) .cancelled .reserved with
      | none =>
        let _ ← uncountCancelled
        return (some idx, kept)
      | some _ => dig shard budget (idx :: kept)

def pushBack (shard : Fin shards) : List Nat → Code Unit
  | [] => .ret ()
  | idx :: rest => do
    pushShard (.ready shard) idx
    pushBack shard rest

def drain (queue : Queue) : List (Fin shards) → Code (Option Nat)
  | [] => .ret none
  | shard :: rest => do
    let count ← load .field cancelledRef
    if count = 0 ∨ count > queue.capacity then
      return none
    let (found, kept) ← dig shard drainDig []
    pushBack shard kept
    match found with
    | some idx => return some idx
    | none => drain queue rest

/-- Pop FREE; the pop is the reservation. -/
def reserveFree : Code (Option Nat) := do
  match ← popFree with
  | none => return none
  | some idx =>
    store (.reserve idx) (stateOf idx) .reserved
    return some idx

def reserveCancelledReady (queue : Queue) : Code (Option Nat) := do
  let drained ← drain queue (List.finRange shards)
  let found ← match drained with
    | some idx => pure (some idx)
    | none => reserveFree
  let _ ← load .field waitersWorkRef
  return found

def reserveSubmitSlot (queue : Queue) : Code (Option Nat) := do
  match ← reserveFree with
  | some idx => return some idx
  | none => reserveCancelledReady queue

/-- The fields of a fresh task, written under the reservation. -/
def writeFields (idx : Nat) (request : ChunkDesc) (deadline : Nat) : Code Nat := do
  let seq ← load .field (seqOf idx)
  let newSeq := (seq + 1) % 2 ^ 64
  store .field (seqOf idx) newSeq
  store .field (ownerOf idx) ownerNone
  store .field (retryOf idx) 0
  store .field (cancelOf idx) 0
  store .field (deadlineOf idx) deadline
  store .field (requestOf idx) request
  store .field (resultOf idx) .zero
  return newSeq

def submitReserved (queue : Queue) (request : ChunkDesc) (deadline : Nat)
    (input : Option (LeaseBinding × Nat)) : Code (Except QueueError TaskHandle) := do
  match ← reserveSubmitSlot queue with
  | none =>
    match input with
    | some (_, lease) => pushLease lease
    | none => pure ()
    return .error .queueFull
  | some idx =>
    let newSeq ← writeFields idx request deadline
    match input with
    | some (binding, lease) => arm lease binding idx newSeq deadline
    | none => pure ()
    let shard ← nextShard
    publishQueued shard idx
    let _ ← load .field waitersWorkRef
    return .ok ⟨idx, newSeq⟩

/-- `submit` and `submit_with_binding`: the lease record is reserved first. -/
def submitInner (queue : Queue) (request : ChunkDesc) (deadline : Nat)
    (input : Option LeaseBinding) : Code (Except QueueError TaskHandle) :=
  match input with
  | none => submitReserved queue request deadline none
  | some binding => do
    match ← popLease with
    | none => return .error .leaseTableFull
    | some lease => submitReserved queue request deadline (some (binding, lease))

end

section

/-- The worker's own order of shards: its home, then an odd stride. -/
def claimOrder (workerId : Nat) : List (Fin shards) :=
  (List.range shards).map fun k =>
    Fin.ofNat shards (workerId % shards + k * (1 + 2 * (workerId % (shards / 2))))

def claimInner (workerId : Nat) (deadline : Option Nat) : Code (Option ClaimedTask) := do
  match ← firstOf claimPop (claimOrder workerId) with
  | none => return none
  | some idx =>
    store .field (ownerOf idx) workerId
    match deadline with
    | some deadline => store .field (deadlineOf idx) deadline
    | none => pure ()
    let seq ← load .field (seqOf idx)
    let request ← load .field (requestOf idx)
    return some ⟨idx, seq, workerId, request⟩

def complete (idx seq : Nat) (result : ChunkDesc) : Code (Except QueueError Unit) := do
  let current ← load .field (seqOf idx)
  if current ≠ seq then
    return .error .staleHandle
  if !(← tryBeginComplete idx) then
    return .error .lost
  store .field (resultOf idx) result
  store (.finish idx) (stateOf idx) .done
  pushFree idx
  let _ ← load .field waitersDoneRef
  return .ok ()

def fail (idx seq : Nat) : Code (Except QueueError Unit) := do
  let current ← load .field (seqOf idx)
  if current ≠ seq then
    return .error .staleHandle
  if !(← tryFail idx) then
    return .error .lost
  pushFree idx
  let _ ← load .field waitersDoneRef
  return .ok ()

end

/-- Raise the cooperative flag of a task that is (still) claimed. -/
def flagClaimed (handle : TaskHandle) : Code Unit := do
  let state ← load .field (stateOf handle.slotIdx)
  if state = .claimed then
    let seq ← load .field (seqOf handle.slotIdx)
    if seq = handle.seq then
      store .field (cancelOf handle.slotIdx) 1

/-- Count before the exchange, uncount when it is lost. -/
def cancel (queue : Queue) (handle : TaskHandle) : Code (Except QueueError Unit) := do
  if handle.slotIdx ≥ queue.capacity then
    return .error .staleHandle
  let seq ← load .field (seqOf handle.slotIdx)
  if seq ≠ handle.seq then
    return .error .staleHandle
  let _ ← countCancelled
  if ← tryCancelQueued handle.slotIdx then
    let _ ← load .field waitersDoneRef
    return .ok ()
  let _ ← uncountCancelled
  flagClaimed handle
  return .ok ()

section

/-- One lapsed claim: requeue it, or fail it when its retries are spent. -/
def reapLapsed (queue : Queue) (idx : Nat) (report : ReapReport) : Code ReapReport := do
  let retry ← load .field (retryOf idx)
  if retry ≥ queue.maxRetries then
    if ← tryFail idx then
      pushFree idx
      return { report with failed := report.failed + 1 }
    return report
  if ← tryBeginReapRequeue idx then
    store .field (retryOf idx) (retry + 1)
    store .field (ownerOf idx) ownerNone
    publishQueued (Fin.ofNat shards idx) idx
    return { report with requeued := report.requeued + 1 }
  return report

def reapSlots (queue : Queue) (now : Nat) : List Nat → ReapReport → Code ReapReport
  | [], report => .ret report
  | idx :: rest, report => do
    let state ← load .field (stateOf idx)
    if state ≠ .claimed then
      reapSlots queue now rest report
    else
      let deadline ← load .field (deadlineOf idx)
      if deadline ≥ now then
        reapSlots queue now rest report
      else
        let report ← reapLapsed queue idx report
        reapSlots queue now rest report

def reap (queue : Queue) (now : Nat) : Code ReapReport := do
  let report ← reapSlots queue now (List.range queue.capacity) ⟨0, 0⟩
  if report.requeued > 0 then
    let _ ← load .field waitersWorkRef
  if report.failed > 0 then
    let _ ← load .field waitersDoneRef
  return report

end

section

/-- `bind_output`: a record for the output of the claimed task. -/
def bindOutput (idx seq : Nat) (binding : LeaseBinding) : Code (Except QueueError Unit) := do
  match ← popLease with
  | none => return .error .leaseTableFull
  | some lease =>
    let deadline ← load .field (deadlineOf idx)
    arm lease binding idx seq deadline
    return .ok ()

/-- The requester's half on one record: `ARMED → ACKED` when it is this task's. -/
def ackRecord (handle : TaskHandle) (idx : Nat) : Code Bool := do
  let word ← load .field (leaseWordOf idx)
  if word.state ≠ .armed then
    return false
  let slotIdx ← load .field (leaseSlotOf idx)
  if slotIdx ≠ handle.slotIdx then
    return false
  let seq ← load .field (leaseSeqOf idx)
  if seq ≠ handle.seq then
    return false
  let found ← compareExchange .field (leaseWordOf idx) word ⟨word.generation, .acked⟩
  return found.isNone

def ackRecords (handle : TaskHandle) : List Nat → Nat → Code Nat
  | [], acked => .ret acked
  | idx :: rest, acked => do
    if ← ackRecord handle idx then
      ackRecords handle rest (acked + 1)
    else
      ackRecords handle rest acked

/-- Whether `ack` may go on: the task is terminal, or its slot moved on. -/
def ackable (handle : TaskHandle) : Code Bool := do
  let seq ← load .field (seqOf handle.slotIdx)
  if seq ≠ handle.seq then
    return true
  let state ← load .field (stateOf handle.slotIdx)
  return state = .done ∨ state = .failed ∨ state = .cancelled

def ack (queue : Queue) (handle : TaskHandle) : Code (Except QueueError Nat) := do
  if handle.slotIdx ≥ queue.capacity then
    return .error .staleHandle
  if ← ackable handle then
    let acked ← ackRecords handle (List.range (leaseCapacity queue.capacity)) 0
    return .ok acked
  return .error .notTerminal

/-- Win the record as observed, read its binding and retire it. -/
def releaseLeaseRecord (idx : Nat) (word : LeaseWord) : Code (Option LeaseBinding) := do
  match ← compareExchange .field (leaseWordOf idx) word ⟨word.generation, .released⟩ with
  | some _ => return none
  | none =>
    let artifactId ← load .field (leaseArtifactOf idx)
    let incarnation ← load .field (leaseIncarnationOf idx)
    let version ← load .field (leaseVersionOf idx)
    let held ← load .field (leaseWordOf idx)
    store .field (leaseWordOf idx) ⟨held.generation, .none⟩
    pushLease idx
    return some ⟨artifactId, incarnation, version⟩

/-- Whether the task of an armed record may still run. -/
def stillNeeded (queue : Queue) (idx : Nat) : Code Bool := do
  let slotIdx ← load .field (leaseSlotOf idx)
  if slotIdx ≥ queue.capacity then
    return false
  let seq ← load .field (seqOf slotIdx)
  let tied ← load .field (leaseSeqOf idx)
  if seq ≠ tied then
    return false
  let state ← load .field (stateOf slotIdx)
  return state = .queued ∨ state = .claimed ∨ state = .completing

def reapRecord (queue : Queue) (now grace idx : Nat) : Code (Option LeaseBinding) := do
  let word ← load .field (leaseWordOf idx)
  match word.state with
  | .acked => releaseLeaseRecord idx word
  | .armed =>
    let deadline ← load .field (leaseDeadlineOf idx)
    -- the addition saturates at `u64::MAX`
    if now ≤ min (deadline + grace) (2 ^ 64 - 1) then
      return none
    if ← stillNeeded queue idx then
      return none
    releaseLeaseRecord idx word
  | _ => return none

def reapRecords (queue : Queue) (now grace : Nat) :
    List Nat → List LeaseBinding → Code (List LeaseBinding)
  | [], out => .ret out
  | idx :: rest, out => do
    match ← reapRecord queue now grace idx with
    | some binding => reapRecords queue now grace rest (out ++ [binding])
    | none => reapRecords queue now grace rest out

def reapBindings (queue : Queue) (now grace : Nat) : Code (List LeaseBinding) :=
  reapRecords queue now grace (List.range (leaseCapacity queue.capacity)) []

end

/-- `init_with_max_retries`: every slot on FREE shard 0, every lease record on
the lease list, linked in order. -/
def init (queue : Queue) : Memory where
  cancelled := 0
  waitersWork := 0
  waitersDone := 0
  slot _ := ⟨.empty, ownerNone, 0, 0, 0, 0, .zero, .zero⟩
  lists :=
    { head := fun shard => ⟨0, if shard = .first then 0 else EMPTY⟩
      next := fun idx => if idx + 1 < queue.capacity then idx + 1 else EMPTY }
  lease _ := ⟨⟨0, .none⟩, 0, 0, 0, 0, 0, 0⟩
  leases :=
    { head := fun _ => ⟨0, 0⟩
      next := fun idx => if idx + 1 < leaseCapacity queue.capacity then idx + 1 else EMPTY }

end ShmActors.Task
