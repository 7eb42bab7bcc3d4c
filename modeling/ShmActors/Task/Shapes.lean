import ShmActors.Task.Operations

/-! What an access of the task queue can do, by its site: said once for every
operation. -/

namespace ShmActors.Task

open Lib Core Program

/-- The exchange of a state word. -/
def exchanged (slot : Nat) (current new : TaskState) (memory : Memory) : Memory :=
  if (memory.slot slot).state = current then (stateOf slot).set new memory else memory

/-- Stack accesses and counts leave the slots alone; every other site names the
one state word it may change, and how. -/
def Shape : Site → (Memory → Memory) → Prop
  | .claim slot, update => update = exchanged slot .queued .claimed
  | .recover slot, update => update = exchanged slot .cancelled .reserved
  | .cancel slot, update => update = exchanged slot .queued .cancelled
  | .complete slot, update => update = exchanged slot .claimed .completing
  | .requeue slot, update => update = exchanged slot .claimed .reserved
  | .fail slot, update => update = exchanged slot .claimed .failed
  | .reserve slot, update => update = (stateOf slot).set .reserved
  | .publish slot, update => update = (stateOf slot).set .queued
  | .finish slot, update => update = (stateOf slot).set .done
  | .field, update => ∀ memory slot, ((update memory).slot slot).state = (memory.slot slot).state
  | .pop _ _, update | .push _ _ _, update | .count, update | .uncount, update =>
    ∀ memory, (update memory).slot = memory.slot

/-- The slot whose state a site may turn, the state it turns it from if it asks,
and the state it turns it to. -/
def turnOf : Site → Option (Nat × Option TaskState × TaskState)
  | .claim slot => some (slot, some .queued, .claimed)
  | .recover slot => some (slot, some .cancelled, .reserved)
  | .cancel slot => some (slot, some .queued, .cancelled)
  | .complete slot => some (slot, some .claimed, .completing)
  | .requeue slot => some (slot, some .claimed, .reserved)
  | .fail slot => some (slot, some .claimed, .failed)
  | .reserve slot => some (slot, none, .reserved)
  | .publish slot => some (slot, none, .queued)
  | .finish slot => some (slot, none, .done)
  | .pop _ _ | .push _ _ _ | .count | .uncount | .field => none

theorem exchanged_turn (entry : Nat) (now new : TaskState) (mem : Memory) (slot : Nat) :
    ((exchanged entry now new mem).slot slot).state = (mem.slot slot).state ∨
      (entry = slot ∧ (mem.slot slot).state = now ∧
        ((exchanged entry now new mem).slot slot).state = new) := by
  unfold exchanged
  by_cases got : (mem.slot entry).state = now
  · rw [if_pos got]
    by_cases same : slot = entry
    · subst same
      exact .inr ⟨rfl, got, stateOf_set_self _ _⟩
    · exact .inl (stateOf_set_other _ _ same)
  · rw [if_neg got]
    exact .inl rfl

/-- All an access does to the state of a slot. -/
def Turns (site : Site) (slot : Nat) (before after : TaskState) : Prop :=
  after = before ∨ ∃ old new, turnOf site = some (slot, old, new) ∧ (∀ st, old = some st → before = st) ∧ after = new

theorem Shape.turn (shape : Shape site update) (mem : Memory) (slot : Nat) :
    Turns site slot (mem.slot slot).state ((update mem).slot slot).state := by
  have exchange {entry : Nat} {now new : TaskState} (known : turnOf site = some (entry, some now, new))
      (same : update = exchanged entry now new) :
      Turns site slot (mem.slot slot).state ((update mem).slot slot).state := by
    subst same
    rcases exchanged_turn entry now new mem slot with unchanged | ⟨rfl, before, after⟩
    · exact .inl unchanged
    · exact .inr ⟨some now, new, known, fun st eq => by cases eq; exact before, after⟩
  have stored {entry : Nat} {new : TaskState} (known : turnOf site = some (entry, none, new))
      (same : update = (stateOf entry).set new) :
      Turns site slot (mem.slot slot).state ((update mem).slot slot).state := by
    subst same
    by_cases same : slot = entry
    · subst same
      exact .inr ⟨none, new, known, by simp, stateOf_set_self _ _⟩
    · exact .inl (stateOf_set_other _ _ same)
  cases site with
  | claim | recover | cancel | complete | requeue | fail => exact exchange rfl shape
  | reserve | publish | finish => exact stored rfl shape
  | pop | push | count | uncount => exact .inl (congrArg TaskSlot.state (congrFun (shape mem) slot))
  | field => exact .inl (shape mem slot)

/-- The kinds of access that cover the stacks. -/
structure Stacked (kind : Kind) : Prop where
  pop : ∀ shard part update, (∀ memory, (update memory).slot = memory.slot) →
    kind (.pop shard part) update
  push : ∀ shard slot part update, (∀ memory, (update memory).slot = memory.slot) →
    kind (.push shard slot part) update

/-- The kinds of access that cover the stacks, the drain among them, and reading. -/
structure Drains (kind : Kind) : Prop extends Stacked kind where
  count : ∀ update, (∀ memory, (update memory).slot = memory.slot) → kind .count update
  uncount : ∀ update, (∀ memory, (update memory).slot = memory.slot) → kind .uncount update
  recover : ∀ slot, kind (.recover slot) (exchanged slot .cancelled .reserved)
  field : ∀ update, (∀ memory slot, ((update memory).slot slot).state = (memory.slot slot).state ∧
    ((update memory).slot slot).seq = (memory.slot slot).seq ∧
    ((update memory).slot slot).deadline = (memory.slot slot).deadline ∧
    ((update memory).slot slot).result = (memory.slot slot).result) → kind .field update

/-- The kinds of access that cover all but publishing, finishing, and writing a
sequence number, a deadline or a result. -/
structure Covers (kind : Kind) : Prop extends Drains kind where
  claim : ∀ slot, kind (.claim slot) (exchanged slot .queued .claimed)
  cancel : ∀ slot, kind (.cancel slot) (exchanged slot .queued .cancelled)
  complete : ∀ slot, kind (.complete slot) (exchanged slot .claimed .completing)
  requeue : ∀ slot, kind (.requeue slot) (exchanged slot .claimed .reserved)
  fail : ∀ slot, kind (.fail slot) (exchanged slot .claimed .failed)
  reserve : ∀ slot, kind (.reserve slot) ((stateOf slot).set .reserved)

theorem covers_shape : Covers Shape where
  pop _ _ _ keeps := keeps
  push _ _ _ _ keeps := keeps
  count _ keeps := keeps
  uncount _ keeps := keeps
  claim _ := rfl
  recover _ := rfl
  cancel _ := rfl
  complete _ := rfl
  requeue _ := rfl
  fail _ := rfl
  reserve _ := rfl
  field _ keeps mem slot := (keeps mem slot).1

namespace Stacked

theorem head_slot (shard : Shard) (now new : Head) (mem : Memory) :
    (if (view.head shard).get mem = now then (view.head shard).set new mem
      else mem).slot = mem.slot := by
  split <;> rfl

theorem popShard (stacked : Stacked kind) (shard : Shard) : (popShard shard).Every kind := by
  apply every_repeatLoop
  refine every_bind ⟨stacked.pop _ _ _ fun _ => rfl, fun _ => trivial⟩ fun cur => ?_
  by_cases atEnd : cur.slot = EMPTY
  · rw [if_pos atEnd]
    trivial
  · rw [if_neg atEnd]
    refine every_bind ⟨stacked.pop _ _ _ fun _ => rfl, fun _ => trivial⟩ fun next => ?_
    refine every_bind (fun choice => ?_) fun _ => trivial
    cases choice with
    | zero => exact ⟨stacked.pop _ _ _ fun _ => rfl, fun _ => trivial⟩
    | succ choice => exact ⟨stacked.pop _ _ _ (head_slot shard _ _), fun _ => trivial⟩

theorem pushShard (stacked : Stacked kind) (shard : Shard) (idx : Nat) : (pushShard shard idx).Every kind := by
  apply every_repeatLoop
  refine every_bind ⟨stacked.push _ _ _ _ fun _ => rfl, fun _ => trivial⟩ fun cur => ?_
  refine every_bind ⟨stacked.push _ _ _ _ fun _ => rfl, fun _ => trivial⟩ fun _ => ?_
  refine every_bind (fun choice => ?_) fun _ => trivial
  cases choice with
  | zero => exact ⟨stacked.push _ _ _ _ fun _ => rfl, fun _ => trivial⟩
  | succ choice => exact ⟨stacked.push _ _ _ _ (head_slot shard _ _), fun _ => trivial⟩

theorem firstOf (each : ∀ shard, (attempt shard).Every kind) (order : List (Fin shards)) :
    (firstOf attempt order).Every kind := by
  induction order with
  | nil => trivial
  | cons shard rest ih =>
    exact every_found (each shard) (ih) fun idx => trivial

theorem popFree (stacked : Stacked kind) : popFree.Every kind :=
  fun _ => firstOf (fun shard => stacked.popShard (.free shard)) _

theorem pushFree (stacked : Stacked kind) (idx : Nat) : (pushFree idx).Every kind :=
  fun _ => stacked.pushShard _ idx

theorem pushBack (stacked : Stacked kind) (shard : Fin shards) (kept : List Nat) :
    (pushBack shard kept).Every kind := by
  induction kept with
  | nil => trivial
  | cons idx rest ih => exact every_bind (stacked.pushShard _ _) fun _ => ih

end Stacked

namespace Drains

theorem admits (drains : Drains kind) : Admits kind := by
  intro update keeps
  apply drains.field
  intro mem slot
  rw [(keeps mem).2.2]
  exact ⟨rfl, rfl, rfl, rfl⟩

section

theorem countCancelled (drains : Drains kind) : countCancelled.Every kind := by
  have recount (change : Nat → Nat) :
      (fetchUpdate .count cancelledRef change : Code Nat).Every kind :=
    ⟨drains.count _ fun _ => rfl, fun _ => trivial⟩
  exact recount _

theorem uncountCancelled (drains : Drains kind) : uncountCancelled.Every kind := by
  have recount (change : Nat → Nat) :
      (fetchUpdate .uncount cancelledRef change : Code Nat).Every kind :=
    ⟨drains.uncount _ fun _ => rfl, fun _ => trivial⟩
  exact recount _

theorem exchange (covered : kind site (exchanged slot now new)) :
    (compareExchange site (stateOf slot) now new : Code (Option TaskState)).Every kind :=
  ⟨covered, fun _ => trivial⟩

end

section

theorem dig (drains : Drains kind) (shard : Fin shards) (budget : Nat) (kept : List Nat) :
    (dig shard budget kept).Every kind := by
  induction budget generalizing kept with
  | zero => trivial
  | succ budget ih =>
    refine every_found (drains.popShard _) trivial fun idx => ?_
    exact every_found (exchange (drains.recover idx)) (every_bind drains.uncountCancelled fun _ =>
      trivial) fun _ => ih _

theorem drain (drains : Drains kind) (queue : Queue) (order : List (Fin shards)) :
    (drain queue order).Every kind := by
  induction order with
  | nil => trivial
  | cons shard rest ih =>
    refine every_bind (drains.admits.load _) fun count => ?_
    split
    · trivial
    · refine every_bind (drains.dig _ _ _) fun out => ?_
      refine every_bind (drains.pushBack _ _) fun _ => ?_
      cases out.1 with
      | none => exact ih
      | some idx => trivial

end

end Drains

namespace Covers

variable {kind : Kind}

section

theorem claimPop (covers : Covers kind) (shard : Fin shards) : (claimPop shard).Every kind := by
  apply every_repeatLoop
  refine every_found (covers.popShard _) trivial fun idx => ?_
  refine every_bind (every_bind (Drains.exchange (covers.claim idx)) fun _ => trivial) fun won => ?_
  cases won with
  | true => trivial
  | false =>
    refine every_bind (covers.pushShard _ _) fun _ => ?_
    exact every_bind covers.uncountCancelled fun _ => trivial

theorem reserveFree (covers : Covers kind) : reserveFree.Every kind := by
  exact every_found covers.popFree trivial fun idx => every_bind ⟨covers.reserve idx, fun _ => trivial⟩ fun _ => trivial

theorem reserveSubmitSlot (covers : Covers kind) (queue : Queue) : (reserveSubmitSlot queue).Every kind := by
  refine every_bind covers.reserveFree fun got => ?_
  cases got with
  | some idx => trivial
  | none =>
    refine every_bind (covers.drain _ _) fun drained => ?_
    cases drained with
    | some idx =>
      refine every_bind trivial fun _ => ?_
      exact every_bind (covers.admits.load _) fun _ => trivial
    | none =>
      refine every_bind covers.reserveFree fun _ => ?_
      exact every_bind (covers.admits.load _) fun _ => trivial

end

section

variable (covers : Covers kind)

include covers

/-- A field of a slot that a task does not depend on. -/
theorem store (idx : Nat) {get : TaskSlot → Value} {set : Value → TaskSlot → TaskSlot} (val : Value)
    (keeps : ∀ slot, (set val slot).state = slot.state ∧ (set val slot).seq = slot.seq ∧
      (set val slot).deadline = slot.deadline ∧ (set val slot).result = slot.result) :
    (store .field ((slotRef idx).field get set) val : Code Unit).Every kind := by
  refine ⟨covers.field _ fun mem slot => ?_, fun _ => trivial⟩
  by_cases same : slot = idx
  · subst same
    simpa [slotRef, Ref.field] using keeps (mem.slot slot)
  · simp [slotRef, Ref.field, same]

/-- The deadline a claim stamps, if it stamps one. -/
def Stamps (kind : Kind) (deadline : Option Nat) : Prop :=
  ∀ idx value, deadline = some value → kind .field ((deadlineOf idx).set value)

theorem flagClaimed (handle : TaskHandle) : (flagClaimed handle).Every kind := by
  refine every_bind (covers.admits.load _) fun st => ?_
  split
  · refine every_bind (covers.admits.load _) fun seq => ?_
    split
    · exact covers.store _ _ fun _ => ⟨rfl, rfl, rfl, rfl⟩
    · trivial
  · trivial

theorem cancelTask (queue : Queue) (handle : TaskHandle) : (Task.cancel queue handle).Every kind := by
  unfold Task.cancel
  split
  · trivial
  refine every_bind (covers.admits.load _) fun seq => ?_
  split
  · trivial
  refine every_bind covers.countCancelled fun _ => ?_
  refine every_bind (every_bind (Drains.exchange (covers.cancel _)) fun _ => trivial) fun won => ?_
  cases won with
  | true => exact every_bind (covers.admits.load _) fun _ => trivial
  | false =>
    refine every_bind covers.uncountCancelled fun _ => ?_
    exact every_bind (covers.flagClaimed handle) fun _ => trivial

end

end Covers

theorem shape_elsewhere {code : Code Value} (every : code.Every Elsewhere) : code.Every Shape := by
  apply every_mono every
  rintro site update ⟨rfl, keeps⟩ mem slot
  exact (keeps mem).2.2 slot

theorem stamps_shape : Covers.Stamps Shape due := by
  intro idx val _
  have ne : Apart (deadlineOf idx) := by
    apply apart_slotField
    exact fun _ _ => rfl
  exact fun mem entry => ((ne val).2 mem).2.2 entry

/-- The kinds of access that cover publishing, finishing and writing a result too. -/
structure Whole (kind : Kind) : Prop extends Covers kind where
  publish : ∀ slot, kind (.publish slot) ((stateOf slot).set .queued)
  finish : ∀ slot, kind (.finish slot) ((stateOf slot).set .done)
  result : ∀ slot value, kind .field ((resultOf slot).set value)

theorem whole_shape : Whole Shape where
  toCovers := covers_shape
  publish _ := rfl
  finish _ := rfl
  result slot val := by
    have ne : Apart (resultOf slot) := by
      apply apart_slotField
      exact fun _ _ => rfl
    exact fun mem entry => ((ne val).2 mem).2.2 entry

namespace Whole

theorem mono (whole : Whole kind)
    (weaken : ∀ {site update}, kind site update → weaker site update) : Whole weaker where
  pop _ _ _ keeps := weaken (whole.pop _ _ _ keeps)
  push _ _ _ _ keeps := weaken (whole.push _ _ _ _ keeps)
  count _ keeps := weaken (whole.count _ keeps)
  uncount _ keeps := weaken (whole.uncount _ keeps)
  field _ keeps := weaken (whole.field _ keeps)
  claim slot := weaken (whole.claim slot)
  recover slot := weaken (whole.recover slot)
  cancel slot := weaken (whole.cancel slot)
  complete slot := weaken (whole.complete slot)
  requeue slot := weaken (whole.requeue slot)
  fail slot := weaken (whole.fail slot)
  reserve slot := weaken (whole.reserve slot)
  publish slot := weaken (whole.publish slot)
  finish slot := weaken (whole.finish slot)
  result slot val := weaken (whole.result slot val)

theorem publishQueued (whole : Whole kind) (shard : Fin shards) (idx : Nat) : (publishQueued shard idx).Every kind :=
  every_bind ⟨whole.publish idx, fun _ => trivial⟩ fun _ => whole.pushShard _ _

section

theorem requeueTask (whole : Whole kind) (idx retry : Nat) (report : ReapReport) : (do
    Lib.store .field (retryOf idx) retry
    Lib.store .field (ownerOf idx) ownerNone
    Task.publishQueued (Fin.ofNat shards idx) idx
    return report : Code ReapReport).Every kind := by
  refine every_bind (whole.store idx _ fun _ => ⟨rfl, rfl, rfl, rfl⟩) fun _ => ?_
  refine every_bind (whole.store idx _ fun _ => ⟨rfl, rfl, rfl, rfl⟩) fun _ => ?_
  exact every_bind (whole.publishQueued _ _) fun _ => trivial

end

end Whole

namespace Staged

section

variable {kind : Stage × Site → (Memory → Memory) → Prop}

section

variable (plain : Covers fun site => kind (.plain, site))

include plain

theorem every_claimInner (workerId : Nat) (leases : Covers fun site => kind (.lease due, site))
    (stamps : ∀ idx val, due = some val → kind (.stamp idx, .field) ((deadlineOf idx).set val)) :
    (claimInner workerId due).Every kind := by
  have swept : ((firstOf claimPop (claimOrder workerId)).label (.lease due)).Every kind :=
    every_label (Stacked.firstOf leases.claimPop _) fun _ _ covered => covered
  refine every_found swept trivial fun idx => ?_
  have fields : (do
      let seq ← Lib.load (.plain, .field) (seqOf idx)
      let req ← Lib.load (.plain, .field) (requestOf idx)
      return some ⟨idx, seq, workerId, req⟩ : Steps (Option ClaimedTask)).Every kind :=
    every_bind (every_read plain.admits _) fun _ => every_bind (every_read plain.admits _) fun _ => trivial
  refine every_bind ⟨(plain.store idx _ fun _ => ⟨rfl, rfl, rfl, rfl⟩).1, fun _ => trivial⟩ fun _ => ?_
  cases due with
  | none => exact fields
  | some due => exact every_bind ⟨stamps idx due rfl, fun _ => trivial⟩ fun _ => fields

theorem every_giveBack (idx : Nat) : (do
    (pushFree idx).label .plain
    let _ ← Lib.load (.plain, .field) waitersDoneRef
    return (.ok () : Except QueueError Unit) : Steps _).Every kind :=
  every_bind (every_plain (plain.pushFree idx)) fun _ =>
    every_bind (every_read plain.admits _) fun _ => trivial

theorem every_fail (idx seq : Nat) : (fail idx seq).Every kind := by
  refine every_bind (every_read plain.admits _) fun now => ?_
  split
  · trivial
  have failed : ((tryFail idx).label .plain).Every kind :=
    every_plain (every_bind (Drains.exchange (plain.fail idx)) fun _ => trivial)
  refine every_bind failed fun won => ?_
  cases won with
  | false => trivial
  | true => exact every_giveBack plain idx

end

/-- The kinds of access that cover every call but `cancel`, beyond the fields a
submit writes and the deadline a claim stamps. -/
structure Spans (kind : Stage × Site → (Memory → Memory) → Prop) : Prop where
  whole : ∀ {stage}, stage.shared = true → Whole fun site => kind (stage, site)
  reads : ∀ {stage}, stage.reads = true → Admits fun site => kind (stage, site)
  answer : ∀ slot result, kind (.answer slot, .field) ((resultOf slot).set result)
  again : ∀ slot retry, kind (.again slot, .field) ((retryOf slot).set retry)

namespace Spans

variable (spans : Spans kind)

include spans

theorem label (shared : stage.shared = true) {code : Code Value}
    (every : ∀ {kind : Kind}, Whole kind → code.Every kind) :
    (code.label stage).Every kind :=
  every_label (every (spans.whole shared)) fun _ _ covered => covered

theorem load (cell : Ref Memory Value) : (load (.plain, .field) cell : Steps Value).Every kind :=
  every_read (spans.whole rfl).admits cell

theorem complete (idx seq : Nat) (res : ChunkDesc) : (complete idx seq res).Every kind := by
  refine every_bind (spans.load _) fun now => ?_
  split
  · trivial
  have begun : ((tryBeginComplete idx).label .plain).Every kind :=
    spans.label rfl fun whole => every_bind (Drains.exchange (whole.toCovers.complete _)) fun _ => trivial
  refine every_bind begun fun won => ?_
  cases won with
  | false => trivial
  | true =>
    refine every_bind ⟨spans.answer _ _, fun _ => trivial⟩ fun _ => ?_
    refine every_bind ⟨(spans.whole rfl).finish _, fun _ => trivial⟩ fun _ => ?_
    exact every_giveBack (spans.whole rfl).toCovers idx

theorem settle (task : ClaimedTask) (verdict : Verdict) : (settle task verdict).Every kind := by
  cases verdict with
  | drop => trivial
  | fail => exact every_bind (every_fail (spans.whole rfl).toCovers _ _) fun _ => trivial
  | complete res => exact every_bind (spans.complete _ _ _) fun _ => trivial

theorem work (workerId : Nat) (due : Option Nat)
    (outputs : ClaimedTask → List LeaseBinding) (verdict : ClaimedTask → Verdict)
    (stamps : ∀ idx val, kind (.stamp idx, .field) ((deadlineOf idx).set val)) :
    (work workerId due outputs verdict).Every kind := by
  refine every_found (every_claimInner (spans.whole rfl).toCovers workerId (spans.whole rfl).toCovers
    fun idx val _ => stamps idx val) trivial fun task => ?_
  refine every_bind (every_forEach _ fun binding _ => ?_) fun _ => ?_
  · exact every_bind (spans.label rfl fun whole => every_bindOutput whole.admits _ _ _) fun _ => trivial
  · exact every_bind (spans.settle task _) fun _ => trivial

variable (queue : Queue)

theorem submitReserved (req : ChunkDesc) (due : Nat)
    (input : Option (LeaseBinding × Nat)) (writes : ∀ idx, (writeFields idx req due).Every kind) :
    (submitReserved queue req due input).Every kind := by
  have announced (idx newSeq : Nat) : (do
      let shard ← nextShard.label .plain
      (publishQueued shard idx).label .plain
      let _ ← Lib.load (.plain, .field) waitersWorkRef
      return (.ok ⟨idx, newSeq⟩ : Except QueueError TaskHandle) : Steps _).Every kind := by
    refine every_bind (fun _ => trivial) fun shard => ?_
    refine every_bind (spans.label rfl fun whole => whole.publishQueued shard idx) fun _ => ?_
    exact every_bind (spans.load _) fun _ => trivial
  refine every_bind (spans.label rfl fun whole => whole.reserveSubmitSlot queue) fun got => ?_
  cases got with
  | none =>
    cases input with
    | none => trivial
    | some input => exact every_bind (spans.label rfl fun whole => every_pushLease whole.admits _) fun _ => trivial
  | some idx =>
    refine every_bind (writes idx) fun newSeq => ?_
    cases input with
    | none => exact announced idx newSeq
    | some input =>
      exact every_bind (spans.label rfl fun whole => every_arm whole.admits _ _ _ _ _) fun _ =>
        announced idx newSeq

theorem submitInner (req : ChunkDesc) (due : Nat)
    (input : Option LeaseBinding) (writes : ∀ idx, (writeFields idx req due).Every kind) :
    (submitInner queue req due input).Every kind := by
  cases input with
  | none => exact spans.submitReserved queue req due none writes
  | some binding =>
    exact every_found (spans.label rfl fun whole => every_popLease whole.admits) trivial fun lease =>
      spans.submitReserved queue req due _ writes

theorem reapLapsed (now idx : Nat) (report : ReapReport) : (reapLapsed queue now idx report).Every kind := by
  refine every_bind (every_read (spans.reads rfl) _) fun retry => ?_
  split
  · have failed : ((tryFail idx).label (.lapse idx now)).Every kind :=
      spans.label rfl fun whole => every_bind (Drains.exchange (whole.fail _)) fun _ => trivial
    refine every_bind failed fun won => ?_
    cases won with
    | true => exact every_bind (spans.label rfl fun whole => whole.pushFree _) fun _ => trivial
    | false => trivial
  · have requeued : ((tryBeginReapRequeue idx).label (.lapse idx now)).Every kind :=
      spans.label rfl fun whole => every_bind (Drains.exchange (whole.requeue _)) fun _ => trivial
    refine every_bind requeued fun won => ?_
    cases won with
    | false => trivial
    | true =>
      refine every_bind ⟨spans.again idx _, fun _ => trivial⟩ fun _ => ?_
      refine every_bind ⟨((spans.whole rfl).store idx _ fun _ => ⟨rfl, rfl, rfl, rfl⟩).1, fun _ => trivial⟩ fun _ => ?_
      exact every_bind (spans.label rfl fun whole => whole.publishQueued _ _) fun _ => trivial

theorem reap (now : Nat) : (reap queue now).Every kind := by
  have swept (slots : List Nat) (report : ReapReport) : (reapSlots queue now slots report).Every kind := by
    induction slots generalizing report with
    | nil => trivial
    | cons idx rest ih =>
      refine every_bind (every_read (spans.reads rfl) _) fun st => ?_
      split
      · exact ih report
      refine every_bind (every_read (spans.reads rfl) _) fun due => ?_
      split
      · exact ih report
      · exact every_bind (spans.reapLapsed queue now idx report) fun report => ih report
  refine every_bind (swept _ _) fun report => ?_
  have last : (if report.failed > 0 then do
      let _ ← Lib.load (.plain, .field) waitersDoneRef
      return report
    else return report : Steps ReapReport).Every kind := by
    split
    · exact every_bind (spans.load _) fun _ => trivial
    · trivial
  by_cases requeued : report.requeued > 0
  · simp only [if_pos requeued]
    exact every_bind (spans.load _) fun _ => last
  · simp only [if_neg requeued]
    exact last

theorem call (writes : ∀ idx req due, (writeFields idx req due).Every kind)
    (stamps : ∀ idx val, kind (.stamp idx, .field) ((deadlineOf idx).set val))
    (other : ∀ handle, op ≠ .cancel handle) : (call queue op).Every kind := by
  cases op with
  | cancel handle => exact absurd rfl (other handle)
  | submit req due input => exact every_bind (spans.submitInner _ _ _ _ fun _ => writes _ _ _) fun _ => trivial
  | work workerId due outputs verdict => exact spans.work _ _ _ _ stamps
  | reap now => exact every_bind (spans.reap _ _) fun _ => trivial
  | ack handle => exact every_bind (spans.label rfl fun whole => every_ack whole.admits _) fun _ => trivial
  | reapBindings now grace =>
    exact every_bind (spans.label rfl fun whole => every_reapBindings whole.admits _ _) fun _ => trivial
  | poll handle =>
    refine every_bind (every_poll spans.reads _ _) fun out => every_bind ?_ fun _ => trivial
    exact ⟨spans.reads rfl id fun _ => ⟨rfl, rfl, rfl⟩, fun _ => trivial⟩

end Spans

end

end Staged

section

theorem Whole.spans (whole : Whole kind) : Staged.Spans fun site => kind site.2 where
  whole _ := whole
  reads _ := whole.admits
  answer := whole.result
  again slot retry := (whole.store slot retry fun _ => ⟨rfl, rfl, rfl, rfl⟩).1

theorem Covers.claimInner (covers : Covers kind) (workerId : Nat)
    (stamps : Stamps kind due) : (claimInner workerId due).Every kind :=
  Staged.bare_claimInner workerId due ▸
    every_bare.mpr (Staged.every_claimInner covers workerId covers stamps)

theorem Covers.failTask (covers : Covers kind) (idx seq : Nat) : (Task.fail idx seq).Every kind :=
  Staged.bare_fail idx seq ▸ every_bare.mpr (Staged.every_fail covers idx seq)

theorem Whole.completeTask (whole : Whole kind) (idx seq : Nat) (res : ChunkDesc) :
    (Task.complete idx seq res).Every kind :=
  Staged.bare_complete idx seq res ▸ every_bare.mpr (whole.spans.complete idx seq res)

theorem Whole.submitInner (whole : Whole kind) (queue : Queue) (req : ChunkDesc) (due : Nat)
    (input : Option LeaseBinding) (writes : ∀ idx, (writeFields idx req due).Every kind) :
    (submitInner queue req due input).Every kind := by
  have staged (idx : Nat) : (Staged.writeFields idx req due).Every fun site => kind site.2 := by
    rw [← every_bare, Staged.bare_writeFields]
    exact writes idx
  rw [← Staged.bare_submitInner]
  exact every_bare.mpr (whole.spans.submitInner queue req due input staged)

theorem Whole.reap (whole : Whole kind) (queue : Queue) (now : Nat) : (reap queue now).Every kind :=
  Staged.bare_reap queue now ▸ every_bare.mpr (whole.spans.reap queue now)

end

end ShmActors.Task
