import ShmActors.Core.Ctrl

/-! The broadcast ring of `shm-ring`: slots guarded by sequence numbers, a
producer that never waits and subscribers with cursors of their own. -/

namespace ShmActors.Broadcast

open Lib Core Function

/-- `RELIABLE_UNUSED`, and the sequence of a slot never written: `u64::MAX`. -/
def reliableUnused : Nat := 2 ^ 64 - 1

/-- `MAX_RELIABLE`. -/
def maxReliable : Nat := 8

/-- `SPIN_LIMIT`. -/
def spinLimit : Nat := 256

inductive RingError where
  | badCapacity (capacity : Nat)
  | reliableTableFull (limit : Nat)
  deriving DecidableEq, Repr

structure Slot where
  seq : Nat
  desc : ChunkDesc
  deriving DecidableEq

/-- The header's words and the slot array. -/
structure RingMemory where
  head : Nat
  waiters : Nat
  reliable : Nat → Nat
  slot : Nat → Slot

/-- The geometry a handle has cached. -/
structure Ring where
  capacity : Nat
  power : capacity.isPowerOfTwo
  small : capacity < 2 ^ 32

/-- The words of a descriptor, in the order in which it is copied. -/
inductive Field where
  | segmentId
  | generation
  | offset
  | len
  | schemaId
  deriving DecidableEq, Repr

def fields : List Field := [.segmentId, .generation, .offset, .len, .schemaId]

def Field.get (desc : ChunkDesc) : Field → Nat
  | segmentId => desc.segmentId
  | generation => desc.generation
  | offset => desc.offset
  | len => desc.len
  | schemaId => desc.schemaId

def Field.put (value : Nat) (desc : ChunkDesc) : Field → ChunkDesc
  | segmentId => { desc with segmentId := value }
  | generation => { desc with generation := value }
  | offset => { desc with offset := value }
  | len => { desc with len := value }
  | schemaId => { desc with schemaId := value }

theorem Field.get_put (val : Nat) (desc : ChunkDesc) (field other : Field) :
    other.get (field.put val desc) = if other = field then val else other.get desc := by
  cases field <;> cases other <;> rfl

theorem mem_fields (field : Field) : field ∈ fields := by
  cases field <;> decide

theorem desc_ext (same : ∀ field : Field, field.get one = field.get two) : one = two := by
  have segmentId := same .segmentId
  have generation := same .generation
  have offset := same .offset
  have len := same .len
  have schemaId := same .schemaId
  cases one
  cases two
  simp only [Field.get] at segmentId generation offset len schemaId
  subst segmentId generation offset len schemaId
  rfl

/-- One constructor an atomic access; the descriptor is not one atomic, so each
of its words is copied on its own. -/
inductive RingSite where
  | loadHead
  | writeDesc (seq : Nat) (field : Field)
  | storeSeq (seq : Nat)
  | advanceHead (seq : Nat) (desc : ChunkDesc)
  | loadWaiters
  | gateHead
  | guardSeq (cursor : Nat)
  | readDesc (cursor : Nat) (field : Field)
  | recheckSeq (cursor : Nat)
  | refreshHead
  | addWaiter
  | removeWaiter
  | park
  | subscribeHead
  | registerReliable (index cursor : Nat)
  | updateReliable (index cursor : Nat)
  | releaseReliable (index : Nat)
  | scanReliable (index : Nat)
  | pressureHead
  deriving DecidableEq, Repr

abbrev RingAct := Program RingMemory RingSite

section

def headOf : Ref RingMemory Nat :=
  ⟨RingMemory.head, fun head memory => { memory with head := head }⟩

def waitersOf : Ref RingMemory Nat :=
  ⟨RingMemory.waiters, fun waiters memory => { memory with waiters := waiters }⟩

def reliableOf (index : Nat) : Ref RingMemory Nat :=
  ⟨fun memory => memory.reliable index,
    fun cursor memory => { memory with reliable := update memory.reliable index cursor }⟩

def slotOf (index : Nat) : Ref RingMemory Slot :=
  ⟨fun memory => memory.slot index,
    fun slot memory => { memory with slot := update memory.slot index slot }⟩

def seqOf (index : Nat) : Ref RingMemory Nat :=
  (slotOf index).field Slot.seq fun seq slot => { slot with seq := seq }

def fieldOf (index : Nat) (field : Field) : Ref RingMemory Nat :=
  (slotOf index).field (fun slot => field.get slot.desc)
    fun value slot => { slot with desc := field.put value slot.desc }

end

/-- `Subscriber`, without the handle and the parker. -/
structure Subscriber where
  cursor : Nat
  reliable : Option Nat
  deriving DecidableEq, Repr

inductive Msg where
  | sample (desc : ChunkDesc)
  | lagged (skipped : Nat)
  deriving DecidableEq, Repr

inductive ReadOutcome where
  | sample (desc : ChunkDesc)
  | lagged (skipped newCursor : Nat)
  | empty
  deriving DecidableEq, Repr

/-- The memory `Ring::init` leaves. -/
def blank : RingMemory := ⟨0, 0, fun _ => reliableUnused, fun _ => ⟨reliableUnused, ChunkDesc.zero⟩⟩

namespace Ring

variable (ring : Ring)

def mask : Nat := ring.capacity - 1

/-- The index of `slot_ptr`. -/
def slotIndex (seq : Nat) : Nat := seq &&& ring.mask

theorem capacity_pos : 0 < ring.capacity := by
  obtain ⟨bits, eq⟩ := ring.power
  rw [eq]
  exact Nat.two_pow_pos bits

theorem slotIndex_eq (seq : Nat) : ring.slotIndex seq = seq % ring.capacity := by
  obtain ⟨bits, eq⟩ := ring.power
  rw [slotIndex, mask, eq, Nat.and_two_pow_sub_one_eq_mod]

/-- Two sequences less than a lap apart share no slot. -/
theorem slotIndex_ne (later : one < two)
    (near : two < one + ring.capacity) : ring.slotIndex one ≠ ring.slotIndex two := by
  intro same
  rw [slotIndex_eq, slotIndex_eq] at same
  have positive : 0 < two - one := by omega
  have divides : ring.capacity ∣ two - one :=
    Nat.dvd_of_mod_eq_zero (Nat.sub_mod_eq_zero_of_mod_eq same.symm)
  have := Nat.le_of_dvd positive divides
  omega

/-- `publish`: whether anyone is parked. -/
def publish (desc : ChunkDesc) : RingAct Bool := do
  let seq ← load .loadHead headOf
  forEach (fun field => store (.writeDesc seq field) (fieldOf (ring.slotIndex seq) field) (field.get desc)) fields
  store (.storeSeq seq) (seqOf (ring.slotIndex seq)) seq
  store (.advanceHead seq desc) headOf ((seq + 1) % 2 ^ 64)
  let waiters ← load .loadWaiters waitersOf
  return decide (0 < waiters)

/-- A lap raced the reader: a lag against a fresh head. -/
def lapped (cursor : Nat) : RingAct ReadOutcome := do
  let head ← load .refreshHead headOf
  let newCursor := (head + 2 ^ 64 - ring.capacity) % 2 ^ 64
  return .lagged (newCursor - cursor) newCursor

def readFields (cursor : Nat) : List Field → ChunkDesc → RingAct ChunkDesc
  | [], desc => return desc
  | field :: rest, desc => do
    let value ← load (.readDesc cursor field) (fieldOf (ring.slotIndex cursor) field)
    readFields cursor rest (field.put value desc)

def readAt (cursor : Nat) : RingAct ReadOutcome := do
  let head ← load .gateHead headOf
  if head ≤ cursor then
    return .empty
  else if ring.capacity < head - cursor then
    return .lagged (head - ring.capacity - cursor) (head - ring.capacity)
  else
    let seq ← load (.guardSeq cursor) (seqOf (ring.slotIndex cursor))
    if seq ≠ cursor then
      ring.lapped cursor
    else
      let desc ← ring.readFields cursor fields ChunkDesc.zero
      -- an overwrite that landed during the read
      let seq ← load (.recheckSeq cursor) (seqOf (ring.slotIndex cursor))
      if seq ≠ cursor then ring.lapped cursor else return .sample desc

def addWaiter : RingAct Nat := fetchUpdate .addWaiter waitersOf fun waiters => (waiters + 1) % 2 ^ 32

def removeWaiter : RingAct Nat :=
  fetchUpdate .removeWaiter waitersOf fun waiters => (waiters + 2 ^ 32 - 1) % 2 ^ 32

/-- The cells `register_reliable` has still to try. -/
def registerAmong (cursor : Nat) : List Nat → RingAct (Except RingError Nat)
  | [] => return .error (.reliableTableFull maxReliable)
  | index :: rest => do
    match ← compareExchange (.registerReliable index cursor) (reliableOf index) reliableUnused cursor with
    | none => return .ok index
    | some _ => registerAmong cursor rest

def registerReliable (cursor : Nat) : RingAct (Except RingError Nat) :=
  registerAmong cursor (List.range maxReliable)

def updateReliable (index cursor : Nat) : RingAct Unit :=
  store (.updateReliable index cursor) (reliableOf index) cursor

def releaseReliable (index : Nat) : RingAct Unit :=
  store (.releaseReliable index) (reliableOf index) reliableUnused

/-- The smaller cursor, where there is one. -/
def lower (least : Option Nat) (cursor : Nat) : Option Nat :=
  if cursor = reliableUnused then least else some ((least.map (min · cursor)).getD cursor)

def minAmong : List Nat → Option Nat → RingAct (Option Nat)
  | [], least => return least
  | index :: rest, least => do
    let cursor ← load (.scanReliable index) (reliableOf index)
    minAmong rest (lower least cursor)

def minReliableCursor : RingAct (Option Nat) := minAmong (List.range maxReliable) none

def wouldBackpressure : RingAct Bool := do
  match ← minReliableCursor with
  | some least => do
    let head ← load .pressureHead headOf
    return decide (ring.capacity < head - least)
  | none => return false

end Ring

namespace Subscriber

/-- `Subscriber::new`: from the current head. -/
def new : RingAct Subscriber := do
  let cursor ← load .subscribeHead headOf
  return ⟨cursor, none⟩

/-- `Subscriber::from_seq`; `from_start` is the case of sequence 0. -/
def fromSeq (seq : Nat) : RingAct Subscriber := do
  let subscriber ← new
  return { subscriber with cursor := seq }

/-- `make_reliable`, and the subscriber it leaves. -/
def makeReliable (subscriber : Subscriber) : RingAct (Subscriber × Option RingError) :=
  match subscriber.reliable with
  | some _ => return (subscriber, none)
  | none => do
    match ← Ring.registerReliable subscriber.cursor with
    | .ok index => return ({ subscriber with reliable := some index }, none)
    | .error fault => return (subscriber, some fault)

def syncReliable (subscriber : Subscriber) : RingAct Unit :=
  match subscriber.reliable with
  | some index => Ring.updateReliable index subscriber.cursor
  | none => return ()

/-- `try_recv`, and the subscriber it leaves; `none` leaves it as it was. -/
def tryRecv (ring : Ring) (subscriber : Subscriber) : RingAct (Option (Subscriber × Msg)) := do
  match ← ring.readAt subscriber.cursor with
  | .sample desc => do
    let subscriber := { subscriber with cursor := (subscriber.cursor + 1) % 2 ^ 64 }
    subscriber.syncReliable
    return some (subscriber, .sample desc)
  | .lagged skipped newCursor => do
    let subscriber := { subscriber with cursor := newCursor }
    subscriber.syncReliable
    return some (subscriber, .lagged skipped)
  | .empty => return none

/-- The bounded spin of `recv`. -/
def spin (ring : Ring) (subscriber : Subscriber) : Nat → RingAct (Option (Subscriber × Msg))
  | 0 => return none
  | tries + 1 => do
    match ← subscriber.tryRecv ring with
    | some received => return some received
    | none => spin ring subscriber tries

def recv (ring : Ring) (subscriber : Subscriber) : RingAct (Subscriber × Msg) :=
  repeatLoop do
    match ← subscriber.spin ring spinLimit with
    | some received => return some received
    | none => do
      let _ ← Ring.addWaiter
      match ← subscriber.tryRecv ring with
      | some received => do
        let _ ← Ring.removeWaiter
        return some received
      | none => do
        -- the parker may return at any time
        Program.act .park id fun _ => .ret ()
        let _ ← Ring.removeWaiter
        return none

/-- `Drop for Subscriber`. -/
def drop (subscriber : Subscriber) : RingAct Unit :=
  match subscriber.reliable with
  | some index => Ring.releaseReliable index
  | none => return ()

end Subscriber

/-- A producer that publishes only where `would_backpressure` answered `false`. -/
def publishUnpressed (ring : Ring) (desc : ChunkDesc) : RingAct Bool := do
  if ← ring.wouldBackpressure then return false
  else ring.publish desc

end ShmActors.Broadcast
