import ShmActors.Broadcast.Ring
import ShmActors.Lib.Protocol

/-! Producers and subscribers of one ring, interleaved step by step, and the log
of what has been published. -/

namespace ShmActors.Broadcast

open Lib Core

inductive RingCall where
  | publish (desc : ChunkDesc)
  | publishUnpressed (desc : ChunkDesc)
  | subscribe
  | subscribeFrom (seq : Nat)
  | makeReliable (subscriber : Subscriber)
  | tryRecv (subscriber : Subscriber)
  | recv (subscriber : Subscriber)
  | drop (subscriber : Subscriber)

inductive RingAnswer where
  | published (woke : Bool)
  | subscribed (subscriber : Subscriber)
  | promoted (subscriber : Subscriber) (fault : Option RingError)
  | received (outcome : Option (Subscriber × Msg))
  | dropped

/-- A delivery, and the cursor it was made at. -/
structure Receipt where
  cursor : Nat
  msg : Msg
  deriving DecidableEq, Repr

/-- What a member of the ring has between calls: whether it may publish, its
subscription, where that began and what it has received, oldest first. -/
structure Member where
  publisher : Bool
  subscriber : Option Subscriber
  since : Nat
  received : List Receipt
  deriving DecidableEq

def Member.producer : Member := ⟨true, none, 0, []⟩

def Member.consumer : Member := ⟨false, none, 0, []⟩

/-- No lag is among what a member has received. -/
def Member.Unlagged (member : Member) : Prop :=
  ∀ receipt ∈ member.received, ∀ skipped, receipt.msg ≠ .lagged skipped

section

variable (ring : Ring)

def serve : RingCall → RingAct RingAnswer
  | .publish desc => .published <$> ring.publish desc
  | .publishUnpressed desc => .published <$> publishUnpressed ring desc
  | .subscribe => .subscribed <$> Subscriber.new
  | .subscribeFrom seq => .subscribed <$> Subscriber.fromSeq seq
  | .makeReliable subscriber => (fun outcome => .promoted outcome.1 outcome.2) <$> subscriber.makeReliable
  | .tryRecv subscriber => .received <$> subscriber.tryRecv ring
  | .recv subscriber => (fun outcome => .received (some outcome)) <$> subscriber.recv ring
  | .drop subscriber => (fun _ => .dropped) <$> subscriber.drop

/-- The calls a member may make with what it has. -/
def Member.may (member : Member) : RingCall → Prop
  | .publish _ | .publishUnpressed _ => member.publisher = true
  | .subscribe => member.subscriber = none
  | .subscribeFrom seq => member.subscriber = none ∧ seq < 2 ^ 64
  | .makeReliable subscriber | .tryRecv subscriber | .recv subscriber | .drop subscriber =>
    member.subscriber = some subscriber

instance (member : Member) : (call : RingCall) → Decidable (member.may call)
  | .publish _ | .publishUnpressed _ => inferInstanceAs (Decidable (member.publisher = true))
  | .subscribe => inferInstanceAs (Decidable (member.subscriber = none))
  | .subscribeFrom seq => inferInstanceAs (Decidable (member.subscriber = none ∧ seq < 2 ^ 64))
  | .makeReliable subscriber | .tryRecv subscriber | .recv subscriber | .drop subscriber =>
    inferInstanceAs (Decidable (member.subscriber = some subscriber))

/-- The cursor a call reads at. -/
def RingCall.cursor : RingCall → Nat
  | .tryRecv subscriber | .recv subscriber => subscriber.cursor
  | _ => 0

/-- The member after a call's answer. -/
def Member.answered (member : Member) (call : RingCall) : RingAnswer → Member
  | .subscribed subscriber =>
    { member with subscriber := some subscriber, since := subscriber.cursor, received := [] }
  | .promoted subscriber _ => { member with subscriber := some subscriber }
  | .received (some (subscriber, msg)) =>
    { member with
      subscriber := some subscriber
      received := member.received ++ [⟨call.cursor, msg⟩] }
  | .dropped => { member with subscriber := none }
  | .published _ | .received none => member

end

/-- One message as published: by whom, at which sequence. -/
structure Publication where
  actor : Nat
  seq : Nat
  desc : ChunkDesc
  deriving DecidableEq

/-- What the code does not see: the messages whose `head` store has been made,
oldest first, who is between the load and the store of `head`, and the sequence
whose descriptor is being written into its slot. -/
structure Bulletin where
  published : List Publication
  inside : Option Nat
  writing : Option Nat

def Bulletin.empty : Bulletin := ⟨[], none, none⟩

/-- What one actor has published. -/
def Bulletin.publishedBy (bulletin : Bulletin) (actor : Nat) : List ChunkDesc :=
  (bulletin.published.filter fun publication => publication.actor = actor).map Publication.desc

def Bulletin.record (actor : Nat) (site : RingSite) (bulletin : Bulletin) : Bulletin :=
  match site with
  | .loadHead => { bulletin with inside := some actor }
  | .writeDesc seq _ => { bulletin with writing := some seq }
  | .storeSeq _ => { bulletin with writing := none }
  | .advanceHead seq desc =>
    { bulletin with published := bulletin.published ++ [⟨actor, seq, desc⟩], inside := none }
  | _ => bulletin

/-- The members of a ring. `permitted` says which calls the runs are made of, and
`allowed` which accesses. -/
abbrev members (ring : Ring) (permitted : RingCall → Prop)
    (allowed : Nat → RingSite → RingMemory → Bulletin → Prop) :
    Actors RingMemory RingSite Bulletin RingCall Member RingAnswer where
  program := serve ring
  enabled member call := permitted call ∧ member.may call
  start member _ := member
  finish member call answer := member.answered call answer
  track actor site _ _ := Bulletin.record actor site
  allowed := allowed

/-- A fresh ring; the first actor is its producer. -/
def opened : Config RingMemory RingSite Bulletin RingCall Member RingAnswer where
  state := blank
  history := .empty
  thread actor := .idle (if actor = 0 then .producer else .consumer)

/-- Runs that leave no interleaving out. -/
abbrev anyAccess (_ : Nat) (_ : RingSite) (_ : RingMemory) (_ : Bulletin) : Prop := True

section

variable (ring : Ring) (permitted : RingCall → Prop)
  (allowed : Nat → RingSite → RingMemory → Bulletin → Prop)

end

end ShmActors.Broadcast
