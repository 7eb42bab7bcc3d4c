import ShmActors.Lib.Bytes

/-! Control frames over a stream socket, `shm-runtime/src/uds.rs`. The threads of
a node send under its send mutex; the peer reads with one `recvmsg` a frame and
keeps nothing between two calls. File descriptors passed along are left out. -/

namespace ShmActors.Node

open Lib

def MAX_FRAME : Nat := 64 * 1024

inductive FrameError where
  | peerClosed
  | protocol (message : String)
  deriving DecidableEq, Repr

/-- What `send_frame` hands to its one `sendmsg`. -/
def framed (body : Bytes) : Bytes := leBytes 4 (body.length % 2 ^ 32) ++ body

/-- `recv_frame`, given the bytes its one `recvmsg` returned. -/
def recvFrame (read : Bytes) : Except FrameError Bytes :=
  if read.length = 0 then .error .peerClosed
  else if read.length < 4 then .error (.protocol "frame shorter than length prefix")
  else
    let bodyLen := readLE (read.take 4)
    if MAX_FRAME < bodyLen ∨ read.length < 4 + bodyLen then
      .error (.protocol "frame body length exceeds received bytes")
    else .ok ((read.drop 4).take bodyLen)

/-- One direction of a connection: the thread that holds the send mutex with the
bytes its `sendmsg` has still to queue, the bytes queued, the bodies sent in the
order of their calls, and the answers of `recv_frame` so far. -/
structure Connection where
  sending : Option (Nat × Bytes)
  queued : Bytes
  sent : List Bytes
  received : List (Except FrameError Bytes)

namespace Connection

def fresh : Connection := ⟨none, [], [], []⟩

inductive Event where
  | lock (thread : Nat) (body : Bytes)
  | queue (count : Nat)
  | unlock (thread : Nat)
  | recv (count : Nat)

/-- A stream socket takes and returns bytes in pieces of any size, in order. -/
def step (conn : Connection) : Event → Option Connection
  | .lock thread body =>
    if conn.sending.isNone ∧ body.length ≤ MAX_FRAME then
      some { conn with sending := some (thread, framed body), sent := conn.sent ++ [body] }
    else none
  | .queue count =>
    match conn.sending with
    | some (thread, bytes) =>
      if 0 < count ∧ count ≤ bytes.length then
        some { conn with sending := some (thread, bytes.drop count), queued := conn.queued ++ bytes.take count }
      else none
    | none => none
  | .unlock thread =>
    if conn.sending = some (thread, []) then some { conn with sending := none } else none
  | .recv count =>
    if 0 < count ∧ count ≤ conn.queued.length ∧ count ≤ 4 + MAX_FRAME then
      some { conn with
        queued := conn.queued.drop count
        received := conn.received ++ [recvFrame (conn.queued.take count)] }
    else none

/-- The connections reached by steps that `allowed` lets happen. -/
inductive Run (allowed : Connection → Event → Prop) : Connection → Prop
  | start : Run allowed fresh
  | step {conn after : Connection} {event : Event} (earlier : Run allowed conn) (meets : allowed conn event)
      (steps : conn.step event = some after) : Run allowed after

/-- What has been received is what was sent, in order, as far as it goes. -/
def Delivered (conn : Connection) : Prop := conn.received <+: conn.sent.map .ok

/-- A `recvmsg` returns the bytes of exactly one `sendmsg`, the oldest that has not
been read. -/
def Whole (conn : Connection) : Event → Prop
  | .recv count => ∀ body, conn.sent[conn.received.length]? = some body → count = (framed body).length
  | _ => True

theorem recvFrame_framed (bounded : body.length ≤ MAX_FRAME) : recvFrame (framed body) = .ok body := by
  have small : body.length < 2 ^ 32 := Nat.lt_of_le_of_lt bounded (by decide)
  have size : readLE ((framed body).take 4) = body.length := by
    rw [framed, List.take_left' (length_leBytes 4 _), Nat.mod_eq_of_lt small, readLE_leBytes small]
  have length : (framed body).length = 4 + body.length := by simp [framed]
  have rest : (framed body).drop 4 = body := by rw [framed, List.drop_left' (length_leBytes 4 _)]
  unfold recvFrame
  rw [if_neg (by omega), if_neg (by omega), size, if_neg (by omega), rest, List.take_length]

/-- The bytes in flight are the frames not yet received. -/
structure Aligned (conn : Connection) : Prop where
  bounded : ∀ body ∈ conn.sent, body.length ≤ MAX_FRAME
  received : conn.received = (conn.sent.take conn.received.length).map .ok
  flight : conn.queued ++ conn.sending.elim [] Prod.snd =
    ((conn.sent.drop conn.received.length).map framed).flatten

variable {conn : Connection}

theorem Aligned.received_le (aligned : conn.Aligned) : conn.received.length ≤ conn.sent.length := by
  have length := congrArg List.length aligned.received
  rw [List.length_map, List.length_take] at length
  omega

theorem Aligned.delivered (aligned : conn.Aligned) : conn.Delivered := by
  rw [Delivered, aligned.received]
  exact (List.take_prefix ..).map _

theorem aligned_fresh : fresh.Aligned where
  bounded := List.forall_mem_nil _
  received := rfl
  flight := rfl

/-- With the bytes of a whole frame read, the next frame is at the front. -/
theorem Aligned.recv (aligned : conn.Aligned) (reads : 0 < count)
    (inside : count ≤ conn.queued.length) (whole : conn.Whole (.recv count)) :
    Aligned { conn with queued := conn.queued.drop count
                        received := conn.received ++ [recvFrame (conn.queued.take count)] } := by
  have flight := aligned.flight
  have unread : conn.received.length < conn.sent.length := by
    by_contra all
    rw [List.drop_of_length_le (Nat.le_of_not_lt all)] at flight
    have empty : conn.queued = [] := (List.append_eq_nil_iff.mp flight).1
    rw [empty] at inside
    exact absurd inside (Nat.not_le_of_lt reads)
  have exactly := whole _ (List.getElem?_eq_getElem unread)
  rw [List.drop_eq_getElem_cons unread, List.map_cons, List.flatten_cons] at flight
  have front : conn.queued.take count = framed conn.sent[conn.received.length] := by
    have prefixes := congrArg (List.take count) flight
    rwa [List.take_append_of_le_length inside, List.take_left' exactly.symm] at prefixes
  have behind : conn.queued.drop count ++ conn.sending.elim [] Prod.snd =
      ((conn.sent.drop (conn.received.length + 1)).map framed).flatten := by
    have suffixes := congrArg (List.drop count) flight
    rwa [List.drop_append_of_le_length inside, List.drop_left' exactly.symm] at suffixes
  refine ⟨aligned.bounded, ?_, ?_⟩
  · rw [List.length_append, List.length_singleton, List.take_succ_eq_append_getElem unread, List.map_append,
      ← aligned.received, front, recvFrame_framed (aligned.bounded _ (List.getElem_mem unread))]
    rfl
  · rw [List.length_append, List.length_singleton]
    exact behind

theorem Aligned.step (aligned : conn.Aligned) (whole : conn.Whole event)
    (steps : conn.step event = some new) : new.Aligned := by
  cases event with
  | lock thread body =>
    simp only [Connection.step, Option.ite_none_right_eq_some, Option.some.injEq] at steps
    obtain ⟨⟨free, bounded⟩, rfl⟩ := steps
    have flight := aligned.flight
    rw [Option.isNone_iff_eq_none.mp free, Option.elim_none, List.append_nil] at flight
    refine ⟨fun other in_ => ?_, ?_, ?_⟩
    · rcases List.mem_append.mp in_ with earlier | here
      · exact aligned.bounded other earlier
      · exact List.mem_singleton.mp here ▸ bounded
    · rw [List.take_append_of_le_length aligned.received_le]
      exact aligned.received
    · rw [List.drop_append_of_le_length aligned.received_le, List.map_append, List.flatten_append, ← flight]
      simp
  | queue count =>
    unfold Connection.step at steps
    cases sending : conn.sending with
    | none => simp [sending] at steps
    | some holder =>
      simp only [sending, Option.ite_none_right_eq_some, Option.some.injEq] at steps
      obtain ⟨-, rfl⟩ := steps
      refine ⟨aligned.bounded, aligned.received, ?_⟩
      have flight := aligned.flight
      rw [sending] at flight
      simpa using flight
  | unlock thread =>
    simp only [Connection.step, Option.ite_none_right_eq_some, Option.some.injEq] at steps
    obtain ⟨done, rfl⟩ := steps
    refine ⟨aligned.bounded, aligned.received, ?_⟩
    have flight := aligned.flight
    rwa [done] at flight
  | recv count =>
    simp only [Connection.step, Option.ite_none_right_eq_some, Option.some.injEq] at steps
    obtain ⟨⟨reads, inside, -⟩, rfl⟩ := steps
    exact aligned.recv reads inside whole

theorem delivered_of_run {conn : Connection} (run : Run Whole conn) : conn.Delivered := by
  suffices aligned : conn.Aligned from aligned.delivered
  induction run with
  | start => exact aligned_fresh
  | step _ meets steps ih => exact ih.step meets steps

/-- Steps taken one after the other, as far as `allowed` lets them happen. -/
def play (allowed : Connection → Event → Bool) (conn : Connection) : List Event → Option Connection
  | [] => some conn
  | event :: rest => if allowed conn event then (conn.step event).bind fun after => play allowed after rest else none

theorem run_of_played (check : Connection → Event → Bool)
    (right : ∀ conn event, check conn event = true → may conn event) (events : List Event)
    (earlier : Run may conn) (played : play check conn events = some final) : Run may final := by
  induction events generalizing conn with
  | nil => exact Option.some.inj played ▸ earlier
  | cons event rest ih =>
    unfold play at played
    split at played
    · rename_i checked
      obtain ⟨new, steps, later⟩ := Option.bind_eq_some_iff.mp played
      exact ih (.step earlier (right conn event checked) steps) later
    · cases played

/-- Two threads send a frame each. -/
def twoSends : List Event :=
  [.lock 1 [65], .queue 5, .unlock 1, .lock 2 [66], .queue 3, .queue 2, .unlock 2]

/-- One `recvmsg` returns both frames; the second is dropped with its buffer. -/
theorem coalesced_not_delivered : ∃ conn, Run (fun _ _ => True) conn ∧ conn.received.length = 2 ∧
    ¬ conn.Delivered := by
  refine ⟨_, run_of_played (fun _ _ => true) (fun _ _ _ => trivial)
    (twoSends ++ [.recv 10, .lock 1 [67], .queue 5, .unlock 1, .recv 5]) .start rfl, rfl, ?_⟩
  unfold Delivered
  decide

def wholeCheck (conn : Connection) : Event → Bool
  | .recv count => conn.sent[conn.received.length]?.all fun body => count = (framed body).length
  | _ => true

theorem whole_of_check (conn : Connection) (event : Event) (checked : wholeCheck conn event = true) :
    conn.Whole event := by
  cases event with
  | recv count =>
    intro body next
    simpa [wholeCheck, next] using checked
  | _ => trivial

theorem separate_delivered : ∃ conn, Run Whole conn ∧ conn.received = [.ok [65], .ok [66]] ∧ conn.Delivered := by
  have run : Run Whole _ := run_of_played wholeCheck whole_of_check (twoSends ++ [.recv 5, .recv 5]) .start rfl
  exact ⟨_, run, rfl, delivered_of_run run⟩

end Connection

end ShmActors.Node
