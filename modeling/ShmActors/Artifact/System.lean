import ShmActors.Artifact.Store
import ShmActors.Lib.Protocol

/-! Any number of writers and readers of one artifact, interleaved step by step,
and the log of what happens to its head. -/

namespace ShmActors.Artifact

open Lib Core Program

inductive Call (Content : Type) where
  | openExclusive (owner : Nat) (journal : Option BorrowJournal)
  | closeExclusive (committer : Committer)
  | commitOptimistic (owner expect : Nat) (kind : Commit) (batch : RecordBatch Content)
  | commitExclusive (committer : Committer) (kind : Commit) (batch : RecordBatch Content)
  | evictOptimistic (owner expect : Nat)
  | evictExclusive (committer : Committer)
  | openStream (journal : BorrowJournal) (owner : Nat) (kind : Commit) (coordination : Coordination)
  | append (writer : StreamWriter) (batch : RecordBatch Content)
  | commitStream (writer : StreamWriter)
  | abortStream (writer : StreamWriter)
  | pin (journal : Option BorrowJournal)
  | dropPin (pin : VersionPin)
  | evictAll

inductive Answer where
  | opened (outcome : Except Error Committer)
  | committed (outcome : Except Error Nat)
  | streaming (outcome : Except StreamError StreamWriter)
  | appended (writer : StreamWriter) (fault : Option StreamError)
  | pinned (outcome : Except Error VersionPin)
  | evicted (outcome : Except Error Unit)
  | done

/-- What a caller holds between calls. -/
structure Own where
  committers : List Committer
  writers : List StreamWriter
  pins : List VersionPin

def Own.nothing : Own := ⟨[], [], []⟩

section

variable {Content : Type} (artifact : Handle)

def perform : Call Content → Act Content Answer
  | .openExclusive owner journal => .opened <$> openExclusive artifact owner journal
  | .closeExclusive committer => (fun _ => .done) <$> committer.drop
  | .commitOptimistic owner expect kind batch =>
    .committed <$> commitInnerJ artifact expect owner kind batch none none
  | .commitExclusive committer kind batch => .committed <$> committer.commit artifact kind batch
  | .evictOptimistic owner expect => .committed <$> evictCurrentOptimistic artifact owner expect
  | .evictExclusive committer => .committed <$> committer.evictCurrent artifact
  | .openStream journal owner kind coordination =>
    .streaming <$> StreamWriter.openWith artifact journal owner kind coordination
  | .append writer batch =>
    (fun outcome => .appended outcome.1 outcome.2) <$> writer.appendBatch artifact batch
  | .commitStream writer => .committed <$> writer.commit artifact
  | .abortStream writer => (fun _ => .done) <$> writer.abort artifact
  | .pin journal => .pinned <$> pinInner artifact journal
  | .dropPin pin => (fun _ => .done) <$> dropPin artifact pin
  | .evictAll => .evicted <$> evictAll artifact

/-- Whether a call runs `commit_staged_inner_j`. -/
def Call.commits : Call Content → Bool
  | .commitOptimistic .. | .commitExclusive .. | .evictOptimistic .. | .evictExclusive ..
  | .commitStream .. => true
  | _ => false

/-- A call on what the caller holds. -/
def Call.holds (own : Own) : Call Content → Prop
  | .closeExclusive committer | .commitExclusive committer _ _ | .evictExclusive committer =>
    committer ∈ own.committers
  | .append writer _ | .commitStream writer | .abortStream writer => writer ∈ own.writers
  | .dropPin held => held ∈ own.pins
  | _ => True

instance (own : Own) : (call : Call Content) → Decidable (call.holds own)
  | .closeExclusive committer | .commitExclusive committer _ _ | .evictExclusive committer =>
    inferInstanceAs (Decidable (committer ∈ own.committers))
  | .append writer _ | .commitStream writer | .abortStream writer =>
    inferInstanceAs (Decidable (writer ∈ own.writers))
  | .dropPin held => inferInstanceAs (Decidable (held ∈ own.pins))
  | .openExclusive .. | .commitOptimistic .. | .evictOptimistic .. | .openStream .. | .pin _
  | .evictAll => inferInstanceAs (Decidable True)

/-- What a call takes from the caller's hands. -/
def Own.give (own : Own) : Call Content → Own
  | .closeExclusive committer => { own with committers := own.committers.erase committer }
  | .append writer _ | .commitStream writer | .abortStream writer =>
    { own with writers := own.writers.erase writer }
  | .dropPin pin => { own with pins := own.pins.erase pin }
  | _ => own

/-- What its answer puts there. -/
def Own.take (own : Own) : Answer → Own
  | .opened (.ok committer) => { own with committers := committer :: own.committers }
  | .streaming (.ok writer) | .appended writer _ => { own with writers := writer :: own.writers }
  | .pinned (.ok pin) => { own with pins := pin :: own.pins }
  | _ => own

end

/-- What happens to the head. -/
inductive Event where
  | claimed (actor slot : Nat)
  | named (actor slot : Nat) (manifest : PackedRef)
  | numbered (actor slot version : Nat)
  | installed (actor version : Nat)
  | endorsed (actor : Nat) (manifest : PackedRef)
  | cleared (actor : Nat)
  | elected (actor slot : Nat)
  | reverted (actor slot : Nat)
  | wiped (actor slot : Nat)
  | freed (actor slot : Nat)
  deriving DecidableEq

section

variable {Content : Type}

/-- Log what an exchange won and what a store wrote; newest first. -/
def record (actor : Nat) (site : Site) (before after : Memory Content) (log : List Event) : List Event :=
  match site with
  | .claim slot =>
    if (before.head.pins slot).state = (after.head.pins slot).state then log else .claimed actor slot :: log
  | .claimManifest slot => .named actor slot (after.head.pins slot).manifest :: log
  | .claimVersion slot => .numbered actor slot (after.head.pins slot).version :: log
  | .install =>
    if before.head.current = after.head.current then log else .installed actor after.head.current :: log
  | .publishManifestDesc => .endorsed actor after.head.manifestDesc :: log
  | .clearCurrent => .cleared actor :: log
  | .elect slot =>
    if (before.head.pins slot).state = (after.head.pins slot).state then log else .elected actor slot :: log
  | .revert slot => .reverted actor slot :: log
  | .clearVersion slot | .clearManifest slot => .wiped actor slot :: log
  | .clearState slot => .freed actor slot :: log
  | _ => log

/-- The slot an actor claimed last. -/
def slotOf (actor : Nat) : List Event → Option Nat
  | [] => none
  | .claimed other slot :: log => if other = actor then some slot else slotOf actor log
  | _ :: log => slotOf actor log

/-- The manifest an actor put into a slot last: that of its commit in progress. -/
def manifestOf (actor : Nat) : List Event → Option PackedRef
  | [] => none
  | .named other _ manifest :: log => if other = actor then some manifest else manifestOf actor log
  | _ :: log => manifestOf actor log

/-- The version an actor put into a slot last: the one its commit is to install. -/
def targetOf (actor : Nat) : List Event → Option Nat
  | [] => none
  | .numbered other _ version :: log => if other = actor then some version else targetOf actor log
  | _ :: log => targetOf actor log

/-- A version as installed: where, and with which manifest. -/
structure Installed where
  actor : Nat
  version : Nat
  slot : Option Nat
  manifest : Option PackedRef
  deriving DecidableEq

/-- The installs, newest first. -/
def installs : List Event → List Installed
  | [] => []
  | .installed actor version :: log =>
    ⟨actor, version, slotOf actor log, manifestOf actor log⟩ :: installs log
  | _ :: log => installs log

end

/-- The callers of one artifact. `permitted` says which calls the runs are made
of, and `allowed` which accesses. -/
abbrev callers {Content : Type} (artifact : Handle) (permitted : Call Content → Prop)
    (allowed : Nat → Site → Memory Content → List Event → Prop) :
    Actors (Memory Content) (Call Content × Site) (List Event) (Call Content) Own Answer where
  program call := (perform artifact call).label call
  enabled own call := permitted call ∧ call.holds own
  start own call := own.give call
  finish own _ answer := own.take answer
  track actor site := record actor site.2
  allowed actor site := allowed actor site.2

/-- Runs that leave no interleaving out. -/
abbrev anyAccess {Content : Type} (_ : Nat) (_ : Site) (_ : Memory Content) (_ : List Event) : Prop := True

section

variable {Content : Type} (artifact : Handle) (permitted : Call Content → Prop)
  (allowed : Nat → Site → Memory Content → List Event → Prop)

end

abbrev Run (Content : Type) :=
  Config (Memory Content) (Call Content × Site) (List Event) (Call Content) Own Answer

/-- A new artifact over a new pool, and callers that hold nothing. -/
def opening (Content : Type) (artifact : Handle) : Run Content where
  state :=
    { head := .fresh artifact.incarnation
      heap := artifact.pool.create Content
      journals := fun _ => ⟨fun _ => 0, fun _ => none, 0⟩ }
  history := []
  thread _ := .idle .nothing

/-- An artifact over one size class of eight chunks. -/
def small : Handle := ⟨7, 1, ⟨0, [⟨4096, 8⟩], by decide⟩⟩

/-- A batch of one chunk. -/
def row (content : Nat) : RecordBatch Nat := ⟨1, [⟨content, 16⟩], List.cons_ne_nil _ _⟩

end ShmActors.Artifact
