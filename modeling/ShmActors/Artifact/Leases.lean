import ShmActors.Artifact.Replay

/-! The write lease's users: writers, evictors and the coordinator's replays over
one artifact, each call marked where it ends. -/

namespace ShmActors.Artifact

open Lib Core Program

/-- A call of an actor, or a replay of an actor's journal by the coordinator. -/
inductive LeaseCall (Content : Type) where
  | use (call : Call Content)
  | replay (journal : BorrowJournal) (actorId : Nat)

/-- `returned` is no access: it marks where a call ends. -/
inductive LeaseSite where
  | access (site : Site)
  | returned
  deriving DecidableEq, Repr

section

variable {Content : Type} (artifact : Handle)

def attend : LeaseCall Content → Act Content Answer
  | .use call => perform artifact call
  | .replay journal actorId => (fun _ => .done) <$> reclaimDead artifact journal actorId

/-- The memory, as a part of itself. -/
def memoryWhole : Ref (Memory Content) (Memory Content) := ⟨id, fun memory _ => memory⟩

def attendAndReturn (call : LeaseCall Content) : Program (Memory Content) LeaseSite Answer := do
  let answer ← (attend artifact call).within memoryWhole .access
  .act .returned id fun _ => .ret answer

/-- The committer a call works with. -/
def LeaseCall.committer : LeaseCall Content → Option Committer
  | .use (.closeExclusive committer) | .use (.commitExclusive committer _ _) | .use (.evictExclusive committer) =>
    some committer
  | .use (.commitStream writer) | .use (.abortStream writer) => match writer.coord with
    | .exclusive committer => some committer
    | .optimistic _ => none
  | _ => none

/-- Whether a call force-releases the lease, whoever holds it. -/
def LeaseCall.forces : LeaseCall Content → Bool
  | .use .evictAll | .replay _ _ => true
  | _ => false

end

/-- Owners are actor ids, which are not zero. -/
def Call.owned {Content : Type} : Call Content → Prop
  | .openExclusive owner _ | .commitOptimistic owner _ _ _ | .evictOptimistic owner _ | .openStream _ owner _ _ =>
    owner ≠ ownerNone
  | _ => True

instance {Content : Type} : (call : Call Content) → Decidable call.owned
  | .openExclusive owner _ | .commitOptimistic owner _ _ _ | .evictOptimistic owner _ | .openStream _ owner _ _ =>
    inferInstanceAs (Decidable (owner ≠ ownerNone))
  | .closeExclusive _ | .commitExclusive .. | .evictExclusive _ | .append .. | .commitStream _ | .abortStream _
  | .pin _ | .dropPin _ | .evictAll => inferInstanceAs (Decidable True)

section

variable {Content Past : Type} (artifact : Handle)

def LeaseCall.ready (own : Own) : LeaseCall Content → Prop
  | .use call => call.owned ∧ call.holds own
  | .replay _ _ => True

instance (own : Own) : (call : LeaseCall Content) → Decidable (call.ready own)
  | .use call => inferInstanceAs (Decidable (call.owned ∧ call.holds own))
  | .replay _ _ => inferInstanceAs (Decidable True)

def LeaseCall.given (own : Own) : LeaseCall Content → Own
  | .use call => own.give call
  | .replay _ _ => own

/-- Any number of actors that call, and replay journals. -/
abbrev leaseUsers (track : Nat → LeaseCall Content × LeaseSite → Memory Content → Memory Content → Past → Past)
    (allowed : Nat → LeaseCall Content × LeaseSite → Memory Content → Past → Prop) :
    Actors (Memory Content) (LeaseCall Content × LeaseSite) Past (LeaseCall Content) Own Answer where
  program call := (attendAndReturn artifact call).label call
  enabled own call := call.ready own
  start own call := call.given own
  finish own _ answer := own.take answer
  track := track
  allowed := allowed

variable (track : Nat → LeaseCall Content × LeaseSite → Memory Content → Memory Content → Past → Past)
  (allowed : Nat → LeaseCall Content × LeaseSite → Memory Content → Past → Prop)

abbrev LeaseRun (Content Past : Type) :=
  Config (Memory Content) (LeaseCall Content × LeaseSite) Past (LeaseCall Content) Own Answer

/-- Runs that leave no interleaving out. -/
abbrev anyLeasing (_ : Nat) (_ : LeaseCall Content × LeaseSite) (_ : Memory Content) (_ : Past) : Prop := True

/-- A new artifact, and actors that hold nothing. -/
def leaseless (Content : Type) (artifact : Handle) (past : Past) : LeaseRun Content Past where
  state := (opening Content artifact).state
  history := past
  thread _ := .idle .nothing

end

section

variable {Content : Type} {kind : Kind Content}

/-- Kinds of accesses that all code is made of that has nothing to do with the
lease, but for an install. -/
structure Unleased (kind : Kind Content) : Prop
    extends Tending kind, Beside kind

/-- Kinds of accesses that all code is made of but for an install. -/
structure Uninstalling (kind : Kind Content) : Prop
    extends Repairing kind, Beside kind

theorem Uninstalling.unleased (uninstalling : Uninstalling kind) : Unleased kind where
  toTending := uninstalling.toTending
  journal := uninstalling.journal

namespace Unleased

variable (unleased : Unleased kind) {artifact : Handle}

include unleased

theorem every_storeSlot (val : Value)
    (keeps : ∀ mem, ∃ head : ArtifactHead, cell.set val mem = { mem with head := head } ∧
      head.writeLease = mem.head.writeLease)
    (place : decide (site.onHead = true ∧ site ≠ .install ∧ site ≠ .exchangeLease) = true) :
    Every kind (store site cell val) := by
  obtain ⟨onHead, install, lease⟩ := of_decide_eq_true place
  exact ⟨unleased.slots _ _ onHead install lease keeps, fun _ => trivial⟩

theorem every_storeFree (slot : Nat) : Every kind (storeFree slot) := by
  refine every_bind (unleased.every_storeSlot _ (fun _ => ⟨_, rfl, rfl⟩) rfl) fun _ => ?_
  refine every_bind (unleased.every_storeSlot _ (fun _ => ⟨_, rfl, rfl⟩) rfl) fun _ => ?_
  exact unleased.every_storeSlot _ (fun _ => ⟨_, rfl, rfl⟩) rfl

theorem every_undoPin (slot : Nat) : Every kind (undoPin artifact.pool slot) := by
  refine every_bind ⟨unleased.slots _ _ rfl nofun nofun fun _ => ⟨_, rfl, rfl⟩, fun _ => trivial⟩ fun prev => ?_
  split
  · trivial
  refine every_bind (unleased.loadHead _ rfl) fun version => ?_
  split
  · trivial
  · exact unleased.every_retireUnlessCurrent version

theorem every_pinAt (journal : Option BorrowJournal) (version slot : Nat) :
    Every kind (pinAt artifact journal version slot) := by
  have retried : Every kind (retryPin artifact slot) := every_bind (unleased.every_undoPin slot) fun _ => trivial
  have refused (reason : Error) : Every kind (refusePin artifact slot reason) :=
    every_bind (unleased.every_undoPin slot) fun _ => trivial
  have bumped : Every kind (publishPin slot) :=
    every_bind ⟨unleased.slots _ _ rfl nofun nofun fun _ => ⟨_, rfl, rfl⟩, fun _ => trivial⟩ fun _ => trivial
  refine every_bind bumped fun _ => every_bind (unleased.every_acceptPin slot version) fun accepted => ?_
  split
  · exact retried
  refine every_bind (unleased.every_isIncarnation _) fun occupant => ?_
  split
  · exact refused _
  refine every_bind (unleased.loadHead _ rfl) fun endorsed => every_bind (unleased.loadHead _ rfl) fun own => ?_
  split
  · exact retried
  refine every_try (unleased.every_readManifestChecked _ _ _) (fun _ => retried) fun manifest => ?_
  cases journal with
  | none => trivial
  | some journal =>
    refine every_bind (unleased.every_record journal _) fun out => ?_
    cases out with
    | ok entry => trivial
    | error reason => exact refused reason

theorem every_pinInner (journal : Option BorrowJournal) : Every kind (pinInner artifact journal) := by
  refine every_repeatLoop (every_bind (unleased.loadHead _ rfl) fun version => ?_)
  split
  · trivial
  exact every_found (unleased.every_findSlot version) trivial fun slot => unleased.every_pinAt journal version slot

theorem every_dropPin (pin : VersionPin) : Every kind (dropPin artifact pin) := by
  unfold dropPin
  split
  · exact unleased.every_releasePin pin
  refine every_bind (unleased.every_release _ _) fun out => ?_
  split
  · trivial
  · exact unleased.every_releasePin pin

theorem every_unclaim (claim : Option (Nat × Nat)) : Every kind (unclaim claim) := by
  unfold unclaim
  split
  · trivial
  refine every_bind (unleased.loadHead _ rfl) fun st => ?_
  split
  · trivial
  refine every_bind (unleased.loadHead _ rfl) fun version => ?_
  split
  · trivial
  refine every_bind (unleased.every_storeSlot _ (fun _ => ⟨_, rfl, rfl⟩) rfl) fun _ => ?_
  exact unleased.every_storeSlot _ (fun _ => ⟨_, rfl, rfl⟩) rfl

theorem every_rollbackStaged (published : List ChunkDesc) (link : Option ManifestLink) (kept : List ChunkDesc)
    (manifest : Option ChunkDesc) (claim : Option (Nat × Nat)) :
    Every kind (rollbackStaged artifact published link kept manifest claim) :=
  every_bind (unleased.every_unclaim claim) fun _ => unleased.every_releaseAll published link kept manifest

theorem every_claimSlot (version : Nat) (manifest : PackedRef) : Every kind (claimSlot version manifest) := by
  unfold claimSlot
  generalize List.range MAX_LIVE_VERSIONS = slots
  induction slots with
  | nil => trivial
  | cons slot rest ih =>
    refine every_bind (unleased.every_exchangeHead _ _ (fun _ => ⟨_, rfl, rfl⟩) rfl) fun got => ?_
    cases got with
    | some _ => exact ih
    | none =>
      refine every_bind (unleased.every_storeSlot _ (fun _ => ⟨_, rfl, rfl⟩) rfl) fun _ => ?_
      refine every_bind (unleased.every_storeSlot _ (fun _ => ⟨_, rfl, rfl⟩) rfl) fun _ => ?_
      trivial

theorem every_finishInstall (req : Request) (manifest : ChunkDesc) (priorBits : PackedRef)
    (recorded : Option Nat) : Every kind (finishInstall artifact req manifest priorBits recorded) := by
  refine every_bind (unleased.every_storeSlot _ (fun _ => ⟨_, rfl, rfl⟩) rfl) fun _ => ?_
  refine every_bind (unleased.every_exchangeHead _ _ (fun _ => ⟨_, rfl, rfl⟩) rfl) fun _ => ?_
  refine every_bind ?_ fun _ => every_bind (unleased.every_dropRecord req recorded) fun _ => trivial
  unfold retirePrior
  split
  · trivial
  · exact unleased.every_tryRetireVersionAt _ _

end Unleased

namespace Uninstalling

variable (uninstalling : Uninstalling kind)

include uninstalling

theorem every_evictAll : Every kind (evictAll artifact) := by
  have unleased := uninstalling.unleased
  refine every_bind (uninstalling.every_isIncarnation _) fun live => ?_
  split
  · trivial
  refine every_bind uninstalling.every_seizeLease fun token => ?_
  refine every_bind (uninstalling.every_isIncarnation _) fun occupant => ?_
  split
  · exact every_bind (uninstalling.every_releaseWriteLease _ _) fun _ => trivial
  refine every_bind (unleased.every_storeSlot _ (fun _ => ⟨_, rfl, rfl⟩) rfl) fun _ => ?_
  refine every_bind (unleased.every_storeSlot _ (fun _ => ⟨_, rfl, rfl⟩) rfl) fun _ => ?_
  refine every_bind (every_forEach _ fun slot _ => ?_) fun _ =>
    every_bind (uninstalling.every_releaseWriteLease _ _) fun _ => trivial
  refine every_bind (uninstalling.loadHead _ rfl) fun st => ?_
  split
  · trivial
  refine every_bind (uninstalling.loadHead _ rfl) fun version => ?_
  split
  · trivial
  · exact uninstalling.every_tryRetireVersionAt version none

theorem every_reclaimDead (journal : BorrowJournal) (actorId : Nat) :
    Every kind (reclaimDead artifact journal actorId) := by
  refine every_bind (uninstalling.every_replayIndexed journal) fun entries => ?_
  induction entries with
  | nil => trivial
  | cons entry rest ih =>
    refine every_bind (uninstalling.every_release journal entry.1) fun out => ?_
    split
    · exact every_bind (uninstalling.every_reclaimRecord artifact actorId entry.2) fun _ =>
        every_bind ih fun _ => trivial
    · exact ih

end Uninstalling

end

end ShmActors.Artifact
