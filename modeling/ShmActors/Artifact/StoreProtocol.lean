import ShmActors.Artifact.HeadProtocol
import ShmActors.Artifact.StoreSystem

/-! The store's own part of an eviction and of a sweep: what it asks of a
protocol on the slot, and that a protocol with these moves is followed. -/

namespace ShmActors.Artifact

open Lib Core Program

variable {Content : Type}

/-- The accesses to the catalog word and the free list, and the quiescence scan. -/
def StoreSite.onEntry : StoreSite → Bool
  | .scan | .loadWord | .exchangeWord | .storeWord | .popFree | .pushFree => true
  | _ => false

section

variable {kind : StoreSite → (Shelf Content → Shelf Content) → Prop}

/-- A property of accesses that those leaving the artifact alone have. -/
def OnEntry (kind : StoreSite → (Shelf Content → Shelf Content) → Prop) : Prop :=
  ∀ site update, site.onEntry = true → (∀ shelf, (update shelf).memory = shelf.memory) → kind site update

variable (entry : OnEntry kind)

include entry

theorem OnEntry.every_exchange (expected new : EntryWord) :
    Every kind (compareExchange .exchangeWord entryWord expected new : StoreAct Content (Option EntryWord)) := by
  refine ⟨entry _ _ rfl fun shelf => ?_, fun _ => trivial⟩
  show (if entryWord.get shelf = expected then _ else _ : Shelf Content).memory = _
  split <;> rfl

theorem OnEntry.every_casState (source goal : EntryState) :
    Every kind (casState source goal : StoreAct Content Bool) := by
  refine every_bind ⟨entry _ _ rfl fun _ => rfl, fun _ => trivial⟩ fun cur => every_repeatFrom (fun cur => ?_) cur
  split
  · trivial
  · exact every_bind (entry.every_exchange _ _) fun out => by cases out <;> trivial

theorem OnEntry.every_tombstoneGen (gen : Nat) : Every kind (tombstoneGen gen : StoreAct Content Bool) := by
  exact every_bind (entry.every_exchange _ _) fun out => by cases out <;> trivial

theorem OnEntry.every_abortReclaim : Every kind (abortReclaim : StoreAct Content Unit) :=
  ⟨entry _ _ rfl fun _ => rfl, fun _ => ⟨entry _ _ rfl fun _ => rfl, fun _ => trivial⟩⟩

theorem OnEntry.every_finishReclaim : Every kind (finishReclaim : StoreAct Content Bool) := by
  refine ⟨entry _ _ rfl fun _ => rfl, fun shelf => ?_⟩
  show Every kind (ite (2 ^ 32 ≤ (entryWord.get shelf).gen + 1) _ _)
  split
  · trivial
  · exact ⟨entry _ _ rfl fun _ => rfl, fun _ => trivial⟩

theorem OnEntry.every_slotsQuiet (slots : List Nat) : Every kind (slotsQuiet slots : StoreAct Content Bool) := by
  induction slots with
  | nil => trivial
  | cons slot rest ih =>
    refine ⟨entry _ _ rfl fun _ => rfl, fun shelf => ?_⟩
    show Every kind (ite (((headOf.get shelf).pins slot).state ≠ .free) _ _)
    split
    · trivial
    refine ⟨entry _ _ rfl fun _ => rfl, fun shelf => ?_⟩
    show Every kind (ite (((headOf.get shelf).pins slot).pins ≠ 0) _ _)
    split
    · trivial
    · exact ih

theorem OnEntry.every_isQuiescent : Every kind (isQuiescent : StoreAct Content Bool) := by
  refine ⟨entry _ _ rfl fun _ => rfl, fun shelf => ?_⟩
  show Every kind (ite ((headOf.get shelf).current ≠ noVersion) _ _)
  split
  · trivial
  refine ⟨entry _ _ rfl fun _ => rfl, fun shelf => ?_⟩
  show Every kind (ite ((leaseOf.get shelf).owner ≠ ownerNone) _ _)
  split
  · trivial
  · exact entry.every_slotsQuiet _

end

section

variable {Phase : Type} {whole : Protocol (Shelf Content) StoreSite Phase} {nameId : Nat} {pool : Pool}
  {rest : Phase → Prop} {ready : Nat → Phase → Prop} {phase : Phase}

/-- What an eviction and a sweep ask of a protocol: phases to rest in, and phases
ready for a teardown through a handle just attached. -/
structure Sweeping (nameId : Nat) (pool : Pool) (whole : Protocol (Shelf Content) StoreSite Phase)
    (rest : Phase → Prop) (ready : Nat → Phase → Prop) : Prop where
  rests : ∀ incarnation phase, ready incarnation phase → rest phase
  entry : ∀ phase, rest phase →
    OnEntry fun site update => ∀ shelf : Shelf Content, whole site phase phase shelf (update shelf)
  attach : ∀ phase shelf, rest phase →
    ∃ later, whole .attach phase later shelf shelf ∧ ready (incarnationOf.get shelf) later
  tears : ∀ incarnation phase, ready incarnation phase →
    (through (evictAll ⟨nameId, incarnation, pool⟩)).Follows whole (fun _ => rest) phase
  retire : ∀ phase shelf, rest phase →
    ∃ later, whole .retireHead phase later shelf (incarnationOf.set noIncarnation shelf) ∧ rest later
  commission : ∀ incarnation phase shelf, rest phase →
    whole (.commission incarnation) phase phase shelf (incarnationOf.set incarnation shelf)

namespace Sweeping

variable (sweeping : Sweeping nameId pool whole rest ready)

include sweeping

/-- Code that leaves the artifact alone. -/
theorem follows_onEntry (resting : rest phase)
    (every : ∀ {kind : StoreSite → (Shelf Content → Shelf Content) → Prop}, OnEntry kind → Every kind code) :
    code.Follows whole (fun _ => rest) phase := by
  refine follows_mono (follows_of_every (every (sweeping.entry phase resting))) ?_
  rintro _ _ rfl
  exact resting

theorem follows_attachAt (resting : rest phase) :
    (attachAt nameId pool).Follows whole (fun got later => rest later ∧ ∀ artifact, got = some artifact →
      artifact = ⟨nameId, artifact.incarnation, pool⟩ ∧ ready artifact.incarnation later) phase := by
  refine follows_bind (follows_load fun shelf => ?_)
  obtain ⟨later, move, prepared⟩ := sweeping.attach phase shelf resting
  refine ⟨later, move, ?_⟩
  have rested := sweeping.rests _ _ prepared
  show Follows _ (ite (incarnationOf.get shelf = noIncarnation) _ _) _ _
  split
  · exact ⟨rested, fun _ got => nomatch got⟩
  · refine ⟨rested, fun artifact got => ?_⟩
    cases got
    exact ⟨rfl, prepared⟩

theorem follows_entryIsFinished (resting : rest phase) :
    (entryIsFinished nameId pool).Follows whole (fun _ => rest) phase := by
  refine follows_then (sweeping.follows_attachAt resting) ?_
  rintro got later ⟨rested, attached⟩
  cases got with
  | none => exact rested
  | some artifact =>
    obtain ⟨own, prepared⟩ := attached artifact rfl
    rw [own]
    refine follows_then (sweeping.tears _ _ prepared) ?_
    intro out torn rested
    cases out with
    | error reason => exact rested
    | ok _ =>
      refine follows_bind (follows_fetchUpdate fun shelf => ?_)
      obtain ⟨retired, move, rested⟩ := sweeping.retire torn shelf rested
      refine ⟨retired, move, ?_⟩
      refine follows_bind (follows_mono
        (sweeping.follows_onEntry rested fun entry => entry.every_isQuiescent) ?_)
      intro quiet scanned rested
      cases quiet with
      | true => exact rested
      | false =>
        exact follows_bind (follows_store fun shelf => ⟨scanned, sweeping.commission _ scanned shelf rested, rested⟩)

theorem follows_tryReclaimEntry (resting : rest phase) :
    (tryReclaimEntry nameId pool).Follows whole (fun _ => rest) phase := by
  refine follows_bind (follows_mono
    (sweeping.follows_onEntry resting fun entry => entry.every_casState _ _) ?_)
  intro begun later rested
  cases begun with
  | false => exact rested
  | true =>
    refine follows_then (sweeping.follows_entryIsFinished rested) ?_
    intro finished later rested
    cases finished with
    | false =>
      exact follows_bind (sweeping.follows_onEntry rested fun entry => entry.every_abortReclaim)
    | true =>
      refine follows_bind (follows_mono
        (sweeping.follows_onEntry rested fun entry => entry.every_finishReclaim) ?_)
      intro freed last rested
      cases freed with
      | false => exact rested
      | true =>
        exact follows_bind (sweeping.follows_onEntry rested fun entry =>
          ⟨entry _ _ rfl fun _ => rfl, fun _ => trivial⟩)

theorem follows_sweepTombstone (resting : rest phase) :
    (sweepTombstone nameId pool).Follows whole (fun _ => rest) phase := by
  refine follows_then (sweeping.follows_onEntry resting fun entry =>
    ⟨entry _ _ rfl fun _ => rfl, fun _ => trivial⟩) ?_
  intro word later rested
  split
  · exact sweeping.follows_tryReclaimEntry rested
  · exact rested

theorem follows_attachAtIncarnation (expected : Nat) (resting : rest phase) :
    (attachAtIncarnation nameId pool expected).Follows whole
      (fun got later => rest later ∧ ∀ artifact, got = some artifact →
        artifact = ⟨nameId, artifact.incarnation, pool⟩ ∧ ready artifact.incarnation later) phase := by
  refine follows_then (sweeping.follows_attachAt resting) ?_
  rintro got later ⟨rested, attached⟩
  cases got with
  | none => exact ⟨rested, fun _ got => nomatch got⟩
  | some artifact =>
    dsimp only
    split
    · exact ⟨rested, fun _ got => nomatch got⟩
    · exact ⟨rested, attached⟩

theorem follows_evictKey (resting : rest phase) : (evictKey nameId pool).Follows whole (fun _ => rest) phase := by
  have word {phase : Phase} (resting : rest phase) :
      (load .loadWord entryWord : StoreAct Content EntryWord).Follows whole (fun _ => rest) phase :=
    sweeping.follows_onEntry resting fun entry => ⟨entry _ _ rfl fun _ => rfl, fun _ => trivial⟩
  refine follows_then (word resting) ?_
  intro one later rested
  split
  · exact rested
  refine follows_then (word rested) ?_
  intro got later rested
  refine follows_bind (follows_mono
    (sweeping.follows_onEntry rested fun entry => entry.every_tombstoneGen _) ?_)
  intro won later rested
  cases won with
  | false => exact rested
  | true =>
    refine follows_then (sweeping.follows_attachAtIncarnation got.gen rested) ?_
    rintro attached later ⟨rested, prepared⟩
    cases attached with
    | none => exact follows_bind (sweeping.follows_tryReclaimEntry rested)
    | some artifact =>
      obtain ⟨own, prepared⟩ := prepared artifact rfl
      rw [own]
      refine follows_then (sweeping.tears _ _ prepared) fun _ _ rested => ?_
      exact follows_bind (sweeping.follows_tryReclaimEntry rested)

end Sweeping

end

end ShmActors.Artifact
