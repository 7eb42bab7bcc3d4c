import ShmActors.Task.Queue
import Mathlib.Algebra.BigOperators.Group.Finset.Basic

/-! Where a task slot is: on one stack, in one operation's hands, or out with a
worker. A step moves at most one slot, and `Placed.change` is that move. -/

namespace ShmActors.Task

open Lib Core Function

inductive Op where
  | submit (request : ChunkDesc) (deadline : Nat) (input : Option LeaseBinding)
  | claim (workerId : Nat) (deadline : Option Nat)
  | complete (idx seq : Nat) (result : ChunkDesc)
  | fail (idx seq : Nat)
  | cancel (handle : TaskHandle)
  | reap (now : Nat)
  | bindOutput (idx seq : Nat) (binding : LeaseBinding)
  | ack (handle : TaskHandle)
  | reapBindings (now grace : Nat)

inductive Outcome where
  | submitted (outcome : Except QueueError TaskHandle)
  | claimed (task : Option ClaimedTask)
  | settled (outcome : Except QueueError Unit)
  | reaped (report : ReapReport)
  | acked (outcome : Except QueueError Nat)
  | released (bindings : List LeaseBinding)

def program (queue : Queue) : Op → Code Outcome
  | .submit request deadline input => .submitted <$> submitInner queue request deadline input
  | .claim workerId deadline => .claimed <$> claimInner workerId deadline
  | .complete idx seq result => .settled <$> complete idx seq result
  | .fail idx seq => .settled <$> fail idx seq
  | .cancel handle => .settled <$> cancel queue handle
  | .reap now => .reaped <$> reap queue now
  | .bindOutput idx seq binding => .settled <$> bindOutput idx seq binding
  | .ack handle => .acked <$> ack queue handle
  | .reapBindings now grace => .released <$> reapBindings queue now grace

inductive Event where
  | popped (actor slot : Nat)
  | pushed (actor slot : Nat)
  | queued (actor slot : Nat)
  | claimed (actor slot : Nat)
  | elected (actor slot : Nat)
  deriving DecidableEq

def role : Site → Option (Access Shard)
  | .pop shard .load | .push shard _ .load => some (.load shard)
  | .pop shard .exchange | .push shard _ .exchange => some (.exchange shard)
  | _ => none

/-- Log what an exchange won, and every publication; newest first. -/
def record (actor : Nat) (site : Site) (before after : Memory) (log : List Event) : List Event :=
  match site with
  | .pop shard .exchange =>
    if before.lists.head shard = after.lists.head shard then log
    else .popped actor (before.lists.head shard).slot :: log
  | .push shard slot .exchange =>
    if before.lists.head shard = after.lists.head shard then log else .pushed actor slot :: log
  | .publish slot => .queued actor slot :: log
  | .claim slot =>
    if (before.slot slot).state = (after.slot slot).state then log else .claimed actor slot :: log
  | .complete slot | .requeue slot | .fail slot =>
    if (before.slot slot).state = (after.slot slot).state then log else .elected actor slot :: log
  | _ => log

/-- A `ClaimedTask` is of a slot of the queue; nothing else is asked of callers. -/
def system (queue : Queue) : StackActors Shard Memory Site (List Event) Op Unit Outcome where
  view := view
  role := role
  record := record
  program := program queue
  enabled _
    | .complete idx _ _ | .fail idx _ | .bindOutput idx _ _ => idx < queue.capacity
    | _ => True
  start _ _ := ()
  finish _ _ _ := ()

/-- The operations that hold a slot: those that popped it or won its election,
and have neither pushed nor claimed it since. -/
def holders (slot : Nat) : List Event → List Nat
  | [] => []
  | .popped actor entry :: log | .elected actor entry :: log =>
    if entry = slot then actor :: holders slot log else holders slot log
  | .pushed actor entry :: log | .claimed actor entry :: log =>
    if entry = slot then (holders slot log).erase actor else holders slot log
  | .queued _ _ :: log => holders slot log

/-- Whether a slot's last publication has not been claimed. -/
def unclaimed (slot : Nat) : List Event → Bool
  | [] => false
  | .queued _ entry :: log => if entry = slot then true else unclaimed slot log
  | .claimed _ entry :: log => if entry = slot then false else unclaimed slot log
  | _ :: log => unclaimed slot log

/-- Every claim is of a publication that had not been claimed. -/
def ClaimsOnce : List Event → Prop
  | [] => True
  | .claimed _ slot :: log => unclaimed slot log = true ∧ ClaimsOnce log
  | _ :: log => ClaimsOnce log

/-- What a holder may do next with the slot in its hands. -/
inductive Mode where
  | spent
  | reserved
  | live
  | completing
  deriving DecidableEq

inductive Place where
  | stack (shard : Shard)
  | hand (actor : Nat) (mode : Mode)
  | out
  deriving DecidableEq

def Mode.allows : Mode → TaskState → Prop
  | .spent, state => state = .empty ∨ state = .done ∨ state = .failed ∨ state = .cancelled
  | .reserved, state => state = .reserved
  | .live, state => state = .queued ∨ state = .cancelled
  | .completing, state => state = .completing

def Shard.mode : Shard → Mode
  | .free _ => .spent
  | .ready _ => .live

namespace Place

def allows : Place → TaskState → Prop
  | .stack shard, state => shard.mode.allows state
  | .hand _ mode, state => mode.allows state
  | .out, state => state = .claimed

def holders : Place → List Nat
  | .hand actor _ => [actor]
  | _ => []

/-- How the slot in this place appears among what `actor` holds. -/
def modeFor (actor : Nat) : Place → Option Mode
  | .hand holder mode => if holder = actor then some mode else none
  | _ => none

/-- The places of a slot that counts when it is cancelled. -/
def rides : Place → Bool
  | .stack (.ready _) | .hand _ .live => true
  | _ => false

def weight (place : Place) (state : TaskState) : Nat :=
  if place.rides ∧ state = .cancelled then 1 else 0

end Place

/-- What an actor holds: slots, and whether it owes the count one decrement (or
has made one increment ahead of its exchange). -/
structure Held where
  slots : Nat → Option Mode
  owes : Bool

namespace Held

def nothing : Held := ⟨fun _ => none, false⟩

def set (held : Held) (slot : Nat) (mode : Option Mode) : Held :=
  { held with slots := update held.slots slot mode }

def owing (held : Held) (owes : Bool) : Held := { held with owes := owes }

@[simp] theorem set_slots (held : Held) (slot : Nat) (mode : Option Mode) :
    (held.set slot mode).slots = update held.slots slot mode := rfl

@[simp] theorem set_owes (held : Held) (slot : Nat) (mode : Option Mode) :
    (held.set slot mode).owes = held.owes := rfl

@[simp] theorem owing_slots (held : Held) (owes : Bool) : (held.owing owes).slots = held.slots :=
  rfl

@[simp] theorem owing_owes (held : Held) (owes : Bool) : (held.owing owes).owes = owes := rfl

end Held

/-- Riding cancelled slots, and decrements still owed. -/
def total (capacity : Nat) (place : Nat → Place) (memory : Memory) (owing : Finset Nat) : Nat :=
  ∑ slot ∈ Finset.range capacity, (place slot).weight (memory.slot slot).state + owing.card

structure Placed (capacity : Nat) (log : List Event) (memory : Memory)
    (contents : Shard → List Nat) (held : Nat → Held) (place : Nat → Place)
    (owing : Finset Nat) : Prop where
  listed : ∀ shard slot, slot ∈ contents shard ↔ slot < capacity ∧ place slot = .stack shard
  hand : ∀ actor slot mode, (held actor).slots slot = some mode ↔
    slot < capacity ∧ place slot = .hand actor mode
  allowed : ∀ slot < capacity, (place slot).allows (memory.slot slot).state
  holders : ∀ slot < capacity, holders slot log = (place slot).holders
  unclaimed : ∀ slot < capacity, (memory.slot slot).state = .queued → unclaimed slot log = true
  once : ClaimsOnce log
  owes : ∀ actor, actor ∈ owing ↔ (held actor).owes = true
  count : memory.cancelled = total capacity place memory owing % 2 ^ 32

section

variable {owing : Finset Nat} {actor slot : Nat}

theorem Place.eq_hand_iff (target : Place) (own : ∀ holder mode, target = .hand holder mode →
    holder = actor) (other : Nat) (mode : Mode) :
    target = .hand other mode ↔ other = actor ∧ target.modeFor actor = some mode := by
  cases target with
  | stack shard => simp [Place.modeFor]
  | out => simp [Place.modeFor]
  | hand holder kept =>
    have same := own holder kept rfl
    subst same
    simp only [Place.modeFor, Place.hand.injEq, if_true, Option.some.injEq]
    constructor
    · rintro ⟨one, two⟩
      exact ⟨one.symm, two⟩
    · rintro ⟨one, two⟩
      exact ⟨one.symm, two⟩

/-- The debts after one actor's has changed. -/
def owingAfter (owing : Finset Nat) (actor : Nat) (owes : Bool) : Finset Nat :=
  if owes then insert actor owing else owing.erase actor

theorem mem_owingAfter (owing : Finset Nat) (actor other : Nat) (owes : Bool) :
    other ∈ owingAfter owing actor owes ↔ if other = actor then owes = true else other ∈ owing := by
  cases owes with
  | true => by_cases same : other = actor <;> simp [owingAfter, same]
  | false => by_cases same : other = actor <;> simp [owingAfter, same]

theorem card_owingAfter (known : actor ∈ owing ↔ old = true) (owes : Bool) :
    (owingAfter owing actor owes).card + old.toNat = owing.card + owes.toNat := by
  cases old with
  | true =>
    have in_ : actor ∈ owing := known.mpr rfl
    have positive := Finset.card_pos.mpr ⟨actor, in_⟩
    cases owes with
    | true => simp [owingAfter, Finset.insert_eq_of_mem in_]
    | false =>
      simp only [owingAfter, Bool.false_eq_true, if_false, Finset.card_erase_of_mem in_]
      simp only [Bool.toNat_true, Bool.toNat_false]
      omega
  | false =>
    have absent : actor ∉ owing := fun in_ => Bool.false_ne_true (known.mp in_)
    cases owes with
    | true => simp [owingAfter, Finset.card_insert_of_notMem absent]
    | false => simp [owingAfter, Finset.erase_eq_of_notMem absent]

/-- One slot's share of the total is replaced by another. -/
theorem total_change (place : Nat → Place) (target : Place) (owing : Finset Nat) (known : slot < capacity)
    (others : ∀ entry, entry ≠ slot → (mem'.slot entry).state = (mem.slot entry).state) (debts : Finset Nat) :
    total capacity (update place slot target) mem' debts +
        (place slot).weight (mem.slot slot).state + owing.card =
      total capacity place mem owing + target.weight (mem'.slot slot).state + debts.card := by
  have in_ : slot ∈ Finset.range capacity := Finset.mem_range.mpr known
  have rest : ∑ entry ∈ (Finset.range capacity).erase slot,
      (update place slot target entry).weight (mem'.slot entry).state =
      ∑ entry ∈ (Finset.range capacity).erase slot,
        (place entry).weight (mem.slot entry).state := by
    apply Finset.sum_congr rfl
    intro entry inside
    have ne := Finset.ne_of_mem_erase inside
    rw [update_of_ne ne, others entry ne]
  unfold total
  rw [← Finset.add_sum_erase _ _ in_, ← Finset.add_sum_erase _ _ in_, rest,
    update_self]
  omega

variable (old : Placed capacity log mem lists held place owing)

include old

/-- The one move of a step: a slot goes to another place or changes its state
there, and the acting operation's debt makes up for what the count does not see. -/
theorem Placed.change (known : slot < capacity) (same : held actor = mine) (target : Place) (owes : Bool)
    (ownBefore : ∀ holder mode, place slot = .hand holder mode → holder = actor)
    (ownAfter : ∀ holder mode, target = .hand holder mode → holder = actor)
    (listed : ∀ shard entry, entry ∈ lists' shard ↔
      if entry = slot then target = .stack shard else entry ∈ lists shard)
    (others : ∀ entry, entry ≠ slot → (mem'.slot entry).state = (mem.slot entry).state)
    (may : target.allows (mem'.slot slot).state)
    (holders : ∀ entry, Task.holders entry log' =
      if entry = slot then target.holders else Task.holders entry log)
    (unclaimed : ∀ entry < capacity, (mem'.slot entry).state = .queued →
      Task.unclaimed entry log' = true)
    (once : ClaimsOnce log') (cancelled : mem'.cancelled = mem.cancelled)
    (balance : (place slot).weight (mem.slot slot).state + mine.owes.toNat =
      target.weight (mem'.slot slot).state + owes.toNat) :
    Placed capacity log' mem' lists'
      (update held actor ((mine.set slot (target.modeFor actor)).owing owes))
      (update place slot target) (owingAfter owing actor owes) where
  listed shard entry := by
    by_cases eq : entry = slot
    · simp [listed, eq, known]
    · simp [listed, eq, old.listed]
  hand other entry mode := by
    by_cases eq : entry = slot
    · subst entry
      rw [update_self, target.eq_hand_iff ownAfter]
      by_cases own : other = actor
      · simp [own, known]
      · have away : (held other).slots slot ≠ some mode := fun taken =>
          own (ownBefore other mode ((old.hand other slot mode).mp taken).2)
        simp [own, away]
    · rw [update_of_ne eq, ← old.hand]
      by_cases own : other = actor
      · simp [own, eq, same]
      · simp [own]
  allowed entry inRange := by
    by_cases eq : entry = slot
    · simpa [eq] using may
    · simpa [eq, others entry eq] using old.allowed entry inRange
  holders entry inRange := by
    by_cases eq : entry = slot
    · simp [holders, eq]
    · simp [holders, eq, old.holders entry inRange]
  unclaimed := unclaimed
  once := once
  owes other := by
    rw [mem_owingAfter]
    by_cases own : other = actor
    · simp [own]
    · simp [own, old.owes]
  count := by
    have debts := card_owingAfter (old.owes actor) owes
    rw [same] at debts
    have sums := total_change place target owing known others (owingAfter owing actor owes)
    have unchanged : total capacity (update place slot target) mem'
        (owingAfter owing actor owes) = total capacity place mem owing := by
      omega
    rw [cancelled, old.count, unchanged]

/-- A step that leaves every slot where it is and changes the acting
operation's debt. -/
theorem Placed.recount (same : held actor = mine) (owes : Bool)
    (may : ∀ entry < capacity, (place entry).allows (mem'.slot entry).state)
    (queued : ∀ entry, (mem'.slot entry).state = .queued → (mem.slot entry).state = .queued)
    (cancelled : mem'.cancelled =
      total capacity place mem' (owingAfter owing actor owes) % 2 ^ 32) :
    Placed capacity log mem' lists (update held actor (mine.owing owes)) place
      (owingAfter owing actor owes) where
  listed := old.listed
  hand other entry mode := by
    rw [← old.hand]
    by_cases own : other = actor
    · simp [own, same]
    · simp [own]
  allowed := may
  holders := old.holders
  unclaimed entry inRange now := old.unclaimed entry inRange (queued entry now)
  once := old.once
  owes other := by
    rw [mem_owingAfter]
    by_cases own : other = actor
    · simp [own]
    · simp [own, old.owes]
  count := cancelled

/-- A step that touches none of what membership speaks of. -/
theorem Placed.congr (states : ∀ entry, (mem'.slot entry).state = (mem.slot entry).state)
    (cancelled : mem'.cancelled = mem.cancelled) : Placed capacity log mem' lists held place owing where
  listed := old.listed
  hand := old.hand
  allowed := by simpa only [states] using old.allowed
  holders := old.holders
  unclaimed := by simpa only [states] using old.unclaimed
  once := old.once
  owes := old.owes
  count := by
    rw [cancelled, old.count]
    simp only [total, states]

omit old

/-- A slot is in one actor's hands at most. -/
theorem Placed.hands_exclusive (placed : Placed capacity log mem lists held place owing)
    (inFirst : (held one).slots slot ≠ none) (inSecond : (held two).slots slot ≠ none) : one = two := by
  obtain ⟨mode, taken⟩ := Option.ne_none_iff_exists'.mp inFirst
  obtain ⟨other, takenToo⟩ := Option.ne_none_iff_exists'.mp inSecond
  have here := ((placed.hand one slot mode).mp taken).2
  rw [((placed.hand two slot other).mp takenToo).2] at here
  exact (Place.hand.inj here).1.symm

/-- A slot in an actor's hands is on no stack. -/
theorem Placed.hands_outside (placed : Placed capacity log mem lists held place owing)
    (fits : capacity < 2 ^ 32) (taken : (held actor).slots slot ≠ none) :
    slot ≠ listEnd ∧ ∀ shard, slot ∉ lists shard := by
  obtain ⟨mode, taken⟩ := Option.ne_none_iff_exists'.mp taken
  obtain ⟨inRange, here⟩ := (placed.hand actor slot mode).mp taken
  constructor
  · intro atEnd
    simp only [atEnd, listEnd] at inRange
    omega
  · intro shard listed
    have there := ((placed.listed shard slot).mp listed).2
    rw [here] at there
    cases there

end

def ownership (queue : Queue) : (system queue).Ownership Held where
  own log memory contents held :=
    ∃ place owing, Placed queue.capacity log memory contents held place owing
  nodes held slot := held.slots slot ≠ none
  exclusive := by
    rintro _ _ _ _ ⟨place, owing, placed⟩ first second slot inFirst inSecond
    exact placed.hands_exclusive inFirst inSecond
  outside := by
    rintro _ _ _ _ ⟨place, owing, placed⟩ actor slot taken
    exact placed.hands_outside queue.fits taken
  stable := by
    rintro _ _ _ _ memory ⟨place, owing, placed⟩
    exact ⟨place, owing, placed.congr (fun _ => rfl) rfl⟩

/-- The specification of code of the queue, by what its actor holds. -/
abbrev Does (queue : Queue) (actor : Nat) {Value : Type} (code : Code Value) (post : Value → Held → Prop)
    (held : Held) : Prop :=
  StackActors.Does (ownership queue) actor code post held

end ShmActors.Task
