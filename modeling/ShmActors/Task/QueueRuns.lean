import ShmActors.Task.Operations
import Mathlib.Algebra.BigOperators.Group.Finset.Piecewise

/-! Task slots under every interleaving of the queue's operations. -/

namespace ShmActors.Task

open Lib Core StackActors

abbrev QueueConfig := Config Memory Site (Tags Shard × List Event) Op Unit Outcome

def initial (queue : Queue) : QueueConfig where
  state := init queue
  history := (⟨fun _ => 0, fun _ _ => 0⟩, [])
  thread _ := .idle ()

instance (queue : Queue) (own : Unit) :
    (op : Op) → Decidable ((system queue).actors.enabled own op)
  | .complete idx _ _ | .fail idx _ | .bindOutput idx _ _ =>
    inferInstanceAs (Decidable (idx < queue.capacity))
  | .submit _ _ _ | .claim _ _ | .cancel _ | .reap _ | .ack _ | .reapBindings _ _ =>
    inferInstanceAs (Decidable True)

/-- What the stacks hold in a configuration, and where every other slot is. -/
structure SingleMembership (queue : Queue) (config : QueueConfig)
    (contents : Shard → List Nat) : Prop where
  linked : ∀ shard,
    Linked config.state.lists.next (config.state.lists.head shard).slot (contents shard)
  nodup : ∀ shard, (contents shard).Nodup
  disjoint : ∀ first second, first ≠ second → List.Disjoint (contents first) (contents second)
  held : ∀ slot < queue.capacity, (∀ shard, slot ∉ contents shard) →
    (∃ actor own op rest, holders slot config.history.2 = [actor] ∧
      config.thread actor = .running own op rest) ∨
    (config.state.slot slot).state = .reserved ∨ (config.state.slot slot).state = .claimed ∨
    (config.state.slot slot).state = .completing
  ready : ∀ shard, ∀ slot ∈ contents (.ready shard), slot < queue.capacity ∧
    ((config.state.slot slot).state = .queued ∨ (config.state.slot slot).state = .cancelled)
  free : ∀ shard, ∀ slot ∈ contents (.free shard), slot < queue.capacity ∧
    ((config.state.slot slot).state = .empty ∨ (config.state.slot slot).state = .done ∨
      (config.state.slot slot).state = .failed ∨ (config.state.slot slot).state = .cancelled)
  once : ∀ newer between older first second slot,
    config.history.2 = newer ++ .claimed second slot :: (between ++ .claimed first slot :: older) →
    ∃ publisher, Event.queued publisher slot ∈ between
  counted : (∀ actor, ∃ own, config.thread actor = .idle own) →
    config.state.cancelled = ((Finset.range queue.capacity).filter fun slot =>
      (∃ shard, slot ∈ contents (.ready shard)) ∧
        (config.state.slot slot).state = .cancelled).card

theorem Queue.capacity_pos (queue : Queue) : 0 < queue.capacity := by
  obtain ⟨exponent, eq⟩ := queue.power
  rw [eq]
  exact Nat.pow_pos (by decide)

section

variable (queue : Queue)

/-- Every slot starts on FREE shard 0. -/
def initialContents (shard : Shard) : List Nat :=
  if shard = .first then List.range queue.capacity else []

theorem init_linked (shard : Shard) :
    Linked (init queue).lists.next ((init queue).lists.head shard).slot (initialContents queue shard) := by
  have fits := queue.fits
  by_cases one : shard = .first
  · have chain := linked_range (show queue.capacity ≤ listEnd by simp only [listEnd]; omega)
    rw [if_pos queue.capacity_pos] at chain
    simpa [init, initialContents, one, EMPTY] using chain
  · simpa [init, initialContents, one, EMPTY] using Linked.nil

theorem init_placed : Placed queue.capacity [] (init queue) (initialContents queue)
    (fun _ => .nothing) (fun _ => .stack .first) ∅ where
  listed shard slot := by
    by_cases one : shard = .first
    · simp [initialContents, one]
    · simp [initialContents, one, Ne.symm one]
  hand := by simp [Held.nothing]
  allowed _ _ := .inl rfl
  holders _ _ := rfl
  unclaimed := by simp [init]
  once := trivial
  owes := by simp [Held.nothing]
  count := by simp [init, total, Place.weight, Place.rides]

theorem safe_initial : (system queue).actors.Safe (ownership queue).inv
    (fun _ => (none, .nothing)) (initial queue) := by
  refine ⟨fun _ => (none, .nothing), ⟨initialContents queue, ?_, ?_, ?_⟩, fun _ => rfl⟩
  · refine ⟨init_linked queue, fun _ => rfl, ?_, ?_, by simp [attempts]⟩
    · intro shard
      unfold initialContents
      split
      · exact List.nodup_range
      · exact List.nodup_nil
    · intro one two ne
      unfold initialContents
      by_cases here : one = .first
      · have there : two ≠ .first := fun same => ne (here.trans same.symm)
        simp [there]
      · simp [here]
  · exact ⟨_, _, init_placed queue⟩
  · simp

end

theorem safe_of_reachable (reached : (system queue).actors.Reachable (initial queue) run) :
    (system queue).actors.Safe (ownership queue).inv (fun _ => (none, .nothing)) run := by
  have returns : ∀ {Value : Type} {code : Code Value} (who : Nat) (wrap : Value → Outcome),
      Returns queue who code →
      Does queue who (wrap <$> code) (fun _ kept => kept = .nothing)
        .nothing := by
    intro Value code who wrap holds
    rw [map_eq_pure_bind]
    apply does_bind
    apply does_mono holds
    rintro val kept rfl
    exact does_ret rfl
  apply inv_of_reachable _ (safe_initial queue) reached
  intro who own op enabled
  cases op with
  | submit req due input => exact returns who _ (does_submitInner _ _ _)
  | claim workerId due =>
    exact returns who _ (does_mono (does_claimInner _ _) fun _ _ new => new.2)
  | complete idx seq res => exact returns who _ (does_complete _ _ _ enabled)
  | fail idx seq => exact returns who _ (does_fail _ _ enabled)
  | cancel handle => exact returns who _ (does_cancel _)
  | reap now => exact returns who _ (does_reap _)
  | bindOutput idx seq binding =>
    exact returns who _ (does_elsewhere (every_bindOutput admits_elsewhere _ _ _) fun _ => rfl)
  | ack handle => exact returns who _ (does_elsewhere (every_ack admits_elsewhere _) fun _ => rfl)
  | reapBindings now grace =>
    exact returns who _ (does_elsewhere (every_reapBindings admits_elsewhere _ _) fun _ => rfl)

section

/-- A claimed slot that is unclaimed again has been published since. -/
theorem mem_queued_of_unclaimed (between : List Event)
    (again : unclaimed slot (between ++ .claimed who slot :: older) = true) :
    ∃ publisher, Event.queued publisher slot ∈ between := by
  induction between with
  | nil => simp [unclaimed] at again
  | cons event between ih =>
    cases event with
    | queued publisher entry =>
      by_cases same : entry = slot
      · exact ⟨publisher, same ▸ List.mem_cons_self⟩
      · obtain ⟨publisher, in_⟩ := ih (by simpa [unclaimed, same] using again)
        exact ⟨publisher, List.mem_cons_of_mem _ in_⟩
    | claimed claimer entry =>
      by_cases same : entry = slot
      · simp [unclaimed, same] at again
      · obtain ⟨publisher, in_⟩ := ih (by simpa [unclaimed, same] using again)
        exact ⟨publisher, List.mem_cons_of_mem _ in_⟩
    | popped | pushed | elected =>
      obtain ⟨publisher, in_⟩ := ih again
      exact ⟨publisher, List.mem_cons_of_mem _ in_⟩

theorem ClaimsOnce.queued_between (once : ClaimsOnce
      (newer ++ .claimed two slot :: (between ++ .claimed one slot :: older))) :
    ∃ publisher, Event.queued publisher slot ∈ between := by
  induction newer with
  | nil => exact mem_queued_of_unclaimed between once.1
  | cons event newer ih =>
    cases event with
    | claimed => exact ih once.2
    | popped | pushed | queued | elected => exact ih once

end

section

variable {queue : Queue} {run : QueueConfig}
  (placed : Placed queue.capacity run.history.2 run.state lists held place owing)

include placed

/-- A slot on no stack is in the hands of a running operation, or claimed. -/
theorem Placed.running_or_claimed (idle : ∀ who own, run.thread who = .idle own → held who = .nothing)
    (known : slot < queue.capacity) (unlisted : ∀ shard, slot ∉ lists shard) :
    (∃ who own op rest, Task.holders slot run.history.2 = [who] ∧ run.thread who = .running own op rest) ∨
    (run.state.slot slot).state = .claimed := by
  cases here : place slot with
  | stack shard => exact absurd ((placed.listed shard slot).mpr ⟨known, here⟩) (unlisted shard)
  | out =>
    have may := placed.allowed slot known
    rw [here] at may
    exact .inr may
  | hand who mode =>
    left
    have taken := (placed.hand who slot mode).mpr ⟨known, here⟩
    have holder : Task.holders slot run.history.2 = [who] := by
      rw [placed.holders slot known, here]
      rfl
    cases thread : run.thread who with
    | idle own =>
      rw [idle who own thread] at taken
      cases taken
    | running own op rest => exact ⟨who, own, op, rest, holder, thread⟩

/-- With every hand empty, the count is the cancelled slots that ride READY. -/
theorem Placed.count_of_idle (idle : ∀ who, held who = .nothing) :
    run.state.cancelled = ((Finset.range queue.capacity).filter fun slot =>
      (∃ shard, slot ∈ lists (.ready shard)) ∧
        (run.state.slot slot).state = .cancelled).card := by
  have settled : owing = ∅ := by
    apply Finset.eq_empty_of_forall_notMem
    intro who in_
    have owes := (placed.owes who).mp in_
    rw [idle who] at owes
    cases owes
  have weights : ∀ slot ∈ Finset.range queue.capacity,
      (place slot).weight (run.state.slot slot).state =
        if (∃ shard, slot ∈ lists (.ready shard)) ∧
          (run.state.slot slot).state = .cancelled then 1 else 0 := by
    intro slot inRange
    have known := Finset.mem_range.mp inRange
    have rides : (place slot).rides = true ↔ ∃ shard, slot ∈ lists (.ready shard) := by
      simp only [placed.listed, known, true_and]
      cases here : place slot with
      | stack shard => cases shard <;> simp [Place.rides]
      | out => simp [Place.rides]
      | hand who mode =>
        have taken := (placed.hand who slot mode).mpr ⟨known, here⟩
        rw [idle who] at taken
        cases taken
    simp only [Place.weight, rides]
  have count := placed.count
  rw [total, settled, Finset.sum_congr rfl weights, ← Finset.card_filter, Finset.card_empty,
    Nat.add_zero] at count
  rw [count]
  apply Nat.mod_eq_of_lt
  exact Nat.lt_of_le_of_lt (Finset.card_filter_le _ _) (by simpa using queue.fits)

end

/-- Single membership under every interleaving: a slot is on at most one stack
and there once; on none, it is in one operation's hands or in a state that
keeps it; READY and FREE hold only their states; a publication is claimed at
most once; and with no operation in progress the count is exact. -/
theorem membership_of_reachable {queue : Queue} {config : QueueConfig}
    (reached : (system queue).actors.Reachable (initial queue) config) :
    ∃ contents, SingleMembership queue config contents := by
  obtain ⟨holdings, ⟨contents, valid⟩, threads⟩ := safe_of_reachable reached
  obtain ⟨place, owing, placed⟩ := valid.own
  have idle : ∀ actor own, config.thread actor = .idle own → (holdings actor).2 = .nothing := by
    intro actor own thread
    have empty := threads actor
    rw [thread] at empty
    rw [empty]
  refine ⟨contents, valid.stack.linked, valid.stack.nodup, valid.stack.disjoint, ?_, ?_, ?_, ?_, ?_⟩
  · intro slot known unlisted
    rcases placed.running_or_claimed idle known unlisted with running | claimed
    · exact .inl running
    · exact .inr (.inr (.inl claimed))
  · intro shard slot member
    obtain ⟨known, here⟩ := (placed.listed _ slot).mp member
    have allowed := placed.allowed slot known
    rw [here] at allowed
    exact ⟨known, allowed⟩
  · intro shard slot member
    obtain ⟨known, here⟩ := (placed.listed _ slot).mp member
    have allowed := placed.allowed slot known
    rw [here] at allowed
    exact ⟨known, allowed⟩
  · intro newer between older first second slot logged
    exact (logged ▸ placed.once).queued_between
  · intro resting
    apply placed.count_of_idle
    intro actor
    obtain ⟨own, thread⟩ := resting actor
    exact idle actor own thread

/-- Process 1 has popped the only slot for its claim when process 2 cancels the
task: the slot is cancelled in the hands of process 1. -/
def cancelInHand : List (Move Op) :=
  let steps (actor count : Nat) : List (Move Op) := List.replicate count (.step actor)
  let pops (actor : Nat) : List (Move Op) :=
    [[.pick actor 1], steps actor 2, [.pick actor 1], steps actor 1].flatten
  [[.start 0 (.submit .zero 5 none), .pick 0 0], pops 0, steps 0 9, [.pick 0 0], steps 0 1, pops 0,
    steps 0 1, [.start 1 (.claim 8 none), .pick 1 1], pops 1, [.start 2 (.cancel ⟨0, 1⟩)],
    steps 2 4].flatten

theorem membership_of_cancelInHand : ∃ config,
    (system ⟨1, 3, ⟨0, rfl⟩, by decide⟩).actors.performAll (initial ⟨1, 3, ⟨0, rfl⟩, by decide⟩)
      cancelInHand = some config ∧ holders 0 config.history.2 = [1] ∧ (config.state.slot 0).state = .cancelled ∧
    config.state.cancelled = 1 ∧ ∃ contents, SingleMembership ⟨1, 3, ⟨0, rfl⟩, by decide⟩ config contents := by
  have outcome : ((system ⟨1, 3, ⟨0, rfl⟩, by decide⟩).actors.performAll
      (initial ⟨1, 3, ⟨0, rfl⟩, by decide⟩) cancelInHand).map (fun config =>
        (holders 0 config.history.2, (config.state.slot 0).state, config.state.cancelled)) =
      some ([1], .cancelled, 1) := by decide +kernel
  obtain ⟨config, performed, facts⟩ := Option.map_eq_some_iff.mp outcome
  obtain ⟨hands, rest⟩ := Prod.mk.inj facts
  obtain ⟨state, count⟩ := Prod.mk.inj rest
  exact ⟨config, performed, hands, state, count,
    membership_of_reachable (Actors.reachable_of_performAll .refl performed)⟩

end ShmActors.Task
