import ShmActors.Task.Handover
import ShmActors.Task.Staged

/-! Every operation of the task queue starts and ends with empty hands. -/

namespace ShmActors.Task

open Lib Core StackActors

variable {queue : Queue} {actor slot : Nat} {held : Held}

section

/-- A cell that membership does not see. -/
def Apart {Value : Type} (cell : Ref Memory Value) : Prop :=
  ∀ value, Elsewhere .field (cell.set value)

variable {Value : Type}

theorem elsewhere_id : Elsewhere .field id := ⟨rfl, fun _ => ⟨rfl, rfl, fun _ => rfl⟩⟩

theorem every_load (cell : Ref Memory Value) : (load .field cell : Code Value).Every Elsewhere :=
  ⟨elsewhere_id, fun _ => trivial⟩

theorem every_store (ne : Apart cell) (val : Value) : (store .field cell val : Code Unit).Every Elsewhere :=
  ⟨ne val, fun _ => trivial⟩

/-- A field of a slot other than its state. -/
theorem apart_slotField (idx : Nat) {get : TaskSlot → Value} {set : Value → TaskSlot → TaskSlot}
    (keeps : ∀ val slot, (set val slot).state = slot.state) : Apart ((slotRef idx).field get set) := by
  intro val
  refine ⟨rfl, fun mem => ⟨rfl, rfl, fun slot => ?_⟩⟩
  by_cases same : slot = idx
  · simp [slotRef, Ref.field, same, keeps]
  · simp [slotRef, Ref.field, same]

section

variable (idx : Nat)

theorem apart_seqOf : Apart (seqOf idx) := by
  apply apart_slotField
  exact fun _ _ => rfl

theorem apart_deadlineOf : Apart (deadlineOf idx) := by
  apply apart_slotField
  exact fun _ _ => rfl

theorem apart_retryOf : Apart (retryOf idx) := by
  apply apart_slotField
  exact fun _ _ => rfl

theorem apart_resultOf : Apart (resultOf idx) := by
  apply apart_slotField
  exact fun _ _ => rfl

end

end

theorem admits_elsewhere : Admits Elsewhere := by
  intro update keeps
  refine ⟨rfl, fun mem => ?_⟩
  obtain ⟨lists, cancelled, slots⟩ := keeps mem
  exact ⟨lists, cancelled, fun slot => by rw [slots]⟩

theorem admits_both (one : Admits first)
    (other : Admits two) : Admits fun site update => first site update ∧ two site update :=
  fun update keeps => ⟨one update keeps, other update keeps⟩

section

open Program

variable (admits : Admits kind)

include admits

theorem every_popLease : popLease.Every kind := by
  apply every_repeatLoop
  refine every_bind (admits.load _) fun cur => ?_
  by_cases atEnd : cur.slot = EMPTY
  · rw [if_pos atEnd]
    trivial
  · rw [if_neg atEnd]
    refine every_bind (admits.load _) fun next => ?_
    exact every_bind (admits.exchangeWeak leased_head _ _) fun _ => trivial

theorem every_pushLease (idx : Nat) : (pushLease idx).Every kind := by
  apply every_repeatLoop
  refine every_bind (admits.load _) fun cur => ?_
  refine every_bind (admits.store (leased_next idx) _) fun _ => ?_
  exact every_bind (admits.exchangeWeak leased_head _ _) fun _ => trivial

theorem every_arm (idx : Nat) (binding : LeaseBinding) (slotIdx seq due : Nat) :
    (arm idx binding slotIdx seq due).Every kind := by
  have written {Value : Type} {get : LeaseSlot → Value} {set : Value → LeaseSlot → LeaseSlot} (val : Value) :
      (store .field ((leaseRef idx).field get set) val : Code Unit).Every kind := admits.store (leased_field idx) val
  refine every_bind (written _) fun _ => every_bind (written _) fun _ => every_bind (written _) fun _ => ?_
  refine every_bind (written _) fun _ => every_bind (written _) fun _ => every_bind (written _) fun _ => ?_
  exact every_bind (admits.load _) fun word => written _

theorem every_bindOutput (idx seq : Nat) (binding : LeaseBinding) : (bindOutput idx seq binding).Every kind := by
  refine every_found (every_popLease admits) trivial fun lease => ?_
  refine every_bind (admits.load _) fun due => ?_
  exact every_bind (every_arm admits _ _ _ _ _) fun _ => trivial

theorem every_bindOutputs (task : ClaimedTask) (outputs : List LeaseBinding) :
    (forEach (fun binding => do let _ ← bindOutput task.idx task.seq binding) outputs : Code Unit).Every kind :=
  every_forEach _ fun _ _ => every_bind (every_bindOutput admits _ _ _) fun _ => trivial

theorem every_ackRecord (handle : TaskHandle) (idx : Nat) : (ackRecord handle idx).Every kind := by
  refine every_bind (admits.load _) fun word => ?_
  split
  · trivial
  refine every_bind (admits.load _) fun slotIdx => ?_
  split
  · trivial
  refine every_bind (admits.load _) fun seq => ?_
  split
  · trivial
  exact every_bind (admits.exchange (leased_field idx) _ _) fun _ => trivial

theorem every_ack (handle : TaskHandle) : (ack queue handle).Every kind := by
  have records (records : List Nat) (acked : Nat) : (ackRecords handle records acked).Every kind := by
    induction records generalizing acked with
    | nil => trivial
    | cons idx rest ih =>
      refine every_bind (every_ackRecord admits handle idx) fun won => ?_
      cases won with
      | true => exact ih _
      | false => exact ih _
  have able : (ackable handle).Every kind := by
    refine every_bind (admits.load _) fun seq => ?_
    split
    · trivial
    · exact every_bind (admits.load _) fun _ => trivial
  unfold ack
  split
  · trivial
  refine every_bind able fun may => ?_
  cases may with
  | true => exact every_bind (records _ _) fun _ => trivial
  | false => trivial

theorem every_releaseLeaseRecord (idx : Nat) (word : LeaseWord) : (releaseLeaseRecord idx word).Every kind := by
  refine every_bind (admits.exchange (leased_field idx) _ _) fun got => ?_
  cases got with
  | some _ => trivial
  | none =>
    refine every_bind (admits.load _) fun _ => every_bind (admits.load _) fun _ => ?_
    refine every_bind (admits.load _) fun _ => every_bind (admits.load _) fun _ => ?_
    refine every_bind (admits.store (leased_field idx) _) fun _ => ?_
    exact every_bind (every_pushLease admits idx) fun _ => trivial

theorem every_reapRecord (now grace idx : Nat) : (reapRecord queue now grace idx).Every kind := by
  have needed : (stillNeeded queue idx).Every kind := by
    refine every_bind (admits.load _) fun slotIdx => ?_
    split
    · trivial
    refine every_bind (admits.load _) fun seq => every_bind (admits.load _) fun tied => ?_
    split
    · trivial
    · exact every_bind (admits.load _) fun _ => trivial
  refine every_bind (admits.load _) fun word => ?_
  cases word.state with
  | none | released => trivial
  | acked => exact every_releaseLeaseRecord admits idx word
  | armed =>
    refine every_bind (admits.load _) fun due => ?_
    split
    · trivial
    refine every_bind needed fun needed => ?_
    cases needed with
    | true => trivial
    | false => exact every_releaseLeaseRecord admits idx word

theorem every_reapBindings (now grace : Nat) : (reapBindings queue now grace).Every kind := by
  have records (records : List Nat) (out : List LeaseBinding) :
      (reapRecords queue now grace records out).Every kind := by
    induction records generalizing out with
    | nil => trivial
    | cons idx rest ih =>
      refine every_bind (every_reapRecord admits now grace idx) fun got => ?_
      cases got with
      | some binding => exact ih _
      | none => exact ih _
  exact records _ _

theorem every_poll (handle : TaskHandle) : (poll queue handle).Every kind :=
  Staged.bare_poll handle queue ▸ every_bare.mpr (Staged.every_poll (fun _ => admits) queue handle)

/-- The hints a reap reads at its end. -/
theorem every_reapTail (report : ReapReport) : (do
    if report.requeued > 0 then
      let _ ← load .field waitersWorkRef
    if report.failed > 0 then
      let _ ← load .field waitersDoneRef
    return report : Code ReapReport).Every kind := by
  have last : (if report.failed > 0 then do
      let _ ← load .field waitersDoneRef
      return report
    else return report : Code ReapReport).Every kind := by
    split
    · exact every_bind (admits.load _) fun _ => trivial
    · trivial
  by_cases requeued : report.requeued > 0
  · simp only [if_pos requeued]
    exact every_bind (admits.load _) fun _ => last
  · simp only [if_neg requeued]
    exact last

end

namespace Held

@[simp] theorem set_set (held : Held) (slot : Nat) (one two : Option Mode) :
    (held.set slot one).set slot two = held.set slot two := by
  simp [set]

@[simp] theorem set_owing (held : Held) (slot : Nat) (mode : Option Mode) (owes : Bool) :
    (held.owing owes).set slot mode = (held.set slot mode).owing owes := rfl

@[simp] theorem owing_owing (held : Held) (one two : Bool) :
    (held.owing one).owing two = held.owing two := rfl

theorem set_none (absent : held.slots slot = none) : held.set slot none = held := by
  simp [set, ← absent]

theorem owing_self {owes : Bool} (same : held.owes = owes) : held.owing owes = held := by
  subst same
  rfl

/-- The live slots a drain has set aside. -/
def keeping (kept : List Nat) : Held := ⟨fun slot => if slot ∈ kept then some .live else none, false⟩

theorem keeping_cons (slot : Nat) (kept : List Nat) :
    (keeping kept).set slot (some .live) = keeping (slot :: kept) := by
  simp only [keeping, set, Held.mk.injEq, and_true]
  funext entry
  by_cases same : entry = slot <;> simp [same]

theorem keeping_slots_none : (keeping kept).slots slot = none ↔ slot ∉ kept := by
  simp [keeping]

theorem keeping_nil : keeping [] = nothing := by
  simp [keeping, nothing]

def without (held : Held) (given : List Nat) : Held :=
  ⟨fun slot => if slot ∈ given then none else held.slots slot, held.owes⟩

theorem without_nil (held : Held) : held.without [] = held := by
  simp [without]

theorem set_without (held : Held) (slot : Nat) (given : List Nat) :
    (held.set slot none).without given = held.without (slot :: given) := by
  simp only [without, set, Held.mk.injEq, and_true]
  funext entry
  by_cases same : entry = slot <;> simp [same]

theorem keeping_without (kept : List Nat) : (keeping kept).without kept = nothing := by
  simp only [without, keeping, nothing, Held.mk.injEq, and_true]
  funext entry
  by_cases in_ : entry ∈ kept <;> simp [in_]

theorem keeping_set_without (ne : slot ∉ kept) (mode : Mode) :
    ((keeping kept).set slot (some mode)).without kept = nothing.set slot (some mode) := by
  simp only [without, keeping, set, nothing, Held.mk.injEq, and_true]
  funext entry
  by_cases same : entry = slot
  · simp [same, ne]
  · by_cases in_ : entry ∈ kept <;> simp [same, in_]

end Held

section

theorem does_firstOf (empty : post none held) (each : ∀ shard, Does queue actor (attempt shard)
      (fun got kept => got = none ∧ kept = held ∨ ∃ slot, got = some slot ∧ post got kept)
      held) (order : List (Fin shards)) : Does queue actor (firstOf attempt order) post held := by
  induction order with
  | nil => exact does_ret empty
  | cons shard rest ih =>
    apply does_bind
    apply does_mono (each shard)
    rintro got kept (⟨rfl, rfl⟩ | ⟨slot, rfl, holds⟩)
    · exact ih
    · exact does_ret holds

theorem does_nextShard (each : ∀ shard, post shard held) : Does queue actor nextShard post held :=
  fun _ => does_ret (each _)

theorem does_popFree (empty : post none held)
    (taken : ∀ slot < queue.capacity, held.slots slot = none →
      post (some slot) (held.set slot (some .spent))) :
    Does queue actor popFree post held := by
  apply does_bind
  apply does_nextShard
  intro home
  apply does_firstOf empty
  intro shard
  apply does_popShard
  · exact .inl ⟨rfl, rfl⟩
  · exact fun slot known fresh => .inr ⟨slot, rfl, taken slot known fresh⟩

theorem does_pushFree (holds : held.slots slot = some .spent)
    (given : post () (held.set slot none)) : Does queue actor (pushFree slot) post held := by
  apply does_bind
  apply does_nextShard
  exact fun shard => does_pushShard _ holds given

/-- A round that meets a cancelled slot hands it over, pays its debt and goes on. -/
theorem does_claimPop (shard : Fin shards) (clear : held.owes = false) (empty : post none held)
    (taken : ∀ slot < queue.capacity, post (some slot) held) : Does queue actor (claimPop shard) post held := by
  apply does_repeatLoop
  apply does_bind
  apply does_popShard
  · exact does_ret empty
  intro slot known fresh
  apply does_bind
  apply does_tryClaim
  · simp [Shard.mode]
  · exact clear
  · apply does_ret
    rw [Held.set_set, Held.set_none fresh]
    exact taken slot known
  · apply does_bind
    apply does_pushShard
    · simp [Shard.mode]
    apply does_bind
    apply does_uncountCancelled
    · rfl
    intro _
    apply does_ret
    simp only [Held.set_set, Held.set_owing, Held.owing_owing, Held.set_none fresh]
    exact Held.owing_self clear

theorem does_publishQueued (shard : Fin shards)
    (holds : held.slots slot = some .reserved) (given : post () (held.set slot none)) :
    Does queue actor (publishQueued shard slot) post held := by
  apply does_bind
  apply does_publish holds
  apply does_pushShard
  · simp [Shard.mode]
  · simpa using given

end

section

variable {kept : List Nat}

/-- The drain's dig: live slots stay in hand, and a recovered one is reserved. -/
theorem does_dig (shard : Fin shards) (budget : Nat) (nodup : kept.Nodup)
    (missed : ∀ kept : List Nat, kept.Nodup → post (none, kept) (.keeping kept))
    (got : ∀ (slot : Nat) (kept : List Nat), kept.Nodup → slot < queue.capacity → slot ∉ kept →
      post (some slot, kept) ((Held.keeping kept).set slot (some .reserved))) :
    Does queue actor (dig shard budget kept) post (.keeping kept) := by
  induction budget generalizing kept with
  | zero => exact does_ret (missed kept nodup)
  | succ budget ih =>
    apply does_bind
    apply does_popShard
    · exact does_ret (missed kept nodup)
    intro slot known fresh
    have ne := Held.keeping_slots_none.mp fresh
    apply does_bind
    apply does_recover
    · simp [Shard.mode]
    · rfl
    · apply does_bind
      apply does_uncountCancelled
      · rfl
      intro _
      apply does_ret
      simp only [Held.set_set, Held.owing_owing]
      exact got slot kept nodup known ne
    · intro _
      have live : (Held.keeping kept).set slot (some (Shard.mode (.ready shard))) =
          .keeping (slot :: kept) := Held.keeping_cons slot kept
      rw [live]
      exact ih (List.nodup_cons.mpr ⟨ne, nodup⟩)

theorem does_pushBack (shard : Fin shards)
    (nodup : kept.Nodup) (holds : ∀ slot ∈ kept, held.slots slot = some .live) (given : post () (held.without kept)) :
    Does queue actor (pushBack shard kept) post held := by
  induction kept generalizing held with
  | nil =>
    rw [Held.without_nil] at given
    exact does_ret given
  | cons slot rest ih =>
    obtain ⟨ne, nodup⟩ := List.nodup_cons.mp nodup
    apply does_bind
    apply does_pushShard
    · exact holds slot List.mem_cons_self
    apply ih nodup
    · intro entry in_
      have different : entry ≠ slot := fun same => ne (same ▸ in_)
      simpa [different] using holds entry (List.mem_cons_of_mem slot in_)
    · rwa [Held.set_without]

theorem does_drain (missed : post none .nothing)
    (got : ∀ slot < queue.capacity, post (some slot) (Held.nothing.set slot (some .reserved)))
    (order : List (Fin shards)) : Does queue actor (drain queue order) post .nothing := by
  induction order with
  | nil => exact does_ret missed
  | cons shard rest ih =>
    apply does_bind
    apply does_elsewhere (every_load _)
    intro count
    split
    · exact does_ret missed
    apply does_bind
    rw [← Held.keeping_nil]
    apply does_dig shard drainDig List.nodup_nil
    · intro kept nodup
      apply does_bind
      apply does_pushBack shard nodup
      · exact fun slot in_ => by simp [Held.keeping, in_]
      · rw [Held.keeping_without]
        exact ih
    · intro slot kept nodup known ne
      apply does_bind
      apply does_pushBack shard nodup
      · intro entry in_
        have different : entry ≠ slot := fun same => ne (same ▸ in_)
        simp [Held.keeping, different, in_]
      · rw [Held.keeping_set_without ne]
        exact does_ret (got slot known)

theorem does_reserveFree (missed : post none .nothing)
    (got : ∀ slot < queue.capacity, post (some slot) (Held.nothing.set slot (some .reserved))) :
    Does queue actor reserveFree post .nothing := by
  apply does_bind
  apply does_popFree
  · exact does_ret missed
  intro slot known _
  apply does_bind
  have spent : (Held.nothing.set slot (some .spent)).slots slot = some .spent := by simp
  apply does_storeState .reserved rfl (fun _ _ _ => rfl) spent
  · simp
  · rfl
  · exact fun _ _ => rfl
  · rw [Held.set_set]
    exact does_ret (got slot known)

theorem does_reserveSubmitSlot (missed : post none .nothing)
    (got : ∀ slot < queue.capacity, post (some slot) (Held.nothing.set slot (some .reserved))) :
    Does queue actor (reserveSubmitSlot queue) post .nothing := by
  apply does_bind
  apply does_reserveFree
  · apply does_bind
    apply does_drain
    · apply does_bind
      apply does_reserveFree
      · apply does_bind
        exact does_elsewhere (every_load _) fun _ => does_ret missed
      · intro slot known
        apply does_bind
        exact does_elsewhere (every_load _) fun _ => does_ret (got slot known)
    · intro slot known
      apply does_bind
      apply does_ret
      apply does_bind
      exact does_elsewhere (every_load _) fun _ => does_ret (got slot known)
  · exact fun slot known => does_ret (got slot known)

theorem every_writeFields (idx : Nat) (req : ChunkDesc) (due : Nat) :
    (writeFields idx req due).Every Elsewhere := by
  apply Program.every_bind (every_load _)
  intro seq
  refine Program.every_bind (every_store ?_ _) fun _ => Program.every_bind (every_store ?_ _)
    fun _ => Program.every_bind (every_store ?_ _) fun _ => Program.every_bind (every_store ?_ _)
    fun _ => Program.every_bind (every_store ?_ _) fun _ => Program.every_bind (every_store ?_ _)
    fun _ => Program.every_bind (every_store ?_ _) fun _ => trivial
  all_goals exact apart_slotField idx fun _ _ => rfl

/-- The post of an operation that leaves its actor with empty hands. -/
def Returns {Value : Type} (queue : Queue) (actor : Nat) (code : Code Value) : Prop :=
  StackActors.Does (ownership queue) actor code (fun _ kept => kept = .nothing) .nothing

theorem nothing_set_none (slot : Nat) : Held.nothing.set slot none = .nothing :=
  Held.set_none rfl

/-- After its slot is reserved, a submit writes, publishes and pushes. -/
theorem does_submitReserved (req : ChunkDesc) (due : Nat) (input : Option (LeaseBinding × Nat)) :
    Returns queue actor (submitReserved queue req due input) := by
  apply does_bind
  apply does_reserveSubmitSlot
  · cases input with
    | none => exact does_ret rfl
    | some input =>
      apply does_bind
      exact does_elsewhere (every_pushLease admits_elsewhere _) fun _ => does_ret rfl
  intro slot known
  apply does_bind
  apply does_elsewhere (every_writeFields _ _ _)
  intro newSeq
  have published : Does queue actor
      (do
        let shard ← nextShard
        publishQueued shard slot
        let _ ← load .field waitersWorkRef
        return (.ok ⟨slot, newSeq⟩ : Except QueueError TaskHandle))
      (fun _ kept => kept = .nothing) (Held.nothing.set slot (some .reserved)) := by
    apply does_bind
    apply does_nextShard
    intro shard
    apply does_bind
    apply does_publishQueued
    · simp
    apply does_bind
    apply does_elsewhere (every_load _)
    intro _
    apply does_ret
    rw [Held.set_set, nothing_set_none]
  cases input with
  | none => exact published
  | some input =>
    apply does_bind
    exact does_elsewhere (every_arm admits_elsewhere _ _ _ _ _) fun _ => published

theorem does_submitInner (req : ChunkDesc) (due : Nat) (input : Option LeaseBinding) :
    Returns queue actor (submitInner queue req due input) := by
  cases input with
  | none => exact does_submitReserved req due none
  | some binding =>
    apply does_bind
    apply does_elsewhere (every_popLease admits_elsewhere)
    intro got
    cases got with
    | none => exact does_ret rfl
    | some lease => exact does_submitReserved req due _

end

section

/-- A claim leaves its actor with empty hands: the slot is out with the worker. -/
theorem does_claimInner (workerId : Nat) (due : Option Nat) :
    Does queue actor (claimInner workerId due)
      (fun got kept => (∀ task, got = some task → task.idx < queue.capacity) ∧ kept = .nothing) .nothing := by
  apply does_bind
  apply does_firstOf
  · exact does_ret ⟨by simp, rfl⟩
  intro shard
  apply does_claimPop shard rfl
  · exact .inl ⟨rfl, rfl⟩
  intro slot known
  refine .inr ⟨slot, rfl, ?_⟩
  have fields : Does queue actor (do
      let seq ← load .field (seqOf slot)
      let req ← load .field (requestOf slot)
      return some ⟨slot, seq, workerId, req⟩ : Code (Option ClaimedTask))
      (fun got kept => (∀ task, got = some task → task.idx < queue.capacity) ∧ kept = .nothing)
      .nothing := by
    apply does_bind
    apply does_elsewhere (every_load _)
    intro seq
    apply does_bind
    apply does_elsewhere (every_load _)
    intro req
    exact does_ret ⟨by rintro _ ⟨⟩; exact known, rfl⟩
  apply does_bind
  apply does_elsewhere (every_store (apart_slotField slot ?_) _)
  · intro _
    cases due with
    | none => exact fields
    | some due =>
      apply does_bind
      apply does_elsewhere (every_store (apart_slotField slot ?_) _)
      · exact fun _ => fields
      · exact fun _ _ => rfl
  · exact fun _ _ => rfl

/-- Hand a slot that is done with to FREE. -/
theorem does_giveBack (every : rest.Every Elsewhere) : Does queue actor (pushFree slot >>= fun _ => rest)
      (fun _ kept => kept = .nothing) (Held.nothing.set slot (some .spent)) := by
  apply does_bind
  apply does_pushFree
  · simp
  · rw [Held.set_set, nothing_set_none]
    exact does_elsewhere every fun _ => rfl

theorem does_complete (idx seq : Nat) (res : ChunkDesc) (known : idx < queue.capacity) :
    Returns queue actor (complete idx seq res) := by
  apply does_bind
  apply does_elsewhere (every_load _)
  intro now
  split
  · exact does_ret rfl
  apply does_bind
  apply does_bind
  apply does_elect .completing (.inl rfl) known rfl (by simp)
  · intro _
    apply does_ret
    have written : (store .field (resultOf idx) res : Code Unit).Every Elsewhere := by
      apply every_store (apart_slotField idx ?_)
      exact fun _ _ => rfl
    apply does_bind
    apply does_elsewhere written
    intro _
    have completing : (Held.nothing.set idx (some .completing)).slots idx = some .completing := by
      simp
    apply does_bind
    apply does_storeState .spent rfl (fun _ _ _ => rfl) completing
    · simp
    · simp [Mode.allows]
    · exact fun _ _ => rfl
    · rw [Held.set_set]
      exact does_giveBack (Program.every_bind (every_load _) fun _ => trivial)
  · exact fun _ => does_ret (does_ret rfl)

theorem does_fail (idx seq : Nat) (known : idx < queue.capacity) : Returns queue actor (fail idx seq) := by
  apply does_bind
  apply does_elsewhere (every_load _)
  intro now
  split
  · exact does_ret rfl
  apply does_bind
  apply does_bind
  apply does_elect .spent (.inr (.inr rfl)) known (by simp [Mode.allows]) (by simp)
  · intro _
    apply does_ret
    exact does_giveBack (Program.every_bind (every_load _) fun _ => trivial)
  · exact fun _ => does_ret (does_ret rfl)

end

theorem every_flagClaimed (handle : TaskHandle) : (flagClaimed handle).Every Elsewhere := by
  apply Program.every_bind (every_load _)
  intro st
  split
  · apply Program.every_bind (every_load _)
    intro seq
    split
    · apply every_store (apart_slotField _ ?_)
      exact fun _ _ => rfl
    · trivial
  · trivial

/-- A cancel counts ahead, and either its slot rides or it takes the count back. -/
theorem does_cancel (handle : TaskHandle) : Returns queue actor (cancel queue handle) := by
  unfold Returns cancel
  split
  · exact does_ret rfl
  rename_i inRange
  apply does_bind
  apply does_elsewhere (every_load _)
  intro seq
  split
  · exact does_ret rfl
  apply does_bind
  apply does_countCancelled rfl
  intro _
  apply does_bind
  apply does_tryCancelQueued (by omega) rfl
  · apply does_bind
    exact does_elsewhere (every_load _) fun _ => does_ret rfl
  · apply does_bind
    apply does_uncountCancelled rfl
    intro _
    apply does_bind
    exact does_elsewhere (every_flagClaimed handle) fun _ => does_ret rfl

section

/-- Write the retry of a slot in hand, and publish it again. -/
theorem does_requeue (retry : Nat) (report : ReapReport) :
    Does queue actor (do
      store .field (retryOf slot) retry
      store .field (ownerOf slot) ownerNone
      publishQueued (Fin.ofNat shards slot) slot
      return report)
      (fun _ kept => kept = .nothing) (Held.nothing.set slot (some .reserved)) := by
  apply does_bind
  apply does_elsewhere (every_store (apart_slotField slot ?_) _)
  · intro _
    apply does_bind
    apply does_elsewhere (every_store (apart_slotField slot ?_) _)
    · intro _
      apply does_bind
      apply does_publishQueued
      · simp
      · rw [Held.set_set, nothing_set_none]
        exact does_ret rfl
    · exact fun _ _ => rfl
  · exact fun _ _ => rfl

theorem does_reapLapsed (idx : Nat) (report : ReapReport) (known : idx < queue.capacity) :
    Returns queue actor (reapLapsed queue idx report) := by
  apply does_bind
  apply does_elsewhere (every_load _)
  intro retry
  split
  · apply does_bind
    apply does_bind
    apply does_elect .spent (.inr (.inr rfl)) known (by simp [Mode.allows]) (by simp)
    · intro _
      apply does_ret
      exact does_giveBack trivial
    · exact fun _ => does_ret (does_ret rfl)
  · apply does_bind
    apply does_bind
    apply does_elect .reserved (.inr (.inl rfl)) known rfl (by simp)
    · intro _
      exact does_ret (does_requeue _ _)
    · exact fun _ => does_ret (does_ret rfl)

theorem does_reapSlots (now : Nat) (slots : List Nat) (report : ReapReport)
    (known : ∀ idx ∈ slots, idx < queue.capacity) : Returns queue actor (reapSlots queue now slots report) := by
  induction slots generalizing report with
  | nil => exact does_ret rfl
  | cons idx rest ih =>
    have later := fun report => ih report fun entry in_ =>
      known entry (List.mem_cons_of_mem idx in_)
    apply does_bind
    apply does_elsewhere (every_load _)
    intro st
    split
    · exact later report
    apply does_bind
    apply does_elsewhere (every_load _)
    intro due
    split
    · exact later report
    apply does_bind
    apply does_mono (does_reapLapsed idx report (known idx List.mem_cons_self))
    rintro report kept rfl
    exact later report

theorem does_reap (now : Nat) : Returns queue actor (reap queue now) := by
  apply does_bind
  apply does_mono (does_reapSlots now _ _ fun _ => List.mem_range.mp)
  rintro report kept rfl
  exact does_elsewhere (every_reapTail admits_elsewhere report) fun _ => rfl

end

end ShmActors.Task
