import ShmActors.Task.Crash

/-! A task that is queued on a READY shard is there for the taking: a live
worker that claims from that shard comes to it. -/

namespace ShmActors.Task

open Lib Core Program Function Actors

section

variable {queue : Queue} {now : Nat} {stopped : Nat → Prop} {who : Role} {actor : Nat} {memory : Memory}
  {history : CrashHistory} {Value : Type} {shard : Shard} {goal : Option Nat → Memory → CrashHistory → Prop}
  {idx : Nat} {list : List Nat}

/-- What a live actor may do with code under a label. -/
abbrev Manages (queue : Queue) (now : Nat) (stopped : Nat → Prop) (who : Role) (actor : Nat)
    {Value : Type} (code : Code Value) (goal : Value → Memory → CrashHistory → Prop) (memory : Memory)
    (history : CrashHistory) : Prop :=
  ((callers queue now stopped).under who).may actor code goal memory history

/-- An access that is no exchange of a head is always in time. -/
theorem manages_act {update : Memory → Memory} {goal : Value → Memory → CrashHistory → Prop}
    (alive : ¬ stopped actor) (plain : role site = none)
    (new : ∀ history, Manages queue now stopped who actor (next memory) goal (update memory) history) :
    Manages queue now stopped who actor (.act site update next) goal memory history := by
  refine ⟨⟨alive, ?_⟩, new _⟩
  show history.1.1.Timely actor (role site)
  rw [plain]
  trivial

/-- An exchange of a head is in time right after its load and an access elsewhere. -/
theorem allowed_loaded {load middle exchange : Site} (alive : ¬ stopped actor)
    (isLoad : role load = some (.load shard)) (isPlain : role middle = none)
    (isExchange : role exchange = some (.exchange shard)) (one two third fourth st : Memory) :
    ((callers queue now stopped).under who).allowed actor exchange st
      (((callers queue now stopped).under who).track actor middle third fourth
        (((callers queue now stopped).under who).track actor load one two history)) := by
  refine ⟨alive, ?_⟩
  show Tags.Timely _ actor (role exchange)
  rw [isExchange]
  simp [callers, under, StackActors.actors, system, isLoad, isPlain, Tags.note, Tags.Timely]

theorem manages_popShard (alive : ¬ stopped actor)
    (linked : Linked memory.lists.next (memory.lists.head shard).slot (top :: rest))
    (new : ∀ later history, later.slot = memory.slot →
      Linked later.lists.next (later.lists.head shard).slot rest → goal (some top) later history) :
    Manages queue now stopped who actor (popShard shard) goal memory history := by
  obtain ⟨one, node, tail⟩ := linked.of_cons
  refine may_treiberPop (fun _ => by exact ⟨⟨alive, trivial⟩, alive, trivial⟩) (fun absent => node (one ▸ absent))
    (allowed_loaded alive rfl rfl rfl _ _ _ _ _) ?_
  show goal (some (memory.lists.head shard).slot) _ _
  rw [one]
  refine new _ _ rfl ?_
  simp only [afterPop, StackView.head, view, Stacks.setHead_head, Stacks.setHead_next, update_self,
    Head.bump_slot]
  show Linked _ (memory.lists.next (memory.lists.head shard).slot) rest
  rw [one]
  exact tail

/-- A push leaves every other list as it was, but for the node pushed. -/
theorem manages_pushShard {goal : Unit → Memory → CrashHistory → Prop} (alive : ¬ stopped actor)
    (new : ∀ later history, later.slot = memory.slot →
      (∀ other list, other ≠ shard → idx ∉ list →
        Linked memory.lists.next (memory.lists.head other).slot list →
        Linked later.lists.next (later.lists.head other).slot list) → goal () later history) :
    Manages queue now stopped who actor (pushShard shard idx) goal memory history := by
  refine may_treiberPush (fun _ => by exact ⟨⟨alive, trivial⟩, alive, trivial⟩) rfl rfl
    (allowed_loaded alive rfl rfl rfl _ _ _ _ _) (new _ _ rfl fun other list ne fresh linked => ?_)
  simp only [StackView.head, StackView.next, view, Stacks.setHead_head, Stacks.setHead_next,
    Stacks.setNext_head, Stacks.setNext_next, update_of_ne ne]
  refine linked.congr fun node in_ => update_of_ne ?_ _ _
  rintro rfl
  exact fresh in_

/-- What a claim from a shard comes to: a queued node of its list, all others
keeping their fields, and what is left of the list below it. -/
structure Taken (shard : Fin shards) (memory : Memory) (list : List Nat) (idx : Nat) (later : Memory) : Prop where
  member : idx ∈ list
  queued : (memory.slot idx).state = .queued
  seq : ∀ slot, (later.slot slot).seq = (memory.slot slot).seq
  others : ∀ slot, slot ≠ idx → (later.slot slot).state = (memory.slot slot).state
  linked : ∃ rest skipped, list = skipped ++ idx :: rest ∧
    Linked later.lists.next (later.lists.head (.ready shard)).slot rest ∧
    ∀ slot ∈ skipped, (memory.slot slot).state ≠ .queued

theorem manages_tryClaim {goal : Bool → Memory → CrashHistory → Prop} (alive : ¬ stopped actor)
    (new : ∀ history, if (memory.slot idx).state = .queued
      then goal true ((stateOf idx).set .claimed memory) history else goal false memory history) :
    Manages queue now stopped who actor (tryClaim idx) goal memory history := by
  refine may_bind (manages_act alive rfl fun history => ?_)
  have out := new history
  by_cases queued : (memory.slot idx).state = .queued
  · rw [if_pos queued] at out
    show goal (Option.isNone (if (memory.slot idx).state = .queued then _ else _))
      (if (memory.slot idx).state = .queued then _ else _) history
    rw [if_pos queued, if_pos queued]
    exact out
  · rw [if_neg queued] at out
    show goal (Option.isNone (if (memory.slot idx).state = .queued then _ else _))
      (if (memory.slot idx).state = .queued then _ else _) history
    rw [if_neg queued, if_neg queued]
    exact out

theorem manages_uncountCancelled {goal : Nat → Memory → CrashHistory → Prop} (alive : ¬ stopped actor)
    (new : ∀ count later history, later.slot = memory.slot → later.lists = memory.lists →
      goal count later history) :
    Manages queue now stopped who actor uncountCancelled goal memory history := by
  have any (change : Nat → Nat) :
      Manages queue now stopped who actor (fetchUpdate .uncount cancelledRef change) goal memory history :=
    ⟨⟨alive, trivial⟩, new _ _ _ rfl rfl⟩
  exact any _

theorem manages_claimPop {shard : Fin shards}
    (alive : ¬ stopped actor) (linked : Linked memory.lists.next (memory.lists.head (.ready shard)).slot list)
    (nodup : list.Nodup) (some_queued : ∃ slot ∈ list, (memory.slot slot).state = .queued)
    (new : ∀ idx later history, Taken shard memory list idx later → goal (some idx) later history) :
    Manages queue now stopped who actor (claimPop shard) goal memory history := by
  refine ⟨list.length, ?_⟩
  induction list generalizing memory history with
  | nil =>
    obtain ⟨slot, in_, -⟩ := some_queued
    cases in_
  | cons top rest ih =>
    refine may_bind (may_bind (manages_popShard alive linked fun later history same remains => ?_))
    by_cases queued : (memory.slot top).state = .queued
    · refine may_bind (manages_tryClaim alive fun _ => ?_)
      rw [if_pos (by rw [same]; exact queued)]
      refine new top _ _
        { member := List.mem_cons_self
          queued := queued
          seq := fun slot => ?_
          others := fun slot ne => ?_
          linked := ⟨rest, [], rfl, remains, by simp⟩ }
      · rw [(stateOf_set_times top .claimed later slot).1, same]
      · simp [stateOf, slotRef, Ref.field, ne, same]
    · refine may_bind (manages_tryClaim alive fun _ => ?_)
      rw [if_neg (by rw [same]; exact queued)]
      obtain ⟨fresh, nodup⟩ := List.nodup_cons.mp nodup
      refine may_bind (manages_pushShard alive fun pushed history unchanged keeps => ?_)
      refine may_bind (manages_uncountCancelled alive fun _ counted history kept lists => ?_)
      have slots : ∀ slot, memory.slot slot = counted.slot slot := by simp [unchanged, same, kept]
      refine ih ?_ nodup ?_ ?_
      · rw [lists]
        exact keeps _ rest (by simp) fresh remains
      · obtain ⟨slot, in_, isQueued⟩ := some_queued
        refine ⟨slot, (List.mem_cons.mp in_).resolve_left ?_, (slots slot) ▸ isQueued⟩
        rintro rfl
        exact queued isQueued
      · intro idx later history taken
        obtain ⟨below, skipped, split, linked, passed⟩ := taken.linked
        refine new idx later history
          { member := List.mem_cons_of_mem _ taken.member
            queued := slots idx ▸ taken.queued
            seq := fun slot => slots slot ▸ taken.seq slot
            others := fun slot ne => slots slot ▸ taken.others slot ne
            linked := ⟨below, top :: skipped, by rw [split]; rfl, linked, fun slot in_ => ?_⟩ }
        rcases List.mem_cons.mp in_ with rfl | in_
        · exact queued
        · exact slots slot ▸ passed slot in_

theorem Taken.owned {shard : Fin shards} (taken : Taken shard memory list idx later) (owner : Nat) :
    Taken shard memory list idx ((ownerOf idx).set owner later) where
  member := taken.member
  queued := taken.queued
  seq slot := by
    rw [← taken.seq slot]
    by_cases same : slot = idx
    · subst same
      simp [ownerOf, slotRef, Ref.field]
    · simp [ownerOf, slotRef, Ref.field, same]
  others slot ne := by
    rw [← taken.others slot ne]
    simp [ownerOf, slotRef, Ref.field, ne]
  linked := taken.linked

/-- A worker whose home is the shard looks there first. -/
theorem claimOrder_home (shard : Fin shards) : ∃ rest, claimOrder shard = shard :: rest := by
  have head : (claimOrder shard).head? = some shard := by
    revert shard
    decide
  exact List.head?_eq_some_iff.mp head

theorem manages_claimInner {shard : Fin shards}
    {goal : Option ClaimedTask → Memory → CrashHistory → Prop} (alive : ¬ stopped actor)
    (linked : Linked memory.lists.next (memory.lists.head (.ready shard)).slot list)
    (nodup : list.Nodup) (some_queued : ∃ slot ∈ list, (memory.slot slot).state = .queued)
    (new : ∀ task later history, Taken shard memory list task.idx later →
      task.seq = (memory.slot task.idx).seq → goal (some task) later history) :
    Manages queue now stopped who actor (claimInner shard none) goal memory history := by
  obtain ⟨rest, order⟩ := claimOrder_home shard
  unfold claimInner
  rw [order]
  refine may_bind (may_bind (manages_claimPop alive linked nodup some_queued ?_))
  intro idx later history taken
  refine ⟨⟨alive, trivial⟩, ⟨alive, trivial⟩, ⟨alive, trivial⟩, ?_⟩
  exact new _ _ _ (taken.owned shard) ((taken.owned shard).seq idx)

end

/-- A worker that claims once from its home shard and lets go of the claim. -/
def claiming (shard : Fin shards) : Call := .work shard none (fun _ => []) fun _ => .drop

/-- As often as it takes, a live worker claims from a shard until it has the
task it is after: each claim takes a node of the list away. -/
theorem claimed_of_queued (alive : ¬ stopped worker) (idle : run.thread worker = .idle own)
    (linked : Linked run.state.lists.next (run.state.lists.head (.ready shard)).slot list)
    (nodup : list.Nodup) (in_ : slot ∈ list) (queued : (run.state.slot slot).state = .queued) :
    ∃ later newer task out, (callers queue now stopped).Reachable run later ∧
      later.thread worker = .idle ((claiming shard, .worked (some (task, out))) :: (newer ++ own)) ∧
      task.idx = slot ∧ task.seq = (run.state.slot slot).seq := by
  induction size : list.length using Nat.strong_induction_on generalizing run list own with
  | _ length ih =>
    have claims : (callers queue now stopped).may worker (call queue (claiming shard))
        (fun answer later _ => ∃ task out, answer = .worked (some (task, out)) ∧
          Taken shard run.state list task.idx later ∧ task.seq = (run.state.slot task.idx).seq)
        run.state run.history := by
      refine may_bind (may_label (manages_claimInner alive linked nodup ⟨slot, in_, queued⟩ ?_))
      intro task later past taken seq
      exact ⟨task, none, rfl, taken, seq⟩
    have enabled : (callers queue now stopped).enabled own (claiming shard) := fun _ absurd => by cases absurd
    obtain ⟨later, answer, reached, ⟨task, out, rfl, taken, seq⟩, threads⟩ :=
      reaches_call idle enabled claims
    have finished : later.thread worker = .idle ((claiming shard, .worked (some (task, out))) :: own) := by
      rw [threads, update_self]
      trivial
    by_cases got : task.idx = slot
    · exact ⟨later, [], task, out, reached, finished, got, got ▸ seq⟩
    · obtain ⟨rest, skipped, split, remains, passed⟩ := taken.linked
      have below : slot ∈ rest := by
        rw [split] at in_
        rcases List.mem_append.mp in_ with skipped | in_
        · exact absurd queued (passed slot skipped)
        · exact (List.mem_cons.mp in_).resolve_left (Ne.symm got)
      have nodup : rest.Nodup := by
        rw [split] at nodup
        exact (List.nodup_append.mp nodup).2.1.of_cons
      have shorter : rest.length < length := by
        rw [← size, split]
        simp
        omega
      obtain ⟨last, newer, other, answer, onward, thread, slots, seqs⟩ :=
        ih rest.length shorter finished remains nodup below (by rw [taken.others slot (Ne.symm got)]; exact queued) rfl
      refine ⟨last, newer ++ [(claiming shard, .worked (some (task, out)))], other, answer,
        reached.trans onward, ?_, slots, seqs.trans (taken.seq slot)⟩
      rw [thread, List.append_assoc]
      rfl

end ShmActors.Task
