import ShmActors.Task.QueueRuns
import ShmActors.Task.Results

/-! Result integrity over whole runs: one specification for each call of the
queue, and what a poll returned was stored for the task it asked about. -/

namespace ShmActors.Task

open Lib Core Program Actors StackActors

/-- The workers whose completions win only on their own task. -/
abbrev matched (queue : Queue) := workers queue (SameTask queue)

theorem follows_matched (queue : Queue) : Follows queue (matched queue) Prod.fst where
  track _ _ _ _ _ := rfl
  timely _ _ _ _ may := may.1

/-- The ownership of slots, and the integrity of results. -/
abbrev Kept (queue : Queue) : WorkHistory → Memory → (Nat → Hands × Desk) → Prop :=
  both (fun history => (ownership queue).inv history.1) (Integrity queue)

/-- The specification of code that keeps the integrity of results. -/
abbrev Knows (queue : Queue) (who : Role) (actor : Nat) {Value : Type} (code : Code Value)
    (post : Value → Held → Desk → Prop) (held : Held) (desk : Desk) : Prop :=
  Tells (follows_matched queue) (Integrity queue) who actor code post held desk

section

/-- Code specified before, none of whose accesses matters to results. -/
theorem knows_beside
    (does : Does queue actor code post held) (every : code.Every Neutral) (idle : desk.work = .nothing) :
    Knows queue who actor code (fun val kept next => post val kept ∧ next = desk) held desk := by
  refine tells_beside does (every_mono every ?_)
  intro site update neutral past mem hands desks kept _ ok same _ _
  apply ok.neutral neutral _ ok.answers
  intro other
  by_cases mine : other = actor
  · subst mine
    rw [same, idle]
    trivial
  · simpa [mine] using ok.works other

/-- Accesses that neither membership nor results see, in the middle of work. -/
theorem knows_aside (every : code.Every fun site update => Elsewhere site update ∧ Neutral site update) :
    Knows queue who actor code (fun _ kept next => kept = held ∧ next = desk) held desk := by
  refine tells_aside (every_mono every ?_)
  rintro site update ⟨elsewhere, neutral⟩
  refine ⟨elsewhere, fun past mem hands desks _ ok _ _ _ => ?_⟩
  exact ok.neutral neutral ok.works ok.answers

/-- A load in the middle of work, with what is learnt from it. -/
theorem knows_load {cell : Ref Memory Value} (learns : ∀ past mem hands desks, Integrity queue past mem hands desks →
      (hands actor).2 = held → desks actor = desk → ∃ next, next.work.Holds past.2 mem held ∧
        (∀ entry ∈ next.answers, Finished past.2 entry.1.slotIdx entry.1.seq entry.2) ∧
        goal (cell.get mem) held next) : Knows queue who actor (load .field cell) goal held desk := by
  apply tells_act (does_elsewhere (every_load cell) fun _ => (rfl : held = held))
  rintro past mem hands desks _ _ ok mine noted _ rfl
  obtain ⟨next, holds, answers, reached⟩ := learns past mem hands desks ok (by rw [mine]) noted
  have neutral : Neutral .field (id : Memory → Memory) :=
    covers_neutral.field id fun _ _ => ⟨rfl, rfl, rfl, rfl⟩
  exact ⟨next, ok.learn neutral holds answers, reached⟩

end

section

theorem admits_aside : Admits fun site update => Elsewhere site update ∧ Neutral site update :=
  admits_both admits_elsewhere covers_neutral.admits

/-- A field of a slot other than its state, its sequence number and its result. -/
theorem aside_store (idx : Nat) {get : TaskSlot → Value} {set : Value → TaskSlot → TaskSlot} (val : Value)
    (keeps : ∀ val slot, (set val slot).state = slot.state ∧ (set val slot).seq = slot.seq ∧
      (set val slot).result = slot.result) :
    (store .field ((slotRef idx).field get set) val : Code Unit).Every fun site update =>
      Elsewhere site update ∧ Neutral site update := by
  have ne : Elsewhere .field (((slotRef idx).field get set).set val) :=
    apart_slotField idx (fun val slot => (keeps val slot).1) val
  refine ⟨⟨ne, fun mem slot => (ne.2 mem).2.2 slot, by simp, by simp, fun mem slot => ?_⟩,
    fun _ => trivial⟩
  by_cases same : slot = idx
  · subst same
    simpa [slotRef, Ref.field] using (keeps val (mem.slot slot)).2
  · simp [slotRef, Ref.field, same]

end

section

variable {val : Value}

theorem seqOf_set_seq (val : Nat) (mem : Memory) : (((seqOf slot).set val mem).slot slot).seq = val := by
  simp [seqOf, slotRef, Ref.field]

theorem resultOf_set_result (val : ChunkDesc) (mem : Memory) :
    (((resultOf slot).set val mem).slot slot).result = val := by
  simp [resultOf, slotRef, Ref.field]

theorem resultOf_set_seq (val : ChunkDesc) (mem : Memory) (entry : Nat) :
    (((resultOf slot).set val mem).slot entry).seq = (mem.slot entry).seq := by
  by_cases same : entry = slot
  · subst same
    simp [resultOf, slotRef, Ref.field]
  · simp [resultOf, slotRef, Ref.field, same]

/-- A write to a field of the slot in hand, under a `seq` no one has completed. -/
theorem knows_rewrite (ne : Apart cell) (taken : held.slots slot = some mode) (plain : ¬ mode.allows .done)
    (others : ∀ mem entry, entry ≠ slot → ((cell.set val mem).slot entry).seq = (mem.slot entry).seq ∧
      ((cell.set val mem).slot entry).result = (mem.slot entry).result) (answers : next.answers = desk.answers)
    (step : ∀ past mem hands desks, Integrity queue past mem hands desks →
      slot < queue.capacity → mode.allows (mem.slot slot).state →
      desk.work.Holds past.2 mem held → SameTask queue actor (who, .field) mem past →
      (mem.slot slot).seq ≤ ((cell.set val mem).slot slot).seq ∧
        Unfinished past.2 slot ((cell.set val mem).slot slot).seq ∧ next.work.Holds past.2 (cell.set val mem) held) :
    Knows queue who actor (store .field cell val) (fun _ kept new => kept = held ∧ new = next) held desk := by
  apply tells_act (does_elsewhere (every_store ne val) fun _ => (rfl : held = held))
  rintro past mem hands desks _ owned ok mine noted may rfl
  have here : (hands actor).2.slots slot = some mode := by rw [mine, taken]
  have alone : ∀ other, other ≠ actor → (hands other).2.slots slot = none :=
    fun other different => alone_of_inv owned (by simp [here]) different
  obtain ⟨known, st⟩ := state_of_inv owned here
  have holds := ok.works actor
  rw [noted, mine] at holds
  obtain ⟨grows, older, own⟩ := step past mem hands desks ok known st holds may
  refine ⟨next, ?_, rfl, rfl⟩
  refine ok.rewrite alone ((ne val).2 mem).2.2 ?_ (others mem) grows older own ?_
  · exact fun done => plain (done ▸ st)
  · rw [answers, noted]

/-- A field of a slot other than its state, its sequence number and its result. -/
theorem knows_field {get : TaskSlot → Value} {set : Value → TaskSlot → TaskSlot}
    (keeps : ∀ val slot, (set val slot).state = slot.state ∧ (set val slot).seq = slot.seq ∧
      (set val slot).result = slot.result) (later : Knows queue who actor (rest ()) post held desk) :
    Knows queue who actor (store .field ((slotRef slot).field get set) val >>= rest) post held desk := by
  apply tells_then (knows_aside (aside_store slot val keeps))
  rintro _ _ _ ⟨rfl, rfl⟩
  exact later

/-- The new sequence number: above every one that was completed. -/
theorem knows_renew (work : desk.work = .loaded slot seq) (reserved : held.slots slot = some .reserved) :
    Knows queue who actor (store .field (seqOf slot) ((seq + 1) % 2 ^ 64))
      (fun _ kept next => kept = held ∧ next = ⟨.fresh slot, desk.answers⟩) held desk := by
  refine knows_rewrite (apart_seqOf slot) reserved (by simp [Mode.allows]) ?_ rfl ?_
  · intro mem entry ne
    simp [seqOf, slotRef, Ref.field, ne]
  intro past mem hands desks ok known _ holds may
  rw [work] at holds
  have now : (mem.slot slot).seq = seq := holds.2
  have small := may.2.1 slot known
  rw [now] at small
  have older : Unfinished past.2 slot (seq + 1) := by
    intro worker task res in_ same
    have bound := (ok.stored worker task res in_).1
    rw [same, now] at bound
    omega
  have renewed : (((seqOf slot).set ((seq + 1) % 2 ^ 64) mem).slot slot).seq = seq + 1 := by
    rw [seqOf_set_seq, Nat.mod_eq_of_lt small]
  refine ⟨by omega, ?_, reserved, ?_⟩
  · rw [renewed]
    exact older
  · rw [renewed]
    exact older

/-- The result of a fresh slot. -/
theorem knows_clear (work : desk.work = .fresh slot) (reserved : held.slots slot = some .reserved)
    (res : ChunkDesc) :
    Knows queue who actor (store .field (resultOf slot) res)
      (fun _ kept next => kept = held ∧ next = desk) held desk := by
  refine knows_rewrite (apart_resultOf slot) reserved (by simp [Mode.allows]) ?_ rfl ?_
  · intro mem entry ne
    simp [resultOf, slotRef, Ref.field, ne]
  intro past mem hands desks ok known _ holds _
  rw [work] at holds ⊢
  simp only [resultOf_set_seq, Work.Holds]
  exact ⟨le_rfl, holds.2, holds⟩

/-- The result of a task being completed. -/
theorem knows_result (work : desk.work = .completing task)
    (taken : held.slots task.idx = some .completing) (res : ChunkDesc) :
    Knows queue who actor (store .field (resultOf task.idx) res)
      (fun _ kept next => kept = held ∧ next = ⟨.written task res, desk.answers⟩) held desk := by
  refine knows_rewrite (apart_resultOf task.idx) taken (by simp [Mode.allows]) ?_ rfl ?_
  · intro mem entry ne
    simp [resultOf, slotRef, Ref.field, ne]
  intro past mem hands desks ok known st holds _
  rw [work] at holds
  simp only [resultOf_set_seq, resultOf_set_result, Work.Holds]
  exact ⟨le_rfl, ok.active _ known (.inr (.inr st)), taken, holds.2, trivial⟩

/-- The publication of a fresh slot. -/
theorem knows_publish (work : desk.work = .fresh slot) (reserved : held.slots slot = some .reserved) :
    Knows queue who actor (store (.publish slot) (stateOf slot) .queued)
      (fun _ kept next => kept = held.set slot (some .live) ∧ next = ⟨.nothing, desk.answers⟩) held desk := by
  have does : Does queue actor
      (store (.publish slot) (stateOf slot) .queued : Code Unit)
      (fun _ kept => kept = held.set slot (some .live)) held := does_publish reserved rfl
  apply tells_act does
  rintro past mem hands desks _ _ ok mine noted _ rfl
  have holds := ok.works actor
  rw [noted, work] at holds
  exact ⟨⟨.nothing, desk.answers⟩, ok.publish holds.2 rfl (by rw [noted]), rfl, rfl⟩

/-- The store of `DONE`, logged with the task and its result. -/
theorem knows_finish (work : desk.work = .written task res) (taken : held.slots task.idx = some .completing) :
    Knows queue (.finisher task (.complete res)) actor (store (.finish task.idx) (stateOf task.idx) .done)
      (fun _ kept next => kept = held.set task.idx (some .spent) ∧ next = ⟨.nothing, desk.answers⟩) held desk := by
  have does : Does queue actor
      (store (.finish task.idx) (stateOf task.idx) .done : Code Unit)
      (fun _ kept => kept = held.set task.idx (some .spent)) held :=
    does_storeState .spent rfl (fun _ _ _ => rfl) taken (by simp) (by simp [Mode.allows])
      (fun _ _ => rfl) rfl
  apply tells_act does
  rintro past mem hands desks _ owned ok mine noted _ rfl
  have holds := ok.works actor
  rw [noted, work] at holds
  have alone : ∀ other, other ≠ actor → (hands other).2.slots task.idx = none :=
    fun other ne => alone_of_inv owned (by simp [holds.1]) ne
  exact ⟨⟨.nothing, desk.answers⟩, ok.finish alone holds.2.1 holds.2.2 rfl (by rw [noted]), rfl, rfl⟩

end

section

variable {queue : Queue} {who : Role} {actor : Nat} {answers : List (TaskHandle × ChunkDesc)}

theorem knows_writeFields (req : ChunkDesc) (due : Nat) (reserved : held.slots slot = some .reserved) :
    Knows queue who actor (writeFields slot req due)
      (fun _ kept next => kept = held ∧ next = ⟨.fresh slot, answers⟩) held ⟨.nothing, answers⟩ := by
  apply tells_bind
  apply knows_load
  intro past mem hands desks ok mine noted
  refine ⟨⟨.loaded slot (mem.slot slot).seq, answers⟩, ⟨reserved, rfl⟩, ?_, ?_⟩
  · have known := ok.answers actor
    rwa [noted] at known
  apply tells_then (knows_renew rfl reserved)
  rintro _ _ _ ⟨rfl, rfl⟩
  refine knows_field ?_ (knows_field ?_ (knows_field ?_ (knows_field ?_ (knows_field ?_ ?_))))
  iterate 5 exact fun _ _ => ⟨rfl, rfl, rfl⟩
  apply tells_then (knows_clear rfl reserved _)
  rintro _ _ _ ⟨rfl, rfl⟩
  exact tells_ret ⟨rfl, rfl⟩

theorem knows_publishQueued (shard : Fin shards) :
    Knows queue who actor (publishQueued shard slot) (fun _ kept next => kept = .nothing ∧ next = ⟨.nothing, answers⟩)
      (Held.nothing.set slot (some .reserved)) ⟨.fresh slot, answers⟩ := by
  apply tells_then (knows_publish rfl (by simp))
  rintro _ _ _ ⟨rfl, rfl⟩
  have does : Does queue actor (pushShard (.ready shard) slot)
      (fun _ kept => kept = .nothing) ((Held.nothing.set slot (some .reserved)).set slot (some .live)) := by
    apply does_pushShard
    · simp [Shard.mode]
    · rw [Held.set_set, Held.set_set, nothing_set_none]
  exact knows_beside does (covers_neutral.pushShard _ _) rfl

/-- The post of a call that leaves its actor with empty hands and no answer. -/
abbrev Leaves (queue : Queue) (who : Role) (actor : Nat) (answers : List (TaskHandle × ChunkDesc))
    {Value : Type} (code : Code Value) : Prop :=
  Restores (follows_matched queue) (Integrity queue) who actor ⟨.nothing, answers⟩ code

theorem leaves_of_returns (returns : Returns queue actor code)
    (every : code.Every Neutral) : Leaves queue who actor answers code :=
  knows_beside returns every rfl

theorem leaves_submitInner (req : ChunkDesc) (due : Nat) (input : Option LeaseBinding) :
    Leaves queue who actor answers (submitInner queue req due input) := by
  have reserves : Does queue actor (reserveSubmitSlot queue) (Reserved queue) .nothing :=
    does_reserveSubmitSlot rfl fun _ known => ⟨known, rfl⟩
  exact tells_submitInner admits_aside knows_aside (fun _ => ⟨.nothing, answers⟩) (fun _ => rfl)
    (knows_beside reserves (covers_neutral.reserveSubmitSlot queue) rfl)
    (fun slot => knows_writeFields req due (by simp)) (fun shard _ _ => knows_publishQueued shard) input

end

section

/-- An exchange out of `CLAIMED`, with what its winner knows. -/
theorem knows_elect {work : Work} (kind : site = .complete slot ∨ site = .requeue slot ∨ site = .fail slot)
    (known : slot < queue.capacity) (may : mode.allows new)
    (proper : new ≠ .queued ∧ new ≠ .cancelled ∧ new ≠ .claimed)
    (neutral : Neutral site (exchanged slot .claimed new))
    (learns : ∀ past mem hands desks, Integrity queue past mem hands desks →
      (mem.slot slot).state = .claimed → SameTask queue actor (who, site) mem past →
      work.Holds past.2 mem (Held.nothing.set slot (some mode))) :
    Knows queue who actor (compareExchange site (stateOf slot) .claimed new) (fun got kept next => if got = none
        then kept = Held.nothing.set slot (some mode) ∧ next = ⟨work, answers⟩
        else kept = .nothing ∧ next = ⟨.nothing, answers⟩) .nothing ⟨.nothing, answers⟩ := by
  have does : Does queue actor
      (compareExchange site (stateOf slot) .claimed new : Code _)
      (fun got kept => if got = none then kept = Held.nothing.set slot (some mode)
        else kept = .nothing) .nothing :=
    does_elect mode kind known may proper (fun _ => by simp) (fun _ => by simp)
  apply tells_act does
  intro past mem hands desks kept _ ok mine noted permitted after
  have old : ∀ entry ∈ answers, Finished past.2 entry.1.slotIdx entry.1.seq entry.2 := by
    have known := ok.answers actor
    rwa [noted] at known
  show ∃ next, Integrity queue ((matched queue).track actor (who, site) mem
    (exchanged slot .claimed new mem) past) (exchanged slot .claimed new mem) _ _ ∧ _
  by_cases claimed : (stateOf slot).get mem = .claimed
  · rw [if_pos claimed, if_pos rfl] at after
    subst after
    refine ⟨⟨work, answers⟩, ok.learn neutral ?_ old, ?_⟩
    · exact learns past mem hands desks ok claimed permitted
    · rw [if_pos claimed, if_pos rfl]
      exact ⟨rfl, rfl⟩
  · rw [if_neg claimed, if_neg (by simp)] at after
    subst after
    refine ⟨⟨.nothing, answers⟩, ok.learn neutral trivial old, ?_⟩
    rw [if_neg claimed, if_neg (by simp)]
    exact ⟨rfl, rfl⟩

/-- The exchange of a `complete`: won, it is won on the task of the call. -/
theorem knows_beginComplete (task : ClaimedTask) (verdict : Verdict) (known : task.idx < queue.capacity) :
    Knows queue (.finisher task verdict) actor
      (compareExchange (.complete task.idx) (stateOf task.idx) .claimed .completing)
      (fun got kept next => if got = none
        then kept = Held.nothing.set task.idx (some .completing) ∧ next = ⟨.completing task, answers⟩
        else kept = .nothing ∧ next = ⟨.nothing, answers⟩) .nothing ⟨.nothing, answers⟩ := by
  have may : Mode.allows .completing .completing := rfl
  apply knows_elect (.inl rfl) known may (by simp) (covers_neutral.complete _)
  intro past mem hands desks _ claimed may
  exact ⟨by simp, may.2.2 claimed⟩

theorem leaves_giveBack {rest : Code Value} (every : ∀ {kind : Kind}, Admits kind → rest.Every kind) :
    Knows queue who actor (pushFree slot >>= fun _ => rest)
      (fun _ kept next => kept = .nothing ∧ next = ⟨.nothing, answers⟩)
      (Held.nothing.set slot (some .spent)) ⟨.nothing, answers⟩ :=
  knows_beside (does_giveBack (every admits_elsewhere))
    (every_bind (covers_neutral.pushFree _) fun _ => every covers_neutral.admits) rfl

theorem leaves_complete (task : ClaimedTask) (res : ChunkDesc) (known : task.idx < queue.capacity) :
    Leaves queue (.finisher task (.complete res)) actor answers (complete task.idx task.seq res) := by
  apply tells_then (knows_aside (admits_aside.load _))
  rintro seq _ _ ⟨rfl, rfl⟩
  split
  · exact tells_ret ⟨rfl, rfl⟩
  apply tells_bind
  apply tells_then (knows_beginComplete task _ known)
  intro got kept next out
  cases got with
  | some st =>
    obtain ⟨rfl, rfl⟩ := out
    exact tells_ret (tells_ret ⟨rfl, rfl⟩)
  | none =>
    obtain ⟨rfl, rfl⟩ := out
    apply tells_ret
    apply tells_then (knows_result rfl (by simp) res)
    rintro _ _ _ ⟨rfl, rfl⟩
    apply tells_then (knows_finish rfl (by simp))
    rintro _ _ _ ⟨rfl, rfl⟩
    rw [Held.set_set]
    exact leaves_giveBack fun admits => every_bind (admits.load _) fun _ => trivial

theorem leaves_settle (task : ClaimedTask) (verdict : Verdict) (known : task.idx < queue.capacity) :
    Leaves queue (.finisher task verdict) actor answers (settle task verdict) := by
  cases verdict with
  | drop => exact tells_ret ⟨rfl, rfl⟩
  | complete res =>
    exact tells_then (leaves_complete task res known) fun _ _ _ new => tells_ret new
  | fail =>
    exact tells_then (leaves_of_returns (does_fail _ _ known) (covers_neutral.failTask _ _))
      fun _ _ _ new => tells_ret new

/-- The exchange of a reaper that requeues: the slot it wins was active. -/
theorem knows_beginRequeue (slot : Nat) (known : slot < queue.capacity) :
    Knows queue who actor (compareExchange (.requeue slot) (stateOf slot) .claimed .reserved)
      (fun got kept next => if got = none
        then kept = Held.nothing.set slot (some .reserved) ∧ next = ⟨.fresh slot, answers⟩
        else kept = .nothing ∧ next = ⟨.nothing, answers⟩) .nothing ⟨.nothing, answers⟩ := by
  have may : Mode.allows .reserved .reserved := rfl
  apply knows_elect (.inr (.inl rfl)) known may (by simp) (covers_neutral.requeue _)
  intro past mem hands desks ok claimed _
  exact ⟨by simp, ok.active slot known (.inr (.inl claimed))⟩

theorem leaves_reapLapsed (idx : Nat) (report : ReapReport) (known : idx < queue.capacity) :
    Leaves queue who actor answers (reapLapsed queue idx report) := by
  apply tells_then (knows_aside (admits_aside.load _))
  rintro retry _ _ ⟨rfl, rfl⟩
  split
  · have failed : Does queue actor (tryFail idx)
        (fun won kept => kept = if won then Held.nothing.set idx (some .spent) else .nothing) .nothing := by
      apply does_bind
      apply does_elect .spent (.inr (.inr rfl)) known (by simp [Mode.allows]) (by simp)
      · exact fun _ => does_ret rfl
      · exact fun _ => does_ret rfl
    have neutral : (tryFail idx).Every Neutral :=
      every_bind (Drains.exchange (covers_neutral.fail idx)) fun _ => trivial
    apply tells_then (knows_beside failed neutral rfl)
    rintro won _ _ ⟨rfl, rfl⟩
    cases won with
    | true => exact leaves_giveBack fun _ => trivial
    | false => exact tells_ret ⟨rfl, rfl⟩
  · apply tells_bind
    apply tells_then (knows_beginRequeue idx known)
    intro got kept next out
    cases got with
    | some st =>
      obtain ⟨rfl, rfl⟩ := out
      exact tells_ret (tells_ret ⟨rfl, rfl⟩)
    | none =>
      obtain ⟨rfl, rfl⟩ := out
      apply tells_ret
      refine knows_field ?_ (knows_field ?_ ?_)
      · exact fun _ _ => ⟨rfl, rfl, rfl⟩
      · exact fun _ _ => ⟨rfl, rfl, rfl⟩
      apply tells_then (knows_publishQueued _)
      rintro _ _ _ ⟨rfl, rfl⟩
      exact tells_ret ⟨rfl, rfl⟩

theorem leaves_reapSlots (now : Nat) (slots : List Nat) (report : ReapReport)
    (known : ∀ idx ∈ slots, idx < queue.capacity) :
    Leaves queue who actor answers (reapSlots queue now slots report) := by
  induction slots generalizing report with
  | nil => exact tells_ret ⟨rfl, rfl⟩
  | cons idx rest ih =>
    have later := fun report => ih report fun entry in_ =>
      known entry (List.mem_cons_of_mem idx in_)
    apply tells_then (knows_aside (admits_aside.load _))
    rintro st _ _ ⟨rfl, rfl⟩
    split
    · exact later report
    apply tells_then (knows_aside (admits_aside.load _))
    rintro due _ _ ⟨rfl, rfl⟩
    split
    · exact later report
    apply tells_then (leaves_reapLapsed idx report (known idx List.mem_cons_self))
    rintro report _ _ ⟨rfl, rfl⟩
    exact later report

theorem leaves_reap (now : Nat) : Leaves queue who actor answers (reap queue now) := by
  apply tells_then (leaves_reapSlots now _ _ fun _ => List.mem_range.mp)
  rintro report _ _ ⟨rfl, rfl⟩
  exact knows_aside (every_reapTail admits_aside report)

end

section

/-- What a poll adds to the answers. -/
def answerOf (handle : TaskHandle) : Except QueueError TaskStatus → List (TaskHandle × ChunkDesc)
  | .ok (.done result) => [(handle, result)]
  | _ => []

theorem knows_pollResult (handle : TaskHandle) :
    Knows queue who actor (pollResult handle)
      (fun out kept next => kept = .nothing ∧ next = ⟨.nothing, answerOf handle out ++ answers⟩)
      .nothing ⟨.seen handle, answers⟩ := by
  apply tells_bind
  apply knows_load
  intro past mem hands desks ok mine noted
  have seen := ok.works actor
  have old := ok.answers actor
  rw [noted] at seen old
  generalize now : (mem.slot handle.slotIdx).result = got
  refine ⟨⟨.read handle got, answers⟩, ?_, old, ?_⟩
  · rcases seen with ⟨res, worker, task, in_, slot, seq⟩ | newer
    · obtain ⟨below, written⟩ := ok.stored worker task res in_
      rw [slot, seq] at below written
      rcases Nat.lt_or_eq_of_le below with newer | eq
      · exact .inr newer
      · rw [← written eq, now] at in_
        exact .inl ⟨worker, task, in_, slot, seq⟩
    · exact .inr newer
  rw [show (resultOf handle.slotIdx).get mem = got from now]
  apply tells_bind
  apply knows_load
  intro past mem hands desks ok mine noted
  have read := ok.works actor
  have old := ok.answers actor
  rw [noted] at read old
  by_cases same : (seqOf handle.slotIdx).get mem = handle.seq
  · refine ⟨⟨.nothing, (handle, got) :: answers⟩, trivial, ?_, ?_⟩
    · rintro entry in_
      rcases List.mem_cons.mp in_ with rfl | older
      · exact read.resolve_right fun newer => Nat.lt_irrefl _ (same ▸ newer)
      · exact old entry older
    · rw [if_neg (by simpa using same)]
      exact tells_ret ⟨rfl, rfl⟩
  · refine ⟨⟨.nothing, answers⟩, trivial, old, ?_⟩
    rw [if_pos same]
    exact tells_ret ⟨rfl, rfl⟩

/-- Whatever a poll returns as `Done` was stored for the task of its handle. -/
theorem knows_poll (handle : TaskHandle) :
    Knows queue who actor (poll queue handle)
      (fun out kept next => kept = .nothing ∧ next = ⟨.nothing, answerOf handle out ++ answers⟩)
      .nothing ⟨.nothing, answers⟩ := by
  unfold poll
  split
  · exact tells_ret ⟨rfl, rfl⟩
  rename_i inRange
  apply tells_bind
  apply knows_load
  intro past mem hands desks ok mine noted
  have old := ok.answers actor
  rw [noted] at old
  by_cases same : (seqOf handle.slotIdx).get mem = handle.seq
  · refine ⟨⟨.checked handle, answers⟩, same.ge, old, ?_⟩
    rw [if_neg (by simpa using same)]
    apply tells_bind
    apply knows_load
    intro past mem hands desks ok mine noted
    have checked := ok.works actor
    have old := ok.answers actor
    rw [noted] at checked old
    cases st : (stateOf handle.slotIdx).get mem with
    | done =>
      refine ⟨⟨.seen handle, answers⟩, ?_, old, knows_pollResult handle⟩
      rcases Nat.lt_or_eq_of_le checked with newer | eq
      · exact .inr newer
      · have finished := ok.done handle.slotIdx (by omega) st
        rw [← eq] at finished
        exact .inl ⟨_, finished⟩
    | _ =>
      exact ⟨⟨.nothing, answers⟩, trivial, old, tells_ret ⟨rfl, rfl⟩⟩
  · refine ⟨⟨.nothing, answers⟩, trivial, old, ?_⟩
    rw [if_pos same]
    exact tells_ret ⟨rfl, rfl⟩

end

section

variable {own : List (Call × Answer)}

/-- What an actor's polls have returned as `Done`, newest first. -/
def answersOf : List (Call × Answer) → List (TaskHandle × ChunkDesc)
  | [] => []
  | (.poll handle, .polled outcome) :: own => answerOf handle outcome ++ answersOf own
  | _ :: own => answersOf own

/-- What an actor has between its calls. -/
def between (own : List (Call × Answer)) : Hands × Desk := ((none, .nothing), ⟨.nothing, answersOf own⟩)

theorem wp_plain (wrap : Value → Answer) (leaves : Leaves queue who actor (answersOf own) code)
    (same : ∀ val, answersOf ((op, wrap val) :: own) = answersOf own) :
    (matched queue).wp (Kept queue) actor ((wrap <$> code).label who)
      (fun answer kept => kept = between ((op, answer) :: own)) (between own) := by
  refine wp_wrapped leaves fun val => ?_
  rw [between, same]

theorem wp_call (op : Call) (own : List (Call × Answer)) :
    (matched queue).wp (Kept queue) actor (call queue op)
      (fun answer kept => kept = between ((op, answer) :: own)) (between own) := by
  cases op with
  | work workerId due outputs verdict =>
    refine wp_mono (wp_work admits_aside knows_aside (knows_beside (does_claimInner workerId due)
      (covers_neutral.claimInner workerId stamps_neutral) rfl) fun task known => leaves_settle task _ known) ?_
    rintro _ _ ⟨⟨out, rfl⟩, rfl⟩
    rfl
  | submit req due input => exact wp_plain _ (leaves_submitInner _ _ _) fun _ => rfl
  | cancel handle =>
    exact wp_plain _ (leaves_of_returns (does_cancel handle) (covers_neutral.cancelTask _ _)) fun _ => rfl
  | reap now => exact wp_plain _ (leaves_reap now) fun _ => rfl
  | ack handle =>
    exact wp_plain _ (knows_aside (every_ack admits_aside _)) fun _ => rfl
  | reapBindings now grace =>
    exact wp_plain _ (knows_aside (every_reapBindings admits_aside _ _))
      fun _ => rfl
  | poll handle =>
    show (matched queue).wp (Kept queue) actor ((Answer.polled <$> poll queue handle).label .caller) _ _
    rw [map_eq_pure_bind]
    apply wp_label
    apply wp_then (knows_poll handle)
    rintro out ⟨⟨pending, kept⟩, next⟩ ⟨free, rfl, rfl⟩
    cases free
    rfl

theorem integrity_opening (queue : Queue) : Integrity queue (opening queue).history (opening queue).state
    (fun _ => (none, .nothing)) fun _ => ⟨.nothing, []⟩ where
  stored _ _ _ in_ := by simp [opening] at in_
  done slot _ done := by simp [opening, init] at done
  active slot _ active := by simp [opening, init, Active] at active
  works _ := trivial
  answers _ _ in_ := by simp at in_

theorem mem_answersOf
    (polled : (Call.poll handle, Answer.polled (.ok (.done res))) ∈ own) : (handle, res) ∈ answersOf own := by
  induction own with
  | nil => cases polled
  | cons entry own ih =>
    rcases List.mem_cons.mp polled with rfl | older
    · exact List.mem_cons_self
    · have later := ih older
      obtain ⟨op, answer⟩ := entry
      cases op with
      | poll other =>
        cases answer with
        | polled out => exact List.mem_append_right _ later
        | _ => exact later
      | submit | work | cancel | reap | ack | reapBindings => exact later

end

/-- A poll that returned `Done(result)` for a task: a worker whose claim was of
that slot under that `seq` passed `result` to its `complete`. -/
theorem finished_of_polled {queue : Queue} {config : WorkConfig}
    (reached : (workers queue (SameTask queue)).Reachable (opening queue) config) {actor : Nat}
    {own : List (Call × Answer)} (idle : config.thread actor = .idle own) {handle : TaskHandle}
    {result : ChunkDesc} (polled : (Call.poll handle, Answer.polled (.ok (.done result))) ∈ own) :
    Finished config.history.2 handle.slotIdx handle.seq result := by
  have start : (matched queue).Safe (Kept queue) between (opening queue) := by
    obtain ⟨holdings, owned, threads⟩ := safe_initial queue
    have empty : holdings = fun _ => (none, .nothing) := funext threads
    exact ⟨fun _ => between [], ⟨empty ▸ owned, integrity_opening queue⟩, fun _ => rfl⟩
  obtain ⟨holdings, valid, threads⟩ := Actors.safe_of_reachable
    (fun actor own op _ => wp_call op own) start reached
  have mine : holdings actor = between own := by
    have held := threads actor
    rwa [idle] at held
  apply valid.2.answers actor (handle, result)
  show (handle, result) ∈ (holdings actor).2.answers
  rw [mine]
  exact mem_answersOf polled

section

instance (queue : Queue) (actor : Nat) (site : Role × Site) (memory : Memory) (history : WorkHistory) :
    Decidable (SameTask queue actor site memory history) := by
  have : Decidable ((system queue).actors.allowed actor site.2 memory history.1) := inferInstance
  obtain ⟨who, access⟩ := site
  cases who <;> cases access <;> (dsimp only [SameTask]; infer_instance)

/-- What an actor whose one call was a poll that returned `Done` has learnt. -/
def learnt : Thread Memory (Role × Site) Call (List (Call × Answer)) Answer → Option (TaskHandle × ChunkDesc)
  | .idle [(.poll handle, .polled (.ok (.done result)))] => some (handle, result)
  | _ => none

theorem idle_of_learnt (learnt : learnt thread = some (handle, res)) :
    thread = .idle [(.poll handle, .polled (.ok (.done res)))] := by
  unfold Task.learnt at learnt
  split at learnt
  · cases learnt
    rfl
  · cases learnt

/-- Worker 1 claims the first task and its lease lapses after `steps` of its
steps; worker 3 completes that task, and worker 4 claims the next one. -/
def recycled (steps : Nat) : List (Stretch Call) :=
  [.begin 0 (.submit .zero 5 none), .run 0 60 1, .begin 1 (completing 77), .run 1 steps 1,
    .begin 2 (.reap 100), .run 2 60 1, .begin 3 (completing 99), .run 3 60 1,
    .begin 0 (.submit .zero 500 none), .run 0 60 1, .begin 4 (completing 55), .run 4 13 1]

/-- Worker 1 has checked the sequence number when its slot is recycled: it
completes the next task, and the poll of that task returns its result. -/
def crossed : List (Stretch Call) :=
  recycled 14 ++ [.run 1 60 1, .begin 5 (.poll ⟨0, 2⟩), .run 5 20 1]

theorem crossed_not_finished : ∃ config, (anyWorkers single).Reachable (opening single) config ∧
    ∃ actor own handle result, config.thread actor = .idle own ∧
      (Call.poll handle, Answer.polled (.ok (.done result))) ∈ own ∧
      ¬ Finished config.history.2 handle.slotIdx handle.seq result := by
  refine ⟨(anyWorkers single).follow crossed (opening single), reachable_follow crossed .refl,
    5, [(.poll ⟨0, 2⟩, .polled (.ok (.done ⟨0, 0, 77, 0, 0⟩)))], ⟨0, 2⟩, ⟨0, 0, 77, 0, 0⟩, ?_,
    List.mem_cons_self, ?_⟩
  · exact idle_of_learnt (by decide +kernel)
  · have marks : ((anyWorkers single).follow crossed (opening single)).history.2 =
        [.stored 1 ⟨0, 1, 8, .zero⟩ ⟨0, 0, 77, 0, 0⟩, .won 1 ⟨0, 1, 8, .zero⟩, .claimed 4 0,
          .stored 3 ⟨0, 1, 8, .zero⟩ ⟨0, 0, 99, 0, 0⟩, .won 3 ⟨0, 1, 8, .zero⟩, .claimed 3 0,
          .reaped 0, .claimed 1 0] := by decide +kernel
    rw [marks]
    rintro ⟨worker, task, member, -, seq⟩
    simp at member
    rcases member with ⟨-, rfl⟩
    simp at seq

/-- Worker 1 checks the sequence number only after its slot was recycled, and is
refused; the poll returns the result of worker 4. -/
def recheck : List (Stretch Call) :=
  recycled 13 ++ [.run 1 60 1, .run 4 60 1, .begin 5 (.poll ⟨0, 2⟩), .run 5 20 1]

theorem finished_of_recheck :
    ((matched single).follow recheck (opening single)).thread 5 =
      .idle [(.poll ⟨0, 2⟩, .polled (.ok (.done ⟨0, 0, 55, 0, 0⟩)))] ∧
    Finished ((matched single).follow recheck (opening single)).history.2 0 2 ⟨0, 0, 55, 0, 0⟩ := by
  have idle : ((matched single).follow recheck (opening single)).thread 5 =
      .idle [(.poll ⟨0, 2⟩, .polled (.ok (.done ⟨0, 0, 55, 0, 0⟩)))] :=
    idle_of_learnt (by decide +kernel)
  have reached : (workers single (SameTask single)).Reachable (opening single)
      ((matched single).follow recheck (opening single)) := reachable_follow recheck .refl
  have finished := finished_of_polled reached idle List.mem_cons_self
  exact ⟨idle, finished⟩

end

end ShmActors.Task
