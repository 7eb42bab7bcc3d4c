import ShmActors.Task.Deeds

/-! The calls of workers, requesters and the reaper are made of deeds, so what
every deed keeps holds in every state of every run. -/

namespace ShmActors.Task

open Lib Core Program Actors

section

variable {History Op Local Result : Type} {queue : Queue} {may : Nat → Call → Prop}
  {actors : Actors Memory (Stage × Site) History Op Local Result} {view : History → Tags Shard × List Event}
  {extra : History → Memory → (Nat → Doing) → Prop} {follows : Follows queue actors view}
  (keeps : KeepsDeeds queue may actors view extra) {who slot : Nat}

section

variable {lease : Option Nat}

/-- What a sweep for a task leaves: nothing, or a claim whose lease is to be stored. -/
def Claims (queue : Queue) (lease : Option Nat) (found : Option Nat) (held : Held) (doing : Doing) : Prop :=
  held = .nothing ∧ match found with
    | none => doing = .nothing
    | some slot => slot < queue.capacity ∧ doing = .claiming slot lease

include keeps

theorem minds_tryClaim (worker : MayWork (may who) lease) :
    Minds follows extra (.lease lease) who (tryClaim slot) (fun won kept next => if won
        then kept = .nothing ∧ next = .claiming slot lease
        else kept = (Held.nothing.set slot (some .spent)).owing true ∧ next = .nothing)
      (Held.nothing.set slot (some .live)) .nothing := by
  have live : (Held.nothing.set slot (some .live)).slots slot = some .live := by simp
  have does : Does queue who (tryClaim slot) (fun won kept => if won
      then kept = .nothing else kept = (Held.nothing.set slot (some .spent)).owing true)
      (Held.nothing.set slot (some .live)) := by
    apply does_tryClaim live rfl
    · rw [Held.set_set, nothing_set_none]
      rfl
    · rw [Held.set_set]
      rfl
  refine minds_deed keeps does ?_
  intro mem kept _ new
  refine ⟨_, .claim worker live, ?_⟩
  have free : (Doing.claiming slot lease).hold = none := by cases lease <;> rfl
  by_cases got : (stateOf slot).get mem = .queued
  · rw [if_pos got] at new ⊢
    rw [if_pos (show (mem.slot slot).state = .queued from got)]
    exact ⟨Doing.backed_of_free free, new, rfl⟩
  · rw [if_neg got] at new ⊢
    rw [if_neg (show ¬ (mem.slot slot).state = .queued from got)]
    exact ⟨Doing.backed_of_free rfl, new, rfl⟩

theorem minds_claimPop (shard : Fin shards) (worker : MayWork (may who) lease) :
    Minds follows extra (.lease lease) who (claimPop shard) (Claims queue lease) .nothing .nothing := by
  have popped : Does queue who (popShard (.ready shard)) (fun got kept =>
      match got with
      | none => kept = .nothing
      | some slot => slot < queue.capacity ∧ kept = Held.nothing.set slot (some .live)) .nothing :=
    does_popShard _ rfl fun slot known _ => ⟨known, rfl⟩
  apply tells_repeatLoop
  apply tells_then (minds_calm keeps rfl popped (stacked_untouched.popShard _) rfl)
  rintro got kept _ ⟨holds, rfl⟩
  cases got with
  | none => exact tells_ret ⟨holds, rfl⟩
  | some slot =>
    obtain ⟨known, rfl⟩ := holds
    apply tells_then (minds_tryClaim keeps worker)
    intro won kept next new
    cases won with
    | true =>
      obtain ⟨rfl, rfl⟩ := new
      exact tells_ret ⟨rfl, known, rfl⟩
    | false =>
      obtain ⟨rfl, rfl⟩ := new
      have pushed : Does queue who (pushShard (.free shard) slot)
          (fun _ kept => kept = Held.nothing.owing true) ((Held.nothing.set slot (some .spent)).owing true) := by
        apply does_pushShard
        · simp [Shard.mode]
        · rw [Held.set_owing, Held.set_set, nothing_set_none]
      apply tells_then (minds_calm keeps rfl pushed (stacked_untouched.pushShard _ _) rfl)
      rintro _ _ _ ⟨rfl, rfl⟩
      apply tells_then (minds_uncount keeps rfl rfl)
      rintro _ _ _ ⟨rfl, rfl⟩
      exact tells_ret ⟨rfl, rfl⟩

theorem says_claimInner (workerId : Nat) (worker : MayWork (may who) lease) :
    Says follows extra who (Staged.claimInner workerId lease)
      (fun got kept next => (∀ task, got = some task → task.idx < queue.capacity) ∧ kept = .nothing ∧
        next = .nothing) .nothing .nothing := by
  have swept : Minds follows extra (.lease lease) who (firstOf claimPop (claimOrder workerId))
      (Claims queue lease) .nothing .nothing :=
    tells_firstOf (fun shard => minds_claimPop keeps shard worker) (fun _ _ missed => missed) ⟨rfl, rfl⟩ _
  apply says_then (says_label swept)
  rintro got kept next ⟨rfl, new⟩
  cases got with
  | none => exact says_ret ⟨by simp, rfl, new⟩
  | some slot =>
    obtain ⟨known, rfl⟩ := new
    have fields : Says follows extra who (do
        let seq ← load (.plain, .field) (seqOf slot)
        let req ← load (.plain, .field) (requestOf slot)
        return some ⟨slot, seq, workerId, req⟩ : Steps (Option ClaimedTask))
        (fun got kept next => (∀ task, got = some task → task.idx < queue.capacity) ∧ kept = .nothing ∧
          next = .nothing) .nothing .nothing := by
      apply says_past keeps (passing_load _)
      intro seq
      apply says_past keeps (passing_load _)
      intro req
      exact says_ret ⟨by rintro _ ⟨⟩; exact known, rfl, rfl⟩
    apply says_past keeps (passing_ownerOf slot _)
    intro _
    cases lease with
    | none => exact fields
    | some due =>
      exact says_field keeps (apart_deadlineOf slot) (fun _ => .stamp) (fun _ => Doing.backed_of_free rfl) fields

/-- Hand a slot that is done with to FREE. -/
theorem says_giveBack (every : rest.Every Passing) :
    Says follows extra who ((pushFree slot).label .plain >>= fun _ => rest)
      (fun _ kept next => kept = .nothing ∧ next = .nothing) (Held.nothing.set slot (some .spent)) .nothing := by
  have pushed : Does queue who (pushFree slot) (fun _ kept => kept = .nothing)
      (Held.nothing.set slot (some .spent)) := by
    apply does_pushFree
    · simp
    · rw [Held.set_set, nothing_set_none]
  apply says_then (says_label (minds_calm keeps rfl pushed (stacked_untouched.pushFree _) rfl))
  rintro _ _ _ ⟨rfl, rfl⟩
  exact says_still keeps every

/-- An exchange out of `CLAIMED`, by what its winner and its losers go on to. -/
theorem says_elect {rest : Bool → Steps Value}
    (kind : site = .complete slot ∨ site = .requeue slot ∨ site = .fail slot) (known : slot < queue.capacity)
    (allowed : mode.allows new) (proper : new ≠ .queued ∧ new ≠ .cancelled ∧ new ≠ .claimed)
    (deed : ∀ mem : Memory, Deed queue (may who) .nothing (stage, site) old
      (if (mem.slot slot).state = .claimed then one else .nothing) mem (exchanged slot .claimed new mem))
    (backed : one.Backed (Held.nothing.set slot (some mode)))
    (won : Says follows extra who (rest true) post (Held.nothing.set slot (some mode)) one)
    (lost : Says follows extra who (rest false) post .nothing .nothing) :
    Says follows extra who ((compareExchange site (stateOf slot) .claimed new >>= fun got =>
      return got.isNone : Code Bool).label stage >>= rest) post .nothing old := by
  have does : Does queue who (compareExchange site (stateOf slot) .claimed new : Code _)
      (fun got kept => if got = none then kept = Held.nothing.set slot (some mode) else kept = .nothing)
      .nothing := does_elect mode kind known allowed proper (fun _ => by simp) (fun _ => by simp)
  refine says_bind (says_label (tells_bind (minds_exchange keeps does deed ⟨backed, rfl⟩ ?_ fun _ => ?_)))
  · exact tells_ret won
  · exact tells_ret lost

theorem says_complete (idx seq : Nat) (res : ChunkDesc) (known : idx < queue.capacity) :
    Idles follows extra who (Staged.complete idx seq res) := by
  apply says_past keeps (passing_load _)
  intro now
  split
  · exact says_ret ⟨rfl, rfl⟩
  have completing : Mode.allows .completing .completing := rfl
  refine says_elect keeps (.inl rfl) known completing (by simp) (fun _ => .complete known) (Held.backed_set rfl) ?_
    (says_ret ⟨rfl, rfl⟩)
  have holds : (Held.nothing.set idx (some .completing)).slots idx = some .completing := by simp
  apply says_field keeps (apart_resultOf idx) (fun _ => .answer holds) fun _ => Held.backed_set rfl
  have stored : Does queue who
      (store (.finish idx) (stateOf idx) .done : Code Unit)
      (fun _ kept => kept = Held.nothing.set idx (some .spent)) (Held.nothing.set idx (some .completing)) :=
    does_storeState .spent rfl (fun _ _ _ => rfl) holds (by simp) (by simp [Mode.allows]) (fun _ _ => rfl)
      (Held.set_set _ _ _ _)
  have finished : Minds follows extra .plain who (store (.finish idx) (stateOf idx) .done)
      (fun _ kept next => kept = Held.nothing.set idx (some .spent) ∧ next = .nothing)
      (Held.nothing.set idx (some .completing)) (.answered idx res) := by
    apply minds_deed keeps stored
    rintro mem _ - rfl
    exact ⟨.nothing, .finish holds, Doing.backed_of_free rfl, rfl, rfl⟩
  apply says_then (says_label finished)
  rintro _ _ _ ⟨rfl, rfl⟩
  exact says_giveBack keeps (every_bind (passing_load _) fun _ => trivial)

theorem says_fail (idx seq : Nat) (known : idx < queue.capacity) :
    Idles follows extra who (Staged.fail idx seq) := by
  apply says_past keeps (passing_load _)
  intro now
  split
  · exact says_ret ⟨rfl, rfl⟩
  have failed : Mode.allows .spent .failed := .inr (.inr (.inl rfl))
  refine says_elect keeps (.inr (.inr rfl)) known failed (by simp) (fun mem => ?_) (Doing.backed_of_free rfl)
    (says_giveBack keeps (every_bind (passing_load _) fun _ => trivial)) (says_ret ⟨rfl, rfl⟩)
  rw [ite_self]
  exact .fail known

theorem says_settle (task : ClaimedTask) (verdict : Verdict) (known : task.idx < queue.capacity) :
    Idles follows extra who (Staged.settle task verdict) := by
  cases verdict with
  | drop => exact says_ret ⟨rfl, rfl⟩
  | complete res =>
    exact says_then (says_complete keeps _ _ _ known) fun _ _ _ new => says_ret new
  | fail =>
    exact says_then (says_fail keeps _ _ known) fun _ _ _ new => says_ret new

theorem says_work (workerId : Nat) (lease : Option Nat) (outputs : ClaimedTask → List LeaseBinding)
    (verdict : ClaimedTask → Verdict) (mine : may who (.work workerId lease outputs verdict)) :
    Idles follows extra who (Staged.work workerId lease outputs verdict) := by
  apply says_then (says_claimInner keeps workerId ⟨workerId, outputs, verdict, mine⟩)
  rintro got _ _ ⟨known, rfl, rfl⟩
  cases got with
  | none => exact says_ret ⟨rfl, rfl⟩
  | some task =>
    have bound : (forEach (fun binding => do let _ ← (bindOutput task.idx task.seq binding).label .plain)
        (outputs task) : Steps Unit).Every Passing := by
      apply every_forEach
      intro binding _
      exact every_bind (Staged.every_plain (every_bindOutput admits_passing _ _ _)) fun _ => trivial
    apply says_past keeps bound
    intro _
    exact says_then (says_settle keeps task _ (known task rfl)) fun _ _ _ new => says_ret new

end

section

theorem passing_flagClaimed (handle : TaskHandle) : (Staged.flagClaimed handle).Every Passing := by
  have loaded {Value : Type} {stage : Stage} (calm : stage.calm = true) (cell : Ref Memory Value) :
      (load (stage, .field) cell : Steps Value).Every Passing :=
    ⟨⟨calm, admits_untouched id fun _ => ⟨rfl, rfl, rfl⟩⟩, fun _ => trivial⟩
  refine every_bind (loaded rfl _) fun st => ?_
  split
  · refine every_bind (loaded rfl _) fun seq => ?_
    split
    · exact ⟨⟨rfl, (passing_cancelOf handle.slotIdx 1).1.2⟩, fun _ => trivial⟩
    · trivial
  · trivial

include keeps

theorem says_cancel (handle : TaskHandle) : Idles follows extra who (Staged.cancel queue handle) := by
  unfold Idles Staged.cancel
  split
  · exact says_ret ⟨rfl, rfl⟩
  rename_i inRange
  have checked : (load (.check handle, .field) (seqOf handle.slotIdx) : Steps Nat).Every Passing :=
    ⟨⟨rfl, admits_untouched id fun _ => ⟨rfl, rfl, rfl⟩⟩, fun _ => trivial⟩
  apply says_past keeps checked
  intro seq
  split
  · exact says_ret ⟨rfl, rfl⟩
  have counted : Minds follows extra (.cancel handle) who countCancelled
      (fun _ kept next => kept = Held.nothing.owing true ∧ next = .nothing) .nothing .nothing := by
    have does : Does queue who countCancelled
        (fun _ kept => kept = Held.nothing.owing true) .nothing := does_countCancelled rfl fun _ => rfl
    apply minds_deed keeps does
    rintro mem _ - rfl
    exact ⟨.nothing, .aside rfl rfl fun _ => .refl _, Doing.backed_of_free rfl, rfl, rfl⟩
  apply says_then (says_label counted)
  rintro _ _ _ ⟨rfl, rfl⟩
  have withdrawn : Minds follows extra (.withdraw handle) who (tryCancelQueued handle.slotIdx)
      (fun won kept next => kept = Held.nothing.owing (!won) ∧ next = .nothing) (Held.nothing.owing true)
      .nothing := by
    have does : Does queue who (tryCancelQueued handle.slotIdx)
        (fun won kept => kept = Held.nothing.owing (!won)) (Held.nothing.owing true) :=
      does_tryCancelQueued (by omega) rfl rfl rfl
    refine minds_deed keeps does ?_
    rintro mem _ - rfl
    exact ⟨.nothing, .cancel (by omega), Doing.backed_of_free rfl, rfl, rfl⟩
  apply says_then (says_label withdrawn)
  rintro won _ _ ⟨rfl, rfl⟩
  cases won with
  | true =>
    have hinted : (load (.cancel handle, .field) waitersDoneRef : Steps Nat).Every Passing :=
      ⟨⟨rfl, admits_untouched id fun _ => ⟨rfl, rfl, rfl⟩⟩, fun _ => trivial⟩
    exact says_past keeps hinted fun _ => says_ret ⟨rfl, rfl⟩
  | false =>
    apply says_then (says_label (minds_uncount keeps rfl rfl))
    rintro _ _ _ ⟨rfl, rfl⟩
    exact says_past keeps (passing_flagClaimed handle) fun _ => says_ret ⟨rfl, rfl⟩

theorem says_poll (handle : TaskHandle) : Says follows extra who (Staged.poll queue handle)
    (fun out kept next => kept = .nothing ∧
      (next = .replying handle out ∨ next = .nothing ∧ out = .error .staleHandle)) .nothing .nothing := by
  unfold Staged.poll
  split
  · exact says_ret ⟨rfl, .inr ⟨rfl, rfl⟩⟩
  rename_i inRange
  have known : handle.slotIdx < queue.capacity := by omega
  apply says_load keeps
  intro mem
  refine ⟨_, .ask known, fun _ => ?_, ?_⟩
  · split <;> exact Doing.backed_of_free rfl
  by_cases same : (seqOf handle.slotIdx).get mem = handle.seq
  · rw [if_pos (show (mem.slot handle.slotIdx).seq = handle.seq from same), if_neg (by simpa using same)]
    apply says_load keeps
    intro mem
    refine ⟨_, .look known, fun _ => ?_, ?_⟩
    · split <;> exact Doing.backed_of_free rfl
    show Says follows extra who (Staged.pollStatus handle (mem.slot handle.slotIdx).state) _ _ _
    cases (mem.slot handle.slotIdx).state with
    | done =>
      apply says_load keeps
      intro mem
      refine ⟨_, .read, fun _ => Doing.backed_of_free rfl, ?_⟩
      apply says_load keeps
      intro later
      refine ⟨_, .recheck, fun _ => Doing.backed_of_free rfl, ?_⟩
      by_cases same : (seqOf handle.slotIdx).get later = handle.seq
      · rw [if_pos (show (later.slot handle.slotIdx).seq = handle.seq from same), if_neg (by simpa using same)]
        exact says_ret ⟨rfl, .inl rfl⟩
      · rw [if_neg (show ¬ (later.slot handle.slotIdx).seq = handle.seq from same), if_pos same]
        exact says_ret ⟨rfl, .inl rfl⟩
    | _ => exact says_ret ⟨rfl, .inl rfl⟩
  · rw [if_neg (show ¬ (mem.slot handle.slotIdx).seq = handle.seq from same), if_pos same]
    exact says_ret ⟨rfl, .inl rfl⟩

theorem says_reply (handle : TaskHandle) (out : Except QueueError TaskStatus)
    (answers : doing = .replying handle out ∨ doing = .nothing ∧ out = .error .staleHandle) (val : Value) :
    Says follows extra who (Staged.reply handle out >>= fun _ => return val)
      (fun _ kept next => kept = .nothing ∧ next = .nothing) .nothing doing := by
  have one : (.act .field id fun _ => .ret () : Code Unit).Every Elsewhere := ⟨elsewhere_id, fun _ => trivial⟩
  have does : Does queue who (.act .field id fun _ => .ret () : Code Unit)
      (fun _ kept => kept = .nothing) .nothing := does_elsewhere one fun _ => rfl
  apply says_bind
  show Says follows extra who ((.act .field id fun _ => .ret () : Code Unit).label (.reply handle out)) _ _ _
  apply says_label
  apply minds_deed keeps does
  rintro mem _ - rfl
  exact ⟨.nothing, .reply answers, Doing.backed_of_free rfl, says_ret ⟨rfl, rfl⟩⟩

end

section

include keeps

theorem says_reapLapsed (now : Nat) (report : ReapReport) (known : slot < queue.capacity) (lapsed : due < now) :
    Says follows extra who (Staged.reapLapsed queue now slot report)
      (fun _ kept next => kept = .nothing ∧ next = .nothing) .nothing (.dated slot due) := by
  apply says_load keeps
  intro mem
  refine ⟨_, .count, fun _ => Doing.backed_of_free rfl, ?_⟩
  have loaded : (mem.slot slot).retry = (retryOf slot).get mem := rfl
  rw [loaded]
  generalize (retryOf slot).get mem = retry
  split
  · rename_i tried
    have failed : Mode.allows .spent .failed := .inr (.inr (.inl rfl))
    refine says_elect keeps (.inr (.inr rfl)) known failed (by simp) (fun mem => ?_) (Doing.backed_of_free rfl)
      (says_giveBack keeps trivial) (says_ret ⟨rfl, rfl⟩)
    rw [ite_self]
    exact .giveUp known lapsed tried
  · rename_i left
    have reserved : Mode.allows .reserved .reserved := rfl
    refine says_elect keeps (.inr (.inl rfl)) known reserved (by simp) (fun _ => .requeue known lapsed (by omega))
      (Held.backed_set rfl) ?_ (says_ret ⟨rfl, rfl⟩)
    apply says_field keeps (apart_retryOf slot) (fun _ => .again (by simp)) fun _ => Held.backed_set rfl
    apply says_past keeps (passing_ownerOf slot _)
    intro _
    apply says_then (says_label (minds_publishQueued keeps _ (.inr rfl)))
    rintro _ _ _ ⟨rfl, rfl⟩
    exact says_ret ⟨rfl, rfl⟩

theorem says_reapSlots (now : Nat) (slots : List Nat) (report : ReapReport) (reaper : MayReap (may who))
    (known : ∀ slot ∈ slots, slot < queue.capacity) :
    Idles follows extra who (Staged.reapSlots queue now slots report) := by
  induction slots generalizing report with
  | nil => exact says_ret ⟨rfl, rfl⟩
  | cons slot rest ih =>
    have here := known slot List.mem_cons_self
    have later := fun report => ih report fun entry in_ => known entry (List.mem_cons_of_mem slot in_)
    apply says_load keeps
    intro mem
    refine ⟨_, .see reaper here, fun _ => ?_, ?_⟩
    · split <;> exact Doing.backed_of_free rfl
    by_cases claimed : (stateOf slot).get mem = .claimed
    · rw [if_pos (show (mem.slot slot).state = .claimed from claimed), if_neg (by simpa using claimed)]
      apply says_load keeps
      intro mem
      refine ⟨_, .date, fun _ => ?_, ?_⟩
      · split <;> exact Doing.backed_of_free rfl
      by_cases lapsed : (deadlineOf slot).get mem < now
      · rw [if_pos (show (mem.slot slot).deadline < now from lapsed), if_neg (by omega)]
        apply says_then (says_reapLapsed keeps now report here lapsed)
        rintro report _ _ ⟨rfl, rfl⟩
        exact later report
      · rw [if_neg (show ¬ (mem.slot slot).deadline < now from lapsed), if_pos (by omega)]
        exact later report
    · rw [if_neg (show ¬ (mem.slot slot).state = .claimed from claimed), if_pos claimed]
      exact later report

theorem says_reap (now : Nat) (mine : may who (.reap now)) : Idles follows extra who (Staged.reap queue now) := by
  have hint {Value : Type} {rest : Steps Value} (cell : Ref Memory Nat)
      (later : Idles follows extra who rest) :
      Idles follows extra who (load (.plain, .field) cell >>= fun _ => rest) :=
    says_past keeps (passing_load cell) fun _ => later
  apply says_then (says_reapSlots keeps now _ _ ⟨now, mine⟩ fun _ => List.mem_range.mp)
  rintro report _ _ ⟨rfl, rfl⟩
  have last : Idles follows extra who (if report.failed > 0 then do
      let _ ← load (.plain, .field) waitersDoneRef
      return report
    else return report : Steps ReapReport) := by
    split
    · exact hint _ (says_ret ⟨rfl, rfl⟩)
    · exact says_ret ⟨rfl, rfl⟩
  by_cases requeued : report.requeued > 0
  · simp only [if_pos requeued]
    exact hint _ last
  · simp only [if_neg requeued]
    exact last

/-- Every call is made of deeds. -/
theorem says_call (op : Call) (mine : may who op) : Idles follows extra who (Staged.call queue op) := by
  have mapped {Value : Type} {code : Steps Value} {wrap : Value → Answer} (idles : Idles follows extra who code) :
      Idles follows extra who (wrap <$> code) := by
    unfold Idles
    rw [map_eq_pure_bind]
    exact says_then idles fun _ _ _ new => says_ret new
  cases op with
  | submit req due input => exact mapped (says_submitInner keeps req due input)
  | work workerId due outputs verdict => exact says_work keeps workerId due outputs verdict mine
  | cancel handle => exact mapped (says_cancel keeps handle)
  | reap now => exact mapped (says_reap keeps now mine)
  | ack handle =>
    exact mapped (says_still keeps (Staged.every_plain (every_ack admits_passing handle)))
  | reapBindings now grace =>
    exact mapped (says_still keeps (Staged.every_plain (every_reapBindings admits_passing now grace)))
  | poll handle =>
    apply says_then (says_poll keeps handle)
    rintro out _ next ⟨rfl, answers⟩
    exact says_reply keeps handle out answers _

end

end

section

variable {Past : Type} (queue : Queue) (track : Nat → Stage × Site → Memory → Memory → Past → Past)
  (may : Nat → Call → Prop) (fair : Nat → Stage × Site → Memory → Past → Prop)

/-- The staged calls, with the bookkeeping of the stacks and a history of their
own. The steps of a run are timely and `fair`. -/
abbrev minders : Actors Memory (Stage × Site) ((Tags Shard × List Event) × Past) Call Nat Answer :=
  staged queue
    (fun actor site before after history => ((system queue).actors.track actor site.2 before after history.1,
      track actor site before after history.2))
    may
    fun actor site memory history => (system queue).actors.allowed actor site.2 memory history.1 ∧
      fair actor site memory history.2

/-- A new queue, and what its histories start from. -/
def dawn (past : Past) : Config Memory (Stage × Site) ((Tags Shard × List Event) × Past) Call Nat Answer where
  state := init queue
  history := ((⟨fun _ => 0, fun _ _ => 0⟩, []), past)
  thread actor := .idle actor

variable {queue track may fair} {extra : Past → Memory → (Nat → Doing) → Prop}

/-- An invariant that every deed keeps holds in every state reached. -/
theorem extra_of_reachable
    (keeps : KeepsDeeds queue may (minders queue track may fair) Prod.fst fun history => extra history.2)
    (begins : extra past (init queue) fun _ => .nothing)
    (reached : (minders queue track may fair).Reachable (dawn queue past) run) :
    ∃ doings, extra run.history.2 run.state doings := by
  have follows : Follows queue (minders queue track may fair) Prod.fst :=
    ⟨fun _ _ _ _ _ => rfl, fun _ _ _ _ allowed => allowed.1⟩
  let inv := both (fun history => (ownership queue).inv (Prod.fst history))
    (Minded fun history : (Tags Shard × List Event) × Past => extra history.2)
  have start : (minders queue track may fair).SafeFor inv
      (fun who own held => own = who ∧ held = ((none, .nothing), .nothing)) (dawn queue past) := by
    obtain ⟨holdings, owned, threads⟩ := safe_initial queue
    have empty : holdings = fun _ => (none, .nothing) := funext threads
    refine ⟨fun _ => ((none, .nothing), .nothing), ⟨empty ▸ owned, fun _ => ?_, begins⟩, fun _ => ⟨rfl, rfl⟩⟩
    exact Doing.backed_of_free rfl
  obtain ⟨holdings, ok, -⟩ := safeFor_of_reachable (by
    rintro _ who op _ enabled ⟨rfl, rfl⟩
    have idles : Idles follows (fun history => extra history.2) who (Staged.call queue op) :=
      says_call keeps op enabled
    refine wp_mono idles ?_
    rintro answer ⟨⟨pending, held⟩, doing⟩ ⟨rfl, rfl, rfl⟩
    exact ⟨rfl, rfl⟩) start reached
  exact ⟨_, ok.2.2⟩

end

end ShmActors.Task
