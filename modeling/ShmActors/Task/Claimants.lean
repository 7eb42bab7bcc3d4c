import ShmActors.Task.Telling

/-! Who may finish a task: the claimant of its slot, as long as no reaper has
taken the claim away. -/

namespace ShmActors.Task

open Lib Core Program Function Actors

section

/-- Whose claim on the slot stands: the last one, if it has not been reaped. -/
def claimant (slot : Nat) : List Mark → Option Nat
  | [] => none
  | .claimed actor entry :: older => if entry = slot then some actor else claimant slot older
  | .reaped entry :: older => if entry = slot then none else claimant slot older
  | _ :: older => claimant slot older

/-- Who claimed the slot last. -/
def lastClaim (slot : Nat) : List Mark → Option Nat
  | [] => none
  | .claimed actor entry :: older => if entry = slot then some actor else lastClaim slot older
  | _ :: older => lastClaim slot older

/-- The tasks whose exchange an actor's calls have won, newest first. -/
def wonTasks (actor : Nat) : List Mark → List ClaimedTask
  | [] => []
  | .won winner task :: older => if winner = actor then task :: wonTasks actor older else wonTasks actor older
  | _ :: older => wonTasks actor older

/-- Every exchange was won under a standing claim, and every `DONE` stored by a
call that had won its exchange. -/
def Current : List Mark → Prop
  | [] => True
  | .won actor task :: older => claimant task.idx older = some actor ∧ Current older
  | .stored actor task _ :: older => task ∈ wonTasks actor older ∧ Current older
  | _ :: older => Current older

end

section

/-- The tasks an actor's calls returned `Ok` for, newest first. -/
def okTasks : List (Call × Answer) → List ClaimedTask
  | [] => []
  | (_, .worked (some (task, some (.ok ())))) :: own => task :: okTasks own
  | _ :: own => okTasks own

/-- A call that did not return `Ok` returned one of the two errors. -/
def proper : Answer → Bool
  | .worked (some (_, some (.error reason))) => reason = .lost ∨ reason = .staleHandle
  | _ => true

end

/-- The exchange of a `complete` or `fail` does not find the slot `CLAIMED` under a
later claim than this call's own. -/
def Unsuperseded (actor : Nat) (site : Role × Site) (memory : Memory) (history : WorkHistory) : Prop :=
  match site with
  | (.finisher _ _, .complete slot) | (.finisher _ _, .fail slot) =>
    (memory.slot slot).state = .claimed → lastClaim slot history.2 = some actor
  | _ => True

/-- What an actor has to show: its wins, and that its refusals were proper. -/
abbrev Record := List ClaimedTask × Bool

def recordOf (own : List (Call × Answer)) : Record :=
  (okTasks own, own.all fun entry => proper entry.2)

structure Standing (history : WorkHistory) (memory : Memory) (records : Nat → Record) : Prop where
  standing : ∀ slot, (memory.slot slot).state = .claimed →
    claimant slot history.2 = lastClaim slot history.2
  current : Current history.2
  wins : ∀ actor, (records actor).1 = wonTasks actor history.2
  proper : ∀ actor, (records actor).2 = true

/-- Sites at which a finisher's call takes or uses its slot. -/
def decisive : Site → Bool
  | .complete _ | .fail _ | .finish _ => true
  | _ => false

section

variable {actor slot : Nat} {mem : Memory} {history : WorkHistory} {records : Nat → Record}

theorem exchanged_state (slot : Nat) (current new : TaskState) (entry : Nat)
    (now : ((exchanged slot current new mem).slot entry).state = .claimed) (other : new ≠ .claimed) :
    (mem.slot entry).state = .claimed := by
  unfold exchanged at now
  split at now
  · by_cases same : entry = slot
    · subst same
      rw [stateOf_set_self] at now
      exact absurd now other
    · rwa [stateOf_set_other _ _ same] at now
  · exact now

theorem stored_state (now : (((stateOf slot).set new mem).slot entry).state = .claimed) (other : new ≠ .claimed) :
    (mem.slot entry).state = .claimed := by
  by_cases same : entry = slot
  · subst same
    rw [stateOf_set_self] at now
    exact absurd now other
  · rwa [stateOf_set_other _ _ same] at now

variable (ok : Standing history mem records)

include ok

/-- A claim mark is of a slot that is claimed, and stands. -/
theorem Standing.claim (actor slot : Nat) (who : Role) :
    Standing (history.1, note actor mem (exchanged slot .queued .claimed mem)
        (who, .claim slot) history.2)
      (exchanged slot .queued .claimed mem) records := by
  by_cases queued : (mem.slot slot).state = .queued
  · have now : exchanged slot .queued .claimed mem = (stateOf slot).set .claimed mem := if_pos queued
    have marked : changed slot mem ((stateOf slot).set .claimed mem) := by
      simp [changed, queued]
    have logged : note actor mem ((stateOf slot).set .claimed mem) (who, .claim slot) history.2 =
        .claimed actor slot :: history.2 := by
      simp only [note, if_pos marked]
    rw [now, logged]
    refine ⟨fun entry claimed => ?_, ok.current, ok.wins, ok.proper⟩
    by_cases same : slot = entry
    · simp [claimant, lastClaim, same]
    · rw [stateOf_set_other _ _ (Ne.symm same)] at claimed
      simpa [claimant, lastClaim, same] using ok.standing entry claimed
  · have now : exchanged slot .queued .claimed mem = mem := if_neg queued
    have logged : note actor mem mem (who, .claim slot) history.2 = history.2 := by
      simp [note, changed]
    rw [now, logged]
    exact ok

/-- A reaper's exchange takes the claim and its state away together. -/
theorem Standing.reap (slot : Nat) (other : new ≠ .claimed) (marks : List Mark)
    (logged : marks = if changed slot mem (exchanged slot .claimed new mem) then
      .reaped slot :: history.2 else history.2) :
    Standing (history.1, marks) (exchanged slot .claimed new mem) records := by
  subst logged
  by_cases claimed : (mem.slot slot).state = .claimed
  · have now : exchanged slot .claimed new mem = (stateOf slot).set new mem := if_pos claimed
    have marked : changed slot mem ((stateOf slot).set new mem) := by
      simp [changed, claimed, Ne.symm other]
    rw [now, if_pos marked]
    refine ⟨fun entry still => ?_, ok.current, ok.wins, ok.proper⟩
    by_cases same : slot = entry
    · subst same
      rw [stateOf_set_self] at still
      exact absurd still other
    · rw [stateOf_set_other _ _ (Ne.symm same)] at still
      simpa [claimant, lastClaim, same] using ok.standing entry still
  · have now : exchanged slot .claimed new mem = mem := if_neg claimed
    rw [now, if_neg (by simp [changed])]
    exact ok

/-- An access that leaves no mark and claims nothing. -/
theorem Standing.quiet (states : ∀ slot, (new.slot slot).state = .claimed → (mem.slot slot).state = .claimed) :
    Standing (history.1, history.2) new records :=
  ⟨fun slot claimed => ok.standing slot (states slot claimed), ok.current, ok.wins, ok.proper⟩

/-- Every access of the queue keeps the standing of claims, the decisive ones of
a finisher apart. -/
theorem Standing.step {update : Memory → Memory} (shape : Shape site update)
    (plain : (∀ task verdict, who ≠ .finisher task verdict) ∨ decisive site = false)
    (past : Tags Shard × List Event) :
    Standing (past, note actor mem (update mem) (who, site) history.2) (update mem) records := by
  have carry {marks : List Mark} {new : Memory} (holds : Standing (history.1, marks) new records) :
      Standing (past, marks) new records :=
    ⟨holds.standing, holds.current, holds.wins, holds.proper⟩
  apply carry
  cases site with
  | claim slot =>
    cases shape
    exact ok.claim actor slot who
  | requeue slot =>
    cases shape
    exact ok.reap slot (by simp) _ rfl
  | recover slot | cancel slot =>
    cases shape
    exact ok.quiet fun entry now => exchanged_state _ _ _ entry now (by simp)
  | reserve slot | publish slot =>
    cases shape
    exact ok.quiet fun entry now => stored_state now (by simp)
  | field => exact ok.quiet fun entry now => (shape mem entry) ▸ now
  | pop | push | count | uncount => exact ok.quiet fun entry now => (shape mem) ▸ now
  | complete slot =>
    cases shape
    cases who with
    | finisher task verdict => simp [decisive] at plain
    | caller | reaper => exact ok.quiet fun entry now => exchanged_state _ _ _ entry now (by simp)
  | finish slot =>
    cases shape
    cases who with
    | finisher task verdict => simp [decisive] at plain
    | caller | reaper => exact ok.quiet fun entry now => stored_state now (by simp)
  | fail slot =>
    cases shape
    cases who with
    | finisher task verdict => simp [decisive] at plain
    | caller | reaper => exact ok.reap slot (by simp) _ rfl

end

section

variable {queue : Queue} {held : Record} {code : Code Value} {task : ClaimedTask}

/-- The workers whose runs meet the condition. -/
abbrev fenced (queue : Queue) := workers queue Unsuperseded

/-- Code outside `complete` and `fail` leaves its actor's record alone. -/
theorem keeps_plain (every : code.Every Shape) (plain : ∀ task verdict, who ≠ .finisher task verdict) :
    ((fenced queue).under who).wp Standing actor code (fun _ kept => kept = held) held := by
  refine wp_of_every (every_mono every ?_)
  intro site update shape past mem records ok _
  exact ok.step shape (.inl plain) _

theorem keeps_caller (every : code.Every Shape) :
    (fenced queue).wp Standing actor (code.label .caller) (fun _ kept => kept = held) held :=
  wp_label (keeps_plain every fun _ _ => by simp)

/-- Between its decisive steps a finisher leaves its record alone as well. -/
theorem keeps_aside (every : code.Every fun site update => Shape site update ∧ decisive site = false) :
    ((fenced queue).under (.finisher task verdict)).wp Standing actor code (fun _ kept => kept = held) held := by
  apply wp_of_every (every_mono every ?_)
  rintro site update ⟨shape, plain⟩ past mem records ok _
  exact ok.step shape (.inr plain) _

theorem aside_elsewhere (every : code.Every Elsewhere) :
    code.Every fun site update => Shape site update ∧ decisive site = false := by
  apply every_mono every
  rintro site update ⟨rfl, keeps⟩
  exact ⟨fun mem slot => (keeps mem).2.2 slot, rfl⟩

theorem aside_pushFree (idx : Nat) :
    (pushFree idx).Every fun site update => Shape site update ∧ decisive site = false := by
  intro cursor
  apply every_repeatLoop
  refine every_bind ⟨⟨fun _ => rfl, rfl⟩, fun _ => trivial⟩ fun cur => ?_
  refine every_bind ⟨⟨fun _ => rfl, rfl⟩, fun _ => trivial⟩ fun _ => ?_
  refine every_bind (fun choice => ?_) fun _ => trivial
  cases choice with
  | zero => exact ⟨⟨fun _ => rfl, rfl⟩, fun _ => trivial⟩
  | succ choice => exact ⟨⟨Stacked.head_slot _ _ _, rfl⟩, fun _ => trivial⟩

/-- The exchange: won, it is won under a standing claim. -/
theorem wins_exchange (kind : site = .complete task.idx ∨ site = .fail task.idx) (other : new ≠ .claimed) :
    ((fenced queue).under (.finisher task verdict)).wp Standing actor
      (compareExchange site (stateOf task.idx) .claimed new)
      (fun got kept => kept = if got = none then (task :: held.1, held.2) else held) held := by
  apply wp_compareExchange
  · intro past mem records ok same may got
    have last : lastClaim task.idx past.2 = some actor := by
      rcases kind with rfl | rfl <;> exact may got
    have stands : claimant task.idx past.2 = some actor := (ok.standing _ got).trans last
    have marked : changed task.idx mem ((stateOf task.idx).set new mem) := by
      simp only [changed, stateOf_set_self]
      rw [show (mem.slot task.idx).state = .claimed from got]
      exact Ne.symm other
    have logged : note actor mem ((stateOf task.idx).set new mem)
        (.finisher task verdict, site) past.2 = .won actor task :: past.2 := by
      rcases kind with rfl | rfl <;> simp only [note, if_pos marked]
    refine ⟨_, ?_, rfl⟩
    show Standing (_, note actor mem _ (.finisher task verdict, site) past.2) _ _
    rw [logged]
    refine ⟨fun entry now => ok.standing entry (stored_state now other), ⟨stands, ok.current⟩, ?_, ?_⟩
    · intro who
      by_cases mine : who = actor
      · subst mine
        simp [wonTasks, ← ok.wins, same]
      · simpa [wonTasks, mine, Ne.symm mine] using ok.wins who
    · intro who
      by_cases mine : who = actor
      · subst mine
        simpa [same] using ok.proper who
      · simpa [mine] using ok.proper who
  · intro past mem records ok same may differs
    have logged : note actor mem mem (.finisher task verdict, site) past.2 = past.2 := by
      rcases kind with rfl | rfl <;> simp [note, changed]
    refine ⟨held, ?_, by simp⟩
    show Standing (_, note actor mem mem (.finisher task verdict, site) past.2) _ _
    rw [logged, ← same, update_eq_self]
    exact ⟨ok.standing, ok.current, ok.wins, ok.proper⟩

/-- The store of `DONE` by a call that has won. -/
theorem stores_done (won : task ∈ held.1) : ((fenced queue).under (.finisher task (.complete res))).wp Standing actor
      (store (.finish task.idx) (stateOf task.idx) .done) (fun _ kept => kept = held) held := by
  intro past mem records ok same _
  refine ⟨held, ?_, rfl⟩
  rw [← same, update_eq_self]
  refine ⟨fun entry now => ok.standing entry (stored_state now (by simp)), ⟨?_, ok.current⟩,
    ok.wins, ok.proper⟩
  rw [← ok.wins, same]
  exact won

/-- The record after a call: one more win, or a proper refusal. -/
def Settled (task : ClaimedTask) (held : Record) : Except QueueError Unit → Record → Prop
  | .ok (), kept => kept = (task :: held.1, held.2)
  | .error reason, kept => kept = held ∧ (reason = .lost ∨ reason = .staleHandle)

theorem settles_complete (task : ClaimedTask) (res : ChunkDesc) :
    ((fenced queue).under (.finisher task (.complete res))).wp Standing actor
      (complete task.idx task.seq res) (Settled task held) held := by
  refine wp_then (keeps_aside (aside_elsewhere (every_load _))) ?_
  rintro seq _ rfl
  split
  · exact ⟨rfl, .inr rfl⟩
  apply wp_bind
  refine wp_then (wins_exchange (.inl rfl) (by simp)) ?_
  rintro got _ rfl
  cases got with
  | some st => exact ⟨by simp, .inl rfl⟩
  | none =>
    have written : (store .field (resultOf task.idx) res : Code Unit).Every Elsewhere := by
      apply every_store
      apply apart_slotField
      exact fun _ _ => rfl
    refine wp_then (keeps_aside (aside_elsewhere written)) ?_
    rintro _ _ rfl
    refine wp_then (stores_done (by simp)) ?_
    rintro _ _ rfl
    refine wp_then (keeps_aside (aside_pushFree _)) ?_
    rintro _ _ rfl
    refine wp_then (keeps_aside (aside_elsewhere (every_load _))) ?_
    rintro _ _ rfl
    simp [Settled, wp]

theorem settles_fail (task : ClaimedTask) :
    ((fenced queue).under (.finisher task .fail)).wp Standing actor (fail task.idx task.seq)
      (Settled task held) held := by
  refine wp_then (keeps_aside (aside_elsewhere (every_load _))) ?_
  rintro seq _ rfl
  split
  · exact ⟨rfl, .inr rfl⟩
  apply wp_bind
  refine wp_then (wins_exchange (.inr rfl) (by simp)) ?_
  rintro got _ rfl
  cases got with
  | some st => exact ⟨by simp, .inl rfl⟩
  | none =>
    refine wp_then (keeps_aside (aside_pushFree _)) ?_
    rintro _ _ rfl
    refine wp_then (keeps_aside (aside_elsewhere (every_load _))) ?_
    rintro _ _ rfl
    simp [Settled, wp]

theorem records_plain (wrap : Value → Answer) (every : code.Every Shape)
    (plain : ∀ task verdict, who ≠ .finisher task verdict)
    (same : ∀ val, recordOf ((op, wrap val) :: own) = recordOf own) :
    (fenced queue).wp Standing actor ((wrap <$> code).label who)
      (fun answer kept => kept = recordOf ((op, answer) :: own)) (recordOf own) := by
  rw [map_eq_pure_bind]
  apply wp_label
  refine wp_then (keeps_plain every plain) ?_
  rintro val _ rfl
  exact (same val).symm

theorem records_settle (task : ClaimedTask) (verdict : Verdict) :
    (fenced queue).wp Standing actor ((settle task verdict).label (.finisher task verdict))
      (fun out kept => match out with
        | none => kept = held
        | some out => Settled task held out kept) held := by
  apply wp_label
  cases verdict with
  | drop => rfl
  | complete res =>
    exact wp_then (settles_complete task res) fun _ _ settled => settled
  | fail =>
    exact wp_then (settles_fail task) fun _ _ settled => settled

theorem records_work (workerId : Nat) (due : Option Nat)
    (outputs : ClaimedTask → List LeaseBinding) (verdict : ClaimedTask → Verdict) :
    (fenced queue).wp Standing actor (work workerId due outputs verdict)
      (fun answer kept => kept = recordOf ((op, answer) :: own)) (recordOf own) := by
  refine wp_then (keeps_caller (covers_shape.claimInner workerId stamps_shape)) ?_
  rintro got _ rfl
  cases got with
  | none => rfl
  | some task =>
    refine wp_then (keeps_caller (every_bindOutputs covers_shape.admits task _)) ?_
    rintro _ _ rfl
    refine wp_then (records_settle task (verdict task)) ?_
    intro out kept settled
    cases out with
    | none => exact settled
    | some out =>
      cases out with
      | ok _ => exact settled
      | error reason =>
        obtain ⟨rfl, reason⟩ := settled
        simpa [wp, recordOf, okTasks, proper] using fun _ => reason

theorem records_call (op : Call) (own : List (Call × Answer)) :
    (fenced queue).wp Standing actor (call queue op)
      (fun answer kept => kept = recordOf ((op, answer) :: own)) (recordOf own) := by
  cases op with
  | work workerId due outputs verdict => exact records_work workerId due outputs verdict
  | submit req due input =>
    exact records_plain _ (whole_shape.submitInner _ _ _ _ fun _ => shape_elsewhere (every_writeFields _ _ _))
      (by simp) fun _ => rfl
  | cancel handle => exact records_plain _ (covers_shape.cancelTask _ _) (by simp) fun _ => rfl
  | reap now => exact records_plain _ (whole_shape.reap _ _) (by simp) fun _ => rfl
  | ack handle => exact records_plain _ (every_ack covers_shape.admits _) (by simp) fun _ => rfl
  | reapBindings now grace =>
    exact records_plain _ (every_reapBindings covers_shape.admits _ _) (by simp) fun _ => rfl
  | poll handle => exact records_plain _ (every_poll covers_shape.admits _) (by simp) fun _ => rfl

end

/-- Only the standing claimant finishes a task. A call's exchange is won only
while its claim has not been reaped, a call stores a state only after it has won,
`Ok` is returned for the won exchanges and no other call, and the remaining calls
return `Lost` or `StaleHandle`. -/
structure OnlyClaimant (config : WorkConfig) : Prop where
  standing : ∀ newer older actor task,
    config.history.2 = newer ++ .won actor task :: older → claimant task.idx older = some actor
  stores : ∀ newer older actor task result,
    config.history.2 = newer ++ .stored actor task result :: older → task ∈ wonTasks actor older
  answered : ∀ actor own, config.thread actor = .idle own →
    okTasks own = wonTasks actor config.history.2
  refused : ∀ actor own, config.thread actor = .idle own →
    ∀ op task reason, (op, Answer.worked (some (task, some (.error reason)))) ∈ own →
      reason = .lost ∨ reason = .staleHandle

theorem Current.append (now : Current (newer ++ older)) : Current older := by
  induction newer with
  | nil => exact now
  | cons mark newer ih =>
    cases mark with
    | claimed | reaped => exact ih now
    | won | stored => exact ih now.2

theorem standing_opening (queue : Queue) :
    Standing (opening queue).history (opening queue).state fun _ => ([], true) where
  standing slot claimed := by simp [opening, init] at claimed
  current := trivial
  wins _ := rfl
  proper _ := rfl

theorem onlyClaimant_of_reachable {queue : Queue} {config : WorkConfig}
    (reached : (workers queue Unsuperseded).Reachable (opening queue) config) : OnlyClaimant config := by
  have start : (fenced queue).Safe Standing recordOf (opening queue) :=
    ⟨_, standing_opening queue, fun _ => rfl⟩
  obtain ⟨records, valid, threads⟩ := Actors.safe_of_reachable
    (fun actor own op _ => records_call op own) start reached
  have idle : ∀ actor own, config.thread actor = .idle own → records actor = recordOf own := by
    intro actor own thread
    have held := threads actor
    rwa [thread] at held
  constructor
  · intro newer older actor task split
    exact (split ▸ valid.current).append.1
  · intro newer older actor task result split
    exact (split ▸ valid.current).append.1
  · intro actor own thread
    rw [← valid.wins, idle actor own thread]
    rfl
  · intro actor own thread op task reason member
    have all := valid.proper actor
    rw [idle actor own thread] at all
    have this := List.all_eq_true.mp all _ member
    simpa [proper] using this

section

instance (actor : Nat) (site : Role × Site) (memory : Memory) (history : WorkHistory) :
    Decidable (Unsuperseded actor site memory history) := by
  unfold Unsuperseded
  split <;> infer_instance

/-- Worker 1 claims the task, and its lease lapses: the reaper requeues the task. -/
def lapsed : List (Stretch Call) :=
  [.begin 0 (.submit .zero 5 none), .run 0 60 1, .begin 1 (completing 77), .run 1 11 1,
    .begin 2 (.reap 100), .run 2 60 1]

/-- Worker 3 claims the requeued task, and only then worker 1 completes. -/
def reclaimed : List (Stretch Call) :=
  lapsed ++ [.begin 3 (completing 99), .run 3 11 1, .run 1 60 1]

/-- Worker 1 completes a task that it lost to the reaper and worker 3 holds. -/
theorem reclaimed_not_onlyClaimant : ∃ config,
    (anyWorkers single).Reachable (opening single) config ∧ ¬ OnlyClaimant config := by
  refine ⟨(anyWorkers single).follow reclaimed (opening single),
    reachable_follow reclaimed .refl, fun only => ?_⟩
  have marks : ((anyWorkers single).follow reclaimed (opening single)).history.2 =
      [.stored 1 ⟨0, 1, 8, .zero⟩ ⟨0, 0, 77, 0, 0⟩] ++ .won 1 ⟨0, 1, 8, .zero⟩ ::
        [.claimed 3 0, .reaped 0, .claimed 1 0] := by decide +kernel
  have wrong := only.standing _ _ _ _ marks
  simp [claimant] at wrong

/-- Worker 1 is refused, and worker 3 claims the task again and completes it. -/
def refused : List (Stretch Call) :=
  lapsed ++ [.run 1 60 1, .begin 3 (completing 99), .run 3 60 1]

theorem onlyClaimant_of_refused :
    ((fenced single).follow refused (opening single)).history.2 =
      [.stored 3 ⟨0, 1, 8, .zero⟩ ⟨0, 0, 99, 0, 0⟩, .won 3 ⟨0, 1, 8, .zero⟩, .claimed 3 0, .reaped 0,
        .claimed 1 0] ∧
    OnlyClaimant ((fenced single).follow refused (opening single)) :=
  ⟨by decide +kernel, onlyClaimant_of_reachable (reachable_follow refused .refl)⟩

end

end ShmActors.Task
