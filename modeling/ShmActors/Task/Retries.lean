import ShmActors.Task.DeedRuns

/-! Bounded retries: with one reaper, a task is claimed at most once more than it
may be retried, always under the sequence number it was submitted with. -/

namespace ShmActors.Task.Retries

open Lib Core Program Function

/-- A claim: its slot, the how-many-eth task of that slot it is of, and the
sequence number the slot had. -/
structure Claim where
  slot : Nat
  task : Nat
  seq : Nat
  deriving DecidableEq

/-- How many tasks each slot has had, and all claims. -/
structure Past where
  task : Nat → Nat
  claims : List Claim

def track (_ : Nat) (site : Stage × Site) (before _after : Memory) (past : Past) : Past :=
  match site with
  | (.renew slot, _) => { past with task := update past.task slot (past.task slot + 1) }
  | (_, .claim slot) =>
    if (before.slot slot).state = .queued then
      { past with claims := ⟨slot, past.task slot, (before.slot slot).seq⟩ :: past.claims }
    else past
  | _ => past

/-- The claims of one task. -/
def claimsOf (claims : List Claim) (slot task : Nat) : List Claim :=
  claims.filter fun claim => claim.slot = slot ∧ claim.task = task

/-- No task is claimed more often than it may be tried, and all its claims are
under one sequence number. -/
def Bounded (queue : Queue) (claims : List Claim) : Prop :=
  ∀ slot task, (claimsOf claims slot task).length ≤ queue.maxRetries + 1 ∧
    ∀ first ∈ claimsOf claims slot task, ∀ second ∈ claimsOf claims slot task, first.seq = second.seq

/-- One actor reaps; everyone makes any other calls. -/
def OneReaper (reaper actor : Nat) : Call → Prop
  | .reap _ => actor = reaper
  | _ => True

/-- How often the task of a slot was claimed. -/
def Past.tries (past : Past) (slot : Nat) : Nat := (claimsOf past.claims slot (past.task slot)).length

/-- What an actor in the middle of something knows of the retries. -/
def Noted (queue : Queue) (reaper : Nat) (past : Past) (memory : Memory) (actor : Nat) : Doing → Prop
  | .seen _ | .dated _ _ => actor = reaper
  | .counted slot _ retry => actor = reaper ∧ (memory.slot slot).retry ≤ retry
  | .requeuing slot retry => actor = reaper ∧ past.tries slot ≤ retry + 1 ∧ retry < queue.maxRetries
  | .requeued slot => past.tries slot ≤ (memory.slot slot).retry
  | .renewed slot | .fresh slot => past.tries slot = 0
  | _ => True

structure Tried (queue : Queue) (reaper : Nat) (past : Past) (memory : Memory) (doings : Nat → Doing) : Prop where
  noted : ∀ actor, Noted queue reaper past memory actor (doings actor)
  tried : ∀ slot, past.tries slot ≤ (memory.slot slot).retry + 1
  queued : ∀ slot, (memory.slot slot).state = .queued → past.tries slot ≤ (memory.slot slot).retry
  limit : ∀ slot, (memory.slot slot).retry ≤ queue.maxRetries
  older : ∀ claim ∈ past.claims, claim.task ≤ past.task claim.slot
  current : ∀ claim ∈ past.claims, claim.task = past.task claim.slot → claim.seq = (memory.slot claim.slot).seq
  bounded : Bounded queue past.claims

section

variable {queue : Queue} {reaper : Nat} {past later : Past} {mem after : Memory} {doings : Nat → Doing}
  {who slot : Nat} {next : Doing} {new : TaskState}

theorem noted_of_kept (noted : Noted queue reaper past mem who doing)
    (grows : who = reaper → ∀ slot, (after.slot slot).retry ≤ (mem.slot slot).retry)
    (holds : ∀ slot mode, doing.hold = some (slot, mode) → later.tries slot = past.tries slot ∧
      (after.slot slot).retry = (mem.slot slot).retry) : Noted queue reaper later after who doing := by
  cases doing with
  | seen | dated => exact noted
  | counted slot due retry => exact ⟨noted.1, (grows noted.1 slot).trans noted.2⟩
  | requeuing slot retry =>
    obtain ⟨mine, tries, left⟩ := noted
    exact ⟨mine, (holds slot _ rfl).1 ▸ tries, left⟩
  | requeued slot =>
    obtain ⟨tries, retry⟩ := holds slot _ rfl
    show later.tries slot ≤ (after.slot slot).retry
    rw [tries, retry]
    exact noted
  | renewed slot | fresh slot => exact (holds slot _ rfl).1.trans noted
  | _ => trivial

variable (ok : Tried queue reaper past mem doings)

include ok

/-- What everyone has noted, after a step of one actor. -/
theorem Tried.noted_step
    (grows : ∀ other, other ≠ who → other = reaper → ∀ slot, (after.slot slot).retry ≤ (mem.slot slot).retry)
    (holds : ∀ other, other ≠ who → ∀ slot mode, (doings other).hold = some (slot, mode) →
      later.tries slot = past.tries slot ∧ (after.slot slot).retry = (mem.slot slot).retry)
    (own : Noted queue reaper later after who next) (other : Nat) :
    Noted queue reaper later after other (update doings who next other) := by
  by_cases mine : other = who
  · subst mine
    rwa [update_self]
  · rw [update_of_ne mine]
    exact noted_of_kept (ok.noted other) (grows other mine) (holds other mine)

/-- A step that writes neither retries nor sequence numbers and queues no task. -/
theorem Tried.quiet (same : ∀ slot, (after.slot slot).retry = (mem.slot slot).retry ∧
      (after.slot slot).seq = (mem.slot slot).seq ∧
      ((after.slot slot).state = .queued → past.tries slot ≤ (mem.slot slot).retry))
    (own : Noted queue reaper past after who next) :
    Tried queue reaper past after (update doings who next) where
  noted := ok.noted_step (fun _ _ _ slot => (same slot).1.le) (fun _ _ slot _ _ => ⟨rfl, (same slot).1⟩) own
  tried slot := (same slot).1 ▸ ok.tried slot
  queued slot queued := (same slot).1 ▸ (same slot).2.2 queued
  limit slot := (same slot).1 ▸ ok.limit slot
  older := ok.older
  current claim in_ now := (ok.current claim in_ now).trans (same _).2.1.symm
  bounded := ok.bounded

theorem Tried.still (own : Noted queue reaper past mem who next) :
    Tried queue reaper past mem (update doings who next) :=
  ok.quiet (fun slot => ⟨rfl, rfl, ok.queued slot⟩) own

/-- The turn of a state, except by a publication. -/
theorem Tried.turn (other : new ≠ .queued) (own : ∀ mem, Noted queue reaper past mem who next) :
    Tried queue reaper past ((stateOf slot).set new mem) (update doings who next) := by
  refine ok.quiet (fun entry => ⟨word_of_set _ _ _ _ _, word_of_set _ _ _ _ _, fun queued => ?_⟩) (own _)
  by_cases here : entry = slot
  · subst here
    rw [stateOf_set_self] at queued
    exact absurd queued other
  · rw [stateOf_set_other _ _ here] at queued
    exact ok.queued entry queued

theorem Tried.exchange (other : new ≠ .queued) (own : ∀ mem, Noted queue reaper past mem who next) :
    Tried queue reaper past (exchanged slot now new mem) (update doings who next) := by
  unfold exchanged
  split
  · exact ok.turn other own
  · exact ok.still (own _)

/-- A task that may be tried once more is published. -/
theorem Tried.publish (left : past.tries slot ≤ (mem.slot slot).retry) :
    Tried queue reaper past ((stateOf slot).set .queued mem) (update doings who .nothing) := by
  refine ok.quiet (fun entry => ⟨word_of_set _ _ _ _ _, word_of_set _ _ _ _ _, fun queued => ?_⟩) trivial
  by_cases here : entry = slot
  · exact here ▸ left
  · rw [stateOf_set_other _ _ here] at queued
    exact ok.queued entry queued

omit ok

theorem tries_claim (past : Past) (slot seq entry : Nat) :
    Past.tries { past with claims := ⟨slot, past.task slot, seq⟩ :: past.claims } entry =
      if entry = slot then past.tries slot + 1 else past.tries entry := by
  unfold Past.tries claimsOf
  by_cases here : entry = slot
  · subst here
    simp
  · simp [here, Ne.symm here]

include ok

theorem bounded_claim (queued : (mem.slot slot).state = .queued) :
    Bounded queue (⟨slot, past.task slot, (mem.slot slot).seq⟩ :: past.claims) := by
  intro entry task
  obtain ⟨few, same⟩ := ok.bounded entry task
  by_cases this : entry = slot ∧ task = past.task slot
  · obtain ⟨rfl, rfl⟩ := this
    have tries : (claimsOf past.claims entry (past.task entry)).length ≤ (mem.slot entry).retry :=
      ok.queued entry queued
    have limit := ok.limit entry
    have seqs {claim : Claim} (in_ : claim ∈ claimsOf past.claims entry (past.task entry)) :
        claim.seq = (mem.slot entry).seq := by
      obtain ⟨listed, of⟩ := List.mem_filter.mp in_
      obtain ⟨at_, now⟩ := of_decide_eq_true of
      have seq := ok.current claim listed (now.trans (at_ ▸ rfl))
      rwa [at_] at seq
    have cons : claimsOf (⟨entry, past.task entry, (mem.slot entry).seq⟩ :: past.claims) entry (past.task entry) =
        ⟨entry, past.task entry, (mem.slot entry).seq⟩ :: claimsOf past.claims entry (past.task entry) := by
      simp [claimsOf]
    rw [cons, List.length_cons]
    refine ⟨by omega, fun first one second two => ?_⟩
    have all {claim : Claim} (in_ : claim ∈ (⟨entry, past.task entry, (mem.slot entry).seq⟩ ::
        claimsOf past.claims entry (past.task entry) : List Claim)) : claim.seq = (mem.slot entry).seq := by
      rcases List.mem_cons.mp in_ with rfl | older
      · rfl
      · exact seqs older
    rw [all one, all two]
  · have cons : claimsOf (⟨slot, past.task slot, (mem.slot slot).seq⟩ :: past.claims) entry task =
        claimsOf past.claims entry task := by
      unfold claimsOf
      refine List.filter_cons_of_neg fun of => this ?_
      obtain ⟨here, now⟩ := of_decide_eq_true of
      exact ⟨here.symm, now.symm⟩
    rw [cons]
    exact ⟨few, same⟩

/-- A claim won. -/
theorem Tried.claim (queued : (mem.slot slot).state = .queued)
    (nobody : ∀ other mode, (doings other).hold ≠ some (slot, mode))
    (own : ∀ past mem, Noted queue reaper past mem who next) :
    Tried queue reaper { past with claims := ⟨slot, past.task slot, (mem.slot slot).seq⟩ :: past.claims }
      ((stateOf slot).set .claimed mem) (update doings who next) := by
  have retry (entry : Nat) : (((stateOf slot).set .claimed mem).slot entry).retry = (mem.slot entry).retry :=
    word_of_set _ _ _ _ _
  have seq (entry : Nat) : (((stateOf slot).set .claimed mem).slot entry).seq = (mem.slot entry).seq :=
    word_of_set _ _ _ _ _
  refine ⟨?_, fun entry => ?_, fun entry now => ?_, fun entry => (retry entry) ▸ ok.limit entry, ?_, ?_,
    bounded_claim ok queued⟩
  · refine ok.noted_step (fun _ _ _ entry => (retry entry).le) (fun other _ entry mode held => ?_) (own _ _)
    have ne : entry ≠ slot := by
      rintro rfl
      exact nobody other mode held
    rw [tries_claim, if_neg ne]
    exact ⟨rfl, retry entry⟩
  · rw [tries_claim, retry]
    split
    · rename_i here
      have old := ok.queued slot queued
      rw [here]
      omega
    · exact ok.tried entry
  · have ne : entry ≠ slot := by
      rintro rfl
      simp at now
    rw [tries_claim, if_neg ne, retry]
    rw [stateOf_set_other _ _ ne] at now
    exact ok.queued entry now
  · intro claim in_
    rcases List.mem_cons.mp in_ with rfl | older
    · exact le_rfl
    · exact ok.older claim older
  · intro claim in_ now
    rw [seq]
    rcases List.mem_cons.mp in_ with rfl | older
    · rfl
    · exact ok.current claim older now

theorem tries_renew (slot entry : Nat) :
    Past.tries { past with task := update past.task slot (past.task slot + 1) } entry =
      if entry = slot then 0 else past.tries entry := by
  show (claimsOf past.claims entry (update past.task slot (past.task slot + 1) entry)).length = _
  by_cases here : entry = slot
  · subst here
    rw [if_pos rfl, update_self, List.length_eq_zero_iff]
    refine List.filter_eq_nil_iff.mpr fun claim in_ of => ?_
    have bound := ok.older claim in_
    obtain ⟨at_, now⟩ := of_decide_eq_true of
    rw [at_] at bound
    omega
  · rw [if_neg here, update_of_ne here]
    rfl

/-- The next task of a slot gets its number. -/
theorem Tried.renew (new : Nat) (reserved : (mem.slot slot).state = .reserved)
    (alone : ∀ other, other ≠ who → ∀ mode, (doings other).hold ≠ some (slot, mode)) :
    Tried queue reaper { past with task := update past.task slot (past.task slot + 1) }
      ((seqOf slot).set new mem) (update doings who (.renewed slot)) := by
  have retry (entry : Nat) : (((seqOf slot).set new mem).slot entry).retry = (mem.slot entry).retry :=
    word_of_set _ _ _ _ _
  have grown (entry : Nat) : past.task entry ≤ update past.task slot (past.task slot + 1) entry := by
    by_cases here : entry = slot
    · subst here
      simp
    · simp [here]
  refine ⟨?_, fun entry => ?_, fun entry now => ?_, fun entry => (retry entry) ▸ ok.limit entry,
    fun claim in_ => (ok.older claim in_).trans (grown _), fun claim in_ now => ?_, ok.bounded⟩
  · refine ok.noted_step (fun _ _ _ entry => (retry entry).le) (fun other different entry mode held => ?_) ?_
    · have ne : entry ≠ slot := by
        rintro rfl
        exact alone other different mode held
      rw [tries_renew ok, if_neg ne]
      exact ⟨rfl, retry entry⟩
    · show Past.tries _ slot = 0
      rw [tries_renew ok, if_pos rfl]
  · rw [tries_renew ok, retry]
    split
    · exact Nat.zero_le _
    · exact ok.tried entry
  · have st : (((seqOf slot).set new mem).slot entry).state = (mem.slot entry).state :=
      word_of_set _ _ _ _ _
    rw [tries_renew ok, retry]
    split
    · exact Nat.zero_le _
    · exact ok.queued entry (st ▸ now)
  · have ne : claim.slot ≠ slot := by
      intro here
      have bound := ok.older claim in_
      rw [here] at bound now
      have task : claim.task = past.task slot + 1 := by simpa using now
      omega
    have same : claim.task = past.task claim.slot := by simpa [ne] using now
    rw [ok.current claim in_ same]
    exact (congrArg TaskSlot.seq (slot_of_set ne _ _)).symm

/-- The retries of a task in hand are written. -/
theorem Tried.retries (reserved : (mem.slot slot).state = .reserved) (tries : past.tries slot ≤ retry)
    (limit : retry ≤ queue.maxRetries) (lowers : who ≠ reaper → retry ≤ (mem.slot slot).retry)
    (alone : ∀ other, other ≠ who → ∀ mode, (doings other).hold ≠ some (slot, mode))
    (own : Noted queue reaper past ((retryOf slot).set retry mem) who next) :
    Tried queue reaper past ((retryOf slot).set retry mem) (update doings who next) := by
  have here : (((retryOf slot).set retry mem).slot slot).retry = retry := by simp [retryOf, slotRef, Ref.field]
  have elsewhere {entry : Nat} (ne : entry ≠ slot) :
      ((retryOf slot).set retry mem).slot entry = mem.slot entry := slot_of_set ne _ _
  have st (entry : Nat) : (((retryOf slot).set retry mem).slot entry).state = (mem.slot entry).state :=
    word_of_set _ _ _ _ _
  refine ⟨?_, fun entry => ?_, fun entry now => ?_, fun entry => ?_, ok.older, fun claim in_ now => ?_,
    ok.bounded⟩
  · refine ok.noted_step (fun other different only entry => ?_) (fun other different entry mode held => ?_) own
    · by_cases same : entry = slot
      · subst same
        rw [here]
        exact lowers fun mine => different (only.trans mine.symm)
      · rw [elsewhere same]
    · have ne : entry ≠ slot := by
        rintro rfl
        exact alone other different mode held
      rw [elsewhere ne]
      exact ⟨rfl, rfl⟩
  · by_cases same : entry = slot
    · subst same
      omega
    · rw [elsewhere same]
      exact ok.tried entry
  · have ne : entry ≠ slot := by
      rintro rfl
      rw [st, reserved] at now
      cases now
    rw [elsewhere ne] at now ⊢
    exact ok.queued entry now
  · by_cases same : entry = slot
    · subst same
      omega
    · rw [elsewhere same]
      exact ok.limit entry
  · rw [ok.current claim in_ now]
    exact (word_of_set TaskSlot.seq _ _ _ _).symm

end

section

theorem track_aside (calm : stage.calm = true)
    (plain : turnOf site = none) : track who (stage, site) mem new past = past := by
  unfold track
  split <;> simp_all [Stage.calm, turnOf]

theorem Tried.aside (ok : Tried queue reaper past mem doings)
    (same : ∀ slot, (mem.slot slot).Same (new.slot slot)) (who : Nat) :
    Tried queue reaper past new doings := by
  have noted : Noted queue reaper past new who (doings who) := noted_of_kept (ok.noted who)
    (fun _ slot => (same slot).2.2.2.1.le) fun slot _ _ => ⟨rfl, (same slot).2.2.2.1⟩
  have still := ok.quiet (fun slot => ⟨(same slot).2.2.2.1, (same slot).2.1, fun queued =>
    ok.queued slot ((same slot).1 ▸ queued)⟩) noted
  rwa [update_eq_self] at still

theorem keeps_tried : KeepsDeeds queue (OneReaper reaper) (minders queue track (OneReaper reaper) fun _ _ _ _ => True)
    Prod.fst fun history => Tried queue reaper history.2 := by
  rintro who site ⟨log, past⟩ mem new hands doings next owned backed ok - deed
  show Tried queue reaper (track who site mem new past) new (update doings who next)
  have noted := ok.noted who
  generalize doing_eq : doings who = doing at deed noted
  cases deed with
  | aside calm plain same =>
    rw [track_aside calm plain, ← doing_eq, update_eq_self]
    exact ok.aside same who
  | reserve => exact ok.turn (by simp) fun _ => trivial
  | recover | fail | giveUp | cancel => exact ok.exchange (by simp) fun _ => trivial
  | complete =>
    refine ok.exchange (by simp) fun _ => ?_
    split <;> trivial
  | finish => exact ok.turn (by simp) fun _ => trivial
  | @requeue slot deadline now retry _ known lapsed left =>
    refine ok.exchange (by simp) fun mem => ?_
    split
    · have tried := ok.tried slot
      exact ⟨noted.1, tried.trans (Nat.succ_le_succ noted.2), left⟩
    · trivial
  | @claim lease slot =>
    unfold track exchanged
    by_cases queued : (mem.slot slot).state = .queued
    · simp only [if_pos queued]
      refine ok.claim queued (fun other mode held => ?_) fun _ _ => ?_
      · rcases state_of_hold owned backed held with st | st <;> simp [queued] at st
      · cases lease <;> trivial
    · simp only [if_neg queued]
      exact ok.still trivial
  | @publish slot doing _ reserved ready =>
    apply ok.publish
    rcases ready with rfl | rfl
    · exact (show past.tries slot = 0 from noted) ▸ Nat.zero_le _
    · exact noted
  | renew reserved => exact ok.renew _ (state_of_inv owned reserved).2 (hold_alone owned backed reserved)
  | reset reserved =>
    exact ok.retries (state_of_inv owned reserved).2 (Nat.le_of_eq noted) (Nat.zero_le _) (fun _ => Nat.zero_le _)
      (hold_alone owned backed reserved) noted
  | @again slot retry _ reserved =>
    obtain ⟨mine, tries, left⟩ := noted
    refine ok.retries (state_of_inv owned reserved).2 tries left (fun other => absurd mine other)
      (hold_alone owned backed reserved) ?_
    show past.tries slot ≤ _
    simpa [retryOf, slotRef, Ref.field] using tries
  | due | clear | stamp | answer =>
    refine ok.quiet (fun slot => ⟨word_of_set _ _ _ _ _, word_of_set _ _ _ _ _, fun queued => ?_⟩) noted
    exact ok.queued slot ((word_of_set TaskSlot.state _ _ _ _).symm.trans queued)
  | number | read | recheck | reply => exact ok.still trivial
  | see may known =>
    obtain ⟨now, mine⟩ := may
    refine ok.still ?_
    split
    · exact mine
    · trivial
  | date =>
    refine ok.still ?_
    split
    · exact noted
    · trivial
  | count => exact ok.still ⟨noted, le_rfl⟩
  | ask =>
    refine ok.still ?_
    split <;> trivial
  | look =>
    refine ok.still ?_
    split <;> trivial

end

abbrev TryConfig := Config Memory (Stage × Site) ((Tags Shard × List Event) × Past) Call Nat Answer

/-- A new queue has had no task. -/
def blank : Past := ⟨fun _ => 0, []⟩

theorem tried_init (queue : Queue) (reaper : Nat) : Tried queue reaper blank (init queue) fun _ => .nothing where
  noted _ := trivial
  tried _ := Nat.zero_le _
  queued slot queued := by simp [init] at queued
  limit _ := Nat.zero_le _
  older _ in_ := by cases in_
  current _ in_ := by cases in_
  bounded _ _ := ⟨Nat.zero_le _, fun _ in_ => by cases in_⟩

/-- With one reaper, no task is ever claimed more than `max_retries + 1` times,
and all its claims are under one sequence number. -/
theorem bounded_of_reachable {queue : Queue} {reaper : Nat} {config : TryConfig}
    (reached : (minders queue track (OneReaper reaper) fun _ _ _ _ => True).Reachable (dawn queue blank) config) :
    Bounded queue config.history.2.claims := by
  obtain ⟨doings, valid⟩ := extra_of_reachable keeps_tried (tried_init queue reaper) reached
  exact valid.bounded

end ShmActors.Task.Retries
