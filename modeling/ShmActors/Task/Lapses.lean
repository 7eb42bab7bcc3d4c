import ShmActors.Task.DeedRuns

/-! What `reap` takes back: a claim whose own lease has lapsed, in runs in which
the lease of a claim is stored before anyone acts on that claim and no slot is
claimed again between the reaper's load of its state and its exchange. -/

namespace ShmActors.Task.Lapses

open Lib Core Program Function

/-- A claim that `reap(now)` ended: the deadline it was claimed under, and how
often its task had been requeued. -/
structure Lapse where
  slot : Nat
  now : Nat
  deadline : Nat
  requeues : Nat
  failed : Bool
  deriving DecidableEq

/-- The claim was over, and its task was failed only with no retry left. -/
def Lapse.Just (queue : Queue) (lapse : Lapse) : Prop :=
  lapse.deadline < lapse.now ∧ (lapse.failed = true → lapse.requeues = queue.maxRetries)

/-- How often each slot was claimed and the deadline of its last claim, how often
its task was requeued, which claims have their lease still to store, how many
claims of a slot each reaper saw, and all that reapers ended. -/
structure Past where
  claims : Nat → Nat
  lease : Nat → Nat
  requeues : Nat → Nat
  stamping : List (Nat × Nat)
  seen : Nat → Nat
  lapses : List Lapse

def Past.lapse (past : Past) (slot now : Nat) (failed : Bool) : List Lapse :=
  ⟨slot, now, past.lease slot, past.requeues slot, failed⟩ :: past.lapses

def track (actor : Nat) (site : Stage × Site) (before _after : Memory) (past : Past) : Past :=
  match site with
  | (.renew slot, _) => { past with requeues := update past.requeues slot 0 }
  | (.lease lease, .claim slot) =>
    if (before.slot slot).state = .queued then
      { past with
        claims := update past.claims slot (past.claims slot + 1)
        lease := update past.lease slot (lease.getD 0)
        stamping := (actor, slot) :: past.stamping }
    else past
  | (.stamp _, _) => { past with stamping := past.stamping.filter fun entry => entry.1 ≠ actor }
  | (.see slot, _) => { past with seen := update past.seen actor (past.claims slot) }
  | (.lapse slot now, .fail _) =>
    if (before.slot slot).state = .claimed then { past with lapses := past.lapse slot now true } else past
  | (.lapse slot now, .requeue _) =>
    if (before.slot slot).state = .claimed then
      { past with
        requeues := update past.requeues slot (past.requeues slot + 1)
        lapses := past.lapse slot now false }
    else past
  | _ => past

abbrev Past.Stamped (past : Past) (slot : Nat) : Prop := ∀ entry ∈ past.stamping, entry.2 ≠ slot

/-- A claim has stored its lease before its deadline is read and before it is
ended, and the claim a reaper ends is the one it saw. -/
def Prompt (actor : Nat) (site : Stage × Site) (memory : Memory) (past : Past) : Prop :=
  match site with
  | (.date slot _, _) => past.Stamped slot
  | (.plain, .complete slot) | (.plain, .fail slot) =>
    (memory.slot slot).state = .claimed → past.Stamped slot
  | (.lapse slot _, .fail _) | (.lapse slot _, .requeue _) =>
    (memory.slot slot).state = .claimed → past.Stamped slot ∧ past.claims slot = past.seen actor
  | _ => True

/-- Workers claim with a lease. -/
def Leased (_ : Nat) : Call → Prop
  | .work _ lease _ _ => lease ≠ none
  | _ => True

/-- What a reaper has read of a claim holds as long as the claim stands. -/
def Noted (past : Past) (memory : Memory) (actor : Nat) : Doing → Prop
  | .seen slot => past.seen actor ≤ past.claims slot
  | .dated slot deadline => past.seen actor ≤ past.claims slot ∧
      (past.claims slot = past.seen actor → (memory.slot slot).state = .claimed → past.lease slot = deadline)
  | .counted slot deadline retry => past.seen actor ≤ past.claims slot ∧
      (past.claims slot = past.seen actor → (memory.slot slot).state = .claimed →
        past.lease slot = deadline ∧ (memory.slot slot).retry = retry)
  | .claimed slot deadline => (memory.slot slot).state = .claimed ∧ past.lease slot = deadline
  | .renewed slot => past.requeues slot = 0
  | .requeuing slot retry => past.requeues slot = retry + 1
  | _ => True

/-- Its retries are being written. -/
def Counting (slot : Nat) : Doing → Prop
  | .renewed entry | .requeuing entry _ => entry = slot
  | _ => False

structure Dated (queue : Queue) (past : Past) (memory : Memory) (doings : Nat → Doing) : Prop where
  stamping : ∀ actor slot, (actor, slot) ∈ past.stamping ↔ ∃ deadline, doings actor = .claimed slot deadline
  noted : ∀ actor, Noted past memory actor (doings actor)
  leased : ∀ slot, (memory.slot slot).state = .claimed → past.Stamped slot →
    (memory.slot slot).deadline = past.lease slot
  counted : ∀ slot, (∀ actor, ¬ Counting slot (doings actor)) → (memory.slot slot).retry = past.requeues slot
  bounded : ∀ slot, past.requeues slot ≤ queue.maxRetries
  just : ∀ lapse ∈ past.lapses, lapse.Just queue

section

variable {queue : Queue} {past later : Past} {memory after : Memory} {doings : Nat → Doing} {who : Nat}
  {doing : Doing} {slot : Nat}

/-- The same claims, with the same deadlines and retries. -/
def Alike (memory after : Memory) : Prop :=
  ∀ slot, (after.slot slot).state = (memory.slot slot).state ∧
    (after.slot slot).deadline = (memory.slot slot).deadline ∧ (after.slot slot).retry = (memory.slot slot).retry

/-- A claim counted anew, or the same one with the same lease and retries. -/
def Ages (past later : Past) (memory after : Memory) : Prop :=
  ∀ slot, past.claims slot ≤ later.claims slot ∧
    (later.claims slot = past.claims slot → (after.slot slot).state = .claimed →
      (memory.slot slot).state = .claimed ∧ later.lease slot = past.lease slot ∧
        (after.slot slot).retry = (memory.slot slot).retry)

theorem noted_of_ages (noted : Noted past memory who doing) (ages : Ages past later memory after)
    (seen : later.seen who = past.seen who)
    (stands : ∀ slot due, doing = .claimed slot due →
      (after.slot slot).state = .claimed ∧ later.lease slot = past.lease slot)
    (counting : ∀ slot, Counting slot doing → later.requeues slot = past.requeues slot) :
    Noted later after who doing := by
  cases doing with
  | seen slot =>
    show later.seen who ≤ later.claims slot
    exact seen ▸ noted.trans (ages slot).1
  | dated slot due =>
    obtain ⟨earlier, holds⟩ := noted
    refine ⟨seen ▸ earlier.trans (ages slot).1, fun same claimed => ?_⟩
    have grown := (ages slot).1
    obtain ⟨was, lease, -⟩ := (ages slot).2 (by omega) claimed
    rw [lease]
    exact holds (by omega) was
  | counted slot due retry =>
    obtain ⟨earlier, holds⟩ := noted
    refine ⟨seen ▸ earlier.trans (ages slot).1, fun same claimed => ?_⟩
    have grown := (ages slot).1
    obtain ⟨was, lease, retries⟩ := (ages slot).2 (by omega) claimed
    rw [lease, retries]
    exact holds (by omega) was
  | claimed slot due =>
    obtain ⟨claimed, lease⟩ := stands slot due rfl
    exact ⟨claimed, lease.trans noted.2⟩
  | renewed slot => exact (counting slot rfl).trans noted
  | requeuing slot retry => exact (counting slot rfl).trans noted
  | _ => trivial

/-- Neither a claim with its lease to store nor a task with its retries to write. -/
def light : Doing → Bool
  | .claimed _ _ | .renewed _ | .requeuing _ _ => false
  | _ => true

def Light (doing : Doing) : Prop := light doing = true

theorem Light.claimed (holds : Light doing) (slot due : Nat) : doing ≠ .claimed slot due := by
  rintro rfl
  cases holds

theorem Light.counting (holds : Light doing) (slot : Nat) : ¬ Counting slot doing := by
  intro counting
  cases doing <;> first | exact counting | cases (show false = true from holds)

theorem light_of (at_ : doings who = doing) (holds : light doing = true) : Light (doings who) :=
  at_ ▸ holds

theorem Dated.not_stamped (ok : Dated queue past memory doings)
    (claimed : doings who = .claimed slot due) : ¬ past.Stamped slot := fun stamped =>
  stamped (who, slot) ((ok.stamping who slot).mpr ⟨due, claimed⟩) rfl

theorem Dated.stamping_step (ok : Dated queue past memory doings)
    (old : ∀ slot due, doings who ≠ .claimed slot due)
    (light : ∀ slot due, next ≠ .claimed slot due) (other slot : Nat) :
    (other, slot) ∈ past.stamping ↔ ∃ due, update doings who next other = .claimed slot due := by
  rw [ok.stamping]
  by_cases mine : other = who
  · subst mine
    rw [update_self]
    constructor
    · rintro ⟨due, claimed⟩
      exact absurd claimed (old slot due)
    · rintro ⟨due, claimed⟩
      exact absurd claimed (light slot due)
  · rw [update_of_ne mine]

theorem not_counting (light : ¬ Counting slot (doings who))
    (none : ∀ other, ¬ Counting slot (update doings who next other)) (other : Nat) :
    ¬ Counting slot (doings other) := by
  by_cases mine : other = who
  · subst mine
    exact light
  · have free := none other
    rwa [update_of_ne mine] at free

/-- What everyone has noted, after a step of one actor. -/
theorem Dated.noted_step (ok : Dated queue past memory doings) (ages : Ages past later memory after)
    (seen : ∀ other, other ≠ who → later.seen other = past.seen other)
    (stands : ∀ slot, (memory.slot slot).state = .claimed → ¬ past.Stamped slot →
      (after.slot slot).state = .claimed ∧ later.lease slot = past.lease slot)
    (counting : ∀ other, other ≠ who → ∀ slot, Counting slot (doings other) →
      later.requeues slot = past.requeues slot)
    (own : Noted later after who next) (other : Nat) :
    Noted later after other (update doings who next other) := by
  by_cases mine : other = who
  · subst mine
    rwa [update_self]
  · rw [update_of_ne mine]
    have noted := ok.noted other
    refine noted_of_ages noted ages (seen other mine) (fun slot due claimed => ?_) (counting other mine)
    have open_ := ok.not_stamped claimed
    rw [claimed] at noted
    exact stands slot noted.1 open_

/-- A step that turns no slot. -/
theorem Dated.quiet (ok : Dated queue past memory doings) (old : Light (doings who)) (light : Light next)
    (same : Alike memory after) (seen : Nat → Nat) (others : ∀ other, other ≠ who → seen other = past.seen other)
    (own : Noted { past with seen := seen } after who next) :
    Dated queue { past with seen := seen } after (update doings who next) where
  stamping := ok.stamping_step old.claimed light.claimed
  noted := by
    refine ok.noted_step (fun slot => ⟨le_rfl, fun _ claimed => ?_⟩) others ?_ (fun _ _ _ _ => rfl) own
    · exact ⟨(same slot).1 ▸ claimed, rfl, (same slot).2.2⟩
    · exact fun slot claimed _ => ⟨(same slot).1.trans claimed, rfl⟩
  leased slot claimed stamped := by
    rw [(same slot).2.1]
    exact ok.leased slot ((same slot).1 ▸ claimed) stamped
  counted slot none := by
    rw [(same slot).2.2]
    exact ok.counted slot (not_counting (old.counting slot) none)
  bounded := ok.bounded
  just := ok.just

theorem Dated.aside (ok : Dated queue past memory doings)
    (same : Alike memory after) : Dated queue past after doings where
  stamping := ok.stamping
  noted who := by
    refine noted_of_ages (ok.noted who) (fun slot => ⟨le_rfl, fun _ claimed => ?_⟩) rfl ?_ fun _ _ => rfl
    · exact ⟨(same slot).1 ▸ claimed, rfl, (same slot).2.2⟩
    · intro slot due claimed
      have noted := ok.noted who
      rw [claimed] at noted
      exact ⟨(same slot).1.trans noted.1, rfl⟩
  leased slot claimed stamped := by
    rw [(same slot).2.1]
    exact ok.leased slot ((same slot).1 ▸ claimed) stamped
  counted slot none := by
    rw [(same slot).2.2]
    exact ok.counted slot none
  bounded := ok.bounded
  just := ok.just

section

theorem state_set (entry : Nat) :
    (((stateOf slot).set new memory).slot entry).state = if entry = slot then new else (memory.slot entry).state := by
  by_cases same : entry = slot
  · subst same
    simp [stateOf, slotRef, Ref.field]
  · simp [stateOf, slotRef, Ref.field, same]

/-- A turn of a state changes no other word. -/
theorem words_set (entry : Nat) :
    (((stateOf slot).set new memory).slot entry).deadline = (memory.slot entry).deadline ∧
      (((stateOf slot).set new memory).slot entry).retry = (memory.slot entry).retry :=
  ⟨word_of_set _ _ _ _ _, word_of_set _ _ _ _ _⟩

theorem claimed_of_set (other : new ≠ .claimed)
    (claimed : (((stateOf slot).set new memory).slot entry).state = .claimed) :
    entry ≠ slot ∧ (memory.slot entry).state = .claimed := by
  rw [state_set] at claimed
  split at claimed
  · exact absurd claimed other
  · exact ⟨by assumption, claimed⟩

theorem ages_turn (other : new ≠ .claimed) : Ages past past memory ((stateOf slot).set new memory) := fun entry =>
  ⟨le_rfl, fun _ claimed => ⟨(claimed_of_set other claimed).2, rfl, (words_set entry).2⟩⟩

theorem stands_turn (safe : (memory.slot slot).state = .claimed → past.Stamped slot) (entry : Nat)
    (claimed : (memory.slot entry).state = .claimed) (open_ : ¬ past.Stamped entry) :
    (((stateOf slot).set new memory).slot entry).state = .claimed := by
  have ne : entry ≠ slot := by
    rintro rfl
    exact open_ (safe claimed)
  rw [state_set, if_neg ne, claimed]

/-- The turn of a state, except by a claim. -/
theorem Dated.turn (ok : Dated queue past memory doings) (old : Light (doings who)) (light : Light next)
    (other : new ≠ .claimed) (safe : (memory.slot slot).state = .claimed → past.Stamped slot)
    (own : ∀ memory, Noted past memory who next) :
    Dated queue past ((stateOf slot).set new memory) (update doings who next) where
  stamping := ok.stamping_step old.claimed light.claimed
  noted := ok.noted_step (ages_turn other) (fun _ _ => rfl)
    (fun entry claimed open_ => ⟨stands_turn safe entry claimed open_, rfl⟩) (fun _ _ _ _ => rfl) (own _)
  leased entry claimed stamped := by
    rw [(words_set entry).1]
    exact ok.leased entry (claimed_of_set other claimed).2 stamped
  counted entry none := by
    rw [(words_set entry).2]
    exact ok.counted entry (not_counting (old.counting entry) none)
  bounded := ok.bounded
  just := ok.just

end

section

variable {slot : Nat} (ok : Dated queue past memory doings)

include ok

/-- The submit's own task starts with no requeue. -/
theorem Dated.renew {seq : Nat} (numbered : doings who = .numbered slot seq)
    (alone : ∀ other, other ≠ who → ¬ Counting slot (doings other)) (new : Nat) :
    Dated queue { past with requeues := update past.requeues slot 0 } ((seqOf slot).set new memory)
      (update doings who (.renewed slot)) := by
  have same : Alike memory ((seqOf slot).set new memory) := fun _ =>
    ⟨word_of_set _ _ _ _ _, word_of_set _ _ _ _ _, word_of_set _ _ _ _ _⟩
  refine ⟨ok.stamping_step (by simp [numbered]) (by simp), ?_, ?_, ?_, ?_, ok.just⟩
  · apply ok.noted_step
    · exact fun entry => ⟨le_rfl, fun _ claimed => ⟨(same entry).1 ▸ claimed, rfl, (same entry).2.2⟩⟩
    · exact fun _ _ => rfl
    · exact fun entry claimed _ => ⟨(same entry).1.trans claimed, rfl⟩
    · intro other different entry counting
      have ne : entry ≠ slot := by
        rintro rfl
        exact alone other different counting
      exact update_of_ne ne _ _
    · exact update_self _ _ _
  · intro entry claimed stamped
    rw [(same entry).2.1]
    exact ok.leased entry ((same entry).1 ▸ claimed) stamped
  · intro entry none
    have ne : entry ≠ slot := by
      rintro rfl
      have mine := none who
      rw [update_self] at mine
      exact mine rfl
    rw [(same entry).2.2]
    show _ = update past.requeues slot 0 entry
    rw [update_of_ne ne]
    exact ok.counted entry (not_counting (by simp [numbered, Counting]) none)
  · intro entry
    by_cases here : entry = slot
    · subst here
      simp
    · simpa [here] using ok.bounded entry

/-- The retries of a task are written: none for a new one, one more for a
requeued one. -/
theorem Dated.retries (reserved : (memory.slot slot).state = .reserved)
    (counting : ∀ entry, Counting entry (doings who) → entry = slot) (exact_ : past.requeues slot = retry)
    (old : ∀ slot due, doings who ≠ .claimed slot due)
    (light : ∀ slot due, next ≠ .claimed slot due) (own : ∀ memory, Noted past memory who next) :
    Dated queue past ((retryOf slot).set retry memory) (update doings who next) := by
  have states (entry : Nat) : (((retryOf slot).set retry memory).slot entry).state = (memory.slot entry).state ∧
      (((retryOf slot).set retry memory).slot entry).deadline = (memory.slot entry).deadline :=
    ⟨word_of_set _ _ _ _ _, word_of_set _ _ _ _ _⟩
  have others {entry : Nat} (ne : entry ≠ slot) :
      (((retryOf slot).set retry memory).slot entry).retry = (memory.slot entry).retry := by
    simp [retryOf, slotRef, Ref.field, ne]
  refine ⟨ok.stamping_step old light, ?_, ?_, ?_, ok.bounded, ok.just⟩
  · apply ok.noted_step
    · refine fun entry => ⟨le_rfl, fun _ claimed => ?_⟩
      rw [(states entry).1] at claimed
      have ne : entry ≠ slot := by
        rintro rfl
        simp [reserved] at claimed
      exact ⟨claimed, rfl, others ne⟩
    · exact fun _ _ => rfl
    · exact fun entry claimed _ => ⟨(states entry).1.trans claimed, rfl⟩
    · exact fun _ _ _ _ => rfl
    · exact own _
  · intro entry claimed stamped
    rw [(states entry).2]
    exact ok.leased entry ((states entry).1 ▸ claimed) stamped
  · intro entry none
    by_cases here : entry = slot
    · subst here
      simpa [retryOf, slotRef, Ref.field] using exact_.symm
    · rw [others here]
      exact ok.counted entry (not_counting (fun mine => here (counting entry mine)) none)

omit ok

theorem deadline_set (memory : Memory) (slot due entry : Nat) :
    (((deadlineOf slot).set due memory).slot entry).state = (memory.slot entry).state ∧
      (((deadlineOf slot).set due memory).slot entry).retry = (memory.slot entry).retry ∧
      (((deadlineOf slot).set due memory).slot entry).deadline =
        if entry = slot then due else (memory.slot entry).deadline := by
  by_cases here : entry = slot
  · subst here
    simp [deadlineOf, slotRef, Ref.field]
  · simp [deadlineOf, slotRef, Ref.field, here]

include ok

/-- The deadline of a task that is not claimed. -/
theorem Dated.due {due : Nat}
    (reserved : (memory.slot slot).state = .reserved) (old : Light (doings who)) (light : Light next)
    (own : ∀ memory, Noted past memory who next) :
    Dated queue past ((deadlineOf slot).set due memory) (update doings who next) := by
  have same := deadline_set memory slot due
  refine ⟨ok.stamping_step old.claimed light.claimed, ?_, ?_, ?_, ok.bounded, ok.just⟩
  · apply ok.noted_step
    · exact fun entry => ⟨le_rfl, fun _ claimed => ⟨(same entry).1 ▸ claimed, rfl, (same entry).2.1⟩⟩
    · exact fun _ _ => rfl
    · exact fun entry claimed _ => ⟨(same entry).1.trans claimed, rfl⟩
    · exact fun _ _ _ _ => rfl
    · exact own _
  · intro entry claimed stamped
    rw [(same entry).1] at claimed
    have ne : entry ≠ slot := by
      rintro rfl
      simp [reserved] at claimed
    rw [(same entry).2.2, if_neg ne]
    exact ok.leased entry claimed stamped
  · intro entry none
    rw [(same entry).2.1]
    exact ok.counted entry (not_counting (old.counting entry) none)

/-- A claim stores its lease. -/
theorem Dated.stamp {due : Nat} (claimed : doings who = .claimed slot due) :
    Dated queue { past with stamping := past.stamping.filter fun entry => entry.1 ≠ who }
      ((deadlineOf slot).set due memory) (update doings who .nothing) := by
  have same := deadline_set memory slot due
  have noted := ok.noted who
  rw [claimed] at noted
  obtain ⟨-, lease⟩ := noted
  have mine {entry : Nat} (in_ : (who, entry) ∈ past.stamping) : entry = slot := by
    obtain ⟨_, at_⟩ := (ok.stamping who entry).mp in_
    rw [claimed] at at_
    cases at_
    rfl
  refine ⟨fun other entry => ?_, ?_, ?_, ?_, ok.bounded, ok.just⟩
  · rw [List.mem_filter, ok.stamping]
    by_cases here : other = who
    · subst here
      simp
    · simp [here]
  · apply ok.noted_step
    · exact fun entry => ⟨le_rfl, fun _ claimed => ⟨(same entry).1 ▸ claimed, rfl, (same entry).2.1⟩⟩
    · exact fun _ _ => rfl
    · exact fun entry claimed _ => ⟨(same entry).1.trans claimed, rfl⟩
    · exact fun _ _ _ _ => rfl
    · trivial
  · intro entry now stamped
    rw [(same entry).1] at now
    rw [(same entry).2.2]
    split
    · rename_i here
      exact here ▸ lease.symm
    · rename_i ne
      refine ok.leased entry now fun other in_ here => ?_
      have different : other.1 ≠ who := by
        rintro rfl
        exact ne (here ▸ mine in_)
      exact stamped other (List.mem_filter.mpr ⟨in_, by simpa using different⟩) here
  · intro entry none
    rw [(same entry).2.1]
    exact ok.counted entry (not_counting (by simp [claimed, Counting]) none)

/-- A claim won. -/
theorem Dated.claim {due : Nat} (queued : (memory.slot slot).state = .queued) (idle : doings who = .nothing) :
    Dated queue { past with
        claims := update past.claims slot (past.claims slot + 1)
        lease := update past.lease slot due
        stamping := (who, slot) :: past.stamping }
      ((stateOf slot).set .claimed memory) (update doings who (.claimed slot due)) := by
  have open_ {entry : Nat} (claimed : (((stateOf slot).set .claimed memory).slot entry).state = .claimed)
      (ne : entry ≠ slot) : (memory.slot entry).state = .claimed := by
    rwa [state_set, if_neg ne] at claimed
  refine ⟨fun other entry => ?_, ?_, ?_, ?_, ok.bounded, ok.just⟩
  · rw [List.mem_cons, ok.stamping]
    by_cases here : other = who
    · subst here
      simp [idle, eq_comm]
    · simp [here]
  · apply ok.noted_step
    · intro entry
      by_cases here : entry = slot
      · subst here
        simp
      · refine ⟨by simp [here], fun _ claimed => ?_⟩
        exact ⟨open_ claimed here, by simp [here], (words_set entry).2⟩
    · exact fun _ _ => rfl
    · intro entry claimed _
      have ne : entry ≠ slot := by
        rintro rfl
        simp [queued] at claimed
      rw [state_set, if_neg ne]
      exact ⟨claimed, by simp [ne]⟩
    · exact fun _ _ _ _ => rfl
    · exact ⟨by simp, by simp⟩
  · intro entry claimed stamped
    have ne : entry ≠ slot := by
      rintro rfl
      exact stamped _ List.mem_cons_self rfl
    rw [(words_set entry).1]
    show _ = update past.lease slot due entry
    rw [update_of_ne ne]
    exact ok.leased entry (open_ claimed ne) fun other in_ => stamped other (List.mem_cons_of_mem _ in_)
  · intro entry none
    rw [(words_set entry).2]
    exact ok.counted entry (not_counting (by simp [idle, Counting]) none)

variable {now due retry : Nat} (counted : doings who = .counted slot due retry)

include counted

/-- A reaper's exchange that wins ends the claim it has read about. -/
theorem Dated.just_lapse (lapsed : due < now)
    (claimed : (memory.slot slot).state = .claimed) (same : past.claims slot = past.seen who)
    (none : ∀ other, ¬ Counting slot (doings other)) : past.lease slot < now ∧ past.requeues slot = retry := by
  have noted := ok.noted who
  rw [counted] at noted
  obtain ⟨lease, retries⟩ := noted.2 same claimed
  exact ⟨lease ▸ lapsed, (ok.counted slot none).symm.trans retries⟩

theorem Dated.giveUp (lapsed : due < now)
    (tried : queue.maxRetries ≤ retry) (claimed : (memory.slot slot).state = .claimed)
    (stamped : past.Stamped slot) (same : past.claims slot = past.seen who)
    (none : ∀ other, ¬ Counting slot (doings other)) :
    Dated queue { past with lapses := past.lapse slot now true } ((stateOf slot).set .failed memory)
      (update doings who .nothing) := by
  obtain ⟨finished, requeues⟩ := ok.just_lapse counted lapsed claimed same none
  have turned : Dated queue past ((stateOf slot).set .failed memory) (update doings who .nothing) :=
    ok.turn (light_of counted rfl) rfl (by simp) (fun _ => stamped)
      fun _ => trivial
  refine { turned with just := fun lapse in_ => ?_ }
  rcases List.mem_cons.mp in_ with rfl | older
  · have bound := ok.bounded slot
    exact ⟨finished, fun _ => show past.requeues slot = queue.maxRetries by omega⟩
  · exact ok.just lapse older

theorem Dated.requeue (lapsed : due < now)
    (left : retry < queue.maxRetries) (claimed : (memory.slot slot).state = .claimed)
    (stamped : past.Stamped slot) (same : past.claims slot = past.seen who)
    (none : ∀ other, ¬ Counting slot (doings other)) :
    Dated queue { past with
        requeues := update past.requeues slot (past.requeues slot + 1)
        lapses := past.lapse slot now false }
      ((stateOf slot).set .reserved memory) (update doings who (.requeuing slot retry)) := by
  obtain ⟨finished, requeues⟩ := ok.just_lapse counted lapsed claimed same none
  refine ⟨ok.stamping_step (by simp [counted]) (by simp), ?_, ?_, ?_, ?_, ?_⟩
  · apply ok.noted_step
    · exact ages_turn (by simp)
    · exact fun _ _ => rfl
    · exact fun entry claimed open_ => ⟨stands_turn (fun _ => stamped) entry claimed open_, rfl⟩
    · intro other _ entry counting
      have ne : entry ≠ slot := by
        rintro rfl
        exact none other counting
      exact update_of_ne ne _ _
    · show update past.requeues slot (past.requeues slot + 1) slot = retry + 1
      rw [update_self, requeues]
  · intro entry claimed stamped
    rw [(words_set entry).1]
    exact ok.leased entry (claimed_of_set (by simp) claimed).2 stamped
  · intro entry free
    have ne : entry ≠ slot := by
      rintro rfl
      have mine := free who
      rw [update_self] at mine
      exact mine rfl
    rw [(words_set entry).2]
    show _ = update past.requeues slot _ entry
    rw [update_of_ne ne]
    exact ok.counted entry (not_counting (by simp [counted, Counting]) free)
  · intro entry
    by_cases here : entry = slot
    · subst here
      show update past.requeues entry _ entry ≤ _
      rw [update_self]
      omega
    · simpa [here] using ok.bounded entry
  · intro lapse in_
    rcases List.mem_cons.mp in_ with rfl | older
    · exact ⟨finished, fun failed => by cases failed⟩
    · exact ok.just lapse older

end

end

section

variable {doings : Nat → Doing}

theorem hold_of_counting (counting : Counting slot doing) : doing.hold = some (slot, .reserved) := by
  cases doing with
  | renewed entry | requeuing entry retry =>
    cases counting
    rfl
  | _ => cases counting

theorem counting_alone (owned : (ownership queue).inv log mem hands)
    (backed : ∀ other, (doings other).Backed (hands other).2)
    (mine : (hands who).2.slots slot = some mode) (ne : other ≠ who) : ¬ Counting slot (doings other) := by
  intro counting
  exact hold_alone owned backed mine other ne _ (hold_of_counting counting)

/-- A claimed slot is in nobody's hands. -/
theorem not_counting_of_claimed (owned : (ownership queue).inv log mem hands)
    (backed : ∀ other, (doings other).Backed (hands other).2)
    (claimed : (mem.slot slot).state = .claimed) (other : Nat) : ¬ Counting slot (doings other) := by
  intro counting
  have reserved : (mem.slot slot).state = .reserved :=
    (state_of_inv owned (backed other slot .reserved (hold_of_counting counting))).2
  simp [claimed] at reserved

theorem track_aside (calm : stage.calm = true)
    (plain : turnOf site = none) : track who (stage, site) mem new past = past := by
  unfold track
  split <;> simp_all [Stage.calm, turnOf]

variable (ok : Dated queue past mem doings)

include ok

/-- A step that neither turns a slot nor is one of `see`. -/
theorem Dated.still (old : Light (doings who)) (light : Light next) (own : Noted past mem who next) :
    Dated queue past mem (update doings who next) :=
  ok.quiet old light (fun _ => ⟨rfl, rfl, rfl⟩) past.seen (fun _ _ => rfl) own

/-- An exchange, except by a claim. -/
theorem Dated.exchange (old : Light (doings who)) (light : Light next) (other : new ≠ .claimed)
    (safe : (mem.slot slot).state = .claimed → now = .claimed → past.Stamped slot)
    (own : ∀ mem, Noted past mem who next) :
    Dated queue past (exchanged slot now new mem) (update doings who next) := by
  unfold exchanged
  split
  · rename_i got
    exact ok.turn old light other (fun claimed => safe claimed (got ▸ claimed)) own
  · exact ok.still old light (own _)

theorem Dated.see (old : Light (doings who)) :
    Dated queue { past with seen := update past.seen who (past.claims slot) } mem
      (update doings who (if (mem.slot slot).state = .claimed then .seen slot else .nothing)) := by
  refine ok.quiet old ?_ (fun _ => ⟨rfl, rfl, rfl⟩) _
    (fun other ne => update_of_ne ne _ _) ?_
  · split <;> rfl
  · split
    · show update past.seen who (past.claims slot) who ≤ past.claims slot
      rw [update_self]
    · trivial

theorem Dated.date (seen : doings who = .seen slot) (stamped : past.Stamped slot) :
    Dated queue past mem (update doings who (if (mem.slot slot).deadline < now
      then .dated slot (mem.slot slot).deadline else .nothing)) := by
  refine ok.still (light_of seen rfl) ?_ ?_
  · split <;> rfl
  · have noted := ok.noted who
    rw [seen] at noted
    split
    · exact ⟨noted, fun _ claimed => (ok.leased slot claimed stamped).symm⟩
    · trivial

theorem Dated.count {due : Nat} (dated : doings who = .dated slot due) :
    Dated queue past mem (update doings who (.counted slot due (mem.slot slot).retry)) := by
  refine ok.still (light_of dated rfl) rfl ?_
  have noted := ok.noted who
  rw [dated] at noted
  exact ⟨noted.1, fun same claimed => ⟨noted.2 same claimed, rfl⟩⟩

theorem Dated.result (old : Light (doings who)) (light : Light next) (own : ∀ mem, Noted past mem who next) :
    Dated queue past ((resultOf slot).set res mem) (update doings who next) := by
  have aside : Dated queue past ((resultOf slot).set res mem) doings := by
    apply ok.aside
    exact fun _ => ⟨word_of_set _ _ _ _ _, word_of_set _ _ _ _ _, word_of_set _ _ _ _ _⟩
  exact aside.still old light (own _)

omit ok

theorem keeps_dated : KeepsDeeds queue Leased (minders queue track Leased Prompt) Prod.fst
    fun history => Dated queue history.2 := by
  rintro who site ⟨log, past⟩ mem new hands doings next owned backed ok ⟨-, prompt⟩ deed
  have alone {slot : Nat} {mode : Mode} (mine : (hands who).2.slots slot = some mode) (other : Nat)
      (ne : other ≠ who) := counting_alone owned backed mine ne
  show Dated queue (track who site mem new past) new (update doings who next)
  generalize doing_eq : doings who = doing at deed
  cases deed with
  | aside calm plain same =>
    rw [track_aside calm plain, ← doing_eq, update_eq_self]
    exact ok.aside fun slot => ⟨(same slot).1, (same slot).2.2.1, (same slot).2.2.2.1⟩
  | reserve spent =>
    refine ok.turn (light_of doing_eq rfl) rfl (by simp) (fun claimed => ?_) fun _ => trivial
    have st := (state_of_inv owned spent).2
    simp [claimed, Mode.allows] at st
  | recover | cancel =>
    exact ok.exchange (light_of doing_eq rfl) rfl (by simp) (fun _ other => by cases other) fun _ => trivial
  | fail =>
    exact ok.exchange (light_of doing_eq rfl) rfl (by simp) (fun claimed _ => prompt claimed) fun _ => trivial
  | complete =>
    refine ok.exchange (light_of doing_eq rfl) ?_ (by simp) (fun claimed _ => prompt claimed) fun _ => ?_
    · split <;> rfl
    · split <;> trivial
  | reply answers =>
    refine ok.still ?_ rfl trivial
    rcases answers with rfl | ⟨rfl, -⟩ <;> exact light_of doing_eq rfl
  | number | read | recheck => exact ok.still (light_of doing_eq rfl) rfl trivial
  | ask =>
    refine ok.still (light_of doing_eq rfl) ?_ ?_
    · split <;> rfl
    · split <;> trivial
  | look =>
    refine ok.still (light_of doing_eq rfl) ?_ ?_
    · split <;> rfl
    · split <;> trivial
  | renew reserved => exact ok.renew doing_eq (alone reserved) _
  | @reset slot _ reserved =>
    have none : past.requeues slot = 0 := by
      have noted := ok.noted who
      rwa [doing_eq] at noted
    exact ok.retries (state_of_inv owned reserved).2 (by simp [doing_eq, Counting]) none (by simp [doing_eq])
      (by simp) fun _ => trivial
  | @again slot retry _ reserved =>
    have more : past.requeues slot = retry + 1 := by
      have noted := ok.noted who
      rwa [doing_eq] at noted
    exact ok.retries (state_of_inv owned reserved).2 (by simp [doing_eq, Counting]) more (by simp [doing_eq])
      (by simp) fun _ => trivial
  | due reserved =>
    exact ok.due (state_of_inv owned reserved).2 (light_of doing_eq rfl) rfl fun _ => trivial
  | clear | answer => exact ok.result (light_of doing_eq rfl) rfl fun _ => trivial
  | publish reserved ready =>
    refine ok.turn ?_ rfl (by simp) (fun claimed => ?_) fun _ => trivial
    · rcases ready with rfl | rfl <;> exact light_of doing_eq rfl
    · have st := (state_of_inv owned reserved).2
      simp [claimed, Mode.allows] at st
  | finish completing =>
    refine ok.turn (light_of doing_eq rfl) rfl (by simp) (fun claimed => ?_) fun _ => trivial
    have st := (state_of_inv owned completing).2
    simp [claimed, Mode.allows] at st
  | @claim lease slot _ worker live =>
    obtain ⟨_, _, _, leased⟩ := worker
    obtain ⟨deadline, rfl⟩ := Option.ne_none_iff_exists'.mp leased
    unfold exchanged track
    by_cases queued : (mem.slot slot).state = .queued
    · simp only [if_pos queued]
      exact ok.claim queued doing_eq
    · simp only [if_neg queued]
      exact ok.still (light_of doing_eq rfl) rfl trivial
  | stamp => exact ok.stamp doing_eq
  | see => exact ok.see (light_of doing_eq rfl)
  | date => exact ok.date doing_eq prompt
  | count => exact ok.count doing_eq
  | @giveUp slot deadline now retry _ known lapsed tried =>
    unfold exchanged track
    by_cases claimed : (mem.slot slot).state = .claimed
    · simp only [if_pos claimed]
      obtain ⟨stamped, same⟩ := prompt claimed
      exact ok.giveUp doing_eq lapsed tried claimed stamped same (not_counting_of_claimed owned backed claimed)
    · simp only [if_neg claimed]
      exact ok.still (light_of doing_eq rfl) rfl trivial
  | @requeue slot deadline now retry _ known lapsed left =>
    unfold exchanged track
    by_cases claimed : (mem.slot slot).state = .claimed
    · simp only [if_pos claimed]
      obtain ⟨stamped, same⟩ := prompt claimed
      exact ok.requeue doing_eq lapsed left claimed stamped same (not_counting_of_claimed owned backed claimed)
    · simp only [if_neg claimed]
      exact ok.still (light_of doing_eq rfl) rfl trivial

end

abbrev LapseConfig := Config Memory (Stage × Site) ((Tags Shard × List Event) × Past) Call Nat Answer

/-- Nothing has happened to a new queue. -/
def blank : Past := ⟨fun _ => 0, fun _ => 0, fun _ => 0, [], fun _ => 0, []⟩

theorem dated_init (queue : Queue) : Dated queue blank (init queue) fun _ => .nothing where
  stamping := by simp [blank]
  noted _ := trivial
  leased slot claimed _ := by simp [init] at claimed
  counted _ _ := rfl
  bounded _ := Nat.zero_le _
  just _ in_ := by cases in_

/-- In every prompt run, every claim that a `reap` ended had lapsed under its own
lease, and the tasks it failed had used up their retries. -/
theorem just_of_reachable {queue : Queue} {config : LapseConfig}
    (reached : (minders queue track Leased Prompt).Reachable (dawn queue blank) config) :
    ∀ lapse ∈ config.history.2.lapses, lapse.Just queue := by
  obtain ⟨doings, valid⟩ := extra_of_reachable keeps_dated (dated_init queue) reached
  exact valid.just

section

instance (actor : Nat) : (op : Call) → Decidable (Leased actor op)
  | .work _ lease _ _ => inferInstanceAs (Decidable (lease ≠ none))
  | .submit _ _ _ | .cancel _ | .reap _ | .ack _ | .reapBindings _ _ | .poll _ => inferInstanceAs (Decidable True)

instance (actor : Nat) (site : Stage × Site) (memory : Memory) (past : Past) :
    Decidable (Prompt actor site memory past) := by
  unfold Prompt
  split <;> infer_instance

/-- A worker that claims under a lease and dies. -/
def dying (deadline : Nat) : Call := .work 8 (some deadline) (fun _ => []) fun _ => .drop

/-- A worker has claimed under a lease until 1000, which it has yet to store when
`reap(100)` comes by. -/
def early : List (Stretch Call) :=
  [.begin 0 (.submit .zero 5 none), .run 0 60 1, .begin 1 (dying 1000), .run 1 10 1, .begin 2 (.reap 100), .run 2 60 1]

theorem early_not_just : ∃ config,
    (minders single track Leased fun _ _ _ _ => True).Reachable (dawn single blank) config ∧
      ∃ lapse ∈ config.history.2.lapses, ¬ lapse.Just single := by
  refine ⟨(minders single track Leased fun _ _ _ _ => True).follow early (dawn single blank),
    Actors.reachable_follow early .refl, ⟨0, 100, 1000, 0, false⟩, by decide +kernel, ?_⟩
  simp [Lapse.Just]

/-- A queue of one slot whose tasks are retried once. -/
def stern : Queue := ⟨1, 1, Nat.isPowerOfTwo_one, one_fits⟩

/-- Two workers die with the task: it is requeued, then failed. -/
def twice : List (Stretch Call) :=
  [.begin 0 (.submit .zero 5 none), .run 0 60 1, .begin 1 (dying 10), .run 1 60 1, .begin 2 (.reap 100), .run 2 60 1,
    .begin 3 (dying 150), .run 3 60 1, .begin 2 (.reap 200), .run 2 60 1]

theorem just_of_twice :
    ((minders stern track Leased Prompt).follow twice (dawn stern blank)).history.2.lapses =
      [⟨0, 200, 150, 1, true⟩, ⟨0, 100, 10, 0, false⟩] ∧
    ∀ lapse ∈ ((minders stern track Leased Prompt).follow twice (dawn stern blank)).history.2.lapses,
      lapse.Just stern :=
  ⟨by decide +kernel, just_of_reachable (Actors.reachable_follow twice .refl)⟩

end

end ShmActors.Task.Lapses
