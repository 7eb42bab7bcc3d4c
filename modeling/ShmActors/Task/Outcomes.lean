import ShmActors.Task.DeedRuns

/-! What polls report: in runs in which a poll that finds a task unfinished looks
at the slot while it still belongs to that task, a terminal outcome stays, and
every outcome is one the polled task has had. -/

namespace ShmActors.Task.Outcomes

open Lib Core Program Function

abbrev Outcome := Except QueueError TaskStatus

/-- What a poll says of the task in a slot. -/
def statusOf (slot : TaskSlot) : Option TaskStatus :=
  match slot.state with
  | .queued | .reserved => some .queued
  | .claimed | .completing => some .claimed
  | .done => some (.done slot.result)
  | .failed => some .failed
  | .cancelled => some .cancelled
  | .empty => none

def terminal : TaskStatus → Bool
  | .done _ | .failed | .cancelled => true
  | .queued | .claimed => false

/-- What a poll returned, and what polls had returned when it began. -/
structure Reply where
  handle : TaskHandle
  outcome : Outcome
  earlier : List (TaskHandle × Outcome)
  deriving DecidableEq

/-- A terminal outcome of the same task is repeated, unless its slot is gone. -/
def Stable (handle : TaskHandle) (outcome : Outcome) (earlier : List (TaskHandle × Outcome)) : Prop :=
  ∀ status, (handle, .ok status) ∈ earlier → terminal status = true →
    outcome = .ok status ∨ outcome = .error .staleHandle

/-- The slots taken for a task that has no sequence number yet, the outcomes each
task has had, by slot and sequence number, what each actor's poll could have
heard of when it began, and all replies. -/
structure Past where
  reusing : Nat → Bool
  had : List (TaskHandle × TaskStatus)
  heard : Nat → List (TaskHandle × Outcome)
  replies : List Reply

/-- The outcome is one of the task polled. -/
def Past.Own (past : Past) (handle : TaskHandle) (outcome : Outcome) : Prop :=
  ∀ status, outcome = .ok status → (handle, status) ∈ past.had

def Past.note (past : Past) (memory : Memory) (slot : Nat) : List (TaskHandle × TaskStatus) :=
  match statusOf (memory.slot slot) with
  | some status => (⟨slot, (memory.slot slot).seq⟩, status) :: past.had
  | none => past.had

/-- What a turn of a state logs: the slot was taken, or its task goes on. -/
def Past.taken (past : Past) (before after : Memory) (slot : Nat) : Past :=
  if (before.slot slot).state = (after.slot slot).state then past
  else { past with reusing := update past.reusing slot true }

def Past.turned (past : Past) (before after : Memory) (slot : Nat) : Past :=
  if (before.slot slot).state = (after.slot slot).state then past else { past with had := past.note after slot }

def track (actor : Nat) (site : Stage × Site) (before after : Memory) (past : Past) : Past :=
  match site with
  | (_, .reserve slot) | (_, .recover slot) => past.taken before after slot
  | (_, .publish slot) | (_, .claim slot) | (_, .cancel slot) | (_, .complete slot) | (_, .requeue slot)
  | (_, .fail slot) | (_, .finish slot) => past.turned before after slot
  | (.renew slot, _) => { past with
      reusing := update past.reusing slot false
      had := past.note after slot }
  | (.ask _, _) => { past with
      heard := update past.heard actor (past.replies.map fun reply => (reply.handle, reply.outcome)) }
  | (.reply handle outcome, _) => { past with replies := ⟨handle, outcome, past.heard actor⟩ :: past.replies }
  | _ => past

/-- A poll that finds a task other than done finds the task of its handle; and no
sequence number wraps. -/
def Attentive (_ : Nat) (site : Stage × Site) (memory : Memory) (past : Past) : Prop :=
  match site with
  | (.look handle, _) => (memory.slot handle.slotIdx).state = .done ∨
      ((memory.slot handle.slotIdx).seq = handle.seq ∧ past.reusing handle.slotIdx = false)
  | (.renew slot, _) => (memory.slot slot).seq + 1 < 2 ^ 64
  | _ => True

/-- Any calls. -/
abbrev Anyone (_ : Nat) (_ : Call) : Prop := True

/-- What an actor in the middle of something can rely on. -/
def Noted (past : Past) (memory : Memory) (actor : Nat) : Doing → Prop
  | .numbered slot seq => (memory.slot slot).seq = seq
  | .renewed slot | .fresh slot | .requeuing slot _ | .requeued slot => past.reusing slot = false
  | .asked handle => handle.seq ≤ (memory.slot handle.slotIdx).seq
  | .found handle => handle.seq ≤ (memory.slot handle.slotIdx).seq ∧
      ((memory.slot handle.slotIdx).seq = handle.seq →
        ((memory.slot handle.slotIdx).state = .done ∨ past.reusing handle.slotIdx = true) ∧
          (handle, .done (memory.slot handle.slotIdx).result) ∈ past.had)
  | .read handle result => handle.seq ≤ (memory.slot handle.slotIdx).seq ∧
      ((memory.slot handle.slotIdx).seq = handle.seq → (handle, .done result) ∈ past.had)
  | .replying handle outcome => past.Own handle outcome ∧ Stable handle outcome (past.heard actor)
  | _ => True

structure Settled (past : Past) (memory : Memory) (doings : Nat → Doing) : Prop where
  reused : ∀ slot, past.reusing slot = true → (memory.slot slot).state = .reserved
  own : ∀ slot, past.reusing slot = false → ∀ status, statusOf (memory.slot slot) = some status →
    (⟨slot, (memory.slot slot).seq⟩, status) ∈ past.had
  older : ∀ handle status, (handle, status) ∈ past.had → handle.seq ≤ (memory.slot handle.slotIdx).seq
  final : ∀ handle status, (handle, status) ∈ past.had → terminal status = true →
    handle.seq = (memory.slot handle.slotIdx).seq →
    past.reusing handle.slotIdx = true ∨ statusOf (memory.slot handle.slotIdx) = some status
  one : ∀ handle first second, (handle, first) ∈ past.had → (handle, second) ∈ past.had →
    terminal first = true → terminal second = true → first = second
  heard : ∀ actor handle outcome, (handle, outcome) ∈ past.heard actor → past.Own handle outcome
  replied : ∀ reply ∈ past.replies,
    past.Own reply.handle reply.outcome ∧ Stable reply.handle reply.outcome reply.earlier
  noted : ∀ actor, Noted past memory actor (doings actor)

section

variable {past later : Past} {memory after : Memory} {doings : Nat → Doing} {who slot : Nat} {handle : TaskHandle}
  {out : Outcome} {status : TaskStatus}

/-- The outcomes had and the sequence numbers only grow, and a finished task keeps
its result until its slot has the next number. -/
structure Grows (past later : Past) (memory after : Memory) : Prop where
  had : ∀ entry ∈ past.had, entry ∈ later.had
  seq : ∀ slot, (memory.slot slot).seq ≤ (after.slot slot).seq
  kept : ∀ slot, (after.slot slot).seq = (memory.slot slot).seq →
    (memory.slot slot).state = .done ∨ past.reusing slot = true →
    ((after.slot slot).state = .done ∨ later.reusing slot = true) ∧
      (after.slot slot).result = (memory.slot slot).result

theorem Past.Own.grows (own : past.Own handle out)
    (had : ∀ entry ∈ past.had, entry ∈ later.had) : later.Own handle out := fun status reported =>
  had _ (own status reported)

theorem noted_of_grows (noted : Noted past memory who doing)
    (grows : Grows past later memory after) (heard : later.heard who = past.heard who)
    (holds : ∀ slot mode, doing.hold = some (slot, mode) → (after.slot slot).seq = (memory.slot slot).seq ∧
      (past.reusing slot = false → later.reusing slot = false)) : Noted later after who doing := by
  cases doing with
  | numbered slot seq => exact (holds slot _ rfl).1.trans noted
  | renewed slot | fresh slot | requeuing slot _ | requeued slot => exact (holds slot _ rfl).2 noted
  | asked handle => exact le_trans noted (grows.seq _)
  | found handle =>
    obtain ⟨older, standing⟩ := noted
    have grown := grows.seq handle.slotIdx
    refine ⟨older.trans grown, fun same => ?_⟩
    obtain ⟨kept, had⟩ := standing (by omega)
    obtain ⟨stays, res⟩ := grows.kept handle.slotIdx (by omega) kept
    rw [res]
    exact ⟨stays, grows.had _ had⟩
  | read handle res =>
    obtain ⟨older, had⟩ := noted
    have grown := grows.seq handle.slotIdx
    exact ⟨older.trans grown, fun same => grows.had _ (had (by omega))⟩
  | replying handle out =>
    obtain ⟨own, stable⟩ := noted
    exact ⟨own.grows grows.had, heard ▸ stable⟩
  | _ => trivial

variable (ok : Settled past memory doings)

include ok

/-- What everyone has noted, after a step of one actor. -/
theorem Settled.noted_step (grows : Grows past later memory after)
    (heard : ∀ other, other ≠ who → later.heard other = past.heard other)
    (holds : ∀ other, other ≠ who → ∀ slot mode, (doings other).hold = some (slot, mode) →
      (after.slot slot).seq = (memory.slot slot).seq ∧ (past.reusing slot = false → later.reusing slot = false))
    (own : Noted later after who next) (other : Nat) :
    Noted later after other (update doings who next other) := by
  by_cases mine : other = who
  · subst mine
    rwa [update_self]
  · rw [update_of_ne mine]
    exact noted_of_grows (ok.noted other) grows (heard other mine) (holds other mine)

/-- The same tasks with the same outcomes. -/
def Alike (memory after : Memory) : Prop :=
  ∀ slot, (after.slot slot).state = (memory.slot slot).state ∧ (after.slot slot).seq = (memory.slot slot).seq ∧
    (after.slot slot).result = (memory.slot slot).result

omit ok

theorem Alike.statusOf_eq (same : Alike memory after) (slot : Nat) :
    statusOf (after.slot slot) = statusOf (memory.slot slot) := by
  unfold statusOf
  rw [(same slot).1, (same slot).2.2]

theorem Alike.grows (same : Alike memory after) : Grows past past memory after where
  had _ in_ := in_
  seq slot := (same slot).2.1.ge
  kept slot _ kept := ⟨(same slot).1 ▸ kept, (same slot).2.2⟩

include ok

/-- A step no task notices. -/
theorem Settled.quiet (same : Alike memory after)
    (own : Noted past after who next) : Settled past after (update doings who next) where
  reused slot reusing := (same slot).1.trans (ok.reused slot reusing)
  own slot free status holds := by
    rw [(same slot).2.1]
    exact ok.own slot free status (same.statusOf_eq slot ▸ holds)
  older handle status in_ := (same handle.slotIdx).2.1 ▸ ok.older handle status in_
  final handle status in_ ended now := by
    rw [same.statusOf_eq]
    exact ok.final handle status in_ ended (now.trans (same _).2.1)
  one := ok.one
  heard := ok.heard
  replied := ok.replied
  noted := ok.noted_step same.grows (fun _ _ => rfl)
    (fun _ _ slot _ _ => ⟨(same slot).2.1, id⟩) own

theorem Settled.aside (same : Alike memory after) (who : Nat) : Settled past after doings := by
  have still := ok.quiet same (noted_of_grows (ok.noted who) same.grows rfl fun slot _ _ =>
    ⟨(same slot).2.1, id⟩)
  rwa [update_eq_self] at still

omit ok

theorem alike_refl : Alike memory memory := fun _ => ⟨rfl, rfl, rfl⟩

theorem stable_stale : Stable handle (.error .staleHandle) earlier := fun _ _ _ => .inr rfl

theorem own_stale : past.Own handle (.error .staleHandle) := fun _ reported => by cases reported

include ok

/-- A poll begins: it may have heard of every reply so far. -/
theorem Settled.ask (handle : TaskHandle) :
    Settled { past with
        heard := update past.heard who (past.replies.map fun reply => (reply.handle, reply.outcome)) }
      memory (update doings who (if (memory.slot handle.slotIdx).seq = handle.seq then .asked handle
        else .replying handle (.error .staleHandle))) where
  reused := ok.reused
  own := ok.own
  older := ok.older
  final := ok.final
  one := ok.one
  heard other target out in_ := by
    by_cases mine : other = who
    · subst mine
      have replied : (target, out) ∈ past.replies.map fun reply => (reply.handle, reply.outcome) := by
        simpa using in_
      obtain ⟨reply, given, same⟩ := List.mem_map.mp replied
      cases same
      exact (ok.replied reply given).1
    · refine ok.heard other target out ?_
      simpa [mine] using in_
  replied := ok.replied
  noted := by
    have same : Grows past { past with heard := update past.heard who (past.replies.map fun reply =>
        (reply.handle, reply.outcome)) } memory memory :=
      ⟨fun _ in_ => in_, fun _ => le_rfl, fun _ _ kept => ⟨kept, rfl⟩⟩
    refine ok.noted_step same (fun other ne => update_of_ne ne _ _)
      (fun _ _ _ _ _ => ⟨rfl, id⟩) ?_
    split
    · exact Nat.le_of_eq (by symm; assumption)
    · exact ⟨own_stale, stable_stale⟩

/-- A poll returns. -/
theorem Settled.reply (own : past.Own handle out) (stable : Stable handle out (past.heard who)) :
    Settled { past with replies := ⟨handle, out, past.heard who⟩ :: past.replies } memory
      (update doings who .nothing) where
  reused := ok.reused
  own := ok.own
  older := ok.older
  final := ok.final
  one := ok.one
  heard := ok.heard
  replied reply in_ := by
    rcases List.mem_cons.mp in_ with rfl | older
    · exact ⟨own, stable⟩
    · exact ok.replied reply older
  noted := by
    have same : Grows past { past with replies := ⟨handle, out, past.heard who⟩ :: past.replies } memory memory :=
      ⟨fun _ in_ => in_, fun _ => le_rfl, fun _ _ kept => ⟨kept, rfl⟩⟩
    exact ok.noted_step same (fun _ _ => rfl) (fun _ _ _ _ _ => ⟨rfl, id⟩) trivial

/-- What a poll finds at its handle's task is what every terminal outcome of that
task was. -/
theorem Settled.stable (had : (handle, status) ∈ past.had)
    (current : terminal status = false → (memory.slot handle.slotIdx).seq = handle.seq ∧
      past.reusing handle.slotIdx = false ∧ statusOf (memory.slot handle.slotIdx) = some status) :
    past.Own handle (.ok status) ∧ Stable handle (.ok status) (past.heard who) := by
  refine ⟨fun other same => by cases same; exact had, fun other earlier ended => .inl ?_⟩
  have old := ok.heard who handle (.ok other) earlier other rfl
  by_cases finished : terminal status = true
  · rw [ok.one handle status other had old finished ended]
  · obtain ⟨same, free, holds⟩ := current (by simpa using finished)
    rcases ok.final handle other old ended same.symm with reusing | now
    · simp [free] at reusing
    · rw [holds] at now
      rw [Option.some.inj now]

/-- The task of a slot goes on to its next state. -/
theorem Settled.turn (free : past.reusing slot = false)
    (going : ∀ status, statusOf (memory.slot slot) = some status → terminal status = false)
    (becomes : statusOf (((stateOf slot).set new memory).slot slot) = some status)
    (own : ∀ later memory, later.reusing = past.reusing → Noted later memory who next) :
    Settled { past with had := (⟨slot, (memory.slot slot).seq⟩, status) :: past.had }
      ((stateOf slot).set new memory) (update doings who next) := by
  have seq (entry : Nat) : (((stateOf slot).set new memory).slot entry).seq = (memory.slot entry).seq :=
    word_of_set _ _ _ _ _
  have elsewhere {entry : Nat} (ne : entry ≠ slot) :
      ((stateOf slot).set new memory).slot entry = memory.slot entry := slot_of_set ne _ _
  have unfinished {other : TaskStatus} (in_ : (⟨slot, (memory.slot slot).seq⟩, other) ∈ past.had)
      (ended : terminal other = true) : False := by
    rcases ok.final _ _ in_ ended rfl with reusing | now
    · simp [free] at reusing
    · simp [going other now] at ended
  refine ⟨fun entry reusing => ?_, fun entry unused other holds => ?_, fun handle other in_ => ?_,
    fun handle other in_ ended current => ?_, fun handle first second one two finished ended => ?_,
    fun other handle out in_ => ?_, fun reply in_ => ?_, ?_⟩
  · have ne : entry ≠ slot := by
      rintro rfl
      simp [free] at reusing
    rw [elsewhere ne]
    exact ok.reused entry reusing
  · rw [seq]
    by_cases here : entry = slot
    · subst here
      rw [becomes] at holds
      cases holds
      exact List.mem_cons_self
    · rw [elsewhere here] at holds
      exact List.mem_cons_of_mem _ (ok.own entry unused other holds)
  · rw [seq]
    rcases List.mem_cons.mp in_ with same | older
    · cases same
      exact le_rfl
    · exact ok.older handle other older
  · rcases List.mem_cons.mp in_ with same | older
    · cases same
      exact .inr becomes
    · rw [seq] at current
      by_cases here : handle.slotIdx = slot
      · subst here
        exact absurd ended fun ended => unfinished (current ▸ older) ended
      · rw [elsewhere here]
        exact ok.final handle other older ended current
  · rcases List.mem_cons.mp one with same | older <;> rcases List.mem_cons.mp two with same' | older'
    · cases same
      cases same'
      rfl
    · cases same
      exact (unfinished older' ended).elim
    · cases same'
      exact (unfinished older finished).elim
    · exact ok.one handle first second older older' finished ended
  · exact (ok.heard other handle out in_).grows fun _ => List.mem_cons_of_mem _
  · obtain ⟨own, stable⟩ := ok.replied reply in_
    exact ⟨own.grows fun _ => List.mem_cons_of_mem _, stable⟩
  · refine ok.noted_step ⟨fun _ => List.mem_cons_of_mem _, fun entry => (seq entry).ge, fun entry _ kept => ?_⟩
      (fun _ _ => rfl) (fun _ _ entry _ _ => ⟨seq entry, id⟩) (own _ _ rfl)
    by_cases here : entry = slot
    · subst here
      rcases kept with done | reusing
      · have finished := going (.done (memory.slot entry).result) (by simp [statusOf, done])
        simp [terminal] at finished
      · simp [free] at reusing
    · rw [elsewhere here]
      exact ⟨kept, rfl⟩

/-- A slot is taken for the next task. -/
theorem Settled.reuse (alone : ∀ other, other ≠ who → ∀ mode, (doings other).hold ≠ some (slot, mode)) :
    Settled { past with reusing := update past.reusing slot true } ((stateOf slot).set .reserved memory)
      (update doings who .nothing) := by
  have seq (entry : Nat) : (((stateOf slot).set .reserved memory).slot entry).seq = (memory.slot entry).seq :=
    word_of_set _ _ _ _ _
  have elsewhere {entry : Nat} (ne : entry ≠ slot) :
      ((stateOf slot).set .reserved memory).slot entry = memory.slot entry := slot_of_set ne _ _
  refine ⟨fun entry reusing => ?_, fun entry unused other holds => ?_, fun handle other in_ => ?_,
    fun handle other in_ ended now => ?_, ok.one, ok.heard, ok.replied, ?_⟩
  · by_cases here : entry = slot
    · subst here
      exact stateOf_set_self _ _
    · rw [elsewhere here]
      exact ok.reused entry (by simpa [here] using reusing)
  · have ne : entry ≠ slot := by
      rintro rfl
      simp at unused
    rw [elsewhere ne] at holds ⊢
    exact ok.own entry (by simpa [ne] using unused) other holds
  · rw [seq]
    exact ok.older handle other in_
  · by_cases here : handle.slotIdx = slot
    · exact .inl (by simp [here])
    · rw [elsewhere here] at now ⊢
      simpa [here] using ok.final handle other in_ ended now
  · refine ok.noted_step ⟨fun _ in_ => in_, fun entry => (seq entry).ge, fun entry _ kept => ?_⟩
      (fun _ _ => rfl) (fun other different entry mode held => ⟨seq entry, fun unused => ?_⟩) trivial
    · by_cases here : entry = slot
      · subst here
        exact ⟨.inr (by simp), word_of_set _ _ _ _ _⟩
      · rw [elsewhere here]
        exact ⟨by simpa [here] using kept, rfl⟩
    · have ne : entry ≠ slot := by
        rintro rfl
        exact alone other different mode held
      simpa [ne] using unused

/-- The next task gets its number. -/
theorem Settled.renew (reserved : (memory.slot slot).state = .reserved)
    (alone : ∀ other, other ≠ who → ∀ mode, (doings other).hold ≠ some (slot, mode)) :
    Settled { past with
        reusing := update past.reusing slot false
        had := (⟨slot, (memory.slot slot).seq + 1⟩, .queued) :: past.had }
      ((seqOf slot).set ((memory.slot slot).seq + 1) memory) (update doings who (.renewed slot)) := by
  have here : (((seqOf slot).set ((memory.slot slot).seq + 1) memory).slot slot).seq = (memory.slot slot).seq + 1 := by
    simp [seqOf, slotRef, Ref.field]
  have elsewhere {entry : Nat} (ne : entry ≠ slot) :
      ((seqOf slot).set ((memory.slot slot).seq + 1) memory).slot entry = memory.slot entry := slot_of_set ne _ _
  have st (entry : Nat) : (((seqOf slot).set ((memory.slot slot).seq + 1) memory).slot entry).state =
      (memory.slot entry).state := word_of_set _ _ _ _ _
  have grown (entry : Nat) : (memory.slot entry).seq ≤
      (((seqOf slot).set ((memory.slot slot).seq + 1) memory).slot entry).seq := by
    by_cases same : entry = slot
    · subst same
      omega
    · rw [elsewhere same]
  refine ⟨fun entry reusing => ?_, fun entry unused other holds => ?_, fun handle other in_ => ?_,
    fun handle other in_ ended now => ?_, fun handle first second one two finished ended => ?_,
    fun other handle out in_ => ?_, fun reply in_ => ?_, ?_⟩
  · have ne : entry ≠ slot := by
      rintro rfl
      simp at reusing
    rw [elsewhere ne]
    exact ok.reused entry (by simpa [ne] using reusing)
  · by_cases same : entry = slot
    · subst same
      have queued : other = .queued := by
        simpa [statusOf, st, reserved, eq_comm] using holds
      rw [here, queued]
      exact List.mem_cons_self
    · rw [elsewhere same] at holds ⊢
      exact List.mem_cons_of_mem _ (ok.own entry (by simpa [same] using unused) other holds)
  · rcases List.mem_cons.mp in_ with same | older
    · cases same
      exact here.ge
    · exact (ok.older handle other older).trans (grown _)
  · rcases List.mem_cons.mp in_ with same | older
    · cases same
      cases ended
    · have ne : handle.slotIdx ≠ slot := by
        intro same
        have bound := ok.older handle other older
        rw [same, here] at now
        rw [same] at bound
        omega
      rw [elsewhere ne] at now ⊢
      simpa [ne] using ok.final handle other older ended now
  · have old {status : TaskStatus} (ended : terminal status = true)
        (in_ : (handle, status) ∈ ((⟨slot, (memory.slot slot).seq + 1⟩, .queued) :: past.had :
          List (TaskHandle × TaskStatus))) : (handle, status) ∈ past.had := by
      rcases List.mem_cons.mp in_ with same | older
      · cases same
        cases ended
      · exact older
    exact ok.one handle first second (old finished one) (old ended two) finished ended
  · exact (ok.heard other handle out in_).grows fun _ => List.mem_cons_of_mem _
  · obtain ⟨own, stable⟩ := ok.replied reply in_
    exact ⟨own.grows fun _ => List.mem_cons_of_mem _, stable⟩
  · refine ok.noted_step ⟨fun _ => List.mem_cons_of_mem _, grown, fun entry now kept => ?_⟩
      (fun _ _ => rfl) (fun other different entry mode held => ?_) (update_self _ _ _)
    · have ne : entry ≠ slot := by
        rintro rfl
        omega
      rw [elsewhere ne]
      exact ⟨by simpa [ne] using kept, rfl⟩
    · have ne : entry ≠ slot := by
        rintro rfl
        exact alone other different mode held
      rw [elsewhere ne]
      exact ⟨rfl, fun unused => by simpa [ne] using unused⟩

/-- The result word of a task that is not done. -/
theorem Settled.result (free : past.reusing slot = false) (unfinished : (memory.slot slot).state ≠ .done)
    (own : ∀ memory, Noted past memory who next) :
    Settled past ((resultOf slot).set res memory) (update doings who next) := by
  have words (entry : Nat) : (((resultOf slot).set res memory).slot entry).state = (memory.slot entry).state ∧
      (((resultOf slot).set res memory).slot entry).seq = (memory.slot entry).seq :=
    ⟨word_of_set _ _ _ _ _, word_of_set _ _ _ _ _⟩
  have elsewhere {entry : Nat} (ne : entry ≠ slot) :
      ((resultOf slot).set res memory).slot entry = memory.slot entry := slot_of_set ne _ _
  have status (entry : Nat) : statusOf (((resultOf slot).set res memory).slot entry) =
      statusOf (memory.slot entry) := by
    by_cases here : entry = slot
    · subst here
      unfold statusOf
      rw [(words entry).1]
      cases st : (memory.slot entry).state <;> first | rfl | exact absurd st unfinished
    · rw [elsewhere here]
  refine ⟨fun entry reusing => (words entry).1.trans (ok.reused entry reusing), fun entry unused other holds => ?_,
    fun handle other in_ => ?_, fun handle other in_ ended now => ?_, ok.one, ok.heard, ok.replied,
    ?_⟩
  · rw [(words entry).2]
    exact ok.own entry unused other (status entry ▸ holds)
  · rw [(words handle.slotIdx).2]
    exact ok.older handle other in_
  · rw [status]
    exact ok.final handle other in_ ended (now.trans (words _).2)
  · refine ok.noted_step ⟨fun _ in_ => in_, fun entry => (words entry).2.ge, fun entry _ kept => ?_⟩
      (fun _ _ => rfl) (fun _ _ entry _ _ => ⟨(words entry).2, id⟩) (own _)
    have ne : entry ≠ slot := by
      rintro rfl
      rcases kept with done | reusing
      · exact unfinished done
      · simp [free] at reusing
    rw [elsewhere ne]
    exact ⟨kept, rfl⟩

/-- The states of a task that is under way. -/
def going : TaskState → Bool
  | .queued | .claimed | .reserved | .completing => true
  | .empty | .done | .failed | .cancelled => false

omit ok

theorem unended (under : going task.state = true) (holds : statusOf task = some status) : terminal status = false := by
  unfold statusOf at holds
  cases st : task.state <;> rw [st] at under holds <;> cases under <;> cases holds <;> rfl

theorem exists_status (used : task.state ≠ .empty) : ∃ status, statusOf task = some status := by
  unfold statusOf
  cases st : task.state <;> first | exact absurd st used | exact ⟨_, rfl⟩

include ok

theorem Settled.advance (under : going (memory.slot slot).state = true) (free : past.reusing slot = false)
    (used : new ≠ .empty) (changes : (memory.slot slot).state ≠ new)
    (own : ∀ later memory, later.reusing = past.reusing → Noted later memory who next) :
    Settled (past.turned memory ((stateOf slot).set new memory) slot) ((stateOf slot).set new memory)
      (update doings who next) := by
  have st : (((stateOf slot).set new memory).slot slot).state = new := stateOf_set_self _ _
  have seq : (((stateOf slot).set new memory).slot slot).seq = (memory.slot slot).seq := word_of_set _ _ _ _ _
  obtain ⟨status, becomes⟩ := exists_status (st.symm ▸ used)
  rw [Past.turned, st, if_neg changes, Past.note, becomes, seq]
  exact ok.turn free (fun _ => unended under) becomes own

theorem Settled.exchange
    (under : going now = true) (other : now ≠ .reserved) (used : new ≠ .empty) (changes : now ≠ new)
    (own : ∀ later memory, later.reusing = past.reusing → Noted later memory who next) :
    Settled (past.turned memory (exchanged slot now new memory) slot) (exchanged slot now new memory)
      (update doings who next) := by
  by_cases got : (memory.slot slot).state = now
  · rw [exchanged, if_pos got]
    have free : past.reusing slot = false := by
      by_contra reusing
      exact other (got.symm.trans (ok.reused slot (by simpa using reusing)))
    exact ok.advance (got ▸ under) free used (got ▸ changes) own
  · rw [exchanged, if_neg got, Past.turned, if_pos rfl]
    exact ok.quiet alike_refl (own _ _ rfl)

end

section

variable {past : Past} {mem : Memory} {doings : Nat → Doing} {who slot : Nat} {handle : TaskHandle}

theorem track_aside (calm : stage.calm = true)
    (plain : turnOf site = none) : track who (stage, site) mem new past = past := by
  unfold track
  split <;> simp_all [Stage.calm, turnOf]

theorem Settled.look (ok : Settled past mem doings) (asked : doings who = .asked handle)
    (attentive : (mem.slot handle.slotIdx).state = .done ∨
      ((mem.slot handle.slotIdx).seq = handle.seq ∧ past.reusing handle.slotIdx = false)) :
    Settled past mem (update doings who (match pollReport (mem.slot handle.slotIdx).state with
      | none => .found handle
      | some out => .replying handle out)) := by
  apply ok.quiet alike_refl
  have noted := ok.noted who
  rw [asked] at noted
  by_cases done : (mem.slot handle.slotIdx).state = .done
  · rw [done]
    refine ⟨noted, fun same => ⟨.inl done, ?_⟩⟩
    have free : past.reusing handle.slotIdx = false := by
      by_contra reusing
      have reserved := ok.reused _ (by simpa using reusing)
      simp [done] at reserved
    have had := ok.own handle.slotIdx free (.done (mem.slot handle.slotIdx).result) (by simp [statusOf, done])
    rwa [same] at had
  · obtain ⟨same, free⟩ := attentive.resolve_left done
    have finds {status : TaskStatus} (holds : statusOf (mem.slot handle.slotIdx) = some status) :
        Noted past mem who (.replying handle (.ok status)) := by
      have had := ok.own handle.slotIdx free status holds
      rw [same] at had
      exact ok.stable had fun _ => ⟨same, free, holds⟩
    cases st : (mem.slot handle.slotIdx).state with
    | done => exact absurd st done
    | empty => exact ⟨own_stale, stable_stale⟩
    | _ => exact finds (by simp [statusOf, st])

theorem Settled.recheck (ok : Settled past mem doings) {res : ChunkDesc}
    (read : doings who = .read handle res) :
    Settled past mem (update doings who (.replying handle
      (if (mem.slot handle.slotIdx).seq = handle.seq then .ok (.done res) else .error .staleHandle))) := by
  apply ok.quiet alike_refl
  have noted := ok.noted who
  rw [read] at noted
  split
  · rename_i same
    exact ok.stable (noted.2 same) fun under => by cases under
  · exact ⟨own_stale, stable_stale⟩

theorem keeps_settled : KeepsDeeds queue Anyone (minders queue track Anyone Attentive) Prod.fst
    fun history => Settled history.2 := by
  rintro who site ⟨log, past⟩ mem new hands doings next owned backed ok ⟨-, attentive⟩ deed
  show Settled (track who site mem new past) new (update doings who next)
  have noted := ok.noted who
  generalize doing_eq : doings who = doing at deed noted
  cases deed with
  | aside calm plain same =>
    rw [track_aside calm plain, ← doing_eq, update_eq_self]
    exact ok.aside (fun slot => ⟨(same slot).1, (same slot).2.1, (same slot).2.2.2.2⟩) who
  | @reserve slot _ spent =>
    have st := (state_of_inv owned spent).2
    have changes : (mem.slot slot).state ≠ .reserved := by
      intro reserved
      simp [reserved, Mode.allows] at st
    show Settled (past.taken mem _ slot) _ _
    rw [Past.taken, stateOf_set_self, if_neg changes]
    exact ok.reuse (hold_alone owned backed spent)
  | @recover slot _ live =>
    show Settled (past.taken mem _ slot) _ _
    unfold Past.taken exchanged
    by_cases cancelled : (mem.slot slot).state = .cancelled
    · rw [if_pos cancelled, stateOf_set_self, if_neg (by simp [cancelled])]
      exact ok.reuse (hold_alone owned backed live)
    · rw [if_neg cancelled, if_pos rfl]
      exact ok.quiet alike_refl trivial
  | @claim lease slot =>
    refine ok.exchange rfl (by simp) (by simp) (by simp) fun _ _ _ => ?_
    split
    · cases lease <;> trivial
    · trivial
  | complete =>
    refine ok.exchange rfl (by simp) (by simp) (by simp) fun _ _ _ => ?_
    split <;> trivial
  | requeue =>
    refine ok.exchange rfl (by simp) (by simp) (by simp) fun later _ same => ?_
    split
    · rename_i claimed
      show later.reusing _ = false
      rw [same]
      by_contra reusing
      have reserved := ok.reused _ (by simpa using reusing)
      simp [claimed] at reserved
    · trivial
  | fail | giveUp | cancel => exact ok.exchange rfl (by simp) (by simp) (by simp) fun _ _ _ => trivial
  | @finish slot res _ completing =>
    have st : (mem.slot slot).state = .completing := (state_of_inv owned completing).2
    refine ok.advance (by rw [st]; rfl) ?_ (by simp) (by simp [st]) fun _ _ _ => trivial
    by_contra reusing
    have reserved := ok.reused slot (by simpa using reusing)
    simp [st] at reserved
  | @publish slot doing _ reserved ready =>
    have st : (mem.slot slot).state = .reserved := (state_of_inv owned reserved).2
    refine ok.advance (by rw [st]; rfl) ?_ (by simp) (by simp [st]) fun _ _ _ => trivial
    rcases ready with rfl | rfl <;> exact noted
  | number => exact ok.quiet alike_refl rfl
  | @renew slot seq _ reserved =>
    have st : (mem.slot slot).state = .reserved := (state_of_inv owned reserved).2
    have now : (mem.slot slot).seq = seq := noted
    subst now
    have small : (mem.slot slot).seq + 1 < 2 ^ 64 := attentive
    have queued : past.note ((seqOf slot).set ((mem.slot slot).seq + 1) mem) slot =
        (⟨slot, (mem.slot slot).seq + 1⟩, .queued) :: past.had := by
      simp [Past.note, statusOf, seqOf, slotRef, Ref.field, st]
    rw [Nat.mod_eq_of_lt small]
    show Settled { past with reusing := _, had := past.note ((seqOf slot).set _ mem) slot } _ _
    rw [queued]
    exact ok.renew st (hold_alone owned backed reserved)
  | reset | again | due | stamp =>
    exact ok.quiet (fun _ => ⟨word_of_set _ _ _ _ _, word_of_set _ _ _ _ _, word_of_set _ _ _ _ _⟩)
      noted
  | @clear slot _ reserved =>
    have st : (mem.slot slot).state = .reserved := (state_of_inv owned reserved).2
    exact ok.result noted (by simp [st]) fun _ => noted
  | @answer slot res _ completing =>
    have st : (mem.slot slot).state = .completing := (state_of_inv owned completing).2
    refine ok.result ?_ (by simp [st]) fun _ => trivial
    by_contra reusing
    have reserved := ok.reused slot (by simpa using reusing)
    simp [st] at reserved
  | see =>
    refine ok.quiet alike_refl ?_
    split <;> trivial
  | date =>
    refine ok.quiet alike_refl ?_
    split <;> trivial
  | count => exact ok.quiet alike_refl trivial
  | ask => exact ok.ask _
  | look => exact ok.look doing_eq attentive
  | read => exact ok.quiet alike_refl ⟨noted.1, fun same => (noted.2 same).2⟩
  | recheck => exact ok.recheck doing_eq
  | reply answers =>
    rcases answers with rfl | ⟨rfl, rfl⟩
    · exact ok.reply noted.1 noted.2
    · exact ok.reply own_stale stable_stale

end

abbrev PollConfig := Config Memory (Stage × Site) ((Tags Shard × List Event) × Past) Call Nat Answer

/-- Nobody has asked about a new queue. -/
def blank : Past := ⟨fun _ => false, [], fun _ => [], []⟩

theorem settled_init (queue : Queue) : Settled blank (init queue) fun _ => .nothing where
  reused _ reusing := by cases reusing
  own _ _ _ holds := by cases holds
  older _ _ in_ := by cases in_
  final _ _ in_ := by cases in_
  one _ _ _ in_ := by cases in_
  heard _ _ _ in_ := by cases in_
  replied _ in_ := by cases in_
  noted _ := trivial

/-- In every attentive run, every poll has returned an outcome its task has had,
or `StaleHandle`; and what was terminal for a poll before it began, it repeated. -/
theorem stable_of_reachable {queue : Queue} {config : PollConfig}
    (reached : (minders queue track Anyone Attentive).Reachable (dawn queue blank) config) :
    ∀ reply ∈ config.history.2.replies,
      config.history.2.Own reply.handle reply.outcome ∧ Stable reply.handle reply.outcome reply.earlier := by
  obtain ⟨doings, valid⟩ := extra_of_reachable keeps_settled (settled_init queue) reached
  exact valid.replied

section

instance (actor : Nat) (site : Stage × Site) (memory : Memory) (past : Past) :
    Decidable (Attentive actor site memory past) := by
  obtain ⟨stage, access⟩ := site
  cases stage <;> (dsimp only [Attentive]; infer_instance)

/-- A task is completed and polled, and polled again when the next submit has
made `steps` of its steps. -/
def reused (steps : Nat) : List (Stretch Call) :=
  [.begin 0 (.submit .zero 5 none), .run 0 60 1, .begin 1 (completing 77), .run 1 60 1, .begin 2 (.poll ⟨0, 1⟩),
    .run 2 20 1, .begin 0 (.submit .zero 5 none), .run 0 steps 1, .begin 3 (.poll ⟨0, 1⟩), .run 3 20 1]

/-- What the worker of these runs completes its task with. -/
def finished : Outcome := .ok (.done ⟨0, 0, 77, 0, 0⟩)

/-- The submit has reserved the slot and not yet stored its number: the poll that
was told `Done` before is told `Queued`. -/
theorem reused_not_stable : ∃ config,
    (minders single track Anyone fun _ _ _ _ => True).Reachable (dawn single blank) config ∧
      ∃ reply ∈ config.history.2.replies, ¬ Stable reply.handle reply.outcome reply.earlier := by
  refine ⟨(minders single track Anyone fun _ _ _ _ => True).follow (reused 7) (dawn single blank),
    Actors.reachable_follow (reused 7) .refl, ⟨⟨0, 1⟩, .ok .queued, [(⟨0, 1⟩, finished)]⟩, by decide +kernel, ?_⟩
  intro stable
  rcases stable (.done ⟨0, 0, 77, 0, 0⟩) List.mem_cons_self rfl with same | same <;> cases same

/-- Polls before the submit reserves the slot and after it has stored its number. -/
def repeated : List (Stretch Call) := reused 6 ++ [.run 0 60 1, .begin 4 (.poll ⟨0, 1⟩), .run 4 20 1]

theorem stable_of_repeated :
    ((minders single track Anyone Attentive).follow repeated (dawn single blank)).history.2.replies.map
        (fun reply => reply.outcome) = [.error .staleHandle, finished, finished] ∧
    ∀ reply ∈ ((minders single track Anyone Attentive).follow repeated (dawn single blank)).history.2.replies,
      ((minders single track Anyone Attentive).follow repeated (dawn single blank)).history.2.Own reply.handle
        reply.outcome ∧ Stable reply.handle reply.outcome reply.earlier :=
  ⟨by decide +kernel, stable_of_reachable (Actors.reachable_follow repeated .refl)⟩

end

end ShmActors.Task.Outcomes
