import ShmActors.Task.QueueRuns
import ShmActors.Task.Telling

/-! Tasks when an operation stops for good: every task that was submitted has
ended, or its slot can be accounted for. -/

namespace ShmActors.Task

open Lib Core Program Function

abbrev Terminal (state : TaskState) : Prop := state = .done ∨ state = .failed ∨ state = .cancelled

/-- Whose claim on the slot has not been decided yet: the last one. -/
def standingClaim (slot : Nat) : List Event → Option Nat
  | [] => none
  | .claimed actor entry :: log => if entry = slot then some actor else standingClaim slot log
  | .elected _ entry :: log => if entry = slot then none else standingClaim slot log
  | .popped _ _ :: log | .pushed _ _ :: log | .queued _ _ :: log => standingClaim slot log

/-- The tasks, by slot and `seq`, that there have been, and those that were seen
in a terminal state. -/
structure Chronicle where
  named : Nat → Nat → Bool
  ended : Nat → Nat → Bool

namespace Chronicle

def note (chronicle : Chronicle) (before after : Memory) : Chronicle where
  named slot seq := chronicle.named slot seq ||
    decide ((before.slot slot).seq ≠ seq ∧ (after.slot slot).seq = seq)
  ended slot seq := chronicle.ended slot seq ||
    decide (Terminal (after.slot slot).state ∧ (after.slot slot).seq = seq)

variable {chronicle : Chronicle}

theorem named_note : (chronicle.note before after).named slot seq ↔
    chronicle.named slot seq ∨ ((before.slot slot).seq ≠ seq ∧ (after.slot slot).seq = seq) := by
  simp only [note, Bool.or_eq_true, decide_eq_true_eq]

theorem ended_note : (chronicle.note before after).ended slot seq ↔
    chronicle.ended slot seq ∨ (Terminal (after.slot slot).state ∧ (after.slot slot).seq = seq) := by
  simp only [note, Bool.or_eq_true, decide_eq_true_eq]

end Chronicle

abbrev CrashHistory := (Tags Shard × List Event) × Chronicle

/-- Every deadline the call sets is before `now`. -/
def Call.dated (now : Nat) : Call → Prop
  | .submit _ deadline _ => deadline < now
  | .work _ deadline _ _ => ∀ value, deadline = some value → value < now
  | _ => True

/-- Callers whose deadlines are all before `now`. Those `stopped` make no access. -/
def callers (queue : Queue) (now : Nat) (stopped : Nat → Prop) :
    Actors Memory (Role × Site) CrashHistory Call (List (Call × Answer)) Answer where
  program := call queue
  enabled _ op := op.dated now
  start own _ := own
  finish own op answer := (op, answer) :: own
  track actor site before after history :=
    ((system queue).actors.track actor site.2 before after history.1, history.2.note before after)
  allowed actor site memory history :=
    ¬ stopped actor ∧ (system queue).actors.allowed actor site.2 memory history.1

theorem follows_callers (queue : Queue) (now : Nat) (stopped : Nat → Prop) :
    Follows queue (callers queue now stopped) Prod.fst where
  track _ _ _ _ _ := rfl
  timely _ _ _ _ may := may.2

abbrev CrashConfig := Config Memory (Role × Site) CrashHistory Call (List (Call × Answer)) Answer

def fresh (queue : Queue) : CrashConfig where
  state := init queue
  history := ((⟨fun _ => 0, fun _ _ => 0⟩, []), ⟨fun _ _ => false, fun _ _ => false⟩)
  thread _ := .idle []

/-- What an actor knows: tasks it has submitted, whether the slots it has
reserved are all of tasks that had ended, and the `seq` it has read of one of them. -/
structure Docket where
  issued : List (Nat × Nat)
  clearing : Bool
  loaded : Option (Nat × Nat)

structure Accounted (capacity now : Nat) (history : CrashHistory) (memory : Memory) (hands : Nat → Hands)
    (dockets : Nat → Docket) : Prop where
  dated : ∀ slot, (memory.slot slot).deadline < now
  claimed : ∀ slot, (memory.slot slot).state = .claimed → standingClaim slot history.1.2 ≠ none
  ended : ∀ slot, Terminal (memory.slot slot).state → history.2.ended slot (memory.slot slot).seq
  named : ∀ slot seq, history.2.named slot seq →
    (memory.slot slot).state ≠ .empty ∧
      (history.2.ended slot seq ∨ (memory.slot slot).seq = seq)
  known : ∀ slot seq, history.2.named slot seq → slot < capacity
  issued : ∀ actor, ∀ entry ∈ (dockets actor).issued, history.2.named entry.1 entry.2
  cleared : ∀ actor, (dockets actor).clearing = true → ∀ slot,
    (hands actor).2.slots slot = some .reserved → history.2.named slot (memory.slot slot).seq →
    history.2.ended slot (memory.slot slot).seq
  loaded : ∀ actor slot seq, (dockets actor).loaded = some (slot, seq) →
    (hands actor).2.slots slot = some .reserved ∧ (memory.slot slot).seq = seq

/-- Accesses that write no sequence number and no deadline but one before `now`. -/
def Steady (now : Nat) (site : Site) (update : Memory → Memory) : Prop :=
  Shape site update ∧ ∀ memory slot, ((update memory).slot slot).seq = (memory.slot slot).seq ∧
    (((update memory).slot slot).deadline = (memory.slot slot).deadline ∨
      ((update memory).slot slot).deadline < now)

section

theorem stateOf_set_times (entry : Nat) (new : TaskState) (mem : Memory) (slot : Nat) :
    (((stateOf entry).set new mem).slot slot).seq = (mem.slot slot).seq ∧
      (((stateOf entry).set new mem).slot slot).deadline = (mem.slot slot).deadline :=
  ⟨word_of_set _ _ _ _ _, word_of_set _ _ _ _ _⟩

theorem steady_store (shape : Shape site ((stateOf entry).set new)) : Steady now site ((stateOf entry).set new) := by
  refine ⟨shape, fun mem slot => ?_⟩
  obtain ⟨seq, due⟩ := stateOf_set_times entry new mem slot
  exact ⟨seq, .inl due⟩

theorem steady_exchange (shape : Shape site (exchanged entry current new)) :
    Steady now site (exchanged entry current new) := by
  refine ⟨shape, fun mem slot => ?_⟩
  unfold exchanged
  split
  · obtain ⟨seq, due⟩ := stateOf_set_times entry new mem slot
    exact ⟨seq, .inl due⟩
  · exact ⟨rfl, .inl rfl⟩

theorem steady_slots {update : Memory → Memory} (shape : Shape site update)
    (keeps : ∀ mem, (update mem).slot = mem.slot) : Steady now site update := by
  refine ⟨shape, fun mem slot => ?_⟩
  rw [keeps]
  exact ⟨rfl, .inl rfl⟩

theorem whole_steady : Whole (Steady now) where
  pop _ _ _ keeps := steady_slots keeps keeps
  push _ _ _ _ keeps := steady_slots keeps keeps
  count _ keeps := steady_slots keeps keeps
  uncount _ keeps := steady_slots keeps keeps
  recover _ := steady_exchange rfl
  field _ keeps := ⟨fun mem slot => (keeps mem slot).1,
    fun mem slot => ⟨(keeps mem slot).2.1, .inl (keeps mem slot).2.2.1⟩⟩
  claim _ := steady_exchange rfl
  cancel _ := steady_exchange rfl
  complete _ := steady_exchange rfl
  requeue _ := steady_exchange rfl
  fail _ := steady_exchange rfl
  reserve _ := steady_store rfl
  publish _ := steady_store rfl
  finish _ := steady_store rfl
  result idx val := by
    refine ⟨whole_shape.result idx val, fun mem slot => ?_⟩
    by_cases same : slot = idx
    · subst same
      simp [resultOf, slotRef, Ref.field]
    · simp [resultOf, slotRef, Ref.field, same]

theorem steady_deadline (idx : Nat) (old : val < now) : Steady now .field ((deadlineOf idx).set val) := by
  refine ⟨stamps_shape idx val rfl, fun mem slot => ?_⟩
  by_cases same : slot = idx
  · subst same
    simp [deadlineOf, slotRef, Ref.field, old]
  · simp [deadlineOf, slotRef, Ref.field, same]

end

section

variable {queue : Queue} {now : Nat} {stopped : Nat → Prop} {past : CrashHistory} {mem : Memory} {hands : Nat → Hands}
  {dockets : Nat → Docket} {update : Memory → Memory} {actor : Nat} {docket : Docket}

/-- What an access logs of the claims on a slot. -/
theorem standingClaim_record (site : Site) (mem new : Memory) (log : List Event) (slot : Nat) :
    standingClaim slot (record actor site mem new log) = match site with
      | .claim entry => if entry = slot ∧ (mem.slot slot).state ≠ (new.slot slot).state
          then some actor else standingClaim slot log
      | .complete entry | .requeue entry | .fail entry =>
          if entry = slot ∧ (mem.slot slot).state ≠ (new.slot slot).state
          then none else standingClaim slot log
      | _ => standingClaim slot log := by
  have logs (event : Event) (entry : Nat) (val : Option Nat)
      (read : standingClaim slot (event :: log) = if entry = slot then val else standingClaim slot log) :
      standingClaim slot (if (mem.slot entry).state = (new.slot entry).state then log
        else event :: log) =
        if entry = slot ∧ (mem.slot slot).state ≠ (new.slot slot).state then val
        else standingClaim slot log := by
    by_cases same : entry = slot
    · subst same
      by_cases unchanged : (mem.slot entry).state = (new.slot entry).state
      · simp [unchanged]
      · simp [unchanged, read]
    · split
      · simp [same]
      · rw [read]
        simp [same]
  cases site with
  | claim entry => exact logs _ entry _ rfl
  | complete entry | requeue entry | fail entry => exact logs _ entry _ rfl
  | pop shard part =>
    cases part with
    | exchange =>
      simp only [record]
      split <;> rfl
    | load | next => rfl
  | push shard entry part =>
    cases part with
    | exchange =>
      simp only [record]
      split <;> rfl
    | load | next => rfl
  | publish entry => rfl
  | _ => rfl

/-- A claimed slot was claimed by this access, or before it and still is. -/
theorem Shape.claims (shape : Shape site update) (actor : Nat) (mem : Memory) (log : List Event) (slot : Nat)
    (claimed : ((update mem).slot slot).state = .claimed) :
    standingClaim slot (record actor site mem (update mem) log) = some actor ∨
      ((mem.slot slot).state = .claimed ∧
        standingClaim slot (record actor site mem (update mem) log) = standingClaim slot log) := by
  rw [standingClaim_record]
  rcases shape.turn mem slot with unchanged | ⟨old, new, known, before, after⟩
  · right
    refine ⟨unchanged ▸ claimed, ?_⟩
    cases site <;> simp [unchanged]
  · left
    rw [claimed] at after
    cases site with
    | claim entry =>
      cases known
      simp [claimed, before .queued rfl]
    | recover | cancel | complete | requeue | fail | reserve | publish | finish =>
      cases known
      cases after
    | pop | push | count | uncount | field => cases known

/-- No access empties a slot again. -/
theorem Shape.filled (shape : Shape site update) (mem : Memory) (slot : Nat)
    (used : (mem.slot slot).state ≠ .empty) : ((update mem).slot slot).state ≠ .empty := by
  rcases shape.turn mem slot with unchanged | ⟨old, new, known, -, after⟩
  · rwa [unchanged]
  · rw [after]
    cases site with
    | claim | recover | cancel | complete | requeue | fail | reserve | publish | finish =>
      cases known
      simp
    | pop | push | count | uncount | field => cases known

/-- What an access that writes no sequence number leaves to be shown: that of
the slots its actor has reserved. -/
theorem Accounted.step (ok : Accounted queue.capacity now past mem hands dockets)
    (steady : Steady now site update) (who : Role) (issued : ∀ entry ∈ docket.issued, past.2.named entry.1 entry.2)
    (cleared : docket.clearing = true → ∀ slot, kept.2.slots slot = some .reserved →
      past.2.named slot (mem.slot slot).seq → past.2.ended slot (mem.slot slot).seq)
    (loaded : ∀ slot seq, docket.loaded = some (slot, seq) →
      kept.2.slots slot = some .reserved ∧ (mem.slot slot).seq = seq) :
    Accounted queue.capacity now ((callers queue now stopped).track actor (who, site) mem (update mem) past)
      (update mem) (Function.update hands actor kept) (Function.update dockets actor docket) := by
  obtain ⟨shape, times⟩ := steady
  have seqs := fun slot => (times mem slot).1
  have same : ∀ slot seq, (past.2.note mem (update mem)).named slot seq ↔
      past.2.named slot seq := by
    intro slot seq
    refine ⟨fun known => (Chronicle.named_note.mp known).resolve_right ?_,
      fun known => Chronicle.named_note.mpr (.inl known)⟩
    rintro ⟨old, new⟩
    exact old ((seqs slot).symm.trans new)
  have keeps {slot seq : Nat} (finished : past.2.ended slot seq) :
      (past.2.note mem (update mem)).ended slot seq := Chronicle.ended_note.mpr (.inl finished)
  constructor
  · intro slot
    rcases (times mem slot).2 with unchanged | old
    · rw [unchanged]
      exact ok.dated slot
    · exact old
  · intro slot claimed
    rcases shape.claims actor mem past.1.2 slot claimed with mine | ⟨old, unchanged⟩
    · exact fun none => by cases mine.symm.trans none
    · exact fun none => ok.claimed slot old (unchanged.symm.trans none)
  · exact fun slot terminal => Chronicle.ended_note.mpr (.inr ⟨terminal, rfl⟩)
  · intro slot seq known
    obtain ⟨used, fate⟩ := ok.named slot seq ((same slot seq).mp known)
    refine ⟨shape.filled mem slot used, fate.imp keeps fun current => ?_⟩
    rw [seqs]
    exact current
  · exact fun slot seq named => ok.known slot seq ((same slot seq).mp named)
  · intro other entry in_
    apply (same _ _).mpr
    by_cases mine : other = actor
    · subst mine
      rw [update_self] at in_
      exact issued entry in_
    · rw [update_of_ne mine] at in_
      exact ok.issued other entry in_
  · intro other clearing slot reserved known
    rw [seqs] at known ⊢
    replace known := (same _ _).mp known
    by_cases mine : other = actor
    · subst mine
      rw [update_self] at clearing reserved
      exact keeps (cleared clearing slot reserved known)
    · rw [update_of_ne mine] at clearing reserved
      exact keeps (ok.cleared other clearing slot reserved known)
  · intro other slot seq read
    rw [seqs]
    by_cases mine : other = actor
    · subst mine
      rw [update_self] at read ⊢
      exact loaded slot seq read
    · rw [update_of_ne mine] at read ⊢
      exact ok.loaded other slot seq read

/-- The sequence number of a slot in hand is replaced, its task having ended. -/
theorem Accounted.renew (ok : Accounted queue.capacity now past mem hands dockets) {slot seq : Nat}
    (who : Role) (known : slot < queue.capacity) (alone : ∀ other, other ≠ actor → (hands other).2.slots slot = none)
    (reserved : (mem.slot slot).state = .reserved)
    (finished : past.2.named slot (mem.slot slot).seq → past.2.ended slot (mem.slot slot).seq)
    (issued : ∀ entry ∈ docket.issued, entry = (slot, seq) ∨ past.2.named entry.1 entry.2)
    (changes : (mem.slot slot).seq ≠ seq) (plain : docket.clearing = false) (unread : docket.loaded = none) :
    Accounted queue.capacity now ((callers queue now stopped).track actor (who, .field) mem
        ((seqOf slot).set seq mem) past)
      ((seqOf slot).set seq mem) hands (Function.update dockets actor docket) := by
  have states : ∀ entry, (((seqOf slot).set seq mem).slot entry).state = (mem.slot entry).state ∧
      (((seqOf slot).set seq mem).slot entry).deadline = (mem.slot entry).deadline := by
    intro entry
    by_cases same : entry = slot
    · subst same
      simp [seqOf, slotRef, Ref.field]
    · simp [seqOf, slotRef, Ref.field, same]
  have own : (((seqOf slot).set seq mem).slot slot).seq = seq := by simp [seqOf, slotRef, Ref.field]
  have others : ∀ entry, entry ≠ slot →
      (((seqOf slot).set seq mem).slot entry).seq = (mem.slot entry).seq := by
    intro entry different
    simp [seqOf, slotRef, Ref.field, different]
  have earlier : ∀ {entry val}, (past.2.note mem ((seqOf slot).set seq mem)).named entry val →
      past.2.named entry val ∨ (entry = slot ∧ val = seq) := by
    intro entry val named
    rcases Chronicle.named_note.mp named with known | ⟨before, new⟩
    · exact .inl known
    · by_cases same : entry = slot
      · subst same
        exact .inr ⟨rfl, (own.symm.trans new).symm⟩
      · exact absurd ((others entry same).symm.trans new) before
  have keeps {entry val : Nat} (ended : past.2.ended entry val) :
      (past.2.note mem ((seqOf slot).set seq mem)).ended entry val :=
    Chronicle.ended_note.mpr (.inl ended)
  constructor
  · intro entry
    rw [(states entry).2]
    exact ok.dated entry
  · intro entry claimed
    rw [(states entry).1] at claimed
    exact ok.claimed entry claimed
  · exact fun entry terminal => Chronicle.ended_note.mpr (.inr ⟨terminal, rfl⟩)
  · intro entry val named
    rw [(states entry).1]
    by_cases same : entry = slot
    · subst same
      refine ⟨by simp [reserved], ?_⟩
      rcases earlier named with old | ⟨-, rfl⟩
      · rcases (ok.named entry val old).2 with ended | current
        · exact .inl (keeps ended)
        · subst current
          exact .inl (keeps (finished old))
      · exact .inr own
    · have old := (earlier named).resolve_right fun both => same both.1
      rw [others entry same]
      exact ⟨(ok.named entry val old).1, (ok.named entry val old).2.imp keeps id⟩
  · intro entry val named
    rcases earlier named with old | ⟨rfl, -⟩
    · exact ok.known entry val old
    · exact known
  · intro other entry in_
    by_cases mine : other = actor
    · subst mine
      rw [update_self] at in_
      rcases issued entry in_ with rfl | known
      · exact Chronicle.named_note.mpr (.inr ⟨changes, own⟩)
      · exact Chronicle.named_note.mpr (.inl known)
    · rw [update_of_ne mine] at in_
      exact Chronicle.named_note.mpr (.inl (ok.issued other entry in_))
  · intro other clearing entry taken known
    by_cases mine : other = actor
    · subst mine
      rw [update_self, plain] at clearing
      cases clearing
    · rw [update_of_ne mine] at clearing
      have ne : entry ≠ slot := by
        rintro rfl
        rw [alone other mine] at taken
        cases taken
      rw [others entry ne] at known ⊢
      have old := (earlier known).resolve_right fun both => ne both.1
      exact keeps (ok.cleared other clearing entry taken old)
  · intro other entry val read
    by_cases mine : other = actor
    · subst mine
      rw [update_self, unread] at read
      cases read
    · rw [update_of_ne mine] at read
      obtain ⟨taken, current⟩ := ok.loaded other entry val read
      have ne : entry ≠ slot := by
        rintro rfl
        rw [alone other mine] at taken
        cases taken
      rw [others entry ne]
      exact ⟨taken, current⟩

end

/-- The specification of code that keeps the tasks accounted for. -/
abbrev Accounts (queue : Queue) (now : Nat) (stopped : Nat → Prop) (who : Role) (actor : Nat)
    {Value : Type} (code : Code Value) (post : Value → Held → Docket → Prop) (held : Held)
    (docket : Docket) : Prop :=
  Tells (follows_callers queue now stopped) (Accounted queue.capacity now) who actor code post held docket

section

variable {now : Nat}

theorem update_same {notes : Nat → Note} {note : Note} (same : notes actor = note) :
    notes = Function.update notes actor note := by
  rw [← same, update_eq_self]

/-- Code specified before that writes no sequence number. -/
theorem accounts_steady (does : Does queue actor code post held) (every : code.Every (Steady now))
    (plain : docket.clearing = false) (unread : docket.loaded = none) :
    Accounts queue now stopped who actor code (fun val kept next => post val kept ∧ next = docket)
      held docket := by
  refine tells_beside does (every_mono every ?_)
  rintro site update steady past mem hands dockets kept _ ok same _ _
  rw [update_same same]
  exact ok.step steady who (same ▸ ok.issued actor) (by simp [plain]) (by simp [unread])

/-- Accesses of the drain: they reserve only what they recover. -/
def Recovers (now : Nat) (site : Site) (update : Memory → Memory) : Prop :=
  Steady now site update ∧ (∀ slot, site ≠ .requeue slot) ∧ ∀ slot, site ≠ .reserve slot

theorem drains_recovers : Drains (Recovers now) where
  pop _ _ _ keeps := ⟨whole_steady.pop _ _ _ keeps, by simp, by simp⟩
  push _ _ _ _ keeps := ⟨whole_steady.push _ _ _ _ keeps, by simp, by simp⟩
  count _ keeps := ⟨whole_steady.count _ keeps, by simp, by simp⟩
  uncount _ keeps := ⟨whole_steady.uncount _ keeps, by simp, by simp⟩
  recover slot := ⟨whole_steady.recover slot, by simp, by simp⟩
  field _ keeps := ⟨whole_steady.field _ keeps, by simp, by simp⟩

/-- A slot that was reserved before and is reserved in hand was in the same hands. -/
theorem reserved_before (known : slot < queue.capacity) (old : (ownership queue).inv past mem hands)
    (now : (ownership queue).inv past' new (Function.update hands actor kept))
    (taken : kept.2.slots slot = some .reserved) (st : (mem.slot slot).state = .reserved) :
    (hands actor).2.slots slot = some .reserved := by
  obtain ⟨lists, ok⟩ := old
  obtain ⟨place, owing, placed⟩ := ok.own
  have may := placed.allowed slot known
  rw [st] at may
  cases here : place slot with
  | out => simp [here, Place.allows] at may
  | stack shard => cases shard <;> simp [here, Place.allows, Shard.mode, Mode.allows] at may
  | hand holder mode =>
    have mode : mode = .reserved := by
      cases mode <;> simp [here, Place.allows, Mode.allows] at may ⊢
    subst mode
    have held := (placed.hand holder slot .reserved).mpr ⟨known, here⟩
    by_cases mine : holder = actor
    · exact mine ▸ held
    · have away : (Function.update hands actor kept holder).2.slots slot = none :=
        alone_of_inv now (by simp [taken]) mine
      rw [update_of_ne mine, held] at away
      cases away

theorem accounts_recovers (does : Does queue actor code post held) (every : code.Every (Recovers now))
    (unread : docket.loaded = none) : Accounts queue now stopped who actor code
    (fun val kept next => post val kept ∧ next = docket) held docket := by
  refine tells_beside does (every_mono every ?_)
  rintro site update ⟨steady, noRequeue, noReserve⟩ past mem hands dockets kept owned ok same _ after
  rw [update_same same]
  refine ok.step steady who (same ▸ ok.issued actor) ?_ (by simp [unread])
  intro clearing slot taken known
  have mine : (Function.update hands actor kept actor).2.slots slot = some .reserved := by simpa using taken
  obtain ⟨inRange, st⟩ := state_of_inv after mine
  rcases steady.1.turn mem slot with unchanged | ⟨old, new, turned, before, became⟩
  · apply ok.cleared actor (same ▸ clearing) slot _ known
    exact reserved_before inRange owned after taken (unchanged ▸ st)
  · have ended : Terminal (mem.slot slot).state := by
      rw [st] at became
      cases site with
      | requeue entry => exact absurd rfl (noRequeue entry)
      | reserve entry => exact absurd rfl (noReserve entry)
      | recover entry =>
        cases turned
        rw [before .cancelled rfl]
        exact .inr (.inr rfl)
      | claim | cancel | complete | fail | publish | finish =>
        cases turned
        cases became
      | pop | push | count | uncount | field => cases turned
    exact ok.ended slot ended

/-- Accesses that membership does not see and that write no sequence number. -/
theorem accounts_aside (every : code.Every fun site update => Elsewhere site update ∧ Steady now site update) :
    Accounts queue now stopped who actor code (fun _ kept next => kept = held ∧ next = docket) held docket := by
  refine tells_aside (every_mono every ?_)
  rintro site update ⟨elsewhere, steady⟩
  refine ⟨elsewhere, fun past mem hands dockets _ ok mine noted _ => ?_⟩
  rw [update_same mine, update_same noted]
  have cleared := ok.cleared actor
  have loaded := ok.loaded actor
  rw [mine, noted] at cleared loaded
  exact ok.step steady who (noted ▸ ok.issued actor) cleared loaded

theorem admits_steady : Admits fun site update => Elsewhere site update ∧ Steady now site update :=
  admits_both admits_elsewhere whole_steady.admits

/-- A load, with what is noted of it. -/
theorem accounts_load {cell : Ref Memory Value}
    (learns : ∀ past mem hands dockets, Accounted queue.capacity now past mem hands dockets →
      hands actor = (none, held) → dockets actor = docket →
      ∃ next : Docket, next.issued = docket.issued ∧ next.clearing = docket.clearing ∧
        (∀ slot seq, next.loaded = some (slot, seq) → held.slots slot = some .reserved ∧ (mem.slot slot).seq = seq) ∧
        goal (cell.get mem) held next) : Accounts queue now stopped who actor (load .field cell) goal held docket := by
  apply tells_act (does_elsewhere (every_load cell) fun _ => (rfl : held = held))
  rintro past mem hands dockets _ _ ok mine noted _ rfl
  obtain ⟨next, issued, clearing, loaded, reached⟩ := learns past mem hands dockets ok mine noted
  have steady : Steady now .field (id : Memory → Memory) :=
    whole_steady.field id fun _ _ => ⟨rfl, rfl, rfl, rfl⟩
  have cleared := ok.cleared actor
  rw [mine, noted] at cleared
  refine ⟨next, ok.step steady who ?_ ?_ loaded, reached⟩
  · rw [issued, ← noted]
    exact ok.issued actor
  · rw [clearing]
    exact cleared

end

section

/-- A slot popped from FREE is of a task that has ended, or of none. -/
theorem accounts_reserve (spent : held.slots slot = some .spent) (unread : docket.loaded = none) :
    Accounts queue now stopped who actor (store (.reserve slot) (stateOf slot) .reserved)
      (fun _ kept next => kept = held.set slot (some .reserved) ∧ next = docket) held docket := by
  have does : Does queue actor
      (store (.reserve slot) (stateOf slot) .reserved : Code Unit)
      (fun _ kept => kept = held.set slot (some .reserved)) held :=
    does_storeState .reserved rfl (fun _ _ _ => rfl) spent (by simp) rfl (fun _ _ => rfl) rfl
  apply tells_act does
  rintro past mem hands dockets _ owned ok mine noted _ rfl
  refine ⟨docket, ok.step (whole_steady.reserve slot) who (noted ▸ ok.issued actor) ?_
    (by simp [unread]), rfl, rfl⟩
  intro clearing entry taken known
  by_cases same : entry = slot
  · subst same
    have here : (hands actor).2.slots entry = some .spent := by rw [mine, spent]
    obtain ⟨-, st⟩ := state_of_inv owned here
    apply ok.ended
    exact st.resolve_left (ok.named _ _ known).1
  · apply ok.cleared actor (noted ▸ clearing) entry _ known
    simpa [mine, same] using taken

theorem accounts_reserveFree :
    Accounts queue now stopped who actor reserveFree
      (fun got kept next => Reserved queue got kept ∧ next = ⟨issued, true, none⟩) .nothing
      ⟨issued, true, none⟩ := by
  have popped : Does queue actor popFree
      (fun got kept => got.elim (kept = .nothing) fun slot =>
        slot < queue.capacity ∧ kept = Held.nothing.set slot (some .spent)) .nothing :=
    does_popFree rfl fun slot known _ => ⟨known, rfl⟩
  apply tells_then (accounts_recovers popped drains_recovers.popFree rfl)
  rintro got kept _ ⟨holds, rfl⟩
  cases got with
  | none => exact tells_ret ⟨holds, rfl⟩
  | some idx =>
    obtain ⟨known, rfl⟩ := holds
    apply tells_then (accounts_reserve (by simp) rfl)
    rintro _ _ _ ⟨rfl, rfl⟩
    rw [Held.set_set]
    exact tells_ret ⟨⟨known, rfl⟩, rfl⟩

theorem accounts_reserveSubmitSlot :
    Accounts queue now stopped who actor (reserveSubmitSlot queue)
      (fun got kept next => Reserved queue got kept ∧ next = ⟨issued, true, none⟩) .nothing
      ⟨issued, true, none⟩ := by
  have last {got : Option Nat} {kept : Held} (holds : Reserved queue got kept) :
      Accounts queue now stopped who actor (do let _ ← load .field waitersWorkRef; return got)
        (fun got kept next => Reserved queue got kept ∧ next = ⟨issued, true, none⟩) kept
        ⟨issued, true, none⟩ := by
    apply tells_then (accounts_aside (admits_steady.load _))
    rintro _ _ _ ⟨rfl, rfl⟩
    exact tells_ret ⟨holds, rfl⟩
  have drained : Does queue actor (drain queue (List.finRange shards))
      (Reserved queue) .nothing := does_drain rfl (fun _ known => ⟨known, rfl⟩) _
  apply tells_then accounts_reserveFree
  rintro got kept _ ⟨holds, rfl⟩
  cases got with
  | some idx => exact tells_ret ⟨holds, rfl⟩
  | none =>
    cases holds
    apply tells_then (accounts_recovers drained (drains_recovers.drain _ _) rfl)
    rintro got kept _ ⟨holds, rfl⟩
    cases got with
    | some idx =>
      apply tells_bind
      apply tells_ret
      exact last holds
    | none =>
      cases holds
      apply tells_then accounts_reserveFree
      rintro got kept _ ⟨holds, rfl⟩
      exact last holds

/-- A store that membership does not see and that writes no sequence number. -/
theorem accounts_store (ne : Elsewhere .field (cell.set val)) (steady : Steady now .field (cell.set val))
    (later : Accounts queue now stopped who actor (rest ()) post held docket) :
    Accounts queue now stopped who actor (store .field cell val >>= rest) post held docket := by
  have every : (store .field cell val : Code Unit).Every fun site update =>
      Elsewhere site update ∧ Steady now site update := ⟨⟨ne, steady⟩, fun _ => trivial⟩
  apply tells_then (accounts_aside every)
  rintro _ _ _ ⟨rfl, rfl⟩
  exact later

/-- A field of a slot that a task does not depend on. -/
theorem accounts_field {get : TaskSlot → Value} {set : Value → TaskSlot → TaskSlot}
    (keeps : ∀ val slot, (set val slot).state = slot.state ∧ (set val slot).seq = slot.seq ∧
      (set val slot).deadline = slot.deadline ∧ (set val slot).result = slot.result)
    (later : Accounts queue now stopped who actor (rest ()) post held docket) :
    Accounts queue now stopped who actor (store .field ((slotRef slot).field get set) val >>= rest) post
      held docket := by
  have steady : (store .field ((slotRef slot).field get set) val : Code Unit).Every (Steady now) :=
    whole_steady.store slot val (keeps val)
  exact accounts_store (apart_slotField slot (fun val slot => (keeps val slot).1) val) steady.1 later

theorem succ_mod_ne (seq : Nat) : seq ≠ (seq + 1) % 2 ^ 64 := by
  omega

/-- The new sequence number, and with it the new task. -/
theorem accounts_renew (reserved : held.slots slot = some .reserved) :
    Accounts queue now stopped who actor (store .field (seqOf slot) ((seq + 1) % 2 ^ 64))
      (fun _ kept next => kept = held ∧ next = ⟨(slot, (seq + 1) % 2 ^ 64) :: issued, false, none⟩) held
      ⟨issued, true, some (slot, seq)⟩ := by
  have ne : Apart (seqOf slot) := by
    apply apart_slotField
    exact fun _ _ => rfl
  apply tells_act (does_elsewhere (every_store ne _) fun _ => (rfl : held = held))
  rintro past mem hands dockets _ owned ok mine noted _ rfl
  refine ⟨⟨(slot, (seq + 1) % 2 ^ 64) :: issued, false, none⟩, ?_, rfl, rfl⟩
  have taken : (hands actor).2.slots slot = some .reserved := by rw [mine, reserved]
  have current : (mem.slot slot).seq = seq := (ok.loaded actor slot seq (by rw [noted])).2
  have known := ok.issued actor
  rw [noted] at known
  rw [← mine, update_eq_self]
  refine ok.renew who (state_of_inv owned taken).1 (fun other different =>
    alone_of_inv owned (by simp [taken]) different)
    (state_of_inv owned taken).2 (ok.cleared actor (by rw [noted]) slot taken) ?_ ?_ rfl rfl
  · intro entry in_
    exact (List.mem_cons.mp in_).imp id fun older => known entry older
  · rw [current]
    exact succ_mod_ne seq

theorem accounts_writeFields (req : ChunkDesc) (old : due < now)
    (reserved : held.slots slot = some .reserved) :
    Accounts queue now stopped who actor (writeFields slot req due)
      (fun newSeq kept next => kept = held ∧ next = ⟨(slot, newSeq) :: issued, false, none⟩) held
      ⟨issued, true, none⟩ := by
  apply tells_bind
  apply accounts_load
  intro past mem hands dockets ok mine noted
  refine ⟨⟨issued, true, some (slot, (mem.slot slot).seq)⟩, rfl, rfl, ?_, ?_⟩
  · rintro entry seq ⟨⟩
    exact ⟨reserved, rfl⟩
  apply tells_then (accounts_renew reserved)
  rintro _ _ _ ⟨rfl, rfl⟩
  refine accounts_field ?_ (accounts_field ?_ (accounts_field ?_ ?_))
  iterate 3 exact fun _ _ => ⟨rfl, rfl, rfl, rfl⟩
  have stamped : Elsewhere .field ((deadlineOf slot).set due) := by
    apply apart_slotField
    exact fun _ _ => rfl
  refine accounts_store stamped (steady_deadline slot old) (accounts_field ?_ ?_)
  · exact fun _ _ => ⟨rfl, rfl, rfl, rfl⟩
  have cleared : Elsewhere .field ((resultOf slot).set .zero) := by
    apply apart_slotField
    exact fun _ _ => rfl
  exact accounts_store cleared (whole_steady.result slot .zero) (tells_ret ⟨rfl, rfl⟩)

/-- The tasks that a submit has issued. -/
def issuedBy : Except QueueError TaskHandle → List (Nat × Nat)
  | .ok handle => [(handle.slotIdx, handle.seq)]
  | .error _ => []

theorem accounts_submitInner (req : ChunkDesc) (old : due < now) (input : Option LeaseBinding) :
    Accounts queue now stopped who actor (submitInner queue req due input)
      (fun out kept next => kept = .nothing ∧ next.issued = issuedBy out ++ issued ∧
        next.loaded = none) .nothing ⟨issued, true, none⟩ := by
  have published (shard : Fin shards) (slot : Nat) : Does queue actor (publishQueued shard slot)
      (fun _ kept => kept = .nothing) (Held.nothing.set slot (some .reserved)) := by
    apply does_publishQueued shard (by simp)
    rw [Held.set_set, nothing_set_none]
  refine tells_mono (tells_submitInner admits_steady accounts_aside
    (fun out => ⟨issuedBy out ++ issued, (issuedBy out).isEmpty, none⟩) (fun _ => rfl)
    accounts_reserveSubmitSlot (fun slot => accounts_writeFields req old (by simp))
    (fun shard slot _ => accounts_steady (published shard slot) (whole_steady.publishQueued _ _) rfl rfl) input) ?_
  rintro out _ _ ⟨rfl, rfl⟩
  exact ⟨rfl, rfl, rfl⟩

end

end ShmActors.Task
