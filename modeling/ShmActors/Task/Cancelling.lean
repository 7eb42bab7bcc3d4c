import ShmActors.Lib.Protocol
import ShmActors.Task.Results

/-! Cancel isolation: what `cancel(h)` changes belongs to the task `h`, in runs in
which no slot gets its next sequence number between a check of the number and
the access the check guards. -/

namespace ShmActors.Task

open Lib Core Program Function Actors

namespace Cancelling

/-- An access of `cancel(handle)`: the slots before and after it. -/
structure Touch where
  handle : TaskHandle
  before : Nat → TaskSlot
  after : Nat → TaskSlot

/-- It changed no state word and no cooperative flag but those of its own task. -/
def Touch.Isolated (touch : Touch) : Prop :=
  ∀ slot, (touch.before slot).state ≠ (touch.after slot).state ∨
      (touch.before slot).cancel ≠ (touch.after slot).cancel →
    slot = touch.handle.slotIdx ∧ (touch.before slot).seq = touch.handle.seq

/-- Who has checked a handle and not yet made the access it checked it for, and
all accesses of `cancel`. -/
structure Past where
  poised : List (Nat × TaskHandle)
  touched : List Touch

def Past.leave (past : Past) (actor : Nat) : List (Nat × TaskHandle) :=
  past.poised.filter fun entry => entry.1 ≠ actor

def track (actor : Nat) (site : Stage × Site) (before after : Memory) (past : Past) : Past :=
  match site.1 with
  | .check handle =>
    { poised := if (before.slot handle.slotIdx).seq = handle.seq then (actor, handle) :: past.leave actor
        else past.leave actor
      touched := ⟨handle, before.slot, after.slot⟩ :: past.touched }
  | .withdraw handle => ⟨past.leave actor, ⟨handle, before.slot, after.slot⟩ :: past.touched⟩
  | .cancel handle => { past with touched := ⟨handle, before.slot, after.slot⟩ :: past.touched }
  | _ => past

/-- A slot gets a new sequence number only while nobody is poised at it. -/
def Unhurried (_ : Nat) (site : Stage × Site) (_ : Memory) (past : Past) : Prop :=
  match site.1 with
  | .renew slot => ∀ entry ∈ past.poised, entry.2.slotIdx ≠ slot
  | _ => True

/-- Any number of actors making any calls. -/
abbrev cancellers (queue : Queue) (allowed : Nat → Stage × Site → Memory → Past → Prop) :=
  staged queue track (fun _ _ => True) allowed

abbrev CancelConfig := Config Memory (Stage × Site) Past Call Nat Answer

def opening (queue : Queue) : CancelConfig := ⟨init queue, ⟨[], []⟩, fun actor => .idle actor⟩

/-- What an actor is poised at. -/
abbrev Poise := Option TaskHandle

def SameSeqs (before after : Memory) : Prop := ∀ slot, (after.slot slot).seq = (before.slot slot).seq

def SameWords (before after : Memory) (slot : Nat) : Prop :=
  (after.slot slot).state = (before.slot slot).state ∧ (after.slot slot).cancel = (before.slot slot).cancel

/-- What the accesses of all calls do, by their stage. -/
def moves : Protocol Memory (Stage × Site) Poise := fun site poise later before after =>
  match site.1 with
  | .check handle => after = before ∧
      later = if (before.slot handle.slotIdx).seq = handle.seq then some handle else none
  | .withdraw handle => poise = some handle ∧ later = none ∧ SameSeqs before after ∧
      ∀ slot, slot ≠ handle.slotIdx → SameWords before after slot
  | .cancel _ => later = poise ∧ SameSeqs before after ∧ ∀ slot, SameWords before after slot
  | .renew slot => later = poise ∧ ∀ other, other ≠ slot → (after.slot other).seq = (before.slot other).seq
  | _ => later = poise ∧ SameSeqs before after

structure Poised (past : Past) (memory : Memory) (poises : Nat → Poise) : Prop where
  poised : ∀ actor handle, (actor, handle) ∈ past.poised ↔ poises actor = some handle
  current : ∀ actor handle, poises actor = some handle → (memory.slot handle.slotIdx).seq = handle.seq
  isolated : ∀ touch ∈ past.touched, touch.Isolated

section

variable {past : Past} {mem new : Memory} {poises : Nat → Poise} {who : Nat} {handle : TaskHandle} {other : Nat}

theorem mem_leave : (other, handle) ∈ past.leave who ↔ (other, handle) ∈ past.poised ∧ other ≠ who := by
  simp [Past.leave]

variable (ok : Poised past mem poises)

include ok

/-- An access outside `cancel` that writes no sequence number. -/
theorem Poised.quiet (seqs : SameSeqs mem new) :
    Poised past new (Function.update poises who (poises who)) := by
  rw [update_eq_self]
  refine ⟨ok.poised, fun other handle at_ => ?_, ok.isolated⟩
  rw [seqs]
  exact ok.current other handle at_

theorem Poised.renew {slot : Nat} (unhurried : ∀ entry ∈ past.poised, entry.2.slotIdx ≠ slot)
    (others : ∀ other, other ≠ slot → (new.slot other).seq = (mem.slot other).seq) :
    Poised past new (Function.update poises who (poises who)) := by
  rw [update_eq_self]
  refine ⟨ok.poised, fun other handle at_ => ?_, ok.isolated⟩
  rw [others _ (unhurried _ ((ok.poised other handle).mpr at_))]
  exact ok.current other handle at_

/-- What the others are poised at does not depend on this actor. -/
theorem Poised.leave (ne : other ≠ who) (later : Poise) :
    (other, target) ∈ past.leave who ↔ Function.update poises who later other = some target := by
  rw [mem_leave, update_of_ne ne, ok.poised]
  exact and_iff_left ne

theorem Poised.touch {touch : Touch} (isolated : touch.Isolated) :
    ∀ entry ∈ touch :: past.touched, entry.Isolated := by
  intro entry in_
  rcases List.mem_cons.mp in_ with rfl | older
  · exact isolated
  · exact ok.isolated entry older

theorem Poised.check :
    Poised (track who (.check handle, .field) mem mem past) mem (Function.update poises who
      (if (mem.slot handle.slotIdx).seq = handle.seq then some handle else none)) := by
  have isolated : (⟨handle, mem.slot, mem.slot⟩ : Touch).Isolated := by simp [Touch.Isolated]
  refine ⟨fun other target => ?_, fun other target at_ => ?_, ok.touch isolated⟩
  · by_cases mine : other = who
    · subst mine
      rw [update_self]
      by_cases same : (mem.slot handle.slotIdx).seq = handle.seq
      · simp [track, same, mem_leave, eq_comm]
      · simp [track, same, mem_leave]
    · rw [← ok.leave mine]
      by_cases same : (mem.slot handle.slotIdx).seq = handle.seq
      · simp [track, same, mine]
      · simp [track, same]
  · by_cases mine : other = who
    · subst mine
      rw [update_self] at at_
      split at at_
      · cases at_
        assumption
      · cases at_
    · rw [update_of_ne mine] at at_
      exact ok.current other target at_

omit ok

theorem Poised.withdraw (site : Site) (ok : Poised past mem poises) (poise : poises who = some handle)
    (seqs : SameSeqs mem new) (words : ∀ slot, slot ≠ handle.slotIdx → SameWords mem new slot) :
    Poised (track who (.withdraw handle, site) mem new past) new (Function.update poises who none) := by
  have isolated : (⟨handle, mem.slot, new.slot⟩ : Touch).Isolated := by
    intro slot diff
    by_cases same : slot = handle.slotIdx
    · subst same
      exact ⟨rfl, ok.current who handle poise⟩
    · obtain ⟨st, flag⟩ := words slot same
      rcases diff with diff | diff
      · exact absurd st.symm diff
      · exact absurd flag.symm diff
  refine ⟨fun other target => ?_, fun other target at_ => ?_, ok.touch isolated⟩
  · by_cases mine : other = who
    · subst mine
      simp [track, mem_leave]
    · exact ok.leave mine none
  · by_cases mine : other = who
    · subst mine
      simp at at_
    · rw [update_of_ne mine] at at_
      rw [seqs]
      exact ok.current other target at_

theorem Poised.beside (site : Site) (ok : Poised past mem poises) (seqs : SameSeqs mem new)
    (words : ∀ slot, SameWords mem new slot) :
    Poised (track who (.cancel handle, site) mem new past) new
      (Function.update poises who (poises who)) := by
  have isolated : (⟨handle, mem.slot, new.slot⟩ : Touch).Isolated := by
    intro slot diff
    obtain ⟨st, flag⟩ := words slot
    rcases diff with diff | diff
    · exact absurd st.symm diff
    · exact absurd flag.symm diff
  have quiet : Poised past new (Function.update poises who (poises who)) := ok.quiet seqs
  obtain ⟨poised, now, -⟩ := quiet
  exact ⟨poised, now, ok.touch isolated⟩

end

theorem keeps_poised (queue : Queue) : (cancellers queue Unhurried).Keeps (fun _ => moves) Poised := by
  rintro _ who ⟨stage, site⟩ later old new past poises ok unhurried move
  cases stage with
  | check handle =>
    obtain ⟨rfl, rfl⟩ := move
    exact ok.check
  | withdraw handle =>
    obtain ⟨poise, rfl, seqs, words⟩ := move
    exact ok.withdraw site poise seqs words
  | cancel handle =>
    obtain ⟨rfl, seqs, words⟩ := move
    exact ok.beside site seqs words
  | renew slot =>
    obtain ⟨rfl, others⟩ := move
    exact ok.renew unhurried others
  | _ =>
    obtain ⟨rfl, seqs⟩ := move
    exact ok.quiet seqs

section

/-- Accesses that leave every sequence number alone. -/
def Steady (_ : Site) (update : Memory → Memory) : Prop := ∀ memory, SameSeqs memory (update memory)

theorem steady_field (site : Site) (idx : Nat) {get : TaskSlot → Value}
    {set : Value → TaskSlot → TaskSlot} (val : Value) (keeps : ∀ slot, (set val slot).seq = slot.seq) :
    Steady site (((slotRef idx).field get set).set val) := by
  intro mem slot
  by_cases same : slot = idx
  · subst same
    simpa [slotRef, Ref.field] using keeps (mem.slot slot)
  · simp [slotRef, Ref.field, same]

theorem whole_steady : Whole Steady where
  pop _ _ _ keeps mem slot := by rw [keeps]
  push _ _ _ _ keeps mem slot := by rw [keeps]
  count _ keeps mem slot := by rw [keeps]
  uncount _ keeps mem slot := by rw [keeps]
  field _ keeps mem slot := (keeps mem slot).2.1
  claim slot mem entry := (exchanged_fields slot _ _ mem entry).1
  recover slot mem entry := (exchanged_fields slot _ _ mem entry).1
  cancel slot mem entry := (exchanged_fields slot _ _ mem entry).1
  complete slot mem entry := (exchanged_fields slot _ _ mem entry).1
  requeue slot mem entry := (exchanged_fields slot _ _ mem entry).1
  fail slot mem entry := (exchanged_fields slot _ _ mem entry).1
  reserve slot := steady_field _ slot _ fun _ => rfl
  publish slot := steady_field _ slot _ fun _ => rfl
  finish slot := steady_field _ slot _ fun _ => rfl
  result slot _ := steady_field _ slot _ fun _ => rfl

/-- Accesses outside `cancel`. -/
def Outside (site : Stage × Site) (update : Memory → Memory) : Prop :=
  ∀ memory, moves site none none memory (update memory)

theorem outside_of_steady (calm : (stage.shared || stage.reads) = true)
    {update : Memory → Memory} (steady : Steady site update) : Outside (stage, site) update := by
  intro mem
  have kept := steady mem
  cases stage with
  | plain | number | lease | see | date | count | lapse | ask | look | read | recheck | reply => exact ⟨rfl, kept⟩
  | _ => cases calm

theorem spans_outside : Staged.Spans Outside where
  whole shared := whole_steady.mono fun steady => outside_of_steady (by simp [shared]) steady
  reads read update keeps := by
    refine outside_of_steady (by simp [read]) (fun mem slot => ?_)
    rw [(keeps mem).2.2]
  answer slot res mem := ⟨rfl, steady_field .field slot res (fun _ => rfl) mem⟩
  again slot retry mem := ⟨rfl, steady_field .field slot retry (fun _ => rfl) mem⟩

theorem outside_stamp (idx due : Nat) : Outside (.stamp idx, .field) ((deadlineOf idx).set due) :=
  fun mem => ⟨rfl, steady_field .field idx due (fun _ => rfl) mem⟩

theorem outside_writeFields (idx : Nat) (req : ChunkDesc) (due : Nat) :
    (Staged.writeFields idx req due).Every Outside := by
  have wrote {Value : Type} {stage : Stage} {cell : Ref Memory Value} {val : Value}
      (outside : Outside (stage, .field) (cell.set val)) :
      (store (stage, .field) cell val : Steps Unit).Every Outside := ⟨outside, fun _ => trivial⟩
  refine every_bind (Staged.every_read (spans_outside.reads rfl) _) fun seq => ?_
  refine every_bind (wrote fun mem => ⟨rfl, fun other ne => ?_⟩) fun _ => ?_
  · simp [seqOf, slotRef, Ref.field, ne]
  iterate 6
    refine every_bind (wrote fun mem => ⟨rfl, steady_field .field idx _ (fun _ => rfl) mem⟩) fun _ => ?_
  trivial

theorem follows_outside {code : Steps Value} (every : code.Every Outside) : code.Leads moves none none :=
  follows_of_every every

/-- A check of the sequence number: found, the actor is poised at its task. -/
theorem follows_check (handle : TaskHandle) (got : ∀ seq, post seq (if seq = handle.seq then some handle else none)) :
    (load (.check handle, .field) (seqOf handle.slotIdx) : Steps Nat).Follows moves post poise :=
  follows_load fun mem => ⟨_, ⟨rfl, rfl⟩, got (mem.slot handle.slotIdx).seq⟩

theorem follows_flagClaimed (handle : TaskHandle) (idle : poise = none) :
    (Staged.flagClaimed handle).Leads moves none poise := by
  subst idle
  refine follows_bind (follows_load fun mem => ?_)
  refine ⟨none, ⟨rfl, fun _ => rfl, fun _ => ⟨rfl, rfl⟩⟩, ?_⟩
  split
  · refine follows_bind (follows_check handle fun seq => ?_)
    by_cases same : seq = handle.seq
    · rw [if_pos same, if_pos same]
      refine follows_store fun mem => ⟨none, ⟨rfl, rfl, ?_, fun slot ne => ?_⟩, rfl⟩
      · exact steady_field .field handle.slotIdx 1 (fun _ => rfl) mem
      · simp [SameWords, cancelOf, slotRef, Ref.field, ne]
    · rw [if_neg same, if_neg same]
      rfl
  · rfl

theorem follows_cancel (queue : Queue) (handle : TaskHandle) :
    (Staged.cancel queue handle).Leads moves none none := by
  have recounted {poise : Poise} (site : Site) (change : Nat → Nat) :
      (fetchUpdate site cancelledRef change : Code Nat).Leads (fun site => moves (.cancel handle, site))
        poise poise :=
    follows_fetchUpdate fun _ => ⟨poise, ⟨rfl, fun _ => rfl, fun _ => ⟨rfl, rfl⟩⟩, rfl⟩
  unfold Staged.cancel
  split
  · rfl
  refine follows_bind (follows_check handle fun seq => ?_)
  by_cases same : seq = handle.seq
  · rw [if_pos same, if_neg (by simpa using same)]
    refine follows_seq (follows_label (recounted _ _)) fun _ => ?_
    have withdrawn : ((tryCancelQueued handle.slotIdx).label (.withdraw handle)).Leads moves
        none (some handle) := by
      refine follows_label (follows_bind (follows_compareExchange (fun mem _ => ?_) fun mem _ => ?_))
      · refine ⟨none, ⟨rfl, rfl, ?_, fun slot ne => ?_⟩, rfl⟩
        · exact steady_field .field handle.slotIdx _ (fun _ => rfl) mem
        · simp [SameWords, stateOf, slotRef, Ref.field, ne]
      · exact ⟨none, ⟨rfl, rfl, fun _ => rfl, fun _ _ => ⟨rfl, rfl⟩⟩, rfl⟩
    refine follows_seq withdrawn fun won => ?_
    cases won with
    | true =>
      refine follows_bind (follows_load fun mem => ?_)
      exact ⟨none, ⟨rfl, fun _ => rfl, fun _ => ⟨rfl, rfl⟩⟩, rfl⟩
    | false =>
      refine follows_seq (follows_label (recounted _ _)) fun _ => ?_
      exact follows_then (follows_flagClaimed handle rfl) fun _ _ idle => idle
  · rw [if_neg same, if_pos same]
    rfl

theorem follows_call (queue : Queue) (op : Call) : (Staged.call queue op).Leads moves none none := by
  cases op with
  | cancel handle => exact follows_map (follows_cancel queue handle)
  | submit | work | reap | ack | reapBindings | poll =>
    exact follows_outside (spans_outside.call queue outside_writeFields outside_stamp (by simp))

end

/-- Cancel isolation: whatever `cancel(handle)` changes of a state word or of a
cooperative flag is of the task of its handle. -/
theorem cancels_isolated_of_reachable {queue : Queue} {config : CancelConfig}
    (reached : (cancellers queue Unhurried).Reachable (opening queue) config) :
    ∀ touch ∈ config.history.touched, touch.Isolated := by
  have start : (cancellers queue Unhurried).Guided (fun _ => moves) Poised (fun _ poise => poise = none)
      (fun _ _ => True) (opening queue) :=
    ⟨fun _ => none, ⟨by simp [opening], by simp, by simp [opening]⟩, fun _ => rfl⟩
  obtain ⟨_, valid, -⟩ := guided_of_reachable start reached (fun _ _ _ _ _ _ _ _ => trivial)
    (fun _ op _ _ idle => ⟨trivial, idle ▸ follows_call queue op⟩) (keeps_poised queue)
  exact valid.isolated

section

instance (actor : Nat) (site : Stage × Site) (memory : Memory) (past : Past) :
    Decidable (Unhurried actor site memory past) := by
  unfold Unhurried
  split <;> infer_instance

/-- Task 1 is submitted and a cancel of it begins; task 1 is completed and its
slot taken by task 2 when the cancel has made `steps` of its steps. -/
def overtaking (steps : Nat) : List (Stretch Call) :=
  [.begin 0 (.submit .zero 5 none), .run 0 60 1, .begin 1 (.cancel ⟨0, 1⟩), .run 1 steps 1,
    .begin 2 (completing 77), .run 2 60 1, .begin 0 (.submit .zero 5 none), .run 0 60 1, .run 1 20 1]

/-- What an access did to slot 0, and under which sequence number. -/
def Touch.seen (touch : Touch) : TaskHandle × TaskState × TaskState × Nat :=
  (touch.handle, (touch.before 0).state, (touch.after 0).state, (touch.before 0).seq)

/-- The cancel of task 1 stands between its check and its exchange, and cancels
task 2. -/
theorem overtaken_not_isolated : ∃ config, (cancellers single fun _ _ _ _ => True).Reachable (opening single) config ∧
    ∃ touch ∈ config.history.touched, ¬ touch.Isolated := by
  refine ⟨(cancellers single fun _ _ _ _ => True).follow (overtaking 2) (opening single),
    reachable_follow _ .refl, ?_⟩
  have logged : (⟨0, 1⟩, .queued, .cancelled, 2) ∈
      (((cancellers single fun _ _ _ _ => True).follow (overtaking 2) (opening single)).history.touched.map
        Touch.seen) := by decide +kernel
  obtain ⟨touch, member, seen⟩ := List.mem_map.mp logged
  obtain ⟨handle, before, after, seq⟩ : touch.handle = ⟨0, 1⟩ ∧ (touch.before 0).state = .queued ∧
      (touch.after 0).state = .cancelled ∧ (touch.before 0).seq = 2 := by simpa [Touch.seen] using seen
  refine ⟨touch, member, fun isolated => ?_⟩
  have own := (isolated 0 (.inl (by simp [before, after]))).2
  simp [handle, seq] at own

/-- The cancel has made its exchange when the slot is recycled. -/
theorem isolated_of_finished :
    (⟨0, 1⟩, .queued, .cancelled, 1) ∈
      (((cancellers single Unhurried).follow (overtaking 3) (opening single)).history.touched.map Touch.seen) ∧
    ∀ touch ∈ ((cancellers single Unhurried).follow (overtaking 3) (opening single)).history.touched,
      touch.Isolated := by
  have reached : (cancellers single Unhurried).Reachable (opening single)
      ((cancellers single Unhurried).follow (overtaking 3) (opening single)) :=
    reachable_follow _ .refl
  exact ⟨by decide +kernel, cancels_isolated_of_reachable reached⟩

end

end Cancelling

end ShmActors.Task
