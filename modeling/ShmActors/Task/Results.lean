import ShmActors.Task.Telling

/-! What a requester reads: the result of the task it asked about, written by a
worker that had claimed that very task. -/

namespace ShmActors.Task

open Lib Core Program Function

/-- A worker that had claimed the slot under this `seq` completed with `result`. -/
def Finished (marks : List Mark) (slot seq : Nat) (result : ChunkDesc) : Prop :=
  ∃ actor task, Mark.stored actor task result ∈ marks ∧ task.idx = slot ∧ task.seq = seq

/-- Every completion on the slot was under an older `seq`. -/
def Unfinished (marks : List Mark) (slot seq : Nat) : Prop :=
  ∀ actor task result, Mark.stored actor task result ∈ marks → task.idx = slot → task.seq < seq

/-- What an operation knows in the middle of its work: of the slot in its hands,
or of the task it polls. -/
inductive Work where
  | nothing
  | loaded (slot seq : Nat)
  | fresh (slot : Nat)
  | completing (task : ClaimedTask)
  | written (task : ClaimedTask) (result : ChunkDesc)
  | checked (handle : TaskHandle)
  | seen (handle : TaskHandle)
  | read (handle : TaskHandle) (result : ChunkDesc)

namespace Work

def Holds (marks : List Mark) (memory : Memory) (held : Held) : Work → Prop
  | nothing => True
  | loaded slot seq => held.slots slot = some .reserved ∧ (memory.slot slot).seq = seq
  | fresh slot => held.slots slot = some .reserved ∧ Unfinished marks slot (memory.slot slot).seq
  | completing task => held.slots task.idx = some .completing ∧ (memory.slot task.idx).seq = task.seq
  | written task result => held.slots task.idx = some .completing ∧
      (memory.slot task.idx).seq = task.seq ∧ (memory.slot task.idx).result = result
  | checked handle => handle.seq ≤ (memory.slot handle.slotIdx).seq
  | seen handle => (∃ result, Finished marks handle.slotIdx handle.seq result) ∨
      handle.seq < (memory.slot handle.slotIdx).seq
  | read handle result => Finished marks handle.slotIdx handle.seq result ∨
      handle.seq < (memory.slot handle.slotIdx).seq

/-- The slot whose fields the operation alone may write. -/
def slot : Work → Option Nat
  | loaded slot _ | fresh slot => some slot
  | completing task | written task _ => some task.idx
  | _ => none

theorem Holds.held {held : Held} {work : Work}
    (holds : work.Holds marks mem held) (own : work.slot = some entry) : held.slots entry ≠ none := by
  cases work with
  | loaded slot seq =>
    cases own
    simp [holds.1]
  | fresh slot =>
    cases own
    simp [holds.1]
  | completing task =>
    cases own
    simp [holds.1]
  | written task res =>
    cases own
    simp [holds.1]
  | nothing | checked | seen | read => cases own

end Work

structure Desk where
  work : Work
  answers : List (TaskHandle × ChunkDesc)

/-- A slot whose task may still be completed. -/
def Active (state : TaskState) : Prop := state = .queued ∨ state = .claimed ∨ state = .completing

structure Integrity (queue : Queue) (history : WorkHistory) (memory : Memory) (hands : Nat → Hands)
    (desks : Nat → Desk) : Prop where
  stored : ∀ actor task result, Mark.stored actor task result ∈ history.2 →
    task.seq ≤ (memory.slot task.idx).seq ∧
      (task.seq = (memory.slot task.idx).seq → (memory.slot task.idx).result = result)
  done : ∀ slot < queue.capacity, (memory.slot slot).state = .done →
    Finished history.2 slot (memory.slot slot).seq (memory.slot slot).result
  active : ∀ slot < queue.capacity, Active (memory.slot slot).state →
    Unfinished history.2 slot (memory.slot slot).seq
  works : ∀ actor, (desks actor).work.Holds history.2 memory (hands actor).2
  answers : ∀ actor, ∀ entry ∈ (desks actor).answers,
    Finished history.2 entry.1.slotIdx entry.1.seq entry.2

section

variable {history : WorkHistory} {marks : List Mark} {marks' : List Mark}

/-- The same completions. -/
def SameStores (marks marks' : List Mark) : Prop :=
  ∀ actor task result, Mark.stored actor task result ∈ marks' ↔ Mark.stored actor task result ∈ marks

theorem SameStores.finished (same : SameStores marks marks') (slot seq : Nat)
    (res : ChunkDesc) : Finished marks' slot seq res ↔ Finished marks slot seq res := by
  unfold SameStores at same
  unfold Finished
  simp only [same]

theorem SameStores.unfinished (same : SameStores marks marks') (slot seq : Nat) :
    Unfinished marks' slot seq ↔ Unfinished marks slot seq := by
  unfold SameStores at same
  unfold Unfinished
  simp only [same]

/-- What an operation knows survives an access that leaves sequence numbers,
results and completions alone. -/
theorem Work.Holds.congr {work : Work} {held : Held} (holds : work.Holds history.2 mem held)
    (stores : SameStores history.2 marks) (seqs : ∀ slot, (new.slot slot).seq = (mem.slot slot).seq)
    (results : ∀ slot, (new.slot slot).result = (mem.slot slot).result) : work.Holds marks new held := by
  cases work with
  | nothing => trivial
  | loaded slot seq => exact ⟨holds.1, (seqs slot).trans holds.2⟩
  | fresh slot => exact ⟨holds.1, by rw [seqs, stores.unfinished]; exact holds.2⟩
  | completing task => exact ⟨holds.1, (seqs task.idx).trans holds.2⟩
  | written task res =>
    exact ⟨holds.1, (seqs task.idx).trans holds.2.1, (results task.idx).trans holds.2.2⟩
  | checked handle =>
    show handle.seq ≤ _
    rw [seqs]
    exact holds
  | seen handle =>
    show (∃ res, Finished marks _ _ res) ∨ _
    simp only [seqs, stores.finished]
    exact holds
  | read handle res =>
    show Finished marks _ _ res ∨ _
    rw [seqs, stores.finished]
    exact holds

/-- An access that leaves sequence numbers, results and completions alone, and
makes no task active again or done. -/
theorem Integrity.quiet (ok : Integrity queue history mem hands desks) (stores : SameStores history.2 marks)
    (seqs : ∀ slot, (new.slot slot).seq = (mem.slot slot).seq)
    (results : ∀ slot, (new.slot slot).result = (mem.slot slot).result)
    (dones : ∀ slot, (new.slot slot).state = .done → (mem.slot slot).state = .done)
    (actives : ∀ slot < queue.capacity, Active (new.slot slot).state →
      Unfinished history.2 slot (mem.slot slot).seq)
    (works : ∀ who, (desks' who).work.Holds history.2 mem (hands' who).2)
    (answers : ∀ who, ∀ entry ∈ (desks' who).answers,
      Finished history.2 entry.1.slotIdx entry.1.seq entry.2) :
    Integrity queue (past, marks) new hands' desks' where
  stored who task res in_ := by
    rw [seqs, results]
    exact ok.stored who task res ((stores who task res).mp in_)
  done slot known done := by
    rw [seqs, results, stores.finished]
    exact ok.done slot known (dones slot done)
  active slot known active := by
    rw [seqs, stores.unfinished]
    exact actives slot known active
  works who := (works who).congr stores seqs results
  answers who entry in_ := by
    rw [stores.finished]
    exact answers who entry in_

end

/-- Runs in which a `complete` wins its exchange only on the task it was called
for, no sequence number reaches its end, and no head is updated `2 ^ 32` times
between a load and its exchange. -/
def SameTask (queue : Queue) (actor : Nat) (site : Role × Site) (memory : Memory)
    (history : WorkHistory) : Prop :=
  (system queue).actors.allowed actor site.2 memory history.1 ∧
    (∀ slot < queue.capacity, (memory.slot slot).seq + 1 < 2 ^ 64) ∧
    match site with
    | (.finisher task _, .complete slot) =>
      (memory.slot slot).state = .claimed → (memory.slot slot).seq = task.seq
    | _ => True

/-- Accesses that write no sequence number and no result, publish nothing and
finish nothing. -/
def Neutral (site : Site) (update : Memory → Memory) : Prop :=
  Shape site update ∧ (∀ slot, site ≠ .publish slot) ∧ (∀ slot, site ≠ .finish slot) ∧
    ∀ memory slot, ((update memory).slot slot).seq = (memory.slot slot).seq ∧
      ((update memory).slot slot).result = (memory.slot slot).result

theorem stateOf_set_fields (entry : Nat) (new : TaskState) (mem : Memory) (slot : Nat) :
    (((stateOf entry).set new mem).slot slot).seq = (mem.slot slot).seq ∧
      (((stateOf entry).set new mem).slot slot).result = (mem.slot slot).result :=
  ⟨word_of_set _ _ _ _ _, word_of_set _ _ _ _ _⟩

theorem exchanged_fields (entry : Nat) (now new : TaskState) (mem : Memory) (slot : Nat) :
    ((exchanged entry now new mem).slot slot).seq = (mem.slot slot).seq ∧
      ((exchanged entry now new mem).slot slot).result = (mem.slot slot).result := by
  unfold exchanged
  split
  · exact stateOf_set_fields entry new mem slot
  · exact ⟨rfl, rfl⟩

section

variable {update : Memory → Memory}

theorem sameStores_note (old new : Memory) (marks : List Mark)
    (plain : ∀ slot, site ≠ .finish slot) : SameStores marks (note actor old new (who, site) marks) := by
  intro other task res
  have either {mark : Mark} (differs : Mark.stored other task res ≠ mark) (cond : Prop) [Decidable cond] :
      Mark.stored other task res ∈ (if cond then mark :: marks else marks) ↔
        Mark.stored other task res ∈ marks := by
    split
    · exact ⟨fun in_ => (List.mem_cons.mp in_).resolve_left differs, List.mem_cons_of_mem _⟩
    · exact Iff.rfl
  cases site with
  | finish slot => exact absurd rfl (plain slot)
  | claim slot | requeue slot => exact either (by simp) _
  | complete slot =>
    cases who with
    | finisher => exact either (by simp) _
    | caller | reaper => exact Iff.rfl
  | fail slot =>
    cases who with
    | finisher => exact either (by simp) _
    | caller | reaper => exact either (by simp) _
  | _ => exact Iff.rfl

/-- A neutral access makes no task active that was not, and none done. -/
theorem Neutral.states (neutral : Neutral site update) (mem : Memory) (slot : Nat) :
    ((update mem).slot slot).state = (mem.slot slot).state ∨
      (((update mem).slot slot).state ≠ .done ∧
        (Active ((update mem).slot slot).state → Active (mem.slot slot).state)) := by
  obtain ⟨shape, unpublished, unfinished, -⟩ := neutral
  rcases shape.turn mem slot with unchanged | ⟨old, new, known, before, after⟩
  · exact .inl unchanged
  right
  rw [after]
  cases site with
  | publish entry => exact absurd rfl (unpublished entry)
  | finish entry => exact absurd rfl (unfinished entry)
  | claim entry =>
    cases known
    rw [before .queued rfl]
    exact ⟨by simp, fun _ => .inl rfl⟩
  | complete entry =>
    cases known
    rw [before .claimed rfl]
    exact ⟨by simp, fun _ => .inr (.inl rfl)⟩
  | recover | cancel | requeue | fail | reserve =>
    cases known
    exact ⟨by simp, by simp [Active]⟩
  | pop | push | count | uncount | field => cases known

theorem Integrity.neutral (ok : Integrity queue history mem hands desks) (neutral : Neutral site update)
    (works : ∀ other, (desks' other).work.Holds history.2 mem (hands' other).2)
    (answers : ∀ other, ∀ entry ∈ (desks' other).answers, Finished history.2 entry.1.slotIdx entry.1.seq entry.2) :
    Integrity queue (past, note actor mem (update mem) (who, site) history.2) (update mem) hands' desks' := by
  refine ok.quiet (sameStores_note _ _ _ neutral.2.2.1) (fun slot => (neutral.2.2.2 mem slot).1)
    (fun slot => (neutral.2.2.2 mem slot).2) ?_ ?_ works answers
  · intro slot done
    rcases neutral.states mem slot with same | ⟨notDone, -⟩
    · exact same ▸ done
    · exact absurd done notDone
  · intro slot known active
    apply ok.active slot known
    rcases neutral.states mem slot with same | ⟨-, stays⟩
    · exact same ▸ active
    · exact stays active

end

theorem covers_neutral : Covers Neutral where
  pop _ _ _ keeps := ⟨keeps, by simp, by simp, fun mem slot => by simp [keeps mem]⟩
  push _ _ _ _ keeps := ⟨keeps, by simp, by simp, fun mem slot => by simp [keeps mem]⟩
  count _ keeps := ⟨keeps, by simp, by simp, fun mem slot => by simp [keeps mem]⟩
  uncount _ keeps := ⟨keeps, by simp, by simp, fun mem slot => by simp [keeps mem]⟩
  claim slot := ⟨rfl, by simp, by simp, exchanged_fields slot _ _⟩
  recover slot := ⟨rfl, by simp, by simp, exchanged_fields slot _ _⟩
  cancel slot := ⟨rfl, by simp, by simp, exchanged_fields slot _ _⟩
  complete slot := ⟨rfl, by simp, by simp, exchanged_fields slot _ _⟩
  requeue slot := ⟨rfl, by simp, by simp, exchanged_fields slot _ _⟩
  fail slot := ⟨rfl, by simp, by simp, exchanged_fields slot _ _⟩
  reserve slot := ⟨rfl, by simp, by simp, stateOf_set_fields slot _⟩
  field _ keeps := ⟨fun mem slot => (keeps mem slot).1, by simp, by simp,
    fun mem slot => ⟨(keeps mem slot).2.1, (keeps mem slot).2.2.2⟩⟩

theorem stamps_neutral : Covers.Stamps Neutral due := by
  intro idx val eq
  refine ⟨stamps_shape idx val eq, by simp, by simp, fun mem slot => ?_⟩
  by_cases same : slot = idx
  · subst same
    simp [deadlineOf, slotRef, Ref.field]
  · simp [deadlineOf, slotRef, Ref.field, same]

section

variable {queue : Queue} {history : WorkHistory} {mem new : Memory} {hands : Nat → Hands} {desks : Nat → Desk}
  {past : Tags Shard × List Event} {actor slot : Nat} {kept : Hands} {desk : Desk} {who : Role} {marks : List Mark}
  {entry seq : Nat} {res : ChunkDesc} {task : ClaimedTask} (ok : Integrity queue history mem hands desks)

include ok

theorem Integrity.works_update (own : desk.work.Holds history.2 mem kept.2) (other : Nat) :
    (Function.update desks actor desk other).work.Holds history.2 mem
      (Function.update hands actor kept other).2 := by
  by_cases same : other = actor
  · subst same
    simpa using own
  · simpa [same] using ok.works other

theorem Integrity.answers_update
    (own : ∀ entry ∈ desk.answers, Finished history.2 entry.1.slotIdx entry.1.seq entry.2) (other : Nat) :
    ∀ entry ∈ (Function.update desks actor desk other).answers,
      Finished history.2 entry.1.slotIdx entry.1.seq entry.2 := by
  by_cases same : other = actor
  · subst same
    simpa using own
  · simpa [same] using ok.answers other

/-- A neutral access by an actor that learns something from it. -/
theorem Integrity.learn {update : Memory → Memory} (neutral : Neutral site update)
    (own : desk.work.Holds history.2 mem kept.2)
    (answers : ∀ entry ∈ desk.answers, Finished history.2 entry.1.slotIdx entry.1.seq entry.2) :
    Integrity queue (past, note actor mem (update mem) (who, site) history.2) (update mem)
      (Function.update hands actor kept) (Function.update desks actor desk) :=
  ok.neutral neutral (ok.works_update own) (ok.answers_update answers)

omit ok

/-- What others know survives a write to a slot that is not in their hands. -/
theorem Work.Holds.apart {work : Work} {held : Held} (holds : work.Holds history.2 mem held)
    (away : held.slots slot = none)
    (others : ∀ entry, entry ≠ slot → (new.slot entry).seq = (mem.slot entry).seq ∧
      (new.slot entry).result = (mem.slot entry).result)
    (grows : (mem.slot slot).seq ≤ (new.slot slot).seq) : work.Holds history.2 new held := by
  have ne {entry : Nat} (own : work.slot = some entry) : entry ≠ slot := by
    rintro rfl
    exact holds.held own away
  have grown (entry : Nat) : (mem.slot entry).seq ≤ (new.slot entry).seq := by
    by_cases same : entry = slot
    · exact same ▸ grows
    · exact (others entry same).1.ge
  cases work with
  | nothing => trivial
  | loaded entry seq => exact ⟨holds.1, (others entry (ne rfl)).1.trans holds.2⟩
  | fresh entry => exact ⟨holds.1, by rw [(others entry (ne rfl)).1]; exact holds.2⟩
  | completing task => exact ⟨holds.1, (others _ (ne rfl)).1.trans holds.2⟩
  | written task res =>
    exact ⟨holds.1, (others _ (ne rfl)).1.trans holds.2.1, (others _ (ne rfl)).2.trans holds.2.2⟩
  | checked handle => exact Nat.le_trans holds (grown _)
  | seen handle => exact holds.imp id fun less => Nat.lt_of_lt_of_le less (grown _)
  | read handle res => exact holds.imp id fun less => Nat.lt_of_lt_of_le less (grown _)

include ok

/-- A write to the fields of a slot in hand, under a `seq` no one has completed. -/
theorem Integrity.rewrite (alone : ∀ other, other ≠ actor → (hands other).2.slots slot = none)
    (states : ∀ entry, (new.slot entry).state = (mem.slot entry).state)
    (notDone : (mem.slot slot).state ≠ .done)
    (others : ∀ entry, entry ≠ slot → (new.slot entry).seq = (mem.slot entry).seq ∧
      (new.slot entry).result = (mem.slot entry).result)
    (grows : (mem.slot slot).seq ≤ (new.slot slot).seq) (older : Unfinished history.2 slot (new.slot slot).seq)
    (own : desk.work.Holds history.2 new kept.2) (answers : desk.answers = (desks actor).answers) :
    Integrity queue (past, history.2) new (Function.update hands actor kept)
      (Function.update desks actor desk) where
  stored who task res in_ := by
    by_cases same : task.idx = slot
    · have less := older who task res in_ same
      rw [same]
      exact ⟨less.le, fun eq => absurd eq less.ne⟩
    · rw [(others _ same).1, (others _ same).2]
      exact ok.stored who task res in_
  done entry known done := by
    rw [states] at done
    have ne : entry ≠ slot := fun same => notDone (same ▸ done)
    rw [(others entry ne).1, (others entry ne).2]
    exact ok.done entry known done
  active entry known active := by
    rw [states] at active
    by_cases same : entry = slot
    · exact same ▸ older
    · rw [(others entry same).1]
      exact ok.active entry known active
  works other := by
    by_cases same : other = actor
    · subst same
      simpa using own
    · simpa [same] using (ok.works other).apart (alone other same) others grows
  answers := ok.answers_update (answers ▸ ok.answers actor)

/-- Publishing a slot whose `seq` no one has completed. -/
theorem Integrity.publish (older : Unfinished history.2 slot (mem.slot slot).seq)
    (own : desk.work = .nothing) (answers : desk.answers = (desks actor).answers) :
    Integrity queue (past, note actor mem ((stateOf slot).set .queued mem) (who, .publish slot) history.2)
      ((stateOf slot).set .queued mem) (Function.update hands actor kept) (Function.update desks actor desk) := by
  apply ok.quiet (sameStores_note _ _ _ (by simp))
  · exact fun entry => (stateOf_set_fields slot _ mem entry).1
  · exact fun entry => (stateOf_set_fields slot _ mem entry).2
  · intro entry done
    by_cases same : entry = slot
    · subst same
      simp at done
    · rwa [stateOf_set_other _ _ same] at done
  · intro entry known active
    by_cases same : entry = slot
    · exact same ▸ older
    · rw [stateOf_set_other _ _ same] at active
      exact ok.active entry known active
  · apply ok.works_update
    rw [own]
    trivial
  · exact ok.answers_update (answers ▸ ok.answers actor)

omit ok

theorem Finished.cons (mark : Mark)
    (finished : Finished marks entry seq res) : Finished (mark :: marks) entry seq res := by
  obtain ⟨worker, task, in_, same⟩ := finished
  exact ⟨worker, task, List.mem_cons_of_mem _ in_, same⟩

theorem Unfinished.cons {worker : Nat} (unfinished : Unfinished marks entry seq) (ne : task.idx ≠ entry) :
    Unfinished (.stored worker task res :: marks) entry seq := by
  intro other done val in_ same
  rcases List.mem_cons.mp in_ with eq | older
  · cases eq
    exact absurd same ne
  · exact unfinished other done val older same

include ok

/-- The store of `DONE` under the `seq` of the task, with its result written. -/
theorem Integrity.finish (alone : ∀ other, other ≠ actor → (hands other).2.slots task.idx = none)
    (seq : (mem.slot task.idx).seq = task.seq) (written : (mem.slot task.idx).result = res)
    (own : desk.work = .nothing) (answers : desk.answers = (desks actor).answers) :
    Integrity queue (past, .stored actor task res :: history.2)
      ((stateOf task.idx).set .done mem) (Function.update hands actor kept)
      (Function.update desks actor desk) where
  stored worker other val in_ := by
    rw [(stateOf_set_fields _ _ mem _).1, (stateOf_set_fields _ _ mem _).2]
    rcases List.mem_cons.mp in_ with eq | older
    · cases eq
      exact ⟨seq.ge, fun _ => written⟩
    · exact ok.stored worker other val older
  done entry known done := by
    rw [(stateOf_set_fields _ _ mem _).1, (stateOf_set_fields _ _ mem _).2]
    by_cases same : entry = task.idx
    · rw [same, seq, written]
      exact ⟨actor, task, List.mem_cons_self, rfl, rfl⟩
    · rw [stateOf_set_other _ _ same] at done
      exact (ok.done entry known done).cons _
  active entry known active := by
    rw [(stateOf_set_fields _ _ mem _).1]
    have ne : entry ≠ task.idx := by
      rintro rfl
      rw [stateOf_set_self] at active
      simp [Active] at active
    rw [stateOf_set_other _ _ ne] at active
    exact (ok.active entry known active).cons (Ne.symm ne)
  works other := by
    by_cases same : other = actor
    · subst same
      simp only [update_self, own]
      trivial
    · simp only [update_of_ne same]
      have known := ok.works other
      have ne {entry : Nat} (held : (desks other).work.slot = some entry) : task.idx ≠ entry := by
        rintro rfl
        exact known.held held (alone other same)
      have seqs := fun entry => (stateOf_set_fields task.idx .done mem entry).1
      have results := fun entry => (stateOf_set_fields task.idx .done mem entry).2
      revert known ne
      cases (desks other).work with
      | nothing => exact fun _ _ => trivial
      | loaded entry seq => exact fun known _ => ⟨known.1, (seqs entry).trans known.2⟩
      | fresh entry =>
        intro known ne
        refine ⟨known.1, ?_⟩
        rw [seqs]
        exact known.2.cons (ne rfl)
      | completing other => exact fun known _ => ⟨known.1, (seqs _).trans known.2⟩
      | written other val =>
        exact fun known _ => ⟨known.1, (seqs _).trans known.2.1, (results _).trans known.2.2⟩
      | checked handle => exact fun known _ => Nat.le_trans known (seqs _).ge
      | seen handle =>
        intro known _
        refine known.imp (fun finished => ?_) fun less => (seqs _).symm ▸ less
        obtain ⟨val, finished⟩ := finished
        exact ⟨val, finished.cons _⟩
      | read handle val =>
        exact fun known _ => known.imp (fun finished => finished.cons _) fun less => (seqs _).symm ▸ less
  answers := by
    intro other entry in_
    exact (ok.answers_update (answers ▸ ok.answers actor) other entry in_).cons _

end

end ShmActors.Task
