import ShmActors.Artifact.Recording

/-! Threads of one actor that record into its journal and release slots of it. The
slot is written before the bit is won, so whoever wins must be the last to write. -/

namespace ShmActors.Artifact

open Lib Core Program Function Actors

inductive RecorderCall where
  | record (entry : JournalRecord)
  | release (slot : Nat)

inductive RecorderAnswer where
  | recorded (outcome : Except Error Nat)
  | released (outcome : Except Error Bool)

inductive JournalEvent where
  | granted (actor slot : Nat) (entry : JournalRecord)
  | released (slot : Nat)
  deriving DecidableEq

/-- The entry of the caller that owns a slot, by the events, newest first. -/
def owner (slot : Nat) : List JournalEvent → Option JournalRecord
  | [] => none
  | .granted _ place entry :: older => if place = slot then some entry else owner slot older
  | .released place :: older => if place = slot then none else owner slot older

/-- No slot is granted while somebody owns it. -/
def GrantedOnce : List JournalEvent → Prop
  | [] => True
  | .granted _ slot _ :: older => owner slot older = none ∧ GrantedOnce older
  | .released _ :: older => GrantedOnce older

/-- What happened, and the writes whose exchange is still to come, as actor and slot. -/
structure RecorderLog where
  events : List JournalEvent
  writing : List (Nat × Nat)

section

variable {Content : Type} (journal : BorrowJournal)

def RecorderCall.program : RecorderCall → Act Content RecorderAnswer
  | .record entry => .recorded <$> journal.record entry
  | .release slot => .released <$> journal.release slot

def RecorderLog.note (actor : Nat) (site : RecorderCall × Site) (before after : Memory Content) (log : RecorderLog) :
    RecorderLog :=
  match site.2, site.1 with
  | .journalEntry slot, _ => { log with writing := (actor, slot) :: log.writing }
  | .journalRecord slot, .record entry =>
    { writing := log.writing.filter fun write => write.1 ≠ actor
      events := if (before.journals journal.segment).held slot = (after.journals journal.segment).held slot then
        log.events else .granted actor slot entry :: log.events }
  | .journalRelease slot, _ => { log with events := .released slot :: log.events }
  | _, _ => log

/-- A thread has the slots it was given, with what it recorded there. -/
def receive (own : List (Nat × JournalRecord)) : RecorderCall → RecorderAnswer → List (Nat × JournalRecord)
  | .record entry, .recorded (.ok slot) => (slot, entry) :: own
  | _, _ => own

abbrev recorders (allowed : Nat → Site → Memory Content → RecorderLog → Prop) :
    Actors (Memory Content) (RecorderCall × Site) RecorderLog RecorderCall
      (List (Nat × JournalRecord)) RecorderAnswer where
  program call := (call.program journal).label call
  enabled _ _ := True
  start own _ := own
  finish := receive
  track := RecorderLog.note journal
  allowed actor site := allowed actor site.2

abbrev RecorderRun (Content : Type) :=
  Config (Memory Content) (RecorderCall × Site) RecorderLog RecorderCall (List (Nat × JournalRecord)) RecorderAnswer

/-- Nobody has recorded anything yet. -/
def unrecorded (memory : Memory Content) : RecorderRun Content where
  state := blankJournal journal memory
  history := ⟨[], []⟩
  thread _ := .idle []

/-- A slot is written only while its bit is clear and no other thread is between its
write of the slot and its exchange. -/
def Unhurried (actor : Nat) (site : Site) (memory : Memory Content) (log : RecorderLog) : Prop :=
  match site with
  | .journalEntry slot => (memory.journals journal.segment).held slot = false ∧
      ∀ write ∈ log.writing, write.2 = slot → write.1 = actor
  | _ => True

/-- A slot holds what its owner recorded, from the grant to the release; slots are
granted to one owner at a time, and returned only to those they were granted to; and
a replay finds what the owners recorded. -/
structure Owned (config : RecorderRun Content) : Prop where
  holds : ∀ slot entry, owner slot config.history.events = some entry →
    (config.state.journals journal.segment).held slot = true ∧
      (config.state.journals journal.segment).entries slot = some entry
  once : GrantedOnce config.history.events
  returned : ∀ actor own, config.thread actor = .idle own → ∀ grant ∈ own,
    .granted actor grant.1 grant.2 ∈ config.history.events
  replayed : ∃ found, journal.replayIndexed.alone config.state = some (found, config.state) ∧
    ∀ slot entry, (slot, entry) ∈ found ↔ slot < journal.capacity ∧ owner slot config.history.events = some entry

end

section

variable (journal : BorrowJournal) (memory : Memory Content)

/-- What a replay finds under one bit. -/
def found (word : Nat) (bits : BitVec 64) (bit : Nat) : List (Nat × JournalRecord) :=
  if word * 64 + bit < journal.capacity ∧ bits.getLsbD bit then
    ((memory.journals journal.segment).entries (word * 64 + bit)).toList.map fun record => (word * 64 + bit, record)
  else []

theorem alone_replayBits (word : Nat) (bits : BitVec 64) (places : List Nat) :
    (journal.replayBits word bits places).alone memory =
      some (places.flatMap (found journal memory word bits), memory) := by
  induction places with
  | nil => rfl
  | cons bit rest ih =>
    rw [BorrowJournal.replayBits, List.flatMap_cons, found]
    split
    · rw [alone_bind]
      show (((journal.replayBits word bits rest) >>= _).alone memory) = _
      rw [alone_bind, ih]
      rfl
    · exact ih

theorem alone_replayWords (words : List Nat) :
    (journal.replayWords words).alone memory = some (words.flatMap fun word =>
      (List.range 64).flatMap (found journal memory word ((memory.journals journal.segment).bitmap word)), memory) := by
  induction words with
  | nil => rfl
  | cons word rest ih =>
    rw [BorrowJournal.replayWords, alone_bind]
    show ((journal.replayBits word _ (List.range 64) >>= _).alone memory) = _
    rw [alone_bind, alone_replayBits]
    show ((journal.replayWords rest >>= _).alone memory) = _
    rw [alone_bind, ih]
    rfl

variable {journal memory}

theorem mem_found (present : entry ∈ found journal memory word bits bit) :
    entry.1 = word * 64 + bit ∧ entry.1 < journal.capacity ∧ bits.getLsbD bit = true ∧
      (memory.journals journal.segment).entries entry.1 = some entry.2 := by
  unfold found at present
  split at present
  · rename_i read
    obtain ⟨record, recorded, rfl⟩ := List.mem_map.mp present
    exact ⟨rfl, read.1, read.2, Option.mem_toList.mp recorded⟩
  · cases present

variable (journal memory)

/-- A replay of one moment finds the entries of the occupied slots. -/
theorem alone_replayIndexed : ∃ found, journal.replayIndexed.alone memory = some (found, memory) ∧ ∀ slot entry,
    (slot, entry) ∈ found ↔ slot < journal.capacity ∧
      (memory.journals journal.segment).held slot = true ∧
      (memory.journals journal.segment).entries slot = some entry := by
  refine ⟨_, alone_replayWords journal memory _, fun slot entry => ?_⟩
  simp only [List.mem_flatMap, List.mem_range]
  constructor
  · rintro ⟨word, -, bit, narrow, present⟩
    obtain ⟨rfl, inside, set, recorded⟩ := mem_found present
    exact ⟨inside, by rw [held_place _ _ narrow, set], recorded⟩
  · rintro ⟨inside, set, recorded⟩
    have place : slot / 64 * 64 + slot % 64 = slot := by omega
    refine ⟨slot / 64, ?_, slot % 64, Nat.mod_lt _ (by decide), ?_⟩
    · unfold BorrowJournal.words
      omega
    · rw [found, place, if_pos ⟨inside, set⟩, recorded]
      exact List.mem_singleton_self _

end

/-- Where a thread's call of `record_entry` stands, and the slots it was given before. -/
structure RecorderPart where
  stage : Recording
  own : List (Nat × JournalRecord)

/-- The part of a call under way; the slot it has won is the thread's. -/
def recorderPart (own : List (Nat × JournalRecord)) : Recording → RecorderPart
  | .recorded slot entry => ⟨.searching, (slot, entry) :: own⟩
  | stage => ⟨stage, own⟩

section

variable {Content : Type} {journal : BorrowJournal} {log longer : RecorderLog} {memory after : Memory Content}
  {parts : Nat → RecorderPart} {actor slot : Nat} {later part : RecorderPart} {site : Site} {entry : JournalRecord}
  {own : List (Nat × JournalRecord)}

/-- A thread that has written a slot finds its entry there, and it has the slots it
was granted. -/
structure Fits (journal : BorrowJournal) (log : RecorderLog) (memory : Memory Content) (actor : Nat)
    (part : RecorderPart) : Prop where
  noted : ∀ slot entry, part.stage = .noted slot entry → (actor, slot) ∈ log.writing ∧
    (memory.journals journal.segment).entries slot = some entry
  granted : ∀ grant ∈ part.own, .granted actor grant.1 grant.2 ∈ log.events

/-- The bits and the entries are the owners'. -/
structure Attributed (journal : BorrowJournal) (log : RecorderLog) (memory : Memory Content)
    (parts : Nat → RecorderPart) : Prop where
  bits : ∀ slot, (memory.journals journal.segment).held slot = (owner slot log.events).isSome
  owned : ∀ slot entry, owner slot log.events = some entry →
    (memory.journals journal.segment).entries slot = some entry
  once : GrantedOnce log.events
  fits : ∀ actor, Fits journal log memory actor (parts actor)

theorem Fits.grow (fits : Fits journal log memory actor part)
    (writes : ∀ slot, (actor, slot) ∈ log.writing → (actor, slot) ∈ longer.writing ∧
      (after.journals journal.segment).entries slot = (memory.journals journal.segment).entries slot)
    (events : log.events ⊆ longer.events) : Fits journal longer after actor part := by
  refine ⟨fun slot entry noted => ?_, fun grant in_ => events (fits.granted grant in_)⟩
  obtain ⟨wrote, entries⟩ := fits.noted slot entry noted
  obtain ⟨writing, same⟩ := writes slot wrote
  exact ⟨writing, same.trans entries⟩

theorem fits_update (own : Fits journal longer after actor later)
    (others : ∀ other, other ≠ actor → Fits journal longer after other (parts other)) (other : Nat) :
    Fits journal longer after other (update parts actor later other) := by
  by_cases mine : other = actor
  · subst other
    rwa [update_self]
  · rw [update_of_ne mine]
    exact others other mine

theorem note_unlogged (plain : site.logged = false) : log.note journal actor (call, site) memory after = log := by
  cases site <;> first | rfl | cases plain

variable (valid : Attributed journal log memory parts)

include valid

theorem Attributed.aside (same : Unwritten journal memory after)
    (fits : ∀ other, Fits journal log after other (update parts actor later other)) :
    Attributed journal log after (update parts actor later) :=
  ⟨fun slot => (same.bits slot).trans (valid.bits slot),
    fun slot entry owns => (same.entries slot).trans (valid.owned slot entry owns), valid.once, fits⟩

/-- An access that changes neither bits nor entries. -/
theorem Attributed.still (same : Unwritten journal memory after) :
    Attributed journal log after (update parts actor (parts actor)) := by
  refine valid.aside same ?_
  rw [update_eq_self]
  exact fun other => (valid.fits other).grow (fun slot wrote => ⟨wrote, same.entries slot⟩) (List.Subset.refl _)

theorem Attributed.releases
    (clears : Rewritten journal memory after (fun other bit => bit && other ≠ slot) fun _ old => old) :
    Attributed journal { log with events := .released slot :: log.events } after parts where
  bits other := by
    rw [clears.bits, valid.bits, owner]
    by_cases same : slot = other
    · simp [same]
    · simp [same, Ne.symm same]
  owned other entry owns := by
    rw [clears.entries]
    rw [owner] at owns
    split at owns
    · cases owns
    · exact valid.owned other entry owns
  once := valid.once
  fits other := (valid.fits other).grow (fun slot wrote => ⟨wrote, clears.entries slot⟩) (List.subset_cons_self ..)

theorem Attributed.writes (has : parts actor = ⟨.chosen slot, own⟩)
    (unhurried : Unhurried journal actor (.journalEntry slot) memory log)
    (writes : Rewritten journal memory after (fun _ bit => bit) fun other old =>
        if other = slot then some entry else old) :
    Attributed journal { log with writing := (actor, slot) :: log.writing } after
      (update parts actor ⟨.noted slot entry, own⟩) := by
  obtain ⟨clear, single⟩ := unhurried
  have elsewhere {other : Nat} (ne : other ≠ slot) : (after.journals journal.segment).entries other =
      (memory.journals journal.segment).entries other := by
    rw [writes.entries, if_neg ne]
  refine ⟨fun other => (writes.bits other).trans (valid.bits other), fun other found owns => ?_, valid.once,
    fits_update ⟨fun place found noted => ?_, fun grant in_ => ?_⟩ fun other ne => ?_⟩
  · -- the slot itself has no owner, its bit being clear
    have ne : other ≠ slot := by
      rintro rfl
      rw [valid.bits, owns] at clear
      cases clear
    rw [elsewhere ne]
    exact valid.owned other found owns
  · cases noted
    exact ⟨List.mem_cons_self, by rw [writes.entries, if_pos rfl]⟩
  · have fits := valid.fits actor
    rw [has] at fits
    exact fits.granted grant in_
  · refine (valid.fits other).grow (fun place wrote => ⟨List.mem_cons_of_mem _ wrote, elsewhere ?_⟩)
      (List.Subset.refl _)
    rintro rfl
    exact ne (single (other, place) wrote rfl)

theorem Attributed.publishes (has : parts actor = ⟨.noted slot entry, own⟩)
    (clear : (memory.journals journal.segment).held slot = false)
    (sets : Rewritten journal memory after (fun other bit => bit || other = slot) fun _ old => old) :
    Attributed journal ⟨.granted actor slot entry :: log.events, log.writing.filter fun write => write.1 ≠ actor⟩ after
      (update parts actor ⟨.searching, (slot, entry) :: own⟩) := by
  have fits := valid.fits actor
  rw [has] at fits
  have free : owner slot log.events = none := by
    rw [valid.bits] at clear
    exact Option.isNone_iff_eq_none.mp (by simpa using clear)
  refine ⟨fun other => ?_, fun other found owns => ?_, ⟨free, valid.once⟩,
    fits_update ⟨fun place found noted => ?_, fun grant in_ => ?_⟩ fun other ne => ?_⟩
  · rw [sets.bits, valid.bits, owner]
    by_cases same : slot = other
    · simp [same]
    · simp [same, Ne.symm same]
  · rw [sets.entries]
    rw [owner] at owns
    split at owns
    · rename_i same
      cases owns
      rw [← same]
      exact (fits.noted slot entry rfl).2
    · exact valid.owned other found owns
  · cases noted
  · rcases List.mem_cons.mp in_ with rfl | older
    · exact List.mem_cons_self
    · exact List.mem_cons_of_mem _ (fits.granted grant older)
  · exact (valid.fits other).grow (fun place wrote => ⟨List.mem_filter.mpr ⟨wrote, by simpa using ne⟩,
      sets.entries place⟩) (List.subset_cons_self ..)

/-- A failed exchange gives the write up. -/
theorem Attributed.retries (has : parts actor = ⟨.noted slot entry, own⟩) :
    Attributed journal { log with writing := log.writing.filter fun write => write.1 ≠ actor } memory
      (update parts actor ⟨.searching, own⟩) := by
  have fits := valid.fits actor
  rw [has] at fits
  refine ⟨valid.bits, valid.owned, valid.once,
    fits_update ⟨fun _ _ noted => (by cases noted), fits.granted⟩ fun other ne => ?_⟩
  exact (valid.fits other).grow (fun place wrote => ⟨List.mem_filter.mpr ⟨wrote, by simpa using ne⟩, rfl⟩)
    (List.Subset.refl _)

theorem Attributed.records {stage next : Recording} (has : parts actor = recorderPart own stage)
    (unhurried : Unhurried journal actor site memory log)
        (turn : RecordTurn journal entry site stage next memory after) :
    Attributed journal (log.note journal actor (.record entry, site) memory after) after
      (update parts actor (recorderPart own next)) := by
  have fits := valid.fits actor
  rw [has] at fits
  cases turn with
  | aside plain same =>
    rw [note_unlogged plain, ← has]
    exact valid.still same
  | choose clear =>
    exact valid.aside (unwritten memory) (fits_update ⟨fun _ _ noted => (by cases noted), fits.granted⟩ fun other _ =>
      valid.fits other)
  | write writes => exact valid.writes has unhurried writes
  | @publish slot _ _ clear inside sets =>
    have won : (memory.journals journal.segment).held slot ≠ (after.journals journal.segment).held slot := by
      rw [sets.bits, clear]
      simp
    simp only [RecorderLog.note, if_neg won]
    exact valid.publishes has clear sets
  | retry =>
    simp only [RecorderLog.note, if_true]
    exact valid.retries has

omit valid

theorem attributed_unrecorded (journal : BorrowJournal) (memory : Memory Content) :
    Attributed journal ⟨[], []⟩ (unrecorded journal memory).state fun _ => ⟨.searching, []⟩ := by
  have blank : (unrecorded journal memory).state.journals journal.segment = ⟨fun _ => 0, fun _ => none, 0⟩ :=
    update_self _ _ _
  refine ⟨fun slot => ?_, fun slot entry owns => ?_, trivial, fun actor => ⟨fun slot entry noted => ?_, by simp⟩⟩
  · rw [blank]
    simp [Journal.held, owner]
  · cases owns
  · cases noted

/-- A call keeps the books, and ends with the slots its thread was given. -/
theorem attributed_call (actor : Nat) (own : List (Nat × JournalRecord)) (call : RecorderCall) :
    (recorders journal (Unhurried journal)).wp (@Attributed Content journal) actor
      ((recorders journal (Unhurried journal)).program call)
      (fun answer part => part = ⟨.searching, receive own call answer⟩) ⟨.searching, own⟩ := by
  refine wp_label ?_
  cases call with
  | record entry =>
    simp only [RecorderCall.program, map_eq_pure_bind]
    refine wp_then (wp_of_follows (recorderPart own) (fun _ => True)
      (fun site stage next log memory after parts valid has may turn _ => ⟨valid.records has may turn, trivial⟩)
      (follows_record entry) trivial) ?_
    rintro (reason | slot) _ ⟨stage, rfl, -, ends⟩
    · rw [ends]
      rfl
    · rw [ends.2]
      rfl
  | release slot =>
    simp only [RecorderCall.program, map_eq_pure_bind]
    unfold BorrowJournal.release
    split
    · exact rfl
    · intro log memory parts valid has _
      refine ⟨parts actor, ?_, fun log memory parts valid has' _ =>
        ⟨parts actor, valid.still (unwritten_hint _ memory), ?_⟩⟩
      · rw [update_eq_self]
        exact valid.releases (rewritten_clear slot memory)
      · rw [has', has]
        rfl

/-- Every interleaving in which no two threads are at one slot at once. -/
theorem owned_of_reachable (journal : BorrowJournal) (memory : Memory Content) {config : RecorderRun Content}
    (reached : (recorders journal (Unhurried journal)).Reachable (unrecorded journal memory) config) :
    Owned journal config := by
  have start : (recorders journal (Unhurried journal)).Safe (Attributed journal) (⟨.searching, ·⟩)
      (unrecorded journal memory) := ⟨_, attributed_unrecorded journal memory, fun _ => rfl⟩
  obtain ⟨parts, valid, threads⟩ :=
    safe_of_reachable (fun actor own call _ => attributed_call actor own call) start reached
  refine ⟨fun slot entry owns => ⟨by rw [valid.bits, owns]; rfl, valid.owned slot entry owns⟩, valid.once,
    fun actor own idle grant member => ?_, ?_⟩
  · have thread := threads actor
    rw [idle] at thread
    have fits := valid.fits actor
    rw [thread] at fits
    exact fits.granted grant member
  · obtain ⟨found, replay, finds⟩ := alone_replayIndexed journal config.state
    refine ⟨found, replay, fun slot entry => ?_⟩
    rw [finds, valid.bits]
    constructor
    · rintro ⟨inside, owned, recorded⟩
      obtain ⟨other, owns⟩ := Option.isSome_iff_exists.mp owned
      rw [valid.owned slot other owns] at recorded
      exact ⟨inside, owns.trans recorded⟩
    · rintro ⟨inside, owns⟩
      exact ⟨inside, by rw [owns]; rfl, valid.owned slot entry owns⟩

end

section

variable {Content : Type} {journal : BorrowJournal} {allowed : Nat → Site → Memory Content → RecorderLog → Prop}

instance (actor : Nat) (site : Site) (memory : Memory Content) (log : RecorderLog) :
    Decidable (Unhurried journal actor site memory log) := by
  unfold Unhurried
  split <;> infer_instance

def blankNotebook : RecorderRun Nat := unrecorded notebook (opening Nat small).state

/-- Both threads find the first slot free and write it; then the first wins the bit. -/
def crossing : List (Stretch RecorderCall) :=
  [.begin 0 (.record (pinOn 0)), .run 0 4 1, .begin 1 (.record (pinOn 1)), .run 1 4 1, .run 0 20 1]

def crossedRecords : RecorderRun Nat := (recorders notebook fun _ _ _ _ => True).follow crossing blankNotebook

/-- The first thread has the slot, and the second's entry is in it. -/
theorem crossed_not_owned :
    (recorders notebook fun _ _ _ _ => True).Reachable blankNotebook crossedRecords ∧
      ¬ Owned notebook crossedRecords := by
  refine ⟨reachable_follow _ .refl, fun owned => ?_⟩
  have wrong := (owned.holds 0 (pinOn 0) (by decide +kernel)).2
  revert wrong
  decide +kernel

/-- The second thread records where the first has released. -/
def recordingInTurn : List (Stretch RecorderCall) :=
  [.begin 0 (.record (pinOn 0)), .run 0 20 1, .begin 0 (.release 0), .run 0 20 1,
    .begin 1 (.record (pinOn 1)), .run 1 20 1]

def succeededRecords : RecorderRun Nat := (recorders notebook (Unhurried notebook)).follow recordingInTurn blankNotebook

theorem succeeded_owned :
    succeededRecords.history.events = [.granted 1 0 (pinOn 1), .released 0, .granted 0 0 (pinOn 0)] ∧
      Owned notebook succeededRecords :=
  ⟨by decide +kernel, owned_of_reachable notebook _ (reachable_follow recordingInTurn .refl)⟩

end

end ShmActors.Artifact
