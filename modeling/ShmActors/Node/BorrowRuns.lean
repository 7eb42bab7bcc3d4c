import ShmActors.Node.BorrowMoves

/-! Every recorded borrow is released once, by its actor or by a replay, as long as a
slot is not recorded into again before both have come to its earlier record. -/

namespace ShmActors.Node.Borrowing

open Lib Core Artifact Program Function Actors

variable {Content : Type} {scene : Scene Content} {call : BorrowCall} {who slot : Nat} {part : Part}
  {log : BorrowLog} {memory after : Memory Content} {parts : Nat → Part} {site : Site}
  {stage : Stage} {record : JournalRecord}

section

/-- The borrower lets go of a reference it has not recorded, without giving it back. -/
theorem Accounted.lose (ok : Accounted scene log memory parts) (has : parts who = part)
    (taken : part.stage = .taken record .searching) : Accounted scene log memory
        (update parts who ⟨.nothing, part.due⟩) := by
  subst has
  exact ok.step none none (kept_of_same rfl rfl) (.refl _) ((ok.posts who).rest rfl (by simp))
    (fun other _ => ok.posts other)
    (fun _ => by rw [taken]; rfl) ok.right (fun counter => by simp [Stage.held]) (by simp [Stage.held])

/-- A call of `record_entry` that the borrower makes with a reference in hand. -/
def recordingPart (record : JournalRecord) (due : Nat → Option JournalRecord) : Recording → Part
  | .recorded slot _ => ⟨.nothing, update due slot (some record)⟩
  | recording => ⟨.taken record recording, due⟩

theorem Accounted.records {due : Nat → Option JournalRecord} {recording later : Recording}
    (ok : Accounted scene log memory parts) (has : parts 0 = recordingPart record due recording)
    (takes : call.releases = false) (may : NoReuse site log)
    (turn : RecordTurn scene.journal record site recording later memory after)
    (fresh : ∀ slot entry, recording = .recorded slot entry → due slot = none) :
    Accounted scene (log.note scene.journal 0 (call, site) memory after) after
        (update parts 0 (recordingPart record due later)) ∧
      ∀ slot entry, later = .recorded slot entry → due slot = none := by
  have sane : Sane scene (recordingPart record due recording).stage memory := has ▸ ok.sane
  have post := ok.posts 0
  rw [has] at post
  -- the borrower goes on with its search: what stands in the journal stays
  have goes {one two : Recording} {after : Memory Content} (has : parts 0 = ⟨.taken record one, due⟩)
      (kept : Kept scene memory after) (bits : ∀ slot, (scene.shelf after).held slot = (scene.shelf memory).held slot)
      (entries : ∀ slot, (scene.shelf memory).held slot = true →
        (scene.shelf after).entries slot = (scene.shelf memory).entries slot)
      (ready : Ready (scene.shelf after) two) : Accounted scene log after
          (update parts 0 ⟨.taken record two, due⟩) := by
    have known (who : Nat) : Lasts scene log log memory after who := fun slot named =>
      ⟨named, fun set => ⟨bits slot ▸ set, entries slot (bits slot ▸ set)⟩⟩
    have post := ok.posts 0
    rw [has] at post
    refine ok.quiet kept ?_ ⟨fun wrong => absurd rfl wrong, fun _ => rfl, by simp, by simp,
      post.reads_of (known 0), ready⟩
      (fun other ne => (ok.posts other).keep rfl kept (known other) ((ok.posts other).ready_other ne _))
          (by rw [has]; rfl)
      (by rw [has]; rfl) rfl rfl
    rw [standing, entryAt_congr bits entries]
    rfl
  cases turn with
  | aside plain same =>
    exact ⟨ok.moves has plain (fun slot => ⟨same.bits slot, same.entries slot⟩)
      (.rest (kept_of_same (by rw [same.heap]) same.head) (.inl rfl) (by rw [same.heap]; exact sane.freed)), fresh⟩
  | choose clear =>
    rw [note_plain rfl, takes]
    exact ⟨goes has (kept_of_same rfl rfl) (fun _ => rfl) (fun _ _ => rfl) clear, by simp⟩
  | @write _ _ slot writes =>
    have clear : (scene.shelf memory).held slot = false := post.ready
    have same : log.note scene.journal 0 (call, .journalEntry slot) memory after = log := by
      simp [BorrowLog.note, takes]
    rw [same]
    refine ⟨goes has (kept_of_same (by rw [writes.heap]) writes.head) writes.bits
      (fun other set => ?_) ⟨?_, ?_⟩, by simp⟩
    · rw [writes.entries, if_neg]
      rintro rfl
      cases clear.symm.trans set
    · rw [writes.bits, clear]
    · rw [writes.entries, if_pos rfl]
  | retry =>
    have same (slot : Nat) : log.note scene.journal 0 (call, .journalRecord slot) memory memory = log := by
      simp [BorrowLog.note, takes]
    rw [same]
    exact ⟨goes has (kept_of_same rfl rfl) (fun _ => rfl) (fun _ _ => rfl) trivial, by simp⟩
  | @publish slot _ _ clear inside sets =>
    have entry : (scene.shelf memory).entries slot = some record := post.ready.2
    have issues : log.note scene.journal 0 (call, .journalRecord slot) memory after =
        { log with issued := record :: log.issued, due := (0, slot) :: log.due } := by
      simp [BorrowLog.note, takes, sets.bits, clear, entry]
    have free : due slot = none := by
      cases known : due slot with
      | none => rfl
      | some entry => exact absurd rfl (may _ (post.reads slot entry known).1)
    have kept : Kept scene memory after := kept_of_same (by rw [sets.heap]) sets.head
    have stays {other : Nat} (ne : other ≠ slot) (set : (scene.shelf after).held other = true) :
        (scene.shelf memory).held other = true := by simpa [sets.bits, ne] using set
    have shelf := perm_filterMap List.nodup_range (.inl (List.mem_range.mpr inside)) fun other ne =>
      show entryAt (scene.shelf after) other = entryAt (scene.shelf memory) other by
        simp [entryAt, sets.bits, sets.entries, ne]
    have made : entryAt (scene.shelf memory) slot = none ∧ entryAt (scene.shelf after) slot = some record := by
      simp [entryAt, sets.bits, sets.entries, clear, entry]
    rw [issues]
    have own : (parts 0).stage = .taken record (.noted slot record) := by rw [has]; rfl
    rw [made.1, made.2] at shelf
    refine ⟨?_, fun other _ same => by cases same; exact free⟩
    show Accounted scene _ after (update parts 0 ⟨.nothing, update due slot (some record)⟩)
    refine ok.step none (some record) kept shelf ⟨fun _ => rfl, fun _ => rfl, by simp, by simp,
      fun other entry known => ?_,
      trivial⟩ (fun other ne => (ok.posts other).keep rfl kept (fun place named => ⟨List.mem_cons_of_mem _ named,
        fun set => ⟨stays (may _ named) set, sets.entries place⟩⟩)
          ((ok.posts other).ready_other ne _)) (fun other => ?_)
      ok.right (fun other => by simp [own, Stage.held]) fun entry among =>
        .inl (ok.fits entry (ok.mem_out (?_ : (parts 0).stage.held = _)))
    · rcases update_some_eq_some.mp known with ⟨rfl, rfl⟩ | ⟨ne, older⟩
      · exact ⟨List.mem_cons_self, fun _ => (sets.entries other).trans ‹_›⟩
      · obtain ⟨named, reads⟩ := post.reads other entry older
        exact ⟨List.mem_cons_of_mem _ named, fun set => by rw [sets.entries, reads (stays ne set)]⟩
    · simp [own, Stage.cleared, List.count_cons, Nat.add_assoc]
    · rw [own]
      simpa [Stage.held, eq_comm] using among

theorem does_record (taken : part.stage = .taken record .searching) (takes : call.releases = false) :
    Does scene call 0 (scene.journal.record record) (fun outcome later => match outcome with
      | .ok slot => slot < scene.journal.capacity ∧ part.due slot = none ∧
          later = ⟨.nothing, update part.due slot (some record)⟩
      | .error _ => later = part) part := by
  have begun : part = recordingPart record part.due .searching := by
    show part = ⟨.taken record .searching, part.due⟩
    rw [← taken]
  rw [begun]
  refine wp_mono (wp_of_follows (recordingPart record part.due)
    (fun recording => ∀ slot entry, recording = .recorded slot entry → part.due slot = none)
    (fun site recording later log memory after parts ok has may turn fresh => ok.records has takes may.1 turn fresh)
    (follows_record record) fun _ _ wrong => by cases wrong) ?_
  rintro (reason | slot) _ ⟨later, rfl, fresh, ends⟩
  · rw [ends]
  · obtain ⟨inside, rfl⟩ := ends
    exact ⟨inside, fresh slot record rfl, rfl⟩

theorem Accounted.stands (ok : Accounted scene log memory parts) (inside : slot < scene.journal.capacity)
    (there : entryAt (scene.shelf memory) slot = some record) : Fit scene memory record :=
  ok.fits record (List.mem_append_left _ (List.mem_append_left _
    (List.mem_filterMap.mpr ⟨slot, List.mem_range.mpr inside, there⟩)))

/-- A party comes to a slot and clears its bit: if it was set, what it takes to be
recorded there is, and it is to release it. -/
theorem Accounted.clears (ok : Accounted scene log memory parts) (has : parts who = part) (idle : part.stage = .nothing)
    (crew : who ≤ scene.coordinators) (inside : slot < scene.journal.capacity) (releases : call.releases = true)
    (known : part.due slot = some record)
    (clears : Rewritten scene.journal memory after (fun other bit => bit && other ≠ slot) fun _ old => old) :
    Accounted scene (log.note scene.journal who (call, .journalRelease slot) memory after) after (update parts who
      ⟨if (scene.shelf memory).held slot then .won record else .nothing, update part.due slot none⟩) := by
  subst has
  have kept : Kept scene memory after := kept_of_same (by rw [clears.heap]) clears.head
  have notes : log.note scene.journal who (call, .journalRelease slot) memory after = { log with
      due := log.due.filter (· ≠ (who, slot))
      won := update log.won who (entryAt (scene.shelf memory) slot) } := by
    simp [BorrowLog.note, releases]
  have stays {other : Nat} (set : (scene.shelf after).held other = true) : (scene.shelf memory).held other = true := by
    simp [clears.bits] at set
    exact set.1
  have shelf := perm_filterMap List.nodup_range (.inl (List.mem_range.mpr inside)) fun other ne =>
    show entryAt (scene.shelf after) other = entryAt (scene.shelf memory) other by
      simp [entryAt, clears.bits, clears.entries, ne]
  have gone : entryAt (scene.shelf after) slot = none := by simp [entryAt, clears.bits]
  rw [gone] at shelf
  have wins : ∃ stage : Stage, stage = (if (scene.shelf memory).held slot then .won record else .nothing) ∧
      stage.recording = .searching ∧
      stage.inHand = [] ∧ stage.cleared = entryAt (scene.shelf memory) slot ∧
        stage.held = entryAt (scene.shelf memory) slot ∧
      ∀ chunk, stage ≠ .freed chunk := by
    refine ⟨_, rfl, ?_⟩
    have there := ((ok.posts who).reads slot record known).2
    unfold entryAt
    split
    · rename_i set
      rw [there set]
      exact ⟨rfl, rfl, rfl, rfl, by simp⟩
    · exact ⟨rfl, rfl, rfl, rfl, by simp⟩
  obtain ⟨stage, is, searching, hand, cleared, held, fresh⟩ := wins
  rw [notes, ← is]
  refine ok.step _ none kept shelf ⟨fun _ => hand, fun beyond => absurd beyond (by omega), fun entry wins => ?_,
    fun chunk freed => absurd freed (fresh chunk), fun other entry later => ?_, searching ▸ trivial⟩ (fun other ne =>
      (ok.posts other).keep (update_of_ne ne ..) kept (fun place named => ⟨List.mem_filter.mpr ⟨named, by simp [ne]⟩,
        fun set => ⟨stays set, clears.entries place⟩⟩) ((ok.posts other).ready.keep
          (fun place clear => by rw [clears.bits, clear, Bool.false_and]) clears.entries))
    (fun other => by rw [idle, cleared]; simp [Stage.cleared]) ok.right (fun other => by simp [held])
    fun entry among => .inl (ok.stands inside (held ▸ Option.mem_toList.mp among))
  · exact (update_self ..).trans (by rw [← cleared, show stage = .won entry from wins]; rfl)
  · obtain ⟨ne, older⟩ := update_none_eq_some.mp later
    obtain ⟨named, reads⟩ := (ok.posts who).reads other entry older
    exact ⟨List.mem_filter.mpr ⟨named, by simp [ne]⟩, fun set => (clears.entries other).trans (reads (stays set))⟩

theorem does_release (idle : part.stage = .nothing) (crew : who ≤ scene.coordinators) (releases : call.releases = true)
    (inside : slot < scene.journal.capacity) (known : part.due slot = some record) :
    Does scene call who (scene.journal.release slot) (fun outcome later => ∃ won, outcome = .ok won ∧
      later = ⟨if won then .won record else .nothing, update part.due slot none⟩ ∧
      (won = true → ∃ memory, Fit scene memory record)) part := by
  unfold BorrowJournal.release
  rw [if_neg (by omega)]
  refine wp_bind fun log memory parts ok has _ =>
    ⟨_, ok.clears has idle crew inside releases known (rewritten_clear slot memory), ?_⟩
  have fit : (scene.shelf memory).held slot = true → ∃ memory, Fit scene memory record := fun set => by
    refine ⟨memory, ok.stands inside ?_⟩
    rw [entryAt, if_pos set, ((ok.posts who).reads slot record (by rwa [has])).2 set]
  refine wp_bind (does_act rfl (fun memory slot' => ⟨(unwritten_hint _ memory).bits slot',
    (unwritten_hint _ memory).entries slot'⟩)
    fun memory sane _ => ⟨_, .rest (kept_of_same rfl rfl) (.inl rfl) sane.freed, ?_⟩)
  exact ⟨_, rfl, rfl, fit⟩

/-- What a replay knows once it has read the slots of a range: the entries it returns. -/
structure Collected (scene : Scene Content) (lo hi : Nat) (old new : Nat → Option JournalRecord)
    (entries : List (Nat × JournalRecord)) : Prop where
  rising : entries.Pairwise fun one two => one.1 < two.1
  bounds : ∀ entry ∈ entries, lo ≤ entry.1 ∧ entry.1 < hi
  known : ∀ entry ∈ entries, entry.1 < scene.journal.capacity ∧ new entry.1 = some entry.2
  same : ∀ slot, slot < lo ∨ hi ≤ slot → new slot = old slot

theorem Collected.append {lo mid hi : Nat} {old middle new : Nat → Option JournalRecord}
    {first later : List (Nat × JournalRecord)} (read : Collected scene lo mid old middle first)
    (rest : Collected scene mid hi middle new later) (up : lo ≤ mid ∧ mid ≤ hi) :
    Collected scene lo hi old new (first ++ later) := by
  refine ⟨List.pairwise_append.mpr ⟨read.rising, rest.rising, fun one among two in_ => ?_⟩,
    List.forall_mem_append.mpr ⟨fun entry among => ?_, fun entry among => ?_⟩,
    List.forall_mem_append.mpr ⟨fun entry among => ?_, rest.known⟩, fun slot outside => ?_⟩
  · exact (read.bounds one among).2.trans_le (rest.bounds two in_).1
  · exact (read.bounds entry among).imp_right (·.trans_le up.2)
  · exact (rest.bounds entry among).imp_left up.1.trans
  · have before := (read.bounds entry among).2
    exact (read.known entry among).imp_right (rest.same _ (.inl before)).trans
  · rw [rest.same slot (by omega), read.same slot (by omega)]

theorem does_replayEntry (idle : part.stage = .nothing) (releases : call.releases = true)
    (inside : slot < scene.journal.capacity) :
    Does scene call who (load (.journalEntry slot) (journalEntry scene.journal.segment slot)) (fun entry later =>
      later.stage = .nothing ∧ Collected scene slot (slot + 1) part.due later.due
        (entry.toList.map (slot, ·))) part := by
  intro log memory parts ok has _
  subst has
  have notes : log.note scene.journal who (call, .journalEntry slot) memory memory =
      { log with due := (who, slot) :: log.due } := by
    simp [BorrowLog.note, releases]
  have kept : Kept scene memory memory := kept_of_same rfl rfl
  have lasts (other : Nat) : Lasts scene log { log with due := (who, slot) :: log.due } memory memory other :=
    fun _ named => ⟨List.mem_cons_of_mem _ named, fun set => ⟨set, rfl⟩⟩
  refine ⟨⟨.nothing, ((scene.shelf memory).entries slot).elim (parts who).due fun record =>
    update (parts who).due slot (some record)⟩, ?_, rfl, ?_⟩
  · show Accounted scene (log.note scene.journal who (call, .journalEntry slot) memory memory) memory _
    rw [notes]
    refine ok.quiet kept rfl ⟨fun _ => rfl, fun _ => rfl, by simp, by simp, fun other record known => ?_, trivial⟩
      (fun other _ => (ok.posts other).keep rfl kept (lasts other) (ok.posts other).ready) (by rw [idle])
          (by rw [idle]) rfl rfl
    have older := (ok.posts who).reads_of (lasts who) other record
    cases read : (scene.shelf memory).entries slot with
    | none => exact older (by simpa [read] using known)
    | some entry =>
      rw [read] at known
      rcases update_some_eq_some.mp known with ⟨rfl, rfl⟩ | ⟨-, known⟩
      · exact ⟨List.mem_cons_self, fun _ => read⟩
      · exact older known
  · show Collected scene slot (slot + 1) _ _ (((scene.shelf memory).entries slot).toList.map (slot, ·))
    cases (scene.shelf memory).entries slot with
    | none => exact ⟨.nil, by simp, by simp, fun _ _ => rfl⟩
    | some entry =>
      exact ⟨List.pairwise_singleton .., by simp, by simpa using inside, fun other outside =>
        update_of_ne (by omega) ..⟩

theorem does_replayBits (idle : part.stage = .nothing) (releases : call.releases = true) (word : Nat) (set : BitVec 64)
    (start len : Nat) : Does scene call who (scene.journal.replayBits word set (List.range' start len))
      (fun entries later => later.stage = .nothing ∧
        Collected scene (word * 64 + start) (word * 64 + start + len) part.due later.due entries) part := by
  induction len generalizing start part with
  | zero => exact ⟨idle, .nil, by simp, by simp, fun _ _ => rfl⟩
  | succ len ih =>
    rw [List.range'_succ, show word * 64 + start + (len + 1) = word * 64 + (start + 1) + len by omega]
    unfold BorrowJournal.replayBits
    split
    · rename_i inside
      refine wp_then (does_replayEntry idle releases inside.1) ?_
      rintro entry later ⟨idle, read⟩
      refine wp_then (ih idle (start + 1)) ?_
      rintro entries last ⟨idle, known⟩
      exact ⟨idle, read.append known (by omega)⟩
    · refine wp_mono (ih idle (start + 1)) ?_
      rintro entries last ⟨idle, known⟩
      refine ⟨idle, ?_⟩
      have skipped : Collected scene (word * 64 + start) (word * 64 + (start + 1)) part.due part.due [] :=
        ⟨.nil, by simp, by simp, fun _ _ => rfl⟩
      exact skipped.append known (by omega)

theorem does_replayWords (idle : part.stage = .nothing) (releases : call.releases = true) (start len : Nat) :
    Does scene call who (scene.journal.replayWords (List.range' start len)) (fun entries later =>
      later.stage = .nothing ∧ Collected scene (start * 64) ((start + len) * 64) part.due later.due entries) part := by
  induction len generalizing start part with
  | zero => exact ⟨idle, .nil, by simp, by simp, fun _ _ => rfl⟩
  | succ len ih =>
    rw [List.range'_succ]
    refine wp_bind (does_load rfl fun memory _ => ?_)
    rw [List.range_eq_range']
    refine wp_then (does_replayBits idle releases start _ 0 64) ?_
    rintro entries later ⟨idle, read⟩
    refine wp_then (ih idle (start + 1)) ?_
    rintro more last ⟨idle, known⟩
    refine ⟨idle, ?_⟩
    rw [show start * 64 + 0 + 64 = (start + 1) * 64 by omega] at read
    rw [show (start + (len + 1)) * 64 = (start + 1 + len) * 64 by omega]
    exact read.append known (by omega)

end

section

variable {version : Nat}

theorem does_pinAt (idle : part.stage = .nothing) (now : version = scene.start.head.current)
    (found : tracked scene.start.head version = some slot) :
    Does scene .pinVersion 0 (pinAt scene.artifact (some scene.journal) version slot) (fun outcome later =>
      match outcome with
      | some (.ok pin) => ∃ entry, pin.version = version ∧ pin.slotIdx = slot ∧
        pin.journal = some (scene.journal, entry) ∧
          entry < scene.journal.capacity ∧ part.due entry = none ∧ later = ⟨.nothing, update part.due entry
            (some (scene.pinOn version))⟩
      | _ => later = part) part := by
  have named : scene.resource (scene.pinOn version) = some (.pins slot) := by
    simp [Scene.resource, found]
  have back : (⟨.nothing, part.due⟩ : Part) = part := by rw [← idle]
  refine wp_bind (wp_bind (does_act rfl (fun _ _ => ⟨rfl, rfl⟩) fun memory sane may => ?_))
  have small : (memory.head.pins slot).pins + 1 < 2 ^ 32 := may
  have more : ((slotPins slot).get memory + 1) % 2 ^ 32 = (memory.head.pins slot).pins + 1 := Nat.mod_eq_of_lt small
  refine ⟨_, .take idle ⟨rfl, rfl⟩ (effect_pins (more.trans_lt small) (by simp)
    (by rw [if_pos rfl, if_neg (by simp)]; exact more.ge)) named ⟨rfl, rfl, now, by rw [found]; rfl⟩, ?_⟩
  have gives : Gives .pinVersion (.taken (scene.pinOn version) .searching)
      (scene.pinOn version) := .inr ⟨⟨_, rfl⟩, rfl⟩
  have undo : Does scene .pinVersion 0 (retryPin scene.artifact slot) (fun outcome later =>
      outcome = none ∧ later = part)
      ⟨.taken (scene.pinOn version) .searching, part.due⟩ :=
    wp_then (does_undoPin gives found) fun _ _ same => ⟨rfl, same.trans back⟩
  refine wp_then (does_acceptPin slot version) ?_
  rintro _ _ ⟨rfl, rfl⟩
  simp only [tracked_spec found, and_self, decide_true]
  refine wp_bind (wp_bind (does_load rfl fun memory sane => ?_))
  have occupant : incarnation.get memory = scene.artifact.incarnation := sane.steady.incarnation
  simp only [occupant, decide_true]
  refine wp_bind (does_load rfl fun memory _ => wp_bind (does_load rfl fun memory _ => ?_))
  split
  · refine wp_mono undo ?_
    rintro _ _ ⟨rfl, same⟩
    exact same
  refine wp_then (does_readManifestChecked ..) ?_
  rintro (reason | manifest) _ rfl
  · refine wp_mono undo ?_
    rintro _ _ ⟨rfl, same⟩
    exact same
  refine wp_then (does_record rfl rfl) ?_
  rintro (reason | entry) later ends
  · subst ends
    exact wp_then (does_undoPin gives found) fun _ _ same => same.trans back
  · exact ⟨entry, rfl, rfl, rfl, ends⟩

theorem does_reclaimRecord (won : part.stage = .won record) (releases : call.releases = true)
    (fit : ∃ memory, Fit scene memory record) :
    Does scene call who (reclaimRecord scene.artifact scene.actorId record) (fun _ later =>
      later = ⟨.nothing, part.due⟩)
      part := by
  obtain ⟨memory, fit⟩ := fit
  cases record with
  | chunkPin desc =>
    obtain ⟨segment, chunk, located, -⟩ := fit
    rw [reclaimRecord, if_pos segment]
    exact does_reclaimOne won releases located
  | artifactPin artifactId number version =>
    obtain ⟨rfl, rfl, -, found⟩ := fit
    rw [reclaimRecord, attachRecorded, if_neg (by simp)]
    refine wp_bind (wp_bind (does_load rfl fun memory sane => ?_))
    have serves : Artifact.incarnation.get memory = scene.artifact.incarnation := sane.steady.incarnation
    simp only [serves, scene.commissioned, ne_eq, not_false_eq_true, and_self, decide_true]
    exact wp_then (does_releaseLeakedPin won releases found) fun _ _ same => same
  | writeLease | stagedManifest => cases fit

/-- The loop of a replay over the records it has read. -/
theorem does_replayEach {entries : List (Nat × JournalRecord)} (idle : part.stage = .nothing)
    (crew : who ≤ scene.coordinators) (releases : call.releases = true)
    (rising : entries.Pairwise fun one two => one.1 < two.1)
    (known : ∀ entry ∈ entries, entry.1 < scene.journal.capacity ∧ part.due entry.1 = some entry.2) :
    Does scene call who (replayEach scene.journal (reclaimRecord scene.artifact scene.actorId) entries)
      (fun _ later => later.stage = .nothing) part := by
  induction entries generalizing part with
  | nil => exact idle
  | cons entry rest ih =>
    obtain ⟨above, rising⟩ := List.pairwise_cons.mp rising
    obtain ⟨inside, own⟩ := known entry List.mem_cons_self
    have later {other : Nat × JournalRecord} (among : other ∈ rest) :
        other.1 < scene.journal.capacity ∧ update part.due entry.1 none other.1 = some other.2 := by
      obtain ⟨below, knows⟩ := known other (List.mem_cons_of_mem _ among)
      exact ⟨below, by rw [update_of_ne (above other among).ne', knows]⟩
    refine wp_then (does_release idle crew releases inside own) ?_
    rintro _ _ ⟨won, rfl, rfl, fit⟩
    cases won with
    | false => exact ih rfl rising fun other => later
    | true =>
      refine wp_then (does_reclaimRecord rfl releases (fit rfl)) ?_
      rintro freed _ rfl
      exact wp_then (ih rfl rising fun other => later) fun _ _ same => same

end

section

def Borrow.entry (artifact : Handle) (borrow : Borrow) : JournalRecord :=
  match borrow.grip with
  | .chunk desc => .chunkPin desc
  | .version pin => .artifactPin artifact.nameId artifact.incarnation pin.version

/-- What the borrower knows of a borrow it has. -/
def Held (scene : Scene Content) (due : Nat → Option JournalRecord) (borrow : Borrow) : Prop :=
  borrow.slot < scene.journal.capacity ∧ due borrow.slot = some (borrow.entry scene.artifact) ∧
    ∀ pin, borrow.grip = .version pin →
      pin.journal = some (scene.journal, borrow.slot) ∧ tracked scene.start.head pin.version = some pin.slotIdx

/-- At rest a party is to release nothing; the borrower may have lost a reference. -/
def Resting (stage : Stage) : Prop := stage = .nothing ∨ ∃ record, stage = .taken record .searching

def AtRest (scene : Scene Content) (who : Nat) : Party → Part → Prop
  | .borrower held, part => who = 0 ∧ Resting part.stage ∧ (held.map Borrow.slot).Nodup ∧
      ∀ borrow ∈ held, Held scene part.due borrow
  | .coordinator, part => who ≤ scene.coordinators ∧ part.stage = .nothing
  | .absent, part => part.stage = .nothing

/-- What a call that takes a borrow leads to. -/
def Taken (scene : Scene Content) (part : Part) (answer : Option Borrow) (later : Part) : Prop :=
  Resting later.stage ∧ (∀ slot record, part.due slot = some record → later.due slot = some record) ∧
    ∀ borrow ∈ answer, part.due borrow.slot = none ∧ Held scene later.due borrow

theorem update_keeps {due : Nat → Option JournalRecord} {new : Option JournalRecord} (fresh : due slot = none) :
    ∀ other record, due other = some record → update due slot new other = some record := by
  intro other record known
  rw [update_of_ne, known]
  rintro rfl
  cases fresh.symm.trans known

theorem Taken.failed (rests : Resting stage) {due : Nat → Option JournalRecord}
    (keeps : ∀ slot record, part.due slot = some record →
        due slot = some record) : Taken scene part none ⟨stage, due⟩ :=
  ⟨rests, keeps, by simp⟩

theorem Taken.made {borrow : Borrow} (fresh : part.due borrow.slot = none)
    (inside : borrow.slot < scene.journal.capacity)
    (own : ∀ pin, borrow.grip = .version pin →
      pin.journal = some (scene.journal, borrow.slot) ∧ tracked scene.start.head pin.version = some pin.slotIdx) :
    Taken scene part (some borrow) ⟨.nothing, update part.due borrow.slot (some (borrow.entry scene.artifact))⟩ := by
  refine ⟨.inl rfl, update_keeps fresh, ?_⟩
  rintro _ ⟨⟩
  exact ⟨fresh, inside, update_self .., own⟩

theorem does_pinChunk (idle : part.stage = .nothing) (desc : ChunkDesc) :
    Does scene (.pinChunk desc) 0 (scene.serve (.pinChunk desc)) (Taken scene part) part := by
  have failed : Taken scene part none part := .failed (.inl idle) fun _ _ => id
  rw [Scene.serve, map_eq_pure_bind]
  refine wp_bind ?_
  unfold pinAndRead
  split
  · exact failed
  rename_i chunk located
  refine wp_then (does_borrowShared idle located) ?_
  rintro (reason | _) _ rfl
  · exact failed
  refine wp_bind fun choice => ?_
  show Does scene _ 0 (if !decide (choice ≠ 0) then _ else _) _ _
  cases decide (choice ≠ 0) with
  | false => exact Taken.failed (.inr ⟨_, rfl⟩) fun _ _ => id
  | true =>
  refine wp_then (does_record rfl rfl) ?_
  rintro (reason | slot) later ends
  · subst ends
    refine wp_then (does_releaseShared (.inr ⟨⟨_, rfl⟩, rfl⟩) located) ?_
    rintro _ _ rfl
    exact Taken.failed (.inl rfl) fun _ _ => id
  obtain ⟨inside, fresh, rfl⟩ := ends
  have lost : Taken scene part none ⟨.nothing, update part.due slot (some (.chunkPin desc))⟩ :=
    .failed (.inl rfl) (update_keeps fresh)
  refine wp_bind (does_load rfl fun memory _ => wp_bind (does_load rfl fun memory _ => ?_))
  split
  · exact lost
  refine wp_bind fun choice => ?_
  show Does scene _ 0 (if decide (choice ≠ 0) then _ else _) _ _
  have made : Taken scene part (some ⟨slot, .chunk desc⟩) _ := .made fresh inside (by simp)
  cases decide (choice ≠ 0) with
  | false => exact lost
  | true => exact made

theorem does_pinVersion (idle : part.stage = .nothing) :
    Does scene .pinVersion 0 (scene.serve .pinVersion) (Taken scene part) part := by
  have failed : Taken scene part none part := .failed (.inl idle) fun _ _ => id
  rw [Scene.serve, map_eq_pure_bind]
  refine wp_bind (wp_repeatLoop (wp_bind (does_load rfl fun memory sane => ?_)))
  have now : current.get memory = scene.start.head.current := sane.steady.current
  split
  · exact failed
  refine wp_then (does_findSlot _) ?_
  rintro _ _ ⟨rfl, rfl⟩
  cases found : tracked scene.start.head (current.get memory) with
  | none => rfl
  | some slot =>
    refine wp_mono (does_pinAt idle now found) ?_
    rintro (_ | ⟨reason | pin⟩) later ends
    · exact ends
    · subst ends
      exact failed
    · obtain ⟨entry, same, place, kept, inside, fresh, rfl⟩ := ends
      have made : Taken scene _ (some ⟨entry, .version pin⟩) _ := .made fresh inside fun other own => by
        cases own
        exact ⟨kept, by rw [same, place, found]⟩
      simp only [Borrow.entry, same] at made
      show Taken scene _ (pin.journal.map fun entry => ⟨entry.2, .version pin⟩) _
      rwa [kept]

/-- A drop: the bit elects the releaser. -/
theorem does_drop {borrow : Borrow} (idle : part.stage = .nothing) (held : Held scene part.due borrow) :
    Does scene (.drop borrow) 0 (scene.serve (.drop borrow)) (fun answer later => answer = none ∧
      later = ⟨.nothing, update part.due borrow.slot none⟩) part := by
  obtain ⟨slot, grip⟩ := borrow
  obtain ⟨inside, known, own⟩ := held
  cases grip with
  | chunk desc =>
    rw [Scene.serve, map_eq_pure_bind]
    refine wp_bind (wp_then (does_release idle (Nat.zero_le _) rfl inside known) ?_)
    rintro _ _ ⟨won, rfl, rfl, fit⟩
    cases won with
    | false => exact ⟨rfl, rfl⟩
    | true =>
      obtain ⟨memory, segment, chunk, located, -⟩ := fit rfl
      unfold releaseDesc
      simp only [located]
      exact wp_bind (wp_then (does_releaseShared (.inl ⟨rfl, rfl⟩) located) fun _ _ same => ⟨rfl, same⟩)
  | version pin =>
    obtain ⟨kept, found⟩ := own pin rfl
    rw [Scene.serve, map_eq_pure_bind]
    unfold dropPin
    simp only [kept]
    refine wp_bind (wp_then (does_release idle (Nat.zero_le _) rfl inside known) ?_)
    rintro _ _ ⟨won, rfl, rfl, fit⟩
    cases won with
    | false => exact ⟨rfl, rfl⟩
    | true =>
      refine wp_then (does_unpin (.inl ⟨rfl, rfl⟩) found) ?_
      rintro prev _ ⟨now, rfl⟩
      dsimp only
      split
      · exact wp_mono (does_retireUnlessCurrent now) fun _ _ same => ⟨rfl, same⟩
      · exact ⟨rfl, rfl⟩

theorem does_replay (idle : part.stage = .nothing) (crew : who ≤ scene.coordinators) :
    Does scene .replay who (scene.serve .replay) (fun answer later => answer = none ∧ later.stage = .nothing) part := by
  rw [Scene.serve, map_eq_pure_bind]
  unfold reclaimDead replayWith BorrowJournal.replayIndexed
  rw [List.range_eq_range']
  refine wp_bind (wp_then (does_replayWords idle rfl 0 _) ?_)
  rintro entries later ⟨idle, read⟩
  exact wp_mono (does_replayEach idle crew rfl read.rising read.known) fun _ _ same => ⟨rfl, same⟩

theorem does_serve {party : Party} (opens : call.open party = true) (rests : AtRest scene who party part) :
    Does scene call who (scene.serve call) (fun answer => AtRest scene who ((party.give call).take answer)) part := by
  cases party with
  | coordinator =>
    cases call with
    | replay =>
      refine wp_mono (does_replay rests.2 rests.1) ?_
      rintro _ _ ⟨rfl, idle⟩
      exact ⟨rests.1, idle⟩
    | _ => cases opens
  | absent => cases call <;> cases opens
  | borrower held =>
    obtain ⟨rfl, resting, distinct, kept⟩ := rests
    -- a reference lost before is let go of
    suffices runs : Does scene call 0 (scene.serve call) (fun answer =>
        AtRest scene 0 (((Party.borrower held).give call).take answer)) ⟨.nothing, part.due⟩ by
      rcases resting with idle | ⟨record, taken⟩
      · rwa [show (⟨.nothing, part.due⟩ : Part) = part by rw [← idle]] at runs
      · refine wp_switch (fun _ _ _ ok has => ok.lose has taken) (fun answer fine => ?_) runs
        cases call <;> cases answer <;> exact ⟨fine.1, .inr ⟨record, taken⟩, fine.2.2⟩
    have takes (runs : Does scene call 0 (scene.serve call) (Taken scene ⟨.nothing, part.due⟩) ⟨.nothing, part.due⟩)
        (same : (Party.borrower held).give call = .borrower held) : Does scene call 0 (scene.serve call)
          (fun answer => AtRest scene 0 (((Party.borrower held).give call).take answer)) ⟨.nothing, part.due⟩ := by
      rw [same]
      refine wp_mono runs ?_
      rintro (_ | borrow) later ⟨rests, keeps, made⟩
      all_goals have older (borrow : Borrow) (among : borrow ∈ held) : Held scene later.due borrow :=
        (kept borrow among).imp_right (And.imp_left (keeps _ _))
      · exact ⟨rfl, rests, distinct, older⟩
      · obtain ⟨fresh, new⟩ := made borrow rfl
        refine ⟨rfl, rests, List.nodup_cons.mpr ⟨fun among => ?_, distinct⟩, List.forall_mem_cons.mpr ⟨new, older⟩⟩
        obtain ⟨other, among, same⟩ := List.mem_map.mp among
        cases fresh.symm.trans (same ▸ (kept other among).2.1)
    cases call with
    | pinChunk desc => exact takes (does_pinChunk rfl desc) rfl
    | pinVersion => exact takes (does_pinVersion rfl) rfl
    | replay => cases opens
    | drop borrow =>
      have among : borrow ∈ held := of_decide_eq_true opens
      refine wp_mono (does_drop rfl (kept borrow among)) ?_
      rintro _ _ ⟨rfl, rfl⟩
      refine ⟨rfl, .inl rfl, distinct.sublist (List.erase_sublist.map _), fun other in_ => ?_⟩
      have ne : other.slot ≠ borrow.slot := fun same => ?_
      · exact (kept other (List.mem_of_mem_erase in_)).imp_right (And.imp_left (update_of_ne ne ..).trans)
      · have perm := (List.perm_cons_erase among).map Borrow.slot
        exact (List.nodup_cons.mp (perm.nodup_iff.mp distinct)).1 (same ▸ List.mem_map_of_mem in_)

end

theorem accounted_unborrowed (scene : Scene Content) : Accounted scene ⟨[], [], fun _ => none, []⟩
    (blankJournal scene.journal scene.start) fun _ => ⟨.nothing, fun _ => none⟩ := by
  have blank (slot : Nat) : entryAt (scene.shelf (blankJournal scene.journal scene.start)) slot = none := by
    simp [blankJournal, Scene.shelf, entryAt, Journal.held]
  have empty : out scene (blankJournal scene.journal scene.start) (fun _ => ⟨.nothing, fun _ => none⟩) = [] := by
    simp [out, recorded, standing, blank, clearedBy, Stage.cleared, Stage.inHand]
  refine ⟨?_, by simp, ⟨rfl, scene.serves, fun _ => rfl, fun _ => rfl, scene.words, scene.pins⟩,
    fun _ => by simp [empty], by simp [empty], fun _ => ⟨fun _ => rfl, fun _ => rfl, by simp, by simp,
      by simp, trivial⟩⟩
  rw [(List.append_eq_nil_iff.mp empty).1]
  rfl

section

instance (site : Site) (log : BorrowLog) : Decidable (NoReuse site log) := by
  unfold NoReuse
  split <;> infer_instance

instance (call : BorrowCall) (site : Site) (memory : Memory Content) : Decidable (Named scene call site memory) := by
  unfold Named
  split <;> infer_instance

/-- One version, its manifest in chunk 1; another reader has a pin on chunk 0. -/
def lent : Scene Unit where
  artifact := ⟨7, 1, ⟨1, [⟨64, 2⟩], by decide⟩⟩
  codec := loneCodec
  journal := notebook
  actorId := 3
  coordinators := 1
  start :=
    { head := { ArtifactHead.fresh 1 with
        current := 1
        manifestDesc := ⟨1, 2⟩
        pins := fun slot => if slot = 0 then ⟨1, ⟨1, 2⟩, 0, .live⟩ else .fresh }
      heap := ⟨fun _ => ⟨⟨.published, 1⟩, 5, 0⟩,
        fun _ => .manifest ⟨1, 7, 7, 0, .zero, 0, 0, 0, [], [], []⟩, fun _ => []⟩
      journals := fun _ => ⟨fun _ => 0, fun _ => none, 0⟩ }
  serves := rfl
  commissioned := by decide
  words _ := Nat.one_lt_two_pow (by decide)
  pins slot := by
    dsimp only
    split <;> decide

/-- The borrower has a pin on chunk 0 and one on the version. It drops the first while
a replay has read both. -/
def replayed : List (Stretch BorrowCall) :=
  [.begin 0 (.pinChunk loneDesc), .run 0 30 1, .begin 0 .pinVersion, .run 0 40 1, .begin 1 .replay, .run 1 3 1,
    .begin 0 (.drop ⟨0, .chunk loneDesc⟩), .run 0 20 1, .run 1 40 1]

def releasedRun : BorrowRun Unit := (parties lent (Orderly lent)).follow replayed (unborrowed lent)

/-- A replay has read the pin on chunk 0; the borrower drops it and pins the version,
which is recorded in the same slot. -/
def reused : List (Stretch BorrowCall) :=
  [.begin 0 (.pinChunk loneDesc), .run 0 30 1, .begin 1 .replay, .run 1 2 1, .begin 0 (.drop ⟨0, .chunk loneDesc⟩),
    .run 0 20 1, .begin 0 .pinVersion, .run 0 40 1, .run 1 40 1]

def reusedRun : BorrowRun Unit :=
  (parties lent fun _ site memory _ => Named lent site.1 site.2 memory).follow reused (unborrowed lent)

end

end ShmActors.Node.Borrowing
