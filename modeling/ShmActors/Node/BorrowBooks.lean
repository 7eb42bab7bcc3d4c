import ShmActors.Node.Borrowing

/-! The books of a run: the references that are out, each recorded or in somebody's
hands, against the log and the counts. -/

namespace ShmActors.Node.Borrowing

open Lib Core Artifact Program Function

/-- Where a party stands: it has a reference and is to record it, has cleared the
bit of one that it is to release, or has freed a chunk and is to number it anew. -/
inductive Stage where
  | nothing
  | taken (record : JournalRecord) (recording : Recording)
  | won (record : JournalRecord)
  | freed (chunk : Nat)

namespace Stage

def recording : Stage → Recording
  | .taken _ recording => recording
  | _ => .searching

/-- The reference that is in no journal yet. -/
def inHand : Stage → List JournalRecord
  | .taken record _ => [record]
  | _ => []

/-- The reference whose bit is cleared. -/
def cleared : Stage → Option JournalRecord
  | .won record => some record
  | _ => none

/-- The reference a party has, recorded or not. -/
def held : Stage → Option JournalRecord
  | .taken record _ | .won record => some record
  | _ => none

theorem toList_held (stage : Stage) : stage.held.toList = stage.inHand ++ stage.cleared.toList := by
  cases stage <;> rfl

theorem bare {stage : Stage} (rests : stage.held = none) :
    stage.recording = .searching ∧ stage.inHand = [] ∧ stage.cleared = none := by
  cases stage with
  | nothing | freed => exact ⟨rfl, rfl, rfl⟩
  | taken | won => cases rests

end Stage

/-- A party, with the slots it is to come to and what it takes to be recorded there. -/
structure Part where
  stage : Stage
  due : Nat → Option JournalRecord

def clearedBy (parts : Nat → Part) (who : Nat) : Option JournalRecord := (parts who).stage.cleared

/-- What a call of `record_entry` relies on, in the slot it is about to record into. -/
def Ready (state : Journal) : Recording → Prop
  | .chosen slot => state.held slot = false
  | .noted slot entry => state.held slot = false ∧ state.entries slot = some entry
  | _ => True

theorem Ready.keep {state new : Journal} {recording : Recording} (ready : Ready state recording)
    (bits : ∀ slot, state.held slot = false → new.held slot = false)
    (entries : ∀ slot, new.entries slot = state.entries slot) : Ready new recording := by
  cases recording with
  | chosen slot => exact bits slot ready
  | noted slot entry => exact ⟨bits slot ready.1, (entries slot).trans ready.2⟩
  | searching | recorded => trivial

/-- One place comes to have something else. -/
theorem perm_filterMap {Value : Type} {places : List Nat} (nodup : places.Nodup) {old new : Nat → Option Value}
    {place : Nat} (here : place ∈ places ∨ old place = new place)
    (same : ∀ other, other ≠ place → new other = old other) :
    ((old place).toList ++ places.filterMap new).Perm ((new place).toList ++ places.filterMap old) := by
  by_cases there : place ∈ places
  · have split (has : Nat → Option Value) :
        (places.filterMap has).Perm ((has place).toList ++ (places.erase place).filterMap has) := by
      refine ((List.perm_cons_erase there).filterMap has).trans (.of_eq ?_)
      cases known : has place <;> simp [known]
    have rest : (places.erase place).filterMap new = (places.erase place).filterMap old :=
      List.filterMap_congr fun other among => same other (nodup.mem_erase_iff.mp among).1
    refine ((split new).append_left _).trans ?_
    rw [rest]
    exact (List.perm_append_comm_assoc ..).trans ((split old).symm.append_left _)
  · have rest : places.filterMap new = places.filterMap old :=
      List.filterMap_congr fun other among => same other fun wrong => there (wrong ▸ among)
    rw [rest, here.resolve_left there]

section

variable {Content : Type} (scene : Scene Content)

/-- The head apart from its pins, and the ranges of the counts. -/
structure Steady (memory : Memory Content) : Prop where
  current : memory.head.current = scene.start.head.current
  incarnation : memory.head.incarnation = scene.artifact.incarnation
  states : ∀ slot, (memory.head.pins slot).state = (scene.start.head.pins slot).state
  versions : ∀ slot, (memory.head.pins slot).version = (scene.start.head.pins slot).version
  words : ∀ chunk, (memory.heap.ctrl chunk).word.refcount < 2 ^ 32
  pins : ∀ slot, (memory.head.pins slot).pins < 2 ^ 32

/-- What a record names is there to be released. -/
def Fit (memory : Memory Content) : JournalRecord → Prop
  | .chunkPin desc => desc.segmentId = scene.artifact.pool.segmentId ∧ ∃ chunk,
      scene.artifact.pool.locate desc.offset = some chunk ∧ (memory.heap.ctrl chunk).word.state = .published ∧
      (memory.heap.ctrl chunk).generation = desc.generation
  | .artifactPin artifactId incarnation version => artifactId = scene.artifact.nameId ∧
      incarnation = scene.artifact.incarnation ∧ version = scene.start.head.current ∧
      (tracked scene.start.head version).isSome
  | _ => False

/-- What an access does to the counts, and what it leaves in place. -/
structure Effect (gain loss : Option Resource) (before after : Memory Content) : Prop where
  steady : Steady scene before → Steady scene after
  levels : ∀ counter, level before counter + (if gain = some counter then 1 else 0) ≤
    level after counter + if loss = some counter then 1 else 0
  fits : ∀ record, Fit scene before record →
    (∀ counter, scene.resource record = some counter → 0 < level after counter) → Fit scene after record
  free : ∀ chunk, (before.heap.ctrl chunk).word.state = .free → (after.heap.ctrl chunk).word.state = .free

abbrev Kept (before after : Memory Content) : Prop := Effect scene none none before after

/-- What is recorded and not released: it stands in the journal, or its bit is cleared. -/
def recorded (memory : Memory Content) (parts : Nat → Part) : List JournalRecord :=
  standing scene.journal (scene.shelf memory) ++ (List.range (scene.coordinators + 1)).filterMap (clearedBy parts)

/-- The references out. -/
def out (memory : Memory Content) (parts : Nat → Part) : List JournalRecord :=
  recorded scene memory parts ++ (parts 0).stage.inHand

/-- What a party does and knows. What it takes to be recorded in a slot it is to come
to is, if anything is. -/
structure Posted (log : BorrowLog) (memory : Memory Content) (who : Nat) (part : Part) : Prop where
  taker : who ≠ 0 → part.stage.inHand = []
  crew : scene.coordinators < who → part.stage.cleared = none
  won : ∀ record, part.stage = .won record → log.won who = some record
  freed : ∀ chunk, part.stage = .freed chunk → (memory.heap.ctrl chunk).word.state = .free
  reads : ∀ slot record, part.due slot = some record → (who, slot) ∈ log.due ∧
    ((scene.shelf memory).held slot = true → (scene.shelf memory).entries slot = some record)
  ready : Ready (scene.shelf memory) part.stage.recording

/-- The references out are counted, and what was recorded is released or still recorded. -/
structure Accounted (log : BorrowLog) (memory : Memory Content) (parts : Nat → Part) : Prop where
  balance : log.issued.Perm (log.releases.filterMap Prod.fst ++ recorded scene memory parts)
  right : ∀ release ∈ log.releases, ∃ record ∈ release.1, scene.resource record = some release.2
  steady : Steady scene memory
  levels : ∀ counter, (out scene memory parts).countP (scene.resource · = some counter) ≤ level memory counter
  fits : ∀ record ∈ out scene memory parts, Fit scene memory record
  posts : ∀ who, Posted scene log memory who (parts who)

/-- What a party may rely on at its next access. -/
structure Sane (stage : Stage) (memory : Memory Content) : Prop where
  steady : Steady scene memory
  fit : ∀ record, stage.held = some record → Fit scene memory record
  alive : ∀ record, stage.held = some record → ∀ counter, scene.resource record = some counter →
    0 < level memory counter
  freed : ∀ chunk, stage = .freed chunk → (memory.heap.ctrl chunk).word.state = .free

variable {scene} {log longer : BorrowLog} {memory after : Memory Content} {parts : Nat → Part} {part : Part}
  {who slot : Nat} {record : JournalRecord} {gain loss : Option Resource}

theorem Posted.ready_other (post : Posted scene log memory who part) (other : who ≠ 0) (state : Journal) :
    Ready state part.stage.recording := by
  have empty := post.taker other
  cases stage : part.stage with
  | taken => simp [stage, Stage.inHand] at empty
  | nothing | won | freed => trivial

/-- The slots a party is to come to stay so, with nothing new recorded there. -/
def Lasts (scene : Scene Content) (log longer : BorrowLog) (memory after : Memory Content) (who : Nat) : Prop :=
  ∀ slot, (who, slot) ∈ log.due → (who, slot) ∈ longer.due ∧ ((scene.shelf after).held slot = true →
    (scene.shelf memory).held slot = true ∧ (scene.shelf after).entries slot = (scene.shelf memory).entries slot)

theorem Posted.reads_of (post : Posted scene log memory who part) (lasts : Lasts scene log longer memory after who)
    (slot : Nat) (record : JournalRecord) (known : part.due slot = some record) : (who, slot) ∈ longer.due ∧
      ((scene.shelf after).held slot = true → (scene.shelf after).entries slot = some record) := by
  obtain ⟨named, reads⟩ := post.reads slot record known
  refine ⟨(lasts slot named).1, fun set => ?_⟩
  obtain ⟨was, same⟩ := (lasts slot named).2 set
  exact same.trans (reads was)

theorem Posted.keep (post : Posted scene log memory who part) (won : longer.won who = log.won who)
    (effect : Effect scene gain loss memory after) (lasts : Lasts scene log longer memory after who)
    (ready : Ready (scene.shelf after) part.stage.recording) : Posted scene longer after who part :=
  ⟨post.taker, post.crew, fun record wins => won.trans (post.won record wins),
    fun chunk freed => effect.free chunk (post.freed chunk freed), post.reads_of lasts, ready⟩

theorem Posted.rest {stage : Stage} (post : Posted scene log memory who part) (rests : stage.held = none)
    (lands : ∀ chunk, stage = .freed chunk → (memory.heap.ctrl chunk).word.state = .free) :
    Posted scene log memory who ⟨stage, part.due⟩ := by
  obtain ⟨recording, hand, cleared⟩ := Stage.bare rests
  refine ⟨fun _ => hand, fun _ => cleared, fun record wins => ?_, lands, post.reads, recording ▸ trivial⟩
  cases (show stage = .won record from wins)
  cases rests

section

variable (ok : Accounted scene log memory parts)

include ok

theorem Accounted.mem_out (held : (parts who).stage.held = some record) : record ∈ out scene memory parts := by
  have post := ok.posts who
  cases stage : (parts who).stage with
  | taken own recording =>
    have zero : who = 0 := by
      by_contra other
      simpa [stage, Stage.inHand] using post.taker other
    subst zero
    rw [stage] at held
    cases held
    exact List.mem_append_right _ (by rw [stage]; exact List.mem_singleton_self _)
  | won own =>
    have crew : who < scene.coordinators + 1 := by
      by_contra beyond
      simpa [stage, Stage.cleared] using post.crew (by omega)
    rw [stage] at held
    cases held
    refine List.mem_append_left _ (List.mem_append_right _ (List.mem_filterMap.mpr ⟨who, List.mem_range.mpr crew, ?_⟩))
    rw [clearedBy, stage]
    rfl
  | nothing | freed =>
    rw [stage] at held
    cases held

theorem Accounted.alive (among : record ∈ out scene memory parts) (counter : Resource)
    (named : scene.resource record = some counter) : 0 < level memory counter :=
  (List.countP_pos_iff.mpr ⟨record, among, decide_eq_true named⟩).trans_le (ok.levels counter)

theorem Accounted.sane : Sane scene (parts who).stage memory :=
  ⟨ok.steady, fun record held => ok.fits record (ok.mem_out held), fun _ held => ok.alive (ok.mem_out held),
    (ok.posts who).freed⟩

/-- An access of a party, at one slot of the journal at most. -/
theorem Accounted.step (was now : Option JournalRecord) (effect : Effect scene gain loss memory after)
    (shelf : (was.toList ++ standing scene.journal (scene.shelf after)).Perm
      (now.toList ++ standing scene.journal (scene.shelf memory)))
    (post : Posted scene longer after who part)
    (others : ∀ other, other ≠ who → Posted scene longer after other (parts other))
    (balance : ∀ record, (longer.issued ++ log.releases.filterMap Prod.fst ++ was.toList ++
        (parts who).stage.cleared.toList).count record =
      (log.issued ++ longer.releases.filterMap Prod.fst ++ now.toList ++ part.stage.cleared.toList).count record)
    (right : ∀ release ∈ longer.releases, ∃ record ∈ release.1, scene.resource record = some release.2)
    (counts : ∀ counter, (now.toList ++ part.stage.held.toList).countP (scene.resource · = some counter) +
        (if loss = some counter then 1 else 0) ≤
      (was.toList ++ (parts who).stage.held.toList).countP (scene.resource · = some counter) +
        if gain = some counter then 1 else 0)
    (fits : ∀ record ∈ now.toList ++ part.stage.held.toList, Fit scene memory record ∨ Fit scene after record) :
    Accounted scene longer after (update parts who part) := by
  have own : clearedBy (update parts who part) who = part.stage.cleared := by rw [clearedBy, update_self]
  have bits : ((clearedBy parts who).toList ++
      (List.range (scene.coordinators + 1)).filterMap (clearedBy (update parts who part))).Perm
        ((clearedBy (update parts who part) who).toList ++
          (List.range (scene.coordinators + 1)).filterMap (clearedBy parts)) := by
    refine perm_filterMap List.nodup_range ?_ fun other ne => by rw [clearedBy, update_of_ne ne, clearedBy]
    by_cases crew : who < scene.coordinators + 1
    · exact .inl (List.mem_range.mpr crew)
    · exact .inr (by rw [own, clearedBy, (ok.posts who).crew (by omega), post.crew (by omega)])
  rw [own] at bits
  have hand : ((parts who).stage.inHand ++ (update parts who part 0).stage.inHand).Perm
      (part.stage.inHand ++ (parts 0).stage.inHand) := by
    by_cases own : who = 0
    · subst own
      rw [update_self]
      exact List.perm_append_comm
    · rw [update_of_ne (Ne.symm own), (ok.posts who).taker own, post.taker own]
  have all : (was.toList ++ (parts who).stage.held.toList ++ out scene after (update parts who part)).Perm
      (now.toList ++ part.stage.held.toList ++ out scene memory parts) := List.perm_iff_count.mpr fun record => by
    have := shelf.count_eq record
    have := bits.count_eq record
    have := hand.count_eq record
    simp only [out, recorded, clearedBy, Stage.toList_held, List.count_append] at *
    omega
  have levels (counter : Resource) :
      (out scene after (update parts who part)).countP (scene.resource · = some counter) ≤ level after counter := by
    have := all.countP_eq fun record => scene.resource record = some counter
    have := counts counter
    have := effect.levels counter
    have := ok.levels counter
    simp only [List.countP_append] at *
    omega
  refine ⟨List.perm_iff_count.mpr fun record => ?_, right, effect.steady ok.steady, levels, fun record among => ?_,
    (forall_update_iff parts (Posted scene longer after)).mpr ⟨post, others⟩⟩
  · have := balance record
    have := ok.balance.count_eq record
    have := shelf.count_eq record
    have := bits.count_eq record
    simp only [recorded, clearedBy, List.count_append] at *
    omega
  · have fit : Fit scene memory record ∨ Fit scene after record := by
      rcases List.mem_append.mp (all.subset (List.mem_append_right _ among)) with come | there
      · exact fits record come
      · exact .inl (ok.fits record there)
    rcases fit with fit | fit
    · refine effect.fits _ fit fun counter named => ?_
      exact (List.countP_pos_iff.mpr ⟨record, among, decide_eq_true named⟩).trans_le (levels counter)
    · exact fit

/-- Nothing moves. -/
theorem Accounted.quiet (kept : Kept scene memory after)
    (shelf : standing scene.journal (scene.shelf after) = standing scene.journal (scene.shelf memory))
    (post : Posted scene longer after who part)
    (others : ∀ other, other ≠ who → Posted scene longer after other (parts other))
    (held : part.stage.held = (parts who).stage.held) (cleared : part.stage.cleared = (parts who).stage.cleared)
    (issued : longer.issued = log.issued) (releases : longer.releases = log.releases) :
    Accounted scene longer after (update parts who part) := by
  refine ok.step none none kept (.of_eq (by rw [shelf])) post others (fun _ => by rw [cleared, issued, releases])
    (releases ▸ ok.right) (fun counter => by simp [held]) fun record among => ?_
  have has : (parts who).stage.held = some record := held ▸ Option.mem_toList.mp among
  exact .inl (ok.fits record (ok.mem_out has))

end

theorem entryAt_congr {state new : Journal} (bits : ∀ slot, new.held slot = state.held slot)
    (entries : ∀ slot, state.held slot = true → new.entries slot = state.entries slot) :
    entryAt new = entryAt state := by
  funext slot
  unfold entryAt
  rw [bits]
  split
  · rename_i set
    exact entries slot set
  · rfl

end

end ShmActors.Node.Borrowing
