import ShmActors.Node.BorrowBooks

/-! The accesses that count references: what each of them does to the books, and from
that the calls on a chunk's word and on a version's pins. -/

namespace ShmActors.Node.Borrowing

open Lib Core Artifact Program Function Actors

variable {Content : Type} {scene : Scene Content} {call : BorrowCall} {who slot : Nat} {part : Part}
  {log : BorrowLog} {memory after : Memory Content} {parts : Nat → Part} {site : Site}

/-- Who may give up a reference: a party that has cleared its bit, in a call that
releases, or the borrower that has not recorded it. -/
def Gives (call : BorrowCall) (old : Stage) (record : JournalRecord) : Prop :=
  old = .won record ∧ call.releases = true ∨ (∃ recording, old = .taken record recording) ∧ call.releases = false

section

variable (scene call who site) (old : Stage) (memory after)

/-- The accesses outside the journal: they keep the counts, take a reference, or give
one up. -/
inductive Move : Stage → Prop where
  | rest (kept : Kept scene memory after) (same : stage = old ∨ old.held = none ∧ stage.held = none)
      (lands : ∀ chunk, stage = .freed chunk → (after.heap.ctrl chunk).word.state = .free) : Move stage
  | take (idle : old = .nothing) (own : who = 0 ∧ call.releases = false)
      (took : Effect scene (some counter) none memory after) (named : scene.resource entry = some counter)
      (fit : Fit scene after entry) : Move (.taken entry .searching)
  | give (own : Gives call old entry)
      (gave : Effect scene none (some counter) memory after) (named : scene.resource entry = some counter)
      (falls : given memory after site = some counter) (rests : stage.held = none)
      (lands : ∀ chunk, stage = .freed chunk → (after.heap.ctrl chunk).word.state = .free) : Move stage

end

variable {stage : Stage} {record : JournalRecord}

theorem Gives.held (gives : Gives call stage record) : stage.held = some record := by
  rcases gives with ⟨rfl, -⟩ | ⟨⟨_, rfl⟩, -⟩ <;> rfl

/-- What a call leads to, whatever the others do in between. -/
abbrev Does (scene : Scene Content) (call : BorrowCall) (who : Nat) (code : Act Content Value)
    (post : Value → Part → Prop) (part : Part) : Prop :=
  ((parties scene (Orderly scene)).under call).wp (Accounted scene) who code post part

/-- The journal is the same, up to the hint. -/
abbrev Alike (scene : Scene Content) (before after : Memory Content) : Prop :=
  ∀ slot, (scene.shelf after).held slot = (scene.shelf before).held slot ∧
    (scene.shelf after).entries slot = (scene.shelf before).entries slot

theorem note_plain (plain : site.logged = false) : log.note scene.journal who (call, site) memory after =
    if call.releases then (given memory after site).elim log fun counter =>
      { log with releases := (log.won who, counter) :: log.releases } else log := by
  unfold BorrowLog.note
  cases call.releases <;> cases site <;> first | rfl | cases plain

theorem given_kept (kept : Kept scene memory after) : given memory after site = none := by
  have (counter : Resource) : ¬ level after counter < level memory counter := by
    have := kept.levels counter
    simp at this
    omega
  unfold given
  split <;> simp [this]

theorem Accounted.moves (ok : Accounted scene log memory parts) (has : parts who = part) (plain : site.logged = false)
    (same : Alike scene memory after) (move : Move scene call who memory after site part.stage stage) :
    Accounted scene (log.note scene.journal who (call, site) memory after) after
      (update parts who ⟨stage, part.due⟩) := by
  subst has
  rw [note_plain plain]
  have shelf : standing scene.journal (scene.shelf after) = standing scene.journal (scene.shelf memory) := by
    rw [standing, entryAt_congr (fun slot => (same slot).1) fun slot _ => (same slot).2]
    rfl
  -- what the parties know of the journal stays
  have keep {longer : BorrowLog} {gain loss : Option Resource} (effect : Effect scene gain loss memory after)
      (won : longer.won = log.won) (due : longer.due = log.due) (other : Nat) :
      Posted scene longer after other (parts other) := by
    refine (ok.posts other).keep (by rw [won]) effect (fun slot named => ⟨due ▸ named, fun set => ?_⟩)
      ((ok.posts other).ready.keep (fun slot => (same slot).1.trans) fun slot => (same slot).2)
    exact ⟨(same slot).1 ▸ set, (same slot).2⟩
  cases move with
  | rest kept as lands =>
    rw [given_kept kept]
    simp only [Option.elim_none, ite_self]
    have posts := keep kept rfl rfl
    rcases as with rfl | ⟨old, new⟩
    · exact ok.quiet kept shelf (posts who) (fun other _ => posts other) rfl rfl rfl rfl
    · exact ok.quiet kept shelf ((posts who).rest new lands) (fun other _ => posts other) (new.trans old.symm)
        (by rw [(Stage.bare old).2.2, (Stage.bare new).2.2]) rfl rfl
  | take idle own took named fit =>
    obtain ⟨rfl, takes⟩ := own
    simp only [takes]
    have posts := keep took rfl rfl
    refine ok.step none none took (.of_eq (by rw [shelf]))
      ⟨fun wrong => absurd rfl wrong, fun _ => rfl, by simp, by simp, (posts 0).reads, trivial⟩
      (fun other _ => posts other) (fun _ => by rw [idle]; rfl) ok.right (fun other => ?_) ?_
    · simp [idle, Stage.held, List.countP_cons, named]
    · simpa [Stage.held] using .inr fit
  | @give record _ _ own gave named falls rests lands =>
    have gives {longer : BorrowLog} (won : longer.won = log.won) (due : longer.due = log.due)
        (balance : ∀ record, (longer.issued ++ log.releases.filterMap Prod.fst ++
            (parts who).stage.cleared.toList).count
          record = (log.issued ++ longer.releases.filterMap Prod.fst).count record)
        (right : ∀ release ∈ longer.releases, ∃ record ∈ release.1, scene.resource record = some release.2) :
        Accounted scene longer after (update parts who ⟨stage, (parts who).due⟩) := by
      have posts := keep gave won due
      refine ok.step none none gave (.of_eq (by rw [shelf])) ((posts who).rest rests lands) (fun other _ => posts other)
        (fun record => ?_) right (fun other => ?_) (by simp [rests])
      · simpa [(Stage.bare rests).2.2] using balance record
      · simp [rests, own.held, List.countP_cons, named]
    rcases own with ⟨won, releases⟩ | ⟨⟨recording, taken⟩, takes⟩
    · have cleared := (ok.posts who).won _ won
      simp only [releases, falls, if_true, Option.elim_some]
      refine gives rfl rfl (fun other => ?_) fun release among => ?_
      · simp [won, cleared, Stage.cleared, List.count_cons]
      · rcases List.mem_cons.mp among with rfl | older
        · exact ⟨_, cleared, named⟩
        · exact ok.right release older
    · simp only [takes]
      exact gives rfl rfl (fun other => by rw [taken]; simp [Stage.cleared]) ok.right

theorem kept_of_same (ctrl : after.heap.ctrl = memory.heap.ctrl) (head : after.head = memory.head) :
    Kept scene memory after := by
  refine ⟨fun steady => ?_, fun counter => ?_, fun record fit _ => ?_, fun chunk => by rw [ctrl]; exact id⟩
  · constructor
    all_goals first | rw [head] | rw [ctrl]
    exacts [steady.current, steady.incarnation, steady.states, steady.versions, steady.words, steady.pins]
  · cases counter <;> simp [level, ctrl, head]
  · cases record with
    | chunkPin => simpa only [Fit, ctrl] using fit
    | _ => exact fit

section

variable {post : Value → Part → Prop}

theorem does_act {change : Memory Content → Memory Content} {next : Memory Content → Act Content Value}
    (plain : site.logged = false) (same : ∀ memory, Alike scene memory (change memory))
    (step : ∀ memory, Sane scene part.stage memory → Named scene call site memory →
      ∃ stage, Move scene call who memory (change memory) site part.stage stage ∧
        Does scene call who (next memory) post ⟨stage, part.due⟩) :
    Does scene call who (.act site change next) post part := by
  intro log memory parts ok has may
  obtain ⟨stage, move, rest⟩ := step memory (has ▸ ok.sane) may.2
  exact ⟨_, ok.moves has plain (same memory) move, rest⟩

theorem does_load {cell : Ref (Memory Content) Value} (plain : site.logged = false)
    (step : ∀ memory, Sane scene part.stage memory → post (cell.get memory) part) :
    Does scene call who (load site cell) post part :=
  does_act plain (fun _ _ => ⟨rfl, rfl⟩) fun memory sane _ =>
    ⟨_, .rest (kept_of_same rfl rfl) (.inl rfl) sane.freed, step memory sane⟩

theorem does_exchange [DecidableEq Value] {cell : Ref (Memory Content) Value} {now new : Value}
    {post : Option Value → Part → Prop} (plain : site.logged = false)
    (same : ∀ memory, Alike scene memory (cell.set new memory))
    (won : ∀ memory, Sane scene part.stage memory → Named scene call site memory → cell.get memory = now →
      ∃ stage, Move scene call who memory (cell.set new memory) site part.stage stage ∧ post none ⟨stage, part.due⟩)
    (lost : ∀ memory, Sane scene part.stage memory → post (some (cell.get memory)) part) :
    Does scene call who (compareExchange site cell now new) post part := by
  refine does_act plain (fun memory => ?_) fun memory sane may => ?_
  · split
    · exact same memory
    · exact fun _ => ⟨rfl, rfl⟩
  · by_cases got : cell.get memory = now
    · obtain ⟨later, move, rest⟩ := won memory sane may got
      exact ⟨later, by rwa [if_pos got], by rwa [if_pos got]⟩
    · rw [if_neg got, if_neg got]
      exact ⟨_, .rest (kept_of_same rfl rfl) (.inl rfl) sane.freed, lost memory sane⟩

end

section

variable {desc : ChunkDesc} {chunk : Nat} {val : ChunkCtrl} {gain loss : Option Resource}

theorem resource_chunk (located : scene.artifact.pool.locate desc.offset = some chunk) :
    scene.resource (.chunkPin desc) = some (.chunk chunk) := by
  simp [Scene.resource, located]

/-- The counts, of which only one moves. -/
theorem levels_of_one {one : Resource} (gains : ∀ counter, gain = some counter → counter = one)
    (own : level memory one + (if gain = some one then 1 else 0) ≤ level after one + if loss = some one then 1 else 0)
    (still : ∀ counter, counter ≠ one → level after counter = level memory counter) (counter : Resource) :
    level memory counter + (if gain = some counter then 1 else 0) ≤
      level after counter + if loss = some counter then 1 else 0 := by
  by_cases same : counter = one
  · subst same
    exact own
  · rw [still counter same, if_neg fun gained => same (gains counter gained)]
    omega

theorem effect_ctrl (small : val.word.refcount < 2 ^ 32) (gains : ∀ counter, gain = some counter →
    counter = .chunk chunk)
    (own : (memory.heap.ctrl chunk).word.refcount + (if gain = some (.chunk chunk) then 1 else 0) ≤
      val.word.refcount + if loss = some (.chunk chunk) then 1 else 0)
    (fits : (memory.heap.ctrl chunk).word.state = .published → 0 < val.word.refcount →
      val.word.state = .published ∧ val.generation = (memory.heap.ctrl chunk).generation)
    (free : (memory.heap.ctrl chunk).word.state = .free → val.word.state = .free) :
    Effect scene gain loss memory (memory.setCtrl chunk val) := by
  have elsewhere {other : Nat} (ne : other ≠ chunk) : (memory.setCtrl chunk val).heap.ctrl other =
      memory.heap.ctrl other := Heap.setCtrl_other _ _ _ ne
  refine ⟨fun steady => { steady with words := fun other => ?_ },
    levels_of_one gains (by simpa only [level, Memory.setCtrl_ctrl] using own) fun counter ne => ?_,
    fun record fit alive => ?_, fun other => ?_⟩
  · by_cases same : other = chunk
    · rwa [same, Memory.setCtrl_ctrl]
    · rw [elsewhere same]
      exact steady.words other
  · cases counter with
    | chunk other => exact congrArg (·.word.refcount) (elsewhere fun wrong => ne (congrArg _ wrong))
    | pins => rfl
  · cases record with
    | chunkPin desc =>
      obtain ⟨segment, other, located, published, generation⟩ := fit
      refine ⟨segment, other, located, ?_⟩
      by_cases same : other = chunk
      · subst same
        have some := alive (.chunk other) (resource_chunk located)
        rw [level, Memory.setCtrl_ctrl] at some
        rw [Memory.setCtrl_ctrl, ← generation]
        exact fits published some
      · rw [elsewhere same]
        exact ⟨published, generation⟩
    | _ => exact fit
  · by_cases same : other = chunk
    · subst same
      rw [Memory.setCtrl_ctrl]
      exact free
    · rw [elsewhere same]
      exact id

theorem Sane.published (sane : Sane scene stage memory) (has : stage.held = some (.chunkPin desc))
    (located : scene.artifact.pool.locate desc.offset = some chunk) :
    desc.segmentId = scene.artifact.pool.segmentId ∧ (memory.heap.ctrl chunk).word.state = .published ∧
      (memory.heap.ctrl chunk).generation = desc.generation ∧ 0 < (memory.heap.ctrl chunk).word.refcount := by
  obtain ⟨segment, other, found, published, generation⟩ := sane.fit _ has
  cases found.symm.trans located
  exact ⟨segment, published, generation, sane.alive _ has _ (resource_chunk located)⟩

theorem does_bump (label : CtrlSite) (freed : part.stage = .freed chunk) :
    Does scene call who (bumpGeneration (.ctrl chunk) (ctrlAt chunk) label)
      (fun _ later => later = ⟨.nothing, part.due⟩) part := by
  refine does_act rfl (fun _ _ => ⟨rfl, rfl⟩) fun memory sane _ =>
    ⟨_, .rest ?_ (.inr ⟨by rw [freed]; rfl, rfl⟩) (by simp), rfl⟩
  have free := sane.freed chunk freed
  exact effect_ctrl (sane.steady.words chunk) (by simp) (Nat.le_refl _)
    (fun published => by cases free.symm.trans published) id

theorem does_tryReclaim (idle : part.stage = .nothing) :
    Does scene call who (tryReclaim (.ctrl chunk) (ctrlAt chunk)) (fun _ later => later = part) part := by
  have back : (⟨.nothing, part.due⟩ : Part) = part := by rw [← idle]
  refine wp_bind (does_load rfl fun memory _ => ?_)
  split
  · rfl
  refine wp_bind (does_exchange rfl (fun _ _ => ⟨rfl, rfl⟩) (fun memory sane _ got => ?_) fun _ _ => rfl)
  change (memory.heap.ctrl chunk).word = _ at got
  refine ⟨.freed chunk, .rest (effect_ctrl (Nat.two_pow_pos 32) (by simp) (by rw [got]) (fun _ wrong => by cases wrong)
    fun _ => rfl) (.inr ⟨by rw [idle]; rfl, rfl⟩) ?_, ?_⟩
  · rintro _ ⟨⟩
    exact congrArg (·.word.state) (Memory.setCtrl_ctrl ..)
  · refine wp_then (does_bump _ rfl) ?_
    rintro _ _ rfl
    exact back

/-- The word installed counts one reference less, and is free or still published. -/
theorem releasedWord_spec {cur : Word} (gone : Bool) (some : 0 < cur.refcount) (small : cur.refcount < 2 ^ 32) :
    cur.refcount = (releasedWord cur gone).refcount + 1 ∧
      (0 < (releasedWord cur gone).refcount → (releasedWord cur gone).state = .published) := by
  unfold releasedWord
  split
  · rename_i last
    simp [last.1]
  · exact ⟨by simp only; omega, fun _ => rfl⟩

theorem does_releaseShared (gives : Gives call part.stage (.chunkPin desc))
    (located : scene.artifact.pool.locate desc.offset = some chunk) :
    Does scene call who (releaseShared (.ctrl chunk) (ctrlAt chunk)) (fun _ later =>
      later = ⟨.nothing, part.due⟩) part := by
  have has := gives.held
  refine wp_bind (does_load rfl fun memory sane => ?_)
  refine wp_repeatFrom (fun cur now => now = part ∧ 0 < cur.refcount ∧ cur.refcount < 2 ^ 32) ?_
    ⟨rfl, (sane.published has located).2.2.2, sane.steady.words chunk⟩
  rintro cur _ ⟨rfl, some, small⟩
  refine wp_bind (does_load rfl fun memory _ => ?_)
  generalize decide ((ownerOf (ctrlAt chunk)).get memory = ownerNone) = gone
  obtain ⟨fewer, stays⟩ := releasedWord_spec gone some small
  unfold releaseExchange
  generalize releasedWord cur gone = new at *
  refine wp_bind (does_exchange rfl (fun _ _ => ⟨rfl, rfl⟩) (fun memory sane _ got => ?_)
    fun memory sane => ⟨rfl, (sane.published has located).2.2.2, sane.steady.words chunk⟩)
  change (memory.heap.ctrl chunk).word = cur at got
  have gave : Effect scene none (Option.some (.chunk chunk)) memory ((wordOf (ctrlAt chunk)).set new memory) := by
    refine effect_ctrl (by simp only; omega) (by simp) (by simp [got, fewer]) (fun _ positive => ⟨stays positive, rfl⟩)
      fun free => ?_
    cases (sane.published has located).2.1.symm.trans free
  have word : (((wordOf (ctrlAt chunk)).set new memory).heap.ctrl chunk).word = new :=
    congrArg (·.word) (Memory.setCtrl_ctrl ..)
  have falls : given memory ((wordOf (ctrlAt chunk)).set new memory) (.ctrl chunk .releaseExchange) =
      Option.some (.chunk chunk) := by
    simp only [given, level, word, got]
    rw [if_pos (by omega)]
  by_cases freed : new.state = .free
  · refine ⟨.freed chunk, .give gives gave (resource_chunk located) falls rfl ?_, ?_⟩
    · rintro _ ⟨⟩
      rw [word, freed]
    · simp only [if_pos freed]
      exact wp_then (does_bump _ rfl) fun _ _ same => same
  · refine ⟨.nothing, .give gives gave (resource_chunk located) falls rfl (by simp), ?_⟩
    simp only [if_neg freed]
    split
    · exact wp_then (does_tryReclaim rfl) fun _ _ same => same
    · rfl

theorem does_borrowShared (idle : part.stage = .nothing)
    (located : scene.artifact.pool.locate desc.offset = some chunk) :
    Does scene (.pinChunk desc) 0 (onCtrl borrowShared chunk) (fun outcome later =>
      later = if outcome.isOk then ⟨.taken (.chunkPin desc) .searching, part.due⟩ else part) part := by
  refine wp_bind (wp_bind (does_load rfl fun memory sane => ?_))
  refine wp_repeatFrom (fun cur now => now = part ∧ cur.refcount < 2 ^ 32) ?_ ⟨rfl, sane.steady.words chunk⟩
  rintro cur _ ⟨rfl, small⟩
  unfold exchangeWhile
  split
  · rfl
  rename_i published
  refine wp_bind (does_exchange rfl (fun _ _ => ⟨rfl, rfl⟩) (fun memory sane may got => ?_)
    fun memory sane => ⟨rfl, sane.steady.words chunk⟩)
  obtain ⟨segment, generation, below⟩ := may
  change (memory.heap.ctrl chunk).word = cur at got
  rw [got] at below
  have more : (cur.refcount + 1) % 2 ^ 32 = cur.refcount + 1 := Nat.mod_eq_of_lt below
  refine ⟨_, .take idle ⟨rfl, rfl⟩ (effect_ctrl (by simp only [more]; exact below) (by simp)
    (by rw [if_pos rfl, if_neg (by simp), got]; exact more.ge) (fun _ _ => ⟨rfl, rfl⟩) fun free => ?_)
    (resource_chunk located) ⟨segment, chunk, located, ?_⟩, rfl⟩
  · rw [got] at free
    exact absurd free (by simp_all)
  · rw [show ((wordOf (ctrlAt chunk)).set _ memory).heap.ctrl chunk = _ from Memory.setCtrl_ctrl ..]
    exact ⟨rfl, generation⟩

end

section

variable {desc : ChunkDesc} {chunk version : Nat}

theorem does_reclaimOne (won : part.stage = .won (.chunkPin desc)) (releases : call.releases = true)
    (located : scene.artifact.pool.locate desc.offset = some chunk) :
    Does scene call who (reclaimOne scene.artifact.pool desc scene.actorId)
      (fun _ later => later = ⟨.nothing, part.due⟩) part := by
  have has : part.stage.held = some (.chunkPin desc) := by rw [won]; rfl
  unfold reclaimOne
  simp only [located]
  refine wp_bind (wp_bind (does_load rfl fun memory sane => ?_))
  have valid : desc.generation = (generationOf (ctrlAt chunk)).get memory := (sane.published has located).2.2.1.symm
  simp only [valid, decide_true]
  refine wp_bind (wp_bind (does_load rfl fun memory sane => ?_))
  have published : ((wordOf (ctrlAt chunk)).get memory).state = .published := (sane.published has located).2.1
  simp only [published]
  refine wp_bind (does_load rfl fun memory sane => ?_)
  have counted : 0 < ((wordOf (ctrlAt chunk)).get memory).refcount := (sane.published has located).2.2.2
  rw [if_pos counted]
  refine wp_mono (does_releaseShared (.inl ⟨won, releases⟩) located) ?_
  rintro recycled _ rfl
  split
  · unfold Pool.free
    simp only [located]
    refine wp_bind (wp_bind (does_act rfl (fun _ _ => ⟨rfl, rfl⟩) fun memory sane _ =>
      ⟨_, .rest (kept_of_same rfl rfl) (.inl rfl) sane.freed, ?_⟩))
    refine wp_bind (does_act rfl (fun _ _ => ⟨rfl, rfl⟩) fun memory sane _ =>
      ⟨_, .rest (kept_of_same rfl rfl) (.inl rfl) sane.freed, ?_⟩)
    rfl
  · rfl

theorem does_acceptPin (slot version : Nat) : Does scene call who (acceptPin slot version) (fun found later =>
    found = decide ((scene.start.head.pins slot).state = .live ∧ (scene.start.head.pins slot).version = version) ∧
      later = part) part := by
  refine wp_bind (does_load rfl fun memory sane => ?_)
  have state : (slotState slot).get memory = _ := sane.steady.states slot
  rw [state]
  split
  · rename_i other
    exact ⟨by simp [other], rfl⟩
  · rename_i live
    refine wp_bind (does_load rfl fun memory sane => ?_)
    have found : (slotVersion slot).get memory = _ := sane.steady.versions slot
    exact ⟨by simp_all, rfl⟩

theorem does_findSlot (version : Nat) : Does scene call who (findSlot version) (fun found later =>
    found = tracked scene.start.head version ∧ later = part) part := by
  unfold findSlot tracked
  induction List.range MAX_LIVE_VERSIONS with
  | nil => exact ⟨rfl, rfl⟩
  | cons slot rest ih =>
    refine wp_then (does_acceptPin slot version) ?_
    rintro _ _ ⟨rfl, rfl⟩
    rw [List.find?_cons]
    split
    · rename_i found
      rw [found]
      exact ⟨rfl, rfl⟩
    · rename_i other
      rw [Bool.eq_false_iff.mpr other]
      exact ih

theorem does_retireUnlessCurrent (now : version = scene.start.head.current) :
    Does scene call who (retireUnlessCurrent scene.artifact.pool version) (fun _ later => later = part) part := by
  refine wp_bind (does_load rfl fun memory sane => ?_)
  have still : current.get memory = version := sane.steady.current.trans now.symm
  rw [if_pos still]
  rfl

theorem pins_after (val other : Nat) : ((slotPins slot).set val memory).head.pins other =
    if other = slot then { memory.head.pins slot with pins := val } else memory.head.pins other := update_apply ..

theorem effect_pins {val : Nat} {gain loss : Option Resource} (small : val < 2 ^ 32)
    (gains : ∀ counter, gain = some counter → counter = .pins slot)
    (own : (memory.head.pins slot).pins + (if gain = some (.pins slot) then 1 else 0) ≤
      val + if loss = some (.pins slot) then 1 else 0) :
    Effect scene gain loss memory ((slotPins slot).set val memory) := by
  refine ⟨fun steady => ⟨steady.current, steady.incarnation, fun other => ?_, fun other => ?_,
    steady.words, fun other => ?_⟩,
    levels_of_one gains (by simpa [level, pins_after] using own) fun counter ne => ?_,
    fun record fit _ => by cases record <;> exact fit, fun _ => id⟩
  · rw [pins_after, ← steady.states other]
    split <;> simp_all
  · rw [pins_after, ← steady.versions other]
    split <;> simp_all
  · rw [pins_after]
    split
    · exact small
    · exact steady.pins other
  · cases counter with
    | chunk => rfl
    | pins other =>
      rw [level, pins_after, if_neg fun wrong => ne (congrArg _ wrong)]
      rfl

/-- What is known of a version that is pinned: it is the current one, and tracked. -/
theorem Sane.pinned (sane : Sane scene stage memory)
    (has : stage.held = some (scene.pinOn version))
    (found : tracked scene.start.head version = some slot) :
    version = scene.start.head.current ∧ 0 < (memory.head.pins slot).pins ∧ (memory.head.pins slot).pins < 2 ^ 32 := by
  obtain ⟨-, -, now, -⟩ := sane.fit _ has
  exact ⟨now, sane.alive _ has (.pins slot) (by simp [Scene.resource, found]), sane.steady.pins slot⟩

/-- A pin's count goes down by one. -/
theorem move_unpin {val : Nat} (sane : Sane scene stage memory)
    (gives : Gives call stage (scene.pinOn version))
    (found : tracked scene.start.head version = some slot) (fewer : (memory.head.pins slot).pins = val + 1)
    (falls : site = .unpin slot ∨ site = .exchangePins slot) :
    Move scene call who memory ((slotPins slot).set val memory) site stage .nothing := by
  obtain ⟨-, -, small⟩ := sane.pinned gives.held found
  have named : scene.resource (scene.pinOn version) = some (.pins slot) := by
    simp [Scene.resource, found]
  refine .give gives (effect_pins (by omega) (by simp) (by simp [fewer])) named ?_ rfl (by simp)
  rcases falls with rfl | rfl <;> exact if_pos (by simp [level, pins_after]; omega)

theorem does_unpin (gives : Gives call part.stage (scene.pinOn version))
    (found : tracked scene.start.head version = some slot) :
    Does scene call who (unpin slot) (fun _ later => version = scene.start.head.current ∧
      later = ⟨.nothing, part.due⟩) part := by
  refine does_act rfl (fun _ _ => ⟨rfl, rfl⟩) fun memory sane _ => ?_
  obtain ⟨now, some, small⟩ := sane.pinned gives.held found
  refine ⟨_, move_unpin sane gives found ?_ (.inl rfl), now, rfl⟩
  show _ = ((memory.head.pins slot).pins + 2 ^ 32 - 1) % 2 ^ 32 + 1
  omega

theorem does_releaseLeakedPin (won : part.stage = .won (scene.pinOn version))
    (releases : call.releases = true) (found : (tracked scene.start.head version).isSome) :
    Does scene call who (releaseLeakedPin scene.artifact version) (fun _ later =>
      later = ⟨.nothing, part.due⟩) part := by
  have gives : Gives call part.stage (scene.pinOn version) := .inl ⟨won, releases⟩
  refine wp_then (does_findSlot version) ?_
  rintro _ _ ⟨rfl, rfl⟩
  obtain ⟨slot, found⟩ := Option.isSome_iff_exists.mp found
  simp only [found]
  refine wp_bind (wp_bind (does_load rfl fun memory sane => ?_))
  obtain ⟨now, some, -⟩ := sane.pinned gives.held found
  refine wp_repeatFrom (fun cur later => later = _ ∧ 0 < cur) ?_ ⟨rfl, some⟩
  rintro cur _ ⟨rfl, some⟩
  rw [if_neg (by omega)]
  refine wp_bind (does_exchange rfl (fun _ _ => ⟨rfl, rfl⟩) (fun memory sane _ got =>
    ⟨_, move_unpin sane gives found ?_ (.inr rfl), ?_⟩)
    fun memory sane => ⟨rfl, (sane.pinned gives.held found).2.1⟩)
  · change (memory.head.pins slot).pins = cur at got
    omega
  · show Does scene call who (if cur = 1 then _ else _) _ _
    split
    · exact wp_then (does_retireUnlessCurrent now) fun _ _ same => same
    · rfl

theorem tracked_spec {head : ArtifactHead} (found : tracked head version = some slot) :
    (head.pins slot).state = .live ∧ (head.pins slot).version = version := by
  simpa using List.find?_some found

theorem does_undoPin (gives : Gives call part.stage (scene.pinOn version))
    (found : tracked scene.start.head version = some slot) :
    Does scene call who (undoPin scene.artifact.pool slot) (fun _ later => later = ⟨.nothing, part.due⟩) part := by
  refine wp_then (does_unpin gives found) ?_
  rintro prev _ ⟨now, rfl⟩
  split
  · rfl
  · refine wp_bind (does_load rfl fun memory sane => ?_)
    split
    · rfl
    · exact does_retireUnlessCurrent (((sane.steady.versions slot).trans (tracked_spec found).2).trans now)

theorem does_readManifestChecked (manifest : PackedRef) (artifactId version : Nat) :
    Does scene call who (readManifestChecked scene.artifact.pool manifest artifactId version)
      (fun _ later => later = part)
      part := by
  have read : Does scene call who (readManifest scene.artifact.pool manifest) (fun _ later => later = part) part := by
    unfold readManifest
    split
    · rfl
    · refine wp_bind (does_load rfl fun memory _ => ?_)
      split <;> rfl
  refine wp_then read ?_
  rintro (reason | found) _ rfl
  · rfl
  · show Does scene call who (ite _ _ _) _ _
    split <;> rfl

end

end ShmActors.Node.Borrowing
