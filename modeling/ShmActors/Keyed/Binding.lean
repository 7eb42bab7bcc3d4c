import ShmActors.Keyed.Search

/-! Keys and entries: in the runs in which no slot is freed under an open or an
evict that has read it as live, an evict marks and tears down entries of its key
only, and an open returns one of its key. -/

namespace ShmActors.Keyed

open Lib Core Program Function Actors
open Artifact (ArtifactHead Handle Pool EntryState EntryWord noIncarnation)

section

variable {Content : Type}

/-- No slot is freed while another open or evict has read it as live and has not
done with it. -/
def Unwatched (actor : Nat) (site : KeyCall × KeySite) (_ : Store Content) (ledger : Ledger) : Prop :=
  match site.2 with
  | .table (.storeWord idx .free) => ∀ entry ∈ ledger.watched, entry.1 ≠ actor → entry.2 ≠ idx
  | _ => True

instance (actor : Nat) (site : KeyCall × KeySite) (store : Store Content) (ledger : Ledger) :
    Decidable (Unwatched actor site store ledger) := by
  unfold Unwatched
  split <;> infer_instance

/-- What the calls on a key do to entries, access by access. -/
structure Bound (catalog : Catalog) (config : KeyRun Content) : Prop where
  /-- An evict takes no slot out of service but one of its key. -/
  strikes : ∀ actor own keyId label update next idx,
    config.thread actor = .running own (.evict keyId) (.act label update next) →
    (config.state.table.slot idx).word.state = .live → ((update config.state).table.slot idx).word.state ≠ .live →
    (config.state.table.slot idx).keyId = keyId
  /-- An evict works on no head but that of an entry published under its key. -/
  tears : ∀ actor own keyId call headOff access update next,
    config.thread actor = .running own (.evict keyId) (.act (call, .head headOff access) update next) →
    ∃ idx < catalog.capacity, headOff = catalog.headOffFor idx ∧
      config.history.published idx (config.state.table.slot idx).word.gen = some keyId
  /-- An open about to return is attached to an entry published under its key. -/
  opens : ∀ actor own keyId call entry update next,
    config.thread actor = .running own (.open keyId)
      (.act (call, .returned (.opened (.ok entry))) update next) →
    ∃ idx < catalog.capacity, entry.headOff = catalog.headOffFor idx ∧
      entry.artifact.nameId = catalog.artifactIdFor idx ∧
      config.history.published idx entry.artifact.incarnation = some keyId

end

section

variable {Content : Type}

/-- A slot an actor has read as live is still in the hands of that occupant. -/
structure Attends (ledger : Ledger) (store : Store Content) (actor idx gen : Nat) : Prop where
  watched : (actor, idx) ∈ ledger.watched
  same : (store.table.slot idx).word.gen = gen
  used : (store.table.slot idx).word.state ≠ .free

/-- What a call has read of the entry it found. -/
structure Reads (catalog : Catalog) (idx gen : Nat) (seen : Seen) : Prop where
  name : ∀ name ∈ seen.name, name = catalog.artifactIdFor idx
  place : ∀ headOff ∈ seen.place, headOff = catalog.headOffFor idx
  artifact : ∀ artifact ∈ seen.artifact, artifact.nameId = catalog.artifactIdFor idx ∧ artifact.incarnation = gen

/-- What a call that looks for a key knows. -/
def Minds (catalog : Catalog) (ledger : Ledger) (store : Store Content) (actor keyId : Nat) : Look → Prop
  | .peeked idx gen _ => Attends ledger store actor idx gen
  | .found idx gen seen =>
    Attends ledger store actor idx gen ∧ ledger.published idx gen = some keyId ∧ Reads catalog idx gen seen
  | .ready idx gen entry => idx < catalog.capacity ∧ ledger.published idx gen = some keyId ∧
      entry.headOff = catalog.headOffFor idx ∧ entry.artifact.nameId = catalog.artifactIdFor idx ∧
      entry.artifact.incarnation = gen
  | .aimed idx gen expected =>
    Attends ledger store actor idx gen ∧ ledger.published idx gen = some keyId ∧ expected = gen
  | .struck idx gen place =>
    Attends ledger store actor idx gen ∧ ledger.published idx gen = some keyId ∧
      ∀ headOff ∈ place, headOff = catalog.headOffFor idx
  | _ => True

structure Mindful (catalog : Catalog) (ledger : Ledger) (store : Store Content) (phases : Nat → KeyPhase) : Prop where
  steady : Steady catalog ledger store phases
  minds : ∀ actor call keyId, (phases actor).call = some call → call.seeks = some keyId →
    Minds catalog ledger store actor keyId (phases actor).look

end

section

variable {ledger : Ledger} {old new : Store Content} {call : KeyCall} {site : KeySite}
  {actor other keyId idx gen : Nat}

/-- Accesses after which an actor watches what it watched. -/
def Lasting : KeySite → Prop
  | .table (.scanState _) | .table (.scanKey _) | .returned _ => False
  | _ => True

theorem mem_note_watched (present : entry ∈ ledger.watched) (kept : entry.1 ≠ actor ∨ Lasting site) :
    entry ∈ (ledger.note catalog actor (call, site) old new).watched := by
  have leaves (theirs : entry.1 ≠ actor) : entry ∈ leave actor ledger.watched :=
    List.mem_filter.mpr ⟨present, by simpa using theirs⟩
  cases site with
  | table access =>
    simp only [Ledger.note, watches]
    split
    · split
      · exact List.mem_cons_of_mem _ (leaves (kept.resolve_right id))
      · exact present
    · split
      · exact present
      · exact leaves (kept.resolve_right id)
    · exact present
  | head => exact present
  | returned => exact leaves (kept.resolve_right id)

/-- What an access leaves a call that looks for a key: its slot is not freed, and
it watches it still. -/
structure Spares (actor : Nat) (site : KeySite) (ledger : Ledger) (other : Nat) : Prop where
  lasting : other ≠ actor ∨ Lasting site
  kept : ∀ idx, (other, idx) ∈ ledger.watched → site ≠ .table (.storeWord idx .free)

theorem spares_other (unwatched : Unwatched actor (call, site) old ledger) (ne : other ≠ actor) :
    Spares actor site ledger other := by
  refine ⟨.inl ne, ?_⟩
  rintro idx watched rfl
  exact unwatched _ watched ne rfl

theorem KeyCall.key_of_seeks (seeks : call.seeks = some keyId) : call.key = keyId := by
  cases call <;> simp_all [KeyCall.seeks, KeyCall.key]

/-- A slot attended to has the key it was published under, or none. -/
theorem Attends.published (steady : Steady catalog ledger old phases) (attends : Attends ledger old actor idx gen)
    (keyed : (old.table.slot idx).keyId = keyId) (issued : keyId ≠ 0) : ledger.published idx gen = some keyId := by
  obtain ⟨key, known, same | ⟨_, cleared⟩⟩ := (steady.sound.kept idx attends.used).key
  · rw [← attends.same, known, ← keyed, same]
  · exact absurd (keyed.symm.trans cleared) issued

/-- A call that looks for a key has nothing in hand. -/
theorem Steady.seeking (steady : Steady catalog ledger old phases)
    (moved : Moved catalog pool call site (phases actor) later old new) (seeks : call.seeks = some keyId)
    (key idx : Nat) (stage : Stage) : (phases actor).custody ≠ .hand key idx stage := by
  intro hand
  obtain ⟨kind, called⟩ := steady.handed actor key idx stage hand
  rcases moved.under with same | ⟨resting, _⟩
  · rw [called] at same
    obtain rfl := Option.some.inj same
    cases seeks
  · rw [resting] at called
    cases called

theorem Plain.lasting (plain : Plain call site custody look old new)
    (seeks : call.seeks = some keyId) : Lasting site ∧ ∀ idx, site ≠ .table (.storeWord idx .free) := by
  cases site with
  | returned => exact plain.elim
  | head => exact ⟨trivial, nofun⟩
  | table access =>
    cases access with
    | scanState | scanKey => exact plain.elim
    | storeWord idx goal =>
      refine ⟨trivial, ?_⟩
      rintro _ ⟨⟩
      obtain rfl : call = .sweep := plain
      cases seeks
    | _ => exact ⟨trivial, nofun⟩

/-- What a call under way that looks for a key knows. -/
theorem Mindful.knows (mindful : Mindful catalog ledger old phases)
    (moved : Moved catalog pool call site (phases actor) later old new) (seeks : call.seeks = some keyId) :
    Minds catalog ledger old actor keyId (phases actor).look := by
  rcases moved.under with called | ⟨resting, _⟩
  · exact mindful.minds actor call keyId called seeks
  · rw [resting]
    trivial

section

variable (step : Stepping catalog pool ledger phases actor call site later old new)

include step

theorem Attends.stays (spares : Spares actor site ledger other)
    (attends : Attends ledger old other idx gen) :
    Attends (ledger.note catalog actor (call, site) old new) new other idx gen := by
  rcases Turn.used step.steady.sound step.orderly step.apart step.moved.turn attends.used with ⟨used, same⟩ | freed
  · exact ⟨mem_note_watched attends.watched spares.lasting, same.trans attends.same, used⟩
  · exact absurd freed (spares.kept idx attends.watched)

theorem Minds.stays (spares : Spares actor site ledger other)
    (minds : Minds catalog ledger old other keyId look) :
    Minds catalog (ledger.note catalog actor (call, site) old new) new other keyId look := by
  have attended {idx gen : Nat} (attends : Attends ledger old other idx gen) :=
    attends.stays step spares
  have published {idx gen : Nat} (known : ledger.published idx gen = some keyId) :=
    Turn.published step.steady.sound step.moved.turn known
  cases look with
  | peeked => exact attended minds
  | found => exact ⟨attended minds.1, published minds.2.1, minds.2.2⟩
  | ready => exact ⟨minds.1, published minds.2.1, minds.2.2⟩
  | aimed => exact ⟨attended minds.1, published minds.2.1, minds.2.2⟩
  | struck => exact ⟨attended minds.1, published minds.2.1, minds.2.2⟩
  | idle | scanning | lost => trivial

/-- The actor that moves goes on knowing what it has read. -/
theorem Mindful.minds_self (mindful : Mindful catalog ledger old phases) (got : later.look ≠ .lost)
    (issued : call.issued) (seeks : call.seeks = some keyId) (under : callAfter call site ≠ none) :
    Minds catalog (ledger.note catalog actor (call, site) old new) new actor keyId later.look := by
  obtain ⟨_, steady, orderly, _, moved⟩ := id step
  have unhanded := steady.seeking moved seeks
  have minds := mindful.knows moved seeks
  have stays (lasting : Lasting site) (kept : ∀ idx, site ≠ .table (.storeWord idx .free)) {look : Look} :
      Minds catalog ledger old actor keyId look →
        Minds catalog (ledger.note catalog actor (call, site) old new) new actor keyId look :=
    Minds.stays step ⟨.inr lasting, fun idx _ => kept idx⟩
  have glance := moved.glance
  generalize later.look = look' at glance got
  generalize (phases actor).look = look at glance minds
  generalize (phases actor).custody = custody at glance unhanded
  cases glance with
  | still plain => exact stays (plain.lasting seeks).1 (plain.lasting seeks).2 minds
  | begin | pass | skip | release => trivial
  | @peek _ _ idx rest _ live =>
    refine ⟨?_, rfl, by simp [live]⟩
    simp [Ledger.note, watches, seeks, live]
  | @find _ _ idx gen rest _ same =>
    rw [KeyCall.key_of_seeks seeks] at same
    have positive : keyId ≠ 0 := by
      cases call <;> cases seeks <;> exact issued
    refine ⟨⟨?_, minds.same, minds.used⟩, ?_, nofun, nofun, nofun⟩
    · simpa [Ledger.note, watches, seeks, same] using minds.watched
    · exact Turn.published steady.sound moved.turn (minds.published steady same positive)
  | name =>
    have kept := steady.sound.kept _ minds.1.used
    exact stays trivial nofun ⟨minds.1, minds.2.1, by rintro _ ⟨⟩; exact kept.name, minds.2.2.place, minds.2.2.artifact⟩
  | place =>
    have kept := steady.sound.kept _ minds.1.used
    exact stays trivial nofun ⟨minds.1, minds.2.1, minds.2.2.name, by rintro _ ⟨⟩; exact kept.place, minds.2.2.artifact⟩
  | attach named placed serving =>
    have kept := steady.sound.kept _ minds.1.used
    refine stays trivial nofun ⟨minds.1, minds.2.1, minds.2.2.name, minds.2.2.place, ?_⟩
    rintro _ ⟨⟩
    rw [minds.2.2.place _ placed] at serving ⊢
    refine ⟨minds.2.2.name _ named, ?_⟩
    rw [← minds.1.same]
    exact kept.incarnation.resolve_right fun retired => serving retired.2
  | key => exact stays trivial nofun ⟨minds.1, minds.2.1, minds.2.2.name, minds.2.2.place, minds.2.2.artifact⟩
  | kind attached placed keyed =>
    exact stays trivial nofun ⟨(orderly.used _ minds.1.used).2, minds.2.1, minds.2.2.place _ placed,
      minds.2.2.artifact _ attached⟩
  | publish => exact absurd rfl (unhanded _ _ _)
  | lose => exact absurd rfl got
  | aim => exact stays trivial nofun ⟨minds.1, minds.2.1, minds.1.same⟩
  | strike => exact stays trivial nofun ⟨minds.1, minds.2.1, nofun⟩
  | locate =>
    have kept := steady.sound.kept _ minds.1.used
    exact stays trivial nofun ⟨minds.1, minds.2.1, by rintro _ ⟨⟩; exact kept.place⟩
  | done => exact absurd rfl under

theorem Mindful.moved (mindful : Mindful catalog ledger old phases)
    (unwatched : Unwatched actor (call, site) old ledger) (issued : call.issued) :
    Mindful catalog (ledger.note catalog actor (call, site) old new) new
      (Function.update phases actor later) := by
  have steady := step.keeps
  refine ⟨steady, fun other doing keyId => ?_⟩
  by_cases same : other = actor
  · subst other
    have got := steady.found actor
    rw [update_self] at got ⊢
    intro called seeks
    rw [step.moved.next] at called
    have under : callAfter call site ≠ none := by simp [called]
    obtain rfl : call = doing := by
      cases site with
      | table | head => exact Option.some.inj called
      | returned => cases called
    exact mindful.minds_self step got issued seeks under
  · rw [update_of_ne same]
    intro called seeks
    exact (mindful.minds other doing keyId called seeks).stays step (spares_other unwatched same)

end

theorem Mindful.strikes (ne : catalog.Apart) (mindful : Mindful catalog ledger old phases)
    (orderly : Orderly catalog old.table ledger.floor.2)
    (moved : Moved catalog pool (.evict keyId) site (phases actor) later old new)
    (live : (old.table.slot idx).word.state = .live) (dead : (new.table.slot idx).word.state ≠ .live) :
    (old.table.slot idx).keyId = keyId := by
  have sound := mindful.steady.sound
  have used : (old.table.slot idx).word.state ≠ .free := by simp [live]
  have loose : ¬(phases actor).custody.of idx := by
    intro mine
    have idle := sound.idle orderly mine
    simp [live] at idle
  obtain ⟨_, same | ⟨rfl, _⟩ | ⟨marked, _⟩⟩ :=
    Turn.beside sound orderly ne moved.turn (orderly.used idx used).2 loose
  · rw [same] at dead
    exact absurd live dead
  · have unhanded := mindful.steady.seeking moved rfl
    have minds := mindful.knows moved rfl
    have glance := moved.glance
    generalize later.look = look' at glance
    generalize (phases actor).look = look at glance minds
    generalize (phases actor).custody = custody at glance unhanded
    cases glance with
    | still plain =>
      have unchanged : (new.table.slot idx).word = (old.table.slot idx).word := plain
      rw [unchanged] at dead
      exact absurd live dead
    | lose => exact absurd rfl (unhanded _ _ _)
    | strike got =>
      obtain ⟨attends, published, _⟩ := minds
      obtain ⟨key, known, keyed | ⟨other, _⟩⟩ := (sound.kept idx used).key
      · rw [attends.same, published] at known
        rw [keyed, Option.some.inj known]
      · exact absurd live other
  · rw [live] at marked
    cases marked

theorem Mindful.tears
    (mindful : Mindful catalog ledger old phases) (orderly : Orderly catalog old.table ledger.floor.2)
    (moved : Moved catalog pool (.evict keyId) (.head headOff access) (phases actor) later old new) :
    ∃ idx < catalog.capacity, headOff = catalog.headOffFor idx ∧
      ledger.published idx (old.table.slot idx).word.gen = some keyId := by
  have holds := mindful.steady.sound.holds actor
  have minds := mindful.knows moved rfl
  have glance := moved.glance
  have located {idx gen : Nat} (attends : Attends ledger old actor idx gen)
      (published : ledger.published idx gen = some keyId) (place : headOff = catalog.headOffFor idx) :
      ∃ idx < catalog.capacity, headOff = catalog.headOffFor idx ∧
        ledger.published idx (old.table.slot idx).word.gen = some keyId :=
    ⟨idx, (orderly.used idx attends.used).2, place, by rw [attends.same]; exact published⟩
  generalize later.look = look' at glance
  generalize (phases actor).look = look at glance minds
  generalize (phases actor).custody = custody at glance holds
  cases glance with
  | still plain =>
    obtain ⟨idx, gen, place, rfl, rfl | ⟨_, _, _, rfl⟩⟩ := plain
    · exact located minds.1 minds.2.1 (minds.2.2 headOff rfl)
    · exact located minds.1 minds.2.1 (holds.2.1 headOff rfl)
  | attach _ placed _ => exact located minds.1 minds.2.1 (minds.2.2.place headOff placed)

theorem Mindful.opens (mindful : Mindful catalog ledger old phases)
    (moved : Moved catalog pool (.open keyId) (.returned (.opened (.ok entry))) (phases actor) later old new) :
    ∃ idx < catalog.capacity, entry.headOff = catalog.headOffFor idx ∧
      entry.artifact.nameId = catalog.artifactIdFor idx ∧
      ledger.published idx entry.artifact.incarnation = some keyId := by
  have got := mindful.steady.found actor
  have minds := mindful.knows moved rfl
  have glance := moved.glance
  generalize later.look = look' at glance
  generalize (phases actor).look = look at glance minds got
  generalize (phases actor).custody = custody at glance
  cases glance with
  | still plain => exact plain.elim
  | done answers =>
    rcases answers with lost | ⟨idx, gen, rfl⟩
    · exact absurd lost got
    · obtain ⟨inside, published, place, name, rfl⟩ := minds
      exact ⟨idx, inside, place, name, published⟩

end

section

variable {Content : Type} {catalog : Catalog} {pool : Pool}

theorem mindful_keeps (ne : catalog.Apart) :
    (storeUsers catalog pool Unwatched).KeepsGiven
      (fun ledger (store : Store Content) => Orderly catalog store.table ledger.floor.2) (keyMoves catalog pool)
      (Mindful catalog) := by
  intro call who site later old new ledger phases orderly orderly' mindful may move
  obtain ⟨called, access⟩ := site
  obtain ⟨rfl, issued, ⟨lost, _⟩ | moved⟩ := move
  · exact absurd lost (mindful.steady.found who)
  · exact mindful.moved ⟨ne, mindful.steady, orderly, orderly', moved⟩ may.2 issued

/-- Evicts and opens of a key are bound to its entries. -/
theorem bound_of_reachable {config : KeyRun Content} (apart : catalog.Apart)
    (reached : (storeUsers catalog pool Unwatched).Reachable (emptyStore Content pool) config) :
    Bound catalog config := by
  have orderly := orderly_of_reachable reached
  have guided : (storeUsers catalog pool Unwatched).Guided (keyMoves catalog pool) (Mindful catalog) Between
      (fun _ _ => True) config := by
    refine guided_of_known ?_ reached (fun _ _ _ _ _ _ _ _ => trivial)
      (fun _ call phase issued between => ⟨trivial, follows_program issued between⟩)
      (mindful_keeps apart) orderly_of_reachable
    exact ⟨fun _ => .resting, ⟨steady_empty catalog pool, nofun⟩, fun _ => .inl rfl⟩
  obtain ⟨phases, mindful, threads⟩ := guided
  have moves {actor : Nat} {own : Unit} {call : KeyCall} {label : KeyCall × KeySite}
      {update : Store Content → Store Content} {next : Store Content → Program _ _ KeyAnswer}
      (running : config.thread actor = .running own call (.act label update next)) :
      ∃ later, Moved catalog pool call label.2 (phases actor) later config.state (update config.state) := by
    have follows := threads actor
    rw [running] at follows
    obtain ⟨later, ⟨_, _, ⟨lost, _⟩ | moved⟩, _⟩ := follows.2 config.state
    · exact absurd lost (mindful.steady.found actor)
    · exact ⟨later, moved⟩
  refine ⟨fun actor own keyId label update next idx running live dead => ?_,
    fun actor own keyId call headOff access update next running => ?_,
    fun actor own keyId call entry update next running => ?_⟩
  · obtain ⟨later, moved⟩ := moves running
    exact mindful.strikes apart orderly moved live dead
  · obtain ⟨later, moved⟩ := moves running
    exact mindful.tears orderly moved
  · obtain ⟨later, moved⟩ := moves running
    exact mindful.opens moved

end

/-- An entry is opened, and evicted with its slot created anew for another key;
then the second key is opened while the first is created and opened again. -/
def following : List (Stretch KeyCall) :=
  [.begin 0 (.create 7 .artifact), .run 0 40 1, .begin 1 (.open 7), .run 1 40 1, .begin 0 (.evict 7), .run 0 400 1,
    .begin 0 (.create 8 .artifact), .run 0 40 1, .begin 1 (.open 8), .run 1 8 1, .begin 2 (.create 7 .object),
    .run 2 40 1]

theorem following_bound :
    let config := (storeUsers pair tiny Unwatched).follow following (emptyStore Unit tiny)
    config.history.published 0 1 = some 7 ∧ config.history.published 0 2 = some 8 ∧ Bound pair config := by
  have reached : (storeUsers pair tiny Unwatched).Reachable (emptyStore Unit tiny)
      ((storeUsers pair tiny Unwatched).follow following (emptyStore Unit tiny)) :=
    reachable_follow following .refl
  exact ⟨by decide +kernel, by decide +kernel, bound_of_reachable pair_apart reached⟩

/-- An evict finds its key's slot; before it reads the generation the entry is
evicted and the slot created anew for another key. -/
def overtaken : List (Stretch KeyCall) :=
  [.begin 0 (.create 7 .artifact), .run 0 40 1, .begin 0 (.evict 7), .run 0 3 1, .begin 1 (.evict 7), .run 1 400 1,
    .begin 1 (.create 8 .artifact), .run 1 40 1, .run 0 1 1]

theorem overtaken_not_bound : ∃ config : KeyRun Unit, pair.Apart ∧
    (storeUsers pair tiny anyInterleaving).Reachable (emptyStore Unit tiny) config ∧ ¬Bound pair config := by
  refine ⟨(storeUsers pair tiny anyInterleaving).follow overtaken (emptyStore Unit tiny), pair_apart,
    reachable_follow overtaken .refl, fun bound => ?_⟩
  have live : (((storeUsers pair tiny anyInterleaving).follow overtaken (emptyStore Unit tiny)).state.table.slot
      0).word.state = .live := by decide +kernel
  have other : (((storeUsers pair tiny anyInterleaving).follow overtaken (emptyStore Unit tiny)).state.table.slot
      0).keyId = 8 := by decide +kernel
  have strikes : (((storeUsers pair tiny anyInterleaving).follow overtaken (emptyStore Unit tiny)).upcoming 0).map
      (fun coming => (coming.1, (coming.2.2.table.slot 0).word.state)) = some (.evict 7, .tombstone) := by
    decide +kernel
  obtain ⟨⟨op, site, after⟩, coming, same⟩ := Option.map_eq_some_iff.mp strikes
  obtain ⟨rfl, dead⟩ := Prod.mk.inj same
  obtain ⟨own, update, next, running, rfl⟩ := Config.running_of_upcoming coming
  have seven := bound.strikes 0 own 7 site update next 0 running live (by rw [dead]; nofun)
  rw [other] at seven
  cases seven

end ShmActors.Keyed
