import ShmActors.Keyed.Search

/-! One entry a key: in the runs in which no two creates of a key overlap, and no
create of a key overlaps the eviction of its entry, a key has at most one live
slot, and a create returns what an open would. -/

namespace ShmActors.Keyed

open Lib Core Program Actors
open Artifact (ArtifactHead Handle Pool EntryState EntryWord noIncarnation attachAt)

section

variable {Content : Type}

/-- No create of a key begins, and no entry of it is struck, while a create of
the key is under way. -/
def Undisputed (_ : Nat) (site : KeyCall × KeySite) (store : Store Content) (ledger : Ledger) : Prop :=
  match site with
  | (.create keyId _, .table .loadNext) => ∀ entry ∈ ledger.creating, entry.2 ≠ keyId
  | (_, .table (.exchangeWord idx .tombstone)) => (store.table.slot idx).word.state = .live →
      ∀ entry ∈ ledger.creating, entry.2 ≠ (store.table.slot idx).keyId
  | _ => True

instance (actor : Nat) (site : KeyCall × KeySite) (store : Store Content) (ledger : Ledger) :
    Decidable (Undisputed actor site store ledger) := by
  unfold Undisputed
  split <;> infer_instance

/-- A slot that holds the entry of a key. -/
def Live (keyId : Nat) (store : Store Content) (idx : Nat) : Prop :=
  (store.table.slot idx).word.state = .live ∧ (store.table.slot idx).keyId = keyId

/-- A key has one entry at most, and a create about to return has the one an open
would return, run there and then. -/
structure OneEntry (catalog : Catalog) (pool : Pool) (config : KeyRun Content) : Prop where
  single : ∀ keyId first second, Live keyId config.state first → Live keyId config.state second → first = second
  returns : ∀ actor own keyId kind call entry update next,
    config.thread actor = .running own (.create keyId kind)
      (.act (call, .returned (.created (.ok entry))) update next) →
    ((openId catalog pool keyId).alone config.state).map Prod.fst = some (.ok entry)

end

section

variable {Content : Type} {pool : Pool} {store : Store Content} {idx : Nat}

theorem alone_cat (code : TableAct Value) (store : Store Content) :
    (cat code : KeyAct Content Value).alone store =
      (code.alone store.table).map fun done => (done.1, { store with table := done.2 }) :=
  alone_within (fun _ _ => rfl) (fun _ _ _ => rfl) (fun _ => rfl) code store

/-- A scan on its own finds the first slot of its key. -/
theorem alone_scan (keyId : Nat) (table : Table) (slots : List Nat) :
    (Catalog.scan keyId slots).alone table =
      some (slots.find? fun idx => (table.slot idx).word.state = .live && (table.slot idx).keyId = keyId, table) := by
  induction slots with
  | nil => rfl
  | cons idx rest ih =>
    show (ite ((table.slot idx).word.state = .live) _ _ : TableAct (Option Nat)).alone table = _
    by_cases live : (table.slot idx).word.state = .live
    · rw [if_pos live]
      show (ite ((table.slot idx).keyId = keyId) _ _ : TableAct (Option Nat)).alone table = _
      by_cases same : (table.slot idx).keyId = keyId
      · rw [if_pos same, List.find?_cons_of_pos (by simp [live, same])]
        rfl
      · rw [if_neg same, List.find?_cons_of_neg (by simp [same]), ih]
    · rw [if_neg live, List.find?_cons_of_neg (by simp [live]), ih]

/-- The entry at a slot. -/
def described (pool : Pool) (store : Store Content) (idx : Nat) : Entry where
  artifact := ⟨(store.table.slot idx).artifactId, store.incarnation (store.table.slot idx).headOff, pool⟩
  headOff := (store.table.slot idx).headOff
  keyId := (store.table.slot idx).keyId
  kind := (store.table.slot idx).kind

theorem alone_attachAt {headOff : Nat} (name : Nat) (serving : store.incarnation headOff ≠ noIncarnation) :
    (on headOff (attachAt name pool) : KeyAct Content _).alone store =
      some (some ⟨name, store.incarnation headOff, pool⟩, store) := by
  have unchanged : (shelfAt headOff).set ((shelfAt headOff).get store) store = store := by
    simp [shelfAt]
  show ((ite (store.incarnation headOff = noIncarnation) _ _ : Artifact.StoreAct Content _).within _ _).alone
    ((shelfAt headOff).set ((shelfAt headOff).get store) store) = _
  rw [if_neg serving, unchanged]
  rfl

theorem alone_load (site : TableSite) (cell : Ref Table Value) (store : Store Content) :
    (cat (load site cell) : KeyAct Content Value).alone store = some (cell.get store.table, store) := rfl

theorem alone_entryAt (serving : store.incarnation (store.table.slot idx).headOff ≠ noIncarnation) :
    (entryAt pool idx : KeyAct Content _).alone store = some (.ok (described pool store idx), store) := by
  have attached := @alone_attachAt Content pool store _ (store.table.slot idx).artifactId serving
  unfold entryAt
  rw [alone_bind, alone_load, Option.bind_some, alone_bind, alone_load, Option.bind_some, alone_bind]
  show Option.bind ((on (store.table.slot idx).headOff
    (attachAt (store.table.slot idx).artifactId pool)).alone store) _ = _
  rw [attached]
  rfl

/-- An open on its own, of a key with one entry. -/
theorem alone_openId (live : Live keyId store idx)
    (range : idx < min store.table.nextSlot catalog.capacity) (single : ∀ other, Live keyId store other → other = idx)
    (serving : store.incarnation (store.table.slot idx).headOff ≠ noIncarnation) :
    (openId catalog pool keyId).alone store = some (.ok (described pool store idx), store) := by
  have got : (List.range (min store.table.nextSlot catalog.capacity)).find? (fun idx =>
      (store.table.slot idx).word.state = .live && (store.table.slot idx).keyId = keyId) = some idx := by
    cases out : (List.range (min store.table.nextSlot catalog.capacity)).find? (fun idx =>
        (store.table.slot idx).word.state = .live && (store.table.slot idx).keyId = keyId) with
    | none =>
      have missed := List.find?_eq_none.mp out idx (List.mem_range.mpr range)
      exact absurd live (by simpa [Live] using missed)
    | some other =>
      have holds := List.find?_some out
      rw [single other (by simpa [Live] using holds)]
  have looked : (catalog.findLiveByKey keyId).alone store.table = some (some idx, store.table) := by
    show (Catalog.scan keyId (List.range (min store.table.nextSlot catalog.capacity))).alone store.table = _
    rw [alone_scan, got]
  unfold openId
  rw [alone_bind, alone_cat, looked]
  exact alone_entryAt serving

end

section

variable {Content : Type}

/-- What a create has read of the entry it found. -/
structure Agrees (pool : Pool) (store : Store Content) (idx : Nat) (seen : Seen) : Prop where
  name : ∀ name ∈ seen.name, name = (store.table.slot idx).artifactId
  place : ∀ headOff ∈ seen.place, headOff = (store.table.slot idx).headOff
  artifact : ∀ artifact ∈ seen.artifact, artifact = (described pool store idx).artifact
  key : ∀ keyId ∈ seen.key, keyId = (store.table.slot idx).keyId

/-- What a create knows of the slots of its key. -/
def Knows (pool : Pool) (keyId : Nat) (store : Store Content) : Custody → Look → Prop
  | .hand key _ _, look => key = keyId ∧ look = .scanning [] ∧ ∀ slot, ¬Live keyId store slot
  | .none, .scanning rest => ∀ slot, Live keyId store slot → slot ∈ rest
  | .none, .peeked idx _ rest => (∀ slot, Live keyId store slot → slot ∈ idx :: rest) ∧
      ((store.table.slot idx).keyId = keyId → Live keyId store idx)
  | .none, .found idx _ seen => Live keyId store idx ∧ Agrees pool store idx seen
  | .none, .ready idx _ entry => Live keyId store idx ∧ entry = described pool store idx
  | _, _ => False

/-- A create knows what it does. -/
def Informed (pool : Pool) (ledger : Ledger) (store : Store Content) (actor : Nat) (phase : KeyPhase) : Prop :=
  match phase.call with
  | some (.create keyId _) =>
    keyId ≠ 0 ∧ (actor, keyId) ∈ ledger.creating ∧ Knows pool keyId store phase.custody phase.look
  | _ => True

structure Undivided (catalog : Catalog) (pool : Pool) (ledger : Ledger) (store : Store Content)
    (phases : Nat → KeyPhase) : Prop where
  steady : Steady catalog ledger store phases
  /-- A key is being created by one actor at most. -/
  sole : ∀ first second keyId, (first, keyId) ∈ ledger.creating → (second, keyId) ∈ ledger.creating → first = second
  single : ∀ keyId first second, Live keyId store first → Live keyId store second → first = second
  informed : ∀ actor, Informed pool ledger store actor (phases actor)

/-- Nothing happens to the entries of a key. -/
structure Unmoved (catalog : Catalog) (keyId : Nat) (before after : Store Content) : Prop where
  older : ∀ slot, Live keyId after slot → Live keyId before slot
  stays : ∀ slot, Live keyId before slot → after.table.slot slot = before.table.slot slot ∧
    after.incarnation (before.table.slot slot).headOff = before.incarnation (before.table.slot slot).headOff
  keys : ∀ slot, (after.table.slot slot).keyId = keyId → (before.table.slot slot).keyId = keyId

end

section

variable {ledger : Ledger} {before new : Store Content} {phases : Nat → KeyPhase}

theorem Unmoved.live (unmoved : Unmoved catalog keyId before new) (live : Live keyId before slot) :
    Live keyId new slot := by
  unfold Live
  rw [(unmoved.stays slot live).1]
  exact live

theorem Unmoved.described (unmoved : Unmoved catalog keyId before new)
    (live : Live keyId before slot) : Keyed.described pool new slot = Keyed.described pool before slot := by
  obtain ⟨same, incarnation⟩ := unmoved.stays slot live
  simp only [Keyed.described, same, incarnation]

theorem Unmoved.agrees (unmoved : Unmoved catalog keyId before new)
    (live : Live keyId before slot) (agrees : Agrees pool before slot seen) : Agrees pool new slot seen := by
  have described : Keyed.described pool new slot = _ := unmoved.described live
  have same := (unmoved.stays slot live).1
  exact ⟨by rw [same]; exact agrees.name, by rw [same]; exact agrees.place,
    by rw [described]; exact agrees.artifact, by rw [same]; exact agrees.key⟩

theorem Unmoved.knows (unmoved : Unmoved catalog keyId before new)
    (knows : Knows pool keyId before custody look) : Knows pool keyId new custody look := by
  cases custody with
  | hand key idx stage => exact ⟨knows.1, knows.2.1, fun slot live => knows.2.2 slot (unmoved.older slot live)⟩
  | sweep => exact knows
  | none =>
    cases look with
    | scanning rest => exact fun slot live => knows slot (unmoved.older slot live)
    | peeked idx gen rest =>
      exact ⟨fun slot live => knows.1 slot (unmoved.older slot live),
        fun same => unmoved.live (knows.2 (unmoved.keys idx same))⟩
    | found idx gen seen => exact ⟨unmoved.live knows.1, unmoved.agrees knows.1 knows.2⟩
    | ready idx gen entry => exact ⟨unmoved.live knows.1, by rw [unmoved.described knows.1]; exact knows.2⟩
    | _ => exact knows

/-- A slot in hand is in the hand of the key's create. -/
theorem Undivided.creating (undivided : Undivided catalog pool ledger before phases)
    (hand : (phases who).custody = .hand keyId idx stage) :
    (who, keyId) ∈ ledger.creating ∧ ∀ slot, ¬Live keyId before slot := by
  obtain ⟨kind, called⟩ := undivided.steady.handed who keyId idx stage hand
  have informed := undivided.informed who
  simp only [Informed, called, hand] at informed
  obtain ⟨_, creating, _, _, nobody⟩ := informed
  exact ⟨creating, nobody⟩

/-- A create that has nothing in hand scans, finds the entry of its key, or takes
a slot when there is none. -/
theorem Moved.scanned (moved : Moved catalog pool (.create keyId kind) site (phases who) later before new)
    (under : callAfter (.create keyId kind) site ≠ none) (free : (phases who).custody = .none)
    (unmoved : Unmoved catalog keyId before new)
    (knows : Knows pool keyId before (phases who).custody (phases who).look) :
    Knows pool keyId new later.custody later.look := by
  have turn := moved.turn
  have glance := moved.glance
  have kept := unmoved.knows knows
  obtain ⟨later, custody', look'⟩ := later
  rw [free] at turn glance knows kept
  have idle (quiet : site ≠ .table .popExchange ∧ site ≠ .table .bump ∧
      ∀ idx, site ≠ .table (.exchangeWord idx .reclaiming)) : custody' = .none := by
    rcases turn.from_none with none | ⟨_, _, _, _, _, pop | bump⟩ | ⟨idx, _, _, claim, _⟩
    · exact none
    · exact absurd pop quiet.1
    · exact absurd bump quiet.2.1
    · exact absurd claim (quiet.2.2 idx)
  generalize look : (phases who).look = before' at glance knows kept
  cases glance with
  | still plain =>
    rcases turn.from_none with rfl | ⟨_, _, _, called, rfl, taken⟩ | ⟨idx, _, rfl, rfl, diff⟩
    · exact kept
    · obtain ⟨rfl, _⟩ := KeyCall.create.inj called
      obtain rfl : look' = .scanning [] := by
        rcases taken with rfl | rfl <;> exact plain
      exact ⟨rfl, rfl, fun slot live => by simpa using kept slot live⟩
    · rcases plain with same | called | ⟨_, _, rfl⟩
      · exact absurd same diff
      · cases called
      · exact knows
  | begin => exact knows.elim
  | pass dead =>
    rw [idle (by simp)]
    intro slot live
    have among := knows slot live
    rcases List.mem_cons.mp among with rfl | rest
    · exact absurd live.1 dead
    · exact rest
  | peek live =>
    rw [idle (by simp)]
    exact ⟨knows, fun same => ⟨live, same⟩⟩
  | skip other =>
    rw [idle (by simp)]
    intro slot live
    rcases List.mem_cons.mp (knows.1 slot live) with rfl | rest
    · exact absurd live.2 other
    · exact rest
  | find same =>
    rw [idle (by simp)]
    exact ⟨knows.2 same, nofun, nofun, nofun, nofun⟩
  | name =>
    rw [idle (by simp)]
    exact ⟨knows.1, by simp, knows.2.place, knows.2.artifact, knows.2.key⟩
  | place =>
    rw [idle (by simp)]
    exact ⟨knows.1, knows.2.name, by simp, knows.2.artifact, knows.2.key⟩
  | attach named placed serving =>
    rw [idle (by simp)]
    refine ⟨knows.1, knows.2.name, knows.2.place, ?_, knows.2.key⟩
    rintro _ ⟨⟩
    rw [knows.2.name _ named, knows.2.place _ placed]
    rfl
  | key =>
    rw [idle (by simp)]
    exact ⟨knows.1, knows.2.name, knows.2.place, knows.2.artifact, by simp⟩
  | kind attached placed keyed =>
    rw [idle (by simp)]
    refine ⟨knows.1, ?_⟩
    rw [knows.2.artifact _ attached, knows.2.place _ placed, knows.2.key _ keyed]
    rfl
  | strike | locate | release => exact knows.elim
  | done => exact absurd rfl under

theorem mem_note_creating (present : entry ∈ ledger.creating) (kept : entry.1 ≠ who ∨ callAfter call site ≠ none) :
    entry ∈ (ledger.note catalog who (call, site) before new).creating := by
  cases site with
  | table access =>
    simp only [Ledger.note, begins]
    split
    · exact List.mem_cons_of_mem _ present
    · exact present
  | head => exact present
  | returned =>
    refine List.mem_filter.mpr ⟨present, ?_⟩
    simpa [callAfter] using kept

/-- A create under way was, or has just begun. -/
theorem creating_of_note (present : entry ∈ (ledger.note catalog who (call, site) before new).creating) :
    entry ∈ ledger.creating ∨ entry.1 = who ∧ site = .table .loadNext ∧ ∃ kind, call = .create entry.2 kind := by
  cases site with
  | table access =>
    simp only [Ledger.note, begins] at present
    split at present
    · rcases List.mem_cons.mp present with rfl | old
      · exact .inr ⟨rfl, rfl, _, rfl⟩
      · exact .inl old
    · exact .inl present
  | head => exact .inl present
  | returned => exact .inl (List.mem_of_mem_filter present)

theorem Undivided.sole_after (undivided : Undivided catalog pool ledger before phases)
    (undisputed : Undisputed who (call, site) before ledger) (first two : Nat)
    (one : (first, keyId) ∈ (ledger.note catalog who (call, site) before new).creating)
    (other : (two, keyId) ∈ (ledger.note catalog who (call, site) before new).creating) : first = two := by
  have begun : site = .table .loadNext → (∃ kind, call = .create keyId kind) → ∀ creator,
      (creator, keyId) ∉ ledger.creating := by
    rintro rfl ⟨kind, rfl⟩ creator present
    exact undisputed _ present rfl
  rcases creating_of_note one with one | ⟨mine, at', called⟩
  · rcases creating_of_note other with other | ⟨_, at', called⟩
    · exact undivided.sole first two keyId one other
    · exact absurd one (begun at' called first)
  · rcases creating_of_note other with other | ⟨mine', _, _⟩
    · exact absurd other (begun at' called two)
    · exact mine.trans mine'.symm

variable (step : Stepping catalog pool ledger phases who call site later before new)

include step

/-- While a create of a key is under way, only a create that has a slot in hand
does anything to the entries of the key. -/
theorem Undivided.unmoved (undivided : Undivided catalog pool ledger before phases)
    (undisputed : Undisputed who (call, site) before ledger) (issued : keyId ≠ 0)
    (creating : (creator, keyId) ∈ ledger.creating)
    (apartFrom : ∀ idx stage, (phases who).custody ≠ .hand keyId idx stage) : Unmoved catalog keyId before new := by
  obtain ⟨ne, ⟨sound, _, _⟩, orderly, orderly', moved⟩ := step
  refine ⟨fun slot live => ?_, fun slot live => ?_, fun slot same => ?_⟩
  · have inside := (orderly'.used slot (by simp [live.1])).2
    rcases Turn.live_after sound orderly ne moved.turn inside live.1 with same | ⟨key, stage, hand, keyed, _⟩
    · unfold Live at live ⊢
      rw [← same.1]
      exact live
    · obtain rfl : keyId = key := live.2.symm.trans keyed
      exact absurd hand (apartFrom _ _)
  · have used : (before.table.slot slot).word.state ≠ .free := by simp [live.1]
    have inside := (orderly.used slot used).2
    have place := (sound.kept slot used).place
    have loose : ¬(phases who).custody.of slot := by
      intro mine
      have idle := sound.idle orderly mine
      simp [live.1] at idle
    obtain ⟨head, same | ⟨struck, _⟩ | ⟨dead, _⟩⟩ := Turn.beside sound orderly ne moved.turn inside loose
    · exact ⟨same, by rw [place]; exact head⟩
    · subst struck
      have fine : ∀ entry ∈ ledger.creating, entry.2 ≠ (before.table.slot slot).keyId := by
        unfold Undisputed at undisputed
        cases call <;> exact undisputed live.1
      exact absurd live.2.symm (fine _ creating)
    · simp [live.1] at dead
  · rcases moved.turn.key_after slot with old | ⟨key, stage, hand, keyed⟩ | cleared
    · rw [← old]
      exact same
    · obtain rfl : keyId = key := same.symm.trans keyed
      exact absurd hand (apartFrom _ _)
    · exact absurd (same.symm.trans cleared) issued

/-- A create that has a slot in hand fills it, and publishes it as the one entry
of its key. -/
theorem Stepping.filled (got : later.look ≠ .lost) (hand : (phases who).custody = .hand keyId idx stage)
    (knows : Knows pool keyId before (phases who).custody (phases who).look) :
    Knows pool keyId new later.custody later.look := by
  obtain ⟨ne, ⟨sound, _, _⟩, orderly, orderly', moved⟩ := step
  have holds := sound.holds who
  have turn := moved.turn
  have glance := moved.glance
  have lives := fun slot (inside : slot < catalog.capacity) => Turn.live_after sound orderly ne turn inside
  obtain ⟨later, custody', look'⟩ := later
  rw [hand] at turn glance knows holds lives
  obtain ⟨_, scanned, nobody⟩ := knows
  rw [scanned] at glance
  cases glance with
  | still plain =>
    rcases turn.from_hand with ⟨stage', rfl⟩ | ⟨_, rfl, diff⟩
    · refine ⟨rfl, rfl, fun slot live => ?_⟩
      rcases lives slot (orderly'.used slot (by simp [live.1])).2 live.1 with same | ⟨_, _, _, _, free, rfl⟩
      · refine nobody slot ?_
        unfold Live at live ⊢
        rw [← same.1]
        exact live
      · have unchanged : (new.table.slot slot).word = (before.table.slot slot).word := plain
        rw [← unchanged, live.1] at free
        cases free
    · exact absurd plain diff
  | lose => exact absurd rfl got
  | @publish _ _ _ _ gen kind _ _ stamped sorted diff =>
    cases turn with
    | still same _ => exact absurd (by rw [same.1]) diff
    | @publish _ _ _ _ gen' _ _ served keyed named located free amended =>
      obtain ⟨_, stampedAs, servedAs, keyedAs, namedAs, locatedAs, sortedAs⟩ := holds
      have stampedGen : gen' = gen := by
        have known := stampedAs gen stamped
        rw [free] at known
        exact known
      have slot : new.table.slot idx = { before.table.slot idx with word := ⟨gen', .live⟩ } := amended.slot_eq
      refine ⟨⟨by rw [slot], by rw [slot]; exact keyedAs keyed⟩, ?_⟩
      have serving : new.incarnation (catalog.headOffFor idx) = gen := by
        rw [amended.2, servedAs served, free, stampedGen]
      simp only [described, slot, namedAs named, locatedAs located, keyedAs keyed, sortedAs kind sorted, serving]

theorem Undivided.single_after (undivided : Undivided catalog pool ledger before phases) (first two : Nat)
    (one : Live keyId new first) (other : Live keyId new two) : first = two := by
  have source : ∀ slot, Live keyId new slot → Live keyId before slot ∨
      ∃ stage, (phases who).custody = .hand keyId slot stage := by
    intro slot live
    have inside := (step.ordered.used slot (by simp [live.1])).2
    rcases Turn.live_after step.steady.sound step.orderly step.apart step.moved.turn inside live.1 with
      same | ⟨key, stage, hand, keyed, _⟩
    · left
      unfold Live at live ⊢
      rw [← same.1]
      exact live
    · obtain rfl : keyId = key := live.2.symm.trans keyed
      exact .inr ⟨stage, hand⟩
  rcases source first one with old | ⟨stage, hand⟩
  · rcases source two other with old' | ⟨stage', hand'⟩
    · exact undivided.single keyId first two old old'
    · exact absurd old ((undivided.creating hand').2 first)
  · rcases source two other with old' | ⟨stage', hand'⟩
    · exact absurd old' ((undivided.creating hand).2 two)
    · exact (Custody.hand.inj (hand.symm.trans hand')).2.1

/-- The actor that moves goes on knowing what it does. -/
theorem Undivided.informed_create (undivided : Undivided catalog pool ledger before phases)
    (undisputed : Undisputed who (call, site) before ledger) (creates : call = .create keyId kind)
    (issued : keyId ≠ 0) (under : callAfter call site ≠ none) (got : later.look ≠ .lost) :
    (who, keyId) ∈ (ledger.note catalog who (call, site) before new).creating ∧
      Knows pool keyId new later.custody later.look := by
  subst creates
  have moved := step.moved
  rcases moved.under with called | ⟨resting, rfl⟩
  · have informed := undivided.informed who
    simp only [Informed, called] at informed
    obtain ⟨_, creating, knows⟩ := informed
    refine ⟨mem_note_creating creating (.inr under), ?_⟩
    cases custody : (phases who).custody with
    | none =>
      have unmoved := undivided.unmoved step undisputed issued creating (by simp [custody])
      exact moved.scanned under custody unmoved knows
    | hand key idx stage =>
      obtain rfl : key = keyId := by
        rw [custody] at knows
        exact knows.1
      exact step.filled got custody knows
    | sweep =>
      rw [custody] at knows
      exact knows.elim
  · refine ⟨List.mem_cons_self, ?_⟩
    have turn := moved.turn
    have glance := moved.glance
    obtain ⟨later, custody', look'⟩ := later
    rw [resting] at turn glance
    obtain rfl : custody' = .none := by
      rcases turn.from_none with none | ⟨_, _, _, _, _, pop | bump⟩ | ⟨_, _, _, claim, _⟩
      · exact none
      · cases pop
      · cases bump
      · cases claim
    generalize idle : KeyPhase.resting.look = before' at glance
    cases glance with
    | still plain => cases plain
    | begin =>
      intro slot live
      have used := step.orderly.used slot (by simp [live.1])
      exact List.mem_range.mpr (lt_min used.1 used.2)

theorem Undivided.informed_self (undivided : Undivided catalog pool ledger before phases)
    (undisputed : Undisputed who (call, site) before ledger) (issued : call.issued) (got : later.look ≠ .lost) :
    Informed pool (ledger.note catalog who (call, site) before new) new who later := by
  unfold Informed
  rw [step.moved.next]
  by_cases finished : callAfter call site = none
  · rw [finished]
    trivial
  · have called : callAfter call site = some call := by
      cases site with
      | returned => exact absurd rfl finished
      | table | head => rfl
    rw [called]
    cases call with
    | create keyId kind =>
      exact ⟨issued, undivided.informed_create step undisputed rfl issued finished got⟩
    | «open» | evict | sweep => trivial

theorem Undivided.moved (undivided : Undivided catalog pool ledger before phases)
    (undisputed : Undisputed who (call, site) before ledger) (issued : call.issued) :
    Undivided catalog pool (ledger.note catalog who (call, site) before new) new
      (Function.update phases who later) := by
  have steady := step.keeps
  refine ⟨steady, fun one two keyId => undivided.sole_after undisputed one two,
    fun keyId one two => undivided.single_after step one two, fun other => ?_⟩
  by_cases same : other = who
  · subst other
    have got := steady.found who
    rw [Function.update_self] at got ⊢
    exact undivided.informed_self step undisputed issued got
  · rw [Function.update_of_ne same]
    have informed := undivided.informed other
    unfold Informed at informed ⊢
    split at informed
    · obtain ⟨issued, creating, knows⟩ := informed
      have unmoved := undivided.unmoved step undisputed issued creating fun idx stage hand =>
        same (undivided.sole _ _ _ creating (undivided.creating hand).1)
      exact ⟨issued, mem_note_creating creating (.inl same), unmoved.knows knows⟩
    · exact informed

end

section

variable {Content : Type} {catalog : Catalog} {pool : Pool}

theorem undivided_keeps (ne : catalog.Apart) :
    (storeUsers catalog pool Undisputed).KeepsGiven
      (fun ledger (store : Store Content) => Orderly catalog store.table ledger.floor.2) (keyMoves catalog pool)
      (Undivided catalog pool) := by
  intro call who site later old new ledger phases orderly orderly' undivided may move
  obtain ⟨called, access⟩ := site
  obtain ⟨rfl, issued, ⟨lost, _⟩ | moved⟩ := move
  · exact absurd lost (undivided.steady.found who)
  · exact undivided.moved ⟨ne, undivided.steady, orderly, orderly', moved⟩ may.2 issued

/-- A create about to return has the entry of its key. -/
theorem Undivided.answered {store : Store Content} (undivided : Undivided catalog pool ledger store phases)
    (moved : Moved catalog pool (.create keyId kind) (.returned (.created (.ok entry))) (phases who) later store
      new) : ∃ idx, Live keyId store idx ∧ entry = described pool store idx := by
  have informed := undivided.informed who
  have called : (phases who).call = some (.create keyId kind) :=
    moved.under.resolve_right fun resting => by cases resting.2
  simp only [Informed, called] at informed
  have knows := informed.2.2
  have got := undivided.steady.found who
  have glance := moved.glance
  generalize (phases who).custody = custody at glance knows
  generalize (phases who).look = look at glance knows got
  generalize later.look = look' at glance
  cases glance with
  | still plain => exact plain.elim
  | done answers =>
    rcases answers with lost | ⟨idx, gen, rfl⟩
    · exact absurd lost got
    · exact ⟨idx, knows⟩

/-- Every key has one entry at most, and a create returns it. -/
theorem one_entry_of_reachable {config : KeyRun Content} (apart : catalog.Apart)
    (reached : (storeUsers catalog pool Undisputed).Reachable (emptyStore Content pool) config) :
    OneEntry catalog pool config := by
  have orderly := orderly_of_reachable reached
  have guided : (storeUsers catalog pool Undisputed).Guided (keyMoves catalog pool) (Undivided catalog pool)
      Between (fun _ _ => True) config := by
    refine guided_of_known ?_ reached (fun _ _ _ _ _ _ _ _ => trivial)
      (fun _ call phase issued between => ⟨trivial, follows_program issued between⟩)
      (undivided_keeps apart) orderly_of_reachable
    exact ⟨fun _ => .resting, ⟨steady_empty catalog pool, nofun, nofun, fun _ => trivial⟩, fun _ => .inl rfl⟩
  obtain ⟨phases, undivided, threads⟩ := guided
  refine ⟨undivided.single, fun actor own keyId kind call entry update next running => ?_⟩
  have follows := threads actor
  rw [running] at follows
  obtain ⟨later, ⟨rfl, _, ⟨lost, _⟩ | moved⟩, _⟩ := follows.2 config.state
  · exact absurd lost (undivided.steady.found actor)
  obtain ⟨idx, live, rfl⟩ := undivided.answered moved
  have used : (config.state.table.slot idx).word.state ≠ .free := by simp [live.1]
  have sound := undivided.steady.sound
  have kept := sound.kept idx used
  have serving : config.state.incarnation (config.state.table.slot idx).headOff ≠ noIncarnation := by
    rw [kept.place, kept.incarnation.resolve_right fun dead => dead.1 live.1]
    exact sound.positive idx
  rw [alone_openId live (lt_min (orderly.used idx used).1 (orderly.used idx used).2)
    (fun other also => undivided.single keyId other idx also live) serving]
  rfl

end

/-- One actor creates a key, and another attaches to its entry while a third
creates another key. -/
def attaching : List (Stretch KeyCall) :=
  [.begin 0 (.create 7 .artifact), .run 0 40 1, .begin 1 (.create 7 .artifact), .run 1 4 1,
    .begin 2 (.create 8 .object), .run 2 40 1, .run 1 4 1]

theorem attaching_one_entry :
    let config := (storeUsers pair tiny Undisputed).follow attaching (emptyStore Unit tiny)
    Live 7 config.state 0 ∧ Live 8 config.state 1 ∧ OneEntry pair tiny config := by
  have reached : (storeUsers pair tiny Undisputed).Reachable (emptyStore Unit tiny)
      ((storeUsers pair tiny Undisputed).follow attaching (emptyStore Unit tiny)) :=
    reachable_follow attaching .refl
  refine ⟨?_, ?_, one_entry_of_reachable pair_apart reached⟩
  · exact ⟨by decide +kernel, by decide +kernel⟩
  · exact ⟨by decide +kernel, by decide +kernel⟩

/-- Two actors look for a key before either publishes it. -/
def racing : List (Stretch KeyCall) :=
  [.begin 0 (.create 7 .artifact), .run 0 1 1, .begin 1 (.create 7 .artifact), .run 1 40 1, .run 0 40 1]

theorem racing_two_entries : ∃ config : KeyRun Unit, pair.Apart ∧
    (storeUsers pair tiny anyInterleaving).Reachable (emptyStore Unit tiny) config ∧ ¬OneEntry pair tiny config := by
  refine ⟨(storeUsers pair tiny anyInterleaving).follow racing (emptyStore Unit tiny), pair_apart,
    reachable_follow racing .refl, fun one => ?_⟩
  have same := one.single 7 0 1 ⟨by decide +kernel, by decide +kernel⟩ ⟨by decide +kernel, by decide +kernel⟩
  cases same

end ShmActors.Keyed
