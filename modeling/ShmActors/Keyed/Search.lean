import ShmActors.Keyed.Custody
import ShmActors.Artifact.StoreProtocol

/-! What a call has read so far: the slots of its scan, the entry it attaches to,
the occupant it means to evict. The calls of the store follow one protocol of
custody and reading. -/

namespace ShmActors.Keyed

open Lib Core Program
open Artifact (ArtifactHead Handle Pool EntryState EntryWord noIncarnation attachAt attachAtIncarnation
  createAt entryIsFinished evictAll through isQuiescent slotsQuiet)

/-- The key a call is about. -/
def KeyCall.key : KeyCall → Nat
  | .create keyId _ | .open keyId | .evict keyId => keyId
  | .sweep => 0

/-- What `entry_at` has read. -/
structure Seen where
  name : Option Nat
  place : Option Nat
  artifact : Option Handle
  key : Option Nat

def Seen.nothing : Seen := ⟨none, none, none, none⟩

/-- Where a call stands: it scans, has read a slot as live under a generation,
has found its key there, has an entry to return; or, evicting, has read the
generation to strike at and has struck. A create is `lost` if it saw the slot it
fills other than free. -/
inductive Look where
  | idle
  | scanning (rest : List Nat)
  | peeked (idx gen : Nat) (rest : List Nat)
  | found (idx gen : Nat) (seen : Seen)
  | ready (idx gen : Nat) (entry : Entry)
  | aimed (idx gen expected : Nat)
  | struck (idx gen : Nat) (place : Option Nat)
  | lost

structure KeyPhase where
  call : Option KeyCall
  custody : Custody
  look : Look

def KeyPhase.resting : KeyPhase := ⟨none, .none, .idle⟩

section

variable {Content : Type}

/-- The accesses after which a call stands where it stood. -/
def Plain (call : KeyCall) (site : KeySite) (custody : Custody) (look : Look) (before after : Store Content) : Prop :=
  match site with
  | .returned _ => False
  | .head headOff _ => match call with
    | .evict _ => ∃ idx gen place, look = .struck idx gen place ∧
        (place = some headOff ∨ ∃ gen held word, custody = .sweep idx gen (some headOff) held word)
    | _ => True
  | .table access => match access with
    | .scanState _ | .scanKey _ => False
    | .loadNext => call = .sweep
    | .popExchange | .bump => look = .scanning []
    | .exchangeWord idx .reclaiming => (after.table.slot idx).word = (before.table.slot idx).word ∨
        call = .sweep ∨ ∃ gen place, look = .struck idx gen place
    | .exchangeWord idx _ => (after.table.slot idx).word = (before.table.slot idx).word
    | .storeWord _ .free => call = .sweep
    | _ => True

/-- What a call may return with. -/
def Answers (look : Look) : KeyAnswer → Prop
  | .created (.ok entry) | .opened (.ok entry) => look = .lost ∨ ∃ idx gen, look = .ready idx gen entry
  | _ => True

section

variable (catalog : Catalog) (pool : Pool)

inductive Glance :
    KeyCall → KeySite → Custody → Look → Look → Store Content → Store Content → Prop where
  | still (plain : Plain call site custody look before after) :
      Glance call site custody look look before after
  | begin {store} (seeks : call ≠ .sweep) :
      Glance call (.table .loadNext) custody .idle
        (.scanning (List.range (min store.table.nextSlot catalog.capacity))) store store
  | pass {store} (dead : (store.table.slot idx).word.state ≠ .live) :
      Glance call (.table (.scanState idx)) custody (.scanning (idx :: rest)) (.scanning rest) store store
  | peek {store} (live : (store.table.slot idx).word.state = .live) :
      Glance call (.table (.scanState idx)) custody (.scanning (idx :: rest))
        (.peeked idx (store.table.slot idx).word.gen rest) store store
  | skip {call custody idx gen rest store} (other : (store.table.slot idx).keyId ≠ call.key) :
      Glance call (.table (.scanKey idx)) custody (.peeked idx gen rest) (.scanning rest) store store
  | find {call custody idx gen rest store} (same : (store.table.slot idx).keyId = call.key) :
      Glance call (.table (.scanKey idx)) custody (.peeked idx gen rest) (.found idx gen .nothing)
        store store
  | name {call custody idx gen seen store} :
      Glance call (.table (.loadArtifact idx)) custody (.found idx gen seen)
        (.found idx gen { seen with name := some (store.table.slot idx).artifactId }) store store
  | place {call custody idx gen seen store} :
      Glance call (.table (.loadHead idx)) custody (.found idx gen seen)
        (.found idx gen { seen with place := some (store.table.slot idx).headOff }) store store
  | attach {call custody idx gen seen name headOff store} (named : seen.name = some name)
      (placed : seen.place = some headOff) (serving : store.incarnation headOff ≠ noIncarnation) :
      Glance call (.head headOff .attach) custody (.found idx gen seen)
        (.found idx gen { seen with artifact := some ⟨name, store.incarnation headOff, pool⟩ }) store store
  | key {call custody idx gen seen store} :
      Glance call (.table (.loadKey idx)) custody (.found idx gen seen)
        (.found idx gen { seen with key := some (store.table.slot idx).keyId }) store store
  | kind {call custody idx gen seen artifact headOff keyId store} (attached : seen.artifact = some artifact)
      (placed : seen.place = some headOff) (keyed : seen.key = some keyId) :
      Glance call (.table (.loadKind idx)) custody (.found idx gen seen)
        (.ready idx gen ⟨artifact, headOff, keyId, (store.table.slot idx).kind⟩) store store
  | publish {call keyId idx stage gen kind before after} (stamped : stage.gen = some gen)
      (sorted : stage.kind = some kind) (changed : (after.table.slot idx).word ≠ (before.table.slot idx).word) :
      Glance call (.table (.exchangeWord idx .live)) (.hand keyId idx stage) (.scanning [])
        (.ready idx gen ⟨⟨catalog.artifactIdFor idx, gen, pool⟩, catalog.headOffFor idx, keyId, kind⟩) before after
  | lose (busy : (before.table.slot idx).word.state ≠ .free) :
      Glance call (.table access) (.hand keyId idx stage) look .lost before after
  | aim {keyId custody idx gen seen store} :
      Glance (.evict keyId) (.table (.loadGen idx)) custody (.found idx gen seen)
        (.aimed idx gen (store.table.slot idx).word.gen) store store
  | strike {call custody idx gen expected before after}
      (found : (before.table.slot idx).word = ⟨expected, .live⟩) :
      Glance call (.table (.exchangeWord idx .tombstone)) custody (.aimed idx gen expected)
        (.struck idx gen none) before after
  | locate {call custody idx gen place store} :
      Glance call (.table (.loadHead idx)) custody (.struck idx gen place)
        (.struck idx gen (some (store.table.slot idx).headOff)) store store
  | release {call custody idx gen place before after} :
      Glance call (.table (.storeWord idx .free)) custody (.struck idx gen place) .idle before after
  | done {call answer look store} (answers : Answers look answer) :
      Glance call (.returned answer) .none look .idle store store

end

/-- The call under way after an access. -/
def callAfter (call : KeyCall) (site : KeySite) : Option KeyCall :=
  match site with
  | .returned _ => none
  | _ => some call

/-- The moves of a call, from the load of the mark on. -/
structure Moved (catalog : Catalog) (pool : Pool) (call : KeyCall) (site : KeySite) (phase later : KeyPhase)
    (before after : Store Content) : Prop where
  under : phase.call = some call ∨ phase = .resting ∧ site = .table .loadNext
  next : later.call = callAfter call site
  turn : Turn catalog call site phase.custody later.custody before after
  glance : Glance catalog pool call site phase.custody phase.look later.look before after

/-- The protocol of a call. Of one that is lost nothing is asked. -/
def moves (catalog : Catalog) (pool : Pool) (call : KeyCall) : Protocol (Store Content) KeySite KeyPhase :=
  fun site phase later before after => phase.look = .lost ∧ later = phase ∨
    Moved catalog pool call site phase later before after

end

/-- A call with nothing in custody. -/
abbrev bare (call : KeyCall) (look : Look) : KeyPhase := ⟨some call, .none, look⟩

section

variable {Content : Type} {catalog : Catalog} {access : TableSite} {before : Table}

/-- A protocol of the store, as the catalog's code sees it. -/
def onTable (moves : Protocol (Store Content) KeySite KeyPhase) : Protocol Table TableSite KeyPhase :=
  fun access phase later before after => ∀ store, store.table = before →
    moves (.table access) phase later store { store with table := after }

theorem follows_cat {moves : Protocol (Store Content) KeySite KeyPhase}
    (follows : code.Follows (onTable moves) post phase) :
    (cat code : KeyAct Content Value).Follows moves post phase :=
  follows_within (fun _ _ _ store _ move => move store rfl) follows

/-- Accesses of which the deliveries record nothing. -/
def Unrecorded (access : TableSite) : Prop :=
  (∀ catalog actor before after deliveries, deliver catalog actor access before after deliveries = deliveries) ∧
    ∀ before after published, publishes access before after published = published

theorem unrecorded_of (unrecorded : recorded access = false) : Unrecorded access := by
  refine ⟨fun _ => deliver_eq unrecorded, fun old new published => ?_⟩
  cases access with
  | exchangeWord idx goal =>
    cases goal with
    | live => cases unrecorded
    | _ => rfl
  | _ => rfl

theorem Unrecorded.quiet (unrecorded : Unrecorded access) (before after : Store Content) :
    Quiet catalog (.table access) before after :=
  ⟨fun who deliveries => by rw [unrecorded.1], unrecorded.2 before.table after.table⟩

theorem same_refl (store : Store Content) : Same store store := ⟨rfl, fun _ => rfl⟩

/-- What an access on the table does, whatever else is in the store. -/
theorem moves_turn (turn : ∀ store : Store Content, Turn catalog call (.table access) custody custody'
      { store with table := before } { store with table := after })
    (glance : ∀ store : Store Content, Glance catalog pool call (.table access) custody look look'
      { store with table := before } { store with table := after }) :
    onTable (@moves Content catalog pool call) access ⟨some call, custody, look⟩ ⟨some call, custody', look'⟩
      before after := by
  rintro store rfl
  exact .inr ⟨.inl rfl, rfl, turn store, glance store⟩

/-- A read changes where its call stands, and nothing else. -/
theorem moves_read (glance : ∀ store : Store Content, store.table = before →
      Glance catalog pool call (.table access) custody look look' store store)
    (unrecorded : recorded access = false) :
    onTable (@moves Content catalog pool call) access ⟨some call, custody, look⟩
      ⟨some call, custody, look'⟩ before before :=
  moves_turn (fun _ => .still (same_refl _) ((unrecorded_of unrecorded).quiet _ _)) fun _ => glance _ rfl

/-- An access that leaves the slots alone, and its call where it stood. -/
theorem moves_still (slots : after.slot = before.slot)
    (plain : ∀ store : Store Content, Plain call (.table access) custody look { store with table := before }
      { store with table := after })
    (unrecorded : recorded access = false) :
    onTable (@moves Content catalog pool call) access ⟨some call, custody, look⟩ ⟨some call, custody, look⟩
      before after :=
  moves_turn (fun _ => .still ⟨slots, fun _ => rfl⟩ ((unrecorded_of unrecorded).quiet _ _)) fun store =>
    .still (plain store)

theorem follows_scan (slots : List Nat) :
    (Catalog.scan call.key slots).Follows (onTable (@moves Content catalog pool call))
      (fun out later => match out with
        | none => later = bare call (.scanning [])
        | some idx => ∃ gen, later = bare call (.found idx gen .nothing))
      (bare call (.scanning slots)) := by
  induction slots with
  | nil => exact rfl
  | cons idx rest ih =>
    refine follows_load_ite (fun table (live : (table.slot idx).word.state = .live) => ?_)
      fun table (dead : (table.slot idx).word.state ≠ .live) => ?_
    · refine ⟨bare call (.peeked idx (table.slot idx).word.gen rest),
        moves_read (by rintro store rfl; exact .peek live) rfl, ?_⟩
      refine follows_load_ite (fun table' (same : (table'.slot idx).keyId = call.key) => ?_)
        fun table' (other : (table'.slot idx).keyId ≠ call.key) => ?_
      · exact ⟨bare call (.found idx (table.slot idx).word.gen .nothing),
          moves_read (by rintro store rfl; exact .find same) rfl, _, rfl⟩
      · exact ⟨bare call (.scanning rest), moves_read (by rintro store rfl; exact .skip other) rfl, ih⟩
    · exact ⟨bare call (.scanning rest), moves_read (by rintro store rfl; exact .pass dead) rfl, ih⟩

theorem follows_findLiveByKey (seeks : call ≠ .sweep) :
    (cat (catalog.findLiveByKey call.key) : KeyAct Content (Option Nat)).Follows (moves catalog pool call)
      (fun out later => match out with
        | none => later = bare call (.scanning [])
        | some idx => ∃ gen, later = bare call (.found idx gen .nothing)) .resting := by
  refine follows_cat (follows_bind (follows_load fun table => ?_))
  refine ⟨bare call (.scanning (List.range (min table.nextSlot catalog.capacity))), ?_, follows_scan _⟩
  rintro store rfl
  exact .inr ⟨.inr ⟨rfl, rfl⟩, rfl, .still (same_refl store) ⟨fun _ _ => rfl, fun _ => rfl⟩, .begin seeks⟩

end

section

variable {Content : Type} {call : KeyCall} {headOff : Nat} {phase : KeyPhase}

/-- A protocol of the store, as the code on one head sees it. -/
def onHead (headOff : Nat) (moves : Protocol (Store Content) KeySite KeyPhase) :
    Protocol (Artifact.Shelf Content) Artifact.StoreSite KeyPhase :=
  fun site phase later before after => ∀ store, (shelfAt headOff).get store = before →
    moves (.head headOff site) phase later store ((shelfAt headOff).set after store)

theorem follows_on {moves : Protocol (Store Content) KeySite KeyPhase}

    (follows : code.Follows (onHead headOff moves) post phase) :
    (on headOff code : KeyAct Content Value).Follows moves post phase :=
  follows_within (fun _ _ _ store _ move => move store rfl) follows

theorem reheaded_set (headOff : Nat) (shelf : Artifact.Shelf Content) (store : Store Content) :
    Reheaded headOff store ((shelfAt headOff).set shelf store) := by
  refine ⟨rfl, fun other ne => ?_⟩
  simp [shelfAt, Store.incarnation, ne]

theorem incarnation_set (headOff : Nat) (shelf : Artifact.Shelf Content) (store : Store Content) :
    ((shelfAt headOff).set shelf store).incarnation headOff = shelf.memory.head.incarnation := by
  simp [shelfAt, Store.incarnation]

theorem same_set {shelf : Artifact.Shelf Content} {store : Store Content}
    (same : shelf.memory.head.incarnation = store.incarnation headOff) :
    Same store ((shelfAt headOff).set shelf store) := by
  refine ⟨rfl, fun other => ?_⟩
  by_cases here : other = headOff
  · rw [here, incarnation_set, same]
  · exact (reheaded_set headOff shelf store).2 other here

/-- A phase in which a call may use a head without a change of where it stands. -/
def Located (Content : Type) (call : KeyCall) (headOff : Nat) (phase : KeyPhase) : Prop :=
  phase.call = some call ∧ ∀ site (before after : Store Content),
    Plain call (.head headOff site) phase.custody phase.look before after

theorem moves_head (located : Located Content call headOff phase)
    (same : after.memory.head.incarnation = before.memory.head.incarnation) :
    onHead headOff (@moves Content catalog pool call) site phase phase before after := by
  rintro store rfl
  exact .inr ⟨.inl located.1, located.1, .still (same_set same) trivial, .still (located.2 site _ _)⟩

theorem follows_teardown (located : Located Content call headOff phase) (artifact : Handle) :
    (through (evictAll artifact) : Artifact.StoreAct Content _).Leads
      (onHead headOff (@moves Content catalog pool call)) phase phase := by
  have fine : (evictAll artifact : Artifact.Act Content _).Leads (Artifact.moves True True)
      ⟨.idle, []⟩ ⟨.idle, []⟩ := Artifact.follows_evictAll [] trivial
  have torn : (evictAll artifact : Artifact.Act Content _).Leads
      (fun _ earlier later before after => earlier = phase ∧ later = phase ∧
        after.head.incarnation = before.head.incarnation) phase phase :=
    follows_forget (fun _ _ _ _ _ move => ⟨rfl, rfl, move.incarnation⟩) fine
  refine follows_within (fun site earlier later shelf after move => ?_) torn
  obtain ⟨rfl, rfl, same⟩ := move
  exact moves_head located same

/-- A call that attaches to the head of the slot it found. -/
theorem follows_attachFound {idx gen name : Nat}
    (reads : ∀ site (before after : Store Content),
        Plain call (.head headOff site) custody (.found idx gen seen) before after)
    (named : seen.name = some name) (placed : seen.place = some headOff) :
    (attachAt name pool : Artifact.StoreAct Content _).Follows (onHead headOff (@moves Content catalog pool call))
      (fun out later => match out with
        | none => later = ⟨some call, custody, .found idx gen seen⟩
        | some artifact => later = ⟨some call, custody, .found idx gen { seen with artifact := some artifact }⟩)
      ⟨some call, custody, .found idx gen seen⟩ := by
  refine follows_load_ite (fun shelf _ => ⟨_, moves_head ⟨rfl, reads⟩ rfl, rfl⟩)
    fun shelf (serving : shelf.memory.head.incarnation ≠ noIncarnation) => ?_
  refine ⟨⟨some call, custody, .found idx gen
    { seen with artifact := some ⟨name, shelf.memory.head.incarnation, pool⟩ }⟩, ?_, rfl⟩
  rintro store rfl
  refine .inr ⟨.inl rfl, rfl, .still (same_set rfl) trivial, ?_⟩
  have unchanged : (shelfAt headOff).set ((shelfAt headOff).get store) store = store := by
    simp [shelfAt]
  rw [unchanged]
  exact .attach named placed serving

end

section

variable {catalog : Catalog} {pool : Pool} {call : KeyCall}

/-- What a call leaves when it is about to return. -/
def Returning (call : KeyCall) (answer : KeyAnswer) (later : KeyPhase) : Prop :=
  later.look = .lost ∨ later.call = some call ∧ later.custody = .none ∧ Answers later.look answer

theorem follows_entryAt {idx gen : Nat} (opens : ∀ keyId, call ≠ .evict keyId) :
    (entryAt pool idx : KeyAct Content _).Follows (moves catalog pool call)
      (fun out later => later.call = some call ∧ later.custody = .none ∧
        ∀ entry, out = .ok entry → later.look = .ready idx gen entry)
      (bare call (.found idx gen .nothing)) := by
  have reads : ∀ {look : Look} headOff site (before after : Store Content),
      Plain call (.head headOff site) .none look before after := by
    intro look headOff site before after
    cases call with
    | evict keyId => exact absurd rfl (opens keyId)
    | _ => trivial
  refine follows_bind (follows_cat (follows_load fun one => ?_))
  refine ⟨bare call (.found idx gen { Seen.nothing with name := some (one.slot idx).artifactId }),
    moves_read (by rintro store rfl; exact .name) rfl, ?_⟩
  refine follows_bind (follows_cat (follows_load fun two => ?_))
  refine ⟨bare call (.found idx gen ⟨some (one.slot idx).artifactId, some (two.slot idx).headOff, none, none⟩),
    moves_read (by rintro store rfl; exact .place) rfl, ?_⟩
  refine follows_then (follows_on (follows_attachFound (reads _) rfl rfl)) ?_
  rintro (_ | artifact) later after
  · subst after
    exact ⟨rfl, rfl, nofun⟩
  · subst after
    refine follows_bind (follows_cat (follows_load fun third => ?_))
    refine ⟨bare call (.found idx gen ⟨some (one.slot idx).artifactId, some (two.slot idx).headOff,
      some artifact, some (third.slot idx).keyId⟩),
      moves_read (by rintro store rfl; exact .key) rfl, ?_⟩
    refine follows_bind (follows_cat (follows_load fun fourth => ?_))
    refine ⟨bare call (.ready idx gen ⟨artifact, (two.slot idx).headOff, (third.slot idx).keyId,
      (fourth.slot idx).kind⟩),
      moves_read (by rintro store rfl; exact .kind rfl rfl rfl) rfl, ?_⟩
    refine ⟨rfl, rfl, fun entry same => ?_⟩
    cases same
    rfl

section

variable {keyId : Nat} {kind : RefKind} {idx gen : Nat}

/-- A create that has found no entry and has a slot in hand. -/
abbrev filling (keyId : Nat) (kind : RefKind) (idx : Nat) (stage : Stage) : KeyPhase :=
  ⟨some (.create keyId kind), .hand keyId idx stage, .scanning []⟩

theorem head_set (new : Head) (table : Table) : ((listsOf.head ()).set new table).lists.head () = new := by
  simp [listsOf, StackView.head]

theorem follows_popFree :
    popFree.Follows (onTable (@moves Content catalog pool (.create keyId kind)))
      (fun out later => match out with
        | none => later = bare (.create keyId kind) (.scanning [])
        | some idx => later = filling keyId kind idx .taken)
      (bare (.create keyId kind) (.scanning [])) := by
  refine follows_repeatLoop (fun phase (same : phase = bare (.create keyId kind) (.scanning [])) => ?_) rfl
  subst same
  refine follows_bind (follows_load fun table => ?_)
  refine ⟨_, moves_still rfl (fun _ => trivial) rfl, ?_⟩
  generalize (listsOf.head ()).get table = cur
  by_cases empty : cur.slot = EMPTY
  · rw [if_pos empty]
    exact rfl
  rw [if_neg empty]
  refine follows_bind (follows_load fun table => ?_)
  refine ⟨_, moves_still rfl (fun _ => trivial) rfl, ?_⟩
  refine follows_bind (follows_compareExchangeWeak (fun table got => ?_) fun table => ?_)
  · refine ⟨filling keyId kind cur.slot .taken, ?_, rfl⟩
    rintro store rfl
    have head : store.table.lists.head () = cur := got
    refine .inr ⟨.inl rfl, rfl, ?_, .still rfl⟩
    rw [← head]
    exact .pop ⟨rfl, fun _ => rfl⟩ fun same => Head.ne_bump _ _ (same.trans (head_set _ store.table))
  · refine ⟨_, ?_, rfl⟩
    rintro store rfl
    exact .inr ⟨.inl rfl, rfl, .still (same_refl store) ⟨fun _ _ => by simp [deliver], fun _ => rfl⟩, .still rfl⟩

theorem same_setNextSlot (next : Nat) (store : Store Content) :
    Same store { store with table := nextSlotOf.set next store.table } := ⟨rfl, fun _ => rfl⟩

theorem follows_allocSlot :
    (cat catalog.allocSlot : KeyAct Content _).Follows (moves catalog pool (.create keyId kind))
      (fun out later => match out with
        | .error _ => later = bare (.create keyId kind) (.scanning [])
        | .ok idx => later = filling keyId kind idx .taken)
      (bare (.create keyId kind) (.scanning [])) := by
  refine follows_cat (follows_then follows_popFree ?_)
  rintro (_ | idx) later rfl
  · refine follows_bind (follows_fetchUpdate fun table => ?_)
    by_cases full : catalog.capacity ≤ table.nextSlot
    · refine ⟨bare (.create keyId kind) (.scanning []), ?_, ?_⟩
      · rintro store rfl
        exact .inr ⟨.inl rfl, rfl, .still (same_setNextSlot _ store)
          ⟨fun _ _ => by simp [deliver, full], fun _ => rfl⟩, .still rfl⟩
      show Follows _ (ite (catalog.capacity ≤ table.nextSlot) _ _) _ _
      rw [if_pos full]
      refine follows_bind (follows_fetchUpdate fun table => ?_)
      refine ⟨_, ?_, rfl⟩
      exact moves_turn (fun _ => .still (same_setNextSlot _ _) ⟨fun _ _ => rfl, fun _ => rfl⟩) fun _ => .still trivial
    · refine ⟨filling keyId kind table.nextSlot .taken, ?_, ?_⟩
      · rintro store rfl
        exact .inr ⟨.inl rfl, rfl, .bump (same_setNextSlot _ store) (Nat.not_le.mp full), .still rfl⟩
      show Follows _ (ite (catalog.capacity ≤ table.nextSlot) _ _) _ _
      rw [if_neg full]
      exact rfl
  · exact rfl

/-- A creator stamps the slot's generation. -/
theorem follows_stamp :
    (cat (Keyed.gen idx) : KeyAct Content _).Follows (moves catalog pool (.create keyId kind))
      (fun out later => later = filling keyId kind idx { Stage.taken with gen := some out })
      (filling keyId kind idx .taken) := by
  refine follows_cat (follows_bind (follows_load fun table => ?_))
  refine ⟨filling keyId kind idx { Stage.taken with gen := some (table.slot idx).word.gen }, ?_, rfl⟩
  rintro store rfl
  exact .inr ⟨.inl rfl, rfl, .stamp, .still trivial⟩

theorem follows_createAt :
    (on (catalog.headOffFor idx) (createAt (catalog.artifactIdFor idx) pool gen) : KeyAct Content _).Follows
      (moves catalog pool (.create keyId kind))
      (fun artifact later => artifact = ⟨catalog.artifactIdFor idx, gen, pool⟩ ∧
        later = filling keyId kind idx ⟨some gen, true, false, false, false, none⟩)
      (filling keyId kind idx ⟨some gen, false, false, false, false, none⟩) := by
  have located : Located Content (.create keyId kind) (catalog.headOffFor idx)
      (filling keyId kind idx ⟨some gen, false, false, false, false, none⟩) := ⟨rfl, fun _ _ _ => trivial⟩
  refine follows_on (follows_bind (follows_load fun shelf => ⟨_, moves_head located rfl, ?_⟩))
  refine follows_bind (follows_store fun shelf => ⟨filling keyId kind idx ⟨some gen, false, false, false,
    false, none⟩, ?_, ?_⟩)
  · rintro store rfl
    exact .inr ⟨.inl rfl, rfl, .build rfl (reheaded_set _ _ _), .still trivial⟩
  refine follows_bind (follows_store fun shelf => ⟨filling keyId kind idx ⟨some gen, false, false, false,
    false, none⟩, ?_, ?_⟩)
  · rintro store rfl
    exact .inr ⟨.inl rfl, rfl, .build rfl (reheaded_set _ _ _), .still trivial⟩
  refine follows_bind (follows_store fun shelf => ⟨filling keyId kind idx ⟨some gen, true, false, false, false,
    none⟩, ?_, rfl, rfl⟩)
  rintro store rfl
  exact .inr ⟨.inl rfl, rfl, .serve rfl (reheaded_set _ _ _) (incarnation_set _ _ _), .still trivial⟩

theorem amended_set (store : Store Content) : Amended idx slot store { store with table := { store.table with
      slot := Function.update store.table.slot idx slot } } :=
  ⟨rfl, fun _ => rfl⟩

theorem follows_writeFields :
    (writeFields idx keyId (catalog.artifactIdFor idx) (catalog.headOffFor idx) kind).Leads
      (onTable (@moves Content catalog pool (.create keyId kind)))
      (filling keyId kind idx ⟨some gen, true, true, true, true, some kind⟩)
      (filling keyId kind idx ⟨some gen, true, false, false, false, none⟩) := by
  refine follows_bind (follows_store fun table => ⟨filling keyId kind idx ⟨some gen, true, true, false,
    false, none⟩, ?_, ?_⟩)
  · exact moves_turn (fun _ => .key (amended_set _)) fun _ => .still trivial
  refine follows_bind (follows_store fun table => ⟨filling keyId kind idx ⟨some gen, true, true, true,
    false, none⟩, ?_, ?_⟩)
  · exact moves_turn (fun _ => .name (amended_set _)) fun _ => .still trivial
  refine follows_bind (follows_store fun table => ⟨filling keyId kind idx ⟨some gen, true, true, true,
    true, none⟩, ?_, ?_⟩)
  · exact moves_turn (fun _ => .locate (amended_set _)) fun _ => .still trivial
  refine follows_store fun table => ⟨filling keyId kind idx ⟨some gen, true, true, true, true, some kind⟩, ?_, rfl⟩
  exact moves_turn (fun _ => .sort (amended_set _)) fun _ => .still trivial

theorem follows_lost (lost : phase.look = .lost) (code : KeyAct Content Value) :
    code.Follows (moves catalog pool call) (fun _ later => later.look = .lost) phase :=
  follows_mono (follows_freely (fun _ _ _ => .inl ⟨lost, rfl⟩) code) fun _ _ same => by rw [same, lost]

theorem follows_lostTable (lost : phase.look = .lost) (code : TableAct Value) :
    code.Follows (onTable (@moves Content catalog pool call)) (fun _ later => later.look = .lost) phase :=
  follows_mono (follows_freely (fun _ _ _ _ _ => .inl ⟨lost, rfl⟩) code) fun _ _ same => by rw [same, lost]

/-- The entry a creator publishes. -/
def entryFor (catalog : Catalog) (pool : Pool) (idx gen keyId : Nat) (kind : RefKind) : Entry :=
  ⟨⟨catalog.artifactIdFor idx, gen, pool⟩, catalog.headOffFor idx, keyId, kind⟩

theorem follows_publish :
    (casState idx .free .live).Follows (onTable (@moves Content catalog pool (.create keyId kind)))
      (fun _ later => later.look = .lost ∨ later = bare (.create keyId kind)
          (.ready idx gen (entryFor catalog pool idx gen keyId kind)))
      (filling keyId kind idx ⟨some gen, true, true, true, true, some kind⟩) := by
  generalize complete : filling keyId kind idx ⟨some gen, true, true, true, true, some kind⟩ = filled
  -- a word that is not free was seen that way, and the create is lost
  have sees (table : Table) (access : TableSite) (quiet : ∀ store : Store Content,
      Quiet catalog (.table access) store store)
      (plain : ∀ store : Store Content, Plain (.create keyId kind) (.table access) filled.custody filled.look
        store store) :
      ∃ later, onTable (@moves Content catalog pool (.create keyId kind)) access filled later table table ∧
        (later.look = .lost ∨ later = filled ∧ (table.slot idx).word.state = .free) := by
    by_cases free : (table.slot idx).word.state = .free
    · refine ⟨filled, ?_, .inr ⟨rfl, free⟩⟩
      rintro store rfl
      subst complete
      exact .inr ⟨.inl rfl, rfl, .still (same_refl store) (quiet store), .still (plain store)⟩
    · refine ⟨{ filled with look := .lost }, ?_, .inl rfl⟩
      rintro store rfl
      subst complete
      exact .inr ⟨.inl rfl, rfl, .still (same_refl store) (quiet store), .lose free⟩
  refine follows_bind (follows_load fun table => ?_)
  obtain ⟨later, move, seen⟩ := sees table (.loadWord idx) (fun _ => ⟨fun _ _ => rfl, fun _ => rfl⟩) fun _ => trivial
  refine ⟨later, move, follows_repeatFrom
    (fun now phase (known : phase.look = .lost ∨ phase = filled ∧ now.state = .free) => ?_) seen⟩
  rcases known with lost | ⟨rfl, free⟩
  · refine follows_mono (follows_lostTable lost _) fun out later lost => ?_
    cases out <;> exact .inl lost
  · rw [if_neg (not_not.mpr free)]
    refine follows_bind (follows_compareExchange (fun table got => ?_) fun table _ => ?_)
    · refine ⟨bare (.create keyId kind) (.ready idx gen (entryFor catalog pool idx gen keyId kind)), ?_, .inr rfl⟩
      rintro store rfl
      have word : (store.table.slot idx).word = ⟨now.gen, .free⟩ := by rw [← free]; exact got
      subst complete
      refine .inr ⟨.inl rfl, rfl, .publish rfl rfl rfl rfl word (amended_set store), .publish rfl rfl ?_⟩
      show (((wordOf idx).set _ store.table).slot idx).word ≠ _
      rw [set_word, word]
      nofun
    · exact sees table (.exchangeWord idx .live)
        (fun _ => ⟨fun _ _ => by simp [deliver], fun _ => by simp [publishes]⟩) fun _ => rfl

theorem follows_publishSlot :
    (cat (catalog.publishSlot idx keyId kind) : KeyAct Content _).Follows (moves catalog pool (.create keyId kind))
      (fun out later => out.2 = catalog.headOffFor idx ∧ (later.look = .lost ∨
        later = bare (.create keyId kind) (.ready idx gen (entryFor catalog pool idx gen keyId kind))))
      (filling keyId kind idx ⟨some gen, true, false, false, false, none⟩) := by
  refine follows_cat (follows_then follows_writeFields ?_)
  rintro _ _ rfl
  refine follows_then follows_publish fun _ later published => ?_
  exact ⟨rfl, published⟩

theorem follows_create :
    (create catalog pool keyId kind : KeyAct Content _).Follows (moves catalog pool (.create keyId kind))
      (fun out later => Returning (.create keyId kind) (.created out) later) .resting := by
  refine follows_then (follows_findLiveByKey nofun) ?_
  rintro (_ | idx) later got
  · subst got
    refine follows_then follows_allocSlot ?_
    rintro (reason | idx) later allocated
    · subst allocated
      exact .inr ⟨rfl, rfl, trivial⟩
    · subst allocated
      refine follows_seq follows_stamp fun gen => ?_
      refine follows_then follows_createAt ?_
      rintro _ _ ⟨rfl, rfl⟩
      refine follows_then follows_publishSlot ?_
      rintro ⟨_, headOff⟩ later ⟨same, lost | rfl⟩
      · exact .inl lost
      · obtain rfl : headOff = catalog.headOffFor idx := same
        exact .inr ⟨rfl, rfl, .inr ⟨idx, gen, rfl⟩⟩
  · obtain ⟨gen, rfl⟩ := got
    refine follows_mono (follows_entryAt nofun) fun out later read => .inr ⟨read.1, read.2.1, ?_⟩
    cases out with
    | error reason => trivial
    | ok entry => exact .inr ⟨idx, gen, read.2.2 entry rfl⟩

end

theorem follows_openId :
    (openId catalog pool keyId : KeyAct Content _).Follows (moves catalog pool (.open keyId))
      (fun out later => Returning (.open keyId) (.opened out) later) .resting := by
  refine follows_then (follows_findLiveByKey nofun) ?_
  rintro (_ | idx) later got
  · subst got
    exact .inr ⟨rfl, rfl, trivial⟩
  · obtain ⟨gen, rfl⟩ := got
    refine follows_mono (follows_entryAt nofun) fun out later read => .inr ⟨read.1, read.2.1, ?_⟩
    cases out with
    | error reason => trivial
    | ok entry => exact .inr ⟨idx, gen, read.2.2 entry rfl⟩

section

variable {idx : Nat} {look : Look} {gen headOff : Nat} {held place : Option Nat}

/-- The calls that sweep a slot: a sweep any, an evict the one it has struck. -/
def Entitled (call : KeyCall) (idx : Nat) (look : Look) : Prop :=
  call = .sweep ∧ look = .idle ∨ (∃ keyId, call = .evict keyId) ∧ ∃ gen place, look = .struck idx gen place

theorem Entitled.located (entitled : Entitled call idx look) :
    Located Content call headOff ⟨some call, .sweep idx gen (some headOff) held word, look⟩ := by
  refine ⟨rfl, fun site before after => ?_⟩
  rcases entitled with ⟨rfl, rfl⟩ | ⟨⟨keyId, rfl⟩, since, place, rfl⟩
  · trivial
  · exact ⟨idx, since, place, rfl, .inr ⟨gen, held, word, rfl⟩⟩

theorem follows_finished (entitled : Entitled call idx look) (artifactId : Nat) :
    (finished pool artifactId headOff : KeyAct Content Bool).Follows (moves catalog pool call)
      (fun _ later => ∃ held, later = ⟨some call, .sweep idx gen (some headOff) held word, look⟩)
      ⟨some call, .sweep idx gen (some headOff) held word, look⟩ := by
  refine follows_on (follows_bind (follows_bind (follows_load fun shelf => ?_)))
  refine ⟨_, moves_head entitled.located rfl, ?_⟩
  show Follows _ (ite (shelf.memory.head.incarnation = noIncarnation) _ _) _ _
  split
  · exact ⟨held, rfl⟩
  refine follows_then (follows_teardown entitled.located _) ?_
  rintro (reason | _) _ rfl
  · exact ⟨held, rfl⟩
  refine follows_bind (follows_fetchUpdate fun shelf => ?_)
  refine ⟨⟨some call, .sweep idx gen (some headOff) (some shelf.memory.head.incarnation) word, look⟩, ?_, ?_⟩
  · rintro store rfl
    exact .inr ⟨.inl rfl, rfl, .retire (reheaded_set _ _ _) (incarnation_set _ _ _),
      .still (entitled.located.2 _ _ _)⟩
  have scanned : (isQuiescent : Artifact.StoreAct Content Bool).Leads
      (onHead headOff (@moves Content catalog pool call))
      ⟨some call, .sweep idx gen (some headOff) (some shelf.memory.head.incarnation) word, look⟩
      ⟨some call, .sweep idx gen (some headOff) (some shelf.memory.head.incarnation) word, look⟩ := by
    refine follows_of_every (Artifact.OnEntry.every_isQuiescent fun site update _ keeps shelf => ?_)
    exact moves_head entitled.located (by rw [keeps])
  refine follows_then scanned ?_
  rintro (_ | _) _ rfl
  · refine follows_bind (follows_store fun shelf' => ?_)
    refine ⟨⟨some call, .sweep idx gen (some headOff) (some shelf.memory.head.incarnation) word, look⟩, ?_, _, rfl⟩
    rintro store rfl
    exact .inr ⟨.inl rfl, rfl, .revive (reheaded_set _ _ _) (incarnation_set _ _ _),
      .still (entitled.located.2 _ _ _)⟩
  · exact ⟨_, rfl⟩

theorem follows_claim (entitled : Entitled call idx look) :
    (casState idx .tombstone .reclaiming).Follows (onTable (@moves Content catalog pool call))
      (fun won later => if won then ∃ gen, later = ⟨some call, .sweep idx gen none none none, look⟩
        else later = bare call look) (bare call look) := by
  refine follows_bind (follows_load fun table => ?_)
  refine ⟨_, moves_still rfl (fun _ => trivial) rfl, ?_⟩
  refine follows_repeatFrom (fun now phase (same : phase = bare call look) => ?_) rfl
  subst same
  by_cases ready : now.state = .tombstone
  · rw [if_neg (not_not.mpr ready)]
    refine follows_bind (follows_compareExchange (fun table got => ?_) fun table _ => ?_)
    · refine ⟨⟨some call, .sweep idx now.gen none none none, look⟩, ?_, _, rfl⟩
      rintro store rfl
      have word : (store.table.slot idx).word = ⟨now.gen, .tombstone⟩ := by rw [← ready]; exact got
      refine .inr ⟨.inl rfl, rfl, .claim word (amended_set store), .still (.inr ?_)⟩
      exact entitled.imp And.left And.right
    · exact ⟨_, moves_still rfl (fun _ => .inl rfl) rfl, rfl⟩
  · rw [if_pos ready]
    exact rfl

theorem follows_abortReclaim :
    (abortReclaim idx).Leads (onTable (@moves Content catalog pool call))
      (bare call look) ⟨some call, .sweep idx gen place held word, look⟩ := by
  refine follows_bind (follows_load fun table => ?_)
  refine ⟨⟨some call, .sweep idx gen place held (some (table.slot idx).word), look⟩, ?_, ?_⟩
  · rintro store rfl
    exact .inr ⟨.inl rfl, rfl, .read, .still trivial⟩
  refine follows_store fun table' => ⟨bare call look, ?_, rfl⟩
  exact moves_turn (fun _ => .abort (amended_set _)) fun _ => .still trivial

/-- Where a call that has freed the slot stands. -/
def afterFree (call : KeyCall) (look : Look) : KeyPhase :=
  ⟨some call, .none, if call = .sweep then look else .idle⟩

theorem follows_finishReclaim (entitled : Entitled call idx look) :
    (finishReclaim idx).Follows (onTable (@moves Content catalog pool call))
      (fun out later => later = if out.isSome then afterFree call look else bare call look)
      ⟨some call, .sweep idx gen place held word, look⟩ := by
  refine follows_load_ite (fun table (_ : 2 ^ 32 ≤ (table.slot idx).word.gen + 1) => ⟨bare call look, ?_, rfl⟩)
    fun table (_ : ¬2 ^ 32 ≤ (table.slot idx).word.gen + 1) =>
      ⟨⟨some call, .sweep idx gen place held (some (table.slot idx).word), look⟩, ?_, ?_⟩
  · exact moves_turn (fun _ => .park) fun _ => .still trivial
  · rintro store rfl
    exact .inr ⟨.inl rfl, rfl, .read, .still trivial⟩
  refine follows_bind (follows_store fun table' =>
    ⟨⟨some call, .sweep idx gen place held (some (table.slot idx).word), look⟩, ?_, ?_⟩)
  · exact moves_turn (fun _ => .clear (amended_set _)) fun _ => .still trivial
  refine follows_bind (follows_store fun table'' => ⟨afterFree call look, ?_, rfl⟩)
  rintro store rfl
  refine .inr ⟨.inl rfl, rfl, .free (amended_set store), ?_⟩
  rcases entitled with ⟨rfl, rfl⟩ | ⟨⟨keyId, rfl⟩, since, place, rfl⟩
  · exact .still rfl
  · exact .release

theorem follows_pushFree :
    (pushFree idx).Leads (onTable (@moves Content catalog pool call))
      (bare call look) (bare call look) := by
  refine follows_repeatLoop (fun phase (same : phase = bare call look) => ?_) rfl
  subst same
  refine follows_bind (follows_load fun table => ⟨_, moves_still rfl (fun _ => trivial) rfl, ?_⟩)
  refine follows_bind (follows_store fun table => ⟨_, moves_still rfl (fun _ => trivial) rfl, ?_⟩)
  refine follows_bind (follows_compareExchangeWeak (fun table _ => ?_) fun table => ?_)
  · exact ⟨_, moves_still rfl (fun _ => trivial) rfl, rfl⟩
  · exact ⟨_, moves_still rfl (fun _ => trivial) rfl, rfl⟩

theorem follows_tryReclaimSlot (entitled : Entitled call idx look) :
    (tryReclaimSlot pool idx : KeyAct Content Bool).Follows (moves catalog pool call)
      (fun _ later => later = bare call look ∨ later = afterFree call look) (bare call look) := by
  refine follows_then (follows_cat (follows_claim entitled)) ?_
  rintro (_ | _) later claimed
  · exact .inl claimed
  obtain ⟨gen, rfl⟩ := claimed
  refine follows_bind (follows_cat (follows_load fun table => ?_))
  refine ⟨_, moves_still rfl (fun _ => trivial) rfl, ?_⟩
  refine follows_bind (follows_cat (follows_load fun table' => ?_))
  refine ⟨⟨some call, .sweep idx gen (some (table'.slot idx).headOff) none none, look⟩, ?_, ?_⟩
  · rintro store rfl
    exact .inr ⟨.inl rfl, rfl, .place, .still trivial⟩
  refine follows_then (follows_finished entitled _) ?_
  rintro (_ | _) _ ⟨held, rfl⟩
  · refine follows_seq (follows_cat follows_abortReclaim) fun _ => ?_
    exact .inl rfl
  · refine follows_then (follows_cat (follows_finishReclaim entitled)) ?_
    rintro (_ | next) _ rfl
    · exact .inl rfl
    · refine follows_seq (follows_cat follows_pushFree) fun _ => ?_
      exact .inr rfl

end

theorem follows_sweepTombstones :
    (sweepTombstones catalog pool : KeyAct Content Nat).Leads (moves catalog pool .sweep)
      (bare .sweep .idle) .resting := by
  have among (slots : List Nat) :
      (reclaimAmong tableOf .table (finished pool) slots : KeyAct Content Nat).Leads (moves catalog pool .sweep)
        (bare .sweep .idle) (bare .sweep .idle) := by
    induction slots with
    | nil => exact rfl
    | cons idx rest ih =>
      refine follows_bind (follows_cat (follows_load fun table => ?_))
      refine ⟨_, moves_still rfl (fun _ => trivial) rfl, ?_⟩
      split
      · refine follows_then (follows_tryReclaimSlot (.inl ⟨rfl, rfl⟩)) fun freed later after => ?_
        obtain rfl : later = bare .sweep .idle := after.elim id id
        refine follows_seq ih fun _ => ?_
        exact rfl
      · exact ih
  refine follows_bind (follows_cat (follows_load fun table => ?_))
  refine ⟨bare .sweep .idle, ?_, among _⟩
  rintro store rfl
  exact .inr ⟨.inr ⟨rfl, rfl⟩, rfl, .still (same_refl store) ⟨fun _ _ => rfl, fun _ => rfl⟩, .still rfl⟩

section

variable {keyId idx gen : Nat}

/-- An evict reads the generation to strike at. -/
theorem follows_aim :
    (cat (Keyed.gen idx) : KeyAct Content _).Follows (moves catalog pool (.evict keyId))
      (fun expected later => later = bare (.evict keyId) (.aimed idx gen expected))
      (bare (.evict keyId) (.found idx gen .nothing)) := by
  refine follows_cat (follows_bind (follows_load fun table => ?_))
  exact ⟨bare (.evict keyId) (.aimed idx gen (table.slot idx).word.gen),
    moves_read (by rintro store rfl; exact .aim) rfl, rfl⟩

theorem follows_strike (expected : Nat) :
    (cat (tombstoneGen idx expected) : KeyAct Content _).Follows (moves catalog pool (.evict keyId))
      (fun won later => later = bare (.evict keyId) (if won then .struck idx gen none else .aimed idx gen expected))
      (bare (.evict keyId) (.aimed idx gen expected)) := by
  refine follows_cat (follows_bind (follows_compareExchange (fun table got => ?_) fun table _ => ?_))
  · refine ⟨bare (.evict keyId) (.struck idx gen none), ?_, rfl⟩
    rintro store rfl
    exact .inr ⟨.inl rfl, rfl, .strike got (amended_set store), .strike got⟩
  · exact ⟨_, moves_still rfl (fun _ => rfl) rfl, rfl⟩

theorem follows_teardownSlot (expected : Nat) :
    (teardown pool idx expected : KeyAct Content _).Follows (moves catalog pool (.evict keyId))
      (fun out later => Returning (.evict keyId) (.evicted out) later)
      (bare (.evict keyId) (.struck idx gen none)) := by
  have reclaims {place : Option Nat} :
      (tryReclaimSlot pool idx >>= fun _ => pure (.ok ()) : KeyAct Content (Except StoreError Unit)).Follows
        (moves catalog pool (.evict keyId)) (fun out later => Returning (.evict keyId) (.evicted out) later)
        (bare (.evict keyId) (.struck idx gen place)) := by
    refine follows_then (follows_tryReclaimSlot (.inr ⟨⟨keyId, rfl⟩, gen, place, rfl⟩)) ?_
    rintro _ _ (rfl | rfl) <;> exact .inr ⟨rfl, rfl, trivial⟩
  refine follows_bind (follows_cat (follows_load fun table => ?_))
  refine ⟨_, moves_still rfl (fun _ => trivial) rfl, ?_⟩
  refine follows_bind (follows_cat (follows_load fun table' => ?_))
  refine ⟨bare (.evict keyId) (.struck idx gen (some (table'.slot idx).headOff)),
    moves_read (by rintro store rfl; exact .locate) rfl, ?_⟩
  have located : Located Content (.evict keyId) (table'.slot idx).headOff
      (bare (.evict keyId) (.struck idx gen (some (table'.slot idx).headOff))) :=
    ⟨rfl, fun _ _ _ => ⟨idx, gen, _, rfl, .inl rfl⟩⟩
  have attached (name : Nat) : (attachAtIncarnation name pool expected : Artifact.StoreAct Content _).Leads
      (onHead (table'.slot idx).headOff (@moves Content catalog pool (.evict keyId)))
      (bare (.evict keyId) (.struck idx gen (some (table'.slot idx).headOff)))
      (bare (.evict keyId) (.struck idx gen (some (table'.slot idx).headOff))) := by
    refine follows_bind (follows_load_ite (fun shelf _ => ⟨_, moves_head located rfl, rfl⟩)
      fun shelf _ => ⟨_, moves_head located rfl, ?_⟩)
    show Follows _ (ite (shelf.memory.head.incarnation ≠ expected) _ _) _ _
    split <;> exact rfl
  refine follows_then (follows_on (attached _)) ?_
  rintro (_ | artifact) _ rfl
  · exact reclaims
  refine follows_seq (follows_on (follows_teardown located artifact)) fun out => ?_
  split
  · exact reclaims
  · exact reclaims
  · exact .inr ⟨rfl, rfl, trivial⟩

theorem follows_evict :
    (evict catalog pool keyId : KeyAct Content _).Follows (moves catalog pool (.evict keyId))
      (fun out later => Returning (.evict keyId) (.evicted out) later) .resting := by
  refine follows_then (follows_findLiveByKey nofun) ?_
  rintro (_ | idx) later got
  · subst got
    exact .inr ⟨rfl, rfl, trivial⟩
  obtain ⟨gen, rfl⟩ := got
  refine follows_seq follows_aim fun expected => ?_
  refine follows_then (follows_strike expected) ?_
  rintro (_ | _) _ rfl
  · exact .inr ⟨rfl, rfl, trivial⟩
  · exact follows_teardownSlot expected

end

/-- Between calls an actor stands nowhere, or is lost. -/
def Between (_ : Unit) (phase : KeyPhase) : Prop := phase = .resting ∨ phase.look = .lost

theorem follows_answer : (call : KeyCall) →
    (answer catalog pool call : KeyAct Content KeyAnswer).Follows (moves catalog pool call) (Returning call) .resting
  | .create _ _ => follows_map follows_create
  | .open _ => follows_map follows_openId
  | .evict _ => follows_map follows_evict
  | .sweep => follows_map (follows_mono follows_sweepTombstones (by rintro _ _ rfl; exact .inr ⟨rfl, rfl, trivial⟩))

theorem follows_answerAndReturn (between : Between () phase) :
    (answerAndReturn catalog pool call : KeyAct Content KeyAnswer).Follows (moves catalog pool call)
      (fun _ later => Between () later) phase := by
  rcases between with rfl | lost
  · refine follows_then (follows_answer call) ?_
    rintro answer ⟨_, custody, look⟩ (lost | ⟨rfl, rfl, answers⟩)
    · exact fun store => ⟨_, .inl ⟨lost, rfl⟩, .inr lost⟩
    · exact fun store => ⟨.resting, .inr ⟨.inl rfl, rfl, .still (same_refl store) trivial, .done answers⟩, .inl rfl⟩
  · exact follows_mono (follows_lost lost _) fun _ _ lost => .inr lost

end

/-- The protocol of the labelled calls. -/
def keyMoves {Content : Type} (catalog : Catalog) (pool : Pool) (call : KeyCall) :
    Protocol (Store Content) (KeyCall × KeySite) KeyPhase :=
  fun site phase later before after => site.1 = call ∧ call.issued ∧
    moves catalog pool call site.2 phase later before after

variable {Content : Type} {catalog : Catalog} {pool : Pool} {call : KeyCall} {phase later : KeyPhase} {site : KeySite}
  {before after : Store Content}

/-- Every call of every user follows the protocol. -/
theorem follows_program (issued : call.issued) (between : Between () phase) :
    ((answerAndReturn catalog pool call : KeyAct Content KeyAnswer).label call).Follows (keyMoves catalog pool call)
      (fun _ later => Between () later) phase :=
  follows_label (follows_loosen (fun _ _ _ _ _ move => ⟨rfl, issued, move⟩) (follows_answerAndReturn between))

/-- Custody is sound, nobody is lost, and only creates have slots in hand. -/
structure Steady {Content : Type} (catalog : Catalog) (ledger : Ledger) (store : Store Content)
    (phases : Nat → KeyPhase) : Prop where
  sound : Sound catalog ledger store fun actor => (phases actor).custody
  found : ∀ actor, (phases actor).look ≠ .lost
  handed : ∀ actor keyId idx stage, (phases actor).custody = .hand keyId idx stage →
    ∃ kind, (phases actor).call = some (.create keyId kind)

theorem custodies_update (phases : Nat → KeyPhase) (who : Nat) (later : KeyPhase) :
    (fun other => (Function.update phases who later other).custody) =
      Function.update (fun other => (phases other).custody) who later.custody := by
  funext other
  by_cases same : other = who
  · subst other
    simp
  · simp [same]

/-- A call that has a slot in hand does not return. -/
theorem Moved.handed (moved : Moved catalog pool call site phase later before after)
    (already : ∀ idx stage, phase.custody = .hand keyId idx stage → ∃ kind, phase.call = some (.create keyId kind))
    (hand : later.custody = .hand keyId idx stage) : ∃ kind, later.call = some (.create keyId kind) := by
  rw [moved.next]
  rcases moved.turn.hand_after hand with ⟨stage', before'⟩ | ⟨_, ⟨kind, rfl⟩, rfl | rfl⟩
  · obtain ⟨kind, called⟩ := already idx stage' before'
    have under : phase.call = some call := moved.under.resolve_right fun resting => by
      rw [resting.1] at called
      cases called
    rw [called] at under
    obtain rfl := Option.some.inj under
    have glance := moved.glance
    rw [before'] at glance
    cases site with
    | table | head => exact ⟨kind, rfl⟩
    | returned answer =>
      generalize later.look = look' at glance
      generalize phase.look = look at glance
      cases glance with
      | still plain => exact plain.elim
  · exact ⟨kind, rfl⟩
  · exact ⟨kind, rfl⟩

/-- A move between stores that are both in order, from phases that are steady. -/
structure Stepping (catalog : Catalog) (pool : Pool) (ledger : Ledger) (phases : Nat → KeyPhase) (actor : Nat)
    (call : KeyCall) (site : KeySite) (later : KeyPhase) (before after : Store Content) : Prop where
  apart : catalog.Apart
  steady : Steady catalog ledger before phases
  orderly : Orderly catalog before.table ledger.floor.2
  ordered : Orderly catalog after.table (ledger.note catalog actor (call, site) before after).floor.2
  moved : Moved catalog pool call site (phases actor) later before after

/-- Every move keeps custody sound and loses nobody. -/
theorem Stepping.keeps (step : Stepping catalog pool ledger phases who call site later before after) :
    Steady catalog (ledger.note catalog who (call, site) before after) after (Function.update phases who later) := by
  have steady := step.steady
  refine ⟨?_, ?_, ?_⟩
  · rw [custodies_update]
    exact steady.sound.turn step.orderly step.apart step.moved.turn step.ordered
  · intro other
    by_cases same : other = who
    · subst other
      rw [Function.update_self]
      intro lost
      have glance := step.moved.glance
      have holds := steady.sound.holds who
      rw [lost] at glance
      generalize custody : (phases who).custody = mine at glance holds
      generalize look : (phases who).look = seen at glance
      cases glance with
      | still plain => exact steady.found who look
      | lose busy => exact busy (step.orderly.free who _ holds.1)
    · rw [Function.update_of_ne same]
      exact steady.found other
  · intro other keyId idx stage hand
    by_cases same : other = who
    · subst other
      rw [Function.update_self] at hand ⊢
      exact step.moved.handed (steady.handed who keyId) hand
    · rw [Function.update_of_ne same] at hand ⊢
      exact steady.handed other keyId idx stage hand

theorem steady_empty (catalog : Catalog) (pool : Pool) :
    Steady catalog (emptyStore Content pool).history (emptyStore Content pool).state fun _ => .resting :=
  ⟨sound_empty catalog pool, nofun, nofun⟩

end ShmActors.Keyed
