import ShmActors.Artifact.Quiet

/-! The protocol on the head: what a claim, an install, a retire, a pin and a
teardown do to it, access by access, as moves between phases. -/

namespace ShmActors.Artifact

open Lib Core Program Function

variable {Content : Type}

/-- What a retire is after. -/
structure Errand where
  version : Nat
  manifest : Option PackedRef
  deriving DecidableEq

/-- Where an operation stands. A commit claims a slot, installs and endorses, or
gives the claim up; a retire looks for a slot, elects itself and frees it; a pin
is tried, then granted or undone. -/
inductive Doing where
  | idle
  | claiming (slot : Nat)
  | naming (slot : Nat) (manifest : PackedRef)
  | claimed (slot : Nat) (manifest : PackedRef) (expect : Nat)
  | deciding (slot : Nat) (manifest : PackedRef) (expect : Nat) (prior : PackedRef)
  | installed (slot : Nat) (manifest : PackedRef) (expect : Nat) (prior : PackedRef)
  | losing (slot : Nat) (manifest : PackedRef) (expect : Nat)
  | losingLive (slot : Nat) (manifest : PackedRef) (expect : Nat)
  | losingOwn (slot : Nat) (manifest : PackedRef) (expect : Nat)
  | losingWiped (slot : Nat) (manifest : PackedRef) (expect : Nat)
  | withdrawing (slot : Nat) (manifest : PackedRef) (expect : Nat)
  | withdrawingWiped (slot : Nat) (manifest : PackedRef) (expect : Nat)
  | withdrawingBare (slot : Nat) (manifest : PackedRef) (expect : Nat)
  | scanning (errand : Errand) (slot : Nat)
  | matching (errand : Errand) (slot : Nat)
  | matched (errand : Errand) (slot : Nat)
  | found (errand : Errand) (slot : Nat)
  | superseded (errand : Errand) (slot : Nat)
  | elected (errand : Errand) (slot : Nat)
  | reverting (errand : Errand) (slot : Nat)
  | reverted (errand : Errand) (slot : Nat)
  | reclaiming (slot : Nat)
  | releasing (slot : Nat) (manifest : PackedRef)
  | freeing (slot : Nat)
  | freeingBare (slot : Nat)
  | bumped (slot version : Nat)
  | bumpedLive (slot version : Nat)
  | bumpedOwn (slot version : Nat)
  | bumpedEndorsed (slot version : Nat) (endorsed : PackedRef)
  | undone (slot : Nat)
  | dropped (version : Nat)
  deriving DecidableEq

/-- The pins granted to an actor, as slot and version, and what it is doing. -/
structure Phase where
  doing : Doing
  held : List (Nat × Nat)

/-- The version after `expect`. -/
def successor (expect : Nat) : Nat := (expect + 1) % 2 ^ 64

/-- The pin count after a bump, on 32 bits. -/
def raised (pins : Nat) : Nat := (pins + 1) % 2 ^ 32

/-- The pin count after an unpin. -/
def lowered (pins : Nat) : Nat := (pins + 2 ^ 32 - 1) % 2 ^ 32

/-- The scan of a retire, before it looks at `slot`. -/
def Errand.at (errand : Errand) (slot : Nat) : Doing :=
  if slot < MAX_LIVE_VERSIONS then .scanning errand slot else .idle

/-- The retire a commit owes once it has endorsed its manifest. -/
def owed (expect : Nat) (prior : PackedRef) : Doing :=
  if expect = noVersion then .idle else .scanning ⟨expect, some prior⟩ 0

section

variable (slot : Nat) (mem : Memory Content)

@[simp] theorem pins_set_version (version : Nat) :
    ((slotVersion slot).set version mem).head.pins =
      update mem.head.pins slot { mem.head.pins slot with version := version } := rfl

@[simp] theorem pins_set_manifest (manifest : PackedRef) :
    ((slotManifest slot).set manifest mem).head.pins =
      update mem.head.pins slot { mem.head.pins slot with manifest := manifest } := rfl

@[simp] theorem pins_set_pins (pins : Nat) :
    ((slotPins slot).set pins mem).head.pins =
      update mem.head.pins slot { mem.head.pins slot with pins := pins } := rfl

@[simp] theorem pins_set_state (st : SlotState) :
    ((slotState slot).set st mem).head.pins =
      update mem.head.pins slot { mem.head.pins slot with state := st } := rfl

end

/-- The part of the head that the protocol is about is the same. -/
structure SameHead (before after : ArtifactHead) : Prop where
  current : after.current = before.current
  manifestDesc : after.manifestDesc = before.manifestDesc
  incarnation : after.incarnation = before.incarnation
  pins : after.pins = before.pins

theorem SameHead.refl (head : ArtifactHead) : SameHead head head := ⟨rfl, rfl, rfl, rfl⟩

/-- The accesses that change nothing of it and are not logged. -/
structure Aside (site : Site) (before after : Memory Content) : Prop where
  same : SameHead before.head after.head
  silent : ∀ actor log, record actor site before after log = log

section

variable (clears commits : Prop)

/-- The moves. Those of a teardown are there only if `clears`, those of a commit
only if `commits`. -/
inductive Move : Site → Phase → Phase → Memory Content → Memory Content → Prop where
  | aside (aside : Aside site before after) :
      Move site phase phase before after
  | claim (committing : commits) (free : (before.head.pins slot).state = .free) :
      Move (.claim slot) ⟨.idle, held⟩ ⟨.claiming slot, held⟩ before
        ((slotState slot).set .live before)
  | name (manifest : PackedRef) :
      Move (.claimManifest slot) ⟨.claiming slot, held⟩ ⟨.naming slot manifest, held⟩ before
        ((slotManifest slot).set manifest before)
  | number (expect : Nat) :
      Move (.claimVersion slot) ⟨.naming slot manifest, held⟩ ⟨.claimed slot manifest expect, held⟩
        before ((slotVersion slot).set (successor expect) before)
  | decide :
      Move .loadManifestDesc ⟨.claimed slot manifest expect, held⟩
        ⟨.deciding slot manifest expect before.head.manifestDesc, held⟩ before before
  | install (now : before.head.current = expect) :
      Move .install ⟨.deciding slot manifest expect prior, held⟩
        ⟨.installed slot manifest expect prior, held⟩ before (current.set (successor expect) before)
  | lose (moved : before.head.current ≠ expect) :
      Move .install ⟨.deciding slot manifest expect prior, held⟩
        ⟨.losing slot manifest expect, held⟩ before before
  | endorse :
      Move .publishManifestDesc ⟨.installed slot manifest expect prior, held⟩
        ⟨owed expect prior, held⟩ before (manifestDesc.set manifest before)
  | loseLive (live : (before.head.pins slot).state = .live) :
      Move (.slotState slot) ⟨.losing slot manifest expect, held⟩
        ⟨.losingLive slot manifest expect, held⟩ before before
  | loseGone (gone : (before.head.pins slot).state ≠ .live) :
      Move (.slotState slot) ⟨.losing slot manifest expect, held⟩ ⟨.idle, held⟩ before before
  | loseOwn
      (own : (before.head.pins slot).version = successor expect) :
      Move (.slotVersion slot) ⟨.losingLive slot manifest expect, held⟩
        ⟨.losingOwn slot manifest expect, held⟩ before before
  | loseOther
      (other : (before.head.pins slot).version ≠ successor expect) :
      Move (.slotVersion slot) ⟨.losingLive slot manifest expect, held⟩ ⟨.idle, held⟩ before before
  | loseWipe :
      Move (.clearVersion slot) ⟨.losingOwn slot manifest expect, held⟩
        ⟨.losingWiped slot manifest expect, held⟩ before ((slotVersion slot).set 0 before)
  | loseFree :
      Move (.clearState slot) ⟨.losingWiped slot manifest expect, held⟩ ⟨.idle, held⟩ before
        ((slotState slot).set .free before)
  | withdraw :
      Move .incarnation ⟨.claimed slot manifest expect, held⟩
        ⟨.withdrawing slot manifest expect, held⟩ before before
  | withdrawWipe :
      Move (.clearVersion slot) ⟨.withdrawing slot manifest expect, held⟩
        ⟨.withdrawingWiped slot manifest expect, held⟩ before ((slotVersion slot).set 0 before)
  | withdrawBare :
      Move (.clearManifest slot) ⟨.withdrawingWiped slot manifest expect, held⟩
        ⟨.withdrawingBare slot manifest expect, held⟩ before ((slotManifest slot).set .zero before)
  | withdrawFree :
      Move (.clearState slot) ⟨.withdrawingBare slot manifest expect, held⟩ ⟨.idle, held⟩ before
        ((slotState slot).set .free before)
  | scanLive (live : (before.head.pins slot).state = .live) :
      Move (.slotState slot) ⟨.scanning errand slot, held⟩ ⟨.matching errand slot, held⟩ before before
  | scanPast (past : (before.head.pins slot).state ≠ .live) :
      Move (.slotState slot) ⟨.scanning errand slot, held⟩ ⟨errand.at (slot + 1), held⟩ before before
  | matchVersion (named : errand.manifest ≠ none)
      (same : (before.head.pins slot).version = errand.version) :
      Move (.slotVersion slot) ⟨.matching errand slot, held⟩ ⟨.matched errand slot, held⟩ before before
  | findVersion (unnamed : errand.manifest = none)
      (same : (before.head.pins slot).version = errand.version) :
      Move (.slotVersion slot) ⟨.matching errand slot, held⟩ ⟨.found errand slot, held⟩ before before
  | passVersion (other : (before.head.pins slot).version ≠ errand.version) :
      Move (.slotVersion slot) ⟨.matching errand slot, held⟩ ⟨errand.at (slot + 1), held⟩ before before
  | findManifest
      (same : errand.manifest = some (before.head.pins slot).manifest) :
      Move (.slotManifest slot) ⟨.matched errand slot, held⟩ ⟨.found errand slot, held⟩ before before
  | passManifest
      (other : errand.manifest ≠ some (before.head.pins slot).manifest) :
      Move (.slotManifest slot) ⟨.matched errand slot, held⟩ ⟨errand.at (slot + 1), held⟩ before before
  | spare (now : before.head.current = errand.version) :
      Move .loadCurrent ⟨.found errand slot, held⟩ ⟨.idle, held⟩ before before
  | supersede (moved : before.head.current ≠ errand.version) :
      Move .loadCurrent ⟨.found errand slot, held⟩ ⟨.superseded errand slot, held⟩ before before
  | elect (live : (before.head.pins slot).state = .live) :
      Move (.elect slot) ⟨.superseded errand slot, held⟩ ⟨.elected errand slot, held⟩ before
        ((slotState slot).set .freeing before)
  | outvoted (gone : (before.head.pins slot).state ≠ .live) :
      Move (.elect slot) ⟨.superseded errand slot, held⟩ ⟨.idle, held⟩ before before
  | scanPinned (pinned : (before.head.pins slot).pins ≠ 0) :
      Move (.pinScan slot) ⟨.elected errand slot, held⟩ ⟨.reverting errand slot, held⟩ before before
  | scanFree (unpinned : (before.head.pins slot).pins = 0) :
      Move (.pinScan slot) ⟨.elected errand slot, held⟩ ⟨.reclaiming slot, held⟩ before before
  | revert :
      Move (.revert slot) ⟨.reverting errand slot, held⟩ ⟨.reverted errand slot, held⟩ before
        ((slotState slot).set .live before)
  | leave (pinned : (before.head.pins slot).pins ≠ 0) :
      Move (.pinScan slot) ⟨.reverted errand slot, held⟩ ⟨.idle, held⟩ before before
  | again (unpinned : (before.head.pins slot).pins = 0) :
      Move (.pinScan slot) ⟨.reverted errand slot, held⟩ ⟨errand.at 0, held⟩ before before
  | release :
      Move (.slotManifest slot) ⟨.reclaiming slot, held⟩
        ⟨.releasing slot (before.head.pins slot).manifest, held⟩ before before
  | wipe :
      Move (.clearVersion slot) ⟨.releasing slot manifest, held⟩ ⟨.freeing slot, held⟩ before
        ((slotVersion slot).set 0 before)
  | bare :
      Move (.clearManifest slot) ⟨.freeing slot, held⟩ ⟨.freeingBare slot, held⟩ before
        ((slotManifest slot).set .zero before)
  | free :
      Move (.clearState slot) ⟨.freeingBare slot, held⟩ ⟨.idle, held⟩ before
        ((slotState slot).set .free before)
  | bump :
      Move (.publishPin slot) ⟨.idle, held⟩ ⟨.bumped slot version, held⟩ before
        ((slotPins slot).set (raised (before.head.pins slot).pins) before)
  | acceptLive (live : (before.head.pins slot).state = .live) :
      Move (.slotState slot) ⟨.bumped slot version, held⟩ ⟨.bumpedLive slot version, held⟩ before before
  | acceptOwn (own : (before.head.pins slot).version = version) :
      Move (.slotVersion slot) ⟨.bumpedLive slot version, held⟩ ⟨.bumpedOwn slot version, held⟩
        before before
  | acceptEndorsed :
      Move .loadManifestDesc ⟨.bumpedOwn slot version, held⟩
        ⟨.bumpedEndorsed slot version before.head.manifestDesc, held⟩ before before
  | grant (own : (before.head.pins slot).manifest = endorsed) :
      Move (.slotManifest slot) ⟨.bumpedEndorsed slot version endorsed, held⟩
        ⟨.idle, (slot, version) :: held⟩ before before
  | undo (trial : doing = .bumped slot version ∨
        doing = .bumpedLive slot version ∨ doing = .bumpedOwn slot version ∨
        ∃ endorsed, doing = .bumpedEndorsed slot version endorsed) :
      Move (.unpin slot) ⟨doing, held⟩
        ⟨if (before.head.pins slot).pins = 1 then .undone slot else .idle, held⟩ before
        ((slotPins slot).set (lowered (before.head.pins slot).pins) before)
  | resign (own : (slot, version) ∈ held) :
      Move (.unpin slot) ⟨.idle, held⟩
        ⟨if (before.head.pins slot).pins = 1 then .undone slot else .idle, held.erase (slot, version)⟩
        before ((slotPins slot).set (lowered (before.head.pins slot).pins) before)
  | drop (own : (slot, version) ∈ held) :
      Move (.unpin slot) ⟨.idle, held⟩
        ⟨if (before.head.pins slot).pins = 1 then .dropped version else .idle,
          held.erase (slot, version)⟩ before
        ((slotPins slot).set (lowered (before.head.pins slot).pins) before)
  | undoVersion :
      Move (.slotVersion slot) ⟨.undone slot, held⟩
        ⟨if (before.head.pins slot).version = 0 then .idle else .dropped (before.head.pins slot).version,
          held⟩ before before
  | dropCurrent :
      Move .loadCurrent ⟨.dropped version, held⟩
        ⟨if before.head.current = version then .idle else Errand.at ⟨version, none⟩ 0, held⟩ before before
  | clearCurrent (clearing : clears) :
      Move .clearCurrent ⟨.idle, held⟩ ⟨.idle, held⟩ before (current.set noVersion before)
  | clearManifestDesc (clearing : clears) :
      Move .clearManifestDesc ⟨.idle, held⟩ ⟨.idle, held⟩ before (manifestDesc.set .zero before)
  | target (clearing : clears) :
      Move (.slotVersion slot) ⟨.idle, held⟩
        ⟨Errand.at ⟨(before.head.pins slot).version, none⟩ 0, held⟩ before before

end

section

variable {clears commits : Prop} {phase : Phase} {held : List (Nat × Nat)} {own : Own}

/-- The protocol of one artifact's head. -/
abbrev moves (clears commits : Prop) : Protocol (Memory Content) Site Phase := Move clears commits

/-- Code that carries what is being done to its end. -/
abbrev Ends (clears commits : Prop) (code : Act Content Value) (doing : Doing) (held : List (Nat × Nat)) : Prop :=
  code.Leads (moves clears commits) ⟨.idle, held⟩ ⟨doing, held⟩

theorem Move.incarnation (move : Move clears commits place phase later old new) :
    new.head.incarnation = old.head.incarnation := by
  cases move with
  | aside aside => exact aside.same.incarnation
  | _ => rfl

theorem offside_aside (clears commits : Prop) (phase : Phase) :
    Offside (fun site (update : Memory Content → Memory Content) =>
      ∀ mem, Move clears commits site phase phase mem (update mem)) where
  heap site update area keeps mem := by
    obtain ⟨heap, eq⟩ := keeps mem
    refine .aside ⟨?_, fun who log => ?_⟩
    · rw [eq]
      exact .refl _
    · cases site <;> first | rfl | cases area
  journal site update area keeps mem := by
    obtain ⟨journals, eq⟩ := keeps mem
    refine .aside ⟨?_, fun who log => ?_⟩
    · rw [eq]
      exact .refl _
    · cases site <;> first | rfl | cases area
  lease update keeps mem := by
    obtain ⟨lease, -, eq⟩ := keeps mem
    refine .aside ⟨?_, fun who log => rfl⟩
    rw [eq]
    exact ⟨rfl, rfl, rfl, rfl⟩
  reading site area mem := by
    refine .aside ⟨.refl _, fun who log => ?_⟩
    cases site <;> first | rfl | cases area

/-- Code beside the head leaves the phase as it is. -/
theorem follows_beside {code : Act Content Value} (phase : Phase)
    (every : ∀ {kind : Kind Content}, Offside kind → code.Every kind) :
    code.Leads (moves clears commits) phase phase :=
  follows_of_every (every (offside_aside clears commits phase))

theorem follows_past {rest : Value → Act Content Other}
    (every : ∀ {kind : Kind Content}, Offside kind → code.Every kind)
    (later : ∀ val, (rest val).Follows (moves clears commits) post phase) :
    (code >>= rest).Follows (moves clears commits) post phase :=
  follows_seq (follows_beside phase every) later

theorem aside_load (reads : site.reads = true) (mem : Memory Content) :
    Move clears commits site phase phase mem mem :=
  (offside_aside clears commits phase).reading site reads mem

section

variable {errand : Errand}

theorem at_of_lt (known : slot < MAX_LIVE_VERSIONS) : errand.at slot = .scanning errand slot :=
  if_pos known

/-- The check of one slot by a retire. -/
def Errand.check (errand : Errand) : Nat → Act Content Bool :=
  match errand.manifest with
  | some manifest => tracksManifest errand.version manifest
  | none => tracks errand.version

theorem follows_tracks (hit : ∀ mem : Memory Content, (mem.head.pins slot).version = errand.version →
      Move clears commits (.slotVersion slot) ⟨.matching errand slot, held⟩ ⟨matched, held⟩ mem mem) :
    (tracks errand.version slot : Act Content Bool).Follows (moves clears commits)
      (fun got later => later = ⟨if got then matched else errand.at (slot + 1), held⟩)
      ⟨.scanning errand slot, held⟩ := by
  refine follows_load_ite (fun mem past => ⟨_, .scanPast past, rfl⟩)
    fun mem live => ⟨_, .scanLive (not_not.mp live), ?_⟩
  · intro mem
    by_cases same : (mem.head.pins slot).version = errand.version
    · refine ⟨_, hit mem same, ?_⟩
      show _ = Phase.mk (if decide ((mem.head.pins slot).version = errand.version) then _ else _) held
      rw [if_pos (decide_eq_true same)]
    · refine ⟨_, .passVersion same, ?_⟩
      show _ = Phase.mk (if decide ((mem.head.pins slot).version = errand.version) then _ else _) held
      rw [if_neg (by simpa using same)]

theorem follows_check (errand : Errand) (slot : Nat) (held : List (Nat × Nat)) :
    (errand.check slot : Act Content Bool).Follows (moves clears commits)
      (fun got later => later = ⟨if got then .found errand slot else errand.at (slot + 1), held⟩)
      ⟨.scanning errand slot, held⟩ := by
  obtain ⟨version, manifest⟩ := errand
  cases manifest with
  | none =>
    apply follows_tracks
    exact fun mem same => .findVersion rfl same
  | some manifest =>
    refine follows_then (follows_tracks fun mem same => .matchVersion (by simp) same) ?_
    rintro got _ rfl
    cases got with
    | false => rfl
    | true =>
      intro mem
      by_cases same : (mem.head.pins slot).manifest = manifest
      · refine ⟨_, .findManifest (by rw [same]), ?_⟩
        show _ = Phase.mk (if decide ((mem.head.pins slot).manifest = manifest) then _ else _) held
        rw [if_pos (decide_eq_true same)]
      · refine ⟨_, .passManifest (by simpa using Ne.symm same), ?_⟩
        show _ = Phase.mk (if decide ((mem.head.pins slot).manifest = manifest) then _ else _) held
        rw [if_neg (by simpa using same)]

theorem follows_findFrom (errand : Errand) (count : Nat) (total : slot + count = MAX_LIVE_VERSIONS) :
    (findFrom errand.check (List.range' slot count) : Act Content (Option Nat)).Follows (moves clears commits)
      (fun got later => later = ⟨match got with
        | some slot => .found errand slot
        | none => .idle, held⟩) ⟨errand.at slot, held⟩ := by
  induction count generalizing slot with
  | zero =>
    show _ = _
    rw [Errand.at, if_neg (by omega)]
  | succ count ih =>
    rw [List.range'_succ, at_of_lt (by omega)]
    refine follows_seq (follows_check errand slot held) fun got => ?_
    cases got with
    | true => rfl
    | false => exact ih (by omega)

theorem follows_findRetired (errand : Errand) (held : List (Nat × Nat)) :
    (findRetired errand.version errand.manifest : Act Content (Option Nat)).Follows (moves clears commits)
      (fun got later => later = ⟨match got with
        | some slot => .found errand slot
        | none => .idle, held⟩) ⟨errand.at 0, held⟩ := by
  have whole : (findFrom errand.check (List.range' 0 MAX_LIVE_VERSIONS) : Act Content (Option Nat)).Follows
      (moves clears commits) (fun got later => later = ⟨match got with
        | some slot => .found errand slot
        | none => .idle, held⟩) ⟨errand.at 0, held⟩ :=
    follows_findFrom errand MAX_LIVE_VERSIONS (Nat.zero_add _)
  rw [← List.range_eq_range'] at whole
  obtain ⟨version, manifest⟩ := errand
  cases manifest <;> exact whole

theorem follows_reclaimElected (errand : Errand) (slot : Nat) (held : List (Nat × Nat)) :
    (reclaimElected pool slot : Act Content (Option Unit)).Follows (moves clears commits)
      (fun out later => later = ⟨match out with
        | some _ => .idle
        | none => errand.at 0, held⟩) ⟨.elected errand slot, held⟩ := by
  refine follows_load_ite (fun mem pinned => ⟨_, .scanPinned pinned, fun _ => ⟨_, .revert, ?_⟩⟩)
    fun mem unpinned => ⟨_, .scanFree (not_not.mp unpinned), ?_⟩
  · exact follows_load_ite (fun mem still => ⟨_, .leave still, rfl⟩)
      fun mem unpinned => ⟨_, .again (not_not.mp unpinned), rfl⟩
  · refine follows_bind (follows_load fun mem => ⟨_, .release, ?_⟩)
    refine follows_past (·.every_releaseManifestRef _ _) fun _ => ?_
    exact fun _ => ⟨_, .wipe, fun _ => ⟨_, .bare, fun _ => ⟨_, .free, rfl⟩⟩⟩

theorem follows_retireRound (errand : Errand) (held : List (Nat × Nat)) :
    (retireRound pool errand.version errand.manifest : Act Content (Option Unit)).Follows (moves clears commits)
      (fun out later => later = ⟨match out with
        | some _ => .idle
        | none => errand.at 0, held⟩) ⟨errand.at 0, held⟩ := by
  refine follows_seq (follows_findRetired errand held) fun got => ?_
  cases got with
  | none => rfl
  | some slot =>
    refine follows_load_ite (fun mem now => ⟨_, .spare now, rfl⟩) fun mem moved => ⟨_, .supersede moved, ?_⟩
    exact follows_bind (follows_bind (follows_compareExchange
      (fun mem live => ⟨_, .elect live, follows_reclaimElected errand slot held⟩)
      fun mem gone => ⟨_, .outvoted gone, rfl⟩))

theorem follows_tryRetireVersionAt (errand : Errand) (held : List (Nat × Nat)) :
    Ends clears commits (tryRetireVersionAt pool errand.version errand.manifest : Act Content Unit)
      (errand.at 0) held := by
  refine follows_repeatLoop (fun phase begun => ?_) (rfl : Phase.mk (errand.at 0) held = _)
  subst begun
  refine follows_mono (follows_retireRound errand held) ?_
  rintro out _ rfl
  cases out <;> rfl

end

section

theorem follows_claimFrom (committing : commits) (expect : Nat) (manifest : PackedRef) (slots : List Nat)
    (held : List (Nat × Nat)) :
    (claimFrom (successor expect) manifest slots : Act Content (Option Nat)).Follows (moves clears commits)
      (fun claimed later => later = ⟨match claimed with
        | some slot => .claimed slot manifest expect
        | none => .idle, held⟩) ⟨.idle, held⟩ := by
  induction slots with
  | nil => rfl
  | cons slot rest ih =>
    refine follows_bind (follows_compareExchange ?_ ?_)
    · exact fun mem free => ⟨_, .claim committing free, fun _ => ⟨_, .name manifest, fun _ => ⟨_, .number expect, rfl⟩⟩⟩
    · refine fun mem taken => ⟨_, .aside ⟨.refl _, fun who log => ?_⟩, ih⟩
      exact if_pos rfl

theorem follows_unclaim (slot : Nat) (manifest : PackedRef) (expect : Nat) (held : List (Nat × Nat)) :
    Ends clears commits (unclaim (some (slot, successor expect)) : Act Content Unit)
      (.losing slot manifest expect) held := by
  refine follows_load_ite (fun mem gone => ⟨_, .loseGone gone, rfl⟩)
    fun mem live => ⟨_, .loseLive (not_not.mp live), ?_⟩
  refine follows_load_ite (fun mem other => ⟨_, .loseOther other, rfl⟩)
    fun mem own => ⟨_, .loseOwn (not_not.mp own), ?_⟩
  exact fun _ => ⟨_, .loseWipe, fun _ => ⟨_, .loseFree, rfl⟩⟩

/-- The end of an install: the retire of the predecessor, and the journal. -/
theorem follows_retiring :
    Ends clears commits (do
      retirePrior artifact req prior
      dropRecord req recorded
      return .ok (target req) : Act Content (Except Error Nat)) (owed req.expect prior) held := by
  have retires : Ends clears commits (retirePrior artifact req prior : Act Content Unit)
      (owed req.expect prior) held := by
    unfold retirePrior owed
    by_cases none : req.expect = noVersion
    · rw [if_pos none, if_pos none]
      rfl
    · rw [if_neg none, if_neg none]
      exact follows_tryRetireVersionAt ⟨req.expect, some prior⟩ held
  refine follows_seq retires fun _ => ?_
  exact follows_then (follows_beside _ fun offside => offside.every_dropRecord _ _)
    fun _ _ new => new

theorem follows_finishInstall (named : .fromDesc chunk = manifest) :
    Ends clears commits (finishInstall artifact req chunk prior recorded : Act Content (Except Error Nat))
      (.installed slot manifest req.expect prior) held := by
  subst named
  refine follows_bind (follows_store fun mem => ⟨_, .endorse, ?_⟩)
  refine follows_bind (follows_compareExchange ?_ ?_)
  · exact fun mem _ => ⟨_, .aside ⟨⟨rfl, rfl, rfl, rfl⟩, fun _ _ => rfl⟩, follows_retiring⟩
  · exact fun mem _ => ⟨_, .aside ⟨⟨rfl, rfl, rfl, rfl⟩, fun _ _ => rfl⟩, follows_retiring⟩

theorem follows_abandon (slot : Nat) (manifest : PackedRef) (held : List (Nat × Nat)) :
    Ends clears commits (abandon artifact req prior chunk (some (slot, target req)) : Act Content Unit)
      (.losing slot manifest req.expect) held := by
  refine follows_seq (follows_unclaim slot manifest req.expect held) fun _ => ?_
  exact follows_beside _ (·.every_releaseAll _ _ _ _)

/-- An error after the journal entry is dropped. -/
theorem follows_refuse {reason : Error} :
    Ends clears commits (do
      dropRecord req recorded
      return .error reason : Act Content (Except Error Nat)) .idle held :=
  follows_beside _ fun offside => every_bind (offside.every_dropRecord _ _) fun _ => trivial

theorem follows_installClaimed (slot : Nat) (held : List (Nat × Nat)) :
    Ends clears commits (installClaimed artifact req prior chunk recorded slot : Act Content (Except Error Nat))
      (.claimed slot (.fromDesc chunk) req.expect) held := by
  refine follows_bind (follows_bind (follows_load fun mem => ?_))
  by_cases occupant : mem.head.incarnation = artifact.incarnation
  · refine ⟨_, aside_load rfl mem, ?_⟩
    show Follows _ (ite ((!decide (mem.head.incarnation = artifact.incarnation)) = true) _ _) _ _
    rw [if_neg (by simpa using occupant)]
    refine follows_bind (follows_load fun mem => ⟨_, .decide, ?_⟩)
    refine follows_bind (follows_compareExchange ?_ ?_)
    · exact fun mem now => ⟨_, .install now, follows_finishInstall rfl⟩
    · refine fun mem moved => ⟨_, .lose moved, ?_⟩
      refine follows_seq (follows_abandon slot _ held) fun _ => ?_
      exact follows_refuse
  · refine ⟨_, .withdraw, ?_⟩
    show Follows _ (ite ((!decide (mem.head.incarnation = artifact.incarnation)) = true) _ _) _ _
    rw [if_pos (by simpa using occupant)]
    refine follows_bind (fun _ => ⟨_, .withdrawWipe, fun _ => ⟨_, .withdrawBare, fun _ => ⟨_, .withdrawFree, ?_⟩⟩⟩)
    refine follows_past (·.every_rollback _ _ _ _) fun _ => ?_
    exact follows_refuse

theorem follows_install (committing : commits) (held : List (Nat × Nat)) :
    Ends clears commits (install artifact req prior chunk : Act Content (Except Error Nat)) .idle held := by
  refine follows_past (·.every_recordStaged _ _) fun recorded => ?_
  refine follows_seq (follows_claimFrom committing req.expect _ _ held) fun claimed => ?_
  cases claimed with
  | none =>
    refine follows_past (·.every_rollback _ _ _ _) fun _ => ?_
    exact follows_refuse
  | some slot => exact follows_installClaimed slot held

theorem follows_stageAndInstall (committing : commits) (held : List (Nat × Nat)) :
    Ends clears commits (stageAndInstall artifact req prior : Act Content (Except Error Nat)) .idle held := by
  refine follows_past (fun offside =>
    offside.every_stageChunk _ (offside.every_writeManifest _ _ _ _ _ _ _)) fun out => ?_
  cases out with
  | error reason =>
    exact follows_beside _ fun offside => every_bind (offside.every_rollback _ _ _ _) fun _ => trivial
  | ok chunk => exact follows_install committing held

theorem follows_commitPublished (committing : commits) (held : List (Nat × Nat)) :
    Ends clears commits (commitPublished artifact req : Act Content (Except Error Nat)) .idle held := by
  refine follows_past (·.every_appendLink _) fun link => ?_
  cases link with
  | error reason => rfl
  | ok link =>
    refine follows_past (·.every_windowKept _) fun window => ?_
    cases window with
    | error reason => rfl
    | ok window => exact follows_stageAndInstall committing held

theorem follows_commitStagedInnerJ (committing : commits) (req : Request) (held : List (Nat × Nat)) :
    Ends clears commits (commitStagedInnerJ artifact req : Act Content (Except Error Nat)) .idle held := by
  refine follows_past (·.every_isIncarnation _) fun live => ?_
  split
  · rfl
  split
  · rfl
  refine follows_past (·.every_fencedOut _) fun fenced => ?_
  split
  · exact follows_beside _ fun offside =>
      every_bind (every_forEach _ fun desc _ => offside.every_freeLoaned desc) fun _ => trivial
  refine follows_past (·.every_publishAll _ _) fun out => ?_
  cases out with
  | error reason => rfl
  | ok _ => exact follows_commitPublished committing held

end

section

theorem follows_retireUnlessCurrent (version : Nat) (held : List (Nat × Nat)) :
    Ends clears commits (retireUnlessCurrent pool version : Act Content Unit) (.dropped version) held := by
  refine follows_load_ite (fun mem now => ⟨_, .dropCurrent, if_pos now ▸ rfl⟩)
    fun mem (moved : mem.head.current ≠ version) => ⟨_, .dropCurrent, ?_⟩
  rw [if_neg moved]
  exact follows_tryRetireVersionAt ⟨version, none⟩ held

/-- An undo, from any phase in which the slot is pinned. -/
theorem follows_undoPin (unpins : ∀ mem : Memory Content, Move clears commits (.unpin slot) phase
      ⟨if (mem.head.pins slot).pins = 1 then .undone slot else .idle, kept⟩ mem
      ((slotPins slot).set (lowered (mem.head.pins slot).pins) mem)) :
    (undoPin pool slot : Act Content Unit).Leads (moves clears commits) ⟨.idle, kept⟩ phase := by
  refine follows_bind fun mem => ⟨_, unpins mem, ?_⟩
  show Follows _ (ite ((mem.head.pins slot).pins ≠ 1) _ _) _ _
  by_cases last : (mem.head.pins slot).pins = 1
  · rw [if_neg (not_not.mpr last), if_pos last]
    refine follows_load_ite (fun mem unset => ⟨_, .undoVersion, if_pos unset ▸ rfl⟩)
      fun mem (set : (mem.head.pins slot).version ≠ 0) => ⟨_, .undoVersion, ?_⟩
    rw [if_neg set]
    exact follows_retireUnlessCurrent _ kept
  · rw [if_pos last, if_neg last]
    rfl

/-- What a round of a pin leaves: the pin it grants is held. -/
def Granted (held : List (Nat × Nat)) (outcome : Option (Except Error VersionPin)) (later : Phase) : Prop :=
  later = ⟨.idle, match outcome with
    | some (.ok pin) => (pin.slotIdx, pin.version) :: held
    | _ => held⟩

theorem follows_retryPin (trial : phase.doing = .bumped slot version ∨ phase.doing = .bumpedLive slot version ∨
      phase.doing = .bumpedOwn slot version ∨ ∃ endorsed, phase.doing = .bumpedEndorsed slot version endorsed) :
    (retryPin artifact slot : Act Content _).Follows (moves clears commits) (Granted phase.held) phase := by
  refine follows_seq (follows_undoPin fun mem => .undo trial) fun _ => ?_
  rfl

variable (journal : Option BorrowJournal)

theorem follows_grantPin (version slot : Nat) (manifest : Manifest) (held : List (Nat × Nat)) :
    (grantPin artifact journal version slot manifest : Act Content _).Follows (moves clears commits) (Granted held)
      ⟨.idle, (slot, version) :: held⟩ := by
  cases journal with
  | none => rfl
  | some journal =>
    refine follows_past (·.every_record _ _) fun out => ?_
    cases out with
    | ok entry => rfl
    | error reason =>
      refine follows_seq (follows_undoPin fun mem => .resign List.mem_cons_self) fun _ => ?_
      simp [Granted, Follows]

theorem follows_readPinned (version slot : Nat) (held : List (Nat × Nat)) :
    (readPinned artifact journal version slot : Act Content _).Follows (moves clears commits) (Granted held)
      ⟨.bumpedOwn slot version, held⟩ := by
  refine follows_bind (follows_load fun mem => ⟨_, .acceptEndorsed, ?_⟩)
  generalize endorsed_eq : mem.head.manifestDesc = endorsed
  have read : (manifestDesc : Ref (Memory Content) PackedRef).get mem = endorsed := endorsed_eq
  rw [read]
  refine follows_load_ite (fun later other => ⟨_, aside_load rfl later, ?_⟩)
    fun later own => ⟨_, .grant (not_not.mp own), ?_⟩
  · exact follows_retryPin (.inr (.inr (.inr ⟨endorsed, rfl⟩)))
  · refine follows_past (·.every_readManifestChecked _ _ _) fun out => ?_
    cases out with
    | ok manifest => exact follows_grantPin journal version slot manifest held
    | error reason =>
      refine follows_seq (follows_undoPin fun mem => .resign List.mem_cons_self) fun _ => ?_
      simp [Granted, Follows]

theorem follows_pinAt (version slot : Nat) (held : List (Nat × Nat)) :
    (pinAt artifact journal version slot : Act Content _).Follows (moves clears commits) (Granted held)
      ⟨.idle, held⟩ := by
  refine follows_bind fun mem => ⟨⟨.bumped slot version, held⟩, .bump, ?_⟩
  show Follows _ (acceptPin slot version >>= _) _ _
  refine follows_bind (follows_load_ite (fun mem dead => ⟨_, aside_load rfl mem, ?_⟩)
    fun mem live => ⟨_, .acceptLive (not_not.mp live), ?_⟩)
  · exact follows_retryPin (.inl rfl)
  refine follows_bind (follows_load fun mem => ?_)
  by_cases own : (mem.head.pins slot).version = version
  · refine ⟨_, .acceptOwn own, ?_⟩
    show Follows _ (ite ((!decide ((mem.head.pins slot).version = version)) = true) _ _) _ _
    rw [if_neg (by simpa using own)]
    refine follows_bind (follows_bind (follows_load fun mem => ⟨_, aside_load rfl mem, ?_⟩))
    show Follows _ (ite _ _ _) _ _
    split
    · refine follows_seq (follows_undoPin fun mem => .undo (.inr (.inr (.inl rfl)))) fun _ => ?_
      rfl
    · exact follows_readPinned journal version slot held
  · refine ⟨_, aside_load rfl mem, ?_⟩
    show Follows _ (ite ((!decide ((mem.head.pins slot).version = version)) = true) _ _) _ _
    rw [if_pos (by simpa using own)]
    exact follows_retryPin (.inr (.inl rfl))

theorem follows_pinInner (held : List (Nat × Nat)) :
    (pinInner artifact journal : Act Content (Except Error VersionPin)).Follows (moves clears commits)
      (fun out later => Granted held (some out) later) ⟨.idle, held⟩ := by
  refine follows_repeatLoop (fun phase begun => ?_) (rfl : Phase.mk .idle held = _)
  subst begun
  refine follows_mono (?_ : (pinRound artifact journal : Act Content _).Follows (moves clears commits)
    (Granted held) _) ?_
  · refine follows_bind (follows_load fun mem => ⟨_, aside_load rfl mem, ?_⟩)
    split
    · rfl
    refine follows_past (·.every_findSlot _) fun got => ?_
    cases got with
    | none => rfl
    | some slot => exact follows_pinAt journal _ slot held
  · intro out later granted
    cases out with
    | none => exact granted.symm
    | some out => exact granted

theorem follows_releasePin (pin : VersionPin) (own : (pin.slotIdx, pin.version) ∈ held) :
    (releasePin artifact pin : Act Content Unit).Leads (moves clears commits)
      ⟨.idle, held.erase (pin.slotIdx, pin.version)⟩ ⟨.idle, held⟩ := by
  refine follows_bind fun mem => ⟨_, .drop own, ?_⟩
  show Follows _ (ite ((mem.head.pins pin.slotIdx).pins = 1) _ _) _ _
  by_cases last : (mem.head.pins pin.slotIdx).pins = 1
  · rw [if_pos last, if_pos last]
    exact follows_retireUnlessCurrent _ _
  · rw [if_neg last, if_neg last]
    rfl

/-- A drop lets go of the pin, unless a replay did: then it only forgets it. -/
theorem follows_dropPin (pin : VersionPin) (own : (pin.slotIdx, pin.version) ∈ held) :
    (dropPin artifact pin : Act Content Unit).Follows (moves clears commits)
      (fun _ later => later = ⟨.idle, held⟩ ∨ later = ⟨.idle, held.erase (pin.slotIdx, pin.version)⟩)
      ⟨.idle, held⟩ := by
  unfold dropPin
  split
  · exact follows_mono (follows_releasePin pin own) fun _ _ => .inr
  refine follows_past (·.every_release _ _) fun out => ?_
  split
  · exact .inl rfl
  · exact follows_mono (follows_releasePin pin own) fun _ _ => .inr

end

theorem follows_evictAll (held : List (Nat × Nat)) (clearing : clears) :
    Ends clears commits (evictAll artifact : Act Content (Except Error Unit)) .idle held := by
  refine follows_past (·.every_isIncarnation _) fun live => ?_
  split
  · rfl
  refine follows_past (·.every_seizeLease) fun token => ?_
  refine follows_past (·.every_isIncarnation _) fun occupant => ?_
  split
  · exact follows_beside _ fun offside =>
      every_bind (offside.every_releaseWriteLease _ _) fun _ => trivial
  refine follows_bind (follows_store fun mem => ⟨_, .clearCurrent clearing, ?_⟩)
  refine follows_bind (follows_store fun mem => ⟨_, .clearManifestDesc clearing, ?_⟩)
  refine follows_then (follows_forEach _ (fun slot _ phase begun => ?_)
    (rfl : Phase.mk .idle held = _)) ?_
  · subst begun
    refine follows_bind (follows_load fun mem => ⟨_, aside_load rfl mem, ?_⟩)
    split
    · rfl
    exact follows_load_ite (fun mem unset => ⟨_, aside_load rfl mem, rfl⟩) fun mem set =>
      ⟨_, .target clearing, follows_mono (follows_tryRetireVersionAt ⟨_, none⟩ held) fun _ _ new => new.symm⟩
  · rintro _ _ rfl
    exact follows_beside _ fun offside =>
      every_bind (offside.every_releaseWriteLease _ _) fun _ => trivial

/-- Between calls: an actor is idle, and the pins it has are granted to it. -/
structure Resting (own : Own) (phase : Phase) : Prop where
  idle : phase.doing = .idle
  pins : (own.pins.map fun pin => (pin.slotIdx, pin.version)).Subperm phase.held

theorem resting_erase (in_ : pin ∈ own.pins)
    (pins : (own.pins.map fun pin => (pin.slotIdx, pin.version)).Subperm held) :
    ((own.pins.erase pin).map fun pin => (pin.slotIdx, pin.version)).Subperm
      (held.erase (pin.slotIdx, pin.version)) := by
  have split := (List.perm_cons_erase in_).map fun pin : VersionPin => (pin.slotIdx, pin.version)
  have shorter := (split.symm.subperm.trans pins).erase (pin.slotIdx, pin.version)
  rwa [List.map_cons, List.erase_cons_head] at shorter

/-- Every call follows the protocol. -/
theorem follows_perform {call : Call Content} (holds : call.holds own) (resting : Resting own phase)
    (clearing : call = .evictAll → clears) (committing : call.commits = true → commits) :
    (perform artifact call).Follows (moves clears commits)
      (fun answer later => Resting ((own.give call).take answer) later) phase := by
  obtain ⟨doing, held⟩ := phase
  obtain ⟨idle, pins⟩ := resting
  cases idle
  have plain {Value : Type} {code : Act Content Value} {wrap : Value → Answer}
      (follows : Ends clears commits code .idle held)
      (same : ∀ val, ((own.give call).take (wrap val)).pins = own.pins) :
      (wrap <$> code).Follows (moves clears commits)
        (fun answer later => Resting ((own.give call).take answer) later) ⟨.idle, held⟩ := by
    rw [map_eq_pure_bind]
    refine follows_seq follows fun val => ?_
    exact ⟨rfl, by rw [same]; exact pins⟩
  have committed (commit : call.commits = true) : (perform artifact call).Follows (moves clears commits)
      (fun answer later => Resting ((own.give call).take answer) later) ⟨.idle, held⟩ := by
    have offside : Offside fun site update => ∀ phase, phase = Phase.mk .idle held → ∀ mem : Memory Content,
        ∃ later, moves clears commits site phase later mem (update mem) ∧ later = ⟨.idle, held⟩ :=
      (offside_aside clears commits ⟨.idle, held⟩).mono fun _ _ aside _ same mem =>
        ⟨_, same ▸ aside mem, rfl⟩
    refine follows_mono (follows_commits offside (fun req phase one => ?_) commit rfl) ?_
    · subst one
      exact follows_commitStagedInnerJ (committing commit) req held
    · rintro _ _ ⟨rfl, out, rfl⟩
      refine ⟨rfl, ?_⟩
      cases call with
      | commitOptimistic | commitExclusive | evictOptimistic | evictExclusive | commitStream => exact pins
      | _ => cases commit
  cases call with
  | openExclusive owner journal =>
    refine plain (follows_beside _ (·.every_openExclusive _ _ _)) fun val => ?_
    cases val <;> rfl
  | closeExclusive committer =>
    exact plain (follows_beside _ (·.every_dropCommitter _)) fun _ => rfl
  | commitOptimistic | commitExclusive | evictOptimistic | evictExclusive | commitStream => exact committed rfl
  | openStream journal owner kind coordination =>
    refine plain (follows_beside _ (·.every_openWith _ _ _ _)) fun val => ?_
    cases val <;> rfl
  | append writer batch =>
    exact plain (follows_beside _ (·.every_appendBatch _ _)) fun _ => rfl
  | abortStream writer =>
    exact plain (follows_beside _ (·.every_abort _)) fun _ => rfl
  | evictAll =>
    exact plain (follows_evictAll held (clearing rfl)) fun val => by cases val <;> rfl
  | pin journal =>
    show Follows _ (Answer.pinned <$> pinInner artifact journal) _ _
    rw [map_eq_pure_bind]
    refine follows_seq (follows_pinInner journal held) fun out => ?_
    refine ⟨rfl, ?_⟩
    cases out with
    | error reason => exact pins
    | ok pin => exact (List.subperm_cons _).mpr pins
  | dropPin pin =>
    show Follows _ ((fun _ => Answer.done) <$> dropPin artifact pin) _ _
    rw [map_eq_pure_bind]
    have shorter := resting_erase holds pins
    refine follows_then (follows_dropPin pin ?_) ?_
    · exact pins.subset (List.mem_map_of_mem holds)
    · rintro _ _ (rfl | rfl)
      · exact ⟨rfl, shorter.trans (List.erase_sublist).subperm⟩
      · exact ⟨rfl, shorter⟩

end

section

/-- The phases of a commit, up to the endorsement or the end of the rollback. -/
def Doing.committing : Doing → Bool
  | .claiming _ | .naming .. | .claimed .. | .deciding .. | .installed .. | .losing .. | .losingLive ..
  | .losingOwn .. | .losingWiped .. | .withdrawing .. | .withdrawingWiped .. | .withdrawingBare .. => true
  | _ => false

theorem committing_at (errand : Errand) (slot : Nat) : (errand.at slot).committing = false := by
  unfold Errand.at
  split <;> rfl

theorem committing_owed (expect : Nat) (prior : PackedRef) : (owed expect prior).committing = false := by
  unfold owed
  split <;> rfl

/-- Only a commit gets into a commit's phases. -/
theorem Move.committing (move : Move clears commits site phase later old new)
    (inside : later.doing.committing = true) : phase.doing.committing = true ∨ commits := by
  cases move with
  | aside => exact .inl inside
  | claim committing => exact .inr committing
  | name | number | decide | install | lose | loseLive | loseOwn | loseWipe | withdraw | withdrawWipe
  | withdrawBare => exact .inl rfl
  | endorse =>
    rw [committing_owed] at inside
    cases inside
  | scanPast | passVersion | passManifest | again | target =>
    rw [committing_at] at inside
    cases inside
  | undo | resign | drop | undoVersion =>
    dsimp only at inside
    split at inside <;> cases inside
  | dropCurrent =>
    dsimp only at inside
    split at inside
    · cases inside
    · rw [committing_at] at inside
      cases inside
  | _ =>
    cases inside

/-- The protocol of a call. -/
def callMoves (permitted : Call Content → Prop) (call : Call Content) :
    Protocol (Memory Content) (Call Content × Site) Phase :=
  fun site => Move (permitted call ∧ call = .evictAll) (call.commits = true) site.2

def During (call : Call Content) (phase : Phase) : Prop :=
  phase.doing.committing = true → call.commits = true

/-- The rule for callers of one artifact. -/
theorem guided_callers (keeps : (callers artifact permitted may).Keeps (callMoves permitted) inv)
    (one : inv [] (opening Content artifact).state fun _ => ⟨.idle, []⟩)
    (reached : (callers artifact permitted may).Reachable (opening Content artifact) run) :
    (callers artifact permitted may).Guided (callMoves permitted) inv Resting During run := by
  have start : (callers artifact permitted may).Guided (callMoves permitted) inv Resting During
      (opening Content artifact) := ⟨fun _ => ⟨.idle, []⟩, one, fun _ => ⟨rfl, .refl _⟩⟩
  refine Actors.guided_of_reachable start reached ?_ ?_ keeps
  · intro call site phase later old new inside move entered
    exact (move.committing entered).elim inside id
  · intro own call phase enabled resting
    refine ⟨fun entered => ?_, follows_label (follows_perform enabled.2 resting (fun tears => ⟨enabled.1, tears⟩) id)⟩
    rw [resting.idle] at entered
    cases entered

end

end ShmActors.Artifact
