import ShmActors.Artifact.Quiet

/-! A call of `record_entry` or `release`, access by access, as the journal sees it. -/

namespace ShmActors.Artifact

open Lib Core Program Function

/-- Whether a slot's bit is set. -/
def Journal.held (state : Journal) (slot : Nat) : Bool := (state.bitmap (slot / 64)).getLsbD (slot % 64)

/-- Where a call of `record_entry` stands: it looks for a clear bit, has found one,
has written its entry there, or has set the bit. -/
inductive Recording where
  | searching
  | chosen (slot : Nat)
  | noted (slot : Nat) (entry : JournalRecord)
  | recorded (slot : Nat) (entry : JournalRecord)

/-- The accesses to the journal's bits and entries. -/
def Site.logged : Site → Bool
  | .journalRecord _ | .journalRelease _ | .journalEntry _ => true
  | _ => false

section

variable {Content : Type} {bit other : Nat}

/-- The memory with an empty journal. -/
def blankJournal (journal : BorrowJournal) (memory : Memory Content) : Memory Content :=
  { memory with journals := update memory.journals journal.segment ⟨fun _ => 0, fun _ => none, 0⟩ }

/-- The journal after an access, up to the hint; the rest of the memory is as it was. -/
structure Rewritten (journal : BorrowJournal) (before after : Memory Content) (bit : Nat → Bool → Bool)
    (entry : Nat → Option JournalRecord → Option JournalRecord) : Prop where
  bits : ∀ slot, (after.journals journal.segment).held slot = bit slot ((before.journals journal.segment).held slot)
  entries : ∀ slot, (after.journals journal.segment).entries slot =
    entry slot ((before.journals journal.segment).entries slot)
  heap : after.heap = before.heap
  head : after.head = before.head

abbrev Unwritten (journal : BorrowJournal) (before after : Memory Content) : Prop :=
  Rewritten journal before after (fun _ bit => bit) fun _ entry => entry

section

variable (journal : BorrowJournal) (entry : JournalRecord)

/-- The moves of a call that records an entry. -/
inductive RecordTurn :
    Protocol (Memory Content) Site Recording where
  | aside (plain : site.logged = false) (same : Unwritten journal before after) :
      RecordTurn site stage stage before after
  | choose (clear : (before.journals journal.segment).held slot = false) :
      RecordTurn (.journalWord word) .searching (.chosen slot) before before
  | write (writes : Rewritten journal before after (fun _ bit => bit)
        fun other old => if other = slot then some entry else old) :
      RecordTurn (.journalEntry slot) (.chosen slot) (.noted slot entry) before after
  | publish (clear : (before.journals journal.segment).held slot = false)
      (inside : slot < journal.capacity)
      (sets : Rewritten journal before after (fun other bit => bit || other = slot) fun _ old => old) :
      RecordTurn (.journalRecord slot) (.noted slot entry) (.recorded slot entry) before after
  | retry :
      RecordTurn (.journalRecord slot) (.noted slot entry) .searching before before

end

variable {journal : BorrowJournal}

theorem unwritten (mem : Memory Content) : Unwritten journal mem mem := ⟨fun _ => rfl, fun _ => rfl, rfl, rfl⟩

theorem getLsbD_mask (ok : other < 64) : (BitVec.twoPow 64 bit).getLsbD other = decide (other = bit) := by
  rw [BitVec.getLsbD_twoPow]
  by_cases eq : other = bit
  · subst eq
    simp [ok]
  · simp [eq, Ne.symm eq]

theorem getLsbD_set (bits : BitVec 64) (ok : other < 64) :
    (bits ||| BitVec.twoPow 64 bit).getLsbD other = (bits.getLsbD other || other = bit) := by
  rw [BitVec.getLsbD_or, getLsbD_mask ok]

theorem getLsbD_clear (bits : BitVec 64) (ok : other < 64) :
    (bits &&& ~~~ BitVec.twoPow 64 bit).getLsbD other = (bits.getLsbD other && other ≠ bit) := by
  rw [BitVec.getLsbD_and, BitVec.getLsbD_not, getLsbD_mask ok]
  simp [ok]

theorem held_place (st : Journal) (word : Nat) (narrow : bit < 64) :
    st.held (word * 64 + bit) = (st.bitmap word).getLsbD bit := by
  have quotient : (word * 64 + bit) / 64 = word := by omega
  have remainder : (word * 64 + bit) % 64 = bit := by omega
  rw [Journal.held, quotient, remainder]

theorem held_set (st : Journal) (word : Nat) (bits : BitVec 64) (slot : Nat) :
    Journal.held { st with bitmap := update st.bitmap word bits } slot =
      if slot / 64 = word then bits.getLsbD (slot % 64) else st.held slot := by
  simp only [Journal.held]
  by_cases same : slot / 64 = word
  · subst same
    rw [update_self, if_pos rfl]
  · rw [update_of_ne same, if_neg same]

theorem journals_bitmap (journal : BorrowJournal) (word : Nat) (bits : BitVec 64) (mem : Memory Content) :
    ((bitmapWord journal.segment word).set bits mem).journals journal.segment =
      { mem.journals journal.segment with
        bitmap := update (mem.journals journal.segment).bitmap word bits } :=
  update_self _ _ _

theorem rewritten_set (word : Nat) (ok : bit < 64) (mem : Memory Content) :
    Rewritten journal mem ((bitmapWord journal.segment word).set
      ((mem.journals journal.segment).bitmap word ||| BitVec.twoPow 64 bit) mem)
      (fun other set => set || other = word * 64 + bit) fun _ old => old := by
  refine ⟨fun slot => ?_, fun slot => by rw [journals_bitmap], rfl, rfl⟩
  rw [journals_bitmap, held_set]
  have inside : slot % 64 < 64 := Nat.mod_lt _ (by decide)
  by_cases same : slot / 64 = word
  · have place : (slot % 64 = bit) ↔ slot = word * 64 + bit := by omega
    rw [if_pos same, getLsbD_set _ inside, ← same]
    simp only [Journal.held, place, same]
  · have other : slot ≠ word * 64 + bit := by omega
    rw [if_neg same]
    simp [other]

theorem rewritten_clear (slot : Nat) (mem : Memory Content) :
    Rewritten journal mem ((bitmapWord journal.segment (slot / 64)).set
      ((mem.journals journal.segment).bitmap (slot / 64) &&& ~~~ BitVec.twoPow 64 (slot % 64)) mem)
      (fun other set => set && other ≠ slot) fun _ old => old := by
  refine ⟨fun other => ?_, fun other => by rw [journals_bitmap], rfl, rfl⟩
  rw [journals_bitmap, held_set]
  have inside : other % 64 < 64 := Nat.mod_lt _ (by decide)
  by_cases same : other / 64 = slot / 64
  · have place : (other % 64 ≠ slot % 64) ↔ other ≠ slot := by omega
    rw [if_pos same, getLsbD_clear _ inside, ← same]
    simp only [Journal.held, place]
  · have ne : other ≠ slot := fun eq => same (by rw [eq])
    rw [if_neg same]
    simp [ne]

theorem rewritten_entry (slot : Nat) (entry : JournalRecord) (mem : Memory Content) :
    Rewritten journal mem ((journalEntry journal.segment slot).set (some entry) mem) (fun _ set => set)
      fun other old => if other = slot then some entry else old := by
  have st : ((journalEntry journal.segment slot).set (some entry) mem).journals journal.segment =
      { mem.journals journal.segment with
        entries := update (mem.journals journal.segment).entries slot (some entry) } :=
    update_self _ _ _
  refine ⟨fun other => by rw [st]; rfl, fun other => ?_, rfl, rfl⟩
  rw [st]
  exact update_apply _ _ _ _

theorem unwritten_hint (val : Nat) (mem : Memory Content) :
    Unwritten journal mem ((journalHint journal.segment).set val mem) := by
  have st : ((journalHint journal.segment).set val mem).journals journal.segment =
      { mem.journals journal.segment with hint := val } := update_self _ _ _
  exact ⟨fun slot => by rw [st]; rfl, fun slot => by rw [st], rfl, rfl⟩

/-- A round of recording: a slot is found and noted, then published or not. -/
theorem follows_recordRound (entry : JournalRecord) (word : Nat) :
    (journal.recordRound word entry : Act Content (Option (Option Nat))).Follows (RecordTurn journal entry)
      (fun out later => match out with
        | some (some slot) => slot < journal.capacity ∧ later = .recorded slot entry
        | _ => later = .searching) .searching := by
  refine follows_bind (follows_load fun mem => ?_)
  cases got : journal.clearBit word ((bitmapWord journal.segment word).get mem) with
  | none => exact ⟨_, .aside rfl (unwritten mem), rfl⟩
  | some bit =>
    change journal.clearBit word ((mem.journals journal.segment).bitmap word) = some bit at got
    obtain ⟨inside, unset⟩ := List.find?_eq_some_iff_append.mp got |>.1 |> of_decide_eq_true
    have narrow : bit < 64 := List.mem_range.mp (List.mem_of_find?_eq_some got)
    have clear (mem' : Memory Content) (same : (mem'.journals journal.segment).bitmap word =
        (mem.journals journal.segment).bitmap word) :
        (mem'.journals journal.segment).held (word * 64 + bit) = false := by
      rw [held_place _ _ narrow, same]
      simpa using unset
    refine ⟨_, .choose (clear mem rfl), follows_bind (follows_store fun mem' =>
      ⟨_, .write (rewritten_entry _ entry mem'), ?_⟩)⟩
    refine follows_bind (follows_compareExchangeWeak (fun mem' same => ?_) fun mem' => ⟨_, .retry, rfl⟩)
    change (mem'.journals journal.segment).bitmap word = (mem.journals journal.segment).bitmap word at same
    have sets : Rewritten journal mem' _ _ _ := rewritten_set word narrow mem'
    rw [same] at sets
    refine ⟨_, .publish (clear mem' same) inside sets, follows_bind (follows_store fun mem'' =>
      ⟨_, .aside rfl (unwritten_hint _ mem''), inside, rfl⟩)⟩

theorem follows_record (entry : JournalRecord) :
    (journal.record entry : Act Content (Except Error Nat)).Follows (RecordTurn journal entry)
      (fun out later => match out with
        | .ok slot => slot < journal.capacity ∧ later = .recorded slot entry
        | .error _ => later = .searching) .searching := by
  refine follows_bind (follows_load fun mem => ⟨_, .aside rfl (unwritten mem), ?_⟩)
  generalize (List.range journal.words).map _ = words
  induction words with
  | nil => rfl
  | cons word rest ih =>
    have rounds : (repeatLoop (journal.recordRound word entry) : Act Content (Option Nat)).Follows
        (RecordTurn journal entry) (fun out later => out.elim (later = .searching)
          fun slot => slot < journal.capacity ∧ later = .recorded slot entry) .searching := by
      refine follows_repeatLoop (fun stage begun => ?_) (rfl : Recording.searching = _)
      subst begun
      refine follows_mono (follows_recordRound entry word) fun out later new => ?_
      cases out with
      | none => exact new.symm
      | some slot => cases slot <;> exact new
    refine follows_then rounds fun out later new => ?_
    cases out with
    | some slot => exact new
    | none =>
      subst new
      exact ih

end

/-- A journal of four slots. -/
def notebook : BorrowJournal := ⟨0, 4⟩

def pinOn (chunk : Nat) : JournalRecord := .chunkPin ⟨0, 0, chunk + 1, 4096, 1⟩

end ShmActors.Artifact
