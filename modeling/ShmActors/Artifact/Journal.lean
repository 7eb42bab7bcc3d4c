import ShmActors.Artifact.Pool

/-! The borrow journal, `shm-core/src/journal.rs`. -/

namespace ShmActors.Artifact

open Lib

/-- A handle on the journal an actor records its borrows in. -/
structure BorrowJournal where
  segment : Nat
  capacity : Nat
  deriving DecidableEq, Repr

namespace BorrowJournal

variable {Content : Type} (journal : BorrowJournal)

def words : Nat := (journal.capacity + 63) / 64

/-- The lowest clear bit of a word, among those `valid_mask` leaves. -/
def clearBit (word : Nat) (bits : BitVec 64) : Option Nat :=
  (List.range 64).find? fun bit => word * 64 + bit < journal.capacity ∧ !bits.getLsbD bit

def recordRound (word : Nat) (record : JournalRecord) : Act Content (Option (Option Nat)) := do
  let cur ← load (.journalWord word) (bitmapWord journal.segment word)
  match journal.clearBit word cur with
  | none => return some none
  | some bit =>
    store (.journalEntry (word * 64 + bit)) (journalEntry journal.segment (word * 64 + bit))
      (some record)
    match ← compareExchangeWeak (.journalRecord (word * 64 + bit)) (bitmapWord journal.segment word) cur
        (cur ||| BitVec.twoPow 64 bit) with
    | some _ => return none
    | none =>
      store .journalHint (journalHint journal.segment) (word * 64 + bit + 1)
      return some (some (word * 64 + bit))

def recordFrom (record : JournalRecord) : List Nat → Act Content (Except Error Nat)
  | [] => return .error (.core .journalFull)
  | word :: rest => do
    match ← repeatLoop (journal.recordRound word record) with
    | some slot => return .ok slot
    | none => recordFrom record rest

/-- `record_entry`: the words in turn, from the one the hint lies in. -/
def record (entry : JournalRecord) : Act Content (Except Error Nat) := do
  let hint ← load .journalHint (journalHint journal.segment)
  journal.recordFrom entry
    ((List.range journal.words).map fun step => (hint / 64 % max journal.words 1 + step) % journal.words)

/-- Whether this caller cleared the bit. -/
def release (slot : Nat) : Act Content (Except Error Bool) := do
  if journal.capacity ≤ slot then
    return .error (.core .outOfBounds)
  else do
    let prev ← fetchUpdate (.journalRelease slot) (bitmapWord journal.segment (slot / 64))
      fun bits => bits &&& ~~~ BitVec.twoPow 64 (slot % 64)
    store .journalHint (journalHint journal.segment) slot
    return .ok (prev.getLsbD (slot % 64))

/-- The occupied slots of one word, with their records. -/
def replayBits (word : Nat) (bits : BitVec 64) : List Nat → Act Content (List (Nat × JournalRecord))
  | [] => return []
  | bit :: rest => do
    if word * 64 + bit < journal.capacity ∧ bits.getLsbD bit then do
      let entry ← load (.journalEntry (word * 64 + bit)) (journalEntry journal.segment (word * 64 + bit))
      let later ← replayBits word bits rest
      return entry.toList.map (fun record => (word * 64 + bit, record)) ++ later
    else
      replayBits word bits rest

def replayWords : List Nat → Act Content (List (Nat × JournalRecord))
  | [] => return []
  | word :: rest => do
    let bits ← load (.journalWord word) (bitmapWord journal.segment word)
    let first ← journal.replayBits word bits (List.range 64)
    let later ← replayWords rest
    return first ++ later

def replayIndexed : Act Content (List (Nat × JournalRecord)) :=
  journal.replayWords (List.range journal.words)

end BorrowJournal

end ShmActors.Artifact
