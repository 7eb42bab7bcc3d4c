import ShmActors.Artifact.Recording
import ShmActors.Node.Payload

/-! One actor that pins payload chunks and versions, journals the pins and drops
them, and coordinators that replay its journal while it runs. The journal's bit
elects the releaser of a slot, not of a record. -/

namespace ShmActors.Node.Borrowing

open Lib Core Artifact Program Function

/-- What an actor has of a borrow. -/
inductive Grip where
  | chunk (desc : ChunkDesc)
  | version (pin : VersionPin)
  deriving DecidableEq

structure Borrow where
  slot : Nat
  grip : Grip
  deriving DecidableEq

inductive BorrowCall where
  | pinChunk (desc : ChunkDesc)
  | pinVersion
  | drop (borrow : Borrow)
  | replay

/-- Whether a call releases what is recorded. -/
def BorrowCall.releases : BorrowCall → Bool
  | .drop _ | .replay => true
  | _ => false

/-- What a party has between calls. -/
inductive Party where
  | borrower (held : List Borrow)
  | coordinator
  | absent

def BorrowCall.open : Party → BorrowCall → Bool
  | .borrower held, .drop borrow => borrow ∈ held
  | .borrower _, .replay | .absent, _ => false
  | .borrower _, _ | .coordinator, .replay => true
  | .coordinator, _ => false

def Party.give : Party → BorrowCall → Party
  | .borrower held, .drop borrow => .borrower (held.erase borrow)
  | party, _ => party

def Party.take : Party → Option Borrow → Party
  | .borrower held, some borrow => .borrower (borrow :: held)
  | party, _ => party

/-- The slot `find_slot` finds. -/
def tracked (head : ArtifactHead) (version : Nat) : Option Nat :=
  (List.range MAX_LIVE_VERSIONS).find? fun slot => (head.pins slot).state = .live ∧ (head.pins slot).version = version

/-- What counts references: a chunk's word, and a version's slot in the head. -/
inductive Resource where
  | chunk (chunk : Nat)
  | pins (slot : Nat)
  deriving DecidableEq

/-- What a run is about: an artifact in service with its pool, the borrower's journal
and id, how many coordinators there are, and the memory at the start, its counts in range. -/
structure Scene (Content : Type) where
  artifact : Handle
  codec : Codec Content
  journal : BorrowJournal
  actorId : Nat
  coordinators : Nat
  start : Memory Content
  serves : start.head.incarnation = artifact.incarnation
  commissioned : artifact.incarnation ≠ noIncarnation
  words : ∀ chunk, (start.heap.ctrl chunk).word.refcount < 2 ^ 32
  pins : ∀ slot, (start.head.pins slot).pins < 2 ^ 32

/-- What happened to the journal and the counts. -/
structure BorrowLog where
  /-- The records made, newest first. -/
  issued : List JournalRecord
  /-- The slots an actor has recorded into or read in a replay, and not come to since. -/
  due : List (Nat × Nat)
  /-- What stood in the slot whose bit an actor cleared last. -/
  won : Nat → Option JournalRecord
  /-- The counts taken down for a borrow, each with what was recorded under the bit
  cleared for it. -/
  releases : List (Option JournalRecord × Resource)

/-- What is recorded in a slot whose bit is set. -/
def entryAt (state : Journal) (slot : Nat) : Option JournalRecord :=
  if state.held slot then state.entries slot else none

section

variable {Content : Type}

def level (memory : Memory Content) : Resource → Nat
  | .chunk chunk => (memory.heap.ctrl chunk).word.refcount
  | .pins slot => (memory.head.pins slot).pins

/-- The count an access takes down. -/
def given (before after : Memory Content) (site : Site) : Option Resource :=
  let fallen counter := if level after counter < level before counter then some counter else none
  match site with
  | .ctrl chunk .releaseExchange => fallen (.chunk chunk)
  | .unpin slot | .exchangePins slot => fallen (.pins slot)
  | _ => none

def BorrowLog.note (journal : BorrowJournal) (actor : Nat) (site : BorrowCall × Site) (before after : Memory Content)
    (log : BorrowLog) : BorrowLog :=
  let old := before.journals journal.segment
  match site.1.releases, site.2 with
  | false, .journalRecord slot =>
    if old.held slot = (after.journals journal.segment).held slot then log
    else { log with issued := (old.entries slot).toList ++ log.issued, due := (actor, slot) :: log.due }
  | false, _ => log
  | true, .journalEntry slot => { log with due := (actor, slot) :: log.due }
  | true, .journalRelease slot => { log with
      due := log.due.filter (· ≠ (actor, slot))
      won := update log.won actor (entryAt old slot) }
  | true, site => (given before after site).elim log fun counter =>
      { log with releases := (log.won actor, counter) :: log.releases }

variable (scene : Scene Content)

abbrev Scene.shelf (memory : Memory Content) : Journal := memory.journals scene.journal.segment

/-- What is recorded of a pin on a version. -/
abbrev Scene.pinOn (version : Nat) : JournalRecord :=
  .artifactPin scene.artifact.nameId scene.artifact.incarnation version

/-- What a recorded borrow is counted in. -/
def Scene.resource : JournalRecord → Option Resource
  | .chunkPin desc => (scene.artifact.pool.locate desc.offset).map .chunk
  | .artifactPin _ _ version => (tracked scene.start.head version).map .pins
  | _ => none

def Scene.serve : BorrowCall → Act Content (Option Borrow)
  | .pinChunk desc => (fun outcome => outcome.toOption.map fun pin => ⟨pin.slot, .chunk pin.desc⟩) <$>
      pinAndRead scene.artifact.pool scene.codec scene.journal desc
  | .pinVersion => (fun outcome => outcome.toOption.bind fun pin =>
      pin.journal.map fun entry => ⟨entry.2, .version pin⟩) <$> pinInner scene.artifact (some scene.journal)
  | .drop ⟨slot, .chunk desc⟩ => (fun _ => none) <$> releasePin scene.artifact.pool scene.journal desc slot
  | .drop ⟨_, .version pin⟩ => (fun _ => none) <$> dropPin scene.artifact pin
  | .replay => (fun _ => none) <$> reclaimDead scene.artifact scene.journal scene.actorId

/-- The borrower and its coordinators. -/
abbrev parties (allowed : Nat → BorrowCall × Site → Memory Content → BorrowLog → Prop) :
    Actors (Memory Content) (BorrowCall × Site) BorrowLog BorrowCall Party (Option Borrow) where
  program call := (scene.serve call).label call
  enabled party call := call.open party
  start party call := party.give call
  finish party _ answer := party.take answer
  track := BorrowLog.note scene.journal
  allowed := allowed

abbrev BorrowRun (Content : Type) :=
  Config (Memory Content) (BorrowCall × Site) BorrowLog BorrowCall Party (Option Borrow)

/-- The borrower is actor 0, the coordinators come next; the journal is empty. -/
def unborrowed : BorrowRun Content where
  state := blankJournal scene.journal scene.start
  history := ⟨[], [], fun _ => none, []⟩
  thread actor := .idle (if actor = 0 then .borrower []
    else if actor ≤ scene.coordinators then .coordinator else .absent)

/-- A slot is recorded into only while nobody is to come to an earlier record of it:
no replay that has read it, and not the borrower, which has dropped what it had there. -/
def NoReuse (site : Site) (log : BorrowLog) : Prop :=
  match site with
  | .journalRecord slot => ∀ entry ∈ log.due, entry.2 ≠ slot
  | _ => True

/-- A chunk is pinned under a descriptor of its segment and its generation, and no
count comes round. -/
def Named (call : BorrowCall) (site : Site) (memory : Memory Content) : Prop :=
  match site, call with
  | .ctrl chunk .borrowExchange, .pinChunk desc => desc.segmentId = scene.artifact.pool.segmentId ∧
      (memory.heap.ctrl chunk).generation = desc.generation ∧ (memory.heap.ctrl chunk).word.refcount + 1 < 2 ^ 32
  | .publishPin slot, _ => (memory.head.pins slot).pins + 1 < 2 ^ 32
  | _, _ => True

abbrev Orderly (_ : Nat) (site : BorrowCall × Site) (memory : Memory Content) (log : BorrowLog) : Prop :=
  NoReuse site.2 log ∧ Named scene site.1 site.2 memory

/-- The records whose bits are set. -/
def standing (journal : BorrowJournal) (state : Journal) : List JournalRecord :=
  (List.range journal.capacity).filterMap (entryAt state)

/-- Every release made is of what was recorded under the bit cleared for it; no
record is released more often than it was made; and when nobody is at work, every
record made has been released once or stands in the journal. -/
structure ReleasedOnce (config : BorrowRun Content) : Prop where
  right : ∀ release ∈ config.history.releases, ∃ record ∈ release.1, scene.resource record = some release.2
  once : (config.history.releases.filterMap Prod.fst).Subperm config.history.issued
  all : (∀ actor, ∃ party, config.thread actor = .idle party) → config.history.issued.Perm
    (config.history.releases.filterMap Prod.fst ++ standing scene.journal (scene.shelf config.state))

end

end ShmActors.Node.Borrowing
