import ShmActors.Artifact.System

/-! The code that leaves the head alone: everything an operation does on the
pool, in a journal and with the write lease. -/

namespace ShmActors.Artifact

open Lib Core Program

variable {Content : Type}

/-- Accesses to the pool. -/
def Site.onHeap : Site → Bool
  | .ctrl .. | .word _ | .generation _ | .owner _ | .pop _ | .push _ | .readPayload _
  | .writePayload _ => true
  | _ => false

def Site.onJournal : Site → Bool
  | .journalHint | .journalWord _ | .journalRecord _ | .journalRelease _ | .journalEntry _ => true
  | _ => false

/-- Stores to the head. -/
def Site.onHead : Site → Bool
  | .install | .clearCurrent | .publishManifestDesc | .clearManifestDesc | .setSchema | .exchangeLease | .claim _
  | .claimManifest _ | .claimVersion _ | .publishPin _ | .unpin _ | .exchangePins _ | .elect _ | .revert _
  | .clearVersion _ | .clearManifest _ | .clearState _ => true
  | _ => false

/-- Loads from the head. -/
def Site.reads : Site → Bool
  | .loadCurrent | .loadManifestDesc | .loadSchema | .incarnation | .loadLease | .slotState _
  | .slotVersion _ | .slotManifest _ | .pinScan _ => true
  | _ => false

/-- A kind of accesses: where they are made, and what they do. -/
abbrev Kind (Content : Type) : Type := Site → (Memory Content → Memory Content) → Prop

/-- Kinds of accesses that code on the pool is made of; it also loads from the
head. -/
structure OnPool (kind : Kind Content) : Prop where
  heap : ∀ site update, site.onHeap = true →
    (∀ memory, ∃ heap, update memory = { memory with heap := heap }) → kind site update
  reading : ∀ site, site.reads = true → kind site id

/-- What an exchange does to the write lease: nothing, an acquire under the fence
found, or a release that advances the fence. -/
inductive Lease.Step : Lease → Lease → Prop where
  | same (lease : Lease) : Step lease lease
  | acquire (owner fence : Nat) : Step ⟨ownerNone, fence⟩ ⟨owner, fence⟩
  | release (owner fence : Nat) : Step ⟨owner, fence⟩ (.released fence)

/-- And with the write lease. -/
structure Leasing (kind : Kind Content) : Prop extends OnPool kind where
  lease : ∀ update, (∀ memory, ∃ lease, memory.head.writeLease.Step lease ∧ update memory =
    { memory with head := { memory.head with writeLease := lease } }) → kind .exchangeLease update

/-- Kinds of accesses that code in a journal is made of. -/
structure Journaling (kind : Kind Content) : Prop where
  journal : ∀ site update, site.onJournal = true →
    (∀ memory, ∃ journals, update memory = { memory with journals := journals }) → kind site update

/-- Kinds of accesses that code on the pool and in a journal is made of. -/
structure Beside (kind : Kind Content) : Prop extends OnPool kind, Journaling kind

/-- Kinds of accesses that all code beside the head's own is made of. -/
structure Offside (kind : Kind Content) : Prop extends Leasing kind, Beside kind

variable {kind : Kind Content}

theorem Offside.mono (offside : Offside kind)
    (weaken : ∀ site update, kind site update → weaker site update) : Offside weaker where
  heap site update area keeps := weaken site update (offside.heap site update area keeps)
  journal site update area keeps := weaken site update (offside.journal site update area keeps)
  lease update keeps := weaken _ update (offside.lease update keeps)
  reading site area := weaken site id (offside.reading site area)

namespace OnPool

variable (onPool : OnPool kind)

include onPool

section

theorem loadHeap (cell : Ref (Memory Content) Value) (area : site.onHeap = true) : (load site cell).Every kind :=
  ⟨onPool.heap site id area fun mem => ⟨mem.heap, rfl⟩, fun _ => trivial⟩

theorem loadHead (cell : Ref (Memory Content) Value) (area : site.reads = true) : (load site cell).Every kind :=
  ⟨onPool.reading site area, fun _ => trivial⟩

theorem ctrl (keeps : ∀ mem, ∃ heap, update mem = { mem with heap := heap }) : kind (.ctrl chunk access) update :=
  onPool.heap _ update rfl keeps

theorem exchangeCtrl [DecidableEq Value] {cell : Ref (Memory Content) Value}
    (keeps : ∀ val mem, ∃ heap, cell.set val mem = { mem with heap := heap }) :
    (compareExchange (.ctrl chunk access) cell old new).Every kind := by
  refine ⟨onPool.ctrl fun mem => ?_, fun _ => trivial⟩
  show ∃ heap, (if cell.get mem = old then cell.set new mem else mem) = _
  split
  · exact keeps new mem
  · exact ⟨mem.heap, rfl⟩

end

section

theorem every_exchangeWhile {label : CtrlSite} {expected : ChunkState} (cur : Word) :
    Every kind (exchangeWhile (Site.ctrl chunk) (ctrlAt chunk) label expected new cur) := by
  unfold exchangeWhile
  split
  · trivial
  · exact every_found (onPool.exchangeCtrl fun _ _ => ⟨_, rfl⟩) trivial fun _ => trivial

theorem every_tryLoan (owner : Nat) : Every kind (tryLoan (Site.ctrl chunk) (ctrlAt chunk) owner) := by
  unfold tryLoan
  refine every_bind (onPool.exchangeCtrl fun _ _ => ⟨_, rfl⟩) fun got => ?_
  cases got with
  | some _ => trivial
  | none => exact ⟨onPool.ctrl fun _ => ⟨_, rfl⟩, fun _ => trivial⟩

theorem every_publish : Every kind (publish (Site.ctrl chunk) (ctrlAt chunk)) :=
  every_bind (onPool.loadHeap _ rfl) fun cur => every_repeatFrom (fun cur => onPool.every_exchangeWhile cur) cur

theorem every_borrowShared : Every kind (borrowShared (Site.ctrl chunk) (ctrlAt chunk)) :=
  every_bind (onPool.loadHeap _ rfl) fun cur => every_repeatFrom (fun cur => onPool.every_exchangeWhile cur) cur

theorem every_bumpGeneration (label : CtrlSite) :
    Every kind (bumpGeneration (Site.ctrl chunk) (ctrlAt chunk) label) :=
  ⟨onPool.ctrl fun _ => ⟨_, rfl⟩, fun _ => trivial⟩

theorem every_dropLoan : Every kind (dropLoan (Site.ctrl chunk) (ctrlAt chunk)) := by
  refine every_bind (onPool.loadHeap _ rfl) fun cur =>
    every_bind (every_repeatFrom (fun cur => onPool.every_exchangeWhile cur) cur) fun out => ?_
  cases out with
  | error reason => trivial
  | ok _ =>
    refine every_bind ⟨onPool.ctrl fun _ => ⟨_, rfl⟩, fun _ => trivial⟩ fun _ => ?_
    exact every_bind (onPool.every_bumpGeneration _) fun _ => trivial

theorem every_tryReclaim : Every kind (tryReclaim (Site.ctrl chunk) (ctrlAt chunk)) := by
  refine every_bind (onPool.loadHeap _ rfl) fun owner => ?_
  split
  · trivial
  exact every_found (onPool.exchangeCtrl fun _ _ => ⟨_, rfl⟩) (every_bind (onPool.every_bumpGeneration _)
    fun _ => trivial) fun _ => trivial

theorem every_releaseShared : Every kind (releaseShared (Site.ctrl chunk) (ctrlAt chunk)) := by
  refine every_bind (onPool.loadHeap _ rfl) fun cur => every_repeatFrom (fun cur => ?_) cur
  refine every_bind (onPool.loadHeap _ rfl) fun owner => ?_
  refine every_bind (onPool.exchangeCtrl fun _ _ => ⟨_, rfl⟩) fun got => ?_
  cases got with
  | some _ => trivial
  | none =>
    show Every kind (ite _ _ _)
    split
    · exact every_bind (onPool.every_bumpGeneration _) fun _ => trivial
    split
    · exact every_bind onPool.every_tryReclaim fun _ => trivial
    · trivial

theorem every_ownerRelease : Every kind (ownerRelease (Site.ctrl chunk) (ctrlAt chunk)) :=
  every_bind ⟨onPool.ctrl fun _ => ⟨_, rfl⟩, fun _ => trivial⟩ fun _ => onPool.every_tryReclaim

omit onPool in
theorem every_onCtrl (inside : (operation (Site.ctrl chunk) (ctrlAt chunk)).Every kind) :
    (onCtrl operation chunk).Every kind := by
  exact every_try inside (fun _ => trivial) fun _ => trivial

theorem every_validate (desc : ChunkDesc) : Every kind (validate chunk desc) :=
  every_bind (onPool.loadHeap _ rfl) fun _ => trivial

end

section

variable {pool : Pool}

theorem every_alloc (size : Nat) : Every kind (pool.alloc size) := by
  unfold Pool.alloc
  split
  · trivial
  split
  · trivial
  · exact every_found ⟨onPool.heap _ _ rfl fun _ => ⟨_, rfl⟩, fun _ => trivial⟩ trivial fun chunk =>
      every_bind (onPool.loadHeap _ rfl) fun _ => trivial

variable (desc : ChunkDesc)

theorem every_free : Every kind (pool.free desc) := by
  unfold Pool.free
  split
  · trivial
  · refine every_bind ⟨onPool.heap _ _ rfl fun _ => ⟨_, rfl⟩, fun _ => trivial⟩ fun _ => ?_
    exact every_bind ⟨onPool.heap _ _ rfl fun _ => ⟨_, rfl⟩, fun _ => trivial⟩ fun _ => trivial

theorem every_releasePublished (chunk : Nat) (desc : ChunkDesc) : Every kind (releasePublished pool chunk desc) := by
  refine every_bind (onPool.loadHeap _ rfl) fun word => ?_
  split
  · trivial
  refine every_bind onPool.every_releaseShared fun freed => ?_
  split
  · exact every_bind (onPool.every_free desc) fun _ => trivial
  · trivial

theorem every_releaseChunk : Every kind (releaseChunk pool desc) := by
  unfold releaseChunk
  split
  · trivial
  refine every_bind (onPool.every_validate desc) fun ok => ?_
  split
  · exact onPool.every_releasePublished _ desc
  · trivial

theorem every_releaseChunkOwned : Every kind (releaseChunkOwned pool desc) := by
  unfold releaseChunkOwned
  split
  · trivial
  · exact onPool.every_releasePublished _ desc

theorem every_releaseChunks (chunks : List ChunkDesc) : Every kind (releaseChunks pool chunks) :=
  every_forEach chunks fun desc _ => every_bind (onPool.every_releaseChunk desc) fun _ => trivial

theorem every_readManifest (mref : PackedRef) : Every kind (readManifest pool mref) := by
  unfold readManifest
  split
  · trivial
  refine every_bind (onPool.loadHeap _ rfl) fun payload => ?_
  cases payload <;> trivial

theorem every_readManifestChecked (mref : PackedRef) (artifactId version : Nat) :
    Every kind (readManifestChecked pool mref artifactId version) := by
  refine every_try (onPool.every_readManifest mref) (fun _ => trivial) fun manifest => ?_
  show Every kind (ite _ _ _)
  split <;> trivial

theorem every_releaseManifestRef (mref : PackedRef) (generation : Option Nat) :
    Every kind (releaseManifestRef pool mref generation) := by
  refine every_repeatFrom (fun cursor => ?_) _
  refine every_bind (onPool.every_readManifest _) fun parsed => every_bind ?_ fun released => ?_
  · obtain ⟨mref, generation⟩ := cursor
    cases generation with
    | some generation => exact onPool.every_releaseChunk _
    | none => exact onPool.every_releaseChunkOwned _
  split
  · trivial
  cases parsed with
  | error reason => trivial
  | ok manifest =>
    refine every_bind (onPool.every_releaseChunks _) fun _ => ?_
    cases manifest.prev <;> trivial

theorem every_publishOwned (chunk : Nat) : Every kind (publishOwned chunk) := by
  refine every_try (every_onCtrl onPool.every_publish) (fun _ => trivial) fun _ => ?_
  exact every_try (every_onCtrl onPool.every_borrowShared) (fun _ => trivial) fun _ =>
    every_bind onPool.every_ownerRelease fun _ => trivial

theorem every_publishStaged : Every kind (publishStaged pool desc) := by
  unfold publishStaged
  split
  · trivial
  · exact onPool.every_publishOwned _

theorem every_stageChunk (owner : Nat) (writes : write.Every kind) : (stageChunk pool write owner).Every kind := by
  refine every_try writes (fun _ => trivial) fun desc => ?_
  dsimp only
  cases pool.locate desc.offset with
  | none => trivial
  | some chunk =>
    refine every_try (every_onCtrl (onPool.every_tryLoan owner)) (fun _ => trivial) fun _ => ?_
    exact every_try (onPool.every_publishOwned _) (fun _ => trivial) fun _ => trivial

theorem every_freeLoaned : Every kind (freeLoaned pool desc) := by
  unfold freeLoaned
  split
  · trivial
  exact every_try onPool.every_dropLoan (fun _ => trivial) fun _ => onPool.every_free desc

theorem every_writeManifest (artifactId version schemaId : Nat) (chunks : List ChunkDesc) (spans : List Nat)
    (prev : Option ManifestLink) (window : Option (Nat × List KeptMember)) :
    Every kind (writeManifest pool artifactId version schemaId chunks spans prev window) := by
  unfold writeManifest
  split
  · trivial
  refine every_try (onPool.every_alloc _) (fun _ => trivial) fun desc => ?_
  show Every kind (ite _ _ _)
  split
  · trivial
  · exact every_bind ⟨onPool.heap _ _ rfl fun _ => ⟨_, rfl⟩, fun _ => trivial⟩ fun _ => trivial

end

section

theorem every_holdChunk (desc : ChunkDesc) : Every kind (holdChunk pool desc) := by
  unfold holdChunk
  split
  · trivial
  refine every_bind (onPool.every_validate desc) fun old => ?_
  split
  · trivial
  refine every_try (every_onCtrl onPool.every_borrowShared) (fun _ => trivial) fun _ => ?_
  refine every_bind (onPool.every_validate desc) fun new => ?_
  split
  · trivial
  · exact every_bind (onPool.every_releaseChunkOwned desc) fun _ => trivial

theorem every_holdChunks (held chunks : List ChunkDesc) : Every kind (holdChunks pool held chunks) := by
  induction chunks generalizing held with
  | nil => trivial
  | cons desc rest ih =>
    refine every_bind (onPool.every_holdChunk desc) fun out => ?_
    cases out with
    | ok _ => exact ih _
    | error reason => exact every_bind (onPool.every_releaseChunks held) fun _ => trivial

theorem every_holdParts (held : List ChunkDesc) (parts : List (Manifest × Nat)) :
    Every kind (holdParts pool held parts) := by
  induction parts generalizing held with
  | nil => trivial
  | cons part rest ih =>
    unfold holdParts
    split
    · trivial
    exact every_try (onPool.every_holdChunks held _) (fun _ => trivial) fun held => ih held

theorem every_readPrev (artifactId : Nat) (link : ManifestLink) : Every kind (readPrev pool artifactId link) := by
  unfold readPrev
  split
  · trivial
  refine every_bind (onPool.loadHeap _ rfl) fun generation => ?_
  split
  · trivial
  · exact onPool.every_readManifestChecked _ _ _

omit onPool in
theorem every_walkFrom {Acc : Type}
    (follows : ∀ link, (follow link).Every kind) (stop : Acc → Manifest → Acc × Bool) (left : Nat) (acc : Acc)
    (cur : Manifest) (chain : List Manifest) : (walkFrom head follow stop left acc cur chain).Every kind := by
  induction left generalizing acc cur chain with
  | zero =>
    unfold walkFrom
    split
    · trivial
    split
    · trivial
    split
    · split <;> trivial
    · trivial
    · rename_i absurd
      cases absurd
  | succ left ih =>
    unfold walkFrom
    split
    · trivial
    split
    · trivial
    split
    · split <;> trivial
    · trivial
    · rename_i same
      cases same
      split
      · trivial
      split
      · trivial
      split
      · trivial
      refine every_try (follows _) (fun _ => trivial) fun prev => ?_
      show Every kind (ite _ _ _)
      split
      · trivial
      · exact ih _ _ _

theorem every_collectWindow (prior : Manifest) (keepBatches : Nat) :
    Every kind (collectWindow pool prior keepBatches) := by
  refine every_bind ?_ fun out => ?_
  · unfold walkWindow
    split
    · trivial
    · exact every_walkFrom (fun link => onPool.every_readPrev _ link) _ _ _ _ _
  cases out with
  | error reason => trivial
  | ok members =>
    exact every_try (onPool.every_holdParts [] _) (fun _ => trivial) fun _ => trivial

end

section

variable {pool : Pool}

theorem every_frees (chunks : List ChunkDesc) : Every kind (forEach pool.free chunks) :=
  every_forEach chunks fun desc _ => onPool.every_free desc

theorem every_allocChunks (schemaId : Nat) (done : List ChunkDesc) (pieces : List (Piece Content)) :
    Every kind (allocChunks pool schemaId done pieces) := by
  induction pieces generalizing done with
  | nil => trivial
  | cons piece rest ih =>
    refine every_try (onPool.every_alloc _) (fun _ => every_bind (onPool.every_frees done) fun _ =>
      trivial) fun desc => ?_
    show Every kind (ite _ _ _)
    split
    · exact every_bind (onPool.every_free desc) fun _ =>
        every_bind (onPool.every_frees done) fun _ => trivial
    · exact ih _

theorem every_writeBatchChunks (batch : RecordBatch Content) : Every kind (writeBatchChunks pool batch) := by
  refine every_try (onPool.every_allocChunks _ _ _) (fun _ => trivial) fun descs => ?_
  refine every_bind (every_forEach _ fun page _ => ?_) fun _ => trivial
  exact ⟨onPool.heap _ _ rfl fun _ => ⟨_, rfl⟩, fun _ => trivial⟩

theorem every_loanChunk (owner : Nat) (desc : ChunkDesc) : Every kind (loanChunk pool owner desc) := by
  unfold loanChunk
  split
  · trivial
  · exact every_onCtrl (onPool.every_tryLoan owner)

theorem every_dropLoanOf (desc : ChunkDesc) : Every kind (dropLoanOf pool desc) := by
  unfold dropLoanOf
  split
  · trivial
  · exact every_bind onPool.every_dropLoan fun _ => trivial

theorem every_loanFrom (owner : Nat) (chunks done rest : List ChunkDesc) :
    Every kind (loanFrom pool owner chunks done rest) := by
  induction rest generalizing done with
  | nil => trivial
  | cons desc rest ih =>
    refine every_bind (onPool.every_loanChunk owner desc) fun out => ?_
    cases out with
    | ok _ => exact ih _
    | error reason =>
      refine every_bind (every_forEach done fun desc _ => onPool.every_dropLoanOf desc) fun _ => ?_
      exact every_bind (onPool.every_frees chunks) fun _ => trivial

end

section

theorem every_acceptPin (slot version : Nat) : Every kind (acceptPin slot version) := by
  refine every_bind (onPool.loadHead _ rfl) fun st => ?_
  split
  · trivial
  · exact every_bind (onPool.loadHead _ rfl) fun _ => trivial

theorem every_findSlot (version : Nat) : Every kind (findSlot version) := by
  unfold findSlot
  generalize List.range MAX_LIVE_VERSIONS = slots
  induction slots with
  | nil => trivial
  | cons slot rest ih =>
    refine every_bind (onPool.every_acceptPin slot version) fun got => ?_
    split
    · trivial
    · exact ih

end

end OnPool

namespace Leasing

variable (leasing : Leasing kind)

include leasing

theorem every_exchangeLease (step : old.Step new) :
    Every kind (compareExchange .exchangeLease (writeLease : Ref (Memory Content) Lease) old new) := by
  refine ⟨leasing.lease _ fun mem => ?_, fun _ => trivial⟩
  show ∃ lease, _ ∧ (if mem.head.writeLease = old then _ else mem) = _
  split
  next got => exact ⟨new, got ▸ step, rfl⟩
  next => exact ⟨mem.head.writeLease, .same _, rfl⟩

theorem every_acquireWriteLease (owner : Nat) : Every kind (acquireWriteLease owner) := by
  refine every_repeatLoop (every_bind (leasing.loadHead _ rfl) fun cur => ?_)
  split
  · trivial
  next held =>
    have step : cur.Step ⟨owner, cur.fence⟩ := by
      obtain ⟨got, fence⟩ := cur
      obtain rfl : got = ownerNone := not_not.mp held
      exact .acquire owner fence
    exact every_found (leasing.every_exchangeLease step) trivial fun _ => trivial

theorem every_releaseWriteLease (owner token : Nat) : Every kind (releaseWriteLease owner token) := by
  exact every_found (leasing.every_exchangeLease (.release _ _)) trivial fun _ => trivial

theorem every_forceReleaseWriteLease : Every kind forceReleaseWriteLease := by
  refine every_repeatLoop (every_bind (leasing.loadHead _ rfl) fun cur => ?_)
  split
  · trivial
  exact every_found (leasing.every_exchangeLease (.release _ _)) trivial fun _ => trivial

theorem every_seizeLease : Every kind seizeLease :=
  every_repeatLoop (every_bind leasing.every_forceReleaseWriteLease fun _ =>
    leasing.every_acquireWriteLease _)

end Leasing

namespace Journaling

variable (journaling : Journaling kind)

include journaling

theorem loadJournal (cell : Ref (Memory Content) Value) (area : site.onJournal = true) :
    (load site cell).Every kind :=
  ⟨journaling.journal site id area fun mem => ⟨mem.journals, rfl⟩, fun _ => trivial⟩

section

variable (journal : BorrowJournal)

theorem every_record (entry : JournalRecord) : Every kind (journal.record entry) := by
  refine every_bind (journaling.loadJournal _ rfl) fun hint => ?_
  generalize (List.range journal.words).map _ = words
  induction words with
  | nil => trivial
  | cons word rest ih =>
    refine every_bind (every_repeatLoop ?_) fun out => ?_
    · refine every_bind (journaling.loadJournal _ rfl) fun cur => ?_
      cases journal.clearBit word cur with
      | none => trivial
      | some bit =>
        refine every_bind ⟨journaling.journal _ _ rfl fun _ => ⟨_, rfl⟩, fun _ => trivial⟩ fun _ => ?_
        refine every_bind ?_ fun got => ?_
        · intro choice
          cases choice with
          | zero => exact ⟨journaling.journal _ _ rfl fun mem => ⟨mem.journals, rfl⟩, fun _ => trivial⟩
          | succ choice =>
            refine ⟨journaling.journal _ _ rfl fun mem => ?_, fun _ => trivial⟩
            show ∃ journals, (if (bitmapWord journal.segment word).get mem = cur then _ else mem) = _
            split
            · exact ⟨_, rfl⟩
            · exact ⟨mem.journals, rfl⟩
        · cases got with
          | some _ => trivial
          | none =>
            exact every_bind ⟨journaling.journal _ _ rfl fun _ => ⟨_, rfl⟩, fun _ => trivial⟩ fun _ => trivial
    · cases out with
      | some slot => trivial
      | none => exact ih

theorem every_release (slot : Nat) : Every kind (journal.release slot) := by
  unfold BorrowJournal.release
  split
  · trivial
  refine every_bind ⟨journaling.journal _ _ rfl fun _ => ⟨_, rfl⟩, fun _ => trivial⟩ fun prev => ?_
  exact every_bind ⟨journaling.journal _ _ rfl fun _ => ⟨_, rfl⟩, fun _ => trivial⟩ fun _ => trivial

theorem every_replayIndexed : Every kind journal.replayIndexed := by
  unfold BorrowJournal.replayIndexed
  generalize List.range journal.words = words
  induction words with
  | nil => trivial
  | cons word rest ih =>
    refine every_bind (journaling.loadJournal _ rfl) fun bits => every_bind ?_ fun _ => every_bind ih fun _ => trivial
    generalize List.range 64 = places
    induction places with
    | nil => trivial
    | cons bit others ih =>
      unfold BorrowJournal.replayBits
      split
      · exact every_bind (journaling.loadJournal _ rfl) fun _ => every_bind ih fun _ => trivial
      · exact ih

end

end Journaling

namespace Beside

variable (beside : Beside kind)

include beside

section

theorem every_isIncarnation (expected : Nat) : Every kind (isIncarnation expected) :=
  every_bind (beside.loadHead _ rfl) fun _ => trivial

theorem every_fencedOut (req : Request) : Every kind (fencedOut req) := by
  unfold fencedOut
  split
  · trivial
  · exact every_bind (every_bind (beside.loadHead _ rfl) fun _ => trivial) fun _ => trivial

end

section

theorem every_returnLoan (desc : ChunkDesc) : Every kind (StreamWriter.returnLoan artifact desc) :=
  every_bind (beside.every_dropLoanOf desc) fun _ => beside.every_free desc

theorem every_unstage (journal : BorrowJournal) (staged : Staged) :
    Every kind (StreamWriter.unstage artifact journal staged) := by
  refine every_bind (beside.every_release _ _) fun out => ?_
  split
  · exact beside.every_returnLoan _
  · trivial

theorem every_stageEach (journal : BorrowJournal) (owner : Nat) (done : List Staged) (descs : List ChunkDesc) :
    Every kind (StreamWriter.stageEach artifact journal owner done descs) := by
  induction descs generalizing done with
  | nil => trivial
  | cons desc rest ih =>
    refine every_bind (every_bind (beside.every_loanChunk owner desc) fun out => ?_) fun out => ?_
    · cases out with
      | error reason => trivial
      | ok _ => exact beside.every_record _ _
    cases out with
    | ok slot => exact ih _
    | error reason =>
      refine every_bind (every_forEach done fun staged _ => beside.every_unstage journal staged) fun _ => ?_
      exact every_bind (every_forEach _ fun desc _ => beside.every_returnLoan desc) fun _ => trivial

theorem every_appendBatch (writer : StreamWriter) (batch : RecordBatch Content) :
    Every kind (writer.appendBatch artifact batch) := by
  refine every_try (beside.every_writeBatchChunks batch) (fun _ => trivial) fun descs => ?_
  show Every kind (ite _ _ _)
  split
  · exact every_bind (beside.every_frees descs) fun _ => trivial
  exact every_try (beside.every_stageEach _ _ _ _) (fun _ => trivial) fun _ => trivial

end

section

theorem every_publishAll (published staged : List ChunkDesc) : Every kind (publishAll artifact published staged) := by
  induction staged generalizing published with
  | nil => trivial
  | cons desc rest ih =>
    refine every_bind (beside.every_publishStaged desc) fun out => ?_
    cases out with
    | ok _ => exact ih _
    | error reason =>
      refine every_bind (beside.every_releaseChunks _) fun _ => ?_
      exact every_bind (every_forEach _ fun desc _ => beside.every_freeLoaned desc) fun _ => trivial

theorem every_releaseLink (link : Option ManifestLink) : Every kind (releaseLink artifact link) := by
  unfold releaseLink
  split
  · trivial
  split
  · trivial
  refine every_bind (beside.loadHeap _ rfl) fun generation => ?_
  split
  · exact beside.every_releaseManifestRef _ _
  · trivial

/-- What a rollback does once it is through with the slot. -/
theorem every_releaseAll (published : List ChunkDesc) (link : Option ManifestLink) (kept : List ChunkDesc)
    (manifest : Option ChunkDesc) : Every kind (do
      releaseStagedManifest artifact manifest
      releaseLink artifact link
      releaseChunks artifact.pool kept
      releaseChunks artifact.pool published) := by
  refine every_bind ?_ fun _ => every_bind (beside.every_releaseLink link) fun _ =>
    every_bind (beside.every_releaseChunks kept) fun _ => beside.every_releaseChunks published
  cases manifest with
  | none => trivial
  | some desc => exact every_bind (beside.every_releaseChunk desc) fun _ => trivial

theorem every_rollback (published : List ChunkDesc) (link : Option ManifestLink) (kept : List ChunkDesc)
    (manifest : Option ChunkDesc) : Every kind (rollbackStaged artifact published link kept manifest none) :=
  beside.every_releaseAll published link kept manifest

theorem every_conflict (expect : Nat) : Every kind (conflict expect : Act Content (Except Error Value)) :=
  every_bind (beside.loadHead _ rfl) fun _ => trivial

omit beside in
theorem every_giveUp (beside : Beside kind)
    (reports : report.Every kind) : Every kind (giveUp artifact req report) :=
  every_bind (beside.every_rollback _ _ _ _) fun _ => reports

variable (req : Request)

theorem every_readPrior (mref : PackedRef) (mismatch : String) :
    Every kind (readPrior artifact req mref mismatch) := by
  refine every_try (beside.every_readManifestChecked _ _ _) (fun _ =>
    every_giveUp beside (beside.every_conflict _)) fun prior => ?_
  show Every kind (ite _ _ _)
  split
  · exact every_giveUp beside trivial
  · trivial

theorem every_holdPrior (mref : PackedRef) (chunk : Nat) (prior : Manifest) :
    Every kind (holdPrior artifact req mref chunk prior) := by
  refine every_bind (beside.loadHeap _ rfl) fun generation => ?_
  refine every_try (OnPool.every_onCtrl beside.every_borrowShared) (fun _ =>
    every_giveUp beside (beside.every_conflict _)) fun _ => ?_
  refine every_bind (beside.every_readManifestChecked _ _ _) fun identity => ?_
  refine every_bind (beside.loadHeap _ rfl) fun now => ?_
  split
  · trivial
  split
  · exact every_bind (beside.every_releaseManifestRef _ _) fun _ =>
      every_giveUp beside (beside.every_conflict _)
  · exact every_giveUp beside (beside.every_conflict _)

theorem every_appendLink : Every kind (appendLink artifact req) := by
  unfold appendLink
  split
  · refine every_bind (beside.loadHead _ rfl) fun mref => ?_
    refine every_try (beside.every_readPrior _ _ _) (fun _ => trivial) fun prior => ?_
    dsimp only
    cases artifact.pool.locate mref.offset with
    | none => exact every_giveUp beside trivial
    | some chunk => exact beside.every_holdPrior _ _ _ _
  · trivial

theorem every_windowKept : Every kind (windowKept artifact req) := by
  unfold windowKept
  split
  · split
    · refine every_bind (beside.loadHead _ rfl) fun mref => ?_
      refine every_try (beside.every_readPrior _ _ _) (fun _ => trivial) fun prior => ?_
      exact every_try (beside.every_collectWindow _ _) (fun _ => every_giveUp beside (beside.every_conflict _))
        fun window => trivial
    · trivial
  · trivial

theorem every_recordStaged (manifest : ChunkDesc) : Every kind (recordStaged artifact req manifest) := by
  unfold recordStaged
  split
  · trivial
  exact every_try (beside.every_record _ _) (fun _ => trivial) fun _ => trivial

theorem every_dropRecord (recorded : Option Nat) : Every kind (dropRecord req recorded) := by
  unfold dropRecord
  split
  · exact every_bind (beside.every_release _ _) fun _ => trivial
  · trivial

end

end Beside

namespace Offside

variable (offside : Offside kind)

include offside

section

theorem every_openExclusive (artifact : Handle) (owner : Nat) (journal : Option BorrowJournal) :
    Every kind (openExclusive artifact owner journal) := by
  refine every_found (offside.every_acquireWriteLease owner) trivial fun token => ?_
  refine every_bind (offside.every_isIncarnation _) fun occupant => ?_
  split
  · exact every_bind (offside.every_releaseWriteLease _ _) fun _ => trivial
  cases journal with
  | none => trivial
  | some journal =>
    refine every_bind (offside.every_record journal _) fun out => ?_
    cases out with
    | ok slot => trivial
    | error reason => exact every_bind (offside.every_releaseWriteLease _ _) fun _ => trivial

theorem every_dropCommitter (committer : Committer) : Every kind committer.drop := by
  unfold Committer.drop
  split
  · exact every_bind (offside.every_releaseWriteLease _ _) fun _ => trivial
  refine every_bind (offside.every_release _ _) fun out => ?_
  split
  · trivial
  · exact every_bind (offside.every_releaseWriteLease _ _) fun _ => trivial

end

section

theorem every_openWith (journal : BorrowJournal) (owner : Nat) (commitKind : Commit) (coordination : Coordination) :
    Every kind (StreamWriter.openWith artifact journal owner commitKind coordination) := by
  unfold StreamWriter.openWith
  split
  · trivial
  cases coordination with
  | optimistic expect => trivial
  | exclusive =>
    exact every_try (offside.every_openExclusive artifact owner _) (fun _ => trivial) fun _ => trivial

theorem every_dropCoord (writer : StreamWriter) : Every kind writer.dropCoord := by
  unfold StreamWriter.dropCoord
  split
  · exact offside.every_dropCommitter _
  · trivial

theorem every_abort (writer : StreamWriter) : Every kind (writer.abort artifact) :=
  every_bind (every_forEach _ fun staged _ => offside.every_unstage _ staged) fun _ =>
    offside.every_dropCoord writer

end

end Offside

/-- Kinds of accesses that code on the pool and the head's slots is made of. It
neither installs a version nor has to do with the write lease. -/
structure Tending (kind : Kind Content) : Prop extends OnPool kind where
  slots : ∀ site update, site.onHead = true → site ≠ .install → site ≠ .exchangeLease →
    (∀ memory, ∃ head : ArtifactHead, update memory = { memory with head := head } ∧
      head.writeLease = memory.head.writeLease) → kind site update

namespace Tending

variable (tending : Tending kind)

include tending

omit tending in
theorem every_findFrom (checks : ∀ slot, Every kind (check slot))
    (slots : List Nat) : Every kind (findFrom check slots) := by
  induction slots with
  | nil => trivial
  | cons slot rest ih =>
    refine every_bind (checks slot) fun got => ?_
    split
    · trivial
    · exact ih

theorem every_findRetired (version : Nat) (manifest : Option PackedRef) :
    Every kind (findRetired version manifest) := by
  cases manifest with
  | none => exact tending.every_findSlot version
  | some manifest =>
    refine every_findFrom (fun slot => ?_) _
    refine every_bind (tending.every_acceptPin slot version) fun tracked => ?_
    split
    · trivial
    · exact every_bind (tending.loadHead _ rfl) fun _ => trivial

theorem every_reclaimElected (slot : Nat) : Every kind (reclaimElected pool slot) := by
  refine every_bind (tending.loadHead _ rfl) fun pins => ?_
  split
  · refine every_bind ⟨tending.slots _ _ rfl nofun nofun fun _ => ⟨_, rfl, rfl⟩, fun _ => trivial⟩ fun _ => ?_
    refine every_bind (tending.loadHead _ rfl) fun still => ?_
    split <;> trivial
  · refine every_bind (tending.loadHead _ rfl) fun mref => ?_
    refine every_bind (tending.every_releaseManifestRef mref none) fun _ => ?_
    exact ⟨tending.slots _ _ rfl nofun nofun fun _ => ⟨_, rfl, rfl⟩, fun _ =>
      ⟨tending.slots _ _ rfl nofun nofun fun _ => ⟨_, rfl, rfl⟩,
      fun _ => ⟨tending.slots _ _ rfl nofun nofun fun _ => ⟨_, rfl, rfl⟩, fun _ => trivial⟩⟩⟩

theorem every_exchangeHead [DecidableEq Value]
    (old new : Value) (keeps : ∀ mem, ∃ head : ArtifactHead, cell.set new mem = { mem with head := head } ∧
      head.writeLease = mem.head.writeLease)
    (place : decide (site.onHead = true ∧ site ≠ .install ∧ site ≠ .exchangeLease) = true) :
    Every kind (compareExchange site cell old new) := by
  obtain ⟨onHead, install, lease⟩ := of_decide_eq_true place
  refine ⟨tending.slots _ _ onHead install lease fun mem => ?_, fun _ => trivial⟩
  show ∃ head : ArtifactHead, (if cell.get mem = old then cell.set new mem else mem) = _ ∧ _
  split
  · exact keeps mem
  · exact ⟨mem.head, rfl, rfl⟩

theorem every_electFreeing (slot : Nat) : Every kind (electFreeing slot) := by
  refine every_found (tending.every_exchangeHead _ _ (fun _ => ⟨_, rfl, rfl⟩) rfl) ?_ fun _ => ?_
  all_goals trivial

theorem every_tryRetireVersionAt (version : Nat) (manifest : Option PackedRef) :
    Every kind (tryRetireVersionAt pool version manifest) := by
  refine every_repeatLoop (every_bind (tending.every_findRetired version manifest) fun got => ?_)
  cases got with
  | none => trivial
  | some slot =>
    refine every_bind (tending.loadHead _ rfl) fun now => ?_
    split
    · trivial
    refine every_bind (tending.every_electFreeing slot) fun elected => ?_
    split
    · exact tending.every_reclaimElected slot
    · trivial

theorem every_retireUnlessCurrent (version : Nat) : Every kind (retireUnlessCurrent pool version) := by
  refine every_bind (tending.loadHead _ rfl) fun now => ?_
  split
  · trivial
  · exact tending.every_tryRetireVersionAt version none

theorem every_releasePin (pin : VersionPin) : Every kind (releasePin artifact pin) := by
  refine every_bind ⟨tending.slots _ _ rfl nofun nofun fun _ => ⟨_, rfl, rfl⟩, fun _ => trivial⟩ fun prev => ?_
  split
  · exact tending.every_retireUnlessCurrent pin.version
  · trivial

theorem every_tryUnpin (slot : Nat) : Every kind (tryUnpin slot) := by
  refine every_bind (tending.loadHead _ rfl) fun cur => every_repeatFrom (fun cur => ?_) cur
  split
  · trivial
  refine every_found (tending.every_exchangeHead _ _ (fun _ => ⟨_, rfl, rfl⟩) rfl) ?_ fun _ => ?_
  all_goals trivial

theorem every_releaseLeakedPin (version : Nat) : Every kind (releaseLeakedPin artifact version) := by
  refine every_found (tending.every_findSlot version) trivial fun slot => ?_
  refine every_found (tending.every_tryUnpin slot) trivial fun prev => ?_
  dsimp only
  split
  · exact every_bind (tending.every_retireUnlessCurrent version) fun _ => trivial
  · trivial

theorem every_reclaimStagedManifest (manifest : PackedRef) (generation : Nat) :
    Every kind (reclaimStagedManifest artifact manifest generation) := by
  refine every_bind (tending.loadHead _ rfl) fun endorsed => ?_
  split
  · trivial
  refine every_bind (every_findFrom (fun slot => ?_) _) fun got => ?_
  · refine every_bind (tending.loadHead _ rfl) fun st => ?_
    split
    · trivial
    · exact every_bind (tending.loadHead _ rfl) fun _ => trivial
  cases got with
  | some slot => trivial
  | none =>
    dsimp only
    split
    · trivial
    refine every_bind (tending.every_validate _) fun ok => ?_
    split
    · trivial
    refine every_bind (tending.loadHeap _ rfl) fun word => ?_
    split
    · trivial
    · exact every_bind (tending.every_releaseManifestRef manifest (some generation)) fun _ => trivial

end Tending

/-- Kinds of accesses that repairs are made of: everything beside the journals
but an install. -/
structure Repairing (kind : Kind Content) : Prop
    extends Leasing kind, Tending kind

section

variable {Phase : Type} {moves : Protocol (Memory Content) Site Phase}

/-- Every call that commits is `commit_staged_inner_j` and code beside the head:
a protocol that both of these follow, the call follows. -/
theorem follows_commits (offside : Offside fun site update => ∀ phase, again phase → ∀ mem : Memory Content,
      ∃ later, moves site phase later mem (update mem) ∧ again later) (inner : ∀ req phase, again phase →
      (commitStagedInnerJ artifact req).Follows moves (fun _ => again) phase)
    (commits : call.commits = true) (one : again phase) : (perform artifact call).Follows moves
      (fun answer later => again later ∧ ∃ out, answer = .committed out) phase := by
  have answers {code : Act Content (Except Error Nat)}
      (follows : code.Follows moves (fun _ => again) phase) :
      (Answer.committed <$> code).Follows moves
        (fun answer later => again later ∧ ∃ out, answer = .committed out) phase := by
    rw [map_eq_pure_bind]
    exact follows_then follows fun out _ kept => ⟨kept, out, rfl⟩
  have reads {Value : Type} {site : Site} (cell : Ref (Memory Content) Value) (area : site.reads = true)
      {phase : Phase} (one : again phase) : (load site cell).Follows moves (fun _ => again) phase :=
    follows_among (offside.loadHead cell area) one
  have packed (expect owner : Nat) (kind : Commit) (batch : RecordBatch Content) (fence : Option Nat)
      (journal : Option BorrowJournal) {phase : Phase} (one : again phase) :
      (commitInnerJ artifact expect owner kind batch fence journal).Follows moves (fun _ => again) phase := by
    unfold commitInnerJ
    split
    · exact one
    refine follows_then (follows_among (offside.every_writeBatchChunks _) one) ?_
    intro staged written kept
    cases staged with
    | error reason => exact kept
    | ok staged =>
      refine follows_then (follows_among (offside.every_loanFrom _ _ _ _) kept) ?_
      intro out loaned kept
      cases out with
      | error reason => exact kept
      | ok _ => exact inner _ _ kept
  cases call with
  | commitOptimistic owner expect kind batch => exact answers (packed _ _ _ _ _ _ one)
  | commitExclusive committer kind batch =>
    exact answers (follows_then (reads current rfl one) fun _ _ kept => packed _ _ _ _ _ _ kept)
  | evictOptimistic owner expect =>
    refine answers ?_
    unfold evictCurrentOptimistic
    split
    · exact one
    · exact follows_then (reads schemaId rfl one) fun _ _ kept => inner _ _ kept
  | evictExclusive committer =>
    refine answers (follows_then (reads current rfl one) fun expect _ kept => ?_)
    split
    · exact kept
    · exact follows_then (reads schemaId rfl kept) fun _ _ kept => inner _ _ kept
  | commitStream writer =>
    have installs : (writer.install artifact : Act Content (Except Error Nat)).Follows moves
        (fun _ => again) phase := by
      unfold StreamWriter.install
      split
      · exact follows_then (reads current rfl one) fun _ _ kept => inner _ _ kept
      · exact inner _ _ one
    refine answers (follows_then installs fun res later kept => ?_)
    exact follows_among (every_bind (every_forEach _ fun staged _ =>
      every_bind (offside.every_release _ _) fun _ => trivial) fun _ =>
        every_bind (offside.every_dropCoord writer) fun _ => trivial) kept
  | _ => cases commits

end

end ShmActors.Artifact
