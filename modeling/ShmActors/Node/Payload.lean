import ShmActors.Arrow.RoundTrip
import ShmActors.Artifact.ChunkRuns
import ShmActors.Artifact.Replay

/-! The payload path of `shm-runtime`: a node publishes a batch, others pin and
read it, the coordinator hands the producer's ownership off, and pins are released
by the node or, for a dead one, by the replay of its journal. The calls are
complete ones, in any order, by any nodes: which chunks are on the free lists
between two of them. -/

namespace ShmActors.Node

open Lib Core Artifact Program Function

section

variable {Content : Type} (pool : Pool)

/-- `write_batch`. The batch has to fit in one chunk; `serialized` is its length
there, for the error. -/
def writeBatch (batch : RecordBatch Content) (serialized : Nat) : Act Content (Except Artifact.Error ChunkDesc) := do
  match ← writeBatchChunks pool batch with
  | .error reason => return .error reason
  | .ok [desc] => return .ok desc
  | .ok chunks =>
    forEach pool.free chunks
    return .error (.arrow (.chunkTooSmall serialized ((pool.classes.map SizeClass.chunkSize).foldr max 0)))

/-- `FREE` to `LOANED` to `PUBLISHED`. -/
def loanAndPublish (actorId : Nat) (desc : ChunkDesc) : Act Content (Except Artifact.Error ChunkDesc) := do
  match pool.locate desc.offset with
  | none => return .error (.core .outOfBounds)
  | some chunk =>
    match ← onCtrl (fun site ctrl => tryLoan site ctrl actorId) chunk with
    | .error reason => return .error reason
    | .ok () =>
      match ← onCtrl publish chunk with
      | .error reason => return .error reason
      | .ok () => return .ok desc

/-- `publish_batch`, up to the broadcast of the descriptor. -/
def publishBatch (actorId : Nat) (batch : RecordBatch Content) (serialized : Nat) :
    Act Content (Except Artifact.Error ChunkDesc) := do
  match ← writeBatch pool batch serialized with
  | .error reason => return .error reason
  | .ok desc => loanAndPublish pool actorId desc

/-- What reading a batch rests on: the schemas known, Arrow, and the bytes of the
segment that holds the chunks. -/
structure Codec (Content : Type) where
  registry : Arrow.SchemaRegistry
  arrow : Arrow.ArrowCrate
  image : (Nat → Payload Content) → Nat → UInt8

/-- `read_batch` of one chunk, over the generation in its control word. -/
def Codec.readBatch {Content : Type} (codec : Codec Content) (desc : ChunkDesc) (generation : Nat)
    (pages : Nat → Payload Content) : Except Arrow.Error Arrow.RecordBatch :=
  Arrow.readBatchChunks codec.registry codec.arrow (codec.image pages) [desc] [generation]

/-- `Pin`: what was pinned, where the journal says so, and the batch. -/
structure Pin where
  desc : ChunkDesc
  slot : Nat
  batch : Arrow.RecordBatch

/-- The failing exits of `pin_and_read`: before the pin or with it undone, and three
behind it. -/
inductive PinError where
  | refused (reason : Artifact.Error)
  | attach
  | read (reason : Arrow.Error)
  | fire

/-- Whether a call outside shared memory succeeds. -/
def answered : Act Content Bool := .pick fun choice => .ret (choice ≠ 0)

def pagesOf : Ref (Memory Content) (Nat → Payload Content) :=
  heapCell.field Heap.payload fun pages heap => { heap with payload := pages }

def pinAndRead (codec : Codec Content) (journal : BorrowJournal) (desc : ChunkDesc) :
    Act Content (Except PinError Pin) :=
  match pool.locate desc.offset with
  | none => return .error (.refused (.core .outOfBounds))
  | some chunk => do
    match ← onCtrl borrowShared chunk with
    | .error reason => return .error (.refused reason)
    | .ok () =>
      let attached ← answered
      if !attached then
        return .error .attach
      else match ← journal.record (.chunkPin desc) with
      | .error reason =>
        let _ ← releaseShared (.ctrl chunk) (ctrlAt chunk)
        return .error (.refused reason)
      | .ok slot =>
        let generation ← loadGeneration chunk
        let pages ← load (.readPayload chunk) pagesOf
        match codec.readBatch desc generation pages with
        | .error reason => return .error (.read reason)
        | .ok batch =>
          let fired ← answered
          if fired then return .ok ⟨desc, slot, batch⟩ else return .error .fire

/-- `handle_pinned` of the coordinator. -/
def handlePinned (desc : ChunkDesc) : Act Content Unit :=
  match pool.locate desc.offset with
  | none => return ()
  | some chunk => do
    let word ← loadWord chunk
    if word.state ≠ .published then
      return ()
    else do
      let counted ← loadWord chunk
      if 0 < counted.refcount then
        let _ ← ownerRelease (.ctrl chunk) (ctrlAt chunk)
        return ()
      else
        return ()

def releasePin (journal : BorrowJournal) (desc : ChunkDesc) (slot : Nat) : Act Content
    (Except Artifact.Error Unit) := do
  match ← journal.release slot with
  | .error reason => return .error reason
  | .ok false => return .ok ()
  | .ok true =>
    releaseDesc pool desc
    return .ok ()

/-- What `reclaim_dead` does in the payload pool for a record: the pins in it. -/
def reclaimPayload (actorId : Nat) : JournalRecord → Act Content (List ChunkDesc)
  | .chunkPin desc => if desc.segmentId = pool.segmentId then reclaimOne pool desc actorId else return []
  | _ => return []

/-- A call a node or the coordinator makes on the payload pool. -/
inductive Call (Content : Type) where
  | publishBatch (actorId : Nat) (batch : RecordBatch Content) (serialized : Nat)
  | pinAndRead (journal : BorrowJournal) (desc : ChunkDesc)
  | handlePinned (desc : ChunkDesc)
  | releasePin (journal : BorrowJournal) (desc : ChunkDesc) (slot : Nat)
  | replay (journal : BorrowJournal) (actorId : Nat)

def perform (codec : Codec Content) : Call Content → Act Content Unit
  | .publishBatch actorId batch serialized => do let _ ← publishBatch pool actorId batch serialized
  | .pinAndRead journal desc => do let _ ← pinAndRead pool codec journal desc
  | .handlePinned desc => handlePinned pool desc
  | .releasePin journal desc slot => do let _ ← releasePin pool journal desc slot
  | .replay journal actorId => do let _ ← replayWith journal (reclaimPayload pool actorId)

/-- The memory after some sequence of complete calls, each of which is made where
`allowed` lets it be. -/
inductive Run (codec : Codec Content) (allowed : Call Content → Memory Content → Prop) (start : Memory Content) :
    Memory Content → Prop
  | start : Run codec allowed start start
  | call {memory after : Memory Content} {call : Call Content} (earlier : Run codec allowed start memory)
      (meets : allowed call memory) (ran : (perform pool codec call).Eval memory () after) :
      Run codec allowed start after

end

/-- Every chunk whose word is `FREE` is on the free list of its size class. -/
def Conserved {Content : Type} (pool : Pool) (memory : Memory Content) : Prop :=
  ∀ chunk < pool.totalChunks, (memory.heap.ctrl chunk).word.state = .free →
    chunk ∈ memory.heap.free (Pool.classOf pool.classes chunk)

/-- In the middle of a call that has the chunks `aside` in hand. -/
structure Idle {Content : Type} (pool : Pool) (aside : List ChunkDesc) (heap : Heap Content) : Prop where
  small : ∀ chunk, (heap.ctrl chunk).word.refcount < 2 ^ 32
  uncounted : ∀ chunk, (heap.ctrl chunk).word.state = .free → (heap.ctrl chunk).word.refcount = 0
  listed : ∀ chunk < pool.totalChunks, (heap.ctrl chunk).word.state = .free →
    chunk ∈ heap.free (Pool.classOf pool.classes chunk) ∨ ∃ desc ∈ aside, desc.offset = chunk + 1

section

theorem Idle.conserved (idle : Idle pool [] mem.heap) : Conserved pool mem := by
  intro chunk inside free
  rcases idle.listed chunk inside free with listed | ⟨_, none, _⟩
  · exact listed
  · cases none

/-- Only the control words and the free lists matter. -/
theorem Idle.congr (idle : Idle pool aside heap) (ctrl : new.ctrl = heap.ctrl)
    (free : new.free = heap.free) : Idle pool aside new := by
  refine ⟨?_, ?_, ?_⟩
  · rw [ctrl]
    exact idle.small
  · rw [ctrl]
    exact idle.uncounted
  · rw [ctrl, free]
    exact idle.listed

theorem Idle.pop (idle : Idle pool aside heap)
    (list : heap.free index = chunk :: rest) (named : desc.offset = chunk + 1) :
    Idle pool (desc :: aside) (heap.setFree index rest) := by
  refine ⟨idle.small, idle.uncounted, fun other inside free => ?_⟩
  rcases idle.listed other inside free with listed | ⟨held, in_, offset⟩
  · by_cases here : Pool.classOf pool.classes other = index
    · rw [here, list] at listed
      rcases List.mem_cons.mp listed with rfl | later
      · exact .inr ⟨desc, List.mem_cons_self, named⟩
      · left
        simpa [Heap.setFree, here] using later
    · left
      simpa [Heap.setFree, here] using listed
  · exact .inr ⟨held, List.mem_cons_of_mem _ in_, offset⟩

theorem Idle.push (idle : Idle pool (desc :: aside) heap) (named : desc.offset = chunk + 1) :
    Idle pool aside (heap.push pool chunk) := by
  refine ⟨idle.small, idle.uncounted, fun other inside free => ?_⟩
  -- A push only adds to a list, and what it adds is the chunk in hand.
  have grows (listed : other ∈ heap.free (Pool.classOf pool.classes other) ∨ other = chunk) :
      other ∈ (heap.push pool chunk).free (Pool.classOf pool.classes other) := by
    by_cases here : Pool.classOf pool.classes other = Pool.classOf pool.classes chunk
    · simp only [Heap.push, Heap.setFree, here, update_self]
      rcases listed with listed | rfl
      · exact List.mem_cons_of_mem _ (here ▸ listed)
      · exact List.mem_cons_self
    · rcases listed with listed | rfl
      · simpa [Heap.push, Heap.setFree, Heap.setPayload, update_of_ne here] using listed
      · exact absurd rfl here
  rcases idle.listed other inside free with listed | ⟨held, in_, offset⟩
  · exact .inl (grows (.inl listed))
  · rcases List.mem_cons.mp in_ with rfl | in_
    · exact .inl (grows (.inr (by omega)))
    · exact .inr ⟨held, in_, offset⟩

/-- The control word of a chunk changes; if it is free then, the chunk is in hand
or was free before. -/
theorem Idle.setCtrl (idle : Idle pool aside heap)
    (small : val.word.refcount < 2 ^ 32) (uncounted : val.word.state = .free → val.word.refcount = 0)
    (kept : val.word.state = .free → (heap.ctrl chunk).word.state = .free ∨ ∃ desc ∈ rest, desc.offset = chunk + 1)
    (covers : ∀ desc ∈ aside, desc.offset ≠ chunk + 1 ∨ val.word.state = .free → desc ∈ rest) :
    Idle pool rest (heap.setCtrl chunk val) := by
  refine ⟨fun other => ?_, fun other free => ?_, fun other inside free => ?_⟩
  · by_cases same : other = chunk
    · subst same
      rw [Heap.setCtrl_ctrl]
      exact small
    · rw [Heap.setCtrl_other _ _ _ same]
      exact idle.small other
  · by_cases same : other = chunk
    · subst same
      rw [Heap.setCtrl_ctrl] at free ⊢
      exact uncounted free
    · rw [Heap.setCtrl_other _ _ _ same] at free ⊢
      exact idle.uncounted other free
  · by_cases same : other = chunk
    · subst same
      rw [Heap.setCtrl_ctrl] at free
      rcases kept free with old | inHand
      · rcases idle.listed other inside old with listed | ⟨desc, in_, offset⟩
        · exact .inl listed
        · exact .inr ⟨desc, covers desc in_ (.inr free), offset⟩
      · exact .inr inHand
    · rw [Heap.setCtrl_other _ _ _ same] at free
      rcases idle.listed other inside free with listed | ⟨desc, in_, offset⟩
      · exact .inl listed
      · exact .inr ⟨desc, covers desc in_ (.inl (by omega)), offset⟩

end

/-- What an operation on a control word that answers whether it freed the chunk
leaves: a word that is not free, a free one, or the word as it was. -/
def Leaves {Content : Type} (memory : Memory Content) (chunk : Nat) (freed : Bool) (final : Memory Content) :
    Prop :=
  ∃ value, final = memory.setCtrl chunk value ∧ ((memory.heap.ctrl chunk).word.refcount < 2 ^ 32 →
    value.word.refcount < 2 ^ 32) ∧ (value.word.state = .free →
    value.word = (memory.heap.ctrl chunk).word ∨ value.word.refcount = 0 ∧ freed = true)

section

theorem leaves_self : Leaves mem chunk freed mem :=
  ⟨mem.heap.ctrl chunk, by rw [Memory.setCtrl, Heap.setCtrl, update_eq_self]; rfl, id,
    fun _ => .inl rfl⟩

theorem leaves_freed (free : val.word = ⟨.free, 0⟩) : Leaves mem chunk true (mem.setCtrl chunk val) := by
  refine ⟨val, rfl, fun _ => ?_, fun _ => .inr ⟨?_, rfl⟩⟩
  · rw [free]
    exact Nat.two_pow_pos 32
  · rw [free]

theorem leaves_held (held : val.word = ⟨.published, count⟩)
    (small : count < 2 ^ 32) : Leaves mem chunk freed (mem.setCtrl chunk val) := by
  refine ⟨val, rfl, fun _ => ?_, fun wrong => ?_⟩
  · rw [held]
    exact small
  · rw [held] at wrong
    cases wrong

theorem ensures_exchangeWhile {label : CtrlSite} {word : Word}
    (got : (mem.heap.ctrl chunk).word = word) :
    (repeatFrom (exchangeWhile (Site.ctrl chunk) (ctrlAt chunk) label expected new) word).Ensures mem
      fun out final => match out with
        | .ok () => word.state = expected ∧
          final = mem.setCtrl chunk { mem.heap.ctrl chunk with word := new word }
        | .error _ => final = mem := by
  apply ensures_repeatFrom
  unfold exchangeWhile
  by_cases matched : word.state = expected
  · rw [if_neg (not_not_intro matched)]
    exact (yields_compareExchange_won got).ensures_bind (ensures_ret ⟨_, rfl, matched, rfl⟩)
  · rw [if_pos matched]
    exact ensures_ret ⟨_, rfl, rfl⟩

theorem ensures_tryLoan (who : Nat) :
    (tryLoan (Site.ctrl chunk) (ctrlAt chunk) who).Ensures mem fun out final => match out with
      | .ok () => ∃ val, final = mem.setCtrl chunk val ∧ val.word = ⟨.loaned, 0⟩
      | .error _ => final = mem ∧ (mem.heap.ctrl chunk).word ≠ ⟨.free, 0⟩ := by
  by_cases idle : (mem.heap.ctrl chunk).word = ⟨.free, 0⟩
  · exact (yields_tryLoan (by rw [← idle])).ensures ⟨_, rfl, rfl⟩
  · exact (yields_compareExchange_lost idle).ensures_bind (ensures_ret ⟨rfl, idle⟩)

theorem ensures_publish :
    (publish (Site.ctrl chunk) (ctrlAt chunk)).Ensures mem fun _ final => Leaves mem chunk false final := by
  refine (yields_load _).ensures_bind ((ensures_exchangeWhile rfl).mono ?_)
  intro out final ended
  cases out with
  | ok _ => exact ⟨_, ended.2, id, fun wrong => by cases wrong⟩
  | error _ => exact ended ▸ leaves_self

theorem ensures_borrowShared :
    (borrowShared (Site.ctrl chunk) (ctrlAt chunk)).Ensures mem fun out final => match out with
      | .ok () => (mem.heap.ctrl chunk).word.state = .published ∧
        final = mem.setCtrl chunk { mem.heap.ctrl chunk with
          word := ⟨.published, ((mem.heap.ctrl chunk).word.refcount + 1) % 2 ^ 32⟩ }
      | .error _ => final = mem :=
  (yields_load _).ensures_bind (ensures_exchangeWhile rfl)

theorem ensures_dropLoan :
    (dropLoan (Site.ctrl chunk) (ctrlAt chunk)).Ensures mem fun out final =>
      Leaves mem chunk out.isOk final := by
  refine (yields_load _).ensures_bind ((ensures_exchangeWhile rfl).bind ?_)
  intro out middle ended
  cases out with
  | error _ => exact ensures_ret (ended ▸ leaves_self)
  | ok _ =>
    obtain ⟨-, rfl⟩ := ended
    refine (yields_store _ _).ensures_bind ?_
    rw [ownerOf_set, Memory.setCtrl_ctrl, Memory.setCtrl_twice]
    refine (yields_bumpGeneration (Memory.setCtrl_ctrl ..)).ensures_bind (ensures_ret ?_)
    rw [Memory.setCtrl_twice]
    exact leaves_freed rfl

/-- A chunk is reclaimed if nobody refers to it and its owner has released it. -/
theorem ensures_tryReclaim :
    (tryReclaim (Site.ctrl chunk) (ctrlAt chunk)).Ensures mem fun freed final =>
      Leaves mem chunk freed final ∧ if freed then (mem.heap.ctrl chunk).word = ⟨.published, 0⟩ ∧
        (mem.heap.ctrl chunk).ownerActor = ownerNone else final = mem := by
  refine (yields_load _).ensures_bind ?_
  rw [ownerOf_get]
  by_cases gone : (mem.heap.ctrl chunk).ownerActor = ownerNone
  · rw [if_neg (not_not_intro gone)]
    by_cases unused : (mem.heap.ctrl chunk).word = ⟨.published, 0⟩
    · refine (yields_compareExchange_won unused).ensures_bind ?_
      rw [wordOf_set]
      refine (yields_bumpGeneration (Memory.setCtrl_ctrl ..)).ensures_bind (ensures_ret ?_)
      rw [Memory.setCtrl_twice]
      exact ⟨leaves_freed rfl, unused, gone⟩
    · exact (yields_compareExchange_lost unused).ensures_bind (ensures_ret ⟨leaves_self, rfl⟩)
  · rw [if_pos gone]
    exact ensures_ret ⟨leaves_self, rfl⟩

theorem ensures_ownerRelease :
    (ownerRelease (Site.ctrl chunk) (ctrlAt chunk)).Ensures mem fun freed final =>
      Leaves mem chunk freed final ∧ (freed = true → (mem.heap.ctrl chunk).word = ⟨.published, 0⟩) := by
  refine (yields_store _ _).ensures_bind ?_
  rw [ownerOf_set]
  refine ensures_tryReclaim.mono ?_
  rintro freed final ⟨⟨val, rfl, small, free⟩, reclaimed⟩
  rw [Memory.setCtrl_ctrl] at small free reclaimed
  rw [Memory.setCtrl_twice]
  exact ⟨⟨val, rfl, small, free⟩, fun freed => (by rw [if_pos freed] at reclaimed; exact reclaimed.1)⟩

/-- A release counts down, and frees the chunk if it is the last hold. -/
theorem ensures_releaseShared :
    (releaseShared (Site.ctrl chunk) (ctrlAt chunk)).Ensures mem fun freed final =>
      Leaves mem chunk freed final ∧ (freed = true → (mem.heap.ctrl chunk).word.refcount = 1 ∧
        (mem.heap.ctrl chunk).ownerActor = ownerNone) ∧
      (final.heap.ctrl chunk).word.refcount = ((mem.heap.ctrl chunk).word.refcount + 2 ^ 32 - 1) % 2 ^ 32 := by
  refine (yields_load _).ensures_bind ?_
  rw [wordOf_get]
  refine ensures_repeatFrom ((yields_load _).ensures_bind ?_)
  rw [ownerOf_get]
  refine (yields_compareExchange_won rfl).ensures_bind ?_
  rw [wordOf_set]
  by_cases last : (mem.heap.ctrl chunk).word.refcount = 1 ∧ (mem.heap.ctrl chunk).ownerActor = ownerNone
  · have freeing : releasedWord (mem.heap.ctrl chunk).word
        (decide ((mem.heap.ctrl chunk).ownerActor = ownerNone)) = ⟨.free, 0⟩ :=
      if_pos ⟨last.1, decide_eq_true last.2⟩
    rw [freeing]
    refine (yields_bumpGeneration (Memory.setCtrl_ctrl ..)).ensures_bind (ensures_ret ⟨true, rfl, ?_,
      fun _ => last, ?_⟩)
    · rw [Memory.setCtrl_twice]
      exact leaves_freed rfl
    · rw [Memory.setCtrl_ctrl, last.1]
      rfl
  · have counting : releasedWord (mem.heap.ctrl chunk).word
        (decide ((mem.heap.ctrl chunk).ownerActor = ownerNone)) =
          ⟨.published, ((mem.heap.ctrl chunk).word.refcount + 2 ^ 32 - 1) % 2 ^ 32⟩ :=
      if_neg fun both => last ⟨both.1, of_decide_eq_true both.2⟩
    have bound : ((mem.heap.ctrl chunk).word.refcount + 2 ^ 32 - 1) % 2 ^ 32 < 2 ^ 32 := Nat.mod_lt _ (by decide)
    rw [counting]
    show Ensures (ite _ _ _) _ _
    rw [if_neg (by simp)]
    split
    · rename_i one
      -- The owner is still there, so the second look does not reclaim.
      refine ensures_tryReclaim.bind ?_
      rintro freed final ⟨-, reclaimed⟩
      rw [Memory.setCtrl_ctrl] at reclaimed
      cases freed with
      | true => exact absurd ⟨one, reclaimed.2⟩ last
      | false =>
        obtain rfl : final = _ := reclaimed
        exact ensures_ret ⟨false, rfl, leaves_held rfl bound, (by simp), by rw [Memory.setCtrl_ctrl]⟩
    · exact ensures_ret ⟨false, rfl, leaves_held rfl bound, (by simp), by rw [Memory.setCtrl_ctrl]⟩

end

section

variable {pool : Pool} {mem : Memory Content} {desc : ChunkDesc}

theorem locate_named (located : pool.locate desc.offset = some chunk) : desc.offset = chunk + 1 :=
  (Pool.locate_eq_some located).2

/-- Freed by an operation on its word, a chunk is in hand. -/
theorem Idle.leaves (idle : Idle pool aside mem.heap)
    (left : Leaves mem chunk freed final) (named : desc.offset = chunk + 1) :
    Idle pool (if freed then desc :: aside else aside) final.heap := by
  obtain ⟨val, rfl, small, free⟩ := left
  refine idle.setCtrl (small (idle.small chunk)) (fun isFree => ?_) (fun isFree => ?_) fun other in_ _ => ?_
  · rcases free isFree with same | ⟨zero, _⟩
    · rw [same] at isFree ⊢
      exact idle.uncounted chunk isFree
    · exact zero
  · rcases free isFree with same | ⟨_, rfl⟩
    · exact .inl (same ▸ isFree)
    · exact .inr ⟨desc, List.mem_cons_self, named⟩
  · split
    · exact List.mem_cons_of_mem _ in_
    · exact in_

theorem Idle.outside (idle : Idle pool (desc :: aside) mem.heap) (located : pool.locate desc.offset = none) :
    Idle pool aside mem.heap := by
  refine ⟨idle.small, idle.uncounted, fun chunk inside free => ?_⟩
  rcases idle.listed chunk inside free with listed | ⟨held, in_, offset⟩
  · exact .inl listed
  · rcases List.mem_cons.mp in_ with rfl | in_
    · rw [offset, Pool.locate_succ inside] at located
      cases located
    · exact .inr ⟨held, in_, offset⟩

theorem ensures_free (idle : Idle pool (desc :: aside) mem.heap) :
    (pool.free desc).Ensures mem fun _ final => Idle pool aside final.heap := by
  cases located : pool.locate desc.offset with
  | some chunk => exact (yields_free located).ensures (idle.push (locate_named located))
  | none =>
    unfold Pool.free
    rw [located]
    exact ensures_ret (idle.outside located)

theorem ensures_freeEach (descs : List ChunkDesc) (idle : Idle pool (descs ++ aside) mem.heap) :
    (forEach pool.free descs).Ensures mem fun _ final => Idle pool aside final.heap := by
  induction descs generalizing mem with
  | nil => exact ensures_ret idle
  | cons desc rest ih => exact (ensures_free idle).bind fun _ _ left => ih left

theorem ensures_alloc (size : Nat) (idle : Idle pool aside mem.heap) :
    (pool.alloc size).Ensures mem fun out final => match out with
      | .ok desc => Idle pool (desc :: aside) final.heap
      | .error _ => Idle pool aside final.heap := by
  unfold Pool.alloc
  split
  · exact ensures_ret idle
  split
  · exact ensures_ret idle
  · rename_i index _
    intro out final run
    cases list : mem.heap.free index with
    | nil =>
      have empty : (freeAt index).get mem = [] := list
      simp only [Pool.pop, act_bind, Eval, empty, List.head?_nil] at run
      obtain ⟨rfl, rfl⟩ := run
      refine idle.congr rfl ?_
      show update mem.heap.free index [] = mem.heap.free
      rw [← list, update_eq_self]
    | cons chunk rest =>
      have full : (freeAt index).get mem = chunk :: rest := list
      simp only [Pool.pop, act_bind, Eval, full, List.head?_cons, List.tail_cons] at run
      obtain ⟨rfl, rfl⟩ := run
      exact idle.pop list rfl

/-- The chunks in hand are those allocated so far. -/
theorem ensures_allocChunks {schemaId : Nat} (pieces : List (Piece Content))
    (idle : Idle pool done mem.heap) :
    (allocChunks pool schemaId done pieces).Ensures mem fun out final => match out with
      | .ok descs => Idle pool descs final.heap
      | .error _ => Idle pool [] final.heap := by
  induction pieces generalizing mem done with
  | nil => exact ensures_ret idle
  | cons piece rest ih =>
    refine (ensures_alloc piece.used idle).bind fun out middle taken => ?_
    cases out with
    | error reason =>
      refine (ensures_freeEach done ?_).bind fun _ _ idle => ensures_ret idle
      exact (List.append_nil done).symm ▸ taken
    | ok desc =>
      show Ensures (ite _ _ _) _ _
      split
      · refine (ensures_free taken).bind fun _ _ idle => ?_
        refine (ensures_freeEach done ?_).bind fun _ _ idle => ensures_ret idle
        exact (List.append_nil done).symm ▸ idle
      · refine ih ⟨taken.small, taken.uncounted, fun chunk inside free => ?_⟩
        rcases taken.listed chunk inside free with listed | ⟨held, in_, offset⟩
        · exact .inl listed
        · rcases List.mem_cons.mp in_ with rfl | in_
          · exact .inr ⟨_, List.mem_append_right _ List.mem_cons_self, offset⟩
          · exact .inr ⟨held, List.mem_append_left _ in_, offset⟩

theorem ensures_writeBatchChunks (batch : RecordBatch Content) (idle : Idle pool [] mem.heap) :
    (writeBatchChunks pool batch).Ensures mem fun out final => match out with
      | .ok descs => Idle pool descs final.heap
      | .error _ => Idle pool [] final.heap := by
  refine (ensures_allocChunks batch.pieces idle).bind fun out middle taken => ?_
  cases out with
  | error reason => exact ensures_ret taken
  | ok descs =>
    -- The pages are written where neither a word nor a list is.
    refine Ensures.bind (Ensures.of_every (fun mem => Idle pool descs mem.heap) ?_ taken)
      fun _ _ idle => ensures_ret idle
    exact every_forEach _ fun page _ => ⟨fun _ idle => idle.congr rfl rfl, fun _ => trivial⟩

end

section

variable {Content : Type} {pool : Pool} {memory : Memory Content} {journal : BorrowJournal} {desc : ChunkDesc}
  {chunk : Nat}

theorem ensures_onCtrl (post : Bool → Memory Content → Prop)
    (inside : (operation (Site.ctrl chunk) (ctrlAt chunk)).Ensures memory fun out final => post out.isOk final) :
    (onCtrl operation chunk).Ensures memory fun out final => post out.isOk final := by
  refine inside.bind fun out middle ended => ?_
  cases out with
  | error reason => exact ensures_ret ended
  | ok _ => exact ensures_ret ended

theorem ensures_writeBatch (batch : RecordBatch Content) (serialized : Nat) (idle : Idle pool [] memory.heap) :
    (writeBatch pool batch serialized).Ensures memory fun out final => match out with
      | .ok desc => Idle pool [desc] final.heap
      | .error _ => Idle pool [] final.heap := by
  refine (ensures_writeBatchChunks batch idle).bind fun out middle taken => ?_
  have returned (chunks : List ChunkDesc) (taken : Idle pool chunks middle.heap) (reason : Artifact.Error) :
      (do forEach pool.free chunks; return .error reason : Act Content (Except Artifact.Error ChunkDesc)).Ensures middle
        fun out final => match out with
          | .ok desc => Idle pool [desc] final.heap
          | .error _ => Idle pool [] final.heap :=
    (ensures_freeEach chunks ((List.append_nil chunks).symm ▸ taken)).bind fun _ _ idle => ensures_ret idle
  match out with
  | .error reason => exact ensures_ret taken
  | .ok [desc] => exact ensures_ret taken
  | .ok [] => exact returned [] taken _
  | .ok (one :: two :: rest) => exact returned _ taken _

/-- A chunk off its free list is free, so its loan succeeds. -/
theorem ensures_loanAndPublish (actorId : Nat) (idle : Idle pool [desc] memory.heap) :
    (loanAndPublish pool actorId desc).Ensures memory fun _ final => Idle pool [] final.heap := by
  unfold loanAndPublish
  cases located : pool.locate desc.offset with
  | none => exact ensures_ret (idle.outside located)
  | some chunk =>
    have named := locate_named located
    refine Ensures.bind (ensures_onCtrl (fun _ final => Idle pool [] final.heap)
      ((ensures_tryLoan actorId).mono fun out final ended => ?_)) fun out middle idle => ?_
    · cases out with
      | ok _ =>
        obtain ⟨val, rfl, loaned⟩ := ended
        have taken : val.word.state ≠ .free := by simp [loaned]
        have small : val.word.refcount < 2 ^ 32 := by simp [loaned]
        refine idle.setCtrl small (fun free => absurd free taken) (fun free => absurd free taken)
          fun held in_ ne => ?_
        rcases ne with ne | free
        · exact absurd (List.mem_singleton.mp in_ ▸ named) ne
        · exact absurd free taken
      | error _ =>
        obtain ⟨rfl, busy⟩ := ended
        refine ⟨idle.small, idle.uncounted, fun other inside free => ?_⟩
        rcases idle.listed other inside free with listed | ⟨held, in_, offset⟩
        · exact .inl listed
        · have same : other = chunk := by
            rw [List.mem_singleton.mp in_, named] at offset
            omega
          subst same
          refine absurd ?_ busy
          rw [← free, ← idle.uncounted other free]
    · cases out with
      | error reason => exact ensures_ret idle
      | ok _ =>
        refine Ensures.bind (ensures_onCtrl (fun _ final => Idle pool [] final.heap)
          (ensures_publish.mono fun _ _ left => idle.leaves left named)) fun out _ idle => ?_
        cases out <;> exact ensures_ret idle

theorem ensures_publishBatch (actorId : Nat) (batch : RecordBatch Content) (serialized : Nat)
    (idle : Idle pool [] memory.heap) :
    (publishBatch pool actorId batch serialized).Ensures memory fun _ final => Idle pool [] final.heap := by
  refine (ensures_writeBatch batch serialized idle).bind fun out middle written => ?_
  cases out with
  | error reason => exact ensures_ret written
  | ok desc => exact ensures_loanAndPublish actorId written

/-- The pin is the last hold on its chunk: its release frees it. -/
abbrev LastHold (memory : Memory Content) (chunk : Nat) : Prop :=
  (memory.heap.ctrl chunk).word.refcount = 1 ∧ (memory.heap.ctrl chunk).ownerActor = ownerNone

/-- Published, with no pin and no owner. -/
abbrev Abandoned (memory : Memory Content) (chunk : Nat) : Prop :=
  (memory.heap.ctrl chunk).word = ⟨.published, 0⟩ ∧ (memory.heap.ctrl chunk).ownerActor = ownerNone

theorem journaling_heap (heap : Heap Content) : Journaling fun _ update => ∀ memory : Memory Content,
    memory.heap = heap → (update memory).heap = heap where
  journal _ update _ keeps memory same := by
    obtain ⟨journals, eq⟩ := keeps memory
    rw [eq]
    exact same

/-- A chunk with one more shared reference. -/
def addPin (memory : Memory Content) (chunk : Nat) : Memory Content :=
  memory.setCtrl chunk { memory.heap.ctrl chunk with
    word := ⟨.published, ((memory.heap.ctrl chunk).word.refcount + 1) % 2 ^ 32⟩ }

theorem ensures_addPin : (onCtrl borrowShared chunk).Ensures memory fun out final =>
    if out.isOk then (memory.heap.ctrl chunk).word.state = .published ∧ final = addPin memory chunk
    else final = memory := by
  refine ensures_onCtrl (fun won final => if won then (memory.heap.ctrl chunk).word.state = .published ∧
    final = addPin memory chunk else final = memory) (ensures_borrowShared.mono fun out final ended => ?_)
  cases out <;> exact ended

theorem ensures_answered {rest : Bool → Act Content Value} (both : ∀ yes, (rest yes).Ensures memory post) :
    (answered >>= rest).Ensures memory post := by
  rintro out final ⟨choice, run⟩
  exact both _ out final run

theorem ensures_pinAndRead (idle : Idle pool [] memory.heap)
    (kept : ∀ chunk, pool.locate desc.offset = some chunk → ¬ Abandoned memory chunk) :
    (pinAndRead pool codec journal desc).Ensures memory fun _ final => Idle pool [] final.heap := by
  unfold pinAndRead
  cases located : pool.locate desc.offset with
  | none => exact ensures_ret idle
  | some chunk =>
    have named := locate_named located
    refine ensures_addPin.bind fun out middle borrowed => ?_
    cases out with
    | error reason => exact ensures_ret ((borrowed : middle = memory) ▸ idle)
    | ok _ =>
      obtain ⟨published, rfl⟩ : _ ∧ middle = addPin memory chunk := borrowed
      have bound : ((memory.heap.ctrl chunk).word.refcount + 1) % 2 ^ 32 < 2 ^ 32 := Nat.mod_lt _ (by decide)
      have pinned : Idle pool [] (addPin memory chunk).heap :=
        idle.leaves (leaves_held rfl bound : Leaves memory chunk false _) named
      refine ensures_answered fun attached => ?_
      split
      · exact ensures_ret pinned
      refine Ensures.bind (Ensures.of_every _ ((journaling_heap _).every_record journal _) rfl)
        fun out middle same => ?_
      cases out with
      | ok slot =>
        refine (yields_load _).ensures_bind ((yields_load _).ensures_bind ?_)
        cases codec.readBatch desc _ _ with
        | error reason => exact ensures_ret (same ▸ pinned)
        | ok batch =>
          refine ensures_answered fun fired => ?_
          split <;> exact ensures_ret (same ▸ pinned)
      | error reason =>
        refine ensures_releaseShared.bind ?_
        rintro freed final ⟨left, last, -⟩
        refine ensures_ret ?_
        cases freed with
        | false => exact (same ▸ pinned : Idle pool [] middle.heap).leaves left named
        | true =>
          obtain ⟨one, gone⟩ := last rfl
          rw [same, addPin, Memory.setCtrl_ctrl] at one gone
          have zero : (memory.heap.ctrl chunk).word.refcount = 0 := by
            have small := idle.small chunk
            simp only at one
            omega
          exact absurd ⟨by rw [← published, ← zero], gone⟩ (kept chunk located)

/-- The same slots of every journal are occupied. -/
def SameSlots (before after : Memory Content) : Prop :=
  ∀ segment, (after.journals segment).bitmap = (before.journals segment).bitmap

def Balanced (before after : Memory Content) : Prop :=
  (∀ chunk, (after.heap.ctrl chunk).word.refcount = (before.heap.ctrl chunk).word.refcount) ∧ SameSlots before after

/-- A record that fails has set no bit. -/
theorem ensures_recordFrom_failed (words : List Nat)
    (same : SameSlots memory middle) : (journal.recordFrom entry words).Ensures middle fun out final =>
      out.isOk = false → SameSlots memory final := by
  induction words generalizing middle with
  | nil => exact ensures_ret fun _ => same
  | cons word rest ih =>
    have rounds : (repeatLoop (journal.recordRound word entry)).Ensures middle fun out final =>
        out = none → SameSlots memory final := by
      refine ensures_repeatLoop (fun middle same => (yields_load _).ensures_bind ?_) same
      cases journal.clearBit word ((bitmapWord journal.segment word).get middle) with
      | none => exact ensures_ret fun _ => same
      | some bit =>
        refine (yields_store _ _).ensures_bind (ensures_compareExchangeWeak
          (fun _ => (yields_store _ _).ensures_bind (ensures_ret fun none => by cases none))
              (ensures_ret fun segment => ?_))
        rw [← same segment]
        show (update middle.journals journal.segment _ segment).bitmap = _
        by_cases here : segment = journal.segment
        · rw [here, update_self]
          rfl
        · rw [update_of_ne here]
    refine rounds.bind fun out middle kept => ?_
    cases out with
    | none => exact ih (kept rfl)
    | some slot => exact ensures_ret fun wrong => by cases wrong

/-- A batch is read from the incarnation the descriptor names. -/
theorem generation_of_read {codec : Codec Content} (read : codec.readBatch desc generation pages = .ok batch) :
    generation = desc.generation := by
  obtain ⟨same, -⟩ := guard_eq_ok.mp read
  exact (List.singleton_inj.mp (not_not.mp same)).symm

/-- How a call ends. A failing one leaves everything as it was just when it fails
before the pin or undoes it; the read fails as it does on the memory before the
call. A pin is one on the incarnation the descriptor names. -/
def PinEnds (pool : Pool) (codec : Codec Content) (desc : ChunkDesc) (before : Memory Content) :
    Except PinError Pin → Memory Content → Prop
  | .ok pin, after => pin.desc = desc ∧ ∃ chunk, pool.locate desc.offset = some chunk ∧
      (after.heap.ctrl chunk).word.state = .published ∧ (after.heap.ctrl chunk).generation = desc.generation
  | .error (.refused _), after => Balanced before after
  | .error (.read reason), after => ¬ Balanced before after ∧ ∃ chunk, pool.locate desc.offset = some chunk ∧
      codec.readBatch desc (before.heap.ctrl chunk).generation before.heap.payload = .error reason
  | .error .attach, after | .error .fire, after => ¬ Balanced before after

theorem not_balanced_of_pin (typed : ∀ chunk, (memory.heap.ctrl chunk).word.refcount < 2 ^ 32)
    (same : after.heap = (addPin memory chunk).heap) : ¬ Balanced memory after := by
  intro balanced
  have count := balanced.1 chunk
  rw [same, addPin, Memory.setCtrl_ctrl] at count
  have small := typed chunk
  simp only at count
  omega

theorem ensures_handlePinned (idle : Idle pool [] memory.heap) :
    (handlePinned pool desc).Ensures memory fun _ final => Idle pool [] final.heap := by
  unfold handlePinned
  cases located : pool.locate desc.offset with
  | none => exact ensures_ret idle
  | some chunk =>
    refine (yields_load _).ensures_bind ?_
    split
    · exact ensures_ret idle
    refine (yields_load _).ensures_bind ?_
    split
    · rename_i pinned
      refine ensures_ownerRelease.bind ?_
      rintro freed final ⟨left, unused⟩
      refine ensures_ret ?_
      cases freed with
      | false => exact idle.leaves left (locate_named located)
      | true =>
        rw [wordOf_get, unused rfl] at pinned
        exact absurd pinned (Nat.lt_irrefl 0)
    · exact ensures_ret idle

/-- Whether the bit of a journal's slot is set. -/
abbrev Recorded (journal : BorrowJournal) (memory : Memory Content) (slot : Nat) : Prop :=
  slot < journal.capacity ∧ ((memory.journals journal.segment).bitmap (slot / 64)).getLsbD (slot % 64) = true

theorem ensures_release (slot : Nat) :
    (journal.release slot).Ensures memory fun out final => final.heap = memory.heap ∧
      (out = .ok true → Recorded journal memory slot) := by
  unfold BorrowJournal.release
  split
  · exact ensures_ret ⟨rfl, fun wrong => by cases wrong⟩
  · rename_i inside
    refine (yields_fetchUpdate _ _).ensures_bind ((yields_store _ _).ensures_bind (ensures_ret ⟨rfl, fun won => ?_⟩))
    exact ⟨Nat.lt_of_not_le inside, Except.ok.inj won⟩

theorem ensures_releasePin (idle : Idle pool [] memory.heap)
    (kept : Recorded journal memory slot → ∀ chunk, pool.locate desc.offset = some chunk → ¬ LastHold memory chunk) :
    (releasePin pool journal desc slot).Ensures memory fun _ final => Idle pool [] final.heap := by
  refine (ensures_release slot).bind ?_
  rintro out middle ⟨same, won⟩
  have idle : Idle pool [] middle.heap := same ▸ idle
  match out with
  | .error reason => exact ensures_ret idle
  | .ok false => exact ensures_ret idle
  | .ok true =>
    suffices released : (releaseDesc pool desc).Ensures middle fun _ final => Idle pool [] final.heap from
      released.bind fun _ _ idle => ensures_ret idle
    unfold releaseDesc
    cases located : pool.locate desc.offset with
    | none => exact ensures_ret idle
    | some chunk =>
      refine ensures_releaseShared.bind ?_
      rintro freed final ⟨left, last, -⟩
      refine ensures_ret ?_
      cases freed with
      | false => exact idle.leaves left (locate_named located)
      | true =>
        have last := last rfl
        rw [same] at last
        exact absurd last (kept (won rfl) chunk located)

/-- What a replay frees it puts on the free list. -/
theorem ensures_reclaimOne (actorId : Nat) (idle : Idle pool [] memory.heap) :
    (reclaimOne pool desc actorId).Ensures memory fun _ final => Idle pool [] final.heap := by
  unfold reclaimOne
  cases located : pool.locate desc.offset with
  | none => exact ensures_ret idle
  | some chunk =>
    refine yields_validate.ensures_bind ?_
    split
    · exact ensures_ret idle
    have given : (releaseHold chunk actorId).Ensures memory fun freed final => Leaves memory chunk freed final := by
      refine (yields_load _).ensures_bind ?_
      split
      · refine (yields_load _).ensures_bind ?_
        split
        · exact ensures_releaseShared.mono fun _ _ ended => ended.1
        · exact ensures_ownerRelease.mono fun _ _ ended => ended.1
      · refine (yields_load _).ensures_bind ?_
        split
        · exact ensures_dropLoan.bind fun _ _ left => ensures_ret left
        · exact ensures_ret leaves_self
      · exact ensures_ret leaves_self
    refine given.bind fun freed middle left => ?_
    have idle := idle.leaves left (locate_named located)
    cases freed with
    | true => exact (ensures_free idle).bind fun _ _ idle => ensures_ret idle
    | false => exact ensures_ret idle

theorem ensures_reclaimPayload (actorId : Nat) (record : JournalRecord) (idle : Idle pool [] memory.heap) :
    (reclaimPayload pool actorId record).Ensures memory fun _ final => Idle pool [] final.heap := by
  cases record with
  | chunkPin desc =>
    show Ensures (ite _ _ _) _ _
    split
    · exact ensures_reclaimOne actorId idle
    · exact ensures_ret idle
  | _ => exact ensures_ret idle

theorem ensures_replay (actorId : Nat) (idle : Idle pool [] memory.heap) :
    (replayWith journal (reclaimPayload pool actorId)).Ensures memory fun _ final => Idle pool [] final.heap := by
  refine Ensures.bind (Ensures.of_every _ ((journaling_heap memory.heap).every_replayIndexed journal) rfl)
    fun entries middle same => ?_
  replace idle : Idle pool [] middle.heap := same ▸ idle
  clear same
  induction entries generalizing middle with
  | nil => exact ensures_ret idle
  | cons entry rest ih =>
    refine (ensures_release entry.1).bind fun out final released => ?_
    have idle : Idle pool [] final.heap := released.1 ▸ idle
    split
    · exact (ensures_reclaimPayload actorId entry.2 idle).bind fun _ _ idle =>
        (ih _ idle).bind fun _ _ idle => ensures_ret idle
    · exact ih _ idle

end

section

variable {Content : Type} (pool : Pool) {memory : Memory Content}

/-- No `release_pin` gives up the last hold on a chunk, and none is pinned that has
neither a pin nor an owner. -/
def Spares : Call Content → Memory Content → Prop
  | .releasePin journal desc slot, memory => Recorded journal memory slot →
    ∀ chunk, pool.locate desc.offset = some chunk → ¬ LastHold memory chunk
  | .pinAndRead _ desc, memory => ∀ chunk, pool.locate desc.offset = some chunk → ¬ Abandoned memory chunk
  | _, _ => True

/-- The segments as the coordinator creates them. -/
def created : Memory Content where
  head := .fresh 0
  heap := pool.create Content
  journals _ := ⟨fun _ => 0, fun _ => none, 0⟩

variable {pool}

theorem idle_created : Idle pool [] (created pool : Memory Content).heap where
  small _ := Nat.two_pow_pos 32
  uncounted _ _ := rfl
  listed chunk inside _ := by
    left
    simp [created, Pool.create, Pool.chunksOf, inside]

/-- What one call leaves, given that it spares the last hold. -/
theorem ensures_perform (idle : Idle pool [] memory.heap) (spares : Spares pool call memory) :
    (perform pool codec call).Ensures memory fun _ final => Idle pool [] final.heap := by
  cases call with
  | publishBatch actorId batch serialized =>
    exact (ensures_publishBatch actorId batch serialized idle).bind fun _ _ idle => ensures_ret idle
  | pinAndRead journal desc => exact (ensures_pinAndRead idle spares).bind fun _ _ idle => ensures_ret idle
  | handlePinned desc => exact ensures_handlePinned idle
  | releasePin journal desc slot => exact (ensures_releasePin idle spares).bind fun _ _ idle => ensures_ret idle
  | replay journal actorId => exact (ensures_replay actorId idle).bind fun _ _ idle => ensures_ret idle

theorem idle_of_run (run : Run pool codec (Spares pool) (created pool) memory) : Idle pool [] memory.heap := by
  induction run with
  | start => exact idle_created
  | call _ meets ran ih => exact ensures_perform ih meets _ _ ran

/-- Between any two complete calls every free chunk is on its free list. -/
theorem conserved_of_run {codec : Codec Content} {memory : Memory Content}
    (run : Run pool codec (Spares pool) (created pool) memory) :
    Conserved pool memory :=
  (idle_of_run run).conserved

/-- Calls played one after the other, as far as `allowed` lets them be made. -/
def playCalls (pool : Pool) (codec : Codec Content) (allowed : Call Content → Memory Content → Bool)
    (memory : Memory Content) :
    List (Call Content) → Option (Memory Content)
  | [] => some memory
  | call :: rest =>
    if allowed call memory then
      ((perform pool codec call).play 2 memory).bind fun done => playCalls pool codec allowed done.2 rest
    else none

theorem run_of_played (calls : List (Call Content)) (check : Call Content → Memory Content → Bool)
    (right : ∀ call memory, check call memory = true → may call memory)
    (earlier : Run pool codec may start memory) (ends : (playCalls pool codec check memory calls).isSome = true) :
    Run pool codec may start ((playCalls pool codec check memory calls).getD start) := by
  obtain ⟨final, played⟩ := Option.isSome_iff_exists.mp ends
  rw [played]
  clear ends
  induction calls generalizing memory with
  | nil => exact Option.some.inj played ▸ earlier
  | cons call rest ih =>
    unfold playCalls at played
    split at played
    · rename_i checked
      obtain ⟨⟨_, middle⟩, ran, later⟩ := Option.bind_eq_some_iff.mp played
      exact ih (.call earlier (right call memory checked) (eval_of_play ran)) later
    · cases played

end

/-- A pool of one chunk. -/
def single : Pool := ⟨1, [⟨64, 1⟩], by decide⟩

def loneBatch : RecordBatch Unit := ⟨7, [⟨(), 64⟩], by simp⟩

/-- The descriptor its first batch is published under. -/
def loneDesc : ChunkDesc := ⟨1, 0, 1, 64, 7⟩

/-- One column of two rows that needs no buffer. -/
def loneRows : Arrow.Plan := ⟨[Arrow.nodeEntry 2 none [] []], []⟩

/-- Schema 7 is that of the column, and its chunk holds it. -/
def loneCodec : Codec Unit where
  registry := { Arrow.SchemaRegistry.new with byId := update (fun _ => none) 7 (some [.flat 1]) }
  arrow := .checked fun _ => true
  image _ := overwriteAll (fun _ => 0) (Arrow.batchWrites (Arrow.batchHeader 7 2 loneRows 1) loneRows [] [loneDesc])

/-- Node 1 publishes, node 2 pins, and the coordinator hands the ownership off. -/
def handingOff : List (Call Unit) :=
  [.publishBatch 1 loneBatch 64, .pinAndRead ⟨2, 4⟩ loneDesc, .handlePinned loneDesc]

/-- The pin released, its chunk is free and on no list. -/
theorem released_not_conserved : ∃ memory : Memory Unit,
    Run single loneCodec (fun _ _ => True) (created single) memory ∧ ¬ Conserved single memory := by
  refine ⟨_, run_of_played (handingOff ++ [.releasePin ⟨2, 4⟩ loneDesc 0]) (fun _ _ => true)
    (fun _ _ _ => trivial) .start (by decide +kernel), fun conserved => ?_⟩
  have listed := conserved 0 (by decide) (by decide +kernel)
  revert listed
  decide +kernel

def sparing (pool : Pool) : Call Unit → Memory Unit → Bool
  | .releasePin .. , _ => false
  | .pinAndRead _ desc, memory => (pool.locate desc.offset).all fun chunk => decide (¬ Abandoned memory chunk)
  | _, _ => true

theorem spares_of_sparing (call : Call Unit) (mem : Memory Unit)
    (checked : sparing pool call mem = true) : Spares pool call mem := by
  cases call with
  | releasePin journal desc slot => cases checked
  | pinAndRead journal desc =>
    intro chunk located
    rw [sparing, located] at checked
    exact of_decide_eq_true checked
  | _ => trivial

/-- The replay of the node that died with the pin returns the chunk. -/
theorem replayed_conserved : ∃ memory : Memory Unit, Run single loneCodec (Spares single) (created single) memory ∧
    (memory.heap.ctrl 0).word.state = .free ∧ (memory.heap.ctrl 0).generation = 1 ∧ Conserved single memory := by
  have run : Run single loneCodec (Spares single) (created single) _ :=
    run_of_played (handingOff ++ [.replay ⟨2, 4⟩ 2]) (sparing single) spares_of_sparing .start (by decide +kernel)
  exact ⟨_, run, by decide +kernel, by decide +kernel, conserved_of_run run⟩

/-- The chunk recycled and published again. -/
def republished : Memory Unit :=
  (playCalls single loneCodec (fun _ _ => true) (created single)
    (handingOff ++ [.replay ⟨2, 4⟩ 2, .publishBatch 1 loneBatch 64])).getD (created single)

end ShmActors.Node
