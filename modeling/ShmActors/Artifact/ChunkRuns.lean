import ShmActors.Lib.Sequential
import ShmActors.Artifact.Commit

/-! What the chunk operations do when nobody interferes. -/

namespace ShmActors.Artifact

open Lib Core Program Function

variable {Content : Type}

def Heap.setCtrl (heap : Heap Content) (chunk : Nat) (value : ChunkCtrl) : Heap Content :=
  { heap with ctrl := update heap.ctrl chunk value }

def Heap.setPayload (heap : Heap Content) (chunk : Nat) (page : Payload Content) : Heap Content :=
  { heap with payload := update heap.payload chunk page }

def Heap.setFree (heap : Heap Content) (index : Nat) (list : List Nat) : Heap Content :=
  { heap with free := update heap.free index list }

def Memory.withHeap (memory : Memory Content) (heap : Heap Content) : Memory Content :=
  { memory with heap := heap }

section

variable (heap : Heap Content) (mem : Memory Content) (chunk : Nat)

@[simp] theorem Heap.setCtrl_ctrl (val : ChunkCtrl) : (heap.setCtrl chunk val).ctrl chunk = val :=
  update_self ..

@[simp] theorem Heap.setCtrl_twice (one two : ChunkCtrl) :
    (heap.setCtrl chunk one).setCtrl chunk two = heap.setCtrl chunk two := by
  simp [Heap.setCtrl]

theorem Heap.setCtrl_other (val : ChunkCtrl) (differs : other ≠ chunk) :
    (heap.setCtrl chunk val).ctrl other = heap.ctrl other :=
  update_of_ne differs ..

@[simp] theorem Memory.withHeap_heap (val : Heap Content) : (mem.withHeap val).heap = val := rfl

@[simp] theorem Memory.withHeap_twice (one two : Heap Content) :
    (mem.withHeap one).withHeap two = mem.withHeap two := rfl

end

/-- The memory after a store to the control word of one chunk. -/
def Memory.setCtrl (memory : Memory Content) (chunk : Nat) (value : ChunkCtrl) : Memory Content :=
  memory.withHeap (memory.heap.setCtrl chunk value)

section

variable (mem : Memory Content) (chunk : Nat)

@[simp] theorem Memory.setCtrl_ctrl (val : ChunkCtrl) :
    (mem.setCtrl chunk val).heap.ctrl chunk = val := Heap.setCtrl_ctrl ..

@[simp] theorem Memory.setCtrl_twice (one two : ChunkCtrl) :
    (mem.setCtrl chunk one).setCtrl chunk two = mem.setCtrl chunk two := by
  simp [Memory.setCtrl]

theorem wordOf_get : (wordOf (ctrlAt chunk)).get mem = (mem.heap.ctrl chunk).word := rfl

theorem ownerOf_get : (ownerOf (ctrlAt chunk)).get mem = (mem.heap.ctrl chunk).ownerActor := rfl

theorem generationOf_get : (generationOf (ctrlAt chunk)).get mem = (mem.heap.ctrl chunk).generation := rfl

theorem wordOf_set (word : Word) : (wordOf (ctrlAt chunk)).set word mem =
    mem.setCtrl chunk { mem.heap.ctrl chunk with word := word } := rfl

theorem ownerOf_set (owner : Nat) : (ownerOf (ctrlAt chunk)).set owner mem =
    mem.setCtrl chunk { mem.heap.ctrl chunk with ownerActor := owner } := rfl

theorem generationOf_set (generation : Nat) : (generationOf (ctrlAt chunk)).set generation mem =
    mem.setCtrl chunk { mem.heap.ctrl chunk with generation := generation } := rfl

end

section

variable {chunk owner generation count : Nat}

theorem yields_tryLoan (idle : mem.heap.ctrl chunk = ⟨⟨.free, 0⟩, owner, generation⟩) :
    (tryLoan (Site.ctrl chunk) (ctrlAt chunk) who).Yields mem (.ok ())
      (mem.setCtrl chunk ⟨⟨.loaned, 0⟩, who, generation⟩) := by
  have won : (wordOf (ctrlAt chunk)).get mem = ⟨.free, 0⟩ := by rw [wordOf_get, idle]
  refine (yields_compareExchange_won won).bind ((yields_store _ _).bind ?_)
  rw [wordOf_set, ownerOf_set, Memory.setCtrl_ctrl, Memory.setCtrl_twice, idle]
  exact yields_ret

theorem yields_bumpGeneration {label : CtrlSite} (got : mem.heap.ctrl chunk = ⟨word, owner, generation⟩) :
    (bumpGeneration (Site.ctrl chunk) (ctrlAt chunk) label).Yields mem generation
      (mem.setCtrl chunk ⟨word, owner, (generation + 1) % 2 ^ 32⟩) := by
  have step : (bumpGeneration (Site.ctrl chunk) (ctrlAt chunk) label).Yields mem _ _ :=
    yields_fetchUpdate _ _
  rwa [generationOf_set, generationOf_get, got] at step

end

section

variable {pool : Pool} {chunk generation count : Nat}

theorem Pool.locate_succ (inside : chunk < pool.totalChunks) : pool.locate (chunk + 1) = some chunk :=
  if_pos ⟨Nat.succ_pos chunk, inside⟩

theorem Pool.locate_eq_some (got : pool.locate offset = some chunk) :
    chunk < pool.totalChunks ∧ offset = chunk + 1 := by
  unfold Pool.locate at got
  split at got
  · rename_i inside
    cases got
    omega
  · cases got

/-- A chunk back on its free list; its first word is the link. -/
def Heap.push (pool : Pool) (heap : Heap Content) (chunk : Nat) : Heap Content :=
  (heap.setPayload chunk .link).setFree (Pool.classOf pool.classes chunk)
    (chunk :: heap.free (Pool.classOf pool.classes chunk))

theorem yields_free (located : pool.locate desc.offset = some chunk) :
    (pool.free desc).Yields mem () (mem.withHeap (mem.heap.push pool chunk)) := by
  unfold Pool.free
  simp only [located]
  exact (yields_store _ _).bind ((yields_fetchUpdate _ _).bind yields_ret)

theorem yields_validate : (validate chunk desc).Yields mem
    (decide (desc.generation = (mem.heap.ctrl chunk).generation)) mem :=
  (yields_load _).bind yields_ret

end

end ShmActors.Artifact
