import Mathlib.Data.List.Defs
import ShmActors.Artifact.Memory
import ShmActors.Lib.Bytes

/-! Where the parts of a pool lie in its segment: the layout, `alloc`, `free` and
`locate` of `shm-core/src/pool.rs`. Offsets are from the start of the payload. -/

namespace ShmActors.Artifact

open Lib Core Function

def HEADER_SIZE : Nat := 64

/-- `align_up`, in `usize`. -/
def alignUp (x a : Nat) : Nat := (x + a - 1) % 2 ^ 64 / a * a

/-- A class as every caller configures it. -/
abbrev SizeClass.Regular (cls : SizeClass) : Prop := 0 < cls.chunkSize ∧ 64 ∣ cls.chunkSize

structure PoolLayout where
  classesOffset : Nat
  ctrlOffset : Nat
  dataOffsets : List Nat
  baseIndices : List Nat
  totalChunks : Nat
  totalBytes : Nat

/-- One turn of the loop that numbers the chunks, in `u32`. -/
def addChunks (total : Nat) (cls : SizeClass) : Nat := (total + cls.chunkCount) % 2 ^ 32

/-- One turn of the loop that places the data areas, in `usize`. -/
def addData (off : Nat) (cls : SizeClass) : Nat :=
  (alignUp off 64 + cls.chunkCount * cls.chunkSize) % 2 ^ 64

def baseIndices (total : Nat) : List SizeClass → List Nat
  | [] => []
  | cls :: rest => total :: baseIndices (addChunks total cls) rest

def dataOffsets (off : Nat) : List SizeClass → List Nat
  | [] => []
  | cls :: rest => alignUp off 64 :: dataOffsets (addData off cls) rest

/-- A `PoolHeader` has 24 bytes, a `ClassHeader` 32, a `ChunkCtrl` 16. -/
def computeLayout (classes : List SizeClass) : PoolLayout :=
  let totalChunks := classes.foldl addChunks 0
  let classesOffset := alignUp 24 8
  let ctrlOffset := alignUp (classesOffset + classes.length * 32) 8
  let off := ctrlOffset + totalChunks * 16
  { classesOffset, ctrlOffset, totalChunks
    dataOffsets := dataOffsets off classes
    baseIndices := baseIndices 0 classes
    totalBytes := classes.foldl addData off }

structure ClassHeader where
  chunkSize : Nat
  chunkCount : Nat
  baseIndex : Nat
  dataOffset : Nat

def ClassHeader.span (cls : ClassHeader) : Nat := cls.chunkCount * cls.chunkSize

def classHeaders (classes : List SizeClass) (bases offsets : List Nat) : List ClassHeader :=
  classes.zipWith3 (fun cls base data => ⟨cls.chunkSize, cls.chunkCount, base, data⟩) bases offsets

/-- The classes as the layout places them. -/
def planned (classes : List SizeClass) : List ClassHeader :=
  classHeaders classes (computeLayout classes).baseIndices (computeLayout classes).dataOffsets

/-- The header `create` writes: the offset of the data is cut to `u32`. -/
def ClassHeader.stored (cls : ClassHeader) : ClassHeader := { cls with dataOffset := cls.dataOffset % 2 ^ 32 }

structure SegmentPool where
  segmentId : Nat
  classesOffset : Nat
  ctrlOffset : Nat
  numClasses : Nat
  classes : List ClassHeader

/-- The free lists of a pool's classes, as the stacks refine them. -/
structure FreeLists (pool : SegmentPool) where
  slots : Nat → List Nat
  inside : ∀ {index cls}, pool.classes[index]? = some cls → ∀ slot ∈ slots index, slot < cls.chunkCount

/-- The chain of links `create` writes through each class. -/
def FreeLists.full (pool : SegmentPool) : FreeLists pool where
  slots index := List.range ((pool.classes[index]?.map ClassHeader.chunkCount).getD 0)
  inside found slot member := by simpa [found] using member

def FreeLists.put {pool : SegmentPool} (free : FreeLists pool) (index : Nat) (list : List Nat)
    (inside : ∀ {cls}, pool.classes[index]? = some cls → ∀ slot ∈ list, slot < cls.chunkCount) :
    FreeLists pool where
  slots := update free.slots index list
  inside {other cls} found slot member := by
    rcases eq_or_ne other index with rfl | differs
    · rw [update_self] at member
      exact inside found slot member
    · rw [update_of_ne differs] at member
      exact free.inside found slot member

namespace SegmentPool

def create (segmentId payloadLen : Nat) (classes : List SizeClass) :
    Except Fault ((pool : SegmentPool) × FreeLists pool) :=
  if classes.isEmpty then .error (.layoutOverflow "pool config has no size classes")
  else
    let layout := computeLayout classes
    if payloadLen < layout.totalBytes then .error (.layoutOverflow "pool does not fit in segment")
    else
      .ok ⟨⟨segmentId, layout.classesOffset, layout.ctrlOffset, classes.length,
        (planned classes).map ClassHeader.stored⟩, .full _⟩

variable (pool : SegmentPool)

/-- `Pool::alloc`, over the generations of the control words. -/
def alloc (free : FreeLists pool) (generations : Nat → Nat) (size : Nat) :
    Except Fault (ChunkDesc × FreeLists pool) :=
  match pool.classes.zipIdx.find? fun entry => size ≤ entry.1.chunkSize with
  | none => .error (.layoutOverflow "allocation exceeds largest size class")
  | some (cls, index) =>
    match (free.slots index).head? with
    | none => .error .poolExhausted
    | some slot => .ok (
      { segmentId := pool.segmentId
        generation := generations (cls.baseIndex + slot)
        offset := (HEADER_SIZE + cls.dataOffset + slot * cls.chunkSize) % 2 ^ 32
        len := cls.chunkSize
        schemaId := 0 },
      free.put index (free.slots index).tail fun found slot member =>
        free.inside found slot (List.mem_of_mem_tail member))

inductive LocateError where
  | outOfBounds
  | misaligned

/-- The class, the index in it and the global index of the chunk at an offset from the segment base. -/
def locate (segOffset : Nat) : Except LocateError (Nat × Nat × Nat) :=
  if segOffset < HEADER_SIZE then .error .outOfBounds
  else
    let payloadOff := segOffset - HEADER_SIZE
    match pool.classes.zipIdx.find? fun entry =>
      entry.1.dataOffset ≤ payloadOff ∧ payloadOff < entry.1.dataOffset + entry.1.span with
    | none => .error .outOfBounds
    | some (cls, index) =>
      let rel := payloadOff - cls.dataOffset
      if rel % cls.chunkSize ≠ 0 then .error .misaligned
      else
        let slot := rel / cls.chunkSize % 2 ^ 32
        .ok (index, slot, cls.baseIndex + slot)

variable {pool}

theorem find_entry (got : pool.classes.zipIdx.find? test = some (cls, index)) :
    pool.classes[index]? = some cls ∧ test (cls, index) :=
  ⟨List.mem_zipIdx_iff_getElem?.mp (List.mem_of_find?_eq_some got), List.find?_some got⟩

end SegmentPool

/-- The parts of a pool. The link of a free chunk is the first word of its data. -/
inductive Area where
  | poolHeader
  | classHeader (index : Nat)
  | ctrl (index slot : Nat)
  | data (index slot : Nat)

def Area.align : Area → Nat
  | .data _ _ => 64
  | _ => 8

/-- A part lies at an offset, over a length. -/
inductive SegmentPool.Lies (pool : SegmentPool) : Area → Nat × Nat → Prop where
  | poolHeader : pool.Lies .poolHeader (0, 24)
  | classHeader {index : Nat} (inside : index < pool.numClasses) :
      pool.Lies (.classHeader index) (pool.classesOffset + index * 32, 32)
  | ctrl {index slot : Nat} {cls : ClassHeader} (found : pool.classes[index]? = some cls)
      (below : slot < cls.chunkCount) :
      pool.Lies (.ctrl index slot) (pool.ctrlOffset + (cls.baseIndex + slot) * 16, 16)
  | data {index slot : Nat} {cls : ClassHeader} (found : pool.classes[index]? = some cls)
      (below : slot < cls.chunkCount) :
      pool.Lies (.data index slot) (cls.dataOffset + slot * cls.chunkSize, cls.chunkSize)

/-- The parts of a pool lie apart and inside the payload, each at its alignment,
and a link has room in its chunk. -/
structure Placed (payloadLen : Nat) (pool : SegmentPool) : Prop where
  aligned : ∀ {area place}, pool.Lies area place → area.align ∣ HEADER_SIZE + place.1
  inside : ∀ {area place}, pool.Lies area place → place.1 + place.2 ≤ payloadLen
  apart : ∀ {area other place spot}, pool.Lies area place → pool.Lies other spot → area ≠ other → Apart place spot
  link : ∀ {index slot place}, pool.Lies (.data index slot) place → 4 ≤ place.2

/-- A descriptor is the chunk `alloc` took off a free list: it is that chunk and
meets no other one, it is long enough, and `locate` finds the chunk again. -/
def Handed (pool : SegmentPool) (free next : FreeLists pool) (size : Nat) (desc : ChunkDesc) : Prop :=
  ∃ index slot global, (free.slots index).head? = some slot ∧
    next.slots = update free.slots index (free.slots index).tail ∧
    HEADER_SIZE ≤ desc.offset ∧ pool.Lies (.data index slot) (desc.offset - HEADER_SIZE, desc.len) ∧
    (∀ {other spot place}, pool.Lies (.data other spot) place →
      ¬Apart place (desc.offset - HEADER_SIZE, desc.len) → other = index ∧ spot = slot) ∧
    size ≤ desc.len ∧ pool.locate desc.offset = .ok (index, slot, global)

structure Sound (payloadLen : Nat) (pool : SegmentPool) : Prop where
  placed : Placed payloadLen pool
  handed : ∀ {free next : FreeLists pool} {generations : Nat → Nat} {size : Nat} {desc : ChunkDesc},
    pool.alloc free generations size = .ok (desc, next) → Handed pool free next size desc

/-- No sum over the data areas leaves `usize`. -/
def Unwrapped (off : Nat) : List SizeClass → Prop
  | [] => True
  | cls :: rest => off + 64 ≤ 2 ^ 64 ∧ alignUp off 64 + cls.chunkCount * cls.chunkSize < 2 ^ 64 ∧
      Unwrapped (addData off cls) rest

/-- No sum of `compute_layout` overflows. With overflow checks it panics otherwise. -/
structure Computed (classes : List SizeClass) : Prop where
  chunks : (classes.map SizeClass.chunkCount).sum < 2 ^ 32
  heads : 24 + classes.length * 32 + 8 ≤ 2 ^ 64
  data : Unwrapped ((computeLayout classes).ctrlOffset + (computeLayout classes).totalChunks * 16) classes

/-- The data of every class with chunks start below 4 GiB, so their offset is stored whole. -/
def Whole (plan : List ClassHeader) : Prop :=
  ∀ cls ∈ plan, 0 < cls.chunkCount → cls.dataOffset < 2 ^ 32

/-- Every chunk that `alloc` can come to starts below 4 GiB of the segment. It never
comes to a class after one as large. -/
def Handable (plan : List ClassHeader) : Prop :=
  ∀ index (cls : ClassHeader), plan[index]? = some cls →
    (∀ other ∈ plan.take index, other.chunkSize < cls.chunkSize) →
      ∀ slot < cls.chunkCount, HEADER_SIZE + cls.dataOffset + slot * cls.chunkSize < 2 ^ 32

/-- Headers of classes whose data lie one after another from `off` to `stop`,
their chunks numbered from `first` to `last`. -/
inductive Carved : Nat → Nat → List ClassHeader → Nat → Nat → Prop where
  | nil {first off : Nat} : Carved first off [] first off
  | cons {first off last stop : Nat} {cls : ClassHeader} {rest : List ClassHeader}
      (numbered : cls.baseIndex = first) (past : off ≤ cls.dataOffset ∧ cls.dataOffset < off + 64)
      (aligned : 64 ∣ cls.dataOffset ∧ 0 < cls.chunkSize ∧ 64 ∣ cls.chunkSize)
      (later : Carved (cls.baseIndex + cls.chunkCount) (cls.dataOffset + cls.span) rest last stop) :
      Carved first off (cls :: rest) last stop

section

variable {one off last stop index other : Nat}

theorem Carved.le (carved : Carved one off classes last stop) : one ≤ last ∧ off ≤ stop := by
  induction carved with
  | nil => exact ⟨le_rfl, le_rfl⟩
  | cons _ past _ _ ih => omega

theorem Carved.within (carved : Carved one off classes last stop) (got : classes[index]? = some cls) :
    one ≤ cls.baseIndex ∧ cls.baseIndex + cls.chunkCount ≤ last ∧ off ≤ cls.dataOffset ∧
      cls.dataOffset + cls.span ≤ stop ∧ 64 ∣ cls.dataOffset ∧ 0 < cls.chunkSize ∧ 64 ∣ cls.chunkSize := by
  induction carved generalizing index with
  | nil => cases got
  | cons numbered past aligned later ih =>
    cases index with
    | zero =>
      cases got
      obtain ⟨numbers, bytes⟩ := later.le
      exact ⟨numbered.ge, numbers, past.1, bytes, aligned⟩
    | succ index =>
      obtain ⟨low, high, from_, to_, aligned⟩ := ih got
      exact ⟨by omega, high, by omega, to_, aligned⟩

theorem Carved.ordered (carved : Carved one off classes last stop) (got : classes[index]? = some cls)
    (later : classes[other]? = some next) (below : index < other) :
    cls.baseIndex + cls.chunkCount ≤ next.baseIndex ∧ cls.dataOffset + cls.span ≤ next.dataOffset := by
  induction carved generalizing index other with
  | nil => cases got
  | cons _ _ _ rest ih =>
    cases other with
    | zero => omega
    | succ other =>
      cases index with
      | zero =>
        cases got
        obtain ⟨low, _, from_, _⟩ := rest.within later
        exact ⟨low, from_⟩
      | succ index => exact ih got later (by omega)

/-- Every number is one of a chunk. -/
theorem Carved.numbered (carved : Carved one off classes last stop) (low : one ≤ number) (high : number < last) :
    ∃ (index : Nat) (cls : ClassHeader) (slot : Nat),
      classes[index]? = some cls ∧ slot < cls.chunkCount ∧ cls.baseIndex + slot = number := by
  induction carved with
  | nil => omega
  | @cons first _ _ _ cls rest base _ _ later ih =>
    by_cases here : number < cls.baseIndex + cls.chunkCount
    · exact ⟨0, cls, number - first, rfl, by omega, by omega⟩
    · obtain ⟨index, found⟩ := ih (by omega) high
      exact ⟨index + 1, found⟩

/-- A chunk of an earlier class lies at every aligned offset before the data of a
class: padding is shorter than 64 bytes. -/
theorem Carved.covered (carved : Carved one off classes last stop) (got : classes[index]? = some cls)
    (low : off ≤ place) (high : place < cls.dataOffset) (aligned : 64 ∣ place) :
    ∃ other next slot, other < index ∧ classes[other]? = some next ∧ slot < next.chunkCount ∧
      next.dataOffset + slot * next.chunkSize ≤ place ∧
      place < next.dataOffset + slot * next.chunkSize + next.chunkSize := by
  induction carved generalizing index with
  | nil => cases got
  | @cons _ _ _ _ first rest _ past sizes later ih =>
    cases index with
    | zero =>
      cases got
      omega
    | succ index =>
      by_cases here : place < first.dataOffset + first.span
      · have split := Nat.div_add_mod (place - first.dataOffset) first.chunkSize
        have rem := Nat.mod_lt (place - first.dataOffset) sizes.2.1
        rw [Nat.mul_comm] at split
        have slot : (place - first.dataOffset) / first.chunkSize < first.chunkCount :=
          Nat.div_lt_of_lt_mul (by rw [Nat.mul_comm]; unfold ClassHeader.span at here; omega)
        exact ⟨0, first, _, by omega, rfl, slot, by omega, by omega⟩
      · obtain ⟨other, next, slot, before, found⟩ := ih got (by omega)
        exact ⟨other + 1, next, slot, by omega, found⟩

end

theorem alignUp_spec (positive : 0 < a) (room : x + a ≤ 2 ^ 64) :
    x ≤ alignUp x a ∧ alignUp x a < x + a ∧ a ∣ alignUp x a := by
  unfold alignUp
  rw [Nat.mod_eq_of_lt (by omega)]
  have split := Nat.div_add_mod (x + a - 1) a
  have rest := Nat.mod_lt (x + a - 1) positive
  rw [Nat.mul_comm] at split
  exact ⟨by omega, by omega, Nat.dvd_mul_left _ _⟩

section

variable {classes : List SizeClass}

theorem carved_classHeaders (sizes : ∀ cls ∈ classes, cls.Regular) (room : Unwrapped off classes)
    (few : total + (classes.map SizeClass.chunkCount).sum < 2 ^ 32) :
    Carved total off (classHeaders classes (baseIndices total classes) (dataOffsets off classes))
      (total + (classes.map SizeClass.chunkCount).sum) (classes.foldl addData off) := by
  induction classes generalizing off total with
  | nil => exact .nil
  | cons cls rest ih =>
    obtain ⟨start, fits, room⟩ := room
    obtain ⟨above, below, aligned⟩ := alignUp_spec (x := off) (a := 64) (by decide) start
    simp only [List.map_cons, List.sum_cons] at few ⊢
    have turn : addData off cls = alignUp off 64 + cls.chunkCount * cls.chunkSize := Nat.mod_eq_of_lt fits
    have counted : addChunks total cls = total + cls.chunkCount := Nat.mod_eq_of_lt (by omega)
    have later := ih (fun _ in_ => sizes _ (.tail _ in_)) room (show addChunks total cls + _ < 2 ^ 32 by omega)
    rw [counted, Nat.add_assoc] at later
    refine .cons rfl ⟨above, below⟩ ⟨aligned, sizes _ (.head _)⟩ ?_
    simpa only [classHeaders, ClassHeader.span, List.foldl_cons, turn, counted] using later

theorem foldl_addChunks (small : total < 2 ^ 32) :
    classes.foldl addChunks total = (total + (classes.map SizeClass.chunkCount).sum) % 2 ^ 32 := by
  induction classes generalizing total with
  | nil => exact (Nat.mod_eq_of_lt small).symm
  | cons cls rest ih =>
    have turn : addChunks total cls < 2 ^ 32 := Nat.mod_lt _ (by decide)
    rw [List.foldl_cons, ih turn, addChunks, Nat.mod_add_mod, Nat.add_assoc, List.map_cons, List.sum_cons]

end

/-- A pool whose classes were carved out of a payload by a plan. -/
structure Laid (payloadLen last stop : Nat) (plan : List ClassHeader) (pool : SegmentPool) : Prop where
  classes : pool.classesOffset = 24
  ctrl : pool.ctrlOffset = 24 + pool.numClasses * 32
  carved : Carved 0 (pool.ctrlOffset + last * 16) plan last stop
  stored : pool.classes = plan.map ClassHeader.stored
  fits : stop ≤ payloadLen
  few : last < 2 ^ 32

namespace Laid

variable (laid : Laid payloadLen last stop plan pool) {index other slot spot : Nat}

section

variable (whole : Whole plan)
include laid whole

theorem got_plan (got : pool.classes[index]? = some cls) (some_ : slot < cls.chunkCount) :
    plan[index]? = some cls := by
  rw [laid.stored, List.getElem?_map] at got
  obtain ⟨held, at_, rfl⟩ := Option.map_eq_some_iff.mp got
  have short := whole _ (List.mem_of_getElem? at_) (Nat.zero_lt_of_lt some_)
  rw [at_]
  simp only [ClassHeader.stored, Nat.mod_eq_of_lt short]

theorem slot_le (got : pool.classes[index]? = some cls) (below : slot < cls.chunkCount) :
    pool.ctrlOffset + last * 16 ≤ cls.dataOffset + slot * cls.chunkSize ∧
      cls.dataOffset + slot * cls.chunkSize + cls.chunkSize ≤ cls.dataOffset + cls.span ∧
      cls.dataOffset + cls.span ≤ stop ∧ cls.baseIndex + slot < last := by
  obtain ⟨_, high, from_, to_, _⟩ := laid.carved.within (laid.got_plan whole got below)
  have room := Nat.mul_le_mul_right cls.chunkSize below
  rw [Nat.succ_mul] at room
  unfold ClassHeader.span at to_ ⊢
  omega

/-- A chunk of an earlier class, or an earlier chunk of the class, has the smaller
number and ends before the other starts. -/
theorem precedes (got : pool.classes[index]? = some cls) (later : pool.classes[other]? = some next)
    (below : slot < cls.chunkCount) (within : spot < next.chunkCount)
    (order : index < other ∨ index = other ∧ slot < spot) :
    cls.baseIndex + slot < next.baseIndex + spot ∧
      cls.dataOffset + slot * cls.chunkSize + cls.chunkSize ≤ next.dataOffset + spot * next.chunkSize := by
  rcases order with before | ⟨rfl, before⟩
  · have rank := laid.carved.ordered (laid.got_plan whole got below) (laid.got_plan whole later within) before
    have room := laid.slot_le whole got below
    omega
  · cases got.symm.trans later
    have room := Nat.mul_le_mul_right cls.chunkSize before
    rw [Nat.succ_mul] at room
    omega

theorem apart_slots (got : pool.classes[index]? = some cls) (later : pool.classes[other]? = some next)
    (below : slot < cls.chunkCount) (within : spot < next.chunkCount) (differ : ¬(index = other ∧ slot = spot)) :
    Apart (cls.dataOffset + slot * cls.chunkSize, cls.chunkSize)
      (next.dataOffset + spot * next.chunkSize, next.chunkSize) ∧
      cls.baseIndex + slot ≠ next.baseIndex + spot := by
  by_cases order : index < other ∨ index = other ∧ slot < spot
  · have ahead := laid.precedes whole got later below within order
    exact ⟨.inl ahead.2, ahead.1.ne⟩
  · have behind := laid.precedes whole later got within below (show other < index ∨ other = index ∧
      spot < slot by omega)
    exact ⟨.inr behind.2, behind.1.ne'⟩

/-- The parts lie in the order of `Area`, each kind in a zone of its own. -/
theorem zone (lies : pool.Lies area place) : match area with
    | .poolHeader => place.1 + place.2 ≤ 24 | .classHeader _ => 24 ≤ place.1 ∧ place.1 + place.2 ≤ pool.ctrlOffset
    | .ctrl _ _ => pool.ctrlOffset ≤ place.1 ∧ place.1 + place.2 ≤ pool.ctrlOffset + last * 16
    | .data _ _ => pool.ctrlOffset + last * 16 ≤ place.1 ∧ place.1 + place.2 ≤ stop := by
  have classes := laid.classes
  have heads := laid.ctrl
  cases lies with
  | poolHeader => exact le_rfl
  | classHeader inside => exact ⟨by omega, by omega⟩
  | ctrl got below =>
    have fits := laid.slot_le whole got below
    exact ⟨by omega, by omega⟩
  | data got below =>
    have fits := laid.slot_le whole got below
    exact ⟨by omega, by omega⟩

theorem placed : Placed payloadLen pool where
  aligned lies := by
    cases lies with
    | poolHeader => decide
    | classHeader inside =>
      have base := laid.classes
      simp only [Area.align, HEADER_SIZE]
      omega
    | ctrl got below =>
      have base := laid.ctrl
      simp only [Area.align, HEADER_SIZE]
      omega
    | data got below =>
      obtain ⟨_, _, _, _, offset, _, size⟩ := laid.carved.within (laid.got_plan whole got below)
      exact Nat.dvd_add (dvd_refl 64) (Nat.dvd_add offset (size.mul_left _))
  inside lies := by
    have ends := laid.carved.le
    have fits := laid.fits
    have heads := laid.ctrl
    have low := laid.zone whole lies
    cases lies <;> simp only at low ⊢ <;> omega
  apart one two differ := by
    have low := laid.zone whole one
    have high := laid.zone whole two
    have heads := laid.ctrl
    cases one <;> cases two
    case poolHeader.poolHeader => exact absurd rfl differ
    case classHeader.classHeader index _ other _ =>
      have ne : index ≠ other := fun same => differ (same ▸ rfl)
      simp only [Apart]
      omega
    case ctrl.ctrl got below _ _ _ later within =>
      have ne := (laid.apart_slots whole got later below within (by rintro ⟨rfl, rfl⟩; exact differ rfl)).2
      simp only [Apart]
      omega
    case data.data got below _ _ _ later within =>
      exact (laid.apart_slots whole got later below within (by rintro ⟨rfl, rfl⟩; exact differ rfl)).1
    all_goals
      simp only [Apart] at low high ⊢
      omega
  link lies := by
    cases lies with
    | data got below =>
      obtain ⟨_, _, _, _, _, positive, whole⟩ := laid.carved.within (laid.got_plan whole got below)
      exact le_trans (by decide) (Nat.le_of_dvd positive whole)

/-- The offset of a chunk leads back to it. -/
theorem locate_slot (got : pool.classes[index]? = some cls) (below : slot < cls.chunkCount) :
    pool.locate (HEADER_SIZE + cls.dataOffset + slot * cls.chunkSize) = .ok (index, slot, cls.baseIndex + slot) := by
  have planned := laid.got_plan whole got below
  obtain ⟨_, _, _, _, _, positive, _⟩ := laid.carved.within planned
  have room := laid.slot_le whole got below
  have few := laid.few
  simp only [SegmentPool.locate]
  rw [if_neg (by omega), Nat.add_assoc, Nat.add_sub_cancel_left]
  split
  · rename_i missed
    have beyond := List.find?_eq_none.mp missed (cls, index) (List.mem_zipIdx_iff_getElem?.mpr got)
    exact absurd (decide_eq_true (show cls.dataOffset ≤ _ ∧ _ < cls.dataOffset + cls.span by omega)) beyond
  · rename_i held place at_
    obtain ⟨here, within⟩ := SegmentPool.find_entry at_
    obtain ⟨above, under⟩ := of_decide_eq_true within
    simp only [ClassHeader.span] at above under
    have chunks : 0 < held.chunkCount := Nat.pos_of_ne_zero fun none => by
      rw [none] at under
      omega
    -- Two classes whose data hold the offset would overlap.
    have same : place = index := by
      rcases Nat.lt_trichotomy place index with less | same | more
      · have rank := laid.carved.ordered (laid.got_plan whole here chunks) planned less
        unfold ClassHeader.span at rank
        omega
      · exact same
      · have rank := laid.carved.ordered planned (laid.got_plan whole here chunks) more
        omega
    subst same
    cases here.symm.trans got
    rw [Nat.add_sub_cancel_left, Nat.mul_mod_left, Nat.mul_div_cancel _ positive, Nat.mod_eq_of_lt (by omega)]
    rfl

end

include laid

theorem got_pool (got : plan[index]? = some cls) : pool.classes[index]? = some cls.stored := by
  rw [laid.stored, List.getElem?_map, got]
  rfl

/-- Before the data of a class every aligned offset is taken, so data whose offset
is cut lie on some other part. -/
theorem whole_of_placed (placed : Placed payloadLen pool) (index : Nat) : ∀ cls : ClassHeader,
    plan[index]? = some cls → 0 < cls.chunkCount → cls.dataOffset < 2 ^ 32 := by
  induction index using Nat.strongRecOn with
  | _ index ih =>
  intro cls got chunks
  by_contra long
  obtain ⟨_, _, _, _, aligned, positive, _⟩ := laid.carved.within got
  have mine : pool.Lies (.data index 0) _ := .data (laid.got_pool got) chunks
  have cut : (cls.dataOffset % 2 ^ 32) % 64 = 0 := by omega
  have less : cls.dataOffset % 2 ^ 32 < cls.dataOffset := by omega
  simp only [ClassHeader.stored, Nat.zero_mul, Nat.add_zero] at mine
  generalize cls.dataOffset % 2 ^ 32 = place at mine cut less
  have meets : ∀ {area spot}, pool.Lies area spot → area ≠ .data index 0 → spot.1 ≤ place → spot.1 + spot.2 ≤ place :=
    fun lies differs below => (placed.apart lies mine differs).elim id fun above => by
      simp only at above
      omega
  have heads := laid.ctrl
  have start := laid.classes
  by_cases data : pool.ctrlOffset + last * 16 ≤ place
  · obtain ⟨other, next, slot, before, found, below, from_, to_⟩ :=
      laid.carved.covered got data less (Nat.dvd_of_mod_eq_zero cut)
    have kept : next.stored.dataOffset = next.dataOffset :=
      Nat.mod_eq_of_lt (ih other before next found (Nat.zero_lt_of_lt below))
    have past := meets (.data (laid.got_pool found) below) (by simp; omega) (by rw [kept]; exact from_)
    rw [kept] at past
    exact absurd past (Nat.not_le_of_lt to_)
  · by_cases ctrl : pool.ctrlOffset ≤ place
    · obtain ⟨other, next, slot, found, below, number⟩ :=
        laid.carved.numbered (show 0 ≤ (place - pool.ctrlOffset) / 16 from Nat.zero_le _) (by omega)
      have past := meets (.ctrl (laid.got_pool found) below) (by simp)
        (show pool.ctrlOffset + (next.baseIndex + slot) * 16 ≤ place by omega)
      simp only [ClassHeader.stored] at past
      omega
    · by_cases header : place < 24
      · have past := meets .poolHeader (by simp) (Nat.zero_le _)
        omega
      · have head : pool.Lies (.classHeader ((place - 24) / 32)) _ := .classHeader (by omega)
        have past := meets head (by simp) (show _ + (place - 24) / 32 * 32 ≤ place by omega)
        omega

end Laid

/-- The class `alloc` comes to is the first one as large as the request. -/
theorem find_first {plan : List ClassHeader} {cls : ClassHeader} {index size : Nat} :
    plan.zipIdx.find? (fun entry => size ≤ entry.1.chunkSize) = some (cls, index) ↔
      plan[index]? = some cls ∧ size ≤ cls.chunkSize ∧ ∀ other ∈ plan.take index, other.chunkSize < size := by
  simp only [List.find?_eq_some_iff_getElem, List.getElem_zipIdx, List.length_zipIdx, List.mem_take_iff_getElem,
    List.getElem?_eq_some_iff]
  constructor
  · rintro ⟨enough, place, inside, same, before⟩
    grind
  · rintro ⟨⟨inside, same⟩, enough, before⟩
    exact ⟨by simpa using enough, index, inside, by simp [same], fun other less => by grind⟩

/-- One chunk is free. -/
def FreeLists.single {pool : SegmentPool} {index slot : Nat} {cls : ClassHeader}
    (found : pool.classes[index]? = some cls) (below : slot < cls.chunkCount) : FreeLists pool where
  slots other := if other = index then [slot] else []
  inside {other held} got spot member := by
    split at member
    · subst other
      cases found.symm.trans got
      rwa [List.mem_singleton.mp member]
    · cases member

theorem SegmentPool.Lies.data_eq {pool : SegmentPool} {index slot : Nat} {cls : ClassHeader} {place : Nat × Nat}
    (lies : pool.Lies (.data index slot) place) (got : pool.classes[index]? = some cls) :
    place.1 = cls.dataOffset + slot * cls.chunkSize := by
  cases lies with
  | data found _ =>
    cases found.symm.trans got
    rfl

section

variable {segmentId payloadLen : Nat} {pool : SegmentPool} {initial : FreeLists pool}
  (sizes : ∀ cls ∈ classes, cls.Regular) (computed : Computed classes)
  (created : SegmentPool.create segmentId payloadLen classes = .ok ⟨pool, initial⟩)
include sizes computed created

theorem laid_of_create : ∃ last stop, Laid payloadLen last stop (planned classes) pool := by
  obtain ⟨few, heads, room⟩ := computed
  have total : (computeLayout classes).totalChunks = (classes.map SizeClass.chunkCount).sum := by
    refine (foldl_addChunks (by decide)).trans ?_
    rw [Nat.zero_add, Nat.mod_eq_of_lt few]
  have ctrl : (computeLayout classes).ctrlOffset = 24 + classes.length * 32 := by
    obtain ⟨above, below, aligned⟩ := alignUp_spec (x := 24 + classes.length * 32) (a := 8) (by decide) heads
    simp only [computeLayout, show alignUp 24 8 = 24 from rfl]
    omega
  have carved := carved_classHeaders sizes room (show 0 + (classes.map SizeClass.chunkCount).sum < 2 ^ 32 by omega)
  rw [Nat.zero_add, ← total] at carved
  simp only [SegmentPool.create] at created
  split at created
  · cases created
  · split at created
    · cases created
    · rename_i fits
      cases created
      exact ⟨_, _, rfl, ctrl, carved, rfl, Nat.le_of_not_lt fits, by rwa [total]⟩

end

end ShmActors.Artifact
