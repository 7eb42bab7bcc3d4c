import Mathlib.Algebra.Order.Ring.Nat
import Mathlib.Data.Finset.Card
import Mathlib.Data.List.Nodup

/-! The ids of the segments that hold the coordinator's pools, `shm-runtime/src/config.rs`
and `coordinator.rs`, and how a replay finds the pool of a chunk by them. -/

namespace ShmActors.Node

section

def STORE_ID_OFFSET : Nat := 8192

def payloadSegId (segBase : Nat) : Nat := segBase

def storeDataSegId (segBase : Nat) : Nat := (segBase + STORE_ID_OFFSET + 2) % 2 ^ 32

/-- The base of a process: `seed` is what `pid` and the clock make. -/
def artifactIdBase (seed : Nat) : Nat := 1 + seed % 50000

/-- `alloc_artifact_data_id`, with the value drawn from `COUNTER`. -/
def allocArtifactDataId (base count : Nat) : Nat := max ((base + count) % 2 ^ 32 % 65536) 1

end

section

/-- What makes segments; `elsewhere` is an artifact of another coordinator of the
process, which draws from the same counter. -/
inductive SegmentOp where
  | register
  | createTopic (topic : String)
  | openArtifact (name : String)
  | elsewhere
  deriving DecidableEq

structure Segments where
  nextActorId : Nat
  topics : List String
  artifacts : List (String × Nat)
  counter : Nat

variable (segBase base : Nat)

def Segments.init (counter : Nat) : Segments := ⟨1, [], [], counter⟩

def Segments.step (segments : Segments) : SegmentOp → Segments
  | .register => { segments with nextActorId := segments.nextActorId + 1 }
  | .createTopic topic =>
    if topic ∈ segments.topics then segments else { segments with topics := topic :: segments.topics }
  | .openArtifact name =>
    if name ∈ segments.artifacts.map Prod.fst then segments
    else { segments with
      artifacts := (name, allocArtifactDataId base segments.counter) :: segments.artifacts
      counter := (segments.counter + 1) % 2 ^ 32 }
  | .elsewhere => { segments with counter := (segments.counter + 1) % 2 ^ 32 }

def layOut (counter : Nat) (ops : List SegmentOp) : Segments := ops.foldl (·.step base) (.init counter)

inductive PoolName where
  | payload
  | artifact (name : String)
  | store
  deriving DecidableEq

/-- The pools `reclaim_dead` attaches; the artifacts come in the order of a hash map. -/
def pools (artifacts : List (String × Nat)) : List (PoolName × Nat) :=
  (.payload, payloadSegId segBase) :: artifacts.map (fun entry => (.artifact entry.1, entry.2)) ++
    [(.store, storeDataSegId segBase)]

/-- The pool a replayed record is applied to. -/
def route (pools : List (PoolName × Nat)) (segmentId : Nat) : Option PoolName :=
  (pools.find? fun pool => pool.2 = segmentId).map Prod.fst

end

section

variable {segBase base counter : Nat}

/-- The artifacts opened. -/
def opened (ops : List SegmentOp) : Finset String :=
  (ops.filterMap fun
    | .openArtifact name => some name
    | _ => none).toFinset

/-- How many ids are drawn: one for each artifact, and those elsewhere. -/
def drawn (ops : List SegmentOp) : Nat := (opened ops).card + ops.count .elsewhere

/-- Artifacts have ids of their own, in the stretch of the counter drawn so far. -/
structure Laid (base counter : Nat) (ops : List SegmentOp) (segments : Segments) : Prop where
  count : segments.counter = counter + drawn ops
  names : ∀ name, name ∈ segments.artifacts.map Prod.fst ↔ name ∈ opened ops
  ids : (segments.artifacts.map Prod.snd).Nodup
  below : ∀ id ∈ segments.artifacts.map Prod.snd, base + counter ≤ id ∧ id < base + segments.counter

theorem allocArtifactDataId_eq (positive : 0 < base) (room : base + count < 65536) :
    allocArtifactDataId base count = base + count := by
  unfold allocArtifactDataId
  omega

theorem drawn_le_append (ops : List SegmentOp) (op : SegmentOp) : drawn ops ≤ drawn (ops ++ [op]) := by
  unfold drawn opened
  rw [List.filterMap_append, List.toFinset_append, List.count_append]
  exact Nat.add_le_add (Finset.card_le_card Finset.subset_union_left) (Nat.le_add_right ..)

theorem Laid.idle (laid : Laid base counter ops segments)
    (count : later.counter = segments.counter) (artifacts : later.artifacts = segments.artifacts)
    (names : opened others = opened ops) (draws : drawn others = drawn ops) : Laid base counter others later := by
  refine ⟨?_, ?_, ?_, ?_⟩
  · rw [count, draws, laid.count]
  · rw [artifacts, names]
    exact laid.names
  · rw [artifacts]
    exact laid.ids
  · rw [artifacts, count]
    exact laid.below

theorem laid_step (positive : 0 < base)
    (room : base + counter + drawn (ops ++ [op]) ≤ 65536) (laid : Laid base counter ops segments) :
    Laid base counter (ops ++ [op]) (segments.step base op) := by
  have count := laid.count
  have below := laid.below
  have next (draws : drawn (ops ++ [op]) = drawn ops + 1) : (segments.counter + 1) % 2 ^ 32 = segments.counter + 1 :=
    Nat.mod_eq_of_lt (by omega)
  cases op with
  | register => exact laid.idle rfl rfl (by simp [opened]) (by simp [drawn, opened])
  | createTopic topic =>
    refine laid.idle ?_ ?_ (by simp [opened]) (by simp [drawn, opened])
    all_goals
      unfold Segments.step
      dsimp only
      split <;> rfl
  | elsewhere =>
    have draws : drawn (ops ++ [.elsewhere]) = drawn ops + 1 := by simp [drawn, opened, Nat.add_assoc]
    have same : opened (ops ++ [.elsewhere]) = opened ops := by simp [opened]
    dsimp only [Segments.step]
    rw [next draws]
    refine ⟨?_, same ▸ laid.names, laid.ids, fun id in_ => ?_⟩
    · dsimp only
      omega
    · have := below id in_
      dsimp only
      omega
  | openArtifact name =>
    have all : opened (ops ++ [.openArtifact name]) = insert name (opened ops) := by
      simp [opened]
    have others : (ops ++ [SegmentOp.openArtifact name]).count .elsewhere = ops.count .elsewhere := by simp
    dsimp only [Segments.step]
    split
    · rename_i known
      have same : opened (ops ++ [.openArtifact name]) = opened ops := by
        rw [all, Finset.insert_eq_of_mem ((laid.names name).mp known)]
      exact laid.idle rfl rfl same (by rw [drawn, same, others, drawn])
    · rename_i new
      have draws : drawn (ops ++ [.openArtifact name]) = drawn ops + 1 := by
        rw [drawn, all, Finset.card_insert_of_notMem fun old => new ((laid.names name).mpr old), others, drawn]
        omega
      rw [allocArtifactDataId_eq positive (by omega), next draws]
      refine ⟨?_, fun other => ?_, ?_, fun id in_ => ?_⟩
      · dsimp only
        omega
      · rw [all, List.map_cons, List.mem_cons, Finset.mem_insert, laid.names]
      · refine List.nodup_cons.mpr ⟨fun in_ => ?_, laid.ids⟩
        exact Nat.lt_irrefl _ (below _ in_).2
      · dsimp only
        rcases List.mem_cons.mp in_ with rfl | old
        · dsimp only
          omega
        · have := below id old
          omega

theorem laid_layOut (positive : 0 < base) (ops : List SegmentOp) (room : base + counter + drawn ops ≤ 65536) :
    Laid base counter ops (layOut base counter ops) := by
  induction ops using List.reverseRecOn with
  | nil => exact ⟨rfl, by simp [layOut, Segments.init, opened], List.nodup_nil, by simp [layOut, Segments.init]⟩
  | append_singleton ops op ih =>
    have := drawn_le_append ops op
    rw [layOut, List.foldl_append]
    exact laid_step positive room (ih (by omega))

theorem route_of_nodup (distinct : (list.map Prod.snd).Nodup)
    (in_ : pool ∈ list) : route list pool.2 = some pool.1 := by
  unfold route
  cases got : list.find? fun other => other.2 = pool.2 with
  | none =>
    have := List.find?_eq_none.mp got pool in_
    simp at this
  | some other =>
    have same : other.2 = pool.2 := by simpa using List.find?_some got
    rw [List.inj_on_of_nodup_map distinct (List.mem_of_find?_eq_some got) in_ same]
    rfl

/-- No chunk is replayed on a pool other than its own, if the ids drawn come before
65536 and leave out those of the fixed layout. -/
theorem routed_of_layOut (seed counter segBase : Nat) (ops : List SegmentOp)
    (room : artifactIdBase seed + counter + drawn ops ≤ 65536)
    (clear : ∀ id, artifactIdBase seed + counter ≤ id → id < artifactIdBase seed + counter + drawn ops →
      id ≠ payloadSegId segBase ∧ id ≠ storeDataSegId segBase)
    (order : List (String × Nat)) (listed : order.Perm (layOut (artifactIdBase seed) counter ops).artifacts) :
    ((pools segBase order).map Prod.snd).Nodup ∧
      ∀ pool ∈ pools segBase order, route (pools segBase order) pool.2 = some pool.1 := by
  have laid : Laid _ counter ops (layOut (artifactIdBase seed) counter ops) :=
    laid_layOut (by unfold artifactIdBase; omega) ops room
  have fixed : payloadSegId segBase ≠ storeDataSegId segBase := by
    unfold payloadSegId storeDataSegId STORE_ID_OFFSET
    omega
  have apart {id : Nat} (member : id ∈ order.map Prod.snd) : id ≠ payloadSegId segBase ∧
      id ≠ storeDataSegId segBase := by
    obtain ⟨least, most⟩ := laid.below id ((listed.map Prod.snd).subset member)
    rw [laid.count] at most
    exact clear id least (by omega)
  have distinct : ((pools segBase order).map Prod.snd).Nodup := by
    have ids : (pools segBase order).map Prod.snd =
        payloadSegId segBase :: (order.map Prod.snd ++ [storeDataSegId segBase]) := by
      simp [pools, Function.comp_def]
    rw [ids, List.nodup_cons, List.nodup_append]
    refine ⟨?_, (listed.map Prod.snd).nodup_iff.mpr laid.ids, List.nodup_singleton _, ?_⟩
    · intro member
      rcases List.mem_append.mp member with drawn | store
      · exact (apart drawn).1 rfl
      · exact fixed (List.mem_singleton.mp store)
    · intro id drawn other store same
      exact (apart drawn).2 (same.trans (List.mem_singleton.mp store))
  exact ⟨distinct, fun pool member => route_of_nodup distinct member⟩

/-- The first artifact of a process gets the payload segment's id; its chunks are
replayed on the payload pool. -/
theorem shared_id_misroutes :
    (layOut (artifactIdBase 0) 0 [.openArtifact "a"]).artifacts = [("a", 1)] ∧
      (pools 1 [("a", 1)]).map Prod.snd = [1, 1, 8195] ∧ route (pools 1 [("a", 1)]) 1 = some .payload := by
  decide

theorem routed_high :
    ((pools 70000 [("b", 2), ("a", 1)]).map Prod.snd).Nodup ∧ ∀ pool ∈ pools 70000 [("b", 2), ("a", 1)],
      route (pools 70000 [("b", 2), ("a", 1)]) pool.2 = some pool.1 := by
  refine routed_of_layOut 0 0 70000 [.openArtifact "a", .openArtifact "b"] (by decide) (fun id _ below => ?_)
    [("b", 2), ("a", 1)] (by decide)
  have : drawn [.openArtifact "a", .openArtifact "b"] = 2 := by decide
  unfold artifactIdBase at below
  constructor
  · unfold payloadSegId
    omega
  · unfold storeDataSegId STORE_ID_OFFSET
    omega

end

end ShmActors.Node
