import ShmActors.Arrow.Codec
import ShmActors.Lib.Interner

/-! The schema cache of a node, `shm-arrow/src/schema.rs`, filled by its own interns
and by the ids the coordinator issued. -/

namespace ShmActors.Arrow

open Lib Function

namespace SchemaRegistry

variable (contentKey : Schema → Nat) (registry : SchemaRegistry)

def insert (id : Nat) (schema : Schema) : SchemaRegistry :=
  if id = RAW_SCHEMA_ID then registry
  else {
    byId := update registry.byId id (some ((registry.byId id).getD schema))
    byHash := update registry.byHash (contentKey schema)
      (some ((registry.byHash (contentKey schema)).getD id))
    nextId := if registry.nextId ≤ id then (id + 1) % 2 ^ 32 else registry.nextId }

def idFor (schema : Schema) : Option Nat := registry.byHash (contentKey schema)

def table : Interner Nat Schema := ⟨registry.byHash, registry.byId, registry.nextId⟩

theorem table_intern (schema : Schema) :
    (registry.intern contentKey schema).1 = (registry.table.intern contentKey schema).1 ∧
      (registry.intern contentKey schema).2.table = (registry.table.intern contentKey schema).2 := by
  unfold intern Interner.intern
  dsimp only [table]
  cases registry.byHash (contentKey schema) <;> exact ⟨rfl, rfl⟩

theorem table_insert {id : Nat} (named : id ≠ RAW_SCHEMA_ID) (schema : Schema) :
    (registry.insert contentKey id schema).table = registry.table.insert contentKey id schema := by
  rw [insert, if_neg named]
  rfl

end SchemaRegistry

section

/-- `intern`, or `insert` of what the coordinator answered. -/
inductive CacheOp where
  | intern (schema : Schema)
  | insert (id : Nat) (schema : Schema)

def CacheOp.schema : CacheOp → Schema
  | .intern schema => schema
  | .insert _ schema => schema

/-- The registry, what `intern` has returned and what was inserted. -/
structure SchemaCache where
  registry : SchemaRegistry
  returned : List (Schema × Nat)
  issued : List (Nat × Schema)

variable (contentKey : Schema → Nat)

def SchemaCache.step (cache : SchemaCache) : CacheOp → SchemaCache
  | .intern schema =>
    let (id, registry) := cache.registry.intern contentKey schema
    { cache with registry, returned := (schema, id) :: cache.returned }
  | .insert id schema =>
    { cache with registry := cache.registry.insert contentKey id schema, issued := (id, schema) :: cache.issued }

def runCache (ops : List CacheOp) : SchemaCache := ops.foldl (·.step contentKey) ⟨.new, [], []⟩

/-- An id about to be used is not another schema's: neither the one `intern` would
mint, nor the one to insert. -/
def Unshared (registry : SchemaRegistry) : CacheOp → Prop
  | .intern schema => registry.table.Fresh contentKey schema
  | .insert id schema => id ≠ RAW_SCHEMA_ID ∧ (registry.byId id = none ∨ registry.byId id = some schema)

/-- At each step of the run. -/
def AllUnshared (ops : List CacheOp) : Prop :=
  ∀ earlier op later, ops = earlier ++ op :: later → Unshared contentKey (runCache contentKey earlier).registry op

variable {contentKey} {known : Set Schema}

/-- What was returned is cached still, and what was inserted resolves still. -/
structure Kept (contentKey : Schema → Nat) (known : Set Schema) (cache : SchemaCache) : Prop where
  agrees : cache.registry.table.Agrees contentKey known
  returned : ∀ entry ∈ cache.returned, entry.1 ∈ known ∧ cache.registry.idFor contentKey entry.1 = some entry.2
  issued : ∀ entry ∈ cache.issued, entry.1 ≠ RAW_SCHEMA_ID ∧ cache.registry.byId entry.1 = some entry.2

theorem Kept.grow (kept : Kept contentKey known cache)
    (agrees : registry.table.Agrees contentKey known) (grows : Interner.Grows cache.registry.table registry.table) :
    Kept contentKey known { cache with registry } :=
  ⟨agrees, fun entry in_ => ⟨(kept.returned entry in_).1, grows.byKey (kept.returned entry in_).2⟩,
    fun entry in_ => ⟨(kept.issued entry in_).1, grows.byId (kept.issued entry in_).2⟩⟩

theorem kept_step (ne : Set.InjOn contentKey known)
    (within : op.schema ∈ known) (unshared : Unshared contentKey cache.registry op)
    (kept : Kept contentKey known cache) : Kept contentKey known (cache.step contentKey op) := by
  cases op with
  | intern schema =>
    change schema ∈ known at within
    obtain ⟨answer, table⟩ := cache.registry.table_intern contentKey schema
    obtain ⟨⟨agrees, grows⟩, cached⟩ := kept.agrees.intern ne within unshared
    rw [← table] at agrees grows cached
    rw [← answer] at cached
    obtain ⟨agrees, returned, issued⟩ := kept.grow agrees grows
    refine ⟨agrees, fun entry in_ => ?_, issued⟩
    rcases List.mem_cons.mp in_ with rfl | old
    · exact ⟨within, cached⟩
    · exact returned entry old
  | insert id schema =>
    change schema ∈ known at within
    obtain ⟨named, unused⟩ := unshared
    obtain ⟨⟨agrees, grows⟩, resolves⟩ := kept.agrees.insert ne within named unused
    rw [← cache.registry.table_insert contentKey named] at agrees grows resolves
    obtain ⟨agrees, returned, issued⟩ := kept.grow agrees grows
    refine ⟨agrees, returned, fun entry in_ => ?_⟩
    rcases List.mem_cons.mp in_ with rfl | old
    · exact ⟨named, resolves⟩
    · exact issued entry old

theorem kept_runCache (ne : Set.InjOn contentKey known) (ops : List CacheOp) (within : ∀ op ∈ ops, op.schema ∈ known)
    (unshared : AllUnshared contentKey ops) : Kept contentKey known (runCache contentKey ops) := by
  induction ops using List.reverseRecOn with
  | nil => exact ⟨Interner.agrees_empty 1, by simp [runCache], by simp [runCache]⟩
  | append_singleton ops op ih =>
    have earlier := ih (fun op in_ => within op (List.mem_append_left _ in_)) fun one next rest same =>
      unshared one next (rest ++ [op]) (by rw [same, List.append_assoc, List.cons_append])
    rw [runCache, List.foldl_append]
    exact kept_step ne (within op (by simp)) (unshared ops op [] rfl) earlier

/-- In every run that uses no id for two schemas, all ids resolve to their schemas. -/
theorem resolved_of_runCache (contentKey : Schema → Nat) (known : Set Schema) (apart : Set.InjOn contentKey known)
    (ops : List CacheOp) (within : ∀ op ∈ ops, op.schema ∈ known) (unshared : AllUnshared contentKey ops) :
    (∀ entry ∈ (runCache contentKey ops).returned,
      (runCache contentKey ops).registry.resolve entry.2 = some entry.1) ∧
    (∀ schema ∈ known, ∀ id, (runCache contentKey ops).registry.idFor contentKey schema = some id →
      (runCache contentKey ops).registry.resolve id = some schema) ∧
    ∀ entry ∈ (runCache contentKey ops).issued,
      (runCache contentKey ops).registry.resolve entry.1 = some entry.2 := by
  have kept := kept_runCache apart ops within unshared
  have cached : ∀ schema ∈ known, ∀ id, (runCache contentKey ops).registry.idFor contentKey schema = some id →
      (runCache contentKey ops).registry.resolve id = some schema := by
    intro schema member id found
    obtain ⟨named, resolves⟩ := kept.agrees schema member id found
    exact (if_neg named).trans resolves
  refine ⟨fun entry member => ?_, cached, fun entry member => ?_⟩
  · exact cached entry.1 (kept.returned entry member).1 entry.2 (kept.returned entry member).2
  · exact (if_neg (kept.issued entry member).1).trans (kept.issued entry member).2

/-- A schema of so many columns. -/
def columns (count : Nat) : Schema := List.replicate count (.flat 0)

/-- The coordinator issues 17 after the node has minted it. -/
theorem minted_shared :
    Set.InjOn List.length {columns 1, columns 2, columns 3} ∧
      (runCache List.length [.insert 16 (columns 2), .intern (columns 1), .insert 17 (columns 3)]).registry.idFor
        List.length (columns 3) = some 17 ∧
      (runCache List.length [.insert 16 (columns 2), .intern (columns 1), .insert 17 (columns 3)]).registry.resolve 17 =
        some (columns 1) := by
  refine ⟨?_, rfl, rfl⟩
  rintro _ (rfl | rfl | rfl) _ (rfl | rfl | rfl) same <;> first | rfl | cases same

def insertThenIntern : SchemaCache := runCache List.length [.insert 16 (columns 2), .intern (columns 1)]

theorem resolved_after_insert : insertThenIntern.returned = [(columns 1, 17)] ∧
    (∀ entry ∈ insertThenIntern.returned, insertThenIntern.registry.resolve entry.2 = some entry.1) ∧
    (∀ schema ∈ ({columns 1, columns 2} : Set Schema), ∀ id,
        insertThenIntern.registry.idFor List.length schema = some id →
      insertThenIntern.registry.resolve id = some schema) ∧
    ∀ entry ∈ insertThenIntern.issued, insertThenIntern.registry.resolve entry.1 = some entry.2 := by
  refine ⟨rfl, resolved_of_runCache List.length {columns 1, columns 2} ?_ [.insert 16 (columns 2), .intern (columns 1)]
    (by simp [CacheOp.schema]) fun earlier op later same => ?_⟩
  · rintro _ (rfl | rfl) _ (rfl | rfl) same <;> first | rfl | cases same
  · rcases earlier with _ | ⟨first, _ | ⟨second, rest⟩⟩
    · cases same
      exact ⟨by decide, .inl rfl⟩
    · cases same
      exact fun _ => ⟨by decide, rfl⟩
    · simp at same

end

end ShmActors.Arrow
