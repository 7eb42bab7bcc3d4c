import ShmActors.Lib.Bytes
import ShmActors.Lib.Interner

/-! The catalogs of `shm-runtime/src/coordinator.rs`: schemas are interned by the
hash of their bytes, keys by their bytes. -/

namespace ShmActors.Node

open Lib

def FNV_OFFSET : UInt64 := 0xcbf29ce484222325

def FNV_PRIME : UInt64 := 0x100000001b3

def schemaContentHash (bytes : Bytes) : UInt64 :=
  bytes.foldl (fun hash byte => (hash ^^^ byte.toUInt64) * FNV_PRIME) FNV_OFFSET

def FIRST_USER_SCHEMA_ID : Nat := 16

/-- The catalogs in the coordinator's state; `schema_ids` and `key_ids` map a key,
`schema_bytes` and `key_bytes` an id. -/
structure Catalogs where
  schemas : Interner UInt64 Bytes
  keys : Interner Bytes Bytes

namespace Catalogs

def init : Catalogs := ⟨.empty FIRST_USER_SCHEMA_ID, .empty 1⟩

def internSchema (catalogs : Catalogs) (schemaBytes : Bytes) : Nat × Catalogs :=
  let (id, schemas) := catalogs.schemas.intern schemaContentHash schemaBytes
  (id, { catalogs with schemas })

def resolveSchemaBytes (catalogs : Catalogs) (schemaId : Nat) : Option Bytes := catalogs.schemas.byId schemaId

def internKey (catalogs : Catalogs) (keyBytes : Bytes) : Nat × Catalogs :=
  let (id, keys) := catalogs.keys.intern id keyBytes
  (id, { catalogs with keys })

def resolveKeyBytes (catalogs : Catalogs) (keyId : Nat) : Option Bytes := catalogs.keys.byId keyId

end Catalogs

section

/-- `InternSchema` or `InternKey`. -/
inductive Interned where
  | schema
  | key
  deriving DecidableEq

structure InternRequest where
  kind : Interned
  bytes : Bytes
  deriving DecidableEq

def Catalogs.intern (catalogs : Catalogs) (request : InternRequest) : Nat × Catalogs :=
  match request.kind with
  | .schema => catalogs.internSchema request.bytes
  | .key => catalogs.internKey request.bytes

def Catalogs.resolve (catalogs : Catalogs) : Interned → Nat → Option Bytes
  | .schema => catalogs.resolveSchemaBytes
  | .key => catalogs.resolveKeyBytes

/-- The catalogs, and the requests answered so far with the id each got. -/
structure Served where
  catalogs : Catalogs
  log : List (InternRequest × Nat)

def Served.serve (served : Served) (request : InternRequest) : Served :=
  let (id, catalogs) := served.catalogs.intern request
  ⟨catalogs, (request, id) :: served.log⟩

/-- Requests of any clients, in the order in which they get the lock. -/
def serveAll (requests : List InternRequest) : Served := requests.foldl Served.serve ⟨.init, []⟩

/-- The byte strings interned. -/
def requested (kind : Interned) (requests : List InternRequest) : Finset Bytes :=
  ((requests.filter fun request => request.kind = kind).map InternRequest.bytes).toFinset

def logOf (kind : Interned) (log : List (InternRequest × Nat)) : List (Bytes × Nat) :=
  (log.filter fun entry => entry.1.kind = kind).map fun entry => (entry.1.bytes, entry.2)

end

section

variable {schemas keys : Finset Bytes} {kind : Interned}

theorem mem_logOf (in_ : entry ∈ log) (same : entry.1.kind = kind) : (entry.1.bytes, entry.2) ∈ logOf kind log :=
  List.mem_map_of_mem (List.mem_filter.mpr ⟨in_, decide_eq_true same⟩)

theorem requested_append (requests : List InternRequest) (req : InternRequest) :
    requested kind (requests ++ [req]) =
      if req.kind = kind then insert req.bytes (requested kind requests) else requested kind requests := by
  unfold requested
  rw [List.filter_append, List.map_append, List.toFinset_append, Finset.union_comm]
  by_cases same : req.kind = kind <;> simp [same]

theorem room_of_subset {seen known : Finset Bytes}
    (few : one + known.card ≤ 2 ^ 32) (within : insert bytes seen ⊆ known) :
    bytes ∉ seen → one + seen.card < 2 ^ 32 := by
  intro new
  have := Finset.card_le_card within
  rw [Finset.card_insert_of_notMem new] at this
  omega

/-- What the coordinator keeps for both kinds. -/
structure Sound (schemas keys : Finset Bytes) (requests : List InternRequest) (served : Served) : Prop where
  schemas : Interner.Answered schemaContentHash schemas FIRST_USER_SCHEMA_ID (requested .schema requests)
    (logOf .schema served.log) served.catalogs.schemas
  keys : Interner.Answered id keys 1 (requested .key requests) (logOf .key served.log) served.catalogs.keys

theorem sound_serve {served : Served}
    (ne : Set.InjOn schemaContentHash schemas) (fewSchemas : FIRST_USER_SCHEMA_ID + schemas.card ≤ 2 ^ 32)
    (fewKeys : 1 + keys.card ≤ 2 ^ 32) (inSchemas : requested .schema (requests ++ [req]) ⊆ schemas)
    (inKeys : requested .key (requests ++ [req]) ⊆ keys) (sound : Sound schemas keys requests served) :
    Sound schemas keys (requests ++ [req]) (served.serve req) := by
  obtain ⟨kind, bytes⟩ := req
  simp only [requested_append] at inSchemas inKeys
  cases kind with
  | schema =>
    refine ⟨?_, ?_⟩
    · rw [requested_append, if_pos rfl]
      exact sound.schemas.intern ne (inSchemas (Finset.mem_insert_self ..)) (by decide)
        (room_of_subset fewSchemas inSchemas)
    · rw [requested_append, if_neg (by simp)]
      exact sound.keys
  | key =>
    refine ⟨?_, ?_⟩
    · rw [requested_append, if_neg (by simp)]
      exact sound.schemas
    · rw [requested_append, if_pos rfl]
      exact sound.keys.intern (Set.injOn_id _) (inKeys (Finset.mem_insert_self ..)) (by decide)
        (room_of_subset fewKeys inKeys)

theorem sound_serveAll (ne : Set.InjOn schemaContentHash schemas)
    (fewSchemas : FIRST_USER_SCHEMA_ID + schemas.card ≤ 2 ^ 32) (fewKeys : 1 + keys.card ≤ 2 ^ 32)
    (requests : List InternRequest) (inSchemas : requested .schema requests ⊆ schemas)
    (inKeys : requested .key requests ⊆ keys) : Sound schemas keys requests (serveAll requests) := by
  induction requests using List.reverseRecOn with
  | nil => exact ⟨Interner.answered_empty (by decide), Interner.answered_empty (by decide)⟩
  | append_singleton requests req ih =>
    have less (kind : Interned) : requested kind requests ⊆ requested kind (requests ++ [req]) := by
      rw [requested_append]
      split
      · exact Finset.subset_insert ..
      · exact subset_rfl
    rw [serveAll, List.foldl_append]
    exact sound_serve ne fewSchemas fewKeys inSchemas inKeys
      (ih ((less .schema).trans inSchemas) ((less .key).trans inKeys))

/-- Every run of requests gets ids that tell the byte strings apart, if no two of
its schemas have the same hash. -/
theorem interned_of_serveAll (requests : List InternRequest)
    (apart : Set.InjOn schemaContentHash (requested .schema requests))
    (fewSchemas : FIRST_USER_SCHEMA_ID + (requested .schema requests).card ≤ 2 ^ 32)
    (fewKeys : (requested .key requests).card < 2 ^ 32) :
    (∀ one ∈ (serveAll requests).log, ∀ two ∈ (serveAll requests).log, one.1.kind = two.1.kind →
      (one.2 = two.2 ↔ one.1.bytes = two.1.bytes)) ∧
    ∀ entry ∈ (serveAll requests).log, entry.2 ≠ 0 ∧
      (serveAll requests).catalogs.resolve entry.1.kind entry.2 = some entry.1.bytes := by
  have sound := sound_serveAll apart fewSchemas (by omega) requests subset_rfl subset_rfl
  constructor
  · intro one first two second same
    cases kind : two.1.kind with
    | schema => exact sound.schemas.eq_iff (mem_logOf first (same.trans kind)) (mem_logOf second kind)
    | key => exact sound.keys.eq_iff (mem_logOf first (same.trans kind)) (mem_logOf second kind)
  · intro entry logged
    cases kind : entry.1.kind with
    | schema => exact sound.schemas.resolves (mem_logOf logged kind)
    | key => exact sound.keys.resolves (mem_logOf logged kind)

/-- Two byte strings with one hash. -/
def colliding : Bytes × Bytes :=
  ([56, 121, 110, 48, 105, 89, 67, 75, 89, 72, 108, 73, 106, 52, 45, 66, 119, 80, 113, 107],
    [71, 82, 101, 76, 85, 114, 77, 52, 119, 77, 113, 102, 103, 57, 121, 122, 86, 51, 75, 81])

theorem colliding_share_id :
    colliding.1 ≠ colliding.2 ∧
      (serveAll [⟨.schema, colliding.1⟩, ⟨.schema, colliding.2⟩]).log =
        [(⟨.schema, colliding.2⟩, 16), (⟨.schema, colliding.1⟩, 16)] ∧
      (serveAll [⟨.schema, colliding.1⟩, ⟨.schema, colliding.2⟩]).catalogs.resolve .schema 16 = some colliding.1 := by
  decide +kernel

theorem interned_twice : ∃ requests, (serveAll requests).log.length = 4 ∧
    (∀ one ∈ (serveAll requests).log, ∀ two ∈ (serveAll requests).log, one.1.kind = two.1.kind →
      (one.2 = two.2 ↔ one.1.bytes = two.1.bytes)) ∧
    ∀ entry ∈ (serveAll requests).log, entry.2 ≠ 0 ∧
      (serveAll requests).catalogs.resolve entry.1.kind entry.2 = some entry.1.bytes :=
  ⟨[⟨.schema, [1]⟩, ⟨.key, [1]⟩, ⟨.schema, [2]⟩, ⟨.schema, [1]⟩], by decide +kernel,
    interned_of_serveAll _ (by decide +kernel) (by decide +kernel) (by decide +kernel)⟩

end

end ShmActors.Node
