import ShmActors.Artifact.Memory

/-! The chunk operations of the commit and release paths: `shm-core/src/pool.rs`
over whole free lists, and the helpers at the end of `shm-artifact/src/artifact.rs`. -/

namespace ShmActors.Artifact

open Lib Core

/-- A program over the artifact's memory. -/
abbrev Act (Content : Type) := Program (Memory Content) Site

section

variable {Content : Type}

def loadWord (chunk : Nat) : Act Content Word := load (.word chunk) (wordOf (ctrlAt chunk))

def loadGeneration (chunk : Nat) : Act Content Nat :=
  load (.generation chunk) (generationOf (ctrlAt chunk))

def loadOwner (chunk : Nat) : Act Content Nat := load (.owner chunk) (ownerOf (ctrlAt chunk))

/-- `ChunkCtrl::validate`. -/
def validate (chunk : Nat) (desc : ChunkDesc) : Act Content Bool := do
  let generation ← loadGeneration chunk
  return desc.generation = generation

/-- A control-word operation on a chunk, its error passed on. -/
def onCtrl (operation : (CtrlSite → Site) → Ref (Memory Content) ChunkCtrl →
    Act Content (Except Core.Error Unit)) (chunk : Nat) : Act Content (Except Error Unit) := do
  match ← operation (.ctrl chunk) (ctrlAt chunk) with
  | .error reason => return .error (.core (.ctrl reason))
  | .ok () => return .ok ()

end

namespace Pool

variable {Content : Type} (pool : Pool)

/-- The pop of `treiber_pop`, as one step on the list it refines. -/
def pop (index : Nat) : Act Content (Option Nat) :=
  .act (.pop index) (fun memory => (freeAt index).set ((freeAt index).get memory).tail memory)
    (fun memory => .ret ((freeAt index).get memory).head?)

/-- `PoolAllocator::alloc` over `Pool::alloc`. -/
def alloc (size : Nat) : Act Content (Except Error ChunkDesc) := do
  if 2 ^ 32 ≤ size then
    return .error (.core (.layoutOverflow "batch larger than 4 GiB"))
  else match pool.classes.findIdx? fun sizeClass => size ≤ sizeClass.chunkSize with
  | none => return .error (.core (.layoutOverflow "allocation exceeds largest size class"))
  | some index =>
    match ← pop index with
    | none => return .error (.core .poolExhausted)
    | some chunk => do
      let generation ← loadGeneration chunk
      return .ok {
        segmentId := pool.segmentId
        generation := generation
        offset := chunk + 1
        len := (pool.classes.map SizeClass.chunkSize).getD index 0
        schemaId := 0 }

/-- `Pool::free`: the link overwrites the first word of the chunk, then the chunk
is on the list. -/
def free (desc : ChunkDesc) : Act Content Unit :=
  match pool.locate desc.offset with
  | none => return ()
  | some chunk => do
    store (.writePayload chunk) (payloadAt chunk) .link
    let _ ← fetchUpdate (.push chunk) (freeAt (classOf pool.classes chunk)) fun list => chunk :: list
    return ()

end Pool

section

variable {Content : Type} (pool : Pool)

/-- The tail shared by `release_chunk` and `release_chunk_owned`. -/
def releasePublished (chunk : Nat) (desc : ChunkDesc) : Act Content Bool := do
  let word ← loadWord chunk
  if word.state ≠ .published then
    return false
  else do
    let freed ← releaseShared (.ctrl chunk) (ctrlAt chunk)
    if freed then do
      pool.free desc
      return true
    else
      return false

def releaseChunk (desc : ChunkDesc) : Act Content Bool :=
  match pool.locate desc.offset with
  | none => return false
  | some chunk => do
    let valid ← validate chunk desc
    if valid then releasePublished pool chunk desc else return false

def releaseChunkOwned (desc : ChunkDesc) : Act Content Bool :=
  match pool.locate desc.offset with
  | none => return false
  | some chunk => releasePublished pool chunk desc

def manifestChunkDesc (mref : PackedRef) (generation : Nat) : ChunkDesc :=
  ⟨mref.segmentId, generation, mref.offset, 0, 0⟩

/-- `read_manifest`. Bytes that are no manifest fail on the magic. -/
def readManifest (mref : PackedRef) : Act Content (Except Error Manifest) :=
  match pool.locate mref.offset with
  | none => return .error .badMagic
  | some chunk => do
    match ← load (.readPayload chunk) (payloadAt chunk) with
    | .manifest record => return parseManifest record
    | _ => return .error .badMagic

def readManifestChecked (mref : PackedRef) (artifactId version : Nat) :
    Act Content (Except Error Manifest) := do
  match ← readManifest pool mref with
  | .error reason => return .error reason
  | .ok manifest =>
    if manifest.artifactId ≠ artifactId ∨ manifest.version ≠ version then
      return .error .staleManifest
    else
      return .ok manifest

/-- Release a manifest chunk: at the generation the reference was taken at, or
unchecked for the version's own reference. -/
def releaseManifestChunk (mref : PackedRef) : Option Nat → Act Content Bool
  | some generation => releaseChunk pool (manifestChunkDesc mref generation)
  | none => releaseChunkOwned pool (manifestChunkDesc mref 0)

/-- `for c in chunks { release_chunk(pool, c); }` -/
def releaseChunks (chunks : List ChunkDesc) : Act Content Unit :=
  forEach (fun desc => do let _ ← releaseChunk pool desc) chunks

/-- One hop of the cascade: release the manifest, then, if that freed it, the
chunks it lists. The way on is its link. -/
def releaseManifestRound (cursor : PackedRef × Option Nat) :
    Act Content ((PackedRef × Option Nat) ⊕ Unit) := do
  let parsed ← readManifest pool cursor.1
  let released ← releaseManifestChunk pool cursor.1 cursor.2
  if !released then
    return .inr ()
  else match parsed with
  | .error _ => return .inr ()
  | .ok manifest => do
    releaseChunks pool manifest.chunks
    match manifest.prev with
    | some link => return .inl (link.mref, some link.generation)
    | none => return .inr ()

def releaseManifestRef (mref : PackedRef) (generation : Option Nat) : Act Content Unit :=
  repeatFrom (releaseManifestRound pool) (mref, generation)

end

section

variable {Content : Type} (pool : Pool)

/-- The control words of a chunk on its way from `LOANED` to the version's own:
`publish`, `borrow_shared`, `owner_release`. -/
def publishOwned (chunk : Nat) : Act Content (Except Error Unit) := do
  match ← onCtrl publish chunk with
  | .error reason => return .error reason
  | .ok () =>
    match ← onCtrl borrowShared chunk with
    | .error reason => return .error reason
    | .ok () =>
      let _ ← ownerRelease (.ctrl chunk) (ctrlAt chunk)
      return .ok ()

def publishStaged (desc : ChunkDesc) : Act Content (Except Error Unit) :=
  match pool.locate desc.offset with
  | none => return .error (.core .outOfBounds)
  | some chunk => publishOwned chunk

/-- `stage_chunk`, given the chunk `write` produced. -/
def stageChunk (write : Act Content (Except Error ChunkDesc)) (owner : Nat) :
    Act Content (Except Error ChunkDesc) := do
  match ← write with
  | .error reason => return .error reason
  | .ok desc =>
    match pool.locate desc.offset with
    | none => return .error (.core .outOfBounds)
    | some chunk =>
      match ← onCtrl (fun site ctrl => tryLoan site ctrl owner) chunk with
      | .error reason => return .error reason
      | .ok () =>
        match ← publishOwned chunk with
        | .error reason => return .error reason
        | .ok () => return .ok desc

def freeLoaned (desc : ChunkDesc) : Act Content Unit :=
  match pool.locate desc.offset with
  | none => return ()
  | some chunk => do
    match ← dropLoan (.ctrl chunk) (ctrlAt chunk) with
    | .error _ => return ()
    | .ok () => pool.free desc

/-- `write_manifest`: the record, a chunk large enough, the bytes. -/
def writeManifest (artifactId version schemaId : Nat) (chunks : List ChunkDesc)
    (batchSpans : List Nat) (prev : Option ManifestLink)
    (window : Option (Nat × List KeptMember)) : Act Content (Except Error ChunkDesc) :=
  match manifestRecord artifactId version schemaId chunks batchSpans prev window with
  | .error reason => return .error reason
  | .ok record => do
    let total := manifestLen record.chunks.length record.batchSpans.length record.kept.length
    match ← pool.alloc total with
    | .error reason => return .error reason
    | .ok desc =>
      if desc.len < total then
        return .error (.arrow (.chunkTooSmall total desc.len))
      else do
        store (.writePayload (desc.offset - 1)) (payloadAt (desc.offset - 1)) (.manifest record)
        return .ok desc

end

end ShmActors.Artifact
