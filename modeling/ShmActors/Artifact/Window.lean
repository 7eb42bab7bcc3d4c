import ShmActors.Artifact.Head

/-! `collect_window` of `shm-artifact/src/artifact.rs`: the batches a
`Commit::Window` re-lists from its predecessor. -/

namespace ShmActors.Artifact

open Lib Core

structure WindowSet where
  chunks : List ChunkDesc
  spans : List Nat
  members : List KeptMember
  base : Nat
  deriving DecidableEq, Repr

/-- The last `count` elements. -/
def lastOf {Item : Type} (count : Nat) (items : List Item) : List Item :=
  items.drop (items.length - count)

/-- Newest first: how many tail batches of each member fill the window. -/
def windowParts : Nat → List Manifest → List (Manifest × Nat)
  | _, [] => []
  | remaining, manifest :: rest =>
    if remaining = 0 then []
    else
      let take := min remaining manifest.batchSpans.length
      (manifest, take) :: windowParts (remaining - take) rest

namespace Manifest

/-- The batches a manifest added itself, behind its inherited run. -/
def ownNew (manifest : Manifest) : Nat :=
  manifest.batchSpans.length - (manifest.kept.map KeptMember.batches).sum

/-- How deep into a windowed root's inherited run a window reaches. -/
structure InheritedRun where
  run : List KeptMember
  allInherited : Bool
  runBase : Nat

/-- The loop over `m.kept`, newest member first; `run` comes out oldest first. -/
def inheritedLoop (windowBase : Nat) : List KeptMember → Nat → InheritedRun → InheritedRun
  | [], _, acc => acc
  | member :: rest, need, acc =>
    if need = 0 then { acc with allInherited := false }
    else
      let take := min need member.batches
      -- the oldest member of the root may itself be a partial tail
      let partialInRoot := rest.isEmpty && windowBase = member.version
      inheritedLoop windowBase rest (need - take) {
        run := ⟨member.version, take⟩ :: acc.run
        allInherited := acc.allInherited && !decide (take < member.batches)
        runBase :=
          if take < member.batches then member.version
          else if partialInRoot then member.version
          else member.version - 1 }

/-- The kept members one part contributes, and the base if it is the oldest. -/
def keptPart (manifest : Manifest) (take : Nat) : List KeptMember × Nat :=
  if take ≤ manifest.ownNew then
    (if 0 < take then [⟨manifest.version, take⟩] else [],
      if take < manifest.ownNew ∨ (manifest.prev.isNone ∧ !manifest.isWindowRoot) then
        manifest.version
      else manifest.version - 1)
  else
    let inherited := inheritedLoop manifest.windowBase manifest.kept.reverse
      (take - manifest.ownNew) ⟨[], true, manifest.windowBase⟩
    (inherited.run ++
        if 0 < manifest.ownNew then [⟨manifest.version, manifest.ownNew⟩] else [],
      if inherited.allInherited then manifest.windowBase else inherited.runBase)

/-- The chunks of the last `take` batches. -/
def tailChunks (manifest : Manifest) (take : Nat) : List ChunkDesc :=
  lastOf (lastOf take manifest.batchSpans).sum manifest.chunks

end Manifest

/-- The accounting of `collect_window`: `parts` oldest first. -/
def windowSet (prior : Manifest) (parts : List (Manifest × Nat)) : WindowSet where
  chunks := parts.flatMap fun part => part.1.tailChunks part.2
  spans := parts.flatMap fun part => lastOf part.2 part.1.batchSpans
  members := parts.flatMap fun part => (part.1.keptPart part.2).1
  base := match parts.head? with
    | some part => (part.1.keptPart part.2).2
    -- nothing kept: every batch after the prior version is in the new root
    | none => prior.version

section

variable {Content : Type} (pool : Pool)

/-- Take the window's reference on one kept chunk. -/
def holdChunk (desc : ChunkDesc) : Act Content (Except Error Unit) :=
  match pool.locate desc.offset with
  | none => return .error (.core .outOfBounds)
  | some chunk => do
    let before ← validate chunk desc
    if !before then
      return .error (.core (.ctrl .staleDescriptor))
    else match ← onCtrl borrowShared chunk with
    | .error reason => return .error reason
    | .ok () =>
      let after ← validate chunk desc
      if after then
        return .ok ()
      else do
        -- the reference sits on whatever occupies the chunk now
        let _ ← releaseChunkOwned pool desc
        return .error .versionGone

/-- Hold the chunks of one part behind those already held. -/
def holdChunks (held : List ChunkDesc) :
    List ChunkDesc → Act Content (Except Error (List ChunkDesc))
  | [] => return .ok held
  | desc :: rest => do
    match ← holdChunk pool desc with
    | .ok () => holdChunks (held ++ [desc]) rest
    | .error reason =>
      releaseChunks pool held
      return .error reason

def holdParts (held : List ChunkDesc) :
    List (Manifest × Nat) → Act Content (Except Error (List ChunkDesc))
  | [] => return .ok held
  | part :: rest => do
    if part.1.chunks.length < (lastOf part.2 part.1.batchSpans).sum then
      return .error .versionGone
    else match ← holdChunks pool held (part.1.tailChunks part.2) with
    | .error reason => return .error reason
    | .ok held => holdParts held rest

/-- One link of a chain, its chunk's generation compared to the link's. -/
def readPrev (artifactId : Nat) (link : ManifestLink) : Act Content (Except Error Manifest) :=
  match pool.locate link.mref.offset with
  | none => return .error (.core .outOfBounds)
  | some chunk => do
    let generation ← loadGeneration chunk
    if generation ≠ link.generation then
      return .error .versionGone
    else
      readManifestChecked pool link.mref artifactId link.version

/-- The members of the chain that hold the newest `keepBatches` batches. -/
def walkWindow (prior : Manifest) (keepBatches : Nat) :
    Act Content (Except Error (List Manifest)) :=
  if keepBatches = 0 then return .ok []
  else walkChainNewestFirst prior (readPrev pool prior.artifactId)
    (fun remaining manifest =>
      (remaining - manifest.batchSpans.length, remaining - manifest.batchSpans.length = 0))
    keepBatches

def collectWindow (prior : Manifest) (keepBatches : Nat) :
    Act Content (Except Error WindowSet) := do
  match ← walkWindow pool prior keepBatches with
  | .error reason => return .error reason
  | .ok members =>
    let parts := (windowParts keepBatches members).reverse
    match ← holdParts pool [] parts with
    | .error reason => return .error reason
    | .ok _ => return .ok (windowSet prior parts)

end

end ShmActors.Artifact
