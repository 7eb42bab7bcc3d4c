import ShmActors.Artifact.System

/-! Any number of users of one catalog slot: they call through handles of its
occupants, evict the key, sweep the tombstone and create the next occupant. -/

namespace ShmActors.Artifact

open Lib Core Program Function

inductive StoreCall (Content : Type) where
  | use (incarnation : Nat) (call : Call Content)
  | evictKey
  | sweep
  | create

inductive StoreAnswer where
  | used (answer : Answer)
  | evicted
  | swept (freed : Bool)
  | created (artifact : Option Handle)

/-- What a user holds, for each incarnation it has a handle of. -/
abbrev Desk := Nat → Own

section

variable {Content : Type} (nameId : Nat) (pool : Pool)

def visit : StoreCall Content → StoreAct Content StoreAnswer
  | .use incarnation call => .used <$> through (perform ⟨nameId, incarnation, pool⟩ call)
  | .evictKey => (fun _ => .evicted) <$> evictKey nameId pool
  | .sweep => .swept <$> sweepTombstone nameId pool
  | .create => .created <$> createEntry nameId pool

/-- A call up to its return. -/
def visitAndReturn (call : StoreCall Content) : StoreAct Content StoreAnswer := do
  let answer ← visit nameId pool call
  .act .returned id fun _ => .ret answer

def StoreCall.holds (desk : Desk) : StoreCall Content → Prop
  | .use incarnation call => call.holds (desk incarnation)
  | _ => True

instance (desk : Desk) : (call : StoreCall Content) → Decidable (call.holds desk)
  | .use incarnation call => inferInstanceAs (Decidable (call.holds (desk incarnation)))
  | .evictKey | .sweep | .create => inferInstanceAs (Decidable True)

def Desk.give (desk : Desk) : StoreCall Content → Desk
  | .use incarnation call => update desk incarnation ((desk incarnation).give call)
  | _ => desk

def Desk.take (desk : Desk) : StoreCall Content → StoreAnswer → Desk
  | .use incarnation _, .used answer => update desk incarnation ((desk incarnation).take answer)
  | _, _ => desk

/-- The calls that commit or tear down. -/
def StoreCall.writes : StoreCall Content → Bool
  | .use _ .evictAll | .evictKey | .sweep => true
  | .use _ call => call.commits
  | .create => false

end

/-- What happened to the head; the writing calls that found the occupant of
their handle in service, as actor and incarnation, until they return or the
teardown among them is over; what each user attached to last; and the occupant the
head was last initialised or commissioned for. -/
structure Chronicle where
  log : List Event
  insiders : List (Nat × Nat)
  attached : Nat → Nat
  occupant : Nat

section

variable {Content : Type}

/-- The incarnation of the handle a call works through: its own, or the one just
attached. -/
def StoreCall.handle (attached : Nat) : StoreCall Content → Nat
  | .use incarnation _ => incarnation
  | _ => attached

def leave (actor : Nat) (insiders : List (Nat × Nat)) : List (Nat × Nat) :=
  insiders.filter fun entry => entry.1 ≠ actor

/-- Whether an access is a check that finds the handle's occupant in service. -/
def passes (call : StoreCall Content) (handle : Nat) (site : Site) (memory : Memory Content) : Bool :=
  call.writes && site = .incarnation && memory.head.incarnation = handle

def Chronicle.note (actor : Nat) (site : StoreCall Content × StoreSite) (before after : Shelf Content)
    (chronicle : Chronicle) : Chronicle :=
  match site.2 with
  | .artifact place =>
    { chronicle with
      log := record actor place before.memory after.memory chronicle.log
      insiders := if passes site.1 (site.1.handle (chronicle.attached actor)) place before.memory then
          (actor, site.1.handle (chronicle.attached actor)) :: leave actor chronicle.insiders
        else chronicle.insiders }
  | .attach =>
    { chronicle with
      insiders := leave actor chronicle.insiders
      attached := update chronicle.attached actor before.memory.head.incarnation }
  | .retireHead | .returned => { chronicle with insiders := leave actor chronicle.insiders }
  | .initHead incarnation | .commission incarnation => { chronicle with occupant := incarnation }
  | _ => chronicle

/-- The users of one catalog slot. -/
abbrev storeUsers (nameId : Nat) (pool : Pool) (permitted : StoreCall Content → Prop)
    (allowed : Nat → StoreSite → Shelf Content → Chronicle → Prop) :
    Actors (Shelf Content) (StoreCall Content × StoreSite) Chronicle (StoreCall Content) Desk StoreAnswer where
  program call := (visitAndReturn nameId pool call).label call
  enabled desk call := permitted call ∧ call.holds desk
  start desk call := desk.give call
  finish desk call answer := desk.take call answer
  track := Chronicle.note
  allowed actor site := allowed actor site.2

abbrev StoreRun (Content : Type) :=
  Config (Shelf Content) (StoreCall Content × StoreSite) Chronicle (StoreCall Content) Desk StoreAnswer

variable (Content) in
/-- A slot with the given word and head, over a new pool. -/
def shelf (pool : Pool) (word : EntryWord) (unused : Bool) (head : ArtifactHead) : StoreRun Content where
  state :=
    { memory :=
        { head := head
          heap := pool.create Content
          journals := fun _ => ⟨fun _ => 0, fun _ => none, 0⟩ }
      entry := ⟨word, unused⟩ }
  history := ⟨[], [], fun _ => noIncarnation, head.incarnation⟩
  thread _ := .idle fun _ => .nothing

/-- A slot of a new catalog, never occupied. -/
def vacant (Content : Type) (pool : Pool) : StoreRun Content :=
  shelf Content pool ⟨1, .free⟩ true (.fresh noIncarnation)

/-- A slot with a new occupant in service. -/
def occupied (Content : Type) (pool : Pool) (incarnation : Nat) : StoreRun Content :=
  shelf Content pool ⟨incarnation, .live⟩ false (.fresh incarnation)

section

variable (nameId : Nat) (pool : Pool) (permitted : StoreCall Content → Prop)
  (allowed : Nat → StoreSite → Shelf Content → Chronicle → Prop)

end

/-- Runs of the store that leave no interleaving out. -/
abbrev anyStoreAccess (_ : Nat) (_ : StoreSite) (_ : Shelf Content) (_ : Chronicle) : Prop := True

end

end ShmActors.Artifact
