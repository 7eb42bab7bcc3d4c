import ShmActors.Artifact.System
import ShmActors.Broadcast.Integrity

/-! Nodes that commit to artifacts and announce each new version on one shared
ring. Every node publishes there, though the ring's `publish` is made for one
producer: two that load the same `head` take the same sequence number. -/

namespace ShmActors.Broadcast

open Lib Core Program Function Actors
open Artifact (Handle Call Answer Own Commit)

/-- The wire encoding of `CommitKind`. -/
def kindCode : Commit → Nat
  | .replace => 0
  | .append => 1
  | .patch => 2
  | .window _ => 3

/-- `EVENT_MAGIC`: `b"EVNT"`, little-endian. -/
def eventMagic : Nat := 0x544e5645

structure VersionEvent where
  version : Nat
  nameId : Nat
  kind : Nat
  deriving DecidableEq, Repr

/-- `to_desc`: the event as a descriptor. -/
def VersionEvent.toDesc (event : VersionEvent) : ChunkDesc where
  segmentId := event.nameId
  generation := event.kind
  offset := event.version % 2 ^ 32
  len := event.version / 2 ^ 32 % 2 ^ 32
  schemaId := eventMagic

/-- The artifacts nodes have opened through one coordinator, and its
`__artifacts` ring. -/
structure Host (Content : Type) where
  artifacts : Nat → Artifact.Memory Content
  ring : RingMemory

inductive HostSite where
  | artifact (index : Nat) (site : Artifact.Site)
  | ring (site : RingSite)

inductive NodeCall (Content : Type) where
  | use (index : Nat) (call : Call Content)
  | ring (call : RingCall)

inductive NodeAnswer where
  | used (answer : Answer)
  | ring (answer : RingAnswer)

/-- What a node has between calls: what it holds of each artifact, its place on
the ring, and the events of the commits that succeeded. -/
structure Node where
  hands : Nat → Own
  member : Member
  committed : List VersionEvent

/-- A node that has opened artifacts: its watch sink publishes. -/
def Node.fresh : Node := ⟨fun _ => .nothing, .producer, []⟩

section

variable {Content : Type}

def artifactAt (index : Nat) : Ref (Host Content) (Artifact.Memory Content) :=
  ⟨fun host => host.artifacts index,
    fun memory host => { host with artifacts := update host.artifacts index memory }⟩

def ringOf : Ref (Host Content) RingMemory := ⟨Host.ring, fun ring host => { host with ring := ring }⟩

/-- What a committing call commits. -/
def commitOf : Call Content → Option Commit
  | .commitOptimistic _ _ kind _ | .commitExclusive _ kind _ => some kind
  | .evictOptimistic .. | .evictExclusive _ => some .replace
  | .commitStream writer => some writer.commitKind
  | _ => none

/-- The event of a call that has installed a version. -/
def eventOf (artifact : Handle) (call : Call Content) : Answer → Option VersionEvent
  | .committed (.ok version) => (commitOf call).map fun kind => ⟨version, artifact.nameId, kindCode kind⟩
  | _ => none

/-- The sink of `open_artifact`: a publisher of the node's own. -/
def watchSink (ring : Ring) (event : VersionEvent) : RingAct Bool := ring.publish event.toDesc

/-- A call on an artifact, and the watch sink where it has installed a version;
a commit calls it when all but its own records is done. -/
def announced (ring : Ring) (artifact : Handle) (index : Nat) (call : Call Content) :
    Program (Host Content) HostSite Answer := do
  let answer ← (Artifact.perform artifact call).within (artifactAt index) (.artifact index)
  match eventOf artifact call answer with
  | some event => do
    let _ ← (watchSink ring event).within ringOf .ring
    return answer
  | none => return answer

variable (ring : Ring) (artifacts : Nat → Handle)

def serveNode : NodeCall Content → Program (Host Content) HostSite NodeAnswer
  | .use index call => .used <$> announced ring (artifacts index) index call
  | .ring call => .ring <$> (serve ring call).within ringOf .ring

/-- Only the sinks publish on the ring. -/
def Node.may (node : Node) : NodeCall Content → Prop
  | .use index call => call.holds (node.hands index)
  | .ring call => call.publishes = false ∧ node.member.may call

def Node.begun (node : Node) : NodeCall Content → Node
  | .use index call =>
    { node with hands := update node.hands index ((node.hands index).give call) }
  | .ring _ => node

def Node.answered (node : Node) : NodeCall Content → NodeAnswer → Node
  | .use index call, .used answer =>
    { node with
      hands := update node.hands index ((node.hands index).take answer)
      committed := node.committed ++ (eventOf (artifacts index) call answer).toList }
  | .ring call, .ring answer => { node with member := node.member.answered call answer }
  | _, _ => node

abbrev nodes (allowed : Nat → HostSite → Host Content → Bulletin → Prop) :
    Actors (Host Content) HostSite Bulletin (NodeCall Content) Node NodeAnswer where
  program := serveNode ring artifacts
  enabled := Node.may
  start := Node.begun
  finish node call answer := node.answered artifacts call answer
  track actor site _ _ bulletin := match site with
    | .ring site => bulletin.record actor site
    | .artifact .. => bulletin
  allowed := allowed

abbrev NodeRun (Content : Type) :=
  Config (Host Content) HostSite Bulletin (NodeCall Content) Node NodeAnswer

/-- New artifacts and a new ring. -/
def founded : NodeRun Content where
  state := ⟨fun index => (Artifact.opening Content (artifacts index)).state, blank⟩
  history := .empty
  thread _ := .idle .fresh

end

/-- What the watchers of the ring are told. -/
structure Told {Content : Type} (config : NodeRun Content) : Prop where
  /-- Every event published has a sequence number of its own. -/
  numbered : config.history.published.map Publication.seq = List.range config.history.published.length
  /-- Every successful commit is among what its node has published, in order. -/
  announced : ∀ actor, ((config.thread actor).own.committed.map VersionEvent.toDesc) <+:
    config.history.publishedBy actor
  /-- A subscriber that has not lagged has received every event from where it
  began to where it is, each once. -/
  received : ∀ actor, (config.thread actor).own.member.Unlagged →
    (config.thread actor).own.member.received.map Receipt.msg =
      ((config.history.published.drop (config.thread actor).own.member.since).take
        (config.thread actor).own.member.received.length).map fun publication => .sample publication.desc
  position : ∀ actor subscriber, (config.thread actor).own.member.Unlagged →
    (config.thread actor).own.member.subscriber = some subscriber →
    subscriber.cursor = (config.thread actor).own.member.since +
      (config.thread actor).own.member.received.length

section

/-- Receipts at successive cursors, and the cursor after them. -/
def Sequenced : Nat → List Receipt → Nat → Prop
  | start, [], next => next = start
  | start, receipt :: rest, next => receipt.cursor = start ∧ Sequenced ((start + 1) % 2 ^ 64) rest next

variable {start : Nat}

theorem Sequenced.append (sequenced : Sequenced start receipts cursor) :
    Sequenced start (receipts ++ [⟨cursor, msg⟩]) ((cursor + 1) % 2 ^ 64) := by
  induction receipts generalizing start with
  | nil =>
    cases sequenced
    exact ⟨rfl, rfl⟩
  | cons receipt rest ih => exact ⟨sequenced.1, ih sequenced.2⟩

/-- Right samples at successive cursors are a stretch of what was published. -/
theorem Sequenced.stretch (sequenced : Sequenced start receipts next) (bounded : bulletin.published.length < 2 ^ 64)
    (right : ∀ receipt ∈ receipts, receipt.Right bulletin)
    (unlagged : ∀ receipt ∈ receipts, ∀ skipped, receipt.msg ≠ .lagged skipped) :
    receipts.map Receipt.msg = ((bulletin.published.drop start).take receipts.length).map
        (fun publication => .sample publication.desc) ∧ next = start + receipts.length := by
  induction receipts generalizing start with
  | nil => exact ⟨rfl, sequenced⟩
  | cons receipt rest ih =>
    obtain ⟨rfl, sequenced⟩ := sequenced
    cases msg : receipt.msg with
    | lagged skipped => exact absurd msg (unlagged receipt List.mem_cons_self skipped)
    | sample desc =>
      obtain ⟨publication, got, rfl⟩ := right receipt List.mem_cons_self desc msg
      obtain ⟨inBounds, same⟩ := List.getElem?_eq_some_iff.mp got
      rw [Nat.mod_eq_of_lt (by omega)] at sequenced
      obtain ⟨stretch, position⟩ := ih sequenced
        (fun other in_ => right other (List.mem_cons_of_mem receipt in_))
        (fun other in_ => unlagged other (List.mem_cons_of_mem receipt in_))
      refine ⟨?_, by rw [position, List.length_cons]; omega⟩
      rw [List.drop_eq_getElem_cons inBounds, List.length_cons, List.take_succ_cons, List.map_cons, List.map_cons,
        stretch, msg, same]

/-- A member that has not lagged has read at successive cursors. -/
def Member.InStep (member : Member) : Prop := member.Unlagged →
  ∃ next, Sequenced member.since member.received next ∧
    ∀ subscriber, member.subscriber = some subscriber → subscriber.cursor = next

theorem Member.InStep.answered {in_ : Member}
    (inStep : in_.InStep) (may : in_.may call) (answers : call.Answers answer) :
    (in_.answered call answer).InStep := by
  have received : ∀ {subscriber : Subscriber} {out : Option (Subscriber × Msg)},
      in_.subscriber = some subscriber → call.cursor = subscriber.cursor →
      (∀ later desc, out = some (later, .sample desc) → later.cursor = (subscriber.cursor + 1) % 2 ^ 64) →
      (in_.answered call (.received out)).InStep := by
    intro subscriber out held cursor advanced
    cases out with
    | none => exact inStep
    | some received =>
      obtain ⟨later, msg⟩ := received
      intro unlagged
      have old : in_.Unlagged := fun receipt in_ =>
        unlagged receipt (List.mem_append_left _ in_)
      obtain ⟨next, sequenced, same⟩ := inStep old
      cases msg with
      | lagged skipped =>
        exact absurd rfl (unlagged ⟨call.cursor, .lagged skipped⟩ (List.mem_append_right _ List.mem_cons_self) skipped)
      | sample desc =>
        cases same subscriber held
        refine ⟨(call.cursor + 1) % 2 ^ 64, ?_, ?_⟩
        · exact Sequenced.append (cursor ▸ sequenced)
        · rintro _ ⟨⟩
          rw [cursor]
          exact advanced later desc rfl
  cases call with
  | publish | publishUnpressed =>
    cases answer <;> first | exact inStep | exact answers.elim
  | subscribe | subscribeFrom =>
    cases answer with
    | subscribed subscriber =>
      exact fun _ => ⟨subscriber.cursor, rfl, fun _ same => congrArg Subscriber.cursor (Option.some.inj same).symm⟩
    | published | promoted | received | dropped => exact answers.elim
  | makeReliable subscriber =>
    cases answer with
    | promoted later fault =>
      intro unlagged
      obtain ⟨next, sequenced, same⟩ := inStep unlagged
      refine ⟨next, sequenced, ?_⟩
      rintro _ ⟨⟩
      exact Eq.trans answers (same subscriber may)
    | published | subscribed | received | dropped => exact answers.elim
  | tryRecv subscriber | recv subscriber =>
    cases answer with
    | received out => exact received may rfl answers
    | published | subscribed | promoted | dropped => exact answers.elim
  | drop subscriber =>
    cases answer with
    | dropped =>
      intro unlagged
      obtain ⟨next, sequenced, -⟩ := inStep unlagged
      exact ⟨next, sequenced, nofun⟩
    | published | subscribed | promoted | received => exact answers.elim

end

section

variable {Content : Type} {ring : Ring} {artifacts : Nat → Handle} {config : NodeRun Content}

/-- The ring's protocol, seen from a node: what it does to artifacts is beside it. -/
def hostMoves (ring : Ring) : Protocol (Host Content) HostSite Phase :=
  fun site phase later before after => match site with
    | .ring site => Turn ring site phase later before.ring after.ring
    | .artifact .. => later = phase ∧ after.ring = before.ring

/-- One publish on the ring at a time, nobody reads under its pen, and the
sequence numbers last. -/
def Concerted (ring : Ring) (_ : Nat) (site : HostSite) (host : Host Content) (bulletin : Bulletin) : Prop :=
  match site with
  | .ring site => (site = .loadHead → bulletin.inside = none) ∧ Undisturbed ring site bulletin ∧
      Lasting site host.ring
  | .artifact .. => True

theorem keeps_host :
    (nodes ring artifacts (Concerted ring)).Keeps (fun _ : NodeCall Content => hostMoves ring)
      (fun bulletin host phases => Sound ring bulletin host.ring phases) := by
  intro _ who site later old new bulletin phases sound may move
  cases site with
  | ring site =>
    obtain ⟨alone, undisturbed, lasting⟩ := may
    exact sound.turn (fun site _ _ => alone site) undisturbed lasting move rfl
  | artifact index site =>
    obtain ⟨rfl, same⟩ := move
    rw [update_eq_self]
    show Sound ring bulletin new.ring phases
    rw [same]
    exact sound

/-- Between calls a node has published the events of its commits, in order. -/
def AtEase (node : Node) (phase : Phase) : Prop :=
  node.member.publisher = true ∧ node.member.InStep ∧
    phase = node.member.settled (node.committed.map VersionEvent.toDesc)

theorem follows_announced : (announced ring artifact index call).Follows (hostMoves ring)
      (fun answer later => later = ⟨true, receipts,
        sent ++ (eventOf artifact call answer).toList.map VersionEvent.toDesc, .rest⟩)
      ⟨true, receipts, sent, .rest⟩ := by
  have aside : (Artifact.perform artifact call).Leads (fun _ phase later _ _ => later = phase)
      (Phase.mk true receipts sent .rest) ⟨true, receipts, sent, .rest⟩ :=
    follows_freely (fun _ _ _ => rfl) _
  refine follows_then (follows_within (fun _ _ _ _ _ same => ⟨same, rfl⟩) aside)
    fun answer later same => ?_
  subst same
  cases got : eventOf artifact call answer with
  | none =>
    show _ = _
    rw [got, Option.toList_none, List.map_nil, List.append_nil]
  | some event =>
    refine follows_then (follows_within (fun _ _ _ _ _ turn => turn) (follows_publish event.toDesc))
      fun _ later same => ?_
    subst same
    show _ = _
    rw [got]
    rfl

theorem follows_serveNode {node : Node} (may : node.may call) (ease : AtEase node phase) :
    (serveNode ring artifacts call).Follows (hostMoves ring)
      (fun answer later => AtEase ((node.begun call).answered artifacts call answer) later) phase := by
  obtain ⟨publisher, inStep, rfl⟩ := ease
  cases call with
  | use index call =>
    rw [Member.settled, publisher]
    refine follows_map (follows_mono follows_announced fun answer later same => ⟨publisher, inStep, ?_⟩)
    rw [same, Member.settled]
    simp [Node.answered, Node.begun, publisher]
  | ring call =>
    refine follows_map (follows_mono (follows_within (fun _ _ _ _ _ turn => turn) (follows_serve may.2))
      fun answer later left => ?_)
    obtain ⟨⟨more, rfl, quiet⟩, answers⟩ := left
    refine ⟨?_, inStep.answered may.2 answers, ?_⟩
    · show (node.member.answered call answer).publisher = true
      rw [← publisher]
      unfold Member.answered
      split <;> rfl
    · rw [quiet may.1, List.append_nil]
      rfl

theorem eased_of_reachable (reached : (nodes ring artifacts (Concerted ring)).Reachable (founded artifacts) config) :
    (nodes ring artifacts (Concerted ring)).Guided (fun _ : NodeCall Content => hostMoves ring)
      (fun bulletin host phases => Sound ring bulletin host.ring phases) AtEase (fun _ _ => True) config := by
  refine guided_of_reachable ?_ reached (fun _ _ _ _ _ _ _ _ => trivial)
    (fun node call phase enabled ease => ⟨trivial, follows_serveNode enabled ease⟩) keeps_host
  exact ⟨_, sound_blank fun _ => true, fun who => ⟨rfl, fun _ => ⟨0, rfl, nofun⟩, rfl⟩⟩

/-- What a node has been told so far. -/
structure Node.Kept (actor : Nat) (node : Node) (bulletin : Bulletin) : Prop where
  informed : node.member.Informed bulletin
  inStep : node.member.InStep
  announced : node.committed.map VersionEvent.toDesc <+: bulletin.publishedBy actor

theorem prefix_record {bulletin : Bulletin}
    (begins : descs <+: bulletin.publishedBy other) : descs <+: (bulletin.record who site).publishedBy other := by
  cases site with
  | advanceHead seq desc =>
    refine begins.trans ⟨if who = other then [desc] else [], ?_⟩
    exact (publishedBy_append ⟨who, seq, desc⟩ none bulletin.writing other).symm
  | _ => exact begins

theorem kept_of_reachable
    (reached : (nodes ring artifacts (Concerted ring)).Reachable (founded artifacts) config) (who : Nat) :
    (config.thread who).own.Kept who config.history := by
  have starts : ∀ (node : Node) (call : NodeCall Content) (bulletin : Bulletin), node.Kept who bulletin →
      (node.begun call).Kept who bulletin := by
    intro node call bulletin kept
    cases call with
    | use => exact ⟨kept.informed, kept.inStep, kept.announced⟩
    | ring => exact kept
  refine known_of_idle starts ?_ ?_ ?_ reached
  · intro other site _ _ bulletin node kept
    cases site with
    | ring site => exact ⟨kept.informed.recorded, kept.inStep, prefix_record kept.announced⟩
    | artifact => exact kept
  · intro config reached node idle
    obtain ⟨phases, sound, threads⟩ := eased_of_reachable reached
    have ease := threads who
    rw [idle] at ease
    obtain ⟨-, inStep, same⟩ := ease
    have fits := sound.fits who
    rw [same] at fits
    exact ⟨fits.right, inStep, fits.sent ▸ List.prefix_rfl⟩
  · exact ⟨nofun, fun _ => ⟨0, rfl, nofun⟩, List.nil_prefix⟩

/-- Any number of nodes: as long as they publish one at a time and nobody reads
under a pen, every commit is announced at a sequence number of its own, and
subscribers that keep up receive every event once. -/
theorem told_of_reachable {config : NodeRun Content}
    (reached : (nodes ring artifacts (Concerted ring)).Reachable (founded artifacts) config) : Told config := by
  obtain ⟨phases, sound, -⟩ := eased_of_reachable reached
  have bounded : config.history.published.length < 2 ^ 64 := by
    have bounded := sound.bounded
    rw [sound.counted] at bounded
    unfold reliableUnused at bounded
    omega
  have stretch (actor : Nat) (unlagged : (config.thread actor).own.member.Unlagged) :=
    (kept_of_reachable reached actor).inStep unlagged
  refine ⟨?_, fun actor => (kept_of_reachable reached actor).announced, fun actor unlagged => ?_,
    fun actor subscriber unlagged held => ?_⟩
  · refine List.ext_getElem (by simp) fun seq here there => ?_
    rw [List.getElem_map, List.getElem_range]
    exact sound.numbered seq _ (List.getElem?_eq_getElem (by simpa using here))
  · obtain ⟨next, sequenced, -⟩ := stretch actor unlagged
    exact (sequenced.stretch bounded (kept_of_reachable reached actor).informed unlagged).1
  · obtain ⟨next, sequenced, same⟩ := stretch actor unlagged
    rw [same subscriber held]
    exact (sequenced.stretch bounded (kept_of_reachable reached actor).informed unlagged).2

end

section

instance (node : Node) : (call : NodeCall Nat) → Decidable (node.may call)
  | .use index call => inferInstanceAs (Decidable (call.holds (node.hands index)))
  | .ring call => inferInstanceAs (Decidable (call.publishes = false ∧ node.member.may call))

instance (ring : Ring) (actor : Nat) (site : HostSite) (host : Host Nat) (bulletin : Bulletin) :
    Decidable (Concerted ring actor site host bulletin) := by
  unfold Concerted
  split <;> infer_instance

/-- Runs that leave no interleaving out. -/
abbrev anyStep (_ : Nat) (_ : HostSite) (_ : Host Nat) (_ : Bulletin) : Prop := True

/-- A ring of four slots. -/
def four : Ring := ⟨4, ⟨2, rfl⟩, by decide⟩

/-- Small artifacts, named apart. -/
def named (index : Nat) : Handle := { Artifact.small with nameId := index }

abbrev smallNodes (allowed : Nat → HostSite → Host Nat → Bulletin → Prop) :
    Actors (Host Nat) HostSite Bulletin (NodeCall Nat) Node NodeAnswer :=
  nodes four named allowed

/-- The first version of an artifact. -/
def firstCommit (content : Nat) : Call Nat := .commitOptimistic 1 0 .replace (Artifact.row content)

/-- Two nodes commit to two artifacts; the first's sink has loaded `head` when
the second's publishes. -/
def colliding : List (Stretch (NodeCall Nat)) :=
  [.begin 0 (.use 0 (firstCommit 5)), .run 0 38 1, .begin 1 (.use 1 (firstCommit 6)), .run 1 60 1, .run 0 20 1,
    .begin 2 (.ring (.subscribeFrom 0)), .run 2 5 1, .begin 2 (.ring (.tryRecv ⟨0, none⟩)), .run 2 20 1,
    .begin 2 (.ring (.tryRecv ⟨1, none⟩)), .run 2 20 1]

def collided : NodeRun Nat := (smallNodes anyStep).follow colliding (founded named)

/-- Both events have sequence number 0, and the subscriber receives one of them. -/
theorem collided_not_told :
    (smallNodes anyStep).Reachable (founded named) collided ∧
      ((collided.thread 0).own.committed = [⟨1, 0, 0⟩] ∧ (collided.thread 1).own.committed = [⟨1, 1, 0⟩] ∧
        (collided.thread 2).own.member.received = [⟨0, .sample (VersionEvent.toDesc ⟨1, 0, 0⟩)⟩]) ∧
      ¬ Told collided := by
  refine ⟨reachable_follow _ .refl, by decide +kernel, fun told => ?_⟩
  have seqs : collided.history.published.map Publication.seq = [0, 0] := by decide +kernel
  have numbered := told.numbered
  rw [seqs] at numbered
  have nodup : (List.range collided.history.published.length).Nodup := List.nodup_range
  rw [← numbered] at nodup
  exact absurd nodup (by decide)

/-- The same commits, one sink after the other. -/
def alternating : List (Stretch (NodeCall Nat)) :=
  [.begin 2 (.ring .subscribe), .run 2 5 1, .begin 0 (.use 0 (firstCommit 5)), .run 0 36 1,
    .begin 1 (.use 1 (firstCommit 6)), .run 1 60 1, .run 0 20 1,
    .begin 2 (.ring (.recv ⟨0, none⟩)), .run 2 20 1, .begin 2 (.ring (.tryRecv ⟨1, none⟩)), .run 2 20 1]

def alternated : NodeRun Nat := (smallNodes (Concerted four)).follow alternating (founded named)

theorem alternated_told :
    (alternated.thread 2).own.member.received =
        [⟨0, .sample (VersionEvent.toDesc ⟨1, 1, 0⟩)⟩, ⟨1, .sample (VersionEvent.toDesc ⟨1, 0, 0⟩)⟩] ∧
      Told alternated := by
  have reached : (smallNodes (Concerted four)).Reachable (founded named) alternated :=
    reachable_follow alternating .refl
  exact ⟨by decide +kernel, told_of_reachable reached⟩

end

end ShmActors.Broadcast
