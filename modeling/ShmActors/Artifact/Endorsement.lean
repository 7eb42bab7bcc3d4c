import ShmActors.Artifact.HeadProtocol

/-! The manifest the head names. A commit installs its version with one access
and names its manifest with a later one; when the commits name their manifests
in the order of their installs, the head of a quiet artifact names the manifest
of the version installed last. -/

namespace ShmActors.Artifact

open Lib Core Program Function Actors

variable {Content : Type}

/-- Which install in order was an actor's last. -/
def rank (actor : Nat) : List Event → Nat
  | [] => 0
  | .installed other _ :: log => if other = actor then (installs log).length + 1 else rank actor log
  | _ :: log => rank actor log

/-- The latest install whose manifest has been named. -/
def endorsedRank : List Event → Nat
  | [] => 0
  | .endorsed actor _ :: log => max (rank actor log) (endorsedRank log)
  | _ :: log => endorsedRank log

/-- A commit names its manifest before any commit that installed after it does. -/
def NamesInOrder (actor : Nat) (site : Site) (_ : Memory Content) (log : List Event) : Prop :=
  match site with
  | .publishManifestDesc => endorsedRank log < rank actor log
  | _ => True

/-- The callers do not tear the artifact down. -/
def Committing : Call Content → Prop
  | .evictAll => False
  | _ => True

instance : DecidablePred (Committing : Call Content → Prop)
  | .evictAll => inferInstanceAs (Decidable False)
  | .openExclusive .. | .closeExclusive _ | .commitOptimistic .. | .commitExclusive .. | .evictOptimistic ..
  | .evictExclusive _ | .openStream .. | .append .. | .commitStream _ | .abortStream _ | .pin _
  | .dropPin _ => inferInstanceAs (Decidable True)

instance (actor : Nat) (memory : Memory Content) (log : List Event) :
    (site : Site) → Decidable (NamesInOrder actor site memory log) := fun site => by
  unfold NamesInOrder
  split <;> infer_instance

/-- The head names the manifest of the commit whose exchange set `current`. -/
def NamesInstalled (log : List Event) (memory : Memory Content) : Prop :=
  ∃ last rest, installs log = last :: rest ∧ last.version = memory.head.current ∧
    last.manifest = some memory.head.manifestDesc

/-- No thread runs a call that commits. -/
def NoCommit (config : Run Content) : Prop :=
  ∀ actor own call rest, config.thread actor = .running own call rest → call.commits = false

section

theorem rank_le (who : Nat) (log : List Event) : rank who log ≤ (installs log).length := by
  induction log with
  | nil => exact Nat.le_refl 0
  | cons event log ih =>
    cases event with
    | installed other version =>
      simp only [rank, installs, List.length_cons]
      split <;> omega
    | _ => exact ih

theorem rank_last (newest : installs log = last :: rest) : rank who log = rest.length + 1 ↔ last.actor = who := by
  induction log with
  | nil => cases newest
  | cons event log ih =>
    cases event with
    | installed other version =>
      cases newest
      have bound := rank_le who log
      simp only [rank]
      split
      · simp_all
      · simp_all
        omega
    | _ => exact ih newest

end

/-- The manifest a commit in progress has put into its slot. -/
def Doing.manifest : Doing → Option PackedRef
  | .naming _ manifest | .claimed _ manifest _ | .deciding _ manifest _ _ | .installed _ manifest _ _ =>
    some manifest
  | _ => none

/-- The manifest a commit has installed and not yet named. -/
def Doing.unnamed : Doing → Option PackedRef
  | .installed _ manifest _ _ => some manifest
  | _ => none

structure InOrder (log : List Event) (memory : Memory Content) (phases : Nat → Phase) : Prop where
  current : memory.head.current = ((installs log).head?.map Installed.version).getD noVersion
  named : ∀ actor manifest, (phases actor).doing.manifest = some manifest →
    manifestOf actor log = some manifest
  newest : ∀ last rest, installs log = last :: rest →
    (last.manifest = (phases last.actor).doing.unnamed ∧ last.manifest ≠ none) ∨
      (endorsedRank log = rest.length + 1 ∧ last.manifest = some memory.head.manifestDesc)

section

variable {log : List Event} {mem new : Memory Content} {phases : Nat → Phase} {who : Nat} {later : Phase} {slot : Nat}
  {manifest : PackedRef}

/-- Events that say nothing of manifests. -/
def Event.beside : Event → Bool
  | .named .. | .installed .. | .endorsed .. => false
  | _ => true

variable (ok : InOrder log mem phases)

include ok

theorem InOrder.beside {event : Event} (aside : event.beside = true) : InOrder (event :: log) mem phases := by
  cases event with
  | named | installed | endorsed => cases aside
  | _ =>
    exact ⟨ok.current, ok.named, ok.newest⟩

/-- An actor that is not between install and name moves on. -/
theorem InOrder.step (now : new.head.current = mem.head.current)
    (desc : new.head.manifestDesc = mem.head.manifestDesc)
    (carried : later.doing.manifest = none ∨ later.doing.manifest = (phases who).doing.manifest)
    (pending : later.doing.unnamed = (phases who).doing.unnamed) :
    InOrder log new (update phases who later) := by
  refine ⟨now.trans ok.current, ?_, ?_⟩
  · intro other manifest got
    by_cases same : other = who
    · subst same
      rw [update_self] at got
      rcases carried with none | kept
      · rw [none] at got
        cases got
      · exact ok.named other manifest (kept.symm.trans got)
    · rw [update_of_ne same] at got
      exact ok.named other manifest got
  · intro last rest newest
    rw [desc]
    refine (ok.newest last rest newest).imp_left fun ⟨held, known⟩ => ⟨?_, known⟩
    by_cases same : last.actor = who
    · rw [same, update_self, pending, ← same]
      exact held
    · rw [update_of_ne same]
      exact held

omit ok

theorem manifest_at (errand : Errand) (slot : Nat) :
    (errand.at slot).manifest = none ∧ (errand.at slot).unnamed = none := by
  unfold Errand.at
  split <;> exact ⟨rfl, rfl⟩

theorem manifest_owed (expect : Nat) (prior : PackedRef) :
    (owed expect prior).manifest = none ∧ (owed expect prior).unnamed = none := by
  unfold owed
  split <;> exact ⟨rfl, rfl⟩

theorem successor_ne (expect : Nat) : expect ≠ successor expect := by
  unfold successor
  omega

include ok

theorem InOrder.name (now : new.head.current = mem.head.current)
    (desc : new.head.manifestDesc = mem.head.manifestDesc)
    (old : (phases who).doing.unnamed = none) (own : later.doing = .naming slot manifest) :
    InOrder (.named who slot manifest :: log) new (update phases who later) := by
  refine ⟨now.trans ok.current, ?_, ?_⟩
  · intro other wanted got
    simp only [manifestOf]
    by_cases same : other = who
    · subst same
      rw [update_self, own] at got
      rw [if_pos rfl]
      exact got
    · rw [update_of_ne same] at got
      rw [if_neg (Ne.symm same)]
      exact ok.named other wanted got
  · intro last rest newest
    rw [desc]
    refine (ok.newest last rest newest).imp_left fun ⟨held, known⟩ => ⟨?_, known⟩
    by_cases same : last.actor = who
    · rw [same, old] at held
      exact absurd held known
    · rw [update_of_ne same]
      exact held

theorem InOrder.install (own : (phases who).doing.manifest = some manifest)
    (wins : later.doing = .installed slot manifest expect prior) :
    InOrder (.installed who new.head.current :: log) new (update phases who later) := by
  refine ⟨rfl, ?_, ?_⟩
  · intro other wanted got
    simp only [manifestOf]
    by_cases same : other = who
    · subst same
      rw [update_self, wins] at got
      exact (ok.named other manifest own).trans got
    · rw [update_of_ne same] at got
      exact ok.named other wanted got
  · intro last rest newest
    cases newest
    refine .inl ⟨?_, ?_⟩
    · simp only [update_self]
      rw [wins]
      exact ok.named who manifest own
    · simp only
      rw [ok.named who manifest own]
      exact Option.some_ne_none manifest

/-- The store that the order of names is about. -/
theorem InOrder.endorse (now : new.head.current = mem.head.current) (desc : new.head.manifestDesc = manifest)
    (own : (phases who).doing.unnamed = some manifest) (done : later.doing.manifest = none)
    (inOrder : endorsedRank log < rank who log) :
    InOrder (.endorsed who new.head.manifestDesc :: log) new (update phases who later) := by
  refine ⟨now.trans ok.current, ?_, ?_⟩
  · intro other wanted got
    by_cases same : other = who
    · subst same
      rw [update_self, done] at got
      cases got
    · rw [update_of_ne same] at got
      exact ok.named other wanted got
  · intro last rest newest
    change installs log = last :: rest at newest
    have bound : rank who log ≤ rest.length + 1 := by
      have := rank_le who log
      rwa [newest] at this
    rcases ok.newest last rest newest with ⟨held, known⟩ | ⟨full, _⟩
    · by_cases same : last.actor = who
      · have top : rank who log = rest.length + 1 := (rank_last newest).mpr same
        refine .inr ⟨?_, ?_⟩
        · simp only [endorsedRank]
          omega
        · rw [held, same, own, desc]
      · rw [update_of_ne same]
        exact .inl ⟨held, known⟩
    · omega

/-- The accesses whose events the names are about. -/
def Site.names : Site → Bool
  | .claimManifest _ | .install | .publishManifestDesc => true
  | _ => false

variable {place : Site}

theorem InOrder.record (plain : place.names = false)
    (old new : Memory Content) : InOrder (record who place old new log) mem phases := by
  cases place with
  | claimManifest | install | publishManifestDesc => cases plain
  | claim | elect =>
    unfold Artifact.record
    dsimp only
    split
    · exact ok
    · exact ok.beside rfl
  | claimVersion | clearCurrent | revert | clearVersion | clearManifest | clearState => exact ok.beside rfl
  | _ => exact ok

theorem InOrder.pass {phase : Phase} (standing : phases who = phase) (plain : place.names = false)
    (now : new.head.current = mem.head.current) (desc : new.head.manifestDesc = mem.head.manifestDesc)
    (carried : later.doing.manifest = none ∨ later.doing.manifest = phase.doing.manifest)
    (pending : later.doing.unnamed = phase.doing.unnamed) :
    InOrder (Artifact.record who place mem new log) new (update phases who later) := by
  subst standing
  exact (ok.step now desc carried pending).record plain mem new

end

section

variable {artifact : Handle}

/-- Every move of a commit, a pin or a retire keeps the order. -/
theorem keeps_inOrder (artifact : Handle) : (callers artifact Committing NamesInOrder).Keeps
    (callMoves Committing) (InOrder : _ → Memory Content → _ → Prop) := by
  intro call who site later old new log phases ok may move
  change Move _ _ site.2 (phases who) later old new at move
  change NamesInOrder who site.2 old log at may
  show InOrder (record who site.2 old new log) new _
  generalize site.2 = place at move may
  generalize standing : phases who = phase at move
  cases move with
  | aside aside =>
    rw [aside.silent]
    subst standing
    exact ok.step aside.same.current aside.same.manifestDesc (.inr rfl) rfl
  | name manifest =>
    exact ok.name rfl rfl (by rw [standing]; rfl) (by simp)
  | number | decide => exact ok.pass standing rfl rfl rfl (.inr rfl) rfl
  | install now =>
    have moved : old.head.current ≠ (current.set (successor _) old).head.current :=
      now.trans_ne (successor_ne _)
    simp only [record]
    rw [if_neg moved]
    exact ok.install (by rw [standing]; rfl) rfl
  | lose =>
    simp only [record, if_true]
    exact ok.step rfl rfl (.inl rfl) (by rw [standing]; rfl)
  | endorse =>
    exact ok.endorse rfl rfl (by rw [standing]; rfl) (manifest_owed _ _).1 may
  | scanPast | passVersion | passManifest =>
    exact ok.pass standing rfl rfl rfl (.inl (manifest_at _ _).1) (manifest_at _ _).2
  | again | target => exact ok.pass standing rfl rfl rfl (.inl (manifest_at _ 0).1) (manifest_at _ 0).2
  | undo trial =>
    rcases trial with rfl | rfl | rfl | ⟨_, rfl⟩ <;>
      refine ok.pass standing rfl rfl rfl (.inl ?_) ?_ <;> dsimp only <;> split <;> rfl
  | resign | drop | undoVersion =>
    refine ok.pass standing rfl rfl rfl (.inl ?_) ?_ <;> dsimp only <;> split <;> rfl
  | dropCurrent =>
    refine ok.pass standing rfl rfl rfl (.inl ?_) ?_ <;> dsimp only <;> split
    · rfl
    · exact (manifest_at _ _).1
    · rfl
    · exact (manifest_at _ _).2
  | clearCurrent clearing | clearManifestDesc clearing =>
    obtain ⟨committing, rfl⟩ := clearing
    exact committing.elim
  | _ =>
    exact ok.pass standing rfl rfl rfl (.inl rfl) rfl

/-- Where commits name their manifests in the order of their installs, the head
names the right one whenever no commit is in progress. -/
theorem namesInstalled_of_noCommit {config : Run Content}
    (reached : (callers artifact Committing NamesInOrder).Reachable (opening Content artifact) config)
    (quiet : NoCommit config) (version : config.state.head.current ≠ noVersion) :
    NamesInstalled config.history config.state := by
  have first : InOrder [] (opening Content artifact).state fun _ => ⟨.idle, []⟩ :=
    ⟨rfl, fun _ _ found => (by cases found), fun _ _ newest => (by cases newest)⟩
  obtain ⟨phases, valid, threads⟩ := guided_callers (keeps_inOrder artifact) first reached
  cases newest : installs config.history with
  | nil =>
    have current := valid.current
    rw [newest] at current
    exact absurd current version
  | cons last rest =>
    have current := valid.current
    rw [newest] at current
    refine ⟨last, rest, newest, current.symm, ?_⟩
    rcases valid.newest last rest newest with ⟨held, known⟩ | ⟨-, named⟩
    · refine absurd ?_ known
      rw [held]
      -- an actor between install and name is inside a call that commits
      have thread := threads last.actor
      cases running : config.thread last.actor with
      | idle own =>
        rw [running] at thread
        rw [thread.idle]
        rfl
      | running own call program =>
        rw [running] at thread
        cases doing : (phases last.actor).doing with
        | installed slot manifest expect prior =>
          have inside : call.commits = true := thread.1 (by rw [doing]; rfl)
          rw [quiet _ _ _ _ running] at inside
          cases inside
        | _ => rfl
    · exact named

end

section

/-- Whether an actor is between calls. -/
def resting : Thread (Memory Nat) (Call Nat × Site) (Call Nat) Own Answer → Bool
  | .idle _ => true
  | .running .. => false

/-- A schedule of two actors leaves no commit in progress once both rest. -/
theorem noCommit_follow {may : Nat → Site → Memory Nat → List Event → Prop}
    [∀ who site mem log, Decidable (may who site mem log)] (schedule : List (Stretch (Call Nat)))
    (two : ∀ stretch ∈ schedule, stretch.actor = 1 ∨ stretch.actor = 2)
    (rests : ∀ who, who = 1 ∨ who = 2 → resting
      (((callers small Committing may).follow schedule (opening Nat small)).thread who) = true) :
    NoCommit ((callers small Committing may).follow schedule (opening Nat small)) := by
  intro who own call rest running
  by_cases named : who = 1 ∨ who = 2
  · have rested := rests who named
    rw [running] at rested
    cases rested
  · have still : ((callers small Committing may).follow schedule (opening Nat small)).thread who =
        (opening Nat small).thread who :=
      thread_follow schedule fun stretch in_ same => named (same ▸ two stretch in_)
    rw [running] at still
    cases still

/-- A commit that stops right after its install, and one over it that does not. -/
def overtaking : List (Stretch (Call Nat)) :=
  [.begin 1 (.commitOptimistic 1 0 .replace (row 5)), .run 1 35 1,
    .begin 2 (.commitOptimistic 2 1 .replace (row 6)), .run 2 200 1, .run 1 200 1]

/-- The first commit names its manifest after the second has. -/
def overtaken : Run Nat := (callers small Committing anyAccess).follow overtaking (opening Nat small)

/-- The head is left with the manifest of version 1 under version 2. -/
theorem overtaken_names_first : (callers small Committing anyAccess).Reachable (opening Nat small) overtaken ∧
    NoCommit overtaken ∧ overtaken.state.head.current ≠ noVersion ∧
    ¬ NamesInstalled overtaken.history overtaken.state := by
  refine ⟨reachable_follow _ .refl, ?_, by decide +kernel, ?_⟩
  · refine noCommit_follow overtaking (by simp [overtaking, Stretch.actor]) ?_
    rintro actor (rfl | rfl) <;> decide +kernel
  · have newest : (installs overtaken.history).head?.map Installed.manifest = some (some ⟨0, 4⟩) := by
      decide +kernel
    have named : overtaken.state.head.manifestDesc = ⟨0, 2⟩ := by decide +kernel
    rintro ⟨last, rest, first, -, own⟩
    generalize overtaken = config at first newest named own
    rw [first] at newest
    rw [named] at own
    simp [own] at newest

/-- Two commits, one after the other. -/
def orderly : List (Stretch (Call Nat)) :=
  [.begin 1 (.commitOptimistic 1 0 .replace (row 5)), .run 1 200 1,
    .begin 2 (.commitOptimistic 2 1 .append (row 6)), .run 2 200 1]

theorem namesInstalled_orderly :
    ((callers small Committing NamesInOrder).follow orderly (opening Nat small)).state.head.current = 2 ∧
      NamesInstalled ((callers small Committing NamesInOrder).follow orderly (opening Nat small)).history
        ((callers small Committing NamesInOrder).follow orderly (opening Nat small)).state := by
  have second : ((callers small Committing NamesInOrder).follow orderly (opening Nat small)).state.head.current
      = 2 := by decide +kernel
  refine ⟨second, namesInstalled_of_noCommit (reachable_follow orderly .refl) ?_ ?_⟩
  · refine noCommit_follow orderly (by simp [orderly, Stretch.actor]) ?_
    rintro actor (rfl | rfl) <;> decide +kernel
  · rw [second]
    decide

end

end ShmActors.Artifact
