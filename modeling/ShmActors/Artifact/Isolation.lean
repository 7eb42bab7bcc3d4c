import ShmActors.Artifact.Endorsement
import ShmActors.Artifact.StoreProtocol

/-! A handle and the occupants after its own. A call checks the incarnation of
its handle before it writes to the head; if the head is neither initialised nor
commissioned for another occupant between the check and the call's end, the call
writes to no other occupant's head. -/

namespace ShmActors.Artifact

open Lib Core Program Function Actors

variable {Content : Type}

/-- `current`, `manifest_desc` and the pin slots are left alone. -/
structure Untouched (before after : ArtifactHead) : Prop where
  current : after.current = before.current
  manifestDesc : after.manifestDesc = before.manifestDesc
  pins : after.pins = before.pins

/-- The next access of a commit or a teardown does not touch the head of an
occupant other than the handle's. -/
def Isolated (config : StoreRun Content) : Prop :=
  ∀ actor desk call site update next place,
    config.thread actor = .running desk call (.act site update next) → call.writes = true →
    site.2 = .artifact place → call.handle (config.history.attached actor) ≠ noIncarnation →
    config.history.occupant ≠ call.handle (config.history.attached actor) →
    Untouched config.state.memory.head (update config.state).memory.head

/-- The head is initialised and commissioned for an occupant only while no commit or
teardown is under way that has found another one in service. -/
def Undisturbed (_ : Nat) (site : StoreSite) (_ : Shelf Content) (chronicle : Chronicle) : Prop :=
  match site with
  | .initHead incarnation | .commission incarnation => ∀ entry ∈ chronicle.insiders, entry.2 = incarnation
  | _ => True

instance (actor : Nat) (shelf : Shelf Content) (chronicle : Chronicle) :
    (site : StoreSite) → Decidable (Undisturbed actor site shelf chronicle) := fun site => by
  unfold Undisturbed
  split <;> infer_instance

/-- What a user attached to last, and the incarnation its call has found in
service. -/
structure Guard where
  attached : Nat
  inside : Option Nat

section

/-- The moves through a handle: a passed check is noted, and a writing call
touches the head only after one. -/
def handleMoves (call : StoreCall Content) : Protocol (Memory Content) Site Guard :=
  fun place phase later before after =>
    after.head.incarnation = before.head.incarnation ∧
      later = (if passes call (call.handle phase.attached) place before then
        { phase with inside := some (call.handle phase.attached) } else phase) ∧
      (call.writes = true → phase.inside = some (call.handle phase.attached) ∨ Untouched before.head after.head)

def guardMoves (call : StoreCall Content) : Protocol (Shelf Content) StoreSite Guard :=
  fun site phase later before after => match site with
    | .artifact place => handleMoves call place phase later before.memory after.memory
    | .attach =>
      later = ⟨before.memory.head.incarnation, none⟩ ∧
        after.memory.head.incarnation = before.memory.head.incarnation
    | .retireHead => later = { phase with inside := none } ∧ after.memory.head.incarnation = noIncarnation
    | .returned =>
      later = { phase with inside := none } ∧ after.memory.head.incarnation = before.memory.head.incarnation
    | .initHead _ => later = phase ∧ after.memory.head.incarnation = noIncarnation
    | .commission incarnation => later = phase ∧ after.memory.head.incarnation = incarnation
    | _ => later = phase ∧ after.memory.head.incarnation = before.memory.head.incarnation

variable {call : StoreCall Content} {phase : Guard} {code : Act Content Value}

/-- Calls that write nothing follow the moves as they are. -/
theorem follows_unguarded (reads : call.writes = false) (follows : code.Follows (moves True True) post fine) :
    code.Leads (handleMoves call) phase phase := by
  refine follows_forget (fun place _ _ old new move => ?_) follows
  refine ⟨move.incarnation, ?_, fun writes => ?_⟩
  · simp [passes, reads]
  · rw [reads] at writes
    cases writes

/-- The call has not begun to write, or has found its occupant in service. -/
def Checked (call : StoreCall Content) (attached : Nat) (phase : Guard) : Prop :=
  phase.attached = attached ∧ (phase.inside = none ∨ phase.inside = some (call.handle attached))

theorem checked_step (checked : Checked call attached phase) (place : Site) (mem : Memory Content) :
    Checked call attached (if passes call (call.handle phase.attached) place mem then
      { phase with inside := some (call.handle phase.attached) } else phase) := by
  obtain ⟨rfl, inside⟩ := checked
  split
  · exact ⟨rfl, .inr rfl⟩
  · exact ⟨rfl, inside⟩

theorem offside_checked : Offside fun site update => ∀ phase, Checked call attached phase →
    ∀ mem : Memory Content, ∃ later, handleMoves call site phase later mem (update mem) ∧
      Checked call attached later := by
  have beside (site : Site) (update : Memory Content → Memory Content)
      (same : ∀ mem, (update mem).head.incarnation = mem.head.incarnation ∧
        Untouched mem.head (update mem).head) (phase : Guard) (checked : Checked call attached phase)
      (mem : Memory Content) : ∃ later, handleMoves call site phase later mem (update mem) ∧
        Checked call attached later :=
    ⟨_, ⟨(same mem).1, rfl, fun _ => .inr (same mem).2⟩, checked_step checked site mem⟩
  refine ⟨⟨⟨fun site update _ keeps => beside site update fun mem => ?_,
    fun site _ => beside site id fun mem => ⟨rfl, rfl, rfl, rfl⟩⟩,
    fun update keeps => beside _ update fun mem => ?_⟩,
    ⟨fun site update _ keeps => beside site update fun mem => ?_⟩⟩
  · obtain ⟨heap, eq⟩ := keeps mem
    rw [eq]
    exact ⟨rfl, rfl, rfl, rfl⟩
  · obtain ⟨lease, -, eq⟩ := keeps mem
    rw [eq]
    exact ⟨rfl, rfl, rfl, rfl⟩
  · obtain ⟨journals, eq⟩ := keeps mem
    rw [eq]
    exact ⟨rfl, rfl, rfl, rfl⟩

/-- Code that begins with the check of its handle. -/
theorem follows_checked (writes : call.writes = true)
    (follows : (do let live ← isIncarnation (call.handle attached)
                   if !live then return stale else rest : Act Content Value).Follows (moves True True) post fine)
    (checked : Checked call attached phase) :
    (do let live ← isIncarnation (call.handle attached)
        if !live then return stale else rest : Act Content Value).Follows (handleMoves call)
      (fun _ => Checked call attached) phase := by
  intro mem
  obtain ⟨later, -, new⟩ := follows mem
  refine ⟨_, ⟨rfl, rfl, fun _ => .inr ⟨rfl, rfl, rfl⟩⟩, ?_⟩
  have kept := checked_step checked .incarnation mem
  obtain ⟨rfl, inside⟩ := checked
  by_cases got : mem.head.incarnation = call.handle phase.attached
  · have passed : passes call (call.handle phase.attached) .incarnation mem = true := by
      simp [passes, writes, got]
    have live : ¬ (!decide (mem.head.incarnation = call.handle phase.attached)) = true := by simp [got]
    change Follows _ (ite ((!decide (mem.head.incarnation = call.handle phase.attached)) = true) _ _) _ _
      at new
    show Follows _ (ite ((!decide (mem.head.incarnation = call.handle phase.attached)) = true) _ _) _ _
    rw [if_neg live] at new ⊢
    rw [if_pos passed] at kept ⊢
    -- from here on the call has found its occupant, and may write
    refine follows_mono (follows_forget (fun place _ _ old new move => ?_) new) ?_
    · refine ⟨move.incarnation, ?_, fun _ => .inl rfl⟩
      split <;> rfl
    · rintro _ _ rfl
      exact kept
  · have stale : (!decide (mem.head.incarnation = call.handle phase.attached)) = true := by simp [got]
    show Follows _ (ite ((!decide (mem.head.incarnation = call.handle phase.attached)) = true) _ _) _ _
    rw [if_pos stale]
    exact kept

theorem follows_guarded_evictAll (writes : call.writes = true) (checked : Checked call attached phase) :
    (evictAll ⟨nameId, call.handle attached, pool⟩ : Act Content (Except Error Unit)).Follows
      (handleMoves call) (fun _ => Checked call attached) phase := by
  have fine : (evictAll ⟨nameId, call.handle attached, pool⟩ : Act Content (Except Error Unit)).Leads
      (moves True True) ⟨.idle, []⟩ ⟨.idle, []⟩ := follows_evictAll [] trivial
  exact follows_checked writes fine checked

/-- Every call through a handle follows the guarded moves. -/
theorem follows_guarded (incarnation : Nat) {inner : Call Content} (holds : inner.holds own)
    (outside : phase.inside = none) :
    (perform ⟨nameId, incarnation, pool⟩ inner).Follows (handleMoves (.use incarnation inner))
      (fun _ _ => True) phase := by
  have checked : Checked (.use incarnation inner) phase.attached phase := ⟨rfl, .inl outside⟩
  by_cases commits : inner.commits = true
  · have writes : (StoreCall.use incarnation inner).writes = true := by
      cases inner <;> first | exact commits | rfl
    refine follows_mono (follows_commits offside_checked (fun req phase checked => ?_) commits checked)
      fun _ _ _ => trivial
    have fine : (commitStagedInnerJ ⟨nameId, incarnation, pool⟩ req : Act Content (Except Error Nat)).Leads
        (moves True True) ⟨.idle, []⟩ ⟨.idle, []⟩ :=
      follows_commitStagedInnerJ trivial req []
    exact follows_checked writes fine checked
  · by_cases tears : inner = .evictAll
    · subst tears
      show Follows _ (Answer.evicted <$> evictAll _) _ _
      rw [map_eq_pure_bind]
      exact follows_then (follows_guarded_evictAll rfl checked) fun _ _ _ => trivial
    · have reads : (StoreCall.use incarnation inner).writes = false := by
        cases inner <;> first | rfl | exact absurd rfl tears | exact absurd rfl commits
      have resting : Resting own ⟨.idle, own.pins.map fun pin => (pin.slotIdx, pin.version)⟩ := ⟨rfl, .refl _⟩
      exact follows_mono (follows_unguarded reads
        (follows_perform holds resting (fun _ => trivial) fun _ => trivial)) fun _ _ _ => trivial

theorem follows_inHandle
    (follows : code.Follows (handleMoves call) post phase) : (through code).Follows (guardMoves call) post phase :=
  follows_within (fun _ _ _ _ _ move => move) follows

theorem onEntry_guard (call : StoreCall Content) (phase : Guard) :
    OnEntry fun site update => ∀ shelf : Shelf Content, guardMoves call site phase phase shelf (update shelf) := by
  intro site update onEntry keeps shelf
  have same : (update shelf).memory.head.incarnation = shelf.memory.head.incarnation := by rw [keeps]
  cases site with
  | scan | loadWord | exchangeWord | storeWord | popFree | pushFree => exact ⟨rfl, same⟩
  | _ => cases onEntry

/-- An eviction or a sweep between teardowns. -/
def Settled (phase : Guard) : Prop := phase.inside = none ∨ phase.inside = some phase.attached

theorem sweeping_guard (call : StoreCall Content) (writes : call.writes = true)
    (attaches : ∀ attached, call.handle attached = attached) :
    Sweeping nameId pool (guardMoves call) Settled (fun incarnation phase => phase = ⟨incarnation, none⟩) where
  rests _ _ prepared := by
    subst prepared
    exact .inl rfl
  entry phase _ := onEntry_guard call phase
  attach phase shelf _ := ⟨_, ⟨rfl, rfl⟩, rfl⟩
  tears incarnation phase prepared := by
    subst prepared
    have checked : Checked call incarnation ⟨incarnation, none⟩ := ⟨rfl, .inl rfl⟩
    have tears : (through (evictAll ⟨nameId, call.handle incarnation, pool⟩)).Follows (guardMoves call)
        (fun _ => Checked call incarnation) ⟨incarnation, none⟩ :=
      follows_inHandle (follows_guarded_evictAll writes checked)
    rw [attaches] at tears
    refine follows_mono tears fun _ later torn => ?_
    obtain ⟨same, inside⟩ := torn
    rw [attaches, ← same] at inside
    exact inside
  retire phase shelf _ := ⟨_, ⟨rfl, rfl⟩, .inl rfl⟩
  commission _ _ _ _ := ⟨rfl, rfl⟩

theorem follows_createEntry (phase : Guard) :
    (createEntry nameId pool : StoreAct Content _).Follows (guardMoves .create) (fun _ _ => True) phase := by
  refine follows_bind (follows_fetchUpdate fun shelf => ⟨phase, ⟨rfl, rfl⟩, ?_⟩)
  split
  · trivial
  refine follows_bind (follows_load fun shelf => ⟨phase, ⟨rfl, rfl⟩, ?_⟩)
  refine follows_bind (follows_bind (follows_load fun shelf => ⟨phase, ⟨rfl, rfl⟩, ?_⟩))
  refine follows_bind (follows_store fun shelf => ⟨phase, ⟨rfl, rfl⟩, ?_⟩)
  refine follows_bind (follows_store fun shelf => ⟨phase, ⟨rfl, rfl⟩, ?_⟩)
  refine follows_bind (follows_store fun shelf => ⟨phase, ⟨rfl, rfl⟩, ?_⟩)
  exact follows_then (follows_of_every ((onEntry_guard .create phase).every_casState _ _)) fun _ _ _ => trivial

/-- Every call of the store follows the guarded moves. -/
theorem follows_guarded_visit (call : StoreCall Content) (holds : call.holds desk) (outside : phase.inside = none) :
    (visit nameId pool call).Follows (guardMoves call) (fun _ _ => True) phase := by
  cases call with
  | use incarnation inner =>
    show Follows _ (StoreAnswer.used <$> through (perform ⟨nameId, incarnation, pool⟩ inner)) _ _
    rw [map_eq_pure_bind]
    exact follows_bind (follows_inHandle (follows_guarded incarnation holds outside))
  | evictKey =>
    show Follows _ ((fun _ => StoreAnswer.evicted) <$> evictKey nameId pool) _ _
    rw [map_eq_pure_bind]
    exact follows_then ((sweeping_guard .evictKey rfl fun _ => rfl).follows_evictKey (.inl outside))
      fun _ _ _ => trivial
  | sweep =>
    show Follows _ (StoreAnswer.swept <$> sweepTombstone nameId pool) _ _
    rw [map_eq_pure_bind]
    exact follows_bind (follows_mono
      ((sweeping_guard .sweep rfl fun _ => rfl).follows_sweepTombstone (.inl outside)) fun _ _ _ => trivial)
  | create =>
    show Follows _ (StoreAnswer.created <$> createEntry nameId pool) _ _
    rw [map_eq_pure_bind]
    exact follows_bind (follows_createEntry phase)

theorem follows_guarded_call (call : StoreCall Content) (holds : call.holds desk) (outside : phase.inside = none) :
    (visitAndReturn nameId pool call).Follows (guardMoves call) (fun _ later => later.inside = none) phase :=
  follows_then (follows_guarded_visit call holds outside) fun _ _ _ _ => ⟨_, ⟨rfl, rfl⟩, rfl⟩

end

section

variable {nameId : Nat} {pool : Pool}

structure Guarded (chronicle : Chronicle) (shelf : Shelf Content) (phases : Nat → Guard) : Prop where
  attached : ∀ actor, (phases actor).attached = chronicle.attached actor
  inside : ∀ actor incarnation, (phases actor).inside = some incarnation →
    (actor, incarnation) ∈ chronicle.insiders
  served : ∀ entry ∈ chronicle.insiders, entry.2 = noIncarnation ∨ entry.2 = chronicle.occupant
  serving : shelf.memory.head.incarnation = noIncarnation ∨ shelf.memory.head.incarnation = chronicle.occupant

section

variable {shelf new : Shelf Content}

/-- A move that leaves the actor's phase as it is. -/
theorem Guarded.stay (ok : Guarded chronicle shelf phases)
    (served : ∀ entry ∈ chronicle.insiders, entry.2 = noIncarnation ∨ entry.2 = occupant)
    (serving : new.memory.head.incarnation = noIncarnation ∨ new.memory.head.incarnation = occupant) :
    Guarded ⟨log, chronicle.insiders, chronicle.attached, occupant⟩ new (update phases who (phases who)) := by
  rw [update_eq_self]
  exact ⟨ok.attached, ok.inside, served, serving⟩

/-- A move by which the actor is no longer inside. -/
theorem Guarded.left (ok : Guarded chronicle shelf phases) (attached : Nat)
    (incarnation : new.memory.head.incarnation = noIncarnation ∨
      new.memory.head.incarnation = shelf.memory.head.incarnation) :
    Guarded ⟨chronicle.log, leave who chronicle.insiders, update chronicle.attached who attached, chronicle.occupant⟩
      new (update phases who ⟨attached, none⟩) := by
  refine ⟨fun other => ?_, fun other own inside => ?_, fun entry in_ => ok.served entry (List.mem_filter.mp in_).1,
    incarnation.elim .inl fun kept => kept ▸ ok.serving⟩
  · by_cases same : other = who
    · subst same
      simp
    · simp only [update_of_ne same]
      exact ok.attached other
  · by_cases same : other = who
    · subst same
      rw [update_self] at inside
      cases inside
    · rw [update_of_ne same] at inside
      exact List.mem_filter.mpr ⟨ok.inside other own inside, by simp [same]⟩

/-- A move by which the actor finds `found` in service. -/
theorem Guarded.entered (ok : Guarded chronicle shelf phases) (log : List Event)
    (same : new.memory.head.incarnation = shelf.memory.head.incarnation)
    (serves : shelf.memory.head.incarnation = got) :
    Guarded ⟨log, (who, got) :: leave who chronicle.insiders, chronicle.attached, chronicle.occupant⟩ new
      (update phases who ⟨(phases who).attached, some got⟩) := by
  refine ⟨fun other => ?_, fun other own inside => ?_, fun entry in_ => ?_, same ▸ ok.serving⟩
  · by_cases own : other = who
    · subst own
      rw [update_self]
      exact ok.attached other
    · rw [update_of_ne own]
      exact ok.attached other
  · by_cases actors : other = who
    · subst actors
      rw [update_self] at inside
      cases inside
      exact List.mem_cons_self
    · rw [update_of_ne actors] at inside
      exact List.mem_cons_of_mem _ (List.mem_filter.mpr ⟨ok.inside other own inside, by simp [actors]⟩)
  · rcases List.mem_cons.mp in_ with rfl | older
    · exact serves ▸ ok.serving
    · exact ok.served entry (List.mem_filter.mp older).1

end

/-- Every move keeps it: only a head made for another occupant could not. -/
theorem keeps_guarded : (storeUsers nameId pool (fun _ => True) Undisturbed).Keeps
    (fun call site phase later old new => site.1 = call ∧ guardMoves call site.2 phase later old new)
    (Guarded : _ → Shelf Content → _ → Prop) := by
  rintro call who ⟨label, site⟩ later old new chronicle phases ok may ⟨same, move⟩
  obtain rfl : label = call := same
  have kept (log : List Event) (same : new.memory.head.incarnation = old.memory.head.incarnation) :
      Guarded ⟨log, chronicle.insiders, chronicle.attached, chronicle.occupant⟩ new
        (update phases who (phases who)) := ok.stay ok.served (same ▸ ok.serving)
  have out (none_or : new.memory.head.incarnation = noIncarnation ∨
      new.memory.head.incarnation = old.memory.head.incarnation) :
      Guarded ⟨chronicle.log, leave who chronicle.insiders, chronicle.attached, chronicle.occupant⟩ new
        (update phases who ⟨(phases who).attached, none⟩) := by
    have left : Guarded ⟨chronicle.log, leave who chronicle.insiders,
        update chronicle.attached who (phases who).attached, chronicle.occupant⟩ new
        (update phases who ⟨(phases who).attached, none⟩) := ok.left _ none_or
    rwa [ok.attached who, update_eq_self, ← ok.attached who] at left
  cases site with
  | artifact place =>
    obtain ⟨same, rfl, -⟩ := move
    change Guarded ⟨_, ite (passes label (label.handle (chronicle.attached who)) place old.memory = true) _ _, _, _⟩
      new _
    rw [← ok.attached who]
    split
    next passed =>
      have got : old.memory.head.incarnation = label.handle (phases who).attached := by
        simp only [passes, Bool.and_eq_true, decide_eq_true_eq] at passed
        exact passed.2
      exact ok.entered _ same got
    next => exact kept _ same
  | attach =>
    obtain ⟨rfl, same⟩ := move
    exact ok.left _ (.inr same)
  | retireHead =>
    obtain ⟨rfl, none⟩ := move
    exact out (.inl none)
  | returned =>
    obtain ⟨rfl, same⟩ := move
    exact out (.inr same)
  | initHead incarnation =>
    obtain ⟨rfl, none⟩ := move
    exact ok.stay (fun entry in_ => .inr (may entry in_)) (.inl none)
  | commission incarnation =>
    obtain ⟨rfl, set⟩ := move
    exact ok.stay (fun entry in_ => .inr (may entry in_)) (.inr set)
  | _ =>
    obtain ⟨rfl, same⟩ := move
    exact kept _ same

/-- Where the head is made for an occupant only while nobody else's commit or teardown
is under way, no commit and no teardown touches another occupant's head. -/
theorem isolated_of_reachable {config : StoreRun Content}
    (reached : (storeUsers nameId pool (fun _ => True) Undisturbed).Reachable (vacant Content pool) config) :
    Isolated config := by
  have start : (storeUsers nameId pool (fun _ => True) Undisturbed).Guided
      (fun call site phase later before after =>
        site.1 = call ∧ guardMoves call site.2 phase later before after)
      (Guarded : _ → Shelf Content → _ → Prop) (fun _ phase => phase.inside = none) (fun _ _ => True)
      (vacant Content pool) :=
    ⟨fun _ => ⟨noIncarnation, none⟩, ⟨fun _ => rfl, fun _ _ inside => (by cases inside),
      fun _ member => (by cases member), .inl rfl⟩, fun _ => rfl⟩
  obtain ⟨phases, valid, threads⟩ := guided_of_reachable start reached (fun _ _ _ _ _ _ _ _ => trivial)
    (fun desk call phase enabled outside => ⟨trivial, follows_label (follows_loosen
      (fun _ _ _ _ _ move => ⟨rfl, move⟩) (follows_guarded_call call enabled.2 outside))⟩) keeps_guarded
  intro actor desk call site update next place running writes through named foreign
  have thread := threads actor
  rw [running] at thread
  obtain ⟨later, ⟨rfl, move⟩, -⟩ := thread.2 config.state
  rw [through] at move
  rcases move.2.2 writes with inside | untouched
  · rw [valid.attached actor] at inside
    rcases valid.served _ (valid.inside actor _ inside) with none | same
    · exact absurd none named
    · exact absurd same.symm foreign
  · exact untouched

end

section

/-- The next access of a call through a handle: where, through which
incarnation, by a writing call or not, and what `current` is after it. -/
def peek (thread : Thread (Shelf Nat) (StoreCall Nat × StoreSite) (StoreCall Nat) Desk StoreAnswer)
    (shelf : Shelf Nat) : Option (StoreSite × Nat × Bool × Nat) :=
  match thread with
  | .running _ (.use incarnation call) (.act site update _) =>
    some (site.2, incarnation, (StoreCall.use incarnation call).writes, (update shelf).memory.head.current)
  | _ => none

theorem not_isolated_of_peek {who incarnation version : Nat}
    (next : peek (run.thread who) run.state = some (.artifact place, incarnation, true, version))
    (named : incarnation ≠ noIncarnation) (foreign : run.history.occupant ≠ incarnation)
    (moved : version ≠ run.state.memory.head.current) : ¬ Isolated run := by
  intro isolated
  unfold peek at next
  split at next
  next desk own call site update rest running =>
    cases site with
    | mk label site =>
      simp only [Option.some.injEq, Prod.mk.injEq] at next
      obtain ⟨through, rfl, writes, rfl⟩ := next
      exact moved (isolated who desk _ _ update rest place running writes through named foreign).current
  next => cases next

/-- A commit through a handle of incarnation 1 stops before its install; the key
is evicted, the slot swept and created again. -/
def recycling : List (Stretch (StoreCall Nat)) :=
  [.begin 1 .create, .run 1 50 1,
    .begin 2 (.use 1 (.commitOptimistic 2 0 .replace (row 5))), .run 2 34 1,
    .begin 3 .evictKey, .run 3 900 1, .begin 4 .create, .run 4 50 1]

def recycled : StoreRun Nat :=
  (storeUsers 7 small.pool (fun _ => True) anyStoreAccess).follow recycling (vacant Nat small.pool)

/-- The commit's install is about to move the `current` of incarnation 2. -/
theorem recycled_not_isolated :
    (storeUsers 7 small.pool (fun _ => True) anyStoreAccess).Reachable (vacant Nat small.pool) recycled ∧
      ¬ Isolated recycled := by
  refine ⟨reachable_follow _ .refl, ?_⟩
  have next : peek (recycled.thread 2) recycled.state = some (.artifact .install, 1, true, 1) := by
    decide +kernel
  exact not_isolated_of_peek next (by decide +kernel) (by decide +kernel) (by decide +kernel)

/-- The same users, the commit having returned, and a second commit through the
old handle under way. -/
def succeeding : List (Stretch (StoreCall Nat)) :=
  [.begin 1 .create, .run 1 50 1,
    .begin 2 (.use 1 (.commitOptimistic 2 0 .replace (row 5))), .run 2 200 1,
    .begin 3 .evictKey, .run 3 900 1, .begin 4 .create, .run 4 50 1,
    .begin 2 (.use 1 (.commitOptimistic 2 0 .replace (row 6))), .run 2 5 1]

def succeeded : StoreRun Nat :=
  (storeUsers 7 small.pool (fun _ => True) Undisturbed).follow succeeding (vacant Nat small.pool)

theorem succeeded_isolated : succeeded.history.occupant = 2 ∧
    ((peek (succeeded.thread 2) succeeded.state).map fun next => next.2.1) = some 1 ∧ Isolated succeeded :=
  ⟨by decide +kernel, by decide +kernel, isolated_of_reachable (reachable_follow succeeding .refl)⟩

end

end ShmActors.Artifact
