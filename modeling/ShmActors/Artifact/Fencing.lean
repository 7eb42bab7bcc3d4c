import ShmActors.Artifact.Leases

/-! Fencing: in the runs in which no lease is force-released under a commit that
has passed its fence check, no version is installed under a fence token that a
release has advanced past. -/

namespace ShmActors.Artifact

open Lib Core Program Function Actors

/-- A release of the lease held under a fence, by its holder or by force; and an
install by a commit that carries a token. -/
inductive LeaseEvent where
  | released (fence : Nat)
  | installed (token : Nat)
  deriving DecidableEq, Repr

/-- The events, newest first, and the commits that have passed their fence check
and neither made their install nor returned, as actor and token. -/
structure FenceLog where
  events : List LeaseEvent
  passed : List (Nat × Nat)

section

variable {Content : Type}

/-- Without the entries of an actor. -/
def unpassed (actor : Nat) (passed : List (Nat × Nat)) : List (Nat × Nat) :=
  passed.filter fun entry => entry.1 ≠ actor

def FenceLog.note (actor : Nat) (site : LeaseCall Content × LeaseSite) (before after : Memory Content)
    (past : FenceLog) : FenceLog :=
  match site.2, site.1.committer with
  | .returned, _ => { past with passed := unpassed actor past.passed }
  | .access .exchangeLease, _ =>
    if before.head.writeLease.owner ≠ ownerNone ∧ after.head.writeLease.owner = ownerNone then
      { past with events := .released before.head.writeLease.fence :: past.events }
    else past
  | .access .loadLease, some committer =>
    if before.head.writeLease = ⟨committer.owner, committer.token⟩ then
      { past with passed := (actor, committer.token) :: past.passed }
    else past
  | .access .install, some committer =>
    { events :=
        if before.head.current = after.head.current then past.events
        else .installed committer.token :: past.events
      passed := unpassed actor past.passed }
  | _, _ => past

/-- Nobody force-releases a lease whose commit has passed its fence check, and the
fence does not come round. -/
def Unforced (_ : Nat) (site : LeaseCall Content × LeaseSite) (memory : Memory Content) (past : FenceLog) : Prop :=
  match site.2 with
  | .access .exchangeLease => memory.head.writeLease.fence + 1 < 2 ^ 32 ∧
      (site.1.forces = true → memory.head.writeLease.owner ≠ ownerNone →
        ∀ entry ∈ past.passed, entry.2 ≠ memory.head.writeLease.fence)
  | _ => True

instance (actor : Nat) (site : LeaseCall Content × LeaseSite) (memory : Memory Content) (past : FenceLog) :
    Decidable (Unforced actor site memory past) := by
  unfold Unforced
  split <;> infer_instance

/-- No version is installed under a token the fence has been advanced past. -/
def FenceKept (events : List LeaseEvent) : Prop :=
  ∀ later earlier token fence, events = later ++ .installed token :: earlier →
    .released fence ∈ earlier → fence < token

end

/-- The fences an actor has acquired the lease under, and the lease its commit
found to be its own. -/
structure Tenure where
  held : List Nat
  checked : Option Lease

section

variable {Content : Type}

inductive Tenure.Move (call : LeaseCall Content) :
    LeaseSite → Tenure → Tenure → Memory Content → Memory Content → Prop where
  | beside {site phase before after} (other : site ≠ .install)
      (same : after.head.writeLease = before.head.writeLease) :
      Move call (.access site) phase phase before after
  | acquire {phase owner fence before after} (named : owner ≠ ownerNone)
      (free : before.head.writeLease = ⟨ownerNone, fence⟩) (taken : after.head.writeLease = ⟨owner, fence⟩) :
      Move call (.access .exchangeLease) phase ⟨fence :: phase.held, none⟩ before after
  | release {phase owner fence before after} (own : fence ∈ phase.held ∨ call.forces = true)
      (found : before.head.writeLease = ⟨owner, fence⟩) (left : after.head.writeLease = .released fence) :
      Move call (.access .exchangeLease) phase ⟨phase.held, none⟩ before after
  | check {phase committer memory} (carries : call.committer = some committer) (own : committer.token ∈ phase.held)
      (named : committer.owner ≠ ownerNone)
      (found : memory.head.writeLease = ⟨committer.owner, committer.token⟩) :
      Move call (.access .loadLease) phase ⟨phase.held, some ⟨committer.owner, committer.token⟩⟩ memory memory
  | install {phase before after}
      (checked : ∀ committer ∈ call.committer, phase.checked = some ⟨committer.owner, committer.token⟩)
      (same : after.head.writeLease = before.head.writeLease) :
      Move call (.access .install) phase ⟨phase.held, none⟩ before after
  | returned {phase memory} : Move call .returned phase ⟨phase.held, none⟩ memory memory

end

section

variable {Content : Type} {events : List LeaseEvent}

structure Governed (past : FenceLog) (memory : Memory Content) (phases : Nat → Tenure) : Prop where
  below : ∀ fence, .released fence ∈ past.events → fence < memory.head.writeLease.fence
  tokens : ∀ actor token, token ∈ (phases actor).held → token < memory.head.writeLease.fence ∨
    token = memory.head.writeLease.fence ∧ memory.head.writeLease.owner ≠ ownerNone
  /-- A fence is acquired under once. -/
  sole : ∀ first second token, token ∈ (phases first).held → token ∈ (phases second).held → first = second
  checked : ∀ actor lease, (phases actor).checked = some lease → memory.head.writeLease = lease ∧
    lease.owner ≠ ownerNone ∧ lease.fence ∈ (phases actor).held ∧ (actor, lease.fence) ∈ past.passed
  kept : FenceKept past.events

variable {past past' : FenceLog} {before new : Memory Content} {phases : Nat → Tenure} {actor : Nat}
  {token fence other owner : Nat}

theorem fenceKept_released (kept : FenceKept events) (fence : Nat) : FenceKept (.released fence :: events) := by
  rintro (_ | ⟨one, rest⟩) earlier token got same in_
  · cases same
  · obtain ⟨_, same⟩ := List.cons.inj same
    exact kept rest earlier token got same in_

theorem fenceKept_installed (kept : FenceKept events)
    (below : ∀ fence, .released fence ∈ events → fence < token) : FenceKept (.installed token :: events) := by
  rintro (_ | ⟨one, rest⟩) earlier other got same in_
  · cases same
    exact below got in_
  · obtain ⟨_, same⟩ := List.cons.inj same
    exact kept rest earlier other got same in_

variable (governed : Governed past before phases)

include governed

/-- The lease stays as it is: an actor may check it, or give up what it checked. -/
theorem Governed.stays (lease : new.head.writeLease = before.head.writeLease) (events : past'.events = past.events)
    (passed : ∀ other, other ≠ actor → ∀ token, (other, token) ∈ past.passed → (other, token) ∈ past'.passed)
    (held : later.held = (phases actor).held)
    (checked : ∀ got, later.checked = some got → before.head.writeLease = got ∧
      got.owner ≠ ownerNone ∧ got.fence ∈ later.held ∧ (actor, got.fence) ∈ past'.passed) :
    Governed past' new (update phases actor later) := by
  have same : ∀ other, (update phases actor later other).held = (phases other).held := by
    intro other
    by_cases here : other = actor
    · rw [here, update_self, held]
    · rw [update_of_ne here]
  refine ⟨?_, ?_, ?_, fun other got => ?_, ?_⟩
  · rw [events, lease]
    exact governed.below
  · intro other token in_
    rw [same] at in_
    rw [lease]
    exact governed.tokens other token in_
  · intro first second token one two
    rw [same] at one two
    exact governed.sole first second token one two
  · rw [lease]
    by_cases here : other = actor
    · subst other
      rw [update_self]
      exact checked got
    · rw [update_of_ne here]
      intro known
      obtain ⟨eq, named, own, among⟩ := governed.checked other got known
      exact ⟨eq, named, own, passed other here _ among⟩
  · rw [events]
    exact governed.kept

/-- While a check is outstanding nobody else acquires the lease. -/
theorem Governed.free
    (free : before.head.writeLease = ⟨ownerNone, fence⟩) (other : Nat) : (phases other).checked = none := by
  cases known : (phases other).checked with
  | none => rfl
  | some lease =>
    obtain ⟨same, named, _⟩ := governed.checked other lease known
    rw [← same, free] at named
    exact absurd rfl named

/-- The tokens out are behind the fence once the lease is released. -/
theorem Governed.behind (held : token ∈ (phases other).held) : token < before.head.writeLease.fence + 1 := by
  rcases governed.tokens other token held with less | ⟨same, _⟩
  · exact Nat.lt_succ_of_lt less
  · exact same ▸ Nat.lt_succ_self _

theorem Governed.acquire (named : owner ≠ ownerNone)
    (free : before.head.writeLease = ⟨ownerNone, fence⟩) (taken : new.head.writeLease = ⟨owner, fence⟩) :
    Governed past new (update phases actor ⟨fence :: (phases actor).held, none⟩) := by
  have older : ∀ other token, token ∈ (phases other).held → token < fence := by
    intro other token held
    have known := governed.tokens other token held
    rw [free] at known
    exact known.resolve_right fun taken => taken.2 rfl
  have source : ∀ other token, token ∈ (update phases actor ⟨fence :: (phases actor).held, none⟩ other).held →
      other = actor ∧ token = fence ∨ token ∈ (phases other).held := by
    intro other token held
    by_cases here : other = actor
    · subst other
      rw [update_self] at held
      exact (List.mem_cons.mp held).imp_left fun same => ⟨rfl, same⟩
    · rw [update_of_ne here] at held
      exact .inr held
  refine ⟨?_, fun other token held => ?_, fun first second token one two => ?_, fun other lease known => ?_,
    governed.kept⟩
  · intro got released
    have below := governed.below got released
    rw [free] at below
    rw [taken]
    exact below
  · rw [taken]
    rcases source other token held with ⟨_, rfl⟩ | old
    · exact .inr ⟨rfl, named⟩
    · exact .inl (older other token old)
  · rcases source first token one with ⟨rfl, same⟩ | old
    · rcases source second token two with ⟨rfl, _⟩ | old'
      · rfl
      · exact absurd (older second token old') (by omega)
    · rcases source second token two with ⟨rfl, same⟩ | old'
      · exact absurd (older first token old) (by omega)
      · exact governed.sole first second token old old'
  · by_cases here : other = actor
    · rw [here, update_self] at known
      cases known
    · rw [update_of_ne here, governed.free free other] at known
      cases known

theorem Governed.release
    (got : before.head.writeLease = ⟨owner, fence⟩) (left : new.head.writeLease = .released fence)
    (room : fence + 1 < 2 ^ 32) (unchecked : ∀ other, other ≠ actor → (phases other).checked = none)
    (events : past'.events = past.events ∨ past'.events = .released fence :: past.events) :
    Governed past' new (update phases actor ⟨(phases actor).held, none⟩) := by
  have advanced : new.head.writeLease.fence = fence + 1 := by
    rw [left]
    exact Nat.mod_eq_of_lt room
  have same : ∀ other, (update phases actor ⟨(phases actor).held, none⟩ other).held =
      (phases other).held := by
    intro other
    by_cases here : other = actor
    · rw [here, update_self]
    · rw [update_of_ne here]
  refine ⟨fun gone released => ?_, fun other token held => ?_, fun first second token one two => ?_,
    fun other lease known => ?_, ?_⟩
  · rw [advanced]
    have old (older : LeaseEvent.released gone ∈ past.events) : gone < fence + 1 := by
      have below := governed.below gone older
      rw [got] at below
      exact Nat.lt_succ_of_lt below
    rcases events with eq | eq
    · exact old (eq ▸ released)
    · rw [eq] at released
      rcases List.mem_cons.mp released with now | older
      · cases now
        exact Nat.lt_succ_self _
      · exact old older
  · rw [same] at held
    have behind := governed.behind held
    rw [got] at behind
    exact .inl (advanced ▸ behind)
  · rw [same] at one two
    exact governed.sole first second token one two
  · by_cases here : other = actor
    · rw [here, update_self] at known
      cases known
    · rw [update_of_ne here, unchecked other here] at known
      cases known
  · rcases events with eq | eq
    · rw [eq]
      exact governed.kept
    · rw [eq]
      exact fenceKept_released governed.kept fence

variable {call : LeaseCall Content}

omit governed

/-- What the log gains from an access that leaves the lease alone. -/
theorem note_beside {place : Site} (other : place ≠ .install) (same : new.head.writeLease = before.head.writeLease) :
    (past.note actor (call, .access place) before new).events = past.events ∧
      ∀ entry ∈ past.passed, entry ∈ (past.note actor (call, .access place) before new).passed := by
  have unchanged : ¬(before.head.writeLease.owner ≠ ownerNone ∧ new.head.writeLease.owner = ownerNone) := by
    rw [same]
    exact fun both => both.1 both.2
  cases place with
  | install => exact absurd rfl other
  | exchangeLease =>
    have noted : past.note actor (call, .access .exchangeLease) before new = past := if_neg unchanged
    rw [noted]
    exact ⟨rfl, fun _ in_ => in_⟩
  | loadLease =>
    simp only [FenceLog.note]
    cases call.committer with
    | none => exact ⟨rfl, fun _ in_ => in_⟩
    | some committer =>
      dsimp only
      split
      · exact ⟨rfl, fun _ in_ => List.mem_cons_of_mem _ in_⟩
      · exact ⟨rfl, fun _ in_ => in_⟩
  | _ => exact ⟨rfl, fun _ in_ => in_⟩

theorem mem_unpassed (theirs : other ≠ actor)
    (in_ : (other, token) ∈ passed) : (other, token) ∈ unpassed actor passed :=
  List.mem_filter.mpr ⟨in_, by simpa using theirs⟩

include governed

/-- Every move keeps the lease in order. -/
theorem Governed.moved (unforced : Unforced actor (call, site) before past)
    (move : Tenure.Move call site (phases actor) later before new) :
    Governed (past.note actor (call, site) before new) new (update phases actor later) := by
  cases move with
  | @beside place _ _ _ other same =>
    obtain ⟨events, passed⟩ := @note_beside Content past before new actor call place other same
    refine governed.stays same events (fun _ _ _ in_ => passed _ in_) rfl fun got known => ?_
    obtain ⟨eq, named, own, among⟩ := governed.checked actor got known
    exact ⟨eq, named, own, passed _ among⟩
  | @acquire _ owner fence _ _ named free taken =>
    have unchanged : past.note actor (call, .access .exchangeLease) before new = past := by
      simp [FenceLog.note, free]
    rw [unchanged]
    exact governed.acquire named free taken
  | @release _ owner fence _ _ own got left =>
    have room : fence + 1 < 2 ^ 32 := by
      have bound := unforced.1
      rwa [got] at bound
    refine governed.release got left room (fun other ne => ?_) ?_
    · cases known : (phases other).checked with
      | none => rfl
      | some lease =>
        obtain ⟨same, named, theirs, passed⟩ := governed.checked other lease known
        rw [got] at same
        subst same
        rcases own with mine | forces
        · exact absurd (governed.sole other actor fence theirs mine) ne
        · have spared := unforced.2 forces (by rw [got]; exact named) _ passed
          rw [got] at spared
          exact absurd rfl spared
    · simp only [FenceLog.note]
      split
      · exact .inr (by rw [got])
      · exact .inl rfl
  | @check _ committer _ carries own named got =>
    have noted : past.note actor (call, .access .loadLease) before before =
        { past with passed := (actor, committer.token) :: past.passed } := by
      simp [FenceLog.note, carries, got]
    rw [noted]
    refine governed.stays rfl rfl (fun _ _ _ in_ => List.mem_cons_of_mem _ in_) rfl ?_
    rintro _ ⟨⟩
    exact ⟨got, named, own, List.mem_cons_self⟩
  | install checked same =>
    cases carries : call.committer with
    | none =>
      have unchanged : past.note actor (call, .access .install) before new = past := by
        simp [FenceLog.note, carries]
      rw [unchanged]
      exact governed.stays same rfl (fun _ _ _ in_ => in_) rfl nofun
    | some committer =>
      obtain ⟨lease, _⟩ := governed.checked actor _ (checked committer carries)
      have stayed : Governed { past with passed := unpassed actor past.passed } new
          (update phases actor ⟨(phases actor).held, none⟩) :=
        governed.stays same rfl (fun _ theirs _ in_ => mem_unpassed theirs in_) rfl nofun
      by_cases still : before.head.current = new.head.current
      · have noted : past.note actor (call, .access .install) before new =
            { past with passed := unpassed actor past.passed } := by
          simp [FenceLog.note, carries, still]
        rw [noted]
        exact stayed
      · have noted : past.note actor (call, .access .install) before new =
            ⟨.installed committer.token :: past.events, unpassed actor past.passed⟩ := by
          simp [FenceLog.note, carries, still]
        rw [noted]
        refine ⟨fun gone released => ?_, stayed.tokens, stayed.sole, stayed.checked,
          fenceKept_installed governed.kept fun gone released => ?_⟩
        · exact stayed.below gone ((List.mem_cons.mp released).resolve_left nofun)
        · have below := governed.below gone released
          rwa [lease] at below
  | returned =>
    exact governed.stays rfl rfl (fun _ theirs _ in_ => mem_unpassed theirs in_) rfl nofun

end

namespace Fencing

section

variable {Content : Type} {call : LeaseCall Content} {phase : Tenure} {Value : Type} {program : Act Content Value}

/-- The protocol of a call's accesses. -/
def leaseMoves (call : LeaseCall Content) : Protocol (Memory Content) Site Tenure :=
  fun site => Tenure.Move call (.access site)

theorem unleased_beside (call : LeaseCall Content) (phase : Tenure) :
    Unleased fun site (update : Memory Content → Memory Content) =>
      ∀ mem, leaseMoves call site phase phase mem (update mem) where
  heap site update area keeps mem := by
    obtain ⟨heap, eq⟩ := keeps mem
    exact .beside (by rintro rfl; cases area) (by rw [eq])
  reading site area mem := .beside (by rintro rfl; cases area) rfl
  slots site update _ other _ keeps mem := by
    obtain ⟨head, eq, same⟩ := keeps mem
    exact .beside other (by rw [eq]; exact same)
  journal site update area keeps mem := by
    obtain ⟨journals, eq⟩ := keeps mem
    exact .beside (by rintro rfl; cases area) (by rw [eq])

/-- Code that has nothing to do with the lease. -/
theorem follows_unleased (phase : Tenure)
    (every : ∀ {kind : Kind Content}, Unleased kind → program.Every kind) :
    program.Leads (leaseMoves call) phase phase :=
  follows_of_every (every (unleased_beside call phase))

theorem follows_past {post : Other → Tenure → Prop}
    (every : ∀ {kind : Kind Content}, Unleased kind → program.Every kind)
    (later : ∀ val, (rest val).Follows (leaseMoves call) post phase) :
    (program >>= rest).Follows (leaseMoves call) post phase :=
  follows_seq (follows_unleased phase every) later

/-- Code that leaves an actor the fences it acquired under. -/
abbrev Holding (call : LeaseCall Content) (phase : Tenure) (program : Act Content Value) : Prop :=
  program.Follows (leaseMoves call) (fun _ later => later.held = phase.held) phase

theorem holding_unleased
    (every : ∀ {kind : Kind Content}, Unleased kind → program.Every kind) :
    Holding call phase program :=
  follows_mono (follows_unleased phase every) (by rintro _ _ rfl; rfl)

/-- What an actor keeps through a call: the fences it acquired under. -/
def Keeping (held : List Nat) (phase : Tenure) : Prop := phase.checked = none ∧ held ⊆ phase.held

/-- Calls that force-release may do anything with the lease. -/
theorem uninstalling_forces (forces : call.forces = true) (held : List Nat) :
    Uninstalling fun site (update : Memory Content → Memory Content) => ∀ phase, Keeping held phase →
      ∀ mem, ∃ later, leaseMoves call site phase later mem (update mem) ∧ Keeping held later where
  heap site update area keeps phase keeping mem :=
    ⟨phase, (unleased_beside call phase).heap site update area keeps mem, keeping⟩
  reading site area phase keeping mem :=
    ⟨phase, (unleased_beside call phase).reading site area mem, keeping⟩
  slots site update place other lease keeps phase keeping mem :=
    ⟨phase, (unleased_beside call phase).slots site update place other lease keeps mem, keeping⟩
  journal site update area keeps phase keeping mem :=
    ⟨phase, (unleased_beside call phase).journal site update area keeps mem, keeping⟩
  lease update keeps phase keeping mem := by
    obtain ⟨lease, step, eq⟩ := keeps mem
    have left : (update mem).head.writeLease = lease := by rw [eq]
    generalize got : mem.head.writeLease = old at step
    cases step with
    | same => exact ⟨phase, .beside nofun (left.trans got.symm), keeping⟩
    | acquire owner fence =>
      by_cases named : owner = ownerNone
      · subst owner
        exact ⟨phase, .beside nofun (left.trans got.symm), keeping⟩
      · exact ⟨_, .acquire named got left, rfl, fun _ in_ => List.mem_cons_of_mem _ (keeping.2 in_)⟩
    | release owner fence => exact ⟨_, .release (.inr forces) got left, rfl, keeping.2⟩

theorem follows_forcing (forces : call.forces = true)
    (every : ∀ {kind : Kind Content}, Uninstalling kind → program.Every kind)
    (keeping : Keeping held phase) : program.Follows (leaseMoves call) (fun _ => Keeping held) phase :=
  follows_among (every (uninstalling_forces forces held)) keeping

section

variable {owner : Nat}

theorem follows_acquireWriteLease (named : owner ≠ ownerNone) :
    (acquireWriteLease owner : Act Content _).Follows (leaseMoves call)
      (fun out later => match out with
        | none => later = phase
        | some token => later = ⟨token :: phase.held, none⟩) phase := by
  refine follows_repeatLoop (fun round (same : round = phase) => ?_) rfl
  subst same
  refine follows_bind (follows_load fun mem => ⟨_, .beside nofun rfl, ?_⟩)
  show Follows _ (ite (mem.head.writeLease.owner ≠ ownerNone) _ _) _ _
  split
  · exact rfl
  next free =>
    refine follows_bind (follows_compareExchange (fun now got => ?_) fun now _ => ?_)
    · refine ⟨⟨mem.head.writeLease.fence :: round.held, none⟩, .acquire named ?_ rfl, rfl⟩
      rw [show now.head.writeLease = mem.head.writeLease from got, ← not_not.mp free]
    · exact ⟨_, .beside nofun rfl, rfl⟩

theorem follows_releaseWriteLease (own : token ∈ phase.held) :
    (releaseWriteLease owner token : Act Content _).Follows (leaseMoves call)
      (fun _ later => later = phase ∨ later = ⟨phase.held, none⟩) phase := by
  refine follows_bind (follows_compareExchange (fun mem got => ?_) fun mem _ => ?_)
  · exact ⟨⟨phase.held, none⟩, .release (.inl own) got rfl, .inr rfl⟩
  · exact ⟨phase, .beside nofun rfl, .inl rfl⟩

/-- What an opened committer is backed by. -/
def Backed (committer : Committer) (phase : Tenure) : Prop :=
  committer.token ∈ phase.held ∧ committer.owner ≠ ownerNone

theorem follows_openExclusive (named : owner ≠ ownerNone) (journal : Option BorrowJournal)
    (unchecked : phase.checked = none) :
    (openExclusive artifact owner journal : Act Content _).Follows (leaseMoves call)
      (fun out later => Keeping phase.held later ∧ ∀ committer, out = .ok committer → Backed committer later)
      phase := by
  refine follows_then (follows_acquireWriteLease named) fun out later acquired => ?_
  cases out with
  | none =>
    obtain rfl : later = phase := acquired
    exact ⟨⟨unchecked, fun _ in_ => in_⟩, nofun⟩
  | some token =>
    obtain rfl : later = ⟨token :: phase.held, none⟩ := acquired
    have kept : Keeping phase.held ⟨token :: phase.held, none⟩ := ⟨rfl, List.subset_cons_self _ _⟩
    have released (reason : Error) : (releaseWriteLease owner token >>= fun _ => pure (.error reason) :
        Act Content (Except Error Committer)).Follows (leaseMoves call)
        (fun out later => Keeping phase.held later ∧ ∀ committer, out = .ok committer → Backed committer later)
        ⟨token :: phase.held, none⟩ := by
      refine follows_then (follows_releaseWriteLease List.mem_cons_self) ?_
      rintro _ _ (rfl | rfl) <;> exact ⟨kept, nofun⟩
    refine follows_past (·.every_isIncarnation _) fun occupant => ?_
    split
    · exact released _
    cases journal with
    | none => exact ⟨kept, by rintro _ ⟨⟩; exact ⟨List.mem_cons_self, named⟩⟩
    | some journal =>
      refine follows_then (follows_unleased _ (·.every_record journal _)) ?_
      rintro (reason | slot) _ rfl
      · exact released reason
      · exact ⟨kept, by rintro _ ⟨⟩; exact ⟨List.mem_cons_self, named⟩⟩

theorem follows_dropCommitter {committer : Committer} (own : committer.token ∈ phase.held) :
    (committer.drop : Act Content _).Follows (leaseMoves call)
      (fun _ later => later = phase ∨ later = ⟨phase.held, none⟩) phase := by
  have released : (releaseWriteLease committer.owner committer.token >>= fun _ => pure () :
      Act Content Unit).Follows (leaseMoves call)
      (fun _ later => later = phase ∨ later = ⟨phase.held, none⟩) phase := by
    exact follows_bind (follows_releaseWriteLease own)
  unfold Committer.drop
  split
  · exact released
  refine follows_past (·.every_release _ _) fun out => ?_
  split
  · exact .inl rfl
  · exact released

end

section

/-- A request as a call makes it: under the call's committer, if it has one. -/
def Borne (call : LeaseCall Content) (request : Request) (phase : Tenure) : Prop :=
  match call.committer with
  | none => request.leaseFence = none
  | some committer =>
    request.leaseFence = some committer.token ∧ request.owner = committer.owner ∧ Backed committer phase

/-- The fence check is passed, if there is one to pass. -/
def Cleared (call : LeaseCall Content) (phase : Tenure) : Prop :=
  ∀ committer ∈ call.committer, phase.checked = some ⟨committer.owner, committer.token⟩

variable (request : Request)

theorem follows_installClaimed (prior : Prior) (manifest : ChunkDesc) (recorded : Option Nat)
    (slot : Nat) (cleared : Cleared call phase) :
    Holding call phase (installClaimed artifact request prior manifest recorded slot : Act Content _) := by
  refine follows_past (·.every_isIncarnation _) fun occupant => ?_
  split
  · refine holding_unleased fun unleased => ?_
    refine every_bind (unleased.every_storeFree slot) fun _ => ?_
    refine every_bind (unleased.every_rollbackStaged _ _ _ _ _) fun _ => ?_
    exact every_bind (unleased.every_dropRecord _ _) fun _ => trivial
  refine follows_past (·.loadHead _ rfl) fun priorBits => ?_
  refine follows_bind (follows_compareExchange (fun mem _ => ?_) fun mem _ => ?_)
  · refine ⟨_, .install cleared rfl, ?_⟩
    exact holding_unleased (·.every_finishInstall _ _ _ _)
  · refine ⟨⟨phase.held, none⟩, .install cleared rfl, (holding_unleased fun unleased => ?_ : Holding call ⟨_, none⟩ _)⟩
    refine every_bind (unleased.every_rollbackStaged _ _ _ _ _) fun _ => ?_
    exact every_bind (unleased.every_dropRecord _ _) fun _ => trivial

theorem follows_stageAndInstall (prior : Prior) (cleared : Cleared call phase) :
    Holding call phase (stageAndInstall artifact request prior : Act Content _) := by
  refine follows_then (follows_unleased _ fun unleased =>
    unleased.every_stageChunk _ (unleased.every_writeManifest _ _ _ _ _ _ _)) ?_
  rintro (reason | manifest) _ rfl
  · refine holding_unleased fun unleased => ?_
    exact every_bind (unleased.every_rollbackStaged _ _ _ _ _) fun _ => trivial
  refine follows_past (·.every_recordStaged _ _) fun recorded => ?_
  refine follows_then (follows_unleased _ (·.every_claimSlot _ _)) ?_
  rintro (_ | slot) _ rfl
  · refine holding_unleased fun unleased => ?_
    refine every_bind (unleased.every_rollbackStaged _ _ _ _ _) fun _ => ?_
    exact every_bind (unleased.every_dropRecord _ _) fun _ => trivial
  · exact follows_installClaimed request prior manifest recorded slot cleared

/-- After the fence check. -/
theorem follows_unfenced (cleared : Cleared call phase) :
    Holding call phase (do match ← publishAll artifact [] request.staged with
        | .error reason => return .error reason
        | .ok () => commitPublished artifact request : Act Content (Except Error Nat)) := by
  refine follows_then (follows_unleased _ (·.every_publishAll _ _)) ?_
  rintro (reason | _) _ rfl
  · rfl
  refine follows_then (follows_unleased _ (·.every_appendLink _)) ?_
  rintro (reason | link) _ rfl
  · rfl
  refine follows_then (follows_unleased _ (·.every_windowKept _)) ?_
  rintro (reason | window) _ rfl
  · rfl
  · exact follows_stageAndInstall request ⟨link, window⟩ cleared

/-- The fence check of a commit. -/
theorem follows_fencedOut (borne : Borne call request phase) :
    (fencedOut request : Act Content _).Follows (leaseMoves call)
      (fun fenced later => later.held = phase.held ∧ (fenced = false → Cleared call later)) phase := by
  unfold Borne at borne
  unfold fencedOut
  split at borne
  next alone =>
    rw [borne]
    exact ⟨rfl, fun _ committer carried => by rw [alone] at carried; cases carried⟩
  next committer carries =>
    obtain ⟨fence, owner, own, named⟩ := borne
    rw [fence, owner]
    refine follows_bind (follows_bind (follows_load fun mem => ?_))
    by_cases got : mem.head.writeLease = ⟨committer.owner, committer.token⟩
    · refine ⟨_, .check carries own named got, rfl, fun _ other carried => ?_⟩
      rw [carries] at carried
      cases carried
      rfl
    · refine ⟨phase, .beside nofun rfl, rfl, fun passed => ?_⟩
      have held : (writeLease : Ref (Memory Content) Lease).get mem = ⟨committer.owner, committer.token⟩ := by
        simpa using passed
      exact absurd held got

theorem follows_leasedCommit (borne : Borne call request phase) :
    Holding call phase (commitStagedInnerJ artifact request : Act Content _) := by
  refine follows_past (·.every_isIncarnation _) fun live => ?_
  split
  · rfl
  split
  · rfl
  refine follows_then (follows_fencedOut request borne) fun fenced later new => ?_
  rw [← new.1]
  split
  · refine holding_unleased fun unleased => ?_
    exact every_bind (every_forEach _ fun desc _ => unleased.every_freeLoaned desc) fun _ => trivial
  next passed => exact follows_unfenced request (new.2 (by simpa using passed))

end

section

/-- What an actor has in hand is backed by the fences it acquired under. -/
structure Tenant (own : Own) (phase : Tenure) : Prop where
  committers : ∀ committer ∈ own.committers, Backed committer phase
  writers : ∀ writer ∈ own.writers, ∀ committer, writer.coord = .exclusive committer → Backed committer phase

theorem Backed.mono (backed : Backed committer phase) (held : phase.held ⊆ later.held) : Backed committer later :=
  ⟨held backed.1, backed.2⟩

variable {writer : StreamWriter}

theorem Tenant.mono (tenant : Tenant own phase) (held : phase.held ⊆ later.held) : Tenant own later where
  committers committer in_ := (tenant.committers committer in_).mono held
  writers writer in_ committer exclusive := (tenant.writers writer in_ committer exclusive).mono held

theorem Tenant.give (tenant : Tenant own phase) (call : Call Content) : Tenant (own.give call) phase := by
  cases call with
  | closeExclusive => exact ⟨fun _ in_ => tenant.committers _ (List.mem_of_mem_erase in_), tenant.writers⟩
  | append | commitStream | abortStream =>
    exact ⟨tenant.committers, fun _ in_ => tenant.writers _ (List.mem_of_mem_erase in_)⟩
  | _ => exact ⟨tenant.committers, tenant.writers⟩

/-- A committer in hand backs the commit made with it. -/
theorem borne_of_committer (carries : call.committer = some committer)
    (fence : req.leaseFence = some committer.token) (owner : req.owner = committer.owner)
    (backed : Backed committer phase) : Borne call req phase := by
  unfold Borne
  rw [carries]
  exact ⟨fence, owner, backed⟩

theorem borne_of_none (carries : call.committer = none) (fence : req.leaseFence = none) :
    Borne call req phase := by
  unfold Borne
  rw [carries]
  exact fence

theorem follows_leasedBatch (expect owner : Nat) (kind : Commit) (batch : RecordBatch Content) (fence : Option Nat)
    (journal : Option BorrowJournal)
    (borne : ∀ req : Request, req.leaseFence = fence → req.owner = owner → Borne call req phase) :
    Holding call phase (commitInnerJ artifact expect owner kind batch fence journal) := by
  unfold commitInnerJ
  split
  · rfl
  refine follows_then (follows_unleased _ (·.every_writeBatchChunks _)) ?_
  rintro (reason | staged) _ rfl
  · rfl
  refine follows_then (follows_unleased _ (·.every_loanFrom _ _ _ _)) ?_
  rintro (reason | _) _ rfl
  · rfl
  · exact follows_leasedCommit _ (borne _ rfl rfl)

theorem follows_dropCoord (backed : ∀ committer, writer.coord = .exclusive committer → Backed committer phase) :
    Holding call phase (writer.dropCoord : Act Content _) := by
  unfold StreamWriter.dropCoord
  split
  next committer exclusive =>
    exact follows_mono (follows_dropCommitter (backed committer exclusive).1) (by rintro _ _ (rfl | rfl) <;> rfl)
  next => rfl

theorem follows_commitStream (carries : call = .use (.commitStream writer))
    (backed : ∀ committer, writer.coord = .exclusive committer → Backed committer phase) :
    Holding call phase (writer.commit artifact : Act Content _) := by
  have installs : Holding call phase (writer.install artifact : Act Content _) := by
    subst carries
    unfold StreamWriter.install
    split
    next committer exclusive =>
      refine follows_past (·.loadHead _ rfl) fun expect => ?_
      refine follows_leasedCommit _ (borne_of_committer ?_ rfl rfl (backed committer exclusive))
      simp [LeaseCall.committer, exclusive]
    next expect optimistic =>
      refine follows_leasedCommit _ (borne_of_none ?_ rfl)
      simp [LeaseCall.committer, optimistic]
  refine follows_then installs fun res later same => ?_
  refine follows_past (fun unleased =>
    every_forEach _ fun staged _ => every_bind (unleased.every_release _ _) fun _ => trivial) fun _ => ?_
  refine follows_then (follows_dropCoord fun committer exclusive => ?_) fun _ new same' => ?_
  · exact (backed committer exclusive).mono (by rw [same]; exact fun _ in_ => in_)
  · exact same'.trans same

theorem follows_appendBatch (writer : StreamWriter) (batch : RecordBatch Content) :
    (writer.appendBatch artifact batch).Follows (leaseMoves call)
      (fun out later => out.1.coord = writer.coord ∧ later = phase) phase := by
  refine follows_then (follows_unleased _ (·.every_writeBatchChunks _)) ?_
  rintro (reason | descs) _ rfl
  · exact ⟨rfl, rfl⟩
  show Follows _ (ite _ _ _) _ _
  split
  · refine follows_past (·.every_frees _) fun _ => ?_
    exact ⟨rfl, rfl⟩
  refine follows_then (follows_unleased _ (·.every_stageEach _ _ _ _)) ?_
  rintro (reason | staged) _ rfl
  · exact ⟨rfl, rfl⟩
  · exact ⟨rfl, rfl⟩

/-- Every call follows the protocol, and leaves what is in hand backed. -/
theorem follows_attend (ready : call.ready own) (unchecked : phase.checked = none) (tenant : Tenant own phase) :
    (attend artifact call).Follows (leaseMoves call)
      (fun answer later => Tenant ((call.given own).take answer) later) phase := by
  have plain {Value : Type} {program : Act Content Value} {wrap : Value → Answer}
      (follows : program.Follows (leaseMoves call) (fun _ later => phase.held ⊆ later.held) phase)
      (same : ∀ val, ((call.given own).take (wrap val)).committers = (call.given own).committers ∧
        ((call.given own).take (wrap val)).writers = (call.given own).writers := by exact fun _ => ⟨rfl, rfl⟩) :
      (wrap <$> program).Follows (leaseMoves call)
        (fun answer later => Tenant ((call.given own).take answer) later) phase := by
    refine follows_map (follows_mono follows fun val later kept => ?_)
    have given : Tenant (call.given own) later := by
      cases call with
      | use call => exact (tenant.give call).mono kept
      | replay => exact tenant.mono kept
    exact ⟨by rw [(same val).1]; exact given.committers, by rw [(same val).2]; exact given.writers⟩
  have eq {Value : Type} {program : Act Content Value}
      (follows : Holding call phase program) :
      program.Follows (leaseMoves call) (fun _ later => phase.held ⊆ later.held) phase :=
    follows_mono follows fun _ _ same => by rw [same]; exact fun _ in_ => in_
  have beside {Value : Type} {program : Act Content Value}
      (every : ∀ {kind : Kind Content}, Unleased kind → program.Every kind) :
      program.Follows (leaseMoves call) (fun _ later => phase.held ⊆ later.held) phase :=
    eq (holding_unleased every)
  cases call with
  | replay journal actorId =>
    exact plain (follows_mono (follows_forcing rfl (·.every_reclaimDead journal actorId)
      ⟨unchecked, fun _ in_ => in_⟩) fun _ _ kept => kept.2)
  | use call =>
    cases call with
    | evictAll =>
      exact plain (follows_mono (follows_forcing rfl (·.every_evictAll)
        ⟨unchecked, fun _ in_ => in_⟩) fun _ _ kept => kept.2) fun val => by cases val <;> exact ⟨rfl, rfl⟩
    | openExclusive owner journal =>
      refine follows_map (follows_mono (follows_openExclusive ready.1 journal unchecked) ?_)
      rintro (reason | committer) later ⟨kept, backed⟩
      · exact tenant.mono kept.2
      · refine ⟨fun other in_ => ?_, (tenant.mono kept.2).writers⟩
        rcases List.mem_cons.mp in_ with rfl | older
        · exact backed _ rfl
        · exact (tenant.mono kept.2).committers other older
    | closeExclusive committer =>
      exact plain (eq (follows_mono (follows_dropCommitter (tenant.committers committer ready.2).1)
        (by rintro _ _ (rfl | rfl) <;> rfl)))
    | commitOptimistic owner expect kind batch =>
      exact plain (eq (follows_leasedBatch _ _ _ _ _ _ fun req fence _ => borne_of_none rfl fence))
        fun _ => ⟨rfl, rfl⟩
    | commitExclusive committer kind batch =>
      refine plain (eq (follows_bind (follows_mono
        (follows_unleased _ (·.loadHead _ rfl)) ?_)))
      rintro expect _ rfl
      exact follows_leasedBatch _ _ _ _ _ _ fun req fence owner =>
        borne_of_committer rfl fence owner (tenant.committers committer ready.2)
    | evictOptimistic owner expect =>
      refine plain (eq ?_)
      unfold evictCurrentOptimistic
      split
      · rfl
      refine follows_past (·.loadHead _ rfl) fun schema => ?_
      exact follows_leasedCommit _ (borne_of_none rfl rfl)
    | evictExclusive committer =>
      refine plain (eq (follows_bind (follows_mono
        (follows_unleased _ (·.loadHead _ rfl)) ?_)))
      rintro expect _ rfl
      split
      · rfl
      refine follows_past (·.loadHead _ rfl) fun schema => ?_
      exact follows_leasedCommit _ (borne_of_committer rfl rfl rfl (tenant.committers committer ready.2))
    | openStream journal owner kind coordination =>
      refine follows_map ?_
      unfold StreamWriter.openWith
      split
      · exact tenant
      cases coordination with
      | optimistic expect =>
        refine ⟨tenant.committers, fun writer in_ committer exclusive => ?_⟩
        rcases List.mem_cons.mp in_ with rfl | older
        · cases exclusive
        · exact tenant.writers writer older committer exclusive
      | exclusive =>
        refine follows_then (follows_openExclusive ready.1 _ unchecked) ?_
        rintro (reason | committer) later ⟨kept, backed⟩
        · exact tenant.mono kept.2
        · refine ⟨(tenant.mono kept.2).committers, fun writer in_ other exclusive => ?_⟩
          rcases List.mem_cons.mp in_ with rfl | older
          · cases exclusive
            exact backed _ rfl
          · exact (tenant.mono kept.2).writers writer older other exclusive
    | append writer batch =>
      refine follows_map (follows_mono (follows_appendBatch writer batch) ?_)
      rintro ⟨writer', fault⟩ _ ⟨same, rfl⟩
      refine ⟨tenant.committers, fun other in_ committer exclusive => ?_⟩
      rcases List.mem_cons.mp in_ with rfl | older
      · exact tenant.writers writer ready.2 committer (same ▸ exclusive)
      · exact tenant.writers other (List.mem_of_mem_erase older) committer exclusive
    | commitStream writer =>
      exact plain (eq (follows_commitStream rfl (tenant.writers writer ready.2)))
    | abortStream writer =>
      refine plain (eq (follows_then (follows_unleased _ fun unleased =>
        every_forEach _ fun staged _ => unleased.every_unstage _ staged) ?_))
      rintro _ _ rfl
      exact follows_dropCoord (tenant.writers writer ready.2)
    | pin journal =>
      refine plain (beside (·.every_pinInner journal)) fun val => by cases val <;> exact ⟨rfl, rfl⟩
    | dropPin pin => exact plain (beside (·.every_dropPin pin))

end

end

end Fencing

section

open Fencing

variable {Content : Type} {artifact : Handle}

/-- The protocol of the labelled calls. -/
def tenureMoves (call : LeaseCall Content) : Protocol (Memory Content) (LeaseCall Content × LeaseSite) Tenure :=
  fun site phase later before after => site.1 = call ∧ Tenure.Move call site.2 phase later before after

/-- Between calls an actor has no check outstanding. -/
def Unoccupied (own : Own) (phase : Tenure) : Prop := phase.checked = none ∧ Tenant own phase

theorem follows_attendAndReturn (ready : call.ready own) (between : Unoccupied own phase) :
    ((attendAndReturn artifact call).label call).Follows (tenureMoves call)
      (fun answer later => Unoccupied ((call.given own).take answer) later) phase := by
  have inside : ((attend artifact call).within memoryWhole .access).Follows (Tenure.Move call)
      (fun answer later => Tenant ((call.given own).take answer) later) phase :=
    follows_within (fun _ _ _ _ _ move => move) (follows_attend ready between.1 between.2)
  refine follows_label (follows_loosen (fun _ _ _ _ _ move => ⟨rfl, move⟩) (follows_then inside ?_))
  intro answer later tenant mem
  exact ⟨_, .returned, rfl, tenant.mono fun _ in_ => in_⟩

def FenceLog.blank : FenceLog := ⟨[], []⟩

/-- No version is installed under a token the fence has been advanced past. -/
theorem fenceKept_of_reachable {config : LeaseRun Content FenceLog}
    (reached : (leaseUsers artifact FenceLog.note Unforced).Reachable (leaseless Content artifact .blank) config) :
    FenceKept config.history.events := by
  have start : (leaseUsers artifact FenceLog.note Unforced).Guided tenureMoves Governed Unoccupied (fun _ _ => True)
      (leaseless Content artifact .blank) := by
    refine ⟨fun _ => ⟨[], none⟩, ⟨nofun, nofun, nofun, nofun, ?_⟩, fun _ => ⟨rfl, nofun, nofun⟩⟩
    intro later earlier token fence same
    cases later <;> cases same
  have guided := guided_of_reachable start reached (fun _ _ _ _ _ _ _ _ => trivial)
    (fun own call phase ready between => ⟨trivial, follows_attendAndReturn ready between⟩)
    (fun call actor site later before after past phases governed unforced
      (move : tenureMoves call site (phases actor) later before after) => ?_)
  · obtain ⟨phases, governed, _⟩ := guided
    exact governed.kept
  · obtain ⟨called, place⟩ := site
    obtain ⟨rfl, move⟩ := move
    exact governed.moved unforced move

end

/-- A writer takes the lease; an evictor takes it away; the writer's commit finds
itself fenced out, and another writer's goes through. -/
def supplanting : List (Stretch (LeaseCall Nat)) :=
  [.begin 0 (.use (.openExclusive 1 none)), .run 0 9 1, .begin 1 (.use .evictAll), .run 1 85 1,
    .begin 0 (.use (.commitExclusive ⟨1, 0, none⟩ .replace (row 5))), .run 0 20 1,
    .begin 2 (.use (.openExclusive 3 none)), .run 2 9 1,
    .begin 2 (.use (.commitExclusive ⟨3, 2, none⟩ .replace (row 7))), .run 2 60 1]

theorem supplanting_fenceKept :
    let config := (leaseUsers small FenceLog.note Unforced).follow supplanting (leaseless Nat small .blank)
    config.history.events = [.installed 2, .released 1, .released 0] ∧
      FenceKept config.history.events := by
  have reached : (leaseUsers small FenceLog.note Unforced).Reachable (leaseless Nat small .blank)
      ((leaseUsers small FenceLog.note Unforced).follow supplanting (leaseless Nat small .blank)) :=
    reachable_follow supplanting .refl
  exact ⟨by decide +kernel, fenceKept_of_reachable reached⟩

/-- An eviction between a commit's fence check and its install. -/
def preempted : List (Stretch (LeaseCall Nat)) :=
  [.begin 0 (.use (.openExclusive 1 none)), .run 0 9 1,
    .begin 0 (.use (.commitExclusive ⟨1, 0, none⟩ .replace (row 5))), .run 0 8 1,
    .begin 1 (.use .evictAll), .run 1 600 1, .run 0 600 1]

theorem preempted_not_fenceKept : ∃ config : LeaseRun Nat FenceLog,
    (leaseUsers small FenceLog.note anyLeasing).Reachable (leaseless Nat small .blank) config ∧
      ¬FenceKept config.history.events := by
  refine ⟨(leaseUsers small FenceLog.note anyLeasing).follow preempted (leaseless Nat small .blank),
    reachable_follow preempted .refl, fun kept => ?_⟩
  have events : ((leaseUsers small FenceLog.note anyLeasing).follow preempted
      (leaseless Nat small .blank)).history.events = [.installed 0, .released 1, .released 0] := by
    decide +kernel
  have less := kept [] _ 0 0 events (by simp)
  omega

end ShmActors.Artifact
