import ShmActors.Lib.May
import ShmActors.Lib.Protocol
import ShmActors.Artifact.System

/-! The word of the write lease under any number of callers, with whatever owners
and tokens they come, and what they are told. -/

namespace ShmActors.Artifact

open Lib Core Program Actors

inductive LeaseOp where
  | acquire (owner : Nat)
  | release (owner token : Nat)
  | force
  deriving DecidableEq, Repr

/-- The pairs acquired and not released by who holds them, one taken away by force
among them, and how many releases there were. -/
structure LeaseLog where
  unreleased : List Lease
  releases : Nat
  deriving DecidableEq, Repr

/-- An operation that leaves the word as it is neither acquires nor releases. -/
def LeaseOp.note (op : LeaseOp) (before after : Lease) (log : LeaseLog) : LeaseLog :=
  if after = before then log
  else match op with
    | .acquire _ => ⟨after :: log.unreleased, log.releases⟩
    | .release owner token => ⟨log.unreleased.erase ⟨owner, token⟩, log.releases + 1⟩
    | .force => ⟨log.unreleased, log.releases + 1⟩

/-- What a call returns: `acquire` a token or nothing, a release whether it won. -/
inductive LeaseAnswer where
  | token (fence : Option Nat)
  | done (won : Bool)
  deriving DecidableEq, Repr

/-- An access to the word, by whom and for which operation. -/
structure LeaseAccess where
  actor : Nat
  op : LeaseOp
  before : Lease
  after : Lease
  deriving DecidableEq, Repr

structure LeaseHistory where
  log : LeaseLog
  events : List LeaseAccess
  deriving DecidableEq, Repr

section

variable {Content : Type}

def LeaseOp.program : LeaseOp → Act Content LeaseAnswer
  | .acquire owner => .token <$> acquireWriteLease owner
  | .release owner token => .done <$> releaseWriteLease owner token
  | .force => .done <$> forceReleaseWriteLease

/-- Any number of actors, each with any owner and any token at any time. They
remember their calls and the answers. -/
abbrev leaseCallers (Content : Type) :
    Actors (Memory Content) (LeaseOp × Site) LeaseHistory LeaseOp (List (LeaseOp × LeaseAnswer)) LeaseAnswer where
  program op := op.program.label op
  enabled _ _ := True
  start own _ := own
  finish own op answer := (op, answer) :: own
  track actor site before after history :=
    ⟨site.1.note before.head.writeLease after.head.writeLease history.log,
      ⟨actor, site.1, before.head.writeLease, after.head.writeLease⟩ :: history.events⟩
  allowed _ _ _ _ := True

abbrev LeaseCalls (Content : Type) :=
  Config (Memory Content) (LeaseOp × Site) LeaseHistory LeaseOp (List (LeaseOp × LeaseAnswer)) LeaseAnswer

def unacquired (Content : Type) (artifact : Handle) : LeaseCalls Content where
  state := (opening Content artifact).state
  history := ⟨⟨[], 0⟩, []⟩
  thread _ := .idle []

/-- What an access of an operation may do. -/
def LeaseOp.Alters (before after : Memory Content) : LeaseOp → Prop
  | .acquire owner => after = before ∨ before.head.writeLease.owner = ownerNone ∧
      after = writeLease.set ⟨owner, before.head.writeLease.fence⟩ before
  | .release owner token =>
    if before.head.writeLease = ⟨owner, token⟩ then after = writeLease.set ⟨ownerNone, token + 1⟩ before
    else after = before
  | .force => after = before ∨ before.head.writeLease.owner ≠ ownerNone ∧
      after = writeLease.set ⟨ownerNone, before.head.writeLease.fence + 1⟩ before

end

/-- The access that decides an operation, by its answer. -/
def LeaseOp.Tells (before after : Lease) : LeaseOp → LeaseAnswer → Prop
  | .acquire owner, .token (some fence) => before = ⟨ownerNone, fence⟩ ∧ after = ⟨owner, fence⟩
  | .acquire _, .token none => before.owner ≠ ownerNone ∧ after = before
  | .release owner token, .done true => before = ⟨owner, token⟩ ∧ after = ⟨ownerNone, token + 1⟩
  | .release owner token, .done false => before ≠ ⟨owner, token⟩ ∧ after = before
  | .force, .done true => before.owner ≠ ownerNone ∧ after = ⟨ownerNone, before.fence + 1⟩
  | .force, .done false => before.owner = ownerNone ∧ after = before
  | _, _ => False

/-- Each call of an actor is one of its accesses, the one that decided it; the
others leave the word as it is. -/
inductive Accounts : List (LeaseOp × LeaseAnswer) → List LeaseAccess → Prop where
  | nil : Accounts [] []
  | idle {event : LeaseAccess} (same : event.after = event.before) (rest : Accounts calls events) :
      Accounts calls (event :: events)
  | call (event : LeaseAccess) (told : event.op.Tells event.before event.after answer) (rest : Accounts calls events) :
      Accounts ((event.op, answer) :: calls) (event :: events)

/-- The accesses of an operation while the fence does not come round. The phase is
the calls that are decided. -/
def LeaseOp.moves (op : LeaseOp) : Protocol (Memory Content) (LeaseOp × Site) (List (LeaseOp × LeaseAnswer)) :=
  fun site phase later old new => site.1 = op ∧ ∀ log : LeaseLog, old.head.writeLease.fence = log.releases →
    (op.note old.head.writeLease new.head.writeLease log).releases < 2 ^ 32 → op.Alters old new ∧
      (later = phase ∧ new = old ∨
        ∃ answer, later = (op, answer) :: phase ∧ op.Tells old.head.writeLease new.head.writeLease answer)

/-- The fence counts the releases, and an unreleased pair is older than the fence
or, while the lease is held, the newest one. -/
structure Fenced (log : LeaseLog) (word : Lease) : Prop where
  counted : word.fence = log.releases
  newest : ∀ pair ∈ log.unreleased, pair.fence < log.releases ∨ pair.fence = log.releases ∧ word.owner ≠ ownerNone
  apart : log.unreleased.Pairwise fun new old => old.fence < new.fence

namespace Fenced

variable {op : LeaseOp}

theorem same (fenced : Fenced log word) : Fenced (op.note word word log) word := by
  rwa [show op.note word word log = log from if_pos rfl]

theorem acquired (fenced : Fenced log word) (free : word.owner = ownerNone) :
    Fenced (LeaseOp.note (.acquire owner) word ⟨owner, word.fence⟩ log) ⟨owner, word.fence⟩ := by
  unfold LeaseOp.note
  split
  next same => rwa [same]
  next diff =>
    have owned : owner ≠ ownerNone := by
      rintro rfl
      exact diff (free ▸ rfl)
    have older (pair : Lease) (in_ : pair ∈ log.unreleased) : pair.fence < log.releases :=
      (fenced.newest pair in_).resolve_right fun held => held.2 free
    refine ⟨fenced.counted, fun pair in_ => ?_, List.pairwise_cons.mpr ⟨fun pair in_ => ?_, fenced.apart⟩⟩
    · rcases List.mem_cons.mp in_ with rfl | in_
      · exact .inr ⟨fenced.counted, owned⟩
      · exact .inl (older pair in_)
    · show pair.fence < word.fence
      rw [fenced.counted]
      exact older pair in_

theorem released (fenced : Fenced log word) (fewer : left.Sublist log.unreleased)
    (noted : ∀ new, new ≠ word → op.note word new log = ⟨left, log.releases + 1⟩) :
    Fenced (op.note word ⟨ownerNone, word.fence + 1⟩ log) ⟨ownerNone, word.fence + 1⟩ := by
  rw [noted _ fun same => absurd (congrArg Lease.fence same) (Nat.succ_ne_self _)]
  refine ⟨congrArg Nat.succ fenced.counted, fun pair in_ => .inl ?_, fenced.apart.sublist fewer⟩
  rcases fenced.newest pair (fewer.subset in_) with less | held
  · exact Nat.lt_succ_of_lt less
  · exact Nat.lt_succ_of_le (Nat.le_of_eq held.1)

theorem step (fenced : Fenced log old.head.writeLease) (alters : op.Alters old new) :
    Fenced (op.note old.head.writeLease new.head.writeLease log) new.head.writeLease := by
  cases op with
  | acquire owner =>
    rcases alters with rfl | ⟨free, rfl⟩
    · exact fenced.same
    · exact fenced.acquired free
  | release owner token =>
    by_cases word : old.head.writeLease = ⟨owner, token⟩
    · rw [(if_pos word).mp alters]
      rw [word] at fenced ⊢
      exact fenced.released List.erase_sublist fun _ diff => if_neg diff
    · rw [(if_neg word).mp alters]
      exact fenced.same
  | force =>
    rcases alters with rfl | ⟨-, rfl⟩
    · exact fenced.same
    · exact fenced.released (List.Sublist.refl _) fun _ diff => if_neg diff

end Fenced

section

variable {op : LeaseOp}

/-- The word of a release, while the fence does not come round. -/
theorem released_eq (word : cur.fence = log.releases)
    (few : (op.note cur (.released cur.fence) log).releases < 2 ^ 32)
    (noted : ∀ new, new ≠ cur → (op.note cur new log).releases = log.releases + 1) :
    Lease.released cur.fence = ⟨ownerNone, cur.fence + 1⟩ := by
  rw [noted, ← word] at few
  · rw [Lease.released, Nat.mod_eq_of_lt few]
  · intro same
    have fences : (cur.fence + 1) % 2 ^ 32 = cur.fence := congrArg Lease.fence same
    omega

theorem moves_idle {mem : Memory Content} (alters : op.Alters mem mem) : op.moves (op, site) phase phase mem mem :=
  ⟨rfl, fun _ _ _ => ⟨alters, .inl ⟨rfl, rfl⟩⟩⟩

theorem moves_told {mem new : Memory Content} (answer : LeaseAnswer) (alters : op.Alters mem new)
    (told : op.Tells mem.head.writeLease new.head.writeLease answer) :
    op.moves (op, site) phase ((op, answer) :: phase) mem new :=
  ⟨rfl, fun _ _ _ => ⟨alters, .inr ⟨answer, rfl, told⟩⟩⟩

/-- The exchange that frees a lease. -/
theorem moves_released {mem : Memory Content} (word : mem.head.writeLease = cur)
    (noted : ∀ log new, new ≠ cur → (op.note cur new log).releases = log.releases + 1)
    (alters : op.Alters mem (writeLease.set ⟨ownerNone, cur.fence + 1⟩ mem))
    (told : op.Tells cur ⟨ownerNone, cur.fence + 1⟩ (.done true)) :
    op.moves (op, site) phase ((op, .done true) :: phase) mem (writeLease.set (.released cur.fence) mem) := by
  subst word
  refine ⟨rfl, fun log counted few => ?_⟩
  rw [released_eq counted few (noted log)]
  exact ⟨alters, .inr ⟨_, rfl, told⟩⟩

theorem follows_program (op : LeaseOp) (own : List (LeaseOp × LeaseAnswer)) :
    (op.program : Act Content LeaseAnswer).Follows (fun site => op.moves (op, site))
      (fun answer later => later = (op, answer) :: own) own := by
  cases op with
  | acquire owner =>
    refine follows_map (follows_repeatLoop (fun phase (same : phase = own) => ?_) rfl)
    subst same
    refine follows_load_ite (fun mem held => ⟨_, moves_told (.token none) (.inl rfl) ⟨held, rfl⟩, rfl⟩)
      fun mem free => ⟨_, moves_idle (.inl rfl), ?_⟩
    refine follows_bind (follows_compareExchange (fun now word => ?_) fun _ _ => ⟨_, moves_idle (.inl rfl), rfl⟩)
    have owner := not_not.mp free
    rw [← word] at owner ⊢
    exact ⟨_, moves_told (.token (some _)) (.inr ⟨owner, rfl⟩) ⟨owner ▸ rfl, rfl⟩, rfl⟩
  | release owner token =>
    refine follows_map (follows_bind (follows_compareExchange (fun mem word => ⟨_, moves_released word ?_ ?_ ?_, rfl⟩)
      fun mem diff => ⟨_, moves_told (.done false) ((if_neg diff).mpr rfl) ⟨diff, rfl⟩, rfl⟩))
    · exact fun log new diff => by rw [LeaseOp.note, if_neg diff]
    · exact (if_pos word).mpr rfl
    · exact ⟨rfl, rfl⟩
  | force =>
    refine follows_map (follows_repeatLoop (fun phase (same : phase = own) => ?_) rfl)
    subst same
    refine follows_load_ite (fun mem free => ⟨_, moves_told (.done false) (.inl rfl) ⟨free, rfl⟩, rfl⟩)
      fun mem held => ⟨_, moves_idle (.inl rfl), ?_⟩
    refine follows_bind (follows_compareExchange (fun now word => ⟨_, moves_released word ?_ ?_ ?_, rfl⟩)
      fun _ _ => ⟨_, moves_idle (.inl rfl), rfl⟩)
    · exact fun log new diff => by rw [LeaseOp.note, if_neg diff]
    · rw [← word] at held ⊢
      exact .inr ⟨held, rfl⟩
    · exact ⟨held, rfl⟩

theorem releases_le_note (op : LeaseOp) (old new : Lease) (log : LeaseLog) :
    log.releases ≤ (op.note old new log).releases := by
  unfold LeaseOp.note
  split
  · exact Nat.le_refl _
  cases op with
  | acquire => exact Nat.le_refl _
  | release | force => exact Nat.le_succ _

theorem releases_le (later : (leaseCallers Content).Reachable middle run) :
    middle.history.log.releases ≤ run.history.log.releases := by
  induction later with
  | refl => exact Nat.le_refl _
  | tail _ step ih =>
    cases step with
    | start | pick => exact ih
    | act => exact ih.trans (releases_le_note _ _ _ _)

def LeaseHistory.of (history : LeaseHistory) (actor : Nat) : List LeaseAccess :=
  history.events.filter (·.actor = actor)

/-- What the runs keep until the fence comes round. -/
def Recorded (history : LeaseHistory) (memory : Memory Content)
    (calls : Nat → List (LeaseOp × LeaseAnswer)) : Prop :=
  history.log.releases < 2 ^ 32 →
    Fenced history.log memory.head.writeLease ∧ ∀ actor, Accounts (calls actor) (history.of actor)

theorem keeps_recorded : (leaseCallers Content).Keeps LeaseOp.moves Recorded := by
  rintro op actor site later old new history calls ok - ⟨rfl, move⟩ few
  obtain ⟨fenced, accounts⟩ := ok ((releases_le_note _ _ _ _).trans_lt few)
  obtain ⟨alters, told⟩ := move _ fenced.counted few
  refine ⟨fenced.step alters, fun other => ?_⟩
  show Accounts _ ((LeaseAccess.mk actor site.1 _ _ :: history.events).filter (·.actor = other))
  by_cases mine : other = actor
  · subst mine
    rw [Function.update_self, List.filter_cons_of_pos (by simp)]
    rcases told with ⟨rfl, rfl⟩ | ⟨answer, rfl, told⟩
    · exact .idle rfl (accounts other)
    · exact .call ⟨other, site.1, _, _⟩ told (accounts other)
  · rw [Function.update_of_ne mine, List.filter_cons_of_neg (by simpa using Ne.symm mine)]
    exact accounts other

theorem guided_leaseCallers (reached : (leaseCallers Content).Reachable (unacquired Content artifact) run) :
    (leaseCallers Content).Guided LeaseOp.moves Recorded (fun own calls => calls = own) (fun _ _ => True) run := by
  refine guided_of_reachable ?_ reached (fun _ _ _ _ _ _ _ _ => trivial) ?_ keeps_recorded
  · exact ⟨fun _ => [], fun _ => ⟨⟨rfl, by simp [unacquired], .nil⟩, fun _ => .nil⟩, fun _ => rfl⟩
  · rintro own op _ - rfl
    exact ⟨trivial, follows_label (follows_program op _)⟩

end

/-- Of the pairs acquired and not released at most one is the word; the fence
counts the releases and so never goes back; each access does what its operation
says, a release of another pair than the word nothing; and what an actor was told
is what its accesses did. -/
structure Excludes {Content : Type} (middle run : LeaseCalls Content) : Prop where
  one : run.history.log.unreleased.count run.state.head.writeLease ≤ 1
  counted : run.state.head.writeLease.fence = run.history.log.releases
  forward : middle.state.head.writeLease.fence ≤ run.state.head.writeLease.fence
  accesses : ∀ actor op site after, run.upcoming actor = some (op, site, after) →
    (op.note run.state.head.writeLease after.head.writeLease run.history.log).releases < 2 ^ 32 →
    op.Alters run.state after
  told : ∀ actor own, run.thread actor = .idle own → Accounts own (run.history.of actor)

theorem lease_excludes {Content : Type} {artifact : Handle} {middle run : LeaseCalls Content}
    (earlier : (leaseCallers Content).Reachable (unacquired Content artifact) middle)
    (later : (leaseCallers Content).Reachable middle run) (few : run.history.log.releases < 2 ^ 32) :
    Excludes middle run := by
  obtain ⟨calls, recorded, threads⟩ := guided_leaseCallers (earlier.trans later)
  obtain ⟨fenced, accounts⟩ := recorded few
  have more := releases_le later
  obtain ⟨_, before, _⟩ := guided_leaseCallers earlier
  refine ⟨?_, fenced.counted, ?_, fun actor op site after coming few => ?_, fun actor own idle => ?_⟩
  · refine List.nodup_iff_count_le_one.mp (fenced.apart.imp fun less same => ?_) _
    rw [same] at less
    exact Nat.lt_irrefl _ less
  · rw [(before (more.trans_lt few)).1.counted, fenced.counted]
    exact more
  · obtain ⟨own, update, next, running, rfl⟩ := Config.running_of_upcoming coming
    have thread := threads actor
    rw [running] at thread
    obtain ⟨_, ⟨_, move⟩, _⟩ := thread.2 run.state
    exact (move _ fenced.counted few).1
  · have thread := threads actor
    rw [idle] at thread
    exact thread ▸ accounts actor

/-- A lease is taken by force from its holder and acquired anew, by the same owner;
the first holder comes back with its token, and then the second with the right one. -/
def returning : List (Stretch LeaseOp) :=
  [.begin 0 (.acquire 5), .run 0 3 1, .begin 1 .force, .run 1 3 1, .begin 2 (.acquire 5), .run 2 3 1,
    .begin 0 (.release 5 0), .run 0 1 1, .begin 2 (.release 5 1), .run 2 1 1]

theorem returning_excludes :
    let run := (leaseCallers Nat).follow returning (unacquired Nat small)
    run.thread 0 = .idle [(.release 5 0, .done false), (.acquire 5, .token (some 0))] ∧
    run.thread 2 = .idle [(.release 5 1, .done true), (.acquire 5, .token (some 1))] ∧
    run.history.log = ⟨[⟨5, 0⟩], 2⟩ ∧ Excludes (unacquired Nat small) run := by
  have reached : (leaseCallers Nat).Reachable (unacquired Nat small)
      ((leaseCallers Nat).follow returning (unacquired Nat small)) := reachable_follow returning .refl
  have history : ((leaseCallers Nat).follow returning (unacquired Nat small)).history.log =
      ⟨[⟨5, 0⟩], 2⟩ := by decide +kernel
  exact ⟨rfl, rfl, history, lease_excludes .refl reached (by rw [history]; decide)⟩

end ShmActors.Artifact
