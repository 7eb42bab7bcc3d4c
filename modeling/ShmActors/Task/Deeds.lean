import ShmActors.Task.QueueRuns
import ShmActors.Task.Telling

/-! What every access of the task queue does to the tasks, said once: the slot
its actor holds, what the actor was doing, and what it does next. Invariants
over whole runs are proved deed by deed. -/

namespace ShmActors.Task

open Lib Core Program Function Actors

/-- What an operation is in the middle of, beyond the slots in its hands. -/
inductive Doing where
  | nothing
  -- submit: the sequence number loaded, the new one stored, the retries reset
  | numbered (slot seq : Nat)
  | renewed (slot : Nat)
  | fresh (slot : Nat)
  -- claim: won, its lease still to be stored
  | claimed (slot deadline : Nat)
  -- complete: won, and its result stored
  | completing (slot : Nat)
  | answered (slot : Nat) (result : ChunkDesc)
  -- reap: what it has read of a slot, and its requeue won and counted
  | seen (slot : Nat)
  | dated (slot deadline : Nat)
  | counted (slot deadline retry : Nat)
  | requeuing (slot retry : Nat)
  | requeued (slot : Nat)
  -- poll
  | asked (handle : TaskHandle)
  | found (handle : TaskHandle)
  | read (handle : TaskHandle) (result : ChunkDesc)
  | replying (handle : TaskHandle) (outcome : Except QueueError TaskStatus)

namespace Doing

/-- The slot in hand that the work is about. -/
def hold : Doing → Option (Nat × Mode)
  | numbered slot _ | renewed slot | fresh slot | requeuing slot _ | requeued slot => some (slot, .reserved)
  | completing slot | answered slot _ => some (slot, .completing)
  | _ => none

/-- After a claim: its lease is still to be stored, if it has one. -/
def claiming (slot : Nat) : Option Nat → Doing
  | some deadline => claimed slot deadline
  | none => nothing

def Backed (held : Held) (doing : Doing) : Prop :=
  ∀ slot mode, doing.hold = some (slot, mode) → held.slots slot = some mode

end Doing

/-- What a poll reports of a state, unless it has to read the result first. -/
def pollReport : TaskState → Option (Except QueueError TaskStatus)
  | .queued | .reserved => some (.ok .queued)
  | .claimed | .completing => some (.ok .claimed)
  | .done => none
  | .failed => some (.ok .failed)
  | .cancelled => some (.ok .cancelled)
  | .empty => some (.error .staleHandle)

/-- The labels of accesses no history follows. -/
def Stage.calm : Stage → Bool
  | .plain | .lease _ | .check _ | .withdraw _ | .cancel _ => true
  | _ => false

/-- The same task in the same state. -/
def TaskSlot.Same (slot other : TaskSlot) : Prop :=
  other.state = slot.state ∧ other.seq = slot.seq ∧ other.deadline = slot.deadline ∧
    other.retry = slot.retry ∧ other.result = slot.result

/-- Those who may claim under this lease, and those who may reap. -/
def MayWork (may : Call → Prop) (lease : Option Nat) : Prop :=
  ∃ workerId outputs verdict, may (.work workerId lease outputs verdict)

def MayReap (may : Call → Prop) : Prop := ∃ now, may (.reap now)

section

variable (queue : Queue) (may : Call → Prop) (held : Held)

/-- The deeds: an actor that holds `held` makes an access at `site`, in the
middle of one thing, and goes on to the next. Its calls are those it `may` make. -/
inductive Deed :
    Stage × Site → Doing → Doing → Memory → Memory → Prop where
  | aside (calm : stage.calm = true) (plain : turnOf site = none)
      (same : ∀ slot, (before.slot slot).Same (after.slot slot)) :
      Deed (stage, site) doing doing before after
  | reserve (spent : held.slots slot = some .spent) :
      Deed (.plain, .reserve slot) .nothing .nothing before ((stateOf slot).set .reserved before)
  | recover (live : held.slots slot = some .live) :
      Deed (.plain, .recover slot) .nothing .nothing before
        (exchanged slot .cancelled .reserved before)
  | number (reserved : held.slots slot = some .reserved) :
      Deed (.number slot, .field) .nothing (.numbered slot (before.slot slot).seq) before
        before
  | renew (reserved : held.slots slot = some .reserved) :
      Deed (.renew slot, .field) (.numbered slot seq) (.renewed slot) before
        ((seqOf slot).set ((seq + 1) % 2 ^ 64) before)
  | reset (reserved : held.slots slot = some .reserved) :
      Deed (.reset slot, .field) (.renewed slot) (.fresh slot) before ((retryOf slot).set 0 before)
  | due (reserved : held.slots slot = some .reserved) :
      Deed (.due slot, .field) (.fresh slot) (.fresh slot) before
        ((deadlineOf slot).set deadline before)
  | clear (reserved : held.slots slot = some .reserved) :
      Deed (.clear slot, .field) (.fresh slot) (.fresh slot) before ((resultOf slot).set .zero before)
  | publish (reserved : held.slots slot = some .reserved)
      (ready : doing = .fresh slot ∨ doing = .requeued slot) :
      Deed (.plain, .publish slot) doing .nothing before ((stateOf slot).set .queued before)
  | claim (worker : MayWork may lease) (live : held.slots slot = some .live) :
      Deed (.lease lease, .claim slot) .nothing
        (if (before.slot slot).state = .queued then .claiming slot lease else .nothing) before
        (exchanged slot .queued .claimed before)
  | stamp :
      Deed (.stamp slot, .field) (.claimed slot deadline) .nothing before
        ((deadlineOf slot).set deadline before)
  | complete (known : slot < queue.capacity) :
      Deed (.plain, .complete slot) .nothing
        (if (before.slot slot).state = .claimed then .completing slot else .nothing) before
        (exchanged slot .claimed .completing before)
  | answer (completing : held.slots slot = some .completing) :
      Deed (.answer slot, .field) (.completing slot) (.answered slot result) before
        ((resultOf slot).set result before)
  | finish (completing : held.slots slot = some .completing) :
      Deed (.plain, .finish slot) (.answered slot result) .nothing before
        ((stateOf slot).set .done before)
  | fail (known : slot < queue.capacity) :
      Deed (.plain, .fail slot) .nothing .nothing before (exchanged slot .claimed .failed before)
  | see (reaper : MayReap may) (known : slot < queue.capacity) :
      Deed (.see slot, .field) .nothing
        (if (before.slot slot).state = .claimed then .seen slot else .nothing) before before
  | date :
      Deed (.date slot now, .field) (.seen slot)
        (if (before.slot slot).deadline < now then .dated slot (before.slot slot).deadline else .nothing)
        before before
  | count :
      Deed (.count slot, .field) (.dated slot deadline)
        (.counted slot deadline (before.slot slot).retry) before before
  | giveUp (known : slot < queue.capacity) (lapsed : deadline < now)
      (tried : queue.maxRetries ≤ retry) :
      Deed (.lapse slot now, .fail slot) (.counted slot deadline retry) .nothing before
        (exchanged slot .claimed .failed before)
  | requeue (known : slot < queue.capacity) (lapsed : deadline < now)
      (left : retry < queue.maxRetries) :
      Deed (.lapse slot now, .requeue slot) (.counted slot deadline retry)
        (if (before.slot slot).state = .claimed then .requeuing slot retry else .nothing) before
        (exchanged slot .claimed .reserved before)
  | again (reserved : held.slots slot = some .reserved) :
      Deed (.again slot, .field) (.requeuing slot retry) (.requeued slot) before
        ((retryOf slot).set (retry + 1) before)
  | cancel (known : handle.slotIdx < queue.capacity) :
      Deed (.withdraw handle, .cancel handle.slotIdx) .nothing .nothing before
        (exchanged handle.slotIdx .queued .cancelled before)
  | ask (known : handle.slotIdx < queue.capacity) :
      Deed (.ask handle, .field) .nothing
        (if (before.slot handle.slotIdx).seq = handle.seq then .asked handle
          else .replying handle (.error .staleHandle)) before before
  | look (known : handle.slotIdx < queue.capacity) :
      Deed (.look handle, .field) (.asked handle)
        (match pollReport (before.slot handle.slotIdx).state with
          | none => .found handle
          | some outcome => .replying handle outcome) before before
  | read :
      Deed (.read handle, .field) (.found handle)
        (.read handle (before.slot handle.slotIdx).result) before before
  | recheck :
      Deed (.recheck handle, .field) (.read handle result)
        (.replying handle (if (before.slot handle.slotIdx).seq = handle.seq then .ok (.done result)
          else .error .staleHandle)) before before
  | reply
      (answers : doing = .replying handle outcome ∨ doing = .nothing ∧ outcome = .error .staleHandle) :
      Deed (.reply handle outcome, .field) doing .nothing before before

end

/-- Accesses that no task notices. -/
def Untouched (site : Site) (update : Memory → Memory) : Prop :=
  turnOf site = none ∧ ∀ (memory : Memory) slot, (memory.slot slot).Same ((update memory).slot slot)

/-- Accesses that neither membership nor any task notices. -/
def Passing (site : Stage × Site) (update : Memory → Memory) : Prop :=
  site.1.calm = true ∧ Elsewhere site.2 update ∧ Untouched site.2 update

section

variable {doings : Nat → Doing}

/-- Nobody else is in the middle of something with a slot in one's hands. -/
theorem hold_alone (owned : (ownership queue).inv log mem hands)
    (backed : ∀ other, (doings other).Backed (hands other).2)
    (mine : (hands who).2.slots slot = some mode) (other : Nat) (ne : other ≠ who) (mode' : Mode) :
    (doings other).hold ≠ some (slot, mode') := by
  intro held
  have taken := backed other slot mode' held
  rw [alone_of_inv owned (by simp [mine]) ne] at taken
  cases taken

/-- A slot that an operation is in the middle of something with is reserved or completing. -/
theorem state_of_hold (owned : (ownership queue).inv log mem hands)
    (backed : ∀ other, (doings other).Backed (hands other).2) (held : (doings who).hold = some (slot, mode)) :
    (mem.slot slot).state = .reserved ∨ (mem.slot slot).state = .completing := by
  have may := (state_of_inv owned (backed who slot mode held)).2
  cases doing : doings who <;> rw [doing] at held <;> cases held
  all_goals first | exact .inl may | exact .inr may

end

section

variable {History Op Local Result Past : Type} {queue : Queue} {may : Nat → Call → Prop}
  {actors : Actors Memory (Stage × Site) History Op Local Result} {view : History → Tags Shard × List Event}
  {extra : History → Memory → (Nat → Doing) → Prop} {site : Site}

/-- The deeds keep an invariant. -/
def KeepsDeeds (queue : Queue) (may : Nat → Call → Prop)
    (actors : Actors Memory (Stage × Site) History Op Local Result)
    (view : History → Tags Shard × List Event) (extra : History → Memory → (Nat → Doing) → Prop) : Prop :=
  ∀ actor site history before after hands doings later, (ownership queue).inv (view history) before hands →
    (∀ other, (doings other).Backed (hands other).2) → extra history before doings →
    actors.allowed actor site before history →
    Deed queue (may actor) (hands actor).2 site (doings actor) later before after →
    extra (actors.track actor site before after history) after (update doings actor later)

/-- The invariant, with what everyone is in the middle of backed by what they hold. -/
def Minded (extra : History → Memory → (Nat → Doing) → Prop) (history : History) (memory : Memory)
    (hands : Nat → Hands) (doings : Nat → Doing) : Prop :=
  (∀ actor, (doings actor).Backed (hands actor).2) ∧ extra history memory doings

/-- The specification of code under one label. -/
abbrev Minds (follows : Follows queue actors view) (extra : History → Memory → (Nat → Doing) → Prop)
    (stage : Stage) (actor : Nat) {Value : Type} (code : Code Value) (post : Value → Held → Doing → Prop)
    (held : Held) (doing : Doing) : Prop :=
  Tells follows (Minded extra) stage actor code post held doing

/-- The specification of staged code. -/
def Says (_follows : Follows queue actors view) (extra : History → Memory → (Nat → Doing) → Prop)
    (actor : Nat) {Value : Type} (program : Steps Value) (post : Value → Held → Doing → Prop) (held : Held)
    (doing : Doing) : Prop :=
  actors.wp (both (fun history => (ownership queue).inv (view history)) (Minded extra)) actor program
    (fun value kept => kept.1.1 = none ∧ post value kept.1.2 kept.2) ((none, held), doing)

variable {follows : Follows queue actors view} (keeps : KeepsDeeds queue may actors view extra)
  {program : Steps Value}

theorem says_ret (holds : post val held doing) : Says follows extra actor (.ret val) post held doing :=
  ⟨rfl, holds⟩

theorem says_mono (holds : Says follows extra actor program one held doing)
    (weaker : ∀ val kept next, one val kept next → two val kept next) :
    Says follows extra actor program two held doing :=
  wp_mono holds fun _ _ new => ⟨new.1, weaker _ _ _ new.2⟩

theorem says_bind
    (holds : Says follows extra actor program
      (fun val kept next => Says follows extra actor (rest val) post kept next) held doing) :
    Says follows extra actor (program >>= rest) post held doing := by
  refine wp_then holds fun val kept new => ?_
  obtain ⟨idle, later⟩ := new
  rw [show kept = ((none, kept.1.2), kept.2) from Prod.ext (Prod.ext idle rfl) rfl]
  exact later

theorem says_then
    (holds : Says follows extra actor program one held doing)
    (later : ∀ val kept next, one val kept next → Says follows extra actor (rest val) post kept next) :
    Says follows extra actor (program >>= rest) post held doing :=
  says_bind (says_mono holds later)

theorem says_label (holds : Minds follows extra stage actor code post held doing) :
    Says follows extra actor (code.label stage) post held doing :=
  wp_label holds

include keeps

/-- One access: a deed of its actor. -/
theorem minds_deed {update : Memory → Memory} {val : Memory → Value}

    (does : Does queue actor (.act site update fun mem => .ret (val mem))
      post held)
    (deed : ∀ mem kept, doing.Backed held → post (val mem) kept → ∃ next,
      Deed queue (may actor) held (stage, site) doing next mem (update mem) ∧ next.Backed kept ∧
        goal (val mem) kept next) :
    Minds follows extra stage actor (.act site update fun mem => .ret (val mem)) goal held doing := by
  apply tells_act does
  rintro past mem hands doings kept owned ⟨backed, ok⟩ mine noted allowed new
  have old := backed actor
  rw [mine, noted] at old
  obtain ⟨next, deed, own, reached⟩ := deed mem kept old new
  refine ⟨next, ⟨fun other => ?_, ?_⟩, reached⟩
  · by_cases same : other = actor
    · subst same
      simpa using own
    · simpa [same] using backed other
  · apply keeps actor (stage, site) past mem _ hands doings next owned backed ok allowed
    rw [mine, noted]
    exact deed

/-- Stack loops, by an actor in the middle of nothing that needs a slot. -/
theorem minds_calm (calm : stage.calm = true)
    (does : Does queue actor code post held) (every : code.Every Untouched) (free : doing.hold = none) :
    Minds follows extra stage actor code (fun val kept next => post val kept ∧ next = doing) held doing := by
  refine tells_beside does (every_mono every ?_)
  rintro site update ⟨plain, same⟩ past mem hands doings kept owned ⟨backed, ok⟩ noted may _
  refine ⟨fun other => ?_, ?_⟩
  · by_cases mine : other = actor
    · subst mine
      intro slot mode held
      rw [noted, free] at held
      cases held
    · simpa [mine] using backed other
  · have new := keeps actor (stage, site) past mem (update mem) hands doings (doings actor) owned
      backed ok may (.aside calm plain (same mem))
    rwa [update_eq_self] at new

/-- An exchange of a state word, by what its winner and its loser go on to. -/
theorem minds_exchange (does : Does queue actor
      (compareExchange site (stateOf slot) now new : Code _)
      (fun got kept => if got = none then kept = won else kept = lost) held)
    (deed : ∀ mem : Memory, Deed queue (may actor) held (stage, site) doing
      (if (mem.slot slot).state = now then one else two) mem (exchanged slot now new mem))
    (backed : one.Backed won ∧ two.hold = none) (winner : goal none won one)
    (loser : ∀ st, goal (some st) lost two) :
    Minds follows extra stage actor (compareExchange site (stateOf slot) now new) goal held doing := by
  apply minds_deed keeps does
  intro mem kept _ after
  refine ⟨_, deed mem, ?_⟩
  by_cases got : (stateOf slot).get mem = now
  · rw [if_pos got, if_pos rfl] at after
    subst after
    rw [if_pos got, if_pos (show (mem.slot slot).state = now from got)]
    exact ⟨backed.1, winner⟩
  · rw [if_neg got, if_neg (by simp)] at after
    subst after
    rw [if_neg got, if_neg (show ¬ (mem.slot slot).state = now from got)]
    refine ⟨fun slot mode held => ?_, loser _⟩
    rw [backed.2] at held
    cases held

theorem minds_still (calm : stage.calm = true)
    (every : code.Every fun site update => Elsewhere site update ∧ Untouched site update) :
    Minds follows extra stage actor code (fun _ kept next => kept = held ∧ next = doing) held doing := by
  refine tells_aside (every_mono every ?_)
  rintro site update ⟨elsewhere, plain, same⟩
  refine ⟨elsewhere, fun past mem hands doings owned ⟨backed, ok⟩ _ _ may => ⟨backed, ?_⟩⟩
  have new := keeps actor (stage, site) past mem (update mem) hands doings (doings actor) owned backed ok may
    (.aside calm plain (same mem))
  rwa [update_eq_self] at new

theorem says_still (every : program.Every Passing) :
    Says follows extra actor program (fun _ kept next => kept = held ∧ next = doing) held doing := by
  induction program with
  | ret val => exact ⟨rfl, rfl, rfl⟩
  | act site update next ih =>
    obtain ⟨⟨calm, quiet⟩, later⟩ := every
    have one : (.act site.2 update fun mem => .ret mem : Code Memory).Every fun site update =>
        Elsewhere site update ∧ Untouched site update := ⟨quiet, fun _ => trivial⟩
    refine says_then (says_label (minds_still keeps calm one)) ?_
    rintro mem _ _ ⟨rfl, rfl⟩
    exact ih mem (later mem)
  | pick next ih => exact fun choice => ih choice (every choice)
  | halt => trivial

end

section

theorem TaskSlot.Same.refl (slot : TaskSlot) : slot.Same slot := ⟨rfl, rfl, rfl, rfl, rfl⟩

theorem stacked_untouched : Stacked Untouched where
  pop _ _ _ keeps := ⟨rfl, fun mem _ => keeps mem ▸ .refl _⟩
  push _ _ _ _ keeps := ⟨rfl, fun mem _ => keeps mem ▸ .refl _⟩

theorem admits_untouched : Admits fun site update => Elsewhere site update ∧ Untouched site update := by
  intro update keeps
  refine ⟨admits_elsewhere update keeps, rfl, fun mem slot => ?_⟩
  rw [(keeps mem).2.2]
  exact .refl _

theorem admits_passing : Admits fun site => Passing (.plain, site) :=
  fun update keeps => ⟨rfl, admits_untouched update keeps⟩

theorem passing_load (cell : Ref Memory Value) : (load (.plain, .field) cell : Steps Value).Every Passing :=
  Staged.every_read admits_passing cell

section

variable (idx : Nat)

/-- A field of a slot that the task does not depend on. -/
theorem passing_field {get : TaskSlot → Value} {set : Value → TaskSlot → TaskSlot} (val : Value)
    (same : ∀ slot : TaskSlot, slot.Same (set val slot)) :
    (store (.plain, .field) ((slotRef idx).field get set) val : Steps Unit).Every Passing := by
  have kept (mem : Memory) (slot : Nat) :
      (mem.slot slot).Same ((((slotRef idx).field get set).set val mem).slot slot) := by
    by_cases eq : slot = idx
    · subst eq
      simpa [slotRef, Ref.field] using same (mem.slot slot)
    · simpa [slotRef, Ref.field, eq] using TaskSlot.Same.refl _
  exact ⟨⟨rfl, ⟨rfl, fun mem => ⟨rfl, rfl, fun slot => (kept mem slot).1⟩⟩, rfl, kept⟩, fun _ => trivial⟩

theorem passing_ownerOf (owner : Nat) : (store (.plain, .field) (ownerOf idx) owner : Steps Unit).Every Passing :=
  passing_field idx owner fun _ => ⟨rfl, rfl, rfl, rfl, rfl⟩

theorem passing_cancelOf (cancel : Nat) : (store (.plain, .field) (cancelOf idx) cancel : Steps Unit).Every Passing :=
  passing_field idx cancel fun _ => ⟨rfl, rfl, rfl, rfl, rfl⟩

theorem passing_requestOf (req : ChunkDesc) :
    (store (.plain, .field) (requestOf idx) req : Steps Unit).Every Passing :=
  passing_field idx req fun _ => ⟨rfl, rfl, rfl, rfl, rfl⟩

end

variable {doing : Doing}

theorem Doing.backed_of_free (free : doing.hold = none) : doing.Backed held := by
  intro slot mode kept
  rw [free] at kept
  cases kept

theorem Held.backed_set (about : doing.hold = some (slot, mode)) :
    doing.Backed (Held.nothing.set slot (some mode)) := by
  intro entry kept same
  rw [about] at same
  cases same
  simp

end

section

variable {History Op Local Result : Type} {queue : Queue} {may : Nat → Call → Prop}
  {actors : Actors Memory (Stage × Site) History Op Local Result} {view : History → Tags Shard × List Event}
  {extra : History → Memory → (Nat → Doing) → Prop} {follows : Follows queue actors view}
  (keeps : KeepsDeeds queue may actors view extra) {actor slot : Nat} {Value Other : Type} {held : Held}
  {one doing : Doing} {rest : Value → Steps Other}

/-- What a search for a slot leaves: nothing, or a reserved slot in hand. -/
def Reserves (queue : Queue) (found : Option Nat) (held : Held) (doing : Doing) : Prop :=
  doing = .nothing ∧ match found with
    | none => held = .nothing
    | some slot => slot < queue.capacity ∧ held = Held.nothing.set slot (some .reserved)

include keeps

theorem minds_reserveFree : Minds follows extra .plain actor reserveFree (Reserves queue) .nothing .nothing := by
  have popped : Does queue actor popFree (fun got kept => match got with
      | none => kept = .nothing
      | some slot => slot < queue.capacity ∧ kept = Held.nothing.set slot (some .spent)) .nothing :=
    does_popFree rfl fun slot known _ => ⟨known, rfl⟩
  apply tells_then (minds_calm keeps rfl popped stacked_untouched.popFree rfl)
  rintro got kept _ ⟨holds, rfl⟩
  cases got with
  | none => exact tells_ret ⟨rfl, holds⟩
  | some slot =>
    obtain ⟨known, rfl⟩ := holds
    have spent : (Held.nothing.set slot (some .spent)).slots slot = some .spent := by simp
    have stored : Does queue actor
        (store (.reserve slot) (stateOf slot) .reserved : Code Unit)
        (fun _ kept => kept = Held.nothing.set slot (some .reserved))
        (Held.nothing.set slot (some .spent)) :=
      does_storeState .reserved rfl (fun _ _ _ => rfl) spent (by simp) rfl (fun _ _ => rfl)
        (Held.set_set _ _ _ _)
    apply tells_bind
    apply minds_deed keeps stored
    rintro mem _ - rfl
    exact ⟨.nothing, .reserve spent, Doing.backed_of_free rfl, tells_ret ⟨rfl, known, rfl⟩⟩

theorem minds_uncount (calm : stage.calm = true) (owed : held.owes = true) :
    Minds follows extra stage actor uncountCancelled
      (fun _ kept next => kept = held.owing false ∧ next = .nothing) held .nothing := by
  have does : Does queue actor uncountCancelled (fun _ kept => kept = held.owing false)
      held := does_uncountCancelled owed fun _ => rfl
  apply minds_deed keeps does
  rintro mem _ - rfl
  exact ⟨.nothing, .aside calm rfl fun _ => .refl _, Doing.backed_of_free rfl, rfl, rfl⟩

/-- The drain's dig, as `does_dig`. -/
theorem minds_dig (shard : Fin shards) (budget : Nat) (nodup : kept.Nodup) :
    Minds follows extra .plain actor (dig shard budget kept)
      (fun out held next => next = .nothing ∧ out.2.Nodup ∧ match out.1 with
        | none => held = .keeping out.2
        | some slot => slot < queue.capacity ∧ slot ∉ out.2 ∧
          held = (Held.keeping out.2).set slot (some .reserved)) (.keeping kept) .nothing := by
  induction budget generalizing kept with
  | zero => exact tells_ret ⟨rfl, nodup, rfl⟩
  | succ budget ih =>
    have popped : Does queue actor (popShard (.ready shard)) (fun got held =>
        match got with
        | none => held = .keeping kept
        | some slot => slot < queue.capacity ∧ slot ∉ kept ∧ held = .keeping (slot :: kept)) (.keeping kept) :=
      does_popShard _ rfl fun slot known fresh =>
        ⟨known, Held.keeping_slots_none.mp fresh, Held.keeping_cons slot kept⟩
    apply tells_then (minds_calm keeps rfl popped (stacked_untouched.popShard _) rfl)
    rintro got held _ ⟨holds, rfl⟩
    cases got with
    | none => exact tells_ret ⟨rfl, nodup, holds⟩
    | some slot =>
      obtain ⟨known, ne, rfl⟩ := holds
      have live : (Held.keeping (slot :: kept)).slots slot = some .live := by simp [Held.keeping]
      have recovered : Does queue actor
          (compareExchange (.recover slot) (stateOf slot) .cancelled .reserved : Code _)
          (fun out held => if out = none
            then held = ((Held.keeping (slot :: kept)).set slot (some .reserved)).owing true
            else held = .keeping (slot :: kept)) (.keeping (slot :: kept)) :=
        does_recover live rfl (by simp) fun _ => by simp
      apply tells_bind
      apply minds_exchange keeps recovered
      · intro mem
        rw [ite_self]
        exact .recover live
      · exact ⟨Doing.backed_of_free rfl, rfl⟩
      · apply tells_then (minds_uncount keeps rfl rfl)
        rintro _ _ _ ⟨rfl, rfl⟩
        refine tells_ret ⟨rfl, nodup, known, ne, ?_⟩
        rw [← Held.keeping_cons, Held.set_set]
        rfl
      · exact fun _ => ih (List.nodup_cons.mpr ⟨ne, nodup⟩)

theorem minds_drain (order : List (Fin shards)) :
    Minds follows extra .plain actor (drain queue order) (Reserves queue) .nothing .nothing := by
  induction order with
  | nil => exact tells_ret ⟨rfl, rfl⟩
  | cons shard rest ih =>
    apply tells_then (minds_still keeps rfl (admits_untouched.load _))
    rintro count _ _ ⟨rfl, rfl⟩
    split
    · exact tells_ret ⟨rfl, rfl⟩
    apply tells_bind
    rw [← Held.keeping_nil]
    apply tells_mono (minds_dig keeps shard drainDig List.nodup_nil)
    rintro ⟨got, kept⟩ held _ ⟨rfl, nodup, holds⟩
    cases got with
    | none =>
      cases holds
      have pushed : Does queue actor (pushBack shard kept)
          (fun _ held => held = .nothing) (.keeping kept) :=
        does_pushBack shard nodup (fun slot in_ => by simp [Held.keeping, in_]) (Held.keeping_without kept)
      apply tells_then (minds_calm keeps rfl pushed (stacked_untouched.pushBack _ _) rfl)
      rintro _ _ _ ⟨rfl, rfl⟩
      exact ih
    | some slot =>
      obtain ⟨known, ne, rfl⟩ := holds
      have pushed : Does queue actor (pushBack shard kept)
          (fun _ held => held = Held.nothing.set slot (some .reserved))
          ((Held.keeping kept).set slot (some .reserved)) := by
        apply does_pushBack shard nodup
        · intro entry in_
          have different : entry ≠ slot := fun same => ne (same ▸ in_)
          simp [Held.keeping, different, in_]
        · exact Held.keeping_set_without ne _
      apply tells_then (minds_calm keeps rfl pushed (stacked_untouched.pushBack _ _) rfl)
      rintro _ _ _ ⟨rfl, rfl⟩
      exact tells_ret ⟨rfl, known, rfl⟩

theorem minds_reserveSubmitSlot :
    Minds follows extra .plain actor (reserveSubmitSlot queue) (Reserves queue) .nothing .nothing := by
  apply tells_then (minds_reserveFree keeps)
  rintro got kept next ⟨rfl, holds⟩
  cases got with
  | some slot => exact tells_ret ⟨rfl, holds⟩
  | none =>
    cases holds
    apply tells_then (minds_drain keeps _)
    rintro drained kept next ⟨rfl, holds⟩
    have hinted {got : Option Nat} {held : Held} (holds : Reserves queue got held .nothing) :
        Minds follows extra .plain actor (do
          let _ ← load .field waitersWorkRef
          return got) (Reserves queue) held .nothing := by
      apply tells_then (minds_still keeps rfl (admits_untouched.load _))
      rintro _ _ _ ⟨rfl, rfl⟩
      exact tells_ret holds
    cases drained with
    | some slot => exact hinted ⟨rfl, holds⟩
    | none =>
      cases holds
      apply tells_then (minds_reserveFree keeps)
      rintro got kept next ⟨rfl, holds⟩
      exact hinted ⟨rfl, holds⟩

/-- A store into a field of the slot in hand. -/
theorem says_field {two : Doing} {rest : Unit → Steps Other} (ne : Apart cell)
    (deed : ∀ mem, Deed queue (may actor) held (stage, .field) one two mem (cell.set val mem))
    (backed : one.Backed held → two.Backed held) (later : Says follows extra actor (rest ()) post held two) :
    Says follows extra actor (store (stage, .field) cell val >>= rest) post held one := by
  have does : Does queue actor (store .field cell val : Code Unit)
      (fun _ kept => kept = held) held := does_elsewhere (every_store ne val) fun _ => rfl
  apply says_bind
  show Says follows extra actor ((store .field cell val : Code Unit).label stage) _ _ _
  apply says_label
  apply minds_deed keeps does
  rintro mem _ old rfl
  exact ⟨two, deed mem, backed old, later⟩

/-- A load by which its actor learns something. -/
theorem says_load (learns : ∀ mem, ∃ next, Deed queue (may actor) held (stage, .field) one next mem mem ∧
      (one.Backed held → next.Backed held) ∧
      Says follows extra actor (rest (cell.get mem)) post held next) :
    Says follows extra actor (load (stage, .field) cell >>= rest) post held one := by
  have does : Does queue actor (load .field cell : Code Value)
      (fun _ kept => kept = held) held := does_elsewhere (every_load cell) fun _ => rfl
  apply says_bind
  show Says follows extra actor ((load .field cell : Code Value).label stage) _ _ _
  apply says_label
  apply minds_deed keeps does
  rintro mem _ old rfl
  obtain ⟨next, deed, backed, reached⟩ := learns mem
  exact ⟨next, deed, backed old, reached⟩

/-- Code that no task notices, and what follows it. -/
theorem says_past
    (every : code.Every Passing) (later : ∀ val, Says follows extra actor (rest val) post held doing) :
    Says follows extra actor (code >>= rest) post held doing := by
  apply says_then (says_still keeps every)
  rintro val _ _ ⟨rfl, rfl⟩
  exact later val

theorem says_writeFields (req : ChunkDesc) (due : Nat) :
    Says follows extra actor (Staged.writeFields slot req due)
      (fun _ kept next => kept = Held.nothing.set slot (some .reserved) ∧ next = .fresh slot)
      (Held.nothing.set slot (some .reserved)) .nothing := by
  have reserved : (Held.nothing.set slot (some .reserved)).slots slot = some .reserved := by simp
  apply says_load keeps
  intro mem
  refine ⟨_, .number reserved, fun _ => Held.backed_set rfl, ?_⟩
  apply says_field keeps (apart_seqOf slot) (fun _ => .renew reserved) fun _ => Held.backed_set rfl
  apply says_past keeps (passing_ownerOf slot _)
  intro _
  apply says_field keeps (apart_retryOf slot) (fun _ => .reset reserved) fun _ => Held.backed_set rfl
  apply says_past keeps (passing_cancelOf slot _)
  intro _
  apply says_field keeps (apart_deadlineOf slot) (fun _ => .due reserved) fun _ => Held.backed_set rfl
  apply says_past keeps (passing_requestOf slot _)
  intro _
  apply says_field keeps (apart_resultOf slot) (fun _ => .clear reserved) fun _ => Held.backed_set rfl
  exact says_ret ⟨rfl, rfl⟩

theorem minds_publishQueued (shard : Fin shards) (ready : doing = .fresh slot ∨ doing = .requeued slot) :
    Minds follows extra .plain actor (publishQueued shard slot)
      (fun _ kept next => kept = .nothing ∧ next = .nothing) (Held.nothing.set slot (some .reserved)) doing := by
  have reserved : (Held.nothing.set slot (some .reserved)).slots slot = some .reserved := by simp
  have published : Does queue actor
      (store (.publish slot) (stateOf slot) .queued : Code Unit)
      (fun _ kept => kept = Held.nothing.set slot (some .live)) (Held.nothing.set slot (some .reserved)) :=
    does_publish reserved (Held.set_set _ _ _ _)
  have pushed : Does queue actor (pushShard (.ready shard) slot)
      (fun _ kept => kept = .nothing) (Held.nothing.set slot (some .live)) := by
    apply does_pushShard
    · simp [Shard.mode]
    · rw [Held.set_set, nothing_set_none]
  apply tells_bind
  apply minds_deed keeps published
  rintro mem _ - rfl
  refine ⟨.nothing, .publish reserved ready, Doing.backed_of_free rfl, ?_⟩
  exact minds_calm keeps rfl pushed (stacked_untouched.pushShard _ _) rfl

/-- The post of a call: empty hands, and in the middle of nothing. -/
abbrev Idles (follows : Follows queue actors view) (extra : History → Memory → (Nat → Doing) → Prop)
    (actor : Nat) (program : Steps Value) : Prop :=
  Says follows extra actor program (fun _ kept next => kept = .nothing ∧ next = .nothing) .nothing .nothing

theorem says_submitReserved (req : ChunkDesc) (due : Nat) (input : Option (LeaseBinding × Nat)) :
    Idles follows extra actor (Staged.submitReserved queue req due input) := by
  apply says_then (says_label (minds_reserveSubmitSlot keeps))
  rintro got kept _ ⟨rfl, holds⟩
  cases got with
  | none =>
    cases holds
    cases input with
    | none => exact says_ret ⟨rfl, rfl⟩
    | some input =>
      exact says_past keeps (Staged.every_plain (every_pushLease admits_passing _)) fun _ => says_ret ⟨rfl, rfl⟩
  | some slot =>
    obtain ⟨known, rfl⟩ := holds
    apply says_then (says_writeFields keeps req due)
    rintro newSeq _ _ ⟨rfl, rfl⟩
    have announced : Says follows extra actor
        (do
          let shard ← nextShard.label .plain
          (publishQueued shard slot).label .plain
          let _ ← load (.plain, .field) waitersWorkRef
          return (.ok ⟨slot, newSeq⟩ : Except QueueError TaskHandle))
        (fun _ kept next => kept = .nothing ∧ next = .nothing) (Held.nothing.set slot (some .reserved))
        (.fresh slot) := by
      apply says_bind
      apply says_label
      apply tells_nextShard
      intro shard
      apply says_then (says_label (minds_publishQueued keeps _ (.inl rfl)))
      rintro _ _ _ ⟨rfl, rfl⟩
      exact says_past keeps (passing_load _) fun _ => says_ret ⟨rfl, rfl⟩
    cases input with
    | none => exact announced
    | some input => exact says_past keeps (Staged.every_plain (every_arm admits_passing _ _ _ _ _)) fun _ => announced

theorem says_submitInner (req : ChunkDesc) (due : Nat) (input : Option LeaseBinding) :
    Idles follows extra actor (Staged.submitInner queue req due input) := by
  cases input with
  | none => exact says_submitReserved keeps req due none
  | some binding =>
    apply says_past keeps (Staged.every_plain (every_popLease admits_passing))
    intro got
    cases got with
    | none => exact says_ret ⟨rfl, rfl⟩
    | some lease => exact says_submitReserved keeps req due _

end

end ShmActors.Task
