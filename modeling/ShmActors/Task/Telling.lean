import ShmActors.Task.Shapes

/-! Rules for invariants kept beside the ownership of task slots: an actor holds
its slots as before, and a note of what it knows. -/

namespace ShmActors.Task

open Lib Core Program Function Actors

/-- What actors hold of the queue. -/
abbrev Hands := Option (StackActors.Pending Shard) × Held

section

/-- A slot in one actor's hands is in no other's. -/
theorem alone_of_inv (ok : (ownership queue).inv past mem hands)
    (taken : (hands who).2.slots slot ≠ none) (ne : other ≠ who) :
    (hands other).2.slots slot = none := by
  obtain ⟨lists, ok⟩ := ok
  by_contra both
  exact ne ((ownership queue).exclusive ok.own both taken)

theorem state_of_inv (ok : (ownership queue).inv past mem hands)
    (taken : (hands who).2.slots slot = some mode) :
    slot < queue.capacity ∧ mode.allows (mem.slot slot).state := by
  obtain ⟨lists, ok⟩ := ok
  obtain ⟨place, owing, placed⟩ := ok.own
  obtain ⟨known, here⟩ := (placed.hand who slot mode).mp taken
  have may := placed.allowed slot known
  rw [here] at may
  exact ⟨known, may⟩

end

variable {Tag History Op Local Result Note : Type}

/-- Actors that run the queue's code and keep the history that ownership reads. -/
structure Follows (queue : Queue) (actors : Actors Memory (Tag × Site) History Op Local Result)
    (view : History → Tags Shard × List Event) : Prop where
  track : ∀ actor site before after history, view (actors.track actor site before after history) =
    (system queue).actors.track actor site.2 before after (view history)
  timely : ∀ actor site memory history, actors.allowed actor site memory history →
    (system queue).actors.allowed actor site.2 memory (view history)

section

variable {queue : Queue} {actors : Actors Memory (Tag × Site) History Op Local Result}
  {view : History → Tags Shard × List Event} {extra : History → Memory → (Nat → Hands) → (Nat → Note) → Prop}

/-- The specification of code that starts and ends outside any stack loop. -/
def Tells (_follows : Follows queue actors view)
    (extra : History → Memory → (Nat → Hands) → (Nat → Note) → Prop) (who : Tag) (actor : Nat)
    {Value : Type} (code : Code Value) (post : Value → Held → Note → Prop) (held : Held) (note : Note) :
    Prop :=
  (actors.under who).wp (both (fun history => (ownership queue).inv (view history)) extra) actor
    code (fun value kept => kept.1.1 = none ∧ post value kept.1.2 kept.2) ((none, held), note)

variable {follows : Follows queue actors view} {note : Note}

theorem tells_ret (holds : post val held note) :
    Tells follows extra who actor (.ret val) post held note :=
  ⟨rfl, holds⟩

theorem tells_mono
    (holds : Tells follows extra who actor code one held note)
    (weaker : ∀ val kept next, one val kept next → two val kept next) :
    Tells follows extra who actor code two held note :=
  wp_mono holds fun _ _ new => ⟨new.1, weaker _ _ _ new.2⟩

theorem tells_bind
    (holds : Tells follows extra who actor code
      (fun val kept next => Tells follows extra who actor (rest val) post kept next) held note) :
    Tells follows extra who actor (code >>= rest) post held note := by
  refine wp_then holds fun val kept new => ?_
  obtain ⟨idle, later⟩ := new
  rw [show kept = ((none, kept.1.2), kept.2) from Prod.ext (Prod.ext idle rfl) rfl]
  exact later

theorem tells_then
    (holds : Tells follows extra who actor code one held note)
    (later : ∀ val kept next, one val kept next → Tells follows extra who actor (rest val) post kept next) :
    Tells follows extra who actor (code >>= rest) post held note :=
  tells_bind (tells_mono holds later)

theorem tells_nextShard (each : ∀ shard, post shard held note) :
    Tells follows extra who actor nextShard post held note :=
  fun _ => ⟨rfl, each _⟩

theorem tells_repeatLoop {post : Value → Held → Note → Prop}
    (round : Tells follows extra who actor body (fun out kept next => match out with
      | some val => post val kept next
      | none => kept = held ∧ next = note) held note) :
    Tells follows extra who actor (repeatLoop body) post held note := by
  apply wp_repeatLoop
  apply wp_mono round
  rintro out ⟨⟨pending, kept⟩, next⟩ ⟨free, new⟩
  cases free
  cases out with
  | some val => exact ⟨rfl, new⟩
  | none =>
    obtain ⟨rfl, rfl⟩ := new
    rfl

/-- The first of several attempts that finds something. -/
theorem tells_firstOf
    (each : ∀ shard, Tells follows extra who actor (attempt shard) post held note)
    (missed : ∀ kept next, post none kept next → kept = held ∧ next = note) (empty : post none held note)
    (order : List (Fin shards)) : Tells follows extra who actor (firstOf attempt order) post held note := by
  induction order with
  | nil => exact tells_ret empty
  | cons shard rest ih =>
    apply tells_then (each shard)
    intro got kept next new
    cases got with
    | some idx => exact tells_ret new
    | none =>
      obtain ⟨rfl, rfl⟩ := missed kept next new
      exact ih

/-- What is proved of the slots alone, for these actors. -/
theorem wp_of_does (follows : Follows queue actors view) (does : Does queue actor code post held) :
    (actors.under who).wp (fun past => (ownership queue).inv (view past)) actor code
      (fun val kept => kept.1 = none ∧ post val kept.2) (none, held) := by
  refine wp_transfer view (fun _ _ _ _ => follows.track _ _ _ _ _) ?_ does
  intro site mem past may
  exact follows.timely actor (who, site) mem past may

/-- Code specified before, none of whose accesses matters to the notes. -/
theorem tells_beside (does : Does queue actor code post held)
    (every : code.Every fun site update => ∀ past mem hands notes kept,
      (ownership queue).inv (view past) mem hands → extra past mem hands notes →
      notes actor = note → actors.allowed actor (who, site) mem past →
      (ownership queue).inv (view (actors.track actor (who, site) mem (update mem) past))
        (update mem) (Function.update hands actor kept) →
      extra (actors.track actor (who, site) mem (update mem) past) (update mem)
        (Function.update hands actor kept) notes) :
    Tells follows extra who actor code (fun val kept next => post val kept ∧ next = note) held note := by
  refine wp_mono (wp_beside (wp_of_does follows does) every) ?_
  rintro val kept ⟨⟨free, holds⟩, same⟩
  exact ⟨free, holds, same⟩

/-- One access specified before, with what it does to the notes. -/
theorem tells_act {update : Memory → Memory} {val : Memory → Value}
    (does : Does queue actor (.act site update fun mem => .ret (val mem))
      post held)
    (step : ∀ past mem hands notes kept, (ownership queue).inv (view past) mem hands →
      extra past mem hands notes → hands actor = (none, held) → notes actor = note →
      actors.allowed actor (who, site) mem past → post (val mem) kept →
      ∃ next, extra (actors.track actor (who, site) mem (update mem) past)
        (update mem) (Function.update hands actor (none, kept)) (Function.update notes actor next) ∧
        goal (val mem) kept next) :
    Tells follows extra who actor (.act site update fun mem => .ret (val mem)) goal held note := by
  apply wp_act_beside (wp_of_does follows does)
  rintro past mem hands notes ⟨free, kept⟩ ok known mine noted may _ ⟨rfl, done⟩
  obtain ⟨next, new, reached⟩ := step past mem hands notes kept ok known mine noted may done
  exact ⟨next, new, rfl, reached⟩

/-- Accesses that neither membership nor the notes see. -/
theorem tells_aside (every : code.Every fun site update => Elsewhere site update ∧ ∀ past mem hands notes,
      (ownership queue).inv (view past) mem hands → extra past mem hands notes → hands actor = (none, held) →
          notes actor = note →
      actors.allowed actor (who, site) mem past →
      extra (actors.track actor (who, site) mem (update mem) past) (update mem) hands notes) :
    Tells follows extra who actor code (fun _ kept next => kept = held ∧ next = note) held note := by
  induction code with
  | ret val => exact ⟨rfl, rfl, rfl⟩
  | act site update next ih =>
    show Tells follows extra who actor ((.act site update fun mem => .ret mem : Code Memory) >>= next)
      _ _ _
    apply tells_bind
    have one : (.act site update fun mem => .ret mem : Code Memory).Every Elsewhere :=
      ⟨every.1.1, fun _ => trivial⟩
    apply tells_act (does_elsewhere one fun _ => (rfl : held = held))
    rintro past mem hands notes _ owned ok mine noted may rfl
    refine ⟨note, ?_, ih mem (every.2 mem)⟩
    rw [← mine, ← noted, update_eq_self, update_eq_self]
    exact every.1.2 past mem hands notes owned ok mine noted may
  | pick next ih => exact fun choice => ih choice (every choice)
  | halt => trivial

end

section

variable {queue : Queue} {Op Local Result History Note : Type}
  {actors : Actors Memory (Role × Site) History Op Local Result} {view : History → Tags Shard × List Event}
  {extra : History → Memory → (Nat → Hands) → (Nat → Note) → Prop} {follows : Follows queue actors view} {who : Role}
  {actor : Nat} {note : Note} {kind : Kind}

/-- Code of this kind is not seen by the notes. -/
abbrev Unnoted (follows : Follows queue actors view)
    (extra : History → Memory → (Nat → Hands) → (Nat → Note) → Prop) (who : Role) (actor : Nat)
    (kind : Kind) : Prop :=
  ∀ {Value : Type} {code : Code Value} {held : Held} {note : Note}, code.Every kind →
    Tells follows extra who actor code (fun _ kept next => kept = held ∧ next = note) held note

/-- What a reservation leaves in hand. -/
def Reserved (queue : Queue) (found : Option Nat) (kept : Held) : Prop :=
  match found with
  | none => kept = .nothing
  | some slot => slot < queue.capacity ∧ kept = Held.nothing.set slot (some .reserved)

section

variable {two : Nat → Nat → Note} (admits : Admits kind) (unnoted : Unnoted follows extra who actor kind)
  (last : Except QueueError TaskHandle → Note) (failed : ∀ reason, last (.error reason) = note)
  (reserves : Tells follows extra who actor (reserveSubmitSlot queue) (fun got kept next =>
      Reserved queue got kept ∧ next = note) .nothing note)
  (writes : ∀ slot, Tells follows extra who actor (writeFields slot req due) (fun seq kept next =>
      kept = Held.nothing.set slot (some .reserved) ∧ next = two slot seq)
        (Held.nothing.set slot (some .reserved)) note)
  (publishes : ∀ shard slot seq, Tells follows extra who actor (publishQueued shard slot) (fun _ kept next =>
      kept = .nothing ∧ next = last (.ok ⟨slot, seq⟩)) (Held.nothing.set slot (some .reserved)) (two slot seq))

include admits unnoted failed reserves writes publishes

theorem tells_submitReserved (input : Option (LeaseBinding × Nat)) :
    Tells follows extra who actor (submitReserved queue req due input)
      (fun out kept next => kept = .nothing ∧ next = last out) .nothing note := by
  apply tells_then reserves
  rintro got kept _ ⟨holds, rfl⟩
  cases got with
  | none =>
    cases holds
    cases input with
    | none => exact tells_ret ⟨rfl, (failed _).symm⟩
    | some input =>
      apply tells_then (unnoted (every_pushLease admits _))
      rintro _ _ _ ⟨rfl, rfl⟩
      exact tells_ret ⟨rfl, (failed _).symm⟩
  | some idx =>
    obtain ⟨-, rfl⟩ := holds
    apply tells_then (writes idx)
    rintro newSeq _ _ ⟨rfl, rfl⟩
    have announced : Tells follows extra who actor
        (do
          let shard ← nextShard
          publishQueued shard idx
          let _ ← load .field waitersWorkRef
          return (.ok ⟨idx, newSeq⟩ : Except QueueError TaskHandle))
        (fun out kept next => kept = .nothing ∧ next = last out)
        (Held.nothing.set idx (some .reserved)) (two idx newSeq) := by
      apply tells_bind
      apply tells_nextShard
      intro shard
      apply tells_then (publishes shard idx newSeq)
      rintro _ _ _ ⟨rfl, rfl⟩
      apply tells_then (unnoted (admits.load _))
      rintro _ _ _ ⟨rfl, rfl⟩
      exact tells_ret ⟨rfl, rfl⟩
    cases input with
    | none => exact announced
    | some input =>
      apply tells_then (unnoted (every_arm admits _ _ _ _ _))
      rintro _ _ _ ⟨rfl, rfl⟩
      exact announced

/-- A submit, by what its note is while it has a slot and in the end. -/
theorem tells_submitInner (input : Option LeaseBinding) :
    Tells follows extra who actor (submitInner queue req due input)
      (fun out kept next => kept = .nothing ∧ next = last out) .nothing note := by
  have reserved := tells_submitReserved admits unnoted last failed reserves writes publishes
  cases input with
  | none => exact reserved none
  | some binding =>
    apply tells_then (unnoted (every_popLease admits))
    rintro got _ _ ⟨rfl, rfl⟩
    cases got with
    | none => exact tells_ret ⟨rfl, (failed _).symm⟩
    | some lease => exact reserved _

end

/-- Code that leaves its actor's hands empty and its note as it was. -/
abbrev Restores (follows : Follows queue actors view)
    (extra : History → Memory → (Nat → Hands) → (Nat → Note) → Prop) (who : Role) (actor : Nat) (note : Note)
    {Value : Type} (code : Code Value) : Prop :=
  Tells follows extra who actor code (fun _ kept next => kept = .nothing ∧ next = note) .nothing note

theorem wp_of_restores
    (restores : Restores follows extra who actor note code) (new : ∀ val, post val ((none, .nothing), note)) :
    actors.wp (both (fun past => (ownership queue).inv (view past)) extra) actor (code.label who) post
      ((none, .nothing), note) := by
  apply wp_label
  apply wp_mono restores
  rintro val ⟨⟨pending, kept⟩, next⟩ ⟨free, rfl, rfl⟩
  cases free
  exact new val

theorem wp_wrapped
    (restores : Restores follows extra who actor note code)
    (new : ∀ val, post (wrap val) ((none, .nothing), note)) :
    actors.wp (both (fun past => (ownership queue).inv (view past)) extra) actor
      ((wrap <$> code).label who) post ((none, .nothing), note) := by
  rw [map_eq_pure_bind]
  apply wp_label
  apply wp_then restores
  rintro val ⟨⟨pending, kept⟩, next⟩ ⟨free, rfl, rfl⟩
  cases free
  exact new val

/-- The life of a claim, by its parts. -/
theorem wp_work
    (admits : Admits kind) (unnoted : Unnoted follows extra .caller actor kind)
    (claims : Tells follows extra .caller actor (claimInner workerId due) (fun got kept next =>
      ((∀ task, got = some task → task.idx < queue.capacity) ∧ kept = .nothing) ∧ next = note) .nothing note)
    (settles : ∀ task : ClaimedTask, task.idx < queue.capacity →
      Restores follows extra (.finisher task (verdict task)) actor note (settle task (verdict task))) :
    actors.wp (both (fun past => (ownership queue).inv (view past)) extra) actor
      (work workerId due outputs verdict) (fun answer kept => (∃ out, answer = .worked out) ∧
        kept = ((none, .nothing), note)) ((none, .nothing), note) := by
  apply wp_bind
  apply wp_label
  apply wp_mono claims
  rintro got ⟨⟨pending, kept⟩, next⟩ ⟨free, ⟨known, rfl⟩, rfl⟩
  cases free
  cases got with
  | none => exact ⟨⟨_, rfl⟩, rfl⟩
  | some task =>
    apply wp_bind
    apply wp_of_restores (unnoted (every_bindOutputs admits task _))
    intro _
    apply wp_bind
    apply wp_of_restores (settles task (known task rfl))
    exact fun out => ⟨⟨_, rfl⟩, rfl⟩

end

end ShmActors.Task
