import ShmActors.Task.Reclaim

/-! What a reap leaves of the tasks when one operation has stopped for good. -/

namespace ShmActors.Task

open Lib Core Program Function Actors

/-- The ownership of slots, and the account of tasks. -/
abbrev Booked (queue : Queue) (now : Nat) : CrashHistory → Memory → (Nat → Hands × Docket) → Prop :=
  both (fun history => (ownership queue).inv history.1) (Accounted queue.capacity now)

/-- The tasks an actor's submits have returned. -/
def issuedOf : List (Call × Answer) → List (Nat × Nat)
  | [] => []
  | (_, .submitted outcome) :: own => issuedBy outcome ++ issuedOf own
  | _ :: own => issuedOf own

/-- What an actor has between its calls. -/
def AtRest (own : List (Call × Answer)) (held : Hands × Docket) : Prop :=
  held.1 = (none, .nothing) ∧ held.2.issued = issuedOf own ∧ held.2.loaded = none

section

variable {queue : Queue} {now : Nat} {stopped : Nat → Prop} {who : Role} {actor : Nat} {Value : Type}
  {issued : List (Nat × Nat)} {code : Code Value}

/-- With empty hands, the note on reserved slots may be set as the next call needs it. -/
theorem switch_clearing (resting : AtRest own held) (clearing : Bool) (ok : Booked queue now past mem holdings)
    (mine : holdings actor = held) : Booked queue now past mem
      (Function.update holdings actor ((none, .nothing), ⟨issuedOf own, clearing, none⟩)) := by
  obtain ⟨hands, issued, loaded⟩ := resting
  have empty : (holdings actor).1 = (none, .nothing) := by rw [mine, hands]
  refine ⟨?_, ?_⟩
  · rw [update_fst, ← empty, update_eq_self]
    exact ok.1
  · rw [update_fst, update_snd, ← empty, update_eq_self]
    refine ⟨ok.2.dated, ok.2.claimed, ok.2.ended, ok.2.named, ok.2.known, ?_, ?_, ?_⟩
    · intro other entry in_
      by_cases same : other = actor
      · subst same
        rw [update_self] at in_
        apply ok.2.issued other
        show entry ∈ (holdings other).2.issued
        rw [mine, issued]
        exact in_
      · rw [update_of_ne same] at in_
        exact ok.2.issued other entry in_
    · intro other set slot taken
      by_cases same : other = actor
      · subst same
        simp only [empty] at taken
        cases taken
      · rw [update_of_ne same] at set
        exact ok.2.cleared other set slot taken
    · intro other slot seq read
      by_cases same : other = actor
      · subst same
        rw [update_self] at read
        cases read
      · rw [update_of_ne same] at read
        exact ok.2.loaded other slot seq read

/-- A call starts with the note on reserved slots as it needs it. -/
theorem wp_resting {code : Program Memory (Role × Site) Answer} (resting : AtRest own held) (clearing : Bool)
    (holds : (callers queue now stopped).wp (Booked queue now) actor code
      (fun answer kept => AtRest ((op, answer) :: own) kept)
      ((none, .nothing), ⟨issuedOf own, clearing, none⟩)) :
    (callers queue now stopped).wp (Booked queue now) actor code
      (fun answer kept => AtRest ((op, answer) :: own) kept) held := by
  refine wp_switch (fun past mem holdings ok mine =>
    switch_clearing resting clearing ok mine) ?_ holds
  rintro answer ⟨-, issued, -⟩
  exact ⟨resting.1, resting.2.1.trans issued, resting.2.2⟩

/-- Code that leaves its actor's hands empty and issues nothing. -/
abbrev Passes (queue : Queue) (now : Nat) (stopped : Nat → Prop) (who : Role) (actor : Nat)
    (issued : List (Nat × Nat)) (code : Code Value) : Prop :=
  Restores (follows_callers queue now stopped) (Accounted queue.capacity now) who actor ⟨issued, false, none⟩ code

theorem wp_passes (wrap : Value → Answer) (resting : AtRest own held)
    (passes : Passes queue now stopped who actor (issuedOf own) code)
    (same : ∀ val, issuedOf ((op, wrap val) :: own) = issuedOf own) :
    (callers queue now stopped).wp (Booked queue now) actor ((wrap <$> code).label who)
      (fun answer kept => AtRest ((op, answer) :: own) kept) held := by
  apply wp_resting resting false
  exact wp_wrapped passes fun val => ⟨rfl, (same val).symm, rfl⟩

theorem wp_submit (req : ChunkDesc) (old : due < now) (input : Option LeaseBinding) (resting : AtRest own held) :
    (callers queue now stopped).wp (Booked queue now) actor
      ((Answer.submitted <$> submitInner queue req due input).label who)
      (fun answer kept => AtRest ((op, answer) :: own) kept) held := by
  apply wp_resting resting true
  rw [map_eq_pure_bind]
  apply wp_label
  apply wp_then (accounts_submitInner req old input)
  rintro out ⟨⟨pending, kept⟩, next⟩ ⟨free, rfl, issued, loaded⟩
  cases free
  exact ⟨rfl, issued, loaded⟩

theorem passes_of_returns (returns : Returns queue actor code) (every : code.Every (Steady now)) :
    Passes queue now stopped who actor issued code :=
  accounts_steady returns every rfl rfl

theorem passes_settle (task : ClaimedTask) (verdict : Verdict) (known : task.idx < queue.capacity) :
    Passes queue now stopped who actor issued (settle task verdict) := by
  cases verdict with
  | drop => exact tells_ret ⟨rfl, rfl⟩
  | complete res =>
    exact tells_then (passes_of_returns (does_complete _ _ _ known) (whole_steady.completeTask _ _ _))
      fun _ _ _ new => tells_ret new
  | fail =>
    exact tells_then (passes_of_returns (does_fail _ _ known) (whole_steady.failTask _ _))
      fun _ _ _ new => tells_ret new

theorem wp_workBefore (workerId : Nat)
    (old : ∀ val, due = some val → val < now) (outputs : ClaimedTask → List LeaseBinding)
    (verdict : ClaimedTask → Verdict) (resting : AtRest own held) :
    (callers queue now stopped).wp (Booked queue now) actor (work workerId due outputs verdict)
      (fun answer kept => AtRest ((op, answer) :: own) kept) held := by
  apply wp_resting resting false
  have stamps : Covers.Stamps (Steady now) due :=
    fun idx val eq => steady_deadline idx (old val eq)
  refine wp_mono (wp_work admits_steady accounts_aside (accounts_steady (does_claimInner workerId due)
    (whole_steady.claimInner workerId stamps) rfl rfl) fun task known => passes_settle task _ known) ?_
  rintro _ _ ⟨⟨out, rfl⟩, rfl⟩
  exact ⟨rfl, rfl, rfl⟩

theorem wp_dated (op : Call) (dated : op.dated now) (resting : AtRest own held) :
    (callers queue now stopped).wp (Booked queue now) actor (call queue op)
      (fun answer kept => AtRest ((op, answer) :: own) kept) held := by
  cases op with
  | submit req due input => exact wp_submit req dated input resting
  | work workerId due outputs verdict => exact wp_workBefore workerId dated outputs verdict resting
  | cancel handle =>
    exact wp_passes _ resting (passes_of_returns (does_cancel handle) (whole_steady.cancelTask _ _)) fun _ => rfl
  | reap now =>
    exact wp_passes _ resting (passes_of_returns (does_reap now) (whole_steady.reap _ _)) fun _ => rfl
  | ack handle => exact wp_passes _ resting (accounts_aside (every_ack admits_steady _)) fun _ => rfl
  | reapBindings now grace =>
    exact wp_passes _ resting (accounts_aside (every_reapBindings admits_steady _ _)) fun _ => rfl
  | poll handle =>
    exact wp_passes _ resting (accounts_aside (every_poll admits_steady _)) fun _ => rfl

end

/-- Every access of a call has the shape of its site. -/
theorem shape_call (queue : Queue) (op : Call) : (call queue op).Every fun site update => Shape site.2 update := by
  have labelled {Value : Type} {who : Role} {code : Code Value} (every : code.Every Shape) :
      (code.label who).Every fun site update => Shape site.2 update :=
    every_label every fun _ _ shape => shape
  have wrapped {Value : Type} {who : Role} {code : Code Value} (wrap : Value → Answer)
      (every : code.Every Shape) :
      ((wrap <$> code).label who).Every fun site update => Shape site.2 update := by
    rw [map_eq_pure_bind]
    exact labelled (every_bind every fun _ => trivial)
  cases op with
  | submit req due input =>
    exact wrapped _ (whole_shape.submitInner _ _ _ _ fun _ => shape_elsewhere (every_writeFields _ _ _))
  | work workerId due outputs verdict =>
    refine every_found (labelled (covers_shape.claimInner workerId stamps_shape)) trivial fun task => ?_
    refine every_bind (labelled (every_bindOutputs covers_shape.admits task _)) fun _ => ?_
    refine every_bind (labelled ?_) fun _ => trivial
    cases verdict task with
    | drop => trivial
    | complete res => exact every_bind (whole_shape.completeTask _ _ _) fun _ => trivial
    | fail => exact every_bind (covers_shape.failTask _ _) fun _ => trivial
  | cancel handle => exact wrapped _ (covers_shape.cancelTask _ _)
  | reap now => exact wrapped _ (whole_shape.reap _ _)
  | ack handle => exact wrapped _ (every_ack covers_shape.admits _)
  | reapBindings now grace => exact wrapped _ (every_reapBindings covers_shape.admits _ _)
  | poll handle => exact wrapped _ (every_poll covers_shape.admits _)

/-- The slots a reap has been to are not claimed, or claimed by somebody else
than the one that has stopped. -/
def Swept (dead : Nat) (history : CrashHistory) (memory : Memory) (_ : Nat → Hands × Docket)
    (swept : Nat → List Nat) : Prop :=
  ∀ actor, ∀ slot ∈ swept actor, (memory.slot slot).state = .claimed →
    standingClaim slot history.1.2 ≠ some dead

section

variable {queue : Queue} {now dead : Nat} {actor : Nat} {Value Other : Type} {held : Hands × Docket}
  {swept : List Nat} {update : Memory → Memory} {code : Code Value} {post : Value → Held → Docket → Prop}

/-- The callers that are left. -/
abbrev survivors (queue : Queue) (now dead : Nat) := callers queue now (· = dead)

theorem Swept.step (ok : Swept dead past mem holdings sweeps) (shape : Shape site.2 update) (alive : actor ≠ dead) :
    Swept dead ((survivors queue now dead).track actor site mem (update mem) past) (update mem) holdings' sweeps := by
  intro other slot in_ claimed
  rcases shape.claims actor mem past.1.2 slot claimed with mine | ⟨old, unchanged⟩
  · exact fun same => alive (Option.some.inj (mine.symm.trans same))
  · exact fun same => ok other slot in_ old (unchanged.symm.trans same)

/-- What was specified of a program before holds among those that are left. -/
theorem wp_survivors {code : Program Memory (Role × Site) Value} {post : Value → Hands × Docket → Prop}
    (holds : (callers queue now fun _ => False).wp (Booked queue now) actor code post held)
    (every : code.Every fun site update => Shape site.2 update) :
    (survivors queue now dead).wp (both (Booked queue now) (Swept dead)) actor code
      (fun val kept => post val kept.1 ∧ kept.2 = swept) (held, swept) := by
  have fewer : (survivors queue now dead).wp (Booked queue now) actor code post held := by
    have track : ∀ site old new past,
        id ((survivors queue now dead).track actor site old new past) =
          (callers queue now fun _ => False).track actor site old new (id past) :=
      fun _ _ _ _ => rfl
    refine wp_transfer id track ?_ holds
    intro site mem past may
    exact ⟨fun no => no, may.2⟩
  refine wp_beside fewer (every_mono every ?_)
  intro site update shape past mem holdings sweeps kept _ ok _ may _
  exact ok.step shape may.1

/-- The specification of a reap's code, with the slots it has been to. -/
def Sweeps (queue : Queue) (now dead : Nat) (actor : Nat) (code : Code Value)
    (post : Value → Held → Docket → List Nat → Prop) (held : Held) (docket : Docket) (swept : List Nat) :
    Prop :=
  ((survivors queue now dead).under Role.reaper).wp (both (Booked queue now) (Swept dead)) actor code
    (fun value kept => kept.1.1.1 = none ∧ post value kept.1.1.2 kept.1.2 kept.2)
    (((none, held), docket), swept)

theorem sweeps_ret {post : Value → Held → Docket → List Nat → Prop}
    (holds : post val grasp docket swept) : Sweeps queue now dead actor (.ret val) post grasp docket swept :=
  ⟨rfl, holds⟩

theorem sweeps_mono (holds : Sweeps queue now dead actor code one grasp docket swept)
    (weaker : ∀ val kept next slots, one val kept next slots → two val kept next slots) :
    Sweeps queue now dead actor code two grasp docket swept :=
  wp_mono holds fun _ _ new => ⟨new.1, weaker _ _ _ _ new.2⟩

theorem sweeps_bind {post : Other → Held → Docket → List Nat → Prop} (holds : Sweeps queue now dead actor code
      (fun val kept next slots => Sweeps queue now dead actor (rest val) post kept next slots) grasp docket swept) :
    Sweeps queue now dead actor (code >>= rest) post grasp docket swept := by
  refine wp_then holds fun val kept new => ?_
  obtain ⟨free, later⟩ := new
  rw [show kept = (((none, kept.1.1.2), kept.1.2), kept.2) from
    Prod.ext (Prod.ext (Prod.ext free rfl) rfl) rfl]
  exact later

/-- Code whose accesses have the shape of their site goes to no slot. -/
theorem sweeps_beside (accounts : Accounts queue now (· = dead) .reaper actor code post grasp docket)
    (every : code.Every Shape) :
    Sweeps queue now dead actor code
      (fun val kept next slots => post val kept next ∧ slots = swept) grasp docket swept := by
  refine wp_mono (wp_beside accounts (every_mono every ?_)) ?_
  · intro site update shape past mem holdings sweeps kept _ ok _ may _
    have labelled : Shape ((Role.reaper, site) : Role × Site).2 update := shape
    show Swept dead ((survivors queue now dead).track actor (Role.reaper, site) mem (update mem)
      past) _ _ _
    exact ok.step labelled may.1
  · rintro val kept ⟨⟨free, holds⟩, same⟩
    exact ⟨free, holds, same⟩

/-- An access after which the slot is not claimed, or after which it is known
what its value was. -/
theorem sweeps_act {val : Memory → Value} (accounts : Accounts queue now (· = dead) .reaper actor
      (.act site update fun mem => .ret (val mem)) post grasp docket) (shape : Shape site update)
    (learns : ∀ mem kept next, (∀ slot, (mem.slot slot).deadline < now) → post (val mem) kept next →
      ∃ slots, (∀ slot ∈ slots, slot ∈ swept ∨ ((update mem).slot slot).state ≠ .claimed) ∧
        goal (val mem) kept next slots) :
    Sweeps queue now dead actor (.act site update fun mem => .ret (val mem)) goal grasp docket swept := by
  apply wp_act_beside accounts
  rintro past mem holdings sweeps ⟨⟨free, kept⟩, next⟩ booked ok _ noted may _ ⟨rfl, holds⟩
  obtain ⟨slots, seen, reached⟩ := learns mem kept next booked.2.dated holds
  refine ⟨slots, ?_, rfl, reached⟩
  have labelled : Shape ((Role.reaper, site) : Role × Site).2 update := shape
  have new : Swept dead ((survivors queue now dead).track actor (Role.reaper, site) mem (update mem)
    past) (update mem) (Function.update holdings actor ((none, kept), next)) sweeps :=
    ok.step labelled may.1
  intro other slot in_ claimed
  by_cases mine : other = actor
  · subst mine
    rw [update_self] at in_
    rcases seen slot in_ with old | unclaimed
    · exact new other slot (noted ▸ old) claimed
    · exact absurd claimed unclaimed
  · rw [update_of_ne mine] at in_
    exact new other slot in_ claimed

end

section

/-- Whoever exchanges the state of a claimed slot, it is not claimed any more. -/
theorem sweeps_elect
    (kind : site = .complete idx ∨ site = .requeue idx ∨ site = .fail idx) (known : idx < queue.capacity)
    (may : mode.allows new) (proper : new ≠ .queued ∧ new ≠ .cancelled ∧ new ≠ .claimed)
    (shape : Shape site (exchanged idx .claimed new)) :
    Sweeps queue now dead who (compareExchange site (stateOf idx) .claimed new) (fun got kept next slots =>
        kept = (if got = none then Held.nothing.set idx (some mode) else .nothing) ∧
        next = ⟨issued, false, none⟩ ∧ slots = idx :: swept) .nothing ⟨issued, false, none⟩ swept := by
  have does : Does queue who
      (compareExchange site (stateOf idx) .claimed new : Code _)
      (fun got kept => kept = if got = none then Held.nothing.set idx (some mode) else .nothing)
      .nothing :=
    does_elect mode kind known may proper (fun _ => by simp) (fun _ => by simp)
  have every : (compareExchange site (stateOf idx) .claimed new : Code _).Every (Steady now) :=
    ⟨steady_exchange shape, fun _ => trivial⟩
  have accounts : Accounts queue now (· = dead) .reaper who
      (compareExchange site (stateOf idx) .claimed new)
      (fun got kept next => kept = (if got = none then Held.nothing.set idx (some mode) else .nothing) ∧
        next = ⟨issued, false, none⟩) .nothing ⟨issued, false, none⟩ :=
    accounts_steady does every rfl rfl
  apply sweeps_act accounts shape
  rintro mem kept next _ ⟨holds, noted⟩
  refine ⟨idx :: swept, ?_, holds, noted, rfl⟩
  intro slot in_
  rcases List.mem_cons.mp in_ with rfl | older
  · right
    show ((exchanged slot .claimed new mem).slot slot).state ≠ .claimed
    unfold exchanged
    split
    · rw [stateOf_set_self]
      exact proper.2.2
    · assumption
  · exact .inl older

theorem sweeps_reapLapsed (idx : Nat) (report : ReapReport) (known : idx < queue.capacity) :
    Sweeps queue now dead who (reapLapsed queue idx report)
      (fun _ kept next slots => kept = .nothing ∧ next = ⟨issued, false, none⟩ ∧ slots = idx :: swept)
      .nothing ⟨issued, false, none⟩ swept := by
  apply sweeps_bind
  apply sweeps_mono (sweeps_beside (accounts_aside (admits_steady.load _)) (covers_shape.admits.load _))
  rintro retry _ _ _ ⟨⟨rfl, rfl⟩, rfl⟩
  split
  · apply sweeps_bind
    apply sweeps_bind
    have may : Mode.allows .spent .failed := by simp [Mode.allows]
    apply sweeps_mono (sweeps_elect (.inr (.inr rfl)) known may (by simp) rfl)
    rintro got _ _ _ ⟨rfl, rfl, rfl⟩
    cases got with
    | some st => exact sweeps_ret (sweeps_ret ⟨rfl, rfl, rfl⟩)
    | none =>
      have given : Accounts queue now (· = dead) .reaper who
          (pushFree idx >>= fun _ => return { report with failed := report.failed + 1 })
          (fun _ kept next => kept = .nothing ∧ next = ⟨issued, false, none⟩)
          (Held.nothing.set idx (some .spent)) ⟨issued, false, none⟩ :=
        accounts_steady (does_giveBack trivial)
          (every_bind (whole_steady.pushFree _) fun _ => trivial) rfl rfl
      apply sweeps_ret
      apply sweeps_mono (sweeps_beside given (every_bind (covers_shape.pushFree _) fun _ => trivial))
      rintro _ _ _ _ ⟨⟨rfl, rfl⟩, rfl⟩
      exact ⟨rfl, rfl, rfl⟩
  · apply sweeps_bind
    apply sweeps_bind
    have may : Mode.allows .reserved .reserved := rfl
    apply sweeps_mono (sweeps_elect (.inr (.inl rfl)) known may (by simp) rfl)
    rintro got _ _ _ ⟨rfl, rfl, rfl⟩
    cases got with
    | some st => exact sweeps_ret (sweeps_ret ⟨rfl, rfl, rfl⟩)
    | none =>
      have given : Accounts queue now (· = dead) .reaper who _
          (fun _ kept next => kept = .nothing ∧ next = ⟨issued, false, none⟩)
          (Held.nothing.set idx (some .reserved)) ⟨issued, false, none⟩ :=
        accounts_steady (does_requeue (retry + 1) { report with requeued := report.requeued + 1 })
          (whole_steady.requeueTask _ _ _) rfl rfl
      apply sweeps_ret
      apply sweeps_mono (sweeps_beside given (whole_shape.requeueTask _ _ _))
      rintro _ _ _ _ ⟨⟨rfl, rfl⟩, rfl⟩
      exact ⟨rfl, rfl, rfl⟩

/-- One pass over the slots: no deadline makes it skip a claim. -/
theorem sweeps_reapSlots (slots : List Nat) (report : ReapReport) (known : ∀ idx ∈ slots, idx < queue.capacity) :
    Sweeps queue now dead who (reapSlots queue now slots report)
      (fun _ kept next reached => kept = .nothing ∧ next = ⟨issued, false, none⟩ ∧
        ∀ slot, slot ∈ slots ∨ slot ∈ swept → slot ∈ reached)
      .nothing ⟨issued, false, none⟩ swept := by
  induction slots generalizing report swept with
  | nil => exact sweeps_ret ⟨rfl, rfl, fun slot in_ => in_.resolve_left (by simp)⟩
  | cons idx rest ih =>
    have onward (report : ReapReport) : Sweeps queue now dead who (reapSlots queue now rest report)
        (fun _ kept next reached => kept = .nothing ∧ next = ⟨issued, false, none⟩ ∧
          ∀ slot, slot ∈ idx :: rest ∨ slot ∈ swept → slot ∈ reached)
        .nothing ⟨issued, false, none⟩ (idx :: swept) := by
      apply sweeps_mono (ih report fun entry in_ => known entry (List.mem_cons_of_mem idx in_))
      rintro _ _ _ reached ⟨rfl, rfl, all⟩
      refine ⟨rfl, rfl, fun slot in_ => all slot ?_⟩
      simp only [List.mem_cons] at in_ ⊢
      tauto
    apply sweeps_bind
    apply sweeps_act (accounts_aside (admits_steady.load _)) (covers_shape.admits.load (stateOf idx)).1
    rintro mem _ _ _ ⟨rfl, rfl⟩
    by_cases claimed : (stateOf idx).get mem = .claimed
    · refine ⟨swept, fun slot in_ => .inl in_, ?_⟩
      rw [if_neg (by simpa using claimed)]
      apply sweeps_bind
      apply sweeps_act (accounts_aside (admits_steady.load _)) (covers_shape.admits.load (deadlineOf idx)).1
      rintro mem _ _ dated ⟨rfl, rfl⟩
      have lapsed : ¬ (deadlineOf idx).get mem ≥ now := Nat.not_le.mpr (dated idx)
      refine ⟨swept, fun slot in_ => .inl in_, ?_⟩
      rw [if_neg lapsed]
      apply sweeps_bind
      apply sweeps_mono (sweeps_reapLapsed idx report (known idx List.mem_cons_self))
      rintro report _ _ _ ⟨rfl, rfl, rfl⟩
      exact onward report
    · refine ⟨idx :: swept, ?_, ?_⟩
      · intro slot in_
        rcases List.mem_cons.mp in_ with rfl | older
        · exact .inr claimed
        · exact .inl older
      · rw [if_pos claimed]
        exact onward report

theorem sweeps_reap :
    Sweeps queue now dead who (reap queue now)
      (fun _ kept next reached => kept = .nothing ∧ next = ⟨issued, false, none⟩ ∧
        ∀ slot < queue.capacity, slot ∈ reached) .nothing ⟨issued, false, none⟩ swept := by
  apply sweeps_bind
  apply sweeps_mono (sweeps_reapSlots (List.range queue.capacity) ⟨0, 0⟩ fun _ => List.mem_range.mp)
  rintro report _ _ reached ⟨rfl, rfl, all⟩
  apply sweeps_mono (sweeps_beside (accounts_aside (every_reapTail admits_steady report))
    (every_reapTail covers_shape.admits report))
  rintro _ _ _ _ ⟨⟨rfl, rfl⟩, rfl⟩
  exact ⟨rfl, rfl, fun slot known => all slot (.inl (List.mem_range.mpr known))⟩

end

section

variable {queue : Queue} {now dead : Nat} {config stop : CrashConfig} {reaper actor : Nat}
  {before own : List (Call × Answer)} {op : Call} {held : (Hands × Docket) × List Nat}

theorem booked_fresh (queue : Queue) (later : 0 < now) :
    (callers queue now fun _ => False).SafeFor (Booked queue now) (fun _ own held => AtRest own held)
      (fresh queue) := by
  obtain ⟨holdings, owned, threads⟩ := safe_initial queue
  have empty : holdings = fun _ => (none, .nothing) := funext threads
  refine ⟨fun _ => ((none, .nothing), ⟨[], false, none⟩), ⟨empty ▸ owned, ?_⟩, fun _ => ⟨rfl, rfl, rfl⟩⟩
  constructor
  · exact fun slot => later
  · intro slot claimed
    simp [fresh, init] at claimed
  · intro slot terminal
    simp [fresh, init, Terminal] at terminal
  · intro slot seq known
    cases known
  · intro slot seq known
    cases known
  · intro actor entry in_
    simp at in_
  · intro actor clearing
    simp at clearing
  · intro actor slot seq read
    simp at read

theorem booked_of_reachable (later : 0 < now)
    (reached : (callers queue now fun _ => False).Reachable (fresh queue) config) :
    (callers queue now fun _ => False).SafeFor (Booked queue now) (fun _ own held => AtRest own held) config :=
  safeFor_of_reachable (fun _ _ op _ dated resting => wp_dated op dated resting)
    (booked_fresh queue later) reached

/-- What an actor has between its calls, and for the reaper that it has been to
every slot when it has finished a reap since. -/
def Relieved (queue : Queue) (now reaper : Nat) (before : List (Call × Answer)) (actor : Nat)
    (own : List (Call × Answer)) (held : (Hands × Docket) × List Nat) : Prop :=
  AtRest own held.1 ∧ (actor = reaper → ∀ newer answer, own = newer ++ before →
    (Call.reap now, answer) ∈ newer → ∀ slot < queue.capacity, slot ∈ held.2)

/-- A call after which nothing new has to be known of the reaper's slots. -/
theorem Relieved.cons {answer : Answer}
    {kept : (Hands × Docket) × List Nat} (relieved : Relieved queue now reaper before actor own held)
    (resting : AtRest ((op, answer) :: own) kept.1) (same : kept.2 = held.2) (other : op ≠ .reap now) :
    Relieved queue now reaper before actor ((op, answer) :: own) kept := by
  refine ⟨resting, fun mine newer reply split in_ => ?_⟩
  rw [same]
  cases newer with
  | nil => cases in_
  | cons entry newer =>
    obtain ⟨rfl, rest⟩ := List.cons.inj split
    rcases List.mem_cons.mp in_ with eq | older
    · exact absurd (congrArg Prod.fst eq).symm other
    · exact relieved.2 mine newer reply rest older

theorem wp_reap (resting : AtRest own held.1) :
    (survivors queue now dead).wp (both (Booked queue now) (Swept dead)) actor (call queue (.reap now))
      (fun answer kept => Relieved queue now reaper before actor ((.reap now, answer) :: own) kept) held := by
  have swept : (survivors queue now dead).wp (both (Booked queue now) (Swept dead)) actor
      (call queue (.reap now))
      (fun answer kept => AtRest ((.reap now, answer) :: own) kept.1 ∧ ∀ slot < queue.capacity, slot ∈ kept.2)
      (((none, .nothing), ⟨issuedOf own, false, none⟩), held.2) := by
    show (survivors queue now dead).wp _ actor ((Answer.reaped <$> reap queue now).label .reaper) _ _
    rw [map_eq_pure_bind]
    apply wp_label
    apply wp_then sweeps_reap
    rintro report ⟨⟨⟨pending, kept⟩, next⟩, reached⟩ ⟨free, rfl, rfl, all⟩
    cases free
    exact ⟨⟨rfl, rfl, rfl⟩, all⟩
  have relieved : (survivors queue now dead).wp (both (Booked queue now) (Swept dead)) actor
      (call queue (.reap now))
      (fun answer kept => Relieved queue now reaper before actor ((.reap now, answer) :: own) kept)
      (((none, .nothing), ⟨issuedOf own, false, none⟩), held.2) :=
    wp_mono swept fun answer kept new => ⟨new.1, fun _ _ _ _ _ => new.2⟩
  refine wp_switch ?_ ?_ relieved
  · intro past mem holdings ok mine
    have one : (holdings actor).1 = held.1 := by rw [mine]
    have two : (holdings actor).2 = held.2 := by rw [mine]
    refine ⟨?_, ?_⟩
    · rw [update_fst]
      exact switch_clearing resting false ok.1 one
    · rw [update_fst, update_snd, ← two, update_eq_self]
      exact ok.2
  · rintro answer ⟨⟨-, issued, -⟩, all⟩
    exact ⟨⟨resting.1, resting.2.1.trans issued, resting.2.2⟩, all⟩

theorem relieved_of_reachable (later : 0 < now)
    (reached : (callers queue now fun _ => False).Reachable (fresh queue) stop)
    (idle : stop.thread reaper = .idle before) (onward : (survivors queue now dead).Reachable stop config) :
    (survivors queue now dead).SafeFor (both (Booked queue now) (Swept dead))
      (Relieved queue now reaper before) config := by
  refine safeFor_of_reachable ?_ ?_ onward
  · intro actor own op held dated relieved
    have plain : op ≠ .reap now → (survivors queue now dead).wp
        (both (Booked queue now) (Swept dead)) actor (call queue op)
        (fun answer kept => Relieved queue now reaper before actor ((op, answer) :: own) kept) held := by
      intro other
      apply wp_mono (wp_survivors (wp_dated op dated relieved.1) (shape_call queue op))
      rintro answer kept ⟨resting, same⟩
      exact relieved.cons resting same other
    by_cases reaps : op = .reap now
    · subst reaps
      exact wp_reap relieved.1
    · exact plain reaps
  · obtain ⟨holdings, booked, threads⟩ := booked_of_reachable later reached
    have shapes := every_of_reachable (shape_call queue) (by simp [fresh]) reached
    refine ⟨fun actor => (holdings actor, []), ⟨booked, by simp [Swept]⟩, fun actor => ?_⟩
    have held := threads actor
    cases thread : stop.thread actor with
    | idle own =>
      rw [thread] at held
      refine ⟨held, fun mine newer answer split in_ => ?_⟩
      subst mine
      rw [thread] at idle
      cases idle
      have none : newer = [] := by simpa using split
      subst none
      cases in_
    | running own op rest =>
      rw [thread] at held
      apply wp_mono (wp_survivors held (shapes actor own op rest thread))
      rintro answer kept ⟨resting, -⟩
      refine ⟨resting, fun mine => ?_⟩
      subst mine
      rw [thread] at idle
      cases idle

theorem mem_issuedOf (returned : (op, Answer.submitted (.ok handle)) ∈ own) :
    (handle.slotIdx, handle.seq) ∈ issuedOf own := by
  induction own with
  | nil => cases returned
  | cons entry own ih =>
    rcases List.mem_cons.mp returned with rfl | older
    · exact List.mem_cons_self
    · have later := ih older
      obtain ⟨call, answer⟩ := entry
      cases answer with
      | submitted out => exact List.mem_append_right _ later
      | worked | cancelled | reaped | acked | released | polled => exact later

/-- Every task the calls have returned is on record. -/
def Recorded (own : List (Call × Answer)) (history : CrashHistory) : Prop :=
  ∀ entry ∈ issuedOf own, history.2.named entry.1 entry.2

theorem recorded_of_reachable (later : 0 < now)
    (reached : (callers queue now fun _ => False).Reachable (fresh queue) stop)
    (idle : stop.thread reaper = .idle before)
    (onward : (survivors queue now dead).Reachable stop config) (actor : Nat) :
    Recorded (config.thread actor).own config.history := by
  have stable : ∀ (history : CrashHistory) (earlier new : Memory) (own : List (Call × Answer)),
      Recorded own history → ∀ past, Recorded own (past, history.2.note earlier new) :=
    fun history earlier new own known past entry in_ =>
      Chronicle.named_note.mpr (.inl (known entry in_))
  have one : ∀ actor, Recorded (stop.thread actor).own stop.history := by
    intro actor
    apply known_of_reachable (fun _ _ => rfl) _ _ (booked_of_reachable later) _ reached actor
    · exact fun _ _ earlier new history own known => stable history earlier new own known _
    · rintro history mem holdings actor own ok ⟨-, issued, -⟩ entry in_
      exact ok.2.issued actor entry (issued ▸ in_)
    · intro actor entry in_
      cases in_
  apply known_of_reachable (fun _ _ => rfl) _ _ (relieved_of_reachable later reached idle) one
    onward actor
  · exact fun _ _ earlier new history own known => stable history earlier new own known _
  · rintro history mem holdings actor own ok ⟨⟨-, issued, -⟩, -⟩ entry in_
    exact ok.1.2.issued actor entry (issued ▸ in_)

/-- Some run of those that go on has a claim return the task. -/
def ClaimedLater (queue : Queue) (now dead : Nat) (config : CrashConfig) (handle : TaskHandle) : Prop :=
  ∃ later worker own newer op task outcome, (callers queue now (· = dead)).Reachable config later ∧
    config.thread worker = .idle own ∧
    later.thread worker = .idle ((op, .worked (some (task, outcome))) :: (newer ++ own)) ∧
    task.idx = handle.slotIdx ∧ task.seq = handle.seq

/-- A task is saved: it has ended, its slot is queued on a READY shard so that a
later claim returns it, or a worker other than the one that stopped has claimed it. -/
def Saved (queue : Queue) (now dead : Nat) (config : CrashConfig) (contents : Shard → List Nat)
    (handle : TaskHandle) : Prop :=
  config.history.2.ended handle.slotIdx handle.seq ∨
    ((config.state.slot handle.slotIdx).seq = handle.seq ∧
      (((config.state.slot handle.slotIdx).state = .queued ∧
          (∃ shard, handle.slotIdx ∈ contents (.ready shard)) ∧ ClaimedLater queue now dead config handle) ∨
        ((config.state.slot handle.slotIdx).state = .claimed ∧
          ∃ worker, worker ≠ dead ∧ standingClaim handle.slotIdx config.history.1.2 = some worker)))

/-- The slot is off every stack, in the hands of an operation in progress. -/
def InHands (config : CrashConfig) (contents : Shard → List Nat) (slot : Nat) : Prop :=
  (∀ shard, slot ∉ contents shard) ∧ ∃ holder own op rest, holders slot config.history.1.2 = [holder] ∧
    config.thread holder = .running own op rest

theorem saved_or_inHands (later : 0 < now) {stop config : CrashConfig} {reaper : Nat}
    {before newer : List (Call × Answer)} {answer : Answer}
    (reached : (callers queue now fun _ => False).Reachable (fresh queue) stop)
    (idle : stop.thread reaper = .idle before)
    (onward : (callers queue now (· = dead)).Reachable stop config) (live : reaper ≠ dead)
    (finished : config.thread reaper = .idle (newer ++ before)) (reaped : (Call.reap now, answer) ∈ newer) :
    ∃ contents, (∀ shard, Linked config.state.lists.next (config.state.lists.head shard).slot (contents shard)) ∧
      ∀ actor op handle, (op, Answer.submitted (.ok handle)) ∈ (config.thread actor).own →
        Saved queue now dead config contents handle ∨ InHands config contents handle.slotIdx := by
  obtain ⟨holdings, ⟨⟨⟨contents, owned⟩, account⟩, swept⟩, threads⟩ :=
    relieved_of_reachable later reached idle onward
  obtain ⟨place, owing, placed⟩ := owned.own
  have clean : ∀ slot < queue.capacity, (config.state.slot slot).state = .claimed →
      standingClaim slot config.history.1.2 ≠ some dead := by
    have relieved := threads reaper
    rw [finished] at relieved
    exact fun slot known => swept reaper slot (relieved.2 rfl newer answer rfl reaped slot known)
  refine ⟨contents, owned.stack.linked, fun actor op handle returned => ?_⟩
  have named : config.history.2.named handle.slotIdx handle.seq :=
    recorded_of_reachable later reached idle onward actor _ (mem_issuedOf returned)
  have known := account.known _ _ named
  obtain ⟨used, ended | current⟩ := account.named _ _ named
  · exact .inl (.inl ended)
  have allowed := placed.allowed handle.slotIdx known
  cases here : place handle.slotIdx with
  | out =>
    rw [here] at allowed
    left
    refine .inr ⟨current, .inr ⟨allowed, ?_⟩⟩
    cases claim : standingClaim handle.slotIdx config.history.1.2 with
    | none => exact absurd claim (account.claimed _ allowed)
    | some worker =>
      refine ⟨worker, fun same => ?_, rfl⟩
      subst same
      exact clean _ known allowed claim
  | stack shard =>
    rw [here] at allowed
    left
    cases shard with
    | free shard =>
      exact .inl (current ▸ account.ended _ (allowed.resolve_left used))
    | ready shard =>
      rcases allowed with queued | cancelled
      · have listed := (placed.listed (.ready shard) handle.slotIdx).mpr ⟨known, here⟩
        obtain ⟨last, more, task, outcome, reach, thread, slot, seq⟩ :
            ∃ last more task outcome, (callers queue now (· = dead)).Reachable config last ∧
              last.thread reaper = .idle ((claiming shard, .worked (some (task, outcome))) ::
                (more ++ (newer ++ before))) ∧
              task.idx = handle.slotIdx ∧ task.seq = (config.state.slot handle.slotIdx).seq :=
          claimed_of_queued live finished (owned.stack.linked _) (owned.stack.nodup _) listed queued
        exact .inr ⟨current, .inl ⟨queued, ⟨shard, listed⟩, last, reaper, _, more, _, task, outcome, reach,
          finished, thread, slot, seq.trans current⟩⟩
      · exact .inl (current ▸ account.ended _ (.inr (.inr cancelled)))
  | hand holder mode =>
    right
    have holding : holders handle.slotIdx config.history.1.2 = [holder] := by
      rw [placed.holders _ known, here]
      rfl
    have taken := (placed.hand holder _ mode).mpr ⟨known, here⟩
    have held := threads holder
    cases thread : config.thread holder with
    | idle own =>
      rw [thread] at held
      have empty : (holdings holder).1.1 = (none, .nothing) := held.1.1
      rw [show ((holdings holder).1.1).2 = Held.nothing by rw [empty]] at taken
      cases taken
    | running own op rest =>
      refine ⟨fun shard listed => ?_, holder, own, op, rest, holding, thread⟩
      cases here.symm.trans ((placed.listed shard _).mp listed).2

end

section

instance (queue : Queue) (now : Nat) (stopped : Nat → Prop) (own : List (Call × Answer)) :
    (op : Call) → Decidable ((callers queue now stopped).enabled own op)
  | .submit _ deadline _ => inferInstanceAs (Decidable (deadline < now))
  | .work _ none _ _ => isTrue (by intro value equal; cases equal)
  | .work _ (some deadline) _ _ =>
    decidable_of_iff (deadline < now) ⟨fun before value equal => by cases equal; exact before,
      fun dated => dated deadline rfl⟩
  | .cancel _ | .reap _ | .ack _ | .reapBindings _ _ | .poll _ => inferInstanceAs (Decidable True)

instance (queue : Queue) (now : Nat) (stopped : Nat → Prop) [DecidablePred stopped] (actor : Nat)
    (site : Role × Site) (memory : Memory) (history : CrashHistory) :
    Decidable ((callers queue now stopped).allowed actor site memory history) :=
  inferInstanceAs (Decidable (¬ stopped actor ∧ (system queue).actors.allowed actor site.2 memory history.1))

abbrev CrashThread := Thread Memory (Role × Site) Call (List (Call × Answer)) Answer

/-- The handle of an actor whose one call was a submit. -/
def handed : CrashThread → Option TaskHandle
  | .idle [(_, .submitted (.ok handle))] => some handle
  | _ => none

theorem mem_of_handed (handed : handed thread = some handle) :
    ∃ op, (op, Answer.submitted (.ok handle)) ∈ thread.own := by
  unfold Task.handed at handed
  split at handed
  · cases handed
    exact ⟨_, List.mem_cons_self⟩
  · cases handed

/-- The time of the one call of an actor that was a reap. -/
def reapedAt : CrashThread → Option Nat
  | .idle [(.reap now, .reaped _)] => some now
  | _ => none

theorem idle_of_reapedAt (reaped : reapedAt thread = some now) :
    ∃ report, thread = .idle ([(.reap now, .reaped report)] ++ []) := by
  unfold Task.reapedAt at reaped
  split at reaped
  · cases reaped
    exact ⟨_, rfl⟩
  · cases reaped

/-- An actor that has made no call. -/
def untouched : CrashThread → Bool
  | .idle [] => true
  | _ => false

theorem idle_of_untouched (untouched : untouched thread = true) : thread = .idle [] := by
  unfold Task.untouched at untouched
  split at untouched
  · rfl
  · cases untouched

/-- Worker 1 stops after `steps` steps of its claim. -/
def stopping (steps : Nat) : List (Stretch Call) :=
  [.begin 0 (.submit .zero 5 none), .run 0 60 1, .begin 1 (completing 77), .run 1 steps 1]

def stoppedAfter (steps : Nat) : CrashConfig :=
  (callers single 10 fun _ => False).follow (stopping steps) (fresh single)

def reapedAfter (steps : Nat) : CrashConfig :=
  (callers single 10 (· = 1)).follow [.begin 2 (.reap 10), .run 2 60 1] (stoppedAfter steps)

/-- Worker 1 stops with the popped slot in its hands: the task stays queued, on
no READY shard, and the reap does not see it. -/
theorem popped_not_saved : ∃ stop config : CrashConfig,
    (callers single 10 fun _ => False).Reachable (fresh single) stop ∧
    (callers single 10 (· = 1)).Reachable stop config ∧
    (∃ report, config.thread 2 = .idle [(.reap 10, .reaped report)]) ∧ stop.thread 2 = .idle [] ∧
    ∃ actor op handle, (op, Answer.submitted (.ok handle)) ∈ (config.thread actor).own ∧
      ∀ contents, (∀ shard, Linked config.state.lists.next (config.state.lists.head shard).slot
        (contents shard)) → ¬ Saved single 10 1 config contents handle := by
  refine ⟨stoppedAfter 9, reapedAfter 9, reachable_follow _ .refl, reachable_follow _ .refl,
    idle_of_reapedAt (by decide +kernel), idle_of_untouched (by decide +kernel), 0, ?_⟩
  obtain ⟨op, member⟩ : ∃ op, (op, Answer.submitted (.ok ⟨0, 1⟩)) ∈ ((reapedAfter 9).thread 0).own :=
    mem_of_handed (by decide +kernel)
  refine ⟨op, ⟨0, 1⟩, member, fun contents linked saved => ?_⟩
  have ended : (reapedAfter 9).history.2.ended 0 1 = false := by decide +kernel
  have queued : ((reapedAfter 9).state.slot 0).state = .queued := by decide +kernel
  have ends : ∀ shard : Fin shards,
      ((reapedAfter 9).state.lists.head (.ready shard)).slot = listEnd := by decide +kernel
  generalize reapedAfter 9 = config at ended queued ends linked saved
  rcases saved with finished | ⟨-, ⟨-, ⟨shard, listed⟩, -⟩ | ⟨claimed, -⟩⟩
  · rw [ended] at finished
    cases finished
  · have none := linked (.ready shard)
    rw [ends shard] at none
    rw [none.eq_nil] at listed
    cases listed
  · rw [queued] at claimed
    cases claimed

/-- Worker 1 stops right after its claim, and the reap queues the task again. -/
theorem saved_of_claimed :
    (∃ contents, (∀ shard, Linked (reapedAfter 12).state.lists.next
        ((reapedAfter 12).state.lists.head shard).slot (contents shard)) ∧
      ∀ actor op handle, (op, Answer.submitted (.ok handle)) ∈ ((reapedAfter 12).thread actor).own →
        Saved single 10 1 (reapedAfter 12) contents handle ∨ InHands (reapedAfter 12) contents handle.slotIdx) ∧
    holders 0 (reapedAfter 12).history.1.2 = [] := by
  obtain ⟨report, finished⟩ : ∃ report, (reapedAfter 12).thread 2 = .idle ([(.reap 10, .reaped report)] ++ []) :=
    idle_of_reapedAt (by decide +kernel)
  have reached : (callers single 10 fun _ => False).Reachable (fresh single) (stoppedAfter 12) :=
    reachable_follow _ .refl
  have onward : (callers single 10 (· = 1)).Reachable (stoppedAfter 12) (reapedAfter 12) :=
    reachable_follow _ .refl
  have idle : (stoppedAfter 12).thread 2 = .idle [] := idle_of_untouched (by decide +kernel)
  have fates := saved_or_inHands (by decide) reached idle onward (by decide) finished List.mem_cons_self
  exact ⟨fates, by decide +kernel⟩

end

end ShmActors.Task
