import ShmActors.Lib.Schedule

/-! Programs whose accesses carry who makes them: the same code under another
label is told apart by the history, and what was proved of the bare code still
holds under the label. -/

namespace ShmActors.Lib

open Function

variable {State Site Tag Result Other : Type}

namespace Program

def label (tag : Tag) : Program State Site Result → Program State (Tag × Site) Result
  | ret result => ret result
  | act site update next => act (tag, site) update (fun state => (next state).label tag)
  | pick next => pick (fun choice => (next choice).label tag)
  | halt => halt

variable {code : Program State Site Result} {Whole Place : Type} {part : Ref Whole State} {place : Site → Place}

theorem every_label {tagged : Tag × Site → (State → State) → Prop} {tag : Tag}
    (every : code.Every kind) (lift : ∀ site update, kind site update → tagged (tag, site) update) :
    (code.label tag).Every tagged := by
  induction code with
  | ret res => trivial
  | act site update next ih => exact ⟨lift site update every.1, fun st => ih st (every.2 st)⟩
  | pick next ih => exact fun choice => ih choice (every choice)
  | halt => trivial

/-- The program without its labels. -/
def bare : Program State (Tag × Site) Result → Program State Site Result
  | ret result => ret result
  | act site update next => act site.2 update (fun state => (next state).bare)
  | pick next => pick (fun choice => (next choice).bare)
  | halt => halt

@[simp] theorem bare_label (tag : Tag) (code : Program State Site Result) :
    (code.label tag).bare = code := by
  induction code with
  | ret res => rfl
  | act site update next ih => exact congrArg (act site update) (funext ih)
  | pick next ih => exact congrArg pick (funext ih)
  | halt => rfl

@[simp] theorem bare_bind (code : Program State (Tag × Site) Result)
    (rest : Result → Program State (Tag × Site) Other) :
    (code >>= rest).bare = code.bare >>= fun res => (rest res).bare := by
  induction code with
  | ret res => rfl
  | act site update next ih => exact congrArg (act site.2 update) (funext ih)
  | pick next ih => exact congrArg pick (funext ih)
  | halt => rfl

@[simp] theorem bare_map (change : Result → Other) (code : Program State (Tag × Site) Result) :
    (change <$> code).bare = change <$> code.bare := by
  rw [map_eq_pure_bind, map_eq_pure_bind, bare_bind]
  rfl

@[simp] theorem bare_ret (res : Result) : (ret res : Program State (Tag × Site) Result).bare = ret res :=
  rfl

@[simp] theorem bare_ite (cond : Prop) [Decidable cond] (yes no : Program State (Tag × Site) Result) :
    (if cond then yes else no).bare = if cond then yes.bare else no.bare := by
  split <;> rfl

theorem every_bare {code : Program State (Tag × Site) Result} :
    code.bare.Every kind ↔ code.Every fun site update => kind site.2 update := by
  induction code with
  | ret res => exact Iff.rfl
  | act site update next ih => exact and_congr Iff.rfl (forall_congr' ih)
  | pick next ih => exact forall_congr' ih
  | halt => exact Iff.rfl

/-- A program over part of a larger state. -/
def within {Whole Place : Type} (part : Ref Whole State) (place : Site → Place) :
    Program State Site Result → Program Whole Place Result
  | ret result => ret result
  | act site update next => act (place site) (fun whole => part.set (update (part.get whole)) whole)
      (fun whole => (next (part.get whole)).within part place)
  | pick next => pick (fun choice => (next choice).within part place)
  | halt => halt

theorem within_whole (code : Program State Site Result) :
    code.within (⟨id, fun part _ => part⟩ : Ref State State) id = code := by
  induction code with
  | ret res => rfl
  | act site update next ih => exact congrArg (act site update) (funext ih)
  | pick next ih => exact congrArg pick (funext ih)
  | halt => rfl

theorem alone_within (get_set : ∀ val whole, part.get (part.set val whole) = val)
    (set_set : ∀ one two whole, part.set one (part.set two whole) = part.set one whole)
    (set_get : ∀ whole, part.set (part.get whole) whole = whole)
    (code : Program State Site Result) (whole : Whole) :
    (code.within part place).alone whole =
      (code.alone (part.get whole)).map fun done => (done.1, part.set done.2 whole) := by
  induction code generalizing whole with
  | ret res => simp [within, alone, set_get]
  | act site update next ih => simp [within, alone, ih, get_set, set_set]
  | pick next ih => exact ih 0 whole
  | halt => rfl

theorem every_within (every : code.Every kind) (lift : ∀ site update, kind site update →
      larger (place site) (fun whole => part.set (update (part.get whole)) whole)) :
    (code.within part place).Every larger := by
  induction code with
  | ret res => trivial
  | act site update next ih => exact ⟨lift site update every.1, fun whole => ih _ (every.2 _)⟩
  | pick next ih => exact fun choice => ih choice (every choice)
  | halt => trivial

theorem every_mono (every : code.Every kind) (weaken : ∀ site update, kind site update → weaker site update) :
    code.Every weaker := by
  rw [← code.within_whole]
  exact every_within every weaken

end Program

section

variable (site : Tag × Site) (cell : Ref State Value)

@[simp] theorem bare_load : (load site cell).bare = load site.2 cell := rfl

@[simp] theorem bare_store (val : Value) : (store site cell val).bare = store site.2 cell val := rfl

variable [DecidableEq Value] (now new : Value)

@[simp] theorem bare_compareExchange :
    (compareExchange site cell now new).bare = compareExchange site.2 cell now new := rfl

@[simp] theorem bare_compareExchangeWeak :
    (compareExchangeWeak site cell now new).bare = compareExchangeWeak site.2 cell now new := by
  refine congrArg Program.pick (funext fun choice => ?_)
  cases choice <;> rfl

end

section

variable {kind : Site → (State → State) → Prop}

@[simp] theorem bare_repeatLoop (body : Program State (Tag × Site) (Option Value)) :
    (repeatLoop body).bare = repeatLoop body.bare := by
  refine congrArg Program.pick (funext fun bound => ?_)
  induction bound with
  | zero => rfl
  | succ bound ih =>
    rw [rounds, rounds, Program.bare_bind]
    congr 1
    funext out
    cases out with
    | some val => rfl
    | none => exact ih

@[simp] theorem bare_forEach (body : Item → Program State (Tag × Site) Unit) (items : List Item) :
    (forEach body items).bare = forEach (fun item => (body item).bare) items := by
  induction items with
  | nil => rfl
  | cons item rest ih => simp [forEach, ih]

theorem every_repeatFrom {body : Loop → Program State Site (Loop ⊕ Value)}
    (round : ∀ now, (body now).Every kind) (start : Loop) : (repeatFrom body start).Every kind := by
  intro bound
  induction bound generalizing start with
  | zero => trivial
  | succ bound ih =>
    refine Program.every_bind (round start) fun out => ?_
    cases out with
    | inl next => exact ih next
    | inr val => trivial

theorem every_forEach (items : List Item)
    (each : ∀ item ∈ items, (body item).Every kind) : (forEach body items).Every kind := by
  induction items with
  | nil => trivial
  | cons item rest ih =>
    refine Program.every_bind (each item List.mem_cons_self) fun _ => ih fun other in_ => ?_
    exact each other (List.mem_cons_of_mem item in_)

end

namespace Actors

variable {History Past Op Local Resource Note : Type}

/-- The actors as seen by code under one label. -/
def under (actors : Actors State (Tag × Site) History Op Local Result) (tag : Tag) :
    Actors State Site History Empty Unit Unit where
  program op := op.elim
  enabled _ _ := False
  start own _ := own
  finish own _ _ := own
  track actor site := actors.track actor (tag, site)
  allowed actor site := actors.allowed actor (tag, site)

variable {inv : History → State → (Nat → Resource) → Prop} {actor : Nat} {program : Program State Site Value}
  {one : Actors State Site Past Op Local Result}

theorem wp_label {actors : Actors State (Tag × Site) History Op Local Result}
    (holds : (actors.under tag).wp inv actor program post held) :
    actors.wp inv actor (program.label tag) post held := by
  induction program generalizing held with
  | ret val => exact holds
  | act site update next ih =>
    intro past st holdings ok same may
    obtain ⟨kept, new, rest⟩ := holds past st holdings ok same may
    exact ⟨kept, new, ih st rest⟩
  | pick next ih => exact fun choice => ih choice (holds choice)
  | halt => trivial

/-- What holds among some actors holds, over a part of the state, among others that
see more and do less. -/
theorem wp_within {Whole Place : Type}
    {two : Actors Whole Place History Op' Local' Result'} {part : Ref Whole State} {place : Site → Place}
    (view : History → Past) (get_set : ∀ val whole, part.get (part.set val whole) = val)
    {inv : Past → State → (Nat → Resource) → Prop}
    (track : ∀ site old new past, view (two.track actor (place site) old new past) =
      one.track actor site (part.get old) (part.get new) (view past))
    (may : ∀ site whole past, two.allowed actor (place site) whole past →
      one.allowed actor site (part.get whole) (view past))
    (holds : one.wp inv actor program post held) :
    two.wp (fun past whole => inv (view past) (part.get whole)) actor (program.within part place)
      post held := by
  induction program generalizing held with
  | ret val => exact holds
  | act site update next ih =>
    intro past whole holdings ok same permitted
    obtain ⟨kept, new, rest⟩ :=
      holds (view past) (part.get whole) holdings ok same (may site whole past permitted)
    refine ⟨kept, ?_, ih _ rest⟩
    show inv (view _) _ _
    rw [track, get_set]
    exact new
  | pick next ih => exact fun choice => ih choice (holds choice)
  | halt => trivial

/-- The case of the whole state. -/
theorem wp_transfer {two : Actors State Site History Op' Local' Result'} (view : History → Past)
    {inv : Past → State → (Nat → Resource) → Prop}
    (track : ∀ site old new past,
      view (two.track actor site old new past) =
        one.track actor site old new (view past))
    (may : ∀ site st past, two.allowed actor site st past →
      one.allowed actor site st (view past))
    (holds : one.wp inv actor program post held) :
    two.wp (fun past => inv (view past)) actor program post held := by
  have whole : two.wp _ actor (program.within (⟨id, fun part _ => part⟩ : Ref State State) id) post held :=
    wp_within view (fun _ _ => rfl) track may holds
  rwa [program.within_whole] at whole

/-- A program none of whose accesses disturbs the invariant. -/
theorem wp_of_every {actors : Actors State Site History Op Local Result}
    (every : program.Every fun site update => ∀ past st holdings, inv past st holdings →
      actors.allowed actor site st past →
      inv (actors.track actor site st (update st) past) (update st) holdings) :
    actors.wp inv actor program (fun _ kept => kept = held) held := by
  induction program with
  | ret val => rfl
  | act site update next ih =>
    intro past st holdings ok same may
    refine ⟨held, ?_, ih st (every.2 st)⟩
    rw [← same, update_eq_self]
    exact every.1 past st holdings ok may
  | pick next ih => exact fun choice => ih choice (every choice)
  | halt => trivial

/-- An invariant, and what is known beyond it: every actor has a note beside what
it holds. -/
def both (inv : History → State → (Nat → Resource) → Prop)
    (extra : History → State → (Nat → Resource) → (Nat → Note) → Prop) (history : History)
    (state : State) (holdings : Nat → Resource × Note) : Prop :=
  inv history state (fun actor => (holdings actor).1) ∧
    extra history state (fun actor => (holdings actor).1) fun actor => (holdings actor).2

section

variable {actors : Actors State Site History Op Local Result}

theorem update_fst (holdings : Nat → Resource × Note) (actor : Nat) (kept : Resource) (note : Note) :
    (fun other => (update holdings actor (kept, note) other).1) =
      update (fun other => (holdings other).1) actor kept :=
  comp_update Prod.fst ..

theorem update_snd (holdings : Nat → Resource × Note) (actor : Nat) (kept : Resource) (note : Note) :
    (fun other => (update holdings actor (kept, note) other).2) =
      update (fun other => (holdings other).2) actor note :=
  comp_update Prod.snd ..

/-- A program specified before, none of whose accesses matters to the notes. -/
theorem wp_beside (holds : actors.wp inv actor program post held)
    (every : program.Every fun site update => ∀ past st holdings notes kept,
      inv past st holdings → extra past st holdings notes → notes actor = note → actors.allowed actor site st past →
      inv (actors.track actor site st (update st) past) (update st) (Function.update holdings actor kept) →
      extra (actors.track actor site st (update st) past) (update st) (Function.update holdings actor kept) notes) :
    actors.wp (both inv extra) actor program (fun val kept => post val kept.1 ∧ kept.2 = note) (held, note) := by
  induction program generalizing held with
  | ret val => exact ⟨holds, rfl⟩
  | act site update next ih =>
    intro past st holdings ok same may
    have mine : (holdings actor).1 = held := by rw [same]
    have noted : (holdings actor).2 = note := by rw [same]
    obtain ⟨kept, new, later⟩ := holds past st _ ok.1 mine may
    refine ⟨(kept, note), ⟨?_, ?_⟩, ih st later (every.2 st)⟩
    · rw [update_fst]
      exact new
    · rw [update_fst, update_snd, ← noted, update_eq_self]
      exact every.1 past st _ _ kept ok.1 ok.2 noted may new
  | pick next ih => exact fun choice => ih choice (holds choice) (every choice)
  | halt => trivial

/-- One access specified before, with what it does to the notes. -/
theorem wp_act_beside {site : Site} {update : State → State} {val : State → Value}
    {goal : Value → Resource × Note → Prop}
    (holds : actors.wp inv actor (.act site update fun st => .ret (val st)) post held)
    (step : ∀ past st holdings notes kept, inv past st holdings →
      extra past st holdings notes → holdings actor = held → notes actor = note →
      actors.allowed actor site st past →
      inv (actors.track actor site st (update st) past) (update st)
        (Function.update holdings actor kept) → post (val st) kept →
      ∃ next, extra (actors.track actor site st (update st) past) (update st)
        (Function.update holdings actor kept) (Function.update notes actor next) ∧
        goal (val st) (kept, next)) :
    actors.wp (both inv extra) actor (.act site update fun st => .ret (val st)) goal (held, note) := by
  intro past st holdings ok same may
  have mine : (holdings actor).1 = held := by rw [same]
  have noted : (holdings actor).2 = note := by rw [same]
  obtain ⟨kept, new, done⟩ := holds past st _ ok.1 mine may
  obtain ⟨next, known, reached⟩ :=
    step past st _ _ kept ok.1 ok.2 mine noted may new done
  refine ⟨(kept, next), ⟨?_, ?_⟩, reached⟩
  · rw [update_fst]
    exact new
  · rw [update_fst, update_snd]
    exact known

end

end Actors

end ShmActors.Lib
