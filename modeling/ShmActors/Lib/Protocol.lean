import ShmActors.Lib.Labels

/-! Protocols: which accesses an actor may make in which phase, as a relation
that knows nothing of the code. A program that follows its protocol keeps every
invariant the protocol's moves keep, whatever the other actors do. -/

namespace ShmActors.Lib

open Function

/-- The moves of a protocol: an access leads from one phase to another and from
one state to another. -/
abbrev Protocol (State Site Phase : Type) := Site → Phase → Phase → State → State → Prop

variable {State Site Tag Phase Value Other Loop Item : Type}

namespace Program

/-- Every access of the program is a move from the phase the program is in. -/
def Follows (moves : Protocol State Site Phase) :
    Program State Site Value → (Value → Phase → Prop) → Phase → Prop
  | .ret value, post, phase => post value phase
  | .act site update next, post, phase => ∀ state, ∃ later,
      moves site phase later state (update state) ∧ (next state).Follows moves post later
  | .pick next, post, phase => ∀ choice, (next choice).Follows moves post phase
  | .halt, _, _ => True

/-- It follows the moves and leaves the phase `last` behind. -/
abbrev Leads (moves : Protocol State Site Phase) (program : Program State Site Value) (last first : Phase) : Prop :=
  program.Follows moves (fun _ later => later = last) first

variable {moves : Protocol State Site Phase} {phase : Phase} {program : Program State Site Value}
  {post : Value → Phase → Prop} {again : Phase → Prop}

theorem follows_weaken (follows : program.Follows moves one phase)
    (loosen : ∀ site phase later old new, moves site phase later old new → looser site phase later old new)
    (weaker : ∀ val later, one val later → two val later) : program.Follows looser two phase := by
  induction program generalizing phase with
  | ret val => exact weaker val phase follows
  | act site update next ih =>
    intro st
    obtain ⟨later, move, rest⟩ := follows st
    exact ⟨later, loosen site phase later st _ move, ih st rest⟩
  | pick next ih => exact fun choice => ih choice (follows choice)
  | halt => trivial

theorem follows_mono (follows : program.Follows moves one phase)
    (weaker : ∀ val later, one val later → two val later) : program.Follows moves two phase :=
  follows_weaken follows (fun _ _ _ _ _ => id) weaker

theorem follows_loosen (loosen : ∀ site phase later old new, moves site phase later old new →
      looser site phase later old new)
    (follows : program.Follows moves post phase) : program.Follows looser post phase :=
  follows_weaken follows loosen fun _ _ => id

theorem follows_bind {post : Other → Phase → Prop}
    (follows : program.Follows moves (fun val later => (rest val).Follows moves post later) phase) :
    (program >>= rest).Follows moves post phase := by
  induction program generalizing phase with
  | ret val => exact follows
  | act site update next ih =>
    intro st
    obtain ⟨later, move, new⟩ := follows st
    exact ⟨later, move, ih st new⟩
  | pick next ih => exact fun choice => ih choice (follows choice)
  | halt => trivial

theorem follows_then {one : Value → Phase → Prop} {post : Other → Phase → Prop}
    (follows : program.Follows moves one phase)
    (new : ∀ val later, one val later → (rest val).Follows moves post later) :
    (program >>= rest).Follows moves post phase :=
  follows_bind (follows_mono follows new)

/-- A program that leaves a known phase behind, and what comes after it. -/
theorem follows_seq {post : Other → Phase → Prop} {middle : Value → Phase}
    (one : program.Follows moves (fun val later => later = middle val) phase)
    (two : ∀ val, (rest val).Follows moves post (middle val)) :
    (program >>= rest).Follows moves post phase :=
  follows_then one fun val _ same => same ▸ two val

theorem follows_map {change : Value → Other} {post : Other → Phase → Prop}
    (follows : program.Follows moves (fun val => post (change val)) phase) :
    (change <$> program).Follows moves post phase := by
  rw [map_eq_pure_bind]
  exact follows_bind follows

theorem follows_load (read : ∀ st, ∃ later, moves site phase later st st ∧ post (cell.get st) later) :
    (load site cell).Follows moves post phase := read

/-- A load whose value is tested. -/
theorem follows_load_ite {test : Value → Prop} [DecidablePred test]
    {yes no : Value → Program State Site Other} {post : Other → Phase → Prop}
    (holds : ∀ st, test (cell.get st) → ∃ later,
      moves site phase later st st ∧ (yes (cell.get st)).Follows moves post later)
    (fails : ∀ st, ¬test (cell.get st) → ∃ later,
      moves site phase later st st ∧ (no (cell.get st)).Follows moves post later) :
    (load site cell >>= fun val => if test val then yes val else no val).Follows moves post phase := by
  refine follows_bind (follows_load fun st => ?_)
  by_cases passes : test (cell.get st)
  · simpa only [if_pos passes] using holds st passes
  · simpa only [if_neg passes] using fails st passes

theorem follows_store {val : Value} {post : Unit → Phase → Prop}
    (write : ∀ st, ∃ later, moves site phase later st (cell.set val st) ∧ post () later) :
    (store site cell val).Follows moves post phase := write

theorem follows_fetchUpdate (step : ∀ st, ∃ later,
      moves site phase later st (cell.set (change (cell.get st)) st) ∧ post (cell.get st) later) :
    (fetchUpdate site cell change).Follows moves post phase := step

theorem follows_compareExchange [DecidableEq Value] {post : Option Value → Phase → Prop}
    (won : ∀ st, cell.get st = now →
      ∃ later, moves site phase later st (cell.set new st) ∧ post none later)
    (lost : ∀ st, cell.get st ≠ now →
      ∃ later, moves site phase later st st ∧ post (some (cell.get st)) later) :
    (compareExchange site cell now new).Follows moves post phase := by
  intro st
  by_cases same : cell.get st = now
  · simpa only [if_pos same, Follows] using won st same
  · simpa only [if_neg same, Follows] using lost st same

theorem follows_compareExchangeWeak [DecidableEq Value] {post : Option Value → Phase → Prop}
    (won : ∀ st, cell.get st = now →
      ∃ later, moves site phase later st (cell.set new st) ∧ post none later)
    (lost : ∀ st, ∃ later, moves site phase later st st ∧ post (some (cell.get st)) later) :
    (compareExchangeWeak site cell now new).Follows moves post phase
  | 0 => lost
  | _ + 1 => follows_compareExchange won fun st _ => lost st

/-- A phase in which every access is a move. -/
theorem follows_freely (free : ∀ site old new, moves site phase phase old new)
    (program : Program State Site Value) : program.Leads moves phase phase := by
  induction program with
  | ret val => rfl
  | act site update next ih => exact fun st => ⟨phase, free site st _, ih st⟩
  | pick next ih => exact fun choice => ih choice
  | halt => trivial

/-- A program whose accesses all stay among phases of one kind. -/
theorem follows_among (every : program.Every fun site update => ∀ phase, again phase → ∀ st,
      ∃ later, moves site phase later st (update st) ∧ again later) (one : again phase) :
    program.Follows moves (fun _ => again) phase := by
  induction program generalizing phase with
  | ret val => exact one
  | act site update next ih =>
    intro st
    obtain ⟨later, move, kept⟩ := every.1 phase one st
    exact ⟨later, move, ih st (every.2 st) kept⟩
  | pick next ih => exact fun choice => ih choice (every choice) one
  | halt => trivial

/-- A program none of whose accesses leaves the phase. -/
theorem follows_of_every
    (every : program.Every fun site update => ∀ st, moves site phase phase st (update st)) :
    program.Leads moves phase phase := by
  refine follows_among (every_mono every ?_) rfl
  rintro site update stays _ rfl st
  exact ⟨_, stays st, rfl⟩

/-- A coarser protocol, which stays in one phase whatever a finer one does. -/
theorem follows_forget (blur : ∀ site phase later old new, moves site phase later old new →
      coarse site resting resting old new)
    (follows : program.Follows moves post phase) : program.Leads coarse resting resting := by
  induction program generalizing phase with
  | ret val => rfl
  | act site update next ih =>
    intro st
    obtain ⟨later, move, new⟩ := follows st
    exact ⟨resting, blur site phase later st _ move, ih st new⟩
  | pick next ih => exact fun choice => ih choice (follows choice)
  | halt => trivial

theorem follows_label {moves : Protocol State (Tag × Site) Phase} {tag : Tag}
    (follows : program.Follows (fun site => moves (tag, site)) post phase) :
    (program.label tag).Follows moves post phase := by
  induction program generalizing phase with
  | ret val => exact follows
  | act site update next ih =>
    intro st
    obtain ⟨later, move, new⟩ := follows st
    exact ⟨later, move, ih st new⟩
  | pick next ih => exact fun choice => ih choice (follows choice)
  | halt => trivial

/-- A program over a part of the state, where the whole's protocol has the moves
of the part's. -/
theorem follows_within {part : Ref Whole State} {place : Site → Place} {whole : Protocol Whole Place Phase}
    (lift : ∀ site phase later st new, moves site phase later (part.get st) new →
      whole (place site) phase later st (part.set new st))
    (follows : program.Follows moves post phase) : (program.within part place).Follows whole post phase := by
  induction program generalizing phase with
  | ret val => exact follows
  | act site update next ih =>
    intro st
    obtain ⟨later, move, new⟩ := follows (part.get st)
    exact ⟨later, lift site phase later st _ move, ih _ new⟩
  | pick next ih => exact fun choice => ih choice (follows choice)
  | halt => trivial

/-- A loop whose rounds begin in phases of one kind. -/
theorem follows_repeatLoop (round : ∀ phase, again phase → body.Follows moves (fun out later => match out with
        | some val => post val later | none => again later) phase) (one : again phase) :
    (repeatLoop body).Follows moves post phase := by
  intro bound
  induction bound generalizing phase with
  | zero => trivial
  | succ bound ih =>
    refine follows_then (round phase one) fun out later new => ?_
    cases out with
    | some val => exact new
    | none => exact ih new

theorem follows_repeatFrom {body : Loop → Program State Site (Loop ⊕ Value)} {again : Loop → Phase → Prop}
    (round : ∀ now phase, again now phase → (body now).Follows moves
      (fun out later => match out with
        | .inl next => again next later
        | .inr val => post val later) phase) {start : Loop} (one : again start phase) :
    (repeatFrom body start).Follows moves post phase := by
  intro bound
  induction bound generalizing phase start with
  | zero => trivial
  | succ bound ih =>
    refine follows_then (round start phase one) fun out later new => ?_
    cases out with
    | inl next => exact ih new
    | inr val => exact new

theorem follows_forEach (items : List Item)
    (each : ∀ item ∈ items, ∀ phase, again phase → (body item).Follows moves (fun _ => again) phase)
    (one : again phase) : (forEach body items).Follows moves (fun _ => again) phase := by
  induction items generalizing phase with
  | nil => exact one
  | cons item rest ih =>
    refine follows_then (each item List.mem_cons_self phase one) fun _ later new => ?_
    exact ih (fun other in_ => each other (List.mem_cons_of_mem item in_)) new

end Program

namespace Actors

variable {History Op Local Result : Type} {actors : Actors State Site History Op Local Result}
  {moves : Op → Protocol State Site Phase} {inv : History → State → (Nat → Phase) → Prop}
  {rest : Local → Phase → Prop} {during : Op → Phase → Prop}
  {initial config : Config State Site History Op Local Result}

/-- A program that follows a protocol, where its moves keep an invariant of what the
phases stand for, and what is good of them. -/
theorem wp_of_follows {Resource : Type} {protocol : Protocol State Site Phase}
    {holds : History → State → (Nat → Resource) → Prop} {actor : Nat} {program : Program State Site Value}
    {post : Value → Phase → Prop} {phase : Phase} (image : Phase → Resource) (good : Phase → Prop)
    (keeps : ∀ site phase later past st new holdings, holds past st holdings → holdings actor = image phase →
      actors.allowed actor site st past → protocol site phase later st new → good phase →
      holds (actors.track actor site st new past) new (update holdings actor (image later)) ∧ good later)
    (follows : program.Follows protocol post phase) (fine : good phase) :
    actors.wp holds actor program (fun val kept => ∃ later, kept = image later ∧ good later ∧ post val later)
      (image phase) := by
  induction program generalizing phase with
  | ret val => exact ⟨phase, rfl, fine, follows⟩
  | act site update next ih =>
    intro past st holdings ok same may
    obtain ⟨later, move, new⟩ := follows st
    obtain ⟨kept, well⟩ := keeps site phase later past st _ holdings ok same may move fine
    exact ⟨image later, kept, ih st new well⟩
  | pick next ih => exact fun choice => ih choice (follows choice) fine
  | halt => trivial

/-- The moves of all operations keep the invariant. -/
def Keeps (actors : Actors State Site History Op Local Result) (moves : Op → Protocol State Site Phase)
    (inv : History → State → (Nat → Phase) → Prop) : Prop :=
  ∀ op actor site later before after history phases, inv history before phases →
    actors.allowed actor site before history → moves op site (phases actor) later before after →
    inv (actors.track actor site before after history) after (update phases actor later)

/-- The moves keep the invariant between states of which something is known. -/
def KeepsGiven (actors : Actors State Site History Op Local Result) (given : History → State → Prop)
    (moves : Op → Protocol State Site Phase) (inv : History → State → (Nat → Phase) → Prop) : Prop :=
  ∀ op actor site later before after history phases, given history before →
    given (actors.track actor site before after history) after → inv history before phases →
    actors.allowed actor site before history → moves op site (phases actor) later before after →
    inv (actors.track actor site before after history) after (update phases actor later)

/-- What every interleaving keeps: the invariant, of the phases the threads are in. -/
def Guided (actors : Actors State Site History Op Local Result) (moves : Op → Protocol State Site Phase)
    (inv : History → State → (Nat → Phase) → Prop) (rest : Local → Phase → Prop)
    (during : Op → Phase → Prop) (config : Config State Site History Op Local Result) : Prop :=
  ∃ phases, inv config.history config.state phases ∧
    ∀ actor, match config.thread actor with
      | .idle own => rest own (phases actor)
      | .running own op program => during op (phases actor) ∧ program.Follows (moves op)
          (fun result later => rest (actors.finish own op result) later) (phases actor)

theorem settle_guided (inside : during op phase) (follows : code.Follows (moves op)
      (fun res later => rest (actors.finish own op res) later) phase) : match actors.settle own op code with
      | .idle own => rest own phase | .running own op code => during op phase ∧ code.Follows (moves op)
          (fun res later => rest (actors.finish own op res) later) phase := by
  cases code with
  | ret res => exact follows
  | act | pick | halt => exact ⟨inside, follows⟩

section

variable (start : actors.Guided moves inv rest during initial) (reached : actors.Reachable initial config)
  (stays : ∀ op site phase later old new, during op phase → moves op site phase later old new → during op later)
  (programs : ∀ own op phase, actors.enabled own op → rest own phase →
    during op phase ∧ (actors.program op).Follows (moves op)
      (fun res later => rest (actors.finish (actors.start own op) op res) later) phase)

include start reached stays programs

/-- The rule: operations that follow their protocols, and moves that stay in the
phases of their operation and keep the invariant in the states that are reached. -/
theorem guided_of_known (keeps : actors.KeepsGiven given moves inv)
    (known : ∀ {config}, actors.Reachable initial config → given config.history config.state) :
    actors.Guided moves inv rest during config := by
  induction reached with
  | refl => exact start
  | tail earlier step ih =>
    obtain ⟨phases, ok, threads⟩ := ih
    have next := known (earlier.tail step)
    cases step with
    | start who own op idle enabled =>
      refine ⟨phases, ok, fun other => ?_⟩
      by_cases same : other = who
      · subst other
        have held := threads who
        rw [idle] at held
        obtain ⟨inside, follows⟩ := programs own op _ enabled held
        simp only [Config.setThread, update_self]
        exact settle_guided inside follows
      · simpa [Config.setThread, same] using threads other
    | act who own op site update next running may =>
      have guided := threads who
      rw [running] at guided
      obtain ⟨inside, follows⟩ := guided
      obtain ⟨later, move, new⟩ := follows _
      refine ⟨_, keeps op who site later _ _ _ phases (known earlier) next ok may move, fun other => ?_⟩
      by_cases same : other = who
      · subst other
        simp only [update_self]
        exact settle_guided (stays op site _ _ _ _ inside move) new
      · simpa [same] using threads other
    | pick who own op next choice running =>
      have guided := threads who
      rw [running] at guided
      obtain ⟨inside, follows⟩ := guided
      refine ⟨phases, ok, fun other => ?_⟩
      by_cases same : other = who
      · subst other
        simp only [Config.setThread, update_self]
        exact settle_guided inside (follows choice)
      · simpa [Config.setThread, same] using threads other

theorem guided_of_reachable (keeps : actors.Keeps moves inv) : actors.Guided moves inv rest during config :=
  guided_of_known start reached stays programs (fun op who site later old new past phases (_ _ : True) =>
    keeps op who site later old new past phases) fun _ => trivial

end

end Actors

end ShmActors.Lib
