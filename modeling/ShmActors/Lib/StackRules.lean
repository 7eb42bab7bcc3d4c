import ShmActors.Lib.TaggedStack

/-! Actors over a state that keeps tagged stacks. The rules below reduce each
loop of loads and exchanges to its one effect: a node leaves a list for an
actor's hands, or goes back from them. -/

namespace ShmActors.Lib

open Function

/-- Where a state keeps its stacks. -/
structure StackView (Name State : Type) where
  get : State → Stacks Name
  set : Stacks Name → State → State
  get_set : ∀ memory state, get (set memory state) = memory

namespace StackView

variable {Name State : Type} (view : StackView Name State)

def head [DecidableEq Name] (name : Name) : Ref State Head where
  get state := (view.get state).head name
  set head state := view.set ((view.get state).setHead name head) state

def next (slot : Nat) : Ref State Nat where
  get state := (view.get state).next slot
  set link state := view.set ((view.get state).setNext slot link) state

end StackView

/-- Actors whose history counts the updates of every head, beside a `Past` of
the system's own. Their runs contain only timely exchanges. -/
structure StackActors (Name State Site Past Op Local Result : Type) where
  view : StackView Name State
  role : Site → Option (Access Name)
  record : Nat → Site → State → State → Past → Past
  program : Op → Program State Site Result
  enabled : Local → Op → Prop
  start : Local → Op → Local
  finish : Local → Op → Result → Local

namespace StackActors

variable {Name State Site Past Op Local Result : Type}

def actors [DecidableEq Name] (system : StackActors Name State Site Past Op Local Result) :
    Actors State Site (Tags Name × Past) Op Local Result where
  program := system.program
  enabled := system.enabled
  start := system.start
  finish := system.finish
  track actor site before after history :=
    (history.1.note actor (system.role site) (system.view.get before) (system.view.get after),
      system.record actor site before after history.2)
  allowed actor site _ history := history.1.Timely actor (system.role site)

instance [DecidableEq Name] (system : StackActors Name State Site Past Op Local Result)
    (actor : Nat) (site : Site) (state : State) (history : Tags Name × Past) :
    Decidable (system.actors.allowed actor site state history) :=
  inferInstanceAs (Decidable (history.1.Timely actor (system.role site)))

variable (system : StackActors Name State Site Past Op Local Result)

/-- Who owns the nodes that are on no list. -/
structure Ownership (Held : Type) where
  own : Past → State → (Name → List Nat) → (Nat → Held) → Prop
  nodes : Held → Nat → Prop
  exclusive : ∀ {past state contents held}, own past state contents held →
    ∀ {first second slot}, nodes (held first) slot → nodes (held second) slot → first = second
  outside : ∀ {past state contents held}, own past state contents held →
    ∀ {actor slot}, nodes (held actor) slot → slot ≠ listEnd ∧ ∀ name, slot ∉ contents name
  stable : ∀ {past state contents held} (memory : Stacks Name),
    own past state contents held → own past (system.view.set memory state) contents held

/-- The three accesses of one loop over one head, and that the system's own
history records nothing of them but the exchange. -/
structure StackSites (name : Name) where
  load : Site
  next : Site
  exchange : Site
  role_load : system.role load = some (.load name) := by rfl
  role_next : system.role next = none := by rfl
  role_exchange : system.role exchange = some (.exchange name) := by rfl
  quiet_load : ∀ actor before after past, system.record actor load before after past = past := by intros; rfl
  quiet_next : ∀ actor before after past, system.record actor next before after past = past := by intros; rfl
  quiet_exchange : ∀ actor before past, system.record actor exchange before before past = past

variable {system} {Held : Type} (ownership : system.Ownership Held) {held : Held}

/-- An actor in the middle of a loop: what it has loaded, and the node whose
link it has set to the loaded top. -/
structure Pending (Name : Type) where
  attempt : Attempt Name
  placed : Option Nat

def attempts (holdings : Nat → Option (Pending Name) × Held) (actor : Nat) :
    Option (Attempt Name) :=
  (holdings actor).1.map Pending.attempt

structure Ownership.Inv (history : Tags Name × Past) (state : State)
    (holdings : Nat → Option (Pending Name) × Held) (contents : Name → List Nat) : Prop where
  stack : StackInv (system.view.get state) history.1 contents (attempts holdings)
  own : ownership.own history.2 state contents (fun actor => (holdings actor).2)
  placed : ∀ actor, ∀ pending ∈ (holdings actor).1, ∀ slot ∈ pending.placed,
    ownership.nodes (holdings actor).2 slot ∧
      (system.view.get state).next slot = pending.attempt.current.slot

def Ownership.inv (history : Tags Name × Past) (state : State)
    (holdings : Nat → Option (Pending Name) × Held) : Prop :=
  ∃ contents, ownership.Inv history state holdings contents

/-- The specification of a program that starts and ends outside any loop. -/
def Does [DecidableEq Name] {Value : Type} (actor : Nat) (program : Program State Site Value)
    (post : Value → Held → Prop) (held : Held) : Prop :=
  system.actors.wp ownership.inv actor program (fun value kept => kept.1 = none ∧ post value kept.2)
    (none, held)

variable {ownership} {holdings : Nat → Option (Pending Name) × Held}

theorem attempts_update (holdings : Nat → Option (Pending Name) × Held) (actor : Nat)
    (pending : Option (Pending Name)) (held : Held) :
    attempts (Function.update holdings actor (pending, held)) =
      Function.update (attempts holdings) actor (pending.map Pending.attempt) := by
  funext other
  by_cases same : other = actor
  · subst other
    simp [attempts]
  · simp [attempts, same]

theorem held_update (holdings : Nat → Option (Pending Name) × Held) (actor : Nat)
    (pending : Option (Pending Name)) (held : Held) :
    (fun other => (Function.update holdings actor (pending, held) other).2) =
      Function.update (fun other => (holdings other).2) actor held := by
  funext other
  by_cases same : other = actor
  · subst other
    simp
  · simp [same]

theorem held_update_same (pending : Option (Pending Name)) (same : (holdings actor).2 = held) :
    (fun other => (Function.update holdings actor (pending, held) other).2) = fun other => (holdings other).2 := by
  rw [held_update, ← same]
  exact update_eq_self actor _

/-- What other actors have placed is untouched by a change that keeps the links
of their nodes. -/
theorem placed_update {mem : Stacks Name} {next : Nat → Nat}
    (old : ∀ actor, ∀ pending ∈ (holdings actor).1, ∀ slot ∈ pending.placed, ownership.nodes (holdings actor).2 slot ∧
        mem.next slot = pending.attempt.current.slot)
    (links : ∀ other, other ≠ actor → ∀ slot, ownership.nodes (holdings other).2 slot → next slot = mem.next slot)
    (mine : ∀ entry ∈ pending, ∀ slot ∈ entry.placed, ownership.nodes held slot ∧
      next slot = entry.attempt.current.slot) :
    ∀ other, ∀ entry ∈ (Function.update holdings actor (pending, held) other).1, ∀ slot ∈ entry.placed,
      ownership.nodes (Function.update holdings actor (pending, held) other).2 slot ∧
        next slot = entry.attempt.current.slot := by
  intro other entry present slot in_
  by_cases same : other = actor
  · subst other
    rw [update_self] at present ⊢
    exact mine entry present slot in_
  · rw [update_of_ne same] at present ⊢
    obtain ⟨node, link⟩ := old other entry present slot in_
    exact ⟨node, (links other same slot node).trans link⟩

section

variable [DecidableEq Name] {name : Name} {update : State → State} {next : State → Program State Site Value}
  (sites : system.StackSites name)

/-- A load opens an attempt, unless the program has no use for one. -/
theorem wp_loadHead (loaded : ∀ now since, post now (none, held) ∨
      post now (some ⟨⟨name, now, since, none⟩, none⟩, held)) :
    system.actors.wp ownership.inv actor (load sites.load (system.view.head name)) post (none, held) := by
  intro past st holdings ⟨lists, ok⟩ same may
  have fresh := ok.stack.load actor name
  have open_or_not : ∀ pending : Option (Pending Name),
      StackInv (system.view.get st)
        (past.1.note actor (some (.load name)) (system.view.get st) (system.view.get st))
        lists (Function.update (attempts holdings) actor (pending.map Pending.attempt)) →
      (∀ entry ∈ pending, entry.placed = none) →
      ownership.Inv (system.actors.track actor sites.load st st past) st
        (Function.update holdings actor (pending, held)) lists := by
    intro pending stack nothing
    refine ⟨?_, ?_, ?_⟩
    · rw [attempts_update]
      simpa [actors, sites.role_load] using stack
    · rw [held_update_same _ (by rw [same])]
      simpa [actors, sites.quiet_load] using ok.own
    · refine placed_update ok.placed (fun _ _ _ _ => rfl) fun entry present slot in_ => ?_
      rw [nothing entry present] at in_
      cases in_
  rcases loaded ((system.view.get st).head name) (past.1.updates name) with closed | opened
  · refine ⟨_, ⟨lists, open_or_not none ?_ (by simp)⟩, closed⟩
    simpa using fresh.forget actor
  · exact ⟨_, ⟨lists, open_or_not (some ⟨_, none⟩) fresh (by simp)⟩, opened⟩

theorem wp_readNext (node : now.slot ≠ listEnd) {post : Nat → Option (Pending Name) × Held → Prop}
    (read : ∀ link, post link (some ⟨⟨name, now, since, some link⟩, none⟩, held)) :
    system.actors.wp ownership.inv actor (load sites.next (system.view.next now.slot)) post
      (some ⟨⟨name, now, since, none⟩, none⟩, held) := by
  intro past st holdings ⟨lists, ok⟩ same may
  have present : attempts holdings actor = some ⟨name, now, since, none⟩ := by
    simp [attempts, same]
  refine ⟨_, ⟨lists, ?_⟩, read ((system.view.get st).next now.slot)⟩
  refine ⟨?_, ?_, ?_⟩
  · rw [attempts_update]
    simpa [actors, sites.role_next, Tags.note] using ok.stack.readNext present node
  · rw [held_update_same _ (by rw [same])]
    simpa [actors, sites.quiet_next] using ok.own
  · exact placed_update ok.placed (fun _ _ _ _ => rfl) (by simp)

theorem wp_writeNext (node : ownership.nodes held slot)
    (written : post () (some ⟨⟨name, now, since, none⟩, some slot⟩, held)) :
    system.actors.wp ownership.inv actor (store sites.next (system.view.next slot) now.slot)
      post (some ⟨⟨name, now, since, none⟩, none⟩, held) := by
  intro past st holdings ⟨lists, ok⟩ same may
  have present : attempts holdings actor = some ⟨name, now, since, none⟩ := by
    simp [attempts, same]
  have mine : ownership.nodes (holdings actor).2 slot := by rwa [same]
  obtain ⟨_, outside⟩ := ownership.outside ok.own mine
  refine ⟨_, ⟨lists, ?_⟩, written⟩
  refine ⟨?_, ?_, ?_⟩
  · rw [attempts_update, Option.map_some, ← present, update_eq_self]
    simpa [actors, sites.role_next, Tags.note, StackView.next, system.view.get_set] using
      ok.stack.writeNext now.slot outside
  · rw [held_update_same _ (by rw [same])]
    simp only [actors, sites.quiet_next]
    exact ownership.stable _ ok.own
  · simp only [StackView.next, system.view.get_set, Stacks.setNext_next]
    refine placed_update ok.placed (fun other ne entry theirs => ?_) (by simpa using node)
    refine update_of_ne (fun eq => ?_) _ _
    subst eq
    exact ne (ownership.exclusive ok.own theirs mine)

/-- An exchange that fails changes nothing and ends the attempt. -/
private theorem exchange_lost {past : Tags Name × Past} (sites : system.StackSites name)
    (ok : ownership.inv past st holdings) (same : holdings actor = (pending, held)) :
    ownership.inv (system.actors.track actor sites.exchange st st past) st
      (Function.update holdings actor (none, held)) := by
  obtain ⟨lists, ok⟩ := ok
  refine ⟨lists, ?_, ?_, ?_⟩
  · rw [attempts_update]
    simpa [actors, sites.role_exchange, Tags.note] using ok.stack.forget actor
  · rw [held_update_same _ (by rw [same])]
    simpa [actors, sites.quiet_exchange] using ok.own
  · exact placed_update ok.placed (fun _ _ _ _ => rfl) (by simp)

/-- A weak exchange, by what happens when it is lost and when it is won. -/
private theorem wp_exchange (sites : system.StackSites name) (lost : ∀ got, post (some got) (none, held))
    (won : ∀ past st holdings lists, ownership.Inv past st holdings lists →
      holdings actor = (pending, held) → past.1.Timely actor (some (.exchange name)) →
      (system.view.get st).head name = now → ∃ kept later,
        StackInv ((system.view.get st).setHead name new) (past.1.note actor (some (.exchange name))
            (system.view.get st) ((system.view.get st).setHead name new)) later
          (Function.update (attempts holdings) actor none) ∧
        ownership.own (system.record actor sites.exchange st ((system.view.head name).set new st) past.2)
          ((system.view.head name).set new st) later (Function.update (fun other => (holdings other).2) actor kept) ∧
        post none (none, kept)) :
    system.actors.wp ownership.inv actor (compareExchangeWeak sites.exchange (system.view.head name) now new) post
      (pending, held) := by
  intro choice
  cases choice with
  | zero =>
    intro past st holdings ok same _
    exact ⟨_, exchange_lost sites ok same, lost _⟩
  | succ choice =>
    intro past st holdings ok same may
    have timely : past.1.Timely actor (some (.exchange name)) := by
      rw [← sites.role_exchange]
      exact may
    by_cases got : (system.view.head name).get st = now
    · obtain ⟨lists, ok⟩ := ok
      obtain ⟨kept, later, after, owned, res⟩ := won past st holdings lists ok same timely got
      simp only [if_pos got]
      refine ⟨(none, kept), ⟨later, ?_, ?_, ?_⟩, res⟩
      · rw [attempts_update]
        simpa [actors, sites.role_exchange, StackView.head, system.view.get_set] using after
      · rw [held_update]
        exact owned
      · simp only [StackView.head, system.view.get_set, Stacks.setHead_next]
        exact placed_update ok.placed (fun _ _ _ _ => rfl) (by simp)
    · refine ⟨(none, held), ?_, ?_⟩
      · simpa only [if_neg got] using exchange_lost sites ok same
      · simpa only [if_neg got, Actors.wp] using lost _

theorem wp_exchangePop {post : Option Head → Option (Pending Name) × Held → Prop}
    (lost : ∀ got, post (some got) (none, held))
    (won : ∀ past st lists others rest new,
      ownership.own past st lists others → others actor = held → lists name = now.slot :: rest →
      (∀ other, now.slot ∉ Function.update lists name rest other) →
      (system.view.get st).head name = now → new ≠ now →
      ∃ kept, ownership.own (system.record actor sites.exchange st ((system.view.head name).set new st) past)
          ((system.view.head name).set new st) (Function.update lists name rest)
          (Function.update others actor kept) ∧ post none (none, kept)) :
    system.actors.wp ownership.inv actor
      (compareExchangeWeak sites.exchange (system.view.head name) now (now.bump link))
      post (some ⟨⟨name, now, since, some link⟩, none⟩, held) := by
  refine wp_exchange sites lost fun history st holdings lists ok same timely got => ?_
  have present : attempts holdings actor = some ⟨name, now, since, some link⟩ := by
    simp [attempts, same]
  obtain ⟨rest, shape, after⟩ := ok.stack.pop present rfl got timely
  obtain ⟨kept, owned, res⟩ := won history.2 st lists _ rest (now.bump link) ok.own
    (by rw [same]) shape (ok.stack.top_once shape) got (Head.ne_bump _ _).symm
  exact ⟨kept, _, after, owned, res⟩

theorem wp_exchangePush {post : Option Head → Option (Pending Name) × Held → Prop}
    (lost : ∀ got, post (some got) (none, held))
    (won : ∀ past st lists others new,
      ownership.own past st lists others → others actor = held →
      (system.view.get st).head name = now → new ≠ now →
      ∃ kept, ownership.own (system.record actor sites.exchange st ((system.view.head name).set new st) past)
          ((system.view.head name).set new st) (Function.update lists name (slot :: lists name))
          (Function.update others actor kept) ∧ post none (none, kept)) :
    system.actors.wp ownership.inv actor
      (compareExchangeWeak sites.exchange (system.view.head name) now (now.bump slot))
      post (some ⟨⟨name, now, since, none⟩, some slot⟩, held) := by
  refine wp_exchange sites lost fun history st holdings lists ok same timely got => ?_
  obtain ⟨mine, linked⟩ := ok.placed actor _ (by rw [same]; rfl) slot rfl
  obtain ⟨node, outside⟩ := ownership.outside ok.own mine
  have after := ok.stack.push actor node outside linked got
  obtain ⟨kept, owned, res⟩ := won history.2 st lists _ (now.bump slot) ok.own
    (by rw [same]) got (Head.ne_bump _ _).symm
  exact ⟨kept, _, after, owned, res⟩

theorem does_ret (holds : post val held) : Does ownership actor (.ret val) post held :=
  ⟨rfl, holds⟩

theorem does_mono (holds : Does ownership actor code one held)
    (weaker : ∀ val kept, one val kept → two val kept) : Does ownership actor code two held :=
  Actors.wp_mono holds fun val kept new => ⟨new.1, weaker val kept.2 new.2⟩

theorem does_bind (holds : Does ownership actor code
      (fun val kept => Does ownership actor (rest val) post kept) held) :
    Does ownership actor (code >>= rest) post held := by
  refine Actors.wp_then holds fun val kept new => ?_
  obtain ⟨idle, later⟩ := new
  rw [show kept = (none, kept.2) from Prod.ext idle rfl]
  exact later

theorem does_repeatLoop {body : Program State Site (Option Value)}
    (round : Does ownership actor body (fun out kept => match out with
      | some val => post val kept
      | none => kept = held) held) :
    Does ownership actor (repeatLoop body) post held := by
  refine Actors.wp_repeatLoop (Actors.wp_mono round fun out kept new => ?_)
  cases out with
  | some val => exact new
  | none => exact Prod.ext new.1 new.2

/-- An access that does not touch the stacks is judged by ownership alone, also
in runs that leave more accesses out. -/
theorem wp_act_plain {Op' Local' Result' : Type} {fewer : Actors State Site (Tags Name × Past) Op' Local' Result'}
    (tracks : ∀ site old new past, fewer.track actor site old new past = system.actors.track actor site old new past)
    (plain : system.role site = none) (ne : ∀ st, system.view.get (update st) = system.view.get st)
    (step : ∀ past st lists others, ownership.own past.2 st lists others →
      others actor = held → fewer.allowed actor site st past →
      ∃ kept, ownership.own (system.record actor site st (update st) past.2) (update st)
          lists (Function.update others actor kept) ∧ fewer.wp ownership.inv actor (next st) post (none, kept)) :
    fewer.wp ownership.inv actor (.act site update next) post (none, held) := by
  intro past st holdings ⟨lists, ok⟩ same may
  obtain ⟨kept, owned, later⟩ := step past st lists _ ok.own (by rw [same]) may
  refine ⟨(none, kept), ⟨lists, ?_, ?_, ?_⟩, later⟩
  · rw [attempts_update, ne, tracks]
    simpa [actors, plain, Tags.note] using ok.stack.forget actor
  · rw [held_update, tracks]
    exact owned
  · simp only [ne]
    exact placed_update ok.placed (fun _ _ _ _ => rfl) (by simp)

theorem does_act (plain : system.role site = none)
    (ne : ∀ st, system.view.get (update st) = system.view.get st)
    (step : ∀ past st lists others, ownership.own past st lists others →
      others actor = held →
      ∃ kept, ownership.own (system.record actor site st (update st) past) (update st)
          lists (Function.update others actor kept) ∧
        Does ownership actor (next st) post kept) :
    Does ownership actor (.act site update next) post held :=
  wp_act_plain (fun _ _ _ _ => rfl) plain ne fun history st lists others owned same _ =>
    step history.2 st lists others owned same

/-- A program whose every access leaves the stacks and their ownership alone. -/
theorem does_of_every (every : code.Every kind) (plain : ∀ site update, kind site update → system.role site = none)
    (ne : ∀ site update, kind site update → ∀ st, system.view.get (update st) = system.view.get st)
    (stable : ∀ site update, kind site update → ∀ past st lists others, ownership.own past st lists others →
      ownership.own (system.record actor site st (update st) past) (update st) lists others) :
    Does ownership actor code (fun _ kept => kept = held) held := by
  induction code with
  | ret val => exact ⟨rfl, rfl⟩
  | act site update next ih =>
    refine does_act (plain site update every.1) (ne site update every.1) ?_
    intro past st lists others owned same
    refine ⟨held, ?_, ih st (every.2 st)⟩
    rw [← same, update_eq_self]
    exact stable site update every.1 past st lists others owned
  | pick next ih => exact fun choice => ih choice (every choice)
  | halt => trivial

/-- Writing anything into the link of a node in hand. -/
theorem does_writeNext (plain : system.role site = none)
    (quiet : ∀ old new past, system.record actor site old new past = past)
    (node : ownership.nodes held slot) (written : post () held) :
    Does ownership actor (store site (system.view.next slot) link) post held := by
  intro history st holdings ⟨lists, ok⟩ same _
  have mine : ownership.nodes (holdings actor).2 slot := by rwa [same]
  obtain ⟨_, outside⟩ := ownership.outside ok.own mine
  refine ⟨(none, held), ⟨lists, ?_, ?_, ?_⟩, rfl, written⟩
  · rw [attempts_update]
    simpa [actors, plain, Tags.note, StackView.next, system.view.get_set] using
      (ok.stack.forget actor).writeNext link outside
  · rw [held_update_same _ (by rw [same])]
    simp only [actors, quiet]
    exact ownership.stable _ ok.own
  · simp only [StackView.next, system.view.get_set, Stacks.setNext_next]
    refine placed_update ok.placed (fun other ne entry theirs => ?_) (by simp)
    refine update_of_ne (fun eq => ?_) _ _
    subst eq
    exact ne (ownership.exclusive ok.own theirs mine)

/-- Every interleaving keeps the stacks well formed and owned, when each
operation does. -/
theorem inv_of_reachable {holding : Local → Held} (specification : ∀ actor own op, system.enabled own op →
      Does ownership actor (system.program op)
        (fun res kept => kept = holding (system.finish (system.start own op) op res)) (holding own))
    (start : system.actors.Safe ownership.inv (fun own => (none, holding own)) initial)
    (reached : system.actors.Reachable initial run) :
    system.actors.Safe ownership.inv (fun own => (none, holding own)) run := by
  refine Actors.safe_of_reachable (fun actor own op enabled => ?_) start reached
  exact Actors.wp_mono (specification actor own op enabled) fun res kept new =>
    Prod.ext new.1 new.2

end

end StackActors

end ShmActors.Lib
