import ShmActors.Lib.May
import ShmActors.Lib.StackRules

/-! The tagged free list of `shm-core/src/pool.rs`. -/

namespace ShmActors.Core

open Lib Function Actors StackActors

variable {State Site : Type}

/-- `EMPTY`: the sentinel slot that ends a list. -/
def EMPTY : Nat := listEnd

def treiberPop (loadSite nextSite exchangeSite : Site) (head : Ref State Head)
    (readNext : Nat → Ref State Nat) : Program State Site (Option Nat) :=
  repeatLoop do
    let cur ← load loadSite head
    if cur.slot = EMPTY then
      return some none
    let next ← load nextSite (readNext cur.slot)
    -- `head_pack(tag.wrapping_add(1), next)`
    let exchanged ← compareExchangeWeak exchangeSite head cur (cur.bump next)
    return if exchanged.isNone then some (some cur.slot) else none

def treiberPush (loadSite nextSite exchangeSite : Site) (head : Ref State Head) (slot : Nat)
    (writeNext : Nat → Ref State Nat) : Program State Site Unit :=
  repeatLoop do
    let cur ← load loadSite head
    store nextSite (writeNext slot) cur.slot
    let exchanged ← compareExchangeWeak exchangeSite head cur (cur.bump slot)
    return if exchanged.isNone then some () else none

section

variable [DecidableEq Name] {system : StackActors Name State Site Past Op Local Result}
  {ownership : system.Ownership Held}

/-- A pop returns the top of its list, which the exchange has handed over, or
found the list empty and changed nothing. -/
theorem does_treiberPop (sites : system.StackSites name) (empty : post none held)
    (taken : ∀ past st lists others rest new, ownership.own past st lists others → others who = held →
      lists name = ((system.view.get st).head name).slot :: rest → (∀ other, ((system.view.get st).head name).slot ∉
        update lists name rest other) → new ≠ (system.view.get st).head name →
      ∃ kept, ownership.own (system.record who sites.exchange st ((system.view.head name).set new st) past)
          ((system.view.head name).set new st) (update lists name rest) (update others who kept) ∧
        post (some ((system.view.get st).head name).slot) kept) :
    Does ownership who (treiberPop sites.load sites.next sites.exchange
      (system.view.head name) system.view.next) post held := by
  apply does_repeatLoop
  refine wp_bind (wp_loadHead sites fun cur since => ?_)
  by_cases atEnd : cur.slot = EMPTY
  · left
    rw [if_pos atEnd]
    exact ⟨rfl, empty⟩
  · right
    rw [if_neg atEnd]
    refine wp_bind (wp_readNext sites atEnd fun next => ?_)
    refine wp_bind (wp_exchangePop sites (fun got => ⟨rfl, rfl⟩) ?_)
    intro past st lists others rest new owned same shape once got ne
    subst got
    obtain ⟨kept, after, res⟩ := taken past st lists others rest new owned same shape
      once ne
    exact ⟨kept, after, rfl, res⟩

/-- A push hands a node over to its list with the exchange that publishes it. -/
theorem does_treiberPush (sites : system.StackSites name) (node : ownership.nodes held slot)
    (given : ∀ past st lists others new,
      ownership.own past st lists others → others who = held → new ≠ (system.view.get st).head name →
      ∃ kept, ownership.own (system.record who sites.exchange st ((system.view.head name).set new st) past)
          ((system.view.head name).set new st) (update lists name (slot :: lists name))
          (update others who kept) ∧ post () kept) :
    Does ownership who (treiberPush sites.load sites.next sites.exchange
      (system.view.head name) slot system.view.next) post held := by
  apply does_repeatLoop
  refine wp_bind (wp_loadHead sites fun cur since => ?_)
  right
  refine wp_bind (wp_writeNext sites node ?_)
  refine wp_bind (wp_exchangePush sites (fun got => ⟨rfl, rfl⟩) ?_)
  intro past st lists others new owned same got ne
  subst got
  obtain ⟨kept, after, res⟩ := given past st lists others new owned same ne
  exact ⟨kept, after, rfl, res⟩

end

section

variable {History Op Local Result : Type} {actors : Actors State Site History Op Local Result} {actor : Nat}
  {state : State} {history : History} {loadSite nextSite exchangeSite : Site} {head : Ref State Head}
  {links : Nat → Ref State Nat}

/-- The head has given up its top. -/
def afterPop (head : Ref State Head) (links : Nat → Ref State Nat) (state : State) : State :=
  head.set ((head.get state).bump ((links (head.get state).slot).get state)) state

/-- The history after the load of a head and the access to a link. -/
def loaded (actors : Actors State Site History Op Local Result) (actor : Nat) (loadSite nextSite : Site)
    (state middle : State) (history : History) : History :=
  actors.track actor nextSite state middle (actors.track actor loadSite state state history)

variable (free : ∀ history, actors.allowed actor loadSite state history ∧ actors.allowed actor nextSite state history)

include free

/-- By itself, a pop takes the top. -/
theorem may_treiberPop (full : (head.get state).slot ≠ EMPTY)
    (prompt : actors.allowed actor exchangeSite state (loaded actors actor loadSite nextSite state state history))
    (new : goal (some (head.get state).slot) (afterPop head links state)
      (actors.track actor exchangeSite state (afterPop head links state)
        (loaded actors actor loadSite nextSite state state history))) :
    actors.may actor (treiberPop loadSite nextSite exchangeSite head links) goal state history := by
  refine ⟨1, may_bind ⟨(free _).1, ?_⟩⟩
  show actors.may actor (ite ((head.get state).slot = EMPTY) _ _) _ _ _
  rw [if_neg full]
  exact ⟨(free _).2, 1, may_bind (may_compareExchange prompt rfl new)⟩

/-- By itself, a push puts its node on top. -/
theorem may_treiberPush
    (links_eq : (links slot).set (head.get state).slot state = middle) (ne : head.get middle = head.get state)
    (prompt : actors.allowed actor exchangeSite middle (loaded actors actor loadSite nextSite state middle history))
    (new : goal () (head.set ((head.get state).bump slot) middle)
      (actors.track actor exchangeSite middle (head.set ((head.get state).bump slot) middle)
        (loaded actors actor loadSite nextSite state middle history))) :
    actors.may actor (treiberPush loadSite nextSite exchangeSite head slot links) goal state history := by
  subst links_eq
  exact ⟨1, may_bind ⟨(free _).1, (free _).2, 1, may_bind (may_compareExchange prompt ne new)⟩⟩

end

end ShmActors.Core
