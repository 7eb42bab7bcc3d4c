import ShmActors.Core.Treiber
import Mathlib.Data.Finset.Basic

/-! One size class's free list under any number of allocating and freeing
processes. A chunk that is out may be overwritten by its holder, links
included, and may change hands. -/

namespace ShmActors.Core.FreeList

open Lib Function StackActors

/-- The class header and the first word of each chunk, with the chunks that are
on their way from one process to another. -/
structure Memory where
  lists : Stacks Unit
  transit : Finset Nat

inductive Site where
  | popLoad
  | popNext
  | popExchange
  | pushLoad
  | pushNext
  | pushExchange (slot : Nat)
  | payload
  | send
  | receive

inductive Event where
  | popped (actor slot : Nat)
  | pushed (actor slot : Nat)
  deriving DecidableEq

inductive Op where
  | pop
  | push (slot : Nat)
  | write (slot value : Nat)
  | send (slot : Nat)
  | receive (slot : Nat)

def view : StackView Unit Memory where
  get := Memory.lists
  set lists memory := { memory with lists := lists }
  get_set _ _ := rfl

def role : Site → Option (Access Unit)
  | .popLoad | .pushLoad => some (.load ())
  | .popExchange | .pushExchange _ => some (.exchange ())
  | _ => none

/-- The log, newest first: a successful exchange is the event. -/
def record (actor : Nat) (site : Site) (before after : Memory) (log : List Event) : List Event :=
  if before.lists.head () = after.lists.head () then log
  else match site with
    | .popExchange => .popped actor (before.lists.head ()).slot :: log
    | .pushExchange slot => .pushed actor slot :: log
    | _ => log

def send (slot : Nat) : Program Memory Site (Option Nat) :=
  .act .send (fun memory => { memory with transit := insert slot memory.transit })
    (fun _ => .ret none)

def receive (slot : Nat) : Program Memory Site (Option Nat) :=
  .act .receive (fun memory => { memory with transit := memory.transit.erase slot })
    (fun memory => .ret (if slot ∈ memory.transit then some slot else none))

def program : Op → Program Memory Site (Option Nat)
  | .pop => treiberPop .popLoad .popNext .popExchange (view.head ()) view.next
  | .push slot => do
    treiberPush .pushLoad .pushNext (.pushExchange slot) (view.head ()) slot view.next
    return none
  | .write slot value => do
    store .payload (view.next slot) value
    return none
  | .send slot => send slot
  | .receive slot => receive slot

/-- A process knows which chunks it holds; it pushes, overwrites and passes on
no others. -/
def system : StackActors Unit Memory Site (List Event) Op (Finset Nat) (Option Nat) where
  view := view
  role := role
  record := record
  program := program
  enabled held
    | .push slot | .write slot _ | .send slot => slot ∈ held
    | .pop | .receive _ => True
  start held
    | .push slot | .send slot => held.erase slot
    | _ => held
  finish held _
    | some slot => insert slot held
    | none => held

instance (held : Finset Nat) : (op : Op) → Decidable (system.actors.enabled held op)
  | .push slot | .write slot _ | .send slot => inferInstanceAs (Decidable (slot ∈ held))
  | .pop | .receive _ => inferInstanceAs (Decidable True)

/-- `Pool::create`: the chunks of the class, linked in order. -/
def create (count : Nat) : Memory where
  lists :=
    { head := fun _ => ⟨0, if 0 < count then 0 else EMPTY⟩
      next := fun slot => if slot + 1 < count then slot + 1 else EMPTY }
  transit := ∅

def initial (count : Nat) :
    Config Memory Site (Tags Unit × List Event) Op (Finset Nat) (Option Nat) where
  state := create count
  history := (⟨fun _ => 0, fun _ _ => 0⟩, [])
  thread _ := .idle ∅

theorem create_linked (count : Nat) (small : count ≤ EMPTY) :
    Linked (create count).lists.next ((create count).lists.head ()).slot (List.range count) :=
  linked_range small

/-- Whether a chunk's last event took it off the list. -/
def isOut (slot : Nat) : List Event → Bool
  | [] => false
  | .popped _ entry :: log => if entry = slot then true else isOut slot log
  | .pushed _ entry :: log => if entry = slot then false else isOut slot log

/-- Pops and pushes of each chunk take turns, starting with a pop. -/
def Alternates : List Event → Prop
  | [] => True
  | .popped _ slot :: log => isOut slot log = false ∧ Alternates log
  | .pushed _ slot :: log => isOut slot log = true ∧ Alternates log

variable {slot count : Nat} {older : List Event}

theorem mem_pushed_of_isOut (between : List Event)
    (back : isOut slot (between ++ .popped who slot :: older) = false) :
    ∃ pusher, Event.pushed pusher slot ∈ between := by
  induction between with
  | nil => simp [isOut] at back
  | cons event between ih =>
    cases event with
    | popped other entry =>
      by_cases same : entry = slot
      · simp [isOut, same] at back
      · obtain ⟨pusher, in_⟩ := ih (by simpa [isOut, same] using back)
        exact ⟨pusher, List.mem_cons_of_mem _ in_⟩
    | pushed other entry =>
      by_cases same : entry = slot
      · exact ⟨other, same ▸ List.mem_cons_self⟩
      · obtain ⟨pusher, in_⟩ := ih (by simpa [isOut, same] using back)
        exact ⟨pusher, List.mem_cons_of_mem _ in_⟩

theorem Alternates.pushed_between (alternates : Alternates
      (newer ++ .popped two slot :: (between ++ .popped one slot :: older))) :
    ∃ pusher, Event.pushed pusher slot ∈ between := by
  induction newer with
  | nil => exact mem_pushed_of_isOut between alternates.1
  | cons event newer ih => cases event <;> exact ih alternates.2

/-- Where a chunk is. -/
inductive Place where
  | listed
  | transit
  | hand (actor : Nat)
  deriving DecidableEq

structure Placed (count : Nat) (log : List Event) (memory : Memory) (contents : Unit → List Nat)
    (held : Nat → Finset Nat) (place : Nat → Place) : Prop where
  listed : ∀ slot, slot ∈ contents () ↔ slot < count ∧ place slot = .listed
  transit : ∀ slot, slot ∈ memory.transit ↔ slot < count ∧ place slot = .transit
  hand : ∀ actor slot, slot ∈ held actor ↔ slot < count ∧ place slot = .hand actor
  logged : ∀ slot < count, isOut slot log = false ↔ place slot = .listed
  alternates : Alternates log
  inRange : ∀ actor slot, Event.pushed actor slot ∈ log → slot < count

/-- A chunk changes places: the new place must say where it is now and nothing
else may notice. -/
theorem Placed.move (before : Placed count log mem lists held place) (known : slot < count) (target : Place)
    (listed : ∀ entry, entry ∈ lists' () ↔ if entry = slot then target = .listed else entry ∈ lists ())
    (transit : ∀ entry, entry ∈ mem'.transit ↔ if entry = slot then target = .transit else entry ∈ mem.transit)
    (hand : ∀ who entry, entry ∈ held' who ↔ if entry = slot then target = .hand who else entry ∈ held who)
    (logged : ∀ entry, isOut entry log' = if entry = slot then decide (target ≠ .listed) else isOut entry log)
    (alternates : Alternates log') (inRange : ∀ who entry, Event.pushed who entry ∈ log' →
      entry = slot ∨ Event.pushed who entry ∈ log) :
    Placed count log' mem' lists' held' (update place slot target) where
  listed entry := by
    by_cases same : entry = slot
    · simp [listed, same, known]
    · simp [listed, same, before.listed]
  transit entry := by
    by_cases same : entry = slot
    · simp [transit, same, known]
    · simp [transit, same, before.transit]
  hand who entry := by
    by_cases same : entry = slot
    · simp [hand, same, known]
    · simp [hand, same, before.hand]
  logged entry inRange := by
    by_cases same : entry = slot
    · simp [logged, same]
    · simp [logged, same, before.logged entry inRange]
  alternates := alternates
  inRange who entry in_ := by
    rcases inRange who entry in_ with same | old
    · rwa [same]
    · exact before.inRange who entry old

/-- A chunk is in one place. -/
theorem Placed.somewhere (placed : Placed count log mem lists held place) (known : slot < count) :
    (isOut slot log = false ∧ slot ∉ mem.transit ∧ ∀ who, slot ∉ held who) ∨
    (isOut slot log = true ∧ slot ∈ mem.transit ∧ ∀ who, slot ∉ held who) ∨
    (isOut slot log = true ∧ slot ∉ mem.transit ∧ ∃! who, slot ∈ held who) := by
  have out := placed.logged slot known
  simp only [placed.transit, placed.hand, known, true_and]
  cases here : place slot with
  | listed => exact .inl ⟨out.mpr here, by simp, by simp⟩
  | transit => exact .inr (.inl ⟨by simpa [here] using out, rfl, by simp⟩)
  | hand who =>
    refine .inr (.inr ⟨by simpa [here] using out, by simp, who, rfl, fun other same => ?_⟩)
    exact (Place.hand.inj same).symm

section

theorem Placed.hand_gain (placed : Placed count log mem lists held place)
    (same : held who = mine) (free : ∀ other, place slot ≠ .hand other) (other entry : Nat) :
    entry ∈ update held who (insert slot mine) other ↔
      if entry = slot then Place.hand who = .hand other else entry ∈ held other := by
  by_cases own : other = who
  · subst own same
    by_cases eq : entry = slot <;> simp [eq]
  · by_cases eq : entry = slot
    · simp [eq, own, Ne.symm own, placed.hand, free]
    · simp [eq, own]

theorem Placed.hand_give (placed : Placed count log mem lists held place)
    (same : held who = mine) (here : place slot = .hand who) {target : Place}
    (away : ∀ other, target ≠ .hand other) (other entry : Nat) :
    entry ∈ update held who (mine.erase slot) other ↔
      if entry = slot then target = .hand other else entry ∈ held other := by
  by_cases own : other = who
  · subst own same
    by_cases eq : entry = slot <;> simp [eq, away]
  · by_cases eq : entry = slot
    · simp [eq, own, Ne.symm own, placed.hand, here, away]
    · simp [eq, own]

end

def ownership (count : Nat) (small : count ≤ EMPTY) : system.Ownership (Finset Nat) where
  own log memory contents held := ∃ place, Placed count log memory contents held place
  nodes held slot := slot ∈ held
  exclusive := by
    rintro _ _ _ _ ⟨place, placed⟩ first second slot inFirst inSecond
    have here := ((placed.hand first slot).mp inFirst).2
    rw [((placed.hand second slot).mp inSecond).2] at here
    exact (Place.hand.inj here).symm
  outside := by
    rintro _ _ _ _ ⟨place, placed⟩ actor slot member
    obtain ⟨inRange, here⟩ := (placed.hand actor slot).mp member
    refine ⟨fun atEnd => ?_, fun _ listed => ?_⟩
    · simp only [EMPTY] at small
      omega
    · have there := ((placed.listed slot).mp listed).2
      rw [here] at there
      cases there
  stable := by
    rintro _ _ _ _ memory ⟨place, placed⟩
    exact ⟨place, placed.listed, placed.transit, placed.hand, placed.logged, placed.alternates,
      placed.inRange⟩

def popSites : system.StackSites () where
  load := .popLoad
  next := .popNext
  exchange := .popExchange
  quiet_load _ _ _ _ := by simp [system, record]
  quiet_next _ _ _ _ := by simp [system, record]
  quiet_exchange _ _ _ := by simp [system, record]

def pushSites (slot : Nat) : system.StackSites () where
  load := .pushLoad
  next := .pushNext
  exchange := .pushExchange slot
  quiet_load _ _ _ _ := by simp [system, record]
  quiet_next _ _ _ _ := by simp [system, record]
  quiet_exchange _ _ _ := by simp [system, record]

section

theorem does_pop : Does (ownership count small) who (program .pop)
    (fun res kept => kept = match res with
      | some slot => insert slot held
      | none => held) held := by
  refine does_treiberPop popSites rfl ?_
  rintro log mem lists others rest new ⟨place, placed⟩ same shape once ne
  generalize top : ((system.view.get mem).head ()).slot = slot at shape once
  have inRange := (placed.listed slot).mp (shape ▸ List.mem_cons_self)
  have out : isOut slot log = false := (placed.logged slot inRange.1).mpr inRange.2
  have logged : system.record who popSites.exchange mem
      ((system.view.head ()).set new mem) log = .popped who slot :: log := by
    have diff : (view.get mem).head () ≠ new := Ne.symm ne
    simp only [system, record, popSites, StackView.head]
    rw [if_neg (by simpa [view] using diff)]
    exact congrArg (Event.popped who · :: log) top
  refine ⟨insert slot held, ⟨_, placed.move inRange.1 (.hand who) ?_ ?_ ?_ ?_ ?_ ?_⟩, rfl⟩
  · intro entry
    by_cases same : entry = slot
    · simpa [same] using once ()
    · simp [shape, same]
  · intro entry
    by_cases same : entry = slot
    · subst entry
      have away : slot ∉ mem.transit := by simp [placed.transit, inRange.2]
      simpa [system, view, StackView.head] using away
    · simp [system, view, StackView.head, same]
  · exact placed.hand_gain same (by simp [inRange.2])
  · intro entry
    rw [logged]
    by_cases same : entry = slot
    · simp [isOut, same]
    · simp [isOut, same, Ne.symm same]
  · rw [logged]
    exact ⟨out, placed.alternates⟩
  · rw [logged]
    simp +contextual

theorem does_push (holds : slot ∈ held) :
    Does (ownership count small) who (program (.push slot))
      (fun res kept => res = none ∧ kept = held.erase slot) held := by
  refine does_bind (does_treiberPush (pushSites slot) holds ?_)
  rintro log mem lists others new ⟨place, placed⟩ same ne
  obtain ⟨inRange, here⟩ := (placed.hand who slot).mp (same ▸ holds)
  have out : isOut slot log = true := by
    have listed := placed.logged slot inRange
    rw [here] at listed
    simpa using listed
  have logged : system.record who (pushSites slot).exchange mem
      ((system.view.head ()).set new mem) log = .pushed who slot :: log := by
    have diff : (view.get mem).head () ≠ new := Ne.symm ne
    simp only [system, record, pushSites, StackView.head]
    rw [if_neg (by simpa [view] using diff)]
  refine ⟨held.erase slot, ⟨_, placed.move inRange .listed ?_ ?_ ?_ ?_ ?_ ?_⟩, rfl, rfl, rfl⟩
  · intro entry
    by_cases same : entry = slot <;> simp [same]
  · intro entry
    by_cases same : entry = slot
    · subst entry
      have away : slot ∉ mem.transit := by simp [placed.transit, here]
      simpa [system, view, StackView.head] using away
    · simp [system, view, StackView.head, same]
  · exact placed.hand_give same here (by simp)
  · intro entry
    rw [logged]
    by_cases same : entry = slot
    · simp [isOut, same]
    · simp [isOut, same, Ne.symm same]
  · rw [logged]
    exact ⟨out, placed.alternates⟩
  · rw [logged]
    intro other entry in_
    rcases List.mem_cons.mp in_ with new | old
    · exact .inl (Event.pushed.inj new).2
    · exact .inr old

theorem does_write (holds : slot ∈ held) : Does (ownership count small) who (program (.write slot val))
      (fun res kept => res = none ∧ kept = held) held := by
  refine does_bind (does_writeNext rfl ?_ holds ⟨rfl, rfl, rfl⟩)
  intro old new log
  simp [system, record]

theorem does_send (holds : slot ∈ held) :
    Does (ownership count small) who (program (.send slot))
      (fun res kept => res = none ∧ kept = held.erase slot) held := by
  refine does_act rfl (fun _ => rfl) ?_
  rintro log mem lists others ⟨place, placed⟩ same
  obtain ⟨inRange, here⟩ := (placed.hand who slot).mp (same ▸ holds)
  refine ⟨held.erase slot, ⟨_, placed.move inRange .transit ?_ ?_ ?_ ?_ ?_ ?_⟩, rfl, rfl, rfl⟩
  · intro entry
    by_cases eq : entry = slot
    · simp [eq, placed.listed, here]
    · simp [eq]
  · intro entry
    by_cases eq : entry = slot <;> simp [eq]
  · exact placed.hand_give same here (by simp)
  · intro entry
    have out := placed.logged slot inRange
    rw [here] at out
    by_cases eq : entry = slot
    · simpa [eq, system, record] using out
    · simp [eq, system, record]
  · simpa [system, record] using placed.alternates
  · simp +contextual [system, record]

theorem does_receive :
    Does (ownership count small) who (program (.receive slot))
      (fun res kept => kept = match res with
        | some slot => insert slot held
        | none => held) held := by
  refine does_act rfl (fun _ => rfl) ?_
  rintro log mem lists others ⟨place, placed⟩ same
  by_cases sent : slot ∈ mem.transit
  · obtain ⟨inRange, here⟩ := (placed.transit slot).mp sent
    refine ⟨insert slot held, ⟨_, placed.move inRange (.hand who) ?_ ?_ ?_ ?_ ?_ ?_⟩,
      rfl, by simp [sent]⟩
    · intro entry
      by_cases eq : entry = slot
      · simp [eq, placed.listed, here]
      · simp [eq]
    · intro entry
      by_cases eq : entry = slot <;> simp [eq]
    · exact placed.hand_gain same (by simp [here])
    · intro entry
      have out := placed.logged slot inRange
      rw [here] at out
      by_cases eq : entry = slot
      · simpa [eq, system, record] using out
      · simp [eq, system, record]
    · simpa [system, record] using placed.alternates
    · simp +contextual [system, record]
  · refine ⟨held, ⟨place, ?_⟩, rfl, by simp [sent]⟩
    have unchanged : mem.transit.erase slot = mem.transit :=
      Finset.erase_eq_of_notMem sent
    simp only [unchanged, system, record, if_true]
    rw [← same, update_eq_self]
    exact placed

end

theorem safe_initial (count : Nat) (small : count ≤ EMPTY) :
    system.actors.Safe (ownership count small).inv (fun held => (none, held)) (initial count) := by
  refine ⟨fun _ => (none, ∅), ⟨fun _ => List.range count, ?_, ?_, ?_⟩, fun _ => rfl⟩
  · refine ⟨fun _ => create_linked count small, fun _ => rfl, fun _ => List.nodup_range, ?_, ?_⟩
    · exact fun _ _ ne => absurd rfl ne
    · simp [attempts]
  · exact ⟨fun _ => .listed, by simp, by simp [initial, create], by simp, by simp [initial, isOut],
      trivial, by simp [initial]⟩
  · simp

theorem safe_of_reachable (small : count ≤ EMPTY) (reached : system.actors.Reachable (initial count) run) :
    system.actors.Safe (ownership count small).inv (fun held => (none, held)) run := by
  refine inv_of_reachable (fun who held op enabled => ?_) (safe_initial count small)
    reached
  cases op with
  | pop => exact does_mono does_pop fun res kept done => by cases res <;> exact done
  | push slot =>
    refine does_mono (does_push enabled) fun res kept done => ?_
    rw [done.1, done.2]
    rfl
  | write slot val =>
    refine does_mono (does_write enabled) fun res kept done => ?_
    rw [done.1, done.2]
    rfl
  | send slot =>
    refine does_mono (does_send enabled) fun res kept done => ?_
    rw [done.1, done.2]
    rfl
  | receive slot =>
    exact does_mono does_receive fun res kept done => by cases res <;> exact done

theorem isOut_of_pushed (newer : List Event) (kept : ∀ who, Event.popped who slot ∉ newer) :
    isOut slot (newer ++ .pushed pusher slot :: older) = false := by
  induction newer with
  | nil => simp [isOut]
  | cons event newer ih =>
    have rest := ih fun who in_ => kept who (List.mem_cons_of_mem _ in_)
    cases event with
    | popped who entry =>
      have other : entry ≠ slot := fun same => kept who (same ▸ List.mem_cons_self)
      simpa [isOut, other] using rest
    | pushed who entry => by_cases same : entry = slot <;> simp [isOut, same, rest]

/-- The free list as it should be: following the links from the head ends, visits
no chunk twice and visits exactly the chunks that are not out; a pushed chunk
stays until it is popped; every chunk is on the list, on its way between two
processes or in the hands of exactly one, and an idle process has in its hands
what it knows of; and between two pops of a chunk there is a push of it. -/
structure Intact (count : Nat)
    (config : Config Memory Site (Tags Unit × List Event) Op (Finset Nat) (Option Nat)) : Prop where
  listed : ∃ list, Linked config.state.lists.next (config.state.lists.head ()).slot list ∧ list.Nodup ∧
    (∀ slot, slot ∈ list ↔ slot < count ∧ isOut slot config.history.2 = false) ∧
    ∀ newer older pusher slot, config.history.2 = newer ++ .pushed pusher slot :: older →
      (∀ actor, Event.popped actor slot ∉ newer) → slot ∈ list
  held : ∃ hands : Nat → Finset Nat, (∀ actor own, config.thread actor = .idle own → hands actor = own) ∧
    ∀ slot < count,
      (isOut slot config.history.2 = false ∧ slot ∉ config.state.transit ∧ ∀ actor, slot ∉ hands actor) ∨
      (isOut slot config.history.2 = true ∧ slot ∈ config.state.transit ∧ ∀ actor, slot ∉ hands actor) ∨
      (isOut slot config.history.2 = true ∧ slot ∉ config.state.transit ∧ ∃! actor, slot ∈ hands actor)
  alternate : ∀ newer between older first second slot,
    config.history.2 = newer ++ .popped second slot :: (between ++ .popped first slot :: older) →
    ∃ pusher, Event.pushed pusher slot ∈ between

/-- The free list under every interleaving. -/
theorem list_of_reachable {count : Nat} (small : count ≤ EMPTY)
    {config : Config Memory Site (Tags Unit × List Event) Op (Finset Nat) (Option Nat)}
    (reached : system.actors.Reachable (initial count) config) : Intact count config := by
  obtain ⟨holdings, ⟨contents, valid⟩, threads⟩ := safe_of_reachable small reached
  obtain ⟨place, placed⟩ := valid.own
  have exact_list : ∀ slot, slot ∈ contents () ↔
      slot < count ∧ isOut slot config.history.2 = false := by
    intro slot
    rw [placed.listed]
    exact and_congr_right fun inRange => (placed.logged slot inRange).symm
  refine ⟨⟨contents (), valid.stack.linked (), valid.stack.nodup (), exact_list, ?_⟩, ?_, ?_⟩
  · intro newer older pusher slot logged kept
    refine (exact_list slot).mpr ⟨placed.inRange pusher slot ?_, ?_⟩
    · rw [logged]
      simp
    · rw [logged]
      exact isOut_of_pushed newer kept
  · refine ⟨fun actor => (holdings actor).2, fun actor own idle => ?_, fun slot => placed.somewhere⟩
    have thread := threads actor
    rw [idle] at thread
    exact congrArg Prod.snd thread
  · intro newer between older first second slot logged
    exact (logged ▸ placed.alternates).pushed_between

/-- Process 0 stops between its reads and its exchange while process 1 pops both
chunks and pushes the first one back: the same top, under another tag. -/
def reuse : List (Move Op) :=
  let popWins (actor : Nat) : List (Move Op) :=
    [.start actor .pop, .pick actor 1, .step actor, .step actor, .pick actor 1, .step actor]
  let pushWins (actor slot : Nat) : List (Move Op) :=
    [.start actor (.push slot), .pick actor 1, .step actor, .step actor, .pick actor 1, .step actor]
  [[.start 0 .pop, .pick 0 1, .step 0, .step 0, .pick 0 1],
    popWins 1, popWins 1, pushWins 1 0, [.step 0]].flatten

theorem list_after_reuse : 2 ≤ EMPTY ∧ ∃ config, system.actors.performAll (initial 2) reuse = some config ∧
    config.history.2 = [.pushed 1 0, .popped 1 1, .popped 1 0] ∧ Intact 2 config := by
  have log : (system.actors.performAll (initial 2) reuse).map (fun config => config.history.2) =
      some [.pushed 1 0, .popped 1 1, .popped 1 0] := by decide +kernel
  obtain ⟨config, performed, logged⟩ := Option.map_eq_some_iff.mp log
  have small : 2 ≤ EMPTY := by decide
  exact ⟨small, config, performed, logged,
    list_of_reachable small (Actors.reachable_of_performAll .refl performed)⟩

end ShmActors.Core.FreeList
