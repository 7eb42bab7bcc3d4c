import ShmActors.Task.Membership

/-! What each access of the task queue does to the slot it is about: one
specification for a pop, a push, an election, a state store and the count. -/

namespace ShmActors.Task

open Lib Core Function StackActors

variable {queue : Queue} {who slot : Nat}

section

variable (new : TaskState) (mem : Memory) {get : TaskSlot → Value} {set : Value → TaskSlot → TaskSlot}

@[simp] theorem stateOf_get : (stateOf slot).get mem = (mem.slot slot).state := rfl

@[simp] theorem stateOf_set_self : (((stateOf slot).set new mem).slot slot).state = new := by
  simp [stateOf, slotRef, Ref.field]

theorem stateOf_set_other (ne : entry ≠ slot) :
    (((stateOf slot).set new mem).slot entry).state = (mem.slot entry).state := by
  simp [stateOf, slotRef, Ref.field, ne]

@[simp] theorem stateOf_set_cancelled : ((stateOf slot).set new mem).cancelled = mem.cancelled := rfl

@[simp] theorem stateOf_set_lists : ((stateOf slot).set new mem).lists = mem.lists := rfl

theorem stateOf_set_same (same : (mem.slot slot).state = new) : (stateOf slot).set new mem = mem := by
  subst same
  simp [stateOf, slotRef, Ref.field]

theorem slot_of_set (ne : entry ≠ slot) (val : Value) (mem : Memory) :
    ((((slotRef slot).field get set).set val mem).slot entry) = mem.slot entry := by
  simp [slotRef, Ref.field, ne]

/-- A store to one word of a slot leaves its other words. -/
theorem word_of_set {Word : Type} (word : TaskSlot → Word) (slot : Nat) (val : Value) (mem : Memory) (entry : Nat)
    (keeps : ∀ val slot, word (set val slot) = word slot := by intros; rfl) :
    word ((((slotRef slot).field get set).set val mem).slot entry) = word (mem.slot entry) := by
  by_cases same : entry = slot
  · subst same
    simp [slotRef, Ref.field, keeps]
  · simp [slotRef, Ref.field, same]

end

theorem Place.rides_stack (shard : Shard) (who : Nat) (st : TaskState) :
    (Place.stack shard).weight st = (Place.hand who shard.mode).weight st := by
  cases shard <;> rfl

section

/-- A slot's state changes while no stack does. -/
theorem Placed.turn (old : Placed capacity log mem lists others place owing)
    (known : slot < capacity) (same : others who = held) (target : Place) (owes : Bool)
    (ownBefore : ∀ holder mode, place slot = .hand holder mode → holder = who)
    (ownAfter : ∀ holder mode, target = .hand holder mode → holder = who)
    (stays : ∀ shard, place slot = .stack shard ↔ target = .stack shard) (may : target.allows new)
    (holders : ∀ entry, Task.holders entry log' =
      if entry = slot then target.holders else Task.holders entry log)
    (fresh : new = .queued → Task.unclaimed slot log' = true)
    (kept : ∀ entry, entry ≠ slot → Task.unclaimed entry log' = Task.unclaimed entry log) (once : ClaimsOnce log')
    (balance : (place slot).weight (mem.slot slot).state + held.owes.toNat =
      target.weight new + owes.toNat) :
    Placed capacity log' ((stateOf slot).set new mem) lists
      (update others who ((held.set slot (target.modeFor who)).owing owes))
      (update place slot target) (owingAfter owing who owes) := by
  apply old.change known same target owes ownBefore ownAfter
  · intro shard entry
    by_cases eq : entry = slot
    · simp [eq, old.listed, known, stays]
    · simp [eq]
  · exact fun entry ne => stateOf_set_other new mem ne
  · simpa using may
  · exact holders
  · intro entry inRange queued
    by_cases eq : entry = slot
    · subst entry
      exact fresh (by simpa using queued)
    · rw [stateOf_set_other new mem eq] at queued
      rw [kept entry eq]
      exact old.unclaimed entry inRange queued
  · exact once
  · rfl
  · simpa using balance

variable (placed : Placed capacity log mem lists others place owing)

include placed

theorem Placed.of_slots (same : others who = held) (taken : held.slots slot = some mode) :
    slot < capacity ∧ place slot = .hand who mode :=
  (placed.hand who slot mode).mp (same ▸ taken)

/-- A slot that is in no hands is not in the actor's. -/
theorem Placed.slots_none (same : others who = held) (away : ∀ mode, place slot ≠ .hand who mode) :
    held.slots slot = none := by
  cases taken : held.slots slot with
  | none => rfl
  | some mode => exact absurd (placed.of_slots same taken).2 (away mode)

theorem holders_own (known : slot < capacity) (here : place slot = .hand who mode)
    (entry : Nat) : Task.holders entry log =
      if entry = slot then (Place.hand who next).holders else Task.holders entry log := by
  by_cases eq : entry = slot
  · subst entry
    rw [placed.holders slot known, here]
    simp [Place.holders]
  · simp [eq]

omit placed

/-- The holder turns the slot in its hands without logging anything. -/
theorem Placed.turn_own (old : Placed capacity log mem lists others place owing)
    (same : others who = held) (taken : held.slots slot = some mode)
    (next : Mode) (owes : Bool) (notQueued : new ≠ .queued) (may : next.allows new)
    (balance : (Place.hand who mode).weight (mem.slot slot).state + held.owes.toNat =
      (Place.hand who next).weight new + owes.toNat) :
    Placed capacity log ((stateOf slot).set new mem) lists
      (update others who ((held.set slot (some next)).owing owes))
      (update place slot (.hand who next)) (owingAfter owing who owes) := by
  obtain ⟨known, here⟩ := old.of_slots same taken
  have mine : (Place.hand who next).modeFor who = some next := by simp [Place.modeFor]
  rw [← mine]
  apply old.turn known same (.hand who next) owes
  · simp [here]
  · simp
  · simp [here]
  · exact may
  · exact holders_own old known here
  · exact fun queued => absurd queued notQueued
  · exact fun _ _ => rfl
  · exact old.once
  · rw [here]
    exact balance

end

section

def popSites (queue : Queue) (shard : Shard) : (system queue).StackSites shard where
  load := .pop shard .load
  next := .pop shard .next
  exchange := .pop shard .exchange
  quiet_exchange _ _ _ := by simp [system, record]

def pushSites (queue : Queue) (shard : Shard) (slot : Nat) : (system queue).StackSites shard where
  load := .push shard slot .load
  next := .push shard slot .next
  exchange := .push shard slot .exchange
  quiet_exchange _ _ _ := by simp [system, record]

/-- A pop puts the slot into the popper's hands, as its stack kept it. -/
theorem does_popShard (shard : Shard) (empty : post none held)
    (taken : ∀ slot < queue.capacity, held.slots slot = none → post (some slot) (held.set slot (some shard.mode))) :
    Does queue who (popShard shard) post held := by
  apply does_treiberPop (popSites queue shard) empty
  rintro log mem lists others rest new ⟨place, owing, placed⟩ same shape once ne
  generalize top : (((system queue).view.get mem).head shard).slot = slot at shape once
  obtain ⟨known, here⟩ := (placed.listed shard slot).mp (shape ▸ List.mem_cons_self)
  have logged : (system queue).record who (popSites queue shard).exchange mem
      (((system queue).view.head shard).set new mem) log = .popped who slot :: log := by
    have diff : (view.get mem).head shard ≠ new := Ne.symm ne
    simp only [system, record, popSites, StackView.head]
    rw [if_neg (by simpa [view] using diff)]
    exact congrArg (Event.popped who · :: log) top
  have mine : (Place.hand who shard.mode).modeFor who = some shard.mode := by
    simp [Place.modeFor]
  have fresh : held.slots slot = none := placed.slots_none same (by simp [here])
  refine ⟨_, ⟨update place slot (.hand who shard.mode),
    owingAfter owing who held.owes, ?_⟩, taken slot known fresh⟩
  rw [logged, ← mine]
  apply placed.change known same (.hand who shard.mode) held.owes
  · simp [here]
  · simp
  · intro other entry
    by_cases eq : entry = slot
    · simpa [eq] using once other
    · by_cases own : other = shard
      · subst other
        simp [shape, eq]
      · simp [eq, own]
  · exact fun _ _ => rfl
  · have may := placed.allowed slot known
    rw [here] at may
    exact may
  · intro entry
    by_cases eq : entry = slot
    · simp [holders, eq, placed.holders slot known, here, Place.holders]
    · simp [holders, eq, Ne.symm eq]
  · exact placed.unclaimed
  · exact placed.once
  · rfl
  · rw [here, Place.rides_stack shard who]
    rfl

/-- A push takes the slot out of the pusher's hands, which must keep it as its
stack does. -/
theorem does_pushShard (shard : Shard)
    (holds : held.slots slot = some shard.mode) (given : post () (held.set slot none)) :
    Does queue who (pushShard shard slot) post held := by
  apply does_treiberPush (pushSites queue shard slot)
  · exact fun absent => by simp [holds] at absent
  rintro log mem lists others new ⟨place, owing, placed⟩ same ne
  obtain ⟨known, here⟩ := placed.of_slots same holds
  have logged : (system queue).record who (pushSites queue shard slot).exchange mem
      (((system queue).view.head shard).set new mem) log = .pushed who slot :: log := by
    have diff : (view.get mem).head shard ≠ new := Ne.symm ne
    simp only [system, record, pushSites, StackView.head]
    rw [if_neg (by simpa [view] using diff)]
  refine ⟨_, ⟨update place slot (.stack shard), owingAfter owing who held.owes, ?_⟩,
    given⟩
  rw [logged]
  apply placed.change known same (.stack shard) held.owes
  · simp [here]
  · simp
  · intro other entry
    by_cases own : other = shard
    · subst other
      by_cases eq : entry = slot <;> simp [eq]
    · have absent : slot ∉ lists other := by simp [placed.listed, here]
      by_cases eq : entry = slot
      · simp [eq, own, absent, Ne.symm own]
      · simp [eq, own]
  · exact fun _ _ => rfl
  · have may := placed.allowed slot known
    rw [here] at may
    exact may
  · intro entry
    by_cases eq : entry = slot
    · simp [holders, eq, placed.holders slot known, here, Place.holders]
    · simp [holders, eq, Ne.symm eq]
  · exact placed.unclaimed
  · exact placed.once
  · rfl
  · rw [here, Place.rides_stack shard who]
    rfl

end

section

/-- An exchange on a state word, by what it does when won and when lost. -/
theorem does_exchangeState (plain : role site = none) (won : ∀ log mem lists others place owing,
      Placed queue.capacity log mem lists others place owing → others who = held → (mem.slot slot).state = now →
      ∃ kept, (ownership queue).own (record who site mem ((stateOf slot).set new mem) log)
          ((stateOf slot).set new mem) lists (update others who kept) ∧ post none kept)
    (lost : ∀ log mem lists others place owing,
      Placed queue.capacity log mem lists others place owing → others who = held → (mem.slot slot).state ≠ now →
      ∃ kept, (ownership queue).own (record who site mem mem log) mem lists (update others who kept) ∧
        post (some (mem.slot slot).state) kept) :
    Does queue who (compareExchange site (stateOf slot) now new) post held := by
  apply does_act plain
  · intro mem
    by_cases got : (stateOf slot).get mem = now
    · rw [if_pos got]
      rfl
    · rw [if_neg got]
  rintro log mem lists others ⟨place, owing, placed⟩ same
  by_cases got : (stateOf slot).get mem = now
  · simp only [if_pos got]
    obtain ⟨kept, owned, res⟩ := won log mem lists others place owing placed same got
    exact ⟨kept, owned, does_ret res⟩
  · simp only [if_neg got]
    obtain ⟨kept, owned, res⟩ := lost log mem lists others place owing placed same got
    exact ⟨kept, owned, does_ret res⟩

theorem own_unchanged (placed : Placed queue.capacity log mem lists others place owing)
    (same : others who = held) : (ownership queue).own log mem lists (update others who held) := by
  rw [← same, update_eq_self]
  exact ⟨place, owing, placed⟩

/-- A claim takes the slot out of every hand; losing it shows that the task was
cancelled, which leaves a spent slot and a decrement owed. -/
theorem does_tryClaim (holds : held.slots slot = some .live)
    (clear : held.owes = false) (won : post true (held.set slot none))
    (lost : post false ((held.set slot (some .spent)).owing true)) : Does queue who (tryClaim slot) post held := by
  apply does_bind
  apply does_exchangeState rfl
  · intro log mem lists others place owing placed same got
    obtain ⟨known, here⟩ := placed.of_slots same holds
    refine ⟨held.set slot none, ⟨update place slot .out,
      owingAfter owing who held.owes, ?_⟩, does_ret won⟩
    have logged : record who (.claim slot) mem ((stateOf slot).set .claimed mem) log =
        .claimed who slot :: log := by simp [record, got]
    rw [logged]
    apply placed.turn known same .out held.owes
    · simp [here]
    · simp
    · simp [here]
    · rfl
    · intro entry
      by_cases eq : entry = slot
      · simp [holders, eq, placed.holders slot known, here, Place.holders]
      · simp [holders, eq, Ne.symm eq]
    · simp
    · intro entry ne
      simp [unclaimed, Ne.symm ne]
    · exact ⟨placed.unclaimed slot known got, placed.once⟩
    · simp [here, got, Place.weight]
  · intro log mem lists others place owing placed same got
    obtain ⟨known, here⟩ := placed.of_slots same holds
    have cancelled : (mem.slot slot).state = .cancelled := by
      have may := placed.allowed slot known
      rw [here] at may
      exact may.resolve_left got
    have turned := placed.turn_own same holds .spent true (by simp : TaskState.cancelled ≠ .queued)
      (by simp [Mode.allows]) (by simp [cancelled, clear, Place.weight, Place.rides])
    rw [stateOf_set_same _ _ cancelled] at turned
    have quiet : record who (.claim slot) mem mem log = log := by simp [record]
    rw [quiet]
    exact ⟨_, ⟨_, _, turned⟩, does_ret lost⟩

/-- The drain's exchange recovers a cancelled slot in hand. -/
theorem does_recover (holds : held.slots slot = some .live) (clear : held.owes = false)
    (won : post none ((held.set slot (some .reserved)).owing true)) (lost : ∀ st, post (some st) held) :
    Does queue who (compareExchange (.recover slot) (stateOf slot) .cancelled .reserved) post held := by
  apply does_exchangeState rfl
  · intro log mem lists others place owing placed same got
    have turned := placed.turn_own same holds .reserved true
      (by simp : TaskState.reserved ≠ .queued) (by simp [Mode.allows])
      (by simp [got, clear, Place.weight, Place.rides])
    exact ⟨_, ⟨_, _, turned⟩, won⟩
  · intro log mem lists others place owing placed same got
    exact ⟨held, own_unchanged placed same, lost _⟩

theorem Placed.out_of_claimed (placed : Placed capacity log mem lists others place owing)
    (known : slot < capacity) (claimed : (mem.slot slot).state = .claimed) : place slot = .out := by
  have may := placed.allowed slot known
  rw [claimed] at may
  cases here : place slot with
  | out => rfl
  | stack shard =>
    rw [here] at may
    cases shard <;> simp [Place.allows, Shard.mode, Mode.allows] at may
  | hand holder mode =>
    rw [here] at may
    cases mode <;> simp [Place.allows, Mode.allows] at may

/-- The three exchanges out of `CLAIMED`: whoever wins has the slot in hand. -/
theorem does_elect (mode : Mode) (kind : site = .complete slot ∨ site = .requeue slot ∨ site = .fail slot)
    (known : slot < queue.capacity) (may : mode.allows new)
    (proper : new ≠ .queued ∧ new ≠ .cancelled ∧ new ≠ .claimed)
    (won : held.slots slot = none → post none (held.set slot (some mode))) (lost : ∀ st, post (some st) held) :
    Does queue who (compareExchange site (stateOf slot) .claimed new) post held := by
  have plain : role site = none := by rcases kind with rfl | rfl | rfl <;> rfl
  have logged : ∀ (mem after : Memory) (log : List Event),
      record who site mem after log =
        if (mem.slot slot).state = (after.slot slot).state then log
        else .elected who slot :: log := by
    intro mem after log
    rcases kind with rfl | rfl | rfl <;> rfl
  apply does_exchangeState plain
  · intro log mem lists others place owing placed same got
    have here := placed.out_of_claimed known got
    have mine : (Place.hand who mode).modeFor who = some mode := by simp [Place.modeFor]
    refine ⟨held.set slot (some mode), ⟨update place slot (.hand who mode),
      owingAfter owing who held.owes, ?_⟩, won (placed.slots_none same (by simp [here]))⟩
    rw [logged, if_neg (by simpa [got] using Ne.symm proper.2.2), ← mine]
    apply placed.turn known same (.hand who mode) held.owes
    · simp [here]
    · simp
    · simp [here]
    · exact may
    · intro entry
      by_cases eq : entry = slot
      · simp [holders, eq, placed.holders slot known, here, Place.holders]
      · simp [holders, eq, Ne.symm eq]
    · exact fun queued => absurd queued proper.1
    · exact fun _ _ => rfl
    · exact placed.once
    · simp [here, Place.weight, Place.rides, proper.2.1]
  · intro log mem lists others place owing placed same got
    rw [logged, if_pos rfl]
    exact ⟨held, own_unchanged placed same, lost _⟩

/-- A won cancel turns the increment made ahead of it into a riding slot,
wherever that slot is: on a stack or in another operation's hands. -/
theorem does_tryCancelQueued (known : slot < queue.capacity)
    (ahead : held.owes = true) (won : post true (held.owing false)) (lost : post false held) :
    Does queue who (tryCancelQueued slot) post held := by
  apply does_bind
  apply does_exchangeState rfl
  · intro log mem lists others place owing placed same got
    have live : (place slot).rides = true ∧ (place slot).allows .cancelled := by
      have may := placed.allowed slot known
      rw [got] at may
      cases here : place slot with
      | out => simp [here, Place.allows] at may
      | stack shard =>
        cases shard <;> simp_all [Place.allows, Place.rides, Shard.mode, Mode.allows]
      | hand holder mode => cases mode <;> simp_all [Place.allows, Place.rides, Mode.allows]
    refine ⟨held.owing false, ⟨place, owingAfter owing who false, ?_⟩, does_ret won⟩
    apply placed.recount same false
    · intro entry inRange
      by_cases eq : entry = slot
      · subst entry
        simpa using live.2
      · rw [stateOf_set_other _ _ eq]
        exact placed.allowed entry inRange
    · intro entry queued
      by_cases eq : entry = slot
      · simp [eq] at queued
      · rwa [stateOf_set_other _ _ eq] at queued
    · have debts := card_owingAfter (placed.owes who) false
      have sums := total_change place (place slot) owing known
        (fun entry ne => stateOf_set_other .cancelled mem ne)
        (owingAfter owing who false)
      rw [same, ahead] at debts
      rw [update_eq_self] at sums
      simp only [stateOf_set_self, Place.weight, live.1, got] at sums
      simp only [stateOf_set_cancelled, placed.count]
      simp only [Bool.toNat_true, Bool.toNat_false] at debts
      congr 1
      simp at sums
      omega
  · intro log mem lists others place owing placed same got
    exact ⟨held, own_unchanged placed same, does_ret lost⟩

end

section

/-- A change of the count that the acting operation's debt makes up for. -/
theorem does_recount (owes : Bool) (plain : role site = none)
    (quiet : ∀ old new log, record who site old new log = log)
    (level : ∀ old new, new + held.owes.toNat = old + owes.toNat → change (old % 2 ^ 32) = new % 2 ^ 32)
    (counted : ∀ previous, post previous (held.owing owes)) :
    Does queue who (fetchUpdate site cancelledRef change) post held := by
  apply does_act
  · exact plain
  · exact fun _ => rfl
  rintro log mem lists others ⟨place, owing, placed⟩ same
  refine ⟨held.owing owes, ⟨place, owingAfter owing who owes, ?_⟩,
    does_ret (counted _)⟩
  have logged : (system queue).record who site mem
      (cancelledRef.set (change (cancelledRef.get mem)) mem) log = log := quiet _ _ _
  rw [logged]
  apply placed.recount same owes
  · exact placed.allowed
  · exact fun _ queued => queued
  · have debts := card_owingAfter (placed.owes who) owes
    rw [same] at debts
    have new := level (total queue.capacity place mem owing)
      (total queue.capacity place mem (owingAfter owing who owes))
      (by simp only [total]; omega)
    rw [← placed.count] at new
    exact new

/-- Counting ahead of the exchange. -/
theorem does_countCancelled (clear : held.owes = false) (counted : ∀ previous, post previous (held.owing true)) :
    Does queue who countCancelled post held := by
  apply does_recount true rfl (fun _ _ _ => rfl) _ counted
  intro old new level
  simp only [clear, Bool.toNat_true, Bool.toNat_false] at level
  omega

theorem does_uncountCancelled (owed : held.owes = true) (counted : ∀ previous, post previous (held.owing false)) :
    Does queue who uncountCancelled post held := by
  apply does_recount false rfl (fun _ _ _ => rfl) _ counted
  intro old new level
  simp only [owed, Bool.toNat_true, Bool.toNat_false] at level
  omega

end

section

/-- A state store by the slot's holder. -/
theorem does_storeState (next : Mode) (plain : role site = none)
    (quiet : ∀ old after log, record who site old after log = log)
    (holds : held.slots slot = some mode) (notQueued : new ≠ .queued) (may : next.allows new)
    (level : ∀ st, mode.allows st → (Place.hand who mode).weight st = (Place.hand who next).weight new)
    (stored : post () (held.set slot (some next))) : Does queue who (store site (stateOf slot) new) post held := by
  apply does_act
  · exact plain
  · exact fun _ => rfl
  rintro log mem lists others ⟨place, owing, placed⟩ same
  obtain ⟨known, here⟩ := placed.of_slots same holds
  have allows := placed.allowed slot known
  rw [here] at allows
  have turned := placed.turn_own same holds next held.owes notQueued may
    (by rw [level _ allows])
  refine ⟨held.set slot (some next), ?_, does_ret stored⟩
  have logged : (system queue).record who site mem ((stateOf slot).set new mem) log = log :=
    quiet _ _ _
  rw [logged]
  exact ⟨_, _, turned⟩

/-- The publication: a reserved slot becomes a live one, not yet claimed. -/
theorem does_publish (holds : held.slots slot = some .reserved) (stored : post () (held.set slot (some .live))) :
    Does queue who (store (.publish slot) (stateOf slot) .queued) post held := by
  apply does_act
  · rfl
  · exact fun _ => rfl
  rintro log mem lists others ⟨place, owing, placed⟩ same
  obtain ⟨known, here⟩ := placed.of_slots same holds
  refine ⟨held.set slot (some .live), ⟨update place slot (.hand who .live),
    owingAfter owing who held.owes, ?_⟩, does_ret stored⟩
  have mine : (Place.hand who .live).modeFor who = some .live := by simp [Place.modeFor]
  rw [← mine]
  apply placed.turn known same (.hand who .live) held.owes
  · simp [here]
  · simp
  · simp [here]
  · exact .inl rfl
  · intro entry
    exact holders_own placed known here entry
  · intro _
    simp [system, record, unclaimed]
  · intro entry ne
    simp [system, record, unclaimed, Ne.symm ne]
  · exact placed.once
  · simp [here, Place.weight, Place.rides]

end

section

/-- An access that membership does not see. -/
def Elsewhere (site : Site) (update : Memory → Memory) : Prop :=
  site = .field ∧ ∀ memory, (update memory).lists = memory.lists ∧
    (update memory).cancelled = memory.cancelled ∧
    ∀ slot, ((update memory).slot slot).state = (memory.slot slot).state

theorem does_elsewhere (every : code.Every Elsewhere) (new : ∀ val, post val held) : Does queue who code post held := by
  apply does_mono (does_of_every every ?_ ?_ ?_)
  · intro val kept same
    rw [same]
    exact new val
  · intro site update kind
    rw [kind.1]
    rfl
  · exact fun site update kind mem => (kind.2 mem).1
  · rintro site update ⟨rfl, kind⟩ log mem lists others ⟨place, owing, placed⟩
    exact ⟨place, owing, placed.congr (kind mem).2.2 (kind mem).2.1⟩

end

end ShmActors.Task
