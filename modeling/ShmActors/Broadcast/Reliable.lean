import ShmActors.Broadcast.Integrity

/-! Reliable subscribers and a producer that minds them. `would_backpressure`
lets a publish through while a cursor is exactly a lap behind, whose slot is the
one the publish overwrites. -/

namespace ShmActors.Broadcast

open Lib Core Program Function Actors

/-- Where a member stands inside a call, as far as the cursors matter. -/
inductive Pace where
  | rest
  | scanning (left : List Nat) (least : Option Nat)
  | cleared
  | publishing (seq : Nat)
  | signed (seq : Nat)
  | gated (cursor : Nat)
  /-- After a lag of a reliable subscriber. -/
  | lost

def Pace.calm : Pace → Bool
  | rest | gated _ => true
  | _ => false

def Pace.produces : Pace → Bool
  | scanning .. | cleared | publishing _ | signed _ => true
  | _ => false

/-- `hold` is a reliable subscriber's cell and the cursor in it. -/
structure Standing where
  publisher : Bool
  lagged : Bool
  hold : Option (Nat × Nat)
  pace : Pace

/-- What makes `read_at` report a lag. -/
def Missed (ring : Ring) (memory : RingMemory) (cursor : Nat) (pace : Pace) : Prop :=
  ring.capacity < memory.head - cursor ∨
    pace = .gated cursor ∧ (memory.slot (ring.slotIndex cursor)).seq ≠ cursor

/-- An access that changes neither `head` nor a guard nor a cursor. -/
def Unmoved (before after : RingMemory) : Prop :=
  after.head = before.head ∧ after.reliable = before.reliable ∧
    ∀ index, (after.slot index).seq = (before.slot index).seq

section

variable (ring : Ring)

/-- The accesses of a producer that minds the reliable cursors, and of subscribers. -/
inductive Tread : Protocol RingMemory RingSite Standing where
  | look (calm : pace.calm = true) (still : Unmoved before after) :
      Tread site ⟨publisher, lagged, hold, pace⟩ ⟨publisher, lagged, hold, .rest⟩ before after
  | renew (calm : pace.calm = true) :
      Tread site ⟨publisher, lagged, none, pace⟩ ⟨publisher, false, none, .rest⟩ memory memory
  | scan
      (here : pace = .scanning (index :: left) least ∨
        pace.calm = true ∧ index :: left = List.range maxReliable ∧ least = none) :
      Tread (.scanReliable index) ⟨true, lagged, hold, pace⟩
        ⟨true, lagged, hold, .scanning left (Ring.lower least (memory.reliable index))⟩ memory memory
  | pressed :
      Tread site ⟨publisher, lagged, hold, .scanning [] (some least)⟩ ⟨publisher, lagged, hold, .rest⟩
        memory memory
  | clear (free : memory.head - least ≤ ring.capacity) :
      Tread site ⟨publisher, lagged, hold, .scanning [] (some least)⟩ ⟨publisher, lagged, hold, .cleared⟩
        memory memory
  | begin (free : pace = .cleared ∨ pace = .scanning [] none) :
      Tread .loadHead ⟨publisher, lagged, hold, pace⟩ ⟨publisher, lagged, hold, .publishing memory.head⟩
        memory memory
  | write (still : Unmoved before after) :
      Tread site ⟨publisher, lagged, hold, .publishing seq⟩ ⟨publisher, lagged, hold, .publishing seq⟩
        before after
  | sign :
      Tread (.storeSeq seq) ⟨publisher, lagged, hold, .publishing seq⟩ ⟨publisher, lagged, hold, .signed seq⟩
        memory ((seqOf (ring.slotIndex seq)).set seq memory)
  | advance :
      Tread (.advanceHead seq desc) ⟨publisher, lagged, hold, .signed seq⟩ ⟨publisher, lagged, hold, .rest⟩
        memory (headOf.set ((seq + 1) % 2 ^ 64) memory)
  | gate (cursor : Nat) (calm : pace.calm = true)
      (behind : cursor < memory.head) :
      Tread site ⟨publisher, lagged, hold, pace⟩ ⟨publisher, lagged, hold, .gated cursor⟩ memory memory
  | check :
      Tread site ⟨publisher, lagged, hold, .gated cursor⟩ ⟨publisher, lagged, hold, .gated cursor⟩
        memory memory
  | stray (cursor : Nat) (calm : pace.calm = true)
      (missed : Missed ring memory cursor pace) :
      Tread site ⟨publisher, lagged, none, pace⟩ ⟨publisher, true, none, .rest⟩ memory memory
  | lose {publisher lagged index cursor pace site memory} (calm : pace.calm = true)
      (missed : Missed ring memory cursor pace) :
      Tread site ⟨publisher, lagged, some (index, cursor), pace⟩
        ⟨publisher, lagged, some (index, cursor), .lost⟩ memory memory
  | wander :
      Tread site ⟨publisher, lagged, hold, .lost⟩ ⟨publisher, lagged, hold, .lost⟩ before after
  | update {publisher lagged index cursor memory} :
      Tread (.updateReliable index ((cursor + 1) % 2 ^ 64))
        ⟨publisher, lagged, some (index, cursor), .gated cursor⟩
        ⟨publisher, lagged, some (index, (cursor + 1) % 2 ^ 64), .rest⟩ memory
        ((reliableOf index).set ((cursor + 1) % 2 ^ 64) memory)
  | register {publisher lagged pace index cursor memory} (calm : pace.calm = true) (within : index < maxReliable)
      (unused : memory.reliable index = reliableUnused) :
      Tread (.registerReliable index cursor) ⟨publisher, lagged, none, pace⟩
        ⟨publisher, lagged, some (index, cursor), .rest⟩ memory ((reliableOf index).set cursor memory)
  | release {publisher lagged pace index cursor memory} (calm : pace.calm = true) :
      Tread (.releaseReliable index) ⟨publisher, lagged, some (index, cursor), pace⟩
        ⟨publisher, lagged, none, .rest⟩ memory ((reliableOf index).set reliableUnused memory)

end

/-- Every cursor that is registered satisfies this. -/
abbrev OnTable (memory : RingMemory) (fact : Nat → Prop) : Prop :=
  ∀ index < maxReliable, memory.reliable index ≠ reliableUnused → fact (memory.reliable index)

/-- What a pace says of the ring. -/
def Pace.Fits (ring : Ring) (memory : RingMemory) : Pace → Prop
  | .rest => True
  | .scanning left least => ∀ index < maxReliable, index ∉ left → memory.reliable index ≠ reliableUnused →
      memory.head = 0 ∨ ∃ lowest, least = some lowest ∧ lowest ≤ memory.reliable index
  | .cleared => OnTable memory fun cursor => memory.head ≤ cursor + ring.capacity
  | .publishing seq => seq = memory.head ∧ seq + 1 < reliableUnused ∧
      OnTable memory fun cursor => seq < cursor + ring.capacity
  | .signed seq => seq = memory.head ∧ seq + 1 < reliableUnused ∧
      (memory.slot (ring.slotIndex seq)).seq = seq ∧ OnTable memory fun cursor => seq < cursor + ring.capacity
  | .gated cursor => cursor < memory.head
  | .lost => False

/-- The invariant: no registered cursor is more than a lap behind, and a slot
within a lap of `head` still carries its guard unless it is just being reused. -/
structure Spacious (ring : Ring) (memory : RingMemory) (standings : Nat → Standing) : Prop where
  bounded : memory.head < reliableUnused
  readers : ∀ actor, actor ≠ 0 → (standings actor).publisher = false ∧ (standings actor).pace.produces = false
  near : OnTable memory fun cursor => memory.head ≤ cursor + ring.capacity
  fits : ∀ actor, (standings actor).pace.Fits ring memory
  held : ∀ actor index cursor, (standings actor).hold = some (index, cursor) →
    index < maxReliable ∧ memory.reliable index = cursor ∧ cursor ≤ memory.head ∧
      (standings actor).lagged = false
  single : ∀ actor other index first second, (standings actor).hold = some (index, first) →
    (standings other).hold = some (index, second) → actor = other
  guards : ∀ seq < memory.head, memory.head ≤ seq + ring.capacity →
    (∀ fresh, (standings 0).pace = .signed fresh → fresh ≠ seq + ring.capacity) →
    (memory.slot (ring.slotIndex seq)).seq = seq
  late : ∀ actor, (standings actor).lagged = true → 0 < memory.head

/-- Subscribers register as reliable at sequence 0, before anything is published. -/
def Early (site : RingSite) (memory : RingMemory) : Prop :=
  match site with
  | .registerReliable _ cursor => cursor = 0 ∧ memory.head = 0
  | _ => True

/-- No registered cursor is exactly a lap behind when a publish begins. -/
def Spaced (ring : Ring) (site : RingSite) (memory : RingMemory) : Prop :=
  match site with
  | .loadHead => OnTable memory fun cursor => memory.head ≠ cursor + ring.capacity
  | _ => True

section

variable {ring : Ring} {before after mem : RingMemory} {standings : Nat → Standing} {pace : Pace}
  {seq index cursor : Nat}

/-- The cursors have only advanced, or nothing is published yet. -/
def Advanced (before after : RingMemory) : Prop :=
  ∀ index < maxReliable, after.reliable index ≠ reliableUnused →
    before.reliable index ≠ reliableUnused ∧ before.reliable index ≤ after.reliable index ∨ before.head = 0

theorem OnTable.advanced (all : OnTable before one) (advanced : Advanced before after)
    (grows : ∀ lower upper, lower ≤ upper → one lower → two upper)
    (fresh : before.head = 0 → ∀ cursor, two cursor) : OnTable after two := by
  intro index within used
  rcases advanced index within used with ⟨earlier, le⟩ | zero
  · exact grows _ _ le (all index within earlier)
  · exact fresh zero _

theorem Pace.Fits.moved (fits : pace.Fits ring before) (head : after.head = before.head)
    (guards : ∀ index, (after.slot index).seq = (before.slot index).seq) (advanced : Advanced before after) :
    pace.Fits ring after := by
  have positive := ring.capacity_pos
  cases pace with
  | rest => trivial
  | scanning left least =>
    intro index within seen used
    rw [head]
    rcases advanced index within used with ⟨earlier, le⟩ | zero
    · rcases fits index within seen earlier with zero | ⟨lowest, got, below⟩
      · exact .inl zero
      · exact .inr ⟨lowest, got, below.trans le⟩
    · exact .inl zero
  | cleared =>
    have all : OnTable before fun cursor => before.head ≤ cursor + ring.capacity := fits
    show OnTable after fun cursor => after.head ≤ cursor + ring.capacity
    refine all.advanced advanced (fun lower upper le near => ?_) (fun zero cursor => ?_) <;> omega
  | publishing seq =>
    obtain ⟨rfl, room, all⟩ := fits
    refine ⟨head.symm, room, all.advanced advanced (fun lower upper le near => ?_) (fun zero cursor => ?_)⟩ <;> omega
  | signed seq =>
    obtain ⟨rfl, room, guard, all⟩ := fits
    refine ⟨head.symm, room, (guards _).trans guard,
      all.advanced advanced (fun lower upper le near => ?_) (fun zero cursor => ?_)⟩ <;> omega
  | gated cursor =>
    show cursor < after.head
    rw [head]
    exact fits
  | lost => exact fits

/-- A step that leaves `head` and the guards alone. -/
theorem Spacious.moved (spacious : Spacious ring before standings) (head : after.head = before.head)
    (guards : ∀ index, (after.slot index).seq = (before.slot index).seq) (advanced : Advanced before after)
    (unsigned : ∀ fresh, (standings who).pace ≠ .signed fresh)
    (reader : who ≠ 0 → later.publisher = false ∧ later.pace.produces = false) (fits : later.pace.Fits ring after)
    (held : ∀ index cursor, later.hold = some (index, cursor) →
      index < maxReliable ∧ after.reliable index = cursor ∧ cursor ≤ after.head ∧ later.lagged = false)
    (others : ∀ other, other ≠ who → ∀ index cursor, (standings other).hold = some (index, cursor) →
      after.reliable index = before.reliable index ∧ ∀ own, later.hold ≠ some (index, own))
    (late : later.lagged = true → 0 < before.head) : Spacious ring after (update standings who later) where
  bounded := head ▸ spacious.bounded
  readers other ne := by
    by_cases same : other = who
    · subst other
      rw [update_self]
      exact reader ne
    · rw [update_of_ne same]
      exact spacious.readers other ne
  near := by
    refine spacious.near.advanced advanced (fun lower upper le near => ?_) (fun zero cursor => ?_) <;> omega
  fits other := by
    by_cases same : other = who
    · subst other
      rw [update_self]
      exact fits
    · rw [update_of_ne same]
      exact (spacious.fits other).moved head guards advanced
  held other index cursor := by
    by_cases same : other = who
    · subst other
      rw [update_self]
      exact held index cursor
    · rw [update_of_ne same, head]
      intro hold
      rw [(others other same index cursor hold).1]
      exact spacious.held other index cursor hold
  single first second index here there := by
    by_cases one : first = who <;> by_cases two : second = who
    · exact fun _ _ => one.trans two.symm
    · rw [one, update_self, update_of_ne two]
      exact fun own hold => absurd own ((others second two index _ hold).2 _)
    · rw [two, update_self, update_of_ne one]
      exact fun hold own => absurd own ((others first one index _ hold).2 _)
    · rw [update_of_ne one, update_of_ne two]
      exact spacious.single first second index here there
  guards seq below near fresh := by
    rw [head] at below near
    rw [guards]
    refine spacious.guards seq below near fun other signed => ?_
    by_cases same : 0 = who
    · exact absurd (same ▸ signed) (unsigned other)
    · refine fresh other ?_
      rw [update_of_ne same]
      exact signed
  late other := by
    rw [head]
    by_cases same : other = who
    · subst other
      rw [update_self]
      exact late
    · rw [update_of_ne same]
      exact spacious.late other

theorem advanced_refl (same : after.reliable = before.reliable) : Advanced before after := by
  intro index _ used
  rw [same] at used ⊢
  exact .inl ⟨used, le_rfl⟩

/-- A step that leaves the cursors alone too. -/
theorem Spacious.still (spacious : Spacious ring before standings) (still : Unmoved before after)
    (unsigned : ∀ fresh, (standings who).pace ≠ .signed fresh)
    (reader : who ≠ 0 → later.publisher = false ∧ later.pace.produces = false)
    (fits : later.pace.Fits ring after) (hold : later.hold = (standings who).hold)
    (late : later.lagged = true → 0 < before.head)
    (reliable : later.hold ≠ none → later.lagged = (standings who).lagged) :
    Spacious ring after (update standings who later) := by
  obtain ⟨head, table, guards⟩ := still
  refine spacious.moved head guards (advanced_refl table) unsigned reader fits ?_ ?_ late
  · intro index cursor held
    obtain ⟨within, registered, below, lagged⟩ := spacious.held who index cursor (hold ▸ held)
    rw [table, head, reliable (by rw [held]; exact nofun)]
    exact ⟨within, registered, below, lagged⟩
  · intro other ne index cursor held
    refine ⟨by rw [table], fun own mine => ne ?_⟩
    exact spacious.single other who index cursor own held (hold ▸ mine)

theorem slot_seq_set (val : Nat) :
    (((seqOf (ring.slotIndex seq)).set val mem).slot index).seq =
      if index = ring.slotIndex seq then val else (mem.slot index).seq := by
  show (update mem.slot _ _ index).seq = _
  rw [update_apply]
  split
  · rfl
  · rfl

theorem Spacious.producer (spacious : Spacious ring mem standings)
    (produces : (standings who).pace.produces = true) : who = 0 := by
  by_contra ne
  rw [(spacious.readers who ne).2] at produces
  cases produces

/-- A subscriber's pace, while the producer takes a step. -/
theorem Pace.Fits.beside (fits : pace.Fits ring before) (reads : pace.produces = false)
    (head : before.head ≤ after.head) : pace.Fits ring after := by
  cases pace with
  | rest => trivial
  | gated cursor => exact lt_of_lt_of_le fits head
  | lost => exact fits
  | scanning | cleared | publishing | signed => cases reads

theorem update_pace (own : standings who = standing) (other : Nat) :
    (update standings who { standing with pace := pace } other).hold = (standings other).hold ∧
      (update standings who { standing with pace := pace } other).lagged =
        (standings other).lagged := by
  by_cases same : other = who
  · subst other
    rw [update_self, own]
    exact ⟨rfl, rfl⟩
  · rw [update_of_ne same]
    exact ⟨rfl, rfl⟩

/-- A step by which the producer alone moves on: `head` and the guards change,
the cursors do not. -/
theorem Spacious.produced (spacious : Spacious ring before standings) (own : standings 0 = standing)
    (head : before.head ≤ after.head) (bounded : after.head < reliableUnused)
    (table : after.reliable = before.reliable)
    (near : OnTable after fun cursor => after.head ≤ cursor + ring.capacity) (fits : pace.Fits ring after)
    (guards : ∀ seq < after.head, after.head ≤ seq + ring.capacity →
      (∀ fresh, pace = .signed fresh → fresh ≠ seq + ring.capacity) →
      (after.slot (ring.slotIndex seq)).seq = seq) :
    Spacious ring after (update standings 0 { standing with pace := pace }) := by
  refine ⟨bounded, fun other ne => ?_, near, fun other => ?_, fun other index cursor => ?_,
    fun one two index here there => ?_, fun earlier below near fresh => ?_, fun other => ?_⟩
  · rw [update_of_ne ne]
    exact spacious.readers other ne
  · by_cases same : other = 0
    · subst other
      rw [update_self]
      exact fits
    · rw [update_of_ne same]
      exact (spacious.fits other).beside (spacious.readers other same).2 head
  · rw [(update_pace own other).1, (update_pace own other).2, table]
    intro held
    obtain ⟨within, registered, below, lagged⟩ := spacious.held other index cursor held
    exact ⟨within, registered, below.trans head, lagged⟩
  · rw [(update_pace own one).1, (update_pace own two).1]
    exact spacious.single one two index here there
  · rw [update_self] at fresh
    exact guards earlier below near fresh
  · rw [(update_pace own other).2]
    exact fun late => (spacious.late other late).trans_le head

theorem Spacious.sign (spacious : Spacious ring mem standings)
    (own : standings who = standing) (pace : standing.pace = .publishing seq) :
    Spacious ring ((seqOf (ring.slotIndex seq)).set seq mem)
      (update standings who { standing with pace := .signed seq }) := by
  obtain rfl : who = 0 := spacious.producer (by rw [own, pace]; rfl)
  have fits := spacious.fits 0
  rw [own, pace] at fits
  obtain ⟨rfl, room, all⟩ := fits
  refine spacious.produced own le_rfl spacious.bounded rfl spacious.near ⟨rfl, room, ?_, all⟩ ?_
  · rw [slot_seq_set, if_pos rfl]
  · intro earlier below near fresh
    have ne : mem.head ≠ earlier + ring.capacity := fresh mem.head rfl
    change earlier < mem.head at below
    change mem.head ≤ earlier + ring.capacity at near
    rw [slot_seq_set, if_neg (ring.slotIndex_ne below (by omega))]
    refine spacious.guards earlier below near fun fresh signed => ?_
    rw [own, pace] at signed
    cases signed

theorem Spacious.advance (spacious : Spacious ring mem standings)
    (own : standings who = standing) (pace : standing.pace = .signed seq) :
    Spacious ring (headOf.set ((seq + 1) % 2 ^ 64) mem)
      (update standings who { standing with pace := .rest }) := by
  obtain rfl : who = 0 := spacious.producer (by rw [own, pace]; rfl)
  have fits := spacious.fits 0
  rw [own, pace] at fits
  obtain ⟨rfl, room, guard, all⟩ := fits
  have next : (mem.head + 1) % 2 ^ 64 = mem.head + 1 :=
    Nat.mod_eq_of_lt (by unfold reliableUnused at room; omega)
  rw [next]
  refine spacious.produced own (Nat.le_succ _) room rfl (fun index within used => all index within used) trivial ?_
  intro earlier below near _
  change earlier < mem.head + 1 at below
  change mem.head + 1 ≤ earlier + ring.capacity at near
  rcases Nat.lt_or_ge earlier mem.head with old | new
  · refine spacious.guards earlier old (by omega) fun fresh signed => ?_
    rw [own, pace] at signed
    cases signed
    omega
  · obtain rfl : earlier = mem.head := by omega
    exact guard

/-- A reliable subscriber has missed nothing. -/
theorem Spacious.not_missed (spacious : Spacious ring mem standings)
    (hold : (standings who).hold = some (index, cursor)) : ¬ Missed ring mem cursor (standings who).pace := by
  obtain ⟨within, registered, below, -⟩ := spacious.held who index cursor hold
  have bounded := spacious.bounded
  have used : mem.reliable index ≠ reliableUnused := by omega
  have near := spacious.near index within used
  dsimp only at near
  rw [registered] at near
  rintro (far | ⟨gated, other⟩)
  · omega
  · have behind := spacious.fits who
    rw [gated] at behind
    refine other (spacious.guards cursor behind near fun fresh signed => ?_)
    have fits := spacious.fits 0
    rw [signed] at fits
    have ahead := fits.2.2.2 index within used
    dsimp only at ahead
    omega

/-- A subscriber's paces are no producer's. -/
theorem Spacious.reads (spacious : Spacious ring mem standings) (own : standings who = standing)
    (reads : pace.produces = false) (ne : who ≠ 0) : standing.publisher = false ∧ pace.produces = false := by
  subst own
  exact ⟨(spacious.readers who ne).1, reads⟩

theorem Pace.unsigned (calm : pace.calm = true) (fresh : Nat) : pace ≠ .signed fresh := by
  rintro rfl
  cases calm

theorem unmoved_refl (mem : RingMemory) : Unmoved mem mem := ⟨rfl, rfl, fun _ => rfl⟩

theorem lower_le (least : Option Nat) (used : cursor ≠ reliableUnused) :
    ∃ lowest, Ring.lower least cursor = some lowest ∧ lowest ≤ cursor ∧ ∀ bound, least = some bound →
      lowest ≤ bound := by
  rw [Ring.lower, if_neg used]
  cases least with
  | none => exact ⟨cursor, rfl, le_rfl, nofun⟩
  | some bound => exact ⟨min bound cursor, rfl, min_le_right _ _, fun _ same => Option.some.inj same ▸ min_le_left _ _⟩

theorem lower_kept (cursor : Nat) (got : least = some bound) :
    ∃ lowest, Ring.lower least cursor = some lowest ∧ lowest ≤ bound := by
  subst got
  by_cases used : cursor = reliableUnused
  · exact ⟨bound, by rw [Ring.lower, if_pos used], le_rfl⟩
  · obtain ⟨lowest, same, -, below⟩ := lower_le (some bound) used
    exact ⟨lowest, same, below bound rfl⟩

theorem Spacious.scan (spacious : Spacious ring mem standings) (own : standings who = standing)
    (publisher : standing.publisher = true) (here : standing.pace = .scanning (index :: left) least ∨
      standing.pace.calm = true ∧ index :: left = List.range maxReliable ∧ least = none) :
    Spacious ring mem (update standings who
      { standing with pace := .scanning left (Ring.lower least (mem.reliable index)) }) := by
  have producer : who = 0 := by
    by_contra ne
    have reads := (spacious.readers who ne).1
    rw [own, publisher] at reads
    cases reads
  subst producer
  refine spacious.produced own le_rfl spacious.bounded rfl spacious.near ?_ ?_
  · intro other within seen used
    by_cases same : other = index
    · subst other
      obtain ⟨lowest, got, below, -⟩ := lower_le least used
      exact .inr ⟨lowest, got, below⟩
    · rcases here with scanning | ⟨-, all, -⟩
      · have fits := spacious.fits 0
        rw [own, scanning] at fits
        rcases fits other within (fun in_ => (List.mem_cons.mp in_).elim same seen) used
          with zero | ⟨bound, got, below⟩
        · exact .inl zero
        · obtain ⟨lowest, eq, le⟩ := lower_kept (mem.reliable index) got
          exact .inr ⟨lowest, eq, le.trans below⟩
      · have in_ : other ∈ index :: left := by
          rw [all]
          exact List.mem_range.mpr within
        exact absurd in_ fun in_ => (List.mem_cons.mp in_).elim same seen
  · intro seq below near _
    refine spacious.guards seq below near fun fresh signed => ?_
    rw [own] at signed
    rcases here with scanning | ⟨calm, -⟩
    · rw [scanning] at signed
      cases signed
    · exact absurd signed (Pace.unsigned calm fresh)

theorem Spacious.tread (spacious : Spacious ring before standings) (early : Early site before)
    (spaced : Spaced ring site before) (lasting : Lasting site before)
    (tread : Tread ring site standing later before after) (own : standings who = standing) :
    Spacious ring after (Function.update standings who later) := by
  have fits := spacious.fits who
  have lateness := spacious.late who
  have held := spacious.held who
  rw [own] at fits lateness held
  have reader : ∀ {pace : Pace}, pace.produces = false → who ≠ 0 →
      standing.publisher = false ∧ pace.produces = false := spacious.reads own
  cases tread with
  | look calm still =>
    exact spacious.still still (by rw [own]; exact Pace.unsigned calm) (reader rfl) trivial (by rw [own]) lateness
      fun _ => by rw [own]
  | renew calm =>
    exact spacious.still (unmoved_refl _) (by rw [own]; exact Pace.unsigned calm) (reader rfl) trivial
      (by rw [own]) nofun (absurd rfl)
  | scan here => exact spacious.scan own rfl here
  | pressed =>
    exact spacious.still (unmoved_refl _) (by rw [own]; exact nofun) (reader rfl) trivial (by rw [own]) lateness
      fun _ => by rw [own]
  | clear free =>
    refine spacious.still (unmoved_refl _) (by rw [own]; exact nofun) (fun ne => ?_) ?_ (by rw [own]) lateness
      fun _ => by rw [own]
    · exact absurd (spacious.producer (by rw [own]; rfl)) ne
    · intro index within used
      rcases fits index within List.not_mem_nil used with zero | ⟨lowest, same, below⟩
      · omega
      · cases same
        omega
  | begin free =>
    refine spacious.still (unmoved_refl _) (by rw [own]; rcases free with rfl | rfl <;> exact nofun)
      (fun ne => ?_) ⟨rfl, lasting, fun index within used => ?_⟩ (by rw [own]) lateness fun _ => by rw [own]
    · exact absurd (spacious.producer (by rw [own]; rcases free with rfl | rfl <;> rfl)) ne
    · have ne := spaced index within used
      have near := spacious.near index within used
      dsimp only at ne near ⊢
      omega
  | write still =>
    refine spacious.still still (by rw [own]; exact nofun) (fun ne => ?_)
      (fits.moved still.1 still.2.2 (advanced_refl still.2.1)) (by rw [own]) lateness fun _ => by rw [own]
    exact absurd (spacious.producer (by rw [own]; rfl)) ne
  | sign => exact spacious.sign own rfl
  | advance => exact spacious.advance own rfl
  | gate cursor calm behind =>
    exact spacious.still (unmoved_refl _) (by rw [own]; exact Pace.unsigned calm) (reader rfl) behind
      (by rw [own]) lateness fun _ => by rw [own]
  | check =>
    exact spacious.still (unmoved_refl _) (by rw [own]; exact nofun) (reader rfl) fits (by rw [own]) lateness
      fun _ => by rw [own]
  | stray cursor calm missed =>
    refine spacious.still (unmoved_refl _) (by rw [own]; exact Pace.unsigned calm) (reader rfl) trivial
      (by rw [own]) (fun _ => ?_) (absurd rfl)
    rcases missed with far | ⟨rfl, -⟩
    · omega
    · exact Nat.zero_lt_of_lt fits
  | @lose _ _ index cursor _ _ _ calm missed =>
    have hold : (standings who).hold = some (index, cursor) := by rw [own]
    refine absurd ?_ (spacious.not_missed hold)
    rw [own]
    exact missed
  | wander => exact fits.elim
  | @update _ _ index cursor =>
    obtain ⟨within, registered, below, unlagged⟩ := held index cursor rfl
    have bounded := spacious.bounded
    have behind : cursor < before.head := fits
    have next : (cursor + 1) % 2 ^ 64 = cursor + 1 :=
      Nat.mod_eq_of_lt (by unfold reliableUnused at bounded; omega)
    rw [next]
    refine spacious.moved rfl (fun _ => rfl) (fun other _ used => .inl ?_) (by rw [own]; exact nofun) (reader rfl)
      trivial ?_ ?_ lateness
    · by_cases same : other = index
      · subst other
        simp only [reliableOf, update_self]
        omega
      · simp only [reliableOf, update_of_ne same] at used ⊢
        exact ⟨used, le_rfl⟩
    · rintro _ _ ⟨⟩
      exact ⟨within, by simp [reliableOf], behind, unlagged⟩
    · intro other ne cell val hold
      have different : cell ≠ index := by
        rintro rfl
        exact ne (spacious.single other who cell val cursor hold (by rw [own]))
      exact ⟨by simp [reliableOf, different], fun _ eq => different (by cases eq; rfl)⟩
  | @register _ _ _ index cursor _ calm within unused =>
    obtain ⟨rfl, zero⟩ := early
    refine spacious.moved rfl (fun _ => rfl) (fun _ _ _ => .inr zero) (by rw [own]; exact Pace.unsigned calm)
      (reader rfl) trivial ?_ ?_ lateness
    · rintro _ _ ⟨⟩
      refine ⟨within, by simp [reliableOf], Nat.zero_le _, ?_⟩
      rw [Bool.eq_false_iff]
      intro lagged
      have := lateness lagged
      omega
    · intro other ne cell val hold
      have different : cell ≠ index := by
        rintro rfl
        obtain ⟨-, registered, below, -⟩ := spacious.held other cell val hold
        have := spacious.bounded
        omega
      exact ⟨by simp [reliableOf, different], fun _ eq => different (by cases eq; rfl)⟩
  | @release _ _ _ index cursor _ calm =>
    refine spacious.moved rfl (fun _ => rfl) (fun other _ used => .inl ?_) (by rw [own]; exact Pace.unsigned calm)
      (reader rfl) trivial nofun ?_ lateness
    · by_cases same : other = index
      · subst other
        simp [reliableOf] at used
      · simp only [reliableOf, update_of_ne same] at used ⊢
        exact ⟨used, le_rfl⟩
    · intro other ne cell val hold
      have different : cell ≠ index := by
        rintro rfl
        exact ne (spacious.single other who cell val cursor hold (by rw [own]))
      exact ⟨by simp [reliableOf, different], nofun⟩

end

/-- The cell of a reliable subscriber and the cursor in it. -/
def Subscriber.hold (subscriber : Subscriber) : Option (Nat × Nat) :=
  subscriber.reliable.map fun index => (index, subscriber.cursor)

def Msg.isLagged : Msg → Bool
  | sample _ => false
  | lagged _ => true

section

variable {ring : Ring} {publisher lagged : Bool} {hold : Option (Nat × Nat)} {code : RingAct Value}
  {standing : Standing} {subscriber : Subscriber}

/-- Between the accesses of a call, unless a lag has been met. -/
def Kept (publisher lagged : Bool) (hold : Option (Nat × Nat)) (standing : Standing) : Prop :=
  standing.pace = .lost ∨ standing.publisher = publisher ∧ standing.lagged = lagged ∧ standing.hold = hold ∧
    standing.pace.calm = true

theorem kept_calm (calm : pace.calm = true) : Kept publisher lagged hold ⟨publisher, lagged, hold, pace⟩ :=
  .inr ⟨rfl, rfl, rfl, calm⟩

theorem follows_lost (lost : standing.pace = .lost) (forgiven : ∀ val later, later.pace = .lost → post val later) :
    code.Follows (Tread ring) post standing := by
  obtain ⟨publisher, lagged, hold, pace⟩ := standing
  cases lost
  refine follows_mono (follows_freely (fun _ _ _ => .wander) code) fun val later same => ?_
  exact forgiven val later (by rw [same])

theorem follows_kept (kept : Kept publisher lagged hold standing)
    (forgiven : ∀ val later, later.pace = .lost → post val later)
    (follows : ∀ pace : Pace, pace.calm = true → code.Follows (Tread ring) post ⟨publisher, lagged, hold, pace⟩) :
    code.Follows (Tread ring) post standing := by
  rcases kept with lost | ⟨rfl, rfl, rfl, calm⟩
  · exact follows_lost lost forgiven
  · exact follows standing.pace calm

theorem follows_unmoved (every : code.Every fun _ update => ∀ mem, Unmoved mem (update mem))
    (kept : Kept publisher lagged hold standing) :
    code.Follows (Tread ring) (fun _ => Kept publisher lagged hold) standing := by
  refine follows_among (every_mono every fun site update unmoved standing kept mem => ?_) kept
  rcases kept with lost | ⟨rfl, rfl, rfl, calm⟩
  · obtain ⟨publisher, lagged, hold, pace⟩ := standing
    cases lost
    exact ⟨_, .wander, .inl rfl⟩
  · exact ⟨_, .look calm (unmoved mem), kept_calm rfl⟩

theorem follows_fetchWaiters (site : RingSite) (change : Nat → Nat) (kept : Kept publisher lagged hold standing) :
    (fetchUpdate site waitersOf change).Follows (Tread ring) (fun _ => Kept publisher lagged hold) standing :=
  follows_unmoved ⟨fun _ => ⟨rfl, rfl, fun _ => rfl⟩, fun _ => trivial⟩ kept

/-- What `read_at` leaves of a subscriber's standing. -/
def Reading (publisher lagged : Bool) (subscriber : Subscriber) (outcome : ReadOutcome) (later : Standing) : Prop :=
  later.pace = .lost ∨ match outcome with
    | .sample _ => later = ⟨publisher, lagged, subscriber.hold, .gated subscriber.cursor⟩
    | .lagged _ _ => subscriber.reliable = none ∧ later = ⟨publisher, true, none, .rest⟩
    | .empty => later = ⟨publisher, lagged, subscriber.hold, .rest⟩

/-- The access at which a lag is met, and what follows. -/
theorem follows_missed
    {rest : RingAct ReadOutcome} (calm : pace.calm = true) (missed : Missed ring mem subscriber.cursor pace)
    (reports : subscriber.reliable = none → rest.Follows (Tread ring) (Reading publisher lagged subscriber)
      ⟨publisher, true, none, .rest⟩) :
    ∃ later, Tread ring site ⟨publisher, lagged, subscriber.hold, pace⟩ later mem mem ∧
      rest.Follows (Tread ring) (Reading publisher lagged subscriber) later := by
  cases reliable : subscriber.reliable with
  | none =>
    rw [Subscriber.hold, reliable]
    exact ⟨_, .stray subscriber.cursor calm missed, reports reliable⟩
  | some index =>
    rw [Subscriber.hold, reliable]
    exact ⟨_, .lose calm missed, follows_lost rfl fun _ _ => .inl⟩

theorem follows_lag (unreliable : subscriber.reliable = none) :
    (ring.lapped subscriber.cursor).Follows (Tread ring) (Reading publisher lagged subscriber)
      ⟨publisher, true, none, .rest⟩ :=
  follows_bind (follows_load fun _ => ⟨_, .look rfl (unmoved_refl _), .inr ⟨unreliable, rfl⟩⟩)

theorem follows_copies (cursor : Nat) (left : List Field) (got : ChunkDesc) :
    (ring.readFields cursor left got).Leads (Tread ring)
      ⟨publisher, lagged, hold, .gated cursor⟩ ⟨publisher, lagged, hold, .gated cursor⟩ := by
  induction left generalizing got with
  | nil => rfl
  | cons field left ih => exact follows_bind (follows_load fun _ => ⟨_, .check, ih _⟩)

theorem follows_reading (subscriber : Subscriber) (calm : pace.calm = true) :
    (ring.readAt subscriber.cursor).Follows (Tread ring) (Reading publisher lagged subscriber)
      ⟨publisher, lagged, subscriber.hold, pace⟩ := by
  refine follows_load_ite (fun mem _ => ⟨_, .look calm (unmoved_refl _), .inr rfl⟩) fun mem behind => ?_
  by_cases far : ring.capacity < headOf.get mem - subscriber.cursor
  · refine follows_missed calm (.inl far) fun unreliable => ?_
    rw [if_pos far]
    exact .inr ⟨unreliable, rfl⟩
  refine ⟨_, .gate subscriber.cursor calm (not_le.mp behind), ?_⟩
  rw [if_neg far]
  refine follows_load_ite (fun _ moved => follows_missed rfl (.inr ⟨rfl, moved⟩) follows_lag)
    fun _ _ => ⟨_, .check, ?_⟩
  refine follows_seq (follows_copies subscriber.cursor fields _) fun desc => ?_
  exact follows_load_ite (fun _ moved => follows_missed rfl (.inr ⟨rfl, moved⟩) follows_lag)
    fun _ _ => ⟨_, .check, .inr rfl⟩

/-- What `try_recv` and `recv` leave of a subscriber's standing. -/
def Received (publisher lagged : Bool) (subscriber : Subscriber) (outcome : Option (Subscriber × Msg))
    (later : Standing) : Prop :=
  match outcome with
  | none => Kept publisher lagged subscriber.hold later
  | some (next, msg) => Kept publisher (lagged || msg.isLagged) next.hold later

theorem received_lost (out : Option (Subscriber × Msg)) (later : Standing)
    (lost : later.pace = .lost) : Received publisher lagged subscriber out later := by
  cases out with
  | none => exact .inl lost
  | some => exact .inl lost

theorem follows_trying (subscriber : Subscriber) (kept : Kept publisher lagged subscriber.hold standing) :
    (subscriber.tryRecv ring).Follows (Tread ring) (Received publisher lagged subscriber) standing := by
  refine follows_kept kept received_lost fun pace calm => ?_
  refine follows_then (follows_reading subscriber calm) fun out later left => ?_
  rcases left with lost | left
  · exact follows_lost lost received_lost
  cases out with
  | sample desc =>
    subst left
    cases reliable : subscriber.reliable with
    | none =>
      simp only [Subscriber.syncReliable, Subscriber.hold, reliable]
      exact .inr ⟨rfl, (Bool.or_false _).symm, by simp [Subscriber.hold], rfl⟩
    | some index =>
      simp only [Subscriber.syncReliable, Subscriber.hold, reliable]
      refine follows_bind (follows_store fun _ => ⟨_, .update, ?_⟩)
      exact .inr ⟨rfl, (Bool.or_false _).symm, by simp [Subscriber.hold], rfl⟩
  | lagged skipped newCursor =>
    obtain ⟨unreliable, rfl⟩ := left
    simp only [Subscriber.syncReliable, unreliable]
    exact .inr ⟨rfl, (Bool.or_true _).symm, by simp [Subscriber.hold], rfl⟩
  | empty =>
    subst left
    exact kept_calm rfl

theorem follows_spinning (subscriber : Subscriber) (tries : Nat)
    (kept : Kept publisher lagged subscriber.hold standing) :
    (subscriber.spin ring tries).Follows (Tread ring) (Received publisher lagged subscriber) standing := by
  induction tries generalizing standing with
  | zero => exact kept
  | succ tries ih =>
    refine follows_then (follows_trying subscriber kept) fun out later left => ?_
    cases out with
    | none => exact ih left
    | some => exact left

theorem follows_receiving (subscriber : Subscriber) (kept : Kept publisher lagged subscriber.hold standing) :
    (subscriber.recv ring).Follows (Tread ring)
      (fun received => Received publisher lagged subscriber (some received)) standing := by
  refine follows_repeatLoop (fun standing kept => ?_) kept
  refine follows_then (follows_spinning subscriber spinLimit kept) fun out later left => ?_
  cases out with
  | some => exact left
  | none =>
    refine follows_then (follows_fetchWaiters _ _ left) fun _ _ left => ?_
    refine follows_then (follows_trying subscriber left) fun out later left => ?_
    cases out with
    | some received =>
      exact follows_then (follows_fetchWaiters _ _ left) fun _ _ left => left
    | none =>
      have parked : (Program.act RingSite.park id fun _ => .ret () : RingAct Unit).Follows (Tread ring)
          (fun _ => Kept publisher lagged subscriber.hold) later :=
        follows_unmoved ⟨fun _ => unmoved_refl _, fun _ => trivial⟩ left
      refine follows_then parked fun _ _ left => ?_
      exact follows_then (follows_fetchWaiters _ _ left) fun _ _ left => left

/-- A scan of the remaining cells, begun from rest or under way. -/
theorem follows_minAmong (indices : List Nat) (least : Option Nat)
    (here : pace = .scanning indices least ∨
      pace.calm = true ∧ indices = List.range maxReliable ∧ least = none) (some : indices ≠ []) :
    (Ring.minAmong indices least).Follows (Tread ring)
      (fun lowest later => later = ⟨true, lagged, hold, .scanning [] lowest⟩) ⟨true, lagged, hold, pace⟩ := by
  induction indices generalizing least pace with
  | nil => exact absurd rfl some
  | cons index left ih =>
    refine follows_bind (follows_load fun mem => ⟨_, .scan here, ?_⟩)
    cases left with
    | nil => exact rfl
    | cons next left => exact ih _ (.inl rfl) (List.cons_ne_nil _ _)

theorem follows_publishing (desc : ChunkDesc) (free : pace = .cleared ∨ pace = .scanning [] none) :
    (ring.publish desc).Follows (Tread ring) (fun _ => Kept publisher lagged hold)
      ⟨publisher, lagged, hold, pace⟩ := by
  refine follows_bind (follows_load fun mem => ⟨_, .begin free, ?_⟩)
  have copies : ∀ left, (forEach (fun field => store (.writeDesc mem.head field)
      (fieldOf (ring.slotIndex mem.head) field) (field.get desc)) left).Leads (Tread ring)
      ⟨publisher, lagged, hold, .publishing mem.head⟩
      ⟨publisher, lagged, hold, .publishing mem.head⟩ := by
    intro left
    induction left with
    | nil => rfl
    | cons field left ih =>
      refine follows_bind (follows_store fun old => ⟨_, .write ⟨rfl, rfl, fun index => ?_⟩, ih⟩)
      show (update old.slot _ _ index).seq = _
      rw [update_apply]
      split
      next same => rw [same]; rfl
      next => rfl
  refine follows_then (copies fields) fun _ _ same => ?_
  subst same
  refine follows_bind (follows_store fun _ => ⟨_, .sign, ?_⟩)
  refine follows_bind (follows_store fun _ => ⟨_, .advance, ?_⟩)
  exact follows_bind (follows_load fun _ => ⟨_, .look rfl (unmoved_refl _), kept_calm rfl⟩)

theorem follows_publishUnpressed (desc : ChunkDesc) (calm : pace.calm = true) :
    (publishUnpressed ring desc).Follows (Tread ring) (fun _ => Kept true lagged hold)
      ⟨true, lagged, hold, pace⟩ := by
  refine follows_bind (follows_bind (follows_mono
    (follows_minAmong (List.range maxReliable) none (.inr ⟨calm, rfl, rfl⟩) (by decide)) fun lowest _ same => ?_))
  subst same
  cases lowest with
  | none => exact follows_publishing desc (.inr rfl)
  | some least =>
    refine follows_bind (follows_load fun mem => ?_)
    by_cases pressed : ring.capacity < headOf.get mem - least
    · refine ⟨_, .pressed, ?_⟩
      rw [decide_eq_true pressed]
      exact kept_calm rfl
    · refine ⟨_, .clear (not_lt.mp pressed), ?_⟩
      rw [decide_eq_false pressed]
      exact follows_publishing desc (.inl rfl)

theorem follows_registerAmong (cursor : Nat) (indices : List Nat)
    (within : ∀ index ∈ indices, index < maxReliable) (calm : pace.calm = true) :
    (Ring.registerAmong cursor indices).Follows (Tread ring)
      (fun out later => Kept publisher lagged (out.toOption.map fun index => (index, cursor)) later)
      ⟨publisher, lagged, none, pace⟩ := by
  induction indices generalizing pace with
  | nil => exact kept_calm calm
  | cons index rest ih =>
    refine follows_bind (follows_compareExchange (fun mem unused => ?_) (fun mem _ => ?_))
    · exact ⟨_, .register calm (within index List.mem_cons_self) unused, kept_calm rfl⟩
    · exact ⟨_, .look calm (unmoved_refl _),
        ih (fun other in_ => within other (List.mem_cons_of_mem index in_)) rfl⟩

end

section

variable {ring : Ring} {subscriber : Subscriber} {lagged : Bool}

def Member.hold (member : Member) : Option (Nat × Nat) := member.subscriber.bind Subscriber.hold

/-- What a member's standing says of it between calls. -/
def Upright (member : Member) (standing : Standing) : Prop :=
  ∃ lagged, Kept member.publisher lagged member.hold standing ∧ (lagged = false → member.Unlagged)

variable {member : Member} {call : RingCall}

theorem Member.Unlagged.answered (unlagged : lagged = false → member.Unlagged)
    (both : (lagged || msg.isLagged) = false) :
    (member.answered call (.received (some (subscriber, msg)))).Unlagged := by
  obtain ⟨before, now⟩ := Bool.or_eq_false_iff.mp both
  intro receipt received skipped same
  rcases List.mem_append.mp received with old | new
  · exact unlagged before receipt old skipped same
  · rw [List.mem_singleton.mp new] at same
    dsimp only at same
    subst same
    cases now

theorem upright_received (held : member.subscriber = some subscriber) (unlagged : lagged = false → member.Unlagged)
    (received : Received member.publisher lagged subscriber out later) :
    Upright (member.answered call (.received out)) later := by
  cases out with
  | none =>
    refine ⟨lagged, ?_, unlagged⟩
    rw [Member.hold, Member.answered, held]
    exact received
  | some out => exact ⟨_, received, Member.Unlagged.answered unlagged⟩

/-- Whether a call heeds `would_backpressure` before it publishes. -/
def RingCall.minds : RingCall → Bool
  | publish _ => false
  | _ => true

/-- Every call but a plain publish follows the protocol. -/
theorem follows_minding (may : member.may call) (minds : call.minds = true) (upright : Upright member standing) :
    (serve ring call).Follows (Tread ring) (fun answer later => Upright (member.answered call answer) later)
      standing := by
  obtain ⟨lagged, kept, unlagged⟩ := upright
  have forgiven : ∀ (answer : RingAnswer) (later : Standing), later.pace = .lost →
      Upright (member.answered call answer) later := fun _ _ lost =>
    ⟨true, .inl lost, nofun⟩
  cases call with
  | publish desc => cases minds
  | publishUnpressed desc =>
    refine follows_kept kept forgiven fun pace calm => follows_map ?_
    rw [show member.publisher = true from may]
    refine follows_mono (follows_publishUnpressed desc calm) fun _ later kept => ?_
    exact ⟨lagged, by rw [← show member.publisher = true from may] at kept; exact kept, unlagged⟩
  | subscribe =>
    rw [Member.hold, show member.subscriber = _ from may, Option.bind_none] at kept
    refine follows_kept kept forgiven fun pace calm => follows_map ?_
    refine follows_bind (follows_load fun mem => ⟨_, .renew calm, false, kept_calm rfl, fun _ => nofun⟩)
  | subscribeFrom seq =>
    rw [Member.hold, show member.subscriber = _ from may.1, Option.bind_none] at kept
    refine follows_kept kept forgiven fun pace calm => follows_map ?_
    refine follows_bind (follows_bind (follows_load fun mem =>
      ⟨_, .renew calm, false, kept_calm rfl, fun _ => nofun⟩))
  | makeReliable subscriber =>
    rw [Member.hold, show member.subscriber = _ from may, Option.bind_some] at kept
    refine follows_map ?_
    unfold Subscriber.makeReliable
    split
    · exact ⟨lagged, kept, unlagged⟩
    next unreliable =>
      rw [Subscriber.hold, unreliable] at kept
      refine follows_kept kept (fun _ later lost => ⟨true, .inl lost, nofun⟩) fun pace calm => ?_
      refine follows_then (follows_registerAmong subscriber.cursor (List.range maxReliable)
        (fun index member => List.mem_range.mp member) calm) fun out later kept => ?_
      cases out with
      | ok index => exact ⟨lagged, kept, unlagged⟩
      | error fault =>
        refine ⟨lagged, ?_, unlagged⟩
        rw [Member.hold, Member.answered]
        show Kept _ _ subscriber.hold _
        rw [Subscriber.hold, unreliable]
        exact kept
  | tryRecv subscriber =>
    rw [Member.hold, show member.subscriber = _ from may, Option.bind_some] at kept
    exact follows_map (follows_mono (follows_trying subscriber kept) fun _ _ => upright_received may unlagged)
  | recv subscriber =>
    rw [Member.hold, show member.subscriber = _ from may, Option.bind_some] at kept
    exact follows_map (follows_mono (follows_receiving subscriber kept) fun _ _ => upright_received may unlagged)
  | drop subscriber =>
    rw [Member.hold, show member.subscriber = _ from may, Option.bind_some] at kept
    refine follows_kept kept forgiven fun pace calm => follows_map ?_
    unfold Subscriber.drop
    split
    next index reliable =>
      rw [Subscriber.hold, reliable]
      exact fun mem => ⟨_, .release calm, lagged, kept_calm rfl, unlagged⟩
    next unreliable =>
      rw [Subscriber.hold, unreliable]
      exact ⟨lagged, kept_calm calm, unlagged⟩

/-- Reliable subscribers that are there from the start. -/
abbrev Prompt (_ : Nat) (site : RingSite) (memory : RingMemory) (_ : Bulletin) : Prop := Early site memory

/-- They are, and no publish begins with one of them a lap behind. -/
abbrev Careful (ring : Ring) (_ : Nat) (site : RingSite) (memory : RingMemory) (_ : Bulletin) : Prop :=
  Early site memory ∧ Spaced ring site memory ∧ Lasting site memory

theorem keeps_spacious (permitted : RingCall → Prop) :
    (members ring permitted (Careful ring)).Keeps (fun _ => Tread ring)
      (fun _ mem standings => Spacious ring mem standings) := by
  rintro _ who site later old new bulletin standings spacious ⟨early, spaced, lasting⟩ tread
  exact spacious.tread early spaced lasting tread rfl

theorem spacious_blank : Spacious ring blank fun who => ⟨decide (who = 0), false, none, .rest⟩ where
  bounded := by decide
  readers who ne := ⟨decide_eq_false ne, rfl⟩
  near _ _ _ := Nat.zero_le _
  fits _ := trivial
  held _ _ _ := nofun
  single _ _ _ _ _ := nofun
  guards seq below := absurd below (Nat.not_lt_zero seq)
  late _ := nofun

theorem spacious_of_reachable
    (reached : (members ring (fun call => call.minds = true) (Careful ring)).Reachable opened run) :
    (members ring (fun call => call.minds = true) (Careful ring)).Guided (fun _ => Tread ring)
      (fun _ mem standings => Spacious ring mem standings) Upright (fun _ _ => True) run := by
  refine guided_of_reachable ?_ reached (fun _ _ _ _ _ _ _ _ => trivial)
    (fun member call standing enabled upright => ⟨trivial, follows_minding enabled.2 enabled.1 upright⟩)
    (keeps_spacious _)
  refine ⟨_, spacious_blank, fun who => ?_⟩
  by_cases producer : who = 0
  · subst producer
    exact ⟨false, kept_calm rfl, fun _ _ none => absurd none (List.not_mem_nil)⟩
  · simp only [opened, if_neg producer, decide_eq_false producer]
    exact ⟨false, kept_calm rfl, fun _ _ none => absurd none (List.not_mem_nil)⟩

/-- A member that is a reliable subscriber has been told of no lag. -/
def Member.Attended (member : Member) (_ : Bulletin) : Prop := member.hold ≠ none → member.Unlagged

end

section

instance (site : RingSite) (memory : RingMemory) : Decidable (Early site memory) := by
  unfold Early
  split <;> infer_instance

instance (ring : Ring) (site : RingSite) (memory : RingMemory) : Decidable (Spaced ring site memory) := by
  unfold Spaced
  split <;> infer_instance

/-- The producer heeds `would_backpressure`. -/
abbrev heeding (allowed : Nat → RingSite → RingMemory → Bulletin → Prop) :
    Actors RingMemory RingSite Bulletin RingCall Member RingAnswer :=
  members single (fun call => call.minds = true) allowed

/-- A reliable subscriber of the ring of one slot, and two messages before it
reads: the second publish finds it one behind, which is the whole capacity. -/
def crowding : List (Stretch RingCall) :=
  [.begin 1 (.subscribeFrom 0), .run 1 5 0, .begin 1 (.makeReliable ⟨0, none⟩), .run 1 5 0,
    .begin 0 (.publishUnpressed (message 0)), .run 0 30 0,
    .begin 0 (.publishUnpressed (message 1)), .run 0 30 0,
    .begin 1 (.tryRecv ⟨0, some 0⟩), .run 1 20 0]

def crowded : Config RingMemory RingSite Bulletin RingCall Member RingAnswer :=
  (heeding Prompt).follow crowding opened

/-- The same, with the first message read before the second is published. -/
def spacing : List (Stretch RingCall) :=
  [.begin 1 (.subscribeFrom 0), .run 1 5 0, .begin 1 (.makeReliable ⟨0, none⟩), .run 1 5 0,
    .begin 0 (.publishUnpressed (message 0)), .run 0 30 0, .begin 1 (.tryRecv ⟨0, some 0⟩), .run 1 20 0,
    .begin 0 (.publishUnpressed (message 1)), .run 0 30 0, .begin 1 (.recv ⟨1, some 0⟩), .run 1 20 1]

def spread : Config RingMemory RingSite Bulletin RingCall Member RingAnswer :=
  (heeding (Careful single)).follow spacing opened

end

end ShmActors.Broadcast
