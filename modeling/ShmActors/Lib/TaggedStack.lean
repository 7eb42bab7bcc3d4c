import ShmActors.Lib.Actors
import Mathlib.Data.List.Nodup

/-! Tagged intrusive stacks. Several heads share one table of links; every
update of a head moves its 32-bit tag, so an exchange that finds the word it
loaded finds the list it loaded, as long as the tag had no time to come round. -/

namespace ShmActors.Lib

open Function

/-- The head word: a modification tag and the top node. -/
structure Head where
  tag : Nat
  slot : Nat
  deriving DecidableEq, Repr

/-- The end of a list; no node has this index. -/
def listEnd : Nat := 2 ^ 32 - 1

structure Stacks (Name : Type) where
  head : Name → Head
  next : Nat → Nat

namespace Stacks

variable {Name : Type}

def setHead [DecidableEq Name] (memory : Stacks Name) (name : Name) (head : Head) : Stacks Name :=
  { memory with head := update memory.head name head }

def setNext (memory : Stacks Name) (slot link : Nat) : Stacks Name :=
  { memory with next := update memory.next slot link }

variable (memory : Stacks Name)

@[simp] theorem setHead_head [DecidableEq Name] (name : Name)
    (head : Head) : (memory.setHead name head).head = update memory.head name head := rfl

@[simp] theorem setHead_next [DecidableEq Name] (name : Name)
    (head : Head) : (memory.setHead name head).next = memory.next := rfl

@[simp] theorem setNext_head (slot link : Nat) : (memory.setNext slot link).head = memory.head := rfl

@[simp] theorem setNext_next (slot link : Nat) :
    (memory.setNext slot link).next = update memory.next slot link := rfl

end Stacks

/-- The head after an update: one tag on, with a new top. -/
def Head.bump (head : Head) (slot : Nat) : Head := ⟨(head.tag + 1) % 2 ^ 32, slot⟩

@[simp] theorem Head.bump_slot (head : Head) (slot : Nat) : (head.bump slot).slot = slot := rfl

theorem Head.ne_bump (head : Head) (slot : Nat) : head ≠ head.bump slot := by
  intro same
  have tags_eq := congrArg Head.tag same
  simp only [bump] at tags_eq
  omega

/-- Following the links from `slot` visits exactly these nodes. -/
inductive Linked (next : Nat → Nat) : Nat → List Nat → Prop where
  | nil : Linked next listEnd []
  | cons {slot : Nat} {rest : List Nat} (node : slot ≠ listEnd)
      (tail : Linked next (next slot) rest) : Linked next slot (slot :: rest)

namespace Linked

variable {next : Nat → Nat}

theorem unique (one : Linked next slot list) (two : Linked next slot other) : list = other := by
  induction one generalizing other with
  | nil =>
    cases two with
    | nil => rfl
    | cons node => exact absurd rfl node
  | cons node tail ih =>
    cases two with
    | nil => exact absurd rfl node
    | cons _ other => rw [ih other]

theorem congr (linked : Linked next slot list)
    (same : ∀ node ∈ list, diff node = next node) : Linked diff slot list := by
  induction linked with
  | nil => exact .nil
  | cons node tail ih =>
    refine .cons node ?_
    rw [same _ List.mem_cons_self]
    exact ih fun other in_ => same other (List.mem_cons_of_mem _ in_)

theorem eq_cons (linked : Linked next slot list) (node : slot ≠ listEnd) :
    ∃ rest, list = slot :: rest ∧ Linked next (next slot) rest := by
  cases linked with
  | nil => exact absurd rfl node
  | cons _ tail => exact ⟨_, rfl, tail⟩

theorem of_cons (linked : Linked next slot (top :: list)) :
    slot = top ∧ top ≠ listEnd ∧ Linked next (next top) list := by
  generalize whole : top :: list = nodes at linked
  cases linked with
  | nil => cases whole
  | cons node tail =>
    cases whole
    exact ⟨rfl, node, tail⟩

theorem eq_nil (linked : Linked next listEnd list) : list = [] :=
  linked.unique .nil

end Linked

/-- Nodes linked in order, the last one to the end. -/
theorem linked_range (small : count ≤ listEnd) : Linked (fun slot => if slot + 1 < count then slot + 1 else listEnd)
      (if 0 < count then 0 else listEnd) (List.range count) := by
  have from_slot : ∀ length start, start + length = count → 0 < length →
      Linked (fun slot => if slot + 1 < count then slot + 1 else listEnd) start
        (List.range' start length) := by
    intro length
    induction length with
    | zero => simp
    | succ length ih =>
      intro start total _
      rw [List.range'_succ]
      apply Linked.cons
      · omega
      by_cases last : length = 0
      · subst last
        rw [if_neg (by omega)]
        exact .nil
      · rw [if_pos (by omega)]
        exact ih (start + 1) (by omega) (by omega)
  cases count with
  | zero => exact .nil
  | succ count =>
    rw [if_pos (Nat.succ_pos count), List.range_eq_range']
    exact from_slot (count + 1) 0 (Nat.zero_add _) (Nat.succ_pos count)

variable {Name : Type}

/-- How often each head has changed, and the count each actor last loaded at. -/
structure Tags (Name : Type) where
  updates : Name → Nat
  seen : Nat → Name → Nat

/-- What an access does to a head, as far as the counts are concerned. -/
inductive Access (Name : Type) where
  | load (name : Name)
  | exchange (name : Name)

def Tags.note [DecidableEq Name] (tags : Tags Name) (actor : Nat) (access : Option (Access Name))
    (before after : Stacks Name) : Tags Name :=
  match access with
  | none => tags
  | some (.load name) =>
    { tags with
      seen := update tags.seen actor
        (update (tags.seen actor) name (tags.updates name)) }
  | some (.exchange name) =>
    if before.head name = after.head name then tags
    else { tags with updates := update tags.updates name (tags.updates name + 1) }

/-- An exchange in time: fewer than `2 ^ 32` updates since the actor's load. -/
def Tags.Timely (tags : Tags Name) (actor : Nat) (access : Option (Access Name)) : Prop :=
  match access with
  | some (.exchange name) => tags.updates name - tags.seen actor name < 2 ^ 32
  | _ => True

instance (tags : Tags Name) (actor : Nat) :
    (access : Option (Access Name)) → Decidable (tags.Timely actor access)
  | some (.exchange name) =>
    inferInstanceAs (Decidable (tags.updates name - tags.seen actor name < 2 ^ 32))
  | some (.load _) | none => inferInstanceAs (Decidable True)

/-- An exchange in preparation: the head as loaded, at which count, and the
link read from its top node. -/
structure Attempt (Name : Type) where
  name : Name
  current : Head
  since : Nat
  link : Option Nat

structure Attempt.Valid (memory : Stacks Name) (tags : Tags Name) (actor : Nat)
    (attempt : Attempt Name) : Prop where
  seen : tags.seen actor attempt.name = attempt.since
  past : attempt.since ≤ tags.updates attempt.name
  tag : attempt.current.tag = attempt.since % 2 ^ 32
  fresh : tags.updates attempt.name = attempt.since →
    memory.head attempt.name = attempt.current ∧
      ∀ link ∈ attempt.link, attempt.current.slot ≠ listEnd ∧
        memory.next attempt.current.slot = link

structure StackInv (memory : Stacks Name) (tags : Tags Name) (contents : Name → List Nat)
    (attempts : Nat → Option (Attempt Name)) : Prop where
  linked : ∀ name, Linked memory.next (memory.head name).slot (contents name)
  tag : ∀ name, (memory.head name).tag = tags.updates name % 2 ^ 32
  nodup : ∀ name, (contents name).Nodup
  disjoint : ∀ first second, first ≠ second → List.Disjoint (contents first) (contents second)
  attempt : ∀ actor, ∀ attempt ∈ attempts actor, attempt.Valid memory tags actor

namespace StackInv

variable {mem : Stacks Name} {tags : Tags Name} {lists : Name → List Nat} {attempts : Nat → Option (Attempt Name)}
  {attempt : Attempt Name} (ok : StackInv mem tags lists attempts)

include ok

/-- Giving up an attempt, or ending it without a change. -/
theorem forget (who : Nat) : StackInv mem tags lists (update attempts who none) where
  linked := ok.linked
  tag := ok.tag
  nodup := ok.nodup
  disjoint := ok.disjoint
  attempt other attempt present := by
    by_cases same : other = who
    · subst other
      simp at present
    · rw [update_of_ne same] at present
      exact ok.attempt other attempt present

theorem load [DecidableEq Name] (who : Nat) (name : Name) :
    StackInv mem (tags.note who (some (.load name)) mem mem) lists
      (update attempts who
        (some ⟨name, mem.head name, tags.updates name, none⟩)) where
  linked := ok.linked
  tag := ok.tag
  nodup := ok.nodup
  disjoint := ok.disjoint
  attempt other attempt present := by
    by_cases same : other = who
    · subst other
      rw [update_self, Option.mem_some_iff] at present
      subst attempt
      exact
        { seen := by simp [Tags.note]
          past := Nat.le_refl _
          tag := ok.tag name
          fresh := fun _ => ⟨rfl, by simp⟩ }
    · rw [update_of_ne same] at present
      have old := ok.attempt other attempt present
      exact
        { seen := by simpa [Tags.note, update_of_ne same] using old.seen
          past := old.past
          tag := old.tag
          fresh := old.fresh }

/-- Reading the link of the loaded top. The node may have left the list since;
then the count has moved and the value read is of no consequence. -/
theorem readNext (present : attempts who = some attempt) (node : attempt.current.slot ≠ listEnd) :
    StackInv mem tags lists (update attempts who
      (some { attempt with link := some (mem.next attempt.current.slot) })) where
  linked := ok.linked
  tag := ok.tag
  nodup := ok.nodup
  disjoint := ok.disjoint
  attempt other got in_ := by
    by_cases same : other = who
    · subst other
      rw [update_self, Option.mem_some_iff] at in_
      subst got
      have old := ok.attempt who attempt present
      exact
        { seen := old.seen
          past := old.past
          tag := old.tag
          fresh := fun still => ⟨(old.fresh still).1, by simpa using node⟩ }
    · rw [update_of_ne same] at in_
      exact ok.attempt other got in_

/-- The tag argument: an exchange in time that finds the loaded word finds the
count unchanged. -/
theorem updates_eq (present : attempts who = some attempt) (got : mem.head attempt.name = attempt.current)
    (timely : tags.Timely who (some (.exchange attempt.name))) : tags.updates attempt.name = attempt.since := by
  have old := ok.attempt who attempt present
  have same : tags.updates attempt.name % 2 ^ 32 = attempt.since % 2 ^ 32 := by
    rw [← ok.tag, got, old.tag]
  have near : tags.updates attempt.name - attempt.since < 2 ^ 32 := by
    simpa [Tags.Timely, old.seen] using timely
  have past := old.past
  omega

omit ok

theorem note_exchange [DecidableEq Name] (diff : mem.head name ≠ head) :
    tags.note who (some (.exchange name)) mem (mem.setHead name head) =
      { tags with updates := update tags.updates name (tags.updates name + 1) } := by
  simp [Tags.note, diff]

/-- A change of one head that bumps its count leaves every attempt valid: those
on this head are out of date, the others did not see it. -/
private theorem attempt_after [DecidableEq Name] (old : attempt.Valid mem tags other) :
    attempt.Valid (mem.setHead name head)
      { tags with updates := update tags.updates name (tags.updates name + 1) } other := by
  have past := old.past
  by_cases same : attempt.name = name
  · refine ⟨old.seen, ?_, old.tag, fun still => ?_⟩
    · simp only [same, update_self] at past ⊢
      omega
    · simp only [same, update_self] at past still
      omega
  · refine ⟨old.seen, ?_, old.tag, fun still => ?_⟩
    · simpa [update_of_ne same] using past
    · simp only [update_of_ne same, Stacks.setHead_head, Stacks.setHead_next] at still ⊢
      exact old.fresh still

include ok

/-- The top of one list is nowhere else. -/
theorem top_once [DecidableEq Name] (shape : lists name = slot :: rest) (other : Name) :
    slot ∉ update lists name rest other := by
  intro in_
  by_cases same : other = name
  · subst other
    have whole := ok.nodup name
    rw [shape, List.nodup_cons] at whole
    rw [update_self] at in_
    exact whole.1 in_
  · rw [update_of_ne same] at in_
    exact ok.disjoint name other (Ne.symm same) (shape ▸ List.mem_cons_self) in_

theorem tag_bump [DecidableEq Name] (got : mem.head name = now) (slot : Nat) (other : Name) :
    ((mem.setHead name (now.bump slot)).head other).tag =
      update tags.updates name (tags.updates name + 1) other % 2 ^ 32 := by
  by_cases same : other = name
  · subst other
    have tag := ok.tag name
    rw [got] at tag
    simp only [Stacks.setHead_head, update_self, Head.bump, tag]
    omega
  · simpa [update_of_ne same] using ok.tag other

/-- The exchange of a pop: the loaded top leaves the list. -/
theorem pop [DecidableEq Name] (present : attempts who = some attempt) (read : attempt.link = some link)
    (got : mem.head attempt.name = attempt.current) (timely : tags.Timely who (some (.exchange attempt.name))) :
    ∃ rest, lists attempt.name = attempt.current.slot :: rest ∧
      StackInv (mem.setHead attempt.name (attempt.current.bump link))
        (tags.note who (some (.exchange attempt.name)) mem (mem.setHead attempt.name (attempt.current.bump link)))
        (update lists attempt.name rest) (update attempts who none) := by
  have fresh := (ok.attempt who attempt present).fresh (ok.updates_eq present got timely)
  obtain ⟨node, next_eq⟩ := fresh.2 link read
  obtain ⟨rest, shape, tail⟩ := (ok.linked attempt.name).eq_cons (by rwa [got])
  rw [got] at shape tail
  refine ⟨rest, shape, ?_⟩
  rw [note_exchange (got ▸ Head.ne_bump _ _)]
  have sub : ∀ other, ∀ slot ∈ update lists attempt.name rest other,
      slot ∈ lists other := by
    intro other slot in_
    by_cases same : other = attempt.name
    · subst other
      rw [update_self] at in_
      rw [shape]
      exact List.mem_cons_of_mem _ in_
    · rwa [update_of_ne same] at in_
  constructor
  · intro other
    by_cases same : other = attempt.name
    · subst other
      simpa [next_eq] using tail
    · simpa [update_of_ne same] using ok.linked other
  · exact ok.tag_bump got link
  · intro other
    by_cases same : other = attempt.name
    · subst other
      have whole := ok.nodup attempt.name
      rw [shape] at whole
      simpa using (List.nodup_cons.mp whole).2
    · simpa [update_of_ne same] using ok.nodup other
  · intro one two ne slot inFirst inSecond
    exact ok.disjoint one two ne (sub one slot inFirst) (sub two slot inSecond)
  · intro other pending in_
    by_cases same : other = who
    · subst other
      simp at in_
    · rw [update_of_ne same] at in_
      exact attempt_after (ok.attempt other pending in_)

/-- The exchange of a push: a node on no list becomes the top. No tag argument
is needed here, since only the word itself is compared. -/
theorem push [DecidableEq Name] (who : Nat) (node : slot ≠ listEnd) (outside : ∀ other, slot ∉ lists other)
    (linked : mem.next slot = now.slot) (got : mem.head name = now) : StackInv (mem.setHead name (now.bump slot))
      (tags.note who (some (.exchange name)) mem (mem.setHead name (now.bump slot)))
      (update lists name (slot :: lists name)) (update attempts who none) := by
  rw [note_exchange (got ▸ Head.ne_bump _ _)]
  have cases_mem : ∀ other, ∀ entry ∈
      update lists name (slot :: lists name) other,
      (entry = slot ∧ other = name) ∨ entry ∈ lists other := by
    intro other entry in_
    by_cases same : other = name
    · subst other
      rw [update_self, List.mem_cons] at in_
      exact in_.imp (fun eq => ⟨eq, rfl⟩) id
    · rw [update_of_ne same] at in_
      exact .inr in_
  constructor
  · intro other
    by_cases same : other = name
    · subst other
      have tail := ok.linked name
      rw [got, ← linked] at tail
      simpa using Linked.cons node tail
    · simpa [update_of_ne same] using ok.linked other
  · exact ok.tag_bump got slot
  · intro other
    by_cases same : other = name
    · subst other
      simpa using ⟨outside _, ok.nodup name⟩
    · simpa [update_of_ne same] using ok.nodup other
  · intro one two ne entry inFirst inSecond
    rcases cases_mem one entry inFirst with ⟨rfl, rfl⟩ | old
    · rcases cases_mem two entry inSecond with ⟨_, rfl⟩ | old
      · exact ne rfl
      · exact outside two old
    · rcases cases_mem two entry inSecond with ⟨rfl, rfl⟩ | other
      · exact outside one old
      · exact ok.disjoint one two ne old other
  · intro other pending in_
    by_cases same : other = who
    · subst other
      simp at in_
    · rw [update_of_ne same] at in_
      exact attempt_after (ok.attempt other pending in_)

/-- Writing the link of a node that is on no list. -/
theorem writeNext (link : Nat) (outside : ∀ other, slot ∉ lists other) :
    StackInv (mem.setNext slot link) tags lists attempts where
  linked other := (ok.linked other).congr fun node in_ =>
    update_of_ne (ne_of_mem_of_not_mem in_ (outside other)) _ _
  tag := ok.tag
  nodup := ok.nodup
  disjoint := ok.disjoint
  attempt other attempt present := by
    have old := ok.attempt other attempt present
    refine ⟨old.seen, old.past, old.tag, fun still => ?_⟩
    obtain ⟨head_eq, link_eq⟩ := old.fresh still
    refine ⟨head_eq, fun link in_ => ?_⟩
    obtain ⟨node, link_read⟩ := link_eq link in_
    obtain ⟨rest, shape, _⟩ := (ok.linked attempt.name).eq_cons (by rwa [head_eq])
    have top : attempt.current.slot ∈ lists attempt.name := by
      rw [shape, head_eq]
      exact List.mem_cons_self
    exact ⟨node, (update_of_ne (ne_of_mem_of_not_mem top (outside _)) _ _).trans
      link_read⟩

end StackInv

end ShmActors.Lib
