import ShmActors.Keyed.StoreRuns

/-! Who has a slot in custody: the creator that fills it, the sweep that frees it.
Nobody else changes the slot or its head, but for the eviction that marks it. -/

namespace ShmActors.Keyed

open Lib Core Program Function
open Artifact (ArtifactHead Pool EntryState EntryWord noIncarnation)

/-- How far a creator is with the slot it fills. -/
structure Stage where
  gen : Option Nat
  served : Bool
  keyed : Bool
  named : Bool
  located : Bool
  kind : Option RefKind

def Stage.taken : Stage := ⟨none, false, false, false, false, none⟩

/-- A slot in hand, to be filled for a key; or one being swept under a generation,
with the head's place as read, the incarnation taken out of service, and the
word as read. -/
inductive Custody where
  | none
  | hand (keyId idx : Nat) (stage : Stage)
  | sweep (idx gen : Nat) (place held : Option Nat) (word : Option EntryWord)

def Custody.of (idx : Nat) : Custody → Prop
  | .none => False
  | .hand _ slot _ | .sweep slot _ _ _ _ => slot = idx

section

variable {Content : Type}

def Store.incarnation (store : Store Content) (headOff : Nat) : Nat := (store.heads headOff).incarnation

/-- No slot and no head in service is another than before. -/
def Same (before after : Store Content) : Prop :=
  after.table.slot = before.table.slot ∧ ∀ headOff, after.incarnation headOff = before.incarnation headOff

/-- Nothing is handed out, given up or published. -/
def Quiet (catalog : Catalog) (site : KeySite) (before after : Store Content) : Prop :=
  match site with
  | .table access =>
    (∀ actor deliveries, (deliver catalog actor access before.table after.table deliveries).inHand =
      deliveries.inHand) ∧ ∀ published, publishes access before.table after.table published = published
  | _ => True

/-- One slot is changed, and nothing else. -/
def Amended (idx : Nat) (slot : Slot) (before after : Store Content) : Prop :=
  after.table.slot = update before.table.slot idx slot ∧
    ∀ headOff, after.incarnation headOff = before.incarnation headOff

/-- One head is changed, and no slot. -/
def Reheaded (headOff : Nat) (before after : Store Content) : Prop :=
  after.table.slot = before.table.slot ∧ ∀ other, other ≠ headOff → after.incarnation other = before.incarnation other

section

variable (catalog : Catalog)

/-- The accesses, by what they do to the slot its custodian has. -/
inductive Turn : KeyCall → KeySite → Custody → Custody → Store Content → Store Content → Prop where
  | still (same : Same before after) (quiet : Quiet catalog site before after) :
      Turn call site custody custody before after
  | pop (same : Same before after)
      (changed : before.table.lists.head () ≠ after.table.lists.head ()) :
      Turn (.create keyId kind) (.table .popExchange) .none
        (.hand keyId (before.table.lists.head ()).slot .taken) before after
  | bump (same : Same before after)
      (room : before.table.nextSlot < catalog.capacity) :
      Turn (.create keyId kind) (.table .bump) .none (.hand keyId before.table.nextSlot .taken) before after
  | stamp {store} :
      Turn call (.table (.loadGen idx)) (.hand keyId idx stage)
        (.hand keyId idx { stage with gen := some (store.table.slot idx).word.gen }) store store
  | build {call keyId idx stage site before after} (early : stage.served = false)
      (changed : Reheaded (catalog.headOffFor idx) before after) :
      Turn call (.head (catalog.headOffFor idx) site) (.hand keyId idx stage) (.hand keyId idx stage)
        before after
  | serve {call keyId idx stage gen before after} (stamped : stage.gen = some gen)
      (changed : Reheaded (catalog.headOffFor idx) before after)
      (incarnation : after.incarnation (catalog.headOffFor idx) = gen) :
      Turn call (.head (catalog.headOffFor idx) (.commission gen)) (.hand keyId idx stage)
        (.hand keyId idx { stage with served := true }) before after
  | key (changed : Amended idx { before.table.slot idx with keyId := keyId } before after) :
      Turn call (.table (.storeKey idx)) (.hand keyId idx stage)
        (.hand keyId idx { stage with keyed := true }) before after
  | name (changed : Amended idx { before.table.slot idx with artifactId := catalog.artifactIdFor idx } before after) :
      Turn call (.table (.storeArtifact idx)) (.hand keyId idx stage)
        (.hand keyId idx { stage with named := true }) before after
  | locate (changed : Amended idx { before.table.slot idx with headOff := catalog.headOffFor idx } before after) :
      Turn call (.table (.storeHead idx)) (.hand keyId idx stage)
        (.hand keyId idx { stage with located := true }) before after
  | sort (changed : Amended idx { before.table.slot idx with kind := kind } before after) :
      Turn call (.table (.storeKind idx)) (.hand keyId idx stage)
        (.hand keyId idx { stage with kind := some kind }) before after
  | publish {call keyId idx stage gen before after} (served : stage.served = true) (keyed : stage.keyed = true)
      (named : stage.named = true) (located : stage.located = true)
      (found : (before.table.slot idx).word = ⟨gen, .free⟩)
      (changed : Amended idx { before.table.slot idx with word := ⟨gen, .live⟩ } before after) :
      Turn call (.table (.exchangeWord idx .live)) (.hand keyId idx stage) .none before after
  | strike {call custody idx gen before after} (found : (before.table.slot idx).word = ⟨gen, .live⟩)
      (changed : Amended idx { before.table.slot idx with word := ⟨gen, .tombstone⟩ } before after) :
      Turn call (.table (.exchangeWord idx .tombstone)) custody custody before after
  | claim {call idx gen before after} (found : (before.table.slot idx).word = ⟨gen, .tombstone⟩)
      (changed : Amended idx { before.table.slot idx with word := ⟨gen, .reclaiming⟩ } before after) :
      Turn call (.table (.exchangeWord idx .reclaiming)) .none (.sweep idx gen none none none) before after
  | place {call idx gen place held word store} :
      Turn call (.table (.loadHead idx)) (.sweep idx gen place held word)
        (.sweep idx gen (some (store.table.slot idx).headOff) held word) store store
  | retire {call idx gen headOff held word before after} (changed : Reheaded headOff before after)
      (out : after.incarnation headOff = noIncarnation) :
      Turn call (.head headOff .retireHead) (.sweep idx gen (some headOff) held word)
        (.sweep idx gen (some headOff) (some (before.incarnation headOff)) word) before after
  | revive {call idx gen headOff held word before after} (changed : Reheaded headOff before after)
      (back : after.incarnation headOff = held) :
      Turn call (.head headOff (.commission held)) (.sweep idx gen (some headOff) (some held) word)
        (.sweep idx gen (some headOff) (some held) word) before after
  | read {call idx gen place held word store} :
      Turn call (.table (.loadWord idx)) (.sweep idx gen place held word)
        (.sweep idx gen place held (some (store.table.slot idx).word)) store store
  | park {call idx gen place held word store} :
      Turn call (.table (.loadWord idx)) (.sweep idx gen place held word) .none store store
  | abort {call idx gen place held word before after}
      (changed : Amended idx { before.table.slot idx with word := ⟨word.gen, .tombstone⟩ } before after) :
      Turn call (.table (.storeWord idx .tombstone)) (.sweep idx gen place held (some word)) .none before after
  | clear {call idx gen place held word before after}
      (changed : Amended idx { before.table.slot idx with keyId := 0 } before after) :
      Turn call (.table (.storeKey idx)) (.sweep idx gen place held word) (.sweep idx gen place held word)
        before after
  | free {call idx gen place held word before after}
      (changed : Amended idx { before.table.slot idx with word := ⟨word.gen + 1, .free⟩ } before after) :
      Turn call (.table (.storeWord idx .free)) (.sweep idx gen place held (some word)) .none before after

end

end

section

variable {Content : Type}

/-- What a custodian knows of its slot. -/
def Custody.Holds (catalog : Catalog) (inHand : List (Nat × Nat)) (store : Store Content) (actor : Nat) :
    Custody → Prop
  | .none => True
  | .hand keyId idx stage =>
    (actor, idx) ∈ inHand ∧ (∀ gen ∈ stage.gen, (store.table.slot idx).word.gen = gen) ∧
      (stage.served = true → store.incarnation (catalog.headOffFor idx) = (store.table.slot idx).word.gen) ∧
      (stage.keyed = true → (store.table.slot idx).keyId = keyId) ∧
      (stage.named = true → (store.table.slot idx).artifactId = catalog.artifactIdFor idx) ∧
      (stage.located = true → (store.table.slot idx).headOff = catalog.headOffFor idx) ∧
      ∀ kind ∈ stage.kind, (store.table.slot idx).kind = kind
  | .sweep idx gen place held word =>
    (store.table.slot idx).word = ⟨gen, .reclaiming⟩ ∧ (∀ headOff ∈ place, headOff = catalog.headOffFor idx) ∧
      (∀ incarnation ∈ held, incarnation = gen ∨ incarnation = noIncarnation) ∧
      ∀ read ∈ word, read = ⟨gen, .reclaiming⟩

/-- What is known of a slot in use. -/
structure Kept (catalog : Catalog) (published : Nat → Nat → Option Nat) (store : Store Content) (idx : Nat) : Prop where
  name : (store.table.slot idx).artifactId = catalog.artifactIdFor idx
  place : (store.table.slot idx).headOff = catalog.headOffFor idx
  key : ∃ keyId, published idx (store.table.slot idx).word.gen = some keyId ∧
    ((store.table.slot idx).keyId = keyId ∨
      (store.table.slot idx).word.state ≠ .live ∧ (store.table.slot idx).keyId = 0)
  incarnation : store.incarnation (catalog.headOffFor idx) = (store.table.slot idx).word.gen ∨
    (store.table.slot idx).word.state ≠ .live ∧ store.incarnation (catalog.headOffFor idx) = noIncarnation

structure Sound (catalog : Catalog) (ledger : Ledger) (store : Store Content) (custodies : Nat → Custody) : Prop where
  holds : ∀ actor, (custodies actor).Holds catalog ledger.floor.2.inHand store actor
  /-- Only one actor has a slot in custody. -/
  alone : ∀ first second idx, (custodies first).of idx → (custodies second).of idx → first = second
  kept : ∀ idx, (store.table.slot idx).word.state ≠ .free → Kept catalog ledger.published store idx
  /-- No entry is published ahead of its slot's generation. -/
  ahead : ∀ idx gen, ((store.table.slot idx).word.gen < gen ∨
    (store.table.slot idx).word.gen = gen ∧ (store.table.slot idx).word.state = .free) →
    ledger.published idx gen = none
  positive : ∀ idx, (store.table.slot idx).word.gen ≠ 0

end

/-- The heads of the slots do not overlap. -/
def Catalog.Apart (catalog : Catalog) : Prop :=
  0 < catalog.headStride ∧ catalog.capacity * catalog.headStride ≤ 2 ^ 32

theorem Catalog.Apart.headOff_inj {catalog : Catalog} (ne : catalog.Apart)
    (one : first < catalog.capacity) (other : two < catalog.capacity)
    (same : catalog.headOffFor first = catalog.headOffFor two) : first = two := by
  have below : ∀ idx < catalog.capacity, idx * catalog.headStride < 2 ^ 32 := fun idx inside =>
    (Nat.mul_lt_mul_of_pos_right inside ne.1).trans_le ne.2
  simp only [headOffFor, Nat.mod_eq_of_lt (below first one), Nat.mod_eq_of_lt (below two other)] at same
  exact Nat.eq_of_mul_eq_mul_right ne.1 same

section

variable {Content : Type} {catalog : Catalog} {before after : Store Content} {custodies : Nat → Custody}
  {who idx : Nat} {other slot keyId gen : Nat} {custody custody' : Custody} {site : KeySite}

theorem mem_deliver_of_ne (ne : other ≠ who) (access : TableSite)
    (before after : Table) (held : (other, slot) ∈ deliveries.inHand) :
    (other, slot) ∈ (deliver catalog who access before after deliveries).inHand := by
  unfold deliver
  split
  · split
    · exact held
    · exact List.mem_cons_of_mem _ held
  · split
    · exact held
    · exact List.mem_cons_of_mem _ held
  · exact held
  · split
    · exact held
    · exact (List.mem_erase_of_ne (by simp [ne])).mpr held
  · exact held

variable (sound : Sound catalog ledger before custodies) (orderly : Orderly catalog before.table ledger.floor.2)

include sound orderly

omit orderly

/-- A slot in custody is in a creator's hand or being reclaimed. -/
theorem Sound.source (mine : (custodies who).of idx) :
    (who, idx) ∈ ledger.floor.2.inHand ∨ ∃ gen, (before.table.slot idx).word = ⟨gen, .reclaiming⟩ := by
  have holds := sound.holds who
  cases custody : custodies who with
  | none => rw [custody] at mine; exact mine.elim
  | hand keyId slot stage =>
    rw [custody] at mine holds
    obtain rfl : slot = idx := mine
    exact .inl holds.1
  | sweep slot gen place held word =>
    rw [custody] at mine holds
    obtain rfl : slot = idx := mine
    exact .inr ⟨gen, holds.1⟩

include orderly

/-- A slot in custody is one of the table's. -/
theorem Sound.inside (mine : (custodies who).of idx) : idx < catalog.capacity := by
  rcases sound.source mine with held | ⟨gen, word⟩
  · exact orderly.range who idx held
  · exact (orderly.used idx (by simp [word])).2

/-- A slot in custody is free or being reclaimed. -/
theorem Sound.idle (mine : (custodies who).of idx) :
    (before.table.slot idx).word.state = .free ∨ (before.table.slot idx).word.state = .reclaiming := by
  rcases sound.source mine with held | ⟨gen, word⟩
  · exact .inl (orderly.free who idx held)
  · exact .inr (by rw [word])

/-- A slot that is live or struck is in nobody's custody. -/
theorem Sound.loose (used : (before.table.slot idx).word.state ≠ .free)
    (settled : (before.table.slot idx).word.state ≠ .reclaiming) (other : Nat) : ¬(custodies other).of idx :=
  fun theirs => (sound.idle orderly theirs).elim used settled

omit sound orderly

/-- What a custodian knows does not depend on other slots. -/
theorem Custody.Holds.congr (holds : custody.Holds catalog inHand before who)
    (slots : ∀ slot, custody.of slot → after.table.slot slot = before.table.slot slot ∧
      after.incarnation (catalog.headOffFor slot) = before.incarnation (catalog.headOffFor slot))
    (hands : ∀ slot, (who, slot) ∈ inHand → (who, slot) ∈ inHand') : custody.Holds catalog inHand' after who := by
  cases custody with
  | none => trivial
  | hand keyId slot stage =>
    obtain ⟨same, incarnation⟩ := slots slot rfl
    simp only [Custody.Holds, same, incarnation] at holds ⊢
    exact ⟨hands slot holds.1, holds.2⟩
  | sweep slot gen place held word =>
    obtain ⟨same, _⟩ := slots slot rfl
    simp only [Custody.Holds, same] at holds ⊢
    exact holds

theorem Kept.congr (known : Kept catalog published before idx)
    (slot : after.table.slot idx = before.table.slot idx) (same : published' idx = published idx)
    (head : after.incarnation (catalog.headOffFor idx) = before.incarnation (catalog.headOffFor idx)) :
    Kept catalog published' after idx := by
  obtain ⟨name, place, key, incarnation⟩ := known
  exact ⟨by rwa [slot], by rwa [slot], by rwa [slot, same], by rwa [slot, head]⟩

/-- Nothing changes but one slot and its head. -/
def Confined (catalog : Catalog) (idx : Nat) (before after : Store Content) : Prop :=
  (∀ other, other ≠ idx → after.table.slot other = before.table.slot other) ∧
    ∀ other, other < catalog.capacity → other ≠ idx →
      after.incarnation (catalog.headOffFor other) = before.incarnation (catalog.headOffFor other)

theorem confined_refl : Confined catalog idx before before := ⟨fun _ _ => rfl, fun _ _ _ => rfl⟩

theorem Amended.slot_of_ne {slot : Slot} (diff : Amended idx slot before after)
    (ne : other ≠ idx) : after.table.slot other = before.table.slot other := by
  rw [diff.1, update_of_ne ne]

theorem Amended.confined {slot : Slot} (diff : Amended idx slot before after) : Confined catalog idx before after :=
  ⟨fun _ => diff.slot_of_ne, fun _ _ _ => diff.2 _⟩

theorem Amended.slot_eq {slot : Slot} (diff : Amended idx slot before after) : after.table.slot idx = slot := by
  rw [diff.1, update_self]

theorem Amended.either {slot : Slot} (diff : Amended idx slot before after) (other : Nat) :
    other = idx ∧ after.table.slot other = slot ∨ after.table.slot other = before.table.slot other := by
  by_cases here : other = idx
  · exact .inl ⟨here, here ▸ diff.slot_eq⟩
  · exact .inr (diff.slot_of_ne here)

theorem Reheaded.confined (ne : catalog.Apart) (diff : Reheaded (catalog.headOffFor idx) before after)
    (inside : idx < catalog.capacity) : Confined catalog idx before after :=
  ⟨fun _ _ => by rw [diff.1], fun _ known other => diff.2 _ fun same => other (ne.headOff_inj known inside same)⟩

include sound orderly

/-- One slot changes, with its head, in the hands of the one actor it concerns. -/
theorem Sound.revise (confined : Confined catalog idx before after)
    (hands : ∀ other, other ≠ who → ∀ slot, (other, slot) ∈ ledger.floor.2.inHand →
      (other, slot) ∈ ledger'.floor.2.inHand)
    (published : ∀ other, other ≠ idx → ledger'.published other = ledger.published other)
    (others : ∀ other, other ≠ who → ¬(custodies other).of idx)
    (mine : later.Holds catalog ledger'.floor.2.inHand after who)
    (only : ∀ slot, slot ≠ idx → later.of slot → (custodies who).of slot)
    (kept : (after.table.slot idx).word.state ≠ .free → Kept catalog ledger'.published after idx)
    (ahead : ∀ gen, ((after.table.slot idx).word.gen < gen ∨
      (after.table.slot idx).word.gen = gen ∧ (after.table.slot idx).word.state = .free) →
      ledger'.published idx gen = none)
    (positive : (after.table.slot idx).word.gen ≠ 0) :
    Sound catalog ledger' after (update custodies who later) where
  holds other := by
    by_cases same : other = who
    · subst other
      rwa [update_self]
    · rw [update_of_ne same]
      refine (sound.holds other).congr (fun slot theirs => ?_) (hands other same)
      have ne : slot ≠ idx := fun eq => others other same (eq ▸ theirs)
      exact ⟨confined.1 slot ne, confined.2 slot (sound.inside orderly theirs) ne⟩
  alone first second slot one two := by
    have source : ∀ other, (update custodies who later other).of slot →
        other = who ∨ (custodies other).of slot := by
      intro other theirs
      by_cases same : other = who
      · exact .inl same
      · rw [update_of_ne same] at theirs
        exact .inr theirs
    by_cases here : slot = idx
    · have must : ∀ other, (update custodies who later other).of slot → other = who := by
        intro other theirs
        by_contra ne
        exact others other ne (here ▸ (source other theirs).resolve_left ne)
      rw [must first one, must second two]
    · have back : ∀ other, (update custodies who later other).of slot → (custodies other).of slot := by
        intro other theirs
        rcases source other theirs with rfl | already
        · rw [update_self] at theirs
          exact only slot here theirs
        · exact already
      exact sound.alone first second slot (back first one) (back second two)
  kept slot used := by
    by_cases here : slot = idx
    · subst slot
      exact kept used
    · have same := confined.1 slot here
      rw [same] at used
      exact (sound.kept slot used).congr same (published slot here) (confined.2 slot (orderly.used slot used).2 here)
  ahead slot gen beyond := by
    by_cases here : slot = idx
    · subst slot
      exact ahead gen beyond
    · rw [published slot here]
      rw [confined.1 slot here] at beyond
      exact sound.ahead slot gen beyond
  positive slot := by
    by_cases here : slot = idx
    · subst slot
      exact positive
    · rw [confined.1 slot here]
      exact sound.positive slot

omit orderly

/-- Nothing is changed but, perhaps, what the actor has in custody. -/
theorem Sound.same (unchanged : Same before after)
    (hands : ∀ other slot, (other, slot) ∈ ledger.floor.2.inHand → (other, slot) ∈ ledger'.floor.2.inHand)
    (published : ledger'.published = ledger.published) : Sound catalog ledger' after custodies := by
  have slots : ∀ slot, after.table.slot slot = before.table.slot slot := fun slot => by rw [unchanged.1]
  refine ⟨fun other => (sound.holds other).congr (fun slot _ => ⟨slots slot, unchanged.2 _⟩) (hands other),
    sound.alone, fun slot used => ?_, fun slot gen beyond => ?_, fun slot => ?_⟩
  · rw [slots] at used
    exact (sound.kept slot used).congr (slots slot) (by rw [published]) (unchanged.2 _)
  · rw [slots] at beyond
    rw [published]
    exact sound.ahead slot gen beyond
  · rw [slots]
    exact sound.positive slot

include orderly

/-- The slot in an actor's custody changes and its word does not. -/
theorem Sound.tend (hands : ledger'.floor.2.inHand = ledger.floor.2.inHand)
    (published : ledger'.published = ledger.published) (mine : (custodies who).of idx) (only : ∀ slot,
        later.of slot → slot = idx)
    (confined : Confined catalog idx before after) (word : (after.table.slot idx).word = (before.table.slot idx).word)
    (holds : later.Holds catalog ledger'.floor.2.inHand after who)
    (kept : (before.table.slot idx).word.state = .reclaiming → Kept catalog ledger.published before idx →
      Kept catalog ledger.published after idx) :
    Sound catalog ledger' after (update custodies who later) := by
  refine sound.revise orderly confined (fun _ _ _ held => hands ▸ held) (fun _ _ => by rw [published])
    (fun other ne theirs => ne (sound.alone other who idx theirs mine)) holds
    (fun slot ne theirs => absurd (only slot theirs) ne) (fun used => ?_) (fun gen beyond => ?_) ?_
  · rw [word] at used
    have reclaiming := (sound.idle orderly mine).resolve_left used
    rw [published]
    exact kept reclaiming (sound.kept idx used)
  · rw [word] at beyond
    rw [published]
    exact sound.ahead idx gen beyond
  · rw [word]
    exact sound.positive idx

/-- The slot in a creator's hand is filled a little more. -/
theorem Sound.fill (hands : ledger'.floor.2.inHand = ledger.floor.2.inHand)
    (published : ledger'.published = ledger.published) (held : custodies who = .hand keyId idx stage)
    (confined : Confined catalog idx before after) (word : (after.table.slot idx).word = (before.table.slot idx).word)
    (holds : (Custody.hand keyId idx stage').Holds catalog ledger'.floor.2.inHand after who) :
    Sound catalog ledger' after (update custodies who (.hand keyId idx stage')) := by
  have mine : (custodies who).of idx := by rw [held]; exact rfl
  refine sound.tend orderly hands published mine (fun slot theirs => theirs.symm) confined word holds
    fun reclaiming => ?_
  have in_ := sound.holds who
  rw [held] at in_
  rw [orderly.free who idx in_.1] at reclaiming
  cases reclaiming

/-- A slot comes into a creator's hand. -/
theorem Sound.take (orderly' : Orderly catalog after.table ledger'.floor.2)
    (unchanged : Same before after) (given : ledger'.floor.2.inHand = (who, idx) :: ledger.floor.2.inHand)
    (published : ledger'.published = ledger.published) :
    Sound catalog ledger' after (update custodies who (.hand keyId idx .taken)) := by
  have in_ : (who, idx) ∈ ledger'.floor.2.inHand := by rw [given]; exact List.mem_cons_self
  have free := orderly'.free who idx in_
  refine sound.revise orderly ⟨fun _ _ => by rw [unchanged.1], fun _ _ _ => unchanged.2 _⟩
    (fun _ _ _ held => by rw [given]; exact List.mem_cons_of_mem _ held) (fun _ _ => by rw [published]) ?_ ?_
    (fun slot ne theirs => absurd theirs.symm ne) (fun used => absurd free used) (fun gen beyond => ?_) ?_
  · intro other ne theirs
    -- another's hand would be the same hand, and a sweep would have the slot's word
    rcases sound.source theirs with held | ⟨gen, word⟩
    · exact ne (orderly'.exclusive other who idx (by rw [given]; exact List.mem_cons_of_mem _ held) in_)
    · rw [unchanged.1, word] at free
      cases free
  · exact ⟨in_, by simp [Stage.taken], by simp [Stage.taken], by simp [Stage.taken], by simp [Stage.taken],
      by simp [Stage.taken], by simp [Stage.taken]⟩
  · rw [unchanged.1] at beyond
    rw [published]
    exact sound.ahead idx gen beyond
  · rw [unchanged.1]
    exact sound.positive idx

/-- The word of a slot in use changes, and the slot is no longer live. -/
theorem Sound.mark (hands : ledger'.floor.2.inHand = ledger.floor.2.inHand)
    (published : ledger'.published = ledger.published) (used : (before.table.slot idx).word.state ≠ .free)
    (others : ∀ other, other ≠ who → ¬(custodies other).of idx) (got : (before.table.slot idx).word.gen = gen)
    (diff : Amended idx { before.table.slot idx with word := ⟨gen, st⟩ } before after)
    (stays : st ≠ .free) (dead : st ≠ .live) (holds : later.Holds catalog ledger'.floor.2.inHand after who)
    (only : ∀ slot, slot ≠ idx → later.of slot → (custodies who).of slot) :
    Sound catalog ledger' after (update custodies who later) := by
  have slot := diff.slot_eq
  have known := sound.kept idx used
  refine sound.revise orderly diff.confined (fun _ _ _ held => hands ▸ held)
    (fun _ _ => by rw [published]) others holds only (fun _ => ?_) (fun beyond later => ?_) ?_
  · refine ⟨by rw [slot]; exact known.name, by rw [slot]; exact known.place, ?_, ?_⟩
    · rw [slot, published, ← got]
      obtain ⟨keyId, entry, key⟩ := known.key
      exact ⟨keyId, entry, key.imp_right fun cleared => ⟨dead, cleared.2⟩⟩
    · rw [slot, diff.2, ← got]
      exact known.incarnation.imp_right fun out => ⟨dead, out.2⟩
  · rw [slot] at later
    rw [published]
    exact sound.ahead idx beyond (.inl (got ▸ later.resolve_right fun both => stays both.2))
  · rw [slot, ← got]
    exact sound.positive idx

omit sound orderly

theorem note_inHand (call : KeyCall) (access : TableSite) (who : Nat) (before after : Store Content)
    (ledger : Ledger) :
    (ledger.note catalog who (call, .table access) before after).floor.2.inHand =
      (deliver catalog who access before.table after.table ledger.floor.2).inHand := rfl

theorem note_published (call : KeyCall) (access : TableSite) (who : Nat) (before after : Store Content)
    (ledger : Ledger) :
    (ledger.note catalog who (call, .table access) before after).published =
      publishes access before.table after.table ledger.published := rfl

variable (ne : catalog.Apart)

include sound orderly ne

/-- Every turn keeps the custody of the slots. -/
theorem Sound.turn (turn : Turn catalog call site (custodies who) later before after)
    (orderly' : Orderly catalog after.table (ledger.note catalog who (call, site) before after).floor.2) :
    Sound catalog (ledger.note catalog who (call, site) before after) after
      (update custodies who later) := by
  generalize custody : custodies who = mine at turn
  have holds := sound.holds who
  rw [custody] at holds
  have own {idx : Nat} (of : mine.of idx) : (custodies who).of idx := by rw [custody]; exact of
  cases turn with
  | still unchanged quiet =>
    rw [← custody, update_eq_self]
    cases site with
    | table access =>
      refine sound.same unchanged (fun other slot held => ?_) (quiet.2 _)
      rw [note_inHand, quiet.1]
      exact held
    | head headOff access => exact sound.same unchanged (fun _ _ held => held) rfl
    | returned answer => exact sound.same unchanged (fun _ _ held => held) rfl
  | pop unchanged diff =>
    refine sound.take orderly orderly' unchanged ?_ rfl
    rw [note_inHand]
    simp [deliver, diff, Deliveries.hand]
  | bump unchanged room =>
    refine sound.take orderly orderly' unchanged ?_ rfl
    rw [note_inHand]
    simp [deliver, Nat.not_le.mpr room, Deliveries.hand]
  | stamp =>
    refine sound.fill orderly rfl rfl custody confined_refl rfl ?_
    exact ⟨holds.1, by simp, holds.2.2⟩
  | @build _ _ idx stage _ _ _ early diff =>
    refine sound.fill orderly rfl rfl custody (diff.confined ne (orderly.range who idx holds.1)) (by rw [diff.1]) ?_
    simp only [Custody.Holds, diff.1, early] at holds ⊢
    exact ⟨holds.1, holds.2.1, by simp, holds.2.2.2⟩
  | @serve _ _ idx stage gen _ _ stamped diff incarnation =>
    refine sound.fill orderly rfl rfl custody (diff.confined ne (orderly.range who idx holds.1)) (by rw [diff.1]) ?_
    simp only [Custody.Holds, diff.1] at holds ⊢
    exact ⟨holds.1, holds.2.1, fun _ => incarnation.trans (holds.2.1 gen stamped).symm, holds.2.2.2⟩
  | key diff =>
    refine sound.fill orderly rfl rfl custody diff.confined (by rw [diff.slot_eq]) ?_
    simp only [Custody.Holds, diff.slot_eq, diff.2] at holds ⊢
    exact ⟨holds.1, holds.2.1, holds.2.2.1, fun _ => trivial, holds.2.2.2.2⟩
  | name diff =>
    refine sound.fill orderly rfl rfl custody diff.confined (by rw [diff.slot_eq]) ?_
    simp only [Custody.Holds, diff.slot_eq, diff.2] at holds ⊢
    exact ⟨holds.1, holds.2.1, holds.2.2.1, holds.2.2.2.1, fun _ => trivial, holds.2.2.2.2.2⟩
  | locate diff =>
    refine sound.fill orderly rfl rfl custody diff.confined (by rw [diff.slot_eq]) ?_
    simp only [Custody.Holds, diff.slot_eq, diff.2] at holds ⊢
    exact ⟨holds.1, holds.2.1, holds.2.2.1, holds.2.2.2.1, holds.2.2.2.2.1, fun _ => trivial, holds.2.2.2.2.2.2⟩
  | sort diff =>
    refine sound.fill orderly rfl rfl custody diff.confined (by rw [diff.slot_eq]) ?_
    simp only [Custody.Holds, diff.slot_eq, diff.2] at holds ⊢
    exact ⟨holds.1, holds.2.1, holds.2.2.1, holds.2.2.2.1, holds.2.2.2.2.1, holds.2.2.2.2.2.1, by simp⟩
  | @publish _ keyId idx stage gen _ _ served keyed named located got diff =>
    obtain ⟨in_, stamped, serves, key, name, place, _⟩ := holds
    have slot := diff.slot_eq
    have shown : publishes (.exchangeWord idx .live) before.table after.table ledger.published =
        update ledger.published idx
          (update (ledger.published idx) gen (some (before.table.slot idx).keyId)) := by
      simp [publishes, slot, got]
    refine sound.revise orderly diff.confined (fun other different slot held =>
      mem_deliver_of_ne different _ _ _ held) (fun other different => ?_)
      (fun other different theirs => different (sound.alone other who idx theirs (own rfl))) trivial
      (fun _ _ theirs => theirs.elim) (fun _ => ⟨?_, ?_, ?_, ?_⟩) (fun later beyond => ?_) ?_
    · rw [note_published, shown, update_of_ne different]
    · rw [slot]
      exact name named
    · rw [slot]
      exact place located
    · rw [slot, note_published, shown]
      exact ⟨_, by simp, .inl rfl⟩
    · rw [slot, diff.2, serves served, got]
      exact .inl rfl
    · rw [slot] at beyond
      have above : gen < later := beyond.resolve_right (by simp)
      rw [note_published, shown, update_self, update_of_ne (Nat.ne_of_gt above)]
      exact sound.ahead idx later (.inl (by rw [got]; exact above))
    · have positive := sound.positive idx
      rw [got] at positive
      rw [slot]
      exact positive
  | @strike _ _ idx gen _ _ got diff =>
    have loose := sound.loose orderly (by simp [got]) (by simp [got] : (before.table.slot idx).word.state ≠ _)
    refine sound.mark orderly rfl rfl (by simp [got]) (fun other _ => loose other) (by rw [got]) diff
      (by simp) (by simp)
      ?_ fun _ _ theirs => by rwa [custody]
    refine holds.congr (fun slot theirs => ⟨diff.slot_of_ne fun same => ?_, diff.2 _⟩) fun _ held => held
    exact loose who (own (same ▸ theirs))
  | @claim _ idx gen _ _ got diff =>
    exact sound.mark orderly rfl rfl (by simp [got]) (fun _ _ => sound.loose orderly (by simp [got]) (by simp [got]) _)
      (by rw [got]) diff (by simp) (by simp) ⟨by rw [diff.slot_eq], by simp, by simp, by simp⟩
      (fun slot different theirs => absurd theirs.symm different)
  | @place _ idx gen place held word _ =>
    refine sound.tend orderly rfl rfl (own rfl) (fun _ theirs => theirs.symm) confined_refl rfl ⟨holds.1, ?_,
      holds.2.2⟩ fun _ kept => kept
    intro headOff known
    rw [← Option.mem_some_iff.mp known]
    exact (sound.kept idx (by simp [holds.1])).place
  | @retire _ idx gen headOff held word _ _ diff out =>
    have known := sound.kept idx (by simp [holds.1])
    obtain rfl := holds.2.1 headOff rfl
    refine sound.tend orderly rfl rfl (own rfl) (fun _ theirs => theirs.symm)
      (diff.confined ne (sound.inside orderly (own rfl))) (by rw [diff.1]) ?_ fun reclaiming kept => ?_
    · simp only [Custody.Holds, diff.1] at holds ⊢
      refine ⟨holds.1, holds.2.1, fun incarnation taken => ?_, holds.2.2.2⟩
      rw [← Option.mem_some_iff.mp taken]
      have either := known.incarnation
      rw [holds.1] at either
      exact either.imp_right And.right
    · exact ⟨by rw [diff.1]; exact kept.name, by rw [diff.1]; exact kept.place,
        by rw [diff.1]; exact kept.key, .inr ⟨by rw [diff.1, reclaiming]; simp, out⟩⟩
  | @revive _ idx gen headOff held word _ _ diff back =>
    obtain rfl := holds.2.1 headOff rfl
    refine sound.tend orderly rfl rfl (own rfl) (fun _ theirs => theirs.symm)
      (diff.confined ne (sound.inside orderly (own rfl))) (by rw [diff.1]) ?_ fun reclaiming kept => ?_
    · simp only [Custody.Holds, diff.1] at holds ⊢
      exact holds
    · refine ⟨by rw [diff.1]; exact kept.name, by rw [diff.1]; exact kept.place,
        by rw [diff.1]; exact kept.key, ?_⟩
      rw [diff.1, back, holds.1]
      exact (holds.2.2.1 held rfl).imp_right fun out => ⟨by simp, out⟩
  | @read _ idx gen place held word _ =>
    refine sound.tend orderly rfl rfl (own rfl) (fun _ theirs => theirs.symm) confined_refl rfl ⟨holds.1,
      holds.2.1, holds.2.2.1, fun read known => ?_⟩ fun _ kept => kept
    rw [← Option.mem_some_iff.mp known]
    exact holds.1
  | @park _ idx gen place held word _ =>
    exact sound.tend orderly rfl rfl (own rfl) (fun _ theirs => theirs.elim) confined_refl rfl trivial
      fun _ kept => kept
  | @abort _ idx gen place held word _ _ diff =>
    have read := holds.2.2.2 word rfl
    exact sound.mark orderly rfl rfl (by simp [holds.1])
      (fun other different theirs => different (sound.alone other who idx theirs (own rfl)))
      (by rw [holds.1, read]) diff (by simp) (by simp) trivial fun _ _ theirs => theirs.elim
  | @clear _ idx gen place held word _ _ diff =>
    have slot := diff.slot_eq
    refine sound.tend orderly rfl rfl (own rfl) (fun _ theirs => theirs.symm) diff.confined (by rw [slot]) ?_
      fun reclaiming kept => ?_
    · simp only [Custody.Holds, slot] at holds ⊢
      exact holds
    · obtain ⟨keyId, entry, _⟩ := kept.key
      refine ⟨by rw [slot]; exact kept.name, by rw [slot]; exact kept.place,
        ⟨keyId, by rw [slot]; exact entry, .inr ⟨?_, by rw [slot]⟩⟩, by rw [slot, diff.2]; exact kept.incarnation⟩
      rw [slot]
      simp [reclaiming]
  | @free _ idx gen place held word _ _ diff =>
    have slot := diff.slot_eq
    have read := holds.2.2.2 word rfl
    refine sound.revise orderly diff.confined (fun _ _ _ held => held) (fun _ _ => rfl)
      (fun other different theirs => different (sound.alone other who idx theirs (own rfl))) trivial
      (fun _ _ theirs => theirs.elim) (fun used => absurd (by rw [slot]) used) (fun later beyond => ?_) (by simp [slot])
    rw [slot, read] at beyond
    refine sound.ahead idx later (.inl ?_)
    rw [holds.1]
    simp only at beyond ⊢
    omega

variable (turn : Turn catalog call site (custodies who) later before after)

include turn

/-- A slot that is not in the actor's custody stays as it is, unless it is struck or
claimed. -/
theorem Turn.beside (inside : slot < catalog.capacity) (loose : ¬(custodies who).of slot) :
    after.incarnation (catalog.headOffFor slot) = before.incarnation (catalog.headOffFor slot) ∧
      (after.table.slot slot = before.table.slot slot ∨
        (site = .table (.exchangeWord slot .tombstone) ∧ (before.table.slot slot).word.state = .live ∧
          after.table.slot slot =
            { before.table.slot slot with word := ⟨(before.table.slot slot).word.gen, .tombstone⟩ }) ∨
        (before.table.slot slot).word.state = .tombstone ∧ after.table.slot slot =
          { before.table.slot slot with word := ⟨(before.table.slot slot).word.gen, .reclaiming⟩ }) := by
  generalize custody : custodies who = mine at turn
  have holds := sound.holds who
  have tended (idx : Nat) (of : mine.of idx) : slot ≠ idx ∧ idx < catalog.capacity :=
    ⟨fun same => loose (by rw [custody, same]; exact of), sound.inside orderly (by rw [custody]; exact of)⟩
  have headed {idx : Nat} (of : mine.of idx) (diff : Reheaded (catalog.headOffFor idx) before after) :
      _ = _ ∧ after.table.slot slot = before.table.slot slot :=
    ⟨(diff.confined ne (tended idx of).2).2 slot inside (tended idx of).1, by rw [diff.1]⟩
  rw [custody] at holds
  cases turn with
  | still unchanged _ | pop unchanged _ | bump unchanged _ => exact ⟨unchanged.2 _, .inl (by rw [unchanged.1])⟩
  | stamp | place | read | park => exact ⟨rfl, .inl rfl⟩
  | build _ diff | serve _ diff _ => exact (headed rfl diff).imp_right .inl
  | retire diff _ | revive diff _ =>
    obtain rfl := holds.2.1 _ rfl
    exact (headed rfl diff).imp_right .inl
  | key diff | name diff | locate diff | sort diff | publish _ _ _ _ _ diff | abort diff
  | clear diff | free diff =>
    exact ⟨diff.2 _, .inl (diff.slot_of_ne (tended _ rfl).1)⟩
  | strike got diff =>
    refine ⟨diff.2 _, ?_⟩
    rcases diff.either slot with ⟨rfl, now⟩ | same
    · exact .inr (.inl ⟨rfl, by rw [got], by rw [now, got]⟩)
    · exact .inl same
  | claim got diff =>
    refine ⟨diff.2 _, ?_⟩
    rcases diff.either slot with ⟨rfl, now⟩ | same
    · exact .inr (.inr ⟨by rw [got], by rw [now, got]⟩)
    · exact .inl same

/-- A slot that is live was live before, or has just been published. -/
theorem Turn.live_after (inside : slot < catalog.capacity) (live : (after.table.slot slot).word.state = .live) :
    (after.table.slot slot = before.table.slot slot ∧
      after.incarnation (catalog.headOffFor slot) = before.incarnation (catalog.headOffFor slot)) ∨
      ∃ keyId stage, custodies who = .hand keyId slot stage ∧ (after.table.slot slot).keyId = keyId ∧
        (before.table.slot slot).word.state = .free ∧ site = .table (.exchangeWord slot .live) := by
  by_cases mine : (custodies who).of slot
  · have idle := sound.idle orderly mine
    have holds := sound.holds who
    generalize custody : custodies who = before' at turn mine
    rw [custody] at holds
    -- a custodian makes a slot live in one way
    have kept (same : (after.table.slot slot).word.state = (before.table.slot slot).word.state) : False := by
      rw [same] at live
      rcases idle with free | reclaiming <;> simp_all
    cases turn with
    | still unchanged _ => exact (kept (by rw [unchanged.1])).elim
    | pop | bump => exact mine.elim
    | stamp | place | read | park => exact (kept rfl).elim
    | build _ diff | serve _ diff _ | retire diff _ | revive diff _ =>
      exact (kept (by rw [diff.1])).elim
    | key diff | name diff | locate diff | sort diff | clear diff =>
      obtain rfl := mine
      exact (kept (by rw [diff.slot_eq])).elim
    | @publish _ keyId idx stage gen _ _ _ keyed _ _ got diff =>
      obtain rfl : idx = slot := mine
      refine .inr ⟨keyId, stage, rfl, ?_, by rw [got], rfl⟩
      rw [diff.slot_eq]
      exact holds.2.2.2.1 keyed
    | strike _ diff =>
      rcases diff.either slot with ⟨-, now⟩ | same
      · rw [now] at live
        cases live
      · exact (kept (by rw [same])).elim
    | claim => exact mine.elim
    | abort diff | free diff =>
      obtain rfl := mine
      rw [diff.slot_eq] at live
      cases live
  · left
    obtain ⟨head, same | ⟨_, _, struck⟩ | ⟨_, claimed⟩⟩ := turn.beside sound orderly ne inside mine
    · exact ⟨same, head⟩
    · rw [struck] at live
      cases live
    · rw [claimed] at live
      cases live

/-- A slot in use keeps its occupant, unless it is freed. -/
theorem Turn.used (used : (before.table.slot slot).word.state ≠ .free) :
    ((after.table.slot slot).word.state ≠ .free ∧
      (after.table.slot slot).word.gen = (before.table.slot slot).word.gen) ∨
      site = .table (.storeWord slot .free) := by
  have stays (same : (after.table.slot slot).word = (before.table.slot slot).word) :
      (after.table.slot slot).word.state ≠ .free ∧
        (after.table.slot slot).word.gen = (before.table.slot slot).word.gen := by
    rw [same]
    exact ⟨used, rfl⟩
  by_cases mine : (custodies who).of slot
  · have idle := (sound.idle orderly mine).resolve_left used
    have holds := sound.holds who
    generalize custody : custodies who = before' at turn mine
    rw [custody] at holds
    cases turn with
    | still unchanged _ => exact .inl (stays (by rw [unchanged.1]))
    | pop | bump | claim => exact mine.elim
    | stamp | place | read | park => exact .inl (stays rfl)
    | build _ diff | serve _ diff _ | retire diff _ | revive diff _ =>
      exact .inl (stays (by rw [diff.1]))
    | key diff | name diff | locate diff | sort diff | clear diff =>
      obtain rfl := mine
      exact .inl (stays (by rw [diff.slot_eq]))
    | publish _ _ _ _ got _ =>
      obtain rfl := mine
      rw [got] at used
      exact absurd rfl used
    | strike got diff =>
      rcases diff.either slot with ⟨rfl, -⟩ | same
      · rw [got] at idle
        cases idle
      · exact .inl (stays (by rw [same]))
    | abort diff =>
      obtain rfl := mine
      rw [diff.slot_eq, holds.2.2.2 _ rfl, holds.1]
      exact .inl ⟨nofun, rfl⟩
    | free => exact .inr (by rw [show _ = slot from mine])
  · left
    obtain ⟨_, same | ⟨_, _, struck⟩ | ⟨_, claimed⟩⟩ := turn.beside sound orderly ne (orderly.used slot used).2 mine
    · exact stays (by rw [same])
    · rw [struck]
      exact ⟨nofun, rfl⟩
    · rw [claimed]
      exact ⟨nofun, rfl⟩

omit sound orderly ne turn

/-- A slot's key is written by the creator that has it in hand, or cleared. -/
theorem Turn.key_after (turn : Turn catalog call site custody later before after) (slot : Nat) :
    (after.table.slot slot).keyId = (before.table.slot slot).keyId ∨
      (∃ keyId stage, custody = .hand keyId slot stage ∧ (after.table.slot slot).keyId = keyId) ∨
      (after.table.slot slot).keyId = 0 := by
  cases turn with
  | still unchanged _ | pop unchanged _ | bump unchanged _ => exact .inl (by rw [unchanged.1])
  | stamp | place | read | park => exact .inl rfl
  | build _ diff | serve _ diff _ | retire diff _ | revive diff _ => exact .inl (by rw [diff.1])
  | key diff =>
    rcases diff.either slot with ⟨rfl, now⟩ | same
    · exact .inr (.inl ⟨_, _, rfl, by rw [now]⟩)
    · exact .inl (by rw [same])
  | clear diff =>
    rcases diff.either slot with ⟨-, now⟩ | same
    · exact .inr (.inr (by rw [now]))
    · exact .inl (by rw [same])
  | name diff | locate diff | sort diff | publish _ _ _ _ _ diff | strike _ diff | claim _ diff
  | abort diff | free diff =>
    rcases diff.either slot with ⟨rfl, now⟩ | same
    · exact .inl (by rw [now])
    · exact .inl (by rw [same])

include sound

/-- What was published stays published. -/
theorem Turn.published (turn : Turn catalog call site (custodies who) later before after)
    (known : ledger.published idx gen = some keyId) :
    (ledger.note catalog who (call, site) before after).published idx gen = some keyId := by
  generalize custodies who = custody at turn
  cases turn with
  | still _ quiet =>
    cases site with
    | table access => rw [note_published, quiet.2]; exact known
    | head | returned => exact known
  | @publish _ _ slot _ got' _ _ _ _ _ _ got diff =>
    rw [note_published]
    simp only [publishes]
    split
    · exact known
    · by_cases here : idx = slot
      · subst idx
        rw [update_self]
        by_cases same : gen = (before.table.slot slot).word.gen
        · have ahead := sound.ahead slot gen (.inr ⟨same.symm, by rw [got]⟩)
          rw [known] at ahead
          cases ahead
        · rw [update_of_ne same]
          exact known
      · rw [update_of_ne here]
        exact known
  | _ => exact known

omit sound

/-- A slot comes to hand with a create's pop or bump. -/
theorem Turn.hand_after
    (turn : Turn catalog call site custody custody' before after) (hand : custody' = .hand keyId idx stage) :
    (∃ stage, custody = .hand keyId idx stage) ∨ custody = .none ∧
      (∃ kind, call = .create keyId kind) ∧ (site = .table .popExchange ∨ site = .table .bump) := by
  cases turn with
  | still | strike => exact .inl ⟨_, hand⟩
  | pop =>
    obtain ⟨rfl, _⟩ := Custody.hand.inj hand
    exact .inr ⟨rfl, ⟨_, rfl⟩, .inl rfl⟩
  | bump =>
    obtain ⟨rfl, _⟩ := Custody.hand.inj hand
    exact .inr ⟨rfl, ⟨_, rfl⟩, .inr rfl⟩
  | stamp | build | serve | key | name | locate | sort =>
    obtain ⟨rfl, rfl, _⟩ := Custody.hand.inj hand
    exact .inl ⟨_, rfl⟩
  | _ => cases hand

/-- What is begun with nothing in custody. -/
theorem Turn.from_none (turn : Turn catalog call site .none custody' before after) :
    custody' = .none ∨
      (∃ keyId kind idx, call = .create keyId kind ∧ custody' = .hand keyId idx .taken ∧
        (site = .table .popExchange ∨ site = .table .bump)) ∨
      ∃ idx gen, custody' = .sweep idx gen none none none ∧ site = .table (.exchangeWord idx .reclaiming) ∧
        (after.table.slot idx).word ≠ (before.table.slot idx).word := by
  cases turn with
  | still | strike => exact .inl rfl
  | pop => exact .inr (.inl ⟨_, _, _, rfl, rfl, .inl rfl⟩)
  | bump => exact .inr (.inl ⟨_, _, _, rfl, rfl, .inr rfl⟩)
  | claim got diff =>
    refine .inr (.inr ⟨_, _, rfl, rfl, ?_⟩)
    rw [got, diff.slot_eq]
    simp

/-- A slot stays in hand until it is published. -/
theorem Turn.from_hand (turn : Turn catalog call site (.hand keyId idx stage) custody' before after) :
    (∃ stage, custody' = .hand keyId idx stage) ∨ custody' = .none ∧ site = .table (.exchangeWord idx .live) ∧
      (after.table.slot idx).word ≠ (before.table.slot idx).word := by
  cases turn with
  | publish _ _ _ _ got diff =>
    refine .inr ⟨rfl, rfl, ?_⟩
    rw [got, diff.slot_eq]
    simp
  | _ => exact .inl ⟨_, rfl⟩

end

/-- A new store has nothing in custody. -/
theorem sound_empty (catalog : Catalog) (pool : Pool) :
    Sound catalog (emptyStore Content pool).history (emptyStore Content pool).state fun _ => .none where
  holds _ := trivial
  alone _ _ _ nobody := nobody.elim
  kept _ used := absurd rfl used
  ahead _ _ _ := rfl
  positive _ := Nat.one_ne_zero

/-- A store of two slots, over a pool with no data. -/
def pair : Catalog := ⟨2, by decide, 64, 100⟩

theorem pair_apart : pair.Apart := ⟨by decide, by decide⟩

def tiny : Pool := ⟨0, [], by decide⟩

end ShmActors.Keyed
