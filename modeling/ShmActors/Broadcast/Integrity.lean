import ShmActors.Broadcast.Members

/-! What a subscriber is handed at a cursor is what was published there, as long
as no subscriber copies a descriptor that a producer is overwriting. The guard
does not see that: it changes only after the overwrite. -/

namespace ShmActors.Broadcast

open Lib Core Program Function Actors

/-- Where a member stands inside a call. -/
inductive Stage where
  | rest
  | writing (seq : Nat) (desc : ChunkDesc) (left : List Field)
  | stored (seq : Nat) (desc : ChunkDesc)
  | gated (cursor : Nat)
  | reading (cursor : Nat) (got : ChunkDesc) (left : List Field)

/-- Between the load and the store of `head`. -/
def Stage.publishing : Stage → Bool
  | writing .. | stored .. => true
  | _ => false

/-- `sent` is what the member has published, oldest first. -/
structure Phase where
  publisher : Bool
  receipts : List Receipt
  sent : List ChunkDesc
  stage : Stage

def RingSite.publishes : RingSite → Bool
  | loadHead | writeDesc .. | storeSeq _ | advanceHead .. => true
  | _ => false

section

variable (ring : Ring)

/-- The accesses by which members of a ring publish and read. -/
inductive Turn : Protocol RingMemory RingSite Phase where
  | begin (desc : ChunkDesc) :
      Turn .loadHead ⟨true, receipts, sent, .rest⟩ ⟨true, receipts, sent, .writing memory.head desc fields⟩
        memory memory
  | write :
      Turn (.writeDesc seq field) ⟨publisher, receipts, sent, .writing seq desc (field :: left)⟩
        ⟨publisher, receipts, sent, .writing seq desc left⟩ memory
        ((fieldOf (ring.slotIndex seq) field).set (field.get desc) memory)
  | sign :
      Turn (.storeSeq seq) ⟨publisher, receipts, sent, .writing seq desc []⟩
        ⟨publisher, receipts, sent, .stored seq desc⟩ memory ((seqOf (ring.slotIndex seq)).set seq memory)
  | advance :
      Turn (.advanceHead seq desc) ⟨publisher, receipts, sent, .stored seq desc⟩
        ⟨publisher, receipts, sent ++ [desc], .rest⟩ memory (headOf.set ((seq + 1) % 2 ^ 64) memory)
  | gate (cursor : Nat) (behind : cursor < memory.head) :
      Turn .gateHead ⟨publisher, receipts, sent, .rest⟩ ⟨publisher, receipts, sent, .gated cursor⟩ memory memory
  | guard :
      Turn (.guardSeq cursor) ⟨publisher, receipts, sent, .gated cursor⟩
        ⟨publisher, receipts, sent, .reading cursor ChunkDesc.zero fields⟩ memory memory
  | read {publisher receipts sent cursor got field left memory} :
      Turn (.readDesc cursor field) ⟨publisher, receipts, sent, .reading cursor got (field :: left)⟩
        ⟨publisher, receipts, sent,
          .reading cursor (field.put ((fieldOf (ring.slotIndex cursor) field).get memory) got) left⟩
        memory memory
  | recheck {publisher receipts sent cursor got memory}
      (same : (memory.slot (ring.slotIndex cursor)).seq = cursor) :
      Turn (.recheckSeq cursor) ⟨publisher, receipts, sent, .reading cursor got []⟩
        ⟨publisher, receipts ++ [⟨cursor, .sample got⟩], sent, .rest⟩ memory memory
  | aside (quiet : site.publishes = false)
      (head : after.head = before.head) (slot : after.slot = before.slot)
      (idle : stage.publishing = false)
      (kept : ∀ receipt ∈ later, receipt ∈ receipts ∨ ∃ skipped, receipt.msg = .lagged skipped) :
      Turn site ⟨publisher, receipts, sent, stage⟩ ⟨publisher, later, sent, .rest⟩ before after

end

/-- What a stage says of the ring. -/
def Stage.Fits (ring : Ring) (bulletin : Bulletin) (memory : RingMemory) : Stage → Prop
  | .rest => True
  | .writing seq desc left => seq = memory.head ∧ seq + 1 < reliableUnused ∧
      (left = fields ∧ bulletin.writing = none ∨ bulletin.writing = some seq ∧
        ∀ field ∉ left, field.get (memory.slot (ring.slotIndex seq)).desc = field.get desc)
  | .stored seq desc => seq = memory.head ∧ seq + 1 < reliableUnused ∧ bulletin.writing = none ∧
      memory.slot (ring.slotIndex seq) = ⟨seq, desc⟩
  | .gated cursor => cursor < bulletin.published.length
  | .reading cursor got left => ∃ publication, bulletin.published[cursor]? = some publication ∧
      ((memory.slot (ring.slotIndex cursor)).seq = cursor →
        ∀ field ∉ left, field.get got = field.get publication.desc)

/-- A sample is what was published at its cursor. -/
def Receipt.Right (bulletin : Bulletin) (receipt : Receipt) : Prop :=
  ∀ desc, receipt.msg = .sample desc →
    ∃ publication, bulletin.published[receipt.cursor]? = some publication ∧ publication.desc = desc

/-- What a phase says of the ring and of what has been published. -/
structure Phase.Fits (ring : Ring) (bulletin : Bulletin) (memory : RingMemory) (actor : Nat) (phase : Phase) :
    Prop where
  stage : phase.stage.Fits ring bulletin memory
  inside : phase.stage.publishing = true ↔ bulletin.inside = some actor
  right : ∀ receipt ∈ phase.receipts, receipt.Right bulletin
  sent : bulletin.publishedBy actor = phase.sent

/-- The invariant of members of which one publishes at a time. -/
structure Sound (ring : Ring) (bulletin : Bulletin) (memory : RingMemory) (phases : Nat → Phase) : Prop where
  counted : memory.head = bulletin.published.length
  bounded : memory.head < reliableUnused
  numbered : ∀ seq (publication : Publication), bulletin.published[seq]? = some publication →
    publication.seq = seq
  calm : bulletin.inside = none → bulletin.writing = none
  /-- A slot that is not being overwritten holds what its guard says. -/
  held : ∀ seq (publication : Publication), bulletin.published[seq]? = some publication →
    (memory.slot (ring.slotIndex seq)).seq = seq →
    bulletin.writing.map ring.slotIndex ≠ some (ring.slotIndex seq) →
    (memory.slot (ring.slotIndex seq)).desc = publication.desc
  fits : ∀ actor, (phases actor).Fits ring bulletin memory actor

/-- No subscriber copies a word of a slot that a producer is overwriting. -/
def Undisturbed (ring : Ring) (site : RingSite) (bulletin : Bulletin) : Prop :=
  match site with
  | .readDesc cursor _ => bulletin.writing.map ring.slotIndex ≠ some (ring.slotIndex cursor)
  | _ => True

/-- The sequence numbers last: none is `u64::MAX`. -/
def Lasting (site : RingSite) (memory : RingMemory) : Prop :=
  match site with
  | .loadHead => memory.head + 1 < reliableUnused
  | _ => True

section

variable {receipt : Receipt} {inside writing : Option Nat} {stage : Stage}

theorem found_append (got : (publications ++ [last])[seq]? = some publication) :
    publications[seq]? = some publication ∨ seq = publications.length ∧ publication = last := by
  rcases Nat.lt_or_ge seq publications.length with old | new
  · rw [List.getElem?_append_left old] at got
    exact .inl got
  · rw [List.getElem?_append_right new, List.getElem?_singleton] at got
    split at got
    next zero => exact .inr ⟨by omega, (Option.some.inj got).symm⟩
    next => cases got

theorem Receipt.Right.grown (right : receipt.Right bulletin) :
    receipt.Right ⟨bulletin.published ++ publications, inside, writing⟩ := by
  intro desc sample
  obtain ⟨publication, got, same⟩ := right desc sample
  exact ⟨publication, by rw [List.getElem?_append_left (List.getElem?_eq_some_iff.mp got).1]; exact got, same⟩

theorem Receipt.Right.recorded (right : receipt.Right bulletin) : receipt.Right (bulletin.record who site) := by
  cases site <;> first | exact right | exact right.grown

/-- A member that is not publishing keeps its stage while another takes a step:
what is published stays so, and a guard is never set back. -/
theorem Stage.Fits.grown (fits : stage.Fits ring bulletin before) (idle : stage.publishing = false)
    (guards : ∀ cursor < bulletin.published.length, (after.slot (ring.slotIndex cursor)).seq = cursor →
      (before.slot (ring.slotIndex cursor)).seq = cursor) :
    stage.Fits ring ⟨bulletin.published ++ publications, inside, writing⟩ after := by
  cases stage with
  | rest => trivial
  | writing | stored => cases idle
  | gated cursor =>
    simp only [Fits, List.length_append] at fits ⊢
    omega
  | reading cursor got left =>
    obtain ⟨publication, found, copied⟩ := fits
    have inBounds := (List.getElem?_eq_some_iff.mp found).1
    refine ⟨publication, ?_, fun same => copied (guards cursor inBounds same)⟩
    rw [List.getElem?_append_left inBounds]
    exact found

theorem Stage.Fits.kept (fits : stage.Fits ring bulletin before) (idle : stage.publishing = false)
    (guards : ∀ cursor < bulletin.published.length, (after.slot (ring.slotIndex cursor)).seq = cursor →
      (before.slot (ring.slotIndex cursor)).seq = cursor) :
    stage.Fits ring ⟨bulletin.published, inside, writing⟩ after := by
  have grown : stage.Fits ring ⟨bulletin.published ++ [], inside, writing⟩ after := fits.grown idle guards
  rwa [List.append_nil] at grown

theorem Stage.Fits.congr (fits : stage.Fits ring bulletin before)
    (head : after.head = before.head) (slot : after.slot = before.slot) : stage.Fits ring bulletin after := by
  cases stage with
  | rest => trivial
  | writing | stored | gated | reading => simpa only [Fits, head, slot] using fits

/-- A step that leaves `head` and the slots alone, by a member that publishes
neither before nor after it. -/
theorem Sound.reader (sound : Sound ring bulletin before phases) (head : after.head = before.head)
    (slot : after.slot = before.slot) (idle : (phases who).stage.publishing = false)
    (still : later.stage.publishing = false) (sent : later.sent = (phases who).sent)
    (fits : later.stage.Fits ring bulletin before) (right : ∀ receipt ∈ later.receipts, receipt.Right bulletin) :
    Sound ring bulletin after (update phases who later) := by
  refine ⟨head.trans sound.counted, head ▸ sound.bounded, sound.numbered, sound.calm, slot ▸ sound.held, ?_⟩
  refine (Function.forall_update_iff phases _).mpr ⟨⟨fits.congr head slot, ?_, right, ?_⟩, fun other _ => ?_⟩
  · rw [← (sound.fits who).inside, idle, still]
  · rw [sent]
    exact (sound.fits who).sent
  · obtain ⟨stage, inside, right, sent⟩ := sound.fits other
    exact ⟨stage.congr head slot, inside, right, sent⟩

/-- While a member publishes, no other does. -/
theorem Sound.alone (sound : Sound ring bulletin before phases)
    (publishing : (phases who).stage.publishing = true) (ne : other ≠ who) :
    (phases other).stage.publishing = false := by
  rw [Bool.eq_false_iff]
  intro both
  have inside := (sound.fits who).inside.mp publishing
  rw [(sound.fits other).inside.mp both] at inside
  exact ne (Option.some.inj inside)

variable (sound : Sound ring bulletin mem phases)

include sound

theorem Sound.begin (own : phases who = ⟨true, receipts, sent, .rest⟩)
    (free : bulletin.inside = none) (room : mem.head + 1 < reliableUnused) :
    Sound ring (bulletin.record who .loadHead) mem
      (update phases who ⟨true, receipts, sent, .writing mem.head desc fields⟩) := by
  refine ⟨sound.counted, sound.bounded, sound.numbered, nofun, sound.held, ?_⟩
  refine (Function.forall_update_iff phases _).mpr ⟨?_, fun other ne => ?_⟩
  · have fits := sound.fits who
    rw [own] at fits
    exact ⟨⟨rfl, room, .inl ⟨rfl, sound.calm free⟩⟩, by simp [Stage.publishing, Bulletin.record], fits.right,
      fits.sent⟩
  · obtain ⟨stage, inside, right, sent⟩ := sound.fits other
    have idle : (phases other).stage.publishing = false := by
      rw [Bool.eq_false_iff, ne_eq, inside, free]
      exact nofun
    refine ⟨stage.kept idle fun _ _ => id, ?_, right, sent⟩
    rw [idle]
    simp [Bulletin.record, Ne.symm ne]

/-- A word of the descriptor, or the guard, written into the slot of the member
that publishes. -/
theorem Sound.fill (publishing : (phases who).stage.publishing = true) (still : later.stage.publishing = true)
    (receipts : later.receipts = (phases who).receipts) (sent : later.sent = (phases who).sent)
    (guards : ∀ cursor < bulletin.published.length, ring.slotIndex cursor = ring.slotIndex seq →
      slot.seq = cursor → (mem.slot (ring.slotIndex seq)).seq = cursor ∧ writing = some seq)
    (elsewhere : ∀ index, index ≠ ring.slotIndex seq → bulletin.writing.map ring.slotIndex ≠ some index)
    (fits : later.stage.Fits ring { bulletin with writing := writing } ((slotOf (ring.slotIndex seq)).set slot mem)) :
    Sound ring { bulletin with writing := writing } ((slotOf (ring.slotIndex seq)).set slot mem)
      (update phases who later) := by
  have inside := (sound.fits who).inside.mp publishing
  refine ⟨sound.counted, sound.bounded, sound.numbered, ?_, ?_, ?_⟩
  · intro free
    rw [inside] at free
    cases free
  · intro cursor publication got same ne
    have inBounds := (List.getElem?_eq_some_iff.mp got).1
    by_cases here : ring.slotIndex cursor = ring.slotIndex seq
    · simp only [slotOf, here, update_self] at same
      obtain ⟨_, overwritten⟩ := guards cursor inBounds here same
      exact absurd (by rw [overwritten, here]; rfl) ne
    · simp only [slotOf, update_of_ne here] at same ⊢
      exact sound.held cursor publication got same (elsewhere _ here)
  refine (Function.forall_update_iff phases _).mpr ⟨⟨fits, ?_, ?_, ?_⟩, fun other ne => ?_⟩
  · rw [← (sound.fits who).inside, publishing, still]
  · rw [receipts]
    exact (sound.fits who).right
  · rw [sent]
    exact (sound.fits who).sent
  · obtain ⟨stage, inside, right, sent⟩ := sound.fits other
    refine ⟨stage.kept (sound.alone publishing ne) fun cursor inBounds same => ?_, inside, right, sent⟩
    by_cases here : ring.slotIndex cursor = ring.slotIndex seq
    · simp only [slotOf, here, update_self] at same
      rw [here]
      exact (guards cursor inBounds here same).1
    · simpa only [slotOf, update_of_ne here] using same

theorem Sound.write (own : phases who = ⟨publisher, receipts, sent, .writing seq desc (field :: left)⟩) :
    Sound ring (bulletin.record who (.writeDesc seq field))
      ((fieldOf (ring.slotIndex seq) field).set (field.get desc) mem)
      (update phases who ⟨publisher, receipts, sent, .writing seq desc left⟩) := by
  have fits := (sound.fits who).stage
  rw [own] at fits
  obtain ⟨here, room, progress⟩ := fits
  refine Sound.fill sound (by rw [own]; rfl) rfl (by rw [own]) (by rw [own]) ?_ ?_ ⟨here, room, .inr ⟨rfl, ?_⟩⟩
  · exact fun cursor _ same guard => ⟨guard, rfl⟩
  · intro index ne overwritten
    rcases progress with ⟨_, none⟩ | ⟨some, _⟩
    · rw [none] at overwritten
      cases overwritten
    · rw [some] at overwritten
      exact ne (Option.some.inj overwritten).symm
  · intro other written
    simp only [slotOf, update_self, Field.get_put]
    split
    next same => rw [same]
    next ne =>
      rcases progress with ⟨all, _⟩ | ⟨_, earlier⟩
      · -- nothing was written before, so nothing but this word has been
        have in_ := mem_fields other
        rw [← all] at in_
        rcases List.mem_cons.mp in_ with same | rest
        · exact absurd same ne
        · exact absurd rest written
      · exact earlier other fun in_ => (List.mem_cons.mp in_).elim ne written

theorem Sound.sign (own : phases who = ⟨publisher, receipts, sent, .writing seq desc []⟩) :
    Sound ring (bulletin.record who (.storeSeq seq)) ((seqOf (ring.slotIndex seq)).set seq mem)
      (update phases who ⟨publisher, receipts, sent, .stored seq desc⟩) := by
  have fits := (sound.fits who).stage
  rw [own] at fits
  obtain ⟨here, room, ⟨all, _⟩ | ⟨overwriting, written⟩⟩ := fits
  · cases all
  refine Sound.fill sound (by rw [own]; rfl) rfl (by rw [own]) (by rw [own]) ?_ ?_ ⟨here, room, rfl, ?_⟩
  · intro cursor inBounds _ guard
    have := sound.counted
    change seq = cursor at guard
    omega
  · intro index ne overwritten
    rw [overwriting] at overwritten
    exact ne (Option.some.inj overwritten).symm
  · have copied : (mem.slot (ring.slotIndex seq)).desc = desc :=
      desc_ext fun field => written field List.not_mem_nil
    simp [slotOf, copied]

omit sound

theorem publishedBy_append (publication : Publication) (inside writing : Option Nat) (other : Nat) :
    Bulletin.publishedBy ⟨bulletin.published ++ [publication], inside, writing⟩ other =
      bulletin.publishedBy other ++ if publication.actor = other then [publication.desc] else [] := by
  unfold Bulletin.publishedBy
  rw [List.filter_append, List.map_append]
  by_cases same : publication.actor = other <;> simp [same]

include sound

theorem Sound.advance (own : phases who = ⟨publisher, receipts, sent, .stored seq desc⟩) :
    Sound ring (bulletin.record who (.advanceHead seq desc)) (headOf.set ((seq + 1) % 2 ^ 64) mem)
      (update phases who ⟨publisher, receipts, sent ++ [desc], .rest⟩) := by
  have publishing : (phases who).stage.publishing = true := by rw [own]; rfl
  have fits := sound.fits who
  rw [own] at fits
  obtain ⟨⟨here, room, calm, stored⟩, -, right, told⟩ := fits
  have counted := sound.counted
  have next : (seq + 1) % 2 ^ 64 = seq + 1 := Nat.mod_eq_of_lt (by unfold reliableUnused at room; omega)
  refine ⟨?_, ?_, ?_, fun _ => calm, ?_, ?_⟩
  · simp only [headOf, Bulletin.record, List.length_append, List.length_cons, List.length_nil]
    omega
  · simp only [headOf]
    omega
  · intro cursor publication got
    rcases found_append got with old | ⟨new, rfl⟩
    · exact sound.numbered cursor publication old
    · show seq = cursor
      omega
  · intro cursor publication got same _
    rcases found_append got with old | ⟨new, rfl⟩
    · exact sound.held cursor publication old same (by rw [calm]; exact nofun)
    · obtain rfl : cursor = seq := by omega
      show (mem.slot (ring.slotIndex cursor)).desc = desc
      rw [stored]
  refine (Function.forall_update_iff phases _).mpr ⟨⟨trivial, ?_, ?_, ?_⟩, fun other ne => ?_⟩
  · simp [Stage.publishing, Bulletin.record]
  · exact fun receipt in_ => (right receipt in_).grown
  · exact (publishedBy_append _ _ _ who).trans (by rw [told, if_pos rfl])
  · have fits := sound.fits other
    refine ⟨fits.stage.grown (sound.alone publishing ne) fun _ _ => id, ?_,
      fun receipt in_ => (fits.right receipt in_).grown, ?_⟩
    · rw [sound.alone publishing ne]
      simp [Bulletin.record]
    · refine (publishedBy_append _ _ _ other).trans ?_
      rw [if_neg (Ne.symm ne), List.append_nil]
      exact fits.sent

omit sound

/-- What a step of a member keeps, whoever else publishes or reads. -/
theorem Sound.turn (sound : Sound ring bulletin before phases)
    (alone : site = .loadHead → (phases who).publisher = true → (phases who).stage = .rest →
      bulletin.inside = none)
    (undisturbed : Undisturbed ring site bulletin) (lasting : Lasting site before)
    (turn : Turn ring site phase later before after) (own : phases who = phase) :
    Sound ring (bulletin.record who site) after (update phases who later) := by
  have fits := (sound.fits who).stage
  have right := (sound.fits who).right
  rw [own] at fits right
  cases turn with
  | begin desc => exact sound.begin own (alone rfl (by rw [own]) (by rw [own])) lasting
  | write => exact sound.write own
  | sign => exact sound.sign own
  | advance => exact sound.advance own
  | gate cursor behind =>
    exact sound.reader rfl rfl (by rw [own]; rfl) rfl (by rw [own]) (lt_of_lt_of_eq behind sound.counted) right
  | guard =>
    refine sound.reader rfl rfl (by rw [own]; rfl) rfl (by rw [own]) ?_ right
    exact ⟨_, List.getElem?_eq_getElem fits, fun _ field ne => absurd (mem_fields field) ne⟩
  | @read _ _ _ cursor got field left =>
    obtain ⟨publication, found, copied⟩ := fits
    refine sound.reader rfl rfl (by rw [own]; rfl) rfl (by rw [own]) ⟨publication, found, fun same other ne => ?_⟩ right
    rw [Field.get_put]
    split
    next eq =>
      subst eq
      exact congrArg other.get (sound.held cursor publication found same undisturbed)
    next different => exact copied same other fun in_ => (List.mem_cons.mp in_).elim different ne
  | @recheck _ receipts _ cursor got _ same =>
    obtain ⟨publication, found, copied⟩ := fits
    refine sound.reader rfl rfl (by rw [own]; rfl) rfl (by rw [own]) trivial fun receipt in_ => ?_
    rcases List.mem_append.mp in_ with old | new
    · exact right receipt old
    · rw [List.mem_singleton.mp new]
      intro desc sample
      cases sample
      exact ⟨publication, found, (desc_ext fun field => copied same field List.not_mem_nil).symm⟩
  | aside quiet head slot idle kept =>
    have unchanged : bulletin.record who site = bulletin := by
      cases site <;> first | rfl | cases quiet
    rw [unchanged]
    refine sound.reader head slot (by rw [own]; exact idle) rfl (by rw [own]) trivial fun receipt in_ => ?_
    rcases kept receipt in_ with old | ⟨skipped, lagged⟩
    · exact right receipt old
    · intro desc sample
      rw [lagged] at sample
      cases sample

end

section

variable {ring : Ring} {publisher : Bool} {receipts : List Receipt} {sent : List ChunkDesc} {cursor : Nat}
  {later : Phase}

/-- An access beside the ring's contents, between two others. -/
theorem Turn.still (quiet : site.publishes = false) (head : new.head = old.head) (slot : new.slot = old.slot) :
    Turn ring site ⟨publisher, receipts, sent, .rest⟩ ⟨publisher, receipts, sent, .rest⟩ old new :=
  .aside quiet head slot rfl fun _ => .inl

theorem follows_publish (desc : ChunkDesc) :
    (ring.publish desc).Leads (Turn ring) ⟨true, receipts, sent ++ [desc], .rest⟩ ⟨true, receipts, sent, .rest⟩ := by
  refine follows_bind (follows_load fun mem => ⟨_, .begin desc, ?_⟩)
  have copies : ∀ left, (forEach (fun field => store (.writeDesc mem.head field)
      (fieldOf (ring.slotIndex mem.head) field) (field.get desc)) left).Leads (Turn ring)
      ⟨true, receipts, sent, .writing mem.head desc []⟩
      ⟨true, receipts, sent, .writing mem.head desc left⟩ := by
    intro left
    induction left with
    | nil => rfl
    | cons field left ih => exact follows_bind (follows_store fun _ => ⟨_, .write, ih⟩)
  refine follows_then (copies fields) fun _ _ same => ?_
  subst same
  refine follows_bind (follows_store fun _ => ⟨_, .sign, ?_⟩)
  refine follows_bind (follows_store fun _ => ⟨_, .advance, ?_⟩)
  exact follows_bind (follows_load fun _ => ⟨_, .still rfl rfl rfl, rfl⟩)

/-- What a read leaves behind: its outcome among the receipts. -/
def Outcome (publisher : Bool) (receipts : List Receipt) (sent : List ChunkDesc) (cursor : Nat)
    (outcome : ReadOutcome) (later : Phase) : Prop :=
  later = ⟨publisher, match outcome with
    | .sample desc => receipts ++ [⟨cursor, .sample desc⟩]
    | .lagged skipped _ => receipts ++ [⟨cursor, .lagged skipped⟩]
    | .empty => receipts, sent, .rest⟩

theorem kept_lagged : ∀ receipt ∈ receipts ++ [⟨cursor, .lagged skipped⟩], receipt ∈ receipts ∨
      ∃ skipped, receipt.msg = .lagged skipped := by
  intro receipt member
  rcases List.mem_append.mp member with old | new
  · exact .inl old
  · exact .inr ⟨skipped, by rw [List.mem_singleton.mp new]⟩

theorem follows_lapped : (ring.lapped cursor).Follows (Turn ring) (Outcome publisher receipts sent cursor)
    ⟨publisher, receipts, sent, .rest⟩ :=
  follows_bind (follows_load fun _ => ⟨_, .aside rfl rfl rfl rfl kept_lagged, rfl⟩)

theorem follows_readFields (cursor : Nat) (left : List Field) (got : ChunkDesc) :
    (ring.readFields cursor left got).Follows (Turn ring)
      (fun desc later => later = ⟨publisher, receipts, sent, .reading cursor desc []⟩)
      ⟨publisher, receipts, sent, .reading cursor got left⟩ := by
  induction left generalizing got with
  | nil => rfl
  | cons field left ih => exact follows_bind (follows_load fun _ => ⟨_, .read, ih _⟩)

theorem follows_readAt (cursor : Nat) :
    (ring.readAt cursor).Follows (Turn ring) (Outcome publisher receipts sent cursor)
      ⟨publisher, receipts, sent, .rest⟩ := by
  refine follows_load_ite (fun mem _ => ⟨_, .still rfl rfl rfl, rfl⟩) fun mem behind => ?_
  by_cases far : ring.capacity < headOf.get mem - cursor
  · refine ⟨⟨publisher, receipts ++ [⟨cursor, .lagged (mem.head - ring.capacity - cursor)⟩], sent, .rest⟩,
      .aside rfl rfl rfl rfl kept_lagged, ?_⟩
    rw [if_pos far]
    exact rfl
  refine ⟨_, .gate cursor (not_le.mp behind), ?_⟩
  rw [if_neg far]
  have overtaken {guarded : RingMemory} {site : RingSite} {stage : Stage} (plain : site.publishes = false)
      (reads : stage.publishing = false) : ∃ later,
      Turn ring site ⟨publisher, receipts, sent, stage⟩ later guarded guarded ∧
        (ring.lapped cursor).Follows (Turn ring) (Outcome publisher receipts sent cursor) later :=
    ⟨⟨publisher, receipts, sent, .rest⟩, .aside plain rfl rfl reads (fun _ => .inl), follows_lapped⟩
  refine follows_load_ite (fun _ _ => overtaken rfl rfl) fun _ _ => ⟨_, .guard, ?_⟩
  refine follows_seq (follows_readFields cursor fields _) fun desc => ?_
  exact follows_load_ite (fun _ _ => overtaken rfl rfl) fun _ same => ⟨_, .recheck (not_not.mp same), rfl⟩

/-- An access beside `head` and the slots. -/
def Beside (site : RingSite) (update : RingMemory → RingMemory) : Prop :=
  site.publishes = false ∧ ∀ memory, (update memory).head = memory.head ∧ (update memory).slot = memory.slot

theorem follows_beside {code : RingAct Value} (every : code.Every Beside) :
    code.Leads (Turn ring) ⟨publisher, receipts, sent, .rest⟩ ⟨publisher, receipts, sent, .rest⟩ :=
  follows_of_every (every_mono every fun _ _ beside mem =>
    .still beside.1 (beside.2 mem).1 (beside.2 mem).2)

variable (subscriber : Subscriber)

theorem every_syncReliable : subscriber.syncReliable.Every Beside := by
  unfold Subscriber.syncReliable
  split
  · exact ⟨⟨rfl, fun _ => ⟨rfl, rfl⟩⟩, fun _ => trivial⟩
  · trivial

theorem every_drop : subscriber.drop.Every Beside := by
  unfold Subscriber.drop
  split
  · exact ⟨⟨rfl, fun _ => ⟨rfl, rfl⟩⟩, fun _ => trivial⟩
  · trivial

theorem every_registerAmong (cursor : Nat) (indices : List Nat) :
    (Ring.registerAmong cursor indices).Every Beside := by
  induction indices with
  | nil => trivial
  | cons index rest ih =>
    refine every_bind ⟨⟨rfl, fun mem => ?_⟩, fun _ => trivial⟩ fun out => ?_
    · dsimp only
      split <;> exact ⟨rfl, rfl⟩
    · cases out with
      | none => trivial
      | some => exact ih

theorem every_minAmong (indices : List Nat) (least : Option Nat) : (Ring.minAmong indices least).Every Beside := by
  induction indices generalizing least with
  | nil => trivial
  | cons index rest ih => exact every_bind ⟨⟨rfl, fun _ => ⟨rfl, rfl⟩⟩, fun _ => trivial⟩ fun _ => ih _

theorem every_wouldBackpressure : ring.wouldBackpressure.Every Beside := by
  refine every_bind (every_minAmong _ none) fun least => ?_
  cases least with
  | none => trivial
  | some => exact every_bind ⟨⟨rfl, fun _ => ⟨rfl, rfl⟩⟩, fun _ => trivial⟩ fun _ => trivial

theorem every_fetchWaiters (site : RingSite) (quiet : site.publishes = false) (change : Nat → Nat) :
    (fetchUpdate site waitersOf change).Every Beside := ⟨⟨quiet, fun _ => ⟨rfl, rfl⟩⟩, fun _ => trivial⟩

/-- What `try_recv` and `recv` leave behind. -/
def Delivered (publisher : Bool) (receipts : List Receipt) (sent : List ChunkDesc) (subscriber : Subscriber)
    (outcome : Option (Subscriber × Msg)) (later : Phase) : Prop :=
  match outcome with
  | none => later = ⟨publisher, receipts, sent, .rest⟩
  | some (next, msg) => later = ⟨publisher, receipts ++ [⟨subscriber.cursor, msg⟩], sent, .rest⟩ ∧
      ∀ desc, msg = .sample desc → next.cursor = (subscriber.cursor + 1) % 2 ^ 64

theorem follows_tryRecv :
    (subscriber.tryRecv ring).Follows (Turn ring) (Delivered publisher receipts sent subscriber)
      ⟨publisher, receipts, sent, .rest⟩ := by
  refine follows_then (follows_readAt subscriber.cursor) fun out later left => ?_
  cases out with
  | sample desc =>
    subst left
    refine follows_then (follows_beside (every_syncReliable _)) fun _ _ same => ?_
    exact ⟨same, fun _ _ => rfl⟩
  | lagged skipped newCursor =>
    subst left
    refine follows_then (follows_beside (every_syncReliable _)) fun _ _ same => ?_
    exact ⟨same, nofun⟩
  | empty => exact left

theorem follows_spin (tries : Nat) :
    (subscriber.spin ring tries).Follows (Turn ring) (Delivered publisher receipts sent subscriber)
      ⟨publisher, receipts, sent, .rest⟩ := by
  induction tries with
  | zero => exact rfl
  | succ tries ih =>
    refine follows_then (follows_tryRecv subscriber) fun out later left => ?_
    cases out with
    | none =>
      subst left
      exact ih
    | some => exact left

theorem follows_recv :
    (subscriber.recv ring).Follows (Turn ring)
      (fun received => Delivered publisher receipts sent subscriber (some received))
      ⟨publisher, receipts, sent, .rest⟩ := by
  refine follows_repeatLoop (fun phase begun => ?_) (rfl : Phase.mk publisher receipts sent .rest = _)
  subst begun
  refine follows_then (follows_spin subscriber spinLimit) fun out later left => ?_
  cases out with
  | some => exact left
  | none =>
    subst left
    refine follows_then (follows_beside (every_fetchWaiters _ rfl _)) fun _ _ same => ?_
    subst same
    refine follows_then (follows_tryRecv subscriber) fun out later left => ?_
    cases out with
    | some received =>
      obtain ⟨rfl, advanced⟩ := left
      refine follows_then (follows_beside (every_fetchWaiters _ rfl _)) fun _ _ same => ?_
      exact ⟨same, advanced⟩
    | none =>
      subst left
      refine follows_bind fun _ => ⟨_, .still rfl rfl rfl, ?_⟩
      refine follows_then (follows_beside (every_fetchWaiters _ rfl _)) fun _ _ same => ?_
      exact same.symm

/-- What a call's answer may be. -/
def RingCall.Answers : RingCall → RingAnswer → Prop
  | .publish _, .published _ | .publishUnpressed _, .published _ => True
  | .subscribe, .subscribed _ | .subscribeFrom _, .subscribed _ => True
  | .makeReliable subscriber, .promoted later _ => later.cursor = subscriber.cursor
  | .tryRecv subscriber, .received outcome | .recv subscriber, .received outcome =>
    ∀ later desc, outcome = some (later, .sample desc) → later.cursor = (subscriber.cursor + 1) % 2 ^ 64
  | .drop _, .dropped => True
  | _, _ => False

def RingCall.publishes : RingCall → Bool
  | publish _ | publishUnpressed _ => true
  | _ => false

/-- Between calls a member's receipts are those it has been handed. -/
def Member.settled (member : Member) (sent : List ChunkDesc) : Phase :=
  ⟨member.publisher, member.received, sent, .rest⟩

/-- What a call leaves: a settled member, which has published more only if it
was to. -/
def Settled (member : Member) (sent : List ChunkDesc) (call : RingCall) (later : Phase) : Prop :=
  ∃ more, later = member.settled (sent ++ more) ∧ (call.publishes = false → more = [])

variable {member : Member}

theorem settled_quiet (same : later = member.settled sent) : Settled member sent call later :=
  ⟨[], by rw [List.append_nil]; exact same, fun _ => rfl⟩

theorem settled_received {subscriber : Subscriber} (cursor : call.cursor = subscriber.cursor)
    (delivered : Delivered member.publisher member.received sent subscriber out later) :
    Settled (member.answered call (.received out)) sent call later := by
  refine settled_quiet ?_
  cases out with
  | none => exact delivered
  | some received =>
    rw [Member.answered, Member.settled, cursor]
    exact delivered.1

/-- Every call follows the protocol and leaves its member settled. -/
theorem follows_serve (may : member.may call) :
    (serve ring call).Follows (Turn ring)
      (fun answer later => Settled (member.answered call answer) sent call later ∧ call.Answers answer)
      (member.settled sent) := by
  cases call with
  | publish desc =>
    rw [Member.settled, show member.publisher = true from may]
    refine follows_map (follows_mono (follows_publish desc) fun _ _ same => ⟨⟨[desc], ?_, nofun⟩, trivial⟩)
    rw [Member.settled, Member.answered, show member.publisher = true from may]
    exact same
  | publishUnpressed desc =>
    rw [Member.settled, show member.publisher = true from may]
    refine follows_map (follows_then (follows_beside every_wouldBackpressure) fun pressed _ same => ?_)
    subst same
    cases pressed with
    | true =>
      refine ⟨settled_quiet ?_, trivial⟩
      rw [Member.settled, Member.answered, show member.publisher = true from may]
    | false =>
      refine follows_mono (follows_publish desc) fun _ _ same => ⟨⟨[desc], ?_, nofun⟩, trivial⟩
      rw [Member.settled, Member.answered, show member.publisher = true from may]
      exact same
  | subscribe =>
    refine follows_map (follows_bind (follows_load fun mem =>
      ⟨⟨member.publisher, [], sent, .rest⟩, .aside rfl rfl rfl rfl nofun, ?_⟩))
    exact ⟨settled_quiet rfl, trivial⟩
  | subscribeFrom seq =>
    refine follows_map (follows_bind (follows_bind (follows_load fun mem =>
      ⟨⟨member.publisher, [], sent, .rest⟩, .aside rfl rfl rfl rfl nofun, ?_⟩)))
    exact ⟨settled_quiet rfl, trivial⟩
  | makeReliable subscriber =>
    refine follows_map ?_
    unfold Subscriber.makeReliable
    split
    · exact ⟨settled_quiet rfl, rfl⟩
    · refine follows_then (follows_beside (every_registerAmong _ _)) fun out _ same => ?_
      subst same
      cases out with
      | ok index => exact ⟨settled_quiet rfl, rfl⟩
      | error fault => exact ⟨settled_quiet rfl, rfl⟩
  | tryRecv subscriber =>
    refine follows_map (follows_mono (follows_tryRecv subscriber) fun out later delivered => ?_)
    refine ⟨settled_received rfl delivered, fun next desc sample => ?_⟩
    subst sample
    exact delivered.2 desc rfl
  | recv subscriber =>
    refine follows_map (follows_mono (follows_recv subscriber) fun out later delivered => ?_)
    refine ⟨settled_received rfl delivered, fun next desc sample => ?_⟩
    cases sample
    exact delivered.2 desc rfl
  | drop subscriber =>
    refine follows_map (follows_mono (follows_beside (every_drop subscriber)) fun _ _ same => ?_)
    exact ⟨settled_quiet same, trivial⟩

end

section

variable {ring : Ring} {site : RingSite}

/-- A member that only reads. -/
def Phase.reads (phase : Phase) : Prop := phase.publisher = false ∧ phase.stage.publishing = false

theorem Turn.reads (turn : Turn ring site phase later old new) (reads : phase.reads) : later.reads := by
  cases turn with
  | begin => cases reads.1
  | write | sign | advance => cases reads.2
  | gate | guard | read | recheck | aside => exact ⟨reads.1, rfl⟩

theorem sound_blank (publishes : Nat → Bool) :
    Sound ring .empty blank (fun who => ⟨publishes who, [], [], .rest⟩) where
  counted := rfl
  bounded := by decide
  numbered := nofun
  calm _ := rfl
  held := nofun
  fits _ := ⟨trivial, by simp [Stage.publishing, Bulletin.empty], nofun, rfl⟩

/-- Nobody reads under a producer's pen, and the sequence numbers last. -/
abbrev Orderly (ring : Ring) (_ : Nat) (site : RingSite) (memory : RingMemory) (bulletin : Bulletin) : Prop :=
  Undisturbed ring site bulletin ∧ Lasting site memory

/-- What one producer and its subscribers keep. -/
def Sole (ring : Ring) (bulletin : Bulletin) (memory : RingMemory) (phases : Nat → Phase) : Prop :=
  Sound ring bulletin memory phases ∧ ∀ actor, actor ≠ 0 → (phases actor).reads

theorem keeps_sole (permitted : RingCall → Prop) :
    (members ring permitted (Orderly ring)).Keeps (fun _ => Turn ring) (Sole ring) := by
  rintro _ who site later old new bulletin phases ⟨sound, sole⟩ ⟨undisturbed, lasting⟩ turn
  refine ⟨sound.turn (fun _ publisher resting => ?_) undisturbed lasting turn rfl, fun other ne => ?_⟩
  · -- whoever is inside is the producer, and the producer is at rest
    have producer : who = 0 := by
      by_contra other
      rw [(sole who other).1] at publisher
      cases publisher
    cases inside : bulletin.inside with
    | none => rfl
    | some other =>
      have publishing := (sound.fits other).inside.mpr inside
      have same : other = who := by
        by_contra ne
        rw [(sole other (producer ▸ ne)).2] at publishing
        cases publishing
      rw [same, resting] at publishing
      cases publishing
  · by_cases same : other = who
    · subst other
      rw [update_self]
      exact turn.reads (sole who ne)
    · rw [update_of_ne same]
      exact sole other ne

theorem sole_of_reachable (reached : (members ring permitted (Orderly ring)).Reachable opened run) :
    (members ring permitted (Orderly ring)).Guided (fun _ => Turn ring) (Sole ring)
      (fun in_ phase => ∃ sent, phase = in_.settled sent) (fun _ _ => True) run := by
  refine guided_of_reachable ?_ reached (fun _ _ _ _ _ _ _ _ => trivial) ?_ (keeps_sole permitted)
  · refine ⟨_, ⟨sound_blank fun who => decide (who = 0), fun who ne => ?_⟩, fun who => ?_⟩
    · exact ⟨decide_eq_false ne, rfl⟩
    · by_cases producer : who = 0 <;> simp [opened, producer, Member.settled, Member.producer, Member.consumer]
  · rintro in_ call phase ⟨-, may⟩ ⟨sent, rfl⟩
    exact ⟨trivial, follows_mono (follows_serve may) fun _ _ ⟨⟨more, same, _⟩, _⟩ => ⟨sent ++ more, same⟩⟩

/-- Each sample a member has been handed at a cursor is what was published there. -/
def Member.Informed (member : Member) (bulletin : Bulletin) : Prop :=
  ∀ receipt ∈ member.received, receipt.Right bulletin

theorem Member.Informed.recorded {in_ : Member}
    (informed : in_.Informed bulletin) : in_.Informed (bulletin.record who site) :=
  fun receipt received => (informed receipt received).recorded

/-- A producer and any number of subscribers: whatever the interleaving, samples
are right as long as nobody reads under the producer's pen. -/
theorem informed_of_reachable {permitted : RingCall → Prop}
    {config : Config RingMemory RingSite Bulletin RingCall Member RingAnswer}
    (reached : (members ring permitted (Orderly ring)).Reachable opened config) (actor : Nat) :
    (config.thread actor).own.Informed config.history := by
  refine known_of_idle (fun _ _ _ => id) (fun _ _ _ _ _ _ => Member.Informed.recorded) ?_ ?_ reached
  · intro config reached member idle
    obtain ⟨phases, ⟨sound, -⟩, threads⟩ := sole_of_reachable reached
    have resting := threads actor
    rw [idle] at resting
    obtain ⟨sent, same⟩ := resting
    have right := (sound.fits actor).right
    rw [same] at right
    exact right
  · intro receipt received
    by_cases producer : actor = 0 <;>
      simp [opened, producer, Thread.own, Member.producer, Member.consumer] at received

end

section

instance (ring : Ring) (site : RingSite) (bulletin : Bulletin) : Decidable (Undisturbed ring site bulletin) := by
  unfold Undisturbed
  split <;> infer_instance

instance (site : RingSite) (memory : RingMemory) : Decidable (Lasting site memory) := by
  unfold Lasting
  split <;> infer_instance

/-- A ring of one slot. -/
def single : Ring := ⟨1, ⟨0, rfl⟩, by decide⟩

def message (number : Nat) : ChunkDesc := ⟨1, 0, number, 64, 7⟩

abbrev everyone (allowed : Nat → RingSite → RingMemory → Bulletin → Prop) :
    Actors RingMemory RingSite Bulletin RingCall Member RingAnswer :=
  members single (fun _ => True) allowed

/-- A subscriber has checked the guard of the first message when the producer
overwrites the descriptor with the second; the guard is still the first's when
the subscriber checks it again. -/
def overwriting : List (Stretch RingCall) :=
  [.begin 0 (.publish (message 0)), .run 0 20 0, .begin 1 (.subscribeFrom 0), .run 1 5 0,
    .begin 1 (.tryRecv ⟨0, none⟩), .run 1 2 0, .begin 0 (.publish (message 1)), .run 0 6 0, .run 1 10 0]

def overwritten : Config RingMemory RingSite Bulletin RingCall Member RingAnswer :=
  (everyone anyAccess).follow (overwriting ++ [.run 0 10 0]) opened

/-- The second message is handed out at the cursor of the first. -/
theorem overwritten_not_informed :
    (everyone anyAccess).Reachable opened overwritten ∧
      ¬ (overwritten.thread 1).own.Informed overwritten.history := by
  refine ⟨reachable_follow _ .refl, fun informed => ?_⟩
  have received : (overwritten.thread 1).own.received = [⟨0, .sample (message 1)⟩] := by decide +kernel
  have published : overwritten.history.published = [⟨0, 0, message 0⟩, ⟨0, 1, message 1⟩] := by decide +kernel
  obtain ⟨publication, found, desc⟩ :=
    informed ⟨0, .sample (message 1)⟩ (by rw [received]; exact List.mem_cons_self) _ rfl
  rw [published] at found
  cases found
  exact absurd desc (by decide)

/-- The same calls, one after the other. -/
def successive : List (Stretch RingCall) :=
  [.begin 0 (.publish (message 0)), .run 0 20 0, .begin 1 (.subscribeFrom 0), .run 1 5 0,
    .begin 1 (.tryRecv ⟨0, none⟩), .run 1 20 0, .begin 0 (.publish (message 1)), .run 0 20 0,
    .begin 1 (.recv ⟨1, none⟩), .run 1 20 1]

def delivered : Config RingMemory RingSite Bulletin RingCall Member RingAnswer :=
  (everyone (Orderly single)).follow successive opened

theorem delivered_informed :
    (delivered.thread 1).own.received = [⟨0, .sample (message 0)⟩, ⟨1, .sample (message 1)⟩] ∧
      (delivered.thread 1).own.Informed delivered.history := by
  have reached : (everyone (Orderly single)).Reachable opened delivered :=
    reachable_follow successive .refl
  exact ⟨by decide +kernel, informed_of_reachable reached 1⟩

end

end ShmActors.Broadcast
