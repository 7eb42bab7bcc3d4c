import ShmActors.Lib.Reader
import ShmActors.Node.Framing

/-! The bodies of the control frames, `shm-runtime/src/protocol.rs`: how requests
and responses are encoded, and the reader that decodes them. -/

namespace ShmActors.Node

open Lib

section

def putU32 (value : UInt32) : Bytes := leBytes 4 value.toNat

/-- The UTF-8 of a string. -/
def asBytes (text : String) : Bytes := text.toByteArray.data.toList

/-- `put_str`. What does not fit under a `u16` is cut off. -/
def putStr (text : String) : Bytes :=
  let len := min (asBytes text).length (2 ^ 16 - 1)
  leBytes 2 len ++ (asBytes text).take len

/-- `put_bytes`. What does not fit under a `u32` is cut off. -/
def putBytes (bytes : Bytes) : Bytes :=
  let len := min bytes.length (2 ^ 32 - 1)
  leBytes 4 len ++ bytes.take len

/-- `ChunkDesc`, with its `_pad`. -/
structure WireDesc where
  segmentId : UInt32
  generation : UInt32
  offset : UInt32
  len : UInt32
  schemaId : UInt32
  pad : UInt32
  deriving DecidableEq, Repr

def putDesc (desc : WireDesc) : Bytes :=
  putU32 desc.segmentId ++ putU32 desc.generation ++ putU32 desc.offset ++ putU32 desc.len ++
    putU32 desc.schemaId ++ putU32 desc.pad

end

section

abbrev Decoder := Reader FrameError

def word (message : String) : Decoder UInt32 := do
  return UInt32.ofNat (← Reader.int 4 (.protocol message))

def Decoder.u8 : Decoder Nat := Reader.int 1 (.protocol "short read: u8")

def Decoder.u32 : Decoder UInt32 := word "short read: u32"

def Decoder.string : Decoder String := do
  let len ← Reader.int 2 (.protocol "short read: str len")
  let body ← Reader.take len (.protocol "short read: str body")
  match String.fromUTF8? ⟨body.toArray⟩ with
  | some text => return text
  | none => throw (.protocol "invalid utf-8 in string")

def Decoder.bytes : Decoder Bytes := do
  let len ← Reader.int 4 (.protocol "short read: bytes len")
  Reader.take len (.protocol "short read: bytes body")

/-- The 24 bytes are taken at once; word by word, the same failure comes at the
same lengths. -/
def Decoder.desc : Decoder WireDesc := do
  let message := "short read: desc"
  return ⟨← word message, ← word message, ← word message, ← word message, ← word message, ← word message⟩

end

section

inductive Request where
  | register (name : String)
  | heartbeat
  | createTopic (topic : String)
  | subscribe (topic : String)
  | published (desc : WireDesc)
  | pinned (desc : WireDesc)
  | bye
  | openArtifact (name : String)
  | openTaskQueue
  | internSchema (schemaBytes : Bytes)
  | resolveSchema (schemaId : UInt32)
  | internKey (keyBytes : Bytes)
  | resolveKey (keyId : UInt32)
  | openStore

inductive Response where
  | registered (actorId journalIdx payloadSegId journalSegId : UInt32)
  | granted (ringSegId regionLen : UInt32)
  | ack
  | error (message : String)
  | artifactGranted (nameId headSegId dataSegId : UInt32)
  | taskQueueGranted (queueSegId regionLen : UInt32)
  | schemaInterned (schemaId : UInt32)
  | schemaResolved (schemaBytes : Bytes)
  | keyInterned (keyId : UInt32)
  | keyResolved (keyBytes : Bytes)
  | storeGranted (catalogSegId catalogLen headSegId headLen dataSegId dataLen : UInt32)

def Request.encode : Request → Bytes
  | .register name => 1 :: putStr name
  | .heartbeat => [2]
  | .createTopic topic => 3 :: putStr topic
  | .subscribe topic => 4 :: putStr topic
  | .published desc => 5 :: putDesc desc
  | .pinned desc => 6 :: putDesc desc
  | .bye => [7]
  | .openArtifact name => 8 :: putStr name
  | .openTaskQueue => [9]
  | .internSchema schemaBytes => 10 :: putBytes schemaBytes
  | .resolveSchema schemaId => 11 :: putU32 schemaId
  | .internKey keyBytes => 12 :: putBytes keyBytes
  | .resolveKey keyId => 13 :: putU32 keyId
  | .openStore => [14]

open Decoder in
/-- The fields behind the tag. -/
def Request.body : Nat → Decoder Request
  | 1 => return .register (← string)
  | 2 => return .heartbeat
  | 3 => return .createTopic (← string)
  | 4 => return .subscribe (← string)
  | 5 => return .published (← desc)
  | 6 => return .pinned (← desc)
  | 7 => return .bye
  | 8 => return .openArtifact (← string)
  | 9 => return .openTaskQueue
  | 10 => return .internSchema (← bytes)
  | 11 => return .resolveSchema (← u32)
  | 12 => return .internKey (← bytes)
  | 13 => return .resolveKey (← u32)
  | 14 => return .openStore
  | _ => throw (.protocol "unknown request tag")

def Response.encode : Response → Bytes
  | .registered actorId journalIdx payloadSegId journalSegId =>
    128 :: (putU32 actorId ++ putU32 journalIdx ++ putU32 payloadSegId ++ putU32 journalSegId)
  | .granted ringSegId regionLen => 129 :: (putU32 ringSegId ++ putU32 regionLen)
  | .ack => [130]
  | .error message => 131 :: putStr message
  | .artifactGranted nameId headSegId dataSegId => 132 :: (putU32 nameId ++ putU32 headSegId ++ putU32 dataSegId)
  | .taskQueueGranted queueSegId regionLen => 133 :: (putU32 queueSegId ++ putU32 regionLen)
  | .schemaInterned schemaId => 134 :: putU32 schemaId
  | .schemaResolved schemaBytes => 135 :: putBytes schemaBytes
  | .keyInterned keyId => 136 :: putU32 keyId
  | .keyResolved keyBytes => 137 :: putBytes keyBytes
  | .storeGranted catalogSegId catalogLen headSegId headLen dataSegId dataLen =>
    138 :: (putU32 catalogSegId ++ putU32 catalogLen ++ putU32 headSegId ++ putU32 headLen ++ putU32 dataSegId ++
      putU32 dataLen)

open Decoder in
def Response.body : Nat → Decoder Response
  | 128 => return .registered (← u32) (← u32) (← u32) (← u32)
  | 129 => return .granted (← u32) (← u32)
  | 130 => return .ack
  | 131 => return .error (← string)
  | 132 => return .artifactGranted (← u32) (← u32) (← u32)
  | 133 => return .taskQueueGranted (← u32) (← u32)
  | 134 => return .schemaInterned (← u32)
  | 135 => return .schemaResolved (← bytes)
  | 136 => return .keyInterned (← u32)
  | 137 => return .keyResolved (← bytes)
  | 138 => return .storeGranted (← u32) (← u32) (← u32) (← u32) (← u32) (← u32)
  | _ => throw (.protocol "unknown response tag")

/-- `decode`, from the start of the body. -/
def decoded {Message : Type} (body : Nat → Decoder Message) (source : Slice) : Except FrameError Message :=
  ((Decoder.u8 >>= body) source 0).map Prod.fst

def Request.decode : Slice → Except FrameError Request := decoded Request.body

def Response.decode : Slice → Except FrameError Response := decoded Response.body

end

section

variable {text : String} {bytes : Bytes}

@[simp] theorem length_putU32 (val : UInt32) : (putU32 val).length = 4 := length_leBytes ..

theorem word_ok : word message source pos = .ok (val, stop) ↔ source.Has pos (putU32 val) ∧ stop = pos + 4 := by
  refine Reader.bind_ok.trans ⟨?_, ?_⟩
  · rintro ⟨number, _, read, done⟩
    obtain ⟨fits, has, rfl⟩ := Reader.int_ok.mp read
    obtain ⟨rfl, rfl⟩ := Reader.pure_ok.mp done
    refine ⟨?_, rfl⟩
    rwa [putU32, UInt32.toNat_ofNat_of_lt' fits]
  · rintro ⟨has, rfl⟩
    exact ⟨_, _, Reader.int_ok.mpr ⟨val.toNat_lt, has, rfl⟩, Reader.pure_ok.mpr ⟨UInt32.ofNat_toNat.symm, rfl⟩⟩

theorem fromUTF8?_eq_some : String.fromUTF8? ⟨body.toArray⟩ = some text ↔ asBytes text = body := by
  unfold String.fromUTF8? asBytes
  constructor
  · intro got
    split at got
    · cases got
      rfl
    · cases got
  · rintro rfl
    exact dif_pos text.isValidUTF8

/-- The string is written whole. -/
def Short (text : String) : Prop := (asBytes text).length < 2 ^ 16

theorem putStr_eq (short : Short text) : putStr text = leBytes 2 (asBytes text).length ++ asBytes text := by
  have whole : min (asBytes text).length (2 ^ 16 - 1) = (asBytes text).length := by
    unfold Short at short
    omega
  rw [putStr, whole, List.take_length]

theorem string_ok :
    Decoder.string source pos = .ok (text, stop) ↔
      Short text ∧ source.Has pos (putStr text) ∧ stop = pos + (putStr text).length := by
  refine Reader.bind_ok.trans ⟨?_, ?_⟩
  · rintro ⟨len, _, read, rest⟩
    obtain ⟨fits, prefixed, rfl⟩ := Reader.int_ok.mp read
    obtain ⟨body, _, taken, ok⟩ := Reader.bind_ok.mp rest
    obtain ⟨rfl, has, rfl⟩ := Reader.take_ok.mp taken
    cases got : String.fromUTF8? ⟨body.toArray⟩ with
    | none =>
      rw [got] at ok
      cases ok
    | some read =>
      rw [got] at ok
      obtain ⟨rfl, rfl⟩ := Reader.pure_ok.mp ok
      obtain rfl := fromUTF8?_eq_some.mp got
      rw [putStr_eq fits, Slice.has_append, List.length_append, length_leBytes, Nat.add_assoc]
      exact ⟨fits, ⟨prefixed, has⟩, rfl⟩
  · rintro ⟨short, has, rfl⟩
    rw [putStr_eq short, Slice.has_append, length_leBytes] at has
    refine ⟨_, _, Reader.int_ok.mpr ⟨short, has.1, rfl⟩, Reader.bind_ok.mpr
      ⟨_, _, Reader.take_ok.mpr ⟨rfl, has.2, rfl⟩, ?_⟩⟩
    rw [fromUTF8?_eq_some.mpr rfl]
    exact Reader.pure_ok.mpr ⟨rfl, by rw [putStr_eq short, List.length_append, length_leBytes, Nat.add_assoc]⟩

theorem putBytes_eq (short : bytes.length < 2 ^ 32) : putBytes bytes = leBytes 4 bytes.length ++ bytes := by
  have whole : min bytes.length (2 ^ 32 - 1) = bytes.length := by omega
  rw [putBytes, whole, List.take_length]

theorem bytes_ok :
    Decoder.bytes source pos = .ok (bytes, stop) ↔
      bytes.length < 2 ^ 32 ∧ source.Has pos (putBytes bytes) ∧ stop = pos + (putBytes bytes).length := by
  refine Reader.bind_ok.trans ⟨?_, ?_⟩
  · rintro ⟨len, _, read, rest⟩
    obtain ⟨fits, prefixed, rfl⟩ := Reader.int_ok.mp read
    obtain ⟨rfl, has, rfl⟩ := Reader.take_ok.mp rest
    rw [putBytes_eq fits, Slice.has_append, List.length_append, length_leBytes, Nat.add_assoc]
    exact ⟨fits, ⟨prefixed, has⟩, rfl⟩
  · rintro ⟨short, has, rfl⟩
    rw [putBytes_eq short, Slice.has_append, length_leBytes] at has
    exact ⟨_, _, Reader.int_ok.mpr ⟨short, has.1, rfl⟩, Reader.take_ok.mpr
      ⟨rfl, has.2, by rw [putBytes_eq short, List.length_append, length_leBytes, Nat.add_assoc]⟩⟩

theorem desc_ok : Decoder.desc source pos = .ok (desc, stop) ↔ source.Has pos (putDesc desc) ∧ stop = pos + 24 := by
  unfold Decoder.desc putDesc
  simp only [Reader.bind_ok, Reader.pure_ok, word_ok, Slice.has_append, List.length_append, length_putU32]
  constructor
  · rintro ⟨_, _, ⟨h1, rfl⟩, _, _, ⟨h2, rfl⟩, _, _, ⟨h3, rfl⟩, _, _, ⟨h4, rfl⟩, _, _, ⟨h5, rfl⟩, _, _, ⟨h6, rfl⟩,
      rfl, rfl⟩
    exact ⟨⟨⟨⟨⟨⟨h1, h2⟩, h3⟩, h4⟩, h5⟩, h6⟩, rfl⟩
  · rintro ⟨⟨⟨⟨⟨⟨h1, h2⟩, h3⟩, h4⟩, h5⟩, h6⟩, rfl⟩
    exact ⟨_, _, ⟨h1, rfl⟩, _, _, ⟨h2, rfl⟩, _, _, ⟨h3, rfl⟩, _, _, ⟨h4, rfl⟩, _, _, ⟨h5, rfl⟩, _, _, ⟨h6, rfl⟩,
      rfl, rfl⟩

end

section

variable {source : Slice} {message : Message} {req : Request} {response : Response}

/-- What the message carries is written whole. -/
def Request.Fits : Request → Prop
  | .register text | .createTopic text | .subscribe text | .openArtifact text => Short text
  | .internSchema bytes | .internKey bytes => bytes.length < 2 ^ 32
  | _ => True

def Response.Fits : Response → Prop
  | .error message => Short message
  | .schemaResolved bytes | .keyResolved bytes => bytes.length < 2 ^ 32
  | _ => True

theorem has_tagged : source.Has 0 (UInt8.ofNat tag :: fields) ↔ source.Has 0 (leBytes 1 tag) ∧ source.Has 1 fields :=
  @Slice.has_append source 0 (leBytes 1 tag) fields

theorem decoded_ok :
    decoded body source = .ok message ↔
      ∃ tag stop, tag < 256 ∧ source.Has 0 (leBytes 1 tag) ∧ body tag source 1 = .ok (message, stop) := by
  unfold decoded
  constructor
  · intro got
    cases read : (Decoder.u8 >>= body) source 0 with
    | error reason =>
      rw [read] at got
      cases got
    | ok res =>
      rw [read] at got
      cases got
      obtain ⟨tag, _, one, rest⟩ := Reader.bind_ok.mp read
      obtain ⟨fits, has, rfl⟩ := Reader.int_ok.mp one
      exact ⟨tag, _, fits, has, rest⟩
  · rintro ⟨tag, stop, fits, has, rest⟩
    have read : (Decoder.u8 >>= body) source 0 = .ok (message, stop) :=
      Reader.bind_ok.mpr ⟨tag, 1, Reader.int_ok.mpr ⟨fits, has, rfl⟩, rest⟩
    rw [read]
    rfl

theorem decoded_of_tagged (small : tag < 256) (has : source.Has 0 (UInt8.ofNat tag :: fields))
    (rest : source.Has 1 fields → ∃ stop, body tag source 1 = .ok (message, stop)) :
    decoded body source = .ok message := by
  obtain ⟨tagged, has⟩ := has_tagged.mp has
  obtain ⟨stop, read⟩ := rest has
  exact decoded_ok.mpr ⟨tag, stop, small, tagged, read⟩

-- In both directions the cases are one per shape of the fields.
theorem Request.decode_ok : Request.decode source = .ok req ↔ req.Fits ∧ source.Has 0 req.encode := by
  constructor
  · intro got
    obtain ⟨tag, stop, -, tagged, read⟩ := decoded_ok.mp got
    unfold Request.body at read
    split at read
    case h_15 => cases read
    all_goals simp only [Reader.bind_ok, Reader.pure_ok, string_ok, bytes_ok, desc_ok, word_ok, Decoder.u32] at read
    all_goals first
      | (obtain ⟨_, _, ⟨fits, has, -⟩, rfl, -⟩ := read; exact ⟨fits, has_tagged.mpr ⟨tagged, has⟩⟩)
      | (obtain ⟨_, _, ⟨has, -⟩, rfl, -⟩ := read; exact ⟨trivial, has_tagged.mpr ⟨tagged, has⟩⟩)
      | (obtain ⟨rfl, -⟩ := read; exact ⟨trivial, tagged⟩)
  · rintro ⟨fits, has⟩
    cases req
    all_goals
      refine decoded_of_tagged (by decide) has fun has => ?_
      simp only [Request.body, Reader.bind_ok, Reader.pure_ok, string_ok, bytes_ok, desc_ok, word_ok, Decoder.u32]
      first
        | exact ⟨_, _, _, ⟨fits, has, rfl⟩, rfl, rfl⟩
        | exact ⟨_, _, _, ⟨has, rfl⟩, rfl, rfl⟩
        | exact ⟨_, trivial, rfl⟩

theorem Response.decode_ok :
    Response.decode source = .ok response ↔ response.Fits ∧ source.Has 0 response.encode := by
  constructor
  · intro got
    obtain ⟨tag, stop, -, tagged, read⟩ := decoded_ok.mp got
    unfold Response.body at read
    split at read
    case h_12 => cases read
    all_goals simp only [Reader.bind_ok, Reader.pure_ok, string_ok, bytes_ok, word_ok, Decoder.u32] at read
    all_goals first
      | (obtain ⟨_, _, ⟨fits, has, -⟩, rfl, -⟩ := read; exact ⟨fits, has_tagged.mpr ⟨tagged, has⟩⟩)
      | (obtain ⟨_, _, ⟨has, -⟩, rfl, -⟩ := read; exact ⟨trivial, has_tagged.mpr ⟨tagged, has⟩⟩)
      | (obtain ⟨rfl, -⟩ := read; exact ⟨trivial, tagged⟩)
      | (obtain ⟨_, _, ⟨h1, rfl⟩, _, _, ⟨h2, rfl⟩, rfl, -⟩ := read
         exact ⟨trivial, has_tagged.mpr ⟨tagged, Slice.has_append.mpr ⟨h1, h2⟩⟩⟩)
      | (obtain ⟨_, _, ⟨h1, rfl⟩, _, _, ⟨h2, rfl⟩, _, _, ⟨h3, rfl⟩, rfl, -⟩ := read
         exact ⟨trivial, has_tagged.mpr ⟨tagged, Slice.has_append.mpr ⟨Slice.has_append.mpr ⟨h1, h2⟩, h3⟩⟩⟩)
      | (obtain ⟨_, _, ⟨h1, rfl⟩, _, _, ⟨h2, rfl⟩, _, _, ⟨h3, rfl⟩, _, _, ⟨h4, rfl⟩, rfl, -⟩ := read
         exact ⟨trivial, has_tagged.mpr ⟨tagged, Slice.has_append.mpr
           ⟨Slice.has_append.mpr ⟨Slice.has_append.mpr ⟨h1, h2⟩, h3⟩, h4⟩⟩⟩)
      | (obtain ⟨_, _, ⟨h1, rfl⟩, _, _, ⟨h2, rfl⟩, _, _, ⟨h3, rfl⟩, _, _, ⟨h4, rfl⟩, _, _, ⟨h5, rfl⟩, _, _,
           ⟨h6, rfl⟩, rfl, -⟩ := read
         exact ⟨trivial, has_tagged.mpr ⟨tagged, Slice.has_append.mpr
           ⟨Slice.has_append.mpr ⟨Slice.has_append.mpr ⟨Slice.has_append.mpr
           ⟨Slice.has_append.mpr ⟨h1, h2⟩, h3⟩, h4⟩, h5⟩, h6⟩⟩⟩)
  · rintro ⟨fits, has⟩
    cases response
    all_goals
      refine decoded_of_tagged (by decide) has fun has => ?_
      simp only [Response.body, Reader.bind_ok, Reader.pure_ok, string_ok, bytes_ok, word_ok, Decoder.u32]
      try simp only [Slice.has_append, List.length_append, length_putU32] at has
      first
        | exact ⟨_, _, _, ⟨fits, has, rfl⟩, rfl, rfl⟩
        | exact ⟨_, _, _, ⟨has, rfl⟩, rfl, rfl⟩
        | exact ⟨_, trivial, rfl⟩
        | exact ⟨_, _, _, ⟨has.1, rfl⟩, _, _, ⟨has.2, rfl⟩, rfl, rfl⟩
        | exact ⟨_, _, _, ⟨has.1.1, rfl⟩, _, _, ⟨has.1.2, rfl⟩, _, _, ⟨has.2, rfl⟩, rfl, rfl⟩
        | exact ⟨_, _, _, ⟨has.1.1.1, rfl⟩, _, _, ⟨has.1.1.2, rfl⟩, _, _, ⟨has.1.2, rfl⟩, _, _, ⟨has.2, rfl⟩, rfl,
            rfl⟩
        | exact ⟨_, _, _, ⟨has.1.1.1.1.1, rfl⟩, _, _, ⟨has.1.1.1.1.2, rfl⟩, _, _, ⟨has.1.1.1.2, rfl⟩, _, _,
            ⟨has.1.1.2, rfl⟩, _, _, ⟨has.1.2, rfl⟩, _, _, ⟨has.2, rfl⟩, rfl, rfl⟩

theorem length_putStr (text : String) : (putStr text).length = 2 + min (asBytes text).length (2 ^ 16 - 1) := by
  simp [putStr]

theorem length_putBytes (bytes : Bytes) : (putBytes bytes).length = 4 + min bytes.length (2 ^ 32 - 1) := by
  simp [putBytes]

/-- A string that was cut off fills more than a frame. -/
theorem short_of_bounded (bounded : (tag :: putStr text).length ≤ MAX_FRAME) : Short text := by
  rw [List.length_cons, length_putStr, MAX_FRAME] at bounded
  unfold Short
  omega

theorem fits_of_bounded {bytes : Bytes} (bounded : (tag :: putBytes bytes).length ≤ MAX_FRAME) :
    bytes.length < 2 ^ 32 := by
  rw [List.length_cons, length_putBytes, MAX_FRAME] at bounded
  omega

theorem Request.fits (bounded : req.encode.length ≤ MAX_FRAME) : req.Fits := by
  cases req
  case register | createTopic | subscribe | openArtifact => exact short_of_bounded bounded
  case internSchema | internKey => exact fits_of_bounded bounded
  all_goals trivial

theorem Response.fits (bounded : response.encode.length ≤ MAX_FRAME) : response.Fits := by
  cases response
  case error => exact short_of_bounded bounded
  case schemaResolved | keyResolved => exact fits_of_bounded bounded
  all_goals trivial

end

/-- A message format, as its frames need it. -/
structure Faithful {Message : Type} (encode : Message → Bytes) (decode : Slice → Except FrameError Message) :
    Prop where
  /-- What a frame can carry is read back. -/
  decode_encode : ∀ message source, (encode message).length ≤ MAX_FRAME → source.bytes = encode message →
    decode source = .ok message
  /-- The result does not depend on a byte outside the slice. -/
  inside : ∀ source other : Slice, source.Same other → decode source = decode other
  /-- What is accepted starts with the encoding of what was read. -/
  encode_prefix : ∀ source message, decode source = .ok message → encode message <+: source.bytes

theorem faithful_of_decode_ok {Fits : Message → Prop}
    (fits : ∀ {message}, (encode message).length ≤ MAX_FRAME → Fits message) (locals : ∀ tag, Reader.Local (body tag))
    (law : ∀ {source message}, decoded body source = .ok message ↔ Fits message ∧ source.Has 0 (encode message)) :
    Faithful encode (decoded body) where
  decode_encode message source bounded same := law.mpr ⟨fits bounded, Slice.has_zero.mpr (same ▸ List.prefix_rfl)⟩
  inside source other same := by
    have read : Reader.Local (Decoder.u8 >>= body) := Reader.Local.int.bind locals
    unfold decoded
    rw [read source other same]
  encode_prefix source message got := Slice.has_zero.mp (law.mp got).2

section

open Reader

theorem word_local : Local (word message) := Local.int.bind fun _ => Local.const

theorem string_local : Local Decoder.string := by
  refine Local.int.bind fun len => Local.take.bind fun body => ?_
  cases String.fromUTF8? ⟨body.toArray⟩ <;> exact Local.const

theorem bytes_local : Local Decoder.bytes := Local.int.bind fun _ => Local.take

theorem desc_local : Local Decoder.desc :=
  word_local.bind fun _ => word_local.bind fun _ => word_local.bind fun _ => word_local.bind fun _ =>
    word_local.bind fun _ => word_local.bind fun _ => Local.const

theorem Request.body_local (tag : Nat) : Local (Request.body tag) := by
  unfold Request.body
  split
  all_goals first
    | exact Local.const
    | exact string_local.bind fun _ => Local.const
    | exact bytes_local.bind fun _ => Local.const
    | exact desc_local.bind fun _ => Local.const
    | exact word_local.bind fun _ => Local.const

theorem Response.body_local (tag : Nat) : Local (Response.body tag) := by
  unfold Response.body
  split
  all_goals first
    | exact Local.const
    | exact string_local.bind fun _ => Local.const
    | exact bytes_local.bind fun _ => Local.const
    | repeat' refine word_local.bind fun _ => ?_
      exact Local.const

end

theorem codec_faithful : Faithful Request.encode Request.decode ∧ Faithful Response.encode Response.decode :=
  ⟨faithful_of_decode_ok Request.fits Request.body_local Request.decode_ok,
    faithful_of_decode_ok Response.fits Response.body_local Response.decode_ok⟩

end ShmActors.Node
