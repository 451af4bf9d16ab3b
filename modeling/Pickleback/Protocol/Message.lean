import Pickleback.BufferPool
import Pickleback.Lib.Bytes

/-!
# Messages

`protocol/message.rs`: the message header, fragments, and the parser.

Whether `u16` arithmetic panics or wraps on overflow depends on the build. The parser takes this as
`overflowChecks`: it matters for a fragment header with `num_fragments = 0`.
-/

namespace Pickleback

open ByteCodec

/-- `MessageSizeMode`. -/
inductive MessageSizeMode where
  | small
  | large
  deriving DecidableEq, Repr

/-- `MessageSizeMode::from(usize)`: payloads over 255 bytes need more than a `u8` size prefix. -/
def MessageSizeMode.ofLength (n : ℕ) : MessageSizeMode := if n > 255 then .large else .small

/-- `Fragment`. -/
structure Fragment where
  index : UInt16
  numFragments : UInt16
  parentId : MessageId
  deriving DecidableEq, Repr

namespace Fragment

/-- `Fragment::is_last`. -/
def isLast (f : Fragment) : Bool := f.index == f.numFragments - 1

/-- `Fragment::header_size`. -/
def headerSize (f : Fragment) (sizeMode : MessageSizeMode) : ℕ :=
  (match sizeMode with
    | .small => 2
    | .large => 4) + if f.isLast then 2 else 0

/-- `Fragment::write_header`: the bytes, or the error of a short fragment that is not the last. The
assertion on the length of the last fragment is the one of `Message.newOutbound`. -/
def writeHeader (f : Fragment) (payloadLen : UInt16) (sizeMode : MessageSizeMode) :
    Except PicklebackError (List UInt8) :=
  let numbers := match sizeMode with
    | .small => [f.index.toUInt8, f.numFragments.toUInt8]
    | .large => writeU16 f.index ++ writeU16 f.numFragments
  if f.isLast then .ok (numbers ++ writeU16 payloadLen)
  else if payloadLen != 1024 then .error .invalidMessage
  else .ok numbers

/-- The two numbers at the front of a fragment header. -/
def parseNumbers (sizeMode : MessageSizeMode) (bs : List UInt8) :
    Option (UInt16 × UInt16 × List UInt8) :=
  match sizeMode with
  | .small =>
    (readU8 bs).bind fun i => (readU8 i.2).map fun n => (i.1.toUInt16, n.1.toUInt16, n.2)
  | .large => (readU16 bs).bind fun i => (readU16 i.2).map fun n => (i.1, n.1, n.2)

/-- `Fragment::parse_header`: the fragment, the payload size and the rest of the input. -/
def parseHeader (overflowChecks : Bool) (bs : List UInt8) (sizeMode : MessageSizeMode)
    (id : MessageId) : Except Fault (Fragment × UInt16 × List UInt8) :=
  match parseNumbers sizeMode bs with
  | none => .error (.error (.io .unexpectedEof))
  | some (fragmentId, numFragments, rest) =>
    if overflowChecks && numFragments == 0 then .error (.panic .numFragmentsUnderflow)
    else
      let fragment : Fragment := ⟨fragmentId, numFragments, id - fragmentId⟩
      if fragmentId == numFragments - 1 then
        match readU16 rest with
        | none => .error (.error (.io .unexpectedEof))
        | some (payloadSize, rest) => .ok (fragment, payloadSize, rest)
      else .ok (fragment, 1024, rest)

end Fragment

/-- `Message`. Outbound, the buffer holds headers and payload; parsed, only the payload. -/
structure Message where
  id : MessageId
  sizeMode : MessageSizeMode
  channel : UInt8
  buffer : PooledBuffer
  fragment : Option Fragment
  deriving DecidableEq, Repr

namespace Message

/-- `Message::header_size`. -/
def headerSize (fragmented : Option Fragment) (sizeMode : MessageSizeMode) : ℕ :=
  1 + (match fragmented with
    | some frag => frag.headerSize sizeMode
    | none => match sizeMode with
      | .large => 2
      | .small => 1) + 2

/-- The prefix byte: fragment flag, size mode flag, a spare bit, and the channel. -/
def prefixByte (fragment : Option Fragment) (sizeMode : MessageSizeMode) (channel : UInt8) :
    UInt8 :=
  let fragmentFlag : UInt8 := if fragment.isSome then 1 else 0
  let sizeFlag : UInt8 := if sizeMode = .large then 2 else 0
  fragmentFlag ||| sizeFlag ||| (channel <<< 3)

/-- `Message::write_headers`. -/
def writeHeaders (id : MessageId) (fragment : Option Fragment) (sizeMode : MessageSizeMode)
    (channel : UInt8) (payloadLen : ℕ) : Except PicklebackError (List UInt8) :=
  let start := prefixByte fragment sizeMode channel :: writeU16 id
  match fragment with
  | some fragment =>
    (fragment.writeHeader (UInt16.ofNat payloadLen) sizeMode).map fun bytes => start ++ bytes
  | none => match sizeMode with
    | .small => .ok (start ++ [UInt8.ofNat payloadLen])
    | .large => .ok (start ++ writeU16 (UInt16.ofNat payloadLen))

/-- `Message::new_outbound`. -/
def newOutbound (pool : BufPool) (id : MessageId) (channel : UInt8) (payload : List UInt8)
    (fragmented : Option Fragment) : Except Panic (Message × BufPool) :=
  if channel < 64 ∧ payload.length ≤ 1024 then
    let sizeMode := MessageSizeMode.ofLength payload.length
    let buf := pool.getBuffer (headerSize fragmented sizeMode + payload.length)
    match writeHeaders id fragmented sizeMode channel payload.length with
    | .error _ => .error .badOutboundMessage
    | .ok headers => .ok ({
        id := id
        sizeMode := sizeMode
        channel := channel
        buffer := (buf.1.write headers).write payload
        fragment := fragmented }, buf.2)
  else .error .badOutboundMessage

/-- `Message::size`. It adds the header length to the buffer's, which in an outbound message
contains the headers already. -/
def size (m : Message) : ℕ :=
  m.buffer.data.length + 1
    + (match m.fragment, m.sizeMode with
      | none, .small => 1
      | none, .large => 2
      | some f, .small => if f.isLast then 5 else 3
      | some f, .large => if f.isLast then 7 else 5)
    + 2

/-- `Message::clone`. -/
def clone (m : Message) : Message := { m with buffer := m.buffer.clone }

/-- The part of `Message::parse` that reads the message's headers: id, size mode, channel, fragment,
payload size, and the rest of the input. -/
def parseHeaders (overflowChecks : Bool) (bs : List UInt8) :
    Except Fault (MessageId × MessageSizeMode × UInt8 × Option Fragment × UInt16 × List UInt8) :=
  match readU8 bs with
  | none => .error (.error (.io .unexpectedEof))
  | some (prefixByte, rest) =>
    let sizeMode : MessageSizeMode := if prefixByte &&& 2 != 0 then .large else .small
    match readU16 rest with
    | none => .error (.error (.io .unexpectedEof))
    | some (id, rest) =>
      let channel := prefixByte >>> 3
      if prefixByte &&& 1 != 0 then
        match Fragment.parseHeader overflowChecks rest sizeMode id with
        | .error f => .error f
        | .ok (fragment, payloadSize, rest) =>
          .ok (id, sizeMode, channel, some fragment, payloadSize, rest)
      else match sizeMode with
        | .small => match readU8 rest with
          | none => .error (.error (.io .unexpectedEof))
          | some (payloadSize, rest) =>
            .ok (id, sizeMode, channel, none, payloadSize.toUInt16, rest)
        | .large => match readU16 rest with
          | none => .error (.error (.io .unexpectedEof))
          | some (payloadSize, rest) => .ok (id, sizeMode, channel, none, payloadSize, rest)

/-- `Message::parse`. The buffer is taken from the pool before the length check, so a truncated
payload costs the pool a buffer. -/
def parse (overflowChecks : Bool) (pool : BufPool) (bs : List UInt8) :
    BufPool × Except Fault (Message × List UInt8) :=
  match parseHeaders overflowChecks bs with
  | .error f => (pool, .error f)
  | .ok (id, sizeMode, channel, fragment, payloadSize, rest) =>
    let buf := pool.getBuffer payloadSize.toNat
    if rest.length < payloadSize.toNat then (buf.2, .error (.error .invalidMessage))
    else
      (buf.2, .ok ({
        id := id
        sizeMode := sizeMode
        channel := channel
        buffer := buf.1.write (rest.take payloadSize.toNat)
        fragment := fragment }, rest.drop payloadSize.toNat))

/-! ### How parsing fails -/

theorem parseHeaders_eq_error {overflowChecks : Bool} {bs : List UInt8} {e : PicklebackError}
    (h : parseHeaders overflowChecks bs = .error (.error e)) : e = .io .unexpectedEof := by
  unfold parseHeaders Fragment.parseHeader at h
  grind

/-- Parsing a message fails with a truncated header or a truncated payload. -/
theorem parse_eq_error {overflowChecks : Bool} {pool pool' : BufPool} {bs : List UInt8}
    {e : PicklebackError} (h : parse overflowChecks pool bs = (pool', .error (.error e))) :
    e = .io .unexpectedEof ∨ e = .invalidMessage := by
  unfold parse at h
  split at h
  · next f hf =>
    simp only [Prod.mk.injEq, Except.error.injEq] at h
    exact Or.inl (parseHeaders_eq_error (h.2 ▸ hf))
  · dsimp only at h
    split at h
    · simp only [Prod.mk.injEq, Except.error.injEq, Fault.error.injEq] at h
      exact Or.inr h.2.symm
    · simp at h

end Message

end Pickleback
