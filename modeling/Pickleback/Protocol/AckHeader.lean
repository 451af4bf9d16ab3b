import Pickleback.SequenceBuffer
import Pickleback.Lib.Bytes

/-!
# The ack field of a packet header

`protocol/ack_header.rs`. The field is the newest received id followed by a bitfield: bit `i`, seven
to a byte from the least significant one, says whether `ack_id - i` was received, and the top bit of
each byte says whether another byte follows.

`ceil(n / 7)` is computed in the source through `f32`; on the values that occur it is exact.
-/

namespace Pickleback

open ByteCodec

/-- `AckHeader`. `bitBuffer` always has `maxAckBytes` places, the first `numBytesNeeded` of them in
use; the offsets are the position of the iterator. -/
structure AckHeader where
  ackId : PacketId
  numAcks : UInt16
  bitBuffer : List UInt8
  numBytesNeeded : ℕ
  byteOffset : ℕ
  bitOffset : ℕ
  deriving DecidableEq, Repr

/-- `(n as f32 / 7_f32).ceil()`. -/
def ceilDiv7 (n : ℕ) : ℕ := (n + 6) / 7

/-- `AckIter::with_minimum_length`, run to its end: the newest received ids, rounded up to a
multiple of seven, each with whether it is in the buffer. -/
def ackIter (seqBuffer : SequenceBuffer ReceivedMeta) (length : UInt16) : List (UInt16 × Bool) :=
  (List.range (ceilDiv7 length.toNat * 7)).map fun i =>
    let sequence := seqBuffer.sequence - UInt16.ofNat i
    (sequence, seqBuffer.existsSequence sequence)

/-- `AckIter`, between two calls of `next`. -/
structure AckIter where
  seqBuffer : SequenceBuffer ReceivedMeta
  i : UInt16
  max : UInt16

namespace AckIter

/-- `AckIter::with_minimum_length`. -/
def withMinimumLength (seqBuffer : SequenceBuffer ReceivedMeta) (length : UInt16) : AckIter where
  seqBuffer := seqBuffer
  i := 0
  max := UInt16.ofNat (ceilDiv7 length.toNat) * 7

/-- `AckIter::next`. -/
def next (it : AckIter) : Option ((UInt16 × Bool) × AckIter) :=
  if it.i ≥ it.max then none
  else
    let sequence := it.seqBuffer.sequence - it.i
    some ((sequence, it.seqBuffer.existsSequence sequence), { it with i := it.i + 1 })

/-- The items that `n` calls of `next` yield. -/
def collect : ℕ → AckIter → List (UInt16 × Bool)
  | 0, _ => []
  | n + 1, it =>
    match it.next with
    | none => []
    | some (item, it) => item :: collect n it

end AckIter

namespace AckHeader

/-- The seven data bits of one byte, starting from `mask`. -/
def packBits : UInt8 → List (UInt16 × Bool) → UInt8
  | _, [] => 0
  | mask, (_, isAcked) :: rest => (if isAcked then mask else 0) ||| packBits (mask <<< 1) rest

/-- The byte loop of `AckHeader::from_ack_iter`: seven acks to a byte, and the continuation bit as
long as the iterator has more. -/
def encodeBytes : ℕ → List (UInt16 × Bool) → List UInt8
  | 0, _ => []
  | n + 1, acks =>
    let more := acks.drop 7
    (packBits 1 (acks.take 7) ||| (if more.isEmpty then 0 else 128)) :: encodeBytes n more

/-- A byte list as the fixed array `[u8; MAX_ACK_BYTES]`. -/
def padded (bytes : List UInt8) : List UInt8 :=
  bytes ++ List.replicate (maxAckBytes - bytes.length) 0

/-- `AckHeader::from_ack_iter`. -/
def fromAckIter (numAcks : UInt16) (acks : List (UInt16 × Bool)) : Except Fault AckHeader :=
  match acks with
  | [] => .error (.panic .emptyAckIter)
  | (ackId, _) :: _ =>
    let numBytesNeeded := max (min (ceilDiv7 numAcks.toNat) 255) 1
    if numBytesNeeded > maxAckBytes then .error (.error (.io .writeZero))
    else
      .ok {
        ackId := ackId
        numAcks := numAcks
        bitBuffer := padded (encodeBytes numBytesNeeded acks)
        numBytesNeeded := numBytesNeeded
        byteOffset := 0
        bitOffset := 0 }

/-- `AckHeader::size`. -/
def size (h : AckHeader) : ℕ := 2 + h.numBytesNeeded

/-- `AckHeader::write`. -/
def write (h : AckHeader) : List UInt8 := writeU16 h.ackId ++ h.bitBuffer.take h.numBytesNeeded

/-- The byte loop of `AckHeader::parse`: at most `n` bytes, up to one without continuation bit. -/
def parseBytes : ℕ → List UInt8 → Option (List UInt8 × List UInt8)
  | 0, bs => some ([], bs)
  | n + 1, bs =>
    match readU8 bs with
    | none => none
    | some (b, rest) =>
      if b &&& 128 != 128 then some ([b], rest)
      else (parseBytes n rest).map fun p => (b :: p.1, p.2)

/-- `AckHeader::parse`. -/
def parse (bs : List UInt8) : Except PicklebackError (AckHeader × List UInt8) :=
  match readU16 bs with
  | none => .error (.io .unexpectedEof)
  | some (ackId, rest) =>
    match parseBytes maxAckBytes rest with
    | none => .error (.io .unexpectedEof)
    | some (bytes, rest) =>
      .ok ({
        ackId := ackId
        numAcks := UInt16.ofNat (bytes.length * 7)
        bitBuffer := padded bytes
        numBytesNeeded := bytes.length
        byteOffset := 0
        bitOffset := 0 }, rest)

/-- `AckHeader::next`: one ack, and the header moved on to the following one. -/
def next (h : AckHeader) : Option ((UInt16 × Bool) × AckHeader) :=
  if h.byteOffset = h.numBytesNeeded ∨ h.byteOffset = maxAckBytes then none
  else
    let b := h.bitBuffer.getD h.byteOffset 0
    let mask : UInt8 := 1 <<< UInt8.ofNat h.bitOffset
    let isAcked := b &&& mask == mask
    let seqOffset := UInt16.ofNat (7 * h.byteOffset + h.bitOffset)
    let sequence := h.ackId - seqOffset
    let moved :=
      if h.bitOffset = 6 then
        if b &&& 128 != 128 then { h with byteOffset := maxAckBytes }
        else { h with byteOffset := h.byteOffset + 1, bitOffset := 0 }
      else { h with bitOffset := h.bitOffset + 1 }
    some ((sequence, isAcked), moved)

/-- The items that `n` calls of `next` yield. -/
def collect : ℕ → AckHeader → List (UInt16 × Bool)
  | 0, _ => []
  | n + 1, h =>
    match h.next with
    | none => []
    | some (item, h) => item :: collect n h

/-- The whole iteration; a full field has `7 * MAX_ACK_BYTES` acks. -/
def acks (h : AckHeader) : List (UInt16 × Bool) := h.collect (7 * maxAckBytes + 1)

end AckHeader

end Pickleback
