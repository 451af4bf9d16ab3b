import Pickleback.Protocol.AckHeader
import Pickleback.BufferPool

/-!
# Packets

`protocol/packets.rs` and the disconnect reasons of `protocol/mod.rs`: the packet header, the seven
packet kinds, and how they are written and read.
-/

namespace Pickleback

open ByteCodec

/-- `DisconnectReason`. -/
inductive DisconnectReason where
  | normal
  | protocolMismatch
  | handshakeTimeout
  | timedOut
  | serverFull
  deriving DecidableEq, Repr

/-- `reason as u8`. -/
def DisconnectReason.toU8 : DisconnectReason → UInt8
  | .normal => 0
  | .protocolMismatch => 1
  | .handshakeTimeout => 2
  | .timedOut => 3
  | .serverFull => 4

/-- `DisconnectReason::try_from`. -/
def DisconnectReason.tryFrom (value : UInt8) : Except PicklebackError DisconnectReason :=
  if value = 0 then .ok .normal
  else if value = 1 then .ok .protocolMismatch
  else if value = 2 then .ok .handshakeTimeout
  else if value = 3 then .ok .timedOut
  else if value = 4 then .ok .serverFull
  else .error .invalidPacket

/-- `PacketType`. -/
inductive PacketType where
  | connectionRequest
  | connectionChallenge
  | connectionChallengeResponse
  | connectionDenied
  | messages
  | disconnect
  | keepAlive
  deriving DecidableEq, Repr

/-- `packet_type as u8`. -/
def PacketType.toU8 : PacketType → UInt8
  | .connectionRequest => 1
  | .connectionChallenge => 2
  | .connectionChallengeResponse => 3
  | .connectionDenied => 4
  | .messages => 5
  | .disconnect => 6
  | .keepAlive => 7

/-- `PacketType::try_from`. -/
def PacketType.tryFrom (value : UInt8) : Except PicklebackError PacketType :=
  if value = 1 then .ok .connectionRequest
  else if value = 2 then .ok .connectionChallenge
  else if value = 3 then .ok .connectionChallengeResponse
  else if value = 4 then .ok .connectionDenied
  else if value = 5 then .ok .messages
  else if value = 6 then .ok .disconnect
  else if value = 7 then .ok .keepAlive
  else .error .invalidPacket

/-- `ProtocolPacketHeader`. -/
structure ProtocolPacketHeader where
  packetType : PacketType
  id : PacketId
  ackHeader : Option AckHeader
  deriving DecidableEq, Repr

namespace ProtocolPacketHeader

/-- `ProtocolPacketHeader::new_no_acks`. -/
def newNoAcks (id : PacketId) (packetType : PacketType) : ProtocolPacketHeader :=
  ⟨packetType, id, none⟩

/-- `ProtocolPacketHeader::new`. -/
def new (id : PacketId) (acks : List (UInt16 × Bool)) (numAcks : UInt16)
    (packetType : PacketType) : Except Fault ProtocolPacketHeader :=
  if numAcks = 0 then .ok (newNoAcks id packetType)
  else (AckHeader.fromAckIter numAcks acks).map fun h => ⟨packetType, id, some h⟩

/-- `ProtocolPacketHeader::acks`. -/
def acks (h : ProtocolPacketHeader) : Option (List (UInt16 × Bool)) :=
  h.ackHeader.map AckHeader.acks

/-- `ProtocolPacketHeader::size`. -/
def size (h : ProtocolPacketHeader) : ℕ :=
  1 + 2 + (match h.ackHeader with
    | some a => a.size
    | none => 0)

/-- `ProtocolPacketHeader::write`: the highest bit of the first byte says whether acks follow. -/
def write (h : ProtocolPacketHeader) : List UInt8 :=
  match h.ackHeader with
  | some a => (h.packetType.toU8 ||| 128) :: writeU16 h.id ++ a.write
  | none => h.packetType.toU8 :: writeU16 h.id

/-- `ProtocolPacketHeader::parse`. -/
def parse (bs : List UInt8) : Except PicklebackError (ProtocolPacketHeader × List UInt8) :=
  match readU8 bs with
  | none => .error (.io .unexpectedEof)
  | some (prefixByte, rest) =>
    match PacketType.tryFrom (prefixByte &&& 127) with
    | .error _ => .error .invalidPacket
    | .ok packetType =>
      match readU16 rest with
      | none => .error (.io .unexpectedEof)
      | some (id, rest) =>
        if prefixByte &&& 128 != 0 then
          match AckHeader.parse rest with
          | .error e => .error e
          | .ok (a, rest) => .ok (⟨packetType, id, some a⟩, rest)
        else .ok (⟨packetType, id, none⟩, rest)

end ProtocolPacketHeader

/-- `ProtocolPacket`, the fields of the packet structures inline. -/
inductive ProtocolPacket where
  | connectionRequest (header : ProtocolPacketHeader) (clientSalt protocolVersion : UInt64)
  | connectionChallenge (header : ProtocolPacketHeader) (clientSalt serverSalt : UInt64)
  | connectionChallengeResponse (header : ProtocolPacketHeader) (xorSalt : UInt64)
  | connectionDenied (header : ProtocolPacketHeader) (reason : DisconnectReason)
  | messages (header : ProtocolPacketHeader) (xorSalt : UInt64)
  | disconnect (header : ProtocolPacketHeader) (xorSalt : UInt64)
  | keepAlive (header : ProtocolPacketHeader) (xorSalt : UInt64) (clientIndex : UInt32)
  deriving DecidableEq, Repr

/-- The header of a packet. -/
def ProtocolPacket.header : ProtocolPacket → ProtocolPacketHeader
  | .connectionRequest header _ _ => header
  | .connectionChallenge header _ _ => header
  | .connectionChallengeResponse header _ => header
  | .connectionDenied header _ => header
  | .messages header _ => header
  | .disconnect header _ => header
  | .keepAlive header _ _ => header

/-- `write_zero_bytes`. -/
def writeZeroBytes (n : ℕ) : List UInt8 := List.replicate n 0

/-- The bytes `write_packet` writes; a `Messages` packet is written elsewhere. -/
def ProtocolPacket.bytes : ProtocolPacket → Except Panic (List UInt8)
  | .keepAlive header xorSalt clientIndex =>
    .ok (header.write ++ writeU64 xorSalt ++ writeU32 clientIndex)
  | .connectionRequest header clientSalt protocolVersion =>
    .ok (header.write ++ writeU64 clientSalt ++ writeU64 protocolVersion ++ writeZeroBytes 500)
  | .connectionChallenge header clientSalt serverSalt =>
    .ok (header.write ++ writeU64 clientSalt ++ writeU64 serverSalt ++ writeZeroBytes 500)
  | .connectionChallengeResponse header xorSalt =>
    .ok (header.write ++ writeU64 xorSalt ++ writeZeroBytes 500)
  | .connectionDenied header reason => .ok (header.write ++ [reason.toU8])
  | .disconnect header xorSalt => .ok (header.write ++ writeU64 xorSalt)
  | .messages _ _ => .error .writtenElsewhere

/-- `write_packet`: a pooled buffer of at most `max_packet_size` bytes, or a `WriteZero` error that
leaves the buffer outside the pool. -/
def writePacket (pool : BufPool) (config : PicklebackConfig) (packet : ProtocolPacket) :
    Except Panic (BufPool × Except PicklebackError PooledBuffer) :=
  let buf := pool.getBuffer config.maxPacketSize
  match packet.bytes with
  | .error p => .error p
  | .ok bytes =>
    .ok (buf.2, ((WriteLimiter.new buf.1 config.maxPacketSize).writeAll bytes).map fun w =>
      w.buffer)

/-- A read of the packet's fixed fields that runs out of bytes. -/
def orEof {α : Type} : Option α → Except PicklebackError α
  | some a => .ok a
  | none => .error (.io .unexpectedEof)

/-- `read_packet`: the packet and the bytes left in the cursor. -/
def readPacket (bs : List UInt8) : Except PicklebackError (ProtocolPacket × List UInt8) := do
  let (header, rest) ← ProtocolPacketHeader.parse bs
  match header.packetType with
  | .keepAlive =>
    let (xorSalt, rest) ← orEof (readU64 rest)
    let (clientIndex, rest) ← orEof (readU32 rest)
    return (.keepAlive header xorSalt clientIndex, rest)
  | .connectionRequest =>
    let (clientSalt, rest) ← orEof (readU64 rest)
    let (version, rest) ← orEof (readU64 rest)
    if rest.length ≠ 500 then throw .invalidPacket
    return (.connectionRequest header clientSalt version, rest)
  | .connectionChallenge =>
    let (clientSalt, rest) ← orEof (readU64 rest)
    let (serverSalt, rest) ← orEof (readU64 rest)
    if rest.length ≠ 500 then throw .invalidPacket
    return (.connectionChallenge header clientSalt serverSalt, rest)
  | .connectionChallengeResponse =>
    let (xorSalt, rest) ← orEof (readU64 rest)
    if rest.length ≠ 500 then throw .invalidPacket
    return (.connectionChallengeResponse header xorSalt, rest)
  | .connectionDenied =>
    let (reason, rest) ← orEof (readU8 rest)
    let reason ← DisconnectReason.tryFrom reason
    return (.connectionDenied header reason, rest)
  | .messages =>
    let (xorSalt, rest) ← orEof (readU64 rest)
    return (.messages header xorSalt, rest)
  | .disconnect =>
    let (xorSalt, rest) ← orEof (readU64 rest)
    return (.disconnect header xorSalt, rest)

end Pickleback
