import Pickleback.Compose

/-!
# Packets on the wire

`write_packet` and `read_packet` are inverse on the six kinds of packets that `write_packet` writes.
A header is read back with its id and its acks, not as the same value: the writer knows how many
acks it was asked for, the reader only how many bytes there were. In the other direction a header
that was read writes exactly the bytes it was read from.

## Main definitions

* `ProtocolPacket.packetType`, `ProtocolPacket.withHeader`
* `ProtocolPacketHeader.MadeFor` — the headers the crate makes for a type of packet

## Main results

* `readPacket_bytes` — what `write_packet` writes is read back
* `ProtocolPacketHeader.eq_write_append` — what a header was read from, it writes
* `writePacket_readPacket` — both directions, through the limited writer
-/

namespace Pickleback

open ByteCodec

/-- `PacketType::from(&packet)`. -/
def ProtocolPacket.packetType : ProtocolPacket → PacketType
  | .connectionRequest .. => .connectionRequest
  | .connectionChallenge .. => .connectionChallenge
  | .connectionChallengeResponse .. => .connectionChallengeResponse
  | .connectionDenied .. => .connectionDenied
  | .messages .. => .messages
  | .disconnect .. => .disconnect
  | .keepAlive .. => .keepAlive

/-- The two places of a packet that say what it is. -/
theorem packetType_of_readPacket {bytes rest : List UInt8} {packet : ProtocolPacket}
    (h : readPacket bytes = .ok (packet, rest)) : packet.header.packetType = packet.packetType := by
  cases hparse : ProtocolPacketHeader.parse bytes with
  | error e =>
    rw [readPacket, hparse] at h
    cases h
  | ok r =>
    obtain ⟨header, left⟩ := r
    cases htype : header.packetType <;>
    simp only [readPacket, hparse, bind, Except.bind, htype, throw,
      throwThe, MonadExceptOf.throw, pure,
      Except.pure] at h <;>
    grind [ProtocolPacket.header, ProtocolPacket.packetType]

/-- The same packet under another header. -/
def ProtocolPacket.withHeader (h : ProtocolPacketHeader) : ProtocolPacket → ProtocolPacket
  | .connectionRequest _ clientSalt version => .connectionRequest h clientSalt version
  | .connectionChallenge _ clientSalt serverSalt => .connectionChallenge h clientSalt serverSalt
  | .connectionChallengeResponse _ xorSalt => .connectionChallengeResponse h xorSalt
  | .connectionDenied _ reason => .connectionDenied h reason
  | .messages _ xorSalt => .messages h xorSalt
  | .disconnect _ xorSalt => .disconnect h xorSalt
  | .keepAlive _ xorSalt clientIndex => .keepAlive h xorSalt clientIndex

@[simp] theorem length_writeZeroBytes (n : ℕ) : (writeZeroBytes n).length = n :=
  List.length_replicate

theorem DisconnectReason.tryFrom_toU8 (r : DisconnectReason) : tryFrom r.toU8 = .ok r := by
  cases r <;> rfl

namespace ProtocolPacketHeader

/-- The header was made for packets of type `t`, by `next_packet_header` of some endpoint or by
`new_no_acks`. -/
def MadeFor (h : ProtocolPacketHeader) (t : PacketType) : Prop :=
  (∃ p p' : Endpoint, p.nextPacketHeader t = .ok (p', .ok h)) ∨ ∃ id, h = newNoAcks id t

/-- A header says the same as another one: type, id and acks. -/
structure Agrees (h h' : ProtocolPacketHeader) : Prop where
  packetType : h'.packetType = h.packetType
  id : h'.id = h.id
  acks : h'.acks = h.acks

/-- Every header of the crate carries acks of some received window, at most 350 of them. -/
theorem MadeFor.exists_new {h : ProtocolPacketHeader} {t : PacketType} (hmade : h.MadeFor t) :
    ∃ id b n, UInt16.toNat n ≤ 350 ∧ new id (ackIter b n) n t = .ok h := by
  rcases hmade with ⟨p, p', hnext⟩ | ⟨id, rfl⟩
  · rw [Endpoint.nextPacketHeader] at hnext
    dsimp only at hnext
    split at hnext
    · cases hnext
    · next hacks =>
      split at hnext
      · cases hnext
      · cases hnext
      · next header hheader =>
        cases hnext
        refine ⟨_, _, _, ?_, hheader⟩
        rw [gt_iff_lt, UInt16.lt_iff_toNat_lt] at hacks
        simpa [maxUnackedPackets] using hacks
  · exact ⟨id, SequenceBuffer.withCapacity 1, 0, by decide, by simp [new]⟩

/-- **A header is read back**, with any bytes behind it. -/
theorem MadeFor.parse_write {h : ProtocolPacketHeader} {t : PacketType} (hmade : h.MadeFor t)
    (rest : List UInt8) : ∃ h', parse (h.write ++ rest) = .ok (h', rest) ∧ h'.packetType = t ∧
      h.Agrees h' := by
  obtain ⟨id, b, n, hn, hnew⟩ := hmade.exists_new
  obtain ⟨h', hparse, htype, hid, hacks, -⟩ := ProtocolPacketHeader.parse_write hn hnew rest
  obtain ⟨htype', hid'⟩ := packetType_of_new hnew
  refine ⟨h', hparse, htype, htype.trans htype'.symm, hid.trans hid'.symm, ?_⟩
  rw [hacks, acks_of_new hn hnew]

end ProtocolPacketHeader

/-- **A packet is read back**, whatever its kind: the same fields under a header that says the
same. -/
theorem readPacket_bytes {packet : ProtocolPacket} {bytes : List UInt8}
    (hmade : packet.header.MadeFor packet.packetType) (h : packet.bytes = .ok bytes) :
    ∃ h' rest, readPacket bytes = .ok (packet.withHeader h', rest) ∧ packet.header.Agrees h' := by
  cases packet with
  | connectionRequest header clientSalt version =>
    obtain ⟨h', hparse, htype, hagrees⟩ := hmade.parse_write
      (writeU64 clientSalt ++ (writeU64 version ++ writeZeroBytes 500))
    cases h
    refine ⟨h', writeZeroBytes 500, ?_, hagrees⟩
    simp only [ProtocolPacket.header] at hparse
    simp only [readPacket, List.append_assoc, hparse, bind, Except.bind, htype,
      ProtocolPacket.packetType, readU64_writeU64, orEof, length_writeZeroBytes,
        ne_eq, not_true_eq_false,
      if_false]
    rfl
  | connectionChallenge header clientSalt serverSalt =>
    obtain ⟨h', hparse, htype, hagrees⟩ := hmade.parse_write
      (writeU64 clientSalt ++ (writeU64 serverSalt ++ writeZeroBytes 500))
    cases h
    refine ⟨h', writeZeroBytes 500, ?_, hagrees⟩
    simp only [ProtocolPacket.header] at hparse
    simp only [readPacket, List.append_assoc, hparse, bind, Except.bind, htype,
      ProtocolPacket.packetType, readU64_writeU64, orEof, length_writeZeroBytes,
        ne_eq, not_true_eq_false,
      if_false]
    rfl
  | connectionChallengeResponse header xorSalt =>
    obtain ⟨h', hparse, htype, hagrees⟩ :=
      hmade.parse_write (writeU64 xorSalt ++ writeZeroBytes 500)
    cases h
    refine ⟨h', writeZeroBytes 500, ?_, hagrees⟩
    simp only [ProtocolPacket.header] at hparse
    simp only [readPacket, List.append_assoc, hparse, bind, Except.bind, htype,
      ProtocolPacket.packetType, readU64_writeU64, orEof, length_writeZeroBytes,
        ne_eq, not_true_eq_false,
      if_false]
    rfl
  | connectionDenied header reason =>
    obtain ⟨h', hparse, htype, hagrees⟩ := hmade.parse_write [reason.toU8]
    cases h
    refine ⟨h', [], ?_, hagrees⟩
    simp only [ProtocolPacket.header] at hparse
    simp only [readPacket, hparse, bind, Except.bind, htype, ProtocolPacket.packetType, readU8_cons,
      orEof, DisconnectReason.tryFrom_toU8]
    rfl
  | messages header xorSalt => cases h
  | disconnect header xorSalt =>
    obtain ⟨h', hparse, htype, hagrees⟩ := hmade.parse_write (writeU64 xorSalt)
    cases h
    refine ⟨h', [], ?_, hagrees⟩
    have hsalt := readU64_writeU64 xorSalt []
    rw [List.append_nil] at hsalt
    simp only [ProtocolPacket.header] at hparse
    simp only [readPacket, hparse, bind, Except.bind, htype, ProtocolPacket.packetType,
      hsalt, orEof]
    rfl
  | keepAlive header xorSalt clientIndex =>
    obtain ⟨h', hparse, htype, hagrees⟩ :=
      hmade.parse_write (writeU64 xorSalt ++ writeU32 clientIndex)
    cases h
    refine ⟨h', [], ?_, hagrees⟩
    have hindex := readU32_writeU32 clientIndex []
    rw [List.append_nil] at hindex
    simp only [ProtocolPacket.header] at hparse
    simp only [readPacket, List.append_assoc, hparse, bind, Except.bind, htype,
      ProtocolPacket.packetType, readU64_writeU64, hindex, orEof]
    rfl

/-- A packet that `write_packet` has written holds its bytes, and they respect the limit. -/
theorem writePacket_eq_ok {pool pool' : BufPool} {config : PicklebackConfig}
    {packet : ProtocolPacket}
    {buf : PooledBuffer} (h : writePacket pool config packet = .ok (pool', .ok buf)) :
    packet.bytes = .ok buf.data ∧ buf.data.length ≤ config.maxPacketSize := by
  rw [writePacket] at h
  split at h
  · cases h
  · next bytes hbytes =>
    cases hw :
      (WriteLimiter.new (pool.getBuffer config.maxPacketSize).1 config.maxPacketSize).writeAll
      bytes with
    | error e => rw [hw] at h; cases h
    | ok w =>
      have hext := WriteLimiter.Extends.of_writeAll hw
      have hdata : w.buffer.data = bytes := by
        rw [hext.data]
        simp [WriteLimiter.new]
      rw [hw] at h
      cases h
      refine ⟨by rw [hbytes, hdata], ?_⟩
      rw [hdata]
      rw [WriteLimiter.writeAll] at hw
      split at hw
      · next hle => simpa [WriteLimiter.new, WriteLimiter.remaining] using hle
      · cases hw

/-! ### Writing back what was read -/

theorem AckHeader.parseBytes_eq_some {n : ℕ} {bs bytes rest : List UInt8}
    (h : parseBytes n bs = some (bytes, rest)) : bs = bytes ++ rest ∧ bytes.length ≤ n := by
  rw [parseBytes_eq] at h
  split at h
  · cases h
    refine ⟨(List.take_append_drop _ _).symm, ?_⟩
    rw [List.length_take]
    omega
  · cases h

/-- An ack field that was read writes the bytes it was read from. -/
theorem AckHeader.eq_write_append {bs rest : List UInt8} {a : AckHeader}
    (h : AckHeader.parse bs = .ok (a, rest)) : bs = a.write ++ rest ∧ a.size = a.write.length := by
  rw [AckHeader.parse] at h
  split at h
  · cases h
  · next ackId tail hid =>
    split at h
    · cases h
    · next bytes rest' hbytes =>
      cases h
      obtain ⟨htail, hlen⟩ := AckHeader.parseBytes_eq_some hbytes
      have htake : (AckHeader.padded bytes).take bytes.length = bytes := by simp [AckHeader.padded]
      rw [eq_writeU16_append hid, htail]
      simp only [AckHeader.write, AckHeader.size, htake, List.append_assoc, List.length_append,
        length_writeU16, and_self]

/-- The prefix byte is determined by the type and the flag in it. -/
theorem prefixByte_of_tryFrom {b : UInt8} {t : PacketType}
    (h : PacketType.tryFrom (b &&& 127) = .ok t) :
    b = if b &&& 128 != 0 then t.toU8 ||| 128 else t.toU8 := by
  have key : ∀ n : Fin 256, ∀ t : PacketType,
    PacketType.tryFrom (UInt8.ofNat n.val &&& 127) = .ok t →
      UInt8.ofNat n.val = if UInt8.ofNat n.val &&& 128 != 0 then t.toU8 ||| 128 else t.toU8 := by
    intro n t
    cases t <;> revert n <;> decide +kernel
  have hb : UInt8.ofNat b.toNat = b := UInt8.ofNat_toNat
  have := key ⟨b.toNat, b.toNat_lt⟩ t
  rw [hb] at this
  exact this h

/-- **A header that was read writes the bytes it was read from**, and its size is their number. -/
theorem ProtocolPacketHeader.eq_write_append {bs rest : List UInt8} {h : ProtocolPacketHeader}
    (hparse : parse bs = .ok (h, rest)) : bs = h.write ++ rest ∧ h.size = h.write.length := by
  rw [parse] at hparse
  split at hparse
  · cases hparse
  · next b bs₁ hb =>
    split at hparse
    · cases hparse
    · next t ht =>
      have hprefix := prefixByte_of_tryFrom ht
      split at hparse
      · cases hparse
      · next id bs₂ hid =>
        have hbytes : bs = b :: (writeU16 id ++ bs₂) := by
          rw [readU8_eq_some hb, eq_writeU16_append hid]
        split at hparse
        · next hflag =>
          rw [hflag, if_pos rfl] at hprefix
          split at hparse
          · cases hparse
          · next a bs₃ ha =>
            cases hparse
            obtain ⟨hack, hsize⟩ := AckHeader.eq_write_append ha
            constructor
            · rw [hbytes, hack, hprefix]
              simp [write]
            · simp only [size, hsize, write, List.cons_append, List.length_cons, List.length_append,
                length_writeU16]
              omega
        · next hflag =>
          rw [Bool.not_eq_true] at hflag
          rw [hflag] at hprefix
          cases hparse
          refine ⟨?_, by simp [size, write]⟩
          rw [hbytes, hprefix]
          rfl

/-- **The packet format round trip.** For every configuration and every packet but one of messages,
with a header made for its kind: if `write_packet` succeeds, the buffer respects the limit and is
read as a packet of the same kind with the same fields under a header with the same id and acks. And
every header that is read writes exactly the bytes it was read from, as many as its size says. -/
theorem writePacket_readPacket :
    (∀ (pool pool' : BufPool) (config : PicklebackConfig) (packet : ProtocolPacket)
      (buf : PooledBuffer),
      packet.packetType ≠ .messages → packet.header.MadeFor packet.packetType →
      writePacket pool config packet = .ok (pool', .ok buf) →
        buf.data.length ≤ config.maxPacketSize ∧
        ∃ h' rest, readPacket buf.data = .ok (packet.withHeader h', rest) ∧
          packet.header.Agrees h') ∧
    ∀ (bs rest : List UInt8) (h : ProtocolPacketHeader), ProtocolPacketHeader.parse bs = .ok
    (h, rest) →
      bs = h.write ++ rest ∧ h.size = h.write.length := by
  constructor
  · intro pool pool' config packet buf _ hmade hwrite
    obtain ⟨hbytes, hlen⟩ := writePacket_eq_ok hwrite
    exact ⟨hlen, readPacket_bytes hmade hbytes⟩
  · intro bs rest h hparse
    exact ProtocolPacketHeader.eq_write_append hparse

theorem writePacket_readPacket_disconnect : ∃ pool buf,
    writePacket BufPool.default .default (.disconnect (.newNoAcks 9 .disconnect) 77)
      = .ok (pool, .ok buf) ∧ buf.data.length ≤ 1150 ∧
    ∃ h' rest, readPacket buf.data = .ok (.disconnect h' 77, rest) ∧ h'.id = 9 := by
  obtain ⟨pool, buf, hwrite⟩ : ∃ pool buf, writePacket BufPool.default .default
      (.disconnect (.newNoAcks 9 .disconnect) 77) = .ok (pool, .ok buf) := ⟨_, _, rfl⟩
  obtain ⟨hlen, h', rest, hread, hagrees⟩ := writePacket_readPacket.1 _ _ _ _ _ (by decide)
    (Or.inr ⟨9, rfl⟩) hwrite
  exact ⟨pool, buf, hwrite, hlen, h', rest, hread, hagrees.id⟩

end Pickleback
