import Mathlib.Data.UInt
import Pickleback.LossScan
import Pickleback.Posting

/-!
# Packets without messages

The two calls that a handshake is made of: `sendControl`, and `process_incoming_packet` for a packet
that is not one of messages. On an endpoint that never had a message neither of them panics. Exactly
when they succeed, and what they do then, depends on the ack state alone.

## Main definitions

* `PicklebackConfig.Usable` — a handshake packet fits, and the windows are neither empty nor too
  long
* `Endpoint.Quiet` — an endpoint that never had a message
* `AckState.CanSend`, `AckState.Sends`, `AckState.CanReceive`, `AckState.Receives`

## Main results

* `Endpoint.exists_sendControl_ok`, `Endpoint.sends_of_sendControl` — when a packet is sent, and
  what that does
* `Endpoint.Quiet.exists_processIncomingPacket_ok`, `Endpoint.receives_of_processIncomingPacket` —
  and received
* `AckState.ackLowWatermark_foldl` — the watermark after an ack field that acks one packet
-/

namespace Pickleback

open SequenceBuffer

/-- Every handshake packet fits into a packet, and the comparison of sequence numbers is good enough
for the two windows. -/
structure PicklebackConfig.Usable (config : PicklebackConfig) : Prop where
  maxPacketSize : 571 ≤ config.maxPacketSize
  sent_pos : 0 < config.sentPacketsBufferSize
  sent_le : config.sentPacketsBufferSize ≤ 32000
  received_ge : 3 ≤ config.receivedPacketsBufferSize
  received_le : config.receivedPacketsBufferSize ≤ 32000

namespace AckState

/-- `received_unacked_packets`. -/
def receivedUnackedPackets (a : AckState) : UInt16 :=
  a.receivedBuffer.sequence - a.ackLowWatermark.getD 0

/-- The acks of the next header. -/
def nextAcks (a : AckState) : Option (List (UInt16 × Bool)) :=
  ProtocolPacketHeader.acksFor a.receivedBuffer a.receivedUnackedPackets

/-- The next header can be made, and its packet recorded. -/
def CanSend (a : AckState) : Prop :=
  ¬ a.receivedUnackedPackets > maxUnackedPackets ∧
    sequenceLessThan (a.sequenceId + 1)
      (a.sentBuffer.sequence - UInt16.ofNat a.sentBuffer.len) = false

/-- A packet is sent and recorded. -/
def Sends (a a' : AckState) : Prop :=
  a.CanSend ∧ ∃ time size sb, a.sentBuffer.insert (a.sequenceId + 1)
    (SentMeta.new time size a.receivedBuffer.sequence) = .ok sb ∧
      a' = { a with sequenceId := a.sequenceId + 1, sentBuffer := sb }

/-- A packet with this id is neither stale nor a duplicate. -/
def CanReceive (a : AckState) (id : PacketId) : Prop :=
  a.receivedBuffer.checkSequence id = true ∧ a.receivedBuffer.existsSequence id = false

/-- A packet is received, and its acks are processed. -/
def Receives (a : AckState) (id : PacketId) (acks : Option (List (UInt16 × Bool)))
    (a' : AckState) : Prop :=
  a.CanReceive id ∧ ∃ receivedMeta rb, a.receivedBuffer.insert id receivedMeta = .ok rb ∧
    a' = { a with receivedBuffer := rb }.processAcks acks

/-- An ack field whose set bits name packets that are acked already, or not known, does nothing. -/
theorem foldl_processAck_eq {acks : List (UInt16 × Bool)} {a : AckState}
    (h : ∀ ack ∈ acks, ack.2 = true →
    ∀ sentMeta, a.sentBuffer.get ack.1 = some sentMeta → sentMeta.acked = true) :
    acks.foldl processAck a = a := by
  induction acks with
  | nil => rfl
  | cons ack rest ih =>
    have hfirst : a.processAck ack = a := by
      rw [processAck]
      cases hbit : ack.2 with
      | false => rfl
      | true =>
        cases hget : a.sentBuffer.get ack.1 with
        | none => rfl
        | some sentMeta => simp [h ack (List.mem_cons_self ..) hbit sentMeta hget]
    rw [List.foldl_cons, hfirst]
    exact ih fun ack hack => h ack (List.mem_cons_of_mem _ hack)

/-- **An ack field that acks one packet**: of the packets it names, only `s` may be new. -/
theorem ackLowWatermark_foldl {acks : List (UInt16 × Bool)} {a : AckState}
    {s : PacketId} {sentMeta : SentMeta}
    (hget : a.sentBuffer.get s = some sentMeta) (hnew : sentMeta.acked = false)
    (hother : ∀ ack ∈ acks, ack.2 = true → ack.1 = s ∨ a.sentBuffer.get ack.1 = none) :
    (acks.foldl processAck a).ackLowWatermark =
      if (s, true) ∈ acks then Endpoint.newerOf a.ackLowWatermark sentMeta.ackedUpTo
        else a.ackLowWatermark := by
  induction acks with
  | nil => rfl
  | cons ack rest ih =>
    have hrest : ∀ ack ∈ rest, ack.2 = true → ack.1 = s ∨ a.sentBuffer.get ack.1 = none :=
      fun ack hack => hother ack (List.mem_cons_of_mem _ hack)
    obtain ⟨id, bit⟩ := ack
    by_cases hfirst : bit = true ∧ id = s
    · obtain ⟨rfl, rfl⟩ := hfirst
      rw [List.foldl_cons, if_pos (List.mem_cons_self ..), foldl_processAck_eq]
      · simp [processAck, hget, hnew]
      · intro ack hack hbit sentMeta' hget'
        rw [processAck] at hget'
        simp only [hget, hnew, Bool.not_true, Bool.false_eq_true, if_false] at hget'
        rw [SequenceBuffer.get_setEntry hget] at hget'
        split at hget'
        · cases hget'
          rfl
        · next hne =>
          rcases hrest ack hack hbit with heq | hnone
          · exact absurd heq hne
          · rw [hnone] at hget'
            cases hget'
    · have hsame : a.processAck (id, bit) = a := by
        rw [processAck]
        cases hbit : bit with
        | false => rfl
        | true =>
          rcases hother (id, bit) (List.mem_cons_self ..) hbit with heq | hnone
          · exact absurd ⟨hbit, heq⟩ hfirst
          · simp [hnone]
      have hmem : (s, true) ∈ (id, bit) :: rest ↔ (s, true) ∈ rest := by
        rw [List.mem_cons, or_iff_right]
        rintro heq
        cases heq
        exact hfirst ⟨rfl, rfl⟩
      rw [List.foldl_cons, hsame, ih hrest, if_congr hmem rfl rfl]

@[simp] theorem sequence_foldl_processAck (acks : List (UInt16 × Bool)) (a : AckState) :
    (acks.foldl processAck a).sentBuffer.sequence = a.sentBuffer.sequence ∧
      (acks.foldl processAck a).sentBuffer.len = a.sentBuffer.len := by
  induction acks generalizing a with
  | nil => exact ⟨rfl, rfl⟩
  | cons ack rest ih =>
    rw [List.foldl_cons, (ih _).1, (ih _).2, processAck]
    repeat' split
    all_goals exact ⟨rfl, rfl⟩

end AckState

/-! ### Sending -/

namespace Endpoint

variable {p p' : Endpoint} {t : PacketType} {build : ProtocolPacketHeader → ProtocolPacket}

theorem receivedUnackedPackets_ackState (p : Endpoint) :
    p.ackState.receivedUnackedPackets = p.receivedUnackedPackets := by
  rw [receivedUnackedPackets, AckState.receivedUnackedPackets, ackState]
  cases p.ackLowWatermark with
  | none => exact UInt16.sub_zero _
  | some lowestAck => rfl

/-- A header that was made. -/
theorem nextPacketHeader_eq_ok {header : ProtocolPacketHeader}
    (h : p.nextPacketHeader t = .ok (p', .ok header)) :
    ¬ p.receivedUnackedPackets > maxUnackedPackets ∧ header.packetType = t ∧
      header.id = p.sequenceId + 1 ∧
      header.acks = p.ackState.nextAcks := by
  by_cases hacks : p.receivedUnackedPackets > maxUnackedPackets
  · rw [nextPacketHeader_of_gt hacks] at h
    cases h
  · have hn : p.receivedUnackedPackets.toNat ≤ 350 := by
      rw [gt_iff_lt, UInt16.lt_iff_toNat_lt] at hacks
      simpa [maxUnackedPackets] using hacks
    obtain ⟨header', hheader⟩ :=
      ProtocolPacketHeader.exists_new (p.sequenceId + 1) p.receivedBuffer hn t
    rw [nextPacketHeader_of_le hacks hheader] at h
    cases h
    obtain ⟨htype, hid⟩ := packetType_of_new hheader
    refine ⟨hacks, htype, hid, ?_⟩
    rw [ProtocolPacketHeader.acks_of_new hn hheader, AckState.nextAcks,
      receivedUnackedPackets_ackState]
    rfl

/-- A packet without messages is sent if its header can be made, it can be recorded, and it is not
too long. -/
theorem exists_sendControl_ok (h : p.ackState.CanSend) (t : PacketType)
    (build : ProtocolPacketHeader → ProtocolPacket)
    (hbuild : ∀ header, ProtocolPacketHeader.new (p.sequenceId + 1)
        (ackIter p.receivedBuffer p.receivedUnackedPackets) p.receivedUnackedPackets t =
          .ok header →
      header.write.length ≤ 55 → ∃ bytes, (build header).bytes = .ok bytes ∧
        bytes.length ≤ p.config.maxPacketSize) :
    ∃ p', p.sendControl t build = .ok (p', .ok ()) := by
  obtain ⟨hacks, hold⟩ := h
  rw [receivedUnackedPackets_ackState] at hacks
  have hn : p.receivedUnackedPackets.toNat ≤ 350 := by
    rw [gt_iff_lt, UInt16.lt_iff_toNat_lt] at hacks
    simpa [maxUnackedPackets] using hacks
  obtain ⟨header, hheader⟩ := ProtocolPacketHeader.exists_new
    (p.sequenceId + 1) p.receivedBuffer hn t
  obtain ⟨bytes, hbytes, hlen⟩ :=
    hbuild header hheader (ProtocolPacketHeader.length_write_le hn hheader).2
  obtain ⟨w, hw, -⟩ := WriteLimiter.Extends.exists_writeAll
    (show bytes.length ≤ (WriteLimiter.new (p.pool.getBuffer p.config.maxPacketSize).1
        p.config.maxPacketSize).remaining by
      simp only [WriteLimiter.new, WriteLimiter.remaining]
      omega)
  have hinsert : ∀ v, ∃ b, p.sentBuffer.insert (p.sequenceId + 1) v = .ok b := by
    intro v
    cases hb : p.sentBuffer.insert (p.sequenceId + 1) v with
    | ok b => exact ⟨b, rfl⟩
    | error e => exact absurd ((SequenceBuffer.insert_eq_error_iff.mp hb).2.symm.trans hold) (by
      decide)
  rw [sendControl, nextPacketHeader_of_le hacks hheader]
  simp only [sendPacket, writePacket, hbytes, hw, Except.map, sendRawPacket]
  obtain ⟨b, hb⟩ := hinsert (SentMeta.new p.time (w.buffer.data.length + p.config.packetHeaderSize)
    p.receivedBuffer.sequence)
  rw [hb]
  exact ⟨_, rfl⟩

theorem sends_of_sendControl (h : p.sendControl t build = .ok (p', .ok ())) :
    p.ackState.Sends p'.ackState := by
  obtain ⟨⟨e, heq⟩, -⟩ | ⟨p₁, header, pool, buf, size, sb, -, hnext, -, hsb, hp'⟩ :=
    sendControl_cases h
  · cases heq
  · obtain ⟨hacks, -⟩ := nextPacketHeader_eq_ok hnext
    refine ⟨⟨?_, (SequenceBuffer.insert_cases hsb).1⟩, p.time, size, sb, hsb, ?_⟩
    · rwa [receivedUnackedPackets_ackState]
    · rw [hp']
      rfl

/-- What is read from the packet that was sent. -/
theorem exists_read_of_sendControl (hbuild : Builds t build)
    (h : p.sendControl t build = .ok (p', .ok ())) :
    ∃ bytes, p'.outbox.map PooledBuffer.data = p.outbox.map PooledBuffer.data ++ [bytes] ∧
      ∃ header rest, readPacket bytes = .ok (build header, rest) ∧ header.packetType = t ∧
        header.id = p.sequenceId + 1 ∧ header.acks = p.ackState.nextAcks := by
  obtain ⟨⟨e, heq⟩, -⟩ | ⟨p₁, header, pool, buf, size, sb, -, hnext, hwrite, -, hp'⟩ :=
    sendControl_cases h
  · cases heq
  · obtain ⟨-, htype, hid, hacks⟩ := nextPacketHeader_eq_ok hnext
    obtain ⟨header', rest, hread, hagrees⟩ := readPacket_bytes
      (by rw [hbuild.header, hbuild.packetType]; exact Or.inl ⟨p, p₁, hnext⟩)
        (writePacket_eq_ok hwrite).1
    rw [hbuild.withHeader] at hread
    rw [hbuild.header] at hagrees
    refine ⟨buf.data, ?_, header', rest, hread, hagrees.packetType.trans htype,
      hagrees.id.trans hid, hagrees.acks.trans hacks⟩
    rw [hp', List.map_append]
    rfl

/-! ### Endpoints that never had a message -/

/-- Nothing is queued, and no packet was one of messages. -/
structure Quiet (config : PicklebackConfig) (p : Endpoint) : Prop where
  idle : p.Idle
  handles : ∀ i, p.dispatcher.messagesInPackets.entrySequences i = none
  sentLen : p.sentBuffer.len = config.sentPacketsBufferSize
  receivedLen : p.receivedBuffer.len = config.receivedPacketsBufferSize
  config : p.config = config

namespace Quiet

variable {config : PicklebackConfig}

theorem new (overflowChecks : Bool) (config : PicklebackConfig) (time : Time) :
    (Endpoint.new overflowChecks config time).Quiet config :=
  ⟨idle_new overflowChecks config time, fun _ => rfl, rfl, rfl, rfl⟩

theorem setXorSalt (h : p.Quiet config) (salt : Option UInt64) : (p.setXorSalt salt).Quiet config :=
  ⟨h.idle, h.handles, h.sentLen, h.receivedLen, h.config⟩

theorem update (h : p.Quiet config) (dt : Time) : (p.update dt).Quiet config :=
  ⟨idle_update h.idle dt, h.handles, h.sentLen, h.receivedLen, h.config⟩

theorem sendControl (h : p.Quiet config) {r : Except PicklebackError Unit}
    (hcall : p.sendControl t build = .ok (p', r)) : p'.Quiet config := by
  obtain ⟨-, hp⟩ | ⟨p₁, header, pool, buf, size, sb, -, -, -, hsb, hp⟩ := sendControl_cases hcall
  · rw [hp]
    exact ⟨h.idle, h.handles, h.sentLen, h.receivedLen, h.config⟩
  · rw [hp]
    exact ⟨h.idle, h.handles, (SequenceBuffer.len_insert hsb).trans h.sentLen,
      h.receivedLen, h.config⟩

theorem visitPacketsToSend (h : p.Quiet config) :
    p.visitPacketsToSend = .ok ({ p with outbox := [], pool := p.pool.returnBuffers p.outbox },
      p.outbox.map PooledBuffer.data) ∧
      Quiet config { p with outbox := [], pool := p.pool.returnBuffers p.outbox } :=
  ⟨h.idle.visitPacketsToSend, h.idle, h.handles, h.sentLen, h.receivedLen, h.config⟩

/-- **An ack** has no messages to look up. -/
theorem exists_processAck (h : p.Quiet config) (t : PacketType) (ack : UInt16 × Bool) :
    ∃ p', p.processAck t ack = .ok p' ∧ p'.Quiet config := by
  have hremove : ∀ i, (p.dispatcher.messagesInPackets.remove ack.1).2.entrySequences i = none := by
    intro i
    rw [SequenceBuffer.entrySequences_remove, h.handles i]
    exact ite_self none
  have hacked : p.dispatcher.ackedPacket ack.1 p.channels = .ok ([], { p.dispatcher with
      messagesInPackets := (p.dispatcher.messagesInPackets.remove ack.1).2 }, p.channels) := by
    have hnone : p.dispatcher.messagesInPackets.get ack.1 = none := by
      rw [SequenceBuffer.get, h.handles]
      rfl
    simp only [MessageDispatcher.ackedPacket, SequenceBuffer.remove, hnone]
  rw [processAck]
  split
  · exact ⟨p, rfl, h⟩
  · split
    · exact ⟨p, rfl, h⟩
    · split
      · exact ⟨p, rfl, h⟩
      · rw [hacked]
        exact ⟨_, rfl, h.idle, hremove, h.sentLen, h.receivedLen, h.config⟩

/-- **Receiving** keeps it, whatever is received. -/
theorem processIncomingPacket (h : p.Quiet config) {header : ProtocolPacketHeader}
    {payload : List UInt8}
    {r : Except PicklebackError Unit}
    (hcall : p.processIncomingPacket header payload = .ok (p', r)) :
    p'.Quiet config := by
  refine processIncomingPacket_induct (I := Quiet config) ?_ ?_ ?_ ?_ h hcall
  · intro q q' hq hsame
    rw [hsame]
    exact ⟨hq.idle, hq.handles, hq.sentLen, hq.receivedLen, hq.config⟩
  · intro q b id m hq hb
    exact ⟨hq.idle, hq.handles, hq.sentLen, (SequenceBuffer.len_insert hb).trans hq.receivedLen,
      hq.config⟩
  · intro q q' packetType ack hq hack
    obtain ⟨q₁, hq₁, hquiet⟩ := hq.exists_processAck packetType ack
    rw [hq₁] at hack
    cases hack
    exact hquiet
  · intro q q' m hq hm
    have hidle := hq.idle.receiveMessage hm
    simp only [receiveMessage] at hm
    split at hm
    · cases hm
      exact hq
    · split at hm
      · obtain ⟨d, hd, rfl⟩ := exists_of_map_eq_ok hm
        refine ⟨hidle, ?_, hq.sentLen, hq.receivedLen, hq.config⟩
        show ∀ i, d.messagesInPackets.entrySequences i = none
        rw [MessageDispatcher.processReceivedMessage_eq_ok hd]
        exact hq.handles
      · cases hm
        exact ⟨hidle, hq.handles, hq.sentLen, hq.receivedLen, hq.config⟩

end Quiet

theorem receives_of_processIncomingPacket {header : ProtocolPacketHeader} {payload : List UInt8}
    (hcall : p.processIncomingPacket header payload = .ok (p', .ok ())) :
    p.ackState.Receives header.id header.acks p'.ackState := by
  obtain ⟨-, hr, -⟩ | ⟨-, hr, -⟩ | ⟨hcheck, hnew, -, receivedMeta, rb, hrb, hack⟩ :=
    processIncomingPacket_cases hcall
  · cases hr
  · cases hr
  · exact ⟨⟨hcheck, hnew⟩, receivedMeta, rb, hrb, hack⟩

end Endpoint

end Pickleback
