import Pickleback.AckState
import Pickleback.Queue
import Pickleback.Window
import Pickleback.Wire

/-!
# Composing packets

`compose_packets` on an endpoint whose queues are sound: its loops end, its writes fit, and what it
does is a series of single sends. Each send uses the next packet id, writes the header that acks
what was received, fills the packet with messages from the queues, and records the packet in the
windows of sent packets and of message handles. The series ends when nothing is due or with
`Backpressure`; the only other way out is a packet id that is behind one of the two windows.

## Main definitions

* `Emission` — a packet of messages, with its header and the messages in it
* `Endpoint.Sound` — what every reachable endpoint satisfies
* `Endpoint.Emits`, `Endpoint.EmitsAll` — one send, and a series of sends

## Main results

* `fillPacket_spec` — the inner loops
* `composeLoop_spec`, `composePackets_spec` — the outer loop, and the whole call
-/

namespace Pickleback

open ByteCodec

/-! ### Writers and queues -/

/-- `w'` is `w` after `bytes` have been written to it. -/
structure WriteLimiter.Extends (w : WriteLimiter) (bytes : List UInt8) (w' : WriteLimiter) :
    Prop where
  limit : w'.limit = w.limit
  written : w'.written = w.written + bytes.length
  data : w'.buffer.data = w.buffer.data ++ bytes
  fits : w.written ≤ w.limit → w'.written ≤ w'.limit

namespace WriteLimiter.Extends

theorem refl (w : WriteLimiter) : w.Extends [] w := ⟨rfl, rfl, by simp, id⟩

theorem trans {w w' w'' : WriteLimiter} {bytes bytes' : List UInt8} (h : w.Extends bytes w')
    (h' : w'.Extends bytes' w'') : w.Extends (bytes ++ bytes') w'' where
  limit := h'.limit.trans h.limit
  written := by
    rw [h'.written, h.written, List.length_append]
    omega
  data := by rw [h'.data, h.data, List.append_assoc]
  fits := fun hw => h'.fits (h.fits hw)

theorem of_writeAll {w w' : WriteLimiter} {bytes : List UInt8} (h : w.writeAll bytes = .ok w') :
    w.Extends bytes w' := by
  rw [writeAll] at h
  split at h
  · next hle =>
    cases h
    refine ⟨rfl, rfl, by simp, fun hw => ?_⟩
    rw [remaining] at hle
    dsimp only
    omega
  · cases h

/-- What fits is written. -/
theorem exists_writeAll {w : WriteLimiter} {bytes : List UInt8} (h : bytes.length ≤ w.remaining) :
    ∃ w', w.writeAll bytes = .ok w' ∧ w.Extends bytes w' :=
  ⟨_, writeAll_of_le h, of_writeAll (writeAll_of_le h)⟩

end WriteLimiter.Extends

/-- What a packet's sender remembers of a message in it. -/
def Message.handle (m : Message) : MessageHandle := ⟨m.id, m.fragment.map Fragment.index, m.channel⟩

namespace Endpoint

/-- **The inner loop**: some messages of the channel, at least one if there is room for any. -/
theorem writeChannelMessagesToPacket_spec {fuel : ℕ} {ch : Channel} (writer : WriteLimiter)
    (handles : List MessageHandle) (pool : BufPool) (n : ℕ) (hsound : ch.Sound)
    (hfuel : ch.numReady < fuel) :
    ∃ ms ch' writer',
      writeChannelMessagesToPacket fuel ch writer handles pool n
        = .ok (ch', writer', handles ++ ms.map Message.handle,
          pool.returnBuffers (ms.map Message.buffer),
            .ok (n + ms.length)) ∧
      ch.Wrote ms ch' ∧ writer.Extends (ms.flatMap fun m => m.buffer.data) writer' ∧
      (1043 ≤ writer.remaining → 0 < ch.numReady → ms ≠ []) := by
  induction fuel generalizing ch writer handles pool n with
  | zero => omega
  | succ fuel ih =>
    rw [writeChannelMessagesToPacket]
    cases hget : ch.getMessageToWriteToAPacket writer.remaining with
    | none =>
      refine ⟨[], ch, writer, by simp [BufPool.returnBuffers], .refl ch, .refl writer, ?_⟩
      intro hroom hready
      have := Channel.exists_getMessageToWriteToAPacket hsound hroom hready
      simp [hget] at this
    | some r =>
      obtain ⟨msg, ch₁⟩ := r
      obtain ⟨hsize, hwrote⟩ := Channel.getMessageToWriteToAPacket_eq_some hget
      obtain ⟨hchan, payload, henc⟩ := hsound.of_holds (hwrote.holds (List.mem_singleton_self msg))
      have hready := hwrote.numReady_add hsound.resend
      rw [List.length_singleton] at hready
      have hfits : msg.buffer.data.length ≤ writer.remaining := henc.size_le.1.trans hsize
      have hwrite := WriteLimiter.writeAll_of_le hfits
      have hext := WriteLimiter.Extends.of_writeAll hwrite
      have hhandle : (⟨msg.id, msg.fragment.map Fragment.index, ch₁.id⟩ : MessageHandle)
          = msg.handle := by
        rw [hwrote.shrinks.id, ← hchan]
        rfl
      simp only [hwrite, hhandle]
      split
      · exact ⟨[msg], ch₁, _, rfl, hwrote, by simpa using hext, fun _ _ => by simp⟩
      · obtain ⟨ms, ch', writer', heq, hwrote', hext', -⟩ :=
          ih _ (handles ++ [msg.handle]) (pool.returnBuffer msg.buffer)
            (n + 1) (hwrote.sound hsound)
            (by omega)
        refine ⟨msg :: ms, ch', writer', ?_, hwrote.trans hsound.resend hwrote',
          ?_, fun _ _ => by simp⟩
        · rw [heq, List.append_assoc, Nat.add_assoc, Nat.add_comm 1]
          rfl
        · rw [List.flatMap_cons]
          exact hext.trans hext'

theorem firstNonEmpty_of_sound {cs : ChannelList} {ch : Channel}
    (h : cs.firstNonEmpty? = some ch) : ch ∈ cs ∧ 0 < ch.numReady :=
  ⟨List.mem_of_find?_eq_some h, ch.anyReadyToSend_iff.mp (List.find?_some h)⟩

theorem numReady_of_firstNonEmpty {cs : ChannelList} (h : cs.firstNonEmpty? = none) :
    cs.numReady = 0 := by
  have hnone : cs.anyWithMessagesToSend = false := by
    rw [ChannelList.anyWithMessagesToSend, List.any_eq_false]
    exact List.find?_eq_none.mp h
  have := cs.anyWithMessagesToSend_iff
  rw [hnone] at this
  simpa using this

/-- **Filling a packet**, from all channels. -/
theorem fillPacket_spec {fuel : ℕ} {p : Endpoint} (writer : WriteLimiter)
    (handles : List MessageHandle) (hsound : p.channels.Sound)
    (hfuel : p.channels.numReady < fuel) :
    ∃ ms cs writer' stats,
      fillPacket fuel p writer handles
        = .ok ({ p with
            channels := cs
            pool := p.pool.returnBuffers (ms.map Message.buffer)
            stats := stats }, writer', handles ++ ms.map Message.handle, .ok ()) ∧
      p.channels.Wrote ms cs ∧ cs.Sound ∧ cs.numReady + ms.length = p.channels.numReady ∧
      (∀ m ∈ ms, ∃ ch ∈ p.channels, ch.Holds m) ∧
      writer.Extends (ms.flatMap fun m => m.buffer.data) writer' ∧
      (1043 ≤ writer.remaining → 0 < p.channels.numReady → ms ≠ []) ∧
      stats.packetsAcked = p.stats.packetsAcked := by
  induction fuel generalizing p writer handles with
  | zero => omega
  | succ fuel ih =>
    rw [fillPacket]
    cases hfirst : p.channels.firstNonEmpty? with
    | none =>
      have hzero := numReady_of_firstNonEmpty hfirst
      refine ⟨[], p.channels, writer, p.stats, by simp [BufPool.returnBuffers],
        .refl _, hsound, rfl, by simp, .refl writer, fun _ hpos => by omega, rfl⟩
    | some ch =>
      obtain ⟨hmem, hready⟩ := firstNonEmpty_of_sound hfirst
      have hch := hsound.sound ch hmem
      obtain ⟨ms, ch', writer', hwrite, hwrote, hext, hsome⟩ :=
        writeChannelMessagesToPacket_spec writer handles p.pool 0 hch
          (Nat.lt_succ_of_le ch.numReady_le)
      have hcs := hsound.set (hwrote.sound hch) hwrote.shrinks.id
      have hcount := ChannelList.numReady_set hsound.ids hmem (hwrote.numReady_add hch.resend)
      have hwrotes := ChannelList.Wrote.set hsound hmem hwrote
      have hheld : ∀ m ∈ ms, ∃ c ∈ p.channels, c.Holds m := fun m hm => ⟨ch, hmem, hwrote.holds hm⟩
      simp only [hwrite, Nat.zero_add]
      cases hms : ms with
      | nil =>
        rw [hms] at hwrotes
        refine ⟨[], p.channels.set ch.id ch', writer', p.stats, by simp, hwrotes, hcs,
          by rw [← hcount, hms], by simp, by simpa [hms] using hext, fun hroom _ => ?_, rfl⟩
        exact absurd hms (hsome hroom hready)
      | cons m ms' =>
        simp only [List.length_cons]
        rw [← hms]
        split
        · refine ⟨ms, p.channels.set ch.id ch', writer', _, rfl, hwrotes, hcs, hcount, hheld,
            hext, fun _ _ => by simp [hms], rfl⟩
        · have hlen : 0 < ms.length := by simp [hms]
          obtain ⟨ms₂, cs₂, writer₂, stats₂, hfill, hwrotes₂, hcs₂,
            hcount₂, hheld₂, hext₂, -, hacked₂⟩ :=
            ih (p := { p with
                channels := p.channels.set ch.id ch'
                pool := p.pool.returnBuffers (ms.map Message.buffer)
                stats := { p.stats with messagesSent := p.stats.messagesSent + (ms'.length + 1) } })
              writer' (handles ++ ms.map Message.handle) hcs (by dsimp only; omega)
          refine ⟨ms ++ ms₂, cs₂, writer₂, stats₂, ?_, hwrotes.trans hsound.sound hwrotes₂,
            hcs₂, ?_, ?_, ?_, fun _ _ => by simp [hms], hacked₂⟩
          · rw [hfill]
            simp [BufPool.returnBuffers]
          · rw [List.length_append]
            dsimp only at hcount₂
            omega
          · intro m hm
            rcases List.mem_append.mp hm with hm | hm
            · exact hheld m hm
            · exact ChannelList.exists_holds_of_shrinks
                (ChannelList.shrinks_set hsound.ids hmem hwrote.shrinks) (hheld₂ m hm)
          · rw [List.flatMap_append]
            exact hext.trans hext₂

end Endpoint

/-! ### Single sends -/

/-- A packet of messages, as `compose_packets` puts it together. -/
structure Emission where
  header : ProtocolPacketHeader
  salt : UInt64
  messages : List Message

/-- The bytes of the packet. -/
def Emission.bytes (e : Emission) : List UInt8 :=
  e.header.write ++ (writeU64 e.salt ++ e.messages.flatMap fun m => m.buffer.data)

/-- The pools after the packet was put together: a buffer was taken for it, and those of its
messages were returned. -/
def Emission.spends (e : Emission) (pool : BufPool) : BufPool :=
  (pool.getBuffer 1150).2.returnBuffers (e.messages.map Message.buffer)

namespace Endpoint

/-- What holds of every endpoint with the default configuration whose salt is set. -/
structure Sound (p : Endpoint) : Prop where
  config : p.config = .default
  salt : p.xorSalt.isSome
  channels : p.channels.Sound
  sentLen : p.sentBuffer.len = 512
  receivedLen : p.receivedBuffer.len = 512
  handlesLen : p.dispatcher.messagesInPackets.len = 512

/-- **One send.** The next packet id, a header that acks what was received, messages from the
queues, and a record of the packet and of its messages. -/
structure Emits (p : Endpoint) (e : Emission) (p' : Endpoint) : Prop where
  unacked : ¬ p.sentUnackedPackets ≥ maxUnackedPackets
  numAcks : p.receivedUnackedPackets.toNat ≤ 350
  header : ProtocolPacketHeader.new (p.sequenceId + 1)
    (ackIter p.receivedBuffer p.receivedUnackedPackets) p.receivedUnackedPackets .messages =
      .ok e.header
  salt : p.xorSalt = some e.salt
  nonempty : e.messages ≠ []
  length_le : e.bytes.length ≤ 1150
  held : ∀ m ∈ e.messages, ∃ ch ∈ p.channels, ch.Holds m
  wrote : p.channels.Wrote e.messages p'.channels
  sent : ∃ size, p.sentBuffer.insert (p.sequenceId + 1)
    (SentMeta.new p.time size p.receivedBuffer.sequence) = .ok p'.sentBuffer
  handles : p.dispatcher.messagesInPackets.insert (p.sequenceId + 1) (e.messages.map Message.handle)
    = .ok p'.dispatcher.messagesInPackets
  outbox : p'.outbox.map PooledBuffer.data = p.outbox.map PooledBuffer.data ++ [e.bytes]
  packetsAcked : p'.stats.packetsAcked = p.stats.packetsAcked
  rest : p' = { p with
    sequenceId := p.sequenceId + 1
    channels := p'.channels
    pool := p'.pool
    stats := p'.stats
    sentBuffer := p'.sentBuffer
    outbox := p'.outbox
    dispatcher := { p.dispatcher with
      messagesInPackets := p'.dispatcher.messagesInPackets } }

/-- The next packet id is behind the window of sent packets or of message handles. -/
def TooOld (p : Endpoint) : Prop :=
  SequenceBuffer.sequenceLessThan (p.sequenceId + 1) (p.sentBuffer.sequence - 512) = true ∨
    SequenceBuffer.sequenceLessThan (p.sequenceId + 1)
      (p.dispatcher.messagesInPackets.sequence - 512) = true

theorem nextPacketHeader_of_le {p : Endpoint} {packetType : PacketType}
    {header : ProtocolPacketHeader} (hacks : ¬ p.receivedUnackedPackets > maxUnackedPackets)
    (hheader : ProtocolPacketHeader.new (p.sequenceId + 1)
      (ackIter p.receivedBuffer p.receivedUnackedPackets) p.receivedUnackedPackets packetType
        = .ok header) :
    p.nextPacketHeader packetType
      = .ok ({ p with sequenceId := p.sequenceId + 1 }, .ok header) := by
  have hacks' : ¬ receivedUnackedPackets { p with sequenceId := p.sequenceId + 1 }
      > maxUnackedPackets := hacks
  have hheader' : ProtocolPacketHeader.new (p.sequenceId + 1)
      (ackIter p.receivedBuffer (receivedUnackedPackets { p with sequenceId := p.sequenceId + 1 }))
      (receivedUnackedPackets { p with sequenceId := p.sequenceId + 1 }) packetType
        = .ok header := hheader
  simp only [nextPacketHeader, if_neg hacks', hheader']

theorem nextPacketHeader_of_gt {p : Endpoint} (hacks : p.receivedUnackedPackets > maxUnackedPackets)
    (packetType : PacketType) : p.nextPacketHeader packetType
      = .ok ({ p with sequenceId := p.sequenceId + 1 },
          .error (.backpressure .tooManyPending)) := by
  have hacks' : receivedUnackedPackets { p with sequenceId := p.sequenceId + 1 }
      > maxUnackedPackets := hacks
  simp only [nextPacketHeader, if_pos hacks']

/-- A header uses up an id, whether it can be made or not. -/
theorem nextPacketHeader_eq {p p' : Endpoint} {packetType : PacketType}
    {r : Except PicklebackError ProtocolPacketHeader}
    (h : p.nextPacketHeader packetType = .ok (p', r)) :
    p' = { p with sequenceId := p.sequenceId + 1 } := by
  simp only [nextPacketHeader] at h
  split at h
  · cases h
    rfl
  · split at h <;> cases h <;> rfl

/-- Asking for a header never panics. -/
theorem exists_nextPacketHeader (p : Endpoint) (packetType : PacketType) :
    ∃ r, p.nextPacketHeader packetType = .ok ({ p with sequenceId := p.sequenceId + 1 }, r) := by
  by_cases hacks : p.receivedUnackedPackets > maxUnackedPackets
  · exact ⟨_, nextPacketHeader_of_gt hacks packetType⟩
  · have hn : p.receivedUnackedPackets.toNat ≤ 350 := by
      rw [gt_iff_lt, UInt16.lt_iff_toNat_lt] at hacks
      simpa [maxUnackedPackets] using hacks
    obtain ⟨header, hheader⟩ := ProtocolPacketHeader.exists_new
      (p.sequenceId + 1) p.receivedBuffer hn
      packetType
    exact ⟨_, nextPacketHeader_of_le hacks hheader⟩

/-- Opening a packet writes a header and the salt, if neither limit on acks forbids it. -/
theorem openPacket_spec {p : Endpoint} (hsound : p.Sound)
    (hunacked : ¬ p.sentUnackedPackets ≥ maxUnackedPackets)
    (hacks : ¬ p.receivedUnackedPackets > maxUnackedPackets) :
    ∃ header salt writer, p.xorSalt = some salt ∧
      ProtocolPacketHeader.new (p.sequenceId + 1)
      (ackIter p.receivedBuffer p.receivedUnackedPackets)
        p.receivedUnackedPackets .messages = .ok header ∧
      p.openPacket none = .ok ({ p with
        sequenceId := p.sequenceId + 1
        pool := (p.pool.getBuffer 1150).2 }, .ok writer) ∧
      writer.buffer.data = header.write ++ writeU64 salt ∧ writer.limit = 1150 ∧
      writer.written = (header.write ++ writeU64 salt).length ∧ writer.written ≤ 63 := by
  obtain ⟨salt, hsalt⟩ := Option.isSome_iff_exists.mp hsound.salt
  have hn : p.receivedUnackedPackets.toNat ≤ 350 := by
    rw [gt_iff_lt, UInt16.lt_iff_toNat_lt] at hacks
    simpa [maxUnackedPackets] using hacks
  obtain ⟨header, hheader⟩ := ProtocolPacketHeader.exists_new (p.sequenceId + 1) p.receivedBuffer hn
    .messages
  have hlen := ProtocolPacketHeader.length_write_le hn hheader
  have hlimit : p.config.maxPacketSize = 1150 := by rw [hsound.config]; rfl
  obtain ⟨w₁, hw₁, hext₁⟩ := WriteLimiter.Extends.exists_writeAll
    (show header.write.length ≤ (WriteLimiter.new (p.pool.getBuffer 1150).1 1150).remaining by
      simp only [WriteLimiter.new, WriteLimiter.remaining]
      omega)
  obtain ⟨w₂, hw₂, hext₂⟩ := WriteLimiter.Extends.exists_writeAll
    (show (writeU64 salt).length ≤ w₁.remaining by
      rw [WriteLimiter.remaining, hext₁.limit, hext₁.written, length_writeU64]
      simp only [WriteLimiter.new]
      omega)
  have hext := hext₁.trans hext₂
  refine ⟨header, salt, w₂, hsalt, hheader, ?_, ?_, hext.limit, ?_, ?_⟩
  · have hnext : nextPacketHeader { p with pool := (p.pool.getBuffer 1150).2 } .messages
        = .ok ({ p with sequenceId := p.sequenceId + 1, pool := (p.pool.getBuffer 1150).2 },
            .ok header) :=
      nextPacketHeader_of_le hacks hheader
    simp only [openPacket, if_neg hunacked, hlimit, writePacketHeader, hnext, hw₁]
    simp only [hsalt, hw₂]
  · rw [hext.data]
    simp [WriteLimiter.new]
  · rw [hext.written]
    simp [WriteLimiter.new]
  · rw [hext.written]
    simp only [WriteLimiter.new, List.length_append, length_writeU64]
    omega

/-- With too much to ack, no packet is opened, but its id is used up. -/
theorem openPacket_of_gt {p : Endpoint} (hunacked : ¬ p.sentUnackedPackets ≥ maxUnackedPackets)
    (hacks : p.receivedUnackedPackets > maxUnackedPackets) :
    p.openPacket none = .ok ({ p with
      sequenceId := p.sequenceId + 1
      pool := (p.pool.getBuffer p.config.maxPacketSize).2 },
        .error (.backpressure .tooManyPending)) := by
  have hnext : nextPacketHeader { p with pool := (p.pool.getBuffer p.config.maxPacketSize).2 }
    .messages
      = .ok ({ p with
          sequenceId := p.sequenceId + 1
          pool := (p.pool.getBuffer p.config.maxPacketSize).2 },
        .error (.backpressure .tooManyPending)) :=
    nextPacketHeader_of_gt (show receivedUnackedPackets
      { p with pool := (p.pool.getBuffer p.config.maxPacketSize).2 } > maxUnackedPackets from hacks)
      .messages
  simp only [openPacket, if_neg hunacked, writePacketHeader, hnext]

/-! ### The outer loop -/

/-- Closing a packet inserts its id into two windows, and fails if it is behind one of them. -/
theorem closePacket_cases (p : Endpoint) (writer : WriteLimiter) (handles : List MessageHandle) :
    (∃ p', p.closePacket writer handles = (p', .error .sequenceTooOld) ∧
        (SequenceBuffer.sequenceLessThan p.sequenceId
            (p.sentBuffer.sequence - UInt16.ofNat p.sentBuffer.len) = true ∨
          SequenceBuffer.sequenceLessThan p.sequenceId (p.dispatcher.messagesInPackets.sequence
            - UInt16.ofNat p.dispatcher.messagesInPackets.len) = true)) ∨
      ∃ sb mp, p.sentBuffer.insert p.sequenceId (SentMeta.new p.time
            (writer.buffer.data.length + p.config.packetHeaderSize) p.receivedBuffer.sequence) =
            .ok sb ∧
        p.dispatcher.messagesInPackets.insert p.sequenceId handles = .ok mp ∧
        p.closePacket writer handles = ({ p with
          sentBuffer := sb
          outbox := p.outbox ++ [writer.buffer]
          stats := { p.stats with packetsSent := p.stats.packetsSent + 1 }
          dispatcher := { p.dispatcher with messagesInPackets := mp } }, .ok ()) := by
  rw [closePacket, sendRawPacket]
  cases hsb : p.sentBuffer.insert p.sequenceId (SentMeta.new p.time
      (writer.buffer.data.length + p.config.packetHeaderSize) p.receivedBuffer.sequence) with
  | error e =>
    obtain ⟨rfl, hold⟩ := SequenceBuffer.insert_eq_error_iff.mp hsb
    exact Or.inl ⟨p, rfl, Or.inl hold⟩
  | ok sb =>
    cases hmp : p.dispatcher.messagesInPackets.insert p.sequenceId handles with
    | error e =>
      obtain ⟨rfl, hold⟩ := SequenceBuffer.insert_eq_error_iff.mp hmp
      refine Or.inl ⟨{ p with
        sentBuffer := sb
        outbox := p.outbox ++ [writer.buffer]
        stats := { p.stats with packetsSent := p.stats.packetsSent + 1 } }, ?_, Or.inr hold⟩
      simp only [MessageDispatcher.setPacketMessageHandles, hmp, Except.map]
    | ok mp =>
      refine Or.inr ⟨sb, mp, rfl, rfl, ?_⟩
      simp only [MessageDispatcher.setPacketMessageHandles, hmp, Except.map]

/-- A round in which a packet is opened and filled ends, or goes on, as closing the packet says. -/
theorem composeLoop_of_fillPacket {p p₀ q q' : Endpoint} {writer writer' : WriteLimiter}
    {handles : List MessageHandle} (fuel : ℕ) (hready : 0 < p.channels.numReady)
    (hopen : p.openPacket none = .ok (p₀, .ok writer))
    (hfill : p₀.fillPacket (p₀.channels.numQueued + 1) writer [] =
      .ok (q, writer', handles, .ok ()))
    (hnotEmpty : writer'.remaining ≠ q.config.maxPacketSize) :
    (∀ e, q.closePacket writer' handles = (q', .error e) →
        composeLoop (fuel + 1) p none [] = .ok (q', .error e)) ∧
      (q.closePacket writer' handles = (q', .ok ()) →
        composeLoop (fuel + 1) p none [] = composeLoop fuel q' none []) := by
  rw [composeLoop, if_pos (p.channels.anyWithMessagesToSend_iff.mpr hready), hopen]
  dsimp only
  rw [hfill]
  dsimp only
  rw [if_pos hnotEmpty]
  exact ⟨fun e hclose => by rw [hclose], fun hclose => by rw [hclose]⟩

/-- **One round** that opens a packet: it is sent, with the bytes that were written to it, or its id
is too old. -/
theorem composeLoop_round (fuel : ℕ) {p : Endpoint} (hsound : p.Sound)
    (hready : 0 < p.channels.numReady) (hunacked : ¬ p.sentUnackedPackets ≥ maxUnackedPackets)
    (hacks : ¬ p.receivedUnackedPackets > maxUnackedPackets) :
    (∃ e p₁, p.Emits e p₁ ∧ p₁.pool = e.spends p.pool ∧ p₁.Sound ∧
        p₁.channels.numReady < p.channels.numReady ∧
        (∀ p₀ writer r, p.openPacket none = .ok (p₀, .ok writer) →
          p₀.fillPacket (p₀.channels.numQueued + 1) writer [] = .ok r →
            e.bytes = r.2.1.buffer.data) ∧
        composeLoop (fuel + 1) p none [] = composeLoop fuel p₁ none []) ∨
      (p.TooOld ∧ ∃ p', composeLoop (fuel + 1) p none [] = .ok (p', .error .sequenceTooOld)) := by
  obtain ⟨header, salt, writer, hsalt, hheader, hopen, hdata, hlimit, hwritten, hle⟩ :=
    openPacket_spec hsound hunacked hacks
  obtain ⟨ms, cs, writer', stats', hfill, hwrote, hcs, hcount, hheld, hext, hsome, hacked⟩ :=
    fillPacket_spec (p := { p with sequenceId := p.sequenceId + 1, pool :=
      (p.pool.getBuffer 1150).2 }) writer []
      hsound.channels (Nat.lt_succ_of_le p.channels.numReady_le)
  set pool' := (p.pool.getBuffer 1150).2.returnBuffers (ms.map Message.buffer) with hpool
  have hms : ms ≠ [] := hsome (by rw [WriteLimiter.remaining, hlimit]; omega) hready
  have hpos : 0 < ms.length := List.length_pos_iff.mpr hms
  have hnotEmpty : writer'.remaining ≠ p.config.maxPacketSize := by
    rw [hsound.config, WriteLimiter.remaining, hext.limit, hlimit, hext.written, hwritten]
    simp only [List.length_append, length_writeU64, PicklebackConfig.default]
    omega
  obtain ⟨p', hclose, hold⟩ | ⟨sb, mp, hsb, hmp, hclose⟩ := closePacket_cases { p with
      sequenceId := p.sequenceId + 1
      channels := cs
      pool := pool'
      stats := stats' } writer' (ms.map Message.handle)
  · right
    rw [hsound.sentLen, hsound.handlesLen] at hold
    exact ⟨hold, p', (composeLoop_of_fillPacket fuel hready hopen hfill hnotEmpty).1 _ hclose⟩
  · left
    refine ⟨⟨header, salt, ms⟩, _, ?_, hpool, ?_, ?_, fun p₀ w r hopen' hfill' => ?_,
      (composeLoop_of_fillPacket fuel hready hopen hfill hnotEmpty).2 hclose⟩
    · exact {
        unacked := hunacked
        numAcks := by
          rw [gt_iff_lt, UInt16.lt_iff_toNat_lt] at hacks
          simpa [maxUnackedPackets] using hacks
        header := hheader
        salt := hsalt
        nonempty := hms
        length_le := by
          have hfits := hext.fits (by rw [hlimit]; omega)
          rw [hext.written, hext.limit, hlimit, hwritten] at hfits
          simpa [Emission.bytes, Nat.add_assoc] using hfits
        held := hheld
        wrote := hwrote
        sent := ⟨_, hsb⟩
        handles := hmp
        outbox := by
          simp only [List.map_append, List.map_cons, List.map_nil, hext.data, hdata, Emission.bytes,
            List.append_assoc]
        packetsAcked := hacked
        rest := rfl }
    · exact {
        config := hsound.config
        salt := hsound.salt
        channels := hcs
        sentLen := (SequenceBuffer.len_insert hsb).trans hsound.sentLen
        receivedLen := hsound.receivedLen
        handlesLen := (SequenceBuffer.len_insert hmp).trans hsound.handlesLen }
    · dsimp only at hcount ⊢
      omega
    · cases hopen.symm.trans hopen'
      cases hfill.symm.trans hfill'
      rw [hext.data, hdata, Emission.bytes, List.append_assoc]

theorem Emits.shrinks {p p' : Endpoint} {e : Emission} (h : p.Emits e p') :
    List.Forall₂ Channel.Shrinks p.channels p'.channels :=
  h.wrote.imp fun _ _ hc => hc.shrinks

/-- A series of sends. -/
inductive EmitsAll : Endpoint → List Emission → Endpoint → Prop
  | nil (p : Endpoint) : EmitsAll p [] p
  | cons {p p₁ p' : Endpoint} {e : Emission} {es : List Emission} (h : p.Emits e p₁)
    (hrest : EmitsAll p₁ es p') : EmitsAll p (e :: es) p'

/-- How `compose_packets` ends when no packet id is too old: nothing is due any more, or one of the
two limits on acks is reached. The limit on received packets is noticed after the packet id was used
up. -/
inductive Stops (p : Endpoint) : Endpoint → Except PicklebackError Unit → Prop
  | done (h : p.channels.numReady = 0) : Stops p p (.ok ())
  | unacked (h : p.sentUnackedPackets ≥ maxUnackedPackets) :
    Stops p p (.error (.backpressure .tooManyPending))
  | acks (pool : BufPool) (h : p.receivedUnackedPackets > maxUnackedPackets) :
    Stops p { p with sequenceId := p.sequenceId + 1, pool := pool }
      (.error (.backpressure .tooManyPending))

section Stops

variable {p p' : Endpoint} {r : Except PicklebackError Unit}

theorem Stops.channels (h : p.Stops p' r) : p'.channels = p.channels := by cases h <;> rfl

theorem Stops.dispatcher (h : p.Stops p' r) : p'.dispatcher = p.dispatcher := by cases h <;> rfl

theorem Stops.sentBuffer (h : p.Stops p' r) : p'.sentBuffer = p.sentBuffer := by cases h <;> rfl

theorem Stops.outbox (h : p.Stops p' r) : p'.outbox = p.outbox := by cases h <;> rfl

end Stops

/-- The pools after a call of `compose_packets` that has sent `es`: a packet that is given up for
lack of a header has had its buffer. -/
def Spends (p : Endpoint) (es : List Emission) (p' : Endpoint) : Prop :=
  p'.pool = es.foldl (fun pool e => e.spends pool) p.pool ∨
    p'.pool = ((es.foldl (fun pool e => e.spends pool) p.pool).getBuffer 1150).2

/-- `compose_packets` would send a packet whose id is too old. -/
def Blocked (p : Endpoint) : Prop :=
  0 < p.channels.numReady ∧ ¬ p.sentUnackedPackets ≥ maxUnackedPackets ∧
    ¬ p.receivedUnackedPackets > maxUnackedPackets ∧ p.TooOld

/-- A packet that was sent had an id that was not too old, and neither is the following one. -/
theorem Emits.not_tooOld {p p' : Endpoint} {e : Emission} (hsound : p.Sound) (h : p.Emits e p') :
    ¬ p.TooOld ∧ ¬ p'.TooOld := by
  have hid : p'.sequenceId = p.sequenceId + 1 := by rw [h.rest]
  obtain ⟨size, hsent⟩ := h.sent
  constructor
  · have hs := (SequenceBuffer.insert_cases hsent).1
    have hm := (SequenceBuffer.insert_cases h.handles).1
    rw [hsound.sentLen] at hs
    rw [hsound.handlesLen] at hm
    rintro (hold | hold)
    · exact absurd (hold.symm.trans hs) (by decide)
    · exact absurd (hold.symm.trans hm) (by decide)
  · have hs := SequenceBuffer.sequenceLessThan_succ_of_insert hsound.sentLen hsent
    have hm := SequenceBuffer.sequenceLessThan_succ_of_insert hsound.handlesLen h.handles
    rw [TooOld, hid, hs, hm]
    simp

/-- **The outer loop** is a series of sends, unless the first packet id is too old. -/
theorem composeLoop_spec {fuel : ℕ} {p : Endpoint} (hsound : p.Sound)
    (hfuel : p.channels.numReady < fuel) (hblocked : ¬ p.Blocked) :
    ∃ es p₁ p' r, composeLoop fuel p none [] = .ok (p', r) ∧ p.EmitsAll es p₁ ∧ p₁.Sound ∧
      p.Spends es p' ∧ p₁.Stops p' r := by
  induction fuel generalizing p with
  | zero => omega
  | succ fuel ih =>
    by_cases hready : 0 < p.channels.numReady
    · have hany := p.channels.anyWithMessagesToSend_iff.mpr hready
      by_cases hunacked : p.sentUnackedPackets ≥ maxUnackedPackets
      · refine ⟨[], p, p, _, ?_, .nil p, hsound, Or.inl rfl, .unacked hunacked⟩
        rw [composeLoop, if_pos hany, openPacket, if_pos hunacked]
      by_cases hacks : p.receivedUnackedPackets > maxUnackedPackets
      · have hopen := openPacket_of_gt hunacked hacks
        have hlimit : p.config.maxPacketSize = 1150 := by rw [hsound.config]; rfl
        rw [hlimit] at hopen
        refine ⟨[], p, _, _, ?_, .nil p, hsound, Or.inr rfl, .acks _ hacks⟩
        rw [composeLoop, if_pos hany, hopen]
        rfl
      obtain ⟨e, p₁, hemits, hpool, hsound₁, hless, -, heq⟩ | ⟨hold, -⟩ :=
        composeLoop_round fuel hsound hready hunacked hacks
      · obtain ⟨es, p₂, p', r, hloop, hall, hsound₂, hspends, hstop⟩ :=
          ih hsound₁ (by omega) fun hb => (hemits.not_tooOld hsound).2 hb.2.2.2
        refine ⟨e :: es, p₂, p', r, heq.trans hloop, .cons hemits hall, hsound₂, ?_, hstop⟩
        rwa [Spends, hpool] at hspends
      · exact absurd ⟨hready, hunacked, hacks, hold⟩ hblocked
    · have hany : p.channels.anyWithMessagesToSend = false := by
        rw [← Bool.not_eq_true, ChannelList.anyWithMessagesToSend_iff]
        exact hready
      refine ⟨[], p, p, .ok (), ?_, .nil p, hsound, Or.inl rfl, .done (by omega)⟩
      rw [composeLoop, hany]
      simp

/-- **Composing packets**: a series of sends, ending in one of the expected ways, or the one error
that is not expected. -/
theorem composePackets_spends {p : Endpoint} (hsound : p.Sound) :
    (¬ p.Blocked ∧ ∃ es p₁ p' r, p.composePackets = .ok (p', r) ∧ p.EmitsAll es p₁ ∧ p₁.Sound ∧
        p.Spends es p' ∧ p₁.Stops p' r) ∨
      (p.Blocked ∧ ∃ p', p.composePackets = .ok (p', .error .sequenceTooOld)) := by
  by_cases hblocked : p.Blocked
  · right
    obtain ⟨hready, hunacked, hacks, hold⟩ := hblocked
    refine ⟨⟨hready, hunacked, hacks, hold⟩, ?_⟩
    rw [composePackets, if_neg hunacked]
    obtain ⟨e, p₁, hemits, -⟩ | ⟨-, h⟩ :=
      composeLoop_round (p.channels.numQueued + 65535) hsound hready hunacked hacks
    · exact absurd hold (hemits.not_tooOld hsound).1
    · exact h
  · left
    refine ⟨hblocked, ?_⟩
    by_cases hunacked : p.sentUnackedPackets ≥ maxUnackedPackets
    · refine ⟨[], p, p, _, ?_, .nil p, hsound, Or.inl rfl, .unacked hunacked⟩
      rw [composePackets, if_pos hunacked]
    · rw [composePackets, if_neg hunacked]
      exact composeLoop_spec hsound (lt_of_le_of_lt p.channels.numReady_le (by omega)) hblocked

/-- The same, without the pools. -/
theorem composePackets_spec {p : Endpoint} (hsound : p.Sound) :
    (¬ p.Blocked ∧ ∃ es p₁ p' r, p.composePackets = .ok (p', r) ∧ p.EmitsAll es p₁ ∧ p₁.Sound ∧
        p₁.Stops p' r) ∨
      (p.Blocked ∧ ∃ p', p.composePackets = .ok (p', .error .sequenceTooOld)) := by
  obtain ⟨hblocked, es, p₁, p', r, hcompose, hall, hsound₁, -, hstop⟩ | hblocked :=
    composePackets_spends hsound
  · exact Or.inl ⟨hblocked, es, p₁, p', r, hcompose, hall, hsound₁, hstop⟩
  · exact Or.inr hblocked

end Endpoint

end Pickleback
