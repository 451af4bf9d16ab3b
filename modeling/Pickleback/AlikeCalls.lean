import Pickleback.Alike
import Pickleback.Calls

/-!
# Endpoints with different pools

Two endpoints are alike if they differ only in their buffer pools, in the capacities of buffers and
in what has been drained from the inboxes of one of them. A call finds the same in both: it panics
in both or in neither, returns the same, hands the same bytes to the network, and leaves the
endpoints alike.

## Main definitions

* `Endpoint.Alike` — the same but for pools and drained inboxes
* `Endpoint.Same` — alike, and the same was returned

## Main results

* `Endpoint.Alike.sendMessage`, `.visitPacketsToSend`, `.sendKeepAlive`, `.processIncomingPacket` —
  the calls agree
* `Endpoint.Alike.drainReceivedMessages`, `.drainMessageAcks` — a drain leaves the endpoints alike
-/

namespace Pickleback

open Lockstep

/-- The same but for the configuration of the pools. -/
def PicklebackConfig.Alike (c c' : PicklebackConfig) : Prop :=
  { c with bufferPoolsConfig := none } = { c' with bufferPoolsConfig := none }

/-- The same bytes were written, and the same number of bytes is left. -/
structure WriteLimiter.Alike (w w' : WriteLimiter) : Prop where
  data : w.buffer.data = w'.buffer.data
  limit : w.limit = w'.limit
  written : w.written = w'.written

namespace WriteLimiter

variable {w w' : WriteLimiter}

theorem Alike.remaining (h : w.Alike w') : w.remaining = w'.remaining := by
  rw [WriteLimiter.remaining, WriteLimiter.remaining, h.limit, h.written]

theorem Alike.writeAll (h : w.Alike w') (bytes : List UInt8) :
    Agree WriteLimiter.Alike (w.writeAll bytes) (w'.writeAll bytes) := by
  rw [WriteLimiter.writeAll, WriteLimiter.writeAll, h.remaining]
  by_cases hfits : bytes.length ≤ w'.remaining
  · rw [if_pos hfits, if_pos hfits]
    exact .ok ⟨congrArg (· ++ bytes) h.data, h.limit, congrArg (· + bytes.length) h.written⟩
  · rw [if_neg hfits, if_neg hfits]
    exact .error _

theorem alike_new {buffer buffer' : PooledBuffer} (h : buffer.data = buffer'.data) (limit : ℕ) :
    (WriteLimiter.new buffer limit).Alike (WriteLimiter.new buffer' limit) := ⟨h, rfl, rfl⟩

end WriteLimiter

/-- The same but for the pools, the capacities of buffers, and what has been drained from the
inboxes of `p`. -/
structure Endpoint.Alike (messages : UInt8 → List ReceivedMessage) (acks : UInt8 → List MessageId)
    (p p' : Endpoint) : Prop where
  time : p.time = p'.time
  rtt : p.rtt = p'.rtt
  packetLoss : p.packetLoss = p'.packetLoss
  config : p.config.Alike p'.config
  sequenceId : p.sequenceId = p'.sequenceId
  newestAck : p.newestAck = p'.newestAck
  ackLowWatermark : p.ackLowWatermark = p'.ackLowWatermark
  ackLowWatermarkNonEmpty : p.ackLowWatermarkNonEmpty = p'.ackLowWatermarkNonEmpty
  dispatcher : p.dispatcher.Alike messages acks p'.dispatcher
  channels : p.channels.Alike p'.channels
  sentBuffer : p.sentBuffer = p'.sentBuffer
  receivedBuffer : p.receivedBuffer = p'.receivedBuffer
  stats : p.stats = p'.stats
  outbox : p.outbox.map PooledBuffer.data = p'.outbox.map PooledBuffer.data
  xorSalt : p.xorSalt = p'.xorSalt
  overflowChecks : p.overflowChecks = p'.overflowChecks

namespace Endpoint

variable {messages : UInt8 → List ReceivedMessage} {acks : UInt8 → List MessageId} {p p' : Endpoint}

/-- Endpoints that are alike, and the same beside them. -/
def Same (messages : UInt8 → List ReceivedMessage) (acks : UInt8 → List MessageId)
    {γ : Type} (r r' : Endpoint × γ) :
    Prop :=
  r.1.Alike messages acks r'.1 ∧ r.2 = r'.2

/-- New endpoints are alike, whatever pools they are given. -/
theorem alike_new (overflowChecks : Bool) {config config' : PicklebackConfig}
    (h : config.Alike config')
    (time : Time) : (Endpoint.new overflowChecks config time).Alike (fun _ => []) (fun _ => [])
      (Endpoint.new overflowChecks config' time) where
  time := rfl
  rtt := rfl
  packetLoss := rfl
  config := h
  sequenceId := rfl
  newestAck := rfl
  ackLowWatermark := rfl
  ackLowWatermarkNonEmpty := rfl
  dispatcher := by
    refine ⟨rfl, congrArg SequenceBuffer.withCapacity
      (congrArg PicklebackConfig.sentFragMapSize h :),
      congrArg SequenceBuffer.withCapacity
        (congrArg PicklebackConfig.receivedPacketsBufferSize h :), ?_, ?_, ?_⟩
    · exact fun _ => .none
    · exact fun _ => .nil
    · exact fun _ => rfl
  channels := .cons (.unreliable ⟨rfl, rfl, .nil, rfl⟩)
    (.cons (.reliable ⟨rfl, rfl, .nil, rfl, rfl⟩) .nil)
  sentBuffer := congrArg SequenceBuffer.withCapacity
    (congrArg PicklebackConfig.sentPacketsBufferSize h :)
  receivedBuffer := congrArg SequenceBuffer.withCapacity
    (congrArg PicklebackConfig.receivedPacketsBufferSize h :)
  stats := rfl
  outbox := rfl
  xorSalt := rfl
  overflowChecks := rfl

/-- Whatever is taken from the pools or returned to them. -/
theorem Alike.pools (h : p.Alike messages acks p') (pool pool' : BufPool) :
    Alike messages acks { p with pool := pool } { p' with pool := pool' } := { h with }

theorem Alike.setXorSalt (h : p.Alike messages acks p') (salt : Option UInt64) :
    (p.setXorSalt salt).Alike messages acks (p'.setXorSalt salt) := { h with xorSalt := rfl }

theorem Alike.update (h : p.Alike messages acks p') (dt : Time) :
    (p.update dt).Alike messages acks (p'.update dt) :=
  { h with
    time := congrArg (· + dt) h.time
    channels := h.channels.update dt }

/-! ### Drains -/

theorem Alike.drainReceivedMessages (h : p.Alike messages acks p') (channel : UInt8) :
    (p.drainReceivedMessages channel).1.Alike
      (Function.update messages channel (messages channel ++ (p.drainReceivedMessages channel).2))
        acks p' := by
  refine { h with dispatcher := { h.dispatcher with messageInbox := fun channel' => ?_ } }
  have hinbox := h.dispatcher.messageInbox channel'
  simp only [Endpoint.drainReceivedMessages]
  by_cases heq : channel' = channel
  · subst heq
    rwa [Function.update_self, Function.update_self, List.append_nil]
  · rwa [Function.update_of_ne heq, Function.update_of_ne heq]

theorem Alike.drainMessageAcks (h : p.Alike messages acks p') (channel : UInt8) :
    (p.drainMessageAcks channel).1.Alike messages
      (Function.update acks channel (acks channel ++ (p.drainMessageAcks channel).2)) p' := by
  refine { h with dispatcher := { h.dispatcher with ackInbox := fun channel' => ?_ } }
  have hinbox := h.dispatcher.ackInbox channel'
  simp only [Endpoint.drainMessageAcks]
  by_cases heq : channel' = channel
  · subst heq
    rwa [Function.update_self, Function.update_self, List.append_nil]
  · rwa [Function.update_of_ne heq, Function.update_of_ne heq]

/-! ### Sending -/

theorem Alike.sentUnackedPackets (h : p.Alike messages acks p') :
    p.sentUnackedPackets = p'.sentUnackedPackets := by
  rw [Endpoint.sentUnackedPackets, Endpoint.sentUnackedPackets, h.sentBuffer, h.newestAck]

theorem Alike.receivedUnackedPackets (h : p.Alike messages acks p') :
    p.receivedUnackedPackets = p'.receivedUnackedPackets := by
  rw [Endpoint.receivedUnackedPackets, Endpoint.receivedUnackedPackets,
    h.ackLowWatermark, h.receivedBuffer]

theorem Alike.nextPacketHeader (h : p.Alike messages acks p') (packetType : PacketType) :
    Agree (Same messages acks) (p.nextPacketHeader packetType)
    (p'.nextPacketHeader packetType) := by
  have h' : Alike messages acks { p with sequenceId := p.sequenceId + 1 }
      { p' with sequenceId := p'.sequenceId + 1 } :=
        { h with sequenceId := congrArg (· + 1) h.sequenceId }
  have hrequired := h'.receivedUnackedPackets
  have hid := h'.sequenceId
  have hreceived := h'.receivedBuffer
  rw [Endpoint.nextPacketHeader, Endpoint.nextPacketHeader]
  generalize { p with sequenceId := p.sequenceId + 1 } = q at h' hrequired hid hreceived ⊢
  generalize { p' with sequenceId := p'.sequenceId + 1 } = q' at h' hrequired hid hreceived ⊢
  dsimp only
  rw [hrequired, hid, hreceived]
  by_cases hmany : q'.receivedUnackedPackets > maxUnackedPackets
  · rw [if_pos hmany, if_pos hmany]
    exact .ok ⟨h', rfl⟩
  · rw [if_neg hmany, if_neg hmany]
    cases ProtocolPacketHeader.new q'.sequenceId
      (ackIter q'.receivedBuffer q'.receivedUnackedPackets)
        q'.receivedUnackedPackets packetType with
    | error fault =>
      cases fault with
      | panic q => exact .error q
      | error e => exact .ok ⟨h', rfl⟩
    | ok header => exact .ok ⟨h', rfl⟩

theorem Alike.sendMessage (h : p.Alike messages acks p') (channel : UInt8) (payload : List UInt8) :
    Agree (Same messages acks) (p.sendMessage channel payload)
    (p'.sendMessage channel payload) := by
  have hmax : p.config.maxMessageSize = p'.config.maxMessageSize :=
    (congrArg PicklebackConfig.maxMessageSize h.config :)
  rw [Endpoint.sendMessage, Endpoint.sendMessage, h.sentUnackedPackets, hmax]
  by_cases hbig : payload.length > p'.config.maxMessageSize
  · rw [if_pos hbig, if_pos hbig]
    exact .ok ⟨h, rfl⟩
  · by_cases hfull : p'.sentUnackedPackets ≥ maxUnackedPackets
    · rw [if_neg hbig, if_neg hbig, if_pos hfull, if_pos hfull]
      exact .ok ⟨h, rfl⟩
    · rw [if_neg hbig, if_neg hbig, if_neg hfull, if_neg hfull]
      have hstats : Alike messages acks { p with stats :=
        { p.stats with messageSends := p.stats.messageSends + 1 } }
          { p' with stats := { p'.stats with messageSends := p'.stats.messageSends + 1 } } :=
        { h with stats := by rw [h.stats] }
      have hget := h.channels.get? channel
      dsimp only
      generalize p.channels.get? channel = x at hget ⊢
      generalize p'.channels.get? channel = x' at hget ⊢
      cases hget with
      | none => exact .ok ⟨hstats, rfl⟩
      | @some ch ch' hch =>
        have hadd := h.dispatcher.addMessageToChannel hch p'.overflowChecks p.pool p'.pool payload
        dsimp only
        rw [h.overflowChecks]
        generalize p.dispatcher.addMessageToChannel _ _ _ _ = x at hadd ⊢
        generalize p'.dispatcher.addMessageToChannel _ _ _ _ = x' at hadd ⊢
        cases hadd with
        | error e => exact .error e
        | ok hr =>
          exact .ok ⟨{ hstats with
            dispatcher := hr.2.1
            channels := h.channels.set channel hr.2.2
            overflowChecks := rfl }, hr.1⟩

theorem Alike.sendRawPacket (h : p.Alike messages acks p') {packet packet' : PooledBuffer}
    (hdata : packet.data = packet'.data) : Same messages acks (p.sendRawPacket packet)
    (p'.sendRawPacket packet') := by
  have hheader : p.config.packetHeaderSize = p'.config.packetHeaderSize :=
    (congrArg PicklebackConfig.packetHeaderSize h.config :)
  have hinsert : p.sentBuffer.insert p.sequenceId
    (SentMeta.new p.time (packet.data.length + p.config.packetHeaderSize)
      p.receivedBuffer.sequence) = p'.sentBuffer.insert p'.sequenceId (SentMeta.new p'.time
        (packet'.data.length + p'.config.packetHeaderSize) p'.receivedBuffer.sequence) := by
    rw [hdata, hheader, h.receivedBuffer, h.sentBuffer, h.sequenceId, h.time]
  rw [Endpoint.sendRawPacket, Endpoint.sendRawPacket, hinsert]
  dsimp only
  generalize p'.sentBuffer.insert p'.sequenceId _ = x
  cases x with
  | error e => exact ⟨h, rfl⟩
  | ok sentBuffer =>
    refine ⟨{ h with sentBuffer := rfl, outbox := ?_, stats := by rw [h.stats] }, rfl⟩
    rw [List.map_append, List.map_append, h.outbox, List.map_singleton, List.map_singleton, hdata]

theorem Alike.sendPacket (h : p.Alike messages acks p') (packet : ProtocolPacket) :
    Agree (Same messages acks) (p.sendPacket packet) (p'.sendPacket packet) := by
  have hmax : p.config.maxPacketSize = p'.config.maxPacketSize :=
    (congrArg PicklebackConfig.maxPacketSize h.config :)
  have hlimiter :
    (WriteLimiter.new (p.pool.getBuffer p'.config.maxPacketSize).1 p'.config.maxPacketSize).Alike
      (WriteLimiter.new (p'.pool.getBuffer p'.config.maxPacketSize).1 p'.config.maxPacketSize) :=
    WriteLimiter.alike_new (by simp) _
  rw [Endpoint.sendPacket, Endpoint.sendPacket, writePacket, writePacket, hmax]
  cases packet.bytes with
  | error e => exact .error e
  | ok bytes =>
    have hwrite := hlimiter.writeAll bytes
    dsimp only
    generalize WriteLimiter.writeAll (WriteLimiter.new (p.pool.getBuffer _).1 _) bytes = x
      at hwrite ⊢
    generalize WriteLimiter.writeAll (WriteLimiter.new (p'.pool.getBuffer _).1 _) bytes = x'
      at hwrite ⊢
    cases hwrite with
    | error e => exact .ok ⟨h.pools _ _, rfl⟩
    | ok hw => exact .ok ((h.pools _ _).sendRawPacket hw.data)

theorem Alike.sendKeepAlive (h : p.Alike messages acks p') (clientIndex : UInt32) :
    Agree (Alike messages acks) (p.sendKeepAlive clientIndex) (p'.sendKeepAlive clientIndex) := by
  rw [Endpoint.sendKeepAlive, Endpoint.sendKeepAlive]
  have hnext := h.nextPacketHeader .keepAlive
  generalize p.nextPacketHeader .keepAlive = x at hnext ⊢
  generalize p'.nextPacketHeader .keepAlive = x' at hnext ⊢
  cases hnext with
  | error e => exact .error e
  | @ok a b hab =>
    obtain ⟨p₁, res⟩ := a
    obtain ⟨p₁', res'⟩ := b
    obtain ⟨h₁, rfl⟩ : p₁.Alike messages acks p₁' ∧ res = res' := hab
    cases res with
    | error e => exact .ok h₁
    | ok header =>
      dsimp only
      rw [h₁.xorSalt]
      have hsend := h₁.sendPacket (.keepAlive header (p₁'.xorSalt.getD 0) clientIndex)
      generalize p₁.sendPacket _ = x at hsend ⊢
      generalize p₁'.sendPacket _ = x' at hsend ⊢
      cases hsend with
      | error e => exact .error e
      | ok hr => exact .ok hr.1

/-! ### Composing packets -/

theorem Alike.writePacketHeader (h : p.Alike messages acks p')
    {w w' : WriteLimiter} (hw : w.Alike w') :
    Agree (fun r r' => r.1.Alike messages acks r'.1 ∧ Agree WriteLimiter.Alike r.2 r'.2)
    (p.writePacketHeader w)
      (p'.writePacketHeader w') := by
  rw [Endpoint.writePacketHeader, Endpoint.writePacketHeader]
  have hnext := h.nextPacketHeader .messages
  generalize p.nextPacketHeader .messages = x at hnext ⊢
  generalize p'.nextPacketHeader .messages = x' at hnext ⊢
  cases hnext with
  | error e => exact .error e
  | @ok a b hab =>
    obtain ⟨p₁, res⟩ := a
    obtain ⟨p₁', res'⟩ := b
    obtain ⟨h₁, rfl⟩ : p₁.Alike messages acks p₁' ∧ res = res' := hab
    cases res with
    | error e => exact .ok ⟨h₁, .error e⟩
    | ok header =>
      dsimp only
      have hwrite := hw.writeAll header.write
      generalize w.writeAll header.write = x at hwrite ⊢
      generalize w'.writeAll header.write = x' at hwrite ⊢
      cases hwrite with
      | error e => exact .ok ⟨h₁, .error e⟩
      | ok hw₁ =>
        dsimp only
        rw [h₁.xorSalt]
        cases p₁'.xorSalt with
        | none => exact .error _
        | some salt => exact .ok ⟨h₁, hw₁.writeAll _⟩

theorem alike_writeChannelMessagesToPacket (fuel : ℕ) {ch ch' : Channel}
    (hch : ch.Alike ch') {w w' : WriteLimiter}
    (hw : w.Alike w') (handles : List MessageHandle) (pool pool' : BufPool) (numWritten : ℕ) :
    Agree (fun r r' => r.1.Alike r'.1 ∧ r.2.1.Alike r'.2.1 ∧ r.2.2.1 = r'.2.2.1 ∧
      r.2.2.2.2 = r'.2.2.2.2)
      (writeChannelMessagesToPacket fuel ch w handles pool numWritten)
      (writeChannelMessagesToPacket fuel ch' w' handles pool' numWritten) := by
  induction fuel generalizing ch ch' w w' handles pool pool' numWritten with
  | zero => exact .error _
  | succ fuel ih =>
    rw [writeChannelMessagesToPacket, writeChannelMessagesToPacket, hw.remaining]
    have hget := hch.getMessageToWriteToAPacket w'.remaining
    generalize ch.getMessageToWriteToAPacket w'.remaining = x at hget ⊢
    generalize ch'.getMessageToWriteToAPacket w'.remaining = x' at hget ⊢
    cases hget with
    | none => exact .ok ⟨hch, hw, rfl, rfl⟩
    | @some a b hab =>
      obtain ⟨msg, ch₁⟩ := a
      obtain ⟨msg', ch₁'⟩ := b
      obtain ⟨hmsg, hch₁⟩ : msg.Alike msg' ∧ ch₁.Alike ch₁' := hab
      dsimp only
      rw [hmsg.data]
      have hwrite := hw.writeAll msg'.buffer.data
      generalize w.writeAll msg'.buffer.data = x at hwrite ⊢
      generalize w'.writeAll msg'.buffer.data = x' at hwrite ⊢
      cases hwrite with
      | error e => exact .ok ⟨hch₁, hw, rfl, rfl⟩
      | @ok w₁ w₁' hw₁ =>
        dsimp only
        rw [hw₁.remaining, hmsg.id, hmsg.fragment, hch₁.id]
        by_cases hfull : w₁'.remaining < 3
        · rw [if_pos hfull, if_pos hfull]
          exact .ok ⟨hch₁, hw₁, rfl, rfl⟩
        · rw [if_neg hfull, if_neg hfull]
          exact ih hch₁ hw₁ _ _ _ _

theorem Alike.fillPacket (fuel : ℕ) (h : p.Alike messages acks p')
    {w w' : WriteLimiter} (hw : w.Alike w')
    (handles : List MessageHandle) :
    Agree (fun r r' => r.1.Alike messages acks r'.1 ∧ r.2.1.Alike r'.2.1 ∧ r.2.2 = r'.2.2)
      (p.fillPacket fuel w handles) (p'.fillPacket fuel w' handles) := by
  induction fuel generalizing p p' w w' handles with
  | zero => exact .error _
  | succ fuel ih =>
    rw [Endpoint.fillPacket, Endpoint.fillPacket]
    have hfirst := h.channels.firstNonEmpty?
    generalize p.channels.firstNonEmpty? = x at hfirst ⊢
    generalize p'.channels.firstNonEmpty? = x' at hfirst ⊢
    cases hfirst with
    | none => exact .ok ⟨h, hw, rfl⟩
    | @some ch ch' hch =>
      dsimp only
      rw [hch.numQueued, hch.id]
      have hwrite := alike_writeChannelMessagesToPacket (ch'.queued.length + 1)
        hch hw handles p.pool p'.pool 0
      generalize writeChannelMessagesToPacket _ ch w handles p.pool 0 = x at hwrite ⊢
      generalize writeChannelMessagesToPacket _ ch' w' handles p'.pool 0 = x' at hwrite ⊢
      cases hwrite with
      | error e => exact .error e
      | @ok a b hab =>
        obtain ⟨ch₁, w₁, handles₁, pool₁, res⟩ := a
        obtain ⟨ch₁', w₁', handles₁', pool₁', res'⟩ := b
        obtain ⟨hch₁, hw₁, rfl, rfl⟩ : ch₁.Alike ch₁' ∧ w₁.Alike w₁' ∧
          handles₁ = handles₁' ∧ res = res' := hab
        have h₁ :
          Alike messages acks { p with channels := p.channels.set ch'.id ch₁, pool := pool₁ }
            { p' with channels := p'.channels.set ch'.id ch₁', pool := pool₁' } :=
          { h with channels := h.channels.set _ hch₁ }
        dsimp only
        split
        · exact .ok ⟨h₁, hw₁, rfl⟩
        · exact .ok ⟨h₁, hw₁, rfl⟩
        · next numWritten _ =>
          have h₂ : Alike messages acks
              { p with
                channels := p.channels.set ch'.id ch₁
                pool := pool₁
                stats := { p.stats with messagesSent := p.stats.messagesSent + numWritten } }
              { p' with
                channels := p'.channels.set ch'.id ch₁'
                pool := pool₁'
                stats := { p'.stats with messagesSent := p'.stats.messagesSent + numWritten } } :=
            { h₁ with stats := by rw [h.stats] }
          rw [hw₁.remaining]
          by_cases hfull : w₁'.remaining < 3
          · rw [if_pos hfull, if_pos hfull]
            exact .ok ⟨h₂, hw₁, rfl⟩
          · rw [if_neg hfull, if_neg hfull]
            exact ih h₂ hw₁ handles₁

theorem Alike.openPacket (h : p.Alike messages acks p') {w w' : Option WriteLimiter}
    (hw : Option.Rel WriteLimiter.Alike w w') :
    Agree (fun r r' => r.1.Alike messages acks r'.1 ∧ Agree WriteLimiter.Alike r.2 r'.2)
    (p.openPacket w)
      (p'.openPacket w') := by
  have hmax : p.config.maxPacketSize = p'.config.maxPacketSize :=
    (congrArg PicklebackConfig.maxPacketSize h.config :)
  cases hw with
  | some hw => exact .ok ⟨h, .ok hw⟩
  | none =>
    rw [Endpoint.openPacket, Endpoint.openPacket, h.sentUnackedPackets, hmax]
    by_cases hfull : p'.sentUnackedPackets ≥ maxUnackedPackets
    · simp only [if_pos hfull]
      exact .ok ⟨h, .error _⟩
    · simp only [if_neg hfull]
      exact (h.pools _ _).writePacketHeader (WriteLimiter.alike_new (by simp) _)

theorem Alike.closePacket (h : p.Alike messages acks p') {w w' : WriteLimiter} (hw : w.Alike w')
    (handles : List MessageHandle) : Same messages acks (p.closePacket w handles)
    (p'.closePacket w' handles) := by
  rw [Endpoint.closePacket, Endpoint.closePacket]
  have hsend := h.sendRawPacket hw.data
  generalize p.sendRawPacket w.buffer = x at hsend ⊢
  generalize p'.sendRawPacket w'.buffer = x' at hsend ⊢
  obtain ⟨p₁, res⟩ := x
  obtain ⟨p₁', res'⟩ := x'
  obtain ⟨h₁, rfl⟩ : p₁.Alike messages acks p₁' ∧ res = res' := hsend
  cases res with
  | error e => exact ⟨h₁, rfl⟩
  | ok u =>
    dsimp only
    have hset := h₁.dispatcher.setPacketMessageHandles p₁'.sequenceId handles
    rw [h₁.sequenceId]
    generalize p₁.dispatcher.setPacketMessageHandles p₁'.sequenceId handles = x at hset ⊢
    generalize p₁'.dispatcher.setPacketMessageHandles p₁'.sequenceId handles = x' at hset ⊢
    cases hset with
    | error e => exact ⟨h₁, rfl⟩
    | ok hd => exact ⟨{ h₁ with dispatcher := hd, sequenceId := rfl }, rfl⟩

theorem Alike.composeLoop (fuel : ℕ) (h : p.Alike messages acks p') {w w' : Option WriteLimiter}
    (hw : Option.Rel WriteLimiter.Alike w w') (handles : List MessageHandle) :
    Agree (Same messages acks) (p.composeLoop fuel w handles) (p'.composeLoop fuel w' handles) := by
  induction fuel generalizing p p' w w' handles with
  | zero => exact .error _
  | succ fuel ih =>
    rw [Endpoint.composeLoop, Endpoint.composeLoop, h.channels.anyWithMessagesToSend]
    by_cases hany : p'.channels.anyWithMessagesToSend = true
    · rw [if_pos hany, if_pos hany]
      have hopen := h.openPacket hw
      generalize p.openPacket w = x at hopen ⊢
      generalize p'.openPacket w' = x' at hopen ⊢
      cases hopen with
      | error e => exact .error e
      | @ok a b hab =>
        obtain ⟨p₁, res⟩ := a
        obtain ⟨p₁', res'⟩ := b
        obtain ⟨h₁, hres⟩ : p₁.Alike messages acks p₁' ∧ Agree WriteLimiter.Alike res res' := hab
        cases hres with
        | error e => exact .ok ⟨h₁, rfl⟩
        | @ok w₁ w₁' hw₁ =>
          dsimp only
          rw [h₁.channels.numQueued]
          have hfill := h₁.fillPacket (p₁'.channels.numQueued + 1) hw₁ handles
          generalize p₁.fillPacket _ w₁ handles = x at hfill ⊢
          generalize p₁'.fillPacket _ w₁' handles = x' at hfill ⊢
          cases hfill with
          | error e => exact .error e
          | @ok a b hab =>
            obtain ⟨p₂, w₂, handles₂, res⟩ := a
            obtain ⟨p₂', w₂', handles₂', res'⟩ := b
            obtain ⟨h₂, hw₂, heq⟩ :
              p₂.Alike messages acks p₂' ∧ w₂.Alike w₂' ∧ (handles₂, res) = (handles₂', res') := hab
            cases heq
            have hmax : p₂.config.maxPacketSize = p₂'.config.maxPacketSize :=
              (congrArg PicklebackConfig.maxPacketSize h₂.config :)
            cases res with
            | error e => exact .ok ⟨h₂, rfl⟩
            | ok u =>
              dsimp only
              rw [hw₂.remaining, hmax]
              by_cases hwritten : w₂'.remaining ≠ p₂'.config.maxPacketSize
              · rw [if_pos hwritten, if_pos hwritten]
                have hclose := h₂.closePacket hw₂ handles₂
                generalize p₂.closePacket w₂ handles₂ = x at hclose ⊢
                generalize p₂'.closePacket w₂' handles₂ = x' at hclose ⊢
                obtain ⟨p₃, res⟩ := x
                obtain ⟨p₃', res'⟩ := x'
                obtain ⟨h₃, rfl⟩ : p₃.Alike messages acks p₃' ∧ res = res' := hclose
                cases res with
                | error e => exact .ok ⟨h₃, rfl⟩
                | ok u => exact ih h₃ .none []
              · rw [if_neg hwritten, if_neg hwritten]
                exact ih h₂ (.some hw₂) handles₂
    · rw [if_neg hany, if_neg hany]
      exact .ok ⟨h, rfl⟩

theorem Alike.composePackets (h : p.Alike messages acks p') :
    Agree (Same messages acks) p.composePackets p'.composePackets := by
  rw [Endpoint.composePackets, Endpoint.composePackets, h.sentUnackedPackets, h.channels.numQueued]
  by_cases hfull : p'.sentUnackedPackets ≥ maxUnackedPackets
  · rw [if_pos hfull, if_pos hfull]
    exact .ok ⟨h, rfl⟩
  · rw [if_neg hfull, if_neg hfull]
    exact h.composeLoop _ .none []

/-- **The same bytes** are handed to the network. -/
theorem Alike.visitPacketsToSend (h : p.Alike messages acks p') :
    Agree (Same messages acks) p.visitPacketsToSend p'.visitPacketsToSend := by
  rw [Endpoint.visitPacketsToSend, Endpoint.visitPacketsToSend]
  have hcompose := h.composePackets
  generalize p.composePackets = x at hcompose ⊢
  generalize p'.composePackets = x' at hcompose ⊢
  cases hcompose with
  | error e => exact .error e
  | @ok a b hab =>
    obtain ⟨p₁, res⟩ := a
    obtain ⟨p₁', res'⟩ := b
    obtain ⟨h₁, rfl⟩ : p₁.Alike messages acks p₁' ∧ res = res' := hab
    have hsent : Same messages acks
        ({ p₁ with outbox := [], pool := p₁.pool.returnBuffers p₁.outbox },
          p₁.outbox.map PooledBuffer.data)
        ({ p₁' with outbox := [], pool := p₁'.pool.returnBuffers p₁'.outbox },
          p₁'.outbox.map PooledBuffer.data) :=
      ⟨{ h₁ with outbox := rfl }, h₁.outbox⟩
    cases res with
    | ok u => exact .ok hsent
    | error e =>
      cases e with
      | backpressure reason => exact .ok hsent
      | _ => exact .error _

/-! ### Receiving -/

theorem Alike.updatePacketLossCalculation (h : p.Alike messages acks p') :
    Agree (Alike messages acks) p.updatePacketLossCalculation p'.updatePacketLossCalculation := by
  have hsmoothing : p.config.packetLossSmoothingFactor = p'.config.packetLossSmoothingFactor :=
    (congrArg PicklebackConfig.packetLossSmoothingFactor h.config :)
  rw [Endpoint.updatePacketLossCalculation, Endpoint.updatePacketLossCalculation]
  dsimp only
  have hscan : lossScan p.sentBuffer (p.time - p.rtt * (11 / 10)) 65537 p.sentBuffer.sequence 0 0
      = lossScan p'.sentBuffer (p'.time - p'.rtt * (11 / 10)) 65537 p'.sentBuffer.sequence 0 0 := by
    rw [h.sentBuffer, h.time, h.rtt]
  rw [hscan]
  generalize lossScan p'.sentBuffer _ 65537 _ 0 0 = x
  cases x with
  | error e => exact .error e
  | ok r =>
    dsimp only
    by_cases hnone : r.2 = 0
    · rw [if_pos hnone, if_pos hnone]
      exact .ok h
    · rw [if_neg hnone, if_neg hnone]
      exact .ok { h with packetLoss := by rw [h.packetLoss, hsmoothing] }

theorem Alike.smoothRtt (h : p.Alike messages acks p') (rtt : ℚ) :
    p.smoothRtt rtt = p'.smoothRtt rtt := by
  have hsmoothing : p.config.rttSmoothingFactor = p'.config.rttSmoothingFactor :=
    (congrArg PicklebackConfig.rttSmoothingFactor h.config :)
  rw [Endpoint.smoothRtt, Endpoint.smoothRtt, h.rtt, hsmoothing]

theorem Alike.processAck (h : p.Alike messages acks p') (packetType : PacketType)
    (ack : UInt16 × Bool) :
    Agree (Alike messages acks) (p.processAck packetType ack) (p'.processAck packetType ack) := by
  rw [Endpoint.processAck, Endpoint.processAck]
  by_cases hno : (!ack.2) = true
  · rw [if_pos hno, if_pos hno]
    exact .ok h
  · rw [if_neg hno, if_neg hno, h.sentBuffer]
    cases p'.sentBuffer.get ack.1 with
    | none => exact .ok h
    | some sentData =>
      dsimp only
      by_cases hacked : sentData.acked = true
      · rw [if_pos hacked, if_pos hacked]
        exact .ok h
      · rw [if_neg hacked, if_neg hacked]
        have hack := h.dispatcher.ackedPacket ack.1 h.channels
        generalize p.dispatcher.ackedPacket ack.1 p.channels = x at hack ⊢
        generalize p'.dispatcher.ackedPacket ack.1 p'.channels = x' at hack ⊢
        cases hack with
        | error e => exact .error e
        | ok hr => exact .ok { h with
            newestAck := by rw [h.newestAck]
            ackLowWatermark := by rw [h.ackLowWatermark]
            ackLowWatermarkNonEmpty := by rw [h.ackLowWatermarkNonEmpty]
            stats := by rw [h.stats]
            sentBuffer := rfl
            dispatcher := hr.1
            channels := hr.2
            rtt := by rw [h.time, h.smoothRtt] }

theorem Alike.processAcks (h : p.Alike messages acks p') (packetType : PacketType)
    (field : List (UInt16 × Bool)) :
    Agree (Alike messages acks) (p.processAcks packetType field)
    (p'.processAcks packetType field) := by
  induction field generalizing p p' with
  | nil => exact .ok h
  | cons ack rest ih =>
    rw [Endpoint.processAcks, Endpoint.processAcks]
    have hack := h.processAck packetType ack
    generalize p.processAck packetType ack = x at hack ⊢
    generalize p'.processAck packetType ack = x' at hack ⊢
    cases hack with
    | error e => exact .error e
    | ok h' => exact ih h'

theorem Alike.processPacketAcksAndRtt (h : p.Alike messages acks p')
    (header : ProtocolPacketHeader) :
    Agree (Alike messages acks) (p.processPacketAcksAndRtt header)
    (p'.processPacketAcksAndRtt header) := by
  rw [Endpoint.processPacketAcksAndRtt, Endpoint.processPacketAcksAndRtt]
  cases header.acks with
  | none => exact .ok h
  | some field =>
    dsimp only
    have hacks := h.processAcks header.packetType field
    generalize p.processAcks header.packetType field = x at hacks ⊢
    generalize p'.processAcks header.packetType field = x' at hacks ⊢
    cases hacks with
    | error e => exact .error e
    | @ok p₁ p₁' h₁ =>
      dsimp only
      rw [h₁.sequenceId]
      by_cases hdue : p₁'.sequenceId % packetLossRecalculateInterval = 0
      · rw [if_pos hdue, if_pos hdue]
        exact h₁.updatePacketLossCalculation
      · rw [if_neg hdue, if_neg hdue]
        exact .ok h₁

theorem Alike.receiveMessage (h : p.Alike messages acks p') {m m' : Message} (hm : m.Alike m') :
    Agree (Alike messages acks) (p.receiveMessage m) (p'.receiveMessage m') := by
  rw [Endpoint.receiveMessage, Endpoint.receiveMessage, hm.channel, hm.id]
  have hget := h.channels.get? m'.channel
  generalize p.channels.get? m'.channel = x at hget ⊢
  generalize p'.channels.get? m'.channel = x' at hget ⊢
  cases hget with
  | none => exact .ok h
  | @some ch ch' hch =>
    obtain ⟨haccepts, hch'⟩ := hch.acceptsMessage m'.id
    have hset := h.channels.set m'.channel hch'
    dsimp only
    rw [haccepts]
    by_cases haccept : (ch'.acceptsMessage m'.id).1 = true
    · rw [if_pos haccept, if_pos haccept]
      exact (h.dispatcher.processReceivedMessage hm).map fun _ _ hd =>
        { h with dispatcher := hd, channels := hset }
    · rw [if_neg haccept, if_neg haccept]
      exact .ok { h with channels := hset }

theorem Alike.processMessages (fuel : ℕ) (h : p.Alike messages acks p') (payload : List UInt8) :
    Agree (Same messages acks) (processMessages fuel p payload)
    (processMessages fuel p' payload) := by
  induction fuel generalizing p p' payload with
  | zero => exact .error _
  | succ fuel ih =>
    rw [Endpoint.processMessages, Endpoint.processMessages]
    by_cases hempty : payload.isEmpty = true
    · rw [if_pos hempty, if_pos hempty]
      exact .ok ⟨h, rfl⟩
    · rw [if_neg hempty, if_neg hempty, h.overflowChecks]
      have hparse := Message.alike_parse p'.overflowChecks p.pool p'.pool payload
      generalize Message.parse p'.overflowChecks p.pool payload = x at hparse ⊢
      generalize Message.parse p'.overflowChecks p'.pool payload = x' at hparse ⊢
      obtain ⟨pool, x⟩ := x
      obtain ⟨pool', x'⟩ := x'
      cases hparse with
      | error fault =>
        cases fault with
        | panic q => exact .error q
        | error e => exact .ok ⟨{ h with overflowChecks := rfl }, rfl⟩
      | @ok a b hab =>
        obtain ⟨msg, rest⟩ := a
        obtain ⟨msg', rest'⟩ := b
        obtain ⟨hmsg, rfl⟩ : msg.Alike msg' ∧ rest = rest' := hab
        have h₁ : Alike messages acks
            { p with
              pool := pool
              stats := { p.stats with messagesReceived := p.stats.messagesReceived + 1 } }
            { p' with
              pool := pool'
              stats := { p'.stats with messagesReceived := p'.stats.messagesReceived + 1 } } :=
          { h with stats := by rw [h.stats] }
        have hreceive := h₁.receiveMessage hmsg
        dsimp only
        rw [h.overflowChecks] at hreceive
        generalize Endpoint.receiveMessage _ msg = x at hreceive ⊢
        generalize Endpoint.receiveMessage _ msg' = x' at hreceive ⊢
        cases hreceive with
        | error e => exact .error e
        | ok h₂ => exact ih h₂ rest

theorem Alike.acceptPacket (h : p.Alike messages acks p') (header : ProtocolPacketHeader)
    (payload : List UInt8) :
    Agree (Same messages acks) (p.acceptPacket header payload)
    (p'.acceptPacket header payload) := by
  have hheader : p.config.packetHeaderSize = p'.config.packetHeaderSize :=
    (congrArg PicklebackConfig.packetHeaderSize h.config :)
  have hinsert : p.receivedBuffer.insert header.id
    ⟨p.time, p.config.packetHeaderSize + (header.size + payload.length)⟩
      = p'.receivedBuffer.insert header.id
        ⟨p'.time, p'.config.packetHeaderSize + (header.size + payload.length)⟩ := by
    rw [h.receivedBuffer, h.time, hheader]
  rw [Endpoint.acceptPacket, Endpoint.acceptPacket, hinsert]
  generalize p'.receivedBuffer.insert header.id _ = x
  cases x with
  | error e => exact .ok ⟨h, rfl⟩
  | ok receivedBuffer =>
    have h₁ : Alike messages acks { p with receivedBuffer := receivedBuffer }
        { p' with receivedBuffer := receivedBuffer } := { h with receivedBuffer := rfl }
    have hacks := h₁.processPacketAcksAndRtt header
    dsimp only
    generalize Endpoint.processPacketAcksAndRtt { p with receivedBuffer := receivedBuffer } header =
      x at hacks ⊢
    generalize Endpoint.processPacketAcksAndRtt { p' with receivedBuffer :=
      receivedBuffer } header = x' at hacks ⊢
    cases hacks with
    | error e => exact .error e
    | ok h₂ =>
      dsimp only
      by_cases hmessages : header.packetType = .messages
      · rw [if_pos hmessages, if_pos hmessages]
        exact h₂.processMessages (payload.length + 1) payload
      · rw [if_neg hmessages, if_neg hmessages]
        exact .ok ⟨h₂, rfl⟩

theorem Alike.processIncomingPacket (h : p.Alike messages acks p') (header : ProtocolPacketHeader)
    (payload : List UInt8) :
    Agree (Same messages acks) (p.processIncomingPacket header payload)
    (p'.processIncomingPacket header payload) := by
  have h₁ : Alike messages acks { p with stats :=
    { p.stats with packetsReceived := p.stats.packetsReceived + 1 } }
      { p' with stats := { p'.stats with packetsReceived := p'.stats.packetsReceived + 1 } } :=
    { h with stats := by rw [h.stats] }
  have hreceived := h₁.receivedBuffer
  rw [Endpoint.processIncomingPacket, Endpoint.processIncomingPacket]
  generalize { p with stats := { p.stats with packetsReceived := p.stats.packetsReceived + 1 } } = q
    at h₁ hreceived ⊢
  generalize { p' with stats := { p'.stats with packetsReceived :=
    p'.stats.packetsReceived + 1 } } = q'
    at h₁ hreceived ⊢
  dsimp only
  rw [hreceived]
  by_cases hstale : (!q'.receivedBuffer.checkSequence header.id) = true
  · rw [if_pos hstale, if_pos hstale]
    exact .ok ⟨{ h₁ with stats := by rw [h₁.stats], receivedBuffer := rfl }, rfl⟩
  · by_cases hduplicate : q'.receivedBuffer.existsSequence header.id = true
    · rw [if_neg hstale, if_neg hstale, if_pos hduplicate, if_pos hduplicate]
      exact .ok ⟨{ h₁ with stats := by rw [h₁.stats], receivedBuffer := rfl }, rfl⟩
    · rw [if_neg hstale, if_neg hstale, if_neg hduplicate, if_neg hduplicate]
      exact h₁.acceptPacket header payload

end Endpoint

end Pickleback
