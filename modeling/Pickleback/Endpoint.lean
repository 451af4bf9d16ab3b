import Pickleback.Dispatcher
import Pickleback.Protocol.Packets

/-!
# Endpoints

`endpoint.rs`: the structure `Pickleback`, one end of a link. It numbers and composes outbound
packets, keeps the windows of sent and received packets, and turns ack fields into message acks.

Loops carry a bound on the number of rounds, and running out of it is the outcome
`Panic.nontermination`; that this never happens is proved where it matters. `overflowChecks` records
the build: whether `u16` arithmetic panics or wraps on overflow.

## Main definitions

* `Endpoint`, `Endpoint.new`
* `sendMessage`, `update`, `visitPacketsToSend`, `processIncomingPacket` — the calls of an
  application
* `nextPacketHeader`, `sendPacket`, `sendControl` — the calls with which server and client send
  other packets
* `composePackets` — from queued messages to packets
-/

namespace Pickleback

/-- `Pickleback`. -/
structure Endpoint where
  time : Time
  rtt : ℚ
  packetLoss : ℚ
  config : PicklebackConfig
  sequenceId : UInt16
  newestAck : Option UInt16
  /-- We know we have acked up to this point, so nothing below needs acking again. -/
  ackLowWatermark : Option PacketId
  ackLowWatermarkNonEmpty : Option PacketId
  dispatcher : MessageDispatcher
  channels : ChannelList
  sentBuffer : SequenceBuffer SentMeta
  receivedBuffer : SequenceBuffer ReceivedMeta
  stats : PicklebackStats
  outbox : List PooledBuffer
  pool : BufPool
  xorSalt : Option UInt64
  /-- Whether the build panics where `u16` arithmetic overflows. -/
  overflowChecks : Bool

namespace Endpoint

/-- `Pickleback::new`, in a build with or without overflow checks. -/
def new (overflowChecks : Bool) (config : PicklebackConfig) (time : Time) : Endpoint where
  time := time
  rtt := 0
  packetLoss := 0
  config := config
  sequenceId := 0
  newestAck := none
  ackLowWatermark := none
  ackLowWatermarkNonEmpty := none
  dispatcher := MessageDispatcher.new config
  channels := [.unreliable (UnreliableChannel.new 0 time), .reliable (ReliableChannel.new 1 time)]
  sentBuffer := SequenceBuffer.withCapacity config.sentPacketsBufferSize
  receivedBuffer := SequenceBuffer.withCapacity config.receivedPacketsBufferSize
  stats := {}
  outbox := []
  pool := match config.bufferPoolsConfig with
    | some (c, cs) => BufPool.new c cs
    | none => BufPool.default
  xorSalt := none
  overflowChecks := overflowChecks

/-- `Pickleback::set_xor_salt`. -/
def setXorSalt (p : Endpoint) (xorSalt : Option UInt64) : Endpoint := { p with xorSalt := xorSalt }

/-! ### Flow control -/

/-- `Pickleback::received_unacked_packets`. -/
def receivedUnackedPackets (p : Endpoint) : UInt16 :=
  match p.ackLowWatermark with
  | some lowestAck => p.receivedBuffer.sequence - lowestAck
  | none => p.receivedBuffer.sequence

/-- `Pickleback::sent_unacked_packets`. -/
def sentUnackedPackets (p : Endpoint) : UInt16 := p.sentBuffer.sequence - p.newestAck.getD 0

/-- `Pickleback::next_packet_header`. The packet id is used up even when the call fails. -/
def nextPacketHeader (p : Endpoint) (packetType : PacketType) :
    Except Panic (Endpoint × Except PicklebackError ProtocolPacketHeader) :=
  let p := { p with sequenceId := p.sequenceId + 1 }
  let numAcksRequired := p.receivedUnackedPackets
  if numAcksRequired > maxUnackedPackets then .ok (p, .error (.backpressure .tooManyPending))
  else
    let acks := ackIter p.receivedBuffer numAcksRequired
    match ProtocolPacketHeader.new p.sequenceId acks numAcksRequired packetType with
    | .error (.panic q) => .error q
    | .error (.error e) => .ok (p, .error e)
    | .ok header => .ok (p, .ok header)

/-! ### Application calls -/

/-- `Pickleback::send_message`. -/
def sendMessage (p : Endpoint) (channel : UInt8) (payload : List UInt8) :
    Except Panic (Endpoint × Except PicklebackError MessageId) :=
  if payload.length > p.config.maxMessageSize then .ok (p, .error .payloadTooBig)
  else if p.sentUnackedPackets ≥ maxUnackedPackets then
    .ok (p, .error (.backpressure .tooManyPending))
  else
    let p := { p with stats := { p.stats with messageSends := p.stats.messageSends + 1 } }
    match p.channels.get? channel with
    | none => .ok (p, .error .noSuchChannel)
    | some ch =>
      match p.dispatcher.addMessageToChannel p.overflowChecks p.pool ch payload with
      | .error q => .error q
      | .ok (res, d, ch, pool) =>
        .ok ({ p with
          dispatcher := d
          channels := p.channels.set channel ch
          pool := pool }, res)

/-- `Pickleback::update`. -/
def update (p : Endpoint) (dt : Time) : Endpoint :=
  { p with time := p.time + dt, channels := p.channels.map (Channel.update dt) }

/-- `Pickleback::drain_received_messages`, the container dropped at once: the buffers of the
messages go back to the pool. -/
def drainReceivedMessages (p : Endpoint) (channel : UInt8) : Endpoint × List ReceivedMessage :=
  let messages := p.dispatcher.messageInbox channel
  let buffers := messages.flatMap fun
    | .single m => [m.buffer]
    | .fragmented ms => ms.map Message.buffer
  ({ p with
    dispatcher := { p.dispatcher with
      messageInbox := Function.update p.dispatcher.messageInbox channel [] }
    pool := p.pool.returnBuffers buffers }, messages)

/-- `Pickleback::drain_message_acks`. -/
def drainMessageAcks (p : Endpoint) (channel : UInt8) : Endpoint × List MessageId :=
  ({ p with
    dispatcher := { p.dispatcher with
      ackInbox := Function.update p.dispatcher.ackInbox channel [] } },
    p.dispatcher.ackInbox channel)

/-! ### Sending packets -/

/-- `Pickleback::send_raw_packet`. -/
def sendRawPacket (p : Endpoint) (packet : PooledBuffer) : Endpoint × Except PicklebackError Unit :=
  let sendSize := packet.data.length + p.config.packetHeaderSize
  let ackingUpTo := p.receivedBuffer.sequence
  match p.sentBuffer.insert p.sequenceId (SentMeta.new p.time sendSize ackingUpTo) with
  | .error e => (p, .error e)
  | .ok sentBuffer =>
    ({ p with
      sentBuffer := sentBuffer
      outbox := p.outbox ++ [packet]
      stats := { p.stats with packetsSent := p.stats.packetsSent + 1 } }, .ok ())

/-- `Pickleback::send_packet`. -/
def sendPacket (p : Endpoint) (packet : ProtocolPacket) :
    Except Panic (Endpoint × Except PicklebackError Unit) :=
  match writePacket p.pool p.config packet with
  | .error q => .error q
  | .ok (pool, .error e) => .ok ({ p with pool := pool }, .error e)
  | .ok (pool, .ok buf) => .ok ({ p with pool := pool }.sendRawPacket buf)

/-- How server and client send a packet that is not made of messages: `next_packet_header`, and if
that gave a header, `send_packet`. -/
def sendControl (p : Endpoint) (packetType : PacketType)
    (build : ProtocolPacketHeader → ProtocolPacket) :
    Except Panic (Endpoint × Except PicklebackError Unit) :=
  match p.nextPacketHeader packetType with
  | .error q => .error q
  | .ok (p, .error e) => .ok (p, .error e)
  | .ok (p, .ok header) => p.sendPacket (build header)

/-- How server and client send a keep-alive when idle: `next_packet_header(KeepAlive)`, and if that
gave a header, `send_packet`. Errors of either call are dropped. -/
def sendKeepAlive (p : Endpoint) (clientIndex : UInt32) : Except Panic Endpoint :=
  match p.nextPacketHeader .keepAlive with
  | .error q => .error q
  | .ok (p, .error _) => .ok p
  | .ok (p, .ok header) =>
    match p.sendPacket (.keepAlive header (p.xorSalt.getD 0) clientIndex) with
    | .error q => .error q
    | .ok (p, _) => .ok p

/-- `Pickleback::write_packet_header`, for a `Messages` packet. -/
def writePacketHeader (p : Endpoint) (writer : WriteLimiter) :
    Except Panic (Endpoint × Except PicklebackError WriteLimiter) :=
  match p.nextPacketHeader .messages with
  | .error q => .error q
  | .ok (p, .error e) => .ok (p, .error e)
  | .ok (p, .ok header) =>
    match writer.writeAll header.write with
    | .error e => .ok (p, .error e)
    | .ok writer =>
      match p.xorSalt with
      | none => .error .noXorSalt
      | some salt => .ok (p, writer.writeAll (ByteCodec.writeU64 salt))

/-! ### Composing packets -/

/-- `Pickleback::write_channel_messages_to_packet`: the channel, the writer, the handles and the
pool afterwards, and the number of messages written. -/
def writeChannelMessagesToPacket :
    ℕ → Channel → WriteLimiter → List MessageHandle → BufPool → ℕ →
      Except Panic
        (Channel × WriteLimiter × List MessageHandle × BufPool × Except PicklebackError ℕ)
  | 0, _, _, _, _, _ => .error .nontermination
  | fuel + 1, ch, writer, handles, pool, numWritten =>
    match ch.getMessageToWriteToAPacket writer.remaining with
    | none => .ok (ch, writer, handles, pool, .ok numWritten)
    | some (msg, ch) =>
      match writer.writeAll msg.buffer.data with
      | .error e => .ok (ch, writer, handles, pool, .error e)
      | .ok writer =>
        let handles := handles ++ [⟨msg.id, msg.fragment.map Fragment.index, ch.id⟩]
        let pool := pool.returnBuffer msg.buffer
        if writer.remaining < 3 then .ok (ch, writer, handles, pool, .ok (numWritten + 1))
        else writeChannelMessagesToPacket fuel ch writer handles pool (numWritten + 1)

/-- The loop of `compose_packets` that fills one packet from the channels that have something to
send. -/
def fillPacket :
    ℕ → Endpoint → WriteLimiter → List MessageHandle →
      Except Panic (Endpoint × WriteLimiter × List MessageHandle × Except PicklebackError Unit)
  | 0, _, _, _ => .error .nontermination
  | fuel + 1, p, writer, handles =>
    match p.channels.firstNonEmpty? with
    | none => .ok (p, writer, handles, .ok ())
    | some ch =>
      match writeChannelMessagesToPacket (ch.queued.length + 1) ch writer handles p.pool 0 with
      | .error q => .error q
      | .ok (ch', writer, handles, pool, res) =>
        let p := { p with channels := p.channels.set ch.id ch', pool := pool }
        match res with
        | .error e => .ok (p, writer, handles, .error e)
        | .ok 0 => .ok (p, writer, handles, .ok ())
        | .ok numWritten =>
          let p := { p with
            stats := { p.stats with messagesSent := p.stats.messagesSent + numWritten } }
          if writer.remaining < 3 then .ok (p, writer, handles, .ok ())
          else fillPacket fuel p writer handles

/-- The start of a round of `compose_packets`: keep the open packet, or open a new one unless too
many packets are unacked. -/
def openPacket (p : Endpoint) (writer : Option WriteLimiter) :
    Except Panic (Endpoint × Except PicklebackError WriteLimiter) :=
  match writer with
  | some writer => .ok (p, .ok writer)
  | none =>
    if p.sentUnackedPackets ≥ maxUnackedPackets then
      .ok (p, .error (.backpressure .tooManyPending))
    else
      let buf := p.pool.getBuffer p.config.maxPacketSize
      { p with pool := buf.2 }.writePacketHeader (WriteLimiter.new buf.1 p.config.maxPacketSize)

/-- The end of a round: send the packet and remember which messages are in it. -/
def closePacket (p : Endpoint) (writer : WriteLimiter) (handles : List MessageHandle) :
    Endpoint × Except PicklebackError Unit :=
  match p.sendRawPacket writer.buffer with
  | (p, .error e) => (p, .error e)
  | (p, .ok ()) =>
    match p.dispatcher.setPacketMessageHandles p.sequenceId handles with
    | .error e => (p, .error e)
    | .ok d => ({ p with dispatcher := d }, .ok ())

/-- The outer loop of `compose_packets`. -/
def composeLoop :
    ℕ → Endpoint → Option WriteLimiter → List MessageHandle →
      Except Panic (Endpoint × Except PicklebackError Unit)
  | 0, _, _, _ => .error .nontermination
  | fuel + 1, p, writer, handles =>
    if p.channels.anyWithMessagesToSend then
      match p.openPacket writer with
      | .error q => .error q
      | .ok (p, .error e) => .ok (p, .error e)
      | .ok (p, .ok writer) =>
        match p.fillPacket (p.channels.numQueued + 1) writer handles with
        | .error q => .error q
        | .ok (p, _, _, .error e) => .ok (p, .error e)
        | .ok (p, writer, handles, .ok ()) =>
          if writer.remaining ≠ p.config.maxPacketSize then
            match p.closePacket writer handles with
            | (p, .error e) => .ok (p, .error e)
            | (p, .ok ()) => composeLoop fuel p none []
          else composeLoop fuel p (some writer) handles
    else .ok (p, .ok ())

/-- `Pickleback::compose_packets`. -/
def composePackets (p : Endpoint) : Except Panic (Endpoint × Except PicklebackError Unit) :=
  if p.sentUnackedPackets ≥ maxUnackedPackets then
    .ok (p, .error (.backpressure .tooManyPending))
  else composeLoop (p.channels.numQueued + 65536) p none []

/-- `Pickleback::visit_packets_to_send`: the packets handed to `send_fn`, in order. -/
def visitPacketsToSend (p : Endpoint) : Except Panic (Endpoint × List (List UInt8)) :=
  match p.composePackets with
  | .error q => .error q
  | .ok (p, .ok ()) | .ok (p, .error (.backpressure _)) =>
    .ok ({ p with outbox := [], pool := p.pool.returnBuffers p.outbox },
      p.outbox.map PooledBuffer.data)
  | .ok (_, .error e) => .error (.visitPackets e)

/-! ### Receiving packets -/

/-- The scan of `update_packet_loss_calculation`: acked and sampled packets, walking back from
`seq`. -/
def lossScan (sentBuffer : SequenceBuffer SentMeta) (cutoff : Time) :
    ℕ → UInt16 → ℕ → UInt16 → Except Panic (ℕ × UInt16)
  | 0, _, _, _ => .error .nontermination
  | fuel + 1, seq, numAcked, numSampled =>
    match sentBuffer.get seq with
    | none => .ok (numAcked, numSampled)
    | some sentMeta =>
      if sentMeta.time > cutoff then lossScan sentBuffer cutoff fuel (seq - 1) numAcked numSampled
      else
        let numSampled := numSampled + 1
        let numAcked := if sentMeta.acked then numAcked + 1 else numAcked
        if numSampled = packetLossRecalculateInterval then .ok (numAcked, numSampled)
        else lossScan sentBuffer cutoff fuel (seq - 1) numAcked numSampled

/-- `Pickleback::update_packet_loss_calculation`. -/
def updatePacketLossCalculation (p : Endpoint) : Except Panic Endpoint :=
  let cutoff := p.time - p.rtt * (11 / 10)
  match lossScan p.sentBuffer cutoff 65537 p.sentBuffer.sequence 0 0 with
  | .error q => .error q
  | .ok (numAcked, numSampled) =>
    if numSampled = 0 then .ok p
    else
      let loss : ℚ := 1 - (numAcked : ℚ) / (numSampled.toNat : ℚ)
      .ok { p with
        packetLoss := p.packetLoss + (loss - p.packetLoss) * p.config.packetLossSmoothingFactor }

/-- The newer of a recorded sequence number and a new one. -/
def newerOf (current : Option UInt16) (new : UInt16) : Option UInt16 :=
  match current with
  | some current =>
    if SequenceBuffer.sequenceGreaterThan new current then some new else some current
  | none => some new

/-- The smoothed round trip time. -/
def smoothRtt (p : Endpoint) (rtt : ℚ) : ℚ :=
  if (p.rtt = 0 ∧ rtt > 0) ∨ |p.rtt - rtt| < 1 / 100000 then rtt
  else p.rtt + (rtt - p.rtt) * p.config.rttSmoothingFactor

/-- The body of the loop over an ack field: the first ack of a sent packet is recorded and passed
on to the dispatcher. -/
def processAck (p : Endpoint) (packetType : PacketType) (ack : UInt16 × Bool) :
    Except Panic Endpoint :=
  if !ack.2 then .ok p
  else match p.sentBuffer.get ack.1 with
    | none => .ok p
    | some sentData =>
      if sentData.acked then .ok p
      else match p.dispatcher.ackedPacket ack.1 p.channels with
        | .error q => .error q
        | .ok (buffers, d, channels) =>
          .ok { p with
            newestAck := newerOf p.newestAck ack.1
            ackLowWatermark := newerOf p.ackLowWatermark sentData.ackedUpTo
            ackLowWatermarkNonEmpty :=
              if packetType = .keepAlive then p.ackLowWatermarkNonEmpty
              else newerOf p.ackLowWatermarkNonEmpty sentData.ackedUpTo
            stats := { p.stats with packetsAcked := p.stats.packetsAcked + 1 }
            sentBuffer := p.sentBuffer.setEntry ack.1 { sentData with acked := true }
            dispatcher := d
            channels := channels
            pool := p.pool.returnBuffers buffers
            rtt := p.smoothRtt ((p.time - sentData.time) * 1000) }

/-- The loop over an ack field. -/
def processAcks (p : Endpoint) (packetType : PacketType) :
    List (UInt16 × Bool) → Except Panic Endpoint
  | [] => .ok p
  | ack :: rest =>
    match p.processAck packetType ack with
    | .error q => .error q
    | .ok p => p.processAcks packetType rest

/-- `Pickleback::process_packet_acks_and_rtt`. -/
def processPacketAcksAndRtt (p : Endpoint) (header : ProtocolPacketHeader) :
    Except Panic Endpoint :=
  match header.acks with
  | none => .ok p
  | some acks =>
    match p.processAcks header.packetType acks with
    | .error q => .error q
    | .ok p =>
      if p.sequenceId % packetLossRecalculateInterval = 0 then p.updatePacketLossCalculation
      else .ok p

/-- One parsed message, offered to its channel and, if taken, handed to the dispatcher. -/
def receiveMessage (p : Endpoint) (msg : Message) : Except Panic Endpoint :=
  match p.channels.get? msg.channel with
  | none => .ok p
  | some ch =>
    let accepted := ch.acceptsMessage msg.id
    let p := { p with channels := p.channels.set msg.channel accepted.2 }
    if accepted.1 then
      (p.dispatcher.processReceivedMessage msg).map fun d => { p with dispatcher := d }
    else .ok p

/-- The loop of `process_incoming_packet` over the messages of a packet. -/
def processMessages : ℕ → Endpoint → List UInt8 →
    Except Panic (Endpoint × Except PicklebackError Unit)
  | 0, _, _ => .error .nontermination
  | fuel + 1, p, payload =>
    if payload.isEmpty then .ok (p, .ok ())
    else match Message.parse p.overflowChecks p.pool payload with
      | (_, .error (.panic q)) => .error q
      | (pool, .error (.error e)) => .ok ({ p with pool := pool }, .error e)
      | (pool, .ok (msg, rest)) =>
        let p := { p with
          pool := pool
          stats := { p.stats with messagesReceived := p.stats.messagesReceived + 1 } }
        match p.receiveMessage msg with
        | .error q => .error q
        | .ok p => processMessages fuel p rest

/-- What `process_incoming_packet` does with a packet that is neither stale nor a duplicate. -/
def acceptPacket (p : Endpoint) (header : ProtocolPacketHeader) (payload : List UInt8) :
    Except Panic (Endpoint × Except PicklebackError Unit) :=
  let packetLen := header.size + payload.length
  match p.receivedBuffer.insert header.id ⟨p.time, p.config.packetHeaderSize + packetLen⟩ with
  | .error e => .ok (p, .error e)
  | .ok receivedBuffer =>
    match { p with receivedBuffer := receivedBuffer }.processPacketAcksAndRtt header with
    | .error q => .error q
    | .ok p =>
      if header.packetType = .messages then processMessages (payload.length + 1) p payload
      else .ok (p, .ok ())

/-- `Pickleback::process_incoming_packet`. -/
def processIncomingPacket (p : Endpoint) (header : ProtocolPacketHeader) (payload : List UInt8) :
    Except Panic (Endpoint × Except PicklebackError Unit) :=
  let p := { p with stats := { p.stats with packetsReceived := p.stats.packetsReceived + 1 } }
  if !p.receivedBuffer.checkSequence header.id then
    .ok ({ p with stats := { p.stats with packetsStale := p.stats.packetsStale + 1 } },
      .error .stalePacket)
  else if p.receivedBuffer.existsSequence header.id then
    .ok ({ p with stats := { p.stats with packetsDuplicate := p.stats.packetsDuplicate + 1 } },
      .error .duplicatePacket)
  else p.acceptPacket header payload

end Endpoint

end Pickleback
