import Pickleback.Channel
import Pickleback.Reassembler

/-!
# The message dispatcher

`dispatcher.rs`: message ids, fragmentation of large messages, the handles of the messages in each
packet, and the translation of packet acks into message acks.

The inboxes are `smallmap::Map<u8, Vec<_>>` with `entry(..).or_default()` as the only access, that
is, total maps with the empty list as default.
-/

namespace Pickleback

/-- `FragAckStatus`: what is left to ack of a fragmented message. -/
inductive FragAckStatus where
  | unknown
  | complete
  | partially (remaining : List MessageId)
  deriving DecidableEq, Repr

instance : Inhabited FragAckStatus := ⟨.unknown⟩

/-- `SentFragMap`. -/
abbrev SentFragMap := SequenceBuffer FragAckStatus

namespace SentFragMap

/-- `SentFragMap::insert_fragmented_message`. -/
def insertFragmentedMessage (m : SentFragMap) (id : MessageId) (fragmentIds : List MessageId) :
    Except PicklebackError SentFragMap :=
  m.insert id (.partially fragmentIds)

/-- `SentFragMap::ack_fragment_message`: whether the parent message is now acked whole. -/
def ackFragmentMessage (m : SentFragMap) (parentId fragmentId : MessageId) :
    Except Panic (Bool × SentFragMap) :=
  match m.get parentId with
  | some (.partially remaining) =>
    let remaining := remaining.filter fun id => id != fragmentId
    let m := m.setEntry parentId (.partially remaining)
    if remaining.isEmpty then
      match m.insert parentId .complete with
      | .ok m => .ok (true, m)
      | .error _ => .error .fragMapTooOld
    else .ok (false, m)
  | _ => .ok (false, m)

/-- The window of the fragment map keeps its length. -/
theorem len_ackFragmentMessage {m m' : SentFragMap} {parentId fragmentId : MessageId} {whole : Bool}
    (h : ackFragmentMessage m parentId fragmentId = .ok (whole, m')) :
    m'.len = m.len := by
  rw [ackFragmentMessage] at h
  split at h
  · dsimp only at h
    split at h
    · split at h
      · next m₁ hm =>
        have hlen := SequenceBuffer.len_insert hm
        rw [SequenceBuffer.len_setEntry] at hlen
        cases h
        exact hlen
      · cases h
    · cases h
      rfl
  · cases h
    rfl

end SentFragMap

/-- `MessageDispatcher`. -/
structure MessageDispatcher where
  nextMessageId : MessageId
  sentFragMap : SentFragMap
  messagesInPackets : SequenceBuffer (List MessageHandle)
  messageReassembler : MessageReassembler
  messageInbox : UInt8 → List ReceivedMessage
  ackInbox : UInt8 → List MessageId

namespace MessageDispatcher

/-- `MessageDispatcher::new`. -/
def new (config : PicklebackConfig) : MessageDispatcher where
  nextMessageId := 0
  sentFragMap := SequenceBuffer.withCapacity config.sentFragMapSize
  messagesInPackets := SequenceBuffer.withCapacity config.receivedPacketsBufferSize
  messageReassembler := MessageReassembler.empty
  messageInbox := fun _ => []
  ackInbox := fun _ => []

/-- Push onto the inbox of the message's channel. -/
def pushInbox (d : MessageDispatcher) (msg : ReceivedMessage) : Except Panic MessageDispatcher :=
  match msg.channel? with
  | none => .error .emptyFragments
  | some channel =>
    .ok { d with
      messageInbox := Function.update d.messageInbox channel (d.messageInbox channel ++ [msg]) }

/-- `MessageDispatcher::process_received_message`. -/
def processReceivedMessage (d : MessageDispatcher) (msg : Message) :
    Except Panic MessageDispatcher :=
  if msg.fragment.isNone then d.pushInbox (.single msg)
  else match d.messageReassembler.addFragment msg with
    | .error p => .error p
    | .ok (none, r) => .ok { d with messageReassembler := r }
    | .ok (some received, r) => { d with messageReassembler := r }.pushInbox received

/-- `MessageDispatcher::set_packet_message_handles`. -/
def setPacketMessageHandles (d : MessageDispatcher) (packetHandle : PacketId)
    (messageHandles : List MessageHandle) : Except PicklebackError MessageDispatcher :=
  (d.messagesInPackets.insert packetHandle messageHandles).map fun m =>
    { d with messagesInPackets := m }

/-- Push onto the ack inbox of a channel. -/
def pushAck (d : MessageDispatcher) (channel : UInt8) (id : MessageId) : MessageDispatcher :=
  { d with ackInbox := Function.update d.ackInbox channel (d.ackInbox channel ++ [id]) }

/-- The ack of one message handle, after its channel has been told. -/
def ackHandle (d : MessageDispatcher) (handle : MessageHandle) : Except Panic MessageDispatcher :=
  match handle.parentId with
  | some parentId =>
    match SentFragMap.ackFragmentMessage d.sentFragMap parentId handle.id with
    | .error p => .error p
    | .ok (whole, m) =>
      let d := { d with sentFragMap := m }
      .ok (if whole then d.pushAck handle.channel parentId else d)
  | none => .ok (d.pushAck handle.channel handle.id)

/-- The loop over the handles of an acked packet. -/
def ackHandles (d : MessageDispatcher) (channels : ChannelList) :
    List MessageHandle → Except Panic (List PooledBuffer × MessageDispatcher × ChannelList)
  | [] => .ok ([], d, channels)
  | handle :: rest =>
    match channels.get? handle.channel with
    | none => .error .handleChannel
    | some ch =>
      match ch.messageAckReceived handle with
      | .error p => .error p
      | .ok (buffers, ch) =>
        match d.ackHandle handle with
        | .error p => .error p
        | .ok d =>
          (d.ackHandles (channels.set handle.channel ch) rest).map fun r =>
            (buffers ++ r.1, r.2.1, r.2.2)

/-- `MessageDispatcher::acked_packet`: the handles leave `messages_in_packets`, the channels are
told, and the message ids go to the ack inboxes. -/
def ackedPacket (d : MessageDispatcher) (packetHandle : PacketId) (channels : ChannelList) :
    Except Panic (List PooledBuffer × MessageDispatcher × ChannelList) :=
  let removed := d.messagesInPackets.remove packetHandle
  let d := { d with messagesInPackets := removed.2 }
  match removed.1 with
  | some handles => d.ackHandles channels handles
  | none => .ok ([], d, channels)

/-! ### Sending -/

/-- The size of fragment `index` of `numFragments`; only the last one is computed, in `u16`. -/
def fragmentSize (overflowChecks : Bool) (fullPayloadSize : ℕ) (numFragments index : UInt16) :
    Except Panic UInt16 :=
  if index == numFragments - 1 then
    if overflowChecks ∧ (65536 ≤ (numFragments - 1).toNat * 1024 ∨
        UInt16.ofNat fullPayloadSize < (numFragments - 1) * 1024) then
      .error .fragmentSizeOverflow
    else .ok (UInt16.ofNat fullPayloadSize - (numFragments - 1) * 1024)
  else .ok 1024

/-- The bytes `payload[start..end]` of fragment `index`. -/
def fragmentSlice (payload : List UInt8) (index : ℕ) (payloadSize : UInt16) :
    Except Panic (List UInt8) :=
  if index * 1024 + payloadSize.toNat ≤ payload.length then
    .ok ((payload.drop (index * 1024)).take payloadSize.toNat)
  else .error .fragmentSlice

/-- The fragment loop of `add_large_message_to_channel`, over the remaining indices. -/
def enqueueFragments (overflowChecks : Bool) (payload : List UInt8) (numFragments : UInt16)
    (parentId : MessageId) :
    List ℕ → MessageId → Channel → BufPool → List MessageId →
      Except Panic (List MessageId × MessageId × Channel × BufPool)
  | [], nextId, ch, pool, fragIds => .ok (fragIds, nextId, ch, pool)
  | index :: rest, nextId, ch, pool, fragIds =>
    match fragmentSize overflowChecks payload.length numFragments (UInt16.ofNat index) with
    | .error p => .error p
    | .ok payloadSize =>
      let id := if index > 0 then nextId else parentId
      let nextId := if index > 0 then nextId + 1 else nextId
      match fragmentSlice payload index payloadSize with
      | .error p => .error p
      | .ok fragPayload =>
        let fragment : Fragment := ⟨UInt16.ofNat index, numFragments, parentId⟩
        match ch.enqueueMessage pool id fragPayload (some fragment) with
        | .error p => .error p
        | .ok (ch, pool) =>
          enqueueFragments overflowChecks payload numFragments parentId rest nextId ch pool
            (fragIds ++ [id])

/-- `MessageDispatcher::add_large_message_to_channel`. The fragments are queued before the parent
id is registered, which is the step that can fail. -/
def addLargeMessageToChannel (overflowChecks : Bool) (d : MessageDispatcher) (pool : BufPool)
    (ch : Channel) (payload : List UInt8) :
    Except Panic (Except PicklebackError MessageId × MessageDispatcher × Channel × BufPool) :=
  let remainder := if payload.length % 1024 > 0 then 1 else 0
  let numFragments := UInt16.ofNat (payload.length / 1024 + remainder)
  let parentId := d.nextMessageId
  match enqueueFragments overflowChecks payload numFragments parentId
      (List.range numFragments.toNat) (parentId + 1) ch pool [] with
  | .error p => .error p
  | .ok (fragIds, nextId, ch, pool) =>
    let d := { d with nextMessageId := nextId }
    match SentFragMap.insertFragmentedMessage d.sentFragMap parentId fragIds with
    | .error e => .ok (.error e, d, ch, pool)
    | .ok m => .ok (.ok parentId, { d with sentFragMap := m }, ch, pool)

/-- `MessageDispatcher::add_message_to_channel`. -/
def addMessageToChannel (overflowChecks : Bool) (d : MessageDispatcher) (pool : BufPool)
    (ch : Channel) (payload : List UInt8) :
    Except Panic (Except PicklebackError MessageId × MessageDispatcher × Channel × BufPool) :=
  if payload.length ≤ 1024 then
    let id := d.nextMessageId
    (ch.enqueueMessage pool id payload none).map fun r =>
      (.ok id, { d with nextMessageId := id + 1 }, r.1, r.2)
  else d.addLargeMessageToChannel overflowChecks pool ch payload

end MessageDispatcher

end Pickleback
