import Pickleback.SequenceBuffer
import Pickleback.Protocol.Message

/-!
# Channels

`channel.rs`: outbound queues and the windows of message ids already seen. Channel `0` is
unreliable: a message leaves its queue when it is written to a packet. Channel `1` is reliable: a
message stays until a packet that carried it is acked, and is due again `resend_time` after it was
last written.

A `ChannelList` is a `smallmap::Map<u8, Channel>`. That crate is not part of the repository; the
model assumes that it iterates over its entries by ascending key, and keeps them in a list in that
order.
-/

namespace Pickleback

/-- `MessageHandle`: what a packet's sender remembers of a message in it. -/
structure MessageHandle where
  id : MessageId
  fragIndex : Option UInt16
  channel : UInt8
  deriving DecidableEq, Repr

/-- `MessageHandle::parent_id`. -/
def MessageHandle.parentId (h : MessageHandle) : Option MessageId :=
  h.fragIndex.map fun fragIndex => h.id - fragIndex

/-- The body that `accepts_message` has in both channels: refuse what is behind the window, refuse
what was seen, remember the rest. -/
def acceptUnseen (seenBuf : SequenceBuffer Bool) (id : MessageId) : Bool × SequenceBuffer Bool :=
  if !seenBuf.checkSequence id then (false, seenBuf)
  else if seenBuf.existsSequence id then (false, seenBuf)
  else match seenBuf.insert id true with
    | .ok seenBuf => (true, seenBuf)
    | .error _ => (false, seenBuf)

/-! ### The unreliable channel -/

/-- `UnreliableChannel`. -/
structure UnreliableChannel where
  time : Time
  id : UInt8
  q : List Message
  seenBuf : SequenceBuffer Bool

namespace UnreliableChannel

/-- `UnreliableChannel::new`. -/
def new (id : UInt8) (time : Time) : UnreliableChannel where
  time := time
  id := id
  q := []
  seenBuf := SequenceBuffer.withCapacity 10000

/-- `UnreliableChannel::accepts_message`. -/
def acceptsMessage (c : UnreliableChannel) (id : MessageId) : Bool × UnreliableChannel :=
  let r := acceptUnseen c.seenBuf id
  (r.1, { c with seenBuf := r.2 })

/-- `UnreliableChannel::enqueue_message`. -/
def enqueueMessage (c : UnreliableChannel) (pool : BufPool) (id : MessageId)
    (payload : List UInt8) (fragmented : Option Fragment) :
    Except Panic (UnreliableChannel × BufPool) :=
  (Message.newOutbound pool id c.id payload fragmented).map fun r =>
    ({ c with q := c.q ++ [r.1] }, r.2)

/-- `UnreliableChannel::any_ready_to_send`. -/
def anyReadyToSend (c : UnreliableChannel) : Bool := !c.q.isEmpty

/-- The first queued message that fits, and the queue without it. -/
def takeFitting (maxSize : ℕ) : List Message → Option (Message × List Message)
  | [] => none
  | m :: rest =>
    if m.size > maxSize then (takeFitting maxSize rest).map fun r => (r.1, m :: r.2)
    else some (m, rest)

/-- `UnreliableChannel::get_message_to_write_to_a_packet`. -/
def getMessageToWriteToAPacket (c : UnreliableChannel) (maxSize : ℕ) :
    Option (Message × UnreliableChannel) :=
  (takeFitting maxSize c.q).map fun r => (r.1, { c with q := r.2 })

end UnreliableChannel

/-! ### The reliable channel -/

/-- `ResendableMessage`. -/
structure ResendableMessage where
  message : Message
  lastSent : Option Time
  deriving DecidableEq

namespace ResendableMessage

/-- `ResendableMessage::is_ready`. -/
def isReady (m : ResendableMessage) (now cutoff : Time) : Bool :=
  match m.lastSent with
  | none => true
  | some lastSent => decide (now - lastSent ≥ cutoff)

/-- `ResendableMessage::dismissed_by_ack`, with its assertion that a fragment's ack never meets an
unfragmented message of the same id. -/
def dismissedByAck (m : ResendableMessage) (ackedHandle : MessageHandle) : Except Panic Bool :=
  if m.message.id ≠ ackedHandle.id then .ok false
  else match m.message.fragment with
    | some fragment => .ok (some fragment.parentId == ackedHandle.parentId)
    | none => if ackedHandle.fragIndex.isNone then .ok true else .error .dismissedByFragmentAck

end ResendableMessage

/-- `ReliableChannel`. -/
structure ReliableChannel where
  time : Time
  id : UInt8
  q : List ResendableMessage
  resendTime : Time
  seenBuf : SequenceBuffer Bool

namespace ReliableChannel

/-- `ReliableChannel::new`. -/
def new (id : UInt8) (time : Time) : ReliableChannel where
  time := time
  id := id
  q := []
  resendTime := 1 / 10
  seenBuf := SequenceBuffer.withCapacity 10000

/-- `ReliableChannel::accepts_message`. -/
def acceptsMessage (c : ReliableChannel) (id : MessageId) : Bool × ReliableChannel :=
  let r := acceptUnseen c.seenBuf id
  (r.1, { c with seenBuf := r.2 })

/-- `ReliableChannel::enqueue_message`. -/
def enqueueMessage (c : ReliableChannel) (pool : BufPool) (id : MessageId)
    (payload : List UInt8) (fragmented : Option Fragment) :
    Except Panic (ReliableChannel × BufPool) :=
  (Message.newOutbound pool id c.id payload fragmented).map fun r =>
    ({ c with q := c.q ++ [⟨r.1, none⟩] }, r.2)

/-- `ReliableChannel::any_ready_to_send`. -/
def anyReadyToSend (c : ReliableChannel) : Bool := c.q.any fun m => m.isReady c.time c.resendTime

/-- The `retain_mut` of `message_ack_received`: the buffers of dismissed messages, and the rest. -/
def dismiss (handle : MessageHandle) :
    List ResendableMessage → Except Panic (List PooledBuffer × List ResendableMessage)
  | [] => .ok ([], [])
  | m :: rest =>
    match m.dismissedByAck handle with
    | .error p => .error p
    | .ok dismissed =>
      match dismiss handle rest with
      | .error p => .error p
      | .ok (buffers, kept) =>
        if dismissed then .ok (m.message.buffer :: buffers, kept) else .ok (buffers, m :: kept)

/-- `ReliableChannel::message_ack_received`. -/
def messageAckReceived (c : ReliableChannel) (handle : MessageHandle) :
    Except Panic (List PooledBuffer × ReliableChannel) :=
  (dismiss handle c.q).map fun r => (r.1, { c with q := r.2 })

/-- The first queued message that fits and is due, marked as sent now. -/
def takeReady (now resendTime : Time) (maxSize : ℕ) :
    List ResendableMessage → Option (Message × List ResendableMessage)
  | [] => none
  | m :: rest =>
    if m.message.size ≤ maxSize ∧ m.isReady now resendTime = true then
      some (m.message.clone, { m with lastSent := some now } :: rest)
    else (takeReady now resendTime maxSize rest).map fun r => (r.1, m :: r.2)

/-- `ReliableChannel::get_message_to_write_to_a_packet`. -/
def getMessageToWriteToAPacket (c : ReliableChannel) (maxSize : ℕ) :
    Option (Message × ReliableChannel) :=
  (takeReady c.time c.resendTime maxSize c.q).map fun r => (r.1, { c with q := r.2 })

end ReliableChannel

/-! ### Dispatch over the two kinds -/

/-- `Channel`. -/
inductive Channel where
  | unreliable (c : UnreliableChannel)
  | reliable (c : ReliableChannel)

namespace Channel

/-- `ChannelT::id`. -/
def id : Channel → UInt8
  | .unreliable c => c.id
  | .reliable c => c.id

/-- `ChannelT::update`. -/
def update (dt : Time) : Channel → Channel
  | .unreliable c => .unreliable { c with time := c.time + dt }
  | .reliable c => .reliable { c with time := c.time + dt }

/-- `ChannelT::any_ready_to_send`. -/
def anyReadyToSend : Channel → Bool
  | .unreliable c => c.anyReadyToSend
  | .reliable c => c.anyReadyToSend

/-- `ChannelT::enqueue_message`. -/
def enqueueMessage (ch : Channel) (pool : BufPool) (id : MessageId) (payload : List UInt8)
    (fragmented : Option Fragment) : Except Panic (Channel × BufPool) :=
  match ch with
  | .unreliable c =>
    (c.enqueueMessage pool id payload fragmented).map fun r => (.unreliable r.1, r.2)
  | .reliable c => (c.enqueueMessage pool id payload fragmented).map fun r => (.reliable r.1, r.2)

/-- `ChannelT::message_ack_received`; unreliable buffers are back in the pool already. -/
def messageAckReceived (ch : Channel) (handle : MessageHandle) :
    Except Panic (List PooledBuffer × Channel) :=
  match ch with
  | .unreliable c => .ok ([], .unreliable c)
  | .reliable c => (c.messageAckReceived handle).map fun r => (r.1, .reliable r.2)

/-- `ChannelT::get_message_to_write_to_a_packet`. -/
def getMessageToWriteToAPacket (ch : Channel) (maxSize : ℕ) : Option (Message × Channel) :=
  match ch with
  | .unreliable c => (c.getMessageToWriteToAPacket maxSize).map fun r => (r.1, .unreliable r.2)
  | .reliable c => (c.getMessageToWriteToAPacket maxSize).map fun r => (r.1, .reliable r.2)

/-- `ChannelT::accepts_message`. -/
def acceptsMessage (ch : Channel) (id : MessageId) : Bool × Channel :=
  match ch with
  | .unreliable c => ((c.acceptsMessage id).1, .unreliable (c.acceptsMessage id).2)
  | .reliable c => ((c.acceptsMessage id).1, .reliable (c.acceptsMessage id).2)

/-- The messages a channel still holds for sending. -/
def queued : Channel → List Message
  | .unreliable c => c.q
  | .reliable c => c.q.map ResendableMessage.message

/-- The window of message ids a channel has seen. -/
def seenBuf : Channel → SequenceBuffer Bool
  | .unreliable c => c.seenBuf
  | .reliable c => c.seenBuf

end Channel

/-- `ChannelList`, in iteration order. -/
abbrev ChannelList := List Channel

namespace ChannelList

/-- `ChannelList::get_mut`. -/
def get? (cs : ChannelList) (id : UInt8) : Option Channel := cs.find? fun c => c.id == id

/-- Writing back through the reference that `get_mut` returned. -/
def set (cs : ChannelList) (id : UInt8) (ch : Channel) : ChannelList :=
  cs.map fun c => if c.id == id then ch else c

/-- `ChannelList::all_non_empty_mut().next()`. -/
def firstNonEmpty? (cs : ChannelList) : Option Channel := cs.find? Channel.anyReadyToSend

/-- `ChannelList::any_with_messages_to_send`. -/
def anyWithMessagesToSend (cs : ChannelList) : Bool := cs.any Channel.anyReadyToSend

/-- How many messages all channels hold for sending. -/
def numQueued (cs : ChannelList) : ℕ := (cs.map fun c => c.queued.length).sum

theorem id_of_get? {cs : ChannelList} {id : UInt8} {ch : Channel} (h : cs.get? id = some ch) :
    ch.id = id := by
  have := List.find?_some h
  simpa using this

theorem get?_set_self {cs : ChannelList} {id : UInt8} {ch ch' : Channel}
    (h : cs.get? id = some ch') (hid : ch.id = id) : (cs.set id ch).get? id = some ch := by
  induction cs with
  | nil => cases h
  | cons c cs ih =>
    simp only [get?, set, List.find?_cons, List.map_cons] at h ih ⊢
    by_cases hc : c.id = id
    · simp [hc, hid]
    · simp only [beq_eq_false_iff_ne.mpr hc, Bool.false_eq_true, if_false] at h ⊢
      exact ih h

theorem get?_set_of_ne {cs : ChannelList} {id id' : UInt8} {ch : Channel} (hne : id' ≠ id)
    (hid : ch.id = id) : (cs.set id ch).get? id' = cs.get? id' := by
  induction cs with
  | nil => rfl
  | cons c cs ih =>
    simp only [get?, set, List.find?_cons, List.map_cons] at ih ⊢
    by_cases hc : c.id = id
    · simp only [hc, hid, beq_self_eq_true, if_true, beq_eq_false_iff_ne.mpr hne.symm, ih]
    · simp only [beq_eq_false_iff_ne.mpr hc, Bool.false_eq_true, if_false, ih]

end ChannelList

end Pickleback
