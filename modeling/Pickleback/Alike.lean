import Pickleback.Endpoint
import Pickleback.Lib.Lockstep

/-!
# Messages and channels in different allocations

Which buffer the pools hand out, and what capacity it has, depends on what was returned to them
before. Two messages are alike if they differ only in the capacity of their buffers. The operations
of channels, the reassembler and the dispatcher do not tell them apart, nor do they depend on the
pools: pooling changes no byte of a message.

The dispatchers of two endpoints are compared while one of them is drained and the other is not, so
the relation is about what has been drained and the inbox together.

## Main definitions

* `Message.Alike`, `Channel.Alike`, `ReceivedMessage.Alike` — the same but for the capacities of
  buffers
* `MessageDispatcher.Alike` — and but for what has been drained from the inboxes

## Main results

* `MessageDispatcher.Alike.addMessageToChannel`, `.ackedPacket`, `.processReceivedMessage` — the
  operations agree
-/

namespace Pickleback

open Lockstep

/-! ### Messages -/

/-- The same but for the capacity of the buffer. -/
structure Message.Alike (m m' : Message) : Prop where
  id : m.id = m'.id
  sizeMode : m.sizeMode = m'.sizeMode
  channel : m.channel = m'.channel
  data : m.buffer.data = m'.buffer.data
  fragment : m.fragment = m'.fragment

namespace Message

variable {m m' : Message}

theorem Alike.size (h : m.Alike m') : m.size = m'.size := by
  rw [Message.size, Message.size, h.data, h.fragment, h.sizeMode]

theorem Alike.clone (h : m.Alike m') : m.clone.Alike m'.clone :=
  ⟨h.id, h.sizeMode, h.channel, h.data, h.fragment⟩

/-- A message is written the same into any buffer. -/
theorem alike_newOutbound (pool pool' : BufPool) (id : MessageId)
    (channel : UInt8) (payload : List UInt8)
    (fragmented : Option Fragment) : Agree (fun r r' => r.1.Alike r'.1)
      (newOutbound pool id channel payload fragmented)
      (newOutbound pool' id channel payload fragmented) := by
  by_cases hfits : channel < 64 ∧ payload.length ≤ 1024
  · simp only [newOutbound, if_pos hfits]
    cases writeHeaders id fragmented (MessageSizeMode.ofLength payload.length)
      channel payload.length with
    | error e => exact .error _
    | ok headers => exact .ok ⟨rfl, rfl, rfl, by simp, rfl⟩
  · simp only [newOutbound, if_neg hfits]
    exact .error _

/-- A message is read the same into any buffer. -/
theorem alike_parse (overflowChecks : Bool) (pool pool' : BufPool) (bs : List UInt8) :
    Agree (fun r r' => r.1.Alike r'.1 ∧ r.2 = r'.2) (parse overflowChecks pool bs).2
      (parse overflowChecks pool' bs).2 := by
  rw [parse, parse]
  cases parseHeaders overflowChecks bs with
  | error f => exact .error f
  | ok r =>
    obtain ⟨id, sizeMode, channel, fragment, payloadSize, rest⟩ := r
    dsimp only
    by_cases hshort : rest.length < payloadSize.toNat
    · rw [if_pos hshort, if_pos hshort]
      exact .error _
    · rw [if_neg hshort, if_neg hshort]
      exact .ok ⟨⟨rfl, rfl, rfl, by simp, rfl⟩, rfl⟩

end Message

/-! ### Channels -/

/-- The queues hold messages that are alike. -/
structure UnreliableChannel.Alike (c c' : UnreliableChannel) : Prop where
  time : c.time = c'.time
  id : c.id = c'.id
  q : List.Forall₂ Message.Alike c.q c'.q
  seenBuf : c.seenBuf = c'.seenBuf

/-- Alike, and sent at the same time. -/
structure ResendableMessage.Alike (m m' : ResendableMessage) : Prop where
  message : m.message.Alike m'.message
  lastSent : m.lastSent = m'.lastSent

/-- The queues hold messages that are alike. -/
structure ReliableChannel.Alike (c c' : ReliableChannel) : Prop where
  time : c.time = c'.time
  id : c.id = c'.id
  q : List.Forall₂ ResendableMessage.Alike c.q c'.q
  resendTime : c.resendTime = c'.resendTime
  seenBuf : c.seenBuf = c'.seenBuf

/-- Channels of the same kind whose queues are alike. -/
inductive Channel.Alike : Channel → Channel → Prop
  | unreliable {c c' : UnreliableChannel} (h : c.Alike c') : Alike (.unreliable c) (.unreliable c')
  | reliable {c c' : ReliableChannel} (h : c.Alike c') : Alike (.reliable c) (.reliable c')

theorem ResendableMessage.Alike.isReady {m m' : ResendableMessage}
    (h : m.Alike m') (now cutoff : Time) :
    m.isReady now cutoff = m'.isReady now cutoff := by
  rw [ResendableMessage.isReady, ResendableMessage.isReady, h.lastSent]

theorem ResendableMessage.Alike.dismissedByAck {m m' : ResendableMessage}
    (h : m.Alike m') (handle : MessageHandle) :
    m.dismissedByAck handle = m'.dismissedByAck handle := by
  rw [ResendableMessage.dismissedByAck, ResendableMessage.dismissedByAck,
    h.message.id, h.message.fragment]

theorem UnreliableChannel.alike_takeFitting {q q' : List Message}
    (h : List.Forall₂ Message.Alike q q') (maxSize : ℕ) :
    Option.Rel (fun r r' => r.1.Alike r'.1 ∧ List.Forall₂ Message.Alike r.2 r'.2)
    (takeFitting maxSize q)
      (takeFitting maxSize q') := by
  induction h with
  | nil => exact .none
  | @cons m m' q q' hm hq ih =>
    rw [takeFitting, takeFitting, hm.size]
    by_cases hbig : m'.size > maxSize
    · rw [if_pos hbig, if_pos hbig]
      exact rel_map ih fun _ _ hr => ⟨hr.1, .cons hm hr.2⟩
    · rw [if_neg hbig, if_neg hbig]
      exact .some ⟨hm, hq⟩

theorem ReliableChannel.alike_takeReady {q q' : List ResendableMessage}
    (h : List.Forall₂ ResendableMessage.Alike q q') (now resendTime : Time) (maxSize : ℕ) :
    Option.Rel (fun r r' => r.1.Alike r'.1 ∧ List.Forall₂ ResendableMessage.Alike r.2 r'.2)
      (takeReady now resendTime maxSize q) (takeReady now resendTime maxSize q') := by
  induction h with
  | nil => exact .none
  | @cons m m' q q' hm hq ih =>
    rw [takeReady, takeReady, hm.message.size, hm.isReady]
    by_cases hdue : m'.message.size ≤ maxSize ∧ m'.isReady now resendTime = true
    · rw [if_pos hdue, if_pos hdue]
      exact .some ⟨hm.message.clone, .cons ⟨hm.message, rfl⟩ hq⟩
    · rw [if_neg hdue, if_neg hdue]
      exact rel_map ih fun _ _ hr => ⟨hr.1, .cons hm hr.2⟩

theorem ReliableChannel.alike_dismiss {q q' : List ResendableMessage}
    (h : List.Forall₂ ResendableMessage.Alike q q') (handle : MessageHandle) :
    Agree (fun r r' => List.Forall₂ ResendableMessage.Alike r.2 r'.2)
    (dismiss handle q) (dismiss handle q') := by
  induction h with
  | nil => exact .ok .nil
  | @cons m m' q q' hm hq ih =>
    rw [dismiss, dismiss, hm.dismissedByAck]
    cases m'.dismissedByAck handle with
    | error e => exact .error e
    | ok dismissed =>
      dsimp only
      generalize dismiss handle q = r at ih ⊢
      generalize dismiss handle q' = r' at ih ⊢
      cases ih with
      | error e => exact .error e
      | ok hr =>
        cases dismissed with
        | true => exact .ok hr
        | false => exact .ok (.cons hm hr)

namespace Channel

variable {ch ch' : Channel}

theorem Alike.id (h : ch.Alike ch') : ch.id = ch'.id := by
  cases h with
  | unreliable h => exact h.id
  | reliable h => exact h.id

theorem Alike.numQueued (h : ch.Alike ch') : ch.queued.length = ch'.queued.length := by
  cases h with
  | unreliable h => exact h.q.length_eq
  | reliable h =>
    rw [queued, queued, List.length_map, List.length_map]
    exact h.q.length_eq

theorem Alike.update (h : ch.Alike ch') (dt : Time) : (ch.update dt).Alike (ch'.update dt) := by
  cases h with
  | unreliable h => exact .unreliable { h with time := congrArg (· + dt) h.time }
  | reliable h => exact .reliable { h with time := congrArg (· + dt) h.time }

theorem Alike.anyReadyToSend (h : ch.Alike ch') : ch.anyReadyToSend = ch'.anyReadyToSend := by
  cases h with
  | @unreliable c c' h =>
    rw [Channel.anyReadyToSend, Channel.anyReadyToSend, UnreliableChannel.anyReadyToSend,
      UnreliableChannel.anyReadyToSend]
    cases hq : c.q with
    | nil =>
      have hnil : c'.q = [] := List.forall₂_nil_left_iff.mp (hq ▸ h.q)
      rw [hnil]
    | cons m rest =>
      obtain ⟨m', rest', -, -, hq'⟩ := List.forall₂_cons_left_iff.mp (hq ▸ h.q)
      rw [hq']
      rfl
  | @reliable c c' h =>
    rw [Channel.anyReadyToSend, Channel.anyReadyToSend, ReliableChannel.anyReadyToSend,
      ReliableChannel.anyReadyToSend, h.time, h.resendTime]
    exact any_eq_any h.q fun _ _ hm => hm.isReady _ _

theorem Alike.enqueueMessage (h : ch.Alike ch') (pool pool' : BufPool)
    (id : MessageId) (payload : List UInt8)
    (fragmented : Option Fragment) : Agree (fun r r' => r.1.Alike r'.1)
      (ch.enqueueMessage pool id payload fragmented)
      (ch'.enqueueMessage pool' id payload fragmented) := by
  have hnew := Message.alike_newOutbound pool pool' id ch.id payload fragmented
  nth_rewrite 2 [h.id] at hnew
  cases h with
  | unreliable h =>
    refine (hnew.map (S := fun r r' => r.1.Alike r'.1) fun r r' hr => ?_).map fun r r' hr =>
      .unreliable hr
    exact { h with q := List.rel_append h.q (.cons hr .nil) }
  | reliable h =>
    refine (hnew.map (S := fun r r' => r.1.Alike r'.1) fun r r' hr => ?_).map fun r r' hr =>
      .reliable hr
    exact { h with q := List.rel_append h.q (.cons ⟨hr, rfl⟩ .nil) }

theorem Alike.messageAckReceived (h : ch.Alike ch') (handle : MessageHandle) :
    Agree (fun r r' => r.2.Alike r'.2) (ch.messageAckReceived handle)
    (ch'.messageAckReceived handle) := by
  cases h with
  | unreliable h => exact .ok (.unreliable h)
  | reliable h =>
    exact ((ReliableChannel.alike_dismiss h.q handle).map (S := fun r r' => r.2.Alike r'.2)
      fun r r' hr => { h with q := hr }).map fun r r' hr => .reliable hr

theorem Alike.getMessageToWriteToAPacket (h : ch.Alike ch') (maxSize : ℕ) :
    Option.Rel (fun r r' => r.1.Alike r'.1 ∧ r.2.Alike r'.2) (ch.getMessageToWriteToAPacket maxSize)
      (ch'.getMessageToWriteToAPacket maxSize) := by
  cases h with
  | @unreliable c c' h =>
    rw [Channel.getMessageToWriteToAPacket, Channel.getMessageToWriteToAPacket,
      UnreliableChannel.getMessageToWriteToAPacket, UnreliableChannel.getMessageToWriteToAPacket]
    refine rel_map (rel_map (S := fun r r' => r.1.Alike r'.1 ∧ r.2.Alike r'.2)
      (UnreliableChannel.alike_takeFitting h.q maxSize) fun r r' hr => ?_) fun r r' hr =>
        ⟨hr.1, .unreliable hr.2⟩
    exact ⟨hr.1, { h with q := hr.2 }⟩
  | @reliable c c' h =>
    rw [Channel.getMessageToWriteToAPacket, Channel.getMessageToWriteToAPacket,
      ReliableChannel.getMessageToWriteToAPacket, ReliableChannel.getMessageToWriteToAPacket,
        h.time, h.resendTime]
    refine rel_map (rel_map (S := fun r r' => r.1.Alike r'.1 ∧ r.2.Alike r'.2)
      (ReliableChannel.alike_takeReady h.q c'.time c'.resendTime maxSize) fun r r' hr => ?_)
      fun r r' hr => ⟨hr.1, .reliable hr.2⟩
    exact ⟨hr.1, { h with time := rfl, resendTime := rfl, q := hr.2 }⟩

theorem Alike.acceptsMessage (h : ch.Alike ch') (id : MessageId) :
    (ch.acceptsMessage id).1 = (ch'.acceptsMessage id).1 ∧
      (ch.acceptsMessage id).2.Alike (ch'.acceptsMessage id).2 := by
  cases h with
  | @unreliable c c' h =>
    rw [Channel.acceptsMessage, Channel.acceptsMessage, UnreliableChannel.acceptsMessage,
      UnreliableChannel.acceptsMessage, h.seenBuf]
    exact ⟨rfl, .unreliable { h with seenBuf := rfl }⟩
  | @reliable c c' h =>
    rw [Channel.acceptsMessage, Channel.acceptsMessage, ReliableChannel.acceptsMessage,
      ReliableChannel.acceptsMessage, h.seenBuf]
    exact ⟨rfl, .reliable { h with seenBuf := rfl }⟩

end Channel

/-- Channel by channel. -/
def ChannelList.Alike (cs cs' : ChannelList) : Prop := List.Forall₂ Channel.Alike cs cs'

namespace ChannelList

variable {cs cs' : ChannelList} {ch ch' : Channel}

theorem Alike.get? (h : cs.Alike cs') (id : UInt8) :
    Option.Rel Channel.Alike (cs.get? id) (cs'.get? id) :=
  rel_find? h fun a b hab => by rw [hab.id]

theorem Alike.set (h : cs.Alike cs') (id : UInt8) (hch : ch.Alike ch') :
    (cs.set id ch).Alike (cs'.set id ch') := by
  rw [Alike, ChannelList.set, ChannelList.set]
  refine List.rel_map (fun a b hab => ?_) h
  rw [hab.id]
  by_cases hid : b.id = id
  · rw [if_pos (by simpa using hid), if_pos (by simpa using hid)]
    exact hch
  · rw [if_neg (by simpa using hid), if_neg (by simpa using hid)]
    exact hab

theorem Alike.update (h : cs.Alike cs') (dt : Time) :
    ChannelList.Alike (cs.map (Channel.update dt)) (cs'.map (Channel.update dt)) :=
  List.rel_map (fun _ _ hab => hab.update dt) h

theorem Alike.firstNonEmpty? (h : cs.Alike cs') :
    Option.Rel Channel.Alike cs.firstNonEmpty? cs'.firstNonEmpty? :=
  rel_find? h fun _ _ hab => hab.anyReadyToSend

theorem Alike.anyWithMessagesToSend (h : cs.Alike cs') :
    cs.anyWithMessagesToSend = cs'.anyWithMessagesToSend := by
  rw [ChannelList.anyWithMessagesToSend, ChannelList.anyWithMessagesToSend]
  exact any_eq_any h fun _ _ hab => hab.anyReadyToSend

theorem Alike.numQueued (h : cs.Alike cs') : cs.numQueued = cs'.numQueued :=
  congrArg List.sum (map_eq_map h fun _ _ hab => hab.numQueued)

end ChannelList

/-! ### The reassembler -/

/-- Made of messages that are alike. -/
inductive ReceivedMessage.Alike : ReceivedMessage → ReceivedMessage → Prop
  | single {m m' : Message} (h : m.Alike m') : Alike (.single m) (.single m')
  | fragmented {ms ms' : List Message} (h : List.Forall₂ Message.Alike ms ms') :
    Alike (.fragmented ms) (.fragmented ms')

namespace ReceivedMessage

variable {msg msg' : ReceivedMessage}

theorem Alike.channel? (h : msg.Alike msg') : msg.channel? = msg'.channel? := by
  cases h with
  | single h => exact congrArg some h.channel
  | fragmented h =>
    cases h with
    | nil => rfl
    | cons h _ => exact congrArg some h.channel

theorem Alike.id? (h : msg.Alike msg') : msg.id? = msg'.id? := by
  cases h with
  | single h => exact congrArg some h.id
  | fragmented h =>
    cases h with
    | nil => rfl
    | cons h _ => exact congrArg (Option.map Fragment.parentId) h.fragment

theorem Alike.payload (h : msg.Alike msg') : msg.payload = msg'.payload := by
  cases h with
  | single h => exact h.data
  | fragmented h => exact congrArg List.flatten (map_eq_map h fun _ _ hm => hm.data)

end ReceivedMessage

/-- The same fragments are there, and they are alike. -/
structure IncompleteMessage.Alike (inc inc' : IncompleteMessage) : Prop where
  numFragments : inc.numFragments = inc'.numFragments
  numReceivedFragments : inc.numReceivedFragments = inc'.numReceivedFragments
  fragments : List.Forall₂ (Option.Rel Message.Alike) inc.fragments inc'.fragments

/-- Whether a slot is filled. -/
theorem isSome_eq_of_rel {α β : Type} {R : α → β → Prop} {x : Option α}
    {y : Option β} (h : Option.Rel R x y) :
    x.isSome = y.isSome := by
  cases h <;> rfl

theorem IncompleteMessage.Alike.addFragment {inc inc' : IncompleteMessage}
    {m m' : Message} (h : inc.Alike inc')
    (hm : m.Alike m') (fragIndex : UInt16) : Agree (fun r r' => r.1 = r'.1 ∧ r.2.Alike r'.2)
      (inc.addFragment fragIndex m) (inc'.addFragment fragIndex m') := by
  have hslot := isSome_eq_of_rel (rel_getD h.fragments .none fragIndex.toNat)
  rw [IncompleteMessage.addFragment, IncompleteMessage.addFragment, h.numFragments, hslot]
  by_cases hmax : fragIndex.toNat ≤ maxFragments
  · by_cases hrange : fragIndex < inc'.numFragments
    · rw [if_neg (not_not.mpr hmax), if_neg (not_not.mpr hmax), if_neg (not_not.mpr hrange),
        if_neg (not_not.mpr hrange)]
      split
      · exact .ok ⟨rfl, h⟩
      · refine .ok ⟨?_, ⟨rfl, ?_, rel_set h.fragments (.some hm) _⟩⟩
        · rw [h.numReceivedFragments]
        · rw [h.numReceivedFragments]
    · rw [if_neg (not_not.mpr hmax), if_neg (not_not.mpr hmax), if_pos hrange, if_pos hrange]
      exact .error _
  · rw [if_pos hmax, if_pos hmax]
    exact .error _

/-- The same messages are in progress, and they are alike. -/
def MessageReassembler.Alike (r r' : MessageReassembler) : Prop :=
  ∀ id, Option.Rel IncompleteMessage.Alike (r.inProgress id) (r'.inProgress id)

namespace MessageReassembler

variable {r r' : MessageReassembler}

theorem alike_expectAll {slots slots' : List (Option Message)}
    (h : List.Forall₂ (Option.Rel Message.Alike) slots slots') :
    Agree (List.Forall₂ Message.Alike) (expectAll slots) (expectAll slots') := by
  induction h with
  | nil => exact .ok .nil
  | cons hslot _ ih =>
    cases hslot with
    | none => exact .error _
    | some hm => exact ih.map fun _ _ hms => .cons hm hms

theorem Alike.update (h : r.Alike r') (id : MessageId) {x x' : Option IncompleteMessage}
    (hx : Option.Rel IncompleteMessage.Alike x x') :
    Alike ⟨Function.update r.inProgress id x⟩ ⟨Function.update r'.inProgress id x'⟩ := by
  intro id'
  by_cases hid : id' = id
  · subst hid
    simpa only [Function.update_self] using hx
  · simpa only [Function.update_of_ne hid] using h id'

theorem Alike.store (h : r.Alike r') (fragment : Fragment) {m m' : Message} (hm : m.Alike m') :
    Agree (fun r r' => r.1 = r'.1 ∧ r.2.Alike r'.2) (r.store fragment m)
    (r'.store fragment m') := by
  have hstored := h fragment.parentId
  rw [MessageReassembler.store, MessageReassembler.store]
  generalize r.inProgress fragment.parentId = x at hstored ⊢
  generalize r'.inProgress fragment.parentId = x' at hstored ⊢
  cases hstored with
  | some hinc => exact hinc.addFragment hm fragment.index
  | none =>
    cases IncompleteMessage.new fragment.numFragments with
    | error e => exact .error e
    | ok inc =>
      have hinc : inc.Alike inc := by
        refine ⟨rfl, rfl, List.forall₂_same.mpr fun slot _ => ?_⟩
        cases slot with
        | none => exact .none
        | some m => exact .some ⟨rfl, rfl, rfl, rfl, rfl⟩
      exact (hinc.addFragment hm fragment.index).map fun _ _ hr => ⟨rfl, hr.2⟩

theorem Alike.addFragment (h : r.Alike r') {m m' : Message} (hm : m.Alike m') :
    Agree (fun r r' => Option.Rel ReceivedMessage.Alike r.1 r'.1 ∧ r.2.Alike r'.2) (r.addFragment m)
      (r'.addFragment m') := by
  rw [MessageReassembler.addFragment, MessageReassembler.addFragment, hm.fragment]
  cases m'.fragment with
  | none => exact .error _
  | some fragment =>
    dsimp only
    by_cases hmany : fragment.numFragments > UInt16.ofNat maxFragments
    · rw [if_pos hmany, if_pos hmany]
      exact .ok ⟨.none, h⟩
    · rw [if_neg hmany, if_neg hmany]
      have hstore := h.store fragment hm
      generalize r.store fragment m = x at hstore ⊢
      generalize r'.store fragment m' = x' at hstore ⊢
      cases hstore with
      | error e => exact .error e
      | @ok a b hab =>
        obtain ⟨ready, inc⟩ := a
        obtain ⟨ready', inc'⟩ := b
        obtain ⟨rfl, hinc⟩ : ready = ready' ∧ inc.Alike inc' := hab
        cases ready with
        | true =>
          exact (alike_expectAll hinc.fragments).map fun _ _ hms =>
          ⟨.some (.fragmented hms), h.update _ .none⟩
        | false => exact .ok ⟨.none, h.update _ (.some hinc)⟩

end MessageReassembler

/-! ### The dispatcher -/

/-- The same but for the capacities of buffers and for what has been drained: `messages` and `acks`
are what was in the inboxes of `d` before what is there now. Nothing has been drained from the
inboxes of `d'`. -/
structure MessageDispatcher.Alike (messages : UInt8 → List ReceivedMessage)
    (acks : UInt8 → List MessageId)
    (d d' : MessageDispatcher) : Prop where
  nextMessageId : d.nextMessageId = d'.nextMessageId
  sentFragMap : d.sentFragMap = d'.sentFragMap
  messagesInPackets : d.messagesInPackets = d'.messagesInPackets
  messageReassembler : d.messageReassembler.Alike d'.messageReassembler
  messageInbox : ∀ channel,
    List.Forall₂ ReceivedMessage.Alike (messages channel ++ d.messageInbox channel)
      (d'.messageInbox channel)
  ackInbox : ∀ channel, acks channel ++ d.ackInbox channel = d'.ackInbox channel

namespace MessageDispatcher

variable {messages : UInt8 → List ReceivedMessage} {acks : UInt8 → List MessageId}
  {d d' : MessageDispatcher}
  {channels channels' : ChannelList} {ch ch' : Channel} {pool pool' : BufPool}

theorem Alike.pushInbox (h : Alike messages acks d d') {msg msg' : ReceivedMessage}
    (hmsg : msg.Alike msg') :
    Agree (Alike messages acks) (d.pushInbox msg) (d'.pushInbox msg') := by
  rw [MessageDispatcher.pushInbox, MessageDispatcher.pushInbox, hmsg.channel?]
  cases msg'.channel? with
  | none => exact .error _
  | some channel =>
    refine .ok { h with messageInbox := fun channel' => ?_ }
    have hinbox := h.messageInbox channel'
    by_cases heq : channel' = channel
    · subst heq
      simp only [Function.update_self]
      rw [← List.append_assoc]
      exact List.rel_append hinbox (.cons hmsg .nil)
    · simpa only [Function.update_of_ne heq] using hinbox

theorem Alike.processReceivedMessage (h : Alike messages acks d d')
    {m m' : Message} (hm : m.Alike m') :
    Agree (Alike messages acks) (d.processReceivedMessage m) (d'.processReceivedMessage m') := by
  rw [MessageDispatcher.processReceivedMessage, MessageDispatcher.processReceivedMessage,
    hm.fragment]
  by_cases hnone : m'.fragment.isNone = true
  · rw [if_pos hnone, if_pos hnone]
    exact h.pushInbox (.single hm)
  · rw [if_neg hnone, if_neg hnone]
    have hadd := h.messageReassembler.addFragment hm
    generalize d.messageReassembler.addFragment m = x at hadd ⊢
    generalize d'.messageReassembler.addFragment m' = x' at hadd ⊢
    cases hadd with
    | error e => exact .error e
    | @ok a b hab =>
      obtain ⟨received, r⟩ := a
      obtain ⟨received', r'⟩ := b
      obtain ⟨hreceived, hr⟩ := hab
      have h' : Alike messages acks { d with messageReassembler :=
        r } { d' with messageReassembler := r' } :=
        { h with messageReassembler := hr }
      cases hreceived with
      | none => exact .ok h'
      | some hmsg => exact h'.pushInbox hmsg

theorem Alike.setPacketMessageHandles (h : Alike messages acks d d') (packet : PacketId)
    (handles : List MessageHandle) : Agree (Alike messages acks)
    (d.setPacketMessageHandles packet handles)
      (d'.setPacketMessageHandles packet handles) := by
  rw [MessageDispatcher.setPacketMessageHandles, MessageDispatcher.setPacketMessageHandles,
    h.messagesInPackets]
  exact (Agree.of_eq (fun _ => rfl) _).map fun m m' hm => { h with messagesInPackets := hm }

/-! #### Acks -/

theorem Alike.pushAck (h : Alike messages acks d d') (channel : UInt8) (id : MessageId) :
    Alike messages acks (d.pushAck channel id) (d'.pushAck channel id) := by
  refine { h with ackInbox := fun channel' => ?_ }
  have hinbox := h.ackInbox channel'
  simp only [MessageDispatcher.pushAck]
  by_cases heq : channel' = channel
  · subst heq
    rw [Function.update_self, Function.update_self, ← List.append_assoc, hinbox]
  · rw [Function.update_of_ne heq, Function.update_of_ne heq, hinbox]

theorem Alike.ackHandle (h : Alike messages acks d d') (handle : MessageHandle) :
    Agree (Alike messages acks) (d.ackHandle handle) (d'.ackHandle handle) := by
  rw [MessageDispatcher.ackHandle, MessageDispatcher.ackHandle, h.sentFragMap]
  cases handle.parentId with
  | none => exact .ok (h.pushAck _ _)
  | some parentId =>
    dsimp only
    cases SentFragMap.ackFragmentMessage d'.sentFragMap parentId handle.id with
    | error e => exact .error e
    | ok r =>
      obtain ⟨whole, m⟩ := r
      have h' : Alike messages acks { d with sentFragMap := m } { d' with sentFragMap := m } :=
        { h with sentFragMap := rfl }
      cases whole with
      | true => exact .ok (h'.pushAck _ _)
      | false => exact .ok h'

theorem Alike.ackHandles (h : Alike messages acks d d') (hchannels : channels.Alike channels')
    (handles : List MessageHandle) :
    Agree (fun r r' => Alike messages acks r.2.1 r'.2.1 ∧ r.2.2.Alike r'.2.2)
      (d.ackHandles channels handles) (d'.ackHandles channels' handles) := by
  induction handles generalizing d d' channels channels' with
  | nil => exact .ok ⟨h, hchannels⟩
  | cons handle rest ih =>
    rw [MessageDispatcher.ackHandles, MessageDispatcher.ackHandles]
    have hget := hchannels.get? handle.channel
    generalize channels.get? handle.channel = x at hget ⊢
    generalize channels'.get? handle.channel = x' at hget ⊢
    cases hget with
    | none => exact .error _
    | @some ch ch' hch =>
      dsimp only
      have hack := hch.messageAckReceived handle
      generalize ch.messageAckReceived handle = x at hack ⊢
      generalize ch'.messageAckReceived handle = x' at hack ⊢
      cases hack with
      | error e => exact .error e
      | @ok a b hab =>
        dsimp only
        have hd := h.ackHandle handle
        generalize d.ackHandle handle = x at hd ⊢
        generalize d'.ackHandle handle = x' at hd ⊢
        cases hd with
        | error e => exact .error e
        | ok hd => exact (ih hd (hchannels.set _ hab)).map fun _ _ hr => hr

theorem Alike.ackedPacket (h : Alike messages acks d d') (packet : PacketId)
    (hchannels : channels.Alike channels') :
    Agree (fun r r' => Alike messages acks r.2.1 r'.2.1 ∧ r.2.2.Alike r'.2.2)
    (d.ackedPacket packet channels)
      (d'.ackedPacket packet channels') := by
  rw [MessageDispatcher.ackedPacket, MessageDispatcher.ackedPacket, h.messagesInPackets]
  have h' : Alike messages acks { d with messagesInPackets :=
    (d'.messagesInPackets.remove packet).2 }
      { d' with messagesInPackets := (d'.messagesInPackets.remove packet).2 } :=
        { h with messagesInPackets := rfl }
  cases (d'.messagesInPackets.remove packet).1 with
  | none => exact .ok ⟨h', hchannels⟩
  | some handles => exact h'.ackHandles hchannels handles

/-! #### Messages to send -/

theorem alike_enqueueFragments (overflowChecks : Bool) (payload : List UInt8)
    (numFragments : UInt16)
    (parentId : MessageId) (indices : List ℕ) (nextId : MessageId)
    (h : ch.Alike ch') (pool pool' : BufPool)
    (fragIds : List MessageId) :
    Agree (fun r r' => r.1 = r'.1 ∧ r.2.1 = r'.2.1 ∧ r.2.2.1.Alike r'.2.2.1)
      (enqueueFragments overflowChecks payload numFragments parentId indices nextId ch pool fragIds)
      (enqueueFragments overflowChecks payload numFragments parentId
        indices nextId ch' pool' fragIds) := by
  induction indices generalizing nextId ch ch' pool pool' fragIds with
  | nil => exact .ok ⟨rfl, rfl, h⟩
  | cons index rest ih =>
    rw [enqueueFragments, enqueueFragments]
    cases fragmentSize overflowChecks payload.length numFragments (UInt16.ofNat index) with
    | error e => exact .error e
    | ok payloadSize =>
      dsimp only
      cases fragmentSlice payload index payloadSize with
      | error e => exact .error e
      | ok fragPayload =>
        dsimp only
        have henqueue := h.enqueueMessage pool pool' (if index > 0 then nextId else parentId)
          fragPayload
          (some ⟨UInt16.ofNat index, numFragments, parentId⟩)
        generalize ch.enqueueMessage pool _ fragPayload _ = x at henqueue ⊢
        generalize ch'.enqueueMessage pool' _ fragPayload _ = x' at henqueue ⊢
        cases henqueue with
        | error e => exact .error e
        | ok hch => exact ih _ hch _ _ _

theorem Alike.addMessageToChannel (h : Alike messages acks d d')
    (hch : ch.Alike ch') (overflowChecks : Bool)
    (pool pool' : BufPool) (payload : List UInt8) :
    Agree (fun r r' => r.1 = r'.1 ∧ Alike messages acks r.2.1 r'.2.1 ∧ r.2.2.1.Alike r'.2.2.1)
      (d.addMessageToChannel overflowChecks pool ch payload)
      (d'.addMessageToChannel overflowChecks pool' ch' payload) := by
  rw [MessageDispatcher.addMessageToChannel, MessageDispatcher.addMessageToChannel, h.nextMessageId]
  by_cases hsmall : payload.length ≤ 1024
  · rw [if_pos hsmall, if_pos hsmall]
    exact (hch.enqueueMessage pool pool' d'.nextMessageId payload none).map
      fun _ _ hr => ⟨rfl, { h with nextMessageId := rfl }, hr⟩
  · rw [if_neg hsmall, if_neg hsmall, addLargeMessageToChannel,
      addLargeMessageToChannel, h.nextMessageId]
    dsimp only
    have hfragments := alike_enqueueFragments overflowChecks payload
      (UInt16.ofNat (payload.length / 1024 + if payload.length % 1024 > 0 then 1 else 0))
        d'.nextMessageId
      (List.range (UInt16.ofNat (payload.length / 1024 + if payload.length % 1024 > 0
        then 1 else 0)).toNat)
      (d'.nextMessageId + 1) hch pool pool' []
    generalize enqueueFragments overflowChecks payload _ d'.nextMessageId _ _ ch pool [] = x
      at hfragments ⊢
    generalize enqueueFragments overflowChecks payload _ d'.nextMessageId _ _ ch' pool' [] = x'
      at hfragments ⊢
    cases hfragments with
    | error e => exact .error e
    | @ok a b hab =>
      obtain ⟨fragIds, nextId, ch₁, pool₁⟩ := a
      obtain ⟨fragIds', nextId', ch₁', pool₁'⟩ := b
      obtain ⟨rfl, rfl, hch₁⟩ : fragIds = fragIds' ∧ nextId = nextId' ∧ ch₁.Alike ch₁' := hab
      dsimp only
      rw [h.sentFragMap]
      cases SentFragMap.insertFragmentedMessage d'.sentFragMap d'.nextMessageId fragIds with
      | error e => exact .ok ⟨rfl, { h with nextMessageId := rfl, sentFragMap := rfl }, hch₁⟩
      | ok m => exact .ok ⟨rfl, { h with nextMessageId := rfl, sentFragMap := rfl }, hch₁⟩

end MessageDispatcher

end Pickleback
