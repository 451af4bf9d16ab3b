import Pickleback.Compose

/-!
# Every call keeps an endpoint sound

`Endpoint.Sound` is what composing packets rests on: the default configuration, a salt, windows of
512 packets, and queues of outbound messages. Each call that an application or the handshake code
makes keeps it. Acks only take messages out of the queues; received messages only touch the windows
of seen ids.

## Main results

* `ackHandles_eq_ok` — what the acks of a packet do to the channels and the dispatcher
* `sound_new`, `sound_sendMessage`, `sound_update`, `sound_processIncomingPacket` — the calls
-/

namespace Pickleback

/-! ### Channels -/

namespace Channel

theorem Sound.update {ch : Channel} (h : ch.Sound) (dt : Time) : (ch.update dt).Sound := by
  cases ch with
  | unreliable c => exact ⟨h.queued, fun c' hc' => by cases hc'⟩
  | reliable c =>
    refine ⟨h.queued, fun c' hc' => ?_⟩
    cases hc'
    exact h.resend c rfl

@[simp] theorem id_update (ch : Channel) (dt : Time) : (ch.update dt).id = ch.id := by
  cases ch <;> rfl

@[simp] theorem id_acceptsMessage (ch : Channel) (id : MessageId) :
    (ch.acceptsMessage id).2.id = ch.id := by
  cases ch <;> rfl

theorem Sound.acceptsMessage {ch : Channel} (h : ch.Sound) (id : MessageId) :
    (ch.acceptsMessage id).2.Sound := by
  cases ch with
  | unreliable c => exact ⟨h.queued, fun c' hc' => by cases hc'⟩
  | reliable c =>
    refine ⟨h.queued, fun c' hc' => ?_⟩
    cases hc'
    exact h.resend c rfl

theorem Sound.push {ch : Channel} (h : ch.Sound) {m : Message} (hchan : m.channel = ch.id)
    (henc : ∃ payload, m.Encodes payload) : (ch.push m).Sound where
  queued := by
    intro x hx
    rw [queued_push, List.mem_append, List.mem_singleton] at hx
    rw [id_push]
    rcases hx with hx | rfl
    · exact h.queued x hx
    · exact ⟨hchan, henc⟩
  resend := by
    intro c' hc'
    cases ch with
    | unreliable c => cases hc'
    | reliable c =>
      cases hc'
      exact h.resend c rfl

theorem Sound.pushAll {ms : List Message} {ch : Channel} (h : ch.Sound)
    (hms : ∀ m ∈ ms, m.channel = ch.id ∧ ∃ payload, m.Encodes payload) : (ch.pushAll ms).Sound := by
  induction ms generalizing ch with
  | nil => exact h
  | cons m ms ih =>
    obtain ⟨hchan, henc⟩ := hms m (List.mem_cons_self ..)
    refine ih (h.push hchan henc) fun x hx => ?_
    rw [id_push]
    exact hms x (List.mem_cons_of_mem m hx)

end Channel

/-! ### Acks -/

theorem ReliableChannel.dismiss_eq_ok {handle : MessageHandle} {q q' : List ResendableMessage}
    {buffers : List PooledBuffer} (h : dismiss handle q = .ok (buffers, q')) :
    q'.Sublist q := by
  induction q generalizing buffers q' with
  | nil =>
    cases h
    exact List.Sublist.refl _
  | cons m q ih =>
    rw [dismiss] at h
    split at h
    · cases h
    · split at h
      · cases h
      · next hrest =>
        split at h <;> cases h
        · exact (ih hrest).cons m
        · exact (ih hrest).cons_cons m

namespace Channel

theorem id_messageAckReceived {ch ch' : Channel} {handle : MessageHandle}
    {buffers : List PooledBuffer}
    (h : ch.messageAckReceived handle = .ok (buffers, ch')) : ch'.id = ch.id := by
  cases ch with
  | unreliable c =>
    cases h
    rfl
  | reliable c =>
    obtain ⟨r, hr, heq⟩ := exists_of_map_eq_ok h
    obtain ⟨r', -, rfl⟩ := exists_of_map_eq_ok hr
    cases heq
    rfl

/-- An ack can only take messages out of the queue. -/
theorem messageAckReceived_eq_ok {ch ch' : Channel} {handle : MessageHandle}
    {buffers : List PooledBuffer}
    (h : ch.messageAckReceived handle = .ok (buffers, ch')) :
    ch.Shrinks ch' ∧ (ch.Sound → ch'.Sound) := by
  cases ch with
  | unreliable c =>
    cases h
    exact ⟨.refl _, fun hsound => hsound⟩
  | reliable c =>
    obtain ⟨r, hr, heq⟩ := exists_of_map_eq_ok h
    obtain ⟨⟨buffers', q'⟩, hdismiss, rfl⟩ := exists_of_map_eq_ok hr
    cases heq
    have hsub : ∀ x ∈ (reliable { c with q := q' }).queued, x ∈ (reliable c).queued := fun x hx =>
      ((ReliableChannel.dismiss_eq_ok hdismiss).map _).subset hx
    refine ⟨⟨rfl, rfl, hsub⟩, fun hsound => ⟨fun x hx => hsound.queued x (hsub x hx), ?_⟩⟩
    intro c' hc'
    cases hc'
    exact hsound.resend c rfl

end Channel

/-- What acks leave of a dispatcher: everything on the receiving side, the id counter and the
handles of the packets. -/
structure MessageDispatcher.SameIntake (d d' : MessageDispatcher) : Prop where
  nextMessageId : d'.nextMessageId = d.nextMessageId
  messagesInPackets : d'.messagesInPackets = d.messagesInPackets
  messageReassembler : d'.messageReassembler = d.messageReassembler
  messageInbox : d'.messageInbox = d.messageInbox

namespace MessageDispatcher

theorem SameIntake.refl (d : MessageDispatcher) : d.SameIntake d := ⟨rfl, rfl, rfl, rfl⟩

theorem SameIntake.trans {d d' d'' : MessageDispatcher} (h : d.SameIntake d')
    (h' : d'.SameIntake d'') :
    d.SameIntake d'' :=
  ⟨h'.nextMessageId.trans h.nextMessageId, h'.messagesInPackets.trans h.messagesInPackets,
    h'.messageReassembler.trans h.messageReassembler, h'.messageInbox.trans h.messageInbox⟩

theorem ackHandle_eq_ok {d d' : MessageDispatcher} {handle : MessageHandle}
    (h : d.ackHandle handle = .ok d') : d.SameIntake d' := by
  rw [ackHandle] at h
  split at h
  · split at h
    · cases h
    · cases h
      split <;> exact ⟨rfl, rfl, rfl, rfl⟩
  · cases h
    exact ⟨rfl, rfl, rfl, rfl⟩

theorem sameIntake_ackHandles {handles : List MessageHandle} {d d' : MessageDispatcher}
    {channels channels' : ChannelList} {buffers : List PooledBuffer}
    (h : d.ackHandles channels handles = .ok (buffers, d', channels')) : d.SameIntake d' := by
  induction handles generalizing d channels buffers with
  | nil =>
    cases h
    exact .refl _
  | cons handle rest ih =>
    rw [ackHandles] at h
    split at h
    · cases h
    · split at h
      · cases h
      · split at h
        · cases h
        · next d₁ hd₁ =>
          obtain ⟨r, hrest, heq⟩ := exists_of_map_eq_ok h
          cases heq
          exact (ackHandle_eq_ok hd₁).trans (ih hrest)

theorem sameIntake_ackedPacket {d d' : MessageDispatcher} {packet : PacketId}
    {channels channels' : ChannelList} {buffers : List PooledBuffer}
    (h : d.ackedPacket packet channels = .ok (buffers, d', channels')) :
    { d with messagesInPackets := (d.messagesInPackets.remove packet).2 }.SameIntake d' := by
  rw [ackedPacket] at h
  split at h
  · exact sameIntake_ackHandles h
  · cases h
    exact .refl _

/-- **The rule for the acks of one packet.** What each ack does to its channel, they do to the list
channel by channel. -/
theorem forall₂_ackHandles {R : Channel → Channel → Prop} (hrefl : ∀ ch, R ch ch)
    (htrans : ∀ {ch ch' ch''}, R ch ch' → R ch' ch'' → R ch ch'')
    (hack : ∀ {ch ch' : Channel} {handle : MessageHandle} {buffers : List PooledBuffer},
      ch.messageAckReceived handle = .ok (buffers, ch') → R ch ch')
    {handles : List MessageHandle} {d d' : MessageDispatcher} {channels channels' : ChannelList}
    {buffers : List PooledBuffer} (hids : (channels.map Channel.id).Nodup)
    (h : d.ackHandles channels handles = .ok (buffers, d', channels')) :
    List.Forall₂ R channels channels' := by
  induction handles generalizing d channels buffers with
  | nil =>
    cases h
    exact List.forall₂_same.mpr fun ch _ => hrefl ch
  | cons handle rest ih =>
    rw [ackHandles] at h
    split at h
    · cases h
    · next ch hch =>
      split at h
      · cases h
      · next bufs ch₁ hfirst =>
        split at h
        · cases h
        · next d₁ hd₁ =>
          obtain ⟨r, hrest, heq⟩ := exists_of_map_eq_ok h
          cases heq
          have hid : ch.id = handle.channel := ChannelList.id_of_get? hch
          have hset := ChannelList.forall₂_set hids (fun c _ => hrefl c)
            (ChannelList.mem_of_get? hch) (hack hfirst)
          rw [hid] at hset
          refine forall₂_trans (R := R) (fun h h' => htrans h h') hset (ih ?_ hrest)
          rwa [ChannelList.map_id_set ((Channel.id_messageAckReceived hfirst).trans hid)]

/-- **The acks of one packet** shrink the queues and leave the receiving side of the dispatcher. -/
theorem ackHandles_eq_ok {handles : List MessageHandle} {d d' : MessageDispatcher}
    {channels channels' : ChannelList} {buffers : List PooledBuffer} (hsound : channels.Sound)
    (h : d.ackHandles channels handles = .ok (buffers, d', channels')) :
    d.SameIntake d' ∧ channels'.Sound ∧ List.Forall₂ Channel.Shrinks channels channels' := by
  have hall := forall₂_ackHandles (R := fun ch ch' => ch.Shrinks ch' ∧ (ch.Sound → ch'.Sound))
    (fun ch => ⟨.refl ch, fun hch => hch⟩) (fun h h' => ⟨h.1.trans h'.1, fun hch => h'.2 (h.2 hch)⟩)
    Channel.messageAckReceived_eq_ok hsound.ids h
  refine ⟨sameIntake_ackHandles h, ⟨fun ch' hch' => ?_, ?_⟩, hall.imp fun _ _ hch => hch.1⟩
  · obtain ⟨ch, hch, -, hkeeps⟩ := exists_of_forall₂_mem hall hch'
    exact hkeeps (hsound.sound ch hch)
  · rw [ChannelList.map_id_of_forall₂ (fun _ _ hch => hch.1.id) hall]
    exact hsound.ids

/-- An acked packet: its handles are forgotten and its messages acked. -/
theorem ackedPacket_eq_ok {d d' : MessageDispatcher} {packet : PacketId}
    {channels channels' : ChannelList} {buffers : List PooledBuffer} (hsound : channels.Sound)
    (h : d.ackedPacket packet channels = .ok (buffers, d', channels')) :
    { d with messagesInPackets := (d.messagesInPackets.remove packet).2 }.SameIntake d' ∧
      channels'.Sound ∧ List.Forall₂ Channel.Shrinks channels channels' := by
  refine ⟨sameIntake_ackedPacket h, ?_⟩
  rw [ackedPacket] at h
  split at h
  · exact (ackHandles_eq_ok hsound h).2
  · cases h
    exact ⟨hsound, ChannelList.shrinks_refl _⟩

/-- A received message goes to the reassembler or an inbox. -/
theorem processReceivedMessage_eq_ok {d d' : MessageDispatcher} {msg : Message}
    (h : d.processReceivedMessage msg = .ok d') :
    d' = { d with
      messageReassembler := d'.messageReassembler
      messageInbox := d'.messageInbox } := by
  have hpush : ∀ {d₀ d₁ : MessageDispatcher} {r : ReceivedMessage}, d₀.pushInbox r = .ok d₁ →
      d₁ = { d₀ with messageInbox := d₁.messageInbox } := by
    intro d₀ d₁ r hr
    rw [pushInbox] at hr
    split at hr
    · cases hr
    · cases hr
      rfl
  rw [processReceivedMessage] at h
  split at h
  · have := hpush h
    rw [this]
  · split at h
    · cases h
    · cases h
      rfl
    · have := hpush h
      rw [this]

end MessageDispatcher

/-! ### Endpoints -/

namespace Endpoint

theorem sound_new (overflowChecks : Bool) (time : Time) (salt : UInt64) :
    ((Endpoint.new overflowChecks .default time).setXorSalt (some salt)).Sound where
  config := rfl
  salt := rfl
  channels := by
    refine ⟨?_, by simp [new, setXorSalt, Channel.id, UnreliableChannel.new, ReliableChannel.new]⟩
    intro ch hch
    simp only [new, setXorSalt, List.mem_cons, List.not_mem_nil, or_false] at hch
    rcases hch with rfl | rfl
    · refine ⟨?_, fun c hc => by cases hc⟩
      simp [Channel.queued, UnreliableChannel.new]
    · refine ⟨by simp [Channel.queued, ReliableChannel.new], fun c hc => ?_⟩
      cases hc
      norm_num [ReliableChannel.new]
  sentLen := rfl
  receivedLen := rfl
  handlesLen := rfl

theorem sendBlock_mem {parent : MessageId} {channel : UInt8} {payload : List UInt8}
    {ms : List Message} (h : SendBlock parent channel payload ms) {m : Message} (hm : m ∈ ms) :
    m.channel = channel ∧ ∃ bytes, m.Encodes bytes := by
  rw [SendBlock] at h
  split at h
  · obtain ⟨m', rfl, -, hchan, -, henc⟩ := h
    rw [List.mem_singleton.mp hm]
    exact ⟨hchan, _, henc⟩
  · obtain ⟨i, hi⟩ := List.mem_iff_getElem?.mp hm
    obtain ⟨-, hchan, -, henc⟩ := h.2 i m hi
    exact ⟨hchan, _, henc⟩

/-- Two endpoints that acks and flow control cannot tell apart, with the same packets waiting. -/
structure SameTraffic (p p' : Endpoint) : Prop where
  ackState : p'.ackState = p.ackState
  outbox : p'.outbox = p.outbox
  packetsAcked : p'.stats.packetsAcked = p.stats.packetsAcked

theorem packetsAcked_sendMessage {p p' : Endpoint} {channel : UInt8} {payload : List UInt8}
    {res : Except PicklebackError MessageId} (h : p.sendMessage channel payload = .ok (p', res)) :
    p'.stats.packetsAcked = p.stats.packetsAcked := by
  simp only [sendMessage] at h
  split at h
  · cases h
    rfl
  · split at h
    · cases h
      rfl
    · split at h
      · cases h
        rfl
      · split at h
        · cases h
        · cases h
          rfl

/-- `send_message`. -/
theorem sound_sendMessage {p p' : Endpoint} (h : p.Sound) {channel : UInt8} {payload : List UInt8}
    {res : Except PicklebackError MessageId}
    (hcall : p.sendMessage channel payload = .ok (p', res)) :
    p'.Sound ∧ p.SameTraffic p' := by
  have hacked := packetsAcked_sendMessage hcall
  have hmax : p.config.maxMessageSize ≤ 1024 * 1024 := by
    rw [h.config]
    exact le_rfl
  obtain ⟨-, hp⟩ | ⟨ch, ms, -, hch, hblock, hrec, hp⟩ := sendMessage_cases hmax hcall
  · rw [hp]
    exact ⟨⟨h.config, h.salt, h.channels, h.sentLen, h.receivedLen, h.handlesLen⟩, rfl, rfl, hacked⟩
  · have hid : ch.id = channel := ChannelList.id_of_get? hch
    have hpush : (ch.pushAll ms).Sound := by
      refine (h.channels.sound ch (ChannelList.mem_of_get? hch)).pushAll fun m hm => ?_
      rw [hid]
      exact sendBlock_mem hblock hm
    rw [hp]
    refine ⟨⟨h.config, h.salt, h.channels.set hpush (by simp [hid]), h.sentLen, h.receivedLen, ?_⟩,
      rfl, rfl, hacked⟩
    exact (congrArg SequenceBuffer.len hrec.messagesInPackets).trans h.handlesLen

/-- `update`. -/
theorem sound_update {p : Endpoint} (h : p.Sound) (dt : Time) :
    (p.update dt).Sound ∧ p.SameTraffic (p.update dt) := by
  refine ⟨⟨h.config, h.salt, ⟨?_, ?_⟩, h.sentLen, h.receivedLen, h.handlesLen⟩, rfl, rfl, rfl⟩
  · intro ch hch
    obtain ⟨c, hc, rfl⟩ := List.mem_map.mp hch
    exact (h.channels.sound c hc).update dt
  · have : (p.update dt).channels.map Channel.id = p.channels.map Channel.id := by
      rw [update, List.map_map]
      exact List.map_congr_left fun c _ => c.id_update dt
    rw [this]
    exact h.channels.ids

/-! #### Receiving -/

theorem sound_processAck {p p' : Endpoint} (h : p.Sound) {packetType : PacketType}
    {ack : UInt16 × Bool} (hcall : p.processAck packetType ack = .ok p') :
    p'.Sound ∧ p'.outbox = p.outbox ∧ p'.stats.packetsAcked
      = p.stats.packetsAcked + (if p.ackState.setsAcked ack then 1 else 0) := by
  simp only [processAck] at hcall
  split at hcall
  · next hbit =>
    cases hcall
    simp only [Bool.not_eq_true'] at hbit
    exact ⟨h, rfl, by simp [AckState.setsAcked, hbit]⟩
  · next hbit =>
    simp only [Bool.not_eq_true', Bool.not_eq_false] at hbit
    split at hcall
    · next hget =>
      cases hcall
      exact ⟨h, rfl, by simp [AckState.setsAcked, ackState, hget]⟩
    · next sentData hget =>
      split at hcall
      · next hacked =>
        cases hcall
        exact ⟨h, rfl, by simp [AckState.setsAcked, ackState, hget, hacked]⟩
      · next hacked =>
        split at hcall
        · cases hcall
        · next buffers d channels hd =>
          cases hcall
          obtain ⟨hsame, hcs, -⟩ := MessageDispatcher.ackedPacket_eq_ok h.channels hd
          refine ⟨⟨h.config, h.salt, hcs, h.sentLen, h.receivedLen, ?_⟩, rfl, ?_⟩
          · exact (congrArg SequenceBuffer.len hsame.messagesInPackets).trans h.handlesLen
          · simp only [Bool.not_eq_true] at hacked
            simp [AckState.setsAcked, ackState, hget, hacked, hbit]

theorem sound_processAcks {acks : List (UInt16 × Bool)} {p p' : Endpoint} (h : p.Sound)
    {packetType : PacketType} (hcall : p.processAcks packetType acks = .ok p') :
    p'.Sound ∧ p'.outbox = p.outbox ∧
      p'.stats.packetsAcked = p.stats.packetsAcked + (p.ackState.newAcks acks).length := by
  induction acks generalizing p with
  | nil =>
    cases hcall
    exact ⟨h, rfl, by simp [AckState.newAcks]⟩
  | cons ack rest ih =>
    simp only [processAcks] at hcall
    split at hcall
    · cases hcall
    · next p₁ hp₁ =>
      obtain ⟨h₁, hout₁, hacked₁⟩ := sound_processAck h hp₁
      obtain ⟨h₂, hout₂, hacked₂⟩ := ih h₁ hcall
      refine ⟨h₂, hout₂.trans hout₁, ?_⟩
      rw [hacked₂, hacked₁, AckState.newAcks, processAck_eq_ok hp₁,
        List.length_append, Nat.add_assoc]
      split <;> rfl

theorem sound_processPacketAcksAndRtt {p p' : Endpoint} (h : p.Sound)
    {header : ProtocolPacketHeader} (hcall : p.processPacketAcksAndRtt header = .ok p') :
    p'.Sound ∧ p'.outbox = p.outbox ∧ p'.stats.packetsAcked
      = p.stats.packetsAcked + (p.ackState.newAcks (header.acks.getD [])).length := by
  simp only [processPacketAcksAndRtt] at hcall
  split at hcall
  · next hnone =>
    cases hcall
    exact ⟨h, rfl, by simp [hnone, AckState.newAcks]⟩
  · next acks hsome =>
    rw [hsome, Option.getD_some]
    split at hcall
    · cases hcall
    · next p₁ hp₁ =>
      obtain ⟨h₁, hout, hacked⟩ := sound_processAcks h hp₁
      split at hcall
      · simp only [updatePacketLossCalculation] at hcall
        split at hcall
        · cases hcall
        · split at hcall
          · cases hcall
            exact ⟨h₁, hout, hacked⟩
          · cases hcall
            exact ⟨⟨h₁.config, h₁.salt, h₁.channels, h₁.sentLen, h₁.receivedLen, h₁.handlesLen⟩,
              hout, hacked⟩
      · cases hcall
        exact ⟨h₁, hout, hacked⟩

theorem sound_receiveMessage {p p' : Endpoint} (h : p.Sound) {msg : Message}
    (hcall : p.receiveMessage msg = .ok p') :
    p'.Sound ∧ p'.outbox = p.outbox ∧ p'.stats = p.stats := by
  simp only [receiveMessage] at hcall
  split at hcall
  · cases hcall
    exact ⟨h, rfl, rfl⟩
  · next ch hch =>
    have hid : ch.id = msg.channel := ChannelList.id_of_get? hch
    have hcs :=
      h.channels.set ((h.channels.sound ch (ChannelList.mem_of_get? hch)).acceptsMessage msg.id)
      ((ch.id_acceptsMessage msg.id).trans hid)
    split at hcall
    · cases hd : p.dispatcher.processReceivedMessage msg with
      | error q =>
        rw [hd] at hcall
        cases hcall
      | ok d =>
        rw [hd] at hcall
        cases hcall
        have hsame := MessageDispatcher.processReceivedMessage_eq_ok hd
        refine ⟨⟨h.config, h.salt, hcs, h.sentLen, h.receivedLen, ?_⟩, rfl, rfl⟩
        show d.messagesInPackets.len = 512
        rw [hsame]
        exact h.handlesLen
    · cases hcall
      exact ⟨⟨h.config, h.salt, hcs, h.sentLen, h.receivedLen, h.handlesLen⟩, rfl, rfl⟩

theorem sound_processMessages {fuel : ℕ} {p p' : Endpoint} (h : p.Sound) {payload : List UInt8}
    {r : Except PicklebackError Unit} (hcall : processMessages fuel p payload = .ok (p', r)) :
    p'.Sound ∧ p'.outbox = p.outbox ∧ p'.stats.packetsAcked = p.stats.packetsAcked := by
  induction fuel generalizing p payload with
  | zero => cases hcall
  | succ fuel ih =>
    simp only [processMessages] at hcall
    split at hcall
    · cases hcall
      exact ⟨h, rfl, rfl⟩
    · split at hcall
      · cases hcall
      · cases hcall
        exact ⟨⟨h.config, h.salt, h.channels, h.sentLen, h.receivedLen, h.handlesLen⟩, rfl, rfl⟩
      · split at hcall
        · cases hcall
        · next p₁ hp₁ =>
          obtain ⟨h₁, hout, hstats⟩ := sound_receiveMessage (by
            exact ⟨h.config, h.salt, h.channels, h.sentLen, h.receivedLen, h.handlesLen⟩) hp₁
          obtain ⟨h₂, hout₂, hacked₂⟩ := ih h₁ hcall
          exact ⟨h₂, hout₂.trans hout, hacked₂.trans (by rw [hstats])⟩

/-- `process_incoming_packet`. The packets counted as acked are those for which `acked` is set. -/
theorem sound_processIncomingPacket {p p' : Endpoint} (h : p.Sound) {header : ProtocolPacketHeader}
    {payload : List UInt8} {r : Except PicklebackError Unit}
    (hcall : p.processIncomingPacket header payload = .ok (p', r)) :
    p'.Sound ∧ p'.outbox = p.outbox ∧ p'.stats.packetsAcked = p.stats.packetsAcked +
      (if p.receivedBuffer.checkSequence header.id && !p.receivedBuffer.existsSequence header.id
        then (p.ackState.newAcks (header.acks.getD [])).length else 0) := by
  simp only [processIncomingPacket] at hcall
  split at hcall
  · next hcheck =>
    cases hcall
    simp only [Bool.not_eq_true'] at hcheck
    exact ⟨⟨h.config, h.salt, h.channels, h.sentLen, h.receivedLen, h.handlesLen⟩, rfl, by
      simp [hcheck]⟩
  · next hcheck =>
    simp only [Bool.not_eq_true', Bool.not_eq_false] at hcheck
    split at hcall
    · next hdup =>
      cases hcall
      exact ⟨⟨h.config, h.salt, h.channels, h.sentLen, h.receivedLen, h.handlesLen⟩, rfl, by
        simp [hdup]⟩
    · next hdup =>
      simp only [Bool.not_eq_true] at hdup
      simp only [acceptPacket] at hcall
      split at hcall
      · next e he =>
        obtain ⟨b, hb⟩ := SequenceBuffer.exists_insert_of_checkSequence hcheck
          ⟨p.time, p.config.packetHeaderSize + (header.size + payload.length)⟩
        rw [he] at hb
        cases hb
      · next rb hrb =>
        split at hcall
        · cases hcall
        · next p₁ hp₁ =>
          obtain ⟨h₁, hout₁, hacked₁⟩ := sound_processPacketAcksAndRtt (by
            exact ⟨h.config, h.salt, h.channels, h.sentLen,
              (SequenceBuffer.len_insert hrb).trans h.receivedLen, h.handlesLen⟩) hp₁
          have hsame : AckState.newAcks (ackState { p with
              stats := { p.stats with packetsReceived := p.stats.packetsReceived + 1 }
              receivedBuffer := rb }) (header.acks.getD [])
                = p.ackState.newAcks (header.acks.getD []) :=
            AckState.newAcks_receivedBuffer _ p.ackState rb
          rw [hsame] at hacked₁
          split at hcall
          · obtain ⟨h₂, hout₂, hacked₂⟩ := sound_processMessages h₁ hcall
            exact ⟨h₂, hout₂.trans hout₁, by simp [hcheck, hdup, hacked₂, hacked₁]⟩
          · cases hcall
            exact ⟨h₁, hout₁, by simp [hcheck, hdup, hacked₁]⟩

end Endpoint

end Pickleback
