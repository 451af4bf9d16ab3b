import Pickleback.SoundCalls

/-!
# Runs of one endpoint

The calls that server, client and applications make on an endpoint, in any order and with any
packets coming in: whatever a peer sends, and whatever the network does to it. `Endpoint.Reachable`
are the states of these runs, and `Endpoint.Intact` is what all of them have in common.

## Main definitions

* `Endpoint.Call`, `Endpoint.step`, `Endpoint.Reachable` — the runs of one endpoint
* `Endpoint.Intact` — the invariant of these runs

## Main results

* `processIncomingPacket_induct` — what each ack and each message keeps, a packet keeps
* `visitPacketsToSend_cases`, `sendControl_cases` — what sending does
* `Reachable.intact` — the invariant holds in every run
-/

namespace Pickleback

/-! ### Incoming packets -/

namespace Endpoint

/-- The endpoints differ in nothing but their buffers, statistics and estimates. -/
def SameCore (p p' : Endpoint) : Prop :=
  p' = { p with
    pool := p'.pool
    stats := p'.stats
    rtt := p'.rtt
    packetLoss := p'.packetLoss }

section Induct

variable {I : Endpoint → Prop}

theorem processAcks_induct {packetType : PacketType} {acks : List (UInt16 × Bool)}
    (hack : ∀ {p p' : Endpoint} {ack : UInt16 × Bool}, I p → ack ∈ acks →
      p.processAck packetType ack = .ok p' → I p')
    {p p' : Endpoint} (h : I p) (hcall : p.processAcks packetType acks = .ok p') : I p' := by
  induction acks generalizing p with
  | nil =>
    cases hcall
    exact h
  | cons ack rest ih =>
    simp only [processAcks] at hcall
    split at hcall
    · cases hcall
    · next p₁ hp₁ =>
      exact ih (fun hp hmem => hack hp (List.mem_cons_of_mem _ hmem))
        (hack h (List.mem_cons_self ..) hp₁) hcall

theorem processMessages_induct (hcore : ∀ {p p' : Endpoint}, I p → p.SameCore p' → I p')
    (hmessage : ∀ {p p' : Endpoint} {m : Message}, I p → p.receiveMessage m = .ok p' → I p')
    {fuel : ℕ} {p p' : Endpoint} {payload : List UInt8} {r : Except PicklebackError Unit} (h : I p)
    (hcall : processMessages fuel p payload = .ok (p', r)) : I p' := by
  induction fuel generalizing p payload with
  | zero => cases hcall
  | succ fuel ih =>
    simp only [processMessages] at hcall
    split at hcall
    · cases hcall
      exact h
    · split at hcall
      · cases hcall
      · cases hcall
        exact hcore h rfl
      · split at hcall
        · cases hcall
        · next p₁ hp₁ =>
          refine ih (hmessage (hcore h ?_) hp₁) hcall
          rfl

theorem processPacketAcksAndRtt_induct {header : ProtocolPacketHeader}
    (hcore : ∀ {p p' : Endpoint}, I p → p.SameCore p' → I p')
    (hack : ∀ {p p' : Endpoint} {packetType : PacketType} {ack : UInt16 × Bool}, I p →
      ack ∈ header.acks.getD [] → p.processAck packetType ack = .ok p' → I p')
    {p p' : Endpoint} (h : I p) (hcall : p.processPacketAcksAndRtt header = .ok p') : I p' := by
  simp only [processPacketAcksAndRtt] at hcall
  split at hcall
  · cases hcall
    exact h
  · next acks hacks =>
    rw [hacks, Option.getD_some] at hack
    split at hcall
    · cases hcall
    · next p₁ hp₁ =>
      have h₁ := processAcks_induct hack h hp₁
      split at hcall
      · simp only [updatePacketLossCalculation] at hcall
        split at hcall
        · cases hcall
        · split at hcall
          · cases hcall
            exact h₁
          · cases hcall
            exact hcore h₁ rfl
      · cases hcall
        exact h₁

/-- A packet that is stale or a duplicate is counted, and nothing else. -/
theorem sameCore_of_refused {p p' : Endpoint} {header : ProtocolPacketHeader} {payload : List UInt8}
    (h : ¬ (p.receivedBuffer.checkSequence header.id = true ∧
      p.receivedBuffer.existsSequence header.id = false))
    {r : Except PicklebackError Unit}
    (hcall : p.processIncomingPacket header payload = .ok (p', r)) :
    p.SameCore p' := by
  simp only [processIncomingPacket] at hcall
  split at hcall
  · cases hcall
    rfl
  · next hcheck =>
    split at hcall
    · cases hcall
      rfl
    · next hexists => exact absurd ⟨by simpa using hcheck, by simpa using hexists⟩ h

/-- **A packet that is accepted**: what each of its acks keeps holds when its messages are
processed. -/
theorem processIncomingPacket_of_accepted {header : ProtocolPacketHeader} {payload : List UInt8}
    (hcore : ∀ {p p' : Endpoint}, I p → p.SameCore p' → I p')
    (hreceived : ∀ {p : Endpoint} {b : SequenceBuffer ReceivedMeta}
      {id : PacketId} {m : ReceivedMeta},
      I p → p.receivedBuffer.insert id m = .ok b → I { p with receivedBuffer := b })
    (hack : ∀ {p p' : Endpoint} {packetType : PacketType} {ack : UInt16 × Bool}, I p →
      ack ∈ header.acks.getD [] → p.processAck packetType ack = .ok p' → I p')
    {p p' : Endpoint} {r : Except PicklebackError Unit} (h : I p)
    (hcheck : p.receivedBuffer.checkSequence header.id = true)
    (hexists : p.receivedBuffer.existsSequence header.id = false)
    (hcall : p.processIncomingPacket header payload = .ok (p', r)) :
    ∃ q, I q ∧ ((header.packetType = .messages ∧
      processMessages (payload.length + 1) q payload = .ok (p', r)) ∨
      (header.packetType ≠ .messages ∧ p' = q)) := by
  simp only [processIncomingPacket, hcheck, hexists, Bool.not_true,
    Bool.false_eq_true, if_false, acceptPacket] at hcall
  obtain ⟨rb, hrb⟩ := SequenceBuffer.exists_insert_of_checkSequence hcheck
    ⟨p.time, p.config.packetHeaderSize + (header.size + payload.length)⟩
  rw [hrb] at hcall
  dsimp only at hcall
  split at hcall
  · cases hcall
  · next q hq =>
    have h₀ : I { p with
        stats := { p.stats with packetsReceived := p.stats.packetsReceived + 1 }
        receivedBuffer := rb } := by
      refine hreceived (p := { p with
        stats := { p.stats with packetsReceived := p.stats.packetsReceived + 1 } }) (hcore h ?_) hrb
      rfl
    refine ⟨q, processPacketAcksAndRtt_induct hcore hack h₀ hq, ?_⟩
    split at hcall
    · next htype => exact Or.inl ⟨htype, hcall⟩
    · next htype =>
      cases hcall
      exact Or.inr ⟨htype, rfl⟩

/-- **The rule for incoming packets, up to the messages.** What the messages of the packet keep is
left to be shown of them all together. The acks are those of its header. -/
theorem processIncomingPacket_induct_messages {header : ProtocolPacketHeader} {payload : List UInt8}
    (hcore : ∀ {p p' : Endpoint}, I p → p.SameCore p' → I p')
    (hreceived : ∀ {p : Endpoint} {b : SequenceBuffer ReceivedMeta}
      {id : PacketId} {m : ReceivedMeta},
      I p → p.receivedBuffer.insert id m = .ok b → I { p with receivedBuffer := b })
    (hack : ∀ {p p' : Endpoint} {packetType : PacketType} {ack : UInt16 × Bool}, I p →
      ack ∈ header.acks.getD [] → p.processAck packetType ack = .ok p' → I p')
    {p p' : Endpoint}
    (hmessages : ∀ {p p' : Endpoint} {r : Except PicklebackError Unit}, I p →
      header.packetType = .messages →
      processMessages (payload.length + 1) p payload = .ok (p', r) → I p')
    {r : Except PicklebackError Unit} (h : I p)
    (hcall : p.processIncomingPacket header payload = .ok (p', r)) : I p' := by
  by_cases haccepts : p.receivedBuffer.checkSequence header.id = true ∧
      p.receivedBuffer.existsSequence header.id = false
  · obtain ⟨q, hq, ⟨htype, hcall⟩ | ⟨-, rfl⟩⟩ :=
      processIncomingPacket_of_accepted hcore hreceived hack h haccepts.1 haccepts.2 hcall
    · exact hmessages hq htype hcall
    · exact hq
  · exact hcore h (sameCore_of_refused haccepts hcall)

/-- **The rule for incoming packets.** A property that each ack and each message keeps, and that
does not depend on buffers, statistics, estimates or the window of received packets, is kept by
every packet. -/
theorem processIncomingPacket_induct (hcore : ∀ {p p' : Endpoint}, I p → p.SameCore p' → I p')
    (hreceived : ∀ {p : Endpoint} {b : SequenceBuffer ReceivedMeta}
      {id : PacketId} {m : ReceivedMeta},
      I p → p.receivedBuffer.insert id m = .ok b → I { p with receivedBuffer := b })
    (hack : ∀ {p p' : Endpoint} {packetType : PacketType} {ack : UInt16 × Bool}, I p →
      p.processAck packetType ack = .ok p' → I p')
    (hmessage : ∀ {p p' : Endpoint} {m : Message}, I p → p.receiveMessage m = .ok p' → I p')
    {p p' : Endpoint} {header : ProtocolPacketHeader} {payload : List UInt8}
    {r : Except PicklebackError Unit} (h : I p)
    (hcall : p.processIncomingPacket header payload = .ok (p', r)) : I p' :=
  processIncomingPacket_induct_messages hcore hreceived (fun hp _ => hack hp)
    (fun hp _ hmessages => processMessages_induct hcore hmessage hp hmessages) h hcall

end Induct

/-- **An ack** does nothing, or it is the first one of a packet in `sent_buffer`: the packet is
marked, and the dispatcher is told. -/
theorem processAck_cases {p p' : Endpoint} {packetType : PacketType} {ack : UInt16 × Bool}
    (h : p.processAck packetType ack = .ok p') :
    p' = p ∨ ∃ sentMeta buffers d channels, p.sentBuffer.get ack.1 = some sentMeta ∧
      sentMeta.acked = false ∧ p.dispatcher.ackedPacket ack.1 p.channels = .ok
      (buffers, d, channels) ∧
      p' = { p with
        newestAck := p'.newestAck
        ackLowWatermark := p'.ackLowWatermark
        ackLowWatermarkNonEmpty := p'.ackLowWatermarkNonEmpty
        stats := p'.stats
        sentBuffer := p.sentBuffer.setEntry ack.1 { sentMeta with acked := true }
        dispatcher := d
        channels := channels
        pool := p'.pool
        rtt := p'.rtt } := by
  simp only [processAck] at h
  split at h
  · cases h
    exact Or.inl rfl
  · split at h
    · cases h
      exact Or.inl rfl
    · next sentMeta hget =>
      split at h
      · cases h
        exact Or.inl rfl
      · next hacked =>
        split at h
        · cases h
        · next buffers d channels hd =>
          cases h
          exact Or.inr ⟨sentMeta, buffers, d, channels, hget, by simpa using hacked, hd, rfl⟩

/-- The endpoints agree on all that receiving does not touch. -/
structure SameSetup (p p' : Endpoint) : Prop where
  time : p'.time = p.time
  config : p'.config = p.config
  overflowChecks : p'.overflowChecks = p.overflowChecks
  xorSalt : p'.xorSalt = p.xorSalt
  outbox : p'.outbox = p.outbox
  sequenceId : p'.sequenceId = p.sequenceId

theorem SameSetup.refl (p : Endpoint) : p.SameSetup p := ⟨rfl, rfl, rfl, rfl, rfl, rfl⟩

theorem SameSetup.trans {p p' p'' : Endpoint} (h : p.SameSetup p') (h' : p'.SameSetup p'') :
    p.SameSetup p'' :=
  ⟨h'.time.trans h.time, h'.config.trans h.config, h'.overflowChecks.trans h.overflowChecks,
    h'.xorSalt.trans h.xorSalt, h'.outbox.trans h.outbox, h'.sequenceId.trans h.sequenceId⟩

theorem sameSetup_receiveMessage {p p' : Endpoint} {m : Message} (h : p.receiveMessage m = .ok p') :
    p.SameSetup p' := by
  simp only [receiveMessage] at h
  split at h
  · cases h
    exact .refl p
  · split at h
    · obtain ⟨d, -, rfl⟩ := exists_of_map_eq_ok h
      exact ⟨rfl, rfl, rfl, rfl, rfl, rfl⟩
    · cases h
      exact ⟨rfl, rfl, rfl, rfl, rfl, rfl⟩

/-- Nothing that is received changes the setup, uses up a packet id or sends anything. -/
theorem sameSetup_processIncomingPacket {p p' : Endpoint} {header : ProtocolPacketHeader}
    {payload : List UInt8} {r : Except PicklebackError Unit}
    (hcall : p.processIncomingPacket header payload = .ok (p', r)) : p.SameSetup p' := by
  refine processIncomingPacket_induct (I := p.SameSetup) ?_ ?_ ?_ ?_ (.refl p) hcall
  · intro q q' hq hsame
    rw [hsame]
    exact hq.trans ⟨rfl, rfl, rfl, rfl, rfl, rfl⟩
  · intro q b id m hq _
    exact hq.trans ⟨rfl, rfl, rfl, rfl, rfl, rfl⟩
  · intro q q' packetType ack hq hack
    obtain rfl | ⟨_, _, _, _, -, -, -, hq'⟩ := processAck_cases hack
    · exact hq
    · rw [hq']
      exact hq.trans ⟨rfl, rfl, rfl, rfl, rfl, rfl⟩
  · intro q q' m hq hm
    exact hq.trans (sameSetup_receiveMessage hm)

/-! ### How many packets came in -/

theorem packetsReceived_processAck {p p' : Endpoint} {packetType : PacketType} {ack : UInt16 × Bool}
    (h : p.processAck packetType ack = .ok p') :
    p'.stats.packetsReceived = p.stats.packetsReceived := by
  simp only [processAck] at h
  split at h
  · cases h
    rfl
  · split at h
    · cases h
      rfl
    · split at h
      · cases h
        rfl
      · split at h
        · cases h
        · cases h
          rfl

theorem packetsReceived_receiveMessage {p p' : Endpoint} {m : Message}
    (h : p.receiveMessage m = .ok p') :
    p'.stats.packetsReceived = p.stats.packetsReceived := by
  simp only [receiveMessage] at h
  split at h
  · cases h
    rfl
  · split at h
    · obtain ⟨d, -, rfl⟩ := exists_of_map_eq_ok h
      rfl
    · cases h
      rfl

theorem packetsReceived_processMessages {fuel : ℕ} {p p' : Endpoint} {payload : List UInt8}
    {r : Except PicklebackError Unit} (h : processMessages fuel p payload = .ok (p', r)) :
    p'.stats.packetsReceived = p.stats.packetsReceived := by
  induction fuel generalizing p payload with
  | zero => cases h
  | succ fuel ih =>
    simp only [processMessages] at h
    split at h
    · cases h
      rfl
    · split at h
      · cases h
      · cases h
        rfl
      · split at h
        · cases h
        · next hp₁ =>
          have hmessage := packetsReceived_receiveMessage hp₁
          exact (ih h).trans hmessage

theorem packetsReceived_processPacketAcksAndRtt {p p' : Endpoint} {header : ProtocolPacketHeader}
    (h : p.processPacketAcksAndRtt header = .ok p') :
    p'.stats.packetsReceived = p.stats.packetsReceived := by
  simp only [processPacketAcksAndRtt] at h
  split at h
  · cases h
    rfl
  · split at h
    · cases h
    · next p₁ hp₁ =>
      have hacks :=
        processAcks_induct (I := fun q => q.stats.packetsReceived = p.stats.packetsReceived)
        (fun hq _ hack => (packetsReceived_processAck hack).trans hq) rfl hp₁
      split at h
      · simp only [updatePacketLossCalculation] at h
        split at h
        · cases h
        · split at h
          · cases h
            exact hacks
          · cases h
            exact hacks
      · cases h
        exact hacks

/-- **Every packet is counted**, also when it is refused. -/
theorem packetsReceived_processIncomingPacket {p p' : Endpoint} {header : ProtocolPacketHeader}
    {payload : List UInt8} {r : Except PicklebackError Unit}
    (h : p.processIncomingPacket header payload = .ok (p', r)) :
    p'.stats.packetsReceived = p.stats.packetsReceived + 1 := by
  simp only [processIncomingPacket] at h
  split at h
  · cases h
    rfl
  · split at h
    · cases h
      rfl
    · simp only [acceptPacket] at h
      split at h
      · cases h
        rfl
      · split at h
        · cases h
        · next p₁ hp₁ =>
          have hacks := packetsReceived_processPacketAcksAndRtt hp₁
          split at h
          · exact (packetsReceived_processMessages h).trans hacks
          · cases h
            exact hacks

/-! ### Control packets -/

/-- **A control packet** uses up an id. It is put into the outbox and the window of sent packets, or
it is an error and leaves both as they were. -/
theorem sendControl_cases {p p' : Endpoint} {packetType : PacketType}
    {build : ProtocolPacketHeader → ProtocolPacket} {r : Except PicklebackError Unit}
    (h : p.sendControl packetType build = .ok (p', r)) :
    ((∃ e, r = .error e) ∧ p' = { p with sequenceId := p.sequenceId + 1, pool := p'.pool }) ∨
      ∃ p₁ header pool buf size sb, r = .ok () ∧
        p.nextPacketHeader packetType = .ok (p₁, .ok header) ∧
        writePacket p.pool p.config (build header) = .ok (pool, .ok buf) ∧
        p.sentBuffer.insert (p.sequenceId + 1)
          (SentMeta.new p.time size p.receivedBuffer.sequence) = .ok sb ∧
        p' = { p with
          sequenceId := p.sequenceId + 1
          pool := pool
          sentBuffer := sb
          outbox := p.outbox ++ [buf]
          stats := { p.stats with packetsSent := p.stats.packetsSent + 1 } } := by
  simp only [sendControl] at h
  split at h
  · cases h
  · next p₁ e hnext =>
    cases h
    exact Or.inl ⟨⟨e, rfl⟩, by rw [nextPacketHeader_eq hnext]⟩
  · next p₁ header hnext =>
    have hp₁ := nextPacketHeader_eq hnext
    subst hp₁
    simp only [sendPacket] at h
    split at h
    · cases h
    · next pool e hwrite =>
      cases h
      exact Or.inl ⟨⟨e, rfl⟩, rfl⟩
    · next pool buf hwrite =>
      rw [Except.ok.injEq] at h
      simp only [sendRawPacket] at h
      split at h
      · next e he =>
        cases h
        exact Or.inl ⟨⟨e, rfl⟩, rfl⟩
      · next sb hsb =>
        cases h
        exact Or.inr ⟨_, header, pool, buf, _, sb, rfl, hnext, hwrite, hsb, rfl⟩

theorem channels_sendControl {p p' : Endpoint} {packetType : PacketType}
    {build : ProtocolPacketHeader → ProtocolPacket} {r : Except PicklebackError Unit}
    (h : p.sendControl packetType build = .ok (p', r)) : p'.channels = p.channels := by
  obtain ⟨-, hp⟩ | ⟨_, _, _, _, _, _, -, -, -, -, hp⟩ := sendControl_cases h <;> rw [hp]

theorem dispatcher_sendControl {p p' : Endpoint} {packetType : PacketType}
    {build : ProtocolPacketHeader → ProtocolPacket} {r : Except PicklebackError Unit}
    (h : p.sendControl packetType build = .ok (p', r)) : p'.dispatcher = p.dispatcher := by
  obtain ⟨-, hp⟩ | ⟨_, _, _, _, _, _, -, -, -, -, hp⟩ := sendControl_cases h <;> rw [hp]

/-! ### Runs -/

/-- The calls on an endpoint. -/
inductive Call where
  | setXorSalt (salt : Option UInt64)
  | sendMessage (channel : UInt8) (payload : List UInt8)
  | update (dt : Time)
  | visitPacketsToSend
  | sendControl (packetType : PacketType) (build : ProtocolPacketHeader → ProtocolPacket)
  | processIncomingPacket (header : ProtocolPacketHeader) (payload : List UInt8)
  | drainReceivedMessages (channel : UInt8)
  | drainMessageAcks (channel : UInt8)

/-- One call. Where the source would panic there is no state afterwards. -/
def step (p : Endpoint) : Call → Except Panic Endpoint
  | .setXorSalt salt => .ok (p.setXorSalt salt)
  | .sendMessage channel payload => (p.sendMessage channel payload).map Prod.fst
  | .update dt => .ok (p.update dt)
  | .visitPacketsToSend => p.visitPacketsToSend.map Prod.fst
  | .sendControl packetType build => (p.sendControl packetType build).map Prod.fst
  | .processIncomingPacket header payload => (p.processIncomingPacket header payload).map Prod.fst
  | .drainReceivedMessages channel => .ok (p.drainReceivedMessages channel).1
  | .drainMessageAcks channel => .ok (p.drainMessageAcks channel).1

/-- The states of the runs of an endpoint. -/
inductive Reachable (overflowChecks : Bool) (config : PicklebackConfig) : Endpoint → Prop
  | new (time : Time) : Reachable overflowChecks config (Endpoint.new overflowChecks config time)
  | step {p p' : Endpoint} {c : Call} (h : Reachable overflowChecks config p)
    (hstep : p.step c = .ok p') :
    Reachable overflowChecks config p'

/-- What every reachable endpoint with the default configuration satisfies. -/
structure Intact (p : Endpoint) : Prop where
  config : p.config = .default
  channels : p.channels.Sound
  ids : p.channels.map Channel.id = [0, 1]
  sentLen : p.sentBuffer.len = 512
  receivedLen : p.receivedBuffer.len = 512
  handlesLen : p.dispatcher.messagesInPackets.len = 512
  fragLen : p.dispatcher.sentFragMap.len = 25000

theorem Intact.sound {p : Endpoint} (h : p.Intact) (hsalt : p.xorSalt.isSome) : p.Sound :=
  ⟨h.config, hsalt, h.channels, h.sentLen, h.receivedLen, h.handlesLen⟩

theorem intact_new (overflowChecks : Bool) (time : Time) :
    (Endpoint.new overflowChecks .default time).Intact where
  config := rfl
  channels := (sound_new overflowChecks time 0).channels
  ids := rfl
  sentLen := rfl
  receivedLen := rfl
  handlesLen := rfl
  fragLen := rfl

theorem len_ackHandle {d d' : MessageDispatcher} {handle : MessageHandle}
    (h : d.ackHandle handle = .ok d') : d'.sentFragMap.len = d.sentFragMap.len := by
  rw [MessageDispatcher.ackHandle] at h
  split at h
  · split at h
    · cases h
    · next hack =>
      cases h
      have := SentFragMap.len_ackFragmentMessage hack
      split <;> exact this
  · cases h
    rfl

theorem len_ackHandles {handles : List MessageHandle} {d d' : MessageDispatcher}
    {channels channels' : ChannelList} {buffers : List PooledBuffer}
    (h : d.ackHandles channels handles = .ok (buffers, d', channels')) :
    d'.sentFragMap.len = d.sentFragMap.len := by
  induction handles generalizing d channels buffers with
  | nil =>
    cases h
    rfl
  | cons handle rest ih =>
    rw [MessageDispatcher.ackHandles] at h
    split at h
    · cases h
    · split at h
      · cases h
      · split at h
        · cases h
        · next d₁ hd₁ =>
          obtain ⟨r, hr, heq⟩ := exists_of_map_eq_ok h
          cases heq
          exact (ih hr).trans (len_ackHandle hd₁)

theorem len_ackedPacket {d d' : MessageDispatcher} {packet : PacketId}
    {channels channels' : ChannelList} {buffers : List PooledBuffer}
    (h : d.ackedPacket packet channels = .ok (buffers, d', channels')) :
    d'.sentFragMap.len = d.sentFragMap.len := by
  rw [MessageDispatcher.ackedPacket] at h
  split at h
  · have := len_ackHandles h
    exact this
  · cases h
    rfl

namespace Intact

variable {p p' : Endpoint}

theorem sameCore (h : p.Intact) (hsame : p.SameCore p') : p'.Intact := by
  rw [hsame]
  exact ⟨h.config, h.channels, h.ids, h.sentLen, h.receivedLen, h.handlesLen, h.fragLen⟩

theorem sendMessage (h : p.Intact) {channel : UInt8} {payload : List UInt8}
    {res : Except PicklebackError MessageId}
    (hcall : p.sendMessage channel payload = .ok (p', res)) :
    p'.Intact := by
  have hmax : p.config.maxMessageSize ≤ 1024 * 1024 := by
    rw [h.config]
    exact le_rfl
  obtain ⟨-, hp⟩ | ⟨ch, ms, -, hch, hblock, hrec, hp⟩ := sendMessage_cases hmax hcall
  · rw [hp]
    exact ⟨h.config, h.channels, h.ids, h.sentLen, h.receivedLen, h.handlesLen, h.fragLen⟩
  · have hid : ch.id = channel := ChannelList.id_of_get? hch
    have hpush : (ch.pushAll ms).Sound := by
      refine (h.channels.sound ch (ChannelList.mem_of_get? hch)).pushAll fun m hm => ?_
      rw [hid]
      exact sendBlock_mem hblock hm
    have hfrag : p'.dispatcher.sentFragMap.len = p.dispatcher.sentFragMap.len :=
      hrec.len_sentFragMap
    have hhandles := congrArg SequenceBuffer.len hrec.messagesInPackets
    have hset : (p.channels.set channel (ch.pushAll ms)).Sound :=
      h.channels.set hpush (by simp [hid])
    have hids : (p.channels.set channel (ch.pushAll ms)).map Channel.id =
      p.channels.map Channel.id :=
      ChannelList.map_id_set (by simp [hid])
    rw [hp]
    exact ⟨h.config, hset, hids.trans h.ids, h.sentLen, h.receivedLen, hhandles.trans h.handlesLen,
      hfrag.trans h.fragLen⟩

theorem update (h : p.Intact) (dt : Time) : (p.update dt).Intact := by
  have hids : (p.update dt).channels.map Channel.id = p.channels.map Channel.id := by
    rw [Endpoint.update, List.map_map]
    exact List.map_congr_left fun c _ => c.id_update dt
  refine ⟨h.config, ⟨?_, hids ▸ h.channels.ids⟩, hids.trans h.ids,
    h.sentLen, h.receivedLen, h.handlesLen, h.fragLen⟩
  intro ch hch
  obtain ⟨c, hc, rfl⟩ := List.mem_map.mp hch
  exact (h.channels.sound c hc).update dt

theorem processAck (h : p.Intact) {packetType : PacketType} {ack : UInt16 × Bool}
    (hcall : p.processAck packetType ack = .ok p') : p'.Intact := by
  obtain rfl | ⟨sentMeta, buffers, d, channels, -, -, hd, hp'⟩ := processAck_cases hcall
  · exact h
  · obtain ⟨hsame, hcs, hshrinks⟩ := MessageDispatcher.ackedPacket_eq_ok h.channels hd
    have hhandles := congrArg SequenceBuffer.len hsame.messagesInPackets
    rw [hp']
    have hids := ChannelList.map_id_of_forall₂ (fun _ _ hch => hch.id) hshrinks
    exact ⟨h.config, hcs, hids.trans h.ids, h.sentLen, h.receivedLen,
      hhandles.trans h.handlesLen, (len_ackedPacket hd).trans h.fragLen⟩

theorem receiveMessage (h : p.Intact) {m : Message} (hcall : p.receiveMessage m = .ok p') :
    p'.Intact := by
  simp only [Endpoint.receiveMessage] at hcall
  split at hcall
  · cases hcall
    exact h
  · next ch hch =>
    have hid : ch.id = m.channel := ChannelList.id_of_get? hch
    have hid' := (ch.id_acceptsMessage m.id).trans hid
    have hcs :=
      h.channels.set ((h.channels.sound ch (ChannelList.mem_of_get? hch)).acceptsMessage m.id) hid'
    have hids : (p.channels.set m.channel (ch.acceptsMessage m.id).2).map Channel.id = [0, 1] :=
      (ChannelList.map_id_set hid').trans h.ids
    split at hcall
    · obtain ⟨d, hd, heq⟩ := exists_of_map_eq_ok hcall
      cases heq
      have hsame := MessageDispatcher.processReceivedMessage_eq_ok hd
      refine ⟨h.config, hcs, hids, h.sentLen, h.receivedLen, ?_, ?_⟩
      · show d.messagesInPackets.len = 512
        rw [hsame]
        exact h.handlesLen
      · show d.sentFragMap.len = 25000
        rw [hsame]
        exact h.fragLen
    · cases hcall
      exact ⟨h.config, hcs, hids, h.sentLen, h.receivedLen, h.handlesLen, h.fragLen⟩

theorem receivedBuffer (h : p.Intact) {b : SequenceBuffer ReceivedMeta}
    {id : PacketId} {m : ReceivedMeta}
    (hb : p.receivedBuffer.insert id m = .ok b) : Intact { p with receivedBuffer := b } :=
  ⟨h.config, h.channels, h.ids, h.sentLen, (SequenceBuffer.len_insert hb).trans h.receivedLen,
    h.handlesLen, h.fragLen⟩

theorem processIncomingPacket (h : p.Intact) {header : ProtocolPacketHeader} {payload : List UInt8}
    {r : Except PicklebackError Unit}
    (hcall : p.processIncomingPacket header payload = .ok (p', r)) : p'.Intact := by
  exact processIncomingPacket_induct (I := Intact) (fun h hsame => h.sameCore hsame)
    (fun h hb => h.receivedBuffer hb) (fun h hack => h.processAck hack)
      (fun h hm => h.receiveMessage hm)
    h hcall

theorem sendControl (h : p.Intact) {packetType : PacketType}
    {build : ProtocolPacketHeader → ProtocolPacket} {r : Except PicklebackError Unit}
    (hcall : p.sendControl packetType build = .ok (p', r)) : p'.Intact := by
  obtain ⟨-, hp⟩ | ⟨p₁, header, pool, buf, size, sb, -, -, -, hsb, hp⟩ := sendControl_cases hcall
  · rw [hp]
    exact ⟨h.config, h.channels, h.ids, h.sentLen, h.receivedLen, h.handlesLen, h.fragLen⟩
  · rw [hp]
    exact ⟨h.config, h.channels, h.ids, (SequenceBuffer.len_insert hsb).trans h.sentLen,
      h.receivedLen, h.handlesLen, h.fragLen⟩

theorem emits (h : p.Intact) {e : Emission} (hemits : p.Emits e p') : p'.Intact := by
  have hsound := hemits.wrote.sound h.channels
  obtain ⟨size, hsent⟩ := hemits.sent
  have hhandles := SequenceBuffer.len_insert hemits.handles
  have hsentLen := SequenceBuffer.len_insert hsent
  have hids := ChannelList.map_id_of_forall₂ (fun _ _ hch => hch.id) hemits.shrinks
  have hrest := hemits.rest
  refine ⟨?_, hsound, hids.trans h.ids, hsentLen.trans h.sentLen,
    ?_, hhandles.trans h.handlesLen, ?_⟩
  · rw [hrest]
    exact h.config
  · rw [hrest]
    exact h.receivedLen
  · rw [hrest]
    exact h.fragLen

theorem emitsAll {es : List Emission} (h : p.Intact) (hall : p.EmitsAll es p') : p'.Intact := by
  induction hall with
  | nil _ => exact h
  | cons hemits _ ih => exact ih (h.emits hemits)

theorem stops (h : p.Intact) {r : Except PicklebackError Unit} (hstop : p.Stops p' r) :
    p'.Intact := by
  cases hstop with
  | done _ => exact h
  | unacked _ => exact h
  | acks pool _ =>
    exact ⟨h.config, h.channels, h.ids, h.sentLen, h.receivedLen, h.handlesLen, h.fragLen⟩

end Intact

/-! ### Sending messages -/

/-- Without a salt no packet of messages is begun; the call ends at once, or panics. -/
theorem composePackets_of_no_salt {p p' : Endpoint} (h : p.Intact) (hsalt : p.xorSalt = none)
    {r : Except PicklebackError Unit} (hcall : p.composePackets = .ok (p', r)) :
    p.Spends [] p' ∧ p.Stops p' r := by
  have hlimit : p.config.maxPacketSize = 1150 := by rw [h.config]; rfl
  rw [composePackets] at hcall
  split at hcall
  · next hunacked =>
    cases hcall
    exact ⟨Or.inl rfl, .unacked hunacked⟩
  · next hunacked =>
    rw [show p.channels.numQueued + 65536 = p.channels.numQueued + 65535 + 1 from rfl, composeLoop]
      at hcall
    split at hcall
    · next hany =>
      by_cases hacks : p.receivedUnackedPackets > maxUnackedPackets
      · have hopen := openPacket_of_gt hunacked hacks
        rw [hlimit] at hopen
        rw [hopen] at hcall
        cases hcall
        exact ⟨Or.inr rfl, .acks _ hacks⟩
      · have hn : p.receivedUnackedPackets.toNat ≤ 350 := by
          rw [gt_iff_lt, UInt16.lt_iff_toNat_lt] at hacks
          simpa [maxUnackedPackets] using hacks
        obtain ⟨header, hheader⟩ :=
          ProtocolPacketHeader.exists_new (p.sequenceId + 1) p.receivedBuffer hn
          .messages
        have hlen := (ProtocolPacketHeader.length_write_le hn hheader).2
        have hnext : nextPacketHeader { p with pool := (p.pool.getBuffer 1150).2 } .messages
            = .ok ({ p with sequenceId := p.sequenceId + 1, pool := (p.pool.getBuffer 1150).2 },
                .ok header) :=
          nextPacketHeader_of_le hacks hheader
        obtain ⟨w, hw, -⟩ := WriteLimiter.Extends.exists_writeAll
          (show header.write.length ≤ (WriteLimiter.new (p.pool.getBuffer 1150).1 1150).remaining by
            simp only [WriteLimiter.new, WriteLimiter.remaining]
            omega)
        have hopen : p.openPacket none = .error .noXorSalt := by
          simp only [openPacket, if_neg hunacked, hlimit, writePacketHeader, hnext, hw]
          simp only [hsalt]
        rw [hopen] at hcall
        cases hcall
    · next hany =>
      cases hcall
      refine ⟨Or.inl rfl, .done ?_⟩
      rw [ChannelList.anyWithMessagesToSend_iff] at hany
      omega

/-- **Composing packets**, with or without a salt: a series of sends, and one of the expected
ends. -/
theorem composePackets_cases {p p' : Endpoint} (h : p.Intact) {r : Except PicklebackError Unit}
    (hcall : p.composePackets = .ok (p', r)) (hr : r ≠ .error .sequenceTooOld) :
    ∃ es p₁, p.EmitsAll es p₁ ∧ p₁.Intact ∧ p.Spends es p' ∧ p₁.Stops p' r := by
  cases hsalt : p.xorSalt with
  | none => exact ⟨[], p, .nil p, h, composePackets_of_no_salt h hsalt hcall⟩
  | some salt =>
    obtain ⟨-, es, p₁, p₂, r₂, hcompose, hall, -, hspends, hstop⟩ | ⟨-, p₂, hcompose⟩ :=
      composePackets_spends (h.sound (by rw [hsalt]; rfl))
    · rw [hcompose] at hcall
      cases hcall
      exact ⟨es, p₁, hall, h.emitsAll hall, hspends, hstop⟩
    · rw [hcompose] at hcall
      cases hcall
      exact absurd rfl hr

/-- **A visit** composes packets, hands over the outbox, and returns its buffers. -/
theorem visitPacketsToSend_spends {p p' : Endpoint} (h : p.Intact) {packets : List (List UInt8)}
    (hcall : p.visitPacketsToSend = .ok (p', packets)) :
    ∃ es p₁ p₂ r, p.composePackets = .ok (p₂, r) ∧ p.EmitsAll es p₁ ∧ p₁.Intact ∧ p.Spends es p₂ ∧
      p₁.Stops p₂ r ∧ p' = { p₂ with outbox := [], pool := p₂.pool.returnBuffers p₂.outbox } ∧
      packets = p₂.outbox.map PooledBuffer.data := by
  rw [visitPacketsToSend] at hcall
  split at hcall
  · cases hcall
  · next p₂ hcompose =>
    cases hcall
    obtain ⟨es, p₁, hall, h₁, hspends, hstop⟩ := composePackets_cases h hcompose (by simp)
    exact ⟨es, p₁, p₂, _, hcompose, hall, h₁, hspends, hstop, rfl, rfl⟩
  · next p₂ b hcompose =>
    cases hcall
    obtain ⟨es, p₁, hall, h₁, hspends, hstop⟩ := composePackets_cases h hcompose (by simp)
    exact ⟨es, p₁, p₂, _, hcompose, hall, h₁, hspends, hstop, rfl, rfl⟩
  · cases hcall

/-- The same, without the pools: a series of sends, one of the expected ends, and an empty
outbox. -/
theorem visitPacketsToSend_cases {p p' : Endpoint} (h : p.Intact) {packets : List (List UInt8)}
    (hcall : p.visitPacketsToSend = .ok (p', packets)) :
    ∃ es p₁ p₂ r, p.EmitsAll es p₁ ∧ p₁.Intact ∧ p₁.Stops p₂ r ∧
      p' = { p₂ with outbox := [], pool := p₂.pool.returnBuffers p₂.outbox } ∧
      packets = p₂.outbox.map PooledBuffer.data := by
  obtain ⟨es, p₁, p₂, r, -, hall, h₁, -, hstop, hp', hpackets⟩ := visitPacketsToSend_spends h hcall
  exact ⟨es, p₁, p₂, r, hall, h₁, hstop, hp', hpackets⟩

theorem Intact.visitPacketsToSend {p p' : Endpoint} (h : p.Intact) {packets : List (List UInt8)}
    (hcall : p.visitPacketsToSend = .ok (p', packets)) : p'.Intact := by
  obtain ⟨es, p₁, p₂, r, -, h₁, hstop, rfl, -⟩ := visitPacketsToSend_cases h hcall
  have h₂ := h₁.stops hstop
  exact ⟨h₂.config, h₂.channels, h₂.ids, h₂.sentLen, h₂.receivedLen, h₂.handlesLen, h₂.fragLen⟩

theorem Intact.step {p p' : Endpoint} (h : p.Intact) {c : Call} (hstep : p.step c = .ok p') :
    p'.Intact := by
  cases c with
  | setXorSalt salt =>
    cases hstep
    exact ⟨h.config, h.channels, h.ids, h.sentLen, h.receivedLen, h.handlesLen, h.fragLen⟩
  | sendMessage channel payload =>
    obtain ⟨⟨p₁, res⟩, hcall, rfl⟩ := exists_of_map_eq_ok hstep
    exact h.sendMessage hcall
  | update dt =>
    cases hstep
    exact h.update dt
  | visitPacketsToSend =>
    obtain ⟨⟨p₁, packets⟩, hcall, rfl⟩ := exists_of_map_eq_ok hstep
    exact h.visitPacketsToSend hcall
  | sendControl packetType build =>
    obtain ⟨⟨p₁, r⟩, hcall, rfl⟩ := exists_of_map_eq_ok hstep
    exact h.sendControl hcall
  | processIncomingPacket header payload =>
    obtain ⟨⟨p₁, r⟩, hcall, rfl⟩ := exists_of_map_eq_ok hstep
    exact h.processIncomingPacket hcall
  | drainReceivedMessages channel =>
    cases hstep
    exact ⟨h.config, h.channels, h.ids, h.sentLen, h.receivedLen, h.handlesLen, h.fragLen⟩
  | drainMessageAcks channel =>
    cases hstep
    exact ⟨h.config, h.channels, h.ids, h.sentLen, h.receivedLen, h.handlesLen, h.fragLen⟩

/-- **Every reachable endpoint** with the default configuration **is intact.** -/
theorem Reachable.intact {overflowChecks : Bool} {p : Endpoint}
    (h : Reachable overflowChecks .default p) :
    p.Intact := by
  induction h with
  | new time => exact intact_new overflowChecks time
  | step _ hstep ih => exact ih.step hstep

end Endpoint

end Pickleback
