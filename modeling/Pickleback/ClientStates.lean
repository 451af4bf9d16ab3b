import Pickleback.Calls
import Pickleback.Client

/-!
# The states of a client

The salts are kept twice, in the client and in its endpoint, and are written in five places, some of
them before a call that may fail. What holds after every call nonetheless: the salts of a state that
sends are all there and agree, and a disconnected client is as good as new.

Nothing is ever queued on the endpoint of a client, which has no `send_message`; so composing
packets for it cannot fail.

## Main definitions

* `Endpoint.Idle` — nothing is queued
* `Client.Consistent` — the invariant

## Main results

* `Client.Ready.visitPacketsToSend` — sending never panics
* `Client.consistent_of_run` — the invariant holds after any calls
-/

namespace Pickleback

/-! ### Endpoints with nothing queued -/

namespace Endpoint

variable {p p' : Endpoint}

/-- Nothing is queued on any channel. -/
def Idle (p : Endpoint) : Prop := ∀ ch ∈ p.channels, ch.queued = []

theorem idle_new (overflowChecks : Bool) (config : PicklebackConfig) (time : Time) :
    (Endpoint.new overflowChecks config time).Idle := by
  intro ch hch
  rcases List.mem_pair.mp hch with rfl | rfl <;> rfl

theorem idle_update (h : p.Idle) (dt : Time) : (p.update dt).Idle := by
  intro ch hch
  obtain ⟨ch₀, hch₀, rfl⟩ := List.mem_map.mp hch
  rw [← h ch₀ hch₀]
  cases ch₀ <;> rfl

/-- An endpoint with other channels, all of them empty. -/
theorem Idle.set {cs : ChannelList} (h : ∀ c ∈ cs, c.queued = []) {id : UInt8} {ch : Channel}
    (hch : ch.queued = []) : ∀ c ∈ cs.set id ch, c.queued = [] := by
  intro c hc
  obtain rfl | ⟨hc, -⟩ := ChannelList.mem_set hc
  · exact hch
  · exact h c hc

/-- An ack finds nothing to dismiss. -/
theorem queued_messageAckReceived {ch ch' : Channel} {handle : MessageHandle}
    {buffers : List PooledBuffer} (h : ch.queued = [])
    (hack : ch.messageAckReceived handle = .ok (buffers, ch')) : ch'.queued = [] := by
  cases ch with
  | unreliable c =>
    cases hack
    exact h
  | reliable c =>
    have hq : c.q = [] := List.map_eq_nil_iff.mp h
    simp only [Channel.messageAckReceived, ReliableChannel.messageAckReceived,
      hq, ReliableChannel.dismiss,
      Except.map, Except.ok.injEq, Prod.mk.injEq] at hack
    rw [← hack.2]
    rfl

theorem queued_ackHandles {handles : List MessageHandle} {d d' : MessageDispatcher}
    {cs cs' : ChannelList}
    {buffers : List PooledBuffer} (h : ∀ c ∈ cs, c.queued = [])
    (hack : d.ackHandles cs handles = .ok (buffers, d', cs')) : ∀ c ∈ cs', c.queued = [] := by
  induction handles generalizing d cs buffers with
  | nil =>
    cases hack
    exact h
  | cons handle rest ih =>
    simp only [MessageDispatcher.ackHandles] at hack
    split at hack
    · cases hack
    · next ch hch =>
      split at hack
      · cases hack
      · next buffers₁ ch₁ hch₁ =>
        split at hack
        · cases hack
        · obtain ⟨⟨buffers₂, d₂, cs₂⟩, hrest, heq⟩ := exists_of_map_eq_ok hack
          cases heq
          exact ih
            (Idle.set h (queued_messageAckReceived (h ch (ChannelList.mem_of_get? hch)) hch₁)) hrest

theorem Idle.processAck (h : p.Idle) {packetType : PacketType} {ack : UInt16 × Bool}
    (hcall : p.processAck packetType ack = .ok p') : p'.Idle := by
  obtain rfl | ⟨_, _, d, channels, -, -, hd, hp'⟩ := processAck_cases hcall
  · exact h
  · rw [Idle, hp']
    simp only [MessageDispatcher.ackedPacket] at hd
    split at hd
    · exact queued_ackHandles h hd
    · cases hd
      exact h

theorem Idle.receiveMessage (h : p.Idle) {m : Message} (hcall : p.receiveMessage m = .ok p') :
    p'.Idle := by
  simp only [Endpoint.receiveMessage] at hcall
  split at hcall
  · cases hcall
    exact h
  · next ch hch =>
    have hqueued : (ch.acceptsMessage m.id).2.queued = [] := by
      rw [← h ch (ChannelList.mem_of_get? hch)]
      cases ch <;> rfl
    split at hcall
    · obtain ⟨d, -, rfl⟩ := exists_of_map_eq_ok hcall
      exact Idle.set h hqueued
    · cases hcall
      exact Idle.set h hqueued

theorem Idle.processIncomingPacket (h : p.Idle) {header : ProtocolPacketHeader}
    {payload : List UInt8}
    {r : Except PicklebackError Unit}
    (hcall : p.processIncomingPacket header payload = .ok (p', r)) :
    p'.Idle := by
  refine processIncomingPacket_induct (I := Idle) ?_ ?_ ?_ ?_ h hcall
  · intro q q' hq hsame
    rw [Idle, hsame]
    exact hq
  · intro q b id m hq _
    exact hq
  · intro q q' packetType ack hq hack
    exact hq.processAck hack
  · intro q q' m hq hm
    exact hq.receiveMessage hm

/-- **With nothing queued**, a visit hands over what is in the outbox. -/
theorem Idle.visitPacketsToSend (h : p.Idle) : p.visitPacketsToSend
    = .ok ({ p with outbox := [], pool := p.pool.returnBuffers p.outbox },
      p.outbox.map PooledBuffer.data) := by
  have hnone : p.channels.anyWithMessagesToSend = false := by
    rw [ChannelList.anyWithMessagesToSend, List.any_eq_false]
    intro ch hch hready
    rw [Channel.anyReadyToSend_iff] at hready
    have hle := ch.numReady_le
    rw [h ch hch, List.length_nil] at hle
    omega
  have hcompose : p.composePackets = .ok (p, .ok ()) ∨
      p.composePackets = .ok (p, .error (.backpressure .tooManyPending)) := by
    rw [composePackets]
    split
    · exact Or.inr rfl
    · left
      rw [show p.channels.numQueued + 65536 = (p.channels.numQueued + 65535) + 1
        from rfl, composeLoop, hnone,
        if_neg Bool.false_ne_true]
  obtain hc | hc := hcompose <;> rw [Endpoint.visitPacketsToSend, hc]

/-- The endpoints agree on all that sending a control packet does not touch. -/
structure SameQueues (p p' : Endpoint) : Prop where
  channels : p'.channels = p.channels
  xorSalt : p'.xorSalt = p.xorSalt
  config : p'.config = p.config
  overflowChecks : p'.overflowChecks = p.overflowChecks

theorem SameQueues.idle (h : p.SameQueues p') (hidle : p.Idle) : p'.Idle := by
  rw [Idle, h.channels]
  exact hidle

theorem sameQueues_sendRawPacket (p : Endpoint) (packet : PooledBuffer) :
    p.SameQueues (p.sendRawPacket packet).1 := by
  simp only [sendRawPacket]
  split <;> exact ⟨rfl, rfl, rfl, rfl⟩

/-- A packet that is not made of messages is sent, or there is an error, but no panic. -/
theorem exists_sendPacket (p : Endpoint) {packet : ProtocolPacket} {bytes : List UInt8}
    (hbytes : packet.bytes = .ok bytes) :
    ∃ p' r, p.sendPacket packet = .ok (p', r) ∧ p.SameQueues p' := by
  rw [sendPacket, writePacket, hbytes]
  dsimp only
  cases (((WriteLimiter.new (p.pool.getBuffer p.config.maxPacketSize).1
    p.config.maxPacketSize).writeAll
    bytes).map fun w => w.buffer) with
  | error e => exact ⟨_, _, rfl, rfl, rfl, rfl, rfl⟩
  | ok buf =>
    have hsame := sameQueues_sendRawPacket { p with pool :=
      (p.pool.getBuffer p.config.maxPacketSize).2 } buf
    exact ⟨_, _, rfl, hsame.channels, hsame.xorSalt, hsame.config, hsame.overflowChecks⟩

end Endpoint

/-! ### The invariant -/

namespace Client

/-- Both salts are known, and their xor is known to the client and to its endpoint. -/
def SaltsAgree (c : Client) : Prop :=
  ∃ clientSalt serverSalt, c.clientSalt = some clientSalt ∧ c.serverSalt = some serverSalt ∧
    c.xorSalt = some (clientSalt ^^^ serverSalt) ∧
      c.pickleback.xorSalt = some (clientSalt ^^^ serverSalt)

/-- What the state of a client says of its salts, its server address and its endpoint. -/
structure Consistent (overflowChecks : Bool) (config : PicklebackConfig) (c : Client) : Prop where
  requesting : c.state = .sendingConnectionRequest → c.clientSalt.isSome = true ∧
    c.serverAddr.isSome = true
  talking : c.state = .sendingChallengeResponse ∨ c.state = .connected ∨
    c.state = .selfInitiatedDisconnect →
    c.SaltsAgree
  disconnected : ∀ reason, c.state = .disconnected reason →
    c.clientSalt = none ∧ c.serverSalt = none ∧ c.xorSalt = none ∧ c.serverAddr = none ∧
      c.pickleback = Endpoint.new overflowChecks config c.pickleback.time

/-- The invariant, with what is true of the endpoint in every state. -/
structure Ready (overflowChecks : Bool) (config : PicklebackConfig) (c : Client) : Prop where
  consistent : c.Consistent overflowChecks config
  idle : c.pickleback.Idle
  config : c.pickleback.config = config
  overflowChecks : c.pickleback.overflowChecks = overflowChecks

section Steps

variable {overflowChecks : Bool} {config : PicklebackConfig} {c c' : Client}

theorem ready_new (time : Time) : Ready overflowChecks config (new overflowChecks time config) where
  consistent := by
    refine ⟨fun heq => ?_, fun heq => ?_, fun _ _ => ⟨rfl, rfl, rfl, rfl, rfl⟩⟩
    · cases heq
    · rcases heq with heq | heq | heq <;> cases heq
  idle := Endpoint.idle_new overflowChecks config 0
  config := rfl
  overflowChecks := rfl

/-- A transition to another state than `Disconnected`. -/
theorem stateTransition_eq {newState : ClientState} (h : newState.isDisconnected = false) :
    c.stateTransition newState = { c with
      state := newState
      protoLastSend := 0
      pickleback := c.pickleback.setXorSalt c.xorSalt
      stateTransitions := c.stateTransitions ++ [newState] } := by
  simp only [stateTransition, h, Bool.false_eq_true, if_false]

/-- **A transition to `Disconnected`** starts anew, from whatever there was. -/
theorem ready_disconnected (hconfig : c.pickleback.config = config)
    (hchecks : c.pickleback.overflowChecks = overflowChecks) (reason : DisconnectReason) :
    Ready overflowChecks config (c.stateTransition (.disconnected reason)) := by
  subst hconfig hchecks
  refine ⟨⟨fun heq => ?_, fun heq => ?_, fun _ _ => ⟨rfl, rfl, rfl, rfl, rfl⟩⟩, ?_, rfl, rfl⟩
  · cases heq
  · rcases heq with heq | heq | heq <;> cases heq
  · exact Endpoint.idle_new _ _ 0

/-- A transition to a state in which the client talks to the server. -/
theorem Ready.talking (h : Ready overflowChecks config c) {newState : ClientState}
    (hstate : newState = .sendingChallengeResponse ∨ newState = .connected ∨
      newState = .selfInitiatedDisconnect)
    {clientSalt serverSalt : UInt64} (hclient : c.clientSalt = some clientSalt)
    (hserver : c.serverSalt = some serverSalt)
    (hxor : c.xorSalt = some (clientSalt ^^^ serverSalt)) :
    Ready overflowChecks config (c.stateTransition newState) := by
  have hnot : newState.isDisconnected = false := by rcases hstate with rfl | rfl | rfl <;> rfl
  rw [stateTransition_eq hnot]
  refine ⟨⟨?_, ?_, ?_⟩, h.idle, h.config, h.overflowChecks⟩
  · intro heq
    rcases hstate with rfl | rfl | rfl <;> cases heq
  · exact fun _ => ⟨clientSalt, serverSalt, hclient, hserver, hxor, hxor⟩
  · intro reason heq
    rcases hstate with rfl | rfl | rfl <;> cases heq

theorem Ready.connect (h : Ready overflowChecks config c) (serverAddr : SocketAddr)
    (salt : UInt64) :
    Ready overflowChecks config (c.connect serverAddr salt) := by
  rw [Client.connect, stateTransition_eq rfl]
  refine ⟨⟨fun _ => ⟨rfl, rfl⟩, fun heq => ?_, fun _ heq => ?_⟩, h.idle, h.config, h.overflowChecks⟩
  · rcases heq with heq | heq | heq <;> cases heq
  · cases heq

theorem Ready.disconnect (h : Ready overflowChecks config c) :
    Ready overflowChecks config c.disconnect := by
  have htalk : c.SaltsAgree → Ready overflowChecks config
    (c.stateTransition .selfInitiatedDisconnect) := by
    rintro ⟨clientSalt, serverSalt, hclient, hserver, hxor, -⟩
    exact h.talking (Or.inr (Or.inr rfl)) hclient hserver hxor
  rw [Client.disconnect]
  split
  · next hstate => exact htalk (h.consistent.talking (Or.inr (Or.inl hstate)))
  · next hstate => exact htalk (h.consistent.talking (Or.inl hstate))
  · exact ready_disconnected h.config h.overflowChecks .normal

theorem Ready.update (h : Ready overflowChecks config c) (dt : Time) :
    Ready overflowChecks config (c.update dt) := by
  simp only [Client.update]
  split
  · refine ready_disconnected ?_ ?_ .timedOut
    · exact h.config
    · exact h.overflowChecks
  · refine ⟨⟨h.consistent.requesting, h.consistent.talking, fun reason heq => ?_⟩,
      Endpoint.idle_update h.idle dt, h.config, h.overflowChecks⟩
    obtain ⟨hclient, hserver, hxor, haddr, hp⟩ := h.consistent.disconnected reason heq
    refine ⟨hclient, hserver, hxor, haddr, ?_⟩
    dsimp only
    rw [hp]
    rfl

/-- Another endpoint with the same salt, in a state other than `Disconnected`. -/
theorem Ready.endpoint (h : Ready overflowChecks config c)
    (hstate : ∀ reason, c.state ≠ .disconnected reason)
    {p : Endpoint} (hidle : p.Idle) (hconfig : p.config = c.pickleback.config)
    (hchecks : p.overflowChecks = c.pickleback.overflowChecks)
    (hsalt : p.xorSalt = c.pickleback.xorSalt) :
    Ready overflowChecks config { c with pickleback := p } := by
  refine ⟨⟨h.consistent.requesting, fun heq => ?_, fun reason heq => absurd heq (hstate reason)⟩,
    hidle, hconfig.trans h.config, hchecks.trans h.overflowChecks⟩
  obtain ⟨clientSalt, serverSalt, hclient, hserver, hxor, hp⟩ := h.consistent.talking heq
  exact ⟨clientSalt, serverSalt, hclient, hserver, hxor, hsalt.trans hp⟩

/-! ### Receiving -/

theorem Ready.received (h : Ready overflowChecks config c) :
    Ready overflowChecks config { c with lastReceiveTime := c.time } :=
  ⟨⟨h.consistent.requesting, h.consistent.talking, h.consistent.disconnected⟩, h.idle, h.config,
    h.overflowChecks⟩

theorem processThen_cases {header : ProtocolPacketHeader} {rest : List UInt8}
    {newState : Option ClientState}
    {r : Except PicklebackError (Option ClientState)}
    (h : c.processThen header rest newState = .ok (c', r)) :
    ∃ p r', c.pickleback.processIncomingPacket header rest = .ok (p, r') ∧
      c' = { c with pickleback := p } ∧ (r = .ok newState ∨ ∃ e, r = .error e) := by
  simp only [processThen] at h
  split at h
  · cases h
  · next p e hcall =>
    cases h
    exact ⟨p, _, hcall, rfl, Or.inr ⟨e, rfl⟩⟩
  · next p hcall =>
    cases h
    exact ⟨p, _, hcall, rfl, Or.inl rfl⟩

theorem Ready.processThen (h : Ready overflowChecks config c)
    (hstate : ∀ reason, c.state ≠ .disconnected reason) {header : ProtocolPacketHeader}
    {rest : List UInt8}
    {newState : Option ClientState} {r : Except PicklebackError (Option ClientState)}
    (hcall : c.processThen header rest newState = .ok (c', r)) :
    Ready overflowChecks config c' := by
  obtain ⟨p, r', hp, rfl, -⟩ := processThen_cases hcall
  have hsame := Endpoint.sameSetup_processIncomingPacket hp
  exact h.endpoint hstate (h.idle.processIncomingPacket hp) hsame.config
    hsame.overflowChecks hsame.xorSalt

/-- The invariant after the transition that a packet asks for, if it asks for one. -/
def AfterTransition (I : Client → Prop) (c : Client) :
    Except PicklebackError (Option ClientState) → Prop
  | .ok (some newState) => I (c.stateTransition newState)
  | _ => I c

theorem afterTransition_of_result {I : Client → Prop} {newState : Option ClientState}
    {r : Except PicklebackError (Option ClientState)} (hr : r = .ok newState ∨ ∃ e, r = .error e)
    (h : I c)
    (hnew : ∀ s, newState = some s → I (c.stateTransition s)) : AfterTransition I c r := by
  obtain rfl | ⟨e, rfl⟩ := hr
  · cases newState with
    | none => exact h
    | some s => exact hnew s rfl
  · exact h

/-- A challenge: the salts are taken over, and kept even if the endpoint refuses the packet. -/
theorem Ready.challenge (h : Ready overflowChecks config c)
    (hstate : c.state = .sendingConnectionRequest)
    {header : ProtocolPacketHeader} {rest : List UInt8} {clientSalt serverSalt : UInt64}
    (hclient : c.clientSalt = some clientSalt) {r : Except PicklebackError (Option ClientState)}
    (hcall : { c with
      serverSalt := some serverSalt
      xorSalt := some (serverSalt ^^^ clientSalt) }.processThen header rest
        (some .sendingChallengeResponse) = .ok (c', r)) :
    AfterTransition (Ready overflowChecks config) c' r := by
  have hready : Ready overflowChecks config { c with
      serverSalt := some serverSalt
      xorSalt := some (serverSalt ^^^ clientSalt) } := by
    refine ⟨⟨h.consistent.requesting, fun heq => ?_, fun reason heq => ?_⟩,
      h.idle, h.config, h.overflowChecks⟩
    · dsimp only at heq
      rw [hstate] at heq
      rcases heq with heq | heq | heq <;> cases heq
    · dsimp only at heq
      rw [hstate] at heq
      cases heq
  have hready' := hready.processThen (fun reason heq => by rw [hstate] at heq; cases heq) hcall
  obtain ⟨p, r', -, rfl, hr⟩ := processThen_cases hcall
  refine afterTransition_of_result hr hready' ?_
  rintro s hs
  cases hs
  exact hready'.talking (Or.inl rfl) hclient rfl (congrArg some (UInt64.xor_comm ..))

/-- **Every packet**, whatever it is. -/
theorem Ready.handlePacket (h : Ready overflowChecks config c)
    {packet : ProtocolPacket} {rest : List UInt8}
    {r : Except PicklebackError (Option ClientState)}
    (hcall : c.handlePacket packet rest = .ok (c', r)) :
    AfterTransition (Ready overflowChecks config) c' r := by
  have hsame : ∀ {c'' : Client} {r'' : Except PicklebackError (Option ClientState)},
      (Except.ok (c, Except.ok none) : Except Panic _) = .ok (c'', r'') →
      AfterTransition (Ready overflowChecks config) c'' r'' := by
    rintro c'' r'' heq
    cases heq
    exact h
  cases packet with
  | connectionChallenge header clientSalt serverSalt =>
    simp only [Client.handlePacket] at hcall
    split at hcall
    · next hstate =>
      split at hcall
      · exact hsame hcall
      · next hclient =>
        split at hcall
        · cases hcall
          exact h
        · exact h.challenge hstate hclient hcall
    · exact hsame hcall
  | connectionDenied header reason =>
    simp only [Client.handlePacket] at hcall
    split at hcall
    · cases hcall
      exact ready_disconnected h.config h.overflowChecks reason
    · exact hsame hcall
  | keepAlive header xorSalt clientIndex =>
    simp only [Client.handlePacket] at hcall
    split at hcall
    · next hstate =>
      have hnot : ∀ reason, c.state ≠ .disconnected reason := by
        intro reason heq
        rw [heq] at hstate
        rcases hstate with hstate | hstate <;> cases hstate
      split at hcall
      · have hready' := h.received.processThen hnot hcall
        obtain ⟨p, r', -, rfl, hr⟩ := processThen_cases hcall
        refine afterTransition_of_result hr hready' fun s hs => ?_
        split at hs
        · next hresponding =>
          cases hs
          obtain ⟨clientSalt, serverSalt, hclient, hserver, hxor, -⟩ :=
            h.consistent.talking (Or.inl hresponding)
          exact hready'.talking (Or.inr (Or.inl rfl)) hclient hserver hxor
        · cases hs
      · exact hsame hcall
    · exact hsame hcall
  | messages header xorSalt =>
    simp only [Client.handlePacket] at hcall
    split at hcall
    · next hstate =>
      have hready' := h.processThen (fun reason heq => by rw [heq] at hstate; cases hstate.1) hcall
      obtain ⟨p, r', -, rfl, hr⟩ := processThen_cases hcall
      exact afterTransition_of_result hr hready' fun s hs => by cases hs
    · exact hsame hcall
  | connectionRequest header clientSalt version => exact hsame hcall
  | connectionChallengeResponse header xorSalt => exact hsame hcall
  | disconnect header xorSalt => exact hsame hcall

theorem Ready.receive (h : Ready overflowChecks config c) {bytes : List UInt8} {source : SocketAddr}
    {r : Except PicklebackError Unit} (hcall : c.receive bytes source = .ok (c', r)) :
    Ready overflowChecks config c' := by
  simp only [Client.receive] at hcall
  split at hcall
  · cases hcall
    exact h
  · split at hcall
    · cases hcall
      exact h
    · split at hcall
      · cases hcall
        exact h
      · split at hcall
        · cases hcall
        · next hpacket =>
          cases hcall
          exact h.received.handlePacket hpacket
        · next hpacket =>
          cases hcall
          exact h.received.handlePacket hpacket
        · next hpacket =>
          cases hcall
          exact h.received.handlePacket hpacket

/-! ### Sending -/

/-- The clients agree on state, salts and server address, and their endpoints on what is queued. -/
structure SameSession (c c' : Client) : Prop where
  state : c'.state = c.state
  clientSalt : c'.clientSalt = c.clientSalt
  serverSalt : c'.serverSalt = c.serverSalt
  xorSalt : c'.xorSalt = c.xorSalt
  serverAddr : c'.serverAddr = c.serverAddr
  endpoint : c.pickleback.SameQueues c'.pickleback

theorem SameSession.trans {c'' : Client} (h : c.SameSession c') (h' : c'.SameSession c'') :
    c.SameSession c'' :=
  ⟨h'.state.trans h.state, h'.clientSalt.trans h.clientSalt, h'.serverSalt.trans h.serverSalt,
    h'.xorSalt.trans h.xorSalt, h'.serverAddr.trans h.serverAddr,
    h'.endpoint.channels.trans h.endpoint.channels, h'.endpoint.xorSalt.trans h.endpoint.xorSalt,
    h'.endpoint.config.trans h.endpoint.config,
      h'.endpoint.overflowChecks.trans h.endpoint.overflowChecks⟩

theorem Ready.sameSession (h : Ready overflowChecks config c) (hsame : c.SameSession c')
    (hstate : ∀ reason, c.state ≠ .disconnected reason) : Ready overflowChecks config c' := by
  refine ⟨⟨fun heq => ?_, fun heq => ?_, fun reason heq => ?_⟩, hsame.endpoint.idle h.idle,
    hsame.endpoint.config.trans h.config, hsame.endpoint.overflowChecks.trans h.overflowChecks⟩
  · rw [hsame.state] at heq
    rw [hsame.clientSalt, hsame.serverAddr]
    exact h.consistent.requesting heq
  · rw [hsame.state] at heq
    rw [SaltsAgree, hsame.clientSalt, hsame.serverSalt, hsame.xorSalt, hsame.endpoint.xorSalt]
    exact h.consistent.talking heq
  · rw [hsame.state] at heq
    exact absurd heq (hstate reason)

/-- A packet is sent, or there is an error that is dropped: with a salt to unwrap there is no
panic. -/
theorem exists_sendWithSalt (c : Client) (packetType : PacketType)
    {salt : Option UInt64} {x : UInt64}
    (hsalt : salt = some x) (build : ProtocolPacketHeader → UInt64 → ProtocolPacket)
    (hbuild : ∀ header, ∃ bytes, (build header x).bytes = .ok bytes) :
    ∃ c' sent, c.sendWithSalt packetType salt build = .ok (c', sent) ∧ c.SameSession c' := by
  subst hsalt
  obtain ⟨r, hr⟩ := c.pickleback.exists_nextPacketHeader packetType
  cases r with
  | error e =>
    simp only [sendWithSalt, hr]
    exact ⟨_, _, rfl, rfl, rfl, rfl, rfl, rfl, rfl, rfl, rfl, rfl⟩
  | ok header =>
    obtain ⟨bytes, hbytes⟩ := hbuild header
    obtain ⟨p, r, hsend, hsame⟩ := Endpoint.exists_sendPacket
      { c.pickleback with sequenceId := c.pickleback.sequenceId + 1 } hbytes
    cases r with
    | error e =>
      simp only [sendWithSalt, hr, send, hsend]
      exact ⟨_, _, rfl, rfl, rfl, rfl, rfl, rfl, hsame.channels, hsame.xorSalt, hsame.config,
        hsame.overflowChecks⟩
    | ok u =>
      simp only [sendWithSalt, hr, send, hsend]
      exact ⟨_, _, rfl, rfl, rfl, rfl, rfl, rfl, hsame.channels, hsame.xorSalt, hsame.config,
        hsame.overflowChecks⟩

theorem exists_sendDisconnects (n : ℕ) {x : UInt64} (hxor : c.xorSalt = some x) :
    ∃ c', sendDisconnects n c = .ok c' ∧ c.SameSession c' := by
  induction n generalizing c with
  | zero => exact ⟨c, rfl, rfl, rfl, rfl, rfl, rfl, rfl, rfl, rfl, rfl⟩
  | succ n ih =>
    obtain ⟨c₁, sent, hsend, hsame⟩ :=
      c.exists_sendWithSalt .disconnect hxor .disconnect fun header => ⟨_, rfl⟩
    obtain ⟨c', hrest, hsame'⟩ := ih (hsame.xorSalt.trans hxor)
    exact ⟨c', by rw [sendDisconnects, hsend]; exact hrest, hsame.trans hsame'⟩

theorem exists_sendHandshake (c : Client) (packetType : PacketType)
    {salt : Option UInt64} {x : UInt64}
    (hsalt : salt = some x) (build : ProtocolPacketHeader → UInt64 → ProtocolPacket)
    (hbuild : ∀ header, ∃ bytes, (build header x).bytes = .ok bytes) :
    ∃ c', c.sendHandshake packetType salt build = .ok c' ∧ c.SameSession c' := by
  obtain ⟨c₁, sent, hsend, hsame⟩ := c.exists_sendWithSalt packetType hsalt build hbuild
  rw [sendHandshake, hsend]
  cases sent with
  | false => exact ⟨c₁, rfl, hsame⟩
  | true =>
    exact ⟨_, rfl, hsame.state, hsame.clientSalt, hsame.serverSalt, hsame.xorSalt, hsame.serverAddr,
      hsame.endpoint⟩

/-- **What the state asks for** is sent; a keep-alive is asked for in state `Connected` alone. -/
theorem Ready.sendForState (h : Ready overflowChecks config c) :
    ∃ c' keepaliveNeeded, c.sendForState = .ok (c', keepaliveNeeded) ∧
      Ready overflowChecks config c' ∧
      (keepaliveNeeded = true → c'.state = .connected) := by
  rw [Client.sendForState]
  split
  · next hstate =>
    obtain ⟨clientSalt, serverSalt, -, -, hxor, -⟩ := h.consistent.talking (Or.inr (Or.inr hstate))
    obtain ⟨c₁, hsend, hsame⟩ := exists_sendDisconnects 10 hxor
    rw [if_pos (by rw [hxor]; rfl), hsend]
    exact ⟨_, _, rfl, ready_disconnected (hsame.endpoint.config.trans h.config)
      (hsame.endpoint.overflowChecks.trans h.overflowChecks) .normal, fun hneeded => by
        cases hneeded⟩
  · next hstate =>
    obtain ⟨x, hclient⟩ := Option.isSome_iff_exists.mp (h.consistent.requesting hstate).1
    split
    · obtain ⟨c₁, hsend, hsame⟩ := c.exists_sendHandshake .connectionRequest hclient
        (fun header salt => .connectionRequest header salt protocolVersion) fun header => ⟨_, rfl⟩
      rw [hsend]
      exact ⟨c₁, false, rfl, h.sameSession hsame (by simp [hstate]), fun hneeded => by
        cases hneeded⟩
    · exact ⟨c, false, rfl, h, fun hneeded => by cases hneeded⟩
  · next hstate =>
    obtain ⟨clientSalt, serverSalt, -, -, hxor, -⟩ := h.consistent.talking (Or.inl hstate)
    split
    · obtain ⟨c₁, hsend, hsame⟩ := c.exists_sendHandshake .connectionChallengeResponse hxor
        .connectionChallengeResponse fun header => ⟨_, rfl⟩
      rw [hsend]
      exact ⟨c₁, false, rfl, h.sameSession hsame (by simp [hstate]), fun hneeded => by
        cases hneeded⟩
    · exact ⟨c, false, rfl, h, fun hneeded => by cases hneeded⟩
  · next hstate => exact ⟨c, _, rfl, h, fun _ => hstate⟩
  · exact ⟨c, false, rfl, h, fun hneeded => by cases hneeded⟩

theorem Ready.visitPickleback (h : Ready overflowChecks config c) :
    ∃ c' packets, c.visitPickleback = .ok (c', packets) ∧ Ready overflowChecks config c' ∧
      c'.state = c.state := by
  rw [Client.visitPickleback, h.idle.visitPacketsToSend]
  refine ⟨_, _, rfl, ⟨⟨h.consistent.requesting, h.consistent.talking, fun reason heq => ?_⟩, h.idle,
    h.config, h.overflowChecks⟩, rfl⟩
  obtain ⟨hclient, hserver, hxor, haddr, hp⟩ := h.consistent.disconnected reason heq
  refine ⟨hclient, hserver, hxor, haddr, ?_⟩
  dsimp only
  rw [hp]
  rfl

/-- **Sending never panics**: every salt that is unwrapped is there. -/
theorem Ready.visitPacketsToSend (h : Ready overflowChecks config c) :
    ∃ c' sent, c.visitPacketsToSend = .ok (c', sent) ∧ Ready overflowChecks config c' := by
  rw [Client.visitPacketsToSend]
  split
  · exact ⟨c, [], rfl, h⟩
  · obtain ⟨c₁, keepaliveNeeded, hstate, hready, hneeded⟩ := h.sendForState
    obtain ⟨c₂, packets, hvisit, hready₂, hsame⟩ := hready.visitPickleback
    simp only [hstate, hvisit]
    split
    · next hcond =>
      have hconnected : c₂.state = .connected := hsame.trans (hneeded hcond.2)
      obtain ⟨clientSalt, serverSalt, -, -, hxor, -⟩ :=
        hready₂.consistent.talking (Or.inr (Or.inl hconnected))
      obtain ⟨c₃, sent, hsend, hsame₃⟩ := c₂.exists_sendWithSalt .keepAlive hxor
        (fun header salt => .keepAlive header salt 0) fun header => ⟨_, rfl⟩
      obtain ⟨c₄, packets₄, hvisit₄, hready₄, -⟩ :=
        (hready₂.sameSession hsame₃ (by simp [hconnected])).visitPickleback
      simp only [hsend, hvisit₄]
      exact ⟨_, _, rfl, hready₄⟩
    · exact ⟨_, _, rfl, hready₂⟩

end Steps

/-! ### Runs -/

section Runs

variable {overflowChecks : Bool} {config : PicklebackConfig} {c c' : Client}

/-- **One call.** -/
theorem Ready.step (h : Ready overflowChecks config c) {call : Call}
    (hstep : c.step call = .ok c') :
    Ready overflowChecks config c' := by
  cases call with
  | connect serverAddr salt =>
    cases hstep
    exact h.connect serverAddr salt
  | disconnect =>
    cases hstep
    exact h.disconnect
  | update dt =>
    cases hstep
    exact h.update dt
  | receive bytes source =>
    obtain ⟨⟨c₁, r⟩, hcall, rfl⟩ := exists_of_map_eq_ok hstep
    exact h.receive hcall
  | visitPacketsToSend =>
    obtain ⟨c₁, sent, hcall, hready⟩ := h.visitPacketsToSend
    rw [Client.step, hcall] at hstep
    cases hstep
    exact hready

theorem Ready.run (h : Ready overflowChecks config c) {calls : List Call}
    (hrun : c.run calls = .ok c') :
    Ready overflowChecks config c' :=
  of_foldlM_eq_ok (fun h hstep => h.step hstep) h hrun

/-- **The states of a client.** After any calls on a new client, with any bytes received from
anywhere, the salts, the server address and the endpoint are what the state says, and sending
packets does not panic. The last part is about windows the source can index. -/
theorem consistent_of_run {time : Time} {calls : List Call}
    (hrun : (new overflowChecks time config).run calls = .ok c) :
    c.Consistent overflowChecks config ∧ (config.Sized → ∃ r, c.visitPacketsToSend = .ok r) := by
  have hready := (ready_new time).run hrun
  obtain ⟨c', sent, hvisit, -⟩ := hready.visitPacketsToSend
  exact ⟨hready.consistent, fun _ => ⟨_, hvisit⟩⟩

/-- A handshake up to state `Connected`. -/
def handshake : List Call := [
  .connect (.v4 1 2) 7, .update 1, .visitPacketsToSend,
  .receive ((ProtocolPacket.connectionChallenge ⟨.connectionChallenge, 1, none⟩
    7 9).bytes.toOption.getD [])
    (.v4 1 2), .visitPacketsToSend,
  .receive ((ProtocolPacket.keepAlive ⟨.keepAlive, 2, none⟩ 14 0).bytes.toOption.getD []) (.v4 1 2)]

theorem consistent_of_run_handshake : ∃ c, (new true 0 .default).run handshake = .ok c ∧
    c.state = .connected ∧ c.xorSalt = some 14 ∧ c.Consistent true .default ∧
    ∃ r, c.visitPacketsToSend = .ok r := by
  obtain ⟨c, hrun, htest⟩ :=
    exists_of_any_toOption (show ((new true 0 .default).run handshake).toOption.any
    (fun c => decide (c.state = .connected) && decide (c.xorSalt = some 14)) = true by
      decide +kernel)
  simp only [Bool.and_eq_true, decide_eq_true_eq] at htest
  obtain ⟨hconsistent, hvisit⟩ := consistent_of_run hrun
  exact ⟨c, hrun, htest.1, htest.2, hconsistent, hvisit PicklebackConfig.default_sized⟩

end Runs

end Client

end Pickleback
