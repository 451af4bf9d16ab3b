import Pickleback.AckHandshake
import Pickleback.ClientEndpoints
import Pickleback.ServerTime

/-!
# The calls of a handshake

What the calls of client and server do that a handshake is made of, each in terms of the one call of
an endpoint that it comes down to: exactly when it succeeds, and with what result. On the server
other clients may come and go meanwhile; their places in the lists are before that of the new
client.

## Main results

* `Endpoint.exists_sent` — a packet of a handshake and what is read from it
* `Client.visit_request_iff`, `Client.visit_response_iff`, `Client.receive_challenge_iff`,
  `Client.receive_keepAlive_iff`
* `Server.receive_request_iff`, `Server.receive_response_iff`
* `Server.exists_serves` — the update and the visit in which a server challenges a new pending
  client
-/

namespace Pickleback

open ByteCodec

/-! ### The packets -/

/-- The function makes packets of a handshake: they are no longer than 571 bytes, if the header has
the acks of no more than 350 packets. -/
structure HandshakePacket (t : PacketType) (build : ProtocolPacketHeader → ProtocolPacket) : Prop
    extends Builds t build where
  fits : ∀ header : ProtocolPacketHeader, header.write.length ≤ 55 →
    ∃ bytes, (build header).bytes = .ok bytes ∧ bytes.length ≤ 571

namespace HandshakePacket

theorem connectionRequest (salt version : UInt64) :
    HandshakePacket .connectionRequest fun header => .connectionRequest header salt version := by
  refine ⟨⟨fun _ => rfl, fun _ => rfl, fun _ _ => rfl⟩, fun header hlen => ⟨_, rfl, ?_⟩⟩
  simp only [List.length_append, length_writeU64, writeZeroBytes, List.length_replicate]
  omega

theorem connectionChallenge (clientSalt serverSalt : UInt64) :
    HandshakePacket .connectionChallenge fun header =>
      .connectionChallenge header clientSalt serverSalt := by
  refine ⟨⟨fun _ => rfl, fun _ => rfl, fun _ _ => rfl⟩, fun header hlen => ⟨_, rfl, ?_⟩⟩
  simp only [List.length_append, length_writeU64, writeZeroBytes, List.length_replicate]
  omega

theorem connectionChallengeResponse (xorSalt : UInt64) :
    HandshakePacket .connectionChallengeResponse
    fun header => .connectionChallengeResponse header xorSalt := by
  refine ⟨⟨fun _ => rfl, fun _ => rfl, fun _ _ => rfl⟩, fun header hlen => ⟨_, rfl, ?_⟩⟩
  simp only [List.length_append, length_writeU64, writeZeroBytes, List.length_replicate]
  omega

theorem keepAlive (xorSalt : UInt64) (clientIndex : UInt32) :
    HandshakePacket .keepAlive fun header => .keepAlive header xorSalt clientIndex := by
  refine ⟨⟨fun _ => rfl, fun _ => rfl, fun _ _ => rfl⟩, fun header hlen => ⟨_, rfl, ?_⟩⟩
  simp only [List.length_append, length_writeU64, length_writeU32]
  omega

end HandshakePacket

namespace Endpoint

variable {p p' : Endpoint} {t : PacketType} {build : ProtocolPacketHeader → ProtocolPacket}

theorem ackState_new (overflowChecks : Bool) (time : Time) :
    (Endpoint.new overflowChecks .default time).ackState = .fresh := rfl

/-- The packet that was sent, and what is read from it. -/
theorem exists_sent (hbuild : HandshakePacket t build) (hempty : p.outbox = [])
    (h : p.sendControl t build = .ok (p', .ok ())) :
    ∃ bytes, p'.outbox.map PooledBuffer.data = [bytes] ∧
      ∃ header rest, readPacket bytes = .ok (build header, rest) ∧ header.packetType = t ∧
        header.id = p'.ackState.sequenceId ∧ header.acks = p.ackState.nextAcks := by
  obtain ⟨bytes, hout, header, rest, hread, htype, hid, hacks⟩ :=
    exists_read_of_sendControl hbuild.toBuilds h
  rw [hempty] at hout
  exact ⟨bytes, hout, header, rest, hread, htype,
    hid.trans (sends_of_sendControl h).sequenceId.symm, hacks⟩

/-- It is received with its acks. -/
theorem receives_of_sent {header : ProtocolPacketHeader} {id : PacketId}
    {acks : Option (List (UInt16 × Bool))}
    {payload : List UInt8} (hid : header.id = id) (hacks : header.acks = acks)
    (hcall : p.processIncomingPacket header payload = .ok (p', .ok ())) :
    p.ackState.Receives id acks p'.ackState := by
  rw [← hid, ← hacks]
  exact receives_of_processIncomingPacket hcall

end Endpoint

/-! ### The client -/

namespace Client

variable {config : PicklebackConfig} {c c' : Client} {serverAddr : SocketAddr} {bytes : List UInt8}

/-- A visit that does not ask for a keep-alive. -/
theorem visitPacketsToSend_eq {c₁ : Client} {p : Endpoint} {packets : List (List UInt8)}
    (haddr : c.serverAddr = some serverAddr) (hstate : c.sendForState = .ok (c₁, false))
    (hvisit : c₁.pickleback.visitPacketsToSend = .ok (p, packets)) : c.visitPacketsToSend =
      .ok ({ c₁ with pickleback := p }, packets.map fun packet => (serverAddr, packet)) := by
  rw [Client.visitPacketsToSend, haddr]
  simp only [hstate, visitPickleback, hvisit, Except.map, Bool.false_eq_true, and_false, if_false]

/-- **A visit during a handshake** hands over exactly one packet if the endpoint could send it. -/
theorem visit_handshake_iff (hquiet : c.pickleback.Quiet config) (hempty : c.pickleback.outbox = [])
    (haddr : c.serverAddr = some serverAddr) {t : PacketType} {salt : UInt64}
    (build : ProtocolPacketHeader → UInt64 → ProtocolPacket)
    (hbytes : ∀ header, ∃ bytes, (build header salt).bytes = .ok bytes)
    (hstate : c.sendForState = (c.sendHandshake t (some salt) build).map fun c => (c, false)) :
    c.visitPacketsToSend = .ok (c', [(serverAddr, bytes)]) ↔
      ∃ p, c.pickleback.sendControl t (fun header => build header salt) = .ok (p, .ok ()) ∧
        p.outbox.map PooledBuffer.data = [bytes] ∧
        c' = { c with
          pickleback := { p with outbox := [], pool := p.pool.returnBuffers p.outbox }
          lastSendTime := c.time
          protoLastSend := c.time } := by
  obtain ⟨p, r, hp⟩ := c.pickleback.exists_sendControl t (fun header => build header salt) hbytes
  have hvisit := (hquiet.sendControl hp).visitPacketsToSend.1
  rw [sendHandshake, sendWithSalt_eq, hp] at hstate
  cases r with
  | error e =>
    obtain ⟨-, heq⟩ | ⟨_, _, _, _, _, _, hr, -⟩ := Endpoint.sendControl_cases hp
    · have hout : p.outbox = [] := by
        rw [heq]
        exact hempty
      rw [visitPacketsToSend_eq haddr hstate (by exact hvisit), hout, hp]
      constructor
      · intro h
        cases h
      · rintro ⟨p', hp', -⟩
        cases hp'
    · cases hr
  | ok u =>
    rw [visitPacketsToSend_eq haddr hstate (by exact hvisit), hp]
    constructor
    · intro h
      obtain ⟨hc, hsent⟩ := Prod.mk.inj (Except.ok.inj h)
      refine ⟨p, rfl, ?_, hc.symm⟩
      have hsnd := congrArg (List.map Prod.snd) hsent
      rw [List.map_map] at hsnd
      exact (List.map_id _).symm.trans hsnd
    · rintro ⟨p', hp', hout, rfl⟩
      cases hp'
      rw [hout]
      rfl

/-- **A request** is due. -/
theorem visit_request_iff (hquiet : c.pickleback.Quiet config) (hempty : c.pickleback.outbox = [])
    (haddr : c.serverAddr = some serverAddr) (hstate : c.state = .sendingConnectionRequest)
    {salt : UInt64}
    (hsalt : c.clientSalt = some salt) (hdue : c.protoLastSend < c.time - handshakeResendInterval) :
    c.visitPacketsToSend = .ok (c', [(serverAddr, bytes)]) ↔
      ∃ p, c.pickleback.sendControl .connectionRequest
          (fun header => .connectionRequest header salt protocolVersion) = .ok (p, .ok ()) ∧
        p.outbox.map PooledBuffer.data = [bytes] ∧
        c' = { c with
          pickleback := { p with outbox := [], pool := p.pool.returnBuffers p.outbox }
          lastSendTime := c.time
          protoLastSend := c.time } := by
  refine visit_handshake_iff hquiet hempty haddr
    (fun header salt => .connectionRequest header salt protocolVersion) (fun _ => ⟨_, rfl⟩) ?_
  simp only [sendForState, hstate, hsalt]
  exact if_pos hdue

/-- **A response** is due. -/
theorem visit_response_iff (hquiet : c.pickleback.Quiet config) (hempty : c.pickleback.outbox = [])
    (haddr : c.serverAddr = some serverAddr) (hstate : c.state = .sendingChallengeResponse)
    {salt : UInt64}
    (hsalt : c.xorSalt = some salt) (hdue : c.protoLastSend < c.time - handshakeResendInterval) :
    c.visitPacketsToSend = .ok (c', [(serverAddr, bytes)]) ↔
      ∃ p, c.pickleback.sendControl .connectionChallengeResponse
          (fun header => .connectionChallengeResponse header salt) = .ok (p, .ok ()) ∧
        p.outbox.map PooledBuffer.data = [bytes] ∧
        c' = { c with
          pickleback := { p with outbox := [], pool := p.pool.returnBuffers p.outbox }
          lastSendTime := c.time
          protoLastSend := c.time } := by
  refine visit_handshake_iff hquiet hempty haddr .connectionChallengeResponse (fun _ => ⟨_, rfl⟩) ?_
  simp only [sendForState, hstate, hsalt]
  exact if_pos ⟨hdue, rfl⟩

/-- **A challenge** with the right salt. -/
theorem receive_challenge_iff (hstate : c.state = .sendingConnectionRequest)
    (haddr : c.serverAddr = some serverAddr) {clientSalt serverSalt : UInt64}
    (hsalt : c.clientSalt = some clientSalt)
    {header : ProtocolPacketHeader} {rest : List UInt8}
    (hread : readPacket bytes = .ok (.connectionChallenge header clientSalt serverSalt, rest)) :
    c.receive bytes serverAddr = .ok (c', .ok ()) ↔
      ∃ p, c.pickleback.processIncomingPacket header rest = .ok (p, .ok ()) ∧
        c' = { c with
          lastReceiveTime := c.time
          serverSalt := some serverSalt
          xorSalt := some (serverSalt ^^^ clientSalt)
          pickleback := p }.stateTransition .sendingChallengeResponse := by
  simp only [receive, haddr, hread, handlePacket, hstate, hsalt,
    processThen, ne_eq, not_true_eq_false, if_false,
    if_true]
  cases c.pickleback.processIncomingPacket header rest with
  | error q => simp
  | ok r =>
    obtain ⟨p, r⟩ := r
    cases r with
    | error e => simp
    | ok u => simp [eq_comm]

/-- **A keep-alive** with the right salt, in answer to the response. -/
theorem receive_keepAlive_iff (hstate : c.state = .sendingChallengeResponse)
    (haddr : c.serverAddr = some serverAddr) {xorSalt : UInt64} (hsalt : c.xorSalt = some xorSalt)
    {header : ProtocolPacketHeader} {rest : List UInt8} {clientIndex : UInt32}
    (hread : readPacket bytes = .ok (.keepAlive header xorSalt clientIndex, rest)) :
    c.receive bytes serverAddr = .ok (c', .ok ()) ↔
      ∃ p, c.pickleback.processIncomingPacket header rest = .ok (p, .ok ()) ∧
        c' = { c with lastReceiveTime := c.time, pickleback := p }.stateTransition .connected := by
  simp only [receive, haddr, hread, handlePacket, hstate, hsalt,
    processThen, ne_eq, not_true_eq_false, if_false,
    if_true, or_true]
  cases c.pickleback.processIncomingPacket header rest with
  | error q => simp
  | ok r =>
    obtain ⟨p, r⟩ := r
    cases r with
    | error e => simp
    | ok u => simp [eq_comm]

/-- Time passes, and the client does not lose patience. -/
theorem update_eq {dt : Time} (hpatient : c.time + dt - c.lastReceiveTime ≤ connectionTimeout) :
    c.update dt = { c with time := c.time + dt, pickleback := c.pickleback.update dt } := by
  simp only [update]
  exact if_neg fun h => absurd hpatient (not_le.mpr h.2)

end Client

/-! ### Lists of clients -/

section Lists

variable {α β : Type} {call : α → Except Panic (α × β)}

/-- A call on every entry does the same as the call does on each. -/
theorem forall₂_of_callOnEach {as as' : List α} {bs : List β}
    (h : callOnEach call as = .ok (as', bs)) :
    List.Forall₂ (fun a a' => ∃ b ∈ bs, call a = .ok (a', b)) as as' := by
  induction as generalizing as' bs with
  | nil =>
    cases h
    exact .nil
  | cons a as ih =>
    simp only [callOnEach] at h
    split at h
    · cases h
    · next a' b ha =>
      obtain ⟨⟨as₁, bs₁⟩, hrest, heq⟩ := exists_of_map_eq_ok h
      cases heq
      refine .cons ⟨b, List.mem_cons_self .., ha⟩ ((ih hrest).imp ?_)
      rintro x x' ⟨y, hy, hcall⟩
      exact ⟨y, List.mem_cons_of_mem _ hy, hcall⟩

/-- It returns if it returns on each. -/
theorem exists_callOnEach_of_forall {as : List α} (h : ∀ a ∈ as, ∃ r, call a = .ok r) :
    ∃ r, callOnEach call as = .ok r := by
  induction as with
  | nil => exact ⟨_, rfl⟩
  | cons a as ih =>
    rw [List.forall_mem_cons] at h
    obtain ⟨⟨⟨a', b⟩, ha⟩, hrest⟩ := h
    obtain ⟨r, hr⟩ := ih hrest
    rw [callOnEach, ha]
    dsimp only
    rw [hr]
    exact ⟨_, rfl⟩

/-- What is related to a list with a last entry has a last entry. -/
theorem exists_of_forall₂_concat {R : α → β → Prop} {as : List α} {a : α} {bs : List β}
    (h : List.Forall₂ R (as ++ [a]) bs) : ∃ bs' b, bs = bs' ++
      [b] ∧ List.Forall₂ R as bs' ∧ R a b := by
  induction as generalizing bs with
  | nil =>
    obtain ⟨b, bs', hR, hnil, rfl⟩ := List.forall₂_cons_left_iff.mp h
    rw [List.forall₂_nil_left_iff] at hnil
    subst hnil
    exact ⟨[], b, rfl, .nil, hR⟩
  | cons x as ih =>
    obtain ⟨y, bs₁, hR, hrest, rfl⟩ := List.forall₂_cons_left_iff.mp h
    obtain ⟨bs', b, rfl, hall, hlast⟩ := ih hrest
    exact ⟨y :: bs', b, rfl, .cons hR hall, hlast⟩

end Lists

/-! ### The server -/

namespace Server

variable {s s' : Server} {clientAddr : SocketAddr} {clientSalt serverSalt draw : UInt64}
  {bytes rest : List UInt8}
  {header : ProtocolPacketHeader} {dt : Time}

/-- The client that a request makes pending. -/
def newPending (s : Server) (clientAddr : SocketAddr) (clientSalt serverSalt : UInt64)
    (p : Endpoint) :
    PendingClient where
  clientSalt := clientSalt
  serverSalt := serverSalt
  firstRequestedTime := s.time
  lastChallengedAt := 0
  socketAddr := clientAddr
  pickleback := p

/-- The client that a response connects. -/
def newConnected (s : Server) (clientAddr : SocketAddr) (xorSalt : UInt64) (p : Endpoint) :
    ConnectedClient where
  xorSalt := xorSalt
  socketAddr := clientAddr
  confirmed := false
  clientIndex := none
  lastReceivedTime := s.time
  lastSentTime := s.time
  pickleback := p

/-- **A request** of a client that is not pending. -/
theorem receive_request_iff
    (hread : readPacket bytes = .ok (.connectionRequest header clientSalt protocolVersion, rest))
    (hnew : ∀ pc ∈ s.pendingClients, ¬ (pc.clientSalt = clientSalt ∧ pc.socketAddr = clientAddr)) :
    s.receive serverSalt bytes clientAddr = .ok (s', .ok ()) ↔
      ∃ p, (Endpoint.new s.overflowChecks .default s.time).processIncomingPacket header rest = .ok
      (p, .ok ()) ∧
        s' = { s with
          pendingClients := s.pendingClients ++
            [s.newPending clientAddr clientSalt serverSalt p] } := by
  have hnone : callOnFirst (fun pc : PendingClient =>
    pc.clientSalt == clientSalt && pc.socketAddr == clientAddr)
      (fun pc => (pc.pickleback.processIncomingPacket header rest).map
        fun r => ({ pc with pickleback := r.1 }, r.2)) s.pendingClients = .ok none :=
    callOnFirst_none fun pc hpc => by simpa [imp_not_comm] using hnew pc hpc
  simp only [receive, hread, handlePacket, ne_eq, not_true_eq_false,
    if_false, receiveRequest, hnone]
  cases (Endpoint.new s.overflowChecks .default s.time).processIncomingPacket header rest with
  | error q => simp
  | ok r =>
    obtain ⟨p, r⟩ := r
    cases r with
    | error e => simp
    | ok u => simp [newPending, eq_comm]

/-- **The response** of the last pending client, if no other has its address and salts. -/
theorem receive_response_iff {others : List PendingClient} {pc : PendingClient} {xorSalt : UInt64}
    (hread : readPacket bytes = .ok (.connectionChallengeResponse header xorSalt, rest))
    (hpending : s.pendingClients = others ++ [pc]) (haddr : pc.socketAddr = clientAddr)
    (hxor : pc.clientSalt ^^^ pc.serverSalt = xorSalt)
    (hothers : ∀ pc ∈ others, ¬ (pc.clientSalt ^^^ pc.serverSalt = xorSalt ∧
      pc.socketAddr = clientAddr)) :
    s.receive draw bytes clientAddr = .ok (s', .ok ()) ↔
      ∃ p p', (pc.pickleback.setXorSalt (some xorSalt)).processIncomingPacket header rest = .ok
      (p, .ok ()) ∧
        p.sendControl .keepAlive (fun header => .keepAlive header xorSalt 0) = .ok (p', .ok ()) ∧
        s' = { s with
          pendingClients := others
          serverEvents := s.serverEvents ++ [.clientConnected xorSalt]
          connectedClients := s.connectedClients ++ [s.newConnected clientAddr xorSalt p'] } := by
  have htake : s.takePendingByXorSalt xorSalt clientAddr = some (pc, others) := by
    rw [takePendingByXorSalt, hpending]
    refine takeFirst_concat (fun pc hpc => ?_) (by simp [haddr, hxor])
    simpa [imp_not_comm] using hothers pc hpc
  simp only [receive, hread, handlePacket, receiveResponse, htake,
    promote, hxor, ne_eq, not_true_eq_false, if_false]
  cases (pc.pickleback.setXorSalt (some xorSalt)).processIncomingPacket header rest with
  | error q => simp
  | ok r =>
    obtain ⟨p, r⟩ := r
    cases r with
    | error e => simp
    | ok u =>
      simp only
      cases hp : p.sendControl .keepAlive (fun header => .keepAlive header xorSalt 0) with
      | error q => simp [hp]
      | ok r =>
        obtain ⟨p', r⟩ := r
        cases r with
        | error e => simp [hp]
        | ok u => simp [hp, newConnected, eq_comm]

/-- **A challenge is due** to a client that was not challenged yet and has not timed out. -/
theorem process_newPending {t : Time} (hdue : handshakeResendInterval < t + dt)
    (htimely : t + dt - s.time ≤ connectionTimeout) (clientAddr : SocketAddr)
    (clientSalt serverSalt : UInt64)
    (p : Endpoint) :
    (s.newPending clientAddr clientSalt serverSalt p).process (t + dt) dt =
      ((p.update dt).sendControl .connectionChallenge fun header =>
        .connectionChallenge header clientSalt serverSalt).map fun r =>
          ({ s.newPending clientAddr clientSalt serverSalt r.1 with lastChallengedAt := t + dt },
            false) := by
  have hwaits : ¬ t + dt - s.time > connectionTimeout := not_lt.mpr htimely
  have hchallenges : 0 < t + dt - handshakeResendInterval := sub_pos.mpr hdue
  rw [PendingClient.process]
  dsimp only
  rw [if_neg (by exact hwaits), if_pos (by exact hchallenges)]
  rfl

/-- At most one client of each list times out in the update, and the visits of those that stay, two
in a row, do not panic. -/
structure Calm (s : Server) (dt : Time) : Prop where
  pendingTimeouts : s.pendingClients.countP (PendingClient.timedOut (s.time + dt)) ≤ 1
  connectedTimeouts : s.connectedClients.countP (ConnectedClient.timedOut (s.time + dt)) ≤ 1
  pending : ∀ pc ∈ s.pendingClients, ∀ pc', pc.process (s.time + dt) dt = .ok (pc', false) →
    ∃ p packets, pc'.pickleback.visitPacketsToSend = .ok (p, packets) ∧
      ∃ r, p.visitPacketsToSend = .ok r
  connected : ∀ cc ∈ s.connectedClients, ∀ cc', cc.process (s.time + dt) dt = .ok (cc', ()) →
    ∃ p packets, cc'.pickleback.visitPacketsToSend = .ok (p, packets) ∧
      ∃ r, p.visitPacketsToSend = .ok r

/-- What a visit does to a client with an address. -/
def Visited {α : Type} (addr : α → SocketAddr) (endpoint : α → Endpoint)
    (sent : List (SocketAddr × List UInt8))
    (a a' : α) : Prop :=
  addr a' = addr a ∧ ∃ packets, (endpoint a).visitPacketsToSend = .ok (endpoint a', packets) ∧
    ∀ bytes ∈ packets, (addr a, bytes) ∈ sent

/-- **A visit** visits every client. -/
theorem visitPacketsToSend_cases {sent : List (SocketAddr × List UInt8)}
    (h : s.visitPacketsToSend = .ok (s', sent)) :
    List.Forall₂ (fun pc pc' => pc'.key = pc.key ∧
        Visited PendingClient.socketAddr PendingClient.pickleback sent pc pc')
        s.pendingClients s'.pendingClients ∧
      List.Forall₂ (fun cc cc' => cc'.key = cc.key ∧
        Visited ConnectedClient.socketAddr ConnectedClient.pickleback sent cc cc')
        s.connectedClients s'.connectedClients := by
  simp only [visitPacketsToSend] at h
  split at h
  · cases h
  · next pcs sentPending hpending =>
    obtain ⟨⟨ccs, sentConnected⟩, hconnected, heq⟩ := exists_of_map_eq_ok h
    cases heq
    constructor
    · refine (forall₂_of_callOnEach hpending).imp ?_
      rintro pc pc' ⟨packets, hmem, hcall⟩
      obtain ⟨⟨p, bytes⟩, hp, heq⟩ := exists_of_map_eq_ok hcall
      cases heq
      refine ⟨rfl, rfl, bytes, hp, fun b hb => ?_⟩
      exact List.mem_append_left _ (List.mem_append_right _ (List.mem_flatten.mpr
        ⟨_, hmem, List.mem_map_of_mem hb⟩))
    · refine (forall₂_of_callOnEach hconnected).imp ?_
      rintro cc cc' ⟨packets, hmem, hcall⟩
      obtain ⟨⟨p, bytes⟩, hp, heq⟩ := exists_of_map_eq_ok hcall
      cases heq
      refine ⟨rfl, rfl, bytes, hp, fun b hb => ?_⟩
      exact List.mem_append_right _ (List.mem_flatten.mpr ⟨_, hmem, List.mem_map_of_mem hb⟩)

/-- It returns if the visit of every client does. -/
theorem exists_visitPacketsToSend (hpending : ∀ pc ∈ s.pendingClients,
      ∃ r, pc.pickleback.visitPacketsToSend = .ok r)
    (hconnected : ∀ cc ∈ s.connectedClients, ∃ r, cc.pickleback.visitPacketsToSend = .ok r) :
    ∃ s' sent, s.visitPacketsToSend = .ok (s', sent) := by
  obtain ⟨⟨pcs, sentPending⟩, hpcs⟩ : ∃ r, callOnEach visitPending s.pendingClients = .ok r := by
    refine exists_callOnEach_of_forall fun pc hpc => ?_
    obtain ⟨r, hr⟩ := hpending pc hpc
    rw [visitPending, hr]
    exact ⟨_, rfl⟩
  obtain ⟨⟨ccs, sentConnected⟩, hccs⟩ :
    ∃ r, callOnEach (visitConnected s.time) s.connectedClients = .ok r := by
    refine exists_callOnEach_of_forall fun cc hcc => ?_
    obtain ⟨r, hr⟩ := hconnected cc hcc
    rw [visitConnected, hr]
    exact ⟨_, rfl⟩
  simp only [visitPacketsToSend, hpcs, hccs]
  exact ⟨_, _, rfl⟩

/-- What the update and the visit that follows it do for a new pending client: it has been updated
to `pc` when it is visited, and is the last one afterwards. All the others are as before but for
their endpoints, and may be visited once more. -/
structure Serves (s : Server) (dt : Time) (new pc : PendingClient) (s₁ s₂ : Server)
    (sent : List (SocketAddr × List UInt8)) (others : List PendingClient) (pc' : PendingClient) :
    Prop where
  update : { s with pendingClients := s.pendingClients ++ [new] }.update dt = .ok s₁
  mem : pc ∈ s₁.pendingClients
  only : ∀ pc₁ ∈ s₁.pendingClients, pc₁ = pc ∨ ∃ pc₀ ∈ s.pendingClients, pc₁.key = pc₀.key
  visit : s₁.visitPacketsToSend = .ok (s₂, sent)
  pending : s₂.pendingClients = others ++ [pc']
  key : pc'.key = pc.key
  visited : Visited PendingClient.socketAddr PendingClient.pickleback sent pc pc'
  others : ∀ pc₁ ∈ others, (∃ pc₀ ∈ s.pendingClients, pc₁.key = pc₀.key) ∧
    ∃ r, pc₁.pickleback.visitPacketsToSend = .ok r
  connected : ∀ cc₁ ∈ s₂.connectedClients, (∃ cc₀ ∈ s.connectedClients, cc₁.key = cc₀.key) ∧
    ∃ r, cc₁.pickleback.visitPacketsToSend = .ok r

theorem exists_serves (h : s.Calm dt) {new pc : PendingClient}
    (hnew : new.timedOut (s.time + dt) = false)
    (hprocess : new.process (s.time + dt) dt = .ok (pc, false))
    (hvisit : ∃ r, pc.pickleback.visitPacketsToSend = .ok r) :
    ∃ s₁ s₂ sent others pc', s.Serves dt new pc s₁ s₂ sent others pc' := by
  have hpending : (s.pendingClients ++ [new]).countP
    (PendingClient.timedOut (s.time + dt)) ≤ 1 := by
    rw [List.countP_append, List.countP_singleton, hnew]
    exact h.pendingTimeouts
  obtain ⟨s₁, hupdate, hremoves⟩ := exists_update
    (s := { s with pendingClients := s.pendingClients ++ [new] }) hpending h.connectedTimeouts
  have hupdated := hremoves.pending
  dsimp only at hupdated
  rw [List.filter_append, List.filter_singleton, hnew, Bool.not_false, cond_true] at hupdated
  obtain ⟨others₁, pc₁, hlist, hothers, -, hlast⟩ := exists_of_forall₂_concat hupdated
  obtain rfl : pc = pc₁ := congrArg Prod.fst (Except.ok.inj (hprocess.symm.trans hlast))
  -- the other clients, as they were before the update
  have hpendings : ∀ pc₁ ∈ others₁, (∃ pc₀ ∈ s.pendingClients, pc₁.key = pc₀.key) ∧ ∃ p packets,
      pc₁.pickleback.visitPacketsToSend = .ok (p, packets) ∧ ∃ r, p.visitPacketsToSend = .ok r := by
    intro pc₁ hpc₁
    obtain ⟨pc₀, hpc₀, hsame, hcall⟩ := exists_of_forall₂_mem hothers hpc₁
    have hmem := List.mem_of_mem_filter hpc₀
    exact ⟨⟨pc₀, hmem, by rw [hsame]; rfl⟩, h.pending pc₀ hmem pc₁ hcall⟩
  have hconnecteds : ∀ cc₁ ∈ s₁.connectedClients, (∃ cc₀ ∈ s.connectedClients, cc₁.key = cc₀.key) ∧
    ∃ p packets,
      cc₁.pickleback.visitPacketsToSend = .ok (p, packets) ∧ ∃ r, p.visitPacketsToSend = .ok r := by
    intro cc₁ hcc₁
    obtain ⟨cc₀, hcc₀, hsame, hcall⟩ := exists_of_forall₂_mem hremoves.connected hcc₁
    have hmem := List.mem_of_mem_filter hcc₀
    exact ⟨⟨cc₀, hmem, by rw [hsame]; rfl⟩, h.connected cc₀ hmem cc₁ hcall⟩
  obtain ⟨s₂, sent, hsent⟩ := s₁.exists_visitPacketsToSend
    (by
      intro pc₁ hpc₁
      rw [hlist, List.mem_append, List.mem_singleton] at hpc₁
      obtain hpc₁ | rfl := hpc₁
      · obtain ⟨-, p, packets, hp, -⟩ := hpendings pc₁ hpc₁
        exact ⟨_, hp⟩
      · exact hvisit)
    (by
      intro cc₁ hcc₁
      obtain ⟨-, p, packets, hp, -⟩ := hconnecteds cc₁ hcc₁
      exact ⟨_, hp⟩)
  obtain ⟨hvisitedPending, hvisitedConnected⟩ := visitPacketsToSend_cases hsent
  rw [hlist] at hvisitedPending
  obtain ⟨others₂, pc', hlist₂, hothers₂, hkey, hvisited⟩ :=
    exists_of_forall₂_concat hvisitedPending
  refine ⟨s₁, s₂, sent, others₂, pc', hupdate, ?_, ?_, hsent, hlist₂, hkey, hvisited, ?_, ?_⟩
  · rw [hlist]
    exact List.mem_append_right _ (List.mem_singleton_self pc)
  · intro pc₁ hpc₁
    rw [hlist, List.mem_append, List.mem_singleton] at hpc₁
    exact hpc₁.symm.imp_right fun hmem => (hpendings pc₁ hmem).1
  · intro pc₂ hpc₂
    obtain ⟨pc₁, hpc₁, hkey, -, packets, hp, -⟩ := exists_of_forall₂_mem hothers₂ hpc₂
    obtain ⟨⟨pc₀, hpc₀, hkey₀⟩, p, packets₁, hp₁, hagain⟩ := hpendings pc₁ hpc₁
    obtain ⟨rfl, -⟩ := Prod.mk.inj (Except.ok.inj (hp₁.symm.trans hp))
    exact ⟨⟨pc₀, hpc₀, hkey.trans hkey₀⟩, hagain⟩
  · intro cc₂ hcc₂
    obtain ⟨cc₁, hcc₁, hkey, -, packets, hp, -⟩ := exists_of_forall₂_mem hvisitedConnected hcc₂
    obtain ⟨⟨cc₀, hcc₀, hkey₀⟩, p, packets₁, hp₁, hagain⟩ := hconnecteds cc₁ hcc₁
    obtain ⟨rfl, -⟩ := Prod.mk.inj (Except.ok.inj (hp₁.symm.trans hp))
    exact ⟨⟨cc₀, hcc₀, hkey.trans hkey₀⟩, hagain⟩

end Server

end Pickleback
