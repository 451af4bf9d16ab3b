import Pickleback.Endpoint

/-!
# The client

`client.rs`: the client end of a connection, a state machine around an `Endpoint`. The salts are
kept both here and in the endpoint; `state_transition` copies them over, and a transition to
`Disconnected` starts with everything new.

The value that `connect` draws with `rand::random` is an argument.

## Main definitions

* `Client`, `Client.new`
* `connect`, `disconnect`, `update`, `receive`, `visitPacketsToSend` — the calls of an application
-/

namespace Pickleback

/-- `SocketAddr`. -/
inductive SocketAddr where
  | v4 (ip : UInt32) (port : UInt16)
  | v6 (ip : BitVec 128) (port : UInt16) (flowinfo scopeId : UInt32)
  deriving DecidableEq

/-- `ClientState`. -/
inductive ClientState where
  /-- Initial connection establishment request. -/
  | sendingConnectionRequest
  /-- Responding to the server's handshake challenge. -/
  | sendingChallengeResponse
  | connected
  | disconnected (reason : DisconnectReason)
  /-- In the midst of disconnecting cleanly. -/
  | selfInitiatedDisconnect
  deriving DecidableEq, Repr

/-- `matches!(self.state, ClientState::Disconnected(_))`. -/
def ClientState.isDisconnected : ClientState → Bool
  | .disconnected _ => true
  | _ => false

/-- `PicklebackClient`. -/
structure Client where
  time : Time
  state : ClientState
  clientSalt : Option UInt64
  serverSalt : Option UInt64
  xorSalt : Option UInt64
  protoLastSend : Time
  lastReceiveTime : Time
  lastSendTime : Time
  pickleback : Endpoint
  serverAddr : Option SocketAddr
  stateTransitions : List ClientState

namespace Client

/-- `PicklebackClient::new`, in a build with or without overflow checks. -/
def new (overflowChecks : Bool) (time : Time) (config : PicklebackConfig) : Client where
  time := time
  state := .disconnected .normal
  clientSalt := none
  serverSalt := none
  xorSalt := none
  protoLastSend := 0
  lastReceiveTime := 0
  lastSendTime := 0
  pickleback := Endpoint.new overflowChecks config 0
  serverAddr := none
  stateTransitions := []

/-- `PicklebackClient::reset`. -/
def reset (c : Client) : Client :=
  { c with
    clientSalt := none
    serverSalt := none
    xorSalt := none
    protoLastSend := 0
    lastReceiveTime := 0
    lastSendTime := 0
    serverAddr := none
    pickleback := Endpoint.new c.pickleback.overflowChecks c.pickleback.config 0 }

/-- `PicklebackClient::state_transition`. -/
def stateTransition (c : Client) (newState : ClientState) : Client :=
  let c := { c with
    state := newState
    protoLastSend := 0
    pickleback := c.pickleback.setXorSalt c.xorSalt }
  let c := if c.state.isDisconnected then c.reset else c
  { c with stateTransitions := c.stateTransitions ++ [newState] }

/-- `PicklebackClient::update`. -/
def update (c : Client) (dt : Time) : Client :=
  let c := { c with time := c.time + dt, pickleback := c.pickleback.update dt }
  if !c.state.isDisconnected ∧ c.time - c.lastReceiveTime > connectionTimeout then
    c.stateTransition (.disconnected .timedOut)
  else c

/-- `PicklebackClient::disconnect`. -/
def disconnect (c : Client) : Client :=
  match c.state with
  | .connected | .sendingChallengeResponse => c.stateTransition .selfInitiatedDisconnect
  | _ => c.stateTransition (.disconnected .normal)

/-- `PicklebackClient::connect`, which draws `salt`. -/
def connect (c : Client) (serverAddr : SocketAddr) (salt : UInt64) : Client :=
  { c with
    serverAddr := some serverAddr
    serverSalt := none
    xorSalt := none
    clientSalt := some salt }.stateTransition .sendingConnectionRequest

/-! ### Sending -/

/-- `PicklebackClient::send`. -/
def send (c : Client) (packet : ProtocolPacket) :
    Except Panic (Client × Except PicklebackError Unit) :=
  match c.pickleback.sendPacket packet with
  | .error q => .error q
  | .ok (p, .error e) => .ok ({ c with pickleback := p }, .error e)
  | .ok (p, .ok ()) => .ok ({ c with pickleback := p, lastSendTime := c.time }, .ok ())

/-- How `visit_packets_to_send` sends each of its packets: if `next_packet_header` gives a header,
the salt is unwrapped and the packet is sent. Whether that was done. -/
def sendWithSalt (c : Client) (packetType : PacketType) (salt : Option UInt64)
    (build : ProtocolPacketHeader → UInt64 → ProtocolPacket) : Except Panic (Client × Bool) :=
  match c.pickleback.nextPacketHeader packetType with
  | .error q => .error q
  | .ok (p, .error _) => .ok ({ c with pickleback := p }, false)
  | .ok (p, .ok header) =>
    match salt with
    | none => .error .clientSalt
    | some salt =>
      match { c with pickleback := p }.send (build header salt) with
      | .error q => .error q
      | .ok (c, .error _) => .ok (c, false)
      | .ok (c, .ok ()) => .ok (c, true)

/-- The `Disconnect` packets of a client that is disconnecting. -/
def sendDisconnects : ℕ → Client → Except Panic Client
  | 0, c => .ok c
  | n + 1, c =>
    match c.sendWithSalt .disconnect c.xorSalt .disconnect with
    | .error q => .error q
    | .ok (c, _) => sendDisconnects n c

/-- A handshake packet, and if it was sent, the time of it. -/
def sendHandshake (c : Client) (packetType : PacketType) (salt : Option UInt64)
    (build : ProtocolPacketHeader → UInt64 → ProtocolPacket) : Except Panic Client :=
  match c.sendWithSalt packetType salt build with
  | .error q => .error q
  | .ok (c, true) => .ok { c with protoLastSend := c.time }
  | .ok (c, false) => .ok c

/-- The `match self.state` of `visit_packets_to_send`, with `keepalive_needed`. -/
def sendForState (c : Client) : Except Panic (Client × Bool) :=
  match c.state with
  | .selfInitiatedDisconnect =>
    if c.xorSalt.isSome then
      (sendDisconnects 10 c).map fun c => (c.stateTransition (.disconnected .normal), false)
    else .ok (c, false)
  | .sendingConnectionRequest =>
    if c.protoLastSend < c.time - handshakeResendInterval then
      (c.sendHandshake .connectionRequest c.clientSalt
        fun header salt => .connectionRequest header salt protocolVersion).map fun c => (c, false)
    else .ok (c, false)
  | .sendingChallengeResponse =>
    if c.protoLastSend < c.time - handshakeResendInterval ∧ c.xorSalt.isSome then
      (c.sendHandshake .connectionChallengeResponse c.xorSalt .connectionChallengeResponse).map
        fun c => (c, false)
    else .ok (c, false)
  | .connected => .ok (c, decide (c.time - c.lastSendTime ≥ keepaliveInterval))
  | .disconnected _ => .ok (c, false)

/-- The call of the endpoint's `visit_packets_to_send`. -/
def visitPickleback (c : Client) : Except Panic (Client × List (List UInt8)) :=
  (c.pickleback.visitPacketsToSend).map fun r => ({ c with pickleback := r.1 }, r.2)

/-- `PicklebackClient::visit_packets_to_send`: the packets handed to `send_fn`, in order. -/
def visitPacketsToSend (c : Client) : Except Panic (Client × List (SocketAddr × List UInt8)) :=
  match c.serverAddr with
  | none => .ok (c, [])
  | some serverAddr =>
    match c.sendForState with
    | .error q => .error q
    | .ok (c, keepaliveNeeded) =>
      match c.visitPickleback with
      | .error q => .error q
      | .ok (c, packets) =>
        let sent := packets.map fun packet => (serverAddr, packet)
        if packets.length = 0 ∧ keepaliveNeeded then
          match c.sendWithSalt .keepAlive c.xorSalt fun header salt => .keepAlive header salt 0 with
          | .error q => .error q
          | .ok (c, _) =>
            match c.visitPickleback with
            | .error q => .error q
            | .ok (c, packets) => .ok (c, sent ++ packets.map fun packet => (serverAddr, packet))
        else .ok (c, sent)

/-! ### Receiving -/

/-- The call of the endpoint's `process_incoming_packet`, and the new state if it succeeds. -/
def processThen (c : Client) (header : ProtocolPacketHeader) (rest : List UInt8)
    (newState : Option ClientState) :
    Except Panic (Client × Except PicklebackError (Option ClientState)) :=
  match c.pickleback.processIncomingPacket header rest with
  | .error q => .error q
  | .ok (p, .error e) => .ok ({ c with pickleback := p }, .error e)
  | .ok (p, .ok ()) => .ok ({ c with pickleback := p }, .ok newState)

/-- The `match packet` of `receive`: the new state, if there is one. -/
def handlePacket (c : Client) (packet : ProtocolPacket) (rest : List UInt8) :
    Except Panic (Client × Except PicklebackError (Option ClientState)) :=
  match packet with
  | .connectionChallenge header clientSalt serverSalt =>
    if c.state = .sendingConnectionRequest then
      match c.clientSalt with
      | none => .ok (c, .ok none)
      | some selfClientSalt =>
        if selfClientSalt ≠ clientSalt then .ok (c, .error .invalidPacket)
        else
          { c with
            serverSalt := some serverSalt
            xorSalt := some (serverSalt ^^^ selfClientSalt) }.processThen header rest
              (some .sendingChallengeResponse)
    else .ok (c, .ok none)
  | .connectionDenied _ reason =>
    if c.state = .sendingConnectionRequest ∨ c.state = .sendingChallengeResponse then
      .ok ({ c with serverSalt := none, xorSalt := none }, .ok (some (.disconnected reason)))
    else .ok (c, .ok none)
  | .keepAlive header xorSalt _ =>
    if c.state = .connected ∨ c.state = .sendingChallengeResponse then
      if c.xorSalt = some xorSalt then
        let newState := if c.state = .sendingChallengeResponse then some .connected else none
        { c with lastReceiveTime := c.time }.processThen header rest newState
      else .ok (c, .ok none)
    else .ok (c, .ok none)
  | .messages header xorSalt =>
    if c.state = .connected ∧ c.xorSalt = some xorSalt then c.processThen header rest none
    else .ok (c, .ok none)
  | _ => .ok (c, .ok none)

/-- `PicklebackClient::receive`. -/
def receive (c : Client) (bytes : List UInt8) (source : SocketAddr) :
    Except Panic (Client × Except PicklebackError Unit) :=
  match c.serverAddr with
  | none => .ok (c, .ok ())
  | some serverAddr =>
    if serverAddr ≠ source then .ok (c, .error .socketAddrMismatch)
    else match readPacket bytes with
      | .error e => .ok (c, .error e)
      | .ok (packet, rest) =>
        match { c with lastReceiveTime := c.time }.handlePacket packet rest with
        | .error q => .error q
        | .ok (c, .error e) => .ok (c, .error e)
        | .ok (c, .ok none) => .ok (c, .ok ())
        | .ok (c, .ok (some newState)) => .ok (c.stateTransition newState, .ok ())

/-! ### Runs -/

/-- The calls on a client. -/
inductive Call where
  /-- `connect`, with the salt it draws. -/
  | connect (serverAddr : SocketAddr) (salt : UInt64)
  | disconnect
  | update (dt : Time)
  | receive (bytes : List UInt8) (source : SocketAddr)
  | visitPacketsToSend

/-- One call. Where the source would panic there is no state afterwards. -/
def step (c : Client) : Call → Except Panic Client
  | .connect serverAddr salt => .ok (c.connect serverAddr salt)
  | .disconnect => .ok c.disconnect
  | .update dt => .ok (c.update dt)
  | .receive bytes source => (c.receive bytes source).map Prod.fst
  | .visitPacketsToSend => c.visitPacketsToSend.map Prod.fst

/-- A series of calls. -/
def run (c : Client) (calls : List Call) : Except Panic Client := calls.foldlM step c

end Client

end Pickleback
