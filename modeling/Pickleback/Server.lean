import Pickleback.Client

/-!
# The server

`server.rs`: one server and its clients, those in the middle of a handshake and those connected,
each with an `Endpoint` of its own. What the server sends is addressed; the address of a client is
the one its packets came from.

The value that `receive` draws with `rand::random` for a new client is an argument. The buffer of
indices `tmp_buffer` is a local value here.

## Main definitions

* `PendingClient`, `ConnectedClient`, `ServerEvent`, `Server`
* `receive`, `update`, `visitPacketsToSend`, `disconnectClient`, `sendMessage` — the calls of an
  application
* `Server.Call`, `Server.step`, `Server.run` — runs of a server
-/

namespace Pickleback

open ByteCodec

/-- `ServerEvent`. -/
inductive ServerEvent where
  | clientConnected (id : UInt64)
  | clientDisconnected (id : UInt64) (reason : DisconnectReason)
  deriving DecidableEq, Repr

/-- `PendingClient`: a client whose request has been answered with a challenge. -/
structure PendingClient where
  clientSalt : UInt64
  serverSalt : UInt64
  firstRequestedTime : Time
  /-- When the last challenge was sent. -/
  lastChallengedAt : Time
  socketAddr : SocketAddr
  pickleback : Endpoint

/-- What identifies a pending client. -/
def PendingClient.key (pc : PendingClient) : SocketAddr × UInt64 × UInt64 :=
  (pc.socketAddr, pc.clientSalt, pc.serverSalt)

/-- `ConnectedClient`: a client that has completed the handshake. -/
structure ConnectedClient where
  xorSalt : UInt64
  socketAddr : SocketAddr
  confirmed : Bool
  clientIndex : Option UInt32
  lastReceivedTime : Time
  lastSentTime : Time
  pickleback : Endpoint

/-- What identifies a connected client. -/
def ConnectedClient.key (cc : ConnectedClient) : SocketAddr × UInt64 := (cc.socketAddr, cc.xorSalt)

/-- `PicklebackServer`. -/
structure Server where
  time : Time
  pendingClients : List PendingClient
  connectedClients : List ConnectedClient
  config : PicklebackConfig
  pool : BufPool
  /-- Packets for clients the server has no endpoint for. -/
  outbox : List (SocketAddr × List UInt8)
  serverEvents : List ServerEvent
  /-- Whether the build panics where `u16` arithmetic overflows. -/
  overflowChecks : Bool

/-! ### Lists of clients -/

section Lists

variable {α β : Type}

/-- A call on the first entry that passes a test, as found with `iter_mut().find`. -/
def callOnFirst (test : α → Bool) (call : α → Except Panic (α × β)) :
    List α → Except Panic (Option (List α × β))
  | [] => .ok none
  | a :: as =>
    if test a then (call a).map fun r => some (r.1 :: as, r.2)
    else (callOnFirst test call as).map (Option.map fun r => (a :: r.1, r.2))

/-- The first entry that passes a test, taken out of the list. -/
def takeFirst (test : α → Bool) : List α → Option (α × List α)
  | [] => none
  | a :: as => if test a then some (a, as) else (takeFirst test as).map fun r => (r.1, a :: r.2)

/-- A call on every entry, in order. -/
def callOnEach (call : α → Except Panic (α × β)) : List α → Except Panic (List α × List β)
  | [] => .ok ([], [])
  | a :: as =>
    match call a with
    | .error q => .error q
    | .ok (a, b) => (callOnEach call as).map fun r => (a :: r.1, b :: r.2)

/-- `Vec::remove` at one index after another: the entries removed, and those left. The indices are
not adjusted on the way. -/
def removeAll (as : List α) : List ℕ → Except Panic (List α × List α)
  | [] => .ok ([], as)
  | i :: is =>
    match as[i]? with
    | none => .error .removeOutOfRange
    | some a => (removeAll (as.eraseIdx i) is).map fun r => (a :: r.1, r.2)

/-- The indices at which a flag is set. -/
def flaggedIndices (flags : List Bool) : List ℕ :=
  (flags.zipIdx.filter fun e => e.1).map Prod.snd

variable {γ : Type} {P : α → Prop} {Q : β → Prop} {test : α → Bool}
  {call : α → Except Panic (α × β)}

theorem callOnEach_forall (hcall : ∀ {a a' : α} {b : β}, P a → call a = .ok (a', b) → P a' ∧ Q b)
    {as as' : List α} {bs : List β} (h : ∀ a ∈ as, P a)
    (heach : callOnEach call as = .ok (as', bs)) :
    (∀ a ∈ as', P a) ∧ ∀ b ∈ bs, Q b := by
  induction as generalizing as' bs with
  | nil =>
    cases heach
    exact ⟨h, fun b hb => (by cases hb)⟩
  | cons a as ih =>
    simp only [callOnEach] at heach
    split at heach
    · cases heach
    · next a' b ha =>
      obtain ⟨⟨as₁, bs₁⟩, hrest, heq⟩ := exists_of_map_eq_ok heach
      cases heq
      obtain ⟨hP, hQ⟩ := hcall (h a (List.mem_cons_self ..)) ha
      obtain ⟨hP', hQ'⟩ := ih (fun a ha => h a (List.mem_cons_of_mem _ ha)) hrest
      exact ⟨List.forall_mem_cons.mpr ⟨hP, hP'⟩, List.forall_mem_cons.mpr ⟨hQ, hQ'⟩⟩

/-- A call that keeps a key keeps the keys of a list. -/
theorem map_callOnEach {key : α → γ} (hcall : ∀ {a a' : α} {b : β}, call a = .ok (a', b) →
      key a' = key a)
    {as as' : List α} {bs : List β} (heach : callOnEach call as = .ok (as', bs)) :
    as'.map key = as.map key := by
  induction as generalizing as' bs with
  | nil =>
    cases heach
    rfl
  | cons a as ih =>
    simp only [callOnEach] at heach
    split at heach
    · cases heach
    · next a' b ha =>
      obtain ⟨⟨as₁, bs₁⟩, hrest, heq⟩ := exists_of_map_eq_ok heach
      cases heq
      rw [List.map_cons, List.map_cons, hcall ha, ih hrest]

/-- The first entry that passes a test, as a call finds it. -/
theorem find?_of_callOnFirst {as as' : List α} {b : β}
    (h : callOnFirst test call as = .ok (some (as', b))) :
    ∃ before a a' after, as = before ++ a :: after ∧ as' = before ++
      a' :: after ∧ as.find? test = some a ∧
      call a = .ok (a', b) := by
  induction as generalizing as' with
  | nil => cases h
  | cons a as ih =>
    simp only [callOnFirst] at h
    split at h
    · next htest =>
      obtain ⟨⟨a', b'⟩, ha, heq⟩ := exists_of_map_eq_ok h
      cases heq
      exact ⟨[], a, a', as, rfl, rfl, List.find?_cons_of_pos htest, ha⟩
    · next htest =>
      obtain ⟨r, hrest, heq⟩ := exists_of_map_eq_ok h
      obtain ⟨⟨as₁, b₁⟩, rfl, heq⟩ := Option.map_eq_some_iff.mp heq
      cases heq
      obtain ⟨before, a₁, a', after, rfl, rfl, hfind, ha⟩ := ih hrest
      exact ⟨a :: before, a₁, a', after, rfl, rfl, (List.find?_cons_of_neg htest).trans hfind, ha⟩

/-- **A call on the first entry that passes a test** changes that entry alone. -/
theorem callOnFirst_cases {as as' : List α} {b : β}
    (h : callOnFirst test call as = .ok (some (as', b))) :
    ∃ before a a' after, as = before ++ a :: after ∧ as' = before ++ a' :: after ∧ test a = true ∧
      call a = .ok (a', b) := by
  obtain ⟨before, a, a', after, has, has', hfind, ha⟩ := find?_of_callOnFirst h
  exact ⟨before, a, a', after, has, has', List.find?_some hfind, ha⟩

theorem callOnFirst_forall (hcall : ∀ {a a' : α} {b : β}, P a → call a = .ok (a', b) → P a')
    {as as' : List α} {b : β} (h : ∀ a ∈ as, P a)
    (hfirst : callOnFirst test call as = .ok (some (as', b))) :
    ∀ a ∈ as', P a := by
  obtain ⟨before, a, a', after, rfl, rfl, -, ha⟩ := callOnFirst_cases hfirst
  rw [List.forall_mem_append, List.forall_mem_cons] at h ⊢
  exact ⟨h.1, hcall h.2.1 ha, h.2.2⟩

theorem map_callOnFirst {key : α → γ} (hcall : ∀ {a a' : α} {b : β}, call a = .ok (a', b) →
      key a' = key a)
    {as as' : List α} {b : β} (hfirst : callOnFirst test call as = .ok (some (as', b))) :
    as'.map key = as.map key := by
  obtain ⟨before, a, a', after, rfl, rfl, -, ha⟩ := callOnFirst_cases hfirst
  rw [List.map_append, List.map_append, List.map_cons, List.map_cons, hcall ha]

/-- A call on the first entry that passes a test, when none does. -/
theorem callOnFirst_none {as : List α} (h : ∀ a ∈ as, test a = false) :
    callOnFirst test call as = .ok none := by
  induction as with
  | nil => rfl
  | cons a as ih =>
    rw [List.forall_mem_cons] at h
    rw [callOnFirst, if_neg (by simp [h.1]), ih h.2]
    rfl

/-- A test that a call on the first entry finds nothing for finds nothing. -/
theorem find?_of_callOnFirst_none {as : List α} (h : callOnFirst test call as = .ok none) :
    as.find? test = none := by
  induction as with
  | nil => rfl
  | cons a as ih =>
    simp only [callOnFirst] at h
    split at h
    · obtain ⟨r, -, heq⟩ := exists_of_map_eq_ok h
      cases heq
    · next htest =>
      obtain ⟨r, hrest, heq⟩ := exists_of_map_eq_ok h
      cases r with
      | none => rw [List.find?_cons_of_neg htest, ih hrest]
      | some r => cases heq

/-- A call that returns for the first entry that passes a test. -/
theorem exists_callOnFirst (test : α → Bool) (as : List α)
    (h : ∀ a, as.find? test = some a → ∃ r, call a = .ok r) :
    ∃ r, callOnFirst test call as = .ok r := by
  induction as with
  | nil => exact ⟨none, rfl⟩
  | cons a as ih =>
    rw [callOnFirst]
    split
    · next htest =>
      obtain ⟨r, hr⟩ := h a (List.find?_cons_of_pos htest)
      rw [hr]
      exact ⟨_, rfl⟩
    · next htest =>
      obtain ⟨r, hr⟩ := ih fun a₁ ha₁ => h a₁ ((List.find?_cons_of_neg htest).trans ha₁)
      rw [hr]
      exact ⟨_, rfl⟩

variable (call) in
/-- A call on the first entry is made if and only if it can be. -/
theorem exists_callOnFirst_iff (test : α → Bool) (as : List α) :
    (∃ r, callOnFirst test call as = .ok r) ↔ ∀ a, as.find? test = some a →
      ∃ r, call a = .ok r := by
  refine ⟨?_, exists_callOnFirst test as⟩
  rintro ⟨r, hr⟩ a ha
  cases r with
  | none => cases (find?_of_callOnFirst_none hr).symm.trans ha
  | some r =>
    obtain ⟨_, a', _, _, -, -, hfind, hcall⟩ := find?_of_callOnFirst hr
    cases hfind.symm.trans ha
    exact ⟨_, hcall⟩

theorem takeFirst_cases {as as' : List α} {a : α} (h : takeFirst test as = some (a, as')) :
    ∃ before after, as = before ++ a :: after ∧ as' = before ++ after ∧ test a = true := by
  induction as generalizing as' with
  | nil => cases h
  | cons a₀ as ih =>
    simp only [takeFirst] at h
    split at h
    · next htest =>
      cases h
      exact ⟨[], as, rfl, rfl, htest⟩
    · obtain ⟨⟨a₁, as₁⟩, hrest, heq⟩ := Option.map_eq_some_iff.mp h
      cases heq
      obtain ⟨before, after, rfl, rfl, htest⟩ := ih hrest
      exact ⟨a₀ :: before, after, rfl, rfl, htest⟩

/-- The last entry is taken if no other passes the test. -/
theorem takeFirst_concat {as : List α} {a : α} (h : ∀ b ∈ as, test b = false) (ha : test a = true) :
    takeFirst test (as ++ [a]) = some (a, as) := by
  induction as with
  | nil => rw [List.nil_append, takeFirst, if_pos ha]
  | cons b as ih =>
    rw [List.forall_mem_cons] at h
    rw [List.cons_append, takeFirst, if_neg (by simp [h.1]), ih h.2]
    rfl

/-- Whatever the indices are, some of the entries are left. -/
theorem sublist_of_removeAll {as removed left : List α} {is : List ℕ}
    (h : removeAll as is = .ok (removed, left)) : left.Sublist as := by
  induction is generalizing as removed with
  | nil =>
    cases h
    exact List.Sublist.refl _
  | cons i is ih =>
    simp only [removeAll] at h
    split at h
    · cases h
    · obtain ⟨⟨removed₁, left₁⟩, hrest, heq⟩ := exists_of_map_eq_ok h
      cases heq
      exact (ih hrest).trans (List.eraseIdx_sublist as i)

end Lists

/-! ### One client -/

/-- The body of the loop of `process_pending_clients`: the client afterwards, and whether it has
been pending for too long. -/
def PendingClient.process (time dt : Time) (pc : PendingClient) :
    Except Panic (PendingClient × Bool) :=
  let pc := { pc with pickleback := pc.pickleback.update dt }
  if time - pc.firstRequestedTime > connectionTimeout then .ok (pc, true)
  else if pc.lastChallengedAt < time - handshakeResendInterval then
    (pc.pickleback.sendControl .connectionChallenge fun header =>
      .connectionChallenge header pc.clientSalt pc.serverSalt).map
        fun r => ({ pc with lastChallengedAt := time, pickleback := r.1 }, false)
  else .ok (pc, false)

namespace ConnectedClient

/-- A keep-alive of the server, errors dropped. -/
def keepAlive (cc : ConnectedClient) : Except Panic ConnectedClient :=
  (cc.pickleback.sendControl .keepAlive fun header =>
    .keepAlive header cc.xorSalt (cc.clientIndex.getD 0)).map fun r => { cc with pickleback := r.1 }

/-- The body of the last loop of `process_connected_clients`. -/
def process (time dt : Time) (cc : ConnectedClient) : Except Panic (ConnectedClient × Unit) :=
  let cc := { cc with pickleback := cc.pickleback.update dt }
  let timeSinceLastSend := time - cc.lastSentTime
  if (!cc.confirmed ∧ cc.pickleback.outbox.length > 0) ∨ timeSinceLastSend > keepaliveInterval then
    cc.keepAlive.map fun cc => (cc, ())
  else .ok (cc, ())

/-- `ConnectedClient::send_message`. -/
def sendMessage (channel : UInt8) (payload : List UInt8) (cc : ConnectedClient) :
    Except Panic (ConnectedClient × Except PicklebackError MessageId) :=
  (cc.pickleback.sendMessage channel payload).map fun r => ({ cc with pickleback := r.1 }, r.2)

/-- The call of the endpoint's `process_incoming_packet`. -/
def processIncomingPacket (header : ProtocolPacketHeader) (rest : List UInt8)
    (cc : ConnectedClient) :
    Except Panic (ConnectedClient × Except PicklebackError Unit) :=
  (cc.pickleback.processIncomingPacket header rest).map fun r =>
    ({ cc with pickleback := r.1 }, r.2)

end ConnectedClient

namespace Server

/-- `PicklebackServer::new`, in a build with or without overflow checks. -/
def new (overflowChecks : Bool) (time : Time) (config : PicklebackConfig) : Server where
  time := time
  pendingClients := []
  connectedClients := []
  config := config
  pool := BufPool.fullPacketsOnly
  outbox := []
  serverEvents := []
  overflowChecks := overflowChecks

/-! ### Advancing time -/

/-- `PicklebackServer::process_pending_clients`. -/
def processPendingClients (s : Server) (dt : Time) : Except Panic Server :=
  match callOnEach (PendingClient.process s.time dt) s.pendingClients with
  | .error q => .error q
  | .ok (pendingClients, expired) =>
    (removeAll pendingClients (flaggedIndices expired)).map fun r =>
      { s with pendingClients := r.2 }

/-- `PicklebackServer::process_connected_clients`. -/
def processConnectedClients (s : Server) (dt : Time) : Except Panic Server :=
  let timedOut := s.connectedClients.map fun cc =>
    decide (s.time - cc.lastReceivedTime > connectionTimeout)
  match removeAll s.connectedClients (flaggedIndices timedOut) with
  | .error q => .error q
  | .ok (removed, connectedClients) =>
    (callOnEach (ConnectedClient.process s.time dt) connectedClients).map fun r =>
      { s with
        connectedClients := r.1
        serverEvents := s.serverEvents ++ removed.map fun cc =>
          .clientDisconnected cc.xorSalt .timedOut }

/-- `PicklebackServer::update`. -/
def update (s : Server) (dt : Time) : Except Panic Server :=
  match { s with time := s.time + dt }.processPendingClients dt with
  | .error q => .error q
  | .ok s => s.processConnectedClients dt

/-! ### Application calls -/

/-- `PicklebackServer::disconnect_client`. The `Disconnect` packet goes into the outbox of an
endpoint that is then dropped. -/
def disconnectClient (s : Server) (xorSalt : UInt64) : Except Panic Server :=
  match callOnFirst (fun cc : ConnectedClient => cc.xorSalt == xorSalt)
      (fun cc => (cc.pickleback.sendControl .disconnect fun header =>
        .disconnect header xorSalt).map
        fun r => ({ cc with pickleback := r.1 }, ())) s.connectedClients with
  | .error q => .error q
  | .ok none => .ok s
  | .ok (some (connectedClients, _)) =>
    .ok { s with connectedClients := connectedClients.filter fun cc => cc.xorSalt != xorSalt }

/-- `PicklebackServer::send_message`. -/
def sendMessage (s : Server) (clientId : UInt64) (channel : UInt8) (payload : List UInt8) :
    Except Panic (Server × Except PicklebackError MessageId) :=
  (callOnFirst (fun cc : ConnectedClient => cc.xorSalt == clientId)
    (ConnectedClient.sendMessage channel payload) s.connectedClients).map fun
      | none => (s, .error .noSuchClient)
      | some (connectedClients, r) => ({ s with connectedClients := connectedClients }, r)

/-- `PicklebackServer::broadcast_message`. -/
def broadcastMessage (s : Server) (channel : UInt8) (payload : List UInt8) : Except Panic Server :=
  (callOnEach (ConnectedClient.sendMessage channel payload) s.connectedClients).map fun r =>
    { s with connectedClients := r.1 }

/-- `PicklebackServer::drain_server_events`. -/
def drainServerEvents (s : Server) : Server × List ServerEvent :=
  ({ s with serverEvents := [] }, s.serverEvents)

/-- The visit of a pending client's endpoint, with the address of the client on its packets. -/
def visitPending (pc : PendingClient) :
    Except Panic (PendingClient × List (SocketAddr × List UInt8)) :=
  (pc.pickleback.visitPacketsToSend).map fun r =>
    ({ pc with pickleback := r.1 }, r.2.map fun packet => (pc.socketAddr, packet))

/-- The visit of a connected client's endpoint. -/
def visitConnected (time : Time) (cc : ConnectedClient) :
    Except Panic (ConnectedClient × List (SocketAddr × List UInt8)) :=
  (cc.pickleback.visitPacketsToSend).map fun r =>
    ({ cc with
      pickleback := r.1
      lastSentTime := if r.2.length > 0 then time else cc.lastSentTime },
      r.2.map fun packet => (cc.socketAddr, packet))

/-- `PicklebackServer::visit_packets_to_send`: the packets handed to `send_fn`, in order. -/
def visitPacketsToSend (s : Server) : Except Panic (Server × List (SocketAddr × List UInt8)) :=
  match callOnEach visitPending s.pendingClients with
  | .error q => .error q
  | .ok (pendingClients, sentPending) =>
    (callOnEach (visitConnected s.time) s.connectedClients).map fun r =>
      ({ s with outbox := [], pendingClients := pendingClients, connectedClients := r.1 },
        s.outbox ++ sentPending.flatten ++ r.2.flatten)

/-! ### Receiving -/

/-- The answer to a client that is not let in: a `ConnectionDenied` packet in the server's own
outbox. -/
def deny (s : Server) (clientAddr : SocketAddr) (reason : DisconnectReason) :
    Except Panic (Server × Except PicklebackError Unit) :=
  match writePacket s.pool s.config (.connectionDenied (.newNoAcks 0 .connectionDenied) reason) with
  | .error q => .error q
  | .ok (pool, .error e) => .ok ({ s with pool := pool }, .error e)
  | .ok (pool, .ok denied) =>
    .ok ({ s with
      outbox := s.outbox ++ [(clientAddr, denied.data)]
      pool := pool.returnBuffer denied }, .ok ())

/-- A `ConnectionRequest` of the right version. A client that is pending already stays so; otherwise
it becomes pending, with the salt that is drawn. -/
def receiveRequest (s : Server) (salt : UInt64) (header : ProtocolPacketHeader) (rest : List UInt8)
    (clientSalt : UInt64) (clientAddr : SocketAddr) :
    Except Panic (Server × Except PicklebackError Unit) :=
  match callOnFirst (fun pc : PendingClient =>
    pc.clientSalt == clientSalt && pc.socketAddr == clientAddr)
      (fun pc => (pc.pickleback.processIncomingPacket header rest).map
        fun r => ({ pc with pickleback := r.1 }, r.2)) s.pendingClients with
  | .error q => .error q
  | .ok (some (pendingClients, r)) => .ok ({ s with pendingClients := pendingClients }, r)
  | .ok none =>
    match (Endpoint.new s.overflowChecks .default s.time).processIncomingPacket header rest with
    | .error q => .error q
    | .ok (_, .error e) => .ok (s, .error e)
    | .ok (p, .ok ()) =>
      .ok ({ s with pendingClients := s.pendingClients ++ [{
        clientSalt := clientSalt
        serverSalt := salt
        firstRequestedTime := s.time
        lastChallengedAt := 0
        socketAddr := clientAddr
        pickleback := p }] }, .ok ())

/-- `PicklebackServer::take_pending_by_xor_salt`. -/
def takePendingByXorSalt (s : Server) (xorSalt : UInt64) (clientAddr : SocketAddr) :
    Option (PendingClient × List PendingClient) :=
  takeFirst (fun pc => (pc.clientSalt ^^^ pc.serverSalt) == xorSalt && pc.socketAddr == clientAddr)
    s.pendingClients

/-- A pending client whose response came becomes a connected one. It has left the list of pending
clients by then, and on an error it is in neither. -/
def promote (s : Server) (pending : PendingClient) (header : ProtocolPacketHeader)
    (rest : List UInt8)
    (xorSalt : UInt64) (clientAddr : SocketAddr) :
    Except Panic (Server × Except PicklebackError Unit) :=
  if xorSalt ≠ pending.clientSalt ^^^ pending.serverSalt then .ok (s, .error .invalidPacket)
  else match (pending.pickleback.setXorSalt (some xorSalt)).processIncomingPacket header rest with
    | .error q => .error q
    | .ok (_, .error e) => .ok (s, .error e)
    | .ok (p, .ok ()) =>
      match p.sendControl .keepAlive fun header => .keepAlive header xorSalt 0 with
      | .error q => .error q
      | .ok (_, .error e) => .ok (s, .error e)
      | .ok (p, .ok ()) =>
        .ok ({ s with
          serverEvents := s.serverEvents ++ [.clientConnected xorSalt]
          connectedClients := s.connectedClients ++ [{
            xorSalt := xorSalt
            socketAddr := clientAddr
            confirmed := false
            clientIndex := none
            lastReceivedTime := s.time
            lastSentTime := s.time
            pickleback := p }] }, .ok ())

/-- A `ConnectionChallengeResponse`. -/
def receiveResponse (s : Server) (header : ProtocolPacketHeader)
    (rest : List UInt8) (xorSalt : UInt64)
    (clientAddr : SocketAddr) : Except Panic (Server × Except PicklebackError Unit) :=
  match s.takePendingByXorSalt xorSalt clientAddr with
  | some (pending, pendingClients) =>
    { s with pendingClients := pendingClients }.promote pending header rest xorSalt clientAddr
  | none =>
    -- a duplicate of a response is looked up by the salt alone
    match callOnFirst (fun cc : ConnectedClient => cc.xorSalt == xorSalt)
        (ConnectedClient.processIncomingPacket header rest) s.connectedClients with
    | .error q => .error q
    | .ok (some (connectedClients, r)) => .ok ({ s with connectedClients := connectedClients }, r)
    | .ok none => s.deny clientAddr .handshakeTimeout

/-- `PicklebackServer::remove_connected_client`. -/
def removeConnectedClient (s : Server) (xorSalt : UInt64) (clientAddr : SocketAddr) : Server :=
  match takeFirst (fun cc => cc.xorSalt == xorSalt && cc.socketAddr == clientAddr)
    s.connectedClients with
  | none => s
  | some (cc, connectedClients) =>
    { s with
      connectedClients := connectedClients
      serverEvents := s.serverEvents ++ [.clientDisconnected cc.xorSalt .normal] }

/-- A `KeepAlive` or `Messages` packet, which confirms the client. Without a session it is
discarded. -/
def receiveConnected (s : Server) (header : ProtocolPacketHeader)
    (rest : List UInt8) (xorSalt : UInt64)
    (clientAddr : SocketAddr) : Except Panic (Server × Except PicklebackError Unit) :=
  match callOnFirst (fun cc : ConnectedClient =>
    cc.xorSalt == xorSalt && cc.socketAddr == clientAddr)
      (fun cc => { cc with confirmed := true, lastReceivedTime :=
        s.time }.processIncomingPacket header rest)
      s.connectedClients with
  | .error q => .error q
  | .ok none => .ok (s, .ok ())
  | .ok (some (connectedClients, r)) => .ok ({ s with connectedClients := connectedClients }, r)

/-- The `match packet` of `receive`. -/
def handlePacket (s : Server) (salt : UInt64) (packet : ProtocolPacket) (rest : List UInt8)
    (clientAddr : SocketAddr) : Except Panic (Server × Except PicklebackError Unit) :=
  match packet with
  | .connectionRequest header clientSalt version =>
    if version ≠ protocolVersion then s.deny clientAddr .protocolMismatch
    else s.receiveRequest salt header rest clientSalt clientAddr
  | .connectionChallengeResponse header xorSalt => s.receiveResponse header rest xorSalt clientAddr
  | .disconnect _ xorSalt => .ok (s.removeConnectedClient xorSalt clientAddr, .ok ())
  | .keepAlive header xorSalt _ => s.receiveConnected header rest xorSalt clientAddr
  | .messages header xorSalt => s.receiveConnected header rest xorSalt clientAddr
  | _ => .ok (s, .ok ())

/-- `PicklebackServer::receive`, which draws `salt` for a new client. -/
def receive (s : Server) (salt : UInt64) (bytes : List UInt8) (clientAddr : SocketAddr) :
    Except Panic (Server × Except PicklebackError Unit) :=
  match readPacket bytes with
  | .error e => .ok (s, .error e)
  | .ok (packet, rest) => s.handlePacket salt packet rest clientAddr

/-! ### Runs -/

/-- The calls on a server. An application reaches a connected client by its place in
`connected_clients_mut`. -/
inductive Call where
  /-- `receive`, with the salt it draws if it has to. -/
  | receive (salt : UInt64) (bytes : List UInt8) (clientAddr : SocketAddr)
  | update (dt : Time)
  | visitPacketsToSend
  | disconnectClient (xorSalt : UInt64)
  | sendMessage (clientId : UInt64) (channel : UInt8) (payload : List UInt8)
  | broadcastMessage (channel : UInt8) (payload : List UInt8)
  | drainServerEvents
  /-- `ConnectedClient::send_message`. -/
  | clientSendMessage (n : ℕ) (channel : UInt8) (payload : List UInt8)
  /-- `ConnectedClient::get_messages`. -/
  | getMessages (n : ℕ) (channel : UInt8)
  /-- `ConnectedClient::drain_acks`. -/
  | drainAcks (n : ℕ) (channel : UInt8)

/-- `ConnectedClient::send_message` on one of the connected clients. -/
def clientSendMessage (s : Server) (n : ℕ) (channel : UInt8) (payload : List UInt8) :
    Except Panic Server :=
  match s.connectedClients[n]? with
  | none => .ok s
  | some cc => (cc.sendMessage channel payload).map fun r =>
    { s with connectedClients := s.connectedClients.set n r.1 }

/-- `ConnectedClient::get_messages` on one of the connected clients. -/
def getMessages (s : Server) (n : ℕ) (channel : UInt8) : Server :=
  { s with connectedClients := s.connectedClients.modify n fun cc =>
      { cc with pickleback := (cc.pickleback.drainReceivedMessages channel).1 } }

/-- `ConnectedClient::drain_acks` on one of the connected clients. -/
def drainAcks (s : Server) (n : ℕ) (channel : UInt8) : Server :=
  { s with connectedClients := s.connectedClients.modify n fun cc =>
      { cc with pickleback := (cc.pickleback.drainMessageAcks channel).1 } }

/-- One call. Where the source would panic there is no state afterwards. -/
def step (s : Server) : Call → Except Panic Server
  | .receive salt bytes clientAddr => (s.receive salt bytes clientAddr).map Prod.fst
  | .update dt => s.update dt
  | .visitPacketsToSend => s.visitPacketsToSend.map Prod.fst
  | .disconnectClient xorSalt => s.disconnectClient xorSalt
  | .sendMessage clientId channel payload => (s.sendMessage clientId channel payload).map Prod.fst
  | .broadcastMessage channel payload => s.broadcastMessage channel payload
  | .drainServerEvents => .ok s.drainServerEvents.1
  | .clientSendMessage n channel payload => s.clientSendMessage n channel payload
  | .getMessages n channel => .ok (s.getMessages n channel)
  | .drainAcks n channel => .ok (s.drainAcks n channel)

/-- A series of calls. -/
def run (s : Server) (calls : List Call) : Except Panic Server := calls.foldlM step s

/-! ### Packets of a new client -/

/-- A `ConnectionRequest` without acks. -/
def requestBytes (id : PacketId) (clientSalt : UInt64) : List UInt8 :=
  (ProtocolPacketHeader.newNoAcks id .connectionRequest).write ++ writeU64 clientSalt ++
    writeU64 protocolVersion ++ writeZeroBytes 500

/-- A `ConnectionChallengeResponse` without acks. -/
def responseBytes (id : PacketId) (xorSalt : UInt64) : List UInt8 :=
  (ProtocolPacketHeader.newNoAcks id .connectionChallengeResponse).write ++ writeU64 xorSalt ++
    writeZeroBytes 500

end Server

end Pickleback
