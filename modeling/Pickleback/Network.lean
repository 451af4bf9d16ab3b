import Pickleback.Server

/-!
# A server, its clients and the network

One server and any number of clients, each at its address, and all packets that were ever sent. The
network loses, repeats, reorders and delays: any packet sent so far may be delivered at any time, or
never. It delivers a packet to its addressee only, and neither forges nor alters anything.

Besides the parties and the network the state has a record of what happened: the calls of `connect`
with the salts they drew, the salts the server drew for the clients it took in, the sessions it
opened, and the events that an application has drained.

## Main definitions

* `Setup`, `World`, `World.start` — the parties
* `World.Call`, `World.step`, `World.run` — what they do, in any order
* `World.pushed` — all events the server has pushed
* `World.SaltsDistinct` — the luck of the draw
-/

namespace Pickleback

/-- A packet in the network. -/
structure Datagram where
  source : SocketAddr
  destination : SocketAddr
  bytes : List UInt8

/-- Where the parties are, and how they are built and configured. -/
structure Setup (ι : Type) where
  serverAddr : SocketAddr
  clientAddr : ι → SocketAddr
  serverChecks : Bool
  serverTime : Time
  serverConfig : PicklebackConfig
  clientChecks : ι → Bool
  clientTime : ι → Time
  clientConfig : ι → PicklebackConfig

/-- The parties, the network and the record. -/
structure World (ι : Type) where
  server : Server
  client : ι → Client
  /-- All packets sent so far. -/
  net : List Datagram
  /-- The calls of `connect`, with the salts they drew. -/
  attempts : List (ι × UInt64)
  /-- The salts drawn for clients that became pending. -/
  serverSalts : List UInt64
  /-- The sessions the server has opened: id and address. -/
  sessions : List (UInt64 × SocketAddr)
  /-- The events that were drained. -/
  drained : List ServerEvent

/-- The id in a `ClientConnected` event. -/
def ServerEvent.connectedId? : ServerEvent → Option UInt64
  | .clientConnected id => some id
  | .clientDisconnected _ _ => none

namespace World

variable {ι : Type}

/-- Before any call. -/
def start (S : Setup ι) : World ι where
  server := Server.new S.serverChecks S.serverTime S.serverConfig
  client i := Client.new (S.clientChecks i) (S.clientTime i) (S.clientConfig i)
  net := []
  attempts := []
  serverSalts := []
  sessions := []
  drained := []

/-- All events the server has pushed. -/
def pushed (w : World ι) : List ServerEvent := w.drained ++ w.server.serverEvents

/-- The ids of the `ClientConnected` events. -/
def connectedIds (w : World ι) : List UInt64 := w.pushed.filterMap ServerEvent.connectedId?

/-- The ids of the `ClientConnected` events that arise from a call of `connect` that drew
`clientSalt`. -/
def arisingFrom (w : World ι) (clientSalt : UInt64) : List UInt64 :=
  w.connectedIds.filter fun id => w.serverSalts.any fun serverSalt =>
    clientSalt ^^^ serverSalt == id

/-- All salts are distinct, and distinct pairs of a client's and a server's salt have distinct
xors. -/
structure SaltsDistinct (w : World ι) : Prop where
  salts : (w.attempts.map Prod.snd ++ w.serverSalts).Nodup
  xors : ∀ c ∈ w.attempts.map Prod.snd, ∀ s ∈ w.serverSalts, ∀ c' ∈ w.attempts.map Prod.snd,
    ∀ s' ∈ w.serverSalts, c ^^^ s = c' ^^^ s' → c = c' ∧ s = s'

/-- A test for `SaltsDistinct`, over the salts that were drawn. -/
def saltsDistinct (w : World ι) : Bool :=
  decide (w.attempts.map Prod.snd ++ w.serverSalts).Nodup &&
    (w.attempts.map Prod.snd).all fun c => w.serverSalts.all fun s =>
      (w.attempts.map Prod.snd).all fun c' =>
      w.serverSalts.all fun s' => decide (c ^^^ s = c' ^^^ s' → c = c' ∧ s = s')

theorem saltsDistinct_iff (w : World ι) : w.saltsDistinct = true ↔ w.SaltsDistinct := by
  simp only [saltsDistinct, Bool.and_eq_true, List.all_eq_true, decide_eq_true_eq]
  exact ⟨fun h => ⟨h.1, h.2⟩, fun h => ⟨h.salts, h.xors⟩⟩

instance (w : World ι) : Decidable w.SaltsDistinct := decidable_of_iff _ w.saltsDistinct_iff

/-- The calls. A packet to receive is given by its place in the network. -/
inductive Call (ι : Type) where
  /-- `connect`, with the salt it draws. -/
  | connect (i : ι) (serverAddr : SocketAddr) (salt : UInt64)
  | disconnect (i : ι)
  | update (i : ι) (dt : Time)
  | receive (i : ι) (n : ℕ)
  | visitPacketsToSend (i : ι)
  | serverUpdate (dt : Time)
  /-- `receive` of the server, with the salt it draws if it has to. -/
  | serverReceive (n : ℕ) (salt : UInt64)
  | serverVisitPacketsToSend
  | disconnectClient (id : UInt64)
  | sendMessage (id : UInt64) (channel : UInt8) (payload : List UInt8)
  | broadcastMessage (channel : UInt8) (payload : List UInt8)
  | drainServerEvents

/-- The server after receiving a packet. Clients it has taken in or connected stand at the end of
its lists. -/
def received (w : World ι) (s : Server) : World ι :=
  { w with
    server := s
    serverSalts := w.serverSalts ++
      (s.pendingClients.drop w.server.pendingClients.length).map PendingClient.serverSalt
    sessions := w.sessions ++
      (s.connectedClients.drop w.server.connectedClients.length).map fun cc =>
        (cc.xorSalt, cc.socketAddr) }

variable [DecidableEq ι]

/-- Another state of one client. -/
def setClient (w : World ι) (i : ι) (c : Client) : World ι :=
  { w with client := Function.update w.client i c }

/-- One call. Where the source would panic there is no state afterwards; a packet that is not there,
or not for the one who would receive it, changes nothing. -/
def step (S : Setup ι) (w : World ι) : Call ι → Except Panic (World ι)
  | .connect i serverAddr salt =>
    .ok { w.setClient i ((w.client i).connect serverAddr salt) with attempts :=
      w.attempts ++ [(i, salt)] }
  | .disconnect i => .ok (w.setClient i (w.client i).disconnect)
  | .update i dt => .ok (w.setClient i ((w.client i).update dt))
  | .receive i n =>
    match w.net[n]? with
    | none => .ok w
    | some d =>
      if d.destination = S.clientAddr i then
        ((w.client i).receive d.bytes d.source).map fun r => w.setClient i r.1
      else .ok w
  | .visitPacketsToSend i =>
    (w.client i).visitPacketsToSend.map fun r =>
      { w.setClient i r.1 with net := w.net ++ r.2.map fun p => ⟨S.clientAddr i, p.1, p.2⟩ }
  | .serverUpdate dt => (w.server.update dt).map fun s => { w with server := s }
  | .serverReceive n salt =>
    match w.net[n]? with
    | none => .ok w
    | some d =>
      if d.destination = S.serverAddr then
        (w.server.receive salt d.bytes d.source).map fun r => w.received r.1
      else .ok w
  | .serverVisitPacketsToSend =>
    w.server.visitPacketsToSend.map fun r =>
      { w with server := r.1, net := w.net ++ r.2.map fun p => ⟨S.serverAddr, p.1, p.2⟩ }
  | .disconnectClient id => (w.server.disconnectClient id).map fun s => { w with server := s }
  | .sendMessage id channel payload =>
    (w.server.sendMessage id channel payload).map fun r => { w with server := r.1 }
  | .broadcastMessage channel payload =>
    (w.server.broadcastMessage channel payload).map fun s => { w with server := s }
  | .drainServerEvents =>
    .ok { w with
      server := w.server.drainServerEvents.1
      drained := w.drained ++ w.server.drainServerEvents.2 }

/-- A series of calls. -/
def run (S : Setup ι) (w : World ι) (calls : List (Call ι)) : Except Panic (World ι) :=
  calls.foldlM (step S) w

end World

end Pickleback
