import Pickleback.Lib.Handshake
import Pickleback.Network
import Pickleback.Posting

/-!
# The server in a handshake

The calls on a server as steps of `Lib.Handshake`: its pending clients are the offers that are open,
and its connected clients have sessions. Time withdraws offers, although not always those that are
due; a request makes an offer, and a response turns one into a session. All of this is said about
packets that are *backed*: they say what has happened.

## Main definitions

* `Backed` — a packet says what has happened
* `Server.Follows` — the server follows the abstract handshakes
* `Server.Received` — so does receiving a packet

## Main results

* `Follows.update`, `Follows.visitPacketsToSend` — time, and what is sent
* `Follows.receiveRequest`, `Follows.promote` — requests and responses
* `Follows.receive` — all packets
-/

namespace Pickleback

/-! ### What packets say -/

/-- The id of the session of two salts. -/
def xorOf (clientSalt serverSalt : UInt64) : UInt64 := clientSalt ^^^ serverSalt

variable {ι : Type}

/-- A packet says what has happened. -/
def Backed (S : Setup ι) (σ : Handshake.State ι UInt64) (source : SocketAddr) :
    ProtocolPacket → Prop
  | .connectionRequest _ clientSalt _ => ∃ i, S.clientAddr i = source ∧ (i, clientSalt) ∈ σ.attempts
  | .connectionChallenge _ clientSalt serverSalt =>
    ∃ t ∈ σ.offers, t.clientSalt = clientSalt ∧ t.serverSalt = serverSalt
  | .connectionChallengeResponse _ xorSalt => ∃ t ∈ σ.answers, t.combined xorOf = xorSalt
  | .keepAlive _ xorSalt _ => ∃ t ∈ σ.sessions, t.combined xorOf = xorSalt
  | _ => True

theorem Backed.mono {S : Setup ι} {σ σ' : Handshake.State ι UInt64} (hgrows : Handshake.Grows σ σ')
    {source : SocketAddr} : ∀ packet, Backed S σ source packet → Backed S σ' source packet
  | .connectionRequest _ _ _, ⟨i, hi, hmem⟩ => ⟨i, hi, hgrows.attempts.subset hmem⟩
  | .connectionChallenge _ _ _, ⟨t, ht, heq⟩ => ⟨t, hgrows.offers.subset ht, heq⟩
  | .connectionChallengeResponse _ _, ⟨t, ht, heq⟩ => ⟨t, hgrows.answers.subset ht, heq⟩
  | .keepAlive _ _ _, ⟨t, ht, heq⟩ => ⟨t, hgrows.sessions.subset ht, heq⟩
  | .connectionDenied _ _, _ => trivial
  | .messages _ _, _ => trivial
  | .disconnect _ _, _ => trivial

/-! ### The server -/

section Server

variable {S : Setup ι} {σ σ' : Handshake.State ι UInt64}

/-- A pending client has been offered its salt, and the packets for it say so. -/
structure PendingClient.Follows (S : Setup ι) (σ : Handshake.State ι UInt64) (pc : PendingClient) :
    Prop where
  intact : pc.pickleback.Intact
  posts : pc.pickleback.Posts (Backed S σ S.serverAddr)
  offered : ∃ t ∈ σ.offers, t.clientSalt = pc.clientSalt ∧ t.serverSalt = pc.serverSalt

/-- A connected client has a session. -/
structure ConnectedClient.Follows (S : Setup ι) (σ : Handshake.State ι UInt64)
    (cc : ConnectedClient) :
    Prop where
  intact : cc.pickleback.Intact
  posts : cc.pickleback.Posts (Backed S σ S.serverAddr)
  session : ∃ t ∈ σ.sessions, t.combined xorOf = cc.xorSalt

theorem PendingClient.Follows.mono {pc : PendingClient} (h : pc.Follows S σ)
    (hgrows : Handshake.Grows σ σ') :
    pc.Follows S σ' := by
  obtain ⟨t, ht, heq⟩ := h.offered
  exact ⟨h.intact, h.posts.mono (Backed.mono hgrows), t, hgrows.offers.subset ht, heq⟩

theorem ConnectedClient.Follows.mono {cc : ConnectedClient} (h : cc.Follows S σ)
    (hgrows : Handshake.Grows σ σ') : cc.Follows S σ' := by
  obtain ⟨t, ht, heq⟩ := h.session
  exact ⟨h.intact, h.posts.mono (Backed.mono hgrows), t, hgrows.sessions.subset ht, heq⟩

/-- What identifies the pending client of an offer. -/
def offerKey (S : Setup ι) (t : Handshake.Ticket ι UInt64) : SocketAddr × UInt64 × UInt64 :=
  (S.clientAddr t.owner, t.clientSalt, t.serverSalt)

/-- What identifies the session of an offer. -/
def sessionKey (S : Setup ι) (t : Handshake.Ticket ι UInt64) : UInt64 × SocketAddr :=
  (t.combined xorOf, S.clientAddr t.owner)

/-- The server follows: its pending clients are the open offers, its connected clients have
sessions, and its packets say what has happened. -/
structure Server.Follows (S : Setup ι) (σ : Handshake.State ι UInt64) (s : Server) : Prop where
  open_eq : s.pendingClients.map PendingClient.key = σ.pending.map (offerKey S)
  pending : ∀ pc ∈ s.pendingClients, pc.Follows S σ
  connected : ∀ cc ∈ s.connectedClients, cc.Follows S σ
  outbox : ∀ packet ∈ s.outbox, Reads (Backed S σ S.serverAddr) packet.2

theorem Endpoint.Posts.processIncomingPacket {P : ProtocolPacket → Prop}
    {p p' : Endpoint} (h : p.Posts P)
    {header : ProtocolPacketHeader} {rest : List UInt8} {r : Except PicklebackError Unit}
    (hcall : p.processIncomingPacket header rest = .ok (p', r)) : p'.Posts P :=
  h.of_outbox (Endpoint.sameSetup_processIncomingPacket hcall).outbox

/-! ### Calls on one client of the server -/

theorem PendingClient.Follows.process {pc pc' : PendingClient} (h : pc.Follows S σ) {time dt : Time}
    {expired : Bool} (hcall : pc.process time dt = .ok (pc', expired)) : pc'.Follows S σ := by
  have hposts : (pc.pickleback.update dt).Posts (Backed S σ S.serverAddr) := h.posts.of_outbox rfl
  simp only [PendingClient.process] at hcall
  split at hcall
  · cases hcall
    exact ⟨h.intact.update dt, hposts, h.offered⟩
  · split at hcall
    · obtain ⟨⟨p, r⟩, hp, heq⟩ := exists_of_map_eq_ok hcall
      cases heq
      refine ⟨(h.intact.update dt).sendControl hp, hposts.sendControl ?_ ?_ hp, h.offered⟩
      · exact ⟨fun _ => rfl, fun _ => rfl, fun _ _ => rfl⟩
      · exact fun _ => h.offered
    · cases hcall
      exact ⟨h.intact.update dt, hposts, h.offered⟩

theorem PendingClient.key_process {pc pc' : PendingClient} {time dt : Time} {expired : Bool}
    (hcall : pc.process time dt = .ok (pc', expired)) : pc'.key = pc.key := by
  simp only [PendingClient.process] at hcall
  split at hcall
  · cases hcall
    rfl
  · split at hcall
    · obtain ⟨r, -, heq⟩ := exists_of_map_eq_ok hcall
      cases heq
      rfl
    · cases hcall
      rfl

namespace ConnectedClient.Follows

variable {cc cc' : ConnectedClient}

theorem keepAlive (h : cc.Follows S σ) (hcall : cc.keepAlive = .ok cc') : cc'.Follows S σ := by
  obtain ⟨⟨p, r⟩, hp, rfl⟩ := exists_of_map_eq_ok hcall
  refine ⟨h.intact.sendControl hp, h.posts.sendControl ?_ ?_ hp, h.session⟩
  · exact ⟨fun _ => rfl, fun _ => rfl, fun _ _ => rfl⟩
  · exact fun _ => h.session

theorem process (h : cc.Follows S σ) {time dt : Time} {u : Unit}
    (hcall : cc.process time dt = .ok (cc', u)) : cc'.Follows S σ := by
  have hupdate : ConnectedClient.Follows S σ { cc with pickleback := cc.pickleback.update dt } :=
    ⟨h.intact.update dt, h.posts.of_outbox rfl, h.session⟩
  simp only [ConnectedClient.process] at hcall
  split at hcall
  · obtain ⟨cc₁, hcc₁, heq⟩ := exists_of_map_eq_ok hcall
    cases heq
    exact hupdate.keepAlive hcc₁
  · cases hcall
    exact hupdate

theorem sendMessage (h : cc.Follows S σ) {channel : UInt8} {payload : List UInt8}
    {r : Except PicklebackError MessageId} (hcall : cc.sendMessage channel payload = .ok (cc', r)) :
    cc'.Follows S σ := by
  obtain ⟨⟨p, r⟩, hp, heq⟩ := exists_of_map_eq_ok hcall
  cases heq
  exact ⟨h.intact.sendMessage hp, h.posts.of_outbox (Endpoint.outbox_sendMessage hp), h.session⟩

theorem processIncomingPacket (h : cc.Follows S σ) {header : ProtocolPacketHeader}
    {rest : List UInt8}
    {r : Except PicklebackError Unit}
    (hcall : cc.processIncomingPacket header rest = .ok (cc', r)) :
    cc'.Follows S σ := by
  obtain ⟨⟨p, r⟩, hp, heq⟩ := exists_of_map_eq_ok hcall
  cases heq
  exact ⟨h.intact.processIncomingPacket hp, h.posts.processIncomingPacket hp, h.session⟩

end ConnectedClient.Follows

/-! ### Calls on the server -/

namespace Server

variable {s s' : Server}

theorem follows_new {overflowChecks : Bool} {time : Time} {config : PicklebackConfig} :
    (Server.new overflowChecks time config).Follows S .start where
  open_eq := rfl
  pending _ hpc := by cases hpc
  connected _ hcc := by cases hcc
  outbox _ hpacket := by cases hpacket

/-- More has been said, and the same offers are open. -/
theorem Follows.mono (h : s.Follows S σ) (hgrows : Handshake.Grows σ σ')
    (hpending : σ'.pending = σ.pending) :
    s.Follows S σ' where
  open_eq := by
    rw [hpending]
    exact h.open_eq
  pending pc hpc := (h.pending pc hpc).mono hgrows
  connected cc hcc := (h.connected cc hcc).mono hgrows
  outbox packet hpacket := (h.outbox packet hpacket).mono (Backed.mono hgrows)

/-- The same clients wait, and nothing but endpoints of connected clients has changed. -/
theorem Follows.of_connected (h : s.Follows S σ) (hpending : s'.pendingClients = s.pendingClients)
    (houtbox : s'.outbox = s.outbox) (hconnected : ∀ cc ∈ s'.connectedClients, cc.Follows S σ) :
    s'.Follows S σ where
  open_eq := by
    rw [hpending]
    exact h.open_eq
  pending := by
    rw [hpending]
    exact h.pending
  connected := hconnected
  outbox := by
    rw [houtbox]
    exact h.outbox

/-- Some of the pending clients are left, and the others are withdrawn offers. -/
theorem Follows.of_sublist (h : s.Follows S σ) {pending : List PendingClient}
    (hpc : ∀ pc ∈ pending, pc.Follows S σ)
    (hsub : (pending.map PendingClient.key).Sublist (s.pendingClients.map PendingClient.key)) :
    ∃ offers, offers.Sublist σ.pending ∧
      Follows S { σ with pending := offers } { s with pendingClients := pending } := by
  rw [h.open_eq] at hsub
  obtain ⟨offers, hoffers, heq⟩ := List.sublist_map_iff.mp hsub
  have hgrows : Handshake.Grows σ { σ with pending := offers } :=
    ⟨.refl _, .refl _, .refl _, .refl _⟩
  refine ⟨offers, hoffers, heq, fun pc hmem => (hpc pc hmem).mono hgrows,
    fun cc hmem => (h.connected cc hmem).mono hgrows, fun packet hmem => ?_⟩
  exact (h.outbox packet hmem).mono (Backed.mono hgrows)

theorem Follows.processPendingClients (h : s.Follows S σ) {dt : Time}
    (hcall : s.processPendingClients dt = .ok s') :
    ∃ offers, offers.Sublist σ.pending ∧ s'.Follows S { σ with pending := offers } ∧
      s'.serverEvents = s.serverEvents := by
  simp only [Server.processPendingClients] at hcall
  split at hcall
  · cases hcall
  · next pending expired heach =>
    obtain ⟨⟨removed, left⟩, hremove, rfl⟩ := exists_of_map_eq_ok hcall
    have hsub := sublist_of_removeAll hremove
    obtain ⟨hpc, -⟩ := callOnEach_forall (Q := fun _ => True)
      (fun hpc hprocess => ⟨PendingClient.Follows.process hpc hprocess, trivial⟩) h.pending heach
    have hkeys := map_callOnEach PendingClient.key_process heach
    obtain ⟨offers, hoffers, hfollows⟩ := h.of_sublist (fun pc hmem => hpc pc (hsub.subset hmem))
      (hkeys ▸ hsub.map PendingClient.key)
    exact ⟨offers, hoffers, hfollows, rfl⟩

/-- A timeout is no connection. -/
theorem filterMap_connectedId_append (events : List ServerEvent) (removed : List ConnectedClient)
    (reason : DisconnectReason) :
    (events ++ removed.map fun cc => ServerEvent.clientDisconnected cc.xorSalt reason).filterMap
      ServerEvent.connectedId? = events.filterMap ServerEvent.connectedId? := by
  rw [List.filterMap_append, List.filterMap_map]
  simp [Function.comp_def, ServerEvent.connectedId?]

theorem Follows.processConnectedClients (h : s.Follows S σ) {dt : Time}
    (hcall : s.processConnectedClients dt = .ok s') : s'.Follows S σ ∧
      s'.serverEvents.filterMap ServerEvent.connectedId? =
        s.serverEvents.filterMap ServerEvent.connectedId? := by
  simp only [Server.processConnectedClients] at hcall
  split at hcall
  · cases hcall
  · next removed left hremove =>
    obtain ⟨⟨connected, us⟩, heach, rfl⟩ := exists_of_map_eq_ok hcall
    have hsub := sublist_of_removeAll hremove
    obtain ⟨hcc, -⟩ := callOnEach_forall (Q := fun _ => True)
      (fun hcc hprocess => ⟨ConnectedClient.Follows.process hcc hprocess, trivial⟩)
      (fun cc hmem => h.connected cc (hsub.subset hmem)) heach
    exact ⟨h.of_connected rfl rfl hcc, filterMap_connectedId_append _ _ _⟩

/-- **Time passes**: offers are withdrawn, clients are lost, and no one is connected. -/
theorem Follows.update (h : s.Follows S σ) {dt : Time} (hcall : s.update dt = .ok s') :
    ∃ offers, offers.Sublist σ.pending ∧ s'.Follows S { σ with pending := offers } ∧
      s'.serverEvents.filterMap ServerEvent.connectedId? =
        s.serverEvents.filterMap ServerEvent.connectedId? := by
  simp only [Server.update] at hcall
  split at hcall
  · cases hcall
  · next s₁ hpending =>
    obtain ⟨offers, hoffers, hfollows, hevents⟩ :=
      (h.of_connected rfl rfl h.connected : Follows S σ { s with time :=
        s.time + dt }).processPendingClients
        hpending
    obtain ⟨hfollows', hevents'⟩ := hfollows.processConnectedClients hcall
    exact ⟨offers, hoffers, hfollows', hevents'.trans (by rw [hevents])⟩

/-- **What the server sends** says what has happened. -/
theorem Follows.visitPacketsToSend (h : s.Follows S σ) {sent : List (SocketAddr × List UInt8)}
    (hcall : s.visitPacketsToSend = .ok (s', sent)) : s'.Follows S σ ∧
      s'.serverEvents = s.serverEvents ∧
      ∀ packet ∈ sent, Reads (Backed S σ S.serverAddr) packet.2 := by
  have haddressed : ∀ {addr : SocketAddr} {packets : List (List UInt8)},
      (∀ bytes ∈ packets, Reads (Backed S σ S.serverAddr) bytes) →
      ∀ packet ∈ packets.map fun bytes => (addr, bytes),
        Reads (Backed S σ S.serverAddr) packet.2 := by
    intro addr packets hpackets packet hmem
    obtain ⟨bytes, hbytes, rfl⟩ := List.mem_map.mp hmem
    exact hpackets bytes hbytes
  simp only [Server.visitPacketsToSend] at hcall
  split at hcall
  · cases hcall
  · next pending sentPending heach =>
    obtain ⟨⟨connected, sentConnected⟩, heach', heq⟩ := exists_of_map_eq_ok hcall
    cases heq
    obtain ⟨hpc, hsent⟩ := callOnEach_forall (P := fun pc => PendingClient.Follows S σ pc)
      (Q := fun packets => ∀ packet ∈ packets, Reads (Backed S σ S.serverAddr) packet.2) (by
        intro pc pc' packets hpc hvisit
        obtain ⟨⟨p, bs⟩, hp, heq⟩ := exists_of_map_eq_ok hvisit
        cases heq
        obtain ⟨hempty, hbs⟩ := hpc.posts.visitPacketsToSend hpc.intact (fun _ _ => trivial) hp
        exact ⟨⟨hpc.intact.visitPacketsToSend hp, Endpoint.posts_of_nil hempty, hpc.offered⟩,
          haddressed hbs⟩) h.pending heach
    obtain ⟨hcc, hsent'⟩ := callOnEach_forall (P := fun cc => ConnectedClient.Follows S σ cc)
      (Q := fun packets => ∀ packet ∈ packets, Reads (Backed S σ S.serverAddr) packet.2) (by
        intro cc cc' packets hcc hvisit
        obtain ⟨⟨p, bs⟩, hp, heq⟩ := exists_of_map_eq_ok hvisit
        cases heq
        obtain ⟨hempty, hbs⟩ := hcc.posts.visitPacketsToSend hcc.intact (fun _ _ => trivial) hp
        exact ⟨⟨hcc.intact.visitPacketsToSend hp, Endpoint.posts_of_nil hempty, hcc.session⟩,
          haddressed hbs⟩) h.connected heach'
    have hkeys : pending.map PendingClient.key = s.pendingClients.map PendingClient.key := by
      refine map_callOnEach ?_ heach
      intro pc pc' packets hvisit
      obtain ⟨r, -, heq⟩ := exists_of_map_eq_ok hvisit
      cases heq
      rfl
    refine ⟨⟨hkeys.trans h.open_eq, hpc, hcc, fun packet hmem => by cases hmem⟩, rfl, ?_⟩
    intro packet hmem
    simp only [List.mem_append, List.mem_flatten] at hmem
    obtain (hmem | ⟨packets, hpackets, hmem⟩) | ⟨packets, hpackets, hmem⟩ := hmem
    · exact h.outbox packet hmem
    · exact hsent packets hpackets packet hmem
    · exact hsent' packets hpackets packet hmem

theorem Follows.disconnectClient (h : s.Follows S σ) {id : UInt64}
    (hcall : s.disconnectClient id = .ok s') :
    s'.Follows S σ ∧ s'.serverEvents = s.serverEvents := by
  simp only [Server.disconnectClient] at hcall
  split at hcall
  · cases hcall
  · cases hcall
    exact ⟨h, rfl⟩
  · next connected u hfirst =>
    cases hcall
    refine ⟨h.of_connected rfl rfl fun cc hmem => ?_, rfl⟩
    refine callOnFirst_forall (P := fun cc => ConnectedClient.Follows S σ cc)
      ?_ h.connected hfirst cc
      (List.mem_of_mem_filter hmem)
    intro cc cc' u' hcc hsend
    obtain ⟨⟨p, r⟩, hp, heq⟩ := exists_of_map_eq_ok hsend
    cases heq
    refine ⟨hcc.intact.sendControl hp, hcc.posts.sendControl ?_ ?_ hp, hcc.session⟩
    · exact ⟨fun _ => rfl, fun _ => rfl, fun _ _ => rfl⟩
    · exact fun _ => trivial

theorem Follows.sendMessage (h : s.Follows S σ) {id : UInt64} {channel : UInt8}
    {payload : List UInt8}
    {r : Except PicklebackError MessageId}
    (hcall : s.sendMessage id channel payload = .ok (s', r)) :
    s'.Follows S σ ∧ s'.serverEvents = s.serverEvents := by
  obtain ⟨r', hfirst, heq⟩ := exists_of_map_eq_ok hcall
  cases r' with
  | none =>
    cases heq
    exact ⟨h, rfl⟩
  | some found =>
    obtain ⟨connected, res⟩ := found
    cases heq
    exact ⟨h.of_connected rfl rfl
      (callOnFirst_forall (fun hcc hsend => hcc.sendMessage hsend) h.connected hfirst), rfl⟩

theorem Follows.broadcastMessage (h : s.Follows S σ) {channel : UInt8} {payload : List UInt8}
    (hcall : s.broadcastMessage channel payload = .ok s') :
    s'.Follows S σ ∧ s'.serverEvents = s.serverEvents := by
  obtain ⟨⟨connected, rs⟩, heach, rfl⟩ := exists_of_map_eq_ok hcall
  obtain ⟨hcc, -⟩ := callOnEach_forall (Q := fun _ => True)
    (fun hcc hsend => ⟨ConnectedClient.Follows.sendMessage hcc hsend, trivial⟩) h.connected heach
  exact ⟨h.of_connected rfl rfl hcc, rfl⟩

/-! ### Packets for the server -/

variable [DecidableEq ι]

/-- Receiving a packet is simulated, and the record of it is right. -/
structure Received (S : Setup ι) (σ : Handshake.State ι UInt64)
    (s : Server) (σ' : Handshake.State ι UInt64)
    (s' : Server) : Prop where
  steps : Relation.ReflTransGen (Handshake.Step xorOf) σ σ'
  follows : s'.Follows S σ'
  attempts : σ'.attempts = σ.attempts
  phase : σ'.phase = σ.phase
  offers : σ'.offers.map Handshake.Ticket.serverSalt = σ.offers.map Handshake.Ticket.serverSalt ++
    (s'.pendingClients.drop s.pendingClients.length).map PendingClient.serverSalt
  sessions : σ'.sessions.map (sessionKey S) = σ.sessions.map (sessionKey S) ++
    (s'.connectedClients.drop s.connectedClients.length).map fun cc => (cc.xorSalt, cc.socketAddr)
  events : s'.serverEvents.filterMap ServerEvent.connectedId? =
    s.serverEvents.filterMap ServerEvent.connectedId? ++
    (s'.connectedClients.drop s.connectedClients.length).map ConnectedClient.xorSalt

/-- Offers may have been withdrawn, and nothing else has happened. -/
theorem received_of_sublist {offers : List (Handshake.Ticket ι UInt64)}
    (hoffers : offers.Sublist σ.pending)
    (h : s'.Follows S { σ with pending := offers })
    (hpending : s'.pendingClients.length ≤ s.pendingClients.length)
    (hconnected : s'.connectedClients.length ≤ s.connectedClients.length)
    (hevents : s'.serverEvents.filterMap ServerEvent.connectedId?
      = s.serverEvents.filterMap ServerEvent.connectedId?) :
    Received S σ s { σ with pending := offers } s' where
  steps := .single (.close hoffers)
  follows := h
  attempts := rfl
  phase := rfl
  offers := by rw [List.drop_eq_nil_of_le hpending, List.map_nil, List.append_nil]
  sessions := by rw [List.drop_eq_nil_of_le hconnected, List.map_nil, List.append_nil]
  events := by rw [List.drop_eq_nil_of_le hconnected, List.map_nil, List.append_nil, hevents]

/-- Nothing has happened. -/
theorem received_of_follows (h : s'.Follows S σ)
    (hpending : s'.pendingClients.length ≤ s.pendingClients.length)
    (hconnected : s'.connectedClients.length ≤ s.connectedClients.length)
    (hevents : s'.serverEvents.filterMap ServerEvent.connectedId?
      = s.serverEvents.filterMap ServerEvent.connectedId?) : Received S σ s σ s' :=
  received_of_sublist (List.Sublist.refl σ.pending) h hpending hconnected hevents

theorem Follows.deny (h : s.Follows S σ) {addr : SocketAddr} {reason : DisconnectReason}
    {r : Except PicklebackError Unit} (hcall : s.deny addr reason = .ok (s', r)) :
    Received S σ s σ s' := by
  simp only [Server.deny] at hcall
  split at hcall
  · cases hcall
  · cases hcall
    exact received_of_follows (h.of_connected rfl rfl h.connected) le_rfl le_rfl rfl
  · next pool denied hwrite =>
    cases hcall
    refine received_of_follows ⟨h.open_eq, h.pending, h.connected, ?_⟩ le_rfl le_rfl rfl
    intro packet hmem
    rcases List.mem_append.mp hmem with hmem | hmem
    · exact h.outbox packet hmem
    · rw [List.mem_singleton.mp hmem]
      have hbuild : Builds .connectionDenied fun header => .connectionDenied header reason :=
        ⟨fun _ => rfl, fun _ => rfl, fun _ _ => rfl⟩
      exact hbuild.reads (fun _ => trivial) (Or.inr ⟨0, rfl⟩) (writePacket_eq_ok hwrite).1

/-- Endpoints of connected clients have changed, and nothing else has happened. -/
theorem Follows.received_connected (h : s.Follows S σ) {connected : List ConnectedClient}
    (hcc : ∀ cc ∈ connected, cc.Follows S σ)
    (hlength : connected.length ≤ s.connectedClients.length) :
    Received S σ s σ { s with connectedClients := connected } :=
  received_of_follows (h.of_connected rfl rfl hcc) le_rfl hlength rfl

/-- **A request** that is backed makes an offer, or leaves one open. -/
theorem Follows.receiveRequest (h : s.Follows S σ) {salt clientSalt : UInt64}
    {header : ProtocolPacketHeader}
    {rest : List UInt8} {addr : SocketAddr} {i : ι} (haddr : S.clientAddr i = addr)
    (hattempt : (i, clientSalt) ∈ σ.attempts) {r : Except PicklebackError Unit}
    (hcall : s.receiveRequest salt header rest clientSalt addr = .ok (s', r)) :
    ∃ σ', Received S σ s σ' s' := by
  simp only [Server.receiveRequest] at hcall
  split at hcall
  · cases hcall
  · next pending r' hfirst =>
    cases hcall
    have hkeys : pending.map PendingClient.key = s.pendingClients.map PendingClient.key := by
      refine map_callOnFirst ?_ hfirst
      intro pc pc' r' hprocess
      obtain ⟨r, -, heq⟩ := exists_of_map_eq_ok hprocess
      cases heq
      rfl
    have hpc : ∀ pc ∈ pending, pc.Follows S σ := by
      refine callOnFirst_forall ?_ h.pending hfirst
      intro pc pc' r' hpc hprocess
      obtain ⟨⟨p, r''⟩, hp, heq⟩ := exists_of_map_eq_ok hprocess
      cases heq
      exact ⟨hpc.intact.processIncomingPacket hp, hpc.posts.processIncomingPacket hp, hpc.offered⟩
    have hlength : pending.length = s.pendingClients.length := by
      simpa using congrArg List.length hkeys
    exact ⟨σ, received_of_follows ⟨hkeys.trans h.open_eq, hpc, h.connected, h.outbox⟩
      hlength.le le_rfl rfl⟩
  · split at hcall
    · cases hcall
    · cases hcall
      exact ⟨σ, received_of_follows h le_rfl le_rfl rfl⟩
    · next p hp =>
      cases hcall
      have hstep := Handshake.Step.offer (f := xorOf) σ salt hattempt
      have hgrows := hstep.grows
      have hnew : Endpoint.Posts (Backed S σ S.serverAddr)
        (Endpoint.new s.overflowChecks .default s.time) :=
        Endpoint.posts_of_nil rfl
      refine ⟨_, .single hstep, ⟨?_, ?_, ?_, ?_⟩, rfl, rfl, ?_, ?_, ?_⟩
      · rw [List.map_append, List.map_append, h.open_eq, ← haddr]
        rfl
      · intro pc hmem
        rcases List.mem_append.mp hmem with hmem | hmem
        · exact (h.pending pc hmem).mono hgrows
        · rw [List.mem_singleton.mp hmem]
          refine ⟨(Endpoint.intact_new _ _).processIncomingPacket hp,
            (hnew.processIncomingPacket hp).mono (Backed.mono hgrows), _,
            List.mem_append_right _ (List.mem_singleton_self _), rfl, rfl⟩
      · exact fun cc hmem => (h.connected cc hmem).mono hgrows
      · exact fun packet hmem => (h.outbox packet hmem).mono (Backed.mono hgrows)
      · rw [List.drop_left, List.map_append]
        rfl
      · rw [List.drop_length, List.map_nil, List.append_nil]
      · rw [List.drop_length, List.map_nil, List.append_nil]

/-- **A response** to an open offer that is backed makes a session, or the offer is lost. -/
theorem Follows.promote {pending : PendingClient} {before after : List PendingClient}
    (h : s.Follows S σ)
    (heq : s.pendingClients = before ++ pending :: after) {header : ProtocolPacketHeader}
    {rest : List UInt8}
    {xorSalt : UInt64} {addr : SocketAddr}
    (hxor : pending.clientSalt ^^^ pending.serverSalt = xorSalt)
    (haddr : pending.socketAddr = addr) (hback : ∃ t ∈ σ.answers, t.combined xorOf = xorSalt)
    {r : Except PicklebackError Unit}
    (hcall : { s with pendingClients := before ++ after }.promote pending header rest xorSalt addr =
      .ok (s', r)) :
    ∃ σ', Received S σ s σ' s' := by
  have hpending :=
    h.pending pending (by rw [heq]; exact List.mem_append_right _ (List.mem_cons_self ..))
  have hopen := h.open_eq
  rw [heq] at hopen
  obtain ⟨offers₁, offers₂', hsplit, hkeys₁, hkeys₂'⟩ := List.map_eq_append_iff.mp
    (hopen.symm.trans List.map_append)
  obtain ⟨t, offers₂, rfl, ht, hkeys₂⟩ := List.map_eq_cons_iff.mp (hkeys₂'.trans List.map_cons)
  have hsub : (offers₁ ++ offers₂).Sublist σ.pending := by
    rw [hsplit]
    exact List.Sublist.append_left (List.sublist_cons_self t offers₂) offers₁
  have hfollows : Follows S { σ with pending := offers₁ ++ offers₂ }
      { s with pendingClients := before ++ after } := by
    have hgrows : Handshake.Grows σ { σ with pending := offers₁ ++ offers₂ } :=
      ⟨.refl _, .refl _, .refl _, .refl _⟩
    refine ⟨?_, fun pc hmem => (h.pending pc ?_).mono hgrows, fun cc hmem =>
      (h.connected cc hmem).mono hgrows,
      fun packet hmem => (h.outbox packet hmem).mono (Backed.mono hgrows)⟩
    · rw [List.map_append, List.map_append, hkeys₁, hkeys₂]
    · rw [heq]
      exact (List.Sublist.append_left (List.sublist_cons_self pending after) before).subset hmem
  have hshorter : (before ++ after).length ≤ s.pendingClients.length := by
    rw [heq, List.length_append, List.length_append, List.length_cons]
    omega
  have hlost : Received S σ s { σ with pending := offers₁ ++ offers₂ }
      { s with pendingClients := before ++ after } :=
    received_of_sublist hsub hfollows hshorter le_rfl rfl
  simp only [Server.promote] at hcall
  split at hcall
  · cases hcall
    exact ⟨_, hlost⟩
  · split at hcall
    · cases hcall
    · cases hcall
      exact ⟨_, hlost⟩
    · next p hp =>
      split at hcall
      · cases hcall
      · cases hcall
        exact ⟨_, hlost⟩
      · next p' hp' =>
        cases hcall
        obtain ⟨hold, hclient, hserver⟩ : S.clientAddr t.owner = pending.socketAddr ∧
            t.clientSalt = pending.clientSalt ∧ t.serverSalt = pending.serverSalt := by
          simpa [offerKey, PendingClient.key] using ht
        have hcombined : t.combined xorOf = xorSalt := by
          rw [Handshake.Ticket.combined, hclient, hserver]
          exact hxor
        obtain ⟨t', ht', heq'⟩ := hback
        have hstep := Handshake.Step.accept (f := xorOf) hsplit ht' (heq'.trans hcombined.symm)
        have hgrows : Handshake.Grows { σ with pending := offers₁ ++ offers₂ } { σ with
            pending := offers₁ ++ offers₂
            sessions := σ.sessions ++ [t] } :=
              ⟨.refl _, .refl _, .refl _, List.sublist_append_left _ _⟩
        have hmem : t ∈ σ.sessions ++ [t] := List.mem_append_right _ (List.mem_singleton_self t)
        have hintact :=
          (hpending.intact.step (c := .setXorSalt (some xorSalt)) rfl).processIncomingPacket hp
        have hset : (pending.pickleback.setXorSalt (some xorSalt)).Posts
          (Backed S σ S.serverAddr) :=
          hpending.posts.of_outbox rfl
        have hposts := (hset.processIncomingPacket hp).mono (Backed.mono hstep.grows)
        have hnew := hfollows.mono hgrows rfl
        refine ⟨_, .single hstep, ⟨hnew.open_eq, hnew.pending, ?_, hnew.outbox⟩,
          rfl, rfl, ?_, ?_, ?_⟩
        · intro cc hcc
          rcases List.mem_append.mp hcc with hcc | hcc
          · exact hnew.connected cc hcc
          · rw [List.mem_singleton.mp hcc]
            refine ⟨hintact.sendControl hp', hposts.sendControl ?_ ?_ hp', t, hmem, hcombined⟩
            · exact ⟨fun _ => rfl, fun _ => rfl, fun _ _ => rfl⟩
            · exact fun _ => ⟨t, hmem, hcombined⟩
        · rw [List.drop_eq_nil_of_le hshorter, List.map_nil, List.append_nil]
        · rw [List.drop_left, List.map_append, List.map_singleton,
            List.map_singleton, sessionKey, hcombined,
            hold, haddr]
        · rw [List.drop_left, List.filterMap_append]
          rfl

/-- **A response**, whatever the server knows of it. -/
theorem Follows.receiveResponse (h : s.Follows S σ) {header : ProtocolPacketHeader}
    {rest : List UInt8}
    {xorSalt : UInt64} {addr : SocketAddr} (hback : ∃ t ∈ σ.answers, t.combined xorOf = xorSalt)
    {r : Except PicklebackError Unit}
    (hcall : s.receiveResponse header rest xorSalt addr = .ok (s', r)) :
    ∃ σ', Received S σ s σ' s' := by
  simp only [Server.receiveResponse] at hcall
  split at hcall
  · next pending left htake =>
    obtain ⟨before, after, heq, rfl, htest⟩ := takeFirst_cases htake
    rw [Bool.and_eq_true, beq_iff_eq, beq_iff_eq] at htest
    exact h.promote heq htest.1 htest.2 hback hcall
  · split at hcall
    · cases hcall
    · next connected r' hfirst =>
      cases hcall
      have hcc := callOnFirst_forall (fun hcc hprocess =>
        ConnectedClient.Follows.processIncomingPacket hcc hprocess)
        h.connected hfirst
      obtain ⟨before, cc, cc', after, heq, rfl, -⟩ := callOnFirst_cases hfirst
      exact ⟨σ, h.received_connected hcc (by rw [heq]; simp)⟩
    · exact ⟨σ, h.deny hcall⟩

theorem Follows.removeConnectedClient (h : s.Follows S σ) (xorSalt : UInt64) (addr : SocketAddr) :
    Received S σ s σ (s.removeConnectedClient xorSalt addr) := by
  rw [Server.removeConnectedClient]
  split
  · exact received_of_follows h le_rfl le_rfl rfl
  · next cc left htake =>
    obtain ⟨before, after, heq, rfl, -⟩ := takeFirst_cases htake
    have hsub : (before ++ after).Sublist s.connectedClients := by
      rw [heq]
      exact List.Sublist.append_left (List.sublist_cons_self cc after) before
    refine received_of_follows (h.of_connected rfl rfl fun cc' hmem =>
      h.connected cc' (hsub.subset hmem)) le_rfl
      hsub.length_le ?_
    exact filterMap_connectedId_append _ [cc] _

theorem Follows.receiveConnected (h : s.Follows S σ) {header : ProtocolPacketHeader}
    {rest : List UInt8}
    {xorSalt : UInt64} {addr : SocketAddr} {r : Except PicklebackError Unit}
    (hcall : s.receiveConnected header rest xorSalt addr = .ok (s', r)) : Received S σ s σ s' := by
  simp only [Server.receiveConnected] at hcall
  split at hcall
  · cases hcall
  · cases hcall
    exact received_of_follows h le_rfl le_rfl rfl
  · next connected r' hfirst =>
    cases hcall
    have hcc : ∀ cc ∈ connected, cc.Follows S σ := by
      refine callOnFirst_forall ?_ h.connected hfirst
      intro cc cc' r' hcc hprocess
      refine ConnectedClient.Follows.processIncomingPacket ?_ hprocess
      exact ⟨hcc.intact, hcc.posts, hcc.session⟩
    obtain ⟨before, cc, cc', after, heq, rfl, -⟩ := callOnFirst_cases hfirst
    exact h.received_connected hcc (by rw [heq]; simp)

/-- **A packet for the server** that says what has happened. -/
theorem Follows.receive (h : s.Follows S σ) {salt : UInt64} {bytes : List UInt8} {addr : SocketAddr}
    (hback : Reads (Backed S σ addr) bytes) {r : Except PicklebackError Unit}
    (hcall : s.receive salt bytes addr = .ok (s', r)) : ∃ σ', Received S σ s σ' s' := by
  have hquiet : Received S σ s σ s := received_of_follows h le_rfl le_rfl rfl
  simp only [Server.receive] at hcall
  split at hcall
  · cases hcall
    exact ⟨σ, hquiet⟩
  · next packet rest hread =>
    have hpacket := hback packet rest hread
    cases packet with
    | connectionRequest header clientSalt version =>
      obtain ⟨i, haddr, hattempt⟩ := hpacket
      simp only [Server.handlePacket] at hcall
      split at hcall
      · exact ⟨σ, h.deny hcall⟩
      · exact h.receiveRequest haddr hattempt hcall
    | connectionChallengeResponse header xorSalt => exact h.receiveResponse hpacket hcall
    | disconnect header xorSalt =>
      cases hcall
      exact ⟨σ, h.removeConnectedClient xorSalt addr⟩
    | keepAlive header xorSalt index => exact ⟨σ, h.receiveConnected hcall⟩
    | messages header xorSalt => exact ⟨σ, h.receiveConnected hcall⟩
    | connectionChallenge header clientSalt serverSalt =>
      cases hcall
      exact ⟨σ, hquiet⟩
    | connectionDenied header reason =>
      cases hcall
      exact ⟨σ, hquiet⟩

end Server

end Server

end Pickleback
