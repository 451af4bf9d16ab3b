import Pickleback.Calls
import Pickleback.Server

/-!
# What a packet does to the sessions of a server

`receive` looks clients up in different ways, calls their endpoints, and moves a client from one
list to the other. All that it can do is listed once, as a relation; what it does to the sessions of
other addresses, and to any session when it fails, is read off.

## Main definitions

* `Server.Receives` — the ways in which `receive` can return
* `Server.UntouchedBut`, `Server.KeepsSessions` — what should hold of the server afterwards
* `Server.HearsStranger`, `Server.AnswersOffer` — the packets for which it may not

## Main results

* `Server.receive_cases` — `receive` returns in one of these ways
* `Server.receive_untouchedBut_iff` — exactly when other addresses are not affected
* `Server.receive_keepsSessions_iff` — exactly when no session is lost to an error
-/

namespace Pickleback

namespace Server

/-! ### The ways to return -/

/-- How `receive` can return, after a packet from `addr` was read. -/
inductive Receives (s : Server) (addr : SocketAddr) (rest : List UInt8) :
    ProtocolPacket → Server → Except PicklebackError Unit → Prop
  /-- The packet is discarded, or its answer cannot be written. -/
  | nothing {packet : ProtocolPacket} {pool : BufPool} {r : Except PicklebackError Unit} :
    Receives s addr rest packet { s with pool := pool } r
  /-- The client is not let in. -/
  | denied {packet : ProtocolPacket} {reason : DisconnectReason}
    {pool : BufPool} {buf : PooledBuffer}
    (hwrite : writePacket s.pool s.config
      (.connectionDenied (.newNoAcks 0 .connectionDenied) reason)
      = .ok (pool, .ok buf)) :
    Receives s addr rest packet { s with
      outbox := s.outbox ++ [(addr, buf.data)]
      pool := pool.returnBuffer buf } (.ok ())
  /-- A request of a client that is pending already. -/
  | requestAgain {header : ProtocolPacketHeader} {clientSalt version : UInt64} {pc : PendingClient}
    {before after : List PendingClient} {p : Endpoint} {r : Except PicklebackError Unit}
    (hpending : s.pendingClients = before ++ pc :: after) (haddr : pc.socketAddr = addr)
    (hp : pc.pickleback.processIncomingPacket header rest = .ok (p, r)) :
    Receives s addr rest (.connectionRequest header clientSalt version)
      { s with pendingClients := before ++ { pc with pickleback := p } :: after } r
  /-- A request of a new client, which becomes pending. -/
  | request {header : ProtocolPacketHeader} {clientSalt version salt : UInt64} {p : Endpoint}
    (hp : (Endpoint.new s.overflowChecks .default s.time).processIncomingPacket header rest =
      .ok (p, .ok ())) :
    Receives s addr rest (.connectionRequest header clientSalt version)
      { s with pendingClients := s.pendingClients ++ [{
          clientSalt := clientSalt
          serverSalt := salt
          firstRequestedTime := s.time
          lastChallengedAt := 0
          socketAddr := addr
          pickleback := p }] } (.ok ())
  /-- A response to the challenge of a pending client that fails. -/
  | lost {header : ProtocolPacketHeader} {xorSalt : UInt64} {pc : PendingClient}
    {before after : List PendingClient} {e : PicklebackError}
    (hpending : s.pendingClients = before ++ pc :: after)
    (htake : s.takePendingByXorSalt xorSalt addr = some (pc, before ++ after))
    (haddr : pc.socketAddr = addr) :
    Receives s addr rest (.connectionChallengeResponse header xorSalt)
      { s with pendingClients := before ++ after } (.error e)
  /-- A response to the challenge of a pending client, which becomes connected. -/
  | response {header : ProtocolPacketHeader} {xorSalt : UInt64} {pc : PendingClient}
    {before after : List PendingClient} {p p' : Endpoint}
    (hpending : s.pendingClients = before ++ pc :: after)
    (htake : s.takePendingByXorSalt xorSalt addr = some (pc, before ++ after))
    (haddr : pc.socketAddr = addr) (hxor : pc.clientSalt ^^^ pc.serverSalt = xorSalt)
    (hp : (pc.pickleback.setXorSalt (some xorSalt)).processIncomingPacket header rest =
      .ok (p, .ok ()))
    (hp' : p.sendControl .keepAlive (fun header => .keepAlive header xorSalt 0) =
      .ok (p', .ok ())) :
    Receives s addr rest (.connectionChallengeResponse header xorSalt)
      { s with
        pendingClients := before ++ after
        serverEvents := s.serverEvents ++ [.clientConnected xorSalt]
        connectedClients := s.connectedClients ++ [{
          xorSalt := xorSalt
          socketAddr := addr
          confirmed := false
          clientIndex := none
          lastReceivedTime := s.time
          lastSentTime := s.time
          pickleback := p' }] } (.ok ())
  /-- A response with the salt of a connected client, from any address. -/
  | responseAgain {header : ProtocolPacketHeader} {xorSalt : UInt64} {cc : ConnectedClient}
    {before after : List ConnectedClient} {p : Endpoint} {r : Except PicklebackError Unit}
    (hconnected : s.connectedClients = before ++ cc :: after)
    (htake : s.takePendingByXorSalt xorSalt addr = none)
    (hfind : (s.connectedClients.find? fun cc => cc.xorSalt == xorSalt) = some cc)
    (hp : cc.pickleback.processIncomingPacket header rest = .ok (p, r)) :
    Receives s addr rest (.connectionChallengeResponse header xorSalt)
      { s with connectedClients := before ++ { cc with pickleback := p } :: after } r
  /-- A keep-alive or a packet of messages, from a connected client. -/
  | heard {packet : ProtocolPacket} {cc : ConnectedClient} {before after : List ConnectedClient}
    {p : Endpoint}
    {r : Except PicklebackError Unit} (hconnected : s.connectedClients = before ++ cc :: after)
    (haddr : cc.socketAddr = addr)
    (hp : cc.pickleback.processIncomingPacket packet.header rest = .ok (p, r)) :
    Receives s addr rest packet
      { s with connectedClients := before ++ { cc with
          confirmed := true
          lastReceivedTime := s.time
          pickleback := p } :: after } r
  /-- A connected client leaves. -/
  | left {header : ProtocolPacketHeader} {xorSalt : UInt64} {cc : ConnectedClient}
    {before after : List ConnectedClient} (hconnected : s.connectedClients = before ++ cc :: after)
    (haddr : cc.socketAddr = addr) (hsalt : cc.xorSalt = xorSalt) :
    Receives s addr rest (.disconnect header xorSalt)
      { s with
        connectedClients := before ++ after
        serverEvents := s.serverEvents ++ [.clientDisconnected xorSalt .normal] } (.ok ())

section Cases

variable {s s' : Server} {salt xorSalt : UInt64} {header : ProtocolPacketHeader} {rest : List UInt8}
  {addr : SocketAddr} {r : Except PicklebackError Unit} {packet : ProtocolPacket}

theorem deny_cases {reason : DisconnectReason} (hcall : s.deny addr reason = .ok (s', r)) :
    s.Receives addr rest packet s' r := by
  simp only [deny] at hcall
  split at hcall
  · cases hcall
  · cases hcall
    exact .nothing
  · next hwrite =>
    cases hcall
    exact .denied hwrite

theorem receiveRequest_cases {clientSalt version : UInt64}
    (hcall : s.receiveRequest salt header rest clientSalt addr = .ok (s', r)) :
    s.Receives addr rest (.connectionRequest header clientSalt version) s' r := by
  simp only [receiveRequest] at hcall
  split at hcall
  · cases hcall
  · next hfirst =>
    cases hcall
    obtain ⟨before, pc, pc', after, hpending, rfl, htest, hprocess⟩ := callOnFirst_cases hfirst
    obtain ⟨⟨p, r'⟩, hp, heq⟩ := exists_of_map_eq_ok hprocess
    cases heq
    rw [Bool.and_eq_true, beq_iff_eq, beq_iff_eq] at htest
    exact .requestAgain hpending htest.2 hp
  · split at hcall
    · cases hcall
    · cases hcall
      exact .nothing
    · next hp =>
      cases hcall
      exact .request hp

theorem promote_cases {pc : PendingClient} {before after : List PendingClient}
    (hpending : s.pendingClients = before ++ pc :: after)
    (htake : s.takePendingByXorSalt xorSalt addr = some (pc, before ++ after))
    (haddr : pc.socketAddr = addr) (hxor : pc.clientSalt ^^^ pc.serverSalt = xorSalt)
    (hcall : { s with pendingClients := before ++ after }.promote pc header rest xorSalt addr =
      .ok (s', r)) :
    s.Receives addr rest (.connectionChallengeResponse header xorSalt) s' r := by
  simp only [promote] at hcall
  split at hcall
  · cases hcall
    exact .lost hpending htake haddr
  · split at hcall
    · cases hcall
    · cases hcall
      exact .lost hpending htake haddr
    · next hp =>
      split at hcall
      · cases hcall
      · cases hcall
        exact .lost hpending htake haddr
      · next hp' =>
        cases hcall
        exact .response hpending htake haddr hxor hp hp'

theorem receiveResponse_cases (hcall : s.receiveResponse header rest xorSalt addr = .ok (s', r)) :
    s.Receives addr rest (.connectionChallengeResponse header xorSalt) s' r := by
  simp only [receiveResponse] at hcall
  split at hcall
  · next pending left htake =>
    obtain ⟨before, after, hpending, rfl, htest⟩ := takeFirst_cases htake
    rw [Bool.and_eq_true, beq_iff_eq, beq_iff_eq] at htest
    exact promote_cases hpending htake htest.2 htest.1 hcall
  · next htake =>
    split at hcall
    · cases hcall
    · next hfirst =>
      cases hcall
      obtain ⟨before, cc, cc', after, hconnected, rfl, hfind, hprocess⟩ :=
        find?_of_callOnFirst hfirst
      obtain ⟨⟨p, r'⟩, hp, heq⟩ := exists_of_map_eq_ok hprocess
      cases heq
      exact .responseAgain hconnected htake hfind hp
    · exact deny_cases hcall

theorem removeConnectedClient_cases : s.Receives addr rest (.disconnect header xorSalt)
    (s.removeConnectedClient xorSalt addr) (.ok ()) := by
  rw [removeConnectedClient]
  split
  · exact .nothing
  · next cc left htake =>
    obtain ⟨before, after, hconnected, rfl, htest⟩ := takeFirst_cases htake
    rw [Bool.and_eq_true, beq_iff_eq, beq_iff_eq] at htest
    rw [htest.1]
    exact .left hconnected htest.2 htest.1

theorem receiveConnected_cases
    (hcall : s.receiveConnected packet.header rest xorSalt addr = .ok (s', r)) :
    s.Receives addr rest packet s' r := by
  simp only [receiveConnected] at hcall
  split at hcall
  · cases hcall
  · cases hcall
    exact .nothing
  · next hfirst =>
    cases hcall
    obtain ⟨before, cc, cc', after, hconnected, rfl, htest, hprocess⟩ := callOnFirst_cases hfirst
    obtain ⟨⟨p, r'⟩, hp, heq⟩ := exists_of_map_eq_ok hprocess
    cases heq
    rw [Bool.and_eq_true, beq_iff_eq, beq_iff_eq] at htest
    exact @Receives.heard s addr rest packet cc before after p r' hconnected htest.2 hp

/-- **What `receive` can do.** -/
theorem receive_cases {bytes : List UInt8} (hcall : s.receive salt bytes addr = .ok (s', r)) :
    (s' = s ∧ ∃ e, readPacket bytes = .error e ∧ r = .error e) ∨
      ∃ packet rest, readPacket bytes = .ok (packet, rest) ∧ s.Receives addr rest packet s' r := by
  simp only [receive] at hcall
  split at hcall
  · next e hread =>
    cases hcall
    exact Or.inl ⟨rfl, e, hread, rfl⟩
  · next packet rest hread =>
    refine Or.inr ⟨packet, rest, hread, ?_⟩
    cases packet with
    | connectionRequest header clientSalt version =>
      simp only [handlePacket] at hcall
      split at hcall
      · exact deny_cases hcall
      · exact receiveRequest_cases hcall
    | connectionChallengeResponse header xorSalt => exact receiveResponse_cases hcall
    | disconnect header xorSalt =>
      cases hcall
      exact removeConnectedClient_cases
    | keepAlive header xorSalt index => exact receiveConnected_cases hcall
    | messages header xorSalt => exact receiveConnected_cases hcall
    | connectionChallenge header clientSalt serverSalt =>
      cases hcall
      exact .nothing
    | connectionDenied header reason =>
      cases hcall
      exact .nothing

end Cases

/-! ### Sessions of other addresses -/

/-- Nothing has changed but what belongs to `addr`. -/
structure UntouchedBut (s : Server) (addr : SocketAddr) (s' : Server) : Prop where
  pending : (s'.pendingClients.filter fun pc => pc.socketAddr ≠ addr)
    = s.pendingClients.filter fun pc => pc.socketAddr ≠ addr
  connected : (s'.connectedClients.filter fun cc => cc.socketAddr ≠ addr)
    = s.connectedClients.filter fun cc => cc.socketAddr ≠ addr
  outbox : ∃ added, s'.outbox = s.outbox ++ added ∧ ∀ packet ∈ added, packet.1 = addr

/-- The packet is a response that no pending client waits for, with the salt of a connected client
at another address. -/
def HearsStranger (s : Server) (addr : SocketAddr) : ProtocolPacket → Prop
  | .connectionChallengeResponse _ xorSalt => s.takePendingByXorSalt xorSalt addr = none ∧
    ∃ cc, (s.connectedClients.find? fun cc => cc.xorSalt == xorSalt) = some cc ∧
      cc.socketAddr ≠ addr
  | _ => False

section Untouched

variable {s s' : Server} {rest : List UInt8} {addr : SocketAddr} {r : Except PicklebackError Unit}
  {packet : ProtocolPacket}

/-- Changing an entry that a filter drops changes nothing. -/
theorem filter_replace {α : Type} {test : α → Bool} {before after : List α}
    {a a' : α} (ha : test a = false)
    (ha' : test a' = false) : (before ++ a' :: after).filter test =
      (before ++ a :: after).filter test := by
  rw [List.filter_append, List.filter_append, List.filter_cons_of_neg (by simp [ha']),
    List.filter_cons_of_neg (by simp [ha])]

theorem filter_insert {α : Type} {test : α → Bool} {before after : List α}
    {a : α} (ha : test a = false) :
    (before ++ a :: after).filter test = (before ++ after).filter test := by
  rw [List.filter_append, List.filter_append, List.filter_cons_of_neg (by simp [ha])]

/-- Whatever is not a stranger's response leaves other addresses alone. -/
theorem Receives.untouchedBut (h : s.Receives addr rest packet s' r)
    (hnot : ¬ s.HearsStranger addr packet) :
    s.UntouchedBut addr s' := by
  have hsame : ∃ added, s.outbox = s.outbox ++ added ∧ ∀ packet ∈ added, packet.1 = addr :=
    ⟨[], by simp, by simp⟩
  cases h with
  | nothing => exact ⟨rfl, rfl, hsame⟩
  | denied hwrite => exact ⟨rfl, rfl, _, rfl, by simp⟩
  | requestAgain hpending haddr hp =>
    refine ⟨?_, rfl, hsame⟩
    rw [hpending]
    exact filter_replace (by simp [haddr]) (by simp [haddr])
  | request hp =>
    refine ⟨?_, rfl, hsame⟩
    rw [filter_insert (by simp), List.append_nil]
  | lost hpending htake haddr =>
    refine ⟨?_, rfl, hsame⟩
    rw [hpending, filter_insert (by simp [haddr])]
  | response hpending htake haddr hxor hp hp' =>
    refine ⟨?_, ?_, hsame⟩
    · rw [hpending, filter_insert (by simp [haddr])]
    · rw [filter_insert (by simp), List.append_nil]
  | @responseAgain _ _ cc _ _ _ _ hconnected htake hfind hp =>
    have haddr : cc.socketAddr = addr := by
      by_contra hne
      exact hnot ⟨htake, cc, hfind, hne⟩
    refine ⟨rfl, ?_, hsame⟩
    rw [hconnected]
    exact filter_replace (by simp [haddr]) (by simp [haddr])
  | heard hconnected haddr hp =>
    refine ⟨rfl, ?_, hsame⟩
    rw [hconnected]
    exact filter_replace (by simp [haddr]) (by simp [haddr])
  | left hconnected haddr hsalt =>
    refine ⟨rfl, ?_, hsame⟩
    rw [hconnected, filter_insert (by simp [haddr])]

/-- A stranger's response is counted by the endpoint of another address. -/
theorem not_untouchedBut_of_hearsStranger {header : ProtocolPacketHeader} {xorSalt : UInt64}
    (hcall : s.receiveResponse header rest xorSalt addr = .ok (s', r))
    (h : s.HearsStranger addr (.connectionChallengeResponse header xorSalt)) :
    ¬ s.UntouchedBut addr s' := by
  obtain ⟨htake, cc, hfind, hne⟩ := h
  simp only [receiveResponse, htake] at hcall
  split at hcall
  · cases hcall
  · next hfirst =>
    cases hcall
    obtain ⟨before, cc₁, cc', after, hconnected, rfl, hfind', hprocess⟩ :=
      find?_of_callOnFirst hfirst
    obtain rfl : cc = cc₁ := Option.some.inj (hfind.symm.trans hfind')
    obtain ⟨⟨p, r'⟩, hp, heq⟩ := exists_of_map_eq_ok hprocess
    cases heq
    intro huntouched
    have hfilter := huntouched.connected
    rw [hconnected, List.filter_append, List.filter_append, List.filter_cons_of_pos (by simp [hne]),
      List.filter_cons_of_pos (by simp [hne])] at hfilter
    have hsame := (List.cons.inj (List.append_cancel_left hfilter)).1
    have hcount := Endpoint.packetsReceived_processIncomingPacket hp
    rw [show p = cc.pickleback from congrArg ConnectedClient.pickleback hsame] at hcount
    omega
  · next hfirst =>
    rw [find?_of_callOnFirst_none hfirst] at hfind
    cases hfind

/-- **Sessions of other addresses** are untouched by a packet, and nothing is addressed to others,
if and only if the packet is not a stranger's response: one that no pending client waits for, with
the salt of a connected client at another address. -/
theorem receive_untouchedBut_iff {salt : UInt64} {bytes : List UInt8}
    (hcall : s.receive salt bytes addr = .ok (s', r)) : s.UntouchedBut addr s' ↔
      ∀ packet rest, readPacket bytes = .ok (packet, rest) → ¬ s.HearsStranger addr packet := by
  constructor
  · intro huntouched packet rest hread hstranger
    cases packet with
    | connectionChallengeResponse header xorSalt =>
      simp only [receive, hread] at hcall
      exact not_untouchedBut_of_hearsStranger hcall hstranger huntouched
    | _ => exact hstranger
  · intro hnot
    obtain ⟨rfl, -⟩ | ⟨packet, rest, hread, h⟩ := receive_cases hcall
    · exact ⟨rfl, rfl, [], by simp, by simp⟩
    · exact h.untouchedBut (hnot packet rest hread)

end Untouched

theorem receive_untouchedBut_request : ∃ s s' r, (Server.new true 0 .default).run
      [.receive 5 (requestBytes 1 7) (.v4 1 1)] = .ok s ∧
    s.receive 6 (requestBytes 1 8) (.v4 1 2) = .ok (s', r) ∧ s.UntouchedBut (.v4 1 2) s' := by
  obtain ⟨s, hrun, htest⟩ := exists_of_any_toOption (show ((Server.new true 0 .default).run
      [.receive 5 (requestBytes 1 7) (.v4 1 1)]).toOption.any
        (fun s => (s.receive 6 (requestBytes 1 8) (.v4 1 2)).toOption.any fun _ => true) = true by
          decide +kernel)
  obtain ⟨⟨s', r⟩, hcall, -⟩ := exists_of_any_toOption htest
  refine ⟨s, s', r, hrun, hcall, (receive_untouchedBut_iff hcall).mpr ?_⟩
  intro packet rest hread hstranger
  rw [show readPacket (requestBytes 1 8) =
    .ok (.connectionRequest (.newNoAcks 1 .connectionRequest) 8 1,
    writeZeroBytes 500) by decide +kernel] at hread
  cases hread
  exact hstranger

/-- Anyone who sends a response with the salt of a connected client is heard by its endpoint. -/
theorem not_untouchedBut : ∃ s s' r, (Server.new true 0 .default).run
      [.receive 5 (requestBytes 1 7) (.v4 1 1), .receive 0 (responseBytes 2 2) (.v4 1 1)] = .ok s ∧
    s.receive 0 (responseBytes 3 2) (.v4 1 2) = .ok (s', r) ∧ ¬ s.UntouchedBut (.v4 1 2) s' := by
  obtain ⟨s, hrun, htest⟩ := exists_of_any_toOption (show ((Server.new true 0 .default).run
      [.receive 5 (requestBytes 1 7) (.v4 1 1),
        .receive 0 (responseBytes 2 2) (.v4 1 1)]).toOption.any
        (fun s => (s.receive 0 (responseBytes 3 2) (.v4 1 2)).toOption.any fun r => decide
          (((r.1.connectedClients.filter fun cc => cc.socketAddr ≠ .v4 1 2).map fun cc =>
            cc.pickleback.stats.packetsReceived) ≠
              (s.connectedClients.filter fun cc => cc.socketAddr ≠ .v4 1 2).map fun cc =>
                cc.pickleback.stats.packetsReceived)) = true by decide +kernel)
  obtain ⟨⟨s', r⟩, hcall, hne⟩ := exists_of_any_toOption htest
  refine ⟨s, s', r, hrun, hcall, fun huntouched => of_decide_eq_true hne ?_⟩
  rw [huntouched.connected]

/-! ### Sessions and errors -/

/-- No session is gone: every pending client is pending still, or connected, and every connected
client is connected still. -/
def KeepsSessions (s s' : Server) : Prop :=
  ∃ stayed joined : List PendingClient, s.pendingClients.Perm (stayed ++ joined) ∧
    (stayed.map PendingClient.key).Subperm (s'.pendingClients.map PendingClient.key) ∧
    (s.connectedClients.map ConnectedClient.key ++
      joined.map fun pc => (pc.socketAddr, pc.clientSalt ^^^ pc.serverSalt)).Subperm
        (s'.connectedClients.map ConnectedClient.key)

/-- The packet is a response that a pending client at the address waits for. -/
def AnswersOffer (s : Server) (addr : SocketAddr) : ProtocolPacket → Prop
  | .connectionChallengeResponse _ xorSalt => (s.takePendingByXorSalt xorSalt addr).isSome = true
  | _ => False

section Errors

variable {s s' : Server} {rest : List UInt8} {addr : SocketAddr}
  {e : PicklebackError} {packet : ProtocolPacket}

theorem keepsSessions_of_keys
    (hpending : s'.pendingClients.map PendingClient.key = s.pendingClients.map PendingClient.key)
    (hconnected : s'.connectedClients.map ConnectedClient.key =
      s.connectedClients.map ConnectedClient.key) :
    s.KeepsSessions s' := by
  refine ⟨s.pendingClients, [], by simp, ?_, ?_⟩
  · rw [hpending]
  · rw [hconnected, List.map_nil, List.append_nil]

theorem Receives.keepsSessions (h : s.Receives addr rest packet s' (.error e))
    (hnot : ¬ s.AnswersOffer addr packet) : s.KeepsSessions s' := by
  cases h with
  | nothing => exact keepsSessions_of_keys rfl rfl
  | requestAgain hpending haddr hp =>
    refine keepsSessions_of_keys ?_ rfl
    rw [hpending, List.map_append, List.map_append, List.map_cons, List.map_cons]
    rfl
  | lost hpending htake haddr =>
    refine absurd ?_ hnot
    rw [AnswersOffer, htake]
    rfl
  | responseAgain hconnected htake hfind hp =>
    refine keepsSessions_of_keys rfl ?_
    rw [hconnected, List.map_append, List.map_append, List.map_cons, List.map_cons]
    rfl
  | heard hconnected haddr hp =>
    refine keepsSessions_of_keys rfl ?_
    rw [hconnected, List.map_append, List.map_append, List.map_cons, List.map_cons]
    rfl

theorem promote_error {pc : PendingClient} {header : ProtocolPacketHeader} {xorSalt : UInt64}
    (hcall : s.promote pc header rest xorSalt addr = .ok (s', .error e)) : s' = s := by
  simp only [promote] at hcall
  split at hcall
  · cases hcall
    rfl
  · split at hcall
    · cases hcall
    · cases hcall
      rfl
    · split at hcall
      · cases hcall
      · cases hcall
        rfl
      · cases hcall

/-- A pending client whose response fails is nowhere any more. -/
theorem not_keepsSessions_of_answersOffer {header : ProtocolPacketHeader} {xorSalt : UInt64}
    (hcall : s.receiveResponse header rest xorSalt addr = .ok (s', .error e))
    (h : s.AnswersOffer addr (.connectionChallengeResponse header xorSalt)) :
    ¬ s.KeepsSessions s' := by
  obtain ⟨⟨pc, left⟩, htake⟩ := Option.isSome_iff_exists.mp h
  obtain ⟨before, after, hpending, rfl, -⟩ := takeFirst_cases htake
  simp only [receiveResponse, htake] at hcall
  obtain rfl := promote_error hcall
  rintro ⟨stayed, joined, hperm, hstayed, hjoined⟩
  have hlen := hperm.length_eq
  have hlen₁ := hstayed.length_le
  have hlen₂ := hjoined.length_le
  rw [hpending] at hlen
  simp only [List.length_append, List.length_cons, List.length_map] at hlen hlen₁ hlen₂
  omega

/-- **No session is lost** to a packet that fails if and only if the packet is not a response that a
pending client waits for: such a response, when it fails, always discards the client. -/
theorem receive_keepsSessions_iff {salt : UInt64} {bytes : List UInt8}
    (hcall : s.receive salt bytes addr = .ok (s', .error e)) : s.KeepsSessions s' ↔
      ∀ packet rest, readPacket bytes = .ok (packet, rest) → ¬ s.AnswersOffer addr packet := by
  constructor
  · intro hkeeps packet rest hread hanswers
    cases packet with
    | connectionChallengeResponse header xorSalt =>
      simp only [receive, hread] at hcall
      exact not_keepsSessions_of_answersOffer hcall hanswers hkeeps
    | _ => exact hanswers
  · intro hnot
    obtain ⟨rfl, -⟩ | ⟨packet, rest, hread, h⟩ := receive_cases hcall
    · exact keepsSessions_of_keys rfl rfl
    · exact h.keepsSessions (hnot packet rest hread)

end Errors

theorem receive_keepsSessions_duplicate : ∃ s s', (Server.new true 0 .default).run
      [.receive 5 (requestBytes 1 7) (.v4 1 1)] = .ok s ∧
    s.receive 6 (requestBytes 1 7) (.v4 1 1) = .ok (s', .error .duplicatePacket) ∧
      s.KeepsSessions s' := by
  obtain ⟨s, hrun, htest⟩ := exists_of_any_toOption (show ((Server.new true 0 .default).run
      [.receive 5 (requestBytes 1 7) (.v4 1 1)]).toOption.any (fun s =>
        (s.receive 6 (requestBytes 1 7) (.v4 1 1)).toOption.any fun r => decide
          (r.2 = .error .duplicatePacket)) = true by decide +kernel)
  obtain ⟨⟨s', r⟩, hcall, hr⟩ := exists_of_any_toOption htest
  obtain rfl : r = .error .duplicatePacket := of_decide_eq_true hr
  refine ⟨s, s', hrun, hcall, (receive_keepsSessions_iff hcall).mpr ?_⟩
  intro packet rest hread hanswers
  rw [show readPacket (requestBytes 1 7) =
    .ok (.connectionRequest (.newNoAcks 1 .connectionRequest) 7 1,
    writeZeroBytes 500) by decide +kernel] at hread
  cases hread
  exact hanswers

/-- A response that repeats the number of the request discards the client. -/
theorem not_keepsSessions : ∃ s s', (Server.new true 0 .default).run
      [.receive 5 (requestBytes 1 7) (.v4 1 1)] = .ok s ∧
    s.receive 0 (responseBytes 1 2) (.v4 1 1) = .ok (s', .error .duplicatePacket) ∧
      ¬ s.KeepsSessions s' := by
  obtain ⟨s, hrun, htest⟩ := exists_of_any_toOption (show ((Server.new true 0 .default).run
      [.receive 5 (requestBytes 1 7) (.v4 1 1)]).toOption.any (fun s =>
        (s.receive 0 (responseBytes 1 2) (.v4 1 1)).toOption.any fun r => decide
          (r.2 = .error .duplicatePacket ∧ s.pendingClients.length = 1 ∧
            r.1.pendingClients.length = 0 ∧
            r.1.connectedClients.length = 0)) = true by decide +kernel)
  obtain ⟨⟨s', r⟩, hcall, hr⟩ := exists_of_any_toOption htest
  obtain ⟨rfl, hone, hzero, hzero'⟩ := of_decide_eq_true hr
  refine ⟨s, s', hrun, hcall, ?_⟩
  rintro ⟨stayed, joined, hperm, hstayed, hjoined⟩
  have hlen := hperm.length_eq
  have hlen₁ := hstayed.length_le
  have hlen₂ := hjoined.length_le
  simp only [List.length_append, List.length_map] at hlen hlen₁ hlen₂ hzero hzero'
  omega

end Server

end Pickleback
