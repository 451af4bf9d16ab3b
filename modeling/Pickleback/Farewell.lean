import Pickleback.ServerEndpoints

/-!
# Saying goodbye

A client that disconnects, and a server that disconnects a client, make `Disconnect` packets for the
other side. None of them is ever sent. The client hands over its outbox after it has become
`Disconnected`, with a new endpoint; the server has dropped the endpoint that the packet is in. And
a client has no use for a `Disconnect`: it discards the packet and stays connected.

## Main definitions

* `Client.SaysGoodbye`, `Server.SendsDisconnect` — a `Disconnect` is sent
* `Client.Leaves` — a packet takes the client out of state `Connected`

## Main results

* `Client.not_saysGoodbye_of_run`, `Server.not_sendsDisconnect_of_run` — no `Disconnect` is ever
  sent
-/

namespace Pickleback

/-! ### A client that disconnects -/

namespace Client

/-- Told to disconnect, the client sends a `Disconnect` with its salt to its server, and is
disconnected. -/
def SaysGoodbye (c : Client) : Prop :=
  ∃ c' sent serverAddr xorSalt bytes header rest, c.serverAddr = some serverAddr ∧
    c.xorSalt = some xorSalt ∧
    c.disconnect.visitPacketsToSend = .ok (c', sent) ∧ c'.state = .disconnected .normal ∧
    (serverAddr, bytes) ∈ sent ∧ readPacket bytes = .ok (.disconnect header xorSalt, rest)

section Disconnect

variable {overflowChecks : Bool} {config : PicklebackConfig} {c c' : Client}

/-- After a transition to `Disconnected` there is nothing left to hand over. -/
theorem visitPickleback_disconnected (reason : DisconnectReason) :
    ∃ c', (c.stateTransition (.disconnected reason)).visitPickleback = .ok (c', []) := by
  have hidle : (c.stateTransition (.disconnected reason)).pickleback.Idle := Endpoint.idle_new _ _ 0
  rw [visitPickleback, hidle.visitPacketsToSend]
  exact ⟨_, rfl⟩

/-- A disconnecting client makes its packets, and sends nothing. -/
theorem Ready.visit_selfInitiatedDisconnect (h : Ready overflowChecks config c)
    (hstate : c.state = .selfInitiatedDisconnect) : ∃ c', c.visitPacketsToSend = .ok (c', []) := by
  obtain ⟨clientSalt, serverSalt, -, -, hxor, -⟩ := h.consistent.talking (Or.inr (Or.inr hstate))
  rw [Client.visitPacketsToSend]
  split
  · exact ⟨c, rfl⟩
  · obtain ⟨c₁, hsend, -⟩ := exists_sendDisconnects 10 hxor
    have hsent : c.sendForState = .ok (c₁.stateTransition (.disconnected .normal), false) := by
      simp only [Client.sendForState, hstate]
      rw [if_pos (by rw [hxor]; rfl), hsend]
      rfl
    obtain ⟨c', hvisit⟩ := c₁.visitPickleback_disconnected .normal
    simp only [hsent, hvisit, Bool.false_eq_true, and_false, if_false]
    exact ⟨c', rfl⟩

theorem Ready.not_saysGoodbye (h : Ready overflowChecks config c)
    (hstate : c.state = .connected ∨ c.state = .sendingChallengeResponse) : ¬ c.SaysGoodbye := by
  have hdisconnect : c.disconnect.state = .selfInitiatedDisconnect := by
    rw [Client.disconnect]
    rcases hstate with hstate | hstate <;> rw [hstate] <;> rfl
  obtain ⟨c₁, hvisit₁⟩ := h.disconnect.visit_selfInitiatedDisconnect hdisconnect
  rintro ⟨c', sent, serverAddr, xorSalt, bytes, header, rest, -, -, hvisit, -, hmem, -⟩
  rw [hvisit₁] at hvisit
  cases hvisit
  cases hmem

end Disconnect

/-- **No client says goodbye**, in no reachable state. -/
theorem not_saysGoodbye_of_run {overflowChecks : Bool} {time : Time} {config : PicklebackConfig}
    {calls : List Call} {c : Client} (hrun : (new overflowChecks time config).run calls = .ok c)
    (hstate : c.state = .connected ∨ c.state = .sendingChallengeResponse) : ¬ c.SaysGoodbye :=
  ((ready_new time).run hrun).not_saysGoodbye hstate

theorem not_saysGoodbye_of_run_handshake : ∃ c, (new true 0 .default).run handshake = .ok c ∧
    c.state = .connected ∧ ¬ c.SaysGoodbye := by
  obtain ⟨c, hrun, hstate⟩ :=
    exists_of_any_toOption (show ((new true 0 .default).run handshake).toOption.any
    (fun c => decide (c.state = .connected)) = true by decide +kernel)
  rw [decide_eq_true_eq] at hstate
  exact ⟨c, hrun, hstate, not_saysGoodbye_of_run hrun (Or.inl hstate)⟩

/-- A client that has just connected, with hardly a packet unacked, sends nothing. -/
theorem not_saysGoodbye_connected : ∃ c, (new true 0 .default).run handshake = .ok c ∧
    c.state = .connected ∧
    c.xorSalt = some 14 ∧ c.serverAddr = some (.v4 1 2) ∧ c.pickleback.receivedUnackedPackets < 3 ∧
    c.pickleback.sentUnackedPackets < 3 ∧ ¬ c.SaysGoodbye := by
  obtain ⟨c, hrun, htest⟩ :=
    exists_of_any_toOption (show ((new true 0 .default).run handshake).toOption.any
    (fun c => decide (c.state = .connected ∧ c.xorSalt = some 14 ∧ c.serverAddr = some (.v4 1 2) ∧
      c.pickleback.receivedUnackedPackets < 3 ∧ c.pickleback.sentUnackedPackets < 3) &&
      c.disconnect.visitPacketsToSend.toOption.any fun r => r.2.isEmpty) = true by decide +kernel)
  rw [Bool.and_eq_true, decide_eq_true_eq] at htest
  obtain ⟨⟨hstate, hxor, haddr, hreceived, hsent⟩, hvisit⟩ := htest
  refine ⟨c, hrun, hstate, hxor, haddr, hreceived, hsent, ?_⟩
  rintro ⟨c', sent, serverAddr, xorSalt, bytes, header, rest, -, -, hvisit', -, hmem, -⟩
  simp only [hvisit', Except.toOption, Option.any_some, List.isEmpty_iff] at hvisit
  rw [hvisit] at hmem
  cases hmem

/-! ### A client that is disconnected -/

/-- A packet takes the client out of state `Connected`. -/
def Leaves (c : Client) (bytes : List UInt8) (source : SocketAddr) : Prop :=
  ∃ c' r, c.receive bytes source = .ok (c', r) ∧ c'.state ≠ .connected

/-- A `Disconnect` is discarded. -/
theorem not_leaves {c : Client} (hstate : c.state = .connected) {bytes rest : List UInt8}
    {header : ProtocolPacketHeader} {xorSalt : UInt64}
    (hread : readPacket bytes = .ok (.disconnect header xorSalt, rest)) (source : SocketAddr) :
    ¬ c.Leaves bytes source := by
  rintro ⟨c', r, hcall, hleft⟩
  simp only [receive] at hcall
  split at hcall
  · cases hcall
    exact hleft hstate
  · split at hcall
    · cases hcall
      exact hleft hstate
    · rw [hread] at hcall
      cases hcall
      exact hleft hstate

end Client

/-! ### A server that disconnects a client -/

namespace Server

/-- Told to disconnect a client, the server sends it a `Disconnect`. -/
def SendsDisconnect (s : Server) (xorSalt : UInt64) (addr : SocketAddr) : Prop :=
  ∃ s₁ s₂ sent bytes header rest, s.disconnectClient xorSalt = .ok s₁ ∧
    s₁.visitPacketsToSend = .ok (s₂, sent) ∧
    (addr, bytes) ∈ sent ∧ readPacket bytes = .ok (.disconnect header xorSalt, rest)

variable {overflowChecks : Bool} {time : Time} {config : PicklebackConfig}
  {calls : List Call} {s : Server}

/-- The endpoints of a server hold no `Disconnect`. -/
theorem each_silent (hrun : (new overflowChecks time config).run calls = .ok s) :
    s.Each overflowChecks fun p =>
      Endpoint.Reachable overflowChecks .default p ∧ p.Posts fun packet =>
        packet.packetType ≠ .disconnect :=
  (keeps_posts overflowChecks (fun _ _ _ h => by cases h) (fun _ _ _ h => by cases h) fun _ _ h =>
    by cases h).run
    (each_new time config) hrun

theorem not_sendsDisconnect (hrun : (new overflowChecks time config).run calls = .ok s)
    (xorSalt : UInt64)
    (addr : SocketAddr) : ¬ s.SendsDisconnect xorSalt addr := by
  rintro ⟨s₁, s₂, sent, bytes, header, rest, hkick, hvisit, hmem, hread⟩
  have hkicked := (each_silent hrun).disconnectClient hkick
  obtain ⟨-, hsent⟩ :=
    hkicked.visitPacketsToSend (P := fun packet => packet.packetType ≠ .disconnect)
    (fun packet hdenied hdisconnect => by rw [hdenied] at hdisconnect; cases hdisconnect)
    (fun hp hvisit => by
      obtain ⟨hempty, hpackets⟩ :=
        hp.2.visitPacketsToSend hp.1.intact (fun _ _ h => by cases h) hvisit
      exact ⟨⟨hp.1.step (c := .visitPacketsToSend) (by rw [Endpoint.step, hvisit]; rfl),
        Endpoint.posts_of_nil hempty⟩, hpackets⟩) hvisit
  exact hsent _ hmem _ rest hread rfl

/-- **No server sends a `Disconnect`**, and no client would listen. -/
theorem not_sendsDisconnect_of_run (hrun : (new overflowChecks time config).run calls = .ok s)
    (xorSalt : UInt64)
    (addr : SocketAddr) : ¬ s.SendsDisconnect xorSalt addr ∧
      ∀ (c : Client) (bytes rest : List UInt8) (header : ProtocolPacketHeader)
      (source : SocketAddr),
        c.state = .connected → readPacket bytes = .ok (.disconnect header xorSalt, rest) →
        ¬ c.Leaves bytes source :=
  ⟨not_sendsDisconnect hrun xorSalt addr, fun _ _ _ _ source hstate hread =>
    Client.not_leaves hstate hread source⟩

/-- A client asks for a connection and answers the challenge. -/
def welcoming : List Call :=
  [.receive 9 (requestBytes 1 7) (.v4 1 1), .receive 0 (responseBytes 2 14) (.v4 1 1)]

theorem not_sendsDisconnect_of_run_welcoming : ∃ s, (new true 0 .default).run welcoming = .ok s ∧
    s.connectedClients.map ConnectedClient.key = [(.v4 1 1, 14)] ∧
      ¬ s.SendsDisconnect 14 (.v4 1 1) := by
  obtain ⟨s, hrun, htest⟩ :=
    exists_of_any_toOption (show ((new true 0 .default).run welcoming).toOption.any
    (fun s => decide (s.connectedClients.map ConnectedClient.key = [(.v4 1 1, 14)])) = true by
      decide +kernel)
  rw [decide_eq_true_eq] at htest
  exact ⟨s, hrun, htest, (not_sendsDisconnect_of_run hrun 14 (.v4 1 1)).1⟩

/-- A server with one connected client disconnects it and sends nothing; the client, if it got a
`Disconnect`, would stay connected. -/
theorem not_sendsDisconnect_welcoming : (∃ s, (new true 0 .default).run welcoming = .ok s ∧
      s.connectedClients.map ConnectedClient.key = [(.v4 1 1, 14)] ∧
        ¬ s.SendsDisconnect 14 (.v4 1 1)) ∧
    ∃ c bytes header rest, (Client.new true 0 .default).run Client.handshake = .ok c ∧
      c.state = .connected ∧
      c.xorSalt = some 14 ∧ c.serverAddr = some (.v4 1 2) ∧
      readPacket bytes = .ok (.disconnect header 14, rest) ∧ ¬ c.Leaves bytes (.v4 1 2) := by
  constructor
  · obtain ⟨s, hrun, htest⟩ :=
      exists_of_any_toOption (show ((new true 0 .default).run welcoming).toOption.any
      (fun s => decide (s.connectedClients.map ConnectedClient.key = [(.v4 1 1, 14)]) &&
        (s.disconnectClient 14).toOption.any fun s =>
          s.visitPacketsToSend.toOption.any fun r => r.2.isEmpty) = true by decide +kernel)
    rw [Bool.and_eq_true, decide_eq_true_eq] at htest
    obtain ⟨hkey, hsent⟩ := htest
    refine ⟨s, hrun, hkey, ?_⟩
    rintro ⟨s₁, s₂, sent, bytes, header, rest, hkick, hvisit, hmem, -⟩
    simp only [hkick, hvisit, Except.toOption, Option.any_some, List.isEmpty_iff] at hsent
    rw [hsent] at hmem
    cases hmem
  · obtain ⟨c, hrun, htest⟩ := exists_of_any_toOption
      (show ((Client.new true 0 .default).run Client.handshake).toOption.any
        (fun c => decide (c.state = .connected ∧ c.xorSalt = some 14 ∧
          c.serverAddr = some (.v4 1 2))) = true
        by decide +kernel)
    obtain ⟨hstate, hxor, haddr⟩ := of_decide_eq_true htest
    have hread :
      readPacket ((ProtocolPacket.disconnect ⟨.disconnect, 3, none⟩ 14).bytes.toOption.getD [])
        = .ok (.disconnect ⟨.disconnect, 3, none⟩ 14, []) := by decide +kernel
    exact ⟨c, _, _, _, hrun, hstate, hxor, haddr, hread, Client.not_leaves hstate hread _⟩

end Server

end Pickleback
