import Pickleback.Posting
import Pickleback.ServerSessions

/-!
# The endpoints of a server

What everything that a server does to an endpoint keeps holds of all endpoints of a reachable
server. And what a server sends comes from its own outbox, which holds denials only, or from a visit
of an endpoint.

## Main definitions

* `Server.Each` — all endpoints of a server have a property
* `Server.Keeps` — all that a server does to an endpoint keeps a property

## Main results

* `Keeps.run` — such a property holds of all endpoints of a reachable server
* `Each.visitPacketsToSend` — what a server sends
-/

namespace Pickleback

namespace Server

/-- All endpoints have the property, and the outbox of the server itself holds denials. -/
structure Each (overflowChecks : Bool) (I : Endpoint → Prop) (s : Server) : Prop where
  overflowChecks : s.overflowChecks = overflowChecks
  pending : ∀ pc ∈ s.pendingClients, I pc.pickleback
  connected : ∀ cc ∈ s.connectedClients, I cc.pickleback
  outbox : ∀ packet ∈ s.outbox, Reads (fun packet => packet.packetType = .connectionDenied) packet.2

/-- All that a server does to an endpoint keeps the property. -/
structure Keeps (overflowChecks : Bool) (I : Endpoint → Prop) : Prop where
  new : ∀ time, I (Endpoint.new overflowChecks .default time)
  setXorSalt : ∀ {p : Endpoint} (salt : Option UInt64), I p → I (p.setXorSalt salt)
  update : ∀ {p : Endpoint} (dt : Time), I p → I (p.update dt)
  processIncomingPacket : ∀ {p p' : Endpoint} {header : ProtocolPacketHeader} {payload : List UInt8}
    {r : Except PicklebackError Unit}, I p →
      p.processIncomingPacket header payload = .ok (p', r) → I p'
  challenge : ∀ {p p' : Endpoint} {clientSalt serverSalt : UInt64}
    {r : Except PicklebackError Unit}, I p →
    p.sendControl .connectionChallenge (fun header =>
      .connectionChallenge header clientSalt serverSalt)
      = .ok (p', r) → I p'
  keepAlive : ∀ {p p' : Endpoint} {xorSalt : UInt64} {clientIndex : UInt32}
    {r : Except PicklebackError Unit},
    I p → p.sendControl .keepAlive (fun header => .keepAlive header xorSalt clientIndex) =
      .ok (p', r) → I p'
  sendMessage : ∀ {p p' : Endpoint} {channel : UInt8} {payload : List UInt8}
    {r : Except PicklebackError MessageId}, I p → p.sendMessage channel payload = .ok (p', r) → I p'
  visitPacketsToSend : ∀ {p p' : Endpoint} {packets : List (List UInt8)}, I p →
    p.visitPacketsToSend = .ok (p', packets) → I p'
  drainReceivedMessages : ∀ {p : Endpoint} (channel : UInt8), I p →
    I (p.drainReceivedMessages channel).1
  drainMessageAcks : ∀ {p : Endpoint} (channel : UInt8), I p → I (p.drainMessageAcks channel).1

section Steps

variable {overflowChecks : Bool} {I : Endpoint → Prop} {s s' : Server}

theorem each_new (time : Time) (config : PicklebackConfig) :
    (new overflowChecks time config).Each overflowChecks I :=
  ⟨rfl, fun _ hpc => (by cases hpc), fun _ hcc => (by cases hcc), fun _ hmem => (by cases hmem)⟩

/-- A list with another entry in a place. -/
theorem forall_mem_replace {α : Type} {P : α → Prop} {as before after : List α} {a a' : α}
    (h : ∀ b ∈ as, P b) (heq : as = before ++ a :: after) (ha : P a → P a') :
    ∀ b ∈ before ++ a' :: after, P b := by
  rw [heq, List.forall_mem_append, List.forall_mem_cons] at h
  rw [List.forall_mem_append, List.forall_mem_cons]
  exact ⟨h.1, ha h.2.1, h.2.2⟩

theorem forall_mem_erase {α : Type} {P : α → Prop} {as before after : List α} {a : α}
    (h : ∀ b ∈ as, P b) (heq : as = before ++ a :: after) : ∀ b ∈ before ++ after, P b := by
  rw [heq, List.forall_mem_append, List.forall_mem_cons] at h
  rw [List.forall_mem_append]
  exact ⟨h.1, h.2.2⟩

theorem forall_mem_concat {α : Type} {P : α → Prop} {as : List α}
    {a : α} (h : ∀ b ∈ as, P b) (ha : P a) :
    ∀ b ∈ as ++ [a], P b := by
  rw [List.forall_mem_append, List.forall_mem_singleton]
  exact ⟨h, ha⟩

theorem Keeps.receives (hI : Keeps overflowChecks I) (h : s.Each overflowChecks I)
    {addr : SocketAddr}
    {rest : List UInt8} {packet : ProtocolPacket} {r : Except PicklebackError Unit}
    (hreceives : s.Receives addr rest packet s' r) : s'.Each overflowChecks I := by
  cases hreceives with
  | nothing => exact ⟨h.overflowChecks, h.pending, h.connected, h.outbox⟩
  | @denied _ reason _ _ hwrite =>
    refine ⟨h.overflowChecks, h.pending, h.connected, forall_mem_concat h.outbox ?_⟩
    have hbuild : Builds .connectionDenied fun header => .connectionDenied header reason :=
      ⟨fun _ => rfl, fun _ => rfl, fun _ _ => rfl⟩
    exact hbuild.reads (fun _ => rfl) (Or.inr ⟨0, rfl⟩) (writePacket_eq_ok hwrite).1
  | requestAgain hpending haddr hp =>
    exact ⟨h.overflowChecks, forall_mem_replace h.pending hpending fun hpc =>
      hI.processIncomingPacket hpc hp, h.connected, h.outbox⟩
  | request hp =>
    rw [h.overflowChecks] at hp
    exact ⟨h.overflowChecks, forall_mem_concat h.pending
      (hI.processIncomingPacket (hI.new s.time) hp), h.connected, h.outbox⟩
  | lost hpending htake haddr =>
    exact ⟨h.overflowChecks, forall_mem_erase h.pending hpending, h.connected, h.outbox⟩
  | @response _ xorSalt pc _ _ _ _ hpending htake haddr hxor hp hp' =>
    have hpc : I pc.pickleback :=
      h.pending pc (by rw [hpending]; exact List.mem_append_right _ (List.mem_cons_self ..))
    have hprocessed := hI.processIncomingPacket (hI.setXorSalt (some xorSalt) hpc) hp
    exact ⟨h.overflowChecks, forall_mem_erase h.pending hpending,
      forall_mem_concat h.connected (hI.keepAlive hprocessed hp'), h.outbox⟩
  | responseAgain hconnected htake hfind hp =>
    exact ⟨h.overflowChecks, h.pending,
      forall_mem_replace h.connected hconnected fun hcc => hI.processIncomingPacket hcc hp,
        h.outbox⟩
  | heard hconnected haddr hp =>
    exact ⟨h.overflowChecks, h.pending,
      forall_mem_replace h.connected hconnected fun hcc => hI.processIncomingPacket hcc hp,
        h.outbox⟩
  | left hconnected haddr hsalt =>
    exact ⟨h.overflowChecks, h.pending, forall_mem_erase h.connected hconnected, h.outbox⟩

theorem Keeps.process (hI : Keeps overflowChecks I) {pc pc' : PendingClient}
    {time dt : Time} {expired : Bool}
    (h : I pc.pickleback) (hcall : pc.process time dt = .ok (pc', expired)) : I pc'.pickleback := by
  have hupdate := hI.update dt h
  simp only [PendingClient.process] at hcall
  split at hcall
  · cases hcall
    exact hupdate
  · split at hcall
    · obtain ⟨⟨p, r⟩, hp, heq⟩ := exists_of_map_eq_ok hcall
      cases heq
      exact hI.challenge hupdate hp
    · cases hcall
      exact hupdate

theorem Keeps.processConnected (hI : Keeps overflowChecks I) {cc cc' : ConnectedClient}
    {time dt : Time} {u : Unit}
    (h : I cc.pickleback) (hcall : cc.process time dt = .ok (cc', u)) : I cc'.pickleback := by
  have hupdate := hI.update dt h
  simp only [ConnectedClient.process] at hcall
  split at hcall
  · obtain ⟨cc₁, hcc₁, heq⟩ := exists_of_map_eq_ok hcall
    cases heq
    obtain ⟨⟨p, r⟩, hp, rfl⟩ := exists_of_map_eq_ok hcc₁
    exact hI.keepAlive hupdate hp
  · cases hcall
    exact hupdate

theorem Keeps.updateServer (hI : Keeps overflowChecks I) (h : s.Each overflowChecks I) {dt : Time}
    (hcall : s.update dt = .ok s') : s'.Each overflowChecks I := by
  simp only [Server.update] at hcall
  split at hcall
  · cases hcall
  · next s₁ hs₁ =>
    simp only [processPendingClients] at hs₁
    split at hs₁
    · cases hs₁
    · next pcs expired heach =>
      obtain ⟨⟨removed, left⟩, hremove, rfl⟩ := exists_of_map_eq_ok hs₁
      obtain ⟨hpcs, -⟩ := callOnEach_forall (P := fun pc : PendingClient => I pc.pickleback)
        (Q := fun _ => True)
        (fun hpc hprocess => ⟨hI.process hpc hprocess, trivial⟩) h.pending heach
      simp only [processConnectedClients] at hcall
      split at hcall
      · cases hcall
      · next removed' left' hremove' =>
        obtain ⟨⟨ccs, us⟩, heach', rfl⟩ := exists_of_map_eq_ok hcall
        obtain ⟨hccs, -⟩ := callOnEach_forall (P := fun cc : ConnectedClient => I cc.pickleback)
          (Q := fun _ => True) (fun hcc hprocess => ⟨hI.processConnected hcc hprocess, trivial⟩)
          (fun cc hcc => h.connected cc ((sublist_of_removeAll hremove').subset hcc)) heach'
        exact ⟨h.overflowChecks, fun pc hpc => hpcs pc ((sublist_of_removeAll hremove).subset hpc),
          hccs, h.outbox⟩

/-- **What a server sends** are denials and what its endpoints send. -/
theorem Each.visitPacketsToSend (h : s.Each overflowChecks I) {P : ProtocolPacket → Prop}
    (hdenied : ∀ packet, packet.packetType = .connectionDenied → P packet)
    (hvisit : ∀ {p p' : Endpoint} {packets : List (List UInt8)}, I p →
      p.visitPacketsToSend = .ok (p', packets) → I p' ∧ ∀ bytes ∈ packets, Reads P bytes)
    {sent : List (SocketAddr × List UInt8)} (hcall : s.visitPacketsToSend = .ok (s', sent)) :
    s'.Each overflowChecks I ∧ ∀ packet ∈ sent, Reads P packet.2 := by
  have haddressed : ∀ {addr : SocketAddr} {packets : List (List UInt8)},
    (∀ bytes ∈ packets, Reads P bytes) →
      ∀ packet ∈ packets.map fun bytes => (addr, bytes), Reads P packet.2 := by
    intro addr packets hpackets packet hmem
    obtain ⟨bytes, hbytes, rfl⟩ := List.mem_map.mp hmem
    exact hpackets bytes hbytes
  simp only [Server.visitPacketsToSend] at hcall
  split at hcall
  · cases hcall
  · next pcs sentPending heach =>
    obtain ⟨⟨ccs, sentConnected⟩, heach', heq⟩ := exists_of_map_eq_ok hcall
    cases heq
    obtain ⟨hpcs, hsent⟩ := callOnEach_forall (P := fun pc : PendingClient => I pc.pickleback)
      (Q := fun packets => ∀ packet ∈ packets, Reads P packet.2) (by
        intro pc pc' packets hpc hpending
        obtain ⟨⟨p, bs⟩, hp, heq⟩ := exists_of_map_eq_ok hpending
        cases heq
        obtain ⟨hp', hbs⟩ := hvisit hpc hp
        exact ⟨hp', haddressed hbs⟩) h.pending heach
    obtain ⟨hccs, hsent'⟩ := callOnEach_forall (P := fun cc : ConnectedClient => I cc.pickleback)
      (Q := fun packets => ∀ packet ∈ packets, Reads P packet.2) (by
        intro cc cc' packets hcc hconnected
        obtain ⟨⟨p, bs⟩, hp, heq⟩ := exists_of_map_eq_ok hconnected
        cases heq
        obtain ⟨hp', hbs⟩ := hvisit hcc hp
        exact ⟨hp', haddressed hbs⟩) h.connected heach'
    refine ⟨⟨h.overflowChecks, hpcs, hccs, fun packet hmem => (by cases hmem)⟩,
      fun packet hmem => ?_⟩
    simp only [List.mem_append, List.mem_flatten] at hmem
    obtain (hmem | ⟨packets, hpackets, hmem⟩) | ⟨packets, hpackets, hmem⟩ := hmem
    · exact (h.outbox packet hmem).mono hdenied
    · exact hsent packets hpackets packet hmem
    · exact hsent' packets hpackets packet hmem

theorem Keeps.visit (hI : Keeps overflowChecks I) (h : s.Each overflowChecks I)
    {sent : List (SocketAddr × List UInt8)} (hcall : s.visitPacketsToSend = .ok (s', sent)) :
    s'.Each overflowChecks I :=
  (h.visitPacketsToSend (P := fun _ => True) (fun _ _ => trivial)
    (fun hp hvisit => ⟨hI.visitPacketsToSend hp hvisit, fun _ _ _ _ _ => trivial⟩) hcall).1

/-- Whoever is not disconnected is left as they were. -/
theorem mem_of_disconnectClient {id : UInt64} (hcall : s.disconnectClient id = .ok s') :
    s' = { s with connectedClients := s'.connectedClients } ∧
      ∀ cc ∈ s'.connectedClients, cc ∈ s.connectedClients := by
  simp only [disconnectClient] at hcall
  split at hcall
  · cases hcall
  · cases hcall
    exact ⟨rfl, fun cc hcc => hcc⟩
  · next ccs u hfirst =>
    cases hcall
    refine ⟨rfl, fun cc hcc => ?_⟩
    obtain ⟨before, cc₁, cc', after, heq, rfl, htest, hsend⟩ := callOnFirst_cases hfirst
    obtain ⟨r, -, hcc'⟩ := exists_of_map_eq_ok hsend
    cases hcc'
    obtain ⟨hmem, hne⟩ := List.mem_filter.mp hcc
    rw [heq]
    rcases List.mem_append.mp hmem with hmem | hmem
    · exact List.mem_append_left _ hmem
    · rcases List.mem_cons.mp hmem with rfl | hmem
      · -- the client that the packet was for has the salt
        simp only [bne_iff_ne, ne_eq, beq_iff_eq] at hne htest
        exact absurd htest hne
      · exact List.mem_append_right _ (List.mem_cons_of_mem _ hmem)

theorem Keeps.send (hI : Keeps overflowChecks I) {cc cc' : ConnectedClient} {channel : UInt8}
    {payload : List UInt8} {r : Except PicklebackError MessageId} (h : I cc.pickleback)
    (hcall : cc.sendMessage channel payload = .ok (cc', r)) : I cc'.pickleback := by
  obtain ⟨⟨p, r⟩, hp, heq⟩ := exists_of_map_eq_ok hcall
  cases heq
  exact hI.sendMessage h hp

theorem forall_mem_modify {α : Type} {P : α → Prop} {f : α → α}
    (hf : ∀ a, P a → P (f a)) {as : List α}
    (h : ∀ a ∈ as, P a) (n : ℕ) : ∀ a ∈ as.modify n f, P a := by
  induction as generalizing n with
  | nil => rwa [List.modify_nil]
  | cons a as ih =>
    rw [List.forall_mem_cons] at h
    cases n with
    | zero =>
      rw [List.modify_zero_cons, List.forall_mem_cons]
      exact ⟨hf a h.1, h.2⟩
    | succ n =>
      rw [List.modify_succ_cons, List.forall_mem_cons]
      exact ⟨h.1, ih h.2 n⟩

theorem Each.disconnectClient (h : s.Each overflowChecks I) {id : UInt64}
    (hcall : s.disconnectClient id = .ok s') : s'.Each overflowChecks I := by
  obtain ⟨heq, hmem⟩ := mem_of_disconnectClient hcall
  rw [heq]
  exact ⟨h.overflowChecks, h.pending, fun cc hcc => h.connected cc (hmem cc hcc), h.outbox⟩

theorem Keeps.modify (h : s.Each overflowChecks I) {f : ConnectedClient → ConnectedClient}
    (hf : ∀ cc, I cc.pickleback → I (f cc).pickleback) (n : ℕ) :
    Each overflowChecks I { s with connectedClients := s.connectedClients.modify n f } :=
  ⟨h.overflowChecks, h.pending,
    forall_mem_modify (P := fun cc : ConnectedClient => I cc.pickleback) hf h.connected n, h.outbox⟩

/-- **One call** on a server. -/
theorem Keeps.step (hI : Keeps overflowChecks I) (h : s.Each overflowChecks I) {call : Call}
    (hcall : s.step call = .ok s') : s'.Each overflowChecks I := by
  cases call with
  | receive salt bytes addr =>
    obtain ⟨⟨s₁, r⟩, hreceive, rfl⟩ := exists_of_map_eq_ok hcall
    obtain ⟨rfl, -⟩ | ⟨packet, rest, -, hreceives⟩ := receive_cases hreceive
    · exact h
    · exact hI.receives h hreceives
  | update dt => exact hI.updateServer h hcall
  | visitPacketsToSend =>
    obtain ⟨⟨s₁, sent⟩, hvisit, rfl⟩ := exists_of_map_eq_ok hcall
    exact hI.visit h hvisit
  | disconnectClient id => exact h.disconnectClient hcall
  | sendMessage id channel payload =>
    obtain ⟨⟨s₁, r⟩, hsend, rfl⟩ := exists_of_map_eq_ok hcall
    obtain ⟨r', hfirst, heq⟩ := exists_of_map_eq_ok hsend
    cases r' with
    | none =>
      cases heq
      exact h
    | some found =>
      cases heq
      exact ⟨h.overflowChecks, h.pending,
        callOnFirst_forall (P := fun cc : ConnectedClient => I cc.pickleback)
        (fun hcc hsend => hI.send hcc hsend) h.connected hfirst, h.outbox⟩
  | broadcastMessage channel payload =>
    obtain ⟨⟨ccs, rs⟩, heach, rfl⟩ := exists_of_map_eq_ok hcall
    obtain ⟨hccs, -⟩ := callOnEach_forall (P := fun cc : ConnectedClient => I cc.pickleback)
      (Q := fun _ => True)
      (fun hcc hsend => ⟨hI.send hcc hsend, trivial⟩) h.connected heach
    exact ⟨h.overflowChecks, h.pending, hccs, h.outbox⟩
  | drainServerEvents =>
    cases hcall
    exact ⟨h.overflowChecks, h.pending, h.connected, h.outbox⟩
  | clientSendMessage n channel payload =>
    simp only [Server.step, clientSendMessage] at hcall
    split at hcall
    · cases hcall
      exact h
    · next cc hcc =>
      obtain ⟨⟨cc', r⟩, hsend, rfl⟩ := exists_of_map_eq_ok hcall
      refine ⟨h.overflowChecks, h.pending, fun cc₁ hcc₁ => ?_, h.outbox⟩
      rcases List.mem_or_eq_of_mem_set hcc₁ with hmem | rfl
      · exact h.connected cc₁ hmem
      · exact hI.send (h.connected cc (List.mem_of_getElem? hcc)) hsend
  | getMessages n channel =>
    cases hcall
    exact Keeps.modify h (fun _ hcc => hI.drainReceivedMessages channel hcc) n
  | drainAcks n channel =>
    cases hcall
    exact Keeps.modify h (fun _ hcc => hI.drainMessageAcks channel hcc) n

/-- **A series of calls.** -/
theorem Keeps.run (hI : Keeps overflowChecks I) (h : s.Each overflowChecks I) {calls : List Call}
    (hrun : s.run calls = .ok s') : s'.Each overflowChecks I :=
  of_foldlM_eq_ok (fun h hstep => hI.step h hstep) h hrun

end Steps

/-! ### Reachable endpoints -/

open Endpoint in
/-- The endpoints of a server are reachable ones, and what is in their outboxes has a property, if
challenges, keep-alives and packets of messages have. -/
theorem keeps_posts (overflowChecks : Bool) {P : ProtocolPacket → Prop}
    (hchallenge : ∀ header clientSalt serverSalt,
      P (.connectionChallenge header clientSalt serverSalt))
    (hkeepAlive : ∀ header xorSalt clientIndex, P (.keepAlive header xorSalt clientIndex))
    (hmessages : ∀ header xorSalt, P (.messages header xorSalt)) :
    Keeps overflowChecks fun p => Reachable overflowChecks .default p ∧ p.Posts P where
  new time := ⟨.new time, posts_of_nil rfl⟩
  setXorSalt salt h := ⟨h.1.step (c := .setXorSalt salt) rfl, h.2.of_outbox rfl⟩
  update dt h := ⟨h.1.step (c := .update dt) rfl, h.2.of_outbox rfl⟩
  processIncomingPacket {p p' header payload r} h hcall := by
    refine ⟨h.1.step (c := .processIncomingPacket header payload)
      (by rw [Endpoint.step, hcall]; rfl), ?_⟩
    exact h.2.of_outbox (sameSetup_processIncomingPacket hcall).outbox
  challenge {p p' clientSalt serverSalt r} h hcall := by
    refine ⟨h.1.step (c := .sendControl .connectionChallenge _)
      (by rw [Endpoint.step, hcall]; rfl), ?_⟩
    have hbuild : Builds .connectionChallenge fun header =>
      .connectionChallenge header clientSalt serverSalt :=
      ⟨fun _ => rfl, fun _ => rfl, fun _ _ => rfl⟩
    exact h.2.sendControl hbuild (fun header => hchallenge header clientSalt serverSalt) hcall
  keepAlive {p p' xorSalt clientIndex r} h hcall := by
    refine ⟨h.1.step (c := .sendControl .keepAlive _) (by rw [Endpoint.step, hcall]; rfl), ?_⟩
    have hbuild : Builds .keepAlive fun header => .keepAlive header xorSalt clientIndex :=
      ⟨fun _ => rfl, fun _ => rfl, fun _ _ => rfl⟩
    exact h.2.sendControl hbuild (fun header => hkeepAlive header xorSalt clientIndex) hcall
  sendMessage {p p' channel payload r} h hcall := by
    refine ⟨h.1.step (c := .sendMessage channel payload) (by rw [Endpoint.step, hcall]; rfl), ?_⟩
    exact h.2.of_outbox (outbox_sendMessage hcall)
  visitPacketsToSend {p p' packets} h hcall := by
    refine ⟨h.1.step (c := .visitPacketsToSend) (by rw [Endpoint.step, hcall]; rfl), ?_⟩
    exact posts_of_nil (h.2.visitPacketsToSend h.1.intact hmessages hcall).1
  drainReceivedMessages channel h :=
    ⟨h.1.step (c := .drainReceivedMessages channel) rfl, h.2.of_outbox rfl⟩
  drainMessageAcks channel h := ⟨h.1.step (c := .drainMessageAcks channel) rfl, h.2.of_outbox rfl⟩

end Server

end Pickleback
