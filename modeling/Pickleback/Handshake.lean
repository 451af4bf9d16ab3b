import Pickleback.ClientHandshake
import Pickleback.ServerHandshake

/-!
# Agreement on sessions

Server and clients agree on who is connected. The runs of `Network` are handshakes in the sense of
`Lib.Handshake`: each call is a step of these, or none. What links the two is that every packet
there is, in an outbox or in the network, says something that has happened: a request, that its
sender has drawn this salt; a challenge, that this salt was offered; a response, that an offer was
answered; a keep-alive, that there is a session.

## Main definitions

* `World.Simulates` — a world follows the abstract handshakes

## Main results

* `Simulates.step`, `simulates_of_run` — every call and every run is simulated
* `World.agreement` — clients that are connected are so for the server
-/

namespace Pickleback

variable {ι : Type}

namespace World

variable [DecidableEq ι] {S : Setup ι} {w w' : World ι} {σ σ' : Handshake.State ι UInt64}

/-- **The simulation.** Server, clients and network follow the abstract handshakes, and the record
of the world is what has happened in them. -/
structure Simulates (S : Setup ι) (w : World ι) (σ : Handshake.State ι UInt64) : Prop where
  server : w.server.Follows S σ
  attempts : w.attempts = σ.attempts
  serverSalts : w.serverSalts = σ.offers.map Handshake.Ticket.serverSalt
  sessions : w.sessions = σ.sessions.map (sessionKey S)
  events : w.connectedIds = w.sessions.map Prod.fst
  net : ∀ d ∈ w.net, Reads (Backed S σ d.source) d.bytes
  phase : ∀ i, (w.client i).phase = σ.phase i
  ready : ∀ i, Client.Ready (S.clientChecks i) (S.clientConfig i) (w.client i)
  empty : ∀ i, (w.client i).pickleback.outbox = []

omit [DecidableEq ι] in
theorem simulates_start : Simulates S (start S) .start where
  server := Server.follows_new
  attempts := rfl
  serverSalts := rfl
  sessions := rfl
  events := rfl
  net _ hd := by cases hd
  phase _ := rfl
  ready _ := Client.ready_new _
  empty _ := rfl

omit [DecidableEq ι] in
theorem Simulates.distinct (h : Simulates S w σ) (hsalts : w.SaltsDistinct) :
    Handshake.Distinct xorOf σ := by
  obtain ⟨hnodup, hxors⟩ := hsalts
  rw [h.attempts, h.serverSalts] at hnodup hxors
  exact ⟨(List.nodup_append.mp hnodup).1, (List.nodup_append.mp hnodup).2.1, hxors⟩

/-- Draws are never forgotten. -/
theorem SaltsDistinct.of_step (hsalts : w'.SaltsDistinct) {call : Call ι}
    (hstep : w.step S call = .ok w') :
    w.SaltsDistinct := by
  have hgrows : w.attempts.Sublist w'.attempts ∧ w.serverSalts.Sublist w'.serverSalts := by
    cases call with
    | connect i addr salt =>
      cases hstep
      exact ⟨List.sublist_append_left _ _, .refl _⟩
    | disconnect i =>
      cases hstep
      exact ⟨.refl _, .refl _⟩
    | update i dt =>
      cases hstep
      exact ⟨.refl _, .refl _⟩
    | drainServerEvents =>
      cases hstep
      exact ⟨.refl _, .refl _⟩
    | receive i n =>
      simp only [World.step] at hstep
      split at hstep
      · cases hstep
        exact ⟨.refl _, .refl _⟩
      · split at hstep
        · obtain ⟨r, -, rfl⟩ := exists_of_map_eq_ok hstep
          exact ⟨.refl _, .refl _⟩
        · cases hstep
          exact ⟨.refl _, .refl _⟩
    | serverReceive n salt =>
      simp only [World.step] at hstep
      split at hstep
      · cases hstep
        exact ⟨.refl _, .refl _⟩
      · split at hstep
        · obtain ⟨r, -, rfl⟩ := exists_of_map_eq_ok hstep
          exact ⟨.refl _, List.sublist_append_left _ _⟩
        · cases hstep
          exact ⟨.refl _, .refl _⟩
    | _ =>
      obtain ⟨r, -, rfl⟩ := exists_of_map_eq_ok hstep
      exact ⟨.refl _, .refl _⟩
  obtain ⟨hattempts, hserver⟩ := hgrows
  have hclient := hattempts.map Prod.snd
  refine ⟨hsalts.salts.sublist (hclient.append hserver), ?_⟩
  intro c hc s hs c' hc' s' hs' heq
  exact hsalts.xors c (hclient.subset hc) s (hserver.subset hs) c'
    (hclient.subset hc') s' (hserver.subset hs')
    heq

/-- A call on a client that is simulated by steps of that client. -/
theorem Simulates.setClient (h : Simulates S w σ) {i : ι} {c : Client}
    {attempts : List (ι × UInt64)}
    (hready : Client.Ready (S.clientChecks i) (S.clientConfig i) c)
    (hempty : c.pickleback.outbox = [])
    (hgrows : Handshake.Grows σ σ') (hphase : σ'.phase = Function.update σ.phase i c.phase)
    (hattempts : attempts = σ'.attempts) (hpending : σ'.pending = σ.pending)
    (hoffers : σ'.offers = σ.offers)
    (hsessions : σ'.sessions = σ.sessions) :
    Simulates S { w.setClient i c with attempts := attempts } σ' where
  server := h.server.mono hgrows hpending
  attempts := hattempts
  serverSalts := by
    rw [hoffers]
    exact h.serverSalts
  sessions := by
    rw [hsessions]
    exact h.sessions
  events := h.events
  net d hd := (h.net d hd).mono (Backed.mono hgrows)
  phase := by
    refine (Function.forall_update_iff w.client fun j c => c.phase = σ'.phase j).mpr
      ⟨?_, fun j hij => ?_⟩
    · rw [hphase, Function.update_self]
    · rw [hphase, Function.update_of_ne hij]
      exact h.phase j
  ready := (Function.forall_update_iff w.client fun j c => Client.Ready _ _ c).mpr
    ⟨hready, fun j _ => h.ready j⟩
  empty := (Function.forall_update_iff w.client fun j c => c.pickleback.outbox = []).mpr
    ⟨hempty, fun j _ => h.empty j⟩

/-- A call that leaves the phase of a client as it is. -/
theorem Simulates.samePhase (h : Simulates S w σ) {i : ι} {c : Client}
    (hready : Client.Ready (S.clientChecks i) (S.clientConfig i) c)
    (hempty : c.pickleback.outbox = [])
    (hphase : c.phase = (w.client i).phase) : Simulates S (w.setClient i c) σ := by
  have hupdate : σ.phase = Function.update σ.phase i c.phase := by
    rw [hphase, h.phase i, Function.update_eq_self]
  exact h.setClient hready hempty (.refl σ) hupdate h.attempts rfl rfl rfl

/-- A call that ends the handshake of a client. -/
theorem Simulates.leave (h : Simulates S w σ) {i : ι} {c : Client}
    (hready : Client.Ready (S.clientChecks i) (S.clientConfig i) c)
    (hempty : c.pickleback.outbox = [])
    (hphase : c.phase = .idle) :
    Simulates S (w.setClient i c) { σ with phase := Function.update σ.phase i .idle } := by
  exact h.setClient hready hempty ⟨.refl _, .refl _, .refl _, .refl _⟩
    (by rw [hphase]) h.attempts rfl rfl rfl

theorem Simulates.connect (h : Simulates S w σ) (i : ι) (addr : SocketAddr) (salt : UInt64) :
    Simulates S { w.setClient i ((w.client i).connect addr salt) with attempts :=
      w.attempts ++ [(i, salt)] }
      { σ with
        attempts := σ.attempts ++ [(i, salt)]
        phase := Function.update σ.phase i (.requesting salt) } := by
  have hphase : ((w.client i).connect addr salt).phase = .requesting salt := by
    rw [Client.connect, Client.stateTransition_eq rfl]
    exact Client.phase_requesting rfl rfl
  have hempty : ((w.client i).connect addr salt).pickleback.outbox = [] := by
    rw [Client.connect, Client.stateTransition_eq rfl]
    exact h.empty i
  exact h.setClient ((h.ready i).connect addr salt) hempty
    ⟨List.sublist_append_left _ _, .refl _, .refl _, .refl _⟩ (by rw [hphase])
      (by rw [h.attempts]) rfl rfl rfl

theorem Simulates.disconnect (h : Simulates S w σ) (i : ι) :
    Simulates S (w.setClient i (w.client i).disconnect)
      { σ with phase := Function.update σ.phase i .idle } := by
  refine h.leave (h.ready i).disconnect ?_ ?_
  · rw [Client.disconnect]
    split
    · exact h.empty i
    · exact h.empty i
    · rfl
  · rw [Client.disconnect]
    split
    · exact Client.phase_selfInitiatedDisconnect rfl
    · exact Client.phase_selfInitiatedDisconnect rfl
    · exact Client.phase_disconnected rfl

theorem Simulates.update (h : Simulates S w σ) (i : ι) (dt : Time) :
    ∃ σ', Relation.ReflTransGen (Handshake.Step xorOf) σ σ' ∧
      Simulates S (w.setClient i ((w.client i).update dt)) σ' := by
  have hready := (h.ready i).update dt
  have hcases : (((w.client i).update dt).pickleback.outbox = [] ∧
      ((w.client i).update dt).phase = (w.client i).phase) ∨
      (((w.client i).update dt).pickleback.outbox = [] ∧
        ((w.client i).update dt).phase = .idle) := by
    simp only [Client.update]
    split
    · exact Or.inr ⟨rfl, Client.phase_disconnected rfl⟩
    · exact Or.inl ⟨h.empty i, rfl⟩
  obtain ⟨hempty, hphase⟩ | ⟨hempty, hphase⟩ := hcases
  · exact ⟨σ, .refl, h.samePhase hready hempty hphase⟩
  · exact ⟨_, .single (.leave σ i), h.leave hready hempty hphase⟩

/-- **A packet for a client** that says what has happened. -/
theorem Simulates.receive (h : Simulates S w σ) {i : ι} {bytes : List UInt8} {source : SocketAddr}
    (hback : Reads (Backed S σ source) bytes) {c : Client} {r : Except PicklebackError Unit}
    (hcall : (w.client i).receive bytes source = .ok (c, r)) :
    ∃ σ', Relation.ReflTransGen (Handshake.Step xorOf) σ σ' ∧ Simulates S (w.setClient i c) σ' := by
  have hready := (h.ready i).receive hcall
  obtain rfl | ⟨packet, rest, hread, hempty, hheard⟩ := (h.ready i).receive_heard (h.empty i) hcall
  · exact ⟨σ, .refl, h.samePhase (h.ready i) (h.empty i) rfl⟩
  · have hpacket := hback packet rest hread
    obtain hphase | hphase | ⟨header, clientSalt, serverSalt, rfl, hold, hphase⟩ |
      ⟨header, clientSalt, serverSalt, index, rfl, hold, hphase⟩ := hheard
    · exact ⟨σ, .refl, h.samePhase hready hempty hphase⟩
    · exact ⟨_, .single (.leave σ i), h.leave hready hempty hphase⟩
    · obtain ⟨t, ht, rfl, rfl⟩ := hpacket
      rw [h.phase i] at hold
      have hstep := Handshake.Step.answer (f := xorOf) hold ht
      exact ⟨_, .single hstep,
        h.setClient hready hempty hstep.grows (by rw [hphase]) h.attempts rfl rfl rfl⟩
    · obtain ⟨t, ht, heq⟩ := hpacket
      rw [h.phase i] at hold
      have hstep := Handshake.Step.confirm (f := xorOf) hold ht heq
      exact ⟨_, .single hstep,
        h.setClient hready hempty hstep.grows (by rw [hphase]) h.attempts rfl rfl rfl⟩

omit [DecidableEq ι] in
/-- **What a client may say** has happened. -/
theorem Simulates.backed_of_maySend (h : Simulates S w σ) (hsound : Handshake.Sound σ) (i : ι)
    (packet : ProtocolPacket) (hmay : (w.client i).MaySend packet) :
    Backed S σ (S.clientAddr i) packet := by
  cases packet with
  | connectionRequest header clientSalt version =>
    have hphase := Client.phase_requesting hmay.1 hmay.2
    rw [h.phase i] at hphase
    exact ⟨i, rfl, (hsound.requesting i clientSalt hphase).1⟩
  | connectionChallengeResponse header xorSalt =>
    obtain ⟨hstate, hsalt⟩ := hmay
    obtain ⟨clientSalt, serverSalt, hclient, hserver, hxor, -⟩ :=
      (h.ready i).consistent.talking (Or.inl hstate)
    have hphase := Client.phase_answered hstate hclient hserver
    rw [h.phase i] at hphase
    exact ⟨_, hsound.answered i clientSalt serverSalt hphase,
      Option.some.inj (hxor.symm.trans hsalt)⟩
  | keepAlive header xorSalt index =>
    obtain ⟨hstate, hsalt⟩ := hmay
    obtain ⟨clientSalt, serverSalt, hclient, hserver, hxor, -⟩ :=
      (h.ready i).consistent.talking (Or.inr (Or.inl hstate))
    have hphase := Client.phase_connected hstate hclient hserver
    rw [h.phase i] at hphase
    exact ⟨_, hsound.connected i clientSalt serverSalt hphase,
      Option.some.inj (hxor.symm.trans hsalt)⟩
  | connectionChallenge header clientSalt serverSalt => exact hmay.elim
  | connectionDenied header reason => trivial
  | messages header xorSalt => trivial
  | disconnect header xorSalt => trivial

omit [DecidableEq ι] in
/-- More packets in the network, all of them backed. -/
theorem Simulates.send (h : Simulates S w σ) {source : SocketAddr}
    {sent : List (SocketAddr × List UInt8)}
    (hsent : ∀ packet ∈ sent, Reads (Backed S σ source) packet.2) :
    Simulates S { w with net := w.net ++ sent.map fun p => ⟨source, p.1, p.2⟩ } σ := by
  refine ⟨h.server, h.attempts, h.serverSalts, h.sessions, h.events, ?_, h.phase, h.ready, h.empty⟩
  intro d hd
  rcases List.mem_append.mp hd with hd | hd
  · exact h.net d hd
  · obtain ⟨packet, hpacket, rfl⟩ := List.mem_map.mp hd
    exact hsent packet hpacket

theorem Simulates.visitPacketsToSend (h : Simulates S w σ) (hsound : Handshake.Sound σ)
    {i : ι} {c : Client}
    {sent : List (SocketAddr × List UInt8)}
    (hcall : (w.client i).visitPacketsToSend = .ok (c, sent)) :
    Simulates S { w.setClient i c with net := w.net ++ sent.map fun p =>
      ⟨S.clientAddr i, p.1, p.2⟩ } σ := by
  obtain ⟨c', sent', hcall', hready⟩ := (h.ready i).visitPacketsToSend
  obtain ⟨rfl, rfl⟩ : c = c' ∧ sent = sent' := by
    rw [hcall] at hcall'
    cases hcall'
    exact ⟨rfl, rfl⟩
  obtain ⟨hempty, hmay, hend⟩ := (h.ready i).visitPacketsToSend_maySend (h.empty i) hcall
  have hphase : c.phase = (w.client i).phase := by
    obtain hsame | ⟨hold, hnew⟩ := hend
    · exact Client.phase_congr hsame.state hsame.clientSalt hsame.serverSalt
    · rw [Client.phase_disconnected hnew, Client.phase_selfInitiatedDisconnect hold]
  refine (h.samePhase hready hempty hphase).send ?_
  exact fun packet hpacket => (hmay packet hpacket).mono (h.backed_of_maySend hsound i)

omit [DecidableEq ι] in
/-- A call on the server in which no one is connected. -/
theorem Simulates.setServer (h : Simulates S w σ) {s : Server}
    {offers : List (Handshake.Ticket ι UInt64)}
    (hfollows : s.Follows S { σ with pending := offers })
    (hevents : s.serverEvents.filterMap ServerEvent.connectedId?
      = w.server.serverEvents.filterMap ServerEvent.connectedId?) :
    Simulates S { w with server := s } { σ with pending := offers } := by
  have hgrows : Handshake.Grows σ { σ with pending := offers } :=
    ⟨.refl _, .refl _, .refl _, .refl _⟩
  refine ⟨hfollows, h.attempts, h.serverSalts, h.sessions, ?_,
    fun d hd => (h.net d hd).mono (Backed.mono hgrows), h.phase, h.ready, h.empty⟩
  rw [connectedIds, pushed, List.filterMap_append, hevents, ← List.filterMap_append]
  exact h.events

/-- A packet for the server. -/
theorem Simulates.received (h : Simulates S w σ) {s : Server}
    (hreceived : Server.Received S σ w.server σ' s) :
    Simulates S (w.received s) σ' := by
  have hgrows := Handshake.grows_of_steps hreceived.steps
  refine ⟨hreceived.follows, h.attempts.trans hreceived.attempts.symm, ?_, ?_, ?_,
    fun d hd => (h.net d hd).mono (Backed.mono hgrows), fun i => ?_, h.ready, h.empty⟩
  · rw [hreceived.offers, ← h.serverSalts]
    rfl
  · rw [hreceived.sessions, ← h.sessions]
    rfl
  · have hevents := h.events
    rw [connectedIds, pushed, List.filterMap_append] at hevents
    show (w.drained ++ s.serverEvents).filterMap ServerEvent.connectedId? =
      List.map Prod.fst (w.sessions ++ _)
    rw [List.filterMap_append, hreceived.events, ← List.append_assoc,
      hevents, List.map_append, List.map_map]
    rfl
  · rw [hreceived.phase]
    exact h.phase i

/-- **Every call** is simulated. -/
theorem Simulates.step (h : Simulates S w σ) (hsound : Handshake.Sound σ) {call : Call ι}
    (hstep : w.step S call = .ok w') :
    ∃ σ', Relation.ReflTransGen (Handshake.Step xorOf) σ σ' ∧ Simulates S w' σ' := by
  cases call with
  | connect i addr salt =>
    cases hstep
    exact ⟨_, .single (.attempt σ i salt), h.connect i addr salt⟩
  | disconnect i =>
    cases hstep
    exact ⟨_, .single (.leave σ i), h.disconnect i⟩
  | update i dt =>
    cases hstep
    exact h.update i dt
  | receive i n =>
    simp only [World.step] at hstep
    split at hstep
    · cases hstep
      exact ⟨σ, .refl, h⟩
    · next d hd =>
      split at hstep
      · obtain ⟨⟨c, r⟩, hcall, rfl⟩ := exists_of_map_eq_ok hstep
        exact h.receive (h.net d (List.mem_of_getElem? hd)) hcall
      · cases hstep
        exact ⟨σ, .refl, h⟩
  | visitPacketsToSend i =>
    obtain ⟨⟨c, sent⟩, hcall, rfl⟩ := exists_of_map_eq_ok hstep
    exact ⟨σ, .refl, h.visitPacketsToSend hsound hcall⟩
  | serverUpdate dt =>
    obtain ⟨s, hcall, rfl⟩ := exists_of_map_eq_ok hstep
    obtain ⟨offers, hsub, hfollows, hevents⟩ := h.server.update hcall
    exact ⟨_, .single (.close hsub), h.setServer hfollows hevents⟩
  | serverReceive n salt =>
    simp only [World.step] at hstep
    split at hstep
    · cases hstep
      exact ⟨σ, .refl, h⟩
    · next d hd =>
      split at hstep
      · obtain ⟨⟨s, r⟩, hcall, rfl⟩ := exists_of_map_eq_ok hstep
        obtain ⟨σ', hreceived⟩ := h.server.receive (h.net d (List.mem_of_getElem? hd)) hcall
        exact ⟨σ', hreceived.steps, h.received hreceived⟩
      · cases hstep
        exact ⟨σ, .refl, h⟩
  | serverVisitPacketsToSend =>
    obtain ⟨⟨s, sent⟩, hcall, rfl⟩ := exists_of_map_eq_ok hstep
    obtain ⟨hfollows, hevents, hsent⟩ := h.server.visitPacketsToSend hcall
    exact ⟨σ, .refl, (h.setServer hfollows (by rw [hevents])).send hsent⟩
  | disconnectClient id =>
    obtain ⟨s, hcall, rfl⟩ := exists_of_map_eq_ok hstep
    obtain ⟨hfollows, hevents⟩ := h.server.disconnectClient hcall
    exact ⟨σ, .refl, h.setServer hfollows (by rw [hevents])⟩
  | sendMessage id channel payload =>
    obtain ⟨⟨s, r⟩, hcall, rfl⟩ := exists_of_map_eq_ok hstep
    obtain ⟨hfollows, hevents⟩ := h.server.sendMessage hcall
    exact ⟨σ, .refl, h.setServer hfollows (by rw [hevents])⟩
  | broadcastMessage channel payload =>
    obtain ⟨s, hcall, rfl⟩ := exists_of_map_eq_ok hstep
    obtain ⟨hfollows, hevents⟩ := h.server.broadcastMessage hcall
    exact ⟨σ, .refl, h.setServer hfollows (by rw [hevents])⟩
  | drainServerEvents =>
    cases hstep
    refine ⟨σ, .refl, h.server.of_connected rfl rfl h.server.connected,
      h.attempts, h.serverSalts, h.sessions, ?_, h.net, h.phase, h.ready, h.empty⟩
    rw [connectedIds, pushed, Server.drainServerEvents, List.append_nil]
    exact h.events

/-- **Every run** is simulated, as long as the draws are distinct. -/
theorem simulates_of_run {calls : List (Call ι)} (hrun : (start S).run S calls = .ok w)
    (hsalts : w.SaltsDistinct) :
    ∃ σ, Relation.ReflTransGen (Handshake.Step xorOf) .start σ ∧ Simulates S w σ := by
  induction calls using List.reverseRecOn generalizing w with
  | nil =>
    cases hrun
    exact ⟨_, .refl, simulates_start⟩
  | append_singleton calls call ih =>
    obtain ⟨w₁, hinit, hlast⟩ := exists_of_foldlM_concat hrun
    have hsalts₁ := hsalts.of_step hlast
    obtain ⟨σ, hsteps, hsim⟩ := ih hinit hsalts₁
    have hsound := Handshake.sound_of_steps hsteps (hsim.distinct hsalts₁)
    obtain ⟨σ', hsteps', hsim'⟩ := hsim.step hsound hlast
    exact ⟨σ', hsteps.trans hsteps', hsim'⟩

omit [DecidableEq ι] in
theorem mem_pushed {x : UInt64} (hx : x ∈ w.connectedIds) : .clientConnected x ∈ w.pushed := by
  obtain ⟨event, hevent, heq⟩ := List.mem_filterMap.mp hx
  cases event with
  | clientConnected id =>
    cases heq
    exact hevent
  | clientDisconnected id reason => cases heq

omit [DecidableEq ι] in
/-- The ids of the events are those of the abstract sessions. -/
theorem Simulates.connectedIds_eq (h : Simulates S w σ) :
    w.connectedIds = σ.sessions.map (Handshake.Ticket.combined xorOf) := by
  rw [h.events, h.sessions, List.map_map]
  rfl

omit [DecidableEq ι] in
/-- **One event for each call of `connect`.** -/
theorem Simulates.length_arisingFrom_le (h : Simulates S w σ) (hsound : Handshake.Sound σ)
    (hsalts : w.SaltsDistinct) {e : ι × UInt64} (he : e ∈ w.attempts) :
    (w.arisingFrom e.2).length ≤ 1 := by
  have hd := h.distinct hsalts
  -- an id that arises from the call is that of a session with its salt
  have hticket : ∀ x ∈ w.arisingFrom e.2, ∃ t ∈ σ.sessions, t.combined xorOf = x ∧
    t.clientSalt = e.2 := by
    intro x hx
    obtain ⟨hmem, hany⟩ := List.mem_filter.mp hx
    rw [h.connectedIds_eq] at hmem
    obtain ⟨t, ht, rfl⟩ := List.mem_map.mp hmem
    obtain ⟨s, hs, heq⟩ := List.any_eq_true.mp hany
    rw [h.serverSalts] at hs
    rw [h.attempts] at he
    have hoffer := hsound.answers t (hsound.sessions t ht)
    obtain ⟨hc, -⟩ := hd.combined e.2 (List.mem_map_of_mem he) s hs t.clientSalt
      (List.mem_map_of_mem (hsound.offers t hoffer)) t.serverSalt
        (List.mem_map_of_mem hoffer) (beq_iff_eq.mp heq)
    exact ⟨t, ht, rfl, hc.symm⟩
  have hsame : ∀ x ∈ w.arisingFrom e.2, ∀ y ∈ w.arisingFrom e.2, x = y := by
    intro x hx y hy
    obtain ⟨t, ht, rfl, htc⟩ := hticket x hx
    obtain ⟨t', ht', rfl, htc'⟩ := hticket y hy
    rw [List.inj_on_of_nodup_map hsound.nodup_clientSalts ht ht' (htc.trans htc'.symm)]
  have hnodup : (w.arisingFrom e.2).Nodup := by
    refine List.Nodup.filter _ ?_
    rw [h.connectedIds_eq]
    exact hsound.nodup_combined hd
  match hlist : w.arisingFrom e.2 with
  | [] => exact Nat.zero_le 1
  | [x] => exact le_rfl
  | x :: y :: rest =>
    rw [hlist] at hsame hnodup
    have hxy : x = y := hsame x (List.mem_cons_self ..) y
      (List.mem_cons_of_mem _ (List.mem_cons_self ..))
    rw [hxy] at hnodup
    exact absurd (List.mem_cons_self ..) (List.nodup_cons.mp hnodup).1

/-- **Handshake agreement.** In every run in which the salts and their xors are distinct: the server
has pushed a `ClientConnected` event for each client in state `Connected`, with its id and for a
session at its address; it has pushed no id twice; at most one such event arises from each call of
`connect`; and each of them arises from one, of a client at the address of the session.

Clients may even share their addresses: salts alone tell them apart. -/
theorem agreement {calls : List (Call ι)} (hrun : (start S).run S calls = .ok w)
    (hsalts : w.SaltsDistinct) :
    (∀ i x, (w.client i).state = .connected → (w.client i).xorSalt = some x →
      .clientConnected x ∈ w.pushed ∧ (x, S.clientAddr i) ∈ w.sessions) ∧
    w.connectedIds = w.sessions.map Prod.fst ∧ w.connectedIds.Nodup ∧
    (∀ e ∈ w.attempts, (w.arisingFrom e.2).length ≤ 1) ∧
    ∀ p ∈ w.sessions, ∃ e ∈ w.attempts, S.clientAddr e.1 = p.2 ∧ p.1 ∈ w.arisingFrom e.2 := by
  obtain ⟨σ, hsteps, h⟩ := simulates_of_run hrun hsalts
  have hd := h.distinct hsalts
  have hsound := Handshake.sound_of_steps hsteps hd
  refine ⟨?_, h.events, ?_, fun e he => h.length_arisingFrom_le hsound hsalts he, ?_⟩
  · intro i x hstate hsalt
    obtain ⟨clientSalt, serverSalt, hclient, hserver, hxor, -⟩ :=
      (h.ready i).consistent.talking (Or.inr (Or.inl hstate))
    obtain rfl : clientSalt ^^^ serverSalt = x := Option.some.inj (hxor.symm.trans hsalt)
    have hphase := Client.phase_connected hstate hclient hserver
    rw [h.phase i] at hphase
    have hsession := List.mem_map_of_mem (f := sessionKey S)
      (hsound.connected i clientSalt serverSalt hphase)
    rw [← h.sessions] at hsession
    refine ⟨mem_pushed ?_, hsession⟩
    rw [h.events]
    exact List.mem_map_of_mem (f := Prod.fst) hsession
  · rw [h.connectedIds_eq]
    exact hsound.nodup_combined hd
  · intro p hp
    rw [h.sessions] at hp
    obtain ⟨t, ht, rfl⟩ := List.mem_map.mp hp
    have hoffer := hsound.answers t (hsound.sessions t ht)
    refine ⟨(t.owner, t.clientSalt), ?_, rfl, ?_⟩
    · rw [h.attempts]
      exact hsound.offers t hoffer
    · refine List.mem_filter.mpr ⟨?_, List.any_eq_true.mpr ⟨t.serverSalt, ?_, beq_self_eq_true _⟩⟩
      · rw [h.connectedIds_eq]
        exact List.mem_map_of_mem ht
      · rw [h.serverSalts]
        exact List.mem_map_of_mem hoffer

/-- Two clients and a server, all with default configurations. -/
def pair : Setup Bool where
  serverAddr := .v4 1 1
  clientAddr i := .v4 2 (if i then 1 else 2)
  serverChecks := true
  serverTime := 0
  serverConfig := .default
  clientChecks _ := true
  clientTime _ := 0
  clientConfig _ := .default

/-- A client connects. Its response arrives twice, and so does its request, after the handshake: the
server makes another offer, which is not answered. -/
def lateRequest : List (Call Bool) := [
  .connect true (.v4 1 1) 7, .update true 1, .visitPacketsToSend true,
  .serverUpdate 1, .serverReceive 0 9, .serverUpdate 1, .serverVisitPacketsToSend,
  .receive true 1, .visitPacketsToSend true,
  .serverReceive 2 0, .serverReceive 2 0, .serverReceive 0 16,
    .serverUpdate 1, .serverVisitPacketsToSend,
  .receive true 3, .receive true 4]

theorem agreement_lateRequest : ∃ w, (start pair).run pair lateRequest = .ok w ∧ w.SaltsDistinct ∧
    w.serverSalts = [9, 16] ∧ (w.client true).state = .connected ∧
      (w.client true).xorSalt = some 14 ∧
    (14, pair.clientAddr true) ∈ w.sessions ∧ (w.arisingFrom 7).length ≤ 1 := by
  obtain ⟨w, hrun, htest⟩ :=
    exists_of_any_toOption (show ((start pair).run pair lateRequest).toOption.any
    (fun w => decide w.SaltsDistinct && decide (w.serverSalts = [9, 16]) &&
      decide ((w.client true).state = .connected) && decide ((w.client true).xorSalt = some 14) &&
      decide ((true, (7 : UInt64)) ∈ w.attempts)) = true by decide +kernel)
  simp only [Bool.and_eq_true, decide_eq_true_eq] at htest
  obtain ⟨⟨⟨⟨hsalts, hserver⟩, hstate⟩, hxor⟩, hattempt⟩ := htest
  obtain ⟨hagree, -, -, honce, -⟩ := agreement hrun hsalts
  exact ⟨w, hrun, hsalts, hserver, hstate, hxor, (hagree true 14 hstate hxor).2, honce _ hattempt⟩

end World

end Pickleback
