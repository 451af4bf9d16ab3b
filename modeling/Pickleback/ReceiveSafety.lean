import Pickleback.Admission
import Pickleback.ServerEndpoints

/-!
# Receiving without a panic

`Endpoint.Receptive` holds of every endpoint of a reachable server or client, so a packet that is
admitted by the endpoint it is for is received: the call returns, be it with an error. A packet that
is not admitted ends in a panic, and a connected peer can send one.

## Main definitions

* `MessageDispatcher.WellKept` — what receiving rests on, beside `Endpoint.Intact`
* `Server.addressee` — the endpoint that a packet is for
* `Server.Admits`, `Client.Admits` — bytes that do no harm

## Main results

* `Endpoint.Reachable.receptive` — every reachable endpoint is receptive
* `exists_receive_iff` — servers and clients receive exactly what they admit
-/

namespace Pickleback

/-! ### Dispatchers -/

/-- The messages of packets are on channels that there are, and the counters of the reassembler are
right. -/
structure MessageDispatcher.WellKept (d : MessageDispatcher) : Prop where
  handles : ∀ id handles, d.messagesInPackets.get id = some handles → ∀ handle ∈ handles,
    handle.channel ∈ [(0 : UInt8), 1]
  reassembler : d.messageReassembler.Consistent

namespace MessageDispatcher.WellKept

variable {d d' : MessageDispatcher}

theorem sameIntake (h : d.WellKept) (hsame : d.SameIntake d') : d'.WellKept where
  handles := by
    rw [hsame.messagesInPackets]
    exact h.handles
  reassembler := by
    rw [hsame.messageReassembler]
    exact h.reassembler

theorem ackedPacket (h : d.WellKept) {id : PacketId} {channels channels' : ChannelList}
    {buffers : List PooledBuffer}
    (hcall : d.ackedPacket id channels = .ok (buffers, d', channels')) : d'.WellKept := by
  have hremoved : WellKept { d with messagesInPackets := (d.messagesInPackets.remove id).2 } :=
    ⟨fun id' handles hget => h.handles id' handles (SequenceBuffer.get_of_get_remove hget),
      h.reassembler⟩
  exact hremoved.sameIntake (sameIntake_ackedPacket hcall)

theorem records (h : d.WellKept) {payload : List UInt8} {ms : List Message}
    {res : Except PicklebackError MessageId}
    (hrec : d.Records payload ms res d') : d'.WellKept := by
  cases hrec <;> exact ⟨h.handles, h.reassembler⟩

/-- A packet of messages is recorded. -/
theorem insert (h : d.WellKept) {id : PacketId} {handles : List MessageHandle}
    {b : SequenceBuffer (List MessageHandle)} (hb : d.messagesInPackets.insert id handles = .ok b)
    (hhandles : ∀ handle ∈ handles, handle.channel ∈ [(0 : UInt8), 1]) :
    WellKept { d with messagesInPackets := b } where
  handles id' handles' hget := by
    obtain ⟨-, rfl⟩ | hold := SequenceBuffer.get_of_get_insert hb hget
    · exact hhandles
    · exact h.handles id' handles' hold
  reassembler := h.reassembler

theorem processReceivedMessage (h : d.WellKept) {m : Message}
    (hcall : d.processReceivedMessage m = .ok d') : d'.WellKept := by
  refine ⟨?_, (parts_processReceivedMessage h.reassembler hcall).1⟩
  rw [processReceivedMessage_eq_ok hcall]
  exact h.handles

end MessageDispatcher.WellKept

/-! ### Endpoints -/

namespace Endpoint

variable {p p' : Endpoint}

theorem wellKept_new (overflowChecks : Bool) (config : PicklebackConfig) (time : Time) :
    (Endpoint.new overflowChecks config time).dispatcher.WellKept :=
  ⟨fun _ _ h => (by cases h), MessageReassembler.consistent_empty⟩

theorem wellKept_processIncomingPacket (h : p.dispatcher.WellKept) {header : ProtocolPacketHeader}
    {payload : List UInt8} {r : Except PicklebackError Unit}
    (hcall : p.processIncomingPacket header payload = .ok (p', r)) : p'.dispatcher.WellKept := by
  refine processIncomingPacket_induct (I := fun p => p.dispatcher.WellKept) ?_ ?_ ?_ ?_ h hcall
  · intro q q' hq hsame
    rw [hsame]
    exact hq
  · intro q b id m hq hb
    exact hq
  · intro q q' packetType ack hq hack
    obtain rfl | ⟨_, _, _, _, -, -, hd, hq'⟩ := processAck_cases hack
    · exact hq
    · rw [hq']
      exact hq.ackedPacket hd
  · intro q q' m hq hm
    simp only [receiveMessage] at hm
    split at hm
    · cases hm
      exact hq
    · split at hm
      · obtain ⟨d, hd, rfl⟩ := exists_of_map_eq_ok hm
        exact hq.processReceivedMessage hd
      · cases hm
        exact hq

theorem wellKept_sendControl (h : p.dispatcher.WellKept) {t : PacketType}
    {build : ProtocolPacketHeader → ProtocolPacket} {r : Except PicklebackError Unit}
    (hcall : p.sendControl t build = .ok (p', r)) : p'.dispatcher.WellKept := by
  rw [dispatcher_sendControl hcall]
  exact h

/-- The messages of a packet come from the channels. -/
theorem Intact.wellKept_emits (hintact : p.Intact) (h : p.dispatcher.WellKept) {e : Emission}
    (hemits : p.Emits e p') : p'.dispatcher.WellKept := by
  rw [hemits.rest]
  refine h.insert hemits.handles fun handle hmem => ?_
  obtain ⟨m, hm, rfl⟩ := List.mem_map.mp hmem
  obtain ⟨ch, hch, hholds⟩ := hemits.held m hm
  have hchannel := ((hintact.channels.sound ch hch).of_holds hholds).1
  rw [← hintact.ids]
  exact List.mem_map.mpr ⟨ch, hch, hchannel.symm⟩

theorem Intact.wellKept_emitsAll (hintact : p.Intact) (h : p.dispatcher.WellKept)
    {es : List Emission}
    (hall : p.EmitsAll es p') : p'.dispatcher.WellKept := by
  induction hall with
  | nil _ => exact h
  | cons hemits _ ih => exact ih (hintact.emits hemits) (hintact.wellKept_emits h hemits)

theorem Intact.wellKept_step (hintact : p.Intact) (h : p.dispatcher.WellKept) {c : Call}
    (hstep : p.step c = .ok p') : p'.dispatcher.WellKept := by
  cases c with
  | setXorSalt salt =>
    cases hstep
    exact h
  | sendMessage channel payload =>
    obtain ⟨⟨p₁, res⟩, hcall, rfl⟩ := exists_of_map_eq_ok hstep
    obtain ⟨-, hp⟩ | ⟨_, _, -, -, -, hrec, -⟩ :=
      sendMessage_cases (by rw [hintact.config]; exact le_rfl) hcall
    · rw [hp]
      exact h
    · exact h.records hrec
  | update dt =>
    cases hstep
    exact h
  | visitPacketsToSend =>
    obtain ⟨⟨p₁, packets⟩, hcall, rfl⟩ := exists_of_map_eq_ok hstep
    obtain ⟨es, p₂, p₃, r, hall, -, hstop, rfl, -⟩ := visitPacketsToSend_cases hintact hcall
    have h₂ := hintact.wellKept_emitsAll h hall
    cases hstop <;> exact h₂
  | sendControl packetType build =>
    obtain ⟨⟨p₁, r⟩, hcall, rfl⟩ := exists_of_map_eq_ok hstep
    exact wellKept_sendControl h hcall
  | processIncomingPacket header payload =>
    obtain ⟨⟨p₁, r⟩, hcall, rfl⟩ := exists_of_map_eq_ok hstep
    exact wellKept_processIncomingPacket h hcall
  | drainReceivedMessages channel =>
    cases hstep
    exact ⟨h.handles, h.reassembler⟩
  | drainMessageAcks channel =>
    cases hstep
    exact ⟨h.handles, h.reassembler⟩

theorem Reachable.wellKept {overflowChecks : Bool} (h : Reachable overflowChecks .default p) :
    p.dispatcher.WellKept := by
  induction h with
  | new time => exact wellKept_new overflowChecks .default time
  | step hreach hstep ih => exact hreach.intact.wellKept_step ih hstep

/-- **Every reachable endpoint is receptive.** -/
theorem Reachable.receptive {overflowChecks : Bool} (h : Reachable overflowChecks .default p) :
    p.Receptive where
  sentLen_pos := by
    rw [h.intact.sentLen]
    decide
  sentLen_lt := by
    rw [h.intact.sentLen]
    decide
  handles id handles hget handle hmem := by
    have hchannel := h.wellKept.handles id handles hget handle hmem
    rw [← h.intact.ids] at hchannel
    obtain ⟨ch, hch, hid⟩ := List.mem_map.mp hchannel
    rw [ChannelList.window, Option.isSome_map, ChannelList.get?, List.find?_isSome]
    exact ⟨ch, hch, by rw [hid, beq_self_eq_true]⟩
  reassembler := h.wellKept.reassembler

/-- No acks mean anything to an endpoint that has sent nothing with messages, and no messages are
looked for in a packet of another type. -/
theorem admits_of_no_handles (hnone : ∀ id, p.dispatcher.messagesInPackets.get id = none)
    {header : ProtocolPacketHeader} {payload : List UInt8} (htype : header.packetType ≠ .messages) :
    p.Admits header payload := by
  refine fun _ => ⟨admitsAcks_of_whole fun id _ handle hmem => ?_, fun heq => absurd heq htype⟩
  rw [MessageDispatcher.handlesOf, hnone] at hmem
  cases hmem

/-- The salt is not looked at. -/
theorem admits_setXorSalt (p : Endpoint) (salt : Option UInt64) (header : ProtocolPacketHeader)
    (payload : List UInt8) : (p.setXorSalt salt).Admits header payload ↔ p.Admits header payload :=
  .rfl

end Endpoint

/-! ### Servers -/

namespace Server

/-- The endpoint that a packet from `addr` is handed to, unless it is a new one. -/
def addressee (s : Server) (addr : SocketAddr) : ProtocolPacket → Option Endpoint
  | .connectionRequest _ clientSalt version =>
    if version = protocolVersion then
      (s.pendingClients.find? fun pc => pc.clientSalt == clientSalt && pc.socketAddr == addr).map
        PendingClient.pickleback
    else none
  | .connectionChallengeResponse _ xorSalt =>
    match s.takePendingByXorSalt xorSalt addr with
    | some (pc, _) => some pc.pickleback
    | none =>
      (s.connectedClients.find? fun cc => cc.xorSalt == xorSalt).map ConnectedClient.pickleback
  | .keepAlive _ xorSalt _ | .messages _ xorSalt =>
    (s.connectedClients.find? fun cc => cc.xorSalt == xorSalt && cc.socketAddr == addr).map
      ConnectedClient.pickleback
  | _ => none

/-- **Bytes that do no harm** to the server: the endpoint they are for admits the packet. -/
def Admits (s : Server) (bytes : List UInt8) (addr : SocketAddr) : Prop :=
  ∀ packet rest p, readPacket bytes = .ok (packet, rest) → s.addressee addr packet = some p →
    p.Admits packet.header rest

section Receive

variable {s : Server} {salt xorSalt : UInt64} {header : ProtocolPacketHeader} {rest : List UInt8}
  {addr : SocketAddr}

theorem exists_deny (s : Server) (addr : SocketAddr) (reason : DisconnectReason) :
    ∃ r, s.deny addr reason = .ok r := by
  simp only [deny, writePacket, ProtocolPacket.bytes]
  split
  · next h => cases h
  · exact ⟨_, rfl⟩
  · exact ⟨_, rfl⟩

/-- A pending client takes the request again if it can, and a new one takes any. -/
theorem exists_receiveRequest_iff {clientSalt : UInt64}
    (hreceptive : ∀ pc ∈ s.pendingClients, pc.pickleback.Receptive)
    (htype : header.packetType ≠ .messages) :
    (∃ r, s.receiveRequest salt header rest clientSalt addr = .ok r) ↔
      ∀ pc, (s.pendingClients.find? fun pc =>
          pc.clientSalt == clientSalt && pc.socketAddr == addr) = some pc →
        pc.pickleback.Admits header rest := by
  have hcall : ∀ pc : PendingClient, pc ∈ s.pendingClients →
      ((∃ r, ((pc.pickleback.processIncomingPacket header rest).map
        fun r => ({ pc with pickleback := r.1 }, r.2)) = .ok r) ↔
          pc.pickleback.Admits header rest) := by
    intro pc hpc
    rw [← (hreceptive pc hpc).exists_processIncomingPacket_iff]
    exact exists_map_eq_ok_iff
  have hfirst := exists_callOnFirst_iff (fun pc : PendingClient =>
      (pc.pickleback.processIncomingPacket header rest).map
        fun r => ({ pc with pickleback := r.1 }, r.2))
    (fun pc => pc.clientSalt == clientSalt && pc.socketAddr == addr) s.pendingClients
  have hiff : (∀ pc, (s.pendingClients.find? fun pc =>
        pc.clientSalt == clientSalt && pc.socketAddr == addr) = some pc →
      pc.pickleback.Admits header rest) ↔ _ := Iff.trans
    (forall₂_congr fun pc hpc => (hcall pc (List.mem_of_find?_eq_some hpc)).symm) hfirst.symm
  rw [hiff, receiveRequest]
  constructor
  · rintro ⟨r, hr⟩
    split at hr
    · cases hr
    · next hfound => exact ⟨_, hfound⟩
    · next hfound => exact ⟨_, hfound⟩
  · rintro ⟨found, hfound⟩
    rw [hfound]
    cases found with
    | some found => exact ⟨_, rfl⟩
    | none =>
      -- a new endpoint has sent nothing, so it admits any request
      obtain ⟨⟨p, r⟩, hp⟩ := ((Endpoint.Reachable.new s.time :
        Endpoint.Reachable s.overflowChecks .default _).receptive.exists_processIncomingPacket_iff
          header rest).mpr (Endpoint.admits_of_no_handles (fun _ => rfl) htype)
      dsimp only
      rw [hp]
      cases r with
      | error e => exact ⟨_, rfl⟩
      | ok u => exact ⟨_, rfl⟩

/-- The client that a response is from becomes a connected one, or is lost to an error. -/
theorem exists_promote_iff {pc : PendingClient} (hreceptive : pc.pickleback.Receptive)
    (hsalt : (pc.clientSalt ^^^ pc.serverSalt) = xorSalt) :
    (∃ r, s.promote pc header rest xorSalt addr = .ok r) ↔ pc.pickleback.Admits header rest := by
  have hset : (pc.pickleback.setXorSalt (some xorSalt)).Receptive :=
    ⟨hreceptive.sentLen_pos, hreceptive.sentLen_lt, hreceptive.handles, hreceptive.reassembler⟩
  rw [← Endpoint.admits_setXorSalt _ (some xorSalt), ← hset.exists_processIncomingPacket_iff,
    promote, if_neg (not_not.mpr hsalt.symm)]
  constructor
  · rintro ⟨r, hr⟩
    split at hr
    · cases hr
    · next hp => exact ⟨_, hp⟩
    · next hp => exact ⟨_, hp⟩
  · rintro ⟨⟨p, r⟩, hp⟩
    rw [hp]
    cases r with
    | error e => exact ⟨_, rfl⟩
    | ok u =>
      obtain ⟨p', r', hp'⟩ := p.exists_sendControl .keepAlive
        (fun header => .keepAlive header xorSalt 0) fun _ => ⟨_, rfl⟩
      dsimp only
      rw [hp']
      cases r' <;> exact ⟨_, rfl⟩

/-- A connected client takes what its endpoint admits, whatever else is noted of it. -/
theorem exists_processIncomingPacket_iff (cc : ConnectedClient)
    (hreceptive : cc.pickleback.Receptive) :
    (∃ r, cc.processIncomingPacket header rest = .ok r) ↔ cc.pickleback.Admits header rest := by
  rw [← hreceptive.exists_processIncomingPacket_iff, ConnectedClient.processIncomingPacket]
  exact exists_map_eq_ok_iff

theorem exists_receiveConnected_iff
    (hreceptive : ∀ cc ∈ s.connectedClients, cc.pickleback.Receptive) :
    (∃ r, s.receiveConnected header rest xorSalt addr = .ok r) ↔
      ∀ cc, (s.connectedClients.find? fun cc =>
          cc.xorSalt == xorSalt && cc.socketAddr == addr) = some cc →
        cc.pickleback.Admits header rest := by
  have hfirst := exists_callOnFirst_iff (fun cc : ConnectedClient =>
      { cc with confirmed := true, lastReceivedTime := s.time }.processIncomingPacket header rest)
    (fun cc => cc.xorSalt == xorSalt && cc.socketAddr == addr) s.connectedClients
  have hiff : (∀ cc, (s.connectedClients.find? fun cc =>
        cc.xorSalt == xorSalt && cc.socketAddr == addr) = some cc →
      cc.pickleback.Admits header rest) ↔ _ := Iff.trans
    (forall₂_congr fun cc hcc => (exists_processIncomingPacket_iff
      { cc with confirmed := true, lastReceivedTime := s.time }
      (hreceptive cc (List.mem_of_find?_eq_some hcc))).symm) hfirst.symm
  rw [hiff, receiveConnected]
  constructor
  · rintro ⟨r, hr⟩
    split at hr
    · cases hr
    · next hfound => exact ⟨_, hfound⟩
    · next hfound => exact ⟨_, hfound⟩
  · rintro ⟨found, hfound⟩
    rw [hfound]
    cases found <;> exact ⟨_, rfl⟩

theorem exists_receiveResponse_iff
    (hpending : ∀ pc ∈ s.pendingClients, pc.pickleback.Receptive)
    (hconnected : ∀ cc ∈ s.connectedClients, cc.pickleback.Receptive) :
    (∃ r, s.receiveResponse header rest xorSalt addr = .ok r) ↔
      ∀ p, s.addressee addr (.connectionChallengeResponse header xorSalt) = some p →
        p.Admits header rest := by
  rw [receiveResponse, addressee]
  cases htake : s.takePendingByXorSalt xorSalt addr with
  | some x =>
    obtain ⟨pc, left⟩ := x
    obtain ⟨before, after, heq, -, htest⟩ := takeFirst_cases htake
    rw [Bool.and_eq_true, beq_iff_eq] at htest
    have hmem : pc ∈ s.pendingClients := by
      rw [heq]
      exact List.mem_append_right _ (List.mem_cons_self ..)
    dsimp only
    rw [exists_promote_iff (hpending pc hmem) htest.1]
    simp only [Option.some.injEq, forall_eq']
  | none =>
    dsimp only
    have hfirst := exists_callOnFirst_iff
      (ConnectedClient.processIncomingPacket header rest)
      (fun cc : ConnectedClient => cc.xorSalt == xorSalt) s.connectedClients
    have hiff : (∀ p, (s.connectedClients.find? fun cc => cc.xorSalt == xorSalt).map
          ConnectedClient.pickleback = some p → p.Admits header rest) ↔ _ := Iff.trans (by
      simp only [Option.map_eq_some_iff, forall_exists_index, and_imp, forall_apply_eq_imp_iff₂]
      exact forall₂_congr fun cc hcc => (exists_processIncomingPacket_iff cc
        (hconnected cc (List.mem_of_find?_eq_some hcc))).symm) hfirst.symm
    rw [hiff]
    constructor
    · rintro ⟨r, hr⟩
      split at hr
      · cases hr
      · next hfound => exact ⟨_, hfound⟩
      · next hfound => exact ⟨_, hfound⟩
    · rintro ⟨found, hfound⟩
      rw [hfound]
      cases found with
      | none => exact exists_deny s addr .handshakeTimeout
      | some found => exact ⟨_, rfl⟩

/-- **A server receives** exactly what it admits. -/
theorem exists_receive_iff_admits (hpending : ∀ pc ∈ s.pendingClients, pc.pickleback.Receptive)
    (hconnected : ∀ cc ∈ s.connectedClients, cc.pickleback.Receptive) (bytes : List UInt8) :
    (∃ r, s.receive salt bytes addr = .ok r) ↔ s.Admits bytes addr := by
  rw [receive, Admits]
  cases hread : readPacket bytes with
  | error e => exact iff_of_true ⟨_, rfl⟩ fun _ _ _ h => (by cases h)
  | ok x =>
    obtain ⟨packet, rest⟩ := x
    have htype := packetType_of_readPacket hread
    have hone : (∀ packet' rest' p, (Except.ok (packet, rest) :
          Except PicklebackError (ProtocolPacket × List UInt8)) = .ok (packet', rest') →
        s.addressee addr packet' = some p → p.Admits packet'.header rest') ↔
        ∀ p, s.addressee addr packet = some p → p.Admits packet.header rest := by
      constructor
      · exact fun h p hp => h packet rest p rfl hp
      · rintro h _ _ p ⟨⟩ hp
        exact h p hp
    rw [hone]
    have hnothing : ∀ packet', s.addressee addr packet' = none →
        ∀ p, s.addressee addr packet' = some p → p.Admits packet.header rest := by
      intro packet' hnone p hp
      cases hnone.symm.trans hp
    cases packet with
    | connectionRequest header clientSalt version =>
      dsimp only
      rw [handlePacket, addressee]
      by_cases hversion : version = protocolVersion
      · rw [if_neg (not_not.mpr hversion), if_pos hversion, exists_receiveRequest_iff hpending
          (by rw [show header.packetType = .connectionRequest from htype]; decide)]
        simp only [Option.map_eq_some_iff, forall_exists_index, and_imp, forall_apply_eq_imp_iff₂]
        rfl
      · rw [if_pos hversion, if_neg hversion]
        exact iff_of_true (exists_deny s addr .protocolMismatch) fun _ h => (by cases h)
    | connectionChallengeResponse header xorSalt =>
      exact exists_receiveResponse_iff hpending hconnected
    | disconnect header xorSalt => exact iff_of_true ⟨_, rfl⟩ (hnothing _ rfl)
    | keepAlive header xorSalt index =>
      dsimp only
      rw [handlePacket, addressee, exists_receiveConnected_iff hconnected]
      simp only [Option.map_eq_some_iff, forall_exists_index, and_imp, forall_apply_eq_imp_iff₂]
      rfl
    | messages header xorSalt =>
      dsimp only
      rw [handlePacket, addressee, exists_receiveConnected_iff hconnected]
      simp only [Option.map_eq_some_iff, forall_exists_index, and_imp, forall_apply_eq_imp_iff₂]
      rfl
    | connectionChallenge header clientSalt serverSalt =>
      exact iff_of_true ⟨_, rfl⟩ (hnothing _ rfl)
    | connectionDenied header reason => exact iff_of_true ⟨_, rfl⟩ (hnothing _ rfl)

end Receive

/-- **The endpoints of a reachable server** are reachable. -/
theorem each_reachable {overflowChecks : Bool} {time : Time} {config : PicklebackConfig}
    {calls : List Call}
    {s : Server} (hrun : (new overflowChecks time config).run calls = .ok s) :
    s.Each overflowChecks fun p => Endpoint.Reachable overflowChecks .default p ∧
      p.Posts fun _ => True :=
  (keeps_posts overflowChecks (fun _ _ _ => trivial) (fun _ _ _ => trivial) fun _ _ => trivial).run
    (each_new time config) hrun

end Server

/-! ### Clients -/

namespace Client

/-- The states of the runs of a client, from which the application also takes messages, acks and
transitions. -/
inductive Reachable (overflowChecks : Bool) (config : PicklebackConfig) : Client → Prop
  | new (time : Time) : Reachable overflowChecks config (Client.new overflowChecks time config)
  | step {c c' : Client} {call : Call} (h : Reachable overflowChecks config c)
    (hstep : c.step call = .ok c') :
    Reachable overflowChecks config c'
  /-- `drain_received_messages`. -/
  | drainReceivedMessages {c : Client} (h : Reachable overflowChecks config c) (channel : UInt8) :
    Reachable overflowChecks config { c with pickleback :=
      (c.pickleback.drainReceivedMessages channel).1 }
  /-- `drain_message_acks`. -/
  | drainMessageAcks {c : Client} (h : Reachable overflowChecks config c) (channel : UInt8) :
    Reachable overflowChecks config { c with pickleback :=
      (c.pickleback.drainMessageAcks channel).1 }
  /-- `drain_state_transitions`. -/
  | drainStateTransitions {c : Client} (h : Reachable overflowChecks config c) :
    Reachable overflowChecks config { c with stateTransitions := [] }

/-- **A packet that does no harm** to the client: only messages of a connected server can. -/
def Admits (c : Client) (bytes : List UInt8) (source : SocketAddr) : Prop :=
  ∀ header xorSalt rest, readPacket bytes = .ok (.messages header xorSalt, rest) →
    c.serverAddr = some source →
    c.state = .connected → c.xorSalt = some xorSalt → c.pickleback.Admits header rest

variable {overflowChecks : Bool} {config : PicklebackConfig} {c : Client}

theorem keeps_wellKept : Keeps overflowChecks config fun p =>
    (p.Quiet config ∧ p.overflowChecks = overflowChecks) ∧ p.dispatcher.WellKept where
  setup h := keeps_quiet.setup h.1
  new time := ⟨keeps_quiet.new time, Endpoint.wellKept_new overflowChecks config time⟩
  setXorSalt salt h := ⟨keeps_quiet.setXorSalt salt h.1, h.2⟩
  update dt h := ⟨keeps_quiet.update dt h.1, h.2⟩
  processIncomingPacket h hcall :=
    ⟨keeps_quiet.processIncomingPacket h.1 hcall, Endpoint.wellKept_processIncomingPacket h.2 hcall⟩
  sendControl h hcall :=
    ⟨keeps_quiet.sendControl h.1 hcall, Endpoint.wellKept_sendControl h.2 hcall⟩
  visitPacketsToSend {p p' packets} h hcall := by
    refine ⟨keeps_quiet.visitPacketsToSend h.1 hcall, ?_⟩
    rw [h.1.1.visitPacketsToSend.1] at hcall
    cases hcall
    exact h.2

theorem Reachable.run {calls : List Call} {c' : Client} (h : Reachable overflowChecks config c)
    (hrun : c.run calls = .ok c') : Reachable overflowChecks config c' := by
  induction calls generalizing c with
  | nil =>
    cases hrun
    exact h
  | cons call calls ih =>
    obtain ⟨c₁, hc₁, hrest⟩ := exists_of_foldlM_cons hrun
    exact ih (h.step hc₁) hrest

theorem Reachable.wellKept (h : Reachable overflowChecks config c) :
    (c.pickleback.Quiet config ∧ c.pickleback.overflowChecks = overflowChecks) ∧
      c.pickleback.dispatcher.WellKept := by
  induction h with
  | new time => exact keeps_wellKept.new 0
  | step _ hstep ih => exact keeps_wellKept.step ih hstep
  | drainReceivedMessages _ channel ih =>
    obtain ⟨⟨hquiet, hchecks⟩, hkept⟩ := ih
    exact ⟨⟨⟨hquiet.idle, hquiet.handles, hquiet.sentLen, hquiet.receivedLen, hquiet.config⟩,
      hchecks⟩, hkept.handles, hkept.reassembler⟩
  | drainMessageAcks _ channel ih =>
    obtain ⟨⟨hquiet, hchecks⟩, hkept⟩ := ih
    exact ⟨⟨⟨hquiet.idle, hquiet.handles, hquiet.sentLen, hquiet.receivedLen, hquiet.config⟩,
      hchecks⟩, hkept.handles, hkept.reassembler⟩
  | drainStateTransitions _ ih => exact ih

theorem get_of_quiet {p : Endpoint} (h : p.Quiet config) (id : PacketId) :
    p.dispatcher.messagesInPackets.get id = none := by
  rw [SequenceBuffer.get, h.handles]
  rfl

/-- The endpoint of a client has no messages that could be acked. -/
theorem Reachable.receptive (h : Reachable overflowChecks config c) (hsized : config.Sized) :
    c.pickleback.Receptive where
  sentLen_pos := by
    rw [h.wellKept.1.1.sentLen]
    exact hsized.sent_pos
  sentLen_lt := by
    rw [h.wellKept.1.1.sentLen]
    exact hsized.sent_lt
  handles id handles hget := by
    rw [get_of_quiet h.wellKept.1.1] at hget
    cases hget
  reassembler := h.wellKept.2.reassembler

theorem exists_processThen_iff {header : ProtocolPacketHeader} {rest : List UInt8}
    (newState : Option ClientState) : (∃ r, c.processThen header rest newState = .ok r) ↔
      ∃ r, c.pickleback.processIncomingPacket header rest = .ok r := by
  rw [processThen]
  constructor
  · rintro ⟨r, hr⟩
    split at hr
    · cases hr
    · next hp => exact ⟨_, hp⟩
    · next hp => exact ⟨_, hp⟩
  · rintro ⟨⟨p, r⟩, hr⟩
    rw [hr]
    cases r <;> exact ⟨_, rfl⟩

/-- The packets of the handshake do no harm, and messages are looked at when the client is
connected. -/
theorem exists_handlePacket_iff {packet : ProtocolPacket} {rest : List UInt8}
    (hother : packet.packetType ≠ .messages →
      ∃ r, c.pickleback.processIncomingPacket packet.header rest = .ok r) :
    (∃ r, c.handlePacket packet rest = .ok r) ↔
      ∀ header x, packet = .messages header x → c.state = .connected → c.xorSalt = some x →
        ∃ r, c.pickleback.processIncomingPacket header rest = .ok r := by
  cases packet with
  | messages header xorSalt =>
    rw [handlePacket]
    split
    · next hconnected =>
      rw [exists_processThen_iff]
      constructor
      · rintro h _ _ ⟨⟩ - -
        exact h
      · exact fun h => h header xorSalt rfl hconnected.1 hconnected.2
    · next hnot =>
      refine iff_of_true ⟨_, rfl⟩ ?_
      rintro _ _ ⟨⟩ hconnected hsalt
      exact absurd ⟨hconnected, hsalt⟩ hnot
  | connectionChallenge header clientSalt serverSalt =>
    refine iff_of_true ?_ fun _ _ h => (by cases h)
    rw [handlePacket]
    split
    · split
      · exact ⟨_, rfl⟩
      · split
        · exact ⟨_, rfl⟩
        · exact (exists_processThen_iff _).mpr (by exact hother fun heq => by cases heq)
    · exact ⟨_, rfl⟩
  | connectionDenied header reason =>
    refine iff_of_true ?_ fun _ _ h => (by cases h)
    rw [handlePacket]
    split <;> exact ⟨_, rfl⟩
  | keepAlive header xorSalt index =>
    refine iff_of_true ?_ fun _ _ h => (by cases h)
    rw [handlePacket]
    split
    · split
      · exact (exists_processThen_iff _).mpr (by exact hother fun heq => by cases heq)
      · exact ⟨_, rfl⟩
    · exact ⟨_, rfl⟩
  | connectionRequest header clientSalt version =>
    exact iff_of_true ⟨_, rfl⟩ fun _ _ h => (by cases h)
  | connectionChallengeResponse header xorSalt =>
    exact iff_of_true ⟨_, rfl⟩ fun _ _ h => (by cases h)
  | disconnect header xorSalt => exact iff_of_true ⟨_, rfl⟩ fun _ _ h => (by cases h)

/-- **A client receives** exactly what it admits. -/
theorem Reachable.receives_iff_admits (h : Reachable overflowChecks config c)
    (hsized : config.Sized) (bytes : List UInt8) (source : SocketAddr) :
    (∃ r, c.receive bytes source = .ok r) ↔ c.Admits bytes source := by
  have hreceptive := h.receptive hsized
  rw [receive, Admits]
  cases hserver : c.serverAddr with
  | none => exact iff_of_true ⟨_, rfl⟩ fun _ _ _ _ h => (by cases h)
  | some addr =>
    dsimp only
    by_cases hsource : addr = source
    · rw [if_neg (not_not.mpr hsource)]
      cases hread : readPacket bytes with
      | error e => exact iff_of_true ⟨_, rfl⟩ fun _ _ _ h => (by cases h)
      | ok x =>
        obtain ⟨packet, rest⟩ := x
        have htype := packetType_of_readPacket hread
        have hother : packet.packetType ≠ .messages →
            ∃ r, c.pickleback.processIncomingPacket packet.header rest = .ok r := fun hne =>
          (hreceptive.exists_processIncomingPacket_iff _ _).mpr
            (Endpoint.admits_of_no_handles (get_of_quiet h.wellKept.1.1) (by rw [htype]; exact hne))
        have hiff := exists_handlePacket_iff
          (c := { c with lastReceiveTime := c.time, serverAddr := some addr }) hother
        constructor
        · rintro ⟨r, hr⟩ header xorSalt _ ⟨⟩ - hconnected hsalt
          dsimp only at hr
          split at hr
          · cases hr
          all_goals
            next hhandle =>
              exact (hreceptive.exists_processIncomingPacket_iff _ _).mp
                (hiff.mp ⟨_, hhandle⟩ header xorSalt rfl hconnected hsalt)
        · intro hadmits
          obtain ⟨⟨c', r⟩, hr⟩ := hiff.mpr fun header x heq hconnected hsalt =>
            (hreceptive.exists_processIncomingPacket_iff _ _).mpr
              (hadmits header x rest (by rw [heq]) (by rw [hsource]) hconnected hsalt)
          dsimp only
          rw [hr]
          cases r with
          | error e => exact ⟨_, rfl⟩
          | ok newState => cases newState <;> exact ⟨_, rfl⟩
    · rw [if_pos hsource]
      exact iff_of_true ⟨_, rfl⟩ fun _ _ _ _ heq => absurd (Option.some.inj heq) hsource

end Client

/-- **Exactly what is admitted is received**, by every reachable server and by every reachable
client. -/
theorem exists_receive_iff (overflowChecks : Bool) (config : PicklebackConfig) :
    (∀ (time : Time) (calls : List Server.Call) (s : Server) (salt : UInt64) (bytes : List UInt8)
      (addr : SocketAddr), (Server.new overflowChecks time config).run calls = .ok s →
        ((∃ r, s.receive salt bytes addr = .ok r) ↔ s.Admits bytes addr)) ∧
    ∀ (c : Client) (bytes : List UInt8) (source : SocketAddr), config.Sized →
      Client.Reachable overflowChecks config c →
        ((∃ r, c.receive bytes source = .ok r) ↔ c.Admits bytes source) := by
  constructor
  · intro time calls s salt bytes addr hrun
    have heach := Server.each_reachable hrun
    exact Server.exists_receive_iff_admits (fun pc hpc => (heach.pending pc hpc).1.receptive)
      (fun cc hcc => (heach.connected cc hcc).1.receptive) bytes
  · intro c bytes source hsized hreach
    exact hreach.receives_iff_admits hsized bytes source

/-- A `Messages` packet without acks. -/
def Server.messagesBytes (id : PacketId) (xorSalt : UInt64) (messages : List UInt8) : List UInt8 :=
  (ProtocolPacketHeader.newNoAcks id .messages).write ++ ByteCodec.writeU64 xorSalt ++ messages

/-- The second of two fragments, which is in place, the only fragment of a message on a channel that
there is not, and the header of one that is cut short. -/
def harmlessMessages : List UInt8 :=
  [1, 0, 1, 1, 2, 0, 0] ++ [57, 0, 0, 0, 1, 0, 0] ++ [1, 0, 0, 0, 1, 0, 5]

open Server in
/-- A server and a client that are connected, and these messages. -/
theorem exists_receive_iff_harmless :
    (∃ s r, (Server.new true 0 .default).run
      [.receive 5 (requestBytes 1 7) (.v4 1 1), .receive 0 (responseBytes 2 2) (.v4 1 1)] = .ok s ∧
        (s.addressee (.v4 1 1) (.messages (.newNoAcks 3 .messages) 2)).isSome = true ∧
        s.receive 0 (messagesBytes 3 2 harmlessMessages) (.v4 1 1) = .ok r) ∧
    ∃ c r, (Client.new true 0 .default).run Client.handshake = .ok c ∧ c.state = .connected ∧
      c.receive (messagesBytes 3 14 harmlessMessages) (.v4 1 2) = .ok r := by
  constructor
  · obtain ⟨s, hrun, htest⟩ := exists_of_any_toOption (show ((Server.new true 0 .default).run
        [.receive 5 (requestBytes 1 7) (.v4 1 1),
          .receive 0 (responseBytes 2 2) (.v4 1 1)]).toOption.any (fun s =>
        (s.addressee (.v4 1 1) (.messages (.newNoAcks 3 .messages) 2)).any fun p =>
          decide (p.Admits (.newNoAcks 3 .messages) harmlessMessages)) = true by decide +kernel)
    obtain ⟨p, hp, hadmits⟩ := (Option.any_eq_true ..).mp htest
    obtain ⟨r, hr⟩ := ((exists_receive_iff true .default).1 0 _ s 0
      (messagesBytes 3 2 harmlessMessages) (.v4 1 1) hrun).mpr (by
        intro packet rest p' hread hp'
        rw [show readPacket (messagesBytes 3 2 harmlessMessages)
          = .ok (.messages (.newNoAcks 3 .messages) 2, harmlessMessages) by decide +kernel] at hread
        cases hread
        cases hp.symm.trans hp'
        exact of_decide_eq_true hadmits)
    exact ⟨s, r, hrun, by rw [hp]; rfl, hr⟩
  · obtain ⟨c, hrun, htest⟩ := exists_of_any_toOption (show
        ((Client.new true 0 .default).run Client.handshake).toOption.any (fun c =>
          decide (c.state = .connected) &&
            decide (c.pickleback.Admits (.newNoAcks 3 .messages) harmlessMessages)) = true by
      decide +kernel)
    simp only [Bool.and_eq_true, decide_eq_true_eq] at htest
    obtain ⟨r, hr⟩ := ((exists_receive_iff true .default).2 c
      (messagesBytes 3 14 harmlessMessages) (.v4 1 2)
      PicklebackConfig.default_sized ((Client.Reachable.new 0).run hrun)).mpr (by
        intro header xorSalt rest hread _ _ _
        rw [show readPacket (messagesBytes 3 14 harmlessMessages)
          = .ok (.messages (.newNoAcks 3 .messages) 14, harmlessMessages) by decide +kernel]
            at hread
        cases hread
        exact htest.2)
    exact ⟨c, r, hrun, htest.1, hr⟩

open Server in
/-- The only fragment of a message. A peer that is connected can say so, and the server panics. -/
theorem not_exists_receive : ∃ s, (Server.new true 0 .default).run
      [.receive 5 (requestBytes 1 7) (.v4 1 1), .receive 0 (responseBytes 2 2) (.v4 1 1)] = .ok s ∧
    s.receive 0 (messagesBytes 3 2 [1, 0, 0, 0, 1, 0, 0]) (.v4 1 1) = .error .tooFewFragments := by
  obtain ⟨s, hrun, htest⟩ := exists_of_any_toOption (show ((Server.new true 0 .default).run
      [.receive 5 (requestBytes 1 7) (.v4 1 1),
        .receive 0 (responseBytes 2 2) (.v4 1 1)]).toOption.any
        (fun s => decide ((s.receive 0 (messagesBytes 3 2 [1, 0, 0, 0, 1, 0, 0]) (.v4 1 1)).map
          (fun _ => ())
          = .error .tooFewFragments)) = true by decide +kernel)
  exact ⟨s, hrun, eq_error_of_map_eq_error (of_decide_eq_true htest)⟩

end Pickleback
