import Pickleback.ControlPackets
import Pickleback.Sending

/-!
# The ids of the packets that are sent

`next_packet_header` takes the next packet id before it looks at how many received packets are
unacked, so an attempt that ends in `Backpressure` has used up an id. No packet with that id is ever
put into the outbox, and the distance between two ids is no longer the number of packets between
them. The same is true of a packet that turns out to be longer than `max_packet_size`, or whose id
is behind the window of sent packets: both depend on the configuration, and with the default one
neither happens.

## Main definitions

* `Endpoint.Placing` — runs, with the ids of the packets that were put into the outbox
* `Endpoint.GapFree` — the ids follow one another, and the unacked ones were all sent
* `Endpoint.Call.Unhindered` — no id is taken for a packet that cannot be sent

## Main results

* `Endpoint.Placing.gapFree` — in a run of such calls the ids are gap-free
* `Endpoint.not_gapFree_of_backpressure` — one attempt that failed leaves a gap
-/

namespace Pickleback

open ByteCodec

/-! ### Ids in bytes -/

/-- The id of a packet, which `ProtocolPacketHeader::write` puts behind the first byte. -/
def packetId? (bytes : List UInt8) : Option PacketId := (readU16 (bytes.drop 1)).map Prod.fst

theorem packetId?_write (header : ProtocolPacketHeader) (rest : List UInt8) :
    packetId? (header.write ++ rest) = some header.id := by
  rw [packetId?, ProtocolPacketHeader.write]
  split <;> simp [readU16_writeU16]

theorem ProtocolPacket.exists_bytes_eq {packet : ProtocolPacket}
    {bytes : List UInt8} (h : packet.bytes = .ok bytes) :
    ∃ rest, bytes = packet.header.write ++ rest ∧ rest.length ≤ 516 := by
  cases packet <;> simp only [ProtocolPacket.bytes, reduceCtorEq] at h <;> cases h
  all_goals
    refine ⟨_, by simp only [List.append_assoc, ProtocolPacket.header]; rfl, ?_⟩
    simp only [List.length_append, length_writeU64, length_writeU32,
      writeZeroBytes, List.length_replicate,
      List.length_singleton]
    omega

theorem ProtocolPacket.exists_bytes {packet : ProtocolPacket} (h : packet.packetType ≠ .messages) :
    ∃ bytes, packet.bytes = .ok bytes := by
  cases packet with
  | messages header xorSalt => exact absurd rfl h
  | _ => exact ⟨_, rfl⟩

namespace Endpoint

variable {p p' : Endpoint} {ids : List (Option PacketId)}

/-! ### Packets in order -/

/-- The packets that were put into the outbox have the ids from 1 on, and no other id was used
up. -/
structure InOrder (ids : List (Option PacketId)) (p : Endpoint) : Prop where
  numbered : ids = (List.range ids.length).map fun k => some (UInt16.ofNat (k + 1))
  sequenceId : p.sequenceId = UInt16.ofNat ids.length
  sequence : p.sentBuffer.sequence = p.sequenceId
  sent : ∀ id sentMeta, p.sentBuffer.get id = some sentMeta → some id ∈ ids
  newest : ∀ id, p.newestAck = some id → some id ∈ ids

/-- Each id is the successor of the one before, and all that count as unacked were sent. -/
structure GapFree (ids : List (Option PacketId)) (p : Endpoint) : Prop where
  succ : ∀ i a b, ids[i]? = some a → ids[i + 1]? = some b → ∃ id, a = some id ∧ b = some (id + 1)
  counted : ∀ k < p.sentUnackedPackets.toNat, some (p.sentBuffer.sequence - UInt16.ofNat k) ∈ ids

namespace InOrder

theorem new (overflowChecks : Bool) (config : PicklebackConfig) (time : Time) :
    InOrder [] (Endpoint.new overflowChecks config time) :=
  ⟨rfl, rfl, rfl, fun _ _ h => (by cases h), fun _ h => (by cases h)⟩

theorem of_same (h : InOrder ids p) (hsequenceId : p'.sequenceId = p.sequenceId)
    (hsent : p'.sentBuffer = p.sentBuffer) (hnewest : p'.newestAck = p.newestAck) :
    InOrder ids p' where
  numbered := h.numbered
  sequenceId := hsequenceId.trans h.sequenceId
  sequence := by rw [hsent, hsequenceId, h.sequence]
  sent := by
    rw [hsent]
    exact h.sent
  newest := by
    rw [hnewest]
    exact h.newest

theorem getElem? (h : InOrder ids p) {i : ℕ} {a : Option PacketId} (ha : ids[i]? = some a) :
    a = some (UInt16.ofNat (i + 1)) := by
  have hi := (List.getElem?_eq_some_iff.mp ha).1
  rw [h.numbered, List.getElem?_map, List.getElem?_range hi] at ha
  exact (Option.some.inj ha).symm

theorem mem_iff (h : InOrder ids p) {id : PacketId} :
    some id ∈ ids ↔ ∃ n, 1 ≤ n ∧ n ≤ ids.length ∧ id = UInt16.ofNat n := by
  constructor
  · intro hmem
    obtain ⟨i, hi⟩ := List.mem_iff_getElem?.mp hmem
    have hlt := (List.getElem?_eq_some_iff.mp hi).1
    exact ⟨i + 1, by omega, by omega, Option.some.inj (h.getElem? hi)⟩
  · rintro ⟨n, hpos, hle, rfl⟩
    rw [h.numbered]
    exact List.mem_map.mpr ⟨n - 1, List.mem_range.mpr (by omega), by rw [Nat.sub_add_cancel hpos]⟩

/-- **One packet** with the next id. -/
theorem place (h : InOrder ids p) {v : SentMeta} (hsequenceId : p'.sequenceId = p.sequenceId + 1)
    (hinsert : p.sentBuffer.insert (p.sequenceId + 1) v = .ok p'.sentBuffer)
    (hnewest : p'.newestAck = p.newestAck) :
    InOrder (ids ++ [some (p.sequenceId + 1)]) p' where
  numbered := by
    have hsucc : p.sequenceId + 1 = UInt16.ofNat (ids.length + 1) := by
      rw [h.sequenceId, UInt16.ofNat_add]
      rfl
    rw [List.length_append, List.length_singleton, List.range_succ,
      List.map_append, ← h.numbered, hsucc]
    rfl
  sequenceId := by
    rw [hsequenceId, h.sequenceId, List.length_append, List.length_singleton, UInt16.ofNat_add]
    rfl
  sequence := by
    have hseq := SequenceBuffer.sequence_insert_succ (by rw [h.sequence]) hinsert
    exact hseq.trans hsequenceId.symm
  sent := by
    intro id sentMeta hget
    obtain ⟨rfl, -⟩ | hold := SequenceBuffer.get_of_get_insert hinsert hget
    · exact List.mem_append_right _ (List.mem_singleton_self _)
    · exact List.mem_append_left _ (h.sent id sentMeta hold)
  newest := by
    rw [hnewest]
    exact fun id hid => List.mem_append_left _ (h.newest id hid)

/-- The ids are gap-free. -/
theorem isGapFree (h : InOrder ids p) : GapFree ids p where
  succ := by
    intro i a b ha hb
    refine ⟨UInt16.ofNat (i + 1), h.getElem? ha, ?_⟩
    rw [h.getElem? hb, UInt16.ofNat_add (i + 1) 1]
    rfl
  counted := by
    intro k hk
    have hlt : k < ids.length := by
      rw [sentUnackedPackets, h.sequence, h.sequenceId, UInt16.toNat_sub, UInt16.toNat_ofNat'] at hk
      cases hnewest : p.newestAck with
      | none =>
        rw [hnewest, Option.getD_none] at hk
        simp only [UInt16.reduceToNat] at hk
        omega
      | some id =>
        obtain ⟨n, hpos, hle, rfl⟩ := h.mem_iff.mp (h.newest id hnewest)
        rw [hnewest, Option.getD_some, UInt16.toNat_ofNat'] at hk
        omega
    refine h.mem_iff.mpr ⟨ids.length - k, by omega, by omega, ?_⟩
    rw [h.sequence, h.sequenceId]
    have hsplit : UInt16.ofNat ids.length = UInt16.ofNat (ids.length - k) + UInt16.ofNat k := by
      rw [← UInt16.ofNat_add]
      congr 1
      omega
    rw [hsplit, UInt16.add_sub_cancel]

end InOrder

/-! ### The calls -/

/-- What a call puts into the outbox. A visit hands it over at once, behind what was there
before. -/
def placed (p : Endpoint) : Call → List (List UInt8)
  | .visitPacketsToSend => p.visitPacketsToSend.toOption.elim [] fun r => r.2.drop p.outbox.length
  | c =>
    (p.step c).toOption.elim [] fun p' => (p'.outbox.drop p.outbox.length).map PooledBuffer.data

/-- A control packet is built around the header that was made for it, and is not one of messages. -/
def Call.Headed : Call → Prop
  | .sendControl t build => Builds t build ∧ t ≠ .messages
  | _ => True

/-- The packet that `build` makes of the next header is not longer than a packet may be. -/
def Fits (p : Endpoint) (t : PacketType) (build : ProtocolPacketHeader → ProtocolPacket) : Prop :=
  ∀ header bytes, ProtocolPacketHeader.new (p.sequenceId + 1)
      (ackIter p.receivedBuffer p.receivedUnackedPackets) p.receivedUnackedPackets t = .ok header →
    (build header).bytes = .ok bytes → bytes.length ≤ p.config.maxPacketSize

/-- A header is asked for only while at most 350 received packets are unacked. A visit asks for one
if there is something to send, and not too many of its own packets are unacked. A control packet has
to fit as well, and the window of sent packets has to take its id. -/
def Call.Unhindered (p : Endpoint) : Call → Prop
  | .visitPacketsToSend =>
    p.channels.anyWithMessagesToSend = true → ¬ p.sentUnackedPackets ≥ maxUnackedPackets →
      ¬ p.receivedUnackedPackets > maxUnackedPackets
  | .sendControl t build => p.ackState.CanSend ∧ p.Fits t build
  | _ => True

instance (p : Endpoint) (t : PacketType) (build : ProtocolPacketHeader → ProtocolPacket) :
    Decidable (p.Fits t build) :=
  decidable_of_iff ((ProtocolPacketHeader.new (p.sequenceId + 1)
    (ackIter p.receivedBuffer p.receivedUnackedPackets)
      p.receivedUnackedPackets t).toOption.all fun header =>
    (build header).bytes.toOption.all fun bytes => decide (bytes.length ≤ p.config.maxPacketSize))
      (by
    simp only [all_toOption_iff, decide_eq_true_eq]
    exact ⟨fun h header bytes hheader hbytes => h header hheader bytes hbytes,
      fun h header hheader bytes hbytes => h header bytes hheader hbytes⟩)

instance (a : AckState) : Decidable a.CanSend := inferInstanceAs (Decidable (_ ∧ _))

instance Call.decidableUnhindered (p : Endpoint) (c : Call) : Decidable (c.Unhindered p) :=
  match c with
  | .visitPacketsToSend => inferInstanceAs (Decidable (_ → _ → _))
  | .sendControl _ _ => inferInstanceAs (Decidable (_ ∧ _))
  | .setXorSalt _ | .sendMessage .. | .update _ | .processIncomingPacket ..
    | .drainReceivedMessages _
  | .drainMessageAcks _ => isTrue trivial

theorem InOrder.launchesAll {headers : List ProtocolPacketHeader} (h : InOrder ids p)
    (hall : p.LaunchesAll headers p') :
    p'.receivedUnackedPackets = p.receivedUnackedPackets ∧ ∃ packets, p'.outbox = p.outbox ++
      packets ∧
      InOrder (ids ++ (packets.map PooledBuffer.data).map packetId?) p' := by
  induction hall generalizing ids with
  | nil _ => exact ⟨rfl, [], (List.append_nil _).symm, by simpa using h⟩
  | cons hlaunches _ ih =>
    obtain ⟨size, hsent⟩ := hlaunches.sent
    obtain ⟨buf, rest, houtbox, hbuf⟩ := hlaunches.outbox
    have hplaced := h.place (by rw [hlaunches.rest]) hsent (by rw [hlaunches.rest])
    obtain ⟨hunacked, packets, houtbox', hids⟩ := ih hplaced
    refine ⟨hunacked.trans (by rw [hlaunches.rest]; rfl), buf :: packets, ?_, ?_⟩
    · rw [houtbox', houtbox, List.append_assoc]
      rfl
    · rw [List.append_assoc] at hids
      rw [List.map_cons, List.map_cons, hbuf, packetId?_write, hlaunches.id]
      exact hids

/-- **A visit** that is not hindered. -/
theorem InOrder.visitPacketsToSend (h : InOrder ids p) (hc : Call.Unhindered p .visitPacketsToSend)
    {packets : List (List UInt8)} (hcall : p.visitPacketsToSend = .ok (p', packets)) :
    InOrder (ids ++ (packets.drop p.outbox.length).map packetId?) p' := by
  obtain ⟨headers, p₁, p₂, r, hcompose, hall, hstop, rfl, rfl⟩ :=
    visitPacketsToSend_launchesAll hcall
  -- either the headers could be made, or none was asked for
  by_cases hacks : p.receivedUnackedPackets > maxUnackedPackets
  · have hsame : p₂ = p := by
      rw [composePackets] at hcompose
      split at hcompose
      · cases hcompose
        rfl
      · next hunacked =>
        have hany : p.channels.anyWithMessagesToSend = false := by
          rw [← Bool.not_eq_true]
          exact fun hany => hc hany hunacked hacks
        rw [show p.channels.numQueued + 65536 = p.channels.numQueued + 65535 + 1
          from rfl, composeLoop,
          hany] at hcompose
        cases hcompose
        rfl
    subst hsame
    have hdrop : (p₂.outbox.map PooledBuffer.data).drop p₂.outbox.length = [] :=
      List.drop_eq_nil_of_le (by rw [List.length_map])
    rw [hdrop, List.map_nil, List.append_nil]
    exact h.of_same rfl rfl rfl
  · obtain ⟨hunacked, placed, houtbox, hids⟩ := h.launchesAll hall
    have hpackets : (p₁.outbox.map PooledBuffer.data).drop p.outbox.length =
      placed.map PooledBuffer.data := by
      rw [houtbox, List.map_append]
      exact List.drop_left' (List.length_map _)
    rw [← hpackets] at hids
    cases hstop with
    | done _ => exact hids.of_same rfl rfl rfl
    | unacked _ => exact hids.of_same rfl rfl rfl
    | acks pool hstop =>
      rw [hunacked] at hstop
      exact absurd hstop hacks

/-- A control packet that is not hindered is sent. -/
theorem exists_sendControl_of_unhindered {t : PacketType}
    {build : ProtocolPacketHeader → ProtocolPacket}
    (hbuild : Builds t build) (ht : t ≠ .messages) (hc : Call.Unhindered p (.sendControl t build)) :
    ∃ p', p.sendControl t build = .ok (p', .ok ()) := by
  refine exists_sendControl_ok hc.1 t build fun header hheader _ => ?_
  have hmessages : (build header).packetType ≠ .messages := by rwa [hbuild.packetType]
  obtain ⟨bytes, hbytes⟩ := ProtocolPacket.exists_bytes hmessages
  exact ⟨bytes, hbytes, hc.2 header bytes hheader hbytes⟩

/-- **A control packet** that is not hindered. -/
theorem InOrder.sendControl (h : InOrder ids p) {t : PacketType}
    {build : ProtocolPacketHeader → ProtocolPacket} (hheaded : (Call.sendControl t build).Headed)
    (hc : Call.Unhindered p (.sendControl t build)) {r : Except PicklebackError Unit}
    (hcall : p.sendControl t build = .ok (p', r)) :
    InOrder (ids ++ ((p'.outbox.drop p.outbox.length).map PooledBuffer.data).map packetId?) p' := by
  obtain ⟨hbuild, ht⟩ := hheaded
  obtain ⟨p'', hok⟩ := exists_sendControl_of_unhindered hbuild ht hc
  rw [hok] at hcall
  cases hcall
  obtain ⟨⟨e, he⟩, -⟩ | ⟨p₁, header, pool, buf, size, sb, -, hnext, hwrite, hsb, hp'⟩ :=
    sendControl_cases hok
  · cases he
  · obtain ⟨-, -, hid, -⟩ := nextPacketHeader_eq_ok hnext
    obtain ⟨rest, hbytes, -⟩ := ProtocolPacket.exists_bytes_eq (writePacket_eq_ok hwrite).1
    have hplaced : p'.outbox.drop p.outbox.length = [buf] := by
      rw [hp']
      exact List.drop_left' rfl
    rw [hplaced, List.map_singleton, List.map_singleton, hbytes,
      packetId?_write, hbuild.header, hid]
    exact h.place (by rw [hp']) (by rw [hp']; exact hsb) (by rw [hp'])

/-! ### Runs -/

theorem newerOf_eq_or (current : Option UInt16) (new : UInt16) :
    newerOf current new = current ∨ newerOf current new = some new := by
  cases current with
  | none => exact Or.inr rfl
  | some current =>
    rw [newerOf]
    split
    · exact Or.inr rfl
    · exact Or.inl rfl

/-- **One ack** is of a packet that was sent. -/
theorem InOrder.processAck (h : InOrder ids p) {packetType : PacketType} {ack : UInt16 × Bool}
    (hcall : p.processAck packetType ack = .ok p') : InOrder ids p' := by
  have heq := processAck_eq_ok hcall
  obtain rfl | ⟨sentMeta, buffers, d, channels, hget, -, -, hp'⟩ := processAck_cases hcall
  · exact h
  · have hnewest : p'.newestAck = p.newestAck ∨ p'.newestAck = some ack.1 := by
      have := congrArg AckState.newestAck heq
      simp only [ackState, AckState.processAck] at this
      rw [this]
      split
      · exact Or.inl rfl
      · split
        · exact Or.inl rfl
        · split
          · exact Or.inl rfl
          · exact newerOf_eq_or _ _
    rw [hp']
    refine ⟨h.numbered, h.sequenceId, ?_, ?_, ?_⟩
    · exact h.sequence
    · intro id v hv
      rw [SequenceBuffer.get_setEntry hget] at hv
      split at hv
      · next hid =>
        rw [hid]
        exact h.sent ack.1 sentMeta hget
      · exact h.sent id v hv
    · intro id hid
      obtain hold | hnew := hnewest
      · exact h.newest id (hold.symm.trans hid)
      · rw [← Option.some.inj (hnew.symm.trans hid)]
        exact h.sent ack.1 sentMeta hget

/-- **An incoming packet** acks only packets that were sent. -/
theorem InOrder.processIncomingPacket (h : InOrder ids p) {header : ProtocolPacketHeader}
    {payload : List UInt8}
    {r : Except PicklebackError Unit}
    (hcall : p.processIncomingPacket header payload = .ok (p', r)) :
    InOrder ids p' := by
  refine processIncomingPacket_induct (I := InOrder ids) ?_ ?_ ?_ ?_ h hcall
  · intro q q' hq hsame
    rw [SameCore] at hsame
    exact hq.of_same (by rw [hsame]) (by rw [hsame]) (by rw [hsame])
  · intro q b id m hq hb
    exact hq.of_same rfl rfl rfl
  · intro q q' packetType ack hq hack
    exact hq.processAck hack
  · intro q q' m hq hm
    have heq := ackState_receiveMessage hm
    exact hq.of_same (congrArg AckState.sequenceId heq) (congrArg AckState.sentBuffer heq)
      (congrArg AckState.newestAck heq)

theorem InOrder.sendMessage (h : InOrder ids p) {channel : UInt8} {payload : List UInt8}
    {r : Except PicklebackError MessageId} (hcall : p.sendMessage channel payload = .ok (p', r)) :
    InOrder ids p' := by
  simp only [Endpoint.sendMessage] at hcall
  split at hcall
  · cases hcall
    exact h
  · split at hcall
    · cases hcall
      exact h
    · split at hcall
      · cases hcall
        exact h.of_same rfl rfl rfl
      · split at hcall
        · cases hcall
        · cases hcall
          exact h.of_same rfl rfl rfl

/-- A call that leaves the outbox alone places nothing. -/
theorem placed_eq_nil {c : Call} (hc : c ≠ .visitPacketsToSend) (hstep : p.step c = .ok p')
    (houtbox : p'.outbox = p.outbox) : p.placed c = [] := by
  have hplaced : p.placed c = (p'.outbox.drop p.outbox.length).map PooledBuffer.data := by
    cases c with
    | visitPacketsToSend => exact absurd rfl hc
    | _ =>
      simp only [placed, hstep]
      rfl
  rw [hplaced, houtbox, List.drop_length, List.map_nil]

/-- **One call.** -/
theorem InOrder.step (h : InOrder ids p) {c : Call} (hheaded : c.Headed) (hc : Call.Unhindered p c)
    (hstep : p.step c = .ok p') :
    InOrder (ids ++ (p.placed c).map packetId?) p' := by
  -- all but sending leave the outbox alone
  have hquiet (hsends : c ≠ .visitPacketsToSend) (houtbox : p'.outbox = p.outbox)
    (hids : InOrder ids p') :
      InOrder (ids ++ (p.placed c).map packetId?) p' := by
    rw [placed_eq_nil hsends hstep houtbox, List.map_nil, List.append_nil]
    exact hids
  have hcopy := hstep
  cases c with
  | visitPacketsToSend =>
    obtain ⟨⟨p₁, packets⟩, hcall, rfl⟩ := exists_of_map_eq_ok hcopy
    have hplaced : p.placed .visitPacketsToSend = packets.drop p.outbox.length := by
      rw [placed, hcall]
      rfl
    rw [hplaced]
    exact h.visitPacketsToSend hc hcall
  | sendControl t build =>
    obtain ⟨⟨p₁, r⟩, hcall, rfl⟩ := exists_of_map_eq_ok hcopy
    have hplaced : p.placed (.sendControl t build) =
      (p₁.outbox.drop p.outbox.length).map PooledBuffer.data := by
      simp only [placed, hstep]
      rfl
    rw [hplaced]
    exact h.sendControl hheaded hc hcall
  | sendMessage channel payload =>
    obtain ⟨⟨p₁, r⟩, hcall, rfl⟩ := exists_of_map_eq_ok hcopy
    exact hquiet (by simp) (outbox_sendMessage hcall) (h.sendMessage hcall)
  | processIncomingPacket header payload =>
    obtain ⟨⟨p₁, r⟩, hcall, rfl⟩ := exists_of_map_eq_ok hcopy
    exact hquiet (by simp) (sameSetup_processIncomingPacket hcall).outbox
      (h.processIncomingPacket hcall)
  | _ =>
    cases hcopy
    exact hquiet (by simp) rfl (h.of_same rfl rfl rfl)

/-- The runs of an endpoint whose calls are permitted, with the ids of the packets it has put into
its outbox. -/
inductive Placing (overflowChecks : Bool) (config : PicklebackConfig)
    (permits : Endpoint → Call → Prop) :
    List (Option PacketId) → Endpoint → Prop
  | new (time : Time) : Placing overflowChecks config permits []
    (Endpoint.new overflowChecks config time)
  | step {ids : List (Option PacketId)} {p p' : Endpoint} {c : Call}
    (h : Placing overflowChecks config permits ids p) (hheaded : c.Headed) (hc : permits p c)
    (hstep : p.step c = .ok p') :
    Placing overflowChecks config permits (ids ++ (p.placed c).map packetId?) p'

section Placing

variable {overflowChecks : Bool} {config : PicklebackConfig} {permits : Endpoint → Call → Prop}

theorem Placing.inOrder (h : Placing overflowChecks config Call.Unhindered ids p) :
    InOrder ids p := by
  induction h with
  | new time => exact InOrder.new overflowChecks config time
  | step _ hheaded hc hstep ih => exact ih.step hheaded hc hstep

/-- **Gap-free ids.** As long as no id is taken for a packet that cannot be sent, each packet that
is put into the outbox has the id after the one before, and `sent_unacked_packets` counts only
packets that were put there. This is so for every configuration. -/
theorem Placing.gapFree (h : Placing overflowChecks config Call.Unhindered ids p) : GapFree ids p :=
  h.inOrder.isGapFree

/-- A series of permitted calls, and the packets they put into the outbox. -/
def place (permits : Endpoint → Call → Prop) [∀ p c, Decidable (permits p c)]
    (ids : List (Option PacketId))
    (p : Endpoint) : List Call → Option (List (Option PacketId) × Endpoint)
  | [] => some (ids, p)
  | c :: rest =>
    if permits p c then
      match p.step c with
      | .ok p' => place permits (ids ++ (p.placed c).map packetId?) p' rest
      | .error _ => none
    else none

theorem placing_of_place [∀ p c, Decidable (permits p c)] {ids' : List (Option PacketId)}
    {calls : List Call}
    (h : Placing overflowChecks config permits ids p) (hheaded : ∀ c ∈ calls, c.Headed)
    (hrun : place permits ids p calls = some (ids', p')) :
    Placing overflowChecks config permits ids' p' := by
  induction calls generalizing ids p with
  | nil =>
    cases hrun
    exact h
  | cons c rest ih =>
    obtain ⟨hc, hrest⟩ := List.forall_mem_cons.mp hheaded
    rw [place] at hrun
    split at hrun
    · next hpermits =>
      split at hrun
      · next hstep => exact ih (h.step hc hpermits hstep) hrest hrun
      · cases hrun
    · cases hrun

end Placing

/-- A keep-alive that is sent as client 0. -/
def keepAliveCall (xorSalt : UInt64) : Call :=
  .sendControl .keepAlive fun header => .keepAlive header xorSalt 0

theorem headed_keepAliveCall (xorSalt : UInt64) : (keepAliveCall xorSalt).Headed :=
  ⟨⟨fun _ => rfl, fun _ => rfl, fun _ _ => rfl⟩, by decide⟩

/-- Packets of a hundred bytes, and a window of sixteen of them. -/
def smallPackets : PicklebackConfig :=
  { PicklebackConfig.default with maxPacketSize := 100, sentPacketsBufferSize := 16 }

/-- A message, a keep-alive that acks what has come in, an ack of the first packet, and another
message. -/
def exchange : List Call :=
  [.setXorSalt (some 7), .sendMessage 1 [3], .visitPacketsToSend,
    .processIncomingPacket ⟨.keepAlive, 300, none⟩ [],
    keepAliveCall 7, .processIncomingPacket ⟨.keepAlive, 301,
      some ⟨1, 1, AckHeader.padded [1], 1, 0, 0⟩⟩ [],
    .sendMessage 0 [4], .visitPacketsToSend]

theorem headed_of_mem {c : Call} {calls : List Call} (hc : c ∈ calls)
    (hcalls : ∀ t build, Call.sendControl t build ∈ calls →
      Call.sendControl t build = keepAliveCall 7) :
    c.Headed := by
  cases c with
  | sendControl t build =>
    rw [hcalls t build hc]
    exact headed_keepAliveCall 7
  | _ => trivial

/-- Three packets. -/
theorem gapFree_exchange : ∃ p, Placing true smallPackets Call.Unhindered
    [some 1, some 2, some 3] p ∧
    p.newestAck = some 1 ∧ GapFree [some 1, some 2, some 3] p := by
  have hrun : (place Call.Unhindered [] (Endpoint.new true smallPackets 0) exchange).map
      (fun r => (r.1, r.2.newestAck)) = some ([some 1, some 2, some 3], some 1) := by decide +kernel
  obtain ⟨⟨ids, p⟩, hp, htest⟩ := Option.map_eq_some_iff.mp hrun
  obtain ⟨rfl, hacked⟩ := Prod.mk.inj htest
  have hplacing :=
    placing_of_place (.new 0) (fun c hc => headed_of_mem hc (by simp [exchange, keepAliveCall])) hp
  exact ⟨p, hplacing, hacked, hplacing.gapFree⟩

/-- The second keep-alive meets 400 unacked packets and is not sent; when the peer has acked the
first one, the third is sent with the id 3. -/
theorem not_gapFree_of_backpressure :
    ∃ p, Placing true .default (fun _ _ => True) [some 1, some 3] p ∧
      ¬ GapFree [some 1, some 3] p := by
  have hrun : (place (fun _ _ => True) [] (Endpoint.new true .default 0)
      [.processIncomingPacket ⟨.keepAlive, 300, none⟩ [], keepAliveCall 7,
        .processIncomingPacket ⟨.keepAlive, 400, none⟩ [], keepAliveCall 7,
        .processIncomingPacket ⟨.keepAlive, 401, some ⟨1, 1, AckHeader.padded [1], 1, 0, 0⟩⟩ [],
        keepAliveCall 7]).map Prod.fst = some [some 1, some 3] := by decide +kernel
  obtain ⟨⟨ids, p⟩, hp, rfl⟩ := Option.map_eq_some_iff.mp hrun
  refine ⟨p, placing_of_place (.new 0) (fun c hc => headed_of_mem hc (by simp [keepAliveCall])) hp,
    fun hfree => ?_⟩
  obtain ⟨id, hone, hthree⟩ := hfree.succ 0 _ _ rfl rfl
  obtain rfl := Option.some.inj hone
  cases Option.some.inj hthree

end Endpoint

end Pickleback
