import Pickleback.Composition
import Pickleback.History
import Pickleback.KeepAlive

/-!
# The first packet after many sends

A message of 1024 bytes leaves no room for a second one in its packet. So as long as all messages in
the queues are that large, the first packet of a visit is the oldest message of the unreliable
channel, whatever the reliable one holds. This makes runs of tens of thousands of sends computable:
what they leave behind is the message counter.

## Main definitions

* `Endpoint.packetOf` — the bytes of the next packet, if a message is all there is in it
* `Endpoint.Unhindered`, `Endpoint.Stuffed` — packets can be sent, and every message is large
* `Endpoint.Stuffs` — what large sends on the reliable channel change
* `Link.Floods` — large sends, then a payload on the unreliable channel, and a visit

## Main results

* `exists_visitPacketsToSend_first` — the first packet of a visit
* `exists_visitPacketsToSend_send` — a payload is sent, and its first message is in the first packet
* `Link.exists_floods` — a payload that is sent after any number of large ones
-/

namespace Pickleback

open ByteCodec AckProtocol

/-! ### The first packet of a visit -/

/-- Nothing fits if every message is too large. -/
theorem Channel.getMessageToWriteToAPacket_eq_none {ch : Channel}
    {n : ℕ} (h : ∀ m ∈ ch.queued, n < m.size) :
    ch.getMessageToWriteToAPacket n = none := by
  cases ch with
  | unreliable c =>
    have htake : ∀ q : List Message, (∀ m ∈ q, n < m.size) →
      UnreliableChannel.takeFitting n q = none := by
      intro q hq
      induction q with
      | nil => rfl
      | cons m q ih =>
        rw [List.forall_mem_cons] at hq
        rw [UnreliableChannel.takeFitting, if_pos hq.1, ih hq.2]
        rfl
    rw [getMessageToWriteToAPacket, UnreliableChannel.getMessageToWriteToAPacket, htake c.q h]
    rfl
  | reliable c =>
    have htake : ∀ q : List ResendableMessage, (∀ m ∈ q, n < m.message.size) →
        ReliableChannel.takeReady c.time c.resendTime n q = none := by
      intro q hq
      induction q with
      | nil => rfl
      | cons m q ih =>
        rw [List.forall_mem_cons] at hq
        rw [ReliableChannel.takeReady, if_neg (fun hfits => by omega), ih hq.2]
        rfl
    rw [getMessageToWriteToAPacket, ReliableChannel.getMessageToWriteToAPacket,
      htake c.q fun m hm => h m.message (List.mem_map_of_mem hm)]
    rfl

theorem Channel.pushAll_unreliable (c : UnreliableChannel) (ms : List Message) :
    Channel.pushAll (.unreliable c) ms = .unreliable { c with q := c.q ++ ms } := by
  induction ms generalizing c with
  | nil => rw [List.append_nil, pushAll, List.foldl_nil]
  | cons m ms ih =>
    rw [pushAll, List.foldl_cons, ← pushAll, push, ih, List.append_assoc, List.singleton_append]

namespace Endpoint

variable {p : Endpoint} {writer : WriteLimiter}

/-- A packet into which nothing fits is left as it is. -/
theorem fillPacket_of_large (h : ∀ ch ∈ p.channels, ∀ m ∈ ch.queued, writer.remaining < m.size)
    (fuel : ℕ)
    (handles : List MessageHandle) :
    ∃ q, fillPacket (fuel + 1) p writer handles = .ok (q, writer, handles, .ok ()) := by
  rw [fillPacket]
  cases hfirst : p.channels.firstNonEmpty? with
  | none => exact ⟨p, rfl⟩
  | some ch =>
    have hnone := Channel.getMessageToWriteToAPacket_eq_none
      (h ch (firstNonEmpty_of_sound hfirst).1)
    dsimp only
    rw [writeChannelMessagesToPacket, hnone]
    exact ⟨_, rfl⟩

/-- **The unreliable channel comes first**: its oldest message is the first in a packet, and the
only one if nothing else fits. -/
theorem fillPacket_of_first (writer : WriteLimiter) {c : UnreliableChannel}
    {cs : ChannelList} {m : Message}
    {q : List Message}
    (hchannels : p.channels = .unreliable c :: cs) (hq : c.q = m :: q)
    (hdata : m.buffer.data.length ≤ m.size)
    (hfits : m.size ≤ writer.remaining) (hroom : 3 + m.buffer.data.length ≤ writer.remaining)
    (hlarge : ∀ x ∈ q ++ cs.flatMap Channel.queued,
      writer.remaining < m.buffer.data.length + x.size) (fuel : ℕ) :
    ∃ q' writer' handles, fillPacket (fuel + 2) p writer [] = .ok (q', writer', handles, .ok ()) ∧
      writer'.buffer.data = writer.buffer.data ++ m.buffer.data := by
  have hfirst : p.channels.firstNonEmpty? = some (.unreliable c) := by
    rw [hchannels, ChannelList.firstNonEmpty?, List.find?_cons_of_pos]
    rw [Channel.anyReadyToSend, UnreliableChannel.anyReadyToSend, hq]
    rfl
  have hget : Channel.getMessageToWriteToAPacket (.unreliable c) writer.remaining
      = some (m, .unreliable { c with q := q }) := by
    rw [Channel.getMessageToWriteToAPacket, UnreliableChannel.getMessageToWriteToAPacket, hq,
      UnreliableChannel.takeFitting, if_neg (by omega)]
    rfl
  obtain ⟨writer', hwrite, hext⟩ := WriteLimiter.Extends.exists_writeAll (hdata.trans hfits)
  have hremaining : writer'.remaining + m.buffer.data.length = writer.remaining := by
    rw [WriteLimiter.remaining] at hfits hroom ⊢
    rw [WriteLimiter.remaining, hext.limit, hext.written]
    omega
  have hrest : ∀ x ∈ q, writer'.remaining < x.size := fun x hx => by
    have := hlarge x (List.mem_append_left _ hx)
    omega
  have hnone : Channel.getMessageToWriteToAPacket (.unreliable { c with q := q })
    writer'.remaining = none :=
    Channel.getMessageToWriteToAPacket_eq_none hrest
  have hnoRoom : ∀ ch ∈ p.channels.set (Channel.unreliable c).id (.unreliable { c with q := q }),
      ∀ x ∈ ch.queued, writer'.remaining < x.size := by
    intro ch hch x hx
    rcases ChannelList.mem_set hch with rfl | ⟨hch, hid⟩
    · exact hrest x hx
    · rw [hchannels] at hch
      rcases List.mem_cons.mp hch with rfl | hch
      · exact absurd rfl hid
      · have := hlarge x (List.mem_append_right _ (List.mem_flatMap.mpr ⟨ch, hch, hx⟩))
        omega
  rw [fillPacket, hfirst]
  dsimp only
  rw [show (Channel.unreliable c).queued.length = q.length + 1 by
    rw [Channel.queued, hq, List.length_cons],
    writeChannelMessagesToPacket, hget]
  dsimp only
  rw [hwrite]
  dsimp only
  rw [if_neg (by omega), writeChannelMessagesToPacket, hnone]
  simp only [Nat.zero_add, if_neg (show ¬ writer'.remaining < 3 by omega)]
  obtain ⟨q', hfill⟩ := fillPacket_of_large (p := { p with
      channels := p.channels.set (Channel.unreliable c).id (.unreliable { c with q := q })
      pool := p.pool.returnBuffer m.buffer
      stats := { p.stats with messagesSent := p.stats.messagesSent + 1 } }) hnoRoom fuel
    ([] ++ [⟨m.id, m.fragment.map Fragment.index, (Channel.unreliable { c with q := q }).id⟩])
  exact ⟨q', writer', _, hfill, hext.data⟩

/-- The next packet, if `data` is all there is in it. -/
def packetOf (p : Endpoint) (data : List UInt8) : Option (List UInt8) :=
  match p.xorSalt, ProtocolPacketHeader.new (p.sequenceId + 1)
    (ackIter p.receivedBuffer p.receivedUnackedPackets) p.receivedUnackedPackets .messages with
  | some salt, .ok header => some (header.write ++ (writeU64 salt ++ data))
  | _, _ => none

/-- Nothing keeps `compose_packets` from sending. -/
def Unhindered (p : Endpoint) : Prop :=
  p.sentUnackedPackets < maxUnackedPackets ∧ p.receivedUnackedPackets ≤ maxUnackedPackets ∧
    ¬ p.TooOld ∧
    p.failedHeaders < 32767 ∧ p.outbox.length = 0

instance (p : Endpoint) : Decidable p.TooOld := inferInstanceAs (Decidable (_ ∨ _))

instance (p : Endpoint) : Decidable p.Unhindered := inferInstanceAs (Decidable (_ ∧ _))

/-- All messages in the queues have at least 1024 bytes. -/
def Stuffed (p : Endpoint) : Prop := ∀ ch ∈ p.channels, ∀ m ∈ ch.queued, 1024 ≤ m.buffer.data.length

instance (p : Endpoint) : Decidable p.Stuffed := inferInstanceAs (Decidable (∀ ch ∈ p.channels, _))

/-- **The first packet of a visit** has the oldest message of the unreliable channel in it, and
nothing else if all messages are large. -/
theorem exists_visitPacketsToSend_first (hsound : p.Sound) (hfree : p.Unhindered)
    (hlarge : p.Stuffed)
    {c : UnreliableChannel} {cs : ChannelList} {m : Message} {q : List Message}
    (hchannels : p.channels = .unreliable c :: cs) (hq : c.q = m :: q) :
    ∃ bytes p' packets, p.packetOf m.buffer.data = some bytes ∧ packets.length ≤ 351 ∧
      p.visitPacketsToSend = .ok (p', bytes :: packets) := by
  obtain ⟨hunacked, hacks, hold, hfailed, houtbox⟩ := hfree
  replace hunacked := UInt16.not_le.mpr hunacked
  replace hacks := UInt16.not_lt.mpr hacks
  replace houtbox := List.eq_nil_of_length_eq_zero houtbox
  have hmem : .unreliable c ∈ p.channels := by
    rw [hchannels]
    exact List.mem_cons_self ..
  have hready : 0 < p.channels.numReady := by
    rw [← ChannelList.anyWithMessagesToSend_iff, ChannelList.anyWithMessagesToSend,
      List.any_eq_true]
    refine ⟨_, hmem, ?_⟩
    rw [Channel.anyReadyToSend, UnreliableChannel.anyReadyToSend, hq]
    rfl
  have hsize : ∀ ch ∈ p.channels, ∀ x ∈ ch.queued, x.buffer.data.length ≤ x.size ∧
    x.size ≤ 1043 := by
    intro ch hch x hx
    obtain ⟨-, payload, henc⟩ := (hsound.channels.sound ch hch).queued x hx
    exact henc.size_le
  have hm : m ∈ (Channel.unreliable c).queued := by
    rw [Channel.queued, hq]
    exact List.mem_cons_self ..
  obtain ⟨hdata, hmax⟩ := hsize _ hmem m hm
  have hmin := hlarge _ hmem m hm
  -- the packet has room for one large message
  obtain ⟨header, salt, writer, hsalt, hheader, hopen, hwritten, hlimit, -, hle⟩ :=
    openPacket_spec hsound hunacked hacks
  have hremaining : writer.remaining = 1150 - writer.written := by
    rw [WriteLimiter.remaining, hlimit]
  obtain ⟨k, hk⟩ : ∃ k, p.channels.numQueued + 1 = k + 2 := by
    refine ⟨p.channels.numQueued - 1, ?_⟩
    have := p.channels.numReady_le
    omega
  obtain ⟨q', writer', handles, hfill, hbuffer⟩ := fillPacket_of_first (p := { p with
      sequenceId := p.sequenceId + 1, pool := (p.pool.getBuffer 1150).2 }) writer hchannels hq hdata
    (by omega) (by omega) (fun x hx => by
      have hx' : ∃ ch ∈ p.channels, x ∈ ch.queued := by
        rcases List.mem_append.mp hx with hx | hx
        · refine ⟨_, hmem, ?_⟩
          rw [Channel.queued, hq]
          exact List.mem_cons_of_mem _ hx
        · obtain ⟨ch, hch, hx⟩ := List.mem_flatMap.mp hx
          refine ⟨ch, ?_, hx⟩
          rw [hchannels]
          exact List.mem_cons_of_mem _ hch
      obtain ⟨ch, hch, hx⟩ := hx'
      have := hlarge ch hch x hx
      have := (hsize ch hch x hx).1
      omega) k
  rw [← hk] at hfill
  obtain ⟨e, p₁, hemits, -, hsound₁, hless, hbytes, hround⟩ | ⟨htooOld, -⟩ :=
    composeLoop_round (p.channels.numQueued + 65535) hsound hready hunacked hacks
  · have hfirst : e.bytes = header.write ++ (writeU64 salt ++ m.buffer.data) := by
      rw [hbytes _ _ _ hopen hfill, hbuffer, hwritten, List.append_assoc]
    obtain ⟨es, p₂, p', r, hloop, hall, -, -, hstop⟩ := composeLoop_spec
      hsound₁ (show p₁.channels.numReady < p.channels.numQueued + 65535 by
        have := p.channels.numReady_le
        omega)
      fun hb => (hemits.not_tooOld hsound).2 hb.2.2.2
    have hcompose : p.composePackets = .ok (p', r) := by
      rw [composePackets, if_neg hunacked]
      exact hround.trans hloop
    have hpackets : p'.outbox.map PooledBuffer.data
        = (header.write ++ (writeU64 salt ++ m.buffer.data)) :: es.map Emission.bytes := by
      rw [hstop.outbox, hall.outbox, hemits.outbox, houtbox, hfirst]
      rfl
    refine ⟨header.write ++ (writeU64 salt ++ m.buffer.data),
      { p' with outbox := [], pool := p'.pool.returnBuffers p'.outbox },
        es.map Emission.bytes, ?_, ?_, ?_⟩
    · rw [packetOf, hsalt, hheader]
    · rw [List.length_map]
      exact hall.length_le (by rw [hemits.failedHeaders hfailed]; omega)
    · rw [← hpackets]
      simp only [visitPacketsToSend, hcompose]
      cases hstop <;> rfl
  · exact absurd htooOld hold

/-! ### Large sends -/

/-- What `n` large sends on the reliable channel change: the counter of messages, and that
channel. -/
structure Stuffs (n : ℕ) (p p' : Endpoint) : Prop where
  rest : p' = { p with
    stats := p'.stats, dispatcher := p'.dispatcher, channels := p'.channels, pool := p'.pool }
  dispatcher : p'.dispatcher = { p.dispatcher with
    nextMessageId := p.dispatcher.nextMessageId + UInt16.ofNat n }
  first : p'.channels.head? = p.channels.head?
  stuffed : p.Stuffed → p'.Stuffed

theorem Stuffs.refl (p : Endpoint) : Stuffs 0 p p := ⟨rfl, by simp, rfl, id⟩

theorem Stuffs.trans {m n : ℕ} {p p₁ p₂ : Endpoint} (h : Stuffs m p p₁) (h' : Stuffs n p₁ p₂) :
    Stuffs (m + n) p p₂ := by
  refine ⟨?_, ?_, h'.first.trans h.first, fun hp => h'.stuffed (h.stuffed hp)⟩
  · have := h'.rest
    rw [h.rest] at this
    exact this
  · rw [h'.dispatcher, h.dispatcher, UInt16.ofNat_add, UInt16.add_assoc]

theorem Stuffs.unhindered {n : ℕ} {p p' : Endpoint}
    (h : Stuffs n p p') (hp : p.Unhindered) : p'.Unhindered := by
  obtain ⟨hunacked, hacks, hold, hrest⟩ := hp
  have hhandles : p'.dispatcher.messagesInPackets = p.dispatcher.messagesInPackets := by
    rw [h.dispatcher]
  rw [TooOld, ← hhandles] at hold
  rw [h.rest]
  exact ⟨hunacked, hacks, hold, hrest⟩

theorem Stuffs.packetOf {n : ℕ} {p p' : Endpoint} (h : Stuffs n p p') (data : List UInt8) :
    p'.packetOf data = p.packetOf data := by
  rw [h.rest]
  rfl

/-- One send. -/
theorem Intact.stuffs {p : Endpoint} (h : p.Intact)
    (hunacked : p.sentUnackedPackets < maxUnackedPackets)
    {payload : List UInt8} (hlen : payload.length = 1024) :
    ∃ p' id, p.sendMessage 1 payload = .ok (p', .ok id) ∧ Stuffs 1 p p' := by
  obtain ⟨ch, hch⟩ := h.exists_get? (Or.inr rfl)
  obtain ⟨p', hcall⟩ := exists_sendMessage hch (by decide) hlen.le (by rw [h.maxMessageSize]; omega)
    (UInt16.not_le.mpr hunacked)
  refine ⟨p', _, hcall, ?_⟩
  obtain ⟨⟨e, he⟩, -⟩ | ⟨ch', ms, -, hch', hblock, hrec, hp'⟩ :=
    sendMessage_cases h.maxMessageSize.le hcall
  · cases he
  rw [SendBlock, if_pos hlen.le] at hblock
  obtain ⟨m, rfl, -, -, -, henc⟩ := hblock
  have hdata : 1024 ≤ m.buffer.data.length := by
    obtain ⟨-, -, -, headers, -, hdata⟩ := henc
    rw [hdata, List.length_append]
    omega
  have hchannels : p'.channels = p.channels.set 1 (ch'.pushAll [m]) := by rw [hp']
  refine ⟨by rw [hp'], ?_, ?_, fun hp c hc x hx => ?_⟩
  · generalize p'.dispatcher = d at hrec
    cases hrec with
    | whole _ => rfl
    | fragmented hsize _ => exact absurd hlen.le hsize
  · have hids := h.ids
    rw [hchannels]
    cases hcs : p.channels with
    | nil => rfl
    | cons c cs =>
      rw [hcs, List.map_cons, List.cons.injEq] at hids
      rw [ChannelList.set, List.map_cons, hids.1]
      rfl
  · rw [hchannels] at hc
    rcases ChannelList.mem_set hc with rfl | ⟨hc, -⟩
    · rw [Channel.queued_pushAll] at hx
      rcases List.mem_append.mp hx with hx | hx
      · exact hp _ (ChannelList.mem_of_get? hch') x hx
      · rw [List.mem_singleton.mp hx]
        exact hdata
    · exact hp c hc x hx

/-- A payload of whole chunks makes large messages, at least one. -/
theorem exists_cons_of_sendBlock {parent : MessageId} {channel : UInt8}
    {payload : List UInt8} {ms : List Message}
    {n : ℕ} (hlen : payload.length = 1024 * (n + 1)) (h : SendBlock parent channel payload ms) :
    ∃ m ms', ms = m :: ms' ∧ ∀ x ∈ ms, 1024 ≤ x.buffer.data.length := by
  rw [SendBlock] at h
  split at h
  · obtain ⟨m, rfl, -, -, -, -, -, -, headers, -, hdata⟩ := h
    refine ⟨m, [], rfl, fun x hx => ?_⟩
    rw [List.mem_singleton.mp hx, hdata, List.length_append, hlen]
    omega
  · obtain ⟨hms, hfragments⟩ := h
    have hpos : 0 < ms.length := by
      rw [hms, lt_numFragments_iff]
      omega
    obtain ⟨m, ms', rfl⟩ := List.exists_cons_of_length_pos hpos
    refine ⟨m, ms', rfl, fun x hx => ?_⟩
    obtain ⟨i, hi⟩ := List.mem_iff_getElem?.mp hx
    have hlt := lt_numFragments_iff.mp (hms ▸ (List.getElem?_eq_some_iff.mp hi).1)
    obtain ⟨-, -, -, -, -, -, headers, -, hdata⟩ := hfragments i x hi
    rw [hdata, List.length_append, chunk, List.length_take, List.length_drop]
    omega

/-- A payload of whole chunks is sent on the unreliable channel, and then the visit: its first
message is in the first packet. -/
theorem exists_visitPacketsToSend_send {p p₁ : Endpoint} (hintact : p.Intact) (hsound : p.Sound)
    (hfree : p.Unhindered) (hlarge : p.Stuffed) {c : UnreliableChannel} {cs : ChannelList}
    (hchannels : p.channels = .unreliable c :: cs) (hq : c.q = []) {payload : List UInt8} {n : ℕ}
    (hlen : payload.length = 1024 * (n + 1)) {id : MessageId}
    (hcall : p.sendMessage 0 payload = .ok (p₁, .ok id)) :
    ∃ p₂ m ms bytes packets, SendBlock p.dispatcher.nextMessageId 0 payload (m :: ms) ∧
      p.packetOf m.buffer.data = some bytes ∧ packets.length ≤ 351 ∧
      p₁.visitPacketsToSend = .ok (p₂, bytes :: packets) := by
  have hid : c.id = 0 := by
    have := hintact.ids
    rw [hchannels, List.map_cons, List.cons.injEq] at this
    exact this.1
  have hch : p.channels.get? 0 = some (.unreliable c) := by
    rw [hchannels, ChannelList.get?, List.find?_cons_of_pos]
    rw [Channel.id, hid]
    rfl
  obtain ⟨⟨e, he⟩, -⟩ | ⟨ch', ms, -, hch', hblock, hrec, hp₁⟩ :=
    sendMessage_cases hintact.maxMessageSize.le hcall
  · cases he
  obtain rfl := Option.some.inj (hch.symm.trans hch')
  obtain ⟨m, ms, rfl, hdata⟩ := exists_cons_of_sendBlock hlen hblock
  have hpush : Channel.pushAll (.unreliable c) (m :: ms) = .unreliable { c with q := m :: ms } := by
    rw [Channel.pushAll_unreliable, hq, List.nil_append]
  have hchannels₁ : p₁.channels = p.channels.set 0 (.unreliable { c with q := m :: ms }) := by
    rw [hp₁, hpush]
  have hhead : ∃ cs', p₁.channels = .unreliable { c with q := m :: ms } :: cs' := by
    rw [hchannels₁, hchannels, ChannelList.set, List.map_cons, if_pos]
    · exact ⟨_, rfl⟩
    · rw [Channel.id, hid]
      rfl
  obtain ⟨cs', hhead⟩ := hhead
  have hlarge₁ : p₁.Stuffed := by
    intro ch hch x hx
    rw [hchannels₁] at hch
    rcases ChannelList.mem_set hch with rfl | ⟨hch, -⟩
    · exact hdata x hx
    · exact hlarge ch hch x hx
  have hfree₁ : p₁.Unhindered := by
    obtain ⟨hunacked, hacks, hold, hrest⟩ := hfree
    rw [TooOld, ← hrec.messagesInPackets] at hold
    rw [hp₁]
    exact ⟨hunacked, hacks, hold, hrest⟩
  obtain ⟨bytes, p₂, packets, hpacket, hfew, hvisit⟩ := exists_visitPacketsToSend_first
    (sound_sendMessage hsound hcall).1 hfree₁ hlarge₁ hhead rfl
  refine ⟨p₂, m, ms, bytes, packets, hblock, ?_, hfew, hvisit⟩
  rw [hp₁] at hpacket
  exact hpacket

end Endpoint

namespace Link

variable {permits : Link → Call → Prop} {l : Link}

/-- Nothing has happened to the network, and no packet was processed. -/
structure SameNetwork (l l' : Link) : Prop where
  net : l'.net = l.net
  sent : l'.sent = l.sent
  accepted : l'.accepted = l.accepted
  acked : l'.acked = l.acked

theorem SameNetwork.refl (l : Link) : l.SameNetwork l := ⟨rfl, rfl, rfl, rfl⟩

theorem SameNetwork.trans {l l' l'' : Link} (h : l.SameNetwork l') (h' : l'.SameNetwork l'') :
    l.SameNetwork l'' :=
  ⟨h'.net.trans h.net, h'.sent.trans h.sent, h'.accepted.trans h.accepted, h'.acked.trans h.acked⟩

/-- A call of `send_message` in a run. -/
theorem Reachable.sendMessage (h : Reachable permits l) {e : Side}
    {channel : UInt8} {payload : List UInt8}
    (hc : permits l (.sendMessage e channel payload)) {p : Endpoint}
    {res : Except PicklebackError MessageId}
    (hcall : (l.endpoint e).sendMessage channel payload = .ok (p, res)) :
    ∃ l', Reachable permits l' ∧ l'.endpoint = Function.update l.endpoint e p ∧ l.SameNetwork l' ∧
      ∀ s ∈ l'.sends e, s ∈ l.sends e ∨ s.payload = payload := by
  refine ⟨{ l.setEndpoint e p with
    sends := Function.update l.sends e (l.sends e ++
      [⟨channel, payload, (l.endpoint e).dispatcher.nextMessageId, res⟩]) },
    h.step hc ?_, rfl, ⟨rfl, rfl, rfl, rfl⟩, fun s hs => ?_⟩
  · simp only [Link.step, hcall]
  · simp only [Function.update_self] at hs
    rcases List.mem_append.mp hs with hs | hs
    · exact Or.inl hs
    · rw [List.mem_singleton.mp hs]
      exact Or.inr rfl

/-- A call of `visit_packets_to_send`. -/
theorem Reachable.visitPacketsToSend (h : Reachable permits l)
    {e : Side} (hc : permits l (.visitPacketsToSend e))
    {p : Endpoint} {packets : List (List UInt8)}
    (hcall : (l.endpoint e).visitPacketsToSend = .ok (p, packets)) :
    Reachable permits ((l.setEndpoint e p).launch e packets) :=
  h.step hc (by simp only [Link.step, hcall])

/-- **Any number of large sends**: the left side's counter of messages can be brought to any
number. -/
theorem exists_stuffs {payload : List UInt8} (hlen : payload.length = 1024)
    (h : Reachable permits l)
    (hpermits : ∀ l', l'.net = l.net → permits l' (.sendMessage .left 1 payload))
    (hintact : (l.endpoint .left).Intact)
    (hunacked : (l.endpoint .left).sentUnackedPackets < maxUnackedPackets) (n : ℕ) :
    ∃ l', Reachable permits l' ∧ l'.endpoint .right = l.endpoint .right ∧ l.SameNetwork l' ∧
      (∀ s ∈ l'.sends .left, s ∈ l.sends .left ∨ s.payload = payload) ∧ (l'.endpoint .left).Intact ∧
      (l.endpoint .left).Stuffs n (l'.endpoint .left) := by
  induction n with
  | zero => exact ⟨l, h, rfl, .refl l, fun s hs => Or.inl hs, hintact, .refl _⟩
  | succ n ih =>
    obtain ⟨l₁, hl₁, hright, hsame, hsends, hintact₁, hstuffs⟩ := ih
    have hunacked₁ : (l₁.endpoint .left).sentUnackedPackets < maxUnackedPackets := by
      rw [hstuffs.rest]
      exact hunacked
    obtain ⟨p, id, hcall, hone⟩ := hintact₁.stuffs hunacked₁ hlen
    obtain ⟨l₂, hl₂, hend, hsame₂, hsends₂⟩ := hl₁.sendMessage (hpermits l₁ hsame.net) hcall
    have hleft : l₂.endpoint .left = p := by rw [hend, Function.update_self]
    refine ⟨l₂, hl₂, ?_, hsame.trans hsame₂, fun s hs => ?_, ?_, ?_⟩
    · rw [hend, Function.update_of_ne (by decide), hright]
    · rcases hsends₂ s hs with hs | hs
      · exact hsends s hs
      · exact Or.inr hs
    · rw [hleft]
      exact hintact₁.sendMessage hcall
    · rw [hleft]
      exact hstuffs.trans hone

/-- The left side has made `n` large sends, sent `payload` on the unreliable channel, and visited
its packets. The first of them, of `bytes`, has the first message `m` of the payload in it. -/
structure Floods (l : Link) (n : ℕ) (large payload : List UInt8)
    (m : Message) (bytes : List UInt8) (l' : Link) :
    Prop where
  right : l'.endpoint .right = l.endpoint .right
  block : ∃ ms, SendBlock ((l.endpoint .left).dispatcher.nextMessageId + UInt16.ofNat n) 0 payload
    (m :: ms)
  packet : (l.endpoint .left).packetOf m.buffer.data = some bytes
  net : ⟨.left, l.sent .left + 1, l.sent .right, bytes⟩ ∈ l'.net
  few : l'.sent .left ≤ l.sent .left + 352
  sent : l'.sent .right = l.sent .right
  accepted : l'.accepted = l.accepted
  acked : l'.acked = l.acked
  receivedBuffer : (l'.endpoint .left).receivedBuffer = (l.endpoint .left).receivedBuffer
  ackInbox : (l'.endpoint .left).dispatcher.ackInbox = (l.endpoint .left).dispatcher.ackInbox
  sends : ∀ s ∈ l'.sends .left, s ∈ l.sends .left ∨ s.payload = large ∨ s.payload = payload

/-- **The first packet** after any number of large sends. -/
theorem exists_floods (h : Reachable permits l) (hintact : (l.endpoint .left).Intact)
    (hfree : (l.endpoint .left).Unhindered) (hstuffed : (l.endpoint .left).Stuffed)
    (hfirst : (l.endpoint .left).channels.head?.map (fun ch => (ch.isReliable, ch.queued.length)) =
      some (false, 0))
    (n : ℕ) {large payload : List UInt8} {k : ℕ} (hlarge : large.length = 1024)
    (hlen : payload.length = 1024 * (k + 1)) (hshort : k < 63)
    (hreg : 0 < k → SequenceBuffer.sequenceLessThan
      ((l.endpoint .left).dispatcher.nextMessageId + UInt16.ofNat n)
      ((l.endpoint .left).dispatcher.sentFragMap.sequence - 25000) = false)
    (hsends : ∀ l', l'.net = l.net → permits l' (.sendMessage .left 1 large))
    (hsend : ∀ l', l'.net = l.net → permits l' (.sendMessage .left 0 payload))
    (hvisit : ∀ l', permits l' (.visitPacketsToSend .left)) :
    ∃ l' m bytes, Reachable permits l' ∧ l.Floods n large payload m bytes l' := by
  obtain ⟨l₁, hl₁, hright, hsame, hsends₁, hintact₁, hstuffs⟩ :=
    exists_stuffs hlarge h hsends hintact hfree.1 n
  obtain ⟨c, cs, hchannels, hq⟩ :
      ∃ c cs, (l₁.endpoint .left).channels = .unreliable c :: cs ∧ c.q = [] := by
    obtain ⟨ch, hch, hfirst⟩ := Option.map_eq_some_iff.mp hfirst
    obtain ⟨cs, hcs⟩ := List.head?_eq_some_iff.mp (hstuffs.first.trans hch)
    rw [Prod.mk.injEq, List.length_eq_zero_iff] at hfirst
    cases ch with
    | unreliable c => exact ⟨c, cs, hcs, hfirst.2⟩
    | reliable c => cases hfirst.1
  have hfree₁ := hstuffs.unhindered hfree
  have hnext : (l₁.endpoint .left).dispatcher.nextMessageId
      = (l.endpoint .left).dispatcher.nextMessageId + UInt16.ofNat n := by rw [hstuffs.dispatcher]
  obtain ⟨ch, hch⟩ := hintact₁.exists_get? (Or.inl rfl)
  have hsize : payload.length ≤ (l₁.endpoint .left).config.maxMessageSize := by
    rw [hintact₁.maxMessageSize]
    omega
  obtain ⟨p₁, id, hcall⟩ :=
    (hintact₁.configured.sendMessage_ok_iff le_rfl hch hsize hfree₁.1).mpr (by
      rcases Nat.eq_zero_or_pos k with hk | hk
      · left
        omega
      · refine Or.inr ⟨fun _ => by omega, ?_⟩
        rw [MessageDispatcher.Registers, hnext, hstuffs.dispatcher, hintact.fragLen]
        exact hreg hk)
  obtain ⟨p₂, m, ms, bytes, packets, hblock, hpacket, hfew, hpackets⟩ :=
    Endpoint.exists_visitPacketsToSend_send hintact₁
    (sound_of_reachable hl₁ .left) hfree₁ (hstuffs.stuffed hstuffed) hchannels hq hlen hcall
  obtain ⟨l₂, hl₂, hend, hsame₂, hsends₂⟩ := hl₁.sendMessage (hsend l₁ hsame.net) hcall
  have hsame' := hsame.trans hsame₂
  have hl₃ := hl₂.visitPacketsToSend (hvisit l₂) (p := p₂)
    (by rw [hend, Function.update_self]; exact hpackets)
  have hintake := hintact₁.sameIntake_sendMessage hcall
  have hintake' := (hintact₁.sendMessage hcall).sameIntake_visitPacketsToSend hpackets
  refine ⟨_, m, bytes, hl₃, ?_, ⟨ms, hnext ▸ hblock⟩, hstuffs.packetOf _ ▸ hpacket, ?_, ?_, ?_, ?_,
    ?_, ?_, ?_, ?_⟩
  · simp [launch, setEndpoint, hend, hright]
  · simp [launch, setEndpoint, flights, hsame'.sent, Side.other]
  · simp only [launch, setEndpoint, Function.update_self, hsame'.sent, List.length_cons]
    omega
  · simp [launch, setEndpoint, hsame'.sent]
  · exact hsame'.accepted
  · exact hsame'.acked
  · simp only [launch, setEndpoint, Function.update_self]
    rw [hintake'.receivedBuffer, hintake.receivedBuffer, hstuffs.rest]
  · simp only [launch, setEndpoint, Function.update_self]
    rw [hintake'.ackInbox, hintake.ackInbox, hstuffs.dispatcher]
  · intro s hs
    rcases hsends₂ s hs with hs | hs
    · exact (hsends₁ s hs).imp_right Or.inl
    · exact Or.inr (Or.inr hs)

end Link

end Pickleback
