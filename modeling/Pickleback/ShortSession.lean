import Pickleback.AckDelivery
import Pickleback.Collection

/-!
# Short sessions

Most of what goes wrong between two endpoints goes wrong when ids come round or outgrow a window. In
a session with at most 10000 messages and fragments from each side nothing of the kind can happen.
Every call of `send_message` is then in the inbox of the peer once if all its messages have arrived,
and not at all otherwise; and an id in an ack inbox is that of a call that is in the inbox of the
peer.

## Main definitions

* `Link.Arrived` — what is in the packets that were accepted
* `Link.PermitsFew` — the calls of a short session
* `Link.Short` — the invariant: the ids have not come round, and the peer has collected what has
  arrived

## Main results

* `Link.short_step`, `Link.PermitsFew.taken` — one call
* `Link.messageInbox_exactly_once` — every run: delivery
* `Link.ackInbox_delivered_few` — every run: acks
-/

namespace Pickleback

open Serial AckProtocol

/-! ### What a side that sends leaves alone -/

theorem Channel.seenBuf_pushAll (ch : Channel) (ms : List Message) :
    (ch.pushAll ms).seenBuf = ch.seenBuf := by
  induction ms generalizing ch with
  | nil => rfl
  | cons m ms ih =>
    refine (ih (ch.push m)).trans ?_
    cases ch <;> rfl

/-- The fragmented messages that are acked in part. -/
def MessageDispatcher.awaited (d : MessageDispatcher) : Set MessageId :=
  { id | ∃ remaining, d.sentFragMap.get id = some (.partially remaining) }

namespace MessageDispatcher

variable {d d' : MessageDispatcher}

theorem awaited_ackHandle {handle : MessageHandle} (hcall : d.ackHandle handle = .ok d') :
    d'.awaited ⊆ d.awaited := by
  rw [ackHandle] at hcall
  split at hcall
  · split at hcall
    · cases hcall
    · next whole m hack =>
      cases hcall
      rintro id ⟨remaining, hget⟩
      refine (SentFragMap.partially_of_ackFragmentMessage hack).1 id remaining ?_
      cases whole <;> exact hget
  · cases hcall
    exact fun _ hid => hid

theorem awaited_ackHandles {handles : List MessageHandle} {channels channels' : ChannelList}
    {buffers : List PooledBuffer}
    (hcall : d.ackHandles channels handles = .ok (buffers, d', channels')) :
    d'.awaited ⊆ d.awaited := by
  induction handles generalizing d channels buffers with
  | nil =>
    cases hcall
    exact fun _ hid => hid
  | cons handle rest ih =>
    rw [MessageDispatcher.ackHandles] at hcall
    split at hcall
    · cases hcall
    · split at hcall
      · cases hcall
      · split at hcall
        · cases hcall
        · next d₁ hd₁ =>
          obtain ⟨⟨buffers', d₂, channels₂⟩, hrest, heq⟩ := exists_of_map_eq_ok hcall
          cases heq
          exact (ih hrest).trans (awaited_ackHandle hd₁)

theorem Records.awaited {payload : List UInt8} {ms : List Message}
    {res : Except PicklebackError MessageId}
    (h : d.Records payload ms res d') : d'.awaited ⊆ insert d.nextMessageId d.awaited := by
  cases h with
  | whole _ => exact Set.subset_insert ..
  | fragmented _ hm =>
    rintro id ⟨remaining, hget⟩
    obtain ⟨rfl, -⟩ | hget := SequenceBuffer.get_of_get_insert hm hget
    · exact Or.inl rfl
    · exact Or.inr ⟨remaining, hget⟩
  | tooOld _ _ => exact Set.subset_insert ..

end MessageDispatcher

namespace Endpoint

variable {p p' : Endpoint}

/-- A packet that comes in uses up no message ids, and nothing that is awaited is added. -/
theorem awaited_processIncomingPacket (h : p.Intact) {header : ProtocolPacketHeader}
    {payload : List UInt8}
    {r : Except PicklebackError Unit}
    (hcall : p.processIncomingPacket header payload = .ok (p', r)) :
    p'.dispatcher.nextMessageId = p.dispatcher.nextMessageId ∧
      p'.dispatcher.awaited ⊆ p.dispatcher.awaited := by
  refine (processIncomingPacket_induct (I := fun q => q.Intact ∧
    q.dispatcher.nextMessageId = p.dispatcher.nextMessageId ∧
      q.dispatcher.awaited ⊆ p.dispatcher.awaited)
      ?_ ?_ ?_ ?_ ⟨h, rfl, subset_rfl⟩ hcall).2
  · intro q q' hq hsame
    refine ⟨hq.1.sameCore hsame, ?_⟩
    rw [hsame]
    exact hq.2
  · exact fun hq hb => ⟨hq.1.receivedBuffer hb, hq.2⟩
  · intro q q' packetType ack hq hack
    refine ⟨hq.1.processAck hack, ?_⟩
    obtain rfl | ⟨_, _, d, _, -, -, hd, hq'⟩ := processAck_cases hack
    · exact hq.2
    · have hnext := (MessageDispatcher.sameIntake_ackedPacket hd).nextMessageId
      rw [MessageDispatcher.ackedPacket_eq] at hd
      rw [hq']
      exact ⟨hnext.trans hq.2.1, (MessageDispatcher.awaited_ackHandles hd).trans hq.2.2⟩
  · intro q q' m hq hm
    refine ⟨hq.1.receiveMessage hm, (sameSending_receiveMessage hq.1 hm).nextMessageId.trans hq.2.1,
      ?_⟩
    rw [MessageDispatcher.awaited, (sameAcks_receiveMessage hm).1]
    exact hq.2.2

theorem window_sendMessage (h : p.Intact) {channel : UInt8} {payload : List UInt8}
    {res : Except PicklebackError MessageId}
    (hcall : p.sendMessage channel payload = .ok (p', res)) :
    p'.channels.window = p.channels.window := by
  obtain ⟨-, -, hp⟩ | ⟨-, -, -, ch, ms, hch, -, -, hp⟩ :=
    sendMessage_takes_cases h hcall p.dispatcher.nextMessageId
  · rw [hp]
  · rw [hp]
    exact ChannelList.window_set_of_seenBuf hch (Channel.id_pushAll ch ms) (ch.seenBuf_pushAll ms)

theorem window_visitPacketsToSend (h : p.Intact) {packets : List (List UInt8)}
    (hcall : p.visitPacketsToSend = .ok (p', packets)) :
    p'.channels.window = p.channels.window := by
  obtain ⟨es, p₁, p₂, r, hall, -, hstop, hp, -⟩ := visitPacketsToSend_cases h hcall
  have hshrinks := (hall.wrote h.channels).imp fun _ _ hc => hc.shrinks
  rw [hp]
  dsimp only
  rw [hstop.channels]
  exact ChannelList.window_of_shrinks hshrinks

/-- Sending packets uses up no message ids, and nothing that is awaited is forgotten or added. -/
theorem sameIds_visitPacketsToSend (h : p.Intact) {packets : List (List UInt8)}
    (hcall : p.visitPacketsToSend = .ok (p', packets)) :
    p'.dispatcher.nextMessageId = p.dispatcher.nextMessageId ∧
      p'.dispatcher.sentFragMap = p.dispatcher.sentFragMap := by
  obtain ⟨es, p₁, p₂, r, hall, -, hstop, hp, -⟩ := visitPacketsToSend_cases h hcall
  rw [hp]
  dsimp only
  rw [hstop.dispatcher]
  refine ⟨?_, hall.sentFragMap⟩
  clear hstop hp hcall h
  induction hall with
  | nil p => rfl
  | cons hemits _ ih => exact ih.trans (by rw [hemits.rest])

end Endpoint

/-! ### Short sessions -/

namespace Link

open Assembly

variable {l l' : Link} {e : Side} {f : Flight}

/-- The messages that side `e` has queued, in order. -/
def queuedContents (l : Link) (e : Side) : List MessageContent :=
  (l.queuedBy e).flatMap SendCall.contents

/-- What has arrived of them: what is in the packets that the peer has accepted. -/
def Arrived (l : Link) (e : Side) : Set MessageContent :=
  { c | ∃ f ∈ l.net, f.source = e ∧ f.number ∈ l.accepted e.other ∧ c ∈ f.contents }

/-- The calls of an application over a network that neither alters nor forges packets and delivers
none too late, with payloads that are read back as they were sent, and with at most 10000 messages
and fragments from each side. -/
def PermitsFew (l : Link) : Call → Prop
  | .sendMessage e channel payload => (l.endpoint e).TakesSend channel payload →
    Readable payload ∧ (l.queuedContents e).length + numIds payload ≤ 10000
  | c => l.Permits c

instance (l : Link) (c : Call) : Decidable (l.PermitsFew c) :=
  match c with
  | .sendMessage e channel payload =>
    inferInstanceAs (Decidable ((l.endpoint e).TakesSend channel payload →
      Readable payload ∧ (l.queuedContents e).length + numIds payload ≤ 10000))
  | .update e dt => inferInstanceAs (Decidable (l.Permits (.update e dt)))
  | .visitPacketsToSend e => inferInstanceAs (Decidable (l.Permits (.visitPacketsToSend e)))
  | .deliver f => inferInstanceAs (Decidable (l.Permits (.deliver f)))
  | .sendKeepAlive e clientIndex =>
    inferInstanceAs (Decidable (l.Permits (.sendKeepAlive e clientIndex)))

/-- The ids of side `e` have not come round, and its peer has received what has arrived. -/
structure Short (l : Link) (e : Side) : Prop where
  calls : InSequence (l.queuedBy e)
  next : (l.endpoint e).dispatcher.nextMessageId = UInt16.ofNat (l.queuedContents e).length
  awaited : ∀ id ∈ (l.endpoint e).dispatcher.awaited, id.toNat < (l.queuedContents e).length
  collects : ∃ r, r.got = l.Arrived e ∧ (l.endpoint e.other).Collects (l.queuedBy e) r

theorem short_start (overflowChecks : Side → Bool) (time : Side → Time)
    (salt : Side → UInt64) (e : Side) :
    (start overflowChecks time salt).Short e where
  calls := .nil
  next := rfl
  awaited := by
    rintro id ⟨remaining, hget⟩
    cases hget
  collects := by
    have hflat : (SequenceBuffer.withCapacity 10000 : SequenceBuffer Bool).Flat ∅ :=
      SequenceBuffer.flat_withCapacity (by norm_num) (by norm_num)
    refine ⟨Receiver.empty, by simp [Receiver.empty, Arrived, start],
      MessageReassembler.placed_empty, ?_, .nil _,
      by simp [Receiver.empty], fun parent c => ?_, fun channel => .nil⟩
    · intro channel hchannel
      have hempty : { id |
          ∃ c ∈ (Receiver.empty : Receiver SendCall MessageContent).got, c.channel = channel ∧
            c.id = id }
          = (∅ : Set MessageId) := by simp [Receiver.empty]
      rw [hempty]
      rcases hchannel with rfl | rfl
      · exact ⟨_, rfl, rfl, hflat⟩
      · exact ⟨_, rfl, rfl, hflat⟩
    · refine iff_of_false ?_ (by simp [start, queuedBy])
      rintro ⟨m, hm, -⟩
      cases hm

/-- The call leaves the ids of side `e` alone, and what its peer has received. -/
theorem Short.transfer (h : l.Short e) (hqueued : l'.queuedBy e = l.queuedBy e)
    (hnext : (l'.endpoint e).dispatcher.nextMessageId = (l.endpoint e).dispatcher.nextMessageId)
    (hawaited : (l'.endpoint e).dispatcher.awaited ⊆ (l.endpoint e).dispatcher.awaited)
    (harrived : l'.Arrived e = l.Arrived e)
    (hwindow : (l'.endpoint e.other).channels.window = (l.endpoint e.other).channels.window)
    (hinbox : (l'.endpoint e.other).dispatcher.messageInbox =
      (l.endpoint e.other).dispatcher.messageInbox)
    (hreassembler : (l'.endpoint e.other).dispatcher.messageReassembler
      = (l.endpoint e.other).dispatcher.messageReassembler) : l'.Short e where
  calls := hqueued ▸ h.calls
  next := by
    rw [hnext, queuedContents, hqueued]
    exact h.next
  awaited := by
    intro id hid
    rw [queuedContents, hqueued]
    exact h.awaited id (hawaited hid)
  collects := by
    obtain ⟨r, hr, hcollects⟩ := h.collects
    rw [harrived, hqueued]
    exact ⟨r, hr, hcollects.transfer hwindow hinbox hreassembler⟩

/-! ### What the packets of a side contain -/

/-- The messages of a packet are read as they were written, and are of calls that its sender has
made. -/
theorem Recorded.forall₂_contents (h : l.Recorded f.source) (hf : f ∈ l.net)
    {packet : ProtocolPacket}
    {payload : List UInt8} (hread : readPacket f.bytes = .ok (packet, payload))
    (htype : packet.header.packetType = .messages) : ∃ ms : List Message,
      List.Forall₂ (fun (m : Message) c => m.Writes c ∧ c.WellFormed ∧ ¬ c.Truncated ∧
        ∃ s ∈ l.queuedBy f.source, c ∈ s.contents) ms f.contents ∧
        payload = ms.flatMap fun m => m.buffer.data := by
  obtain ⟨ms, hms, rfl⟩ := h.net f hf rfl packet payload hread htype
  have hcontents : f.contents = packetContents (ms.flatMap fun m => m.buffer.data) := by
    rw [Flight.contents, hread]
    exact if_pos htype
  rw [hcontents]
  exact ⟨ms, forall₂_packetContents hms, rfl⟩

theorem packetType_of_mem_contents {packet : ProtocolPacket} {payload : List UInt8}
    (hread : readPacket f.bytes = .ok (packet, payload)) {c : MessageContent}
    (hc : c ∈ f.contents) :
    packet.header.packetType = .messages := by
  rw [Flight.contents, hread] at hc
  dsimp only at hc
  split at hc
  · next htype => exact htype
  · cases hc

theorem Recorded.exists_call (h : l.Recorded f.source) (hf : f ∈ l.net)
    {c : MessageContent} (hc : c ∈ f.contents) :
    ∃ s ∈ l.queuedBy f.source, c ∈ s.contents := by
  cases hread : readPacket f.bytes with
  | error err =>
    rw [Flight.contents, hread] at hc
    cases hc
  | ok read =>
    obtain ⟨packet, payload⟩ := read
    obtain ⟨ms, hms, -⟩ := h.forall₂_contents hf hread (packetType_of_mem_contents hread hc)
    obtain ⟨m, -, -, -, -, hsent⟩ := exists_of_forall₂_mem hms hc
    exact hsent

/-! ### One call -/

/-- `send_message`: the messages get the next ids. -/
theorem Short.sendMessage (h : l.Short e) (hintact : (l.endpoint e).Intact)
    {channel : UInt8} {payload : List UInt8}
    (hfew : (l.endpoint e).TakesSend channel payload →
      (l.queuedContents e).length + numIds payload ≤ 10000)
    {p : Endpoint} {res : Except PicklebackError MessageId}
    (hcall : (l.endpoint e).sendMessage channel payload = .ok (p, res))
    (hendpoint : l'.endpoint = Function.update l.endpoint e p)
    (hsends : l'.sends = Function.update l.sends e (l.sends e ++
      [⟨channel, payload, (l.endpoint e).dispatcher.nextMessageId, res⟩]))
    (hnet : l'.net = l.net) (haccepted : l'.accepted = l.accepted) : l'.Short e := by
  set s : SendCall := ⟨channel, payload, (l.endpoint e).dispatcher.nextMessageId, res⟩ with hs
  have hqueued : l'.queuedBy e = l.queuedBy e ++ [s].filter SendCall.enqueues := by
    rw [queuedBy, hsends, Function.update_self, List.filter_append, queuedBy]
  have hown : l'.endpoint e = p := by rw [hendpoint, Function.update_self]
  have hpeer : l'.endpoint e.other = l.endpoint e.other := by
    rw [hendpoint, Function.update_of_ne e.other_ne]
  have harrived : l'.Arrived e = l.Arrived e := by rw [Arrived, hnet, haccepted, Arrived]
  obtain ⟨-, hfails, hp⟩ | ⟨htakes, henqueues, hlen, ch, ms, hch, hblock, hrecords, -⟩ :=
    Endpoint.sendMessage_takes_cases hintact hcall (l.endpoint e).dispatcher.nextMessageId
  · have hsame : p.dispatcher = (l.endpoint e).dispatcher := by rw [hp]
    refine h.transfer ?_ ?_ ?_ harrived (by rw [hpeer]) (by rw [hpeer]) (by rw [hpeer])
    · rw [hqueued, List.filter_cons_of_neg (by simp [hs, hfails]), List.filter_nil, List.append_nil]
    · rw [hown, hsame]
    · rw [hown, hsame]
  · rw [List.filter_cons_of_pos henqueues, List.filter_nil] at hqueued
    have hroom := hfew htakes
    have hms : ms.length = numIds payload := hblock.length_eq
    have hcontents : (l'.queuedContents e).length = (l.queuedContents e).length +
      numIds payload := by
      rw [queuedContents, hqueued, List.flatMap_append, List.flatMap_singleton, List.length_append,
        SendCall.length_contents, queuedContents]
    have hcalls : InSequence (l.queuedBy e ++ [s]) :=
      h.calls.concat h.next hroom ⟨hlen, fun id hid => hrecords.id_eq hid⟩
        (hintact.configured.channel_eq hch)
    refine ⟨by rw [hqueued]; exact hcalls, ?_, fun id hid => ?_, ?_⟩
    · rw [hown, hrecords.nextMessageId, h.next, hcontents, hms, UInt16.ofNat_add]
    · rw [hown] at hid
      rw [hcontents]
      rcases hrecords.awaited hid with rfl | hid
      · have hpos := SendCall.numIds_pos payload
        rw [h.next, UInt16.toNat_ofNat', Nat.mod_eq_of_lt (by omega)]
        omega
      · have := h.awaited id hid
        omega
    · obtain ⟨r, hr, hcollects⟩ := h.collects
      rw [hpeer, hqueued, harrived]
      exact ⟨r, hr, hcollects.concat hcalls⟩

/-- What has just been sent has not arrived. -/
theorem arrived_launch (hl : Reachable Permits l) (p : Endpoint) (packets : List (List UInt8)) :
    ((l.setEndpoint e p).launch e packets).Arrived e = l.Arrived e := by
  ext c
  constructor
  · rintro ⟨f, hf, hsource, haccepted, hc⟩
    rcases List.mem_append.mp hf with hf | hf
    · exact ⟨f, hf, hsource, haccepted, hc⟩
    · obtain ⟨k, bytes, -, rfl⟩ := exists_getElem?_of_mem_flights hf
      obtain ⟨f', hf', hsource', hnumber⟩ := number_of_mem_accepted hl haccepted
      have hle := (number_of_mem_net hl hf').2
      rw [hsource', hnumber] at hle
      dsimp only [setEndpoint] at hle
      omega
  · rintro ⟨f, hf, hrest⟩
    exact ⟨f, List.mem_append_left _ hf, hrest⟩

/-- The packets of the other side make no difference. -/
theorem arrived_other_launch (p : Endpoint) (packets : List (List UInt8)) :
    ((l.setEndpoint e p).launch e packets).Arrived e.other = l.Arrived e.other := by
  ext c
  constructor
  · rintro ⟨f, hf, hsource, hrest⟩
    rcases List.mem_append.mp hf with hf | hf
    · exact ⟨f, hf, hsource, hrest⟩
    · exact absurd ((mem_flights hf).1.symm.trans hsource) (Ne.symm e.other_ne)
  · rintro ⟨f, hf, hrest⟩
    exact ⟨f, List.mem_append_left _ hf, hrest⟩

variable {packet : ProtocolPacket} {payload : List UInt8} {p : Endpoint}
  {res : Except PicklebackError Unit}

/-- What a packet adds to what has arrived. -/
theorem Delivers.arrived_source (h : l.Delivers f packet payload p res l') (hf : f ∈ l.net)
    (hunique : ∀ f' ∈ l.net, f'.source = f.source → f'.number = f.number → f' = f) :
    l'.Arrived f.source = l.Arrived f.source ∪
      { c | c ∈ if (l.endpoint f.source.other).accepts packet.header = true
        then f.contents else [] } := by
  ext c
  rw [Arrived, Arrived, h.net, h.accepted]
  by_cases haccepts : (l.endpoint f.source.other).accepts packet.header = true
  · rw [if_pos haccepts, if_pos haccepts]
    constructor
    · rintro ⟨f', hf', hsource, hnumber, hc⟩
      rcases List.mem_append.mp hnumber with hnumber | hnumber
      · exact Or.inl ⟨f', hf', hsource, hnumber, hc⟩
      · exact Or.inr (hunique f' hf' hsource (List.mem_singleton.mp hnumber) ▸ hc)
    · rintro (⟨f', hf', hsource, hnumber, hc⟩ | hc)
      · exact ⟨f', hf', hsource, List.mem_append_left _ hnumber, hc⟩
      · exact ⟨f, hf, rfl, List.mem_append_right _ (List.mem_singleton_self _), hc⟩
  · rw [if_neg haccepts, if_neg haccepts, List.append_nil]
    simp

theorem Delivers.arrived_target (h : l.Delivers f packet payload p res l') :
    l'.Arrived f.source.other = l.Arrived f.source.other := by
  rw [Arrived, Arrived, h.net, Side.other_other, h.accepted_source]

/-- **A delivery**, seen from the side that has sent the packet: the receiver is handed its
messages. -/
theorem Short.deliver_source (h : l.Short f.source) (hrec : l.Recorded f.source)
    (hintact : (l.endpoint f.source.other).Intact) (hf : f ∈ l.net)
    (hunique : ∀ f' ∈ l.net, f'.source = f.source → f'.number = f.number → f' = f)
    (hdelivers : l.Delivers f packet payload p res l') : l'.Short f.source := by
  have hown : l'.endpoint f.source = l.endpoint f.source := by
    rw [hdelivers.endpoint, Function.update_of_ne (Ne.symm f.source.other_ne)]
  have hpeer : l'.endpoint f.source.other = p := by rw [hdelivers.endpoint, Function.update_self]
  obtain ⟨r, hr, hcollects⟩ := h.collects
  obtain ⟨xs, -, hmap, hcollects'⟩ := hcollects.processIncomingPacket hintact h.calls
    (fun c hc => hrec.exists_call hf hc) (fun hother => by
      refine List.eq_nil_iff_forall_not_mem.mpr fun c hc => ?_
      exact hother (packetType_of_mem_contents hdelivers.read hc))
    (fun htype => by
      obtain ⟨ms, hms, hpayload⟩ := hrec.forall₂_contents hf hdelivers.read htype
      exact ⟨ms, hms.imp fun _ _ hm => ⟨hm.1, hm.2.1, hm.2.2.1⟩, hpayload⟩) hdelivers.call
  refine ⟨?_, ?_, ?_, r.takeAll SendCall.contents xs, ?_, ?_⟩
  · rw [hdelivers.queuedBy]
    exact h.calls
  · rw [hown, queuedContents, hdelivers.queuedBy]
    exact h.next
  · rw [hown, queuedContents, hdelivers.queuedBy]
    exact h.awaited
  · rw [Receiver.got_takeAll, hr, hdelivers.arrived_source hf hunique, ← hmap]
    congr 1
    ext c
    simp
  · rw [hpeer, hdelivers.queuedBy]
    exact hcollects'

/-- Seen from the other side, it is only acks. -/
theorem Short.deliver_target (h : l.Short f.source.other)
    (hintact : (l.endpoint f.source.other).Intact)
    (hdelivers : l.Delivers f packet payload p res l') : l'.Short f.source.other := by
  have hown : l'.endpoint f.source.other = p := by rw [hdelivers.endpoint, Function.update_self]
  have hpeer : l'.endpoint f.source.other.other = l.endpoint f.source.other.other := by
    rw [hdelivers.endpoint, Function.update_of_ne f.source.other.other_ne]
  obtain ⟨hnext, hawaited⟩ := Endpoint.awaited_processIncomingPacket hintact hdelivers.call
  refine h.transfer (hdelivers.queuedBy _) ?_ ?_ hdelivers.arrived_target
    (by rw [hpeer]) (by rw [hpeer])
    (by rw [hpeer])
  · rw [hown, hnext]
  · rw [hown]
    exact hawaited

/-- **One call.** -/
theorem short_step (hl : Reachable Permits l) (hfaithful : l.Faithful)
    (hattested : ∀ e, l.Attested e)
    (h : ∀ e, l.Short e) {c : Call} (hc : l.PermitsFew c) (hstep : l.step c = .ok l') (e : Side) :
    l'.Short e := by
  cases c with
  | sendMessage e₀ channel payload =>
    obtain ⟨hrec, -⟩ := hfaithful e₀
    simp only [step] at hstep
    split at hstep
    · cases hstep
    · next p res hcall =>
      cases hstep
      rcases e₀.eq_or_eq_other e with rfl | rfl
      · exact (h e).sendMessage hrec.intact (fun htakes => (hc htakes).2) hcall rfl rfl rfl rfl
      · have hintake := hrec.intact.sameIntake_sendMessage hcall
        have hwindow := Endpoint.window_sendMessage hrec.intact hcall
        refine (h e₀.other).transfer ?_ ?_ ?_ rfl ?_ ?_ ?_
        all_goals simp [queuedBy, setEndpoint, hwindow, hintake.messageInbox,
          hintake.messageReassembler]
  | update e₀ dt =>
    cases hstep
    have hwindow : ((l.endpoint e₀).update dt).channels.window = (l.endpoint e₀).channels.window :=
      ChannelList.window_update _ dt
    have hdispatcher : ((l.endpoint e₀).update dt).dispatcher = (l.endpoint e₀).dispatcher := rfl
    rcases e₀.eq_or_eq_other e with rfl | rfl
    · refine (h e).transfer rfl ?_ ?_ rfl ?_ ?_ ?_
      all_goals simp [setEndpoint, hdispatcher]
    · refine (h e₀.other).transfer rfl ?_ ?_ rfl ?_ ?_ ?_
      all_goals simp [setEndpoint, hdispatcher, hwindow]
  | visitPacketsToSend e₀ =>
    obtain ⟨hrec, -⟩ := hfaithful e₀
    simp only [step] at hstep
    split at hstep
    · cases hstep
    · next p packets hcall =>
      cases hstep
      rcases e₀.eq_or_eq_other e with rfl | rfl
      · obtain ⟨hnext, hmap⟩ := Endpoint.sameIds_visitPacketsToSend hrec.intact hcall
        refine (h e).transfer rfl ?_ ?_ (arrived_launch hl p packets) ?_ ?_ ?_
        all_goals simp [launch, setEndpoint, hnext, MessageDispatcher.awaited, hmap]
      · have hintake := hrec.intact.sameIntake_visitPacketsToSend hcall
        have hwindow := Endpoint.window_visitPacketsToSend hrec.intact hcall
        refine (h e₀.other).transfer rfl ?_ ?_ (arrived_other_launch p packets) ?_ ?_ ?_
        all_goals simp [launch, setEndpoint, hwindow, hintake.messageInbox,
          hintake.messageReassembler]
  | deliver f =>
    obtain rfl | ⟨packet, payload, p, res, hdelivers⟩ := exists_delivers hstep
    · exact h e
    · rcases f.source.eq_or_eq_other e with rfl | rfl
      · exact (h _).deliver_source (hfaithful _).1 (hfaithful _).1.intact hc.1
          (fun f' hf' hsource hnumber => (hattested _).unique f hc.1 f' hf' rfl hsource hnumber)
            hdelivers
      · exact (h _).deliver_target (hfaithful _).1.intact hdelivers
  | sendKeepAlive e₀ clientIndex => exact hc.elim

/-- **What a short session permits** gives no id away too early, and no message is refused that was
not had before. -/
theorem PermitsFew.taken (hfaithful : l.Faithful) (h : ∀ e, l.Short e)
    {c : Call} (hc : l.PermitsFew c) :
    l.PermitsTaken c := by
  cases c with
  | sendMessage e channel payload =>
    intro htakes
    obtain ⟨hread, hroom⟩ := hc htakes
    have hpos := SendCall.numIds_pos payload
    have hnext : (l.endpoint e).dispatcher.nextMessageId.toNat = (l.queuedContents e).length := by
      rw [(h e).next, UInt16.toNat_ofNat', Nat.mod_eq_of_lt (by omega)]
    refine ⟨hread, ?_, fun _ _ status hstatus => ?_⟩
    · rintro f hf rfl - c hc heq
      obtain ⟨s, hs, hmem⟩ := (hfaithful f.source).1.exists_call hf hc
      obtain ⟨c₀, hc₀, hid⟩ := s.exists_first
      have hlt := (h f.source).calls.toNat_id_lt hs hc₀
      rw [SendCall.key_of_mem hmem] at heq
      rw [hid, heq, hnext] at hlt
      exact lt_irrefl _ hlt
    · cases status with
      | complete => exact Or.inl rfl
      | unknown => exact Or.inr rfl
      | partially remaining =>
        have hlt := (h e).awaited _ ⟨remaining, hstatus⟩
        rw [hnext] at hlt
        exact absurd hlt (lt_irrefl _)
  | update e dt => exact hc
  | visitPacketsToSend e => exact hc
  | deliver f =>
    refine ⟨hc, fun packet payload _ _ => ?_⟩
    obtain ⟨r, -, hcollects⟩ := (h f.source).collects
    have hsent : ∀ c ∈ f.contents, ∃ s ∈ l.queuedBy f.source, c ∈ s.contents := fun c hmem =>
      (hfaithful f.source).1.exists_call hc.1 hmem
    exact ⟨hcollects.arrives (h f.source).calls hsent,
      hcollects.windows.takesAll (h f.source).calls hsent hcollects.sent
        fun c hmem => hcollects.hasNewest (h f.source).calls hmem⟩
  | sendKeepAlive e clientIndex => exact hc

theorem Reachable.short (h : Reachable PermitsFew l) : Reachable PermitsTaken l ∧
    ∀ e, l.Short e := by
  refine h.invariant (I := fun l => Reachable PermitsTaken l ∧ ∀ e, l.Short e)
    (fun overflowChecks time salt =>
    ⟨.start overflowChecks time salt, short_start overflowChecks time salt⟩) ?_
  intro l l' c _ hshort hc hstep
  obtain ⟨hl, hshort⟩ := hshort
  obtain ⟨hfaithful, hattested⟩ := hl.attested
  refine ⟨hl.step (hc.taken hfaithful hshort) hstep, fun e => ?_⟩
  exact short_step (hl.mono fun _ _ hc => hc.permits) hfaithful hattested hshort hc hstep e

/-! ### Every run -/

/-- What has been sent, accepted and queued stays so. -/
structure Grows (l l' : Link) : Prop where
  queuedBy : ∀ e, ∀ s ∈ l.queuedBy e, s ∈ l'.queuedBy e
  net : ∀ f ∈ l.net, f ∈ l'.net
  accepted : ∀ e, ∀ n ∈ l.accepted e, n ∈ l'.accepted e

theorem Grows.refl (l : Link) : l.Grows l := ⟨fun _ _ hs => hs, fun _ hf => hf, fun _ _ hn => hn⟩

theorem Grows.trans {l₁ l₂ l₃ : Link} (h : l₁.Grows l₂) (h' : l₂.Grows l₃) : l₁.Grows l₃ :=
  ⟨fun e s hs => h'.queuedBy e s (h.queuedBy e s hs), fun f hf => h'.net f (h.net f hf),
    fun e n hn => h'.accepted e n (h.accepted e n hn)⟩

/-- What has arrived stays. -/
theorem Grows.arrived (h : l.Grows l') (e : Side) : l.Arrived e ⊆ l'.Arrived e := by
  rintro c ⟨f, hf, hsource, hnumber, hc⟩
  exact ⟨f, h.net f hf, hsource, h.accepted _ _ hnumber, hc⟩

theorem grows_step {c : Call} (hstep : l.step c = .ok l') : l.Grows l' := by
  cases c with
  | sendMessage e₀ channel payload =>
    simp only [step] at hstep
    split at hstep
    · cases hstep
    · cases hstep
      refine ⟨fun e s hs => ?_, fun _ hf => hf, fun _ _ hn => hn⟩
      rw [Link.queuedBy]
      dsimp only
      rcases e₀.eq_or_eq_other e with rfl | rfl
      · rw [Function.update_self, List.filter_append]
        exact List.mem_append_left _ hs
      · rw [Function.update_of_ne e₀.other_ne]
        exact hs
  | update e₀ dt =>
    cases hstep
    exact ⟨fun _ _ hs => hs, fun _ hf => hf, fun _ _ hn => hn⟩
  | visitPacketsToSend e₀ =>
    simp only [step] at hstep
    split at hstep
    · cases hstep
    · cases hstep
      exact ⟨fun _ _ hs => hs, fun _ hf => List.mem_append_left _ hf, fun _ _ hn => hn⟩
  | deliver f =>
    obtain rfl | ⟨packet, payload, p, res, hdelivers⟩ := exists_delivers hstep
    · exact .refl _
    · refine ⟨fun e s hs => (hdelivers.queuedBy e).symm ▸ hs, fun _ hf =>
        hdelivers.net.symm ▸ hf, fun e n hn => ?_⟩
      rcases f.source.eq_or_eq_other e with rfl | rfl
      · rw [hdelivers.accepted_source]
        exact hn
      · rw [hdelivers.accepted]
        exact List.mem_append_left _ hn
  | sendKeepAlive e₀ clientIndex =>
    simp only [step] at hstep
    split at hstep
    · cases hstep
    · cases hstep
      exact ⟨fun _ _ hs => hs, fun _ hf => hf, fun _ _ hn => hn⟩

/-- **Exactly once.** In every short session over a network that loses, repeats and reorders
packets: a call of `send_message` that has queued something is in the inbox of its channel once if
all its messages are in packets that the peer has accepted, and it is not in there otherwise. There
is nothing else in the inboxes. -/
theorem messageInbox_exactly_once (h : Reachable PermitsFew l) (e : Side) :
    (∀ s ∈ l.queuedBy e,
      ((∀ c ∈ s.contents, c ∈ l.Arrived e) →
        ((l.endpoint e.other).dispatcher.messageInbox s.channel).countP (fun msg => s.Is msg) = 1) ∧
      ((¬ ∀ c ∈ s.contents, c ∈ l.Arrived e) →
        ((l.endpoint e.other).dispatcher.messageInbox s.channel).countP
        (fun msg => s.Is msg) = 0)) ∧
      ∀ channel, ∀ msg ∈ (l.endpoint e.other).dispatcher.messageInbox channel,
        ∃ s ∈ l.queuedBy e, s.channel = channel ∧ s.Is msg := by
  have hshort := h.short.2 e
  obtain ⟨r, hr, hcollects⟩ := hshort.collects
  refine ⟨fun s hs => ?_, fun channel msg hmsg => ?_⟩
  · rw [← hr]
    exact hcollects.countP_is hshort.calls hs
  · obtain ⟨s, hs, hchannel, -, his⟩ := hcollects.exists_is hmsg
    exact ⟨s, hs, hchannel, his⟩

/-- What has been reported to the application of side `e` has arrived. -/
theorem Reachable.reported (h : Reachable PermitsFew l) (e : Side) (channel : UInt8) :
    ∀ id ∈ (l.endpoint e).dispatcher.ackInbox channel, ∃ s ∈ l.queuedBy e, s.result = .ok id ∧
      s.channel = channel ∧
      ∀ c ∈ s.contents, c ∈ l.Arrived e := by
  refine h.invariant (I := fun l => ∀ e channel, ∀ id ∈ (l.endpoint e).dispatcher.ackInbox channel,
    ∃ s ∈ l.queuedBy e, s.result = .ok id ∧ s.channel = channel ∧
      ∀ c ∈ s.contents, c ∈ l.Arrived e) ?_ ?_ e channel
  · intro overflowChecks time salt e channel id hid
    cases hid
  · intro l l' c hl ih hc hstep e channel id hid
    obtain ⟨htaken, hshort⟩ := hl.short
    obtain ⟨hfaithful, hattested⟩ := htaken.attested
    have htakes := hc.taken hfaithful hshort
    have hgrows := grows_step hstep
    have hpermits : ∀ l c, PermitsTaken l c → Permits l c := fun _ _ hc => hc.permits
    obtain ⟨-, hpushes⟩ := attested_step (htaken.mono hpermits)
      ((htaken.step htakes hstep).mono hpermits) hfaithful
      hattested htakes hstep e
    obtain ⟨pushed, hinbox, hpushed⟩ := hpushes channel
    rw [hinbox] at hid
    rcases List.mem_append.mp hid with hid | hid
    · obtain ⟨s, hs, hresult, hchannel, hall⟩ := ih e channel id hid
      exact ⟨s, hgrows.queuedBy e s hs, hresult, hchannel, fun c hc => hgrows.arrived e (hall c hc)⟩
    · obtain ⟨s, hnewest, hresult, hchannel, msg, hmsg, his⟩ := hpushed id hid
      have hs := mem_of_newestCall hnewest
      obtain ⟨r, hr, hcollects⟩ := (hshort e).collects
      obtain ⟨s', hs', -, hwhole, his'⟩ := hcollects.exists_is hmsg
      obtain rfl := Endpoint.Collects.eq_of_is (hshort e).calls hs hs' his his'
      rw [hr] at hwhole
      exact ⟨s, hgrows.queuedBy e s hs, hresult, hchannel, fun c hc =>
        hgrows.arrived e (hwhole c hc)⟩

/-- **Acked messages are delivered**, in every short session: an id in an ack inbox was returned by
a call of `send_message`, and that call is in the inbox of the peer. -/
theorem ackInbox_delivered_few (h : Reachable PermitsFew l) {e : Side}
    {channel : UInt8} {id : MessageId}
    (hid : id ∈ (l.endpoint e).dispatcher.ackInbox channel) :
    ∃ s ∈ l.queuedBy e, s.result = .ok id ∧ s.channel = channel ∧
      ((l.endpoint e.other).dispatcher.messageInbox channel).countP (fun msg => s.Is msg) = 1 := by
  obtain ⟨s, hs, hresult, rfl, hall⟩ := h.reported e channel id hid
  have hshort := h.short.2 e
  obtain ⟨r, hr, hcollects⟩ := hshort.collects
  refine ⟨s, hs, hresult, rfl, (hcollects.countP_is hshort.calls hs).1 ?_⟩
  rw [hr]
  exact hall

end Link

end Pickleback
