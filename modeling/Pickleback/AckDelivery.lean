import Pickleback.FlowControl
import Pickleback.PacketIds
import Pickleback.ReceiveSafety
import Pickleback.Receipt

/-!
# Acked messages are delivered

When a packet is acked, its messages are. The packet has been accepted then, but the ack says
nothing of what the receiver has made of its messages: a window may have refused them, a fragment
may have been put together with the remains of another call, and the id may be that of a later call
by now. In a run in which nothing of the kind happens, every id that is pushed onto an ack inbox is
that of a message that the peer has in its inbox.

## Main definitions

* `Flight.contents` — what the messages of a packet say
* `Link.AckDue` — an ack of the packet would be the first, and its messages are there to be acked
* `Link.Renews`, `Link.Welcomes` — no id is given away too early, and no message is refused that was
  not had before
* `Link.Attested` — what the sender remembers of its messages is true of the receiver

## Main results

* `Link.Attested.sendMessage`, `Link.Attested.visitPacketsToSend`, `Link.Attested.deliver_source`,
  `Link.Attested.deliver_target` — one call
* `Link.ackInbox_delivered` — every run
* `Link.mem_ackInbox_of_acks`, `Link.not_ackInbox_delivered` — a whole message is acked with its
  packet, and may be refused
-/

namespace Pickleback

open Serial AckProtocol

/-- What the messages of a packet say. -/
def Flight.contents (f : Flight) : List MessageContent :=
  match readPacket f.bytes with
  | .ok (packet, payload) =>
    if packet.header.packetType = .messages then packetContents payload else []
  | .error _ => []

/-! ### First acks -/

/-- An ack of a packet that is not acked is a first one. -/
theorem AckState.mem_newAcks {a : AckState} {acks : List (UInt16 × Bool)}
    {id : UInt16} (hmem : (id, true) ∈ acks)
    (h : ∃ sentMeta, a.sentBuffer.get id = some sentMeta ∧ sentMeta.acked = false) :
    id ∈ a.newAcks acks := by
  induction acks generalizing a with
  | nil => cases hmem
  | cons ack rest ih =>
    obtain ⟨sentMeta, hget, hnew⟩ := h
    rw [newAcks, List.mem_append]
    by_cases hack : ack = (id, true)
    · left
      rw [hack, if_pos (by simp [setsAcked, hget, hnew])]
      exact List.mem_singleton_self id
    · refine Or.inr (ih ((List.mem_cons.mp hmem).resolve_left fun heq => hack heq.symm)
        ⟨sentMeta, ?_, hnew⟩)
      rw [processAck]
      split
      · exact hget
      · next hbit =>
        split
        · exact hget
        · next sentMeta' hget' =>
          split
          · exact hget
          · rw [SequenceBuffer.get_setEntry hget', if_neg, hget]
            rintro rfl
            exact hack (Prod.ext rfl (by simpa using hbit))

/-- A packet that is not acked is one of the last 512. -/
theorem Represents.exists_number {e : Endpoint} {p : Party} (h : Represents e.ackState p)
    {id : PacketId}
    (hid : e.Unacked id) : ∃ n, 1 ≤ n ∧ n ≤ p.sent ∧ p.sent < n + 512 ∧
      id = wrap n ∧ n ∉ p.acked := by
  obtain ⟨sentMeta, hget, hnew⟩ := hid
  have hexists := (SequenceBuffer.get_eq_some_iff.mp hget).1
  obtain ⟨n, ⟨hpos, hle⟩, rfl, -, -, hage⟩ :=
    h.sent.young _ _ (SequenceBuffer.existsSequence_iff.mp hexists)
  have hlast : p.sent < n + 512 := by
    by_contra hold
    have hnot := h.sent.not_exists_of_old (show p.sent < n + 64000 by omega) (by omega)
    exact absurd hexists
      (by rw [show e.sentBuffer = e.ackState.sentBuffer from rfl, hnot]; exact Bool.false_ne_true)
  obtain ⟨sentMeta', hget', -, hacked⟩ := h.sentMeta hpos hle hlast
  refine ⟨n, hpos, hle, hlast, rfl, fun hmem => ?_⟩
  rw [← hacked, ← Option.some.inj (hget.symm.trans hget'), hnew] at hmem
  cases hmem

/-! ### What the sender remembers -/

namespace Endpoint

variable {p p' : Endpoint} {es : List Emission}

/-- The window of handles stays near the last packet. -/
theorem EmitsAll.near (h : p.EmitsAll es p') (hlen : p.dispatcher.messagesInPackets.len = 512)
    (hnear : (p.dispatcher.messagesInPackets.sequence - p.sequenceId).toNat ≤ 512) :
    (p'.dispatcher.messagesInPackets.sequence - p'.sequenceId).toNat ≤ 512 := by
  induction h with
  | nil p => exact hnear
  | cons hemits _ ih =>
    exact ih ((SequenceBuffer.len_insert hemits.handles).trans hlen)
      (hemits.sequenceId ▸ SequenceBuffer.sequence_sub_insert_le hlen hemits.handles)

theorem EmitsAll.sentFragMap (h : p.EmitsAll es p') :
    p'.dispatcher.sentFragMap = p.dispatcher.sentFragMap := by
  induction h with
  | nil p => rfl
  | cons hemits _ ih => exact ih.trans (by rw [hemits.rest])

/-- A packet that comes in does not move the window of handles. -/
theorem sequence_messagesInPackets (hintact : p.Intact) {header : ProtocolPacketHeader}
    {payload : List UInt8}
    {r : Except PicklebackError Unit}
    (hcall : p.processIncomingPacket header payload = .ok (p', r)) :
    p'.dispatcher.messagesInPackets.sequence = p.dispatcher.messagesInPackets.sequence := by
  refine (processIncomingPacket_induct (I := fun q => q.Intact ∧
    q.dispatcher.messagesInPackets.sequence = p.dispatcher.messagesInPackets.sequence) ?_ ?_ ?_ ?_
      ⟨hintact, rfl⟩ hcall).2
  · intro q q' hq hsame
    exact ⟨hq.1.sameCore hsame, by rw [hsame]; exact hq.2⟩
  · intro q b id m hq hb
    exact ⟨hq.1.receivedBuffer hb, hq.2⟩
  · intro q q' packetType ack hq hack
    refine ⟨hq.1.processAck hack, ?_⟩
    obtain rfl | ⟨_, _, d, _, -, -, hd, hq'⟩ := processAck_cases hack
    · exact hq.2
    · rw [hq', (MessageDispatcher.sameIntake_ackedPacket hd).messagesInPackets]
      exact hq.2
  · intro q q' m hq hm
    exact ⟨hq.1.receiveMessage hm, by
      rw [(sameSending_receiveMessage hq.1 hm).messagesInPackets]; exact hq.2⟩

end Endpoint

namespace Link

variable {l l' : Link} {e : Side} {f : Flight}

/-- The packet is one of the last 512 of its sender, and is not acked. -/
def Open (l : Link) (f : Flight) : Prop :=
  l.sent f.source < f.number + 512 ∧ f.number ∉ l.acked f.source

/-- The packet has been accepted, and the first ack of it may still come. -/
def AckDue (l : Link) (f : Flight) : Prop := l.Open f ∧ f.number ∈ l.accepted f.source.other

instance (l : Link) (f : Flight) : Decidable (l.AckDue f) :=
  inferInstanceAs (Decidable ((_ ∧ _) ∧ _))

/-- What side `e` remembers of its messages is true of its peer. -/
structure Attested (l : Link) (e : Side) : Prop where
  whole : ∀ s ∈ l.queuedBy e, s.payload.length ≤ 1024 → s.result = .ok s.firstId
  near :
    ((l.endpoint e).dispatcher.messagesInPackets.sequence - (l.endpoint e).sequenceId).toNat ≤ 512
  unique : ∀ f ∈ l.net, ∀ f' ∈ l.net, f.source = e → f'.source = e → f'.number = f.number → f' = f
  handles : ∀ f ∈ l.net, f.source = e → l.Open f →
    (l.endpoint e).dispatcher.handlesOf (wrap f.number) = f.contents.map MessageContent.handle
  received : ∀ f ∈ l.net, f.source = e → l.AckDue f → ∀ c ∈ f.contents,
    (l.endpoint e.other).dispatcher.HasNewest (l.queuedBy e) c
  tracks : (l.endpoint e.other).dispatcher.Tracks (l.queuedBy e)
    (l.endpoint e).dispatcher.sentFragMap

theorem attested_start (overflowChecks : Side → Bool) (time : Side → Time)
    (salt : Side → UInt64) (e : Side) :
    (start overflowChecks time salt).Attested e where
  whole := by simp [start, queuedBy]
  near := by
    show ((0 : UInt16) - 0).toNat ≤ 512
    decide
  unique := by simp [start]
  handles := by simp [start]
  received := by simp [start]
  tracks := by
    intro id remaining hget
    cases hget

/-- A packet that was sent has a number, and it is not later than the last. -/
theorem number_of_mem_net (h : Reachable Permits l) (hf : f ∈ l.net) :
    1 ≤ f.number ∧ f.number ≤ l.sent f.source := by
  obtain ⟨s, hs⟩ := exists_simulates h
  have hshows := hs.net f hf
  rw [(hs.shown f.source).sent_eq]
  exact ⟨hshows.pos, hshows.le_sent⟩

/-- A packet that was accepted was sent. -/
theorem number_of_mem_accepted (h : Reachable Permits l) {n : ℕ} (hn : n ∈ l.accepted e.other) :
    ∃ f ∈ l.net, f.source = e ∧ f.number = n := by
  obtain ⟨s, hs⟩ := exists_simulates h
  obtain ⟨f, hf, hsource, hnumber⟩ := hs.origin e.other n hn
  rw [Side.other_other] at hsource
  exact ⟨f, hf, hsource, hnumber⟩

/-- No id is used up in vain: the last one is that of the last packet. -/
theorem sequenceId_eq (h : Reachable Permits l) (e : Side) :
    (l.endpoint e).sequenceId = wrap (l.sent e) ∧ (l.endpoint e).failedHeaders = 0 := by
  obtain ⟨s, hs⟩ := exists_simulates h
  have hrep := (hs.shown e).represents
  have hsequenceId : (l.endpoint e).sequenceId = wrap (l.sent e) := by
    rw [(hs.shown e).sent_eq]
    exact hrep.sequenceId
  have hfront : (l.endpoint e).sentBuffer.sequence = wrap (s e).sent := hrep.sent.front.eq_wrap
  refine ⟨hsequenceId, ?_⟩
  rw [Endpoint.failedHeaders, hsequenceId, (hs.shown e).sent_eq, hfront, UInt16.sub_self]
  rfl

/-- An open packet is in the window of sent packets, and not acked. -/
theorem unacked_of_open (h : Reachable Permits l) (hf : f ∈ l.net) (hopen : l.Open f) :
    (l.endpoint f.source).Unacked (wrap f.number) := by
  obtain ⟨hpos, hle⟩ := number_of_mem_net h hf
  obtain ⟨sentMeta, hget, hacked⟩ := exists_sentMeta h f.source hpos hle hopen.1
  refine ⟨sentMeta, hget, ?_⟩
  rw [← Bool.not_eq_true, hacked]
  exact hopen.2

/-- The call leaves side `e` alone, and what its peer has received. -/
theorem Attested.transfer (h : l.Attested e)
    (hdispatcher : (l'.endpoint e).dispatcher = (l.endpoint e).dispatcher)
    (hsequenceId : (l'.endpoint e).sequenceId = (l.endpoint e).sequenceId)
    (hinbox : (l'.endpoint e.other).dispatcher.messageInbox =
      (l.endpoint e.other).dispatcher.messageInbox)
    (hreassembler : (l'.endpoint e.other).dispatcher.messageReassembler
      = (l.endpoint e.other).dispatcher.messageReassembler)
    (hqueued : l'.queuedBy e = l.queuedBy e) (hnet : ∀ f ∈ l'.net, f.source = e → f ∈ l.net)
    (hsent : l'.sent e = l.sent e) (hacked : l'.acked e = l.acked e)
    (haccepted : l'.accepted e.other = l.accepted e.other) : l'.Attested e where
  whole := hqueued ▸ h.whole
  near := by
    rw [hdispatcher, hsequenceId]
    exact h.near
  unique := fun f hf f' hf' hsource hsource' =>
    h.unique f (hnet f hf hsource) f' (hnet f' hf' hsource') hsource hsource'
  handles := by
    rintro f hf rfl hopen
    rw [hdispatcher]
    refine h.handles f (hnet f hf rfl) rfl ?_
    rwa [Open, hsent, hacked] at hopen
  received := by
    rintro f hf rfl hdue c hc
    rw [hqueued]
    refine (h.received f (hnet f hf rfl) rfl ?_ c hc).of_intake hinbox hreassembler
    rwa [AckDue, Open, hsent, hacked, haccepted] at hdue
  tracks := by
    rw [hqueued, hdispatcher]
    intro id remaining hget s hs hlarge
    obtain ⟨hresult, hall⟩ := h.tracks id remaining hget s hs hlarge
    exact ⟨hresult, fun c hc hid => (hall c hc hid).of_intake hinbox hreassembler⟩

/-! ### Sending messages -/

/-- The id that a call on side `e` will get is not that of a message whose ack is still due. A
payload that will not be registered gets an id under which nothing is left to be acked. -/
def Renews (l : Link) (e : Side) (payload : List UInt8) : Prop :=
  (∀ f ∈ l.net, f.source = e → l.AckDue f → ∀ c ∈ f.contents,
    c.key ≠ (l.endpoint e).dispatcher.nextMessageId) ∧
    (1024 < payload.length → ¬ (l.endpoint e).dispatcher.Registers →
      ∀ status ∈ (l.endpoint e).dispatcher.sentFragMap.get (l.endpoint e).dispatcher.nextMessageId,
        status = .complete ∨ status = .unknown)

instance (l : Link) (e : Side) (payload : List UInt8) : Decidable (l.Renews e payload) :=
  have : Decidable (l.endpoint e).dispatcher.Registers := inferInstanceAs (Decidable (_ = false))
  inferInstanceAs (Decidable (_ ∧ _))

/-- `send_message`: nothing that is remembered goes by the new id. -/
theorem Attested.sendMessage (h : l.Attested e) (hintact : (l.endpoint e).Intact) {channel : UInt8}
    {payload : List UInt8} (hrenews : (l.endpoint e).TakesSend channel payload → l.Renews e payload)
    {p : Endpoint}
    {res : Except PicklebackError MessageId}
    (hcall : (l.endpoint e).sendMessage channel payload = .ok (p, res))
    (hendpoint : l'.endpoint = Function.update l.endpoint e p)
    (hsends : l'.sends = Function.update l.sends e (l.sends e ++
      [⟨channel, payload, (l.endpoint e).dispatcher.nextMessageId, res⟩]))
    (hnet : l'.net = l.net) (hsent : l'.sent = l.sent) (hacked : l'.acked = l.acked)
    (haccepted : l'.accepted = l.accepted) : l'.Attested e := by
  set s : SendCall := ⟨channel, payload, (l.endpoint e).dispatcher.nextMessageId, res⟩ with hs
  have hqueued : l'.queuedBy e = l.queuedBy e ++ [s].filter SendCall.enqueues := by
    rw [queuedBy, hsends, Function.update_self, List.filter_append, queuedBy]
  have hown : l'.endpoint e = p := by rw [hendpoint, Function.update_self]
  have hpeer : l'.endpoint e.other = l.endpoint e.other := by
    rw [hendpoint, Function.update_of_ne e.other_ne]
  obtain ⟨-, hfails, hp⟩ | ⟨htakes, henqueues, hlen, ch, ms, hch, hblock, hrecords, hp⟩ :=
    Endpoint.sendMessage_takes_cases hintact hcall (l.endpoint e).dispatcher.nextMessageId
  · refine h.transfer ?_ ?_ (by rw [hpeer]) (by rw [hpeer]) ?_
      (fun f hf _ => hnet ▸ hf) (by rw [hsent])
      (by rw [hacked])
      (by rw [haccepted])
    · rw [hown, hp]
    · rw [hown, hp]
    · rw [hqueued, List.filter_cons_of_neg (by simp [hs, hfails]), List.filter_nil, List.append_nil]
  · obtain ⟨hkeys, hstatus⟩ := hrenews htakes
    rw [List.filter_cons_of_pos henqueues, List.filter_nil] at hqueued
    have hhandles : p.dispatcher.messagesInPackets = (l.endpoint e).dispatcher.messagesInPackets :=
      hrecords.messagesInPackets
    -- the other calls are the newest with their ids as before
    have hold : ∀ {id : MessageId} {m : SentFragMap}, id ≠ s.firstId →
        (∀ remaining, m.get id = some (.partially remaining) →
          (l.endpoint e).dispatcher.sentFragMap.get id = some (.partially remaining)) →
        ∀ remaining, m.get id = some (.partially remaining) →
          ∀ s' ∈ newestCall (l.queuedBy e ++ [s]) id,
          1024 < s'.payload.length → s'.result = .ok id ∧ ∀ c ∈ s'.contents, c.id ∉ remaining →
            (l.endpoint e.other).dispatcher.HasNewest (l.queuedBy e ++ [s]) c := by
      intro id m hne hget remaining hm s' hs' hlarge
      rw [newestCall_concat, if_neg hne.symm] at hs'
      obtain ⟨hresult, hall⟩ := h.tracks id remaining (hget remaining hm) s' hs' hlarge
      refine ⟨hresult, fun c hc hid => (hall c hc hid).concat ?_⟩
      rw [SendCall.key_of_mem hc, firstId_of_newestCall hs']
      exact hne
    have hself : newestCall (l.queuedBy e ++ [s]) s.firstId = some s := by
      rw [newestCall_concat, if_pos rfl]
    refine ⟨?_, ?_, ?_, ?_, ?_, ?_⟩
    · intro s' hs' hsmall
      rw [hqueued] at hs'
      rcases List.mem_append.mp hs' with hs' | hs'
      · exact h.whole s' hs' hsmall
      · obtain rfl := List.mem_singleton.mp hs'
        generalize p.dispatcher = d at hrecords
        cases hrecords with
        | whole _ => rfl
        | fragmented hlarge _ => exact absurd hsmall hlarge
        | tooOld hlarge _ => exact absurd hsmall hlarge
    · rw [hown, hp]
      dsimp only
      rw [hhandles]
      exact h.near
    · rw [hnet]
      exact h.unique
    · rintro f hf rfl hopen
      rw [hown, MessageDispatcher.handlesOf, hhandles]
      rw [Open, hsent, hacked] at hopen
      exact h.handles f (hnet ▸ hf) rfl hopen
    · rintro f hf rfl hdue c hc
      rw [hnet] at hf
      rw [AckDue, Open, hsent, hacked, haccepted] at hdue
      rw [hpeer, hqueued]
      exact (h.received f hf rfl hdue c hc).concat (hkeys f hf rfl hdue c hc)
    · rw [hpeer, hown, hqueued]
      intro id remaining hget s' hs' hlarge
      by_cases hid : id = s.firstId
      · subst hid
        obtain rfl : s' = s := Option.some.inj (hs'.symm.trans hself)
        have hsize : ¬ payload.length ≤ 1024 := Nat.not_le.mpr hlarge
        generalize p.dispatcher = d at hrecords hget
        cases hrecords with
        | whole hsmall => exact absurd hsmall hsize
        | fragmented _ hm =>
          rw [hs, SequenceBuffer.get_insert_self hm, Option.some.injEq,
            FragAckStatus.partially.injEq] at hget
          refine ⟨rfl, fun c hc hnot => absurd ?_ hnot⟩
          rw [← hget]
          exact SendCall.id_mem_of_sendBlock hblock hc
        | tooOld _ he =>
          have hregisters : ¬ (l.endpoint e).dispatcher.Registers := by
            intro hreg
            obtain ⟨m, hm⟩ :=
              ((l.endpoint e).dispatcher.exists_insert_iff (ms.map Message.id)).mpr hreg
            cases he.symm.trans hm
          rcases hstatus hlarge hregisters _ hget with hcomplete | hunknown
          · cases hcomplete
          · cases hunknown
      · generalize p.dispatcher = d at hrecords hget
        cases hrecords with
        | whole _ => exact hold hid (fun _ hget => hget) remaining hget s' hs' hlarge
        | fragmented _ hm =>
          refine hold hid (fun remaining hget => ?_) remaining hget s' hs' hlarge
          obtain ⟨rfl, -⟩ | hget := SequenceBuffer.get_of_get_insert hm hget
          · exact absurd rfl hid
          · exact hget
        | tooOld _ _ => exact hold hid (fun _ hget => hget) remaining hget s' hs' hlarge

/-! ### Sending packets -/

/-- What is remembered of a packet is what its messages say. -/
theorem map_handle_packetContents {sends : List SendCall} {ms : List Message}
    (h : ∀ m ∈ ms, m.SentBy sends) :
    (packetContents (ms.flatMap fun m => m.buffer.data)).map MessageContent.handle =
      ms.map Message.handle := by
  have hall := forall₂_packetContents h
  generalize packetContents (ms.flatMap fun m => m.buffer.data) = cs at hall
  induction hall with
  | nil => rfl
  | @cons m c ms cs hm _ ih =>
    obtain ⟨⟨hid, hchannel, hfragment, -⟩, -⟩ := hm
    rw [List.map_cons, List.map_cons, ih fun x hx => h x (List.mem_cons_of_mem _ hx),
      MessageContent.handle,
      Message.handle, hid, hchannel, hfragment]

/-- `visit_packets_to_send`: what the packets say is remembered, and of the open packets nothing is
forgotten. -/
theorem Attested.visitPacketsToSend (hl : Reachable Permits l)
    (hrec : l.Recorded e) (h : l.Attested e) {p : Endpoint}
    {packets : List (List UInt8)} (hcall : (l.endpoint e).visitPacketsToSend = .ok (p, packets)) :
    ((l.setEndpoint e p).launch e packets).Attested e := by
  obtain ⟨hsequenceId, hfailed⟩ := sequenceId_eq hl e
  obtain ⟨es, p₁, p₂, r, hall, -, hstop, hp, hpackets⟩ :=
    Endpoint.visitPacketsToSend_cases hrec.intact hcall
  have hlen := hrec.intact.handlesLen
  have hfew := hall.length_le (by omega)
  have hbytes : packets = es.map Emission.bytes := by
    rw [hpackets, hstop.outbox, hall.outbox, hrec.outbox]
    rfl
  have hlength : packets.length = es.length := by rw [hbytes, List.length_map]
  -- there is room for acks in every packet, so no id is used up in vain
  have hlast : p₂.sequenceId = p₁.sequenceId := by
    cases hstop with
    | done _ => rfl
    | unacked _ => rfl
    | acks pool hmany =>
      rw [hall.receivedUnackedPackets] at hmany
      exact absurd hmany (UInt16.not_lt.mpr (counters_le hl e).2)
  have hdispatcher : p.dispatcher = p₁.dispatcher := by
    rw [hp]
    exact hstop.dispatcher
  have hmessages := (hrec.queued.emitsAll hall).2
  have hnumber : ∀ f ∈ l.net, 1 ≤ f.number ∧ f.number ≤ l.sent f.source := fun f hf =>
    number_of_mem_net hl hf
  have hother : ∀ {f : Flight}, f ∈ ((l.setEndpoint e p).launch e packets).net →
    f.source = e → f ∈ l.net ∨
      ∃ (k : ℕ) (em : Emission), es[k]? = some em ∧
        f = ⟨e, l.sent e + 1 + k, l.sent e.other, em.bytes⟩ := by
    intro f hf _
    refine (List.mem_append.mp hf).imp_right fun hf => ?_
    obtain ⟨k, bytes, hk, rfl⟩ := exists_getElem?_of_mem_flights hf
    rw [hbytes, List.getElem?_map] at hk
    obtain ⟨em, hem, rfl⟩ := Option.map_eq_some_iff.mp hk
    exact ⟨k, em, hem, rfl⟩
  have hpeer : ((l.setEndpoint e p).launch e packets).endpoint e.other = l.endpoint e.other := by
    simp [launch, setEndpoint]
  have hown : ((l.setEndpoint e p).launch e packets).endpoint e = p := by simp [launch, setEndpoint]
  have hsent : ((l.setEndpoint e p).launch e packets).sent e = l.sent e + es.length := by
    simp [launch, setEndpoint, hlength]
  have hopen : ∀ {f : Flight}, f.source = e → ((l.setEndpoint e p).launch e packets).Open f →
      l.Open f ∧ l.sent e + es.length < f.number + 512 := by
    rintro f rfl ⟨hrecent, hnew⟩
    rw [hsent] at hrecent
    exact ⟨⟨by omega, hnew⟩, hrecent⟩
  refine ⟨h.whole, ?_, ?_, ?_, ?_, ?_⟩
  · rw [hown, hdispatcher, hp]
    dsimp only
    rw [hlast]
    exact hall.near hlen h.near
  · intro f hf f' hf' hsource hsource' heq
    obtain hf | ⟨k, em, hem, rfl⟩ := hother hf hsource
    · obtain hf' | ⟨k', em', -, rfl⟩ := hother hf' hsource'
      · exact h.unique f hf f' hf' hsource hsource' heq
      · have := (hnumber f hf).2
        rw [hsource] at this
        dsimp only at heq
        omega
    · obtain hf' | ⟨k', em', hem', rfl⟩ := hother hf' hsource'
      · have := (hnumber f' hf').2
        rw [hsource'] at this
        dsimp only at heq
        omega
      · dsimp only at heq
        obtain rfl : k' = k := by omega
        rw [Option.some.inj (hem.symm.trans hem')]
  · intro f hf hsource hopen'
    obtain ⟨hold, hrecent⟩ := hopen hsource hopen'
    rw [hown, hdispatcher]
    obtain hmem | ⟨k, em, hem, rfl⟩ := hother hf hsource
    · subst hsource
      have hle := (hnumber f hmem).2
      rw [MessageDispatcher.handlesOf, hall.get_handles_of_old hlen h.near]
      · exact h.handles f hmem rfl hold
      · have hdist := toNat_wrap (l.sent f.source - f.number)
        rw [hsequenceId, wrap_sub]
        omega
    · have hmem := List.mem_of_getElem? hem
      have hid : em.header.id = wrap (l.sent e + 1 + k : ℕ) := by
        have hids := congrArg (fun ids => ids[k]?) hall.header_id
        have hk := (List.getElem?_eq_some_iff.mp hem).1
        simp only [List.getElem?_map, hem, List.getElem?_range hk,
          Option.map_some, Option.some.injEq] at hids
        rw [hids, hsequenceId]
        push_cast
        rw [← wrap_add, ← wrap_add, wrap_natCast k]
        rfl
      obtain ⟨⟨header, htype, hread⟩, hcopies⟩ := hmessages em hmem
      have hsentBy : ∀ m ∈ em.messages, m.SentBy (l.queuedBy e) := by
        intro m hm
        obtain ⟨m₀, hm₀, hcopy⟩ := hcopies m hm
        exact hm₀.of_copies hcopy
      rw [MessageDispatcher.handlesOf, ← hid, hall.get_handles hlen (by omega) hmem,
        Flight.contents]
      simp only [hread]
      rw [if_pos (by exact htype), map_handle_packetContents hsentBy]
      rfl
  · intro f hf hsource hdue c hc
    rw [hpeer]
    obtain ⟨hold, -⟩ := hopen hsource hdue.1
    obtain hf | ⟨k, em, hem, rfl⟩ := hother hf hsource
    · exact h.received f hf hsource ⟨hold, hdue.2⟩ c hc
    · -- what has just been sent is not accepted yet
      obtain ⟨f', hf', hsource', hnumber'⟩ := number_of_mem_accepted hl hdue.2
      have := (hnumber f' hf').2
      rw [hsource', hnumber'] at this
      dsimp only at this
      omega
  · rw [hpeer, hown, hdispatcher, hall.sentFragMap]
    exact h.tracks

/-! ### Receiving packets -/

/-- The packet is refused, or its messages arrive, and each of them is taken or was had before. -/
def Welcomes (l : Link) (f : Flight) : Prop :=
  ∀ packet payload, readPacket f.bytes = .ok (packet, payload) →
    (l.endpoint f.source.other).accepts packet.header = true →
      (l.endpoint f.source.other).dispatcher.Arrives (l.queuedBy f.source) f.contents ∧
        TakesAll ((l.endpoint f.source.other).dispatcher.HasNewest (l.queuedBy f.source))
          (l.endpoint f.source.other).channels.window f.contents

instance (l : Link) (f : Flight) : Decidable (l.Welcomes f) :=
  decidable_of_iff (∀ r ∈ (readPacket f.bytes).toOption,
    (l.endpoint f.source.other).accepts r.1.header = true →
      (l.endpoint f.source.other).dispatcher.Arrives (l.queuedBy f.source) f.contents ∧
        TakesAll ((l.endpoint f.source.other).dispatcher.HasNewest (l.queuedBy f.source))
          (l.endpoint f.source.other).channels.window f.contents) <| by
    rw [Welcomes]
    cases readPacket f.bytes with
    | error err => simp [Except.toOption]
    | ok r =>
      simp only [Except.toOption, Option.mem_some_iff, forall_eq', Except.ok.injEq]
      exact ⟨fun h packet payload heq => by rwa [heq] at h, fun h => h r.1 r.2 rfl⟩

/-- What a delivery does: one side processes the packet, and what it accepts and acks is put on
record. -/
structure Delivers (l : Link) (f : Flight) (packet : ProtocolPacket)
    (payload : List UInt8) (p : Endpoint)
    (r : Except PicklebackError Unit) (l' : Link) : Prop where
  read : readPacket f.bytes = .ok (packet, payload)
  call : (l.endpoint f.source.other).processIncomingPacket packet.header payload = .ok (p, r)
  endpoint : l'.endpoint = Function.update l.endpoint f.source.other p
  net : l'.net = l.net
  sent : l'.sent = l.sent
  sends : l'.sends = l.sends
  acked_source : l'.acked f.source = l.acked f.source
  accepted_source : l'.accepted f.source = l.accepted f.source
  acked : l'.acked f.source.other = l.acked f.source.other ++
    if (l.endpoint f.source.other).accepts packet.header then
      ((l.endpoint f.source.other).ackState.newAcks (packet.header.acks.getD [])).map
        (latest (l.sent f.source.other))
    else []
  accepted : l'.accepted f.source.other = l.accepted f.source.other ++
    if (l.endpoint f.source.other).accepts packet.header then [f.number] else []

theorem exists_delivers_of_call {packet : ProtocolPacket} {payload : List UInt8}
    (hread : readPacket f.bytes = .ok (packet, payload)) {p : Endpoint}
    {r : Except PicklebackError Unit}
    (hcall : (l.endpoint f.source.other).processIncomingPacket packet.header payload = .ok (p, r)) :
    ∃ l', l.step (.deliver f) = .ok l' ∧ l.Delivers f packet payload p r l' := by
  simp only [step, hread, hcall]
  refine ⟨_, rfl, hread, hcall, ?_, ?_, ?_, ?_, ?_, ?_, ?_, ?_⟩
  all_goals split <;> simp [setEndpoint, recordAccept,
    Function.update_of_ne (Ne.symm f.source.other_ne)]

theorem exists_delivers (hstep : l.step (.deliver f) = .ok l') :
    l' = l ∨ ∃ packet payload p r, l.Delivers f packet payload p r l' := by
  cases hread : readPacket f.bytes with
  | error err =>
    simp only [step, hread] at hstep
    cases hstep
    exact Or.inl rfl
  | ok read =>
    obtain ⟨packet, payload⟩ := read
    cases hcall : (l.endpoint f.source.other).processIncomingPacket packet.header payload with
    | error q =>
      simp only [step, hread, hcall] at hstep
      cases hstep
    | ok r =>
      obtain ⟨p, r⟩ := r
      obtain ⟨l₁, hstep₁, hdelivers⟩ := exists_delivers_of_call hread hcall
      cases hstep.symm.trans hstep₁
      exact Or.inr ⟨packet, payload, p, r, hdelivers⟩

/-- The side that has sent the packet is left alone. -/
theorem endpoint_source_of_deliver (hstep : l.step (.deliver f) = .ok l') :
    l'.endpoint f.source = l.endpoint f.source ∧ l'.sent = l.sent := by
  obtain rfl | ⟨_, _, _, _, hdelivers⟩ := exists_delivers hstep
  · exact ⟨rfl, rfl⟩
  · refine ⟨?_, hdelivers.sent⟩
    rw [hdelivers.endpoint, Function.update_of_ne (Ne.symm f.source.other_ne)]

variable {packet : ProtocolPacket} {payload : List UInt8} {p : Endpoint}
  {r : Except PicklebackError Unit}

theorem Delivers.queuedBy (h : l.Delivers f packet payload p r l') (e : Side) :
    l'.queuedBy e = l.queuedBy e := by
  rw [Link.queuedBy, h.sends, Link.queuedBy]

/-- **The side that has sent the packet**: its messages have been received when it is accepted. -/
theorem Attested.deliver_source (h : l.Attested f.source) (hrec : l.Recorded f.source)
    (hintact : (l.endpoint f.source.other).Intact)
    (hplaced : (l.endpoint f.source.other).dispatcher.messageReassembler.Placed) (hf : f ∈ l.net)
    (hwelcome : l.Welcomes f) (hdelivers : l.Delivers f packet payload p r l') :
    l'.Attested f.source := by
  have hown : l'.endpoint f.source = l.endpoint f.source := by
    rw [hdelivers.endpoint, Function.update_of_ne (Ne.symm f.source.other_ne)]
  have hpeer : l'.endpoint f.source.other = p := by rw [hdelivers.endpoint, Function.update_self]
  have hnet : ∀ f' ∈ l'.net, f'.source = f.source → f' ∈ l.net := fun f' hf' _ =>
    hdelivers.net ▸ hf'
  have haccepted := hdelivers.accepted
  by_cases haccepts : (l.endpoint f.source.other).accepts packet.header = true
  · rw [if_pos haccepts] at haccepted
    obtain ⟨harrives, htakes⟩ := hwelcome packet payload hdelivers.read haccepts
    have hcontents : ∀ c ∈ f.contents, packet.header.packetType = .messages := by
      intro c hc
      rw [Flight.contents, hdelivers.read] at hc
      dsimp only at hc
      split at hc
      · next htype => exact htype
      · cases hc
    obtain ⟨hreceived, hkeeps⟩ :=
      Endpoint.hasNewest_processIncomingPacket hintact hrec.regular hplaced haccepts
      harrives htakes (fun htype => by
        obtain ⟨ms, hms, hpayload⟩ := hrec.net f hf rfl packet payload hdelivers.read htype
        have hsame : f.contents = packetContents payload := by
          rw [Flight.contents, hdelivers.read]
          exact if_pos htype
        refine ⟨ms, ?_, hpayload⟩
        rw [hsame, hpayload]
        exact (forall₂_packetContents hms).imp fun _ _ hm => ⟨hm.1, hm.2.1, hm.2.2.1⟩)
          hdelivers.call
    refine ⟨by rw [hdelivers.queuedBy]; exact h.whole, by rw [hown]; exact h.near,
      by rw [hdelivers.net]; exact h.unique,
      ?_, ?_, ?_⟩
    · intro f' hf' hsource hopen
      rw [hown]
      rw [Open, hdelivers.sent, hsource, hdelivers.acked_source, ← hsource] at hopen
      exact h.handles f' (hnet f' hf' hsource) hsource hopen
    · intro f' hf' hsource hdue c hc
      rw [AckDue, Open, hdelivers.sent, hsource, hdelivers.acked_source, haccepted, ← hsource]
        at hdue
      rw [hpeer, hdelivers.queuedBy]
      obtain ⟨hopen, hmem⟩ := hdue
      rcases List.mem_append.mp hmem with hmem | hmem
      · refine hkeeps c (h.received f' (hnet f' hf' hsource) hsource ⟨hopen, ?_⟩ c hc)
        rw [hsource] at hmem ⊢
        exact hmem
      · obtain rfl := h.unique f hf f' (hnet f' hf' hsource) rfl hsource
          (List.mem_singleton.mp hmem)
        exact hreceived (hcontents c hc) c hc
    · rw [hpeer, hown, hdelivers.queuedBy]
      intro id remaining hget s hs hlarge
      obtain ⟨hresult, hall⟩ := h.tracks id remaining hget s hs hlarge
      exact ⟨hresult, fun c hc hid => hkeeps c (hall c hc hid)⟩
  · have hsame := Endpoint.sameCore_of_refused (by simpa [Endpoint.accepts] using haccepts)
      hdelivers.call
    rw [if_neg haccepts, List.append_nil] at haccepted
    refine h.transfer (by rw [hown]) (by rw [hown]) ?_ ?_ (hdelivers.queuedBy _) hnet
      (by rw [hdelivers.sent])
      hdelivers.acked_source haccepted
    · rw [hpeer, hsame]
    · rw [hpeer, hsame]

/-- **First acks** are of packets whose messages the peer has received. -/
theorem Attested.acksReceived (h : l.Attested e) (hl : Reachable Permits l)
    (hl' : Reachable Permits l')
    (hsource : f.source = e.other) (hdelivers : l.Delivers f packet payload p r l')
    (haccepts : (l.endpoint e).accepts packet.header = true) :
    (l.endpoint e).AcksReceived (l.endpoint e.other).dispatcher
    (l.queuedBy e) (packet.header.acks.getD []) := by
  obtain ⟨s, hs⟩ := exists_simulates hl
  have hshown := hs.shown e
  have hacked := hdelivers.acked
  have haccepted := hdelivers.accepted_source
  rw [hsource] at haccepted
  rw [hsource, Side.other_other, if_pos haccepts] at hacked
  intro id hid hunacked handle hhandle
  obtain ⟨n, hpos, hle, hrecent, rfl, hnew⟩ := hshown.represents.exists_number hunacked
  rw [← hshown.sent_eq] at hle hrecent
  rw [← hshown.acked_eq] at hnew
  -- the packet is acked now, and so it was accepted
  have hmem : n ∈ l'.acked e := by
    rw [hacked]
    refine List.mem_append_right _
      (List.mem_map.mpr ⟨wrap n, AckState.mem_newAcks hid hunacked, ?_⟩)
    exact latest_wrap hle (by omega)
  have hreceived := (accepted_of_acked hl' hmem).2.2
  rw [haccepted] at hreceived
  obtain ⟨f', hf', hsource', rfl⟩ := number_of_mem_accepted hl hreceived
  have hopen : l.Open f' := by
    rw [Open, hsource']
    exact ⟨hrecent, hnew⟩
  rw [h.handles f' hf' hsource' hopen] at hhandle
  obtain ⟨c, hc, rfl⟩ := List.mem_map.mp hhandle
  exact ⟨c, h.received f' hf' hsource' ⟨hopen, by rw [hsource']; exact hreceived⟩ c hc, rfl⟩

/-- **The side that receives the packet**: the ids that its acks push are those of messages that its
peer has. -/
theorem Attested.deliver_target (h : l.Attested e) (hl : Reachable Permits l)
    (hl' : Reachable Permits l')
    (hrec : l.Recorded e) (hplaced : (l.endpoint e.other).dispatcher.messageReassembler.Placed)
    (hsource : f.source = e.other) (hdelivers : l.Delivers f packet payload p r l') :
    l'.Attested e ∧
      MessageDispatcher.PushesDelivered (l.endpoint e.other).dispatcher
      (l.queuedBy e) (l.endpoint e).dispatcher
        p.dispatcher := by
  have hcall := hdelivers.call
  have hendpoint := hdelivers.endpoint
  have haccepted := hdelivers.accepted_source
  have hacked : ∀ n, n ∉ l'.acked e → n ∉ l.acked e := by
    have hacked := hdelivers.acked
    rw [hsource, Side.other_other] at hacked
    intro n hn hmem
    rw [hacked] at hn
    exact hn (List.mem_append_left _ hmem)
  have hacks := h.acksReceived hl hl' hsource hdelivers
  rw [hsource] at haccepted
  rw [hsource, Side.other_other] at hcall hendpoint
  have hown : l'.endpoint e = p := by rw [hendpoint, Function.update_self]
  have hpeer : l'.endpoint e.other = l.endpoint e.other := by
    rw [hendpoint, Function.update_of_ne e.other_ne]
  obtain ⟨htracks, hpushes⟩ := Endpoint.delivered_processIncomingPacket
    ⟨hplaced, hrec.regular, h.whole⟩ h.tracks
    hacks hcall
  have hopen : ∀ {f' : Flight}, f'.source = e → l'.Open f' → l.Open f' := by
    rintro f' rfl ⟨hrecent, hnew⟩
    rw [hdelivers.sent] at hrecent
    exact ⟨hrecent, hacked _ hnew⟩
  refine ⟨⟨by rw [hdelivers.queuedBy]; exact h.whole, ?_, by
    rw [hdelivers.net]; exact h.unique, ?_, ?_, ?_⟩, hpushes⟩
  · rw [hown, Endpoint.sequence_messagesInPackets hrec.intact hcall,
      (Endpoint.sameSetup_processIncomingPacket hcall).sequenceId]
    exact h.near
  · rintro f' hf' rfl hopen'
    have hunacked := unacked_of_open hl' hf' hopen'
    rw [hown] at hunacked ⊢
    obtain ⟨sentMeta, hget, hnew⟩ := hunacked
    have haccounts : Endpoint.Accounts (l.endpoint f'.source).dispatcher.handlesOf
      (l.endpoint f'.source) :=
      ⟨hrec.intact, fun _ _ => rfl⟩
    rw [(haccounts.processIncomingPacket hcall).handles hget hnew]
    exact h.handles f' (hdelivers.net ▸ hf') rfl (hopen rfl hopen')
  · rintro f' hf' rfl hdue c hc
    rw [hpeer, hdelivers.queuedBy]
    refine h.received f' (hdelivers.net ▸ hf') rfl ⟨hopen rfl hdue.1, ?_⟩ c hc
    rw [← haccepted]
    exact hdue.2
  · rw [hpeer, hown, hdelivers.queuedBy]
    exact htracks

/-! ### Runs -/

/-- The calls of an application over a network as before, with payloads that are read back as they
were sent, in which every message that is accepted is taken or was had before, and no id is given
away too early. -/
def PermitsTaken (l : Link) : Call → Prop
  | .sendMessage e channel payload =>
    (l.endpoint e).TakesSend channel payload → Readable payload ∧ l.Renews e payload
  | .deliver f => l.Permits (.deliver f) ∧ l.Welcomes f
  | c => l.Permits c

instance (l : Link) (c : Call) : Decidable (l.PermitsTaken c) :=
  match c with
  | .sendMessage e channel payload =>
    inferInstanceAs (Decidable ((l.endpoint e).TakesSend channel payload →
      Readable payload ∧ l.Renews e payload))
  | .update e dt => inferInstanceAs (Decidable (l.Permits (.update e dt)))
  | .visitPacketsToSend e => inferInstanceAs (Decidable (l.Permits (.visitPacketsToSend e)))
  | .deliver f => inferInstanceAs (Decidable (l.Permits (.deliver f) ∧ l.Welcomes f))
  | .sendKeepAlive e clientIndex =>
    inferInstanceAs (Decidable (l.Permits (.sendKeepAlive e clientIndex)))

theorem PermitsTaken.readable {c : Call} (h : l.PermitsTaken c) : l.PermitsReadable c := by
  cases c with
  | sendMessage e channel payload => exact fun htakes => (h htakes).1
  | update e dt => exact h
  | visitPacketsToSend e => exact h
  | deliver f => exact h.1
  | sendKeepAlive e clientIndex => exact h

theorem PermitsTaken.permits {c : Call} (h : l.PermitsTaken c) : l.Permits c := by
  cases c with
  | sendMessage e channel payload => trivial
  | update e dt => exact h
  | visitPacketsToSend e => exact h
  | deliver f => exact h.1
  | sendKeepAlive e clientIndex => exact h

/-- Messages that arrive are not mixed with those of another call. -/
theorem Welcomes.unmixed (h : l.Welcomes f) : l.Unmixed f := by
  intro packet payload hread haccepts htype
  have harrives := (h packet payload hread haccepts).1
  rw [Flight.contents, hread] at harrives
  dsimp only at harrives
  rw [if_pos htype] at harrives
  exact harrives.unmixed

/-- A call on side `e` that sends something, if anything: what it is to its peer stays true. -/
theorem Attested.of_sending (h : l.Attested e.other)
    (hendpoint : l'.endpoint e.other = l.endpoint e.other)
    (hintake : (l'.endpoint e).dispatcher.messageInbox = (l.endpoint e).dispatcher.messageInbox ∧
      (l'.endpoint e).dispatcher.messageReassembler = (l.endpoint e).dispatcher.messageReassembler)
    (hqueued : l'.queuedBy e.other = l.queuedBy e.other)
    (hnet : ∀ f ∈ l'.net, f.source = e.other → f ∈ l.net)
    (hsent : l'.sent e.other = l.sent e.other) (hacked : l'.acked = l.acked)
    (haccepted : l'.accepted = l.accepted) :
    l'.Attested e.other := by
  refine h.transfer (by rw [hendpoint]) (by rw [hendpoint]) ?_ ?_ hqueued hnet hsent
    (by rw [hacked])
    (by rw [haccepted])
  · rw [Side.other_other]
    exact hintake.1
  · rw [Side.other_other]
    exact hintake.2

/-- **One call**: what the sides remember stays true, and the ids that are pushed are those of
messages that are there. -/
theorem attested_step (hl : Reachable Permits l) (hl' : Reachable Permits l')
    (hfaithful : l.Faithful)
    (h : ∀ e, l.Attested e) {c : Call} (hc : l.PermitsTaken c)
    (hstep : l.step c = .ok l') (e : Side) :
    l'.Attested e ∧ MessageDispatcher.PushesDelivered (l.endpoint e.other).dispatcher (l.queuedBy e)
      (l.endpoint e).dispatcher (l'.endpoint e).dispatcher := by
  cases c with
  | sendMessage e₀ channel payload =>
    obtain ⟨hrec, -⟩ := hfaithful e₀
    simp only [step] at hstep
    split at hstep
    · cases hstep
    · next p res hcall =>
      cases hstep
      have hintake := hrec.intact.sameIntake_sendMessage hcall
      rcases e₀.eq_or_eq_other e with rfl | rfl
      · refine ⟨(h e).sendMessage hrec.intact (fun htakes => (hc htakes).2)
          hcall rfl rfl rfl rfl rfl rfl, .of_ackInbox ?_⟩
        simp only [setEndpoint, Function.update_self]
        exact hintake.ackInbox
      · refine ⟨(h e₀.other).of_sending ?_ ?_ ?_ (fun f hf _ => hf) rfl rfl rfl, .of_ackInbox ?_⟩
        · simp [setEndpoint]
        · simp only [setEndpoint, Function.update_self]
          exact ⟨hintake.messageInbox, hintake.messageReassembler⟩
        · simp [queuedBy]
        · simp [setEndpoint]
  | update e₀ dt =>
    cases hstep
    have hdispatcher : ((l.endpoint e₀).update dt).dispatcher = (l.endpoint e₀).dispatcher := rfl
    rcases e₀.eq_or_eq_other e with rfl | rfl
    · refine ⟨(h e).transfer ?_ ?_ ?_ ?_ rfl (fun f hf _ => hf) rfl rfl rfl, .of_ackInbox ?_⟩
      all_goals simp [setEndpoint, hdispatcher]
      rfl
    · refine ⟨(h e₀.other).of_sending ?_ ?_ rfl (fun f hf _ => hf) rfl rfl rfl, .of_ackInbox ?_⟩
      all_goals simp [setEndpoint, hdispatcher]
  | visitPacketsToSend e₀ =>
    obtain ⟨hrec, -⟩ := hfaithful e₀
    simp only [step] at hstep
    split at hstep
    · cases hstep
    · next p packets hcall =>
      cases hstep
      have hintake := hrec.intact.sameIntake_visitPacketsToSend hcall
      rcases e₀.eq_or_eq_other e with rfl | rfl
      · refine ⟨(h e).visitPacketsToSend hl hrec hcall, .of_ackInbox ?_⟩
        simp only [launch, setEndpoint, Function.update_self]
        exact hintake.ackInbox
      · refine ⟨(h e₀.other).of_sending ?_ ?_ rfl (fun f hf hsource => ?_) ?_ rfl rfl,
          .of_ackInbox ?_⟩
        · simp [launch, setEndpoint]
        · simp only [launch, setEndpoint, Function.update_self]
          exact ⟨hintake.messageInbox, hintake.messageReassembler⟩
        · rcases List.mem_append.mp hf with hf | hf
          · exact hf
          · exact absurd ((mem_flights hf).1.symm.trans hsource) (Ne.symm e₀.other_ne)
        · simp [launch, setEndpoint]
        · simp [launch, setEndpoint]
  | deliver f =>
    obtain rfl | ⟨packet, payload, p, r, hdelivers⟩ := exists_delivers hstep
    · exact ⟨h e, .of_ackInbox rfl⟩
    · rcases f.source.eq_or_eq_other e with rfl | rfl
      · refine ⟨(h _).deliver_source (hfaithful _).1 (hfaithful _).1.intact
          (hfaithful _).2.placed hc.1.1 hc.2
          hdelivers, .of_ackInbox ?_⟩
        rw [hdelivers.endpoint, Function.update_of_ne (Ne.symm f.source.other_ne)]
      · have htarget := (h f.source.other).deliver_target hl hl'
          (hfaithful _).1 (hfaithful _).2.placed
          (Side.other_other f.source).symm hdelivers
        rw [hdelivers.endpoint, Function.update_self]
        exact htarget
  | sendKeepAlive e₀ clientIndex => exact hc.elim

/-- What the sides remember of their messages is true in every run. -/
theorem Reachable.attested (h : Reachable PermitsTaken l) : l.Faithful ∧ ∀ e, l.Attested e := by
  refine h.invariant (I := fun l => l.Faithful ∧ ∀ e, l.Attested e) (fun overflowChecks time salt =>
    ⟨faithful_start overflowChecks time salt, attested_start overflowChecks time salt⟩) ?_
  intro l l' c hl hattested hc hstep
  have hpermits : ∀ l c, PermitsTaken l c → Permits l c := fun _ _ hc => hc.permits
  refine ⟨hattested.1.step hc.readable (fun f hf => ?_) hstep, fun e => ?_⟩
  · subst hf
    exact hc.2.unmixed
  · exact (attested_step (hl.mono hpermits) ((hl.step hc hstep).mono hpermits)
      hattested.1 hattested.2 hc hstep e).1

/-- **Acked messages are delivered.** In every run of two endpoints over a network that neither
alters nor forges packets, in which every message that is accepted is taken or was had before and no
id is given away too early: a call pushes nothing onto an ack inbox but ids that the last calls with
them have returned, and whose messages the peer has in the inbox of the channel. -/
theorem ackInbox_delivered (h : Reachable PermitsTaken l) {c : Call} (hc : l.PermitsTaken c)
    (hstep : l.step c = .ok l') (e : Side) (channel : UInt8) :
    ∃ pushed, (l'.endpoint e).dispatcher.ackInbox channel =
      (l.endpoint e).dispatcher.ackInbox channel ++ pushed ∧
      ∀ id ∈ pushed, ∃ s, newestCall (l.queuedBy e) id = some s ∧
        s.result = .ok id ∧ s.channel = channel ∧
        ∃ msg ∈ (l.endpoint e.other).dispatcher.messageInbox channel, s.Is msg := by
  have hpermits : ∀ l c, PermitsTaken l c → Permits l c := fun _ _ hc => hc.permits
  obtain ⟨hfaithful, hattested⟩ := h.attested
  exact (attested_step (h.mono hpermits) ((h.step hc hstep).mono hpermits)
    hfaithful hattested hc hstep e).2 channel

/-- Two fragments of a payload are acked by one packet. The second fragment has been delivered
first. -/
theorem ackInbox_delivered_fragments : ∃ l l' c, Reachable PermitsTaken l ∧ l.step c = .ok l' ∧
    (l'.endpoint .left).dispatcher.ackInbox 0 = [0] ∧
      ∃ pushed, (l'.endpoint .left).dispatcher.ackInbox 0 =
        (l.endpoint .left).dispatcher.ackInbox 0 ++ pushed ∧
        ∀ id ∈ pushed, ∃ s, newestCall (l.queuedBy .left) id = some s ∧
          s.result = .ok id ∧ s.channel = 0 ∧
          ∃ msg ∈ (l.endpoint .right).dispatcher.messageInbox 0, s.Is msg := by
  have hrun : ((start (fun _ => true) (fun _ => 1) fun _ => 7).run PermitsTaken [
      fun _ => .sendMessage .left 0 (List.replicate 1500 1), fun _ => .visitPacketsToSend .left,
      deliverAt 1, deliverAt 0,
      fun _ => .sendMessage .right 0 [2], fun _ => .visitPacketsToSend .right]).map (fun l =>
        decide (l.PermitsTaken (deliverAt 2 l)) && (l.step (deliverAt 2 l)).toOption.any fun l' =>
          decide ((l'.endpoint .left).dispatcher.ackInbox 0 = [0])) = some true := by decide +kernel
  obtain ⟨l, hl, htest⟩ := Option.map_eq_some_iff.mp hrun
  rw [Bool.and_eq_true, decide_eq_true_eq] at htest
  obtain ⟨hc, hany⟩ := htest
  obtain ⟨l', hstep, hinbox⟩ := exists_of_any_toOption hany
  have hreach : Reachable PermitsTaken l := reachable_of_run (.start _ _ _) hl
  exact ⟨l, l', _, hreach, hstep, of_decide_eq_true hinbox,
    ackInbox_delivered hreach hc hstep .left 0⟩

/-! ### A message that is refused and acked -/

/-- Each side of a link is an endpoint in a run of its own. -/
theorem exists_reachable_endpoint (h : Reachable Permits l) (e : Side) :
    ∃ overflowChecks, (l.endpoint e).Reachable overflowChecks .default := by
  refine h.invariant (I := fun l => ∀ e, ∃ overflowChecks,
    (l.endpoint e).Reachable overflowChecks .default)
    (fun overflowChecks time salt e => ⟨overflowChecks e, (Endpoint.Reachable.new (time e)).step
      (c := .setXorSalt (some (salt e))) rfl⟩) ?_ e
  intro l l' c _ h hc hstep e
  -- one side makes a call, the other one is left alone
  have hcall : ∀ {e₀ : Side} {p : Endpoint} (c₀ : Endpoint.Call), (l.endpoint e₀).step c₀ = .ok p →
      l'.endpoint = Function.update l.endpoint e₀ p → ∃ overflowChecks,
        (l'.endpoint e).Reachable overflowChecks .default := by
    intro e₀ p c₀ hp hendpoint
    rw [hendpoint]
    rcases e₀.eq_or_eq_other e with rfl | rfl
    · obtain ⟨overflowChecks, hreach⟩ := h e
      rw [Function.update_self]
      exact ⟨overflowChecks, hreach.step hp⟩
    · rw [Function.update_of_ne e₀.other_ne]
      exact h e₀.other
  cases c with
  | sendMessage e₀ channel payload =>
    simp only [Link.step] at hstep
    split at hstep
    · cases hstep
    · next p res hp =>
      cases hstep
      exact hcall (.sendMessage channel payload) (by rw [Endpoint.step, hp]; rfl) rfl
  | update e₀ dt =>
    cases hstep
    exact hcall (.update dt) rfl rfl
  | visitPacketsToSend e₀ =>
    simp only [Link.step] at hstep
    split at hstep
    · cases hstep
    · next p packets hp =>
      cases hstep
      exact hcall .visitPacketsToSend (by rw [Endpoint.step, hp]; rfl) rfl
  | deliver f =>
    obtain rfl | ⟨packet, payload, p, r, hdelivers⟩ := exists_delivers hstep
    · exact h e
    · exact hcall (.processIncomingPacket packet.header payload)
        (by rw [Endpoint.step, hdelivers.call]; rfl)
        hdelivers.endpoint
  | sendKeepAlive e₀ clientIndex => exact hc.elim

/-- **A whole message** in a packet that is acked for the first time: its id is pushed, whatever the
peer has made of it. -/
theorem mem_ackInbox_of_acks (hl : Reachable Permits l) (hl' : Reachable Permits l')
    (hdelivers : l.Delivers f packet payload p r l')
    (haccepts : (l.endpoint f.source.other).accepts packet.header = true)
    {n : ℕ} (hack : (wrap n, true) ∈ packet.header.acks.getD [])
    (hpos : 1 ≤ n) (hle : n ≤ l.sent f.source.other)
    (hlast : l.sent f.source.other < n + 512)
    (hunacked : (l.endpoint f.source.other).Unacked (wrap n))
    {handle : MessageHandle}
    (hhandle : handle ∈ (l.endpoint f.source.other).dispatcher.handlesOf (wrap n))
    (hwhole : handle.fragIndex = none) : handle.id ∈ p.dispatcher.ackInbox handle.channel := by
  have hintact := (exists_reachable_endpoint hl f.source.other).choose_spec.intact
  have hacked := hdelivers.acked
  rw [if_pos haccepts] at hacked
  obtain ⟨sentMeta, hget, hiff⟩ :=
    exists_sentMeta hl' f.source.other hpos (by rw [hdelivers.sent]; exact hle)
    (by rw [hdelivers.sent]; exact hlast)
  refine (Endpoint.Accounts.mem_ackInbox ⟨hintact, fun _ _ => rfl⟩ hhandle hwhole hunacked
    hdelivers.call).resolve_left ?_
  -- the packet is acked now
  rintro ⟨sentMeta', hget', hnew⟩
  rw [hdelivers.endpoint, Function.update_self, hget', Option.some.injEq] at hget
  rw [hget] at hnew
  refine absurd (hiff.mpr ?_) (by rw [hnew]; exact Bool.false_ne_true)
  rw [hacked]
  refine List.mem_append_right _ (List.mem_map.mpr ⟨wrap n, AckState.mem_newAcks hack hunacked, ?_⟩)
  exact latest_wrap hle (by omega)

/-- A message with the id 30000 on channel 0, in the next packet. -/
def lateMessage (l : Link) : Option (List UInt8) :=
  (Message.writeHeaders 30000 none (.ofLength 1024) 0 1024).toOption.bind fun headers =>
    (l.endpoint .left).packetOf (headers ++ List.replicate 1024 1)

/-- A message that is sent, and its packet. -/
def answer (p : Endpoint) : Option (Endpoint × List UInt8) :=
  match p.sendMessage 0 [2] with
  | .ok (q, _) =>
    match q.visitPacketsToSend with
    | .ok (q', [bytes]) => some (q', bytes)
    | _ => none
  | _ => none

theorem exists_of_answer {p q' : Endpoint} {bytes : List UInt8} (h : answer p = some (q', bytes)) :
    ∃ q res, p.sendMessage 0 [2] = .ok (q, res) ∧ q.visitPacketsToSend = .ok (q', [bytes]) := by
  rw [answer] at h
  split at h
  · next q res hsend =>
    split at h
    · next hvisit =>
      cases h
      exact ⟨q, res, hsend, hvisit⟩
    · cases h
  · cases h

/-- The packet would be accepted, acks the first packet and no other, and has no fragments in it. -/
def acksFirst (l : Link) (bytes : List UInt8) : Bool :=
  (readPacket bytes).toOption.any fun r => (l.endpoint .left).accepts r.1.header &&
    decide ((r.1.header.acks.getD []).filter Prod.snd = [(1, true)]) &&
      (Message.fragments (r.2.length + 1) r.2).isEmpty

/-- The right side refuses the late message, and its answer acks it. -/
def refusesLate (l : Link) : Bool :=
  l.lateMessage.any fun bytes =>
    decide ((Flight.contents ⟨.left, 1, 0, bytes⟩).map MessageContent.handle =
      [⟨30000, none, 0⟩]) &&
      (l.step (.deliver ⟨.left, 1, 0, bytes⟩)).toOption.any fun l' =>
        (answer (l'.endpoint .right)).any fun r =>
          (r.1.dispatcher.messageInbox 0).isEmpty && l.acksFirst r.2

/-- Two new endpoints. -/
def twoNew : Link := start (fun _ => true) (fun _ => 1) fun _ => 7

/-- The left side gives 30000 ids to messages on channel 1, and the next one to a message on channel
0. -/
theorem exists_late : ∃ l payload m bytes, Reachable PermitsTaken l ∧
    twoNew.Floods 30000 payload payload m bytes l ∧ twoNew.lateMessage = some bytes := by
  obtain ⟨payload, hpayload⟩ : ∃ payload, payload = List.replicate 1024 (1 : UInt8) := ⟨_, rfl⟩
  have hlen : payload.length = 1024 := by rw [hpayload, List.length_replicate]
  have hpermits : ∀ l : Link, l.net = [] → ∀ channel,
    l.PermitsTaken (.sendMessage .left channel payload) := by
    intro l hnet channel _
    refine ⟨readable_of_le (by omega), ⟨fun f hf => ?_, fun hlarge => by omega⟩⟩
    rw [hnet] at hf
    cases hf
  have hreach : Reachable PermitsTaken twoNew := .start _ _ _
  obtain ⟨_, hleft⟩ := exists_reachable_endpoint (.start _ _ _ : Reachable Permits twoNew) .left
  obtain ⟨l, m, bytes, hl, hfloods⟩ :=
    exists_floods hreach hleft.intact (by decide +kernel) (by decide +kernel)
    (by decide +kernel) 30000 hlen (show payload.length = 1024 * (0 + 1) from hlen) (by decide)
    (fun hk => absurd hk (lt_irrefl 0)) (fun l hnet => hpermits l hnet 1)
      (fun l hnet => hpermits l hnet 0)
    (fun _ => trivial)
  refine ⟨l, payload, m, bytes, hl, hfloods, ?_⟩
  obtain ⟨ms, hblock⟩ := hfloods.block
  rw [SendBlock, if_pos hlen.le] at hblock
  obtain ⟨m', heq, hid, hchannel, hfragment, -, -, hmode, headers, hheaders, hdata⟩ := hblock
  obtain ⟨rfl, -⟩ := List.cons.inj heq
  have hnext : (twoNew.endpoint .left).dispatcher.nextMessageId + UInt16.ofNat 30000 = 30000 := by
    decide +kernel
  rw [hid, hchannel, hfragment, hmode, hlen, hnext] at hheaders
  have hpacket := hfloods.packet
  rw [hdata, hpayload] at hpacket
  rw [lateMessage, hheaders]
  exact hpacket

theorem refusesLate_twoNew : twoNew.refusesLate = true := by decide +kernel

/-- The window of channel 0 on the right side is still at the beginning, so the id 30000 seems to be
behind it. The message is refused, its packet is acked, and the left side takes the message for
delivered. -/
theorem not_ackInbox_delivered :
    ¬ ∀ l l' c, Reachable Permits l → l.Permits c → l.step c = .ok l' → ∀ e channel,
      ∃ pushed, (l'.endpoint e).dispatcher.ackInbox channel =
        (l.endpoint e).dispatcher.ackInbox channel ++ pushed ∧
        ∀ id ∈ pushed, ∃ s ∈ l.sends e, s.result = .ok id ∧ s.channel = channel ∧
          ∃ msg ∈ (l.endpoint e.other).dispatcher.messageInbox channel,
            msg.payload = s.payload := by
  intro hall
  obtain ⟨l₁, payload, m, bytes, hl₁, hfloods, hlate⟩ := exists_late
  have htest := refusesLate_twoNew
  rw [refusesLate, hlate, Option.any_some, Bool.and_eq_true, decide_eq_true_eq] at htest
  obtain ⟨hhandles, htest⟩ := htest
  obtain ⟨lr, hstep, htest⟩ := exists_of_any_toOption htest
  obtain ⟨⟨q', bytes'⟩, hanswer, htest⟩ := (Option.any_eq_true ..).mp htest
  rw [Bool.and_eq_true, List.isEmpty_iff] at htest
  obtain ⟨hinbox, hacks⟩ := htest
  obtain ⟨⟨packet, rest⟩, hread, hacks⟩ := exists_of_any_toOption hacks
  simp only [Bool.and_eq_true, decide_eq_true_eq, List.isEmpty_iff] at hacks
  obtain ⟨⟨haccepts, hfirst⟩, hfragments⟩ := hacks
  have hack : ∀ ack ∈ packet.header.acks.getD [], ack.2 = true → ack = (1, true) := by
    intro ack hmem hbit
    have := List.mem_filter.mpr ⟨hmem, hbit⟩
    rwa [hfirst, List.mem_singleton] at this
  have hmem : (wrap 1, true) ∈ packet.header.acks.getD [] := by
    have : (1, true) ∈ (packet.header.acks.getD []).filter Prod.snd := by
      rw [hfirst]
      exact List.mem_singleton_self _
    exact List.mem_of_mem_filter this
  -- the left side remembers the message
  have hf : ⟨.left, 1, 0, bytes⟩ ∈ l₁.net := hfloods.net
  have hfew : l₁.sent .left ≤ 352 := hfloods.few
  have hright : l₁.sent .right = 0 := hfloods.sent
  have hopen : l₁.Open ⟨.left, 1, 0, bytes⟩ := by
    refine ⟨show l₁.sent .left < 1 + 512 by omega, ?_⟩
    rw [hfloods.acked]
    exact List.not_mem_nil
  have hpermits : ∀ l c, PermitsTaken l c → Permits l c := fun _ _ hc => hc.permits
  have hl₁' := hl₁.mono hpermits
  have hremembers := (hl₁.attested.2 .left).handles _ hf rfl hopen
  rw [hhandles] at hremembers
  have hunacked := unacked_of_open hl₁' hf hopen
  have hle : 1 ≤ l₁.sent .left := (number_of_mem_net hl₁' hf).2
  -- the right side accepts the packet and refuses the message
  obtain ⟨l₂, hstep₂, hright₂, -⟩ :=
    exists_deliver ⟨.left, 1, 0, bytes⟩ ⟨.left, 1, 0, bytes⟩ rfl rfl hfloods.right hstep
  have hl₂ := hl₁'.step (c := .deliver ⟨.left, 1, 0, bytes⟩) ⟨hf, by
    rw [Timely, Side.other]
    dsimp only
    omega⟩ hstep₂
  obtain ⟨hleft₂, hsent₂⟩ := endpoint_source_of_deliver hstep₂
  -- its answer
  obtain ⟨q, res, hsend, hvisit⟩ := exists_of_answer hanswer
  obtain ⟨l₃, hl₃, hend₃, hsame₃, -⟩ := hl₂.sendMessage (e := .right) trivial
    (by rw [show l₂.endpoint .right = _ from hright₂]; exact hsend)
  have hl₄ := hl₃.visitPacketsToSend (e := .right) trivial
    (by rw [hend₃, Function.update_self]; exact hvisit)
  obtain ⟨l₄, hl₄eq⟩ : ∃ l₄, l₄ = (l₃.setEndpoint .right q').launch .right [bytes'] := ⟨_, rfl⟩
  have hleft₄ : l₄.endpoint .left = l₁.endpoint .left := by
    rw [hl₄eq, ← hleft₂]
    simp [launch, setEndpoint, hend₃]
  have hright₄ : l₄.endpoint .right = q' := by
    rw [hl₄eq]
    simp [launch, setEndpoint]
  have hsent₄ : l₄.sent .left = l₁.sent .left := by
    rw [hl₄eq]
    simp [launch, setEndpoint, hsame₃.sent, hsent₂]
  rw [← hl₄eq] at hl₄
  have hf' : ⟨.right, 1, l₁.sent .left, bytes'⟩ ∈ l₄.net := by
    rw [hl₄eq]
    simp [launch, setEndpoint, flights, hsame₃.sent, hsent₂, hright, Side.other]
  -- the left side takes it
  have hunacked₄ : (l₄.endpoint .left).Unacked (wrap 1) := hleft₄ ▸ hunacked
  have hmessage : (l₄.endpoint .left).dispatcher.handlesOf (wrap 1) = [⟨30000, none, 0⟩] :=
    hleft₄ ▸ hremembers
  have hadmits : (l₄.endpoint .left).Admits packet.header rest := by
    refine fun _ => ⟨Endpoint.admitsAcks_of_whole fun id hid handle hhandle => ?_,
      fun _ => Endpoint.admitsMessages_of_fragments hfragments⟩
    cases hack (id, true) hid rfl
    rw [show (1 : UInt16) = wrap 1 from rfl, hmessage, List.mem_singleton] at hhandle
    rw [hhandle]
  obtain ⟨_, hreach⟩ := exists_reachable_endpoint hl₄ .left
  obtain ⟨⟨p, r⟩, hcall⟩ := (hreach.receptive.exists_processIncomingPacket_iff _ _).mpr hadmits
  obtain ⟨l₅, hstep₅, hdelivers⟩ :=
    exists_delivers_of_call (f := ⟨.right, 1, l₁.sent .left, bytes'⟩) hread hcall
  have hpermits₅ : l₄.Permits (.deliver ⟨.right, 1, l₁.sent .left, bytes'⟩) := by
    refine ⟨hf', ?_⟩
    have hsentRight : l₄.sent .right = 1 := by
      rw [hl₄eq]
      simp [launch, setEndpoint, hsame₃.sent, hsent₂, hright]
    rw [Timely, Side.other]
    dsimp only
    omega
  have hpushed : (30000 : MessageId) ∈ p.dispatcher.ackInbox 0 := by
    have hacceptsLeft : (l₄.endpoint .left).accepts packet.header = true := by
      rw [Endpoint.accepts, hleft₄, hfloods.receivedBuffer]
      exact haccepts
    have hhandle : (⟨30000, none, 0⟩ : MessageHandle) ∈ (l₄.endpoint .left).dispatcher.handlesOf
      (wrap 1) := by
      rw [hmessage]
      exact List.mem_singleton_self _
    exact mem_ackInbox_of_acks hl₄ (hl₄.step hpermits₅ hstep₅) hdelivers hacceptsLeft hmem le_rfl
      (show 1 ≤ l₄.sent .left by omega) (show l₄.sent .left < 1 + 512 by
        omega) hunacked₄ hhandle rfl
  -- but it is not there
  obtain ⟨pushed, hpushes, hdelivered⟩ := hall l₄ l₅ _ hl₄ hpermits₅ hstep₅ .left 0
  have hleft₅ : l₅.endpoint .left = p := by
    rw [hdelivers.endpoint]
    exact Function.update_self ..
  have hempty : (l₄.endpoint .left).dispatcher.ackInbox 0 = [] := by
    rw [hleft₄, hfloods.ackInbox]
    rfl
  rw [hleft₅, hempty, List.nil_append] at hpushes
  rw [hpushes] at hpushed
  obtain ⟨s, -, -, -, msg, hmsg, -⟩ := hdelivered _ hpushed
  rw [Side.other, hright₄, hinbox] at hmsg
  cases hmsg

end Link

end Pickleback
