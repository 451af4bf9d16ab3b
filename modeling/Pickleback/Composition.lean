import Pickleback.Sending

/-!
# What one call of `compose_packets` writes

A call of `compose_packets` is a series of sends (`composePackets_spec`). Here the sends of one call
are taken together: what is in its packets, what `messages_in_packets` remembers of them when the
call returns, and how the queues differ before and after it.

The packets of one call are few: each of them moves `sent_buffer` forward by one, and the call stops
when 350 packets are unacked. So no packet of the call pushes an earlier one out of the window of
512 slots of `messages_in_packets`.

## Main definitions

* `Endpoint.failedHeaders` — packet ids used up since the newest packet that was sent
* `Endpoint.Composed` — the packets of a call, against the endpoint before and after it

## Main results

* `composePackets_composed` — every call that returns `Ok` or `Backpressure`
-/

namespace Pickleback

/-! ### Consecutive insertions -/

namespace SequenceBuffer

variable {T : Type} {b b' : SequenceBuffer T} {s t : UInt16} {v : T}

/-- Numbers less than 512 apart have different slots. -/
theorem index_succ_ne (hlen : b.len = 512) (hnear : (s - t).toNat < 511) :
    b.index (s + 1) ≠ b.index t := by
  have hs := s.toNat_lt
  have ht := t.toNat_lt
  rw [index_eq (by omega), index_eq (by omega), hlen, UInt16.toNat_add]
  rw [UInt16.toNat_sub] at hnear
  simp only [UInt16.reduceToNat]
  omega

variable [Inhabited T]

/-- A window of 512 is at most 512 ahead of what was inserted last. -/
theorem sequence_sub_insert_le (hlen : b.len = 512) (h : b.insert t v = .ok b') :
    (b'.sequence - t).toNat ≤ 512 := by
  obtain ⟨hold, -⟩ := insert_cases h
  have hseq := sequence_insert h
  have ht := t.toNat_lt
  have hb := b.sequence.toNat_lt
  rw [hlen, ← Bool.not_eq_true, sequenceLessThan, sequenceGreaterThan_iff, UInt16.toNat_sub,
    UInt16.toNat_ofNat'] at hold
  rw [hseq]
  split
  · simp
  · next hnew =>
    rw [sequenceGreaterThan_iff] at hnew
    rw [UInt16.toNat_sub]
    omega

omit [Inhabited T] in
/-- Where the window is not far ahead of `s`, inserting `s + 1` touches one slot only. -/
theorem index_succ_of_disturbs (hnear : (b.sequence - s).toNat ≤ 512)
    {i : ℕ} (h : b.Disturbs (s + 1) i) :
    b.index (s + 1) = i := by
  obtain heq | ⟨hnew, hsucc, -⟩ := h
  · exact heq
  · have hs := s.toNat_lt
    have hb := b.sequence.toNat_lt
    have hsucc' : b.sequence.toNat ≠ s.toNat := fun hc => hsucc (by rw [UInt16.toNat_inj.mp hc])
    rw [sequenceGreaterThan_iff, UInt16.toNat_add] at hnew
    rw [UInt16.toNat_sub] at hnear
    simp only [UInt16.reduceToNat] at hnew
    omega

theorem get_insert_succ (hnear : (b.sequence - s).toNat ≤ 512) (h : b.insert (s + 1) v = .ok b')
    (hne : b.index (s + 1) ≠ b.index t) : b'.get t = b.get t := by
  have hnot : ¬ b.Disturbs (s + 1) (b.index t) := fun hdist =>
    hne (index_succ_of_disturbs hnear hdist)
  rw [get, get, index_of_insert h, (insert_of_not_disturbs h hnot).1,
    (insert_of_not_disturbs h hnot).2]

end SequenceBuffer

namespace Endpoint

/-! ### The sends of one call -/

/-- Packet ids used up since the newest packet in `sent_buffer`: header attempts that failed. -/
def failedHeaders (p : Endpoint) : ℕ := (p.sequenceId - p.sentBuffer.sequence).toNat

theorem sequence_of_failedHeaders {p : Endpoint} (h : p.failedHeaders = 0) :
    p.sentBuffer.sequence = p.sequenceId := by
  have hs := p.sequenceId.toNat_lt
  have hb := p.sentBuffer.sequence.toNat_lt
  rw [failedHeaders, UInt16.toNat_sub] at h
  rw [← UInt16.toNat_inj]
  omega

section Series

variable {p p' : Endpoint} {e : Emission} {es : List Emission}

theorem Emits.sequenceId (h : p.Emits e p') : p'.sequenceId = p.sequenceId + 1 := by rw [h.rest]

theorem Emits.header_id (h : p.Emits e p') : e.header.id = p.sequenceId + 1 :=
  (packetType_of_new h.header).2

/-- A packet whose id is ahead of the window of sent packets moves it there. -/
theorem Emits.failedHeaders (h : p.Emits e p') (hfailed : p.failedHeaders < 32767) :
    p'.failedHeaders = 0 := by
  obtain ⟨size, hsent⟩ := h.sent
  have hseq := SequenceBuffer.sequence_insert hsent
  have hnew : SequenceBuffer.sequenceGreaterThan (p.sequenceId + 1) p.sentBuffer.sequence =
    true := by
    have hs := p.sequenceId.toNat_lt
    have hb := p.sentBuffer.sequence.toNat_lt
    rw [Endpoint.failedHeaders, UInt16.toNat_sub] at hfailed
    rw [SequenceBuffer.sequenceGreaterThan_iff, UInt16.toNat_add]
    simp only [UInt16.reduceToNat]
    omega
  rw [if_pos hnew] at hseq
  rw [Endpoint.failedHeaders, h.sequenceId, hseq]
  simp

/-- Each packet adds one to the unacked ones. -/
theorem Emits.sentUnackedPackets (h : p.Emits e p') (hfailed : p.failedHeaders = 0) :
    p'.sentUnackedPackets.toNat = p.sentUnackedPackets.toNat + 1 := by
  have h0 := h.failedHeaders (by omega)
  have hack : p'.newestAck = p.newestAck := by rw [h.rest]
  have hunacked := h.unacked
  rw [ge_iff_le, UInt16.not_le, UInt16.lt_iff_toNat_lt, Endpoint.sentUnackedPackets,
    sequence_of_failedHeaders hfailed] at hunacked
  rw [Endpoint.sentUnackedPackets, Endpoint.sentUnackedPackets, sequence_of_failedHeaders hfailed,
    sequence_of_failedHeaders h0, hack, h.sequenceId]
  have hmax : maxUnackedPackets.toNat = 350 := rfl
  rw [hmax] at hunacked
  have hs := p.sequenceId.toNat_lt
  have ha := (p.newestAck.getD 0).toNat_lt
  rw [UInt16.toNat_sub] at hunacked
  rw [UInt16.toNat_sub, UInt16.toNat_sub, UInt16.toNat_add]
  simp only [UInt16.reduceToNat]
  omega

/-- The packets of one call, after its first. -/
theorem EmitsAll.length_le_of_newest (h : p.EmitsAll es p') (hfailed : p.failedHeaders = 0) :
    es.length ≤ 350 - p.sentUnackedPackets.toNat := by
  induction h with
  | nil p => simp
  | @cons p p₁ p' e es hemits _ ih =>
    have hrest := ih (hemits.failedHeaders (by omega))
    have hunacked := hemits.unacked
    rw [ge_iff_le, UInt16.not_le, UInt16.lt_iff_toNat_lt] at hunacked
    have hmax : maxUnackedPackets.toNat = 350 := rfl
    rw [hemits.sentUnackedPackets hfailed] at hrest
    rw [List.length_cons]
    omega

/-- The packets of one call are few. -/
theorem EmitsAll.length_le (h : p.EmitsAll es p') (hfailed : p.failedHeaders < 32767) :
    es.length ≤ 351 := by
  cases h with
  | nil p => simp
  | cons hemits hrest =>
    have := hrest.length_le_of_newest (hemits.failedHeaders hfailed)
    rw [List.length_cons]
    omega

theorem EmitsAll.sequenceId (h : p.EmitsAll es p') :
    p'.sequenceId = p.sequenceId + UInt16.ofNat es.length := by
  induction h with
  | nil p => simp
  | cons hemits _ ih =>
    rw [ih, hemits.sequenceId, List.length_cons, Nat.add_comm, UInt16.ofNat_add, UInt16.add_assoc]
    rfl

theorem EmitsAll.outbox (h : p.EmitsAll es p') :
    p'.outbox.map PooledBuffer.data = p.outbox.map PooledBuffer.data ++ es.map Emission.bytes := by
  induction h with
  | nil p => simp
  | cons hemits _ ih =>
    rw [ih, hemits.outbox, List.append_assoc, List.map_cons, List.singleton_append]

theorem EmitsAll.receivedUnackedPackets (h : p.EmitsAll es p') :
    p'.receivedUnackedPackets = p.receivedUnackedPackets := by
  induction h with
  | nil _ => rfl
  | cons hemits _ ih =>
    rw [ih, hemits.rest]
    rfl

/-- What is received, and what acks have been passed on, is as it was. -/
structure SameIntake (p p' : Endpoint) : Prop where
  receivedBuffer : p'.receivedBuffer = p.receivedBuffer
  messageInbox : p'.dispatcher.messageInbox = p.dispatcher.messageInbox
  messageReassembler : p'.dispatcher.messageReassembler = p.dispatcher.messageReassembler
  ackInbox : p'.dispatcher.ackInbox = p.dispatcher.ackInbox

theorem EmitsAll.sameIntake (h : p.EmitsAll es p') : p.SameIntake p' := by
  induction h with
  | nil p => exact ⟨rfl, rfl, rfl, rfl⟩
  | cons hemits _ ih =>
    rw [hemits.rest] at ih
    exact ⟨ih.receivedBuffer, ih.messageInbox, ih.messageReassembler, ih.ackInbox⟩

theorem Intact.sameIntake_visitPacketsToSend (h : p.Intact) {packets : List (List UInt8)}
    (hcall : p.visitPacketsToSend = .ok (p', packets)) : p.SameIntake p' := by
  obtain ⟨es, p₁, p₂, r, hall, -, hstop, rfl, -⟩ := visitPacketsToSend_cases h hcall
  have hintake := hall.sameIntake
  cases hstop <;> exact ⟨hintake.receivedBuffer, hintake.messageInbox,
    hintake.messageReassembler, hintake.ackInbox⟩

theorem Intact.sameIntake_sendMessage (h : p.Intact) {channel : UInt8} {payload : List UInt8}
    {res : Except PicklebackError MessageId}
    (hcall : p.sendMessage channel payload = .ok (p', res)) :
    p.SameIntake p' := by
  obtain ⟨-, hp⟩ | ⟨ch, ms, -, -, -, hrecords, hp⟩ := sendMessage_cases h.maxMessageSize.le hcall
  · rw [hp]
    exact ⟨rfl, rfl, rfl, rfl⟩
  · rw [hp]
    generalize p'.dispatcher = d at hrecords
    cases hrecords <;> exact ⟨rfl, rfl, rfl, rfl⟩

/-- The ids of the packets are consecutive. -/
theorem EmitsAll.header_id (h : p.EmitsAll es p') :
    es.map (fun e => e.header.id)
      = (List.range es.length).map fun k => p.sequenceId + 1 + UInt16.ofNat k := by
  induction h with
  | nil p => simp
  | @cons p p₁ p' e es hemits _ ih =>
    rw [List.map_cons, ih, hemits.header_id, hemits.sequenceId,
      List.length_cons, List.range_succ_eq_map,
      List.map_cons, List.map_map]
    refine congrArg₂ _ (by simp) (List.map_congr_left fun k _ => ?_)
    rw [Function.comp_apply, Nat.succ_eq_add_one, Nat.add_comm, UInt16.ofNat_add, UInt16.add_assoc]
    rfl

/-- The queues before and after a series of sends. -/
theorem EmitsAll.wrote (hsound : p.channels.Sound) (h : p.EmitsAll es p') :
    p.channels.Wrote (es.flatMap Emission.messages) p'.channels := by
  induction h with
  | nil p => exact .refl _
  | cons hemits _ ih =>
    exact hemits.wrote.trans hsound.sound (ih (hemits.wrote.sound hsound))

/-- What a series of sends has in common with the endpoint before it. -/
theorem EmitsAll.forall_mem (h : p.EmitsAll es p') (hsound : p.channels.Sound) {e : Emission}
    (he : e ∈ es) : p.xorSalt = some e.salt ∧ e.messages ≠ [] ∧ e.bytes.length ≤ 1150 ∧
      ∀ m ∈ e.messages, m.channel ∈ p.channels.map Channel.id := by
  induction h with
  | nil p => cases he
  | @cons p p₁ p' e' es hemits _ ih =>
    rcases List.mem_cons.mp he with rfl | he
    · refine ⟨hemits.salt, hemits.nonempty, hemits.length_le, fun m hm => ?_⟩
      obtain ⟨ch, hch, hholds⟩ := hemits.held m hm
      rw [((hsound.sound ch hch).of_holds hholds).1]
      exact List.mem_map_of_mem hch
    · have hsalt : p₁.xorSalt = p.xorSalt := by rw [hemits.rest]
      rw [← hsalt, ← ChannelList.map_id_of_forall₂ (fun _ _ hch => hch.id) hemits.shrinks]
      exact ih (hemits.wrote.sound hsound) he

/-! ### The handles -/

/-- Handles of an earlier packet outlive a series of few packets. -/
theorem EmitsAll.get_handles_of_old (h : p.EmitsAll es p')
    (hlen : p.dispatcher.messagesInPackets.len = 512) {t : PacketId}
    (hnear : (p.dispatcher.messagesInPackets.sequence - p.sequenceId).toNat ≤ 512)
    (hold : (p.sequenceId - t).toNat + es.length < 512) :
    p'.dispatcher.messagesInPackets.get t = p.dispatcher.messagesInPackets.get t := by
  induction h with
  | nil p => rfl
  | @cons p p₁ p' e es hemits _ ih =>
    rw [List.length_cons] at hold
    have hnear₁ := SequenceBuffer.sequence_sub_insert_le hlen hemits.handles
    have hstep : (p.sequenceId + 1 - t).toNat = (p.sequenceId - t).toNat + 1 := by
      have hs := p.sequenceId.toNat_lt
      have ht := t.toNat_lt
      rw [UInt16.toNat_sub] at hold
      rw [UInt16.toNat_sub, UInt16.toNat_sub, UInt16.toNat_add]
      simp only [UInt16.reduceToNat]
      omega
    rw [ih ((SequenceBuffer.len_insert hemits.handles).trans hlen) (hemits.sequenceId ▸ hnear₁)
      (by rw [hemits.sequenceId, hstep]; omega)]
    exact SequenceBuffer.get_insert_succ hnear hemits.handles
      (SequenceBuffer.index_succ_ne hlen (by omega))

/-- After a series of few packets, the handles of all of them are there. -/
theorem EmitsAll.get_handles (h : p.EmitsAll es p')
    (hlen : p.dispatcher.messagesInPackets.len = 512)
    (hfew : es.length ≤ 512) {e : Emission} (he : e ∈ es) :
    p'.dispatcher.messagesInPackets.get e.header.id = some (e.messages.map Message.handle) := by
  induction h with
  | nil p => cases he
  | @cons p p₁ p' e' es hemits hrest ih =>
    rw [List.length_cons] at hfew
    have hlen₁ := (SequenceBuffer.len_insert hemits.handles).trans hlen
    rcases List.mem_cons.mp he with rfl | he
    · have hnear := SequenceBuffer.sequence_sub_insert_le hlen hemits.handles
      rw [hemits.header_id, hrest.get_handles_of_old hlen₁ (hemits.sequenceId ▸ hnear)
        (by rw [hemits.sequenceId]; simp; omega)]
      exact SequenceBuffer.get_insert_self hemits.handles
    · exact ih hlen₁ (by omega) he

end Series

/-! ### The whole call -/

/-- The packets `es` of a call, against the endpoint before and after it. -/
structure Composed (p : Endpoint) (es : List Emission) (p' : Endpoint) : Prop where
  /-- What the call appends to the outbox: header, salt and message buffers of each packet. -/
  outbox : p'.outbox.map PooledBuffer.data = p.outbox.map PooledBuffer.data ++ es.map Emission.bytes
  salt : ∀ e ∈ es, p.xorSalt = some e.salt
  nonempty : ∀ e ∈ es, e.messages ≠ []
  length_le : ∀ e ∈ es, e.bytes.length ≤ p.config.maxPacketSize
  /-- The ids of the packets are the next ones. -/
  header_id : es.map (fun e => e.header.id)
    = (List.range es.length).map fun k => p.sequenceId + 1 + UInt16.ofNat k
  /-- What is remembered under a packet's id are the handles of its messages, in order. -/
  handles : ∀ e ∈ es,
    p'.dispatcher.messagesInPackets.get e.header.id = some (e.messages.map Message.handle)
  channel : ∀ e ∈ es, ∀ m ∈ e.messages, m.channel ∈ p.channels.map Channel.id
  /-- Every written message was taken from its queue, each queued message at most once. -/
  wrote : p.channels.Wrote (es.flatMap Emission.messages) p'.channels

/-- **Composing packets.** In every reachable state with a salt, if fewer than 30000 header attempts
have failed since the last packet, every call of `compose_packets` that returns `Ok` or
`Backpressure` has written packets of whole messages, remembered exactly their handles, and taken
each message from its queue once; after `Ok` nothing is left to send. -/
theorem composePackets_composed {overflowChecks : Bool} {p p' : Endpoint}
    (h : Reachable overflowChecks .default p) (hsalt : p.xorSalt.isSome)
    (hfailed : p.failedHeaders < 30000)
    {r : Except PicklebackError Unit} (hcall : p.composePackets = .ok (p', r))
    (hr : r = .ok () ∨ ∃ b, r = .error (.backpressure b)) :
    ∃ es, p.Composed es p' ∧ (r = .ok () → ∀ ch ∈ p'.channels, ch.anyReadyToSend = false) := by
  have hintact := h.intact
  have hsound := hintact.sound hsalt
  obtain ⟨es, p₁, hall, -, -, hstop⟩ := composePackets_cases hintact hcall (by
    rintro rfl
    obtain hr | ⟨b, hr⟩ := hr <;> cases hr)
  have hfew : es.length ≤ 512 := (hall.length_le (by omega)).trans (by omega)
  refine ⟨es, ?_, ?_⟩
  · exact {
      outbox := hstop.outbox ▸ hall.outbox
      salt := fun e he => (hall.forall_mem hsound.channels he).1
      nonempty := fun e he => (hall.forall_mem hsound.channels he).2.1
      length_le := fun e he => by
        rw [hsound.config]
        exact (hall.forall_mem hsound.channels he).2.2.1
      header_id := hall.header_id
      handles := fun e he => hstop.dispatcher ▸ hall.get_handles hsound.handlesLen hfew he
      channel := fun e he => (hall.forall_mem hsound.channels he).2.2.2
      wrote := hstop.channels ▸ hall.wrote hsound.channels }
  · intro hok ch hch
    rw [hok] at hstop
    cases hstop with
    | done hnone =>
      have hany : p'.channels.anyWithMessagesToSend = false := by
        rw [← Bool.not_eq_true, ChannelList.anyWithMessagesToSend_iff]
        omega
      rw [ChannelList.anyWithMessagesToSend, List.any_eq_false] at hany
      simpa using hany ch hch

/-- A new endpoint with a salt and a message on each channel. -/
theorem composePackets_composed_two :
    ∃ p p' es, (Endpoint.new true .default 0).run
        [.setXorSalt (some 7), .sendMessage 0 [1, 2], .sendMessage 1 [3]] = .ok p ∧
      p.composePackets = .ok (p', .ok ()) ∧ p.Composed es p' ∧
      ∀ ch ∈ p'.channels, ch.anyReadyToSend = false := by
  obtain ⟨p, hrun, htest⟩ := exists_of_any_toOption (show ((Endpoint.new true .default 0).run
      [.setXorSalt (some 7), .sendMessage 0 [1, 2], .sendMessage 1 [3]]).toOption.any (fun p =>
        p.xorSalt.isSome && decide (p.failedHeaders < 30000) &&
          p.composePackets.toOption.any fun r => r.2.isOk) = true by decide +kernel)
  simp only [Bool.and_eq_true, decide_eq_true_eq] at htest
  obtain ⟨⟨hsalt, hfailed⟩, hcomposes⟩ := htest
  obtain ⟨⟨p', r⟩, hcall, hok⟩ := exists_of_any_toOption hcomposes
  obtain rfl : r = .ok () := by
    cases r with
    | error e => cases hok
    | ok u => rfl
  obtain ⟨es, hes, hdone⟩ :=
    composePackets_composed ((Reachable.new 0).run hrun) hsalt hfailed hcall (Or.inl rfl)
  exact ⟨p, p', es, hrun, hcall, hes, hdone rfl⟩

end Endpoint

end Pickleback
