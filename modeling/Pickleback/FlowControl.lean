import Pickleback.AckSimulation
import Pickleback.Link
import Pickleback.SoundCalls

/-!
# Flow control and acks over whole runs

The link refines the ack protocol: in every state of a run whose packets come from `compose_packets`
and are delivered in time, each endpoint shows a party of the protocol, and the packets under way
carry the reports of the parties. What the protocol guarantees then holds of the endpoints: neither
side has more than 350 packets unacked, and what is acked was accepted.

## Main definitions

* `Link.Simulates` — the link shows two parties of the ack protocol

## Main results

* `simulates_step` — every permitted call is a step of the protocol, or none
* `unacked_packets_le` — both counters stay at 350 or below
* `acked_accepted` — a packet is acked at most once, and only after it was accepted
-/

namespace Pickleback

open Serial AckProtocol

/-- What is under way is a packet of the party `q`: its id is its number, and its acks are those of
`q`'s report. -/
structure Flight.Shows (f : Flight) (q : Party) : Prop where
  pos : 1 ≤ f.number
  le_sent : f.number ≤ q.sent
  stamp_le : f.stamp ≤ q.upTo f.number + 350
  read : ∃ packet rest, readPacket f.bytes = .ok (packet, rest) ∧
    packet.header.id = wrap f.number ∧ Carries packet.header.acks (q.report f.number).acks

/-- One side of a link, with its history, shows the party `p`. -/
structure Shown (e : Endpoint) (sent : ℕ) (accepted acked : List ℕ) (p : Party) : Prop where
  sound : e.Sound
  outbox : e.outbox = []
  represents : Represents e.ackState p
  sent_eq : sent = p.sent
  mem_accepted : ∀ y, y ∈ accepted ↔ y ∈ p.received
  acked_eq : acked = p.acked
  packetsAcked : e.stats.packetsAcked = acked.length

/-- The link shows two parties that agree. -/
structure Link.Simulates (l : Link) (s : Side → Party) : Prop where
  shown : ∀ e, Shown (l.endpoint e) (l.sent e) (l.accepted e) (l.acked e) (s e)
  agree : ∀ e, Agree 350 7 (s e) (s e.other)
  net : ∀ f ∈ l.net, f.Shows (s f.source)
  origin : ∀ e, ∀ x ∈ l.accepted e, ∃ f ∈ l.net, f.source = e.other ∧ f.number = x

/-- Two parties that agree, one of them replaced. -/
theorem agree_update {s : Side → Party} {e : Side} {p : Party} (h : Agree 350 7 p (s e.other))
    (h' : Agree 350 7 (s e.other) p) (e' : Side) :
    Agree 350 7 (Function.update s e p e') (Function.update s e p e'.other) := by
  rcases Side.eq_or_eq_other e e' with rfl | rfl
  · rw [Function.update_self, Function.update_of_ne e'.other_ne]
    exact h
  · rw [Side.other_other, Function.update_self, Function.update_of_ne e.other_ne]
    exact h'

namespace Flight.Shows

variable {f : Flight} {q q' : Party}

/-- What was sent stays what it was. -/
theorem mono (h : f.Shows q) (hsent : q.sent ≤ q'.sent)
    (hreport : ∀ n ≤ q.sent, q'.report n = q.report n) : f.Shows q' := by
  have heq := hreport f.number h.le_sent
  refine ⟨h.pos, h.le_sent.trans hsent, ?_, ?_⟩
  · rw [Party.upTo, heq]
    exact h.stamp_le
  · rw [heq]
    exact h.read

theorem update {s : Side → Party} {e : Side} {p : Party} (h : f.Shows (s f.source))
    (hsent : (s e).sent ≤ p.sent) (hreport : ∀ n ≤ (s e).sent, p.report n = (s e).report n) :
    f.Shows (Function.update s e p f.source) := by
  by_cases he : f.source = e
  · rw [he] at h ⊢
    rw [Function.update_self]
    exact h.mono hsent hreport
  · rw [Function.update_of_ne he]
    exact h

end Flight.Shows

/-! ### Sending -/

/-- **A series of sends** of an endpoint is a series of sends of the party it shows. -/
theorem Endpoint.EmitsAll.sends {e e' : Endpoint} {es : List Emission} {p q : Party} (source : Side)
    (h : e.EmitsAll es e') (hrep : Represents e.ackState p) (hp : Agree 350 7 p q)
    (hq : Agree 350 7 q p) :
    ∃ p', Sends 350 7 p p' ∧ Represents e'.ackState p' ∧ p'.sent = p.sent + es.length ∧
      e'.outbox.map PooledBuffer.data = e.outbox.map PooledBuffer.data ++ es.map Emission.bytes ∧
      e'.stats.packetsAcked = e.stats.packetsAcked ∧
      ∀ f ∈ Link.flights source q.sent (p.sent + 1) (es.map Emission.bytes), f.Shows p' := by
  induction h generalizing p with
  | nil e => exact ⟨p, .refl p, hrep, rfl, by simp, rfl, by simp [Link.flights]⟩
  | @cons e e₁ e' m es hemits _ ih =>
    obtain ⟨hcan, hcarries⟩ := hrep.canSend hp hq hemits.unacked
    obtain ⟨p', hsends, hrep', hsent, hout, hacked, hshows⟩ :=
      ih (hrep.send hp hq hemits _) (hp.send hq hcan) hq.send_peer
    rw [Party.sent_send] at hsent hshows
    refine ⟨p', .step hcan hsends, hrep', ?_, ?_, hacked.trans hemits.packetsAcked, ?_⟩
    · rw [hsent, List.length_cons]
      omega
    · rw [hout, hemits.outbox, List.append_assoc]
      rfl
    · intro f hf
      rcases List.mem_cons.mp hf with rfl | hf
      · obtain ⟨-, -, -, hle, hreport⟩ := hsends.frame
        have hfirst : Flight.Shows ⟨source, p.sent + 1, q.sent, m.bytes⟩ (p.send
            (reportedNumbers p.top
              (ProtocolPacketHeader.acksFor e.receivedBuffer e.receivedUnackedPackets))) := by
          obtain ⟨header, hread, -, hid, hacks⟩ :=
            readPacket_messages hemits.numAcks hemits.header m.salt
            (m.messages.flatMap fun m => m.buffer.data)
          refine ⟨by simp, le_rfl, ?_, _, _, hread, ?_, ?_⟩
          · rw [Party.upTo_send_self]
            exact hq.sent_le hp
          · show header.id = _
            have hseq : e.sequenceId = wrap p.sent := hrep.sequenceId
            rw [hid, hseq]
            push_cast
            rw [← wrap_add]
            rfl
          · show Carries header.acks _
            rw [hacks, Party.report_send_self]
            exact hcarries
        exact hfirst.mono hle hreport
      · exact hshows f hf

/-- What the two counters of an endpoint show. -/
theorem counters_of_represents {e : Endpoint} {p q : Party} (hrep : Represents e.ackState p)
    (hp : Agree 350 7 p q) (hq : Agree 350 7 q p) :
    e.sentUnackedPackets.toNat = p.sent - p.newest ∧
      e.receivedUnackedPackets.toNat = p.top - p.low ∧
      e.sentUnackedPackets ≤ maxUnackedPackets ∧ e.receivedUnackedPackets ≤ maxUnackedPackets := by
  have hunacked := hp.unacked_le
  have hunreported := hp.unreported_le hq
  have hnewest := hp.newest_le_sent hq
  have hlow : p.low ≤ p.top := by
    rw [hp.tidy.low]
    exact hp.upTo_le hnewest
  have hsent := toNat_wrap (p.sent - p.newest)
  have hreceived := toNat_wrap (p.top - p.low)
  have hs := hrep.sentUnackedPackets hp.tidy
  have hr := hrep.receivedUnackedPackets hp.tidy hp.upTo_zero
  rw [UInt16.le_iff_toNat_le, UInt16.le_iff_toNat_le, hs, hr]
  simp only [maxUnackedPackets, UInt16.reduceToNat]
  omega

namespace Link

variable {l l' : Link} {s : Side → Party}

theorem simulates_start (overflowChecks : Side → Bool) (time : Side → Time) (salt : Side → UInt64) :
    (Link.start overflowChecks time salt).Simulates fun _ => .start where
  shown := by
    intro e
    refine ⟨Endpoint.sound_new _ _ _, rfl, ?_, rfl, by simp [Link.start, Party.start], rfl, rfl⟩
    refine ⟨rfl, ?_, ?_, ?_, Or.inl ⟨rfl, rfl⟩, Or.inl ⟨rfl, rfl⟩⟩
    · have hempty : Set.Icc 1 Party.start.sent = ∅ := by
        ext y
        simp only [Set.mem_Icc, Set.mem_empty_iff_false, iff_false, Party.start]
        omega
      rw [hempty]
      exact SequenceBuffer.ring_withCapacity
    · intro y h₁ h₂ _
      have : Party.start.sent = 0 := rfl
      omega
    · exact SequenceBuffer.ring_withCapacity
  agree := fun _ => Agree.start 350 7
  net := by simp [Link.start]
  origin := by simp [Link.start]

/-- A call that leaves the traffic of one side alone. -/
theorem Simulates.setEndpoint (h : l.Simulates s) {e : Side} {p : Endpoint} (hsound : p.Sound)
    (hsame : (l.endpoint e).SameTraffic p) : (l.setEndpoint e p).Simulates s where
  shown := by
    intro e'
    by_cases he : e' = e
    · subst he
      have he' := h.shown e'
      simp only [Link.setEndpoint, Function.update_self]
      exact ⟨hsound, hsame.outbox.trans he'.outbox, hsame.ackState ▸ he'.represents, he'.sent_eq,
        he'.mem_accepted, he'.acked_eq, hsame.packetsAcked.trans he'.packetsAcked⟩
    · simp only [Link.setEndpoint, Function.update_of_ne he]
      exact h.shown e'
  agree := h.agree
  net := h.net
  origin := h.origin

/-- **A visit** is a series of sends of one party. -/
theorem Simulates.visitPacketsToSend (h : l.Simulates s) {e : Side} {p : Endpoint}
    {packets : List (List UInt8)} (hvisit : (l.endpoint e).visitPacketsToSend = .ok (p, packets)) :
    ∃ p', Sends 350 7 (s e) p' ∧
      ((l.setEndpoint e p).launch e packets).Simulates (Function.update s e p') := by
  have he := h.shown e
  have hother := h.shown e.other
  have hagree := h.agree e
  have hagree' := h.agree e.other
  rw [Side.other_other] at hagree'
  obtain ⟨-, es, e₁, e', r, hcompose, hall, hsound₁, hstop⟩ | ⟨-, e', hcompose⟩ :=
    Endpoint.composePackets_spec he.sound
  · obtain ⟨p', hsends, hrep', hsent, hout, hacked, hshows⟩ :=
      hall.sends e he.represents hagree hagree'
    obtain ⟨hp, hq⟩ := hsends.agree hagree hagree'
    have hend : e' = e₁ ∧ (r = .ok () ∨ r = .error (.backpressure .tooManyPending)) := by
      cases hstop with
      | done _ => exact ⟨rfl, Or.inl rfl⟩
      | unacked _ => exact ⟨rfl, Or.inr rfl⟩
      | acks pool hmany =>
        have := (counters_of_represents hrep' hp hq).2.2.2
        exact absurd hmany (UInt16.not_lt.mpr this)
    obtain ⟨rfl, hr⟩ := hend
    have hres : p = { e' with outbox := [], pool := e'.pool.returnBuffers e'.outbox } ∧
        packets = es.map Emission.bytes := by
      rw [he.outbox] at hout
      rcases hr with rfl | rfl <;>
      · simp only [Endpoint.visitPacketsToSend, hcompose, Except.ok.injEq, Prod.mk.injEq] at hvisit
        exact ⟨hvisit.1.symm, hvisit.2.symm.trans hout⟩
    obtain ⟨rfl, rfl⟩ := hres
    obtain ⟨hreceived, -, hackedFrame, hle, hreport⟩ := hsends.frame
    refine ⟨p', hsends, ⟨?_, agree_update hp hq, ?_, ?_⟩⟩
    · intro e''
      by_cases hee : e'' = e
      · subst hee
        simp only [Link.launch, Link.setEndpoint, Function.update_self]
        refine ⟨⟨hsound₁.config, hsound₁.salt, hsound₁.channels,
          hsound₁.sentLen, hsound₁.receivedLen,
          hsound₁.handlesLen⟩, rfl, hrep', ?_, ?_, ?_, hacked.trans he.packetsAcked⟩
        · rw [hsent, he.sent_eq, List.length_map]
        · intro y
          rw [he.mem_accepted, hreceived]
        · rw [he.acked_eq, hackedFrame]
      · simp only [Link.launch, Link.setEndpoint, Function.update_of_ne hee]
        exact h.shown e''
    · intro f hf
      rcases List.mem_append.mp hf with hf | hf
      · exact (h.net f hf).update hle hreport
      · rw [(Link.mem_flights hf).1, Function.update_self]
        refine hshows f ?_
        have hother' : l.sent e.other = (s e.other).sent := hother.sent_eq
        have hsent' : l.sent e = (s e).sent := he.sent_eq
        rw [← hother', ← hsent']
        exact hf
    · intro e'' x hx
      obtain ⟨f, hf, hfs⟩ := h.origin e'' x hx
      exact ⟨f, List.mem_append_left _ hf, hfs⟩
  · simp only [Endpoint.visitPacketsToSend, hcompose] at hvisit
    cases hvisit

/-- **A delivery** changes nothing that matters, or a party receives the packet. -/
theorem Simulates.deliver (h : l.Simulates s) {f : Flight} (hmem : f ∈ l.net) (htimely : l.Timely f)
    (hstep : l.step (.deliver f) = .ok l') :
    l'.Simulates s ∨
      ((∃ packet rest, readPacket f.bytes = .ok (packet, rest) ∧
          (l.endpoint f.source.other).accepts packet.header = true) ∧
        l'.Simulates (Function.update s f.source.other
          ((s f.source.other).receive 512 f.number ((s f.source).report f.number).acks))) := by
  have hflight := h.net f hmem
  obtain ⟨packet, rest, hread, hid, hcarries⟩ := hflight.read
  have he := h.shown f.source.other
  have hsource := h.shown f.source
  have hq := h.agree f.source
  have hp := h.agree f.source.other
  rw [Side.other_other] at hp
  have hin : InTime (s f.source.other) (s f.source) f.number f.stamp := by
    have h₁ := htimely.1
    have h₂ := htimely.2
    rw [hsource.sent_eq] at h₁
    rw [he.sent_eq] at h₂
    exact ⟨hflight.pos, hflight.le_sent, h₁, h₂, hflight.stamp_le⟩
  simp only [Link.step, hread] at hstep
  split at hstep
  · cases hstep
  · next p r hproc =>
    cases hstep
    obtain ⟨hsound, hout, hackedCount⟩ := Endpoint.sound_processIncomingPacket he.sound hproc
    have haccepts := he.represents.accepted_iff hp hq hin
    obtain ⟨hstale, -, hsame⟩ | ⟨hdup, -, hsame⟩ | ⟨hcheck, hnew, -, receivedMeta, rb, hrb, hack⟩ :=
      Endpoint.processIncomingPacket_cases hproc
    · left
      have hno : (l.endpoint f.source.other).accepts packet.header = false := by
        simp [Endpoint.accepts, hstale]
      rw [hno]
      refine h.setEndpoint hsound ⟨by rw [hsame]; rfl, hout, ?_⟩
      rw [hackedCount]
      simp [hstale]
    · left
      have hno : (l.endpoint f.source.other).accepts packet.header = false := by
        simp [Endpoint.accepts, hdup]
      rw [hno]
      refine h.setEndpoint hsound ⟨by rw [hsame]; rfl, hout, ?_⟩
      rw [hackedCount]
      simp [hdup]
    · right
      have hyes : (l.endpoint f.source.other).accepts packet.header = true := by
        simp [Endpoint.accepts, hcheck, hnew]
      rw [hid] at hcheck hnew hrb
      obtain ⟨hwin, -⟩ := haccepts.mp ⟨hcheck, hnew⟩
      refine ⟨⟨packet, rest, hread, hyes⟩, ?_⟩
      obtain ⟨hrep, hackedList⟩ := he.represents.receive hp hq hin hcarries hwin hrb
      have hsameTraffic := Party.sameTraffic_foldl (W := 512)
        ((s f.source).report f.number).acks { s f.source.other with
          received := insert f.number (s f.source.other).received
          top := max (s f.source.other).top f.number }
      rw [hyes, if_pos rfl]
      have hp' := hp.receive (W := 512) (by norm_num) hq hflight.pos hflight.le_sent
      have hq' : Agree 350 7 (s f.source)
          ((s f.source.other).receive 512 f.number ((s f.source).report f.number).acks) :=
        hq.receive_peer
      refine ⟨?_, ?_, ?_, ?_⟩
      · intro e
        by_cases hee : e = f.source.other
        · subst hee
          simp only [Link.setEndpoint, Link.recordAccept, Function.update_self]
          rw [AckState.newAcks_receivedBuffer] at hackedList
          have hsent : l.sent f.source.other
              = ((s f.source.other).receive 512 f.number
                ((s f.source).report f.number).acks).sent :=
            he.sent_eq.trans hsameTraffic.sent.symm
          refine ⟨hsound, hout.trans he.outbox, hack ▸ hrep, hsent, ?_, ?_, ?_⟩
          · intro y
            have hreceived : ((s f.source.other).receive 512 f.number
                ((s f.source).report f.number).acks).received
                  = insert f.number (s f.source.other).received := hsameTraffic.received
            rw [hreceived, List.mem_append, List.mem_singleton,
              Set.mem_insert_iff, he.mem_accepted, or_comm]
          · rw [hackedList, he.acked_eq, he.sent_eq]
          · rw [hackedCount, he.packetsAcked, List.length_append,
              List.length_map, hid, hcheck, hnew]
            rfl
        · simp only [Link.setEndpoint, Link.recordAccept, Function.update_of_ne hee]
          exact h.shown e
      · refine agree_update ?_ ?_
        · rw [Side.other_other]
          exact hp'
        · rw [Side.other_other]
          exact hq'
      · intro f' hf'
        have hold : f' ∈ l.net := hf'
        exact (h.net f' hold).update hsameTraffic.sent.ge fun n _ => by
          have hr := congrFun hsameTraffic.report n
          exact hr
      · intro e x hx
        by_cases hee : e = f.source.other
        · subst hee
          simp only [Link.setEndpoint, Link.recordAccept, Function.update_self] at hx
          rcases List.mem_append.mp hx with hx | hx
          · exact h.origin _ x hx
          · refine ⟨f, hmem, by simp, (List.mem_singleton.mp hx).symm⟩
        · simp only [Link.setEndpoint, Link.recordAccept, Function.update_of_ne hee] at hx
          exact h.origin e x hx

/-- **One step.** Every permitted call keeps the link simulating two parties that agree. -/
theorem simulates_step (h : l.Simulates s) {c : Call} (hc : l.Permits c)
    (hstep : l.step c = .ok l') :
    ∃ s', l'.Simulates s' := by
  cases c with
  | sendMessage e channel payload =>
    simp only [Link.step] at hstep
    split at hstep
    · cases hstep
    · next p res hcall =>
      cases hstep
      obtain ⟨hsound, hsame⟩ := Endpoint.sound_sendMessage (h.shown e).sound hcall
      have h' := h.setEndpoint hsound hsame
      exact ⟨s, h'.shown, h'.agree, h'.net, h'.origin⟩
  | update e dt =>
    cases hstep
    obtain ⟨hsound, hsame⟩ := Endpoint.sound_update (h.shown e).sound dt
    exact ⟨s, h.setEndpoint hsound hsame⟩
  | visitPacketsToSend e =>
    simp only [Link.step] at hstep
    split at hstep
    · cases hstep
    · next p packets hcall =>
      cases hstep
      obtain ⟨p', -, h'⟩ := h.visitPacketsToSend hcall
      exact ⟨_, h'⟩
  | deliver f =>
    obtain h' | ⟨-, h'⟩ := h.deliver hc.1 hc.2 hstep
    · exact ⟨s, h'⟩
    · exact ⟨_, h'⟩
  | sendKeepAlive e clientIndex => exact hc.elim

/-- **Whole runs.** -/
theorem exists_simulates (h : Reachable Permits l) : ∃ s, l.Simulates s := by
  refine Reachable.invariant (I := fun l => ∃ s, l.Simulates s) ?_ ?_ h
  · exact fun overflowChecks time salt => ⟨_, simulates_start overflowChecks time salt⟩
  · rintro l l' c - ⟨s, hs⟩ hc hstep
    exact simulates_step hs hc hstep

/-! ### What follows for the endpoints -/

/-- Neither counter of packets passes 350. -/
theorem counters_le (h : Reachable Permits l) (e : Side) :
    (l.endpoint e).sentUnackedPackets ≤ maxUnackedPackets ∧
      (l.endpoint e).receivedUnackedPackets ≤ maxUnackedPackets := by
  obtain ⟨s, hs⟩ := exists_simulates h
  have hp := hs.agree e
  have hq := hs.agree e.other
  rw [Side.other_other] at hq
  obtain ⟨-, -, hcounters⟩ := counters_of_represents (hs.shown e).represents hp hq
  exact hcounters

/-- Packets that are acked were sent and accepted. -/
theorem accepted_of_acked (h : Reachable Permits l) {e : Side} {n : ℕ} (hn : n ∈ l.acked e) :
    1 ≤ n ∧ n ≤ l.sent e ∧ n ∈ l.accepted e.other := by
  obtain ⟨s, hs⟩ := exists_simulates h
  have he := hs.shown e
  have hq := hs.agree e.other
  rw [Side.other_other] at hq
  rw [he.acked_eq] at hn
  have hreceived := (hs.agree e).acked_received n hn
  have hle := hq.received_le n hreceived
  rw [he.sent_eq, (hs.shown e.other).mem_accepted]
  exact ⟨hle.1, hle.2, hreceived⟩

/-- The record of one of the last 512 packets. -/
theorem exists_sentMeta (h : Reachable Permits l) (e : Side) {n : ℕ}
    (hpos : 1 ≤ n) (hle : n ≤ l.sent e)
    (hlast : l.sent e < n + 512) :
    ∃ sentMeta, (l.endpoint e).sentBuffer.get (wrap n) = some sentMeta ∧
      (sentMeta.acked = true ↔ n ∈ l.acked e) := by
  obtain ⟨s, hs⟩ := exists_simulates h
  have he := hs.shown e
  rw [he.sent_eq] at hle hlast
  obtain ⟨sentMeta, hget, -, hacked⟩ := he.represents.sentMeta hpos hle hlast
  rw [he.acked_eq]
  exact ⟨sentMeta, hget, hacked⟩

/-- **Flow-control agreement.** In every state of every run, each endpoint has at most 350 packets
sent and unacked and at most 350 received and not known to be acked. So a header can always be made,
and its ack field reaches back to the watermark. -/
theorem unacked_packets_le (h : Reachable Permits l) (e : Side) :
    (l.endpoint e).sentUnackedPackets ≤ maxUnackedPackets ∧
      (l.endpoint e).receivedUnackedPackets ≤ maxUnackedPackets ∧
      ∀ packetType, ∃ p header,
        (l.endpoint e).nextPacketHeader packetType = .ok (p, .ok header) ∧
        ∀ k < (l.endpoint e).receivedUnackedPackets.toNat, ∃ bit,
          ((l.endpoint e).receivedBuffer.sequence - UInt16.ofNat k, bit) ∈ header.acks.getD [] := by
  obtain ⟨hsent, hreceived⟩ := counters_le h e
  refine ⟨hsent, hreceived, fun packetType => ?_⟩
  have hn : (l.endpoint e).receivedUnackedPackets.toNat ≤ 350 := by
    rw [UInt16.le_iff_toNat_le] at hreceived
    exact hreceived
  obtain ⟨header, hheader⟩ := ProtocolPacketHeader.exists_new ((l.endpoint e).sequenceId + 1)
    (l.endpoint e).receivedBuffer hn packetType
  refine ⟨_, header, Endpoint.nextPacketHeader_of_le (UInt16.not_lt.mpr hreceived) hheader, ?_⟩
  intro k hk
  have hne : (l.endpoint e).receivedUnackedPackets ≠ 0 := by
    intro hzero
    rw [hzero] at hk
    cases hk
  rw [ProtocolPacketHeader.acks_of_new hn hheader, ProtocolPacketHeader.acksFor, if_neg hne,
    Option.getD_some]
  refine ⟨_, List.mem_map.mpr ⟨k, List.mem_range.mpr ?_, rfl⟩⟩
  rw [ceilDiv7]
  omega

/-- A short exchange: the second packet of the left side arrives before the first, and in between
the right side sends a packet of its own. -/
def exchange : List (Link → Call) := [
  fun _ => .sendMessage .left 0 [1], fun _ => .visitPacketsToSend .left,
  fun _ => .sendMessage .left 0 [2], fun _ => .visitPacketsToSend .left, deliverAt 1,
  fun _ => .sendMessage .right 0 [3], fun _ => .visitPacketsToSend .right, deliverAt 0, deliverAt 2,
  fun _ => .sendMessage .left 0 [4], fun _ => .visitPacketsToSend .left, deliverAt 3]

/-- The exchange between two new endpoints. -/
def exchanged : Option Link := (start (fun _ => true) (fun _ => 1) fun _ => 7).run Permits exchange

theorem unacked_packets_le_exchange : ∃ l, exchanged = some l ∧
    (l.endpoint .left).sentUnackedPackets ≤ maxUnackedPackets ∧
      (l.endpoint .right).receivedUnackedPackets ≤ maxUnackedPackets := by
  have hsome : exchanged.isSome = true := by decide +kernel
  obtain ⟨l, hl⟩ := Option.isSome_iff_exists.mp hsome
  have hreach : Reachable Permits l := reachable_of_run (.start _ _ _) hl
  exact ⟨l, hl, (unacked_packets_le hreach .left).1, (unacked_packets_le hreach .right).2.1⟩

/-- **Packet acks are sound.** The packets for which a side has set `acked` are packets it sent and
its peer has accepted, each of them only once, as often as `packets_acked` says; and as long as a
packet is among the last 512, its record says whether it is one of them. -/
theorem acked_accepted (h : Reachable Permits l) (e : Side) :
    (∀ n ∈ l.acked e, 1 ≤ n ∧ n ≤ l.sent e ∧ n ∈ l.accepted e.other) ∧ (l.acked e).Nodup ∧
      (l.endpoint e).stats.packetsAcked = (l.acked e).length ∧
      ∀ n, 1 ≤ n → n ≤ l.sent e → l.sent e < n + 512 →
        ∃ sentMeta, (l.endpoint e).sentBuffer.get (wrap n) = some sentMeta ∧
          (sentMeta.acked = true ↔ n ∈ l.acked e) := by
  obtain ⟨s, hs⟩ := exists_simulates h
  have he := hs.shown e
  refine ⟨fun n hn => accepted_of_acked h hn, ?_, he.packetsAcked, fun n hpos hle hlast =>
    exists_sentMeta h e hpos hle hlast⟩
  rw [he.acked_eq]
  exact (hs.agree e).tidy.nodup

theorem acked_accepted_exchange : ∃ l, exchanged = some l ∧ l.acked .left = [2] ∧
    2 ∈ l.accepted .right ∧ (l.acked .left).Nodup := by
  have hacked : exchanged.map (fun l => l.acked .left) = some [2] := by decide +kernel
  obtain ⟨l, hl, hleft⟩ := Option.map_eq_some_iff.mp hacked
  have h := acked_accepted (reachable_of_run (.start _ _ _) hl) .left
  exact ⟨l, hl, hleft, (h.1 2 (hleft ▸ List.mem_singleton_self 2)).2.2, h.2.1⟩

end Link

end Pickleback
