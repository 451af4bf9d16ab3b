import Pickleback.FlowControl

/-!
# The ack watermark

`ack_low_watermark` moves to the newest packet that an acked packet of ours had reported. That
packet's ack field may have gaps: a packet that was still missing when it was sent and has come in
since lies below the watermark without having been reported. A header acks from above the watermark
on; only the rounding of its ack field to whole bytes can still reach down to that packet.

The watermark is sound in the runs where no packet comes in below what was already reported.

## Main definitions

* `Link.Reported` — the peer has processed a header in which the ack bit of an id is set
* `Link.PermitsInOrder` — no packet is accepted below what was already reported

## Main results

* `reported_of_watermark` — in those runs everything up to the watermark was reported
* `not_reported_late` — a run in which it was not
-/

namespace Pickleback

open Serial AckProtocol

namespace Link

/-- The peer of `e` has accepted a packet of `e` whose header acks `id`. -/
def Reported (l : Link) (e : Side) (id : PacketId) : Prop :=
  ∃ f ∈ l.net, f.source = e ∧ f.number ∈ l.accepted e.other ∧
    ∃ packet rest, readPacket f.bytes = .ok (packet, rest) ∧ (id, true) ∈ packet.header.acks.getD []

/-- Everything up to the watermark of `e` that it has accepted and that is inside its window was
reported. -/
def WatermarkReported (l : Link) (e : Side) : Prop :=
  ∀ w, (l.endpoint e).ackLowWatermark = some w → ∀ id,
    (l.endpoint e).receivedBuffer.checkSequence id = true →
    (l.endpoint e).receivedBuffer.existsSequence id = true →
    SequenceBuffer.sequenceGreaterThan id w = false → l.Reported e id

/-- A packet comes in above everything that side `e` has reported: it is refused, or newer than what
the latest packet of `e` acked up to. -/
def inOrder (l : Link) (e : Side) (f : Flight) : Bool :=
  match readPacket f.bytes with
  | .error _ => true
  | .ok (packet, _) => !(l.endpoint e).accepts packet.header ||
    ((l.endpoint e).sentBuffer.get (l.endpoint e).sequenceId).all fun sentMeta =>
      SequenceBuffer.sequenceGreaterThan packet.header.id sentMeta.ackedUpTo

/-- The calls of an application over a network that delivers nothing too late, and to side `e`
nothing out of order across a packet of `e`. -/
def PermitsInOrder (e : Side) (l : Link) (c : Call) : Prop :=
  l.Permits c ∧ match c with
    | .deliver f => f.source = e.other → l.inOrder e f = true
    | _ => True

instance (e : Side) (l : Link) (c : Call) : Decidable (PermitsInOrder e l c) :=
  match c with
  | .deliver f => inferInstanceAs (Decidable (l.Permits (.deliver f) ∧ (_ = _ → _ = _)))
  | .sendKeepAlive _ _ => isFalse fun h => h.1
  | .sendMessage .. | .update .. | .visitPacketsToSend _ => isTrue ⟨trivial, trivial⟩

variable {l l' : Link} {s : Side → Party}

/-- What is in order for the endpoint is in order for the party. -/
theorem Simulates.upTo_lt (h : l.Simulates s) {f : Flight} (hmem : f ∈ l.net) (htimely : l.Timely f)
    (horder : l.inOrder f.source.other f = true) {packet : ProtocolPacket} {rest : List UInt8}
    (hread : readPacket f.bytes = .ok (packet, rest))
    (haccepts : (l.endpoint f.source.other).accepts packet.header = true) :
    (s f.source.other).upTo (s f.source.other).sent < f.number := by
  have hflight := h.net f hmem
  have he := h.shown f.source.other
  have hq := h.agree f.source
  have hp := h.agree f.source.other
  rw [Side.other_other] at hp
  have hpos := hflight.pos
  rcases Nat.eq_zero_or_pos (s f.source.other).sent with hzero | hsent
  · rw [hzero, hp.upTo_zero]
    exact hpos
  · obtain ⟨sentMeta, hget, hmeta, -⟩ := he.represents.sentMeta hsent le_rfl (by omega)
    have hseq : (l.endpoint f.source.other).sequenceId = wrap (s f.source.other).sent :=
      he.represents.sequenceId
    have hget' : (l.endpoint f.source.other).sentBuffer.get (l.endpoint f.source.other).sequenceId
        = some sentMeta := by
      rw [hseq]
      exact hget
    have hnewer : SequenceBuffer.sequenceGreaterThan packet.header.id sentMeta.ackedUpTo =
      true := by
      simpa [inOrder, hread, hget', haccepts] using horder
    obtain ⟨packet', rest', hread', hid, -⟩ := hflight.read
    rw [hread, Except.ok.injEq, Prod.mk.injEq] at hread'
    rw [hread'.1, hid, hmeta] at hnewer
    have hup := hp.upTo_le (le_refl (s f.source.other).sent)
    have htop := hp.top_le
    have hsource := htimely.1
    rw [(h.shown f.source).sent_eq] at hsource
    have hle := hflight.le_sent
    -- the sender is within 350 packets of what was last reported to it
    have hunacked := hq.unacked_le
    rw [hq.newest_eq] at hunacked
    have hmono := hp.mono hq.top_le le_rfl
    have hiff := SequenceBuffer.sequenceGreaterThan_iff_of_lifts (lifts_wrap f.number)
      (lifts_wrap ((s f.source.other).upTo (s f.source.other).sent)) (by omega) (by omega)
    have := hiff.mp hnewer
    omega

/-- **One step.** As long as side `e` accepts in order, its reports miss nothing. -/
theorem reported_step {e : Side} (h : l.Simulates s) (hr : AckProtocol.Reported (s e) (s e.other))
    {c : Call} (hc : PermitsInOrder e l c) (hstep : l.step c = .ok l') :
    ∃ s', l'.Simulates s' ∧ AckProtocol.Reported (s' e) (s' e.other) := by
  have hp := h.agree e
  have hq := h.agree e.other
  rw [Side.other_other] at hq
  obtain ⟨hpermits, horder⟩ := hc
  cases c with
  | sendMessage e' channel payload =>
    simp only [Link.step] at hstep
    split at hstep
    · cases hstep
    · next p res hcall =>
      cases hstep
      obtain ⟨hsound, hsame⟩ := Endpoint.sound_sendMessage (h.shown e').sound hcall
      have h' := h.setEndpoint hsound hsame
      exact ⟨s, ⟨h'.shown, h'.agree, h'.net, h'.origin⟩, hr⟩
  | update e' dt =>
    cases hstep
    obtain ⟨hsound, hsame⟩ := Endpoint.sound_update (h.shown e').sound dt
    exact ⟨s, h.setEndpoint hsound hsame, hr⟩
  | visitPacketsToSend e' =>
    simp only [Link.step] at hstep
    split at hstep
    · cases hstep
    · next p packets hcall =>
      cases hstep
      obtain ⟨p', hsends, h'⟩ := h.visitPacketsToSend hcall
      refine ⟨_, h', ?_⟩
      rcases Side.eq_or_eq_other e e' with rfl | rfl
      · rw [Function.update_self, Function.update_of_ne e'.other_ne]
        exact AckProtocol.Reported.sends hsends hp hq hr
      · rw [Function.update_self, Function.update_of_ne e.other_ne.symm]
        exact AckProtocol.Reported.sends_peer hsends hq hp hr
  | deliver f =>
    obtain h' | ⟨⟨packet, rest, hread, haccepts⟩, h'⟩ := h.deliver hpermits.1 hpermits.2 hstep
    · exact ⟨s, h', hr⟩
    refine ⟨_, h', ?_⟩
    rcases Side.eq_or_eq_other e f.source with hsrc | hsrc
    · -- the packet went to the other side
      rw [hsrc, Function.update_self, Function.update_of_ne e.other_ne.symm]
      exact AckProtocol.Reported.receive_peer hr
    · obtain rfl : e = f.source.other := by rw [hsrc, Side.other_other]
      have hlt := h.upTo_lt hpermits.1 hpermits.2 (horder hsrc) hread haccepts
      rw [Side.other_other] at hp hr ⊢
      rw [Function.update_self, Function.update_of_ne f.source.other_ne.symm]
      exact AckProtocol.Reported.receive hp hlt hr
  | sendKeepAlive e' clientIndex => exact hpermits.elim

/-- **The watermark is sound** in every run in which side `e` accepts no packet that is at or below
what one of its packets has already reported: whatever `e` has accepted up to its watermark, inside
its window, was acked in a header that the peer has processed. -/
theorem reported_of_watermark {e : Side} (h : Reachable (PermitsInOrder e) l) :
    l.WatermarkReported e := by
  obtain ⟨s, hs, hr⟩ : ∃ s, l.Simulates s ∧ AckProtocol.Reported (s e) (s e.other) := by
    refine Reachable.invariant
      (I := fun l => ∃ s, l.Simulates s ∧ AckProtocol.Reported (s e) (s e.other)) ?_ ?_ h
    · intro overflowChecks time salt
      exact ⟨_, simulates_start overflowChecks time salt, AckProtocol.Reported.start⟩
    · rintro l l' c - ⟨s, hs, hr⟩ hc hstep
      exact reported_step hs hr hc hstep
  have hp := hs.agree e
  have hq := hs.agree e.other
  rw [Side.other_other] at hq
  have he := hs.shown e
  intro w hw id hcheck hexists hle
  have hring : (l.endpoint e).receivedBuffer.Ring (s e).top (s e).received := he.represents.received
  -- the id is that of an accepted packet at or below the watermark
  obtain ⟨y, hy, rfl, -, hyoung⟩ := hring.young _ _ (SequenceBuffer.existsSequence_iff.mp hexists)
  obtain ⟨hyTop, hage⟩ := hyoung
  have hwLow : w = wrap (s e).low := by
    rcases he.represents.low with ⟨hnone, -⟩ | hsome
    · exact absurd (hw.symm.trans hnone) (by simp)
    · exact Option.some.inj (hw.symm.trans hsome)
  have hunreported := hp.unreported_le hq
  have hlow : (s e).low ≤ (s e).top := by
    rw [hp.tidy.low]
    exact hp.upTo_le (hp.newest_le_sent hq)
  have hyLow : y ≤ (s e).low := by
    have hiff := SequenceBuffer.sequenceGreaterThan_iff_of_lifts
      (lifts_wrap y) (lifts_wrap (s e).low)
      (by omega) (by omega)
    by_contra hlt
    rw [hwLow, hiff.mpr (by omega)] at hle
    cases hle
  -- so the protocol has a packet that reported it, and the network that packet
  obtain ⟨z, hz, hack⟩ := AckProtocol.Reported.exists_report hp hq hr hy hyLow
  rw [← (hs.shown e.other).mem_accepted] at hz
  obtain ⟨f, hf, hsource, rfl⟩ := hs.origin e.other z hz
  rw [Side.other_other] at hsource
  obtain ⟨packet, rest, hread, -, hcarries⟩ := (hs.net f hf).read
  refine ⟨f, hf, hsource, hz, packet, rest, hread, ?_⟩
  rw [hsource] at hcarries
  have hmem : wrap (y : ℤ) ∈ ((packet.header.acks.getD []).filter Prod.snd).map Prod.fst := by
    rw [hcarries]
    exact List.mem_map_of_mem hack
  obtain ⟨⟨id, bit⟩, hitem, hid⟩ := List.mem_map.mp hmem
  obtain ⟨hitem, hbit⟩ := List.mem_filter.mp hitem
  simp only at hid hbit
  rw [← hid, ← hbit]
  exact hitem

/-- The exchange with its packets in order. -/
def exchangeInOrder : List (Link → Call) := [
  fun _ => .sendMessage .left 0 [1], fun _ => .visitPacketsToSend .left, deliverAt 0,
  fun _ => .sendMessage .right 0 [3], fun _ => .visitPacketsToSend .right, deliverAt 1,
  fun _ => .sendMessage .left 0 [4], fun _ => .visitPacketsToSend .left, deliverAt 2]

theorem reported_of_watermark_exchange :
    ∃ l, (start (fun _ => true) (fun _ => 1) fun _ => 7).run (PermitsInOrder .right) exchangeInOrder
        = some l ∧ (l.endpoint .right).ackLowWatermark = some 1 ∧ l.WatermarkReported .right := by
  have hrun : ((start (fun _ => true) (fun _ => 1) fun _ => 7).run (PermitsInOrder .right)
      exchangeInOrder).map (fun l => (l.endpoint .right).ackLowWatermark) = some (some 1) := by
    decide +kernel
  obtain ⟨l, hl, hmark⟩ := Option.map_eq_some_iff.mp hrun
  exact ⟨l, hl, hmark, reported_of_watermark (reachable_of_run (.start _ _ _) hl)⟩

/-- Whether some packet of side `e` acks `id`, whoever has received it. -/
def acksAnywhere (l : Link) (e : Side) (id : PacketId) : Bool :=
  l.net.any fun f => f.source == e && match readPacket f.bytes with
    | .ok (packet, _) => (packet.header.acks.getD []).contains (id, true)
    | .error _ => false

theorem not_reported_of_acksAnywhere {e : Side} {id : PacketId} (h : l.acksAnywhere e id = false) :
    ¬ l.Reported e id := by
  rintro ⟨f, hf, hsource, -, packet, rest, hread, hack⟩
  rw [acksAnywhere, List.any_eq_false] at h
  have := h f hf
  simp [hsource, hread, hack] at this

/-- Four packets, none of them late by more than one: the watermark of the right side is at 2, it
has accepted packet 1, and no packet it ever sent acks 1. -/
theorem not_reported_late : ¬ ∀ l, Reachable Permits l → ∀ e, l.WatermarkReported e := by
  intro hall
  have hrun : exchanged.map (fun l => ((l.endpoint .right).ackLowWatermark,
      (l.endpoint .right).receivedBuffer.checkSequence 1,
      (l.endpoint .right).receivedBuffer.existsSequence 1, l.acksAnywhere .right 1))
        = some (some 2, true, true, false) := by decide +kernel
  obtain ⟨l, hl, heq⟩ := Option.map_eq_some_iff.mp hrun
  simp only [Prod.mk.injEq] at heq
  obtain ⟨hmark, hcheck, hexists, hnone⟩ := heq
  have hreach : Reachable Permits l := reachable_of_run (.start _ _ _) hl
  exact not_reported_of_acksAnywhere hnone
    (hall l hreach .right 2 hmark 1 hcheck hexists (by decide))

end Link

end Pickleback
