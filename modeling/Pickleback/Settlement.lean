import Pickleback.Progress

/-!
# Acked packets and the queue

An acked packet leaves nothing in the queue of the reliable channel: its messages were dismissed
when its ack came in, and no message with one of their ids is queued again in a short session. So
once all packets of a visit that has left nothing to send are acked, everything that was queued
before that visit is reported to the application.

## Main definitions

* `Link.Settled` — the messages of an acked packet do not wait

## Main results

* `Link.settled_step` — one call
* `Link.ackInbox_of_visit` — progress of the acks
-/

namespace Pickleback

open Serial AckProtocol

/-- A packet that is acked for the first time was not acked before. -/
theorem AckState.unacked_of_mem_newAcks {a : AckState} {acks : List (UInt16 × Bool)} {id : UInt16}
    (hmem : id ∈ a.newAcks acks) : ∃ sentMeta, a.sentBuffer.get id = some sentMeta ∧
      sentMeta.acked = false := by
  induction acks generalizing a with
  | nil => cases hmem
  | cons ack rest ih =>
    rw [newAcks, List.mem_append] at hmem
    rcases hmem with hmem | hmem
    · split at hmem
      · next hsets =>
        obtain rfl := List.mem_singleton.mp hmem
        rw [setsAcked, Bool.and_eq_true] at hsets
        obtain ⟨sentMeta, hget, hnew⟩ := (Option.any_eq_true _ _).mp hsets.2
        exact ⟨sentMeta, hget, by simpa using hnew⟩
      · cases hmem
    · obtain ⟨sentMeta, hget, hnew⟩ := ih hmem
      rw [processAck] at hget
      split at hget
      · exact ⟨sentMeta, hget, hnew⟩
      · split at hget
        · exact ⟨sentMeta, hget, hnew⟩
        · next sentMeta' hget' =>
          split at hget
          · exact ⟨sentMeta, hget, hnew⟩
          · rw [SequenceBuffer.get_setEntry hget'] at hget
            split at hget
            · cases hget
              cases hnew
            · exact ⟨sentMeta, hget, hnew⟩

namespace Link

open MessageDispatcher

variable {l l₁ l' : Link} {e : Side}

/-- Of the messages that were queued before a call, none waits afterwards that has not waited. -/
theorem waiting_step (hl : Reachable PermitsFew l) {c : Call} (hc : l.PermitsFew c)
    (hstep : l.step c = .ok l')
    {s : SendCall} (hs : s ∈ l.queuedBy e) {content : MessageContent}
    (hcontent : content ∈ s.contents)
    (hwaits : content.id ∈ (l'.endpoint e).channels.waiting) :
    content.id ∈ (l.endpoint e).channels.waiting := by
  obtain ⟨hfaithful, -⟩ := hl.short.1.attested
  have hintact : ∀ e, (l.endpoint e).Intact := fun e => (hfaithful e).1.intact
  have hreliable := (hl.owes e).reliable
  have hshort' := (hl.step hc hstep).short.2
  have hsame : ∀ cs : ChannelList, cs.reliableQueue = (l.endpoint e).channels.reliableQueue →
      (l'.endpoint e).channels = cs → content.id ∈ (l.endpoint e).channels.waiting := by
    intro cs hqueue hchannels
    rw [hchannels, ChannelList.waiting, hqueue] at hwaits
    exact hwaits
  cases c with
  | sendMessage e₀ channel payload =>
    simp only [step] at hstep
    split at hstep
    · cases hstep
    · next p res hcall =>
      cases hstep
      rcases e₀.eq_or_eq_other e with rfl | rfl
      · obtain ⟨-, -, hp⟩ | ⟨-, henqueues, -, ch, ms, hch, hblock, -, hp⟩ :=
          Endpoint.sendMessage_takes_cases (hintact e) hcall (l.endpoint e).dispatcher.nextMessageId
        · refine hsame (l.endpoint e).channels rfl ?_
          simp only [setEndpoint, Function.update_self]
          rw [hp]
        · have hcalls := (hshort' e).calls
          rw [queuedBy] at hcalls
          dsimp only at hcalls
          rw [Function.update_self, List.filter_append, List.filter_cons_of_pos henqueues,
            List.filter_nil] at hcalls
          have hchannels : p.channels = (l.endpoint e).channels.set channel (ch.pushAll ms) := by
            rw [hp]
          simp only [setEndpoint, Function.update_self] at hwaits
          rw [hchannels] at hwaits
          exact (waiting_pushAll_of_mem hcalls hch hblock hs hcontent).mp hwaits
      · exact hsame (l.endpoint e₀.other).channels rfl (by simp [setEndpoint])
  | update e₀ dt =>
    cases hstep
    rcases e₀.eq_or_eq_other e with rfl | rfl
    · exact hsame _ (Endpoint.Retains.queuedOn_of_sameQueue
        (Endpoint.sameQueue_update (l.endpoint e) dt) hreliable).2
        (by simp [setEndpoint])
    · exact hsame (l.endpoint e₀.other).channels rfl (by simp [setEndpoint])
  | visitPacketsToSend e₀ =>
    simp only [step] at hstep
    split at hstep
    · cases hstep
    · next p packets hcall =>
      cases hstep
      rcases e₀.eq_or_eq_other e with rfl | rfl
      · exact hsame _ (Endpoint.reliableQueue_visitPacketsToSend (hintact e) hreliable hcall).2
          (by simp [launch, setEndpoint])
      · exact hsame (l.endpoint e₀.other).channels rfl (by simp [launch, setEndpoint])
  | deliver f =>
    obtain rfl | ⟨packet, payload, p, res, hdelivers⟩ := exists_delivers hstep
    · exact hwaits
    · rcases f.source.eq_or_eq_other e with rfl | rfl
      · exact hsame _ rfl
          (by rw [hdelivers.endpoint, Function.update_of_ne (Ne.symm f.source.other_ne)])
      · have hsettles := (owes_deliver hl (hl.owes _) hc hstep hdelivers).2
        rw [hdelivers.endpoint, Function.update_self] at hwaits
        exact hsettles.waiting hwaits
  | sendKeepAlive e₀ clientIndex => exact hc.elim

/-- The messages of an acked packet do not wait in the queue of the reliable channel. -/
def Settled (l : Link) (e : Side) : Prop :=
  ∀ f ∈ l.net, f.source = e → f.number ∈ l.acked e → ∀ c ∈ f.contents, c.channel = 1 →
    c.id ∉ (l.endpoint e).channels.waiting

/-- What is acked in a delivery was open before. -/
theorem open_of_acked {f₀ f : Flight} {packet : ProtocolPacket}
    {payload : List UInt8} {p : Endpoint}
    {res : Except PicklebackError Unit} (hl : Reachable Permits l)
    (hdelivers : l.Delivers f₀ packet payload p res l')
    (hsource : f.source = f₀.source.other) (hacked : f.number ∈ l'.acked f.source) :
    f.number ∈ l.acked f.source ∨ l.Open f := by
  by_cases hold : f.number ∈ l.acked f.source
  · exact Or.inl hold
  · refine Or.inr ⟨?_, hold⟩
    obtain ⟨s, hs⟩ := exists_simulates hl
    have hshown := hs.shown f.source
    rw [hsource, hdelivers.acked, ← hsource] at hacked
    rcases List.mem_append.mp hacked with hmem | hmem
    · exact absurd hmem hold
    · split at hmem
      · obtain ⟨id, hid, hnumber⟩ := List.mem_map.mp hmem
        obtain ⟨n, -, hle, hrecent, rfl, -⟩ :=
          hshown.represents.exists_number (AckState.unacked_of_mem_newAcks hid)
        rw [← hshown.sent_eq] at hle hrecent
        rw [latest_wrap hle (by omega)] at hnumber
        rwa [← hnumber]
      · cases hmem

/-- **One call.** -/
theorem settled_step (hl : Reachable PermitsFew l) (h : l.Settled e)
    {c : Call} (hc : l.PermitsFew c)
    (hstep : l.step c = .ok l') : l'.Settled e := by
  obtain ⟨htaken, -⟩ := hl.short
  obtain ⟨hfaithful, hattested⟩ := htaken.attested
  have hpermits : Reachable Permits l := htaken.mono fun _ _ hc => hc.permits
  have hpermits' : Reachable Permits l' := (hl.step hc hstep).short.1.mono fun _ _ hc => hc.permits
  -- a packet that was acked before
  have hbefore : ∀ f ∈ l.net, f.source = e → f.number ∈ l.acked e →
    ∀ content ∈ f.contents, content.channel = 1 →
      content.id ∉ (l'.endpoint e).channels.waiting := by
    intro f hf hsource hacked content hcontent hone hwaits
    obtain ⟨s, hs, hmem⟩ := (hfaithful f.source).1.exists_call hf hcontent
    rw [hsource] at hs
    exact h f hf hsource hacked content hcontent hone (waiting_step hl hc hstep hs hmem hwaits)
  intro f hf hsource hacked
  cases c with
  | sendMessage e₀ channel payload =>
    simp only [step] at hstep
    split at hstep
    · cases hstep
    · cases hstep
      exact hbefore f hf hsource hacked
  | update e₀ dt =>
    cases hstep
    exact hbefore f hf hsource hacked
  | visitPacketsToSend e₀ =>
    simp only [step] at hstep
    split at hstep
    · cases hstep
    · next p packets hcall =>
      cases hstep
      rcases List.mem_append.mp hf with hf | hf
      · exact hbefore f hf hsource hacked
      · -- nobody has acked a packet that is sent only now
        obtain ⟨k, bytes, -, rfl⟩ := exists_getElem?_of_mem_flights hf
        have hle := (accepted_of_acked hpermits (e := e) hacked).2.1
        obtain rfl : e₀ = e := hsource
        dsimp only [setEndpoint] at hle
        omega
  | deliver f₀ =>
    obtain rfl | ⟨packet, payload, p, res, hdelivers⟩ := exists_delivers hstep
    · exact h f hf hsource hacked
    · rw [hdelivers.net] at hf
      rcases f₀.source.eq_or_eq_other e with rfl | rfl
      · rw [hdelivers.acked_source] at hacked
        exact hbefore f hf hsource hacked
      · rw [← hsource] at hacked
        rcases open_of_acked hpermits hdelivers hsource hacked with hold | hopen
        · exact hbefore f hf hsource (hsource ▸ hold)
        · intro content hcontent hone
          have hsettles := (owes_deliver hl (hl.owes _) hc hstep hdelivers).2
          have hhandles := (hattested f.source).handles f hf rfl hopen
          have hunacked := unacked_of_open hpermits hf hopen
          rw [hsource] at hhandles hunacked
          have hown : l'.endpoint f₀.source.other = p := by
            rw [hdelivers.endpoint, Function.update_self]
          rw [hown]
          rcases hsettles.acked _ hunacked with ⟨sentMeta, hget, hnew⟩ | hnone
          · -- its record says that it is acked now
            obtain ⟨hpos, hle⟩ := number_of_mem_net hpermits hf
            obtain ⟨sentMeta', hget', hiff⟩ := exists_sentMeta hpermits' f.source hpos
              (by rw [hdelivers.sent]; exact hle) (by rw [hdelivers.sent]; exact hopen.1)
            rw [hsource, hown, hget] at hget'
            rw [← Option.some.inj hget', hnew] at hiff
            exact absurd (hiff.mpr hacked) Bool.false_ne_true
          · refine hnone content.handle ?_ hone
            rw [hhandles]
            exact List.mem_map_of_mem hcontent
  | sendKeepAlive e₀ clientIndex => exact hc.elim

theorem Reachable.settled (h : Reachable PermitsFew l) (e : Side) : l.Settled e := by
  refine h.invariant (I := fun l => ∀ e, l.Settled e)
    (fun overflowChecks time salt e f hf => ?_) ?_ e
  · cases hf
  · intro l l' c hl hsettled hc hstep e
    exact settled_step hl (hsettled e) hc hstep

/-- In a whole run no message waits that has not waited at its beginning, except those of new
calls. -/
theorem waiting_of_leads (hl : Reachable PermitsFew l) (hrun : Leads PermitsFew l l') {s : SendCall}
    (hs : s ∈ l.queuedBy e) {content : MessageContent} (hcontent : content ∈ s.contents)
    (hwaits : content.id ∈ (l'.endpoint e).channels.waiting) :
    content.id ∈ (l.endpoint e).channels.waiting := by
  induction hrun with
  | refl => exact hwaits
  | tail hrun hstep ih =>
    obtain ⟨c, hc, hstep⟩ := hstep
    have hqueued := (Leads.grows hrun).queuedBy e s hs
    exact ih (waiting_step (hl.leads hrun) hc hstep hqueued hcontent hwaits)

/-- **Progress of the acks**, in every short session. When a call of `visit_packets_to_send` finds
all messages of the reliable channel due and leaves nothing to send, and the packets it has sent are
acked, then the id of every call on the reliable channel that was made before is in the ack
inbox. -/
theorem ackInbox_of_visit (h : Reachable PermitsFew l)
    (hstep : l.step (.visitPacketsToSend e) = .ok l₁)
    (hdue : ∀ ch ∈ (l.endpoint e).channels.get? 1, ch.AllDue)
    (hnone : (l₁.endpoint e).channels.anyWithMessagesToSend = false) (hrun : Leads PermitsFew l₁ l')
    (hacked : ∀ n, l.sent e < n → n ≤ l₁.sent e → n ∈ l'.acked e)
    {s : SendCall} (hs : s ∈ l.queuedBy e)
    (hchannel : s.channel = 1) {id : MessageId} (hresult : s.result = .ok id) :
    id ∈ (l'.endpoint e).dispatcher.ackInbox 1 := by
  have hfull : Leads PermitsFew l l' := .head ⟨.visitPacketsToSend e, trivial, hstep⟩ hrun
  have h' := h.leads hfull
  have hs' : s ∈ l'.queuedBy e := hfull.grows.queuedBy e s hs
  rw [mem_ackInbox_iff h' hs' hchannel hresult]
  intro content hcontent m hm heq
  -- what still waits has waited before, and was sent by the visit
  obtain ⟨ch, hch⟩ := (h.owes e).reliable
  obtain ⟨x, hx, hid⟩ := (ChannelList.mem_waiting_of_hasReliable hch).mp
    (waiting_of_leads h hfull hs hcontent ⟨m, hm, heq⟩)
  obtain ⟨f, hf, hsource, hlt, hle, content', hcontent', hid'⟩ :=
    exists_flight_of_visit h.short.1.attested.1 hstep hnone hch hx (hdue _ hch.1 x hx)
  have hf' := hrun.grows.net f hf
  obtain ⟨s', hs'', hmem⟩ := (h'.short.1.attested.1 f.source).1.exists_call hf' hcontent'
  rw [hsource] at hs''
  obtain rfl := (h'.short.2 e).calls.eq_of_id hs'' hs' hmem hcontent (hid'.trans hid)
  refine h'.settled e f hf' hsource (hacked _ hlt hle) content' hcontent' ?_ ⟨m, hm, heq⟩
  rw [SendCall.channel_of_mem hcontent, hchannel]

/-- The packet of the first visit is lost, the one of the second arrives, and so does its ack. -/
theorem ackInbox_of_visit_resent : ∃ l', Reachable PermitsFew l' ∧
    ∃ s ∈ l'.queuedBy .left, s.payload = [7] ∧
    s.result = .ok 0 ∧ 0 ∈ (l'.endpoint .left).dispatcher.ackInbox 1 := by
  have hrun : (((start (fun _ => true) (fun _ => 1) fun _ => 7).run PermitsFew [
      fun _ => .sendMessage .left 1 [7], fun _ => .visitPacketsToSend .left,
        fun _ => .update .left 1]).any fun l =>
        decide (∀ ch ∈ (l.endpoint .left).channels.get? 1, ch.AllDue) &&
          (l.queuedBy .left).any
            (fun s => decide (s.payload = [7] ∧ s.channel = 1 ∧ s.result.toOption = some 0)) &&
            (l.sent .left == 1) && (l.step (.visitPacketsToSend .left)).toOption.any fun l₁ =>
              !(l₁.endpoint .left).channels.anyWithMessagesToSend && (l₁.sent .left == 2) &&
                (l₁.run PermitsFew [deliverAt 1, fun _ => .sendMessage .right 0 [2],
                  fun _ => .visitPacketsToSend .right, deliverAt 2]).any fun l' =>
                    decide (l'.acked .left = [2])) = true := by
    decide +kernel
  obtain ⟨l, hl, htest⟩ := (Option.any_eq_true _ _).mp hrun
  simp only [Bool.and_eq_true, decide_eq_true_eq, List.any_eq_true, beq_iff_eq] at htest
  obtain ⟨⟨⟨hdue, s, hs, hpayload, hchannel, hsome⟩, hsent⟩, htest⟩ := htest
  obtain ⟨l₁, hstep, htest⟩ := exists_of_any_toOption htest
  simp only [Bool.and_eq_true, Bool.not_eq_true', beq_iff_eq] at htest
  obtain ⟨⟨hnone, hsent₁⟩, htest⟩ := htest
  obtain ⟨l', hl', hacked⟩ := (Option.any_eq_true _ _).mp htest
  rw [decide_eq_true_eq] at hacked
  have hresult : s.result = .ok 0 := by
    cases hres : s.result with
    | error err =>
      rw [hres] at hsome
      cases hsome
    | ok id =>
      rw [hres] at hsome
      cases hsome
      rfl
  have hreach : Reachable PermitsFew l := reachable_of_run (.start _ _ _) hl
  have hleads : Leads PermitsFew l₁ l' := leads_of_run hl'
  have hreach₁ : Reachable PermitsFew l₁ :=
    hreach.step (c := .visitPacketsToSend .left) trivial hstep
  refine ⟨l', hreach₁.leads hleads, s, ((grows_step hstep).trans hleads.grows).queuedBy _ s hs,
    hpayload, hresult, ?_⟩
  refine ackInbox_of_visit hreach hstep hdue hnone hleads (fun n hlt hle => ?_) hs hchannel hresult
  rw [hsent] at hlt
  rw [hsent₁] at hle
  have hn : n = 2 := by omega
  rw [hacked, hn]
  exact List.mem_singleton_self 2

end Link

end Pickleback
