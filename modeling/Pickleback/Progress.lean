import Pickleback.Reliability

/-!
# Progress and stalls

A call of `visit_packets_to_send` sends whatever is due until the limit of 350 unacked packets is
reached. If it gets that far, and the network lets its packets through, then all that was sent on
the reliable channel before is in the inbox of the peer. But the limit holds for packets that are
sent again as well: a side that has lost its last 350 packets sends nothing any more, whatever its
peer sends to it.

## Main definitions

* `Link.Leads` — one state comes after another in a run

## Main results

* `Link.messageInbox_of_visit` — progress of the reliable channel
* `Link.idle_of_room` — where there is room, a visit leaves nothing to send
* `Link.sends_iff` — when a visit sends anything at all
* `Link.stalled` — a side that has lost its last 350 packets has stopped for good
-/

namespace Pickleback

open Serial AckProtocol

/-! ### Progress -/

/-- All of its messages are due. -/
def Channel.AllDue : Channel → Prop
  | .reliable c => ∀ x ∈ c.q, x.isReady c.time c.resendTime = true
  | .unreliable _ => True

instance (ch : Channel) : Decidable ch.AllDue :=
  match ch with
  | .reliable c => inferInstanceAs (Decidable (∀ x ∈ c.q, x.isReady c.time c.resendTime = true))
  | .unreliable _ => isTrue trivial

/-- When nothing is due any more, all that was due has been written. -/
theorem ReliableChannel.Marks.mem_of_due {now resendTime : Time}
    {q q' : List ResendableMessage} {ms : List Message}
    (h : ReliableChannel.Marks now resendTime q ms q')
    (hnone : ∀ x ∈ q', x.isReady now resendTime = false) :
    ∀ x ∈ q, x.isReady now resendTime = true → x.message.clone ∈ ms := by
  induction h with
  | nil => exact fun _ hx => by cases hx
  | keep m _ ih =>
    obtain ⟨hm, hrest⟩ := List.forall_mem_cons.mp hnone
    intro x hx hready
    rcases List.mem_cons.mp hx with rfl | hx
    · rw [hready] at hm
      cases hm
    · exact ih hrest x hx hready
  | mark m _ _ ih =>
    obtain ⟨-, hrest⟩ := List.forall_mem_cons.mp hnone
    intro x hx hready
    rcases List.mem_cons.mp hx with rfl | hx
    · exact List.mem_cons_self ..
    · exact List.mem_cons_of_mem _ (ih hrest x hx hready)

/-- Whatever is written is not due any more. -/
theorem ChannelList.Wrote.numReady_le {cs cs' : ChannelList} {ms : List Message}
    (hsound : ∀ ch ∈ cs, ch.Sound)
    (h : cs.Wrote ms cs') : cs'.numReady ≤ cs.numReady ∧
      ((∃ m ∈ ms, m.channel ∈ cs.map Channel.id) → cs'.numReady < cs.numReady) := by
  rw [ChannelList.Wrote] at h
  induction h with
  | nil =>
    refine ⟨le_rfl, ?_⟩
    rintro ⟨m, -, hid⟩
    cases hid
  | @cons ch ch' cs cs' hwrote _ ih =>
    obtain ⟨hch, hrest⟩ := List.forall_mem_cons.mp hsound
    obtain ⟨hle, hlt⟩ := ih hrest
    have hcount := hwrote.numReady_add hch.resend
    simp only [ChannelList.numReady, List.map_cons, List.sum_cons] at hle hlt ⊢
    refine ⟨by omega, ?_⟩
    rintro ⟨m, hm, hid⟩
    rcases List.mem_cons.mp hid with hid | hid
    · have hmem : m ∈ ms.filter fun m => m.channel == ch.id :=
        List.mem_filter.mpr ⟨hm, beq_iff_eq.mpr hid⟩
      have hpos := List.length_pos_of_mem hmem
      omega
    · have := hlt ⟨m, hm, hid⟩
      omega

namespace Endpoint

variable {p p' : Endpoint}

/-- Every packet has a message that was due. -/
theorem EmitsAll.length_le_numReady {es : List Emission} (h : p.EmitsAll es p')
    (hsound : p.channels.Sound) :
    es.length + p'.channels.numReady ≤ p.channels.numReady := by
  induction h with
  | nil p => simp
  | @cons p p₁ p' em es hemits hrest ih =>
    have hfirst := EmitsAll.forall_mem (.cons hemits (.nil p₁)) hsound (List.mem_singleton_self em)
    obtain ⟨m, hm⟩ := List.exists_mem_of_ne_nil _ hfirst.2.1
    have hlt := (hemits.wrote.numReady_le hsound.sound).2 ⟨m, hm, hfirst.2.2.2 m hm⟩
    have hle := ih (hemits.wrote.sound hsound)
    rw [List.length_cons]
    omega

/-- Every packet counts as unacked. -/
theorem EmitsAll.sentUnackedPackets {es : List Emission} (h : p.EmitsAll es p')
    (hfailed : p.failedHeaders = 0) :
    p'.sentUnackedPackets.toNat = p.sentUnackedPackets.toNat + es.length := by
  induction h with
  | nil p => rfl
  | cons hemits _ ih =>
    rw [ih (hemits.failedHeaders (by omega)), hemits.sentUnackedPackets hfailed, List.length_cons]
    omega

/-- **A series of packets after which nothing is due** has every message of the reliable channel
that was due. -/
theorem EmitsAll.mem_of_due {es : List Emission} (h : p.EmitsAll es p') (hsound : p.channels.Sound)
    (hnone : p'.channels.anyWithMessagesToSend = false) {c : ReliableChannel}
    (hc : MessageDispatcher.HasReliable p.channels c) {x : ResendableMessage} (hx : x ∈ c.q)
    (hready : x.isReady c.time c.resendTime = true) : ∃ em ∈ es, x.message.clone ∈ em.messages := by
  obtain ⟨ch', hget, hwrote⟩ := ChannelList.exists_get?_of_forall₂
    (fun _ _ hch => hch.shrinks.id) (h.wrote hsound) hc.1
  have hidle : ch'.anyReadyToSend = false := by
    rw [ChannelList.anyWithMessagesToSend, List.any_eq_false] at hnone
    simpa using hnone ch' (ChannelList.mem_of_get? hget)
  generalize hms : (es.flatMap Emission.messages).filter
    (fun m => m.channel == Channel.id (.reliable c)) = ms at hwrote
  cases hwrote with
  | @reliable _ _ ms' q' hmarks hperm =>
    have hmem := hmarks.mem_of_due (fun y hy => ?_) x hx hready
    · have hwritten := List.mem_of_mem_filter (hms ▸ hperm.mem_iff.mpr hmem)
      exact List.mem_flatMap.mp hwritten
    · rw [Channel.anyReadyToSend, ReliableChannel.anyReadyToSend, List.any_eq_false] at hidle
      simpa using hidle y hy

end Endpoint

namespace Link

variable {l l₁ l' : Link} {e : Side}

/-- `l'` comes after `l` in a run whose calls are permitted. -/
def Leads (permits : Link → Call → Prop) : Link → Link → Prop :=
  Relation.ReflTransGen fun l l' => ∃ c, permits l c ∧ l.step c = .ok l'

theorem Reachable.leads {permits : Link → Call → Prop} (h : Reachable permits l)
    (hrun : Leads permits l l') :
    Reachable permits l' := by
  induction hrun with
  | refl => exact h
  | tail _ hstep ih =>
    obtain ⟨c, hc, hstep⟩ := hstep
    exact ih.step hc hstep

theorem Leads.grows {permits : Link → Call → Prop} (hrun : Leads permits l l') : l.Grows l' := by
  induction hrun with
  | refl => exact .refl l
  | tail _ hstep ih =>
    obtain ⟨c, -, hstep⟩ := hstep
    exact ih.trans (grows_step hstep)

theorem leads_of_run {permits : Link → Call → Prop} [∀ l c, Decidable (permits l c)]
    {script : List (Link → Call)}
    (hrun : l.run permits script = some l') : Leads permits l l' := by
  induction script generalizing l with
  | nil =>
    cases hrun
    exact .refl
  | cons c rest ih =>
    rw [run] at hrun
    split at hrun
    · next hc =>
      split at hrun
      · next l₁ hstep => exact .head ⟨_, hc, hstep⟩ (ih hrun)
      · cases hrun
    · cases hrun

/-- The packet in place `k` of a visit, as the network gets it. -/
theorem mem_flights_of_getElem? {source : Side} {stamp n k : ℕ}
    {packets : List (List UInt8)} {bytes : List UInt8}
    (h : packets[k]? = some bytes) : ⟨source, n + k, stamp, bytes⟩ ∈
      flights source stamp n packets := by
  induction packets generalizing n k with
  | nil => cases h
  | cons first rest ih =>
    cases k with
    | zero =>
      cases h
      exact List.mem_cons_self ..
    | succ k =>
      rw [List.getElem?_cons_succ] at h
      refine List.mem_cons_of_mem _ ?_
      rw [← Nat.add_assoc, Nat.add_right_comm]
      exact ih h

/-- **A visit that leaves nothing to send** sends every message of the reliable channel that was
due. -/
theorem exists_flight_of_visit (hfaithful : l.Faithful)
    (hstep : l.step (.visitPacketsToSend e) = .ok l₁)
    (hnone : (l₁.endpoint e).channels.anyWithMessagesToSend = false) {c : ReliableChannel}
    (hc : MessageDispatcher.HasReliable (l.endpoint e).channels c)
    {x : ResendableMessage} (hx : x ∈ c.q)
    (hready : x.isReady c.time c.resendTime = true) :
    ∃ f ∈ l₁.net, f.source = e ∧ l.sent e < f.number ∧ f.number ≤ l₁.sent e ∧
      ∃ content ∈ f.contents, content.id = x.message.id := by
  obtain ⟨hrec, -⟩ := hfaithful e
  simp only [step] at hstep
  split at hstep
  · cases hstep
  · next p packets hcall =>
    cases hstep
    obtain ⟨es, p₁, p₂, r, hall, -, hstop, hp, hpackets⟩ :=
      Endpoint.visitPacketsToSend_cases hrec.intact hcall
    have hbytes : packets = es.map Emission.bytes := by
      rw [hpackets, hstop.outbox, hall.outbox, hrec.outbox]
      rfl
    have hown : ((l.setEndpoint e p).launch e packets).endpoint e = p := by
      simp [launch, setEndpoint]
    have hsent : ((l.setEndpoint e p).launch e packets).sent e = l.sent e + es.length := by
      simp [launch, setEndpoint, hbytes]
    have hidle : p₁.channels.anyWithMessagesToSend = false := by
      rw [hown, hp] at hnone
      rw [← hstop.channels]
      exact hnone
    obtain ⟨em, hem, hmem⟩ := hall.mem_of_due hrec.intact.channels hidle hc hx hready
    obtain ⟨⟨header, htype, hread⟩, hcopies⟩ := (hrec.queued.emitsAll hall).2 em hem
    have hsentBy : ∀ m ∈ em.messages, m.SentBy (l.queuedBy e) := by
      intro m hm
      obtain ⟨m₀, hm₀, hcopy⟩ := hcopies m hm
      exact hm₀.of_copies hcopy
    obtain ⟨k, hk⟩ := List.mem_iff_getElem?.mp hem
    have hlt := (List.getElem?_eq_some_iff.mp hk).1
    refine ⟨⟨e, l.sent e + 1 + k, l.sent e.other, em.bytes⟩, List.mem_append_right _ ?_,
      rfl, ?_, ?_, ?_⟩
    · refine mem_flights_of_getElem? ?_
      rw [hbytes, List.getElem?_map, hk]
      rfl
    · dsimp only
      omega
    · rw [hsent]
      dsimp only
      omega
    · rw [Flight.contents]
      simp only [hread]
      rw [if_pos (by exact htype)]
      obtain ⟨content, hcontent, hwrites, -⟩ :=
        exists_of_forall₂_mem (forall₂_packetContents hsentBy).flip hmem
      exact ⟨content, hcontent, hwrites.1.symm⟩

/-- **Progress**, in every short session. When a call of `visit_packets_to_send` finds all messages
of the reliable channel due and leaves nothing to send, and the peer has accepted the packets it has
sent, then every call on the reliable channel that was made before is in the inbox of the peer. -/
theorem messageInbox_of_visit (h : Reachable PermitsFew l)
    (hstep : l.step (.visitPacketsToSend e) = .ok l₁)
    (hdue : ∀ ch ∈ (l.endpoint e).channels.get? 1, ch.AllDue)
    (hnone : (l₁.endpoint e).channels.anyWithMessagesToSend = false) (hrun : Leads PermitsFew l₁ l')
    (haccepted : ∀ n, l.sent e < n → n ≤ l₁.sent e → n ∈ l'.accepted e.other) {s : SendCall}
    (hs : s ∈ l.queuedBy e) (hchannel : s.channel = 1) :
    ((l'.endpoint e.other).dispatcher.messageInbox 1).countP (fun msg => s.Is msg) = 1 := by
  have h₁ : Reachable PermitsFew l₁ := h.step (c := .visitPacketsToSend e) trivial hstep
  have h' := h₁.leads hrun
  have hgrows := (grows_step hstep).trans hrun.grows
  have hs' : s ∈ l'.queuedBy e := hgrows.queuedBy e s hs
  have hcalls := (h'.short.2 e).calls
  obtain ⟨r, hr, hcollects⟩ := (h'.short.2 e).collects
  rw [← hchannel]
  refine (hcollects.countP_is hcalls hs').1 fun c hc => ?_
  rw [hr]
  rcases (h.owes e).kept s hs hchannel c hc with harrived | ⟨m, hm, hid⟩
  · exact hgrows.arrived e harrived
  · -- the message waited, and was sent by the visit
    obtain ⟨ch, hch⟩ := (h.owes e).reliable
    rw [ChannelList.reliableQueue_of_hasReliable hch] at hm
    obtain ⟨x, hx, rfl⟩ := List.mem_map.mp hm
    obtain ⟨f, hf, hsource, hlt, hle, c', hc', hid'⟩ :=
      exists_flight_of_visit h.short.1.attested.1 hstep hnone hch hx (hdue _ hch.1 x hx)
    have hf' := hrun.grows.net f hf
    obtain ⟨s', hs'', hmem⟩ := (h'.short.1.attested.1 f.source).1.exists_call hf' hc'
    rw [hsource] at hs''
    obtain rfl := hcalls.eq_of_id hs'' hs' hmem hc (hid'.trans hid)
    exact ⟨f, hf', hsource, haccepted _ hlt hle, hc'⟩

/-- The packet of the first visit is lost, the one of the second arrives. -/
theorem messageInbox_of_visit_resent : ∃ l', Reachable PermitsFew l' ∧
    ∃ s ∈ l'.queuedBy .left, s.payload = [7] ∧
    ((l'.endpoint .right).dispatcher.messageInbox 1).countP (fun msg => s.Is msg) = 1 := by
  have hrun : (((start (fun _ => true) (fun _ => 1) fun _ => 7).run PermitsFew [
      fun _ => .sendMessage .left 1 [7], fun _ => .visitPacketsToSend .left,
        fun _ => .update .left 1]).any fun l =>
        decide (∀ ch ∈ (l.endpoint .left).channels.get? 1, ch.AllDue) &&
          (l.queuedBy .left).any (fun s => decide (s.payload = [7] ∧ s.channel = 1)) &&
            (l.sent .left == 1) &&
            (l.step (.visitPacketsToSend .left)).toOption.any fun l₁ =>
              !(l₁.endpoint .left).channels.anyWithMessagesToSend && (l₁.sent .left == 2) &&
                (l₁.run PermitsFew [deliverAt 1]).any fun l' => decide (l'.accepted .right = [2])) =
                  true := by
    decide +kernel
  obtain ⟨l, hl, htest⟩ := (Option.any_eq_true _ _).mp hrun
  simp only [Bool.and_eq_true, decide_eq_true_eq, List.any_eq_true, beq_iff_eq] at htest
  obtain ⟨⟨⟨hdue, s, hs, hcall⟩, hsent⟩, htest⟩ := htest
  obtain ⟨l₁, hstep, htest⟩ := exists_of_any_toOption htest
  simp only [Bool.and_eq_true, Bool.not_eq_true', beq_iff_eq] at htest
  obtain ⟨⟨hnone, hsent₁⟩, htest⟩ := htest
  obtain ⟨l', hl', haccepted⟩ := (Option.any_eq_true _ _).mp htest
  rw [decide_eq_true_eq] at haccepted
  have hreach : Reachable PermitsFew l := reachable_of_run (.start _ _ _) hl
  have hleads : Leads PermitsFew l₁ l' := leads_of_run hl'
  have hreach₁ : Reachable PermitsFew l₁ :=
    hreach.step (c := .visitPacketsToSend .left) trivial hstep
  refine ⟨l', hreach₁.leads hleads, s, ((grows_step hstep).trans hleads.grows).queuedBy _ s hs,
    hcall.1, ?_⟩
  refine messageInbox_of_visit hreach hstep hdue hnone hleads (fun n hlt hle => ?_) hs hcall.2
  rw [hsent] at hlt
  rw [hsent₁] at hle
  have hn : n = 2 := by omega
  rw [Side.other, haccepted, hn]
  exact List.mem_singleton_self 2

/-! ### The limit on unacked packets -/

/-- What a visit comes to: some packets, and then nothing is due or the limit is reached. -/
theorem visit_cases (h : Reachable Permits l) (hstep : l.step (.visitPacketsToSend e) = .ok l₁) :
    ∃ n, l₁.sent e = l.sent e + n ∧ n + (l₁.endpoint e).channels.numReady ≤
      (l.endpoint e).channels.numReady ∧
      ((l₁.endpoint e).channels.numReady = 0 ∨ 350 ≤ (l.endpoint e).sentUnackedPackets.toNat + n) ∧
      (350 ≤ (l.endpoint e).sentUnackedPackets.toNat → n = 0) ∧
      (n = 0 → (l₁.endpoint e).channels = (l.endpoint e).channels) := by
  obtain ⟨overflowChecks, hreach⟩ := exists_reachable_endpoint h e
  have hintact := hreach.intact
  obtain ⟨s, hs⟩ := exists_simulates h
  have hfailed := (sequenceId_eq h e).2
  simp only [step] at hstep
  split at hstep
  · cases hstep
  · next p packets hcall =>
    cases hstep
    obtain ⟨es, p₁, p₂, r, hall, -, hstop, hp, hpackets⟩ :=
      Endpoint.visitPacketsToSend_cases hintact hcall
    have hlength : packets.length = es.length := by
      rw [hpackets, hstop.outbox, hall.outbox, (hs.shown e).outbox]
      simp
    have hchannels : (((l.setEndpoint e p).launch e packets).endpoint e).channels =
      p₁.channels := by
      simp only [launch, setEndpoint, Function.update_self]
      rw [hp]
      exact hstop.channels
    have hmax : maxUnackedPackets.toNat = 350 := rfl
    rw [hchannels]
    refine ⟨es.length, ?_, hall.length_le_numReady hintact.channels,
      ?_, fun hfull => ?_, fun hzero => ?_⟩
    · simp [launch, setEndpoint, hlength]
    · cases hstop with
      | done hnone => exact Or.inl hnone
      | unacked hmany =>
        rw [ge_iff_le, UInt16.le_iff_toNat_le, hmax, hall.sentUnackedPackets hfailed] at hmany
        exact Or.inr hmany
      | acks pool hmany =>
        rw [hall.receivedUnackedPackets] at hmany
        exact absurd hmany (UInt16.not_lt.mpr (counters_le h e).2)
    · have hle := hall.length_le_of_newest hfailed
      omega
    · rw [List.length_eq_zero_iff] at hzero
      subst hzero
      cases hall
      rfl

/-- Nothing else sends packets. -/
theorem sent_of_ne_visit {c : Call} (hstep : l.step c = .ok l') (hc : c ≠ .visitPacketsToSend e) :
    l'.sent e = l.sent e := by
  cases c with
  | sendMessage e₀ channel payload =>
    simp only [step] at hstep
    split at hstep
    · cases hstep
    · cases hstep
      rfl
  | update e₀ dt =>
    cases hstep
    rfl
  | visitPacketsToSend e₀ =>
    simp only [step] at hstep
    split at hstep
    · cases hstep
    · cases hstep
      have hne : e ≠ e₀ := fun heq => hc (by rw [heq])
      simp [launch, setEndpoint, Function.update_of_ne hne]
  | deliver f =>
    rw [(endpoint_source_of_deliver hstep).2]
  | sendKeepAlive e₀ clientIndex =>
    simp only [step] at hstep
    split at hstep
    · cases hstep
    · cases hstep
      rfl

/-- **Where there is room**, a visit leaves nothing to send: as long as fewer than 350 packets are
unacked, counting one for each message that is due. -/
theorem idle_of_room (h : Reachable Permits l) (hstep : l.step (.visitPacketsToSend e) = .ok l₁)
    (hroom : (l.endpoint e).sentUnackedPackets.toNat + (l.endpoint e).channels.numReady < 350) :
    (l₁.endpoint e).channels.anyWithMessagesToSend = false := by
  obtain ⟨n, -, hless, hnone | hfull, -, -⟩ := visit_cases h hstep
  · rw [← Bool.not_eq_true, ChannelList.anyWithMessagesToSend_iff]
    omega
  · omega

/-- Two messages of different channels leave room for 348 more. -/
theorem idle_of_room_two : ∃ l l₁, Reachable Permits l ∧ (l.endpoint .left).channels.numReady = 2 ∧
    l.step (.visitPacketsToSend .left) = .ok l₁ ∧
    (l₁.endpoint .left).channels.anyWithMessagesToSend = false := by
  have hrun : (((start (fun _ => true) (fun _ => 1) fun _ => 7).run Permits [
      fun _ => .sendMessage .left 0 [3], fun _ => .sendMessage .left 1 [5]]).any fun l =>
        decide ((l.endpoint .left).channels.numReady = 2 ∧
          (l.endpoint .left).sentUnackedPackets = 0) &&
          (l.step (.visitPacketsToSend .left)).toOption.any fun _ => true) = true := by
    decide +kernel
  obtain ⟨l, hl, htest⟩ := (Option.any_eq_true _ _).mp hrun
  rw [Bool.and_eq_true, decide_eq_true_eq] at htest
  obtain ⟨⟨hready, hunacked⟩, htest⟩ := htest
  obtain ⟨l₁, hstep, -⟩ := exists_of_any_toOption htest
  have hreach : Reachable Permits l := reachable_of_run (.start _ _ _) hl
  have hroom : (l.endpoint .left).sentUnackedPackets.toNat + (l.endpoint .left).channels.numReady <
    350 := by
    rw [hready, hunacked]
    decide
  exact ⟨l, l₁, hreach, hready, hstep, idle_of_room hreach hstep hroom⟩

/-- The unacked packets are those after the newest one that is acked. -/
theorem exists_newest (h : Reachable Permits l) (e : Side) :
    ∃ newest ≤ l.sent e, (l.endpoint e).sentUnackedPackets.toNat + newest = l.sent e ∧
      (newest = 0 ∨ newest ∈ l.acked e) ∧ ∀ n ∈ l.acked e, n ≤ newest := by
  obtain ⟨s, hs⟩ := exists_simulates h
  have hshown := hs.shown e
  have hagree := hs.agree e
  have hpeer := hs.agree e.other
  rw [Side.other_other] at hpeer
  have hle := hagree.newest_le_sent hpeer
  have hunacked := hagree.unacked_le
  have hcount := toNat_wrap ((s e).sent - (s e).newest)
  rw [hshown.sent_eq, hshown.acked_eq]
  refine ⟨(s e).newest, hle, ?_, hagree.tidy.newest_mem, hagree.tidy.le_newest⟩
  rw [hshown.represents.sentUnackedPackets hagree.tidy]
  omega

/-- **When anything is sent**: a visit of a side that has something to send sends a packet if and
only if one of the last 350 packets of that side has been acked, or there are fewer. -/
theorem sends_iff (h : Reachable Permits l)
    (hready : (l.endpoint e).channels.anyWithMessagesToSend = true)
    (hstep : l.step (.visitPacketsToSend e) = .ok l₁) :
    l.sent e < l₁.sent e ↔ l.sent e < 350 ∨ ∃ n ∈ l.acked e, l.sent e < n + 350 := by
  obtain ⟨n, hsent, hless, hends, hnothing, hsame⟩ := visit_cases h hstep
  obtain ⟨newest, hle, hcount, hmem, hnewest⟩ := exists_newest h e
  rw [ChannelList.anyWithMessagesToSend_iff] at hready
  have hroom : l.sent e < l₁.sent e ↔ l.sent e < newest + 350 := by
    constructor
    · intro hlt
      by_contra hfull
      have := hnothing (by omega)
      omega
    · intro hlt
      by_contra hzero
      rw [hsame (by omega)] at hends
      omega
  rw [hroom]
  constructor
  · intro hlt
    rcases hmem with rfl | hmem
    · exact Or.inl (by omega)
    · exact Or.inr ⟨newest, hmem, hlt⟩
  · rintro (hfew | ⟨n, hn, hlt⟩)
    · omega
    · have := hnewest n hn
      omega

/-- **A stall.** In every run from a state in which a side has sent at least 350 packets, and in
which its peer does not accept one of the last 350 of them: the side sends nothing any more. -/
theorem stalled (h : Reachable Permits l) (hmany : 350 ≤ l.sent e) (hrun : Leads Permits l l')
    (hlost : ∀ n ∈ l'.accepted e.other, n + 350 ≤ l.sent e) : l'.sent e = l.sent e := by
  induction hrun with
  | refl => rfl
  | @tail l₂ l₃ hrun hstep ih =>
    obtain ⟨c, hc, hstep⟩ := hstep
    have hgrows := grows_step hstep
    have hsame := ih fun n hn => hlost n (hgrows.accepted _ n hn)
    have h₂ := h.leads hrun
    by_cases hvisit : c = .visitPacketsToSend e
    · subst hvisit
      obtain ⟨n, hsent, -, -, hnothing, -⟩ := visit_cases h₂ hstep
      obtain ⟨newest, -, hcount, hmem, -⟩ := exists_newest h₂ e
      -- what is acked has been accepted
      have hold : newest + 350 ≤ l.sent e := by
        rcases hmem with rfl | hmem
        · omega
        · exact hlost newest (hgrows.accepted _ newest (accepted_of_acked h₂ hmem).2.2)
      have := hnothing (by omega)
      omega
    · rw [sent_of_ne_visit hstep hvisit, hsame]

/-- A message that is sent `n` times. -/
def sendsAgain (n : ℕ) : List (Link → Call) :=
  (fun _ => .sendMessage .left 1 [1]) ::
    (List.replicate n [fun _ => .update .left 1, fun _ => .visitPacketsToSend .left]).flatten

/-- A packet from the peer, which has nothing to ack. -/
def answeredLost : List (Link → Call) :=
  [fun _ => .sendMessage .right 0 [2], fun _ => .visitPacketsToSend .right,
  deliverAt 350, fun _ => .update .left 1, fun _ => .visitPacketsToSend .left]

/-- One of the packets arrives after all, and the peer acks it. -/
def answeredLate : List (Link → Call) := [deliverAt 4, fun _ => .sendMessage .right 0 [2],
  fun _ => .visitPacketsToSend .right, deliverAt 350, fun _ => .sendMessage .left 0 [3]]

/-- What the answers lead to. -/
def answered (l : Link) : Bool :=
  decide (l.sent .left = 350) && ((l.run Permits answeredLost).any fun l' =>
    decide ((l'.endpoint .left).channels.anyWithMessagesToSend = true ∧ l'.accepted .left = [1] ∧
      l'.accepted .right = [])) && (l.run Permits answeredLate).any fun l' =>
        decide ((l'.endpoint .left).channels.anyWithMessagesToSend = true ∧ l'.sent .left = 350 ∧
          l'.acked .left = [5]) &&
            (l'.step (.visitPacketsToSend .left)).toOption.any fun l₁ =>
              decide (l₁.sent .left = 351)

set_option maxRecDepth 100000 in
theorem answered_sendsAgain : (((start (fun _ => true) (fun _ => 1) fun _ => 7).run Permits
    (sendsAgain 350)).any answered) = true := by
  decide +kernel

/-- A message is sent 350 times, and then it is lost each time, or but once. -/
theorem exists_sendsAgain : ∃ l, Reachable Permits l ∧ l.sent .left = 350 ∧
    (∃ l', l.run Permits answeredLost = some l' ∧
      (l'.endpoint .left).channels.anyWithMessagesToSend = true ∧
      l'.accepted .left = [1] ∧ l'.accepted .right = []) ∧
    ∃ l' l₁, l.run Permits answeredLate = some l' ∧ l'.step (.visitPacketsToSend .left) = .ok l₁ ∧
      (l'.endpoint .left).channels.anyWithMessagesToSend = true ∧ l'.sent .left = 350 ∧
        l'.acked .left = [5] ∧ l₁.sent .left = 351 := by
  obtain ⟨l, hl, htest⟩ := (Option.any_eq_true _ _).mp answered_sendsAgain
  rw [answered, Bool.and_eq_true, Bool.and_eq_true, decide_eq_true_eq] at htest
  obtain ⟨⟨hsent, hlost⟩, hlate⟩ := htest
  obtain ⟨l', hl', hstate⟩ := (Option.any_eq_true _ _).mp hlost
  obtain ⟨l'', hl'', hlate⟩ := (Option.any_eq_true _ _).mp hlate
  rw [Bool.and_eq_true] at hlate
  obtain ⟨l₁, hstep, hone⟩ := exists_of_any_toOption hlate.2
  obtain ⟨hready, hfull, hacked⟩ := of_decide_eq_true hlate.1
  exact ⟨l, reachable_of_run (.start _ _ _) hl, hsent, ⟨l', hl', of_decide_eq_true hstate⟩,
    l'', l₁, hl'', hstep, hready, hfull, hacked, of_decide_eq_true hone⟩

/-- Packet 5 of 350 is acked, the others are lost: there is room for one more. -/
theorem sends_iff_room : ∃ l l₁, Reachable Permits l ∧ l.step (.visitPacketsToSend .left) = .ok l₁ ∧
    l.sent .left = 350 ∧ l.acked .left = [5] ∧ l₁.sent .left = 351 ∧
    (l.sent .left < l₁.sent .left ↔ l.sent .left < 350 ∨ ∃ n ∈ l.acked .left,
      l.sent .left < n + 350) := by
  obtain ⟨l₀, hreach₀, -, -, l, l₁, hl, hstep, hready, hsent, hacked, hone⟩ := exists_sendsAgain
  have hreach : Reachable Permits l := reachable_of_run hreach₀ hl
  exact ⟨l, l₁, hreach, hstep, hsent, hacked, hone, sends_iff hreach hready hstep⟩

/-- The message is due, but not even a packet from the peer helps. -/
theorem stalled_lost : ∃ l l', Reachable Permits l ∧ Leads Permits l l' ∧ l.sent .left = 350 ∧
    (l'.endpoint .left).channels.anyWithMessagesToSend = true ∧ l'.accepted .left = [1] ∧
    l'.sent .left = l.sent .left := by
  obtain ⟨l, hreach, hsent, ⟨l', hl', hready, haccepted, hnone⟩, -⟩ := exists_sendsAgain
  have hleads : Leads Permits l l' := leads_of_run hl'
  refine ⟨l, l', hreach, hleads, hsent, hready, haccepted, ?_⟩
  refine stalled hreach (by omega) hleads fun n hn => ?_
  rw [Side.other, hnone] at hn
  cases hn

end Link

end Pickleback
