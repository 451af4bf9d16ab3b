import Pickleback.ControlPackets
import Pickleback.Retention

/-!
# Whose messages an ack acks

An ack names a packet id, and `acked_packet` looks the messages up by that id. They should be the
messages of the packet that was sent under the id last. But the window `messages_in_packets` only
moves for packets of messages: what it holds of a packet that was never acked is still there when
the id comes round again, for a packet of another kind.

## Main definitions

* `MessageDispatcher.handlesOf` — what an ack of a packet processes
* `Endpoint.Ledger`, `Endpoint.LedgerRun` — runs with an account of what was written into each
  packet
* `Endpoint.AcksOwn` — acks process what was written into the packet
* `Endpoint.Orderly` — the calls that keep it so

## Main results

* `LedgerRun.acksOwn` — in runs of orderly calls acks process what was written into the packet
* `Writes.step`, `Reachable.exists_ledgerRun` — the runs on account are the runs of an endpoint
-/

namespace Pickleback

/-- The handles that an ack of a packet passes on. -/
def MessageDispatcher.handlesOf (d : MessageDispatcher) (id : PacketId) : List MessageHandle :=
  (d.messagesInPackets.get id).getD []

/-- These and no others are processed. -/
theorem MessageDispatcher.ackedPacket_eq (d : MessageDispatcher)
    (id : PacketId) (channels : ChannelList) :
    d.ackedPacket id channels =
      ackHandles { d with messagesInPackets := (d.messagesInPackets.remove id).2 } channels
      (d.handlesOf id) := by
  simp only [ackedPacket, handlesOf, SequenceBuffer.remove]
  cases d.messagesInPackets.get id <;> rfl

namespace Endpoint

/-! ### The account -/

/-- The message handles that were written into the last packet sent under each id. -/
abbrev Ledger := PacketId → List MessageHandle

/-- A packet of messages, on account. -/
def Ledger.record (w : Ledger) (e : Emission) : Ledger :=
  Function.update w e.header.id (e.messages.map Message.handle)

/-- One call, and what it adds to the account. -/
inductive Writes (p : Endpoint) (w : Ledger) : Call → Endpoint → Ledger → Prop
  /-- A packet without messages. -/
  | control {packetType : PacketType} {build : ProtocolPacketHeader → ProtocolPacket}
    {p' : Endpoint}
    (hcall : p.sendControl packetType build = .ok (p', .ok ())) :
    Writes p w (.sendControl packetType build) p' (Function.update w (p.sequenceId + 1) [])
  | notSent {packetType : PacketType} {build : ProtocolPacketHeader → ProtocolPacket}
    {p' : Endpoint}
    {e : PicklebackError} (hcall : p.sendControl packetType build = .ok (p', .error e)) :
    Writes p w (.sendControl packetType build) p' w
  /-- The packets `es` of messages. -/
  | visit {p₁ p₂ p' : Endpoint} {es : List Emission} {packets : List (List UInt8)}
    {r : Except PicklebackError Unit} (hcall : p.visitPacketsToSend = .ok (p', packets))
    (hall : p.EmitsAll es p₁) (hstop : p₁.Stops p₂ r)
    (hend : p' = { p₂ with outbox := [], pool := p₂.pool.returnBuffers p₂.outbox }) :
    Writes p w .visitPacketsToSend p' (es.foldl Ledger.record w)
  | other {call : Call} {p' : Endpoint} (hcall : p.step call = .ok p')
    (hvisit : call ≠ .visitPacketsToSend)
    (hcontrol : ∀ packetType build, call ≠ .sendControl packetType build) : Writes p w call p' w

/-- **Every call** can be put on account. -/
theorem exists_writes {p p' : Endpoint} (h : p.Intact) (w : Ledger) {call : Call}
    (hcall : p.step call = .ok p') : ∃ w', p.Writes w call p' w' := by
  cases call with
  | sendControl packetType build =>
    obtain ⟨⟨p₁, r⟩, hsend, rfl⟩ := exists_of_map_eq_ok hcall
    cases r with
    | error e => exact ⟨_, .notSent hsend⟩
    | ok u => exact ⟨_, .control hsend⟩
  | visitPacketsToSend =>
    obtain ⟨⟨p₁, packets⟩, hvisit, rfl⟩ := exists_of_map_eq_ok hcall
    obtain ⟨es, p₂, p₃, r, hall, -, hstop, hend, -⟩ := visitPacketsToSend_cases h hvisit
    exact ⟨_, .visit hvisit hall hstop hend⟩
  | _ => exact ⟨w, .other hcall (by simp) (by simp)⟩

/-- The runs of a default-config endpoint, on account, whose calls all meet a condition. -/
inductive LedgerRun (overflowChecks : Bool) (Meets : Endpoint → Call → Prop) :
    Endpoint → Ledger → Prop
  | new (time : Time) : LedgerRun overflowChecks Meets (Endpoint.new overflowChecks .default time)
    fun _ => []
  | step {p p' : Endpoint} {w w' : Ledger} {call : Call} (h : LedgerRun overflowChecks Meets p w)
    (hmeets : Meets p call) (hwrites : p.Writes w call p' w') : LedgerRun overflowChecks Meets p' w'

/-- Whatever acks come in, and in whatever order: an ack of a sent packet that is not acked yet
processes exactly the handles that were written into that packet. -/
def AcksOwn (p : Endpoint) (w : Ledger) : Prop :=
  ∀ packetType acks p₁ id sentMeta, p.processAcks packetType acks = .ok p₁ →
    p₁.sentBuffer.get id = some sentMeta → sentMeta.acked = false →
      p₁.dispatcher.handlesOf id = w id

/-- The next packet id pushes no handles out of `messages_in_packets` while their packet stays in
`sent_buffer` unacked. -/
def KeepsHandles (p : Endpoint) : Prop :=
  ∀ id sentMeta, p.sentBuffer.get id = some sentMeta → sentMeta.acked = false →
    (p.dispatcher.messagesInPackets.get id).isSome = true →
    p.dispatcher.messagesInPackets.Disturbs (p.sequenceId + 1)
      (p.dispatcher.messagesInPackets.index id) →
    p.sentBuffer.Disturbs (p.sequenceId + 1) (p.sentBuffer.index id)

/-- The call sends no packet without messages under an id that `messages_in_packets` still has
handles for, and composes no packet that pushes out handles of a packet that stays. -/
def Orderly (p : Endpoint) : Call → Prop
  | .sendControl packetType build => ∀ p', p.sendControl packetType build = .ok (p', .ok ()) →
    p.dispatcher.messagesInPackets.get (p.sequenceId + 1) = none
  | .visitPacketsToSend => ∀ e p', p.Emits e p' → p.KeepsHandles
  | _ => True

/-! ### The invariant -/

/-- The account is right for every packet that may still be acked. -/
structure Accounts (w : Ledger) (p : Endpoint) : Prop where
  intact : p.Intact
  handles : ∀ {id : PacketId} {sentMeta : SentMeta}, p.sentBuffer.get id = some sentMeta →
    sentMeta.acked = false → p.dispatcher.handlesOf id = w id

namespace Accounts

variable {w w' : Ledger} {p p' : Endpoint}

theorem new (overflowChecks : Bool) (time : Time) :
    Accounts (fun _ => []) (Endpoint.new overflowChecks .default time) :=
  ⟨intact_new overflowChecks time, fun hget _ => by cases hget⟩

/-- Nothing has happened to the two windows. -/
theorem transfer (h : Accounts w p) (hintact : p'.Intact) (hsent : p'.sentBuffer = p.sentBuffer)
    (hhandles : p'.dispatcher.messagesInPackets = p.dispatcher.messagesInPackets) :
    Accounts w p' := by
  refine ⟨hintact, fun hget hnew => ?_⟩
  rw [MessageDispatcher.handlesOf, hhandles]
  exact h.handles (hsent ▸ hget) hnew

/-- Packets in the window have slots of their own. -/
theorem index_ne {b : SequenceBuffer SentMeta} {s t : PacketId}
    {v v' : SentMeta} (hs : b.get s = some v)
    (ht : b.get t = some v') (hne : s ≠ t) : b.index s ≠ b.index t := by
  intro hindex
  have hs' := (SequenceBuffer.get_eq_some_iff.mp hs).1
  have ht' := (SequenceBuffer.get_eq_some_iff.mp ht).1
  rw [SequenceBuffer.existsSequence_iff] at hs' ht'
  rw [hindex] at hs'
  exact hne (Option.some.inj (hs'.symm.trans ht'))

/-- The two windows have the same slots. -/
theorem index_handles (h : p.Intact) (id : PacketId) :
    p.dispatcher.messagesInPackets.index id = p.sentBuffer.index id := by
  rw [SequenceBuffer.index, SequenceBuffer.index, h.handlesLen, h.sentLen]

/-- **An ack** takes the handles of its packet away, and no others. -/
theorem processAck (h : Accounts w p) {packetType : PacketType} {ack : UInt16 × Bool}
    (hcall : p.processAck packetType ack = .ok p') : Accounts w p' := by
  have hintact := h.intact.processAck hcall
  obtain rfl | ⟨sentMeta, buffers, d, channels, hget, -, hd, hp'⟩ := processAck_cases hcall
  · exact h
  · have hsent : p'.sentBuffer = p.sentBuffer.setEntry ack.1 { sentMeta with acked := true } := by
      rw [hp']
    have hhandles : p'.dispatcher.messagesInPackets =
      (p.dispatcher.messagesInPackets.remove ack.1).2 := by
      rw [hp']
      exact (MessageDispatcher.ackedPacket_eq_ok h.intact.channels hd).1.messagesInPackets
    refine ⟨hintact, fun {id sentMeta'} hget' hnew => ?_⟩
    rw [hsent, SequenceBuffer.get_setEntry hget] at hget'
    by_cases hid : id = ack.1
    · -- the packet of this ack may not be acked again
      rw [if_pos hid, Option.some.injEq] at hget'
      rw [← hget'] at hnew
      cases hnew
    · rw [if_neg hid] at hget'
      rw [MessageDispatcher.handlesOf, hhandles, SequenceBuffer.get_remove_of_ne]
      · exact h.handles hget' hnew
      · rw [index_handles h.intact, index_handles h.intact]
        exact index_ne hget' hget hid

/-- **A packet without messages**, sent under an id that has no handles. -/
theorem control (h : Accounts w p) (hintact : p'.Intact) {sentMeta : SentMeta}
    (hsent : p.sentBuffer.insert (p.sequenceId + 1) sentMeta = .ok p'.sentBuffer)
    (hhandles : p'.dispatcher.messagesInPackets = p.dispatcher.messagesInPackets)
    (hnone : p.dispatcher.messagesInPackets.get (p.sequenceId + 1) = none) :
    Accounts (Function.update w (p.sequenceId + 1) []) p' := by
  refine ⟨hintact, fun {id sentMeta'} hget hnew => ?_⟩
  rw [MessageDispatcher.handlesOf, hhandles]
  by_cases hid : id = p.sequenceId + 1
  · rw [hid, hnone, Function.update_self]
    rfl
  · obtain ⟨rfl, -⟩ | hget := SequenceBuffer.get_of_get_insert hsent hget
    · exact absurd rfl hid
    · rw [Function.update_of_ne hid]
      exact h.handles hget hnew

/-- **A packet of messages** that pushes out nothing that stays. -/
theorem emits (h : Accounts w p) (hkeeps : p.KeepsHandles) {e : Emission} (hemits : p.Emits e p') :
    Accounts (w.record e) p' := by
  obtain ⟨size, hsent⟩ := hemits.sent
  refine ⟨h.intact.emits hemits, fun {id sentMeta} hget hnew => ?_⟩
  rw [Ledger.record, hemits.header_id]
  by_cases hid : id = p.sequenceId + 1
  · rw [hid, Function.update_self, MessageDispatcher.handlesOf,
      SequenceBuffer.get_insert_self hemits.handles]
    rfl
  · obtain ⟨rfl, -⟩ | hold := SequenceBuffer.get_of_get_insert hsent hget
    · exact absurd rfl hid
    · rw [Function.update_of_ne hid, ← h.handles hold hnew, MessageDispatcher.handlesOf,
        MessageDispatcher.handlesOf]
      congr 1
      cases hhandles : p.dispatcher.messagesInPackets.get id with
      | none =>
        cases hhandles' : p'.dispatcher.messagesInPackets.get id with
        | none => rfl
        | some handles =>
          -- the insertion adds no handles but its own
          obtain ⟨rfl, -⟩ | hbefore := SequenceBuffer.get_of_get_insert hemits.handles hhandles'
          · exact absurd rfl hid
          · rw [hhandles] at hbefore
            cases hbefore
      | some handles =>
        have hnot : ¬ p.dispatcher.messagesInPackets.Disturbs (p.sequenceId + 1)
            (p.dispatcher.messagesInPackets.index id) := by
          intro hdist
          have hsent' := hkeeps id sentMeta hold hnew (by rw [hhandles]; rfl) hdist
          have hexists := (SequenceBuffer.get_eq_some_iff.mp hget).1
          rw [SequenceBuffer.existsSequence_iff, SequenceBuffer.index_of_insert hsent] at hexists
          obtain ⟨-, hslot⟩ | hslot := SequenceBuffer.entrySequences_insert_of_disturbs hsent hsent'
          · exact hid (Option.some.inj (hexists.symm.trans hslot))
          · rw [hexists] at hslot
            cases hslot
        obtain ⟨hslot, hentry⟩ := SequenceBuffer.insert_of_not_disturbs hemits.handles hnot
        rw [← hhandles, SequenceBuffer.get, SequenceBuffer.get,
          SequenceBuffer.index_of_insert hemits.handles,
          hslot, hentry]

/-- Where the window is at the last packet, the next one writes its own slot only. -/
theorem keepsHandles_of_near (h : p.Intact)
    (hnear : (p.dispatcher.messagesInPackets.sequence - p.sequenceId).toNat ≤ 512) :
    p.KeepsHandles := by
  intro id sentMeta _ _ _ hdist
  have hindex := SequenceBuffer.index_succ_of_disturbs hnear hdist
  rw [index_handles h, index_handles h] at hindex
  exact Or.inl hindex

/-- **The packets of one call.** Only the first of them can push anything out. -/
theorem emitsAll (h : Accounts w p) {es : List Emission} (hall : p.EmitsAll es p')
    (hkeeps : es ≠ [] → p.KeepsHandles) : Accounts (es.foldl Ledger.record w) p' := by
  induction hall generalizing w with
  | nil p => exact h
  | @cons p p₁ p' e es hemits _ ih =>
    have hnear := SequenceBuffer.sequence_sub_insert_le h.intact.handlesLen hemits.handles
    refine ih (h.emits (hkeeps (List.cons_ne_nil _ _)) hemits) fun _ => ?_
    exact keepsHandles_of_near (h.intact.emits hemits) (hemits.sequenceId ▸ hnear)

theorem processIncomingPacket (h : Accounts w p) {header : ProtocolPacketHeader}
    {payload : List UInt8}
    {r : Except PicklebackError Unit}
    (hcall : p.processIncomingPacket header payload = .ok (p', r)) :
    Accounts w p' := by
  refine processIncomingPacket_induct (I := Accounts w) ?_ ?_ ?_ ?_ h hcall
  · intro q q' hq hsame
    exact hq.transfer (hq.intact.sameCore hsame) hsame.sameSending.sentBuffer
      hsame.sameSending.messagesInPackets
  · intro q b id m hq hb
    exact hq.transfer (hq.intact.receivedBuffer hb) rfl rfl
  · intro q q' packetType ack hq hack
    exact hq.processAck hack
  · intro q q' m hq hm
    have hsame := sameSending_receiveMessage hq.intact hm
    exact hq.transfer (hq.intact.receiveMessage hm) hsame.sentBuffer hsame.messagesInPackets

/-- **One orderly call.** -/
theorem writes (h : Accounts w p) {call : Call} (horderly : p.Orderly call)
    (hwrites : p.Writes w call p' w') :
    Accounts w' p' := by
  cases hwrites with
  | control hcall =>
    have hnone := horderly _ hcall
    obtain ⟨⟨e, heq⟩, -⟩ | ⟨p₁, header, pool, buf, size, sb, -, -, -, hsent, hp'⟩ :=
      sendControl_cases hcall
    · cases heq
    · have hsb : p'.sentBuffer = sb := by rw [hp']
      exact h.control (h.intact.sendControl hcall) (hsb ▸ hsent) (by rw [hp']) hnone
  | notSent hcall =>
    obtain ⟨-, hp'⟩ | ⟨p₁, header, pool, buf, size, sb, hr, -⟩ := sendControl_cases hcall
    · exact h.transfer (h.intact.sendControl hcall) (by rw [hp']) (by rw [hp'])
    · cases hr
  | @visit p₁ p₂ _ es _ _ hcall hall hstop hend =>
    have hkeeps : es ≠ [] → p.KeepsHandles := by
      intro hne
      cases hall with
      | nil _ => exact absurd rfl hne
      | cons hemits _ => exact horderly _ _ hemits
    refine (h.emitsAll hall hkeeps).transfer (h.intact.visitPacketsToSend hcall) ?_ ?_
    · rw [hend]
      exact hstop.sentBuffer
    · rw [hend]
      exact congrArg _ hstop.dispatcher
  | other hcall hvisit hcontrol =>
    have hintact := h.intact.step hcall
    cases call with
    | sendControl packetType build => exact absurd rfl (hcontrol packetType build)
    | visitPacketsToSend => exact absurd rfl hvisit
    | processIncomingPacket header payload =>
      obtain ⟨⟨p₁, r⟩, hreceived, rfl⟩ := exists_of_map_eq_ok hcall
      exact h.processIncomingPacket hreceived
    | sendMessage channel payload =>
      obtain ⟨⟨p₁, res⟩, hsend, rfl⟩ := exists_of_map_eq_ok hcall
      obtain ⟨-, hp₁⟩ | ⟨ch, ms, -, -, -, hrec, hp₁⟩ :=
        sendMessage_cases h.intact.maxMessageSize.le hsend
      · exact h.transfer hintact (by rw [hp₁]) (by rw [hp₁])
      · exact h.transfer hintact (by rw [hp₁]) hrec.messagesInPackets
    | setXorSalt salt =>
      cases hcall
      exact h.transfer hintact rfl rfl
    | update dt =>
      cases hcall
      exact h.transfer hintact rfl rfl
    | drainReceivedMessages channel =>
      cases hcall
      exact h.transfer hintact rfl rfl
    | drainMessageAcks channel =>
      cases hcall
      exact h.transfer hintact rfl rfl

/-- What holds of an account holds whatever acks come in. -/
theorem of_acks (h : Accounts w p) : p.AcksOwn w := by
  intro packetType acks p₁ id sentMeta hacks hget hnew
  exact (processAcks_induct (I := Accounts w) (fun hq _ hack => hq.processAck hack) h hacks).handles
    hget hnew

end Accounts

/-! ### Runs -/

theorem LedgerRun.accounts {overflowChecks : Bool} {p : Endpoint} {w : Ledger}
    (h : LedgerRun overflowChecks Orderly p w) : Accounts w p := by
  induction h with
  | new time => exact .new overflowChecks time
  | step _ horderly hwrites ih => exact ih.writes horderly hwrites

/-- **An ack acks the messages of its own packet**, in every state of a run of orderly calls,
whatever acks come in and however often the packet ids have come round. -/
theorem LedgerRun.acksOwn {overflowChecks : Bool} {p : Endpoint} {w : Ledger}
    (h : LedgerRun overflowChecks Orderly p w) : p.AcksOwn w := h.accounts.of_acks

/-! ### A packet id that comes round -/

/-- The last packet id that was used up is that of the last packet sent, and nothing has to be
acked. -/
structure InStep (p : Endpoint) : Prop where
  intact : p.Intact
  newest : p.sentBuffer.sequence = p.sequenceId
  unacked : p.receivedUnackedPackets = 0

/-- **A keep-alive** of an endpoint in step. -/
theorem InStep.exists_keepAlive {p : Endpoint} (h : p.InStep) : ∃ p',
    p.sendControl .keepAlive (fun header => .keepAlive header 7 0) = .ok (p', .ok ()) ∧ p'.InStep ∧
      p'.sequenceId = p.sequenceId + 1 ∧
      p'.dispatcher.messagesInPackets = p.dispatcher.messagesInPackets ∧
      ∃ sentMeta, p'.sentBuffer.get (p.sequenceId + 1) = some sentMeta ∧
        sentMeta.acked = false := by
  have hs := p.sequenceId.toNat_lt
  have hnew := SequenceBuffer.sequenceGreaterThan_succ p.sequenceId
  have hold : SequenceBuffer.sequenceLessThan (p.sequenceId + 1) (p.sequenceId - 512) = false := by
    rw [SequenceBuffer.sequenceLessThan, ← Bool.not_eq_true, SequenceBuffer.sequenceGreaterThan_iff,
      UInt16.toNat_add, UInt16.toNat_sub]
    simp only [UInt16.reduceToNat]
    omega
  have hsend : p.ackState.CanSend := by
    refine ⟨by rw [receivedUnackedPackets_ackState, h.unacked]; decide, ?_⟩
    rw [show p.ackState.sentBuffer = p.sentBuffer from rfl, h.intact.sentLen, h.newest]
    exact hold
  obtain ⟨p', hcall⟩ := exists_sendControl_ok hsend .keepAlive (fun header => .keepAlive header 7 0)
    fun header _ hheader => ⟨_, rfl, by
      rw [h.intact.config]
      simp only [List.length_append, ByteCodec.length_writeU64,
        ByteCodec.length_writeU32, PicklebackConfig.default]
      omega⟩
  refine ⟨p', hcall, ?_⟩
  obtain ⟨⟨e, heq⟩, -⟩ | ⟨p₁, header, pool, buf, size, sb, -, -, -, hsent, hp'⟩ :=
    sendControl_cases hcall
  · cases heq
  · have hseq := SequenceBuffer.sequence_insert hsent
    rw [h.newest, if_pos hnew] at hseq
    have hget : p'.sentBuffer.get (p.sequenceId + 1)
        = some (SentMeta.new p.time size p.receivedBuffer.sequence) := by
      rw [hp']
      exact SequenceBuffer.get_insert_self hsent
    refine ⟨⟨h.intact.sendControl hcall, ?_, ?_⟩, ?_, ?_, _, hget, rfl⟩
    · rw [hp']
      exact hseq
    · rw [hp']
      exact h.unacked
    · rw [hp']
    · rw [hp']

variable {overflowChecks : Bool} {p p' : Endpoint} {w w' : Ledger}

theorem Writes.step {call : Call} (h : p.Writes w call p' w') : p.step call = .ok p' := by
  cases h with
  | control hcall => rw [Endpoint.step, hcall]; rfl
  | notSent hcall => rw [Endpoint.step, hcall]; rfl
  | visit hcall hall hstop hend => rw [Endpoint.step, hcall]; rfl
  | other hcall hvisit hcontrol => exact hcall

/-- **Every run** can be put on account. -/
theorem Reachable.exists_ledgerRun (h : Reachable overflowChecks .default p) :
    ∃ w, LedgerRun overflowChecks (fun _ _ => True) p w := by
  induction h with
  | new time => exact ⟨_, .new time⟩
  | step h hstep ih =>
    obtain ⟨w, hrun⟩ := ih
    obtain ⟨w', hwrites⟩ := exists_writes h.intact w hstep
    exact ⟨w', hrun.step trivial hwrites⟩

/-- Any number of keep-alives. -/
theorem LedgerRun.exists_keepAlives (h : LedgerRun overflowChecks (fun _ _ => True) p w)
    (hstep : p.InStep)
    (n : ℕ) : ∃ p' w', LedgerRun overflowChecks (fun _ _ => True) p' w' ∧ p'.InStep ∧
      p'.sequenceId = p.sequenceId + UInt16.ofNat n ∧
      p'.dispatcher.messagesInPackets = p.dispatcher.messagesInPackets := by
  induction n with
  | zero => exact ⟨p, w, h, hstep, (UInt16.add_zero _).symm, rfl⟩
  | succ n ih =>
    obtain ⟨p₁, w₁, hrun, hstep₁, hseq₁, hhandles₁⟩ := ih
    obtain ⟨p₂, hcall, hstep₂, hseq₂, hhandles₂, -⟩ := hstep₁.exists_keepAlive
    refine ⟨p₂, _, hrun.step trivial (.control hcall), hstep₂, ?_, hhandles₂.trans hhandles₁⟩
    rw [hseq₂, hseq₁, UInt16.ofNat_add, UInt16.add_assoc]
    rfl

/-- A message is put into packet 1, and its packet is lost. -/
def oneMessage : List Call := [.setXorSalt (some 7), .sendMessage 1 [3], .visitPacketsToSend]

/-- After 65536 keep-alives the last of them has the id 1 again: an ack of it acks the message. -/
theorem not_acksOwn : ∃ p w, LedgerRun true (fun _ _ => True) p w ∧ ¬ p.AcksOwn w := by
  obtain ⟨p, hrun, htest⟩ := exists_of_any_toOption (show
    ((Endpoint.new true .default 0).run oneMessage).toOption.any (fun p =>
      decide (p.sequenceId = 1 ∧ p.sentBuffer.sequence = 1 ∧ p.receivedUnackedPackets = 0 ∧
        (p.dispatcher.handlesOf 1).length = 1)) = true by decide +kernel)
  obtain ⟨hseq, hnewest, hunacked, hhandles⟩ := of_decide_eq_true htest
  have hreachable : Reachable true .default p := (Reachable.new 0).run hrun
  obtain ⟨w, hledger⟩ := hreachable.exists_ledgerRun
  obtain ⟨p₁, w₁, hledger₁, hstep₁, hseq₁, hhandles₁⟩ :=
    hledger.exists_keepAlives ⟨hreachable.intact, hnewest.trans hseq.symm, hunacked⟩ 65535
  obtain ⟨p₂, hcall, -, -, hhandles₂, sentMeta, hget, hnew⟩ := hstep₁.exists_keepAlive
  have hid : p₁.sequenceId + 1 = 1 := by
    rw [hseq₁, hseq]
    decide
  refine ⟨p₂, _, hledger₁.step trivial (.control hcall), fun hacks => ?_⟩
  have hwrong := hacks .keepAlive [] p₂ _ sentMeta rfl hget hnew
  rw [Function.update_self, hid, MessageDispatcher.handlesOf, hhandles₂,
    hhandles₁, ← MessageDispatcher.handlesOf]
    at hwrong
  rw [hwrong] at hhandles
  cases hhandles

/-- The windows of sent packets and of their messages have moved together so far when packets are
composed. -/
def InLine (p : Endpoint) : Call → Prop
  | .sendControl _ _ => p.dispatcher.messagesInPackets.get (p.sequenceId + 1) = none
  | .visitPacketsToSend => p.dispatcher.messagesInPackets.sequence = p.sentBuffer.sequence
  | _ => True

instance (p : Endpoint) (c : Call) : Decidable (p.InLine c) :=
  match c with
  | .sendControl _ _ => inferInstanceAs (Decidable (_ = _))
  | .visitPacketsToSend => inferInstanceAs (Decidable (_ = _))
  | .setXorSalt _ | .sendMessage _ _ | .update _ | .processIncomingPacket _ _
    | .drainReceivedMessages _
  | .drainMessageAcks _ => isTrue trivial

/-- Windows that have moved together are disturbed together. -/
theorem Intact.orderly (h : p.Intact) {call : Call} (hline : p.InLine call) : p.Orderly call := by
  cases call with
  | sendControl packetType build => exact fun _ _ => hline
  | visitPacketsToSend =>
    intro e p' _ id sentMeta _ _ _ hdisturbs
    have hseq : p.dispatcher.messagesInPackets.sequence = p.sentBuffer.sequence := hline
    simpa only [SequenceBuffer.Disturbs, Accounts.index_handles h, hseq] using hdisturbs
  | _ => trivial

/-- Such calls make an orderly run. -/
theorem LedgerRun.exists_of_runWhile {calls : List Call} (h : LedgerRun overflowChecks Orderly p w)
    (hrun : p.runWhile InLine calls = some p') : ∃ w', LedgerRun overflowChecks Orderly p' w' := by
  induction calls generalizing p w with
  | nil =>
    cases hrun
    exact ⟨w, h⟩
  | cons c calls ih =>
    obtain ⟨p₁, hline, hstep, hrest⟩ := exists_of_runWhile_cons hrun
    obtain ⟨w₁, hwrites⟩ := exists_writes h.accounts.intact w hstep
    exact ih (h.step (h.accounts.intact.orderly hline) hwrites) hrest

/-- Four messages, the first of which is acked, and a keep-alive. -/
def twoVisits : List Call := [.setXorSalt (some 7), .sendMessage 1 [3], .visitPacketsToSend,
  .processIncomingPacket ⟨.keepAlive, 1, some ⟨1, 1, AckHeader.padded [1], 1, 0, 0⟩⟩ [],
  .sendMessage 1 (List.replicate 1500 4), .sendMessage 0 [5], .visitPacketsToSend,
  .sendControl .keepAlive fun header => .keepAlive header 7 0]

/-- The packets of the second visit and the keep-alive are still to be acked. -/
theorem LedgerRun.acksOwn_twoVisits : ∃ p w, LedgerRun true Orderly p w ∧ p.sequenceId = 4 ∧
    p.newestAck = some 1 ∧ p.dispatcher.handlesOf 1 = [] ∧
      p.dispatcher.handlesOf 2 = [⟨3, none, 0⟩, ⟨1, some 0, 1⟩] ∧ p.AcksOwn w := by
  obtain ⟨p, hrun, htest⟩ := (Option.any_eq_true _ _).mp (show
    ((Endpoint.new true .default 0).runWhile InLine twoVisits).any
      (fun p => decide (p.sequenceId = 4 ∧
      p.newestAck = some 1 ∧ p.dispatcher.handlesOf 1 = [] ∧
        p.dispatcher.handlesOf 2 = [⟨3, none, 0⟩, ⟨1, some 0, 1⟩])) = true by decide +kernel)
  obtain ⟨hid, hnewest, hacked, hhandles⟩ := of_decide_eq_true htest
  have hnew : LedgerRun true Orderly (Endpoint.new true .default 0) fun _ => [] := .new 0
  obtain ⟨w, h⟩ := hnew.exists_of_runWhile hrun
  exact ⟨p, w, h, hid, hnewest, hacked, hhandles, h.acksOwn⟩

end Endpoint

end Pickleback
