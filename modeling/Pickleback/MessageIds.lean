import Pickleback.AckLedger

/-!
# Message ids that are in use

`next_message_id` counts modulo 65536 and looks at nothing. A message on the reliable channel stays
in its queue until it is acked, however many ids are given out meanwhile, and `messages_in_packets`
remembers the handles of messages by their ids. So an id that comes round again may still be in use,
and an ack then has two messages to dismiss, or the wrong one.

The messages are told apart here by their numbers, which do not wrap, in an account that is kept
beside the endpoint: what should be in the queue is what was sent and not acked.

## Main definitions

* `Endpoint.Tally`, `Endpoint.TallyRun` — runs with such an account
* `Endpoint.KeepsApart` — the queue is right, its ids are distinct, and each ack dismisses its own
  messages
* `Endpoint.Call.Fresh` — no id is given out that is in use

## Main results

* `TallyRun.keepsApart` — in runs of such calls messages are kept apart
* `Tallies.step`, `Reachable.exists_tallyRun` — the runs on account are the runs of an endpoint
* `not_keepsApart_of_full_queue` — after 65537 sends two messages share an id
-/

namespace Pickleback

/-! ### The ids of a send -/

/-- How many ids a send takes. -/
def numIds (payload : List UInt8) : ℕ := if payload.length ≤ 1024 then 1 else numFragments payload

/-- The fragment index of the `i`th message of a send. -/
def blockIndex (payload : List UInt8) (i : ℕ) : Option UInt16 :=
  if payload.length ≤ 1024 then none else some (UInt16.ofNat i)

theorem SendBlock.length_eq {parent : MessageId} {channel : UInt8}
    {payload : List UInt8} {ms : List Message}
    (h : SendBlock parent channel payload ms) : ms.length = numIds payload := by
  rw [SendBlock] at h
  rw [numIds]
  split at h
  · next hsmall =>
    obtain ⟨m, rfl, -⟩ := h
    rw [if_pos hsmall, List.length_singleton]
  · next hlarge =>
    rw [if_neg hlarge]
    exact h.1

theorem SendBlock.length_le {parent : MessageId} {channel : UInt8}
    {payload : List UInt8} {ms : List Message}
    (h : SendBlock parent channel payload ms) (hlen : payload.length ≤ 1024 * 1024) :
    ms.length ≤ 1024 := by
  rw [h.length_eq, numIds]
  split
  · omega
  · exact numFragments_le hlen

/-- The ids of a send are distinct. -/
theorem SendBlock.nodup_ids {parent : MessageId} {channel : UInt8}
    {payload : List UInt8} {ms : List Message}
    (h : SendBlock parent channel payload ms) (hlen : payload.length ≤ 1024 * 1024) :
    (ms.map Message.id).Nodup := by
  have hfew := h.length_le hlen
  rw [List.nodup_iff_getElem?_ne_getElem?]
  intro i j hij hj heq
  rw [List.length_map] at hj
  have hi : ms[i]? = some ms[i] := List.getElem?_eq_getElem (by omega)
  have hj' : ms[j]? = some ms[j] := List.getElem?_eq_getElem hj
  rw [List.getElem?_map, List.getElem?_map, hi, hj', Option.map_some,
    Option.map_some, Option.some.injEq,
    (h.getElem? hi).1, (h.getElem? hj').1] at heq
  have := congrArg UInt16.toNat (UInt16.add_right_inj parent |>.mp heq)
  rw [UInt16.toNat_ofNat', UInt16.toNat_ofNat'] at this
  omega

/-- A handle that is not taken for one of the new message leaves it alone. -/
theorem SendBlock.dismissedByAck_eq_false {parent : MessageId}
    {channel : UInt8} {payload : List UInt8}
    {ms : List Message} (h : SendBlock parent channel payload ms)
    {i : ℕ} {m : Message} (hm : ms[i]? = some m)
    {handle : MessageHandle} (hunused : handle.id = parent + UInt16.ofNat i →
      (blockIndex payload i).isSome = true ∧ handle.fragIndex ≠ blockIndex payload i)
      (lastSent : Option Time) :
    ResendableMessage.dismissedByAck ⟨m, lastSent⟩ handle = .ok false := by
  have hid := (h.getElem? hm).1
  rw [ResendableMessage.dismissedByAck]
  by_cases heq : m.id = handle.id
  · obtain ⟨hsome, hne⟩ := hunused (heq.symm.trans hid)
    rw [SendBlock] at h
    rw [blockIndex] at hsome hne
    split at h
    · next hsmall =>
      rw [if_pos hsmall] at hsome
      cases hsome
    · next hlarge =>
      rw [if_neg hlarge] at hne
      obtain ⟨-, -, hfragment, -⟩ := h.2 i m hm
      rw [if_neg (not_not.mpr heq)]
      simp only [hfragment]
      -- the parents are told apart by the indices
      have hparent : (some parent == handle.parentId) = false := by
        rw [beq_eq_false_iff_ne, MessageHandle.parentId]
        cases hindex : handle.fragIndex with
        | none => exact Option.some_ne_none _
        | some index =>
          rw [Option.map_some, ne_eq, Option.some.injEq]
          intro hparent
          refine hne (hindex.trans (congrArg some ?_))
          rw [heq] at hid
          rw [hid, UInt16.eq_sub_iff_add_eq] at hparent
          exact (UInt16.add_right_inj parent).mp hparent
      rw [hparent]
  · rw [if_pos heq]

namespace Endpoint

open MessageDispatcher

/-! ### The account -/

/-- The messages of the reliable channel, each known by its number. -/
structure Tally where
  /-- The messages that were queued, in order. -/
  sent : List Message
  /-- Those that were in a packet that was acked. -/
  acked : Set ℕ
  /-- Those in the packet that `messages_in_packets` was told of last under each id. -/
  written : PacketId → Set ℕ

namespace Tally

/-- Nothing was sent. -/
def start : Tally := ⟨[], ∅, fun _ => ∅⟩

open Classical in
/-- What should be in the queue. -/
noncomputable def queue (t : Tally) : List (Message × ℕ) :=
  t.sent.zipIdx.filter fun x => x.2 ∉ t.acked

/-- The messages that a call of `send_message` has queued. -/
def send (t : Tally) (p p' : Endpoint) : Tally :=
  { t with sent := t.sent ++ (p'.queuedOn 1).drop (p.queuedOn 1).length }

/-- A packet of messages. -/
noncomputable def record (t : Tally) (e : Emission) : Tally :=
  let messages := { k | ∃ m, (m, k) ∈ t.queue ∧ m.handle ∈ e.messages.map Message.handle }
  { t with written := Function.update t.written e.header.id messages }

/-- An incoming packet, with the packets it was the first to ack. -/
def receive (t : Tally) (p p' : Endpoint) : Tally :=
  let messages := { k | ∃ id ∈ p'.ackedIds \ p.ackedIds,
    (p.dispatcher.messagesInPackets.get id).isSome = true ∧ k ∈ t.written id }
  { t with acked := t.acked ∪ messages }

/-- An ack of the handle dismisses message number `k` from the queue, if it is there, and no other.
No assertion fails. -/
def Dismisses (t : Tally) (handle : MessageHandle) (k : ℕ) : Prop :=
  ∀ x ∈ t.queue, ∀ lastSent, ResendableMessage.dismissedByAck ⟨x.1, lastSent⟩ handle =
    .ok (decide (x.2 = k))

theorem mem_queue_iff {t : Tally} {m : Message} {k : ℕ} :
    (m, k) ∈ t.queue ↔ t.sent[k]? = some m ∧ k ∉ t.acked := by
  classical
  rw [queue, List.mem_filter, List.mk_mem_zipIdx_iff_getElem?, decide_eq_true_iff]

theorem mem_sent {t : Tally} {x : Message × ℕ} (hx : x ∈ t.queue) : x.1 ∈ t.sent :=
  List.mem_of_getElem? (mem_queue_iff.mp hx).1

theorem lt_length {t : Tally} {x : Message × ℕ} (hx : x ∈ t.queue) : x.2 < t.sent.length :=
  (List.getElem?_eq_some_iff.mp (mem_queue_iff.mp hx).1).1

open Classical in
/-- The messages of a packet that is acked leave the queue. -/
theorem queue_ack (t : Tally) (ks : Set ℕ) :
    queue { t with acked := t.acked ∪ ks } = t.queue.filter fun x => x.2 ∉ ks := by
  rw [queue, queue, List.filter_filter]
  refine List.filter_congr fun x _ => ?_
  simp only [Set.mem_union, not_or, Bool.decide_and, Bool.and_comm]

/-- A message is known by its number. -/
theorem eq_of_number {t : Tally} {x y : Message × ℕ} (hx : x ∈ t.queue)
    (hy : y ∈ t.queue) (heq : x.2 = y.2) :
    x = y := by
  have hx' := (mem_queue_iff.mp hx).1
  rw [heq, (mem_queue_iff.mp hy).1] at hx'
  exact Prod.ext (Option.some.inj hx').symm heq

end Tally

/-- One call, and what it adds to the account. -/
inductive Tallies (p : Endpoint) (t : Tally) : Call → Endpoint → Tally → Prop
  | send {channel : UInt8} {payload : List UInt8} {p' : Endpoint}
    {r : Except PicklebackError MessageId}
    (hcall : p.sendMessage channel payload = .ok (p', r)) :
    Tallies p t (.sendMessage channel payload) p' (t.send p p')
  /-- The packets `es` of messages. -/
  | visit {p₁ p₂ p' : Endpoint} {es : List Emission} {packets : List (List UInt8)}
    {r : Except PicklebackError Unit} (hcall : p.visitPacketsToSend = .ok (p', packets))
    (hall : p.EmitsAll es p₁) (hstop : p₁.Stops p₂ r)
    (hend : p' = { p₂ with outbox := [], pool := p₂.pool.returnBuffers p₂.outbox }) :
    Tallies p t .visitPacketsToSend p' (es.foldl Tally.record t)
  | receive {header : ProtocolPacketHeader} {payload : List UInt8} {p' : Endpoint}
    {r : Except PicklebackError Unit}
      (hcall : p.processIncomingPacket header payload = .ok (p', r)) :
    Tallies p t (.processIncomingPacket header payload) p' (t.receive p p')
  | setXorSalt (salt : Option UInt64) : Tallies p t (.setXorSalt salt) (p.setXorSalt salt) t
  | update (dt : Time) : Tallies p t (.update dt) (p.update dt) t
  | sendControl {packetType : PacketType} {build : ProtocolPacketHeader → ProtocolPacket}
    {p' : Endpoint}
    {r : Except PicklebackError Unit} (hcall : p.sendControl packetType build = .ok (p', r)) :
    Tallies p t (.sendControl packetType build) p' t
  | drainReceivedMessages (channel : UInt8) :
    Tallies p t (.drainReceivedMessages channel) (p.drainReceivedMessages channel).1 t
  | drainMessageAcks (channel : UInt8) :
    Tallies p t (.drainMessageAcks channel) (p.drainMessageAcks channel).1 t

/-- **Every call** can be put on account. -/
theorem exists_tallies {p p' : Endpoint} (h : p.Intact) (t : Tally)
    {call : Call} (hcall : p.step call = .ok p') :
    ∃ t', p.Tallies t call p' t' := by
  cases call with
  | sendMessage channel payload =>
    obtain ⟨⟨p₁, r⟩, hsend, rfl⟩ := exists_of_map_eq_ok hcall
    exact ⟨_, .send hsend⟩
  | visitPacketsToSend =>
    obtain ⟨⟨p₁, packets⟩, hvisit, rfl⟩ := exists_of_map_eq_ok hcall
    obtain ⟨es, p₂, p₃, r, hall, -, hstop, hend, -⟩ := visitPacketsToSend_cases h hvisit
    exact ⟨_, .visit hvisit hall hstop hend⟩
  | processIncomingPacket header payload =>
    obtain ⟨⟨p₁, r⟩, hreceived, rfl⟩ := exists_of_map_eq_ok hcall
    exact ⟨_, .receive hreceived⟩
  | sendControl packetType build =>
    obtain ⟨⟨p₁, r⟩, hsend, rfl⟩ := exists_of_map_eq_ok hcall
    exact ⟨t, .sendControl hsend⟩
  | setXorSalt salt =>
    cases hcall
    exact ⟨t, .setXorSalt salt⟩
  | update dt =>
    cases hcall
    exact ⟨t, .update dt⟩
  | drainReceivedMessages channel =>
    cases hcall
    exact ⟨t, .drainReceivedMessages channel⟩
  | drainMessageAcks channel =>
    cases hcall
    exact ⟨t, .drainMessageAcks channel⟩

theorem Tallies.step {p p' : Endpoint} {t t' : Tally} {call : Call} (h : p.Tallies t call p' t') :
    p.step call = .ok p' := by
  cases h with
  | send hcall => rw [Endpoint.step, hcall]; rfl
  | visit hcall _ _ _ => rw [Endpoint.step, hcall]; rfl
  | receive hcall => rw [Endpoint.step, hcall]; rfl
  | sendControl hcall => rw [Endpoint.step, hcall]; rfl
  | _ => rfl

/-- The runs of a default-config endpoint, on account, whose calls all meet a condition. -/
inductive TallyRun (overflowChecks : Bool) (Meets : Endpoint → Call → Prop) :
    Endpoint → Tally → Prop
  | new (time : Time) : TallyRun overflowChecks Meets
    (Endpoint.new overflowChecks .default time) .start
  | step {p p' : Endpoint} {t t' : Tally} {call : Call} (h : TallyRun overflowChecks Meets p t)
    (hmeets : Meets p call) (htallies : p.Tallies t call p' t') :
      TallyRun overflowChecks Meets p' t'

/-- **Messages are kept apart.** -/
structure KeepsApart (p : Endpoint) (t : Tally) : Prop where
  /-- The queue of the reliable channel holds the messages that were sent and not acked, -/
  queue : p.queuedOn 1 = t.queue.map Prod.fst
  /-- no two of them have the same id, -/
  distinct : ((p.queuedOn 1).map Message.id).Nodup
  /-- and the ack of a packet can dismiss none but the messages in it. -/
  dismisses : ∀ id handles, p.dispatcher.messagesInPackets.get id = some handles →
    ∀ handle ∈ handles,
    handle.channel = 1 → ∃ k ∈ t.written id, t.Dismisses handle k

/-- No message in the queue has the id. No handle that is remembered has it either, unless the
handle and the new message are told apart by their fragment indices. -/
def Unused (p : Endpoint) (id : MessageId) (index : Option UInt16) : Prop :=
  (∀ m ∈ p.queuedOn 1, m.id ≠ id) ∧
    ∀ packetId handles, p.dispatcher.messagesInPackets.get packetId = some handles →
      ∀ handle ∈ handles,
      handle.channel = 1 → handle.id = id → index.isSome = true ∧ handle.fragIndex ≠ index

instance (p : Endpoint) (id : MessageId) (index : Option UInt16) : Decidable (p.Unused id index) :=
  have := SequenceBuffer.decidableForallGet p.dispatcher.messagesInPackets fun handles =>
    ∀ handle ∈ handles, handle.channel = 1 → handle.id = id → index.isSome = true ∧
      handle.fragIndex ≠ index
  inferInstanceAs (Decidable (_ ∧ _))

/-- A message that is admitted to the reliable channel is given ids that are not in use. -/
def Call.Fresh (p : Endpoint) : Call → Prop
  | .sendMessage channel payload => channel = 1 → payload.length ≤ p.config.maxMessageSize →
    p.sentUnackedPackets < maxUnackedPackets →
      ∀ i < numIds payload, p.Unused (p.dispatcher.nextMessageId + UInt16.ofNat i)
        (blockIndex payload i)
  | _ => True

instance (p : Endpoint) (c : Call) : Decidable (Call.Fresh p c) :=
  match c with
  | .sendMessage channel payload => inferInstanceAs (Decidable (channel = 1 → _ → _ →
      ∀ i < numIds payload, p.Unused (p.dispatcher.nextMessageId + UInt16.ofNat i)
        (blockIndex payload i)))
  | .setXorSalt _ | .visitPacketsToSend | .update _ | .processIncomingPacket _ _ | .sendControl _ _
  | .drainReceivedMessages _ | .drainMessageAcks _ => isTrue trivial

/-! ### The invariant -/

/-- The account agrees with the endpoint. -/
structure Tallied (p : Endpoint) (t : Tally) : Prop extends KeepsApart p t where
  intact : p.Intact
  reliable : ∃ c, HasReliable p.channels c
  sent : ∀ m ∈ t.sent, m.Sent ∧ m.channel = 1
  acked_lt : ∀ k ∈ t.acked, k < t.sent.length
  written_lt : ∀ id, ∀ k ∈ t.written id, k < t.sent.length
  /-- The ack of a packet dismisses all the messages in it. -/
  covers : ∀ id handles, p.dispatcher.messagesInPackets.get id = some handles → ∀ k ∈ t.written id,
    ∃ handle ∈ handles, handle.channel = 1 ∧ t.Dismisses handle k

namespace Tallied

variable {p p' : Endpoint} {t t' : Tally}

theorem new (overflowChecks : Bool) (time : Time) :
    Tallied (Endpoint.new overflowChecks .default time) .start where
  queue := rfl
  distinct := List.nodup_nil
  dismisses := fun id handles hget => by cases hget
  intact := intact_new overflowChecks time
  reliable := ⟨ReliableChannel.new 1 time, rfl, rfl⟩
  sent := by simp [Tally.start]
  acked_lt := by simp [Tally.start]
  written_lt := by simp [Tally.start]
  covers := fun id handles hget => by cases hget

/-- Neither the queue nor the handles have changed. -/
theorem transfer (h : Tallied p t) (hintact : p'.Intact)
    (hreliable : ∃ c, HasReliable p'.channels c)
    (hqueue : p'.queuedOn 1 = p.queuedOn 1)
    (hhandles : p'.dispatcher.messagesInPackets = p.dispatcher.messagesInPackets) :
    Tallied p' t where
  queue := hqueue.trans h.queue
  distinct := by
    rw [hqueue]
    exact h.distinct
  dismisses := by
    rw [hhandles]
    exact h.dismisses
  intact := hintact
  reliable := hreliable
  sent := h.sent
  acked_lt := h.acked_lt
  written_lt := h.written_lt
  covers := by
    rw [hhandles]
    exact h.covers

theorem of_channels (h : Tallied p t) (hintact : p'.Intact) (hchannels : p'.channels = p.channels)
    (hhandles : p'.dispatcher.messagesInPackets = p.dispatcher.messagesInPackets) :
    Tallied p' t := by
  refine h.transfer hintact ?_ (queuedOn_of_channels hchannels 1) hhandles
  rw [hchannels]
  exact h.reliable

theorem sameSending (h : Tallied p t) (hsame : p.SameSending p') : Tallied p' t := by
  obtain ⟨hreliable, hqueue⟩ := Retains.queuedOn_of_sameQueue hsame.channels h.reliable
  exact h.transfer (hsame.intact h.intact) hreliable hqueue hsame.messagesInPackets

/-- A message in the queue is known by its id. -/
theorem eq_of_id (h : Tallied p t) {x y : Message × ℕ} (hx : x ∈ t.queue) (hy : y ∈ t.queue)
    (hid : x.1.id = y.1.id) : x = y := by
  have hnodup := h.distinct
  rw [h.queue, List.map_map] at hnodup
  exact List.inj_on_of_nodup_map hnodup hx hy hid

/-- The handle of a message in the queue dismisses that one. -/
theorem dismisses_handle (h : Tallied p t) {m : Message} {k : ℕ} (hm : (m, k) ∈ t.queue) :
    t.Dismisses m.handle k := by
  intro x hx lastSent
  rw [ResendableMessage.dismissedByAck_handle (h.sent m (Tally.mem_sent hm)).1
    fun hid => congrArg Prod.fst (h.eq_of_id hx hm hid)]
  congr 1
  rw [Bool.eq_iff_iff, beq_iff_eq, decide_eq_true_iff]
  constructor
  · intro hid
    rw [h.eq_of_id hx hm hid]
  · intro hk
    rw [Tally.eq_of_number hx hm hk]

/-- What a packet holds of the reliable channel is in its queue. -/
theorem exists_mem_queue (h : Tallied p t) {e : Emission} (hemits : p.Emits e p') {m : Message}
    (hm : m ∈ e.messages) (hchan : m.channel = 1) : ∃ m₀ k, (m₀, k) ∈ t.queue ∧
      m₀.handle = m.handle := by
  obtain ⟨m₀, hm₀, hcopy⟩ := hemits.exists_mem_queuedOn h.intact hm
  rw [hchan, h.queue, List.mem_map] at hm₀
  obtain ⟨⟨m', k⟩, hmem, rfl⟩ := hm₀
  exact ⟨m', k, hmem, hcopy.handle.symm⟩

/-- **A packet of messages.** -/
theorem emits (h : Tallied p t) {e : Emission} (hemits : p.Emits e p') :
    Tallied p' (t.record e) := by
  obtain ⟨hreliable, hqueue⟩ := Retains.queuedOn_of_wrote hemits.wrote h.reliable
  have hget : ∀ {id handles}, p'.dispatcher.messagesInPackets.get id = some handles →
      (id = e.header.id ∧ handles = e.messages.map Message.handle) ∨
        id ≠ e.header.id ∧ p.dispatcher.messagesInPackets.get id = some handles := by
    intro id handles hget
    rw [hemits.header_id]
    by_cases hid : id = p.sequenceId + 1
    · rw [hid, SequenceBuffer.get_insert_self hemits.handles] at hget
      exact Or.inl ⟨hid, (Option.some.inj hget).symm⟩
    · obtain ⟨rfl, -⟩ | hold := SequenceBuffer.get_of_get_insert hemits.handles hget
      · exact absurd rfl hid
      · exact Or.inr ⟨hid, hold⟩
  refine ⟨⟨hqueue.trans h.queue, hqueue ▸ h.distinct, ?_⟩, h.intact.emits hemits,
    hreliable, h.sent, h.acked_lt, ?_, ?_⟩
  · intro id handles hhandles handle hmem hchan
    obtain ⟨rfl, rfl⟩ | ⟨hne, hold⟩ := hget hhandles
    · obtain ⟨m, hm, rfl⟩ := List.mem_map.mp hmem
      obtain ⟨m₀, k, hqueued, hhandle⟩ := h.exists_mem_queue hemits hm hchan
      refine ⟨k, ?_, ?_⟩
      · simp only [Tally.record, Function.update_self]
        exact ⟨m₀, hqueued, hhandle ▸ hmem⟩
      · rw [← hhandle]
        exact h.dismisses_handle hqueued
    · obtain ⟨k, hk, hdismisses⟩ := h.dismisses id handles hold handle hmem hchan
      refine ⟨k, ?_, hdismisses⟩
      simp only [Tally.record, Function.update_of_ne hne]
      exact hk
  · intro id k hk
    by_cases hid : id = e.header.id
    · simp only [Tally.record, hid, Function.update_self] at hk
      obtain ⟨m, hm, -⟩ := hk
      exact Tally.lt_length hm
    · simp only [Tally.record, Function.update_of_ne hid] at hk
      exact h.written_lt id k hk
  · intro id handles hhandles k hk
    obtain ⟨rfl, rfl⟩ | ⟨hne, hold⟩ := hget hhandles
    · simp only [Tally.record, Function.update_self] at hk
      obtain ⟨m, hm, hmem⟩ := hk
      exact ⟨m.handle, hmem, (h.sent m (Tally.mem_sent hm)).2, h.dismisses_handle hm⟩
    · simp only [Tally.record, Function.update_of_ne hne] at hk
      exact h.covers id handles hold k hk

theorem emitsAll {es : List Emission} (h : Tallied p t) (hall : p.EmitsAll es p') :
    Tallied p' (es.foldl Tally.record t) := by
  induction hall generalizing t with
  | nil _ => exact h
  | cons hemits _ ih => exact ih (h.emits hemits)

/-- What is sent joins the end of the queue. -/
theorem queue_append (h : Tallied p t) (ms : List Message) :
    Tally.queue { t with sent := t.sent ++ ms } = t.queue ++ ms.zipIdx t.sent.length := by
  classical
  have hnew : (ms.zipIdx t.sent.length).filter (fun x => x.2 ∉ t.acked) =
    ms.zipIdx t.sent.length := by
    refine List.filter_eq_self.mpr fun x hx => ?_
    have hle := (List.mem_zipIdx_iff_le_and_getElem?_sub.mp hx).1
    rw [decide_eq_true_iff]
    exact fun hacked => absurd (h.acked_lt _ hacked) (by omega)
  rw [Tally.queue, Tally.queue, List.zipIdx_append, List.filter_append, Nat.zero_add]
  exact congrArg₂ _ rfl hnew

/-- **A send** with ids that are not in use. -/
theorem queued (h : Tallied p t) {payload : List UInt8} {ms : List Message}
    (hlen : payload.length ≤ 1024 * 1024)
    (hblock : SendBlock p.dispatcher.nextMessageId 1 payload ms)
    (hunused : ∀ i < numIds payload, p.Unused (p.dispatcher.nextMessageId + UInt16.ofNat i)
      (blockIndex payload i))
    (hintact : p'.Intact) (hreliable : ∃ c, HasReliable p'.channels c)
    (hqueue : p'.queuedOn 1 = p.queuedOn 1 ++ ms)
    (hhandles : p'.dispatcher.messagesInPackets = p.dispatcher.messagesInPackets) :
    Tallied p' { t with sent := t.sent ++ ms } := by
  have happend := h.queue_append ms
  -- no handle that is remembered is taken for one of the new messages
  have hkeeps : ∀ id handles, p.dispatcher.messagesInPackets.get id = some handles →
    ∀ handle ∈ handles,
      handle.channel = 1 → ∀ k ∈ t.written id, t.Dismisses handle k →
        Tally.Dismisses { t with sent := t.sent ++ ms } handle k := by
    intro id handles hget handle hmem hchan k hk hdismisses x hx lastSent
    rw [happend] at hx
    rcases List.mem_append.mp hx with hx | hx
    · exact hdismisses x hx lastSent
    · obtain ⟨hle, hx⟩ := List.mem_zipIdx_iff_le_and_getElem?_sub.mp hx
      have hlt : x.2 - t.sent.length < numIds payload := by
        rw [← hblock.length_eq]
        exact (List.getElem?_eq_some_iff.mp hx).1
      have hne : x.2 ≠ k := by
        have := h.written_lt id k hk
        omega
      rw [decide_eq_false hne]
      exact hblock.dismissedByAck_eq_false hx (fun hid =>
        (hunused _ hlt).2 id handles hget handle hmem hchan hid)
        lastSent
  refine ⟨⟨?_, ?_, ?_⟩, hintact, hreliable, ?_, ?_, ?_, ?_⟩
  · rw [hqueue, happend, List.map_append, ← h.queue, List.zipIdx_map_fst]
  · rw [hqueue, List.map_append]
    refine List.nodup_append.mpr ⟨h.distinct, hblock.nodup_ids hlen, ?_⟩
    intro id hid id' hid' heq
    obtain ⟨m, hm, rfl⟩ := List.mem_map.mp hid
    obtain ⟨m', hm', rfl⟩ := List.mem_map.mp hid'
    obtain ⟨i, hi⟩ := List.mem_iff_getElem?.mp hm'
    have hlt : i < numIds payload := by
      rw [← hblock.length_eq]
      exact (List.getElem?_eq_some_iff.mp hi).1
    exact (hunused i hlt).1 m hm (heq.trans (hblock.getElem? hi).1)
  · rw [hhandles]
    intro id handles hget handle hmem hchan
    obtain ⟨k, hk, hdismisses⟩ := h.dismisses id handles hget handle hmem hchan
    exact ⟨k, hk, hkeeps id handles hget handle hmem hchan k hk hdismisses⟩
  · intro m hm
    rcases List.mem_append.mp hm with hm | hm
    · exact h.sent m hm
    · exact ⟨sent_of_sendBlock (Or.inr rfl) hblock hm, (sendBlock_mem hblock hm).1⟩
  · intro k hk
    have := h.acked_lt k hk
    rw [List.length_append]
    omega
  · intro id k hk
    have := h.written_lt id k hk
    rw [List.length_append]
    omega
  · rw [hhandles]
    intro id handles hget k hk
    obtain ⟨handle, hmem, hchan, hdismisses⟩ := h.covers id handles hget k hk
    exact ⟨handle, hmem, hchan, hkeeps id handles hget handle hmem hchan k hk hdismisses⟩

/-- A call of `send_message`. -/
theorem sendMessage (h : Tallied p t) {channel : UInt8} {payload : List UInt8}
    (hfresh : Call.Fresh p (.sendMessage channel payload)) {r : Except PicklebackError MessageId}
    (hcall : p.sendMessage channel payload = .ok (p', r)) : Tallied p' (t.send p p') := by
  have hintact := h.intact.sendMessage hcall
  have hnone (hsame : p'.queuedOn 1 = p.queuedOn 1) : t.send p p' = t := by
    rw [Tally.send, hsame, List.drop_length, List.append_nil]
  obtain ⟨-, hp'⟩ | ⟨ch, ms, hlen, hch, hblock, hrec, hp'⟩ :=
    sendMessage_cases h.intact.maxMessageSize.le hcall
  · have hchannels : p'.channels = p.channels := by rw [hp']
    rw [hnone (queuedOn_of_channels hchannels 1)]
    exact h.of_channels hintact hchannels (by rw [hp'])
  · have hchannels : p'.channels = p.channels.set channel (ch.pushAll ms) := by rw [hp']
    have hid : (ch.pushAll ms).id = channel := by
      rw [Channel.id_pushAll]
      exact ChannelList.id_of_get? hch
    have hreliable : ∃ c, HasReliable p'.channels c := by
      obtain ⟨c, hc⟩ := h.reliable
      rw [hchannels]
      exact Retains.hasReliable_pushAll hc hch ms
    have hqueue := Retains.queuedOn_set hch hid hchannels 1
    by_cases hone : 1 = channel
    · subst hone
      rw [if_pos rfl, Channel.queued_pushAll] at hqueue
      have hqueue : p'.queuedOn 1 = p.queuedOn 1 ++ ms := by
        rw [hqueue, queuedOn, hch]
        rfl
      -- the call was admitted, as it has queued something
      have hunacked : p.sentUnackedPackets < maxUnackedPackets := by
        by_contra hfull
        rw [Endpoint.sendMessage, if_neg (by rw [h.intact.maxMessageSize]; omega),
          if_pos (UInt16.not_lt.mp hfull)] at hcall
        cases hcall
        exact SendBlock_ne_nil hblock (List.self_eq_append_right.mp hqueue)
      have hsend : t.send p p' = { t with sent := t.sent ++ ms } := by
        rw [Tally.send, hqueue, List.drop_left]
      rw [hsend]
      exact h.queued hlen hblock (hfresh rfl (h.intact.maxMessageSize ▸ hlen) hunacked)
        hintact hreliable hqueue
        hrec.messagesInPackets
    · rw [if_neg hone] at hqueue
      rw [hnone hqueue]
      exact h.transfer hintact hreliable hqueue hrec.messagesInPackets

/-- **The queue after an ack**: the messages of the packet have left it, and no others. -/
theorem queuedOn_ackedPacket (h : Tallied p t) {s : PacketId} {d : MessageDispatcher}
    {channels : ChannelList}
    {buffers : List PooledBuffer}
    (hd : p.dispatcher.ackedPacket s p.channels = .ok (buffers, d, channels))
    {handles : List MessageHandle} (hget : p.dispatcher.messagesInPackets.get s = some handles) :
    ∃ c, HasReliable channels c ∧
      c.q.map ResendableMessage.message =
        (Tally.queue { t with acked := t.acked ∪ t.written s }).map Prod.fst := by
  classical
  obtain ⟨c, hc⟩ := h.reliable
  have hqueue := h.queue
  rw [Retains.queuedOn_of_hasReliable hc] at hqueue
  -- what a handle says of a message
  let dismissed (handle : MessageHandle) (m : Message) : Bool :=
    (ResendableMessage.dismissedByAck ⟨m, none⟩ handle).toOption.getD false
  have hdismissed : ∀ handle ∈ handles, handle.channel = 1 → ∃ k ∈ t.written s, ∀ x ∈ t.queue,
      dismissed handle x.1 = decide (x.2 = k) := by
    intro handle hmem hchan
    obtain ⟨k, hk, hdismisses⟩ := h.dismisses s handles hget handle hmem hchan
    refine ⟨k, hk, fun x hx => ?_⟩
    simp only [dismissed, hdismisses x hx none]
    rfl
  have hok : ∀ handle ∈ handles, handle.channel = 1 → ∀ x ∈ c.q,
      x.dismissedByAck handle = .ok (dismissed handle x.message) := by
    intro handle hmem hchan x hx
    obtain ⟨k, -, hdismisses⟩ := h.dismisses s handles hget handle hmem hchan
    have hx' : x.message ∈ c.q.map ResendableMessage.message := List.mem_map_of_mem hx
    rw [hqueue, List.mem_map] at hx'
    obtain ⟨y, hy, hyx⟩ := hx'
    have hnone := hdismisses y hy none
    have hsome := hdismisses y hy x.lastSent
    rw [hyx] at hnone hsome
    simp only [dismissed, hnone]
    exact hsome
  rw [ackedPacket_eq, handlesOf, hget, Option.getD_some] at hd
  obtain ⟨c', hc', hq'⟩ := ackHandles_filter (f := fun handle x => dismissed handle x.message)
    hc hok hd
  refine ⟨c', hc', ?_⟩
  have hmessages : c'.q.map ResendableMessage.message
      = (c.q.map ResendableMessage.message).filter
          fun m => !(handles.any fun handle => handle.channel == 1 && dismissed handle m) := by
    rw [hq', List.filter_map]
    rfl
  rw [hmessages, hqueue, List.filter_map, Tally.queue_ack]
  congr 1
  refine List.filter_congr fun x hx => ?_
  rw [Function.comp_apply, Bool.eq_iff_iff, Bool.not_eq_true',
    decide_eq_true_iff, ← Bool.not_eq_true,
    List.any_eq_true, not_iff_not]
  constructor
  · rintro ⟨handle, hmem, htest⟩
    rw [Bool.and_eq_true, beq_iff_eq] at htest
    obtain ⟨k, hk, heq⟩ := hdismissed handle hmem htest.1
    rw [heq x hx, decide_eq_true_iff] at htest
    exact htest.2 ▸ hk
  · intro hwritten
    obtain ⟨handle, hmem, hchan, hdismisses⟩ := h.covers s handles hget x.2 hwritten
    refine ⟨handle, hmem, ?_⟩
    rw [hchan, beq_self_eq_true, Bool.true_and]
    simp only [dismissed, hdismisses x hx none, decide_true]
    rfl

/-- What an ack of a packet does to the account. -/
theorem acked (h : Tallied p t) {s : PacketId} {d : MessageDispatcher} {channels : ChannelList}
    {buffers : List PooledBuffer}
    (hd : p.dispatcher.ackedPacket s p.channels = .ok (buffers, d, channels))
    (hintact : p'.Intact) (hdispatcher : p'.dispatcher = d) (hchannels : p'.channels = channels) :
    Tallied p' { t with acked := t.acked ∪
      { k | (p.dispatcher.messagesInPackets.get s).isSome = true ∧ k ∈ t.written s } } := by
  subst hdispatcher hchannels
  have hhandles := (MessageDispatcher.ackedPacket_eq_ok h.intact.channels hd).1.messagesInPackets
  have hqueue : ∃ c, HasReliable p'.channels c ∧
    c.q.map ResendableMessage.message = (Tally.queue { t with
      acked := t.acked ∪ { k | (p.dispatcher.messagesInPackets.get s).isSome = true ∧
        k ∈ t.written s } }).map
        Prod.fst := by
    cases hget : p.dispatcher.messagesInPackets.get s with
    | none =>
      obtain ⟨c, hc⟩ := h.reliable
      rw [ackedPacket_eq, handlesOf, hget, Option.getD_none, ackHandles] at hd
      have hsame : p.channels = p'.channels := congrArg (fun r => r.2.2) (Except.ok.inj hd)
      refine ⟨c, hsame ▸ hc, ?_⟩
      rw [← Retains.queuedOn_of_hasReliable hc, h.queue]
      simp
    | some handles =>
      obtain ⟨c, hc, heq⟩ := h.queuedOn_ackedPacket hd hget
      exact ⟨c, hc, by simpa using heq⟩
  obtain ⟨c, hc, hqueue⟩ := hqueue
  have hsub : ∀ x ∈ Tally.queue { t with acked := t.acked ∪
      { k | (p.dispatcher.messagesInPackets.get s).isSome = true ∧ k ∈ t.written s } },
        x ∈ t.queue := by
    classical
    rw [Tally.queue_ack]
    exact fun x hx => List.mem_of_mem_filter hx
  rw [← Retains.queuedOn_of_hasReliable hc] at hqueue
  refine ⟨⟨hqueue, ?_, ?_⟩, hintact, ⟨c, hc⟩, h.sent, ?_, h.written_lt, ?_⟩
  · rw [hqueue]
    have hdistinct := h.distinct
    rw [h.queue] at hdistinct
    classical
    rw [Tally.queue_ack]
    exact hdistinct.sublist ((List.filter_sublist.map _).map _)
  · rw [hhandles]
    intro id handles hget handle hmem hchan
    obtain ⟨k, hk, hdismisses⟩ :=
      h.dismisses id handles (SequenceBuffer.get_of_get_remove hget) handle hmem hchan
    exact ⟨k, hk, fun x hx => hdismisses x (hsub x hx)⟩
  · rintro k (hk | ⟨-, hk⟩)
    · exact h.acked_lt k hk
    · exact h.written_lt s k hk
  · rw [hhandles]
    intro id handles hget k hk
    obtain ⟨handle, hmem, hchan, hdismisses⟩ :=
      h.covers id handles (SequenceBuffer.get_of_get_remove hget) k hk
    exact ⟨handle, hmem, hchan, fun x hx => hdismisses x (hsub x hx)⟩

/-- **An incoming packet.** -/
theorem processIncomingPacket (h : Tallied p t) {header : ProtocolPacketHeader}
    {payload : List UInt8}
    {r : Except PicklebackError Unit} (hcall : p.processIncomingPacket header
      payload = .ok (p', r)) :
    Tallied p' (t.receive p p') := by
  -- what may still be acked is as it was before the packet
  let Unmoved (q : Endpoint) : Prop := ∀ id sentMeta, q.sentBuffer.get id = some sentMeta →
    sentMeta.acked = false → q.dispatcher.messagesInPackets.get id =
      p.dispatcher.messagesInPackets.get id ∧
      id ∉ p.ackedIds
  have hquiet : ∀ {q q' : Endpoint}, Tallied q (t.receive p q) ∧ Unmoved q → q.SameSending q' →
      Tallied q' (t.receive p q') ∧ Unmoved q' := by
    rintro q q' ⟨hq, hunmoved⟩ hsame
    have hids : q'.ackedIds = q.ackedIds := by rw [ackedIds, ackedIds, hsame.sentBuffer]
    have hreceive : t.receive p q' = t.receive p q := by rw [Tally.receive, Tally.receive, hids]
    rw [hreceive]
    refine ⟨hq.sameSending hsame, fun id sentMeta hget hnew => ?_⟩
    rw [hsame.messagesInPackets]
    exact hunmoved id sentMeta (hsame.sentBuffer ▸ hget) hnew
  suffices hboth : Tallied p' (t.receive p p') ∧ Unmoved p' from hboth.1
  refine processIncomingPacket_induct (I := fun q => Tallied q (t.receive p q) ∧
    Unmoved q) ?_ ?_ ?_ ?_ ?_ hcall
  · intro q q' hq hsame
    exact hquiet hq hsame.sameSending
  · intro q b id m hq hb
    exact hquiet hq (sameSending_of_channels (fun hq => hq.receivedBuffer hb) rfl rfl rfl rfl rfl)
  · rintro q q' packetType ack ⟨hq, hunmoved⟩ hack
    have hintact := hq.intact.processAck hack
    obtain rfl | ⟨sentMeta, buffers, d, channels, hget, hnew, hd, hq'⟩ := processAck_cases hack
    · exact ⟨hq, hunmoved⟩
    · obtain ⟨hold, hfirst⟩ := hunmoved _ _ hget hnew
      have hids : q'.ackedIds = insert ack.1 q.ackedIds := Retains.ackedIds_setEntry hget (by
        rw [hq'])
      have hreceive : t.receive p q' = { t.receive p q with acked := (t.receive p q).acked ∪
          { k | (q.dispatcher.messagesInPackets.get ack.1).isSome = true ∧ k ∈ t.written ack.1 }
            } := by
        have hdiff : q'.ackedIds \ p.ackedIds = insert ack.1 (q.ackedIds \ p.ackedIds) := by
          rw [hids, Set.insert_sdiff_of_notMem _ hfirst]
        simp only [Tally.receive, hdiff, hold, Tally.mk.injEq, true_and, and_true, Set.union_assoc]
        congr 1
        ext k
        simp only [Set.mem_ofPred_eq, Set.mem_union, Set.mem_insert_iff, exists_eq_or_imp]
        exact or_comm
      rw [hreceive]
      refine ⟨hq.acked hd hintact (by rw [hq']) (by rw [hq']), ?_⟩
      -- the next ack is of another packet, in another slot
      intro id sentMeta' hget' hnew'
      have hsent : q'.sentBuffer = q.sentBuffer.setEntry ack.1 { sentMeta with acked := true } := by
        rw [hq']
      have hhandles : q'.dispatcher.messagesInPackets =
        (q.dispatcher.messagesInPackets.remove ack.1).2 := by
        rw [hq']
        exact (MessageDispatcher.ackedPacket_eq_ok hq.intact.channels hd).1.messagesInPackets
      rw [hsent, SequenceBuffer.get_setEntry hget] at hget'
      by_cases hid : id = ack.1
      · rw [if_pos hid, Option.some.injEq] at hget'
        rw [← hget'] at hnew'
        cases hnew'
      · rw [if_neg hid] at hget'
        rw [hhandles, SequenceBuffer.get_remove_of_ne]
        · exact hunmoved id sentMeta' hget' hnew'
        · rw [Accounts.index_handles hq.intact, Accounts.index_handles hq.intact]
          exact Accounts.index_ne hget' hget hid
  · intro q q' m hq hm
    exact hquiet hq (sameSending_receiveMessage hq.1.intact hm)
  · have hreceive : t.receive p p = t := by
      simp [Tally.receive]
    rw [hreceive]
    refine ⟨h, fun id sentMeta hget hnew => ⟨rfl, ?_⟩⟩
    rintro ⟨sentMeta', hget', hacked⟩
    rw [hget] at hget'
    obtain rfl := Option.some.inj hget'
    rw [hnew] at hacked
    cases hacked

/-- **One call.** -/
theorem tallies (h : Tallied p t) {call : Call} (hfresh : Call.Fresh p call)
    (htallies : p.Tallies t call p' t') :
    Tallied p' t' := by
  cases htallies with
  | send hcall => exact h.sendMessage hfresh hcall
  | @visit p₁ p₂ _ es _ _ hcall hall hstop hend =>
    refine (h.emitsAll hall).of_channels (h.intact.visitPacketsToSend hcall) ?_ ?_
    · rw [hend]
      exact hstop.channels
    · rw [hend]
      exact congrArg _ hstop.dispatcher
  | receive hcall => exact h.processIncomingPacket hcall
  | sendControl hcall =>
    exact h.of_channels (h.intact.sendControl hcall) (channels_sendControl hcall)
      (congrArg _ (dispatcher_sendControl hcall))
  | setXorSalt salt => exact h.of_channels (h.intact.step (c := .setXorSalt salt) rfl) rfl rfl
  | update dt =>
    obtain ⟨hreliable, hqueue⟩ := Retains.queuedOn_of_sameQueue (p.sameQueue_update dt) h.reliable
    exact h.transfer (h.intact.step (c := .update dt) rfl) hreliable hqueue rfl
  | drainReceivedMessages channel =>
    exact h.of_channels (h.intact.step (c := .drainReceivedMessages channel) rfl) rfl rfl
  | drainMessageAcks channel =>
    exact h.of_channels (h.intact.step (c := .drainMessageAcks channel) rfl) rfl rfl

end Tallied

/-! ### Runs -/

variable {overflowChecks : Bool} {p p' : Endpoint} {t t' : Tally}

theorem TallyRun.tallied (h : TallyRun overflowChecks Call.Fresh p t) : Tallied p t := by
  induction h with
  | new time => exact .new overflowChecks time
  | step _ hfresh htallies ih => exact ih.tallies hfresh htallies

/-- **Live ids are unique**, in every state of a run in which no id is given out that is in use,
however often the ids have come round. -/
theorem TallyRun.keepsApart (h : TallyRun overflowChecks Call.Fresh p t) : KeepsApart p t :=
  h.tallied.toKeepsApart

/-- **Every run** can be put on account. -/
theorem Reachable.exists_tallyRun (h : Reachable overflowChecks .default p) :
    ∃ t, TallyRun overflowChecks (fun _ _ => True) p t := by
  induction h with
  | new time => exact ⟨_, .new time⟩
  | step h hstep ih =>
    obtain ⟨t, hrun⟩ := ih
    obtain ⟨t', htallies⟩ := exists_tallies h.intact t hstep
    exact ⟨t', hrun.step trivial htallies⟩

/-! ### An id that comes round -/

/-- A small message on the reliable channel is queued while few packets are unacked. -/
theorem Intact.exists_queued (h : p.Intact) (hunacked : p.sentUnackedPackets < maxUnackedPackets) :
    ∃ p' id, p.sendMessage 1 [3] = .ok (p', .ok id) ∧ p'.sentUnackedPackets = p.sentUnackedPackets ∧
      (p'.queuedOn 1).length = (p.queuedOn 1).length + 1 := by
  obtain ⟨ch, hch⟩ := h.exists_get? (Or.inr rfl)
  obtain ⟨p', hcall⟩ := exists_sendMessage hch (by decide)
    (show [(3 : UInt8)].length ≤ 1024 by decide)
    (by rw [h.maxMessageSize]; decide) (UInt16.not_le.mpr hunacked)
  obtain ⟨⟨e, he⟩, -⟩ | ⟨ch', ms, -, hch', hblock, -, hp'⟩ :=
    sendMessage_cases h.maxMessageSize.le hcall
  · cases he
  · refine ⟨p', _, hcall, by rw [hp']; rfl, ?_⟩
    have hid : (ch'.pushAll ms).id = 1 := by
      rw [Channel.id_pushAll]
      exact ChannelList.id_of_get? hch'
    have hqueue := Retains.queuedOn_set hch' hid (show p'.channels = _ by rw [hp']) 1
    rw [hqueue, if_pos rfl, Channel.queued_pushAll, List.length_append,
      hblock.length_eq, queuedOn, hch']
    rfl

/-- Any number of them. -/
theorem TallyRun.exists_queued (h : TallyRun overflowChecks (fun _ _ => True) p t)
    (hunacked : p.sentUnackedPackets < maxUnackedPackets) (n : ℕ) :
    ∃ p' t', TallyRun overflowChecks (fun _ _ => True) p' t' ∧ p'.Intact ∧
      p'.sentUnackedPackets = p.sentUnackedPackets ∧
        (p'.queuedOn 1).length = (p.queuedOn 1).length + n := by
  have hintact : ∀ {p t}, TallyRun overflowChecks (fun _ _ => True) p t → p.Intact := by
    intro p t h
    induction h with
    | new time => exact intact_new overflowChecks time
    | step _ _ htallies ih => exact ih.step htallies.step
  induction n with
  | zero => exact ⟨p, t, h, hintact h, rfl, rfl⟩
  | succ n ih =>
    obtain ⟨p₁, t₁, h₁, hp₁, hunacked₁, hlen₁⟩ := ih
    obtain ⟨p₂, id, hcall, hunacked₂, hlen₂⟩ := hp₁.exists_queued (hunacked₁ ▸ hunacked)
    have h₂ := h₁.step trivial (.send hcall)
    exact ⟨p₂, _, h₂, hintact h₂, hunacked₂.trans hunacked₁, by rw [hlen₂, hlen₁, Nat.add_assoc]⟩

/-- There are 65536 ids. -/
theorem length_le_of_nodup_ids {ms : List Message} (h : (ms.map Message.id).Nodup) :
    ms.length ≤ 65536 := by
  have hnodup : ((ms.map Message.id).map UInt16.toNat).Nodup := h.map fun a b => UInt16.toNat_inj.mp
  have hsub : ((ms.map Message.id).map UInt16.toNat).toFinset ⊆ Finset.range 65536 := by
    intro k hk
    obtain ⟨id, -, rfl⟩ := List.mem_map.mp (List.mem_toFinset.mp hk)
    exact Finset.mem_range.mpr id.toNat_lt
  have hcard := Finset.card_le_card hsub
  rwa [List.toFinset_card_of_nodup hnodup, Finset.card_range, List.length_map, List.length_map]
    at hcard

/-- No packet is in flight, so 65537 messages are admitted one after another. -/
theorem not_keepsApart_of_full_queue : ∃ p t, TallyRun true (fun _ _ => True) p t ∧
    ¬ KeepsApart p t := by
  have hnew : TallyRun true (fun _ _ => True) (Endpoint.new true .default 0) .start := .new 0
  obtain ⟨p, t, h, -, -, hlen⟩ := hnew.exists_queued (by decide) 65537
  refine ⟨p, t, h, fun hkeeps => ?_⟩
  have hle := length_le_of_nodup_ids hkeeps.distinct
  have hempty : ((Endpoint.new true .default 0).queuedOn 1).length = 0 := rfl
  omega

/-- Fresh calls make a run on account. -/
theorem TallyRun.exists_of_runWhile {calls : List Call} (h : TallyRun overflowChecks Call.Fresh p t)
    (hrun : p.runWhile Call.Fresh calls = some p') :
    ∃ t', TallyRun overflowChecks Call.Fresh p' t' := by
  induction calls generalizing p t with
  | nil =>
    cases hrun
    exact ⟨t, h⟩
  | cons c calls ih =>
    obtain ⟨p₁, hfresh, hstep, hrest⟩ := exists_of_runWhile_cons hrun
    obtain ⟨t₁, htallies⟩ := exists_tallies h.tallied.intact t hstep
    exact ih (h.step hfresh htallies) hrest

/-- A fragmented message and two others are sent, the packet of the first fragment is acked, and the
rest is due again. -/
def partlyAcked : List Call :=
  [.setXorSalt (some 7), .sendMessage 1 (List.replicate 1500 3), .visitPacketsToSend,
  .sendMessage 1 [4], .sendMessage 0 [5], .visitPacketsToSend,
  .processIncomingPacket ⟨.keepAlive, 1, some ⟨1, 1, AckHeader.padded [1], 1, 0, 0⟩⟩ [], .update 1,
  .sendMessage 1 [6], .visitPacketsToSend]

/-- Three messages are still in the queue; each is in a packet that can be acked. -/
theorem TallyRun.keepsApart_partlyAcked : ∃ p t, TallyRun true Call.Fresh p t ∧
    p.newestAck = some 1 ∧
    (p.queuedOn 1).map Message.id = [1, 2, 4] ∧
      (p.dispatcher.messagesInPackets.get 4).isSome = true ∧ KeepsApart p t := by
  obtain ⟨p, hrun, htest⟩ := (Option.any_eq_true _ _).mp (show
    ((Endpoint.new true .default 0).runWhile Call.Fresh partlyAcked).any (fun p => decide
      (p.newestAck = some 1 ∧ (p.queuedOn 1).map Message.id = [1, 2, 4] ∧
        (p.dispatcher.messagesInPackets.get 4).isSome = true)) = true by decide +kernel)
  obtain ⟨hnewest, hqueue, hpacket⟩ := of_decide_eq_true htest
  have hnew : TallyRun true Call.Fresh (Endpoint.new true .default 0) .start := .new 0
  obtain ⟨t, h⟩ := hnew.exists_of_runWhile hrun
  exact ⟨p, t, h, hnewest, hqueue, hpacket, h.keepsApart⟩

end Endpoint

end Pickleback
