import Pickleback.MessageIds

/-!
# What the application is told of its messages

`acked_packet` pushes message ids onto the ack inboxes: for an unfragmented message when a packet
that has it is acked, for a fragmented one when `sent_frag_map` says that its last fragment is
acked. The map says so only once. An unfragmented message of the reliable channel may be in several
packets, and the id is pushed for each of them that is acked.

## Main definitions

* `Endpoint.Receipts`, `Endpoint.ReceiptRun` — runs, with all that was ever pushed onto the inboxes
* `Endpoint.Call.Single` — an incoming packet that is the first to ack the messages in it

## Main results

* `ReceiptRun.nodup_pushed` — in runs of such calls no id is pushed twice
* `Reachable.exists_receiptRun` — every run can be put on record
* `not_nodup_pushed_of_resend` — a message that was sent twice may be
-/

namespace Pickleback

/-! ### What packets and acks leave of a queue -/

/-- What is marked is part of the queue. -/
theorem ReliableChannel.Marks.map_id_sublist {now resendTime : Time} {q q' : List ResendableMessage}
    {ms : List Message} (h : Marks now resendTime q ms q') :
    (ms.map Message.id).Sublist (q.map (Message.id ∘ ResendableMessage.message)) := by
  induction h with
  | nil => exact .refl _
  | keep m _ ih => exact ih.cons _
  | mark m _ _ ih => exact ih.cons_cons m.message.id

/-- The channel is of the same kind, and some of its queue is left. -/
structure Channel.Thins (ch ch' : Channel) : Prop where
  id : ch'.id = ch.id
  isReliable : ch'.isReliable = ch.isReliable
  queued : ch'.queued.Sublist ch.queued

namespace Channel

variable {ch ch' ch'' : Channel}

theorem Thins.refl (ch : Channel) : ch.Thins ch := ⟨rfl, rfl, .refl _⟩

theorem Thins.trans (h : ch.Thins ch') (h' : ch'.Thins ch'') : ch.Thins ch'' :=
  ⟨h'.id.trans h.id, h'.isReliable.trans h.isReliable, h'.queued.trans h.queued⟩

theorem SameQueue.thins (h : ch.SameQueue ch') : ch.Thins ch' :=
  ⟨h.id, h.isReliable, h.queued ▸ .refl _⟩

theorem thins_messageAckReceived {handle : MessageHandle} {buffers : List PooledBuffer}
    (h : ch.messageAckReceived handle = .ok (buffers, ch')) : ch.Thins ch' := by
  cases ch with
  | unreliable c =>
    cases h
    exact .refl _
  | reliable c =>
    obtain ⟨r, hr, heq⟩ := exists_of_map_eq_ok h
    obtain ⟨⟨buffers', q'⟩, hdismiss, rfl⟩ := exists_of_map_eq_ok hr
    cases heq
    exact ⟨rfl, rfl, (ReliableChannel.dismiss_eq_ok hdismiss).map _⟩

theorem Wrote.thins {ms : List Message} (h : ch.Wrote ms ch') : ch.Thins ch' := by
  cases h with
  | unreliable hsub _ => exact ⟨rfl, rfl, hsub⟩
  | reliable hmarks _ =>
    refine ⟨rfl, rfl, ?_⟩
    show (List.map _ _).Sublist (List.map _ _)
    rw [hmarks.map_message]

/-- No message is taken twice. -/
theorem Wrote.nodup_ids {ms : List Message} (h : ch.Wrote ms ch')
    (hqueue : (ch.queued.map Message.id).Nodup) :
    (ms.map Message.id).Nodup := by
  cases h with
  | unreliable _ hperm =>
    rw [queued, (hperm.map Message.id).nodup_iff, List.map_append] at hqueue
    exact (List.nodup_append.mp hqueue).1
  | reliable hmarks hperm =>
    rw [(hperm.map Message.id).nodup_iff]
    rw [queued, List.map_map] at hqueue
    exact hqueue.sublist hmarks.map_id_sublist

/-- An unreliable message leaves the queue. -/
theorem Wrote.id_ne {ms : List Message} (h : ch.Wrote ms ch')
    (hqueue : (ch.queued.map Message.id).Nodup)
    (hkind : ch.isReliable = false) {m m' : Message} (hm : m ∈ ms) (hm' : m' ∈ ch'.queued) :
    m'.id ≠ m.id := by
  cases h with
  | unreliable _ hperm =>
    rw [queued, (hperm.map Message.id).nodup_iff, List.map_append] at hqueue
    exact ((List.nodup_append.mp hqueue).2.2 _ (List.mem_map_of_mem hm) _
      (List.mem_map_of_mem hm')).symm
  | reliable _ _ => cases hkind

@[simp] theorem isReliable_pushAll (ch : Channel) (ms : List Message) :
    (ch.pushAll ms).isReliable = ch.isReliable := by
  induction ms generalizing ch with
  | nil => rfl
  | cons m ms ih =>
    refine (ih (ch.push m)).trans ?_
    cases ch <;> rfl

end Channel

/-! ### The map of fragmented messages -/

/-- The answer that a message is whole is given once: the message was acked in part before, and is
not afterwards. No message is acked in part that was not so before. -/
theorem SentFragMap.partially_of_ackFragmentMessage {m m' : SentFragMap}
    {parentId fragmentId : MessageId}
    {whole : Bool} (h : ackFragmentMessage m parentId fragmentId = .ok (whole, m')) :
    (∀ id remaining', m'.get id = some (.partially remaining') →
      ∃ remaining, m.get id = some (.partially remaining)) ∧
      (whole = true → (∃ remaining, m.get parentId = some (.partially remaining)) ∧
        ∀ remaining', m'.get parentId ≠ some (.partially remaining')) := by
  rw [ackFragmentMessage] at h
  split at h
  · next remaining hget =>
    have hset : ∀ {v : FragAckStatus} {id : MessageId} {remaining' : List MessageId},
        (m.setEntry parentId v).get id = some (.partially remaining') →
          ∃ remaining, m.get id = some (.partially remaining) := by
      intro v id remaining' hget'
      rw [SequenceBuffer.get_setEntry hget] at hget'
      split at hget'
      · next heq => exact ⟨remaining, by rw [heq]; exact hget⟩
      · exact ⟨remaining', hget'⟩
    dsimp only at h
    split at h
    · split at h
      · next m₁ hm₁ =>
        cases h
        refine ⟨fun id remaining' hget' => ?_, fun _ =>
          ⟨⟨remaining, hget⟩, fun remaining' hget' => ?_⟩⟩
        · obtain ⟨-, heq⟩ | hold := SequenceBuffer.get_of_get_insert hm₁ hget'
          · cases heq
          · exact hset hold
        · rw [SequenceBuffer.get_insert_self hm₁] at hget'
          cases hget'
      · cases h
    · cases h
      exact ⟨fun id remaining' hget' => hset hget', fun hwhole => by cases hwhole⟩
  · cases h
    exact ⟨fun id remaining' hget' => ⟨remaining', hget'⟩, fun hwhole => by cases hwhole⟩

/-! ### What the handles of a packet push -/

namespace MessageDispatcher

/-- A fragmented message whose id was pushed is not acked in part. -/
def Closed (d : MessageDispatcher) (queued : List Message)
    (pushed : UInt8 → List MessageId) : Prop :=
  ∀ channel, ∀ id ∈ pushed channel, ∀ m ∈ queued, m.id = id → m.fragment.isSome = true →
    ∀ remaining, d.sentFragMap.get id ≠ some (.partially remaining)

/-- The acks of some handles, after `pushed` was pushed, push the ids `news`. -/
structure Pushes (queued : List Message) (handles : List MessageHandle)
    (pushed news : UInt8 → List MessageId)
    (d d' : MessageDispatcher) : Prop where
  inbox : ∀ channel, d'.ackInbox channel = d.ackInbox channel ++ news channel
  nodup : ∀ channel, (pushed channel ++ news channel).Nodup
  closed : d'.Closed queued fun channel => pushed channel ++ news channel
  origin : ∀ channel, ∀ id ∈ news channel,
    (∃ handle ∈ handles, handle.fragIndex = none ∧ handle.channel = channel ∧ handle.id = id) ∨
      ∃ m ∈ queued, m.id = id ∧ m.fragment.isSome = true
  messagesInPackets : d'.messagesInPackets = d.messagesInPackets
  nextMessageId : d'.nextMessageId = d.nextMessageId

variable {queued : List Message} {pushed : UInt8 → List MessageId} {d d' : MessageDispatcher}

theorem pushes_nothing {handles : List MessageHandle} (hnodup : ∀ channel, (pushed channel).Nodup)
    (hclosed : d'.Closed queued pushed) (hinbox : d'.ackInbox = d.ackInbox)
    (hhandles : d'.messagesInPackets = d.messagesInPackets)
    (hnext : d'.nextMessageId = d.nextMessageId) :
    Pushes queued handles pushed (fun _ => []) d d' where
  inbox := by simp [hinbox]
  nodup := by simpa using hnodup
  closed := by simpa using hclosed
  origin := by simp
  messagesInPackets := hhandles
  nextMessageId := hnext

/-- One id is pushed. -/
theorem pushes_pushAck {handles : List MessageHandle} {channel : UInt8} {id : MessageId}
    (hnodup : ∀ channel, (pushed channel).Nodup) (hnew : id ∉ pushed channel)
    (hclosed : d'.Closed queued pushed) (hinbox : d'.ackInbox = d.ackInbox)
    (hhandles : d'.messagesInPackets = d.messagesInPackets)
    (hnext : d'.nextMessageId = d.nextMessageId)
    (hwhole : ∀ m ∈ queued, m.id = id → m.fragment.isSome = true →
      ∀ remaining, d'.sentFragMap.get id ≠ some (.partially remaining))
    (horigin : (∃ handle ∈ handles, handle.fragIndex = none ∧ handle.channel = channel ∧
      handle.id = id) ∨
      ∃ m ∈ queued, m.id = id ∧ m.fragment.isSome = true) :
    Pushes queued handles pushed (Function.update (fun _ => []) channel [id]) d
    (d'.pushAck channel id) := by
  have hsplit : ∀ {c : UInt8} {id' : MessageId},
    id' ∈ Function.update (fun _ => []) channel [id] c →
      c = channel ∧ id' = id := by
    intro c id' hid
    by_cases hc : c = channel
    · rw [hc, Function.update_self] at hid
      exact ⟨hc, List.mem_singleton.mp hid⟩
    · rw [Function.update_of_ne hc] at hid
      cases hid
  refine ⟨fun c => ?_, fun c => ?_, ?_, ?_, hhandles, hnext⟩
  · show Function.update d'.ackInbox channel (d'.ackInbox channel ++ [id]) c = _
    rw [hinbox]
    by_cases hc : c = channel
    · rw [hc, Function.update_self, Function.update_self]
    · rw [Function.update_of_ne hc, Function.update_of_ne hc, List.append_nil]
  · by_cases hc : c = channel
    · rw [hc, Function.update_self, List.nodup_append]
      refine ⟨hnodup channel, List.nodup_singleton _, fun id₁ hid₁ id₂ hid₂ heq => hnew ?_⟩
      rw [← List.mem_singleton.mp hid₂, ← heq]
      exact hid₁
    · rw [Function.update_of_ne hc, List.append_nil]
      exact hnodup c
  · intro c id' hid
    rcases List.mem_append.mp hid with hid | hid
    · exact hclosed c id' hid
    · obtain ⟨-, rfl⟩ := hsplit hid
      exact hwhole
  · intro c id' hid
    obtain ⟨rfl, rfl⟩ := hsplit hid
    exact horigin

/-- What the record of queued messages has to satisfy: the messages are known by their ids, and the
first fragment of a message has the id of the message. -/
structure Coherent (queued : List Message) : Prop where
  known : ∀ m ∈ queued, ∀ m' ∈ queued, m.id = m'.id → m = m'
  sent : ∀ m ∈ queued, m.Sent
  first : ∀ m ∈ queued, ∀ f, m.fragment = some f → ∃ m₀ ∈ queued, m₀.id = f.parentId ∧
    m₀.fragment.isSome = true

/-- **One handle.** -/
theorem exists_pushes_ackHandle (hqueued : Coherent queued) {m : Message} (hm : m ∈ queued)
    (hnodup : ∀ channel, (pushed channel).Nodup) (hclosed : d.Closed queued pushed)
    (hnew : m.fragment = none → m.id ∉ pushed m.channel) (hcall : d.ackHandle m.handle = .ok d') :
    ∃ news, Pushes queued [m.handle] pushed news d d' := by
  rw [ackHandle] at hcall
  cases hfragment : m.fragment with
  | none =>
    have hparent : m.handle.parentId = none := by
      simp [Message.handle, MessageHandle.parentId, hfragment]
    rw [hparent] at hcall
    cases hcall
    refine ⟨_, pushes_pushAck hnodup (hnew hfragment) hclosed rfl rfl rfl ?_ ?_⟩
    · intro m' hm' hid hsome
      rw [hqueued.known m' hm' m hm hid, hfragment] at hsome
      cases hsome
    · exact Or.inl ⟨m.handle, List.mem_singleton_self _, by
        simp [Message.handle, hfragment], rfl, rfl⟩
  | some f =>
    obtain ⟨m₀, hm₀, hid₀, hsome₀⟩ := hqueued.first m hm f hfragment
    have hparent : m.handle.parentId = some f.parentId := by
      rw [(hqueued.sent m hm).parentId f hfragment]
      simp [Message.handle, MessageHandle.parentId, hfragment]
    rw [hparent] at hcall
    dsimp only at hcall
    split at hcall
    · cases hcall
    · next whole map hmap =>
      obtain ⟨hfewer, honce⟩ := SentFragMap.partially_of_ackFragmentMessage hmap
      have hclosed' : Closed { d with sentFragMap := map } queued pushed := by
        intro channel id hid m' hm' hid' hsome remaining hget
        obtain ⟨remaining', hold⟩ := hfewer id remaining hget
        exact hclosed channel id hid m' hm' hid' hsome remaining' hold
      cases whole with
      | false =>
        cases hcall
        exact ⟨_, pushes_nothing hnodup hclosed' rfl rfl rfl⟩
      | true =>
        cases hcall
        obtain ⟨⟨remaining, hbefore⟩, hafter⟩ := honce rfl
        refine ⟨_, pushes_pushAck hnodup ?_ hclosed' rfl rfl rfl ?_
          (Or.inr ⟨m₀, hm₀, hid₀, hsome₀⟩)⟩
        · intro hmem
          exact hclosed _ _ hmem m₀ hm₀ hid₀ hsome₀ remaining hbefore
        · intro m' hm' _ _
          exact hafter

/-- What the acks of handles do to channels. -/
theorem foldlM_ackHandle_of_ackHandles {handles : List MessageHandle}
    {channels channels' : ChannelList}
    {buffers : List PooledBuffer}
    (h : d.ackHandles channels handles = .ok (buffers, d', channels')) :
    handles.foldlM ackHandle d = .ok d' := by
  induction handles generalizing d channels buffers with
  | nil =>
    cases h
    rfl
  | cons handle handles ih =>
    rw [ackHandles] at h
    split at h
    · cases h
    · split at h
      · cases h
      · split at h
        · cases h
        · next d₁ hd₁ =>
          obtain ⟨r, hr, heq⟩ := exists_of_map_eq_ok h
          cases heq
          rw [List.foldlM_cons, hd₁]
          exact ih hr

/-- **The handles of a packet**, none of an unfragmented message whose id was pushed. -/
theorem exists_pushes_foldlM (hqueued : Coherent queued) {ms : List Message}
    (hms : ∀ m ∈ ms, m ∈ queued)
    (hdistinct : (ms.map Message.handle).Nodup) (hnodup : ∀ channel, (pushed channel).Nodup)
    (hclosed : d.Closed queued pushed) (hnew : ∀ m ∈ ms, m.fragment = none →
      m.id ∉ pushed m.channel)
    (hrun : (ms.map Message.handle).foldlM ackHandle d = .ok d') :
    ∃ news, Pushes queued (ms.map Message.handle) pushed news d d' := by
  induction ms generalizing d pushed with
  | nil =>
    cases hrun
    exact ⟨_, pushes_nothing hnodup hclosed rfl rfl rfl⟩
  | cons m ms ih =>
    rw [List.forall_mem_cons] at hms hnew
    rw [List.map_cons, List.nodup_cons] at hdistinct
    obtain ⟨d₁, hfirst, hrest⟩ := exists_of_foldlM_cons hrun
    obtain ⟨news, hpushes⟩ := exists_pushes_ackHandle hqueued hms.1 hnodup hclosed hnew.1 hfirst
    -- what the first handle pushes is not the id of a later one
    have hlater : ∀ m' ∈ ms, m'.fragment = none → m'.id ∉ pushed m'.channel ++ news m'.channel := by
      intro m' hm' hwhole hmem
      rcases List.mem_append.mp hmem with hmem | hmem
      · exact hnew.2 m' hm' hwhole hmem
      · obtain ⟨handle, hhandle, -, -, hid⟩ | ⟨m₀, hm₀, hid, hsome⟩ := hpushes.origin _ _ hmem
        · obtain rfl := List.mem_singleton.mp hhandle
          have heq := hqueued.known m hms.1 m' (hms.2 m' hm') hid
          exact hdistinct.1 (List.mem_map.mpr ⟨m', hm', by rw [heq]⟩)
        · rw [hqueued.known m₀ hm₀ m' (hms.2 m' hm') hid, hwhole] at hsome
          cases hsome
    obtain ⟨news', hpushes'⟩ := ih hms.2 hdistinct.2 hpushes.nodup hpushes.closed hlater hrest
    refine ⟨fun channel => news channel ++ news' channel, fun channel =>
      ?_, fun channel => ?_, ?_, ?_,
      hpushes'.messagesInPackets.trans hpushes.messagesInPackets,
      hpushes'.nextMessageId.trans hpushes.nextMessageId⟩
    · rw [hpushes'.inbox, hpushes.inbox, List.append_assoc]
    · rw [← List.append_assoc]
      exact hpushes'.nodup channel
    · have hclosed' := hpushes'.closed
      simp only [List.append_assoc] at hclosed'
      exact hclosed'
    · intro channel id hid
      rcases List.mem_append.mp hid with hid | hid
      · obtain ⟨handle, hhandle, htest⟩ | hfirst := hpushes.origin channel id hid
        · exact Or.inl ⟨handle, List.mem_cons.mpr (Or.inl (List.mem_singleton.mp hhandle)), htest⟩
        · exact Or.inr hfirst
      · obtain ⟨handle, hhandle, htest⟩ | hfirst := hpushes'.origin channel id hid
        · exact Or.inl ⟨handle, List.mem_cons_of_mem _ hhandle, htest⟩
        · exact Or.inr hfirst

/-! ### What is remembered of packets -/

/-- The handles after those of one packet were written. -/
theorem handlesOf_of_insert {d d' : MessageDispatcher} {s : PacketId} {handles : List MessageHandle}
    (h : d.messagesInPackets.insert s handles = .ok d'.messagesInPackets) (id : PacketId) :
    (id = s ∧ d'.handlesOf id = handles) ∨
      (id ≠ s ∧ (d'.handlesOf id = d.handlesOf id ∨ d'.handlesOf id = [])) := by
  by_cases hid : id = s
  · subst hid
    exact Or.inl ⟨rfl, by rw [handlesOf, SequenceBuffer.get_insert_self h, Option.getD_some]⟩
  · refine Or.inr ⟨hid, ?_⟩
    simp only [handlesOf]
    cases hget : d'.messagesInPackets.get id with
    | none => exact Or.inr rfl
    | some handles' =>
      obtain ⟨rfl, -⟩ | hold := SequenceBuffer.get_of_get_insert h hget
      · exact absurd rfl hid
      · exact Or.inl (by rw [hold])

/-- The handles after those of one packet were taken away. -/
theorem handlesOf_of_remove {d d' : MessageDispatcher} {s : PacketId}
    (h : d'.messagesInPackets = (d.messagesInPackets.remove s).2) (id : PacketId) :
    d'.handlesOf id = d.handlesOf id ∨ d'.handlesOf id = [] := by
  simp only [handlesOf, h]
  cases hget : (d.messagesInPackets.remove s).2.get id with
  | none => exact Or.inr rfl
  | some handles => exact Or.inl (by rw [SequenceBuffer.get_of_get_remove hget])

/-- No handle is remembered anew. -/
theorem mem_handlesOf {d d' : MessageDispatcher} {id : PacketId}
    (h : d'.handlesOf id = d.handlesOf id ∨ d'.handlesOf id = []) {handle : MessageHandle}
    (hmem : handle ∈ d'.handlesOf id) : handle ∈ d.handlesOf id := by
  rcases h with heq | hnil
  · exact heq ▸ hmem
  · rw [hnil] at hmem
    cases hmem

theorem handlesOf_remove_self {d d' : MessageDispatcher} {s : PacketId}
    (h : d'.messagesInPackets = (d.messagesInPackets.remove s).2) : d'.handlesOf s = [] := by
  have hnone : d'.messagesInPackets.get s = none := by
    rw [h, SequenceBuffer.get_eq_none_iff, ← Bool.not_eq_true, SequenceBuffer.existsSequence_iff,
      SequenceBuffer.index_remove, SequenceBuffer.entrySequences_remove, if_pos rfl]
    exact fun heq => by cases heq
  rw [handlesOf, hnone, Option.getD_none]

end MessageDispatcher

namespace Endpoint

open MessageDispatcher

theorem queuedOn_sublist {p p' : Endpoint} (h : List.Forall₂ Channel.Thins p.channels p'.channels)
    (channel : UInt8) : (p'.queuedOn channel).Sublist (p.queuedOn channel) := by
  rw [queuedOn]
  cases hget : p'.channels.get? channel with
  | none => exact List.nil_sublist _
  | some ch' =>
    obtain ⟨ch, hch, hthins⟩ := ChannelList.exists_get?_of_forall₂ (R := flip Channel.Thins)
      (fun _ _ hch => hch.id.symm) h.flip hget
    rw [queuedOn, hch]
    exact hthins.queued

/-- What is remembered of the packets of messages, and what waits to be sent. -/
structure Remembers (p : Endpoint) (queued : List Message) : Prop where
  logged : ∃ n log, Logged queued n log p
  few : queued.length ≤ 65536
  first : ∀ m ∈ queued, ∀ f, m.fragment = some f → ∃ m₀ ∈ queued, m₀.id = f.parentId ∧
    m₀.fragment.isSome = true
  kinds : ∀ ch ∈ p.channels, ch.isReliable = (ch.id == 1)
  distinct : ∀ channel, ((p.queuedOn channel).map Message.id).Nodup
  handles : ∀ id, ∃ ms : List Message, (∀ m ∈ ms, m ∈ queued) ∧
    p.dispatcher.handlesOf id = ms.map Message.handle
  /-- No message is in a packet twice. -/
  nodup : ∀ id, (p.dispatcher.handlesOf id).Nodup
  /-- An unreliable message waits, or is in one packet. -/
  unreliable : ∀ id, ∀ handle ∈ p.dispatcher.handlesOf id, handle.channel = 0 →
    (∀ m ∈ p.queuedOn 0, m.handle ≠ handle) ∧ ∀ id', handle ∈ p.dispatcher.handlesOf id' → id' = id

namespace Remembers

variable {p p' : Endpoint} {queued : List Message}

theorem coherent (h : Remembers p queued) : Coherent queued := by
  obtain ⟨n, log, hlogged⟩ := h.logged
  exact ⟨fun m hm m' hm' => hlogged.numbered.eq_of_id h.few hm hm', hlogged.sent, h.first⟩

theorem intact (h : Remembers p queued) : p.Intact := by
  obtain ⟨n, log, hlogged⟩ := h.logged
  exact hlogged.intact

theorem mem_queued (h : Remembers p queued) {channel : UInt8} {m : Message}
    (hm : m ∈ p.queuedOn channel) :
    m ∈ queued := by
  obtain ⟨n, log, hlogged⟩ := h.logged
  rw [queuedOn] at hm
  cases hch : p.channels.get? channel with
  | none =>
    rw [hch] at hm
    cases hm
  | some ch =>
    rw [hch] at hm
    exact hlogged.held ch (ChannelList.mem_of_get? hch) m hm

theorem exists_hasReliable (h : Remembers p queued) : ∃ c, HasReliable p.channels c := by
  obtain ⟨ch, hch⟩ : ∃ ch, p.channels.get? 1 = some ch := h.intact.exists_get? (Or.inr rfl)
  have hkind := h.kinds ch (ChannelList.mem_of_get? hch)
  rw [ChannelList.id_of_get? hch] at hkind
  cases ch with
  | unreliable c => cases hkind
  | reliable c => exact ⟨c, hch, ChannelList.id_of_get? hch⟩

/-- A handle is of one message. -/
theorem eq_of_handle (h : Remembers p queued) {m m' : Message} (hm : m ∈ queued) (hm' : m' ∈ queued)
    (heq : m.handle = m'.handle) : m = m' :=
  h.coherent.known m hm m' hm' (congrArg MessageHandle.id heq)

theorem new (overflowChecks : Bool) (time : Time) :
    Remembers (Endpoint.new overflowChecks .default time) [] where
  logged := ⟨0, [], .new overflowChecks time⟩
  few := Nat.zero_le _
  first := by simp
  kinds := by
    intro ch hch
    rcases List.mem_pair.mp hch with rfl | rfl <;> rfl
  distinct := by
    intro channel
    have hempty : (Endpoint.new overflowChecks .default time).queuedOn channel = [] := by
      rw [queuedOn]
      cases hget : (Endpoint.new overflowChecks .default time).channels.get? channel with
      | none => rfl
      | some ch => rcases List.mem_pair.mp (ChannelList.mem_of_get? hget) with rfl | rfl <;> rfl
    rw [hempty]
    exact List.nodup_nil
  handles := fun id => ⟨[], by simp, rfl⟩
  nodup := fun id => List.nodup_nil
  unreliable := fun id handle hmem => by cases hmem

theorem kinds_of_thins (h : Remembers p queued)
    (hthins : List.Forall₂ Channel.Thins p.channels p'.channels) :
    ∀ ch ∈ p'.channels, ch.isReliable = (ch.id == 1) := by
  intro ch' hch'
  obtain ⟨ch, hch, hch'⟩ := exists_of_forall₂_mem hthins hch'
  rw [hch'.isReliable, hch'.id]
  exact h.kinds ch hch

/-- Some of the queues and of the handles are left. -/
theorem thins (h : Remembers p queued) (hlogged : ∃ n log, Logged queued n log p')
    (hthins : List.Forall₂ Channel.Thins p.channels p'.channels)
    (hhandles : ∀ id, p'.dispatcher.handlesOf id = p.dispatcher.handlesOf id ∨
      p'.dispatcher.handlesOf id = []) :
    Remembers p' queued := by
  have hfewer : ∀ {id handle}, handle ∈ p'.dispatcher.handlesOf id →
    handle ∈ p.dispatcher.handlesOf id :=
    fun hmem => mem_handlesOf (hhandles _) hmem
  refine ⟨hlogged, h.few, h.first, h.kinds_of_thins hthins, fun channel =>
    (h.distinct channel).sublist
    ((queuedOn_sublist hthins channel).map _), fun id => ?_, fun id =>
      ?_, fun id handle hmem hchan => ?_⟩
  · rcases hhandles id with heq | hnil
    · rw [heq]
      exact h.handles id
    · exact ⟨[], by simp, hnil⟩
  · rcases hhandles id with heq | hnil
    · rw [heq]
      exact h.nodup id
    · rw [hnil]
      exact List.nodup_nil
  · obtain ⟨hwaits, honly⟩ := h.unreliable id handle (hfewer hmem) hchan
    exact ⟨fun m hm => hwaits m ((queuedOn_sublist hthins 0).subset hm),
      fun id' hmem' => honly id' (hfewer hmem')⟩

/-- No message is put into a packet twice. -/
theorem nodup_handles (h : Remembers p queued) {e : Emission} (hemits : p.Emits e p') :
    (e.messages.map Message.handle).Nodup := by
  have hchannel : ∀ {channel : UInt8}, channel = 0 ∨ channel = 1 →
      e.messages.Pairwise fun m m' =>
        (m.channel == channel) = true → (m'.channel == channel) = true → m.id ≠ m'.id := by
    intro channel hchan
    obtain ⟨ch, hch⟩ := h.intact.exists_get? hchan
    obtain ⟨ch', -, hwrote⟩ := ChannelList.exists_get?_of_forall₂
      (fun _ _ hch => hch.shrinks.id) hemits.wrote hch
    have hdistinct := h.distinct channel
    rw [queuedOn, hch] at hdistinct
    have hnodup := hwrote.nodup_ids hdistinct
    rw [ChannelList.id_of_get? hch] at hnodup
    exact List.pairwise_filter.mp (List.pairwise_map.mp hnodup)
  refine List.pairwise_map.mpr (((hchannel (Or.inl rfl)).and (hchannel (Or.inr rfl))).imp_of_mem ?_)
  rintro m m' hm - ⟨hzero, hone⟩ heq
  have hid : m.id = m'.id := congrArg MessageHandle.id heq
  have hchan : m.channel = m'.channel := congrArg MessageHandle.channel heq
  obtain ⟨m₀, hm₀, hcopy⟩ := hemits.exists_mem_queuedOn h.intact hm
  rcases (h.coherent.sent m₀ (h.mem_queued hm₀)).channel with hm₀ | hm₀
  · have hm := hcopy.same.2.1.trans hm₀
    exact hzero (by simpa using hm) (by simpa [← hchan] using hm) hid
  · have hm := hcopy.same.2.1.trans hm₀
    exact hone (by simpa using hm) (by simpa [← hchan] using hm) hid

/-- An unreliable message in a packet does not wait any more. -/
theorem handle_ne (h : Remembers p queued) {e : Emission} (hemits : p.Emits e p') {m m' : Message}
    (hm : m ∈ e.messages) (hchan : m.channel = 0) (hm' : m' ∈ p'.queuedOn 0) :
    m'.handle ≠ m.handle := by
  obtain ⟨ch, hch⟩ : ∃ ch, p.channels.get? 0 = some ch := h.intact.exists_get? (Or.inl rfl)
  obtain ⟨ch', hch', hwrote⟩ := ChannelList.exists_get?_of_forall₂
    (fun _ _ hch => hch.shrinks.id) hemits.wrote hch
  have hid := ChannelList.id_of_get? hch
  have hkind := h.kinds ch (ChannelList.mem_of_get? hch)
  have hdistinct := h.distinct 0
  rw [hid] at hkind
  rw [queuedOn, hch] at hdistinct
  rw [queuedOn, hch'] at hm'
  have hne := hwrote.id_ne hdistinct hkind (List.mem_filter.mpr ⟨hm, by rw [hid, hchan]; rfl⟩) hm'
  exact fun heq => hne (congrArg MessageHandle.id heq)

/-- **A packet of messages.** -/
theorem emits (h : Remembers p queued) {e : Emission} (hemits : p.Emits e p') :
    Remembers p' queued := by
  have hthins : List.Forall₂ Channel.Thins p.channels p'.channels :=
    hemits.wrote.imp fun _ _ hch => hch.thins
  obtain ⟨n, log, hlogged⟩ := h.logged
  have hcases := handlesOf_of_insert hemits.handles
  -- what was remembered before is in no queue of unreliable messages, what is put into the packet
  -- was
  have hwaited : ∀ {m}, m ∈ e.messages → m.channel = 0 → ∀ id,
    m.handle ∉ p.dispatcher.handlesOf id := by
    intro m hm hchan id hmem
    obtain ⟨m₀, hm₀, hcopy⟩ := hemits.exists_mem_queuedOn h.intact hm
    rw [hchan] at hm₀
    exact (h.unreliable id _ hmem hchan).1 m₀ hm₀ hcopy.handle.symm
  have hfewer : ∀ {id handle}, id ≠ p.sequenceId + 1 → handle ∈ p'.dispatcher.handlesOf id →
      handle ∈ p.dispatcher.handlesOf id := by
    intro id handle hne hmem
    obtain ⟨heq, -⟩ | ⟨-, hold⟩ := hcases id
    · exact absurd heq hne
    · exact mem_handlesOf hold hmem
  have hself : p'.dispatcher.handlesOf (p.sequenceId + 1) = e.messages.map Message.handle := by
    obtain ⟨-, heq⟩ | ⟨hne, -⟩ := hcases (p.sequenceId + 1)
    · exact heq
    · exact absurd rfl hne
  refine ⟨⟨_, _, hlogged.emits hemits⟩, h.few, h.first, h.kinds_of_thins hthins, fun channel =>
    (h.distinct channel).sublist ((queuedOn_sublist hthins channel).map _),
      fun id => ?_, fun id => ?_,
    fun id handle hmem hchan => ?_⟩
  · obtain ⟨-, heq⟩ | ⟨-, heq | hnil⟩ := hcases id
    · have hcopies : ∀ m ∈ e.messages, ∃ m₀ ∈ queued, m.Copies m₀ := by
        intro m hm
        obtain ⟨m₀, hm₀, hcopy⟩ := hemits.exists_mem_queuedOn h.intact hm
        exact ⟨m₀, h.mem_queued hm₀, hcopy⟩
      obtain ⟨ms, hms, hcopies⟩ := exists_originals hcopies
      exact ⟨ms, hms, heq.trans (hcopies.map_eq fun hcopy => hcopy.handle)⟩
    · rw [heq]
      exact h.handles id
    · exact ⟨[], by simp, hnil⟩
  · obtain ⟨-, heq⟩ | ⟨-, heq | hnil⟩ := hcases id
    · rw [heq]
      exact h.nodup_handles hemits
    · rw [heq]
      exact h.nodup id
    · rw [hnil]
      exact List.nodup_nil
  · by_cases hid : id = p.sequenceId + 1
    · subst hid
      rw [hself] at hmem
      obtain ⟨m, hm, rfl⟩ := List.mem_map.mp hmem
      refine ⟨fun m' hm' => h.handle_ne hemits hm hchan hm', fun id' hmem' => ?_⟩
      by_contra hne
      exact hwaited hm hchan id' (hfewer hne hmem')
    · obtain ⟨hwaits, honly⟩ := h.unreliable id handle (hfewer hid hmem) hchan
      refine ⟨fun m hm => hwaits m ((queuedOn_sublist hthins 0).subset hm), fun id' hmem' => ?_⟩
      by_cases hid' : id' = p.sequenceId + 1
      · subst hid'
        rw [hself] at hmem'
        obtain ⟨m, hm, rfl⟩ := List.mem_map.mp hmem'
        exact absurd (hfewer hid hmem) (hwaited hm hchan id)
      · exact honly id' (hfewer hid' hmem')

/-- The ids of a send are not those of messages on record. -/
theorem id_ne_of_sendBlock (h : Remembers p queued) {channel : UInt8}
    {payload : List UInt8} {ms : List Message}
    (hblock : SendBlock p.dispatcher.nextMessageId channel payload ms)
    (hfew : (queued ++ ms).length ≤ 65536)
    {m m' : Message} (hm : m ∈ queued) (hm' : m' ∈ ms) : m.id ≠ m'.id := by
  obtain ⟨n, log, hlogged⟩ := h.logged
  have hnumbered : Numbered 0 (queued ++ ms) := by
    rw [numbered_append, Nat.zero_add]
    exact ⟨hlogged.numbered, numbered_of_sendBlock (hlogged.nextMessageId ▸ hblock)⟩
  have hnodup := hnumbered.nodup hfew
  rw [List.map_append, List.nodup_append] at hnodup
  exact hnodup.2.2 _ (List.mem_map_of_mem hm) _ (List.mem_map_of_mem hm')

/-- **A send.** -/
theorem queue (h : Remembers p queued) {channel : UInt8} {payload : List UInt8}
    {ms : List Message} {ch : Channel}
    (hlen : payload.length ≤ 1024 * 1024) (hch : p.channels.get? channel = some ch)
    (hlogged : ∃ n log, Logged (queued ++ ms) n log p')
    (hblock : SendBlock p.dispatcher.nextMessageId channel payload ms)
    (hfew : (queued ++ ms).length ≤ 65536)
    (hchannels : p'.channels = p.channels.set channel (ch.pushAll ms))
    (hhandles : p'.dispatcher.messagesInPackets = p.dispatcher.messagesInPackets) :
    Remembers p' (queued ++ ms) := by
  have hid : (ch.pushAll ms).id = channel := by
    rw [Channel.id_pushAll]
    exact ChannelList.id_of_get? hch
  have hne : ∀ {m m'}, m ∈ queued → m' ∈ ms → m.id ≠ m'.id := fun hm hm' =>
    h.id_ne_of_sendBlock hblock hfew hm hm'
  have hqueue : ∀ c, p'.queuedOn c = if c = channel then p.queuedOn c ++ ms else p.queuedOn c := by
    intro c
    rw [Retains.queuedOn_set hch hid hchannels]
    split
    · next heq =>
      rw [Channel.queued_pushAll, queuedOn, heq, hch]
      rfl
    · rfl
  have hsame : ∀ id, p'.dispatcher.handlesOf id = p.dispatcher.handlesOf id := fun id => by
    rw [handlesOf, hhandles, handlesOf]
  refine ⟨hlogged, hfew, ?_, ?_, ?_, ?_, ?_, ?_⟩
  · intro m hm f hf
    rcases List.mem_append.mp hm with hm | hm
    · obtain ⟨m₀, hm₀, hfirst⟩ := h.first m hm f hf
      exact ⟨m₀, List.mem_append_left _ hm₀, hfirst⟩
    · rw [SendBlock] at hblock
      split at hblock
      · obtain ⟨m', rfl, -, -, hnone, -⟩ := hblock
        rw [List.mem_singleton.mp hm, hnone] at hf
        cases hf
      · -- the first of the fragments
        obtain ⟨i, hi⟩ := List.mem_iff_getElem?.mp hm
        have hpos := List.length_pos_of_mem hm
        have hzero : ms[0]? = some ms[0] := List.getElem?_eq_getElem hpos
        obtain ⟨hid₀, -, hfragment₀, -⟩ := hblock.2 0 _ hzero
        obtain ⟨-, -, hfragment, -⟩ := hblock.2 i m hi
        rw [hfragment] at hf
        cases hf
        refine ⟨_, List.mem_append_right _ (List.mem_of_getElem? hzero), ?_, by
          rw [hfragment₀]; rfl⟩
        exact hid₀.trans (UInt16.add_zero _)
  · intro c hc
    rw [hchannels] at hc
    rcases ChannelList.mem_set hc with rfl | ⟨hc, -⟩
    · rw [Channel.isReliable_pushAll, Channel.id_pushAll]
      exact h.kinds ch (ChannelList.mem_of_get? hch)
    · exact h.kinds c hc
  · intro c
    rw [hqueue]
    split
    · rw [List.map_append]
      refine List.nodup_append.mpr ⟨h.distinct c, hblock.nodup_ids hlen, ?_⟩
      intro id hid id' hid'
      obtain ⟨m, hm, rfl⟩ := List.mem_map.mp hid
      obtain ⟨m', hm', rfl⟩ := List.mem_map.mp hid'
      exact hne (h.mem_queued hm) hm'
    · exact h.distinct c
  · intro id
    obtain ⟨ms', hms', heq⟩ := h.handles id
    exact ⟨ms', fun m hm => List.mem_append_left _ (hms' m hm), (hsame id).trans heq⟩
  · intro id
    rw [hsame]
    exact h.nodup id
  · intro id handle hmem hchan
    rw [hsame] at hmem
    obtain ⟨hwaits, honly⟩ := h.unreliable id handle hmem hchan
    refine ⟨fun m hm heq => ?_, fun id' hmem' => honly id' (hsame id' ▸ hmem')⟩
    rw [hqueue] at hm
    split at hm
    · rcases List.mem_append.mp hm with hm | hm
      · exact hwaits m hm heq
      · obtain ⟨ms', hms', heq'⟩ := h.handles id
        rw [heq'] at hmem
        obtain ⟨m', hm', rfl⟩ := List.mem_map.mp hmem
        exact hne (hms' m' hm') hm (congrArg MessageHandle.id heq).symm
    · exact hwaits m hm heq

end Remembers

/-! ### The invariant -/

/-- What was pushed onto the inboxes agrees with what is remembered. -/
structure Receipted (p : Endpoint) (queued : List Message) (pushed : UInt8 → List MessageId) : Prop
    extends Remembers p queued where
  nodup_pushed : ∀ channel, (pushed channel).Nodup
  closed : p.dispatcher.Closed queued pushed
  pushed_of : ∀ channel, ∀ id ∈ pushed channel, ∃ m ∈ queued, m.id = id
  /-- An unfragmented message whose id was pushed does not wait, and an unreliable one is in no
  packet that may still be acked. -/
  idle : ∀ m ∈ queued, m.fragment = none → m.id ∈ pushed m.channel →
    m ∉ p.queuedOn m.channel ∧ (m.channel = 0 → ∀ id, m.handle ∉ p.dispatcher.handlesOf id)

namespace Receipted

variable {p p' : Endpoint} {queued : List Message} {pushed : UInt8 → List MessageId}

theorem new (overflowChecks : Bool) (time : Time) :
    Receipted (Endpoint.new overflowChecks .default time) [] fun _ => [] where
  toRemembers := .new overflowChecks time
  nodup_pushed := fun _ => List.nodup_nil
  closed := fun _ _ hid => by cases hid
  pushed_of := fun _ _ hid => by cases hid
  idle := fun _ hm => by cases hm

/-- Nothing is pushed, and nothing is put into packets. -/
theorem transfer (h : Receipted p queued pushed) (hlogged : ∃ n log, Logged queued n log p')
    (hchannels : List.Forall₂ Channel.SameQueue p.channels p'.channels)
    (hhandles : p'.dispatcher.messagesInPackets = p.dispatcher.messagesInPackets)
    (hmap : p'.dispatcher.sentFragMap = p.dispatcher.sentFragMap) : Receipted p' queued pushed := by
  have hthins : List.Forall₂ Channel.Thins p.channels p'.channels :=
    hchannels.imp fun _ _ hch => hch.thins
  have hsame : ∀ id, p'.dispatcher.handlesOf id = p.dispatcher.handlesOf id := fun id => by
    rw [handlesOf, hhandles, handlesOf]
  refine ⟨h.thins hlogged hthins fun id => Or.inl (hsame id), h.nodup_pushed, ?_, h.pushed_of, ?_⟩
  · intro channel id hid m hm hmid hsome
    rw [hmap]
    exact h.closed channel id hid m hm hmid hsome
  · intro m hm hwhole hpushed
    obtain ⟨hwaits, hgone⟩ := h.idle m hm hwhole hpushed
    refine ⟨fun hmem => hwaits ((queuedOn_sublist hthins _).subset hmem), fun hchan id => ?_⟩
    rw [hsame]
    exact hgone hchan id

/-- **A packet of messages.** -/
theorem emits (h : Receipted p queued pushed) {e : Emission} (hemits : p.Emits e p') :
    Receipted p' queued pushed := by
  have hthins : List.Forall₂ Channel.Thins p.channels p'.channels :=
    hemits.wrote.imp fun _ _ hch => hch.thins
  refine ⟨h.toRemembers.emits hemits, h.nodup_pushed, ?_, h.pushed_of, ?_⟩
  · rw [hemits.rest]
    exact h.closed
  · intro m hm hwhole hpushed
    obtain ⟨hwaits, hgone⟩ := h.idle m hm hwhole hpushed
    refine ⟨fun hmem => hwaits ((queuedOn_sublist hthins _).subset hmem), fun hchan id hmem => ?_⟩
    obtain ⟨-, heq⟩ | ⟨-, hold⟩ := handlesOf_of_insert hemits.handles id
    · -- the message was waiting
      rw [heq] at hmem
      obtain ⟨m₁, hm₁, hhandle⟩ := List.mem_map.mp hmem
      obtain ⟨m₀, hm₀, hcopy⟩ := hemits.exists_mem_queuedOn h.intact hm₁
      obtain rfl := h.eq_of_handle (h.mem_queued hm₀) hm (hcopy.handle.symm.trans hhandle)
      rw [hcopy.same.2.1] at hm₀
      exact hwaits hm₀
    · exact hgone hchan id (mem_handlesOf hold hmem)

theorem emitsAll {es : List Emission} (h : Receipted p queued pushed) (hall : p.EmitsAll es p') :
    Receipted p' queued pushed := by
  induction hall with
  | nil _ => exact h
  | cons hemits _ ih => exact ih (h.emits hemits)

/-- **A send.** -/
theorem queue (h : Receipted p queued pushed) {channel : UInt8}
    {payload : List UInt8} {ms : List Message}
    {ch : Channel} (hlen : payload.length ≤ 1024 * 1024) (hch : p.channels.get? channel = some ch)
    (hlogged : ∃ n log, Logged (queued ++ ms) n log p')
    (hblock : SendBlock p.dispatcher.nextMessageId channel payload ms)
    (hfew : (queued ++ ms).length ≤ 65536)
    {res : Except PicklebackError MessageId}
    (hrec : p.dispatcher.Records payload ms res p'.dispatcher)
    (hchannels : p'.channels = p.channels.set channel (ch.pushAll ms)) :
    Receipted p' (queued ++ ms) pushed := by
  have hne : ∀ {m m'}, m ∈ queued → m' ∈ ms → m.id ≠ m'.id := fun hm hm' =>
    h.id_ne_of_sendBlock hblock hfew hm hm'
  -- the ids that were pushed are those of messages that were sent before
  have hbefore : ∀ {c m}, m ∈ queued ++ ms → m.id ∈ pushed c → m ∈ queued := by
    intro c m hm hpushed
    rcases List.mem_append.mp hm with hm | hm
    · exact hm
    · obtain ⟨m₀, hm₀, hid⟩ := h.pushed_of c _ hpushed
      exact absurd hid (hne hm₀ hm)
  refine ⟨h.toRemembers.queue hlen hch hlogged hblock hfew hchannels hrec.messagesInPackets,
    h.nodup_pushed, ?_, ?_, ?_⟩
  · intro c id hid m hm hmid hsome remaining hget
    have hold := h.closed c id hid m (hbefore hm (hmid ▸ hid)) hmid hsome remaining
    generalize hd : p'.dispatcher = d at hrec hget
    cases hrec with
    | whole _ => exact hold hget
    | tooOld _ _ => exact hold hget
    | fragmented hlarge hinsert =>
      obtain ⟨rfl, -⟩ | hget := SequenceBuffer.get_of_get_insert hinsert hget
      · have hpos := List.length_pos_iff.mpr (SendBlock_ne_nil hblock)
        have hzero : ms[0]? = some ms[0] := List.getElem?_eq_getElem hpos
        have hid₀ : ms[0].id = p.dispatcher.nextMessageId :=
          ((hblock.getElem? hzero).1).trans (UInt16.add_zero _)
        exact hne (hbefore hm (hmid ▸ hid)) (List.mem_of_getElem? hzero) (hmid.trans hid₀.symm)
      · exact hold hget
  · intro c id hid
    obtain ⟨m, hm, hmid⟩ := h.pushed_of c id hid
    exact ⟨m, List.mem_append_left _ hm, hmid⟩
  · intro m hm hwhole hpushed
    have hm := hbefore hm hpushed
    obtain ⟨hwaits, hgone⟩ := h.idle m hm hwhole hpushed
    refine ⟨fun hmem => ?_, fun hchan id => ?_⟩
    · have hid : (ch.pushAll ms).id = channel := by
        rw [Channel.id_pushAll]
        exact ChannelList.id_of_get? hch
      rw [Retains.queuedOn_set hch hid hchannels] at hmem
      split at hmem
      · next heq =>
        rw [Channel.queued_pushAll] at hmem
        rcases List.mem_append.mp hmem with hmem | hmem
        · refine hwaits ?_
          rw [queuedOn, heq, hch]
          exact hmem
        · exact hne hm hmem rfl
      · exact hwaits hmem
    · rw [handlesOf, hrec.messagesInPackets, ← handlesOf]
      exact hgone hchan id

end Receipted

/-! ### Packets that ack -/

/-- The sent packets that the header is the first to ack. -/
def firstAcks (p : Endpoint) (header : ProtocolPacketHeader) : List PacketId :=
  ((header.acks.getD []).filter fun ack =>
    ack.2 && (p.sentBuffer.get ack.1).any fun sentMeta => !sentMeta.acked).map Prod.fst

/-- Every unfragmented reliable message in these packets is still in the queue, and in one of them
only. -/
def AcksSingly (p : Endpoint) (header : ProtocolPacketHeader) : Prop :=
  ∀ id ∈ p.firstAcks header, ∀ handle ∈ p.dispatcher.handlesOf id, handle.channel = 1 →
    handle.fragIndex = none →
    (∃ m ∈ p.queuedOn 1, m.id = handle.id) ∧
      ∀ id' ∈ p.firstAcks header, handle ∈ p.dispatcher.handlesOf id' → id' = id

-- The quantifiers over ids are those over lists, and do not run through all of `PacketId`.
instance (p : Endpoint) (header : ProtocolPacketHeader) : Decidable (p.AcksSingly header) :=
  have (id : PacketId) (handle : MessageHandle) :
      Decidable (∀ id' ∈ p.firstAcks header, handle ∈ p.dispatcher.handlesOf id' → id' = id) :=
    List.decidableBAll _ _
  List.decidableBAll _ _

/-- The packet is neither stale nor a duplicate. -/
def Accepts (p : Endpoint) (header : ProtocolPacketHeader) : Prop :=
  p.receivedBuffer.checkSequence header.id = true ∧
    p.receivedBuffer.existsSequence header.id = false

/-- An incoming packet that is accepted acks singly. -/
def Call.Single (p : Endpoint) : Call → Prop
  | .processIncomingPacket header _ => p.Accepts header → p.AcksSingly header
  | _ => True

theorem mem_firstAcks_iff {p : Endpoint} {header : ProtocolPacketHeader} {id : PacketId} :
    id ∈ p.firstAcks header ↔ (id, true) ∈ header.acks.getD [] ∧
      ∃ sentMeta, p.sentBuffer.get id = some sentMeta ∧ sentMeta.acked = false := by
  simp only [firstAcks, List.mem_map, List.mem_filter, Bool.and_eq_true,
    Option.any_eq_true, Bool.not_eq_true']
  constructor
  · rintro ⟨⟨id', bit⟩, ⟨hmem, rfl, hfirst⟩, rfl⟩
    exact ⟨hmem, hfirst⟩
  · rintro ⟨hmem, hfirst⟩
    exact ⟨(id, true), ⟨hmem, rfl, hfirst⟩, rfl⟩

theorem AcksSingly.congr {p p' : Endpoint} {header : ProtocolPacketHeader} (h : p.AcksSingly header)
    (hsent : p'.sentBuffer = p.sentBuffer)
    (hhandles : p'.dispatcher.messagesInPackets = p.dispatcher.messagesInPackets)
    (hqueue : p'.queuedOn 1 = p.queuedOn 1) : p'.AcksSingly header := by
  simp only [AcksSingly, firstAcks, handlesOf, hsent, hhandles, hqueue]
  exact h

/-- Received messages push no acks. -/
theorem sameAcks_receiveMessage {p p' : Endpoint} {m : Message} (h : p.receiveMessage m = .ok p') :
    p'.dispatcher.sentFragMap = p.dispatcher.sentFragMap ∧
      p'.dispatcher.ackInbox = p.dispatcher.ackInbox := by
  simp only [receiveMessage] at h
  split at h
  · cases h
    exact ⟨rfl, rfl⟩
  · split at h
    · obtain ⟨d, hd, rfl⟩ := exists_of_map_eq_ok h
      have hsame := processReceivedMessage_eq_ok hd
      show d.sentFragMap = p.dispatcher.sentFragMap ∧ d.ackInbox = p.dispatcher.ackInbox
      rw [hsame]
      exact ⟨rfl, rfl⟩
    · cases h
      exact ⟨rfl, rfl⟩

namespace Receipted

variable {p p' : Endpoint} {queued : List Message} {pushed : UInt8 → List MessageId}

/-- The queue of the reliable channel after the acks of handles. -/
theorem queuedOn_ack (h : Receipted p queued pushed) {ms : List Message}
    (hms : ∀ m ∈ ms, m ∈ queued)
    {d d' : MessageDispatcher} {buffers : List PooledBuffer}
    (hd : d.ackHandles p.channels (ms.map Message.handle) = .ok (buffers, d', p'.channels))
    {m : Message} :
    m ∈ p'.queuedOn 1 ↔ m ∈ p.queuedOn 1 ∧ ∀ m₀ ∈ ms, m₀.channel = 1 → m₀.id ≠ m.id := by
  obtain ⟨c, hc⟩ := h.exists_hasReliable
  have hheld : ∀ x ∈ c.q, x.message ∈ queued := by
    intro x hx
    have hqueued : x.message ∈ p.queuedOn 1 := by
      rw [Retains.queuedOn_of_hasReliable hc]
      exact List.mem_map_of_mem hx
    exact h.mem_queued hqueued
  obtain ⟨c', hc', hq'⟩ := ackHandles_queue h.coherent.known h.coherent.sent hms hc hheld hd
  rw [Retains.queuedOn_of_hasReliable hc', Retains.queuedOn_of_hasReliable hc, hq']
  have hkept : ∀ x : ResendableMessage,
    (!(ms.any fun m₀ => m₀.channel == 1 && m₀.id == x.message.id)) = true ↔
      ∀ m₀ ∈ ms, m₀.channel = 1 → m₀.id ≠ x.message.id := by
    intro x
    simp only [Bool.not_eq_true', List.any_eq_false, Bool.and_eq_true, beq_iff_eq, not_and, ne_eq]
  simp only [List.mem_map, List.mem_filter, hkept]
  constructor
  · rintro ⟨x, ⟨hx, hnone⟩, rfl⟩
    exact ⟨⟨x, hx, rfl⟩, hnone⟩
  · rintro ⟨⟨x, hx, rfl⟩, hnone⟩
    exact ⟨x, ⟨hx, hnone⟩, rfl⟩

/-- **The pushes of an ack.** The messages of the packet were not pushed before. -/
theorem exists_pushes (h : Receipted p queued pushed) {header : ProtocolPacketHeader}
    (hsingle : p.AcksSingly header)
    {s : PacketId} (hfirst : s ∈ p.firstAcks header) {d : MessageDispatcher}
    {channels : ChannelList}
    {buffers : List PooledBuffer}
    (hd : p.dispatcher.ackedPacket s p.channels = .ok (buffers, d, channels)) :
    ∃ news, Pushes queued (p.dispatcher.handlesOf s) pushed news
      { p.dispatcher with messagesInPackets := (p.dispatcher.messagesInPackets.remove s).2 } d := by
  rw [ackedPacket_eq] at hd
  obtain ⟨ms, hms, hhandles⟩ := h.handles s
  have hdistinct := h.nodup s
  have hmem : ∀ m ∈ ms, m.handle ∈ p.dispatcher.handlesOf s := fun m hm =>
    hhandles ▸ List.mem_map_of_mem hm
  rw [hhandles] at hd hdistinct ⊢
  have hnew : ∀ m ∈ ms, m.fragment = none → m.id ∉ pushed m.channel := by
    intro m hm hwhole hpushed
    obtain ⟨hwaits, hgone⟩ := h.idle m (hms m hm) hwhole hpushed
    rcases (h.coherent.sent m (hms m hm)).channel with hchan | hchan
    · exact hgone hchan s (hmem m hm)
    · obtain ⟨⟨m', hm', hid⟩, -⟩ :=
        hsingle s hfirst m.handle (hmem m hm) hchan (by simp [Message.handle, hwhole])
      obtain rfl := h.coherent.known m' (h.mem_queued hm') m (hms m hm) hid
      rw [hchan] at hwaits
      exact hwaits hm'
  exact exists_pushes_foldlM h.coherent hms hdistinct h.nodup_pushed h.closed hnew
    (foldlM_ackHandle_of_ackHandles hd)

/-- **The ack of a packet.** -/
theorem acked (h : Receipted p queued pushed) (hlogged : ∃ n log, Logged queued n log p')
    {s : PacketId}
    {buffers : List PooledBuffer}
    (hd : p.dispatcher.ackedPacket s p.channels = .ok (buffers, p'.dispatcher, p'.channels))
    {news : UInt8 → List MessageId} (hpushes : Pushes queued (p.dispatcher.handlesOf s) pushed news
      { p.dispatcher with messagesInPackets := (p.dispatcher.messagesInPackets.remove s).2 }
        p'.dispatcher) :
    Receipted p' queued fun channel => pushed channel ++ news channel := by
  rw [ackedPacket_eq] at hd
  have hthins : List.Forall₂ Channel.Thins p.channels p'.channels :=
    forall₂_ackHandles Channel.Thins.refl Channel.Thins.trans Channel.thins_messageAckReceived
      h.intact.channels.ids hd
  have hhandles := handlesOf_of_remove hpushes.messagesInPackets
  have hfewer : ∀ {id handle}, handle ∈ p'.dispatcher.handlesOf id →
    handle ∈ p.dispatcher.handlesOf id :=
    fun hmem => mem_handlesOf (hhandles _) hmem
  refine ⟨h.thins hlogged hthins hhandles, hpushes.nodup, hpushes.closed, ?_, ?_⟩
  · intro channel id hid
    rcases List.mem_append.mp hid with hid | hid
    · exact h.pushed_of channel id hid
    · obtain ⟨handle, hhandle, -, -, rfl⟩ | ⟨m, hm, hmid, -⟩ := hpushes.origin channel id hid
      · obtain ⟨ms, hms, heq⟩ := h.handles s
        rw [heq] at hhandle
        obtain ⟨m, hm, rfl⟩ := List.mem_map.mp hhandle
        exact ⟨m, hms m hm, rfl⟩
      · exact ⟨m, hm, hmid⟩
  · intro m hm hwhole hpushed
    rcases List.mem_append.mp hpushed with hpushed | hpushed
    · obtain ⟨hwaits, hgone⟩ := h.idle m hm hwhole hpushed
      exact ⟨fun hmem => hwaits ((queuedOn_sublist hthins _).subset hmem),
        fun hchan id hmem => hgone hchan id (hfewer hmem)⟩
    · obtain ⟨ms, hms, heq⟩ := h.handles s
      -- the message is one of the packet
      have hmem : m ∈ ms := by
        obtain ⟨handle, hhandle, -, -, hid⟩ | ⟨m₀, hm₀, hid, hsome⟩ := hpushes.origin _ _ hpushed
        · rw [heq] at hhandle
          obtain ⟨m', hm', rfl⟩ := List.mem_map.mp hhandle
          exact h.coherent.known m' (hms m' hm') m hm hid ▸ hm'
        · rw [h.coherent.known m₀ hm₀ m hm hid, hwhole] at hsome
          cases hsome
      have hhandle : m.handle ∈ p.dispatcher.handlesOf s := heq ▸ List.mem_map_of_mem hmem
      rcases (h.coherent.sent m hm).channel with hchan | hchan
      · obtain ⟨hwaits, honly⟩ := h.unreliable s m.handle hhandle hchan
        refine ⟨fun hqueued => ?_, fun _ id hid => ?_⟩
        · rw [hchan] at hqueued
          exact hwaits m ((queuedOn_sublist hthins 0).subset hqueued) rfl
        · obtain rfl := honly id (hfewer hid)
          rw [handlesOf_remove_self hpushes.messagesInPackets] at hid
          cases hid
      · refine ⟨fun hqueued => ?_, fun hzero => ?_⟩
        · rw [hchan] at hqueued
          rw [heq] at hd
          exact ((h.queuedOn_ack hms hd).mp hqueued).2 m hmem hchan rfl
        · rw [hchan] at hzero
          cases hzero

/-- The packets that are still to be acked do not share messages with the one that was. -/
theorem acksSingly (h : Receipted p queued pushed) {header : ProtocolPacketHeader}
    (hsingle : p.AcksSingly header)
    {s : PacketId} (hfirst : s ∈ p.firstAcks header) {buffers : List PooledBuffer}
    (hd : p.dispatcher.ackedPacket s p.channels = .ok (buffers, p'.dispatcher, p'.channels))
    (hhandles : p'.dispatcher.messagesInPackets = (p.dispatcher.messagesInPackets.remove s).2)
    {sentMeta : SentMeta} (hget : p.sentBuffer.get s = some sentMeta)
    (hsent : p'.sentBuffer = p.sentBuffer.setEntry s { sentMeta with acked := true }) :
    p'.AcksSingly header := by
  have hother : ∀ {id}, id ∈ p'.firstAcks header → id ≠ s ∧ id ∈ p.firstAcks header := by
    intro id hid
    rw [mem_firstAcks_iff] at hid ⊢
    obtain ⟨hack, sentMeta', hget', hnew⟩ := hid
    rw [hsent, SequenceBuffer.get_setEntry hget] at hget'
    split at hget'
    · cases hget'
      cases hnew
    · next hne => exact ⟨hne, hack, sentMeta', hget', hnew⟩
  have hfewer : ∀ {id handle}, handle ∈ p'.dispatcher.handlesOf id →
    handle ∈ p.dispatcher.handlesOf id :=
    fun hmem => mem_handlesOf (handlesOf_of_remove hhandles _) hmem
  intro id hid handle hhandle hchan hwhole
  obtain ⟨hne, hid⟩ := hother hid
  obtain ⟨⟨m, hm, hmid⟩, honly⟩ := hsingle id hid handle (hfewer hhandle) hchan hwhole
  refine ⟨⟨m, ?_, hmid⟩, fun id' hid' hmem => honly id' (hother hid').2 (hfewer hmem)⟩
  obtain ⟨ms, hms, heq⟩ := h.handles s
  rw [ackedPacket_eq, heq] at hd
  refine (h.queuedOn_ack hms hd).mpr ⟨hm, fun m₀ hm₀ _ hid₀ => hne ?_⟩
  -- a message that was dismissed would be in both packets
  obtain ⟨ms', hms', heq'⟩ := h.handles id
  have hhandle' := hfewer hhandle
  rw [heq'] at hhandle'
  obtain ⟨m', hm', rfl⟩ := List.mem_map.mp hhandle'
  obtain rfl := h.coherent.known m (h.mem_queued hm) m' (hms' m' hm') hmid
  obtain rfl := h.coherent.known m₀ (hms m₀ hm₀) m (h.mem_queued hm) hid₀
  exact (honly s hfirst (heq ▸ List.mem_map_of_mem hm₀)).symm

/-- **One ack of a packet that acks singly.** -/
theorem processAck (h : Receipted p queued pushed) {header : ProtocolPacketHeader}
    (hsingle : p.AcksSingly header)
    {packetType : PacketType} {ack : UInt16 × Bool} (hack : ack ∈ header.acks.getD [])
    (hcall : p.processAck packetType ack = .ok p') :
    ∃ news : UInt8 → List MessageId,
      (∀ channel, p'.dispatcher.ackInbox channel = p.dispatcher.ackInbox channel ++ news channel) ∧
      Receipted p' queued (fun channel => pushed channel ++ news channel) ∧
        p'.AcksSingly header := by
  obtain ⟨n, log, hlogged⟩ := h.logged
  have hlogged' := hlogged.processAck hcall
  have hnothing (hsame : p' = p) : ∃ news : UInt8 → List MessageId,
      (∀ channel, p'.dispatcher.ackInbox channel = p.dispatcher.ackInbox channel ++ news channel) ∧
      Receipted p' queued (fun channel => pushed channel ++ news channel) ∧
        p'.AcksSingly header := by
    subst hsame
    exact ⟨fun _ => [], by simp, by simpa using h, hsingle⟩
  cases hbit : ack.2 with
  | false =>
    rw [Endpoint.processAck, hbit] at hcall
    exact hnothing (Except.ok.inj hcall).symm
  | true =>
    obtain hsame | ⟨sentMeta, buffers, d, channels, hget, hnew, hd, hp'⟩ := processAck_cases hcall
    · exact hnothing hsame
    · have hfirst : ack.1 ∈ p.firstAcks header :=
        mem_firstAcks_iff.mpr ⟨hbit ▸ hack, sentMeta, hget, hnew⟩
      obtain ⟨news, hpushes⟩ := h.exists_pushes hsingle hfirst hd
      have hdispatcher : p'.dispatcher = d := by rw [hp']
      have hchannels : p'.channels = channels := by rw [hp']
      rw [← hdispatcher, ← hchannels] at hd
      rw [← hdispatcher] at hpushes
      exact ⟨news, hpushes.inbox, h.acked ⟨n, log, hlogged'⟩ hd hpushes,
        h.acksSingly hsingle hfirst hd hpushes.messagesInPackets hget (by rw [hp'])⟩

/-- **An incoming packet.** -/
theorem processIncomingPacket (h : Receipted p queued pushed) {header : ProtocolPacketHeader}
    {payload : List UInt8}
    (hsingle : Call.Single p (.processIncomingPacket header payload))
    {r : Except PicklebackError Unit}
    (hcall : p.processIncomingPacket header payload = .ok (p', r)) :
    ∃ news : UInt8 → List MessageId,
      (∀ channel, p'.dispatcher.ackInbox channel = p.dispatcher.ackInbox channel ++ news channel) ∧
      Receipted p' queued fun channel => pushed channel ++ news channel := by
  -- a step that neither sends nor acks
  have hquiet : ∀ {q q' : Endpoint} {pushed : UInt8 → List MessageId}, Receipted q queued pushed →
    q.SameSending q' →
      q'.dispatcher.sentFragMap = q.dispatcher.sentFragMap → Receipted q' queued pushed := by
    intro q q' pushed hq hsame hmap
    obtain ⟨n, log, hlogged⟩ := hq.logged
    exact hq.transfer ⟨n, log, hlogged.sameSending hsame⟩ hsame.channels
      hsame.messagesInPackets hmap
  by_cases haccepts : p.Accepts header
  · let Invariant (q : Endpoint) : Prop := ∃ news : UInt8 → List MessageId,
      (∀ channel, q.dispatcher.ackInbox channel = p.dispatcher.ackInbox channel ++ news channel) ∧
      Receipted q queued (fun channel => pushed channel ++ news channel) ∧ q.AcksSingly header
    have hkeeps : ∀ {q q' : Endpoint}, Invariant q → q.SameSending q' →
        q'.dispatcher.sentFragMap = q.dispatcher.sentFragMap →
          q'.dispatcher.ackInbox = q.dispatcher.ackInbox →
          Invariant q' := by
      rintro q q' ⟨news, hinbox, hq, hacks⟩ hsame hmap hsameInbox
      refine ⟨news, fun channel => hsameInbox ▸ hinbox channel, hquiet hq hsame hmap, ?_⟩
      exact hacks.congr hsame.sentBuffer hsame.messagesInPackets
        (Retains.queuedOn_of_sameQueue hsame.channels hq.exists_hasReliable).2
    have hcore : ∀ {q q' : Endpoint}, Invariant q → q.SameCore q' → Invariant q' := by
      intro q q' hq hsame
      exact hkeeps hq hsame.sameSending (by rw [hsame]) (by rw [hsame])
    have hfinal : Invariant p' := by
      refine processIncomingPacket_induct_messages (I := Invariant) hcore ?_ ?_ ?_ ?_ hcall
      · intro q b id m hq hb
        exact hkeeps hq (sameSending_of_channels (fun hq => hq.receivedBuffer hb)
          rfl rfl rfl rfl rfl) rfl rfl
      · rintro q q' packetType ack ⟨news, hinbox, hq, hacks⟩ hmem hack
        obtain ⟨news', hinbox', hq', hacks'⟩ := hq.processAck hacks hmem hack
        refine ⟨fun channel => news channel ++ news' channel, fun channel => ?_, ?_, hacks'⟩
        · rw [hinbox', hinbox, List.append_assoc]
        · simpa only [List.append_assoc] using hq'
      · intro q q' r hq _ hmessages
        refine processMessages_induct (I := Invariant) hcore ?_ hq hmessages
        rintro q q' m ⟨news, hinbox, hq, hacks⟩ hm
        obtain ⟨hmap, hsameInbox⟩ := sameAcks_receiveMessage hm
        exact hkeeps ⟨news, hinbox, hq, hacks⟩ (sameSending_receiveMessage hq.intact hm)
          hmap hsameInbox
      · exact ⟨fun _ => [], by simp, by simpa using h, hsingle haccepts⟩
    obtain ⟨news, hinbox, hp', -⟩ := hfinal
    exact ⟨news, hinbox, hp'⟩
  · have hsame := sameCore_of_refused haccepts hcall
    have hp' := hquiet h hsame.sameSending (by rw [hsame])
    exact ⟨fun _ => [], fun channel => by rw [hsame]; simp, by simpa using hp'⟩

end Receipted

/-! ### Runs -/

/-- An endpoint, the messages that were queued, and all that was ever pushed onto its ack
inboxes. -/
structure Receipts where
  endpoint : Endpoint
  queued : List Message
  pushed : UInt8 → List MessageId

namespace Receipts

/-- A new endpoint. -/
def start (overflowChecks : Bool) (time : Time) : Receipts where
  endpoint := Endpoint.new overflowChecks .default time
  queued := []
  pushed := fun _ => []

/-- One call, with what it adds. -/
def step (r : Receipts) (c : Call) : Except Panic Receipts :=
  (r.endpoint.step c).map fun p => {
    endpoint := p
    queued := r.queued ++ (Journal.sendsOf r.endpoint p c).flatMap Send.messages
    pushed := fun channel => r.pushed channel ++
      (p.dispatcher.ackInbox channel).drop (r.endpoint.dispatcher.ackInbox channel).length }

/-- A series of calls. -/
def run (r : Receipts) (calls : List Call) : Except Panic Receipts := calls.foldlM step r

end Receipts

/-- **One call.** -/
theorem Receipted.step {r r' : Receipts} {c : Call} (h : Receipted r.endpoint r.queued r.pushed)
    (hsingle : Call.Single r.endpoint c) (hstep : r.step c = .ok r')
    (hfew : r'.queued.length ≤ 65536) :
    Receipted r'.endpoint r'.queued r'.pushed := by
  obtain ⟨p, hp, rfl⟩ := exists_of_map_eq_ok hstep
  have hlogged : ∃ n log,
    Logged (r.queued ++ (Journal.sendsOf r.endpoint p c).flatMap Send.messages) n log p := by
    obtain ⟨n, log, hlogged⟩ := h.logged
    obtain ⟨es, k, hdid, -⟩ := step_did h.intact hp
    obtain ⟨log', hlogged', -⟩ := hlogged.did hdid
    exact ⟨_, _, hlogged'⟩
  -- a call that queues nothing, after which the endpoint agrees with what it was at some point
  -- before
  have hquiet : ∀ {q : Endpoint} {news : UInt8 → List MessageId},
      Receipted q r.queued (fun channel => r.pushed channel ++ news channel) →
      Journal.sendsOf r.endpoint p c = [] →
      (∀ channel, (p.dispatcher.ackInbox channel).drop
        (r.endpoint.dispatcher.ackInbox channel).length = news channel) →
      List.Forall₂ Channel.SameQueue q.channels p.channels →
      p.dispatcher.messagesInPackets = q.dispatcher.messagesInPackets →
      p.dispatcher.sentFragMap = q.dispatcher.sentFragMap →
      Receipted p (r.queued ++ (Journal.sendsOf r.endpoint p c).flatMap Send.messages)
        (fun channel =>
        r.pushed channel ++ (p.dispatcher.ackInbox channel).drop
          (r.endpoint.dispatcher.ackInbox channel).length) := by
    intro q news hq hsends hinbox hchannels hhandles hmap
    rw [hsends] at hlogged
    simp only [hsends, hinbox, List.flatMap_nil, List.append_nil] at hlogged ⊢
    exact hq.transfer hlogged hchannels hhandles hmap
  have hrefl : ∀ cs : ChannelList, List.Forall₂ Channel.SameQueue cs cs := fun cs =>
    List.forall₂_same.mpr fun ch _ => .refl ch
  have hsame : Receipted r.endpoint r.queued fun channel => r.pushed channel ++
    [] := by simpa using h
  cases c with
  | setXorSalt salt =>
    cases hp
    exact hquiet hsame rfl (fun _ => List.drop_length) (hrefl _) rfl rfl
  | update dt =>
    cases hp
    exact hquiet hsame rfl (fun _ => List.drop_length) (r.endpoint.sameQueue_update dt) rfl rfl
  | drainReceivedMessages channel =>
    cases hp
    exact hquiet hsame rfl (fun _ => List.drop_length) (hrefl _) rfl rfl
  | drainMessageAcks channel =>
    cases hp
    refine hquiet hsame rfl (fun c => ?_) (hrefl _) rfl rfl
    by_cases hc : c = channel
    · simp [drainMessageAcks, hc]
    · simp [drainMessageAcks, hc]
  | sendMessage channel payload =>
    obtain ⟨⟨p₁, res⟩, hcall, rfl⟩ := exists_of_map_eq_ok hp
    obtain ⟨hsends, hp₁⟩ | ⟨ch, ms, hsends, hlen, hch, hblock, hrec, hp₁⟩ :=
      sendsOf_sendMessage h.intact hcall
    · refine hquiet hsame hsends (fun _ => ?_) ?_ ?_ ?_
      · rw [hp₁]
        exact List.drop_length
      · rw [hp₁]
        exact hrefl _
      · rw [hp₁]
      · rw [hp₁]
    · rw [hsends] at hlogged
      simp only [hsends, hrec.ackInbox, List.drop_length, List.flatMap_singleton, List.append_nil]
        at hlogged hfew ⊢
      exact h.queue hlen hch hlogged hblock hfew hrec (by rw [hp₁])
  | visitPacketsToSend =>
    obtain ⟨⟨p₁, packets⟩, hcall, rfl⟩ := exists_of_map_eq_ok hp
    obtain ⟨es, p₂, p₃, res, hall, -, hstop, hp₁, -⟩ := visitPacketsToSend_cases h.intact hcall
    have hchannels : p₁.channels = p₂.channels := by
      rw [hp₁]
      exact hstop.channels
    have hdispatcher : p₁.dispatcher = p₂.dispatcher := by
      rw [hp₁]
      exact hstop.dispatcher
    refine hquiet (hsame.emitsAll hall) rfl (fun _ => ?_) (hchannels ▸ hrefl _)
      (by rw [hdispatcher])
      (by rw [hdispatcher])
    rw [hdispatcher, hall.sameIntake.ackInbox]
    exact List.drop_length
  | sendControl packetType build =>
    obtain ⟨⟨p₁, res⟩, hcall, rfl⟩ := exists_of_map_eq_ok hp
    have hdispatcher := dispatcher_sendControl hcall
    refine hquiet hsame rfl (fun _ => ?_) (channels_sendControl hcall ▸ hrefl _)
      (by rw [hdispatcher])
      (by rw [hdispatcher])
    rw [hdispatcher]
    exact List.drop_length
  | processIncomingPacket header payload =>
    obtain ⟨⟨p₁, res⟩, hcall, rfl⟩ := exists_of_map_eq_ok hp
    obtain ⟨news, hinbox, hp₁⟩ := h.processIncomingPacket hsingle hcall
    refine hquiet hp₁ rfl (fun channel => ?_) (hrefl _) rfl rfl
    rw [hinbox, List.drop_left]

/-- The runs of a default-config endpoint, with receipts, whose calls all meet a condition. -/
inductive ReceiptRun (overflowChecks : Bool) (Meets : Endpoint → Call → Prop) : Receipts → Prop
  | new (time : Time) : ReceiptRun overflowChecks Meets (.start overflowChecks time)
  | step {r r' : Receipts} {c : Call} (h : ReceiptRun overflowChecks Meets r)
    (hmeets : Meets r.endpoint c)
    (hstep : r.step c = .ok r') : ReceiptRun overflowChecks Meets r'

namespace ReceiptRun

variable {overflowChecks : Bool} {r r' : Receipts}

theorem receipted (h : ReceiptRun overflowChecks Call.Single r) (hfew : r.queued.length ≤ 65536) :
    Receipted r.endpoint r.queued r.pushed := by
  induction h with
  | new time => exact .new overflowChecks time
  | @step r r' c _ hsingle hstep ih =>
    have hle : r.queued.length ≤ r'.queued.length := by
      obtain ⟨p, -, rfl⟩ := exists_of_map_eq_ok hstep
      exact List.length_append ▸ Nat.le_add_right _ _
    exact (ih (hle.trans hfew)).step hsingle hstep hfew

/-- **Each message is acked to the application at most once**, in every run of such calls that uses
up fewer than 65536 message ids. -/
theorem nodup_pushed (h : ReceiptRun overflowChecks Call.Single r) (hfew : r.queued.length < 65536)
    (channel : UInt8) : (r.pushed channel).Nodup :=
  (h.receipted hfew.le).nodup_pushed channel

theorem run {Meets : Endpoint → Call → Prop} (h : ReceiptRun overflowChecks Meets r)
    {calls : List Call}
    (hmeets : ∀ c ∈ calls, ∀ p, Meets p c) (hrun : r.run calls = .ok r') :
    ReceiptRun overflowChecks Meets r' := by
  induction calls generalizing r with
  | nil =>
    cases hrun
    exact h
  | cons c calls ih =>
    rw [List.forall_mem_cons] at hmeets
    obtain ⟨r₁, hfirst, hrest⟩ := exists_of_foldlM_cons hrun
    exact ih (h.step (hmeets.1 _) hfirst) hmeets.2 hrest

end ReceiptRun

/-- **Every run** has receipts. -/
theorem Reachable.exists_receiptRun {overflowChecks : Bool} {p : Endpoint}
    (h : Reachable overflowChecks .default p) :
    ∃ r, ReceiptRun overflowChecks (fun _ _ => True) r ∧ r.endpoint = p := by
  induction h with
  | new time => exact ⟨_, .new time, rfl⟩
  | @step p p' c _ hstep ih =>
    obtain ⟨r, hrun, rfl⟩ := ih
    have hr : ∃ r', r.step c = .ok r' ∧ r'.endpoint = p' := by
      rw [Receipts.step, hstep]
      exact ⟨_, rfl, rfl⟩
    obtain ⟨r', hr', heq⟩ := hr
    exact ⟨r', hrun.step trivial hr', heq⟩

/-! ### A message in two packets -/

/-- A packet that acks one packet. -/
def ackPacket (id acked : PacketId) : Call :=
  .processIncomingPacket ⟨.keepAlive, id, some ⟨acked, 1, [1], 1, 0, 0⟩⟩ []

/-- A message is sent, and sent again when no ack has come in. -/
def resend : List Call := [
  .setXorSalt (some 7), .sendMessage 1 [3], .visitPacketsToSend, .update 1, .visitPacketsToSend]

/-- The packets are acked one after the other. -/
theorem not_nodup_pushed_of_resend : ∃ r, ReceiptRun true (fun _ _ => True) r ∧
    r.queued.length < 65536 ∧
    ∃ m ∈ r.queued, m.fragment = none ∧ 1 < (r.pushed m.channel).count m.id := by
  obtain ⟨r, hrun, htest⟩ := exists_of_any_toOption (show
    ((Receipts.start true 0).run (resend ++ [ackPacket 1 1, ackPacket 2 2])).toOption.any (fun r =>
      decide (r.queued.length < 65536 ∧ ∃ m ∈ r.queued, m.fragment = none ∧
        1 < (r.pushed m.channel).count m.id))
        = true by decide +kernel)
  obtain ⟨hfew, htwice⟩ := of_decide_eq_true htest
  exact ⟨r, (ReceiptRun.new 0).run (by simp) hrun, hfew, htwice⟩

/-- The message is acked for its first packet. -/
theorem ReceiptRun.nodup_pushed_ackedOnce : ∃ r, ReceiptRun true Call.Single r ∧ r.pushed 1 = [0] ∧
    (r.pushed 1).Nodup := by
  obtain ⟨r, hrun, htest⟩ := exists_of_any_toOption (show
    ((Receipts.start true 0).run resend).toOption.any (fun r =>
      decide (r.endpoint.AcksSingly ⟨.keepAlive, 1, some ⟨1, 1, [1], 1, 0, 0⟩⟩) &&
        (r.step (ackPacket 1 1)).toOption.any fun r =>
          decide (r.queued.length < 65536 ∧ r.pushed 1 = [0])) = true by
    decide +kernel)
  rw [Bool.and_eq_true, decide_eq_true_iff] at htest
  obtain ⟨r', hstep, htest'⟩ := exists_of_any_toOption htest.2
  obtain ⟨hfew, hpushed⟩ := of_decide_eq_true htest'
  have hresend : ReceiptRun true Call.Single r := by
    refine (ReceiptRun.new 0).run (fun c hc p => ?_) hrun
    simp only [resend, List.mem_cons, List.not_mem_nil, or_false] at hc
    rcases hc with rfl | rfl | rfl | rfl | rfl <;> trivial
  have hsingle : Call.Single r.endpoint (ackPacket 1 1) := fun _ => htest.1
  have hacked := hresend.step hsingle hstep
  exact ⟨r', hacked, hpushed, hacked.nodup_pushed hfew 1⟩

end Endpoint

end Pickleback
