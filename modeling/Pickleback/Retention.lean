import Pickleback.History

/-!
# Retention of reliable messages

A message on the reliable channel stays in its queue until a packet that carries it is acked, and
leaves it then. The way back from a packet id to messages goes through two windows: `sent_buffer`
knows whether the packet was acked before, and `messages_in_packets` has the handles of its
messages. Packets without messages are in the first window only, so the second one moves more
slowly; what keeps them in step is that an entry of `messages_in_packets` is never given up before
`sent_buffer` has given up the same packet.

## Main definitions

* `Endpoint.Retains` — the invariant: the queue, the two windows and the record

## Main results

* `Retains.ack` — the first ack of a packet takes exactly its messages from the queue
* `Journal.queued_iff_unacked` — retention, in every run
-/

namespace Pickleback

/-! ### Windows that have not wrapped -/

namespace SequenceBuffer

open Serial

variable {T : Type} [Inhabited T] {b b' : SequenceBuffer T} {s t : UInt16} {v w : T}

theorem get_remove_of_ne (h : b.index s ≠ b.index t) : (b.remove t).2.get s = b.get s := by
  rw [get, get, index_remove, entrySequences_remove, entries_remove, if_neg h, if_neg h]

/-- A window of 512 slots that holds nothing older. -/
structure Tight (b : SequenceBuffer T) : Prop where
  len : b.len = 512
  recent : ∀ s, b.existsSequence s = true →
    s.toNat ≤ b.sequence.toNat ∧ b.sequence.toNat < s.toNat + 512

/-- Moving forward without a wrap. -/
theorem sequence_insert_forward {f : ℕ} (hnew : b.sequence.toNat < f) (hf : f < 32768)
    (h : b.insert (UInt16.ofNat f) v = .ok b') : b'.sequence.toNat = f := by
  have htoNat : (UInt16.ofNat f).toNat = f := by
    rw [UInt16.toNat_ofNat']
    exact Nat.mod_eq_of_lt (by omega)
  rw [sequence_insert h, if_pos, htoNat]
  rw [sequenceGreaterThan_iff, htoNat]
  omega

/-- What was held and is not too far behind is kept. -/
theorem get_insert_forward {f : ℕ} (hlen : b.len = 512) (hnew : b.sequence.toNat < f)
    (h : b.insert (UInt16.ofNat f) v = .ok b') (hs : s.toNat ≤ b.sequence.toNat)
    (hnear : f < s.toNat + 512) : b'.get s = b.get s := by
  have hwrap : s = wrap s.toNat := (lifts_toNat s).eq_wrap
  rw [hwrap]
  exact get_insert_of_lifts (by rw [hlen]; norm_num) (by rw [hlen]; norm_num)
    (lifts_toNat b.sequence) (lifts_ofNat f) (by rw [hlen]; omega)
      (by omega) h (by omega) (by omega)
    (by rw [hlen]; omega)

/-- What is left in the window is not too far behind. -/
theorem Tight.insert_forward {f : ℕ} (hb : b.Tight) (hnew : b.sequence.toNat < f) (hf : f < 32768)
    (h : b.insert (UInt16.ofNat f) v = .ok b') : b'.Tight := by
  have htoNat : (UInt16.ofNat f).toNat = f := by
    rw [UInt16.toNat_ofNat']
    exact Nat.mod_eq_of_lt (by omega)
  have hlen := hb.len
  refine ⟨(len_insert h).trans hlen, fun s hs => ?_⟩
  rw [sequence_insert_forward hnew hf h]
  obtain ⟨w, hget⟩ : ∃ w, b'.get s = some w := ⟨_, get_eq_some_iff.mpr ⟨hs, rfl⟩⟩
  obtain ⟨rfl, -⟩ | hold := get_of_get_insert h hget
  · rw [htoNat]
    omega
  · obtain ⟨hle, hlt⟩ := hb.recent s (get_eq_some_iff.mp hold).1
    refine ⟨by omega, ?_⟩
    by_contra hfar
    -- the slot of `s` is also the slot of `s + 512`, which was passed over
    have hslot : b.Disturbs (UInt16.ofNat f) (b.index s) := by
      have hindex : ∀ x : UInt16, b.index x = x.toNat % 512 := fun x => by
        rw [index_eq (by omega), hlen]
      by_cases hsucc : f = b.sequence.toNat + 1
      · left
        rw [hindex, hindex, htoNat]
        omega
      · have hx : (UInt16.ofNat (s.toNat + 512)).toNat = s.toNat + 512 := by
          rw [UInt16.toNat_ofNat']
          exact Nat.mod_eq_of_lt (by omega)
        have hseq : (b.sequence + 1).toNat = b.sequence.toNat + 1 := by
          rw [UInt16.toNat_add]
          simp only [UInt16.reduceToNat]
          omega
        refine Or.inr ⟨?_, ?_, UInt16.ofNat (s.toNat + 512), ?_, ?_, ?_⟩
        · rw [sequenceGreaterThan_iff, htoNat]
          omega
        · intro heq
          rw [← UInt16.toNat_inj, hseq, htoNat] at heq
          omega
        · rw [UInt16.le_iff_toNat_le, hseq, hx]
          omega
        · rw [UInt16.le_iff_toNat_le, hx, htoNat]
          omega
        · rw [hindex, hindex, hx]
          omega
    obtain ⟨-, hslot'⟩ | hslot' := entrySequences_insert_of_disturbs h hslot
    · rw [existsSequence_iff, index_of_insert h, hslot', Option.some.injEq] at hs
      rw [← hs, htoNat] at hfar
      omega
    · rw [existsSequence_iff, index_of_insert h, hslot'] at hs
      cases hs

end SequenceBuffer

/-! ### Dismissal -/

/-- Among messages known by their ids, the handle of one of them dismisses that one. -/
theorem ResendableMessage.dismissedByAck_handle {m₀ : Message} (hsent : m₀.Sent)
    {x : ResendableMessage} (hx : x.message.id = m₀.id → x.message = m₀) :
    x.dismissedByAck m₀.handle = .ok (x.message.id == m₀.id) := by
  rw [dismissedByAck]
  by_cases hid : x.message.id = m₀.id
  · rw [if_neg (by simpa [Message.handle] using hid), hx hid]
    cases hf : m₀.fragment with
    | none => simp [Message.handle, hf]
    | some f =>
      have hparent := hsent.parentId f hf
      simp [Message.handle, MessageHandle.parentId, hf, hparent]
  · rw [if_pos (by simpa [Message.handle] using hid)]
    simp [hid]

/-- What a handle dismisses leaves the queue. -/
theorem ReliableChannel.dismiss_filter {handle : MessageHandle} {f : ResendableMessage → Bool}
    {q : List ResendableMessage} (hq : ∀ x ∈ q, x.dismissedByAck handle = .ok (f x)) :
    ∃ buffers, ReliableChannel.dismiss handle q = .ok (buffers, q.filter fun x => !f x) := by
  induction q with
  | nil => exact ⟨[], rfl⟩
  | cons x q ih =>
    obtain ⟨buffers, hrest⟩ := ih fun y hy => hq y (List.mem_cons_of_mem _ hy)
    rw [dismiss, hq x (List.mem_cons_self ..)]
    simp only [hrest]
    cases hx : f x with
    | true => exact ⟨x.message.buffer :: buffers, by simp [hx]⟩
    | false => exact ⟨buffers, by simp [hx]⟩

namespace MessageDispatcher

/-- The reliable channel, under its number. -/
def HasReliable (channels : ChannelList) (c : ReliableChannel) : Prop :=
  channels.get? 1 = some (.reliable c) ∧ c.id = 1

section Dismiss

variable {channels : ChannelList} {c : ReliableChannel}

/-- One handle. -/
theorem messageAckReceived_filter {handle : MessageHandle} {f : ResendableMessage → Bool}
    (hc : HasReliable channels c) (hq : handle.channel = 1 →
      ∀ x ∈ c.q, x.dismissedByAck handle = .ok (f x))
    {ch ch' : Channel} {buffers : List PooledBuffer} (hch : channels.get? handle.channel = some ch)
    (hack : ch.messageAckReceived handle = .ok (buffers, ch')) :
    ∃ c', HasReliable (channels.set handle.channel ch') c' ∧
      c'.q = c.q.filter fun x => !(handle.channel == 1 && f x) := by
  by_cases hchan : handle.channel = 1
  · rw [hchan, hc.1] at hch
    cases hch
    obtain ⟨buffers', hdismiss⟩ := ReliableChannel.dismiss_filter (hq hchan)
    simp only [Channel.messageAckReceived, ReliableChannel.messageAckReceived, hdismiss, Except.map]
      at hack
    cases hack
    refine ⟨{ c with q := c.q.filter fun x => !f x }, ⟨?_, hc.2⟩, ?_⟩
    · rw [hchan]
      exact ChannelList.get?_set_self hc.1 (show Channel.id (.reliable _) = 1 from hc.2)
    · refine List.filter_congr fun x _ => ?_
      rw [hchan, beq_self_eq_true, Bool.true_and]
  · refine ⟨c, ⟨?_, hc.2⟩, ?_⟩
    · rw [ChannelList.get?_set_of_ne (Ne.symm hchan)
        ((Channel.id_messageAckReceived hack).trans (ChannelList.id_of_get? hch))]
      exact hc.1
    · refine (List.filter_eq_self.mpr fun x _ => ?_).symm
      simp [hchan]

/-- **The handles of a packet**, one after another. -/
theorem ackHandles_filter {handles : List MessageHandle}
    {f : MessageHandle → ResendableMessage → Bool}
    {d d' : MessageDispatcher} {channels' : ChannelList} {buffers : List PooledBuffer}
    (hc : HasReliable channels c)
    (hq : ∀ handle ∈ handles, handle.channel = 1 → ∀ x ∈ c.q,
      x.dismissedByAck handle = .ok (f handle x))
    (h : d.ackHandles channels handles = .ok (buffers, d', channels')) :
    ∃ c', HasReliable channels' c' ∧
      c'.q = c.q.filter fun x =>
        !(handles.any fun handle => handle.channel == 1 && f handle x) := by
  induction handles generalizing d channels buffers c with
  | nil =>
    cases h
    exact ⟨c, hc, by simp⟩
  | cons handle handles ih =>
    rw [ackHandles] at h
    split at h
    · cases h
    · next ch hch =>
      split at h
      · cases h
      · next bufs ch' hack =>
        split at h
        · cases h
        · next d₁ hd₁ =>
          obtain ⟨r, hr, heq⟩ := exists_of_map_eq_ok h
          cases heq
          obtain ⟨c₁, hc₁, hq₁⟩ :=
            messageAckReceived_filter hc (hq handle (List.mem_cons_self ..)) hch hack
          obtain ⟨c', hc', hq'⟩ := ih hc₁ (fun handle' hmem hchan x hx =>
            hq handle' (List.mem_cons_of_mem _ hmem) hchan x (List.mem_of_mem_filter (hq₁ ▸ hx))) hr
          refine ⟨c', hc', ?_⟩
          rw [hq', hq₁, List.filter_filter]
          refine List.filter_congr fun x _ => ?_
          rw [List.any_cons, Bool.not_or, Bool.and_comm]

/-- Among messages known by their ids, the handles of a packet dismiss its messages from the queue
of the reliable channel, and no others. -/
theorem ackHandles_queue {queued : List Message}
    (hknown : ∀ m ∈ queued, ∀ m' ∈ queued, m.id = m'.id → m = m')
    (hsent : ∀ m ∈ queued, m.Sent) {ms : List Message} (hms : ∀ m ∈ ms, m ∈ queued)
    {d d' : MessageDispatcher} {channels' : ChannelList} {buffers : List PooledBuffer}
    (hc : HasReliable channels c) (hq : ∀ x ∈ c.q, x.message ∈ queued)
    (h : d.ackHandles channels (ms.map Message.handle) = .ok (buffers, d', channels')) :
    ∃ c', HasReliable channels' c' ∧
      c'.q = c.q.filter fun x => !(ms.any fun m₀ => m₀.channel == 1 && m₀.id == x.message.id) := by
  have hdismiss : ∀ handle ∈ ms.map Message.handle, handle.channel = 1 → ∀ x ∈ c.q,
      x.dismissedByAck handle = .ok (handle.id == x.message.id) := by
    intro handle hmem _ x hx
    obtain ⟨m₀, hm₀, rfl⟩ := List.mem_map.mp hmem
    rw [ResendableMessage.dismissedByAck_handle (hsent m₀ (hms m₀ hm₀))
      fun hid => hknown _ (hq x hx) _ (hms m₀ hm₀) hid]
    exact congrArg Except.ok BEq.comm
  obtain ⟨c', hc', hq'⟩ := ackHandles_filter hc hdismiss h
  refine ⟨c', hc', ?_⟩
  rw [hq']
  refine List.filter_congr fun x _ => ?_
  rw [List.any_map]
  rfl

end Dismiss

end MessageDispatcher

/-! ### The invariant -/

namespace Endpoint

open MessageDispatcher

/-- The queue of the reliable channel, the two windows and the record in step. -/
structure Retains (queued : List Message) (n : ℕ) (log : List (ℕ × Emission)) (acked : Set PacketId)
    (p : Endpoint) : Prop where
  logged : Logged queued n log p
  reliable : ∃ c, HasReliable p.channels c
  /-- Retention itself. -/
  retained : ∀ m ∈ queued, m.channel = 1 → (m ∈ p.queuedOn 1 ↔
    ∀ x ∈ log, m.id ∈ x.2.messages.map Message.id → UInt16.ofNat x.1 ∉ acked)
  sentTight : p.sentBuffer.Tight
  /-- The marks in `sent_buffer` are on record, -/
  marked : p.ackedIds ⊆ acked
  /-- and what is on record is still marked, or gone. -/
  unmarked : ∀ id ∈ acked, ∀ sentMeta, p.sentBuffer.get id = some sentMeta → sentMeta.acked = true
  acked_le : ∀ id ∈ acked, id.toNat ≤ n
  /-- `messages_in_packets` is behind `sent_buffer`, -/
  behind : p.dispatcher.messagesInPackets.sequence.toNat ≤ p.sentBuffer.sequence.toNat
  handles_le : ∀ id, p.dispatcher.messagesInPackets.existsSequence id = true →
    id.toNat ≤ p.dispatcher.messagesInPackets.sequence.toNat
  /-- has the handles of packets on record only, -/
  handles : ∀ id handles, p.dispatcher.messagesInPackets.get id = some handles →
    ∃ x ∈ log, id = UInt16.ofNat x.1 ∧ handles = x.2.messages.map Message.handle
  /-- and those of every packet that can still be acked. -/
  live : ∀ x ∈ log, p.sentBuffer.sequence.toNat < x.1 + 512 → UInt16.ofNat x.1 ∉ acked →
    p.dispatcher.messagesInPackets.get (UInt16.ofNat x.1) = some (x.2.messages.map Message.handle)

namespace Retains

variable {queued : List Message} {n : ℕ} {log : List (ℕ × Emission)} {acked : Set PacketId}
  {p p' : Endpoint}

theorem new (overflowChecks : Bool) (time : Time) :
    Retains [] 0 [] ∅ (Endpoint.new overflowChecks .default time) where
  logged := .new overflowChecks time
  reliable := ⟨ReliableChannel.new 1 time, rfl, rfl⟩
  retained := by simp
  sentTight := ⟨rfl, fun s hs => by cases hs⟩
  marked := by
    rintro id ⟨sentMeta, hget, -⟩
    cases hget
  unmarked := by simp
  acked_le := by simp
  behind := le_rfl
  handles_le := fun id hid => by cases hid
  handles := fun id handles hget => by cases hget
  live := by simp

theorem toNat_ofNat {k : ℕ} (hk : k < 32768) : (UInt16.ofNat k).toNat = k := by
  rw [UInt16.toNat_ofNat']
  exact Nat.mod_eq_of_lt (by omega)

/-- The queue of the reliable channel. -/
theorem queuedOn_of_hasReliable {c : ReliableChannel} (h : HasReliable p.channels c) :
    p.queuedOn 1 = c.q.map ResendableMessage.message := by
  rw [queuedOn, h.1]
  rfl

theorem mem_queue_of_hasReliable {c : ReliableChannel} (h : Retains queued n log acked p)
    (hc : HasReliable p.channels c) : ∀ x ∈ c.q, x.message ∈ queued := by
  intro x hx
  exact h.logged.held _ (ChannelList.mem_of_get? hc.1) x.message (List.mem_map_of_mem hx)

theorem queuedOn_of_sameQueue (h : List.Forall₂ Channel.SameQueue p.channels p'.channels)
    (hp : ∃ c, HasReliable p.channels c) :
    (∃ c, HasReliable p'.channels c) ∧ p'.queuedOn 1 = p.queuedOn 1 := by
  obtain ⟨c, hc⟩ := hp
  obtain ⟨ch', hget, hsame⟩ := ChannelList.exists_get?_of_forall₂ (fun _ _ hch => hch.id) h hc.1
  cases ch' with
  | unreliable c' => cases hsame.isReliable
  | reliable c' =>
    have hc' : HasReliable p'.channels c' := ⟨hget, hsame.id.trans hc.2⟩
    refine ⟨⟨c', hc'⟩, ?_⟩
    rw [queuedOn_of_hasReliable hc, queuedOn_of_hasReliable hc']
    exact hsame.queued

theorem queuedOn_of_wrote {ms : List Message} (h : p.channels.Wrote ms p'.channels)
    (hp : ∃ c, HasReliable p.channels c) :
    (∃ c, HasReliable p'.channels c) ∧ p'.queuedOn 1 = p.queuedOn 1 := by
  obtain ⟨c, hc⟩ := hp
  obtain ⟨ch', hget, hwrote⟩ := ChannelList.exists_get?_of_forall₂
    (fun _ _ hch => hch.shrinks.id) h hc.1
  cases hwrote with
  | @reliable _ _ _ q' hmarks _ =>
    have hc' : HasReliable p'.channels { c with q := q' } := ⟨hget, hc.2⟩
    refine ⟨⟨_, hc'⟩, ?_⟩
    rw [queuedOn_of_hasReliable hc, queuedOn_of_hasReliable hc']
    exact hmarks.map_message

/-- A step that changes neither the queue nor the windows. -/
theorem sameSending (h : Retains queued n log acked p) (hsame : p.SameSending p') :
    Retains queued n log acked p' := by
  obtain ⟨hreliable, hqueue⟩ := queuedOn_of_sameQueue hsame.channels h.reliable
  have hids : p'.ackedIds = p.ackedIds := by rw [ackedIds, ackedIds, hsame.sentBuffer]
  refine ⟨h.logged.sameSending hsame, hreliable, ?_, ?_, hids ▸ h.marked,
    ?_, h.acked_le, ?_, ?_, ?_, ?_⟩
  · rw [hqueue]
    exact h.retained
  · rw [hsame.sentBuffer]
    exact h.sentTight
  · rw [hsame.sentBuffer]
    exact h.unmarked
  · rw [hsame.sentBuffer, hsame.messagesInPackets]
    exact h.behind
  · rw [hsame.messagesInPackets]
    exact h.handles_le
  · rw [hsame.messagesInPackets]
    exact h.handles
  · rw [hsame.sentBuffer, hsame.messagesInPackets]
    exact h.live

/-- What a new entry of `sent_buffer` leaves of the marks. -/
theorem marks_insert (h : Retains queued n log acked p) {sentMeta : SentMeta}
    (hnew : sentMeta.acked = false) (hn : n + 1 < 32768) {b : SequenceBuffer SentMeta}
    (hins : p.sentBuffer.insert (UInt16.ofNat (n + 1)) sentMeta = .ok b) :
    (∀ id m, b.get id = some m → m.acked = true → id ∈ acked) ∧
      ∀ id ∈ acked, ∀ m, b.get id = some m → m.acked = true := by
  constructor
  · intro id m hget hm
    obtain ⟨rfl, rfl⟩ | hold := SequenceBuffer.get_of_get_insert hins hget
    · rw [hnew] at hm
      cases hm
    · exact h.marked ⟨m, hold, hm⟩
  · intro id hid m hget
    obtain ⟨rfl, -⟩ | hold := SequenceBuffer.get_of_get_insert hins hget
    · have := h.acked_le _ hid
      rw [toNat_ofNat hn] at this
      omega
    · exact h.unmarked id hid m hold

theorem newest_lt (h : Retains queued n log acked p) : p.sentBuffer.sequence.toNat < n + 1 :=
  Nat.lt_succ_of_le h.logged.newest

/-- **A packet of messages** is in both windows, and not acked yet. -/
theorem emits (h : Retains queued n log acked p) (hn : n + 1 < 32768) {e : Emission}
    (hemits : p.Emits e p') : Retains queued (n + 1) (log ++ [(n + 1, e)]) acked p' := by
  have hnum : p.sequenceId + 1 = UInt16.ofNat (n + 1) := by
    rw [h.logged.sequenceId, UInt16.ofNat_add]
    rfl
  obtain ⟨size, hsent⟩ := hemits.sent
  have hhandles := hemits.handles
  rw [hnum] at hsent hhandles
  obtain ⟨hreliable, hqueue⟩ := queuedOn_of_wrote hemits.wrote h.reliable
  obtain ⟨hmarked, hunmarked⟩ := h.marks_insert rfl hn hsent
  have hbehind : p.dispatcher.messagesInPackets.sequence.toNat < n + 1 :=
    Nat.lt_of_le_of_lt h.behind h.newest_lt
  have hseq := SequenceBuffer.sequence_insert_forward h.newest_lt hn hsent
  have hseq' := SequenceBuffer.sequence_insert_forward hbehind hn hhandles
  have hfresh : UInt16.ofNat (n + 1) ∉ acked := by
    intro hmem
    have := h.acked_le _ hmem
    rw [toNat_ofNat hn] at this
    omega
  refine ⟨h.logged.emits hemits, hreliable, ?_, h.sentTight.insert_forward h.newest_lt hn hsent, ?_,
    hunmarked, fun id hid => (h.acked_le id hid).trans n.le_succ, by omega, ?_, ?_, ?_⟩
  · intro m hm hchan
    rw [hqueue, h.retained m hm hchan]
    constructor
    · intro hall x hx hmem
      rcases List.mem_append.mp hx with hx | hx
      · exact hall x hx hmem
      · rw [List.mem_singleton.mp hx]
        exact hfresh
    · intro hall x hx hmem
      exact hall x (List.mem_append_left _ hx) hmem
  · rintro id ⟨m, hget, hm⟩
    exact hmarked id m hget hm
  · intro id hid
    rw [hseq']
    obtain ⟨v, hget⟩ : ∃ v, p'.dispatcher.messagesInPackets.get id = some v :=
      ⟨_, SequenceBuffer.get_eq_some_iff.mpr ⟨hid, rfl⟩⟩
    obtain ⟨rfl, -⟩ | hold := SequenceBuffer.get_of_get_insert hhandles hget
    · rw [toNat_ofNat hn]
    · have := h.handles_le id (SequenceBuffer.get_eq_some_iff.mp hold).1
      omega
  · intro id handles hget
    obtain ⟨rfl, rfl⟩ | hold := SequenceBuffer.get_of_get_insert hhandles hget
    · exact ⟨(n + 1, e), List.mem_append_right _ (List.mem_singleton_self _), rfl, rfl⟩
    · obtain ⟨x, hx, hid, hh⟩ := h.handles id handles hold
      exact ⟨x, List.mem_append_left _ hx, hid, hh⟩
  · intro x hx hnear hunacked
    rcases List.mem_append.mp hx with hx | hx
    · have hrange := h.logged.range x hx
      have hx' : (UInt16.ofNat x.1).toNat = x.1 := toNat_ofNat (by omega)
      have hget := h.live x hx (by have := h.newest_lt; omega) hunacked
      have hle := h.handles_le _ (SequenceBuffer.get_eq_some_iff.mp hget).1
      rw [SequenceBuffer.get_insert_forward h.logged.intact.handlesLen hbehind hhandles hle
        (by omega)]
      exact hget
    · rw [List.mem_singleton.mp hx]
      exact SequenceBuffer.get_insert_self hhandles

/-- A packet id that was used up. -/
theorem skip (h : Retains queued n log acked p) :
    Retains queued (n + 1) log acked { p with sequenceId := p.sequenceId + 1 } :=
  ⟨h.logged.skip (h.logged.intact.sequenceId _) rfl rfl (h.logged.newest.trans n.le_succ) rfl,
    h.reliable,
    h.retained, h.sentTight, h.marked, h.unmarked, fun id hid =>
      (h.acked_le id hid).trans n.le_succ,
    h.behind, h.handles_le, h.handles, h.live⟩

/-- A packet without messages is in the first window only. -/
theorem control (h : Retains queued n log acked p) (hn : n + 1 < 32768) {sentMeta : SentMeta}
    (hnew : sentMeta.acked = false) {b : SequenceBuffer SentMeta}
    (hsent : p.sentBuffer.insert (p.sequenceId + 1) sentMeta = .ok b) :
    Retains queued (n + 1) log acked { p with sequenceId := p.sequenceId + 1, sentBuffer :=
      b } := by
  have hnum : p.sequenceId + 1 = UInt16.ofNat (n + 1) := by
    rw [h.logged.sequenceId, UInt16.ofNat_add]
    rfl
  have hintact := (h.logged.intact.sentBuffer hsent).sequenceId (p.sequenceId + 1)
  rw [hnum] at hsent
  obtain ⟨hmarked, hunmarked⟩ := h.marks_insert hnew hn hsent
  have hseq := SequenceBuffer.sequence_insert_forward h.newest_lt hn hsent
  have hlt := h.newest_lt
  refine ⟨h.logged.skip hintact rfl rfl hseq.le rfl, h.reliable, h.retained,
    h.sentTight.insert_forward hlt hn hsent, ?_, hunmarked,
    fun id hid => (h.acked_le id hid).trans n.le_succ, ?_, h.handles_le, h.handles, ?_⟩
  · rintro id ⟨m, hget, hm⟩
    exact hmarked id m hget hm
  · have := h.behind
    show p.dispatcher.messagesInPackets.sequence.toNat ≤ b.sequence.toNat
    omega
  · intro x hx hnear hunacked
    refine h.live x hx ?_ hunacked
    have hnear : b.sequence.toNat < x.1 + 512 := hnear
    omega

theorem queuedOn_set {channel : UInt8} {ch ch' : Channel} (hch : p.channels.get? channel = some ch)
    (hid : ch'.id = channel) (hp : p'.channels = p.channels.set channel ch') (c : UInt8) :
    p'.queuedOn c = if c = channel then ch'.queued else p.queuedOn c := by
  rw [queuedOn, queuedOn, hp]
  split
  · next heq =>
    rw [heq, ChannelList.get?_set_self hch hid]
    rfl
  · next hne => rw [ChannelList.get?_set_of_ne hne hid]

theorem hasReliable_pushAll {c : ReliableChannel} {cs : ChannelList} (hc : HasReliable cs c)
    {channel : UInt8} {ch : Channel} (hch : cs.get? channel = some ch) (ms : List Message) :
    ∃ c', HasReliable (cs.set channel (ch.pushAll ms)) c' := by
  have hid : (ch.pushAll ms).id = channel := by
    rw [Channel.id_pushAll]
    exact ChannelList.id_of_get? hch
  have hpush : ∀ (ms : List Message) (c : ReliableChannel), ∃ c',
    (Channel.reliable c).pushAll ms = .reliable c' ∧
      c'.id = c.id := by
    intro ms
    induction ms with
    | nil => exact fun c => ⟨c, rfl, rfl⟩
    | cons m ms ih => exact fun c => ih { c with q := c.q ++ [⟨m, none⟩] }
  by_cases hone : channel = 1
  · subst hone
    rw [hc.1] at hch
    cases hch
    obtain ⟨c', hc', hid'⟩ := hpush ms c
    refine ⟨c', ?_, hid'.trans hc.2⟩
    rw [ChannelList.get?_set_self hc.1 hid, hc']
  · refine ⟨c, ?_, hc.2⟩
    rw [ChannelList.get?_set_of_ne (Ne.symm hone) hid]
    exact hc.1

/-- **A send** puts its messages into the queue; no packet carries them yet. -/
theorem queue (h : Retains queued n log acked p) {channel : UInt8} {payload : List UInt8}
    {ms : List Message} {ch : Channel} (hch : p.channels.get? channel = some ch)
    (hintact : p'.Intact)
    (hblock : SendBlock p.dispatcher.nextMessageId channel payload ms)
    (hlen : (queued ++ ms).length ≤ 65536) {res : Except PicklebackError MessageId}
    (hrec : p.dispatcher.Records payload ms res p'.dispatcher)
    (hp : p' = { p with
      stats := p'.stats
      dispatcher := p'.dispatcher
      channels := p.channels.set channel (ch.pushAll ms)
      pool := p'.pool }) : Retains (queued ++ ms) n log acked p' := by
  have hchannels : p'.channels = p.channels.set channel (ch.pushAll ms) := by rw [hp]
  have hsent : p'.sentBuffer = p.sentBuffer := by rw [hp]
  have hid : (ch.pushAll ms).id = channel := by
    rw [Channel.id_pushAll]
    exact ChannelList.id_of_get? hch
  have hlogged := h.logged.queue hch hintact hblock hrec.nextMessageId (by rw [hp]) hsent hchannels
  have hnew : ∀ m ∈ queued, ∀ m' ∈ ms, m.id ≠ m'.id := by
    have hnodup := hlogged.numbered.nodup hlen
    rw [List.map_append, List.nodup_append] at hnodup
    intro m hm m' hm'
    exact hnodup.2.2 _ (List.mem_map_of_mem hm) _ (List.mem_map_of_mem hm')
  have hqueue : p'.queuedOn 1 = if (1 : UInt8) = channel then p.queuedOn 1 ++
    ms else p.queuedOn 1 := by
    rw [queuedOn_set hch hid hchannels]
    split
    · next heq =>
      rw [Channel.queued_pushAll, queuedOn, heq, hch]
      rfl
    · rfl
  have hids : p'.ackedIds = p.ackedIds := by rw [ackedIds, ackedIds, hsent]
  refine ⟨hlogged, ?_, ?_, ?_, hids ▸ h.marked, ?_, h.acked_le, ?_, ?_, ?_, ?_⟩
  · obtain ⟨c, hc⟩ := h.reliable
    rw [hchannels]
    exact hasReliable_pushAll hc hch ms
  · intro m hm hchan
    rcases List.mem_append.mp hm with hm | hm
    · rw [← h.retained m hm hchan, hqueue]
      split
      · have hnot : m ∉ ms := fun hmem => hnew m hm m hmem rfl
        rw [List.mem_append, or_iff_left hnot]
      · rfl
    · refine iff_of_true ?_ ?_
      · have hone : 1 = channel := by rw [← hchan, (sendBlock_mem hblock hm).1]
        rw [hqueue, if_pos hone]
        exact List.mem_append_right _ hm
      · -- no packet carries a message that was not queued before
        intro x hx hmem
        obtain ⟨m', hm', hidm⟩ := List.mem_map.mp hmem
        obtain ⟨m₀, hm₀, hcopy⟩ := h.logged.copies x hx m' hm'
        exact absurd (hcopy.same.1.symm.trans hidm) (hnew m₀ hm₀ m hm)
  · rw [hsent]
    exact h.sentTight
  · rw [hsent]
    exact h.unmarked
  · rw [hsent, hrec.messagesInPackets]
    exact h.behind
  · rw [hrec.messagesInPackets]
    exact h.handles_le
  · rw [hrec.messagesInPackets]
    exact h.handles
  · rw [hsent, hrec.messagesInPackets]
    exact h.live

/-- **The channels after an ack**: exactly the messages of the packet leave the queue. -/
theorem ackedPacket_queue (h : Retains queued n log acked p) (hlen : queued.length ≤ 65536)
    (hn : n < 32768) {s : PacketId} {sentMeta : SentMeta}
    (hget : p.sentBuffer.get s = some sentMeta)
    (hunacked : s ∉ acked) {d : MessageDispatcher} {channels : ChannelList}
    {buffers : List PooledBuffer}
    (hd : p.dispatcher.ackedPacket s p.channels = .ok (buffers, d, channels)) :
    ∃ c c', HasReliable p.channels c ∧ HasReliable channels c' ∧
      ∀ m ∈ queued, m.channel = 1 → (m ∈ c'.q.map ResendableMessage.message ↔
        m ∈ c.q.map ResendableMessage.message ∧
          ∀ x ∈ log, UInt16.ofNat x.1 = s → m.id ∉ x.2.messages.map Message.id) := by
  obtain ⟨c, hc⟩ := h.reliable
  have hknown : ∀ m ∈ queued, ∀ m' ∈ queued, m.id = m'.id → m = m' := fun m hm m' hm' =>
    h.logged.numbered.eq_of_id hlen hm hm'
  obtain ⟨-, hnear⟩ := h.sentTight.recent s (SequenceBuffer.get_eq_some_iff.mp hget).1
  simp only [MessageDispatcher.ackedPacket, SequenceBuffer.remove] at hd
  split at hd
  · next handles hhandles =>
    obtain ⟨x₀, hx₀, rfl, rfl⟩ := h.handles s handles hhandles
    obtain ⟨ms, hms, hcopies⟩ := exists_originals (h.logged.copies x₀ hx₀)
    rw [hcopies.map_eq fun hcopy => hcopy.handle] at hd
    obtain ⟨c', hc', hq'⟩ := ackHandles_queue hknown h.logged.sent hms hc
      (h.mem_queue_of_hasReliable hc) hd
    refine ⟨c, c', hc, hc', fun m hm hchan => ?_⟩
    have hcarried : (ms.any fun m₀ => m₀.channel == 1 && m₀.id == m.id) = true ↔
        ∃ x ∈ log, UInt16.ofNat x.1 = UInt16.ofNat x₀.1 ∧ m.id ∈ x.2.messages.map Message.id := by
      have hids := hcopies.map_eq fun hcopy => hcopy.same.1
      simp only [List.any_eq_true, Bool.and_eq_true, beq_iff_eq]
      constructor
      · rintro ⟨m₀, hm₀, -, hid⟩
        refine ⟨x₀, hx₀, rfl, ?_⟩
        rw [hids, ← hid]
        exact List.mem_map_of_mem hm₀
      · rintro ⟨x, hx, hnum, hmem⟩
        have hrange := h.logged.range x hx
        have hrange₀ := h.logged.range x₀ hx₀
        have hnum' := congrArg UInt16.toNat hnum
        rw [toNat_ofNat (by omega), toNat_ofNat (by omega)] at hnum'
        rw [h.logged.eq_of_number hx hx₀ hnum', hids] at hmem
        obtain ⟨m₀, hm₀, hid⟩ := List.mem_map.mp hmem
        rw [← hknown m₀ (hms m₀ hm₀) m hm hid] at hchan
        exact ⟨m₀, hm₀, hchan, hid⟩
    rw [hq', List.mem_map, List.mem_map]
    constructor
    · rintro ⟨x, hx, rfl⟩
      obtain ⟨hx, hkept⟩ := List.mem_filter.mp hx
      refine ⟨⟨x, hx, rfl⟩, fun y hy hnum hmem => ?_⟩
      rw [hcarried.mpr ⟨y, hy, hnum, hmem⟩] at hkept
      cases hkept
    · rintro ⟨⟨x, hx, rfl⟩, hnone⟩
      refine ⟨x, List.mem_filter.mpr ⟨hx, ?_⟩, rfl⟩
      rw [Bool.not_eq_true', ← Bool.not_eq_true, hcarried]
      rintro ⟨y, hy, hnum, hmem⟩
      exact hnone y hy hnum hmem
  · next hnone =>
    cases hd
    refine ⟨c, c, hc, hc, fun m _ _ => (and_iff_left ?_).symm⟩
    intro x hx hxs
    have hrange := h.logged.range x hx
    have hx' : (UInt16.ofNat x.1).toNat = x.1 := toNat_ofNat (by omega)
    have hlive := h.live x hx (by rw [← hx', hxs]; exact hnear) (hxs ▸ hunacked)
    rw [hxs, hnone] at hlive
    cases hlive

/-- Marking a packet. -/
theorem ackedIds_setEntry {s : PacketId} {sentMeta : SentMeta}
    (hget : p.sentBuffer.get s = some sentMeta)
    (hp' : p'.sentBuffer = p.sentBuffer.setEntry s { sentMeta with acked := true }) :
    p'.ackedIds = insert s p.ackedIds := by
  ext id
  rw [Set.mem_insert_iff]
  show (∃ m, p'.sentBuffer.get id = some m ∧ m.acked = true) ↔
    id = s ∨ ∃ m, p.sentBuffer.get id = some m ∧ m.acked = true
  rw [hp', SequenceBuffer.get_setEntry hget]
  by_cases hid : id = s
  · simp [hid]
  · simp [hid]

theorem ackedIds_processAck {packetType : PacketType} {ack : UInt16 × Bool}
    (hcall : p.processAck packetType ack = .ok p') : p.ackedIds ⊆ p'.ackedIds := by
  obtain rfl | ⟨sentMeta, buffers, d, channels, hget, -, -, hp'⟩ := processAck_cases hcall
  · exact subset_rfl
  · have hids : p'.ackedIds = insert ack.1 p.ackedIds := ackedIds_setEntry hget (by rw [hp'])
    rw [hids]
    exact Set.subset_insert _ _

/-- Handles of a packet that can still be acked are not lost when another one is acked. -/
theorem get_remove_of_live (h : Retains queued n log acked p) (hn : n < 32768) {s : PacketId}
    {sentMeta : SentMeta} (hget : p.sentBuffer.get s = some sentMeta)
    {x : ℕ × Emission} (hx : x ∈ log)
    (hnear : p.sentBuffer.sequence.toNat < x.1 + 512)
    (hunacked : UInt16.ofNat x.1 ∉ insert s acked) :
    (p.dispatcher.messagesInPackets.remove s).2.get (UInt16.ofNat x.1)
      = some (x.2.messages.map Message.handle) := by
  rw [Set.mem_insert_iff, not_or] at hunacked
  have hlive := h.live x hx hnear hunacked.2
  have hrange := h.logged.range x hx
  have hx' : (UInt16.ofNat x.1).toNat = x.1 := toNat_ofNat (by omega)
  have hxle := h.handles_le _ (SequenceBuffer.get_eq_some_iff.mp hlive).1
  have hbehind := h.behind
  obtain ⟨hle, hnear'⟩ := h.sentTight.recent s (SequenceBuffer.get_eq_some_iff.mp hget).1
  have hne : x.1 ≠ s.toNat := by
    intro heq
    refine hunacked.1 ?_
    rw [← UInt16.toNat_inj, hx', heq]
  have hlen := h.logged.intact.handlesLen
  rw [SequenceBuffer.get_remove_of_ne, hlive]
  rw [SequenceBuffer.index_eq (by omega), SequenceBuffer.index_eq (by omega), hlen, hx']
  omega

/-- **The first ack of a packet** takes its messages from the queue. -/
theorem ack (h : Retains queued n log acked p) (hlen : queued.length ≤ 65536) (hn : n < 32768)
    {packetType : PacketType} {ack : UInt16 × Bool} (hcall : p.processAck packetType ack = .ok p') :
    Retains queued n log (acked ∪ p'.ackedIds) p' := by
  have hlogged := h.logged.processAck hcall
  obtain rfl | ⟨sentMeta, buffers, d, channels, hget, hnew, hd, hp'⟩ := processAck_cases hcall
  · rwa [Set.union_eq_left.mpr h.marked]
  have hsentBuffer : p'.sentBuffer = p.sentBuffer.setEntry ack.1
    { sentMeta with acked := true } := by
    rw [hp']
  have hmip : p'.dispatcher.messagesInPackets =
    (p.dispatcher.messagesInPackets.remove ack.1).2 := by
    rw [hp']
    exact (ackedPacket_eq_ok h.logged.intact.channels hd).1.messagesInPackets
  have hunacked : ack.1 ∉ acked := fun hmem => by
    rw [h.unmarked _ hmem _ hget] at hnew
    cases hnew
  have hrecord : acked ∪ p'.ackedIds = insert ack.1 acked := by
    rw [ackedIds_setEntry hget hsentBuffer, Set.union_insert, Set.union_eq_left.mpr h.marked]
  obtain ⟨hle, -⟩ := h.sentTight.recent ack.1 (SequenceBuffer.get_eq_some_iff.mp hget).1
  obtain ⟨c, c', hc, hc', hqueue⟩ := h.ackedPacket_queue hlen hn hget hunacked hd
  have hchannels : HasReliable p'.channels c' := by
    rw [hp']
    exact hc'
  rw [hrecord]
  refine ⟨hlogged, ⟨c', hchannels⟩, ?_, ?_, ?_, ?_, ?_, ?_, ?_, ?_, ?_⟩
  · intro m hm hchan
    rw [queuedOn_of_hasReliable hchannels, hqueue m hm hchan, ← queuedOn_of_hasReliable hc,
      h.retained m hm hchan]
    simp only [Set.mem_insert_iff, not_or]
    constructor
    · rintro ⟨hold, hother⟩ x hx hmem
      exact ⟨fun heq => hother x hx heq hmem, hold x hx hmem⟩
    · intro hall
      exact ⟨fun x hx hmem => (hall x hx hmem).2, fun x hx heq hmem => (hall x hx hmem).1 heq⟩
  · rw [hsentBuffer]
    exact ⟨h.sentTight.len, h.sentTight.recent⟩
  · rw [← hrecord]
    exact Set.subset_union_right
  · intro id hid m hm
    rw [hsentBuffer, SequenceBuffer.get_setEntry hget] at hm
    split at hm
    · cases hm
      rfl
    · next hne => exact h.unmarked id ((Set.mem_insert_iff.mp hid).resolve_left hne) m hm
  · intro id hid
    rcases Set.mem_insert_iff.mp hid with rfl | hid
    · exact hle.trans h.logged.newest
    · exact h.acked_le id hid
  · rw [hmip, hsentBuffer]
    exact h.behind
  · rw [hmip]
    intro id hid
    have hold := SequenceBuffer.get_of_get_remove (SequenceBuffer.get_eq_some_iff.mpr ⟨hid, rfl⟩)
    exact h.handles_le id (SequenceBuffer.get_eq_some_iff.mp hold).1
  · rw [hmip]
    intro id handles hv
    exact h.handles id handles (SequenceBuffer.get_of_get_remove hv)
  · rw [hmip, hsentBuffer]
    intro x hx hnear hxacked
    exact h.get_remove_of_live hn hget hx hnear hxacked

theorem emitsAll {es : List Emission} (h : Retains queued n log acked p) (hall : p.EmitsAll es p')
    (hn : n + es.length < 32768) :
    ∃ log', Retains queued (n + es.length) (log ++ log') acked p' ∧ log'.map Prod.snd = es := by
  induction hall generalizing n log with
  | nil p => exact ⟨[], by simpa using h, rfl⟩
  | @cons p p₁ p' e es hemits _ ih =>
    rw [List.length_cons] at hn
    obtain ⟨log', hretains, rfl⟩ := ih (h.emits (by omega) hemits) (by omega)
    refine ⟨(n + 1, e) :: log', ?_, rfl⟩
    rw [List.length_cons, show n + ((log'.map Prod.snd).length + 1) =
      n + 1 + (log'.map Prod.snd).length by
      omega]
    simpa using hretains

/-- **Retention is kept by every call.** -/
theorem did {k : ℕ} {sends : List Send} {es : List Emission} (h : Retains queued n log acked p)
    (hdid : p.Did p' sends es k) (hlen : (queued ++ sends.flatMap Send.messages).length ≤ 65536)
    (hn : n + k < 32768) :
    ∃ log', Retains (queued ++ sends.flatMap Send.messages) (n + k)
    (log ++ log') (acked ∪ p'.ackedIds) p' ∧
      log'.map Prod.snd = es := by
  -- calls that receive nothing mark nothing
  have hmarks : ∀ {queued' n' log'}, Retains queued' n' log' acked p' →
    acked ∪ p'.ackedIds = acked :=
    fun h' => Set.union_eq_left.mpr h'.marked
  cases hdid with
  | quiet hsame =>
    have h' := h.sameSending hsame
    rw [hmarks h']
    exact ⟨[], by simpa using h', rfl⟩
  | queued hch hintact _ hblock hrec hp =>
    have h' := h.queue hch hintact hblock (by simpa using hlen) hrec hp
    rw [hmarks h']
    exact ⟨[], by simpa using h', rfl⟩
  | composed hall hsame =>
    obtain ⟨log', hretains, hes⟩ := h.emitsAll hall hn
    have h' := hretains.sameSending hsame
    rw [hmarks h']
    exact ⟨log', by simpa using h', hes⟩
  | @blocked p₁ p' es hall hsame =>
    obtain ⟨log', hretains, hes⟩ := h.emitsAll hall (by omega)
    have h' := hretains.skip.sameSending hsame
    rw [hmarks h']
    exact ⟨log', by simpa [Nat.add_assoc] using h', hes⟩
  | control hnew hsent hsame =>
    have h' := (h.control hn hnew hsent).sameSending hsame
    rw [hmarks h']
    exact ⟨[], by simpa using h', rfl⟩
  | received hcall =>
    have hlen' : queued.length ≤ 65536 := by simpa using hlen
    have hall : Retains queued n log (acked ∪ p'.ackedIds) p' := by
      refine processIncomingPacket_induct
        (I := fun q => Retains queued n log (acked ∪ q.ackedIds) q) ?_ ?_ ?_ ?_ ?_ hcall
      · intro q q' hq hsame
        have hids : q'.ackedIds = q.ackedIds := by
          rw [ackedIds, ackedIds, hsame.sameSending.sentBuffer]
        rw [hids]
        exact hq.sameSending hsame.sameSending
      · intro q b id m hq hb
        have hsame : q.SameSending { q with receivedBuffer := b } :=
          sameSending_of_channels (fun hq => hq.receivedBuffer hb) rfl rfl rfl rfl rfl
        exact hq.sameSending hsame
      · intro q q' packetType ack hq hack
        have h' := hq.ack hlen' (by omega) hack
        rwa [Set.union_assoc, Set.union_eq_right.mpr (ackedIds_processAck hack)] at h'
      · intro q q' m hq hm
        have hsame := sameSending_receiveMessage hq.logged.intact hm
        have hids : q'.ackedIds = q.ackedIds := by rw [ackedIds, ackedIds, hsame.sentBuffer]
        rw [hids]
        exact hq.sameSending hsame
      · rwa [Set.union_eq_left.mpr h.marked]
    exact ⟨[], by simpa using hall, rfl⟩

end Retains

end Endpoint

/-! ### Retention in runs -/

namespace Journal

/-- The invariant of runs. -/
def Retentive (j : Journal) : Prop :=
  ∃ log, Endpoint.Retains j.queued j.packetIds log j.acked j.endpoint ∧
    j.packets = log.map fun x => x.2.bytes

theorem Retentive.step {j j' : Journal} {c : Endpoint.Call} (h : j.Retentive)
    (hpackets : j'.packetIds ≤ 31999) (hmessages : j'.queued.length ≤ 65535)
    (hstep : j.step c = .ok j') :
    j'.Retentive := by
  obtain ⟨log, hretains, hlog⟩ := h
  have hids : j.packetIds ≤ j'.packetIds := by
    obtain ⟨p, -, rfl⟩ := exists_of_map_eq_ok hstep
    exact Nat.le_add_right _ _
  obtain ⟨sends, es, n, hdid, hsends, hcomposed, hnum, hacked⟩ := step_did hretains.logged.intact
    (hretains.logged.failedHeaders_lt (by omega)) hstep
  have hqueued : j'.queued = j.queued ++ sends.flatMap Send.messages := by
    rw [queued, hsends, List.flatMap_append]
    rfl
  obtain ⟨log', hretains', rfl⟩ := hretains.did hdid (by rw [← hqueued]; omega) (by omega)
  refine ⟨log ++ log', ?_, ?_⟩
  · rw [hqueued, hnum, hacked]
    exact hretains'
  · rw [hcomposed, hlog, List.map_append, List.map_map]
    rfl

/-- **Reliable retention.** In every run that uses up fewer than 65536 message ids and fewer than
32000 packet ids: a message that was queued on the reliable channel is in its queue if and only if
no packet that carries it was ever marked as acked. -/
theorem queued_iff_unacked {overflowChecks : Bool} {time : Time} {calls : List Endpoint.Call}
    {j : Journal} (hrun : (start overflowChecks time).run calls = .ok j)
    (hmessages : j.queued.length < 65536) (hpackets : j.packetIds < 32000) {m : Message}
    (hm : m ∈ j.queued) (hchan : m.channel = 1) :
    m ∈ j.endpoint.queuedOn 1 ↔ ∀ bytes ∈ j.packets, ∀ id, j.Carries bytes id m → id ∉ j.acked := by
  have hstart : (start overflowChecks time).Retentive := ⟨[], .new overflowChecks time, rfl⟩
  obtain ⟨log, h, hlog⟩ := run_induct (fun h hp hq hs => Retentive.step h hp hq hs) hstart hrun
    (Nat.le_of_lt_succ hpackets) (Nat.le_of_lt_succ hmessages)
  rw [h.retained m hm hchan, hlog]
  constructor
  · intro hall bytes hbytes id hcarries
    obtain ⟨x, hx, rfl⟩ := List.mem_map.mp hbytes
    obtain ⟨rfl, hmem⟩ := (h.logged.carries_iff hmessages.le hx hm).mp hcarries
    exact hall x hx hmem
  · intro hall x hx hmem
    exact hall x.2.bytes (List.mem_map_of_mem hx) _
      ((h.logged.carries_iff hmessages.le hx hm).mpr ⟨rfl, hmem⟩)

/-- A message is sent, and its packet is acked. -/
def ackedSend : List Endpoint.Call := [
  .setXorSalt (some 7), .sendMessage 1 [3], .visitPacketsToSend,
  .processIncomingPacket ⟨.keepAlive, 1, some ⟨1, 1, [1], 1, 0, 0⟩⟩ []]

theorem queued_iff_unacked_acked : ∃ j m, (start true 0).run ackedSend = .ok j ∧ m ∈ j.queued ∧
    m.channel = 1 ∧ j.endpoint.queuedOn 1 = [] ∧
    (m ∈ j.endpoint.queuedOn 1 ↔ ∀ bytes ∈ j.packets, ∀ id, j.Carries bytes id m →
      id ∉ j.acked) := by
  obtain ⟨j, hrun, htest⟩ :=
    exists_of_any_toOption (show ((start true 0).run ackedSend).toOption.any
    (fun j => decide (j.queued.length < 65536) && decide (j.packetIds < 32000) &&
      j.endpoint.queuedOn 1 == [] && j.queued.any fun m => m.channel == 1) = true by decide +kernel)
  simp only [Bool.and_eq_true, decide_eq_true_eq, beq_iff_eq, List.any_eq_true] at htest
  obtain ⟨⟨⟨hmessages, hpackets⟩, hempty⟩, m, hm, hchan⟩ := htest
  exact ⟨j, m, hrun, hm, hchan, hempty, queued_iff_unacked hrun hmessages hpackets hm hchan⟩

end Journal

end Pickleback
