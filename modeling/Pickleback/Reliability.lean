import Pickleback.ShortSession

/-!
# The reliable channel in a short session

What is sent on the reliable channel is not lost. Until a message has arrived it waits in the queue
of its sender, to be sent again; and a call of `send_message` is reported to the application exactly
when none of its messages waits any more. So there are three things that can be true of a call, in
this order: it waits and has not arrived, it waits and has arrived, it has arrived and was reported.

## Main definitions

* `SequenceBuffer.Unwrapped` — a window whose ids have not come round
* `ChannelList.waiting` — the ids that wait in the queue of the reliable channel
* `MessageDispatcher.Reckons` — a call is reported, or what waits of it is what is remembered of it
* `MessageDispatcher.Owes` — the invariant: nothing is forgotten before it has arrived

## Main results

* `MessageDispatcher.Owes.ackHandle` — the ack of one message
* `Link.owes_step` — one call
* `Link.arrived_or_waiting` — every run: nothing is lost
* `Link.mem_ackInbox_iff` — every run: what is reported does not wait, and the other way round
-/

namespace Pickleback

open Serial AckProtocol

/-! ### Windows that have not come round -/

namespace SequenceBuffer

variable {T : Type} {b b' : SequenceBuffer T} {s t : UInt16} {v w : T}

/-- No id in the window is newer than its front, and the front has not reached the end of the
window. -/
structure Unwrapped (b : SequenceBuffer T) : Prop where
  sequence_lt : b.sequence.toNat < b.len
  le_sequence : ∀ s, b.existsSequence s = true → s.toNat ≤ b.sequence.toNat

theorem Unwrapped.setEntry (h : b.Unwrapped) : (b.setEntry s v).Unwrapped :=
  ⟨h.sequence_lt, h.le_sequence⟩

variable [Inhabited T]

theorem unwrapped_withCapacity {n : ℕ} (hpos : 0 < n) :
    (withCapacity n : SequenceBuffer T).Unwrapped where
  sequence_lt := hpos
  le_sequence := by
    intro s hs
    rw [existsSequence_iff, entrySequences_withCapacity] at hs
    cases hs

/-- Each id has a slot to itself, so nothing but the new one changes. -/
theorem Unwrapped.insert (h : b.Unwrapped) (hlen : b.len ≤ 32768) (ht : t.toNat < b.len)
    (hins : b.insert t v = .ok b') : b'.Unwrapped ∧ ∀ s, s ≠ t → b'.get s = b.get s := by
  have hseq := h.sequence_lt
  have hmoved : b.sequence.toNat ≤ b'.sequence.toNat ∧ t.toNat ≤ b'.sequence.toNat ∧
    b'.sequence.toNat < b.len := by
    rw [sequence_insert hins]
    split
    · next hnew =>
      rw [sequenceGreaterThan_iff] at hnew
      omega
    · next hnew =>
      rw [sequenceGreaterThan_iff] at hnew
      omega
  refine ⟨⟨by rw [len_insert hins]; exact hmoved.2.2, fun s hs => ?_⟩, fun s hne => ?_⟩
  · obtain ⟨w, hget⟩ : ∃ w, b'.get s = some w := ⟨_, get_eq_some_iff.mpr ⟨hs, rfl⟩⟩
    obtain ⟨rfl, -⟩ | hold := get_of_get_insert hins hget
    · exact hmoved.2.1
    · exact (h.le_sequence s (get_eq_some_iff.mp hold).1).trans hmoved.1
  · cases hold : b.get s with
    | none =>
      cases hget : b'.get s with
      | none => rfl
      | some w =>
        obtain ⟨rfl, -⟩ | hsome := get_of_get_insert hins hget
        · exact absurd rfl hne
        · cases hold.symm.trans hsome
    | some w =>
      have hle := h.le_sequence s (get_eq_some_iff.mp hold).1
      have hindex : ∀ x : UInt16, x.toNat < b.len → b.index x = x.toNat := fun x hx => by
        rw [index_eq (by omega), Nat.mod_eq_of_lt hx]
      have hspared : ¬ b.Disturbs t (b.index s) := by
        rw [hindex s (by omega)]
        rintro (hslot | ⟨-, -, x, hx₁, hx₂, hslot⟩)
        · rw [hindex t ht] at hslot
          exact hne (UInt16.toNat_inj.mp hslot.symm)
        · rw [UInt16.le_iff_toNat_le] at hx₁ hx₂
          rw [hindex x (by omega)] at hslot
          rw [UInt16.toNat_add] at hx₁
          simp only [UInt16.reduceToNat] at hx₁
          omega
      obtain ⟨hslot, hentry⟩ := insert_of_not_disturbs hins hspared
      rw [← hold, get, get, index_of_insert hins, hslot, hentry]

end SequenceBuffer

namespace SentFragMap

variable {m m' : SentFragMap} {parentId fragmentId : MessageId} {whole : Bool}

/-- What the ack of a fragment does: nothing, or it takes the fragment off the list, or it was the
last one on it. -/
theorem ackFragmentMessage_eq_ok (h : ackFragmentMessage m parentId fragmentId = .ok (whole, m')) :
    (whole = false ∧ m' = m ∧ ∀ remaining, m.get parentId ≠ some (.partially remaining)) ∨
      ∃ remaining, m.get parentId = some (.partially remaining) ∧
        ((whole = false ∧ (remaining.filter fun id => id != fragmentId) ≠ [] ∧
            m' = m.setEntry parentId (.partially (remaining.filter fun id => id != fragmentId))) ∨
          (whole = true ∧ (remaining.filter fun id => id != fragmentId) = [] ∧
            (m.setEntry parentId (.partially [])).insert parentId .complete = .ok m')) := by
  rw [ackFragmentMessage] at h
  split at h
  · next remaining hget =>
    refine Or.inr ⟨remaining, hget, ?_⟩
    dsimp only at h
    split at h
    · next hempty =>
      rw [List.isEmpty_iff] at hempty
      rw [hempty] at h
      split at h
      · next hm =>
        cases h
        exact Or.inr ⟨rfl, hempty, hm⟩
      · cases h
    · next hleft =>
      cases h
      exact Or.inl ⟨rfl, by simpa using hleft, rfl⟩
  · next hnone =>
    cases h
    exact Or.inl ⟨rfl, rfl, hnone⟩

/-- While no id has come round, only the message that the fragment belongs to is affected. -/
theorem unwrapped_ackFragmentMessage (h : m.Unwrapped) (hlen : m.len ≤ 32768)
    (hack : ackFragmentMessage m parentId fragmentId = .ok (whole, m')) :
    m'.Unwrapped ∧ ∀ id, id ≠ parentId → m'.get id = m.get id := by
  obtain ⟨-, rfl, -⟩ | ⟨remaining, hget, ⟨-, -, rfl⟩ | ⟨-, -, hins⟩⟩ :=
    ackFragmentMessage_eq_ok hack
  · exact ⟨h, fun _ _ => rfl⟩
  · refine ⟨h.setEntry, fun id hne => ?_⟩
    rw [SequenceBuffer.get_setEntry hget, if_neg hne]
  · have hle := h.le_sequence parentId (SequenceBuffer.get_eq_some_iff.mp hget).1
    have hset : (m.setEntry parentId (.partially [])).Unwrapped := h.setEntry
    obtain ⟨hunwrapped, hothers⟩ := hset.insert hlen (hle.trans_lt h.sequence_lt) hins
    refine ⟨hunwrapped, fun id hne => ?_⟩
    rw [hothers id hne, SequenceBuffer.get_setEntry hget, if_neg hne]

end SentFragMap

/-! ### What waits, and what is remembered of it -/

namespace ChannelList

/-- The messages in the queue of the reliable channel. -/
def reliableQueue (cs : ChannelList) : List Message := (cs.get? 1).elim [] Channel.queued

/-- Their ids. -/
def waiting (cs : ChannelList) : Set MessageId := { id | ∃ m ∈ cs.reliableQueue, m.id = id }

theorem reliableQueue_of_hasReliable {cs : ChannelList} {c : ReliableChannel}
    (h : MessageDispatcher.HasReliable cs c) :
    cs.reliableQueue = c.q.map ResendableMessage.message := by
  rw [reliableQueue, h.1]
  rfl

theorem mem_waiting_of_hasReliable {cs : ChannelList} {c : ReliableChannel}
    (h : MessageDispatcher.HasReliable cs c) {id : MessageId} :
    id ∈ cs.waiting ↔ ∃ x ∈ c.q, x.message.id = id := by
  show (∃ m ∈ cs.reliableQueue, m.id = id) ↔ _
  rw [reliableQueue_of_hasReliable h]
  simp

end ChannelList

namespace MessageDispatcher

variable {d d' : MessageDispatcher} {calls : List SendCall} {s s₀ : SendCall}
  {c c₀ : MessageContent}
  {waiting waiting' : Set MessageId}

/-- Where a call on the reliable channel stands: it has been reported and nothing of it waits, or it
has not, and what waits of it is what is remembered of it. -/
inductive Reckons (d : MessageDispatcher) (waiting : Set MessageId) (s : SendCall) : Prop
  | reported (hid : s.firstId ∈ d.ackInbox 1) (hnone : ∀ c ∈ s.contents, c.id ∉ waiting)
  | outstanding (hid : s.firstId ∉ d.ackInbox 1) (hsome : ∃ c ∈ s.contents, c.id ∈ waiting)
    (hmap : 1024 < s.payload.length → ∃ remaining,
      d.sentFragMap.get s.firstId = some (.partially remaining) ∧
      ∀ id, id ∈ remaining ↔ id ∈ waiting ∧ ∃ c ∈ s.contents, c.id = id)

/-- Nothing that concerns the call has changed. -/
theorem Reckons.congr (h : d.Reckons waiting s)
    (hinbox : s.firstId ∈ d'.ackInbox 1 ↔ s.firstId ∈ d.ackInbox 1)
    (hwaiting : ∀ c ∈ s.contents, c.id ∈ waiting' ↔ c.id ∈ waiting)
    (hmap : 1024 < s.payload.length → d'.sentFragMap.get s.firstId = d.sentFragMap.get s.firstId) :
    d'.Reckons waiting' s := by
  cases h with
  | reported hid hnone =>
    exact .reported (hinbox.mpr hid) fun c hc hmem => hnone c hc ((hwaiting c hc).mp hmem)
  | outstanding hid hsome hremembered =>
    refine .outstanding (fun hmem => hid (hinbox.mp hmem)) ?_ fun hlarge => ?_
    · obtain ⟨c, hc, hmem⟩ := hsome
      exact ⟨c, hc, (hwaiting c hc).mpr hmem⟩
    · obtain ⟨remaining, hget, hiff⟩ := hremembered hlarge
      refine ⟨remaining, by rw [hmap hlarge, hget], fun id => (hiff id).trans ?_⟩
      constructor
      · rintro ⟨hmem, c, hc, rfl⟩
        exact ⟨(hwaiting c hc).mpr hmem, c, hc, rfl⟩
      · rintro ⟨hmem, c, hc, rfl⟩
        exact ⟨(hwaiting c hc).mp hmem, c, hc, rfl⟩

/-- Reported is what does not wait. -/
theorem Reckons.reported_iff (h : d.Reckons waiting s) :
    s.firstId ∈ d.ackInbox 1 ↔ ∀ c ∈ s.contents, c.id ∉ waiting := by
  cases h with
  | reported hid hnone => exact iff_of_true hid hnone
  | outstanding hid hsome _ =>
    refine iff_of_false hid fun hnone => ?_
    obtain ⟨c, hc, hmem⟩ := hsome
    exact hnone c hc hmem

theorem mem_ackInbox_pushAck {channel channel' : UInt8} {id id' : MessageId} :
    id' ∈ (d.pushAck channel id).ackInbox channel' ↔ id' ∈ d.ackInbox channel' ∨
      channel' = channel ∧ id' = id := by
  simp only [pushAck, Function.update_apply]
  split
  · next heq => simp [heq]
  · next hne => simp [hne]

/-- The ack of a message that a call has queued, by the size of the call. -/
theorem ackHandle_of_mem (hc : c₀ ∈ s₀.contents) (hcall : d.ackHandle c₀.handle = .ok d') :
    (s₀.payload.length ≤ 1024 ∧ d' = d.pushAck s₀.channel s₀.firstId) ∨
      (1024 < s₀.payload.length ∧ ∃ whole m, d.sentFragMap.ackFragmentMessage s₀.firstId c₀.id =
        .ok (whole, m) ∧
        d' = if whole then { d with sentFragMap := m }.pushAck s₀.channel s₀.firstId
          else { d with sentFragMap := m }) := by
  have hchannel : c₀.handle.channel = s₀.channel := SendCall.channel_of_mem hc
  rw [ackHandle] at hcall
  cases hf : c₀.fragment with
  | none =>
    have hsmall : s₀.payload.length ≤ 1024 := by
      by_contra hlarge
      obtain ⟨i, -, hfragment⟩ := SendCall.exists_fragment (Nat.lt_of_not_le hlarge) hc
      cases hf.symm.trans hfragment
    have hparent : c₀.handle.parentId = none := by
      simp [MessageHandle.parentId, MessageContent.handle, hf]
    have hid : c₀.handle.id = s₀.firstId := by
      have hkey := SendCall.key_of_mem hc
      rwa [MessageContent.key, hf] at hkey
    rw [hparent] at hcall
    cases hcall
    exact Or.inl ⟨hsmall, by rw [hchannel, hid]⟩
  | some f =>
    rw [SendCall.parentId_handle hc hf] at hcall
    dsimp only at hcall
    split at hcall
    · cases hcall
    · next whole m hack =>
      cases hcall
      exact Or.inr ⟨(SendCall.of_fragment hc hf).1, whole, m, hack, by rw [hchannel]⟩

/-- **The ack of one message**: the call it is of has one message less that waits, or is
reported. -/
theorem Reckons.ackHandle (h : d.Reckons waiting s) (hcalls : InSequence calls) (hs : s ∈ calls)
    (hchannel : s.channel = 1) (hs₀ : s₀ ∈ calls) (hc₀ : c₀ ∈ s₀.contents)
    (hmap : d.sentFragMap.Unwrapped)
    (hlen : d.sentFragMap.len ≤ 32768) (hcall : d.ackHandle c₀.handle = .ok d')
    (hwaiting : ∀ id, id ∈ waiting' ↔ id ∈ waiting ∧ ¬ (s₀.channel = 1 ∧ id = c₀.id)) :
    d'.Reckons waiting' s := by
  have hack := ackHandle_of_mem hc₀ hcall
  by_cases hsame : s₀ = s
  · subst hsame
    have hless : ∀ id, id ∈ waiting' ↔ id ∈ waiting ∧ id ≠ c₀.id := fun id => by
      rw [hwaiting, hchannel]; simp
    obtain ⟨hsmall, rfl⟩ | ⟨hlarge, whole, m, hack, rfl⟩ := hack
    · refine .reported (mem_ackInbox_pushAck.mpr (Or.inr ⟨hchannel.symm, rfl⟩)) fun c hc hmem => ?_
      rw [SendCall.contents, if_pos hsmall, List.mem_singleton] at hc hc₀
      exact ((hless _).mp hmem).2 (by rw [hc, hc₀])
    · cases h with
      | reported hid hnone =>
        refine .reported ?_ fun c hc hmem => hnone c hc ((hless _).mp hmem).1
        cases whole with
        | false => exact hid
        | true => exact mem_ackInbox_pushAck.mpr (Or.inl hid)
      | outstanding hid hsome hremembered =>
        obtain ⟨remaining, hget, hiff⟩ := hremembered hlarge
        have hleft : ∀ id, id ∈ (remaining.filter fun id => id != c₀.id) ↔
            id ∈ waiting' ∧ ∃ c ∈ s₀.contents, c.id = id := by
          intro id
          rw [List.mem_filter, hiff, hless, bne_iff_ne]
          tauto
        obtain ⟨-, -, hnone⟩ | ⟨remaining', hget', hack⟩ :=
          SentFragMap.ackFragmentMessage_eq_ok hack
        · exact absurd hget (hnone remaining)
        · obtain rfl : remaining = remaining' := by
            rw [hget, Option.some.injEq, FragAckStatus.partially.injEq] at hget'
            exact hget'
          obtain ⟨rfl, hnonempty, rfl⟩ | ⟨rfl, hempty, -⟩ := hack
          · refine .outstanding hid ?_ fun _ => ⟨_, ?_, hleft⟩
            · obtain ⟨id, hid⟩ := List.exists_mem_of_ne_nil _ hnonempty
              obtain ⟨hmem, c, hc, rfl⟩ := (hleft id).mp hid
              exact ⟨c, hc, hmem⟩
            · exact (SequenceBuffer.get_setEntry hget s₀.firstId).trans (if_pos rfl)
          · refine .reported (mem_ackInbox_pushAck.mpr (Or.inr ⟨hchannel.symm, rfl⟩))
              fun c hc hmem => ?_
            have hin := (hleft c.id).mpr ⟨hmem, c, hc, rfl⟩
            rw [hempty] at hin
            cases hin
  · -- the message is of another call
    have hfirst : s.firstId ≠ s₀.firstId := fun heq => hsame (hcalls.eq_of_firstId hs₀ hs heq.symm)
    refine h.congr ?_ (fun c hc => ?_) fun _ => ?_
    · obtain ⟨-, rfl⟩ | ⟨-, whole, m, -, rfl⟩ := hack
      · simp [mem_ackInbox_pushAck, hfirst]
      · cases whole with
        | false => rfl
        | true => simp [mem_ackInbox_pushAck, hfirst]
    · rw [hwaiting, and_iff_left]
      rintro ⟨-, heq⟩
      obtain rfl := hcalls.eq_of_id hs hs₀ hc hc₀ heq
      exact hsame (hcalls.cut.eq_of_mem hs₀ hs hc₀ hc)
    · obtain ⟨-, rfl⟩ | ⟨-, whole, m, hack, rfl⟩ := hack
      · rfl
      · have hothers := (SentFragMap.unwrapped_ackFragmentMessage hmap hlen hack).2 s.firstId hfirst
        cases whole with
        | false => exact hothers
        | true => exact hothers

/-! ### What is owed -/

/-- What a sender owes its calls on the reliable channel: a message that has not arrived waits, and
a call that has returned an id is reported when nothing of it waits any more. -/
structure Owes (d : MessageDispatcher) (cs : ChannelList) (calls : List SendCall)
    (arrived : Set MessageContent) :
    Prop where
  reliable : ∃ c, HasReliable cs c
  sent : ∀ m ∈ cs.reliableQueue, m.SentBy calls
  unwrapped : d.sentFragMap.Unwrapped
  len : d.sentFragMap.len = 25000
  kept : ∀ s ∈ calls, s.channel = 1 → ∀ c ∈ s.contents, c ∈ arrived ∨ c.id ∈ cs.waiting
  reckons : ∀ s ∈ calls, s.channel = 1 → s.result = .ok s.firstId → d.Reckons cs.waiting s

variable {cs cs' : ChannelList} {arrived arrived' : Set MessageContent}

/-- The queue is as it was, and so is what is remembered of it. -/
theorem Owes.transfer (h : d.Owes cs calls arrived) (hreliable : ∃ c, HasReliable cs' c)
    (hqueue : cs'.reliableQueue = cs.reliableQueue) (hmap : d'.sentFragMap = d.sentFragMap)
    (hinbox : d'.ackInbox = d.ackInbox) (harrived : arrived ⊆ arrived') :
    d'.Owes cs' calls arrived' := by
  have hwaiting : cs'.waiting = cs.waiting := by
    rw [ChannelList.waiting, hqueue, ChannelList.waiting]
  refine ⟨hreliable, by rw [hqueue]; exact h.sent, by rw [hmap]; exact h.unwrapped, by
    rw [hmap]; exact h.len, ?_, ?_⟩
  · intro s hs hchannel c hc
    rw [hwaiting]
    exact (h.kept s hs hchannel c hc).imp_left fun hmem => harrived hmem
  · intro s hs hchannel hresult
    rw [hwaiting]
    exact (h.reckons s hs hchannel hresult).congr (by rw [hinbox]) (fun _ _ => Iff.rfl) fun _ => by
      rw [hmap]

/-- What a handle dismisses from the queue is the message it was made for. -/
theorem dismissedByAck_of_mem (hcalls : InSequence calls) (hs₀ : s₀ ∈ calls)
    (hc₀ : c₀ ∈ s₀.contents)
    {x : ResendableMessage} (hx : x.message.SentBy calls) :
    x.dismissedByAck c₀.handle = .ok (c₀.id == x.message.id) := by
  obtain ⟨s, hs, c, hc, ⟨hid, -, hfragment, -⟩, -⟩ := hx
  rw [ResendableMessage.dismissedByAck]
  by_cases heq : x.message.id = c₀.id
  · rw [if_neg (not_not_intro (show x.message.id = c₀.handle.id from heq)), heq, beq_self_eq_true]
    obtain rfl := hcalls.eq_of_id hs hs₀ hc hc₀ (hid.symm.trans heq)
    rw [hfragment]
    cases hf : c.fragment with
    | none => simp [MessageContent.handle, hf]
    | some f =>
      obtain ⟨-, i, -, rfl, -⟩ := SendCall.of_fragment hc₀ hf
      simp [SendCall.parentId_handle hc₀ hf]
  · rw [if_pos (show x.message.id ≠ c₀.handle.id from heq), beq_eq_false_iff_ne.mpr (Ne.symm heq)]

/-- **The ack of one message** takes it out of the queue, and nothing else. -/
theorem waiting_messageAckReceived (hcalls : InSequence calls)
    (hs₀ : s₀ ∈ calls) (hc₀ : c₀ ∈ s₀.contents)
    (hreliable : ∃ c, HasReliable cs c) (hsent : ∀ m ∈ cs.reliableQueue, m.SentBy calls)
    {ch ch' : Channel}
    {buffers : List PooledBuffer} (hch : cs.get? c₀.handle.channel = some ch)
    (hreceived : ch.messageAckReceived c₀.handle = .ok (buffers, ch')) :
    (∃ c, HasReliable (cs.set c₀.handle.channel ch') c) ∧
      (∀ m ∈ ChannelList.reliableQueue (cs.set c₀.handle.channel ch'), m.SentBy calls) ∧
      ∀ id, id ∈ ChannelList.waiting (cs.set c₀.handle.channel ch') ↔
        id ∈ cs.waiting ∧ ¬ (s₀.channel = 1 ∧ id = c₀.id) := by
  obtain ⟨c, hc⟩ := hreliable
  have hchannel : c₀.handle.channel = s₀.channel := SendCall.channel_of_mem hc₀
  rw [ChannelList.reliableQueue_of_hasReliable hc] at hsent
  obtain ⟨c', hc', hq⟩ := messageAckReceived_filter (f := fun x => c₀.id == x.message.id) hc
    (fun _ x hx => dismissedByAck_of_mem hcalls hs₀ hc₀ (hsent x.message (List.mem_map_of_mem hx)))
      hch hreceived
  refine ⟨⟨c', hc'⟩, fun m hm => ?_, fun id => ?_⟩
  · rw [ChannelList.reliableQueue_of_hasReliable hc', hq] at hm
    obtain ⟨x, hx, rfl⟩ := List.mem_map.mp hm
    exact hsent x.message (List.mem_map_of_mem (List.mem_of_mem_filter hx))
  · rw [ChannelList.mem_waiting_of_hasReliable hc, ChannelList.mem_waiting_of_hasReliable hc',
      hq, hchannel]
    constructor
    · rintro ⟨x, hx, rfl⟩
      obtain ⟨hx, hkept⟩ := List.mem_filter.mp hx
      refine ⟨⟨x, hx, rfl⟩, ?_⟩
      rintro ⟨hone, hid⟩
      simp [hone, hid] at hkept
    · rintro ⟨⟨x, hx, rfl⟩, hnot⟩
      refine ⟨x, List.mem_filter.mpr ⟨hx, ?_⟩, rfl⟩
      rw [Bool.not_eq_true', ← Bool.not_eq_true, Bool.and_eq_true, beq_iff_eq, beq_iff_eq]
      exact fun hboth => hnot ⟨hboth.1, hboth.2.symm⟩

/-- If the message has arrived, all that is owed is still owed. -/
theorem Owes.ackHandle (h : d.Owes cs calls arrived) (hcalls : InSequence calls) (hs₀ : s₀ ∈ calls)
    (hc₀ : c₀ ∈ s₀.contents) (harrived : c₀ ∈ arrived) {ch ch' : Channel}
    {buffers : List PooledBuffer}
    (hch : cs.get? c₀.handle.channel = some ch)
    (hreceived : ch.messageAckReceived c₀.handle = .ok (buffers, ch'))
    (hcall : d.ackHandle c₀.handle = .ok d') :
    d'.Owes (cs.set c₀.handle.channel ch') calls arrived := by
  obtain ⟨hreliable, hsent, hwaiting⟩ :=
    waiting_messageAckReceived hcalls hs₀ hc₀ h.reliable h.sent hch hreceived
  have hlen : d.sentFragMap.len ≤ 32768 := by rw [h.len]; norm_num
  have hmap : d'.sentFragMap.Unwrapped ∧ d'.sentFragMap.len = 25000 := by
    obtain ⟨-, rfl⟩ | ⟨-, whole, m, hack, rfl⟩ := ackHandle_of_mem hc₀ hcall
    · exact ⟨h.unwrapped, h.len⟩
    · have hm := (SentFragMap.unwrapped_ackFragmentMessage h.unwrapped hlen hack).1
      have hmlen := (SentFragMap.len_ackFragmentMessage hack).trans h.len
      cases whole with
      | false => exact ⟨hm, hmlen⟩
      | true => exact ⟨hm, hmlen⟩
  refine ⟨hreliable, hsent, hmap.1, hmap.2, fun s hs hone c hcmem =>
    ?_, fun s hs hone hresult => ?_⟩
  · rcases h.kept s hs hone c hcmem with hmem | hmem
    · exact Or.inl hmem
    · by_cases hid : s₀.channel = 1 ∧ c.id = c₀.id
      · obtain rfl := hcalls.eq_of_id hs hs₀ hcmem hc₀ hid.2
        exact Or.inl harrived
      · exact Or.inr ((hwaiting c.id).mpr ⟨hmem, hid⟩)
  · exact (h.reckons s hs hone hresult).ackHandle hcalls hs hone
      hs₀ hc₀ h.unwrapped hlen hcall hwaiting

/-- **The acks of some messages** that have arrived. -/
theorem Owes.ackHandles (h : d.Owes cs calls arrived) (hcalls : InSequence calls)
    {handles : List MessageHandle}
    (hall : ∀ handle ∈ handles, ∃ s ∈ calls, ∃ c ∈ s.contents, c ∈ arrived ∧ c.handle = handle)
    {buffers : List PooledBuffer} (hcall : d.ackHandles cs handles = .ok (buffers, d', cs')) :
    d'.Owes cs' calls arrived ∧
      ∀ id, id ∈ cs'.waiting ↔ id ∈ cs.waiting ∧ ∀ handle ∈ handles, handle.channel = 1 →
        id ≠ handle.id := by
  induction handles generalizing d cs buffers with
  | nil =>
    cases hcall
    exact ⟨h, fun id => ⟨fun hid => ⟨hid, by simp⟩, And.left⟩⟩
  | cons handle rest ih =>
    obtain ⟨⟨s, hs, c, hc, harrived, rfl⟩, hrest⟩ := List.forall_mem_cons.mp hall
    rw [MessageDispatcher.ackHandles] at hcall
    split at hcall
    · cases hcall
    · next ch hch =>
      split at hcall
      · cases hcall
      · next bufs ch' hreceived =>
        split at hcall
        · cases hcall
        · next d₁ hd₁ =>
          obtain ⟨r, hr, heq⟩ := exists_of_map_eq_ok hcall
          cases heq
          obtain ⟨howes, hwaiting⟩ :=
            ih (h.ackHandle hcalls hs hc harrived hch hreceived hd₁) hrest hr
          have hfirst :=
            (waiting_messageAckReceived hcalls hs hc h.reliable h.sent hch hreceived).2.2
          refine ⟨howes, fun id => ?_⟩
          have hchannel : c.handle.channel = s.channel := SendCall.channel_of_mem hc
          rw [hwaiting, hfirst, List.forall_mem_cons, hchannel, and_assoc, not_and]
          exact Iff.rfl

/-- The ids of a new call are not those of the calls before. -/
theorem id_ne_of_concat (hcalls : InSequence (calls ++ [s])) (hs₀ : s₀ ∈ calls)
    (hc₀ : c₀ ∈ s₀.contents)
    (hc : c ∈ s.contents) : c₀.id ≠ c.id := by
  have hnodup := hcalls.nodup_ids
  rw [List.flatMap_append, List.flatMap_singleton, List.map_append, List.nodup_append] at hnodup
  exact hnodup.2.2 _ (List.mem_map_of_mem (List.mem_flatMap.mpr ⟨s₀, hs₀, hc₀⟩)) _
    (List.mem_map_of_mem hc)

/-- What is queued on the reliable channel after a call of `send_message`. -/
theorem reliableQueue_pushAll {channel : UInt8} {ch : Channel}
    (hch : cs.get? channel = some ch) (ms : List Message) :
    ChannelList.reliableQueue (cs.set channel (ch.pushAll ms)) =
      if channel = 1 then cs.reliableQueue ++ ms else cs.reliableQueue := by
  have hid : (ch.pushAll ms).id = channel := by
    rw [Channel.id_pushAll]
    exact ChannelList.id_of_get? hch
  rw [ChannelList.reliableQueue, ChannelList.reliableQueue]
  split
  · next hone =>
    rw [hone] at hch hid ⊢
    rw [ChannelList.get?_set_self hch hid, hch]
    exact Channel.queued_pushAll ch ms
  · next hne => rw [ChannelList.get?_set_of_ne (Ne.symm hne) hid]

/-- The ids that a call queues are those of its contents. -/
theorem mem_ids_iff {ms : List Message} (hblock : SendBlock s.firstId s.channel s.payload ms)
    (id : MessageId) :
    id ∈ ms.map Message.id ↔ ∃ c ∈ s.contents, c.id = id := by
  constructor
  · intro hmem
    obtain ⟨m, hm, rfl⟩ := List.mem_map.mp hmem
    obtain ⟨c, hc, hwrites⟩ := SendCall.exists_content hblock hm
    exact ⟨c, hc, hwrites.1.symm⟩
  · rintro ⟨c, hc, rfl⟩
    exact SendCall.id_mem_of_sendBlock hblock hc

/-- What waits after a call of `send_message`: what has waited before, and the messages of the
call. -/
theorem mem_waiting_pushAll {ch : Channel} (hch : cs.get? s.channel = some ch) {ms : List Message}
    (hblock : SendBlock s.firstId s.channel s.payload ms) (id : MessageId) :
    id ∈ ChannelList.waiting (cs.set s.channel (ch.pushAll ms)) ↔
      id ∈ cs.waiting ∨ s.channel = 1 ∧ ∃ c ∈ s.contents, c.id = id := by
  show (∃ m ∈ ChannelList.reliableQueue (cs.set s.channel (ch.pushAll ms)), m.id = id) ↔
    (∃ m ∈ cs.reliableQueue, m.id = id) ∨ _
  rw [reliableQueue_pushAll hch, ← mem_ids_iff hblock, List.mem_map]
  split
  · next hone => simp [hone, or_and_right, exists_or]
  · next hne => simp [hne]

/-- Of the calls before, the same waits. -/
theorem waiting_pushAll_of_mem (hcalls : InSequence (calls ++ [s])) {ch : Channel}
    (hch : cs.get? s.channel = some ch) {ms : List Message}
    (hblock : SendBlock s.firstId s.channel s.payload ms) (hs₀ : s₀ ∈ calls)
    (hc₀ : c₀ ∈ s₀.contents) :
    c₀.id ∈ ChannelList.waiting (cs.set s.channel (ch.pushAll ms)) ↔ c₀.id ∈ cs.waiting := by
  rw [mem_waiting_pushAll hch hblock, or_iff_left]
  rintro ⟨-, c, hc, heq⟩
  exact id_ne_of_concat hcalls hs₀ hc₀ hc heq.symm

/-- **A call of `send_message`**: what it queues waits, and is remembered. -/
theorem Owes.queue (h : d.Owes cs calls arrived) (hcalls : InSequence (calls ++ [s]))
    (hfirst : d.nextMessageId = s.firstId) (hfresh : s.firstId ∉ d.ackInbox 1) {ch : Channel}
    (hch : cs.get? s.channel = some ch) {ms : List Message}
    (hblock : SendBlock s.firstId s.channel s.payload ms)
    (hsent : ∀ m ∈ ms, m.SentBy (calls ++ [s])) (hrecords : d.Records s.payload ms s.result d') :
    d'.Owes (cs.set s.channel (ch.pushAll ms)) (calls ++ [s]) arrived := by
  obtain ⟨c₁, hc₁⟩ := h.reliable
  have hqueue := reliableQueue_pushAll hch ms
  have hwaiting := mem_waiting_pushAll hch hblock
  have hbefore : ∀ s₀ ∈ calls, ∀ c ∈ s₀.contents,
      c.id ∈ ChannelList.waiting (cs.set s.channel (ch.pushAll ms)) ↔ c.id ∈ cs.waiting :=
    fun s₀ hs₀ c hc => waiting_pushAll_of_mem hcalls hch hblock hs₀ hc
  have hroom : s.firstId.toNat < d.sentFragMap.len := by
    obtain ⟨c, hc, hcid⟩ := s.exists_first
    have hlt := hcalls.toNat_id_lt (List.mem_append_right _ (List.mem_singleton_self s)) hc
    have hle := hcalls.length_le
    rw [hcid] at hlt
    rw [h.len]
    omega
  have hothers : d'.sentFragMap.Unwrapped ∧ ∀ id, id ≠ s.firstId →
    d'.sentFragMap.get id = d.sentFragMap.get id := by
    generalize s.result = res at hrecords
    cases hrecords with
    | whole _ => exact ⟨h.unwrapped, fun _ _ => rfl⟩
    | fragmented _ hm =>
      rw [hfirst] at hm
      exact h.unwrapped.insert (by rw [h.len]; norm_num) hroom hm
    | tooOld _ _ => exact ⟨h.unwrapped, fun _ _ => rfl⟩
  refine ⟨Endpoint.Retains.hasReliable_pushAll hc₁ hch ms, fun m hm => ?_, hothers.1,
    hrecords.len_sentFragMap.trans h.len, ?_, ?_⟩
  · rw [hqueue] at hm
    split at hm
    · rcases List.mem_append.mp hm with hm | hm
      · exact (h.sent m hm).mono fun _ hs => List.mem_append_left _ hs
      · exact hsent m hm
    · exact (h.sent m hm).mono fun _ hs => List.mem_append_left _ hs
  · intro s' hs' hone c hc
    rcases List.mem_append.mp hs' with hs' | hs'
    · exact (h.kept s' hs' hone c hc).imp_right (hbefore s' hs' c hc).mpr
    · obtain rfl := List.mem_singleton.mp hs'
      exact Or.inr ((hwaiting c.id).mpr (Or.inr ⟨hone, c, hc, rfl⟩))
  · intro s' hs' hone hresult
    rcases List.mem_append.mp hs' with hs' | hs'
    · refine (h.reckons s' hs' hone hresult).congr (by rw [hrecords.ackInbox])
        (hbefore s' hs') fun _ => ?_
      refine hothers.2 s'.firstId fun heq => ?_
      obtain ⟨c, hc, hcid⟩ := s.exists_first
      obtain ⟨c', hc', hcid'⟩ := s'.exists_first
      exact id_ne_of_concat hcalls hs' hc' hc (by rw [hcid, hcid', heq])
    · obtain rfl := List.mem_singleton.mp hs'
      obtain ⟨c, hc, hcid⟩ := s'.exists_first
      refine .outstanding (by rwa [hrecords.ackInbox]) ⟨c, hc, ?_⟩ fun hlarge => ?_
      · exact (hwaiting c.id).mpr (Or.inr ⟨hone, c, hc, rfl⟩)
      · refine ⟨ms.map Message.id, ?_, fun id => ?_⟩
        · rw [hresult] at hrecords
          generalize hres : (Except.ok s'.firstId : Except PicklebackError MessageId) = res
            at hrecords
          cases hrecords with
          | whole hsmall => exact absurd hsmall (Nat.not_le.mpr hlarge)
          | fragmented _ hm =>
            rw [hfirst] at hm
            exact SequenceBuffer.get_insert_self hm
          | tooOld _ _ => cases hres
        · rw [hwaiting, mem_ids_iff hblock]
          exact ⟨fun hmem => ⟨Or.inr ⟨hone, hmem⟩, hmem⟩, And.right⟩

end MessageDispatcher

/-! ### One packet -/

namespace Endpoint

open MessageDispatcher

variable {p p' : Endpoint} {o : MessageDispatcher} {calls : List SendCall}
  {arrived : Set MessageContent}

/-- What waits has waited before, and the messages of a packet that has been acked since do not
wait. -/
structure Settles (p p' : Endpoint) : Prop where
  waiting : p'.channels.waiting ⊆ p.channels.waiting
  acked : ∀ id, p.Unacked id → p'.Unacked id ∨
    ∀ handle ∈ p.dispatcher.handlesOf id, handle.channel = 1 → handle.id ∉ p'.channels.waiting

/-- **A first ack** of a packet whose messages have arrived. -/
theorem owes_processAck (hcalls : InSequence calls) {q q' : Endpoint}
    (haccounts : Accounts p.dispatcher.handlesOf q) (h : q.dispatcher.Owes q.channels calls arrived)
    (hsettles : p.Settles q) {packetType : PacketType} {ack : UInt16 × Bool}
    (hhandles : q.Unacked ack.1 → ack.2 = true → ∀ handle ∈ q.dispatcher.handlesOf ack.1,
      ∃ s ∈ calls, ∃ c ∈ s.contents, c ∈ arrived ∧ c.handle = handle)
    (hcall : q.processAck packetType ack = .ok q') :
    q'.dispatcher.Owes q'.channels calls arrived ∧ p.Settles q' := by
  by_cases hbit : ack.2 = true
  · obtain rfl | ⟨sentMeta, _, d, channels, hget, hnew, hd, hq'⟩ := processAck_cases hcall
    · exact ⟨h, hsettles⟩
    · rw [ackedPacket_eq] at hd
      have hremoved : Owes { q.dispatcher with
          messagesInPackets := (q.dispatcher.messagesInPackets.remove ack.1).2 }
            q.channels calls arrived :=
        h.transfer h.reliable rfl rfl rfl subset_rfl
      obtain ⟨howes, hwaiting⟩ :=
        hremoved.ackHandles hcalls (hhandles ⟨sentMeta, hget, hnew⟩ hbit) hd
      rw [hq']
      refine ⟨howes, fun id hid => hsettles.waiting ((hwaiting id).mp hid).1, fun id hid => ?_⟩
      rcases hsettles.acked id hid with hopen | hnone
      · by_cases heq : id = ack.1
        · -- the messages of this packet are out of the queue
          subst heq
          refine Or.inr fun handle hmem hone hid' => ?_
          rw [← haccounts.handles hget hnew] at hmem
          exact ((hwaiting handle.id).mp hid').2 handle hmem hone rfl
        · obtain ⟨sentMeta', hget', hnew'⟩ := hopen
          refine Or.inl ⟨sentMeta', ?_, hnew'⟩
          show (q.sentBuffer.setEntry ack.1 _).get id = _
          rw [SequenceBuffer.get_setEntry hget, if_neg heq]
          exact hget'
      · exact Or.inr fun handle hmem hone hid' =>
          hnone handle hmem hone ((hwaiting handle.id).mp hid').1
  · rw [Endpoint.processAck, if_pos (by simpa using hbit)] at hcall
    cases hcall
    exact ⟨h, hsettles⟩

/-- **A packet that comes in**, and acks only what has arrived. -/
theorem owes_processIncomingPacket (hintact : p.Intact) (hattests : o.Attests calls)
    (htracks : o.Tracks calls p.dispatcher.sentFragMap) (hcalls : InSequence calls)
    (harrived : ∀ c, o.HasNewest calls c → c ∈ arrived)
    (h : p.dispatcher.Owes p.channels calls arrived)
    {header : ProtocolPacketHeader} {payload : List UInt8}
    (hacks : p.accepts header = true → p.AcksReceived o calls (header.acks.getD []))
    {r : Except PicklebackError Unit}
    (hcall : p.processIncomingPacket header payload = .ok (p', r)) :
    p'.dispatcher.Owes p'.channels calls arrived ∧ p.Settles p' := by
  have hself : p.Settles p := ⟨subset_rfl, fun _ hid => Or.inl hid⟩
  by_cases haccepts : p.accepts header = true
  · have hreceived := hacks haccepts
    rw [accepts, Bool.and_eq_true, Bool.not_eq_true'] at haccepts
    obtain ⟨q, ⟨haccounts, -, -, hq, hsettles⟩, ⟨-, hmessages⟩ | ⟨-, rfl⟩⟩ :=
      processIncomingPacket_of_accepted
      (I := fun q => Accounts p.dispatcher.handlesOf q ∧
        q.AcksReceived o calls (header.acks.getD []) ∧
        o.Tracks calls q.dispatcher.sentFragMap ∧ q.dispatcher.Owes q.channels calls arrived ∧
          p.Settles q)
      (fun hq hsame => by
        rw [hsame]
        exact ⟨⟨hq.1.intact.sameCore rfl, hq.1.handles⟩, hq.2.1,
          hq.2.2.1, hq.2.2.2.1, hq.2.2.2.2.1, hq.2.2.2.2.2⟩)
      (fun hq hb => ⟨⟨hq.1.intact.receivedBuffer hb, hq.1.handles⟩,
        hq.2.1, hq.2.2.1, hq.2.2.2.1, hq.2.2.2.2.1, hq.2.2.2.2.2⟩)
      (fun {q q' packetType ack} hq hack hcall => by
        obtain ⟨hreceived', htracks', -⟩ := hq.2.1.processAck hattests hq.2.2.1 hack hcall
        refine ⟨hq.1.processAck hcall, hreceived', htracks',
          owes_processAck hcalls hq.1 hq.2.2.2.1 hq.2.2.2.2 (fun hnew hbit handle hmem => ?_) hcall⟩
        obtain ⟨c, hnewest, rfl⟩ := hq.2.1 ack.1 (by rw [← hbit]; exact hack) hnew handle hmem
        have hmem := harrived c hnewest
        obtain ⟨s, hs, hc, -⟩ := hnewest
        exact ⟨s, mem_of_newestCall hs, c, hc, hmem, rfl⟩)
      ⟨⟨hintact, fun _ _ => rfl⟩, hreceived, htracks, h, hself⟩ haccepts.1 haccepts.2 hcall
    · exact (processMessages_induct
        (I := fun q => q.Intact ∧ q.dispatcher.Owes q.channels calls arrived ∧ p.Settles q)
        (fun hq hsame => by
          rw [hsame]
          exact ⟨hq.1.sameCore rfl, hq.2.1, hq.2.2.1, hq.2.2.2⟩)
        (fun {q q' m} hq hreceive => by
          obtain ⟨hmap, hinbox⟩ := sameAcks_receiveMessage hreceive
          have hsending := sameSending_receiveMessage hq.1 hreceive
          obtain ⟨hreliable, hqueue⟩ :=
            Retains.queuedOn_of_sameQueue hsending.channels hq.2.1.reliable
          have hwaiting : q'.channels.waiting = q.channels.waiting := by
            rw [ChannelList.waiting, ChannelList.waiting, ChannelList.reliableQueue,
              ChannelList.reliableQueue]
            exact congrArg (fun ms : List Message => { id | ∃ m ∈ ms, m.id = id }) hqueue
          refine ⟨hq.1.receiveMessage hreceive,
            hq.2.1.transfer hreliable hqueue hmap hinbox subset_rfl,
            by rw [hwaiting]; exact hq.2.2.waiting, fun id hid => ?_⟩
          rw [hwaiting]
          refine (hq.2.2.acked id hid).imp_left fun hopen => ?_
          rw [Unacked, hsending.sentBuffer]
          exact hopen)
        ⟨haccounts.intact, hq, hsettles⟩ hmessages).2
    · exact ⟨hq, hsettles⟩
  · have hsame := sameCore_of_refused (by simpa [accepts] using haccepts) hcall
    rw [hsame]
    exact ⟨h, hself.waiting, hself.acked⟩

/-- What a receiver has is what has arrived. -/
theorem Collects.mem_got_of_hasNewest {r : Assembly.Receiver SendCall MessageContent}
    (h : p.Collects calls r)
    (hcalls : InSequence calls) {c : MessageContent} (hhas : p.dispatcher.HasNewest calls c) :
    c ∈ r.got := by
  obtain ⟨s, hs, hc, ⟨msg, hmsg, his⟩ | hheld⟩ := hhas
  · obtain ⟨s', hs', -, hwhole, his'⟩ := h.exists_is hmsg
    obtain rfl := Collects.eq_of_is hcalls (mem_of_newestCall hs) hs' his his'
    exact hwhole c hc
  · exact ((h.mem_held_iff hcalls (mem_of_newestCall hs)).mp hheld).2.1

/-- Sending packets leaves the queue of the reliable channel as it was. -/
theorem reliableQueue_visitPacketsToSend (h : p.Intact) (hreliable : ∃ c, HasReliable p.channels c)
    {packets : List (List UInt8)} (hcall : p.visitPacketsToSend = .ok (p', packets)) :
    (∃ c, HasReliable p'.channels c) ∧ p'.channels.reliableQueue = p.channels.reliableQueue := by
  obtain ⟨es, p₁, p₂, r, hall, -, hstop, hp, -⟩ := visitPacketsToSend_cases h hcall
  have hchannels : p'.channels = p₁.channels := by
    rw [hp]
    exact hstop.channels
  rw [hchannels]
  exact Retains.queuedOn_of_wrote (hall.wrote h.channels) hreliable

end Endpoint

/-! ### Runs -/

namespace Link

open MessageDispatcher

variable {l l' : Link} {e : Side}

/-- What side `e` owes its calls. -/
def Owes (l : Link) (e : Side) : Prop :=
  (l.endpoint e).dispatcher.Owes (l.endpoint e).channels (l.queuedBy e) (l.Arrived e)

theorem owes_start (overflowChecks : Side → Bool) (time : Side → Time)
    (salt : Side → UInt64) (e : Side) :
    (start overflowChecks time salt).Owes e where
  reliable := ⟨ReliableChannel.new 1 (time e), rfl, rfl⟩
  sent := by
    intro m hm
    cases hm
  unwrapped := SequenceBuffer.unwrapped_withCapacity (by decide)
  len := rfl
  kept := by simp [start, queuedBy]
  reckons := by simp [start, queuedBy]

/-- The call leaves the queue of side `e` alone, and what it remembers of it. -/
theorem Owes.of_endpoint (h : l.Owes e) (hqueued : l'.queuedBy e = l.queuedBy e)
    (harrived : l.Arrived e ⊆ l'.Arrived e)
    (hreliable : ∃ c, HasReliable (l'.endpoint e).channels c)
    (hqueue : (l'.endpoint e).channels.reliableQueue = (l.endpoint e).channels.reliableQueue)
    (hmap : (l'.endpoint e).dispatcher.sentFragMap = (l.endpoint e).dispatcher.sentFragMap)
    (hinbox : (l'.endpoint e).dispatcher.ackInbox = (l.endpoint e).dispatcher.ackInbox) :
    l'.Owes e := by
  rw [Owes, hqueued]
  exact h.transfer hreliable hqueue hmap hinbox harrived

/-- **A delivery**, for the side that gets the packet. -/
theorem owes_deliver (hl : Reachable PermitsFew l) {f : Flight} (h : l.Owes f.source.other)
    (hc : l.PermitsFew (.deliver f)) (hstep : l.step (.deliver f) = .ok l')
    {packet : ProtocolPacket}
    {payload : List UInt8} {p : Endpoint} {res : Except PicklebackError Unit}
    (hdelivers : l.Delivers f packet payload p res l') :
    l'.Owes f.source.other ∧ (l.endpoint f.source.other).Settles p := by
  obtain ⟨htaken, hshort⟩ := hl.short
  obtain ⟨hfaithful, hattested⟩ := htaken.attested
  have hpermits : ∀ l c, PermitsTaken l c → Permits l c := fun _ _ hc => hc.permits
  have hown : l'.endpoint f.source.other = p := by rw [hdelivers.endpoint, Function.update_self]
  obtain ⟨r, hr, hcollects⟩ := (hshort f.source.other).collects
  have htakes := hc.taken hfaithful hshort
  have hacks := (hattested f.source.other).acksReceived (htaken.mono hpermits)
    ((htaken.step htakes hstep).mono hpermits) (Side.other_other f.source).symm hdelivers
  rw [Owes, hown, hdelivers.queuedBy, hdelivers.arrived_target]
  refine Endpoint.owes_processIncomingPacket (hfaithful _).1.intact
    ⟨(hfaithful _).2.placed, (hfaithful _).1.regular,
    (hattested _).whole⟩ (hattested _).tracks (hshort _).calls
      (fun c hhas => ?_) h hacks hdelivers.call
  rw [← hr]
  exact hcollects.mem_got_of_hasNewest (hshort _).calls hhas

/-- **One call.** -/
theorem owes_step (hl : Reachable PermitsFew l) (h : ∀ e, l.Owes e) {c : Call} (hc : l.PermitsFew c)
    (hstep : l.step c = .ok l') (e : Side) : l'.Owes e := by
  obtain ⟨htaken, hshort⟩ := hl.short
  have hfaithful := htaken.attested.1
  have hshort' := (hl.step hc hstep).short.2
  have harrived : ∀ e, l.Arrived e ⊆ l'.Arrived e := (grows_step hstep).arrived
  have hintact : ∀ e, (l.endpoint e).Intact := fun e => (hfaithful e).1.intact
  -- an endpoint that is not called
  have hother : ∀ {e}, l'.endpoint e = l.endpoint e → l'.queuedBy e = l.queuedBy e → l'.Owes e := by
    intro e hendpoint hqueued
    refine (h e).of_endpoint hqueued (harrived e) ?_ ?_ ?_ ?_
    · rw [hendpoint]
      exact (h e).reliable
    all_goals rw [hendpoint]
  cases c with
  | sendMessage e₀ channel payload =>
    simp only [step] at hstep
    split at hstep
    · cases hstep
    · next p res hcall =>
      cases hstep
      rcases e₀.eq_or_eq_other e with rfl | rfl
      · set s : SendCall := ⟨channel, payload, (l.endpoint e).dispatcher.nextMessageId, res⟩ with hs
        set l' : Link :=
          { l.setEndpoint e p with sends := Function.update l.sends e (l.sends e ++ [s]) } with hl'
        have hown : l'.endpoint e = p := by simp [hl', setEndpoint]
        have hqueued : l'.queuedBy e = l.queuedBy e ++ [s].filter SendCall.enqueues := by
          rw [queuedBy, hl', queuedBy]
          dsimp only
          rw [Function.update_self, List.filter_append]
        obtain ⟨-, hfails, hp⟩ | ⟨htakes, henqueues, hlen, ch, ms, hch, hblock, hrecords, hp⟩ :=
          Endpoint.sendMessage_takes_cases (hintact e) hcall (l.endpoint e).dispatcher.nextMessageId
        · rw [List.filter_cons_of_neg (by simp [hs, hfails]), List.filter_nil, List.append_nil]
            at hqueued
          refine (h e).of_endpoint hqueued (harrived e) ?_ ?_ ?_ ?_
          · rw [hown, hp]
            exact (h e).reliable
          all_goals rw [hown, hp]
        · rw [List.filter_cons_of_pos henqueues, List.filter_nil] at hqueued
          have hcalls : InSequence (l.queuedBy e ++ [s]) := hqueued ▸ (hshort' e).calls
          have hmem : s ∈ l.queuedBy e ++ [s] := List.mem_append_right _ (List.mem_singleton_self s)
          have hchannels : p.channels = (l.endpoint e).channels.set s.channel (ch.pushAll ms) := by
            rw [hp]
          rw [Owes, hown, hqueued, hchannels]
          refine Owes.queue (h e) hcalls rfl (fun hid => ?_) hch hblock ?_ hrecords
          · -- what has been reported has an id from before
            obtain ⟨s', hs', hresult, -⟩ := hl.reported e 1 _ hid
            have hfirst := ((hshort e).calls.regular s' hs').result _ hresult
            obtain ⟨c, hc, hcid⟩ := s.exists_first
            obtain ⟨c', hc', hcid'⟩ := s'.exists_first
            exact id_ne_of_concat hcalls hs' hc' hc (by rw [hcid, hcid', hfirst])
          · intro m hm
            have hlt : s.channel.toNat < maxChannels := by
              rw [maxChannels]
              rcases hcalls.channel s hmem with hzero | hone
              · simp [hzero]
              · simp [hone]
            exact Message.sentBy_of_sendBlock hmem hlen (hc htakes).1 hlt hblock hm
      · exact hother (by simp [setEndpoint]) (by simp [queuedBy])
  | update e₀ dt =>
    cases hstep
    rcases e₀.eq_or_eq_other e with rfl | rfl
    · obtain ⟨hreliable, hqueue⟩ := Endpoint.Retains.queuedOn_of_sameQueue
        (Endpoint.sameQueue_update (l.endpoint e) dt) (h e).reliable
      have hown : (l.setEndpoint e ((l.endpoint e).update dt)).endpoint e =
        (l.endpoint e).update dt := by
        simp [setEndpoint]
      refine (h e).of_endpoint rfl (harrived e) ?_ ?_ ?_ ?_
      all_goals rw [hown]
      · exact hreliable
      · exact hqueue
      · rfl
      · rfl
    · exact hother (by simp [setEndpoint]) rfl
  | visitPacketsToSend e₀ =>
    simp only [step] at hstep
    split at hstep
    · cases hstep
    · next p packets hcall =>
      cases hstep
      rcases e₀.eq_or_eq_other e with rfl | rfl
      · obtain ⟨hreliable, hqueue⟩ :=
          Endpoint.reliableQueue_visitPacketsToSend (hintact e) (h e).reliable hcall
        have hown : ((l.setEndpoint e p).launch e packets).endpoint e = p := by
          simp [launch, setEndpoint]
        refine (h e).of_endpoint rfl (harrived e) ?_ ?_ ?_ ?_
        all_goals rw [hown]
        · exact hreliable
        · exact hqueue
        · exact (Endpoint.sameIds_visitPacketsToSend (hintact e) hcall).2
        · exact ((hintact e).sameIntake_visitPacketsToSend hcall).ackInbox
      · exact hother (by simp [launch, setEndpoint]) rfl
  | deliver f =>
    obtain rfl | ⟨packet, payload, p, res, hdelivers⟩ := exists_delivers hstep
    · exact h e
    · rcases f.source.eq_or_eq_other e with rfl | rfl
      · refine hother ?_ (hdelivers.queuedBy _)
        rw [hdelivers.endpoint, Function.update_of_ne (Ne.symm f.source.other_ne)]
      · exact (owes_deliver hl (h _) hc hstep hdelivers).1
  | sendKeepAlive e₀ clientIndex => exact hc.elim

theorem Reachable.owes (h : Reachable PermitsFew l) (e : Side) : l.Owes e := by
  refine h.invariant (I := fun l => ∀ e, l.Owes e) (fun overflowChecks time salt =>
    owes_start overflowChecks time salt) ?_ e
  intro l l' c hl h hc hstep
  exact owes_step hl h hc hstep

/-- **Nothing is lost** on the reliable channel, in every short session: each message of a call has
arrived, or it waits in the queue of its sender. -/
theorem arrived_or_waiting (h : Reachable PermitsFew l) {s : SendCall} (hs : s ∈ l.queuedBy e)
    (hchannel : s.channel = 1) {c : MessageContent} (hc : c ∈ s.contents) :
    c ∈ l.Arrived e ∨ ∃ m ∈ (l.endpoint e).queuedOn 1, m.id = c.id :=
  (h.owes e).kept s hs hchannel c hc

/-- Of two fragments the second arrives, and both wait. -/
theorem arrived_or_waiting_half : ∃ l, Reachable PermitsFew l ∧
    ∃ s ∈ l.queuedBy .left, s.channel = 1 ∧
    s.payload.length = 2048 ∧ ((l.endpoint .left).queuedOn 1).map Message.id = [0, 1] ∧
    ∀ c ∈ s.contents, c ∈ l.Arrived .left ∨ ∃ m ∈ (l.endpoint .left).queuedOn 1, m.id = c.id := by
  have hrun : ((start (fun _ => true) (fun _ => 1) fun _ => 7).run PermitsFew [
      fun _ => .sendMessage .left 1 (List.replicate 2048 1), fun _ => .visitPacketsToSend .left,
      deliverAt 1]).map (fun l =>
        decide (((l.endpoint .left).queuedOn 1).map Message.id = [0, 1]) &&
          (l.queuedBy .left).any fun s => decide (s.channel = 1 ∧ s.payload.length = 2048)) =
            some true := by
    decide +kernel
  obtain ⟨l, hl, htest⟩ := Option.map_eq_some_iff.mp hrun
  rw [Bool.and_eq_true, decide_eq_true_eq, List.any_eq_true] at htest
  obtain ⟨hqueue, s, hs, hcall⟩ := htest
  obtain ⟨hchannel, hlen⟩ := of_decide_eq_true hcall
  have hreach : Reachable PermitsFew l := reachable_of_run (.start _ _ _) hl
  exact ⟨l, hreach, s, hs, hchannel, hlen, hqueue, fun c hc =>
    arrived_or_waiting hreach hs hchannel hc⟩

/-- **Reported is what does not wait**, in every short session: the id that a call on the reliable
channel has returned is in the ack inbox if and only if none of its messages waits in the queue. -/
theorem mem_ackInbox_iff (h : Reachable PermitsFew l) {s : SendCall} (hs : s ∈ l.queuedBy e)
    (hchannel : s.channel = 1) {id : MessageId} (hresult : s.result = .ok id) :
    id ∈ (l.endpoint e).dispatcher.ackInbox 1 ↔
      ∀ c ∈ s.contents, ∀ m ∈ (l.endpoint e).queuedOn 1, m.id ≠ c.id := by
  obtain rfl := ((h.short.2 e).calls.regular s hs).result _ hresult
  rw [((h.owes e).reckons s hs hchannel hresult).reported_iff]
  constructor
  · exact fun hnone c hc m hm heq => hnone c hc ⟨m, hm, heq⟩
  · rintro hnone c hc ⟨m, hm, heq⟩
    exact hnone c hc m hm heq

end Link

end Pickleback
