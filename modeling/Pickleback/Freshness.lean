import Pickleback.Outbound
import Pickleback.SeenWindow

/-!
# Fresh messages in order

Message ids come from one counter, but each channel keeps its own window of seen ids, which moves
only with the channel's own messages. A message is refused when the other channel has used up so
many ids that the circular comparison takes it for an old one.

Within the bound it is accepted, although the window of 10000 slots does not divide the id space and
a jump across the wrap empties no slot. What a slot can hold is `Settled`: an entry was written in
the present turn of the ids and nothing has passed over its slot since, or it was carried over the
last wrap by one jump. Either way it is too young to be mistaken for the next id.

## Main results

* `settled_insert` — the invariant of a window that only moves forward
* `existsSequence_of_settled` — a new id is not found in a settled window
* `allAccepted_iff_gapsOk` — which numberings are accepted
-/

namespace Pickleback

open Serial SequenceBuffer

/-! ### Windows that only move forward -/

namespace SequenceBuffer

variable {T : Type}

/-- The entry read as `e` in slot `i` is recent: no id between `r` and the front `P` lives in its
slot, where `r` is `e` itself or the first id of this turn, reached by one jump from within the
window. -/
def Recent (P e : ℤ) (i : ℕ) : Prop :=
  ∃ r, e ≤ r ∧ r ≤ P ∧ r / 65536 = P / 65536 ∧
    (∀ x, r < x → x ≤ P → x % 65536 % 10000 ≠ i) ∧
    (r = e ∨ (r % 65536 < 22768 ∧ r < e + 32768))

/-- A window of 10000 slots all of whose entries are recent. -/
structure Settled (b : SequenceBuffer T) (P : ℤ) : Prop where
  len : b.len = 10000
  front : Lifts b.sequence P
  recent : ∀ i s, b.entrySequences i = some s →
    ∃ e, Lifts s e ∧ e % 65536 % 10000 = i ∧ Recent P e i

theorem index_wrap_of_len {b : SequenceBuffer T} (hlen : b.len = 10000) (x : ℤ) :
    (b.index (wrap x) : ℤ) = x % 65536 % 10000 := by
  rw [index_eq (by omega), hlen]
  push_cast
  rw [toNat_wrap]

theorem settled_withCapacity [Inhabited T] : (withCapacity 10000 : SequenceBuffer T).Settled 0 where
  len := rfl
  front := rfl
  recent := by simp

/-- Every residue occurs among 10000 consecutive ids of one turn. -/
theorem exists_residue {r P : ℤ} {i : ℕ} (hi : i < 10000) (hturn : r / 65536 = P / 65536)
    (h : r + 10000 ≤ P) : ∃ x, r < x ∧ x ≤ P ∧ x % 65536 % 10000 = i := by
  obtain ⟨k, hk₁, hk₂, hk⟩ := exists_mod_eq (n := 10000) (by omega) (r % 65536 + 1).toNat i hi
  refine ⟨r - r % 65536 + k, ?_, ?_, ?_⟩ <;> omega

theorem Recent.age {P e : ℤ} {i : ℕ} (hslot : e % 65536 % 10000 = i) (h : Recent P e i) :
    P < e + 42768 := by
  obtain ⟨r, -, hrP, hturn, hclean, hr⟩ := h
  by_contra hold
  by_cases hfar : r + 10000 ≤ P
  · obtain ⟨x, hx₁, hx₂, hx⟩ := exists_residue (i := i) (by omega) hturn hfar
    exact hclean x hx₁ hx₂ hx
  · omega

/-- An id ahead of a settled window is not found in it: an entry that would be mistaken for it is a
whole turn older. -/
theorem existsSequence_of_settled {b : SequenceBuffer T} {P Q : ℤ} (h : b.Settled P) (hlt : P < Q)
    (hle : Q ≤ P + 22768) : b.existsSequence (wrap Q) = false := by
  rw [← Bool.not_eq_true, existsSequence_iff]
  intro hfound
  obtain ⟨e, he, hslot, hrec⟩ := h.recent _ _ hfound
  have hage := hrec.age hslot
  have heP : e ≤ P := by
    obtain ⟨r, h₁, h₂, -⟩ := hrec
    omega
  have hQ := lifts_wrap Q
  simp only [Lifts] at he hQ
  omega

theorem recent_of_jump {P Q e : ℤ} {i : ℕ} (hrec : Recent P e i) (hslot : e % 65536 % 10000 = i)
    (hle : P ≤ Q) (hjump : Q ≤ P + 22768)
    (hpass : P / 65536 = Q / 65536 → ∀ x, P < x → x ≤ Q → x % 65536 % 10000 ≠ i) :
    Recent Q e i := by
  obtain ⟨r, her, hrP, hturn, hclean, hr⟩ := hrec
  have hnear : P < r + 10000 := by
    by_contra hfar
    obtain ⟨x, hx₁, hx₂, hx⟩ := exists_residue (i := i) (by omega) hturn (not_lt.mp hfar)
    exact hclean x hx₁ hx₂ hx
  by_cases hsame : P / 65536 = Q / 65536
  · refine ⟨r, her, by omega, by omega, fun x hx₁ hx₂ => ?_, hr⟩
    by_cases hxP : x ≤ P
    · exact hclean x hx₁ hxP
    · exact hpass hsame x (by omega) hx₂
  · -- the jump crosses the wrap, so the turn starts anew at `Q`
    refine ⟨Q, by omega, le_refl Q, rfl, fun x hx₁ hx₂ => absurd hx₁ (by omega), Or.inr ?_⟩
    omega

variable [Inhabited T]

/-- **One step.** Inserting the next id, at most 22768 ahead of the front, keeps a window
settled. -/
theorem settled_insert {b b' : SequenceBuffer T} {P Q : ℤ} {v : T} (h : b.Settled P) (hle : P ≤ Q)
    (hjump : Q ≤ P + 22768) (hins : b.insert (wrap Q) v = .ok b') : b'.Settled Q where
  len := (len_insert hins).trans h.len
  front := by
    have := lifts_sequence_insert h.front (lifts_wrap Q) (by omega) (by omega) hins
    rwa [max_eq_right hle] at this
  recent := by
    intro i s hs
    by_cases hdist : b.Disturbs (wrap Q) i
    · rcases entrySequences_insert_of_disturbs hins hdist with ⟨hi, hw⟩ | hw
      · rw [hw, Option.some.injEq] at hs
        refine ⟨Q, hs ▸ lifts_wrap Q, ?_, Q, le_refl Q, le_refl Q,
          rfl, fun x h₁ h₂ => ?_, Or.inl rfl⟩
        · rw [← hi, index_wrap_of_len h.len]
        · omega
      · rw [hw] at hs
        cases hs
    · rw [(insert_of_not_disturbs hins hdist).1] at hs
      obtain ⟨e, he, hslot, hrec⟩ := h.recent i s hs
      refine ⟨e, he, hslot, recent_of_jump hrec hslot hle hjump fun hsame x h₁ h₂ => ?_⟩
      have hpass := index_ne_of_not_disturbs h.front (by omega) (by omega) hsame hdist h₁ h₂
      rwa [← index_wrap_of_len h.len, Ne, Nat.cast_inj]

end SequenceBuffer

/-! ### Sending -/

namespace Endpoint

/-- The messages a channel of the endpoint holds for sending. -/
def queuedOn (p : Endpoint) (channel : UInt8) : List Message :=
  (p.channels.get? channel).elim [] Channel.queued

/-- Successive sends, with the messages they queue in the order their ids were allocated. -/
def sendAll (p : Endpoint) : List (UInt8 × List UInt8) → Except Panic (Endpoint × List Message)
  | [] => .ok (p, [])
  | (channel, payload) :: rest =>
    match p.sendMessage channel payload with
    | .error q => .error q
    | .ok (p', _) =>
      (p'.sendAll rest).map fun r =>
        (r.1, (p'.queuedOn channel).drop (p.queuedOn channel).length ++ r.2)

end Endpoint

/-- The messages carry the ids from `k` on, one after the other. -/
def Numbered : ℕ → List Message → Prop
  | _, [] => True
  | k, m :: ms => m.id = UInt16.ofNat k ∧ Numbered (k + 1) ms

theorem numbered_append {k : ℕ} {ms ms' : List Message} :
    Numbered k (ms ++ ms') ↔ Numbered k ms ∧ Numbered (k + ms.length) ms' := by
  induction ms generalizing k with
  | nil => simp [Numbered]
  | cons m ms ih =>
    simp only [List.cons_append, Numbered, ih, List.length_cons, and_assoc, and_congr_right_iff]
    intro _ _
    rw [show k + 1 + ms.length = k + (ms.length + 1) by omega]

theorem numbered_of_sendBlock {k : ℕ} {channel : UInt8} {payload : List UInt8} {ms : List Message}
    (h : SendBlock (UInt16.ofNat k) channel payload ms) : Numbered k ms := by
  suffices hgen : ∀ (ms : List Message) (k : ℕ),
      (∀ i m, ms[i]? = some m → m.id = UInt16.ofNat (k + i)) → Numbered k ms by
    refine hgen ms k fun i m hm => ?_
    rw [(h.getElem? hm).1, UInt16.ofNat_add]
  intro ms
  induction ms with
  | nil => exact fun _ _ => trivial
  | cons m ms ih =>
    intro k hk
    refine ⟨by simpa using hk 0 m rfl, ih (k + 1) fun i m' hm' => ?_⟩
    rw [show k + 1 + i = k + (i + 1) by omega]
    exact hk (i + 1) m' (by simpa using hm')

namespace Endpoint

/-- **The shared counter.** Whatever the channels and payloads, the messages of a run of sends carry
consecutive ids and belong to the two channels. -/
theorem sendAll_eq_ok {sends : List (UInt8 × List UInt8)} {p p' : Endpoint} {msgs : List Message}
    {k : ℕ} (hconfig : p.config.maxMessageSize ≤ 1024 * 1024)
    (hchan : ∀ c, (p.channels.get? c).isSome → c = 0 ∨ c = 1)
    (hnext : p.dispatcher.nextMessageId = UInt16.ofNat k)
    (h : p.sendAll sends = .ok (p', msgs)) :
    Numbered k msgs ∧ ∀ m ∈ msgs, m.channel = 0 ∨ m.channel = 1 := by
  induction sends generalizing p k msgs with
  | nil =>
    cases h
    exact ⟨trivial, by simp⟩
  | cons send rest ih =>
    obtain ⟨channel, payload⟩ := send
    simp only [sendAll] at h
    split at h
    · cases h
    · next q res hq =>
      cases hrest : q.sendAll rest with
      | error e => rw [hrest] at h; cases h
      | ok r =>
        rw [hrest] at h
        cases h
        obtain ⟨-, hsame⟩ | ⟨ch, ms, -, hch, hblock, hrec, hnew⟩ := sendMessage_cases hconfig hq
        · -- nothing was queued
          have hqueued : q.queuedOn channel = p.queuedOn channel := by rw [hsame]; rfl
          rw [hqueued, List.drop_length, List.nil_append]
          refine ih ?_ ?_ ?_ hrest
          · rw [hsame]; exact hconfig
          · rw [hsame]; exact hchan
          · rw [hsame]; exact hnext
        · have hid : (ch.pushAll ms).id = channel := by
            rw [Channel.id_pushAll]
            exact ChannelList.id_of_get? hch
          have hget : q.channels.get? channel = some (ch.pushAll ms) := by
            rw [hnew]
            exact ChannelList.get?_set_self hch hid
          have hdrop : (q.queuedOn channel).drop (p.queuedOn channel).length = ms := by
            simp [queuedOn, hget, hch]
          rw [hdrop, numbered_append]
          have hrest' := ih (k := k + ms.length) ?_ ?_ ?_ hrest
          · rw [hnext] at hblock
            refine ⟨⟨numbered_of_sendBlock hblock, hrest'.1⟩, fun m hm => ?_⟩
            rcases List.mem_append.mp hm with hm | hm
            · obtain ⟨i, hi⟩ := List.mem_iff_getElem?.mp hm
              rw [(hblock.getElem? hi).2]
              exact hchan channel (by simp [hch])
            · exact hrest'.2 m hm
          · rw [hnew]; exact hconfig
          · intro c hc
            by_cases hcc : c = channel
            · exact hchan c (by simp [hcc, hch])
            · rw [hnew] at hc
              rw [show (p.channels.set channel (ch.pushAll ms)).get? c = p.channels.get? c from
                ChannelList.get?_set_of_ne hcc hid] at hc
              exact hchan c hc
          · rw [hrec.nextMessageId, hnext, ← UInt16.ofNat_add]

end Endpoint

/-! ### Receiving in order -/

/-- A message offered to its channel: whether it was accepted, and the channels afterwards. -/
def ChannelList.offer (cs : ChannelList) (m : Message) : Bool × ChannelList :=
  match cs.get? m.channel with
  | none => (false, cs)
  | some ch => ((ch.acceptsMessage m.id).1, cs.set m.channel (ch.acceptsMessage m.id).2)

/-- Every message of a list is accepted by its channel when they are offered in order. -/
def ChannelList.AllAccepted : ChannelList → List Message → Prop
  | _, [] => True
  | cs, m :: ms => (cs.offer m).1 = true ∧ AllAccepted (cs.offer m).2 ms

/-- What the distances between a channel's messages have to satisfy, the messages being numbered
from `k` on and `last` giving the number of each channel's latest one (or 0): the next message is
not more than 22768 ahead, and the circular comparison sees it ahead of the start of the window. -/
def GapsOk : ℕ → (UInt8 → ℕ) → List UInt8 → Prop
  | _, _, [] => True
  | k, last, c :: rest =>
    (k - last c ≤ 22768 ∧
      sequenceGreaterThan (UInt16.ofNat k) (UInt16.ofNat (last c) - 10000) = true) ∧
    GapsOk (k + 1) (Function.update last c k) rest

/-- The distances are at most `bound`. -/
def GapsWithin (bound : ℕ) : ℕ → (UInt8 → ℕ) → List UInt8 → Prop
  | _, _, [] => True
  | k, last, c :: rest =>
    k - last c ≤ bound ∧ GapsWithin bound (k + 1) (Function.update last c k) rest

/-- After the messages below `k`, the window of each channel is settled at its latest message. -/
def InStep (cs : ChannelList) (k : ℕ) (last : UInt8 → ℕ) : Prop :=
  ∀ c, c = 0 ∨ c = 1 → ∃ ch, cs.get? c = some ch ∧ ch.seenBuf.Settled (last c) ∧ last c ≤ k ∧
    (last c < k ∨ ∀ i, ch.seenBuf.entrySequences i = none)

section Step

variable {cs : ChannelList} {k : ℕ} {last : UInt8 → ℕ} {m : Message}

/-- In step, the only test that can refuse a message is the one of the window. -/
theorem offer_fst_iff (h : InStep cs k last) (hchan : m.channel = 0 ∨ m.channel = 1)
    (hid : m.id = UInt16.ofNat k) (hgap : k - last m.channel ≤ 22768) :
    (cs.offer m).1 = true ↔ sequenceGreaterThan (UInt16.ofNat k)
      (UInt16.ofNat (last m.channel) - 10000) = true := by
  obtain ⟨ch, hch, hset, hle, hold⟩ := h m.channel hchan
  have hnew : ch.seenBuf.existsSequence m.id = false := by
    rcases hold with hlt | hempty
    · rw [hid, ← wrap_natCast]
      exact existsSequence_of_settled hset (by omega) (by omega)
    · simp [existsSequence, hempty]
  have hfront : ch.seenBuf.sequence = UInt16.ofNat (last m.channel) := by
    rw [hset.front.eq_wrap, wrap_natCast]
  rw [hid] at hnew
  simp only [ChannelList.offer, hch, Channel.acceptsMessage_fst,
    acceptUnseen_fst, checkSequence, hid,
    hnew, and_true, hfront, hset.len]
  rfl

/-- An accepted message no more than 55536 ahead is no more than 22768 ahead. -/
theorem gap_of_offer (h : InStep cs k last) (hchan : m.channel = 0 ∨ m.channel = 1)
    (hid : m.id = UInt16.ofNat k) (hgap : k - last m.channel ≤ 55536)
    (hacc : (cs.offer m).1 = true) : k - last m.channel ≤ 22768 := by
  obtain ⟨ch, hch, hset, hle, -⟩ := h m.channel hchan
  simp only [ChannelList.offer, hch, Channel.acceptsMessage_fst, acceptUnseen_fst] at hacc
  obtain ⟨e, he, hlo, hhi⟩ := exists_lifts_of_checkSequence hset.front hacc.1
  have hk : Lifts m.id k := hid ▸ lifts_ofNat k
  have hlen := hset.len
  have heq := he.unique hk (by omega) (by omega)
  omega

/-- **One step.** An accepted message keeps the windows in step. -/
theorem inStep_offer (h : InStep cs k last) (hchan : m.channel = 0 ∨ m.channel = 1)
    (hid : m.id = UInt16.ofNat k) (hgap : k - last m.channel ≤ 22768)
    (hacc : (cs.offer m).1 = true) :
    InStep (cs.offer m).2 (k + 1) (Function.update last m.channel k) := by
  intro c hc
  obtain ⟨ch, hch, hset, hle, -⟩ := h m.channel hchan
  simp only [ChannelList.offer, hch] at hacc ⊢
  have hchid : (ch.acceptsMessage m.id).2.id = m.channel := by
    rw [← ChannelList.id_of_get? hch]
    cases ch <;> rfl
  by_cases hcm : c = m.channel
  · subst hcm
    refine ⟨_, ChannelList.get?_set_self hch hchid, ?_, ?_, ?_⟩
    · rw [Channel.acceptsMessage_fst] at hacc
      have hins := insert_of_acceptUnseen hacc
      rw [hid, ← wrap_natCast] at hins
      rw [Function.update_self, Channel.seenBuf_acceptsMessage, hid, ← wrap_natCast]
      exact settled_insert hset (by omega) (by omega) hins
    · rw [Function.update_self]
      omega
    · left
      rw [Function.update_self]
      omega
  · obtain ⟨ch', hch', hset', hle', hold'⟩ := h c hc
    rw [Function.update_of_ne hcm, ChannelList.get?_set_of_ne hcm hchid]
    exact ⟨ch', hch', hset', by omega, Or.inl (by omega)⟩

end Step

/-- **Whole runs**, in both directions. -/
theorem allAccepted_of_gapsOk {msgs : List Message} {cs : ChannelList} {k : ℕ} {last : UInt8 → ℕ}
    (h : InStep cs k last) (hnum : Numbered k msgs)
    (hchan : ∀ m ∈ msgs, m.channel = 0 ∨ m.channel = 1)
    (hgaps : GapsOk k last (msgs.map Message.channel)) : cs.AllAccepted msgs := by
  induction msgs generalizing cs k last with
  | nil => trivial
  | cons m ms ih =>
    obtain ⟨hid, hnum⟩ := hnum
    obtain ⟨⟨hgap, hgt⟩, hgaps⟩ := hgaps
    have hm := hchan m (List.mem_cons_self ..)
    have hacc := (offer_fst_iff h hm hid hgap).mpr hgt
    exact ⟨hacc, ih (inStep_offer h hm hid hgap hacc) hnum
      (fun m' hm' => hchan m' (List.mem_cons_of_mem _ hm')) hgaps⟩

theorem gapsOk_of_allAccepted {msgs : List Message} {cs : ChannelList} {k : ℕ} {last : UInt8 → ℕ}
    (h : InStep cs k last) (hnum : Numbered k msgs)
    (hchan : ∀ m ∈ msgs, m.channel = 0 ∨ m.channel = 1)
    (hbound : GapsWithin 55536 k last (msgs.map Message.channel))
    (hall : cs.AllAccepted msgs) : GapsOk k last (msgs.map Message.channel) := by
  induction msgs generalizing cs k last with
  | nil => trivial
  | cons m ms ih =>
    obtain ⟨hid, hnum⟩ := hnum
    obtain ⟨hacc, hall⟩ := hall
    obtain ⟨hgap, hbound⟩ := hbound
    have hm := hchan m (List.mem_cons_self ..)
    have hgap' := gap_of_offer h hm hid hgap hacc
    exact ⟨⟨hgap', (offer_fst_iff h hm hid hgap').mp hacc⟩,
      ih (inStep_offer h hm hid hgap' hacc) hnum
        (fun m' hm' => hchan m' (List.mem_cons_of_mem _ hm')) hbound hall⟩

theorem inStep_new (overflowChecks : Bool) (config : PicklebackConfig) (time : Time) :
    InStep (Endpoint.new overflowChecks config time).channels 0 fun _ => 0 := by
  rintro c (rfl | rfl)
  · exact ⟨.unreliable (.new 0 time), rfl, settled_withCapacity, le_refl 0, Or.inr fun _ => rfl⟩
  · exact ⟨.reliable (.new 1 time), rfl, settled_withCapacity, le_refl 0, Or.inr fun _ => rfl⟩

theorem isSome_get?_new {overflowChecks : Bool} {config : PicklebackConfig} {time : Time}
    {c : UInt8} (h : ((Endpoint.new overflowChecks config time).channels.get? c).isSome) :
    c = 0 ∨ c = 1 := by
  by_contra hc
  push Not at hc
  have hnone : (Endpoint.new overflowChecks config time).channels.get? c = none := by
    simp [Endpoint.new, ChannelList.get?, Channel.id, UnreliableChannel.new, ReliableChannel.new,
      hc.1.symm, hc.2.symm]
  simp [hnone] at h

/-- **Fresh messages in order.** The messages of any run of sends are all accepted, each offered
once and in the order of the ids, if every message is at most 22768 ids ahead of the previous
message of its channel, and then passes the circular comparison. Where no two messages of a channel
are more than 55536 ids apart, this is also necessary. -/
theorem allAccepted_iff_gapsOk (overflowChecks : Bool) (time time' : Time)
    (sends : List (UInt8 × List UInt8)) {p : Endpoint} {msgs : List Message}
    (hsends : (Endpoint.new overflowChecks .default time).sendAll sends = .ok (p, msgs)) :
    (GapsOk 0 (fun _ => 0) (msgs.map Message.channel) →
        (Endpoint.new overflowChecks .default time').channels.AllAccepted msgs) ∧
      (GapsWithin 55536 0 (fun _ => 0) (msgs.map Message.channel) →
        (Endpoint.new overflowChecks .default time').channels.AllAccepted msgs →
        GapsOk 0 (fun _ => 0) (msgs.map Message.channel)) := by
  obtain ⟨hnum, hchan⟩ := Endpoint.sendAll_eq_ok (k := 0) (le_refl _) (fun c => isSome_get?_new)
    rfl hsends
  exact ⟨allAccepted_of_gapsOk (inStep_new _ _ _) hnum hchan,
    gapsOk_of_allAccepted (inStep_new _ _ _) hnum hchan⟩

/-- One message on each channel. -/
theorem allAccepted_iff_gapsOk_two_sends :
    ∃ p msgs, (Endpoint.new true .default 1).sendAll [(0, [7]), (1, [8, 9])] = .ok (p, msgs) ∧
      (Endpoint.new true .default 1).channels.AllAccepted msgs := by
  refine ⟨_, _, rfl, ?_⟩
  refine (allAccepted_iff_gapsOk true 1 1 [(0, [7]), (1, [8, 9])] rfl).1 ?_
  change GapsOk 0 (fun _ => 0) [0, 1]
  exact ⟨⟨by decide, by decide⟩, ⟨by decide, by decide⟩, trivial⟩

/-! ### A refused message -/

/-- Small sends always go through while few packets are unacked. -/
theorem Endpoint.exists_sendAll {sends : List (UInt8 × List UInt8)} {p : Endpoint}
    (hconfig : p.config = .default) (hunacked : ¬ p.sentUnackedPackets ≥ maxUnackedPackets)
    (hchan : ∀ c, c = 0 ∨ c = 1 → (p.channels.get? c).isSome)
    (hsends : ∀ s ∈ sends, (s.1 = 0 ∨ s.1 = 1) ∧ s.2.length ≤ 1024) :
    ∃ p' msgs, p.sendAll sends = .ok (p', msgs) ∧
      msgs.map Message.channel = sends.map Prod.fst := by
  induction sends generalizing p with
  | nil => exact ⟨p, [], rfl, rfl⟩
  | cons s rest ih =>
    obtain ⟨hc, hlen⟩ := hsends s (List.mem_cons_self ..)
    obtain ⟨ch, hch⟩ := Option.isSome_iff_exists.mp (hchan s.1 hc)
    have hchan64 : s.1 < 64 := by rcases hc with hc | hc <;> rw [hc] <;> decide
    obtain ⟨q, hq⟩ := exists_sendMessage hch hchan64 hlen
      (by rw [hconfig]; decide) hunacked
    obtain ⟨⟨e, he⟩, -⟩ | ⟨ch', ms, -, hch', hblock, -, hnew⟩ :=
      sendMessage_cases (by rw [hconfig]; decide) hq
    · cases he
    obtain rfl : ch = ch' := Option.some.inj (hch.symm.trans hch')
    rw [SendBlock, if_pos hlen] at hblock
    obtain ⟨m, rfl, -, hm, -⟩ := hblock
    have hid : (ch.pushAll [m]).id = s.1 := by
      rw [Channel.id_pushAll]
      exact ChannelList.id_of_get? hch
    have hget : q.channels.get? s.1 = some (ch.pushAll [m]) := by
      rw [hnew]
      exact ChannelList.get?_set_self hch hid
    obtain ⟨p', msgs, hrest, hmap⟩ := ih (p := q) (by rw [hnew]; exact hconfig)
      (by rw [hnew]; exact hunacked)
      (by
        intro c hc'
        by_cases hcc : c = s.1
        · rw [hcc, hget]
          rfl
        · rw [hnew]
          rw [show (p.channels.set s.1 (ch.pushAll [m])).get? c = p.channels.get? c from
            ChannelList.get?_set_of_ne hcc hid]
          exact hchan c hc')
      (fun s' hs' => hsends s' (List.mem_cons_of_mem _ hs'))
    refine ⟨p', m :: msgs, ?_, by simp [hmap, hm]⟩
    simp [sendAll, hq, hrest, queuedOn, hget, hch, Except.map]

theorem gap_of_gapsOk {n k : ℕ} {last : UInt8 → ℕ}
    (h : GapsOk k last (List.replicate n 1 ++ [0])) : k + n - last 0 ≤ 22768 := by
  induction n generalizing k last with
  | zero => exact h.1.1
  | succ n ih =>
    have := ih h.2
    rw [Function.update_of_ne (by decide)] at this
    omega

theorem gapsWithin_of_length {cs : List UInt8} {k bound : ℕ} {last : UInt8 → ℕ}
    (h : k + cs.length ≤ bound + 1) : GapsWithin bound k last cs := by
  induction cs generalizing k last with
  | nil => trivial
  | cons c cs ih =>
    rw [List.length_cons] at h
    exact ⟨by omega, ih (by omega)⟩

/-- **A refused message.** After 30000 messages on channel 1, the first message on channel 0 is
taken for an old one. -/
theorem not_allAccepted_after_30000 :
    ∃ p msgs, (Endpoint.new true .default 1).sendAll (List.replicate 30000 (1, []) ++ [(0, [])])
        = .ok (p, msgs) ∧ ¬ (Endpoint.new true .default 1).channels.AllAccepted msgs := by
  have hsmall : ∀ s ∈ (List.replicate 30000 (1, []) ++ [(0, [])] : List (UInt8 × List UInt8)),
      (s.1 = 0 ∨ s.1 = 1) ∧ s.2.length ≤ 1024 := by
    intro s hs
    rcases List.mem_append.mp hs with hs | hs
    · rw [List.eq_of_mem_replicate hs]
      exact ⟨Or.inr rfl, by decide⟩
    · rw [List.mem_singleton.mp hs]
      exact ⟨Or.inl rfl, by decide⟩
  obtain ⟨p, msgs, hsends, hmap⟩ := Endpoint.exists_sendAll (p := Endpoint.new true .default 1)
    rfl (by decide) (by rintro c (rfl | rfl) <;> rfl) hsmall
  refine ⟨p, msgs, hsends, fun hall => ?_⟩
  obtain ⟨hnum, hchan⟩ := Endpoint.sendAll_eq_ok (k := 0) (le_refl _) (fun c => isSome_get?_new)
    rfl hsends
  have htags : msgs.map Message.channel = List.replicate 30000 1 ++ [0] := by
    rw [hmap, List.map_append, List.map_replicate]
    rfl
  have hbound : GapsWithin 55536 0 (fun _ => 0) (msgs.map Message.channel) := by
    refine gapsWithin_of_length ?_
    rw [htags, List.length_append, List.length_replicate]
    decide
  have hgaps := gapsOk_of_allAccepted (inStep_new _ _ _) hnum hchan hbound hall
  rw [htags] at hgaps
  have := gap_of_gapsOk hgaps
  omega

end Pickleback
