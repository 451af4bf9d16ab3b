import Pickleback.History
import Pickleback.MessageWire
import Pickleback.Reassembly
import Pickleback.Retention

/-!
# Delivery in any order

The packets of messages that one endpoint has composed, delivered to a new one in any order, any of
them left out and any of them repeated. As long as no window is outgrown, each of the receiver's
windows says exactly what has arrived, whatever the order; so a message is taken the first time it
arrives and never again, and what ends up in the inboxes depends on the set of packets alone.

## Main definitions

* `SequenceBuffer.Flat` — a window that has not been outgrown, and the ids in it
* `Endpoint.deliverAll` — the deliveries
* `Journal.contents` — what some of the packets contain whole
* `Endpoint.Receiving` — the invariant: the windows, the partial messages and the inboxes, in terms
  of the messages that have arrived

## Main results

* `Receiving.receiveMessage` — one message
* `Delivered.deliver` — one packet
* `Journal.deliverAll_contents` — any deliveries
-/

namespace Pickleback

/-! ### Windows that have not been outgrown -/

namespace SequenceBuffer

variable {T : Type} {b b' : SequenceBuffer T} {A : Set UInt16} {s : UInt16} {v : T}

/-- A window whose ids stay below its length, so that each has a slot for itself: `A` are the ids in
it. -/
structure Flat (b : SequenceBuffer T) (A : Set UInt16) : Prop where
  len_le : b.len ≤ 16384
  sequence_lt : b.sequence.toNat < b.len
  exists_iff : ∀ s : UInt16, s.toNat < b.len → (b.existsSequence s = true ↔ s ∈ A)
  newest : ∀ s ∈ A, s.toNat ≤ b.sequence.toNat

theorem flat_withCapacity [Inhabited T] {n : ℕ} (hpos : 0 < n) (hn : n ≤ 16384) :
    (withCapacity n : SequenceBuffer T).Flat ∅ where
  len_le := hn
  sequence_lt := hpos
  exists_iff := by
    intro s _
    rw [existsSequence_iff, entrySequences_withCapacity]
    simp
  newest := by simp

namespace Flat

theorem index_eq (h : b.Flat A) (hs : s.toNat < b.len) : b.index s = s.toNat := by
  have := h.len_le
  rw [SequenceBuffer.index_eq (by omega), Nat.mod_eq_of_lt hs]

/-- Nothing is ever too old. -/
theorem checkSequence (h : b.Flat A) (hs : s.toNat < b.len) : b.checkSequence s = true := by
  have hlen := h.len_le
  have hseq := h.sequence_lt
  rw [SequenceBuffer.checkSequence, sequenceGreaterThan_iff, UInt16.toNat_sub, UInt16.toNat_ofNat',
    Nat.mod_eq_of_lt (show b.len < 2 ^ 16 by omega)]
  omega

/-- What is in the window stays there: moving forward empties the slots of newer ids only. -/
theorem not_disturbs (h : b.Flat A) (hs : s.toNat < b.len) {t : UInt16} (ht : t ∈ A) (hne : t ≠ s) :
    ¬ b.Disturbs s (b.index t) := by
  have hlen := h.len_le
  have hseq := h.sequence_lt
  have hold := h.newest t ht
  rw [h.index_eq (s := t) (by omega)]
  rintro (hslot | ⟨-, -, x, hx₁, hx₂, hslot⟩)
  · rw [h.index_eq hs] at hslot
    exact hne (UInt16.toNat_inj.mp hslot.symm)
  · rw [UInt16.le_iff_toNat_le] at hx₁ hx₂
    rw [h.index_eq (by omega)] at hslot
    rw [UInt16.toNat_add] at hx₁
    simp only [UInt16.reduceToNat] at hx₁
    omega

variable [Inhabited T]

/-- **Insertion** adds the id. -/
theorem insert (h : b.Flat A) (hs : s.toNat < b.len) (hins : b.insert s v = .ok b') :
    b'.Flat (Set.insert s A) := by
  have hlen' := len_insert hins
  have hlen := h.len_le
  have hseq := h.sequence_lt
  have hmoved : b.sequence.toNat ≤ b'.sequence.toNat ∧ s.toNat ≤ b'.sequence.toNat ∧
      b'.sequence.toNat < b.len := by
    rw [sequence_insert hins]
    split
    · next hnew =>
      rw [sequenceGreaterThan_iff] at hnew
      omega
    · next hnew =>
      rw [sequenceGreaterThan_iff] at hnew
      omega
  refine ⟨by rw [hlen']; exact hlen, by rw [hlen']; exact hmoved.2.2, fun t ht => ?_, ?_⟩
  · rw [hlen'] at ht
    constructor
    · intro hexists
      obtain ⟨w, hget⟩ : ∃ w, b'.get t = some w := ⟨_, get_eq_some_iff.mpr ⟨hexists, rfl⟩⟩
      obtain ⟨rfl, -⟩ | hold := get_of_get_insert hins hget
      · exact Set.mem_insert ..
      · exact Set.mem_insert_of_mem _ ((h.exists_iff t ht).mp (get_eq_some_iff.mp hold).1)
    · rintro (rfl | hmem)
      · exact (get_eq_some_iff.mp (get_insert_self hins)).1
      · by_cases hne : t = s
        · rw [hne]
          exact (get_eq_some_iff.mp (get_insert_self hins)).1
        · have hkept := (insert_of_not_disturbs hins (h.not_disturbs hs hmem hne)).1
          have hexists := (h.exists_iff t ht).mpr hmem
          rw [existsSequence_iff] at hexists ⊢
          rw [index_of_insert hins, hkept, hexists]
  · rintro t (rfl | hmem)
    · exact hmoved.2.1
    · exact (h.newest t hmem).trans hmoved.1

end Flat

end SequenceBuffer

/-- A window of seen ids takes what is not in it yet. -/
theorem acceptUnseen_of_flat {b : SequenceBuffer Bool} {A : Set UInt16}
    {s : MessageId} (h : b.Flat A)
    (hs : s.toNat < b.len) :
    ((acceptUnseen b s).1 = true ↔ s ∉ A) ∧ (acceptUnseen b s).2.Flat (Set.insert s A) := by
  have hfst : (acceptUnseen b s).1 = true ↔ s ∉ A := by
    rw [acceptUnseen_fst, ← h.exists_iff s hs]
    simp [h.checkSequence hs]
  refine ⟨hfst, ?_⟩
  by_cases hmem : s ∈ A
  · have hsame : Set.insert s A = A := Set.insert_eq_of_mem hmem
    rw [acceptUnseen_of_fst_false (Bool.eq_false_iff.mpr fun h' => hfst.mp h' hmem), hsame]
    exact h
  · exact h.insert hs (insert_of_acceptUnseen (hfst.mpr hmem))

/-! ### What was sent -/

/-- The messages of a send, as they are written and read. -/
theorem exists_content_of_sendBlock {parent : MessageId} {channel : UInt8} {payload : List UInt8}
    {ms : List Message} (h : SendBlock parent channel payload ms)
    (hchan : channel.toNat < maxChannels)
    (hlen : payload.length ≤ 1024 * 1024) {m : Message} (hm : m ∈ ms) :
    ∃ c : MessageContent, m.Writes c ∧ c.WellFormed ∧
      (c.Truncated → 256 ≤ numFragments payload) := by
  rw [SendBlock] at h
  split at h
  · next hsmall =>
    obtain ⟨m', rfl, hid, hc, hnone, henc⟩ := h
    obtain rfl := List.mem_singleton.mp hm
    refine ⟨⟨m.id, m.channel, payload, none⟩, ⟨rfl, rfl, hnone, henc⟩, ⟨hc ▸ hchan, hsmall, ?_⟩, ?_⟩
    · intro f hf
      cases hf
    · rintro ⟨f, hf, -⟩
      cases hf
  · next hlarge =>
    obtain ⟨i, hi⟩ := List.mem_iff_getElem?.mp hm
    obtain ⟨hid, hc, hfrag, henc⟩ := h.2 i m hi
    have hlt : i < numFragments payload := h.1 ▸ (List.getElem?_eq_some_iff.mp hi).1
    have hmax := numFragments_le hlen
    have htwo : 2 ≤ numFragments payload := lt_numFragments_iff.mpr (by omega)
    have hN : (UInt16.ofNat (numFragments payload)).toNat = numFragments payload := by
      rw [UInt16.toNat_ofNat', Nat.mod_eq_of_lt (by omega)]
    have hI : (UInt16.ofNat i).toNat = i := by
      rw [UInt16.toNat_ofNat', Nat.mod_eq_of_lt (by omega)]
    refine ⟨⟨m.id, m.channel, chunk payload i, m.fragment⟩, ⟨rfl, rfl, rfl, henc⟩,
      ⟨hc ▸ hchan, henc.2.1, ?_⟩, ?_⟩
    · intro f hf
      rw [hfrag] at hf
      cases hf
      refine ⟨by rw [UInt16.lt_iff_toNat_lt, hN, hI]; exact hlt, by rw [hN]; exact htwo,
        by rw [hN]; exact hmax, ?_, ?_⟩
      · show parent = m.id - UInt16.ofNat i
        rw [hid, UInt16.add_sub_cancel]
      · intro hlast
        refine MessageDispatcher.length_chunk ?_
        rw [Fragment.isLast, beq_eq_false_iff_ne, Ne, ← UInt16.toNat_inj, UInt16.toNat_sub, hN, hI]
          at hlast
        simp only [UInt16.reduceToNat] at hlast
        omega
    · rintro ⟨f, hf, -, -, hbig⟩
      dsimp only at hf
      rw [hfrag] at hf
      cases hf
      rwa [hN] at hbig

/-- The id of a send is the id of its first message. -/
def Send.id? (s : Send) : Option MessageId := s.messages.head?.map Message.id

/-- Channel, id and payload of a send. -/
def Send.summary (s : Send) : Option UInt8 × Option MessageId × List UInt8 :=
  (some s.channel, s.id?, s.payload)

/-- Channel, id and payload of a message in an inbox. -/
def ReceivedMessage.summary (msg : ReceivedMessage) : Option UInt8 ×
    Option MessageId × List UInt8 :=
  (msg.channel?, msg.id?, msg.payload)

/-- Sends on the two channels with message ids below 10000 and at most 255 fragments each. -/
structure Deliverable (sends : List Send) : Prop where
  numbered : Numbered 0 (sends.flatMap Send.messages)
  length_le : (sends.flatMap Send.messages).length ≤ 10000
  channel : ∀ s ∈ sends, s.channel = 0 ∨ s.channel = 1
  payload_le : ∀ s ∈ sends, s.payload.length ≤ 255 * 1024
  block : ∀ s ∈ sends, ∃ parent, SendBlock parent s.channel s.payload s.messages

namespace Deliverable

variable {sends : List Send} {s s' : Send} {m m' : Message}

theorem toNat_id_lt (h : Deliverable sends) (hm : m ∈ sends.flatMap Send.messages) :
    m.id.toNat < 10000 := by
  have hid := List.mem_map_of_mem (f := Message.id) hm
  rw [h.numbered.map_id] at hid
  obtain ⟨k, hk, hid⟩ := List.mem_map.mp hid
  have hlen := h.length_le
  rw [List.mem_range'_1] at hk
  rw [← hid, UInt16.toNat_ofNat', Nat.mod_eq_of_lt (by omega)]
  omega

theorem eq_of_id (h : Deliverable sends) (hm : m ∈ sends.flatMap Send.messages)
    (hm' : m' ∈ sends.flatMap Send.messages) (hid : m.id = m'.id) : m = m' :=
  h.numbered.eq_of_id (h.length_le.trans (by norm_num)) hm hm' hid

theorem nodup_flatMap (h : Deliverable sends) : (sends.flatMap Send.messages).Nodup :=
  (h.numbered.nodup (h.length_le.trans (by norm_num))).of_map

theorem disjoint (h : Deliverable sends) :
    sends.Pairwise fun s s' => List.Disjoint s.messages s'.messages :=
  (List.nodup_flatMap.mp h.nodup_flatMap).2

theorem nodup_messages (h : Deliverable sends) (hs : s ∈ sends) : s.messages.Nodup :=
  (List.nodup_flatMap.mp h.nodup_flatMap).1 s hs

/-- A message belongs to one send. -/
theorem eq_of_mem (h : Deliverable sends) (hs : s ∈ sends) (hs' : s' ∈ sends) (hm : m ∈ s.messages)
    (hm' : m ∈ s'.messages) : s = s' := by
  by_contra hne
  have hsymm : Std.Symm fun s s' : Send => List.Disjoint s.messages s'.messages :=
    ⟨fun _ _ hd => hd.symm⟩
  exact h.disjoint.forall hs hs' hne hm hm'

theorem messages_ne_nil (h : Deliverable sends) (hs : s ∈ sends) : s.messages ≠ [] := by
  obtain ⟨parent, hblock⟩ := h.block s hs
  exact Endpoint.SendBlock_ne_nil hblock

theorem nodup (h : Deliverable sends) : sends.Nodup := by
  refine h.disjoint.imp_of_mem ?_
  intro s s' hs _ hdisjoint heq
  obtain ⟨m, hm⟩ := List.exists_mem_of_ne_nil _ (h.messages_ne_nil hs)
  exact hdisjoint hm (heq ▸ hm)

/-- What a receiver reads for a message that was sent. -/
theorem exists_content (h : Deliverable sends) (hm : m ∈ sends.flatMap Send.messages) :
    ∃ c : MessageContent, m.Writes c ∧ c.WellFormed ∧ ¬ c.Truncated := by
  obtain ⟨s, hs, hms⟩ := List.mem_flatMap.mp hm
  obtain ⟨parent, hblock⟩ := h.block s hs
  have hle := h.payload_le s hs
  have hchan : s.channel.toNat < maxChannels := by
    rcases h.channel s hs with hc | hc <;> rw [hc] <;> decide
  obtain ⟨c, hwrites, hwf, htrunc⟩ := exists_content_of_sendBlock hblock hchan (by omega) hms
  refine ⟨c, hwrites, hwf, fun ht => ?_⟩
  have := lt_numFragments_iff.mp (htrunc ht)
  omega

/-- The sends that were fragmented. -/
def Large (sends : List Send) : Type := { s : Send // s ∈ sends ∧ 1024 < s.payload.length }

/-- `large` are the fragmented sends. -/
def Large.Are (large : Large sends → LargeSend) : Prop :=
  ∀ s, (large s).payload = s.1.payload ∧ s.1.id? = some (large s).id

theorem id?_of_sendBlock {parent : MessageId}
    (h : SendBlock parent s.channel s.payload s.messages) :
    s.id? = some parent := by
  obtain ⟨m, rest, hms⟩ := List.exists_cons_of_ne_nil (Endpoint.SendBlock_ne_nil h)
  have hid := (h.getElem? (i := 0) (m := m) (by rw [hms]; rfl)).1
  rw [Send.id?, hms, List.head?_cons, Option.map_some, hid]
  simp

theorem exists_large (h : Deliverable sends) : ∃ large : Large sends →
    LargeSend, Large.Are large := by
  have hex : ∀ s : Large sends, ∃ l : LargeSend, l.payload = s.1.payload ∧ s.1.id? = some l.id := by
    rintro ⟨s, hs, hlarge⟩
    obtain ⟨parent, hblock⟩ := h.block s hs
    have hle := h.payload_le s hs
    obtain ⟨l, hpayload, hid⟩ := exists_largeSend hlarge (by rw [maxFragments]; omega) parent
    exact ⟨l, hpayload, by rw [id?_of_sendBlock hblock, hid]⟩
  choose large hlarge using hex
  exact ⟨large, hlarge⟩

variable {large : Large sends → LargeSend}

/-- The fragments of a send, one by one. -/
theorem isFragment (h : Deliverable sends) (hlarge : Large.Are large) (l : Large sends) :
    l.1.messages.length = (large l).num ∧
      ∀ i m, l.1.messages[i]? = some m → IsFragment (large l).id l.1.channel l.1.payload i m := by
  obtain ⟨parent, hblock⟩ := h.block l.1 l.2.1
  obtain rfl : parent = (large l).id :=
    Option.some.inj ((id?_of_sendBlock hblock).symm.trans (hlarge l).2)
  rw [SendBlock, if_neg (not_le.mpr l.2.2)] at hblock
  rw [LargeSend.num, (hlarge l).1]
  exact hblock

theorem large_injective (h : Deliverable sends) (hlarge : Large.Are large) :
    Function.Injective fun l => (large l).id := by
  intro l l' heq
  have hhead : ∀ l : Large sends, ∃ m ∈ l.1.messages, m.id = (large l).id := by
    intro l
    obtain ⟨m, rest, hms⟩ := List.exists_cons_of_ne_nil (h.messages_ne_nil l.2.1)
    have hid := ((h.isFragment hlarge l).2 0 m (by rw [hms]; rfl)).1
    exact ⟨m, by simp [hms], by simpa using hid⟩
  obtain ⟨m, hm, hid⟩ := hhead l
  obtain ⟨m', hm', hid'⟩ := hhead l'
  have hsame : m = m' := h.eq_of_id (List.mem_flatMap.mpr ⟨_, l.2.1, hm⟩)
    (List.mem_flatMap.mpr ⟨_, l'.2.1, hm'⟩) (hid.trans (Eq.trans heq hid'.symm))
  exact Subtype.ext (h.eq_of_mem l.2.1 l'.2.1 hm (hsame ▸ hm'))

/-- A received fragment is an arrival. -/
theorem arrival_of (h : Deliverable sends) (hlarge : Large.Are large) {l : Large sends} {i : ℕ}
    {m m₀ : Message} (hm₀ : l.1.messages[i]? = some m₀) (hm : m₀.Writes m.content) :
    Arrival.Of large ⟨l, i, m⟩ := by
  obtain ⟨hlen, hall⟩ := h.isFragment hlarge l
  obtain ⟨hid, -, hfrag, henc⟩ := hall i m₀ hm₀
  obtain ⟨hlen', channel, hall'⟩ := (large l).isFragment
  have hi : i < (large l).fragments.length := by
    rw [hlen', ← hlen]
    exact (List.getElem?_eq_some_iff.mp hm₀).1
  obtain ⟨hid', -, hfrag', henc'⟩ := hall' i _ (List.getElem?_eq_getElem hi)
  refine ⟨_, List.getElem?_eq_getElem hi, ?_, ?_, ?_⟩
  · exact hm.1.symm.trans (hid.trans hid'.symm)
  · rw [hfrag', (hlarge l).1, ← hfrag]
    exact hm.2.2.1.symm
  · have hdata : m.buffer.data = chunk l.1.payload i := hm.2.2.2.unique henc
    rw [hdata, ← (hlarge l).1]
    exact henc'

end Deliverable

/-! ### What has arrived -/

/-- One more member of a list passes a filter. -/
theorem filter_perm_cons {α : Type} {l : List α} (hnodup : l.Nodup)
    {P P' : α → Prop} [DecidablePred P]
    [DecidablePred P'] {a : α} (ha : a ∈ l) (hP : ¬ P a) (hP' : P' a)
    (hrest : ∀ x ∈ l, x ≠ a → (P' x ↔ P x)) :
    (l.filter fun x => P' x).Perm (a :: l.filter fun x => P x) := by
  induction l with
  | nil => cases ha
  | cons x l ih =>
    obtain ⟨hx, hnodup⟩ := List.nodup_cons.mp hnodup
    by_cases hxa : x = a
    · subst hxa
      rw [List.filter_cons_of_pos (by simpa using hP'), List.filter_cons_of_neg (by simpa using hP)]
      refine List.Perm.of_eq (congrArg _ (List.filter_congr fun y hy => ?_))
      have hne : y ≠ x := fun heq => hx (heq ▸ hy)
      simp only [hrest y (List.mem_cons_of_mem _ hy) hne]
    · have ha' : a ∈ l := (List.mem_cons.mp ha).resolve_left (Ne.symm hxa)
      have hperm := ih hnodup ha' fun y hy => hrest y (List.mem_cons_of_mem _ hy)
      by_cases hPx : P x
      · have hPx' := (hrest x (List.mem_cons_self ..) hxa).mpr hPx
        rw [List.filter_cons_of_pos (by simpa using hPx'),
          List.filter_cons_of_pos (by simpa using hPx)]
        exact (hperm.cons x).trans (.swap a x _)
      · have hPx' : ¬ P' x := fun h => hPx ((hrest x (List.mem_cons_self ..) hxa).mp h)
        rw [List.filter_cons_of_neg (by simpa using hPx'),
          List.filter_cons_of_neg (by simpa using hPx)]
        exact hperm

open Classical in
/-- The sends on a channel of which every message is in `got`. -/
noncomputable def wholeIn (sends : List Send) (got : Set Message) (channel : UInt8) :
    Multiset (Option UInt8 × Option MessageId × List UInt8) :=
  (sends.filter fun s => s.channel = channel ∧ ∀ m ∈ s.messages, m ∈ got).map Send.summary

/-- What is in the inbox of a channel. -/
def MessageDispatcher.inbox (d : MessageDispatcher) (channel : UInt8) :
    Multiset (Option UInt8 × Option MessageId × List UInt8) :=
  (d.messageInbox channel).map ReceivedMessage.summary

section Whole

variable {sends : List Send} {got : Set Message} {s : Send} {m : Message}

theorem whole_insert_of_ne (h : Deliverable sends) (hs : s ∈ sends)
    (hm : m ∈ s.messages) {s' : Send}
    (hs' : s' ∈ sends) (hne : s' ≠ s) :
    (∀ x ∈ s'.messages, x ∈ Set.insert m got) ↔ ∀ x ∈ s'.messages, x ∈ got := by
  refine forall₂_congr fun x hx => ?_
  refine ⟨fun hmem => hmem.resolve_left ?_, Or.inr⟩
  rintro rfl
  exact hne (h.eq_of_mem hs' hs hx hm)

/-- A message that leaves its send incomplete completes none. -/
theorem wholeIn_insert_of_not (h : Deliverable sends) (hs : s ∈ sends) (hm : m ∈ s.messages)
    (hwhole : ¬ ∀ x ∈ s.messages, x ∈ Set.insert m got) (channel : UInt8) :
    wholeIn sends (Set.insert m got) channel = wholeIn sends got channel := by
  rw [wholeIn, wholeIn]
  congr 2
  refine List.filter_congr fun s' hs' => ?_
  by_cases hne : s' = s
  · subst hne
    have hold : ¬ ∀ x ∈ s'.messages, x ∈ got := fun hall => hwhole fun x hx => Or.inr (hall x hx)
    exact decide_eq_decide.mpr (and_congr_right fun _ => iff_of_false hwhole hold)
  · exact decide_eq_decide.mpr (and_congr_right fun _ => whole_insert_of_ne h hs hm hs' hne)

/-- A message that completes its send completes no other. -/
theorem wholeIn_insert (h : Deliverable sends) (hs : s ∈ sends)
    (hm : m ∈ s.messages) (hnew : m ∉ got)
    (hwhole : ∀ x ∈ s.messages, x ∈ Set.insert m got) (channel : UInt8) :
    wholeIn sends (Set.insert m got) channel
      = if s.channel = channel then s.summary ::ₘ wholeIn sends got channel
        else wholeIn sends got channel := by
  classical
  split
  · next hc =>
    rw [wholeIn, wholeIn, Multiset.cons_coe, Multiset.coe_eq_coe, ← List.map_cons]
    refine List.Perm.map _ (filter_perm_cons h.nodup hs ?_ ⟨hc, hwhole⟩ ?_)
    · exact fun hall => hnew (hall.2 m hm)
    · intro s' hs' hne
      rw [whole_insert_of_ne h hs hm hs' hne]
  · next hc =>
    rw [wholeIn, wholeIn]
    congr 2
    refine List.filter_congr fun s' hs' => ?_
    by_cases hne : s' = s
    · subst hne
      exact decide_eq_decide.mpr (iff_of_false (fun h => hc h.1) fun h => hc h.1)
    · exact decide_eq_decide.mpr (and_congr_right fun _ => whole_insert_of_ne h hs hm hs' hne)

end Whole

/-! ### One message -/

namespace MessageDispatcher

variable {sends : List Send} {large : Deliverable.Large sends → LargeSend} {got : Set Message}
  {d : MessageDispatcher} {s : Send} {m m₀ : Message}

theorem exists_pushInbox (d : MessageDispatcher) {msg : ReceivedMessage} {channel : UInt8}
    (h : msg.channel? = some channel) :
    ∃ d', d.pushInbox msg = .ok d' ∧ d'.messageReassembler = d.messageReassembler ∧
      ∀ c, d'.inbox c = if channel = c then msg.summary ::ₘ d.inbox c else d.inbox c := by
  rw [pushInbox, h]
  refine ⟨_, rfl, rfl, fun c => ?_⟩
  by_cases hc : channel = c
  · subst hc
    simp only [if_true, inbox, Function.update_self]
    rw [List.map_append, List.map_singleton, ← Multiset.coe_add, Multiset.coe_singleton,
      Multiset.add_comm, Multiset.singleton_add]
  · simp only [if_neg hc, inbox, Function.update_of_ne (Ne.symm hc)]

/-- The partial messages and the inboxes after the messages in `got` have arrived. -/
structure Dispatched (sends : List Send) (large : Deliverable.Large sends → LargeSend)
    (got : Set Message) (d : MessageDispatcher) : Prop where
  partials : ∃ as, Collected large as d.messageReassembler ∧
    ∀ l i, Seen as l i ↔ ∃ m ∈ got, l.1.messages[i]? = some m
  stored : d.messageReassembler.Stores fun parent m => ∀ l, (large l).id = parent →
    m.channel = l.1.channel
  inbox : ∀ c, d.inbox c = wholeIn sends got c

/-- All arrivals of a fragmented send are in when all its messages are. -/
theorem covers_iff (h : Deliverable sends) (hlarge : Deliverable.Large.Are large)
    {as : List (Arrival (Deliverable.Large sends))}
    (hseen : ∀ l i, Seen as l i ↔ ∃ m ∈ got, l.1.messages[i]? = some m)
    (l : Deliverable.Large sends) :
    Covers large as l ↔ ∀ m ∈ l.1.messages, m ∈ got := by
  have hlen := (h.isFragment hlarge l).1
  constructor
  · intro hcovers m hm
    obtain ⟨i, hi⟩ := List.mem_iff_getElem?.mp hm
    obtain ⟨m', hm', hi'⟩ := (hseen l i).mp (hcovers i (hlen ▸ (List.getElem?_eq_some_iff.mp hi).1))
    rwa [Option.some.inj (hi.symm.trans hi')]
  · intro hall i hi
    rw [← hlen] at hi
    exact (hseen l i).mpr ⟨_, hall _ (List.getElem_mem hi), List.getElem?_eq_getElem hi⟩

/-- A message that was not fragmented. -/
theorem Dispatched.single (h : Dispatched sends large got d) (hsends : Deliverable sends)
    (hs : s ∈ sends)
    (hsmall : s.payload.length ≤ 1024) (hm₀ : m₀ ∈ s.messages) (hnew : m₀ ∉ got)
    (hm : m₀.Writes m.content) :
    ∃ d', d.processReceivedMessage m = .ok d' ∧ Dispatched sends large (Set.insert m₀ got) d' := by
  obtain ⟨parent, hblock⟩ := hsends.block s hs
  have hid := Deliverable.id?_of_sendBlock hblock
  rw [SendBlock, if_pos hsmall] at hblock
  obtain ⟨m₁, hms, hparent, hchan, hnone, henc⟩ := hblock
  obtain rfl : m₀ = m₁ := by simpa [hms] using hm₀
  have hfrag : m.fragment = none := hm.2.2.1.symm.trans hnone
  have hsummary : ReceivedMessage.summary (.single m) = s.summary := by
    have hc : m.channel = s.channel := hm.2.1.symm.trans hchan
    have hi : some m.id = s.id? := by
      rw [hid, ← hparent]
      exact congrArg some hm.1.symm
    have hp : m.buffer.data = s.payload := hm.2.2.2.unique henc
    rw [ReceivedMessage.summary, Send.summary, ← hi, ← hc, ← hp]
    rfl
  have hchannel : (ReceivedMessage.single m).channel? = some s.channel :=
    congrArg some (hm.2.1.symm.trans hchan)
  obtain ⟨d', hpush, hr, hinbox⟩ := d.exists_pushInbox hchannel
  refine ⟨d', by rw [processReceivedMessage, hfrag]; exact hpush, ?_, by
    rw [hr]; exact h.stored, ?_⟩
  · obtain ⟨as, hcollected, hseen⟩ := h.partials
    refine ⟨as, by rw [hr]; exact hcollected, fun l i => (hseen l i).trans ?_⟩
    constructor
    · rintro ⟨x, hx, hi⟩
      exact ⟨x, Or.inr hx, hi⟩
    · rintro ⟨x, rfl | hx, hi⟩
      · have heq := hsends.eq_of_mem l.2.1 hs (List.mem_of_getElem? hi) hm₀
        have := l.2.2
        rw [heq] at this
        omega
      · exact ⟨x, hx, hi⟩
  · intro c
    have hwhole : ∀ x ∈ s.messages, x ∈ Set.insert m₀ got := by
      intro x hx
      rw [hms, List.mem_singleton] at hx
      exact Or.inl hx
    rw [hinbox, h.inbox, hsummary, wholeIn_insert hsends hs hm₀ hnew hwhole]

/-- What has been seen of the sends after one more fragment. -/
theorem seen_concat_iff (hsends : Deliverable sends) {as : List (Arrival (Deliverable.Large sends))}
    (hseen : ∀ l i, Seen as l i ↔ ∃ m ∈ got, l.1.messages[i]? = some m)
    {l : Deliverable.Large sends} {i : ℕ}
    (hi : l.1.messages[i]? = some m₀) (l' : Deliverable.Large sends) (i' : ℕ) :
    Seen (as ++ [⟨l, i, m⟩]) l' i' ↔ ∃ x ∈ Set.insert m₀ got, l'.1.messages[i']? = some x := by
  rw [seen_concat, hseen]
  constructor
  · rintro (⟨x, hx, hx'⟩ | ⟨rfl, rfl⟩)
    · exact ⟨x, Or.inr hx, hx'⟩
    · exact ⟨m₀, Or.inl rfl, hi⟩
  · rintro ⟨x, rfl | hx, hx'⟩
    · obtain rfl : l = l' := Subtype.ext
        (hsends.eq_of_mem l.2.1 l'.2.1 (List.mem_of_getElem? hi) (List.mem_of_getElem? hx'))
      have hlt := (List.getElem?_eq_some_iff.mp hi).1
      exact Or.inr ⟨rfl, (List.getElem?_inj hlt (hsends.nodup_messages l.2.1)).mp
        (hi.trans hx'.symm)⟩
    · exact Or.inl ⟨x, hx, hx'⟩

/-- A fragment. -/
theorem Dispatched.fragment (h : Dispatched sends large got d) (hsends : Deliverable sends)
    (hlarge : Deliverable.Large.Are large) {l : Deliverable.Large sends} (hm₀ : m₀ ∈ l.1.messages)
    (hnew : m₀ ∉ got) (hm : m₀.Writes m.content) :
    ∃ d', d.processReceivedMessage m = .ok d' ∧ Dispatched sends large (Set.insert m₀ got) d' := by
  have hinj := hsends.large_injective hlarge
  obtain ⟨i, hi⟩ := List.mem_iff_getElem?.mp hm₀
  obtain ⟨-, hchan, hfrag₀, -⟩ := (hsends.isFragment hlarge l).2 i m₀ hi
  have hfrag : m.fragment = some ⟨_, _, (large l).id⟩ := hm.2.2.1.symm.trans hfrag₀
  obtain ⟨as, hcollected, hseen⟩ := h.partials
  have hseen' := seen_concat_iff (m := m) hsends hseen hi
  have hopen : ¬ Covers large as l := fun hcovers =>
    hnew ((covers_iff hsends hlarge hseen l).mp hcovers m₀ hm₀)
  obtain ⟨out, r', hadd, hcollected', hnone, hsome⟩ :=
    hcollected.step hinj (hsends.arrival_of hlarge hi hm) hopen
  obtain ⟨hstored, hreturned⟩ := h.stored.addFragment hfrag
    (fun l' heq => by rw [hinj heq]; exact hm.2.1.symm.trans hchan) hadd
  have hcovers := covers_iff hsends hlarge hseen' l
  have hprocess : d.processReceivedMessage m = match (out, r') with
      | (none, r) => .ok { d with messageReassembler := r }
      | (some received, r) => { d with messageReassembler := r }.pushInbox received := by
    rw [processReceivedMessage, hfrag, hadd]
    cases out <;> rfl
  by_cases hwhole : ∀ x ∈ l.1.messages, x ∈ Set.insert m₀ got
  · -- The last missing fragment: the message goes to the inbox of its channel.
    obtain ⟨msg, rfl, hid, hpayload⟩ := hsome (hcovers.mpr hwhole)
    obtain ⟨ms, rfl, hms⟩ := hreturned msg rfl
    have hchannel : ReceivedMessage.channel? (.fragmented ms) = some l.1.channel := by
      cases ms with
      | nil => cases hid
      | cons x ms => exact congrArg some (hms x (List.mem_cons_self ..) l rfl)
    have hsummary : ReceivedMessage.summary (.fragmented ms) = l.1.summary := by
      rw [ReceivedMessage.summary, Send.summary, hchannel, hid,
        hpayload, (hlarge l).1, (hlarge l).2]
    obtain ⟨d', hpush, hr, hinbox⟩ := exists_pushInbox { d with messageReassembler := r' } hchannel
    refine ⟨d', by rw [hprocess]; exact hpush, ⟨_, by rw [hr]; exact hcollected', hseen'⟩,
      by rw [hr]; exact hstored, fun c => ?_⟩
    rw [hinbox, hsummary, wholeIn_insert hsends l.2.1 hm₀ hnew hwhole, ← h.inbox]
    rfl
  · obtain rfl := hnone fun hc => hwhole (hcovers.mp hc)
    refine ⟨_, hprocess, ⟨_, hcollected', hseen'⟩, hstored, fun c => ?_⟩
    rw [wholeIn_insert_of_not hsends l.2.1 hm₀ hwhole, ← h.inbox]
    rfl

/-- **One message that had not arrived before.** -/
theorem Dispatched.processReceivedMessage (h : Dispatched sends large got d)
    (hsends : Deliverable sends)
    (hlarge : Deliverable.Large.Are large) (hm₀ : m₀ ∈ sends.flatMap Send.messages)
    (hnew : m₀ ∉ got)
    (hm : m₀.Writes m.content) :
    ∃ d', d.processReceivedMessage m = .ok d' ∧ Dispatched sends large (Set.insert m₀ got) d' := by
  obtain ⟨s, hs, hms⟩ := List.mem_flatMap.mp hm₀
  rcases Nat.lt_or_ge 1024 s.payload.length with hbig | hsmall
  · exact h.fragment (l := ⟨s, hs, hbig⟩) hsends hlarge hms hnew hm
  · exact h.single hsends hs hsmall hms hnew hm

end MessageDispatcher

namespace Endpoint

/-- An endpoint that has sent nothing, after the messages in `got` have arrived. -/
structure Receiving (sends : List Send) (large : Deliverable.Large sends → LargeSend)
    (got : Set Message)
    (p : Endpoint) : Prop where
  intact : p.Intact
  sent : ∀ m ∈ got, m ∈ sends.flatMap Send.messages
  window : ∀ ch ∈ p.channels, ch.seenBuf.len = 10000 ∧
    ch.seenBuf.Flat { id | ∃ m ∈ got, m.channel = ch.id ∧ m.id = id }
  nothingSent : ∀ id, p.sentBuffer.get id = none
  dispatched : p.dispatcher.Dispatched sends large got

namespace Receiving

variable {sends : List Send} {large : Deliverable.Large sends → LargeSend} {got : Set Message}
  {p p' : Endpoint} {m m₀ : Message}

theorem new (overflowChecks : Bool) (time : Time) (hsends : Deliverable sends) :
    Receiving sends large ∅ (Endpoint.new overflowChecks .default time) where
  intact := intact_new overflowChecks time
  sent := by simp
  window := by
    intro ch hch
    have hflat : (SequenceBuffer.withCapacity 10000 : SequenceBuffer Bool).Flat ∅ :=
      SequenceBuffer.flat_withCapacity (by norm_num) (by norm_num)
    have hempty : { id | ∃ m ∈ (∅ : Set Message), m.channel = ch.id ∧ m.id = id } =
      (∅ : Set MessageId) := by
      simp
    rw [hempty]
    rcases List.mem_pair.mp hch with rfl | rfl
    · exact ⟨rfl, hflat⟩
    · exact ⟨rfl, hflat⟩
  nothingSent := fun _ => rfl
  dispatched := by
    refine ⟨⟨[], collected_empty large, by simp [Seen]⟩, MessageReassembler.stores_empty _,
      fun c => ?_⟩
    rw [wholeIn, List.filter_eq_nil_iff.mpr]
    · rfl
    · intro s hs
      obtain ⟨m, hm⟩ := List.exists_mem_of_ne_nil _ (hsends.messages_ne_nil hs)
      simp only [decide_eq_true_eq, not_and]
      exact fun _ hall => hall m hm

/-- Buffers, statistics and estimates do not matter, nor does the window of received packets. -/
theorem sameCore (h : Receiving sends large got p) (hsame : p.SameCore p') :
    Receiving sends large got p' := by
  have hintact := h.intact.sameCore hsame
  rw [SameCore] at hsame
  refine ⟨hintact, h.sent, ?_, ?_, ?_⟩ <;> rw [hsame]
  · exact h.window
  · exact h.nothingSent
  · exact h.dispatched

theorem channel_of_mem (hsends : Deliverable sends) (hm₀ : m₀ ∈ sends.flatMap Send.messages) :
    m₀.channel = 0 ∨ m₀.channel = 1 := by
  obtain ⟨s, hs, hms⟩ := List.mem_flatMap.mp hm₀
  obtain ⟨parent, hblock⟩ := hsends.block s hs
  rw [(sendBlock_mem hblock hms).1]
  exact hsends.channel s hs

/-- The windows of seen ids after one more message was offered to its channel. -/
theorem window_set (h : Receiving sends large got p) (hsends : Deliverable sends)
    (hm₀ : m₀ ∈ sends.flatMap Send.messages) {ch : Channel}
    (hch : p.channels.get? m₀.channel = some ch) :
    ((ch.acceptsMessage m₀.id).1 = true ↔ m₀ ∉ got) ∧
      ∀ c ∈ p.channels.set m₀.channel (ch.acceptsMessage m₀.id).2, c.seenBuf.len = 10000 ∧
        c.seenBuf.Flat { id | ∃ m ∈ Set.insert m₀ got, m.channel = c.id ∧ m.id = id } := by
  have hid : ch.id = m₀.channel := ChannelList.id_of_get? hch
  obtain ⟨hlen, hflat⟩ := h.window ch (ChannelList.mem_of_get? hch)
  obtain ⟨hfst, hflat'⟩ := acceptUnseen_of_flat hflat (hlen ▸ hsends.toNat_id_lt hm₀)
  constructor
  · rw [Channel.acceptsMessage_fst, hfst, not_iff_not]
    constructor
    · rintro ⟨x, hx, -, hxid⟩
      exact hsends.eq_of_id (h.sent x hx) hm₀ hxid ▸ hx
    · exact fun hmem => ⟨m₀, hmem, hid.symm, rfl⟩
  · intro c hc
    obtain rfl | ⟨hold, hne⟩ := ChannelList.mem_set hc
    · rw [Channel.seenBuf_acceptsMessage, len_acceptUnseen, Channel.id_acceptsMessage]
      refine ⟨hlen, ?_⟩
      convert hflat' using 1
      ext id
      constructor
      · rintro ⟨x, rfl | hx, hxc, hxid⟩
        · exact Or.inl hxid.symm
        · exact Or.inr ⟨x, hx, hxc, hxid⟩
      · rintro (rfl | ⟨x, hx, hxc, hxid⟩)
        · exact ⟨m₀, Or.inl rfl, hid.symm, rfl⟩
        · exact ⟨x, Or.inr hx, hxc, hxid⟩
    · obtain ⟨hlenc, hflatc⟩ := h.window c hold
      refine ⟨hlenc, ?_⟩
      convert hflatc using 1
      ext id
      constructor
      · rintro ⟨x, rfl | hx, hxc, hxid⟩
        · exact absurd hxc.symm hne
        · exact ⟨x, hx, hxc, hxid⟩
      · rintro ⟨x, hx, hxc, hxid⟩
        exact ⟨x, Or.inr hx, hxc, hxid⟩

/-- **One message**: taken the first time, refused when it comes again. -/
theorem receiveMessage (h : Receiving sends large got p) (hsends : Deliverable sends)
    (hlarge : Deliverable.Large.Are large) (hm₀ : m₀ ∈ sends.flatMap Send.messages)
    (hm : m₀.Writes m.content) :
    ∃ p', p.receiveMessage m = .ok p' ∧ Receiving sends large (Set.insert m₀ got) p' ∧
      p'.receivedBuffer = p.receivedBuffer := by
  have hid : m.id = m₀.id := hm.1.symm
  have hchan : m.channel = m₀.channel := hm.2.1.symm
  obtain ⟨ch, hch⟩ := h.intact.exists_get? (channel_of_mem hsends hm₀)
  obtain ⟨hfst, hwindow⟩ := h.window_set hsends hm₀ hch
  have hsent : ∀ x ∈ Set.insert m₀ got, x ∈ sends.flatMap Send.messages := by
    rintro x (rfl | hx)
    · exact hm₀
    · exact h.sent x hx
  have hintact : ∀ {p'}, p.receiveMessage m = .ok p' → p'.Intact := fun hcall =>
    h.intact.receiveMessage hcall
  rw [Endpoint.receiveMessage, hchan, hid] at hintact ⊢
  simp only [hch] at hintact ⊢
  by_cases hnew : m₀ ∈ got
  · have hsame : Set.insert m₀ got = got := Set.insert_eq_of_mem hnew
    have hrefused : (ch.acceptsMessage m₀.id).1 = false :=
      Bool.eq_false_iff.mpr fun h' => hfst.mp h' hnew
    simp only [hrefused, Bool.false_eq_true, if_false] at hintact ⊢
    refine ⟨_, rfl, ⟨hintact rfl, hsent, hwindow, h.nothingSent, ?_⟩, rfl⟩
    rw [hsame]
    exact h.dispatched
  · obtain ⟨d', hd', hdispatched⟩ := h.dispatched.processReceivedMessage hsends hlarge hm₀ hnew hm
    simp only [hfst.mpr hnew, if_true, hd', Except.map] at hintact ⊢
    exact ⟨_, rfl, ⟨hintact rfl, hsent, hwindow, h.nothingSent, hdispatched⟩, rfl⟩

/-! ### One packet -/

/-- The messages of one packet, one after the other. -/
theorem processMessages (h : Receiving sends large got p) (hsends : Deliverable sends)
    (hlarge : Deliverable.Large.Are large) {ms : List Message}
    (hms : ∀ m ∈ ms, ∃ m₀ ∈ sends.flatMap Send.messages, m.Copies m₀) {fuel : ℕ}
    (hfuel : (ms.flatMap fun m => m.buffer.data).length < fuel) :
    ∃ p', processMessages fuel p (ms.flatMap fun m => m.buffer.data) = .ok (p', .ok ()) ∧
      Receiving sends large
        (got ∪ { m | m ∈ sends.flatMap Send.messages ∧ m.id ∈ ms.map Message.id }) p' ∧
      p'.receivedBuffer = p.receivedBuffer := by
  induction ms generalizing p got fuel with
  | nil =>
    obtain ⟨fuel, rfl⟩ := Nat.exists_eq_add_of_lt hfuel
    exact ⟨p, rfl, by simpa using h, rfl⟩
  | cons m ms ih =>
    obtain ⟨m₀, hm₀, hcopy⟩ := hms m (List.mem_cons_self ..)
    obtain ⟨c, hwrites, hwf, htrunc⟩ := hsends.exists_content hm₀
    obtain ⟨b, tail, hdata⟩ := hwrites.2.2.2.exists_data
    rw [List.flatMap_cons, hcopy.same.2.2.2] at hfuel ⊢
    obtain ⟨fuel, rfl⟩ : ∃ k, fuel = k + 1 := Nat.exists_eq_succ_of_ne_zero (by omega)
    obtain ⟨pool, m', hparse, rfl⟩ :=
      Message.parse_encodes p.overflowChecks p.pool hwf htrunc hwrites
      (ms.flatMap fun m => m.buffer.data)
    have hcore : Receiving sends large got { p with
        pool := pool
        stats := { p.stats with messagesReceived := p.stats.messagesReceived + 1 } } :=
      h.sameCore rfl
    obtain ⟨p₁, hcall, hreceiving, hbuffer⟩ := hcore.receiveMessage hsends hlarge hm₀ hwrites
    have hless : (ms.flatMap fun m => m.buffer.data).length < fuel := by
      rw [hdata, List.length_append, List.length_cons] at hfuel
      omega
    obtain ⟨p', hrest, hreceiving', hbuffer'⟩ :=
      ih hreceiving (fun x hx => hms x (List.mem_cons_of_mem _ hx))
      hless
    refine ⟨p', ?_, ?_, hbuffer'.trans hbuffer⟩
    · have hne : (m₀.buffer.data ++ ms.flatMap fun m => m.buffer.data).isEmpty = false := by
        rw [hdata]
        rfl
      simp only [Endpoint.processMessages, hne, Bool.false_eq_true, if_false, hparse, hcall]
      exact hrest
    · convert hreceiving' using 1
      ext x
      simp only [Set.mem_union, Set.mem_ofPred_eq, List.map_cons, List.mem_cons]
      constructor
      · rintro (hx | ⟨hx, hid | hid⟩)
        · exact Or.inl (Or.inr hx)
        · exact Or.inl (Or.inl (hsends.eq_of_id hx hm₀ (hid.trans hcopy.same.1)))
        · exact Or.inr ⟨hx, hid⟩
      · rintro ((rfl | hx) | ⟨hx, hid⟩)
        · exact Or.inr ⟨hm₀, Or.inl hcopy.same.1.symm⟩
        · exact Or.inl hx
        · exact Or.inr ⟨hx, Or.inr hid⟩

end Receiving

/-- Acks mean nothing to an endpoint that has sent nothing. -/
theorem processPacketAcksAndRtt_of_nothingSent {p : Endpoint} (h : ∀ id, p.sentBuffer.get id = none)
    (header : ProtocolPacketHeader) : p.processPacketAcksAndRtt header = .ok p := by
  have hack : ∀ acks, p.processAcks header.packetType acks = .ok p := by
    intro acks
    induction acks with
    | nil => rfl
    | cons ack rest ih =>
      have hone : p.processAck header.packetType ack = .ok p := by
        rw [processAck, h]
        split <;> rfl
      rw [processAcks, hone]
      exact ih
  have hloss : p.updatePacketLossCalculation = .ok p := by
    rw [updatePacketLossCalculation]
    simp only [lossScan, h, if_true]
  rw [processPacketAcksAndRtt]
  split
  · rfl
  · simp only [hack, hloss, ite_self]

/-- A packet is handed to the endpoint: `read_packet`, and `process_incoming_packet` with what it
returns. Errors of either call are dropped. -/
def deliver (p : Endpoint) (bytes : List UInt8) : Except Panic Endpoint :=
  match readPacket bytes with
  | .error _ => .ok p
  | .ok (packet, payload) => (p.processIncomingPacket packet.header payload).map Prod.fst

/-- Several packets, one after the other. -/
def deliverAll (p : Endpoint) (packets : List (List UInt8)) : Except Panic Endpoint :=
  packets.foldlM deliver p

/-- The messages on record that are in one of the packets `xs`. -/
def arrived (sends : List Send) (xs : List (ℕ × Emission)) : Set Message :=
  { m | m ∈ sends.flatMap Send.messages ∧ ∃ x ∈ xs, m.id ∈ x.2.messages.map Message.id }

/-- An endpoint after the packets `xs` were delivered. -/
structure Delivered (sends : List Send) (large : Deliverable.Large sends → LargeSend)
    (xs : List (ℕ × Emission)) (p : Endpoint) : Prop where
  receiving : Receiving sends large (arrived sends xs) p
  packets : p.receivedBuffer.Flat { id | ∃ x ∈ xs, id = UInt16.ofNat x.1 }

namespace Delivered

variable {sends : List Send} {large : Deliverable.Large sends → LargeSend}
  {xs log : List (ℕ × Emission)}
  {p sender : Endpoint} {n : ℕ}

theorem new (overflowChecks : Bool) (time : Time) (hsends : Deliverable sends) :
    Delivered sends large [] (Endpoint.new overflowChecks .default time) where
  receiving := by
    have hnone : arrived sends [] = ∅ := by simp [arrived]
    rw [hnone]
    exact .new overflowChecks time hsends
  packets := by
    have hnone : { id | ∃ x ∈ ([] : List (ℕ × Emission)), id = UInt16.ofNat x.1 } =
      (∅ : Set UInt16) := by
      simp
    rw [hnone]
    exact SequenceBuffer.flat_withCapacity (by decide) (by decide)

/-- **One packet.** -/
theorem deliver (h : Delivered sends large xs p) (hsends : Deliverable sends)
    (hlarge : Deliverable.Large.Are large)
    (hlog : Logged (sends.flatMap Send.messages) n log sender)
    (hn : n ≤ 511) (hxs : ∀ x ∈ xs, x ∈ log) {x : ℕ × Emission} (hx : x ∈ log) :
    ∃ p', p.deliver x.2.bytes = .ok p' ∧ Delivered sends large (xs ++ [x]) p' := by
  obtain ⟨header, hread, htype, hid⟩ := hlog.read x hx
  have hrange : ∀ y ∈ log, (UInt16.ofNat y.1).toNat = y.1 := by
    intro y hy
    have := (hlog.range y hy).2
    rw [UInt16.toNat_ofNat', Nat.mod_eq_of_lt (by omega)]
  have hlt : (UInt16.ofNat x.1).toNat < p.receivedBuffer.len := by
    have := (hlog.range x hx).2
    rw [h.receiving.intact.receivedLen, hrange x hx]
    omega
  have hcheck := h.packets.checkSequence hlt
  have hexists := h.packets.exists_iff _ hlt
  simp only [Endpoint.deliver, hread, ProtocolPacket.header, processIncomingPacket,
    hid, hcheck, Bool.not_true,
    Bool.false_eq_true, if_false]
  by_cases hdup : ∃ y ∈ xs, UInt16.ofNat x.1 = UInt16.ofNat y.1
  · -- Only the packet itself has its number.
    obtain ⟨y, hy, hnumber⟩ := hdup
    have hsame : x = y := by
      refine hlog.eq_of_number hx (hxs y hy) ?_
      rw [← hrange x hx, ← hrange y (hxs y hy), hnumber]
    have hold : x ∈ xs := hsame ▸ hy
    have hmem : ∀ z, z ∈ xs ++ [x] ↔ z ∈ xs := by
      intro z
      simp only [List.mem_append, List.mem_singleton, or_iff_left_iff_imp]
      rintro rfl
      exact hold
    simp only [hexists.mpr ⟨y, hy, hnumber⟩, if_true, Except.map]
    refine ⟨_, rfl, ?_, ?_⟩
    · simp only [arrived, hmem]
      exact h.receiving.sameCore rfl
    · simp only [hmem]
      exact h.packets
  · have hfresh : p.receivedBuffer.existsSequence (UInt16.ofNat x.1) = false :=
      Bool.eq_false_iff.mpr fun he => hdup (hexists.mp he)
    simp only [hfresh, Bool.false_eq_true, if_false, acceptPacket, hid]
    obtain ⟨b, hb⟩ := SequenceBuffer.exists_insert_of_checkSequence hcheck
      (⟨p.time, p.config.packetHeaderSize
        + (header.size + (x.2.messages.flatMap fun m => m.buffer.data).length)⟩ : ReceivedMeta)
    have hreceiving : Receiving sends large (arrived sends xs) { p with
        stats := { p.stats with packetsReceived := p.stats.packetsReceived + 1 }
        receivedBuffer := b } :=
      ⟨(h.receiving.intact.receivedBuffer hb).sameCore rfl, h.receiving.sent, h.receiving.window,
        h.receiving.nothingSent, h.receiving.dispatched⟩
    obtain ⟨p', hcall, hreceiving', hbuffer⟩ :=
      hreceiving.processMessages hsends hlarge (hlog.copies x hx)
      (Nat.lt_succ_self _)
    simp only [hb, processPacketAcksAndRtt_of_nothingSent hreceiving.nothingSent, htype, if_true,
      hcall, Except.map]
    refine ⟨p', rfl, ?_, ?_⟩
    · convert hreceiving' using 1
      ext m
      simp only [arrived, Set.mem_union, Set.mem_ofPred_eq, List.mem_append,
        List.mem_singleton, or_and_right,
        exists_or, exists_eq_left, and_or_left]
    · have hflat := h.packets.insert hlt hb
      rw [hbuffer]
      convert hflat using 1
      ext id
      simp only [Set.mem_ofPred_eq, List.mem_append, List.mem_singleton,
        or_and_right, exists_or, exists_eq_left]
      exact or_comm

/-- **Any packets.** -/
theorem deliverAll (h : Delivered sends large xs p) (hsends : Deliverable sends)
    (hlarge : Deliverable.Large.Are large)
    (hlog : Logged (sends.flatMap Send.messages) n log sender)
    (hn : n ≤ 511) (hxs : ∀ x ∈ xs, x ∈ log) {ys : List (ℕ × Emission)} (hys : ∀ y ∈ ys, y ∈ log) :
    ∃ p', p.deliverAll (ys.map fun y => y.2.bytes) = .ok p' ∧
      Delivered sends large (xs ++ ys) p' := by
  induction ys generalizing xs p with
  | nil => exact ⟨p, rfl, by simpa using h⟩
  | cons y ys ih =>
    have hy := hys y (List.mem_cons_self ..)
    obtain ⟨p₁, hcall, hdelivered⟩ := h.deliver hsends hlarge hlog hn hxs hy
    obtain ⟨p', hrest, hdelivered'⟩ := ih hdelivered
      (fun x hx => (List.mem_append.mp hx).elim (hxs x) fun hx => List.mem_singleton.mp hx ▸ hy)
      (fun z hz => hys z (List.mem_cons_of_mem _ hz))
    refine ⟨p', ?_, by simpa using hdelivered'⟩
    rw [List.map_cons, Endpoint.deliverAll, List.foldlM_cons, hcall]
    exact hrest

end Delivered

end Endpoint

/-! ### Any deliveries -/

namespace Journal

variable {overflowChecks : Bool} {time : Time} {calls : List Endpoint.Call} {j : Journal}

/-- Every message of the send is in one of the packets. -/
def Whole (j : Journal) (packets : List (List UInt8)) (s : Send) : Prop :=
  ∀ m ∈ s.messages, ∃ bytes ∈ packets, ∃ id, j.Carries bytes id m

open Classical in
/-- What the packets contain whole, on one channel. -/
noncomputable def contents (j : Journal) (packets : List (List UInt8)) (channel : UInt8) :
    Multiset (Option UInt8 × Option MessageId × List UInt8) :=
  (j.sends.filter fun s => s.channel = channel ∧ j.Whole packets s).map Send.summary

theorem contents_congr {packets packets' : List (List UInt8)}
    (h : ∀ bytes, bytes ∈ packets' ↔ bytes ∈ packets) (channel : UInt8) :
    j.contents packets' channel = j.contents packets channel := by
  have hwhole : ∀ s, j.Whole packets' s ↔ j.Whole packets s := fun s => by simp only [Whole, h]
  rw [contents, contents]
  congr 2
  exact List.filter_congr fun s _ => decide_eq_decide.mpr (and_congr_right fun _ => hwhole s)

theorem packetIds_le_of_step {j j' : Journal} {c : Endpoint.Call} (h : j.step c = .ok j') :
    j.packetIds ≤ j'.packetIds := by
  obtain ⟨p, -, rfl⟩ := exists_of_map_eq_ok h
  exact Nat.le_add_right ..

/-- The record of a short run is a true account. -/
theorem truthful_of_run (hrun : (start overflowChecks time).run calls = .ok j)
    (hpackets : j.packetIds ≤ 511)
    (hmessages : j.queued.length ≤ 10000) : ∃ log, j.Truthful log := by
  refine run_induct (I := fun j => ∃ log, j.Truthful log) ?_
    ⟨[], truthful_start overflowChecks time⟩ hrun
    hpackets hmessages
  rintro j j' c ⟨log, hlog⟩ hids - hstep
  have hle := packetIds_le_of_step hstep
  obtain ⟨log', hlog'⟩ := hlog.step (by omega) hstep
  exact ⟨log ++ log', hlog'⟩

theorem Truthful.deliverable {log : List (ℕ × Emission)} (h : j.Truthful log)
    (hmessages : j.queued.length ≤ 10000)
    (hpayloads : ∀ s ∈ j.sends, s.payload.length ≤ 255 * 1024) :
    Deliverable j.sends where
  numbered := h.logged.numbered
  length_le := hmessages
  channel := by
    intro s hs
    obtain ⟨-, parent, hblock⟩ := h.sends s hs
    obtain ⟨m, hm⟩ := List.exists_mem_of_ne_nil _ (Endpoint.SendBlock_ne_nil hblock)
    rw [← (Endpoint.sendBlock_mem hblock hm).1]
    exact (h.logged.sent m (List.mem_flatMap.mpr ⟨s, hs, hm⟩)).channel
  payload_le := hpayloads
  block := fun s hs => (h.sends s hs).2

/-- What has arrived whole is what the packets contain whole. -/
theorem Truthful.wholeIn_eq {log xs : List (ℕ × Emission)} (h : j.Truthful log)
    (hmessages : j.queued.length ≤ 10000) (hxs : ∀ x ∈ xs, x ∈ log) (channel : UInt8) :
    wholeIn j.sends (Endpoint.arrived j.sends xs) channel
      = j.contents (xs.map fun x => x.2.bytes) channel := by
  rw [wholeIn, contents]
  congr 2
  refine List.filter_congr fun s hs => decide_eq_decide.mpr (and_congr_right fun _ => ?_)
  refine forall₂_congr fun m hm => ?_
  have hqueued : m ∈ j.queued := List.mem_flatMap.mpr ⟨s, hs, hm⟩
  constructor
  · rintro ⟨-, x, hx, hmem⟩
    exact ⟨_, List.mem_map_of_mem hx, _,
      (h.logged.carries_iff (hmessages.trans (by norm_num)) (hxs x hx) hqueued).mpr ⟨rfl, hmem⟩⟩
  · rintro ⟨bytes, hbytes, id, hcarries⟩
    obtain ⟨x, hx, rfl⟩ := List.mem_map.mp hbytes
    exact ⟨hqueued, x, hx,
      ((h.logged.carries_iff (hmessages.trans (by norm_num)) (hxs x hx) hqueued).mp hcarries).2⟩

theorem Truthful.exists_deliverAll {log : List (ℕ × Emission)} (h : j.Truthful log)
    (hpackets : j.packetIds ≤ 511) (hmessages : j.queued.length ≤ 10000)
    (hpayloads : ∀ s ∈ j.sends, s.payload.length ≤ 255 * 1024) (overflowChecks : Bool) (time : Time)
    {packets : List (List UInt8)} (hsub : ∀ bytes ∈ packets, bytes ∈ j.packets) :
    ∃ p, (Endpoint.new overflowChecks .default time).deliverAll packets = .ok p ∧
      ∀ c, p.dispatcher.inbox c = j.contents packets c := by
  have hsends := h.deliverable hmessages hpayloads
  obtain ⟨large, hlarge⟩ := hsends.exists_large
  obtain ⟨xs, hxs, rfl⟩ : ∃ xs : List (ℕ × Emission), (∀ x ∈ xs, x ∈ log) ∧
      packets = xs.map fun x => x.2.bytes := by
    have hmem : ∀ bytes ∈ packets, ∃ x ∈ log, x.2.bytes = bytes := by
      intro bytes hbytes
      have hrecorded := hsub bytes hbytes
      rw [h.packets] at hrecorded
      exact List.mem_map.mp hrecorded
    clear hsub
    induction packets with
    | nil => exact ⟨[], by simp, rfl⟩
    | cons bytes packets ih =>
      obtain ⟨x, hx, rfl⟩ := hmem bytes (List.mem_cons_self ..)
      obtain ⟨xs, hxs, rfl⟩ := ih fun b hb => hmem b (List.mem_cons_of_mem _ hb)
      refine ⟨x :: xs, fun y hy => ?_, rfl⟩
      rcases List.mem_cons.mp hy with rfl | hy
      · exact hx
      · exact hxs y hy
  obtain ⟨p, hcall, hdelivered⟩ :=
    (Endpoint.Delivered.new overflowChecks time hsends).deliverAll hsends hlarge
    h.logged hpackets (by simp) hxs
  refine ⟨p, hcall, fun c => ?_⟩
  rw [List.nil_append] at hdelivered
  rw [hdelivered.receiving.dispatched.inbox, h.wholeIn_eq hmessages hxs]

/-- **Delivery order does not matter.** Take the packets of messages that a new endpoint has
composed, using up packet ids to at most 511 and message ids below 10000, for payloads of at most
255 fragments. Deliver any of them, in any order and with any repetitions, to a new endpoint. The
inboxes hold exactly the sends of which every message is in these packets, each once; so two series
with the same packets in them leave the same. -/
theorem deliverAll_contents (hrun : (start overflowChecks time).run calls = .ok j)
    (hpackets : j.packetIds ≤ 511) (hmessages : j.queued.length ≤ 10000)
    (hpayloads : ∀ s ∈ j.sends, s.payload.length ≤ 255 * 1024)
    (overflowChecks' : Bool) (time' : Time)
    {packets packets' : List (List UInt8)} (hsub : ∀ bytes ∈ packets, bytes ∈ j.packets)
    (hsame : ∀ bytes, bytes ∈ packets' ↔ bytes ∈ packets) :
    ∃ p p', (Endpoint.new overflowChecks' .default time').deliverAll packets = .ok p ∧
      (Endpoint.new overflowChecks' .default time').deliverAll packets' = .ok p' ∧
      (∀ channel, p.dispatcher.inbox channel = j.contents packets channel) ∧
      ∀ channel, p'.dispatcher.inbox channel = p.dispatcher.inbox channel := by
  obtain ⟨log, hlog⟩ := truthful_of_run hrun hpackets hmessages
  obtain ⟨p, hp, hinbox⟩ :=
    hlog.exists_deliverAll hpackets hmessages hpayloads overflowChecks' time' hsub
  obtain ⟨p', hp', hinbox'⟩ :=
    hlog.exists_deliverAll hpackets hmessages hpayloads overflowChecks' time'
    fun bytes hbytes => hsub bytes ((hsame bytes).mp hbytes)
  refine ⟨p, p', hp, hp', hinbox, fun channel => ?_⟩
  rw [hinbox', hinbox, contents_congr hsame]

/-- A message on each channel, the reliable one in two packets. -/
def resentSend : List Endpoint.Call := [
  .setXorSalt (some 7), .sendMessage 1 [3], .visitPacketsToSend, .update 1, .sendMessage 0 [4],
  .visitPacketsToSend]

/-- The two packets in reverse order, the second of them again at the end. -/
theorem deliverAll_contents_resent : ∃ j, (start true 0).run resentSend = .ok j ∧
    j.packets.length = 2 ∧
    ∃ p p', (Endpoint.new true .default 0).deliverAll j.packets = .ok p ∧
      (Endpoint.new true .default 0).deliverAll (j.packets.reverse ++ j.packets.drop 1) = .ok p' ∧
      (∀ channel, p.dispatcher.inbox channel = j.contents j.packets channel) ∧
      ∀ channel, p'.dispatcher.inbox channel = p.dispatcher.inbox channel := by
  obtain ⟨j, hrun, htest⟩ :=
    exists_of_any_toOption (show ((start true 0).run resentSend).toOption.any
    (fun j => decide (j.packetIds ≤ 511) && decide (j.queued.length ≤ 10000) &&
      decide (∀ s ∈ j.sends, s.payload.length ≤ 255 * 1024) && decide (j.packets.length = 2)) = true
    by decide +kernel)
  simp only [Bool.and_eq_true, decide_eq_true_eq] at htest
  obtain ⟨⟨⟨hpackets, hmessages⟩, hpayloads⟩, hlen⟩ := htest
  refine ⟨j, hrun, hlen, deliverAll_contents hrun hpackets hmessages hpayloads true 0
    (fun _ h => h) ?_⟩
  intro bytes
  rw [List.mem_append, List.mem_reverse, or_iff_left_iff_imp]
  exact List.mem_of_mem_drop

end Journal

end Pickleback
