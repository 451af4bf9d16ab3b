import Pickleback.Lib.Assembly
import Pickleback.Receipt

/-!
# What a receiver collects

A receiver puts a message into an inbox when all its fragments are there. Its windows of seen ids
see to it that no fragment counts twice, as long as no two messages share a slot: up to 10000 of
them. Then windows, reassembler and inboxes say the same as a set of parts that have arrived and a
list of messages that were handed over.

## Main definitions

* `InSequence` — calls whose messages have the ids from 0 on
* `Endpoint.Windows` — the windows have taken what has arrived, and nothing else
* `Endpoint.Collects` — an endpoint has received what a receiver of parts was handed

## Main results

* `MessageDispatcher.processReceivedMessage_new` — a message that is new
* `Endpoint.Collects.receiveMessage`, `Endpoint.Collects.processIncomingPacket` — one message, one
  packet
* `Endpoint.Windows.takesAll` — no message is refused that has not arrived before
-/

namespace Pickleback

/-! ### Calls with ids of their own -/

namespace SendCall

variable {s : SendCall} {c : MessageContent}

theorem length_contents (s : SendCall) : s.contents.length = numIds s.payload := by
  rw [contents, numIds]
  split
  · rfl
  · rw [List.length_map, List.length_range]

/-- The messages of a call have consecutive ids. -/
theorem map_id_contents (s : SendCall) :
    s.contents.map MessageContent.id = (List.range (numIds s.payload)).map fun i =>
      s.firstId + UInt16.ofNat i := by
  rw [contents, numIds]
  split
  · simp
  · rw [List.map_map]
    rfl

theorem numIds_pos (payload : List UInt8) : 0 < numIds payload := by
  rw [numIds]
  split
  · exact Nat.one_pos
  · exact lt_numFragments_iff.mpr (by omega)

/-- The first message of a call has its id. -/
theorem exists_first (s : SendCall) : ∃ c ∈ s.contents, c.id = s.firstId := by
  have hmem : s.firstId ∈ s.contents.map MessageContent.id := by
    rw [map_id_contents, List.mem_map]
    exact ⟨0, List.mem_range.mpr (numIds_pos s.payload), by simp⟩
  exact List.mem_map.mp hmem

theorem channel_of_mem (hc : c ∈ s.contents) : c.channel = s.channel := by
  rw [contents] at hc
  split at hc
  · rw [List.mem_singleton.mp hc]
  · obtain ⟨i, -, rfl⟩ := List.mem_map.mp hc
    rfl

end SendCall

/-- Calls whose messages have the ids from 0 on, in order, at most as many as a window of seen ids
has slots. -/
structure InSequence (calls : List SendCall) : Prop where
  ids : (calls.flatMap SendCall.contents).map MessageContent.id
    = (List.range (calls.flatMap SendCall.contents).length).map UInt16.ofNat
  length_le : (calls.flatMap SendCall.contents).length ≤ 10000
  regular : ∀ s ∈ calls, s.Regular
  channel : ∀ s ∈ calls, s.channel = 0 ∨ s.channel = 1

namespace InSequence

variable {calls : List SendCall} {s s' : SendCall} {c c' : MessageContent}

theorem nil : InSequence [] where
  ids := rfl
  length_le := Nat.zero_le _
  regular := by simp
  channel := by simp

/-- One more call. -/
theorem concat (h : InSequence calls)
    (hid : s.firstId = UInt16.ofNat (calls.flatMap SendCall.contents).length)
    (hroom : (calls.flatMap SendCall.contents).length + numIds s.payload ≤ 10000) (hs : s.Regular)
    (hchannel : s.channel = 0 ∨ s.channel = 1) : InSequence (calls ++ [s]) where
  ids := by
    rw [List.flatMap_append, List.flatMap_singleton, List.map_append,
      h.ids, SendCall.map_id_contents,
      List.length_append, SendCall.length_contents, List.range_add, List.map_append, List.map_map]
    congr 1
    refine List.map_congr_left fun i _ => ?_
    rw [hid, Function.comp_apply, UInt16.ofNat_add]
  length_le := by
    rw [List.flatMap_append, List.flatMap_singleton, List.length_append, SendCall.length_contents]
    exact hroom
  regular := by
    intro s' hs'
    rcases List.mem_append.mp hs' with hs' | hs'
    · exact h.regular s' hs'
    · exact List.mem_singleton.mp hs' ▸ hs
  channel := by
    intro s' hs'
    rcases List.mem_append.mp hs' with hs' | hs'
    · exact h.channel s' hs'
    · exact List.mem_singleton.mp hs' ▸ hchannel

theorem nodup_ids (h : InSequence calls) :
    ((calls.flatMap SendCall.contents).map MessageContent.id).Nodup := by
  have hle := h.length_le
  rw [h.ids]
  refine List.Nodup.map_on (fun i hi j hj heq => ?_) List.nodup_range
  rw [List.mem_range] at hi hj
  have := congrArg UInt16.toNat heq
  rwa [UInt16.toNat_ofNat', UInt16.toNat_ofNat', Nat.mod_eq_of_lt (by omega),
    Nat.mod_eq_of_lt (by omega)] at this

theorem toNat_id_lt (h : InSequence calls) (hs : s ∈ calls) (hc : c ∈ s.contents) :
    c.id.toNat < (calls.flatMap SendCall.contents).length := by
  have hle := h.length_le
  have hmem := List.mem_map_of_mem (f := MessageContent.id) (List.mem_flatMap.mpr ⟨s, hs, hc⟩)
  rw [h.ids] at hmem
  obtain ⟨i, hi, hid⟩ := List.mem_map.mp hmem
  rw [List.mem_range] at hi
  rw [← hid, UInt16.toNat_ofNat', Nat.mod_eq_of_lt (by omega)]
  exact hi

theorem eq_of_id (h : InSequence calls) (hs : s ∈ calls) (hs' : s' ∈ calls) (hc : c ∈ s.contents)
    (hc' : c' ∈ s'.contents) (hid : c.id = c'.id) : c = c' :=
  List.inj_on_of_nodup_map h.nodup_ids (List.mem_flatMap.mpr ⟨s, hs, hc⟩)
    (List.mem_flatMap.mpr ⟨s', hs', hc'⟩) hid

/-- No message is one of two calls. -/
theorem cut (h : InSequence calls) : Assembly.Cut SendCall.contents calls where
  nodup := h.nodup_ids.of_map
  nonempty := by
    intro s _ hnil
    obtain ⟨c, hc, -⟩ := s.exists_first
    rw [hnil] at hc
    cases hc

theorem eq_of_firstId (h : InSequence calls) (hs : s ∈ calls) (hs' : s' ∈ calls)
    (hid : s.firstId = s'.firstId) :
    s = s' := by
  obtain ⟨c, hc, hcid⟩ := s.exists_first
  obtain ⟨c', hc', hcid'⟩ := s'.exists_first
  obtain rfl := h.eq_of_id hs hs' hc hc' (by rw [hcid, hcid', hid])
  exact h.cut.eq_of_mem hs hs' hc hc'

/-- Every call is the last with its id. -/
theorem newestCall_eq (h : InSequence calls) (hs : s ∈ calls) :
    newestCall calls s.firstId = some s := by
  cases hnewest : newestCall calls s.firstId with
  | none =>
    have hnone := List.find?_eq_none.mp hnewest s (List.mem_reverse.mpr hs)
    exact absurd (beq_self_eq_true s.firstId) hnone
  | some s' => rw [h.eq_of_firstId (mem_of_newestCall hnewest) hs (firstId_of_newestCall hnewest)]

end InSequence

/-! ### One fragment, one message -/

namespace MessageReassembler

variable {r r' : MessageReassembler} {m : Message} {f : Fragment}

/-- **A fragment that is new** is held, and one is still missing; or none is, and all that was held
is given back. -/
theorem Placed.held_addFragment (h : r.Placed) (hf : m.fragment = some f)
    (htwo : 2 ≤ f.numFragments.toNat)
    (hmax : f.numFragments.toNat ≤ maxFragments) (hindex : f.index < f.numFragments)
    (hsame : ∀ inc, r.inProgress f.parentId = some inc → inc.numFragments = f.numFragments)
    (hnew : ∀ x ∈ r.held f.parentId, x.fragment ≠ some f) {out : Option ReceivedMessage}
    (hadd : r.addFragment m = .ok (out, r')) :
    (out = none ∧ (∀ x, x ∈ r'.held f.parentId ↔ x ∈ r.held f.parentId ∨ x = m) ∧
        ∃ i < f.numFragments.toNat, ∀ x ∈ r'.held f.parentId,
          x.fragment ≠ some ⟨UInt16.ofNat i, f.numFragments, f.parentId⟩) ∨
      (out.isSome = true ∧ r'.held f.parentId = [] ∧ ∀ i < f.numFragments.toNat,
        ∃ x, (x ∈ r.held f.parentId ∨ x = m) ∧ x.fragment = some
        ⟨UInt16.ofNat i, f.numFragments, f.parentId⟩) := by
  obtain ⟨hlen, hold⟩ := h.slots hsame
  obtain ⟨hplaced, hfrom, -⟩ := h.addFragment hf htwo hmax hindex hsame hadd
  obtain ⟨-, hkept⟩ := h.keeps_addFragment hf htwo hmax hindex hsame hadd
  rw [maxFragments] at hmax
  have hlt : f.index.toNat < (r.slots f.parentId f.numFragments).length := by
    rw [hlen]
    exact UInt16.lt_iff_toNat_lt.mp hindex
  obtain ⟨hsome, -⟩ | ⟨hnone, ⟨inc, hinc, hnum, hset, hspec⟩ | ⟨ms, hset, hspec⟩⟩ :=
    addFragment_spec h.consistent hf htwo hmax hindex hsame
  · -- the place cannot be taken
    obtain ⟨x, hx⟩ := Option.isSome_iff_exists.mp hsome
    rw [List.getD_eq_getElem?_getD, List.getElem?_eq_getElem hlt, Option.getD_some] at hx
    obtain ⟨hheld, hfragment⟩ := hold f.index.toNat x (by rw [List.getElem?_eq_getElem hlt, hx])
    rw [UInt16.ofNat_toNat] at hfragment
    exact absurd hfragment (hnew x hheld)
  · cases hadd.symm.trans hspec
    refine Or.inl ⟨rfl, fun x => ⟨fun hx => ?_, ?_⟩, ?_⟩
    · exact (hfrom _ x hx).imp_right And.right
    · rintro (hx | rfl)
      · exact (hkept rfl).1 x hx
      · refine mem_held_iff.mpr ⟨inc, inProgress_setSlots_self .., ?_⟩
        rw [hset]
        exact List.mem_set hlt _
    · -- one place is empty
      obtain ⟨o, ho, hempty⟩ : ∃ o ∈ inc.fragments, ¬ o.isSome = true := by
        by_contra hall
        push Not at hall
        exact absurd (List.countP_eq_length.mpr hall) hinc.missing.ne
      obtain ⟨i, hi, rfl⟩ := List.mem_iff_getElem.mp ho
      have hn : inc.fragments.length = f.numFragments.toNat := by rw [hinc.length, hnum]
      refine ⟨i, hn ▸ hi, fun x hx hfragment => ?_⟩
      obtain ⟨inc', hget, hmem⟩ := mem_held_iff.mp hx
      rw [inProgress_setSlots_self, Option.some.injEq] at hget
      subst hget
      obtain ⟨j, hj⟩ := List.mem_iff_getElem?.mp hmem
      have hjlt := (List.getElem?_eq_some_iff.mp hj).1
      have hplace := hplaced.place f.parentId inc (inProgress_setSlots_self ..) j x hj
      rw [hfragment, Option.some.injEq, Fragment.mk.injEq] at hplace
      have hij := congrArg UInt16.toNat hplace.1
      rw [UInt16.toNat_ofNat', UInt16.toNat_ofNat', Nat.mod_eq_of_lt (by omega),
        Nat.mod_eq_of_lt (by omega)] at hij
      subst hij
      rw [List.getElem?_eq_getElem hi, Option.some.injEq] at hj
      rw [hj] at hempty
      exact hempty rfl
  · cases hadd.symm.trans hspec
    refine Or.inr ⟨rfl, ?_, fun i hi => ?_⟩
    · rw [held, inProgress_setSlots_self]
    · have hilt : i < ms.length := by
        rw [← List.length_map (f := some), ← hset, List.length_set, hlen]
        exact hi
      have hget : ((r.slots f.parentId f.numFragments).set f.index.toNat (some m))[i]? =
        some (some ms[i]) := by
        rw [hset, List.getElem?_map, List.getElem?_eq_getElem hilt, Option.map_some]
      refine ⟨ms[i], ?_⟩
      rw [List.getElem?_set] at hget
      split at hget
      · next heq =>
        rw [Option.some.injEq, Option.some.injEq] at hget
        refine ⟨Or.inr hget.symm, ?_⟩
        rw [← hget, hf, ← heq, UInt16.ofNat_toNat]
      · exact ⟨Or.inl (hold i _ hget).1, (hold i _ hget).2⟩

end MessageReassembler

/-- All fragments of a large call are held, or can be told from those that are. -/
theorem SendCall.exists_fragment {s : SendCall} (hlarge : 1024 < s.payload.length)
    {c : MessageContent}
    (hc : c ∈ s.contents) : ∃ i < numFragments s.payload,
      c.fragment = some ⟨UInt16.ofNat i, UInt16.ofNat (numFragments s.payload), s.firstId⟩ := by
  rw [contents, if_neg (Nat.not_le.mpr hlarge)] at hc
  obtain ⟨i, hi, rfl⟩ := List.mem_map.mp hc
  exact ⟨i, List.mem_range.mp hi, rfl⟩

namespace MessageDispatcher

variable {d d' : MessageDispatcher} {m : Message}

/-- **A message that is new.** The whole of its call is put into the inbox, and nothing of it is
held any more; or it is held, and something of the call is missing still. -/
theorem processReceivedMessage_new (h : d.messageReassembler.Placed) {s : SendCall} (hs : s.Regular)
    (hm : m.content ∈ s.contents) (hwf : m.content.WellFormed)
    (hheld : ∀ x ∈ d.messageReassembler.held s.firstId, x.content ∈ s.contents)
    (hnew : ∀ x ∈ d.messageReassembler.held s.firstId, x.content ≠ m.content)
    (hcall : d.processReceivedMessage m = .ok d') :
    d'.messageReassembler.Placed ∧
      (∀ parent, parent ≠ s.firstId → d'.messageReassembler.held parent =
        d.messageReassembler.held parent) ∧
      (((∃ msg, s.Is msg ∧ d'.messageInbox
            = Function.update d.messageInbox s.channel (d.messageInbox s.channel ++ [msg])) ∧
          d'.messageReassembler.held s.firstId = [] ∧
          ∀ c ∈ s.contents, c = m.content ∨ ∃ x ∈ d.messageReassembler.held s.firstId,
            x.content = c) ∨
        (d'.messageInbox = d.messageInbox ∧
          (∀ x, x ∈ d'.messageReassembler.held s.firstId ↔ x ∈ d.messageReassembler.held s.firstId ∨
            x = m) ∧
          ∃ c ∈ s.contents, ∀ x ∈ d'.messageReassembler.held s.firstId, x.content ≠ c)) := by
  obtain ⟨hplaced, -, hputs⟩ := processReceivedMessage_of_call h hs hm hwf (fun _ => hheld) hcall
  refine ⟨hplaced, ?_⟩
  rw [MessageDispatcher.processReceivedMessage] at hcall
  cases hf : m.fragment with
  | none =>
    have his := SendCall.is_single hm hf
    -- a call without fragments is one message
    have hone : ∀ c ∈ s.contents, c = m.content := by
      intro c hc
      rcases Nat.lt_or_ge 1024 s.payload.length with hlarge | hsmall
      · obtain ⟨i, -, hfrag⟩ := SendCall.exists_fragment hlarge hm
        cases hf.symm.trans hfrag
      · rw [SendCall.contents, if_pos hsmall] at hc hm
        rw [List.mem_singleton.mp hc, List.mem_singleton.mp hm]
    have hempty : d.messageReassembler.held s.firstId = [] := by
      refine List.eq_nil_iff_forall_not_mem.mpr fun x hx => hnew x hx (hone _ (hheld x hx))
    rw [hf] at hcall
    simp only [Option.isNone_none, if_true, MessageDispatcher.pushInbox, his.channel] at hcall
    cases hcall
    exact ⟨fun _ _ => rfl, Or.inl ⟨⟨_, his, rfl⟩, hempty, fun c hc => Or.inl (hone c hc)⟩⟩
  | some f =>
    obtain ⟨hindex, htwo, hmax, -, -⟩ := hwf.fragment f hf
    obtain ⟨hlarge, i₀, hi₀, heq, -⟩ := SendCall.of_fragment hm hf
    have hparent : f.parentId = s.firstId := congrArg Fragment.parentId heq
    have hnum : f.numFragments = UInt16.ofNat (numFragments s.payload) :=
      congrArg Fragment.numFragments heq
    have htoNat : f.numFragments.toNat = numFragments s.payload := by
      have hmax := numFragments_le hs.payload
      rw [hnum, UInt16.toNat_ofNat', Nat.mod_eq_of_lt (by omega)]
    have hsame : ∀ inc, d.messageReassembler.inProgress f.parentId = some inc →
        inc.numFragments = f.numFragments := by
      intro inc hget
      obtain ⟨x, hx⟩ := List.exists_mem_of_ne_nil _ (h.nonempty _ inc hget)
      obtain ⟨inc', hget', hmem⟩ := MessageReassembler.mem_held_iff.mp hx
      obtain rfl : inc = inc' := Option.some.inj (hget.symm.trans hget')
      obtain ⟨i, hi⟩ := List.mem_iff_getElem?.mp hmem
      obtain ⟨-, _, -, heq', -⟩ :=
        SendCall.of_fragment (hheld x (hparent ▸ hx)) (h.place _ _ hget i x hi)
      exact (congrArg Fragment.numFragments heq').trans hnum.symm
    have hfresh : ∀ x ∈ d.messageReassembler.held f.parentId, x.fragment ≠ some f := by
      intro x hx hxf
      rw [hparent] at hx
      exact hnew x hx (SendCall.eq_of_fragment hs (hheld x hx) hm hxf hf)
    rw [hf] at hcall
    simp only [Option.isNone_some, Bool.false_eq_true, if_false] at hcall
    split at hcall
    · cases hcall
    · next r hadd =>
      cases hcall
      have hothers := (h.keeps_addFragment hf htwo hmax hindex hsame hadd).1
      obtain ⟨-, hmem, i, hi, hmissing⟩ | ⟨hsome, -⟩ :=
        h.held_addFragment hf htwo hmax hindex hsame hfresh hadd
      · rw [hparent] at hothers hmem hmissing
        refine ⟨hothers, Or.inr ⟨rfl, hmem, ?_⟩⟩
        rw [htoNat] at hi
        have hc : (⟨s.firstId + UInt16.ofNat i, s.channel, chunk s.payload i,
            some ⟨UInt16.ofNat i, UInt16.ofNat (numFragments s.payload), s.firstId⟩⟩ :
              MessageContent)
          ∈ s.contents := by
          rw [SendCall.contents, if_neg (Nat.not_le.mpr hlarge)]
          exact List.mem_map_of_mem (List.mem_range.mpr hi)
        refine ⟨_, hc, fun x hx hxc => hmissing x hx ?_⟩
        rw [hnum]
        exact congrArg MessageContent.fragment hxc
      · cases hsome
    · next received r hadd =>
      have hothers := (h.keeps_addFragment hf htwo hmax hindex hsame hadd).1
      obtain ⟨hnone, -⟩ | ⟨-, hempty, hall⟩ :=
        h.held_addFragment hf htwo hmax hindex hsame hfresh hadd
      · cases hnone
      · rw [hparent] at hothers hempty hall
        have hreassembler : d'.messageReassembler = r := by
          rw [MessageDispatcher.pushInbox] at hcall
          split at hcall
          · cases hcall
          · cases hcall
            rfl
        rw [hreassembler] at hputs ⊢
        refine ⟨hothers, Or.inl ?_⟩
        obtain ⟨hinbox, -⟩ | ⟨-, -, x, hx, -⟩ := hputs
        · refine ⟨hinbox, hempty, fun c hc => ?_⟩
          obtain ⟨i, hi, hfragment⟩ := SendCall.exists_fragment hlarge hc
          obtain ⟨x, hx, hxf⟩ := hall i (htoNat ▸ hi)
          rw [hnum] at hxf
          rcases hx with hx | rfl
          · exact Or.inr ⟨x, hx, SendCall.eq_of_fragment hs (hheld x hx) hc hxf hfragment⟩
          · exact Or.inl (SendCall.eq_of_fragment hs hc hm hfragment hxf)
        · rw [hempty] at hx
          cases hx

end MessageDispatcher

/-! ### What a receiver has collected -/

namespace Endpoint

open Assembly

/-- The windows of the two channels have taken what has arrived, and nothing else. -/
def Windows (window : UInt8 → Option (SequenceBuffer Bool)) (got : Set MessageContent) : Prop :=
  ∀ channel, channel = 0 ∨ channel = 1 → ∃ b, window channel = some b ∧ b.len = 10000 ∧
    b.Flat { id | ∃ c ∈ got, c.channel = channel ∧ c.id = id }

/-- **A message is offered to its window**, which takes it if and only if it is new. -/
theorem Windows.accept {window : UInt8 → Option (SequenceBuffer Bool)} {got : Set MessageContent}
    (h : Windows window got) {calls : List SendCall} (hcalls : InSequence calls)
    (hsent : ∀ c ∈ got, ∃ s ∈ calls, c ∈ s.contents) {s : SendCall}
    (hs : s ∈ calls) {c : MessageContent}
    (hc : c ∈ s.contents) : ∃ b, window c.channel = some b ∧
      ((acceptUnseen b c.id).1 = true ↔ c ∉ got) ∧
      Windows (Function.update window c.channel (some (acceptUnseen b c.id).2)) (insert c got) := by
  have hchannel : c.channel = 0 ∨ c.channel = 1 := SendCall.channel_of_mem hc ▸ hcalls.channel s hs
  obtain ⟨b, hb, hlen, hflat⟩ := h c.channel hchannel
  have hlt : c.id.toNat < b.len := hlen ▸ (hcalls.toNat_id_lt hs hc).trans_le hcalls.length_le
  obtain ⟨hfst, hflat'⟩ := acceptUnseen_of_flat hflat hlt
  refine ⟨b, hb, hfst.trans (not_congr ?_), fun channel hch => ?_⟩
  · constructor
    · rintro ⟨c', hc', -, hid⟩
      obtain ⟨s', hs', hmem⟩ := hsent c' hc'
      exact hcalls.eq_of_id hs' hs hmem hc hid ▸ hc'
    · exact fun hmem => ⟨c, hmem, rfl, rfl⟩
  · by_cases heq : channel = c.channel
    · subst heq
      refine ⟨_, Function.update_self .., len_acceptUnseen.trans hlen, ?_⟩
      convert hflat' using 1
      ext id
      constructor
      · rintro ⟨x, rfl | hx, hxc, hxid⟩
        · exact Or.inl hxid.symm
        · exact Or.inr ⟨x, hx, hxc, hxid⟩
      · rintro (rfl | ⟨x, hx, hxc, hxid⟩)
        · exact ⟨c, Or.inl rfl, rfl, rfl⟩
        · exact ⟨x, Or.inr hx, hxc, hxid⟩
    · obtain ⟨b', hb', hlen', hold⟩ := h channel hch
      refine ⟨b', by rw [Function.update_of_ne heq]; exact hb', hlen', ?_⟩
      convert hold using 1
      ext id
      constructor
      · rintro ⟨x, rfl | hx, hxc, hxid⟩
        · exact absurd hxc.symm heq
        · exact ⟨x, hx, hxc, hxid⟩
      · rintro ⟨x, hx, hxc, hxid⟩
        exact ⟨x, Or.inr hx, hxc, hxid⟩

/-- The endpoint has received what the receiver `r` has been handed, of the messages of `calls`. -/
structure Collects (p : Endpoint) (calls : List SendCall) (r : Receiver SendCall MessageContent) :
    Prop where
  placed : p.dispatcher.messageReassembler.Placed
  windows : Windows p.channels.window r.got
  sound : r.Sound SendCall.contents calls
  sent : ∀ c ∈ r.got, ∃ s ∈ calls, c ∈ s.contents
  held : ∀ parent c, (∃ m ∈ p.dispatcher.messageReassembler.held parent, m.content = c) ↔
    ∃ s ∈ calls, s.firstId = parent ∧ c ∈ s.contents ∧ c ∈ r.got ∧ ¬ Whole SendCall.contents r.got s
  inbox : ∀ channel, List.Forall₂ SendCall.Is (r.out.filter fun s => s.channel = channel)
    (p.dispatcher.messageInbox channel)

variable {p p' : Endpoint} {calls : List SendCall} {r : Receiver SendCall MessageContent}

/-- Windows, inboxes and reassembler are as they were. -/
theorem Collects.transfer (h : p.Collects calls r)
    (hwindow : p'.channels.window = p.channels.window)
    (hinbox : p'.dispatcher.messageInbox = p.dispatcher.messageInbox)
    (hreassembler : p'.dispatcher.messageReassembler = p.dispatcher.messageReassembler) :
    p'.Collects calls r where
  placed := hreassembler ▸ h.placed
  windows := hwindow ▸ h.windows
  sound := h.sound
  sent := h.sent
  held := by
    rw [hreassembler]
    exact h.held
  inbox := by
    rw [hinbox]
    exact h.inbox

/-- What is held of a call that the sender has made. -/
theorem Collects.mem_held_iff (h : p.Collects calls r) (hcalls : InSequence calls)
    {s : SendCall} (hs : s ∈ calls)
    {c : MessageContent} : (∃ m ∈ p.dispatcher.messageReassembler.held s.firstId, m.content = c) ↔
      c ∈ s.contents ∧ c ∈ r.got ∧ ¬ Whole SendCall.contents r.got s := by
  rw [h.held]
  constructor
  · rintro ⟨s', hs', hid, hrest⟩
    exact hcalls.eq_of_firstId hs' hs hid ▸ hrest
  · exact fun hrest => ⟨s, hs, rfl, hrest⟩

/-- A part of one call makes no difference to the others. -/
theorem held_insert_iff (hcalls : InSequence calls) {got : Set MessageContent}
    {s : SendCall} (hs : s ∈ calls)
    {c₀ : MessageContent} (hc₀ : c₀ ∈ s.contents) {parent : MessageId}
    (hparent : parent ≠ s.firstId)
    (c : MessageContent) :
    (∃ s' ∈ calls, s'.firstId = parent ∧ c ∈ s'.contents ∧ c ∈ insert c₀ got ∧
        ¬ Whole SendCall.contents (insert c₀ got) s') ↔
      ∃ s' ∈ calls, s'.firstId = parent ∧ c ∈ s'.contents ∧ c ∈ got ∧
        ¬ Whole SendCall.contents got s' := by
  refine exists_congr fun s' => and_congr_right fun hs' => and_congr_right fun hid =>
    and_congr_right fun hc => ?_
  have hne : s' ≠ s := by
    rintro rfl
    exact hparent hid.symm
  rw [hcalls.cut.whole_insert_iff hs hc₀ hs' hne]
  refine and_congr_left fun _ => ⟨fun hmem => hmem.resolve_left ?_, Or.inr⟩
  rintro rfl
  exact hne (hcalls.cut.eq_of_mem hs' hs hc hc₀)

/-- **One message** is received, for the first time or again. -/
theorem Collects.receiveMessage (h : p.Collects calls r) (hcalls : InSequence calls)
    {s : SendCall} (hs : s ∈ calls)
    {m : Message} (hm : m.content ∈ s.contents) (hwf : m.content.WellFormed)
    (hcall : p.receiveMessage m = .ok p') :
    p'.Collects calls (r.take SendCall.contents s m.content) := by
  obtain ⟨b, hb, hfst, hwindows⟩ := h.windows.accept hcalls h.sent hs hm
  have hgot := Receiver.got_take SendCall.contents r s m.content
  have hwindow : ∀ {ch : Channel}, p.channels.get? m.channel = some ch →
      p'.channels = p.channels.set m.channel (ch.acceptsMessage m.id).2 →
      ((ch.acceptsMessage m.id).1 = true ↔ m.content ∉ r.got) ∧
        Windows p'.channels.window (insert m.content r.got) := by
    intro ch hch hchannels
    obtain rfl : ch.seenBuf = b :=
      Option.some.inj ((congrArg (Option.map Channel.seenBuf) hch).symm.trans hb)
    rw [hchannels, ChannelList.window_set hch, Channel.acceptsMessage_fst]
    exact ⟨hfst, hwindows⟩
  have hsent : ∀ c ∈ (r.take SendCall.contents s m.content).got, ∃ s ∈ calls, c ∈ s.contents := by
    rw [hgot]
    rintro c (rfl | hc)
    · exact ⟨s, hs, hm⟩
    · exact h.sent c hc
  have hsound := h.sound.take hcalls.cut hs hm
  obtain ⟨hp', ⟨hnone, -⟩ | ⟨ch, hch, hrefused, hchannels⟩⟩ | ⟨ch, hch, haccepted, hchannels, hd⟩ :=
    receiveMessage_cases hcall
  · have hwindow : p.channels.window m.content.channel = none :=
      congrArg (Option.map Channel.seenBuf) hnone
    cases hwindow.symm.trans hb
  · -- it has arrived before
    obtain ⟨hiff, hwindows'⟩ := hwindow hch hchannels
    have hold : m.content ∈ r.got := by
      by_contra hnew
      rw [hiff.mpr hnew] at hrefused
      cases hrefused
    rw [Set.insert_eq_of_mem hold] at hwindows'
    rw [Receiver.take_of_mem hold]
    refine ⟨by rw [hp']; exact h.placed, hwindows', h.sound, h.sent, by rw [hp']; exact h.held,
      by rw [hp']; exact h.inbox⟩
  · obtain ⟨hiff, hwindows'⟩ := hwindow hch hchannels
    have hnew : m.content ∉ r.got := hiff.mp haccepted
    have hnot : ¬ Whole SendCall.contents r.got s := fun hwhole => hnew (hwhole _ hm)
    have hheld : ∀ c, (∃ x ∈ p.dispatcher.messageReassembler.held s.firstId, x.content = c) ↔
        c ∈ s.contents ∧ c ∈ r.got := by
      intro c
      rw [h.mem_held_iff hcalls hs, and_iff_left hnot]
    obtain ⟨hplaced, hothers, hputs⟩ :=
      MessageDispatcher.processReceivedMessage_new h.placed (hcalls.regular s hs) hm
      hwf (fun x hx => ((hheld _).mp ⟨x, hx, rfl⟩).1)
        (fun x hx heq => hnew ((hheld _).mp ⟨x, hx, heq⟩).2) hd
    -- what is held under other ids
    have helsewhere : ∀ parent, parent ≠ s.firstId → ∀ c,
        (∃ x ∈ p'.dispatcher.messageReassembler.held parent, x.content = c) ↔
          ∃ s' ∈ calls, s'.firstId = parent ∧
          c ∈ s'.contents ∧ c ∈ insert m.content r.got ∧
            ¬ Whole SendCall.contents (insert m.content r.got) s' := by
      intro parent hparent c
      rw [hothers parent hparent, h.held, held_insert_iff hcalls hs hm hparent]
    obtain ⟨⟨msg, his, hinbox⟩, hempty, hall⟩ | ⟨hinbox, hmem, c₁, hc₁, hmissing⟩ := hputs
    · have hwhole : Whole SendCall.contents (insert m.content r.got) s := by
        intro c hc
        rcases hall c hc with rfl | hx
        · exact Or.inl rfl
        · exact Or.inr ((hheld c).mp hx).2
      rw [Receiver.take_of_whole hnew hwhole] at hsound hsent ⊢
      refine ⟨hplaced, hwindows', hsound, hsent, fun parent c => ?_, fun channel => ?_⟩
      · by_cases hparent : parent = s.firstId
        · subst hparent
          rw [hempty]
          refine iff_of_false (by simp) ?_
          rintro ⟨s', hs', hid, -, -, hnot'⟩
          exact hnot' (hcalls.eq_of_firstId hs' hs hid ▸ hwhole)
        · exact helsewhere parent hparent c
      · rw [List.filter_append, hinbox]
        by_cases hchannel : channel = s.channel
        · subst hchannel
          rw [Function.update_self, List.filter_cons_of_pos (by simp), List.filter_nil]
          exact List.rel_append (h.inbox _) (.cons his .nil)
        · rw [Function.update_of_ne hchannel,
            List.filter_cons_of_neg (by simpa using Ne.symm hchannel),
            List.filter_nil, List.append_nil]
          exact h.inbox channel
    · have hincomplete : ¬ Whole SendCall.contents (insert m.content r.got) s := by
        intro hwhole
        rcases hwhole c₁ hc₁ with rfl | hgot₁
        · exact hmissing m ((hmem m).mpr (Or.inr rfl)) rfl
        · obtain ⟨x, hx, hxc⟩ := (hheld c₁).mpr ⟨hc₁, hgot₁⟩
          exact hmissing x ((hmem x).mpr (Or.inl hx)) hxc
      rw [Receiver.take_of_not_whole hnew hincomplete] at hsound hsent ⊢
      refine ⟨hplaced, hwindows', hsound, hsent, fun parent c => ?_, fun channel => ?_⟩
      · by_cases hparent : parent = s.firstId
        · subst hparent
          constructor
          · rintro ⟨x, hx, rfl⟩
            refine ⟨s, hs, rfl, ?_⟩
            rcases (hmem x).mp hx with hx | rfl
            · obtain ⟨hc, hgot'⟩ := (hheld _).mp ⟨x, hx, rfl⟩
              exact ⟨hc, Or.inr hgot', hincomplete⟩
            · exact ⟨hm, Or.inl rfl, hincomplete⟩
          · rintro ⟨s', hs', hid, hc, hgot', -⟩
            obtain rfl := hcalls.eq_of_firstId hs' hs hid
            rcases hgot' with rfl | hgot'
            · exact ⟨m, (hmem m).mpr (Or.inr rfl), rfl⟩
            · obtain ⟨x, hx, hxc⟩ := (hheld c).mpr ⟨hc, hgot'⟩
              exact ⟨x, (hmem x).mpr (Or.inl hx), hxc⟩
        · exact helsewhere parent hparent c
      · rw [hinbox]
        exact h.inbox channel

/-- **A packet** hands its messages to the receiver, one after the other, if it is accepted. -/
theorem Collects.processIncomingPacket (h : p.Collects calls r)
    (hintact : p.Intact) (hcalls : InSequence calls)
    {cs : List MessageContent} (hsent : ∀ c ∈ cs, ∃ s ∈ calls, c ∈ s.contents)
    {header : ProtocolPacketHeader}
    {payload : List UInt8} (hcs : header.packetType ≠ .messages → cs = [])
    (hmessages : header.packetType = .messages → ∃ ms : List Message,
      List.Forall₂ (fun (m : Message) c => m.Writes c ∧ c.WellFormed ∧ ¬ c.Truncated) ms cs ∧
        payload = ms.flatMap fun m => m.buffer.data) {res : Except PicklebackError Unit}
    (hcall : p.processIncomingPacket header payload = .ok (p', res)) :
    ∃ xs : List (SendCall × MessageContent), (∀ x ∈ xs, x.1 ∈ calls ∧ x.2 ∈ x.1.contents) ∧
      xs.map Prod.snd = (if p.accepts header = true then cs else []) ∧
        p'.Collects calls (r.takeAll SendCall.contents xs) := by
  by_cases haccepts : p.accepts header = true
  · rw [if_pos haccepts]
    -- the calls that the messages are of
    obtain ⟨xs, hxs, hmap⟩ : ∃ xs : List (SendCall × MessageContent),
      (∀ x ∈ xs, x.1 ∈ calls ∧ x.2 ∈ x.1.contents) ∧
        xs.map Prod.snd = cs := by
      clear hcs hmessages
      induction cs with
      | nil => exact ⟨[], by simp, rfl⟩
      | cons c cs ih =>
        obtain ⟨⟨s, hs, hc⟩, hrest⟩ := List.forall_mem_cons.mp hsent
        obtain ⟨xs, hxs, hmap⟩ := ih hrest
        exact ⟨(s, c) :: xs, List.forall_mem_cons.mpr ⟨⟨hs, hc⟩, hxs⟩, by rw [List.map_cons, hmap]⟩
    refine ⟨xs, hxs, hmap, ?_⟩
    rw [accepts, Bool.and_eq_true, Bool.not_eq_true'] at haccepts
    obtain ⟨q, ⟨-, hq⟩, ⟨htype, hprocess⟩ | ⟨hother, rfl⟩⟩ := processIncomingPacket_of_accepted
      (I := fun q => q.Intact ∧ q.Collects calls r)
      (fun hq hsame =>
        ⟨hq.1.sameCore hsame, hq.2.transfer (by rw [hsame]) (by rw [hsame]) (by rw [hsame])⟩)
      (fun hq hb => ⟨hq.1.receivedBuffer hb, hq.2.transfer rfl rfl rfl⟩)
      (fun {q q' packetType ack} hq _ hack => by
        refine ⟨hq.1.processAck hack, ?_⟩
        obtain rfl | ⟨_, _, d, channels, -, -, hd, hq'⟩ := processAck_cases hack
        · exact hq.2
        · obtain ⟨hsame, -, hshrinks⟩ := MessageDispatcher.ackedPacket_eq_ok hq.1.channels hd
          refine hq.2.transfer ?_ ?_ ?_
          · rw [hq']
            exact ChannelList.window_of_shrinks hshrinks
          · rw [hq']
            exact hsame.messageInbox
          · rw [hq']
            exact hsame.messageReassembler)
      ⟨hintact, h⟩ haccepts.1 haccepts.2 hcall
    · obtain ⟨ms, hms, rfl⟩ := hmessages htype
      obtain ⟨ys, zs, rfl, hzs, hdone⟩ := processMessages_induct_contents
        (I := fun q rest => ∃ ys zs, xs = ys ++ zs ∧ zs.map Prod.snd = rest ∧
          q.Collects calls (r.takeAll SendCall.contents ys))
        (fun hq hsame => by
          obtain ⟨ys, zs, hxs, hzs, hq⟩ := hq
          exact ⟨ys, zs, hxs, hzs, hq.transfer (by rw [hsame]) (by rw [hsame]) (by rw [hsame])⟩)
        (fun {q q' m rest} hq hwf hreceive => by
          obtain ⟨ys, zs, rfl, hzs, hq⟩ := hq
          obtain ⟨⟨s, c⟩, zs, rfl, rfl, rfl⟩ := List.map_eq_cons_iff.mp hzs
          obtain ⟨hs, hc⟩ := hxs (s, m.content) (List.mem_append_right _ (List.mem_cons_self ..))
          refine ⟨ys ++ [(s, m.content)], zs, by simp, rfl, ?_⟩
          rw [Receiver.takeAll, List.foldl_append]
          exact hq.receiveMessage hcalls hs hc hwf hreceive)
        hms ⟨[], xs, rfl, hmap, hq⟩ hprocess
      rw [List.map_eq_nil_iff.mp hzs, List.append_nil]
      exact hdone
    · rw [hcs hother, List.map_eq_nil_iff] at hmap
      rw [hmap]
      exact hq
  · have hsame := sameCore_of_refused (by simpa [accepts] using haccepts) hcall
    rw [if_neg haccepts]
    exact ⟨[], by simp, rfl, h.transfer (by rw [hsame]) (by rw [hsame]) (by rw [hsame])⟩

/-- The sender makes another call, of which nothing can have arrived. -/
theorem Collects.concat (h : p.Collects calls r) {s : SendCall}
    (hcalls : InSequence (calls ++ [s])) :
    p.Collects (calls ++ [s]) r := by
  have hmem : ∀ s' ∈ calls, s' ∈ calls ++ [s] := fun s' hs' => List.mem_append_left _ hs'
  have hself : s ∈ calls ++ [s] := List.mem_append_right _ (List.mem_singleton_self s)
  have hne : s ∉ calls := by
    intro hs
    have hnodup := hcalls.cut.nodup
    obtain ⟨c, hc, -⟩ := s.exists_first
    rw [List.flatMap_append, List.flatMap_singleton] at hnodup
    exact List.disjoint_of_nodup_append hnodup (List.mem_flatMap.mpr ⟨s, hs, hc⟩) hc
  have hnew : ∀ c ∈ s.contents, c ∉ r.got := by
    intro c hc hgot
    obtain ⟨s', hs', hc'⟩ := h.sent c hgot
    exact hne (hcalls.cut.eq_of_mem hself (hmem s' hs') hc hc' ▸ hs')
  obtain ⟨c₀, hc₀, -⟩ := s.exists_first
  refine ⟨h.placed, h.windows, h.sound.concat hc₀ (hnew c₀ hc₀),
    fun c hc => ?_, fun parent c => ?_, h.inbox⟩
  · obtain ⟨s', hs', hc'⟩ := h.sent c hc
    exact ⟨s', hmem s' hs', hc'⟩
  · rw [h.held]
    constructor
    · rintro ⟨s', hs', hrest⟩
      exact ⟨s', hmem s' hs', hrest⟩
    · rintro ⟨s', hs', hid, hc, hgot, hnot⟩
      rcases List.mem_append.mp hs' with hs' | hs'
      · exact ⟨s', hs', hid, hc, hgot, hnot⟩
      · exact absurd hgot (hnew c (List.mem_singleton.mp hs' ▸ hc))

/-! ### What is in the inboxes -/

/-- Two calls with the same id that a message in an inbox is of are the same. -/
theorem Collects.eq_of_is (hcalls : InSequence calls) {s s' : SendCall}
    (hs : s ∈ calls) (hs' : s' ∈ calls)
    {msg : ReceivedMessage} (his : s.Is msg) (his' : s'.Is msg) : s = s' :=
  hcalls.eq_of_firstId hs hs' (Option.some.inj (his.id.symm.trans his'.id))

/-- **Exactly once.** A call is in the inbox of its channel once if all its messages have arrived,
and otherwise it is not in there. -/
theorem Collects.countP_is (h : p.Collects calls r) (hcalls : InSequence calls)
    {s : SendCall} (hs : s ∈ calls) :
    (Whole SendCall.contents r.got s →
      (p.dispatcher.messageInbox s.channel).countP (fun msg => s.Is msg) = 1) ∧
      (¬ Whole SendCall.contents r.got s →
        (p.dispatcher.messageInbox s.channel).countP (fun msg => s.Is msg) = 0) := by
  set out := r.out.filter fun s' => s'.channel = s.channel with hout
  have hmem : ∀ s' ∈ out, s' ∈ calls := fun s' hs' =>
    ((h.sound.mem_iff s').mp (List.mem_of_mem_filter hs')).1
  have hnodup : (out.map SendCall.firstId).Nodup :=
    List.Nodup.map_on (fun _ ha _ hb => hcalls.eq_of_firstId (hmem _ ha) (hmem _ hb))
      (h.sound.nodup.filter _)
  have hcount : (p.dispatcher.messageInbox s.channel).countP (fun msg => s.Is msg)
      = (out.map SendCall.firstId).count s.firstId := by
    have hinbox := h.inbox s.channel
    rw [← hout] at hinbox
    clear_value out
    clear hout hnodup
    generalize p.dispatcher.messageInbox s.channel = msgs at hinbox ⊢
    induction hinbox with
    | nil => rfl
    | @cons s' msg out msgs his _ ih =>
      obtain ⟨hs', hrest⟩ := List.forall_mem_cons.mp hmem
      rw [List.countP_cons, List.map_cons, List.count_cons, ih hrest]
      congr 1
      by_cases hid : s'.firstId = s.firstId
      · rw [if_pos (by simpa using hcalls.eq_of_firstId hs' hs hid ▸ his),
          if_pos (by simpa using hid)]
      · rw [if_neg, if_neg (by simpa using hid)]
        rw [decide_eq_true_eq]
        exact fun his' => hid (congrArg SendCall.firstId (eq_of_is hcalls hs' hs his his'))
  rw [hcount]
  constructor
  · intro hwhole
    refine List.count_eq_one_of_mem hnodup (List.mem_map_of_mem ?_)
    exact List.mem_filter.mpr ⟨(h.sound.mem_iff s).mpr ⟨hs, hwhole⟩, by simp⟩
  · intro hnot
    refine List.count_eq_zero.mpr fun hid => ?_
    obtain ⟨s', hs', hid⟩ := List.mem_map.mp hid
    obtain rfl := hcalls.eq_of_firstId (hmem s' hs') hs hid
    exact hnot ((h.sound.mem_iff s').mp (List.mem_of_mem_filter hs')).2

/-- Nothing else is in the inboxes. -/
theorem Collects.exists_is (h : p.Collects calls r) {channel : UInt8} {msg : ReceivedMessage}
    (hmsg : msg ∈ p.dispatcher.messageInbox channel) :
    ∃ s ∈ calls, s.channel = channel ∧ Whole SendCall.contents r.got s ∧ s.Is msg := by
  obtain ⟨s, hs, his⟩ := exists_of_forall₂_mem (h.inbox channel) hmsg
  obtain ⟨hout, hchannel⟩ := List.mem_filter.mp hs
  obtain ⟨hcalls, hwhole⟩ := (h.sound.mem_iff s).mp hout
  exact ⟨s, hcalls, by simpa using hchannel, hwhole, his⟩

/-! ### What has arrived is welcome again -/

/-- What has arrived is there: held, or in the inbox with all of its call. -/
theorem Collects.hasNewest (h : p.Collects calls r) (hcalls : InSequence calls) {c : MessageContent}
    (hc : c ∈ r.got) : p.dispatcher.HasNewest calls c := by
  obtain ⟨s, hs, hmem⟩ := h.sent c hc
  refine ⟨s, ?_, hmem, ?_⟩
  · rw [SendCall.key_of_mem hmem]
    exact hcalls.newestCall_eq hs
  · by_cases hwhole : Whole SendCall.contents r.got s
    · have hout := (h.sound.mem_iff s).mpr ⟨hs, hwhole⟩
      have hfilter : s ∈ r.out.filter fun s' => s'.channel = s.channel :=
        List.mem_filter.mpr ⟨hout, by simp⟩
      obtain ⟨msg, hmsg, his⟩ := exists_of_forall₂_mem (h.inbox s.channel).flip hfilter
      exact Or.inl ⟨msg, hmsg, his⟩
    · exact Or.inr ((h.mem_held_iff hcalls hs).mpr ⟨hmem, hc, hwhole⟩)

/-- Messages of calls that the sender has made arrive as they should. -/
theorem Collects.arrives (h : p.Collects calls r) (hcalls : InSequence calls)
    {cs : List MessageContent}
    (hcs : ∀ c ∈ cs, ∃ s ∈ calls, c ∈ s.contents) : p.dispatcher.Arrives calls cs := by
  intro c hc
  obtain ⟨s, hs, hmem⟩ := hcs c hc
  rw [SendCall.key_of_mem hmem]
  exact ⟨s, hcalls.newestCall_eq hs, hmem, fun _ m hm =>
    ((h.mem_held_iff hcalls hs).mp ⟨m, hm, rfl⟩).1⟩

/-- **No message is refused** that has not arrived before. -/
theorem Windows.takesAll (hcalls : InSequence calls) {cs : List MessageContent}
    (hcs : ∀ c ∈ cs, ∃ s ∈ calls, c ∈ s.contents) {window : UInt8 → Option (SequenceBuffer Bool)}
    {got : Set MessageContent} (h : Windows window got)
    (hsent : ∀ c ∈ got, ∃ s ∈ calls, c ∈ s.contents)
    {had : MessageContent → Prop} (hhad : ∀ c ∈ got, had c) : TakesAll had window cs := by
  induction cs generalizing window got had with
  | nil => trivial
  | cons c cs ih =>
    obtain ⟨⟨s, hs, hc⟩, hrest⟩ := List.forall_mem_cons.mp hcs
    obtain ⟨b, hb, hfst, hwindows⟩ := h.accept hcalls hsent hs hc
    rw [TakesAll, hb]
    refine ⟨?_, ih hrest hwindows ?_ ?_⟩
    · by_cases hnew : c ∈ got
      · exact Or.inr (hhad c hnew)
      · exact Or.inl (hfst.mpr hnew)
    · rintro x (rfl | hx)
      · exact ⟨s, hs, hc⟩
      · exact hsent x hx
    · rintro x (rfl | hx)
      · exact Or.inr rfl
      · exact Or.inl (hhad x hx)

end Endpoint

end Pickleback
