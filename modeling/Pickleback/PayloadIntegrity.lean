import Pickleback.DeliveryOrder
import Pickleback.FirstPacket
import Pickleback.KeepAlive

/-!
# The payload of a received message

A fragment is kept under the id of the first fragment of its message until that message is complete,
which need never be, and ids come round again after 65536 of them. So a fragment can meet the
remains of an older message under its own parent id, and be put together with them. As long as this
does not happen, every message in an inbox is what one call of `send_message` was given.

## Main definitions

* `SendCall.contents` — what the messages of one call say
* `MessageReassembler.Unmixed` — the fragments in a packet and those held under their ids come from
  one call each
* `Link.Faithful` — every message in an inbox is what some call was given

## Main results

* `MessageReassembler.Placed.addFragment` — one fragment
* `Faithful.processReceivedMessage`, `Link.Faithful.step` — one message, one call
* `Link.exists_is_of_mem_messageInbox` — every run
* `Link.not_exists_is_of_mem_messageInbox` — a run in which two sends are put together
-/

namespace Pickleback

open AckProtocol

/-! ### What was asked for, and what arrives -/

namespace SendCall

/-- What the messages of a call say: its payload, or the fragments of its payload under consecutive
ids. -/
def contents (s : SendCall) : List MessageContent :=
  if s.payload.length ≤ 1024 then [⟨s.firstId, s.channel, s.payload, none⟩]
  else (List.range (numFragments s.payload)).map fun i =>
    ⟨s.firstId + UInt16.ofNat i, s.channel, chunk s.payload i,
      some ⟨UInt16.ofNat i, UInt16.ofNat (numFragments s.payload), s.firstId⟩⟩

/-- The call has queued messages: it returned an id, or only failed to register it. -/
def enqueues (s : SendCall) : Bool :=
  match s.result with
  | .ok _ => true
  | .error err => err == .sequenceTooOld

/-- The payload is not too big, and the id that is returned, if any, is the one that the dispatcher
had ready. -/
structure Regular (s : SendCall) : Prop where
  payload : s.payload.length ≤ 1024 * 1024
  result : ∀ id, s.result = .ok id → id = s.firstId

/-- A received message is the one that the call was given: its channel, its id and its payload. -/
structure Is (s : SendCall) (msg : ReceivedMessage) : Prop where
  channel : msg.channel? = some s.channel
  id : msg.id? = some s.firstId
  payload : msg.payload = s.payload

variable {s : SendCall} {c : MessageContent} {m : Message}

/-- The messages that a call has queued say its contents. -/
theorem exists_content {ms : List Message} (h : SendBlock s.firstId s.channel s.payload ms)
    (hm : m ∈ ms) :
    ∃ c ∈ s.contents, m.Writes c := by
  rw [SendBlock] at h
  split at h
  · next hsmall =>
    obtain ⟨m', rfl, hid, hchannel, hnone, henc⟩ := h
    obtain rfl := List.mem_singleton.mp hm
    rw [contents, if_pos hsmall]
    exact ⟨_, List.mem_singleton_self _, hid, hchannel, hnone, henc⟩
  · next hlarge =>
    obtain ⟨i, hi⟩ := List.mem_iff_getElem?.mp hm
    obtain ⟨hid, hchannel, hfrag, henc⟩ := h.2 i m hi
    have hlt : i < numFragments s.payload := h.1 ▸ (List.getElem?_eq_some_iff.mp hi).1
    rw [contents, if_neg hlarge]
    exact ⟨_, List.mem_map_of_mem (List.mem_range.mpr hlt), hid, hchannel, hfrag, henc⟩

/-- A message without a fragment is a whole call. -/
theorem is_single (hm : m.content ∈ s.contents) (hnone : m.fragment = none) : s.Is (.single m) := by
  rw [contents] at hm
  split at hm
  · have heq := List.mem_singleton.mp hm
    exact ⟨congrArg some (congrArg MessageContent.channel heq),
      congrArg some (congrArg MessageContent.id heq), congrArg MessageContent.payload heq⟩
  · obtain ⟨i, -, heq⟩ := List.mem_map.mp hm
    have hfrag := congrArg MessageContent.fragment heq
    dsimp only [Message.content] at hfrag
    rw [hnone] at hfrag
    cases hfrag

/-- A fragment among the contents, with its place. -/
theorem of_fragment (hc : c ∈ s.contents) {f : Fragment} (hf : c.fragment = some f) :
    1024 < s.payload.length ∧ ∃ i < numFragments s.payload,
      f = ⟨UInt16.ofNat i, UInt16.ofNat (numFragments s.payload), s.firstId⟩ ∧
        c.channel = s.channel ∧
        c.payload = chunk s.payload i := by
  rw [contents] at hc
  split at hc
  · rw [List.mem_singleton.mp hc] at hf
    cases hf
  · next hlarge =>
    obtain ⟨i, hi, rfl⟩ := List.mem_map.mp hc
    cases hf
    exact ⟨by omega, i, List.mem_range.mp hi, rfl, rfl, rfl⟩

/-- The fragments of a call are told apart by their indices. -/
theorem eq_of_fragment (hs : s.Regular) {c' : MessageContent} (hc : c ∈ s.contents)
    (hc' : c' ∈ s.contents)
    {f : Fragment} (hf : c.fragment = some f) (hf' : c'.fragment = some f) : c = c' := by
  have hmax := numFragments_le hs.payload
  rw [contents] at hc hc'
  split at hc
  · rw [List.mem_singleton.mp hc] at hf
    cases hf
  · next hlarge =>
    rw [if_neg hlarge] at hc'
    obtain ⟨i, hi, rfl⟩ := List.mem_map.mp hc
    obtain ⟨j, hj, rfl⟩ := List.mem_map.mp hc'
    rw [List.mem_range] at hi hj
    have hindex : UInt16.ofNat i = UInt16.ofNat j :=
      congrArg Fragment.index ((Option.some.inj hf).trans (Option.some.inj hf').symm)
    have := congrArg UInt16.toNat hindex
    rw [UInt16.toNat_ofNat', UInt16.toNat_ofNat', Nat.mod_eq_of_lt (by omega),
      Nat.mod_eq_of_lt (by omega)] at this
    rw [this]

end SendCall

namespace MessageReassembler

variable {r r' : MessageReassembler} {m : Message} {f : Fragment}

/-- The fragments held under a parent id. -/
def held (r : MessageReassembler) (parent : MessageId) : List Message :=
  match r.inProgress parent with
  | some inc => inc.fragments.filterMap id
  | none => []

/-- Every fragment in `cs` is, with what is held under its parent id and with the others in `cs`
that have the same one, a fragment of one call. -/
def Unmixed (r : MessageReassembler) (sends : List SendCall) (cs : List MessageContent) : Prop :=
  ∀ c ∈ cs, ∀ f ∈ c.fragment, ∃ s ∈ sends,
    (∀ m ∈ r.held f.parentId, m.content ∈ s.contents) ∧
      ∀ c' ∈ cs, c'.fragment.map Fragment.parentId = some f.parentId → c' ∈ s.contents

instance (r : MessageReassembler) (sends : List SendCall) (cs : List MessageContent) :
    Decidable (r.Unmixed sends cs) :=
  inferInstanceAs (Decidable (∀ c ∈ cs, ∀ f ∈ c.fragment, ∃ s ∈ sends, _ ∧ _))

/-- What is held is in its place. -/
structure Placed (r : MessageReassembler) : Prop where
  consistent : r.Consistent
  place : ∀ parent inc, r.inProgress parent = some inc → ∀ (i : ℕ) (m : Message),
    inc.fragments[i]? = some (some m) →
    m.fragment = some ⟨UInt16.ofNat i, inc.numFragments, parent⟩
  nonempty : ∀ parent inc, r.inProgress parent = some inc → r.held parent ≠ []

theorem placed_empty : empty.Placed where
  consistent := consistent_empty
  place := fun parent inc h => by cases h
  nonempty := fun parent inc h => by cases h

theorem mem_held_iff {parent : MessageId} :
    m ∈ r.held parent ↔ ∃ inc, r.inProgress parent = some inc ∧ some m ∈ inc.fragments := by
  rw [held]
  split
  · next inc h => simp [h]
  · next h => simp [h]

theorem inProgress_setSlots_self (r : MessageReassembler) (parent : MessageId)
    (inc : Option IncompleteMessage) :
    (r.setSlots parent inc).inProgress parent = inc := Function.update_self ..

theorem inProgress_setSlots_of_ne {parent parent' : MessageId} {inc : Option IncompleteMessage}
    (h : parent' ≠ parent) : (r.setSlots parent inc).inProgress parent' = r.inProgress parent' :=
  Function.update_of_ne h ..

/-- Other places for one parent id, with nothing in them that `Q` does not allow. -/
theorem mem_held_setSlots {parent : MessageId} {inc : Option IncompleteMessage} {Q : Message → Prop}
    (hinc : ∀ i, inc = some i → ∀ x, some x ∈ i.fragments → Q x) {parent' : MessageId} {x : Message}
    (hx : x ∈ (r.setSlots parent inc).held parent') : x ∈ r.held parent' ∨
      (parent' = parent ∧ Q x) := by
  obtain ⟨i, hget, hmem⟩ := mem_held_iff.mp hx
  by_cases hparent : parent' = parent
  · rw [hparent, inProgress_setSlots_self] at hget
    exact Or.inr ⟨hparent, hinc i hget x hmem⟩
  · rw [inProgress_setSlots_of_ne hparent] at hget
    exact Or.inl (mem_held_iff.mpr ⟨i, hget, hmem⟩)

theorem Placed.setSlots (h : r.Placed) {parent : MessageId} {inc : Option IncompleteMessage}
    (hinc : ∀ i, inc = some i → i.Consistent ∧ (∃ x, some x ∈ i.fragments) ∧
      ∀ (j : ℕ) (x : Message), i.fragments[j]? = some (some x) →
        x.fragment = some ⟨UInt16.ofNat j, i.numFragments, parent⟩) :
        (r.setSlots parent inc).Placed where
  consistent := h.consistent.setSlots fun i hi => (hinc i hi).1
  place := by
    intro parent' i hget
    by_cases hparent : parent' = parent
    · rw [hparent, inProgress_setSlots_self] at hget
      rw [hparent]
      exact (hinc i hget).2.2
    · rw [inProgress_setSlots_of_ne hparent] at hget
      exact h.place parent' i hget
  nonempty := by
    intro parent' i hget
    have hget' := hget
    by_cases hparent : parent' = parent
    · rw [hparent, inProgress_setSlots_self] at hget'
      obtain ⟨x, hx⟩ := (hinc i hget').2.1
      exact List.ne_nil_of_mem (mem_held_iff.mpr ⟨i, hget, hx⟩)
    · rw [inProgress_setSlots_of_ne hparent] at hget'
      obtain ⟨x, hx⟩ := List.exists_mem_of_ne_nil _ (h.nonempty parent' i hget')
      obtain ⟨i', hi', hmem⟩ := mem_held_iff.mp hx
      refine List.ne_nil_of_mem (mem_held_iff.mpr ⟨i, hget, ?_⟩ : x ∈ _)
      rwa [← Option.some.inj (hi'.symm.trans hget')]

/-- How many places a fragment finds, and what is in them. -/
theorem Placed.slots (h : r.Placed) (hsame : ∀ inc, r.inProgress f.parentId = some inc →
      inc.numFragments = f.numFragments) :
    (r.slots f.parentId f.numFragments).length = f.numFragments.toNat ∧
      ∀ (i : ℕ) (x : Message), (r.slots f.parentId f.numFragments)[i]? = some (some x) →
        x ∈ r.held f.parentId ∧ x.fragment = some ⟨UInt16.ofNat i, f.numFragments, f.parentId⟩ := by
  rw [MessageReassembler.slots]
  split
  · next inc hget =>
    refine ⟨by rw [(h.consistent _ _ hget).length, hsame inc hget], fun i x hx => ?_⟩
    rw [← hsame inc hget]
    exact ⟨mem_held_iff.mpr ⟨inc, hget, List.mem_of_getElem? hx⟩, h.place _ _ hget i x hx⟩
  · refine ⟨List.length_replicate, fun i x hx => ?_⟩
    cases (List.mem_replicate.mp (List.mem_of_getElem? hx)).2

/-- **One fragment**, of a message with as many fragments as the one that is held under its parent
id. Nothing but the fragment is added to what is held; a message that is returned consists of what
is held and the fragment. -/
theorem Placed.addFragment (h : r.Placed) (hf : m.fragment = some f)
    (htwo : 2 ≤ f.numFragments.toNat)
    (hmax : f.numFragments.toNat ≤ maxFragments) (hindex : f.index < f.numFragments)
    (hsame : ∀ inc, r.inProgress f.parentId = some inc → inc.numFragments = f.numFragments)
    {out : Option ReceivedMessage} (hadd : r.addFragment m = .ok (out, r')) :
    r'.Placed ∧ (∀ parent, ∀ x ∈ r'.held parent, x ∈ r.held parent ∨
      (parent = f.parentId ∧ x = m)) ∧
      ∀ msg, out = some msg → ∃ ms, msg = .fragmented ms ∧ ms.length = f.numFragments.toNat ∧
        ∀ (i : ℕ) (x : Message), ms[i]? = some x → (x ∈ r.held f.parentId ∨ x = m) ∧
          x.fragment = some ⟨UInt16.ofNat i, f.numFragments, f.parentId⟩ := by
  obtain ⟨hlen, hold⟩ := h.slots hsame
  -- what is in the places once the fragment has taken its own
  have hnew : ∀ (i : ℕ) (x : Message),
      ((r.slots f.parentId f.numFragments).set f.index.toNat (some m))[i]? = some (some x) →
        (x ∈ r.held f.parentId ∨ x = m) ∧
          x.fragment = some ⟨UInt16.ofNat i, f.numFragments, f.parentId⟩ := by
    intro i x hx
    rw [List.getElem?_set] at hx
    split at hx
    · next heq =>
      split at hx
      · cases hx
        refine ⟨Or.inr rfl, ?_⟩
        rw [hf, ← heq, UInt16.ofNat_toNat]
      · cases hx
    · exact ⟨Or.inl (hold i x hx).1, (hold i x hx).2⟩
  have hheld : ∀ {inc : Option IncompleteMessage}, (∀ i, inc = some i → ∀ x, some x ∈ i.fragments →
      x ∈ r.held f.parentId ∨ x = m) → ∀ parent, ∀ x ∈ (r.setSlots f.parentId inc).held parent,
        x ∈ r.held parent ∨ (parent = f.parentId ∧ x = m) := by
    intro inc hinc parent x hx
    obtain hx | ⟨rfl, hx | rfl⟩ := mem_held_setSlots hinc hx
    · exact Or.inl hx
    · exact Or.inl hx
    · exact Or.inr ⟨rfl, rfl⟩
  obtain ⟨-, hspec⟩ | ⟨-, ⟨inc, hinc, hnum, hset, hspec⟩ | ⟨ms, hset, hspec⟩⟩ :=
    addFragment_spec h.consistent hf htwo hmax hindex hsame
  · cases hadd.symm.trans hspec
    exact ⟨h, fun _ _ hx => Or.inl hx, fun msg hmsg => by cases hmsg⟩
  · cases hadd.symm.trans hspec
    refine ⟨h.setSlots ?_, hheld ?_, fun msg hmsg => by cases hmsg⟩
    · rintro _ ⟨⟩
      refine ⟨hinc, ⟨m, ?_⟩, fun j x hx => ?_⟩
      · rw [hset]
        exact List.mem_set (by rw [hlen]; exact UInt16.lt_iff_toNat_lt.mp hindex) _
      · rw [hset] at hx
        rw [hnum]
        exact (hnew j x hx).2
    · rintro _ ⟨⟩ x hx
      rw [hset] at hx
      obtain ⟨i, hi⟩ := List.mem_iff_getElem?.mp hx
      exact (hnew i x hi).1
  · cases hadd.symm.trans hspec
    refine ⟨h.setSlots fun _ hnone => (by cases hnone), hheld fun _ hnone => (by cases hnone), ?_⟩
    rintro _ ⟨⟩
    refine ⟨ms, rfl, ?_, fun i x hx => hnew i x ?_⟩
    · rw [← List.length_map (f := some), ← hset, List.length_set, hlen]
    · rw [hset, List.getElem?_map, hx]
      rfl

/-- **One fragment.** Under other ids everything stays as it was; under its own id too, unless the
message is complete, and then the place of the fragment is taken. -/
theorem Placed.keeps_addFragment (h : r.Placed) (hf : m.fragment = some f)
    (htwo : 2 ≤ f.numFragments.toNat)
    (hmax : f.numFragments.toNat ≤ maxFragments) (hindex : f.index < f.numFragments)
    (hsame : ∀ inc, r.inProgress f.parentId = some inc → inc.numFragments = f.numFragments)
    {out : Option ReceivedMessage} (hadd : r.addFragment m = .ok (out, r')) :
    (∀ parent, parent ≠ f.parentId → r'.held parent = r.held parent) ∧
      (out = none → (∀ x ∈ r.held f.parentId, x ∈ r'.held f.parentId) ∧
        ∃ x ∈ r'.held f.parentId, x.fragment = some f) := by
  obtain ⟨hlen, hold⟩ := h.slots hsame
  have hlt : f.index.toNat < (r.slots f.parentId f.numFragments).length := by
    rw [hlen]
    exact UInt16.lt_iff_toNat_lt.mp hindex
  have hother : ∀ (inc : Option IncompleteMessage) (parent : MessageId), parent ≠ f.parentId →
      (r.setSlots f.parentId inc).held parent = r.held parent := by
    intro inc parent hne
    rw [held, inProgress_setSlots_of_ne hne, held]
  obtain ⟨hsome, hspec⟩ | ⟨hnone, ⟨inc, -, -, hset, hspec⟩ | ⟨ms, -, hspec⟩⟩ :=
    addFragment_spec h.consistent hf htwo hmax hindex hsame
  · cases hadd.symm.trans hspec
    refine ⟨fun _ _ => rfl, fun _ => ⟨fun x hx => hx, ?_⟩⟩
    -- the place was taken before
    obtain ⟨x, hx⟩ := Option.isSome_iff_exists.mp hsome
    rw [List.getD_eq_getElem?_getD, List.getElem?_eq_getElem hlt, Option.getD_some] at hx
    obtain ⟨hheld, hfragment⟩ := hold f.index.toNat x (by rw [List.getElem?_eq_getElem hlt, hx])
    rw [UInt16.ofNat_toNat] at hfragment
    exact ⟨x, hheld, hfragment⟩
  · cases hadd.symm.trans hspec
    refine ⟨fun parent hne => hother _ parent hne, fun _ => ⟨fun x hx => ?_, m, ?_, hf⟩⟩
    · obtain ⟨inc₀, hget, hmem⟩ := mem_held_iff.mp hx
      refine mem_held_iff.mpr ⟨inc, inProgress_setSlots_self .., ?_⟩
      rw [hset]
      have hslots : r.slots f.parentId f.numFragments = inc₀.fragments := by
        rw [MessageReassembler.slots, hget]
      rw [hslots] at hnone hlt ⊢
      obtain ⟨i, hi⟩ := List.mem_iff_getElem?.mp hmem
      refine List.mem_iff_getElem?.mpr ⟨i, ?_⟩
      rw [List.getElem?_set_ne, hi]
      rintro rfl
      rw [List.getD_eq_getElem?_getD, hi] at hnone
      cases hnone
    · refine mem_held_iff.mpr ⟨inc, inProgress_setSlots_self .., ?_⟩
      rw [hset]
      exact List.mem_set hlt _
  · cases hadd.symm.trans hspec
    exact ⟨fun parent hne => hother _ parent hne, fun hout => by cases hout⟩

end MessageReassembler

/-- All fragments of one call, each in its place, are what the call was given. -/
theorem SendCall.is_fragmented {s : SendCall} (hs : s.payload.length ≤ 1024 * 1024)
    {ms : List Message}
    {n : UInt16} {parent : MessageId} (htwo : 2 ≤ n.toNat) (hlen : ms.length = n.toNat)
    (hms : ∀ (i : ℕ) (x : Message), ms[i]? = some x →
      x.content ∈ s.contents ∧ x.fragment = some ⟨UInt16.ofNat i, n, parent⟩) :
      s.Is (.fragmented ms) := by
  have hmax := numFragments_le hs
  obtain ⟨m, rest, rfl⟩ := List.exists_cons_of_length_pos (show 0 < ms.length by omega)
  obtain ⟨hm, hfrag⟩ := hms 0 m rfl
  obtain ⟨-, i₀, -, heq, hchannel, -⟩ := SendCall.of_fragment hm hfrag
  rw [Fragment.mk.injEq] at heq
  obtain ⟨-, hn, hparent⟩ := heq
  have hnum : n.toNat = numFragments s.payload := by
    rw [hn, UInt16.toNat_ofNat', Nat.mod_eq_of_lt (by omega)]
  refine ⟨congrArg some hchannel, ?_, ?_⟩
  · rw [ReceivedMessage.id?, List.head?_cons, Option.bind_some, hfrag, Option.map_some, hparent]
  · have hmap : (m :: rest).map (fun m => m.buffer.data)
        = (List.range (numFragments s.payload)).map (chunk s.payload) := by
      refine List.ext_getElem
        (by rw [List.length_map, List.length_map, List.length_range, hlen, hnum])
        fun i h₁ h₂ => ?_
      rw [List.length_map] at h₁
      obtain ⟨hx, hxfrag⟩ := hms i _ (List.getElem?_eq_getElem h₁)
      obtain ⟨-, i', hi', heq, -, hpayload⟩ := SendCall.of_fragment hx hxfrag
      have hindex : UInt16.ofNat i = UInt16.ofNat i' := congrArg Fragment.index heq
      have hii : i = i' := by
        have := congrArg UInt16.toNat hindex
        rw [UInt16.toNat_ofNat', UInt16.toNat_ofNat', Nat.mod_eq_of_lt (by omega),
          Nat.mod_eq_of_lt (by omega)] at this
        exact this
      subst hii
      rw [List.getElem_map, List.getElem_map, List.getElem_range]
      exact hpayload
    rw [ReceivedMessage.payload, List.flatMap_def, hmap, ← List.flatMap_def]
    exact flatMap_chunk s.payload

/-! ### One message -/

/-- What is added comes from the packet. -/
theorem MessageReassembler.Unmixed.add {r r' : MessageReassembler}
    {sends : List SendCall} {c : MessageContent}
    {cs : List MessageContent} (h : r.Unmixed sends cs) (hc : c ∈ cs)
    (hheld : ∀ parent, ∀ x ∈ r'.held parent, x ∈ r.held parent ∨
      (c.fragment.map Fragment.parentId = some parent ∧ x.content = c)) : r'.Unmixed sends cs := by
  intro c₁ hc₁ f hf
  obtain ⟨s, hs, hold, hall⟩ := h c₁ hc₁ f hf
  refine ⟨s, hs, fun x hx => ?_, hall⟩
  obtain hx | ⟨hparent, rfl⟩ := hheld _ x hx
  · exact hold x hx
  · exact hall _ hc hparent

/-- Every message in an inbox is what some call was given. -/
structure MessageDispatcher.Faithful (d : MessageDispatcher) (sends : List SendCall) : Prop where
  placed : d.messageReassembler.Placed
  inbox : ∀ channel, ∀ msg ∈ d.messageInbox channel, ∃ s ∈ sends, s.Is msg

namespace MessageDispatcher

variable {d d' : MessageDispatcher} {sends : List SendCall} {m : Message} {cs : List MessageContent}

theorem Faithful.mono (h : d.Faithful sends) {sends' : List SendCall}
    (hsub : ∀ s ∈ sends, s ∈ sends') :
    d.Faithful sends' where
  placed := h.placed
  inbox := fun channel msg hmsg => (h.inbox channel msg hmsg).imp fun s hs => ⟨hsub s hs.1, hs.2⟩

theorem Faithful.of_intake (h : d.Faithful sends)
    (hreassembler : d'.messageReassembler = d.messageReassembler)
    (hinbox : d'.messageInbox = d.messageInbox) : d'.Faithful sends where
  placed := by
    rw [hreassembler]
    exact h.placed
  inbox := by
    rw [hinbox]
    exact h.inbox

/-- **One message** of a call, of which the fragments held under the same parent id are parts too.
Either the whole of the call is put into the inbox, or the message stays held. Nothing under other
ids changes. -/
theorem processReceivedMessage_of_call (h : d.messageReassembler.Placed)
    {s : SendCall} (hs : s.Regular)
    (hm : m.content ∈ s.contents) (hwf : m.content.WellFormed)
    (hheld : m.fragment.isSome = true → ∀ x ∈ d.messageReassembler.held s.firstId,
      x.content ∈ s.contents)
    (hcall : d.processReceivedMessage m = .ok d') :
    d'.messageReassembler.Placed ∧
      (∀ parent, ∀ x ∈ d'.messageReassembler.held parent, x ∈ d.messageReassembler.held parent ∨
        (m.content.fragment.map Fragment.parentId = some parent ∧ x = m)) ∧
      (((∃ msg, s.Is msg ∧ d'.messageInbox
            = Function.update d.messageInbox s.channel (d.messageInbox s.channel ++ [msg])) ∧
          ∀ parent, parent ≠ s.firstId → d'.messageReassembler.held parent =
            d.messageReassembler.held parent) ∨
        (d'.messageInbox = d.messageInbox ∧
          (∀ parent, ∀ x ∈ d.messageReassembler.held parent,
            x ∈ d'.messageReassembler.held parent) ∧
          ∃ x ∈ d'.messageReassembler.held s.firstId, x.content = m.content)) := by
  rw [MessageDispatcher.processReceivedMessage] at hcall
  cases hf : m.fragment with
  | none =>
    rw [hf] at hcall
    have his := SendCall.is_single hm hf
    simp only [Option.isNone_none, if_true, MessageDispatcher.pushInbox, his.channel] at hcall
    cases hcall
    exact ⟨h, fun _ _ hx => Or.inl hx, Or.inl ⟨⟨_, his, rfl⟩, fun _ _ => rfl⟩⟩
  | some f =>
    obtain ⟨hindex, htwo, hmax, -, -⟩ := hwf.fragment f hf
    obtain ⟨-, _, -, heq, -⟩ := SendCall.of_fragment hm hf
    have hparent : f.parentId = s.firstId := congrArg Fragment.parentId heq
    have hold := hheld (by rw [hf]; rfl)
    rw [← hparent] at hold ⊢
    -- what is held has as many fragments, being of the same call
    have hsame : ∀ inc, d.messageReassembler.inProgress f.parentId = some inc →
        inc.numFragments = f.numFragments := by
      intro inc hget
      obtain ⟨x, hx⟩ := List.exists_mem_of_ne_nil _ (h.nonempty _ inc hget)
      obtain ⟨inc', hget', hmem⟩ := MessageReassembler.mem_held_iff.mp hx
      obtain rfl : inc = inc' := Option.some.inj (hget.symm.trans hget')
      obtain ⟨i, hi⟩ := List.mem_iff_getElem?.mp hmem
      obtain ⟨-, _, -, heq', -⟩ := SendCall.of_fragment (hold x hx) (h.place _ _ hget i x hi)
      exact (congrArg Fragment.numFragments heq').trans (congrArg Fragment.numFragments heq).symm
    have hadds : ∀ {r : MessageReassembler}, (∀ parent, ∀ x ∈ r.held parent,
        x ∈ d.messageReassembler.held parent ∨ (parent = f.parentId ∧ x = m)) →
        ∀ parent, ∀ x ∈ r.held parent, x ∈ d.messageReassembler.held parent ∨
          (m.content.fragment.map Fragment.parentId = some parent ∧ x = m) := by
      intro r hr parent x hx
      refine (hr parent x hx).imp_right ?_
      rintro ⟨rfl, rfl⟩
      exact ⟨congrArg _ hf, rfl⟩
    rw [hf] at hcall
    simp only [Option.isNone_some, Bool.false_eq_true, if_false] at hcall
    split at hcall
    · cases hcall
    · next r hadd =>
      cases hcall
      obtain ⟨hplaced, hr, -⟩ := h.addFragment hf htwo hmax hindex hsame hadd
      obtain ⟨hothers, hkept⟩ := h.keeps_addFragment hf htwo hmax hindex hsame hadd
      obtain ⟨hown, x, hx, hxf⟩ := hkept rfl
      refine ⟨hplaced, hadds hr, Or.inr ⟨rfl, fun parent y hy => ?_, x, hx, ?_⟩⟩
      · by_cases hparent : parent = f.parentId
        · rw [hparent] at hy ⊢
          exact hown y hy
        · rw [hothers parent hparent]
          exact hy
      obtain hx | ⟨-, rfl⟩ := hr _ x hx
      · exact SendCall.eq_of_fragment hs (hold x hx) hm hxf hf
      · rfl
    · next received r hadd =>
      obtain ⟨hplaced, hr, hreturned⟩ := h.addFragment hf htwo hmax hindex hsame hadd
      obtain ⟨xs, rfl, hlen, hxs⟩ := hreturned received rfl
      have his : s.Is (.fragmented xs) := by
        refine SendCall.is_fragmented hs.payload htwo hlen fun i x hx => ⟨?_, (hxs i x hx).2⟩
        rcases (hxs i x hx).1 with hx | rfl
        · exact hold x hx
        · exact hm
      rw [MessageDispatcher.pushInbox, his.channel] at hcall
      cases hcall
      exact ⟨hplaced, hadds hr,
        Or.inl ⟨⟨_, his, rfl⟩, (h.keeps_addFragment hf htwo hmax hindex hsame hadd).1⟩⟩

/-- **One message** of a packet that is unmixed. -/
theorem Faithful.processReceivedMessage (h : d.Faithful sends) (hreg : ∀ s ∈ sends, s.Regular)
    (hunmixed : d.messageReassembler.Unmixed sends cs) (hm : m.content ∈ cs)
    (hwf : m.content.WellFormed)
    (hsent : ∃ s ∈ sends, m.content ∈ s.contents) (hcall : d.processReceivedMessage m = .ok d') :
    d'.Faithful sends ∧ d'.messageReassembler.Unmixed sends cs := by
  -- the call that the message is of, with all that is held of it
  obtain ⟨s, hs, hms, hheld⟩ : ∃ s ∈ sends, m.content ∈ s.contents ∧
      (m.fragment.isSome = true → ∀ x ∈ d.messageReassembler.held s.firstId,
        x.content ∈ s.contents) := by
    cases hf : m.fragment with
    | none =>
      obtain ⟨s, hs, hms⟩ := hsent
      exact ⟨s, hs, hms, fun hsome => by cases hsome⟩
    | some f =>
      obtain ⟨s, hs, hold, hall⟩ := hunmixed m.content hm f hf
      have hms := hall _ hm (congrArg (Option.map Fragment.parentId) hf)
      obtain ⟨-, _, -, heq, -⟩ := SendCall.of_fragment hms hf
      refine ⟨s, hs, hms, fun _ => ?_⟩
      rw [← show f.parentId = s.firstId from congrArg Fragment.parentId heq]
      exact hold
  obtain ⟨hplaced, hadds, hputs⟩ :=
    processReceivedMessage_of_call h.placed (hreg s hs) hms hwf hheld hcall
  refine ⟨⟨hplaced, fun channel msg hmsg => ?_⟩, hunmixed.add hm fun parent x hx => ?_⟩
  · obtain ⟨⟨received, his, hinbox⟩, -⟩ | ⟨hinbox, -⟩ := hputs
    · rw [hinbox] at hmsg
      by_cases hchannel : channel = s.channel
      · rw [hchannel, Function.update_self, List.mem_append, List.mem_singleton] at hmsg
        rcases hmsg with hmsg | rfl
        · exact h.inbox _ msg hmsg
        · exact ⟨s, hs, his⟩
      · rw [Function.update_of_ne hchannel] at hmsg
        exact h.inbox channel msg hmsg
    · exact h.inbox channel msg (hinbox ▸ hmsg)
  · refine (hadds parent x hx).imp_right ?_
    rintro ⟨hparent, rfl⟩
    exact ⟨hparent, rfl⟩

end MessageDispatcher

/-! ### What is sent -/

/-- A message that a call has queued, and that is read back. -/
def Message.SentBy (sends : List SendCall) (m : Message) : Prop :=
  ∃ s ∈ sends, ∃ c ∈ s.contents, m.Writes c ∧ c.WellFormed ∧ ¬ c.Truncated

theorem Message.SentBy.mono {sends sends' : List SendCall} {m : Message} (h : m.SentBy sends)
    (hsub : ∀ s ∈ sends, s ∈ sends') : m.SentBy sends' :=
  h.imp fun s hs => ⟨hsub s hs.1, hs.2⟩

theorem Message.SentBy.of_copies {sends : List SendCall} {m m₀ : Message} (h : m₀.SentBy sends)
    (hcopies : m.Copies m₀) : m.SentBy sends := by
  obtain ⟨s, hs, c, hc, ⟨hid, hchannel, hfragment, henc⟩, hrest⟩ := h
  rcases hcopies with rfl | rfl
  · exact ⟨s, hs, c, hc, ⟨hid, hchannel, hfragment, henc⟩, hrest⟩
  · exact ⟨s, hs, c, hc, ⟨hid, hchannel, hfragment, henc⟩, hrest⟩

/-- A payload that is read back as it was sent: of less than 256 fragments, or with more than 255
bytes in the last one. -/
def Readable (payload : List UInt8) : Prop :=
  numFragments payload < 256 ∨ 255 < payload.length - (numFragments payload - 1) * 1024

instance (payload : List UInt8) : Decidable (Readable payload) :=
  inferInstanceAs (Decidable (_ ∨ _))

theorem readable_of_le {payload : List UInt8} (h : payload.length ≤ 255 * 1024) :
    Readable payload := by
  refine Or.inl (Nat.lt_of_not_le fun hmany => ?_)
  have := lt_numFragments_iff.mp (show 255 < numFragments payload by omega)
  omega

/-- Its fragments are not cut short. -/
theorem SendCall.not_truncated {s : SendCall} (hlen : s.payload.length ≤ 1024 * 1024)
    (h : Readable s.payload)
    {c : MessageContent} (hc : c ∈ s.contents) : ¬ c.Truncated := by
  rintro ⟨f, hf, hlast, hshort, hmany⟩
  obtain ⟨-, i, hi, rfl, -, hpayload⟩ := SendCall.of_fragment hc hf
  have hmax := numFragments_le hlen
  have hN : (UInt16.ofNat (numFragments s.payload)).toNat = numFragments s.payload := by
    rw [UInt16.toNat_ofNat', Nat.mod_eq_of_lt (by omega)]
  have hI : (UInt16.ofNat i).toNat = i := by rw [UInt16.toNat_ofNat', Nat.mod_eq_of_lt (by omega)]
  rw [hN] at hmany
  have hle := lt_numFragments_iff.mp hi
  have hge : ¬ numFragments s.payload * 1024 < s.payload.length := by
    rw [← lt_numFragments_iff]
    omega
  -- the last chunk is what is left of the payload
  have heq : i = numFragments s.payload - 1 := by
    rw [Fragment.isLast, beq_iff_eq, ← UInt16.toNat_inj, UInt16.toNat_sub, hN, hI] at hlast
    simp only [UInt16.reduceToNat] at hlast
    omega
  rw [hpayload, chunk, List.length_take, List.length_drop] at hshort
  rw [Readable] at h
  subst heq
  omega

theorem Message.sentBy_of_sendBlock {sends : List SendCall} {s : SendCall} (hs : s ∈ sends)
    (hlen : s.payload.length ≤ 1024 * 1024) (hread : Readable s.payload)
    (hchannel : s.channel.toNat < maxChannels)
    {ms : List Message} (hblock : SendBlock s.firstId s.channel s.payload ms)
    {m : Message} (hm : m ∈ ms) :
    m.SentBy sends := by
  obtain ⟨c, hc, hwrites⟩ := SendCall.exists_content hblock hm
  obtain ⟨c', hwrites', hwf, -⟩ := exists_content_of_sendBlock hblock hchannel hlen hm
  obtain rfl : c = c' := by
    obtain ⟨hid, hchan, hfrag, henc⟩ := hwrites
    obtain ⟨hid', hchan', hfrag', henc'⟩ := hwrites'
    cases c
    cases c'
    rw [MessageContent.mk.injEq]
    exact ⟨hid.symm.trans hid', hchan.symm.trans hchan', henc.unique henc', hfrag.symm.trans hfrag'⟩
  exact ⟨s, hs, c, hc, hwrites, hwf, SendCall.not_truncated hlen hread hc⟩

namespace Endpoint

variable {p p' : Endpoint} {sends : List SendCall}

/-- The messages that are held for sending. -/
def Queues (p : Endpoint) (Q : Message → Prop) : Prop := ∀ ch ∈ p.channels, ∀ m ∈ ch.queued, Q m

theorem Queues.of_shrinks {Q : Message → Prop} (h : p.Queues Q)
    (hshrinks : List.Forall₂ Channel.Shrinks p.channels p'.channels) : p'.Queues Q := by
  intro ch hch m hm
  obtain ⟨c, hc, hcs⟩ := exists_of_forall₂_mem hshrinks hch
  exact h c hc m (hcs.queued m hm)

theorem Queues.of_sameQueue {Q : Message → Prop} (h : p.Queues Q)
    (hsame : List.Forall₂ Channel.SameQueue p.channels p'.channels) : p'.Queues Q := by
  intro ch hch m hm
  obtain ⟨c, hc, hcs⟩ := exists_of_forall₂_mem hsame hch
  exact h c hc m (hcs.queued ▸ hm)

/-- **Packets are made of what is held for sending**, and are read back as they were put
together. -/
theorem Queues.emitsAll {Q : Message → Prop} {es : List Emission}
    (h : p.Queues Q) (hall : p.EmitsAll es p') :
    p'.Queues Q ∧ ∀ e ∈ es, (∃ header : ProtocolPacketHeader, header.packetType = .messages ∧
      readPacket e.bytes
      = .ok (.messages header e.salt, e.messages.flatMap fun m => m.buffer.data)) ∧
        ∀ m ∈ e.messages, ∃ m₀, Q m₀ ∧ m.Copies m₀ := by
  induction hall with
  | nil _ => exact ⟨h, fun e he => by cases he⟩
  | @cons p p₁ p' e es hemits _ ih =>
    obtain ⟨h', hrest⟩ := ih (h.of_shrinks hemits.shrinks)
    refine ⟨h', List.forall_mem_cons.mpr ⟨⟨?_, fun m hm => ?_⟩, hrest⟩⟩
    · obtain ⟨header, hread, htype, -⟩ := readPacket_messages hemits.numAcks hemits.header e.salt
        (e.messages.flatMap fun m => m.buffer.data)
      exact ⟨header, htype, hread⟩
    · obtain ⟨ch, hch, m₀, hm₀, hcopy⟩ := hemits.held m hm
      exact ⟨m₀, h ch hch m₀ hm₀, hcopy⟩

/-- A packet that comes in adds nothing to what is held for sending. -/
theorem Queues.processIncomingPacket {Q : Message → Prop} (h : p.Queues Q) (hintact : p.Intact)
    {header : ProtocolPacketHeader} {payload : List UInt8} {r : Except PicklebackError Unit}
    (hcall : p.processIncomingPacket header payload = .ok (p', r)) : p'.Queues Q := by
  refine (processIncomingPacket_induct (I := fun q => q.Intact ∧ q.Queues Q) ?_ ?_ ?_ ?_
    ⟨hintact, h⟩ hcall).2
  · intro q q' hq hsame
    exact ⟨hq.1.sameCore hsame, hq.2.of_sameQueue hsame.sameSending.channels⟩
  · intro q b id m hq hb
    exact ⟨hq.1.receivedBuffer hb, hq.2⟩
  · intro q q' packetType ack hq hack
    refine ⟨hq.1.processAck hack, ?_⟩
    obtain rfl | ⟨_, _, d, channels, -, -, hd, hq'⟩ := processAck_cases hack
    · exact hq.2
    · obtain ⟨-, -, hshrinks⟩ := MessageDispatcher.ackedPacket_eq_ok hq.1.channels hd
      exact hq.2.of_shrinks (by rw [hq']; exact hshrinks)
  · intro q q' m hq hm
    have hsame := sameSending_receiveMessage hq.1 hm
    exact ⟨hsame.intact hq.1, hq.2.of_sameQueue hsame.channels⟩

/-- `send_message` gets past its checks. -/
def TakesSend (p : Endpoint) (channel : UInt8) (payload : List UInt8) : Prop :=
  payload.length ≤ p.config.maxMessageSize ∧ p.sentUnackedPackets < maxUnackedPackets ∧
    (p.channels.get? channel).isSome = true

instance (p : Endpoint) (channel : UInt8) (payload : List UInt8) :
    Decidable (p.TakesSend channel payload) :=
  inferInstanceAs (Decidable (_ ∧ _ ∧ _))

/-- A call that gets past its checks, and no other, queues messages. -/
theorem sendMessage_takes_cases (h : p.Intact) {channel : UInt8} {payload : List UInt8}
    {res : Except PicklebackError MessageId} (hcall : p.sendMessage channel payload = .ok (p', res))
    (id : MessageId) :
    (¬ p.TakesSend channel payload ∧ SendCall.enqueues ⟨channel, payload, id, res⟩ = false ∧
        p' = { p with stats := p'.stats }) ∨
      (p.TakesSend channel payload ∧ SendCall.enqueues ⟨channel, payload, id, res⟩ = true ∧
        payload.length ≤ 1024 * 1024 ∧ ∃ ch ms, p.channels.get? channel = some ch ∧
          SendBlock p.dispatcher.nextMessageId channel payload ms ∧
          p.dispatcher.Records payload ms res p'.dispatcher ∧
          p' = { p with
            stats := p'.stats
            dispatcher := p'.dispatcher
            channels := p.channels.set channel (ch.pushAll ms)
            pool := p'.pool }) := by
  by_cases htakes : p.TakesSend channel payload
  · obtain ⟨hlen, hunacked, hsome⟩ := htakes
    obtain ⟨ch, hch⟩ := Option.isSome_iff_exists.mp hsome
    have hmax : payload.length ≤ 1024 * 1024 := h.maxMessageSize ▸ hlen
    have hid : ch.id = channel := ChannelList.id_of_get? hch
    rw [sendMessage_admitted hch hlen hunacked] at hcall
    obtain ⟨⟨res', d, ch', pool⟩, hadd, heq⟩ := exists_of_map_eq_ok hcall
    cases heq
    obtain ⟨ms, hblock, rfl, hrec⟩ := MessageDispatcher.addMessageToChannel_eq_ok hmax hadd
    rw [hid] at hblock
    refine Or.inr ⟨⟨hlen, hunacked, hsome⟩, ?_, hmax, ch, ms, hch, hblock, hrec, rfl⟩
    cases hrec with
    | whole _ => rfl
    | fragmented _ _ => rfl
    | tooOld _ he =>
      obtain ⟨rfl, -⟩ := SequenceBuffer.insert_eq_error_iff.mp he
      rfl
  · refine Or.inl ⟨htakes, ?_⟩
    rw [sendMessage] at hcall
    split at hcall
    · cases hcall
      exact ⟨rfl, rfl⟩
    · next hlen =>
      split at hcall
      · cases hcall
        exact ⟨rfl, rfl⟩
      · next hunacked =>
        dsimp only at hcall
        split at hcall
        · cases hcall
          exact ⟨rfl, rfl⟩
        · next ch hch =>
          refine absurd ⟨by omega, UInt16.not_le.mp hunacked, ?_⟩ htakes
          rw [hch]
          rfl

/-! ### What is received -/

/-- **The rule for the messages of a packet**: each is parsed as it was encoded, and then
received. -/
theorem processMessages_induct_contents {I : Endpoint → List MessageContent → Prop}
    (hsame : ∀ {q q' : Endpoint} {cs : List MessageContent}, I q cs →
      q' = { q with pool := q'.pool, stats := q'.stats } → I q' cs)
    (hreceive : ∀ {q q' : Endpoint} {m : Message} {cs : List MessageContent},
      I q (m.content :: cs) →
      m.content.WellFormed → q.receiveMessage m = .ok q' → I q' cs)
    {ms : List Message} {cs : List MessageContent}
    (hms : List.Forall₂ (fun (m : Message) c => m.Writes c ∧ c.WellFormed ∧ ¬ c.Truncated) ms cs)
      (h : I p cs)
    {fuel : ℕ} {r : Except PicklebackError Unit}
    (hcall : processMessages fuel p (ms.flatMap fun m => m.buffer.data) = .ok (p', r)) :
      I p' [] := by
  induction hms generalizing p fuel with
  | nil =>
    cases fuel with
    | zero => cases hcall
    | succ fuel =>
      cases hcall
      exact h
  | @cons m c ms cs hm _ ih =>
    obtain ⟨hwrites, hwf, htrunc⟩ := hm
    obtain ⟨b, tail, hdata⟩ := hwrites.2.2.2.exists_data
    cases fuel with
    | zero => cases hcall
    | succ fuel =>
      have hne : (m.buffer.data ++ ms.flatMap fun m => m.buffer.data).isEmpty = false := by
        rw [hdata]
        rfl
      obtain ⟨pool, m', hparse, rfl⟩ :=
        Message.parse_encodes p.overflowChecks p.pool hwf htrunc hwrites
        (ms.flatMap fun m => m.buffer.data)
      rw [List.flatMap_cons] at hcall
      simp only [processMessages, hne, Bool.false_eq_true, if_false, hparse] at hcall
      split at hcall
      · cases hcall
      · next p₁ hp₁ => exact ih (hreceive (hsame h rfl) hwf hp₁) hcall

/-- **A message that is received** is refused by its channel, or handed to the dispatcher. -/
theorem receiveMessage_cases {m : Message} (hcall : p.receiveMessage m = .ok p') :
    (p' = { p with channels := p'.channels } ∧
      (p.channels.get? m.channel = none ∧ p'.channels = p.channels ∨
        ∃ ch, p.channels.get? m.channel = some ch ∧ (ch.acceptsMessage m.id).1 = false ∧
          p'.channels = p.channels.set m.channel (ch.acceptsMessage m.id).2)) ∨
      ∃ ch, p.channels.get? m.channel = some ch ∧ (ch.acceptsMessage m.id).1 = true ∧
        p'.channels = p.channels.set m.channel (ch.acceptsMessage m.id).2 ∧
        p.dispatcher.processReceivedMessage m = .ok p'.dispatcher := by
  rw [receiveMessage] at hcall
  split at hcall
  · next hnone =>
    cases hcall
    exact Or.inl ⟨rfl, Or.inl ⟨hnone, rfl⟩⟩
  · next ch hch =>
    dsimp only at hcall
    split at hcall
    · next haccepts =>
      obtain ⟨d, hd, rfl⟩ := exists_of_map_eq_ok hcall
      exact Or.inr ⟨ch, hch, haccepts, rfl, hd⟩
    · next hrefuses =>
      cases hcall
      exact Or.inl ⟨rfl, Or.inr ⟨ch, hch, by simpa using hrefuses, rfl⟩⟩

/-- **A packet** of messages that were sent, unmixed with what is held if it is accepted. -/
theorem faithful_processIncomingPacket {cs : List MessageContent} (hreg : ∀ s ∈ sends, s.Regular)
    (h : p.dispatcher.Faithful sends) {header : ProtocolPacketHeader} {payload : List UInt8}
    (hpacket : p.accepts header = true → header.packetType = .messages →
      p.dispatcher.messageReassembler.Unmixed sends cs ∧ ∃ ms : List Message,
        List.Forall₂ (fun (m : Message) c => m.Writes c ∧ c.WellFormed ∧ ¬ c.Truncated ∧
          ∃ s ∈ sends, c ∈ s.contents) ms cs ∧ payload = ms.flatMap fun m => m.buffer.data)
    {r : Except PicklebackError Unit}
    (hcall : p.processIncomingPacket header payload = .ok (p', r)) :
    p'.dispatcher.Faithful sends := by
  by_cases haccepts : p.accepts header = true
  · refine (processIncomingPacket_induct_messages (I := fun q => q.dispatcher.Faithful sends ∧
      (header.packetType = .messages → q.dispatcher.messageReassembler.Unmixed sends cs))
        ?_ ?_ ?_ ?_
        ⟨h, fun htype => (hpacket haccepts htype).1⟩ hcall).1
    · intro q q' hq hsame
      rw [hsame]
      exact hq
    · intro q b id m hq hb
      exact hq
    · intro q q' packetType ack hq _ hack
      obtain rfl | ⟨_, _, _, _, -, -, hd, hq'⟩ := processAck_cases hack
      · exact hq
      · have hsame := MessageDispatcher.sameIntake_ackedPacket hd
        rw [hq']
        dsimp only
        rw [hsame.messageReassembler]
        exact ⟨hq.1.of_intake hsame.messageReassembler hsame.messageInbox, hq.2⟩
    · intro q q' r hq htype hmessages
      obtain ⟨ms, hms, hpayload⟩ := (hpacket haccepts htype).2
      rw [hpayload] at hmessages
      have hsent : ∀ c ∈ cs, c ∈ cs ∧ ∃ s ∈ sends, c ∈ s.contents := by
        intro c hc
        obtain ⟨m, -, -, -, -, hc'⟩ := exists_of_forall₂_mem hms hc
        exact ⟨hc, hc'⟩
      obtain ⟨h', hunmixed', -⟩ := processMessages_induct_contents (I := fun q rest =>
        q.dispatcher.Faithful sends ∧ q.dispatcher.messageReassembler.Unmixed sends cs ∧
          ∀ c ∈ rest, c ∈ cs ∧ ∃ s ∈ sends, c ∈ s.contents)
            (fun hq hsame => by rw [hsame]; exact hq)
        (fun {q q' m rest} hq hwf hreceive => by
          obtain ⟨hfaithful, hunmixed, hrest⟩ := hq
          rw [List.forall_mem_cons] at hrest
          obtain ⟨hrefused, -⟩ | ⟨ch, -, -, -, hd⟩ := receiveMessage_cases hreceive
          · rw [hrefused]
            exact ⟨hfaithful, hunmixed, hrest.2⟩
          · obtain ⟨h', hunmixed'⟩ :=
              hfaithful.processReceivedMessage hreg hunmixed hrest.1.1 hwf hrest.1.2 hd
            exact ⟨h', hunmixed', hrest.2⟩)
        (hms.imp fun _ _ hm => ⟨hm.1, hm.2.1, hm.2.2.1⟩) ⟨hq.1, hq.2 htype, hsent⟩ hmessages
      exact ⟨h', fun _ => hunmixed'⟩
  · have hsame := sameCore_of_refused (by simpa [accepts] using haccepts) hcall
    rw [hsame]
    exact h

end Endpoint

/-- What the messages of a packet say. -/
def packetContents (payload : List UInt8) : List MessageContent :=
  match Message.parseAll false payload.length BufPool.default payload with
  | .ok ms => ms.map Message.content
  | .error _ => []

/-- A packet that was put together from what was sent says what its messages say. -/
theorem forall₂_packetContents {sends : List SendCall} {ms : List Message}
    (h : ∀ m ∈ ms, m.SentBy sends) :
    List.Forall₂ (fun (m : Message) c => m.Writes c ∧ c.WellFormed ∧
      ¬ c.Truncated ∧ ∃ s ∈ sends, c ∈ s.contents) ms
      (packetContents (ms.flatMap fun m => m.buffer.data)) := by
  obtain ⟨cs, hcs⟩ : ∃ cs, List.Forall₂ (fun (m : Message) c => m.Writes c ∧
    c.WellFormed ∧ ¬ c.Truncated ∧
      ∃ s ∈ sends, c ∈ s.contents) ms cs := by
    induction ms with
    | nil => exact ⟨[], .nil⟩
    | cons m ms ih =>
      obtain ⟨s, hs, c, hc, hwrites, hwf, htrunc⟩ := h m (List.mem_cons_self ..)
      obtain ⟨cs, hcs⟩ := ih fun x hx => h x (List.mem_cons_of_mem _ hx)
      exact ⟨c :: cs, .cons ⟨hwrites, hwf, htrunc, s, hs, hc⟩ hcs⟩
  have hrounds : ms.length ≤ (ms.flatMap fun m => m.buffer.data).length := by
    rw [List.length_flatMap]
    clear h
    induction hcs with
    | nil => simp
    | cons hm _ ih =>
      have := hm.1.2.2.2.length_data.1
      rw [List.map_cons, List.sum_cons, List.length_cons]
      omega
  have hall : ∀ c ∈ cs, c.WellFormed ∧ ¬ c.Truncated := by
    intro c hc
    obtain ⟨m, -, hm⟩ := exists_of_forall₂_mem hcs hc
    exact ⟨hm.2.1, hm.2.2.1⟩
  obtain ⟨ms', hparse, hcontents⟩ := (parseAll_content_iff (hcs.imp fun _ _ hm => hm.1)
    (fun c hc => (hall c hc).1) false BufPool.default hrounds).mpr fun c hc => (hall c hc).2
  have heq : packetContents (ms.flatMap fun m => m.buffer.data) = cs := by
    rw [packetContents, hparse]
    exact hcontents
  rw [heq]
  exact hcs

/-! ### Runs of two endpoints -/

namespace Link

variable {l l' : Link}

/-- The calls by which a side has queued messages. -/
def queuedBy (l : Link) (e : Side) : List SendCall := (l.sends e).filter SendCall.enqueues

/-- The fragments in the packet are unmixed with what its receiver holds, unless it is refused. -/
def Unmixed (l : Link) (f : Flight) : Prop :=
  ∀ packet payload, readPacket f.bytes = .ok (packet, payload) →
    (l.endpoint f.source.other).accepts packet.header = true →
      packet.header.packetType = .messages →
      (l.endpoint f.source.other).dispatcher.messageReassembler.Unmixed (l.queuedBy f.source)
        (packetContents payload)

instance (l : Link) (f : Flight) : Decidable (l.Unmixed f) :=
  decidable_of_iff (∀ r ∈ (readPacket f.bytes).toOption,
      (l.endpoint f.source.other).accepts r.1.header = true → r.1.header.packetType = .messages →
        (l.endpoint f.source.other).dispatcher.messageReassembler.Unmixed (l.queuedBy f.source)
          (packetContents r.2)) <| by
    rw [Unmixed]
    cases readPacket f.bytes with
    | error err => simp [Except.toOption]
    | ok r =>
      simp only [Except.toOption, Option.mem_some_iff, forall_eq', Except.ok.injEq]
      exact ⟨fun h packet payload heq => by rwa [heq] at h, fun h => h r.1 r.2 rfl⟩

/-- The calls of an application over such a network, with payloads that are read back as they were
sent. -/
def PermitsReadable (l : Link) : Call → Prop
  | .sendMessage e channel payload => (l.endpoint e).TakesSend channel payload → Readable payload
  | c => l.Permits c

/-- With payloads of at most 255 fragments. -/
def PermitsShort (l : Link) : Call → Prop
  | .sendMessage _ _ payload => payload.length ≤ 255 * 1024
  | c => l.Permits c

instance (l : Link) (c : Call) : Decidable (l.PermitsShort c) :=
  match c with
  | .sendMessage _ _ payload => inferInstanceAs (Decidable (payload.length ≤ 255 * 1024))
  | .update e dt => inferInstanceAs (Decidable (l.Permits (.update e dt)))
  | .visitPacketsToSend e => inferInstanceAs (Decidable (l.Permits (.visitPacketsToSend e)))
  | .deliver f => inferInstanceAs (Decidable (l.Permits (.deliver f)))
  | .sendKeepAlive e clientIndex =>
    inferInstanceAs (Decidable (l.Permits (.sendKeepAlive e clientIndex)))

theorem PermitsShort.readable {c : Call} (h : l.PermitsShort c) : l.PermitsReadable c := by
  cases c with
  | sendMessage e channel payload => exact fun _ => readable_of_le h
  | update e dt => exact h
  | visitPacketsToSend e => exact h
  | deliver f => exact h
  | sendKeepAlive e clientIndex => exact h

/-- The same, where no fragment meets those of another send. -/
def PermitsUnmixed (l : Link) (c : Call) : Prop :=
  l.PermitsShort c ∧ match c with
    | .deliver f => l.Unmixed f
    | _ => True

instance (l : Link) (c : Call) : Decidable (l.PermitsUnmixed c) :=
  match c with
  | .deliver f => inferInstanceAs (Decidable (l.PermitsShort (.deliver f) ∧ l.Unmixed f))
  | .sendMessage e channel payload =>
    inferInstanceAs (Decidable (l.PermitsShort (.sendMessage e channel payload) ∧ True))
  | .update e dt => inferInstanceAs (Decidable (l.PermitsShort (.update e dt) ∧ True))
  | .visitPacketsToSend e =>
    inferInstanceAs (Decidable (l.PermitsShort (.visitPacketsToSend e) ∧ True))
  | .sendKeepAlive e clientIndex =>
    inferInstanceAs (Decidable (l.PermitsShort (.sendKeepAlive e clientIndex) ∧ True))

/-- What side `e` has done is on record: the messages that it holds for sending and those in its
packets are those of the calls of `send_message`. -/
structure Recorded (l : Link) (e : Side) : Prop where
  intact : (l.endpoint e).Intact
  outbox : (l.endpoint e).outbox = []
  regular : ∀ s ∈ l.queuedBy e, s.Regular
  queued : (l.endpoint e).Queues (Message.SentBy (l.queuedBy e))
  net : ∀ f ∈ l.net, f.source = e → ∀ packet payload, readPacket f.bytes = .ok (packet, payload) →
    packet.header.packetType = .messages →
      ∃ ms : List Message, (∀ m ∈ ms, m.SentBy (l.queuedBy e)) ∧
        payload = ms.flatMap fun m => m.buffer.data

/-- The record of one side, and what its peer has made of it. -/
def Faithful (l : Link) : Prop :=
  ∀ e, l.Recorded e ∧ (l.endpoint e).dispatcher.Faithful (l.queuedBy e.other)

theorem faithful_start (overflowChecks : Side → Bool) (time : Side → Time) (salt : Side → UInt64) :
    (start overflowChecks time salt).Faithful := by
  intro e
  have hnew := Endpoint.intact_new (overflowChecks e) (time e)
  refine ⟨⟨⟨hnew.config, hnew.channels, hnew.ids, hnew.sentLen,
    hnew.receivedLen, hnew.handlesLen, hnew.fragLen⟩,
    rfl, by simp [start, queuedBy], ?_, by simp [start]⟩, MessageReassembler.placed_empty,
    fun _ _ hmsg => by cases hmsg⟩
  intro ch hch m hm
  rcases List.mem_pair.mp hch with rfl | rfl <;> cases hm

/-- A call on side `e`. -/
theorem Faithful.of_side (h : l.Faithful) (e : Side)
    (hother : l'.endpoint e.other = l.endpoint e.other)
    (hsends : l'.queuedBy e.other = l.queuedBy e.other)
    (hgrows : ∀ s ∈ l.queuedBy e, s ∈ l'.queuedBy e)
    (hnet : ∀ f ∈ l'.net, f.source = e.other → f ∈ l.net) (hrecorded : l'.Recorded e)
    (hfaithful : (l'.endpoint e).dispatcher.Faithful (l.queuedBy e.other)) : l'.Faithful := by
  have hsides : ∀ e', e' = e ∨ e' = e.other := by
    intro e'
    cases e <;> cases e' <;> simp [Side.other]
  intro e'
  rcases hsides e' with rfl | rfl
  · exact ⟨hrecorded, by rw [hsends]; exact hfaithful⟩
  · obtain ⟨hrec, hfaith⟩ := h e.other
    refine ⟨⟨by rw [hother]; exact hrec.intact, by rw [hother]; exact hrec.outbox, by
      rw [hsends]; exact hrec.regular,
      by rw [hother, hsends]; exact hrec.queued, fun f hf hsource => ?_⟩, ?_⟩
    · rw [hsends]
      exact hrec.net f (hnet f hf hsource) hsource
    · rw [hother, Side.other_other] at *
      exact hfaith.mono hgrows

variable {e : Side}

/-- `send_message`: a call that queues something is put on record with it. -/
theorem Faithful.sendMessage (h : l.Faithful) {channel : UInt8} {payload : List UInt8}
    (hread : (l.endpoint e).TakesSend channel payload → Readable payload)
    {p : Endpoint} {res : Except PicklebackError MessageId}
    (hcall : (l.endpoint e).sendMessage channel payload = .ok (p, res))
    (hendpoint : l'.endpoint = Function.update l.endpoint e p) (hnet : l'.net = l.net)
    (hsends : l'.sends = Function.update l.sends e (l.sends e ++
      [⟨channel, payload, (l.endpoint e).dispatcher.nextMessageId, res⟩])) : l'.Faithful := by
  obtain ⟨hrec, hfaith⟩ := h e
  have hintact := hrec.intact.sendMessage hcall
  set s : SendCall := ⟨channel, payload, (l.endpoint e).dispatcher.nextMessageId, res⟩ with hs
  have hqueued : l'.queuedBy e = l.queuedBy e ++ [s].filter SendCall.enqueues := by
    rw [queuedBy, hsends, Function.update_self, List.filter_append, queuedBy]
  have hsub : ∀ x ∈ l.queuedBy e, x ∈ l'.queuedBy e := fun x hx =>
    hqueued ▸ List.mem_append_left _ hx
  have hcases : p.outbox = [] ∧ (∀ x ∈ l'.queuedBy e, x.Regular) ∧
      p.Queues (Message.SentBy (l'.queuedBy e)) ∧ p.dispatcher.Faithful (l.queuedBy e.other) := by
    obtain ⟨-, hfails, hp⟩ | ⟨htakes, henqueues, hlen, ch, ms, hch, hblock, hrecords, hp⟩ :=
      Endpoint.sendMessage_takes_cases hrec.intact hcall (l.endpoint e).dispatcher.nextMessageId
    · have hsame : l'.queuedBy e = l.queuedBy e := by
        rw [hqueued, List.filter_cons_of_neg (by simp [hs, hfails]),
          List.filter_nil, List.append_nil]
      rw [hsame, hp]
      exact ⟨hrec.outbox, hrec.regular, hrec.queued, hfaith⟩
    · have hmem : s ∈ l'.queuedBy e := by
        rw [hqueued, List.filter_cons_of_pos henqueues]
        exact List.mem_append_right _ (List.mem_cons_self ..)
      refine ⟨by rw [hp]; exact hrec.outbox, fun x hx => ?_, fun c hc m hm => ?_, ?_⟩
      · rw [hqueued] at hx
        rcases List.mem_append.mp hx with hx | hx
        · exact hrec.regular x hx
        · obtain rfl := List.mem_singleton.mp (List.mem_of_mem_filter hx)
          exact ⟨hlen, fun id hid => hrecords.id_eq hid⟩
      · rw [hp] at hc
        rcases ChannelList.mem_set hc with rfl | ⟨hc, -⟩
        · rw [Channel.queued_pushAll] at hm
          rcases List.mem_append.mp hm with hm | hm
          · exact (hrec.queued ch (ChannelList.mem_of_get? hch) m hm).mono hsub
          · refine Message.sentBy_of_sendBlock hmem hlen (hread htakes) ?_ hblock hm
            show channel.toNat < maxChannels
            rcases hrec.intact.configured.channel_eq hch with rfl | rfl <;> decide
        · exact (hrec.queued c hc m hm).mono hsub
      · generalize p.dispatcher = d at hrecords
        cases hrecords <;> exact hfaith.of_intake rfl rfl
  obtain ⟨houtbox, hregular, hqueues, hfaithful⟩ := hcases
  have hend : l'.endpoint e = p := by rw [hendpoint, Function.update_self]
  refine h.of_side e ?_ ?_ hsub ?_ ⟨?_, ?_, hregular, ?_,
    fun f hf hsource packet bytes hread htype => ?_⟩ ?_
  · rw [hendpoint, Function.update_of_ne e.other_ne]
  · rw [queuedBy, hsends, Function.update_of_ne e.other_ne, ← queuedBy]
  · exact fun f hf _ => hnet ▸ hf
  · rw [hend]
    exact hintact
  · rw [hend]
    exact houtbox
  · rw [hend]
    exact hqueues
  · obtain ⟨ms, hms, heq⟩ := hrec.net f (hnet ▸ hf) hsource packet bytes hread htype
    exact ⟨ms, fun m hm => (hms m hm).mono hsub, heq⟩
  · rw [hend]
    exact hfaithful

/-- `visit_packets_to_send`: the packets are put together from what is on record. -/
theorem Faithful.visitPacketsToSend (h : l.Faithful) {p : Endpoint} {packets : List (List UInt8)}
    (hcall : (l.endpoint e).visitPacketsToSend = .ok (p, packets)) :
    ((l.setEndpoint e p).launch e packets).Faithful := by
  obtain ⟨hrec, hfaith⟩ := h e
  have hintact := hrec.intact.visitPacketsToSend hcall
  obtain ⟨es, p₁, p₂, r, hall, -, hstop, hp, hpackets⟩ :=
    Endpoint.visitPacketsToSend_cases hrec.intact hcall
  obtain ⟨hqueues, hes⟩ := hrec.queued.emitsAll hall
  have hbytes : packets = es.map Emission.bytes := by
    rw [hpackets, hstop.outbox, hall.outbox, hrec.outbox]
    rfl
  refine h.of_side e ?_ rfl (fun s hs => hs) ?_ ?_ ?_
  · simp [launch, setEndpoint]
  · intro f hf hsource
    rcases List.mem_append.mp hf with hf | hf
    · exact hf
    · exact absurd ((mem_flights hf).1.symm.trans hsource) (Ne.symm e.other_ne)
  · refine ⟨by simpa [launch, setEndpoint] using hintact, ?_, hrec.regular, ?_,
      fun f hf hsource packet bytes hread htype => ?_⟩
    · simp only [launch, setEndpoint, Function.update_self]
      rw [hp]
    · simp only [launch, setEndpoint, Function.update_self]
      intro ch hch m hm
      rw [hp] at hch
      exact hqueues ch (hstop.channels ▸ hch) m hm
    · rcases List.mem_append.mp hf with hf | hf
      · exact hrec.net f hf hsource packet bytes hread htype
      · have hmem := (mem_flights hf).2
        rw [hbytes] at hmem
        obtain ⟨em, hem, hembytes⟩ := List.mem_map.mp hmem
        obtain ⟨⟨header, -, hreadEm⟩, hmessages⟩ := hes em hem
        rw [← hembytes, hreadEm] at hread
        cases hread
        refine ⟨em.messages, fun m hm => ?_, rfl⟩
        obtain ⟨m₀, hm₀, hcopies⟩ := hmessages m hm
        exact hm₀.of_copies hcopies
  · have hintake := hrec.intact.sameIntake_visitPacketsToSend hcall
    simp only [launch, setEndpoint, Function.update_self]
    exact hfaith.of_intake hintake.messageReassembler hintake.messageInbox

/-- `process_incoming_packet`, with a packet from the network that is unmixed. -/
theorem Faithful.processIncomingPacket (h : l.Faithful) {f : Flight}
    (hf : f ∈ l.net) (hunmixed : l.Unmixed f)
    {packet : ProtocolPacket} {payload : List UInt8}
    (hread : readPacket f.bytes = .ok (packet, payload))
    {p : Endpoint} {r : Except PicklebackError Unit}
    (hcall : (l.endpoint f.source.other).processIncomingPacket packet.header payload = .ok (p, r))
    (hendpoint : l'.endpoint = Function.update l.endpoint f.source.other p)
    (hsends : l'.sends = l.sends)
    (hnet : l'.net = l.net) : l'.Faithful := by
  obtain ⟨hrec, hfaith⟩ := h f.source.other
  obtain ⟨hsource, -⟩ := h f.source
  rw [Side.other_other] at hfaith
  have hset : l'.endpoint f.source.other = p := by rw [hendpoint, Function.update_self]
  have hintact := hrec.intact.step (c := .processIncomingPacket packet.header payload)
    (by rw [Endpoint.step, hcall]; rfl)
  have hfaithful := Endpoint.faithful_processIncomingPacket hsource.regular hfaith
    (fun haccepts htype => by
      refine ⟨hunmixed packet payload hread haccepts htype, ?_⟩
      obtain ⟨ms, hms, rfl⟩ := hsource.net f hf rfl packet payload hread htype
      exact ⟨ms, forall₂_packetContents hms, rfl⟩) hcall
  have hqueued : ∀ e, l'.queuedBy e = l.queuedBy e := fun e => by rw [queuedBy, hsends, queuedBy]
  refine h.of_side f.source.other ?_ (hqueued _) (fun s hs => by rw [hqueued]; exact hs)
    (fun x hx _ => by rw [← hnet]; exact hx) ⟨?_, ?_, ?_, ?_, ?_⟩ ?_
  · rw [hendpoint, Side.other_other, Function.update_of_ne (Ne.symm f.source.other_ne)]
  · rw [hset]
    exact hintact
  · rw [hset, (Endpoint.sameSetup_processIncomingPacket hcall).outbox]
    exact hrec.outbox
  · rw [hqueued]
    exact hrec.regular
  · rw [hset, hqueued]
    exact hrec.queued.processIncomingPacket hrec.intact hcall
  · rw [hnet, hqueued]
    exact hrec.net
  · rw [hset, Side.other_other]
    exact hfaithful

/-- **One call.** -/
theorem Faithful.step (h : l.Faithful) {c : Call} (hc : l.PermitsReadable c)
    (hunmixed : ∀ f, c = .deliver f → l.Unmixed f) (hstep : l.step c = .ok l') : l'.Faithful := by
  cases c with
  | sendMessage e channel payload =>
    simp only [Link.step] at hstep
    split at hstep
    · cases hstep
    · next hcall =>
      cases hstep
      exact h.sendMessage hc hcall rfl rfl rfl
  | update e dt =>
    cases hstep
    obtain ⟨hrec, hfaith⟩ := h e
    refine h.of_side e ?_ rfl (fun s hs => hs) (fun f hf _ => hf) ?_ ?_
    · simp [setEndpoint]
    · refine ⟨by simpa [setEndpoint] using hrec.intact.update dt, ?_, hrec.regular, ?_, hrec.net⟩
      · simp only [setEndpoint, Function.update_self]
        exact hrec.outbox
      · simp only [setEndpoint, Function.update_self]
        exact hrec.queued.of_sameQueue (Endpoint.sameQueue_update _ dt)
    · simp only [setEndpoint, Function.update_self]
      exact hfaith
  | visitPacketsToSend e =>
    simp only [Link.step] at hstep
    split at hstep
    · cases hstep
    · next hcall =>
      cases hstep
      exact h.visitPacketsToSend hcall
  | deliver f =>
    simp only [Link.step] at hstep
    split at hstep
    · cases hstep
      exact h
    · next packet payload hread =>
      split at hstep
      · cases hstep
      · next p r hcall =>
        cases hstep
        refine h.processIncomingPacket hc.1 (hunmixed f rfl) hread hcall ?_ ?_ ?_ <;> split <;> rfl
  | sendKeepAlive e clientIndex => exact hc.elim

/-- **Payload integrity.** In every run of two endpoints over a network that neither alters nor
forges packets, with payloads of at most 255 fragments, and in which no packet brings a fragment to
the remains of another send: every message that a side has put into an inbox has the channel, the id
and the payload of one call of `send_message` of its peer. -/
theorem exists_is_of_mem_messageInbox (h : Reachable PermitsUnmixed l) {e : Side} {channel : UInt8}
    {msg : ReceivedMessage} (hmsg : msg ∈ (l.endpoint e).dispatcher.messageInbox channel) :
    ∃ s ∈ l.sends e.other, s.Is msg ∧ ∀ id, s.result = .ok id → msg.id? = some id := by
  have hfaithful : l.Faithful :=
    h.invariant (fun overflowChecks time salt => faithful_start overflowChecks time salt)
    fun _ hl hc hstep => hl.step hc.1.readable (fun f hf => by subst hf; exact hc.2) hstep
  obtain ⟨s, hs, his⟩ := (hfaithful e).2.inbox channel msg hmsg
  refine ⟨s, List.mem_of_mem_filter hs, his, fun id hid => ?_⟩
  rw [((hfaithful e.other).1.regular s hs).result id hid]
  exact his.id

/-- A payload of two fragments arrives, the second fragment first. -/
theorem exists_is_of_mem_messageInbox_swapped : ∃ l msg, Reachable PermitsUnmixed l ∧
    msg ∈ (l.endpoint .right).dispatcher.messageInbox 0 ∧ msg.payload = List.replicate 2048 1 ∧
      ∃ s ∈ l.sends .left, s.Is msg ∧ ∀ id, s.result = .ok id → msg.id? = some id := by
  have hrun : ((start (fun _ => true) (fun _ => 1) fun _ => 7).run PermitsUnmixed [
      fun _ => .sendMessage .left 0 (List.replicate 2048 1), fun _ => .visitPacketsToSend .left,
      deliverAt 1, deliverAt 0]).map (fun l =>
        ((l.endpoint .right).dispatcher.messageInbox 0).map ReceivedMessage.payload) =
          some [List.replicate 2048 1] := by decide +kernel
  obtain ⟨l, hl, hinbox⟩ := Option.map_eq_some_iff.mp hrun
  obtain ⟨msg, hmsg, hpayload⟩ := List.map_eq_singleton_iff.mp hinbox
  have hreach : Reachable PermitsUnmixed l := reachable_of_run (.start _ _ _) hl
  have hmem : msg ∈ (l.endpoint .right).dispatcher.messageInbox 0 := by
    rw [hmsg]
    exact List.mem_singleton_self msg
  exact ⟨l, msg, hreach, hmem, hpayload, exists_is_of_mem_messageInbox hreach hmem⟩

/-! ### A run that mixes two sends -/

/-- The payloads in the inbox of channel 0. -/
def payloads (l : Link) (e : Side) : List (List UInt8) :=
  ((l.endpoint e).dispatcher.messageInbox 0).map ReceivedMessage.payload

/-- What becomes of a packet depends on its receiver alone. -/
theorem exists_deliver (f f' : Flight) (hbytes : f'.bytes = f.bytes)
    (hsource : f'.source = f.source)
    (hendpoint : l'.endpoint f.source.other = l.endpoint f.source.other) {l₁ : Link}
    (hstep : l.step (.deliver f) = .ok l₁) :
    ∃ l₁', l'.step (.deliver f') = .ok l₁' ∧
      l₁'.endpoint f.source.other = l₁.endpoint f.source.other ∧
      l₁'.sends = l'.sends := by
  simp only [step] at hstep ⊢
  rw [hbytes, hsource]
  cases hread : readPacket f.bytes with
  | error err =>
    simp only [hread] at hstep
    cases hstep
    exact ⟨l', rfl, hendpoint, rfl⟩
  | ok r =>
    simp only [hread] at hstep
    split at hstep
    · cases hstep
    · next p res hcall =>
      cases hstep
      simp only [hendpoint, hcall]
      refine ⟨_, rfl, by simp [setEndpoint], ?_⟩
      split <;> rfl

/-- Of the two fragments of a payload, the second arrives. -/
def halfDelivered : List (Link → Call) := [
  fun _ => .sendMessage .left 0 (List.replicate 2048 0), fun _ => .visitPacketsToSend .left,
  deliverAt 1]

/-- The first fragment of another payload, with the same ids, in the next packet. -/
def otherHalf (l : Link) : Option (List UInt8) :=
  (Message.writeHeaders 0 (some ⟨0, 2, 0⟩) (.ofLength 1024) 0 1024).toOption.bind fun headers =>
    (l.endpoint .left).packetOf (headers ++ List.replicate 1024 1)

/-- What the run below has to know of its beginning. -/
def AfterHalf (l : Link) : Prop :=
  (l.net.length = 2 ∧ l.sent .left = 2 ∧ l.sent .right = 0 ∧
    (l.sends .left).map SendCall.payload = [List.replicate 2048 0]) ∧
  ((l.endpoint .left).channels.map Channel.id = [0, 1] ∧ (l.endpoint .left).Stuffed ∧
    (l.endpoint .left).channels.head?.map (fun ch => (ch.isReliable, ch.queued.length)) =
      some (false, 0)) ∧
  ((l.endpoint .left).Unhindered ∧ (l.endpoint .left).dispatcher.nextMessageId = 2 ∧
    (l.endpoint .left).dispatcher.sentFragMap.len = 25000 ∧
    SequenceBuffer.sequenceLessThan 0 ((l.endpoint .left).dispatcher.sentFragMap.sequence - 25000) =
      false) ∧
  l.otherHalf.any (fun bytes => (l.step (.deliver ⟨.left, 3, 0, bytes⟩)).toOption.any fun l' =>
    decide (l'.payloads .right = [List.replicate 1024 1 ++ List.replicate 1024 0])) = true

instance (l : Link) : Decidable l.AfterHalf := inferInstanceAs (Decidable (_ ∧ _ ∧ _ ∧ _))

theorem exists_afterHalf : ∃ l, Reachable PermitsShort l ∧ l.AfterHalf := by
  have hrun : ((start (fun _ => true) (fun _ => 1) fun _ => 7).run PermitsShort halfDelivered).map
      (fun l => decide l.AfterHalf) = some true := by decide +kernel
  obtain ⟨l, hl, hhalf⟩ := Option.map_eq_some_iff.mp hrun
  exact ⟨l, reachable_of_run (.start _ _ _) hl, of_decide_eq_true hhalf⟩

/-- The first of two full fragments. -/
theorem exists_headers_of_sendBlock {parent : MessageId} {channel : UInt8}
    {payload : List UInt8} {m : Message}
    {ms : List Message} (hlen : payload.length = 2048)
    (h : SendBlock parent channel payload (m :: ms)) :
    ∃ headers, Message.writeHeaders parent (some ⟨0, 2, parent⟩)
    (.ofLength 1024) channel 1024 = .ok headers ∧
      m.buffer.data = headers ++ chunk payload 0 := by
  have hN : numFragments payload = 2 := by
    rw [numFragments, hlen]
    rfl
  have hchunk : (chunk payload 0).length = 1024 := by
    rw [chunk, List.length_take, List.length_drop]
    omega
  rw [SendBlock, if_neg (by omega), hN] at h
  obtain ⟨hid, hchannel, hfragment, -, -, hmode, headers, hheaders, hdata⟩ := h.2 0 m rfl
  rw [hid, hchannel, hfragment, hmode, hchunk, hN, show UInt16.ofNat 0 = 0
    from rfl, UInt16.add_zero] at hheaders
  exact ⟨headers, hheaders, hdata⟩

/-- The right side holds the second fragment of a payload whose first fragment is lost. When its ids
come round again, it gets the first fragment of another payload, and puts the two together. -/
theorem not_exists_is_of_mem_messageInbox :
    ¬ ∀ l, Reachable PermitsShort l → ∀ e channel,
      ∀ msg ∈ (l.endpoint e).dispatcher.messageInbox channel,
      ∃ s ∈ l.sends e.other, s.Is msg := by
  intro hall
  obtain ⟨l₁, hl₁, ⟨hnet, hleft, hright, hsends⟩, ⟨hids, hstuffed, hfirst⟩,
    ⟨hfree, hnext, hlen, hreg⟩, hmixes⟩ :=
    exists_afterHalf
  have hsound := sound_of_reachable hl₁ .left
  have hintact : (l₁.endpoint .left).Intact :=
    ⟨hsound.config, hsound.channels, hids, hsound.sentLen, hsound.receivedLen,
      hsound.handlesLen, hlen⟩
  -- 65534 sends bring the counter of messages back to 0
  have hparent : (l₁.endpoint .left).dispatcher.nextMessageId + UInt16.ofNat 65534 = 0 := by
    rw [hnext]
    decide
  obtain ⟨large, hlarge⟩ : ∃ large, large = List.replicate 1024 (0 : UInt8) := ⟨_, rfl⟩
  obtain ⟨other, hother⟩ : ∃ other, other = List.replicate 2048 (1 : UInt8) := ⟨_, rfl⟩
  have hlargeLen : large.length = 1024 := by rw [hlarge, List.length_replicate]
  have hotherLen : other.length = 2048 := by rw [hother, List.length_replicate]
  obtain ⟨l₃, m, bytes, hl₃, hfloods⟩ :=
    exists_floods hl₁ hintact hfree hstuffed hfirst 65534 hlargeLen
    (show other.length = 1024 * (1 + 1) from hotherLen) (by decide)
      (fun _ => by rw [hparent]; exact hreg)
    (fun _ _ => hlargeLen.trans_le (by decide)) (fun _ _ => hotherLen.trans_le (by decide))
      (fun _ => trivial)
  have hpacketOf : l₁.otherHalf = some bytes := by
    have hchunk : chunk other 0 = List.replicate 1024 1 := by
      rw [hother, chunk, Nat.zero_mul, List.drop_zero, List.take_replicate]
      rfl
    obtain ⟨ms, hblock⟩ := hfloods.block
    obtain ⟨headers, hheaders, hdata⟩ := exists_headers_of_sendBlock hotherLen hblock
    rw [hparent] at hheaders
    have hpacket := hfloods.packet
    rw [hdata, hchunk] at hpacket
    rw [otherHalf, hheaders]
    exact hpacket
  -- the right side puts it together with the fragment that it still holds
  rw [hpacketOf, Option.any_some] at hmixes
  obtain ⟨l₁', hstep, hmixed⟩ := exists_of_any_toOption hmixes
  obtain ⟨l₄, hstep₄, hright₄, hsends₄⟩ := exists_deliver ⟨.left, 3, 0, bytes⟩
    ⟨.left, l₁.sent .left + 1, l₁.sent .right, bytes⟩ rfl rfl hfloods.right hstep
  have htimely : l₃.Timely ⟨.left, l₁.sent .left + 1, l₁.sent .right, bytes⟩ := by
    have hfew := hfloods.few
    have hsent := hfloods.sent
    rw [Timely, Side.other]
    dsimp only
    omega
  have hl₄ := hl₃.step (c := .deliver ⟨.left, l₁.sent .left + 1, l₁.sent .right, bytes⟩)
    ⟨hfloods.net, htimely⟩ hstep₄
  obtain ⟨msg, hmsg, hpayload⟩ := List.map_eq_singleton_iff.mp (of_decide_eq_true hmixed)
  obtain ⟨s, hs, his⟩ := hall l₄ hl₄ .right 0 msg (by
    rw [show l₄.endpoint .right = l₁'.endpoint .right from hright₄, hmsg]
    exact List.mem_singleton_self msg)
  -- no call was given that
  rw [his.payload] at hpayload
  rw [hsends₄] at hs
  have hgiven : s.payload ∈ [List.replicate 2048 (0 : UInt8), List.replicate 1024 0,
    List.replicate 2048 1] := by
    rcases hfloods.sends s hs with hs | hs | hs
    · have := List.mem_map_of_mem (f := SendCall.payload) hs
      rw [hsends] at this
      exact List.mem_append_left _ this
    · rw [hs, hlarge]
      exact List.mem_cons_of_mem _ (List.mem_cons_self ..)
    · rw [hs, hother]
      exact List.mem_cons_of_mem _ (List.mem_cons_of_mem _ (List.mem_cons_self ..))
  rw [hpayload] at hgiven
  exact absurd hgiven (by decide +kernel)

end Link

end Pickleback
