import Pickleback.ClientEndpoints
import Pickleback.FragmentAcks
import Pickleback.Receipt
import Pickleback.ServerTime

/-!
# Packets that do no harm

Receiving can end in a panic. The parser does not compare the two numbers of a fragment header with
each other, or with what is held of the same message already, but the reassembler has assertions
about them. The acks of a packet end in an assertion where the ids of its messages are in use again.

What decides is small: the windows of the channels, which fragments of which messages have come in,
the ids of the whole messages that wait to be sent again, and the map of fragmented messages. A
packet is followed over these, message by message and ack by ack, as the ones before leave them.

## Main definitions

* `Parts.Fits` — there is a place for a fragment
* `offered` — the fragments in a packet that the windows let through
* `AdmitsHandles` — no ack meets an assertion
* `Endpoint.Admits` — a packet that does no harm

## Main results

* `MessageReassembler.exists_addFragment_iff` — exactly the fragments with a place are taken
* `Endpoint.exists_processMessages_iff`, `MessageDispatcher.admitsHandles_append_iff` — messages,
  acks
* `Endpoint.Receptive.exists_processIncomingPacket_iff` — exactly the admitted packets are received
-/

namespace Pickleback

open ByteCodec

/-! ### Fragments -/

/-- Which fragments have come in of the messages that are not complete. -/
abbrev Parts := MessageId → Option (List Bool)

namespace Parts

/-- There is a place for the fragment: in the message that is held under its parent id, or in a new
one of at least two fragments. A fragment of a message that is too long is dropped. -/
def Fits (parts : Parts) (f : Fragment) : Prop :=
  f.numFragments.toNat ≤ maxFragments →
    match parts f.parentId with
    | none => 2 ≤ f.numFragments.toNat ∧ f.index < f.numFragments
    | some present => f.index.toNat < present.length

instance (parts : Parts) (f : Fragment) : Decidable (parts.Fits f) := by
  unfold Fits
  split <;> infer_instance

/-- The fragment is put in its place. A message that is complete with it leaves. -/
def take (parts : Parts) (f : Fragment) : Parts :=
  if f.numFragments.toNat ≤ maxFragments then
    let present := ((parts f.parentId).getD (List.replicate f.numFragments.toNat false)).set
      f.index.toNat true
    Function.update parts f.parentId (if present.all id then none else some present)
  else parts

/-- There is a place for each of the fragments when its turn comes. -/
def FitsAll : Parts → List Fragment → Prop
  | _, [] => True
  | parts, f :: fs => parts.Fits f ∧ FitsAll (parts.take f) fs

instance decidableFitsAll : (parts : Parts) → (fs : List Fragment) → Decidable (parts.FitsAll fs)
  | _, [] => isTrue trivial
  | parts, f :: fs =>
    have := decidableFitsAll (parts.take f) fs
    inferInstanceAs (Decidable (parts.Fits f ∧ FitsAll (parts.take f) fs))

end Parts

namespace IncompleteMessage

/-- Which fragments have come in. -/
def present (inc : IncompleteMessage) : List Bool := inc.fragments.map Option.isSome

theorem length_present (inc : IncompleteMessage) : inc.present.length = inc.fragments.length :=
  List.length_map ..

theorem all_present_iff (inc : IncompleteMessage) :
    inc.present.all id = true ↔ inc.fragments.countP Option.isSome = inc.fragments.length := by
  rw [List.countP_eq_length, List.all_eq_true]
  simp [present]

/-- A partial message is not complete. -/
theorem Consistent.all_present {inc : IncompleteMessage} (h : inc.Consistent) :
    inc.present.all id = false := by
  rw [← Bool.not_eq_true, all_present_iff]
  exact h.missing.ne

theorem present_fill (inc : IncompleteMessage) (i : UInt16) (m : Message) :
    (inc.fill i m).present = inc.present.set i.toNat true := by
  rw [present, fill, List.map_set]
  rfl

/-- A fragment beyond the end is refused with an assertion. -/
theorem lt_of_addFragment {inc : IncompleteMessage} {i : UInt16} {m : Message}
    {r : Bool × IncompleteMessage} (h : inc.addFragment i m = .ok r) : i < inc.numFragments := by
  by_contra hlt
  rw [addFragment, if_pos hlt] at h
  split at h <;> cases h

end IncompleteMessage

namespace MessageReassembler

/-- Which fragments have come in. -/
def parts (r : MessageReassembler) : Parts := fun parent =>
  (r.inProgress parent).map IncompleteMessage.present

variable {r r' : MessageReassembler} {m : Message} {f : Fragment}

theorem parts_setSlots (r : MessageReassembler) (parent : MessageId)
    (inc : Option IncompleteMessage) : (r.setSlots parent inc).parts
      = Function.update r.parts parent (inc.map IncompleteMessage.present) := by
  funext parent'
  simp only [parts, setSlots]
  by_cases hparent : parent' = parent
  · rw [hparent, Function.update_self, Function.update_self]
  · rw [Function.update_of_ne hparent, Function.update_of_ne hparent]
    rfl

/-- A fragment of a message that is too long is dropped. -/
theorem addFragment_of_gt (hf : m.fragment = some f)
    (hmax : ¬ f.numFragments.toNat ≤ maxFragments) : r.addFragment m = .ok (none, r) := by
  have hbig : f.numFragments > UInt16.ofNat maxFragments := by
    rw [gt_iff_lt, UInt16.lt_iff_toNat_lt]
    exact not_le.mp hmax
  simp only [addFragment, hf, if_pos hbig]

theorem fits_of_addFragment (hr : r.Consistent) (hf : m.fragment = some f)
    {x : Option ReceivedMessage × MessageReassembler} (h : r.addFragment m = .ok x) :
    r.parts.Fits f := by
  intro hmax
  have hsmall : ¬ f.numFragments > UInt16.ofNat maxFragments := by
    rw [gt_iff_lt, UInt16.lt_iff_toNat_lt]
    exact not_lt.mpr hmax
  simp only [addFragment, hf, if_neg hsmall] at h
  split at h
  · cases h
  · next ready inc hstore =>
    simp only [store] at hstore
    cases hget : r.inProgress f.parentId with
    | some inc₀ =>
      rw [hget] at hstore
      have hlt := UInt16.lt_iff_toNat_lt.mp (IncompleteMessage.lt_of_addFragment hstore)
      simp only [parts, hget, Option.map_some, IncompleteMessage.length_present]
      rw [(hr _ _ hget).length]
      exact hlt
    | none =>
      rw [hget] at hstore
      dsimp only at hstore
      simp only [parts, hget, Option.map_none]
      split at hstore
      · cases hstore
      · next inc₀ hnew =>
        obtain ⟨_, hadd, -⟩ := exists_of_map_eq_ok hstore
        have hlt := IncompleteMessage.lt_of_addFragment hadd
        simp only [IncompleteMessage.new] at hnew
        split at hnew
        · cases hnew
        · split at hnew
          · cases hnew
          · next htwo =>
            cases hnew
            rw [not_not, gt_iff_lt, UInt16.lt_iff_toNat_lt] at htwo
            exact ⟨htwo, hlt⟩

/-- The partial message that a fragment with a place meets. -/
theorem exists_met_of_fits (hr : r.Consistent) (hfits : r.parts.Fits f)
    (hmax : f.numFragments.toNat ≤ maxFragments) (m : Message) :
    ∃ inc : IncompleteMessage, inc.Consistent ∧ f.index.toNat < inc.numFragments.toNat ∧
      r.store f m = inc.addFragment f.index m ∧
      inc.present = (r.parts f.parentId).getD (List.replicate f.numFragments.toNat false) := by
  have hplace := hfits hmax
  cases hget : r.inProgress f.parentId with
  | some inc =>
    have hparts : r.parts f.parentId = some inc.present := by rw [parts, hget, Option.map_some]
    rw [hparts] at hplace ⊢
    dsimp only at hplace
    rw [IncompleteMessage.length_present, (hr _ _ hget).length] at hplace
    exact ⟨inc, hr _ _ hget, hplace, by simp only [store, hget], rfl⟩
  | none =>
    have hparts : r.parts f.parentId = none := by rw [parts, hget, Option.map_none]
    rw [hparts] at hplace ⊢
    obtain ⟨htwo, hindex⟩ := hplace
    have hsame : ∀ inc, r.inProgress f.parentId = some inc →
        inc.numFragments = f.numFragments := by
      intro inc hinc
      rw [hget] at hinc
      cases hinc
    obtain ⟨inc, hinc, hnum, hslots, hstore⟩ := exists_met hr htwo hmax hsame hindex m
    refine ⟨inc, hinc, by rw [hnum]; exact UInt16.lt_iff_toNat_lt.mp hindex, hstore, ?_⟩
    rw [IncompleteMessage.present, hslots, slots, hget, List.map_replicate]
    rfl

/-- **A fragment that has a place** is taken. A message that is returned is not empty. -/
theorem addFragment_of_fits (hr : r.Consistent) (hf : m.fragment = some f)
    (hfits : r.parts.Fits f) :
    ∃ received r', r.addFragment m = .ok (received, r') ∧ r'.Consistent ∧
      r'.parts = r.parts.take f ∧
      ∀ x, received = some x → ∃ channel, x.channel? = some channel := by
  by_cases hmax : f.numFragments.toNat ≤ maxFragments
  · obtain ⟨inc, hinc, hlt, hstore, hpresent⟩ := exists_met_of_fits hr hfits hmax m
    have hsmall : ¬ f.numFragments > UInt16.ofNat maxFragments := by
      rw [gt_iff_lt, UInt16.lt_iff_toNat_lt]
      exact not_lt.mpr hmax
    rw [IncompleteMessage.addFragment_of_lt hinc hlt] at hstore
    rw [Parts.take, if_pos hmax, ← hpresent]
    dsimp only
    by_cases hsome : (inc.fragments.getD f.index.toNat none).isSome = true
    · -- the place is filled already
      rw [if_pos hsome] at hstore
      have hsame : inc.present.set f.index.toNat true = inc.present := by
        refine List.ext_getElem (List.length_set ..) fun i hi hi' => ?_
        rw [List.getElem_set]
        split
        · next heq =>
          subst heq
          rw [IncompleteMessage.length_present] at hi'
          simpa [IncompleteMessage.present, List.getD_eq_getElem?_getD, hi'] using hsome.symm
        · rfl
      refine ⟨none, r.setSlots f.parentId (some inc), ?_,
        hr.setSlots (by rintro _ ⟨⟩; exact hinc), ?_, fun x hx => (by cases hx)⟩
      · simp only [addFragment, hf, if_neg hsmall, hstore, Bool.false_eq_true, if_false]
        rfl
      · rw [parts_setSlots, hsame, hinc.all_present, if_neg Bool.false_ne_true]
        rfl
    · rw [if_neg hsome] at hstore
      have hnone : inc.fragments.getD f.index.toNat none = none := by simpa using hsome
      rw [← IncompleteMessage.present_fill inc f.index m]
      rcases IncompleteMessage.fill_cases hinc hlt hnone m with ⟨hready, hfill⟩ | ⟨hready, ms, hms⟩
      · refine ⟨none, r.setSlots f.parentId (some (inc.fill f.index m)), ?_,
          hr.setSlots (by rintro _ ⟨⟩; exact hfill), ?_, fun x hx => (by cases hx)⟩
        · simp only [addFragment, hf, if_neg hsmall, hstore, hready, Bool.false_eq_true, if_false]
          rfl
        · rw [parts_setSlots, hfill.all_present, if_neg Bool.false_ne_true]
          rfl
      · refine ⟨some (.fragmented ms), r.setSlots f.parentId none, ?_,
          hr.setSlots (fun _ h => (by cases h)), ?_, ?_⟩
        · simp only [addFragment, hf, if_neg hsmall, hstore, hready, if_true, hms,
            expectAll_map_some, Except.map]
          rfl
        · have hall : (inc.fill f.index m).present.all id = true := by
            simp [IncompleteMessage.present, hms]
          rw [parts_setSlots, hall, if_pos rfl]
          rfl
        · rintro x ⟨⟩
          cases ms with
          | nil =>
            have hlen := congrArg List.length hms
            have hpos := hinc.length
            rw [IncompleteMessage.fill, List.length_set, List.length_map, List.length_nil] at hlen
            omega
          | cons m₀ ms => exact ⟨m₀.channel, rfl⟩
  · refine ⟨none, r, addFragment_of_gt hf hmax, hr, ?_, fun x hx => (by cases hx)⟩
    rw [Parts.take, if_neg hmax]

/-- **Exactly the fragments for which there is a place** are taken. For any other, an assertion
fails. -/
theorem exists_addFragment_iff (hr : r.Consistent) (hf : m.fragment = some f) :
    (∃ x, r.addFragment m = .ok x) ↔ r.parts.Fits f := by
  constructor
  · rintro ⟨x, hx⟩
    exact fits_of_addFragment hr hf hx
  · intro hfits
    obtain ⟨received, r', hadd, -⟩ := addFragment_of_fits hr hf hfits
    exact ⟨_, hadd⟩

end MessageReassembler

/-! ### The messages of a packet -/

namespace Message

variable {overflowChecks : Bool} {pool pool' : BufPool} {bs rest : List UInt8} {m : Message}

/-- The fragment that is announced at the front of the input, whatever its numbers are. -/
def announced (bs : List UInt8) : Option Fragment :=
  (readU8 bs).bind fun first => (readU16 first.2).bind fun id =>
    if first.1 &&& 1 != 0 then
      (Fragment.parseNumbers (if first.1 &&& 2 != 0 then .large else .small) id.2).map
        fun numbers => ⟨numbers.1, numbers.2.1, id.1 - numbers.1⟩
    else none

/-- The fragments that the messages of a packet announce, in order, up to the first message that is
not there in full. -/
def fragments : ℕ → List UInt8 → List Fragment
  | 0, _ => []
  | fuel + 1, bs => (announced bs).toList ++
    match parseHeaders false bs with
    | .error _ => []
    | .ok (_, _, _, _, size, rest) =>
      if rest.length < size.toNat then [] else fragments fuel (rest.drop size.toNat)

/-- What the messages of a packet say, up to the first that is not there in full. -/
def readable : ℕ → List UInt8 → List MessageContent
  | 0, _ => []
  | fuel + 1, bs =>
    match parseHeaders false bs with
    | .error _ => []
    | .ok (id, _, channel, fragment, size, rest) =>
      if rest.length < size.toNat then []
      else ⟨id, channel, rest.take size.toNat, fragment⟩ :: readable fuel (rest.drop size.toNat)

/-- **The one panic of the parser**, in a build with overflow checks: a fragment of none. -/
theorem parseHeaders_eq (overflowChecks : Bool) (bs : List UInt8) :
    parseHeaders overflowChecks bs =
      if overflowChecks = true ∧ ∃ f, announced bs = some f ∧ f.numFragments = 0 then
        .error (.panic .numFragmentsUnderflow)
      else parseHeaders false bs := by
  rw [announced, parseHeaders, parseHeaders]
  cases readU8 bs with
  | none => simp
  | some first =>
    rw [Option.bind_some]
    dsimp only
    cases readU16 first.2 with
    | none => simp
    | some id =>
      rw [Option.bind_some]
      dsimp only
      by_cases hflag : (first.1 &&& 1 != 0) = true
      · rw [if_pos hflag, if_pos hflag, if_pos hflag, Fragment.parseHeader, Fragment.parseHeader]
        cases Fragment.parseNumbers (if first.1 &&& 2 != 0 then .large else .small) id.2 with
        | none => simp
        | some numbers =>
          cases overflowChecks <;> by_cases hzero : numbers.2.1 = 0 <;> simp [hzero]
      · rw [if_neg hflag, if_neg hflag, if_neg hflag]
        simp

theorem announced_of_parseHeaders
    {x : MessageId × MessageSizeMode × UInt8 × Option Fragment × UInt16 × List UInt8}
    (h : parseHeaders false bs = .ok x) : announced bs = x.2.2.2.1 := by
  unfold parseHeaders Fragment.parseHeader at h
  unfold announced
  grind

/-- The fragments that are there in full are announced. -/
theorem mem_fragments_of_readable {fuel : ℕ} {c : MessageContent} {f : Fragment}
    (hc : c ∈ readable fuel bs) (hf : c.fragment = some f) : f ∈ fragments fuel bs := by
  induction fuel generalizing bs with
  | zero => cases hc
  | succ fuel ih =>
    rw [readable] at hc
    rw [fragments, List.mem_append]
    split at hc
    · cases hc
    · next id mode channel fragment size rest hparse =>
      rw [announced_of_parseHeaders hparse]
      dsimp only at hc ⊢
      split at hc
      · cases hc
      · next hlen =>
        rw [if_neg hlen]
        rcases List.mem_cons.mp hc with rfl | hc
        · exact Or.inl (Option.mem_toList.mpr hf)
        · exact Or.inr (ih hc)

end Message

/-- The fragments that the windows of the channels let through, in order. What is on no channel is
skipped, as is what was seen before or is too old. -/
def offered (window : UInt8 → Option (SequenceBuffer Bool)) : List MessageContent → List Fragment
  | [] => []
  | c :: cs =>
    match window c.channel with
    | none => offered window cs
    | some seenBuf =>
      let accepted := acceptUnseen seenBuf c.id
      (if accepted.1 then c.fragment.toList else []) ++
        offered (Function.update window c.channel (some accepted.2)) cs

theorem mem_of_mem_offered {window : UInt8 → Option (SequenceBuffer Bool)}
    {cs : List MessageContent} {f : Fragment} (h : f ∈ offered window cs) :
    ∃ c ∈ cs, c.fragment = some f := by
  induction cs generalizing window with
  | nil => cases h
  | cons c cs ih =>
    rw [offered] at h
    split at h
    · obtain ⟨c', hc', hf⟩ := ih h
      exact ⟨c', List.mem_cons_of_mem _ hc', hf⟩
    · rcases List.mem_append.mp h with h | h
      · split at h
        · exact ⟨c, List.mem_cons_self .., Option.mem_toList.mp h⟩
        · cases h
      · obtain ⟨c', hc', hf⟩ := ih h
        exact ⟨c', List.mem_cons_of_mem _ hc', hf⟩

namespace MessageDispatcher

variable {d d' : MessageDispatcher} {m : Message}

/-- A message is put into an inbox as a whole. -/
theorem exists_pushInbox_eq {x : ReceivedMessage} (h : ∃ channel, x.channel? = some channel) :
    ∃ inbox, d.pushInbox x = .ok { d with messageInbox := inbox } := by
  obtain ⟨channel, hx⟩ := h
  simp only [pushInbox, hx]
  exact ⟨_, rfl⟩

/-- What a received message does to the partial messages. -/
theorem parts_processReceivedMessage (hd : d.messageReassembler.Consistent)
    (h : d.processReceivedMessage m = .ok d') : d'.messageReassembler.Consistent ∧
      ∀ fs, d.messageReassembler.parts.FitsAll (m.fragment.toList ++ fs) ↔
        d'.messageReassembler.parts.FitsAll fs := by
  cases hf : m.fragment with
  | none =>
    obtain ⟨inbox, hpush⟩ := exists_pushInbox_eq (d := d) (x := .single m) ⟨m.channel, rfl⟩
    rw [processReceivedMessage, hf, Option.isNone_none, if_pos rfl, hpush] at h
    cases h
    exact ⟨hd, fun fs => .rfl⟩
  | some f =>
    rw [processReceivedMessage, hf, Option.isNone_some, if_neg Bool.false_ne_true] at h
    split at h
    · cases h
    · next r hadd =>
      cases h
      have hfits := MessageReassembler.fits_of_addFragment hd hf hadd
      obtain ⟨_, _, hadd', hr, hparts, -⟩ := MessageReassembler.addFragment_of_fits hd hf hfits
      rw [hadd] at hadd'
      cases hadd'
      refine ⟨hr, fun fs => ?_⟩
      rw [hparts]
      exact and_iff_right hfits
    · next received r hadd =>
      have hfits := MessageReassembler.fits_of_addFragment hd hf hadd
      obtain ⟨_, _, hadd', hr, hparts, hchannel⟩ :=
        MessageReassembler.addFragment_of_fits hd hf hfits
      rw [hadd] at hadd'
      cases hadd'
      obtain ⟨inbox, hpush⟩ := exists_pushInbox_eq
        (d := { d with messageReassembler := r }) (hchannel received rfl)
      rw [hpush] at h
      cases h
      refine ⟨hr, fun fs => ?_⟩
      rw [show r.parts = d.messageReassembler.parts.take f from hparts]
      exact and_iff_right hfits

/-- **A message is processed** if it needs no place, or has one. -/
theorem exists_processReceivedMessage_iff (hd : d.messageReassembler.Consistent) :
    (∃ d', d.processReceivedMessage m = .ok d') ↔
      ∀ f, m.fragment = some f → d.messageReassembler.parts.Fits f := by
  constructor
  · rintro ⟨d', h⟩ f hf
    have hfits := ((parts_processReceivedMessage hd h).2 []).mpr trivial
    rw [hf] at hfits
    exact hfits.1
  · intro hfits
    cases hf : m.fragment with
    | none =>
      obtain ⟨inbox, hpush⟩ := exists_pushInbox_eq (d := d) (x := .single m) ⟨m.channel, rfl⟩
      rw [processReceivedMessage, hf]
      exact ⟨_, hpush⟩
    | some f =>
      obtain ⟨received, r, hadd, -, -, hchannel⟩ :=
        MessageReassembler.addFragment_of_fits hd hf (hfits f hf)
      rw [processReceivedMessage, hf, hadd]
      cases received with
      | none => exact ⟨_, rfl⟩
      | some x =>
        obtain ⟨inbox, hpush⟩ := exists_pushInbox_eq
          (d := { d with messageReassembler := r }) (hchannel x rfl)
        exact ⟨_, hpush⟩

end MessageDispatcher

namespace Endpoint

variable {p : Endpoint}

/-- **The messages of a packet do no harm**: no fragment of none is announced, which a build with
overflow checks trips over, and there is a place for every fragment that is let through. -/
def AdmitsMessages (p : Endpoint) (fuel : ℕ) (payload : List UInt8) : Prop :=
  (p.overflowChecks = true → ∀ f ∈ Message.fragments fuel payload, f.numFragments ≠ 0) ∧
    p.dispatcher.messageReassembler.parts.FitsAll
      (offered p.channels.window (Message.readable fuel payload))

instance (p : Endpoint) (fuel : ℕ) (payload : List UInt8) :
    Decidable (p.AdmitsMessages fuel payload) :=
  inferInstanceAs (Decidable ((_ → _) ∧ _))

/-- What the messages that follow find when one was received. -/
theorem parts_receiveMessage {p' : Endpoint} {m : Message} (h : p.receiveMessage m = .ok p')
    (hr : p.dispatcher.messageReassembler.Consistent) : p'.overflowChecks = p.overflowChecks ∧
      p'.dispatcher.messageReassembler.Consistent ∧
      ∀ cs, p.dispatcher.messageReassembler.parts.FitsAll
          (offered p.channels.window (m.content :: cs)) ↔
        p'.dispatcher.messageReassembler.parts.FitsAll (offered p'.channels.window cs) := by
  rw [receiveMessage] at h
  cases hch : p.channels.get? m.channel with
  | none =>
    rw [hch] at h
    cases h
    have hwindow : p.channels.window m.content.channel = none :=
      congrArg (Option.map Channel.seenBuf) hch
    refine ⟨rfl, hr, fun cs => ?_⟩
    rw [offered, hwindow]
  | some ch =>
    rw [hch] at h
    have hwindow : p.channels.window m.content.channel = some ch.seenBuf :=
      congrArg (Option.map Channel.seenBuf) hch
    have hoffered : ∀ cs, offered p.channels.window (m.content :: cs)
        = (if (ch.acceptsMessage m.id).1 then m.fragment.toList else []) ++
          offered (ChannelList.window (p.channels.set m.channel (ch.acceptsMessage m.id).2))
            cs := by
      intro cs
      rw [offered, hwindow, ChannelList.window_set hch, Channel.acceptsMessage_fst]
      rfl
    dsimp only at h
    split at h
    · next haccepted =>
      obtain ⟨d', hd', rfl⟩ := exists_of_map_eq_ok h
      obtain ⟨hr', hfits⟩ := MessageDispatcher.parts_processReceivedMessage hr hd'
      refine ⟨rfl, hr', fun cs => ?_⟩
      rw [hoffered, if_pos haccepted]
      exact hfits _
    · next hrefused =>
      cases h
      refine ⟨rfl, hr, fun cs => ?_⟩
      rw [hoffered, if_neg hrefused, List.nil_append]

/-- **A message** that may be the first of several. -/
theorem exists_receiveMessage_iff (hr : p.dispatcher.messageReassembler.Consistent) (m : Message)
    (cs : List MessageContent) :
    p.dispatcher.messageReassembler.parts.FitsAll (offered p.channels.window (m.content :: cs)) ↔
      ∃ p', p.receiveMessage m = .ok p' ∧
        p'.dispatcher.messageReassembler.parts.FitsAll (offered p'.channels.window cs) := by
  constructor
  · intro hfits
    obtain ⟨p', hp'⟩ : ∃ p', p.receiveMessage m = .ok p' := by
      rw [receiveMessage]
      rw [offered] at hfits
      cases hch : p.channels.get? m.channel with
      | none => exact ⟨_, rfl⟩
      | some ch =>
        have hwindow : p.channels.window m.content.channel = some ch.seenBuf :=
          congrArg (Option.map Channel.seenBuf) hch
        rw [hwindow] at hfits
        dsimp only at hfits ⊢
        split
        · next haccepted =>
          rw [Channel.acceptsMessage_fst] at haccepted
          rw [if_pos (show (acceptUnseen ch.seenBuf m.content.id).1 = true from haccepted)] at hfits
          obtain ⟨d', hd'⟩ := (MessageDispatcher.exists_processReceivedMessage_iff hr).mpr
            fun f hf => by
              rw [show m.content.fragment = some f from hf] at hfits
              exact hfits.1
          rw [hd']
          exact ⟨_, rfl⟩
        · exact ⟨_, rfl⟩
    exact ⟨p', hp', ((parts_receiveMessage hp' hr).2.2 cs).mp hfits⟩
  · rintro ⟨p', hp', hfits⟩
    exact ((parts_receiveMessage hp' hr).2.2 cs).mpr hfits

/-- A message that is there in full, and those behind it. -/
theorem exists_receiveMessage_then_iff {fuel : ℕ} {rest : List UInt8} {m : Message}
    {fs : List Fragment} (hr : p.dispatcher.messageReassembler.Consistent)
    (hfs : p.overflowChecks = true → ∀ f ∈ fs, f.numFragments ≠ 0)
    (ih : ∀ {p' : Endpoint}, p'.dispatcher.messageReassembler.Consistent →
      ((∃ r, processMessages fuel p' rest = .ok r) ↔ p'.AdmitsMessages fuel rest)) :
    (∃ r, (match p.receiveMessage m with
      | .error q => Except.error q
      | .ok p' => processMessages fuel p' rest) = .ok r) ↔
      (p.overflowChecks = true → ∀ f ∈ fs ++ Message.fragments fuel rest, f.numFragments ≠ 0) ∧
        p.dispatcher.messageReassembler.parts.FitsAll
          (offered p.channels.window (m.content :: Message.readable fuel rest)) := by
  constructor
  · rintro ⟨r, hcall⟩
    split at hcall
    · cases hcall
    · next p' hp' =>
      obtain ⟨hchecks, hr', hfits⟩ := parts_receiveMessage hp' hr
      obtain ⟨hnonzero, hrest⟩ := (ih hr').mp ⟨r, hcall⟩
      refine ⟨fun hc f hf => ?_, (hfits _).mpr hrest⟩
      rcases List.mem_append.mp hf with hf | hf
      · exact hfs hc f hf
      · exact hnonzero (hchecks.trans hc) f hf
  · rintro ⟨hnonzero, hfits⟩
    obtain ⟨p', hp', hrest⟩ := (exists_receiveMessage_iff hr m _).mp hfits
    rw [hp']
    obtain ⟨hchecks, hr', -⟩ := parts_receiveMessage hp' hr
    exact (ih hr').mpr ⟨fun hc f hf =>
      hnonzero (hchecks.symm.trans hc) f (List.mem_append_right _ hf), hrest⟩

/-- **The messages of a packet** are processed if and only if they do no harm. -/
theorem exists_processMessages_iff {fuel : ℕ} {payload : List UInt8}
    (hfuel : payload.length < fuel) (hr : p.dispatcher.messageReassembler.Consistent) :
    (∃ r, processMessages fuel p payload = .ok r) ↔ p.AdmitsMessages fuel payload := by
  induction fuel generalizing p payload with
  | zero => exact absurd hfuel (Nat.not_lt_zero _)
  | succ fuel ih =>
    rw [processMessages, AdmitsMessages, Message.fragments, Message.readable]
    split
    · next hempty =>
      obtain rfl := List.isEmpty_iff.mp hempty
      exact iff_of_true ⟨_, rfl⟩ ⟨fun _ f hf => (by cases hf), trivial⟩
    · rw [Message.parse, Message.parseHeaders_eq]
      by_cases hnone : p.overflowChecks = true ∧
          ∃ f, Message.announced payload = some f ∧ f.numFragments = 0
      · -- the parser panics
        obtain ⟨hchecks, f, hf, hzero⟩ := hnone
        rw [if_pos ⟨hchecks, f, hf, hzero⟩]
        refine iff_of_false ?_ fun h => ?_
        · rintro ⟨r, hr⟩
          cases hr
        · refine h.1 hchecks f (List.mem_append_left _ ?_) hzero
          rw [hf]
          exact List.mem_singleton_self f
      · rw [if_neg hnone]
        have hannounced : p.overflowChecks = true →
            ∀ f ∈ (Message.announced payload).toList, f.numFragments ≠ 0 := by
          intro hchecks f hf hzero
          exact hnone ⟨hchecks, f, Option.mem_toList.mp hf, hzero⟩
        cases hparse : Message.parseHeaders false payload with
        | error fault =>
          -- the parser stops
          dsimp only
          cases fault with
          | panic q =>
            rw [Message.parseHeaders] at hparse
            unfold Fragment.parseHeader at hparse
            grind
          | error e =>
            refine iff_of_true ⟨_, rfl⟩ ⟨?_, trivial⟩
            rw [List.append_nil]
            exact hannounced
        | ok x =>
          obtain ⟨id, mode, channel, fragment, size, rest⟩ := x
          dsimp only
          by_cases hlen : rest.length < size.toNat
          · -- the message is not there in full
            rw [if_pos hlen, if_pos hlen, if_pos hlen]
            refine iff_of_true ⟨_, rfl⟩ ⟨?_, trivial⟩
            rw [List.append_nil]
            exact hannounced
          · rw [if_neg hlen, if_neg hlen, if_neg hlen]
            dsimp only
            have hshort : (rest.drop size.toNat).length < fuel := by
              have := Message.length_lt_of_parseHeaders hparse
              rw [List.length_drop]
              omega
            exact exists_receiveMessage_then_iff (p := { p with
              pool := (p.pool.getBuffer size.toNat).2
              stats := { p.stats with messagesReceived := p.stats.messagesReceived + 1 } }) hr
              hannounced fun hr' => ih hshort hr'

end Endpoint

/-! ### The messages that acks are about -/

/-- The ids of the whole messages that wait to be sent again. -/
def ReliableChannel.wholes (q : List ResendableMessage) : List MessageId :=
  (q.filter fun m => m.message.fragment.isNone).map fun m => m.message.id

/-- Those of a channel; an unreliable one sends nothing again. -/
def Channel.wholes : Channel → List MessageId
  | .unreliable _ => []
  | .reliable c => ReliableChannel.wholes c.q

/-- Those of each channel. -/
def ChannelList.wholes (cs : ChannelList) (channel : UInt8) : List MessageId :=
  ((cs.get? channel).map Channel.wholes).getD []

section Dismiss

variable {handle : MessageHandle}

/-- The assertion of `dismissed_by_ack`. -/
theorem ResendableMessage.exists_dismissedByAck_iff (m : ResendableMessage) :
    (∃ dismissed, m.dismissedByAck handle = .ok dismissed) ↔ (handle.fragIndex.isSome = true →
      m.message.fragment = none → m.message.id ≠ handle.id) := by
  rw [dismissedByAck]
  by_cases hid : m.message.id = handle.id
  · rw [if_neg (not_not.mpr hid)]
    cases hfrag : m.message.fragment with
    | some f => exact iff_of_true ⟨_, rfl⟩ fun _ h => (by cases h)
    | none =>
      cases hindex : handle.fragIndex with
      | none => exact iff_of_true ⟨_, rfl⟩ fun h => (by cases h)
      | some i =>
        refine iff_of_false ?_ fun h => h rfl rfl hid
        rintro ⟨_, h⟩
        cases h
  · rw [if_pos hid]
    exact iff_of_true ⟨_, rfl⟩ fun _ _ => hid

/-- A whole message is dismissed by the acks of its id. -/
theorem ResendableMessage.dismissedByAck_of_whole {m : ResendableMessage} {dismissed : Bool}
    (h : m.dismissedByAck handle = .ok dismissed) (hwhole : m.message.fragment = none) :
    dismissed = true ↔ m.message.id = handle.id := by
  rw [dismissedByAck, hwhole] at h
  split at h
  · next hid =>
    cases h
    exact iff_of_false Bool.false_ne_true hid
  · next hid =>
    dsimp only at h
    split at h
    · cases h
      exact iff_of_true rfl (not_not.mp hid)
    · cases h

namespace ReliableChannel

theorem mem_wholes_iff {q : List ResendableMessage} {id : MessageId} :
    id ∈ wholes q ↔ ∃ m ∈ q, m.message.fragment = none ∧ m.message.id = id := by
  simp [wholes, and_assoc]

/-- **An ack dismisses** unless it is that of a fragment and meets a whole message with its id. -/
theorem exists_dismiss_iff (q : List ResendableMessage) :
    (∃ r, dismiss handle q = .ok r) ↔ (handle.fragIndex.isSome = true → handle.id ∉ wholes q) := by
  have hall : (∃ r, dismiss handle q = .ok r) ↔
      ∀ m ∈ q, ∃ dismissed, m.dismissedByAck handle = .ok dismissed := by
    induction q with
    | nil => exact iff_of_true ⟨_, rfl⟩ fun m hm => (by cases hm)
    | cons m q ih =>
      rw [List.forall_mem_cons, ← ih, dismiss]
      constructor
      · rintro ⟨r, hr⟩
        split at hr
        · cases hr
        · next dismissed hdismissed =>
          refine ⟨⟨dismissed, hdismissed⟩, ?_⟩
          split at hr
          · cases hr
          · next rest => exact ⟨_, rest⟩
      · rintro ⟨⟨dismissed, hdismissed⟩, rest, hrest⟩
        rw [hdismissed, hrest]
        cases dismissed <;> exact ⟨_, rfl⟩
  rw [hall, mem_wholes_iff]
  constructor
  · rintro h hindex ⟨m, hm, hwhole, hid⟩
    exact m.exists_dismissedByAck_iff.mp (h m hm) hindex hwhole hid
  · intro h m hm
    exact m.exists_dismissedByAck_iff.mpr fun hindex hwhole hid => h hindex ⟨m, hm, hwhole, hid⟩

/-- The whole messages that still wait are those with other ids. -/
theorem wholes_dismiss {q kept : List ResendableMessage} {buffers : List PooledBuffer}
    (h : dismiss handle q = .ok (buffers, kept)) :
    wholes kept = (wholes q).filter (· != handle.id) := by
  induction q generalizing buffers kept with
  | nil =>
    cases h
    rfl
  | cons m q ih =>
    rw [dismiss] at h
    split at h
    · cases h
    · next dismissed hdismissed =>
      split at h
      · cases h
      · next hrest =>
        have hq := ih hrest
        have hwhole := ResendableMessage.dismissedByAck_of_whole hdismissed
        split at h
        · next hgone =>
          cases h
          rw [hq]
          cases hfrag : m.message.fragment with
          | some f => simp [wholes, hfrag]
          | none => simp [wholes, hfrag, (hwhole hfrag).mp hgone]
        · next hstays =>
          cases h
          cases hfrag : m.message.fragment with
          | some f => simpa [wholes, hfrag] using hq
          | none => simpa [wholes, hfrag, mt (hwhole hfrag).mpr hstays] using hq

end ReliableChannel

/-- The channel of a handle takes its ack. -/
theorem Channel.exists_messageAckReceived_iff (ch : Channel) :
    (∃ r, ch.messageAckReceived handle = .ok r) ↔
      (handle.fragIndex.isSome = true → handle.id ∉ ch.wholes) := by
  cases ch with
  | unreliable c => exact iff_of_true ⟨_, rfl⟩ fun _ h => (by cases h)
  | reliable c =>
    rw [wholes, ← ReliableChannel.exists_dismiss_iff]
    constructor
    · rintro ⟨r, hr⟩
      obtain ⟨_, hr', -⟩ := exists_of_map_eq_ok hr
      obtain ⟨r'', hr'', -⟩ := exists_of_map_eq_ok hr'
      exact ⟨r'', hr''⟩
    · rintro ⟨r, hr⟩
      rw [messageAckReceived, ReliableChannel.messageAckReceived, hr]
      exact ⟨_, rfl⟩

theorem Channel.wholes_messageAckReceived {ch ch' : Channel} {buffers : List PooledBuffer}
    (h : ch.messageAckReceived handle = .ok (buffers, ch')) :
    ch'.id = ch.id ∧ ch'.seenBuf = ch.seenBuf ∧
      ch'.wholes = ch.wholes.filter (· != handle.id) := by
  cases ch with
  | unreliable c =>
    cases h
    exact ⟨rfl, rfl, rfl⟩
  | reliable c =>
    obtain ⟨⟨_, c'⟩, hc', heq⟩ := exists_of_map_eq_ok h
    obtain ⟨r, hr, heq'⟩ := exists_of_map_eq_ok hc'
    cases heq
    cases heq'
    exact ⟨rfl, rfl, ReliableChannel.wholes_dismiss hr⟩

end Dismiss

/-! ### The map of fragmented messages -/

namespace SentFragMap

open Ledger SequenceBuffer

variable {m m' : SentFragMap} {parentId fragmentId : MessageId} {whole : Bool}

/-- The map after the ack of a fragment, the last of its message or not. -/
def afterAck (m : SentFragMap) (parentId fragmentId : MessageId) : SentFragMap :=
  match m.get parentId with
  | some (.partially remaining) =>
    let remaining := remaining.filter fun id => id != fragmentId
    let m := m.setEntry parentId (.partially remaining)
    if remaining.isEmpty then (m.insert parentId .complete).toOption.getD m else m
  | _ => m

instance (m : SentFragMap) (parentId fragmentId : MessageId) :
    Decidable (Completes m parentId fragmentId) :=
  match hget : m.get parentId with
  | some (.partially remaining) =>
    decidable_of_iff ((remaining.filter fun id => id != fragmentId) = []) (by
      constructor
      · exact fun hnil => ⟨remaining, hget, hnil⟩
      · rintro ⟨remaining', hget', hnil⟩
        cases hget.symm.trans hget'
        exact hnil)
  | some .complete => isFalse fun ⟨_, hget', _⟩ => (by cases hget.symm.trans hget')
  | some .unknown => isFalse fun ⟨_, hget', _⟩ => (by cases hget.symm.trans hget')
  | none => isFalse fun ⟨_, hget', _⟩ => (by cases hget.symm.trans hget')

/-- **The ack of a fragment** is counted unless its message, complete now, is too old for the
map. -/
theorem exists_ackFragmentMessage_iff :
    (∃ r, ackFragmentMessage m parentId fragmentId = .ok r) ↔
      (Completes m parentId fragmentId → m.Accepts parentId) := by
  refine ⟨?_, Ledger.exists_ackFragmentMessage⟩
  rintro ⟨r, hr⟩ ⟨remaining, hget, hnil⟩
  simp only [ackFragmentMessage, hget, hnil, List.isEmpty_nil, if_true] at hr
  split at hr
  · next hins => exact (insert_cases hins).1
  · cases hr

theorem eq_afterAck
    (h : ackFragmentMessage m parentId fragmentId = .ok (whole, m')) :
    m' = m.afterAck parentId fragmentId := by
  have haccepts := exists_ackFragmentMessage_iff.mp ⟨_, h⟩
  obtain ⟨hnone, hack⟩ | ⟨remaining, hget, ⟨hleft, hack⟩ | ⟨hnil, m₂, hins, hack⟩⟩ :=
    ackFragmentMessage_cases m parentId fragmentId haccepts
  · cases h.symm.trans hack
    rw [afterAck]
    split
    · next remaining hget => exact absurd hget (hnone remaining)
    · rfl
  · cases h.symm.trans hack
    simp [afterAck, hget, hleft]
  · cases h.symm.trans hack
    simp [afterAck, hget, hnil, hins, Except.toOption]

end SentFragMap

/-! ### The acks of a packet -/

namespace MessageHandle

open SentFragMap.Ledger

/-- The ack of a message meets no assertion: if it is a fragment, no whole message that waits to be
sent again has got its id; and if it was the last fragment that was not acked, its message is not
too old for the map. -/
structure Current (handle : MessageHandle) (wholes : UInt8 → List MessageId) (m : SentFragMap) :
    Prop where
  unused : handle.fragIndex.isSome = true → handle.id ∉ wholes handle.channel
  recent : ∀ parentId ∈ handle.parentId, Completes m parentId handle.id → m.Accepts parentId

instance (handle : MessageHandle) (wholes : UInt8 → List MessageId) (m : SentFragMap) :
    Decidable (handle.Current wholes m) :=
  have : Decidable (∀ parentId ∈ handle.parentId,
      Completes m parentId handle.id → m.Accepts parentId) := Option.decidableForallMem ..
  decidable_of_iff ((handle.fragIndex.isSome = true → handle.id ∉ wholes handle.channel) ∧
      ∀ parentId ∈ handle.parentId, Completes m parentId handle.id → m.Accepts parentId)
    ⟨fun h => ⟨h.1, h.2⟩, fun h => ⟨h.unused, h.recent⟩⟩

/-- The map after the ack. -/
def mapAfter (handle : MessageHandle) (m : SentFragMap) : SentFragMap :=
  match handle.parentId with
  | none => m
  | some parentId => m.afterAck parentId handle.id

end MessageHandle

/-- None of the acks meets an assertion when its turn comes. -/
def AdmitsHandles : (UInt8 → List MessageId) → SentFragMap → List MessageHandle → Prop
  | _, _, [] => True
  | wholes, m, handle :: handles => handle.Current wholes m ∧
      AdmitsHandles (Function.update wholes handle.channel
        ((wholes handle.channel).filter (· != handle.id))) (handle.mapAfter m) handles

instance decidableAdmitsHandles : (wholes : UInt8 → List MessageId) → (m : SentFragMap) →
    (handles : List MessageHandle) → Decidable (AdmitsHandles wholes m handles)
  | _, _, [] => isTrue trivial
  | wholes, m, handle :: handles =>
    have := decidableAdmitsHandles (Function.update wholes handle.channel
      ((wholes handle.channel).filter (· != handle.id))) (handle.mapAfter m) handles
    inferInstanceAs (Decidable (_ ∧ _))

/-- Whole messages are dismissed without a look at anything. -/
theorem admitsHandles_of_whole {wholes : UInt8 → List MessageId} {m : SentFragMap}
    {handles : List MessageHandle} (h : ∀ handle ∈ handles, handle.fragIndex = none) :
    AdmitsHandles wholes m handles := by
  induction handles generalizing wholes m with
  | nil => trivial
  | cons handle handles ih =>
    rw [List.forall_mem_cons] at h
    refine ⟨⟨fun hsome => ?_, fun parentId hparent => ?_⟩, ih h.2⟩
    · rw [h.1] at hsome
      cases hsome
    · rw [MessageHandle.parentId, h.1] at hparent
      cases hparent

namespace MessageDispatcher

variable {d d' : MessageDispatcher} {channels channels' : ChannelList} {handle : MessageHandle}

theorem exists_ackHandle_iff : (∃ d', d.ackHandle handle = .ok d') ↔
    ∀ parentId ∈ handle.parentId,
      SentFragMap.Ledger.Completes d.sentFragMap parentId handle.id →
        d.sentFragMap.Accepts parentId := by
  rw [ackHandle]
  cases hparent : handle.parentId with
  | none => exact iff_of_true ⟨_, rfl⟩ fun _ h => (by cases h)
  | some parentId =>
    simp only [Option.mem_some_iff, forall_eq']
    rw [← SentFragMap.exists_ackFragmentMessage_iff]
    constructor
    · rintro ⟨d', hd'⟩
      split at hd'
      · cases hd'
      · next hack => exact ⟨_, hack⟩
    · rintro ⟨r, hr⟩
      rw [hr]
      exact ⟨_, rfl⟩

theorem sentFragMap_ackHandle (h : d.ackHandle handle = .ok d') :
    d'.sentFragMap = handle.mapAfter d.sentFragMap := by
  rw [ackHandle] at h
  rw [MessageHandle.mapAfter]
  cases hparent : handle.parentId with
  | none =>
    rw [hparent] at h
    cases h
    rfl
  | some parentId =>
    rw [hparent] at h
    dsimp only at h ⊢
    split at h
    · cases h
    · next whole m hack =>
      cases h
      rw [← SentFragMap.eq_afterAck hack]
      cases whole <;> rfl

/-- One channel after an ack. -/
theorem wholes_set {ch ch' : Channel} {buffers : List PooledBuffer}
    (hch : channels.get? handle.channel = some ch)
    (h : ch.messageAckReceived handle = .ok (buffers, ch')) :
    ChannelList.wholes (channels.set handle.channel ch') = Function.update channels.wholes
      handle.channel ((channels.wholes handle.channel).filter (· != handle.id)) := by
  obtain ⟨hid, -, hwholes⟩ := Channel.wholes_messageAckReceived h
  have hid' : ch'.id = handle.channel := hid.trans (ChannelList.id_of_get? hch)
  funext channel
  by_cases hchannel : channel = handle.channel
  · rw [hchannel, Function.update_self, ChannelList.wholes, ChannelList.wholes,
      ChannelList.get?_set_self hch hid', hch, Option.map_some, Option.map_some, hwholes]
    rfl
  · rw [Function.update_of_ne hchannel, ChannelList.wholes, ChannelList.wholes,
      ChannelList.get?_set_of_ne hchannel hid']

theorem window_ackHandles {handles : List MessageHandle} {buffers : List PooledBuffer}
    (h : d.ackHandles channels handles = .ok (buffers, d', channels')) :
    channels'.window = channels.window := by
  induction handles generalizing d channels buffers with
  | nil =>
    cases h
    rfl
  | cons handle handles ih =>
    rw [ackHandles] at h
    split at h
    · cases h
    · next ch hch =>
      split at h
      · cases h
      · next hack =>
        split at h
        · cases h
        · obtain ⟨r, hr, heq⟩ := exists_of_map_eq_ok h
          cases heq
          obtain ⟨hid, hseen, -⟩ := Channel.wholes_messageAckReceived hack
          rw [ih hr, ChannelList.window_set_of_seenBuf hch hid hseen]

/-- **The acks of a packet**, and those that come after it: exactly the acks that meet no assertion
are processed. -/
theorem admitsHandles_append_iff {handles rest : List MessageHandle}
    (hknown : ∀ handle ∈ handles, (channels.window handle.channel).isSome = true) :
    AdmitsHandles channels.wholes d.sentFragMap (handles ++ rest) ↔
      ∃ buffers d' channels', d.ackHandles channels handles = .ok (buffers, d', channels') ∧
        AdmitsHandles channels'.wholes d'.sentFragMap rest := by
  induction handles generalizing d channels with
  | nil =>
    constructor
    · exact fun h => ⟨_, _, _, rfl, h⟩
    · rintro ⟨_, _, _, heq, h⟩
      cases heq
      exact h
  | cons handle handles ih =>
    rw [List.forall_mem_cons] at hknown
    obtain ⟨ch, hch⟩ : ∃ ch, channels.get? handle.channel = some ch := by
      obtain ⟨_, hwindow⟩ := Option.isSome_iff_exists.mp hknown.1
      obtain ⟨ch, hch, -⟩ := Option.map_eq_some_iff.mp hwindow
      exact ⟨ch, hch⟩
    have hwholes : channels.wholes handle.channel = ch.wholes := by
      rw [ChannelList.wholes, hch]
      rfl
    -- the state in which the next ack is processed
    have hnext : ∀ {buffers : List PooledBuffer} {ch' : Channel} {d' : MessageDispatcher},
        ch.messageAckReceived handle = .ok (buffers, ch') → d.ackHandle handle = .ok d' →
        (AdmitsHandles (Function.update channels.wholes handle.channel
            ((channels.wholes handle.channel).filter (· != handle.id)))
            (handle.mapAfter d.sentFragMap) (handles ++ rest) ↔
          ∃ buffers d'' channels',
            d'.ackHandles (channels.set handle.channel ch') handles =
              .ok (buffers, d'', channels') ∧
              AdmitsHandles channels'.wholes d''.sentFragMap rest) := by
      intro buffers ch' d' hack hd'
      obtain ⟨hid, hseen, -⟩ := Channel.wholes_messageAckReceived hack
      rw [← wholes_set hch hack, ← sentFragMap_ackHandle hd']
      refine ih fun handle hmem => ?_
      rw [ChannelList.window_set_of_seenBuf hch hid hseen]
      exact hknown.2 handle hmem
    rw [List.cons_append, AdmitsHandles, ackHandles, hch]
    dsimp only
    constructor
    · rintro ⟨hcurrent, hadmits⟩
      obtain ⟨⟨buffers, ch'⟩, hack⟩ := ch.exists_messageAckReceived_iff.mpr fun hindex => by
        rw [← hwholes]
        exact hcurrent.unused hindex
      obtain ⟨d', hd'⟩ := exists_ackHandle_iff.mpr hcurrent.recent
      obtain ⟨buffers', d'', channels', hrest, hadmits'⟩ := (hnext hack hd').mp hadmits
      rw [hack, hd']
      dsimp only
      rw [hrest]
      exact ⟨_, _, _, rfl, hadmits'⟩
    · rintro ⟨buffers, d'', channels', hcall, hadmits⟩
      split at hcall
      · cases hcall
      · next buffers' ch' hack =>
        split at hcall
        · cases hcall
        · next d' hd' =>
          obtain ⟨⟨buffers'', d₂, channels₂⟩, hrest, heq⟩ := exists_of_map_eq_ok hcall
          cases heq
          refine ⟨⟨fun hindex => ?_, exists_ackHandle_iff.mp ⟨d', hd'⟩⟩,
            (hnext hack hd').mpr ⟨_, _, _, hrest, hadmits⟩⟩
          rw [hwholes]
          exact ch.exists_messageAckReceived_iff.mp ⟨_, hack⟩ hindex

/-- The messages that are remembered of packets, as one packet after the other is forgotten. -/
def handlesIn : SequenceBuffer (List MessageHandle) → List PacketId → List MessageHandle
  | _, [] => []
  | b, id :: ids => (b.get id).getD [] ++ handlesIn (b.remove id).2 ids

theorem exists_of_mem_handlesIn {b : SequenceBuffer (List MessageHandle)} {ids : List PacketId}
    (h : handle ∈ handlesIn b ids) : ∃ id ∈ ids, ∃ handles, b.get id = some handles ∧
      handle ∈ handles := by
  induction ids generalizing b with
  | nil => cases h
  | cons id ids ih =>
    rcases List.mem_append.mp h with h | h
    · cases hget : b.get id with
      | none =>
        rw [hget] at h
        cases h
      | some handles =>
        rw [hget] at h
        exact ⟨id, List.mem_cons_self .., handles, hget, h⟩
    · obtain ⟨id', hid', handles, hget, hmem⟩ := ih h
      exact ⟨id', List.mem_cons_of_mem _ hid', handles, SequenceBuffer.get_of_get_remove hget, hmem⟩

end MessageDispatcher

/-! ### Packets -/

namespace Endpoint

/-- What acks rest on: windows of a sensible length, known channels, and a reassembler whose
counters are right. -/
structure Receptive (p : Endpoint) : Prop where
  sentLen_pos : 0 < p.sentBuffer.len
  sentLen_lt : p.sentBuffer.len < 65536
  handles : ∀ id handles, p.dispatcher.messagesInPackets.get id = some handles →
    ∀ handle ∈ handles, (p.channels.window handle.channel).isSome = true
  reassembler : p.dispatcher.messageReassembler.Consistent

/-- The messages in the packets that are acked for the first time, in order. -/
def ackedHandles (p : Endpoint) (acks : List (UInt16 × Bool)) : List MessageHandle :=
  MessageDispatcher.handlesIn p.dispatcher.messagesInPackets (p.ackState.newAcks acks)

/-- No message of a packet that is acked for the first time meets an assertion. -/
def AdmitsAcks (p : Endpoint) (acks : List (UInt16 × Bool)) : Prop :=
  AdmitsHandles p.channels.wholes p.dispatcher.sentFragMap (p.ackedHandles acks)

/-- **A packet that does no harm**, unless it is refused anyway. -/
def Admits (p : Endpoint) (header : ProtocolPacketHeader) (payload : List UInt8) : Prop :=
  p.ackState.CanReceive header.id → p.AdmitsAcks (header.acks.getD []) ∧
    (header.packetType = .messages → p.AdmitsMessages (payload.length + 1) payload)

instance (p : Endpoint) (acks : List (UInt16 × Bool)) : Decidable (p.AdmitsAcks acks) :=
  decidableAdmitsHandles _ _ _

instance (p : Endpoint) (header : ProtocolPacketHeader) (payload : List UInt8) :
    Decidable (p.Admits header payload) :=
  inferInstanceAs (Decidable (_ = true ∧ _ = false → _ ∧ (_ → _)))

variable {p p' : Endpoint}

/-- Acks do not read what is entered of received packets. -/
theorem admitsAcks_of_entered {stats : PicklebackStats} {rb : SequenceBuffer ReceivedMeta}
    (acks : List (UInt16 × Bool)) :
    AdmitsAcks { p with stats := stats, receivedBuffer := rb } acks ↔ p.AdmitsAcks acks := by
  rw [AdmitsAcks, AdmitsAcks, ackedHandles, ackedHandles,
    ← AckState.newAcks_receivedBuffer acks p.ackState rb]
  rfl

/-- Packets without fragments can be acked. -/
theorem admitsAcks_of_whole {acks : List (UInt16 × Bool)} (h : ∀ id, (id, true) ∈ acks →
    ∀ handle ∈ p.dispatcher.handlesOf id, handle.fragIndex = none) : p.AdmitsAcks acks := by
  refine admitsHandles_of_whole fun handle hmem => ?_
  obtain ⟨id, hid, handles, hget, hhandle⟩ := MessageDispatcher.exists_of_mem_handlesIn hmem
  refine h id (AckState.mem_of_mem_newAcks hid) handle ?_
  rw [MessageDispatcher.handlesOf, hget]
  exact hhandle

/-- So can packets without fragments be received. -/
theorem admitsMessages_of_fragments {fuel : ℕ} {payload : List UInt8}
    (h : Message.fragments fuel payload = []) : p.AdmitsMessages fuel payload := by
  have hoffered : offered p.channels.window (Message.readable fuel payload) = [] := by
    refine List.eq_nil_iff_forall_not_mem.mpr fun f hf => ?_
    obtain ⟨c, hc, hcf⟩ := mem_of_mem_offered hf
    have hmem := Message.mem_fragments_of_readable hc hcf
    rw [h] at hmem
    cases hmem
  rw [AdmitsMessages, h, hoffered]
  exact ⟨fun _ f hf => (by cases hf), trivial⟩

/-- An ack that is the first for its packet passes the messages in it on. -/
theorem processAck_of_setsAcked {ack : UInt16 × Bool} (hsets : p.ackState.setsAcked ack = true)
    (t : PacketType) : (p.processAck t ack).map (fun p' => (p'.dispatcher, p'.channels))
      = (p.dispatcher.ackedPacket ack.1 p.channels).map Prod.snd := by
  obtain ⟨hbit, hany⟩ := Bool.and_eq_true_iff.mp hsets
  obtain ⟨sentMeta, hget, hacked⟩ := (Option.any_eq_true ..).mp hany
  have hget' : p.sentBuffer.get ack.1 = some sentMeta := hget
  rw [processAck, hget']
  simp only [hbit, Bool.not_true, Bool.false_eq_true, if_false,
    show sentMeta.acked = false by simpa using hacked]
  cases p.dispatcher.ackedPacket ack.1 p.channels <;> rfl

/-- Any other ack does nothing. -/
theorem processAck_of_not_setsAcked {ack : UInt16 × Bool}
    (hsets : ¬ p.ackState.setsAcked ack = true) (t : PacketType) :
    p.processAck t ack = .ok p := by
  rw [processAck]
  split
  · rfl
  · next hbit =>
    split
    · rfl
    · next sentMeta hget =>
      split
      · rfl
      · next hacked =>
        refine absurd ?_ hsets
        rw [AckState.setsAcked, show p.ackState.sentBuffer.get ack.1 = some sentMeta from hget]
        simpa using ⟨by simpa using hbit, by simpa using hacked⟩

namespace Receptive

theorem known (h : p.Receptive) {id : PacketId} :
    ∀ handle ∈ p.dispatcher.handlesOf id, (p.channels.window handle.channel).isSome = true := by
  intro handle hmem
  rw [MessageDispatcher.handlesOf] at hmem
  cases hremembered : p.dispatcher.messagesInPackets.get id with
  | none =>
    rw [hremembered] at hmem
    cases hmem
  | some handles =>
    rw [hremembered] at hmem
    exact h.handles id handles hremembered handle hmem

/-- **An ack**, and those that come after it. -/
theorem admitsAcks_cons_iff (h : p.Receptive) (t : PacketType) (ack : UInt16 × Bool)
    (acks : List (UInt16 × Bool)) :
    p.AdmitsAcks (ack :: acks) ↔ ∃ p', p.processAck t ack = .ok p' ∧ p'.AdmitsAcks acks := by
  by_cases hsets : p.ackState.setsAcked ack = true
  · have hprocess := processAck_of_setsAcked hsets t
    have hhandles : p.ackedHandles (ack :: acks) = p.dispatcher.handlesOf ack.1 ++
        MessageDispatcher.handlesIn (p.dispatcher.messagesInPackets.remove ack.1).2
          ((p.ackState.processAck ack).newAcks acks) := by
      rw [ackedHandles, AckState.newAcks, if_pos hsets]
      rfl
    -- what the rest of the acks finds
    have hrest : ∀ {p' buffers d channels}, p.processAck t ack = .ok p' →
        p.dispatcher.ackedPacket ack.1 p.channels = .ok (buffers, d, channels) →
        (p'.AdmitsAcks acks ↔ AdmitsHandles channels.wholes d.sentFragMap
          (MessageDispatcher.handlesIn (p.dispatcher.messagesInPackets.remove ack.1).2
            ((p.ackState.processAck ack).newAcks acks))) := by
      intro p' buffers d channels hp' hd
      rw [hp', hd] at hprocess
      cases hprocess
      have hintake := MessageDispatcher.sameIntake_ackedPacket hd
      rw [AdmitsAcks, ackedHandles, processAck_eq_ok hp', hintake.messagesInPackets]
    rw [AdmitsAcks, hhandles, MessageDispatcher.admitsHandles_append_iff
      (d := { p.dispatcher with
        messagesInPackets := (p.dispatcher.messagesInPackets.remove ack.1).2 }) h.known]
    constructor
    · rintro ⟨buffers, d, channels, hd, hadmits⟩
      rw [← MessageDispatcher.ackedPacket_eq] at hd
      rw [hd] at hprocess
      obtain ⟨p', hp', -⟩ := exists_of_map_eq_ok hprocess
      exact ⟨p', hp', (hrest hp' hd).mpr hadmits⟩
    · rintro ⟨p', hp', hadmits⟩
      rw [hp'] at hprocess
      obtain ⟨⟨buffers, d, channels⟩, hd, -⟩ := exists_of_map_eq_ok hprocess.symm
      refine ⟨buffers, d, channels, ?_, (hrest hp' hd).mp hadmits⟩
      rw [← MessageDispatcher.ackedPacket_eq]
      exact hd
  · have hsame : p.processAck t ack = .ok p := processAck_of_not_setsAcked hsets t
    have hhandles : p.ackedHandles (ack :: acks) = p.ackedHandles acks := by
      rw [ackedHandles, AckState.newAcks, if_neg hsets, ← processAck_eq_ok hsame]
      rfl
    rw [AdmitsAcks, hhandles, hsame]
    constructor
    · exact fun hadmits => ⟨p, rfl, hadmits⟩
    · rintro ⟨_, heq, hadmits⟩
      cases heq
      exact hadmits

/-- What acks leave alone. -/
theorem processAck (h : p.Receptive) {t : PacketType} {ack : UInt16 × Bool}
    (hcall : p.processAck t ack = .ok p') : p'.Receptive ∧ p'.overflowChecks = p.overflowChecks ∧
      p'.channels.window = p.channels.window ∧
      p'.dispatcher.messageReassembler = p.dispatcher.messageReassembler := by
  obtain rfl | ⟨sentMeta, buffers, d, channels, -, -, hd, hp'⟩ := processAck_cases hcall
  · exact ⟨h, rfl, rfl, rfl⟩
  · have hintake := MessageDispatcher.sameIntake_ackedPacket hd
    have hwindow : channels.window = p.channels.window := by
      rw [MessageDispatcher.ackedPacket_eq] at hd
      exact MessageDispatcher.window_ackHandles hd
    rw [hp']
    refine ⟨⟨h.sentLen_pos, h.sentLen_lt, ?_, ?_⟩, rfl, hwindow, hintake.messageReassembler⟩
    · intro id handles hget handle hmem
      rw [hintake.messagesInPackets] at hget
      rw [hwindow]
      exact h.handles id handles (SequenceBuffer.get_of_get_remove hget) handle hmem
    · rw [hintake.messageReassembler]
      exact h.reassembler

/-- **The acks of a packet** are processed if and only if they meet no assertion. -/
theorem exists_processAcks_iff (h : p.Receptive) (t : PacketType) (acks : List (UInt16 × Bool)) :
    p.AdmitsAcks acks ↔ ∃ p', p.processAcks t acks = .ok p' := by
  induction acks generalizing p with
  | nil => exact iff_of_true trivial ⟨_, rfl⟩
  | cons ack acks ih =>
    rw [h.admitsAcks_cons_iff t, processAcks]
    constructor
    · rintro ⟨p₁, hp₁, hadmits⟩
      rw [hp₁]
      exact (ih (h.processAck hp₁).1).mp hadmits
    · rintro ⟨p', hp'⟩
      split at hp'
      · cases hp'
      · next p₁ hp₁ => exact ⟨p₁, hp₁, (ih (h.processAck hp₁).1).mpr ⟨p', hp'⟩⟩

theorem processAcks (h : p.Receptive) {t : PacketType} {acks : List (UInt16 × Bool)}
    (hcall : p.processAcks t acks = .ok p') : p'.Receptive ∧ p'.overflowChecks = p.overflowChecks ∧
      p'.channels.window = p.channels.window ∧
      p'.dispatcher.messageReassembler = p.dispatcher.messageReassembler := by
  induction acks generalizing p with
  | nil =>
    cases hcall
    exact ⟨h, rfl, rfl, rfl⟩
  | cons ack acks ih =>
    rw [Endpoint.processAcks] at hcall
    split at hcall
    · cases hcall
    · next p₁ hp₁ =>
      obtain ⟨h₁, hchecks₁, hwindow₁, hsame₁⟩ := h.processAck hp₁
      obtain ⟨h₂, hchecks₂, hwindow₂, hsame₂⟩ := ih h₁ hcall
      exact ⟨h₂, hchecks₂.trans hchecks₁, hwindow₂.trans hwindow₁, hsame₂.trans hsame₁⟩

/-- The acks of a header, and the estimate of the loss that may follow. -/
theorem exists_processPacketAcksAndRtt_iff (h : p.Receptive) (header : ProtocolPacketHeader) :
    p.AdmitsAcks (header.acks.getD []) ↔ ∃ p', p.processPacketAcksAndRtt header = .ok p' := by
  rw [processPacketAcksAndRtt]
  cases header.acks with
  | none => exact iff_of_true trivial ⟨_, rfl⟩
  | some acks =>
    rw [Option.getD_some, h.exists_processAcks_iff header.packetType]
    dsimp only
    constructor
    · rintro ⟨p₁, hp₁⟩
      obtain ⟨h₁, -⟩ := h.processAcks hp₁
      obtain ⟨packetLoss, hloss⟩ := exists_updatePacketLossCalculation h₁.sentLen_pos h₁.sentLen_lt
      rw [hp₁]
      dsimp only
      split
      · exact ⟨_, hloss⟩
      · exact ⟨_, rfl⟩
    · rintro ⟨p', hp'⟩
      split at hp'
      · cases hp'
      · next p₁ hp₁ => exact ⟨p₁, hp₁⟩

theorem processPacketAcksAndRtt (h : p.Receptive) {header : ProtocolPacketHeader}
    (hcall : p.processPacketAcksAndRtt header = .ok p') :
    p'.overflowChecks = p.overflowChecks ∧ p'.channels.window = p.channels.window ∧
      p'.dispatcher.messageReassembler = p.dispatcher.messageReassembler := by
  rw [Endpoint.processPacketAcksAndRtt] at hcall
  split at hcall
  · cases hcall
    exact ⟨rfl, rfl, rfl⟩
  · split at hcall
    · cases hcall
    · next p₁ hp₁ =>
      obtain ⟨h₁, hsame⟩ := h.processAcks hp₁
      split at hcall
      · obtain ⟨packetLoss, hloss⟩ :=
          exists_updatePacketLossCalculation h₁.sentLen_pos h₁.sentLen_lt
        cases hloss.symm.trans hcall
        exact hsame
      · cases hcall
        exact hsame

/-- **Exactly the packets that do no harm** are received: for those the call returns, be it with an
error; for all others it panics. -/
theorem exists_processIncomingPacket_iff (h : p.Receptive) (header : ProtocolPacketHeader)
    (payload : List UInt8) :
    (∃ r, p.processIncomingPacket header payload = .ok r) ↔ p.Admits header payload := by
  rw [processIncomingPacket, Admits]
  dsimp only
  split
  · next hstale =>
    exact iff_of_true ⟨_, rfl⟩ fun hcan => absurd hcan.1 (by simpa using hstale)
  · next hcheck =>
    split
    · next hduplicate =>
      exact iff_of_true ⟨_, rfl⟩ fun hcan => absurd hcan.2 (by simpa using hduplicate)
    · next hexists =>
      have hcan : p.ackState.CanReceive header.id := ⟨by simpa using hcheck, by simpa using hexists⟩
      rw [imp_iff_right hcan, acceptPacket]
      dsimp only
      obtain ⟨rb, hrb⟩ := SequenceBuffer.exists_insert_of_checkSequence (b := p.receivedBuffer)
        hcan.1 ⟨p.time, p.config.packetHeaderSize + (header.size + payload.length)⟩
      rw [hrb]
      dsimp only
      -- the endpoint that has entered the packet
      have hentered : Receptive { p with
          stats := { p.stats with packetsReceived := p.stats.packetsReceived + 1 }
          receivedBuffer := rb } := ⟨h.sentLen_pos, h.sentLen_lt, h.handles, h.reassembler⟩
      have hacks := hentered.exists_processPacketAcksAndRtt_iff header
      rw [admitsAcks_of_entered] at hacks
      constructor
      · rintro ⟨r, hr⟩
        split at hr
        · cases hr
        · next p₂ hp₂ =>
          obtain ⟨hchecks, hwindow, hsame⟩ := hentered.processPacketAcksAndRtt hp₂
          refine ⟨hacks.mpr ⟨p₂, hp₂⟩, fun htype => ?_⟩
          rw [if_pos htype] at hr
          have hmessages := (exists_processMessages_iff (Nat.lt_succ_self payload.length)
            (hsame ▸ h.reassembler)).mp ⟨r, hr⟩
          rw [AdmitsMessages, hchecks, hwindow, hsame] at hmessages
          exact hmessages
      · rintro ⟨hadmits, hmessages⟩
        obtain ⟨p₂, hp₂⟩ := hacks.mp hadmits
        obtain ⟨hchecks, hwindow, hsame⟩ := hentered.processPacketAcksAndRtt hp₂
        rw [hp₂]
        dsimp only
        split
        · next htype =>
          refine (exists_processMessages_iff (Nat.lt_succ_self payload.length)
            (hsame ▸ h.reassembler)).mpr ?_
          rw [AdmitsMessages, hchecks, hwindow, hsame]
          exact hmessages htype
        · exact ⟨_, rfl⟩

end Receptive

end Endpoint

end Pickleback
