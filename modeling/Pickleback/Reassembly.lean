import Pickleback.Outbound

/-!
# Fragmentation and reassembly

A stored partial message counts the places of its vector that are filled. So the call that fills the
last place returns the whole message, and every call before it returns nothing. Over the fragments
of any number of messages, interleaved in any order and with repetitions, each message comes back
once and the map is empty at the end.

## Main definitions

* `IncompleteMessage.Consistent` — what a stored partial message satisfies
* `MessageReassembler.slots` — the places held for a parent id
* `LargeSend` — what one call of `add_large_message_to_channel` queued
* `Arrival`, `Collected` — received fragments of several sends, and what is held after them

## Main results

* `MessageReassembler.addFragment_spec` — one call
* `Collected.feed` — the calls for any arrivals
* `feed_reassembles` — every order of the fragments gives back the payloads
-/

namespace Pickleback

/-! ### Lists of places -/

theorem exists_map_some {α : Type} {l : List (Option α)} (h : ∀ x ∈ l, x.isSome = true) :
    ∃ xs : List α, l = xs.map some := by
  induction l with
  | nil => exact ⟨[], rfl⟩
  | cons x l ih =>
    obtain ⟨xs, hxs⟩ := ih fun y hy => h y (List.mem_cons_of_mem _ hy)
    obtain ⟨a, rfl⟩ := Option.isSome_iff_exists.mp (h x (List.mem_cons_self ..))
    exact ⟨a :: xs, by rw [hxs]; rfl⟩

theorem countP_isSome_set {α : Type} {l : List (Option α)} {i : ℕ} {a : α} (hi : i < l.length)
    (hnone : l.getD i none = none) :
    (l.set i (some a)).countP Option.isSome = l.countP Option.isSome + 1 := by
  have hget : l[i] = none := by simpa [List.getD_eq_getElem?_getD, hi] using hnone
  rw [List.countP_set hi, hget]
  simp

theorem getD_replicate_none {α : Type} (n i : ℕ) :
    (List.replicate n (none : Option α)).getD i none = none := by
  rw [List.getD_eq_getElem?_getD, List.getElem?_replicate]
  split <;> rfl

/-! ### Partial messages -/

namespace IncompleteMessage

/-- What a stored partial message satisfies: the vector has the announced length, the counter counts
the filled places, and one is still empty. -/
structure Consistent (inc : IncompleteMessage) : Prop where
  two_le : 2 ≤ inc.numFragments.toNat
  le_max : inc.numFragments.toNat ≤ maxFragments
  length : inc.fragments.length = inc.numFragments.toNat
  received : inc.numReceivedFragments.toNat = inc.fragments.countP Option.isSome
  missing : inc.fragments.countP Option.isSome < inc.fragments.length

theorem new_eq_ok {n : UInt16} (htwo : 2 ≤ n.toNat) (hmax : n.toNat ≤ maxFragments) :
    new n = .ok ⟨n, 0, List.replicate n.toNat none⟩ := by
  have hgt : n > 1 := by
    rw [gt_iff_lt, UInt16.lt_iff_toNat_lt]
    exact htwo
  rw [new, if_neg (by simpa using hmax), if_neg (by simpa using hgt)]

theorem consistent_new {n : UInt16} (htwo : 2 ≤ n.toNat) (hmax : n.toNat ≤ maxFragments) :
    Consistent ⟨n, 0, List.replicate n.toNat none⟩ where
  two_le := htwo
  le_max := hmax
  length := List.length_replicate
  received := by simp [List.countP_replicate]
  missing := by
    simp only [List.countP_replicate, Option.isSome_none, Bool.false_eq_true,
      if_false, List.length_replicate]
    omega

/-- The partial message with one more place filled. -/
def fill (inc : IncompleteMessage) (i : UInt16) (m : Message) : IncompleteMessage where
  numFragments := inc.numFragments
  numReceivedFragments := inc.numReceivedFragments + 1
  fragments := inc.fragments.set i.toNat (some m)

/-- A fragment whose place is filled is dropped, another one fills its place, and the call says
whether it was the last. -/
theorem addFragment_of_lt {inc : IncompleteMessage} (h : inc.Consistent) {i : UInt16}
    (hi : i.toNat < inc.numFragments.toNat) (m : Message) :
    inc.addFragment i m =
      if (inc.fragments.getD i.toNat none).isSome then .ok (false, inc)
      else .ok ((inc.numReceivedFragments + 1 == inc.numFragments), inc.fill i m) := by
  have hmax := h.le_max
  rw [addFragment, if_neg (by omega), if_neg (by rwa [not_not, UInt16.lt_iff_toNat_lt])]
  rfl

theorem toNat_received_succ {inc : IncompleteMessage} (h : inc.Consistent) :
    (inc.numReceivedFragments + 1).toNat = inc.numReceivedFragments.toNat + 1 := by
  have hreceived := h.received
  have hmissing := h.missing
  have hlen := h.length
  have hmax := h.le_max
  rw [maxFragments] at hmax
  rw [UInt16.toNat_add]
  simp only [UInt16.reduceToNat]
  omega

/-- Filling an empty place: the message stays partial, or all places are filled. -/
theorem fill_cases {inc : IncompleteMessage} (h : inc.Consistent) {i : UInt16}
    (hi : i.toNat < inc.numFragments.toNat) (hnone : inc.fragments.getD i.toNat none = none)
    (m : Message) :
    ((inc.numReceivedFragments + 1 == inc.numFragments) = false ∧ (inc.fill i m).Consistent) ∨
      ((inc.numReceivedFragments + 1 == inc.numFragments) = true ∧
        ∃ ms : List Message, (inc.fill i m).fragments = ms.map some) := by
  have hlt : i.toNat < inc.fragments.length := by rw [h.length]; exact hi
  have hcount := countP_isSome_set (a := m) hlt hnone
  have hsucc := toNat_received_succ h
  have hreceived := h.received
  have hlen := h.length
  have hmissing := h.missing
  by_cases hall : inc.numReceivedFragments + 1 = inc.numFragments
  · right
    refine ⟨by simpa using hall, exists_map_some ?_⟩
    rw [← List.countP_eq_length]
    have heq := congrArg UInt16.toNat hall
    show (inc.fragments.set i.toNat (some m)).countP Option.isSome
      = (inc.fragments.set i.toNat (some m)).length
    rw [hcount, List.length_set]
    omega
  · left
    have hne : (inc.numReceivedFragments + 1).toNat ≠ inc.numFragments.toNat := fun heq =>
      hall (UInt16.toNat_inj.mp heq)
    refine ⟨by simpa using hall, h.two_le, h.le_max, ?_, ?_, ?_⟩
    · show (inc.fragments.set i.toNat (some m)).length = inc.numFragments.toNat
      rw [List.length_set, hlen]
    · show (inc.numReceivedFragments + 1).toNat = (inc.fragments.set i.toNat (some m)).countP _
      rw [hsucc, hcount, hreceived]
    · show (inc.fragments.set i.toNat (some m)).countP _ <
        (inc.fragments.set i.toNat (some m)).length
      rw [hcount, List.length_set]
      omega

end IncompleteMessage

/-! ### The map of partial messages -/

namespace MessageReassembler

theorem expectAll_map_some (ms : List Message) : expectAll (ms.map some) = .ok ms := by
  induction ms with
  | nil => rfl
  | cons m ms ih => simp [expectAll, ih, Except.map]

/-- Every stored partial message is consistent. -/
def Consistent (r : MessageReassembler) : Prop :=
  ∀ parent inc, r.inProgress parent = some inc → inc.Consistent

theorem consistent_empty : empty.Consistent := by
  intro parent inc h
  cases h

/-- The places held for a parent id, or those that a fragment of `n` would open. -/
def slots (r : MessageReassembler) (parent : MessageId) (n : UInt16) : List (Option Message) :=
  match r.inProgress parent with
  | some inc => inc.fragments
  | none => List.replicate n.toNat none

/-- The map with other places for one parent id. -/
def setSlots (r : MessageReassembler) (parent : MessageId) (inc : Option IncompleteMessage) :
    MessageReassembler :=
  ⟨Function.update r.inProgress parent inc⟩

theorem Consistent.setSlots {r : MessageReassembler} (h : r.Consistent) {parent : MessageId}
    {inc : Option IncompleteMessage} (hinc : ∀ i, inc = some i → i.Consistent) :
    (r.setSlots parent inc).Consistent := by
  intro parent' inc' h'
  by_cases heq : parent' = parent
  · subst heq
    simp only [MessageReassembler.setSlots, Function.update_self] at h'
    exact hinc inc' h'
  · simp only [MessageReassembler.setSlots, Function.update_of_ne heq] at h'
    exact h parent' inc' h'

/-- The partial message that a fragment meets: the stored one, or a new one. -/
theorem exists_met {r : MessageReassembler} (hr : r.Consistent) {f : Fragment}
    (htwo : 2 ≤ f.numFragments.toNat) (hmax : f.numFragments.toNat ≤ maxFragments)
    (hsame : ∀ inc, r.inProgress f.parentId = some inc → inc.numFragments = f.numFragments)
    (hindex : f.index < f.numFragments) (m : Message) :
    ∃ inc : IncompleteMessage, inc.Consistent ∧ inc.numFragments = f.numFragments ∧
      inc.fragments = r.slots f.parentId f.numFragments ∧
      r.store f m = inc.addFragment f.index m := by
  cases hget : r.inProgress f.parentId with
  | some inc => exact ⟨inc, hr _ _ hget, hsame inc hget, by simp [slots, hget], by
    simp [store, hget]⟩
  | none =>
    have hnew := IncompleteMessage.consistent_new htwo hmax
    have hlt : f.index.toNat < f.numFragments.toNat := UInt16.lt_iff_toNat_lt.mp hindex
    refine ⟨⟨f.numFragments, 0, List.replicate f.numFragments.toNat none⟩, hnew, rfl, by
      simp [slots, hget], ?_⟩
    have hone : ((0 : UInt16) + 1 == f.numFragments) = false := by
      rw [beq_eq_false_iff_ne]
      rintro heq
      rw [← heq] at htwo
      exact absurd htwo (by decide)
    simp only [store, hget, IncompleteMessage.new_eq_ok htwo hmax]
    rw [IncompleteMessage.addFragment_of_lt hnew hlt]
    simp only [getD_replicate_none, Option.isSome_none, Bool.false_eq_true,
      if_false, Except.map, hone]

/-- **One fragment.** Its place is filled already and nothing happens; or it fills its place; or it
fills the last empty place, and the whole message is returned and forgotten. -/
theorem addFragment_spec {r : MessageReassembler} (hr : r.Consistent) {m : Message} {f : Fragment}
    (hf : m.fragment = some f) (htwo : 2 ≤ f.numFragments.toNat)
    (hmax : f.numFragments.toNat ≤ maxFragments) (hindex : f.index < f.numFragments)
    (hsame : ∀ inc, r.inProgress f.parentId = some inc → inc.numFragments = f.numFragments) :
    (((r.slots f.parentId f.numFragments).getD f.index.toNat none).isSome = true ∧
        r.addFragment m = .ok (none, r)) ∨
      ((r.slots f.parentId f.numFragments).getD f.index.toNat none = none ∧
        ((∃ inc, inc.Consistent ∧ inc.numFragments = f.numFragments ∧
            inc.fragments = (r.slots f.parentId f.numFragments).set f.index.toNat (some m) ∧
            r.addFragment m = .ok (none, r.setSlots f.parentId (some inc))) ∨
          ∃ ms : List Message,
            (r.slots f.parentId f.numFragments).set f.index.toNat (some m) = ms.map some ∧
            r.addFragment m = .ok (some (.fragmented ms), r.setSlots f.parentId none))) := by
  obtain ⟨inc, hinc, hnum, hslots, hstore⟩ := exists_met hr htwo hmax hsame hindex m
  have hlt : f.index.toNat < inc.numFragments.toNat := by
    rw [hnum]
    exact UInt16.lt_iff_toNat_lt.mp hindex
  have hbig : ¬ f.numFragments > UInt16.ofNat maxFragments := by
    rw [gt_iff_lt, UInt16.lt_iff_toNat_lt]
    exact not_lt.mpr hmax
  rw [IncompleteMessage.addFragment_of_lt hinc hlt] at hstore
  rw [← hslots]
  by_cases hsome : (inc.fragments.getD f.index.toNat none).isSome = true
  · left
    rw [if_pos hsome] at hstore
    refine ⟨hsome, ?_⟩
    -- A filled place can only be in a stored partial message, which is put back as it was.
    have hget : r.inProgress f.parentId = some inc := by
      cases hget : r.inProgress f.parentId with
      | some inc' =>
        have hlt' : f.index.toNat < inc'.numFragments.toNat := by
          rw [hsame inc' hget, ← hnum]
          exact hlt
        simp only [slots, hget] at hslots
        simp only [store, hget] at hstore
        rw [IncompleteMessage.addFragment_of_lt (hr _ _ hget) hlt', ← hslots, if_pos hsome,
          Except.ok.injEq, Prod.mk.injEq] at hstore
        rw [hstore.2]
      | none =>
        simp only [slots, hget] at hslots
        rw [hslots, getD_replicate_none] at hsome
        cases hsome
    simp only [addFragment, hf, if_neg hbig, hstore, Bool.false_eq_true, if_false]
    rw [← hget, Function.update_eq_self]
  · right
    rw [if_neg hsome] at hstore
    have hnone : inc.fragments.getD f.index.toNat none = none := by simpa using hsome
    refine ⟨hnone, ?_⟩
    rcases IncompleteMessage.fill_cases hinc hlt hnone m with ⟨hready, hfill⟩ | ⟨hready, ms, hms⟩
    · left
      refine ⟨inc.fill f.index m, hfill, hnum, rfl, ?_⟩
      simp only [addFragment, hf, if_neg hbig, hstore, hready, Bool.false_eq_true, if_false]
      rfl
    · right
      refine ⟨ms, hms, ?_⟩
      simp only [addFragment, hf, if_neg hbig, hstore, hready,
        if_true, hms, expectAll_map_some, Except.map]
      rfl

/-- Every stored fragment has a property that may depend on its parent id. -/
def Stores (Q : MessageId → Message → Prop) (r : MessageReassembler) : Prop :=
  ∀ parent inc, r.inProgress parent = some inc → ∀ m, some m ∈ inc.fragments → Q parent m

theorem stores_empty (Q : MessageId → Message → Prop) : Stores Q empty := by
  intro parent inc h
  cases h

theorem mem_of_incomplete_addFragment {inc inc' : IncompleteMessage} {i : UInt16} {m x : Message}
    {ready : Bool} (h : inc.addFragment i m = .ok (ready, inc')) (hx : some x ∈ inc'.fragments) :
    x = m ∨ some x ∈ inc.fragments := by
  simp only [IncompleteMessage.addFragment] at h
  split at h
  · cases h
  · split at h
    · cases h
    · split at h
      · cases h
        exact Or.inr hx
      · cases h
        rcases List.mem_or_eq_of_mem_set hx with hold | hnew
        · exact Or.inr hold
        · exact Or.inl (Option.some.inj hnew)

theorem mem_of_store {r : MessageReassembler} {f : Fragment} {m x : Message} {ready : Bool}
    {inc : IncompleteMessage} (h : r.store f m = .ok (ready, inc)) (hx : some x ∈ inc.fragments) :
    x = m ∨ ∃ inc₀, r.inProgress f.parentId = some inc₀ ∧ some x ∈ inc₀.fragments := by
  simp only [store] at h
  split at h
  · next inc₀ hget =>
    rcases mem_of_incomplete_addFragment h hx with rfl | hold
    · exact Or.inl rfl
    · exact Or.inr ⟨inc₀, hget, hold⟩
  · split at h
    · cases h
    · next inc₀ hnew =>
      obtain ⟨⟨ready', inc'⟩, hadd, heq⟩ := exists_of_map_eq_ok h
      cases heq
      rcases mem_of_incomplete_addFragment hadd hx with rfl | hold
      · exact Or.inl rfl
      · simp only [IncompleteMessage.new] at hnew
        split at hnew
        · cases hnew
        · split at hnew
          · cases hnew
          · cases hnew
            cases (List.mem_replicate.mp hold).2

theorem eq_map_of_expectAll {l : List (Option Message)} {ms : List Message}
    (h : expectAll l = .ok ms) : l = ms.map some := by
  induction l generalizing ms with
  | nil =>
    cases h
    rfl
  | cons x l ih =>
    cases x with
    | none => cases h
    | some m =>
      obtain ⟨ms', hms', rfl⟩ := exists_of_map_eq_ok h
      rw [ih hms', List.map_cons]

/-- One call keeps what is known of the stored fragments, and it is known of those returned. -/
theorem Stores.addFragment {Q : MessageId → Message → Prop} {r r' : MessageReassembler}
    {out : Option ReceivedMessage} {m : Message} {f : Fragment} (h : Stores Q r)
    (hf : m.fragment = some f) (hm : Q f.parentId m) (hadd : r.addFragment m = .ok (out, r')) :
    Stores Q r' ∧ ∀ msg, out = some msg → ∃ ms, msg = .fragmented ms ∧
      ∀ x ∈ ms, Q f.parentId x := by
  have hstored : ∀ {ready inc}, r.store f m = .ok (ready, inc) → ∀ x, some x ∈ inc.fragments →
      Q f.parentId x := by
    intro ready inc hstore x hx
    obtain rfl | ⟨inc₀, hget, hold⟩ := mem_of_store hstore hx
    · exact hm
    · exact h _ _ hget x hold
  have hupdate : ∀ {inc' : Option IncompleteMessage},
      (∀ inc, inc' = some inc → ∀ x, some x ∈ inc.fragments → Q f.parentId x) →
      Stores Q ⟨Function.update r.inProgress f.parentId inc'⟩ := by
    intro inc' hinc' parent inc hget x hx
    by_cases heq : parent = f.parentId
    · subst heq
      simp only [Function.update_self] at hget
      exact hinc' inc hget x hx
    · simp only [Function.update_of_ne heq] at hget
      exact h parent inc hget x hx
  simp only [MessageReassembler.addFragment, hf] at hadd
  split at hadd
  · cases hadd
    exact ⟨h, fun msg hmsg => by cases hmsg⟩
  · split at hadd
    · cases hadd
    · next ready inc hstore =>
      split at hadd
      · obtain ⟨ms, hall, heq⟩ := exists_of_map_eq_ok hadd
        cases heq
        refine ⟨hupdate (fun inc hinc => by cases hinc), ?_⟩
        rintro msg hmsg
        cases hmsg
        refine ⟨ms, rfl, fun x hx => hstored hstore x ?_⟩
        rw [eq_map_of_expectAll hall]
        exact List.mem_map_of_mem hx
      · cases hadd
        refine ⟨hupdate ?_, fun msg hmsg => by cases hmsg⟩
        rintro inc' hinc'
        cases hinc'
        exact hstored hstore

end MessageReassembler

/-! ### Fragmented sends -/

theorem Message.length_writeHeaders_eq {id : MessageId} {fragment : Option Fragment}
    {mode : MessageSizeMode} {channel : UInt8} {n : ℕ} {headers : List UInt8}
    (h : writeHeaders id fragment mode channel n = .ok headers) :
    headers.length = headerSize fragment mode := by
  cases fragment with
  | none => cases mode <;> cases h <;> rfl
  | some f =>
    cases hf : f.writeHeader (UInt16.ofNat n) mode with
    | error e => simp [writeHeaders, hf, Except.map] at h
    | ok bytes =>
      simp only [writeHeaders, hf, Except.map, Except.ok.injEq] at h
      subst h
      cases mode <;> grind [Fragment.writeHeader, headerSize, Fragment.headerSize,
        ByteCodec.length_writeU16]

/-- The payload in an outbound message is determined by the message. -/
theorem Message.Encodes.unique {m : Message} {payload payload' : List UInt8} (h : m.Encodes payload)
    (h' : m.Encodes payload') : payload = payload' := by
  obtain ⟨-, -, -, headers, hheaders, hdata⟩ := h
  obtain ⟨-, -, -, headers', hheaders', hdata'⟩ := h'
  rw [hdata] at hdata'
  refine List.append_inj_right hdata' ?_
  rw [length_writeHeaders_eq hheaders, length_writeHeaders_eq hheaders']

/-- A payload too large for one message, with what `add_large_message_to_channel` did with it in a
build whose `u16` arithmetic wraps: the id it returned and the fragments it queued. -/
structure LargeSend where
  payload : List UInt8
  id : MessageId
  fragments : List Message
  large : 1024 < payload.length
  le_max : payload.length ≤ 1024 * maxFragments
  sent : ∃ d pool ch d' ch' pool', MessageDispatcher.addLargeMessageToChannel
    false d pool ch payload
    = .ok (.ok id, d', ch', pool') ∧ ch'.queued = ch.queued ++ fragments

namespace LargeSend

/-- How many fragments there are. -/
def num (s : LargeSend) : ℕ := numFragments s.payload

theorem num_bounds (s : LargeSend) : 2 ≤ s.num ∧ s.num ≤ maxFragments := by
  have hlarge := s.large
  have hmax := s.le_max
  exact ⟨lt_numFragments_iff.mpr (by omega), numFragments_le (by simpa [maxFragments] using hmax)⟩

theorem toNat_num (s : LargeSend) : (UInt16.ofNat s.num).toNat = s.num := by
  have := s.num_bounds.2
  rw [maxFragments] at this
  rw [UInt16.toNat_ofNat']
  exact Nat.mod_eq_of_lt (by omega)

/-- The fragments are the chunks of the payload, in order. -/
theorem isFragment (s : LargeSend) : s.fragments.length = s.num ∧
    ∃ channel, ∀ i m, s.fragments[i]? = some m → IsFragment s.id channel s.payload i m := by
  obtain ⟨d, pool, ch, d', ch', pool', hadd, hqueued⟩ := s.sent
  have hlarge : ¬ s.payload.length ≤ 1024 := not_le.mpr s.large
  have hmax : s.payload.length ≤ 1024 * 1024 := s.le_max
  have hadd' : d.addMessageToChannel false pool ch s.payload = .ok (.ok s.id, d', ch', pool') := by
    rw [MessageDispatcher.addMessageToChannel, if_neg hlarge, hadd]
  obtain ⟨ms, hblock, hch, hrecords⟩ := MessageDispatcher.addMessageToChannel_eq_ok hmax hadd'
  have hms : ms = s.fragments := by
    rw [hch, Channel.queued_pushAll] at hqueued
    exact List.append_cancel_left hqueued
  have hid : s.id = d.nextMessageId := hrecords.id_eq rfl
  rw [SendBlock, if_neg hlarge, hms] at hblock
  rw [hid]
  exact ⟨hblock.1, ch.id, hblock.2⟩

end LargeSend

/-- `m'` is the message `m` as a receiver gets it: its buffer holds the payload of `m`. -/
def Message.ReceivedAs (m m' : Message) : Prop :=
  m'.id = m.id ∧ m'.fragment = m.fragment ∧ m.Encodes m'.buffer.data

/-- `m` is fragment `i` of the send, as received. -/
def LargeSend.IsPart (s : LargeSend) (i : ℕ) (m : Message) : Prop :=
  m.fragment = some ⟨UInt16.ofNat i, UInt16.ofNat s.num, s.id⟩ ∧ m.buffer.data = chunk s.payload i

theorem LargeSend.isPart_of_receivedAs {s : LargeSend} {i : ℕ} {m m' : Message}
    (h : s.fragments[i]? = some m) (h' : m.ReceivedAs m') : i < s.num ∧ s.IsPart i m' := by
  obtain ⟨hlen, channel, hall⟩ := s.isFragment
  obtain ⟨-, -, hfrag, henc⟩ := hall i m h
  have hi : i < s.fragments.length := (List.getElem?_eq_some_iff.mp h).1
  exact ⟨hlen ▸ hi, h'.2.1.trans hfrag, h'.2.2.unique henc⟩

/-- All parts of a send, in order, are its payload. -/
theorem LargeSend.payload_of_parts {s : LargeSend} {ms : List Message} (hlen : ms.length = s.num)
    (h : ∀ i m, ms[i]? = some m → s.IsPart i m) :
    ReceivedMessage.id? (.fragmented ms) = some s.id ∧
      ReceivedMessage.payload (.fragmented ms) = s.payload := by
  have htwo := s.num_bounds.1
  constructor
  · cases ms with
    | nil =>
      rw [List.length_nil] at hlen
      omega
    | cons m ms =>
      have hfrag := (h 0 m rfl).1
      simp [ReceivedMessage.id?, hfrag]
  · have hmap : ms.map (fun m => m.buffer.data) = (List.range s.num).map (chunk s.payload) := by
      refine List.ext_getElem (by simp [hlen]) fun i h₁ h₂ => ?_
      have hi : i < ms.length := by simpa using h₁
      simpa using (h i ms[i] (List.getElem?_eq_getElem hi)).2
    rw [ReceivedMessage.payload, List.flatMap_def, hmap, ← List.flatMap_def]
    exact flatMap_chunk s.payload

/-! ### Arrivals -/

/-- One received fragment: which send it belongs to, which place it has there, and the message. -/
structure Arrival (ι : Type) where
  send : ι
  index : ℕ
  message : Message

/-- The calls of `add_fragment` for a list of received messages: what each returned, and the map
afterwards. -/
def MessageReassembler.feed (r : MessageReassembler) :
    List Message → Except Panic (List (Option ReceivedMessage) × MessageReassembler)
  | [] => .ok ([], r)
  | m :: ms =>
    match r.addFragment m with
    | .error p => .error p
    | .ok (out, r) => (r.feed ms).map fun t => (out :: t.1, t.2)

section Arrivals

variable {ι : Type} {sends : ι → LargeSend} {as : List (Arrival ι)} {r : MessageReassembler}

/-- The arrival is a fragment of the send it names. -/
def Arrival.Of (sends : ι → LargeSend) (a : Arrival ι) : Prop :=
  ∃ m, (sends a.send).fragments[a.index]? = some m ∧ m.ReceivedAs a.message

/-- Fragment `i` of the send `j` is among the arrivals. -/
def Seen (as : List (Arrival ι)) (j : ι) (i : ℕ) : Prop := ∃ a ∈ as, a.send = j ∧ a.index = i

/-- All fragments of the send `j` are among the arrivals. -/
def Covers (sends : ι → LargeSend) (as : List (Arrival ι)) (j : ι) : Prop :=
  ∀ i < (sends j).num, Seen as j i

theorem seen_concat {a : Arrival ι} {j : ι} {i : ℕ} :
    Seen (as ++ [a]) j i ↔ Seen as j i ∨ (a.send = j ∧ a.index = i) := by
  simp [Seen, or_and_right, exists_or]

theorem covers_concat_of_ne {a : Arrival ι} {j : ι} (hne : a.send ≠ j) :
    Covers sends (as ++ [a]) j ↔ Covers sends as j := by
  simp [Covers, seen_concat, hne]

/-- What the map holds after some arrivals: for each send that is not covered yet the fragments that
have arrived, each in its place, and nothing else. -/
structure Collected (sends : ι → LargeSend) (as : List (Arrival ι)) (r : MessageReassembler) :
    Prop where
  consistent : r.Consistent
  known : ∀ parent inc, r.inProgress parent = some inc →
    ∃ j, parent = (sends j).id ∧ inc.numFragments = UInt16.ofNat (sends j).num
  part : ∀ j i m, (r.slots (sends j).id (UInt16.ofNat (sends j).num)).getD i none = some m →
    (sends j).IsPart i m
  seen : ∀ j, ¬ Covers sends as j → ∀ i < (sends j).num,
    ((r.slots (sends j).id (UInt16.ofNat (sends j).num)).getD i none ≠ none ↔ Seen as j i)
  done : ∀ j, Covers sends as j → r.inProgress (sends j).id = none

theorem collected_empty (sends : ι → LargeSend) : Collected sends [] MessageReassembler.empty where
  consistent := MessageReassembler.consistent_empty
  known := by
    intro parent inc h
    cases h
  part := by
    intro j i m h
    simp only [MessageReassembler.slots, MessageReassembler.empty, getD_replicate_none] at h
    cases h
  seen := by
    intro j _ i _
    simp only [MessageReassembler.slots, MessageReassembler.empty, getD_replicate_none]
    simp [Seen]
  done := fun j _ => rfl

theorem slots_setSlots_of_ne {parent parent' : MessageId} {inc : Option IncompleteMessage}
    {n : UInt16}
    (h : parent' ≠ parent) : (r.setSlots parent inc).slots parent' n = r.slots parent' n := by
  simp only [MessageReassembler.slots, MessageReassembler.setSlots, Function.update_of_ne h]

namespace Collected

/-- A stored partial message has the number of places of its send. -/
theorem numFragments_eq (hinj : Function.Injective fun j => (sends j).id) (h : Collected sends as r)
    {j : ι} {inc : IncompleteMessage} (hget : r.inProgress (sends j).id = some inc) :
    inc.numFragments = UInt16.ofNat (sends j).num := by
  obtain ⟨j', hj, hnum⟩ := h.known _ _ hget
  rw [hnum, hinj hj]

theorem length_slots (hinj : Function.Injective fun j => (sends j).id) (h : Collected sends as r)
    (j : ι) : (r.slots (sends j).id (UInt16.ofNat (sends j).num)).length = (sends j).num := by
  rw [MessageReassembler.slots]
  split
  · next inc hget =>
    rw [(h.consistent _ _ hget).length, h.numFragments_eq hinj hget, (sends j).toNat_num]
  · rw [List.length_replicate, (sends j).toNat_num]

/-- The places of a send after one of them is filled. -/
theorem getD_set (hinj : Function.Injective fun j => (sends j).id) (h : Collected sends as r)
    {a : Arrival ι} (ha : a.index < (sends a.send).num) (i : ℕ) :
    ((r.slots (sends a.send).id (UInt16.ofNat (sends a.send).num)).set
      a.index (some a.message)).getD i none
      = if i = a.index then some a.message else
        (r.slots (sends a.send).id (UInt16.ofNat (sends a.send).num)).getD i none := by
  rw [List.getD_eq_getElem?_getD, List.getElem?_set, List.getD_eq_getElem?_getD]
  by_cases hia : a.index = i
  · subst hia
    simp [h.length_slots hinj, ha]
  · rw [if_neg hia, if_neg (Ne.symm hia)]

/-- When the send was not covered, filling a place shows exactly what has been seen now. -/
theorem getD_set_ne_none_iff (hinj : Function.Injective fun j => (sends j).id)
    (h : Collected sends as r) {a : Arrival ι} (ha : a.index < (sends a.send).num)
    (hnew : ¬ Covers sends as a.send) {i : ℕ} (hi : i < (sends a.send).num) :
    ((r.slots (sends a.send).id (UInt16.ofNat (sends a.send).num)).set a.index
      (some a.message)).getD i none ≠ none ↔ Seen (as ++ [a]) a.send i := by
  rw [h.getD_set hinj ha, seen_concat]
  by_cases hia : i = a.index
  · simp [hia]
  · rw [if_neg hia, h.seen a.send hnew i hi]
    simp [Ne.symm hia]

/-- Other places for the send of the last arrival, the other sends as they were. -/
theorem setSlots (hinj : Function.Injective fun j => (sends j).id) (h : Collected sends as r)
    {a : Arrival ι} {inc : Option IncompleteMessage}
    (hinc : ∀ i, inc = some i → i.Consistent ∧ i.numFragments = UInt16.ofNat (sends a.send).num)
    (hpart : ∀ i m, ((r.setSlots (sends a.send).id inc).slots (sends a.send).id
      (UInt16.ofNat (sends a.send).num)).getD i none = some m → (sends a.send).IsPart i m)
    (hseen : ¬ Covers sends (as ++ [a]) a.send → ∀ i < (sends a.send).num,
      (((r.setSlots (sends a.send).id inc).slots (sends a.send).id
        (UInt16.ofNat (sends a.send).num)).getD i none ≠ none ↔ Seen (as ++ [a]) a.send i))
    (hdone : Covers sends (as ++ [a]) a.send → inc = none) :
    Collected sends (as ++ [a]) (r.setSlots (sends a.send).id inc) where
  consistent := h.consistent.setSlots fun i hi => (hinc i hi).1
  known := by
    intro parent inc' hget
    by_cases heq : parent = (sends a.send).id
    · subst heq
      simp only [MessageReassembler.setSlots, Function.update_self] at hget
      exact ⟨a.send, rfl, (hinc inc' hget).2⟩
    · simp only [MessageReassembler.setSlots, Function.update_of_ne heq] at hget
      exact h.known parent inc' hget
  part := by
    intro j i m hget
    by_cases hj : j = a.send
    · subst hj
      exact hpart i m hget
    · rw [slots_setSlots_of_ne fun heq => hj (hinj heq)] at hget
      exact h.part j i m hget
  seen := by
    intro j hcovers i hi
    by_cases hj : j = a.send
    · subst hj
      exact hseen hcovers i hi
    · rw [covers_concat_of_ne (Ne.symm hj)] at hcovers
      rw [slots_setSlots_of_ne fun heq => hj (hinj heq), h.seen j hcovers i hi, seen_concat]
      simp [Ne.symm hj]
  done := by
    intro j hcovers
    by_cases hj : j = a.send
    · subst hj
      simp only [MessageReassembler.setSlots, Function.update_self]
      exact hdone hcovers
    · rw [covers_concat_of_ne (Ne.symm hj)] at hcovers
      have hne : (sends j).id ≠ (sends a.send).id := fun heq => hj (hinj heq)
      simp only [MessageReassembler.setSlots, Function.update_of_ne hne]
      exact h.done j hcovers

/-- An arrival that has been seen changes nothing. -/
theorem again (h : Collected sends as r) {a : Arrival ι} (hseen : Seen as a.send a.index) :
    Collected sends (as ++ [a]) r ∧ (Covers sends (as ++ [a]) a.send ↔ Covers sends as a.send) := by
  have hsame : ∀ j i, Seen (as ++ [a]) j i ↔ Seen as j i := by
    intro j i
    rw [seen_concat]
    constructor
    · rintro (hs | ⟨rfl, rfl⟩)
      · exact hs
      · exact hseen
    · exact Or.inl
  have hcovers : ∀ j, Covers sends (as ++ [a]) j ↔ Covers sends as j := by
    intro j
    simp only [Covers, hsame]
  refine ⟨⟨h.consistent, h.known, h.part, ?_, ?_⟩, hcovers _⟩
  · intro j hj i hi
    rw [hsame]
    exact h.seen j (fun hc => hj ((hcovers j).mpr hc)) i hi
  · exact fun j hj => h.done j ((hcovers j).mp hj)

/-- **One arrival**, of a send that is not covered: the call returns the whole message if this
arrival covers the send, and nothing otherwise. -/
theorem step (hinj : Function.Injective fun j => (sends j).id) (h : Collected sends as r)
    {a : Arrival ι} (ha : a.Of sends) (hnew : ¬ Covers sends as a.send) :
    ∃ out r', r.addFragment a.message = .ok (out, r') ∧ Collected sends (as ++ [a]) r' ∧
      (¬ Covers sends (as ++ [a]) a.send → out = none) ∧
      (Covers sends (as ++ [a]) a.send → ∃ msg, out = some msg ∧ msg.id? = some (sends a.send).id ∧
        msg.payload = (sends a.send).payload) := by
  obtain ⟨m, hm, hreceived⟩ := ha
  obtain ⟨hi, hpart⟩ := LargeSend.isPart_of_receivedAs hm hreceived
  obtain ⟨htwo, hmax⟩ := (sends a.send).num_bounds
  have hN := (sends a.send).toNat_num
  have hI : (UInt16.ofNat a.index).toNat = a.index := by
    rw [maxFragments] at hmax
    rw [UInt16.toNat_ofNat']
    exact Nat.mod_eq_of_lt (by omega)
  have hlen := h.length_slots hinj a.send
  -- Whatever is in the places after this arrival is a part of the send.
  have hparts : ∀ i m, ((r.slots (sends a.send).id (UInt16.ofNat (sends a.send).num)).set a.index
      (some a.message)).getD i none = some m → (sends a.send).IsPart i m := by
    intro i m hget
    rw [h.getD_set hinj hi] at hget
    split at hget
    · next hia =>
      cases hget
      rw [hia]
      exact hpart
    · exact h.part a.send i m hget
  obtain ⟨hfull, hadd⟩ | ⟨hfree, ⟨inc, hinc, hnum, hset, hadd⟩ | ⟨ms, hset, hadd⟩⟩ :=
    MessageReassembler.addFragment_spec h.consistent hpart.1 (by rw [hN]; exact htwo)
      (by rw [hN]; exact hmax) (by rw [UInt16.lt_iff_toNat_lt, hN, hI]; exact hi)
      fun inc hget => h.numFragments_eq hinj hget
  · dsimp only at hfull
    rw [hI] at hfull
    have hseen := (h.seen a.send hnew a.index hi).mp (Option.isSome_iff_ne_none.mp hfull)
    obtain ⟨hcollected, hcovers⟩ := h.again hseen
    exact ⟨none, r, hadd, hcollected, fun _ => rfl, fun hc => absurd (hcovers.mp hc) hnew⟩
  · dsimp only at hset
    rw [hI] at hset
    have hslots : (r.setSlots (sends a.send).id (some inc)).slots (sends a.send).id
        (UInt16.ofNat (sends a.send).num) = inc.fragments := by
      simp [MessageReassembler.slots, MessageReassembler.setSlots]
    -- Some place is empty, and what belongs there has not arrived.
    have hmissing : ¬ Covers sends (as ++ [a]) a.send := by
      intro hc
      refine absurd (List.countP_eq_length.mpr ?_) (ne_of_lt hinc.missing)
      intro x hx
      obtain ⟨i, hilt, rfl⟩ := List.getElem_of_mem hx
      have hiN : i < (sends a.send).num := by
        rw [hset, List.length_set, hlen] at hilt
        exact hilt
      have hget := (h.getD_set_ne_none_iff hinj hi hnew hiN).mpr (hc i hiN)
      rw [← hset] at hget
      simpa [List.getD_eq_getElem?_getD, hilt, Option.ne_none_iff_isSome] using hget
    refine ⟨none, _, hadd, h.setSlots hinj ?_ ?_ ?_ ?_, fun _ => rfl, fun hc => absurd hc hmissing⟩
    · intro i hi'
      cases hi'
      exact ⟨hinc, hnum⟩
    · rw [hslots, hset]
      exact hparts
    · intro _ i hi'
      rw [hslots, hset]
      exact h.getD_set_ne_none_iff hinj hi hnew hi'
    · exact fun hc => absurd hc hmissing
  · dsimp only at hset
    rw [hI] at hset
    have hms : ms.length = (sends a.send).num := by
      rw [← List.length_map (f := some), ← hset, List.length_set, hlen]
    have hget : ∀ i, (ms.map some).getD i none = ms[i]? := by
      intro i
      rw [List.getD_eq_getElem?_getD, List.getElem?_map]
      cases ms[i]? <;> rfl
    have hcovers : Covers sends (as ++ [a]) a.send := by
      intro i hi'
      rw [← h.getD_set_ne_none_iff hinj hi hnew hi', hset, hget,
        List.getElem?_eq_getElem (by rw [hms]; exact hi')]
      simp
    have hall : ∀ i m, ms[i]? = some m → (sends a.send).IsPart i m := by
      intro i m hm'
      refine hparts i m ?_
      rw [hset, hget, hm']
    obtain ⟨hid, hpayload⟩ := LargeSend.payload_of_parts hms hall
    refine ⟨_, _, hadd, h.setSlots hinj ?_ ?_ ?_ ?_, fun hc => absurd hcovers hc,
      fun _ => ⟨_, rfl, hid, hpayload⟩⟩
    · intro i hi'
      cases hi'
    · intro i m hget'
      simp only [MessageReassembler.slots, MessageReassembler.setSlots, Function.update_self,
        getD_replicate_none] at hget'
      cases hget'
    · exact fun hc => absurd hcovers hc
    · exact fun _ => rfl

end Collected

/-- What each call returns: the message whose last missing fragment it supplied, or nothing. -/
def Returns (sends : ι → LargeSend) (as : List (Arrival ι)) (j : ι) : Option ReceivedMessage → Prop
  | some msg => Covers sends as j ∧ msg.id? = some (sends j).id ∧ msg.payload = (sends j).payload
  | none => ¬ Covers sends as j

/-- **Any arrivals**, none of them of a send that is covered already. -/
theorem Collected.feed (hinj : Function.Injective fun j => (sends j).id) {bs : List (Arrival ι)}
    (h : Collected sends as r) (hof : ∀ b ∈ bs, b.Of sends)
    (hnew : ∀ k b, bs[k]? = some b → ¬ Covers sends (as ++ bs.take k) b.send) :
    ∃ outs r', r.feed (bs.map Arrival.message) = .ok (outs, r') ∧ Collected sends (as ++ bs) r' ∧
      outs.length = bs.length ∧
      ∀ k b out, bs[k]? = some b → outs[k]? = some out →
        Returns sends (as ++ bs.take (k + 1)) b.send out := by
  induction bs generalizing as r with
  | nil => exact ⟨[], r, rfl, by simpa using h, rfl, by simp⟩
  | cons b bs ih =>
    have hfirst : ¬ Covers sends as b.send := by
      have := hnew 0 b rfl
      rwa [List.take_zero, List.append_nil] at this
    obtain ⟨out, r₁, hadd, hcollected, hnone, hsome⟩ :=
      h.step hinj (hof b (List.mem_cons_self ..)) hfirst
    obtain ⟨outs, r', hfeed, hcollected', hlen, houts⟩ := ih hcollected
      (fun b hb => hof b (List.mem_cons_of_mem _ hb)) fun k b' hb' => by
        have := hnew (k + 1) b' hb'
        rwa [List.take_succ_cons, ← List.singleton_append, ← List.append_assoc] at this
    refine ⟨out :: outs, r', ?_, ?_, by simp [hlen], ?_⟩
    · rw [List.map_cons, MessageReassembler.feed, hadd]
      simp only [hfeed, Except.map]
    · rwa [List.append_assoc, List.singleton_append] at hcollected'
    · intro k b' out' hb' hout'
      cases k with
      | zero =>
        simp only [List.getElem?_cons_zero, Option.some.injEq] at hb' hout'
        subst hb' hout'
        rw [List.take_succ_cons, List.take_zero]
        by_cases hc : Covers sends (as ++ [b]) b.send
        · obtain ⟨msg, rfl, hmsg⟩ := hsome hc
          exact ⟨hc, hmsg⟩
        · rw [hnone hc]
          exact hc
      | succ k =>
        rw [List.getElem?_cons_succ] at hb' hout'
        have := houts k b' out' hb' hout'
        rwa [List.append_assoc, List.singleton_append, ← List.take_succ_cons] at this

/-- A send that is covered in the end is covered by exactly one arrival, if none comes after. -/
theorem existsUnique_covering {j : ι} (hcovers : Covers sends as j)
    (hnew : ∀ k a, as[k]? = some a → ¬ Covers sends (as.take k) a.send) :
    ∃! k, ∃ a, as[k]? = some a ∧ a.send = j ∧ Covers sends (as.take (k + 1)) j := by
  have htwo := (sends j).num_bounds.1
  have hmono : ∀ {k k'}, k ≤ k' → Covers sends (as.take k) j → Covers sends (as.take k') j := by
    intro k k' hk h i hi
    obtain ⟨a, ha, haj⟩ := h i hi
    exact ⟨a, List.take_subset_take_left _ hk ha, haj⟩
  have hzero : ¬ Covers sends (as.take 0) j := by
    intro h
    obtain ⟨a, ha, -⟩ := h 0 (by omega)
    simp at ha
  -- The first prefix that covers the send ends with one of its fragments.
  classical
  have hex : ∃ k, Covers sends (as.take k) j := ⟨as.length, by simpa using hcovers⟩
  obtain ⟨k, hk⟩ : ∃ k, Nat.find hex = k + 1 :=
    ⟨Nat.find hex - 1, by
      have : Nat.find hex ≠ 0 := fun h => hzero (h ▸ Nat.find_spec hex)
      omega⟩
  have hspec : Covers sends (as.take (k + 1)) j := hk ▸ Nat.find_spec hex
  have hbefore : ¬ Covers sends (as.take k) j := Nat.find_min hex (by omega)
  obtain ⟨a, ha⟩ : ∃ a, as[k]? = some a := by
    by_contra hnone
    have hle : as.length ≤ k := by
      by_contra hlt
      exact hnone ⟨_, List.getElem?_eq_getElem (not_le.mp hlt)⟩
    rw [List.take_of_length_le (by omega)] at hspec
    rw [List.take_of_length_le hle] at hbefore
    exact hbefore hspec
  have hsend : a.send = j := by
    by_contra hne
    rw [List.take_add_one, ha, Option.toList_some, covers_concat_of_ne hne] at hspec
    exact hbefore hspec
  refine ⟨k, ⟨a, ha, hsend, hspec⟩, ?_⟩
  rintro k' ⟨a', ha', hsend', hcovers'⟩
  have hle : k ≤ k' := by
    by_contra hlt
    exact hbefore (hmono (by omega) hcovers')
  by_contra hne
  refine hnew k' a' ha' ?_
  rw [hsend']
  exact hmono (by omega) hspec

/-- **Fragmentation and reassembly are inverse in any order.** Take any fragmented sends with
distinct ids, and any arrivals of their fragments, all of them in any order and none after its
message is whole. Then no call panics; each call returns the message whose last missing fragment it
supplied, with the id that was returned to the sender and the payload that was sent, or nothing; for
each send exactly one call returns it; and in the end the map is empty. -/
theorem feed_reassembles (sends : ι → LargeSend) (hinj : Function.Injective fun j => (sends j).id)
    (as : List (Arrival ι)) (hof : ∀ a ∈ as, a.Of sends) (hall : ∀ j, Covers sends as j)
    (hnew : ∀ k a, as[k]? = some a → ¬ Covers sends (as.take k) a.send) :
    ∃ outs r, MessageReassembler.empty.feed (as.map Arrival.message) = .ok (outs, r) ∧
      outs.length = as.length ∧
      (∀ k a out, as[k]? = some a → outs[k]? = some out →
        Returns sends (as.take (k + 1)) a.send out) ∧
      (∀ j, ∃! k : ℕ, ∃ msg : ReceivedMessage, outs[k]? = some (some msg) ∧
        msg.id? = some (sends j).id) ∧
      r.inProgress = fun _ => none := by
  obtain ⟨outs, r, hfeed, hcollected, hlen, houts⟩ := (collected_empty sends).feed hinj hof
    (by simpa using hnew)
  rw [List.nil_append] at hcollected
  simp only [List.nil_append] at houts
  refine ⟨outs, r, hfeed, hlen, houts, fun j => ?_, ?_⟩
  · obtain ⟨k, ⟨a, ha, hsend, hcovers⟩, hunique⟩ := existsUnique_covering (hall j) hnew
    have hk : k < as.length := (List.getElem?_eq_some_iff.mp ha).1
    obtain ⟨out, hout⟩ : ∃ out, outs[k]? = some out := ⟨_, List.getElem?_eq_getElem (by omega)⟩
    have hreturns := houts k a out ha hout
    rw [hsend] at hreturns
    refine ⟨k, ?_, ?_⟩
    · cases out with
      | none => exact absurd hcovers hreturns
      | some msg => exact ⟨msg, hout, hreturns.2.1⟩
    · rintro k' ⟨msg, hmsg, hid⟩
      have hk' : k' < as.length := hlen ▸ (List.getElem?_eq_some_iff.mp hmsg).1
      have ha' : as[k']? = some as[k'] := List.getElem?_eq_getElem hk'
      have hreturns' := houts k' as[k'] (some msg) ha' hmsg
      have hj : as[k'].send = j := hinj (Option.some.inj (hreturns'.2.1.symm.trans hid))
      exact hunique k' ⟨as[k'], ha', hj, hj ▸ hreturns'.1⟩
  · funext parent
    cases hget : r.inProgress parent with
    | none => rfl
    | some inc =>
      obtain ⟨j, rfl, -⟩ := hcollected.known parent inc hget
      rw [hcollected.done j (hall j)] at hget
      cases hget

end Arrivals

/-- Every payload of such a length can be sent, under any id. -/
theorem exists_largeSend {payload : List UInt8} (hlarge : 1024 < payload.length)
    (hmax : payload.length ≤ 1024 * maxFragments) (id : MessageId) :
    ∃ s : LargeSend, s.payload = payload ∧ s.id = id := by
  have hmax' : payload.length ≤ 1024 * 1024 := hmax
  have hcut : MessageDispatcher.Cuttable false payload := fun h => by cases h
  -- A dispatcher whose last fragmented message had this very id.
  let d : MessageDispatcher := { MessageDispatcher.new .default with
    nextMessageId := id
    sentFragMap := { (MessageDispatcher.new .default).sentFragMap with sequence := id } }
  obtain ⟨res, d', ch', pool', hadd, hok⟩ :=
    MessageDispatcher.exists_addLargeMessageToChannel hmax' hlarge
    hcut d BufPool.default (show (Channel.unreliable (UnreliableChannel.new 0 0)).id < 64 by decide)
  obtain ⟨id', rfl⟩ := hok.mpr (by
    show SequenceBuffer.sequenceGreaterThan (id - 25000) id = false
    rw [Bool.eq_false_iff, Ne, SequenceBuffer.sequenceGreaterThan_iff, UInt16.toNat_sub]
    have := id.toNat_lt
    simp only [UInt16.reduceToNat]
    omega)
  have hadd' : d.addMessageToChannel false BufPool.default
      (.unreliable (UnreliableChannel.new 0 0)) payload = .ok (.ok id', d', ch', pool') := by
    rw [MessageDispatcher.addMessageToChannel, if_neg (not_le.mpr hlarge), hadd]
  obtain ⟨ms, -, hch, hrecords⟩ := MessageDispatcher.addMessageToChannel_eq_ok hmax' hadd'
  refine ⟨⟨payload, id', ms, hlarge, hmax, _, _, _, _, _, _, hadd, by
    rw [hch, Channel.queued_pushAll]⟩, rfl, ?_⟩
  exact hrecords.id_eq rfl

/-- A message of two fragments: the second arrives twice, then the first. -/
theorem feed_reassembles_two : ∃ (s : LargeSend) (ms : List Message)
    (outs : List (Option ReceivedMessage))
    (r : MessageReassembler), s.payload = List.replicate 1025 0 ∧ ms.length = 3 ∧
      MessageReassembler.empty.feed ms = .ok (outs, r) ∧ outs.length = 3 ∧
      (∃! k : ℕ, ∃ msg : ReceivedMessage, outs[k]? = some (some msg) ∧ msg.id? = some s.id) ∧
      r.inProgress = fun _ => none := by
  have h1025 : (List.replicate 1025 (0 : UInt8)).length = 1025 := List.length_replicate
  obtain ⟨s, hs, -⟩ :=
    exists_largeSend (show 1024 < (List.replicate 1025 (0 : UInt8)).length by omega)
    (by rw [h1025, maxFragments]; omega) 0
  have hnum : s.num = 2 := by
    rw [LargeSend.num, numFragments, hs, h1025]
    norm_num
  obtain ⟨hlen, channel, hfrag⟩ := s.isFragment
  obtain ⟨m₀, m₁, hms⟩ : ∃ m₀ m₁, s.fragments = [m₀, m₁] := List.length_eq_two.mp (hlen.trans hnum)
  have hreceived : ∀ {i : ℕ} {m : Message}, s.fragments[i]? = some m →
      m.ReceivedAs { m with buffer := ⟨chunk s.payload i, 0⟩ } := fun hi =>
    ⟨rfl, rfl, (hfrag _ _ hi).2.2.2⟩
  have h₀ := hreceived (i := 0) (m := m₀) (by rw [hms]; rfl)
  have h₁ := hreceived (i := 1) (m := m₁) (by rw [hms]; rfl)
  let a₀ : Arrival Unit := ⟨(), 0, { m₀ with buffer := ⟨chunk s.payload 0, 0⟩ }⟩
  let a₁ : Arrival Unit := ⟨(), 1, { m₁ with buffer := ⟨chunk s.payload 1, 0⟩ }⟩
  have hof : ∀ a ∈ [a₁, a₁, a₀], a.Of fun _ => s := by
    intro a ha
    simp only [List.mem_cons, List.not_mem_nil, or_false] at ha
    rcases ha with rfl | rfl | rfl
    · exact ⟨m₁, by rw [hms]; rfl, h₁⟩
    · exact ⟨m₁, by rw [hms]; rfl, h₁⟩
    · exact ⟨m₀, by rw [hms]; rfl, h₀⟩
  have hall : ∀ j, Covers (fun _ => s) [a₁, a₁, a₀] j := by
    intro j i hi
    rw [hnum] at hi
    interval_cases i
    · exact ⟨a₀, by simp, rfl, rfl⟩
    · exact ⟨a₁, by simp, rfl, rfl⟩
  have hnew : ∀ k a, [a₁, a₁, a₀][k]? = some a →
    ¬ Covers (fun _ => s) ([a₁, a₁, a₀].take k) a.send := by
    intro k a ha hcovers
    obtain ⟨b, hb, -, hindex⟩ := hcovers 0 (by rw [hnum]; omega)
    have hk : k < 3 := (List.getElem?_eq_some_iff.mp ha).1
    interval_cases k
    · simp at hb
    · simp only [List.take_succ_cons, List.take_zero, List.mem_singleton] at hb
      rw [hb] at hindex
      cases hindex
    · simp only [List.take_succ_cons, List.take_zero, List.mem_cons, List.not_mem_nil, or_false,
        or_self] at hb
      rw [hb] at hindex
      cases hindex
  obtain ⟨outs, r, hfeed, hlen', -, hunique, hempty⟩ := feed_reassembles (fun _ : Unit => s)
    (fun _ _ _ => rfl) [a₁, a₁, a₀] hof hall hnew
  exact ⟨s, _, outs, r, hs, rfl, hfeed, hlen', hunique (), hempty⟩

end Pickleback
