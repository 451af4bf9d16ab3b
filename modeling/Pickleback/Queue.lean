import Pickleback.Outbound

/-!
# Outbound queues

What `compose_packets` finds in the channels. A queue holds outbound messages of its own channel,
none of them longer than 1043 bytes by `Message::size`; taking a message hands out one of them and
makes one message fewer due.

## Main definitions

* `Channel.Sound`, `ChannelList.Sound` — what every reachable queue satisfies
* `Channel.numReady`, `ChannelList.numReady` — how many messages are due
* `Channel.Wrote`, `ChannelList.Wrote` — the queues after some messages were taken from them
* `Channel.Holds`, `Channel.Shrinks` — what a queue holds, and what any call but a send does to it

## Main results

* `getMessageToWriteToAPacket_eq_some` — what is taken, and what is left
* `exists_getMessageToWriteToAPacket` — with enough room, something that is due is taken
-/

namespace Pickleback

/-! ### Sizes -/

theorem Fragment.length_writeHeader {f : Fragment} {payloadLen : UInt16} {mode : MessageSizeMode}
    {bytes : List UInt8} (h : f.writeHeader payloadLen mode = .ok bytes) :
    2 ≤ bytes.length ∧ bytes.length ≤ 6 := by
  cases mode with
  | small => grind [writeHeader, ByteCodec.length_writeU16]
  | large => grind [writeHeader, ByteCodec.length_writeU16]

theorem Message.length_writeHeaders {id : MessageId} {fragment : Option Fragment}
    {mode : MessageSizeMode} {channel : UInt8} {n : ℕ} {headers : List UInt8}
    (h : writeHeaders id fragment mode channel n = .ok headers) :
    4 ≤ headers.length ∧ headers.length ≤ 9 := by
  cases fragment with
  | none =>
    cases mode with
    | small => cases h; simp
    | large => cases h; simp
  | some f =>
    cases hf : f.writeHeader (UInt16.ofNat n) mode with
    | error e => simp [writeHeaders, hf, Except.map] at h
    | ok bytes =>
      have := Fragment.length_writeHeader hf
      simp only [writeHeaders, hf, Except.map, Except.ok.injEq] at h
      subst h
      simp
      omega

theorem Message.Encodes.length_data {m : Message} {payload : List UInt8} (h : m.Encodes payload) :
    4 ≤ m.buffer.data.length ∧ m.buffer.data.length ≤ 1033 := by
  obtain ⟨-, hlen, -, headers, hheaders, hdata⟩ := h
  have := Message.length_writeHeaders hheaders
  rw [hdata, List.length_append]
  omega

/-- No outbound message is longer than 1043 bytes, and each fits where its size does. -/
theorem Message.Encodes.size_le {m : Message} {payload : List UInt8} (h : m.Encodes payload) :
    m.buffer.data.length ≤ m.size ∧ m.size ≤ 1043 := by
  have hdata := h.length_data.2
  unfold size
  cases m.fragment with
  | none => cases m.sizeMode <;> simp <;> omega
  | some f =>
    cases m.sizeMode with
    | small => simp only []; split <;> omega
    | large => simp only []; split <;> omega

/-! ### Sound queues -/

namespace Channel

/-- The queue holds outbound messages of this channel, and a message just sent is not due. -/
structure Sound (ch : Channel) : Prop where
  queued : ∀ m ∈ ch.queued, m.channel = ch.id ∧ ∃ payload, m.Encodes payload
  resend : ∀ c, ch = .reliable c → 0 < c.resendTime

/-- A message just sent is not due. -/
def Resends (ch : Channel) : Prop := ∀ c, ch = .reliable c → 0 < c.resendTime

/-- How many messages are due. -/
def numReady : Channel → ℕ
  | .unreliable c => c.q.length
  | .reliable c => (c.q.filter fun m => m.isReady c.time c.resendTime).length

theorem numReady_le (ch : Channel) : ch.numReady ≤ ch.queued.length := by
  cases ch with
  | unreliable c => exact le_refl _
  | reliable c =>
    rw [queued, List.length_map]
    exact List.length_filter_le _ _

theorem anyReadyToSend_iff (ch : Channel) : ch.anyReadyToSend = true ↔ 0 < ch.numReady := by
  cases ch with
  | unreliable c =>
    simp [anyReadyToSend, UnreliableChannel.anyReadyToSend, numReady, List.length_pos_iff]
  | reliable c =>
    simp [anyReadyToSend, ReliableChannel.anyReadyToSend, numReady, List.length_pos_iff,
      List.filter_eq_nil_iff]

end Channel

/-- The first message that fits leaves the queue, the others keep their order. -/
theorem takeFitting_eq_some {maxSize : ℕ} {q q' : List Message} {m : Message}
    (h : UnreliableChannel.takeFitting maxSize q = some (m, q')) :
    m.size ≤ maxSize ∧ q'.Sublist q ∧ q.Perm (m :: q') := by
  induction q generalizing q' with
  | nil => cases h
  | cons x xs ih =>
    rw [UnreliableChannel.takeFitting] at h
    split at h
    · cases hrest : UnreliableChannel.takeFitting maxSize xs with
      | none => rw [hrest] at h; cases h
      | some r =>
        rw [hrest] at h
        cases h
        obtain ⟨hsize, hsub, hperm⟩ := ih hrest
        exact ⟨hsize, hsub.cons_cons x, (hperm.cons x).trans (.swap r.1 x r.2)⟩
    · next hsize =>
      cases h
      exact ⟨by omega, List.sublist_cons_self _ _, .refl _⟩

theorem exists_takeFitting {maxSize : ℕ} {q : List Message} (hne : q ≠ [])
    (hsize : ∀ m ∈ q, m.size ≤ maxSize) : (UnreliableChannel.takeFitting maxSize q).isSome := by
  cases q with
  | nil => exact absurd rfl hne
  | cons x xs =>
    rw [UnreliableChannel.takeFitting, if_neg (not_lt.mpr (hsize x (List.mem_cons_self ..)))]
    rfl

/-- The reliable queue after some messages were written: each is as it was, or it was due and is
marked as sent now. The list in the middle has the copies that were written, in the order of the
queue. -/
inductive ReliableChannel.Marks (now resendTime : Time) :
    List ResendableMessage → List Message → List ResendableMessage → Prop
  | nil : Marks now resendTime [] [] []
  | keep (m : ResendableMessage) {q q' : List ResendableMessage} {ms : List Message}
    (h : Marks now resendTime q ms q') : Marks now resendTime (m :: q) ms (m :: q')
  | mark (m : ResendableMessage) {q q' : List ResendableMessage} {ms : List Message}
    (hready : m.isReady now resendTime = true) (h : Marks now resendTime q ms q') :
    Marks now resendTime (m :: q) (m.message.clone :: ms) ({ m with lastSent := some now } :: q')

namespace ReliableChannel.Marks

variable {now resendTime : Time} {q q' q'' : List ResendableMessage} {ms ms' : List Message}

theorem refl (now resendTime : Time) (q : List ResendableMessage) :
    Marks now resendTime q [] q := by
  induction q with
  | nil => exact .nil
  | cons m q ih => exact .keep m ih

/-- What was marked is not due any more. -/
theorem isReady_mark (hresend : 0 < resendTime) (m : ResendableMessage) :
    ResendableMessage.isReady { m with lastSent := some now } now resendTime = false := by
  simpa [ResendableMessage.isReady] using hresend

theorem trans (hresend : 0 < resendTime) (h : Marks now resendTime q ms q')
    (h' : Marks now resendTime q' ms' q'') :
    ∃ ms'', Marks now resendTime q ms'' q'' ∧ ms''.Perm (ms ++ ms') := by
  induction h generalizing ms' q'' with
  | nil =>
    cases h'
    exact ⟨[], .nil, .refl _⟩
  | keep m _ ih =>
    cases h' with
    | keep _ h' =>
      obtain ⟨ms'', hmarks, hperm⟩ := ih h'
      exact ⟨ms'', .keep m hmarks, hperm⟩
    | mark _ hready h' =>
      obtain ⟨ms'', hmarks, hperm⟩ := ih h'
      exact ⟨m.message.clone :: ms'', .mark m hready hmarks,
        (hperm.cons _).trans List.perm_middle.symm⟩
  | mark m hready _ ih =>
    cases h' with
    | keep _ h' =>
      obtain ⟨ms'', hmarks, hperm⟩ := ih h'
      exact ⟨m.message.clone :: ms'', .mark m hready hmarks, hperm.cons _⟩
    | mark _ hready' h' =>
      rw [isReady_mark hresend m] at hready'
      cases hready'

/-- The messages themselves do not change. -/
theorem map_message (h : Marks now resendTime q ms q') :
    q'.map ResendableMessage.message = q.map ResendableMessage.message := by
  induction h with
  | nil => rfl
  | keep m _ ih => simp [ih]
  | mark m _ _ ih => simp [ih]

theorem mem (h : Marks now resendTime q ms q') {m : Message} (hm : m ∈ ms) :
    ∃ x ∈ q, m = x.message.clone := by
  induction h with
  | nil => cases hm
  | keep x _ ih =>
    obtain ⟨y, hy, hmy⟩ := ih hm
    exact ⟨y, List.mem_cons_of_mem _ hy, hmy⟩
  | mark x _ _ ih =>
    rcases List.mem_cons.mp hm with rfl | hm
    · exact ⟨x, List.mem_cons_self .., rfl⟩
    · obtain ⟨y, hy, hmy⟩ := ih hm
      exact ⟨y, List.mem_cons_of_mem _ hy, hmy⟩

/-- As many messages are no longer due as were written. -/
theorem length_filter (hresend : 0 < resendTime) (h : Marks now resendTime q ms q') :
    (q'.filter fun m => m.isReady now resendTime).length + ms.length
      = (q.filter fun m => m.isReady now resendTime).length := by
  induction h with
  | nil => rfl
  | keep m _ ih =>
    simp only [List.filter_cons]
    split
    · simp only [List.length_cons]
      omega
    · exact ih
  | mark m hready _ ih =>
    simp only [List.filter_cons, isReady_mark hresend m, hready,
      if_true, Bool.false_eq_true, if_false,
      List.length_cons]
    omega

end ReliableChannel.Marks

/-- The first message that fits and is due is copied and marked. -/
theorem takeReady_eq_some {now resendTime : Time} {maxSize : ℕ} {q q' : List ResendableMessage}
    {m : Message} (h : ReliableChannel.takeReady now resendTime maxSize q = some (m, q')) :
    m.size ≤ maxSize ∧ ReliableChannel.Marks now resendTime q [m] q' := by
  induction q generalizing q' with
  | nil => cases h
  | cons x xs ih =>
    rw [ReliableChannel.takeReady] at h
    split at h
    · next hx =>
      cases h
      exact ⟨hx.1, .mark x hx.2 (.refl now resendTime xs)⟩
    · cases hrest : ReliableChannel.takeReady now resendTime maxSize xs with
      | none => rw [hrest] at h; cases h
      | some r =>
        rw [hrest] at h
        cases h
        obtain ⟨hsize, hmarks⟩ := ih hrest
        exact ⟨hsize, .keep x hmarks⟩

theorem exists_takeReady {now resendTime : Time} {maxSize : ℕ} {q : List ResendableMessage}
    (hsize : ∀ m ∈ q, m.message.size ≤ maxSize)
    (hready : 0 < (q.filter fun m => m.isReady now resendTime).length) :
    (ReliableChannel.takeReady now resendTime maxSize q).isSome := by
  induction q with
  | nil => simp at hready
  | cons x xs ih =>
    rw [ReliableChannel.takeReady]
    have hx := hsize x (List.mem_cons_self ..)
    cases hr : x.isReady now resendTime with
    | true => simp [hx]
    | false =>
      simp only [hx, Bool.false_eq_true, and_false, if_false, Option.isSome_map]
      exact ih (fun m hm => hsize m (List.mem_cons_of_mem _ hm)) (by simpa [hr] using hready)

namespace Channel

/-- The channel after some messages were taken from it for sending, in any order. Unreliable
messages leave the queue; reliable ones are copied and marked. -/
inductive Wrote : Channel → List Message → Channel → Prop
  | unreliable {c : UnreliableChannel} {ms q' : List Message} (hsub : q'.Sublist c.q)
    (hperm : c.q.Perm (ms ++ q')) : Wrote (.unreliable c) ms (.unreliable { c with q := q' })
  | reliable {c : ReliableChannel} {ms ms' : List Message} {q' : List ResendableMessage}
    (hmarks : ReliableChannel.Marks c.time c.resendTime c.q ms' q') (hperm : ms.Perm ms') :
    Wrote (.reliable c) ms (.reliable { c with q := q' })

namespace Wrote

variable {ch ch' ch'' : Channel} {ms ms' : List Message}

theorem refl (ch : Channel) : ch.Wrote [] ch := by
  cases ch with
  | unreliable c => exact .unreliable (.refl _) (.refl _)
  | reliable c => exact .reliable (.refl _ _ _) (.refl _)

theorem resends (h : ch.Wrote ms ch') (hresend : ch.Resends) : ch'.Resends := by
  intro c hc
  cases h with
  | unreliable hsub _ => cases hc
  | @reliable c' _ _ q' hmarks _ =>
    cases hc
    exact hresend c' rfl

theorem sound (h : ch.Wrote ms ch') (hsound : ch.Sound) : ch'.Sound := by
  refine ⟨?_, h.resends hsound.resend⟩
  cases h with
  | unreliable hsub _ => exact fun x hx => hsound.queued x (hsub.subset hx)
  | @reliable c _ _ q' hmarks _ =>
    intro x hx
    have hx' : x ∈ q'.map ResendableMessage.message := hx
    rw [hmarks.map_message] at hx'
    exact hsound.queued x hx'

theorem trans (hresend : ch.Resends) (h : ch.Wrote ms ch') (h' : ch'.Wrote ms' ch'') :
    ch.Wrote (ms ++ ms') ch'' := by
  cases h with
  | unreliable hsub hperm =>
    cases h' with
    | unreliable hsub' hperm' =>
      refine .unreliable (hsub'.trans hsub) (hperm.trans ?_)
      rw [List.append_assoc]
      exact hperm'.append_left _
  | @reliable c _ _ q' hmarks hperm =>
    cases h' with
    | reliable hmarks' hperm' =>
      obtain ⟨ms'', hmarks'', hperm''⟩ := hmarks.trans (hresend c rfl) hmarks'
      exact .reliable hmarks'' ((hperm.append hperm').trans hperm''.symm)

theorem numReady_add (hresend : ch.Resends) (h : ch.Wrote ms ch') :
    ch'.numReady + ms.length = ch.numReady := by
  cases h with
  | unreliable _ hperm =>
    have := hperm.length_eq
    rw [List.length_append] at this
    simp only [numReady]
    omega
  | @reliable c _ _ _ hmarks hperm =>
    rw [hperm.length_eq]
    exact hmarks.length_filter (hresend c rfl)

end Wrote

/-- **Taking a message**: it is one of the queue or a copy of one, and it fits. -/
theorem getMessageToWriteToAPacket_eq_some {ch ch' : Channel} {maxSize : ℕ} {m : Message}
    (h : ch.getMessageToWriteToAPacket maxSize = some (m, ch')) :
    m.size ≤ maxSize ∧ ch.Wrote [m] ch' := by
  cases ch with
  | unreliable c =>
    simp only [getMessageToWriteToAPacket, UnreliableChannel.getMessageToWriteToAPacket,
      Option.map_map, Option.map_eq_some_iff] at h
    obtain ⟨r, hr, heq⟩ := h
    cases heq
    obtain ⟨hsize, hsub, hperm⟩ := takeFitting_eq_some hr
    exact ⟨hsize, .unreliable hsub hperm⟩
  | reliable c =>
    simp only [getMessageToWriteToAPacket, ReliableChannel.getMessageToWriteToAPacket,
      Option.map_map, Option.map_eq_some_iff] at h
    obtain ⟨r, hr, heq⟩ := h
    cases heq
    obtain ⟨hsize, hmarks⟩ := takeReady_eq_some hr
    exact ⟨hsize, .reliable hmarks (.refl _)⟩

/-- With room for any message, something that is due is taken. -/
theorem exists_getMessageToWriteToAPacket {ch : Channel} {maxSize : ℕ} (hsound : ch.Sound)
    (hsize : 1043 ≤ maxSize) (hready : 0 < ch.numReady) :
    (ch.getMessageToWriteToAPacket maxSize).isSome := by
  have hall : ∀ m ∈ ch.queued, m.size ≤ maxSize := by
    intro m hm
    obtain ⟨-, payload, henc⟩ := hsound.queued m hm
    exact henc.size_le.2.trans hsize
  cases ch with
  | unreliable c =>
    simp only [getMessageToWriteToAPacket, UnreliableChannel.getMessageToWriteToAPacket,
      Option.isSome_map]
    exact exists_takeFitting (List.length_pos_iff.mp hready) hall
  | reliable c =>
    simp only [getMessageToWriteToAPacket, ReliableChannel.getMessageToWriteToAPacket,
      Option.isSome_map]
    exact exists_takeReady (fun m hm => hall m.message (List.mem_map_of_mem hm)) hready

end Channel

/-! ### What sending leaves -/

/-- The message, or the original of it, is in the queue. -/
def Channel.Holds (ch : Channel) (m : Message) : Prop := ∃ x ∈ ch.queued, m = x ∨ m = x.clone

/-- The channel after some of its queue was sent: nothing new, and the same window of seen ids. -/
structure Channel.Shrinks (ch ch' : Channel) : Prop where
  id : ch'.id = ch.id
  seenBuf : ch'.seenBuf = ch.seenBuf
  queued : ∀ x ∈ ch'.queued, x ∈ ch.queued

theorem Channel.Shrinks.refl (ch : Channel) : ch.Shrinks ch := ⟨rfl, rfl, fun _ hx => hx⟩

theorem Channel.Shrinks.trans {ch ch' ch'' : Channel} (h : ch.Shrinks ch') (h' : ch'.Shrinks ch'') :
    ch.Shrinks ch'' :=
  ⟨h'.id.trans h.id, h'.seenBuf.trans h.seenBuf, fun x hx => h.queued x (h'.queued x hx)⟩

theorem Channel.Wrote.shrinks {ch ch' : Channel} {ms : List Message} (h : ch.Wrote ms ch') :
    ch.Shrinks ch' := by
  cases h with
  | unreliable hsub _ => exact ⟨rfl, rfl, fun x hx => hsub.subset hx⟩
  | @reliable c _ _ q' hmarks _ =>
    refine ⟨rfl, rfl, fun x hx => ?_⟩
    have hx' : x ∈ q'.map ResendableMessage.message := hx
    rw [hmarks.map_message] at hx'
    exact hx'

theorem Channel.Wrote.holds {ch ch' : Channel} {ms : List Message}
    (h : ch.Wrote ms ch') {m : Message}
    (hm : m ∈ ms) : ch.Holds m := by
  cases h with
  | unreliable _ hperm => exact ⟨m, hperm.symm.subset (List.mem_append_left _ hm), Or.inl rfl⟩
  | reliable hmarks hperm =>
    obtain ⟨x, hx, hmx⟩ := hmarks.mem (hperm.subset hm)
    exact ⟨x.message, List.mem_map_of_mem hx, Or.inr hmx⟩

/-- What a sound channel holds is a message of its own. -/
theorem Channel.Sound.of_holds {ch : Channel} (h : ch.Sound) {m : Message} (hm : ch.Holds m) :
    m.channel = ch.id ∧ ∃ payload, m.Encodes payload := by
  obtain ⟨x, hx, rfl | rfl⟩ := hm
  · exact h.queued _ hx
  · exact h.queued x hx

theorem Channel.Holds.of_shrinks {ch ch' : Channel} {m : Message} (h : ch.Shrinks ch')
    (hm : ch'.Holds m) : ch.Holds m := by
  obtain ⟨x, hx, hmx⟩ := hm
  exact ⟨x, h.queued x hx, hmx⟩

/-! ### Lists of channels -/

namespace ChannelList

/-- The channels of an endpoint: sound queues, and one channel for each id. -/
structure Sound (cs : ChannelList) : Prop where
  sound : ∀ ch ∈ cs, ch.Sound
  ids : (cs.map Channel.id).Nodup

/-- How many messages are due on all channels. -/
def numReady (cs : ChannelList) : ℕ := (cs.map Channel.numReady).sum

theorem numReady_le (cs : ChannelList) : cs.numReady ≤ cs.numQueued := by
  refine List.sum_le_sum fun ch _ => ?_
  exact ch.numReady_le

theorem anyWithMessagesToSend_iff (cs : ChannelList) :
    cs.anyWithMessagesToSend = true ↔ 0 < cs.numReady := by
  induction cs with
  | nil => simp [anyWithMessagesToSend, numReady]
  | cons ch cs ih =>
    simp only [anyWithMessagesToSend, numReady, List.any_cons, Bool.or_eq_true, List.map_cons,
      List.sum_cons, Channel.anyReadyToSend_iff] at ih ⊢
    rw [ih]
    omega

theorem get?_of_mem {cs : ChannelList} (hids : (cs.map Channel.id).Nodup) {ch : Channel}
    (h : ch ∈ cs) : cs.get? ch.id = some ch := by
  induction cs with
  | nil => cases h
  | cons c cs ih =>
    rw [List.map_cons, List.nodup_cons] at hids
    rw [get?, List.find?_cons]
    rcases List.mem_cons.mp h with rfl | hmem
    · simp
    · have hne : c.id ≠ ch.id := fun heq => hids.1 (heq ▸ List.mem_map_of_mem hmem)
      rw [beq_eq_false_iff_ne.mpr hne]
      exact ih hids.2 hmem

theorem mem_of_get? {cs : ChannelList} {id : UInt8} {ch : Channel} (h : cs.get? id = some ch) :
    ch ∈ cs :=
  List.mem_of_find?_eq_some h

theorem map_id_set {cs : ChannelList} {id : UInt8} {ch : Channel} (hid : ch.id = id) :
    (cs.set id ch).map Channel.id = cs.map Channel.id := by
  rw [set, List.map_map]
  refine List.map_congr_left fun c _ => ?_
  by_cases hc : c.id = id
  · simp [hc, hid]
  · simp [hc]

theorem mem_set {cs : ChannelList} {id : UInt8} {ch c : Channel} (h : c ∈ cs.set id ch) :
    c = ch ∨ (c ∈ cs ∧ c.id ≠ id) := by
  obtain ⟨x, hx, rfl⟩ := List.mem_map.mp h
  by_cases hc : x.id = id
  · simp [hc]
  · simp [hc, hx]

theorem Sound.set {cs : ChannelList} (h : cs.Sound) {id : UInt8} {ch : Channel} (hch : ch.Sound)
    (hid : ch.id = id) : (cs.set id ch).Sound where
  sound := by
    intro c hc
    rcases mem_set hc with rfl | ⟨hc, -⟩
    · exact hch
    · exact h.sound c hc
  ids := by rw [map_id_set hid]; exact h.ids

theorem set_of_not_mem {cs : ChannelList} {id : UInt8} {ch : Channel}
    (h : id ∉ cs.map Channel.id) : cs.set id ch = cs := by
  rw [set]
  refine (List.map_congr_left fun c hc => ?_).trans (List.map_id cs)
  have hne : c.id ≠ id := fun heq => h (heq ▸ List.mem_map_of_mem hc)
  simp [hne]

/-- Replacing a channel by one with `k` fewer messages due. -/
theorem numReady_set {cs : ChannelList} (hids : (cs.map Channel.id).Nodup) {ch ch' : Channel}
    (hmem : ch ∈ cs) {k : ℕ} (hk : ch'.numReady + k = ch.numReady) :
    (cs.set ch.id ch').numReady + k = cs.numReady := by
  induction cs with
  | nil => cases hmem
  | cons c cs ih =>
    rw [List.map_cons, List.nodup_cons] at hids
    rcases List.mem_cons.mp hmem with rfl | hmem
    · have hrest : set cs ch.id ch' = cs := set_of_not_mem hids.1
      have hset : set (ch :: cs) ch.id ch' = ch' :: set cs ch.id ch' := by simp [set]
      rw [hset, hrest]
      simp only [numReady, List.map_cons, List.sum_cons]
      omega
    · have hne : c.id ≠ ch.id := fun heq => hids.1 (heq ▸ List.mem_map_of_mem hmem)
      have hset : set (c :: cs) ch.id ch' = c :: set cs ch.id ch' := by simp [set, hne]
      have := ih hids.2 hmem
      rw [hset]
      simp only [numReady, List.map_cons, List.sum_cons] at this ⊢
      omega

/-- Replacing one channel relates the lists as it relates the channels. -/
theorem forall₂_set {R : Channel → Channel → Prop} {cs : ChannelList}
    (hids : (cs.map Channel.id).Nodup) (hrefl : ∀ c ∈ cs, R c c) {ch ch' : Channel} (hmem : ch ∈ cs)
    (h : R ch ch') : List.Forall₂ R cs (cs.set ch.id ch') := by
  rw [set, List.forall₂_map_right_iff]
  refine List.forall₂_same.mpr fun c hc => ?_
  by_cases heq : c.id = ch.id
  · have : c = ch := by
      have hc' := get?_of_mem hids hc
      rw [heq, get?_of_mem hids hmem] at hc'
      exact (Option.some.inj hc').symm
    simpa [this] using h
  · simpa [heq] using hrefl c hc

/-- A relation that keeps the ids of channels keeps those of lists. -/
theorem map_id_of_forall₂ {R : Channel → Channel → Prop} (hid : ∀ ch ch', R ch ch' → ch'.id = ch.id)
    {cs cs' : ChannelList} (h : List.Forall₂ R cs cs') :
    cs'.map Channel.id = cs.map Channel.id := by
  induction h with
  | nil => rfl
  | cons hc _ ih => rw [List.map_cons, List.map_cons, hid _ _ hc, ih]

/-- The channels of one number, in lists that are related channel by channel. -/
theorem exists_get?_of_forall₂ {R : Channel → Channel → Prop}
    (hid : ∀ ch ch', R ch ch' → ch'.id = ch.id)
    {cs cs' : ChannelList} (h : List.Forall₂ R cs cs') {id : UInt8}
    {ch : Channel} (hget : cs.get? id = some ch) :
    ∃ ch', cs'.get? id = some ch' ∧ R ch ch' := by
  induction h with
  | nil => cases hget
  | @cons c c' cs cs' hc _ ih =>
    rw [get?, List.find?_cons] at hget
    rw [get?, List.find?_cons, hid c c' hc]
    split at hget
    · cases hget
      exact ⟨c', rfl, hc⟩
    · exact ih hget

/-- Replacing a channel by a shrunk one shrinks the list. -/
theorem shrinks_set {cs : ChannelList} (hids : (cs.map Channel.id).Nodup) {ch ch' : Channel}
    (hmem : ch ∈ cs) (h : ch.Shrinks ch') :
    List.Forall₂ Channel.Shrinks cs (cs.set ch.id ch') :=
  forall₂_set hids (fun c _ => .refl c) hmem h

theorem shrinks_refl (cs : ChannelList) : List.Forall₂ Channel.Shrinks cs cs :=
  List.forall₂_same.mpr fun c _ => .refl c

/-- The channels after some messages were taken from them for sending. -/
def Wrote (cs : ChannelList) (ms : List Message) (cs' : ChannelList) : Prop :=
  List.Forall₂ (fun ch ch' => ch.Wrote (ms.filter fun m => m.channel == ch.id) ch') cs cs'

theorem Wrote.refl (cs : ChannelList) : cs.Wrote [] cs :=
  List.forall₂_same.mpr fun ch _ => Channel.Wrote.refl ch

theorem Wrote.trans {cs cs' cs'' : ChannelList} {ms ms' : List Message}
    (hsound : ∀ ch ∈ cs, ch.Sound)
    (h : cs.Wrote ms cs') (h' : cs'.Wrote ms' cs'') : cs.Wrote (ms ++ ms') cs'' := by
  induction h generalizing cs'' with
  | nil =>
    cases h'
    exact .nil
  | @cons ch ch' cs cs' hc _ ih =>
    cases h' with
    | cons hc' hcs' =>
      refine .cons ?_ (ih (fun c hmem => hsound c (List.mem_cons_of_mem _ hmem)) hcs')
      rw [hc.shrinks.id] at hc'
      rw [List.filter_append]
      exact hc.trans (hsound ch (List.mem_cons_self ..)).resend hc'

theorem Wrote.sound {cs cs' : ChannelList} {ms : List Message} (hsound : cs.Sound)
    (h : cs.Wrote ms cs') : cs'.Sound := by
  obtain ⟨hall, hids⟩ := hsound
  have key : (∀ ch ∈ cs', ch.Sound) ∧ cs'.map Channel.id = cs.map Channel.id := by
    clear hids
    induction h with
    | nil => exact ⟨hall, rfl⟩
    | @cons ch ch' cs cs' hc _ ih =>
      obtain ⟨hrest, hmap⟩ := ih fun c hmem => hall c (List.mem_cons_of_mem _ hmem)
      refine ⟨?_, by rw [List.map_cons, List.map_cons, hc.shrinks.id, hmap]⟩
      intro c hmem
      rcases List.mem_cons.mp hmem with rfl | hmem
      · exact hc.sound (hall ch (List.mem_cons_self ..))
      · exact hrest c hmem
  exact ⟨key.1, key.2 ▸ hids⟩

/-- Messages taken from one channel. -/
theorem Wrote.set {cs : ChannelList} (hsound : cs.Sound) {ch ch' : Channel} {ms : List Message}
    (hmem : ch ∈ cs) (h : ch.Wrote ms ch') : cs.Wrote ms (cs.set ch.id ch') := by
  have hchan : ∀ m ∈ ms, m.channel = ch.id := fun m hm =>
    ((hsound.sound ch hmem).of_holds (h.holds hm)).1
  rw [Wrote, ChannelList.set, List.forall₂_map_right_iff]
  refine List.forall₂_same.mpr fun c hc => ?_
  by_cases heq : c.id = ch.id
  · have hcc : c = ch := by
      have hc' := get?_of_mem hsound.ids hc
      rw [heq, get?_of_mem hsound.ids hmem] at hc'
      exact (Option.some.inj hc').symm
    have hall : ms.filter (fun m => m.channel == ch.id) = ms := by
      refine List.filter_eq_self.mpr fun m hm => ?_
      simp [hchan m hm]
    subst hcc
    simp only [beq_self_eq_true, if_true, hall]
    exact h
  · have hnone : ms.filter (fun m => m.channel == c.id) = [] := by
      refine List.filter_eq_nil_iff.mpr fun m hm => ?_
      simp [hchan m hm, Ne.symm heq]
    simp only [beq_eq_false_iff_ne.mpr heq, Bool.false_eq_true, if_false, hnone]
    exact Channel.Wrote.refl c

/-- What a shrunk channel holds, its original held. -/
theorem exists_holds_of_shrinks {cs cs' : ChannelList} (h : List.Forall₂ Channel.Shrinks cs cs')
    {m : Message} (hm : ∃ ch ∈ cs', ch.Holds m) : ∃ ch ∈ cs, ch.Holds m := by
  obtain ⟨ch', hch', hheld⟩ := hm
  obtain ⟨ch, hch, hshrinks⟩ := exists_of_forall₂_mem h hch'
  exact ⟨ch, hch, hheld.of_shrinks hshrinks⟩

end ChannelList

end Pickleback
