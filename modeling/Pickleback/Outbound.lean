import Pickleback.Endpoint

/-!
# What a send puts into a channel's queue

A payload of at most 1024 bytes becomes one message, a larger one a block of fragments with
consecutive ids, fragment `i` carrying the `i`-th chunk of 1024 bytes. `SendBlock` says what the
block is, whatever the pools did; `addMessageToChannel_eq_ok` says that this is what a send queues.

## Main definitions

* `Message.Encodes` — the buffer of an outbound message is its headers and a payload
* `chunk`, `numFragments` — how a payload is cut
* `SendBlock` — the messages of one send

## Main results

* `flatMap_chunk` — the chunks, in order, are the payload
* `addMessageToChannel_eq_ok` — the queue, the id counter and the fragment map after a send
-/

namespace Pickleback

/-! ### Outbound messages -/

/-- The buffer of `m` holds its headers and then `payload`, as `Message::new_outbound` leaves it. -/
def Message.Encodes (m : Message) (payload : List UInt8) : Prop :=
  m.channel < 64 ∧ payload.length ≤ 1024 ∧ m.sizeMode = .ofLength payload.length ∧
    ∃ headers, Message.writeHeaders m.id m.fragment m.sizeMode m.channel payload.length =
      .ok headers ∧
      m.buffer.data = headers ++ payload

theorem Message.newOutbound_eq_ok {pool pool' : BufPool} {id : MessageId} {channel : UInt8}
    {payload : List UInt8} {fragmented : Option Fragment} {m : Message}
    (h : Message.newOutbound pool id channel payload fragmented = .ok (m, pool')) :
    m.id = id ∧ m.channel = channel ∧ m.fragment = fragmented ∧ m.Encodes payload := by
  unfold newOutbound at h
  split at h
  · next hok =>
    dsimp only at h
    split at h
    · cases h
    · next headers hheaders =>
      cases h
      exact ⟨rfl, rfl, rfl, hok.1, hok.2, rfl, headers, hheaders, by simp⟩
  · cases h

/-! ### Cutting a payload -/

/-- The `i`-th chunk of a payload. -/
def chunk (payload : List UInt8) (i : ℕ) : List UInt8 := (payload.drop (i * 1024)).take 1024

/-- How many fragments a payload is cut into. -/
def numFragments (payload : List UInt8) : ℕ :=
  payload.length / 1024 + if payload.length % 1024 > 0 then 1 else 0

theorem flatMap_chunk_range (payload : List UInt8) (n : ℕ) :
    (List.range n).flatMap (chunk payload) = payload.take (n * 1024) := by
  induction n with
  | zero => simp
  | succ n ih =>
    rw [List.range_succ, List.flatMap_append, ih, Nat.succ_mul, List.take_add]
    simp [chunk]

/-- The chunks of a payload, in order, are the payload. -/
theorem flatMap_chunk (payload : List UInt8) :
    (List.range (numFragments payload)).flatMap (chunk payload) = payload := by
  rw [flatMap_chunk_range, List.take_of_length_le]
  unfold numFragments
  split <;> omega

/-! ### Channels -/

namespace Channel

/-- A message put at the end of the queue. -/
def push (ch : Channel) (m : Message) : Channel :=
  match ch with
  | .unreliable c => .unreliable { c with q := c.q ++ [m] }
  | .reliable c => .reliable { c with q := c.q ++ [⟨m, none⟩] }

/-- Several messages put at the end of the queue. -/
def pushAll (ch : Channel) (ms : List Message) : Channel := ms.foldl push ch

@[simp] theorem id_push (ch : Channel) (m : Message) : (ch.push m).id = ch.id := by
  cases ch <;> rfl

@[simp] theorem id_pushAll (ch : Channel) (ms : List Message) : (ch.pushAll ms).id = ch.id := by
  induction ms generalizing ch with
  | nil => rfl
  | cons m ms ih => exact (ih (ch.push m)).trans (id_push ch m)

@[simp] theorem queued_push (ch : Channel) (m : Message) :
    (ch.push m).queued = ch.queued ++ [m] := by
  cases ch <;> simp [push, queued]

@[simp] theorem queued_pushAll (ch : Channel) (ms : List Message) :
    (ch.pushAll ms).queued = ch.queued ++ ms := by
  induction ms generalizing ch with
  | nil => simp [pushAll]
  | cons m ms ih =>
    have := ih (ch.push m)
    simp only [pushAll, List.foldl_cons] at this ⊢
    simp [this]

theorem enqueueMessage_eq_ok {ch ch' : Channel} {pool pool' : BufPool} {id : MessageId}
    {payload : List UInt8} {fragmented : Option Fragment}
    (h : ch.enqueueMessage pool id payload fragmented = .ok (ch', pool')) :
    ∃ m, ch' = ch.push m ∧ m.id = id ∧ m.channel = ch.id ∧ m.fragment = fragmented ∧
      m.Encodes payload := by
  have key : ∀ {c : UInt8} {r}, Message.newOutbound pool id c payload fragmented = .ok r →
      r.1.id = id ∧ r.1.channel = c ∧ r.1.fragment = fragmented ∧ r.1.Encodes payload :=
    fun hr => Message.newOutbound_eq_ok hr
  cases ch with
  | unreliable c =>
    simp only [enqueueMessage, UnreliableChannel.enqueueMessage] at h
    cases hnew : Message.newOutbound pool id c.id payload fragmented with
    | error p => rw [hnew] at h; cases h
    | ok r =>
      rw [hnew] at h
      cases h
      exact ⟨r.1, rfl, key hnew⟩
  | reliable c =>
    simp only [enqueueMessage, ReliableChannel.enqueueMessage] at h
    cases hnew : Message.newOutbound pool id c.id payload fragmented with
    | error p => rw [hnew] at h; cases h
    | ok r =>
      rw [hnew] at h
      cases h
      exact ⟨r.1, rfl, key hnew⟩

end Channel

/-! ### The messages of one send -/

/-- `m` is fragment `i` of the payload sent under `parent`. -/
def IsFragment (parent : MessageId) (channel : UInt8) (payload : List UInt8) (i : ℕ)
    (m : Message) : Prop :=
  m.id = parent + UInt16.ofNat i ∧ m.channel = channel ∧
    m.fragment = some ⟨UInt16.ofNat i, UInt16.ofNat (numFragments payload), parent⟩ ∧
    m.Encodes (chunk payload i)

/-- `ms` are the messages queued by one send of `payload`, the first of them with id `parent`. -/
def SendBlock (parent : MessageId) (channel : UInt8) (payload : List UInt8)
    (ms : List Message) : Prop :=
  if payload.length ≤ 1024 then
    ∃ m, ms = [m] ∧ m.id = parent ∧ m.channel = channel ∧ m.fragment = none ∧ m.Encodes payload
  else ms.length = numFragments payload ∧
    ∀ i m, ms[i]? = some m → IsFragment parent channel payload i m

theorem SendBlock.getElem? {parent : MessageId} {channel : UInt8} {payload : List UInt8}
    {ms : List Message} (h : SendBlock parent channel payload ms) {i : ℕ} {m : Message}
    (hm : ms[i]? = some m) : m.id = parent + UInt16.ofNat i ∧ m.channel = channel := by
  unfold SendBlock at h
  split at h
  · obtain ⟨m', rfl, hid, hchan, -⟩ := h
    obtain ⟨rfl, rfl⟩ : i = 0 ∧ m' = m := by
      cases i with
      | zero => simpa using hm
      | succ i => simp at hm
    exact ⟨by simpa using hid, hchan⟩
  · obtain ⟨hid, hchan, -⟩ := h.2 i m hm
    exact ⟨hid, hchan⟩

/-! ### Queueing a send -/

section Send

variable {overflowChecks : Bool} {payload : List UInt8}

theorem numFragments_le (hlen : payload.length ≤ 1024 * 1024) : numFragments payload ≤ 1024 := by
  unfold numFragments
  split <;> omega

theorem lt_numFragments_iff {i : ℕ} : i < numFragments payload ↔ i * 1024 < payload.length := by
  unfold numFragments
  split <;> omega

namespace MessageDispatcher

theorem toNat_fragmentSize {i : ℕ} {size : UInt16} (hlen : payload.length ≤ 1024 * 1024)
    (hi : i < numFragments payload)
    (h : fragmentSize overflowChecks payload.length (UInt16.ofNat (numFragments payload))
      (UInt16.ofNat i) = .ok size) :
    size.toNat = min 1024 (payload.length - i * 1024) := by
  have hN := numFragments_le hlen
  have hlast : ¬ numFragments payload * 1024 < payload.length := fun hc =>
    lt_irrefl _ (lt_numFragments_iff.mpr hc)
  have hpos := lt_numFragments_iff.mp hi
  unfold fragmentSize at h
  split at h
  · next heq =>
    rw [beq_iff_eq, ← UInt16.toNat_inj, UInt16.toNat_sub] at heq
    simp only [UInt16.toNat_ofNat', UInt16.reduceToNat] at heq
    split at h
    · cases h
    · cases h
      rw [UInt16.toNat_sub, UInt16.toNat_mul, UInt16.toNat_sub]
      simp only [UInt16.toNat_ofNat', UInt16.reduceToNat]
      omega
  · next hne =>
    cases h
    rw [beq_iff_eq, ← UInt16.toNat_inj, UInt16.toNat_sub] at hne
    simp only [UInt16.toNat_ofNat', UInt16.reduceToNat] at hne ⊢
    have : (i + 1) * 1024 < payload.length := lt_numFragments_iff.mp (by omega)
    omega

/-- The bytes cut out for a fragment are its chunk. -/
theorem fragmentSlice_eq_ok {bytes : List UInt8} {i : ℕ} {size : UInt16}
    (hlen : payload.length ≤ 1024 * 1024) (hi : i < numFragments payload)
    (hsize : fragmentSize overflowChecks payload.length (UInt16.ofNat (numFragments payload))
      (UInt16.ofNat i) = .ok size)
    (hslice : fragmentSlice payload i size = .ok bytes) : bytes = chunk payload i := by
  unfold fragmentSlice at hslice
  split at hslice
  · cases hslice
    rw [toNat_fragmentSize hlen hi hsize, chunk, List.take_eq_take_iff]
    simp only [List.length_drop]
    omega
  · cases hslice

/-- The fragment loop from index `k` on queues the fragments `k, k + 1, …`. -/
theorem enqueueFragments_eq_ok {parent nextId' : MessageId} {ch' : Channel}
    {pool' : BufPool} {fragIds' : List MessageId}
    (hlen : payload.length ≤ 1024 * 1024) {j : ℕ} :
    ∀ {k : ℕ} {nextId : MessageId} {ch : Channel} {pool : BufPool} {fragIds : List MessageId},
      k + j ≤ numFragments payload → nextId = parent + UInt16.ofNat (max k 1) →
      enqueueFragments overflowChecks payload (UInt16.ofNat (numFragments payload)) parent
        (List.range' k j) nextId ch pool fragIds = .ok (fragIds', nextId', ch', pool') →
      ∃ ms, ms.length = j ∧ ch' = ch.pushAll ms ∧ fragIds' = fragIds ++ ms.map Message.id ∧
        nextId' = parent + UInt16.ofNat (max (k + j) 1) ∧
        ∀ i m, ms[i]? = some m → IsFragment parent ch.id payload (k + i) m := by
  induction j with
  | zero =>
    intro k nextId ch pool fragIds _ hnext h
    cases h
    exact ⟨[], rfl, rfl, by simp, hnext, by simp⟩
  | succ j ih =>
    intro k nextId ch pool fragIds hk hnext h
    rw [List.range'_succ] at h
    simp only [enqueueFragments] at h
    split at h
    · cases h
    · next size hsize =>
      split at h
      · cases h
      · next bytes hslice =>
        have hbytes := fragmentSlice_eq_ok hlen (by omega) hsize hslice
        split at h
        · cases h
        · next ch₁ pool₁ henq =>
          obtain ⟨m, rfl, hid, hchan, hfrag, henc⟩ := Channel.enqueueMessage_eq_ok henq
          have hnext₁ : (if k > 0 then nextId + 1 else nextId)
              = parent + UInt16.ofNat (max (k + 1) 1) := by
            rw [hnext]
            split
            · next hpos =>
              rw [show max k 1 = k by omega, show max (k + 1) 1 = k + 1 by omega,
                UInt16.add_assoc, UInt16.ofNat_add]
              rfl
            · next hzero =>
              obtain rfl : k = 0 := by omega
              rfl
          have hidk : (if k > 0 then nextId else parent) = parent + UInt16.ofNat k := by
            rw [hnext]
            split
            · next hpos => rw [show max k 1 = k by omega]
            · next hzero =>
              obtain rfl : k = 0 := by omega
              simp
          obtain ⟨ms, hms, hch, hids, hnext', hall⟩ := ih (by omega) hnext₁ h
          refine ⟨m :: ms, by simp [hms], hch, ?_, ?_, ?_⟩
          · rw [hids, ← hid]
            simp
          · rw [hnext', show k + 1 + j = k + (j + 1) by omega]
          · intro i m' hm'
            cases i with
            | zero =>
              simp only [List.getElem?_cons_zero, Option.some.injEq] at hm'
              subst hm'
              exact ⟨hid.trans hidk, hchan, hfrag, hbytes ▸ henc⟩
            | succ i =>
              rw [List.getElem?_cons_succ] at hm'
              have := hall i m' hm'
              rw [Channel.id_push, show k + 1 + i = k + (i + 1) by omega] at this
              exact this

/-- How the dispatcher records a block of messages: the counter moves past it, and a fragmented
block is registered under its parent id, unless that id is behind the window of the fragment map. -/
inductive Records (d : MessageDispatcher) (payload : List UInt8) (ms : List Message) :
    Except PicklebackError MessageId → MessageDispatcher → Prop
  | whole (hsize : payload.length ≤ 1024) :
    Records d payload ms (.ok d.nextMessageId)
      { d with nextMessageId := d.nextMessageId + UInt16.ofNat ms.length }
  | fragmented {m : SentFragMap} (hsize : ¬ payload.length ≤ 1024)
    (hm : d.sentFragMap.insert d.nextMessageId (.partially (ms.map Message.id)) = .ok m) :
    Records d payload ms (.ok d.nextMessageId)
      { d with
        nextMessageId := d.nextMessageId + UInt16.ofNat ms.length
        sentFragMap := m }
  | tooOld {e : PicklebackError} (hsize : ¬ payload.length ≤ 1024)
    (he : d.sentFragMap.insert d.nextMessageId (.partially (ms.map Message.id)) = .error e) :
    Records d payload ms (.error e)
      { d with nextMessageId := d.nextMessageId + UInt16.ofNat ms.length }

theorem Records.nextMessageId {d d' : MessageDispatcher} {ms : List Message}
    {res : Except PicklebackError MessageId} (h : d.Records payload ms res d') :
    d'.nextMessageId = d.nextMessageId + UInt16.ofNat ms.length := by
  cases h <;> rfl

/-- The id that is returned is the first of the block. -/
theorem Records.id_eq {d d' : MessageDispatcher} {ms : List Message}
    {res : Except PicklebackError MessageId} (h : d.Records payload ms res d') {id : MessageId}
    (hres : res = .ok id) : id = d.nextMessageId := by
  cases h with
  | whole _ =>
    cases hres
    rfl
  | fragmented _ _ =>
    cases hres
    rfl
  | tooOld _ _ => cases hres

theorem Records.messagesInPackets {d d' : MessageDispatcher} {ms : List Message}
    {res : Except PicklebackError MessageId} (h : d.Records payload ms res d') :
    d'.messagesInPackets = d.messagesInPackets := by
  cases h <;> rfl

theorem Records.ackInbox {d d' : MessageDispatcher} {ms : List Message}
    {res : Except PicklebackError MessageId} (h : d.Records payload ms res d') :
    d'.ackInbox = d.ackInbox := by
  cases h <;> rfl

theorem Records.len_sentFragMap {d d' : MessageDispatcher} {ms : List Message}
    {res : Except PicklebackError MessageId} (h : d.Records payload ms res d') :
    d'.sentFragMap.len = d.sentFragMap.len := by
  cases h with
  | whole _ => rfl
  | fragmented _ hm => exact SequenceBuffer.len_insert hm
  | tooOld _ _ => rfl

/-- **What a send does.** It queues one block under the next id, and records it. -/
theorem addMessageToChannel_eq_ok {d d' : MessageDispatcher} {pool pool' : BufPool}
    {ch ch' : Channel} {res : Except PicklebackError MessageId}
    (hlen : payload.length ≤ 1024 * 1024)
    (h : d.addMessageToChannel overflowChecks pool ch payload = .ok (res, d', ch', pool')) :
    ∃ ms, SendBlock d.nextMessageId ch.id payload ms ∧ ch' = ch.pushAll ms ∧
      d.Records payload ms res d' := by
  unfold addMessageToChannel at h
  split at h
  · next hsmall =>
    dsimp only at h
    cases henq : ch.enqueueMessage pool d.nextMessageId payload none with
    | error p => rw [henq] at h; cases h
    | ok r =>
      rw [henq] at h
      cases h
      obtain ⟨m, hch, hid, hchan, hfrag, henc⟩ := Channel.enqueueMessage_eq_ok henq
      refine ⟨[m], ?_, hch, .whole hsmall⟩
      rw [SendBlock, if_pos hsmall]
      exact ⟨m, rfl, hid, hchan, hfrag, henc⟩
  · next hlarge =>
    have hN := numFragments_le hlen
    have hNpos : 1 < numFragments payload := lt_numFragments_iff.mpr (by omega)
    unfold addLargeMessageToChannel at h
    dsimp only at h
    rw [show payload.length / 1024 + (if payload.length % 1024 > 0 then 1 else 0)
      = numFragments payload from rfl, UInt16.toNat_ofNat', Nat.mod_eq_of_lt (by omega),
        List.range_eq_range'] at h
    split at h
    · cases h
    · next fragIds nextId ch₁ pool₁ henq =>
      obtain ⟨ms, hms, hch, hids, hnext, hall⟩ :=
        enqueueFragments_eq_ok hlen (by omega) (by rfl) henq
      have hblock : SendBlock d.nextMessageId ch.id payload ms := by
        rw [SendBlock, if_neg hlarge]
        refine ⟨hms, fun i m hm => ?_⟩
        have := hall i m hm
        rwa [Nat.zero_add] at this
      have hnext' : nextId = d.nextMessageId + UInt16.ofNat ms.length := by
        rw [hnext, hms, show max (0 + numFragments payload) 1 = numFragments payload by omega]
      rw [List.nil_append] at hids
      subst hids
      unfold SentFragMap.insertFragmentedMessage at h
      split at h
      · next e he =>
        cases h
        rw [hnext']
        exact ⟨ms, hblock, hch, .tooOld hlarge he⟩
      · next m hm =>
        cases h
        rw [hnext']
        exact ⟨ms, hblock, hch, .fragmented hlarge hm⟩

end MessageDispatcher

/-- A call of `send_message` that returns has queued nothing, or one block on its channel. -/
theorem Endpoint.sendMessage_cases {p p' : Endpoint} {channel : UInt8}
    {res : Except PicklebackError MessageId} (hconfig : p.config.maxMessageSize ≤ 1024 * 1024)
    (h : p.sendMessage channel payload = .ok (p', res)) :
    ((∃ e, res = .error e) ∧ p' = { p with stats := p'.stats }) ∨
      ∃ ch ms, payload.length ≤ 1024 * 1024 ∧ p.channels.get? channel = some ch ∧
        SendBlock p.dispatcher.nextMessageId channel payload ms ∧
        p.dispatcher.Records payload ms res p'.dispatcher ∧
        p' = { p with
          stats := p'.stats
          dispatcher := p'.dispatcher
          channels := p.channels.set channel (ch.pushAll ms)
          pool := p'.pool } := by
  unfold sendMessage at h
  split at h
  · cases h
    exact Or.inl ⟨⟨_, rfl⟩, rfl⟩
  · next hlen =>
    split at h
    · cases h
      exact Or.inl ⟨⟨_, rfl⟩, rfl⟩
    · dsimp only at h
      split at h
      · cases h
        exact Or.inl ⟨⟨_, rfl⟩, rfl⟩
      · next ch hch =>
        split at h
        · cases h
        · next res' d ch' pool' hadd =>
          have hid : ch.id = channel := ChannelList.id_of_get? hch
          cases h
          obtain ⟨ms, hblock, rfl, hrec⟩ :=
            MessageDispatcher.addMessageToChannel_eq_ok (by omega) hadd
          exact Or.inr ⟨ch, ms, by omega, hch, hid ▸ hblock, hrec, rfl⟩

/-! ### When a send succeeds -/

/-- A message is queued if its payload fits a message, and is whole unless it is the last
fragment. -/
theorem Channel.exists_enqueueMessage {ch : Channel} (hchan : ch.id < 64) (pool : BufPool)
    (id : MessageId) (fragmented : Option Fragment) (hlen : payload.length ≤ 1024)
    (hfrag : ∀ f, fragmented = some f → f.isLast = false → payload.length = 1024) :
    ∃ r, ch.enqueueMessage pool id payload fragmented = .ok r := by
  have hnew : ∃ r, Message.newOutbound pool id ch.id payload fragmented = .ok r := by
    rw [Message.newOutbound, if_pos ⟨hchan, hlen⟩]
    cases fragmented with
    | none => cases MessageSizeMode.ofLength payload.length <;> exact ⟨_, rfl⟩
    | some f =>
      cases hlast : f.isLast with
      | true => simp [Message.writeHeaders, Fragment.writeHeader, hlast, Except.map]
      | false =>
        simp [Message.writeHeaders, Fragment.writeHeader, hlast, hfrag f rfl hlast, Except.map]
  obtain ⟨r, hr⟩ := hnew
  cases ch with
  | unreliable c =>
    have hr' : Message.newOutbound pool id c.id payload fragmented = .ok r := hr
    simp only [enqueueMessage, UnreliableChannel.enqueueMessage, hr']
    exact ⟨_, rfl⟩
  | reliable c =>
    have hr' : Message.newOutbound pool id c.id payload fragmented = .ok r := hr
    simp only [enqueueMessage, ReliableChannel.enqueueMessage, hr']
    exact ⟨_, rfl⟩

namespace MessageDispatcher

/-- The size of a fragment can be computed in the arithmetic of the build: always if it wraps, and
if it panics on overflow, for payloads below 64 kB. -/
def Cuttable (overflowChecks : Bool) (payload : List UInt8) : Prop :=
  overflowChecks = true → payload.length < 65536

theorem toNat_ofNat_numFragments (hlen : payload.length ≤ 1024 * 1024) :
    (UInt16.ofNat (numFragments payload)).toNat = numFragments payload := by
  have := numFragments_le hlen
  rw [UInt16.toNat_ofNat']
  exact Nat.mod_eq_of_lt (by omega)

/-- The index of the last fragment. -/
theorem ofNat_eq_last_iff {i : ℕ} (hlen : payload.length ≤ 1024 * 1024)
    (hi : i < numFragments payload) :
    (UInt16.ofNat i == UInt16.ofNat (numFragments payload) - 1) = true ↔
      i + 1 = numFragments payload := by
  have hN := numFragments_le hlen
  rw [beq_iff_eq, ← UInt16.toNat_inj, UInt16.toNat_sub, toNat_ofNat_numFragments hlen]
  simp only [UInt16.toNat_ofNat', UInt16.reduceToNat]
  omega

theorem exists_fragmentSize (hlen : payload.length ≤ 1024 * 1024) (hlarge : 1024 < payload.length)
    (hcut : Cuttable overflowChecks payload) {i : ℕ} (hi : i < numFragments payload) :
    ∃ size, fragmentSize overflowChecks payload.length (UInt16.ofNat (numFragments payload))
      (UInt16.ofNat i) = .ok size := by
  rw [fragmentSize]
  split
  · split
    · next hbad =>
      obtain ⟨hchecks, hover⟩ := hbad
      have hsmall := hcut hchecks
      have hN := toNat_ofNat_numFragments hlen
      have hle : (numFragments payload - 1) * 1024 < payload.length :=
        lt_numFragments_iff.mp (by omega)
      rw [UInt16.lt_iff_toNat_lt, UInt16.toNat_mul, UInt16.toNat_sub, hN] at hover
      simp only [UInt16.toNat_ofNat', UInt16.reduceToNat] at hover
      omega
    · exact ⟨_, rfl⟩
  · exact ⟨_, rfl⟩

/-- In a build that panics on overflow, the last fragment of a payload from 64 kB on panics. -/
theorem fragmentSize_last (hlen : payload.length ≤ 1024 * 1024) (hbig : 65536 ≤ payload.length) :
    fragmentSize true payload.length (UInt16.ofNat (numFragments payload))
      (UInt16.ofNat (numFragments payload - 1)) = .error .fragmentSizeOverflow := by
  have hNle := numFragments_le hlen
  have hN := toNat_ofNat_numFragments hlen
  have hpos : 63 < numFragments payload := lt_numFragments_iff.mpr (by omega)
  have hlast : (UInt16.ofNat (numFragments payload - 1) == UInt16.ofNat (numFragments payload) - 1)
      = true := (ofNat_eq_last_iff hlen (by omega)).mpr (by omega)
  have hlast' : ¬ numFragments payload * 1024 < payload.length := fun hc =>
    lt_irrefl _ (lt_numFragments_iff.mpr hc)
  rw [fragmentSize, if_pos hlast, if_pos]
  refine ⟨rfl, ?_⟩
  rw [UInt16.lt_iff_toNat_lt, UInt16.toNat_mul, UInt16.toNat_sub, hN]
  simp only [UInt16.toNat_ofNat', UInt16.reduceToNat]
  omega

theorem exists_fragmentSlice (hlen : payload.length ≤ 1024 * 1024) {i : ℕ}
    (hi : i < numFragments payload) {size : UInt16}
    (hsize : fragmentSize overflowChecks payload.length (UInt16.ofNat (numFragments payload))
      (UInt16.ofNat i) = .ok size) : fragmentSlice payload i size = .ok (chunk payload i) := by
  have hle : i * 1024 + size.toNat ≤ payload.length := by
    have := lt_numFragments_iff.mp hi
    rw [toNat_fragmentSize hlen hi hsize]
    omega
  have hslice : ∃ bytes, fragmentSlice payload i size = .ok bytes := by
    rw [fragmentSlice, if_pos hle]
    exact ⟨_, rfl⟩
  obtain ⟨bytes, hslice⟩ := hslice
  rw [hslice, fragmentSlice_eq_ok hlen hi hsize hslice]

/-- Only the last chunk can be short. -/
theorem length_chunk {i : ℕ} (hi : i + 1 < numFragments payload) :
    (chunk payload i).length = 1024 := by
  have := lt_numFragments_iff.mp hi
  simp only [chunk, List.length_take, List.length_drop]
  omega

/-- The fragment loop from index `k` on goes through if every size can be computed. -/
theorem exists_enqueueFragments (hlen : payload.length ≤ 1024 * 1024)
    (hlarge : 1024 < payload.length)
    (hcut : Cuttable overflowChecks payload) (parent : MessageId) {j : ℕ} :
    ∀ (k : ℕ) (nextId : MessageId) (ch : Channel) (pool : BufPool) (fragIds : List MessageId),
      k + j ≤ numFragments payload → ch.id < 64 →
      ∃ r, enqueueFragments overflowChecks payload (UInt16.ofNat (numFragments payload)) parent
        (List.range' k j) nextId ch pool fragIds = .ok r := by
  induction j with
  | zero =>
    intro k nextId ch pool fragIds _ _
    exact ⟨_, rfl⟩
  | succ j ih =>
    intro k nextId ch pool fragIds hk hchan
    obtain ⟨size, hsize⟩ := exists_fragmentSize hlen hlarge hcut
      (show k < numFragments payload by omega)
    have hslice := exists_fragmentSlice hlen (by omega) hsize
    have hwhole :
      ∀ f, some (⟨UInt16.ofNat k, UInt16.ofNat (numFragments payload), parent⟩ : Fragment)
        = some f → f.isLast = false → (chunk payload k).length = 1024 := by
      intro f hf hlast
      cases hf
      refine length_chunk ?_
      by_contra hle
      have := (ofNat_eq_last_iff hlen (show k < numFragments payload by omega)).mpr (by omega)
      rw [Fragment.isLast] at hlast
      exact absurd (this.symm.trans hlast) (by decide)
    have hle : (chunk payload k).length ≤ 1024 := by simp [chunk]
    obtain ⟨⟨ch₁, pool₁⟩, henq⟩ := ch.exists_enqueueMessage hchan pool
      (if k > 0 then nextId else parent) _ hle hwhole
    have hchan₁ : ch₁.id < 64 := by
      obtain ⟨m, rfl, -⟩ := Channel.enqueueMessage_eq_ok henq
      rwa [Channel.id_push]
    rw [List.range'_succ]
    simp only [enqueueFragments, hsize, hslice, henq]
    exact ih _ _ _ _ _ (by omega) hchan₁

/-- From 64 kB on, the loop panics in a build that checks for overflow. -/
theorem enqueueFragments_overflow (hlen : payload.length ≤ 1024 * 1024)
    (hbig : 65536 ≤ payload.length)
    (parent : MessageId) {j : ℕ} :
    ∀ (k : ℕ) (nextId : MessageId) (ch : Channel) (pool : BufPool) (fragIds : List MessageId),
      k + (j + 1) = numFragments payload →
      ∃ p, enqueueFragments true payload (UInt16.ofNat (numFragments payload)) parent
        (List.range' k (j + 1)) nextId ch pool fragIds = .error p := by
  induction j with
  | zero =>
    intro k nextId ch pool fragIds hk
    have hlast := fragmentSize_last hlen hbig
    rw [show numFragments payload - 1 = k by omega] at hlast
    rw [List.range'_succ]
    simp only [enqueueFragments, hlast]
    exact ⟨_, rfl⟩
  | succ j ih =>
    intro k nextId ch pool fragIds hk
    rw [List.range'_succ]
    simp only [enqueueFragments]
    split
    · exact ⟨_, rfl⟩
    · split
      · exact ⟨_, rfl⟩
      · split
        · exact ⟨_, rfl⟩
        · exact ih _ _ _ _ _ (by omega)

/-- The next id is not behind the window of the fragment map. -/
def Registers (d : MessageDispatcher) : Prop :=
  SequenceBuffer.sequenceLessThan d.nextMessageId
    (d.sentFragMap.sequence - UInt16.ofNat d.sentFragMap.len) = false

theorem exists_insert_iff (d : MessageDispatcher) (ids : List MessageId) :
    (∃ m, SentFragMap.insertFragmentedMessage d.sentFragMap d.nextMessageId ids = .ok m) ↔
      d.Registers := by
  rw [SentFragMap.insertFragmentedMessage, SequenceBuffer.insert, Registers]
  split
  · next h => simp [h]
  · next h =>
    refine iff_of_true ?_ (by simpa using h)
    split <;> exact ⟨_, rfl⟩

/-- **A large send.** If the fragments can be cut, they are queued, and the send succeeds if and
only if its id can be registered. -/
theorem exists_addLargeMessageToChannel (hlen : payload.length ≤ 1024 * 1024)
    (hlarge : 1024 < payload.length) (hcut : Cuttable overflowChecks payload)
    (d : MessageDispatcher)
    (pool : BufPool) {ch : Channel} (hchan : ch.id < 64) :
    ∃ res d' ch' pool', d.addLargeMessageToChannel overflowChecks pool ch payload
        = .ok (res, d', ch', pool') ∧ ((∃ id, res = .ok id) ↔ d.Registers) := by
  have hN := toNat_ofNat_numFragments hlen
  obtain ⟨⟨fragIds, nextId, ch', pool'⟩, henq⟩ :=
    exists_enqueueFragments hlen hlarge hcut d.nextMessageId
    0 (d.nextMessageId + 1) ch pool [] (Nat.zero_add (numFragments payload)).le hchan
  have hreg := d.exists_insert_iff fragIds
  rw [addLargeMessageToChannel]
  dsimp only
  rw [show payload.length / 1024 + (if payload.length % 1024 > 0 then 1 else 0)
    = numFragments payload from rfl, hN, List.range_eq_range', henq]
  simp only
  split
  · next e he => exact ⟨_, _, _, _, rfl, iff_of_false (by simp) (by rw [← hreg, he]; simp)⟩
  · next m hm => exact ⟨_, _, _, _, rfl, iff_of_true ⟨_, rfl⟩ (hreg.mp ⟨m, hm⟩)⟩

theorem addLargeMessageToChannel_overflow (hlen : payload.length ≤ 1024 * 1024)
    (hbig : 65536 ≤ payload.length) (d : MessageDispatcher) (pool : BufPool) (ch : Channel) :
    ∃ p, d.addLargeMessageToChannel true pool ch payload = .error p := by
  have hN := toNat_ofNat_numFragments hlen
  have hpos : 63 < numFragments payload := lt_numFragments_iff.mpr (by omega)
  obtain ⟨j, hj⟩ : ∃ j, numFragments payload = j + 1 := ⟨numFragments payload - 1, by omega⟩
  obtain ⟨p, hp⟩ := enqueueFragments_overflow hlen hbig d.nextMessageId 0
    (d.nextMessageId + 1) ch pool []
    (show 0 + (j + 1) = numFragments payload by omega)
  rw [← hj] at hp
  rw [addLargeMessageToChannel]
  dsimp only
  rw [show payload.length / 1024 + (if payload.length % 1024 > 0 then 1 else 0)
    = numFragments payload from rfl, hN, List.range_eq_range', hp]
  exact ⟨p, rfl⟩

end MessageDispatcher

/-- A message of at most 1024 bytes on an existing channel is queued while few packets are
unacked. -/
theorem Endpoint.exists_sendMessage {p : Endpoint} {channel : UInt8} {ch : Channel}
    (hch : p.channels.get? channel = some ch) (hchan : channel < 64) (hlen : payload.length ≤ 1024)
    (hmax : 1024 ≤ p.config.maxMessageSize)
    (hunacked : ¬ p.sentUnackedPackets ≥ maxUnackedPackets) :
    ∃ p', p.sendMessage channel payload = .ok (p', .ok p.dispatcher.nextMessageId) := by
  have hid : ch.id = channel := ChannelList.id_of_get? hch
  obtain ⟨r, hr⟩ := ch.exists_enqueueMessage (hid ▸ hchan) p.pool
    p.dispatcher.nextMessageId none hlen
    fun f hf => by cases hf
  unfold sendMessage MessageDispatcher.addMessageToChannel
  rw [if_neg (by omega), if_neg hunacked]
  simp only [hch, if_pos hlen, hr]
  exact ⟨_, rfl⟩

end Send

end Pickleback
