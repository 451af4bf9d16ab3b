import Pickleback.Composition
import Pickleback.Freshness

/-!
# The history of an endpoint

Runs of one endpoint together with a record of what it was asked to send and of what it has sent:
the messages each call of `send_message` has queued, the packets that `compose_packets` has put
together, and the ids of the packets that were ever marked as acked. The record is made from the
outside, by comparing the endpoint before and after each call.

## Main definitions

* `Send`, `Journal`, `Journal.step`, `Journal.run` — runs with a record
* `Journal.Carries` — a packet on record contains a message
* `Endpoint.Logged` — the packets on record, each with its number and the messages in it

## Main results

* `Logged.emits`, `Logged.queue`, `Logged.transfer` — what each kind of step adds to the record
* `Logged.carries_iff` — the bytes of a packet determine the messages in it
* `Journal.step_did`, `Truthful.step` — the record stays a true account
-/

namespace Pickleback

open ByteCodec

/-! ### Runs with a record -/

/-- A call of `send_message` that queued something, and the messages it queued. -/
structure Send where
  channel : UInt8
  payload : List UInt8
  messages : List Message

/-- An endpoint and its history. -/
structure Journal where
  endpoint : Endpoint
  /-- The sends, in order. -/
  sends : List Send
  /-- The packets of messages, in order. -/
  packets : List (List UInt8)
  /-- The packets that were ever marked as acked in `sent_buffer`. -/
  acked : Set PacketId
  /-- How many packet ids were used up. -/
  packetIds : ℕ

/-- The packets that are marked as acked in `sent_buffer`. -/
def Endpoint.ackedIds (p : Endpoint) : Set PacketId :=
  { id | ∃ sentMeta, p.sentBuffer.get id = some sentMeta ∧ sentMeta.acked = true }

namespace Journal

/-- All messages that were queued. -/
def queued (j : Journal) : List Message := j.sends.flatMap Send.messages

/-- A new endpoint. -/
def start (overflowChecks : Bool) (time : Time) : Journal where
  endpoint := Endpoint.new overflowChecks .default time
  sends := []
  packets := []
  acked := ∅
  packetIds := 0

/-- What a call has queued. -/
def sendsOf (p p' : Endpoint) : Endpoint.Call → List Send
  | .sendMessage channel payload =>
    match (p'.queuedOn channel).drop (p.queuedOn channel).length with
    | [] => []
    | m :: ms => [⟨channel, payload, m :: ms⟩]
  | _ => []

/-- The packets that a call puts together. What was in the outbox before are packets without
messages. -/
def packetsOf (p : Endpoint) : Endpoint.Call → List (List UInt8)
  | .visitPacketsToSend =>
    match p.visitPacketsToSend with
    | .ok (_, packets) => packets.drop p.outbox.length
    | .error _ => []
  | _ => []

/-- One call, on record. -/
def step (j : Journal) (c : Endpoint.Call) : Except Panic Journal :=
  (j.endpoint.step c).map fun p => {
    endpoint := p
    sends := j.sends ++ sendsOf j.endpoint p c
    packets := j.packets ++ packetsOf j.endpoint c
    acked := j.acked ∪ p.ackedIds
    packetIds := j.packetIds + (p.sequenceId - j.endpoint.sequenceId).toNat }

/-- A series of calls, on record. -/
def run (j : Journal) (calls : List Endpoint.Call) : Except Panic Journal := calls.foldlM step j

/-- The packet `bytes` has the id `id`, and its payload is a series of buffers of queued messages,
with the buffer of `m` among them. -/
def Carries (j : Journal) (bytes : List UInt8) (id : PacketId) (m : Message) : Prop :=
  ∃ header salt payload, ∃ ms : List Message, readPacket bytes =
    .ok (.messages header salt, payload) ∧ header.id = id ∧
    (∀ x ∈ ms, x ∈ j.queued) ∧ payload = (ms.flatMap fun x => x.buffer.data) ∧ m ∈ ms

/-- The record only grows. -/
theorem run_mono {j j' : Journal} {calls : List Endpoint.Call} (h : j.run calls = .ok j') :
    j.packetIds ≤ j'.packetIds ∧ j.queued.length ≤ j'.queued.length := by
  induction calls generalizing j with
  | nil =>
    cases h
    exact ⟨le_rfl, le_rfl⟩
  | cons c calls ih =>
    obtain ⟨j₁, hstep, hrun⟩ := exists_of_foldlM_cons h
    obtain ⟨p, hp, rfl⟩ := exists_of_map_eq_ok hstep
    obtain ⟨hids, hqueued⟩ := ih hrun
    simp only [queued, List.flatMap_append, List.length_append] at hids hqueued ⊢
    exact ⟨by omega, by omega⟩

/-- **The rule for runs.** A property of journals that every call keeps, as long as few enough ids
are used up, holds in every run that uses up few enough. -/
theorem run_induct {I : Journal → Prop} {maxPackets maxMessages : ℕ}
    (hstep : ∀ {j j' : Journal} {c : Endpoint.Call}, I j → j'.packetIds ≤ maxPackets →
      j'.queued.length ≤ maxMessages → j.step c = .ok j' → I j')
    {calls : List Endpoint.Call} {j j' : Journal} (h : I j) (hrun : j.run calls = .ok j')
    (hpackets : j'.packetIds ≤ maxPackets) (hmessages : j'.queued.length ≤ maxMessages) : I j' := by
  induction calls generalizing j with
  | nil =>
    cases hrun
    exact h
  | cons c calls ih =>
    obtain ⟨j₁, hfirst, hrest⟩ := exists_of_foldlM_cons hrun
    have hrest : j₁.run calls = .ok j' := hrest
    obtain ⟨hids, hqueued⟩ := run_mono hrest
    exact ih (hstep h (by omega) (by omega) hfirst) hrest

end Journal

/-! ### Messages on record -/

/-- The same message, or a copy of it. -/
def Message.Copies (m m₀ : Message) : Prop := m = m₀ ∨ m = m₀.clone

theorem Message.Copies.same {m m₀ : Message} (h : m.Copies m₀) :
    m.id = m₀.id ∧ m.channel = m₀.channel ∧ m.fragment = m₀.fragment ∧
      m.buffer.data = m₀.buffer.data := by
  rcases h with rfl | rfl <;> exact ⟨rfl, rfl, rfl, rfl⟩

theorem Message.Copies.handle {m m₀ : Message} (h : m.Copies m₀) : m.handle = m₀.handle := by
  rcases h with rfl | rfl <;> rfl

/-- Lists of messages, one list copied from the other. -/
def CopiesOf (ms ms₀ : List Message) : Prop := List.Forall₂ Message.Copies ms ms₀

theorem CopiesOf.map_eq {β : Type} {ms ms₀ : List Message} {f : Message → β} (h : CopiesOf ms ms₀)
    (hf : ∀ {m m₀ : Message}, m.Copies m₀ → f m = f m₀) : ms.map f = ms₀.map f := by
  induction h with
  | nil => rfl
  | cons hc _ ih => rw [List.map_cons, List.map_cons, hf hc, ih]

/-- The messages that copies were made from. -/
theorem exists_originals {queued ms : List Message} (h : ∀ m ∈ ms, ∃ m₀ ∈ queued, m.Copies m₀) :
    ∃ ms₀, (∀ m ∈ ms₀, m ∈ queued) ∧ CopiesOf ms ms₀ := by
  induction ms with
  | nil => exact ⟨[], by simp, .nil⟩
  | cons m ms ih =>
    obtain ⟨m₀, hm₀, hcopy⟩ := h m (List.mem_cons_self ..)
    obtain ⟨ms₀, hms₀, hcopies⟩ := ih fun y hy => h y (List.mem_cons_of_mem _ hy)
    refine ⟨m₀ :: ms₀, fun y hy => ?_, .cons hcopy hcopies⟩
    rcases List.mem_cons.mp hy with rfl | hy
    · exact hm₀
    · exact hms₀ y hy

/-- What is true of every message that a send has queued. -/
structure Message.Sent (m : Message) : Prop where
  channel : m.channel = 0 ∨ m.channel = 1
  encodes : ∃ payload, m.Encodes payload
  parentId : ∀ f, m.fragment = some f → f.parentId = m.id - f.index

theorem Message.writeHeaders_eq_ok {id : MessageId} {fragment : Option Fragment}
    {mode : MessageSizeMode}
    {channel : UInt8} {len : ℕ} {headers : List UInt8}
    (h : Message.writeHeaders id fragment mode channel len = .ok headers) :
    ∃ tail, headers = prefixByte fragment mode channel :: (writeU16 id ++ tail) := by
  cases fragment with
  | some f =>
    simp only [writeHeaders] at h
    obtain ⟨bytes, -, rfl⟩ := exists_of_map_eq_ok h
    exact ⟨bytes, rfl⟩
  | none =>
    cases mode with
    | small =>
      cases h
      exact ⟨[UInt8.ofNat len], rfl⟩
    | large =>
      cases h
      exact ⟨writeU16 (UInt16.ofNat len), rfl⟩

/-- A message starts with a byte of flags and its id. -/
theorem Message.Encodes.exists_data {m : Message} {payload : List UInt8} (h : m.Encodes payload) :
    ∃ b tail, m.buffer.data = b :: (writeU16 m.id ++ tail) := by
  obtain ⟨-, -, -, headers, hheaders, hdata⟩ := h
  obtain ⟨tail, rfl⟩ := writeHeaders_eq_ok hheaders
  rw [hdata, List.cons_append, List.append_assoc]
  exact ⟨_, tail ++ payload, rfl⟩

theorem Numbered.map_id {k : ℕ} {ms : List Message} (h : Numbered k ms) :
    ms.map Message.id = (List.range' k ms.length).map UInt16.ofNat := by
  induction ms generalizing k with
  | nil => rfl
  | cons m ms ih =>
    rw [List.map_cons, h.1, ih h.2, List.length_cons, List.range'_succ, List.map_cons]

theorem Numbered.nodup {ms : List Message} (h : Numbered 0 ms) (hlen : ms.length ≤ 65536) :
    (ms.map Message.id).Nodup := by
  rw [h.map_id]
  refine List.Nodup.map_on (fun i hi i' hi' heq => ?_) (List.nodup_range' ..)
  have := congrArg UInt16.toNat heq
  rw [List.mem_range'_1] at hi hi'
  rw [UInt16.toNat_ofNat', UInt16.toNat_ofNat'] at this
  omega

/-- While no id was used twice, a message on record is known by its id. -/
theorem Numbered.eq_of_id {ms : List Message} (h : Numbered 0 ms) (hlen : ms.length ≤ 65536)
    {m m' : Message} (hm : m ∈ ms) (hm' : m' ∈ ms) (hid : m.id = m'.id) : m = m' :=
  List.inj_on_of_nodup_map (h.nodup hlen) hm hm' hid

/-- **Payloads are read in one way only.** Two series of copies of messages on record with the same
bytes have the same messages. -/
theorem map_id_of_flatMap_eq {queued ms ms' : List Message} (hnum : Numbered 0 queued)
    (hlen : queued.length ≤ 65536) (hsent : ∀ m ∈ queued, m.Sent)
    (hms : ∀ m ∈ ms, ∃ m₀ ∈ queued, m.Copies m₀) (hms' : ∀ m ∈ ms', ∃ m₀ ∈ queued, m.Copies m₀)
    (h : (ms.flatMap fun m => m.buffer.data) = ms'.flatMap fun m => m.buffer.data) :
    ms.map Message.id = ms'.map Message.id := by
  have hdata : ∀ {m m₀ : Message}, m₀ ∈ queued → m.Copies m₀ →
      ∃ b tail, m.buffer.data = b :: (writeU16 m.id ++ tail) := by
    intro m m₀ hm₀ hcopy
    obtain ⟨payload, henc⟩ := (hsent m₀ hm₀).encodes
    obtain ⟨b, tail, hbt⟩ := henc.exists_data
    exact ⟨b, tail, by rw [hcopy.same.2.2.2, hcopy.same.1, hbt]⟩
  induction ms generalizing ms' with
  | nil =>
    cases ms' with
    | nil => rfl
    | cons m' ms' =>
      obtain ⟨m₀, hm₀, hcopy⟩ := hms' m' (List.mem_cons_self ..)
      obtain ⟨b, tail, hbt⟩ := hdata hm₀ hcopy
      simp [hbt] at h
  | cons m ms ih =>
    obtain ⟨m₀, hm₀, hcopy⟩ := hms m (List.mem_cons_self ..)
    obtain ⟨b, tail, hbt⟩ := hdata hm₀ hcopy
    cases ms' with
    | nil => simp [hbt] at h
    | cons m' ms' =>
      obtain ⟨m₀', hm₀', hcopy'⟩ := hms' m' (List.mem_cons_self ..)
      obtain ⟨b', tail', hbt'⟩ := hdata hm₀' hcopy'
      have hid : m.id = m'.id := by
        simp only [List.flatMap_cons, hbt, hbt', List.cons_append, List.append_assoc,
          List.cons.injEq] at h
        have hread := congrArg readU16 h.2
        rw [readU16_writeU16, readU16_writeU16] at hread
        exact congrArg Prod.fst (Option.some.inj hread)
      obtain rfl : m₀ = m₀' :=
        hnum.eq_of_id hlen hm₀ hm₀' (hcopy.same.1.symm.trans (hid.trans hcopy'.same.1))
      have hsame : m.buffer.data = m'.buffer.data := hcopy.same.2.2.2.trans hcopy'.same.2.2.2.symm
      rw [List.flatMap_cons, List.flatMap_cons, hsame] at h
      rw [List.map_cons, List.map_cons, hid, ih (fun x hx => hms x (List.mem_cons_of_mem _ hx))
        (fun x hx => hms' x (List.mem_cons_of_mem _ hx)) (List.append_cancel_left h)]

/-- The messages of a send. -/
theorem sent_of_sendBlock {parent : MessageId} {channel : UInt8} {payload : List UInt8}
    {ms : List Message} (hchan : channel = 0 ∨ channel = 1)
    (h : SendBlock parent channel payload ms) {m : Message} (hm : m ∈ ms) : m.Sent := by
  obtain ⟨hc, henc⟩ := Endpoint.sendBlock_mem h hm
  refine ⟨hc ▸ hchan, henc, fun f hf => ?_⟩
  rw [SendBlock] at h
  split at h
  · obtain ⟨m', rfl, -, -, hnone, -⟩ := h
    rw [List.mem_singleton.mp hm, hnone] at hf
    cases hf
  · obtain ⟨i, hi⟩ := List.mem_iff_getElem?.mp hm
    obtain ⟨hid, -, hfrag, -⟩ := h.2 i m hi
    rw [hfrag] at hf
    cases hf
    rw [hid]
    simp

/-! ### Packets on record -/

namespace Endpoint

/-- What is put into a packet is taken from the queue of its channel. -/
theorem Emits.exists_mem_queuedOn {p p' : Endpoint} {e : Emission}
    (hintact : p.Intact) (hemits : p.Emits e p')
    {m : Message} (hm : m ∈ e.messages) : ∃ m₀ ∈ p.queuedOn m.channel, m.Copies m₀ := by
  obtain ⟨ch, hch, m₀, hm₀, hcopy⟩ := hemits.held m hm
  have hcopy : m.Copies m₀ := hcopy
  have hid : m.channel = ch.id :=
    hcopy.same.2.1.trans ((hintact.channels.sound ch hch).queued m₀ hm₀).1
  refine ⟨m₀, ?_, hcopy⟩
  rw [queuedOn, hid, ChannelList.get?_of_mem hintact.channels.ids hch]
  exact hm₀

/-- The endpoint after `queued` were queued, `n` packet ids used up, and the packets in `log`
composed, each listed with its number. -/
structure Logged (queued : List Message) (n : ℕ) (log : List (ℕ × Emission)) (p : Endpoint) :
    Prop where
  intact : p.Intact
  nextMessageId : p.dispatcher.nextMessageId = UInt16.ofNat queued.length
  numbered : Numbered 0 queued
  sent : ∀ m ∈ queued, m.Sent
  sequenceId : p.sequenceId = UInt16.ofNat n
  numbers : (log.map Prod.fst).Pairwise (· < ·)
  range : ∀ x ∈ log, 1 ≤ x.1 ∧ x.1 ≤ n
  read : ∀ x ∈ log, ∃ header, readPacket x.2.bytes
    = .ok (.messages header x.2.salt, x.2.messages.flatMap fun m => m.buffer.data) ∧
      header.packetType = .messages ∧ header.id = UInt16.ofNat x.1
  header_id : ∀ x ∈ log, x.2.header.id = UInt16.ofNat x.1
  newest : p.sentBuffer.sequence.toNat ≤ n
  copies : ∀ x ∈ log, ∀ m ∈ x.2.messages, ∃ m₀ ∈ queued, m.Copies m₀
  held : ∀ ch ∈ p.channels, ∀ m ∈ ch.queued, m ∈ queued

namespace Logged

variable {queued : List Message} {n : ℕ} {log : List (ℕ × Emission)} {p p' : Endpoint}

theorem new (overflowChecks : Bool) (time : Time) :
    Logged [] 0 [] (Endpoint.new overflowChecks .default time) where
  intact := intact_new overflowChecks time
  nextMessageId := rfl
  numbered := trivial
  sent := by simp
  sequenceId := rfl
  numbers := .nil
  range := by simp
  read := by simp
  header_id := by simp
  newest := le_rfl
  copies := by simp
  held := by
    intro ch hch m hm
    rcases List.mem_pair.mp hch with rfl | rfl <;> cases hm

/-- A step that neither queues nor numbers anything. -/
theorem transfer (h : Logged queued n log p) (hintact : p'.Intact)
    (hnext : p'.dispatcher.nextMessageId = p.dispatcher.nextMessageId)
    (hseq : p'.sequenceId = p.sequenceId) (hnewest : p'.sentBuffer.sequence = p.sentBuffer.sequence)
    (hheld : ∀ ch ∈ p'.channels, ∀ m ∈ ch.queued, m ∈ queued) : Logged queued n log p' :=
  ⟨hintact, hnext.trans h.nextMessageId, h.numbered, h.sent, hseq.trans h.sequenceId,
    h.numbers, h.range, h.read, h.header_id, hnewest ▸ h.newest, h.copies, hheld⟩

/-- A step that uses up a packet id without a packet of messages. -/
theorem skip (h : Logged queued n log p) (hintact : p'.Intact)
    (hnext : p'.dispatcher.nextMessageId = p.dispatcher.nextMessageId)
    (hseq : p'.sequenceId = p.sequenceId + 1) (hnewest : p'.sentBuffer.sequence.toNat ≤ n + 1)
    (hchannels : p'.channels = p.channels) : Logged queued (n + 1) log p' where
  intact := hintact
  nextMessageId := hnext.trans h.nextMessageId
  numbered := h.numbered
  sent := h.sent
  sequenceId := by rw [hseq, h.sequenceId, UInt16.ofNat_add]; rfl
  numbers := h.numbers
  range := fun x hx => ⟨(h.range x hx).1, (h.range x hx).2.trans n.le_succ⟩
  read := h.read
  header_id := h.header_id
  newest := hnewest
  copies := h.copies
  held := by
    rw [hchannels]
    exact h.held

theorem newest_insert {b b' : SequenceBuffer SentMeta} {v : SentMeta} (hb : b.sequence.toNat ≤ n)
    (h : b.insert (UInt16.ofNat (n + 1)) v = .ok b') : b'.sequence.toNat ≤ n + 1 := by
  rw [SequenceBuffer.sequence_insert h]
  split
  · rw [UInt16.toNat_ofNat']
    exact Nat.mod_le _ _
  · omega

/-- **A packet of messages** is entered under the next number. -/
theorem emits (h : Logged queued n log p) {e : Emission} (hemits : p.Emits e p') :
    Logged queued (n + 1) (log ++ [(n + 1, e)]) p' := by
  have hnum : p.sequenceId + 1 = UInt16.ofNat (n + 1) := by
    rw [h.sequenceId, UInt16.ofNat_add]
    rfl
  exact {
    intact := h.intact.emits hemits
    nextMessageId := by
      rw [hemits.rest]
      exact h.nextMessageId
    numbered := h.numbered
    sent := h.sent
    sequenceId := hemits.sequenceId.trans hnum
    numbers := by
      rw [List.map_append, List.pairwise_append]
      refine ⟨h.numbers, List.pairwise_singleton _ _, ?_⟩
      intro k hk k' hk'
      obtain ⟨x, hx, rfl⟩ := List.mem_map.mp hk
      obtain rfl : k' = n + 1 := by simpa using hk'
      exact Nat.lt_succ_of_le (h.range x hx).2
    range := by
      intro x hx
      rcases List.mem_append.mp hx with hx | hx
      · exact ⟨(h.range x hx).1, (h.range x hx).2.trans n.le_succ⟩
      · rw [List.mem_singleton.mp hx]
        exact ⟨n.succ_pos, le_rfl⟩
    read := by
      intro x hx
      rcases List.mem_append.mp hx with hx | hx
      · exact h.read x hx
      · rw [List.mem_singleton.mp hx]
        obtain ⟨header, hread, htype, hid, -⟩ :=
          readPacket_messages hemits.numAcks hemits.header e.salt
          (e.messages.flatMap fun m => m.buffer.data)
        exact ⟨header, hread, htype, hid.trans hnum⟩
    header_id := by
      intro x hx
      rcases List.mem_append.mp hx with hx | hx
      · exact h.header_id x hx
      · rw [List.mem_singleton.mp hx]
        exact hemits.header_id.trans hnum
    newest := by
      obtain ⟨size, hsent⟩ := hemits.sent
      exact newest_insert h.newest (hnum ▸ hsent)
    copies := by
      intro x hx m hm
      rcases List.mem_append.mp hx with hx | hx
      · exact h.copies x hx m hm
      · rw [List.mem_singleton.mp hx] at hm
        obtain ⟨ch, hch, m₀, hm₀, hcopy⟩ := hemits.held m hm
        exact ⟨m₀, h.held ch hch m₀ hm₀, hcopy⟩
    held := by
      intro ch hch m hm
      obtain ⟨c, hc, hshrinks⟩ := exists_of_forall₂_mem hemits.shrinks hch
      exact h.held c hc m (hshrinks.queued m hm) }

/-- **A send** adds its messages to the record. -/
theorem queue (h : Logged queued n log p) {channel : UInt8} {payload : List UInt8}
    {ms : List Message}
    {ch : Channel} (hch : p.channels.get? channel = some ch) (hintact : p'.Intact)
    (hblock : SendBlock p.dispatcher.nextMessageId channel payload ms)
    (hnext : p'.dispatcher.nextMessageId = p.dispatcher.nextMessageId + UInt16.ofNat ms.length)
    (hseq : p'.sequenceId = p.sequenceId) (hnewest : p'.sentBuffer = p.sentBuffer)
    (hchannels : p'.channels = p.channels.set channel (ch.pushAll ms)) :
    Logged (queued ++ ms) n log p' where
  intact := hintact
  nextMessageId := by rw [hnext, h.nextMessageId, List.length_append, UInt16.ofNat_add]
  numbered := by
    rw [numbered_append, Nat.zero_add]
    exact ⟨h.numbered, numbered_of_sendBlock (h.nextMessageId ▸ hblock)⟩
  sent := by
    intro m hm
    rcases List.mem_append.mp hm with hm | hm
    · exact h.sent m hm
    · exact sent_of_sendBlock (h.intact.configured.channel_eq hch) hblock hm
  sequenceId := hseq.trans h.sequenceId
  numbers := h.numbers
  range := h.range
  read := h.read
  header_id := h.header_id
  newest := hnewest ▸ h.newest
  copies := by
    intro x hx m hm
    obtain ⟨m₀, hm₀, hcopy⟩ := h.copies x hx m hm
    exact ⟨m₀, List.mem_append_left _ hm₀, hcopy⟩
  held := by
    intro c hc m hm
    rw [hchannels] at hc
    rcases ChannelList.mem_set hc with rfl | ⟨hc, -⟩
    · rw [Channel.queued_pushAll] at hm
      rcases List.mem_append.mp hm with hm | hm
      · exact List.mem_append_left _ (h.held ch (ChannelList.mem_of_get? hch) m hm)
      · exact List.mem_append_right _ hm
    · exact List.mem_append_left _ (h.held c hc m hm)

/-- A packet on record is known by its number. -/
theorem eq_of_number (h : Logged queued n log p) {x x' : ℕ × Emission}
    (hx : x ∈ log) (hx' : x' ∈ log)
    (heq : x.1 = x'.1) : x = x' :=
  List.inj_on_of_nodup_map (h.numbers.imp Nat.ne_of_lt) hx hx' heq

theorem failedHeaders_lt (h : Logged queued n log p) (hn : n < 32767) :
    p.failedHeaders < 32767 := by
  have hle := h.newest
  rw [failedHeaders, h.sequenceId, UInt16.toNat_sub, UInt16.toNat_ofNat']
  omega

/-- The bytes of a packet on record determine its id and the messages in it. -/
theorem carries_iff {j : Journal} (h : Logged j.queued n log p) (hlen : j.queued.length ≤ 65536)
    {x : ℕ × Emission} (hx : x ∈ log) {id : PacketId} {m : Message} (hm : m ∈ j.queued) :
    j.Carries x.2.bytes id m ↔ id = UInt16.ofNat x.1 ∧ m.id ∈ x.2.messages.map Message.id := by
  obtain ⟨header, hread, -, hid⟩ := h.read x hx
  constructor
  · rintro ⟨header', salt, payload, ms, hread', rfl, hms, rfl, hmem⟩
    rw [hread] at hread'
    have heq := Except.ok.inj hread'
    simp only [Prod.mk.injEq, ProtocolPacket.messages.injEq] at heq
    obtain ⟨⟨rfl, -⟩, hbytes⟩ := heq
    refine ⟨hid, ?_⟩
    rw [map_id_of_flatMap_eq h.numbered hlen h.sent (h.copies x hx)
      (fun y hy => ⟨y, hms y hy, Or.inl rfl⟩) hbytes]
    exact List.mem_map_of_mem hmem
  · rintro ⟨rfl, hmem⟩
    obtain ⟨ms₀, hms₀, hcopies⟩ := exists_originals (h.copies x hx)
    have hids := hcopies.map_eq fun hc => hc.same.1
    have hdata := congrArg List.flatten (hcopies.map_eq fun hc => hc.same.2.2.2)
    rw [← List.flatMap_def, ← List.flatMap_def] at hdata
    refine ⟨header, x.2.salt, _, ms₀, hread, hid, hms₀, hdata, ?_⟩
    rw [hids] at hmem
    obtain ⟨m', hm', hmid⟩ := List.mem_map.mp hmem
    rwa [h.numbered.eq_of_id hlen hm (hms₀ m' hm') hmid.symm]

end Logged

end Endpoint

/-! ### What a call does -/

/-- Whether the channel is a `ReliableChannel`. -/
def Channel.isReliable : Channel → Bool
  | .unreliable _ => false
  | .reliable _ => true

/-- The channels are of one kind and hold the same messages for sending. -/
structure Channel.SameQueue (ch ch' : Channel) : Prop where
  id : ch'.id = ch.id
  queued : ch'.queued = ch.queued
  isReliable : ch'.isReliable = ch.isReliable

theorem Channel.SameQueue.refl (ch : Channel) : ch.SameQueue ch := ⟨rfl, rfl, rfl⟩

theorem Channel.sameQueue_update (ch : Channel) (dt : Time) : ch.SameQueue (ch.update dt) := by
  cases ch <;> exact ⟨rfl, rfl, rfl⟩

theorem Channel.sameQueue_acceptsMessage (ch : Channel) (id : MessageId) :
    ch.SameQueue (ch.acceptsMessage id).2 := by
  cases ch <;> exact ⟨rfl, rfl, rfl⟩

namespace Endpoint

/-- The endpoints differ in nothing that matters for what is sent. -/
structure SameSending (p p' : Endpoint) : Prop where
  intact : p.Intact → p'.Intact
  channels : List.Forall₂ Channel.SameQueue p.channels p'.channels
  nextMessageId : p'.dispatcher.nextMessageId = p.dispatcher.nextMessageId
  messagesInPackets : p'.dispatcher.messagesInPackets = p.dispatcher.messagesInPackets
  sentBuffer : p'.sentBuffer = p.sentBuffer
  sequenceId : p'.sequenceId = p.sequenceId

theorem sameQueue_update (p : Endpoint) (dt : Time) :
    List.Forall₂ Channel.SameQueue p.channels (p.update dt).channels :=
  List.forall₂_map_right_iff.mpr (List.forall₂_same.mpr fun ch _ => ch.sameQueue_update dt)

theorem sameSending_of_channels {p p' : Endpoint} (hintact : p.Intact → p'.Intact)
    (hchannels : p'.channels = p.channels)
    (hnext : p'.dispatcher.nextMessageId = p.dispatcher.nextMessageId)
    (hmip : p'.dispatcher.messagesInPackets = p.dispatcher.messagesInPackets)
    (hsent : p'.sentBuffer = p.sentBuffer) (hseq : p'.sequenceId = p.sequenceId) :
    p.SameSending p' :=
  ⟨hintact, hchannels ▸ List.forall₂_same.mpr fun ch _ => .refl ch, hnext, hmip, hsent, hseq⟩

theorem SameCore.sameSending {p p' : Endpoint} (h : p.SameCore p') : p.SameSending p' := by
  refine sameSending_of_channels (fun hp => hp.sameCore h) ?_ ?_ ?_ ?_ ?_ <;> rw [h]

/-- **What one call can do** to the sending side of an endpoint, the packets it composes, and how
many packet ids it uses up. -/
inductive Did (p : Endpoint) : Endpoint → List Send → List Emission → ℕ → Prop
  | quiet {p' : Endpoint} (h : p.SameSending p') : Did p p' [] [] 0
  | queued {p' : Endpoint} {channel : UInt8} {payload : List UInt8}
    {ms : List Message} {ch : Channel}
    {res : Except PicklebackError MessageId}
    (hch : p.channels.get? channel = some ch) (hintact : p'.Intact)
    (hlen : payload.length ≤ 1024 * 1024)
      (hblock : SendBlock p.dispatcher.nextMessageId channel payload ms)
    (hrec : p.dispatcher.Records payload ms res p'.dispatcher)
    (hp : p' = { p with
      stats := p'.stats
      dispatcher := p'.dispatcher
      channels := p.channels.set channel (ch.pushAll ms)
      pool := p'.pool }) : Did p p' [⟨channel, payload, ms⟩] [] 0
  | composed {p₁ p' : Endpoint} {es : List Emission} (hall : p.EmitsAll es p₁)
    (h : p₁.SameSending p') :
    Did p p' [] es es.length
  | blocked {p₁ p' : Endpoint} {es : List Emission} (hall : p.EmitsAll es p₁)
    (h : SameSending { p₁ with sequenceId := p₁.sequenceId + 1 } p') :
      Did p p' [] es (es.length + 1)
  | control {p₁ p' : Endpoint} {sentMeta : SentMeta} (hnew : sentMeta.acked = false)
    (hsent : p.sentBuffer.insert (p.sequenceId + 1) sentMeta = .ok p₁.sentBuffer)
    (h : SameSending { p with sequenceId := p.sequenceId + 1, sentBuffer := p₁.sentBuffer } p') :
    Did p p' [] [] 1
  | received {p' : Endpoint} {header : ProtocolPacketHeader} {payload : List UInt8}
    {r : Except PicklebackError Unit}
      (hcall : p.processIncomingPacket header payload = .ok (p', r)) :
    Did p p' [] [] 0

/-! ### Inverting a call -/

variable {p p' : Endpoint}

theorem queuedOn_of_channels (h : p'.channels = p.channels) (channel : UInt8) :
    p'.queuedOn channel = p.queuedOn channel := by
  rw [queuedOn, queuedOn, h]

theorem SendBlock_ne_nil {parent : MessageId} {channel : UInt8}
    {payload : List UInt8} {ms : List Message}
    (h : SendBlock parent channel payload ms) : ms ≠ [] := by
  rw [SendBlock] at h
  split at h
  · obtain ⟨m, rfl, -⟩ := h
    simp
  · next hlarge =>
    have hpos : 0 < numFragments payload := lt_numFragments_iff.mpr (by omega)
    exact List.ne_nil_of_length_pos (h.1 ▸ hpos)

/-- A call of `send_message` is put on record if it has queued something. -/
theorem sendsOf_sendMessage (hintact : p.Intact) {channel : UInt8} {payload : List UInt8}
    {res : Except PicklebackError MessageId}
    (hcall : p.sendMessage channel payload = .ok (p', res)) :
    (Journal.sendsOf p p' (.sendMessage channel payload) = [] ∧ p' = { p with stats := p'.stats }) ∨
      ∃ ch ms, Journal.sendsOf p p' (.sendMessage channel payload) = [⟨channel, payload, ms⟩] ∧
        payload.length ≤ 1024 * 1024 ∧ p.channels.get? channel = some ch ∧
        SendBlock p.dispatcher.nextMessageId channel payload ms ∧
        p.dispatcher.Records payload ms res p'.dispatcher ∧
        p' = { p with
          stats := p'.stats
          dispatcher := p'.dispatcher
          channels := p.channels.set channel (ch.pushAll ms)
          pool := p'.pool } := by
  obtain ⟨-, hp⟩ | ⟨ch, ms, hlen, hch, hblock, hrec, hp⟩ :=
    sendMessage_cases hintact.maxMessageSize.le hcall
  · have hchannels : p'.channels = p.channels := by rw [hp]
    refine Or.inl ⟨?_, hp⟩
    simp only [Journal.sendsOf, queuedOn_of_channels hchannels, List.drop_length]
  · have hid : (ch.pushAll ms).id = channel := by
      rw [Channel.id_pushAll]
      exact ChannelList.id_of_get? hch
    have hget : p'.queuedOn channel = p.queuedOn channel ++ ms := by
      rw [queuedOn, queuedOn, hp, hch]
      simp only [ChannelList.get?_set_self hch hid, Option.elim_some, Channel.queued_pushAll]
    obtain ⟨m, rest, rfl⟩ := List.exists_cons_of_ne_nil (SendBlock_ne_nil hblock)
    refine Or.inr ⟨ch, m :: rest, ?_, hlen, hch, hblock, hrec, hp⟩
    simp only [Journal.sendsOf, hget, List.drop_left]

theorem did_sendMessage (hintact : p.Intact) {channel : UInt8} {payload : List UInt8}
    {res : Except PicklebackError MessageId}
    (hcall : p.sendMessage channel payload = .ok (p', res)) :
    p.Did p' (Journal.sendsOf p p' (.sendMessage channel payload)) [] 0 := by
  have hintact' := hintact.sendMessage hcall
  obtain ⟨hsends, hp⟩ | ⟨ch, ms, hsends, hlen, hch, hblock, hrec, hp⟩ :=
    sendsOf_sendMessage hintact hcall
  · rw [hsends]
    refine .quiet (sameSending_of_channels (fun _ => hintact') ?_ ?_ ?_ ?_ ?_) <;> rw [hp]
  · rw [hsends]
    exact .queued hch hintact' hlen hblock hrec hp

theorem did_visitPacketsToSend (hintact : p.Intact) {packets : List (List UInt8)}
    (hcall : p.visitPacketsToSend = .ok (p', packets)) :
    ∃ es n, p.Did p' [] es n ∧ packets.drop p.outbox.length = es.map Emission.bytes ∧
      p'.sequenceId = p.sequenceId + UInt16.ofNat n ∧ (p.failedHeaders < 32767 → n ≤ 352) := by
  have hintact' := hintact.visitPacketsToSend hcall
  obtain ⟨es, p₁, p₂, r, hall, -, hstop, hp', hpackets⟩ := visitPacketsToSend_cases hintact hcall
  have hfew (hfailed : p.failedHeaders < 32767) : es.length ≤ 351 := by
    have := hall.length_le hfailed
    omega
  have hdrop : packets.drop p.outbox.length = es.map Emission.bytes := by
    rw [hpackets, hstop.outbox, hall.outbox]
    exact List.drop_left' (by simp)
  have hplain : p₂ = p₁ → ∃ es n, p.Did p' [] es n ∧
    packets.drop p.outbox.length = es.map Emission.bytes ∧
      p'.sequenceId = p.sequenceId + UInt16.ofNat n ∧ (p.failedHeaders < 32767 → n ≤ 352) := by
    rintro rfl
    refine ⟨es, es.length, .composed hall ?_, hdrop, ?_, fun hfailed =>
      (hfew hfailed).trans (by omega)⟩
    · refine sameSending_of_channels (fun _ => hintact') ?_ ?_ ?_ ?_ ?_ <;> rw [hp']
    · rw [hp']
      exact hall.sequenceId
  cases hstop with
  | done _ => exact hplain rfl
  | unacked _ => exact hplain rfl
  | acks pool _ =>
    refine ⟨es, es.length + 1, .blocked hall ?_, hdrop, ?_, fun hfailed =>
      Nat.succ_le_succ (hfew hfailed)⟩
    · refine sameSending_of_channels (fun _ => hintact') ?_ ?_ ?_ ?_ ?_ <;> rw [hp']
    · rw [hp', UInt16.ofNat_add, ← UInt16.add_assoc, ← hall.sequenceId]
      rfl

theorem did_sendControl (hintact : p.Intact) {packetType : PacketType}
    {build : ProtocolPacketHeader → ProtocolPacket} {r : Except PicklebackError Unit}
    (hcall : p.sendControl packetType build = .ok (p', r)) : p.Did p' [] [] 1 := by
  have hintact' := hintact.sendControl hcall
  obtain ⟨-, hp⟩ | ⟨p₁, header, pool, buf, size, sb, -, -, -, hsent, hp⟩ := sendControl_cases hcall
  · refine .blocked (.nil p) (sameSending_of_channels (fun _ => hintact') ?_ ?_ ?_ ?_ ?_)
      <;> rw [hp]
  · have hsb : p'.sentBuffer = sb := by rw [hp]
    refine .control rfl (hsb ▸ hsent)
      (sameSending_of_channels (fun _ => hintact') ?_ ?_ ?_ rfl ?_) <;> rw [hp]

end Endpoint

theorem Endpoint.Intact.sequenceId {p : Endpoint} (h : p.Intact) (id : UInt16) :
    Endpoint.Intact { p with sequenceId := id } :=
  ⟨h.config, h.channels, h.ids, h.sentLen, h.receivedLen, h.handlesLen, h.fragLen⟩

theorem Endpoint.Intact.sentBuffer {p : Endpoint} (h : p.Intact) {b : SequenceBuffer SentMeta}
    {id : PacketId} {v : SentMeta} (hb : p.sentBuffer.insert id v = .ok b) :
    Endpoint.Intact { p with sentBuffer := b } :=
  ⟨h.config, h.channels, h.ids, (SequenceBuffer.len_insert hb).trans h.sentLen, h.receivedLen,
    h.handlesLen, h.fragLen⟩

namespace Endpoint.Logged

variable {queued : List Message} {n : ℕ} {log : List (ℕ × Emission)} {p p' : Endpoint}

theorem held_of_sameQueue {cs cs' : ChannelList} (h : List.Forall₂ Channel.SameQueue cs cs')
    (hheld : ∀ ch ∈ cs, ∀ m ∈ ch.queued, m ∈ queued) : ∀ ch ∈ cs', ∀ m ∈ ch.queued, m ∈ queued := by
  induction h with
  | nil => simp
  | @cons c c' cs cs' hc _ ih =>
    intro ch hch m hm
    rcases List.mem_cons.mp hch with rfl | hch
    · exact hheld c (List.mem_cons_self ..) m (hc.queued ▸ hm)
    · exact ih (fun d hd => hheld d (List.mem_cons_of_mem _ hd)) ch hch m hm

theorem sameSending (h : Logged queued n log p) (hsame : p.SameSending p') :
    Logged queued n log p' :=
  h.transfer (hsame.intact h.intact) hsame.nextMessageId hsame.sequenceId
    (congrArg SequenceBuffer.sequence hsame.sentBuffer) (held_of_sameQueue hsame.channels h.held)

theorem emitsAll {es : List Emission} (h : Logged queued n log p) (hall : p.EmitsAll es p') :
    ∃ log', Logged queued (n + es.length) (log ++ log') p' ∧ log'.map Prod.snd = es := by
  induction hall generalizing n log with
  | nil p => exact ⟨[], by simpa using h, rfl⟩
  | @cons p p₁ p' e es hemits _ ih =>
    obtain ⟨log', hlogged, rfl⟩ := ih (h.emits hemits)
    refine ⟨(n + 1, e) :: log', ?_, rfl⟩
    rw [List.length_cons, show n + (log'.map Prod.snd).length.succ =
      n + 1 + (log'.map Prod.snd).length by
      omega]
    simpa using hlogged

theorem processAck (h : Logged queued n log p) {packetType : PacketType} {ack : UInt16 × Bool}
    (hcall : p.processAck packetType ack = .ok p') : Logged queued n log p' := by
  have hintact := h.intact.processAck hcall
  obtain rfl | ⟨_, _, d, channels, -, -, hd, hp'⟩ := processAck_cases hcall
  · exact h
  · obtain ⟨hsame, -, hshrinks⟩ := MessageDispatcher.ackedPacket_eq_ok h.intact.channels hd
    refine h.transfer hintact ?_ ?_ ?_ ?_
    · rw [hp']
      exact hsame.nextMessageId
    · rw [hp']
    · rw [hp']
      rfl
    · intro ch hch m hm
      rw [hp'] at hch
      obtain ⟨c, hc, hcs⟩ := exists_of_forall₂_mem hshrinks hch
      exact h.held c hc m (hcs.queued m hm)

end Endpoint.Logged

/-- Offering a message to its channel leaves the sending side alone. -/
theorem Endpoint.sameSending_receiveMessage {p p' : Endpoint} (h : p.Intact) {m : Message}
    (hcall : p.receiveMessage m = .ok p') : p.SameSending p' := by
  have hintact : p.Intact → p'.Intact := fun h' => h'.receiveMessage hcall
  simp only [receiveMessage] at hcall
  split at hcall
  · cases hcall
    exact sameSending_of_channels hintact rfl rfl rfl rfl rfl
  · next ch hch =>
    have hid : ch.id = m.channel := ChannelList.id_of_get? hch
    have hset : List.Forall₂ Channel.SameQueue p.channels
        (p.channels.set m.channel (ch.acceptsMessage m.id).2) := by
      rw [← hid]
      exact ChannelList.forall₂_set h.channels.ids (fun c _ => .refl c)
        (ChannelList.mem_of_get? hch)
        (ch.sameQueue_acceptsMessage m.id)
    split at hcall
    · obtain ⟨d, hd, rfl⟩ := exists_of_map_eq_ok hcall
      have hsame := MessageDispatcher.processReceivedMessage_eq_ok hd
      exact ⟨hintact, hset, by rw [hsame], by rw [hsame], rfl, rfl⟩
    · cases hcall
      exact ⟨hintact, hset, rfl, rfl, rfl, rfl⟩

/-- **The record after a call.** -/
theorem Endpoint.Logged.did {queued : List Message} {n k : ℕ} {log : List (ℕ × Emission)}
    {p p' : Endpoint} {sends : List Send} {es : List Emission} (h : Logged queued n log p)
    (hdid : p.Did p' sends es k) :
    ∃ log', Logged (queued ++ sends.flatMap Send.messages) (n + k) (log ++ log') p' ∧
      log'.map Prod.snd = es := by
  cases hdid with
  | quiet hsame => exact ⟨[], by simpa using h.sameSending hsame, rfl⟩
  | queued hch hintact _ hblock hrec hp =>
    refine ⟨[], ?_, rfl⟩
    have hqueue := h.queue hch hintact hblock hrec.nextMessageId
      (by rw [hp]) (by rw [hp]) (by rw [hp])
    simpa using hqueue
  | composed hall hsame =>
    obtain ⟨log', hlogged, hes⟩ := h.emitsAll hall
    exact ⟨log', by simpa using hlogged.sameSending hsame, hes⟩
  | @blocked p₁ p' es hall hsame =>
    obtain ⟨log', hlogged, hes⟩ := h.emitsAll hall
    have hskip : Logged queued (n + es.length + 1) (log ++ log')
        { p₁ with sequenceId := p₁.sequenceId + 1 } :=
      hlogged.skip (hlogged.intact.sequenceId _) rfl rfl (hlogged.newest.trans (by omega)) rfl
    exact ⟨log', by simpa [Nat.add_assoc] using hskip.sameSending hsame, hes⟩
  | @control p₁ p' sentMeta _ hsent hsame =>
    have hnum : p.sequenceId + 1 = UInt16.ofNat (n + 1) := by
      rw [h.sequenceId, UInt16.ofNat_add]
      rfl
    have hskip : Logged queued (n + 1) log
        { p with sequenceId := p.sequenceId + 1, sentBuffer := p₁.sentBuffer } :=
      h.skip ((h.intact.sentBuffer hsent).sequenceId _) rfl rfl
        (newest_insert h.newest (hnum ▸ hsent)) rfl
    exact ⟨[], by simpa using hskip.sameSending hsame, rfl⟩
  | received hcall =>
    refine ⟨[], ?_, rfl⟩
    have hlogged : Logged queued n log p' := by
      refine processIncomingPacket_induct (I := Logged queued n log) ?_ ?_ ?_ ?_ h hcall
      · intro q q' hq hsame
        exact hq.sameSending hsame.sameSending
      · intro q b id m hq hb
        exact hq.transfer (hq.intact.receivedBuffer hb) rfl rfl rfl hq.held
      · intro q q' packetType ack hq hack
        exact hq.processAck hack
      · intro q q' m hq hm
        exact hq.sameSending (sameSending_receiveMessage hq.intact hm)
    simpa using hlogged

/-- **Inverting a call.** -/
theorem Endpoint.step_did {p p' : Endpoint} {c : Call} (hintact : p.Intact)
    (hstep : p.step c = .ok p') :
    ∃ es n, p.Did p' (Journal.sendsOf p p' c) es n ∧ Journal.packetsOf p c = es.map Emission.bytes ∧
      p'.sequenceId = p.sequenceId + UInt16.ofNat n ∧ (p.failedHeaders < 32767 → n ≤ 352) := by
  have hquiet : p.SameSending p' → p.Did p' [] [] 0 ∧
    p'.sequenceId = p.sequenceId + UInt16.ofNat 0 :=
    fun hsame => ⟨.quiet hsame, hsame.sequenceId.trans (UInt16.add_zero _).symm⟩
  cases c with
  | setXorSalt salt =>
    have hdid := hquiet (sameSending_of_channels (fun h => h.step hstep)
      (by cases hstep; rfl) (by cases hstep; rfl) (by cases hstep; rfl)
        (by cases hstep; rfl) (by cases hstep; rfl))
    exact ⟨[], 0, hdid.1, rfl, hdid.2, fun _ => by omega⟩
  | update dt =>
    cases hstep
    have hdid := hquiet ⟨fun h => h.update dt, p.sameQueue_update dt, rfl, rfl, rfl, rfl⟩
    exact ⟨[], 0, hdid.1, rfl, hdid.2, fun _ => by omega⟩
  | drainReceivedMessages channel =>
    have hdid := hquiet (sameSending_of_channels (fun h => h.step hstep)
      (by cases hstep; rfl) (by cases hstep; rfl) (by cases hstep; rfl)
        (by cases hstep; rfl) (by cases hstep; rfl))
    exact ⟨[], 0, hdid.1, rfl, hdid.2, fun _ => by omega⟩
  | drainMessageAcks channel =>
    have hdid := hquiet (sameSending_of_channels (fun h => h.step hstep)
      (by cases hstep; rfl) (by cases hstep; rfl) (by cases hstep; rfl)
        (by cases hstep; rfl) (by cases hstep; rfl))
    exact ⟨[], 0, hdid.1, rfl, hdid.2, fun _ => by omega⟩
  | sendMessage channel payload =>
    obtain ⟨⟨p₁, res⟩, hcall, rfl⟩ := exists_of_map_eq_ok hstep
    refine ⟨[], 0, did_sendMessage hintact hcall, rfl, ?_, fun _ => by omega⟩
    obtain ⟨-, hp₁⟩ | ⟨ch, ms, -, -, -, -, hp₁⟩ :=
      sendMessage_cases hintact.maxMessageSize.le hcall <;>
    · rw [hp₁]
      exact (UInt16.add_zero _).symm
  | visitPacketsToSend =>
    obtain ⟨⟨p₁, packets⟩, hcall, rfl⟩ := exists_of_map_eq_ok hstep
    obtain ⟨es, n, hdid, hpackets, hseq, hn⟩ := did_visitPacketsToSend hintact hcall
    exact ⟨es, n, hdid, by simp only [Journal.packetsOf, hcall, hpackets], hseq, hn⟩
  | sendControl packetType build =>
    obtain ⟨⟨p₁, r⟩, hcall, rfl⟩ := exists_of_map_eq_ok hstep
    refine ⟨[], 1, did_sendControl hintact hcall, rfl, ?_, fun _ => by omega⟩
    obtain ⟨-, hp₁⟩ | ⟨_, _, _, _, _, _, -, -, -, -, hp₁⟩ := sendControl_cases hcall <;>
    · rw [hp₁]
      rfl
  | processIncomingPacket header payload =>
    obtain ⟨⟨p₁, r⟩, hcall, rfl⟩ := exists_of_map_eq_ok hstep
    refine ⟨[], 0, .received hcall, rfl, ?_, fun _ => by omega⟩
    exact (sameSetup_processIncomingPacket hcall).sequenceId.trans (UInt16.add_zero _).symm

namespace Journal

/-- A call on record. -/
theorem step_did {j j' : Journal} {c : Endpoint.Call} (hintact : j.endpoint.Intact)
    (hfailed : j.endpoint.failedHeaders < 32767) (hstep : j.step c = .ok j') :
    ∃ sends es n, j.endpoint.Did j'.endpoint sends es n ∧ j'.sends = j.sends ++ sends ∧
      j'.packets = j.packets ++ es.map Emission.bytes ∧ j'.packetIds = j.packetIds + n ∧
      j'.acked = j.acked ∪ j'.endpoint.ackedIds := by
  obtain ⟨p, hp, rfl⟩ := exists_of_map_eq_ok hstep
  obtain ⟨es, n, hdid, hpackets, hseq, hfew⟩ := Endpoint.step_did hintact hp
  have hn := hfew hfailed
  refine ⟨_, es, n, hdid, rfl, congrArg _ hpackets, ?_, rfl⟩
  show j.packetIds + (p.sequenceId - j.endpoint.sequenceId).toNat = j.packetIds + n
  rw [hseq, UInt16.add_comm, UInt16.add_sub_cancel, UInt16.toNat_ofNat',
    Nat.mod_eq_of_lt (by omega)]

end Journal

/-- The record of a journal is a true account. -/
structure Journal.Truthful (j : Journal) (log : List (ℕ × Emission)) : Prop where
  logged : Endpoint.Logged j.queued j.packetIds log j.endpoint
  packets : j.packets = log.map fun x => x.2.bytes
  sends : ∀ s ∈ j.sends, s.payload.length ≤ 1024 * 1024 ∧
    ∃ parent, SendBlock parent s.channel s.payload s.messages

namespace Journal

theorem truthful_start (overflowChecks : Bool) (time : Time) :
    (start overflowChecks time).Truthful [] where
  logged := .new overflowChecks time
  packets := rfl
  sends := by simp [start]

/-- **One call** leaves the record a true account. -/
theorem Truthful.step {j j' : Journal} {log : List (ℕ × Emission)} {c : Endpoint.Call}
    (h : j.Truthful log) (hids : j.packetIds < 32767) (hstep : j.step c = .ok j') :
    ∃ log', j'.Truthful (log ++ log') := by
  obtain ⟨sends, es, n, hdid, hsends, hpackets, hnum, -⟩ :=
    step_did h.logged.intact (h.logged.failedHeaders_lt hids) hstep
  obtain ⟨log', hlogged, hes⟩ := h.logged.did hdid
  refine ⟨log', ?_, ?_, ?_⟩
  · rw [queued, hsends, List.flatMap_append, hnum]
    exact hlogged
  · rw [hpackets, h.packets, ← hes, List.map_append, List.map_map]
    rfl
  · intro s hs
    rw [hsends] at hs
    rcases List.mem_append.mp hs with hs | hs
    · exact h.sends s hs
    · cases hdid with
      | queued _ _ hlen hblock _ _ =>
        rw [List.mem_singleton.mp hs]
        exact ⟨hlen, _, hblock⟩
      | _ => cases hs

end Journal

end Pickleback
