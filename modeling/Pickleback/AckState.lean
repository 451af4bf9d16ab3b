import Pickleback.Endpoint

/-!
# The ack state of an endpoint

Flow control, acks and duplicate detection depend on five fields of an endpoint only: the counter
of packet ids, the newest ack, the watermark, and the windows of sent and received packets. They are
collected in `AckState`, and each call of the endpoint is shown to act on them alone: parsing and
delivering messages leaves them as they are, and an ack field is processed by a fold over its acks.

## Main results

* `ackState_processMessages`, `ackState_processPacketAcksAndRtt` — the two halves of receiving
* `processIncomingPacket_cases` — the three outcomes of a call that returns
-/

namespace Pickleback

/-- The fields of an endpoint that acks and flow control read and write. -/
structure AckState where
  sequenceId : UInt16
  newestAck : Option UInt16
  ackLowWatermark : Option PacketId
  sentBuffer : SequenceBuffer SentMeta
  receivedBuffer : SequenceBuffer ReceivedMeta

namespace AckState

/-- What one item of an ack field does. -/
def processAck (a : AckState) (ack : UInt16 × Bool) : AckState :=
  if !ack.2 then a
  else match a.sentBuffer.get ack.1 with
    | none => a
    | some sentData =>
      if sentData.acked then a
      else { a with
        newestAck := Endpoint.newerOf a.newestAck ack.1
        ackLowWatermark := Endpoint.newerOf a.ackLowWatermark sentData.ackedUpTo
        sentBuffer := a.sentBuffer.setEntry ack.1 { sentData with acked := true } }

/-- Whether an item of an ack field sets `acked` in the record of a sent packet. -/
def setsAcked (a : AckState) (ack : UInt16 × Bool) : Bool :=
  ack.2 && (a.sentBuffer.get ack.1).any fun sentData => !sentData.acked

/-- The ids for which an ack field sets `acked`, in order. -/
def newAcks (a : AckState) : List (UInt16 × Bool) → List UInt16
  | [] => []
  | ack :: rest => (if a.setsAcked ack then [ack.1] else []) ++ (a.processAck ack).newAcks rest

/-- What an ack field does; a header without one does nothing. -/
def processAcks (a : AckState) (acks : Option (List (UInt16 × Bool))) : AckState :=
  (acks.getD []).foldl processAck a

@[simp] theorem receivedBuffer_processAck (a : AckState) (ack : UInt16 × Bool) :
    (a.processAck ack).receivedBuffer = a.receivedBuffer := by
  unfold processAck
  repeat' split
  all_goals rfl

@[simp] theorem sequenceId_processAck (a : AckState) (ack : UInt16 × Bool) :
    (a.processAck ack).sequenceId = a.sequenceId := by
  unfold processAck
  repeat' split
  all_goals rfl

@[simp] theorem foldl_processAck (acks : List (UInt16 × Bool)) (a : AckState) :
    (acks.foldl processAck a).receivedBuffer = a.receivedBuffer ∧
      (acks.foldl processAck a).sequenceId = a.sequenceId := by
  induction acks generalizing a with
  | nil => exact ⟨rfl, rfl⟩
  | cons ack rest ih =>
    rw [List.foldl_cons, (ih _).1, (ih _).2]
    exact ⟨receivedBuffer_processAck a ack, sequenceId_processAck a ack⟩

/-- Only the bits that are set matter. -/
theorem foldl_processAck_filter (acks : List (UInt16 × Bool)) (a : AckState) :
    acks.foldl processAck a = (acks.filter Prod.snd).foldl processAck a ∧
      a.newAcks acks = a.newAcks (acks.filter Prod.snd) := by
  induction acks generalizing a with
  | nil => exact ⟨rfl, rfl⟩
  | cons ack rest ih =>
    cases hbit : ack.2 with
    | true => simp only [List.filter_cons, hbit, if_true, List.foldl_cons, newAcks, ih, and_self]
    | false =>
      have hsame : a.processAck ack = a := by simp [processAck, hbit]
      simp only [List.filter_cons, hbit, Bool.false_eq_true, if_false,
        List.foldl_cons, newAcks, hsame,
        setsAcked, Bool.false_and, List.nil_append, ih, and_self]

/-- What is acked for the first time is acked. -/
theorem mem_of_mem_newAcks {a : AckState} {acks : List (UInt16 × Bool)} {id : UInt16}
    (h : id ∈ a.newAcks acks) : (id, true) ∈ acks := by
  induction acks generalizing a with
  | nil => cases h
  | cons ack rest ih =>
    rcases List.mem_append.mp h with h | h
    · split at h
      · next hsets =>
        obtain ⟨hbit, -⟩ := Bool.and_eq_true_iff.mp hsets
        rw [List.mem_singleton.mp h, ← hbit]
        exact List.mem_cons_self ..
      · cases h
    · exact List.mem_cons_of_mem _ (ih h)

/-- Acks do not read the window of received packets. -/
theorem newAcks_receivedBuffer (acks : List (UInt16 × Bool)) (a : AckState)
    (rb : SequenceBuffer ReceivedMeta) :
    { a with receivedBuffer := rb }.newAcks acks = a.newAcks acks := by
  induction acks generalizing a with
  | nil => rfl
  | cons ack rest ih =>
    have hstep : { a with receivedBuffer := rb }.processAck ack
        = { a.processAck ack with receivedBuffer := rb } := by
      simp only [processAck]
      repeat' split
      all_goals rfl
    rw [newAcks, newAcks, hstep, ih]
    rfl

@[simp] theorem receivedBuffer_processAcks (a : AckState) (acks : Option (List (UInt16 × Bool))) :
    (a.processAcks acks).receivedBuffer = a.receivedBuffer :=
  (foldl_processAck _ a).1

end AckState

namespace Endpoint

/-- The ack state of an endpoint. -/
def ackState (p : Endpoint) : AckState :=
  ⟨p.sequenceId, p.newestAck, p.ackLowWatermark, p.sentBuffer, p.receivedBuffer⟩

@[simp] theorem receivedBuffer_ackState (p : Endpoint) :
    p.ackState.receivedBuffer = p.receivedBuffer := rfl

/-! ### Processing acks -/

theorem processAck_eq_ok {p p' : Endpoint} {packetType : PacketType} {ack : UInt16 × Bool}
    (h : p.processAck packetType ack = .ok p') : p'.ackState = p.ackState.processAck ack := by
  unfold processAck at h
  unfold AckState.processAck
  cases hbit : ack.2 with
  | false => simp_all
  | true =>
    simp only [hbit, Bool.not_true, Bool.false_eq_true, if_false, ackState] at h ⊢
    cases hget : p.sentBuffer.get ack.1 with
    | none => simp_all
    | some sentData =>
      simp only [hget] at h ⊢
      cases hacked : sentData.acked with
      | true => simp_all
      | false =>
        simp only [hacked, Bool.false_eq_true, if_false] at h ⊢
        split at h
        · cases h
        · cases h
          rfl

theorem processAcks_eq_ok {packetType : PacketType} {acks : List (UInt16 × Bool)}
    {p p' : Endpoint} (h : p.processAcks packetType acks = .ok p') :
    p'.ackState = acks.foldl AckState.processAck p.ackState := by
  induction acks generalizing p with
  | nil => cases h; rfl
  | cons ack rest ih =>
    simp only [processAcks] at h
    split at h
    · cases h
    · next q hq => rw [ih h, processAck_eq_ok hq, List.foldl_cons]

theorem ackState_updatePacketLossCalculation {p p' : Endpoint}
    (h : p.updatePacketLossCalculation = .ok p') : p'.ackState = p.ackState := by
  unfold updatePacketLossCalculation at h
  dsimp only at h
  split at h
  · cases h
  · split at h <;> cases h <;> rfl

/-- **Processing a header's acks** acts on the ack state as the fold over its acks. -/
theorem ackState_processPacketAcksAndRtt {p p' : Endpoint} {header : ProtocolPacketHeader}
    (h : p.processPacketAcksAndRtt header = .ok p') :
    p'.ackState = p.ackState.processAcks header.acks := by
  unfold processPacketAcksAndRtt at h
  split at h
  · next hnone =>
    cases h
    simp [AckState.processAcks, hnone]
  · next acks hsome =>
    simp only [AckState.processAcks, hsome, Option.getD_some]
    split at h
    · cases h
    · next q hq =>
      rw [← processAcks_eq_ok hq]
      split at h
      · exact ackState_updatePacketLossCalculation h
      · cases h
        rfl

/-! ### Delivering messages -/

theorem ackState_receiveMessage {p p' : Endpoint} {msg : Message}
    (h : p.receiveMessage msg = .ok p') : p'.ackState = p.ackState := by
  unfold receiveMessage at h
  split at h
  · cases h; rfl
  · dsimp only at h
    split at h
    · next ch hch hacc =>
      cases hd : p.dispatcher.processReceivedMessage msg with
      | error q => rw [hd] at h; cases h
      | ok d => rw [hd] at h; cases h; rfl
    · cases h
      rfl

/-- **Delivering the messages of a packet** leaves the ack state alone. -/
theorem ackState_processMessages {fuel : ℕ} {p p' : Endpoint} {payload : List UInt8}
    {r : Except PicklebackError Unit} (h : processMessages fuel p payload = .ok (p', r)) :
    p'.ackState = p.ackState := by
  induction fuel generalizing p payload with
  | zero => cases h
  | succ fuel ih =>
    simp only [processMessages] at h
    split at h
    · cases h; rfl
    · split at h
      · cases h
      · cases h; rfl
      · split at h
        · cases h
        · next q hq => rw [ih h, ackState_receiveMessage hq]; rfl

/-! ### Receiving a packet -/

/-- Delivering messages ends early only on a message that does not parse. -/
theorem processMessages_eq_error {fuel : ℕ} {p p' : Endpoint} {payload : List UInt8}
    {e : PicklebackError} (h : processMessages fuel p payload = .ok (p', .error e)) :
    e = .io .unexpectedEof ∨ e = .invalidMessage := by
  induction fuel generalizing p payload with
  | zero => cases h
  | succ fuel ih =>
    simp only [processMessages] at h
    split at h
    · cases h
    · split at h
      · cases h
      · next hparse =>
        cases h
        exact Message.parse_eq_error hparse
      · split at h
        · cases h
        · exact ih h

/-- What has passed the window test is received, its acks processed, its messages delivered. -/
theorem acceptPacket_eq_ok {p p' : Endpoint} {header : ProtocolPacketHeader} {payload : List UInt8}
    {r : Except PicklebackError Unit} (hcheck : p.receivedBuffer.checkSequence header.id = true)
    (h : p.acceptPacket header payload = .ok (p', r)) :
    r ≠ .error .sequenceTooOld ∧ ∃ receivedMeta rb,
      p.receivedBuffer.insert header.id receivedMeta = .ok rb ∧
        p'.ackState = { p.ackState with receivedBuffer := rb }.processAcks header.acks := by
  unfold acceptPacket at h
  dsimp only at h
  split at h
  · next e he =>
    obtain ⟨b, hb⟩ := SequenceBuffer.exists_insert_of_checkSequence hcheck
      ⟨p.time, p.config.packetHeaderSize + (header.size + payload.length)⟩
    rw [he] at hb
    cases hb
  · next rb hrb =>
    split at h
    · cases h
    · next q hq =>
      have hacks := ackState_processPacketAcksAndRtt hq
      split at h
      · refine ⟨?_, _, rb, hrb, (ackState_processMessages h).trans hacks⟩
        rintro rfl
        rcases processMessages_eq_error h with he | he <;> cases he
      · cases h
        exact ⟨fun hc => (by cases hc), _, rb, hrb, hacks⟩

/-- **Receiving a packet.** A call that returns found the packet stale, found it a duplicate, or
accepted it; in the first two cases only the statistics change. -/
theorem processIncomingPacket_cases {p p' : Endpoint} {header : ProtocolPacketHeader}
    {payload : List UInt8} {r : Except PicklebackError Unit}
    (h : p.processIncomingPacket header payload = .ok (p', r)) :
    (p.receivedBuffer.checkSequence header.id = false ∧ r = .error .stalePacket ∧
        p' = { p with stats := p'.stats }) ∨
      (p.receivedBuffer.existsSequence header.id = true ∧ r = .error .duplicatePacket ∧
        p' = { p with stats := p'.stats }) ∨
      (p.receivedBuffer.checkSequence header.id = true ∧
        p.receivedBuffer.existsSequence header.id = false ∧ r ≠ .error .sequenceTooOld ∧
        ∃ receivedMeta rb, p.receivedBuffer.insert header.id receivedMeta = .ok rb ∧
          p'.ackState = { p.ackState with receivedBuffer := rb }.processAcks header.acks) := by
  unfold processIncomingPacket at h
  dsimp only at h
  cases hcheck : p.receivedBuffer.checkSequence header.id with
  | false =>
    simp only [hcheck, Bool.not_false, if_true] at h
    cases h
    exact Or.inl ⟨rfl, rfl, rfl⟩
  | true =>
    simp only [hcheck, Bool.not_true, Bool.false_eq_true, if_false] at h
    cases hdup : p.receivedBuffer.existsSequence header.id with
    | true =>
      simp only [hdup, if_true] at h
      cases h
      exact Or.inr (Or.inl ⟨rfl, rfl, rfl⟩)
    | false =>
      simp only [hdup, Bool.false_eq_true, if_false] at h
      obtain ⟨hr, m, rb, hrb, hack⟩ := acceptPacket_eq_ok (by exact hcheck) h
      exact Or.inr (Or.inr ⟨rfl, rfl, hr, m, rb, hrb, hack⟩)

end Endpoint

end Pickleback
