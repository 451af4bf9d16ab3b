import Pickleback.AckField
import Pickleback.Protocol.Packets

/-!
# The wire format of packet headers

What is written is read back: the ack field of a header with at most 350 acks, the header itself,
and the packets that carry messages. The number of acks is rounded up to a multiple of seven on the
wire, so the header read is not the header written; what is the same is the packet type, the id, the
size and the acks.

## Main results

* `AckHeader.parse_write` — an ack field, with any bytes behind it
* `ProtocolPacketHeader.parse_write` — a header
* `readPacket_messages`, `readPacket_keepAlive` — packets
-/

namespace Pickleback

open ByteCodec

namespace AckHeader

/-! ### One byte of the field -/

/-- The seven acks of one byte. -/
def byteBits (b : UInt8) : List Bool :=
  (List.range 7).map fun i => b &&& (1 <<< UInt8.ofNat i) == 1 <<< UInt8.ofNat i

/-- The data bits of a byte, whatever its continuation bit. -/
theorem byteBits_packBits : ∀ (a b c d e f g : Bool) (more : Bool),
    byteBits (packBits 1 [(0, a), (0, b), (0, c), (0, d), (0, e), (0, f), (0, g)]
      ||| (if more then 128 else 0)) = [a, b, c, d, e, f, g] := by
  decide

theorem continues_packBits : ∀ (a b c d e f g : Bool) (more : Bool),
    ((packBits 1 [(0, a), (0, b), (0, c), (0, d), (0, e), (0, f), (0, g)]
      ||| (if more then 128 else 0)) &&& 128 == 128) = more := by
  decide

/-- One byte carries seven acks, and its top bit says whether more follow. -/
theorem packBits_spec {acks : List (UInt16 × Bool)} (h : acks.length = 7) (more : Bool) :
    byteBits (packBits 1 acks ||| (if more then 128 else 0)) = acks.map Prod.snd ∧
      ((packBits 1 acks ||| (if more then 128 else 0)) &&& 128 == 128) = more := by
  match acks, h with
  | [(_, a), (_, b), (_, c), (_, d), (_, e), (_, f), (_, g)], _ =>
    exact ⟨byteBits_packBits a b c d e f g more, continues_packBits a b c d e f g more⟩

/-! ### The bytes of the field -/

/-- Every byte but the last continues. -/
def Closed : List UInt8 → Prop
  | [] => False
  | [b] => (b &&& 128 == 128) = false
  | b :: rest => (b &&& 128 == 128) = true ∧ Closed rest

/-- Seven acks to a byte: the bytes written carry the acks, in order, and are closed. -/
theorem encodeBytes_spec {k : ℕ} {acks : List (UInt16 × Bool)} (h : acks.length = 7 * (k + 1)) :
    Closed (encodeBytes (k + 1) acks) ∧ (encodeBytes (k + 1) acks).length = k + 1 ∧
      (encodeBytes (k + 1) acks).flatMap byteBits = acks.map Prod.snd := by
  induction k generalizing acks with
  | zero =>
    have hdrop : acks.drop 7 = [] := List.drop_eq_nil_of_le (by omega)
    have htake : acks.take 7 = acks := List.take_of_length_le (by omega)
    obtain ⟨hbits, hcont⟩ := packBits_spec h false
    simp only [encodeBytes, hdrop, htake, List.isEmpty_nil, if_true]
    exact ⟨hcont, rfl, by simpa using hbits⟩
  | succ k ih =>
    have htake : (acks.take 7).length = 7 := by
      rw [List.length_take]
      omega
    have hmore : (acks.drop 7).isEmpty = false := by
      rw [List.isEmpty_eq_false_iff_exists_mem]
      exact List.exists_mem_of_length_pos (by rw [List.length_drop]; omega)
    obtain ⟨hclosed, hlen, hrest⟩ :=
      ih (show (acks.drop 7).length = 7 * (k + 1) by rw [List.length_drop]; omega)
    obtain ⟨hbits, hcont⟩ := packBits_spec htake true
    have hstep : encodeBytes (k + 1 + 1) acks
        = (packBits 1 (acks.take 7) ||| 128) :: encodeBytes (k + 1) (acks.drop 7) := by
      simp only [encodeBytes, hmore, Bool.false_eq_true, if_false]
    rw [hstep]
    refine ⟨?_, by rw [List.length_cons, hlen], ?_⟩
    · cases hb : encodeBytes (k + 1) (acks.drop 7) with
      | nil => rw [hb] at hlen; cases hlen
      | cons x xs => exact ⟨hcont, hb ▸ hclosed⟩
    · rw [List.flatMap_cons, hrest, ← List.take_append_drop 7 acks, List.map_append,
        List.take_append_drop, ← hbits]
      rfl

/-- Reading stops at the first byte that does not continue. -/
theorem parseBytes_of_closed {bytes rest : List UInt8} {n : ℕ} (h : Closed bytes)
    (hn : bytes.length ≤ n) : parseBytes n (bytes ++ rest) = some (bytes, rest) := by
  induction bytes generalizing n with
  | nil => exact h.elim
  | cons b bs ih =>
    obtain ⟨n, rfl⟩ : ∃ m, n = m + 1 := ⟨n - 1, by simp at hn; omega⟩
    cases bs with
    | nil =>
      have hb : (b &&& 128 == 128) = false := h
      simp [parseBytes, bne, hb]
    | cons c cs =>
      obtain ⟨hb, hclosed⟩ := h
      have := ih (n := n) hclosed (by simpa using hn)
      simp only [List.cons_append, parseBytes, readU8_cons, bne,
        hb, Bool.not_true, Bool.false_eq_true,
        if_false]
      simp only [List.cons_append] at this
      simp [this]

/-! ### Reading the acks -/

/-- Acks of the ids `ackId - o, ackId - (o + 1), …`. -/
def itemsFrom (ackId : UInt16) : ℕ → List Bool → List (UInt16 × Bool)
  | _, [] => []
  | o, b :: bs => (ackId - UInt16.ofNat o, b) :: itemsFrom ackId (o + 1) bs

/-- The bits of several bytes, one after the other. -/
theorem flatMap_byteBits (bytes : List UInt8) :
    bytes.flatMap byteBits
      = (List.range (7 * bytes.length)).map fun i => (bytes.getD (i / 7) 0).toNat.testBit
      (i % 7) := by
  induction bytes using List.reverseRecOn with
  | nil => rfl
  | append_singleton bytes b ih =>
    rw [List.flatMap_append, ih, List.length_append, List.length_singleton,
      Nat.mul_add, List.range_add,
      List.map_append, List.map_map]
    congr 1
    · refine List.map_congr_left fun i hi => ?_
      rw [List.mem_range] at hi
      have hget : (bytes ++ [b]).getD (i / 7) 0 = bytes.getD (i / 7) 0 := by
        rw [List.getD_eq_getElem?_getD, List.getElem?_append_left (by omega),
          ← List.getD_eq_getElem?_getD]
      rw [hget]
    · rw [List.flatMap_singleton, byteBits]
      refine List.map_congr_left fun i hi => ?_
      rw [List.mem_range] at hi
      rw [Function.comp_apply, and_mask_beq b (by omega),
        show (7 * bytes.length + i) / 7 = bytes.length by omega,
        show (7 * bytes.length + i) % 7 = i by omega, List.getD_eq_getElem?_getD,
        List.getElem?_append_right (le_refl _), Nat.sub_self]
      rfl

/-- Closed bytes are a whole field. -/
theorem ended_of_closed {bytes : List UInt8} (h : Closed bytes) (hle : bytes.length ≤ maxAckBytes) :
    Ended bytes := by
  have hcont : ∀ {bytes : List UInt8}, Closed bytes → 0 < bytes.length ∧
      (∀ j, j + 1 < bytes.length → (bytes.getD j 0 &&& 128 != 128) = false) ∧
      (bytes.getD (bytes.length - 1) 0 &&& 128 != 128) = true := by
    intro bytes hclosed
    induction bytes with
    | nil => exact hclosed.elim
    | cons b bs ih =>
      cases bs with
      | nil =>
        have hb : (b &&& 128 == 128) = false := hclosed
        exact ⟨by simp, by simp, by simp [bne, hb]⟩
      | cons c cs =>
        obtain ⟨hb, hrest⟩ := hclosed
        obtain ⟨-, hmore, hlast⟩ := ih hrest
        refine ⟨by simp, fun j hj => ?_, hlast⟩
        cases j with
        | zero => simp [bne, hb]
        | succ j => exact hmore j (by simpa using hj)
  obtain ⟨hpos, hmore, hlast⟩ := hcont h
  exact ⟨hpos, hle, hmore, fun _ => hlast⟩

/-! ### The round trip -/

theorem itemsFrom_map_range' (ackId : UInt16) (f : ℕ → Bool) (o k : ℕ) :
    itemsFrom ackId o ((List.range' o k).map f)
      = (List.range' o k).map fun i => (ackId - UInt16.ofNat i, f i) := by
  induction k generalizing o with
  | zero => rfl
  | succ k ih => simp only [List.range'_succ, List.map_cons, itemsFrom, ih]

/-- The acks of a received window are those of the ids from the newest one down. -/
theorem ackIter_eq (b : SequenceBuffer ReceivedMeta) (n : UInt16) :
    itemsFrom b.sequence 0 ((ackIter b n).map Prod.snd) = ackIter b n := by
  simp only [ackIter, List.map_map, List.range_eq_range', Function.comp_def]
  exact itemsFrom_map_range' b.sequence
    (fun i => b.existsSequence (b.sequence - UInt16.ofNat i)) 0 _

/-- The iterator from position `i` on. -/
theorem collect_ackIter (b : SequenceBuffer ReceivedMeta) {i max : UInt16} {n : ℕ}
    (hn : max.toNat ≤ i.toNat + n) :
    AckIter.collect n ⟨b, i, max⟩ = (List.range' i.toNat (max.toNat - i.toNat)).map fun j =>
      (b.sequence - UInt16.ofNat j, b.existsSequence (b.sequence - UInt16.ofNat j)) := by
  induction n generalizing i with
  | zero => simp [AckIter.collect, show max.toNat - i.toNat = 0 by omega]
  | succ n ih =>
    by_cases hmax : i ≥ max
    · rw [ge_iff_le, UInt16.le_iff_toNat_le] at hmax
      simp [AckIter.collect, AckIter.next, UInt16.le_iff_toNat_le, hmax,
        show max.toNat - i.toNat = 0 by omega]
    · have hlt : i.toNat < max.toNat := by
        rw [ge_iff_le, UInt16.le_iff_toNat_le] at hmax
        omega
      have hmaxLt := max.toNat_lt
      have hsucc : (i + 1).toNat = i.toNat + 1 := by
        rw [UInt16.toNat_add]
        simp only [UInt16.reduceToNat]
        omega
      have hstep : AckIter.collect (n + 1) ⟨b, i, max⟩
          = (b.sequence - i, b.existsSequence (b.sequence - i))
            :: AckIter.collect n ⟨b, i + 1, max⟩ := by
        simp only [AckIter.collect, AckIter.next, hmax, if_false]
      rw [hstep, ih (by omega), hsucc, show max.toNat - i.toNat =
        max.toNat - (i.toNat + 1) + 1 by omega,
        List.range'_succ, List.map_cons, UInt16.ofNat_toNat]

/-- The list of acks is what the iterator of the source yields. -/
theorem collect_withMinimumLength (b : SequenceBuffer ReceivedMeta) {k : UInt16} {n : ℕ}
    (hk : k.toNat ≤ 350) (hn : 7 * ceilDiv7 k.toNat ≤ n) :
    (AckIter.withMinimumLength b k).collect n = ackIter b k := by
  have hmax : (UInt16.ofNat (ceilDiv7 k.toNat) * 7).toNat = ceilDiv7 k.toNat * 7 := by
    rw [UInt16.toNat_mul, UInt16.toNat_ofNat']
    simp only [UInt16.reduceToNat]
    unfold ceilDiv7
    omega
  rw [AckIter.withMinimumLength,
    collect_ackIter b (by rw [hmax]; simp only [UInt16.toNat_zero]; omega),
    hmax, ackIter, List.range_eq_range']
  rfl

theorem length_ackIter (b : SequenceBuffer ReceivedMeta) (n : UInt16) :
    (ackIter b n).length = 7 * ceilDiv7 n.toNat := by
  rw [ackIter, List.length_map, List.length_range, Nat.mul_comm]

/-- The field written for a received window: closed bytes that carry its acks. -/
theorem fromAckIter_ackIter (b : SequenceBuffer ReceivedMeta) {n : UInt16} (hpos : 0 < n.toNat)
    (hn : n.toNat ≤ 350) :
    ∃ bytes, Closed bytes ∧ bytes.length = ceilDiv7 n.toNat ∧
      bytes.flatMap byteBits = (ackIter b n).map Prod.snd ∧
      fromAckIter n (ackIter b n) = .ok ⟨b.sequence, n, padded bytes, bytes.length, 0, 0⟩ := by
  obtain ⟨k, hk⟩ : ∃ k, ceilDiv7 n.toNat = k + 1 :=
    ⟨ceilDiv7 n.toNat - 1, by unfold ceilDiv7; omega⟩
  have hk' : k + 1 ≤ maxAckBytes := by
    unfold ceilDiv7 at hk
    unfold maxAckBytes
    omega
  obtain ⟨hclosed, hlen, hbits⟩ := encodeBytes_spec (hk ▸ length_ackIter b n)
  refine ⟨encodeBytes (k + 1) (ackIter b n), hclosed, hlen.trans hk.symm, hbits, ?_⟩
  have hhead : ∃ x rest, ackIter b n = (b.sequence, x) :: rest := by
    refine ⟨b.existsSequence b.sequence, (ackIter b n).tail, ?_⟩
    rw [ackIter, hk, show (k + 1) * 7 = 7 * k + 6 + 1 by omega, List.range_succ_eq_map]
    simp
  obtain ⟨x, rest, hcons⟩ := hhead
  have hneeded : max (min (ceilDiv7 n.toNat) 255) 1 = k + 1 := by
    unfold maxAckBytes at hk'
    omega
  rw [hlen]
  simp only [fromAckIter, hcons, hneeded]
  rw [if_neg (by omega)]

/-- The iteration over a field that was just written or read. -/
theorem acks_padded {bytes : List UInt8} (hclosed : Closed bytes)
    (hmax : bytes.length ≤ maxAckBytes)
    (ackId : PacketId) (n : UInt16) :
    acks ⟨ackId, n, padded bytes, bytes.length, 0, 0⟩
      = itemsFrom ackId 0 (bytes.flatMap byteBits) := by
  rw [acks_of_ended (ended_of_closed hclosed hmax), flatMap_byteBits,
    List.range_eq_range', itemsFrom_map_range']
  rfl

/-- **The ack field is read back**: the same acks, from the same number of bytes. -/
theorem parse_write (b : SequenceBuffer ReceivedMeta) {n : UInt16} {h : AckHeader}
    (hpos : 0 < n.toNat) (hn : n.toNat ≤ 350) (hh : fromAckIter n (ackIter b n) = .ok h)
    (rest : List UInt8) :
    ∃ h', parse (h.write ++ rest) = .ok (h', rest) ∧ h'.acks = ackIter b n ∧ h'.size = h.size := by
  obtain ⟨bytes, hclosed, hlen, hbits, heq⟩ := fromAckIter_ackIter b hpos hn
  have hmax : bytes.length ≤ maxAckBytes := by
    unfold ceilDiv7 at hlen
    unfold maxAckBytes
    omega
  rw [heq, Except.ok.injEq] at hh
  subst hh
  refine ⟨⟨b.sequence, UInt16.ofNat (bytes.length * 7), padded bytes, bytes.length, 0, 0⟩,
    ?_, ?_, rfl⟩
  · have htake : (padded bytes).take bytes.length = bytes := by simp [padded]
    simp only [parse, write, htake, List.append_assoc, readU16_writeU16,
      parseBytes_of_closed hclosed hmax]
  · rw [acks_padded hclosed hmax, hbits, ackIter_eq]

/-- The acks of a field made for a received window. -/
theorem acks_fromAckIter (b : SequenceBuffer ReceivedMeta) {n : UInt16} {h : AckHeader}
    (hpos : 0 < n.toNat) (hn : n.toNat ≤ 350) (hh : fromAckIter n (ackIter b n) = .ok h) :
    h.acks = ackIter b n := by
  obtain ⟨bytes, hclosed, hlen, hbits, heq⟩ := fromAckIter_ackIter b hpos hn
  have hmax : bytes.length ≤ maxAckBytes := by
    unfold ceilDiv7 at hlen
    unfold maxAckBytes
    omega
  rw [heq, Except.ok.injEq] at hh
  subst hh
  rw [acks_padded hclosed hmax, hbits, ackIter_eq]

end AckHeader

/-! ### Headers -/

namespace ProtocolPacketHeader

theorem tryFrom_toU8_or (t : PacketType) :
    PacketType.tryFrom ((t.toU8 ||| 128) &&& 127) = .ok t ∧
      ((t.toU8 ||| 128) &&& 128 != 0) = true := by
  cases t <;> exact ⟨rfl, rfl⟩

theorem tryFrom_toU8_and (t : PacketType) :
    PacketType.tryFrom (t.toU8 &&& 127) = .ok t ∧ (t.toU8 &&& 128 != 0) = false := by
  cases t <;> exact ⟨rfl, rfl⟩

/-- The acks that a header made for `n` unacked packets of a received window carries. -/
def acksFor (b : SequenceBuffer ReceivedMeta) (n : UInt16) : Option (List (UInt16 × Bool)) :=
  if n = 0 then none else some (ackIter b n)

theorem exists_new (id : PacketId) (b : SequenceBuffer ReceivedMeta) {n : UInt16}
    (hn : n.toNat ≤ 350) (t : PacketType) : ∃ h, new id (ackIter b n) n t = .ok h := by
  by_cases hzero : n = 0
  · exact ⟨newNoAcks id t, by simp [new, hzero]⟩
  · have hpos : 0 < n.toNat := Nat.pos_of_ne_zero fun h₀ => hzero (UInt16.toNat_inj.mp h₀)
    obtain ⟨bytes, -, -, -, heq⟩ := AckHeader.fromAckIter_ackIter b hpos hn
    rw [new, if_neg hzero, heq]
    exact ⟨_, rfl⟩

/-- The acks of a header made for a received window. -/
theorem acks_of_new {id : PacketId} {b : SequenceBuffer ReceivedMeta} {n : UInt16} {t : PacketType}
    {h : ProtocolPacketHeader} (hn : n.toNat ≤ 350) (hh : new id (ackIter b n) n t = .ok h) :
    h.acks = acksFor b n := by
  by_cases hzero : n = 0
  · rw [new, if_pos hzero, Except.ok.injEq] at hh
    subst hh
    rw [acksFor, if_pos hzero]
    rfl
  · have hpos : 0 < n.toNat := Nat.pos_of_ne_zero fun h₀ => hzero (UInt16.toNat_inj.mp h₀)
    rw [new, if_neg hzero] at hh
    cases hf : AckHeader.fromAckIter n (ackIter b n) with
    | error e =>
      rw [hf] at hh
      cases hh
    | ok a =>
      rw [hf] at hh
      cases hh
      rw [acksFor, if_neg hzero, acks, Option.map_some, AckHeader.acks_fromAckIter b hpos hn hf]

/-- **A header is read back**: type, id, acks and size. -/
theorem parse_write {id : PacketId} {b : SequenceBuffer ReceivedMeta} {n : UInt16} {t : PacketType}
    {h : ProtocolPacketHeader} (hn : n.toNat ≤ 350) (hh : new id (ackIter b n) n t = .ok h)
    (rest : List UInt8) :
    ∃ h', parse (h.write ++ rest) = .ok (h', rest) ∧ h'.packetType = t ∧ h'.id = id ∧
      h'.acks = acksFor b n ∧ h'.size = h.size := by
  by_cases hzero : n = 0
  · rw [new, if_pos hzero, Except.ok.injEq] at hh
    subst hh
    refine ⟨newNoAcks id t, ?_, rfl, rfl, by rw [acksFor, if_pos hzero]; rfl, rfl⟩
    simp only [write, newNoAcks, List.cons_append, parse, readU8_cons, tryFrom_toU8_and t,
      readU16_writeU16, Bool.false_eq_true, if_false]
  · have hpos : 0 < n.toNat := Nat.pos_of_ne_zero fun h₀ => hzero (UInt16.toNat_inj.mp h₀)
    obtain ⟨bytes, -, -, -, heq⟩ := AckHeader.fromAckIter_ackIter b hpos hn
    obtain ⟨a', hparse, hacks, hsize⟩ := AckHeader.parse_write b hpos hn heq rest
    rw [new, if_neg hzero, heq] at hh
    cases hh
    refine ⟨⟨t, id, some a'⟩, ?_, rfl, rfl, ?_, ?_⟩
    · simp only [write, List.cons_append, List.append_assoc, parse, readU8_cons, tryFrom_toU8_or t,
        readU16_writeU16, if_true, hparse]
    · rw [acksFor, if_neg hzero, ← hacks]
      rfl
    · simp only [size, hsize]

/-- The source's `ceil`, of an exact quotient. -/
theorem ceilDiv7_eq_ceil (n : ℕ) : ceilDiv7 n = ⌈(n : ℚ) / 7⌉₊ := by
  refine eq_of_forall_ge_iff fun m => ?_
  rw [Nat.ceil_le, div_le_iff₀ (by norm_num), ceilDiv7]
  have hcast : ((n : ℚ) ≤ m * 7) ↔ n ≤ m * 7 := by exact_mod_cast Iff.rfl
  rw [hcast]
  omega

/-- **A peer decodes what was received**: a header made for `k` required acks, read back from its
own bytes and nothing else, yields the newest ids of the received window, each with whether it is in
the window, down to `k` rounded up to a multiple of seven. -/
theorem acks_parse_write (id : PacketId) (t : PacketType) (b : SequenceBuffer ReceivedMeta)
    {k : UInt16} (hpos : 1 ≤ k) (hk : k ≤ maxUnackedPackets) :
    ∃ h, new id ((AckIter.withMinimumLength b k).collect maxUnackedPackets.toNat) k t = .ok h ∧
      ∀ rest, ∃ h', parse (h.write ++ rest) = .ok (h', rest) ∧ h'.packetType = t ∧ h'.id = id ∧
        h'.acks = some ((List.range (7 * ⌈(k.toNat : ℚ) / 7⌉₊)).map fun i =>
          (b.sequence - UInt16.ofNat i, b.existsSequence (b.sequence - UInt16.ofNat i))) := by
  rw [UInt16.le_iff_toNat_le] at hpos hk
  have hk' : k.toNat ≤ 350 := hk
  have hceil : 7 * ceilDiv7 k.toNat ≤ maxUnackedPackets.toNat := by
    show 7 * ((k.toNat + 6) / 7) ≤ 350
    omega
  rw [AckHeader.collect_withMinimumLength b hk' hceil]
  obtain ⟨h, hnew⟩ := exists_new id b hk' t
  refine ⟨h, hnew, fun rest => ?_⟩
  obtain ⟨h', hparse, htype, hid, hacks, -⟩ := parse_write hk' hnew rest
  refine ⟨h', hparse, htype, hid, ?_⟩
  have hzero : k ≠ 0 := by
    rintro rfl
    cases hpos
  rw [hacks, acksFor, if_neg hzero, ackIter, ceilDiv7_eq_ceil, Nat.mul_comm]

/-- Three packets of the peer, one of them late. -/
def receivedThree : SequenceBuffer ReceivedMeta :=
  ((((((SequenceBuffer.withCapacity 512).moveTo 1).write 1 ⟨1, 10⟩).moveTo 9).write 9 ⟨2, 20⟩).write
    7
    ⟨3, 30⟩)

/-- Nine acks required of them: fourteen are written, down to before the first id. -/
theorem acks_parse_write_three :
    ∃ h, new 1 ((AckIter.withMinimumLength receivedThree 9).collect maxUnackedPackets.toNat)
      9 .keepAlive
        = .ok h ∧
      (∀ rest, ∃ h', parse (h.write ++ rest) = .ok (h', rest) ∧
        h'.packetType = .keepAlive ∧ h'.id = 1 ∧
        h'.acks = some ((List.range (7 * ⌈((9 : UInt16).toNat : ℚ) / 7⌉₊)).map fun i =>
          (receivedThree.sequence - UInt16.ofNat i,
            receivedThree.existsSequence (receivedThree.sequence - UInt16.ofNat i)))) ∧
      ((List.range 14).map fun i => receivedThree.existsSequence
        (receivedThree.sequence - UInt16.ofNat i))
        = [true, false, true, false, false, false, false, false, true, false, false, false, false,
          false] := by
  obtain ⟨h, hnew, hparse⟩ := acks_parse_write 1 .keepAlive receivedThree
    (k := 9) (by decide) (by decide)
  exact ⟨h, hnew, hparse, by decide +kernel⟩

/-- How long a header is on the wire. -/
theorem length_write_le {id : PacketId} {b : SequenceBuffer ReceivedMeta} {n : UInt16}
    {t : PacketType} {h : ProtocolPacketHeader} (hn : n.toNat ≤ 350)
    (hh : new id (ackIter b n) n t = .ok h) : 3 ≤ h.write.length ∧ h.write.length ≤ 55 := by
  by_cases hzero : n = 0
  · rw [new, if_pos hzero, Except.ok.injEq] at hh
    subst hh
    simp [write, newNoAcks]
  · have hpos : 0 < n.toNat := Nat.pos_of_ne_zero fun h₀ => hzero (UInt16.toNat_inj.mp h₀)
    obtain ⟨bytes, -, hlen, -, heq⟩ := AckHeader.fromAckIter_ackIter b hpos hn
    rw [new, if_neg hzero, heq] at hh
    cases hh
    have hbytes : bytes.length ≤ 50 := by
      unfold ceilDiv7 at hlen
      omega
    simp [write, AckHeader.write, AckHeader.padded]
    omega

end ProtocolPacketHeader

/-! ### Packets -/

theorem packetType_of_new {id : PacketId} {acks : List (UInt16 × Bool)} {n : UInt16}
    {t : PacketType} {h : ProtocolPacketHeader}
    (hh : ProtocolPacketHeader.new id acks n t = .ok h) :
    h.packetType = t ∧ h.id = id := by
  unfold ProtocolPacketHeader.new at hh
  split at hh
  · cases hh
    exact ⟨rfl, rfl⟩
  · cases hf : AckHeader.fromAckIter n acks with
    | error e => rw [hf] at hh; cases hh
    | ok a =>
      rw [hf] at hh
      cases hh
      exact ⟨rfl, rfl⟩

section Packets

variable {id : PacketId} {b : SequenceBuffer ReceivedMeta} {n : UInt16} {h : ProtocolPacketHeader}

/-- **A packet of messages is read back** up to its messages. -/
theorem readPacket_messages (hn : n.toNat ≤ 350)
    (hh : ProtocolPacketHeader.new id (ackIter b n) n .messages = .ok h) (salt : UInt64)
    (messages : List UInt8) :
    ∃ h', readPacket (h.write ++ (writeU64 salt ++ messages)) = .ok (.messages h' salt, messages) ∧
      h'.packetType = .messages ∧ h'.id = id ∧ h'.acks = ProtocolPacketHeader.acksFor b n := by
  obtain ⟨h', hparse, ht, hid, hacks, -⟩ :=
    ProtocolPacketHeader.parse_write hn hh (writeU64 salt ++ messages)
  refine ⟨h', ?_, ht, hid, hacks⟩
  simp only [readPacket, hparse, bind, Except.bind, ht, readU64_writeU64, orEof]
  rfl

/-- **A keep-alive is read back.** -/
theorem readPacket_keepAlive (hn : n.toNat ≤ 350)
    (hh : ProtocolPacketHeader.new id (ackIter b n) n .keepAlive = .ok h) (salt : UInt64)
    (index : UInt32) :
    ∃ h', readPacket (h.write ++ (writeU64 salt ++ writeU32 index))
        = .ok (.keepAlive h' salt index, []) ∧
      h'.packetType = .keepAlive ∧ h'.id = id ∧ h'.acks = ProtocolPacketHeader.acksFor b n := by
  obtain ⟨h', hparse, ht, hid, hacks, -⟩ :=
    ProtocolPacketHeader.parse_write hn hh (writeU64 salt ++ writeU32 index)
  refine ⟨h', ?_, ht, hid, hacks⟩
  have hindex := readU32_writeU32 index []
  rw [List.append_nil] at hindex
  simp only [readPacket, hparse, bind, Except.bind, ht, readU64_writeU64, hindex, orEof]
  rfl

end Packets

end Pickleback
