import Pickleback.Protocol.AckHeader

/-!
# Reading an ack field

What `AckHeader::parse` makes of bytes that nobody vouches for, and what iterating over the header
then yields. A field ends with the first byte that has no continuation bit, or with byte
`MAX_ACK_BYTES` whatever that byte says. The iterator keeps a byte and a bit offset and a sentinel;
read as one counter, the number of acks already taken, it is seen to visit the bits of the field in
order and to stop behind the last.

## Main definitions

* `AckHeader.fieldLength` — how many bytes the field at the start of some bytes has
* `AckHeader.Ended` — bytes that are a whole field
* `AckHeader.position` — the iterator after `i` acks

## Main results

* `AckHeader.parseBytes_eq` — which bytes are read, or that there are too few
* `AckHeader.next_position`, `AckHeader.next_position_end` — one call of the iterator
* `AckHeader.collect_position`, `AckHeader.after_position` — any number of calls
* `AckHeader.parse_decodes` — arbitrary bytes
-/

namespace Pickleback

open ByteCodec

namespace AckHeader

/-! ### How long a field is -/

/-- How many bytes a field has: up to the first one without continuation bit, at most
`MAX_ACK_BYTES`. -/
def fieldLength (bs : List UInt8) : ℕ :=
  min (bs.findIdx (fun b => b &&& 128 != 128) + 1) maxAckBytes

/-- The byte loop reads up to the first byte without continuation bit, or as many bytes as it
may. -/
theorem parseBytes_eq (n : ℕ) (bs : List UInt8) :
    parseBytes n bs
      = if min (bs.findIdx (fun b => b &&& 128 != 128) + 1) n ≤ bs.length then
          some (bs.take (min (bs.findIdx (fun b => b &&& 128 != 128) + 1) n),
            bs.drop (min (bs.findIdx (fun b => b &&& 128 != 128) + 1) n))
        else none := by
  induction n generalizing bs with
  | zero => simp [parseBytes]
  | succ n ih =>
    cases bs with
    | nil =>
      rw [if_neg (by simp)]
      rfl
    | cons b rest =>
      rw [parseBytes, readU8_cons, List.findIdx_cons]
      dsimp only
      cases hb : (b &&& 128 != 128) with
      | true =>
        rw [if_pos rfl, cond_true, if_pos (by simp)]
        simp
      | false =>
        have hmin : min (rest.findIdx (fun b => b &&& 128 != 128) + 1 + 1) (n + 1)
            = min (rest.findIdx (fun b => b &&& 128 != 128) + 1) n + 1 := by omega
        rw [cond_false, if_neg (by simp), hmin, ih, List.length_cons]
        by_cases hle : min (rest.findIdx (fun b => b &&& 128 != 128) + 1) n ≤ rest.length
        · rw [if_pos hle, if_pos (Nat.succ_le_succ hle)]
          rfl
        · rw [if_neg hle, if_neg (by omega)]
          rfl

/-- A whole field: every byte but the last continues, and the last does only if no more bytes are
allowed. -/
structure Ended (bytes : List UInt8) : Prop where
  pos : 0 < bytes.length
  le : bytes.length ≤ maxAckBytes
  more : ∀ j, j + 1 < bytes.length → (bytes.getD j 0 &&& 128 != 128) = false
  last : bytes.length < maxAckBytes → (bytes.getD (bytes.length - 1) 0 &&& 128 != 128) = true

/-- What the byte loop reads is a whole field. -/
theorem ended_take_fieldLength {bs : List UInt8} (h : fieldLength bs ≤ bs.length) :
    Ended (bs.take (fieldLength bs)) := by
  have hlen : (bs.take (fieldLength bs)).length = fieldLength bs := List.length_take_of_le h
  have hget : ∀ j, j < fieldLength bs → (bs.take (fieldLength bs)).getD j 0 = bs.getD j 0 := by
    intro j hj
    rw [List.getD_eq_getElem?_getD, List.getElem?_take_of_lt hj, ← List.getD_eq_getElem?_getD]
  constructor
  · rw [hlen, fieldLength, maxAckBytes]
    omega
  · rw [hlen, fieldLength]
    omega
  · intro j hj
    rw [hlen] at hj
    have hlt : j < bs.findIdx (fun b => b &&& 128 != 128) := by
      rw [fieldLength] at hj
      omega
    rw [hget j (by omega), List.getD_eq_getElem?_getD, List.getElem?_eq_getElem (by omega),
      Option.getD_some]
    simpa using List.not_of_lt_findIdx hlt
  · intro hshort
    rw [hlen] at hshort ⊢
    have hidx : fieldLength bs - 1 = bs.findIdx (fun b => b &&& 128 != 128) := by
      rw [fieldLength] at hshort ⊢
      omega
    have hpos : 0 < fieldLength bs := by
      rw [fieldLength, maxAckBytes]
      omega
    have hlt : bs.findIdx (fun b => b &&& 128 != 128) < bs.length := by omega
    rw [hget _ (by omega), hidx, List.getD_eq_getElem?_getD, List.getElem?_eq_getElem hlt,
      Option.getD_some]
    exact List.findIdx_getElem (p := fun b => b &&& 128 != 128) (w := hlt)

/-! ### Iterating -/

/-- The header after `k` calls of the iterator. -/
def after : ℕ → AckHeader → AckHeader
  | 0, h => h
  | k + 1, h =>
    match h.next with
    | none => h
    | some (_, h) => after k h

section Iterator

variable (ackId : PacketId) (numAcks : UInt16) (bytes : List UInt8)

/-- Ack `i` of a field: whether `ack_id - i` was received is bit `i % 7` of byte `i / 7`. -/
def item (i : ℕ) : UInt16 × Bool :=
  (ackId - UInt16.ofNat i, (bytes.getD (i / 7) 0).toNat.testBit (i % 7))

/-- The header of a field after `i` acks were taken. Behind the last ack the byte offset is
`MAX_ACK_BYTES`, as a sentinel or because it got there. -/
def position (i : ℕ) : AckHeader :=
  if i < 7 * bytes.length then ⟨ackId, numAcks, padded bytes, bytes.length, i / 7, i % 7⟩
  else ⟨ackId, numAcks, padded bytes, bytes.length, maxAckBytes,
    if bytes.getD (bytes.length - 1) 0 &&& 128 != 128 then 6 else 0⟩

variable {ackId numAcks bytes}

theorem getD_padded {j : ℕ} (hj : j < bytes.length) : (padded bytes).getD j 0 = bytes.getD j 0 := by
  rw [List.getD_eq_getElem?_getD, padded, List.getElem?_append_left hj,
    ← List.getD_eq_getElem?_getD]

theorem length_padded (h : bytes.length ≤ maxAckBytes) : (padded bytes).length = maxAckBytes := by
  rw [padded, List.length_append, List.length_replicate]
  omega

/-- **One call** before the end yields the next ack. -/
theorem next_position (hends : Ended bytes) {i : ℕ} (hi : i < 7 * bytes.length) :
    (position ackId numAcks bytes i).next
      = some (item ackId bytes i, position ackId numAcks bytes (i + 1)) := by
  have hle := hends.le
  have hj : i / 7 < bytes.length := by omega
  have hbit : (bytes.getD (i / 7) 0 &&& (1 <<< UInt8.ofNat (i % 7)) == 1 <<< UInt8.ofNat (i % 7))
      = (bytes.getD (i / 7) 0).toNat.testBit (i % 7) := and_mask_beq _ (by omega)
  have hoffset : 7 * (i / 7) + i % 7 = i := Nat.div_add_mod i 7
  rw [position, if_pos hi, next]
  dsimp only
  rw [if_neg (by omega), getD_padded hj, hbit, hoffset, item]
  congr 2
  by_cases hlast : i % 7 = 6
  · rw [if_pos hlast]
    by_cases hmore : i + 1 < 7 * bytes.length
    · rw [hends.more (i / 7) (by omega), if_neg (by simp), position, if_pos hmore,
        show (i + 1) / 7 = i / 7 + 1 by omega, show (i + 1) % 7 = 0 by omega]
    · -- the last bit of the last byte, which continues only if the field is full
      have hlastByte : i / 7 = bytes.length - 1 := by omega
      rw [position, if_neg hmore, hlastByte]
      cases hcont : (bytes.getD (bytes.length - 1) 0 &&& 128 != 128) with
      | true =>
        rw [if_pos rfl, if_pos rfl, hlast]
      | false =>
        have hfull : bytes.length = maxAckBytes := by
          by_contra hne
          have := hends.last (by omega)
          rw [hcont] at this
          cases this
        rw [if_neg (by simp), if_neg (by simp), show bytes.length - 1 + 1 = maxAckBytes by omega]
  · rw [if_neg hlast, position, if_pos (by omega), show (i + 1) / 7 = i / 7 by omega,
      show (i + 1) % 7 = i % 7 + 1 by omega]

theorem next_position_end {i : ℕ} (hi : 7 * bytes.length ≤ i) :
    (position ackId numAcks bytes i).next = none := by
  rw [position, if_neg (by omega), next, if_pos (Or.inr rfl)]

/-- **Any number of calls** yields as many of the acks that are left. -/
theorem collect_position (hends : Ended bytes) (k i : ℕ) :
    collect k (position ackId numAcks bytes i)
      = ((List.range' i (7 * bytes.length - i)).map (item ackId bytes)).take k := by
  induction k generalizing i with
  | zero => rfl
  | succ k ih =>
    rw [collect]
    by_cases hi : i < 7 * bytes.length
    · rw [next_position hends hi]
      dsimp only
      rw [ih, show 7 * bytes.length - i = 7 * bytes.length - (i + 1) + 1 by omega, List.range'_succ,
        List.map_cons, List.take_succ_cons]
    · rw [next_position_end (by omega), show 7 * bytes.length - i = 0 by omega]
      rfl

theorem after_position (hends : Ended bytes) (k i : ℕ) :
    after k (position ackId numAcks bytes i) = position ackId numAcks bytes (i + k) := by
  induction k generalizing i with
  | zero => rfl
  | succ k ih =>
    rw [after]
    by_cases hi : i < 7 * bytes.length
    · rw [next_position hends hi]
      dsimp only
      rw [ih, Nat.add_assoc, Nat.add_comm 1 k]
    · rw [next_position_end (by omega)]
      simp only [position, if_neg hi, if_neg (show ¬ i + (k + 1) < 7 * bytes.length by omega)]

theorem position_zero (hends : Ended bytes) :
    position ackId numAcks bytes 0 = ⟨ackId, numAcks, padded bytes, bytes.length, 0, 0⟩ := by
  have := hends.pos
  rw [position, if_pos (by omega)]

/-- The whole iteration. -/
theorem acks_of_ended (hends : Ended bytes) :
    acks ⟨ackId, numAcks, padded bytes, bytes.length, 0, 0⟩
      = (List.range (7 * bytes.length)).map (item ackId bytes) := by
  have hle := hends.le
  rw [acks, ← position_zero hends, collect_position hends, Nat.sub_zero, ← List.range_eq_range',
    List.take_of_length_le]
  rw [List.length_map, List.length_range]
  omega

end Iterator

/-! ### Arbitrary bytes -/

/-- The header is the ack field at the start of `bs`, `n` bytes behind the ack id: however often the
iterator is called, it stays inside its buffer, and it yields the `7 * n` acks of the field and no
more. -/
structure Decodes (h : AckHeader) (bs : List UInt8) (n : ℕ) : Prop where
  ackId : readU16 bs = some (h.ackId, bs.drop 2)
  size : h.size = 2 + n
  bitBuffer : h.bitBuffer.length = maxAckBytes
  in_bounds : ∀ k, (h.after k).next ≠ none → (h.after k).byteOffset < (h.after k).bitBuffer.length
  items : ∀ k, h.collect k = ((List.range (7 * n)).map fun i =>
    (h.ackId - UInt16.ofNat i, (bs.getD (2 + i / 7) 0).toNat.testBit (i % 7))).take k

/-- **An ack field is read from any bytes**: either they are too few, or as many are consumed as the
field has, and the iteration over the header decodes them exactly. -/
theorem parse_decodes (bs : List UInt8) :
    (bs.length < 2 + fieldLength (bs.drop 2) ∧ parse bs = .error (.io .unexpectedEof)) ∨
      (2 + fieldLength (bs.drop 2) ≤ bs.length ∧
        ∃ h, parse bs = .ok (h, bs.drop (2 + fieldLength (bs.drop 2))) ∧
          h.Decodes bs (fieldLength (bs.drop 2))) := by
  have hdrop : (bs.drop 2).length = bs.length - 2 := List.length_drop
  have hpos : 0 < fieldLength (bs.drop 2) := by
    rw [fieldLength, maxAckBytes]
    omega
  by_cases htwo : bs.length < 2
  · left
    have hread : readU16 bs = none := by rw [readU16, take?, if_neg (by omega), Option.map_none]
    exact ⟨by omega, by rw [parse, hread]⟩
  have hread : readU16 bs = some (UInt16.ofNat (ofBytesBE (bs.take 2)), bs.drop 2) := by
    rw [readU16, take?, if_pos (by omega), Option.map_some]
  have hbytes := parseBytes_eq maxAckBytes (bs.drop 2)
  rw [← fieldLength] at hbytes
  by_cases hshort : bs.length < 2 + fieldLength (bs.drop 2)
  · left
    rw [if_neg (by omega)] at hbytes
    refine ⟨hshort, ?_⟩
    rw [parse, hread]
    dsimp only
    rw [hbytes]
  · right
    have hle : fieldLength (bs.drop 2) ≤ (bs.drop 2).length := by omega
    have hends := ended_take_fieldLength hle
    have hlen : ((bs.drop 2).take (fieldLength (bs.drop 2))).length = fieldLength (bs.drop 2) :=
      List.length_take_of_le hle
    rw [if_pos hle, List.drop_drop] at hbytes
    refine ⟨by omega, _, by rw [parse, hread]; dsimp only; rw [hbytes], ?_⟩
    rw [← position_zero hends]
    constructor
    · rw [position_zero hends]
      exact hread
    · rw [position_zero hends, size, hlen]
    · rw [position_zero hends]
      exact length_padded hends.le
    · intro k hnext
      rw [after_position hends, Nat.zero_add] at hnext ⊢
      by_cases hk : k < 7 * ((bs.drop 2).take (fieldLength (bs.drop 2))).length
      · have := hends.le
        rw [position, if_pos hk]
        dsimp only
        rw [length_padded hends.le]
        omega
      · exact absurd (next_position_end (by omega)) hnext
    · intro k
      rw [collect_position hends, Nat.sub_zero, ← List.range_eq_range', hlen, position_zero hends]
      congr 1
      refine List.map_congr_left fun i hi => ?_
      rw [List.mem_range] at hi
      have hi7 : i / 7 < fieldLength (bs.drop 2) := by omega
      rw [item, List.getD_eq_getElem?_getD, List.getElem?_take_of_lt hi7, List.getElem?_drop,
        ← List.getD_eq_getElem?_getD]

end AckHeader

end Pickleback
