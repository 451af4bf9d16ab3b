import Mathlib.Tactic

/-!
# Big-endian integers on byte lists

A reader is a byte list that shrinks from the front. `readU8` and its wider companions return the
value and the bytes that are left, or `none` when the input is too short; `writeU16` and its wider
companions give the bytes in network order.

## Main results

* `readU16_writeU16`, `readU32_writeU32`, `readU64_writeU64` — reading back what was written, with
  any bytes behind it
* `readU8_eq_some`, `readU16_eq_some` — what a successful read says about the input
* `eq_writeU16_append` — writing back what was read
-/

namespace ByteCodec

/-- The bytes of `n`, most significant first, in exactly `len` places. -/
def toBytesBE : ℕ → ℕ → List UInt8
  | 0, _ => []
  | len + 1, n => toBytesBE len (n / 256) ++ [UInt8.ofNat n]

/-- The number written by a byte list, most significant byte first. -/
def ofBytesBE (bs : List UInt8) : ℕ := bs.foldl (fun acc b => acc * 256 + b.toNat) 0

@[simp] theorem length_toBytesBE (len n : ℕ) : (toBytesBE len n).length = len := by
  induction len generalizing n with
  | zero => rfl
  | succ len ih => simp [toBytesBE, ih]

theorem ofBytesBE_concat (bs : List UInt8) (b : UInt8) :
    ofBytesBE (bs ++ [b]) = ofBytesBE bs * 256 + b.toNat := by
  simp [ofBytesBE]

theorem ofBytesBE_toBytesBE (len n : ℕ) : ofBytesBE (toBytesBE len n) = n % 256 ^ len := by
  induction len generalizing n with
  | zero => simp [toBytesBE, ofBytesBE, Nat.mod_one]
  | succ len ih =>
    have hb : (UInt8.ofNat n).toNat = n % 256 := by simp
    rw [toBytesBE, ofBytesBE_concat, ih, hb, pow_succ, Nat.mul_comm (256 ^ len) 256,
      Nat.mod_mul]
    ring

theorem ofBytesBE_lt (bs : List UInt8) : ofBytesBE bs < 256 ^ bs.length := by
  induction bs using List.reverseRecOn with
  | nil => simp [ofBytesBE]
  | append_singleton bs b ih =>
    have hb := b.toNat_lt
    rw [ofBytesBE_concat, List.length_append, List.length_singleton, pow_succ]
    omega

/-- Bytes are determined by the number they write and how many they are. -/
theorem toBytesBE_ofBytesBE (bs : List UInt8) : toBytesBE bs.length (ofBytesBE bs) = bs := by
  induction bs using List.reverseRecOn with
  | nil => rfl
  | append_singleton bs b ih =>
    have hb := b.toNat_lt
    have hquot : ofBytesBE (bs ++ [b]) / 256 = ofBytesBE bs := by
      rw [ofBytesBE_concat]
      omega
    have hlast : UInt8.ofNat (ofBytesBE (bs ++ [b])) = b := by
      rw [ofBytesBE_concat, ← UInt8.toNat_inj, UInt8.toNat_ofNat']
      omega
    rw [List.length_append, List.length_singleton, toBytesBE, hquot, hlast, ih]

/-- Split off exactly `len` bytes, or fail when there are fewer. -/
def take? (len : ℕ) (bs : List UInt8) : Option (List UInt8 × List UInt8) :=
  if len ≤ bs.length then some (bs.take len, bs.drop len) else none

theorem take?_append {len : ℕ} {xs : List UInt8} (h : xs.length = len) (rest : List UInt8) :
    take? len (xs ++ rest) = some (xs, rest) := by
  subst h
  simp [take?]

theorem take?_eq_some {len : ℕ} {bs xs rest : List UInt8} (h : take? len bs = some (xs, rest)) :
    bs = xs ++ rest ∧ xs.length = len := by
  unfold take? at h
  split at h
  · next hle =>
    simp only [Option.some.injEq, Prod.mk.injEq] at h
    obtain ⟨rfl, rfl⟩ := h
    simp [hle]
  · cases h

/-! ### Fixed widths -/

/-- One byte off the front. -/
def readU8 : List UInt8 → Option (UInt8 × List UInt8)
  | [] => none
  | b :: rest => some (b, rest)

/-- Two bytes off the front, in network order. -/
def readU16 (bs : List UInt8) : Option (UInt16 × List UInt8) :=
  (take? 2 bs).map fun p => (UInt16.ofNat (ofBytesBE p.1), p.2)

/-- Four bytes off the front, in network order. -/
def readU32 (bs : List UInt8) : Option (UInt32 × List UInt8) :=
  (take? 4 bs).map fun p => (UInt32.ofNat (ofBytesBE p.1), p.2)

/-- Eight bytes off the front, in network order. -/
def readU64 (bs : List UInt8) : Option (UInt64 × List UInt8) :=
  (take? 8 bs).map fun p => (UInt64.ofNat (ofBytesBE p.1), p.2)

/-- A sixteen-bit integer in network order. -/
def writeU16 (x : UInt16) : List UInt8 := toBytesBE 2 x.toNat

/-- A thirty-two-bit integer in network order. -/
def writeU32 (x : UInt32) : List UInt8 := toBytesBE 4 x.toNat

/-- A sixty-four-bit integer in network order. -/
def writeU64 (x : UInt64) : List UInt8 := toBytesBE 8 x.toNat

@[simp] theorem length_writeU16 (x : UInt16) : (writeU16 x).length = 2 := length_toBytesBE 2 _

@[simp] theorem length_writeU32 (x : UInt32) : (writeU32 x).length = 4 := length_toBytesBE 4 _

@[simp] theorem length_writeU64 (x : UInt64) : (writeU64 x).length = 8 := length_toBytesBE 8 _

@[simp] theorem readU8_cons (b : UInt8) (rest : List UInt8) :
    readU8 (b :: rest) = some (b, rest) := rfl

@[simp] theorem readU16_writeU16 (x : UInt16) (rest : List UInt8) :
    readU16 (writeU16 x ++ rest) = some (x, rest) := by
  have hx : x.toNat < 256 ^ 2 := x.toNat_lt
  rw [readU16, take?_append (length_writeU16 x), Option.map_some, writeU16, ofBytesBE_toBytesBE,
    Nat.mod_eq_of_lt hx, UInt16.ofNat_toNat]

@[simp] theorem readU32_writeU32 (x : UInt32) (rest : List UInt8) :
    readU32 (writeU32 x ++ rest) = some (x, rest) := by
  have hx : x.toNat < 256 ^ 4 := x.toNat_lt
  rw [readU32, take?_append (length_writeU32 x), Option.map_some, writeU32, ofBytesBE_toBytesBE,
    Nat.mod_eq_of_lt hx, UInt32.ofNat_toNat]

@[simp] theorem readU64_writeU64 (x : UInt64) (rest : List UInt8) :
    readU64 (writeU64 x ++ rest) = some (x, rest) := by
  have hx : x.toNat < 256 ^ 8 := x.toNat_lt
  rw [readU64, take?_append (length_writeU64 x), Option.map_some, writeU64, ofBytesBE_toBytesBE,
    Nat.mod_eq_of_lt hx, UInt64.ofNat_toNat]

theorem readU8_eq_some {bs rest : List UInt8} {b : UInt8} (h : readU8 bs = some (b, rest)) :
    bs = b :: rest := by
  cases bs with
  | nil => cases h
  | cons c cs =>
    simp only [readU8, Option.some.injEq, Prod.mk.injEq] at h
    obtain ⟨rfl, rfl⟩ := h
    rfl

theorem readU16_eq_some {bs rest : List UInt8} {x : UInt16} (h : readU16 bs = some (x, rest)) :
    bs.length = rest.length + 2 := by
  obtain ⟨⟨xs, r⟩, ht, heq⟩ := Option.map_eq_some_iff.mp h
  obtain ⟨hbs, hlen⟩ := take?_eq_some ht
  simp only [Prod.mk.injEq] at heq
  rw [hbs, List.length_append, hlen, heq.2]
  omega

/-- A number that was read is what its bytes say. -/
theorem eq_writeU16_append {bs rest : List UInt8} {x : UInt16} (h : readU16 bs = some (x, rest)) :
    bs = writeU16 x ++ rest := by
  obtain ⟨⟨xs, r⟩, ht, heq⟩ := Option.map_eq_some_iff.mp h
  obtain ⟨hbs, hlen⟩ := take?_eq_some ht
  simp only [Prod.mk.injEq] at heq
  obtain ⟨rfl, rfl⟩ := heq
  have hlt : ofBytesBE xs < 2 ^ 16 := by
    have := ofBytesBE_lt xs
    rw [hlen] at this
    omega
  rw [hbs, writeU16, UInt16.toNat_ofNat', Nat.mod_eq_of_lt hlt]
  nth_rewrite 1 [← toBytesBE_ofBytesBE xs]
  rw [hlen]

/-! ### Bits -/

/-- A bit of a byte, read through a mask. -/
theorem and_mask_beq (b : UInt8) {o : ℕ} (ho : o < 8) :
    (b &&& (1 <<< UInt8.ofNat o) == 1 <<< UInt8.ofNat o) = b.toNat.testBit o := by
  have hall : ∀ (n : Fin 256) (o : Fin 8),
    (UInt8.ofNat n &&& (1 <<< UInt8.ofNat o) == 1 <<< UInt8.ofNat o)
      = n.val.testBit o := by
    decide +kernel
  have := hall ⟨b.toNat, b.toNat_lt⟩ ⟨o, ho⟩
  rwa [UInt8.ofNat_toNat] at this

end ByteCodec
