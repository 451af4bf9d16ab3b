import Mathlib.Tactic

/-!
# Sixteen-bit sequence numbers and their unwrapped readings

A counter that is sent as sixteen bits is really an unbounded integer of which only the low bits are
visible. `Lifts s z` says that `z` is such an unwrapped reading of `s`. Every argument about
wrapping counters goes the same way: pick readings, compute with integers, and come back through
`Lifts.unique`, which says that two readings of one number less than `65536` apart are equal.

## Main definitions

* `Serial.Lifts`, `Serial.wrap` — unwrapped readings, and the sequence number of an integer
* `Serial.latest` — the latest number that shows as a given sequence number

## Main results

* `Lifts.unique` — readings closer than a full turn agree
* `Lifts.add`, `Lifts.sub`, `lifts_ofNat` — readings follow the wrapping arithmetic
* `exists_mod_eq` — among `n` consecutive integers one has any given residue
-/

namespace Serial

/-- `z` is an unwrapped reading of the sequence number `s`. -/
def Lifts (s : UInt16) (z : ℤ) : Prop := (s.toNat : ℤ) = z % 65536

/-- The sequence number that an unbounded counter shows. -/
def wrap (z : ℤ) : UInt16 := UInt16.ofNat (z % 65536).toNat

theorem lifts_wrap (z : ℤ) : Lifts (wrap z) z := by
  have h : ((z % 65536).toNat : ℤ) = z % 65536 := by omega
  simp only [Lifts, wrap, UInt16.toNat_ofNat', Int.natCast_emod, h]
  omega

theorem lifts_iff {s : UInt16} {z : ℤ} : Lifts s z ↔ s = wrap z := by
  constructor
  · intro h
    have hw := lifts_wrap z
    simp only [Lifts] at h hw
    exact UInt16.toNat_inj.mp (by omega)
  · rintro rfl
    exact lifts_wrap z

theorem Lifts.eq_wrap {s : UInt16} {z : ℤ} (h : Lifts s z) : s = wrap z := lifts_iff.mp h

theorem lifts_toNat (s : UInt16) : Lifts s s.toNat := by
  have := s.toNat_lt
  simp only [Lifts]
  omega

theorem lifts_ofNat (n : ℕ) : Lifts (UInt16.ofNat n) n := by
  simp [Lifts]

theorem wrap_natCast (n : ℕ) : wrap n = UInt16.ofNat n := (lifts_ofNat n).eq_wrap.symm

theorem Lifts.add {s t : UInt16} {z w : ℤ} (hs : Lifts s z) (ht : Lifts t w) :
    Lifts (s + t) (z + w) := by
  simp only [Lifts, UInt16.toNat_add] at *
  omega

theorem Lifts.sub {s t : UInt16} {z w : ℤ} (hs : Lifts s z) (ht : Lifts t w) :
    Lifts (s - t) (z - w) := by
  have := t.toNat_lt
  simp only [Lifts, UInt16.toNat_sub] at *
  omega

theorem Lifts.succ {s : UInt16} {z : ℤ} (hs : Lifts s z) : Lifts (s + 1) (z + 1) :=
  hs.add (lifts_ofNat 1)

/-- **Unwrapping.** Two readings of one sequence number that are less than a full turn apart are the
same integer. -/
theorem Lifts.unique {s : UInt16} {z w : ℤ} (hz : Lifts s z) (hw : Lifts s w)
    (h₁ : z < w + 65536) (h₂ : w < z + 65536) : z = w := by
  simp only [Lifts] at *
  omega

theorem wrap_eq_wrap_iff {z w : ℤ} : wrap z = wrap w ↔ z % 65536 = w % 65536 := by
  rw [← lifts_iff]
  have := lifts_wrap z
  simp only [Lifts] at *
  omega

theorem wrap_inj {z w : ℤ} (h₁ : z < w + 65536) (h₂ : w < z + 65536) :
    wrap z = wrap w ↔ z = w := by
  refine ⟨fun h => ?_, fun h => by rw [h]⟩
  rw [wrap_eq_wrap_iff] at h
  omega

theorem wrap_add (z w : ℤ) : wrap z + wrap w = wrap (z + w) :=
  ((lifts_wrap z).add (lifts_wrap w)).eq_wrap

theorem wrap_sub (z w : ℤ) : wrap z - wrap w = wrap (z - w) :=
  ((lifts_wrap z).sub (lifts_wrap w)).eq_wrap

theorem toNat_wrap (z : ℤ) : ((wrap z).toNat : ℤ) = z % 65536 := lifts_wrap z

/-- The latest of the numbers up to `n` that shows as `s`. -/
def latest (n : ℕ) (s : UInt16) : ℕ := n - (wrap n - s).toNat

theorem latest_wrap {n y : ℕ} (hle : y ≤ n) (hlt : n < y + 65536) : latest n (wrap y) = y := by
  have h := toNat_wrap (n - y)
  rw [latest, wrap_sub]
  omega

/-- Among `n` consecutive naturals, every residue modulo `n` occurs. -/
theorem exists_mod_eq {n : ℕ} (hn : 0 < n) (a r : ℕ) (hr : r < n) :
    ∃ k, a ≤ k ∧ k < a + n ∧ k % n = r := by
  refine ⟨a + (r + (n - a % n)) % n, by omega, ?_, ?_⟩
  · have := Nat.mod_lt (r + (n - a % n)) hn
    omega
  · have ha := Nat.mod_lt a hn
    rw [Nat.add_mod, Nat.mod_mod, ← Nat.add_mod]
    have hsum : a + (r + (n - a % n)) = r + n * (a / n + 1) := by
      have := Nat.div_add_mod a n
      have hexp : n * (a / n + 1) = n * (a / n) + n := by ring
      omega
    rw [hsum, Nat.add_mul_mod_self_left, Nat.mod_eq_of_lt hr]

end Serial
