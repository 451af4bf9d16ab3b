import Pickleback.Outbound
import Pickleback.Lib.Tiling

/-!
# The arithmetic of fragment sizes

The loop of `add_large_message_to_channel` computes the size of the last fragment in `u16`, from the
length cast down to `u16` and the bytes in front of the fragment. Both are too big for a `u16` from
64 kB on, well below the largest message that the default configuration admits. Where arithmetic
wraps, the two errors cancel; where it is checked, the loop panics.

## Main definitions

* `MessageDispatcher.CutsExactly` — the arithmetic of the loop is exact, and its slices are the
  payload

## Main results

* `MessageDispatcher.cutsExactly_of_cuttable` — below 64 kB, and in a build that wraps at any length
* `MessageDispatcher.cutsExactly_iff` — in a build that checks for overflow, below 64 kB only
* `MessageDispatcher.CutsExactly.existsUnique_fragment` — then every byte is in one fragment
-/

namespace Pickleback

open Tiling

namespace MessageDispatcher

variable {overflowChecks : Bool} {payload : List UInt8}

/-- No size that the loop computes overflows, each is between 1 and 1024, the slices `[start, end)`
tile the payload in order, and the loop goes through on any channel. -/
structure CutsExactly (overflowChecks : Bool) (payload : List UInt8) : Prop where
  /-- `num_fragments - 1` does not underflow. -/
  fragments : 1 ≤ UInt16.ofNat (numFragments payload)
  slices : ∃ size : ℕ → UInt16,
    (∀ i < numFragments payload,
      fragmentSize overflowChecks payload.length (UInt16.ofNat (numFragments payload))
        (UInt16.ofNat i)
        = .ok (size i) ∧ 1 ≤ size i ∧ size i ≤ 1024) ∧
    Tiles 0 ((List.range (numFragments payload)).map fun i => (i * 1024, i * 1024 + (size i).toNat))
      payload.length
  returns : ∀ (d : MessageDispatcher) (pool : BufPool) (ch : Channel), ch.id < 64 →
    ∃ r, d.addLargeMessageToChannel overflowChecks pool ch payload = .ok r

/-- A payload that is cut at all is cut exactly. -/
theorem cutsExactly_of_cuttable (hlarge : 1024 < payload.length)
    (hlen : payload.length ≤ 1024 * maxFragments)
    (hcut : Cuttable overflowChecks payload) : CutsExactly overflowChecks payload where
  fragments := by
    rw [UInt16.le_iff_toNat_le, toNat_ofNat_numFragments hlen]
    exact lt_numFragments_iff.mpr (by omega)
  slices := by
    have hsize : ∀ i : ℕ, ∃ size : UInt16, i < numFragments payload →
        fragmentSize overflowChecks payload.length (UInt16.ofNat (numFragments payload))
          (UInt16.ofNat i)
          = .ok size := by
      intro i
      by_cases hi : i < numFragments payload
      · obtain ⟨size, hsize⟩ := exists_fragmentSize hlen hlarge hcut hi
        exact ⟨size, fun _ => hsize⟩
      · exact ⟨0, fun hi' => absurd hi' hi⟩
    choose size hsize using hsize
    have htoNat : ∀ i < numFragments payload, (size i).toNat =
      min 1024 (payload.length - i * 1024) :=
      fun i hi => toNat_fragmentSize hlen hi (hsize i hi)
    refine ⟨size, fun i hi => ⟨hsize i hi, ?_, ?_⟩, ?_⟩
    · have := lt_numFragments_iff.mp hi
      rw [UInt16.le_iff_toNat_le, htoNat i hi]
      show 1 ≤ _
      omega
    · rw [UInt16.le_iff_toNat_le, htoNat i hi]
      exact min_le_left _ _
    · -- the slices lie between the cuts `0, 1024, 2048, …`, the last of them at the end
      have hlast : ¬ numFragments payload * 1024 < payload.length := fun hc =>
        lt_irrefl _ (lt_numFragments_iff.mpr hc)
      have hcuts : ∀ i, i < 0 + numFragments payload →
          min (i * 1024) payload.length < min ((i + 1) * 1024) payload.length := by
        intro i hi
        have := lt_numFragments_iff.mp (show i < numFragments payload by omega)
        omega
      have htiles := tiles_of_cuts hcuts
      rw [← List.range_eq_range'] at htiles
      rw [Nat.zero_mul, Nat.zero_min, Nat.zero_add, min_eq_right (not_lt.mp hlast)] at htiles
      have hspans : ((List.range (numFragments payload)).map fun i =>
            (i * 1024, i * 1024 + (size i).toNat))
          = (List.range (numFragments payload)).map fun i =>
            (min (i * 1024) payload.length, min ((i + 1) * 1024) payload.length) := by
        refine List.map_congr_left fun i hi => ?_
        rw [List.mem_range] at hi
        have := lt_numFragments_iff.mp hi
        rw [htoNat i hi, Prod.mk.injEq]
        omega
      rw [hspans]
      exact htiles
  returns := by
    intro d pool ch hchan
    obtain ⟨res, d', ch', pool', hcall, -⟩ :=
      exists_addLargeMessageToChannel hlen hlarge hcut d pool hchan
    exact ⟨_, hcall⟩

/-- Every byte of the payload is in the slice of exactly one fragment. -/
theorem CutsExactly.existsUnique_fragment (h : CutsExactly overflowChecks payload) {k : ℕ}
    (hk : k < payload.length) : ∃! i, i < numFragments payload ∧ ∃ size,
      fragmentSize overflowChecks payload.length (UInt16.ofNat (numFragments payload))
      (UInt16.ofNat i)
        = .ok size ∧ i * 1024 ≤ k ∧ k < i * 1024 + size.toNat := by
  obtain ⟨size, hsize, htiles⟩ := h.slices
  obtain ⟨s, ⟨hs, hlo, hhi⟩, hunique⟩ := htiles.existsUnique (Nat.zero_le k) hk
  obtain ⟨i, hi, rfl⟩ := List.mem_map.mp hs
  rw [List.mem_range] at hi
  refine ⟨i, ⟨hi, size i, (hsize i hi).1, hlo, hhi⟩, ?_⟩
  rintro j ⟨hj, size', hsize', hlo', hhi'⟩
  have heq := (hsize j hj).1
  rw [hsize', Except.ok.injEq] at heq
  subst heq
  have hsame := hunique _ ⟨List.mem_map_of_mem (List.mem_range.mpr hj), hlo', hhi'⟩
  rw [Prod.mk.injEq] at hsame
  omega

/-- From 64 kB on, the size of the last fragment overflows. -/
theorem not_cutsExactly_of_le (hlen : payload.length ≤ 1024 * maxFragments)
    (hbig : 65536 ≤ payload.length) :
    ¬ CutsExactly true payload := by
  rintro ⟨-, ⟨size, hsize, -⟩, -⟩
  have hpos : 63 < numFragments payload := lt_numFragments_iff.mpr (by omega)
  have hlast := fragmentSize_last hlen hbig
  rw [(hsize (numFragments payload - 1) (by omega)).1] at hlast
  cases hlast

/-- **Fragment sizes are exact** for the payloads below 64 kB and for no others, in a build that
checks for overflow. -/
theorem cutsExactly_iff (hlarge : 1024 < payload.length)
    (hlen : payload.length ≤ 1024 * maxFragments) :
    CutsExactly true payload ↔ payload.length < 65536 := by
  constructor
  · intro h
    by_contra hbig
    exact not_cutsExactly_of_le hlen (by omega) h
  · exact fun hsmall => cutsExactly_of_cuttable hlarge hlen fun _ => hsmall

theorem cutsExactly_iff_two :
    CutsExactly true (List.replicate 1025 0) ↔ (List.replicate 1025 (0 : UInt8)).length < 65536 :=
  cutsExactly_iff (by rw [List.length_replicate]; decide) (by rw [List.length_replicate]; decide)

/-- 64 kB are within the default limit on messages, and too much for the arithmetic. -/
theorem not_cutsExactly_64k : ¬ ∀ payload : List UInt8, 1024 < payload.length →
    payload.length ≤ PicklebackConfig.default.maxMessageSize → CutsExactly true payload := by
  intro h
  have hlen : (List.replicate 65536 (0 : UInt8)).length = 65536 := List.length_replicate
  refine not_cutsExactly_of_le ?_ (by omega) (h (List.replicate 65536 0) (by omega) ?_)
  · rw [hlen, maxFragments]
    decide
  · rw [hlen, PicklebackConfig.default, maxFragments]
    decide

end MessageDispatcher

end Pickleback
