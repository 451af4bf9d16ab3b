import Mathlib.Data.UInt
import Pickleback.Endpoint

/-!
# The scan for lost packets

`update_packet_loss_calculation` walks back from the newest sent packet until it meets an id that is
not in the buffer, or has sampled enough. A packet that is too young to be judged is skipped, and
nothing counts the skips. What ends the walk is the ring itself: `n` slots hold at most `n` ids, so
of `n + 1` different ones it cannot hold all.

## Main definitions

* `LossScanTakes` — how many lookups the scan makes

## Main results

* `SequenceBuffer.card_le_len` — a buffer holds at most as many ids as it has slots
* `Endpoint.lossScanTakes_le` — the scan makes at most one lookup more than there are slots
-/

namespace Pickleback

namespace SequenceBuffer

variable {T : Type} {b : SequenceBuffer T}

theorem index_lt (hpos : 0 < b.len) (hlen : b.len < 65536) (s : UInt16) : b.index s < b.len := by
  rw [index_eq hlen]
  exact Nat.mod_lt _ hpos

/-- A slot holds one id. -/
theorem eq_of_index_eq {s t : UInt16} (hs : b.existsSequence s = true)
    (ht : b.existsSequence t = true)
    (h : b.index s = b.index t) : s = t := by
  rw [existsSequence_iff] at hs ht
  rw [h, ht] at hs
  exact (Option.some.inj hs).symm

/-- **Pigeons.** A buffer holds at most as many ids as it has slots. -/
theorem card_le_len (hpos : 0 < b.len) (hlen : b.len < 65536) {ids : Finset UInt16}
    (h : ∀ s ∈ ids, b.existsSequence s = true) : ids.card ≤ b.len := by
  have hslots : Set.MapsTo b.index ids (Finset.range b.len) := fun s _ =>
    Finset.mem_coe.mpr (Finset.mem_range.mpr (index_lt hpos hlen s))
  have hinj : Set.InjOn b.index ids := fun s hs t ht heq => eq_of_index_eq (h s hs) (h t ht) heq
  have := Finset.card_le_card_of_injOn b.index hslots hinj
  rwa [Finset.card_range] at this

/-- Walking back from any id, an absent one is met after at most as many steps as there are
slots. -/
theorem exists_absent (hpos : 0 < b.len) (hlen : b.len < 65536) (s : UInt16) :
    ∃ i ≤ b.len, b.existsSequence (s - UInt16.ofNat i) = false := by
  by_contra hall
  push Not at hall
  have hinj : Set.InjOn (fun i => s - UInt16.ofNat i) (Finset.range (b.len + 1)) := by
    intro i hi j hj heq
    have hi' := Finset.mem_range.mp (Finset.mem_coe.mp hi)
    have hj' := Finset.mem_range.mp (Finset.mem_coe.mp hj)
    have hnat := congrArg UInt16.toNat (sub_right_inj.mp heq)
    rwa [UInt16.toNat_ofNat_of_lt' (by show i < 65536; omega),
      UInt16.toNat_ofNat_of_lt' (by show j < 65536; omega)] at hnat
  have hheld : ∀ t ∈ (Finset.range (b.len + 1)).image fun i =>
    s - UInt16.ofNat i, b.existsSequence t = true := by
    intro t ht
    obtain ⟨i, hi, rfl⟩ := Finset.mem_image.mp ht
    simpa using hall i (Nat.lt_succ_iff.mp (Finset.mem_range.mp hi))
  have hcard := card_le_len hpos hlen hheld
  rw [Finset.card_image_of_injOn hinj, Finset.card_range] at hcard
  omega

end SequenceBuffer

namespace Endpoint

variable {b : SequenceBuffer SentMeta} {cutoff : Time} {fuel : ℕ} {seq : UInt16} {numAcked : ℕ}
  {numSampled : UInt16}

/-- The scan makes `n` lookups from here on: it returns if allowed as many, and not with fewer. -/
def LossScanTakes (b : SequenceBuffer SentMeta) (cutoff : Time) (seq : UInt16) (numAcked : ℕ)
    (numSampled : UInt16) (n : ℕ) : Prop :=
  ∃ r, ∀ fuel, lossScan b cutoff fuel seq numAcked numSampled
    = if fuel < n then .error .nontermination else .ok r

/-- A scan that returns makes no more lookups than it was allowed. -/
theorem exists_lossScanTakes {r : ℕ × UInt16}
    (h : lossScan b cutoff fuel seq numAcked numSampled = .ok r) :
    ∃ n ≤ fuel, LossScanTakes b cutoff seq numAcked numSampled n := by
  induction fuel generalizing seq numAcked numSampled with
  | zero => cases h
  | succ fuel ih =>
    -- one lookup, after which the scan is at its end or goes on in another state
    have hlast : ∀ r', (∀ k, lossScan b cutoff (k + 1) seq numAcked numSampled = .ok r') →
        ∃ n ≤ fuel + 1, LossScanTakes b cutoff seq numAcked numSampled n := by
      intro r' hr
      refine ⟨1, by omega, r', fun k => ?_⟩
      cases k with
      | zero => rfl
      | succ k => rw [hr k, if_neg (by omega)]
    have hmore : ∀ acked sampled, (∀ k, lossScan b cutoff (k + 1) seq numAcked numSampled
          = lossScan b cutoff k (seq - 1) acked sampled) →
        ∃ n ≤ fuel + 1, LossScanTakes b cutoff seq numAcked numSampled n := by
      intro acked sampled hstep
      rw [hstep] at h
      obtain ⟨n, hn, r', hr⟩ := ih h
      refine ⟨n + 1, by omega, r', fun k => ?_⟩
      cases k with
      | zero => rfl
      | succ k =>
        rw [hstep, hr k]
        exact if_congr (by omega) rfl rfl
    cases hget : b.get seq with
    | none => exact hlast (numAcked, numSampled) fun k => by simp only [lossScan, hget]
    | some sentMeta =>
      by_cases hyoung : sentMeta.time > cutoff
      · exact hmore numAcked numSampled fun k => by simp only [lossScan, hget, if_pos hyoung]
      by_cases henough : numSampled + 1 = packetLossRecalculateInterval
      · exact hlast (if sentMeta.acked then numAcked + 1 else numAcked, numSampled + 1) fun k => by
          simp only [lossScan, hget, if_neg hyoung, if_pos henough]
      · exact hmore (if sentMeta.acked then numAcked + 1 else numAcked) (numSampled + 1) fun k => by
          simp only [lossScan, hget, if_neg hyoung, if_neg henough]

/-- A scan that does not end finds every id it looks at. -/
theorem existsSequence_of_lossScan {q : Panic}
    (h : lossScan b cutoff fuel seq numAcked numSampled = .error q) :
    ∀ i < fuel, b.existsSequence (seq - UInt16.ofNat i) = true := by
  induction fuel generalizing seq numAcked numSampled with
  | zero => exact fun i hi => absurd hi (Nat.not_lt_zero i)
  | succ fuel ih =>
    simp only [lossScan] at h
    split at h
    · cases h
    · next sentMeta hget =>
      have hrest : ∀ i < fuel, b.existsSequence (seq - 1 - UInt16.ofNat i) = true := by
        split at h
        · exact ih h
        · split at h
          · cases h
          · exact ih h
      intro i hi
      cases i with
      | zero => simpa using (SequenceBuffer.get_eq_some_iff.mp hget).1
      | succ i =>
        have hstep : seq - UInt16.ofNat (i + 1) = seq - 1 - UInt16.ofNat i := by
          rw [UInt16.ofNat_add]
          simp only [UInt16.sub_eq_add_neg, UInt16.neg_add]
          ac_rfl
        rw [hstep]
        exact hrest i (by omega)

/-- **The scan ends**: allowed one lookup more than there are slots, it returns. -/
theorem exists_lossScan (hpos : 0 < b.len) (hlen : b.len < 65536)
    (hfuel : b.len < fuel) (cutoff : Time)
    (seq : UInt16) (numAcked : ℕ) (numSampled : UInt16) :
    ∃ r, lossScan b cutoff fuel seq numAcked numSampled = .ok r := by
  cases hscan : lossScan b cutoff fuel seq numAcked numSampled with
  | ok r => exact ⟨r, rfl⟩
  | error q =>
    obtain ⟨i, hi, habsent⟩ := SequenceBuffer.exists_absent hpos hlen seq
    rw [existsSequence_of_lossScan hscan i (by omega)] at habsent
    cases habsent

/-- **The scan of `update_packet_loss_calculation`** looks up at most one id more than the buffer of
sent packets has slots, whatever is in the buffer and wherever the cutoff lies. -/
theorem lossScanTakes_le (hpos : 1 ≤ b.len) (hlen : b.len ≤ 65535) (cutoff : Time) :
    ∃ n ≤ b.len + 1, LossScanTakes b cutoff b.sequence 0 0 n := by
  obtain ⟨r, hscan⟩ := exists_lossScan hpos (by omega) (Nat.lt_succ_self b.len)
    cutoff b.sequence 0 0
  exact exists_lossScanTakes hscan

/-- Three slots, all filled with packets younger than the cutoff. -/
theorem lossScanTakes_le_three :
    ∃ n ≤ 3 + 1, LossScanTakes ⟨fun _ => ⟨1, false, 0, 0⟩, fun i => some (UInt16.ofNat i), 3, 2⟩
      0 2 0 0 n :=
  lossScanTakes_le (b := ⟨fun _ => ⟨1, false, 0, 0⟩, fun i => some (UInt16.ofNat i), 3, 2⟩)
    (by decide)
    (by decide) 0

/-- So the packet loss is always calculated. -/
theorem exists_updatePacketLossCalculation {p : Endpoint} (hpos : 0 < p.sentBuffer.len)
    (hlen : p.sentBuffer.len < 65536) :
    ∃ packetLoss, p.updatePacketLossCalculation = .ok { p with packetLoss := packetLoss } := by
  have hfuel : p.sentBuffer.len < 65537 := by omega
  obtain ⟨⟨numAcked, numSampled⟩, hscan⟩ :=
    exists_lossScan hpos hlen hfuel (p.time - p.rtt * (11 / 10))
    p.sentBuffer.sequence 0 0
  simp only [updatePacketLossCalculation, hscan]
  split
  · exact ⟨p.packetLoss, rfl⟩
  · exact ⟨_, rfl⟩

end Endpoint

end Pickleback
