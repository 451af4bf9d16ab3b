import Pickleback.SequenceBuffer

/-!
# Windows of sequence numbers

What a sequence buffer remembers over many insertions. Each buffer is read on integers: `P` is an
unwrapped reading of its newest sequence number, and a sequence number that passes the window test
is read between `P - len` and `P - len + 32768`.

A slot changes only when its residue is written or skipped over (`Disturbs`). When `len` divides
`65536`, slots of different readings inside one window are different, so nothing is forgotten before
it leaves the window. When it does not divide, the residues jump where the numbers wrap.

## Main results

* `exists_lifts_of_checkSequence`, `newer_iff_of_lifts` — the tests of the buffer, on readings
* `insert_of_not_disturbs`, `entrySequences_insert_of_disturbs` — the fate of a slot
* `held_insert` — with `len ∣ 65536`, an id is kept as long as it is inside the window
* `Ring.insert`, `Ring.existsSequence_iff` — a ring of 512 slots shows exactly what was inserted, if
  no jump is longer than the ring
-/

namespace Pickleback

namespace SequenceBuffer

open Serial

variable {T : Type}

/-! ### The tests of the buffer, on readings -/

theorem lifts_windowStart {b : SequenceBuffer T} {P : ℤ} (hP : Lifts b.sequence P) :
    Lifts (b.sequence - UInt16.ofNat b.len) (P - b.len) :=
  hP.sub (lifts_ofNat b.len)

theorem checkSequence_iff_of_lifts {b : SequenceBuffer T} {s : UInt16} {P e : ℤ}
    (hP : Lifts b.sequence P) (hs : Lifts s e) (h₁ : P - b.len - 32768 < e)
    (h₂ : e < P - b.len + 32768) : b.checkSequence s = true ↔ P - b.len < e := by
  rw [checkSequence, sequenceGreaterThan_iff_of_lifts hs (lifts_windowStart hP) (by omega) h₂]
  omega

/-- What passes the window test has a reading at most half a turn past the start of the window. -/
theorem exists_lifts_of_checkSequence {b : SequenceBuffer T} {s : UInt16} {P : ℤ}
    (hP : Lifts b.sequence P) (h : b.checkSequence s = true) :
    ∃ e, Lifts s e ∧ P - b.len < e ∧ e ≤ P - b.len + 32768 := by
  have hstart := lifts_windowStart hP
  have hs := lifts_toNat s
  rw [checkSequence, sequenceGreaterThan_iff] at h
  simp only [Lifts] at hstart hs
  refine ⟨P - b.len + (s.toNat - (b.sequence - UInt16.ofNat b.len).toNat) % 65536, ?_, ?_, ?_⟩
  · simp only [Lifts]
    omega
  · omega
  · omega

theorem newer_iff_of_lifts {b : SequenceBuffer T} {s : UInt16} {P e : ℤ}
    (hP : Lifts b.sequence P) (hs : Lifts s e) (h₁ : P - 32768 < e) (h₂ : e < P + 32768) :
    sequenceGreaterThan s b.sequence = true ↔ P < e := by
  rw [sequenceGreaterThan_iff_of_lifts hs hP (by omega) h₂]
  omega

/-! ### Reading -/

theorem get_setEntry {b : SequenceBuffer T} {s : UInt16} {v w : T}
    (h : b.get s = some w) (t : UInt16) :
    (b.setEntry s v).get t = if t = s then some v else b.get t := by
  have hs := (get_eq_some_iff.mp h).1
  rw [existsSequence_iff] at hs
  rw [get, get, index_setEntry, entrySequences_setEntry, entries_setEntry]
  by_cases hts : t = s
  · rw [hts, if_pos hs, if_pos rfl, if_pos rfl]
  · rw [if_neg hts]
    by_cases hslot : b.index t = b.index s
    · rw [hslot, hs, if_neg (by simpa [eq_comm] using hts), if_neg (by simpa [eq_comm] using hts)]
    · rw [if_neg hslot]

theorem get_of_get_remove [Inhabited T] {b : SequenceBuffer T} {s t : UInt16} {w : T}
    (hget : (b.remove t).2.get s = some w) : b.get s = some w := by
  rw [get_eq_some_iff, existsSequence_iff, index_remove, entrySequences_remove, entries_remove]
    at hget
  by_cases hslot : b.index s = b.index t
  · rw [if_pos hslot] at hget
    cases hget.1
  · rw [if_neg hslot, if_neg hslot] at hget
    rw [get_eq_some_iff, existsSequence_iff]
    exact hget

/-! ### Moving forward -/

/-- How far the front of a buffer is ahead of an earlier state of it. -/
def advance (b b' : SequenceBuffer T) : ℕ := (b'.sequence - b.sequence).toNat

@[simp] theorem advance_self (b : SequenceBuffer T) : b.advance b = 0 := by
  simp [advance]

theorem advance_of_lifts {b b' : SequenceBuffer T} {P Q : ℤ} (hP : Lifts b.sequence P)
    (hQ : Lifts b'.sequence Q) (h₁ : P ≤ Q) (h₂ : Q < P + 65536) :
    (b.advance b' : ℤ) = Q - P := by
  have h := hQ.sub hP
  simp only [Lifts] at h
  rw [advance, h]
  omega

/-! ### The fate of a slot -/

/-- Inserting `t` writes slot `i`, or empties it on the way forward. -/
def Disturbs (b : SequenceBuffer T) (t : UInt16) (i : ℕ) : Prop :=
  b.index t = i ∨
    (sequenceGreaterThan t b.sequence = true ∧ b.sequence + 1 ≠ t ∧
      ∃ x, b.sequence + 1 ≤ x ∧ x ≤ t ∧ b.index x = i)

/-- A slot that survives a jump within one turn was not passed over. -/
theorem index_ne_of_not_disturbs {b : SequenceBuffer T} {P Q : ℤ} {i : ℕ} (hP : Lifts b.sequence P)
    (hlt : P < Q) (hle : Q ≤ P + 32767) (hturn : P / 65536 = Q / 65536)
    (h : ¬ b.Disturbs (wrap Q) i) {x : ℤ} (h₁ : P < x) (h₂ : x ≤ Q) : b.index (wrap x) ≠ i := by
  intro hx
  have hQ := toNat_wrap Q
  have hxw := toNat_wrap x
  have hsucc := hP.succ
  simp only [Lifts] at hsucc
  refine h ?_
  by_cases hxQ : x = Q
  · exact Or.inl (hxQ ▸ hx)
  · refine Or.inr ⟨?_, ?_, wrap x, ?_, ?_, hx⟩
    · exact (newer_iff_of_lifts hP (lifts_wrap Q) (by omega) (by omega)).mpr hlt
    · rw [Ne, ← UInt16.toNat_inj]
      omega
    · rw [UInt16.le_iff_toNat_le]
      omega
    · rw [UInt16.le_iff_toNat_le]
      omega

section Insert

variable [Inhabited T] {b b' : SequenceBuffer T} {t : UInt16} {v : T} {i : ℕ}

theorem insert_of_not_disturbs (h : b.insert t v = .ok b') (hi : ¬ b.Disturbs t i) :
    b'.entrySequences i = b.entrySequences i ∧ b'.entries i = b.entries i := by
  simp only [Disturbs, not_or] at hi
  obtain ⟨hwrite, hskip⟩ := hi
  obtain ⟨-, ⟨hnew, rfl⟩ | ⟨-, rfl⟩⟩ := insert_cases h
  · have hindex : (b.moveTo t).index t = b.index t := index_congr (len_moveTo b t) t
    rw [entrySequences_write, entries_write, hindex, if_neg (Ne.symm hwrite),
      if_neg (Ne.symm hwrite)]
    by_cases hsucc : b.sequence + 1 = t
    · simp [moveTo, hsucc]
    · exact moveTo_of_not_mem fun x h₁ h₂ hx => hskip ⟨hnew, hsucc, x, h₁, h₂, hx⟩
  · rw [entrySequences_write, entries_write, if_neg (Ne.symm hwrite), if_neg (Ne.symm hwrite)]
    exact ⟨rfl, rfl⟩

theorem entrySequences_insert_of_disturbs (h : b.insert t v = .ok b') (hi : b.Disturbs t i) :
    (b.index t = i ∧ b'.entrySequences i = some t) ∨ b'.entrySequences i = none := by
  by_cases hwrite : b.index t = i
  · have hget := get_insert_self h
    rw [get_eq_some_iff, existsSequence_iff, index_of_insert h, hwrite] at hget
    exact Or.inl ⟨hwrite, hget.1⟩
  · obtain hw | ⟨hnew, hsucc, x, h₁, h₂, hx⟩ := hi
    · exact absurd hw hwrite
    · obtain ⟨-, ⟨-, rfl⟩ | ⟨hold, -⟩⟩ := insert_cases h
      · have hindex : (b.moveTo t).index t = b.index t := index_congr (len_moveTo b t) t
        right
        rw [entrySequences_write, hindex, if_neg (Ne.symm hwrite), ← hx]
        exact entrySequences_moveTo_of_mem h₁ h₂ hsucc
      · rw [hnew] at hold
        cases hold

/-- An insertion adds one entry, and otherwise only removes. -/
theorem get_of_get_insert {s : UInt16} {w : T} (h : b.insert t v = .ok b')
    (hget : b'.get s = some w) :
    (s = t ∧ w = v) ∨ b.get s = some w := by
  by_cases hdist : b.Disturbs t (b.index s)
  · have hexists := (get_eq_some_iff.mp hget).1
    rw [existsSequence_iff, index_of_insert h] at hexists
    obtain ⟨-, hslot⟩ | hslot := entrySequences_insert_of_disturbs h hdist
    · obtain rfl : s = t := Option.some.inj (hexists.symm.trans hslot)
      exact Or.inl ⟨rfl, Option.some.inj (hget.symm.trans (get_insert_self h))⟩
    · rw [hexists] at hslot
      cases hslot
  · right
    obtain ⟨hseq, hentry⟩ := insert_of_not_disturbs h hdist
    rw [get, index_of_insert h, hseq, hentry] at hget
    rwa [get]

/-- The newest sequence number only ever moves forward, to what was inserted. -/
theorem sequence_insert (h : b.insert t v = .ok b') :
    b'.sequence = if sequenceGreaterThan t b.sequence = true then t else b.sequence := by
  obtain ⟨-, ⟨hnew, rfl⟩ | ⟨hold, rfl⟩⟩ := insert_cases h
  · simp [hnew]
  · simp [hold]

/-- Inserting the next sequence number moves forward by one. -/
theorem sequence_insert_succ (ht : t = b.sequence + 1) (h : b.insert t v = .ok b') :
    b'.sequence = t := by
  rw [sequence_insert h, ht, if_pos (sequenceGreaterThan_succ b.sequence)]

/-- After an insertion, the following id is not too old either. -/
theorem sequenceLessThan_succ (hlen : b.len ≤ 32000) (h : b.insert t v = .ok b') :
    sequenceLessThan (t + 1) (b'.sequence - UInt16.ofNat b'.len) = false := by
  obtain ⟨hold, -⟩ := insert_cases h
  have hseq := sequence_insert h
  have ht := t.toNat_lt
  have hb := b.sequence.toNat_lt
  have hn : (UInt16.ofNat b.len).toNat = b.len := by
    rw [UInt16.toNat_ofNat', Nat.mod_eq_of_lt (by omega)]
  rw [← Bool.not_eq_true, sequenceLessThan, sequenceGreaterThan_iff, UInt16.toNat_sub, hn] at hold
  rw [len_insert h, ← Bool.not_eq_true, sequenceLessThan, sequenceGreaterThan_iff,
    UInt16.toNat_sub, hn,
    UInt16.toNat_add, hseq]
  simp only [UInt16.reduceToNat]
  split
  · omega
  · next hnew =>
    rw [sequenceGreaterThan_iff] at hnew
    omega

theorem sequenceLessThan_succ_of_insert (hlen : b.len = 512) (h : b.insert t v = .ok b') :
    sequenceLessThan (t + 1) (b'.sequence - 512) = false := by
  have hlen' : UInt16.ofNat b'.len = 512 := by
    rw [len_insert h, hlen]
    rfl
  rw [← hlen']
  exact sequenceLessThan_succ (by omega) h

end Insert

/-! ### Windows whose length divides the number space -/

section Dividing

variable {b b' : SequenceBuffer T} {t : UInt16} {v : T} {P e f : ℤ}

/-- Slots of readings: with `len ∣ 65536` the slot is a residue of the reading itself. -/
theorem index_eq_emod (hlen : b.len ≤ 32768) (hdvd : (b.len : ℤ) ∣ 65536) (hs : Lifts t e) :
    (b.index t : ℤ) = e % b.len := by
  rw [index_eq (by omega), Int.natCast_emod, hs]
  exact Int.emod_emod_of_dvd e hdvd

theorem index_ne_of_lifts (hlen : b.len ≤ 32768) (hdvd : (b.len : ℤ) ∣ 65536) {s : UInt16}
    (hs : Lifts s e) (ht : Lifts t f) (h₁ : e < f) (h₂ : f < e + b.len) :
    b.index t ≠ b.index s := by
  intro h
  have hmod : e % b.len = f % b.len := by
    rw [← index_eq_emod hlen hdvd hs, ← index_eq_emod hlen hdvd ht, h]
  have hdiv : (b.len : ℤ) ∣ f - e := Int.ModEq.dvd hmod
  have := Int.le_of_dvd (by omega) hdiv
  omega

/-- The id read as `e` is in its slot, unless the window has moved past it. -/
def Held (b : SequenceBuffer T) (P e : ℤ) : Prop :=
  P < e + b.len → b.entrySequences (b.index (wrap e)) = some (wrap e)

/-- A reading behind a forward jump, skipped ids included, is not disturbed by it. -/
theorem not_disturbs_of_lifts (hlen : b.len ≤ 32768) (hdvd : (b.len : ℤ) ∣ 65536)
    (hP : Lifts b.sequence P) (ht : Lifts t f) (hne : e ≠ f) (heP : e ≤ P)
    (hf : P - b.len < f) (hf' : f ≤ P + 32767) (hwin : max P f < e + b.len) :
    ¬ b.Disturbs t (b.index (wrap e)) := by
  rintro (h | ⟨hnew, -, x, h₁, h₂, hx⟩)
  · rcases lt_or_gt_of_ne hne with hlt | hgt
    · exact index_ne_of_lifts hlen hdvd (lifts_wrap e) ht hlt (by omega) h
    · exact index_ne_of_lifts hlen hdvd ht (lifts_wrap e) hgt (by omega) h.symm
  · -- a skipped id lies between the old and the new front, read without a wrap
    have hfP : P < f := by
      by_contra hle
      rw [newer_iff_of_lifts hP ht (by omega) (by omega)] at hnew
      exact hle hnew
    have hsucc := hP.succ
    rw [UInt16.le_iff_toNat_le] at h₁ h₂
    have hxl : Lifts x (f - (t.toNat - x.toNat)) := by
      simp only [Lifts] at ht ⊢
      omega
    refine index_ne_of_lifts hlen hdvd (lifts_wrap e) hxl ?_ (by omega) hx
    simp only [Lifts] at ht hsucc
    omega

variable [Inhabited T]

/-- What is inside the window before and after an insertion is the same entry. -/
theorem get_insert_of_lifts (hlen : b.len ≤ 32768) (hdvd : (b.len : ℤ) ∣ 65536)
    (hP : Lifts b.sequence P) (ht : Lifts t f) (hf : P - b.len < f) (hf' : f ≤ P + 32767)
    (h : b.insert t v = .ok b') (heP : e ≤ P) (hef : e ≠ f) (hwin : max P f < e + b.len) :
    b'.get (wrap e) = b.get (wrap e) := by
  have hnot := not_disturbs_of_lifts hlen hdvd hP ht hef heP hf hf' hwin
  rw [get, get, index_of_insert h, (insert_of_not_disturbs h hnot).1,
    (insert_of_not_disturbs h hnot).2]

/-- One insertion keeps what is inside the window: the newest reading becomes `max P f`. -/
theorem held_insert (hlen : b.len ≤ 32768) (hdvd : (b.len : ℤ) ∣ 65536)
    (hP : Lifts b.sequence P) (ht : Lifts t f) (hf : P - b.len < f) (hf' : f ≤ P + 32767)
    (h : b.insert t v = .ok b') (heP : e ≤ P) (hheld : b.Held P e) :
    b'.Held (max P f) e := by
  intro hwin
  rw [len_insert h] at hwin
  rw [index_of_insert h]
  by_cases hef : e = f
  · have hget := get_insert_self h
    rw [get_eq_some_iff, existsSequence_iff, index_of_insert h, ht.eq_wrap, ← hef] at hget
    exact hget.1
  · have hnot := not_disturbs_of_lifts hlen hdvd hP ht hef heP hf hf' hwin
    rw [(insert_of_not_disturbs h hnot).1]
    exact hheld (by omega)

theorem lifts_sequence_insert (hP : Lifts b.sequence P) (ht : Lifts t f) (hf : P - 32768 < f)
    (hf' : f ≤ P + 32767) (h : b.insert t v = .ok b') : Lifts b'.sequence (max P f) := by
  rw [sequence_insert h]
  by_cases hfP : P < f
  · rw [if_pos ((newer_iff_of_lifts hP ht hf (by omega)).mpr hfP), max_eq_right hfP.le]
    exact ht
  · rw [if_neg (fun hc => hfP ((newer_iff_of_lifts hP ht hf (by omega)).mp hc)),
      max_eq_left (by omega)]
    exact hP

end Dividing

/-! ### Rings of 512 slots -/

/-- How old an entry read as `e` can be when the front is at `P`: inside the window, or up to twice
as old if the ids have wrapped since, because a jump across the wrap empties no slot. -/
def Young (P e : ℕ) : Prop :=
  e ≤ P ∧ (P < e + 512 ∨ (P < e + 1024 ∧ e / 65536 < P / 65536))

/-- A window of 512 slots into which the numbers in `A` were inserted, the newest of them `P`. -/
structure Ring (b : SequenceBuffer T) (P : ℕ) (A : Set ℕ) : Prop where
  len : b.len = 512
  front : Lifts b.sequence P
  held : ∀ e ∈ A, e ≤ P ∧ b.Held P e
  young : ∀ i s, b.entrySequences i = some s → ∃ e ∈ A, s = wrap e ∧ e % 512 = i ∧ Young P e

section Ring

variable {b b' : SequenceBuffer T} {P y : ℕ} {A : Set ℕ}

theorem ring_withCapacity [Inhabited T] : (withCapacity 512 : SequenceBuffer T).Ring 0 ∅ where
  len := rfl
  front := rfl
  held := by simp
  young := by simp

theorem Ring.index_wrap (h : b.Ring P A) (y : ℕ) : b.index (wrap y) = y % 512 := by
  have := index_eq_emod (by rw [h.len]; norm_num) (by rw [h.len]; norm_num) (lifts_wrap (y : ℤ))
  rw [h.len] at this
  omega

/-- What is found in a ring was inserted, not long ago. -/
theorem Ring.young_of_exists (h : b.Ring P A) (hy : P < y + 64000) (hy' : y < P + 64000)
    (hfound : b.existsSequence (wrap y) = true) : y ∈ A ∧ Young P y := by
  rw [existsSequence_iff] at hfound
  obtain ⟨e, he, heq, -, hyoung⟩ := h.young _ _ hfound
  obtain ⟨hle, hage⟩ := hyoung
  obtain rfl : y = e := by
    have := (wrap_inj (z := y) (w := e) (by omega) (by omega)).mp heq
    omega
  exact ⟨he, hle, hage⟩

/-- **Inside the window a ring answers exactly what was inserted.** -/
theorem Ring.existsSequence_iff (h : b.Ring P A) (hle : y ≤ P) (hwin : P < y + 512) :
    b.existsSequence (wrap y) = true ↔ y ∈ A := by
  refine ⟨fun hfound => (h.young_of_exists (by omega) (by omega) hfound).1, fun hy => ?_⟩
  rw [SequenceBuffer.existsSequence_iff]
  exact (h.held y hy).2 (by rw [h.len]; omega)

/-- The window test, on numbers. -/
theorem Ring.checkSequence_iff (h : b.Ring P A) (hy : P < y + 32000) (hy' : y < P + 32000) :
    b.checkSequence (wrap y) = true ↔ P < y + 512 := by
  rw [checkSequence_iff_of_lifts h.front (lifts_wrap y) (by rw [h.len]; omega)
    (by rw [h.len]; omega), h.len]
  omega

variable [Inhabited T] {v : T} {f : ℕ}

/-- **One insertion** into a ring, from the start of the window to 512 ahead of the front. -/
theorem Ring.insert (h : b.Ring P A) (hf : P < f + 512) (hf' : f ≤ P + 512)
    (hins : b.insert (wrap f) v = .ok b') : b'.Ring (max P f) (Insert.insert f A) where
  len := (len_insert hins).trans h.len
  front := by
    have := lifts_sequence_insert h.front (lifts_wrap f) (by omega) (by omega) hins
    push_cast
    exact this
  held := by
    intro e he
    rcases Set.mem_insert_iff.mp he with rfl | he
    · refine ⟨le_max_right _ _, fun _ => ?_⟩
      have hget := get_insert_self hins
      rw [get_eq_some_iff, SequenceBuffer.existsSequence_iff] at hget
      exact hget.1
    · obtain ⟨hle, hheld⟩ := h.held e he
      refine ⟨hle.trans (le_max_left _ _), ?_⟩
      have := held_insert (by rw [h.len]; norm_num) (by rw [h.len]; norm_num) h.front (lifts_wrap f)
        (by rw [h.len]; omega) (by omega) hins (by omega) hheld
      push_cast
      exact this
  young := by
    intro i s hs
    by_cases hdist : b.Disturbs (wrap f) i
    · rcases entrySequences_insert_of_disturbs hins hdist with ⟨hi, hw⟩ | hw
      · rw [hw, Option.some.injEq] at hs
        refine ⟨f, Set.mem_insert f A, hs.symm, by rw [← hi, h.index_wrap], le_max_right _ _, ?_⟩
        left
        omega
      · rw [hw] at hs
        cases hs
    · rw [(insert_of_not_disturbs hins hdist).1] at hs
      obtain ⟨e, he, heq, hslot, hle, hage⟩ := h.young i s hs
      refine ⟨e, Set.mem_insert_of_mem f he, heq, hslot, by omega, ?_⟩
      rcases Nat.lt_or_ge P f with hlt | hge
      · -- the ids of this slot that a jump within one turn would pass over
        have hpass : P / 65536 = f / 65536 → ∀ x : ℕ, P < x → x ≤ f → x % 512 ≠ i := by
          intro hturn x h₁ h₂
          rw [← h.index_wrap x]
          exact index_ne_of_not_disturbs h.front (by omega) (by omega) (by omega) hdist
            (by omega) (by omega)
        have h₁ := fun hturn => hpass hturn (e + 512)
        have h₂ := fun hturn => hpass hturn (e + 1024)
        rw [max_eq_right hlt.le]
        by_cases hturn : P / 65536 = f / 65536
        · have h₁ := h₁ hturn
          have h₂ := h₂ hturn
          omega
        · omega
      · rw [max_eq_left hge]
        exact hage

/-- An insertion leaves the other entries inside the window alone. -/
theorem Ring.get_insert_of_ne (h : b.Ring P A) (hf : P < f + 512) (hf' : f ≤ P + 512)
    (hins : b.insert (wrap f) v = .ok b') (hy : y ≤ P) (hne : y ≠ f) (hwin : max P f < y + 512) :
    b'.get (wrap y) = b.get (wrap y) :=
  get_insert_of_lifts (by rw [h.len]; norm_num) (by rw [h.len]; norm_num) h.front (lifts_wrap f)
    (by rw [h.len]; omega) (by omega) hins (by omega) (by omega) (by rw [h.len]; omega)

end Ring

/-- In a ring into which every number up to `P` was inserted, older ones are not found. -/
theorem Ring.not_exists_of_old {b : SequenceBuffer T} {P y : ℕ} (h : b.Ring P (Set.Icc 1 P))
    (hage : P < y + 64000) (hold : y + 512 ≤ P) : b.existsSequence (wrap y) = false := by
  -- the slot of `y` holds the latest number with the same residue
  obtain ⟨z, hz₁, hz₂, hz⟩ := exists_mod_eq (n := 512) (by omega) (P - 511) (y % 512)
    (Nat.mod_lt _ (by omega))
  have hheld := (h.held z ⟨by omega, by omega⟩).2 (by rw [h.len]; omega)
  rw [h.index_wrap, hz, ← h.index_wrap] at hheld
  rw [← Bool.not_eq_true, SequenceBuffer.existsSequence_iff, hheld, Option.some.injEq,
    wrap_inj (by omega) (by omega)]
  omega

end SequenceBuffer

end Pickleback
