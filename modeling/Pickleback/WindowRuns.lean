import Pickleback.Window

/-!
# Runs of a sequence buffer

A sequence buffer under any calls, beside the record of what it should hold: a value enters the
record when it is inserted, and leaves it when its id is inserted again, removed, or skipped over on
the way forward.

Two laws are wanted of a buffer of `n` slots. It should hold what is in the record and inside the
last `n` ids (`Faithful`), and it should hold nothing else (`Swept`). Both fail, because a slot is
shared by all ids with one residue modulo `n`: a call that writes or empties the slot of one id may
take away another one, and one that moves forward across the wrap empties no slot. For both laws the
calls that keep them are described exactly, by the slots a call addresses.

## Main definitions

* `Call`, `after`, `Addresses` — the calls, what they do, and the ids whose slots they write or
  empty
* `Releases`, `Recorded` — the ids a call takes out of the record, and a buffer with its record
* `Spares`, `Sweeps` — what a call has to respect for each of the laws

## Main results

* `faithful_step_iff`, `faithful_run_iff` — a run is faithful throughout iff its calls spare what is
  in the window
* `swept_step_iff`, `swept_run_iff` — nothing stays behind iff its calls sweep the slots they leave
* `Recorded.spares_insert_of_dvd`, `sweeps_insert_of_dvd` — where the length divides 65536,
  insertions do, but for the ends of what is accepted and for the wrap
* `addresses_insert_of_wrap` — going forward across the wrap empties no slot
-/

namespace Pickleback

namespace SequenceBuffer

open Serial

variable {T : Type}

/-! ### Calls -/

/-- The calls that change a buffer. -/
inductive Call (T : Type) where
  | insert (sequence : UInt16) (data : T)
  | remove (sequence : UInt16)
  | removeRange (first last : UInt16)

/-- The buffer after a call. An insertion that is too old leaves it alone. -/
def after [Inhabited T] (b : SequenceBuffer T) : Call T → SequenceBuffer T
  | .insert s v => match b.insert s v with
    | .ok b' => b'
    | .error _ => b
  | .remove s => (b.remove s).2
  | .removeRange first last => b.removeRange first last

/-- An insertion of `s` is not too old. -/
def Accepts (b : SequenceBuffer T) (s : UInt16) : Prop :=
  sequenceLessThan s (b.sequence - UInt16.ofNat b.len) = false

instance (b : SequenceBuffer T) (s : UInt16) : Decidable (b.Accepts s) :=
  inferInstanceAs (Decidable (_ = _))

/-- The newest id after a call. -/
def frontAfter (b : SequenceBuffer T) : Call T → UInt16
  | .insert s _ =>
    if b.Accepts s ∧ sequenceGreaterThan s b.sequence = true then s else b.sequence
  | .remove _ => b.sequence
  | .removeRange _ _ => b.sequence

/-- The ids whose slots a call writes or empties. -/
def Addresses (b : SequenceBuffer T) : Call T → UInt16 → Prop
  | .insert s _, x => b.Accepts s ∧ (x = s ∨
      (sequenceGreaterThan s b.sequence = true ∧ b.sequence + 1 ≠ s ∧ b.sequence + 1 ≤ x ∧ x ≤ s))
  | .remove s, x => x = s
  | .removeRange first last, x => first ≤ x ∧ x ≤ last

/-- Going forward to `s` skips `x`, which is strictly ahead of the newest id. -/
def Skips (b : SequenceBuffer T) (s x : UInt16) : Prop :=
  sequenceGreaterThan s b.sequence = true ∧ 0 < x - b.sequence ∧ x - b.sequence < s - b.sequence

instance (b : SequenceBuffer T) (s x : UInt16) : Decidable (b.Skips s x) :=
  inferInstanceAs (Decidable (_ ∧ _))

/-- The ids that a call inserts anew, removes, or skips over. -/
def Releases (b : SequenceBuffer T) : Call T → UInt16 → Prop
  | .insert s _, x => b.Accepts s ∧ (x = s ∨ b.Skips s x)
  | .remove s, x => x = s
  | .removeRange first last, x => first ≤ x ∧ x ≤ last

instance (b : SequenceBuffer T) (c : Call T) (x : UInt16) : Decidable (b.Releases c x) :=
  match c with
  | .insert _ _ => inferInstanceAs (Decidable (_ ∧ _))
  | .remove _ => inferInstanceAs (Decidable (_ = _))
  | .removeRange _ _ => inferInstanceAs (Decidable (_ ∧ _))

/-! ### The slots a call addresses -/

section Slots

variable [Inhabited T] {b : SequenceBuffer T} {c : Call T} {s x : UInt16} {v : T} {i : ℕ}

theorem insert_of_accepts (h : b.Accepts s) (v : T) : ∃ b', b.insert s v = .ok b' := by
  cases hins : b.insert s v with
  | ok b' => exact ⟨b', rfl⟩
  | error e =>
    rw [insert_eq_error_iff] at hins
    rw [Accepts, hins.2] at h
    cases h

theorem after_insert_of_not_accepts (h : ¬ b.Accepts s) (v : T) : b.after (.insert s v) = b := by
  have hold : sequenceLessThan s (b.sequence - UInt16.ofNat b.len) = true := by
    rwa [Accepts, Bool.not_eq_false] at h
  rw [after, insert_of_tooOld hold]

theorem after_insert {b' : SequenceBuffer T} (h : b.insert s v = .ok b') :
    b.after (.insert s v) = b' := by
  rw [after, h]

theorem len_after (b : SequenceBuffer T) (c : Call T) : (b.after c).len = b.len := by
  cases c with
  | insert s v =>
    by_cases hacc : b.Accepts s
    · obtain ⟨b', hins⟩ := insert_of_accepts hacc v
      rw [after_insert hins, len_insert hins]
    · rw [after_insert_of_not_accepts hacc]
  | remove s => rfl
  | removeRange first last => exact len_removeRange b first last

theorem index_after (b : SequenceBuffer T) (c : Call T) (s : UInt16) :
    (b.after c).index s = b.index s :=
  index_congr (len_after b c) s

theorem sequence_after (b : SequenceBuffer T) (c : Call T) :
    (b.after c).sequence = b.frontAfter c := by
  cases c with
  | insert s v =>
    by_cases hacc : b.Accepts s
    · obtain ⟨b', hins⟩ := insert_of_accepts hacc v
      rw [after_insert hins, sequence_insert hins]
      simp [frontAfter, hacc]
    · rw [after_insert_of_not_accepts hacc]
      simp [frontAfter, hacc]
  | remove s => rfl
  | removeRange first last => exact sequence_removeRange b first last

omit [Inhabited T] in
theorem disturbs_iff (h : b.Accepts s) :
    b.Disturbs s i ↔ ∃ x, b.Addresses (.insert s v) x ∧ b.index x = i := by
  constructor
  · rintro (hi | ⟨hnew, hsucc, x, h₁, h₂, hi⟩)
    · exact ⟨s, ⟨h, Or.inl rfl⟩, hi⟩
    · exact ⟨x, ⟨h, Or.inr ⟨hnew, hsucc, h₁, h₂⟩⟩, hi⟩
  · rintro ⟨x, ⟨-, rfl | ⟨hnew, hsucc, h₁, h₂⟩⟩, hi⟩
    · exact Or.inl hi
    · exact Or.inr ⟨hnew, hsucc, x, h₁, h₂, hi⟩

/-- A slot of no addressed id is left alone. -/
theorem after_of_not_addresses (h : ∀ x, b.Addresses c x → b.index x ≠ i) :
    (b.after c).entrySequences i = b.entrySequences i ∧ (b.after c).entries i = b.entries i := by
  cases c with
  | insert s v =>
    by_cases hacc : b.Accepts s
    · obtain ⟨b', hins⟩ := insert_of_accepts hacc v
      rw [after_insert hins]
      refine insert_of_not_disturbs hins fun hdist => ?_
      obtain ⟨x, hx, hi⟩ := (disturbs_iff (v := v) hacc).mp hdist
      exact h x hx hi
    · rw [after_insert_of_not_accepts hacc]
      exact ⟨rfl, rfl⟩
  | remove s =>
    have hi : i ≠ b.index s := fun hi => h s rfl hi.symm
    rw [after, entrySequences_remove, entries_remove, if_neg hi, if_neg hi]
    exact ⟨rfl, rfl⟩
  | removeRange first last => exact removeRange_of_not_mem fun x h₁ h₂ => h x ⟨h₁, h₂⟩

/-- A slot of an addressed id is empty afterwards, or holds the id just inserted. -/
theorem after_of_addresses (h : b.Addresses c x) :
    (b.after c).entrySequences (b.index x) = none ∨
      ∃ s v, c = .insert s v ∧ b.Accepts s ∧ (b.after c).entrySequences (b.index x) = some s := by
  cases c with
  | insert s v =>
    have hacc : b.Accepts s := h.1
    obtain ⟨b', hins⟩ := insert_of_accepts hacc v
    rw [after_insert hins]
    obtain ⟨-, hw⟩ | hw := entrySequences_insert_of_disturbs hins
      ((disturbs_iff (v := v) hacc).mpr ⟨x, h, rfl⟩)
    · exact Or.inr ⟨s, v, rfl, hacc, hw⟩
    · exact Or.inl hw
  | remove s =>
    obtain rfl : x = s := h
    left
    rw [after, entrySequences_remove, if_pos rfl]
  | removeRange first last => exact Or.inl (entrySequences_removeRange_of_mem h.1 h.2)

theorem get_after_insert (h : b.Accepts s) : (b.after (.insert s v)).get s = some v := by
  obtain ⟨b', hins⟩ := insert_of_accepts h v
  rw [after_insert hins]
  exact get_insert_self hins

end Slots

/-- An id and another one behind it, on integers. -/
theorem exists_lifts_behind (s t : UInt16) :
    ∃ P e : ℤ, Lifts s P ∧ Lifts t e ∧ P - e = (s - t).toNat := by
  refine ⟨s.toNat, s.toNat - (s - t).toNat, lifts_toNat s, ?_, by omega⟩
  have hs := s.toNat_lt
  have ht := t.toNat_lt
  simp only [Lifts, UInt16.toNat_sub]
  omega

/-- What is not too old has a reading inside the window or less than half a turn ahead, but for the
two ends. -/
theorem exists_lifts_of_accepts {b : SequenceBuffer T} {t : UInt16} {P : ℤ} (hlen : b.len ≤ 32768)
    (hP : Lifts b.sequence P) (hacc : b.Accepts t) (hbehind : (b.sequence - t).toNat ≠ b.len)
    (hahead : (t - b.sequence).toNat ≠ 32768) :
    ∃ f : ℤ, Lifts t f ∧ P - b.len < f ∧ f ≤ P + 32767 := by
  have ht := lifts_toNat t
  have htLt := t.toNat_lt
  have hbLt := b.sequence.toNat_lt
  have hn : (UInt16.ofNat b.len).toNat = b.len := by
    rw [UInt16.toNat_ofNat', Nat.mod_eq_of_lt (by omega)]
  rw [Accepts, sequenceLessThan, ← Bool.not_eq_true, sequenceGreaterThan_iff, UInt16.toNat_sub, hn]
    at hacc
  rw [UInt16.toNat_sub] at hbehind hahead
  refine ⟨P + ((t.toNat - b.sequence.toNat + 32768) % 65536 - 32768 : ℤ), ?_, ?_, ?_⟩
  · simp only [Lifts] at hP ht ⊢
    omega
  · omega
  · omega

/-- Going forward across the wrap empties no slot. -/
theorem addresses_insert_of_wrap {b : SequenceBuffer T} {s x : UInt16} {v : T} (h : b.Accepts s)
    (hwrap : s.toNat < b.sequence.toNat) (hmax : b.sequence ≠ 65535) :
    b.Addresses (.insert s v) x ↔ x = s := by
  constructor
  · rintro ⟨-, hx | ⟨-, -, h₁, h₂⟩⟩
    · exact hx
    · have hlt := b.sequence.toNat_lt
      have hne : b.sequence.toNat ≠ 65535 := fun hc => hmax (UInt16.toNat_inj.mp hc)
      rw [UInt16.le_iff_toNat_le, UInt16.toNat_add] at h₁
      rw [UInt16.le_iff_toNat_le] at h₂
      simp only [UInt16.reduceToNat] at h₁
      omega
  · rintro rfl
    exact ⟨h, Or.inl rfl⟩

/-! ### What should be held is held -/

/-- A buffer, beside what was inserted into it and has not been inserted anew, removed or skipped
since. -/
structure Recorded (T : Type) where
  buffer : SequenceBuffer T
  record : UInt16 → Option T

namespace Recorded

variable [Inhabited T]

/-- A new buffer of `n` slots. -/
def new (n : ℕ) : Recorded T := ⟨withCapacity n, fun _ => none⟩

/-- The record after a call. -/
def recordAfter (p : Recorded T) (c : Call T) (x : UInt16) : Option T :=
  match c with
  | .insert s v =>
    if p.buffer.Accepts s ∧ x = s then some v
    else if p.buffer.Releases (.insert s v) x then none else p.record x
  | c => if p.buffer.Releases c x then none else p.record x

/-- One call. -/
def step (p : Recorded T) (c : Call T) : Recorded T := ⟨p.buffer.after c, p.recordAfter c⟩

/-- Calls on a new buffer of `n` slots. -/
def run (n : ℕ) (calls : List (Call T)) : Recorded T := calls.foldl step (new n)

/-- **The law.** What is in the record and inside the last `len` ids is found. -/
def Faithful (p : Recorded T) : Prop :=
  ∀ s v, p.record s = some v → (p.buffer.sequence - s).toNat < p.buffer.len →
    p.buffer.existsSequence s = true ∧ p.buffer.get s = some v

/-- No addressed id shares its slot with another one that is in the record and stays inside the last
`len` ids. -/
def Spares (p : Recorded T) (c : Call T) : Prop :=
  ∀ s x, (p.record s).isSome → ¬ p.buffer.Releases c s →
    (p.buffer.frontAfter c - s).toNat < p.buffer.len → p.buffer.Addresses c x →
      p.buffer.index x ≠ p.buffer.index s

theorem faithful_new (n : ℕ) : (new n : Recorded T).Faithful := by
  intro s v h
  cases h

omit [Inhabited T] in
theorem recordAfter_of_not_releases {p : Recorded T} {c : Call T} {s : UInt16}
    (h : ¬ p.buffer.Releases c s) : p.recordAfter c s = p.record s := by
  cases c with
  | insert t w =>
    have hne : ¬ (p.buffer.Accepts t ∧ s = t) := fun hst => h ⟨hst.1, Or.inl hst.2⟩
    rw [recordAfter, if_neg hne, if_neg h]
  | remove t => exact if_neg h
  | removeRange first last => exact if_neg h

omit [Inhabited T] in
/-- What is in the record after a call was just inserted, or was there and is not released. -/
theorem recordAfter_eq_some {p : Recorded T} {c : Call T} {s : UInt16} {v : T}
    (h : p.recordAfter c s = some v) :
    (c = .insert s v ∧ p.buffer.Accepts s) ∨ (¬ p.buffer.Releases c s ∧ p.record s = some v) := by
  by_cases hrel : p.buffer.Releases c s
  · cases c with
    | insert t w =>
      by_cases hst : p.buffer.Accepts t ∧ s = t
      · rw [recordAfter, if_pos hst, Option.some.injEq] at h
        obtain ⟨hacc, rfl⟩ := hst
        exact Or.inl ⟨by rw [h], hacc⟩
      · rw [recordAfter, if_neg hst, if_pos hrel] at h
        cases h
    | remove t =>
      rw [show p.recordAfter (.remove t) s = none from if_pos hrel] at h
      cases h
    | removeRange first last =>
      rw [show p.recordAfter (.removeRange first last) s = none from if_pos hrel] at h
      cases h
  · rw [recordAfter_of_not_releases hrel] at h
    exact Or.inr ⟨hrel, h⟩

omit [Inhabited T] in
/-- What is not skipped was inside the last `n` ids before, if it is afterwards. -/
theorem window_of_frontAfter {b : SequenceBuffer T} {c : Call T} {s : UInt16} {n : ℕ}
    (hn : n ≤ 32768) (hrel : ¬ b.Releases c s) (h : (b.frontAfter c - s).toNat < n) :
    (b.sequence - s).toNat < n := by
  cases c with
  | insert t w =>
    simp only [frontAfter] at h
    split at h
    · next hnew =>
      simp only [Releases, Skips, not_and, not_or, hnew.1, hnew.2, true_implies] at hrel
      obtain ⟨hne, hskip⟩ := hrel
      have hgt := hnew.2
      rw [sequenceGreaterThan_iff] at hgt
      have hne' : s.toNat ≠ t.toNat := fun h => hne (UInt16.toNat_inj.mp h)
      simp only [UInt16.lt_iff_toNat_lt, UInt16.toNat_sub, UInt16.toNat_zero] at hskip h ⊢
      have := s.toNat_lt
      have := t.toNat_lt
      have := b.sequence.toNat_lt
      omega
    · exact h
  | remove t => exact h
  | removeRange first last => exact h

/-- **One call** keeps the law exactly if it spares what stays inside the window. -/
theorem faithful_step_iff {p : Recorded T} (hlen : p.buffer.len ≤ 32768) (h : p.Faithful)
    (c : Call T) : (p.step c).Faithful ↔ p.Spares c := by
  constructor
  · intro hstep s x hrec hrel hwin haddr hslot
    obtain ⟨v, hv⟩ := Option.isSome_iff_exists.mp hrec
    have hfound := (hstep s v ((recordAfter_of_not_releases hrel).trans hv)
      (by rw [step, sequence_after, len_after]; exact hwin)).1
    rw [existsSequence_iff, step, index_after, ← hslot] at hfound
    obtain hnone | ⟨t, w, rfl, hacc, hw⟩ := after_of_addresses haddr
    · rw [hnone] at hfound
      cases hfound
    · obtain rfl : t = s := Option.some.inj (hw.symm.trans hfound)
      exact hrel ⟨hacc, Or.inl rfl⟩
  · intro hspares s v hrec hwin
    have hget : (p.step c).buffer.get s = some v := by
      obtain ⟨rfl, hacc⟩ | ⟨hrel, hv⟩ := recordAfter_eq_some hrec
      · exact get_after_insert hacc
      · rw [step, sequence_after, len_after] at hwin
        have hold := (h s v hv (window_of_frontAfter hlen hrel hwin)).2
        obtain ⟨hseq, hentry⟩ := after_of_not_addresses
          fun x hx => hspares s x (by rw [hv]; rfl) hrel hwin hx
        rw [step, get, index_after, hseq, hentry]
        exact hold
    exact ⟨(get_eq_some_iff.mp hget).1, hget⟩

/-- **A run** is faithful in every state it reaches exactly if all its calls spare what stays inside
the window. -/
theorem faithful_run_iff {n : ℕ} (hn : n ≤ 32768) (calls : List (Call T)) :
    (∀ calls', calls' <+: calls → (run n calls').Faithful) ↔
      ∀ calls' c, calls' ++ [c] <+: calls → (run n calls').Spares c :=
  forall_prefix_iff (J := fun p => p.buffer.len = n ∧ p.Faithful) (faithful_new n)
    ⟨rfl, faithful_new n⟩ (fun _ c h => faithful_step_iff (h.1 ▸ hn) h.2 c)
    (fun p c h hc => ⟨(len_after p.buffer c).trans h.1,
      (faithful_step_iff (h.1 ▸ hn) h.2 c).mpr hc⟩)
    calls

omit [Inhabited T] in
/-- Where the length divides the number space, an insertion spares the window, unless it is exactly
`len` ids behind the newest one or half a turn ahead of it. -/
theorem spares_insert_of_dvd {p : Recorded T} {t : UInt16} {v : T} (hlen : p.buffer.len ≤ 32768)
    (hdvd : (p.buffer.len : ℤ) ∣ 65536) (hbehind : (p.buffer.sequence - t).toNat ≠ p.buffer.len)
    (hahead : (t - p.buffer.sequence).toNat ≠ 32768) : p.Spares (.insert t v) := by
  intro s x _ hrel hwin haddr hslot
  have hacc : p.buffer.Accepts t := haddr.1
  have hold := window_of_frontAfter hlen hrel hwin
  obtain ⟨P, e, hP, he, hPe⟩ := exists_lifts_behind p.buffer.sequence s
  obtain ⟨f, hf, hPf, hfP⟩ := exists_lifts_of_accepts hlen hP hacc hbehind hahead
  have hne : e ≠ f := fun hef =>
    hrel ⟨hacc, Or.inl ((he.eq_wrap.trans (by rw [hef])).trans hf.eq_wrap.symm)⟩
  have hfront : max P f < e + p.buffer.len := by
    have hnew := newer_iff_of_lifts hP hf (by omega) (by omega)
    by_cases hfP' : P < f
    · have hgap := hf.sub he
      simp only [frontAfter, hacc, hnew.mpr hfP', and_self, if_true] at hwin
      simp only [Lifts] at hgap
      omega
    · omega
  refine not_disturbs_of_lifts hlen hdvd hP hf hne (by omega) hPf hfP hfront ?_
  rw [← he.eq_wrap, ← hslot]
  exact (disturbs_iff (v := v) hacc).mpr ⟨x, haddr, rfl⟩

/-- Insertions into a window of 512, one of them late, two of them further ahead than the next
id. -/
theorem faithful_run_iff_late : ∃ p : Recorded Bool, p = run 512
    [.insert 100 true, .insert 300 true,
    .insert 200 false, .insert 650 true, .insert 250 true] ∧ p.record 200 = some false ∧
      p.buffer.sequence = 650 ∧ p.Faithful := by
  refine ⟨_, rfl, by decide +kernel, by decide +kernel, ?_⟩
  refine (faithful_run_iff (n := 512) (by norm_num) [.insert 100 true, .insert 300 true,
    .insert 200 false, .insert 650 true, .insert 250 true]).mpr ?_ _ List.prefix_rfl
  refine forall_prefix_cons ?_ (forall_prefix_cons ?_ (forall_prefix_cons ?_ (forall_prefix_cons ?_
    (forall_prefix_cons ?_ forall_prefix_nil))))
  all_goals
    refine spares_insert_of_dvd ?_ ?_ ?_ ?_ <;> decide +kernel

/-- An insertion exactly `n` ids behind the newest one takes the slot of the newest one. -/
theorem not_faithful_of_insert_behind :
    ¬ ∀ n, 1 ≤ n → n ≤ 32768 → ∀ calls : List (Call Bool), (run n calls).Faithful := by
  intro h
  have := (h 100 (by norm_num) (by norm_num) [.insert 100 true, .insert 0 true] 100 true
    (by decide) (by decide)).1
  revert this
  decide

end Recorded

/-! ### Nothing else is held -/

/-- **The other law.** What is found is inside the last `len` ids. -/
def Swept (b : SequenceBuffer T) : Prop :=
  ∀ s, b.existsSequence s = true → (b.sequence - s).toNat < b.len

/-- What a call leaves behind the window is in a slot that the call writes or empties, and it does
not insert behind the window itself. -/
def Sweeps (b : SequenceBuffer T) (c : Call T) : Prop :=
  (∀ s, b.existsSequence s = true → b.len ≤ (b.frontAfter c - s).toNat →
    ∃ x, b.Addresses c x ∧ b.index x = b.index s) ∧
  ∀ s v, c = .insert s v → b.Accepts s → (b.frontAfter c - s).toNat < b.len

section Swept

variable [Inhabited T]

theorem swept_withCapacity (n : ℕ) : (withCapacity n : SequenceBuffer T).Swept := by
  intro s h
  rw [existsSequence_iff] at h
  cases h

/-- What is found after a call was found before in a slot of its own, or was just inserted. -/
theorem existsSequence_after {b : SequenceBuffer T} {c : Call T} {s : UInt16}
    (h : (b.after c).existsSequence s = true) :
    (b.existsSequence s = true ∧ ∀ x, b.Addresses c x → b.index x ≠ b.index s) ∨
      ∃ v, c = .insert s v ∧ b.Accepts s := by
  rw [existsSequence_iff, index_after] at h
  by_cases haddr : ∃ x, b.Addresses c x ∧ b.index x = b.index s
  · obtain ⟨x, hx, hslot⟩ := haddr
    obtain hnone | ⟨t, v, hc, hacc, hw⟩ := after_of_addresses hx
    · rw [← hslot, hnone] at h
      cases h
    · rw [← hslot, hw, Option.some.injEq] at h
      subst h
      exact Or.inr ⟨v, hc, hacc⟩
  · push Not at haddr
    rw [(after_of_not_addresses haddr).1] at h
    exact Or.inl ⟨existsSequence_iff.mpr h, haddr⟩

/-- **One call** keeps the law exactly if it sweeps what it leaves behind. -/
theorem swept_step_iff {b : SequenceBuffer T} (c : Call T) :
    (b.after c).Swept ↔ b.Sweeps c := by
  simp only [Swept, sequence_after, len_after]
  constructor
  · refine fun h => ⟨fun s hs hbehind => ?_, fun s v hc hacc => h s ?_⟩
    · by_contra hnone
      push Not at hnone
      have hfound : (b.after c).existsSequence s = true := by
        rw [existsSequence_iff, index_after, (after_of_not_addresses hnone).1]
        exact existsSequence_iff.mp hs
      have := h s hfound
      omega
    · subst hc
      exact (get_eq_some_iff.mp (get_after_insert hacc)).1
  · intro ⟨hleft, hins⟩ s hs
    obtain ⟨hold, hslot⟩ | ⟨v, hc, hacc⟩ := existsSequence_after hs
    · by_contra hbehind
      obtain ⟨x, hx, hxs⟩ := hleft s hold (by omega)
      exact hslot x hx hxs
    · exact hins s v hc hacc

/-- **A run** holds nothing behind the window in any state it reaches exactly if all its calls sweep
what they leave behind. -/
theorem swept_run_iff (n : ℕ) (calls : List (Call T)) :
    (∀ calls', calls' <+: calls → (calls'.foldl after (withCapacity n)).Swept) ↔
      ∀ calls' c, calls' ++ [c] <+: calls → (calls'.foldl after (withCapacity n)).Sweeps c :=
  forall_prefix_iff (J := fun _ => True) (swept_withCapacity n) trivial
    (fun _ c _ => swept_step_iff c)
    (fun _ _ _ _ => trivial) calls

omit [Inhabited T] in
/-- Where the length divides the number space, an insertion sweeps what it leaves behind, if going
forward does not skip past the wrap; the ends are excepted as before. -/
theorem sweeps_insert_of_dvd {b : SequenceBuffer T} {t : UInt16} {v : T} (h : b.Swept)
    (hpos : 0 < b.len) (hlen : b.len ≤ 32768) (hdvd : (b.len : ℤ) ∣ 65536)
    (hbehind : (b.sequence - t).toNat ≠ b.len) (hahead : (t - b.sequence).toNat ≠ 32768)
    (hwrap : sequenceGreaterThan t b.sequence = true → b.sequence + 1 ≤ t) :
    b.Sweeps (.insert t v) := by
  constructor
  · intro s hs hleft
    have hin := h s hs
    have hnew : b.Accepts t ∧ sequenceGreaterThan t b.sequence = true := by
      by_contra hold
      simp only [frontAfter, if_neg hold] at hleft
      omega
    simp only [frontAfter, if_pos hnew] at hleft
    obtain ⟨P, e, hP, he, hPe⟩ := exists_lifts_behind b.sequence s
    obtain ⟨f, hf, hPf, hfP⟩ := exists_lifts_of_accepts hlen hP hnew.1 hbehind hahead
    have hlt : P < f := (newer_iff_of_lifts hP hf (by omega) (by omega)).mp hnew.2
    have hgap := hf.sub he
    have hfirst := hwrap hnew.2
    have hsucc := hP.succ
    rw [UInt16.le_iff_toNat_le] at hfirst
    -- the next id after `s` with its residue is passed over
    refine ⟨wrap (e + b.len), ?_, ?_⟩
    · have hx := lifts_wrap (e + b.len)
      refine ⟨hnew.1, ?_⟩
      by_cases hend : b.sequence + 1 = t
      · left
        rw [← hend] at hf
        have hPf : P + 1 = f := hsucc.unique hf (by omega) (by omega)
        rw [← hend]
        refine (hsucc.eq_wrap.trans ?_).symm
        congr 1
        simp only [Lifts] at hgap
        omega
      · refine Or.inr ⟨hnew.2, hend, ?_, ?_⟩
        · rw [UInt16.le_iff_toNat_le]
          simp only [Lifts] at *
          omega
        · rw [UInt16.le_iff_toNat_le]
          simp only [Lifts] at *
          omega
    · have h₁ := index_eq_emod hlen hdvd (lifts_wrap (e + b.len))
      have h₂ := index_eq_emod hlen hdvd he
      rw [Int.add_emod_right] at h₁
      omega
  · intro s w hc hacc
    obtain ⟨rfl, -⟩ := Call.insert.inj hc
    by_cases hnew : sequenceGreaterThan t b.sequence = true
    · simp only [frontAfter, hacc, hnew, and_self, if_true, UInt16.sub_self, UInt16.toNat_zero]
      exact hpos
    · have hP := lifts_toNat b.sequence
      obtain ⟨f, hf, hPf, hfP⟩ := exists_lifts_of_accepts hlen hP hacc hbehind hahead
      have hgap := hP.sub hf
      rw [newer_iff_of_lifts hP hf (by omega) (by omega)] at hnew
      have hfront : b.frontAfter (.insert t v) = b.sequence := by
        simp [frontAfter, newer_iff_of_lifts hP hf (by omega) (by omega), hnew]
      rw [hfront]
      simp only [Lifts] at hgap
      omega

/-- An insertion exactly `n` ids behind the newest one is found outside the window. -/
theorem not_swept_of_insert_behind :
    ¬ ∀ n, 1 ≤ n → n ≤ 32768 → ∀ calls : List (Call Bool),
      (∀ c ∈ calls, ∀ first last, c ≠ .removeRange first last) →
        (calls.foldl after (withCapacity n)).Swept := by
  intro h
  have := h 100 (by norm_num) (by norm_num) [.insert 100 true, .insert 0 true]
    (by simp) 0 (by decide)
  revert this
  decide

end Swept

end SequenceBuffer

end Pickleback
