import Pickleback.Basic
import Pickleback.Lib.Serial

/-!
# The sequence buffer

`sequence_buffer.rs`: a ring of `len` slots, the entry of sequence number `s` living in slot
`s % len`, with the newest sequence number inserted so far. All windows of the crate are instances
of it: sent and received packets, message handles by packet, seen message ids, fragment acks.

Slots are a total function; only the slots below `len` are ever addressed. `entry_sequences` holds
`0xFFFF_FFFF` for an empty slot, which is `none` here.

The source takes the remainder by `entries.len() as u16`, which panics for a buffer of 0 or a
multiple of 65536 entries; here such a buffer answers. The model is that of buffers of 1 to 65535
entries.

## Main definitions

* `SequenceBuffer`, `insert`, `remove`, `removeRange`, `get`, `existsSequence`
* `sequenceGreaterThan`, `checkSequence` — the circular comparison and the window test

## Main results

* `sequenceGreaterThan_iff_of_lifts` — the comparison on unwrapped readings
* `insert_of_newer`, `insert_of_not_newer`, `insert_of_tooOld` — what an insertion does
* `entrySequences_removeRange_of_mem`, `removeRange_of_not_mem` — which slots a range removal
  empties
-/

namespace Pickleback

open Serial

/-- `SequenceBuffer<T>`. -/
structure SequenceBuffer (T : Type) where
  entries : ℕ → T
  entrySequences : ℕ → Option UInt16
  len : ℕ
  sequence : UInt16

namespace SequenceBuffer

variable {T : Type}

/-! ### Circular comparison -/

/-- `SequenceBuffer::sequence_greater_than`. -/
def sequenceGreaterThan (s1 s2 : UInt16) : Bool :=
  (decide (s1 > s2) && decide (s1 - s2 ≤ 32768)) || (decide (s1 < s2) && decide (s2 - s1 > 32768))

/-- `SequenceBuffer::sequence_less_than`. -/
def sequenceLessThan (s1 s2 : UInt16) : Bool := sequenceGreaterThan s2 s1

/-! ### Operations -/

/-- `SequenceBuffer::with_capacity`. -/
def withCapacity [Inhabited T] (size : ℕ) : SequenceBuffer T where
  entries := fun _ => default
  entrySequences := fun _ => none
  len := size
  sequence := 0

/-- `SequenceBuffer::index`. -/
def index (b : SequenceBuffer T) (sequence : UInt16) : ℕ := (sequence % UInt16.ofNat b.len).toNat

/-- `SequenceBuffer::exists`. -/
def existsSequence (b : SequenceBuffer T) (sequence : UInt16) : Bool :=
  b.entrySequences (b.index sequence) == some sequence

/-- `SequenceBuffer::get`, and the entry that `get_mut` borrows. -/
def get (b : SequenceBuffer T) (sequence : UInt16) : Option T :=
  if b.entrySequences (b.index sequence) = some sequence then
    some (b.entries (b.index sequence))
  else none

/-- Writing through the reference that `get_mut` returned. -/
def setEntry (b : SequenceBuffer T) (sequence : UInt16) (data : T) : SequenceBuffer T :=
  { b with entries := Function.update b.entries (b.index sequence) data }

/-- `SequenceBuffer::remove`: the slot is emptied whether or not it held `sequence`. -/
def remove [Inhabited T] (b : SequenceBuffer T) (sequence : UInt16) :
    Option T × SequenceBuffer T :=
  (b.get sequence,
    { b with
      entries := Function.update b.entries (b.index sequence) default
      entrySequences := Function.update b.entrySequences (b.index sequence) none })

/-- `SequenceBuffer::remove_range`: `for i in start..=end`, over plain `u16` values. -/
def removeRange [Inhabited T] (b : SequenceBuffer T) (first last : UInt16) : SequenceBuffer T :=
  (List.range' first.toNat (last.toNat + 1 - first.toNat)).foldl
    (fun b i => (b.remove (UInt16.ofNat i)).2) b

/-- The slot write at the end of `SequenceBuffer::insert`. -/
def write (b : SequenceBuffer T) (sequence : UInt16) (data : T) : SequenceBuffer T :=
  { b with
    entries := Function.update b.entries (b.index sequence) data
    entrySequences := Function.update b.entrySequences (b.index sequence) (some sequence) }

/-- The part of `SequenceBuffer::insert` that moves the newest sequence number forward: skipped ids
are removed unless there are none. -/
def moveTo [Inhabited T] (b : SequenceBuffer T) (sequence : UInt16) : SequenceBuffer T :=
  if b.sequence + 1 != sequence then
    { b.removeRange (b.sequence + 1) sequence with sequence := sequence }
  else { b with sequence := sequence }

/-- `SequenceBuffer::insert`. -/
def insert [Inhabited T] (b : SequenceBuffer T) (sequence : UInt16) (data : T) :
    Except PicklebackError (SequenceBuffer T) :=
  if sequenceLessThan sequence (b.sequence - UInt16.ofNat b.len) then .error .sequenceTooOld
  else if sequenceGreaterThan sequence b.sequence then .ok ((b.moveTo sequence).write sequence data)
  else .ok (b.write sequence data)

/-- `SequenceBuffer::check_sequence`. -/
def checkSequence (b : SequenceBuffer T) (sequence : UInt16) : Bool :=
  sequenceGreaterThan sequence (b.sequence - UInt16.ofNat b.len)

/-- `SequenceBuffer::check_newer_than_current`. -/
def checkNewerThanCurrent (b : SequenceBuffer T) (sequence : UInt16) : Bool :=
  sequenceGreaterThan sequence b.sequence

/-! ### The comparison, read on integers -/

theorem sequenceGreaterThan_iff {s1 s2 : UInt16} : sequenceGreaterThan s1 s2 = true ↔
    (s2.toNat < s1.toNat ∧ s1.toNat ≤ s2.toNat + 32768) ∨
      (s1.toNat < s2.toNat ∧ s1.toNat + 32768 < s2.toNat) := by
  have h1 := s1.toNat_lt
  have h2 := s2.toNat_lt
  simp only [sequenceGreaterThan, Bool.or_eq_true, Bool.and_eq_true, decide_eq_true_eq,
    gt_iff_lt, UInt16.lt_iff_toNat_lt, UInt16.le_iff_toNat_le, UInt16.toNat_sub]
  simp only [UInt16.reduceToNat]
  omega

/-- Half a turn ahead counts as newer only when no wrap lies between; anything closer is decided by
the unwrapped readings alone. -/
theorem sequenceGreaterThan_iff_of_lifts {s t : UInt16} {a b : ℤ} (hs : Lifts s a)
    (ht : Lifts t b) (h₁ : b - 32768 ≤ a) (h₂ : a < b + 32768) :
    sequenceGreaterThan s t = true ↔ b < a ∨ (a = b - 32768 ∧ t.toNat < s.toNat) := by
  have := s.toNat_lt
  have := t.toNat_lt
  rw [sequenceGreaterThan_iff]
  simp only [Lifts] at hs ht
  omega

theorem sequenceGreaterThan_asymm {s t : UInt16} (h : sequenceGreaterThan s t = true) :
    sequenceGreaterThan t s = false := by
  rw [Bool.eq_false_iff]
  intro h'
  rw [sequenceGreaterThan_iff] at h h'
  omega

@[simp] theorem sequenceGreaterThan_self (s : UInt16) : sequenceGreaterThan s s = false := by
  rw [Bool.eq_false_iff]
  intro h
  rw [sequenceGreaterThan_iff] at h
  omega

/-- The next sequence number is newer. -/
theorem sequenceGreaterThan_succ (s : UInt16) : sequenceGreaterThan (s + 1) s = true := by
  have := s.toNat_lt
  rw [sequenceGreaterThan_iff, UInt16.toNat_add]
  simp only [UInt16.reduceToNat]
  omega

/-! ### Slots -/

@[simp] theorem len_withCapacity [Inhabited T] (n : ℕ) :
    (withCapacity n : SequenceBuffer T).len = n := rfl

@[simp] theorem sequence_withCapacity [Inhabited T] (n : ℕ) :
    (withCapacity n : SequenceBuffer T).sequence = 0 := rfl

@[simp] theorem entrySequences_withCapacity [Inhabited T] (n i : ℕ) :
    (withCapacity n : SequenceBuffer T).entrySequences i = none := rfl

theorem index_eq {b : SequenceBuffer T} (h : b.len < 65536) (s : UInt16) :
    b.index s = s.toNat % b.len := by
  simp [index, UInt16.toNat_mod, Nat.mod_eq_of_lt h]

theorem index_congr {b c : SequenceBuffer T} (h : b.len = c.len) (s : UInt16) :
    b.index s = c.index s := by
  simp [index, h]

theorem existsSequence_iff {b : SequenceBuffer T} {s : UInt16} :
    b.existsSequence s = true ↔ b.entrySequences (b.index s) = some s := by
  simp [existsSequence]

theorem get_eq_some_iff {b : SequenceBuffer T} {s : UInt16} {v : T} :
    b.get s = some v ↔ b.existsSequence s = true ∧ b.entries (b.index s) = v := by
  rw [existsSequence_iff, get]
  split <;> simp_all

/-- What is held is held in a slot. -/
theorem forall_get_iff {b : SequenceBuffer T} (hlen : b.len < 65536)
    (hpos : 0 < b.len) {P : T → Prop} :
    (∀ s v, b.get s = some v → P v) ↔
      ∀ i < b.len, ∀ s ∈ b.entrySequences i, b.index s = i → P (b.entries i) := by
  constructor
  · rintro h i - s hs rfl
    exact h s _ (get_eq_some_iff.mpr ⟨existsSequence_iff.mpr hs, rfl⟩)
  · intro h s v hget
    obtain ⟨hs, rfl⟩ := get_eq_some_iff.mp hget
    refine h (b.index s) ?_ s (existsSequence_iff.mp hs) rfl
    rw [index_eq hlen]
    exact Nat.mod_lt _ hpos

instance decidableForallGet (b : SequenceBuffer T) (P : T → Prop) [DecidablePred P] :
    Decidable (∀ s v, b.get s = some v → P v) :=
  -- a slot has one id at most: there is no need to go through all of them
  have (i : ℕ) : Decidable (∀ s ∈ b.entrySequences i, b.index s = i → P (b.entries i)) :=
    Option.decidableForallMem ..
  if h : b.len < 65536 ∧ 0 < b.len then decidable_of_iff _ (forall_get_iff h.1 h.2).symm
  else decidable_of_iff (∀ n < 65536, ∀ v ∈ b.get (UInt16.ofNat n), P v)
    ⟨fun hall s v hget => hall s.toNat s.toNat_lt v (by rwa [UInt16.ofNat_toNat]),
      fun hall n _ v hget => hall _ v hget⟩

theorem get_eq_none_iff {b : SequenceBuffer T} {s : UInt16} :
    b.get s = none ↔ b.existsSequence s = false := by
  rw [← Bool.not_eq_true, existsSequence_iff, get]
  split <;> simp_all

/-! ### Field lemmas -/

section Fields

variable (b : SequenceBuffer T) (s : UInt16) (v : T)

@[simp] theorem len_write : (b.write s v).len = b.len := rfl

@[simp] theorem sequence_write : (b.write s v).sequence = b.sequence := rfl

@[simp] theorem index_write (t : UInt16) : (b.write s v).index t = b.index t := rfl

theorem entrySequences_write (i : ℕ) :
    (b.write s v).entrySequences i = if i = b.index s then some s else b.entrySequences i := by
  simp [write, Function.update_apply]

theorem entries_write (i : ℕ) :
    (b.write s v).entries i = if i = b.index s then v else b.entries i := by
  simp [write, Function.update_apply]

@[simp] theorem len_setEntry : (b.setEntry s v).len = b.len := rfl

@[simp] theorem sequence_setEntry : (b.setEntry s v).sequence = b.sequence := rfl

@[simp] theorem entrySequences_setEntry :
    (b.setEntry s v).entrySequences = b.entrySequences := rfl

@[simp] theorem index_setEntry (t : UInt16) : (b.setEntry s v).index t = b.index t := rfl

theorem entries_setEntry (i : ℕ) :
    (b.setEntry s v).entries i = if i = b.index s then v else b.entries i := by
  simp [setEntry, Function.update_apply]

variable [Inhabited T]

@[simp] theorem len_remove : (b.remove s).2.len = b.len := rfl

@[simp] theorem sequence_remove : (b.remove s).2.sequence = b.sequence := rfl

@[simp] theorem index_remove (t : UInt16) : (b.remove s).2.index t = b.index t := rfl

theorem entrySequences_remove (i : ℕ) : (b.remove s).2.entrySequences i
    = if i = b.index s then none else b.entrySequences i := by
  simp [remove, Function.update_apply]

theorem entries_remove (i : ℕ) :
    (b.remove s).2.entries i = if i = b.index s then default else b.entries i := by
  simp [remove, Function.update_apply]

end Fields

/-! ### Removing a range -/

section RemoveRange

variable [Inhabited T]

/-- The loop of `removeRange`, over any list of ids: length and position stay, and a slot is emptied
exactly when one of the ids lives there. -/
theorem foldl_remove (ids : List ℕ) (b : SequenceBuffer T) :
    let b' := ids.foldl (fun b i => (b.remove (UInt16.ofNat i)).2) b
    b'.len = b.len ∧ b'.sequence = b.sequence ∧
      ∀ i, ((∃ x ∈ ids, b.index (UInt16.ofNat x) = i) → b'.entrySequences i = none) ∧
        ((∀ x ∈ ids, b.index (UInt16.ofNat x) ≠ i) →
          b'.entrySequences i = b.entrySequences i ∧ b'.entries i = b.entries i) := by
  induction ids generalizing b with
  | nil => simp
  | cons x xs ih =>
    obtain ⟨hlen, hseq, hslots⟩ := ih (b.remove (UInt16.ofNat x)).2
    refine ⟨hlen, hseq, fun i => ⟨?_, ?_⟩⟩
    · rintro ⟨y, hy, hyi⟩
      by_cases hlater : ∃ z ∈ xs, b.index (UInt16.ofNat z) = i
      · exact (hslots i).1 hlater
      · push Not at hlater
        have hx : b.index (UInt16.ofNat x) = i := by
          rcases List.mem_cons.mp hy with rfl | hy
          · exact hyi
          · exact absurd hyi (hlater y hy)
        rw [List.foldl_cons, ((hslots i).2 hlater).1, entrySequences_remove, if_pos hx.symm]
    · intro h
      have hx : i ≠ b.index (UInt16.ofNat x) := fun hc => h x (List.mem_cons_self ..) hc.symm
      have hrest := (hslots i).2 fun z hz => h z (List.mem_cons_of_mem _ hz)
      rw [List.foldl_cons, hrest.1, hrest.2, entrySequences_remove, entries_remove, if_neg hx,
        if_neg hx]
      exact ⟨rfl, rfl⟩

@[simp] theorem len_removeRange (b : SequenceBuffer T) (first last : UInt16) :
    (b.removeRange first last).len = b.len :=
  (foldl_remove _ b).1

@[simp] theorem sequence_removeRange (b : SequenceBuffer T) (first last : UInt16) :
    (b.removeRange first last).sequence = b.sequence :=
  (foldl_remove _ b).2.1

/-- A slot addressed by some id of the range is empty afterwards. -/
theorem entrySequences_removeRange_of_mem {b : SequenceBuffer T} {first last x : UInt16}
    (h₁ : first ≤ x) (h₂ : x ≤ last) :
    (b.removeRange first last).entrySequences (b.index x) = none := by
  rw [UInt16.le_iff_toNat_le] at h₁ h₂
  refine ((foldl_remove _ b).2.2 _).1 ⟨x.toNat, ?_, by simp⟩
  rw [List.mem_range'_1]
  omega

/-- A slot no id of the range lives in is untouched. -/
theorem removeRange_of_not_mem {b : SequenceBuffer T} {first last : UInt16} {i : ℕ}
    (h : ∀ x, first ≤ x → x ≤ last → b.index x ≠ i) :
    (b.removeRange first last).entrySequences i = b.entrySequences i ∧
      (b.removeRange first last).entries i = b.entries i := by
  refine ((foldl_remove _ b).2.2 _).2 fun x hx => ?_
  rw [List.mem_range'_1] at hx
  have hlast := last.toNat_lt
  have hxs : (UInt16.ofNat x).toNat = x := by
    rw [UInt16.toNat_ofNat', Nat.mod_eq_of_lt (by omega)]
  refine h _ ?_ ?_ <;> rw [UInt16.le_iff_toNat_le, hxs] <;> omega

end RemoveRange

/-! ### Inserting -/

section Insert

variable [Inhabited T]

@[simp] theorem len_moveTo (b : SequenceBuffer T) (s : UInt16) : (b.moveTo s).len = b.len := by
  unfold moveTo
  split <;> simp

@[simp] theorem sequence_moveTo (b : SequenceBuffer T) (s : UInt16) :
    (b.moveTo s).sequence = s := by
  unfold moveTo
  split <;> rfl

/-- After moving forward, the slot of every skipped id is empty, unless a wrap was crossed. -/
theorem entrySequences_moveTo_of_mem {b : SequenceBuffer T} {s x : UInt16}
    (h₁ : b.sequence + 1 ≤ x) (h₂ : x ≤ s) (hs : b.sequence + 1 ≠ s) :
    (b.moveTo s).entrySequences (b.index x) = none := by
  simp only [moveTo, bne_iff_ne, ne_eq, hs, not_false_eq_true, if_true]
  exact entrySequences_removeRange_of_mem h₁ h₂

theorem moveTo_of_not_mem {b : SequenceBuffer T} {s : UInt16} {i : ℕ}
    (h : ∀ x, b.sequence + 1 ≤ x → x ≤ s → b.index x ≠ i) :
    (b.moveTo s).entrySequences i = b.entrySequences i ∧
      (b.moveTo s).entries i = b.entries i := by
  unfold moveTo
  split
  · exact removeRange_of_not_mem h
  · exact ⟨rfl, rfl⟩

theorem insert_of_newer {b : SequenceBuffer T} {s : UInt16}
    (hold : sequenceLessThan s (b.sequence - UInt16.ofNat b.len) = false)
    (hnew : sequenceGreaterThan s b.sequence = true) (v : T) :
    b.insert s v = .ok ((b.moveTo s).write s v) := by
  simp [insert, hold, hnew]

theorem insert_of_not_newer {b : SequenceBuffer T} {s : UInt16}
    (hold : sequenceLessThan s (b.sequence - UInt16.ofNat b.len) = false)
    (hnew : sequenceGreaterThan s b.sequence = false) (v : T) :
    b.insert s v = .ok (b.write s v) := by
  simp [insert, hold, hnew]

theorem insert_of_tooOld {b : SequenceBuffer T} {s : UInt16}
    (hold : sequenceLessThan s (b.sequence - UInt16.ofNat b.len) = true) (v : T) :
    b.insert s v = .error .sequenceTooOld := by
  simp [insert, hold]

/-- A successful insertion is a move forward and a write, or a write alone. -/
theorem insert_cases {b b' : SequenceBuffer T} {s : UInt16} {v : T} (h : b.insert s v = .ok b') :
    sequenceLessThan s (b.sequence - UInt16.ofNat b.len) = false ∧
      ((sequenceGreaterThan s b.sequence = true ∧ b' = (b.moveTo s).write s v) ∨
        (sequenceGreaterThan s b.sequence = false ∧ b' = b.write s v)) := by
  cases hold : sequenceLessThan s (b.sequence - UInt16.ofNat b.len) with
  | true => rw [insert_of_tooOld hold] at h; cases h
  | false =>
    cases hnew : sequenceGreaterThan s b.sequence with
    | true =>
      rw [insert_of_newer hold hnew] at h
      exact ⟨rfl, Or.inl ⟨rfl, (Except.ok.inj h).symm⟩⟩
    | false =>
      rw [insert_of_not_newer hold hnew] at h
      exact ⟨rfl, Or.inr ⟨rfl, (Except.ok.inj h).symm⟩⟩

theorem insert_eq_error_iff {b : SequenceBuffer T} {s : UInt16} {v : T} {e : PicklebackError} :
    b.insert s v = .error e ↔ e = .sequenceTooOld ∧
      sequenceLessThan s (b.sequence - UInt16.ofNat b.len) = true := by
  cases hold : sequenceLessThan s (b.sequence - UInt16.ofNat b.len) with
  | true => simp [insert_of_tooOld hold, eq_comm]
  | false =>
    cases hnew : sequenceGreaterThan s b.sequence with
    | true => simp [insert_of_newer hold hnew]
    | false => simp [insert_of_not_newer hold hnew]

theorem len_insert {b b' : SequenceBuffer T} {s : UInt16} {v : T} (h : b.insert s v = .ok b') :
    b'.len = b.len := by
  obtain ⟨-, ⟨-, rfl⟩ | ⟨-, rfl⟩⟩ := insert_cases h <;> simp

/-- The window test and the insertion agree: what passes the test is never too old. -/
theorem exists_insert_of_checkSequence {b : SequenceBuffer T} {s : UInt16}
    (h : b.checkSequence s = true) (v : T) : ∃ b', b.insert s v = .ok b' := by
  have hold : sequenceLessThan s (b.sequence - UInt16.ofNat b.len) = false :=
    sequenceGreaterThan_asymm h
  cases hnew : sequenceGreaterThan s b.sequence with
  | true => exact ⟨_, insert_of_newer hold hnew v⟩
  | false => exact ⟨_, insert_of_not_newer hold hnew v⟩

theorem index_of_insert {b b' : SequenceBuffer T} {s : UInt16} {v : T}
    (h : b.insert s v = .ok b') (t : UInt16) : b'.index t = b.index t :=
  index_congr (len_insert h) t

/-- What was inserted is there. -/
theorem get_insert_self {b b' : SequenceBuffer T} {s : UInt16} {v : T}
    (h : b.insert s v = .ok b') : b'.get s = some v := by
  obtain ⟨-, ⟨-, rfl⟩ | ⟨-, rfl⟩⟩ := insert_cases h
  · rw [get_eq_some_iff, existsSequence_iff, index_write, entrySequences_write, entries_write]
    simp
  · rw [get_eq_some_iff, existsSequence_iff, index_write, entrySequences_write, entries_write]
    simp

end Insert

end SequenceBuffer

end Pickleback
