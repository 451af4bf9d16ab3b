import Pickleback.Channel
import Pickleback.Window

/-!
# De-duplication of messages

Each channel remembers the message ids it has seen in a window of 10000 slots, and 10000 does not
divide 65536: where the ids wrap, ids inside one window share slots. An id that was accepted is
forgotten early exactly when another accepted id disturbs its slot.

## Main results

* `acceptUnseen_fst` — an id is accepted if it passes the two tests
* `deduplicates_iff_slotsKept` — a run delivers no message twice if and only if no slot is disturbed
-/

namespace Pickleback

open Serial SequenceBuffer

/-! ### The window of seen ids -/

section Seen

variable {b : SequenceBuffer Bool} {id m t : MessageId} {i : ℕ}

/-- An id is accepted if it passes the two tests; the insertion never fails after them. -/
theorem acceptUnseen_fst : (acceptUnseen b id).1 = true ↔
    b.checkSequence id = true ∧ b.existsSequence id = false := by
  unfold acceptUnseen
  cases hcheck : b.checkSequence id with
  | false => simp
  | true =>
    cases hdup : b.existsSequence id with
    | true => simp
    | false =>
      obtain ⟨b', hb'⟩ := exists_insert_of_checkSequence hcheck true
      simp [hb']

theorem acceptUnseen_of_fst_false (h : (acceptUnseen b id).1 = false) :
    (acceptUnseen b id).2 = b := by
  unfold acceptUnseen at h ⊢
  split
  · rfl
  · split
    · rfl
    · next hcheck hdup =>
      simp only [hcheck, hdup, Bool.false_eq_true, if_false] at h
      split at h
      · cases h
      · rfl

theorem insert_of_acceptUnseen (h : (acceptUnseen b id).1 = true) :
    b.insert id true = .ok (acceptUnseen b id).2 := by
  obtain ⟨hcheck, hdup⟩ := acceptUnseen_fst.mp h
  obtain ⟨b', hb'⟩ := exists_insert_of_checkSequence hcheck true
  simp [acceptUnseen, hcheck, hdup, hb']

@[simp] theorem len_acceptUnseen : (acceptUnseen b id).2.len = b.len := by
  cases h : (acceptUnseen b id).1 with
  | false => rw [acceptUnseen_of_fst_false h]
  | true => exact len_insert (insert_of_acceptUnseen h)

/-- A call other than the acceptance of `m` never puts `m` into a slot. -/
theorem entrySequences_acceptUnseen_ne (h : b.entrySequences i ≠ some m)
    (hid : id = m → (acceptUnseen b id).1 = false) :
    (acceptUnseen b id).2.entrySequences i ≠ some m := by
  cases hacc : (acceptUnseen b id).1 with
  | false => rwa [acceptUnseen_of_fst_false hacc]
  | true =>
    have hne : id ≠ m := fun heq => by simp [hid heq] at hacc
    have hins := insert_of_acceptUnseen hacc
    by_cases hdist : b.Disturbs id i
    · rcases entrySequences_insert_of_disturbs hins hdist with ⟨-, hs⟩ | hs <;> rw [hs]
      · simpa using hne
      · simp
    · rwa [(insert_of_not_disturbs hins hdist).1]

/-- A call that does not disturb a slot leaves it as it is. -/
theorem entrySequences_acceptUnseen_eq
    (h : b.checkSequence id = true → b.existsSequence id = false → ¬ b.Disturbs id i) :
    (acceptUnseen b id).2.entrySequences i = b.entrySequences i := by
  cases hacc : (acceptUnseen b id).1 with
  | false => rw [acceptUnseen_of_fst_false hacc]
  | true =>
    obtain ⟨hcheck, hdup⟩ := acceptUnseen_fst.mp hacc
    exact (insert_of_not_disturbs (insert_of_acceptUnseen hacc) (h hcheck hdup)).1

end Seen

/-! ### Runs of `accepts_message` -/

namespace Channel

@[simp] theorem acceptsMessage_fst (ch : Channel) (id : MessageId) :
    (ch.acceptsMessage id).1 = (acceptUnseen ch.seenBuf id).1 := by
  cases ch <;> rfl

@[simp] theorem seenBuf_acceptsMessage (ch : Channel) (id : MessageId) :
    (ch.acceptsMessage id).2.seenBuf = (acceptUnseen ch.seenBuf id).2 := by
  cases ch <;> rfl

/-- Successive calls of `accepts_message`. -/
def acceptAll (ch : Channel) (ids : List MessageId) : Channel :=
  ids.foldl (fun ch id => (ch.acceptsMessage id).2) ch

/-- By how many ids those calls move the newest seen id forward, in total. -/
def seenAdvance (ch : Channel) : List MessageId → ℕ
  | [] => 0
  | id :: rest =>
    ch.seenBuf.advance (ch.acceptsMessage id).2.seenBuf + (ch.acceptsMessage id).2.seenAdvance rest

@[simp] theorem acceptAll_nil (ch : Channel) : ch.acceptAll [] = ch := rfl

@[simp] theorem acceptAll_cons (ch : Channel) (id : MessageId) (ids : List MessageId) :
    ch.acceptAll (id :: ids) = (ch.acceptsMessage id).2.acceptAll ids := rfl

@[simp] theorem acceptAll_append (ch : Channel) (ids ids' : List MessageId) :
    ch.acceptAll (ids ++ ids') = (ch.acceptAll ids).acceptAll ids' := by
  simp [acceptAll]

theorem seenAdvance_append (ch : Channel) (ids ids' : List MessageId) :
    ch.seenAdvance (ids ++ ids') = ch.seenAdvance ids + (ch.acceptAll ids).seenAdvance ids' := by
  induction ids generalizing ch with
  | nil => simp [seenAdvance]
  | cons id rest ih =>
    simp only [List.cons_append, seenAdvance, ih, acceptAll_cons]
    omega

theorem len_seenBuf_acceptAll (ch : Channel) (ids : List MessageId) :
    (ch.acceptAll ids).seenBuf.len = ch.seenBuf.len := by
  induction ids generalizing ch with
  | nil => rfl
  | cons id rest ih => simp [ih]

/-- **De-duplication over a run of calls**: once an id was accepted, it is refused as long as the
newest seen id has moved forward by fewer than 32768 ids. -/
def Deduplicates (ch : Channel) (ids : List MessageId) : Prop :=
  ∀ before m between after, ids = before ++ m :: between ++ m :: after →
    ((ch.acceptAll before).acceptsMessage m).1 = true →
    (ch.acceptAll (before ++ [m])).seenAdvance between < 32768 →
    ((ch.acceptAll (before ++ m :: between)).acceptsMessage m).1 = false

/-- Between the acceptance of an id and its repetition inside the window, no id that is accepted
writes to the slot of the first or skips over it. -/
def SlotsKept (ch : Channel) (ids : List MessageId) : Prop :=
  ∀ before m between after, ids = before ++ m :: between ++ m :: after →
    ((ch.acceptAll before).acceptsMessage m).1 = true →
    (ch.acceptAll (before ++ [m])).seenAdvance between < 32768 →
    (ch.acceptAll (before ++ m :: between)).seenBuf.checkSequence m = true →
    ∀ start t rest, between = start ++ t :: rest →
      (ch.acceptAll (before ++ m :: start)).seenBuf.checkSequence t = true →
      (ch.acceptAll (before ++ m :: start)).seenBuf.existsSequence t = false →
      ¬ (ch.acceptAll (before ++ m :: start)).seenBuf.Disturbs t (ch.seenBuf.index m)

/-- A slot no accepted id disturbs keeps its id. -/
theorem entrySequences_acceptAll_eq {ch : Channel} {ids : List MessageId} {i : ℕ}
    (h : ∀ start t rest, ids = start ++ t :: rest →
      (ch.acceptAll start).seenBuf.checkSequence t = true →
      (ch.acceptAll start).seenBuf.existsSequence t = false →
      ¬ (ch.acceptAll start).seenBuf.Disturbs t i) :
    (ch.acceptAll ids).seenBuf.entrySequences i = ch.seenBuf.entrySequences i := by
  induction ids generalizing ch with
  | nil => rfl
  | cons id rest ih =>
    have hfirst := entrySequences_acceptUnseen_eq (h [] id rest rfl)
    rw [acceptAll_cons, ih, seenBuf_acceptsMessage]
    · exact hfirst
    · intro start t rest' heq
      exact h (id :: start) t rest' (by rw [heq]; rfl)

/-- A slot that does not hold `m` does not come to hold it while `m` is refused. -/
theorem entrySequences_acceptAll_ne {ch : Channel} {ids : List MessageId} {i : ℕ} {m : MessageId}
    (hne : ch.seenBuf.entrySequences i ≠ some m)
    (h : ∀ start rest, ids = start ++ m :: rest →
      ((ch.acceptAll start).acceptsMessage m).1 = false) :
    (ch.acceptAll ids).seenBuf.entrySequences i ≠ some m := by
  induction ids generalizing ch with
  | nil => exact hne
  | cons id rest ih =>
    rw [acceptAll_cons]
    refine ih ?_ fun start rest' heq => h (id :: start) rest' (by rw [heq]; rfl)
    rw [seenBuf_acceptsMessage]
    refine entrySequences_acceptUnseen_ne hne ?_
    rintro rfl
    simpa using h [] rest rfl

theorem entrySequences_acceptsMessage_self {ch : Channel} {m : MessageId}
    (h : (ch.acceptsMessage m).1 = true) :
    (ch.acceptsMessage m).2.seenBuf.entrySequences (ch.seenBuf.index m) = some m := by
  rw [acceptsMessage_fst] at h
  have hins := insert_of_acceptUnseen h
  have hget := get_insert_self hins
  rw [get_eq_some_iff, existsSequence_iff, index_of_insert hins] at hget
  rw [seenBuf_acceptsMessage]
  exact hget.1

theorem deduplicates_of_slotsKept {ch : Channel} {ids : List MessageId} (h : ch.SlotsKept ids) :
    ch.Deduplicates ids := by
  intro before m between after hids hacc hmoved
  rw [← Bool.not_eq_true, acceptsMessage_fst, acceptUnseen_fst]
  rintro ⟨hcheck, hnot⟩
  have hkept := h before m between after hids hacc hmoved hcheck
  have hheld := entrySequences_acceptsMessage_self hacc
  have hindex : (ch.acceptAll before).seenBuf.index m = ch.seenBuf.index m :=
    index_congr (len_seenBuf_acceptAll _ _) m
  have hsame : (((ch.acceptAll before).acceptsMessage m).2.acceptAll between).seenBuf.entrySequences
      (ch.seenBuf.index m)
      = ((ch.acceptAll before).acceptsMessage m).2.seenBuf.entrySequences (ch.seenBuf.index m) := by
    refine entrySequences_acceptAll_eq fun start t rest heq => ?_
    simpa using hkept start t rest heq
  rw [← Bool.not_eq_true, existsSequence_iff] at hnot
  refine hnot ?_
  rw [hindex] at hheld
  rw [index_congr (len_seenBuf_acceptAll ch _) m]
  simpa using hsame.trans hheld

theorem slotsKept_of_deduplicates {ch : Channel} {ids : List MessageId} (h : ch.Deduplicates ids) :
    ch.SlotsKept ids := by
  intro before m between after hids hacc hmoved hcheck start t rest hbetween hcheckt hnewt hdist
  -- a repetition inside `between` is itself a repetition the run must refuse
  have hrefused : ∀ start' rest', between = start' ++ m :: rest' →
      ((ch.acceptAll (before ++ m :: start')).acceptsMessage m).1 = false := by
    intro start' rest' heq
    refine h before m start' (rest' ++ m :: after) ?_ hacc ?_
    · rw [hids, heq]
      simp
    · rw [heq, seenAdvance_append] at hmoved
      omega
  have hlast := h before m between after hids hacc hmoved
  have hacct : (acceptUnseen (ch.acceptAll (before ++ m :: start)).seenBuf t).1 = true :=
    acceptUnseen_fst.mpr ⟨hcheckt, hnewt⟩
  have htm : t ≠ m := by
    rintro rfl
    have := hrefused start rest hbetween
    rw [acceptsMessage_fst, hacct] at this
    cases this
  -- after `t` the slot does not hold `m`, and nothing puts it back
  have hlost : (ch.acceptAll (before ++ m :: (start ++ [t]))).seenBuf.entrySequences
      (ch.seenBuf.index m) ≠ some m := by
    have hins := insert_of_acceptUnseen hacct
    have hslot := entrySequences_insert_of_disturbs hins hdist
    have heq : ch.acceptAll (before ++ m :: (start ++ [t]))
        = ((ch.acceptAll (before ++ m :: start)).acceptsMessage t).2 := by simp
    rw [heq, seenBuf_acceptsMessage]
    rcases hslot with ⟨-, hs⟩ | hs <;> rw [hs]
    · simpa using htm
    · simp
  have hend : (ch.acceptAll (before ++ m :: between)).seenBuf.entrySequences
      (ch.seenBuf.index m) ≠ some m := by
    have heq : before ++ m :: between = before ++ m :: (start ++ [t]) ++ rest := by
      rw [hbetween]
      simp
    rw [heq, acceptAll_append]
    refine entrySequences_acceptAll_ne hlost fun start' rest' hrest => ?_
    have := hrefused (start ++ t :: start') rest' (by rw [hbetween, hrest]; simp)
    simpa using this
  -- inside the window and not in its slot, `m` is accepted again
  have hagain : ((ch.acceptAll (before ++ m :: between)).acceptsMessage m).1 = true := by
    rw [acceptsMessage_fst, acceptUnseen_fst, ← Bool.not_eq_true, existsSequence_iff,
      index_congr (len_seenBuf_acceptAll ch _) m]
    exact ⟨hcheck, hend⟩
  rw [hlast] at hagain
  cases hagain

/-- **De-duplication, exactly.** On a new channel of either kind, a run of `accepts_message` calls
with arbitrary ids delivers no id twice if and only if no slot is disturbed before its id leaves the
window. -/
theorem deduplicates_iff_slotsKept (id : UInt8) (time : Time) (ids : List MessageId) :
    ((unreliable (.new id time)).Deduplicates ids ↔ (unreliable (.new id time)).SlotsKept ids) ∧
      ((reliable (.new id time)).Deduplicates ids ↔ (reliable (.new id time)).SlotsKept ids) :=
  ⟨⟨slotsKept_of_deduplicates, deduplicates_of_slotsKept⟩,
    ⟨slotsKept_of_deduplicates, deduplicates_of_slotsKept⟩⟩

/-- Ids 60000 and 0 are both inside the window of a new channel, and both live in slot 0: the second
makes the channel forget the first. -/
theorem not_deduplicates_wrap :
    ¬ (unreliable (.new 0 1)).Deduplicates [60000, 0, 60000] ∧
      ¬ (reliable (.new 1 1)).Deduplicates [60000, 0, 60000] := by
  constructor
  · intro h
    have := h [] 60000 [0] [] rfl (by decide) (by decide)
    revert this
    decide
  · intro h
    have := h [] 60000 [0] [] rfl (by decide) (by decide)
    revert this
    decide

end Channel

end Pickleback
