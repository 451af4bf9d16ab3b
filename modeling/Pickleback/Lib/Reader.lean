import Mathlib.Tactic

/-!
# Readers in a chain

A reader hands out a sequence piece by piece: the caller offers places, and the reader fills as many
of them as it likes. That nothing is filled says that the sequence is at its end, unless no place
was offered. A chain reads its first reader to the end and then its second one; it learns about the
end of the first only by reading from it.

## Main definitions

* `Reader`, `Reader.read`, `Reader.readToEnd` — the empty reader, a cursor, a chain of two readers
* `Reader.rest` — what is still to be read
* `Reader.reads` — reading several times

## Main results

* `Reader.append_rest_read` — nothing is skipped and nothing is read twice
* `Reader.read_eq_nil_iff` — no end before the end
* `Reader.flatten_reads_of_length_le` — enough reads get everything
-/

universe u

/-- A reader in one of its states. A cursor may be behind its data. -/
inductive Reader (α : Type u) where
  | empty
  | cursor (data : List α) (pos : ℕ)
  | chain (first second : Reader α) (doneFirst : Bool)
  deriving DecidableEq, Repr

namespace Reader

variable {α : Type u}

/-- What is still to be read. -/
def rest : Reader α → List α
  | empty => []
  | cursor data pos => data.drop pos
  | chain first second doneFirst => (if doneFirst then [] else first.rest) ++ second.rest

/-- One read: what is put into a buffer of `n` places, and the reader afterwards. -/
def read : Reader α → ℕ → List α × Reader α
  | empty, _ => ([], empty)
  | cursor data pos, n =>
    let out := (data.drop pos).take n
    (out, cursor data (pos + out.length))
  | chain first second true, n =>
    let r := second.read n
    (r.1, chain first r.2 true)
  | chain first second false, n =>
    let r := first.read n
    if r.1.isEmpty && n != 0 then
      let r₂ := second.read n
      (r₂.1, chain r.2 r₂.2 true)
    else (r.1, chain r.2 second false)

/-- Reading to the end. -/
def readToEnd : Reader α → List α × Reader α
  | empty => ([], empty)
  | cursor data pos => (data.drop pos, cursor data (pos + (data.drop pos).length))
  | chain first second true =>
    let r := second.readToEnd
    (r.1, chain first r.2 true)
  | chain first second false =>
    let r := first.readToEnd
    let r₂ := second.readToEnd
    (r.1 ++ r₂.1, chain r.2 r₂.2 true)

/-- Reading several times, into buffers of these sizes: what each read has put out, and the reader
afterwards. -/
def reads (r : Reader α) : List ℕ → List (List α) × Reader α
  | [] => ([], r)
  | n :: sizes =>
    let r₁ := r.read n
    let r₂ := r₁.2.reads sizes
    (r₁.1 :: r₂.1, r₂.2)

theorem length_read_le (r : Reader α) (n : ℕ) : (r.read n).1.length ≤ n := by
  induction r with
  | empty => exact Nat.zero_le n
  | cursor data pos => exact List.length_take_le n _
  | chain first second doneFirst ihfirst ihsecond =>
    cases doneFirst with
    | true => exact ihsecond
    | false =>
      rw [read]
      split
      · exact ihsecond
      · exact ihfirst

/-- **No end before the end.** -/
theorem read_eq_nil_iff (r : Reader α) {n : ℕ} (hn : n ≠ 0) : (r.read n).1 = [] ↔ r.rest = [] := by
  induction r with
  | empty => exact Iff.rfl
  | cursor data pos =>
    simp only [read, rest, List.take_eq_nil_iff, hn, or_iff_right, not_false_eq_true]
  | chain first second doneFirst ihfirst ihsecond =>
    cases doneFirst with
    | true => exact ihsecond
    | false =>
      simp only [read, rest, Bool.false_eq_true, if_false, List.append_eq_nil_iff]
      split
      · next hend =>
        rw [Bool.and_eq_true, List.isEmpty_iff] at hend
        rw [← ihfirst, ← ihsecond]
        exact (and_iff_right hend.1).symm
      · next hmore =>
        have hfirst : (first.read n).1 ≠ [] := by simpa [hn] using hmore
        rw [← ihfirst]
        exact ⟨fun h => absurd h hfirst, fun h => absurd h.1 hfirst⟩

/-- **Nothing is skipped and nothing is read twice.** -/
theorem append_rest_read (r : Reader α) (n : ℕ) : (r.read n).1 ++ (r.read n).2.rest = r.rest := by
  induction r with
  | empty => rfl
  | cursor data pos =>
    rw [read, rest, rest, ← List.drop_drop]
    conv_rhs => rw [← List.take_append_drop n (data.drop pos)]
    congr 1
    rw [List.length_take]
    rcases Nat.le_total n (data.drop pos).length with hle | hle
    · rw [Nat.min_eq_left hle]
    · rw [Nat.min_eq_right hle, List.drop_length, List.drop_eq_nil_of_le hle]
  | chain first second doneFirst ihfirst ihsecond =>
    cases doneFirst with
    | true => exact ihsecond
    | false =>
      rw [read]
      split
      · next hend =>
        -- the first reader has said that it is at its end
        rw [Bool.and_eq_true, List.isEmpty_iff, bne_iff_ne] at hend
        have hfirst := (read_eq_nil_iff first hend.2).mp hend.1
        simpa [rest, hfirst] using ihsecond
      · simp only [rest, Bool.false_eq_true, if_false, ← List.append_assoc, ihfirst]

theorem rest_readToEnd (r : Reader α) : r.readToEnd.1 = r.rest ∧ r.readToEnd.2.rest = [] := by
  induction r with
  | empty => exact ⟨rfl, rfl⟩
  | cursor data pos => exact ⟨rfl, by rw [readToEnd, rest, ← List.drop_drop, List.drop_length]⟩
  | chain first second doneFirst ihfirst ihsecond =>
    cases doneFirst with
    | true => exact ihsecond
    | false =>
      refine ⟨?_, ihsecond.2⟩
      rw [readToEnd, rest, ihfirst.1, ihsecond.1]
      rfl

/-! ### Reading several times -/

theorem forall₂_reads (r : Reader α) (sizes : List ℕ) :
    List.Forall₂ (fun piece n => piece.length ≤ n) (r.reads sizes).1 sizes := by
  induction sizes generalizing r with
  | nil => exact .nil
  | cons n sizes ih => exact .cons (r.length_read_le n) (ih _)

theorem flatten_reads (r : Reader α) (sizes : List ℕ) :
    (r.reads sizes).1.flatten ++ (r.reads sizes).2.rest = r.rest := by
  induction sizes generalizing r with
  | nil => rfl
  | cons n sizes ih =>
    rw [reads, List.flatten_cons, List.append_assoc, ih]
    exact r.append_rest_read n

/-- As long as something is left, every read into a buffer that has a place gets something. -/
theorem length_rest_reads (r : Reader α) {sizes : List ℕ} (hsizes : ∀ n ∈ sizes, n ≠ 0) :
    (r.reads sizes).2.rest.length ≤ r.rest.length - sizes.length := by
  induction sizes generalizing r with
  | nil => exact le_of_eq rfl
  | cons n sizes ih =>
    have hrest := ih (r.read n).2 fun m hm => hsizes m (List.mem_cons_of_mem n hm)
    have hlength := congrArg List.length (r.append_rest_read n)
    rw [List.length_append] at hlength
    have hnone := r.read_eq_nil_iff (hsizes n List.mem_cons_self)
    rw [reads, List.length_cons]
    rcases Nat.eq_zero_or_pos (r.read n).1.length with hzero | hpos
    · rw [hnone.mp (List.length_eq_zero_iff.mp hzero)] at hlength
      simp only [List.length_nil] at hlength
      dsimp only
      omega
    · dsimp only
      omega

/-- Enough reads get everything. -/
theorem flatten_reads_of_length_le (r : Reader α) {sizes : List ℕ} (hsizes : ∀ n ∈ sizes, n ≠ 0)
    (hle : r.rest.length ≤ sizes.length) : (r.reads sizes).1.flatten = r.rest := by
  have hlength := r.length_rest_reads hsizes
  have hnil : (r.reads sizes).2.rest = [] := List.length_eq_zero_iff.mp (by omega)
  rw [← r.flatten_reads sizes, hnil, List.append_nil]

/-! ### Chains of cursors -/

/-- Cursors over several pieces, chained together one by one. -/
def cursors (pieces : List (List α)) : Reader α :=
  (pieces.map fun piece => cursor piece 0).foldl (fun acc cur => chain acc cur false) empty

theorem rest_foldl_chain (r : Reader α) (readers : List (Reader α)) :
    (readers.foldl (fun acc cur => chain acc cur false) r).rest = r.rest ++
      (readers.map rest).flatten := by
  induction readers generalizing r with
  | nil => exact (List.append_nil _).symm
  | cons cur readers ih =>
    rw [List.foldl_cons, ih, rest, List.map_cons, List.flatten_cons, List.append_assoc]
    rfl

theorem rest_cursors (pieces : List (List α)) : (cursors pieces).rest = pieces.flatten := by
  rw [cursors, rest_foldl_chain, List.map_map]
  exact congrArg List.flatten (List.map_id pieces)

end Reader
