import Mathlib.Data.List.Forall2

/-!
# Lockstep

Two computations that may fail agree up to a relation if both fail in the same way or both return,
related values. A machine may do a little more than another one, in steps that the other does not
take. If it agrees with the other in each step they share, and stays where it is, as far as the
relation goes, in each step of its own, then the two agree on every run.

## Main definitions

* `Agree` — the same failure, or related values

## Main results

* `agree_foldlM` — from steps to runs
-/

namespace Lockstep

variable {ε α β γ δ : Type} {R : α → β → Prop} {S : γ → δ → Prop}

/-- The same failure, or related values. -/
inductive Agree (R : α → β → Prop) : Except ε α → Except ε β → Prop
  | error (e : ε) : Agree R (.error e) (.error e)
  | ok {a : α} {b : β} (h : R a b) : Agree R (.ok a) (.ok b)

theorem Agree.of_eq {R : α → α → Prop} (hrefl : ∀ a, R a a) (x : Except ε α) : Agree R x x := by
  cases x with
  | error e => exact .error e
  | ok a => exact .ok (hrefl a)

theorem Agree.map {x : Except ε α} {y : Except ε β} {f : α → γ} {g : β → δ} (h : Agree R x y)
    (hmap : ∀ a b, R a b → S (f a) (g b)) : Agree S (x.map f) (y.map g) := by
  cases h with
  | error e => exact .error e
  | ok hab => exact .ok (hmap _ _ hab)

theorem Agree.bind {x : Except ε α} {y : Except ε β} {f : α → Except ε γ}
    {g : β → Except ε δ} (h : Agree R x y)
    (hbind : ∀ a b, R a b → Agree S (f a) (g b)) : Agree S (x >>= f) (y >>= g) := by
  cases h with
  | error e => exact .error e
  | ok hab => exact hbind _ _ hab

/-- What one of them returns is related to what the other returns. -/
theorem Agree.exists_of_ok {x : Except ε α} {y : Except ε β} {a : α}
    (h : Agree R x y) (hx : x = .ok a) :
    ∃ b, y = .ok b ∧ R a b := by
  cases h with
  | error e => cases hx
  | ok hab =>
    cases hx
    exact ⟨_, rfl, hab⟩

/-- **From steps to runs.** `f` is in lockstep with `g` where `shared` says which step of `g` a step
of `f` is. -/
theorem agree_foldlM {ι κ : Type} {f : α → ι → Except ε α} {g : β → κ → Except ε β}
    {shared : ι → Option κ}
    (hshared : ∀ a b i k, R a b → shared i = some k → Agree R (f a i) (g b k))
    (hown : ∀ a b i, R a b → shared i = none → ∃ a', f a i = .ok a' ∧ R a' b)
    (is : List ι) {a : α} {b : β}
    (h : R a b) : Agree R (is.foldlM f a) ((is.filterMap shared).foldlM g b) := by
  induction is generalizing a b with
  | nil => exact .ok h
  | cons i rest ih =>
    rw [List.foldlM_cons]
    cases hi : shared i with
    | none =>
      obtain ⟨a', ha', h'⟩ := hown a b i h hi
      rw [List.filterMap_cons_none hi, ha']
      exact ih h'
    | some k =>
      rw [List.filterMap_cons_some hi, List.foldlM_cons]
      exact (hshared a b i k h hi).bind fun a' b' h' => ih h'

/-! ### Options and lists -/

theorem rel_map {x : Option α} {y : Option β} {f : α → γ} {g : β → δ} (h : Option.Rel R x y)
    (hmap : ∀ a b, R a b → S (f a) (g b)) : Option.Rel S (x.map f) (y.map g) := by
  cases h with
  | none => exact .none
  | some hab => exact .some (hmap _ _ hab)

/-- The first elements that pass a test, where the test does not tell related elements apart. -/
theorem rel_find? {as : List α} {bs : List β} {p : α → Bool} {q : β → Bool}
    (h : List.Forall₂ R as bs)
    (hpq : ∀ a b, R a b → p a = q b) : Option.Rel R (as.find? p) (bs.find? q) := by
  induction h with
  | nil => exact .none
  | @cons a b as bs hab _ ih =>
    rw [List.find?_cons, List.find?_cons, hpq a b hab]
    cases q b with
    | true => exact .some hab
    | false => exact ih

/-- A test that does not tell related elements apart does not tell related lists apart. -/
theorem any_eq_any {as : List α} {bs : List β} {p : α → Bool} {q : β → Bool}
    (h : List.Forall₂ R as bs)
    (hpq : ∀ a b, R a b → p a = q b) : as.any p = bs.any q := by
  induction h with
  | nil => rfl
  | cons hab _ ih => rw [List.any_cons, List.any_cons, hpq _ _ hab, ih]

/-- Related lists have the same images under functions that do not tell related elements apart. -/
theorem map_eq_map {as : List α} {bs : List β} {f : α → γ} {g : β → γ} (h : List.Forall₂ R as bs)
    (hfg : ∀ a b, R a b → f a = g b) : as.map f = bs.map g := by
  induction h with
  | nil => rfl
  | cons hab _ ih => rw [List.map_cons, List.map_cons, hfg _ _ hab, ih]

theorem countP_eq_countP {as : List α} {bs : List β} {p : α → Bool}
    {q : β → Bool} (h : List.Forall₂ R as bs)
    (hpq : ∀ a b, R a b → p a = q b) : as.countP p = bs.countP q := by
  induction h with
  | nil => rfl
  | cons hab _ ih => rw [List.countP_cons, List.countP_cons, hpq _ _ hab, ih]

theorem rel_getD {as : List α} {bs : List β} {a₀ : α} {b₀ : β}
    (h : List.Forall₂ R as bs) (h₀ : R a₀ b₀) (i : ℕ) :
    R (as.getD i a₀) (bs.getD i b₀) := by
  induction h generalizing i with
  | nil => exact h₀
  | cons hab _ ih =>
    cases i with
    | zero => exact hab
    | succ i => exact ih i

theorem rel_set {as : List α} {bs : List β} {a₀ : α} {b₀ : β} (h : List.Forall₂ R as bs)
    (h₀ : R a₀ b₀) (i : ℕ) :
    List.Forall₂ R (as.set i a₀) (bs.set i b₀) := by
  induction h generalizing i with
  | nil => exact .nil
  | cons hab hrest ih =>
    cases i with
    | zero => exact .cons h₀ hrest
    | succ i => exact .cons hab (ih i)

end Lockstep
