import Mathlib.Tactic

/-!
# Consecutive intervals

A list of half-open intervals that starts at `lo`, ends at `hi`, has no gap, no overlap and no empty
member: a partition of `[lo, hi)`, in order.

## Main definitions

* `Tiles` — the intervals of the list tile `[lo, hi)`

## Main results

* `Tiles.existsUnique` — every point of `[lo, hi)` is in exactly one of them
* `tiles_of_cuts` — the intervals between increasing cuts
-/

namespace Tiling

variable {α : Type*} [LinearOrder α]

/-- Half-open intervals that follow each other from `lo` to `hi`, none of them empty. -/
def Tiles : α → List (α × α) → α → Prop
  | lo, [], hi => lo = hi
  | lo, s :: rest, hi => s.1 = lo ∧ s.1 < s.2 ∧ Tiles s.2 rest hi

theorem Tiles.le {lo hi : α} {spans : List (α × α)} (h : Tiles lo spans hi) : lo ≤ hi := by
  induction spans generalizing lo with
  | nil => exact le_of_eq h
  | cons s rest ih =>
    obtain ⟨rfl, hlt, hrest⟩ := h
    exact hlt.le.trans (ih hrest)

/-- The intervals of a tiling lie between its ends. -/
theorem Tiles.bounds {lo hi : α} {spans : List (α × α)} (h : Tiles lo spans hi) {s : α × α}
    (hs : s ∈ spans) : lo ≤ s.1 ∧ s.2 ≤ hi := by
  induction spans generalizing lo with
  | nil => cases hs
  | cons t rest ih =>
    obtain ⟨rfl, hlt, hrest⟩ := h
    rcases List.mem_cons.mp hs with rfl | hs
    · exact ⟨le_refl _, hrest.le⟩
    · obtain ⟨hlo, hhi⟩ := ih hrest hs
      exact ⟨hlt.le.trans hlo, hhi⟩

/-- **A tiling is a partition.** -/
theorem Tiles.existsUnique {lo hi : α} {spans : List (α × α)} (h : Tiles lo spans hi) {x : α}
    (hlo : lo ≤ x) (hhi : x < hi) : ∃! s, s ∈ spans ∧ s.1 ≤ x ∧ x < s.2 := by
  induction spans generalizing lo with
  | nil =>
    cases (show lo = hi from h)
    exact absurd hhi (not_lt.mpr hlo)
  | cons t rest ih =>
    obtain ⟨rfl, hlt, hrest⟩ := h
    by_cases hx : x < t.2
    · refine ⟨t, ⟨List.mem_cons_self .., hlo, hx⟩, ?_⟩
      rintro s ⟨hs, hsx, -⟩
      rcases List.mem_cons.mp hs with rfl | hs
      · rfl
      · exact absurd (((hrest.bounds hs).1.trans hsx).trans_lt hx) (lt_irrefl _)
    · obtain ⟨s, ⟨hs, hin⟩, hunique⟩ := ih hrest (not_lt.mp hx)
      refine ⟨s, ⟨List.mem_cons_of_mem _ hs, hin⟩, ?_⟩
      rintro u ⟨hu, hux, hxu⟩
      rcases List.mem_cons.mp hu with rfl | hu
      · exact absurd hxu hx
      · exact hunique u ⟨hu, hux, hxu⟩

/-- The intervals between increasing cuts. -/
theorem tiles_of_cuts {cut : ℕ → α} {lo n : ℕ} (h : ∀ i, i < lo + n → cut i < cut (i + 1)) :
    Tiles (cut lo) ((List.range' lo n).map fun i => (cut i, cut (i + 1))) (cut (lo + n)) := by
  induction n generalizing lo with
  | zero => rfl
  | succ n ih =>
    rw [List.range'_succ, List.map_cons]
    refine ⟨rfl, h lo (by omega), ?_⟩
    have hnext : ∀ i, i < lo + 1 + n → cut i < cut (i + 1) := fun i hi => h i (by omega)
    have hrest := ih hnext
    rwa [show lo + 1 + n = lo + (n + 1) by omega] at hrest

end Tiling
