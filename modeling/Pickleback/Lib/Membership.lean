import Mathlib.Data.List.Perm.Basic

/-!
# Logs of a membership

A log records who joined and who left, in order. It mirrors a set of members if for each key the
entries alternate, beginning with a join, and the last of them is a join for the members and only
for them. A member that leaves and a newcomer that joins keep this up, each with one entry.

## Main definitions

* `Alternates`, `about`, `present` — the entries of one key
* `Mirrors` — the log and the members agree

## Main results

* `Mirrors.join`, `Mirrors.leave`, `Mirrors.leaveAll` — the members change, and the log with them
* `Mirrors.not_of_silent_leave` — a member that leaves without an entry
-/

namespace Membership

/-- `true` and `false` in turn, beginning with `b`. -/
def Alternates : Bool → List Bool → Prop
  | _, [] => True
  | b, c :: cs => c = b ∧ Alternates (!b) cs

theorem alternates_concat {b c : Bool} {cs : List Bool} :
    Alternates b (cs ++ [c]) ↔ Alternates b cs ∧ c = !cs.getLastD (!b) := by
  induction cs generalizing b with
  | nil => simp [Alternates]
  | cons d cs ih =>
    rw [List.cons_append, Alternates, Alternates, ih, List.getLastD_cons, Bool.not_not, and_assoc]
    refine and_congr_right fun hd => ?_
    rw [hd]

variable {κ : Type} [DecidableEq κ]

/-- The entries of one key: `true` for a join, `false` for a leave. -/
def about (k : κ) (log : List (κ × Bool)) : List Bool := (log.filter fun e => e.1 = k).map Prod.snd

/-- The last entry of a key is a join. -/
def present (k : κ) (log : List (κ × Bool)) : Bool := (about k log).getLastD false

theorem about_concat (k : κ) (log : List (κ × Bool)) (e : κ × Bool) :
    about k (log ++ [e]) = if e.1 = k then about k log ++ [e.2] else about k log := by
  rw [about, List.filter_append, List.map_append]
  by_cases h : e.1 = k
  · rw [if_pos h, List.filter_cons_of_pos (by simpa using h)]
    rfl
  · rw [if_neg h, List.filter_cons_of_neg (by simpa using h), List.filter_nil,
      List.map_nil, List.append_nil]
    rfl

theorem present_concat (k : κ) (log : List (κ × Bool)) (e : κ × Bool) :
    present k (log ++ [e]) = if e.1 = k then e.2 else present k log := by
  rw [present, about_concat]
  split
  · exact List.getLastD_concat
  · rfl

/-- The log and the members agree. -/
structure Mirrors (log : List (κ × Bool)) (members : List κ) : Prop where
  alternates : ∀ k, Alternates true (about k log)
  present_iff : ∀ k, present k log = true ↔ k ∈ members

variable {log : List (κ × Bool)} {members members' : List κ} {k : κ}

theorem mirrors_nil : Mirrors ([] : List (κ × Bool)) [] where
  alternates _ := trivial
  present_iff _ := by simp [present, about]

theorem Mirrors.congr (h : Mirrors log members) (hmem : ∀ k, k ∈ members' ↔ k ∈ members) :
    Mirrors log members' where
  alternates := h.alternates
  present_iff k := (h.present_iff k).trans (hmem k).symm

/-- An entry that turns the last one of its key around. -/
theorem Mirrors.alternates_concat (h : Mirrors log members) {b : Bool}
    (hb : b = !present k log) (j : κ) :
    Alternates true (about j (log ++ [(k, b)])) := by
  rw [about_concat]
  split
  · next hj =>
    have hj : k = j := hj
    subst hj
    exact Membership.alternates_concat.mpr ⟨h.alternates k, hb⟩
  · exact h.alternates j

theorem Mirrors.join (h : Mirrors log members) (hk : k ∉ members) :
    Mirrors (log ++ [(k, true)]) (members ++ [k]) where
  alternates := h.alternates_concat (by
    rw [Bool.eq_false_iff.mpr fun hp => hk ((h.present_iff k).mp hp)]
    rfl)
  present_iff j := by
    rw [present_concat, List.mem_append, List.mem_singleton]
    by_cases hj : k = j
    · simp [hj]
    · rw [if_neg hj, h.present_iff]
      simp [Ne.symm hj]

theorem Mirrors.leave (h : Mirrors log (k :: members)) (hk : k ∉ members) :
    Mirrors (log ++ [(k, false)]) members where
  alternates := h.alternates_concat (by
    rw [(h.present_iff k).mpr (List.mem_cons_self ..)]
    rfl)
  present_iff j := by
    rw [present_concat]
    by_cases hj : k = j
    · subst hj
      simp [hk]
    · rw [if_neg hj, h.present_iff, List.mem_cons]
      simp [Ne.symm hj]

/-- Several members leave. -/
theorem Mirrors.leaveAll {gone : List κ} (h : Mirrors log (gone ++ members))
    (hnodup : (gone ++ members).Nodup) :
    Mirrors (log ++ gone.map fun k => (k, false)) members := by
  induction gone generalizing log with
  | nil => simpa using h
  | cons k gone ih =>
    rw [List.cons_append, List.nodup_cons] at hnodup
    have hleave := ih (h.leave hnodup.1) hnodup.2
    rwa [List.append_assoc, List.singleton_append, ← List.map_cons (f := fun k => (k, false))]
      at hleave

/-- A member that leaves without an entry. -/
theorem Mirrors.not_of_silent_leave (h : Mirrors log members) (hk : k ∈ members)
    (hk' : k ∉ members') :
    ¬ Mirrors log members' :=
  fun h' => hk' ((h'.present_iff k).mp ((h.present_iff k).mpr hk))

end Membership
