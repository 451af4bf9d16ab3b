import Mathlib.Data.List.Basic

/-!
# Unwinding

A machine that may fail takes calls and puts out items, of which an observer sees some. If a call
that the observer has to do with looks to it like a call on a machine of its own, which puts out
what the observer sees, and no other call changes anything for it, then a whole run looks to it like
the run of its own calls on its own machine.

## Main definitions

* `run` — a series of calls, and all that it puts out
* `Along` — a condition on every call of a run
* `purge` — the calls that are left of a run
* `Unwinds` — what one call must meet

## Main results

* `Unwinds.run` — from calls to runs
-/

namespace Unwinding

universe u

variable {ε σ γ ω : Type u} {step : σ → γ → Except ε (σ × List ω)}

/-- A series of calls, and all that they put out. -/
def run (step : σ → γ → Except ε (σ × List ω)) (s : σ) : List γ → Except ε (σ × List ω)
  | [] => .ok (s, [])
  | c :: calls =>
    match step s c with
    | .error e => .error e
    | .ok r => (run step r.1 calls).map fun r' => (r'.1, r.2 ++ r'.2)

/-- A run, without what it puts out. -/
theorem map_run {next : σ → γ → Except ε σ}
    (hnext : ∀ s c, (step s c).map Prod.fst = next s c) (s : σ)
    (calls : List γ) : (run step s calls).map Prod.fst = calls.foldlM next s := by
  induction calls generalizing s with
  | nil => rfl
  | cons c calls ih =>
    rw [run, List.foldlM_cons, ← hnext]
    cases step s c with
    | error e => rfl
    | ok r =>
      show ((run step r.1 calls).map _).map Prod.fst = calls.foldlM next r.1
      rw [← ih]
      cases run step r.1 calls with
      | error e => rfl
      | ok r' => rfl

/-- Each call meets a condition in the state in which it is made. -/
def Along (step : σ → γ → Except ε (σ × List ω)) (permits : σ → γ → Prop) (s : σ) : List γ → Prop
  | [] => True
  | c :: calls => permits s c ∧
    match step s c with
    | .error _ => True
    | .ok r => Along step permits r.1 calls

/-- What the calls look like, each in the state in which it is made. Some are not seen at all. -/
def purge (step : σ → γ → Except ε (σ × List ω)) (look : σ → γ → Option γ) (s : σ) : List γ → List γ
  | [] => []
  | c :: calls => (look s c).toList ++
    match step s c with
    | .error _ => []
    | .ok r => purge step look r.1 calls

instance decidableAlong (permits : σ → γ → Prop) [∀ s c, Decidable (permits s c)]
    (s : σ) (calls : List γ) :
    Decidable (Along step permits s calls) :=
  match calls with
  | [] => isTrue trivial
  | c :: calls =>
    have : Decidable (match step s c with
        | .error _ => True
        | .ok r => Along step permits r.1 calls) :=
      match step s c with
      | .error _ => isTrue trivial
      | .ok r => decidableAlong permits r.1 calls
    inferInstanceAs (Decidable (_ ∧ _))

/-- The conditions on one call: what is seen of it happens on the machine `t` of the observer. -/
structure Unwinds (step : σ → γ → Except ε (σ × List ω)) (permits : σ → γ → Prop)
    (look : σ → γ → Option γ)
    (sees : ω → Bool) (R : σ → σ → Prop) : Prop where
  seen : ∀ {s s' t : σ} {c c' : γ} {out : List ω}, R s t → permits s c → look s c = some c' →
    step s c = .ok (s', out) → ∃ t', step t c' = .ok (t', out.filter sees) ∧ R s' t'
  unseen : ∀ {s s' t : σ} {c : γ} {out : List ω}, R s t → permits s c → look s c = none →
    step s c = .ok (s', out) → R s' t ∧ out.filter sees = []

variable {permits : σ → γ → Prop} {look : σ → γ → Option γ} {sees : ω → Bool} {R : σ → σ → Prop}

/-- **From calls to runs.** -/
theorem Unwinds.run (h : Unwinds step permits look sees R) {s s' t : σ}
    {calls : List γ} {out : List ω} (hR : R s t)
    (halong : Along step permits s calls) (hrun : Unwinding.run step s calls = .ok (s', out)) :
    ∃ t', Unwinding.run step t (purge step look s calls) = .ok (t', out.filter sees) ∧ R s' t' := by
  induction calls generalizing s t out with
  | nil =>
    cases hrun
    exact ⟨t, rfl, hR⟩
  | cons c calls ih =>
    obtain ⟨hpermits, hrest⟩ := halong
    simp only [Unwinding.run] at hrun
    rw [purge]
    split at hrun
    · cases hrun
    · next r hstep =>
      obtain ⟨s₁, out₁⟩ := r
      rw [hstep] at hrest
      dsimp only
      cases htail : Unwinding.run step s₁ calls with
      | error e =>
        rw [htail] at hrun
        cases hrun
      | ok r =>
        obtain ⟨s₂, out₂⟩ := r
        rw [htail] at hrun
        cases hrun
        rw [List.filter_append]
        cases hlook : look s c with
        | none =>
          obtain ⟨hR₁, hnone⟩ := h.unseen hR hpermits hlook hstep
          rw [hnone]
          exact ih hR₁ hrest htail
        | some c' =>
          obtain ⟨t₁, hstep', hR₁⟩ := h.seen hR hpermits hlook hstep
          obtain ⟨t₂, hrun', hR₂⟩ := ih hR₁ hrest htail
          refine ⟨t₂, ?_, hR₂⟩
          show Unwinding.run step t (c' :: purge step look s₁ calls) = _
          rw [Unwinding.run, hstep']
          show (Unwinding.run step t₁ (purge step look s₁ calls)).map _ = _
          rw [hrun']
          rfl

/-- What holds of all calls that are seen holds of all calls that are left. -/
theorem forall_mem_purge {Q : γ → Prop} (hlook : ∀ s c c', look s c = some c' → Q c')
    (s : σ) (calls : List γ) :
    ∀ c ∈ purge step look s calls, Q c := by
  induction calls generalizing s with
  | nil => exact fun c hc => (List.not_mem_nil hc).elim
  | cons c calls ih =>
    intro c' hc'
    rw [purge, List.mem_append, Option.mem_toList] at hc'
    rcases hc' with hc' | hc'
    · exact hlook s c c' hc'
    · split at hc'
      · cases hc'
      · exact ih _ c' hc'

end Unwinding
