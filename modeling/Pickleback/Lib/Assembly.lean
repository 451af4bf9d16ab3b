import Mathlib.Data.Set.Insert
import Mathlib.Data.List.Lattice
import Mathlib.Data.List.Nodup
import Mathlib.Data.List.Pairwise

/-!
# Messages that arrive in parts

A receiver is handed the parts of messages one at a time, in any order and any number of times. It
remembers which parts it has, and hands a message over when the last of its parts is there. If no
part is one of two messages, every message is handed over once, and exactly those of which all parts
have arrived.

## Main definitions

* `Whole` — all parts of a message are there
* `Receiver`, `Receiver.take` — what has arrived and what was handed over, and the next part
* `Cut` — a list of messages of which no two share a part
* `Receiver.Sound` — the messages handed over are those that are whole, each of them once

## Main results

* `Receiver.Sound.take` — a part that arrives
* `Receiver.Sound.concat` — a message that is new
-/

namespace Assembly

variable {M P : Type*} {parts : M → List P} {ms : List M} {got : Set P} {m m' : M} {x : P}

/-- Every part of the message is there. -/
def Whole (parts : M → List P) (got : Set P) (m : M) : Prop := ∀ x ∈ parts m, x ∈ got

/-- Messages with parts of their own. -/
structure Cut (parts : M → List P) (ms : List M) : Prop where
  nodup : (ms.flatMap parts).Nodup
  nonempty : ∀ m ∈ ms, parts m ≠ []

namespace Cut

theorem eq_of_mem (h : Cut parts ms) (hm : m ∈ ms) (hm' : m' ∈ ms)
    (hx : x ∈ parts m) (hx' : x ∈ parts m') :
    m = m' := by
  by_contra hne
  have hsymm : Std.Symm fun m m' : M => List.Disjoint (parts m) (parts m') :=
    ⟨fun _ _ hd => hd.symm⟩
  exact (List.nodup_flatMap.mp h.nodup).2.forall hm hm' hne hx hx'

/-- A part of one message makes no other whole. -/
theorem whole_insert_iff (h : Cut parts ms) (hm : m ∈ ms) (hx : x ∈ parts m)
    (hm' : m' ∈ ms) (hne : m' ≠ m) :
    Whole parts (insert x got) m' ↔ Whole parts got m' := by
  refine forall₂_congr fun y hy => ⟨fun hmem => hmem.resolve_left ?_, Or.inr⟩
  rintro rfl
  exact hne (h.eq_of_mem hm' hm hy hx)

end Cut

/-! ### The receiver -/

/-- The parts that have arrived, and the messages that were handed over, in order. -/
structure Receiver (M P : Type*) where
  got : Set P
  out : List M

namespace Receiver

/-- Nothing has arrived. -/
def empty : Receiver M P := ⟨∅, []⟩

open Classical in
/-- A part of the message `m` arrives. -/
noncomputable def take (parts : M → List P) (r : Receiver M P) (m : M) (x : P) : Receiver M P :=
  if x ∈ r.got then r
  else ⟨insert x r.got, if Whole parts (insert x r.got) m then r.out ++ [m] else r.out⟩

/-- Several parts arrive, one after the other. -/
noncomputable def takeAll (parts : M → List P) (r : Receiver M P) (xs : List (M × P)) :
    Receiver M P :=
  xs.foldl (fun r x => r.take parts x.1 x.2) r

variable {r r' : Receiver M P}

theorem take_of_mem (h : x ∈ r.got) : r.take parts m x = r := if_pos h

theorem take_of_whole (h : x ∉ r.got) (hwhole : Whole parts (insert x r.got) m) :
    r.take parts m x = ⟨insert x r.got, r.out ++ [m]⟩ := by
  rw [take, if_neg h, if_pos hwhole]

theorem take_of_not_whole (h : x ∉ r.got) (hwhole : ¬ Whole parts (insert x r.got) m) :
    r.take parts m x = ⟨insert x r.got, r.out⟩ := by
  rw [take, if_neg h, if_neg hwhole]

theorem got_take (parts : M → List P) (r : Receiver M P) (m : M) (x : P) :
    (r.take parts m x).got = insert x r.got := by
  by_cases hx : x ∈ r.got
  · rw [take_of_mem hx, Set.insert_eq_of_mem hx]
  · rw [take, if_neg hx]

theorem got_takeAll (parts : M → List P) (r : Receiver M P) (xs : List (M × P)) :
    (r.takeAll parts xs).got = r.got ∪ { x | ∃ m, (m, x) ∈ xs } := by
  induction xs generalizing r with
  | nil => simp [takeAll]
  | cons y xs ih =>
    rw [takeAll, List.foldl_cons, ← takeAll, ih, got_take]
    ext x
    simp only [Set.mem_union, Set.mem_insert_iff, Set.mem_ofPred_eq,
      List.mem_cons, Prod.ext_iff, exists_or,
      exists_eq_left]
    tauto

/-- The messages handed over are known and whole, and each was handed over once. -/
structure Sound (parts : M → List P) (r : Receiver M P) (ms : List M) : Prop where
  nodup : r.out.Nodup
  mem_iff : ∀ m, m ∈ r.out ↔ m ∈ ms ∧ Whole parts r.got m

namespace Sound

theorem nil (parts : M → List P) : Sound parts empty [] where
  nodup := List.nodup_nil
  mem_iff := by simp [empty]

/-- **A part** arrives, for the first time or again. -/
theorem take (h : Sound parts r ms) (hcut : Cut parts ms) (hm : m ∈ ms) (hx : x ∈ parts m) :
    Sound parts (r.take parts m x) ms := by
  by_cases hold : x ∈ r.got
  · rwa [take_of_mem hold]
  · have hnot : ¬ Whole parts r.got m := fun hwhole => hold (hwhole x hx)
    have hnew : m ∉ r.out := fun hmem => hnot ((h.mem_iff m).mp hmem).2
    by_cases hwhole : Whole parts (insert x r.got) m
    · rw [take_of_whole hold hwhole]
      refine ⟨List.nodup_append.mpr ⟨h.nodup, List.nodup_singleton m, ?_⟩, fun m' => ?_⟩
      · rintro a ha b hb rfl
        exact hnew (List.mem_singleton.mp hb ▸ ha)
      · rw [List.mem_append, List.mem_singleton, h.mem_iff]
        by_cases hne : m' = m
        · subst hne
          exact iff_of_true (Or.inr rfl) ⟨hm, hwhole⟩
        · rw [or_iff_left hne]
          exact and_congr_right fun hm' => (hcut.whole_insert_iff hm hx hm' hne).symm
    · rw [take_of_not_whole hold hwhole]
      refine ⟨h.nodup, fun m' => (h.mem_iff m').trans (and_congr_right fun hm' => ?_)⟩
      by_cases hne : m' = m
      · subst hne
        exact iff_of_false hnot hwhole
      · exact (hcut.whole_insert_iff hm hx hm' hne).symm

/-- A new message is not whole if one of its parts has not arrived. -/
theorem concat (h : Sound parts r ms) (hx : x ∈ parts m) (hnew : x ∉ r.got) :
    Sound parts r (ms ++ [m]) where
  nodup := h.nodup
  mem_iff := by
    intro m'
    rw [h.mem_iff, List.mem_append, List.mem_singleton]
    refine ⟨fun h => ⟨Or.inl h.1, h.2⟩, ?_⟩
    rintro ⟨hm' | rfl, hwhole⟩
    · exact ⟨hm', hwhole⟩
    · exact absurd (hwhole x hx) hnew

end Sound

end Receiver

end Assembly
