import Mathlib.Algebra.BigOperators.Group.List.Basic
import Mathlib.Algebra.BigOperators.Intervals
import Mathlib.Algebra.Order.BigOperators.Group.List
import Mathlib.Tactic

/-! # Sums over keyed lists

A list whose elements have distinct keys is a small map; these are the sums over such a list with the
element under one key taken out, or with only that element changed, and the sums over a list without
duplicates that read the index of each element. -/

namespace Base

variable {α κ : Type} [DecidableEq κ] {key : α → κ} {l : List α} {k : κ}

/-- A sum is that of the elements under other keys and that of the elements under `k`. -/
theorem sum_map_split (key : α → κ) (k : κ) (f : α → Int) (l : List α) :
    (l.map f).sum = (l.map fun x => if key x = k then 0 else f x).sum + (l.map fun x => if key x = k then f x
      else 0).sum := by
  induction l with
  | nil => rfl
  | cons x l ih =>
    simp only [List.map_cons, List.sum_cons, ih]
    by_cases hx : key x = k <;> simp only [hx, if_true, if_false] <;> omega

theorem sum_map_at_of_notMem (f : α → Int) (hk : k ∉ l.map key) :
    (l.map fun x => if key x = k then f x else 0).sum = 0 := by
  refine List.sum_eq_zero fun n hn => ?_
  obtain ⟨x, hx, rfl⟩ := List.mem_map.mp hn
  refine if_neg ?_
  rintro rfl
  exact hk (List.mem_map_of_mem hx)

theorem sum_map_at (key : α → κ) (f : α → Int) (hl : (l.map key).Nodup) {x : α} (hx : x ∈ l) :
    (l.map fun y => if key y = key x then f y else 0).sum = f x := by
  induction l with
  | nil => cases hx
  | cons y l ih =>
    rw [List.map_cons, List.nodup_cons] at hl
    rw [List.map_cons, List.sum_cons]
    rcases List.mem_cons.mp hx with rfl | hmem
    · rw [if_pos rfl, sum_map_at_of_notMem f hl.1, add_zero]
    · have hne : key y ≠ key x := fun h => hl.1 (h ▸ List.mem_map_of_mem hmem)
      rw [if_neg hne, ih hl.2 hmem, zero_add]

/-- A change of at most `u` under one key changes the sum by at most `u`. -/
theorem sum_map_le_add {f g : α → Int} {u : Int} (hl : (l.map key).Nodup) (hu : 0 ≤ u)
    (h : ∀ x ∈ l, g x ≤ f x + if key x = k then u else 0) : (l.map g).sum ≤ (l.map f).sum + u := by
  have hat : (l.map fun x => if key x = k then u else 0).sum ≤ u := by
    by_cases hk : k ∈ l.map key
    · obtain ⟨x, hx, rfl⟩ := List.mem_map.mp hk
      exact le_of_eq (sum_map_at key (fun _ => u) hl hx)
    · rw [sum_map_at_of_notMem (fun _ => u) hk]
      exact hu
  have hadd : (l.map fun x => f x + if key x = k then u else 0).sum =
      (l.map f).sum + (l.map fun x => if key x = k then u else 0).sum := List.sum_map_add
  have hle := List.sum_le_sum h
  omega

/-! ## Indices -/

section Indices
variable {β : Type} [DecidableEq α]

theorem map_zipIdx_of_nodup (hl : l.Nodup) (f : α → Nat → β) :
    l.zipIdx.map (fun e => f e.1 e.2) = l.map fun x => f x (l.idxOf x) := by
  have hfst (g : α → β) : l.map g = l.zipIdx.map fun e => g e.1 := by
    conv_lhs => rw [← List.zipIdx_map_fst 0 l]
    rw [List.map_map]
    rfl
  rw [hfst]
  refine List.map_congr_left fun e he => ?_
  have hget : l[e.2]? = some e.1 := List.mem_zipIdx_iff_getElem?.mp he
  obtain ⟨hlt, heq⟩ := List.getElem?_eq_some_iff.mp hget
  rw [← heq, hl.idxOf_getElem]

theorem sum_map_idxOf (hl : l.Nodup) (f : Nat → Int) :
    (l.map fun x => f (l.idxOf x)).sum = ∑ i ∈ Finset.range l.length, f i := by
  have hsnd : l.zipIdx.map (fun e => f e.2) = (List.range l.length).map f := by
    rw [List.range_eq_range', ← List.zipIdx_map_snd, List.map_map]
    rfl
  rw [← map_zipIdx_of_nodup hl fun _ i => f i, hsnd]
  rfl

end Indices
end Base
