import Mathlib.Data.List.Basic
import Mathlib.Order.Basic
import Mathlib.Tactic

/-! # Binary search

The loop that finds the first index where a predicate turns true, and its use to find and remove an
element of an increasing list. -/

namespace Base

/-- Halves `[i, j)` until it is empty. The fuel bounds the rounds; `j - i` rounds are enough. -/
def searchLoop (f : Nat → Bool) : Nat → Nat → Nat → Nat
  | 0, i, _ => i
  | fuel + 1, i, j =>
    if i < j then
      let h := (i + j) / 2
      if f h then searchLoop f fuel i h else searchLoop f fuel (h + 1) j
    else i

/-- The first index below `n` where `f` holds, or `n`, if `f` never turns back from true to false. -/
def search (n : Nat) (f : Nat → Bool) : Nat := searchLoop f n 0 n

theorem searchLoop_spec {f : Nat → Bool} {n : Nat} (mono : ∀ a b, a ≤ b → b < n → f a = true → f b = true) :
    ∀ {fuel i j : Nat}, i ≤ j → j ≤ n → j - i ≤ fuel → (∀ k < i, f k = false) → (∀ k, j ≤ k → k < n → f k = true) →
      searchLoop f fuel i j ≤ n ∧ (∀ k < searchLoop f fuel i j, f k = false) ∧
        ∀ k, searchLoop f fuel i j ≤ k → k < n → f k = true
  | 0, i, j, hij, hj, hfuel, hlow, hhigh => by
    have : i = j := by omega
    subst this
    exact ⟨hj, hlow, hhigh⟩
  | fuel + 1, i, j, hij, hj, hfuel, hlow, hhigh => by
    unfold searchLoop
    by_cases hlt : i < j
    · simp only [hlt, if_true]
      cases hf : f ((i + j) / 2) with
      | true =>
        simp only [if_true]
        refine searchLoop_spec mono (by omega) (by omega) (by omega) hlow fun k hk hn => ?_
        exact mono _ k hk hn hf
      | false =>
        simp only [Bool.false_eq_true, if_false]
        refine searchLoop_spec mono (by omega) hj (by omega) (fun k hk => ?_) hhigh
        by_contra hne
        have hk' : f k = true := by simpa using hne
        rw [mono k ((i + j) / 2) (by omega) (by omega) hk'] at hf
        cases hf
    · simp only [hlt, if_false]
      have : i = j := by omega
      subst this
      exact ⟨hj, hlow, hhigh⟩

theorem search_spec {f : Nat → Bool} {n : Nat} (mono : ∀ a b, a ≤ b → b < n → f a = true → f b = true) :
    search n f ≤ n ∧ (∀ k < search n f, f k = false) ∧ ∀ k, search n f ≤ k → k < n → f k = true :=
  searchLoop_spec mono (by omega) le_rfl (by omega) (by omega) (by omega)

section Lists
variable {α : Type} [LinearOrder α]

/-- The index at which `x` stands, or would be inserted, in an increasing list. -/
def searchList (l : List α) (x : α) : Nat := search l.length fun i => (l[i]?).any (x ≤ ·)

/-- The list without the element that the search finds at `x`, and whether it found one. -/
def removeFound (l : List α) (x : α) : List α × Bool :=
  if l[searchList l x]? = some x then (l.eraseIdx (searchList l x), true) else (l, false)

theorem searchList_spec {l : List α} (hl : l.Pairwise (· < ·)) (x : α) :
    (∀ k < searchList l x, ∀ a, l[k]? = some a → a < x) ∧
      ∀ k, searchList l x ≤ k → ∀ a, l[k]? = some a → x ≤ a := by
  have mono : ∀ a b, a ≤ b → b < l.length → (l[a]?).any (x ≤ ·) = true → (l[b]?).any (x ≤ ·) = true := by
    intro a b hab hb h
    have ha : a < l.length := by omega
    rw [List.getElem?_eq_getElem ha] at h
    rw [List.getElem?_eq_getElem hb]
    simp only [Option.any_some, decide_eq_true_eq] at h ⊢
    rcases Nat.lt_or_eq_of_le hab with hlt | rfl
    · exact h.trans (List.pairwise_iff_getElem.mp hl a b ha hb hlt).le
    · exact h
  obtain ⟨-, hlow, hhigh⟩ := search_spec mono
  refine ⟨fun k hk a ha => ?_, fun k hk a ha => ?_⟩
  · have := hlow k hk
    rw [ha] at this
    simpa using this
  · have := hhigh k hk (List.getElem?_eq_some_iff.mp ha).1
    rw [ha] at this
    simpa using this

theorem getElem?_searchList {l : List α} (hl : l.Pairwise (· < ·)) {x : α} : l[searchList l x]? = some x ↔ x ∈ l := by
  constructor
  · exact List.mem_of_getElem?
  · intro hx
    obtain ⟨k, hk, rfl⟩ := List.mem_iff_getElem.mp hx
    obtain ⟨hlow, hhigh⟩ := searchList_spec hl l[k]
    have h₁ : searchList l l[k] ≤ k := by
      by_contra hlt
      exact lt_irrefl _ (hlow k (by omega) l[k] (List.getElem?_eq_getElem hk))
    have h₂ : k ≤ searchList l l[k] := by
      by_contra hlt
      have hs : searchList l l[k] < l.length := by omega
      have hle := hhigh _ le_rfl _ (List.getElem?_eq_getElem hs)
      exact absurd (List.pairwise_iff_getElem.mp hl _ k hs hk (by omega)) (not_lt.mpr hle)
    rw [show searchList l l[k] = k by omega, List.getElem?_eq_getElem hk]

theorem removeFound_cases {l : List α} (hl : l.Nodup) (x : α) :
    removeFound l x = (l.erase x, true) ∧ x ∈ l ∨ removeFound l x = (l, false) ∧ l[searchList l x]? ≠ some x := by
  unfold removeFound
  by_cases hfound : l[searchList l x]? = some x
  · rw [if_pos hfound]
    obtain ⟨hlt, hget⟩ := List.getElem?_eq_some_iff.mp hfound
    have hidx : l.idxOf x = searchList l x := by
      conv_lhs => rw [← hget]
      exact hl.idxOf_getElem _ hlt
    rw [List.erase_eq_eraseIdx_of_idxOf hidx]
    exact Or.inl ⟨rfl, List.mem_of_getElem? hfound⟩
  · rw [if_neg hfound]
    exact Or.inr ⟨rfl, hfound⟩

theorem removeFound_eq {l : List α} (hl : l.Pairwise (· < ·)) (x : α) :
    removeFound l x = (l.erase x, decide (x ∈ l)) := by
  rcases removeFound_cases (hl.imp ne_of_lt) x with ⟨h, hx⟩ | ⟨h, hmiss⟩
  · rw [h, decide_eq_true hx]
  · have hx : x ∉ l := fun hx => hmiss ((getElem?_searchList hl).mpr hx)
    rw [h, List.erase_of_not_mem hx, decide_eq_false hx]

theorem removeFound_inverted {x y : α} (h : y < x) : removeFound [x, y] y = ([x, y], false) := by
  have hindex : searchList [x, y] y = 0 := by
    simp [searchList, search, searchLoop, h.le]
  rw [removeFound, hindex]
  simp [ne_of_gt h]

end Lists
end Base
