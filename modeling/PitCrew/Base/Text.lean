import Mathlib.Data.List.Basic
import Mathlib.Tactic

/-! # Text

Bounded tokens over character classes, and joins by a separator that the first part (or the last)
does not contain: such a join determines its parts. -/

namespace Base

/-- The text is one character of `first` and at most `bound` characters of `rest`: the regular
    expression `^[first][rest]{0,bound}$`. -/
def isToken (first rest : Char → Bool) (bound : Nat) (s : String) : Bool :=
  match s.toList with
  | [] => false
  | c :: cs => first c && cs.all rest && cs.length ≤ bound

theorem notMem_of_isToken {first rest : Char → Bool} {bound : Nat} {s : String} {c : Char}
    (h : isToken first rest bound s = true) (hfirst : first c = false) (hrest : rest c = false) : c ∉ s.toList := by
  unfold isToken at h
  split at h
  · cases h
  · next d ds hs =>
    simp only [Bool.and_eq_true, List.all_eq_true] at h
    rw [hs, List.mem_cons, not_or]
    refine ⟨fun hc => ?_, fun hc => ?_⟩
    · rw [hc, h.1.1] at hfirst
      cases hfirst
    · rw [h.1.2 c hc] at hrest
      cases hrest

theorem ne_empty_of_isToken {first rest : Char → Bool} {bound : Nat} {s : String}
    (h : isToken first rest bound s = true) : s ≠ "" := by
  rintro rfl
  simp [isToken] at h

theorem append_cons_inj {α : Type} {c : α} {a b x y : List α} (ha : c ∉ a) (hb : c ∉ b)
    (h : a ++ c :: x = b ++ c :: y) : a = b ∧ x = y := by
  induction a generalizing b with
  | nil =>
    cases b with
    | nil => simpa using h
    | cons d b =>
      simp only [List.nil_append, List.cons_append, List.cons.injEq] at h
      exact absurd (h.1 ▸ List.mem_cons_self) hb
  | cons d a ih =>
    cases b with
    | nil =>
      simp only [List.nil_append, List.cons_append, List.cons.injEq] at h
      exact absurd (h.1 ▸ List.mem_cons_self) ha
    | cons e b =>
      simp only [List.cons_append, List.cons.injEq] at h
      obtain ⟨hab, hxy⟩ := ih (fun hc => ha (List.mem_cons_of_mem d hc)) (fun hc => hb (List.mem_cons_of_mem e hc)) h.2
      exact ⟨by rw [h.1, hab], hxy⟩

theorem join_inj_left {c : Char} {a b x y : String} (ha : c ∉ a.toList) (hb : c ∉ b.toList)
    (h : a ++ String.singleton c ++ x = b ++ String.singleton c ++ y) : a = b ∧ x = y := by
  have h' : a.toList ++ c :: x.toList = b.toList ++ c :: y.toList := by
    have := congrArg String.toList h
    simpa [String.toList_append] using this
  obtain ⟨hab, hxy⟩ := append_cons_inj ha hb h'
  exact ⟨String.toList_inj.mp hab, String.toList_inj.mp hxy⟩

theorem join_inj_right {c : Char} {a b x y : String} (hx : c ∉ x.toList) (hy : c ∉ y.toList)
    (h : a ++ String.singleton c ++ x = b ++ String.singleton c ++ y) : a = b ∧ x = y := by
  have h' : x.toList.reverse ++ c :: a.toList.reverse = y.toList.reverse ++ c :: b.toList.reverse := by
    have := congrArg (fun s => s.toList.reverse) h
    simpa [String.toList_append] using this
  obtain ⟨hxy, hab⟩ := append_cons_inj (by simpa using hx) (by simpa using hy) h'
  exact ⟨String.toList_inj.mp (List.reverse_inj.mp hab), String.toList_inj.mp (List.reverse_inj.mp hxy)⟩

theorem notMem_toString_int {c : Char} (n : Int) (hdigit : c.isDigit = false) (hminus : c ≠ '-') :
    c ∉ (toString n).toList := by
  have hnat : ∀ m : Nat, c ∉ m.repr.toList := by
    intro m hc
    rw [Nat.toList_repr] at hc
    rw [Nat.isDigit_of_mem_toDigits (by decide) (by decide) hc] at hdigit
    cases hdigit
  cases n with
  | ofNat m => exact hnat m
  | negSucc m =>
    show c ∉ ("-" ++ m.succ.repr).toList
    simp only [String.toList_append, List.mem_append, not_or]
    refine ⟨fun hc => ?_, hnat _⟩
    simp at hc
    exact hminus hc

theorem repr_nat_inj {m n : Nat} (h : m.repr = n.repr) : m = n := by
  have := congrArg (fun s => Nat.ofDigitChars 10 s.toList 0) h
  simpa [Nat.toList_repr] using this

theorem toString_int_inj {m n : Int} (h : toString m = toString n) : m = n := by
  have hsign : ∀ a b : Nat, a.repr ≠ "-" ++ b.repr := by
    intro a b hab
    have hmem : '-' ∈ a.repr.toList := by rw [hab]; simp [String.toList_append]
    rw [Nat.toList_repr] at hmem
    exact absurd (Nat.isDigit_of_mem_toDigits (by decide) (by decide) hmem) (by decide)
  cases m with
  | ofNat a =>
    cases n with
    | ofNat b => rw [repr_nat_inj h]
    | negSucc b => exact absurd h (hsign a _)
  | negSucc a =>
    cases n with
    | ofNat b => exact absurd h.symm (hsign b _)
    | negSucc b =>
      have h' : ("-" ++ a.succ.repr).toList = ("-" ++ b.succ.repr).toList := congrArg String.toList h
      rw [String.toList_append, String.toList_append, List.append_cancel_left_eq, String.toList_inj] at h'
      rw [Nat.succ.inj (repr_nat_inj h')]

end Base
