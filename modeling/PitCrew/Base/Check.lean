import Mathlib.Data.List.Basic
import Mathlib.Data.List.Forall2
import Mathlib.Tactic

/-! # Checks that stop at the first fault -/

namespace Base

section
variable {ε α β : Type}

/-- Fails with `e` when `bad` holds. -/
def reject (bad : Prop) [Decidable bad] (e : ε) : Except ε Unit := if bad then .error e else .ok ()

@[simp] theorem reject_eq_ok {bad : Prop} [Decidable bad] {e : ε} {u : Unit} : reject bad e = .ok u ↔ ¬bad := by
  by_cases h : bad <;> simp [reject, h]

theorem bind_eq_ok {x : Except ε α} {f : α → Except ε β} {r : β} :
    (x >>= f) = .ok r ↔ ∃ a, x = .ok a ∧ f a = .ok r := by
  cases x with
  | error e => simp [bind, Except.bind]
  | ok a => simp [bind, Except.bind]

def checkAll (check : α → Except ε Unit) : List α → Except ε Unit
  | [] => .ok ()
  | x :: xs => do
    check x
    checkAll check xs

theorem checkAll_eq_ok {check : α → Except ε Unit} {l : List α} {u : Unit} :
    checkAll check l = .ok u ↔ ∀ x ∈ l, check x = .ok () := by
  induction l with
  | nil => simp [checkAll]
  | cons x xs ih =>
    rw [checkAll, bind_eq_ok, List.forall_mem_cons]
    constructor
    · rintro ⟨⟨⟩, hx, h⟩
      exact ⟨hx, ih.mp h⟩
    · rintro ⟨hx, h⟩
      exact ⟨(), hx, ih.mpr h⟩

theorem mapM_eq_some {f : α → Option β} {l : List α} {r : List β} : l.mapM f = some r ↔ l.map f = r.map some := by
  induction l generalizing r with
  | nil => cases r <;> simp
  | cons a l ih =>
    rw [List.mapM_cons, List.map_cons]
    constructor
    · intro h
      obtain ⟨b, hb, h⟩ := Option.bind_eq_some_iff.mp h
      obtain ⟨bs, hbs, h⟩ := Option.bind_eq_some_iff.mp h
      obtain rfl := Option.some.inj h
      rw [List.map_cons, hb, ih.mp hbs]
    · intro h
      cases r with
      | nil => cases h
      | cons b bs =>
        obtain ⟨hb, hbs⟩ := List.cons.inj h
        rw [hb, ih.mpr hbs]
        rfl

theorem mapM_eq_ok {f : α → Except ε β} {l : List α} {r : List β} :
    l.mapM f = .ok r ↔ List.Forall₂ (fun a b => f a = .ok b) l r := by
  induction l generalizing r with
  | nil =>
    rw [List.mapM_nil, List.forall₂_nil_left_iff]
    exact ⟨fun h => (Except.ok.inj h).symm, fun h => h ▸ rfl⟩
  | cons a l ih =>
    rw [List.mapM_cons]
    constructor
    · intro h
      obtain ⟨b, hb, h⟩ := bind_eq_ok.mp h
      obtain ⟨bs, hbs, h⟩ := bind_eq_ok.mp h
      exact Except.ok.inj h ▸ .cons hb (ih.mp hbs)
    · rintro (_ | ⟨hb, hbs⟩)
      exact bind_eq_ok.mpr ⟨_, hb, bind_eq_ok.mpr ⟨_, ih.mpr hbs, rfl⟩⟩

theorem exists_of_forall₂ {R : α → β → Prop} {l : List α} {r : List β} (h : List.Forall₂ R l r) {b : β} (hb : b ∈ r) :
    ∃ a ∈ l, R a b := by
  induction h with
  | nil => exact absurd hb List.not_mem_nil
  | @cons a b' l r hab _ ih =>
    rcases List.mem_cons.mp hb with rfl | hb
    · exact ⟨a, List.mem_cons_self, hab⟩
    · obtain ⟨a', ha', h⟩ := ih hb
      exact ⟨a', List.mem_cons_of_mem a ha', h⟩

theorem forall_mem_iff_of_forall₂ {R : α → β → Prop} {P : α → Prop} {Q : β → Prop} {l : List α} {r : List β}
    (h : List.Forall₂ R l r) (hiff : ∀ a b, R a b → (P a ↔ Q b)) : (∀ a ∈ l, P a) ↔ ∀ b ∈ r, Q b := by
  induction h with
  | nil => simp only [List.not_mem_nil, false_imp_iff, implies_true]
  | @cons a b l r hab _ ih => rw [List.forall_mem_cons, List.forall_mem_cons, ih, hiff a b hab]

end
end Base
