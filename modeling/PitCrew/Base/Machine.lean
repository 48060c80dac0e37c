import Mathlib.Data.List.Basic
import Mathlib.Tactic

/-! # Runs of a step function

A machine answers each event with a reply and a next state. A run is a list of events; `exec` is the
state it reaches and `transitions` are its steps in order. An invariant, or a relation between the
states before and after, is proved of one step and carried to whole runs here. -/

namespace Base

structure Transition (σ ε ρ : Type) where
  before : σ
  event : ε
  reply : ρ
  after : σ

section Runs
variable {σ ε ρ : Type} (step : σ → ε → σ × ρ)

def exec (s : σ) (events : List ε) : σ := events.foldl (fun s e => (step s e).1) s

def transitions : σ → List ε → List (Transition σ ε ρ)
  | _, [] => []
  | s, e :: events => ⟨s, e, (step s e).2, (step s e).1⟩ :: transitions (step s e).1 events

@[simp] theorem exec_nil (s : σ) : exec step s [] = s := rfl

@[simp] theorem exec_cons (s : σ) (e : ε) (events : List ε) :
    exec step s (e :: events) = exec step (step s e).1 events :=
  rfl

theorem exec_append (s : σ) (xs ys : List ε) : exec step s (xs ++ ys) = exec step (exec step s xs) ys := by
  simp [exec, List.foldl_append]

theorem exec_concat (s : σ) (xs : List ε) (e : ε) : exec step s (xs ++ [e]) = (step (exec step s xs) e).1 := by
  rw [exec_append, exec_cons, exec_nil]

theorem transitions_append (s : σ) (xs ys : List ε) :
    transitions step s (xs ++ ys) = transitions step s xs ++ transitions step (exec step s xs) ys := by
  induction xs generalizing s with
  | nil => rfl
  | cons e xs ih => simp [transitions, ih]

variable {step} {s : σ} {events : List ε}

theorem mem_transitions {t : Transition σ ε ρ} : t ∈ transitions step s events ↔
    ∃ xs ys, events = xs ++ t.event :: ys ∧ t.before = exec step s xs ∧ step t.before t.event = (t.after, t.reply) := by
  induction events generalizing s with
  | nil => simp [transitions]
  | cons e events ih =>
    rw [transitions, List.mem_cons, ih]
    constructor
    · rintro (rfl | ⟨xs, ys, rfl, hb, hs⟩)
      · exact ⟨[], events, rfl, rfl, rfl⟩
      · exact ⟨e :: xs, ys, rfl, hb, hs⟩
    · rintro ⟨xs, ys, hev, hb, hs⟩
      cases xs with
      | nil =>
        left
        obtain ⟨tb, te, tr, ta⟩ := t
        simp only [List.nil_append, List.cons.injEq, exec_nil] at hev hb hs
        obtain ⟨rfl, -⟩ := hev
        subst hb
        rw [hs]
      | cons x xs =>
        right
        simp only [List.cons_append, List.cons.injEq] at hev
        obtain ⟨rfl, rfl⟩ := hev
        exact ⟨xs, ys, rfl, hb, hs⟩

theorem Transition.step_eq {t : Transition σ ε ρ} (h : t ∈ transitions step s events) :
    step t.before t.event = (t.after, t.reply) := by
  obtain ⟨_, _, _, _, hs⟩ := mem_transitions.mp h
  exact hs

theorem Transition.event_mem {t : Transition σ ε ρ} (h : t ∈ transitions step s events) : t.event ∈ events := by
  obtain ⟨xs, ys, rfl, -, -⟩ := mem_transitions.mp h
  exact List.mem_append_right xs List.mem_cons_self

theorem transitions_order {i j : Nat} {t u : Transition σ ε ρ} (ht : (transitions step s events)[i]? = some t)
    (hu : (transitions step s events)[j]? = some u) (hij : i < j) : ∃ ys, u.before = exec step t.after ys := by
  induction events generalizing s i j with
  | nil => simp [transitions] at ht
  | cons e events ih =>
    obtain ⟨j, rfl⟩ : ∃ m, j = m + 1 := ⟨j - 1, by omega⟩
    rw [transitions, List.getElem?_cons_succ] at hu
    cases i with
    | zero =>
      rw [transitions, List.getElem?_cons_zero, Option.some.injEq] at ht
      subst ht
      obtain ⟨xs, _, _, hbefore, _⟩ := mem_transitions.mp (List.mem_of_getElem? hu)
      exact ⟨xs, hbefore⟩
    | succ i =>
      rw [transitions, List.getElem?_cons_succ] at ht
      exact ih ht hu (by omega)

theorem exec_induction {I : σ → Prop} (h₀ : I s) (hstep : ∀ s e, I s → I (step s e).1) (events : List ε) :
    I (exec step s events) := by
  induction events generalizing s with
  | nil => exact h₀
  | cons e events ih => exact ih (hstep s e h₀)

/-- What holds of the steps taken and the state reached, and goes on holding as a step is added, holds of
    every run. -/
theorem history_induction {I : List (Transition σ ε ρ) → σ → Prop} (h₀ : I [] s)
    (hstep : ∀ ts s e, I ts s → I (ts ++ [⟨s, e, (step s e).2, (step s e).1⟩]) (step s e).1) (events : List ε) :
    I (transitions step s events) (exec step s events) := by
  induction events using List.reverseRecOn with
  | nil => exact h₀
  | append_singleton xs e ih =>
    rw [transitions_append, exec_concat]
    exact hstep _ _ e ih

theorem Transition.before_of {I : σ → Prop} (h₀ : I s) (hstep : ∀ s e, I s → I (step s e).1)
    {t : Transition σ ε ρ} (h : t ∈ transitions step s events) : I t.before := by
  obtain ⟨xs, _, _, hb, _⟩ := mem_transitions.mp h
  rw [hb]
  exact exec_induction h₀ hstep xs

theorem exec_induction_of {I : σ → Prop} {P : σ → ε → Prop} (h₀ : I s)
    (hstep : ∀ s e, I s → P s e → I (step s e).1)
    (hP : ∀ t ∈ transitions step s events, P t.before t.event) : I (exec step s events) := by
  induction events generalizing s with
  | nil => exact h₀
  | cons e events ih =>
    refine ih (hstep s e h₀ (hP _ List.mem_cons_self)) fun t ht => hP t (List.mem_cons_of_mem _ ht)

/-- If the steps of a run are as in `P`, and from the invariant such a step leads to it and is as in `Q`, then
    all of them are. -/
theorem transitions_induction_of {I : σ → Prop} {P Q : Transition σ ε ρ → Prop} (h₀ : I s)
    (hstep : ∀ s e, I s → P ⟨s, e, (step s e).2, (step s e).1⟩ → I (step s e).1 ∧ Q ⟨s, e, (step s e).2, (step s e).1⟩)
    (hP : ∀ t ∈ transitions step s events, P t) : ∀ t ∈ transitions step s events, Q t := by
  induction events generalizing s with
  | nil => exact fun t ht => absurd ht List.not_mem_nil
  | cons e events ih =>
    obtain ⟨hI, hQ⟩ := hstep s e h₀ (hP _ List.mem_cons_self)
    intro t ht
    rcases List.mem_cons.mp ht with rfl | ht
    · exact hQ
    · exact ih hI (fun u hu => hP u (List.mem_cons_of_mem _ hu)) t ht

theorem exec_rel {I : σ → Prop} {R : σ → σ → Prop} (refl : ∀ s, R s s)
    (trans : ∀ {a b c}, R a b → R b c → R a c) (h₀ : I s) (hinv : ∀ s e, I s → I (step s e).1)
    (hstep : ∀ s e, I s → R s (step s e).1) (events : List ε) : R s (exec step s events) := by
  induction events generalizing s with
  | nil => exact refl s
  | cons e events ih => exact trans (hstep s e h₀) (ih (hinv s e h₀))

/-- Replies that are numbers above a level that never falls, and that they raise, increase along a run. -/
theorem replies_increasing {α : Type} [Preorder α] {step : σ → ε → σ × Option α} {s : σ} {events : List ε}
    {I : σ → Prop}
    {P : Transition σ ε (Option α) → Prop} (level : σ → α) (h₀ : I s)
    (hstep : ∀ s e, I s → P ⟨s, e, (step s e).2, (step s e).1⟩ → I (step s e).1 ∧ level s ≤ level (step s e).1 ∧
      ∀ n ∈ (step s e).2, level s < n ∧ n ≤ level (step s e).1)
    (hP : ∀ t ∈ transitions step s events, P t) :
    ((transitions step s events).filterMap (·.reply)).Pairwise (· < ·) ∧
      ∀ n ∈ (transitions step s events).filterMap (·.reply), level s < n := by
  induction events generalizing s with
  | nil => exact ⟨.nil, fun _ hn => absurd hn List.not_mem_nil⟩
  | cons e events ih =>
    obtain ⟨hI, hle, hreply⟩ := hstep s e h₀ (hP _ List.mem_cons_self)
    obtain ⟨hsorted, habove⟩ := ih hI fun t ht => hP t (List.mem_cons_of_mem _ ht)
    rw [transitions, List.filterMap_cons]
    cases hr : (step s e).2 with
    | none => exact ⟨hsorted, fun n hn => hle.trans_lt (habove n hn)⟩
    | some m =>
      obtain ⟨hm, hm'⟩ := hreply m hr
      refine ⟨List.pairwise_cons.mpr ⟨fun n hn => hm'.trans_lt (habove n hn), hsorted⟩, fun n hn => ?_⟩
      rcases List.mem_cons.mp hn with rfl | hn
      · exact hm
      · exact hle.trans_lt (habove n hn)

end Runs
end Base
