import Mathlib.Data.List.Basic
import Mathlib.Logic.Basic
import Mathlib.Tactic

/-! # Programs that act on a shared world

A program takes atomic steps on a world that it shares with others. What a step does depends on the
world and on a choice that the outside makes: whether a call fails, and what it answers. Between two
steps others may act, and a program may never get to its next step. `Safe` says of a program what it
keeps at every step, whatever the others do within a relation that is given, and what holds when it
ends; `Noted` says the same of an account that the program alone keeps, whatever the others do. -/

namespace Base

/-- How a call ends: with success, with a failure that changed nothing, or with a failure after it took
    effect. -/
inductive Outcome where
  | done
  | failed
  | unsure
  deriving DecidableEq, Repr

/-- A program: it has ended, or it takes a step and goes on with what the step has seen. -/
inductive Prog (σ χ α : Type) where
  | done (a : α)
  | step (act : σ → χ → σ) (next : σ → χ → Prog σ χ α)

namespace Prog
variable {σ χ α β : Type}

def bind : Prog σ χ α → (α → Prog σ χ β) → Prog σ χ β
  | .done a, k => k a
  | .step act next, k => .step act fun s c => (next s c).bind k

instance : Monad (Prog σ χ) where
  pure := .done
  bind := bind

def atomic (f : σ → χ → α × σ) : Prog σ χ α := .step (fun s c => (f s c).2) fun s c => .done (f s c).1

/-- One step that the outside has no part in. -/
def locally (f : σ → α × σ) : Prog σ χ α := atomic fun s _ => f s

def gets (f : σ → α) : Prog σ χ α := locally fun s => (f s, s)

def modify (f : σ → σ) : Prog σ χ Unit := locally fun s => ((), f s)

/-- A program that takes a step `act` and then is `next`, beside another one. -/
def parStep (left : χ → Bool) (act : σ → χ → σ) (next : σ → χ → Prog σ χ β → Prog σ χ (α × β)) :
    Prog σ χ β → Prog σ χ (α × β)
  | .done b => .step act fun s c => next s c (.done b)
  | .step act' next' =>
    .step (fun s c => if left c then act s c else act' s c) fun s c =>
      if left c then next s c (.step act' next') else parStep left act next (next' s c)

/-- Two programs side by side until both have ended; `left` says of a choice whose step it is for. -/
def par (left : χ → Bool) : Prog σ χ α → Prog σ χ β → Prog σ χ (α × β)
  | .done a, q => q.bind fun b => .done (a, b)
  | .step act next, q => parStep left act (fun s c q => par left (next s c) q) q

/-- Programs side by side until all have ended; `branch` says of a choice which of them it is for, counted
    from `i` on. -/
def parAll (branch : χ → Nat) : Nat → List (Prog σ χ α) → Prog σ χ (List α)
  | _, [] => .done []
  | i, p :: ps => (par (fun c => branch c = i) p (parAll branch (i + 1) ps)).bind fun r => .done (r.1 :: r.2)

def ended : Prog σ χ α → Bool
  | .done _ => true
  | .step _ _ => false

/-- The next step, if there is one, and what is left of the program after it. -/
def advance (p : Prog σ χ α) (s : σ) (c : χ) : σ × Prog σ χ α :=
  match p with
  | .done a => (s, .done a)
  | .step act next => (act s c, next s c)

/-! ## Safety -/

/-- What a program may count on and what it has to keep: `inv` holds at every step, the others move the
    world along `rely`, the program itself along `guar`, and the choices of the outside are as in `may`. -/
structure Rules (σ χ : Type) where
  inv : σ → Prop
  rely : σ → σ → Prop
  guar : σ → σ → Prop
  may : σ → χ → Prop
  refl : ∀ s, rely s s
  trans : ∀ {s t u}, rely s t → rely t u → rely s u

variable {r : Rules σ χ} {Q Q' : α → σ → Prop} {s t : σ}

/-- From `s` on, every step keeps the rules, and `Q` holds when the program has ended. -/
def Safe (r : Rules σ χ) (Q : α → σ → Prop) : Prog σ χ α → σ → Prop
  | .done a, s => ∀ t, r.rely s t → r.inv t → Q a t
  | .step act next, s => ∀ t, r.rely s t → r.inv t → ∀ c, r.may t c →
      r.inv (act t c) ∧ r.guar t (act t c) ∧ (next t c).Safe r Q (act t c)

namespace Safe

theorem moved {p : Prog σ χ α} (h : p.Safe r Q s) (hst : r.rely s t) : p.Safe r Q t := by
  cases p with
  | done a => exact fun u htu => h u (r.trans hst htu)
  | step act next => exact fun u htu => h u (r.trans hst htu)

theorem of_moved {p : Prog σ χ α} (h : ∀ t, r.rely s t → r.inv t → p.Safe r Q t) : p.Safe r Q s := by
  cases p with
  | done a => exact fun t hst ht => h t hst ht t (r.refl t) ht
  | step act next => exact fun t hst ht => h t hst ht t (r.refl t) ht

theorem mono {p : Prog σ χ α} (h : p.Safe r Q s) (hQ : ∀ a t, Q a t → Q' a t) : p.Safe r Q' s := by
  induction p generalizing s with
  | done a => exact fun t hst ht => hQ a t (h t hst ht)
  | step act next ih =>
    intro t hst ht c hc
    obtain ⟨hinv, hguar, hnext⟩ := h t hst ht c hc
    exact ⟨hinv, hguar, ih t c hnext⟩

theorem bind {Q : β → σ → Prop} {p : Prog σ χ α} {k : α → Prog σ χ β} (h : p.Safe r (fun a => (k a).Safe r Q) s) :
    (p >>= k).Safe r Q s := by
  induction p generalizing s with
  | done a => exact of_moved h
  | step act next ih =>
    intro t hst ht c hc
    obtain ⟨hinv, hguar, hnext⟩ := h t hst ht c hc
    exact ⟨hinv, hguar, ih t c hnext⟩

theorem pure {a : α} (h : ∀ t, r.rely s t → r.inv t → Q a t) : (Pure.pure a : Prog σ χ α).Safe r Q s := h

theorem atomic {f : σ → χ → α × σ} (h : ∀ t, r.rely s t → r.inv t → ∀ c, r.may t c →
    r.inv (f t c).2 ∧ r.guar t (f t c).2 ∧ ∀ u, r.rely (f t c).2 u → r.inv u → Q (f t c).1 u) :
    (Prog.atomic f).Safe r Q s := h

theorem atomic_bind {Q : β → σ → Prop} {f : σ → χ → α × σ} {k : α → Prog σ χ β}
    (h : ∀ t, r.rely s t → r.inv t → ∀ c, r.may t c →
      r.inv (f t c).2 ∧ r.guar t (f t c).2 ∧ (k (f t c).1).Safe r Q (f t c).2) :
    (Prog.atomic f >>= k).Safe r Q s := h

theorem advance {p : Prog σ χ α} (h : p.Safe r Q s) (hinv : r.inv s) {c : χ} (hc : r.may s c) (hrefl : r.guar s s) :
    r.inv (p.advance s c).1 ∧ r.guar s (p.advance s c).1 ∧ (p.advance s c).2.Safe r Q (p.advance s c).1 := by
  cases p with
  | done a => exact ⟨hinv, hrefl, h⟩
  | step act next => exact h s (r.refl s) hinv c hc

theorem weaken {r' : Rules σ χ} {p : Prog σ χ α} (h : p.Safe r Q s) (hinv : ∀ t, r'.inv t ↔ r.inv t)
    (hrely : ∀ {t u}, r'.rely t u → r.rely t u) (hguar : ∀ {t u}, r.guar t u → r'.guar t u)
    (hmay : ∀ {t c}, r'.may t c → r.may t c) : p.Safe r' Q s := by
  induction p generalizing s with
  | done a => exact fun t hst ht => h t (hrely hst) ((hinv t).mp ht)
  | step act next ih =>
    intro t hst ht c hc
    obtain ⟨hact, hg, hnext⟩ := h t (hrely hst) ((hinv t).mp ht) c (hmay hc)
    exact ⟨(hinv _).mpr hact, hguar hg, ih t c hnext⟩

/-- A program that counts on nothing is safe by other rules, too, if they let its steps happen, and what its
    steps keep and the others do not undo holds when it has ended. -/
theorem under {r' : Rules σ χ} (I : σ → Prop) {p : Prog σ χ α} (h : p.Safe r Q s) (hfree : ∀ t u, r.rely t u)
    (hinv : ∀ {t}, r'.inv t → r.inv t) (hmay : ∀ {t c}, r'.may t c → r.may t c)
    (hstep : ∀ {t u}, r'.inv t → I t → r.inv u → r.guar t u → r'.inv u ∧ r'.guar t u ∧ I u)
    (hrely : ∀ {t u}, r'.rely t u → I t → I u) (hs : I s) : p.Safe r' (fun a t => Q a t ∧ I t) s := by
  induction p generalizing s with
  | done a => exact fun t hst ht => ⟨h t (hfree s t) (hinv ht), hrely hst hs⟩
  | step act next ih =>
    intro t hst ht c hc
    obtain ⟨hact, hguar, hnext⟩ := h t (hfree s t) (hinv ht) c (hmay hc)
    obtain ⟨hact', hguar', hI⟩ := hstep ht (hrely hst hs) hact hguar
    exact ⟨hact', hguar', ih t c hnext hI⟩

theorem par {left : χ → Bool} (hguar : ∀ s t, r.guar s t → r.rely s t) {p : Prog σ χ α} {q : Prog σ χ β}
    {P : α → σ → Prop} {Q : β → σ → Prop} (hp : p.Safe r P s) (hq : q.Safe r Q s) :
    (p.par left q).Safe r (fun ab t => P ab.1 t ∧ Q ab.2 t) s := by
  have hmoved : ∀ {s t u : σ}, r.rely s t → r.guar t u → r.rely s u := fun hst hg => r.trans hst (hguar _ _ hg)
  induction p generalizing s q with
  | done a =>
    induction q generalizing s with
    | done b => exact fun t hst ht => ⟨hp t hst ht, hq t hst ht⟩
    | step act' next' ihq =>
      intro t hst ht c hc
      obtain ⟨hinv, hg, hnext⟩ := hq t hst ht c hc
      exact ⟨hinv, hg, ihq t c (moved hp (hmoved hst hg)) hnext⟩
  | step act next ih =>
    induction q generalizing s with
    | done b =>
      intro t hst ht c hc
      obtain ⟨hinv, hg, hnext⟩ := hp t hst ht c hc
      exact ⟨hinv, hg, ih t c hnext (moved hq (hmoved hst hg))⟩
    | step act' next' ihq =>
      intro t hst ht c hc
      dsimp only
      split
      · obtain ⟨hinv, hg, hnext⟩ := hp t hst ht c hc
        exact ⟨hinv, hg, ih t c hnext (moved hq (hmoved hst hg))⟩
      · obtain ⟨hinv, hg, hnext⟩ := hq t hst ht c hc
        exact ⟨hinv, hg, ihq t c (moved hp (hmoved hst hg)) hnext⟩

end Safe

/-! ### Facts that stay -/

/-- From every world the program is safe, and what it answers satisfies `Q`: a fact that nothing the
    others do can undo. -/
def Keeps (r : Rules σ χ) (Q : α → Prop) (p : Prog σ χ α) : Prop := ∀ s, p.Safe r (fun a _ => Q a) s

namespace Keeps
variable {p : Prog σ χ α} {P : α → Prop}

theorem bind {R : β → Prop} {k : α → Prog σ χ β} (hp : p.Keeps r P) (hk : ∀ a, P a → (k a).Keeps r R) :
    (p >>= k).Keeps r R :=
  fun s => Safe.bind ((hp s).mono fun a t ha => hk a ha t)

theorem pure {a : α} (h : P a) : (Pure.pure a : Prog σ χ α).Keeps r P := fun _ _ _ _ => h

theorem atomic {f : σ → χ → α × σ}
    (h : ∀ s c, r.inv s → r.may s c → r.inv (f s c).2 ∧ r.guar s (f s c).2 ∧ P (f s c).1) :
    (Prog.atomic f).Keeps r P := by
  intro s t _ ht c hc
  obtain ⟨hinv, hguar, ha⟩ := h t c ht hc
  exact ⟨hinv, hguar, fun _ _ _ => ha⟩

theorem seq {R : β → Prop} {k : α → Prog σ χ β} (hp : p.Keeps r fun _ => True) (hk : ∀ a, (k a).Keeps r R) :
    (p >>= k).Keeps r R :=
  hp.bind fun a _ => hk a

theorem par {left : χ → Bool} (hguar : ∀ s t, r.guar s t → r.rely s t) {q : Prog σ χ β} {R : β → Prop}
    (hp : p.Keeps r P) (hq : q.Keeps r R) : (p.par left q).Keeps r fun ab => P ab.1 ∧ R ab.2 :=
  fun s => Safe.par hguar (hp s) (hq s)

theorem advance (h : p.Keeps r P) (hfree : ∀ s t, r.rely s t) (hinv : r.inv s) {c : χ} (hc : r.may s c)
    (hrefl : r.guar s s) :
    r.inv (p.advance s c).1 ∧ r.guar s (p.advance s c).1 ∧ (p.advance s c).2.Keeps r P := by
  obtain ⟨hnext, hguar, hsafe⟩ := (h s).advance hinv hc hrefl
  exact ⟨hnext, hguar, fun t => hsafe.moved (hfree _ t)⟩

theorem cond {c : Prog σ χ Bool} {q : Prog σ χ α} (hc : c.Keeps r fun _ => True) (hp : p.Keeps r P) (hq : q.Keeps r P) :
    (c >>= fun b => if b = true then p else q).Keeps r P := by
  refine hc.seq fun b => ?_
  cases b with
  | true => exact hp
  | false => exact hq

end Keeps

/-! ### Relations that every step keeps -/

/-- Every step of the program, wherever it is taken, is along `G`. -/
def Along (G : σ → σ → Prop) : Prog σ χ α → Prop
  | .done _ => True
  | .step act next => ∀ s c, G s (act s c) ∧ (next s c).Along G

namespace Along
variable {G : σ → σ → Prop} {p : Prog σ χ α}

theorem pure {a : α} : (Pure.pure a : Prog σ χ α).Along G := trivial

theorem atomic {f : σ → χ → α × σ} (h : ∀ s c, G s (f s c).2) : (Prog.atomic f).Along G := fun s c => ⟨h s c, trivial⟩

theorem bind {k : α → Prog σ χ β} (hp : p.Along G) (hk : ∀ a, (k a).Along G) : (p >>= k).Along G := by
  induction p with
  | done a => exact hk a
  | step act next ih => exact fun s c => ⟨(hp s c).1, ih s c (hp s c).2⟩

theorem cond {c : Prog σ χ Bool} {q : Prog σ χ α} (hc : c.Along G) (hp : p.Along G) (hq : q.Along G) :
    (c >>= fun b => if b = true then p else q).Along G := by
  refine hc.bind fun b => ?_
  cases b with
  | true => exact hp
  | false => exact hq

theorem safe (I : σ → Prop) (h : p.Along G) (hG : ∀ {s t}, r.inv s → I s → G s t → r.inv t ∧ r.guar s t ∧ I t)
    (hrely : ∀ {s t}, r.rely s t → I s → I t) (hs : I s) : p.Safe r (fun _ => I) s := by
  induction p generalizing s with
  | done a => exact fun t hst _ => hrely hst hs
  | step act next ih =>
    intro t hst ht c _
    obtain ⟨hinv, hguar, hI⟩ := hG ht (hrely hst hs) (h t c).1
    exact ⟨hinv, hguar, ih t c (h t c).2 hI⟩

end Along

/-- The rules of a program that nobody disturbs. -/
def Rules.alone (I : σ → Prop) (may : χ → Prop) : Rules σ χ where
  inv := I
  rely s t := s = t
  guar _ _ := True
  may _ := may
  refl _ := rfl
  trans := Eq.trans

/-! ### Notes -/

/-- What a program keeps account of along its own steps: `note` is the account after a step, `may` says
    which steps the outside lets happen, `good` which ones are right. -/
structure Notes (σ γ : Type) where
  note : γ → σ → σ → γ
  may : γ → σ → σ → Prop
  good : γ → σ → σ → Prop

/-- Whatever the others do to the world, every step is right by the account so far, and `Q` holds of the
    account when the program has ended. -/
def Noted {γ : Type} (r : Notes σ γ) (Q : α → γ → Prop) : Prog σ χ α → γ → Prop
  | .done a, g => Q a g
  | .step act next, g => ∀ s c, r.may g s (act s c) →
      r.good g s (act s c) ∧ (next s c).Noted r Q (r.note g s (act s c))

namespace Noted
variable {γ : Type} {r : Notes σ γ} {g : γ} {P : α → γ → Prop}

theorem bind {Q : β → γ → Prop} {p : Prog σ χ α} {k : α → Prog σ χ β} (h : p.Noted r P g)
    (hk : ∀ a g, P a g → (k a).Noted r Q g) : (p >>= k).Noted r Q g := by
  induction p generalizing g with
  | done a => exact hk a g h
  | step act next ih =>
    intro s c hmay
    obtain ⟨hgood, hnext⟩ := h s c hmay
    exact ⟨hgood, ih s c hnext⟩

theorem mono {Q : α → γ → Prop} {p : Prog σ χ α} (h : p.Noted r P g) (hQ : ∀ a g, P a g → Q a g) : p.Noted r Q g := by
  induction p generalizing g with
  | done a => exact hQ a g h
  | step act next ih =>
    intro s c hmay
    obtain ⟨hgood, hnext⟩ := h s c hmay
    exact ⟨hgood, ih s c hnext⟩

theorem atomic {f : σ → χ → α × σ} (h : ∀ s c, r.may g s (f s c).2 →
    r.good g s (f s c).2 ∧ P (f s c).1 (r.note g s (f s c).2)) : (Prog.atomic f).Noted r P g := h

theorem advance {p : Prog σ χ α} (h : p.Noted r P g) {s : σ} {c : χ} (hmay : r.may g s (p.advance s c).1)
    (hdone : r.good g s s ∧ r.note g s s = g) :
    r.good g s (p.advance s c).1 ∧ (p.advance s c).2.Noted r P (r.note g s (p.advance s c).1) := by
  cases p with
  | done a =>
    obtain ⟨hgood, hnote⟩ := hdone
    refine ⟨hgood, ?_⟩
    change P a (r.note g s s)
    rwa [hnote]
  | step act next => exact h s c hmay

end Noted
end Prog
end Base
