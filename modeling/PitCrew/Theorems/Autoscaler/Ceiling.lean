import PitCrew.Theorems.Autoscaler.Reserve

/-! # The ceiling over whole runs

Every granted unit is in flight until it is settled, also while its worker is already counted as live,
so the workers and the units still to become workers stay below the ceiling together. -/

namespace PitCrew.Autoscaler
open Base

namespace AdmissionController
variable {a : AdmissionController} {key k : String} {f : AdmissionMember → AdmissionMember}

theorem inFlight_of_notMem (h : k ∉ a.members) : a.inFlight k = 0 := by
  rw [inFlight, member_of_notMem h]

theorem mem_of_inFlight (h : 0 < a.inFlight k) : k ∈ a.members := by
  by_contra hk
  rw [inFlight_of_notMem hk] at h
  exact lt_irrefl 0 h

theorem held_eq (hlive : 0 ≤ a.live k) : a.held k = a.live k + a.inFlight k := by
  rw [held, AdmissionMember.heldCount, inFlight]
  unfold live at hlive ⊢
  omega

/-- A write to a member that changes its readings by `l` and `g`. -/
theorem update_effect (h : key ∈ a.members) {l g : Int} (hl : (f (a.member key)).live = a.live key + l)
    (hg : (f (a.member key)).inFlight = a.inFlight key + g) :
    (∀ k, (a.update key f).live k = a.live k + if k = key then l else 0) ∧
      ∀ k, (a.update key f).inFlight k = a.inFlight k + if k = key then g else 0 := by
  refine ⟨fun k => ?_, fun k => ?_⟩
  · by_cases hk : k = key
    · rw [live, member_update, if_pos ⟨hk, h⟩, if_pos hk, hl, hk]
    · rw [live, member_update, if_neg fun h' => hk h'.1, if_neg hk, add_zero, live]
  · by_cases hk : k = key
    · rw [inFlight, member_update, if_pos ⟨hk, h⟩, if_pos hk, hg, hk]
    · rw [inFlight, member_update, if_neg fun h' => hk h'.1, if_neg hk, add_zero, inFlight]

/-- A reservation by a member changes what is in flight for it by the grant, and no reading of workers. -/
theorem reserve_effect (hc : 0 < a.ceiling) (h : key ∈ a.members) (want : Int) :
    (∀ k, (a.reserve key want).1.live k = a.live k) ∧
      ∀ k, (a.reserve key want).1.inFlight k = a.inFlight k + if k = key then a.grant key want else 0 := by
  rcases reserve_cases hc h want with ⟨-, hg, he⟩ | ⟨-, -, hg, he⟩ | ⟨-, -, he⟩
  · rw [he, hg]
    exact ⟨fun _ => rfl, fun k => by rw [ite_self, add_zero]⟩
  · obtain ⟨hl, hf⟩ := update_effect (f := fun m => { m with demand := want }) h (add_zero _).symm (add_zero _).symm
    rw [he, hg]
    exact ⟨fun k => by rw [hl k, ite_self, add_zero], hf⟩
  · obtain ⟨hl, hf⟩ := update_effect h (add_zero _).symm rfl
      (f := fun m => { m with inFlight := m.inFlight + a.grant key want, demand := want - a.grant key want })
    rw [he]
    exact ⟨fun k => (hl k).trans (by rw [ite_self, add_zero]), hf⟩

theorem reserve_ceiling (a : AdmissionController) (key : String) (want : Int) :
    (a.reserve key want).1.ceiling = a.ceiling := by
  unfold reserve
  split
  · rfl
  · split
    · rfl
    · dsimp only
      split
      · exact ceiling_update ..
      · split <;> exact ceiling_update ..

theorem reserve_keys (a : AdmissionController) (key : String) (want : Int) :
    (a.reserve key want).1.members.keys = a.members.keys := by
  unfold reserve
  split
  · rfl
  · split
    · rfl
    · dsimp only
      split
      · exact keys_update ..
      · split <;> exact keys_update ..

theorem reserve_of_notMem (h : key ∉ a.members) (want : Int) : (a.reserve key want).1 = a := by
  unfold reserve
  rw [Finmap.lookup_eq_none.mpr h]
  split <;> rfl

def InRange (a : AdmissionController) : Prop := 0 ≤ a.rotation ∧ a.rotation ≤ a.members.keys.card

theorem inRange_reserve (hr : a.InRange) (hc : 0 < a.ceiling) (want : Int) : (a.reserve key want).1.InRange := by
  unfold InRange at hr ⊢
  rw [reserve_keys]
  by_cases h : key ∈ a.members
  · have hpos : (0 : Int) < a.members.keys.card := by exact_mod_cast card_pos h
    rcases reserve_cases hc h want with ⟨-, -, he⟩ | ⟨-, -, -, he⟩ | ⟨-, -, he⟩
    · rw [he]
      exact hr
    · rw [he, rotation_update]
      exact hr
    · rw [he]
      dsimp only
      split
      · have h₁ := Int.tmod_nonneg (a := a.rotation + 1) (a.members.keys.card : Int) (by omega)
        have h₂ := Int.tmod_lt_of_pos (a.rotation + 1) hpos
        omega
      · exact hr
  · rw [reserve_of_notMem h]
    exact hr

theorem keys_join (a : AdmissionController) (key : String) (live : Int) :
    (a.join key live).members.keys = if key = "" then a.members.keys else insert key a.members.keys := by
  ext k
  rw [Finmap.mem_keys, mem_join]
  split <;> simp_all [Finmap.mem_keys]

theorem inRange_join (hr : a.InRange) (live : Int) : (a.join key live).InRange := by
  have hle : a.members.keys.card ≤ (a.join key live).members.keys.card := by
    rw [keys_join]
    split
    · exact le_rfl
    · exact Finset.card_le_card (Finset.subset_insert _ _)
  unfold InRange at hr ⊢
  rw [rotation_join]
  omega

theorem inRange_leave (hr : a.InRange) : (a.leave key).InRange := by
  unfold InRange at hr ⊢
  rw [keys_leave]
  have hkeys : (a.members.erase key).keys = a.members.keys.erase key := keys_leave a key
  simp only [leave, hkeys]
  split <;> omega

theorem inRange_update (hr : a.InRange) : (a.update key f).InRange := by
  unfold InRange at hr ⊢
  rw [rotation_update, keys_update]
  exact hr

theorem live_join (a : AdmissionController) (key k : String) (live : Int) :
    (a.join key live).live k = if k = key ∧ key ≠ "" then live else a.live k := by
  rw [AdmissionController.live, member_join]
  split <;> rfl

theorem inFlight_join (a : AdmissionController) (key k : String) (live : Int) :
    (a.join key live).inFlight k = a.inFlight k := by
  rw [inFlight, member_join]
  split
  · next h => rw [h.1, inFlight]
  · rfl

theorem live_leave (a : AdmissionController) (key k : String) :
    (a.leave key).live k = if k = key then 0 else a.live k := by
  rw [live, member_leave]
  split <;> rfl

theorem inFlight_leave (a : AdmissionController) (key k : String) :
    (a.leave key).inFlight k = if k = key then 0 else a.inFlight k := by
  rw [inFlight, member_leave]
  split <;> rfl

theorem settle_effect {count : Nat} (h : (count : Int) ≤ a.inFlight key) :
    (∀ k, (a.settle key count).live k = a.live k) ∧
      ∀ k, (a.settle key count).inFlight k = a.inFlight k - if k = key then (count : Int) else 0 := by
  unfold settle
  by_cases hcount : (count : Int) ≤ 0
  · rw [if_pos hcount]
    refine ⟨fun _ => rfl, fun k => ?_⟩
    have : (count : Int) = 0 := by omega
    rw [this, ite_self, sub_zero]
  · rw [if_neg hcount]
    have hmax : max (a.inFlight key - count) 0 = a.inFlight key + -count := by omega
    obtain ⟨hl, hg⟩ := update_effect (mem_of_inFlight (by omega)) (add_zero _).symm hmax
      (f := fun m => { m with inFlight := max (m.inFlight - count) 0 })
    refine ⟨fun k => by rw [hl, ite_self, add_zero], fun k => ?_⟩
    rw [hg]
    split <;> omega

end AdmissionController

namespace Profile
open AdmissionController
variable {p : Profile} {ceiling bound : Int} {e : ProfileEvent}

/-! ## Every run -/

structure Sound (ceiling : Int) (p : Profile) : Prop where
  ceiling_eq : p.controller.ceiling = ceiling
  inRange : p.controller.InRange
  inFlight_nonneg : ∀ k, 0 ≤ p.controller.inFlight k

theorem inFlight_update_nonneg {a : AdmissionController} {key : String} {f : AdmissionMember → AdmissionMember}
    (ha : ∀ k, 0 ≤ a.inFlight k) (hf : 0 ≤ (f (a.member key)).inFlight) (k : String) :
    0 ≤ (a.update key f).inFlight k := by
  rw [inFlight, member_update]
  split
  · exact hf
  · exact ha k

theorem Sound.update {key : String} {f : AdmissionMember → AdmissionMember} (h : p.Sound ceiling)
    (hf : 0 ≤ (f (p.controller.member key)).inFlight) (pending risen : String → Nat) :
    Sound ceiling ⟨p.controller.update key f, pending, risen⟩ :=
  ⟨(ceiling_update ..).trans h.ceiling_eq, inRange_update h.inRange, inFlight_update_nonneg h.inFlight_nonneg hf⟩

theorem Sound.settle (h : p.Sound ceiling) (key : String) (count : Int) (pending risen : String → Nat) :
    Sound ceiling ⟨p.controller.settle key count, pending, risen⟩ := by
  unfold AdmissionController.settle
  split
  · exact ⟨h.ceiling_eq, h.inRange, h.inFlight_nonneg⟩
  · exact h.update (le_max_right _ _) pending risen

theorem Sound.reserve (h : p.Sound ceiling) (hc : 0 < ceiling) (key : String) (want : Int)
    (pending risen : String → Nat) :
    Sound ceiling ⟨(p.controller.reserve key want).1, pending, risen⟩ := by
  have hc' : 0 < p.controller.ceiling := by rw [h.ceiling_eq]; exact hc
  refine ⟨(reserve_ceiling ..).trans h.ceiling_eq, inRange_reserve h.inRange hc' want, fun k => ?_⟩
  by_cases hkey : key ∈ p.controller.members
  · have hgrant : 0 ≤ p.controller.grant key want := le_max_left _ _
    have := h.inFlight_nonneg k
    rw [(reserve_effect hc' hkey want).2 k]
    split <;> omega
  · rw [reserve_of_notMem hkey]
    exact h.inFlight_nonneg k

theorem Sound.step (hc : 0 < ceiling) (h : p.Sound ceiling) (e : ProfileEvent) : (p.step e).1.Sound ceiling := by
  cases e with
  | join key =>
    exact ⟨(ceiling_join ..).trans h.ceiling_eq, inRange_join h.inRange 0, fun k => by
      rw [Profile.step, inFlight_join]
      exact h.inFlight_nonneg k⟩
  | leave key =>
    refine ⟨h.ceiling_eq, inRange_leave h.inRange, fun k => ?_⟩
    rw [Profile.step, inFlight_leave]
    split
    · exact le_rfl
    · exact h.inFlight_nonneg k
  | setDemand key demand => exact h.update (h.inFlight_nonneg key) p.pending p.risen
  | reserve key want => exact h.reserve hc key want _ p.risen
  | rise key => exact h.update (h.inFlight_nonneg key) _ _
  | settle key => exact h.settle key 1 p.pending _
  | abandon key count => exact h.settle key count _ p.risen
  | exit key => exact h.update (h.inFlight_nonneg key) p.pending p.risen

theorem start_induction {I : AdmissionController → Prop} (hc : 0 < ceiling) (first : List (String × Nat))
    (h₀ : I { ceiling := ceiling }) (hjoin : ∀ a key (n : Nat), I a → I (a.join key n)) :
    I (start ceiling first).controller := by
  have hnew : newAdmissionController ceiling = { ceiling := ceiling } := by
    rw [newAdmissionController, if_neg (by omega)]
  have hfold :
      ∀ (l : List (String × Nat)) (a : AdmissionController), I a → I (l.foldl (fun a e => a.join e.1 e.2) a) := by
    intro l
    induction l with
    | nil => intro a ha; exact ha
    | cons e l ih => intro a ha; exact ih _ (hjoin a e.1 e.2 ha)
  exact hfold first _ (hnew ▸ h₀)

theorem sound_start (hc : 0 < ceiling) (first : List (String × Nat)) : (start ceiling first).Sound ceiling := by
  have h := start_induction hc first
    (I := fun a => a.ceiling = ceiling ∧ a.InRange ∧ ∀ k, 0 ≤ a.inFlight k)
    ⟨rfl, ⟨le_rfl, Int.natCast_nonneg _⟩, fun _ => le_rfl⟩ fun a key n ha =>
      ⟨(ceiling_join ..).trans ha.1, inRange_join ha.2.1 _, fun k => by
        rw [inFlight_join]
        exact ha.2.2 k⟩
  exact ⟨h.1, h.2.1, h.2.2⟩

theorem sound_run (hc : 0 < ceiling) (first : List (String × Nat)) (events : List ProfileEvent) :
    ((start ceiling first).run events).Sound ceiling :=
  exec_induction (sound_start hc first) (fun _ e h => h.step hc e) events

/-! ## Runs that keep to the protocol -/

/-- The workers of the members and the units that may still become workers. -/
def committed (p : Profile) : Int := ∑ k ∈ p.controller.members.keys, (p.controller.live k + p.pending k)

/-- In a run that keeps to the protocol just the unresolved units are in flight, and the committed
    ones are within the bound. -/
structure Accounted (bound : Int) (p : Profile) : Prop where
  live_nonneg : ∀ k, 0 ≤ p.controller.live k
  inFlight_eq : ∀ k, p.controller.inFlight k = p.unresolved k
  within : p.committed ≤ bound

namespace Accounted

theorem mem_of_pending (h : p.Accounted bound) {k : String} (hk : 0 < p.pending k) : k ∈ p.controller.members := by
  refine mem_of_inFlight ?_
  rw [h.inFlight_eq, unresolved]
  omega

theorem pending_of_notMem (h : p.Accounted bound) {k : String} (hk : k ∉ p.controller.members) : p.pending k = 0 := by
  by_contra hne
  exact hk (h.mem_of_pending (by omega))

theorem join (h : p.Accounted bound) (key : String) : (p.step (.join key)).1.Accounted bound := by
  refine ⟨fun k => ?_, fun k => ?_, le_trans ?_ h.within⟩
  · rw [step, live_join]
    split
    · exact le_rfl
    · exact h.live_nonneg k
  · rw [step, inFlight_join]
    exact h.inFlight_eq k
  · have hle (k : String) : (p.controller.join key 0).live k + p.pending k ≤ p.controller.live k + p.pending k := by
      have := h.live_nonneg k
      rw [live_join]
      split <;> omega
    unfold committed
    rw [step, keys_join]
    dsimp only
    split
    · exact Finset.sum_le_sum fun k _ => hle k
    · next hkey =>
      by_cases hmem : key ∈ p.controller.members.keys
      · rw [Finset.insert_eq_of_mem hmem]
        exact Finset.sum_le_sum fun k _ => hle k
      · rw [Finset.sum_insert hmem, live_join, if_pos ⟨rfl, hkey⟩,
          h.pending_of_notMem fun hk => hmem (Finmap.mem_keys.mpr hk), Nat.cast_zero, add_zero, zero_add]
        exact Finset.sum_le_sum fun k _ => hle k

theorem leave (h : p.Accounted bound) {key : String} (allowed : p.Allowed (.leave key)) :
    (p.step (.leave key)).1.Accounted bound := by
  obtain ⟨-, hflight⟩ := allowed
  refine ⟨fun k => ?_, fun k => ?_, le_trans ?_ h.within⟩
  · rw [step, live_leave]
    split
    · exact le_rfl
    · exact h.live_nonneg k
  · rw [step, inFlight_leave]
    split
    · next hk =>
      rw [hk, ← hflight]
      exact h.inFlight_eq key
    · exact h.inFlight_eq k
  · unfold committed
    rw [step, keys_leave]
    calc ∑ k ∈ p.controller.members.keys.erase key, ((p.controller.leave key).live k + p.pending k)
        = ∑ k ∈ p.controller.members.keys.erase key, (p.controller.live k + p.pending k) :=
          Finset.sum_congr rfl fun k hk => by rw [live_leave, if_neg (Finset.ne_of_mem_erase hk)]
      _ ≤ ∑ k ∈ p.controller.members.keys, (p.controller.live k + p.pending k) :=
          Finset.sum_le_sum_of_subset_of_nonneg (Finset.erase_subset _ _) fun k _ _ => by
            have := h.live_nonneg k
            omega

/-- A step that keeps the members, moves units between the counts of one of them, and commits no unit. -/
theorem of_moved (h : p.Accounted bound) {q : Profile} (hkeys : q.controller.members.keys = p.controller.members.keys)
    (hlive : ∀ k, 0 ≤ q.controller.live k) (hflight : ∀ k, q.controller.inFlight k = q.unresolved k)
    (hle : ∀ k, q.controller.live k + q.pending k ≤ p.controller.live k + p.pending k) : q.Accounted bound := by
  refine ⟨hlive, hflight, le_trans ?_ h.within⟩
  unfold committed
  rw [hkeys]
  exact Finset.sum_le_sum fun k _ => hle k

theorem setDemand (h : p.Accounted bound) (key : String) (demand : Int) :
    (p.step (.setDemand key demand)).1.Accounted bound := by
  have hlive (k : String) : (p.controller.setDemand key demand).live k = p.controller.live k := by
    rw [AdmissionController.setDemand, live, member_update]
    split
    · next hk => rw [hk.1, live]
    · rfl
  have hflight (k : String) : (p.controller.setDemand key demand).inFlight k = p.controller.inFlight k := by
    rw [AdmissionController.setDemand, inFlight, member_update]
    split
    · next hk => rw [hk.1, inFlight]
    · rfl
  refine h.of_moved (keys_update ..) (fun k => ?_) (fun k => (hflight k).trans (h.inFlight_eq k)) fun k => ?_
  · exact (hlive k).symm ▸ h.live_nonneg k
  · rw [step, hlive]

section Reserve
variable {key : String} {want : Int} (h : p.Accounted bound) (hkey : key ∈ p.controller.members)

include hkey in
theorem pending_reserve (hc : 0 < p.controller.ceiling) (k : String) :
    ((p.step (.reserve key want)).1.pending k : Int) =
    p.pending k + if k = key then p.controller.grant key want else 0 := by
  have hgrant : 0 ≤ p.controller.grant key want := le_max_left _ _
  rw [step]
  by_cases hk : k = key
  · simp only [hk, Function.update_self, if_pos hkey, reserve_snd hc hkey, if_true, Nat.cast_add,
      Int.toNat_of_nonneg hgrant]
  · simp only [Function.update_of_ne hk, hk, if_false, add_zero]

include hkey in
theorem committed_reserve (hc : 0 < p.controller.ceiling) :
    (p.step (.reserve key want)).1.committed = p.committed + p.controller.grant key want := by
  have hkeys : (p.step (.reserve key want)).1.controller.members.keys = p.controller.members.keys := reserve_keys ..
  have hterm (k : String) :
    (p.step (.reserve key want)).1.controller.live k + (p.step (.reserve key want)).1.pending k =
      p.controller.live k + p.pending k + if k = key then p.controller.grant key want else 0 := by
    rw [pending_reserve hkey hc, ← add_assoc]
    exact congrArg (· + (p.pending k : Int) + _) ((reserve_effect hc hkey want).1 k)
  unfold committed
  rw [hkeys, Finset.sum_congr rfl fun k _ => hterm k, Finset.sum_add_distrib, Finset.sum_ite_eq',
    if_pos (Finmap.mem_keys.mpr hkey)]

include h in
theorem committed_le_held : p.committed ≤ ∑ k ∈ p.controller.members.keys, p.controller.held k := by
  refine Finset.sum_le_sum fun k _ => ?_
  rw [held_eq (h.live_nonneg k), h.inFlight_eq, unresolved]
  omega

theorem reserve (sound : p.Sound ceiling) (hc : 0 < ceiling) (hle : ceiling ≤ bound) (h : p.Accounted bound)
    (key : String) (want : Int) : (p.step (.reserve key want)).1.Accounted bound := by
  have hc' : 0 < p.controller.ceiling := by rw [sound.ceiling_eq]; exact hc
  by_cases hkey : key ∈ p.controller.members
  · obtain ⟨hlive, hflight⟩ := reserve_effect hc' hkey want
    refine ⟨fun k => (hlive k).symm ▸ h.live_nonneg k, fun k => ?_, ?_⟩
    · have hunresolved : ((p.step (.reserve key want)).1.unresolved k : Int) =
          p.unresolved k + if k = key then p.controller.grant key want else 0 := by
        rw [unresolved, unresolved, Nat.cast_add, pending_reserve hkey hc', Nat.cast_add, add_right_comm]
        rfl
      rw [hunresolved, ← h.inFlight_eq]
      exact hflight k
    · have hheld := h.committed_le_held
      have hwithin := h.within
      have hgrant : p.controller.grant key want ≤ max p.controller.free 0 := grant_le hc'.le
      have hfree : p.controller.free = ceiling - ∑ k ∈ p.controller.members.keys, p.controller.held k := by
        rw [free, sound.ceiling_eq]
      rw [committed_reserve hkey hc']
      omega
  · have hreserve := reserve_of_notMem hkey want
    refine h.of_moved (by rw [step]; exact congrArg (fun a => a.members.keys) hreserve) (fun k => ?_)
      (fun k => ?_) fun k => ?_
    all_goals simp only [step, hreserve, if_neg hkey, add_zero, Function.update_eq_self, unresolved]
    · exact h.live_nonneg k
    · exact h.inFlight_eq k
    · exact le_rfl

end Reserve

theorem rise (h : p.Accounted bound) {key : String} (allowed : p.Allowed (.rise key)) :
    (p.step (.rise key)).1.Accounted bound := by
  have hpos : 0 < p.pending key := allowed
  obtain ⟨hlive, hflight⟩ := update_effect (h.mem_of_pending hpos) rfl (add_zero _).symm
    (f := fun m => { m with live := m.live + 1 })
  refine h.of_moved (keys_update ..) (fun k => ?_) (fun k => ?_) fun k => ?_
  · have := h.live_nonneg k
    rw [step, hlive]
    split <;> omega
  · have := h.inFlight_eq k
    rw [step, hflight, ite_self, add_zero, this, unresolved, unresolved]
    dsimp only
    by_cases hk : k = key
    · rw [hk, Function.update_self, Function.update_self]
      omega
    · rw [Function.update_of_ne hk, Function.update_of_ne hk]
  · rw [step, hlive]
    dsimp only
    by_cases hk : k = key
    · rw [hk, Function.update_self, if_pos rfl]
      omega
    · rw [Function.update_of_ne hk, if_neg hk, add_zero]

theorem settle (h : p.Accounted bound) {key : String} (allowed : p.Allowed (.settle key)) :
    (p.step (.settle key)).1.Accounted bound := by
  have hpos : 0 < p.risen key := allowed
  have hin := h.inFlight_eq key
  rw [unresolved] at hin
  have hle : ((1 : Nat) : Int) ≤ p.controller.inFlight key := by omega
  obtain ⟨hlive, hflight⟩ := settle_effect hle
  rw [Nat.cast_one] at hlive hflight
  refine h.of_moved ?_ (fun k => (hlive k).symm ▸ h.live_nonneg k) (fun k => ?_) fun k => ?_
  · rw [step, AdmissionController.settle, if_neg (by decide)]
    exact keys_update ..
  · have := h.inFlight_eq k
    rw [step, hflight, this, unresolved, unresolved]
    dsimp only
    by_cases hk : k = key
    · rw [hk, Function.update_self, if_pos rfl]
      omega
    · rw [Function.update_of_ne hk, if_neg hk, sub_zero]
  · rw [step, hlive]

theorem abandon (h : p.Accounted bound) {key : String} {count : Nat} (allowed : p.Allowed (.abandon key count)) :
    (p.step (.abandon key count)).1.Accounted bound := by
  have hcount : count ≤ p.pending key := allowed
  have hin := h.inFlight_eq key
  rw [unresolved] at hin
  have hle : (count : Int) ≤ p.controller.inFlight key := by omega
  obtain ⟨hlive, hflight⟩ := settle_effect hle
  refine h.of_moved ?_ (fun k => (hlive k).symm ▸ h.live_nonneg k) (fun k => ?_) fun k => ?_
  · rw [step, AdmissionController.settle]
    split
    · rfl
    · exact keys_update ..
  · have := h.inFlight_eq k
    rw [step, hflight, this, unresolved, unresolved]
    dsimp only
    by_cases hk : k = key
    · rw [hk, Function.update_self, if_pos rfl]
      omega
    · rw [Function.update_of_ne hk, if_neg hk, sub_zero]
  · rw [step, hlive]
    dsimp only
    by_cases hk : k = key
    · rw [hk, Function.update_self]
      omega
    · rw [Function.update_of_ne hk]

theorem exit (h : p.Accounted bound) {key : String} (allowed : p.Allowed (.exit key)) :
    (p.step (.exit key)).1.Accounted bound := by
  have hpos : 0 < p.controller.live key := allowed
  have hmem : key ∈ p.controller.members := by
    by_contra hk
    rw [live, member_of_notMem hk] at hpos
    exact lt_irrefl 0 hpos
  obtain ⟨hlive, hflight⟩ := update_effect hmem (sub_eq_add_neg _ _) (add_zero _).symm
    (f := fun m => { m with live := m.live - 1 })
  refine h.of_moved (keys_update ..) (fun k => ?_) (fun k => ?_) fun k => ?_
  · have := h.live_nonneg k
    rw [step, hlive]
    split
    · next hk => rw [hk]; omega
    · omega
  · rw [step, hflight, ite_self, add_zero]
    exact h.inFlight_eq k
  · rw [step, hlive]
    dsimp only
    split <;> omega

theorem step (sound : p.Sound ceiling) (hc : 0 < ceiling) (hle : ceiling ≤ bound) (h : p.Accounted bound)
    {e : ProfileEvent} (allowed : p.Allowed e) : (p.step e).1.Accounted bound := by
  cases e with
  | join key => exact h.join key
  | leave key => exact h.leave allowed
  | setDemand key demand => exact h.setDemand key demand
  | reserve key want => exact h.reserve sound hc hle key want
  | rise key => exact h.rise allowed
  | settle key => exact h.settle allowed
  | abandon key count => exact h.abandon allowed
  | exit key => exact h.exit allowed

end Accounted

def workers (p : Profile) : Int := ∑ k ∈ p.controller.members.keys, p.controller.live k

theorem committed_of_pending (h : ∀ k, p.pending k = 0) : p.committed = p.workers :=
  Finset.sum_congr rfl fun k _ => by rw [h k, Nat.cast_zero, add_zero]

theorem accounted_start (hc : 0 < ceiling) (first : List (String × Nat)) :
    (start ceiling first).Accounted (max ceiling (start ceiling first).workers) := by
  have h := start_induction hc first (I := fun a => (∀ k, 0 ≤ a.live k) ∧ ∀ k, a.inFlight k = 0)
    ⟨fun _ => le_rfl, fun _ => rfl⟩ fun a key n ha => ⟨fun k => by
      rw [live_join]
      split
      · exact Int.natCast_nonneg n
      · exact ha.1 k, fun k => (inFlight_join ..).trans (ha.2 k)⟩
  exact ⟨h.1, h.2, (committed_of_pending fun _ => rfl).le.trans (le_max_right _ _)⟩

theorem accounted_run (hc : 0 < ceiling) (first : List (String × Nat)) {events : List ProfileEvent}
    (allowed : (start ceiling first).RunAllowed events) :
    ((start ceiling first).run events).Accounted (max ceiling (start ceiling first).workers) :=
  (exec_induction_of (I := fun p => p.Sound ceiling ∧ p.Accounted (max ceiling (start ceiling first).workers))
    ⟨sound_start hc first, accounted_start hc first⟩
    (fun _ e h ha => ⟨h.1.step hc e, h.2.step h.1 hc (le_max_left _ _) ha⟩) allowed).2

/-- The ceiling is kept: no reservation by a member grants more than is free, the workers stay within
    the ceiling or what they were at the start, every unresolved unit is in flight, and the cursor is
    where the shares add up to the ceiling. -/
structure CeilingKept (ceiling : Int) (start p : Profile) : Prop where
  grants : ∀ key ∈ p.controller.members, ∀ want, (p.controller.reserve key want).2 ≤
    max (ceiling - ∑ k ∈ p.controller.members.keys, (p.controller.live k + p.controller.inFlight k)) 0
  workers : p.workers ≤ max ceiling start.workers
  unresolved : ∀ k ∈ p.controller.members, (p.unresolved k : Int) ≤ p.controller.inFlight k
  rotation : 0 ≤ p.controller.rotation ∧ p.controller.rotation ≤ p.controller.members.keys.card
  even : ∀ k ∈ p.controller.members, p.controller.share k = ceiling / p.controller.members.keys.card ∨
    p.controller.share k = ceiling / p.controller.members.keys.card + 1
  sum : p.controller.members.keys.Nonempty → ∑ k ∈ p.controller.members.keys, p.controller.share k = ceiling

theorem ceilingKept_of {start : Profile} (positive : 0 < ceiling) (sound : p.Sound ceiling)
    (accounted : p.Accounted (max ceiling start.workers)) : CeilingKept ceiling start p := by
  obtain ⟨rfl, inRange, -⟩ := sound
  refine ⟨fun key hkey want => ?_, ?_, fun k _ => (accounted.inFlight_eq k).ge, inRange,
    fun k hk => share_even positive.le hk,
    fun hne => sum_share positive.le inRange.2 (Finset.card_pos.mpr hne)⟩
  · rw [reserve_snd positive hkey, ← Finset.sum_congr rfl fun k _ => held_eq (accounted.live_nonneg k)]
    exact grant_le positive.le
  · refine le_trans (Finset.sum_le_sum fun k _ => ?_) accounted.within
    omega

/-- In every run that keeps to the protocol of launches the ceiling is kept in every state. A key that is
    no member is not counted: it is granted what it wants. -/
theorem ceiling_never_overshot {ceiling : Int} (positive : 0 < ceiling) (first : List (String × Nat))
    (events : List ProfileEvent) (allowed : (start ceiling first).RunAllowed events) :
    CeilingKept ceiling (start ceiling first) ((start ceiling first).run events) :=
  ceilingKept_of positive (sound_run positive first events) (accounted_run positive first allowed)

/-- Recovered workers above the ceiling exit while a target joins, launches one worker and gives up another. -/
def drainingRun : List ProfileEvent :=
  [.join "repo", .reserve "repo" 2, .exit "recovered", .exit "recovered", .exit "recovered", .reserve "repo" 2,
    .rise "repo", .reserve "repo" 1, .settle "repo", .abandon "repo" 1, .exit "repo", .leave "repo"]

theorem ceiling_never_overshot_draining :
    CeilingKept 2 (start 2 [("recovered", 3)]) ((start 2 [("recovered", 3)]).run drainingRun) :=
  ceiling_never_overshot (by decide) _ _ (by decide +kernel)

end Profile

end PitCrew.Autoscaler
