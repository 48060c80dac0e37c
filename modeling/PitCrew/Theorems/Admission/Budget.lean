import PitCrew.Theorems.Admission.Sound

/-! # The budget

Units move only with the leases: an act leaves every weight of the ledger as it is, adds that of the
lease it makes or takes that of the lease it removes. An acquisition is granted only while the whole
ledger, with the leases of profiles that the policy no longer names, stays within the budget. -/

namespace PitCrew.Admission
open Base Coordinator

def DurableState.heldUnits (s : DurableState) : Int := s.leases.sumOf (·.units)

def DurableState.heldBy (s : DurableState) (p : String) : Int :=
  s.leases.sumOf fun l => if l.profileID = p then l.units else 0

section Weights
variable {env : Env} {a : Act} {c c' : Coordinator} {f : Lease → Int}

@[simp] theorem held_sum : c.heldUnitsByProfileLocked.sumOf id = c.state.heldUnits := Map.sumOf_tally _

@[simp] theorem held_getD (p : String) : c.heldUnitsByProfileLocked.getD p 0 = c.state.heldBy p := Map.getD_tally _ p

/-- A weight of leases that their life does not change. -/
def Steady (f : Lease → Int) : Prop := ∀ l l' : Lease, l.Continues l' → f l' = f l

theorem steady_units : Steady (·.units) := fun _ _ h => h.units

theorem steady_heldBy (p : String) : Steady fun l => if l.profileID = p then l.units else 0 := by
  intro l l' h
  simp only [h.profileID, h.units]

theorem Took.sumOf_cases (h : Took env a c c') (hf : Steady f) :
    c'.state.leases.sumOf f = c.state.leases.sumOf f ∨
      (∃ p k l, Makes a c.state p k l ∧ c'.state.leases.sumOf f = c.state.leases.sumOf f + f l) ∨
      ∃ p k t l, a = .remove p k t ∧ c.state.leases.lookup (leaseKey p k) = some l ∧
        c'.state.leases.sumOf f = c.state.leases.sumOf f - f l := by
  rcases h.leases_cases with
    hsame | ⟨p, k, l, makes, hnew⟩ | ⟨p, k, l, l', lease, continues, hnew⟩ | ⟨p, k, t, l, ha, lease, hnew⟩
  · exact Or.inl (by rw [hsame])
  · refine Or.inr (Or.inl ⟨p, k, l, makes, ?_⟩)
    rw [hnew, Map.sumOf_insert makes.absent, add_comm]
  · refine Or.inl ?_
    rw [hnew, Map.sumOf_replace lease, hf l l' continues, sub_add_cancel]
  · refine Or.inr (Or.inr ⟨p, k, t, l, ha, lease, ?_⟩)
    rw [hnew, Map.sumOf_erase lease]

theorem heldUnits_nonneg_of {s : DurableState} (hs : s.Sound) (key : String) (l : Lease)
    (hl : s.leases.lookup key = some l) :
    0 ≤ l.units := by
  have := (hs.leases key l hl).valid.units
  omega

theorem DurableState.Sound.held_discardAll {s : DurableState} (hs : s.Sound) (reason : TombstoneReason)
    (l : List (String × Lease)) (o : RangeOrder String) :
    ((s.discardAll reason l).compactTombstones o).heldUnits ≤ s.heldUnits := by
  unfold heldUnits
  rw [compact_leases]
  refine Map.sumOf_mono (fun key lease hk => ?_) (heldUnits_nonneg_of hs)
  rw [discardAll_leases] at hk
  split at hk
  · cases hk
  · exact hk

end Weights

/-! ## Decisions on the budget -/

section Budget
variable {env : Env} {a : Act} {c c' : Coordinator}

def Coordinator.freeUnits (c : Coordinator) : Int := c.state.policy.totalUnits - c.state.heldUnits

def Coordinator.ownRemaining (c : Coordinator) (p : String) (pp : ProfilePolicy) : Int :=
  max (pp.reservedUnits - c.state.heldBy p) 0

/-- The free units outside the protected reservations of the other profiles. -/
def Coordinator.available (c : Coordinator) (p : String) : Int :=
  c.freeUnits - c.protectedNonBorrowableLocked p c.heldUnitsByProfileLocked

/-- The part of the available units that fairness leaves a profile. -/
def Coordinator.fairUnits (c : Coordinator) (p : String) : Int :=
  (c.fairAllocatableUnitsLocked p c.heldUnitsByProfileLocked (c.available p)).1

theorem evaluateAcquire_eq (c : Coordinator) (p : String) (pp : ProfilePolicy) :
    c.evaluateAcquireLocked p pp c.heldUnitsByProfileLocked =
      if c.freeUnits < pp.unitCost then .error .budgetExhausted
      else if pp.unitCost ≤ c.ownRemaining p pp then .ok 0
      else if c.available p < pp.unitCost then .error .protectedReservation
      else if pp.unitCost ≤ c.fairUnits p then
        .ok (c.fairAllocatableUnitsLocked p c.heldUnitsByProfileLocked (c.available p)).2
      else .error .fairShareContention := by
  unfold evaluateAcquireLocked
  rw [held_sum, held_getD]
  show ite (c.freeUnits < pp.unitCost) _ _ = _
  refine ite_congr rfl (fun _ => rfl) fun _ => ?_
  show ite (pp.unitCost ≤ c.ownRemaining p pp) _ _ = _
  refine ite_congr rfl (fun _ => rfl) fun _ => ?_
  show ite (c.available p < pp.unitCost) _ _ = _
  refine ite_congr rfl (fun _ => rfl) fun _ => ?_
  have hturn : c.fairTurnLocked p c.heldUnitsByProfileLocked (c.available p) pp.unitCost =
      (decide (pp.unitCost ≤ c.fairUnits p),
        (c.fairAllocatableUnitsLocked p c.heldUnitsByProfileLocked (c.available p)).2) :=
    rfl
  have hpool :
    c.state.policy.totalUnits - c.state.heldUnits - c.protectedNonBorrowableLocked p c.heldUnitsByProfileLocked =
      c.available p := rfl
  rw [hpool, hturn]
  by_cases hfair : pp.unitCost ≤ c.fairUnits p <;> simp [hfair]

theorem evaluateAcquire_ok {p : String} {pp : ProfilePolicy} {n : Nat}
    (h : c.evaluateAcquireLocked p pp c.heldUnitsByProfileLocked = .ok n) :
    pp.unitCost ≤ c.freeUnits ∧ (pp.unitCost ≤ c.ownRemaining p pp ∨ pp.unitCost ≤ c.available p) := by
  rw [evaluateAcquire_eq] at h
  split at h
  · cases h
  · split at h
    · next hfree hown => exact ⟨by omega, Or.inl hown⟩
    · split at h
      · cases h
      · next hfree _ havail => exact ⟨by omega, Or.inr (by omega)⟩

theorem evaluateAcquire_fits {p : String} {pp : ProfilePolicy} {n : Nat}
    (h : c.evaluateAcquireLocked p pp c.heldUnitsByProfileLocked = .ok n) :
    c.state.heldUnits + pp.unitCost ≤ c.state.policy.totalUnits := by
  have := (evaluateAcquire_ok h).1
  unfold freeUnits at this
  omega

/-- The units that a ledger holds beyond its budget; negative while there are free units. -/
def DurableState.excess (s : DurableState) : Int := s.heldUnits - s.policy.totalUnits

theorem Took.grant_inv {p k : String} {l : Lease} (h : Took env (.grant p k l) c c') :
    ∃ pp n, c.state.policy.profile p = some pp ∧ c.evaluateAcquireLocked p pp c.heldUnitsByProfileLocked = .ok n ∧
      c.state.leases.lookup (leaseKey p k) = none ∧ l = c.provisionalLease env p k pp.unitCost := by
  cases h with
  | @grant _ _ _ pp n _ _ _ _ absent known admitted => exact ⟨pp, n, known, admitted, absent, rfl⟩

theorem Took.excess_grant {p k : String} {l : Lease} (h : Took env (.grant p k l) c c') : c'.state.excess ≤ 0 := by
  obtain ⟨pp, n, -, admitted, absent, rfl⟩ := h.grant_inv
  have hfits := evaluateAcquire_fits admitted
  have hheld : c'.state.heldUnits = pp.unitCost + c.state.heldUnits := by
    rw [DurableState.heldUnits, h.leaves.leases]
    exact Map.sumOf_insert absent _
  rw [DurableState.excess, h.leaves.policy_eq nofun]
  omega

theorem Took.excess_cases (h : Took env a c c') (hs : c.state.Sound) :
    c'.state.excess ≤ c.state.excess ∨ (∃ p k l, a = .grant p k l) ∨
      (∃ p k l, a = .create p k l ∧ c.state.leases.lookup (leaseKey p k) = none) ∨
      ∃ policy, a = .policy policy ∧ c'.state.excess = c.state.heldUnits - policy.totalUnits := by
  by_cases hpolicy : ∃ policy, a = .policy policy
  · obtain ⟨policy, rfl⟩ := hpolicy
    cases h with
    | policy => exact Or.inr (Or.inr (Or.inr ⟨policy, rfl, rfl⟩))
  · have hsame := h.leaves.policy_eq fun p hp => hpolicy ⟨p, hp⟩
    rcases h.sumOf_cases steady_units with hheld | ⟨p, k, l, makes, -⟩ | ⟨p, k, t, l, rfl, lease, hheld⟩
    · left
      rw [DurableState.excess, DurableState.excess, DurableState.heldUnits, hheld, hsame]
      exact le_rfl
    · rcases makes.act with rfl | rfl
      · exact Or.inr (Or.inl ⟨p, k, l, rfl⟩)
      · exact Or.inr (Or.inr (Or.inl ⟨p, k, l, rfl, makes.absent⟩))
    · left
      have := heldUnits_nonneg_of hs _ l lease
      rw [DurableState.excess, DurableState.excess, DurableState.heldUnits, DurableState.heldUnits, hheld, hsame]
      omega

theorem sweptFor_sound (hset : c.state.FencesSet) (hs : c.state.Sound) (env : Env) (call : Call) :
    (c.sweptFor env call).state.Sound :=
  sound_kept.follows.sweptFor hset hs

theorem sweptFor_held (hset : c.state.FencesSet) (hs : c.state.Sound) (env : Env) (call : Call) :
    (c.sweptFor env call).state.heldUnits ≤ c.state.heldUnits := by
  rcases sweptFor_cases hset env call with h | ⟨h, -⟩
  · rw [h]
  · rw [h]
    exact hs.held_discardAll .expired (c.expiredLeases env) env.order

theorem Records.excess (h : Records c c') : c'.state.excess = c.state.excess := by
  rw [h.frame]
  rfl

theorem Course.excess_grant {call : Call} {p k : String} {l : Lease}
    (course : Course env call (some (.grant p k l)) c c') :
    c'.state.excess ≤ 0 := by
  obtain ⟨c₁, c₂, c₃, -, took, h₂, hrec⟩ := course
  rw [hrec.excess, h₂.state]
  exact Took.excess_grant took

theorem Course.excess_cases {call : Call} {a : Option Act} (course : Course env call a c c') (hset : c.state.FencesSet)
    (hs : c.state.Sound) :
    c'.state.excess ≤ max c.state.excess 0 ∨
      (∃ p k l, a = some (.create p k l) ∧ (c.sweptFor env call).state.leases.lookup (leaseKey p k) = none) ∨
      ∃ policy, a = some (.policy policy) ∧ c'.state.excess ≤ c.state.heldUnits - policy.totalUnits := by
  have hheld := sweptFor_held hset hs env call
  have hsound := sweptFor_sound hset hs env call
  have hswept : (c.sweptFor env call).state.excess ≤ c.state.excess := by
    rw [DurableState.excess, DurableState.excess, sweptFor_policy hset]
    omega
  obtain ⟨c₁, c₂, c₃, h₁, hdoes, h₂, hrec⟩ := course
  rw [hrec.excess, h₂.state]
  rw [← h₁.state] at hheld hsound hswept ⊢
  cases a with
  | none =>
    rw [hdoes]
    exact Or.inl (hswept.trans (le_max_left _ _))
  | some a =>
    rcases Took.excess_cases hdoes hsound with hle | ⟨p, k, l, rfl⟩ | ⟨p, k, l, rfl, habsent⟩ | ⟨policy, rfl, heq⟩
    · exact Or.inl ((hle.trans hswept).trans (le_max_left _ _))
    · exact Or.inl ((Took.excess_grant hdoes).trans (le_max_right _ _))
    · exact Or.inr (Or.inl ⟨p, k, l, rfl, habsent⟩)
    · exact Or.inr (Or.inr ⟨policy, rfl, by omega⟩)

end Budget

/-! ## Runs -/

/-- An adoption that was given a lease of a slot that had none once the sweep had run. -/
def CreatedByAdopt (t : Transition World Event Reply) : Prop :=
  ∃ c p k order saves l, t.before.process = .running c ∧ t.event = .call (.adopt p k) order saves ∧ t.reply = .lease l ∧
    (c.sweptFor { now := t.before.now, order, saves } (.adopt p k)).state.leases.lookup (leaseKey p k) = none

/-- A policy was applied whose budget is smaller than that of the policy before. -/
def LoweredByPolicy (t : Transition World Event Reply) : Prop :=
  ∃ policy order saves, t.event = .call (.applyPolicy policy) order saves ∧ t.reply = .done ∧
    policy.totalUnits < t.before.ledger.policy.totalUnits

def GrantedByAcquire (t : Transition World Event Reply) : Prop :=
  ∃ p k n order saves l, t.event = .call (.acquire p k n) order saves ∧ t.reply = .lease l

section Moved
variable {w w' : World} {e : Event} {reply : Reply}

theorem Moved.granted_fits (moved : Moved w e reply w') (synced : w.Synced)
    (granted : GrantedByAcquire ⟨w, e, reply, w'⟩) :
    w'.ledger.heldUnits ≤ w'.ledger.policy.totalUnits := by
  have synced' := World.moved_upheld synced_upheld synced synced moved
  obtain ⟨p, k, n, order, saves, l, he, hreply⟩ := granted
  dsimp only at he hreply
  subst he hreply
  cases moved with
  | call running course fits =>
    rw [World.Synced.ledger synced' rfl]
    cases fits with
    | grant => exact sub_nonpos.mp course.excess_grant

theorem Moved.excess_cases (moved : Moved w e reply w') (synced : w.Synced) (hs : w.ledger.Sound) :
    w'.ledger.excess ≤ max w.ledger.excess 0 ∨ CreatedByAdopt ⟨w, e, reply, w'⟩ ∨
      LoweredByPolicy ⟨w, e, reply, w'⟩ := by
  have synced' := World.moved_upheld synced_upheld synced synced moved
  cases moved with
  | clock | idle | refused | opened => exact Or.inl (le_max_left _ _)
  | pruned valid _ =>
    left
    rw [World.Synced.ledger synced' rfl]
    refine le_trans ?_ (le_max_left _ _)
    show (w.ledger.pruned _).excess ≤ _
    rw [DurableState.excess, DurableState.excess, DurableState.pruned_policy]
    exact Int.sub_le_sub_right (hs.held_discardAll _ _ _) _
  | @call c c' call order saves a reply running course fits =>
    have hledger : w.ledger = c.state := synced.ledger running
    rw [hledger] at hs
    rw [World.Synced.ledger synced' rfl, hledger]
    rcases course.excess_cases (synced c running).fences hs with hle | ⟨p, k, l, rfl, habsent⟩ | ⟨policy, rfl, hle⟩
    · exact Or.inl hle
    · cases fits with
      | create => exact Or.inr (Or.inl ⟨c, p, k, order, saves, l, running, rfl, rfl, habsent⟩)
    · cases fits with
      | policy =>
        by_cases hlow : policy.totalUnits < c.state.policy.totalUnits
        · exact Or.inr (Or.inr ⟨policy, order, saves, rfl, rfl, by rw [hledger]; exact hlow⟩)
        · left
          refine le_trans (hle.trans ?_) (le_max_left _ _)
          unfold DurableState.excess
          omega

end Moved

/-- Along every run from an empty store, with any failing saves and restarts, a granted acquisition
    leaves all leases together within the budget, and the units beyond the budget grow only through an
    adoption that creates a lease or a policy that lowers the budget. -/
theorem budget_safety (now : Int) (events : List Event) (t : Transition World Event Reply)
    (ht : t ∈ (World.initial now none).transitions events) :
    (GrantedByAcquire t → t.after.ledger.heldUnits ≤ t.after.ledger.policy.totalUnits) ∧
      (t.after.ledger.excess ≤ max t.before.ledger.excess 0 ∨ CreatedByAdopt t ∨ LoweredByPolicy t) := by
  obtain ⟨synced, moved⟩ := World.moved_of_mem ht
  exact ⟨moved.granted_fits synced, moved.excess_cases synced (World.sound_of_mem ht)⟩

def alphaOnly : List Event :=
  [.start, .plain (.applyPolicy { generation := 1, totalUnits := 3,
                                  profiles := [{ profileID := "alpha", unitCost := 2 }] })]

theorem budget_safety_alphaOnly :
    ∃ t ∈ (World.initial 0 none).transitions (alphaOnly ++ [.plain (.acquire "alpha" "slot-1" 1)]),
    GrantedByAcquire t ∧ t.after.ledger.heldUnits ≤ t.after.ledger.policy.totalUnits := by
  have hmem := (World.initial 0 none).stepAfter_mem alphaOnly (.plain (.acquire "alpha" "slot-1" 1))
  have granted : GrantedByAcquire ((World.initial 0 none).stepAfter alphaOnly (.plain (.acquire "alpha" "slot-1" 1))) :=
    ⟨"alpha", "slot-1", 1, .sorted, {}, _, rfl, rfl⟩
  exact ⟨_, hmem, granted, (budget_safety 0 _ _ hmem).1 granted⟩

end PitCrew.Admission
