import PitCrew.Theorems.Admission.FairShare

/-! # Status and acquisitions

`Status` computes the capacity of a profile a second time, from the units of the profiles that the policy
names. A profile whose demand is known at the reading of the clock is reported as withheld exactly when an
acquisition would be refused, with the same reason. The reported workers agree with the decision where the
shares of the contenders add up, or where every lease belongs to a profile of the policy. -/

namespace PitCrew.Admission
open Base Coordinator

/-! ## Units of profiles that the policy no longer names -/

namespace DurableState

variable {s : DurableState}

/-- The units of the leases whose profile is not in the policy. -/
def strayUnits (s : DurableState) : Int :=
  s.leases.sumOf fun l => if l.profileID ∈ s.policy.profiles.map (·.profileID) then 0 else l.units

theorem strayUnits_nonneg (hs : s.Sound) : 0 ≤ s.strayUnits := by
  refine Map.sumOf_nonneg fun e he => ?_
  split
  · exact le_rfl
  · exact heldUnits_nonneg_of hs e.1 e.2 (Map.mem_entries_iff.mp he)

theorem profile_isSome {policy : HostPolicy} {p : String} :
    (policy.profile p).isSome = true ↔ p ∈ policy.profiles.map (·.profileID) := by
  simp only [HostPolicy.profile, List.find?_isSome, List.mem_map, beq_iff_eq]

theorem strayUnits_eq_zero (named : ∀ key l, s.leases.lookup key = some l →
    (s.policy.profile l.profileID).isSome = true) :
    s.strayUnits = 0 := by
  refine Multiset.sum_eq_zero fun n hn => ?_
  obtain ⟨e, he, rfl⟩ := Multiset.mem_map.mp hn
  exact if_pos (profile_isSome.mp (named e.1 e.2 (Map.mem_entries_iff.mp he)))

theorem sum_heldBy (distinct : (s.policy.profiles.map (·.profileID)).Nodup) :
    (s.policy.profiles.map fun pp => s.heldBy pp.profileID).sum + s.strayUnits = s.heldUnits := by
  unfold heldBy strayUnits heldUnits
  rw [Map.sum_sumOf distinct, ← Map.sumOf_add]
  refine congrArg (Map.sumOf · s.leases) (funext fun l => ?_)
  by_cases hl : l.profileID ∈ s.policy.profiles.map (·.profileID) <;> simp [hl]

end DurableState

/-! ## The capacity of a profile -/

namespace Coordinator

variable {c d : Coordinator} {p : String} {pp : ProfilePolicy} {env env' : Env}

/-- The free units as `Status` counts them. -/
def currentFree (c : Coordinator) : Int :=
  max (c.state.policy.totalUnits - (c.state.policy.profiles.map fun pp => c.state.heldBy pp.profileID).sum) 0

/-- What the policy and its own leases leave a profile at most. -/
def ceiling (c : Coordinator) (p : String) : Int :=
  max (max (c.state.policy.totalUnits - (c.state.policy.profiles.map fun pp =>
    if pp.profileID ≠ p ∧ pp.borrowable = false then pp.reservedUnits else 0).sum) 0 - c.state.heldBy p) 0

/-- The available units as `Status` counts them. -/
def currentAvailable (c : Coordinator) (p : String) : Int :=
  max (c.currentFree - c.protectedNonBorrowableLocked p c.heldUnitsByProfileLocked) 0

/-- The units that `Status` reports for a profile with demand that is not withheld. -/
def demandUnits (c : Coordinator) (p : String) (pp : ProfilePolicy) : Int :=
  min (max (min (c.ownRemaining p pp) c.currentFree)
    (c.fairAllocatableUnitsLocked p c.heldUnitsByProfileLocked (c.currentAvailable p)).1) (c.ceiling p)

theorem profileCapacity_of_demand (known : c.state.policy.profile p = some pp) (hknown : c.demandIsKnown p = true)
    (hpos : 0 < c.demand.getD p 0) :
    let capacity := c.profileCapacityLocked p c.heldUnitsByProfileLocked
    capacity.withholdingReason = c.withholding p pp c.heldUnitsByProfileLocked ∧
      capacity.allocatableUnits = (if (c.withholding p pp c.heldUnitsByProfileLocked).isSome then 0
        else if c.state.adoptionFences.keys.card > 0 then 0 else c.demandUnits p pp) ∧
      capacity.allocatableWorkers = capacity.allocatableUnits.tdiv pp.unitCost := by
  have hfree : c.currentFree = max (c.state.policy.totalUnits -
      (c.state.policy.profiles.map fun pp => c.heldUnitsByProfileLocked.getD pp.profileID 0).sum) 0 := by
    simp only [currentFree, held_getD]
  unfold profileCapacityLocked demandUnits currentAvailable ceiling ownRemaining
  rw [known, hfree]
  simp only [hknown, hpos, decide_true, Bool.and_self, if_true, held_getD]
  exact ⟨trivial, trivial, trivial⟩

theorem withholding_of_unfenced (unfenced : c.state.adoptionFences.keys.card = 0) :
    c.withholding p pp c.heldUnitsByProfileLocked =
      match c.evaluateAcquireLocked p pp c.heldUnitsByProfileLocked with
      | .error e => withholdingReasonForError e
      | .ok _ => none := by
  unfold withholding
  cases c.evaluateAcquireLocked p pp c.heldUnitsByProfileLocked <;> exact if_neg (by omega)

/-- The decision on a refusal has a reason that `Status` reports. -/
theorem evaluateAcquire_error {e : Err} (h : c.evaluateAcquireLocked p pp c.heldUnitsByProfileLocked = .error e) :
    ∃ r, withholdingReasonForError e = some r := by
  rw [evaluateAcquire_eq] at h
  split at h
  · cases h
    exact ⟨.budgetExhausted, rfl⟩
  · split at h
    · cases h
    · split at h
      · cases h
        exact ⟨.protectedReservation, rfl⟩
      · split at h
        · cases h
        · cases h
          exact ⟨.fairShareContention, rfl⟩

/-- What an admitted worker fits: its own reservation, or the pool and what fairness leaves of it. -/
theorem evaluateAcquire_admits {n : Nat} (h : c.evaluateAcquireLocked p pp c.heldUnitsByProfileLocked = .ok n) :
    pp.unitCost ≤ c.freeUnits ∧
      (pp.unitCost ≤ c.ownRemaining p pp ∨ pp.unitCost ≤ c.available p ∧ pp.unitCost ≤ c.fairUnits p) := by
  rw [evaluateAcquire_eq] at h
  split at h
  · cases h
  · next hfree =>
    refine ⟨by omega, ?_⟩
    split at h
    · next hown => exact Or.inl hown
    · split at h
      · cases h
      · next havail =>
        split at h
        · next hfair => exact Or.inr ⟨by omega, hfair⟩
        · cases h

/-- The reservation of a profile fits under its ceiling, since the reservations together fit the budget. -/
theorem reserved_le_ceiling (valid : c.state.policy.Valid) (known : c.state.policy.profile p = some pp) :
    pp.reservedUnits - c.state.heldBy p ≤ c.ceiling p := by
  obtain ⟨hmem, hid⟩ := HostPolicy.profile_some known
  have hsplit := sum_map_split (·.profileID) p (·.reservedUnits) c.state.policy.profiles
  have hown :
      (c.state.policy.profiles.map fun q => if q.profileID = p then q.reservedUnits else 0).sum = pp.reservedUnits := by
    rw [← hid]
    exact sum_map_at (·.profileID) _ valid.distinct hmem
  have hother :
    (c.state.policy.profiles.map fun q => if q.profileID ≠ p ∧ q.borrowable = false then q.reservedUnits else 0).sum ≤
      (c.state.policy.profiles.map fun q => if q.profileID = p then 0 else q.reservedUnits).sum := by
    refine List.sum_le_sum fun q hq => ?_
    have := (valid.profiles q hq).reserved
    by_cases hqp : q.profileID = p
    · simp [hqp]
    · by_cases hb : q.borrowable = false <;> simp [hqp, hb, this]
  have := valid.reserved
  unfold ceiling
  omega

theorem drawnUnits_mono {available available' : Int} (hle : available ≤ available') :
    c.drawnUnits available p ≤ c.drawnUnits available' p := by
  refine List.sum_le_sum fun o ho => ?_
  split
  · exact le_rfl
  · exact min_le_min_right _ (shareOf_mono hle ho)

section Capacity
variable (sound : c.state.Sound) (valid : c.state.policy.Valid)
include sound valid

/-- `Status` counts no unit as held that no lease holds, and misses the stray units. -/
theorem freeUnits_le_currentFree : c.freeUnits ≤ c.currentFree := by
  have hsum := DurableState.sum_heldBy valid.distinct
  have hstray := DurableState.strayUnits_nonneg sound
  unfold freeUnits currentFree
  omega

theorem available_le_current : c.available p ≤ c.currentAvailable p := by
  have := freeUnits_le_currentFree sound valid
  unfold available currentAvailable
  omega

/-- The available units of a profile fit under its ceiling: what other profiles have reserved is held by
    them or protected. -/
theorem available_le_ceiling (known : c.state.policy.profile p = some pp) : c.available p ≤ c.ceiling p := by
  obtain ⟨hmem, hid⟩ := HostPolicy.profile_some known
  have hsum := DurableState.sum_heldBy valid.distinct
  have hstray := DurableState.strayUnits_nonneg sound
  have hsplit := sum_map_split (·.profileID) p (fun q => c.state.heldBy q.profileID) c.state.policy.profiles
  have hown : (c.state.policy.profiles.map fun q => if q.profileID = p then c.state.heldBy q.profileID else 0).sum =
      c.state.heldBy p := by
    rw [← hid]
    exact sum_map_at (·.profileID) (fun q => c.state.heldBy q.profileID) valid.distinct hmem
  have hother :
    (c.state.policy.profiles.map fun q => if q.profileID ≠ p ∧ q.borrowable = false then q.reservedUnits else 0).sum ≤
      (c.state.policy.profiles.map fun q => if q.profileID = p then 0 else c.state.heldBy q.profileID).sum +
        c.protectedNonBorrowableLocked p c.heldUnitsByProfileLocked := by
    rw [protectedNonBorrowable_eq, ← List.sum_map_add]
    refine List.sum_le_sum fun q hq => ?_
    have hheld := DurableState.heldBy_nonneg (heldUnits_nonneg_of sound) q.profileID
    by_cases hqp : q.profileID = p
    · simp [hqp]
    · cases hb : q.borrowable
      · simp only [ne_eq, hqp, not_false_eq_true, and_self, if_true, if_false, Bool.false_eq_true]
        omega
      · simp [hqp, hheld]
  unfold available freeUnits ceiling
  omega

/-- Where the shares add up, a larger pool leaves a contender no less; without stray units the pool is the
    same. -/
theorem fairUnits_le_current (hp : p ∈ c.contendersLocked) (havail : 0 ≤ c.available p)
    (agree : c.CursorFits c.contendersLocked.length ∨ c.state.strayUnits = 0) :
    c.fairUnits p ≤ (c.fairAllocatableUnitsLocked p c.heldUnitsByProfileLocked (c.currentAvailable p)).1 := by
  have hle : c.available p ≤ c.currentAvailable p := available_le_current sound valid
  rcases agree with fits | hstray
  · have hshare := shareOf_mono hle hp
    have hdrawn : c.drawnUnits (c.available p) p ≤ c.drawnUnits (c.currentAvailable p) p := drawnUnits_mono hle
    rw [fairUnits, fairAllocatable_of_fits hp fits havail, fairAllocatable_of_fits hp fits (havail.trans hle)]
    omega
  · have hsum := DurableState.sum_heldBy valid.distinct
    have hprotected := protectedNonBorrowable_nonneg c p
    have hsame : c.currentAvailable p = c.available p := by
      unfold available freeUnits at havail ⊢
      unfold currentAvailable currentFree
      omega
    rw [hsame, fairUnits]

/-- A worker that is admitted fits the units that `Status` reports. -/
theorem admitted_le_demandUnits (known : c.state.policy.profile p = some pp) {n : Nat}
    (h : c.evaluateAcquireLocked p pp c.heldUnitsByProfileLocked = .ok n) (hp : p ∈ c.contendersLocked)
    (agree : c.CursorFits c.contendersLocked.length ∨ c.state.strayUnits = 0) : pp.unitCost ≤ c.demandUnits p pp := by
  obtain ⟨hfree, hadmits⟩ := evaluateAcquire_admits h
  have hcost := (valid.profile known).unitCost
  have hcurrent := freeUnits_le_currentFree sound valid
  rcases hadmits with hown | ⟨havail, hfair⟩
  · have hceiling := reserved_le_ceiling valid known
    unfold ownRemaining at hown
    unfold demandUnits ownRemaining
    omega
  · have hceiling := available_le_ceiling sound valid known
    have hgrows := fairUnits_le_current sound valid hp (by omega) agree
    unfold demandUnits
    omega

end Capacity

/-- The workers that `Status` reports for a profile with known demand are at least one exactly when one more
    worker is admitted. -/
theorem one_le_allocatableWorkers (sound : c.state.Sound) (known : c.state.policy.profile p = some pp)
    (unfenced : c.state.adoptionFences.keys.card = 0) (hknown : c.demandIsKnown p = true) (hpos : 0 < c.demand.getD p 0)
    (agree : c.CursorFits c.contendersLocked.length ∨ c.state.strayUnits = 0) :
    1 ≤ (c.profileCapacityLocked p c.heldUnitsByProfileLocked).allocatableWorkers ↔
      ∃ n, c.evaluateAcquireLocked p pp c.heldUnitsByProfileLocked = .ok n := by
  have valid := sound.policyValid known
  have hcost := (valid.profile known).unitCost
  obtain ⟨-, hunits, hworkers⟩ := profileCapacity_of_demand known hknown hpos
  have hcontender : p ∈ c.contendersLocked := mem_contenders.mpr ⟨hpos, by rw [known]; rfl⟩
  rw [hworkers, hunits, withholding_of_unfenced unfenced]
  cases heval : c.evaluateAcquireLocked p pp c.heldUnitsByProfileLocked with
  | error e =>
    obtain ⟨r, hr⟩ := evaluateAcquire_error heval
    refine iff_of_false ?_ (by rintro ⟨_, h⟩; cases h)
    simp [hr]
  | ok n =>
    have hle := admitted_le_demandUnits sound valid known heval hcontender agree
    refine iff_of_true ?_ ⟨n, rfl⟩
    simp only [Option.isSome_none, Bool.false_eq_true, unfenced, gt_iff_lt, lt_irrefl, if_false]
    rw [Int.tdiv_eq_ediv_of_nonneg (by omega)]
    exact (Int.le_ediv_iff_mul_le (by omega)).mpr (by omega)

/-! ## The order of the sweep -/

theorem sweep_lookup (hset : c.state.FencesSet) (hsave : env.saves.sweep = true) (key : String) :
    (c.sweepExpiredLocked env).1.state.leases.lookup key =
      if key ∈ (c.expiredLeases env).map Prod.fst then none else c.state.leases.lookup key := by
  rcases sweep_cases hset env with ⟨hnil, hs⟩ | ⟨-, hfail, -⟩ | ⟨-, -, hs⟩
  · rw [hs, hnil]
    rfl
  · rw [hsave] at hfail
    cases hfail
  · rw [hs]
    exact expelled_leases key

theorem sweep_demand (hset : c.state.FencesSet) (hsave : env.saves.sweep = true) :
    (c.sweepExpiredLocked env).1.demand = c.demand.filterKeys (· ∉ (c.expiredLeases env).map (·.2.profileID)) ∧
      (c.sweepExpiredLocked env).1.demandDeadlines =
        c.demandDeadlines.filterKeys (· ∉ (c.expiredLeases env).map (·.2.profileID)) ∧
      (c.sweepExpiredLocked env).1.rotation = c.rotation := by
  rcases sweep_cases hset env with ⟨hnil, hs⟩ | ⟨-, hfail, -⟩ | ⟨-, -, hs⟩
  · rw [hs, hnil]
    exact ⟨(Map.filterKeys_eq_self fun _ _ => rfl).symm, (Map.filterKeys_eq_self fun _ _ => rfl).symm, rfl⟩
  · rw [hsave] at hfail
    cases hfail
  · rw [hs]
    exact ⟨rfl, rfl, rfl⟩

theorem mem_expired_order (hnow : env.now = env'.now) (e : String × Lease) :
    e ∈ c.expiredLeases env ↔ e ∈ c.expiredLeases env' := by
  rw [mem_expiredLeases, mem_expiredLeases, hnow]

/-- What a decision at a reading of the clock depends on does not depend on the order in which the sweep
    visits the leases. -/
theorem current_order (hset : c.state.FencesSet) (hnow : env.now = env'.now) (hsave : env.saves.sweep = true)
    (hsave' : env'.saves.sweep = true) :
    (c.current env).state.policy = (c.current env').state.policy ∧
      (c.current env).state.leases = (c.current env').state.leases ∧
      (c.current env).rotation = (c.current env').rotation ∧
      (c.current env).contendersLocked = (c.current env').contendersLocked := by
  have hkeys (key : String) : key ∈ (c.expiredLeases env).map Prod.fst ↔ key ∈ (c.expiredLeases env').map Prod.fst := by
    simp only [List.mem_map, mem_expired_order hnow]
  have hprofiles (id : String) : id ∈ (c.expiredLeases env).map (·.2.profileID) ↔
      id ∈ (c.expiredLeases env').map (·.2.profileID) := by
    simp only [List.mem_map, mem_expired_order hnow]
  obtain ⟨hdemand, hdeadlines, hrotation⟩ := sweep_demand hset hsave
  obtain ⟨hdemand', hdeadlines', hrotation'⟩ := sweep_demand hset hsave'
  have hpolicy : (c.current env).state.policy = (c.current env').state.policy := by
    rw [(current_state hset env).1, (current_state hset env').1]
  refine ⟨hpolicy, ?_, hrotation.trans hrotation'.symm, ?_⟩
  · refine Finmap.ext_lookup fun key => ?_
    show (c.sweepExpiredLocked env).1.state.leases.lookup key = (c.sweepExpiredLocked env').1.state.leases.lookup key
    rw [sweep_lookup hset hsave, sweep_lookup hset hsave']
    simp only [hkeys]
  · have hsame : (c.current env).demand = (c.current env').demand := by
      unfold current expireStaleDemandLocked
      dsimp only
      rw [hdemand, hdemand', hdeadlines, hdeadlines', hnow]
      simp only [hprofiles]
    unfold contendersLocked
    rw [hsame, hpolicy]

/-! ## What is reported -/

theorem status_reply (hset : c.state.FencesSet) (hsave : env.saves.sweep = true) :
    (c.call env .status).2 = .snapshot (c.current env).snapshot := by
  have hok : ∃ keys, (c.sweepExpiredLocked env).2 = .ok keys := by
    rcases sweep_cases hset env with ⟨-, hs⟩ | ⟨-, hfail, -⟩ | ⟨-, -, hs⟩
    · exact ⟨[], by rw [hs]⟩
    · rw [hsave] at hfail
      cases hfail
    · exact ⟨_, by rw [hs]⟩
  obtain ⟨keys, hok⟩ := hok
  unfold call status swept current
  generalize c.sweepExpiredLocked env = result at hok
  obtain ⟨c', _⟩ := result
  dsimp only at hok
  subst hok
  rfl

theorem mem_accounting {a : ProfileAccounting} (known : c.state.policy.profile p = some pp) :
    a ∈ c.snapshot.accounting ∧ a.profileID = p ↔ a = c.profileAccounting pp := by
  obtain ⟨hmem, hid⟩ := HostPolicy.profile_some known
  show a ∈ (c.state.policy.sortedProfileIDs.filterMap fun id => (c.state.policy.profile id).map c.profileAccounting) ∧
    _ ↔ _
  rw [List.mem_filterMap]
  constructor
  · rintro ⟨⟨id, -, ha⟩, rfl⟩
    obtain ⟨q, hq, rfl⟩ := Option.map_eq_some_iff.mp ha
    have hqid : q.profileID = id := (HostPolicy.profile_some hq).2
    subst hqid
    change c.state.policy.profile q.profileID = some pp at known
    rw [hq, Option.some.injEq] at known
    rw [known]
  · rintro rfl
    refine ⟨⟨p, ?_, by rw [known]; rfl⟩, hid⟩
    rw [HostPolicy.sortedProfileIDs, List.mem_insertionSort]
    exact List.mem_map.mpr ⟨pp, hmem, hid⟩

theorem current_sound (hset : c.state.FencesSet) (sound : c.state.Sound) : (c.current env).state.Sound :=
  sweptFor_sound hset sound env .status

section Reported
variable (hset : c.state.FencesSet) (sound : c.state.Sound) (known : c.state.policy.profile p = some pp)
  {k : String} (slot : slotKeyPattern k = true) (n : Int)
include hset sound known slot

/-- The reply to an acquisition of a free slot, by the decision that `Status` evaluates at the same reading
    of the clock. -/
theorem acquire_of_reported (hnow : env.now = env'.now) (works : env.saves = {}) (works' : env'.saves = {})
    (unfenced : c.state.adoptionFences.keys.card = 0) (hpos : 0 < (c.current env).demand.getD p 0)
    (free : c.state.leases.lookup (leaseKey p k) = none) :
    (∃ e, (c.current env).evaluateAcquireLocked p pp (c.current env).heldUnitsByProfileLocked = .error e ∧
        (c.call env' (.acquire p k n)).2 = .failed e) ∨
      ∃ m l, (c.current env).evaluateAcquireLocked p pp (c.current env).heldUnitsByProfileLocked = .ok m ∧
        (c.call env' (.acquire p k n)).2 = .lease l := by
  have hsave : env.saves.sweep = true := by rw [works]
  have hsave' : env'.saves.sweep = true := by rw [works']
  obtain ⟨hpolicy, hleases, hrotation, hcontenders⟩ := current_order hset hnow hsave hsave'
  have known' : (c.current env').state.policy.profile p = some pp := by rw [(current_state hset env').1, known]
  have hcontender : p ∈ (c.current env').contendersLocked := by
    rw [← hcontenders, mem_contenders, hpolicy, known']
    exact ⟨hpos, rfl⟩
  have absent : (c.current env').state.leases.lookup (leaseKey p k) = none := by
    show (c.sweepExpiredLocked env').1.state.leases.lookup (leaseKey p k) = none
    rw [sweep_lookup hset hsave', free]
    split <;> rfl
  have hreply : (c.call env' (.acquire p k n)).2 = _ :=
    acquire_of_contender hset (sound.profile known).1 slot works' unfenced known' absent hcontender
  rw [← evaluateAcquire_congr hpolicy hleases hrotation hcontenders p pp] at hreply
  cases heval : (c.current env).evaluateAcquireLocked p pp (c.current env).heldUnitsByProfileLocked with
  | error e =>
    rw [heval] at hreply
    exact Or.inl ⟨e, rfl, hreply⟩
  | ok m =>
    rw [heval] at hreply
    exact Or.inr ⟨m, _, rfl, hreply⟩

/-- While no fence is up the capacity that is reported for a profile with known demand is what an acquisition
    of a free slot finds. -/
theorem reported_open (env env' : Env) (hnow : env.now = env'.now) (works : env.saves = {}) (works' : env'.saves = {})
    (unfenced : c.state.adoptionFences.keys.card = 0) (hknown : (c.current env).demandIsKnown p = true)
    (hpos : 0 < (c.current env).demand.getD p 0) (free : c.state.leases.lookup (leaseKey p k) = none) :
    let capacity := (c.current env).profileCapacityLocked p (c.current env).heldUnitsByProfileLocked
    let reply := (c.call env' (.acquire p k n)).2
    (capacity.withholdingReason = none ↔ ∃ l, reply = .lease l) ∧
      (∀ e, reply = .failed e →
        ∃ r, withholdingReasonForError e = some r ∧ capacity.withholdingReason = some r) ∧
      ((c.current env).CursorFits (c.current env).contendersLocked.length ∨ (c.current env).state.strayUnits = 0 →
        (1 ≤ capacity.allocatableWorkers ↔ ∃ l, reply = .lease l)) := by
  obtain ⟨hpolicy, hfences⟩ := current_state hset env
  have known' : (c.current env).state.policy.profile p = some pp := by rw [hpolicy, known]
  have unfenced' : (c.current env).state.adoptionFences.keys.card = 0 := by rw [hfences, unfenced]
  have hreason := (profileCapacity_of_demand known' hknown hpos).1
  have hworkers := one_le_allocatableWorkers (current_sound hset sound) known' unfenced' hknown hpos
  rw [withholding_of_unfenced unfenced'] at hreason
  rcases acquire_of_reported hset sound known slot n hnow works works' unfenced hpos free with
    ⟨e, heval, hreply⟩ | ⟨m, l, heval, hreply⟩
  · obtain ⟨r, hr⟩ := evaluateAcquire_error heval
    simp only [heval] at hreason hworkers
    simp only [hreason, hreply, hr]
    refine ⟨by simp, fun e' he' => ?_, fun agree => (hworkers agree).trans (by simp)⟩
    cases he'
    exact ⟨r, hr, rfl⟩
  · simp only [heval] at hreason hworkers
    simp only [hreason, hreply]
    exact ⟨by simp, fun e' he' => (by cases he'), fun agree => (hworkers agree).trans (by simp)⟩

/-- Behind a fence the demand of a profile is withheld for the pending adoption, and so is an acquisition. -/
theorem reported_fenced (env env' : Env) (works' : env'.saves = {}) (fenced : c.state.adoptionFences.keys.card ≠ 0)
    (hknown : (c.current env).demandIsKnown p = true) (hpos : 0 < (c.current env).demand.getD p 0) :
    let capacity := (c.current env).profileCapacityLocked p (c.current env).heldUnitsByProfileLocked
    capacity.withholdingReason = some .adoptionPending ∧ capacity.allocatableUnits = 0 ∧
      (c.call env' (.acquire p k n)).2 = .failed (.adoptionPending 0) := by
  obtain ⟨hpolicy, hfences⟩ := current_state hset env
  have known' : (c.current env).state.policy.profile p = some pp := by rw [hpolicy, known]
  have hpending : (c.current env).withholding p pp (c.current env).heldUnitsByProfileLocked = some .adoptionPending :=
    if_pos (by rw [hfences]; omega)
  obtain ⟨hreason, hunits, -⟩ := profileCapacity_of_demand known' hknown hpos
  rw [hpending] at hreason hunits
  exact ⟨hreason, hunits, acquire_of_fenced hset (sound.profile known).1 slot (by rw [works']) fenced⟩

end Reported
end Coordinator

/-- In every state of every run from an empty store, for a profile of the policy whose positive demand is
    still known once the sweep at that reading of the clock has run, and for every free slot: without a
    fence, `Status` gives no reason exactly when an acquisition is granted, and otherwise the reason of its
    error; where the cursor is at most the number of contenders, or there is only one, or every lease belongs
    to a profile of the policy, `Status` reports a worker exactly when an acquisition is granted; and behind a
    fence the reason is the pending adoption, there are no units and the acquisition is refused for it. -/
theorem status_agrees (now : Int) (events : List Event) (c : Coordinator)
    (running : ((World.initial now none).exec events).process = .running c) (order order' : RangeOrder String)
    (p k : String) (pp : ProfilePolicy) (known : c.state.policy.profile p = some pp)
    (demand : let d := c.current { now := ((World.initial now none).exec events).now, order }
      d.demandIsKnown p = true ∧ 0 < d.demand.getD p 0)
    (slot : slotKeyPattern k = true) (free : c.state.leases.lookup (leaseKey p k) = none) :
    let w := (World.initial now none).exec events
    let d := c.current { now := w.now, order }
    let granted := fun n => ∃ l, (w.step (.call (.acquire p k n) order' {})).2 = .lease l
    ∃ s, (w.step (.call .status order {})).2 = .snapshot s ∧ (∃ a ∈ s.accounting, a.profileID = p) ∧
      ∀ a ∈ s.accounting, a.profileID = p →
        (c.state.adoptionFences.keys.card = 0 → ∀ n,
          (a.withholdingReason = none ↔ granted n) ∧
          (∀ e, (w.step (.call (.acquire p k n) order' {})).2 = .failed e →
            ∃ r, withholdingReasonForError e = some r ∧ a.withholdingReason = some r) ∧
          (d.rotation ≤ d.contendersLocked.length ∨ d.contendersLocked.length = 1 ∨
            (∀ key l, d.state.leases.lookup key = some l → (d.state.policy.profile l.profileID).isSome = true) →
            (1 ≤ a.allocatableWorkers ↔ granted n))) ∧
        (c.state.adoptionFences.keys.card ≠ 0 →
          a.withholdingReason = some .adoptionPending ∧ a.allocatableUnits = 0 ∧
            ∀ n, (w.step (.call (.acquire p k n) order' {})).2 = .failed (.adoptionPending 0)) := by
  intro w d granted
  have synced : w.Synced := World.exec_synced now none events
  have hset := (synced c running).fences
  have sound : c.state.Sound := World.Synced.ledger synced running ▸ World.exec_sound now events
  have known' : d.state.policy.profile p = some pp := by rw [(current_state hset _).1, known]
  have hcall (call : Call) (o : RangeOrder String) :
      (w.step (.call call o {})).2 = (c.call { now := w.now, order := o } call).2 := by
    simp only [World.step, w, running]
  have hid : pp.profileID = p := (HostPolicy.profile_some known).2
  simp only [granted, hcall]
  refine ⟨d.snapshot, status_reply hset rfl, ⟨d.profileAccounting pp, ((mem_accounting known').mpr rfl).1, hid⟩,
    fun a ha hap => ?_⟩
  obtain rfl := (mem_accounting known').mp ⟨ha, hap⟩
  subst hid
  refine ⟨fun unfenced n => ?_, fun fenced => ?_⟩
  · obtain ⟨hreason, herror, hworkers⟩ :=
      reported_open hset sound known slot n { now := w.now, order } { now := w.now, order := order' } rfl rfl rfl
        unfenced demand.1 demand.2 free
    refine ⟨hreason, herror, fun agree => hworkers ?_⟩
    rcases agree with hfits | hone | named
    · exact Or.inl (Or.inl hfits)
    · exact Or.inl (Or.inr hone)
    · exact Or.inr (DurableState.strayUnits_eq_zero named)
  · have hfenced n :=
      reported_fenced hset sound known slot n { now := w.now, order } { now := w.now, order := order' } rfl
        fenced demand.1 demand.2
    exact ⟨(hfenced 0).1, (hfenced 0).2.1, fun n => (hfenced n).2.2⟩

def trioPolicy : HostPolicy :=
  { generation := 2, totalUnits := 5
    profiles := [{ profileID := "alpha", unitCost := 2 }, { profileID := "beta", unitCost := 1 },
      { profileID := "gamma", unitCost := 1 }] }

/-- Beta and gamma have a worker each, and alpha and beta contend for what is left of a budget. -/
def heldBeside (totalUnits : Int) : List Event :=
  [.start, .plain (.applyPolicy { trioPolicy with totalUnits }),
    .plain (.acquire "beta" "slot-1" 1), .plain (.activate "beta" "slot-1"),
    .plain (.acquire "gamma" "slot-1" 1), .plain (.activate "gamma" "slot-1"),
    .plain (.setDemand "alpha" 1), .plain (.setDemand "beta" 1)]

/-- Of five units there is a worker for alpha. Of three, there is one unit left, and it is not beta's turn. -/
theorem status_agrees_heldBeside :
    (∃ s, (((World.initial 0 none).exec (heldBeside 5)).step (.plain .status)).2 = .snapshot s ∧
      ∃ a ∈ s.accounting, a.profileID = "alpha" ∧ a.withholdingReason = none ∧ 1 ≤ a.allocatableWorkers) ∧
    ∃ s, (((World.initial 0 none).exec (heldBeside 3)).step (.plain .status)).2 = .snapshot s ∧
      ∃ a ∈ s.accounting, a.profileID = "beta" ∧ a.withholdingReason = some .fairShareContention := by
  constructor
  · obtain ⟨s, hstatus, ⟨a, ha, hid⟩, h⟩ := status_agrees 0 (heldBeside 5) _ rfl .sorted .sorted "alpha" "slot-1"
      { profileID := "alpha", unitCost := 2 } (by decide +kernel) (by decide +kernel) (by decide) (by decide +kernel)
    obtain ⟨hreason, -, hworkers⟩ := (h a ha hid).1 (by decide +kernel) 1
    exact ⟨s, hstatus, a, ha, hid, hreason.mpr ⟨_, rfl⟩, (hworkers (Or.inl (by decide +kernel))).mpr ⟨_, rfl⟩⟩
  · obtain ⟨s, hstatus, ⟨a, ha, hid⟩, h⟩ := status_agrees 0 (heldBeside 3) _ rfl .sorted .sorted "beta" "slot-2"
      { profileID := "beta", unitCost := 1 } (by decide +kernel) (by decide +kernel) (by decide) (by decide +kernel)
    obtain ⟨r, hr, hreason⟩ := ((h a ha hid).1 (by decide +kernel) 1).2.1 .fairShareContention (by decide +kernel)
    obtain rfl := Option.some.inj hr
    exact ⟨s, hstatus, a, ha, hid, hreason⟩

/-- The reason and the workers that a reply reports for a profile. -/
def Reply.reported (p : String) : Reply → Option (Option WithholdingReason × Int)
  | .snapshot s => (s.accounting.find? (·.profileID = p)).map fun a => (a.withholdingReason, a.allocatableWorkers)
  | _ => none

/-- Alpha's provisional lease expires while the demand that alpha has reported since is still current, and
    beta's adopted worker holds the only unit. -/
def lapsedLease : List Event :=
  [.start, .plain (.applyPolicy evenPolicy), .plain (.acquire "alpha" "slot-1" 1), .plain (.adopt "beta" "slot-1"),
    .clock 10000000000, .plain (.setDemand "alpha" 1), .clock 30000000000]

/-- Three active workers, one of them of a profile that the next policy drops, and demand after a restart. -/
def droppedProfile : List Event :=
  [.start, .plain (.applyPolicy { trioPolicy with
      generation := 1, profiles := trioPolicy.profiles ++ [{ profileID := "zeta", unitCost := 1 }] }),
    .plain (.acquire "beta" "slot-1" 1), .plain (.activate "beta" "slot-1"),
    .plain (.acquire "gamma" "slot-1" 1), .plain (.activate "gamma" "slot-1"),
    .plain (.acquire "zeta" "slot-1" 1), .plain (.activate "zeta" "slot-1"),
    .plain (.applyPolicy trioPolicy), .start,
    .plain (.setDemand "alpha" 1), .plain (.setDemand "beta" 1), .plain (.setDemand "gamma" 1)]

/-- The sweep drops the demand of a profile with an expired lease, so `Status` gives no reason for the demand
    that an acquisition then finds refused. After a restart, with units held outside the policy, `Status`
    reports no worker for a profile whose acquisition is granted. -/
theorem status_disagrees :
    let w := (World.initial 0 none).exec lapsedLease
    let w' := (World.initial 0 none).exec droppedProfile
    ((w.coordinator?.map fun c => (c.state.adoptionFences.keys.card, c.state.leases.lookup "alpha/slot-2",
        c.demandIsKnown "alpha", c.demand.lookup "alpha", c.demandDeadlines.lookup "alpha")) =
          some (0, none, true, some 1, some 40000000000) ∧ w.now = 30000000000 ∧
        (w.step (.plain .status)).2.reported "alpha" = some (none, 0) ∧
        (w.step (.plain (.acquire "alpha" "slot-2" 1))).2 = .failed .budgetExhausted) ∧
      (w'.coordinator?.map fun c => (c.state.adoptionFences.keys.card, c.state.leases.lookup "alpha/slot-1",
        c.demandIsKnown "alpha", c.demand.lookup "alpha", c.demandDeadlines.lookup "alpha")) =
          some (0, none, true, some 1, some 30000000000) ∧ w'.now = 0 ∧
        (w'.step (.plain .status)).2.reported "alpha" = some (none, 0) ∧
        (w'.step (.plain (.acquire "alpha" "slot-1" 1))).2 = .lease
          { profileID := "alpha", slotKey := "slot-1", leaseID := "alpha/slot-1#7", units := 2, status := .provisional,
            expiresAtUnixNano := 30000000000, grantedAtSequence := 7 } := by
  refine ⟨⟨?_, ?_, ?_, ?_⟩, ?_, ?_, ?_, ?_⟩ <;> decide +kernel

end PitCrew.Admission
