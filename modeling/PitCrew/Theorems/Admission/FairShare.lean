import PitCrew.Theorems.Admission.Headroom
import PitCrew.Base.Share

/-! # Fair shares

The available units are split into rotating shares among the contenders (`Base.share`). The shares add
up only while the cursor is at most the number of contenders: it is seeded from the decision sequence
and reduced by the number of contenders of the last grant, so after a restart, or when contenders leave,
it can be larger, and then the shares promise more units than there are. Where they add up, what
fairness leaves a contender is its own share and what the others have drawn of theirs. -/

namespace PitCrew.Admission
open Base Coordinator

namespace Coordinator

variable {c d : Coordinator} {p : String} {contenders : List String} {available : Int}

theorem guaranteedShare_eq (c : Coordinator) (nonempty : contenders ≠ []) (index available : Int) :
    c.guaranteedShareLocked contenders index available = share c.rotation contenders.length index available := by
  have hcount : (contenders.length : Int) ≠ 0 := by
    have := List.length_pos_iff.mpr nonempty
    omega
  unfold guaranteedShareLocked
  rw [if_neg hcount]
  rfl

def shareOf (c : Coordinator) (available : Int) (p : String) : Int :=
  c.guaranteedShareLocked c.contendersLocked (c.contendersLocked.idxOf p) available

def sharedUnits (c : Coordinator) (p : String) : Int := max (c.state.heldBy p - c.reservedUnitsLocked p) 0

/-- What the contenders other than `p` hold of their shares. -/
def drawnUnits (c : Coordinator) (available : Int) (p : String) : Int :=
  (c.contendersLocked.map fun o => if o = p then 0 else min (c.shareOf available o) (c.sharedUnits o)).sum

theorem contenders_nodup (c : Coordinator) : c.contendersLocked.Nodup := sortedList_nodup _

/-- What fairness leaves a profile: the available units without the open shares of the other contenders. -/
theorem fairAllocatable_eq (nonempty : c.contendersLocked ≠ []) (p : String) (available : Int) :
    (c.fairAllocatableUnitsLocked p c.heldUnitsByProfileLocked available).1 =
      max (available - (c.contendersLocked.map fun o =>
        if o = p then 0 else max (c.shareOf available o - c.sharedUnits o) 0).sum) 0 := by
  have hlen : ¬c.contendersLocked.length = 0 := by
    rw [List.length_eq_zero_iff]
    exact nonempty
  have hopen (o : String) :
    (if c.sharedUnits o < c.shareOf available o then c.shareOf available o - c.sharedUnits o else 0) =
      max (c.shareOf available o - c.sharedUnits o) 0 := by
    split <;> omega
  unfold fairAllocatableUnitsLocked
  rw [if_neg hlen]
  dsimp only
  congr 2
  rw [map_zipIdx_of_nodup c.contenders_nodup fun o i =>
    if o = p then 0
    else if max (c.heldUnitsByProfileLocked.getD o 0 - c.reservedUnitsLocked o) 0 <
        c.guaranteedShareLocked c.contendersLocked i available then
      c.guaranteedShareLocked c.contendersLocked i available -
        max (c.heldUnitsByProfileLocked.getD o 0 - c.reservedUnitsLocked o) 0
    else 0]
  refine congrArg List.sum (List.map_congr_left fun o _ => ?_)
  rw [held_getD, ← hopen]
  rfl

theorem shareOf_nonneg (ha : 0 ≤ available) (hp : p ∈ c.contendersLocked) : 0 ≤ c.shareOf available p := by
  have nonempty := List.ne_nil_of_mem hp
  have hpos : (0 : Int) < c.contendersLocked.length := by exact_mod_cast List.length_pos_iff.mpr nonempty
  rw [shareOf, guaranteedShare_eq c nonempty]
  exact share_nonneg hpos ha

theorem shareOf_mono {available' : Int} (hle : available ≤ available') (hp : p ∈ c.contendersLocked) :
    c.shareOf available p ≤ c.shareOf available' p := by
  have nonempty := List.ne_nil_of_mem hp
  have hpos : (0 : Int) < c.contendersLocked.length := by exact_mod_cast List.length_pos_iff.mpr nonempty
  rw [shareOf, shareOf, guaranteedShare_eq c nonempty, guaranteedShare_eq c nonempty]
  exact share_mono hpos hle

theorem drawnUnits_nonneg (ha : 0 ≤ available) : 0 ≤ c.drawnUnits available p := by
  refine List.sum_nonneg fun n hn => ?_
  obtain ⟨o, ho, rfl⟩ := List.mem_map.mp hn
  split
  · exact le_rfl
  · exact le_min (shareOf_nonneg ha ho) (le_max_right _ _)

/-- The cursor is where the shares of `n` contenders add up. -/
def CursorFits (c : Coordinator) (n : Nat) : Prop := c.rotation ≤ n ∨ n = 1

instance (c : Coordinator) (n : Nat) : Decidable (c.CursorFits n) := inferInstanceAs (Decidable (_ ∨ _))

theorem sum_shareOf (nonempty : c.contendersLocked ≠ []) (fits : c.CursorFits c.contendersLocked.length)
    (ha : 0 ≤ available) : (c.contendersLocked.map (c.shareOf available)).sum = available := by
  have hpos := List.length_pos_iff.mpr nonempty
  have hsum := sum_map_idxOf c.contenders_nodup fun i : Nat => share c.rotation c.contendersLocked.length i available
  have hshare : c.contendersLocked.map (c.shareOf available) = c.contendersLocked.map fun o =>
      share c.rotation c.contendersLocked.length (c.contendersLocked.idxOf o : Nat) available :=
    List.map_congr_left fun o _ => guaranteedShare_eq c nonempty _ _
  rw [hshare, hsum]
  exact (sum_share_iff hpos).mpr fits available ha

/-- Where the shares add up, fairness leaves a contender its share and what the others have drawn of
    theirs. -/
theorem fairAllocatable_of_fits (hp : p ∈ c.contendersLocked) (fits : c.CursorFits c.contendersLocked.length)
    (ha : 0 ≤ available) :
    (c.fairAllocatableUnitsLocked p c.heldUnitsByProfileLocked available).1 =
      c.shareOf available p + c.drawnUnits available p := by
  have nonempty := List.ne_nil_of_mem hp
  have hsum := sum_shareOf nonempty fits ha
  rw [sum_map_split id p] at hsum
  have hown :
      (c.contendersLocked.map fun o => if id o = p then c.shareOf available o else 0).sum = c.shareOf available p :=
    sum_map_at id (c.shareOf available) (by rw [List.map_id]; exact c.contenders_nodup) hp
  have hdraw : (c.contendersLocked.map fun o => if id o = p then 0 else c.shareOf available o).sum =
      (c.contendersLocked.map fun o => if o = p then 0 else max (c.shareOf available o - c.sharedUnits o) 0).sum +
        c.drawnUnits available p := by
    rw [drawnUnits, ← List.sum_map_add]
    refine congrArg List.sum (List.map_congr_left fun o _ => ?_)
    by_cases ho : o = p
    · simp [ho]
    · simp only [id, ho, if_false]
      omega
  have hshare := shareOf_nonneg ha hp
  have hdrawn : 0 ≤ c.drawnUnits available p := drawnUnits_nonneg ha
  rw [fairAllocatable_eq nonempty]
  omega

/-! ## Shares that add up -/

/-- The shares of the contenders are as even as integers allow and add up to the available units. -/
structure SharesPartition (c : Coordinator) (contenders : List String) (available : Int) : Prop where
  each : ∀ i < contenders.length,
    c.guaranteedShareLocked contenders i available = available / contenders.length ∨
      c.guaranteedShareLocked contenders i available = available / contenders.length + 1
  sum : ∑ i ∈ Finset.range contenders.length, c.guaranteedShareLocked contenders i available = available

/-- A contender that is left to the shared pool, and whose share holds one of its workers, is admitted. -/
def HonoursShares (d : Coordinator) : Prop :=
  ∀ p ∈ d.contendersLocked, ∀ pp, d.state.policy.profile p = some pp →
    pp.unitCost ≤ d.freeUnits → d.ownRemaining p pp < pp.unitCost → pp.unitCost ≤ d.available p →
    pp.unitCost ≤ d.shareOf (d.available p) p →
    ∃ n, d.evaluateAcquireLocked p pp d.heldUnitsByProfileLocked = .ok n

theorem sharesPartition_iff (c : Coordinator) (nonempty : contenders ≠ []) :
    (∀ available, 0 ≤ available → c.SharesPartition contenders available) ↔ c.CursorFits contenders.length := by
  have hpos := List.length_pos_iff.mpr nonempty
  have hsum (available : Int) : ∑ i ∈ Finset.range contenders.length, c.guaranteedShareLocked contenders i available =
      ∑ i ∈ Finset.range contenders.length, share c.rotation contenders.length i available :=
    Finset.sum_congr rfl fun i _ => guaranteedShare_eq c nonempty i available
  refine Iff.trans ⟨fun h available ha => ?_, fun h available ha => ⟨fun i _ => ?_, ?_⟩⟩ (sum_share_iff hpos)
  · rw [← hsum]
    exact (h available ha).sum
  · rw [guaranteedShare_eq c nonempty, ← Int.tdiv_eq_ediv_of_nonneg ha]
    exact share_cases _ _ _ _
  · rw [hsum]
    exact h available ha

theorem honoursShares_of_fits (fits : d.CursorFits d.contendersLocked.length) : d.HonoursShares := by
  intro p hp pp _ hfree hown havail hshare
  have hfair : pp.unitCost ≤ d.fairUnits p := by
    unfold fairUnits
    by_cases ha : 0 ≤ d.available p
    · have hdrawn : 0 ≤ d.drawnUnits (d.available p) p := drawnUnits_nonneg ha
      rw [fairAllocatable_of_fits hp fits ha]
      omega
    · rw [fairAllocatable_eq (List.ne_nil_of_mem hp)]
      omega
  rw [evaluateAcquire_eq, if_neg (by omega), if_neg (by omega), if_neg (by omega), if_pos hfair]
  exact ⟨_, rfl⟩

end Coordinator

/-- For every coordinator and every list of contenders: the shares partition every amount, and every
    contender whose share holds a worker is admitted from the shared pool whatever the demand, exactly
    when the cursor is at most the number of contenders or there is only one. -/
theorem guaranteedShares_iff (c : Coordinator) (contenders : List String) (nonempty : contenders ≠ []) :
    ((∀ available, 0 ≤ available → c.SharesPartition contenders available) ∧
      ∀ d, Alike c d → d.contendersLocked = contenders → d.HonoursShares) ↔
    c.rotation ≤ contenders.length ∨ contenders.length = 1 := by
  constructor
  · exact fun h => (sharesPartition_iff c nonempty).mp h.1
  · intro fits
    refine ⟨(sharesPartition_iff c nonempty).mpr fits, fun d alike hcontenders => honoursShares_of_fits ?_⟩
    rw [hcontenders, CursorFits, alike.rotation]
    exact fits

/-- Two profiles of cost one share one unit. -/
def evenPolicy : HostPolicy :=
  { generation := 1, totalUnits := 1
    profiles := [{ profileID := "alpha", unitCost := 1 }, { profileID := "beta", unitCost := 1 }] }

/-- Three decisions before a restart, and both profiles demand a worker after it. -/
def restartedContention : List Event :=
  [.start, .plain (.applyPolicy evenPolicy), .plain (.acquire "alpha" "slot-1" 1), .plain (.activate "alpha" "slot-1"),
    .plain (.release "alpha" "slot-1"), .start, .plain (.setDemand "alpha" 1), .plain (.setDemand "beta" 1)]

/-- The restarted cursor promises the one free unit to both contenders, and both are refused. -/
theorem restarted_cursor_overcommits :
    let w := (World.initial 0 none).exec restartedContention
    (w.coordinator?.map fun c => (c.rotation, c.contendersLocked, c.freeUnits,
      c.guaranteedShareLocked c.contendersLocked 0 1, c.guaranteedShareLocked c.contendersLocked 1 1)) =
        some (3, ["alpha", "beta"], 1, 1, 1) ∧
      (w.step (.plain (.acquire "alpha" "slot-1" 1))).2 = .failed .fairShareContention ∧
      (w.step (.plain (.acquire "beta" "slot-1" 1))).2 = .failed .fairShareContention := by
  decide +kernel

theorem guaranteedShares_iff_seeded :
    let c := Coordinator.restored {} 1 { newDurableState with decisionSequence := 2 }
    ∀ available, 0 ≤ available → c.SharesPartition ["alpha", "beta", "gamma"] available :=
  ((guaranteedShares_iff (Coordinator.restored {} 1 { newDurableState with decisionSequence := 2 })
    ["alpha", "beta", "gamma"] (by decide)).mpr (by decide)).1

/-! ## Who is admitted -/

namespace Coordinator

variable {c d : Coordinator} {p : String} {pp : ProfilePolicy}

/-- One more worker of a contender fits its own reservation, or its share and what the others have drawn
    of theirs. -/
def HasTurn (d : Coordinator) (p : String) (pp : ProfilePolicy) : Prop :=
  pp.unitCost ≤ d.ownRemaining p pp ∨ pp.unitCost ≤ d.shareOf (d.available p) p + d.drawnUnits (d.available p) p

theorem available_le_free (d : Coordinator) (p : String) : d.available p ≤ d.freeUnits := by
  have := protectedNonBorrowable_nonneg d p
  unfold available
  omega

instance (d : Coordinator) (p : String) (pp : ProfilePolicy) : Decidable (d.HasTurn p pp) :=
  inferInstanceAs (Decidable (_ ∨ _))

/-- Where the pool has room for a worker of a contender and the shares add up, the decision is whether
    it has its turn. -/
theorem evaluateAcquire_of_room (hp : p ∈ d.contendersLocked) (fits : d.CursorFits d.contendersLocked.length)
    (hcost : 1 ≤ pp.unitCost) (room : pp.unitCost ≤ d.available p) :
    (d.HasTurn p pp → ∃ n, d.evaluateAcquireLocked p pp d.heldUnitsByProfileLocked = .ok n) ∧
      (¬ d.HasTurn p pp → d.evaluateAcquireLocked p pp d.heldUnitsByProfileLocked = .error .fairShareContention) := by
  have hfree := available_le_free d p
  have hfair := fairAllocatable_of_fits hp fits (le_trans (by omega) room)
  rw [evaluateAcquire_eq, if_neg (by omega)]
  unfold HasTurn fairUnits
  rw [hfair]
  by_cases hown : pp.unitCost ≤ d.ownRemaining p pp
  · rw [if_pos hown]
    exact ⟨fun _ => ⟨0, rfl⟩, fun h => absurd (Or.inl hown) h⟩
  · rw [if_neg hown, if_neg (by omega)]
    by_cases hshare : pp.unitCost ≤ d.shareOf (d.available p) p + d.drawnUnits (d.available p) p
    · rw [if_pos hshare]
      exact ⟨fun _ => ⟨_, rfl⟩, fun h => absurd (Or.inr hshare) h⟩
    · rw [if_neg hshare]
      exact ⟨fun h => h.elim (absurd · hown) (absurd · hshare), fun _ => rfl⟩

theorem exists_hasTurn (nonempty : d.contendersLocked ≠ []) (fits : d.CursorFits d.contendersLocked.length)
    (positive : ∀ p ∈ d.contendersLocked, 0 < d.available p) :
    ∃ p ∈ d.contendersLocked, ∀ pp : ProfilePolicy, pp.unitCost = 1 → d.HasTurn p pp := by
  obtain ⟨i, hi, hshare⟩ := exists_share_pos (List.length_pos_iff.mpr nonempty) fits
  have hmem : d.contendersLocked[i] ∈ d.contendersLocked := List.getElem_mem hi
  refine ⟨_, hmem, fun pp hcost => Or.inr ?_⟩
  have hpos := positive _ hmem
  have hdrawn : 0 ≤ d.drawnUnits (d.available d.contendersLocked[i]) d.contendersLocked[i] := drawnUnits_nonneg hpos.le
  have hown := hshare _ hpos
  rw [shareOf, d.contenders_nodup.idxOf_getElem, guaranteedShare_eq d nonempty]
  omega

end Coordinator

/-- In every state of every run from an empty store without a fence, where the shares of the contenders
    add up and the pool has room for a worker of each of them: a contender's acquisition of a free slot
    at that reading of the clock is granted exactly when the contender has its turn and refused for
    contention otherwise, and if all unit costs are one then some contender has its turn. -/
theorem contender_granted_iff (now : Int) (events : List Event) (order : RangeOrder String) (c : Coordinator)
    (running : ((World.initial now none).exec events).process = .running c)
    (unfenced : c.state.adoptionFences.keys.card = 0)
    (fits : let d := c.current { now := ((World.initial now none).exec events).now, order }
      d.CursorFits d.contendersLocked.length)
    (room : let d := c.current { now := ((World.initial now none).exec events).now, order }
      ∀ p ∈ d.contendersLocked, ∀ pp ∈ d.state.policy.profile p, pp.unitCost ≤ d.available p) :
    let w := (World.initial now none).exec events
    let d := c.current { now := w.now, order }
    (∀ p ∈ d.contendersLocked, ∀ pp ∈ d.state.policy.profile p, ∀ k n, slotKeyPattern k = true →
      d.state.leases.lookup (leaseKey p k) = none →
      ((∃ l, (w.step (.call (.acquire p k n) order {})).2 = .lease l) ↔ d.HasTurn p pp) ∧
        (¬ d.HasTurn p pp → (w.step (.call (.acquire p k n) order {})).2 = .failed .fairShareContention)) ∧
    (d.contendersLocked ≠ [] → (∀ p ∈ d.contendersLocked, ∀ pp ∈ d.state.policy.profile p, pp.unitCost = 1) →
      ∃ p ∈ d.contendersLocked, ∀ pp ∈ d.state.policy.profile p, ∀ k n, slotKeyPattern k = true →
        d.state.leases.lookup (leaseKey p k) = none → ∃ l, (w.step (.call (.acquire p k n) order {})).2 =
          .lease l) := by
  intro w d
  have synced : w.Synced := World.exec_synced now none events
  have hset := (synced c running).fences
  have hsound : c.state.Sound := World.Synced.ledger synced running ▸ World.exec_sound now events
  have hpolicy : d.state.policy = c.state.policy := (current_state hset _).1
  have hvalid {p : String} {pp : ProfilePolicy} (known : d.state.policy.profile p = some pp) :
      profileIDPattern p = true ∧ 1 ≤ pp.unitCost := by
    rw [hpolicy] at known
    exact hsound.profile known
  have decided (p : String) (hp : p ∈ d.contendersLocked) (pp : ProfilePolicy) (known : pp ∈ d.state.policy.profile p)
      (k : String) (n : Int) (hk : slotKeyPattern k = true)
      (absent : d.state.leases.lookup (leaseKey p k) = none) :
      ((∃ l, (w.step (.call (.acquire p k n) order {})).2 = .lease l) ↔ d.HasTurn p pp) ∧
        (¬ d.HasTurn p pp → (w.step (.call (.acquire p k n) order {})).2 = .failed .fairShareContention) := by
    obtain ⟨hpat, hcost⟩ := hvalid known
    obtain ⟨hturn, hnone⟩ := evaluateAcquire_of_room hp fits hcost (room p hp pp known)
    have hreply := acquire_of_contender (n := n) hset hpat hk rfl unfenced known absent hp
    unfold World.step
    rw [running]
    dsimp only
    rw [hreply]
    by_cases h : d.HasTurn p pp
    · obtain ⟨m, hm⟩ := hturn h
      rw [hm]
      exact ⟨iff_of_true ⟨_, rfl⟩ h, absurd h⟩
    · rw [hnone h]
      exact ⟨iff_of_false (fun ⟨_, hl⟩ => by cases hl) h, fun _ => rfl⟩
  refine ⟨decided, fun nonempty hone => ?_⟩
  have positive (p : String) (hp : p ∈ d.contendersLocked) : 0 < d.available p := by
    obtain ⟨pp, known⟩ := Option.isSome_iff_exists.mp (mem_contenders.mp hp).2
    have hroom : pp.unitCost ≤ d.available p := room p hp pp known
    have := (hvalid known).2
    omega
  obtain ⟨p, hp, hturn⟩ := exists_hasTurn nonempty fits positive
  exact ⟨p, hp, fun pp known k n hk absent => (decided p hp pp known k n hk absent).1.mpr
    (hturn pp (hone p hp pp known))⟩

/-- Two profiles of cost two share two units, and both demand a worker. -/
def widePolicy : HostPolicy :=
  { generation := 1, totalUnits := 2
    profiles := [{ profileID := "alpha", unitCost := 2 }, { profileID := "beta", unitCost := 2 }] }

def wideContention : List Event :=
  [.start, .plain (.applyPolicy widePolicy), .plain (.setDemand "alpha" 1), .plain (.setDemand "beta" 1)]

/-- The pool could hold a worker of either contender, and the share of the other blocks both. -/
theorem wide_contenders_blocked :
    let w := (World.initial 0 none).exec wideContention
    (w.coordinator?.map fun c => (c.rotation, c.contendersLocked, c.available "alpha", c.available "beta",
      c.state.adoptionFences.keys.card)) = some (0, ["alpha", "beta"], 2, 2, 0) ∧
      (w.step (.plain (.acquire "alpha" "slot-1" 1))).2 = .failed .fairShareContention ∧
      (w.step (.plain (.acquire "beta" "slot-1" 1))).2 = .failed .fairShareContention := by
  decide +kernel

/-- Before any decision the first of two contenders for one unit has its turn, and the other one is refused. -/
theorem contender_granted_iff_even :
    let w := (World.initial 0 none).exec
      [.start, .plain (.applyPolicy evenPolicy), .plain (.setDemand "alpha" 1), .plain (.setDemand "beta" 1)]
    ∀ n, (∃ l, (w.step (.call (.acquire "alpha" "slot-1" n) .sorted {})).2 = .lease l) ∧
      (w.step (.call (.acquire "beta" "slot-1" n) .sorted {})).2 = .failed .fairShareContention := by
  intro w n
  have h := (contender_granted_iff 0 [.start, .plain (.applyPolicy evenPolicy), .plain (.setDemand "alpha" 1),
    .plain (.setDemand "beta" 1)] .sorted _ rfl (by decide +kernel) (by decide +kernel) (by decide +kernel)).1
  exact ⟨(h "alpha" (by decide +kernel) _ rfl "slot-1" n (by decide) rfl).1.mpr (by decide +kernel),
    (h "beta" (by decide +kernel) _ rfl "slot-1" n (by decide) rfl).2 (by decide +kernel)⟩

end PitCrew.Admission
