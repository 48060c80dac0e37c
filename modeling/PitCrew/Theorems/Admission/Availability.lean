import PitCrew.Theorems.Admission.Status

/-! # Host-wide availability

`Status` reports the budget that the profiles of the policy leave, while the ledger may also hold leases of
profiles that a later policy dropped. What it reports as available is what the leases leave exactly when no
such lease outlives the sweep, or when the profiles of the policy use up the budget alone. -/

namespace PitCrew.Admission
open Base Coordinator

/-- What a snapshot says about the host as a whole agrees with the leases it lists. -/
structure Snapshot.Truthful (s : Snapshot) : Prop where
  available : s.availableUnits = max (s.effectiveTotalUnits - (s.leases.map (·.units)).sum) 0
  allocatable : ∀ a ∈ s.accounting, a.allocatableUnits ≤ s.availableUnits

/-! ## The sums of a snapshot -/

theorem sum_sortedStateValues {ν : Type} (f : ν → Int) (values : Map String ν) :
    ((sortedStateValues values).map f).sum = values.sumOf f :=
  Map.sum_filterMap_lookup (by rw [sortedList, sortMultiset_eq_sort, Multiset.sort_eq])

theorem DurableState.Sound.profiles_distinct {s : DurableState} (h : s.Sound) :
    (s.policy.profiles.map (·.profileID)).Nodup := by
  rcases h.policy with hp | hp
  · rw [hp]
    exact List.nodup_nil
  · exact (HostPolicy.valid_of_validate hp).distinct

namespace Coordinator
variable {c d : Coordinator} {env : Env} {p : String} {pp : ProfilePolicy}

theorem accounting_heldUnits (sound : c.state.Sound) :
    (c.profileAccounting pp).heldUnits = c.state.heldBy pp.profileID := by
  show c.state.leases.sumOf _ + c.state.leases.sumOf _ = c.state.leases.sumOf _
  rw [← Map.sumOf_add]
  refine congrArg Multiset.sum (Multiset.map_congr rfl fun e he => ?_)
  have hl := Map.mem_entries_iff.mp he
  by_cases hp : e.2.profileID = pp.profileID
  · rcases (sound.leases _ _ hl).valid.status with hs | hs <;> simp [hp, hs]
  · simp [hp]

theorem sum_accounting (sound : c.state.Sound) :
    (c.snapshot.accounting.map (·.heldUnits)).sum =
      (c.state.policy.profiles.map fun pp => c.state.heldBy pp.profileID).sum := by
  have hlist : c.snapshot.accounting.map (·.heldUnits) = c.state.policy.sortedProfileIDs.map c.state.heldBy := by
    show (c.state.policy.sortedProfileIDs.filterMap _).map _ = _
    rw [List.map_filterMap, ← List.filterMap_eq_map]
    refine List.filterMap_congr fun id hid => ?_
    rw [HostPolicy.sortedProfileIDs, List.mem_insertionSort] at hid
    obtain ⟨pp, hpp⟩ := Option.isSome_iff_exists.mp (DurableState.profile_isSome.mpr hid)
    rw [hpp, Option.map_some, Option.map_some, accounting_heldUnits sound, (HostPolicy.profile_some hpp).2]
    rfl
  rw [hlist, HostPolicy.sortedProfileIDs, ((List.perm_insertionSort _ _).map _).sum_eq, List.map_map]
  rfl

theorem availableUnits_eq (sound : c.state.Sound) : c.snapshot.availableUnits = c.currentFree := by
  show max (_ - (c.snapshot.accounting.map (·.heldUnits)).sum) 0 = _
  rw [sum_accounting sound]
  rfl

/-! ## What is allocatable is available -/

theorem fairAllocatable_le {available : Int} (ha : 0 ≤ available) :
    (c.fairAllocatableUnitsLocked p c.heldUnitsByProfileLocked available).1 ≤ available := by
  by_cases nonempty : c.contendersLocked = []
  · simp [fairAllocatableUnitsLocked, nonempty, ha]
  · rw [fairAllocatable_eq nonempty]
    have hopen : 0 ≤ (c.contendersLocked.map fun o =>
        if o = p then 0 else max (c.shareOf available o - c.sharedUnits o) 0).sum := by
      refine List.sum_nonneg fun n hn => ?_
      obtain ⟨o, -, rfl⟩ := List.mem_map.mp hn
      split
      · exact le_rfl
      · exact le_max_right _ _
    omega

theorem currentAvailable_le : c.currentAvailable p ≤ c.currentFree := by
  have := protectedNonBorrowable_nonneg c p
  have : 0 ≤ c.currentFree := le_max_right _ _
  unfold currentAvailable
  omega

theorem allocatable_le (c : Coordinator) (p : String) :
    (c.profileCapacityLocked p c.heldUnitsByProfileLocked).allocatableUnits ≤ c.currentFree := by
  have hfree : 0 ≤ c.currentFree := le_max_right _ _
  have hle : c.currentAvailable p ≤ c.currentFree := currentAvailable_le
  have hfair :
      (c.fairAllocatableUnitsLocked p c.heldUnitsByProfileLocked (c.currentAvailable p)).1 ≤ c.currentAvailable p :=
    fairAllocatable_le (le_max_right _ _)
  cases known : c.state.policy.profile p with
  | none =>
    unfold profileCapacityLocked
    rw [known]
    exact hfree
  | some pp =>
    have hcount : c.currentFree = max (c.state.policy.totalUnits -
        (c.state.policy.profiles.map fun pp => c.heldUnitsByProfileLocked.getD pp.profileID 0).sum) 0 := by
      simp only [currentFree, held_getD]
    unfold currentAvailable at hle hfair
    unfold profileCapacityLocked
    rw [known]
    dsimp only
    rw [← hcount]
    split_ifs <;> omega

/-! ## The leases that the sweep leaves -/

def Outlives (c : Coordinator) (now : Int) (l : Lease) : Prop :=
  l.status = .provisional → (c.provisionalDeadlines.lookup l.key).any (now < ·) = true

instance (c : Coordinator) (now : Int) (l : Lease) : Decidable (c.Outlives now l) := inferInstanceAs (Decidable (_ → _))

/-- Every lease that the sweep leaves belongs to a profile of the policy, or these profiles use up the
    budget. -/
def PolicyCounts (c : Coordinator) (now : Int) : Prop :=
  (∀ key l, c.state.leases.lookup key = some l → c.Outlives now l →
    (c.state.policy.profile l.profileID).isSome = true) ∨
    c.state.policy.totalUnits ≤ c.state.leases.sumOf fun l =>
      if c.Outlives now l then if l.profileID ∈ c.state.policy.profiles.map (·.profileID) then l.units else 0 else 0

theorem status_snapshot (hset : c.state.FencesSet) {s : Snapshot} (h : (c.call env .status).2 = .snapshot s) :
    s = (c.current env).snapshot ∧
      (c.current env).state.leases = c.state.leases.filterKeys (· ∉ (c.expiredLeases env).map Prod.fst) := by
  unfold call status swept at h
  unfold current expireStaleDemandLocked
  rcases sweep_cases hset env with ⟨hnil, hs⟩ | ⟨-, -, hs⟩ | ⟨-, -, hs⟩
  · rw [hs] at h ⊢
    refine ⟨(Reply.snapshot.inj h).symm, ?_⟩
    rw [hnil]
    exact (Map.filterKeys_eq_self fun _ _ => rfl).symm
  · rw [hs] at h
    cases h
  · rw [hs] at h ⊢
    refine ⟨(Reply.snapshot.inj h).symm, Finmap.ext_lookup fun key => ?_⟩
    rw [Map.lookup_filterKeys]
    exact (expelled_leases key).trans (by by_cases hk : key ∈ (c.expiredLeases env).map Prod.fst <;> simp [hk])

theorem outlives_iff (sound : c.state.Sound) {key : String} {l : Lease} (hl : c.state.leases.lookup key = some l) :
    key ∉ (c.expiredLeases env).map Prod.fst ↔ c.Outlives env.now l := by
  have hkey : l.key = key := (sound.leases key l hl).key.symm
  have hdue : (c.provisionalDeadlines.lookup key).any (env.now < ·) = true ↔
      ¬∀ d, c.provisionalDeadlines.lookup key = some d → d ≤ env.now := by
    cases c.provisionalDeadlines.lookup key <;> simp
  rw [Outlives, hkey, hdue, ← not_and, not_iff_not, List.mem_map]
  constructor
  · rintro ⟨e, he, rfl⟩
    obtain ⟨hl', hexpired⟩ := mem_expiredLeases.mp he
    rw [hl, Option.some.injEq] at hl'
    rwa [hl']
  · intro hexpired
    exact ⟨(key, l), mem_expiredLeases.mpr ⟨hl, hexpired⟩, rfl⟩

theorem strayUnits_eq_zero_iff {s : DurableState} (sound : s.Sound) : s.strayUnits = 0 ↔
    ∀ key l, s.leases.lookup key = some l → (s.policy.profile l.profileID).isSome = true := by
  refine ⟨fun hzero key l hl => ?_, DurableState.strayUnits_eq_zero⟩
  by_contra hstray
  have hunits := (sound.leases key l hl).valid.units
  have hnonneg : 0 ≤ Map.sumOf (fun l => if l.profileID ∈ s.policy.profiles.map (·.profileID) then 0 else l.units)
      (s.leases.erase key) := by
    refine Map.sumOf_nonneg fun e he => ?_
    split
    · exact le_rfl
    · exact heldUnits_nonneg_of sound e.1 e.2 (Map.lookup_of_erase (Map.mem_entries_iff.mp he)).2
  rw [Map.sumOf_erase hl, if_neg (fun h => hstray (DurableState.profile_isSome.mpr h))] at hnonneg
  unfold DurableState.strayUnits at hzero
  omega

/-- What the policy's own profiles leave is what all leases leave when there are no others or nothing is
    left. -/
theorem currentFree_iff (sound : d.state.Sound) :
    d.currentFree = max (d.state.policy.totalUnits - d.state.heldUnits) 0 ↔
    d.state.strayUnits = 0 ∨
      d.state.policy.totalUnits ≤ (d.state.policy.profiles.map fun pp => d.state.heldBy pp.profileID).sum := by
  have hsum := DurableState.sum_heldBy sound.profiles_distinct
  have hstray := DurableState.strayUnits_nonneg sound
  unfold currentFree
  omega

theorem policyCounts_iff (sound : c.state.Sound) (hset : c.state.FencesSet)
    (hleases : (c.current env).state.leases = c.state.leases.filterKeys (· ∉ (c.expiredLeases env).map Prod.fst)) :
    c.PolicyCounts env.now ↔ (c.current env).state.strayUnits = 0 ∨ (c.current env).state.policy.totalUnits ≤
      ((c.current env).state.policy.profiles.map fun pp => (c.current env).state.heldBy pp.profileID).sum := by
  have sound' : (c.current env).state.Sound := current_sound hset sound
  have hpolicy := (current_state hset env).1
  have hkept (key : String) (l : Lease) (hl : c.state.leases.lookup key = some l) :
      decide (key ∉ (c.expiredLeases env).map Prod.fst) = true ↔ c.Outlives env.now l := by
    rw [decide_eq_true_iff]
    exact outlives_iff sound hl
  unfold PolicyCounts
  refine or_congr ?_ ?_
  · rw [strayUnits_eq_zero_iff sound', hpolicy, hleases]
    constructor
    · intro named key l hl
      rw [Map.lookup_filterKeys] at hl
      split at hl
      case isTrue hkey => exact named key l hl ((hkept key l hl).mp hkey)
      case isFalse => cases hl
    · intro named key l hl hlives
      exact named key l (by rw [Map.lookup_filterKeys, if_pos ((hkept key l hl).mpr hlives), hl])
  · unfold DurableState.heldBy
    rw [Map.sum_sumOf sound'.profiles_distinct, hleases, hpolicy, Map.sumOf_filterKeys hkept]

end Coordinator

/-- In every state of every run from an empty store: what `Status` reports as available is what the reported
    leases leave of the budget, and no profile is told more than that, exactly when every lease that is not
    expired belongs to a profile of the policy or these profiles alone use up the budget. -/
theorem availability_truthful_iff (now : Int) (events : List Event) (c : Coordinator)
    (running : ((World.initial now none).exec events).process = .running c) (order : RangeOrder String) (saves : Saves)
    (s : Snapshot)
    (reported : (((World.initial now none).exec events).step (.call .status order saves)).2 = .snapshot s) :
    s.Truthful ↔ c.PolicyCounts ((World.initial now none).exec events).now := by
  set w := (World.initial now none).exec events with hw
  have synced : w.Synced := World.exec_synced now none events
  have hset := (synced c running).fences
  have sound : c.state.Sound := World.Synced.ledger synced running ▸ World.exec_sound now events
  let env : Env := { now := w.now, order, saves }
  have hreply : (c.call env .status).2 = .snapshot s := by
    simpa only [World.step, running] using reported
  obtain ⟨rfl, hleases⟩ := status_snapshot hset hreply
  have sound' : (c.current env).state.Sound := current_sound hset sound
  have hsum : ((c.current env).snapshot.leases.map (·.units)).sum = (c.current env).state.heldUnits :=
    sum_sortedStateValues _ _
  rw [policyCounts_iff sound hset hleases, ← currentFree_iff sound', ← availableUnits_eq sound', ← hsum]
  refine ⟨fun truthful => truthful.available, fun havailable => ⟨havailable, fun a ha => ?_⟩⟩
  obtain ⟨id, -, hmap⟩ := List.mem_filterMap.mp ha
  obtain ⟨pp, -, rfl⟩ := Option.map_eq_some_iff.mp hmap
  rw [availableUnits_eq sound']
  exact allocatable_le _ _

/-- The budget, the available units and the units of the leases that a reply reports. -/
def Reply.availability : Reply → Option (Int × Int × Int)
  | .snapshot s => some (s.effectiveTotalUnits, s.availableUnits, (s.leases.map (·.units)).sum)
  | _ => none

/-- Of five units three are held, one of them by a profile that the policy dropped; `Status` reports three
    available units. -/
theorem dropped_profile_overstates :
    (((World.initial 0 none).exec droppedProfile).step (.plain .status)).2.availability = some (5, 3, 3) := by
  decide +kernel

/-- Two profiles of the policy hold a unit each. -/
theorem availability_truthful_iff_heldBeside :
    (((World.initial 0 none).exec (heldBeside 5)).step (.plain .status)).2.availability = some (5, 3, 2) ∧
      ∃ s, (((World.initial 0 none).exec (heldBeside 5)).step (.plain .status)).2 = .snapshot s ∧ s.Truthful := by
  refine ⟨by decide +kernel, _, rfl, (availability_truthful_iff 0 (heldBeside 5) _ rfl .sorted {} _ rfl).mpr
    (Or.inl fun key l hl _ => ?_)⟩
  have hnamed : ∀ e ∈ ((World.initial 0 none).exec (heldBeside 5)).ledger.leases.entriesIn .sorted,
      (trioPolicy.profile e.2.profileID).isSome = true := by decide +kernel
  exact hnamed (key, l) (Map.mem_entriesIn.mpr hl)

end PitCrew.Admission
