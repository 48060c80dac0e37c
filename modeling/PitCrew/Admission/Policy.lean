import PitCrew.Admission.Identity

/-! # Host policies

The versioned budget of a host and the cost and reservation of each profile
(`manager/admission/policy.go`). Units are exact integers; the sum and the difference that validation
forms are passed through a parameter, so that the same code is also read over machine integers. -/

namespace PitCrew.Admission
open Base

structure ProfilePolicy where
  profileID : String
  unitCost : Int
  reservedUnits : Int := 0
  borrowable : Bool := false
  profilePolicyFingerprint : String := ""
  deriving DecidableEq, Repr

structure HostPolicy where
  generation : Int := 0
  totalUnits : Int := 0
  namespaceName : String := ""
  capacityUnits : Int := 0
  safetyMarginUnits : Int := 0
  hostPolicyFingerprint : String := ""
  profiles : List ProfilePolicy := []
  deriving DecidableEq, Repr

def ProfilePolicy.validate (p : ProfilePolicy) : Except Err Unit := do
  reject (profileIDPattern p.profileID = false) (.invalidPolicy (.profileIdentity p.profileID))
  reject (p.unitCost < 1) (.invalidPolicy (.unitCost p.profileID))
  reject (p.reservedUnits < 0) (.invalidPolicy (.reservedUnits p.profileID))
  validateFingerprint "profilePolicyFingerprint" p.profilePolicyFingerprint

/-- The loop over the profiles with the identities seen and the reservations added up so far. -/
def validateProfiles (wrap : Int → Int) (totalUnits : Int) :
    List String → Int → List ProfilePolicy → Except Err Int
  | _, reserved, [] => .ok reserved
  | seen, reserved, p :: profiles => do
    p.validate
    reject (p.profileID ∈ seen) (.invalidPolicy (.duplicateProfile p.profileID))
    reject (p.unitCost > totalUnits) (.invalidPolicy (.unitCostExceedsTotal p.profileID p.unitCost totalUnits))
    reject (p.reservedUnits > totalUnits)
      (.invalidPolicy (.reservedExceedsTotal p.profileID p.reservedUnits totalUnits))
    validateProfiles wrap totalUnits (p.profileID :: seen) (wrap (reserved + p.reservedUnits)) profiles

def HostPolicy.validateWith (wrap : Int → Int) (h : HostPolicy) : Except Err Unit := do
  reject (h.generation < 1) (.invalidPolicy .generation)
  reject (h.totalUnits < 1) (.invalidPolicy .totalUnits)
  validateNamespace h.namespaceName
  validateFingerprint "hostPolicyFingerprint" h.hostPolicyFingerprint
  reject (h.capacityUnits < 0 ∨ h.safetyMarginUnits < 0) (.invalidPolicy .negativeCapacity)
  reject (h.capacityUnits = 0 ∧ h.safetyMarginUnits > 0) (.invalidPolicy .marginWithoutCapacity)
  reject (h.capacityUnits > 0 ∧ h.safetyMarginUnits ≥ h.capacityUnits) (.invalidPolicy .marginAtLeastCapacity)
  let effective := wrap (h.capacityUnits - h.safetyMarginUnits)
  reject (h.capacityUnits > 0 ∧ effective ≠ h.totalUnits)
    (.invalidPolicy (.effectiveCapacity h.totalUnits effective h.capacityUnits h.safetyMarginUnits))
  let reserved ← validateProfiles wrap h.totalUnits [] 0 h.profiles
  reject (reserved > h.totalUnits) (.invalidPolicy (.reservedSumExceedsTotal reserved h.totalUnits))

def HostPolicy.validate (h : HostPolicy) : Except Err Unit := h.validateWith id

def HostPolicy.effectiveTotalUnits (h : HostPolicy) : Int := h.totalUnits

def HostPolicy.profile (h : HostPolicy) (profileID : String) : Option ProfilePolicy :=
  h.profiles.find? fun p => p.profileID == profileID

/-- The identities of the profiles in a stable order; validation makes them distinct. -/
def HostPolicy.sortedProfileIDs (h : HostPolicy) : List String :=
  (h.profiles.map (·.profileID)).insertionSort (· ≤ ·)

/-! ## What a valid policy promises -/

theorem HostPolicy.profile_some {h : HostPolicy} {id : String} {p : ProfilePolicy} (hp : h.profile id = some p) :
    p ∈ h.profiles ∧ p.profileID = id :=
  ⟨List.mem_of_find?_eq_some hp, by simpa using List.find?_some hp⟩

structure ProfilePolicy.Valid (p : ProfilePolicy) (totalUnits : Int) : Prop where
  profileID : profileIDPattern p.profileID = true
  unitCost : 1 ≤ p.unitCost
  unitCost_le : p.unitCost ≤ totalUnits
  reserved : 0 ≤ p.reservedUnits

theorem validateProfiles_ok {wrap : Int → Int} {total reserved r : Int} {seen : List String} {ps : List ProfilePolicy}
    (h : validateProfiles wrap total seen reserved ps = .ok r) :
    (∀ p ∈ ps, p.Valid total) ∧ (ps.map (·.profileID)).Nodup ∧ (∀ p ∈ ps, p.profileID ∉ seen) ∧
      r = ps.foldl (fun sum p => wrap (sum + p.reservedUnits)) reserved := by
  induction ps generalizing seen reserved with
  | nil =>
    simp only [validateProfiles, Except.ok.injEq] at h
    simp [h]
  | cons p ps ih =>
    simp only [validateProfiles, ProfilePolicy.validate, bind_eq_ok, reject_eq_ok] at h
    obtain ⟨⟨⟩, ⟨⟨⟩, hid, ⟨⟩, hcost, ⟨⟩, hres, -⟩, ⟨⟩, hseen, ⟨⟩, htotal, ⟨⟩, -, h⟩ := h
    obtain ⟨hvalid, hnodup, hnot, hr⟩ := ih h
    have hp : p.Valid total := ⟨by simpa using hid, by omega, by omega, by omega⟩
    refine ⟨List.forall_mem_cons.mpr ⟨hp, hvalid⟩, ?_, List.forall_mem_cons.mpr ⟨hseen, fun q hq => ?_⟩, hr⟩
    · rw [List.map_cons, List.nodup_cons]
      refine ⟨fun hmem => ?_, hnodup⟩
      obtain ⟨q, hq, heq⟩ := List.mem_map.mp hmem
      exact hnot q hq (heq ▸ List.mem_cons_self)
    · exact fun hq' => hnot q hq (List.mem_cons_of_mem _ hq')

theorem foldl_reserved {wrap : Int → Int} {ps : List ProfilePolicy} {sum : Int}
    (exact : ∀ n, wrap (sum + ((ps.take n).map (·.reservedUnits)).sum) =
      sum + ((ps.take n).map (·.reservedUnits)).sum) :
    ps.foldl (fun sum p => wrap (sum + p.reservedUnits)) sum = sum + (ps.map (·.reservedUnits)).sum := by
  induction ps generalizing sum with
  | nil => simp
  | cons p ps ih =>
    have hp : wrap (sum + p.reservedUnits) = sum + p.reservedUnits := by simpa using exact 1
    rw [List.foldl_cons, hp, ih, List.map_cons, List.sum_cons, add_assoc]
    intro n
    simpa [add_assoc] using exact (n + 1)

/-- Costs fit the budget, identities are distinct, and the reservations together fit the budget. -/
structure HostPolicy.Valid (h : HostPolicy) : Prop where
  generation : 1 ≤ h.generation
  totalUnits : 1 ≤ h.totalUnits
  profiles : ∀ p ∈ h.profiles, p.Valid h.totalUnits
  distinct : (h.profiles.map (·.profileID)).Nodup
  reserved : (h.profiles.map (·.reservedUnits)).sum ≤ h.totalUnits

theorem HostPolicy.validateWith_ok {wrap : Int → Int} {h : HostPolicy} {u : Unit} (hv : h.validateWith wrap = .ok u) :
    1 ≤ h.generation ∧ 1 ≤ h.totalUnits ∧
      (0 < h.capacityUnits → 0 ≤ h.safetyMarginUnits ∧ h.safetyMarginUnits < h.capacityUnits ∧
        wrap (h.capacityUnits - h.safetyMarginUnits) = h.totalUnits) ∧
      (∀ p ∈ h.profiles, p.Valid h.totalUnits) ∧ (h.profiles.map (·.profileID)).Nodup ∧
      h.profiles.foldl (fun sum p => wrap (sum + p.reservedUnits)) 0 ≤ h.totalUnits := by
  simp only [HostPolicy.validateWith, bind_eq_ok, reject_eq_ok] at hv
  obtain ⟨⟨⟩, hgen, ⟨⟩, htotal, ⟨⟩, -, ⟨⟩, -, ⟨⟩, hneg, ⟨⟩, -, ⟨⟩, hmargin, ⟨⟩, hcap, r, hr, hsum⟩ := hv
  obtain ⟨hvalid, hnodup, -, rfl⟩ := validateProfiles_ok hr
  exact ⟨by omega, by omega, fun hpos => ⟨by omega, by omega, by tauto⟩, hvalid, hnodup, by omega⟩

theorem HostPolicy.valid_of_validate {h : HostPolicy} {u : Unit} (hv : h.validate = .ok u) : h.Valid := by
  obtain ⟨hgen, htotal, -, hvalid, hnodup, hsum⟩ := HostPolicy.validateWith_ok hv
  rw [foldl_reserved fun _ => rfl, zero_add] at hsum
  exact ⟨hgen, htotal, hvalid, hnodup, hsum⟩

theorem HostPolicy.Valid.profile {h : HostPolicy} (hv : h.Valid) {id : String} {p : ProfilePolicy}
    (hp : h.profile id = some p) : p.Valid h.totalUnits :=
  hv.profiles p (HostPolicy.profile_some hp).1

end PitCrew.Admission
