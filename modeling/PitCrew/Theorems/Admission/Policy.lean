import PitCrew.Admission.Policy

/-! # Policies in 64-bit arithmetic

Validation adds up the reservations of an unbounded list of profiles and compares the sum with the
budget once, at the end. Over `int` the running sum wraps around. -/

namespace PitCrew.Admission

/-- The exact value `x` as a 64-bit integer. -/
def int64 (x : Int) : Int := x.bmod (2 ^ 64)

def IsInt64 (x : Int) : Prop := -2 ^ 63 ≤ x ∧ x < 2 ^ 63

instance (x : Int) : Decidable (IsInt64 x) := inferInstanceAs (Decidable (_ ∧ _))

theorem int64_of_isInt64 {x : Int} (h : IsInt64 x) : int64 x = x := by
  obtain ⟨hlo, hhi⟩ := h
  exact Int.bmod_eq_of_le (by omega) (by omega)

namespace HostPolicy
variable {h : HostPolicy}

/-- `HostPolicy.validate` as it runs, over `int` of 64 bits. -/
def validateInt64 (h : HostPolicy) : Except Err Unit := h.validateWith int64

structure Int64 (h : HostPolicy) : Prop where
  generation : IsInt64 h.generation
  totalUnits : IsInt64 h.totalUnits
  capacityUnits : IsInt64 h.capacityUnits
  safetyMarginUnits : IsInt64 h.safetyMarginUnits
  profiles : ∀ p ∈ h.profiles, IsInt64 p.unitCost ∧ IsInt64 p.reservedUnits

def reservedSum (h : HostPolicy) : Int := (h.profiles.map (·.reservedUnits)).sum

/-- What an accepted policy promises, over exact integers. -/
structure Exact (h : HostPolicy) : Prop where
  reserved : ∀ p ∈ h.profiles, 0 ≤ p.reservedUnits
  reservedSum : h.reservedSum ≤ h.totalUnits
  unitCost : ∀ p ∈ h.profiles, 1 ≤ p.unitCost ∧ p.unitCost ≤ h.totalUnits
  distinct : (h.profiles.map (·.profileID)).Nodup
  capacity : 0 < h.capacityUnits → h.totalUnits = h.capacityUnits - h.safetyMarginUnits

theorem foldl_int64 (nonneg : ∀ p ∈ h.profiles, 0 ≤ p.reservedUnits) (fits : h.reservedSum < 2 ^ 63) :
    h.profiles.foldl (fun sum p => int64 (sum + p.reservedUnits)) 0 = h.reservedSum := by
  rw [foldl_reserved, zero_add, reservedSum]
  intro n
  have hn : 0 ≤ ((h.profiles.take n).map (·.reservedUnits)).sum := by
    refine List.sum_nonneg fun x hx => ?_
    obtain ⟨p, hp, rfl⟩ := List.mem_map.mp hx
    exact nonneg p (List.mem_of_mem_take hp)
  have hrest : 0 ≤ ((h.profiles.drop n).map (·.reservedUnits)).sum := by
    refine List.sum_nonneg fun x hx => ?_
    obtain ⟨p, hp, rfl⟩ := List.mem_map.mp hx
    exact nonneg p (List.mem_of_mem_drop hp)
  have hsum : h.reservedSum =
      ((h.profiles.take n).map (·.reservedUnits)).sum + ((h.profiles.drop n).map (·.reservedUnits)).sum := by
    rw [reservedSum, ← List.sum_append, ← List.map_append, List.take_append_drop]
  exact int64_of_isInt64 ⟨by omega, by omega⟩

/-- The difference of capacity and margin does not wrap around, since the margin is checked first. -/
theorem effective_int64 (range : h.Int64) (hmargin : 0 ≤ h.safetyMarginUnits)
    (hcap : h.safetyMarginUnits < h.capacityUnits) :
    int64 (h.capacityUnits - h.safetyMarginUnits) = h.capacityUnits - h.safetyMarginUnits :=
  int64_of_isInt64 ⟨by have := range.capacityUnits.2; omega, by have := range.capacityUnits.2; omega⟩

theorem exact_of_fits (range : h.Int64) (accepted : h.validateInt64 = .ok ()) (fits : h.reservedSum < 2 ^ 63) :
    h.Exact := by
  obtain ⟨-, -, hcap, hvalid, hnodup, hsum⟩ := validateWith_ok accepted
  rw [foldl_int64 (fun p hp => (hvalid p hp).reserved) fits] at hsum
  refine ⟨fun p hp => (hvalid p hp).reserved, hsum, fun p hp => ⟨(hvalid p hp).unitCost, (hvalid p hp).unitCost_le⟩,
    hnodup, fun hpos => ?_⟩
  obtain ⟨hmargin, hlt, heff⟩ := hcap hpos
  rw [← heff, effective_int64 range hmargin hlt]

end HostPolicy

/-- Validation is sound for exactly the accepted policies whose reservations add up without overflow. -/
theorem validation_sound_iff (h : HostPolicy) (range : h.Int64) :
    (h.validateInt64 = .ok () → h.Exact) ↔ (h.validateInt64 = .ok () → h.reservedSum < 2 ^ 63) := by
  constructor
  · intro sound accepted
    have := (sound accepted).reservedSum
    have := range.totalUnits.2
    omega
  · intro fits accepted
    exact HostPolicy.exact_of_fits range accepted (fits accepted)

/-- Two profiles that each reserve the largest budget there is. -/
def overcommittedPolicy : HostPolicy :=
  { generation := 1
    totalUnits := 2 ^ 63 - 1
    profiles :=
      [{ profileID := "alpha", unitCost := 1, reservedUnits := 2 ^ 63 - 1 },
       { profileID := "beta", unitCost := 1, reservedUnits := 2 ^ 63 - 1 }] }

theorem overcommitted_accepted :
    overcommittedPolicy.Int64 ∧ overcommittedPolicy.validateInt64 = .ok () ∧
      overcommittedPolicy.totalUnits < overcommittedPolicy.reservedSum :=
  ⟨⟨by decide, by decide, by decide, by decide, by decide⟩, by decide +kernel, by decide⟩

theorem validation_sound_iff_overcommitted :
    overcommittedPolicy.Int64 ∧ ¬(overcommittedPolicy.validateInt64 = .ok () → overcommittedPolicy.Exact) :=
  ⟨⟨by decide, by decide, by decide, by decide, by decide⟩, fun sound =>
    absurd ((validation_sound_iff overcommittedPolicy ⟨by decide, by decide, by decide, by decide, by decide⟩).mp sound
      (by decide +kernel)) (by decide)⟩

end PitCrew.Admission
