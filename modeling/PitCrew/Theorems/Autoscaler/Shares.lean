import PitCrew.Theorems.Autoscaler.Ceiling

/-! # Capacity that is kept back

A reservation beyond a member's share leaves free what the other members' recorded demand has above what
they hold. The recorded demand is already what they lack, so this keeps units back from a member at its
share for the sake of others at theirs, and gives away those of a member that holds part of its share. -/

namespace PitCrew.Autoscaler
open Base

/-! ## Capacity that nobody gets -/

namespace AdmissionController
variable {a : AdmissionController} {key : String}

/-- Where units are free and members have unmet demand, one of these is granted a unit of it at once. -/
def NeverStrands (a : AdmissionController) : Prop :=
  0 < a.free → (∃ k ∈ a.members.keys, 0 < a.demand k) →
    ∃ k ∈ a.members.keys, 0 < a.demand k ∧ 1 ≤ (a.reserve k (a.demand k)).2

instance (a : AdmissionController) : Decidable a.NeverStrands := inferInstanceAs (Decidable (_ → _ → _))

/-- A member is granted a unit if it holds less than its share, or if the free units are not all kept
    back for the other members. -/
theorem one_le_grant_iff (hc : 0 ≤ a.ceiling) {want : Int} (hw : 0 < want) (hfree : 0 < a.free) :
    1 ≤ a.grant key want ↔ a.held key < a.share key ∨ a.keptBack key < a.free := by
  have hkept : 0 ≤ a.keptBack key := keptBack_nonneg hc
  unfold grant lacking
  omega

/-- A waiting member holds less than its share, or the free units are more than what the other members
    demand above what they hold, each counted up to its share. -/
def Unblocked (a : AdmissionController) : Prop :=
  ∃ k ∈ a.members.keys, 0 < a.demand k ∧ (a.held k < a.share k ∨
    ∑ o ∈ a.members.keys.erase k, min (max (a.demand o - a.held o) 0) (a.share o) < a.free)

instance (a : AdmissionController) : Decidable a.Unblocked := inferInstanceAs (Decidable (∃ _ ∈ _, _))

theorem neverStrands_iff (hc : 0 < a.ceiling) :
    a.NeverStrands ↔ (0 < a.free → (∃ k ∈ a.members.keys, 0 < a.demand k) → a.Unblocked) := by
  refine imp_congr_right fun hfree => imp_congr_right fun _ => exists_congr fun k => ?_
  refine and_congr_right fun hk => and_congr_right fun hdemand => ?_
  rw [reserve_snd hc (Finmap.mem_keys.mp hk), one_le_grant_iff hc.le hdemand hfree, keptBack]

/-! ## Shares that are lent out -/

/-- What the members other than `key` are entitled to: their unmet demand, up to what their share lacks. -/
def entitled (a : AdmissionController) (key : String) : Int :=
  ∑ o ∈ a.members.keys.erase key, min (a.demand o) (max (a.share o - a.held o) 0)

/-- A reservation beyond the member's own share leaves the others what they are entitled to, and one
    without competition is granted all that is free. -/
structure SharesKept (a : AdmissionController) (key : String) (want : Nat) : Prop where
  entitlements :
    max (a.share key - a.held key) 0 < (a.reserve key want).2 → a.entitled key ≤ (a.reserve key want).1.free
  unopposed :
    (∀ o ∈ a.members.keys, o ≠ key → a.demand o = 0) → (a.reserve key want).2 = min (want : Int) (max a.free 0)

theorem free_reserve (hc : 0 < a.ceiling) (h : key ∈ a.members) (want : Int) :
    (a.reserve key want).1.free = a.free - a.grant key want := by
  obtain ⟨hlive, hflight⟩ := reserve_effect hc h want
  have hheld (k : String) : (a.reserve key want).1.held k = a.held k + if k = key then a.grant key want else 0 := by
    have h₁ : ((a.reserve key want).1.member k).live = (a.member k).live := hlive k
    have h₂ : ((a.reserve key want).1.member k).inFlight = (a.member k).inFlight + _ := hflight k
    rw [held, held, AdmissionMember.heldCount, AdmissionMember.heldCount, h₁, h₂]
    ring
  rw [free, free, reserve_ceiling, reserve_keys, Finset.sum_congr rfl fun k _ => hheld k, Finset.sum_add_distrib,
    Finset.sum_ite_eq', if_pos (Finmap.mem_keys.mpr h)]
  ring

theorem keptBack_of_unopposed (hc : 0 ≤ a.ceiling) (hheld : ∀ k, 0 ≤ a.held k)
    (h : ∀ o ∈ a.members.keys, o ≠ key → a.demand o = 0) : a.keptBack key = 0 :=
  Finset.sum_eq_zero fun o ho => by
    have hmem := Finset.mem_of_mem_erase ho
    have hshare := share_nonneg hc (Finmap.mem_keys.mp hmem)
    have := hheld o
    rw [h o hmem (Finset.ne_of_mem_erase ho)]
    omega

/-- The request, or the free units without those kept back for the others, is within what the member's
    own share lacks; or the others are entitled to no more than is kept back for them, or to no more
    than the request leaves. -/
def Covered (a : AdmissionController) (key : String) (want : Nat) : Prop :=
  want ≤ a.lacking key ∨ a.free - a.keptBack key ≤ a.lacking key ∨
    a.entitled key ≤ a.keptBack key ∨ a.entitled key ≤ a.free - want

instance (a : AdmissionController) (key : String) (want : Nat) : Decidable (a.Covered key want) :=
  inferInstanceAs (Decidable (_ ∨ _))

theorem sharesKept_iff (hc : 0 < a.ceiling) (hheld : ∀ k, 0 ≤ a.held k) (h : key ∈ a.members) (want : Nat) :
    a.SharesKept key want ↔ a.Covered key want := by
  have hsnd := reserve_snd hc h (want : Int)
  have hfree := free_reserve hc h (want : Int)
  have hkept : 0 ≤ a.keptBack key := keptBack_nonneg hc.le
  have hlacking : max (a.share key - a.held key) 0 = a.lacking key := rfl
  have hnonneg : 0 ≤ a.lacking key := le_max_right _ _
  unfold Covered
  constructor
  · rintro ⟨hent, -⟩
    rw [hsnd, hfree, hlacking, grant] at hent
    omega
  · intro hcond
    refine ⟨fun hmore => ?_, fun hun => ?_⟩
    · rw [hsnd, hlacking, grant] at hmore
      rw [hfree, grant]
      omega
    · have hzero := keptBack_of_unopposed hc.le hheld hun
      rw [hsnd, grant, hzero]
      omega

end AdmissionController

namespace Profile
open AdmissionController

/-- In every state of every run, capacity is stranded unless a waiting member is unblocked. -/
theorem neverStrands_iff_unblocked {ceiling : Int} (positive : 0 < ceiling) (first : List (String × Nat))
    (events : List ProfileEvent) : ((start ceiling first).run events).controller.NeverStrands ↔
      (0 < ((start ceiling first).run events).controller.free →
        (∃ k ∈ ((start ceiling first).run events).controller.members.keys,
          0 < ((start ceiling first).run events).controller.demand k) →
        ((start ceiling first).run events).controller.Unblocked) := by
  refine neverStrands_iff ?_
  rw [(sound_run positive first events).ceiling_eq]
  exact positive

/-- Two members at their share ask for two workers each while the ceiling is reached; then a worker of
    the third, idle member exits. -/
def blockedRun : List ProfileEvent := [.reserve "one" 2, .reserve "two" 2, .exit "three"]

/-- One unit is free and two members wait, but each is refused for the sake of the other. -/
theorem two_waiting_members_block_each_other :
    (start 3 [("one", 1), ("two", 1), ("three", 1)]).RunAllowed blockedRun ∧
      ((start 3 [("one", 1), ("two", 1), ("three", 1)]).run blockedRun).controller.free = 1 ∧
      ¬((start 3 [("one", 1), ("two", 1), ("three", 1)]).run blockedRun).controller.NeverStrands := by
  refine ⟨?_, ?_, ?_⟩ <;> decide +kernel

/-- Without the second request the free unit is not stranded. -/
theorem neverStrands_iff_unblocked_single :
    ((start 3 [("one", 1), ("two", 1), ("three", 1)]).run [.reserve "one" 2, .exit "three"]).controller.NeverStrands :=
  (neverStrands_iff_unblocked (by decide) _ _).mpr fun _ _ => by decide +kernel

theorem held_nonneg {ceiling : Int} {p : Profile} (sound : p.Sound ceiling) (k : String) : 0 ≤ p.controller.held k := by
  have h : 0 ≤ (p.controller.member k).inFlight := sound.inFlight_nonneg k
  rw [held, AdmissionMember.heldCount]
  omega

/-- In every state of every run, a reservation by a member keeps the shares of the others exactly if it
    is covered. -/
theorem sharesKept_iff_covered {ceiling : Int} (positive : 0 < ceiling) (first : List (String × Nat))
    (events : List ProfileEvent) (key : String)
    (member : key ∈ ((start ceiling first).run events).controller.members) (want : Nat) :
    ((start ceiling first).run events).controller.SharesKept key want ↔
      ((start ceiling first).run events).controller.Covered key want := by
  have sound := sound_run positive first events
  refine sharesKept_iff ?_ (held_nonneg sound) member want
  rw [sound.ceiling_eq]
  exact positive

/-- A member is granted half of its request; then two workers of the other one exit. -/
def lentRun : List ProfileEvent :=
  [.reserve "waiting" 2, .rise "waiting", .settle "waiting", .exit "lender", .exit "lender"]

def lentProfile : Profile := (start 4 [("lender", 3), ("waiting", 0)]).run lentRun

/-- The waiting member holds one of the two units of its share and still wants another, but the second
    free unit, too, goes to the member that has its share with the first. -/
theorem share_is_lent_while_waiting :
    (start 4 [("lender", 3), ("waiting", 0)]).RunAllowed lentRun ∧ ¬lentProfile.controller.SharesKept "lender" 2 := by
  refine ⟨by decide +kernel, fun h => ?_⟩
  have hmore : max (lentProfile.controller.share "lender" - lentProfile.controller.held "lender") 0 <
      (lentProfile.controller.reserve "lender" (2 : Nat)).2 := by decide +kernel
  have hless :
      ¬lentProfile.controller.entitled "lender" ≤ (lentProfile.controller.reserve "lender" (2 : Nat)).1.free := by
    decide +kernel
  exact hless (h.entitlements hmore)

/-- A request within the lender's own share is covered. -/
theorem sharesKept_iff_covered_own : lentProfile.controller.SharesKept "lender" 1 :=
  (sharesKept_iff_covered (by decide) _ _ "lender" (by decide +kernel) 1).mpr (by decide +kernel)

end Profile
end PitCrew.Autoscaler
