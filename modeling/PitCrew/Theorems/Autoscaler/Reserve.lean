import PitCrew.Autoscaler.Admission
import PitCrew.Base.Keyed
import PitCrew.Base.Share

/-! # What a reservation grants

A member is granted what it wants, as far as the free units that its share still lacks, or the free
units without those kept back for the other members, reach. -/

namespace PitCrew.Autoscaler
open Base

namespace AdmissionController
variable {a : AdmissionController} {key k : String} {f : AdmissionMember → AdmissionMember}

/-! ## Members -/

theorem member_of_lookup {m : AdmissionMember} (h : a.members.lookup key = some m) : a.member key = m := by
  rw [member, Map.getD, h, Option.getD_some]

theorem member_of_notMem (h : key ∉ a.members) : a.member key = {} := by
  rw [member, Map.getD, Finmap.lookup_eq_none.mpr h, Option.getD_none]

theorem update_of_notMem (h : key ∉ a.members) : a.update key f = a := by
  rw [update, Finmap.lookup_eq_none.mpr h]

theorem update_of_mem (h : key ∈ a.members) :
    a.update key f = { a with members := a.members.insert key (f (a.member key)) } := by
  obtain ⟨m, hm⟩ := Finmap.mem_iff.mp h
  rw [update, hm, member_of_lookup hm]

theorem member_insert (m : AdmissionMember) :
    ({ a with members := a.members.insert key m } : AdmissionController).member k = if k = key then m
      else a.member k := by
  rw [member, Map.getD, Map.lookup_insert_ite]
  split <;> rfl

theorem member_update (a : AdmissionController) (key k : String) (f : AdmissionMember → AdmissionMember) :
    (a.update key f).member k = if k = key ∧ key ∈ a.members then f (a.member key) else a.member k := by
  by_cases h : key ∈ a.members
  · rw [update_of_mem h, member_insert]
    simp only [h, and_true]
  · rw [update_of_notMem h, if_neg fun hk => h hk.2]

theorem keys_insert_of_mem {m : AdmissionMember} (h : key ∈ a.members) :
    (a.members.insert key m).keys = a.members.keys := by
  ext j
  rw [Finmap.mem_keys, Finmap.mem_keys, Finmap.mem_insert, or_iff_right_iff_imp]
  rintro rfl
  exact h

@[simp] theorem keys_update (a : AdmissionController) (key : String) (f : AdmissionMember → AdmissionMember) :
    (a.update key f).members.keys = a.members.keys := by
  by_cases h : key ∈ a.members
  · rw [update_of_mem h]
    exact keys_insert_of_mem h
  · rw [update_of_notMem h]

@[simp] theorem rotation_update (a : AdmissionController) (key : String) (f : AdmissionMember → AdmissionMember) :
    (a.update key f).rotation = a.rotation := by
  unfold update
  split <;> rfl

@[simp] theorem ceiling_update (a : AdmissionController) (key : String) (f : AdmissionMember → AdmissionMember) :
    (a.update key f).ceiling = a.ceiling := by
  unfold update
  split <;> rfl

theorem member_join (a : AdmissionController) (key k : String) (live : Int) :
    (a.join key live).member k = if k = key ∧ key ≠ "" then { a.member key with live := live } else a.member k := by
  unfold join
  by_cases hkey : key = ""
  · rw [if_pos hkey, if_neg fun h => h.2 hkey]
  · rw [if_neg hkey]
    cases hm : a.members.lookup key with
    | none =>
      rw [member_of_notMem (Finmap.lookup_eq_none.mp hm)]
      simp only [member_insert, hkey, ne_eq, not_false_eq_true, and_true]
    | some m =>
      rw [member_of_lookup hm]
      simp only [member_insert, hkey, ne_eq, not_false_eq_true, and_true]

theorem mem_join (a : AdmissionController) (key k : String) (live : Int) :
    k ∈ (a.join key live).members ↔ (k = key ∧ key ≠ "") ∨ k ∈ a.members := by
  unfold join
  by_cases hkey : key = ""
  · rw [if_pos hkey, or_iff_right fun h => h.2 hkey]
  · rw [if_neg hkey]
    cases hm : a.members.lookup key <;> simp [Finmap.mem_insert, hkey]

@[simp] theorem rotation_join (a : AdmissionController) (key : String) (live : Int) :
    (a.join key live).rotation = a.rotation := by
  unfold join
  split
  · rfl
  · split <;> rfl

@[simp] theorem ceiling_join (a : AdmissionController) (key : String) (live : Int) :
    (a.join key live).ceiling = a.ceiling := by
  unfold join
  split
  · rfl
  · split <;> rfl

theorem member_leave (a : AdmissionController) (key k : String) :
    (a.leave key).member k = if k = key then {} else a.member k := by
  rw [member, leave, Map.getD, Map.lookup_erase_ite]
  split <;> rfl

@[simp] theorem keys_leave (a : AdmissionController) (key : String) :
    (a.leave key).members.keys = a.members.keys.erase key := by
  ext k
  rw [leave, Finmap.mem_keys, Finmap.mem_erase, Finset.mem_erase, Finmap.mem_keys]

/-! ## Shares -/

def share (a : AdmissionController) (key : String) : Int := a.shareLocked a.orderedKeysLocked key

theorem length_orderedKeys (a : AdmissionController) : a.orderedKeysLocked.length = a.members.keys.card :=
  length_sortedList _

theorem mem_orderedKeys : key ∈ a.orderedKeysLocked ↔ key ∈ a.members := by
  rw [orderedKeysLocked, mem_sortedList, Finmap.mem_keys]

theorem orderedKeys_nodup (a : AdmissionController) : a.orderedKeysLocked.Nodup := sortedList_nodup _

theorem orderedKeys_found (h : key ∈ a.members) :
    a.orderedKeysLocked[searchList a.orderedKeysLocked key]? = some key :=
  (getElem?_searchList (sortedList_sorted a.members.keys)).mpr (mem_orderedKeys.mpr h)

theorem card_pos (h : key ∈ a.members) : 0 < a.members.keys.card :=
  Finset.card_pos.mpr ⟨key, Finmap.mem_keys.mpr h⟩

theorem searchList_orderedKeys (h : key ∈ a.members) :
    searchList a.orderedKeysLocked key = a.orderedKeysLocked.idxOf key := by
  obtain ⟨hlt, hget⟩ := List.getElem?_eq_some_iff.mp (orderedKeys_found h)
  have hidx := a.orderedKeys_nodup.idxOf_getElem _ hlt
  rw [hget] at hidx
  exact hidx.symm

theorem share_eq (h : key ∈ a.members) :
    a.share key = Base.share a.rotation a.members.keys.card (a.orderedKeysLocked.idxOf key : Nat) a.ceiling := by
  have hcount : ((a.orderedKeysLocked.length : Nat) : Int) ≠ 0 := by
    have := card_pos h
    rw [length_orderedKeys]
    omega
  unfold share shareLocked
  dsimp only
  rw [if_neg hcount, if_neg (not_not.mpr (orderedKeys_found h)), searchList_orderedKeys h, length_orderedKeys]
  rfl

theorem share_nonneg (hc : 0 ≤ a.ceiling) (h : key ∈ a.members) : 0 ≤ a.share key := by
  rw [share_eq h]
  exact Base.share_nonneg (by exact_mod_cast card_pos h) hc

theorem share_even (hc : 0 ≤ a.ceiling) (h : key ∈ a.members) :
    a.share key = a.ceiling / a.members.keys.card ∨ a.share key = a.ceiling / a.members.keys.card + 1 := by
  rw [share_eq h, ← Int.tdiv_eq_ediv_of_nonneg hc]
  exact share_cases _ _ _ _

theorem sum_share (hc : 0 ≤ a.ceiling) (hr : a.rotation ≤ a.members.keys.card) (hn : 0 < a.members.keys.card) :
    ∑ k ∈ a.members.keys, a.share k = a.ceiling := by
  have hshare : a.orderedKeysLocked.map a.share = a.orderedKeysLocked.map fun k =>
      Base.share a.rotation a.members.keys.card (a.orderedKeysLocked.idxOf k : Nat) a.ceiling :=
    List.map_congr_left fun k hk => share_eq (mem_orderedKeys.mp hk)
  calc ∑ k ∈ a.members.keys, a.share k
      = (a.orderedKeysLocked.map a.share).sum := (sum_sortedList _ _).symm
    _ = ∑ i ∈ Finset.range a.members.keys.card, Base.share a.rotation a.members.keys.card i a.ceiling := by
        rw [hshare, sum_map_idxOf a.orderedKeys_nodup fun i : Nat =>
          Base.share a.rotation a.members.keys.card i a.ceiling, length_orderedKeys]
    _ = a.ceiling := sum_share_of_le hn hr hc

/-! ## Grants -/

/-- The units of the ceiling that no member holds; negative above the ceiling. -/
def free (a : AdmissionController) : Int := a.ceiling - ∑ k ∈ a.members.keys, a.held k

/-- The units of its share that a member does not hold. -/
def lacking (a : AdmissionController) (key : String) : Int := max (a.share key - a.held key) 0

/-- The units that a reservation keeps back for the other members. -/
def keptBack (a : AdmissionController) (key : String) : Int :=
  ∑ o ∈ a.members.keys.erase key, min (max (a.demand o - a.held o) 0) (a.share o)

theorem keptBack_nonneg (hc : 0 ≤ a.ceiling) : 0 ≤ a.keptBack key :=
  Finset.sum_nonneg fun _ ho =>
    le_min (le_max_right _ _) (share_nonneg hc (Finmap.mem_keys.mp (Finset.mem_of_mem_erase ho)))

theorem protectedUnits_eq (hc : 0 ≤ a.ceiling) : a.protectedUnits a.orderedKeysLocked key = a.keptBack key := by
  have hterm (o : String) (ho : o ∈ a.members.keys) :
      (if o = key then 0 else if a.demand o - a.held o ≤ 0 then 0 else min (a.demand o - a.held o) (a.share o)) =
        if o = key then 0 else min (max (a.demand o - a.held o) 0) (a.share o) := by
    have := share_nonneg hc (Finmap.mem_keys.mp ho)
    split
    · rfl
    · split <;> omega
  calc a.protectedUnits a.orderedKeysLocked key
      = ∑ o ∈ a.members.keys, if o = key then 0
          else if a.demand o - a.held o ≤ 0 then 0 else min (a.demand o - a.held o) (a.share o) := sum_sortedList _ _
    _ = ∑ o ∈ a.members.keys, if o = key then 0 else min (max (a.demand o - a.held o) 0) (a.share o) :=
        Finset.sum_congr rfl hterm
    _ = a.keptBack key := by
        rw [keptBack, ← Finset.filter_ne', Finset.sum_filter]
        exact Finset.sum_congr rfl fun o _ => by split <;> simp_all

theorem free_eq (a : AdmissionController) : a.ceiling - (a.orderedKeysLocked.map a.held).sum = a.free := by
  rw [free, orderedKeysLocked, sum_sortedList]

theorem grantedUnits_eq (hc : 0 ≤ a.ceiling) {want : Int} (hw : 0 < want) (hfree : 0 < a.free) :
    a.grantedUnits a.orderedKeysLocked key want a.free =
      min want (max (min (a.lacking key) a.free) (a.free - a.keptBack key)) := by
  have hshare : a.shareLocked a.orderedKeysLocked key = a.share key := rfl
  have hkept : 0 ≤ a.keptBack key := keptBack_nonneg hc
  unfold grantedUnits
  dsimp only
  rw [protectedUnits_eq hc, hshare, lacking]
  split <;> split <;> (try split) <;> omega

def grant (a : AdmissionController) (key : String) (want : Int) : Int :=
  max 0 (min want (max (min (a.lacking key) a.free) (a.free - a.keptBack key)))

theorem grant_le (hc : 0 ≤ a.ceiling) {want : Int} : a.grant key want ≤ max a.free 0 := by
  have hkept : 0 ≤ a.keptBack key := keptBack_nonneg hc
  unfold grant
  omega

/-- What a reservation by a member can do: nothing for no want, no more than record the demand where
    nothing is free, and otherwise grant and turn the cursor. -/
theorem reserve_cases (hc : 0 < a.ceiling) (h : key ∈ a.members) (want : Int) :
    (want ≤ 0 ∧ a.grant key want = 0 ∧ a.reserve key want = (a, 0)) ∨
      (0 < want ∧ a.free ≤ 0 ∧ a.grant key want = 0 ∧
        a.reserve key want = (a.update key fun m => { m with demand := want }, 0)) ∨
      (0 < want ∧ 0 < a.free ∧
        a.reserve key want =
          ({ a.update key fun m => { m with inFlight := m.inFlight + a.grant key want,
                                            demand := want - a.grant key want } with
              rotation := if a.grant key want > 0 then (a.rotation + 1).tmod a.members.keys.card else a.rotation },
            a.grant key want)) := by
  have hkept : 0 ≤ a.keptBack key := keptBack_nonneg hc.le
  obtain ⟨m, hm⟩ := Finmap.mem_iff.mp h
  have hpos := card_pos h
  unfold reserve
  by_cases hw : want ≤ 0
  · refine Or.inl ⟨hw, by unfold grant; omega, ?_⟩
    rw [if_pos hw, max_eq_right hw]
  rw [if_neg hw, hm]
  dsimp only
  rw [if_neg (by omega), free_eq, length_orderedKeys]
  rw [not_le] at hw
  by_cases hfree : a.free ≤ 0
  · refine Or.inr (Or.inl ⟨hw, hfree, by unfold grant; omega, if_pos hfree⟩)
  · have hgrant : a.grantedUnits a.orderedKeysLocked key want a.free = a.grant key want := by
      rw [grantedUnits_eq hc.le hw (by omega), grant]
      unfold lacking
      omega
    refine Or.inr (Or.inr ⟨hw, by omega, ?_⟩)
    rw [if_neg hfree, hgrant]
    have hnonneg : 0 ≤ a.grant key want := le_max_left _ _
    rcases hnonneg.lt_or_eq with hlt | hzero
    · simp only [gt_iff_lt, hlt, hpos, and_self, if_true]
    · simp only [← hzero, gt_iff_lt, lt_irrefl, false_and, if_false, add_zero]

theorem reserve_snd (hc : 0 < a.ceiling) (h : key ∈ a.members) (want : Int) :
    (a.reserve key want).2 = a.grant key want := by
  rcases reserve_cases hc h want with ⟨-, hg, he⟩ | ⟨-, -, hg, he⟩ | ⟨-, -, he⟩
  · rw [he, hg]
  · rw [he, hg]
  · rw [he]

theorem grantedUnits_le {keys : List String} {want free : Int} (hw : 0 < want) (hfree : 0 < free) :
    0 ≤ a.grantedUnits keys key want free ∧ a.grantedUnits keys key want free ≤ want := by
  unfold grantedUnits
  dsimp only
  split_ifs <;> omega

/-- A reservation grants at most the request, with or without a ceiling and whether or not the target is a member.
    `launchMissing` takes any such answer. -/
theorem reserve_le (a : AdmissionController) (key : String) (want : Int) :
    0 ≤ (a.reserve key want).2 ∧ (a.reserve key want).2 ≤ max want 0 := by
  unfold reserve
  by_cases hw : want ≤ 0
  · rw [if_pos hw]
    exact ⟨le_max_right _ _, le_rfl⟩
  rw [if_neg hw]
  have hunlimited : 0 ≤ want ∧ want ≤ max want 0 := ⟨by omega, le_max_left _ _⟩
  cases a.members.lookup key with
  | none => exact hunlimited
  | some m =>
    dsimp only
    by_cases hceiling : a.ceiling ≤ 0
    · rw [if_pos hceiling]
      exact hunlimited
    rw [if_neg hceiling]
    by_cases hfree : a.ceiling - (a.orderedKeysLocked.map a.held).sum ≤ 0
    · rw [if_pos hfree]
      exact ⟨le_rfl, le_max_right _ _⟩
    · rw [if_neg hfree]
      obtain ⟨hleast, hmost⟩ := grantedUnits_le (not_le.mp hw) (not_le.mp hfree)
      exact ⟨hleast, hmost.trans (le_max_left _ _)⟩

end AdmissionController
end PitCrew.Autoscaler
