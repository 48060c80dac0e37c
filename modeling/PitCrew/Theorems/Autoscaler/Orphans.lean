import PitCrew.Autoscaler.Orphans
import PitCrew.Theorems.Autoscaler.Retirement

/-! # Orphaned leases are absent

A lease is reported as absent only if its registration is (`ProvenAbsent`): every registration scope of the
targets says so, or one scope has it, exactly, and it has been removed there. What the scopes say is told by the
targets alone (`report`); that the code groups them right is `Grouped`. -/

namespace PitCrew.Autoscaler.Orphans
open Base Admission

variable {Api : Type} {targets : List (RecoveryTarget Api)}

/-! ## Scopes -/

/-- The scopes of the targets: one for each scope key, which asks through the first target of it and knows the
    scale sets of all of them. -/
structure Grouped (targets : List (RecoveryTarget Api)) (scopes : List (RecoveryScope Api)) : Prop where
  distinct : (scopes.map (·.scopeKey)).Nodup
  covered : ∀ target ∈ targets, ∃ scope ∈ scopes, scope.scopeKey = target.scopeKey
  first : ∀ scope ∈ scopes, ∃ target, targets.find? (·.scopeKey = scope.scopeKey) = some target ∧ scope.api = target.api
  known : ∀ scope ∈ scopes, ∀ id target, scope.scaleSets.lookup id = some target →
    target ∈ targets ∧ target.scopeKey = scope.scopeKey ∧ target.scaleSetID = id
  knows : ∀ scope ∈ scopes, ∀ target ∈ targets, target.scopeKey = scope.scopeKey →
    scope.scaleSets.lookup target.scaleSetID ≠ none

theorem mem_addToScopes {scopes : List (RecoveryScope Api)} {target : RecoveryTarget Api} {scope : RecoveryScope Api}
    (hdistinct : (scopes.map (·.scopeKey)).Nodup) : scope ∈ addToScopes scopes target ↔
      (scope ∈ scopes ∧ scope.scopeKey ≠ target.scopeKey) ∨
      (∃ old ∈ scopes, old.scopeKey = target.scopeKey ∧
        scope = { old with scaleSets := old.scaleSets.insert target.scaleSetID target }) ∨
      ((∀ old ∈ scopes, old.scopeKey ≠ target.scopeKey) ∧
        scope = { scopeKey := target.scopeKey, api := target.api,
                  scaleSets := (∅ : Map Int _).insert target.scaleSetID target }) := by
  induction scopes with
  | nil => simp [addToScopes]
  | cons head scopes ih =>
    rw [List.map_cons, List.nodup_cons] at hdistinct
    rw [addToScopes]
    split
    next hhead =>
      have hothers : ∀ other ∈ scopes, other.scopeKey ≠ target.scopeKey := fun other hother heq =>
        hdistinct.1 (List.mem_map.mpr ⟨other, hother, heq.trans hhead.symm⟩)
      rw [List.mem_cons]
      constructor
      · rintro (rfl | hscope)
        · exact Or.inr (Or.inl ⟨head, List.mem_cons_self, hhead, rfl⟩)
        · exact Or.inl ⟨List.mem_cons_of_mem head hscope, hothers scope hscope⟩
      · rintro (⟨hscope, hne⟩ | ⟨old, hold, heq, rfl⟩ | ⟨hnone, -⟩)
        · rcases List.mem_cons.mp hscope with rfl | hscope
          · exact absurd hhead hne
          · exact Or.inr hscope
        · rcases List.mem_cons.mp hold with rfl | hold
          · exact Or.inl rfl
          · exact absurd heq (hothers old hold)
        · exact absurd hhead (hnone head List.mem_cons_self)
    next hhead =>
      rw [List.mem_cons, ih hdistinct.2]
      constructor
      · rintro (rfl | ⟨hscope, hne⟩ | ⟨old, hold, heq⟩ | ⟨hnone, heq⟩)
        · exact Or.inl ⟨List.mem_cons_self, hhead⟩
        · exact Or.inl ⟨List.mem_cons_of_mem head hscope, hne⟩
        · exact Or.inr (Or.inl ⟨old, List.mem_cons_of_mem head hold, heq⟩)
        · exact Or.inr (Or.inr ⟨List.forall_mem_cons.mpr ⟨hhead, hnone⟩, heq⟩)
      · rintro (⟨hscope, hne⟩ | ⟨old, hold, heq, rfl⟩ | ⟨hnone, heq⟩)
        · rcases List.mem_cons.mp hscope with rfl | hscope
          · exact Or.inl rfl
          · exact Or.inr (Or.inl ⟨hscope, hne⟩)
        · rcases List.mem_cons.mp hold with rfl | hold
          · exact absurd heq hhead
          · exact Or.inr (Or.inr (Or.inl ⟨old, hold, heq, rfl⟩))
        · exact Or.inr (Or.inr (Or.inr ⟨(List.forall_mem_cons.mp hnone).2, heq⟩))

theorem keys_addToScopes (scopes : List (RecoveryScope Api)) (target : RecoveryTarget Api) :
    (addToScopes scopes target).map (·.scopeKey) =
      if target.scopeKey ∈ scopes.map (·.scopeKey) then scopes.map (·.scopeKey)
      else scopes.map (·.scopeKey) ++ [target.scopeKey] := by
  induction scopes with
  | nil => rfl
  | cons head scopes ih =>
    rw [addToScopes]
    split
    next hhead => simp [hhead]
    next hhead =>
      have hne : ¬ target.scopeKey = head.scopeKey := fun h => hhead h.symm
      rw [List.map_cons, ih]
      simp only [List.map_cons, List.mem_cons, hne, false_or]
      split <;> rfl

theorem Grouped.add {scopes : List (RecoveryScope Api)} (h : Grouped targets scopes) (target : RecoveryTarget Api) :
    Grouped (targets ++ [target]) (addToScopes scopes target) := by
  have hmem := fun {scope} => @mem_addToScopes Api scopes target scope h.distinct
  have hfirst : ∀ {key found}, targets.find? (·.scopeKey = key) = some found →
      (targets ++ [target]).find? (·.scopeKey = key) = some found := by
    intro key found hfound
    rw [List.find?_append, hfound]
    rfl
  refine ⟨?_, ?_, ?_, ?_, ?_⟩
  · rw [keys_addToScopes]
    split
    · exact h.distinct
    next hnew => exact List.nodup_append.mpr ⟨h.distinct, List.nodup_singleton _, by
        rintro key hkey _ hkey' rfl
        exact hnew (List.mem_singleton.mp hkey' ▸ hkey)⟩
  · intro t ht
    have hkeys : t.scopeKey ∈ (addToScopes scopes target).map (·.scopeKey) := by
      rw [keys_addToScopes]
      rcases List.mem_append.mp ht with ht | ht
      · obtain ⟨scope, hscope, heq⟩ := h.covered t ht
        have hkey : t.scopeKey ∈ scopes.map (·.scopeKey) := List.mem_map.mpr ⟨scope, hscope, heq⟩
        split
        · exact hkey
        · exact List.mem_append_left _ hkey
      · rw [List.mem_singleton.mp ht]
        split
        next hold => exact hold
        next => exact List.mem_append_right _ (List.mem_singleton.mpr rfl)
    obtain ⟨scope, hscope, heq⟩ := List.mem_map.mp hkeys
    exact ⟨scope, hscope, heq⟩
  · intro scope hscope
    rcases hmem.mp hscope with ⟨hold, -⟩ | ⟨old, hold, -, rfl⟩ | ⟨hnone, rfl⟩
    · obtain ⟨t, ht, hapi⟩ := h.first scope hold
      exact ⟨t, hfirst ht, hapi⟩
    · obtain ⟨t, ht, hapi⟩ := h.first old hold
      exact ⟨t, hfirst ht, hapi⟩
    · refine ⟨target, ?_, rfl⟩
      have habsent : targets.find? (·.scopeKey = target.scopeKey) = none := by
        rw [List.find?_eq_none]
        intro t ht heq
        obtain ⟨old, hold, hkey⟩ := h.covered t ht
        exact hnone old hold (hkey.trans (of_decide_eq_true heq))
      rw [List.find?_append, habsent]
      simp
  · intro scope hscope id t hlookup
    have hkeep : ∀ old ∈ scopes, old.scaleSets.lookup id = some t →
        t ∈ targets ++ [target] ∧ t.scopeKey = old.scopeKey ∧ t.scaleSetID = id := fun old hold hlookup =>
      (h.known old hold id t hlookup).imp_left (List.mem_append_left _)
    have hnew : target ∈ targets ++ [target] := List.mem_append_right _ (List.mem_singleton.mpr rfl)
    rcases hmem.mp hscope with ⟨hold, -⟩ | ⟨old, hold, hkey, rfl⟩ | ⟨-, rfl⟩
    · exact hkeep scope hold hlookup
    · rcases Map.lookup_of_insert hlookup with ⟨rfl, rfl⟩ | ⟨-, hlookup⟩
      · exact ⟨hnew, hkey.symm, rfl⟩
      · exact hkeep old hold hlookup
    · rcases Map.lookup_of_insert hlookup with ⟨rfl, rfl⟩ | ⟨-, hlookup⟩
      · exact ⟨hnew, rfl, rfl⟩
      · exact absurd hlookup (by simp)
  · intro scope hscope t ht hkey
    rcases hmem.mp hscope with ⟨hold, hne⟩ | ⟨old, hold, heq, rfl⟩ | ⟨hnone, rfl⟩
    · rcases List.mem_append.mp ht with ht | ht
      · exact h.knows scope hold t ht hkey
      · rw [List.mem_singleton.mp ht] at hkey
        exact absurd hkey.symm hne
    · show (old.scaleSets.insert target.scaleSetID target).lookup t.scaleSetID ≠ none
      rw [Map.lookup_insert_ite]
      split
      · exact Option.some_ne_none _
      next hid =>
        rcases List.mem_append.mp ht with ht | ht
        · exact h.knows old hold t ht hkey
        · exact absurd (congrArg RecoveryTarget.scaleSetID (List.mem_singleton.mp ht)) hid
    · rcases List.mem_append.mp ht with ht | ht
      · obtain ⟨old, hold, hkey'⟩ := h.covered t ht
        exact absurd (hkey'.trans hkey) (hnone old hold)
      · rw [List.mem_singleton.mp ht]
        show ((∅ : Map Int (RecoveryTarget Api)).insert target.scaleSetID target).lookup target.scaleSetID ≠ none
        rw [Map.lookup_insert_ite, if_pos rfl]
        exact Option.some_ne_none _

theorem recoveryScopes_grouped (targets : List (RecoveryTarget Api)) : Grouped targets (recoveryScopes targets) := by
  unfold recoveryScopes
  induction targets using List.reverseRecOn with
  | nil =>
    exact ⟨List.nodup_nil, fun _ h => absurd h List.not_mem_nil, fun _ h => absurd h List.not_mem_nil,
      fun _ h => absurd h List.not_mem_nil, fun _ h => absurd h List.not_mem_nil⟩
  | append_singleton targets target ih =>
    rw [List.foldl_append]
    exact ih.add target

/-! ## The scan -/

section Scan
variable {find : Api → Lookup} {registrationName : String}

theorem scanScopes_found {scopes : List (RecoveryScope Api)} {scan result : Scan Api} (hfound : scan.found = true) :
    scanScopes find registrationName scopes scan = .ok result ↔
      (∀ scope ∈ scopes, find scope.api = .absent) ∧ result = scan := by
  induction scopes with
  | nil => simp [scanScopes, eq_comm]
  | cons scope scopes ih =>
    rw [scanScopes, List.forall_mem_cons]
    cases hfind : find scope.api with
    | failed cause => simp
    | absent => simpa using ih
    | present runner =>
      simp only [hfound, if_true, reduceCtorEq, false_and, iff_false]
      split
      · exact fun h => nomatch h
      · exact fun h => nomatch h

theorem exists_split_cons {α : Type} {head : α} {tail : List α} {P : List α → α → List α → Prop} :
    (∃ before x after, head :: tail = before ++ x :: after ∧ P before x after) ↔
      P [] head tail ∨ ∃ before x after, tail = before ++ x :: after ∧ P (head :: before) x after := by
  constructor
  · rintro ⟨before, x, after, heq, h⟩
    cases before with
    | nil =>
      obtain ⟨rfl, rfl⟩ := List.cons.inj heq
      exact Or.inl h
    | cons y before =>
      obtain ⟨rfl, rfl⟩ := List.cons.inj heq
      exact Or.inr ⟨before, x, after, rfl, h⟩
  · rintro (h | ⟨before, x, after, rfl, h⟩)
    · exact ⟨[], head, tail, rfl, h⟩
    · exact ⟨head :: before, x, after, rfl, h⟩

def OnlyIn (find : Api → Lookup) (registrationName : String) (runner : RunnerReference)
    (before : List (RecoveryScope Api))
    (scope : RecoveryScope Api) (after : List (RecoveryScope Api)) : Prop :=
  (∀ other ∈ before ++ after, find other.api = .absent) ∧ find scope.api = .present runner ∧
    validReference registrationName runner = true

/-- The scan after the scope that has the registration. -/
def scanOf (scope : RecoveryScope Api) (runner : RunnerReference) : Scan Api where
  found := true
  unknownScaleSet := (scope.scaleSets.lookup runner.scaleSetID).isNone
  matched := (scope.scaleSets.lookup runner.scaleSetID).map (·, runner)

theorem scanScopes_ok {scopes : List (RecoveryScope Api)} {result : Scan Api} :
    scanScopes find registrationName scopes {} = .ok result ↔
      ((∀ scope ∈ scopes, find scope.api = .absent) ∧ result = {}) ∨
      ∃ before scope after, scopes = before ++ scope :: after ∧
        ∃ runner, OnlyIn find registrationName runner before scope after ∧ result = scanOf scope runner := by
  induction scopes with
  | nil => simp [scanScopes, eq_comm]
  | cons scope scopes ih =>
    rw [scanScopes, List.forall_mem_cons, exists_split_cons]
    cases hfind : find scope.api with
    | failed cause => simp [OnlyIn, hfind]
    | absent => simpa [OnlyIn, hfind] using ih
    | present runner =>
      have hlater : ¬ ∃ before x after, scopes = before ++ x :: after ∧
          ∃ r, OnlyIn find registrationName r (scope :: before) x after ∧ result = scanOf x r := by
        rintro ⟨before, x, after, -, r, ⟨habsent, -⟩, -⟩
        exact Lookup.noConfusion (hfind.symm.trans (habsent scope List.mem_cons_self))
      have hhere : (∃ r, OnlyIn find registrationName r [] scope scopes ∧ result = scanOf scope r) ↔
          validReference registrationName runner = true ∧ (∀ other ∈ scopes, find other.api = .absent) ∧
            result = scanOf scope runner := by
        constructor
        · rintro ⟨r, ⟨habsent, hpresent, hvalid⟩, heq⟩
          obtain rfl := Lookup.present.inj (hfind.symm.trans hpresent)
          exact ⟨hvalid, habsent, heq⟩
        · rintro ⟨hvalid, habsent, heq⟩
          exact ⟨runner, ⟨habsent, hfind, hvalid⟩, heq⟩
      simp only [reduceCtorEq, false_and, false_or, hlater, or_false, hhere]
      cases hvalid : validReference registrationName runner with
      | false => simp
      | true =>
        simp only [Bool.true_eq_false, if_false, true_and]
        unfold scanOf
        cases hknown : scope.scaleSets.lookup runner.scaleSetID with
        | none => exact scanScopes_found rfl
        | some target => exact scanScopes_found rfl

/-! ## What the scopes report -/

def Reports (find : Api → Lookup) (targets : List (RecoveryTarget Api)) (scopeKey : String) (answer : Lookup) : Prop :=
  ∃ target, targets.find? (·.scopeKey = scopeKey) = some target ∧ find target.api = answer

/-- No scope of the targets has the registration. -/
def Nowhere (find : Api → Lookup) (targets : List (RecoveryTarget Api)) : Prop :=
  ∀ target ∈ targets, Reports find targets target.scopeKey .absent

/-- The scope of a target has the registration, under a scale set that the target is known by, and no other
    scope has it. -/
structure FoundAt (find : Api → Lookup) (targets : List (RecoveryTarget Api)) (registrationName : String)
    (target : RecoveryTarget Api) (runner : RunnerReference) : Prop where
  mem : target ∈ targets
  present : Reports find targets target.scopeKey (.present runner)
  positive : 1 ≤ runner.id ∧ 1 ≤ runner.scaleSetID
  exact_name : runner.name = registrationName
  known : target.scaleSetID = runner.scaleSetID
  others : ∀ other ∈ targets, other.scopeKey ≠ target.scopeKey → Reports find targets other.scopeKey .absent

theorem validReference_iff {runner : RunnerReference} : validReference registrationName runner = true ↔
    (1 ≤ runner.id ∧ 1 ≤ runner.scaleSetID) ∧ runner.name = registrationName := by
  unfold validReference
  rw [decide_eq_true_iff, not_or, not_or, not_lt, not_lt, not_not]
  constructor
  · rintro ⟨hid, hname, hscale⟩
    exact ⟨⟨hid, hscale⟩, hname⟩
  · rintro ⟨⟨hid, hscale⟩, hname⟩
    exact ⟨hid, hname, hscale⟩

theorem Grouped.reports {scopes : List (RecoveryScope Api)} (h : Grouped targets scopes) {scope : RecoveryScope Api}
    (hscope : scope ∈ scopes) {answer : Lookup} :
    Reports find targets scope.scopeKey answer ↔ find scope.api = answer := by
  obtain ⟨first, hfirst, hapi⟩ := h.first scope hscope
  constructor
  · rintro ⟨target, htarget, hanswer⟩
    obtain rfl := Option.some.inj (hfirst.symm.trans htarget)
    rwa [hapi]
  · exact fun hanswer => ⟨first, hfirst, hapi ▸ hanswer⟩

theorem Grouped.nowhere {scopes : List (RecoveryScope Api)} (h : Grouped targets scopes) :
    Nowhere find targets ↔ ∀ scope ∈ scopes, find scope.api = .absent := by
  constructor
  · intro hnowhere scope hscope
    obtain ⟨first, hfirst, -⟩ := h.first scope hscope
    have hkey : first.scopeKey = scope.scopeKey := by simpa using List.find?_some hfirst
    have hreport := hnowhere first (List.mem_of_find?_eq_some hfirst)
    rw [hkey] at hreport
    exact (h.reports hscope).mp hreport
  · intro habsent target htarget
    obtain ⟨scope, hscope, hkey⟩ := h.covered target htarget
    rw [← hkey]
    exact (h.reports hscope).mpr (habsent scope hscope)

theorem Grouped.beside {before after : List (RecoveryScope Api)} {scope : RecoveryScope Api}
    (h : Grouped targets (before ++ scope :: after)) {other : RecoveryScope Api} :
    other ∈ before ++ after ↔ other ∈ before ++ scope :: after ∧ other.scopeKey ≠ scope.scopeKey := by
  have hdistinct := h.distinct
  rw [List.map_append, List.map_cons] at hdistinct
  have hscope := (List.nodup_middle.mp hdistinct)
  rw [List.nodup_cons, ← List.map_append] at hscope
  constructor
  · intro hother
    refine ⟨by simpa using Or.imp_right Or.inr (List.mem_append.mp hother), fun hkey => hscope.1 ?_⟩
    exact List.mem_map.mpr ⟨other, hother, hkey⟩
  · rintro ⟨hother, hkey⟩
    rw [List.mem_append, List.mem_cons] at hother
    rcases hother with hother | rfl | hother
    · exact List.mem_append_left _ hother
    · exact absurd rfl hkey
    · exact List.mem_append_right _ hother

theorem Grouped.others {before after : List (RecoveryScope Api)} {scope : RecoveryScope Api}
    (h : Grouped targets (before ++ scope :: after)) :
    (∀ other ∈ before ++ after, find other.api = .absent) ↔
      ∀ target ∈ targets, target.scopeKey ≠ scope.scopeKey → Reports find targets target.scopeKey .absent := by
  constructor
  · intro habsent target htarget hne
    obtain ⟨other, hother, hkey⟩ := h.covered target htarget
    rw [← hkey] at hne ⊢
    exact (h.reports hother).mpr (habsent other (h.beside.mpr ⟨hother, hne⟩))
  · intro hreports other hother
    obtain ⟨hmem, hne⟩ := h.beside.mp hother
    obtain ⟨first, hfirst, -⟩ := h.first other hmem
    have hkey : first.scopeKey = other.scopeKey := by simpa using List.find?_some hfirst
    have hreport := hreports first (List.mem_of_find?_eq_some hfirst) (hkey ▸ hne)
    rw [hkey] at hreport
    exact (h.reports hmem).mp hreport

theorem findOrphaned_none : findOrphanedRunnerRegistration find targets registrationName = .ok none ↔
    Nowhere find targets := by
  rw [(recoveryScopes_grouped targets).nowhere]
  unfold findOrphanedRunnerRegistration
  cases hscan : scanScopes find registrationName (recoveryScopes targets) {} with
  | error fault =>
    simp only [reduceCtorEq, false_iff]
    intro habsent
    exact nomatch hscan.symm.trans (scanScopes_ok.mpr (Or.inl ⟨habsent, rfl⟩))
  | ok scan =>
    rcases scanScopes_ok.mp hscan with ⟨habsent, rfl⟩ | ⟨before, scope, after, heq, runner, honly, rfl⟩
    · simpa using habsent
    · have hpresent : ¬ ∀ scope ∈ recoveryScopes targets, find scope.api = .absent := by
        intro habsent
        have hscope := habsent scope (by rw [heq]; simp)
        exact Lookup.noConfusion (hscope.symm.trans honly.2.1)
      simp only [hpresent, iff_false, scanOf, if_true]
      cases scope.scaleSets.lookup runner.scaleSetID with
      | none => simp
      | some target => simp

theorem findOrphaned_some {target : RecoveryTarget Api} {runner : RunnerReference}
    (h : findOrphanedRunnerRegistration find targets registrationName = .ok (some (target, runner))) :
    FoundAt find targets registrationName target runner := by
  have hgrouped := recoveryScopes_grouped targets
  unfold findOrphanedRunnerRegistration at h
  cases hscan : scanScopes find registrationName (recoveryScopes targets) {} with
  | error fault =>
    rw [hscan] at h
    exact nomatch h
  | ok scan =>
    rw [hscan] at h
    rcases scanScopes_ok.mp hscan with ⟨-, rfl⟩ | ⟨before, scope, after, heq, found, ⟨habsent, hpresent, hvalid⟩, rfl⟩
    · exact nomatch h
    · rw [heq] at hgrouped
      have hscope : scope ∈ before ++ scope :: after := by simp
      simp only [scanOf, if_true] at h
      cases hknown : scope.scaleSets.lookup found.scaleSetID with
      | none =>
        rw [hknown] at h
        exact nomatch h
      | some known =>
        rw [hknown] at h
        obtain ⟨rfl, rfl⟩ : known = target ∧ found = runner := by simpa using h
        obtain ⟨hmem, hkey, hid⟩ := hgrouped.known scope hscope _ _ hknown
        obtain ⟨hpositive, hname⟩ := validReference_iff.mp hvalid
        refine ⟨hmem, ?_, hpositive, hname, hid, ?_⟩
        · rw [hkey]
          exact (hgrouped.reports hscope).mpr hpresent
        · rw [hkey]
          exact hgrouped.others.mp habsent

theorem FoundAt.lookup {target : RecoveryTarget Api} {runner : RunnerReference}
    (h : FoundAt find targets registrationName target runner) :
    ∃ found, found ∈ targets ∧ found.scopeKey = target.scopeKey ∧
      findOrphanedRunnerRegistration find targets registrationName = .ok (some (found, runner)) := by
  have hgrouped := recoveryScopes_grouped targets
  obtain ⟨scope, hscope, hkey⟩ := hgrouped.covered target h.mem
  obtain ⟨before, after, heq⟩ := List.append_of_mem hscope
  have hpresent : _ = _ := (hgrouped.reports hscope).mp (hkey ▸ h.present)
  cases hknown : scope.scaleSets.lookup runner.scaleSetID with
  | none => exact absurd (h.known ▸ hknown) (hgrouped.knows scope hscope target h.mem hkey.symm)
  | some found =>
    obtain ⟨hfound, hkey', -⟩ := hgrouped.known scope hscope _ _ hknown
    refine ⟨found, hfound, hkey'.trans hkey, ?_⟩
    have hothers : ∀ other ∈ before ++ after, find other.api = .absent := by
      rw [heq] at hgrouped
      exact hgrouped.others.mpr (hkey ▸ h.others)
    have honly : OnlyIn find registrationName runner before scope after :=
      ⟨hothers, hpresent, validReference_iff.mpr ⟨h.positive, h.exact_name⟩⟩
    have hscan : scanScopes find registrationName (recoveryScopes targets) {} = .ok (scanOf scope runner) :=
      scanScopes_ok.mpr (Or.inr ⟨before, scope, after, heq, runner, honly, rfl⟩)
    unfold findOrphanedRunnerRegistration
    rw [hscan]
    simp [scanOf, hknown]

end Scan

/-! ## Proven absence -/

section Proof
variable {answers : RecoveryAnswers Api} {turn : Nat} {lease : Lease}

/-- In its turn a lease is proven to have no registration: no scope has it, or the only one that has it, exactly,
    has removed it or does not find it any more. -/
inductive ProvenAbsent (answers : RecoveryAnswers Api) (targets : List (RecoveryTarget Api)) (turn : Nat)
    (lease : Lease) : Prop
  | nowhere (h : Nowhere (answers.find turn · (leaseRegistrationName lease)) targets)
  | removed (target : RecoveryTarget Api) (runner : RunnerReference)
      (found : FoundAt (answers.find turn · (leaseRegistrationName lease)) targets
        (leaseRegistrationName lease) target runner)
      (removed : answers.remove turn target.api runner.id = .removed ∨
        answers.remove turn target.api runner.id = .notFound)

theorem registrationRemovalError_eq_none {answer : RemovalAnswer} :
    registrationRemovalError answer = none ↔ answer = .removed ∨ answer = .notFound := by
  cases answer <;> simp [registrationRemovalError]

theorem reconcileOrphan_cases (answers : RecoveryAnswers Api) (targets : List (RecoveryTarget Api)) (turn : Nat)
    (lease : Lease) :
    ((∀ t slotKey, RecoveryCall.reconcileAbsent t slotKey ∉ (reconcileOrphan answers targets turn lease).1) ∧
        (reconcileOrphan answers targets turn lease).2 ≠ none) ∨
      (ProvenAbsent answers targets turn lease ∧
        (∀ t slotKey, RecoveryCall.reconcileAbsent t slotKey ∈ (reconcileOrphan answers targets turn lease).1 ↔
          t = turn ∧ slotKey = lease.slotKey) ∧
        (reconcileOrphan answers targets turn lease).2 = (answers.reconcile turn lease.slotKey).map .reconcile) := by
  unfold reconcileOrphan
  dsimp only
  split
  next => exact Or.inl ⟨fun _ _ => List.not_mem_nil, Option.some_ne_none _⟩
  next hfind => exact Or.inr ⟨.nowhere (findOrphaned_none.mp hfind), by simp, rfl⟩
  next target runner hfind =>
    split
    next => exact Or.inl ⟨by simp, Option.some_ne_none _⟩
    next hremoved =>
      exact Or.inr ⟨.removed target runner (findOrphaned_some hfind) (registrationRemovalError_eq_none.mp hremoved),
        by simp, rfl⟩

theorem mem_reconcileOrphans {call : RecoveryCall Api} {start : Nat} {pending : List Lease} :
    call ∈ (reconcileOrphans answers targets start pending).1 ↔
      ∃ (i : Nat) (lease : Lease), pending[i]? = some lease ∧
        call ∈ (reconcileOrphan answers targets (start + i) lease).1 := by
  induction pending generalizing start with
  | nil => simp [reconcileOrphans]
  | cons lease pending ih =>
    rw [reconcileOrphans, List.mem_append, ih]
    constructor
    · rintro (hcall | ⟨i, lease', hlease, hcall⟩)
      · exact ⟨0, lease, rfl, hcall⟩
      · exact ⟨i + 1, lease', hlease, by rwa [Nat.add_right_comm, Nat.add_assoc] at hcall⟩
    · rintro ⟨i, lease', hlease, hcall⟩
      cases i with
      | zero =>
        obtain rfl := Option.some.inj hlease
        exact Or.inl hcall
      | succ i => exact Or.inr ⟨i, lease', hlease, by rwa [Nat.add_right_comm, Nat.add_assoc]⟩

theorem reconcileOrphans_faults {start : Nat} {pending : List Lease} :
    (reconcileOrphans answers targets start pending).2 = [] ↔
      ∀ (i : Nat) (lease : Lease), pending[i]? = some lease →
        (reconcileOrphan answers targets (start + i) lease).2 = none := by
  induction pending generalizing start with
  | nil => simp [reconcileOrphans]
  | cons lease pending ih =>
    rw [reconcileOrphans, List.append_eq_nil_iff, Option.toList_eq_nil_iff, ih]
    constructor
    · rintro ⟨hfirst, hrest⟩ i lease' hlease
      cases i with
      | zero =>
        obtain rfl := Option.some.inj hlease
        exact hfirst
      | succ i =>
        have := hrest i lease' hlease
        rwa [Nat.add_right_comm, Nat.add_assoc] at this
    · intro h
      refine ⟨h 0 lease rfl, fun i lease' hlease => ?_⟩
      rw [Nat.add_right_comm, Nat.add_assoc]
      exact h (i + 1) lease' hlease

theorem reconcileAbsent_proven {pending : List Lease} {slotKey : String}
    (h : .reconcileAbsent turn slotKey ∈ (reconcileOrphanedHostAdmissionLeases answers targets pending).1) :
    ∃ lease, pending[turn]? = some lease ∧ lease.slotKey = slotKey ∧ ProvenAbsent answers targets turn lease := by
  unfold reconcileOrphanedHostAdmissionLeases at h
  split at h
  · exact absurd h List.not_mem_nil
  · split at h
    · exact absurd h List.not_mem_nil
    · obtain ⟨i, lease, hlease, hcall⟩ := mem_reconcileOrphans.mp h
      rw [Nat.zero_add] at hcall
      rcases reconcileOrphan_cases answers targets i lease with ⟨hnone, -⟩ | ⟨hproven, hcalls, -⟩
      · exact absurd hcall (hnone turn slotKey)
      · obtain ⟨rfl, rfl⟩ := (hcalls turn slotKey).mp hcall
        exact ⟨lease, hlease, rfl, hproven⟩

theorem reconciled_of_no_fault {pending : List Lease}
    (h : (reconcileOrphanedHostAdmissionLeases answers targets pending).2 = []) (hlease : pending[turn]? = some lease) :
    .reconcileAbsent turn lease.slotKey ∈ (reconcileOrphanedHostAdmissionLeases answers targets pending).1 ∧
      answers.reconcile turn lease.slotKey = none ∧ ProvenAbsent answers targets turn lease := by
  unfold reconcileOrphanedHostAdmissionLeases at h ⊢
  split at h
  next hempty =>
    rw [hempty] at hlease
    exact nomatch hlease
  next hpending =>
    rw [if_neg hpending]
    split at h
    · exact absurd h (List.cons_ne_nil _ _)
    next htargets =>
      rw [if_neg htargets]
      have hfault := reconcileOrphans_faults.mp h turn lease hlease
      rw [Nat.zero_add] at hfault
      rcases reconcileOrphan_cases answers targets turn lease with ⟨-, hne⟩ | ⟨hproven, hcalls, heq⟩
      · exact absurd hfault hne
      · refine ⟨mem_reconcileOrphans.mpr ⟨turn, lease, hlease, ?_⟩, ?_, hproven⟩
        · rw [Nat.zero_add]
          exact (hcalls turn lease.slotKey).mpr ⟨rfl, rfl⟩
        · exact Option.map_eq_none_iff.mp (heq.symm.trans hfault)

theorem completeAdoption_not_mem {pending : List Lease} :
    RecoveryCall.completeAdoption ∉ (reconcileOrphanedHostAdmissionLeases answers targets pending).1 := by
  have hturn : ∀ turn lease, RecoveryCall.completeAdoption ∉ (reconcileOrphan answers targets turn lease).1 := by
    intro turn lease
    unfold reconcileOrphan
    dsimp only
    split
    · exact List.not_mem_nil
    · simp
    · split
      · simp
      · simp
  unfold reconcileOrphanedHostAdmissionLeases
  split
  · exact List.not_mem_nil
  · split
    · exact List.not_mem_nil
    · intro h
      obtain ⟨i, lease, -, hcall⟩ := mem_reconcileOrphans.mp h
      exact hturn _ lease hcall

/-! ## The order of the targets -/

/-- The answers are those of the scopes: all clients of a scope get the same. -/
structure ByScope (answers : RecoveryAnswers Api) (targets : List (RecoveryTarget Api)) : Prop where
  find : ∀ turn registrationName, ∀ a ∈ targets, ∀ b ∈ targets, a.scopeKey = b.scopeKey →
    answers.find turn a.api registrationName = answers.find turn b.api registrationName
  remove : ∀ turn id, ∀ a ∈ targets, ∀ b ∈ targets, a.scopeKey = b.scopeKey →
    answers.remove turn a.api id = answers.remove turn b.api id

theorem ByScope.reports (h : ByScope answers targets) {target : RecoveryTarget Api} (htarget : target ∈ targets)
    {registrationName : String} {answer : Lookup} :
    Reports (answers.find turn · registrationName) targets target.scopeKey answer ↔
      answers.find turn target.api registrationName = answer := by
  have hsome : (targets.find? (·.scopeKey = target.scopeKey)).isSome := by
    rw [List.find?_isSome]
    exact ⟨target, htarget, decide_eq_true rfl⟩
  obtain ⟨first, hfirst⟩ := Option.isSome_iff_exists.mp hsome
  have hkey : first.scopeKey = target.scopeKey := by simpa using List.find?_some hfirst
  have hsame := h.find turn registrationName first (List.mem_of_find?_eq_some hfirst) target htarget hkey
  constructor
  · rintro ⟨other, hother, hanswer⟩
    obtain rfl := Option.some.inj (hfirst.symm.trans hother)
    exact hsame.symm.trans hanswer
  · exact fun hanswer => ⟨first, hfirst, hsame.trans hanswer⟩

theorem ByScope.reported (h : ByScope answers targets) (hproven : ProvenAbsent answers targets turn lease) :
    .reconcileAbsent turn lease.slotKey ∈ (reconcileOrphan answers targets turn lease).1 := by
  unfold reconcileOrphan
  dsimp only
  cases hproven with
  | nowhere hnowhere =>
    rw [findOrphaned_none.mpr hnowhere]
    exact List.mem_singleton.mpr rfl
  | removed target runner hfound hremoved =>
    obtain ⟨found, hmem, hkey, heq⟩ := hfound.lookup
    have hsame := h.remove turn runner.id found hmem target hfound.mem hkey
    rw [heq]
    dsimp only
    rw [hsame, registrationRemovalError_eq_none.mpr hremoved]
    exact List.mem_cons_of_mem _ (List.mem_singleton.mpr rfl)

theorem ByScope.perm {targets' : List (RecoveryTarget Api)} (h : ByScope answers targets)
    (hperm : targets'.Perm targets) :
    ByScope answers targets' :=
  ⟨fun turn name a ha b hb => h.find turn name a (hperm.mem_iff.mp ha) b (hperm.mem_iff.mp hb),
    fun turn id a ha b hb => h.remove turn id a (hperm.mem_iff.mp ha) b (hperm.mem_iff.mp hb)⟩

theorem ProvenAbsent.perm {targets' : List (RecoveryTarget Api)} (hperm : targets'.Perm targets)
    (h : ByScope answers targets) (hproven : ProvenAbsent answers targets turn lease) :
    ProvenAbsent answers targets' turn lease := by
  have h' := h.perm hperm
  cases hproven with
  | nowhere hnowhere =>
    refine .nowhere fun target htarget => (h'.reports htarget).mpr ?_
    exact (h.reports (hperm.mem_iff.mp htarget)).mp (hnowhere target (hperm.mem_iff.mp htarget))
  | removed target runner hfound hremoved =>
    have htarget := hperm.mem_iff.mpr hfound.mem
    refine .removed target runner ⟨htarget, ?_, hfound.positive, hfound.exact_name, hfound.known, ?_⟩ hremoved
    · exact (h'.reports htarget).mpr ((h.reports hfound.mem).mp hfound.present)
    · intro other hother hne
      have hother' := hperm.mem_iff.mp hother
      exact (h'.reports hother).mpr ((h.reports hother').mp (hfound.others other hother' hne))

/-- What is reported, and whether there is a fault, of one order of the targets and then of another. -/
theorem ByScope.reconcile_perm {targets' : List (RecoveryTarget Api)} (h : ByScope answers targets)
    (hperm : targets'.Perm targets) (pending : List Lease) :
    (∀ turn slotKey, .reconcileAbsent turn slotKey ∈ (reconcileOrphanedHostAdmissionLeases answers targets pending).1 →
      .reconcileAbsent turn slotKey ∈ (reconcileOrphanedHostAdmissionLeases answers targets' pending).1) ∧
    ((reconcileOrphanedHostAdmissionLeases answers targets pending).2 = [] →
      (reconcileOrphanedHostAdmissionLeases answers targets' pending).2 = []) := by
  by_cases hpending : pending = []
  · subst hpending
    exact ⟨fun _ _ h => absurd h List.not_mem_nil, fun h => h⟩
  have h' := h.perm hperm
  have hempty : targets'.isEmpty = targets.isEmpty := hperm.isEmpty_eq
  unfold reconcileOrphanedHostAdmissionLeases
  rw [if_neg hpending, if_neg hpending, hempty]
  split
  · exact ⟨fun _ _ h => h, fun h => h⟩
  refine ⟨fun turn slotKey hcall => ?_, fun hfaults => reconcileOrphans_faults.mpr fun i lease hlease => ?_⟩
  · obtain ⟨i, lease, hlease, hcall⟩ := mem_reconcileOrphans.mp hcall
    refine mem_reconcileOrphans.mpr ⟨i, lease, hlease, ?_⟩
    rcases reconcileOrphan_cases answers targets (0 + i) lease with ⟨hnone, -⟩ | ⟨hproven, hcalls, -⟩
    · exact absurd hcall (hnone turn slotKey)
    · obtain ⟨rfl, rfl⟩ := (hcalls turn slotKey).mp hcall
      exact h'.reported (hproven.perm hperm h)
  · have hfault := reconcileOrphans_faults.mp hfaults i lease hlease
    rcases reconcileOrphan_cases answers targets (0 + i) lease with ⟨-, hne⟩ | ⟨hproven, -, heq⟩
    · exact absurd hfault hne
    · rcases reconcileOrphan_cases answers targets' (0 + i) lease with ⟨hnone, -⟩ | ⟨-, -, heq'⟩
      · exact absurd (h'.reported (hproven.perm hperm h)) (hnone _ _)
      · rw [heq', ← heq, hfault]

/-! ## What stands in the way -/

/-- A scope could not be asked, two have the registration, or one has it with an identity that is not valid or
    under a scale set that no target of the scope is known by. -/
inductive Obstructed (find : Api → Lookup) (targets : List (RecoveryTarget Api)) (registrationName : String) : Prop
  | failed (target : RecoveryTarget Api) (mem : target ∈ targets) (cause : String)
      (h : Reports find targets target.scopeKey (.failed cause))
  | ambiguous (a b : RecoveryTarget Api) (hne : a.scopeKey ≠ b.scopeKey) (ha : a ∈ targets) (hb : b ∈ targets)
      (runner other : RunnerReference) (hrunner : Reports find targets a.scopeKey (.present runner))
      (hother : Reports find targets b.scopeKey (.present other))
  | invalid (target : RecoveryTarget Api) (mem : target ∈ targets) (runner : RunnerReference)
      (h : Reports find targets target.scopeKey (.present runner))
      (hinvalid : runner.id < 1 ∨ runner.scaleSetID < 1 ∨ runner.name ≠ registrationName)
  | unknown (target : RecoveryTarget Api) (mem : target ∈ targets) (runner : RunnerReference)
      (h : Reports find targets target.scopeKey (.present runner))
      (hunknown : ∀ known ∈ targets, known.scopeKey = target.scopeKey → known.scaleSetID ≠ runner.scaleSetID)

theorem Reports.unique {find : Api → Lookup} {scopeKey : String} {a b : Lookup} (ha : Reports find targets scopeKey a)
    (hb : Reports find targets scopeKey b) : a = b := by
  obtain ⟨target, htarget, rfl⟩ := ha
  obtain ⟨target', htarget', rfl⟩ := hb
  rw [Option.some.inj (htarget.symm.trans htarget')]

/-- What a scope says other than that the registration is absent, if a lease is proven absent, is where it was
    found. -/
theorem FoundAt.at {find : Api → Lookup} {registrationName : String} {target : RecoveryTarget Api}
    {runner : RunnerReference}
    (h : FoundAt find targets registrationName target runner) {other : RecoveryTarget Api} (hother : other ∈ targets)
    {answer : Lookup} (hanswer : Reports find targets other.scopeKey answer) (hpresent : answer ≠ .absent) :
    other.scopeKey = target.scopeKey ∧ answer = .present runner := by
  by_cases hkey : other.scopeKey = target.scopeKey
  · rw [hkey] at hanswer
    exact ⟨hkey, hanswer.unique h.present⟩
  · exact absurd (hanswer.unique (h.others other hother hkey)) hpresent

theorem Obstructed.not_proven (h : Obstructed (answers.find turn · (leaseRegistrationName lease)) targets
    (leaseRegistrationName lease)) : ¬ ProvenAbsent answers targets turn lease := by
  intro hproven
  cases hproven with
  | nowhere hnowhere =>
    cases h with
    | failed target mem cause h => exact Lookup.noConfusion (h.unique (hnowhere target mem))
    | ambiguous a b hne ha hb runner other hrunner hother => exact Lookup.noConfusion (hrunner.unique (hnowhere a ha))
    | invalid target mem runner h hinvalid => exact Lookup.noConfusion (h.unique (hnowhere target mem))
    | unknown target mem runner h hunknown => exact Lookup.noConfusion (h.unique (hnowhere target mem))
  | removed target runner hfound hremoved =>
    cases h with
    | failed other mem cause h => exact Lookup.noConfusion (hfound.at mem h (fun h => nomatch h)).2
    | ambiguous a b hne ha hb first second hfirst hsecond =>
      have hkey := (hfound.at ha hfirst (fun h => nomatch h)).1
      exact hne (hkey.trans (hfound.at hb hsecond (fun h => nomatch h)).1.symm)
    | invalid other mem found h hinvalid =>
      obtain ⟨-, heq⟩ := hfound.at mem h (fun h => nomatch h)
      obtain rfl := Lookup.present.inj heq
      obtain ⟨hid, hscale⟩ := hfound.positive
      rcases hinvalid with hinvalid | hinvalid | hinvalid
      · omega
      · omega
      · exact hinvalid hfound.exact_name
    | unknown other mem found h hunknown =>
      obtain ⟨hkey, heq⟩ := hfound.at mem h (fun h => nomatch h)
      obtain rfl := Lookup.present.inj heq
      exact hunknown target hfound.mem hkey.symm hfound.known

end Proof

/-! ## A cycle -/

def pendingLeases (cfg : Config) (answers : RecoveryAnswers Api) : List Lease :=
  (pendingAdoptionLeases cfg.profileID answers.status).toOption.getD []

/-- A cycle makes no call, makes those for the pending leases and stops at a fault, or completes the adoption
    after them. -/
theorem complete_cases (pkg : Packages) (cfg : Config) (m : HostRecovery Api) (answers : RecoveryAnswers Api)
    (now : Int) :
    (m.completeHostAdmissionAdoptionIfReady pkg cfg answers now).calls = [] ∨
      ∃ calls faults, (calls, faults) =
          reconcileOrphanedHostAdmissionLeases answers m.hostAdmissionRecoveryTargets (pendingLeases cfg answers) ∧
        (((m.completeHostAdmissionAdoptionIfReady pkg cfg answers now).calls = calls) ∨
          (faults = [] ∧ (m.completeHostAdmissionAdoptionIfReady pkg cfg answers now).calls =
            calls ++ [.completeAdoption])) := by
  unfold HostRecovery.completeHostAdmissionAdoptionIfReady
  split
  · exact Or.inl rfl
  · split
    · exact Or.inl rfl
    next pending hpending =>
      have hleases : pendingLeases cfg answers = pending := by
        unfold pendingLeases
        rw [hpending]
        rfl
      rw [hleases]
      split
      · exact Or.inl rfl
      · dsimp only
        split
        · exact Or.inl rfl
        · refine Or.inr ⟨_, _, rfl, ?_⟩
          split
          · exact Or.inl rfl
          next hfaults =>
            refine Or.inr ⟨not_not.mp hfaults, ?_⟩
            split
            · rfl
            · rfl

section Cycle
variable {pkg : Packages} {cfg : Config} {m : HostRecovery Api} {answers : RecoveryAnswers Api} {now : Int}

theorem complete_reported {turn : Nat} {slotKey : String}
    (h : .reconcileAbsent turn slotKey ∈ (m.completeHostAdmissionAdoptionIfReady pkg cfg answers now).calls) :
    .reconcileAbsent turn slotKey ∈
      (reconcileOrphanedHostAdmissionLeases answers m.hostAdmissionRecoveryTargets (pendingLeases cfg answers)).1 := by
  rcases complete_cases pkg cfg m answers now with hnone | ⟨calls, faults, heq, hcalls | ⟨-, hcalls⟩⟩
  · rw [hnone] at h
    exact absurd h List.not_mem_nil
  · rw [← heq]
    rwa [hcalls] at h
  · rw [← heq]
    rw [hcalls] at h
    simpa using h

theorem complete_completed
    (h : .completeAdoption ∈ (m.completeHostAdmissionAdoptionIfReady pkg cfg answers now).calls) :
    (reconcileOrphanedHostAdmissionLeases answers m.hostAdmissionRecoveryTargets (pendingLeases cfg answers)).2 = [] ∧
      ∀ call ∈ (reconcileOrphanedHostAdmissionLeases answers m.hostAdmissionRecoveryTargets
        (pendingLeases cfg answers)).1, call ∈ (m.completeHostAdmissionAdoptionIfReady pkg cfg answers now).calls := by
  have hmem := @completeAdoption_not_mem Api m.hostAdmissionRecoveryTargets answers (pendingLeases cfg answers)
  rcases complete_cases pkg cfg m answers now with hnone | ⟨calls, faults, heq, hcalls | ⟨hfaults, hcalls⟩⟩
  · rw [hnone] at h
    exact absurd h List.not_mem_nil
  · rw [← heq] at hmem
    rw [hcalls] at h
    exact absurd h hmem
  · rw [← heq, hcalls]
    exact ⟨hfaults, fun call hcall => List.mem_append_left _ hcall⟩

end Cycle

/-- In every cycle, whatever is answered: a pending lease is reported as absent only if it is proven to be; what
    stands in the way of that leaves the lease and the fence; the adoption is completed only in a cycle that has
    reported every pending lease; and none of this depends on the order of the targets. -/
theorem orphans_reconciled_on_absence (pkg : Packages) (cfg : Config) (m : HostRecovery Api)
    (answers : RecoveryAnswers Api) (now : Int) :
    (∀ turn slotKey, .reconcileAbsent turn slotKey ∈ (m.completeHostAdmissionAdoptionIfReady pkg cfg
      answers now).calls →
      ∃ lease, (pendingLeases cfg answers)[turn]? = some lease ∧ lease.slotKey = slotKey ∧
        ProvenAbsent answers m.hostAdmissionRecoveryTargets turn lease) ∧
    (∀ turn lease, (pendingLeases cfg answers)[turn]? = some lease →
      Obstructed (answers.find turn · (leaseRegistrationName lease)) m.hostAdmissionRecoveryTargets
        (leaseRegistrationName lease) →
      (∀ slotKey, .reconcileAbsent turn slotKey ∉ (m.completeHostAdmissionAdoptionIfReady pkg cfg answers now).calls) ∧
        .completeAdoption ∉ (m.completeHostAdmissionAdoptionIfReady pkg cfg answers now).calls) ∧
    (.completeAdoption ∈ (m.completeHostAdmissionAdoptionIfReady pkg cfg answers now).calls →
      ∀ turn lease, (pendingLeases cfg answers)[turn]? = some lease →
        .reconcileAbsent turn lease.slotKey ∈ (m.completeHostAdmissionAdoptionIfReady pkg cfg answers now).calls ∧
          answers.reconcile turn lease.slotKey = none ∧
            ProvenAbsent answers m.hostAdmissionRecoveryTargets turn lease) ∧
    ∀ (targets targets' : List (RecoveryTarget Api)) (pending : List Lease), targets'.Perm targets →
      ByScope answers targets →
      (∀ turn slotKey, .reconcileAbsent turn slotKey ∈ (reconcileOrphanedHostAdmissionLeases answers
        targets' pending).1 ↔
        .reconcileAbsent turn slotKey ∈ (reconcileOrphanedHostAdmissionLeases answers targets pending).1) ∧
      ((reconcileOrphanedHostAdmissionLeases answers targets' pending).2 = [] ↔
        (reconcileOrphanedHostAdmissionLeases answers targets pending).2 = []) := by
  have hproven : ∀ turn lease, (pendingLeases cfg answers)[turn]? = some lease → ∀ slotKey,
      .reconcileAbsent turn slotKey ∈ (m.completeHostAdmissionAdoptionIfReady pkg cfg answers now).calls →
      ProvenAbsent answers m.hostAdmissionRecoveryTargets turn lease := by
    intro turn lease hlease slotKey hcall
    obtain ⟨found, hfound, -, hproven⟩ := reconcileAbsent_proven (complete_reported hcall)
    rwa [Option.some.inj (hlease.symm.trans hfound)]
  have hcomplete : .completeAdoption ∈ (m.completeHostAdmissionAdoptionIfReady pkg cfg answers now).calls →
      ∀ turn lease, (pendingLeases cfg answers)[turn]? = some lease →
        .reconcileAbsent turn lease.slotKey ∈ (m.completeHostAdmissionAdoptionIfReady pkg cfg answers now).calls ∧
          answers.reconcile turn lease.slotKey = none ∧
            ProvenAbsent answers m.hostAdmissionRecoveryTargets turn lease := by
    intro hcompleted turn lease hlease
    obtain ⟨hfaults, hcalls⟩ := complete_completed hcompleted
    obtain ⟨hcall, hanswer, habsent⟩ := reconciled_of_no_fault hfaults hlease
    exact ⟨hcalls _ hcall, hanswer, habsent⟩
  refine ⟨fun turn slotKey hcall => reconcileAbsent_proven (complete_reported hcall), ?_, hcomplete, ?_⟩
  · intro turn lease hlease hobstructed
    refine ⟨fun slotKey hcall => hobstructed.not_proven (hproven turn lease hlease slotKey hcall), fun hcompleted => ?_⟩
    exact hobstructed.not_proven (hcomplete hcompleted turn lease hlease).2.2
  · intro targets targets' pending hperm hscope
    obtain ⟨hcalls, hfaults⟩ := hscope.reconcile_perm hperm pending
    obtain ⟨hcalls', hfaults'⟩ := (hscope.perm hperm).reconcile_perm hperm.symm pending
    exact ⟨fun turn slotKey => ⟨hcalls' turn slotKey, hcalls turn slotKey⟩, hfaults', hfaults⟩

def idleManager : HostRecovery Nat where
  adoptionPending := true
  recovered := ∅
  controllers := (∅ : Map String (RecoveryController Nat)).insert "widget"
    { registrationURL := "https://github.com/acme", scaleSetID := 7, api := 0, leasesAdopted := true }
  retiring := ∅
  orphanRecoveryTargets := ∅
  current := none
  retirementRecords := ∅
  failures := 0
  retryAt := none
  hostRecoveryPath := ""

/-- The coordinator has one lease left, GitHub has its registration, and every call succeeds. -/
def orphanAnswers : RecoveryAnswers Nat where
  status := .ok (4, {
    namespaceName := "host", epoch := 1, decisionSequence := 1, policy := {}, capacityUnits := 1, safetyMarginUnits := 0
    effectiveTotalUnits := 1, hostPolicyFingerprint := "", availableUnits := 0, accounting := []
    leases := [{ profileID := "acme", slotKey := "slot", leaseID := "id", units := 1, status := .active,
                 grantedAtSequence := 1 }]
    tombstones := [], adoptionFences := [{ profileID := "acme", pendingLeaseKeys := some ["slot"] }]
    lastDecision := none })
  find _ _ registrationName := .present { id := 3, name := registrationName, scaleSetID := 7 }
  remove _ _ _ := .removed
  reconcile _ _ := none
  complete := none
  save := none
  clear := none

/-- The registration is removed, the lease is reported and the adoption is completed. -/
theorem orphans_reconciled_on_absence_idleManager :
    (idleManager.completeHostAdmissionAdoptionIfReady samplePackages sampleConfig orphanAnswers 0).calls =
        [.removeRunner 0 0 3, .reconcileAbsent 0 "slot", .completeAdoption] ∧
      ∃ lease, (pendingLeases sampleConfig orphanAnswers)[0]? = some lease ∧ lease.slotKey = "slot" ∧
        ProvenAbsent orphanAnswers idleManager.hostAdmissionRecoveryTargets 0 lease := by
  have hcalls : (idleManager.completeHostAdmissionAdoptionIfReady samplePackages sampleConfig orphanAnswers 0).calls =
      [.removeRunner 0 0 3, .reconcileAbsent 0 "slot", .completeAdoption] := by decide +kernel
  refine ⟨hcalls, (orphans_reconciled_on_absence samplePackages sampleConfig idleManager orphanAnswers 0).1 0 "slot" ?_⟩
  rw [hcalls]
  simp

end PitCrew.Autoscaler.Orphans
