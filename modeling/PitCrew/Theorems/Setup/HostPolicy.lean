import PitCrew.Base.Machine
import PitCrew.Base.Sha256
import PitCrew.Setup.HostPolicy

/-! # Composed policies and the coordinator

Setup checks each profile of a policy it composes against the budget, and carries the others over. The coordinator
checks the same and one thing more: that the reservations fit the budget together. So a composed policy is accepted
exactly when the reservations that were carried over leave room for the new one. A run of setup publishes the composed
policy, or keeps an acknowledged one that is the same, and the same holds of what it publishes. -/

namespace PitCrew.Setup
open Base Admission

/-- What the documentation of the shell says about the functions that are called. A name that matches without regard
    to case need not match as it stands, so this is about names that do. -/
structure PowerShell.Documented (ps : PowerShell) : Prop where
  isIdentity : ∀ s, profileIDPattern s = true → ps.isIdentity s = true
  canonical : ∀ s, profileIDPattern s = true → ps.toLowerInvariant (ps.trim s) = s
  fingerprint : ∀ v, (ps.fingerprint v).utf8ByteSize = 64 ∧ fingerprintPattern (ps.fingerprint v) = true
  sortProfiles : ∀ l, (ps.sortProfiles l).Perm l

section
variable {ps : PowerShell} (hps : ps.Documented)
include hps

theorem validateFingerprint_ok (name : String) (v : FingerprintValue) :
    validateFingerprint name (ps.fingerprint v) = .ok () := by
  obtain ⟨hsize, hpattern⟩ := hps.fingerprint v
  refine reject_eq_ok.mpr fun hbad => ?_
  rw [hsize, hpattern] at hbad
  rcases hbad.2 with h | h
  · exact absurd h (by decide)
  · cases h

end

/-! ## What setup checks -/

structure Budget (capacityUnits safetyMarginUnits : Int) : Prop where
  capacity : 1 ≤ capacityUnits ∧ capacityUnits ≤ maxValue
  margin : 0 ≤ safetyMarginUnits ∧ safetyMarginUnits < capacityUnits

structure Fits (effective workerCostUnits reservationUnits : Int) : Prop where
  cost : 1 ≤ workerCostUnits ∧ workerCostUnits ≤ effective
  reservation : 0 ≤ reservationUnits ∧ reservationUnits ≤ effective

def desiredProfile (ps : PowerShell) (namespaceName : String) (e : ProfileEntry) : DesiredProfile where
  toProfileEntry := e
  profilePolicyFingerprint :=
    ps.fingerprint (.profilePolicy 1 namespaceName e.profile e.workerCostUnits e.reservationUnits e.borrowable)

def composedPolicy (ps : PowerShell) (generation : Int) (request : PolicyRequest) : DesiredPolicy :=
  let effectiveBudgetUnits := request.capacityUnits - request.safetyMarginUnits
  { schemaVersion := policySchemaVersion
    generation
    namespaceName := request.namespaceName
    capacityUnits := request.capacityUnits
    safetyMarginUnits := request.safetyMarginUnits
    effectiveBudgetUnits
    hostPolicyFingerprint :=
      ps.fingerprint (.hostPolicy 1 request.namespaceName request.capacityUnits request.safetyMarginUnits
        effectiveBudgetUnits)
    profiles := ps.sortProfiles (request.profilePolicies.map (desiredProfile ps request.namespaceName)) }

structure PolicyRequest.Canonical (request : PolicyRequest) : Prop where
  namespaceName : profileIDPattern request.namespaceName = true
  names : ∀ e ∈ request.profilePolicies, profileIDPattern e.profile = true

/-- Everything that setup checks before it composes a policy. -/
structure PolicyRequest.Composable (generation : Int) (request : PolicyRequest) : Prop where
  generation : 1 ≤ generation ∧ generation ≤ maxValue
  budget : Budget request.capacityUnits request.safetyMarginUnits
  fits :
    ∀ e ∈ request.profilePolicies, Fits (request.capacityUnits - request.safetyMarginUnits) e.workerCostUnits
      e.reservationUnits
  distinct : (request.profilePolicies.map (·.profile)).Nodup

section
variable {ps : PowerShell} (hps : ps.Documented)
include hps

theorem convertToRunnerHostAdmissionPolicy_eq_ok {m : AdmissionManifest} {name : String} {a : HostAdmission}
    (hname : profileIDPattern name = true) (hnamespace : profileIDPattern m.namespaceName = true) :
    convertToRunnerHostAdmissionPolicy ps m name = .ok a ↔ Budget m.capacityUnits m.safetyMarginUnits ∧
      Fits (m.capacityUnits - m.safetyMarginUnits) m.workerCostUnits m.reservationUnits ∧
        a = canonicalPolicy ps m name := by
  unfold convertToRunnerHostAdmissionPolicy
  simp only [bind_eq_ok, reject_eq_ok, hps.canonical _ hnamespace, hps.isIdentity _ hname, hps.isIdentity _ hnamespace]
  constructor
  · rintro ⟨_, _, _, _, _, hcapacity, _, hmargin, _, hcost, _, hreservation, h⟩
    exact ⟨⟨by omega, by omega⟩, ⟨by omega, by omega⟩, (Except.ok.inj h).symm⟩
  · rintro ⟨⟨hcapacity, hmargin⟩, ⟨hcost, hreservation⟩, rfl⟩
    exact ⟨(), by simp, (), by simp, (), by omega, (), by omega, (), by omega, (), by omega, rfl⟩

theorem normalizeProfile_eq_ok {namespaceName : String} {capacityUnits safetyMarginUnits : Int} {e : ProfileEntry}
    {p : DesiredProfile}
    (hnamespace : profileIDPattern namespaceName = true) (hname : profileIDPattern e.profile = true)
    (hbudget : Budget capacityUnits safetyMarginUnits) :
    normalizeProfile ps namespaceName capacityUnits safetyMarginUnits e = .ok p ↔
      Fits (capacityUnits - safetyMarginUnits) e.workerCostUnits e.reservationUnits ∧
        p = desiredProfile ps namespaceName e := by
  unfold normalizeProfile
  simp only [hps.canonical _ hname, bind_eq_ok, reject_eq_ok, hps.isIdentity _ hname,
    convertToRunnerHostAdmissionPolicy_eq_ok hps (m := ⟨namespaceName, _, _, _, _, _⟩) hname hnamespace]
  constructor
  · rintro ⟨_, _, _, ⟨_, hfits, rfl⟩, h⟩
    refine ⟨hfits, (Except.ok.inj h).symm.trans ?_⟩
    simp only [canonicalPolicy, desiredProfile, hps.canonical _ hnamespace]
  · rintro ⟨hfits, rfl⟩
    refine ⟨(), by simp, _, ⟨hbudget, hfits, rfl⟩, congrArg Except.ok ?_⟩
    simp only [canonicalPolicy, desiredProfile, hps.canonical _ hnamespace]

theorem normalizeProfiles_eq_ok {request : PolicyRequest} {profiles : List DesiredProfile}
    (hcanonical : request.Canonical)
    (hbudget : Budget request.capacityUnits request.safetyMarginUnits) :
    request.profilePolicies.mapM
      (normalizeProfile ps request.namespaceName request.capacityUnits request.safetyMarginUnits) =
        .ok profiles ↔
      (∀ e ∈ request.profilePolicies,
          Fits (request.capacityUnits - request.safetyMarginUnits) e.workerCostUnits e.reservationUnits) ∧
        profiles = request.profilePolicies.map (desiredProfile ps request.namespaceName) := by
  have hnames := hcanonical.names
  generalize request.profilePolicies = entries at hnames ⊢
  induction entries generalizing profiles with
  | nil => simp [pure, Except.pure, eq_comm]
  | cons e entries ih =>
    obtain ⟨he, hentries⟩ := List.forall_mem_cons.mp hnames
    rw [List.mapM_cons, bind_eq_ok, List.forall_mem_cons, List.map_cons]
    constructor
    · rintro ⟨p, hp, h⟩
      obtain ⟨rest, hrest, h⟩ := bind_eq_ok.mp h
      obtain ⟨hfits, rfl⟩ := (normalizeProfile_eq_ok hps hcanonical.namespaceName he hbudget).mp hp
      obtain ⟨hall, rfl⟩ := (ih hentries).mp hrest
      exact ⟨⟨hfits, hall⟩, (Except.ok.inj h).symm⟩
    · rintro ⟨⟨hfits, hall⟩, rfl⟩
      exact ⟨_, (normalizeProfile_eq_ok hps hcanonical.namespaceName he hbudget).mpr ⟨hfits, rfl⟩,
        bind_eq_ok.mpr ⟨_, (ih hentries).mpr ⟨hall, rfl⟩, rfl⟩⟩

theorem duplicateProfile_eq_none {namespaceName : String} {entries : List ProfileEntry} :
    duplicateProfile (ps.sortProfiles (entries.map (desiredProfile ps namespaceName))) = none ↔
      (entries.map (·.profile)).Nodup := by
  have hperm := (hps.sortProfiles (entries.map (desiredProfile ps namespaceName))).map (·.profile)
  have hsame : (entries.map (desiredProfile ps namespaceName)).map (·.profile) = entries.map (·.profile) := by
    rw [List.map_map]
    rfl
  rw [← hsame, ← hperm.nodup_iff, duplicateProfile, List.find?_eq_none, List.nodup_iff_count_le_one]
  simp only [gt_iff_lt, decide_eq_true_iff, not_lt]
  generalize ps.sortProfiles _ = profiles
  constructor
  · intro h name
    by_cases hmem : name ∈ profiles.map (·.profile)
    · obtain ⟨p, hp, rfl⟩ := List.mem_map.mp hmem
      exact h p hp
    · rw [List.count_eq_zero_of_not_mem hmem]
      exact Nat.zero_le 1
  · exact fun h p _ => h p.profile

theorem newPolicy_eq_ok {generation : Int} {request : PolicyRequest} {policy : DesiredPolicy}
    (hcanonical : request.Canonical) :
    newRunnerHostAdmissionDesiredPolicy ps generation request.namespaceName request.capacityUnits
        request.safetyMarginUnits request.profilePolicies = .ok policy ↔
      request.Composable generation ∧ policy = composedPolicy ps generation request := by
  let host : AdmissionManifest := ⟨request.namespaceName, request.capacityUnits, request.safetyMarginUnits, 1, 0, true⟩
  have hhost {a : HostAdmission} : convertToRunnerHostAdmissionPolicy ps host "host-policy" = .ok a ↔ _ :=
    convertToRunnerHostAdmissionPolicy_eq_ok hps (by decide) hcanonical.namespaceName
  have hname := hps.canonical _ hcanonical.namespaceName
  unfold newRunnerHostAdmissionDesiredPolicy
  simp only [bind_eq_ok, reject_eq_ok, hps.isIdentity _ hcanonical.namespaceName]
  constructor
  · rintro ⟨_, hgeneration, _, _, _, _, _, _, normalized, hnormalized, h⟩
    split at h
    · cases h
    · rename_i hnone
      obtain ⟨_, hconverted, h⟩ := bind_eq_ok.mp h
      obtain ⟨hbudget, _, rfl⟩ := hhost.mp hconverted
      obtain ⟨hfits, rfl⟩ := (normalizeProfiles_eq_ok hps hcanonical hbudget).mp hnormalized
      refine ⟨⟨by omega, hbudget, hfits, (duplicateProfile_eq_none hps).mp hnone⟩, (Except.ok.inj h).symm.trans ?_⟩
      simp only [canonicalPolicy, composedPolicy, host, hname]
  · rintro ⟨hcomposable, rfl⟩
    have hgeneration := hcomposable.generation
    have hcapacity := hcomposable.budget.capacity
    have hmargin := hcomposable.budget.margin
    have hconverted := hhost.mpr ⟨hcomposable.budget, ⟨⟨le_rfl, by dsimp only [host]; omega⟩,
      ⟨le_rfl, by dsimp only [host]; omega⟩⟩, rfl⟩
    refine ⟨(), by omega, (), by simp, (), by omega, (), by omega, _,
      (normalizeProfiles_eq_ok hps hcanonical hcomposable.budget).mpr ⟨hcomposable.fits, rfl⟩, ?_⟩
    rw [(duplicateProfile_eq_none hps).mpr hcomposable.distinct]
    refine bind_eq_ok.mpr ⟨_, hconverted, congrArg Except.ok ?_⟩
    simp only [canonicalPolicy, composedPolicy, host, hname]

end

/-! ## What the coordinator checks -/

def PolicyRequest.reservations (request : PolicyRequest) : Int := (request.profilePolicies.map (·.reservationUnits)).sum

def DesiredPolicy.request (policy : DesiredPolicy) : PolicyRequest :=
  ⟨policy.namespaceName, policy.capacityUnits, policy.safetyMarginUnits, policy.profiles.map (·.toProfileEntry)⟩

/-- The coordinator accepts what the policy is turned into. -/
def DesiredPolicy.Accepted (ps : PowerShell) (policy : DesiredPolicy) : Prop :=
  ∃ service, convertToRunnerHostAdmissionServicePolicy ps policy = .ok service ∧ service.validate = .ok ()

theorem validateProfiles_eq_ok {totalUnits reserved : Int} {seen : List String} {profiles : List ProfilePolicy}
    (hvalid : ∀ p ∈ profiles, p.validate = .ok () ∧ p.unitCost ≤ totalUnits ∧ p.reservedUnits ≤ totalUnits)
    (hdistinct : (profiles.map (·.profileID)).Nodup) (hseen : ∀ p ∈ profiles, p.profileID ∉ seen) :
    validateProfiles id totalUnits seen reserved profiles = .ok (reserved + (profiles.map (·.reservedUnits)).sum) := by
  induction profiles generalizing seen reserved with
  | nil => simp [validateProfiles]
  | cons p profiles ih =>
    obtain ⟨⟨hp, hcost, hreserved⟩, hvalid⟩ := List.forall_mem_cons.mp hvalid
    obtain ⟨hnew, hseen⟩ := List.forall_mem_cons.mp hseen
    obtain ⟨hnot, hdistinct⟩ := List.nodup_cons.mp hdistinct
    have hseen' : ∀ q ∈ profiles, q.profileID ∉ p.profileID :: seen := by
      intro q hq hmem
      rcases List.mem_cons.mp hmem with h | h
      · exact hnot (List.mem_map.mpr ⟨q, hq, h⟩)
      · exact hseen q hq h
    rw [validateProfiles]
    refine bind_eq_ok.mpr
      ⟨(), hp, bind_eq_ok.mpr ⟨(), reject_eq_ok.mpr hnew, bind_eq_ok.mpr ⟨(), reject_eq_ok.mpr (by omega),
      bind_eq_ok.mpr ⟨(), reject_eq_ok.mpr (by omega), (ih hvalid hdistinct hseen').trans ?_⟩⟩⟩⟩
    rw [List.map_cons, List.sum_cons, id, add_assoc]

structure Composed (ps : PowerShell) (generation : Int) (request : PolicyRequest) (policy : DesiredPolicy) : Prop where
  canonical : request.Canonical
  composable : request.Composable generation
  policy : policy = composedPolicy ps generation request

section
variable {ps : PowerShell} (hps : ps.Documented) {generation : Int} {request : PolicyRequest} {policy : DesiredPolicy}
include hps

/-- The profiles of a composed policy are those that were asked for, in the order of their names. -/
theorem Composed.perm (h : Composed ps generation request policy) :
    policy.request.profilePolicies.Perm request.profilePolicies := by
  have hperm := (hps.sortProfiles (request.profilePolicies.map (desiredProfile ps request.namespaceName))).map
    (·.toProfileEntry)
  rw [List.map_map] at hperm
  rw [h.policy]
  exact hperm.trans (.of_eq (List.map_id _))

theorem Composed.again (h : Composed ps generation request policy) :
    Composed ps generation policy.request (composedPolicy ps generation policy.request) := by
  have hperm := h.perm hps
  obtain ⟨hcanonical, hcomposable, rfl⟩ := h
  exact ⟨⟨hcanonical.namespaceName, fun e he => hcanonical.names e (hperm.mem_iff.mp he)⟩,
    ⟨hcomposable.generation, hcomposable.budget, fun e he => hcomposable.fits e (hperm.mem_iff.mp he),
      (hperm.map (·.profile)).nodup_iff.mpr hcomposable.distinct⟩, rfl⟩

theorem validate_wireProfile {namespaceName : String} {effective : Int} {e : ProfileEntry}
    (hname : profileIDPattern e.profile = true)
    (hfits : Fits effective e.workerCostUnits e.reservationUnits) :
    (wireProfile (desiredProfile ps namespaceName e)).validate = .ok () := by
  have hcost := hfits.cost
  have hreservation := hfits.reservation
  exact bind_eq_ok.mpr ⟨(), reject_eq_ok.mpr (by simp [wireProfile, desiredProfile, hname]),
    bind_eq_ok.mpr ⟨(), reject_eq_ok.mpr (by dsimp only [wireProfile, desiredProfile]; omega),
      bind_eq_ok.mpr ⟨(), reject_eq_ok.mpr (by dsimp only [wireProfile, desiredProfile]; omega),
        validateFingerprint_ok hps _ _⟩⟩⟩

/-- Of a policy that passes setup's checks, the coordinator asks only that the reservations fit the budget together. -/
theorem Composed.validate_iff (h : Composed ps generation request policy) :
    (wirePolicy policy).validate = .ok () ↔
      request.reservations ≤ request.capacityUnits - request.safetyMarginUnits := by
  obtain ⟨hcanonical, hcomposable, rfl⟩ := h
  have hgeneration := hcomposable.generation
  have hcapacity := hcomposable.budget.capacity
  have hmargin := hcomposable.budget.margin
  let wire := wireProfile ∘ desiredProfile ps request.namespaceName
  have hwire : (wirePolicy (composedPolicy ps generation request)).profiles.Perm (request.profilePolicies.map wire) :=
    ((hps.sortProfiles _).map wireProfile).trans (.of_eq List.map_map)
  have hids : (request.profilePolicies.map wire).map (·.profileID) = request.profilePolicies.map (·.profile) :=
    List.map_map
  have hsum :
      ((wirePolicy (composedPolicy ps generation request)).profiles.map (·.reservedUnits)).sum = request.reservations :=
    (hwire.map (·.reservedUnits)).sum_eq.trans (congrArg List.sum List.map_map)
  constructor
  · intro hvalid
    have hreserved := (HostPolicy.valid_of_validate hvalid).reserved
    rwa [hsum] at hreserved
  · intro hle
    have hdistinct := (hwire.map (·.profileID)).nodup_iff.mpr (hids ▸ hcomposable.distinct)
    have hloop : validateProfiles id (request.capacityUnits - request.safetyMarginUnits) [] 0 _ = .ok (0 + _) :=
      validateProfiles_eq_ok (fun p hp => by
        obtain ⟨e, he, rfl⟩ := List.mem_map.mp (hwire.mem_iff.mp hp)
        have hfits := hcomposable.fits e he
        exact ⟨validate_wireProfile hps (hcanonical.names e he) hfits, hfits.cost.2, hfits.reservation.2⟩)
        hdistinct fun _ _ => List.not_mem_nil
    rw [hsum] at hloop
    unfold HostPolicy.validate HostPolicy.validateWith
    simp only [bind_eq_ok, reject_eq_ok, id_eq]
    dsimp only [wirePolicy, composedPolicy] at hloop ⊢
    exact ⟨(), by omega, (), by omega, (), reject_eq_ok.mpr (by simp [hcanonical.namespaceName]), (),
      validateFingerprint_ok hps _ _, (), by omega, (), by omega, (), by omega, (), by omega, _, hloop, by omega⟩

theorem Composed.accepted_iff (h : Composed ps generation request policy) :
    policy.Accepted ps ↔ request.reservations ≤ request.capacityUnits - request.safetyMarginUnits := by
  have hagain := h.again hps
  have hsum : policy.request.reservations = request.reservations := ((h.perm hps).map _).sum_eq
  obtain ⟨-, -, rfl⟩ := h
  have hservice : convertToRunnerHostAdmissionServicePolicy ps (composedPolicy ps generation request) = .ok _ :=
    bind_eq_ok.mpr ⟨_, (newPolicy_eq_ok hps hagain.canonical).mpr ⟨hagain.composable, rfl⟩, rfl⟩
  have hiff := hagain.validate_iff hps
  rw [hsum] at hiff
  constructor
  · rintro ⟨service, hok, hvalid⟩
    obtain rfl := Except.ok.inj (hservice.symm.trans hok)
    exact hiff.mp hvalid
  · exact fun hle => ⟨_, hservice, hiff.mpr hle⟩

end

/-! ## Enrolments -/

structure Profile.Canonical (profile : Profile) : Prop where
  name : profileIDPattern profile.name = true
  namespaceName : ∀ admission, profile.hostAdmission = some admission → profileIDPattern admission.namespaceName = true

def CanonicalPolicy (currentPolicy : Option DesiredPolicy) : Prop :=
  ∀ policy, currentPolicy = some policy → policy.request.Canonical

theorem updateRequest_canonical {currentPolicy : Option DesiredPolicy} {profile : Profile} {request : PolicyRequest}
    (hcurrent : CanonicalPolicy currentPolicy) (hprofile : profile.Canonical)
    (h : updateRequest currentPolicy profile = .ok (some request)) :
    request.Canonical := by
  have hown (admission : HostAdmission) : ∀ e ∈ [profile.entry admission], profileIDPattern e.profile = true :=
    fun e he => List.mem_singleton.mp he ▸ hprofile.name
  unfold updateRequest at h
  split at h
  · cases h
  · rename_i admission hadmission
    obtain rfl := Option.some.inj (Except.ok.inj h)
    exact ⟨hprofile.namespaceName admission hadmission, hown admission⟩
  · rename_i current
    have hcurrent := hcurrent current rfl
    have hunrelated :
        ∀ e ∈ (unrelatedProfiles current profile).map (·.toProfileEntry), profileIDPattern e.profile = true := by
      intro e he
      obtain ⟨p, hp, rfl⟩ := List.mem_map.mp he
      exact hcurrent.names _ (List.mem_map_of_mem (List.mem_of_mem_filter hp))
    obtain ⟨_, _, h⟩ := bind_eq_ok.mp h
    dsimp only at h
    split at h
    · obtain rfl := Option.some.inj (Except.ok.inj h)
      exact ⟨hcurrent.namespaceName, hunrelated⟩
    · rename_i admission hadmission
      split at h
      · obtain ⟨_, _, h⟩ := bind_eq_ok.mp h
        obtain rfl := Option.some.inj (Except.ok.inj h)
        refine ⟨hcurrent.namespaceName, fun e he => ?_⟩
        rcases List.mem_append.mp he with he | he
        · exact hunrelated e he
        · exact hown admission e he
      · obtain rfl := Option.some.inj (Except.ok.inj h)
        exact ⟨hprofile.namespaceName admission hadmission, hown admission⟩

section
variable {ps : PowerShell} (hps : ps.Documented)
include hps

theorem update_eq_ok {currentPolicy : Option DesiredPolicy} {profile : Profile} {generation : Int}
    {policy : DesiredPolicy}
    (hcurrent : CanonicalPolicy currentPolicy) (hprofile : profile.Canonical)
    (h : updateRunnerHostAdmissionDesiredPolicy ps currentPolicy profile generation = .ok (some policy)) :
    ∃ request, updateRequest currentPolicy profile = .ok (some request) ∧ Composed ps generation request policy := by
  obtain ⟨_, _, h⟩ := bind_eq_ok.mp h
  obtain ⟨result, hrequest, h⟩ := bind_eq_ok.mp h
  cases result with
  | none => cases h
  | some request =>
    obtain ⟨_, hnew, h⟩ := bind_eq_ok.mp h
    obtain rfl := Option.some.inj (Except.ok.inj h)
    have hcanonical := updateRequest_canonical hcurrent hprofile hrequest
    obtain ⟨hcomposable, hpolicy⟩ := (newPolicy_eq_ok hps hcanonical).mp hnew
    exact ⟨request, hrequest, hcanonical, hcomposable, hpolicy⟩

theorem Composed.recompose {generation again : Int} {request : PolicyRequest} {policy policy' : DesiredPolicy}
    (h : Composed ps generation request policy) (hagain : recompose ps again policy = .ok policy') :
    Composed ps again policy.request policy' := by
  have hcanonical := (h.again hps).canonical
  obtain ⟨hcomposable, hpolicy⟩ := (newPolicy_eq_ok hps hcanonical).mp hagain
  exact ⟨hcanonical, hcomposable, hpolicy⟩

theorem Composed.accepted_recompose {generation again : Int} {request : PolicyRequest} {policy policy' : DesiredPolicy}
    (h : Composed ps generation request policy) (hagain : Setup.recompose ps again policy = .ok policy') :
    policy'.Accepted ps ↔ policy.Accepted ps := by
  have hsum : policy.request.reservations = request.reservations := ((h.perm hps).map _).sum_eq
  rw [(h.recompose hps hagain).accepted_iff hps, h.accepted_iff hps, hsum]
  obtain ⟨-, -, rfl⟩ := h
  exact Iff.rfl

end

/-! ## Runs of setup -/

/-- What setup has written was composed by it. -/
def HostFiles.Composed (ps : PowerShell) (files : HostFiles) : Prop :=
  ∀ policy, files.desiredPolicy = some policy → ∃ generation request, Setup.Composed ps generation request policy

theorem HostFiles.Composed.publish {ps : PowerShell} {files : HostFiles} {generation : Int} {request : PolicyRequest}
    {policy : DesiredPolicy} (h : files.Composed ps) (hpolicy : Setup.Composed ps generation request policy)
    (publication : Publication) : (publishRunnerHostAdmissionPolicy files policy publication).Composed ps := by
  cases publication with
  | stopped => exact h
  | unacknowledged => exact fun _ h => Option.some.inj h ▸ ⟨_, _, hpolicy⟩
  | acknowledged => exact fun _ h => Option.some.inj h ▸ ⟨_, _, hpolicy⟩

/-- What an update of the policy in place asks for, and that the published policy is accepted exactly when it fits. -/
def AcceptedIfFits (ps : PowerShell) (currentPolicy : Option DesiredPolicy) (profile : Profile)
    (policy : DesiredPolicy) :
    Prop :=
  ∃ request, updateRequest currentPolicy profile = .ok (some request) ∧
    (policy.Accepted ps ↔ request.reservations ≤ request.capacityUnits - request.safetyMarginUnits)

section
variable {ps : PowerShell} (hps : ps.Documented) {files : HostFiles} (hfiles : files.Composed ps)
include hps hfiles

theorem HostFiles.Composed.canonical : CanonicalPolicy files.desiredPolicy := by
  intro policy h
  obtain ⟨_, _, hcomposed⟩ := hfiles policy h
  exact (hcomposed.again hps).canonical

theorem accepted_of_unchanged {generation : Int} {request : PolicyRequest} {candidate : DesiredPolicy}
    (hcandidate : Composed ps generation request candidate)
    (h : hostAdmissionPolicyChanged ps files candidate = .ok false) :
    ∃ current, files.desiredPolicy = some current ∧ (current.Accepted ps ↔ candidate.Accepted ps) := by
  unfold hostAdmissionPolicyChanged at h
  split at h
  · cases h
  · rename_i current hcurrent
    obtain ⟨_, _, hcomposed⟩ := hfiles current hcurrent
    obtain ⟨_, hfirst, h⟩ := bind_eq_ok.mp h
    obtain ⟨_, hsecond, h⟩ := bind_eq_ok.mp h
    have hsame := (not_or.mp (of_decide_eq_false (Except.ok.inj h))).1
    obtain rfl := not_not.mp hsame
    exact ⟨current, hcurrent, (hcomposed.accepted_recompose hps hsecond).symm.trans
      (hcandidate.accepted_recompose hps hfirst)⟩

theorem nextHostAdmissionPolicy_eq_ok {profile : Profile} {next : DesiredPolicy} (hprofile : profile.Canonical)
    (h : nextHostAdmissionPolicy ps files profile = .ok next) :
    AcceptedIfFits ps files.desiredPolicy profile next ∧ ∃ generation request, Composed ps generation request next := by
  obtain ⟨result, hupdate, h⟩ := bind_eq_ok.mp h
  cases result with
  | none => cases h
  | some candidate =>
    obtain ⟨request, hrequest, hcandidate⟩ := update_eq_ok hps (hfiles.canonical hps) hprofile hupdate
    have hfits := hcandidate.accepted_iff hps
    obtain ⟨changed, hchanged, h⟩ := bind_eq_ok.mp h
    obtain rfl := Except.ok.inj h
    cases changed with
    | true => exact ⟨⟨request, hrequest, hfits⟩, _, _, hcandidate⟩
    | false =>
      obtain ⟨current, hcurrent, hsame⟩ := accepted_of_unchanged hps hfiles hcandidate hchanged
      simp only [hcurrent, Bool.false_eq_true, if_false, Option.getD_some]
      exact ⟨⟨request, hcurrent ▸ hrequest, hsame.trans hfits⟩, hfiles current hcurrent⟩

theorem hostAdmissionRollbackPolicy_composed {next policy : DesiredPolicy} {generation : Int} {request : PolicyRequest}
    (hnext : Composed ps generation request next) (h : hostAdmissionRollbackPolicy ps files next = .ok policy) :
    ∃ generation request, Composed ps generation request policy := by
  unfold hostAdmissionRollbackPolicy at h
  obtain ⟨source, hsource, h⟩ := bind_eq_ok.mp h
  have hcomposed : ∃ generation request, Composed ps generation request source := by
    unfold rollbackSource at hsource
    split at hsource
    · rename_i current hcurrent
      obtain rfl := Except.ok.inj hsource
      exact hfiles current hcurrent
    · have hempty : PolicyRequest.Canonical ⟨next.namespaceName, next.capacityUnits, next.safetyMarginUnits, []⟩ :=
        ⟨(hnext.again hps).canonical.namespaceName, fun _ h => absurd h List.not_mem_nil⟩
      obtain ⟨hcomposable, hpolicy⟩ := (newPolicy_eq_ok hps hempty).mp hsource
      exact ⟨_, _, hempty, hcomposable, hpolicy⟩
  obtain ⟨_, _, hcomposed⟩ := hcomposed
  exact ⟨_, _, hcomposed.recompose hps h⟩

theorem applyProfile_eq_ok {profile : Profile} {publication : Publication} {rollback : Option Publication}
    {after : HostFiles} {published : Option DesiredPolicy} (hprofile : profile.Canonical)
    (h : applyProfile ps files profile publication rollback = .ok (after, published)) :
    after.Composed ps ∧ ∀ policy, published = some policy → AcceptedIfFits ps files.desiredPolicy profile policy := by
  obtain ⟨next, hnext, h⟩ := bind_eq_ok.mp h
  obtain ⟨rollbackPolicy, hrollback, h⟩ := bind_eq_ok.mp h
  obtain ⟨hfits, _, _, hcomposed⟩ := nextHostAdmissionPolicy_eq_ok hps hfiles hprofile hnext
  obtain ⟨_, _, hback⟩ := hostAdmissionRollbackPolicy_composed hps hfiles hcomposed hrollback
  have hpublished := hfiles.publish hcomposed publication
  obtain ⟨rfl, rfl⟩ := Prod.ext_iff.mp (Except.ok.inj h)
  refine ⟨?_, fun policy h => Option.some.inj h ▸ hfits⟩
  dsimp only
  split
  · exact hpublished.publish hback _
  · exact hpublished

theorem downProfile_eq_ok {profile : Profile} {publication : Publication} {after : HostFiles}
    {published : Option DesiredPolicy} (hprofile : profile.Canonical)
    (h : downProfile ps files profile publication = .ok (after, published)) :
    after.Composed ps ∧ ∀ policy, published = some policy → AcceptedIfFits ps files.desiredPolicy profile policy := by
  unfold downProfile at h
  split at h
  · obtain ⟨rfl, rfl⟩ := Prod.ext_iff.mp (Except.ok.inj h)
    exact ⟨hfiles, fun _ h => absurd h.symm (Option.some_ne_none _)⟩
  · obtain ⟨removal, hupdate, h⟩ := bind_eq_ok.mp h
    obtain ⟨rfl, rfl⟩ := Prod.ext_iff.mp (Except.ok.inj h)
    cases removal with
    | none => exact ⟨hfiles, fun _ h => absurd h.symm (Option.some_ne_none _)⟩
    | some removal =>
      obtain ⟨request, hrequest, hcomposed⟩ := update_eq_ok hps (hfiles.canonical hps) hprofile hupdate
      exact ⟨hfiles.publish hcomposed _, fun policy h =>
        Option.some.inj h ▸ ⟨request, hrequest, hcomposed.accepted_iff hps⟩⟩

theorem outcome_eq_ok {run : SetupRun} {after : HostFiles} {published : Option DesiredPolicy}
    (hprofile : run.profile.Canonical) (h : run.outcome ps files = .ok (after, published)) :
    after.Composed ps ∧ ∀ policy, published = some policy →
      AcceptedIfFits ps files.desiredPolicy run.profile policy := by
  cases run with
  | apply => exact applyProfile_eq_ok hps hfiles hprofile h
  | down => exact downProfile_eq_ok hps hfiles hprofile h

end

/-- Over every history of setup for profiles with canonical names, however far each run gets: the coordinator accepts
    the policy that a run publishes exactly when the reservations that the update asks for fit the budget. -/
theorem composed_policies_accepted_iff {ps : PowerShell} (hps : ps.Documented) (runs : List SetupRun)
    (hcanonical : ∀ run ∈ runs, run.profile.Canonical) :
    ∀ t ∈ transitions (setupStep ps) {} runs, ∀ policy, t.reply = .ok (some policy) →
      ∃ request, updateRequest t.before.desiredPolicy t.event.profile = .ok (some request) ∧
        (policy.Accepted ps ↔ request.reservations ≤ request.capacityUnits - request.safetyMarginUnits) := by
  refine transitions_induction_of (I := HostFiles.Composed ps) (P := fun t => t.event.profile.Canonical)
    (fun _ h => absurd h.symm (Option.some_ne_none _)) (fun files run hfiles hprofile => ?_) fun t ht => ?_
  · unfold setupStep
    split
    · rename_i houtcome
      obtain ⟨hafter, hfits⟩ := outcome_eq_ok hps hfiles hprofile houtcome
      exact ⟨hafter, fun policy h => hfits policy (Except.ok.inj h)⟩
    · exact ⟨hfiles, fun _ h => nomatch h⟩
  · exact hcanonical t.event (Transition.event_mem ht)

/-! ### Two profiles that ask for more than the budget -/

/-- The fingerprints of the sample: a value, its text and the digest of the text. -/
def sampleFingerprints : List (FingerprintValue × String × String) :=
  [(.hostPolicy 1 "primary" 12 2 10,
      "\x7b\"schemaVersion\":1,\"namespace\":\"primary\"," ++
        "\"capacityUnits\":12,\"safetyMarginUnits\":2,\"effectiveBudgetUnits\":10\x7d",
      "8e8f369acb0050ea53d9d2baf4902ccbed7b700d129f7dd9a3759fc3a69946db"),
    (.profilePolicy 1 "primary" "batch" 2 6 false,
      "\x7b\"schemaVersion\":1,\"namespace\":\"primary\",\"profile\":\"batch\"," ++
        "\"workerCostUnits\":2,\"reservationUnits\":6,\"borrowable\":false\x7d",
      "b1aa5a904fb551505096dcccb6a9eefe0de205c7228fec263d73eb776bb8a708"),
    (.profilePolicy 1 "primary" "ci" 2 6 false,
      "\x7b\"schemaVersion\":1,\"namespace\":\"primary\",\"profile\":\"ci\"," ++
        "\"workerCostUnits\":2,\"reservationUnits\":6,\"borrowable\":false\x7d",
      "53f06cdcbca6c862ca204e5ac3b940f94f42ce196e9b5fb09e34faae5bbfe742")]

example : ∀ entry ∈ sampleFingerprints, Sha256.hex entry.2.1 = entry.2.2 := by decide +kernel

def plainShell : PowerShell where
  trim s := s
  toLowerInvariant s := s
  isIdentity := profileIDPattern
  fingerprint v := ((sampleFingerprints.lookup v).getD ("", String.ofList (List.replicate 64 '0'))).2
  sortProfiles l := l.insertionSort fun a b => a.profile ≤ b.profile

theorem plainShell_documented : plainShell.Documented where
  isIdentity _ h := h
  canonical _ _ := rfl
  fingerprint v := by
    have hsample : ∀ entry ∈ sampleFingerprints, entry.2.2.utf8ByteSize = 64 ∧ fingerprintPattern entry.2.2 = true := by
      decide +kernel
    have hzeros : (String.ofList (List.replicate 64 '0')).utf8ByteSize = 64 ∧
        fingerprintPattern (String.ofList (List.replicate 64 '0')) = true := by
      decide +kernel
    dsimp only [plainShell]
    cases h : sampleFingerprints.lookup v with
    | none => exact hzeros
    | some entry =>
      obtain ⟨before, after, hsplit, _⟩ := List.lookup_eq_some_iff.mp h
      exact hsample (v, entry) (hsplit ▸ List.mem_append_right before List.mem_cons_self)
  sortProfiles l := List.perm_insertionSort _ l

/-- A profile that reserves six of the ten units of one host. -/
def reserving (name : String) : Profile where
  name := name
  hostAdmission := some (canonicalPolicy plainShell ⟨"primary", 12, 2, 2, 6, false⟩ name)

def hostRuns : List SetupRun :=
  [.apply (reserving "batch") .acknowledged none, .apply (reserving "ci") .unacknowledged none,
    .apply (reserving "batch") .unacknowledged none, .down (reserving "batch") .acknowledged,
    .apply (reserving "ci") .acknowledged none]

theorem reserving_canonical {name : String} (hname : profileIDPattern name = true) : (reserving name).Canonical where
  name := hname
  namespaceName admission h := by
    obtain rfl := Option.some.inj h
    exact (by decide : profileIDPattern "primary" = true)

theorem hostRuns_canonical : ∀ run ∈ hostRuns, run.profile.Canonical := by
  have hbatch : (reserving "batch").Canonical := reserving_canonical (by decide)
  have hci : (reserving "ci").Canonical := reserving_canonical (by decide)
  have hdown : SetupRun.profile (.down (reserving "batch") .acknowledged) |>.Canonical :=
    ⟨hbatch.name, fun _ h => absurd h.symm (Option.some_ne_none _)⟩
  simp only [hostRuns, List.forall_mem_cons, List.not_mem_nil, false_imp_iff, implies_true, and_true]
  exact ⟨hbatch, hci, hbatch, hdown, hci⟩

/-- The generation of the policy that is published, and whether what the update asks for fits. -/
def publishedFits (t : Transition HostFiles SetupRun (Except Fault (Option DesiredPolicy))) :
    Option Int × Option Bool :=
  (t.reply.toOption.join.map (·.generation), (updateRequest t.before.desiredPolicy t.event.profile).toOption.join.map
    fun r => decide (r.reservations ≤ r.capacityUnits - r.safetyMarginUnits))

/-- The second profile is written and its policy is refused, also when setup is run for the first one again; taking
    the first one out mends it, and the policy is then kept. -/
theorem composed_policies_accepted_iff_hostRuns :
    ((transitions (setupStep plainShell) {} hostRuns).map publishedFits) =
      [(some 1, some true), (some 2, some false), (some 3, some false), (some 4, some true), (some 4, some true)] ∧
    ∀ t ∈ transitions (setupStep plainShell) {} hostRuns, ∀ policy, t.reply = .ok (some policy) →
      (policy.Accepted plainShell ↔ policy.generation = 1 ∨ policy.generation = 4) := by
  have hruns : ((transitions (setupStep plainShell) {} hostRuns).map publishedFits) =
      [(some 1, some true), (some 2, some false), (some 3, some false), (some 4, some true), (some 4, some true)] := by
    decide +kernel
  refine ⟨hruns, fun t ht policy hreply => ?_⟩
  obtain ⟨request, hrequest, hfits⟩ :=
    composed_policies_accepted_iff plainShell_documented hostRuns hostRuns_canonical t ht policy hreply
  have hmem := List.mem_map_of_mem (f := publishedFits) ht
  have hpublished : publishedFits t =
      (some policy.generation,
        some (decide (request.reservations ≤ request.capacityUnits - request.safetyMarginUnits))) := by
    rw [publishedFits, hreply, hrequest]
    rfl
  rw [hruns, hpublished] at hmem
  simp only [List.mem_cons, Prod.mk.injEq, Option.some.injEq, decide_eq_true_iff, decide_eq_false_iff_not,
    List.not_mem_nil, or_false] at hmem
  rw [hfits]
  omega

end PitCrew.Setup
