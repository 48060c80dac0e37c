import PitCrew.Admission.Policy

/-! # The desired host policy

How setup composes the host-admission policy of a host from the profiles enrolled on it
(`RunnerProfiles.Functions.ps1`), how the desired policy is turned into the policy of the admission coordinator, and
which policy a run of setup publishes (`Setup-Runner.ps1`). A policy's numbers are exact integers, already converted
from its document. -/

namespace PitCrew.Setup
open Base

/-- `hostAdmission` of a profile manifest. -/
structure AdmissionManifest where
  namespaceName : String
  capacityUnits : Int
  safetyMarginUnits : Int
  workerCostUnits : Int
  reservationUnits : Int
  borrowable : Bool
  deriving DecidableEq, Repr

/-- The objects that `Get-RunnerObjectFingerprint` is applied to. -/
inductive FingerprintValue where
  | hostPolicy (schemaVersion : Int) (namespaceName : String)
      (capacityUnits safetyMarginUnits effectiveBudgetUnits : Int)
  | profilePolicy (schemaVersion : Int) (namespaceName profile : String) (workerCostUnits reservationUnits : Int)
    (borrowable : Bool)
  deriving DecidableEq, Repr

/-- A profile's admission policy in its canonical form. -/
structure HostAdmission where
  schemaVersion : Int
  namespaceName : String
  capacityUnits : Int
  safetyMarginUnits : Int
  effectiveBudgetUnits : Int
  workerCostUnits : Int
  reservationUnits : Int
  borrowable : Bool
  hostPolicyFingerprint : String
  profilePolicyFingerprint : String
  deriving DecidableEq, Repr

/-- One of the `ProfilePolicies` that a desired policy is made from. -/
structure ProfileEntry where
  profile : String
  workerCostUnits : Int
  reservationUnits : Int
  borrowable : Bool
  deriving DecidableEq, Repr

structure DesiredProfile extends ProfileEntry where
  profilePolicyFingerprint : String
  deriving DecidableEq, Repr

structure DesiredPolicy where
  schemaVersion : Int
  generation : Int
  namespaceName : String
  capacityUnits : Int
  safetyMarginUnits : Int
  effectiveBudgetUnits : Int
  hostPolicyFingerprint : String
  profiles : List DesiredProfile
  deriving DecidableEq, Repr

/-- An effective profile, as far as the composition reads it. -/
structure Profile where
  name : String
  hostAdmission : Option HostAdmission
  deriving DecidableEq, Repr

structure PowerShell where
  trim : String → String
  toLowerInvariant : String → String
  /-- A match with `^[a-z][a-z0-9-]{0,31}$`, which ignores case. -/
  isIdentity : String → Bool
  /-- `Get-RunnerObjectFingerprint`: the SHA-256 digest of the value's JSON text. -/
  fingerprint : FingerprintValue → String
  /-- `Sort-Object profile`, by the rules of the current culture. -/
  sortProfiles : List DesiredProfile → List DesiredProfile

inductive Fault where
  | profileNameParameter (name : String)
  | namespaceParameter (name : String)
  | generationParameter (generation : Int)
  | capacityParameter (units : Int)
  | safetyMarginParameter (units : Int)
  | namespaceName (name : String)
  | capacityUnits
  | safetyMarginUnits
  | workerCostUnits
  | reservationUnits
  | profileName (name : String)
  | duplicateProfile (name : String)
  | schemaVersion (version : Int)
  | hostPolicyConflict (name : String)
  | noDesiredPolicy
  deriving DecidableEq, Repr

/-- `[int]::MaxValue`. -/
def maxValue : Int := 2147483647

/-- `$script:RunnerHostAdmissionPolicySchemaVersion`. -/
def policySchemaVersion : Int := 1

def canonicalPolicy (ps : PowerShell) (policy : AdmissionManifest) (profileName : String) : HostAdmission :=
  let namespaceName := ps.toLowerInvariant (ps.trim policy.namespaceName)
  let effectiveBudgetUnits := policy.capacityUnits - policy.safetyMarginUnits
  { schemaVersion := 1
    namespaceName
    capacityUnits := policy.capacityUnits
    safetyMarginUnits := policy.safetyMarginUnits
    effectiveBudgetUnits
    workerCostUnits := policy.workerCostUnits
    reservationUnits := policy.reservationUnits
    borrowable := policy.borrowable
    hostPolicyFingerprint :=
      ps.fingerprint (.hostPolicy 1 namespaceName policy.capacityUnits policy.safetyMarginUnits effectiveBudgetUnits)
    profilePolicyFingerprint :=
      ps.fingerprint (.profilePolicy 1 namespaceName profileName policy.workerCostUnits policy.reservationUnits
        policy.borrowable) }

def convertToRunnerHostAdmissionPolicy (ps : PowerShell) (policy : AdmissionManifest) (profileName : String) :
    Except Fault HostAdmission := do
  reject (ps.isIdentity profileName = false) (.profileNameParameter profileName)
  reject (ps.isIdentity (ps.toLowerInvariant (ps.trim policy.namespaceName)) = false)
    (.namespaceName policy.namespaceName)
  reject (policy.capacityUnits < 1 ∨ policy.capacityUnits > maxValue) .capacityUnits
  reject (policy.safetyMarginUnits < 0 ∨ policy.safetyMarginUnits ≥ policy.capacityUnits) .safetyMarginUnits
  let effectiveBudgetUnits := policy.capacityUnits - policy.safetyMarginUnits
  reject (policy.workerCostUnits < 1 ∨ policy.workerCostUnits > effectiveBudgetUnits) .workerCostUnits
  reject (policy.reservationUnits < 0 ∨ policy.reservationUnits > effectiveBudgetUnits) .reservationUnits
  return canonicalPolicy ps policy profileName

def normalizeProfile (ps : PowerShell) (namespaceName : String) (capacityUnits safetyMarginUnits : Int)
    (entry : ProfileEntry) :
    Except Fault DesiredProfile := do
  let profileName := ps.toLowerInvariant (ps.trim entry.profile)
  reject (ps.isIdentity profileName = false) (.profileName entry.profile)
  let canonical ← convertToRunnerHostAdmissionPolicy ps
    { namespaceName, capacityUnits, safetyMarginUnits, workerCostUnits := entry.workerCostUnits,
      reservationUnits := entry.reservationUnits, borrowable := entry.borrowable } profileName
  return {
    profile := profileName
    workerCostUnits := canonical.workerCostUnits
    reservationUnits := canonical.reservationUnits
    borrowable := canonical.borrowable
    profilePolicyFingerprint := canonical.profilePolicyFingerprint }

def duplicateProfile (profiles : List DesiredProfile) : Option DesiredProfile :=
  profiles.find? fun p => (profiles.map (·.profile)).count p.profile > 1

def newRunnerHostAdmissionDesiredPolicy (ps : PowerShell) (generation : Int) (namespaceName : String)
    (capacityUnits safetyMarginUnits : Int) (profilePolicies : List ProfileEntry) : Except Fault DesiredPolicy := do
  reject (generation < 1 ∨ generation > maxValue) (.generationParameter generation)
  reject (ps.isIdentity namespaceName = false) (.namespaceParameter namespaceName)
  reject (capacityUnits < 1 ∨ capacityUnits > maxValue) (.capacityParameter capacityUnits)
  reject (safetyMarginUnits < 0 ∨ safetyMarginUnits > maxValue) (.safetyMarginParameter safetyMarginUnits)
  let normalizedProfiles ← profilePolicies.mapM (normalizeProfile ps namespaceName capacityUnits safetyMarginUnits)
  let normalizedProfiles := ps.sortProfiles normalizedProfiles
  match duplicateProfile normalizedProfiles with
  | some duplicate => .error (.duplicateProfile duplicate.profile)
  | none => do
    let hostPolicy ← convertToRunnerHostAdmissionPolicy ps
      { namespaceName, capacityUnits, safetyMarginUnits, workerCostUnits := 1, reservationUnits := 0,
        borrowable := true } "host-policy"
    return {
      schemaVersion := policySchemaVersion
      generation
      namespaceName := hostPolicy.namespaceName
      capacityUnits := hostPolicy.capacityUnits
      safetyMarginUnits := hostPolicy.safetyMarginUnits
      effectiveBudgetUnits := hostPolicy.effectiveBudgetUnits
      hostPolicyFingerprint := hostPolicy.hostPolicyFingerprint
      profiles := normalizedProfiles }

def Profile.entry (profile : Profile) (admission : HostAdmission) : ProfileEntry where
  profile := profile.name
  workerCostUnits := admission.workerCostUnits
  reservationUnits := admission.reservationUnits
  borrowable := admission.borrowable

def unrelatedProfiles (currentPolicy : DesiredPolicy) (profile : Profile) : List DesiredProfile :=
  currentPolicy.profiles.filter fun p => p.profile ≠ profile.name

structure PolicyRequest where
  namespaceName : String
  capacityUnits : Int
  safetyMarginUnits : Int
  profilePolicies : List ProfileEntry
  deriving DecidableEq, Repr

/-- The host's numbers and the next profiles. A profile without an admission policy is removed; where other profiles
    stay, the host's numbers do too. -/
def updateRequest (currentPolicy : Option DesiredPolicy) (profile : Profile) : Except Fault (Option PolicyRequest) :=
  match currentPolicy, profile.hostAdmission with
  | none, none => .ok none
  | none, some admission =>
    .ok (some ⟨admission.namespaceName, admission.capacityUnits, admission.safetyMarginUnits,
      [profile.entry admission]⟩)
  | some current, hostAdmission => do
    reject (current.schemaVersion ≠ policySchemaVersion) (.schemaVersion current.schemaVersion)
    let unrelated := (unrelatedProfiles current profile).map (·.toProfileEntry)
    match hostAdmission with
    | none => return some ⟨current.namespaceName, current.capacityUnits, current.safetyMarginUnits, unrelated⟩
    | some admission =>
      if unrelated ≠ [] then
        reject (admission.namespaceName ≠ current.namespaceName ∨
          admission.hostPolicyFingerprint ≠ current.hostPolicyFingerprint) (.hostPolicyConflict profile.name)
        return some ⟨current.namespaceName, current.capacityUnits, current.safetyMarginUnits,
          unrelated ++ [profile.entry admission]⟩
      else
        return some ⟨admission.namespaceName, admission.capacityUnits, admission.safetyMarginUnits,
          [profile.entry admission]⟩

def updateRunnerHostAdmissionDesiredPolicy (ps : PowerShell) (currentPolicy : Option DesiredPolicy) (profile : Profile)
    (generation : Int) : Except Fault (Option DesiredPolicy) := do
  reject (generation < 1 ∨ generation > maxValue) (.generationParameter generation)
  match ← updateRequest currentPolicy profile with
  | none => return none
  | some request =>
    let policy ← newRunnerHostAdmissionDesiredPolicy ps generation request.namespaceName request.capacityUnits
      request.safetyMarginUnits request.profilePolicies
    return some policy

def wireProfile (p : DesiredProfile) : Admission.ProfilePolicy where
  profileID := p.profile
  unitCost := p.workerCostUnits
  reservedUnits := p.reservationUnits
  borrowable := p.borrowable
  profilePolicyFingerprint := p.profilePolicyFingerprint

def wirePolicy (normalized : DesiredPolicy) : Admission.HostPolicy where
  generation := normalized.generation
  totalUnits := normalized.effectiveBudgetUnits
  namespaceName := normalized.namespaceName
  capacityUnits := normalized.capacityUnits
  safetyMarginUnits := normalized.safetyMarginUnits
  hostPolicyFingerprint := normalized.hostPolicyFingerprint
  profiles := normalized.profiles.map wireProfile

def convertToRunnerHostAdmissionServicePolicy (ps : PowerShell) (policy : DesiredPolicy) :
    Except Fault Admission.HostPolicy := do
  let normalized ← newRunnerHostAdmissionDesiredPolicy ps policy.generation policy.namespaceName policy.capacityUnits
    policy.safetyMarginUnits (policy.profiles.map (·.toProfileEntry))
  return wirePolicy normalized

/-! ## Runs of setup -/

/-- `acknowledged-policy.json`, as far as it is read. -/
structure Acknowledgement where
  status : String
  generation : Int
  deriving DecidableEq, Repr

/-- The files of one namespace. Runs of setup take turns on them, by a lock. -/
structure HostFiles where
  desiredPolicy : Option DesiredPolicy := none
  acknowledgement : Option Acknowledgement := none
  deriving DecidableEq, Repr

def HostFiles.acknowledgedGeneration (files : HostFiles) : Int := (files.acknowledgement.map (·.generation)).getD 0

def HostFiles.generationBase (files : HostFiles) : Int :=
  max 0 (max ((files.desiredPolicy.map (·.generation)).getD 0) files.acknowledgedGeneration)

/-- The policy once more, at another generation. -/
def recompose (ps : PowerShell) (generation : Int) (policy : DesiredPolicy) : Except Fault DesiredPolicy :=
  newRunnerHostAdmissionDesiredPolicy ps generation policy.namespaceName policy.capacityUnits policy.safetyMarginUnits
    (policy.profiles.map (·.toProfileEntry))

/-- The source compares the JSON texts of two such policies, which are equal exactly when the policies are. -/
def getRunnerHostAdmissionPolicySignature (ps : PowerShell) (policy : DesiredPolicy) : Except Fault DesiredPolicy :=
  recompose ps 1 policy

def hostAdmissionPolicyChanged (ps : PowerShell) (files : HostFiles) (candidate : DesiredPolicy) : Except Fault Bool :=
  match files.desiredPolicy with
  | none => return true
  | some current => do
    let candidateSignature ← getRunnerHostAdmissionPolicySignature ps candidate
    let currentSignature ← getRunnerHostAdmissionPolicySignature ps current
    return candidateSignature ≠ currentSignature ∨
      files.acknowledgement.all fun a => a.status ≠ "accepted" ∨ a.generation ≠ current.generation

/-- The policy that a run publishes: the candidate, or the current one where it is the same and is acknowledged. -/
def nextHostAdmissionPolicy (ps : PowerShell) (files : HostFiles) (profile : Profile) : Except Fault DesiredPolicy := do
  match ← updateRunnerHostAdmissionDesiredPolicy ps files.desiredPolicy profile (files.generationBase + 1) with
  | none => .error .noDesiredPolicy
  | some candidate =>
    let changed ← hostAdmissionPolicyChanged ps files candidate
    return if changed then candidate else files.desiredPolicy.getD candidate

/-- The policy there was, or one without profiles. -/
def rollbackSource (ps : PowerShell) (files : HostFiles) (next : DesiredPolicy) : Except Fault DesiredPolicy :=
  match files.desiredPolicy with
  | some current => return current
  | none => newRunnerHostAdmissionDesiredPolicy ps 1 next.namespaceName next.capacityUnits next.safetyMarginUnits []

/-- What is published where the run fails later on. -/
def hostAdmissionRollbackPolicy (ps : PowerShell) (files : HostFiles) (next : DesiredPolicy) :
    Except Fault DesiredPolicy := do
  let source ← rollbackSource ps files next
  recompose ps (next.generation + 1) source

inductive Publication where
  | stopped
  | unacknowledged
  | acknowledged
  deriving DecidableEq, Repr

/-- The desired policy is written before the coordinator is asked, the acknowledgement after it has answered. -/
def publishRunnerHostAdmissionPolicy (files : HostFiles) (policy : DesiredPolicy) : Publication → HostFiles
  | .stopped => files
  | .unacknowledged => { files with desiredPolicy := some policy }
  | .acknowledged => ⟨some policy, some ⟨"accepted", policy.generation⟩⟩

/-- A run of setup for a profile, with its admission policy or without one. Where the run fails after the policy is
    acknowledged, `rollback` says how far the rollback gets. The result has the policy that is published first. -/
def applyProfile (ps : PowerShell) (files : HostFiles) (profile : Profile) (publication : Publication)
    (rollback : Option Publication) : Except Fault (HostFiles × Option DesiredPolicy) := do
  let next ← nextHostAdmissionPolicy ps files profile
  let rollbackPolicy ← hostAdmissionRollbackPolicy ps files next
  let published := publishRunnerHostAdmissionPolicy files next publication
  return (match publication, rollback with
    | .acknowledged, some outcome => publishRunnerHostAdmissionPolicy published rollbackPolicy outcome
    | _, _ => published, some next)

/-- A run with `-Down`: the profile is taken out, where there is a policy. -/
def downProfile (ps : PowerShell) (files : HostFiles) (disabledProfile : Profile) (publication : Publication) :
    Except Fault (HostFiles × Option DesiredPolicy) :=
  match files.desiredPolicy with
  | none => return (files, none)
  | some current => do
    let removal ← updateRunnerHostAdmissionDesiredPolicy ps files.desiredPolicy disabledProfile
      (max current.generation files.acknowledgedGeneration + 1)
    return ((removal.map fun policy => publishRunnerHostAdmissionPolicy files policy publication).getD files, removal)

inductive SetupRun where
  | apply (profile : Profile) (publication : Publication) (rollback : Option Publication)
  | down (profile : Profile) (publication : Publication)
  deriving DecidableEq, Repr

/-- The profile as the update is given it. -/
def SetupRun.profile : SetupRun → Profile
  | apply profile _ _ => profile
  | down profile _ => { profile with hostAdmission := none }

def SetupRun.outcome (ps : PowerShell) (files : HostFiles) (run : SetupRun) :
    Except Fault (HostFiles × Option DesiredPolicy) :=
  match run with
  | apply _ publication rollback => applyProfile ps files run.profile publication rollback
  | down _ publication => downProfile ps files run.profile publication

/-- A run that fails before it publishes a policy leaves the files. -/
def setupStep (ps : PowerShell) (files : HostFiles) (run : SetupRun) :
    HostFiles × Except Fault (Option DesiredPolicy) :=
  match run.outcome ps files with
  | .ok (after, published) => (after, .ok published)
  | .error fault => (files, .error fault)

end PitCrew.Setup
