import PitCrew.Admission.Status
import PitCrew.Autoscaler.Retirement

/-! # Orphaned host leases

After a restart the manager holds an adoption fence of the host coordinator with the leases it has not accounted
for (`manager/autoscaler/manager.go`, `host_admission.go`). Once no recovered container is left it looks up the
registration of each of them in every registration scope of its targets, removes the one it finds, reports the
lease as absent, and completes the adoption when none is left. What GitHub and the coordinator answer is up to
them, in the turn of each lease anew. -/

namespace PitCrew.Autoscaler.Orphans
open Base Admission

structure RunnerReference where
  id : Int
  name : String
  scaleSetID : Int
  deriving DecidableEq, Repr

/-- What a lookup of a registration by its name answers. -/
inductive Lookup where
  | absent
  | present (runner : RunnerReference)
  | failed (cause : String)
  deriving DecidableEq, Repr

inductive RemovalAnswer where
  | removed
  | notFound
  | failed (cause : String)
  deriving DecidableEq, Repr

/-- `api` is the client of the target. -/
structure RecoveryTarget (Api : Type) where
  key : String
  registrationURL : String
  scaleSetID : Int
  api : Api
  deriving DecidableEq, Repr

section Find
variable {Api : Type}

def RecoveryTarget.scopeKey (target : RecoveryTarget Api) : String :=
  if target.registrationURL = "" then "\x00" ++ target.key else target.registrationURL

/-- A registration scope: the client of its first target, and its targets by their scale sets. -/
structure RecoveryScope (Api : Type) where
  scopeKey : String
  api : Api
  scaleSets : Map Int (RecoveryTarget Api)

/-- The scopes with one more target; a new scope comes last. -/
def addToScopes : List (RecoveryScope Api) → RecoveryTarget Api → List (RecoveryScope Api)
  | [], target => [{ scopeKey := target.scopeKey, api := target.api,
                     scaleSets := (∅ : Map Int _).insert target.scaleSetID target }]
  | scope :: scopes, target =>
    if scope.scopeKey = target.scopeKey then
      { scope with scaleSets := scope.scaleSets.insert target.scaleSetID target } :: scopes
    else scope :: addToScopes scopes target

def recoveryScopes (targets : List (RecoveryTarget Api)) : List (RecoveryScope Api) := targets.foldl addToScopes []

inductive FindFault where
  | lookup (cause : String)
  | invalidIdentity
  | ambiguous
  | unknownScaleSet
  deriving DecidableEq, Repr

structure Scan (Api : Type) where
  matched : Option (RecoveryTarget Api × RunnerReference) := none
  found : Bool := false
  unknownScaleSet : Bool := false

def validReference (registrationName : String) (runner : RunnerReference) : Bool :=
  ¬ (runner.id < 1 ∨ runner.name ≠ registrationName ∨ runner.scaleSetID < 1)

def scanScopes (find : Api → Lookup) (registrationName : String) :
    List (RecoveryScope Api) → Scan Api → Except FindFault (Scan Api)
  | [], scan => .ok scan
  | scope :: scopes, scan =>
    match find scope.api with
    | .failed cause => .error (.lookup cause)
    | .absent => scanScopes find registrationName scopes scan
    | .present runner =>
      if validReference registrationName runner = false then .error .invalidIdentity
      else if scan.found then .error .ambiguous
      else
        match scope.scaleSets.lookup runner.scaleSetID with
        | none => scanScopes find registrationName scopes { scan with found := true, unknownScaleSet := true }
        | some target =>
          scanScopes find registrationName scopes { scan with found := true, matched := some (target, runner) }

/-- The target and the registration that is found, if there is one. -/
def findOrphanedRunnerRegistration (find : Api → Lookup) (targets : List (RecoveryTarget Api))
    (registrationName : String) :
    Except FindFault (Option (RecoveryTarget Api × RunnerReference)) :=
  match scanScopes find registrationName (recoveryScopes targets) {} with
  | .error fault => .error fault
  | .ok scan =>
    if scan.unknownScaleSet then .error .unknownScaleSet
    else if scan.found then .ok scan.matched
    else .ok none

end Find

/-! ## The pending leases -/

inductive RecoveryFault where
  | status (cause : String)
  | protocol
  | missingLease (slotKey : String)
  | noTarget
  | find (fault : FindFault)
  | removal (cause : String)
  | reconcile (cause : String)
  | complete (cause : String)
  | retryState (cause : String)
  deriving DecidableEq, Repr

def registrationBindingProtocolVersion : Int := 4

/-- `pendingAdoptionLeases`, with the protocol version and the snapshot that `Status` answers. -/
def pendingAdoptionLeases (profileID : String) (status : Except String (Int × Snapshot)) :
    Except RecoveryFault (List Lease) :=
  match status with
  | .error cause => .error (.status cause)
  | .ok (protocolVersion, snapshot) =>
    if protocolVersion ≠ 0 ∧ protocolVersion < registrationBindingProtocolVersion then .error .protocol
    else
      let pending := ((snapshot.adoptionFences.find? (·.profileID = profileID)).map (·.pending)).getD []
      let held := snapshot.leases.filter fun lease => lease.profileID = profileID ∧ lease.status = .active
      let leases : Map String Lease := Map.ofList (held.map fun lease => (lease.slotKey, lease))
      (pending.insertionSort (· ≤ ·)).mapM fun slotKey =>
        match leases.lookup slotKey with
        | none => .error (.missingLease slotKey)
        | some lease => .ok lease

def leaseRegistrationName (lease : Lease) : String :=
  if lease.registrationName = "" then lease.slotKey else lease.registrationName

/-! ## Reconciling -/

section Reconcile
variable {Api : Type}

/-- What GitHub and the coordinator answer, to the calls for each pending lease in its turn. -/
structure RecoveryAnswers (Api : Type) where
  status : Except String (Int × Snapshot)
  find : Nat → Api → String → Lookup
  remove : Nat → Api → Int → RemovalAnswer
  reconcile : Nat → String → Option String
  complete : Option String
  save : Option String
  clear : Option String

/-- The calls that change something. -/
inductive RecoveryCall (Api : Type) where
  | removeRunner (turn : Nat) (api : Api) (id : Int)
  | reconcileAbsent (turn : Nat) (slotKey : String)
  | completeAdoption
  deriving DecidableEq, Repr

def registrationRemovalError : RemovalAnswer → Option String
  | .removed | .notFound => none
  | .failed cause => some cause

/-- One pending lease: the calls and the fault, if any. -/
def reconcileOrphan (answers : RecoveryAnswers Api) (targets : List (RecoveryTarget Api)) (turn : Nat) (lease : Lease) :
    List (RecoveryCall Api) × Option RecoveryFault :=
  let registrationName := leaseRegistrationName lease
  let report := ([RecoveryCall.reconcileAbsent turn lease.slotKey],
    (answers.reconcile turn lease.slotKey).map .reconcile)
  match findOrphanedRunnerRegistration (answers.find turn · registrationName) targets registrationName with
  | .error fault => ([], some (.find fault))
  | .ok none => report
  | .ok (some (target, runner)) =>
    match registrationRemovalError (answers.remove turn target.api runner.id) with
    | some cause => ([.removeRunner turn target.api runner.id], some (.removal cause))
    | none => (.removeRunner turn target.api runner.id :: report.1, report.2)

/-- The loop over the pending leases, from a turn on. -/
def reconcileOrphans (answers : RecoveryAnswers Api) (targets : List (RecoveryTarget Api)) :
    Nat → List Lease → List (RecoveryCall Api) × List RecoveryFault
  | _, [] => ([], [])
  | turn, lease :: pending =>
    let (calls, fault) := reconcileOrphan answers targets turn lease
    let (later, faults) := reconcileOrphans answers targets (turn + 1) pending
    (calls ++ later, fault.toList ++ faults)

def reconcileOrphanedHostAdmissionLeases (answers : RecoveryAnswers Api) (targets : List (RecoveryTarget Api))
    (pending : List Lease) : List (RecoveryCall Api) × List RecoveryFault :=
  if pending = [] then ([], [])
  else if targets.isEmpty then ([], [.noTarget])
  else reconcileOrphans answers targets 0 pending

/-! ## The manager -/

structure RecoveryController (Api : Type) where
  registrationURL : String
  scaleSetID : Int
  api : Api
  /-- `hostLeasesAdopted` of its scaler. -/
  leasesAdopted : Bool

/-- The fields of the manager that recovery reads and writes. -/
structure HostRecovery (Api : Type) where
  adoptionPending : Bool
  recovered : Finset String
  controllers : Map String (RecoveryController Api)
  retiring : Map String (RecoveryController Api)
  orphanRecoveryTargets : Map String (RecoveryTarget Api)
  current : Option ParsedDesiredState
  retirementRecords : RetirementRecords
  failures : Int
  retryAt : Option Int
  hostRecoveryPath : String

def RecoveryController.target (key : String) (controller : RecoveryController Api) : RecoveryTarget Api where
  key
  registrationURL := controller.registrationURL
  scaleSetID := controller.scaleSetID
  api := controller.api

namespace HostRecovery
variable (m : HostRecovery Api)

/-- The targets by key: an orphaned target before a retiring one, and that before a desired one. -/
def recoveryTarget (key : String) : Option (RecoveryTarget Api) :=
  (m.orphanRecoveryTargets.lookup key).or
    (((m.retiring.lookup key).or (m.controllers.lookup key)).map (RecoveryController.target key))

def hostAdmissionRecoveryTargets : List (RecoveryTarget Api) :=
  (sortedList (m.controllers.keys ∪ m.retiring.keys ∪ m.orphanRecoveryTargets.keys)).filterMap m.recoveryTarget

def hostAdmissionRecoveryTargetsReady (pkg : Packages) (cfg : Config) (current : ParsedDesiredState) : Bool :=
  match buildTargetSpecs pkg cfg current.state with
  | .error _ => false
  | .ok targets =>
    targets.all (fun target => (m.controllers.lookup target.key).isSome) ∧
      ∀ key ∈ m.retirementRecords.keys, ∀ record ∈ m.retirementRecords.lookup key,
        record.retireAtGeneration ≤ current.state.generation →
          (m.retiring.lookup key).isSome ∨ (m.orphanRecoveryTargets.lookup key).isSome

def allAdopted (controllers : Map String (RecoveryController Api)) : Bool :=
  ∀ key ∈ controllers.keys, ∀ controller ∈ controllers.lookup key, controller.leasesAdopted

def prepareHostAdmissionRecoveryAttempt (now : Int) : HostRecovery Api :=
  let failures := if m.failures < maxRegistrationCleanupAttempts then m.failures + 1 else m.failures
  { m with failures, retryAt := some (now + registrationOperationRetryDelay failures) }

/-- A result of the function: the manager, the calls and the errors that it joins. -/
structure Outcome (Api : Type) where
  manager : HostRecovery Api
  calls : List (RecoveryCall Api) := []
  faults : List RecoveryFault := []

/-- Whether an attempt is made with these pending leases. -/
def due (pkg : Packages) (cfg : Config) (pending : List Lease) (now : Int) : Bool :=
  (pending = [] ∨ m.current.all (m.hostAdmissionRecoveryTargetsReady pkg cfg)) ∧ m.retryAt.all (· ≤ now)

def completeHostAdmissionAdoptionIfReady (pkg : Packages) (cfg : Config) (answers : RecoveryAnswers Api) (now : Int) :
    Outcome Api :=
  if m.adoptionPending = false ∨ m.recovered ≠ ∅ ∨ allAdopted m.controllers = false ∨ allAdopted m.retiring = false then
    { manager := m }
  else
    match pendingAdoptionLeases cfg.profileID answers.status with
    | .error fault => { manager := m, faults := [fault] }
    | .ok pending =>
      if m.due pkg cfg pending now = false then { manager := m }
      else
        let prepared := m.prepareHostAdmissionRecoveryAttempt now
        match if prepared.hostRecoveryPath = "" then none else answers.save with
        | some cause => { manager := prepared, faults := [.retryState cause] }
        | none =>
          let (calls, faults) :=
            reconcileOrphanedHostAdmissionLeases answers prepared.hostAdmissionRecoveryTargets pending
          if faults ≠ [] then { manager := prepared, calls, faults }
          else
            match answers.complete with
            | some cause => { manager := prepared, calls := calls ++ [.completeAdoption], faults := [.complete cause] }
            | none =>
              let cleared := { prepared with adoptionPending := false, failures := 0, retryAt := none }
              { manager := cleared
                calls := calls ++ [.completeAdoption]
                faults := ((if cleared.hostRecoveryPath = "" then none
                  else answers.clear).map RecoveryFault.retryState).toList }

end HostRecovery
end Reconcile
end PitCrew.Autoscaler.Orphans
