import PitCrew.Autoscaler.Retirement
import PitCrew.Autoscaler.Scaler

/-! # Observed state

The document in which the manager publishes its workers (`manager/autoscaler/observed.go` and `publishObserved` in
`manager.go`). Slots come from three places: registrations of exited workers that are still to be removed,
workers that a scaler tracks, and containers found at the start that no scaler has adopted yet. The document's
telemetry, host, journal, health and source observations are left out: they never touch a slot, except for the
resource sample, which sets the resources of each. Job contexts, exit diagnostics and resource usages are only
passed on, so their types are parameters. -/

namespace PitCrew.Autoscaler.Observed
open Base

variable {Job Usage Exit : Type}

/-! ## Snapshots of scalers -/

/-- A worker, with what only the document shows of it. -/
structure TrackedRunner (Job : Type) extends RunnerRecord where
  targetKey : String
  repository : String := ""
  updatedAt : Int := 0
  fenceAttempts : Int := 0
  currentJob : Option Job := none
  deriving DecidableEq, Repr

/-- A registration to be removed, with the exit of its worker. -/
structure PendingCleanup (Exit : Type) extends RegistrationCleanupRecord where
  lastExit : Option Exit := none
  deriving DecidableEq, Repr

structure ScalerStatistics where
  observedAt : Option Int := none
  assignedJobs : Int := 0
  runningJobs : Int := 0
  availableJobs : Int := 0
  acquiredJobs : Int := 0
  registeredRunners : Int := 0
  busyRunners : Int := 0
  idleRunners : Int := 0
  deriving DecidableEq, Repr

structure ScalerView (Job Exit : Type) where
  target : TargetSpec
  targetSlots : Int := 0
  minimumIdle : Int := 0
  scaleDownAt : Option Int := none
  statistics : ScalerStatistics := {}
  retiring : Bool := false
  runners : Map String (TrackedRunner Job) := ∅
  pendingRegistrations : Map String (PendingCleanup Exit) := ∅

structure ScalerSnapshot (Job Exit : Type) where
  target : TargetSpec
  targetSlots : Int
  scaleDownAt : Option Int
  statistics : ScalerStatistics
  runners : List (TrackedRunner Job)
  pendingCleanups : List (PendingCleanup Exit)
  activeRunners : Int
  idleRunners : Int
  busyRunners : Int
  drainingRunners : Int
  staleRunners : Int
  minimumIdleSlots : Int
  retiring : Bool

def isDraining (state : RunnerState) : Bool := state = .draining ∨ state = .cleanupPending

section Snapshot
variable (o : RangeOrder String)

def ScalerView.snapshot (s : ScalerView Job Exit) : ScalerSnapshot Job Exit :=
  let runners := ((Map.entriesIn o s.runners).map Prod.snd).insertionSort fun a b => a.key ≤ b.key
  { target := s.target
    targetSlots := s.targetSlots
    scaleDownAt := s.scaleDownAt
    statistics := s.statistics
    runners
    pendingCleanups := ((Map.entriesIn o s.pendingRegistrations).map Prod.snd).insertionSort fun a b =>
      a.slotKey ≤ b.slotKey
    activeRunners := runners.countP fun runner => !isDraining runner.state
    idleRunners := runners.countP (·.state = .idle)
    busyRunners := runners.countP (·.state = .busy)
    drainingRunners := runners.countP fun runner => isDraining runner.state
    staleRunners := runners.countP (·.stale)
    minimumIdleSlots := if s.retiring then 0 else min s.minimumIdle s.target.maximum
    retiring := s.retiring }

end Snapshot

/-! ## Slots -/

inductive SlotState where
  | starting
  | online
  | draining
  deriving DecidableEq, Repr

inductive Activity where
  | starting
  | idle
  | busy
  | draining
  | cleanupPending
  | unknown
  deriving DecidableEq, Repr

/-- `unset` is the empty text of a field that is not filled in. -/
inductive RegistrationStatus where
  | unset
  | connected
  | disconnected
  | registrationMissing
  | unknown
  deriving DecidableEq, Repr

def RegistrationStatus.text : RegistrationStatus → String
  | .unset => ""
  | .connected => "connected"
  | .disconnected => "disconnected"
  | .registrationMissing => "registration-missing"
  | .unknown => "unknown"

structure ObservedSlot (Job Usage Exit : Type) where
  key : String
  repository : Option String := none
  desired : Bool
  processRunning : Bool
  state : SlotState
  failureCount : Int
  backoffSeconds : Int
  updatedAt : Option String
  runnerNameHash : Option String := none
  currentJob : Option Job := none
  resources : Option Usage := none
  activity : Activity
  target : String
  registrationStatus : RegistrationStatus := .unset
  imageID : Option String := none
  lastExit : Option Exit := none

def nonempty (text : String) : Option String := if text = "" then none else some text

def hashRunnerName (pkg : Packages) (runnerName : String) : Option String := (nonempty runnerName).map pkg.hexDigest

def slotImageID (imageID : String) : Option String := nonempty imageID

def slotKeyHeldByRunner (snapshot : ScalerSnapshot Job Exit) (slotKey : String) : Bool :=
  snapshot.runners.any (·.key = slotKey)

def backoff (attemptedAt nextAt : Int) : Int := if attemptedAt < nextAt then (nextAt - attemptedAt) / second else 0

def observedCleanupSlot (rfc : Rfc3339) (record : PendingCleanup Exit) (snapshot : ScalerSnapshot Job Exit) :
    ObservedSlot Job Usage Exit where
  key := record.slotKey
  repository := nonempty snapshot.target.repository
  desired := false
  processRunning := false
  state := .draining
  failureCount := record.attempts
  backoffSeconds :=
    if record.lastAttemptAt ≠ "" ∧ record.nextAttemptAt ≠ "" then
      match rfc.parse record.lastAttemptAt, rfc.parse record.nextAttemptAt with
      | some lastAttemptAt, some nextAttemptAt => backoff lastAttemptAt nextAttemptAt
      | _, _ => 0
    else 0
  updatedAt := nonempty (if record.lastAttemptAt ≠ "" then record.lastAttemptAt else record.firstFailedAt)
  activity := .draining
  target := record.targetKey
  registrationStatus := .unknown
  lastExit := record.lastExit

def stateActivity : RunnerState → Activity
  | .starting => .starting
  | .idle => .idle
  | .busy => .busy
  | .draining => .draining
  | .cleanupPending => .cleanupPending

def runnerActivity (runner : TrackedRunner Job) : Activity :=
  if runner.recovered ∧ runner.isProtected then .unknown
  else if isDraining runner.state then .draining
  else stateActivity runner.state

def runnerRegistrationStatus (runner : TrackedRunner Job) : RegistrationStatus :=
  if runner.recovered ∧ runner.isProtected then .unknown
  else
    match runner.state with
    | .idle | .busy => .connected
    | .draining | .cleanupPending => .disconnected
    | .starting => .unknown

def runnerSlotState (runner : TrackedRunner Job) (retiring : Bool) : SlotState :=
  if retiring then .draining
  else
    match runner.state with
    | .idle | .busy => .online
    | .draining | .cleanupPending => .draining
    | .starting => .starting

def observedRunnerSlot (pkg : Packages) (rfc : Rfc3339) (runner : TrackedRunner Job) (retiring : Bool)
    (imageID : String) :
    ObservedSlot Job Usage Exit where
  key := runner.key
  repository := nonempty runner.repository
  desired := !retiring && !isDraining runner.state
  processRunning := runner.containerRunning
  state := runnerSlotState runner retiring
  failureCount := runner.fenceAttempts
  backoffSeconds := (runner.fenceRetryAt.map (backoff runner.updatedAt)).getD 0
  updatedAt := some (rfc.format runner.updatedAt)
  runnerNameHash := hashRunnerName pkg runner.runnerName
  currentJob := runner.currentJob
  activity := runnerActivity runner
  target := runner.targetKey
  registrationStatus := runnerRegistrationStatus runner
  imageID := slotImageID imageID

/-! ## The document -/

structure ObservedStatistics where
  observedAt : String
  availableJobs : Int
  acquiredJobs : Int
  assignedJobs : Int
  runningJobs : Int
  registeredRunners : Int
  busyRunners : Int
  idleRunners : Int
  deriving DecidableEq, Repr

structure ObservedTarget where
  key : String
  repository : Option String
  maximumSlots : Int
  targetSlots : Int
  localActiveWorkers : Int
  localIdleWorkers : Int
  localBusyWorkers : Int
  localDrainingWorkers : Int
  statistics : Option ObservedStatistics
  deriving DecidableEq, Repr

structure ObservedAutoscaling where
  status : String
  minimumIdleSlots : Int := 0
  maximumSlots : Int
  targetSlots : Int := 0
  assignedJobs : Int := 0
  runningJobs : Int := 0
  availableJobs : Int := 0
  idleRunners : Int := 0
  busyRunners : Int := 0
  scaleDownDelaySeconds : Int
  scaleDownAt : Option String := none
  scaleSetCount : Int
  lastError : Option String := none
  maximumActiveWorkers : Int
  targets : List ObservedTarget := []
  deriving DecidableEq, Repr

inductive UpdateStatus where
  | current
  | rolling
  | degraded
  deriving DecidableEq, Repr

structure ObservedUpdate where
  status : UpdateStatus := .current
  targetImage : String
  targetImageID : Option String
  targetRevision : String
  currentWorkers : Int := 0
  staleWorkers : Int := 0
  lastError : Option String := none
  deriving DecidableEq, Repr

structure ObservedState (Job Usage Exit : Type) where
  profileID : String
  managerInstanceID : String
  managerStatus : String
  observedAt : String
  scope : Scope
  generation : Int := 0
  desiredStateHash : Option String := none
  desiredStateStatus : String
  desiredSlots : Int := 0
  activeSlots : Int := 0
  eligibleSlots : Int := 0
  drainingSlots : Int := 0
  configuredSlots : Int := 0
  slots : List (ObservedSlot Job Usage Exit) := []
  autoscaling : ObservedAutoscaling
  update : ObservedUpdate

/-- The fields of the configuration that only the document reads. -/
structure PublishConfig extends Config where
  runnerImage : String := ""
  workerImageID : String := ""
  workerRevision : String := ""
  scaleDownDelay : Int := 0
  maximumActiveWorkers : Int := 0

def autoscalingStatus (managerStatus : String) (lastError : Option String) : String :=
  if lastError.isSome then "degraded"
  else if managerStatus = "starting" ∨ managerStatus = "stopping" then managerStatus
  else if managerStatus = "stopped" then "stopping"
  else "running"

def observedTargetState (rfc : Rfc3339) (snapshot : ScalerSnapshot Job Exit) : ObservedTarget where
  key := snapshot.target.key
  repository := nonempty snapshot.target.repository
  maximumSlots := max snapshot.target.maximum 0
  targetSlots := max snapshot.targetSlots 0
  localActiveWorkers := snapshot.activeRunners
  localIdleWorkers := snapshot.idleRunners
  localBusyWorkers := snapshot.busyRunners
  localDrainingWorkers := snapshot.drainingRunners
  statistics := snapshot.statistics.observedAt.map fun observedAt =>
    { observedAt := rfc.format observedAt
      availableJobs := snapshot.statistics.availableJobs
      acquiredJobs := snapshot.statistics.acquiredJobs
      assignedJobs := snapshot.statistics.assignedJobs
      runningJobs := snapshot.statistics.runningJobs
      registeredRunners := snapshot.statistics.registeredRunners
      busyRunners := snapshot.statistics.busyRunners
      idleRunners := snapshot.statistics.idleRunners }

section Build
variable (pkg : Packages) (rfc : Rfc3339) (cfg : PublishConfig)

/-- A pending cleanup is shown unless a worker holds its slot. -/
def observeCleanup (snapshot : ScalerSnapshot Job Exit) (state : ObservedState Job Usage Exit)
    (cleanup : PendingCleanup Exit) :
    ObservedState Job Usage Exit :=
  if slotKeyHeldByRunner snapshot cleanup.slotKey then state
  else
    { state with
      drainingSlots := state.drainingSlots + 1
      slots := state.slots ++ [observedCleanupSlot rfc cleanup snapshot] }

def observeRunner (snapshot : ScalerSnapshot Job Exit) (state : ObservedState Job Usage Exit)
    (runner : TrackedRunner Job) :
    ObservedState Job Usage Exit :=
  let slot := observedRunnerSlot pkg rfc runner snapshot.retiring cfg.workerImageID
  { state with
    activeSlots := state.activeSlots + 1
    drainingSlots := if snapshot.retiring ∨ isDraining runner.state then state.drainingSlots + 1
      else state.drainingSlots
    eligibleSlots := if slot.registrationStatus = .connected then state.eligibleSlots + 1 else state.eligibleSlots
    slots := state.slots ++ [slot] }

structure Build (Job Usage Exit : Type) where
  state : ObservedState Job Usage Exit
  earliestScaleDown : Option Int := none
  controllerMaximumSlots : Int := 0

def earlier : Option Int → Option Int → Option Int
  | earliest, none => earliest
  | none, some time => some time
  | some earliest, some time => some (if time < earliest then time else earliest)

def observeSnapshot (build : Build Job Usage Exit) (snapshot : ScalerSnapshot Job Exit) : Build Job Usage Exit :=
  let autoscaling := build.state.autoscaling
  let state :=
    { build.state with
      autoscaling :=
        { autoscaling with
          minimumIdleSlots := autoscaling.minimumIdleSlots + snapshot.minimumIdleSlots
          targetSlots := autoscaling.targetSlots + snapshot.targetSlots
          assignedJobs := autoscaling.assignedJobs + snapshot.statistics.assignedJobs
          runningJobs := autoscaling.runningJobs + snapshot.statistics.runningJobs
          availableJobs := autoscaling.availableJobs + snapshot.statistics.availableJobs
          idleRunners := autoscaling.idleRunners + snapshot.idleRunners
          busyRunners := autoscaling.busyRunners + snapshot.busyRunners
          targets := autoscaling.targets ++ [observedTargetState rfc snapshot] }
      update :=
        { build.state.update with
          staleWorkers := build.state.update.staleWorkers + snapshot.staleRunners
          currentWorkers := build.state.update.currentWorkers + (snapshot.runners.length - snapshot.staleRunners) } }
  let state := snapshot.pendingCleanups.foldl (observeCleanup rfc snapshot) state
  { state := snapshot.runners.foldl (observeRunner pkg rfc cfg snapshot) state
    earliestScaleDown := earlier build.earliestScaleDown snapshot.scaleDownAt
    controllerMaximumSlots := build.controllerMaximumSlots + max snapshot.target.maximum 0 }

def sortSlots (slots : List (ObservedSlot Job Usage Exit)) : List (ObservedSlot Job Usage Exit) :=
  slots.insertionSort fun a b => a.key ≤ b.key

def emptyState (instanceID managerStatus : String) (current : Option ParsedDesiredState) (desiredStateStatus : String)
    (scaleSetCount : Int) (lastError : Option String) (now : Int) : ObservedState Job Usage Exit :=
  let configuredSlots : Int := (current.map fun current => (configuredSlotKeys pkg current.state).length).getD 0
  { profileID := cfg.profileID
    managerInstanceID := instanceID
    managerStatus
    observedAt := rfc.format now
    scope := (current.map (·.state.scope)).getD cfg.scope
    generation := (current.map (·.state.generation)).getD 0
    desiredStateHash := current.map (·.stateHash)
    desiredStateStatus
    configuredSlots
    autoscaling :=
      { status := autoscalingStatus managerStatus lastError
        maximumSlots := configuredSlots
        scaleDownDelaySeconds := cfg.scaleDownDelay / second
        scaleSetCount
        maximumActiveWorkers := cfg.maximumActiveWorkers
        lastError }
    update :=
      { targetImage := cfg.runnerImage, targetImageID := slotImageID cfg.workerImageID,
        targetRevision := cfg.workerRevision } }

def buildObservedState (instanceID managerStatus : String) (current : Option ParsedDesiredState)
    (desiredStateStatus : String)
    (snapshots : List (ScalerSnapshot Job Exit)) (lastError : Option String) (now : Int) :
    ObservedState Job Usage Exit :=
  let build := snapshots.foldl (observeSnapshot pkg rfc cfg)
    { state := emptyState pkg rfc cfg instanceID managerStatus current desiredStateStatus snapshots.length lastError
        now }
  let state := build.state
  let status := if state.update.staleWorkers > 0 then UpdateStatus.rolling else state.update.status
  let configuredSlots := max state.configuredSlots build.controllerMaximumSlots
  let maximumSlots := max configuredSlots state.autoscaling.targetSlots
  { state with
    desiredSlots := state.autoscaling.targetSlots
    configuredSlots := maximumSlots
    slots := sortSlots state.slots
    autoscaling :=
      { state.autoscaling with
        maximumSlots
        scaleDownAt := build.earliestScaleDown.map rfc.format }
    update :=
      { state.update with
        status := if lastError.isSome then .degraded else status
        lastError } }

end Build

/-! ## Publishing -/

/-- A container found at the start of the manager. -/
structure RecoveredContainer where
  containerID : String
  runnerName : String
  targetKey : String
  slotKey : String
  createdAt : Option Int := none
  deriving DecidableEq, Repr

structure PublishingManager (Job Exit : Type) where
  instanceID : String
  managerStatus : String
  applied : Option ParsedDesiredState := none
  current : Option ParsedDesiredState := none
  desiredStatus : String
  lastError : Option String := none
  controllers : Map String (ScalerView Job Exit)
  retiring : Map String (ScalerView Job Exit)
  pending : Finset String
  retirementRecords : RetirementRecords
  recovered : Map String (List RecoveredContainer)

section Publish
variable (pkg : Packages) (rfc : Rfc3339) (o : RangeOrder String) (cfg : PublishConfig)

namespace PublishingManager
variable (m : PublishingManager Job Exit)

/-- The scalers in the order of their keys; a retiring controller under the key of a current one is not shown. -/
def scalers : List (ScalerView Job Exit) :=
  (sortedList (m.controllers.keys ∪ m.retiring.keys)).filterMap fun key =>
    (m.controllers.lookup key).or (m.retiring.lookup key)

def snapshots : List (ScalerSnapshot Job Exit) := m.scalers.map (·.snapshot o)

def observedCurrent : Option ParsedDesiredState := m.applied.or m.current

end PublishingManager

def desiredTargetKeys (current : Option ParsedDesiredState) : List String :=
  match current with
  | none => []
  | some current =>
    match buildTargetSpecs pkg cfg.toConfig current.state with
    | .error _ => []
    | .ok targets => targets.map (·.key)

def observedRecoveredSlot (desired retiring : Bool) (publicationTime : Int) (container : RecoveredContainer) :
    ObservedSlot Job Usage Exit where
  key := container.slotKey
  desired := desired && !retiring
  processRunning := true
  state := if retiring || !desired then .draining else .starting
  failureCount := 0
  backoffSeconds := 0
  updatedAt := some (rfc.format (container.createdAt.getD publicationTime))
  runnerNameHash := hashRunnerName pkg container.runnerName
  activity := .unknown
  target := container.targetKey

def observeRecovered (desired retiring : Bool) (publicationTime : Int) (state : ObservedState Job Usage Exit)
    (container : RecoveredContainer) : ObservedState Job Usage Exit :=
  { state with
    activeSlots := state.activeSlots + 1
    drainingSlots := if retiring || !desired then state.drainingSlots + 1 else state.drainingSlots
    slots := state.slots ++ [observedRecoveredSlot pkg rfc desired retiring publicationTime container] }

def applyResourceSample (sample : Map String Usage) (state : ObservedState Job Usage Exit) :
    ObservedState Job Usage Exit :=
  { state with slots := state.slots.map fun slot => { slot with resources := sample.lookup slot.key } }

/-- The document that `publishObserved` writes, with the slots of its resource sample and the clock. -/
def publishObserved (m : PublishingManager Job Exit) (sample : Map String Usage) (now : Int) :
    ObservedState Job Usage Exit :=
  let publicationTime := now / second * second
  let state := buildObservedState pkg rfc cfg m.instanceID m.managerStatus m.observedCurrent m.desiredStatus
    (m.snapshots o)
    m.lastError publicationTime
  let scaleSetCount := state.autoscaling.scaleSetCount + m.pending.card
  let state := { state with autoscaling := { state.autoscaling with scaleSetCount } }
  let desiredKeys := desiredTargetKeys pkg cfg m.observedCurrent
  let state := (Map.entriesIn o m.recovered).foldl (fun state entry =>
    entry.2.foldl (observeRecovered pkg rfc (decide (entry.1 ∈ desiredKeys)) (m.retirementRecords.lookup entry.1).isSome
      publicationTime) state) state
  let state := applyResourceSample sample state
  { state with slots := sortSlots state.slots }

end Publish
end PitCrew.Autoscaler.Observed
