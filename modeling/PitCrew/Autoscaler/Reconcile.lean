import PitCrew.Autoscaler.Registrations

/-! # Operations of a runner scaler

The operations that the operation gate of a `runnerScaler` lets in one at a time
(`manager/autoscaler/scaler.go`): reconciliation with its retries, launches and scale-down, a container's exit,
the listener's messages, lifecycle signals from logs, and shutdown. An operation answers whether it ended
without an error; the runner count it reports to the listener is left out. -/

namespace PitCrew.Autoscaler
open Base

def containerMonitorWindow : Int := minute
def containerLivenessReconcileGrace : Int := 3 * containerMonitorWindow
def workerLaunchRetryBase : Int := minute
def workerLaunchRetryMaximum : Int := 15 * minute
def workerExitRetryJitter : Int := 15 * second

/-! ## Runners -/

def calculateTarget (maximum minimumIdle assignedJobs : Int) : Int :=
  if maximum < 0 ∨ minimumIdle < 0 ∨ assignedJobs < 0 then 0
  else if minimumIdle ≥ maximum ∨ assignedJobs ≥ maximum - minimumIdle then maximum
  else minimumIdle + assignedJobs

namespace Scaler

def records (s : Scaler) : List RunnerRecord := (s.runners.entriesIn .sorted).map (·.2)

def capacityCount (s : Scaler) : Int :=
  (s.records.filter fun r => r.state ≠ .cleanupPending && r.state ≠ .draining).length

def findRunnerByContainer (s : Scaler) (containerID : String) : Option RunnerRecord :=
  s.records.find? (·.containerID = containerID)

def findRunner (s : Scaler) (name : String) (runnerID : Int) : Option RunnerRecord :=
  s.records.find? fun r => (runnerID > 0 && r.runnerID = runnerID) || (name ≠ "" && r.runnerName = name)

def oldest (time : RunnerRecord → Int) (runners : List RunnerRecord) : List RunnerRecord :=
  runners.insertionSort fun a b => time a < time b ∨ (time a = time b ∧ a.key ≤ b.key)

def idleRunners (s : Scaler) : List RunnerRecord :=
  oldest (fun r => r.idleSince.getD r.startedAt)
    (s.records.filter fun r => r.state = .idle && !r.isProtected && r.fenceRetryAt.isNone)

def oldestIdleRunner (s : Scaler) : Option RunnerRecord := s.idleRunners.head?

def oldestProtectedRecoveredRunner (s : Scaler) : Option RunnerRecord :=
  (oldest (·.startedAt)
    (s.records.filter fun r => r.recovered && r.isProtected && r.state = .starting && !r.registrationRemoved)).head?

def updateRunner (s : Scaler) (key : String) (f : RunnerRecord → RunnerRecord) : Scaler :=
  match s.runners.lookup key with
  | none => s
  | some r => { s with runners := s.runners.insert key (f r) }

/-- The history of the call of `reconcileLocked` goes on. -/
def noteReconciliation (s : Scaler) (f : Reconciliation → Reconciliation) : Scaler :=
  { s with reconciliation := f s.reconciliation }

end Scaler

/-- A runner is to be fenced: it drains, and no longer counts as idle. -/
def RunnerRecord.drain (r : RunnerRecord) : RunnerRecord := { r with state := .draining, idleSince := none }

def Scaler.drain (s : Scaler) (key : String) (runner : RunnerRecord) (purpose : FencePurpose) : Scaler :=
  { s with
    runners := s.runners.insert key runner.drain
    fencing := some { purpose, key, runnerID := runner.runnerID } }

/-- A runner that still drains gets back the state it had. -/
def RunnerRecord.restore (r previous : RunnerRecord) : RunnerRecord :=
  if r.state = .draining then { r with state := previous.state, idleSince := previous.idleSince } else r

/-- A runner that turned out to be busy. -/
def RunnerRecord.busy (r : RunnerRecord) : RunnerRecord := { r with state := .busy, isProtected := false }

/-- The scaler takes note of a removal that did not succeed, with the runner as it was before it drained. -/
def noteRemovalError (previous : RunnerRecord) (answer : Removal) : ScalerProg Unit :=
  ScalerProg.modify fun s =>
    s.updateRunner previous.key fun r => if answer = .jobStillRunning then r.busy else r.restore previous

/-- The fence could not be saved. -/
def restoreRunner (previous : RunnerRecord) : ScalerProg Unit :=
  ScalerProg.modify fun s => { s.updateRunner previous.key (·.restore previous) with fencing := none }

/-- A runner whose container could not be stopped after its registration was removed. -/
def awaitCleanup (key : String) (registrationRemoved : Bool) : ScalerProg Unit :=
  ScalerProg.modify fun s => s.updateRunner key fun r =>
    { r with state := .cleanupPending, registrationRemoved := registrationRemoved || r.registrationRemoved }

section
variable (cfg : ScalerConfig)

/-! ## Adoption -/

def markAdopted (candidate : RunnerRecord) : ScalerProg Unit :=
  ScalerProg.modify fun s => s.updateRunner candidate.key fun r =>
    if r.hostSlotKey = candidate.hostSlotKey ∧ r.hostLeaseReleased = false then { r with hostLeaseAdopted := true }
      else r

/-- What a retry does for one runner whose lease is not confirmed. -/
def retryAdoption (candidate : RunnerRecord) : ScalerProg Bool := do
  if candidate.hostSlotKey = "" then return false
  else
    let bound ← HostAdmission.bindRegistration candidate.hostSlotKey candidate.runnerName
    if bound = .failed then return false
    else
      match ← HostAdmission.adoptIf candidate with
      | none => return true
      | some false => return false
      | some true =>
        if bound = .notFound then
          if (← HostAdmission.bindRegistration candidate.hostSlotKey candidate.runnerName) = .ok then
            markAdopted candidate
            return true
          else return false
        else
          markAdopted candidate
          return true

def retryAdoptions : List RunnerRecord → ScalerProg Bool
  | [] => return true
  | candidate :: candidates => do
    let ok ← retryAdoption candidate
    let rest ← retryAdoptions candidates
    return ok && rest

/-- `retryPendingHostLeaseAdoptions`: whether all leases are confirmed, and whether there was no error. -/
def retryPendingHostLeaseAdoptions : ScalerProg (Bool × Bool) := do
  if ← HostAdmission.enabled then
    let pending ← ScalerProg.gets fun s => s.records.filter fun r => !r.hostLeaseReleased && !r.hostLeaseAdopted
    let ok ← retryAdoptions pending
    let adopted ← ScalerProg.gets fun s => s.records.all fun r => r.hostLeaseReleased || r.hostLeaseAdopted
    return (adopted, ok)
  else return (true, true)

/-! ## Fenced removals -/

/-- The container of a runner whose registration is gone. -/
def stopFencedRunner (runner : RunnerRecord) (registrationRemoved : Bool) : ScalerProg Bool := do
  if ← stopAndRemove runner.containerID false then settleStoppedRunner cfg runner.key
  else
    awaitCleanup runner.key registrationRemoved
    return false

/-- A runner that drains is removed at GitHub and then stopped; `previous` is the runner before it drained. -/
def removeFencedRunner (previous : RunnerRecord) : ScalerProg (Bool × Bool) := do
  let answer ← removeRunner previous.runnerID .fence
  if answer = .removed then
    resolvePendingRegistrationFence previous.key
    let ok ← stopFencedRunner cfg previous true
    return (true, ok)
  else
    noteRemovalError previous answer
    if answer = .jobStillRunning then
      resolvePendingRegistrationFence previous.key
      return (false, true)
    else return (false, false)

/-- What the retry of a fence makes of the runner of its slot. -/
inductive FenceRetry where
  | absent
  | cancelled
  | drained (previous : RunnerRecord)

def Scaler.retryFence (s : Scaler) (record : RegistrationFenceRecord) : FenceRetry × Scaler :=
  match s.runners.lookup record.slotKey with
  | none => (.absent, s)
  | some runner =>
    if runner.runnerID ≠ record.runnerID then (.absent, s)
    else if record.purpose = .scaleDown ∧ s.capacityCount ≤ s.targetSlots then (.cancelled, s)
    else if record.purpose = .stale ∧ runner.stale = false then (.cancelled, s)
    else if runner.state = .busy ∨ runner.registrationRemoved = true then (.cancelled, s)
    else (.drained runner, s.drain record.slotKey runner record.purpose)

/-- The end of a fence retry: like `removeFencedRunner`, but the removal is noted before the fence is resolved. -/
def retryFencedRunner (previous : RunnerRecord) : ScalerProg Bool := do
  let answer ← removeRunner previous.runnerID .fence
  if answer = .removed then
    ScalerProg.modify fun s => s.updateRunner previous.key fun r => { r with registrationRemoved := true }
    resolvePendingRegistrationFence previous.key
    stopFencedRunner cfg previous false
  else
    noteRemovalError previous answer
    if answer = .jobStillRunning then
      resolvePendingRegistrationFence previous.key
      return true
    else return false

def retryPendingRegistrationFence (record : RegistrationFenceRecord) : ScalerProg Bool := do
  match ← Prog.locally fun w => ((w.scaler.retryFence record).1,
    { w with scaler := (w.scaler.retryFence record).2 }) with
  | .absent =>
    let (cleanup, saved) ← beginPendingRegistrationCleanup cfg
      { key := record.slotKey
        runnerName := record.runnerName
        runnerID := record.runnerID
        containerID := record.containerID
        container := record.containerName }
    if saved then
      resolvePendingRegistrationFence record.slotKey
      attemptPendingRegistrationCleanup cleanup
    else return false
  | .cancelled =>
    resolvePendingRegistrationFence record.slotKey
    return true
  | .drained previous =>
    if ← preparePendingRegistrationFenceRetry cfg record.slotKey then retryFencedRunner cfg previous
    else
      restoreRunner previous
      return false

def retryFences : List RegistrationFenceRecord → ScalerProg Bool
  | [] => return true
  | record :: records => do
    let now ← ScalerProg.now
    if registrationFenceDue cfg.rfc record now then
      let ok ← retryPendingRegistrationFence cfg record
      let rest ← retryFences records
      return ok && rest
    else retryFences records

def retryPendingRegistrationFences : ScalerProg Bool := do
  let pending ← ScalerProg.gets fun s => (s.pendingFences.entriesIn .sorted).map (·.2)
  retryFences cfg pending

def retryCleanups : List RunnerRecord → ScalerProg Bool
  | [] => return true
  | runner :: runners => do
    if ← stopAndRemove runner.containerID false then
      let ok ← settleStoppedRunner cfg runner.key
      let rest ← retryCleanups runners
      return ok && rest
    else
      let _ ← retryCleanups runners
      return false

def retryCleanupPending : ScalerProg Bool := do
  let pending ← ScalerProg.gets fun s => s.records.filter fun r => r.state = .cleanupPending
  retryCleanups cfg pending

/-! ## Stale runners -/

/-- A stale runner that may be replaced now. -/
def RunnerRecord.retirable (r : RunnerRecord) : Bool :=
  r.stale && !r.registrationRemoved && r.state ≠ .busy && r.state ≠ .draining && r.state ≠ .cleanupPending

def retireStaleRunner (key : String) : ScalerProg Bool := do
  let candidate ← Prog.locally fun w =>
    match w.scaler.runners.lookup key with
    | none => (none, w)
    | some current =>
      if current.retirable then (some current, w.update (·.drain key current .stale)) else (none, w)
  match candidate with
  | none => return true
  | some previous =>
    if ← beginPendingRegistrationFence cfg previous .stale then
      let (_, ok) ← removeFencedRunner cfg previous
      return ok
    else
      restoreRunner previous
      return false

def retireRunners : List RunnerRecord → ScalerProg Bool
  | [] => return true
  | candidate :: candidates => do
    let ok ← retireStaleRunner cfg candidate.key
    let rest ← retireRunners candidates
    return ok && rest

def retireStaleRunners : ScalerProg Bool := do
  let now ← ScalerProg.now
  let candidates ← ScalerProg.gets fun s => s.records.filter fun r =>
    r.retirable && !(r.fenceRetryAt.any fun retryAt => now < retryAt)
  retireRunners cfg candidates

/-! ## Exits -/

def workerExitRetryDelay (failures : Int) : Int :=
  let delay := boundedExponentialBackoff workerLaunchRetryBase workerLaunchRetryMaximum failures
  if delay = 0 then 0
  else min (delay + cfg.deterministicRetryJitter (cfg.profileID ++ "\x00" ++ cfg.targetKey) workerExitRetryJitter)
    workerLaunchRetryMaximum

structure Exit where
  runner : RunnerRecord
  shuttingDown : Bool
  abrupt : Bool

/-- `scheduleExitRetry`, if the exit was abrupt. -/
def scheduleExitRetry (exit : Exit) : ScalerProg Unit :=
  Prog.atomic fun w c => ((), w.update fun s =>
    if exit.abrupt then
      { s with
        exitFailures := s.exitFailures + 1
        exitRetryAt := some (c.now + workerExitRetryDelay cfg (s.exitFailures + 1)) }
    else s)

/-- The runner of a container that has exited, and what its exit means for later ones. -/
def Scaler.exit (s : Scaler) (containerID : String) (clean : Bool) : Option Exit × Scaler :=
  match s.findRunnerByContainer containerID with
  | none => (none, s)
  | some runner =>
    let unexpected := runner.state ≠ .draining && !s.shuttingDown
    (some { runner, shuttingDown := s.shuttingDown, abrupt := unexpected && !clean },
      if !unexpected && clean && runner.completedAt.isSome then { s with exitFailures := 0, exitRetryAt := none }
        else s)

/-- The registration of a runner that has exited is on record; nothing is, during shutdown or if it is gone. -/
def recordExit (exit : Exit) : ScalerProg (Option RegistrationCleanupRecord × Bool) := do
  if exit.shuttingDown ∨ exit.runner.registrationRemoved = true then return (none, true)
  else
    let (record, saved) ← beginPendingRegistrationCleanup cfg exit.runner
    return (some record, saved)

/-- `handleContainerExitLocked` without the reconciliation at its end: whether one is to follow. -/
def handleContainerExitLocked (containerID : String) : ScalerProg Bool := do
  let exited ← Prog.atomic fun w c =>
    ((w.scaler.exit containerID c.clean).1, { w with scaler := (w.scaler.exit containerID c.clean).2 })
  match exited with
  | none => return false
  | some exit =>
    scheduleExitRetry cfg exit
    let (record, saved) ← recordExit cfg exit
    if saved then
      let _ ← settleStoppedRunner cfg exit.runner.key
      let needsReconcile ← Prog.locally fun w =>
        let s := w.scaler
        (!s.shuttingDown && s.capacityCount < s.targetSlots,
          w.update fun s => if s.capacityCount ≤ s.targetSlots then { s with scaleDownAt := none } else s)
      match record with
      | none => return needsReconcile
      | some record =>
        let _ ← attemptPendingRegistrationCleanup record
        return needsReconcile
    else
      ScalerProg.modify fun s => s.updateRunner exit.runner.key fun r =>
        { r with containerRunning := false, state := .cleanupPending }
      return false

/-- A probe of a runner whose container has not been confirmed for long. -/
def probeRunner (candidate : RunnerRecord) : ScalerProg Bool := do
  match ← probeContainer candidate.containerID with
  | none => return false
  | some true =>
    let now ← ScalerProg.now
    ScalerProg.modify fun s => s.updateRunner candidate.key fun r =>
      if r.containerID = candidate.containerID then { r with containerRunning := true, containerConfirmedAt := now }
        else r
    return true
  | some false =>
    let _ ← handleContainerExitLocked cfg candidate.containerID
    return true

def probeRunners : List RunnerRecord → ScalerProg Bool
  | [] => return true
  | candidate :: candidates => do
    let ok ← probeRunner cfg candidate
    let rest ← probeRunners candidates
    return ok && rest

def reconcileContainerLiveness : ScalerProg Bool := do
  let now ← ScalerProg.now
  let candidates ← ScalerProg.gets fun s => s.records.filter fun r =>
    r.containerID ≠ "" && !(now - r.containerConfirmedAt < containerLivenessReconcileGrace)
  probeRunners cfg candidates

/-! ## Launches -/

/-- Why a runner was not started: `hostAdmission` for the errors after which the next launch is not delayed. -/
inductive LaunchFailure where
  | hostAdmission
  | other
  deriving DecidableEq, Repr

def runnerNameOf (suffix : String) : Bytes :=
  let namePrefix := sanitizeIdentifier cfg.pkg (Utf8.ofString cfg.namePrefix) 30
  let namePrefix := if namePrefix = [] then Utf8.ofString "runner" else namePrefix
  namePrefix ++ hyphen :: sanitizeIdentifier cfg.pkg (Utf8.ofString cfg.targetKey) 16 ++ hyphen :: Utf8.ofString suffix

/-- `nextRunnerName`, with which every call of `startRunner` begins. -/
def nextRunnerName : ScalerProg (Option String) :=
  Prog.atomic fun w c =>
    (if c.outcome = .done then some (Utf8.toString (runnerNameOf cfg c.text)) else none,
      w.update (·.noteReconciliation fun r => { r with starts := r.starts + 1 }))

def slotKey (runnerID : Int) : String := cfg.targetKey ++ "-" ++ toString runnerID

structure Launch where
  runnerName : String
  runnerID : Int
  hostSlotKey : String

namespace Launch
variable (l : Launch)

def runner (containerID container : String) : RunnerRecord where
  key := slotKey cfg l.runnerID
  runnerName := l.runnerName
  runnerID := l.runnerID
  containerID := containerID
  container := container

def containerName : String := sanitizeText cfg.pkg l.runnerName 63

def containerSpec (createdAt : Int) (running : Bool) : Container where
  name := l.containerName cfg
  slotKey := slotKey cfg l.runnerID
  targetKey := cfg.targetKey
  runnerName := l.runnerName
  runnerID := l.runnerID
  revision := cfg.workerRevision
  hostSlotKey := l.hostSlotKey
  createdAt := createdAt
  running := running

/-- `abandonLaunch`; an empty identifier stands for a container that was not created. -/
def abandon (containerID : String) : ScalerProg Unit := do
  let _ ← removeRegistrationOrEnqueue cfg (l.runner cfg containerID (l.containerName cfg))
  if containerID = "" then
    let _ ← releaseHostLeaseOrEnqueue cfg (slotKey cfg l.runnerID) l.hostSlotKey
  else
    let _ ← stopAndRemove containerID true
    let _ ← releaseHostLeaseOrEnqueue cfg (slotKey cfg l.runnerID) l.hostSlotKey

/-- The launch is given up before there is a container name. -/
def giveUp : ScalerProg Unit := do
  let _ ← removeRegistrationOrEnqueue cfg (l.runner cfg "" "")
  let _ ← releaseHostLeaseOrEnqueue cfg (slotKey cfg l.runnerID) l.hostSlotKey

/-- The worker runs: it is tracked, unless shutdown has begun in the meantime. -/
def track (containerID : String) : ScalerProg (Option LaunchFailure) := do
  let inserted ← Prog.atomic fun w c =>
    if w.scaler.shuttingDown then (false, w)
    else
      let runner : RunnerRecord :=
        { l.runner cfg containerID (l.containerName cfg) with
          containerRunning := true
          containerConfirmedAt := c.now
          startedAt := c.now
          hostSlotKey := l.hostSlotKey
          hostLeaseAdopted := w.scaler.hostAdmission }
      (true, w.update fun s => { s with runners := s.runners.insert runner.key runner })
  if inserted then
    let _ ← clearLaunchIntent
    return none
  else
    l.abandon cfg containerID
    return some .other

/-- The container of a launch with a host lease, which is active before the container starts. -/
def createAndStart : ScalerProg (Option LaunchFailure) := do
  if ← HostAdmission.renew l.hostSlotKey then
    let now ← ScalerProg.now
    match ← launchContainer (l.containerSpec cfg now false) with
    | none =>
      l.abandon cfg ""
      return some .other
    | some containerID =>
      if ← HostAdmission.renew l.hostSlotKey then
        if ← HostAdmission.activate l.hostSlotKey then
          if ← startContainer containerID then l.track cfg containerID
          else
            l.abandon cfg containerID
            return some .other
        else
          l.abandon cfg containerID
          return some .hostAdmission
      else
        l.abandon cfg containerID
        return some .hostAdmission
  else
    l.abandon cfg ""
    return some .hostAdmission

/-- The container of a launch without host admission. -/
def run : ScalerProg (Option LaunchFailure) := do
  let now ← ScalerProg.now
  match ← launchContainer (l.containerSpec cfg now true) with
  | none =>
    l.abandon cfg ""
    return some .other
  | some containerID => l.track cfg containerID

def proceed : ScalerProg (Option LaunchFailure) := do
  if l.hostSlotKey = "" then
    if l.containerName cfg = "" then
      l.giveUp cfg
      return some .other
    else l.run cfg
  else if (← HostAdmission.bindRegistration l.hostSlotKey l.runnerName) = .ok then
    if l.containerName cfg = "" then
      l.giveUp cfg
      return some .other
    else l.createAndStart cfg
  else
    l.giveUp cfg
    return some .hostAdmission

end Launch

/-- From the launch intent on; `hostSlotKey` is empty without host admission. -/
def launchRunner (name hostSlotKey : String) : ScalerProg (Option LaunchFailure) := do
  if ← beginLaunchIntent cfg name then
    match ← generateJIT with
    | none =>
      let _ ← releaseHostLeaseOrEnqueue cfg name hostSlotKey
      return some .other
    | some (runnerID, runnerName) =>
      if ← updateLaunchIntentRunnerID runnerID then
        Launch.proceed cfg { runnerName, runnerID, hostSlotKey }
      else
        let _ ← releaseHostLeaseOrEnqueue cfg name hostSlotKey
        return some .other
  else
    let _ ← releaseHostLeaseOrEnqueue cfg name hostSlotKey
    return some .other

/-- `startRunner`: why no runner was started, if none was. -/
def startRunner : ScalerProg (Option LaunchFailure) := do
  match ← nextRunnerName cfg with
  | none => return some .other
  | some name =>
    if ← HostAdmission.enabled then
      if ← HostAdmission.acquire name then launchRunner cfg name name else return some .hostAdmission
    else launchRunner cfg name ""

def scheduleLaunchRetry : ScalerProg Unit := do
  let now ← ScalerProg.now
  ScalerProg.modify fun s =>
    { s with
      launchFailures := s.launchFailures + 1
      launchRetryAt := some (now + boundedExponentialBackoff workerLaunchRetryBase workerLaunchRetryMaximum
        (s.launchFailures + 1)) }

def clearLaunchRetry : ScalerProg Unit :=
  ScalerProg.modify fun s => { s with launchFailures := 0, launchRetryAt := none }

def startRunners : Nat → ScalerProg Bool
  | 0 => do
    HostAdmission.setTargetDemand 0
    return true
  | remaining + 1 => do
    match ← startRunner cfg with
    | none =>
      clearLaunchRetry
      startRunners remaining
    | some .hostAdmission => return false
    | some .other =>
      HostAdmission.setTargetDemand 0
      scheduleLaunchRetry
      return false

/-! ## Scale-down -/

/-- The runner that the next round of scale-down fences, if capacity is to shrink and there is one. -/
def Scaler.scaleDown (s : Scaler) : Option RunnerRecord × Scaler :=
  if s.capacityCount ≤ s.targetSlots then (none, { s with scaleDownAt := none })
  else
    let candidate := s.oldestIdleRunner.or (if s.retiring then s.oldestProtectedRecoveredRunner else none)
    match candidate with
    | none => (none, s)
    | some candidate => (some candidate, s.drain candidate.key candidate .scaleDown)

/-- The loop of scale-down. A round that goes on has taken a runner out of the capacity, so that there are
    no more rounds than runners. -/
def scaleDownRounds : Nat → ScalerProg Bool
  | 0 => return true
  | rounds + 1 => do
    match ← Prog.locally fun w => (w.scaler.scaleDown.1, { w with scaler := w.scaler.scaleDown.2 }) with
    | none => return true
    | some previous =>
      if ← beginPendingRegistrationFence cfg previous .scaleDown then
        let (removed, ok) ← removeFencedRunner cfg previous
        if removed then
          let rest ← scaleDownRounds rounds
          return ok && rest
        else
          ScalerProg.modify fun s => { s with scaleDownAt := none }
          return false
      else
        restoreRunner previous
        return false

def scaleDown : ScalerProg Bool := do
  let now ← ScalerProg.now
  let due ← Prog.locally fun w =>
    let scaleDownAt := w.scaler.scaleDownAt.getD (now + cfg.scaleDownDelay)
    (!(now < scaleDownAt), w.update fun s => { s with scaleDownAt := some scaleDownAt })
  if due then
    let rounds ← ScalerProg.gets fun s => s.runners.keys.card + 1
    scaleDownRounds cfg rounds
  else return true

/-! ## Reconciliation -/

/-- What is to be done about the difference between target and capacity. -/
inductive Capacity where
  | shutdown
  | wait
  | launch (missing : Int)
  | steady
  | shrink
  deriving DecidableEq, Repr

def Scaler.decide (s : Scaler) (launchIntentPending : Bool) (now : Int) : Capacity × Scaler :=
  let current := s.capacityCount
  let target := s.targetSlots
  let s := s.noteReconciliation ({ · with targetSlots := target, capacity := current })
  if s.shuttingDown then (.shutdown, s)
  else if launchIntentPending ∧ target > current then (.wait, s)
  else if target > current ∧ s.launchRetryAt.any (now < ·) then (.wait, s)
  else
    let s : Scaler := if target ≤ current then { s with launchFailures := 0, launchRetryAt := none }
      else { s with launchRetryAt := none }
    if target > current ∧ s.exitRetryAt.any (now < ·) then (.wait, s)
    else
      let s : Scaler := if target ≥ current then { s with scaleDownAt := none } else s
      if target > current then (.launch (target - current), s)
      else if target = current then (.steady, s)
      else (.shrink, s)

/-- The launches, less one for each registration still to be cleaned up. -/
def launchMissing (missing : Int) : ScalerProg Bool := do
  let blocked ← Prog.locally fun w =>
    let blocked : Int := w.scaler.pendingRegistrations.keys.card
    (blocked, w.update (·.noteReconciliation ({ · with pendingRegistrations := blocked })))
  let missing := missing - min blocked missing
  -- the answer of `admissionController.reserve`: any number up to the request, which it does not pass (`reserve_le`)
  let admitted ← Prog.atomic fun w c => (min c.granted missing.toNat, w)
  HostAdmission.setTargetDemand admitted
  startRunners cfg admitted

def reconcileCapacity (launchIntentPending hostLeasesAdopted : Bool) : ScalerProg Bool := do
  let capacity ← Prog.atomic fun w c =>
    ((w.scaler.decide launchIntentPending c.now).1, { w with scaler := (w.scaler.decide launchIntentPending c.now).2 })
  match capacity with
  | .shutdown => return true
  | .wait =>
    HostAdmission.setTargetDemand 0
    return true
  | .launch missing => if hostLeasesAdopted then launchMissing cfg missing else return true
  | .steady =>
    HostAdmission.setTargetDemand 0
    return true
  | .shrink =>
    HostAdmission.setTargetDemand 0
    scaleDown cfg

def retryLaunchIntent (hostLeasesAdopted : Bool) : ScalerProg Bool :=
  if hostLeasesAdopted then retryPendingLaunchIntent cfg else return true

def Scaler.registrationStateError (s : Scaler) : Bool :=
  s.cleanupStateError || s.fenceStateError || s.launchIntentStateError

def reconcileLocked : ScalerProg Bool := do
  let unavailable ← Prog.locally fun w => (w.scaler.registrationStateError, w.update (·.noteReconciliation fun _ => {}))
  if unavailable then
    HostAdmission.setTargetDemand 0
    return false
  else
    let (hostLeasesAdopted, adoption) ← retryPendingHostLeaseAdoptions
    let intent ← retryLaunchIntent cfg hostLeasesAdopted
    let launchIntentPending ← ScalerProg.gets (·.pendingLaunchIntent.isSome)
    let releases ← retryPendingHostLeaseReleases cfg
    let registrations ← retryPendingRegistrations cfg
    let fences ← retryPendingRegistrationFences cfg
    let cleanups ← retryCleanupPending cfg
    let stale ← retireStaleRunners cfg
    let liveness ← reconcileContainerLiveness cfg
    let capacity ← reconcileCapacity cfg launchIntentPending hostLeasesAdopted
    return adoption && intent && releases && registrations && fences && cleanups && stale && liveness && capacity

/-! ## Operations -/

def Scaler.retarget (s : Scaler) (maximum : Int) : Scaler :=
  { s with
    maximum
    targetSlots := if s.retiring then 0 else calculateTarget maximum cfg.minimumIdle s.assignedJobs }

def handleDesiredRunnerCount (assignedJobs : Int) : ScalerProg Unit := do
  if assignedJobs < 0 then return
  else
    ScalerProg.modify fun s => Scaler.retarget cfg { s with assignedJobs } s.maximum
    let _ ← reconcileLocked cfg

/-- The listener's word on a job, for a runner that is tracked and registered. -/
def handleJob (runnerName : String) (runnerID : Int) (f : Int → RunnerRecord → RunnerRecord) : ScalerProg Unit := do
  let now ← ScalerProg.now
  ScalerProg.modify fun s =>
    match s.findRunner runnerName runnerID with
    | none => s
    | some runner => if runner.registrationRemoved then s else s.updateRunner runner.key (f now)

def handleJobStarted (runnerName : String) (runnerID : Int) : ScalerProg Unit :=
  handleJob runnerName runnerID fun _ r => { r with state := .busy, isProtected := false, idleSince := none }

def handleJobCompleted (runnerName : String) (runnerID : Int) : ScalerProg Unit :=
  handleJob runnerName runnerID fun now r =>
    { r with state := .draining, isProtected := false, idleSince := none, completedAt := some now }

def setMaximum (maximum : Int) : ScalerProg Unit := do
  if maximum < 0 then return
  else
    let previous ← Prog.locally fun w => ((w.scaler.maximum, w.scaler.scaleDownAt),
      w.update fun s => s.retarget cfg maximum)
    if ← reconcileLocked cfg then return
    else
      ScalerProg.modify fun s => { s.retarget cfg previous.1 with scaleDownAt := previous.2 }
      let _ ← reconcileLocked cfg

def beginRetirement : ScalerProg Unit := do
  let now ← ScalerProg.now
  ScalerProg.modify fun s => { s with retiring := true, maximum := 0, targetSlots := 0, scaleDownAt := some now }
  let _ ← reconcileLocked cfg

def reactivate (maximum : Int) : ScalerProg Unit := do
  if maximum < 0 then return
  else
    ScalerProg.modify fun s => { Scaler.retarget cfg { s with retiring := false } maximum with scaleDownAt := none }
    let _ ← reconcileLocked cfg

def tick : ScalerProg Unit := do
  let _ ← reconcileLocked cfg

def handleContainerExit (containerID : String) : ScalerProg Unit := do
  if ← handleContainerExitLocked cfg containerID then
    let _ ← reconcileLocked cfg

/-- A lifecycle signal. A busy runner does not go back to idle by one. -/
def Scaler.applyLogState (s : Scaler) (containerID : String) (signal : LogSignal) (observedAt : Int) : Scaler :=
  match s.findRunnerByContainer containerID with
  | none => s
  | some runner =>
    if runner.registrationRemoved = true ∨ (signal = .idle ∧ runner.state = .busy) then s
    else s.updateRunner runner.key fun r =>
      { r with
        state := signal.state
        isProtected := false
        idleSince := if signal = .idle then some observedAt else none
        completedAt := if signal = .draining ∧ r.completedAt = none then some observedAt else r.completedAt }

def applyLogState (containerID : String) (signal : LogSignal) : ScalerProg Unit := do
  let now ← ScalerProg.now
  ScalerProg.modify fun s => s.applyLogState containerID signal now

/-! ## Shutdown -/

/-- `runRunnerOperations`: an operation for each of the runners, side by side. -/
def runRunnerOperations {α : Type} (operation : RunnerRecord → ScalerProg α) (runners : List RunnerRecord) :
    ScalerProg (List α) :=
  Prog.parAll (·.branch) 0 (runners.map operation)

/-- An idle runner at shutdown: its key if it is kept for the next manager, because its registration could
    not be removed. -/
def shutDownIdle (runner : RunnerRecord) : ScalerProg (Option String) := do
  if ← beginPendingRegistrationFence cfg runner .shutdown then
    if (← removeRunner runner.runnerID .shutdown) = .removed then
      resolvePendingRegistrationFence runner.key
      if ← stopAndRemove runner.containerID false then
        let _ ← settleStoppedRunner cfg runner.key
        return none
      else return none
    else return some runner.key
  else return some runner.key

def shutDownRemaining (preserved : List String) (runner : RunnerRecord) : ScalerProg Unit := do
  if runner.key ∈ preserved then return
  else if ← stopContainer runner.containerID then
    let _ ← settleStoppedRunner cfg runner.key
  else return

/-- `shutdown`, from the operation gate on. -/
def shutdown : ScalerProg Unit := do
  let idle ← ScalerProg.gets (·.idleRunners)
  let preserved ← runRunnerOperations (shutDownIdle cfg) idle
  let remaining ← ScalerProg.gets (·.records)
  let _ ← runRunnerOperations (shutDownRemaining cfg (preserved.filterMap id)) remaining

end

inductive Operation where
  | desiredRunnerCount (assignedJobs : Int)
  | jobStarted (runnerName : String) (runnerID : Int)
  | jobCompleted (runnerName : String) (runnerID : Int)
  | setMaximum (maximum : Int)
  | beginRetirement
  | reactivate (maximum : Int)
  | tick
  | containerExit (containerID : String)
  | logSignal (containerID : String) (signal : LogSignal)
  | shutdown
  deriving DecidableEq, Repr

def Operation.program (cfg : ScalerConfig) : Operation → ScalerProg Unit
  | .desiredRunnerCount assignedJobs => handleDesiredRunnerCount cfg assignedJobs
  | .jobStarted runnerName runnerID => handleJobStarted runnerName runnerID
  | .jobCompleted runnerName runnerID => handleJobCompleted runnerName runnerID
  | .setMaximum maximum => Autoscaler.setMaximum cfg maximum
  | .beginRetirement => Autoscaler.beginRetirement cfg
  | .reactivate maximum => Autoscaler.reactivate cfg maximum
  | .tick => Autoscaler.tick cfg
  | .containerExit containerID => handleContainerExit cfg containerID
  | .logSignal containerID signal => applyLogState containerID signal
  | .shutdown => Autoscaler.shutdown cfg

end PitCrew.Autoscaler
