import PitCrew.Autoscaler.Desired
import PitCrew.Autoscaler.Ledgers
import PitCrew.Base.Prog
import PitCrew.Base.Map

/-! # Runner scalers and what they call

The state of a `runnerScaler` (`manager/autoscaler/scaler.go`) and the calls by which it reaches GitHub, Docker,
the host admission coordinator and its ledgers on disk. A section under the scaler's mutex is one step, and
so is a call; a call may fail before or after it took effect. Names and identifiers are what the outside
answers; that one answer repeats another is not ruled out. The world also keeps a history that no program reads:
the runners of the containers there have been, and some of the calls made so far. What the scaler only publishes
(blocking reasons, diagnostics, job contexts) is left out. -/

namespace PitCrew.Autoscaler
open Base

/-! ## State -/

inductive RunnerState where
  | starting
  | idle
  | busy
  | draining
  | cleanupPending
  deriving DecidableEq, Repr

structure RunnerRecord where
  key : String
  runnerName : String
  runnerID : Int
  containerID : String
  container : String := ""
  containerRunning : Bool := false
  containerConfirmedAt : Int := 0
  state : RunnerState := .starting
  startedAt : Int := 0
  idleSince : Option Int := none
  completedAt : Option Int := none
  stale : Bool := false
  fenceRetryAt : Option Int := none
  recovered : Bool := false
  isProtected : Bool := false
  registrationRemoved : Bool := false
  hostSlotKey : String := ""
  hostLeaseReleased : Bool := false
  hostLeaseAdopted : Bool := false
  deriving DecidableEq, Repr

/-- The fields of the configuration that a scaler reads, and the library functions it calls. -/
structure ScalerConfig where
  pkg : Packages
  rfc : Rfc3339
  deterministicRetryJitter : String → Int → Int
  targetKey : String
  profileID : String
  namePrefix : String
  workerRevision : String := ""
  assumeUnversioned : Bool := false
  minimumIdle : Int := 0
  scaleDownDelay : Int := 0

/-- What may be configured in another way when the manager starts again. -/
structure Settings where
  hostAdmission : Bool := true
  workerRevision : String := ""
  assumeUnversioned : Bool := false
  minimumIdle : Int := 0
  scaleDownDelay : Int := 0
  deriving DecidableEq, Repr

def ScalerConfig.set (cfg : ScalerConfig) (settings : Settings) : ScalerConfig :=
  { cfg with
    workerRevision := settings.workerRevision
    assumeUnversioned := settings.assumeUnversioned
    minimumIdle := settings.minimumIdle
    scaleDownDelay := settings.scaleDownDelay }

/-- A call of `reconcileLocked`: the one under way, or else the last one. -/
structure Reconciliation where
  targetSlots : Int := 0
  capacity : Int := 0
  pendingRegistrations : Int := 0
  /-- Its calls of `startRunner`. -/
  starts : Nat := 0
  deriving DecidableEq, Repr

/-- A runner that drains because it is to be removed. -/
structure Fence where
  purpose : FencePurpose
  key : String
  runnerID : Int
  deriving DecidableEq, Repr

structure Scaler where
  hostAdmission : Bool := false
  maximum : Int := 0
  targetSlots : Int := 0
  assignedJobs : Int := 0
  scaleDownAt : Option Int := none
  shuttingDown : Bool := false
  retiring : Bool := false
  runners : Map String RunnerRecord := ∅
  pendingRegistrations : Map String RegistrationCleanupRecord := ∅
  cleanupStateError : Bool := false
  pendingFences : Map String RegistrationFenceRecord := ∅
  fenceStateError : Bool := false
  pendingLaunchIntent : Option LaunchIntentRecord := none
  launchIntentStateError : Bool := false
  pendingHostLeaseReleases : Map String HostLeaseCleanupRecord := ∅
  launchFailures : Int := 0
  launchRetryAt : Option Int := none
  exitFailures : Int := 0
  exitRetryAt : Option Int := none
  reconciliation : Reconciliation := {}
  fencing : Option Fence := none

/-- A worker container; Docker removes it when it exits. -/
structure Container where
  name : String
  slotKey : String
  targetKey : String
  runnerName : String
  runnerID : Int
  revision : String := ""
  hostSlotKey : String := ""
  createdAt : Int := 0
  running : Bool := false
  deriving DecidableEq, Repr

structure HostLease where
  active : Bool := false
  registrationName : String := ""
  deriving DecidableEq, Repr

inductive RemovalCause where
  | fence
  | shutdown
  | cleanup
  | retry
  | intent
  | launch
  deriving DecidableEq, Repr

/-- What became of a removal; `registrationRemovalError` counts a runner that is not found as removed. -/
inductive Removal where
  | removed
  | jobStillRunning
  | failed
  deriving DecidableEq, Repr

/-- The calls that the history keeps. -/
inductive Call where
  | removeRunner (id : Int) (cause : RemovalCause) (answer : Removal)
  /-- `abandoned`: the container of a launch or a recovery that is given up. -/
  | stopAndRemove (container : String) (abandoned : Bool) (ok : Bool)
  | start (container : String) (ok : Bool)
  | confirm (container : String) (ok : Bool)
  | exited (container : String)
  deriving DecidableEq, Repr

structure ScalerWorld where
  registrations : Map Int String := ∅
  containers : Map String Container := ∅
  leases : Map String HostLease := ∅
  demand : Int := 0
  cleanupFile : Map String RegistrationCleanupRecord := ∅
  fenceFile : Map String RegistrationFenceRecord := ∅
  intentFile : Option LaunchIntentRecord := none
  releaseFile : Map String HostLeaseCleanupRecord := ∅
  scaler : Scaler := {}
  operating : Bool := false
  created : Map String Int := ∅
  trace : List Call := []

namespace ScalerWorld

def log (w : ScalerWorld) (call : Call) : ScalerWorld := { w with trace := call :: w.trace }

/-- The call that a step from one world to the other has made, of those that the history keeps. -/
def newCall (w w' : ScalerWorld) : Option Call :=
  match w'.trace with
  | [] => none
  | call :: calls => if calls = w.trace then some call else none

def update (w : ScalerWorld) (f : Scaler → Scaler) : ScalerWorld := { w with scaler := f w.scaler }

def registered (w : ScalerWorld) (name : String) : Option Int :=
  (sortedList w.registrations.keys).find? fun id => w.registrations.lookup id = some name

def isRunning (w : ScalerWorld) (id : String) : Bool := (w.containers.lookup id).any (·.running)

end ScalerWorld

inductive LogSignal where
  | idle
  | busy
  | draining
  deriving DecidableEq, Repr

def LogSignal.state : LogSignal → RunnerState
  | .idle => .idle
  | .busy => .busy
  | .draining => .draining

structure ScalerReply where
  outcome : Outcome := .done
  now : Int := 0
  text : String := ""
  runnerID : Int := 0
  runnerName : String := ""
  jobRunning : Bool := false
  granted : Nat := 0
  clean : Bool := true
  signal : Option LogSignal := none
  branch : Nat := 0

abbrev ScalerProg := Prog ScalerWorld ScalerReply

namespace ScalerProg

def gets {α : Type} (f : Scaler → α) : ScalerProg α := Prog.gets fun w => f w.scaler

def modify (f : Scaler → Scaler) : ScalerProg Unit := Prog.modify fun w => w.update f

def now : ScalerProg Int := Prog.atomic fun w c => (c.now, w)

end ScalerProg

/-! ## GitHub -/

def removeRunner (id : Int) (cause : RemovalCause) : ScalerProg Removal :=
  Prog.atomic fun w c =>
    let w := w.update fun s => { s with fencing := if cause = .fence then none else s.fencing }
    let gone : ScalerWorld := { w with registrations := w.registrations.erase id }
    match c.outcome with
    | .done =>
      if c.jobRunning = true ∧ (w.registrations.lookup id).isSome = true then
        (.jobStillRunning, w.log (.removeRunner id cause .jobStillRunning))
      else (.removed, gone.log (.removeRunner id cause .removed))
    | .failed => (.failed, w.log (.removeRunner id cause .failed))
    | .unsure => (.failed, gone.log (.removeRunner id cause .failed))

/-- `findRunnerByName`: nothing if the call fails, and otherwise the registration if there is one. -/
def findRunnerByName (name : String) : ScalerProg (Option (Option Int)) :=
  Prog.atomic fun w c => (if c.outcome = .done then some (w.registered name) else none, w)

/-- `generateJIT`: identifier and name of the new registration, as GitHub answers them. An answer without them
    is refused; GitHub gives out no negative identifier. -/
def generateJIT : ScalerProg (Option (Int × String)) :=
  Prog.atomic fun w c =>
    if c.runnerID < 1 ∨ c.runnerName = "" then (none, w)
    else
      let made : ScalerWorld := { w with registrations := w.registrations.insert c.runnerID c.runnerName }
      match c.outcome with
      | .done => (some (c.runnerID, c.runnerName), made)
      | .failed => (none, w)
      | .unsure => (none, made)

/-! ## Docker -/

/-- `create` and `run`: the identifier of the new container, which Docker never leaves empty. -/
def launchContainer (container : Container) : ScalerProg (Option String) :=
  Prog.atomic fun w c =>
    if c.text = "" then (none, w)
    else
      let made : ScalerWorld :=
        { w with
          containers := w.containers.insert c.text container
          created := w.created.insert c.text container.runnerID }
      match c.outcome with
      | .done => (some c.text, made)
      | .failed => (none, w)
      | .unsure => (none, made)

def startContainer (id : String) : ScalerProg Bool :=
  Prog.atomic fun w c =>
    match w.containers.lookup id with
    | none => (false, w.log (.start id false))
    | some container =>
      let started : ScalerWorld := { w with containers := w.containers.insert id { container with running := true } }
      match c.outcome with
      | .done => (true, started.log (.start id true))
      | .failed => (false, w.log (.start id false))
      | .unsure => (false, started.log (.start id false))

/-- `stopAndRemove`, which succeeds on a container that is already gone. -/
def stopAndRemove (id : String) (abandoned : Bool) : ScalerProg Bool :=
  Prog.atomic fun w c =>
    let gone : ScalerWorld := { w with containers := w.containers.erase id }
    match c.outcome with
    | .done => (true, gone.log (.stopAndRemove id abandoned true))
    | .failed => (false, w.log (.stopAndRemove id abandoned false))
    | .unsure => (false, gone.log (.stopAndRemove id abandoned false))

/-- `stop`, which shutdown uses on the workers that are left. -/
def stopContainer (id : String) : ScalerProg Bool :=
  Prog.atomic fun w c =>
    match w.containers.lookup id with
    | none => (false, w)
    | some _ =>
      let gone : ScalerWorld := { w with containers := w.containers.erase id }
      match c.outcome with
      | .done => (true, gone)
      | .failed => (false, w)
      | .unsure => (false, gone)

/-- `isRunning`: nothing if the call fails. -/
def probeContainer (id : String) : ScalerProg (Option Bool) :=
  Prog.atomic fun w c =>
    if c.outcome = .done then
      if w.isRunning id then (some true, w) else (some false, w.log (.exited id))
    else (none, w)

/-! ## Ledger files -/

def saveFile (write : ScalerWorld → ScalerWorld) : ScalerProg Bool :=
  Prog.atomic fun w c =>
    match c.outcome with
    | .done => (true, write w)
    | .failed => (false, w)
    | .unsure => (false, write w)

/-! ## Host admission

Without host admission none of these is called, `setTargetDemand` and `release` apart. -/

namespace HostAdmission

inductive LeaseAnswer where
  | ok
  | notFound
  | failed
  deriving DecidableEq, Repr

def enabled : ScalerProg Bool := ScalerProg.gets (·.hostAdmission)

/-- `setTargetDemand`; that its publication may fail changes nothing here. -/
def setTargetDemand (pending : Int) : ScalerProg Unit :=
  Prog.modify fun w => if w.scaler.hostAdmission then { w with demand := max pending 0 } else w

/-- `acquire`: a provisional lease, and one pending worker less. A refusal is a failure like any other. -/
def acquire (key : String) : ScalerProg Bool :=
  Prog.atomic fun w c =>
    let granted : ScalerWorld :=
      { w with leases := if (w.leases.lookup key).isSome = true then w.leases else w.leases.insert key {} }
    match c.outcome with
    | .done => (true, { granted with demand := max (w.demand - 1) 0 })
    | .failed => (false, w)
    | .unsure => (false, granted)

def bindRegistration (key name : String) : ScalerProg LeaseAnswer :=
  Prog.atomic fun w c =>
    match w.leases.lookup key with
    | none => (if c.outcome = .done then .notFound else .failed, w)
    | some lease =>
      let bound : ScalerWorld := { w with leases := w.leases.insert key { lease with registrationName := name } }
      match c.outcome with
      | .done => (.ok, bound)
      | .failed => (.failed, w)
      | .unsure => (.failed, bound)

def renew (key : String) : ScalerProg Bool :=
  Prog.atomic fun w c => (c.outcome = .done && (w.leases.lookup key).isSome, w)

def activate (key : String) : ScalerProg Bool :=
  Prog.atomic fun w c =>
    match w.leases.lookup key with
    | none => (false, w)
    | some lease =>
      let active : ScalerWorld := { w with leases := w.leases.insert key { lease with active := true } }
      match c.outcome with
      | .done => (true, active)
      | .failed => (false, w)
      | .unsure => (false, active)

/-- The lease is active, whether it was there before or not. -/
def adopted (w : ScalerWorld) (key : String) : Map String HostLease :=
  w.leases.insert key { (w.leases.lookup key).getD {} with active := true }

/-- `adopt`, for a container that recovery has in hand. -/
def adopt (key : String) : ScalerProg Bool :=
  Prog.atomic fun w c =>
    let active : ScalerWorld := { w with leases := adopted w key }
    match c.outcome with
    | .done => (true, active)
    | .failed => (false, w)
    | .unsure => (false, active)

/-- The check of `adoptIf` by which a retry adopts the lease of a runner: it is tracked, and waits for it. -/
def awaitsAdoption (s : Scaler) (candidate : RunnerRecord) : Bool :=
  (s.runners.lookup candidate.key).any fun runner =>
    runner.hostSlotKey = candidate.hostSlotKey && !runner.hostLeaseReleased && !runner.hostLeaseAdopted

/-- `adoptIf`, whose check and call share a lock: nothing if it is not attempted, and else whether it
    succeeds. -/
def adoptIf (candidate : RunnerRecord) : ScalerProg (Option Bool) :=
  Prog.atomic fun w c =>
    if awaitsAdoption w.scaler candidate then
      let active : ScalerWorld := { w with leases := adopted w candidate.hostSlotKey }
      match c.outcome with
      | .done => (some true, active)
      | .failed => (some false, w)
      | .unsure => (some false, active)
    else (none, w)

/-- `release`, which counts a lease that is not found as released and does nothing without host admission. -/
def release (key : String) : ScalerProg Bool :=
  Prog.atomic fun w c =>
    let freed : ScalerWorld := { w with leases := w.leases.erase key }
    if w.scaler.hostAdmission then
      match c.outcome with
      | .done => (true, freed)
      | .failed => (false, w)
      | .unsure => (false, freed)
    else (true, w)

end HostAdmission
end PitCrew.Autoscaler
