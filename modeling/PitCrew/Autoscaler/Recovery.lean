import PitCrew.Autoscaler.Reconcile
import PitCrew.Base.Machine

/-! # Recovery and runs of a target

How a manager process takes over the containers that it finds (`recover` and what it calls in
`manager/autoscaler/scaler.go`, `startTargetController` in `controller.go`), and the runs of one target. A
process lists the containers once. Each attempt to start the target's controller makes a new scaler from the
ledgers and recovers the containers of that list; this does not go through the operation gate, and the
monitors of the runners already recovered may have an operation run meanwhile. What a failed attempt left
running goes on beside the next one. -/

namespace PitCrew.Autoscaler
open Base

/-- A container that the manager has found, as it was then. -/
structure RecoveredContainer where
  containerID : String
  container : Container
  deriving DecidableEq, Repr

section
variable (cfg : ScalerConfig)

/-! ## Recovery -/

namespace RecoveredContainer
variable (found : RecoveredContainer)

def unstarted : Bool := !found.container.running

def runner : RunnerRecord where
  key := found.container.slotKey
  runnerName := found.container.runnerName
  runnerID := found.container.runnerID
  containerID := found.containerID
  container := found.container.name

/-- `discardUnstartedContainer`; an empty key stands for no lease. -/
def discard (hostSlotKey : String) : ScalerProg Bool := do
  let removed ← removeRegistrationOrEnqueue cfg found.runner
  let stopped ← stopAndRemove found.containerID true
  let released ← releaseHostLeaseOrEnqueue cfg found.container.slotKey hostSlotKey
  return removed && stopped && released

/-- The runner of the container, with the fence that is pending for it. A fence whose time cannot be read is
    refused when the ledger is loaded. -/
def recoveredRunner (s : Scaler) (hostSlotKey : String) (adopted : Bool) (now : Int) : RunnerRecord :=
  { found.runner with
    containerRunning := true
    containerConfirmedAt := now
    stale := found.container.revision ≠ cfg.workerRevision && !(found.container.revision = "" && cfg.assumeUnversioned)
    startedAt := found.container.createdAt
    recovered := true
    isProtected := true
    hostSlotKey
    hostLeaseAdopted := adopted
    fenceRetryAt := (s.pendingFences.lookup found.container.slotKey).bind fun record =>
      cfg.rfc.parse record.nextAttemptAt }

/-- The lifecycle state that the log shows. It is applied as an operation is; if the gate is taken, the
    operation of its own that applies it comes later. -/
def replayLogs : ScalerProg Unit :=
  Prog.atomic fun w c =>
    match c.signal with
    | none => ((), w)
    | some signal =>
      if w.operating then ((), w) else ((), w.update fun s => s.applyLogState found.containerID signal c.now)

def insert (hostSlotKey : String) (replay adopted : Bool) : ScalerProg Bool := do
  let inserted ← Prog.atomic fun w c =>
    let runner := found.recoveredRunner cfg w.scaler hostSlotKey adopted c.now
    if (w.scaler.runners.lookup runner.key).isSome then (false, w)
    else
      (true, w.update fun s => { s with runners := s.runners.insert runner.key runner })
  if inserted then
    if replay then
      found.replayLogs
      return true
    else return true
  else return false

/-- The history keeps what recovery learns about the lease of a created container. -/
def noteLease (ok : Bool) : ScalerProg Unit := Prog.modify fun w => w.log (.confirm found.containerID ok)

def confirm (call : ScalerProg Bool) : ScalerProg Bool := do
  let ok ← call
  found.noteLease ok
  return ok

def bind (hostSlotKey : String) : ScalerProg Bool := do
  return (← HostAdmission.bindRegistration hostSlotKey found.container.runnerName) = .ok

def start (adopted : Bool) : ScalerProg Bool := do
  if ← startContainer found.containerID then found.insert cfg found.container.hostSlotKey false adopted
  else found.discard cfg found.container.hostSlotKey

def recoverCreated : ScalerProg Bool := do
  if ← HostAdmission.enabled then
    let key := found.container.hostSlotKey
    if key = "" then
      found.noteLease false
      found.discard cfg ""
    else if ← found.confirm (found.bind key) then
      if ← found.confirm (HostAdmission.adopt key) then
        if ← found.confirm (found.bind key) then found.start cfg true
        else found.discard cfg key
      else found.discard cfg key
    else found.discard cfg key
  else found.start cfg false

/-- The lease of a running container: whether it is confirmed. -/
def confirmLease (key : String) : ScalerProg Bool := do
  match ← HostAdmission.bindRegistration key found.container.runnerName with
  | .ok => HostAdmission.adopt key
  | .failed => return false
  | .notFound => if ← HostAdmission.adopt key then found.bind key else return false

def recoverRunning : ScalerProg Bool := do
  if ← HostAdmission.enabled then
    -- a container from before host admission has no key of its own
    let key := if found.container.hostSlotKey = "" then found.container.runnerName else found.container.hostSlotKey
    let adopted ← found.confirmLease key
    found.insert cfg key true adopted
  else found.insert cfg found.container.hostSlotKey true false

def recover : ScalerProg Bool :=
  if found.container.targetKey ≠ cfg.targetKey then return false
  else if found.unstarted then found.recoverCreated cfg
  else found.recoverRunning cfg

end RecoveredContainer

/-- The loop of `startTargetController`, which ends with the first container that cannot be recovered. -/
def recoverAll : List RecoveredContainer → ScalerProg Bool
  | [] => return true
  | found :: rest => do
    if ← found.recover cfg then recoverAll rest else return false

/-! ## Runs -/

structure Loads where
  cleanups : Bool := true
  fences : Bool := true
  intent : Bool := true
  releases : Bool := true
  deriving DecidableEq, Repr

def newRunnerScaler (w : ScalerWorld) (hostAdmission : Bool) (maximum : Int) (loads : Loads) : Scaler where
  hostAdmission := hostAdmission
  maximum := maximum
  targetSlots := calculateTarget maximum cfg.minimumIdle 0
  pendingRegistrations := if loads.cleanups then w.cleanupFile else ∅
  cleanupStateError := !loads.cleanups
  pendingFences := if loads.fences then w.fenceFile else ∅
  fenceStateError := !loads.fences
  pendingLaunchIntent := if loads.intent then w.intentFile else none
  launchIntentStateError := !loads.intent
  pendingHostLeaseReleases := if loads.releases then w.releaseFile else ∅

end

structure ScalerSystem where
  world : ScalerWorld := {}
  settings : Settings := {}
  snapshot : List RecoveredContainer := []
  revived : Finset String := ∅
  recovery : ScalerProg Bool := pure false
  operation : ScalerProg Unit := pure ()
  older : List (Scaler × ScalerProg Unit) := []
  live : Bool := false

inductive ScalerEvent where
  | restart (settings : Settings)
  | attempt (maximum : Int) (loads : Loads)
  | listen
  | recovery (reply : ScalerReply)
  | begin (operation : Operation)
  | operation (reply : ScalerReply)
  | older (index : Nat) (reply : ScalerReply)
  | announceShutdown
  | exit (containerID : String)
  | deregister (runnerID : Int)
  | expire (key : String)
  /-- `confirmContainerRunning`. -/
  | confirmRunning (containerID : String) (now : Int)
  /-- `RecordStatistics`. -/
  | statistics (assignedJobs : Int)

/-- An operation may begin: the listener and the ticks come with the controller, monitors come with runners. -/
def ScalerSystem.admits (s : ScalerSystem) : Operation → Bool
  | .containerExit containerID => !s.world.isRunning containerID
  | .logSignal _ _ => true
  | .shutdown => s.live && s.world.scaler.shuttingDown
  | _ => s.live

/-- Until a process has a scaler, its ledgers stand as they were written. -/
def ScalerWorld.unloaded (w : ScalerWorld) : Scaler where
  pendingRegistrations := w.cleanupFile
  pendingFences := w.fenceFile
  pendingLaunchIntent := w.intentFile
  pendingHostLeaseReleases := w.releaseFile

/-- What an operation finds: the gate is taken, and an exit has been observed before. -/
def ScalerWorld.enter (w : ScalerWorld) (op : Operation) : ScalerWorld :=
  let entered : ScalerWorld := { w with operating := true }
  match op with
  | .containerExit containerID => entered.log (.exited containerID)
  | _ => entered

def Call.started : Call → Option String
  | .start containerID true => some containerID
  | _ => none

/-- The containers started with success so far, after one step more. -/
def noteStart (started : Finset String) (w w' : ScalerWorld) : Finset String :=
  match (w.newCall w').bind Call.started with
  | some containerID => insert containerID started
  | none => started

def ScalerSystem.step (cfg : ScalerConfig) (s : ScalerSystem) : ScalerEvent → ScalerSystem × Unit
  | .restart settings =>
    ({ world :=
        { s.world with
          scaler := s.world.unloaded
          operating := false
          demand := 0 }
       settings
       snapshot := (s.world.containers.entriesIn .sorted).map fun e => ⟨e.1, e.2⟩ }, ())
  | .attempt maximum loads =>
    if s.recovery.ended && (!s.live || (s.world.scaler.shuttingDown && s.operation.ended)) then
      let cfg := cfg.set s.settings
      ({ s with
         world :=
          { s.world with
            scaler := newRunnerScaler cfg s.world s.settings.hostAdmission maximum loads
            operating := false }
         recovery := recoverAll cfg s.snapshot
         operation := pure ()
         older := if s.operation.ended then s.older else (s.world.scaler, s.operation) :: s.older
         live := false }, ())
    else (s, ())
  | .listen =>
    match s.recovery with
    | .done true => ({ s with snapshot := [], live := true }, ())
    | _ => (s, ())
  | .recovery reply =>
    let next := s.recovery.advance s.world reply
    ({ s with world := next.1, recovery := next.2, revived := noteStart s.revived s.world next.1 }, ())
  | .begin op =>
    if s.operation.ended && s.admits op then
      ({ s with world := s.world.enter op, operation := op.program (cfg.set s.settings) }, ())
    else (s, ())
  | .operation reply =>
    let next := s.operation.advance s.world reply
    ({ s with world := { next.1 with operating := !next.2.ended }, operation := next.2 }, ())
  | .older index reply =>
    match s.older[index]? with
    | none => (s, ())
    | some (scaler, operation) =>
      let next := operation.advance { s.world with scaler } reply
      ({ s with
         world := { next.1 with scaler := s.world.scaler }
         older := s.older.set index (next.1.scaler, next.2) }, ())
  | .announceShutdown =>
    ({ s with world := s.world.update fun s => { s with shuttingDown := true, scaleDownAt := none } }, ())
  | .exit containerID =>
    match s.world.containers.lookup containerID with
    | some { running := true, .. } =>
      ({ s with world := { s.world with containers := s.world.containers.erase containerID } }, ())
    | _ => (s, ())
  | .deregister runnerID =>
    ({ s with world := { s.world with registrations := s.world.registrations.erase runnerID } }, ())
  | .expire key => ({ s with world := { s.world with leases := s.world.leases.erase key } }, ())
  | .confirmRunning containerID now =>
    ({ s with world := s.world.update fun s =>
        match s.findRunnerByContainer containerID with
        | none => s
        | some runner =>
          s.updateRunner runner.key fun r => { r with containerRunning := true, containerConfirmedAt := now } }, ())
  | .statistics assignedJobs => ({ s with world := s.world.update fun s => { s with assignedJobs } }, ())

abbrev ScalerSystem.run (cfg : ScalerConfig) (events : List ScalerEvent) : ScalerSystem :=
  exec (ScalerSystem.step cfg) {} events

end PitCrew.Autoscaler
