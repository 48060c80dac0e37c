import PitCrew.Base.Prog
import PitCrew.Base.Map
import PitCrew.Base.Machine
import Mathlib.Data.String.Basic

/-! # Slot supervisors of the fixed manager

The shell manager with host admission enabled: `run_slot` (`manager/manage-runners.sh`), one process for
each slot, the functions of `manager/host-admission.sh` that it and the main loop call, and the ends of a
worker's monitoring (`manager/container-supervision.sh`). Every command that touches the coordinator,
Docker, the release queue or a drain marker is one step; what only writes logs, wait markers or observed
state is left out. `while` loops come with the number of rounds they may take.

A slot keeps its key for all its workers, so nothing in the source tells its leases apart, and an acquire of
a slot that has a lease succeeds with that lease. The model stamps each lease when the coordinator grants it
and whenever it hands it out, and each queue entry when it is written. -/

namespace PitCrew.Shell
open Base

/-- A lease of the profile, as the coordinator holds it. -/
structure SlotLease where
  granted : Nat
  acquired : Nat := granted
  active : Bool := false
  registrationName : String := ""
  deriving DecidableEq, Repr

inductive WorkerStatus where
  | created
  | running
  deriving DecidableEq, Repr

/-- A worker container; Docker removes it as soon as it exits. -/
structure Worker where
  slot : String
  name : String
  status : WorkerStatus
  lease : Option Nat := none
  deriving DecidableEq, Repr

structure Release where
  slot : String
  entry : Option Nat
  acquired : Option Nat
  running : Bool
  deriving DecidableEq, Repr

structure World where
  clock : Nat := 0
  leases : Map String SlotLease := ∅
  /-- The `.pending` files of the release directory, with the time each was written. -/
  queue : Map String Nat := ∅
  found : Option (String × Nat) := none
  workers : Map String Worker := ∅
  drain : Finset String := ∅
  /-- The `container-id` files of the slots. -/
  containerID : Map String String := ∅
  releases : List Release := []

namespace World

def runs (w : World) (slot : String) (lease : Nat) : Bool :=
  (sortedList w.workers.keys).any fun id =>
    (w.workers.lookup id).any fun c => c.slot = slot ∧ c.status = .running ∧ c.lease = some lease

def acquired (w : World) (slot : String) : Option Nat := (w.leases.lookup slot).map (·.acquired)

/-- The lease of the slot, told by its grant. -/
def granted (w : World) (slot : String) : Option Nat := (w.leases.lookup slot).map (·.granted)

def handOut (w : World) (slot : String) (lease : SlotLease) : World :=
  { w with clock := w.clock + 1, leases := w.leases.insert slot { lease with acquired := w.clock + 1 } }

def grant (w : World) (slot : String) (active : Bool) : World := w.handOut slot { granted := w.clock + 1, active }

def free (w : World) (slot : String) (entry : Option Nat) : World :=
  let release : Release :=
    { slot, entry, acquired := w.acquired slot, running := (w.granted slot).any (w.runs slot) }
  { w with leases := w.leases.erase slot, releases := release :: w.releases }

end World

structure Reply where
  outcome : Outcome := .done
  answer : Bool := true
  text : String := ""
  background : Bool := false

abbrev ShellProg := Prog World Reply

/-! ## Commands -/

/-- The exit status of the admission CLI: success, no such lease, or any other failure. -/
inductive CliStatus where
  | success
  | notFound
  | failed
  deriving DecidableEq, Repr

/-- A call of the admission CLI. A coordinator that cannot be reached does nothing, and one that is lost
    before it answers has done its part. -/
def cli (op : World → Reply → CliStatus × World) : ShellProg CliStatus :=
  Prog.atomic fun w c =>
    match c.outcome with
    | .done => op w c
    | .failed => (.failed, w)
    | .unsure => (.failed, (op w c).2)

/-- `acquire` grants a provisional lease, or succeeds with the one that the slot has, unless the coordinator
    withholds it. -/
def cliAcquire (slot : String) : ShellProg CliStatus :=
  cli fun w c =>
    if c.answer then
      match w.leases.lookup slot with
      | none => (.success, w.grant slot false)
      | some lease => (.success, w.handOut slot lease)
    else (.failed, w)

def cliBindRegistration (slot name : String) : ShellProg CliStatus :=
  cli fun w c =>
    match w.leases.lookup slot with
    | none => (.notFound, w)
    | some lease =>
      if c.answer then (.success, { w with leases := w.leases.insert slot { lease with registrationName := name } })
      else (.failed, w)

def cliActivate (slot : String) : ShellProg CliStatus :=
  cli fun w _ =>
    match w.leases.lookup slot with
    | none => (.notFound, w)
    | some lease => (.success, { w with leases := w.leases.insert slot { lease with active := true } })

/-- `adopt` activates the lease of the slot, or grants an active one if there is none. -/
def cliAdopt (slot : String) : ShellProg CliStatus :=
  cli fun w c =>
    if c.answer then
      match w.leases.lookup slot with
      | none => (.success, w.grant slot true)
      | some lease => (.success, w.handOut slot { lease with active := true })
    else (.failed, w)

/-- `release` frees a lease; `entry` is the queue entry it stems from. -/
def cliRelease (slot : String) (entry : Option Nat) : ShellProg CliStatus :=
  cli fun w _ =>
    match w.leases.lookup slot with
    | none => (.notFound, w)
    | some _ => (.success, w.free slot entry)

/-- `reconcile` frees a lease on the evidence that worker and registration are absent. -/
def cliReconcile (slot : String) : ShellProg CliStatus :=
  cli fun w _ =>
    match w.leases.lookup slot with
    | none => (.notFound, w)
    | some _ => (.success, { w with leases := w.leases.erase slot })

/-- `docker create`: the new container, if the command returns one. -/
def dockerCreate (slot name : String) : ShellProg (Option String) :=
  Prog.atomic fun w c =>
    if (w.workers.lookup c.text).isSome then (none, w)
    else
      let created := { w with workers := w.workers.insert c.text { slot, name, status := .created } }
      match c.outcome with
      | .done => (some c.text, created)
      | .failed => (none, w)
      | .unsure => (none, created)

/-- `docker start`: whether it reports success. -/
def dockerStart (id : String) : ShellProg Bool :=
  Prog.atomic fun w c =>
    match w.workers.lookup id with
    | none => (false, w)
    | some worker =>
      let started :=
        { w with
          workers := w.workers.insert id
            { worker with
              status := .running
              lease := if worker.status = .running then worker.lease else w.granted worker.slot } }
      match c.outcome with
      | .done => (true, started)
      | .failed => (false, w)
      | .unsure => (false, started)

/-- `docker rm --force`, whose status is ignored. -/
def dockerRemove (id : String) : ShellProg Unit :=
  Prog.atomic fun w c =>
    match c.outcome with
    | .failed => ((), w)
    | _ => ((), { w with workers := w.workers.erase id })

/-- `docker inspect`: whether the container is there and the command says so. -/
def dockerInspect (id : String) : ShellProg Bool :=
  Prog.atomic fun w c => (c.outcome = .done && (w.workers.lookup id).isSome, w)

inductive Probe where
  | running
  | gone
  | unknown
  deriving DecidableEq, Repr

def probeMonitoredContainer (id : String) : ShellProg Probe :=
  Prog.atomic fun w c =>
    if c.outcome ≠ .done then (.unknown, w)
    else if (w.workers.lookup id).any (·.status = .running) then (.running, w)
    else (.gone, w)

/-- `[ -f drain ]`. -/
def draining (slot : String) : ShellProg Bool := Prog.gets fun w => slot ∈ w.drain

def setContainerID (slot id : String) : ShellProg Unit :=
  Prog.modify fun w => { w with containerID := w.containerID.insert slot id }

def readContainerID (slot : String) : ShellProg (Option String) := Prog.gets fun w => w.containerID.lookup slot

def clearContainerID (slot : String) : ShellProg Unit :=
  Prog.modify fun w => { w with containerID := w.containerID.erase slot }

/-- `rm -f` of the slot's queue entry. -/
def removePending (slot : String) : ShellProg Unit := Prog.modify fun w => { w with queue := w.queue.erase slot }

/-! ## Host admission -/

def hostAdmissionAcquire (slot : String) : ShellProg Bool := do
  return (← cliAcquire slot) = .success

def hostAdmissionActivate (slot : String) : ShellProg Bool := do
  return (← cliActivate slot) = .success

def hostAdmissionAdopt (slot : String) : ShellProg Bool := do
  return (← cliAdopt slot) = .success

def hostAdmissionRelease (slot : String) : ShellProg Bool := do
  if (← cliRelease slot none) = .failed then return false
  else
    removePending slot
    return true

def hostAdmissionReconcileAbsent (slot : String) : ShellProg Unit := do
  let _ ← cliReconcile slot

/-- The entry replaces an earlier one of the slot; writing it may fail. -/
def hostAdmissionQueueRelease (slot : String) : ShellProg Unit :=
  Prog.atomic fun w c =>
    match c.outcome with
    | .failed => ((), w)
    | _ => ((), { w with queue := w.queue.insert slot w.clock })

def hostAdmissionReleaseOrQueue (slot : String) : ShellProg Unit := do
  if ← hostAdmissionRelease slot then return
  else hostAdmissionQueueRelease slot

/-- `[ -f "${pending_path}" ]`. -/
def World.find (w : World) (slot : String) : Option Nat × World :=
  match w.queue.lookup slot with
  | none => (none, w)
  | some entry => (some entry, { w with found := some (slot, entry) })

def findPending (slot : String) : ShellProg (Option Nat) := Prog.locally fun w => w.find slot

/-- The release that the main loop sends for an entry it has found. -/
def World.send (w : World) (slot : String) (entry : Nat) (outcome : Outcome) : CliStatus × World :=
  let freed : CliStatus × World :=
    match w.leases.lookup slot with
    | none => (.notFound, w)
    | some _ => (.success, w.free slot (some entry))
  match outcome with
  | .done => (freed.1, { freed.2 with found := none })
  | .failed => (.failed, { w with found := none })
  | .unsure => (.failed, { freed.2 with found := none })

def releaseFound (slot : String) (entry : Nat) : ShellProg CliStatus :=
  Prog.atomic fun w c => w.send slot entry c.outcome

/-- The body of `host_admission_retry_releases` for the slots that the pattern has matched. -/
def retryReleases : List String → ShellProg Unit
  | [] => return
  | slot :: slots => do
    match ← findPending slot with
    | none => retryReleases slots
    | some entry =>
      if (← releaseFound slot entry) = .failed then retryReleases slots
      else
        removePending slot
        retryReleases slots

def hostAdmissionRetryReleases : ShellProg Unit := do
  retryReleases (← Prog.gets fun w => sortedList w.queue.keys)

/-! ## Supervisors -/

def finalizeStoppedContainerSlot (slot : String) : ShellProg Unit := do
  hostAdmissionQueueRelease slot
  clearContainerID slot

/-- `monitor_runner_container`: probes the container until it is gone. -/
def monitorRunnerContainer (slot id : String) : Nat → ShellProg Unit
  | 0 => return
  | rounds + 1 => do
    match ← probeMonitoredContainer id with
    | .gone => finalizeStoppedContainerSlot slot
    | _ => monitorRunnerContainer slot id rounds

/-- `while ! host_admission_release`. -/
def releaseLoop (slot : String) : Nat → ShellProg Unit
  | 0 => return
  | rounds + 1 => do
    if ← hostAdmissionRelease slot then return
    else
      hostAdmissionQueueRelease slot
      if ← draining slot then return else releaseLoop slot rounds

/-- From the created container on; both failures release here and once more where all failed launches do. -/
def launchCreated (slot id : String) (rounds : Nat) : ShellProg Unit := do
  if ← hostAdmissionActivate slot then
    if ← dockerStart id then
      setContainerID slot id
      monitorRunnerContainer slot id rounds
      releaseLoop slot rounds
    else
      dockerRemove id
      hostAdmissionReleaseOrQueue slot
      hostAdmissionReleaseOrQueue slot
  else
    dockerRemove id
    hostAdmissionReleaseOrQueue slot
    hostAdmissionReleaseOrQueue slot

def launch (slot : String) (rounds : Nat) : ShellProg Unit := do
  let name ← Prog.atomic fun w c => (c.text, w)
  if (← cliBindRegistration slot name) = .success then
    match ← dockerCreate slot name with
    | some id => launchCreated slot id rounds
    | none => hostAdmissionReleaseOrQueue slot
  else hostAdmissionReleaseOrQueue slot

/-- The loop of `run_slot`. -/
def runSlotLoop (slot : String) : Nat → ShellProg Unit
  | 0 => return
  | rounds + 1 => do
    if ← draining slot then return
    else if ← hostAdmissionAcquire slot then
      if ← draining slot then hostAdmissionReleaseOrQueue slot
      else
        launch slot rounds
        runSlotLoop slot rounds
    else runSlotLoop slot rounds

/-- A recovered container that was never started: whether it runs now. -/
def adoptCreated (slot id name : String) : Nat → ShellProg Bool
  | 0 => return false
  | rounds + 1 => do
    if ← draining slot then return false
    else if ← dockerInspect id then
      let binding ← cliBindRegistration slot name
      if binding = .success then
        if ← hostAdmissionAdopt slot then
          if (← cliBindRegistration slot name) = .success then
            if ← dockerStart id then return true
            else
              dockerRemove id
              hostAdmissionReleaseOrQueue slot
              return false
          else adoptCreated slot id name rounds
        else adoptCreated slot id name rounds
      else if binding = .notFound then
        dockerRemove id
        hostAdmissionReconcileAbsent slot
        return false
      else adoptCreated slot id name rounds
    else return false

/-- `host_admission_adopt_running`. -/
def adoptRunning (slot id name : String) : Nat → ShellProg Unit
  | 0 => return
  | rounds + 1 => do
    match ← probeMonitoredContainer id with
    | .running =>
      let binding ← cliBindRegistration slot name
      if binding = .success then
        if ← hostAdmissionAdopt slot then return else adoptRunning slot id name rounds
      else if binding = .notFound then
        if ← hostAdmissionAdopt slot then
          if (← cliBindRegistration slot name) = .success then return else adoptRunning slot id name rounds
        else adoptRunning slot id name rounds
      else adoptRunning slot id name rounds
    | _ => return

def superviseRecovered (slot id name : String) (status : WorkerStatus) (rounds : Nat) : ShellProg Unit := do
  setContainerID slot id
  if ← dockerInspect id then
    match status with
    | .running =>
      -- the adoption runs in the background, and is waited for before the release
      let _ ← Prog.par (·.background) (adoptRunning slot id name rounds) (monitorRunnerContainer slot id rounds)
      releaseLoop slot rounds
    | .created =>
      if ← adoptCreated slot id name rounds then
        monitorRunnerContainer slot id rounds
        releaseLoop slot rounds
      else
        dockerRemove id
        hostAdmissionReconcileAbsent slot
  else return

/-- `run_slot` of a slot without a recovered container. -/
def runSlot (slot : String) (rounds : Nat) : ShellProg Unit := runSlotLoop slot rounds

/-- `run_slot` of a slot with one. -/
def runRecoveredSlot (slot id name : String) (status : WorkerStatus) (rounds : Nat) : ShellProg Unit := do
  superviseRecovered slot id name status rounds
  if ← draining slot then return else runSlotLoop slot rounds

/-! ## The main loop -/

/-- `reconcile_stalled_container_monitor`, from the stale heartbeat on. Whether the monitor settles by
    itself is the outside's; a supervisor that is killed afterwards is an event of its own. -/
def reconcileStalledContainerMonitor (slot : String) : ShellProg Unit := do
  match ← readContainerID slot with
  | none => return
  | some id =>
    match ← probeMonitoredContainer id with
    | .gone =>
      if (← readContainerID slot) = some id then
        let settled ← Prog.atomic fun w c => (c.answer, w)
        if settled then return
        else if (← readContainerID slot) = some id then finalizeStoppedContainerSlot slot
        else return
      else return
    | _ => return

/-- What the main loop does of the modelled state, one thing after the other. -/
inductive Pass where
  | retryReleases
  | reconcileStalled (slot : String)
  | reconcileOrphaned (slot : String)
  | drain (slot : String)
  | undrain (slot : String)
  deriving DecidableEq, Repr

def Pass.program : Pass → ShellProg Unit
  | .retryReleases => hostAdmissionRetryReleases
  | .reconcileStalled slot => reconcileStalledContainerMonitor slot
  | .reconcileOrphaned slot => hostAdmissionReconcileAbsent slot
  | .drain slot => Prog.modify fun w => { w with drain := insert slot w.drain }
  | .undrain slot => Prog.modify fun w => { w with drain := w.drain.erase slot }

/-! ## Runs -/

structure System where
  world : World
  main : ShellProg Unit
  supervisors : List (ShellProg Unit)

inductive Event where
  /-- `start_slot`. -/
  | start (slot : String) (rounds : Nat)
  /-- `start_recovered_slot`. -/
  | recover (slot id name : String) (status : WorkerStatus) (rounds : Nat)
  | pass (p : Pass)
  | main (reply : Reply)
  | supervisor (index : Nat) (reply : Reply)
  | kill (index : Nat)
  | exit (id : String)
  | expire (slot : String)
  | restart

def System.step (s : System) : Event → System × Unit
  | .start slot rounds =>
    -- the directory of the slot is made anew
    let world := { s.world with drain := s.world.drain.erase slot, containerID := s.world.containerID.erase slot }
    ({ s with world, supervisors := s.supervisors ++ [runSlot slot rounds] }, ())
  | .recover slot id name status rounds =>
    ({ s with supervisors := s.supervisors ++ [runRecoveredSlot slot id name status rounds] }, ())
  | .pass p =>
    match s.main with
    | .done _ => ({ s with main := p.program }, ())
    | .step _ _ => (s, ())
  | .main reply =>
    let next := s.main.advance s.world reply
    ({ s with world := next.1, main := next.2 }, ())
  | .supervisor index reply =>
    match s.supervisors[index]? with
    | none => (s, ())
    | some p =>
      let next := p.advance s.world reply
      ({ s with world := next.1, supervisors := s.supervisors.set index next.2 }, ())
  | .kill index => ({ s with supervisors := s.supervisors.eraseIdx index }, ())
  | .exit id => ({ s with world := { s.world with workers := s.world.workers.erase id } }, ())
  | .expire slot =>
    match s.world.leases.lookup slot with
    | some { active := false, .. } =>
      ({ s with world := { s.world with leases := s.world.leases.erase slot } }, ())
    | _ => (s, ())
  | .restart =>
    ({ world := { s.world with found := none, drain := ∅, containerID := ∅ }, main := pure (), supervisors := [] }, ())

def System.initial : System := { world := {}, main := pure (), supervisors := [] }

abbrev System.run (events : List Event) : System := exec System.step .initial events

end PitCrew.Shell
