import PitCrew.Autoscaler.Desired
import PitCrew.Autoscaler.Retry
import PitCrew.Base.Prog
import PitCrew.Base.Machine

/-! # Desired state and retirement

How the manager accepts a desired-capacity document, retires the targets that the document drops and
acknowledges what it has applied (`manager/autoscaler/retirement.go`, and in `manager.go` the functions from
`restoreLastValid` to `currentConfigurationCoherent`). The state files are the durable part of a world; the
manager's memory is gone when its process stops. A program of the manager takes one step for each call that
leaves the process, such as writing a file or asking GitHub for a scale set. A world also carries notes of
what was done, which no program reads. -/

namespace PitCrew.Autoscaler
open Base

structure RetirementRecord where
  key : String
  registrationURL : String
  repository : String := ""
  maximum : Int
  scaleSetName : String
  retireAtGeneration : Int
  startupAttempts : Int := 0
  startupRetryAt : String := ""
  deriving DecidableEq, Repr

structure RetirementDocument where
  schemaVersion : Int
  managerContractVersion : Int
  generation : Int
  targets : List RetirementRecord
  deriving DecidableEq, Repr

def retirementDocumentContractVersion : Int := 8
def managerContractVersion : Int := 22

inductive RetirementFault where
  | schemaVersion (got : Int)
  | managerContractVersion (got : Int)
  | negativeGeneration
  | incomplete (index : Nat)
  | duplicateKey (key : String)
  | startupRetryState
  | startupRetryDeadline
  deriving DecidableEq, Repr

abbrev RetirementRecords := Map String RetirementRecord

def newRetirementDocument (o : RangeOrder String) (generation : Int) (records : RetirementRecords) :
    RetirementDocument where
  schemaVersion := 1
  managerContractVersion := retirementDocumentContractVersion
  generation := generation
  targets := ((records.entriesIn o).map (·.2)).insertionSort fun a b => a.key ≤ b.key

/-- The records of a document from an index on, with the keys already seen. -/
def parseRetirementRecords (rfc : Rfc3339) : Nat → List String → List RetirementRecord → Except RetirementFault Unit
  | _, _, [] => .ok ()
  | index, seen, record :: records => do
    reject (record.key = "" ∨ record.registrationURL = "" ∨ record.scaleSetName = "" ∨ record.maximum < 1 ∨
      record.retireAtGeneration < 1) (.incomplete index)
    reject (record.key ∈ seen) (.duplicateKey record.key)
    reject (record.startupAttempts < 0 ∨ record.startupAttempts > maxRegistrationCleanupAttempts ∨
      ¬(record.startupAttempts = 0 ↔ record.startupRetryAt = "")) .startupRetryState
    reject (record.startupRetryAt ≠ "" ∧ rfc.parse record.startupRetryAt = none) .startupRetryDeadline
    parseRetirementRecords rfc (index + 1) (record.key :: seen) records

def parseRetirementDocument (rfc : Rfc3339) (document : RetirementDocument) :
    Except RetirementFault RetirementDocument := do
  reject (document.schemaVersion ≠ 1) (.schemaVersion document.schemaVersion)
  reject (document.managerContractVersion < 8 ∨ document.managerContractVersion > managerContractVersion)
    (.managerContractVersion document.managerContractVersion)
  reject (document.generation < 0) .negativeGeneration
  parseRetirementRecords rfc 0 [] document.targets
  return document

def retirementRecordFor (target : TargetSpec) (generation : Int) : RetirementRecord where
  key := target.key
  registrationURL := target.registrationURL
  repository := target.repository
  maximum := target.maximum
  scaleSetName := target.scaleSetName
  retireAtGeneration := generation

def RetirementRecord.targetSpec (r : RetirementRecord) : TargetSpec where
  key := r.key
  registrationURL := r.registrationURL
  repository := r.repository
  maximum := r.maximum
  scaleSetName := r.scaleSetName

/-! ## Acknowledgements -/

structure Acknowledgement where
  schemaVersion : Int
  status : String
  generation : Int
  managerContractVersion : Int
  desiredStateHash : String
  observedAt : String
  desiredSlots : Int
  addedSlots : Int
  drainingSlots : Int
  unchangedSlots : Int
  addedKeys : List String
  drainingKeys : List String
  unchangedKeys : List String
  activationMode : String
  activeSlots : Int
  minimumIdleSlots : Int
  deriving DecidableEq, Repr

def buildAcknowledgement (pkg : Packages) (rfc : Rfc3339) (state : ParsedDesiredState) (previous : DesiredState)
    (activeSlots minimumIdle now : Int) : Acknowledgement :=
  let (added, draining, unchanged) := diffSlotKeys pkg previous state.state
  { schemaVersion := 1
    status := "accepted"
    generation := state.state.generation
    managerContractVersion
    desiredStateHash := state.stateHash
    observedAt := rfc.format now
    desiredSlots := (configuredSlotKeys pkg state.state).length
    addedSlots := added.length
    drainingSlots := draining.length
    unchangedSlots := unchanged.length
    addedKeys := added
    drainingKeys := draining
    unchangedKeys := unchanged
    activationMode := "autoscaled"
    activeSlots
    minimumIdleSlots := minimumIdle }

/-! ## The world of a manager -/

/-- The state files that the modelled functions write. -/
structure StateFiles where
  lastValid : Option String := none
  retirements : Option RetirementDocument := none

structure Manager where
  current : Option ParsedDesiredState := none
  applied : Option ParsedDesiredState := none
  ackPrevious : DesiredState := {}
  ackPending : Bool := false
  lastDocumentHash : String := ""
  retirementRecords : RetirementRecords := ∅
  retirementGeneration : Int := 0
  controllers : Map String TargetSpec := ∅
  retiring : Map String TargetSpec := ∅
  pending : Finset String := ∅
  recovered : Finset String := ∅
  hostAdmissionAdoptionPending : Bool := false

inductive ManagerNote where
  | stored (raw : String) (reported : Bool)
  /-- The retirement file holds other records now, after the end of a retirement without the target's, and
      whether the write has reported success. -/
  | recorded (completes : Option String) (reported : Bool)
  | absent (key : String)
  | deleted (key : String)
  | acknowledged (acknowledgement : Acknowledgement)
  deriving DecidableEq, Repr

structure ManagerWorld where
  files : StateFiles
  manager : Manager
  /-- What `persistRetirements` has written to the file, latest first. -/
  persisted : List (Int × RetirementRecords) := []
  notes : List ManagerNote := []

def ManagerWorld.noted (w : ManagerWorld) (note : ManagerNote) : ManagerWorld := { w with notes := note :: w.notes }

structure ManagerReply where
  outcome : Outcome := .done
  now : Int := 0
  answer : Bool := false
  activeSlots : Int := 0
  order : RangeOrder String := .sorted

abbrev ManagerProg := Prog ManagerWorld ManagerReply

namespace ManagerProg

def gets {α : Type} (f : Manager → α) : ManagerProg α := Prog.gets fun w => f w.manager

def modify (f : Manager → Manager) : ManagerProg Unit := Prog.modify fun w => { w with manager := f w.manager }

/-- A call that leaves nothing behind in the modelled world: whether it succeeds. -/
def call : ManagerProg Bool := Prog.atomic fun w c => (c.outcome = .done, w)

def ask : ManagerProg Bool := Prog.atomic fun w c => (c.answer, w)

def now : ManagerProg Int := Prog.atomic fun w c => (c.now, w)

end ManagerProg

open ManagerProg

def ManagerWorld.written (w : ManagerWorld) (o : RangeOrder String) (generation : Int) (records : RetirementRecords)
    (completes : Option String) (reported : Bool) : ManagerWorld :=
  { w with
    files := { w.files with retirements := some (newRetirementDocument o generation records) }
    persisted := (generation, records) :: w.persisted
    notes := .recorded completes reported :: w.notes }

/-- `writeJSONAtomically` of the retirement document: whether it reports success. The write may complete the
    retirement of a target. -/
def writeRetirements (generation : Int) (records : RetirementRecords) (completes : Option String := none) :
    ManagerProg Bool :=
  Prog.atomic fun w c =>
    match c.outcome with
    | .done => (true, w.written c.order generation records completes true)
    | .failed => (false, w)
    | .unsure => (false, w.written c.order generation records completes false)

def ManagerWorld.stored (w : ManagerWorld) (raw : String) (reported : Bool) : ManagerWorld :=
  { w with files := { w.files with lastValid := some raw }, notes := .stored raw reported :: w.notes }

def writeLastValid (raw : String) : ManagerProg Bool :=
  Prog.atomic fun w c =>
    match c.outcome with
    | .done => (true, w.stored raw true)
    | .failed => (false, w)
    | .unsure => (false, w.stored raw false)

def persistRetirements (generation : Int) (records : RetirementRecords) (completes : Option String := none) :
    ManagerProg Bool := do
  if ← writeRetirements generation records completes then
    modify fun m => { m with retirementRecords := records, retirementGeneration := generation }
    return true
  else return false

section
variable (pkg : Packages) (cfg : Config) (rfc : Rfc3339)

/-! ## Desired documents -/

def targetKeys (targets : List TargetSpec) : List String := targets.map (·.key)

/-- Adds a record for each target that is neither wanted nor recorded. -/
def addRetirements (nextKeys : List String) (generation : Int) (records : RetirementRecords) :
    List TargetSpec → RetirementRecords
  | [] => records
  | target :: targets =>
    if target.key ∈ nextKeys then addRetirements nextKeys generation records targets
    else if (records.lookup target.key).isSome then addRetirements nextKeys generation records targets
    else addRetirements nextKeys generation (records.insert target.key (retirementRecordFor target generation)) targets

/-- The targets of the state before a transition; a manager without one has none. -/
def previousTargets (previous : DesiredState) : Except DesiredFault (List TargetSpec) :=
  if previous.scope = .other "" then .ok [] else buildTargetSpecs pkg cfg previous

def recordsWithNewRetirements (records : RetirementRecords) (previous next : DesiredState) :
    Except DesiredFault RetirementRecords := do
  let previousTargets ← previousTargets pkg cfg previous
  let nextTargets ← buildTargetSpecs pkg cfg next
  return addRetirements (targetKeys nextTargets) next.generation records previousTargets

def ensureRetirementStateCurrent : ManagerProg Bool := do
  let m ← gets id
  match m.current with
  | none => return true
  | some current =>
    match buildTargetSpecs pkg cfg current.state with
    | .error _ => return false
    | .ok desiredTargets =>
      let records := (targetKeys desiredTargets).foldl (fun records key => records.erase key) m.retirementRecords
      if m.retirementGeneration ≥ current.state.generation ∧ records.keys.card = m.retirementRecords.keys.card then
        return true
      else persistRetirements current.state.generation records

def Manager.previous (m : Manager) : DesiredState := (m.current.map (·.state)).getD {}

def acceptDesiredTransition (parsed : ParsedDesiredState) (documentHash : String) : ManagerProg Bool := do
  let m ← gets id
  let previousApplied := (m.applied.map (·.state)).getD m.previous
  modify fun m => { m with applied := m.applied <|> m.current }
  match recordsWithNewRetirements pkg cfg m.retirementRecords m.previous parsed.state with
  | .error _ => return false
  | .ok records =>
    if ← persistRetirements parsed.state.generation records then
      if ← writeLastValid parsed.raw then
        modify fun m =>
          { m with
            current := some parsed
            ackPrevious := previousApplied
            ackPending := true
            lastDocumentHash := documentHash }
        ensureRetirementStateCurrent pkg cfg
      else return false
    else return false

def Manager.classify (m : Manager) (data : String) : DesiredClassification :=
  classifyDesiredState pkg data cfg.scope ((m.current.map (·.state.generation)).getD 0)
    ((m.current.map (·.stateHash)).getD "")

/-- What the manager reads of the desired-capacity file. -/
inductive DesiredFile where
  | unreadable
  | missing
  | data (text : String)
  deriving DecidableEq, Repr

def processDesired (desired : DesiredFile) : ManagerProg Bool := do
  let m ← gets id
  match desired with
  | .unreadable => return false
  | .missing =>
    modify fun m => { m with lastDocumentHash := "" }
    return true
  | .data data =>
    let documentHash := pkg.hexDigest data
    if documentHash = m.lastDocumentHash then return true
    else
      match m.classify pkg cfg data with
      | .invalid _ | .stale _ | .conflict _ =>
        modify fun m => { m with lastDocumentHash := documentHash }
        return false
      | .unchanged _ =>
        modify fun m => { m with lastDocumentHash := documentHash }
        return true
      | .new parsed => acceptDesiredTransition pkg cfg parsed documentHash

/-! ## Controllers -/

def startDesiredController (target : TargetSpec) : ManagerProg Bool := do
  if ← call then -- the service and its scale set
    modify fun m => { m with pending := insert target.key m.pending }
    if ← call then -- startTargetController
      modify fun m =>
        { m with
          controllers := m.controllers.insert target.key target
          pending := m.pending.erase target.key
          recovered := m.recovered.erase target.key }
      return true
    else return false
  else return false

def reconcileDesiredTarget (target : TargetSpec) : ManagerProg Bool := do
  let m ← gets id
  if (m.retiring.lookup target.key).isSome then
    if ← ask then -- the retiring controller is closed
      modify fun m => { m with retiring := m.retiring.erase target.key }
      startDesiredController target
    else if ← call then -- reactivate
      modify fun m =>
        { m with controllers := m.controllers.insert target.key target, retiring := m.retiring.erase target.key }
      return true
    else return false
  else
    match m.controllers.lookup target.key with
    | some running =>
      if running = target then return true
      else if ← call then -- update
        modify fun m => { m with controllers := m.controllers.insert target.key target }
        return true
      else return false
    | none => startDesiredController target

/-- Moves the controllers of targets that are no longer wanted to the retiring ones. -/
def retireControllers (desired : List String) : List String → ManagerProg Bool
  | [] => return true
  | key :: keys => do
    let m ← gets id
    match m.controllers.lookup key with
    | none => retireControllers desired keys
    | some controller =>
      if key ∈ desired then retireControllers desired keys
      else if (m.retirementRecords.lookup key).isNone then
        let _ ← retireControllers desired keys
        return false
      else
        modify fun m =>
          { m with controllers := m.controllers.erase key, retiring := m.retiring.insert key controller }
        let begun ← call -- beginRetirement
        let rest ← retireControllers desired keys
        return begun && rest

def reconcileTargets : List TargetSpec → ManagerProg Bool
  | [] => return true
  | target :: targets => do
    let ok ← reconcileDesiredTarget target
    let rest ← reconcileTargets targets
    return ok && rest

def reconcileDesiredTargets : ManagerProg Bool := do
  let m ← gets id
  match m.current with
  | none => return true
  | some current =>
    match buildTargetSpecs pkg cfg current.state with
    | .error _ => return false
    | .ok targets =>
      let ok ← reconcileTargets targets
      let keys ← Prog.atomic fun w c => (c.order.list w.manager.controllers.keys, w)
      let retired ← retireControllers (targetKeys targets) keys
      modify fun m => { m with pending := m.pending.filter (· ∈ targetKeys targets) }
      return ok && retired

/-! ## Retirements -/

/-- The record of a retiring target with its next attempt to start, or none while it has to wait. -/
def nextStartup (now : Int) (record : RetirementRecord) : Option RetirementRecord :=
  let attempts := min (record.startupAttempts + 1) maxRegistrationCleanupAttempts
  let next :=
    { record with
      startupAttempts := attempts
      startupRetryAt := rfc.format
        (now + boundedExponentialBackoff retirementStartupRetryBase retirementStartupRetryMax attempts) }
  if record.startupRetryAt = "" then some next
  else
    match rfc.parse record.startupRetryAt with
    | none => none
    | some retryAt => if now < retryAt then none else some next

/-- `m.current.state.Generation`. -/
def Manager.generation (m : Manager) : Int := m.previous.generation

def prepareRetirementStartup (record : RetirementRecord) : ManagerProg Bool := do
  let now ← now
  match nextStartup rfc now record with
  | none => return false
  | some record =>
    let m ← gets id
    persistRetirements m.generation (m.retirementRecords.insert record.key record)

/-- The answer of `findScaleSet` for a retiring target: whether its scale set exists. -/
def scaleSetExists (key : String) : ManagerProg Bool :=
  Prog.atomic fun w c => (c.answer, if c.answer then w else w.noted (.absent key))

def deleteScaleSet (key : String) : ManagerProg Bool :=
  Prog.atomic fun w c =>
    match c.outcome with
    | .done => (true, w.noted (.deleted key))
    | .failed => (false, w)
    | .unsure => (false, w.noted (.deleted key))

/-- The result of looking for the scale set of a retiring target and starting its controller: an error, no
    controller since there is no scale set, or a controller. -/
def startRetiringController (record : RetirementRecord) : ManagerProg (Option (Option TargetSpec)) := do
  let target := record.targetSpec
  if ← call then -- the service, findScaleSet
    if ← scaleSetExists target.key then
      let target := { target with maximum := 0 }
      if ← call then return some (some target) else return none
    else
      let m ← gets id
      if target.key ∈ m.recovered then return none else return some none
  else return none

def completeRetirement (key : String) : ManagerProg Bool := do
  let m ← gets id
  persistRetirements m.generation (m.retirementRecords.erase key) (some key)

def endRetirement (key : String) : ManagerProg Bool := do
  if ← completeRetirement key then
    modify fun m => { m with retiring := m.retiring.erase key }
    return true
  else return false

/-- What is left to do for a target with a retiring controller. -/
def finishRetirement (allowFinalization : Bool) (key : String) : ManagerProg Bool := do
  if ← call then -- beginRetirement
    if ← ask then -- no runner is left
      if allowFinalization then
        if ← call then -- closeSession, findScaleSet
          if ← scaleSetExists key then
            if ← deleteScaleSet key then endRetirement key else return false
          else endRetirement key
        else return false
      else return true
    else return true
  else return false

def reconcileRetirement (allowFinalization : Bool) (key : String) : ManagerProg Bool := do
  let m ← gets id
  match m.retirementRecords.lookup key with
  | none => return true
  | some record =>
    if (m.retiring.lookup key).isSome then finishRetirement allowFinalization key
    else if ← prepareRetirementStartup rfc record then
      match ← startRetiringController record with
      | none => return false
      | some controller =>
        match controller with
        | none => pure ()
        | some target =>
          modify fun m => { m with retiring := m.retiring.insert key target, recovered := m.recovered.erase key }
        let m ← gets id
        -- the record as it was read, without its attempts
        let records := m.retirementRecords.insert key { record with startupAttempts := 0, startupRetryAt := "" }
        if ← persistRetirements m.generation records then
          match controller with
          | some _ => finishRetirement allowFinalization key
          | none => if allowFinalization then completeRetirement key else return true
        else return false
    else return false

def reconcileRetirementKeys (allowFinalization : Bool) : List String → ManagerProg Bool
  | [] => return true
  | key :: keys => do
    let ok ← reconcileRetirement rfc allowFinalization key
    let rest ← reconcileRetirementKeys allowFinalization keys
    return ok && rest

/-- The targets that the current generation retires, in order. -/
def retiringKeys (m : Manager) (generation : Int) (desired : List String) : List String :=
  (sortedList m.retirementRecords.keys).filter fun key =>
    (m.retirementRecords.lookup key).any (·.retireAtGeneration ≤ generation) && key ∉ desired

def reconcileRetirementsWithFinalization (allowFinalization : Bool) : ManagerProg Bool := do
  let m ← gets id
  match m.current with
  | none => return true
  | some current =>
    match buildTargetSpecs pkg cfg current.state with
    | .error _ => return false
    | .ok desiredTargets =>
      reconcileRetirementKeys rfc allowFinalization
        (retiringKeys m current.state.generation (targetKeys desiredTargets))

/-! ## Acknowledging -/

/-- A target's controller is there with the target's maximum, and neither its retirement nor its start is on
    the way. -/
def Manager.runs (m : Manager) (target : TargetSpec) : Bool :=
  (m.controllers.lookup target.key).any (fun c => c.key = target.key ∧ c.maximum = target.maximum) &&
    (m.retiring.lookup target.key).isNone && target.key ∉ m.pending

def Manager.coherent (m : Manager) (targets : List TargetSpec) : Bool :=
  m.controllers.keys.card = targets.length ∧ (∀ target ∈ targets, m.runs target) ∧
    ∀ key ∈ m.controllers.keys, key ∈ targetKeys targets

def currentConfigurationCoherent : ManagerProg Bool := do
  let m ← gets id
  match m.current with
  | none => return false
  | some current =>
    match buildTargetSpecs pkg cfg current.state with
    | .error _ => return false
    | .ok targets =>
      if m.coherent targets then
        ask -- every listener runs, no restart is due, and no controller retires or has slots beyond its maximum
      else return false

def aggregateMinimumIdle (state : DesiredState) : Int :=
  match state.scope with
  | .repo => (state.repositories.map fun repository => min cfg.minimumIdle repository.workers).sum
  | _ => (state.replicas.map fun replicas => min cfg.minimumIdle replicas).getD 0

def writeAcknowledgement (current : ParsedDesiredState) (previous : DesiredState) : ManagerProg Bool :=
  Prog.atomic fun w c =>
    let acknowledgement :=
      buildAcknowledgement pkg rfc current previous c.activeSlots (aggregateMinimumIdle cfg current.state) c.now
    match c.outcome with
    | .done => (true, w.noted (.acknowledged acknowledgement))
    | .failed => (false, w)
    | .unsure => (false, w.noted (.acknowledged acknowledgement))

def publishAcknowledgement : ManagerProg Bool := do
  let m ← gets id
  match m.current with
  | none => return true
  | some current =>
    if m.ackPending = false then return true
    else if ← currentConfigurationCoherent pkg cfg then
      if m.retirementGeneration < current.state.generation then return false
      else
        match buildTargetSpecs pkg cfg current.state with
        | .error _ => return false
        | .ok desiredTargets =>
          if desiredTargets.any fun target => (m.retirementRecords.lookup target.key).isSome then return false
          else if ← writeAcknowledgement pkg cfg rfc current m.ackPrevious then
            modify fun m => { m with ackPending := false }
            return true
          else return false
    else return false

def applyConfiguration : ManagerProg Unit := do
  let m ← gets id
  if m.current.isSome then
    if ← currentConfigurationCoherent pkg cfg then
      modify fun m => { m with applied := m.current }
    let _ ← publishAcknowledgement pkg cfg rfc

/-- One cycle, as far as it touches the modelled state; it begins with the desired document. -/
def runReconciliationCycle (desired : DesiredFile) : ManagerProg Unit := do
  let _ ← processDesired pkg cfg desired
  let adoptionWasPending ← gets (·.hostAdmissionAdoptionPending)
  let m ← gets id
  if m.current.isSome then
    let _ ← ensureRetirementStateCurrent pkg cfg
    let _ ← reconcileDesiredTargets pkg cfg
    let allow ← gets (! ·.hostAdmissionAdoptionPending)
    let _ ← reconcileRetirementsWithFinalization pkg cfg rfc allow
  if ← ask then -- completeHostAdmissionAdoptionIfReady
    modify fun m => { m with hostAdmissionAdoptionPending := false }
  let m ← gets id
  if adoptionWasPending && !m.hostAdmissionAdoptionPending && m.current.isSome then
    let _ ← reconcileRetirementsWithFinalization pkg cfg rfc true
  applyConfiguration pkg cfg rfc

/-! ## Processes -/

def loadRetirements (files : StateFiles) : Except RetirementFault (Int × RetirementRecords) :=
  match files.retirements with
  | none => .ok (0, ∅)
  | some document => do
    let document ← parseRetirementDocument rfc document
    return (document.generation, Map.ofList (document.targets.map fun record => (record.key, record)))

def restoreLastValid (files : StateFiles) : Except DesiredFault (Option ParsedDesiredState) :=
  match files.lastValid with
  | none => .ok none
  | some data => do
    let parsed ← parseDesiredState pkg data cfg.scope
    return some parsed

inductive StartFault where
  | lastValid (fault : DesiredFault)
  | retirements (fault : RetirementFault)
  deriving DecidableEq, Repr

/-- The memory of a process that starts on the files, with the containers it has found. -/
def startManager (files : StateFiles) (recovered : Finset String) (adoptionPending : Bool) :
    Except StartFault Manager :=
  match restoreLastValid pkg cfg files with
  | .error fault => .error (.lastValid fault)
  | .ok current =>
    match loadRetirements rfc files with
    | .error fault => .error (.retirements fault)
    | .ok (generation, records) =>
      .ok
        { current
          applied := current
          ackPrevious := (current.map (·.state)).getD {}
          ackPending := current.isSome
          retirementGeneration := generation
          retirementRecords := records
          recovered
          hostAdmissionAdoptionPending := adoptionPending }

/-- The manager of a profile: its process has stopped, or it is somewhere in a cycle. -/
structure ManagerSystem where
  world : ManagerWorld
  program : Option (ManagerProg Unit)

inductive ManagerEvent where
  | restart (recovered : Finset String) (adoptionPending : Bool)
  | cycle (desired : DesiredFile)
  | step (reply : ManagerReply)

def ManagerSystem.step (s : ManagerSystem) : ManagerEvent → ManagerSystem × Unit
  | .restart recovered adoptionPending =>
    match startManager pkg cfg rfc s.world.files recovered adoptionPending with
    | .error _ => (⟨s.world, none⟩, ())
    | .ok manager => (⟨{ s.world with manager }, some (pure ())⟩, ())
  | .cycle desired =>
    match s.program with
    | some (.done _) => (⟨s.world, some (runReconciliationCycle pkg cfg rfc desired)⟩, ())
    | _ => (s, ())
  | .step reply =>
    match s.program with
    | some (.step act next) => (⟨act s.world reply, some (next s.world reply)⟩, ())
    | _ => (s, ())

def ManagerSystem.start (files : StateFiles) : ManagerSystem := ⟨{ files, manager := {} }, none⟩

end
end PitCrew.Autoscaler
