import PitCrew.Base.Prog
import PitCrew.Base.Map
import PitCrew.Base.Machine
import Mathlib.Data.List.DropRight

/-! # Operation evidence of the fixed manager

`record_manager_event` (`manager/diagnostics.sh`), which the main loop and every slot supervisor call on one
directory: it takes the lock, updates the health of a subsystem, appends to the journal and gives the lock
back. Every command that touches the directory is one step. The loop that waits for the lock and the one that
enforces the budget come with the number of rounds they may take. Processes are shells of one manager, so
that `$$` is the same in all of them, and with it the names of the temporary files.

A lock directory has nothing that tells it from the next one. The model counts the directories that were made
and notes who made them. -/

namespace PitCrew.Shell
open Base

/-! ## Events -/

inductive DiagnosticSubsystem where
  | docker | registration | scaleSetSession | listener | jit | workerLaunch | workerExit | telemetry | reconciliation
  | cleanup | admission | recovery
  deriving DecidableEq, Repr

inductive DiagnosticOperation where
  | dockerPing | dockerRun | dockerInspect | dockerRemove | dockerEvents | registrationTokenRequest | runnerRegistration
  | runnerRemoval | sessionCreate | sessionRefresh | sessionDelete | messagePoll | messageAcknowledge
  | jitConfigGenerate
  | workerLaunch | workerExit | telemetrySample | desiredStateLoad | desiredStateApply | capacityAcknowledge
  | observedStatePublish | registrationCleanup | containerCleanup | admissionReserve | admissionSettle | managerStart
  | managerShutdown | journalRestore
  deriving DecidableEq, Repr

inductive DiagnosticOutcome where
  | succeeded | failed | timedOut | retryScheduled | blocked | recovered | unknown
  deriving DecidableEq, Repr

inductive DiagnosticReason where
  | none | dockerUnavailable | dockerFailed | timeout | rateLimited | authorizationFailed | notFound | conflict
  | invalidState | capacityCeiling | retryBackoff | cancelled | recovered | unknown
  deriving DecidableEq, Repr

inductive HealthKey where
  | docker
  | github
  deriving DecidableEq, Repr

/-- `diagnostic_health_key`. -/
def DiagnosticSubsystem.healthKey : DiagnosticSubsystem → Option HealthKey
  | .docker | .workerLaunch | .telemetry | .cleanup => some .docker
  | .registration | .jit | .scaleSetSession | .listener => some .github
  | _ => none

inductive HealthMode where
  | auto
  | none
  | other (text : String)
  deriving DecidableEq, Repr

/-- The arguments of `record_manager_event`. -/
structure EventArguments where
  instanceID : String
  subsystem : DiagnosticSubsystem
  operation : DiagnosticOperation
  target : String := ""
  outcome : DiagnosticOutcome
  duration : Option Nat := none
  reason : DiagnosticReason
  evidence : String := ""
  retryAt : String := ""
  healthMode : HealthMode := .auto
  deriving DecidableEq, Repr

def isEvidenceCharacter (c : Char) : Bool := c.isAlphanum || c ∈ " .,_()'-".toList

/-- `sanitize_diagnostic_evidence`. -/
def sanitizeDiagnosticEvidence (evidence : String) : String :=
  let spaced := evidence.toList.map fun c => if isEvidenceCharacter c then c else ' '
  let squeezed := spaced.foldr (fun c rest => if c = ' ' ∧ rest.head? = some ' ' then rest else c :: rest) []
  let trimmed := (squeezed.dropWhile (!·.isAlphanum)).rdropWhile (· = ' ')
  String.ofList (trimmed.take 160)

def EventArguments.normalized (a : EventArguments) : EventArguments :=
  { a with
    duration := a.duration.map (min · 86400000)
    evidence := sanitizeDiagnosticEvidence a.evidence
    target := String.ofList (a.target.toList.take 128) }

structure DiagnosticEvent where
  sequence : Nat
  managerInstanceID : String
  observedAt : String
  firstObservedAt : String
  lastObservedAt : String
  occurrenceCount : Nat
  subsystem : DiagnosticSubsystem
  operation : DiagnosticOperation
  target : Option String
  outcome : DiagnosticOutcome
  durationMilliseconds : Option Nat
  attempt : Nat
  consecutiveFailures : Nat
  retryAt : Option String
  reason : DiagnosticReason
  evidence : Option String
  deriving DecidableEq, Repr

inductive JournalStatus where
  | current
  | truncated
  | unavailable
  deriving DecidableEq, Repr

/-- A journal of the current schema, to which `diagnostics_initialize` brings every older one. -/
structure DiagnosticJournal where
  status : JournalStatus
  highestSequence : Option Nat := none
  droppedEvents : Nat
  evictedEvents : Nat := 0
  rejectedEvents : Nat
  unclassifiedEvents : Nat
  events : List DiagnosticEvent := []
  deriving DecidableEq, Repr

namespace DiagnosticJournal

def capacity : Nat := 32

def maximumBytes : Nat := 16384

def maximumCount : Nat := 2147483647

/-- `diagnostic_journal_state_is_valid`. -/
def isValid (j : DiagnosticJournal) : Bool :=
  j.highestSequence.all (1 ≤ ·) && j.droppedEvents = j.evictedEvents + j.rejectedEvents + j.unclassifiedEvents &&
    match j.status with
    | .current => j.rejectedEvents = 0
    | .truncated => 1 ≤ j.rejectedEvents
    | .unavailable => true

/-- What `diagnostic_write_empty_journal` writes when the journal is reset. -/
def reset :
    DiagnosticJournal := { status := .unavailable, droppedEvents := 1, rejectedEvents := 1, unclassifiedEvents := 0 }

end DiagnosticJournal

/-- What `diagnostic_append_journal_event` is called with. -/
structure AppendArguments where
  event : EventArguments
  reason : DiagnosticReason
  attempt : Nat
  failures : Nat
  deriving DecidableEq, Repr

/-- Outcomes that are counted in one event as long as they repeat. -/
def DiagnosticOutcome.coalescible : DiagnosticOutcome → Bool
  | .failed | .timedOut | .blocked | .retryScheduled | .unknown => true
  | .succeeded | .recovered => false

def optional (s : String) : Option String := if s = "" then none else some s

namespace DiagnosticJournal

/-- The last event of the same subsystem, operation and target, with its place. -/
def lastScoped (j : DiagnosticJournal) (a : EventArguments) : Option (DiagnosticEvent × Nat) :=
  (j.events.zipIdx.filter fun e =>
    e.1.subsystem = a.subsystem ∧ e.1.operation = a.operation ∧ e.1.target = optional a.target).getLast?

/-- The journal with one more event, or with a repeated one in a new place. -/
def append (j : DiagnosticJournal) (a : AppendArguments) (observedAt : String) : DiagnosticJournal :=
  let previous := (j.lastScoped a.event).filter fun e =>
    a.event.outcome.coalescible ∧ e.1.outcome = a.event.outcome ∧ e.1.reason = a.reason
  let sequence := j.highestSequence.getD 0 + 1
  let kept :=
    match previous with
    | some (_, index) => j.events.eraseIdx index
    | none => j.events
  let event : DiagnosticEvent :=
    { sequence
      managerInstanceID := a.event.instanceID
      observedAt
      firstObservedAt := (previous.map (·.1.firstObservedAt)).getD observedAt
      lastObservedAt := observedAt
      occurrenceCount := (previous.map fun e => min (e.1.occurrenceCount + 1) maximumCount).getD 1
      subsystem := a.event.subsystem
      operation := a.event.operation
      target := optional a.event.target
      outcome := a.event.outcome
      durationMilliseconds := a.event.duration
      attempt := min (max a.attempt 1) 1000
      consecutiveFailures := a.failures
      retryAt := optional a.event.retryAt
      reason := a.reason
      evidence := optional a.event.evidence }
  { j with
    highestSequence := some sequence
    events := kept ++ [event]
    status := if j.rejectedEvents > 0 then .truncated else .current }

/-- The counts and the status after events have been evicted. -/
def evicting (j : DiagnosticJournal) (evicted : Nat) (events : List DiagnosticEvent) : DiagnosticJournal :=
  { j with
    evictedEvents := evicted
    events
    droppedEvents := evicted + j.rejectedEvents + j.unclassifiedEvents
    status :=
      if j.status = .unavailable then .unavailable else if j.rejectedEvents > 0 then .truncated else .current }

def trim (j : DiagnosticJournal) : DiagnosticJournal :=
  let excess := j.events.length - capacity
  j.evicting (j.evictedEvents + excess) (j.events.drop excess)

def evictOldest (j : DiagnosticJournal) : DiagnosticJournal := j.evicting (j.evictedEvents + 1) (j.events.drop 1)

end DiagnosticJournal

/-! ## Health -/

inductive HealthState where
  | healthy
  | degraded
  | unavailable
  | unknown
  deriving DecidableEq, Repr

structure OperationEvidence where
  operation : DiagnosticOperation
  observedAt : String
  durationMilliseconds : Option Nat
  reason : DiagnosticReason
  evidence : Option String
  deriving DecidableEq, Repr

structure SubsystemHealth where
  state : HealthState
  observedAt : String
  consecutiveFailures : Nat := 0
  retryAt : Option String := none
  lastSuccess : Option OperationEvidence := none
  lastFailure : Option OperationEvidence := none
  deriving DecidableEq, Repr

namespace SubsystemHealth

def unavailableFailures : Nat := 3

/-- `diagnostic_subsystem_health_is_valid`, for the fields that a state requires. -/
def isValid (h : SubsystemHealth) : Bool :=
  h.observedAt ≠ "" && h.consecutiveFailures ≤ 1000 &&
    match h.state with
    | .healthy => h.consecutiveFailures = 0 && h.lastSuccess.isSome
    | .degraded | .unavailable => 1 ≤ h.consecutiveFailures && h.lastFailure.isSome
    | .unknown => h.consecutiveFailures = 0 && h.lastSuccess.isNone && h.lastFailure.isNone && h.retryAt.isNone

def failuresAfter (outcome : DiagnosticOutcome) (before : Nat) : Nat :=
  match outcome with
  | .succeeded | .recovered => 0
  | .failed | .timedOut | .blocked => min (before + 1) 1000
  | _ => before

def stateAfter (outcome : DiagnosticOutcome) (failures : Nat) (before : HealthState) : HealthState :=
  match outcome with
  | .succeeded | .recovered => .healthy
  | .failed | .timedOut | .blocked => if failures ≥ unavailableFailures then .unavailable else .degraded
  | _ => before

/-- `diagnostic_update_subsystem_health`. -/
def update (h : SubsystemHealth) (a : EventArguments) (state : HealthState) (failures : Nat) (reason : DiagnosticReason)
    (observedAt : String) : SubsystemHealth :=
  let record : OperationEvidence :=
    { operation := a.operation, observedAt, durationMilliseconds := a.duration, reason,
      evidence := optional a.evidence }
  let h := { h with state, observedAt, consecutiveFailures := failures, retryAt := optional a.retryAt }
  match a.outcome with
  | .succeeded | .recovered => { h with lastSuccess := some record }
  | .failed | .timedOut | .blocked => { h with lastFailure := some record }
  | _ => h

end SubsystemHealth

/-! ## The directory -/

inductive FileContent (α : Type) where
  | absent
  | unreadable
  | holds (a : α)
  deriving DecidableEq, Repr

namespace FileContent
variable {α : Type}

def value : FileContent α → Option α
  | .holds a => some a
  | _ => none

end FileContent

inductive JournalPath where
  | journal
  | temporary
  | append
  | budget
  deriving DecidableEq, Repr

inductive HealthPath where
  | health (key : HealthKey)
  | temporary (key : HealthKey)
  deriving DecidableEq, Repr

/-- The file `created` of a lock. -/
inductive CreatedFile where
  | absent
  | empty
  | time (seconds : Nat)
  deriving DecidableEq, Repr

/-- What `date +%s > created` leaves of the file, which stays empty when the command fails late. -/
def CreatedFile.written (outcome : Outcome) (now : Nat) (before : CreatedFile) : CreatedFile :=
  match outcome with
  | .done => .time now
  | .failed => before
  | .unsure => .empty

/-- The directory `.lock`. -/
structure LockDirectory where
  created : CreatedFile := .absent
  stamp : Nat
  deriving DecidableEq, Repr

/-- A process has made a lock directory and not given it back. -/
structure Holding where
  stamp : Nat
  since : Nat
  deriving DecidableEq, Repr

/-- An event has been appended: what `mv` has replaced, and by what. -/
structure Appended where
  arguments : AppendArguments
  observedAt : String
  before : FileContent DiagnosticJournal
  after : FileContent DiagnosticJournal

structure DiagnosticWorld where
  /-- `date +%s`. -/
  now : Nat
  lock : Option LockDirectory := none
  journals : JournalPath → FileContent DiagnosticJournal := fun _ => .absent
  healths : HealthPath → FileContent SubsystemHealth := fun _ => .absent
  taken : Nat := 0
  /-- The processes between a `mkdir` that succeeded and the release. -/
  holding : Map Nat Holding := ∅
  /-- The processes between a successful `diagnostic_acquire_lock` and `diagnostic_release_lock`. -/
  inside : Finset Nat := ∅
  /-- The lock directory whose creation time a process has read since its last `mkdir`. -/
  looked : Map Nat Nat := ∅
  removing : Finset Nat := ∅
  appends : List Appended := []

namespace DiagnosticWorld

def write (w : DiagnosticWorld) (path : JournalPath) (content : FileContent DiagnosticJournal) : DiagnosticWorld :=
  { w with journals := Function.update w.journals path content }

def writeHealth (w : DiagnosticWorld) (path : HealthPath) (content : FileContent SubsystemHealth) : DiagnosticWorld :=
  { w with healths := Function.update w.healths path content }

end DiagnosticWorld

structure DiagnosticReply where
  outcome : Outcome := .done
  /-- `date -u`. -/
  text : String := ""

abbrev DiagnosticProg := Prog DiagnosticWorld DiagnosticReply

/-! ## The lock -/

def lockTimeoutSeconds : Nat := 5

section
variable (self : Nat)

/-- `mkdir`. A process that fails has read no creation time yet. -/
def makeLock : DiagnosticProg Bool :=
  Prog.atomic fun w c =>
    match w.lock, c.outcome with
    | none, .done =>
      (true,
        { w with
          lock := some { stamp := w.taken + 1 }
          taken := w.taken + 1
          holding := w.holding.insert self ⟨w.taken + 1, w.now⟩ })
    | _, _ => (false, { w with looked := w.looked.erase self })

/-- `date +%s > created || true`, with which the lock is acquired. -/
def writeCreated : DiagnosticProg Unit :=
  Prog.atomic fun w c =>
    ((), { w with
      lock := w.lock.map fun d => { d with created := d.created.written c.outcome w.now }
      inside := insert self w.inside })

/-- `[ -f created ]`. -/
def createdExists : DiagnosticProg Bool := Prog.gets fun w => w.lock.any (·.created ≠ .absent)

/-- `cat created`; what is not a number counts as zero. -/
def readCreated : DiagnosticProg Nat :=
  Prog.atomic fun w c =>
    match w.lock, c.outcome with
    | some ⟨.time seconds, stamp⟩, .done => (seconds, { w with looked := w.looked.insert self stamp })
    | _, _ => (0, w)

/-- The creation time of the lock, as far as it can be read. -/
def lockCreated : DiagnosticProg Nat := do
  if ← createdExists then readCreated self else return 0

/-- Whether the lock is as old as to be taken for one that was left behind. -/
def isStale (created : Nat) : DiagnosticProg Bool :=
  Prog.locally fun w =>
    if w.now - created ≥ lockTimeoutSeconds then (true, { w with removing := insert self w.removing }) else (false, w)

/-- `rm -rf`, of whatever directory there is. -/
def removeStale : DiagnosticProg Unit :=
  Prog.atomic fun w c =>
    let w := { w with removing := w.removing.erase self }
    ((), if c.outcome = .failed then w else { w with lock := none })

def diagnosticAcquireLock : Nat → Nat → DiagnosticProg Bool
  | 0, _ => return false
  | rounds + 1, waited => do
    if ← makeLock self then
      writeCreated self
      return true
    else
      let created ← lockCreated self
      if ← isStale self created then
        removeStale self
        diagnosticAcquireLock rounds waited
      else if waited ≥ lockTimeoutSeconds then return false
      else diagnosticAcquireLock rounds (waited + 1)

def diagnosticReleaseLock : DiagnosticProg Unit :=
  Prog.atomic fun w c =>
    let w := { w with holding := w.holding.erase self, inside := w.inside.erase self }
    ((), if c.outcome = .failed then w else { w with lock := none })

end

/-! ## Commands -/

/-- `jq FILTER SOURCE > TARGET`. The target is opened first, and holds no document when the command fails. -/
def jqJournal (source target : JournalPath) (filter : DiagnosticJournal → DiagnosticJournal) : DiagnosticProg Bool :=
  Prog.atomic fun w c =>
    match w.journals source, c.outcome with
    | .holds j, .done => (true, w.write target (.holds (filter j)))
    | _, _ => (false, w.write target .unreadable)

def removeJournal (path : JournalPath) : DiagnosticProg Unit := Prog.modify fun w => w.write path .absent

/-- `mv -f`, which fails without a source. -/
def moveJournal (source target : JournalPath) : DiagnosticProg Bool :=
  Prog.atomic fun w c =>
    if c.outcome = .done ∧
      w.journals source ≠ .absent then (true, (w.write target (w.journals source)).write source .absent) else (false, w)

/-- `mv -f` of the journal with a new event. -/
def moveAppended (a : AppendArguments) (observedAt : String) : DiagnosticProg Bool :=
  Prog.atomic fun w c =>
    if c.outcome = .done ∧ w.journals .append ≠ .absent then
      (true,
        { (w.write .journal (w.journals .append)).write .append .absent with
          appends := w.appends ++ [⟨a, observedAt, w.journals .journal, w.journals .append⟩] })
    else (false, w)

/-- A new document in place of an old one, by way of a temporary file. -/
def replaceJournal (draft : JournalPath) (filter : DiagnosticJournal → DiagnosticJournal) : DiagnosticProg Bool := do
  if ← jqJournal .journal draft filter then
    if ← moveJournal draft .journal then return true
    else
      removeJournal draft
      return false
  else
    removeJournal draft
    return false

/-- `[ -f journal ]` and `diagnostic_journal_state_is_valid`. -/
def journalIsValid : DiagnosticProg Bool := Prog.gets fun w => (w.journals .journal).value.any (·.isValid)

/-- `diagnostic_write_empty_journal` for a journal that is missing or cannot be read. -/
def writeEmptyJournal : DiagnosticProg Bool := do
  let written ← Prog.atomic fun w c =>
    if c.outcome = .done then (true, w.write .temporary (.holds DiagnosticJournal.reset))
    else (false, w.write .temporary .unreadable)
  if written then
    if ← moveJournal .temporary .journal then return true
    else
      removeJournal .temporary
      return false
  else
    removeJournal .temporary
    return false

/-- The size of the journal as it is published, if the commands print a number. -/
def serializedBytes (size : DiagnosticJournal → Nat) : DiagnosticProg (Option Nat) :=
  Prog.atomic fun w c => (if c.outcome = .done then (w.journals .journal).value.map size else none, w)

/-- `jq -r '.events | length'`. -/
def remainingEvents : DiagnosticProg (Option Nat) :=
  Prog.atomic fun w c => (if c.outcome = .done then (w.journals .journal).value.map (·.events.length) else none, w)

/-- `diagnostic_enforce_journal_budget`. -/
def enforceJournalBudget (size : DiagnosticJournal → Nat) : Nat → DiagnosticProg Bool
  | 0 => return false
  | rounds + 1 => do
    if ← replaceJournal .budget DiagnosticJournal.trim then
      match ← serializedBytes size with
      | none => return true
      | some bytes =>
        if bytes ≤ DiagnosticJournal.maximumBytes then return true
        else if (← remainingEvents).any (· ≤ 1) then return true
        else if ← replaceJournal .budget DiagnosticJournal.evictOldest then enforceJournalBudget size rounds
        else return false
    else return false

/-- `diagnostic_append_journal_event`, from the journal that is there on. -/
def appendToJournal (size : DiagnosticJournal → Nat) (rounds : Nat) (a : AppendArguments) : DiagnosticProg Bool := do
  let observedAt ← Prog.atomic fun w c => (c.text, w)
  if ← jqJournal .journal .append fun j => j.append a observedAt then
    if ← moveAppended a observedAt then enforceJournalBudget size rounds
    else
      removeJournal .append
      return false
  else
    removeJournal .append
    return false

/-- `diagnostic_append_journal_event`. -/
def diagnosticAppendJournalEvent (size : DiagnosticJournal → Nat) (rounds : Nat) (a : AppendArguments) :
    DiagnosticProg Bool := do
  if ← journalIsValid then appendToJournal size rounds a
  else if ← writeEmptyJournal then appendToJournal size rounds a
  else return false

/-! ## Health files -/

def removeHealth (path : HealthPath) : DiagnosticProg Unit := Prog.modify fun w => w.writeHealth path .absent

/-- A health file is written by way of a temporary file; `make` is the document, if `jq` succeeds. -/
def writeHealthFile (key : HealthKey) (make : DiagnosticWorld → DiagnosticReply → Option SubsystemHealth) :
    DiagnosticProg Bool := do
  let written ← Prog.atomic fun w c =>
    match c.outcome, make w c with
    | .done, some h => (true, w.writeHealth (.temporary key) (.holds h))
    | _, _ => (false, w.writeHealth (.temporary key) .unreadable)
  if written then
    let moved ← Prog.atomic fun w c =>
      if c.outcome = .done ∧ w.healths (.temporary key) ≠ .absent then
        (true, (w.writeHealth (.health key) (w.healths (.temporary key))).writeHealth (.temporary key) .absent)
      else (false, w)
    if moved then return true
    else
      removeHealth (.temporary key)
      return false
  else
    removeHealth (.temporary key)
    return false

/-- `diagnostic_write_unknown_health`. -/
def diagnosticWriteUnknownHealth (key : HealthKey) : DiagnosticProg Bool :=
  writeHealthFile key fun _ c => some { state := .unknown, observedAt := c.text }

/-- `diagnostic_update_subsystem_health`. -/
def diagnosticUpdateSubsystemHealth (key : HealthKey) (a : EventArguments) (state : HealthState) (failures : Nat)
    (reason : DiagnosticReason) : DiagnosticProg Bool :=
  writeHealthFile key fun w c => (w.healths (.health key)).value.map (·.update a state failures reason c.text)

def ensureHealth (key : HealthKey) : DiagnosticProg Bool := do
  if ← Prog.gets fun w => (w.healths (.health key)).value.any (·.isValid) then return true
  else diagnosticWriteUnknownHealth key

/-- The health of a subsystem before the event; `none` when the file could not be written. -/
def healthBefore (key : HealthKey) : DiagnosticProg (Option (Nat × HealthState)) := do
  if ← ensureHealth key then
    let failures ← Prog.gets fun w => ((w.healths (.health key)).value.map (·.consecutiveFailures)).getD 0
    let state ← Prog.gets fun w => ((w.healths (.health key)).value.map (·.state)).getD .unknown
    return some (failures, state)
  else return none

/-! ## `record_manager_event` -/

def slowOperationMilliseconds : Nat := 5000

/-- Whether an event of a subsystem with a health file is journaled. -/
def isJournaled (a : EventArguments) (before after : HealthState) : Bool :=
  after ≠ before || a.outcome = .failed || a.outcome = .timedOut || a.outcome = .blocked ||
    a.outcome = .retryScheduled || a.duration.any (slowOperationMilliseconds ≤ ·)

def reasonAfter (a : EventArguments) (failuresBefore : Nat) : DiagnosticReason :=
  if a.outcome = .succeeded ∧ failuresBefore > 0 ∧ a.reason = .none then .recovered else a.reason

def recordWithoutHealth (size : DiagnosticJournal → Nat) (rounds : Nat) (a : EventArguments) : DiagnosticProg Bool :=
  diagnosticAppendJournalEvent size rounds ⟨a, reasonAfter a 0, 1, SubsystemHealth.failuresAfter a.outcome 0⟩

def recordWithHealth (size : DiagnosticJournal → Nat) (rounds : Nat) (a : EventArguments) (key : HealthKey) :
    DiagnosticProg Bool := do
  match ← healthBefore key with
  | none =>
    -- without a file no health is written, and the event is journaled
    let _ ← recordWithoutHealth size rounds a
    return false
  | some (failuresBefore, stateBefore) =>
    let failures := SubsystemHealth.failuresAfter a.outcome failuresBefore
    let state := SubsystemHealth.stateAfter a.outcome failures stateBefore
    let reason := reasonAfter a failuresBefore
    let updated ← diagnosticUpdateSubsystemHealth key a state failures reason
    if isJournaled a stateBefore state then
      let appended ← diagnosticAppendJournalEvent size rounds ⟨a, reason, failuresBefore + 1, failures⟩
      return updated && appended
    else return updated

def recordLocked (size : DiagnosticJournal → Nat) (rounds : Nat) (a : EventArguments) : DiagnosticProg Bool :=
  match a.healthMode, a.subsystem.healthKey with
  | .other _, _ => return false
  | .none, _ | .auto, none => recordWithoutHealth size rounds a
  | .auto, some key => recordWithHealth size rounds a key

/-- A retry that is scheduled for no time is refused. -/
def recordManagerEvent (size : DiagnosticJournal → Nat) (rounds : Nat) (self : Nat) (a : EventArguments) :
    DiagnosticProg Bool := do
  if a.outcome = .retryScheduled ∧ a.retryAt = "" then return false
  else if ← diagnosticAcquireLock self rounds 0 then
    let recorded ← recordLocked size rounds a.normalized
    diagnosticReleaseLock self
    return recorded
  else return false

/-! ## Processes -/

structure DiagnosticSystem where
  world : DiagnosticWorld
  processes : Map Nat (DiagnosticProg Bool) := ∅

inductive DiagnosticAction where
  /-- A process without a call in progress calls `record_manager_event`. -/
  | call (process : Nat) (arguments : EventArguments) (rounds : Nat)
  | command (process : Nat) (reply : DiagnosticReply)
  | tick (seconds : Nat)

def DiagnosticSystem.step (size : DiagnosticJournal → Nat) (s : DiagnosticSystem) :
    DiagnosticAction → DiagnosticSystem × Unit
  | .call process arguments rounds =>
    if (s.processes.lookup process).all (·.ended) then
      ({ s with processes := s.processes.insert process (recordManagerEvent size rounds process arguments) }, ())
    else (s, ())
  | .command process reply =>
    match s.processes.lookup process with
    | none => (s, ())
    | some program =>
      let (world, rest) := program.advance s.world reply
      ({ world, processes := s.processes.insert process rest }, ())
  | .tick seconds => ({ s with world := { s.world with now := s.world.now + seconds } }, ())

end PitCrew.Shell
