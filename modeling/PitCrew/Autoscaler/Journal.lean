import PitCrew.Autoscaler.Desired
import PitCrew.Autoscaler.Retry
import PitCrew.Base.Json
import PitCrew.Base.Machine

/-! # The operation journal

The recorder of completed operations (`manager/autoscaler/diagnostics.go`): its events with their sequence
numbers, the health of its subsystems, the document it writes, what a new manager restores from it and the
window of it that is published. A `record` call reads the clock before it takes the lock, builds its document
under the lock and writes it after the lock is released. Of the two systems at the end of this file, the first
takes the last two apart, with any number of calls between them, and the second the first two. A restart
restores the journal before the new manager does anything else. Texts of times go through `time.RFC3339`, a
parameter like `unicode.IsSpace`. -/

namespace PitCrew.Autoscaler.Diagnostics
open Base

def journalCapacity : Nat := 64
def journalMaximumBytes : Nat := 16384
def evidenceMaximumRunes : Nat := 160
def identityMaximumRunes : Nat := 128
def maxOccurrenceCount : Int := 2147483647

def diagnosticsSchemaVersion : Int := 3
def previousDiagnosticsSchemaVersion : Int := 2
def legacyDiagnosticsSchemaVersion : Int := 1

inductive JournalSubsystem where
  | recovery
  | other (text : String)
  deriving DecidableEq, Repr

inductive JournalOperation where
  | managerStart
  | managerShutdown
  | desiredStateApply
  | workerLaunch
  | workerExit
  | registrationCleanup
  | journalRestore
  | other (text : String)
  deriving DecidableEq, Repr

inductive JournalOutcome where
  | succeeded
  | failed
  | timedOut
  | retryScheduled
  | blocked
  | recovered
  | unknown
  | other (text : String)
  deriving DecidableEq, Repr

inductive JournalReason where
  | none
  | recovered
  | unknown
  | other (text : String)
  deriving DecidableEq, Repr

inductive HealthKind where
  | none
  | docker
  | github
  deriving DecidableEq, Repr

structure ManagerEvent where
  sequence : Int
  managerInstanceID : String
  observedAt : String
  firstObservedAt : String
  lastObservedAt : String
  occurrenceCount : Int
  subsystem : JournalSubsystem
  operation : JournalOperation
  target : Option String := none
  outcome : JournalOutcome
  durationMilliseconds : Option Int := none
  attempt : Option Int := none
  consecutiveFailures : Option Int := none
  retryAt : Option String := none
  reason : JournalReason
  evidence : Option String := none
  deriving DecidableEq, Repr

structure JournalDocument where
  schemaVersion : Int
  highestSequence : Int
  droppedEvents : Int
  evictedEvents : Int
  rejectedEvents : Int
  unclassifiedEvents : Int
  events : List ManagerEvent
  deriving DecidableEq, Repr

structure DiagnosticsObservation where
  subsystem : JournalSubsystem
  operation : JournalOperation
  target : String := ""
  outcome : JournalOutcome
  reason : JournalReason
  evidence : String := ""
  duration : Option Int := none
  attempt : Int := 0
  retryAt : Option Int := none
  healthKind : HealthKind := .none
  deriving DecidableEq, Repr

structure SubsystemOperationEvidence where
  operation : JournalOperation
  observedAt : String
  durationMilliseconds : Option Int := none
  reason : JournalReason
  evidence : Option String
  deriving DecidableEq, Repr

structure SubsystemHealthState where
  consecutiveFailures : Int := 0
  observedAt : Int := 0
  retryAt : Option Int := none
  lastSuccess : Option SubsystemOperationEvidence := none
  lastFailure : Option SubsystemOperationEvidence := none
  observed : Bool := false
  deriving DecidableEq, Repr

structure DiagnosticsRecorder where
  instanceID : String
  path : String
  events : List ManagerEvent := []
  highestSequence : Int := 0
  evictedEvents : Int := 0
  rejectedEvents : Int := 0
  unclassifiedEvents : Int := 0
  restoreFailed : Bool := false
  persistFailed : Bool := false
  docker : SubsystemHealthState := {}
  github : SubsystemHealthState := {}
  deriving DecidableEq, Repr

def diagnosticsJournalFileName : String := "operation-journal.json"

def newDiagnosticsRecorder (stateDirectory instanceID : String) : DiagnosticsRecorder where
  instanceID
  path := if stateDirectory ≠ "" then stateDirectory ++ "/" ++ diagnosticsJournalFileName else ""

/-! ## Events -/

def normalizeManagerEvent (event : ManagerEvent) : ManagerEvent :=
  { event with
    firstObservedAt := if event.firstObservedAt = "" then event.observedAt else event.firstObservedAt
    lastObservedAt := if event.lastObservedAt = "" then event.observedAt else event.lastObservedAt
    occurrenceCount := if event.occurrenceCount = 0 then 1 else event.occurrenceCount }

def validJournalEvent (rfc : Rfc3339) (event : ManagerEvent) : Bool :=
  if event.sequence < 1 ∨ event.managerInstanceID = "" ∨ event.observedAt = "" ∨ event.subsystem = .other "" ∨
      event.operation = .other "" ∨ event.outcome = .other "" ∨ event.reason = .other "" then false
  else
    match rfc.parse event.observedAt, rfc.parse event.firstObservedAt, rfc.parse event.lastObservedAt with
    | some observedAt, some firstObservedAt, some lastObservedAt =>
      1 ≤ event.occurrenceCount ∧ event.occurrenceCount ≤ maxOccurrenceCount ∧ firstObservedAt ≤ lastObservedAt ∧
        observedAt = lastObservedAt
    | _, _, _ => false

def boundedOccurrenceSum (left right : Int) : Int :=
  if left ≥ maxOccurrenceCount ∨ right ≥ maxOccurrenceCount - left then maxOccurrenceCount else left + right

def journalOutcomeCoalescible : JournalOutcome → Bool
  | .failed | .timedOut | .blocked | .retryScheduled | .unknown => true
  | _ => false

def sameJournalEventScope (left right : ManagerEvent) : Bool :=
  left.subsystem = right.subsystem ∧ left.operation = right.operation ∧ left.target = right.target

/-- The search for an event to coalesce with, from below an index down. -/
def coalescibleBelow (events : List ManagerEvent) (event : ManagerEvent) : Nat → Option Nat
  | 0 => none
  | index + 1 =>
    match events[index]? with
    | none => none
    | some previous =>
      if sameJournalEventScope previous event = false then coalescibleBelow events event index
      else if previous.outcome = event.outcome ∧ previous.reason = event.reason then some index
      else none

def coalescibleJournalEventIndex (events : List ManagerEvent) (event : ManagerEvent) : Option Nat :=
  if journalOutcomeCoalescible event.outcome then coalescibleBelow events event events.length else none

def coalesceJournalEvent (events : List ManagerEvent) (event : ManagerEvent) : List ManagerEvent :=
  let event := normalizeManagerEvent event
  match coalescibleJournalEventIndex events event with
  | none => events ++ [event]
  | some index =>
    match events[index]? with
    | none => events ++ [event]
    | some previous =>
      let previous := normalizeManagerEvent previous
      events.eraseIdx index ++
        [{ event with
          firstObservedAt := previous.firstObservedAt
          occurrenceCount := boundedOccurrenceSum previous.occurrenceCount event.occurrenceCount }]

/-- The search for an unresolved recovery event, from below an index down. -/
def unresolvedRecoveryBelow (events : List ManagerEvent) : Nat → Option Nat
  | 0 => none
  | index + 1 =>
    match events[index]? with
    | none => none
    | some event =>
      if event.subsystem ≠ .recovery then unresolvedRecoveryBelow events index
      else
        match event.outcome with
        | .recovered => none
        | .blocked | .failed | .timedOut | .retryScheduled => some index
        | _ => unresolvedRecoveryBelow events index

def unresolvedRecoveryEventIndex (events : List ManagerEvent) : Option Nat :=
  unresolvedRecoveryBelow events events.length

/-- Drops the first event, or the second where the first is the unresolved recovery. -/
def dropOldestJournalEvent (events : List ManagerEvent) : List ManagerEvent :=
  events.eraseIdx (if unresolvedRecoveryEventIndex events = some 0 ∧ events.length > 1 then 1 else 0)

/-- The loop that drops events beyond the capacity and counts them. Every round drops one, so the number of
    events is fuel enough. -/
def evictBeyond : Nat → List ManagerEvent → Int → List ManagerEvent × Int
  | 0, events, evicted => (events, evicted)
  | fuel + 1, events, evicted =>
    if events.length > journalCapacity then evictBeyond fuel (dropOldestJournalEvent events) (evicted + 1)
    else (events, evicted)

/-! ## Texts -/

def boundedDuration (duration : Int) : Int := min (max (duration.tdiv 1000000) 0) 86400000

def boundedIdentity (isSpace : Char → Bool) (value : String) : String :=
  String.ofList ((trim isSpace value).toList.take identityMaximumRunes)

def optionalIdentity (isSpace : Char → Bool) (value : String) : Option String :=
  let bounded := boundedIdentity isSpace value
  if bounded = "" then none else some bounded

/-- The characters of an evidence other than letters and digits that are kept. -/
def evidencePunctuation : List Char := " .,_()'-".toList

/-- The words of a text in which the only white space is the blank. -/
def evidenceWords (text : List Char) : List (List Char) := (text.splitOn ' ').filter (· ≠ [])

def sanitizedEvidence (text : String) : Option String :=
  if text = "" then none
  else
    let safe := text.toList.map fun symbol =>
      if symbol.isAlphanum ∨ symbol ∈ evidencePunctuation then symbol else ' '
    let collapsed := [' '].intercalate (evidenceWords safe)
    let collapsed := collapsed.dropWhile (· ∈ evidencePunctuation)
    let collapsed := ((collapsed.take evidenceMaximumRunes).reverse.dropWhile (· = ' ')).reverse
    if collapsed = [] then none else some (String.ofList collapsed)

namespace DiagnosticsRecorder

/-! ## Recording -/

section Record
variable (rfc : Rfc3339) (isSpace : Char → Bool)

/-- The health of a subsystem after an observation, and whether it has just recovered. -/
def observeHealth (state : SubsystemHealthState) (observation : DiagnosticsObservation) (now : Int) :
    SubsystemHealthState × Bool :=
  let evidence : SubsystemOperationEvidence :=
    { operation := observation.operation
      observedAt := rfc.format now
      durationMilliseconds := observation.duration.map boundedDuration
      reason := observation.reason
      evidence := sanitizedEvidence observation.evidence }
  let state := { state with observed := true, observedAt := now }
  match observation.outcome with
  | .succeeded | .recovered =>
    ({ state with
      consecutiveFailures := 0
      retryAt := none
      lastSuccess := some { evidence with reason := .none } }, state.consecutiveFailures > 0)
  | .failed | .timedOut =>
    let reason := if evidence.reason = .other "" ∨ evidence.reason = .none then .unknown else evidence.reason
    ({ state with
      consecutiveFailures := state.consecutiveFailures + 1
      lastFailure := some { evidence with reason }
      retryAt := observation.retryAt }, false)
  | _ => (state, false)

def updateHealthLocked (r : DiagnosticsRecorder) (observation : DiagnosticsObservation) (now : Int) :
    DiagnosticsRecorder × Bool :=
  match observation.healthKind with
  | .docker =>
    let (docker, recovered) := observeHealth rfc r.docker observation now
    ({ r with docker }, recovered)
  | .github =>
    let (github, recovered) := observeHealth rfc r.github observation now
    ({ r with github }, recovered)
  | .none => (r, false)

def failureCountLocked (r : DiagnosticsRecorder) : HealthKind → Int
  | .docker => r.docker.consecutiveFailures
  | .github => r.github.consecutiveFailures
  | .none => -1

def journalWorthy (observation : DiagnosticsObservation) : Bool :=
  match observation.outcome with
  | .failed | .timedOut | .blocked | .retryScheduled | .recovered | .unknown => true
  | _ =>
    match observation.operation with
    | .managerStart | .managerShutdown | .desiredStateApply | .workerLaunch | .workerExit | .registrationCleanup
    | .journalRestore => true
    | .other _ => false

def buildEventLocked (r : DiagnosticsRecorder) (observation : DiagnosticsObservation) (now : Int) :
    DiagnosticsRecorder × ManagerEvent :=
  let r := { r with highestSequence := r.highestSequence + 1 }
  let reason := if observation.reason = .other "" then .none else observation.reason
  let failures := r.failureCountLocked observation.healthKind
  (r,
    { sequence := r.highestSequence
      managerInstanceID := boundedIdentity isSpace r.instanceID
      observedAt := rfc.format now
      firstObservedAt := rfc.format now
      lastObservedAt := rfc.format now
      occurrenceCount := 1
      subsystem := observation.subsystem
      operation := observation.operation
      target := optionalIdentity isSpace observation.target
      outcome := observation.outcome
      durationMilliseconds := observation.duration.map boundedDuration
      attempt := if observation.attempt > 0 then some (min observation.attempt 1000) else none
      consecutiveFailures := if failures ≥ 0 then some (min failures 1000) else none
      retryAt := observation.retryAt.map rfc.format
      reason := if observation.outcome = .succeeded then .none else reason
      evidence := sanitizedEvidence observation.evidence })

def appendLocked (r : DiagnosticsRecorder) (event : ManagerEvent) : DiagnosticsRecorder :=
  let events := coalesceJournalEvent r.events event
  let (events, evictedEvents) := evictBeyond events.length events r.evictedEvents
  { r with events, evictedEvents }

def documentLocked (r : DiagnosticsRecorder) : JournalDocument where
  schemaVersion := diagnosticsSchemaVersion
  highestSequence := r.highestSequence
  droppedEvents := r.evictedEvents + r.rejectedEvents + r.unclassifiedEvents
  evictedEvents := r.evictedEvents
  rejectedEvents := r.rejectedEvents
  unclassifiedEvents := r.unclassifiedEvents
  events := r.events

/-- An operation that succeeded after failures is journaled as a recovery. -/
def asRecovery (observation : DiagnosticsObservation) : DiagnosticsObservation :=
  { observation with
    outcome := .recovered
    reason := .recovered
    evidence :=
      if observation.evidence = "" then "operation recovered after consecutive failures" else observation.evidence }

/-- The part of `record` under the lock: the recorder after it and, for a journaled observation, the event and
    the document to be written. -/
def record (r : DiagnosticsRecorder) (observation : DiagnosticsObservation) (now : Int) :
    DiagnosticsRecorder × Option (ManagerEvent × JournalDocument) :=
  let (r, recovered) := r.updateHealthLocked rfc observation now
  if journalWorthy observation || recovered then
    let observation := if recovered ∧ observation.outcome = .succeeded then asRecovery observation else observation
    let (r, event) := r.buildEventLocked rfc isSpace observation now
    let r := r.appendLocked event
    (r, some (event, r.documentLocked))
  else (r, none)

end Record

/-! ## Restoring -/

end DiagnosticsRecorder

inductive JournalFile where
  | absent
  | malformed
  | document (document : JournalDocument)
  deriving DecidableEq, Repr

namespace DiagnosticsRecorder

section Restore
variable (rfc : Rfc3339) (isSpace : Char → Bool)

def rejectJournal (r : DiagnosticsRecorder) : DiagnosticsRecorder :=
  { r with restoreFailed := true, rejectedEvents := r.rejectedEvents + 1 }

/-- The evicted, rejected and unclassified events that a document accounts for. -/
def restoredCounts (document : JournalDocument) : Int × Int × Int :=
  if document.schemaVersion = diagnosticsSchemaVersion then
    let evicted := max document.evictedEvents 0
    let rejected := max document.rejectedEvents 0
    let unclassified := max document.unclassifiedEvents 0
    let classified := evicted + rejected + unclassified
    if document.droppedEvents ≠ classified ∨ document.evictedEvents < 0 ∨ document.rejectedEvents < 0 ∨
        document.unclassifiedEvents < 0 then
      (evicted, rejected + 1, unclassified + max (document.droppedEvents - classified) 0)
    else (evicted, rejected, unclassified)
  else (0, 0, max document.droppedEvents 0)

/-- The recorder with the events and the counts of a document of a supported schema. -/
def restoreDocument (r : DiagnosticsRecorder) (document : JournalDocument) : DiagnosticsRecorder :=
  let (evicted, rejected, unclassified) := restoredCounts document
  let events :=
    if document.schemaVersion = legacyDiagnosticsSchemaVersion then document.events.map normalizeManagerEvent
    else document.events
  let highest := events.foldl (fun highest event => max highest event.sequence) (max document.highestSequence 0)
  let validEvents := events.filter (validJournalEvent rfc)
  let rejected := rejected + (events.length - validEvents.length : Nat)
  let validEvents := validEvents.insertionSort fun a b => a.sequence ≤ b.sequence
  let retained := validEvents.foldl coalesceJournalEvent []
  let (retained, evicted) := evictBeyond retained.length retained evicted
  { r with
    events := retained
    highestSequence := highest
    evictedEvents := evicted
    rejectedEvents := rejected
    unclassifiedEvents := unclassified }

def restoreObservation : DiagnosticsObservation :=
  { subsystem := .recovery
    operation := .journalRestore
    outcome := .succeeded
    reason := .none
    evidence := "restored durable operation evidence after manager restart" }

def supportedSchema (document : JournalDocument) : Bool :=
  document.schemaVersion = diagnosticsSchemaVersion ∨ document.schemaVersion = previousDiagnosticsSchemaVersion ∨
    document.schemaVersion = legacyDiagnosticsSchemaVersion

/-- The end of `restore`: it records that it has restored events, or only writes the document. -/
def recordRestore (r : DiagnosticsRecorder) (now : Int) : DiagnosticsRecorder × Option Int × Option JournalDocument :=
  if r.events.length > 0 then
    match r.record rfc isSpace restoreObservation now with
    | (r, some (event, document)) => (r, some event.sequence, some document)
    | (r, none) => (r, none, none)
  else (r, none, some r.documentLocked)

/-- `restore`, with what reading the file gave (`none` if that failed): the recorder, the sequence number of the
    event it records and the document it writes. -/
def restore (r : DiagnosticsRecorder) (read : Option JournalFile) (now : Int) :
    DiagnosticsRecorder × Option Int × Option JournalDocument :=
  if r.path = "" then (r, none, none)
  else
    match read with
    | none | some .malformed => (r.rejectJournal, none, none)
    | some .absent => (r, none, none)
    | some (.document document) =>
      if supportedSchema document = false then (r.rejectJournal, none, none)
      else (r.restoreDocument rfc document).recordRestore rfc isSpace now

end Restore

end DiagnosticsRecorder

/-! ## The published window -/

inductive JournalStatus where
  | current
  | truncated
  | unavailable
  deriving DecidableEq, Repr

structure ManagerOperationJournal where
  status : JournalStatus
  capacity : Int
  highestSequence : Option Int := none
  droppedEvents : Int
  evictedEvents : Int
  rejectedEvents : Int
  unclassifiedEvents : Int
  events : List ManagerEvent
  deriving DecidableEq, Repr

def JournalSubsystem.text : JournalSubsystem → String
  | .recovery => "recovery"
  | .other text => text

def JournalOperation.text : JournalOperation → String
  | .managerStart => "manager-start"
  | .managerShutdown => "manager-shutdown"
  | .desiredStateApply => "desired-state-apply"
  | .workerLaunch => "worker-launch"
  | .workerExit => "worker-exit"
  | .registrationCleanup => "registration-cleanup"
  | .journalRestore => "journal-restore"
  | .other text => text

def JournalOutcome.text : JournalOutcome → String
  | .succeeded => "succeeded"
  | .failed => "failed"
  | .timedOut => "timed-out"
  | .retryScheduled => "retry-scheduled"
  | .blocked => "blocked"
  | .recovered => "recovered"
  | .unknown => "unknown"
  | .other text => text

def JournalReason.text : JournalReason → String
  | .none => "none"
  | .recovered => "recovered"
  | .unknown => "unknown"
  | .other text => text

def JournalStatus.text : JournalStatus → String
  | .current => "current"
  | .truncated => "truncated"
  | .unavailable => "unavailable"

open Json in
def ManagerEvent.encode (event : ManagerEvent) : List Char :=
  object
    [field "sequence" (int event.sequence), field "managerInstanceId" (string event.managerInstanceID),
      field "observedAt" (string event.observedAt), field "firstObservedAt" (string event.firstObservedAt),
      field "lastObservedAt" (string event.lastObservedAt), field "occurrenceCount" (int event.occurrenceCount),
      field "subsystem" (string event.subsystem.text), field "operation" (string event.operation.text),
      field "target" (optional string event.target), field "outcome" (string event.outcome.text),
      field "durationMilliseconds" (optional int event.durationMilliseconds),
        field "attempt" (optional int event.attempt),
      field "consecutiveFailures" (optional int event.consecutiveFailures),
        field "retryAt" (optional string event.retryAt),
      field "reason" (string event.reason.text), field "evidence" (optional string event.evidence)]

def encodeEvents (events : List ManagerEvent) : List Char := Json.array (events.map ManagerEvent.encode)

open Json in
def ManagerOperationJournal.envelope (journal : ManagerOperationJournal) (events : List Char) : List Char :=
  object
    [field "status" (string journal.status.text), field "capacity" (int journal.capacity),
      field "highestSequence" (optional int journal.highestSequence), field "droppedEvents" (int journal.droppedEvents),
      field "evictedEvents" (int journal.evictedEvents), field "rejectedEvents" (int journal.rejectedEvents),
      field "unclassifiedEvents" (int journal.unclassifiedEvents), field "events" events]

def ManagerOperationJournal.encode (journal : ManagerOperationJournal) : List Char :=
  journal.envelope (encodeEvents journal.events)

/-- The loop that drops events until the text of the rest is within the budget, and counts them. Every round
    drops one, so the number of events is fuel enough. -/
def dropBeyondBudget : Nat → List ManagerEvent → Int → List ManagerEvent × Int
  | 0, events, evicted => (events, evicted)
  | fuel + 1, events, evicted =>
    if events = [] ∨ Json.bytes (encodeEvents events) ≤ journalMaximumBytes then (events, evicted)
    else dropBeyondBudget fuel (dropOldestJournalEvent events) (evicted + 1)

def DiagnosticsRecorder.journal (r : DiagnosticsRecorder) : ManagerOperationJournal :=
  let (events, evicted) := dropBeyondBudget r.events.length r.events r.evictedEvents
  let projected : ManagerOperationJournal :=
    { status := .current
      capacity := journalCapacity
      highestSequence := events.getLast?.map (·.sequence)
      droppedEvents := evicted + r.rejectedEvents + r.unclassifiedEvents
      evictedEvents := evicted
      rejectedEvents := r.rejectedEvents
      unclassifiedEvents := r.unclassifiedEvents
      events }
  if events = [] ∧ r.restoreFailed then
    if projected.rejectedEvents = 0 then
      { projected with
        status := .unavailable
        highestSequence := none
        rejectedEvents := 1
        droppedEvents := projected.droppedEvents + 1 }
    else { projected with status := .unavailable, highestSequence := none }
  else if projected.rejectedEvents > 0 then { projected with status := .truncated }
  else projected

/-! ## Concurrent calls -/

/-- A call that has built its document and not yet written it. `overtaken` says that a document built later has
    been written in the meantime. -/
structure JournalCall where
  document : JournalDocument
  overtaken : Bool := false
  deriving DecidableEq, Repr

def JournalCall.overtake (c : JournalCall) : JournalCall := { c with overtaken := true }

/-- A manager's recorder, if one runs, with the calls in progress in the order in which they built their
    documents. -/
structure JournalSystem where
  file : JournalFile
  recorder : Option DiagnosticsRecorder := none
  calls : List JournalCall := []
  deriving DecidableEq, Repr

inductive JournalEvent where
  | record (observation : DiagnosticsObservation) (now : Int)
  | write (call : Nat)
  | restart (instanceID : String) (now : Int)

namespace JournalSystem

variable (rfc : Rfc3339) (isSpace : Char → Bool) (stateDirectory : String)

/-- `persist` of a document, whose write succeeds. -/
def persist (r : DiagnosticsRecorder) (file : JournalFile) (document : JournalDocument) :
    DiagnosticsRecorder × JournalFile :=
  if r.path = "" then (r, file) else ({ r with persistFailed := false }, .document document)

/-- The calls that are left when one of them writes: those before it are overtaken. -/
def written (calls : List JournalCall) (call : Nat) : List JournalCall :=
  (calls.take call).map JournalCall.overtake ++ calls.drop (call + 1)

/-- One step and the sequence number that it assigns, if any. A new manager starts only while no call is in
    progress. -/
def step (s : JournalSystem) : JournalEvent → JournalSystem × Option Int
  | .record observation now =>
    match s.recorder with
    | none => (s, none)
    | some r =>
      match r.record rfc isSpace observation now with
      | (r, none) => ({ s with recorder := some r }, none)
      | (r, some (event, document)) =>
        ({ s with recorder := some r, calls := s.calls ++ [{ document }] }, some event.sequence)
  | .write call =>
    match s.recorder, s.calls[call]? with
    | some r, some c =>
      let (r, file) := persist r s.file c.document
      ({ file, recorder := some r, calls := written s.calls call }, none)
    | _, _ => (s, none)
  | .restart instanceID now =>
    if s.calls ≠ [] then (s, none)
    else
      match (newDiagnosticsRecorder stateDirectory instanceID).restore rfc isSpace (some s.file) now with
      | (r, sequence, none) => ({ s with recorder := some r }, sequence)
      | (r, sequence, some document) =>
        let (r, file) := persist r s.file document
        ({ s with recorder := some r, file }, sequence)

end JournalSystem

/-! ## Clock readings and the lock -/

/-- A `record` call that has read the clock and waits for the lock. -/
structure WaitingCall where
  observation : DiagnosticsObservation
  now : Int
  deriving DecidableEq, Repr

/-- The recorders of one manager after the other, with every document that one of them has built. -/
structure JournalRun where
  recorder : Option DiagnosticsRecorder := none
  waiting : List WaitingCall := []
  clock : Int := 0
  recordedAt : Int := 0
  documents : List JournalDocument := []
  deriving DecidableEq, Repr

inductive JournalRunEvent where
  | start (stateDirectory instanceID : String)
  /-- `restore`, which finds no file or one of the documents, whichever was written last. -/
  | restore (document : Option Nat) (now : Int)
  /-- A `record` call reads the clock. -/
  | call (observation : DiagnosticsObservation) (now : Int)
  | lock (call : Nat)

namespace JournalRun
variable (rfc : Rfc3339) (isSpace : Char → Bool)

/-- What `restore` reads. -/
def read (s : JournalRun) : Option Nat → JournalFile
  | none => .absent
  | some document =>
    match s.documents[document]? with
    | none => .absent
    | some document => .document document

def step (s : JournalRun) : JournalRunEvent → JournalRun × Unit
  | .start stateDirectory instanceID =>
    ({ s with recorder := some (newDiagnosticsRecorder stateDirectory instanceID), waiting := [] }, ())
  | .restore document now =>
    match s.recorder with
    | none => (s, ())
    | some r =>
      let (r, _, built) := r.restore rfc isSpace (some (s.read document)) now
      ({ s with
        recorder := some r
        clock := now
        recordedAt := max s.recordedAt now
        documents := built.toList ++ s.documents }, ())
  | .call observation now => ({ s with waiting := s.waiting ++ [{ observation, now }], clock := now }, ())
  | .lock call =>
    match s.recorder, s.waiting[call]? with
    | some r, some c =>
      let (r, built) := r.record rfc isSpace c.observation c.now
      ({ s with
        recorder := some r
        waiting := s.waiting.eraseIdx call
        recordedAt := max s.recordedAt c.now
        documents := (built.map (·.2)).toList ++ s.documents }, ())
    | _, _ => (s, ())

end JournalRun

/-! ## Any file -/

/-- What is done to the recorders of one manager after the other, in the order in which they take their locks. -/
inductive RecorderEvent where
  | start (stateDirectory instanceID : String)
  /-- `restore`, which may find any file or fail to read it. -/
  | restore (read : Option JournalFile) (now : Int)
  | record (observation : DiagnosticsObservation) (now : Int)

def recorderStep (rfc : Rfc3339) (isSpace : Char → Bool) (r : Option DiagnosticsRecorder) :
    RecorderEvent → Option DiagnosticsRecorder × Unit
  | .start stateDirectory instanceID => (some (newDiagnosticsRecorder stateDirectory instanceID), ())
  | .restore read now => (r.map fun r => (r.restore rfc isSpace read now).1, ())
  | .record observation now => (r.map fun r => (r.record rfc isSpace observation now).1, ())

end PitCrew.Autoscaler.Diagnostics
