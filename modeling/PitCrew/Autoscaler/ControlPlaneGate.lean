import PitCrew.Autoscaler.Retirement

/-! # The rate gate of the control plane

The gate that every call to GitHub passes (`manager/autoscaler/control_plane_gate.go`, with the delays of
`manager.go` and the jitter of `backoff.go`): it paces the calls after a rate limit, and it keeps its state
in a file so that a restart does not shorten the wait. A method holds the gate's lock from its reading of
the clock to the end of its write, so each is one step. Times count from Go's zero time, which is the
deadline of a gate that waits for nothing; the first two bytes of a SHA-256 sum are a parameter. -/

namespace PitCrew.Autoscaler
open Base

/-! ## Delays -/

def registrationAccessSuccessInterval : Int := 60 * minute
def registrationAccessFailureInterval : Int := 5 * minute
def registrationAccessRateLimitBase : Int := 15 * minute
def registrationAccessMaxBackoff : Int := 60 * minute
def registrationAccessJitterWindow : Int := 5 * minute
def controlPlaneCrashRetryBase : Int := minute
def controlPlaneCrashRetryJitter : Int := 15 * second

section Delays
variable (sha256 : String → UInt8 × UInt8)

def deterministicRetryJitter (identity : String) (window : Int) : Int :=
  let windowSeconds := window.tdiv second
  if windowSeconds ≤ 0 then 0
  else
    let sum := sha256 identity
    let value : Int := (sum.1.toNat <<< 8 ||| sum.2.toNat : Nat)
    value.tmod windowSeconds * second

def registrationAccessJitter (profileID : String) : Int :=
  deterministicRetryJitter sha256 profileID registrationAccessJitterWindow

def registrationAccessNextDelay (profileID : String) (consecutiveFailures : Int) (rateLimited : Bool) : Int :=
  if consecutiveFailures ≤ 0 then registrationAccessSuccessInterval + registrationAccessJitter sha256 profileID
  else
    let delay :=
      if rateLimited then
        boundedExponentialBackoff registrationAccessRateLimitBase registrationAccessMaxBackoff consecutiveFailures
      else registrationAccessFailureInterval
    delay + registrationAccessJitter sha256 profileID

end Delays

/-! ## Results of operations -/

/-- The errors that `classifyFailure` looks for. -/
inductive KnownError where
  | gitHubRunnerAuthorization
  | gitHubRunnerRateLimited
  | gitHubRunnerNotFound
  | deadlineExceeded
  | canceled
  | runnerNotFound
  | jobStillRunning
  | notExist
  | permission
  deriving DecidableEq, Repr

/-- An error, with those that `errors.Is` finds in it. -/
structure OperationError where
  wraps : List KnownError
  message : String
  deriving DecidableEq, Repr

inductive FailureReason where
  | none
  | authorizationFailed
  | rateLimited
  | notFound
  | timeout
  | cancelled
  | conflict
  | unknown
  deriving DecidableEq, Repr

section Results
variable (lower : Char → Char)

/-- `strings.Contains`. -/
def containsText (text part : List Char) : Bool := text.tails.any part.isPrefixOf

def githubRateLimitMessage (err : OperationError) : Bool :=
  let message := err.message.toList.map lower
  containsText message "api rate limit exceeded".toList || containsText message "secondary rate limit".toList ||
    containsText message "429 too many requests".toList

def classifyFailure : Option OperationError → FailureReason
  | none => .none
  | some err =>
    if .gitHubRunnerAuthorization ∈ err.wraps then .authorizationFailed
    else if .gitHubRunnerRateLimited ∈ err.wraps then .rateLimited
    else if githubRateLimitMessage lower err then .rateLimited
    else if .gitHubRunnerNotFound ∈ err.wraps then .notFound
    else if .deadlineExceeded ∈ err.wraps then .timeout
    else if .canceled ∈ err.wraps then .cancelled
    else if .runnerNotFound ∈ err.wraps then .notFound
    else if .jobStillRunning ∈ err.wraps then .conflict
    else if .notExist ∈ err.wraps then .notFound
    else if .permission ∈ err.wraps then .authorizationFailed
    else .unknown

end Results

/-! ## The gate -/

structure ControlPlaneRetryState where
  schemaVersion : Int
  managerContractVersion : Int
  profileID : String
  credentialIdentity : String := ""
  consecutiveFailures : Int
  nextAttemptAt : String
  deriving DecidableEq, Repr

inductive ControlPlaneFile where
  | absent
  | malformed
  | state (state : ControlPlaneRetryState)
  deriving DecidableEq, Repr

structure ControlPlaneRateGate where
  path : String
  profileID : String
  credentialIdentity : String := "pat"
  inFlight : Nat := 0
  rateLimited : Bool := false
  consecutiveFailures : Int := 0
  nextAttemptAt : Int := 0
  deriving DecidableEq, Repr

inductive ControlPlaneError where
  | backoff (retryAt : Int)
  | save
  | clear
  deriving DecidableEq, Repr

inductive ControlPlaneLoadError where
  | unreadable
  | malformed
  | incompatible
  | nextAttemptAt
  | save
  deriving DecidableEq, Repr

namespace ControlPlaneRateGate
variable (sha256 : String → UInt8 × UInt8) (rfc : Rfc3339) (lower : Char → Char) (now : Int)

def crashRetryDelay (g : ControlPlaneRateGate) : Int :=
  controlPlaneCrashRetryBase + deterministicRetryJitter sha256 g.profileID controlPlaneCrashRetryJitter

def retryState (g : ControlPlaneRateGate) : ControlPlaneRetryState where
  schemaVersion := 1
  managerContractVersion := managerContractVersion
  profileID := g.profileID
  credentialIdentity := g.credentialIdentity
  consecutiveFailures := g.consecutiveFailures
  nextAttemptAt := rfc.format g.nextAttemptAt

/-- The file after a save, and whether the save reports success. -/
def saveLocked (g : ControlPlaneRateGate) (file : ControlPlaneFile) (write : Outcome) : ControlPlaneFile × Bool :=
  if g.path = "" then (file, true)
  else
    match write with
    | .done => (.state (g.retryState rfc), true)
    | .failed => (file, false)
    | .unsure => (.state (g.retryState rfc), false)

def clearLocked (g : ControlPlaneRateGate) (file : ControlPlaneFile) (write : Outcome) : ControlPlaneFile × Bool :=
  if g.path = "" then (file, true)
  else
    match write with
    | .done => (.absent, true)
    | .failed => (file, false)
    | .unsure => (.absent, false)

abbrev Result := ControlPlaneRateGate × ControlPlaneFile × Option ControlPlaneError

/-- The gate with the guard against a crash that the first operation of a quiet period sets. -/
def guarded (g : ControlPlaneRateGate) : ControlPlaneRateGate :=
  { g with rateLimited := false, nextAttemptAt := now + g.crashRetryDelay sha256 }

def limited (g : ControlPlaneRateGate) : ControlPlaneRateGate :=
  let consecutiveFailures :=
    if g.consecutiveFailures < maxRegistrationCleanupAttempts then g.consecutiveFailures + 1 else g.consecutiveFailures
  { g with
    rateLimited := true
    consecutiveFailures
    nextAttemptAt := now + registrationAccessNextDelay sha256 g.profileID consecutiveFailures true }

def before (g : ControlPlaneRateGate) (file : ControlPlaneFile) (write : Outcome) : Result :=
  if (g.rateLimited ∨ g.inFlight = 0) ∧ now < g.nextAttemptAt then (g, file, some (.backoff g.nextAttemptAt))
  else if g.inFlight = 0 then
    let g := g.guarded sha256 now
    let (file, saved) := g.saveLocked rfc file write
    if saved then ({ g with inFlight := g.inFlight + 1 }, file, none) else (g, file, some .save)
  else ({ g with inFlight := g.inFlight + 1 }, file, none)

def recordRateLimitLocked (g : ControlPlaneRateGate) (file : ControlPlaneFile) (write : Outcome) : Result :=
  let g := g.limited sha256 now
  let (file, saved) := g.saveLocked rfc file write
  (g, file, if saved then none else some .save)

def after (g : ControlPlaneRateGate) (file : ControlPlaneFile) (operationErr : Option OperationError)
    (write : Outcome) :
    Result :=
  let g := { g with inFlight := g.inFlight - 1 }
  if classifyFailure lower operationErr = .rateLimited then g.recordRateLimitLocked sha256 rfc now file write
  else if g.inFlight > 0 ∨ g.rateLimited then (g, file, none)
  else
    let (file, cleared) := g.clearLocked file write
    if cleared then ({ g with consecutiveFailures := 0, nextAttemptAt := 0 }, file, none)
    else (g, file, some .clear)

def observe (g : ControlPlaneRateGate) (file : ControlPlaneFile) (operationErr : Option OperationError)
    (write : Outcome) : Result :=
  if classifyFailure lower operationErr ≠ .rateLimited then (g, file, none)
  else g.recordRateLimitLocked sha256 rfc now file write

/-- The gate with the failures and the deadline that a file of its credential holds. -/
def restored (g : ControlPlaneRateGate) (file : ControlPlaneFile) (state : ControlPlaneRetryState) (nextAttemptAt : Int)
    (write : Outcome) : ControlPlaneRateGate × ControlPlaneFile × Option ControlPlaneLoadError :=
  let consecutiveFailures := min state.consecutiveFailures maxRegistrationCleanupAttempts
  let g := { g with consecutiveFailures, rateLimited := decide (consecutiveFailures > 0), nextAttemptAt }
  let maximum := now + g.crashRetryDelay sha256
  if g.rateLimited = false ∧ g.nextAttemptAt > maximum then
    let g := { g with nextAttemptAt := maximum }
    let (file, saved) := g.saveLocked rfc file write
    (g, file, if saved then none else some .save)
  else (g, file, none)

/-- Whether `load` takes the state in the file for one of this gate's profile. -/
def compatible (g : ControlPlaneRateGate) (state : ControlPlaneRetryState) : Bool :=
  ¬(state.schemaVersion ≠ 1 ∨ state.managerContractVersion < 22 ∨
    state.managerContractVersion > managerContractVersion ∨
    state.profileID ≠ g.profileID ∨ state.consecutiveFailures < 0 ∨ state.nextAttemptAt = "")

/-- `load`, where the file can be read or not. -/
def load (g : ControlPlaneRateGate) (file : ControlPlaneFile) (readable : Bool) (write : Outcome) :
    ControlPlaneRateGate × ControlPlaneFile × Option ControlPlaneLoadError :=
  if g.path = "" then (g, file, none)
  else if readable = false then (g, file, some .unreadable)
  else
    match file with
    | .absent => (g, file, none)
    | .malformed => (g, file, some .malformed)
    | .state state =>
      if g.compatible state = false then (g, file, some .incompatible)
      else
        let savedCredentialIdentity := if state.credentialIdentity = "" then "pat" else state.credentialIdentity
        if savedCredentialIdentity ≠ g.credentialIdentity then (g, file, none)
        else
          match rfc.parse state.nextAttemptAt with
          | none => (g, file, some .nextAttemptAt)
          | some nextAttemptAt => g.restored sha256 rfc now file state nextAttemptAt write

end ControlPlaneRateGate

/-! ## Operations and restarts -/

/-- The credential of a manager: a GitHub App with its client, or a personal access token. -/
def githubCredentialIdentity : Option String → String
  | some clientID => "app:" ++ clientID
  | none => "pat"

/-- What does not change from one manager of a profile to the next. -/
structure ControlPlaneSetting where
  sha256 : String → UInt8 × UInt8
  rfc : Rfc3339
  lower : Char → Char
  stateDirectory : String
  profileID : String

/-- The gate of the running manager, if there is one, and the operations that have passed `before` and not
    yet come to `after`. -/
structure ControlPlaneSystem where
  now : Int
  file : ControlPlaneFile := .absent
  gate : Option ControlPlaneRateGate := none
  operations : Nat := 0
  deriving DecidableEq, Repr

inductive ControlPlaneEvent where
  | tick (elapsed : Nat)
  | before (write : Outcome)
  | after (operationErr : Option OperationError) (write : Outcome)
  | observe (operationErr : Option OperationError) (write : Outcome)
  | restart (githubApp : Option String) (readable : Bool) (write : Outcome)
  deriving DecidableEq, Repr

inductive ControlPlaneReply where
  | idle
  | returned (err : Option ControlPlaneError)
  | loaded (err : Option ControlPlaneLoadError)
  deriving DecidableEq, Repr

namespace ControlPlaneSystem
variable (cfg : ControlPlaneSetting)

def newControlPlaneRateGate (githubApp : Option String) : ControlPlaneRateGate where
  path := cfg.stateDirectory ++ "/github-control-plane-retry.json"
  profileID := cfg.profileID
  credentialIdentity := githubCredentialIdentity githubApp

def step (s : ControlPlaneSystem) : ControlPlaneEvent → ControlPlaneSystem × ControlPlaneReply
  | .tick elapsed => ({ s with now := s.now + elapsed }, .idle)
  | .before write =>
    match s.gate with
    | none => (s, .idle)
    | some g =>
      let (g, file, err) := g.before cfg.sha256 cfg.rfc s.now s.file write
      ({ s with gate := some g, file, operations := if err = none then s.operations + 1 else s.operations },
        .returned err)
  | .after operationErr write =>
    match s.gate, s.operations with
    | some g, operations + 1 =>
      let (g, file, err) := g.after cfg.sha256 cfg.rfc cfg.lower s.now s.file operationErr write
      ({ s with gate := some g, file, operations }, .returned err)
    | _, _ => (s, .idle)
  | .observe operationErr write =>
    match s.gate with
    | none => (s, .idle)
    | some g =>
      let (g, file, err) := g.observe cfg.sha256 cfg.rfc cfg.lower s.now s.file operationErr write
      ({ s with gate := some g, file }, .returned err)
  | .restart githubApp readable write =>
    let (g, file, err) := (newControlPlaneRateGate cfg githubApp).load cfg.sha256 cfg.rfc s.now s.file readable write
    ({ s with gate := if err = none then some g else none, file, operations := 0 }, .loaded err)

end ControlPlaneSystem
end PitCrew.Autoscaler
