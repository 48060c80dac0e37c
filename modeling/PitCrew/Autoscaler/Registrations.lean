import PitCrew.Autoscaler.Scaler

/-! # Ledgers at work

The functions of a runner scaler that keep its ledgers (`manager/autoscaler/scaler.go`): launch intent,
registration cleanup, registration fences and host lease releases, and those that remove a registration or
release a lease through them. A ledger is changed in memory first and then written; the two are one step for
fences, which a mutex of their own keeps together. -/

namespace PitCrew.Autoscaler
open Base

section
variable (cfg : ScalerConfig)

/-! ## Launch intent -/

/-- Writes the intent and takes it over, as three functions do. -/
def saveLaunchIntent (record : LaunchIntentRecord) : ScalerProg Bool := do
  if ← saveFile fun w => { w with intentFile := some record } then
    ScalerProg.modify fun s => { s with pendingLaunchIntent := some record, launchIntentStateError := false }
    return true
  else
    ScalerProg.modify fun s => { s with launchIntentStateError := true }
    return false

def beginLaunchIntent (runnerName : String) : ScalerProg Bool := do
  let now ← ScalerProg.now
  saveLaunchIntent
    { targetKey := cfg.targetKey
      runnerName
      attempts := 1
      lastAttemptAt := cfg.rfc.format now
      nextAttemptAt := cfg.rfc.format (now + registrationOperationRetryDelay 1) }

def updateLaunchIntentRunnerID (runnerID : Int) : ScalerProg Bool := do
  match ← ScalerProg.gets (·.pendingLaunchIntent) with
  | none => return false
  | some record => saveLaunchIntent { record with runnerID }

def prepareLaunchIntentRetry (record : LaunchIntentRecord) (now : Int) : ScalerProg Bool :=
  let attempts := countAttempt record.attempts
  saveLaunchIntent
    { record with
      attempts
      lastAttemptAt := cfg.rfc.format now
      nextAttemptAt := cfg.rfc.format (now + registrationOperationRetryDelay attempts) }

def clearLaunchIntent : ScalerProg Bool := do
  if ← saveFile fun w => { w with intentFile := none } then
    ScalerProg.modify fun s => { s with pendingLaunchIntent := none, launchIntentStateError := false }
    return true
  else
    ScalerProg.modify fun s => { s with launchIntentStateError := true }
    return false

/-- The registration of the intent, from the time on at which its retry is due. -/
def recoverLaunchRegistration (record : LaunchIntentRecord) (now : Int) : ScalerProg Bool := do
  if ← prepareLaunchIntentRetry cfg record now then
    match ← findRunnerByName record.runnerName with
    | none => return false
    | some none => clearLaunchIntent
    | some (some id) =>
      if (← removeRunner id .intent) = .removed then clearLaunchIntent else return false
  else return false

/-- The intent, unless a tracked runner has its name: then it is to be cleared. -/
def Scaler.launchIntentLive (s : Scaler) (record : LaunchIntentRecord) : Bool :=
  (sortedList s.runners.keys).any fun key => (s.runners.lookup key).any (·.runnerName = record.runnerName)

def retryPendingLaunchIntent : ScalerProg Bool := do
  match ← ScalerProg.gets fun s => s.pendingLaunchIntent.map fun record => (record, s.launchIntentLive record) with
  | none => return true
  | some (record, live) =>
    if live then clearLaunchIntent
    else
      match cfg.rfc.parse record.nextAttemptAt with
      | none => return false
      | some nextAttemptAt =>
        let now ← ScalerProg.now
        if now < nextAttemptAt then return true else recoverLaunchRegistration cfg record now

def removeLaunchIntentRegistration : ScalerProg Bool := do
  match ← ScalerProg.gets (·.pendingLaunchIntent) with
  | none => return false
  | some record =>
    if record.runnerID < 1 then return false
    else if (← removeRunner record.runnerID .launch) = .removed then clearLaunchIntent
    else return false

/-! ## Registration cleanup -/

def persistPendingRegistrations (records : Map String RegistrationCleanupRecord) : ScalerProg Bool := do
  let ok ← saveFile fun w => { w with cleanupFile := records }
  ScalerProg.modify fun s => { s with cleanupStateError := !ok }
  return ok

/-- The record of the runner's registration: a new one, or the pending one with the runner's identity. -/
def cleanupRecord (s : Scaler) (runner : RunnerRecord) (now : Int) : RegistrationCleanupRecord :=
  match s.pendingRegistrations.lookup runner.key with
  | none =>
    { targetKey := cfg.targetKey
      slotKey := runner.key
      runnerID := runner.runnerID
      runnerName := runner.runnerName
      containerID := runner.containerID
      containerName := runner.container
      attempts := 1
      firstFailedAt := cfg.rfc.format now
      lastAttemptAt := cfg.rfc.format now
      nextAttemptAt := cfg.rfc.format (now + registrationOperationRetryDelay 1) }
  | some record =>
    { record with
      runnerID := runner.runnerID
      runnerName := runner.runnerName
      containerID := runner.containerID
      containerName := runner.container }

/-- `beginPendingRegistrationCleanup`: the record, and whether it was saved. -/
def beginPendingRegistrationCleanup (runner : RunnerRecord) : ScalerProg (RegistrationCleanupRecord × Bool) := do
  let (record, records) ← Prog.atomic fun w c =>
    let record := cleanupRecord cfg w.scaler runner c.now
    let records := w.scaler.pendingRegistrations.insert record.slotKey record
    ((record, records), w.update fun s => { s with pendingRegistrations := records })
  return (record, ← persistPendingRegistrations records)

/-- `preparePendingRegistrationRetry`: the record with one attempt more, if it is still there and is saved. -/
def preparePendingRegistrationRetry (slotKey : String) : ScalerProg (Option RegistrationCleanupRecord) := do
  let prepared ← Prog.atomic fun w c =>
    match w.scaler.pendingRegistrations.lookup slotKey with
    | none => (none, w)
    | some current =>
      let attempts := countAttempt current.attempts
      let current : RegistrationCleanupRecord :=
        { current with
          attempts
          lastAttemptAt := cfg.rfc.format c.now
          nextAttemptAt := cfg.rfc.format (c.now + registrationOperationRetryDelay attempts) }
      let records := w.scaler.pendingRegistrations.insert current.slotKey current
      (some (current, records), w.update fun s => { s with pendingRegistrations := records })
  match prepared with
  | none => return none
  | some (current, records) =>
    if ← persistPendingRegistrations records then return some current else return none

def resolvePendingRegistration (slotKey : String) : ScalerProg Unit := do
  let records ← Prog.locally fun w =>
    let records := w.scaler.pendingRegistrations.erase slotKey
    (if (w.scaler.pendingRegistrations.lookup slotKey).isSome then some records else none,
      w.update fun s => { s with pendingRegistrations := records })
  match records with
  | none => return
  | some records =>
    let _ ← persistPendingRegistrations records

def attemptPendingRegistrationCleanup (record : RegistrationCleanupRecord) : ScalerProg Bool := do
  if (← removeRunner record.runnerID .cleanup) = .removed then
    resolvePendingRegistration record.slotKey
    return true
  else return false

/-- `removeRegistrationOrEnqueue`: by the launch intent if there is no container, and else by a cleanup record,
    which takes over from the intent. -/
def removeRegistrationOrEnqueue (runner : RunnerRecord) : ScalerProg Bool := do
  if runner.containerID = "" then removeLaunchIntentRegistration
  else
    let (record, saved) ← beginPendingRegistrationCleanup cfg runner
    if saved then
      if ← clearLaunchIntent then attemptPendingRegistrationCleanup record else return false
    else return false

/-- A live runner has the registration of the record, or its container. -/
def Scaler.registrationHeldByLiveRunner (s : Scaler) (record : RegistrationCleanupRecord) : Bool :=
  (sortedList s.runners.keys).any fun key =>
    (s.runners.lookup key).any fun runner =>
      !runner.registrationRemoved && (runner.runnerID = record.runnerID ||
        (record.containerID ≠ "" && runner.containerID = record.containerID))

def retryRegistrations : List RegistrationCleanupRecord → ScalerProg Bool
  | [] => return true
  | record :: records => do
    if ← ScalerProg.gets (·.registrationHeldByLiveRunner record) then
      resolvePendingRegistration record.slotKey
      retryRegistrations records
    else
      let now ← ScalerProg.now
      if registrationCleanupDue cfg.rfc record now then
        match ← preparePendingRegistrationRetry cfg record.slotKey with
        | none =>
          let _ ← retryRegistrations records
          return false
        | some current =>
          if (← removeRunner current.runnerID .retry) = .removed then
            resolvePendingRegistration current.slotKey
            retryRegistrations records
          else
            let _ ← retryRegistrations records
            return false
      else retryRegistrations records

def retryPendingRegistrations : ScalerProg Bool := do
  let pending ← ScalerProg.gets fun s => (s.pendingRegistrations.entriesIn .sorted).map (·.2)
  retryRegistrations cfg pending

/-! ## Registration fences -/

/-- The fences in memory, what they mean for the runner of the slot, and the write of the file. -/
def ScalerWorld.putFences (w : ScalerWorld) (fences : Map String RegistrationFenceRecord) (slotKey : String)
    (retryAt : Option Int) (outcome : Outcome) : Bool × ScalerWorld :=
  let runners := match w.scaler.runners.lookup slotKey with
    | none => w.scaler.runners
    | some runner => w.scaler.runners.insert slotKey { runner with fenceRetryAt := retryAt }
  let scaler : Scaler := { w.scaler with pendingFences := fences, runners }
  match outcome with
  | .done => (true, { w with scaler := { scaler with fenceStateError := false }, fenceFile := fences })
  | .failed => (false, { w with scaler := { scaler with fenceStateError := true } })
  | .unsure => (false, { w with scaler := { scaler with fenceStateError := true }, fenceFile := fences })

/-- `beginPendingRegistrationFence`: whether the fence was saved. -/
def beginPendingRegistrationFence (runner : RunnerRecord) (purpose : FencePurpose) : ScalerProg Bool :=
  Prog.atomic fun w c =>
    let record : RegistrationFenceRecord := (w.scaler.pendingFences.lookup runner.key).getD
      { targetKey := cfg.targetKey
        slotKey := runner.key
        purpose
        runnerID := runner.runnerID
        runnerName := runner.runnerName
        containerID := runner.containerID
        containerName := runner.container
        attempts := 1
        firstFailedAt := cfg.rfc.format c.now
        lastAttemptAt := cfg.rfc.format c.now
        nextAttemptAt := cfg.rfc.format (c.now + registrationOperationRetryDelay 1) }
    -- a time that cannot be read is the zero time
    w.putFences (w.scaler.pendingFences.insert record.slotKey record) record.slotKey
      (some ((cfg.rfc.parse record.nextAttemptAt).getD 0)) c.outcome

/-- `preparePendingRegistrationFenceRetry`: whether the fence is still there and its next attempt was saved. -/
def preparePendingRegistrationFenceRetry (slotKey : String) : ScalerProg Bool :=
  Prog.atomic fun w c =>
    match w.scaler.pendingFences.lookup slotKey with
    | none => (false, w)
    | some current =>
      let attempts := countAttempt current.attempts
      let retryAt := c.now + registrationOperationRetryDelay attempts
      let current : RegistrationFenceRecord :=
        { current with
          attempts
          lastAttemptAt := cfg.rfc.format c.now
          nextAttemptAt := cfg.rfc.format retryAt }
      w.putFences (w.scaler.pendingFences.insert current.slotKey current) current.slotKey (some retryAt) c.outcome

def resolvePendingRegistrationFence (slotKey : String) : ScalerProg Unit :=
  Prog.atomic fun w c =>
    if (w.scaler.pendingFences.lookup slotKey).isSome then
      ((), (w.putFences (w.scaler.pendingFences.erase slotKey) slotKey none c.outcome).2)
    else
      ((), w.update fun s =>
        { s with
          runners := match s.runners.lookup slotKey with
            | none => s.runners
            | some runner => s.runners.insert slotKey { runner with fenceRetryAt := none } })

/-! ## Host lease releases -/

def persistPendingHostLeaseReleases (records : Map String HostLeaseCleanupRecord) : ScalerProg Bool :=
  Prog.atomic fun w c =>
    let written : ScalerWorld := { w with releaseFile := records }
    match c.outcome with
    | .done => (true, written)
    | .failed => (false, w)
    | .unsure => (false, written)

/-- `beginPendingHostLeaseReleaseLocked`: the pending release of the key, a new one if there is none. -/
def ScalerWorld.beginRelease (w : ScalerWorld) (runnerKey hostSlotKey : String) (now : Int) :
    (HostLeaseCleanupRecord × Map String HostLeaseCleanupRecord) × ScalerWorld :=
  let record : HostLeaseCleanupRecord := (w.scaler.pendingHostLeaseReleases.lookup hostSlotKey).getD
    { targetKey := cfg.targetKey, runnerKey, hostSlotKey, firstFailedAt := cfg.rfc.format now }
  let records := w.scaler.pendingHostLeaseReleases.insert record.hostSlotKey record
  ((record, records), w.update fun s => { s with pendingHostLeaseReleases := records })

def markPendingHostLeaseReleaseAttempt (record : HostLeaseCleanupRecord) : ScalerProg Unit := do
  let records ← Prog.atomic fun w c =>
    let current := (w.scaler.pendingHostLeaseReleases.lookup record.hostSlotKey).getD record
    let current : HostLeaseCleanupRecord :=
      { current with
        firstFailedAt := if current.firstFailedAt = "" then cfg.rfc.format c.now else current.firstFailedAt
        attempts := current.attempts + 1
        lastAttemptAt := cfg.rfc.format c.now
        nextAttemptAt := cfg.rfc.format (c.now + hostLeaseReleaseRetryDelay) }
    let records := w.scaler.pendingHostLeaseReleases.insert current.hostSlotKey current
    (records, w.update fun s => { s with pendingHostLeaseReleases := records })
  let _ ← persistPendingHostLeaseReleases records

def resolvePendingHostLeaseRelease (hostSlotKey : String) : ScalerProg Unit := do
  let records ← Prog.locally fun w =>
    let records := w.scaler.pendingHostLeaseReleases.erase hostSlotKey
    (if (w.scaler.pendingHostLeaseReleases.lookup hostSlotKey).isSome then some records else none,
      w.update fun s => { s with pendingHostLeaseReleases := records })
  match records with
  | none => return
  | some records =>
    let _ ← persistPendingHostLeaseReleases records

def attemptPendingHostLeaseRelease (record : HostLeaseCleanupRecord) : ScalerProg Bool := do
  if ← HostAdmission.release record.hostSlotKey then
    resolvePendingHostLeaseRelease record.hostSlotKey
    return true
  else
    markPendingHostLeaseReleaseAttempt cfg record
    return false

def releaseHostLeaseOrEnqueue (runnerKey hostSlotKey : String) : ScalerProg Bool := do
  if hostSlotKey = "" then return true
  else
    let (record, records) ← Prog.atomic fun w c => w.beginRelease cfg runnerKey hostSlotKey c.now
    let _ ← persistPendingHostLeaseReleases records
    attemptPendingHostLeaseRelease cfg record

def retryHostLeaseReleases : List HostLeaseCleanupRecord → ScalerProg Bool
  | [] => return true
  | record :: records => do
    let now ← ScalerProg.now
    if hostLeaseReleaseDue cfg.rfc record now then
      let ok ← attemptPendingHostLeaseRelease cfg record
      let rest ← retryHostLeaseReleases records
      return ok && rest
    else retryHostLeaseReleases records

def retryPendingHostLeaseReleases : ScalerProg Bool := do
  let pending ← ScalerProg.gets fun s => (s.pendingHostLeaseReleases.entriesIn .sorted).map (·.2)
  retryHostLeaseReleases cfg pending

/-- `settleStoppedRunner`: the release of the runner's lease is on disk before the runner is forgotten. The
    mutex that serialises settlements only takes interleavings away, and is left out. -/
def settleStoppedRunner (runnerKey : String) : ScalerProg Bool := do
  let pending ← Prog.atomic fun w c =>
    match w.scaler.runners.lookup runnerKey with
    | none => (none, w)
    | some current =>
      if current.hostSlotKey = "" ∨ current.hostLeaseReleased = true then
        (none, w.update fun s => { s with runners := s.runners.erase runnerKey })
      else
        let begun := w.beginRelease cfg runnerKey current.hostSlotKey c.now
        (some (begun.1, current.hostSlotKey), begun.2)
  match pending with
  | none => return true
  | some ((record, records), hostSlotKey) =>
    if ← persistPendingHostLeaseReleases records then
      ScalerProg.modify fun s =>
        match s.runners.lookup runnerKey with
        | none => s
        | some current =>
          if current.hostSlotKey = hostSlotKey ∧ current.hostLeaseReleased = false then
            { s with runners := s.runners.erase runnerKey }
          else s
      attemptPendingHostLeaseRelease cfg record
    else return false

end
end PitCrew.Autoscaler
