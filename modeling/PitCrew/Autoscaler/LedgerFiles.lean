import PitCrew.Autoscaler.Ledgers
import PitCrew.Autoscaler.Retirement
import PitCrew.Base.Check
import PitCrew.Base.Map

/-! # Files of the retry ledgers

Where a runner scaler keeps its ledgers, what it writes and what it accepts when it reads them back (the stores
of `manager/autoscaler/registration_cleanup.go`, `registration_fence.go`, `launch_intent.go` and
`host_lease_cleanup.go`, and the functions by which `newRunnerScaler` restores them). JSON goes through a
parameter. The memory stores of tests are left out. -/

namespace PitCrew.Autoscaler
open Base

/-! ## Paths -/

/-- What `filepath.Join` puts together. -/
structure LedgerPath where
  stateDirectory : String
  directory : String
  file : String
  deriving DecidableEq, Repr

section Paths
variable (pkg : Packages)

def ledgerName (targetKey : String) : String :=
  let name := sanitizeText pkg targetKey 48
  if name = "" then "target" else name

/-- The first four bytes of the digest, two hexadecimal digits each. -/
def ledgerDigest (targetKey : String) : String := String.ofList ((pkg.hexDigest targetKey).toList.take 8)

def ledgerPath (directory stateDirectory targetKey : String) : LedgerPath where
  stateDirectory := stateDirectory
  directory := directory
  file := ledgerName pkg targetKey ++ "-" ++ ledgerDigest pkg targetKey ++ ".json"

def registrationCleanupPath : String → String → LedgerPath := ledgerPath pkg "registration-cleanup"

def registrationFencePath : String → String → LedgerPath := ledgerPath pkg "registration-fence"

def launchIntentPath : String → String → LedgerPath := ledgerPath pkg "launch-intent"

def hostLeaseCleanupPath : String → String → LedgerPath := ledgerPath pkg "host-lease-cleanup"

def ledgerPaths (stateDirectory targetKey : String) : List LedgerPath :=
  [registrationCleanupPath pkg stateDirectory targetKey, registrationFencePath pkg stateDirectory targetKey,
    launchIntentPath pkg stateDirectory targetKey, hostLeaseCleanupPath pkg stateDirectory targetKey]

end Paths

/-! ## Documents -/

structure LedgerDocument (ρ : Type) where
  schemaVersion : Int
  managerContractVersion : Int
  targetKey : String
  records : List ρ
  deriving DecidableEq, Repr

/-- A fence as it is written, with its purpose as a text. -/
structure RegistrationFenceEntry extends RegistrationCleanupRecord where
  purpose : String
  deriving DecidableEq, Repr

structure LaunchIntentDocument extends LaunchIntentRecord where
  schemaVersion : Int
  managerContractVersion : Int
  deriving DecidableEq, Repr

def FencePurpose.text : FencePurpose → String
  | .scaleDown => "scale-down"
  | .stale => "stale"
  | .shutdown => "shutdown"

def FencePurpose.ofText (text : String) : Option FencePurpose :=
  [FencePurpose.scaleDown, .stale, .shutdown].find? (·.text = text)

def RegistrationFenceRecord.entry (r : RegistrationFenceRecord) : RegistrationFenceEntry :=
  { r with purpose := r.purpose.text }

/-- `encoding/json` for the documents of one type. -/
structure Codec (δ : Type) where
  marshal : δ → String
  unmarshal : String → Option δ

def Codec.RoundTrips {δ : Type} (codec : Codec δ) :
    Prop := ∀ document, codec.unmarshal (codec.marshal document) = some document

structure LedgerJson where
  cleanup : Codec (LedgerDocument RegistrationCleanupRecord)
  fence : Codec (LedgerDocument RegistrationFenceEntry)
  intent : Codec LaunchIntentDocument
  release : Codec (LedgerDocument HostLeaseCleanupRecord)

structure LedgerJson.RoundTrips (json : LedgerJson) : Prop where
  cleanup : json.cleanup.RoundTrips
  fence : json.fence.RoundTrips
  intent : json.intent.RoundTrips
  release : json.release.RoundTrips

inductive LedgerTime where
  | firstFailedAt
  | lastAttemptAt
  | nextAttemptAt
  deriving DecidableEq, Repr

inductive LedgerFault where
  | decode
  | schemaVersion (got : Int)
  | managerContractVersion (least got : Int)
  | target (got wanted : String)
  | incompatible
  | incomplete (index : Nat)
  | negativeAttempts (index : Nat)
  | unsupportedPurpose (index : Nat)
  | invalidTimestamp (index : Nat) (field : Option LedgerTime)
  | duplicateSlot (slot : String)
  | intentTimestamp
  deriving DecidableEq, Repr

def registrationCleanupDocumentContractVersion : Int := 10
def registrationFenceContractVersion : Int := 22
def launchIntentContractVersion : Int := 22
def hostLeaseCleanupDocumentContractVersion : Int := 17

/-! ## Writing -/

section Saves
variable {ρ : Type} (targetKey : String)

/-- The file after `save`: without records there is none. -/
def saveRecords (codec : Codec (LedgerDocument ρ)) (contractVersion : Int) (slot : ρ → String) (records : List ρ) :
    Option String :=
  if records.isEmpty then none
  else some (codec.marshal
    { schemaVersion := 1
      managerContractVersion := contractVersion
      targetKey
      records := records.insertionSort fun a b => slot a ≤ slot b })

variable (json : LedgerJson)

def saveRegistrationCleanup (records : List RegistrationCleanupRecord) : Option String :=
  saveRecords targetKey json.cleanup registrationCleanupDocumentContractVersion (·.slotKey) records

def saveRegistrationFences (records : List RegistrationFenceRecord) : Option String :=
  saveRecords targetKey json.fence registrationFenceContractVersion (·.slotKey) (records.map (·.entry))

def saveHostLeaseCleanup (records : List HostLeaseCleanupRecord) : Option String :=
  saveRecords targetKey json.release hostLeaseCleanupDocumentContractVersion (·.hostSlotKey) records

/-- The file after `save`, or after `clear` if there is no intent. -/
def saveLaunchIntentFile (record : Option LaunchIntentRecord) : Option String :=
  record.map fun record => json.intent.marshal
    { record with schemaVersion := 1, managerContractVersion := launchIntentContractVersion }

end Saves

/-! ## Reading -/

section Loads
variable (json : LedgerJson) (rfc : Rfc3339) (targetKey : String)

def readable (value : String) : Prop := value = "" ∨ (rfc.parse value).isSome = true

instance (value : String) : Decidable (readable rfc value) := inferInstanceAs (Decidable (_ ∨ _))

def clampAttempts (attempts : Int) : Int := min attempts maxRegistrationCleanupAttempts

/-- The loop over the records of a document, from an index on and with the slots already seen. -/
def parseRecords {ρ κ : Type} (slot : ρ → String) (check : Nat → ρ → Except LedgerFault κ) :
    Nat → List String → List ρ → Except LedgerFault (List κ)
  | _, _, [] => .ok []
  | index, seen, record :: records => do
    let loaded ← check index record
    reject (slot record ∈ seen) (.duplicateSlot (slot record))
    let rest ← parseRecords slot check (index + 1) (slot record :: seen) records
    return loaded :: rest

/-- The identity that both ledgers of registrations ask for is not complete. -/
def RegistrationCleanupRecord.incomplete (record : RegistrationCleanupRecord) : Prop :=
  record.targetKey ≠ targetKey ∨ record.slotKey = "" ∨ record.runnerID < 1 ∨ record.runnerName = "" ∨
    record.containerID = ""

instance (record : RegistrationCleanupRecord) : Decidable (record.incomplete targetKey) :=
  inferInstanceAs (Decidable (_ ∨ _ ∨ _ ∨ _ ∨ _))

def checkRegistrationCleanup (index : Nat) (record : RegistrationCleanupRecord) :
    Except LedgerFault RegistrationCleanupRecord := do
  reject (record.incomplete targetKey) (.incomplete index)
  reject (record.attempts < 0) (.negativeAttempts index)
  reject (¬ readable rfc record.firstFailedAt) (.invalidTimestamp index (some .firstFailedAt))
  reject (¬ readable rfc record.lastAttemptAt) (.invalidTimestamp index (some .lastAttemptAt))
  reject (¬ readable rfc record.nextAttemptAt) (.invalidTimestamp index (some .nextAttemptAt))
  return { record with attempts := clampAttempts record.attempts }

def parseRegistrationCleanupDocument (document : LedgerDocument RegistrationCleanupRecord) :
    Except LedgerFault (List RegistrationCleanupRecord) := do
  reject (document.schemaVersion ≠ 1) (.schemaVersion document.schemaVersion)
  reject (document.managerContractVersion < 10 ∨ document.managerContractVersion > managerContractVersion)
    (.managerContractVersion 10 document.managerContractVersion)
  reject (document.targetKey ≠ targetKey) (.target document.targetKey targetKey)
  parseRecords (·.slotKey) (checkRegistrationCleanup rfc targetKey) 0 [] document.records

def checkRegistrationFence (index : Nat) (entry : RegistrationFenceEntry) :
    Except LedgerFault RegistrationFenceRecord := do
  reject (entry.incomplete targetKey ∨ entry.attempts < 0) (.incomplete index)
  match FencePurpose.ofText entry.purpose with
  | none => .error (.unsupportedPurpose index)
  | some purpose =>
    reject (¬ readable rfc entry.firstFailedAt ∨ ¬ readable rfc entry.lastAttemptAt ∨
      ¬ readable rfc entry.nextAttemptAt)
      (.invalidTimestamp index none)
    return { entry with purpose, attempts := clampAttempts entry.attempts }

def parseRegistrationFenceDocument (document : LedgerDocument RegistrationFenceEntry) :
    Except LedgerFault (List RegistrationFenceRecord) := do
  reject (document.schemaVersion ≠ 1 ∨ document.managerContractVersion < registrationFenceContractVersion ∨
    document.managerContractVersion > managerContractVersion ∨ document.targetKey ≠ targetKey) .incompatible
  parseRecords (·.slotKey) (checkRegistrationFence rfc targetKey) 0 [] document.records

def checkHostLeaseCleanup (index : Nat) (record : HostLeaseCleanupRecord) :
    Except LedgerFault HostLeaseCleanupRecord := do
  reject (record.targetKey ≠ targetKey ∨ record.runnerKey = "" ∨ record.hostSlotKey = "") (.incomplete index)
  return record

def parseHostLeaseCleanupDocument (document : LedgerDocument HostLeaseCleanupRecord) :
    Except LedgerFault (List HostLeaseCleanupRecord) := do
  reject (document.schemaVersion ≠ 1) (.schemaVersion document.schemaVersion)
  reject (document.managerContractVersion < hostLeaseCleanupDocumentContractVersion ∨
    document.managerContractVersion > managerContractVersion)
    (.managerContractVersion hostLeaseCleanupDocumentContractVersion document.managerContractVersion)
  reject (document.targetKey ≠ targetKey) (.target document.targetKey targetKey)
  parseRecords (·.hostSlotKey) (checkHostLeaseCleanup targetKey) 0 [] document.records

def loadRecords {ρ κ : Type} (codec : Codec (LedgerDocument ρ))
    (parse : LedgerDocument ρ → Except LedgerFault (List κ)) (file : Option String) : Except LedgerFault (List κ) :=
  match file with
  | none => .ok []
  | some data =>
    match codec.unmarshal data with
    | none => .error .decode
    | some document => parse document

def loadRegistrationCleanup (file : Option String) : Except LedgerFault (List RegistrationCleanupRecord) :=
  loadRecords json.cleanup (parseRegistrationCleanupDocument rfc targetKey) file

def loadRegistrationFences (file : Option String) : Except LedgerFault (List RegistrationFenceRecord) :=
  loadRecords json.fence (parseRegistrationFenceDocument rfc targetKey) file

def loadHostLeaseCleanup (file : Option String) : Except LedgerFault (List HostLeaseCleanupRecord) :=
  loadRecords json.release (parseHostLeaseCleanupDocument targetKey) file

def checkLaunchIntent (document : LaunchIntentDocument) : Except LedgerFault LaunchIntentRecord := do
  reject (document.schemaVersion ≠ 1 ∨ document.managerContractVersion < launchIntentContractVersion ∨
    document.managerContractVersion > managerContractVersion ∨ document.targetKey ≠ targetKey ∨
    document.runnerName = "" ∨ document.runnerID < 0 ∨ document.attempts < 1) .incompatible
  reject (¬ readable rfc document.lastAttemptAt ∨ ¬ readable rfc document.nextAttemptAt) .intentTimestamp
  return { document with attempts := clampAttempts document.attempts }

def loadLaunchIntent (file : Option String) : Except LedgerFault (Option LaunchIntentRecord) :=
  match file with
  | none => .ok none
  | some data =>
    match json.intent.unmarshal data with
    | none => .error .decode
    | some document => do
      let record ← checkLaunchIntent rfc targetKey document
      return some record

end Loads

/-! ## Restoring -/

def restoreRecords {ρ : Type} (slot : ρ → String) (records : List ρ) : Map String ρ :=
  Map.ofList (records.map fun record => (slot record, record))

def restorePendingRegistrations (records : List RegistrationCleanupRecord) : Map String RegistrationCleanupRecord :=
  restoreRecords (·.slotKey) (records.map fun record => { record with attempts := clampAttempts record.attempts })

def restorePendingFences (records : List RegistrationFenceRecord) : Map String RegistrationFenceRecord :=
  restoreRecords (·.slotKey) records

def restorePendingHostLeaseReleases (records : List HostLeaseCleanupRecord) : Map String HostLeaseCleanupRecord :=
  restoreRecords (·.hostSlotKey) records

def pendingRecords {ρ : Type} (pending : Map String ρ) : List ρ := (pending.entriesIn .sorted).map (·.2)

end PitCrew.Autoscaler
