import PitCrew.Admission.Lease

/-! # Commands, errors and error codes

The failures of the coordinator with what their messages report, the sentinel errors they wrap, and
the stable codes of `manager/admission/protocol.go`. -/

namespace PitCrew.Admission

/-- The operations of the wire protocol; a decoded document may name another one. -/
inductive Command where
  | applyPolicy
  | setDemand
  | acquire
  | bindRegistration
  | adopt
  | beginAdoption
  | completeAdoption
  | renew
  | activate
  | release
  | reconcile
  | status
  | unknown (text : String)
  deriving DecidableEq, Repr

def Command.isLeaseDecision : Command → Bool
  | .acquire | .adopt | .renew | .activate | .release | .reconcile => true
  | _ => false

inductive IdentityField where
  | profileID
  | slotKey
  | registrationName
  | namespaceName
  deriving DecidableEq, Repr

inductive PolicyFault where
  | generation
  | totalUnits
  | fingerprint (name : String)
  | negativeCapacity
  | marginWithoutCapacity
  | marginAtLeastCapacity
  | effectiveCapacity (total effective capacity margin : Int)
  | profileIdentity (profileID : String)
  | unitCost (profileID : String)
  | reservedUnits (profileID : String)
  | duplicateProfile (profileID : String)
  | unitCostExceedsTotal (profileID : String) (unitCost total : Int)
  | reservedExceedsTotal (profileID : String) (reserved total : Int)
  | reservedSumExceedsTotal (reserved total : Int)
  deriving DecidableEq, Repr

inductive EvidenceFault where
  | tooLong (limit : Nat)
  | controlCharacter
  deriving DecidableEq, Repr

/-- The stable error codes; a decoded document may hold another text. -/
inductive ErrorCode where
  | none
  | unknownProfile
  | duplicateLease
  | leaseNotFound
  | leaseExpired
  | leaseNotProvisional
  | budgetExceeded
  | budgetExhausted
  | protectedReservation
  | fairShareContention
  | adoptionPending
  | evidenceRequired
  | evidenceInvalid
  | invalidPolicy
  | invalidIdentity
  | stalePolicy
  | corruptState
  | requestTooLarge
  | malformedRequest
  | protocolMismatch
  | unknown (text : String)
  deriving DecidableEq, Repr

/-- `ErrorCode.valid`. -/
def ErrorCode.valid : ErrorCode → Bool
  | .unknown _ => false
  | _ => true

inductive StateFault where
  | schemaVersion (got : Int)
  | negativeCounter
  | policy
  | leaseKey (key identity : String)
  | leaseIncomplete (key : String)
  | leaseRegistrationName (key : String)
  | leaseStatus (key : String) (status : LeaseStatus)
  | tombstoneKey (key identity : String)
  | fenceKey (key profileID : String)
  | fenceProfileID
  | fenceProfileUnknown (profileID : String)
  | fencePendingMissing (profileID : String)
  | fencePendingInvalid (profileID : String)
  | fencePendingDuplicate (profileID slotKey : String)
  | fencePendingNotActive (profileID slotKey : String)
  | leaseAndTombstone (key : String)
  | decisionSequence
  | decisionCommand (command : Command)
  | decisionProfileID
  | decisionFailureCategory (code : ErrorCode)
  deriving DecidableEq, Repr

/-- A failure of an operation. `Acquire` returns the existing lease beside `duplicateLease`, and
    `store` is a document that could not be saved. -/
inductive Err where
  | unknownProfile
  | duplicateLease (existing : Lease)
  | leaseNotFound
  | leaseExpired
  | leaseNotProvisional
  | budgetExhausted
  | protectedReservation
  | fairShareContention
  | adoptionPending (unaccounted : Nat)
  | evidenceRequired
  | evidenceInvalid (fault : EvidenceFault)
  | invalidIdentity (field : IdentityField) (value : String)
  | registrationBound
  | invalidPolicy (fault : PolicyFault)
  | stalePolicy
  | negativeDemand (pending : Int)
  | corruptState (fault : StateFault)
  | store
  deriving DecidableEq, Repr

inductive Sentinel where
  | unknownProfile
  | duplicateLease
  | leaseNotFound
  | leaseExpired
  | leaseNotProvisional
  | budgetExceeded
  | budgetExhausted
  | protectedReservation
  | fairShareContention
  | adoptionPending
  | evidenceRequired
  | evidenceInvalid
  | invalidIdentity
  | invalidPolicy
  | stalePolicy
  | corruptState
  deriving DecidableEq, Repr

/-- The sentinels that a failure wraps; the three refusals of the budget wrap `ErrBudgetExceeded`. -/
def Err.wraps : Err → List Sentinel
  | .unknownProfile => [.unknownProfile]
  | .duplicateLease _ => [.duplicateLease]
  | .leaseNotFound => [.leaseNotFound]
  | .leaseExpired => [.leaseExpired]
  | .leaseNotProvisional => [.leaseNotProvisional]
  | .budgetExhausted => [.budgetExhausted, .budgetExceeded]
  | .protectedReservation => [.protectedReservation, .budgetExceeded]
  | .fairShareContention => [.fairShareContention, .budgetExceeded]
  | .adoptionPending _ => [.adoptionPending]
  | .evidenceRequired => [.evidenceRequired]
  | .evidenceInvalid _ => [.evidenceInvalid]
  | .invalidIdentity _ _ => [.invalidIdentity]
  | .registrationBound => [.invalidIdentity]
  | .invalidPolicy (.profileIdentity _) => [.invalidPolicy, .invalidIdentity]
  | .invalidPolicy _ => [.invalidPolicy]
  | .stalePolicy => [.stalePolicy]
  | .negativeDemand _ => []
  | .corruptState _ => [.corruptState]
  | .store => []

/-- `errors.Is`. -/
def Err.is (e : Err) (s : Sentinel) : Bool := e.wraps.contains s

/-- The code of the first listed sentinel that a failure wraps: `errorCodeForErr`. -/
def errorCodeForErr (e : Err) : ErrorCode :=
  if e.is .duplicateLease then .duplicateLease
  else if e.is .unknownProfile then .unknownProfile
  else if e.is .leaseNotFound then .leaseNotFound
  else if e.is .leaseExpired then .leaseExpired
  else if e.is .leaseNotProvisional then .leaseNotProvisional
  else if e.is .budgetExhausted then .budgetExhausted
  else if e.is .protectedReservation then .protectedReservation
  else if e.is .fairShareContention then .fairShareContention
  else if e.is .budgetExceeded then .budgetExceeded
  else if e.is .adoptionPending then .adoptionPending
  else if e.is .evidenceInvalid then .evidenceInvalid
  else if e.is .evidenceRequired then .evidenceRequired
  else if e.is .stalePolicy then .stalePolicy
  else if e.is .invalidIdentity then .invalidIdentity
  else if e.is .invalidPolicy then .invalidPolicy
  else if e.is .corruptState then .corruptState
  else .none

/-- A decision records the three refusals of the budget under their common code. -/
def durableDecisionErrorCode (e : Err) : ErrorCode :=
  if e.is .budgetExceeded then .budgetExceeded else errorCodeForErr e

/-- `withholdingReasonForError`. -/
def withholdingReasonForError (e : Err) : Option WithholdingReason :=
  if e.is .budgetExhausted then some .budgetExhausted
  else if e.is .protectedReservation then some .protectedReservation
  else if e.is .fairShareContention then some .fairShareContention
  else if e.is .adoptionPending then some .adoptionPending
  else none

theorem durableDecisionErrorCode_valid (e : Err) : (durableDecisionErrorCode e).valid = true := by
  cases e with
  | invalidPolicy fault => cases fault <;> rfl
  | _ => rfl

end PitCrew.Admission
