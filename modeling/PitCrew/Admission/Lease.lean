import PitCrew.Base.Map

/-! # Leases

The records of the admission ledger (`manager/admission/lease.go`): a lease of units for one profile
and slot, the tombstone of a released lease, and the fence of a profile whose workers are being
adopted. Times are clock readings in nanoseconds. -/

namespace PitCrew.Admission
open Base

/-- The lifecycle state of a lease. A decoded document may hold another text (`unsupported`). -/
inductive LeaseStatus where
  | provisional
  | active
  | unsupported (text : String)
  deriving DecidableEq, Repr

structure Lease where
  profileID : String
  slotKey : String
  leaseID : String
  registrationName : String := ""
  units : Int
  status : LeaseStatus
  expiresAtUnixNano : Int := 0
  grantedAtSequence : Int
  activatedAtSequence : Int := 0
  deriving DecidableEq, Repr

/-- The key of the lease of a slot in the ledger: `leaseKey.String`. -/
def leaseKey (profileID slotKey : String) : String := profileID ++ String.singleton '/' ++ slotKey

/-- The identity that a grant numbered `sequence` gives the lease under `key`. -/
def leaseIDOf (key : String) (sequence : Int) : String := key ++ String.singleton '#' ++ toString sequence

/-- `Lease.key`. -/
def Lease.key (l : Lease) : String := leaseKey l.profileID l.slotKey

/-- Why a lease was released for good. A decoded document may hold another text (`other`). -/
inductive TombstoneReason where
  | released
  | expired
  | reconciledAbsent
  | restartDiscarded
  | other (text : String)
  deriving DecidableEq, Repr

structure Tombstone where
  profileID : String
  slotKey : String
  leaseID : String
  reason : TombstoneReason
  evidence : String := ""
  sequence : Int
  deriving DecidableEq, Repr

/-- A profile whose replacement manager has not completed its adoption pass. The pending slots are
    `none` for a nil slice, which only a decoded document can hold. -/
structure AdoptionFence where
  profileID : String
  pendingLeaseKeys : Option (List String)
  deriving DecidableEq, Repr

/-- The pending slots, a nil slice reading as an empty one. -/
def AdoptionFence.pending (f : AdoptionFence) : List String := f.pendingLeaseKeys.getD []

inductive WithholdingReason where
  | budgetExhausted
  | protectedReservation
  | fairShareContention
  | adoptionPending
  deriving DecidableEq, Repr

end PitCrew.Admission
