import PitCrew.Autoscaler.Retry
import Mathlib.Data.String.Basic

/-! # Retry ledgers of a runner scaler

The records that a runner scaler keeps on disk for work it could not finish: runner registrations to remove
(`manager/autoscaler/registration_cleanup.go`), registrations of live runners to fence
(`registration_fence.go`), the launch under way (`launch_intent.go`) and host leases to release
(`host_lease_cleanup.go`). Exit evidence that a record carries for publication is left out. -/

namespace PitCrew.Autoscaler

structure RegistrationCleanupRecord where
  targetKey : String
  slotKey : String
  runnerID : Int
  runnerName : String
  containerID : String
  containerName : String
  attempts : Int
  firstFailedAt : String
  lastAttemptAt : String
  nextAttemptAt : String
  deriving DecidableEq, Repr

inductive FencePurpose where
  | scaleDown
  | stale
  | shutdown
  deriving DecidableEq, Repr

structure RegistrationFenceRecord where
  targetKey : String
  slotKey : String
  purpose : FencePurpose
  runnerID : Int
  runnerName : String
  containerID : String
  containerName : String
  attempts : Int
  firstFailedAt : String
  lastAttemptAt : String
  nextAttemptAt : String
  deriving DecidableEq, Repr

structure LaunchIntentRecord where
  targetKey : String
  runnerName : String
  runnerID : Int := 0
  attempts : Int
  lastAttemptAt : String
  nextAttemptAt : String
  deriving DecidableEq, Repr

structure HostLeaseCleanupRecord where
  targetKey : String
  runnerKey : String
  hostSlotKey : String
  attempts : Int := 0
  firstFailedAt : String
  lastAttemptAt : String := ""
  nextAttemptAt : String := ""
  deriving DecidableEq, Repr

/-- A record without a time is due; `unreadable` says whether one whose time cannot be read is. -/
def due (rfc : Rfc3339) (unreadable : Bool) (nextAttemptAt : String) (now : Int) : Bool :=
  if nextAttemptAt = "" then true
  else match rfc.parse nextAttemptAt with
    | none => unreadable
    | some time => !(now < time)

def registrationCleanupDue (rfc : Rfc3339) (record : RegistrationCleanupRecord) (now : Int) : Bool :=
  due rfc true record.nextAttemptAt now

def registrationFenceDue (rfc : Rfc3339) (record : RegistrationFenceRecord) (now : Int) : Bool :=
  due rfc false record.nextAttemptAt now

def hostLeaseReleaseDue (rfc : Rfc3339) (record : HostLeaseCleanupRecord) (now : Int) : Bool :=
  due rfc true record.nextAttemptAt now

/-- One attempt more, as far as attempts are counted. -/
def countAttempt (attempts : Int) : Int :=
  if attempts < maxRegistrationCleanupAttempts then attempts + 1 else attempts

end PitCrew.Autoscaler
