import PitCrew.Admission.Policy
import PitCrew.Base.Search
import Mathlib.Data.String.Basic

/-! # The durable state

The ledger that the coordinator persists, its consistency check and its store
(`manager/admission/state.go`, and the two functions of `coordinator.go` that work on a ledger alone).
Epoch, sequences and units are exact integers. A loop over a Go map takes the order in which it visits
the keys as a parameter. -/

namespace PitCrew.Admission
open Base

def stateSchemaVersion : Int := 3
def previousStateSchemaVersion : Int := 2

structure Decision where
  sequence : Int
  command : Command
  profileID : String
  granted : Bool
  failureCategory : ErrorCode := .none
  decidedAtUnixNano : Int
  deriving DecidableEq, Repr

structure DurableState where
  schemaVersion : Int
  epoch : Int := 0
  decisionSequence : Int := 0
  policy : HostPolicy := {}
  leases : Map String Lease := ∅
  tombstones : Map String Tombstone := ∅
  adoptionFences : Map String AdoptionFence := ∅
  lastDecision : Option Decision := none
  deriving DecidableEq

def newDurableState : DurableState := { schemaVersion := stateSchemaVersion }

namespace DurableState

/-- A copy shares nothing with the original. As a value it is the original, except that a nil list of
    pending slots is copied to an empty one. -/
def clone (s : DurableState) : DurableState :=
  { s with adoptionFences := s.adoptionFences.mapVals fun _ f => { f with pendingLeaseKeys := some f.pending } }

/-! ## Leases, tombstones and fences -/

def activeLeaseSlotKeys (leases : Map String Lease) (profileID : String) : List String :=
  sortMultiset ((leases.entries.filter fun e => e.2.profileID = profileID ∧ e.2.status = .active).map (·.2.slotKey))

/-- Removes a slot from the pending slots of its profile's fence, and says whether it was found. -/
def markLeaseAccountedForAdoption (s : DurableState) (profileID slotKey : String) : DurableState × Bool :=
  match s.adoptionFences.lookup profileID with
  | none => (s, false)
  | some fence =>
    match removeFound fence.pending slotKey with
    | (_, false) => (s, false)
    | (pending, true) =>
      let fence := { fence with pendingLeaseKeys := some pending }
      ({ s with adoptionFences := s.adoptionFences.insert profileID fence }, true)

/-- Replaces the lease under `key` by a tombstone with the next sequence. -/
def discard (reason : TombstoneReason) (s : DurableState) (key : String) (lease : Lease) : DurableState :=
  let sequence := s.decisionSequence + 1
  let tombstone : Tombstone :=
    { profileID := lease.profileID, slotKey := lease.slotKey, leaseID := lease.leaseID, reason, sequence }
  { s with
    decisionSequence := sequence
    leases := s.leases.erase key
    tombstones := s.tombstones.insert key tombstone }

def discardAll (reason : TombstoneReason) (s : DurableState) (leases : List (String × Lease)) : DurableState :=
  leases.foldl (fun s e => s.discard reason e.1 e.2) s

def maxTombstones : Nat := 4096

/-- Keeps the newest tombstones when there are too many. -/
def compactTombstones (o : RangeOrder String) (s : DurableState) : DurableState :=
  if s.tombstones.keys.card ≤ maxTombstones then s
  else { s with tombstones := s.tombstones.keepHeaviest o maxTombstones (·.sequence) }

/-- The provisional leases of a loaded document, in the order in which the loop visits them. -/
def restoredProvisionals (o : RangeOrder String) (s : DurableState) : List (String × Lease) :=
  (s.leases.entriesIn o).filter fun e => e.2.status = .provisional

/-- The document without its provisional leases, and whether it had any. -/
def discardRestoredProvisionals (o : RangeOrder String) (s : DurableState) : DurableState × Bool :=
  if s.restoredProvisionals o = [] then (s.clone, false)
  else ((s.clone.discardAll .restartDiscarded (s.restoredProvisionals o)).compactTombstones o, true)

/-! ## Validation -/

def validateLease (key : String) (l : Lease) : Except Err Unit := do
  reject (key ≠ l.key) (.corruptState (.leaseKey key l.key))
  reject (l.profileID = "" ∨ l.slotKey = "" ∨ l.units < 1) (.corruptState (.leaseIncomplete key))
  reject (l.registrationName ≠ "" ∧ registrationNamePattern l.registrationName = false)
    (.corruptState (.leaseRegistrationName key))
  reject (l.status ≠ .provisional ∧ l.status ≠ .active) (.corruptState (.leaseStatus key l.status))

def validateTombstone (key : String) (t : Tombstone) : Except Err Unit :=
  reject (key ≠ leaseKey t.profileID t.slotKey) (.corruptState (.tombstoneKey key (leaseKey t.profileID t.slotKey)))

/-- The pending slots of a fence, with the ones already seen. -/
def validatePending (s : DurableState) (profileID : String) : List String → List String → Except Err Unit
  | _, [] => .ok ()
  | seen, slotKey :: slots => do
    reject (slotKeyPattern slotKey = false) (.corruptState (.fencePendingInvalid profileID))
    reject (slotKey ∈ seen) (.corruptState (.fencePendingDuplicate profileID slotKey))
    reject ((s.leases.lookup (leaseKey profileID slotKey)).all (·.status ≠ .active))
      (.corruptState (.fencePendingNotActive profileID slotKey))
    validatePending s profileID (slotKey :: seen) slots

def validateFence (s : DurableState) (profileID : String) (f : AdoptionFence) : Except Err Unit := do
  reject (profileID ≠ f.profileID) (.corruptState (.fenceKey profileID f.profileID))
  reject (profileIDPattern profileID = false) (.corruptState .fenceProfileID)
  reject (s.policy.profile profileID = none) (.corruptState (.fenceProfileUnknown profileID))
  reject (f.pendingLeaseKeys = none) (.corruptState (.fencePendingMissing profileID))
  validatePending s profileID [] f.pending

def validateDecision (d : Decision) : Except Err Unit := do
  reject (d.sequence < 0) (.corruptState .decisionSequence)
  reject (d.command.isLeaseDecision = false) (.corruptState (.decisionCommand d.command))
  reject (profileIDPattern d.profileID = false) (.corruptState .decisionProfileID)
  reject (d.failureCategory.valid = false) (.corruptState (.decisionFailureCategory d.failureCategory))

/-- The consistency of a document. A policy of generation zero, that of a document from before any
    policy, is not checked, and neither is whether the profile of a lease is still in the policy. -/
def validate (o : RangeOrder String) (s : DurableState) : Except Err Unit := do
  reject (s.schemaVersion ≠ stateSchemaVersion) (.corruptState (.schemaVersion s.schemaVersion))
  reject (s.epoch < 0 ∨ s.decisionSequence < 0) (.corruptState .negativeCounter)
  reject (s.policy.generation > 0 ∧ s.policy.validate.isOk = false) (.corruptState .policy)
  checkAll (fun e => validateLease e.1 e.2) (s.leases.entriesIn o)
  checkAll (fun e => validateTombstone e.1 e.2) (s.tombstones.entriesIn o)
  checkAll (fun e => s.validateFence e.1 e.2) (s.adoptionFences.entriesIn o)
  checkAll (fun e => reject (e.1 ∈ s.tombstones) (.corruptState (.leaseAndTombstone e.1))) (s.leases.entriesIn o)
  checkAll validateDecision s.lastDecision.toList

/-- What `Load` turns a decoded document into before it is checked: the fences of the previous schema
    get the active slots of their profiles. -/
def upgrade (s : DurableState) : DurableState :=
  if s.schemaVersion = previousStateSchemaVersion then
    { s with
      adoptionFences := s.adoptionFences.mapVals fun profileID f =>
        { f with pendingLeaseKeys := some (activeLeaseSlotKeys s.leases profileID) }
      schemaVersion := stateSchemaVersion }
  else s

end DurableState

/-! ## The store -/

/-- The stored document, if there is one. The encoding of a document is taken to read back as the
    document, and a save to replace the whole document or to leave it. -/
structure Store where
  document : Option DurableState := none
  deriving DecidableEq

def Store.load (o : RangeOrder String) (s : Store) : Except Err (Option DurableState) :=
  match s.document with
  | none => .ok none
  | some document =>
    match document.upgrade.validate o with
    | .error e => .error e
    | .ok () => .ok (some document.upgrade)

def Store.save (s : Store) (succeeds : Bool) (document : DurableState) : Except Err Store :=
  if succeeds then .ok { s with document := some document } else .error .store

end PitCrew.Admission
