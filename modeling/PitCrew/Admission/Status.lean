import PitCrew.Admission.Coordinator

/-! # Status

The read-only view of the ledger (`Coordinator.Status`): the capacity of each profile is computed a
second time here, beside the decision that `Acquire` takes. -/

namespace PitCrew.Admission
open Base

structure ProfileAccounting where
  profileID : String
  unitCost : Int
  reservedUnits : Int
  borrowable : Bool
  profilePolicyFingerprint : String
  activeUnits : Int
  provisionalUnits : Int
  heldUnits : Int
  borrowedUnits : Int
  pendingUnits : Option Int
  withheldUnits : Option Int
  allocatableUnits : Int
  allocatableWorkers : Int
  theoreticalMaximumUnits : Int
  theoreticalMaximumWorkers : Int
  withholdingReason : Option WithholdingReason
  deriving DecidableEq, Repr

structure Snapshot where
  namespaceName : String
  epoch : Int
  decisionSequence : Int
  policy : HostPolicy
  capacityUnits : Int
  safetyMarginUnits : Int
  effectiveTotalUnits : Int
  hostPolicyFingerprint : String
  availableUnits : Int
  accounting : List ProfileAccounting
  leases : List Lease
  tombstones : List Tombstone
  adoptionFences : List AdoptionFence
  lastDecision : Option Decision
  deriving DecidableEq, Repr

structure ProfileCapacity where
  allocatableUnits : Int := 0
  allocatableWorkers : Int := 0
  theoreticalMaximumUnits : Int := 0
  theoreticalMaximumWorkers : Int := 0
  withholdingReason : Option WithholdingReason := none
  deriving DecidableEq, Repr

def sortedStateValues {ν : Type} (values : Map String ν) : List ν :=
  (sortedList values.keys).filterMap fun key => values.lookup key

namespace Coordinator

def demandIsKnown (c : Coordinator) (profileID : String) : Bool := profileID ∈ c.demandKnown

def withholding (c : Coordinator) (profileID : String) (profilePolicy : ProfilePolicy) (held : Map String Int) :
    Option WithholdingReason :=
  if c.state.adoptionFences.keys.card > 0 then some .adoptionPending
  else
    match c.evaluateAcquireLocked profileID profilePolicy held with
    | .error e => withholdingReasonForError e
    | .ok _ => none

def profileCapacityLocked (c : Coordinator) (profileID : String) (held : Map String Int) : ProfileCapacity :=
  match c.state.policy.profile profileID with
  | none => {}
  | some profilePolicy =>
    let protectedMaximum := (c.state.policy.profiles.map fun profile =>
      if profile.profileID ≠ profileID ∧ profile.borrowable = false then profile.reservedUnits else 0).sum
    let totalHeld := (c.state.policy.profiles.map fun profile => held.getD profile.profileID 0).sum
    let theoreticalUnits := max (c.state.policy.totalUnits - protectedMaximum) 0
    let currentProtected := c.protectedNonBorrowableLocked profileID held
    let currentFree := max (c.state.policy.totalUnits - totalHeld) 0
    let fenced := c.state.adoptionFences.keys.card > 0
    let ceiling := max (theoreticalUnits - held.getD profileID 0) 0
    let idleUnits := if fenced then 0 else min (max (currentFree - currentProtected) 0) ceiling
    let demanding := c.demandIsKnown profileID && 0 < c.demand.getD profileID 0
    let ownRemaining := min (max (profilePolicy.reservedUnits - held.getD profileID 0) 0) currentFree
    let fairAllocatable := (c.fairAllocatableUnitsLocked profileID held (max (currentFree - currentProtected) 0)).1
    let demandUnits := if fenced then 0 else min (max ownRemaining fairAllocatable) ceiling
    let withholdingReason := if demanding then c.withholding profileID profilePolicy held else none
    let allocatableUnits :=
      if withholdingReason.isSome then 0 else if demanding then demandUnits else idleUnits
    { allocatableUnits
      allocatableWorkers := allocatableUnits.tdiv profilePolicy.unitCost
      theoreticalMaximumUnits := theoreticalUnits
      theoreticalMaximumWorkers := theoreticalUnits.tdiv profilePolicy.unitCost
      withholdingReason }

def profileAccounting (c : Coordinator) (profilePolicy : ProfilePolicy) : ProfileAccounting :=
  let profileID := profilePolicy.profileID
  let heldByStatus (status : LeaseStatus) : Int :=
    c.state.leases.sumOf fun l => if l.profileID = profileID ∧ l.status = status then l.units else 0
  let active := heldByStatus .active
  let provisional := heldByStatus .provisional
  let held := active + provisional
  let capacity := c.profileCapacityLocked profileID c.heldUnitsByProfileLocked
  let pendingUnits :=
    if c.demandIsKnown profileID then some (c.demand.getD profileID 0 * profilePolicy.unitCost) else none
  { profileID
    unitCost := profilePolicy.unitCost
    reservedUnits := profilePolicy.reservedUnits
    borrowable := profilePolicy.borrowable
    profilePolicyFingerprint := profilePolicy.profilePolicyFingerprint
    activeUnits := active
    provisionalUnits := provisional
    heldUnits := held
    borrowedUnits := max (held - profilePolicy.reservedUnits) 0
    pendingUnits
    withheldUnits := pendingUnits
    allocatableUnits := capacity.allocatableUnits
    allocatableWorkers := capacity.allocatableWorkers
    theoreticalMaximumUnits := capacity.theoreticalMaximumUnits
    theoreticalMaximumWorkers := capacity.theoreticalMaximumWorkers
    withholdingReason := capacity.withholdingReason }

def snapshot (c : Coordinator) : Snapshot :=
  let policy := c.state.policy
  let accounting := policy.sortedProfileIDs.filterMap fun profileID =>
    (policy.profile profileID).map c.profileAccounting
  let totalHeld := (accounting.map (·.heldUnits)).sum
  { namespaceName := policy.namespaceName
    epoch := c.state.epoch
    decisionSequence := c.state.decisionSequence
    policy
    capacityUnits := policy.capacityUnits
    safetyMarginUnits := policy.safetyMarginUnits
    effectiveTotalUnits := policy.effectiveTotalUnits
    hostPolicyFingerprint := policy.hostPolicyFingerprint
    availableUnits := max (policy.effectiveTotalUnits - totalHeld) 0
    accounting
    leases := sortedStateValues c.state.leases
    tombstones := sortedStateValues c.state.tombstones
    adoptionFences := (sortedStateValues c.state.adoptionFences).map fun f =>
      { f with pendingLeaseKeys := some f.pending }
    lastDecision := c.state.lastDecision }

def status (c : Coordinator) (env : Env) : Coordinator × Except Err Snapshot :=
  c.swept env fun c _ =>
    let c := c.expireStaleDemandLocked env.now
    (c, .ok c.snapshot)

end Coordinator
end PitCrew.Admission
