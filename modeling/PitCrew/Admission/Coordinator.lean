import PitCrew.Admission.State

/-! # The coordinator

The mutex-serialized owner of the ledger (`manager/admission/coordinator.go`): each operation runs as
one step on the state of the process. Demand, deadlines and the rotation cursor live in memory only.
An operation saves at most three documents (the expiry sweep, its own change, the decision record), and
its environment says which of these saves succeed. -/

namespace PitCrew.Admission
open Base

def defaultProvisionalLeaseTTL : Int := 30 * 1000000000
def defaultDemandTTL : Int := 30 * 1000000000
def maxEvidenceBytes : Nat := 512
def rotationSeedModulus : Int := 1000000007

/-- Which saves of an operation succeed. -/
structure Saves where
  sweep : Bool := true
  change : Bool := true
  decision : Bool := true
  deriving DecidableEq, Repr

/-- What an operation meets: the clock reading, the order of its loops over maps, and its saves. -/
structure Env where
  now : Int
  order : RangeOrder String
  saves : Saves := {}

structure Coordinator where
  store : Store
  provisionalTTL : Int
  state : DurableState
  demand : Map String Int := ∅
  demandKnown : Finset String := ∅
  demandDeadlines : Map String Int := ∅
  rotation : Int
  provisionalDeadlines : Map String Int := ∅
  deriving DecidableEq

namespace Coordinator

/-! ## Opening a store -/

/-- A process that starts from `state`: nothing is known of demand or deadlines, and the cursor is
    seeded from the decision sequence. -/
def restored (store : Store) (provisionalTTL : Int) (state : DurableState) : Coordinator where
  store
  provisionalTTL
  state
  rotation := state.decisionSequence.tmod rotationSeedModulus

/-- `Open`, with the store it leaves behind. -/
def openStore (env : Env) (backing : Store) (provisionalTTL : Int) : Store × Except Err Coordinator :=
  let provisionalTTL := if provisionalTTL ≤ 0 then defaultProvisionalLeaseTTL else provisionalTTL
  match backing.load env.order with
  | .error e => (backing, .error e)
  | .ok none => (backing, .ok (restored backing provisionalTTL newDurableState))
  | .ok (some state) =>
    match state.discardRestoredProvisionals env.order with
    | (_, false) => (backing, .ok (restored backing provisionalTTL state))
    | (pruned, true) =>
      match backing.save env.saves.change pruned with
      | .error e => (backing, .error e)
      | .ok backing => (backing, .ok (restored backing provisionalTTL pruned))

/-! ## Expiry -/

/-- The provisional leases whose deadline has passed, or that have none. -/
def expiredLeases (c : Coordinator) (env : Env) : List (String × Lease) :=
  (c.state.leases.entriesIn env.order).filter fun e =>
    e.2.status = .provisional ∧ ¬(c.provisionalDeadlines.lookup e.1).any (env.now < ·)

/-- Replaces the expired leases by tombstones, with the demand of their profiles, and returns their
    keys. -/
def sweepExpiredLocked (c : Coordinator) (env : Env) : Coordinator × Except Err (List String) :=
  let expired := c.expiredLeases env
  if expired = [] then (c, .ok [])
  else
    let next := (c.state.clone.discardAll .expired expired).compactTombstones env.order
    match c.store.save env.saves.sweep next with
    | .error e => (c, .error e)
    | .ok store =>
      let profiles := expired.map (·.2.profileID)
      let keys := expired.map (·.1)
      ({ c with
          store, state := next
          demand := c.demand.filterKeys (· ∉ profiles)
          demandKnown := c.demandKnown.filter (· ∉ profiles)
          demandDeadlines := c.demandDeadlines.filterKeys (· ∉ profiles)
          provisionalDeadlines := c.provisionalDeadlines.filterKeys (· ∉ keys) }, .ok keys)

def expireStaleDemandLocked (c : Coordinator) (now : Int) : Coordinator :=
  let fresh (id : String) : Bool := (c.demandDeadlines.lookup id).all (now < ·)
  { c with
    demand := c.demand.filterKeys fresh
    demandKnown := c.demandKnown.filter (fresh ·)
    demandDeadlines := c.demandDeadlines.filterKeys fresh }

/-! ## The budget and its fair shares -/

def heldUnitsByProfileLocked (c : Coordinator) : Map String Int := c.state.leases.tally (·.profileID) (·.units)

/-- The unused non-borrowable reservations of the profiles other than the requester. -/
def protectedNonBorrowableLocked (c : Coordinator) (requester : String) (held : Map String Int) : Int :=
  (c.state.policy.profiles.map fun other =>
    if other.profileID = requester ∨ other.borrowable = true then 0
    else max (other.reservedUnits - held.getD other.profileID 0) 0).sum

/-- The profiles of the policy with positive demand, in order. -/
def contendersLocked (c : Coordinator) : List String :=
  sortedList (c.demand.keys.filter fun id => 0 < c.demand.getD id 0 ∧ (c.state.policy.profile id).isSome)

/-- The contender's part of `available`; division and remainder truncate. -/
def guaranteedShareLocked (c : Coordinator) (contenders : List String) (index available : Int) : Int :=
  let count : Int := contenders.length
  if count = 0 then available
  else
    let base := available.tdiv count
    let remainder := available.tmod count
    if (index - c.rotation + count).tmod count < remainder then base + 1 else base

def reservedUnitsLocked (c : Coordinator) (profileID : String) : Int :=
  match c.state.policy.profile profileID with
  | some profile => profile.reservedUnits
  | none => 0

/-- What remains of `available` for a profile once the open shares of the other contenders are set
    aside, and the number of contenders. -/
def fairAllocatableUnitsLocked (c : Coordinator) (profileID : String) (held : Map String Int) (available : Int) :
    Int × Nat :=
  let contenders := c.contendersLocked
  if contenders.length = 0 then (max available 0, 0)
  else
    let protectedUnits := (contenders.zipIdx.map fun other =>
      if other.1 = profileID then 0
      else
        let otherGuarantee := c.guaranteedShareLocked contenders other.2 available
        let otherShared := max (held.getD other.1 0 - c.reservedUnitsLocked other.1) 0
        if otherShared < otherGuarantee then otherGuarantee - otherShared else 0).sum
    (max (available - protectedUnits) 0, contenders.length)

def fairTurnLocked (c : Coordinator) (profileID : String) (held : Map String Int) (available unitCost : Int) :
    Bool × Nat :=
  let allocatable := c.fairAllocatableUnitsLocked profileID held available
  (unitCost ≤ allocatable.1, allocatable.2)

/-- Whether one more worker of a profile is admitted, with the number of contenders if it is admitted
    to the shared pool. -/
def evaluateAcquireLocked (c : Coordinator) (profileID : String) (profilePolicy : ProfilePolicy)
    (held : Map String Int) : Except Err Nat :=
  let totalHeld := held.sumOf id
  let free := c.state.policy.totalUnits - totalHeld
  if free < profilePolicy.unitCost then .error .budgetExhausted
  else
    let ownRemaining := max (profilePolicy.reservedUnits - held.getD profileID 0) 0
    if profilePolicy.unitCost ≤ ownRemaining then .ok 0
    else
      let available := free - c.protectedNonBorrowableLocked profileID held
      if available < profilePolicy.unitCost then .error .protectedReservation
      else
        match c.fairTurnLocked profileID held available profilePolicy.unitCost with
        | (true, contenders) => .ok contenders
        | (false, _) => .error .fairShareContention

def advanceRotationLocked (c : Coordinator) (contenderCount : Nat) : Coordinator :=
  if contenderCount = 0 then c else { c with rotation := (c.rotation + 1).tmod contenderCount }

/-! ## Decisions -/

def persist (c : Coordinator) (succeeds : Bool) (next : DurableState) : Except Err Coordinator :=
  match c.store.save succeeds next with
  | .error e => .error e
  | .ok store => .ok { c with store, state := next }

def recordDecisionLocked (c : Coordinator) (env : Env) (command : Command) (profileID : String) (granted : Bool)
    (err : Option Err) : Coordinator :=
  let failureCategory := match granted, err with
    | false, some e => durableDecisionErrorCode e
    | _, _ => .none
  let decision : Decision :=
    { sequence := c.state.decisionSequence, command, profileID, granted, failureCategory,
      decidedAtUnixNano := env.now }
  match c.persist env.saves.decision { c.state.clone with lastDecision := some decision } with
  | .error _ => c
  | .ok c => c

def errOf {α : Type} : Except Err α → Option Err
  | .error e => some e
  | .ok _ => none

/-- An acquisition of a slot that has a lease counts as granted. -/
def countsAsGranted {α : Type} : Except Err α → Bool
  | .ok _ => true
  | .error e => e.is .duplicateLease

/-- An operation whose outcome is recorded when it returns. -/
def deciding {α : Type} (c : Coordinator) (env : Env) (command : Command) (profileID : String)
    (granted : Except Err α → Bool) (body : Coordinator → Coordinator × Except Err α) : Coordinator × Except Err α :=
  let (c, result) := body c
  (c.recordDecisionLocked env command profileID (granted result) (errOf result), result)

/-- An operation that starts with the expiry sweep and gets the keys it expired. -/
def swept {α : Type} (c : Coordinator) (env : Env)
    (body : Coordinator → List String → Coordinator × Except Err α) : Coordinator × Except Err α :=
  match c.sweepExpiredLocked env with
  | (c, .error e) => (c, .error e)
  | (c, .ok expired) => body c expired

/-! ## Operations -/

def applyPolicy (c : Coordinator) (env : Env) (policy : HostPolicy) : Coordinator × Except Err Unit :=
  match policy.validate with
  | .error e => (c, .error e)
  | .ok () =>
    if policy.generation ≤ c.state.policy.generation then (c, .error .stalePolicy)
    else
      let next := c.state.clone
      let next :=
        { next with
          policy, epoch := next.epoch + 1
          adoptionFences := next.adoptionFences.filterKeys fun profileID => (policy.profile profileID).isSome }
      match c.persist env.saves.change next with
      | .error e => (c, .error e)
      | .ok c => ({ c with demand := ∅, demandKnown := ∅, demandDeadlines := ∅ }, .ok ())

def setDemand (c : Coordinator) (env : Env) (profileID : String) (pending : Int) : Coordinator × Except Err Unit :=
  match validateProfileID profileID with
  | .error e => (c, .error e)
  | .ok () =>
    if pending < 0 then (c, .error (.negativeDemand pending))
    else if c.state.policy.profile profileID = none then (c, .error .unknownProfile)
    else
      let c := c.expireStaleDemandLocked env.now
      let c := { c with demandKnown := insert profileID c.demandKnown }
      if pending = 0 then
        ({ c with demand := c.demand.erase profileID, demandDeadlines := c.demandDeadlines.erase profileID }, .ok ())
      else
        ({ c with
            demand := c.demand.insert profileID pending
            demandDeadlines := c.demandDeadlines.insert profileID (env.now + defaultDemandTTL) }, .ok ())

def beginAdoption (c : Coordinator) (env : Env) (profileID : String) : Coordinator × Except Err Unit :=
  match validateProfileID profileID with
  | .error e => (c, .error e)
  | .ok () =>
    if c.state.policy.profile profileID = none then (c, .error .unknownProfile)
    else if profileID ∈ c.state.adoptionFences then (c, .ok ())
    else
      let next := c.state.clone
      let fence : AdoptionFence :=
        { profileID, pendingLeaseKeys := some (DurableState.activeLeaseSlotKeys next.leases profileID) }
      let next :=
        { next with epoch := next.epoch + 1, adoptionFences := next.adoptionFences.insert profileID fence }
      match c.persist env.saves.change next with
      | .error e => (c, .error e)
      | .ok c => (c, .ok ())

def completeAdoption (c : Coordinator) (env : Env) (profileID : String) : Coordinator × Except Err Unit :=
  match validateProfileID profileID with
  | .error e => (c, .error e)
  | .ok () =>
    match c.state.adoptionFences.lookup profileID with
    | none => (c, .ok ())
    | some fence =>
      if fence.pending.length > 0 then (c, .error (.adoptionPending fence.pending.length))
      else
        let next := c.state.clone
        let next := { next with epoch := next.epoch + 1, adoptionFences := next.adoptionFences.erase profileID }
        match c.persist env.saves.change next with
        | .error e => (c, .error e)
        | .ok c => (c, .ok ())

/-- The demand of a profile while its acquisition is evaluated. -/
def registerDemand (c : Coordinator) (env : Env) (profileID : String) (pendingDemand : Int) : Coordinator :=
  { c with
    demand := c.demand.insert profileID pendingDemand
    demandKnown := insert profileID c.demandKnown
    demandDeadlines := c.demandDeadlines.insert profileID (env.now + defaultDemandTTL) }

/-- The demand of a profile after one worker of it was granted. -/
def consumeDemand (c : Coordinator) (profileID : String) (pendingDemand : Int) : Coordinator :=
  if pendingDemand = 1 then
    { c with demand := c.demand.erase profileID, demandDeadlines := c.demandDeadlines.erase profileID }
  else { c with demand := c.demand.insert profileID (pendingDemand - 1) }

def provisionalLease (c : Coordinator) (env : Env) (profileID slotKey : String) (unitCost : Int) : Lease where
  profileID
  slotKey
  leaseID := leaseIDOf (leaseKey profileID slotKey) (c.state.decisionSequence + 1)
  units := unitCost
  status := .provisional
  expiresAtUnixNano := env.now + c.provisionalTTL
  grantedAtSequence := c.state.decisionSequence + 1

def acquireSwept (c : Coordinator) (env : Env) (profileID slotKey : String) (pendingDemand : Int) :
    Coordinator × Except Err Lease :=
  let c := c.expireStaleDemandLocked env.now
  if c.state.adoptionFences.keys.card > 0 then (c, .error (.adoptionPending 0))
  else
    let key := leaseKey profileID slotKey
    match c.state.leases.lookup key with
    | some existing => (c, .error (.duplicateLease existing))
    | none =>
      match c.state.policy.profile profileID with
      | none => (c, .error .unknownProfile)
      | some profilePolicy =>
        let pendingDemand := if pendingDemand < 1 then 1 else pendingDemand
        let c := c.registerDemand env profileID pendingDemand
        match c.evaluateAcquireLocked profileID profilePolicy c.heldUnitsByProfileLocked with
        | .error e => (c, .error e)
        | .ok sharedPoolContenders =>
          let granted := c.provisionalLease env profileID slotKey profilePolicy.unitCost
          let next := c.state.clone
          let next :=
            { next with
              decisionSequence := c.state.decisionSequence + 1
              tombstones := next.tombstones.erase key
              leases := next.leases.insert key granted }
          match c.persist env.saves.change next with
          | .error e => (c, .error e)
          | .ok c =>
            let c :=
              { c with provisionalDeadlines := c.provisionalDeadlines.insert key (env.now + c.provisionalTTL) }
            let c := c.consumeDemand profileID pendingDemand
            (c.advanceRotationLocked sharedPoolContenders, .ok granted)

def acquire (c : Coordinator) (env : Env) (profileID slotKey : String) (pendingDemand : Int) :
    Coordinator × Except Err Lease :=
  match validateLeaseIdentity profileID slotKey with
  | .error e => (c, .error e)
  | .ok () =>
    c.deciding env .acquire profileID countsAsGranted fun c =>
      c.swept env fun c _ => c.acquireSwept env profileID slotKey pendingDemand

def bindRegistrationSwept (c : Coordinator) (env : Env) (profileID slotKey registrationName : String) :
    Coordinator × Except Err Lease :=
  let key := leaseKey profileID slotKey
  match c.state.leases.lookup key with
  | none => (c, .error .leaseNotFound)
  | some existing =>
    if existing.registrationName = registrationName then (c, .ok existing)
    else if existing.registrationName ≠ "" then (c, .error .registrationBound)
    else
      let existing := { existing with registrationName }
      let next := c.state.clone
      let next :=
        { next with decisionSequence := next.decisionSequence + 1, leases := next.leases.insert key existing }
      match c.persist env.saves.change next with
      | .error e => (c, .error e)
      | .ok c => (c, .ok existing)

/-- The one lease operation that is not recorded as a decision. -/
def bindRegistration (c : Coordinator) (env : Env) (profileID slotKey registrationName : String) :
    Coordinator × Except Err Lease :=
  match validateLeaseIdentity profileID slotKey with
  | .error e => (c, .error e)
  | .ok () =>
    match validateRegistrationName registrationName with
    | .error e => (c, .error e)
    | .ok () => c.swept env fun c _ => c.bindRegistrationSwept env profileID slotKey registrationName

/-- A lease promoted to active by the decision numbered `sequence`. -/
def activated (lease : Lease) (sequence : Int) : Lease :=
  { lease with status := .active, expiresAtUnixNano := 0, activatedAtSequence := sequence }

/-- The lease that a running worker without one is given. -/
def adoptedLease (c : Coordinator) (profileID slotKey : String) (unitCost : Int) : Lease where
  profileID
  slotKey
  leaseID := leaseIDOf (leaseKey profileID slotKey) (c.state.decisionSequence + 1)
  units := unitCost
  status := .active
  grantedAtSequence := c.state.decisionSequence + 1
  activatedAtSequence := c.state.decisionSequence + 1

/-- Stores the lease of a running worker as active, whatever the budget. -/
def adoptInactive (c : Coordinator) (env : Env) (profileID slotKey : String) (lease : Lease) :
    Coordinator × Except Err Lease :=
  let key := leaseKey profileID slotKey
  let next := c.state.clone
  let next :=
    { next with
      decisionSequence := c.state.decisionSequence + 1
      tombstones := next.tombstones.erase key
      leases := next.leases.insert key lease }
  let next := (next.markLeaseAccountedForAdoption profileID slotKey).1
  match c.persist env.saves.change next with
  | .error e => (c, .error e)
  | .ok c => ({ c with provisionalDeadlines := c.provisionalDeadlines.erase key }, .ok lease)

def adoptSwept (c : Coordinator) (env : Env) (profileID slotKey : String) : Coordinator × Except Err Lease :=
  match c.state.policy.profile profileID with
  | none => (c, .error .unknownProfile)
  | some profilePolicy =>
    match c.state.leases.lookup (leaseKey profileID slotKey) with
    | some existing =>
      if existing.status = .active then
        match c.state.clone.markLeaseAccountedForAdoption profileID slotKey with
        | (_, false) => (c, .ok existing)
        | (next, true) =>
          match c.persist env.saves.change next with
          | .error e => (c, .error e)
          | .ok c => (c, .ok existing)
      else c.adoptInactive env profileID slotKey (activated existing (c.state.decisionSequence + 1))
    | none => c.adoptInactive env profileID slotKey (c.adoptedLease profileID slotKey profilePolicy.unitCost)

def adopt (c : Coordinator) (env : Env) (profileID slotKey : String) : Coordinator × Except Err Lease :=
  match validateLeaseIdentity profileID slotKey with
  | .error e => (c, .error e)
  | .ok () =>
    c.deciding env .adopt profileID Except.isOk fun c => c.swept env fun c _ => c.adoptSwept env profileID slotKey

def renewSwept (c : Coordinator) (env : Env) (profileID slotKey : String) (expired : List String) :
    Coordinator × Except Err Lease :=
  let key := leaseKey profileID slotKey
  if key ∈ expired then (c, .error .leaseExpired)
  else
    match c.state.leases.lookup key with
    | none => (c, .error .leaseNotFound)
    | some existing =>
      if existing.status ≠ .provisional then (c, .error .leaseNotProvisional)
      else
        let existing := { existing with expiresAtUnixNano := env.now + c.provisionalTTL }
        let next := c.state.clone
        let next :=
          { next with decisionSequence := next.decisionSequence + 1, leases := next.leases.insert key existing }
        match c.persist env.saves.change next with
        | .error e => (c, .error e)
        | .ok c =>
          ({ c with provisionalDeadlines := c.provisionalDeadlines.insert key (env.now + c.provisionalTTL) },
            .ok existing)

def renew (c : Coordinator) (env : Env) (profileID slotKey : String) : Coordinator × Except Err Lease :=
  match validateLeaseIdentity profileID slotKey with
  | .error e => (c, .error e)
  | .ok () =>
    c.deciding env .renew profileID Except.isOk fun c =>
      c.swept env fun c expired => c.renewSwept env profileID slotKey expired

def activateSwept (c : Coordinator) (env : Env) (profileID slotKey : String) (expired : List String) :
    Coordinator × Except Err Lease :=
  let key := leaseKey profileID slotKey
  if key ∈ expired then (c, .error .leaseExpired)
  else
    match c.state.leases.lookup key with
    | none => (c, .error .leaseNotFound)
    | some existing =>
      if existing.status = .active then (c, .ok existing)
      else
        let existing := activated existing (c.state.decisionSequence + 1)
        let next := c.state.clone
        let next :=
          { next with
            decisionSequence := c.state.decisionSequence + 1
            leases := next.leases.insert key existing }
        match c.persist env.saves.change next with
        | .error e => (c, .error e)
        | .ok c => ({ c with provisionalDeadlines := c.provisionalDeadlines.erase key }, .ok existing)

def activate (c : Coordinator) (env : Env) (profileID slotKey : String) : Coordinator × Except Err Lease :=
  match validateLeaseIdentity profileID slotKey with
  | .error e => (c, .error e)
  | .ok () =>
    c.deciding env .activate profileID Except.isOk fun c =>
      c.swept env fun c expired => c.activateSwept env profileID slotKey expired

def tombstoneLocked (c : Coordinator) (env : Env) (profileID slotKey : String) (reason : TombstoneReason)
    (evidence : String) : Coordinator × Except Err Unit :=
  let key := leaseKey profileID slotKey
  match c.state.leases.lookup key with
  | none => if key ∈ c.state.tombstones then (c, .ok ()) else (c, .error .leaseNotFound)
  | some lease =>
    let sequence := c.state.decisionSequence + 1
    let next := c.state.clone
    let next := { next with decisionSequence := sequence, leases := next.leases.erase key }
    let next := (next.markLeaseAccountedForAdoption profileID slotKey).1
    let tombstone : Tombstone := { profileID, slotKey, leaseID := lease.leaseID, reason, evidence, sequence }
    let next := { next with tombstones := next.tombstones.insert key tombstone }
    match c.persist env.saves.change (next.compactTombstones env.order) with
    | .error e => (c, .error e)
    | .ok c => ({ c with provisionalDeadlines := c.provisionalDeadlines.erase key }, .ok ())

def release (c : Coordinator) (env : Env) (profileID slotKey : String) : Coordinator × Except Err Unit :=
  match validateLeaseIdentity profileID slotKey with
  | .error e => (c, .error e)
  | .ok () =>
    c.deciding env .release profileID Except.isOk fun c =>
      c.swept env fun c _ => c.tombstoneLocked env profileID slotKey .released ""

/-- `unicode.IsSpace` -/
def isSpace (c : Char) : Bool :=
  c ∈ ['\t', '\n', '\x0b', '\x0c', '\r', ' ', '\u0085', '\u00a0', '\u1680'] || ('\u2000' ≤ c && c ≤ '\u200a') ||
    c ∈ ['\u2028', '\u2029', '\u202f', '\u205f', '\u3000']

/-- `unicode.IsControl` -/
def isControl (c : Char) : Bool := c < ' ' || ('\x7f' ≤ c && c ≤ '\u009f')

/-- `strings.TrimSpace` -/
def trimSpace (s : String) : String :=
  String.ofList (((s.toList.dropWhile isSpace).reverse.dropWhile isSpace).reverse)

/-- Evidence is one short line of text. A Lean string is always well-formed, so the check for invalid
    UTF-8 has no counterpart. -/
def sanitizeEvidence (evidence : String) : Except Err String :=
  let trimmed := trimSpace evidence
  if trimmed = "" then .error .evidenceRequired
  else if trimmed.utf8ByteSize > maxEvidenceBytes then .error (.evidenceInvalid (.tooLong maxEvidenceBytes))
  else if trimmed.toList.any fun r => r == '\n' || r == '\r' || isControl r then
    .error (.evidenceInvalid .controlCharacter)
  else .ok trimmed

def reconcile (c : Coordinator) (env : Env) (profileID slotKey evidence : String) : Coordinator × Except Err Unit :=
  match validateLeaseIdentity profileID slotKey with
  | .error e => (c, .error e)
  | .ok () =>
    match sanitizeEvidence evidence with
    | .error e => (c, .error e)
    | .ok sanitized =>
      c.deciding env .reconcile profileID Except.isOk fun c =>
        c.swept env fun c _ => c.tombstoneLocked env profileID slotKey .reconciledAbsent sanitized

end Coordinator
end PitCrew.Admission
