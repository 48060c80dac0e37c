import PitCrew.Base.Map
import PitCrew.Base.Machine
import PitCrew.Base.Search
import Mathlib.Data.String.Basic

/-! # The profile-wide active-worker ceiling

The `admissionController` of the autoscaler (`manager/autoscaler/admission.go`): every target of a profile
reserves workers with it before it launches them. A member's `live` function reads the workers its target
holds; here the reading is a field, which changes as workers start and exit. -/

namespace PitCrew.Autoscaler
open Base

structure AdmissionMember where
  /-- What the member's `live` function reports at the moment. -/
  live : Int := 0
  demand : Int := 0
  inFlight : Int := 0
  deriving DecidableEq, Repr

namespace AdmissionMember

def heldCount (m : AdmissionMember) : Int := m.inFlight + max m.live 0

end AdmissionMember

structure AdmissionController where
  ceiling : Int
  members : Map String AdmissionMember := ∅
  rotation : Int := 0

def newAdmissionController (ceiling : Int) : AdmissionController := { ceiling := if ceiling < 0 then 0 else ceiling }

namespace AdmissionController

/-! ## Members -/

/-- The member under `key`; a key that is no member has no workers, no demand and nothing in flight. -/
def member (a : AdmissionController) (key : String) : AdmissionMember := a.members.getD key {}

def live (a : AdmissionController) (key : String) : Int := (a.member key).live
def demand (a : AdmissionController) (key : String) : Int := (a.member key).demand
def inFlight (a : AdmissionController) (key : String) : Int := (a.member key).inFlight
def held (a : AdmissionController) (key : String) : Int := (a.member key).heldCount

/-- Writes to a member, if there is one under `key`. -/
def update (a : AdmissionController) (key : String) (f : AdmissionMember → AdmissionMember) : AdmissionController :=
  match a.members.lookup key with
  | none => a
  | some m => { a with members := a.members.insert key (f m) }

def join (a : AdmissionController) (key : String) (live : Int) : AdmissionController :=
  if key = "" then a
  else
    match a.members.lookup key with
    | some m => { a with members := a.members.insert key { m with live := live } }
    | none => { a with members := a.members.insert key { live := live } }

def leave (a : AdmissionController) (key : String) : AdmissionController :=
  let members := a.members.erase key
  { a with members := members, rotation := if a.rotation > members.keys.card then 0 else a.rotation }

def setDemand (a : AdmissionController) (key : String) (demand : Int) : AdmissionController :=
  a.update key fun m => { m with demand := max demand 0 }

/-! ## Shares and grants -/

def orderedKeysLocked (a : AdmissionController) : List String := sortedList a.members.keys

def shareLocked (a : AdmissionController) (keys : List String) (key : String) : Int :=
  let count : Int := keys.length
  if count = 0 then a.ceiling
  else
    let index := searchList keys key
    if keys[index]? ≠ some key then 0
    else
      let base := a.ceiling.tdiv count
      let remainder := a.ceiling.tmod count
      if ((index : Int) - a.rotation + count).tmod count < remainder then base + 1 else base

/-- What `reserve` keeps back for the members other than `key`. -/
def protectedUnits (a : AdmissionController) (keys : List String) (key : String) : Int :=
  (keys.map fun otherKey =>
    if otherKey = key then 0
    else
      let need := a.demand otherKey - a.held otherKey
      if need ≤ 0 then 0 else min need (a.shareLocked keys otherKey)).sum

/-- The units `reserve` grants to a member, out of `free` ones. -/
def grantedUnits (a : AdmissionController) (keys : List String) (key : String) (want free : Int) : Int :=
  let guarantee := a.shareLocked keys key
  let granted := if a.held key < guarantee then min (min want (guarantee - a.held key)) free else 0
  if granted < want then
    let surplus := free - granted - a.protectedUnits keys key
    if surplus > 0 then granted + min (want - granted) surplus else granted
  else granted

def reserve (a : AdmissionController) (key : String) (want : Int) : AdmissionController × Int :=
  if want ≤ 0 then (a, max want 0)
  else
    match a.members.lookup key with
    | none => (a, want)
    | some _ =>
      -- the whole request is recorded as demand before the ceiling is looked at
      let asked := a.update key fun m => { m with demand := want }
      if a.ceiling ≤ 0 then (asked, want)
      else
        let keys := a.orderedKeysLocked
        let free := a.ceiling - (keys.map a.held).sum
        if free ≤ 0 then (asked, 0)
        else
          let granted := a.grantedUnits keys key want free
          let rotation := if granted > 0 ∧ keys.length > 0 then (a.rotation + 1).tmod keys.length else a.rotation
          let reserved := a.update key fun m =>
            { m with inFlight := if granted > 0 then m.inFlight + granted else m.inFlight, demand := want - granted }
          ({ reserved with rotation := rotation }, granted)

def settle (a : AdmissionController) (key : String) (count : Int) : AdmissionController :=
  if count ≤ 0 then a else a.update key fun m => { m with inFlight := max (m.inFlight - count) 0 }

def limit (a : AdmissionController) : Int := a.ceiling

end AdmissionController

/-! ## Runs

A profile's controller, with the units its targets were granted and have not accounted for. -/

inductive ProfileEvent where
  | join (key : String)
  | leave (key : String)
  | setDemand (key : String) (demand : Int)
  | reserve (key : String) (want : Int)
  | rise (key : String)
  | settle (key : String)
  | abandon (key : String) (count : Nat)
  | exit (key : String)
  deriving DecidableEq, Repr

structure Profile where
  controller : AdmissionController
  pending : String → Nat := fun _ => 0
  risen : String → Nat := fun _ => 0

namespace Profile

def unresolved (p : Profile) (key : String) : Nat := p.pending key + p.risen key

def start (ceiling : Int) (first : List (String × Nat)) : Profile where
  controller := first.foldl (fun a e => a.join e.1 e.2) (newAdmissionController ceiling)

def step (p : Profile) : ProfileEvent → Profile × Int
  | .join key => ({ p with controller := p.controller.join key 0 }, 0)
  | .leave key => ({ p with controller := p.controller.leave key }, 0)
  | .setDemand key demand => ({ p with controller := p.controller.setDemand key demand }, 0)
  | .reserve key want =>
    let reserved := p.controller.reserve key want
    -- only the units of a member are counted against the ceiling
    let counted := if key ∈ p.controller.members then reserved.2.toNat else 0
    ({ p with controller := reserved.1, pending := Function.update p.pending key (p.pending key + counted) },
      reserved.2)
  | .rise key =>
    ({ controller := p.controller.update key fun m => { m with live := m.live + 1 }
       pending := Function.update p.pending key (p.pending key - 1)
       risen := Function.update p.risen key (p.risen key + 1) }, 0)
  | .settle key =>
    ({ p with controller := p.controller.settle key 1, risen := Function.update p.risen key (p.risen key - 1) }, 0)
  | .abandon key count =>
    ({ p with controller := p.controller.settle key count
              pending := Function.update p.pending key (p.pending key - count) }, 0)
  | .exit key => ({ p with controller := p.controller.update key fun m => { m with live := m.live - 1 } }, 0)

/-- The events that keep to the protocol of launches: a target leaves with no worker and nothing in
    flight, a worker starts only for a granted unit, and every such unit is settled once. -/
def Allowed (p : Profile) : ProfileEvent → Prop
  | .join _ | .setDemand _ _ | .reserve _ _ => True
  | .leave key => p.controller.live key = 0 ∧ p.controller.inFlight key = 0
  | .rise key => 0 < p.pending key
  | .settle key => 0 < p.risen key
  | .abandon key count => count ≤ p.pending key
  | .exit key => 0 < p.controller.live key

instance (p : Profile) : DecidablePred p.Allowed
  | .join _ | .setDemand _ _ | .reserve _ _ => inferInstanceAs (Decidable True)
  | .leave _ => inferInstanceAs (Decidable (_ ∧ _))
  | .rise _ | .settle _ | .abandon _ _ => Nat.decLe _ _
  | .exit _ => Int.decLt _ _

abbrev run (p : Profile) (events : List ProfileEvent) : Profile := exec step p events

/-- Every step of the run keeps to the protocol. -/
def RunAllowed (p : Profile) (events : List ProfileEvent) : Prop :=
  ∀ t ∈ transitions step p events, t.before.Allowed t.event

instance (p : Profile) (events : List ProfileEvent) : Decidable (p.RunAllowed events) :=
  inferInstanceAs (Decidable (∀ t ∈ _, _))

end Profile
end PitCrew.Autoscaler
