import PitCrew.Admission.Status
import PitCrew.Base.Machine

/-! # Runs of the admission service

The service is a process over a store that outlives it. A run interleaves calls, clock readings and
restarts; a restart that fails leaves the service stopped until the next one. A crash inside an
operation is a call whose remaining saves fail, followed by a restart. -/

namespace PitCrew.Admission
open Base

inductive Call where
  | applyPolicy (policy : HostPolicy)
  | setDemand (profileID : String) (pending : Int)
  | beginAdoption (profileID : String)
  | completeAdoption (profileID : String)
  | acquire (profileID slotKey : String) (pendingDemand : Int)
  | bindRegistration (profileID slotKey registrationName : String)
  | adopt (profileID slotKey : String)
  | renew (profileID slotKey : String)
  | activate (profileID slotKey : String)
  | release (profileID slotKey : String)
  | reconcile (profileID slotKey evidence : String)
  | status
  deriving DecidableEq, Repr

inductive Reply where
  | done
  | lease (lease : Lease)
  | snapshot (snapshot : Snapshot)
  | failed (err : Err)
  | stopped
  deriving DecidableEq, Repr

def Reply.ofUnit : Except Err Unit → Reply
  | .ok () => .done
  | .error e => .failed e

def Reply.ofLease : Except Err Lease → Reply
  | .ok l => .lease l
  | .error e => .failed e

def Reply.ofSnapshot : Except Err Snapshot → Reply
  | .ok s => .snapshot s
  | .error e => .failed e

namespace Coordinator

def call (c : Coordinator) (env : Env) : Call → Coordinator × Reply
  | .applyPolicy policy => (c.applyPolicy env policy).map id .ofUnit
  | .setDemand profileID pending => (c.setDemand env profileID pending).map id .ofUnit
  | .beginAdoption profileID => (c.beginAdoption env profileID).map id .ofUnit
  | .completeAdoption profileID => (c.completeAdoption env profileID).map id .ofUnit
  | .acquire profileID slotKey pendingDemand => (c.acquire env profileID slotKey pendingDemand).map id .ofLease
  | .bindRegistration profileID slotKey registrationName =>
    (c.bindRegistration env profileID slotKey registrationName).map id .ofLease
  | .adopt profileID slotKey => (c.adopt env profileID slotKey).map id .ofLease
  | .renew profileID slotKey => (c.renew env profileID slotKey).map id .ofLease
  | .activate profileID slotKey => (c.activate env profileID slotKey).map id .ofLease
  | .release profileID slotKey => (c.release env profileID slotKey).map id .ofUnit
  | .reconcile profileID slotKey evidence => (c.reconcile env profileID slotKey evidence).map id .ofUnit
  | .status => (c.status env).map id .ofSnapshot

end Coordinator

inductive Process where
  | running (coordinator : Coordinator)
  | stopped (store : Store)

structure World where
  now : Int
  process : Process

inductive Event where
  | call (call : Call) (order : RangeOrder String) (saves : Saves)
  | clock (now : Int)
  | restart (provisionalTTL : Int) (order : RangeOrder String) (saves : Saves)

namespace World

def store (w : World) : Store :=
  match w.process with
  | .running c => c.store
  | .stopped store => store

def coordinator? (w : World) : Option Coordinator :=
  match w.process with
  | .running c => some c
  | .stopped _ => none

def step (w : World) : Event → World × Reply
  | .call call order saves =>
    match w.process with
    | .running c =>
      let result := c.call { now := w.now, order, saves } call
      ({ w with process := .running result.1 }, result.2)
    | .stopped _ => (w, .stopped)
  | .clock now => ({ w with now }, .done)
  | .restart provisionalTTL order saves =>
    match Coordinator.openStore { now := w.now, order, saves } w.store provisionalTTL with
    | (_, .ok c) => ({ w with process := .running c }, .done)
    | (store, .error e) => ({ w with process := .stopped store }, .failed e)

/-- The service before it is first started, with the document in its store, if any. -/
def initial (now : Int) (document : Option DurableState) : World where
  now
  process := .stopped { document }

def exec (w : World) (events : List Event) : World := Base.exec step w events

def transitions (w : World) (events : List Event) : List (Transition World Event Reply) :=
  Base.transitions step w events

end World
end PitCrew.Admission
