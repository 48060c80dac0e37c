import PitCrew.Base.JsonValue

/-! # The GitHub runner inventory

How the fixed manager fetches the runners that GitHub has registered and what it concludes about one of them
(`fetch_github_runner_inventory` and `classify_github_runner_registration` in `manager/registration.sh`). A
response is one JSON value, or nothing if `wget` fails; the files of the function can be written. What `jq`
takes a number for and what `[` reads as an integer are parameters. -/

namespace PitCrew.Shell
open Base.Json

/-- How the tools of the shell read the literal of a number. -/
structure Tools where
  /-- The number that `jq` computes with. -/
  number : String → Rat
  /-- The integer that `[` compares; a literal that it refuses makes the test fail. -/
  integer : String → Option Int

/-- Plain decimal literals are read as they are meant; `[` reads at least those that fit 64 bits. -/
structure Tools.Documented (tools : Tools) : Prop where
  number_toString : ∀ n : Nat, tools.number (toString n) = n
  integer_toString : ∀ (n : Nat) (k : Int), tools.integer (toString n) = some k → k = n
  integer_isSome : ∀ n : Nat, n < 9223372036854775808 → (tools.integer (toString n)).isSome

structure GitHubRunner where
  id : String
  name : String
  /-- The status, which is `online` or `offline`. -/
  online : Bool
  busy : Bool
  labels : List String
  deriving DecidableEq, Repr

def nonempty? (v : Value) : Option String := do
  let s ← v.string?
  if s = "" then none else some s

def online? (v : Value) : Option Bool := do
  let s ← v.string?
  if s = "online" then some true else if s = "offline" then some false else none

section
variable (tools : Tools)

def integral? (bound : Rat → Bool) (v : Value) : Option String := do
  let literal ← v.number?
  if bound (tools.number literal) ∧ (tools.number literal).den = 1 then some literal else none

def positive? (v : Value) : Option String := integral? tools (0 < ·) v

def count? (v : Value) : Option String := integral? tools (0 ≤ ·) v

def runner? (label? : Value → Option String) (v : Value) : Option GitHubRunner := do
  let id ← (← v.get? "id") |> positive? tools
  let name ← (← v.get? "name") |> nonempty?
  let online ← (← v.get? "status") |> online?
  let busy ← (← v.get? "busy").bool?
  let labels ← (← (← v.get? "labels").items?).mapM label?
  return { id, name, online, busy, labels }

def labelName? (label : Value) : Option String := do
  (← label.get? "name") |> nonempty?

/-- A page of the response: the literal of its `total_count`, and its runners. -/
def page? (v : Value) : Option (String × List GitHubRunner) := do
  let total ← (← v.get? "total_count") |> count? tools
  let runners ← (← (← v.get? "runners").items?).mapM (runner? tools labelName?)
  return (total, runners)

def GitHubRunner.toValue (r : GitHubRunner) : Value :=
  .object [("id", .number r.id), ("name", .string r.name),
    ("status", .string (if r.online then "online" else "offline")), ("busy", .bool r.busy),
    ("labels", .array (r.labels.map .string))]

def inventory (totalCount : String) (runners : List GitHubRunner) : Value :=
  .object [("totalCount", .number totalCount), ("runners", .array (runners.map GitHubRunner.toValue))]

/-! ## Fetching -/

structure Fetch where
  expectedTotal : Option String := none
  records : List GitHubRunner := []
  fetchedCount : Nat := 0
  deriving DecidableEq, Repr

def maxPages : Nat := 20
def perPage : Nat := 100

def fetchPages (pages : Nat → Option Value) : Nat → Nat → Fetch → Option Fetch
  | 0, _, fetch => some fetch
  | rounds + 1, page, fetch => do
    let (responseTotal, runners) ← (← pages page) |> page? tools
    let expectedTotal := fetch.expectedTotal.getD responseTotal
    if responseTotal ≠ expectedTotal then none
    else
      let fetch : Fetch :=
        { expectedTotal := some expectedTotal
          records := fetch.records ++ runners
          fetchedCount := fetch.fetchedCount + runners.length }
      if tools.integer expectedTotal = some (fetch.fetchedCount : Int) then some fetch
      else if (tools.integer expectedTotal).any (· < (fetch.fetchedCount : Int)) ∨ runners.length < perPage then none
      else fetchPages pages rounds (page + 1) fetch

def fetchGithubRunnerInventory (accessToken : String) (pages : Nat → Option Value) : Option Value := do
  if accessToken = "" then none
  else
    let fetch ← fetchPages tools pages maxPages 1 {}
    let expectedTotal ← fetch.expectedTotal
    if (tools.integer expectedTotal).any (· ≠ (fetch.fetchedCount : Int)) then none
    -- `jq` reads the records again
    else if tools.number expectedTotal = (fetch.records.length : Rat) ∧ (fetch.records.map (·.name)).Nodup then
      some (inventory expectedTotal fetch.records)
    else none

/-! ## Classification -/

inductive RegistrationStatus where
  | unknown
  | registrationMissing
  | connected
  | disconnected
  deriving DecidableEq, Repr

inductive RunnerActivity where
  | unknown
  | busy
  | idle
  deriving DecidableEq, Repr

structure Classification where
  status : RegistrationStatus := .unknown
  activity : RunnerActivity := .unknown
  cleanupCandidate : Bool := false
  deriving DecidableEq, Repr

def inventory? (v : Value) : Option (List GitHubRunner) := do
  let totalCount ← (← v.get? "totalCount") |> count? tools
  let runners ← (← (← v.get? "runners").items?).mapM (runner? tools nonempty?)
  if tools.number totalCount = (runners.length : Rat) ∧ (runners.map (·.name)).Nodup then some runners else none

def GitHubRunner.classify (r : GitHubRunner) : Classification :=
  if r.online then { status := .connected, activity := if r.busy then .busy else .idle }
  else if r.busy then { status := .disconnected, activity := .busy }
  else { status := .disconnected, cleanupCandidate := true }

def classifyGithubRunnerRegistration (inventory : Value) (runnerName : String) : Classification :=
  if runnerName = "" then {}
  else
    match inventory? tools inventory with
    | none => {}
    | some runners =>
      match runners.filter (·.name = runnerName) with
      | [] => { status := .registrationMissing, cleanupCandidate := true }
      | [runner] => runner.classify
      | _ => {}

end
end PitCrew.Shell
