import PitCrew.Base.JsonText
import PitCrew.Autoscaler.Desired

/-! # The desired-capacity document

How a document is read and hashed (`parseDesiredState` and what it calls in `manager/autoscaler/desired_state.go`).
`Autoscaler/Desired` starts from the state that a document holds and takes its hash as given; here both come from
the decoded document, the state by its typed fields and the hash by normalizing every value. What the Go library
makes of a text or of a number's literal is a parameter. -/

namespace PitCrew.Autoscaler.Document
open Base Base.Json

inductive Trailing where
  | eof
  | value
  | fault (cause : String)
  deriving DecidableEq, Repr

/-- The library functions that read a document and its numbers. A `float64` is its exact value. -/
structure Library where
  /-- `Decoder.Decode` with `UseNumber`, and what follows. -/
  decode : String → Except String (Value × Trailing)
  /-- `strconv.ParseInt` to the base 10 and 64 bits. -/
  parseInt : String → Option Int
  /-- `big.Rat.SetString`. -/
  rat : String → Option ℚ
  /-- `strconv.ParseFloat` to 64 bits; `none` for an error, an infinity or not a number. -/
  parseFloat : String → Option ℚ
  /-- The conversion to `int64`, which is exact where the value fits. -/
  int64OfFloat : ℚ → Int
  /-- The text that `encoding/json` writes for a `float64`. -/
  formatFloat : ℚ → String
  /-- `strconv.IntSize`. -/
  intSize : Nat

inductive Fault where
  | decode (cause : String)
  | multipleValues
  | trailing (cause : String)
  | notObject
  | notInteger (field : String)
  | scopeNotString
  | repositoriesNotArray
  | repositoryNotObject (index : Nat)
  | urlNotString (index : Nat)
  | desired (fault : DesiredFault)
  | invalidNumber (literal : String)
  | empty
  deriving DecidableEq, Repr

def requireJSONEOF : Trailing → Except Fault Unit
  | .eof => .ok ()
  | .value => .error .multipleValues
  | .fault cause => .error (.trailing cause)

/-! ## The state -/

def minInt64 : Int := -9223372036854775808
def maxInt64 : Int := 9223372036854775807
def minInt32 : Int := -2147483648

/-- A member that is missing is no number. -/
def jsonInteger (lib : Library) (value : Option Value) (field : String) : Except Fault Int :=
  match value.bind Value.number? with
  | none => .error (.notInteger field)
  | some number =>
    match lib.rat number with
    | none => .error (.notInteger field)
    | some rational => do
      reject (¬(rational.den = 1 ∧ minInt64 ≤ rational.num ∧ rational.num ≤ maxInt64)) (.notInteger field)
      reject (lib.intSize = 32 ∧ (rational.num < minInt32 ∨ rational.num > maxInt32)) (.notInteger field)
      return rational.num

def scopeOf (text : String) : Scope :=
  if text = "repo" then .repo else if text = "org" then .org else if text = "ent" then .ent else .other text

def repositoryFromJSON (lib : Library) (index : Nat) : Value → Except Fault DesiredRepository
  | .object repositoryObject =>
    match (repositoryObject.lookup "url").bind Value.string? with
    | none => .error (.urlNotString index)
    | some url => do
      let workers ← jsonInteger lib (repositoryObject.lookup "workers")
        ("repositories[" ++ toString index ++ "].workers")
      return { url, workers }
  | _ => .error (.repositoryNotObject index)

def repositoriesFromJSON (lib : Library) : Nat → List Value → Except Fault (List DesiredRepository)
  | _, [] => .ok []
  | index, rawRepository :: rawRepositories => do
    let repository ← repositoryFromJSON lib index rawRepository
    let repositories ← repositoriesFromJSON lib (index + 1) rawRepositories
    return repository :: repositories

def replicasFromJSON (lib : Library) : Option Value → Except Fault (Option Int)
  | none | some .null => .ok none
  | rawReplicas => do
    let value ← jsonInteger lib rawReplicas "replicas"
    return some value

def desiredStateFromJSON (lib : Library) (raw : List (String × Value)) : Except Fault DesiredState := do
  let schemaVersion ← jsonInteger lib (raw.lookup "schemaVersion") "schemaVersion"
  let generation ← jsonInteger lib (raw.lookup "generation") "generation"
  match (raw.lookup "scope").bind Value.string? with
  | none => .error .scopeNotString
  | some scope =>
    match (raw.lookup "repositories").bind Value.items? with
    | none => .error .repositoriesNotArray
    | some rawRepositories => do
      let repositories ← repositoriesFromJSON lib 0 rawRepositories
      let replicas ← replicasFromJSON lib (raw.lookup "replicas")
      return { schemaVersion, generation, scope := scopeOf scope, repositories, replicas }

/-! ## Canonical URLs -/

/-- The URL of a repository is written back to its object. -/
def writeURL (url : String) : Value → Value
  | .object repositoryObject => .object (assign "url" (.string url) repositoryObject)
  | rawRepository => rawRepository

/-- The loop over the repositories, each with the raw one at its index. -/
def canonicalizeRepositories (pkg : Packages) : List DesiredRepository → List Value →
    Except DesiredFault (List DesiredRepository × List Value)
  | [], rawRepositories => .ok ([], rawRepositories)
  | repository :: repositories, rawRepositories => do
    let url ← canonicalRepositoryURL pkg repository.url
    let (canonical, rest) ← canonicalizeRepositories pkg repositories rawRepositories.tail
    return ({ repository with url } :: canonical, (rawRepositories.head?.map (writeURL url)).toList ++ rest)

def canonicalizeDesiredRepositoryURLs (pkg : Packages) (state : DesiredState) (rawObject : List (String × Value)) :
    Except DesiredFault (DesiredState × List (String × Value)) :=
  if state.scope ≠ .repo then .ok (state, rawObject)
  else
    let rawRepositories := ((rawObject.lookup "repositories").bind Value.items?).getD []
    do
      let (repositories, rawRepositories) ← canonicalizeRepositories pkg state.repositories rawRepositories
      let rawObject :=
        if ((rawObject.lookup "repositories").bind Value.items?).isSome then assign "repositories"
          (.array rawRepositories) rawObject
        else rawObject
      return ({ state with repositories }, rawObject)

/-! ## Normal form -/

/-- A number as `encoding/json` writes it: an `int64` and a `json.Number` of a large integer both by their digits. -/
def normalizeNumber (lib : Library) (literal : String) : Except Fault String :=
  match lib.parseInt literal with
  | some integer => .ok (toString integer)
  | none =>
    match (lib.rat literal).filter fun rational => rational.den = 1 with
    | some rational => .ok (toString rational.num)
    | none =>
      match lib.parseFloat literal with
      | none => .error (.invalidNumber literal)
      | some floating =>
        -- the bound `math.MaxInt64` is 2^63 as a `float64`
        if floating.den = 1 ∧ (minInt64 : ℚ) ≤ floating ∧ floating ≤ (maxInt64 + 1 : ℚ) then
          .ok (toString (lib.int64OfFloat floating))
        else .ok (lib.formatFloat floating)

mutual
/-- The members of an object are a map, which is written in the order of its keys. -/
def normalizeJSONValue (lib : Library) : Value → Except Fault Value
  | .object members => do
    let normalized ← normalizeMembers lib members
    return .object (byKey normalized)
  | .array items => do
    let normalized ← normalizeItems lib items
    return .array normalized
  | .number literal => do
    let number ← normalizeNumber lib literal
    return .number number
  | .null => .ok .null
  | .bool b => .ok (.bool b)
  | .string s => .ok (.string s)

def normalizeItems (lib : Library) : List Value → Except Fault (List Value)
  | [] => .ok []
  | child :: items => do
    let value ← normalizeJSONValue lib child
    let normalized ← normalizeItems lib items
    return value :: normalized

def normalizeMembers (lib : Library) : List (String × Value) → Except Fault (List (String × Value))
  | [] => .ok []
  | (key, child) :: members => do
    let value ← normalizeJSONValue lib child
    let normalized ← normalizeMembers lib members
    return (key, value) :: normalized
end

/-! ## The document -/

def decodeObject (lib : Library) (data : String) : Except Fault (List (String × Value)) :=
  match lib.decode data with
  | .error cause => .error (.decode cause)
  | .ok (rawDocument, trailing) => do
    requireJSONEOF trailing
    match rawDocument with
    | .object rawObject => .ok rawObject
    | _ => .error .notObject

def hashDocument (lib : Library) (pkg : Packages) (rawObject : List (String × Value)) : Except Fault String := do
  let normalized ← normalizeJSONValue lib (.object rawObject)
  let canonical := String.ofList normalized.text
  reject (canonical = "") .empty
  return pkg.hexDigest canonical

def parseDesiredState (lib : Library) (pkg : Packages) (data : String) (expectedScope : Scope) :
    Except Fault ParsedDesiredState := do
  let rawObject ← decodeObject lib data
  let state ← desiredStateFromJSON lib rawObject
  let (state, rawObject) ← (canonicalizeDesiredRepositoryURLs pkg state rawObject).mapError .desired
  (validateDesiredState pkg state expectedScope).mapError .desired
  let stateHash ← hashDocument lib pkg rawObject
  return { state, stateHash, raw := data }

inductive Classification where
  | invalid (fault : Fault)
  | stale (parsed : ParsedDesiredState)
  | unchanged (parsed : ParsedDesiredState)
  | conflict (parsed : ParsedDesiredState)
  | new (parsed : ParsedDesiredState)
  deriving DecidableEq, Repr

def classifyDesiredState (lib : Library) (pkg : Packages) (data : String) (expectedScope : Scope)
    (currentGeneration : Int)
    (currentHash : String) : Classification :=
  match parseDesiredState lib pkg data expectedScope with
  | .error fault => .invalid fault
  | .ok parsed =>
    if parsed.state.generation < currentGeneration then .stale parsed
    else if parsed.state.generation = currentGeneration ∧ parsed.stateHash = currentHash then .unchanged parsed
    else if parsed.state.generation = currentGeneration then .conflict parsed
    else .new parsed

end PitCrew.Autoscaler.Document
