import PitCrew.Base.Check
import PitCrew.Base.Map
import PitCrew.Base.Utf8
import Mathlib.Data.List.DropRight
import Mathlib.Data.String.Basic

/-! # Desired capacity

The desired-capacity document (`manager/autoscaler/desired_state.go`) and the targets it asks for
(`buildTargetSpecs` and what it calls in `labels.go`). Counts and generations are exact integers. A text is
its list of characters; where the code cuts a string or decodes one from percent signs, it is its bytes. What
the Go library does (`net/url`, `unicode`, `crypto/sha256`, JSON decoding) is a parameter. -/

namespace PitCrew.Autoscaler
open Base

/-- `url.URL`, as far as it is read or written. Host and path are decoded, and may be any bytes. -/
structure URL where
  scheme : String
  host : Bytes
  path : Bytes
  user : Bool := false
  rawPath : String := ""
  rawQuery : String := ""
  fragment : String := ""
  forceQuery : Bool := false
  deriving DecidableEq, Repr

inductive Scope where
  | repo
  | org
  | ent
  | other (text : String)
  deriving DecidableEq, Repr

structure DesiredRepository where
  url : String
  workers : Int
  deriving DecidableEq, Repr

structure DesiredState where
  schemaVersion : Int := 0
  generation : Int := 0
  scope : Scope := .other ""
  repositories : List DesiredRepository := []
  replicas : Option Int := none
  deriving DecidableEq, Repr

structure ParsedDesiredState where
  state : DesiredState
  stateHash : String
  raw : String
  deriving DecidableEq, Repr

/-- The library functions that the package calls. -/
structure Packages where
  parseURL : String → Option URL
  /-- `(*URL).String`. -/
  formatURL : URL → String
  hostname : URL → Bytes
  port : URL → String
  isSpace : Char → Bool
  isLetter : Char → Bool
  isDigit : Char → Bool
  lower : Char → Char
  hexDigest : String → String
  /-- `desiredStateFromJSON` of the one JSON object that the data hold. -/
  decode : String → Option DesiredState
  stateHash : String → String

/-- What the documentation of the library says, as far as it matters here. -/
structure Packages.Documented (pkg : Packages) : Prop where
  formatURL_scheme : ∀ u : URL, u.scheme ≠ "" → ∃ rest, pkg.formatURL u = u.scheme ++ ":" ++ rest

inductive DesiredFault where
  | decode
  | schemaVersion (got : Int)
  | generation
  | scopeConflict (scope expected : Scope)
  | noRepositories
  | repositoryReplicas
  | urlNotCanonical (value : String)
  | urlInvalid (value : String)
  | urlNotAbsolute (value : String)
  | urlWithoutRepository (value : String)
  | negativeWorkers (url : String)
  | duplicateURL (url : String)
  | scopeRepositories
  | scopeReplicas
  | unknownScope (scope : Scope)
  | unsupportedScope (scope : Scope)
  | maximumExceeded (subject : String) (maximum : Int)
  deriving DecidableEq, Repr

/-! ## Texts -/

def trimLeft (bad : Char → Bool) (s : String) : String := String.ofList (s.toList.dropWhile bad)

def trimRight (bad : Char → Bool) (s : String) : String := String.ofList (s.toList.reverse.dropWhile bad).reverse

def trim (bad : Char → Bool) (s : String) : String := trimRight bad (trimLeft bad s)

def toLower (pkg : Packages) (s : String) : String := s.map pkg.lower

/-- `strings.ToLower` of any bytes; what is not UTF-8 is replaced. -/
def lowerBytes (pkg : Packages) (s : Bytes) : Bytes := Utf8.encode ((Utf8.decode s).map pkg.lower)

/-- `strings.Trim` with one character. -/
def trimByte (cut : UInt8) (s : Bytes) : Bytes := (s.dropWhile (· = cut)).rdropWhile (· = cut)

def slash : UInt8 := 47
def colon : UInt8 := 58
def hyphen : UInt8 := 45

/-- `net.JoinHostPort`. -/
def joinHostPort (host : Bytes) (port : String) : Bytes :=
  if colon ∈ host then Utf8.ofString "[" ++ host ++ Utf8.ofString ("]:" ++ port)
    else host ++ Utf8.ofString (":" ++ port)

/-- The path of a repository, without slashes and one `.git` at its end. -/
def repositoryPath (pkg : Packages) (path : Bytes) : Bytes :=
  let path := path.rdropWhile (· = slash)
  if Utf8.ofString ".git" <:+ lowerBytes pkg path then path.rdrop 4 else path

/-- The host of a repository, without the port that is the scheme's own. -/
def repositoryHost (pkg : Packages) (scheme : String) (parsed : URL) : Bytes :=
  let hostname := lowerBytes pkg (pkg.hostname parsed)
  let port := pkg.port parsed
  let port := if (scheme = "http" ∧ port = "80") ∨ (scheme = "https" ∧ port = "443") then "" else port
  if port ≠ "" then joinHostPort hostname port
  else if colon ∈ hostname then Utf8.ofString "[" ++ hostname ++ Utf8.ofString "]"
  else hostname

def canonicalRepositoryURL (pkg : Packages) (value : String) : Except DesiredFault String := do
  reject (value = "" ∨ value = "-" ∨ value ≠ trim pkg.isSpace value ∨ value.toList.any pkg.isSpace)
    (.urlNotCanonical value)
  match pkg.parseURL value with
  | none => .error (.urlInvalid value)
  | some parsed =>
    let scheme := toLower pkg parsed.scheme
    reject ((scheme ≠ "http" ∧ scheme ≠ "https") ∨ parsed.host = [] ∨ trimByte slash parsed.path = [] ∨
      parsed.user ∨ parsed.rawQuery ≠ "" ∨ parsed.fragment ≠ "") (.urlNotAbsolute value)
    let path := repositoryPath pkg parsed.path
    reject (trimByte slash path = []) (.urlWithoutRepository value)
    let host := repositoryHost pkg scheme parsed
    .ok (trimRight (· = '/') (pkg.formatURL { parsed with scheme, path, host, rawPath := "", forceQuery := false }))

/-! ## The document -/

/-- The repositories of a document, with the canonical URLs already seen. -/
def validateRepositories (pkg : Packages) : List String → List DesiredRepository → Except DesiredFault Unit
  | _, [] => .ok ()
  | seen, repository :: repositories => do
    let canonicalURL ← canonicalRepositoryURL pkg repository.url
    reject (repository.workers < 0) (.negativeWorkers repository.url)
    reject (canonicalURL ∈ seen) (.duplicateURL canonicalURL)
    validateRepositories pkg (canonicalURL :: seen) repositories

def validateDesiredState (pkg : Packages) (state : DesiredState) (expectedScope : Scope) :
    Except DesiredFault Unit := do
  reject (state.schemaVersion ≠ 1) (.schemaVersion state.schemaVersion)
  reject (state.generation < 1) .generation
  reject (expectedScope ≠ .other "" ∧ state.scope ≠ expectedScope) (.scopeConflict state.scope expectedScope)
  match state.scope with
  | .repo =>
    reject (state.repositories = []) .noRepositories
    reject (state.replicas ≠ none) .repositoryReplicas
    validateRepositories pkg [] state.repositories
  | .org | .ent =>
    reject (state.repositories ≠ []) .scopeRepositories
    reject (state.replicas.all (· < 0)) .scopeReplicas
  | .other text => .error (.unknownScope (.other text))

def canonicalizeDesiredRepositoryURLs (pkg : Packages) (state : DesiredState) : Except DesiredFault DesiredState :=
  if state.scope ≠ .repo then .ok state
  else do
    let repositories ← state.repositories.mapM fun repository => do
      let url ← canonicalRepositoryURL pkg repository.url
      return { repository with url }
    return { state with repositories }

def parseDesiredState (pkg : Packages) (data : String) (expectedScope : Scope) :
    Except DesiredFault ParsedDesiredState :=
  match pkg.decode data with
  | none => .error .decode
  | some decoded => do
    let state ← canonicalizeDesiredRepositoryURLs pkg decoded
    validateDesiredState pkg state expectedScope
    return { state, stateHash := pkg.stateHash data, raw := data }

inductive DesiredClassification where
  | invalid (fault : DesiredFault)
  | stale (parsed : ParsedDesiredState)
  | unchanged (parsed : ParsedDesiredState)
  | conflict (parsed : ParsedDesiredState)
  | new (parsed : ParsedDesiredState)
  deriving DecidableEq, Repr

def classifyDesiredState (pkg : Packages) (data : String) (expectedScope : Scope) (currentGeneration : Int)
    (currentHash : String) : DesiredClassification :=
  match parseDesiredState pkg data expectedScope with
  | .error fault => .invalid fault
  | .ok parsed =>
    if parsed.state.generation < currentGeneration then .stale parsed
    else if parsed.state.generation = currentGeneration ∧ parsed.stateHash = currentHash then .unchanged parsed
    else if parsed.state.generation = currentGeneration then .conflict parsed
    else .new parsed

/-! ## Targets -/

structure TargetSpec where
  key : String
  registrationURL : String
  repository : String := ""
  maximum : Int
  scaleSetName : String
  deriving DecidableEq, Repr

/-- The fields of the manager's configuration that the modelled functions read. -/
structure Config where
  scope : Scope
  profileID : String
  namePrefix : String
  organization : String := ""
  enterprise : String := ""
  minimumIdle : Int := 0
  deriving DecidableEq, Repr

/-- Letters and digits are kept, each run of other characters becomes one hyphen. -/
def sanitizeRunes (pkg : Packages) : List Char → List Char → List Char
  | built, [] => built.reverse
  | built, r :: runes =>
    if pkg.isLetter r ∨ pkg.isDigit r then sanitizeRunes pkg (r :: built) runes
    else if built ≠ [] ∧ built.head? ≠ some '-' then sanitizeRunes pkg ('-' :: built) runes
    else sanitizeRunes pkg built runes

def sanitizeIdentifier (pkg : Packages) (value : Bytes) (maximum : Nat) : Bytes :=
  let result := trimByte hyphen (Utf8.encode (sanitizeRunes pkg [] (Utf8.decode (lowerBytes pkg value))))
  if result.length > maximum then trimByte hyphen (result.take maximum) else result

def sanitizeText (pkg : Packages) (value : String) (maximum : Nat) : String :=
  Utf8.toString (sanitizeIdentifier pkg (Utf8.ofString value) maximum)

def repositoryTargetKey (pkg : Packages) (repositoryURL : String) : String :=
  "repo-" ++ String.ofList ((pkg.hexDigest repositoryURL).toList.take 16)

def stableScaleSetName (pkg : Packages) (profileID namePrefix registrationURL : String) : String :=
  let hash := String.ofList ((pkg.hexDigest (namePrefix ++ "\n" ++ registrationURL)).toList.take 12)
  let profile := sanitizeText pkg profileID 40
  let profile := if profile = "" then "profile" else profile
  "pitcrew-" ++ profile ++ "-" ++ hash

def maxInt32 : Int := 2147483647

/-- The targets of the repositories, with the canonical URLs already seen. -/
def repositoryTargets (pkg : Packages) (cfg : Config) : List String → List DesiredRepository →
    Except DesiredFault (List TargetSpec)
  | _, [] => .ok []
  | seen, repository :: repositories => do
    let canonicalURL ← canonicalRepositoryURL pkg repository.url
    reject (canonicalURL ∈ seen) (.duplicateURL canonicalURL)
    reject (repository.workers > maxInt32) (.maximumExceeded canonicalURL repository.workers)
    let targets ← repositoryTargets pkg cfg (canonicalURL :: seen) repositories
    return { key := repositoryTargetKey pkg canonicalURL
             registrationURL := canonicalURL
             repository := canonicalURL
             maximum := repository.workers
             scaleSetName := stableScaleSetName pkg cfg.profileID cfg.namePrefix canonicalURL } :: targets

/-- The one target of an organization or an enterprise. A document without replicas is not accepted, so
    that the pointer is read is a fault of the caller; it counts as zero here. -/
def scopeTarget (pkg : Packages) (cfg : Config) (subject registrationURL : String) (replicas : Option Int) :
    Except DesiredFault (List TargetSpec) := do
  reject (replicas.getD 0 > maxInt32) (.maximumExceeded subject (replicas.getD 0))
  return [{ key := "scope"
            registrationURL
            maximum := replicas.getD 0
            scaleSetName := stableScaleSetName pkg cfg.profileID cfg.namePrefix registrationURL }]

def unorderedTargets (pkg : Packages) (cfg : Config) (state : DesiredState) : Except DesiredFault (List TargetSpec) :=
  match state.scope with
  | .repo => repositoryTargets pkg cfg [] state.repositories
  | .org => scopeTarget pkg cfg "organization" ("https://github.com/" ++ cfg.organization) state.replicas
  | .ent => scopeTarget pkg cfg "enterprise" ("https://github.com/enterprises/" ++ cfg.enterprise) state.replicas
  | .other text => .error (.unsupportedScope (.other text))

def buildTargetSpecs (pkg : Packages) (cfg : Config) (state : DesiredState) :
    Except DesiredFault (List TargetSpec) := do
  let targets ← unorderedTargets pkg cfg state
  return targets.insertionSort fun a b => a.key ≤ b.key

/-! ## Slots -/

/-- `%06d` of a positive number. -/
def slotOrdinal (ordinal : Nat) : String :=
  let digits := (toString ordinal).toList
  String.ofList (List.replicate (6 - digits.length) '0' ++ digits)

def slotKeys (targetKey : String) (workers : Int) : List String :=
  (List.range workers.toNat).map fun index => targetKey ++ "-" ++ slotOrdinal (index + 1)

def configuredSlotKeys (pkg : Packages) (state : DesiredState) : List String :=
  let keys :=
    if state.scope = .repo then
      state.repositories.flatMap fun repository => slotKeys (repositoryTargetKey pkg repository.url) repository.workers
    else
      match state.replicas with
      | some replicas => slotKeys "scope" replicas
      | none => []
  keys.insertionSort (· ≤ ·)

/-- The slots that a state adds, drains and leaves as they are. -/
def diffSlotKeys (pkg : Packages) (previous current : DesiredState) : List String × List String × List String :=
  let previousKeys := configuredSlotKeys pkg previous
  let currentKeys := configuredSlotKeys pkg current
  ((currentKeys.filter (· ∉ previousKeys)).insertionSort (· ≤ ·),
    sortedList (previousKeys.toFinset.filter (· ∉ currentKeys)),
    (currentKeys.filter (· ∈ previousKeys)).insertionSort (· ≤ ·))

end PitCrew.Autoscaler
