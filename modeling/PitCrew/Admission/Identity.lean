import PitCrew.Admission.Protocol
import PitCrew.Base.Text
import PitCrew.Base.Check

/-! # Identities

The syntax of profile identities, slot keys, registration names, namespaces and fingerprints
(`manager/admission/identity.go`). -/

namespace PitCrew.Admission
open Base

/-- `[a-z]` -/
def isLowerLetter (c : Char) : Bool := 'a' ≤ c && c ≤ 'z'

/-- `[A-Z]` -/
def isUpperLetter (c : Char) : Bool := 'A' ≤ c && c ≤ 'Z'

/-- `[0-9]` -/
def isNumeral (c : Char) : Bool := '0' ≤ c && c ≤ '9'

/-- `[A-Za-z0-9]` -/
def isAlphanumeric (c : Char) : Bool := isUpperLetter c || isLowerLetter c || isNumeral c

/-- `^[a-z][a-z0-9-]{0,31}$` -/
def profileIDPattern (s : String) : Bool :=
  isToken isLowerLetter (fun c => isLowerLetter c || isNumeral c || c == '-') 31 s

/-- `^[A-Za-z0-9][A-Za-z0-9._:-]{0,127}$` -/
def slotKeyPattern (s : String) : Bool :=
  isToken isAlphanumeric (fun c => isAlphanumeric c || c == '.' || c == '_' || c == ':' || c == '-') 127 s

/-- `^[A-Za-z0-9][A-Za-z0-9_.-]{0,255}$` -/
def registrationNamePattern (s : String) : Bool :=
  isToken isAlphanumeric (fun c => isAlphanumeric c || c == '_' || c == '.' || c == '-') 255 s

/-- `^[A-Za-z0-9_-]{1,128}$` -/
def fingerprintPattern (s : String) : Bool :=
  isToken (fun c => isAlphanumeric c || c == '_' || c == '-') (fun c => isAlphanumeric c || c == '_' || c == '-') 127 s

def maxFingerprintBytes : Nat := 128

def validateProfileID (profileID : String) : Except Err Unit :=
  reject (profileIDPattern profileID = false) (.invalidIdentity .profileID profileID)

def validateSlotKey (slotKey : String) : Except Err Unit :=
  reject (slotKeyPattern slotKey = false) (.invalidIdentity .slotKey slotKey)

def validateRegistrationName (registrationName : String) : Except Err Unit :=
  reject (registrationNamePattern registrationName = false) (.invalidIdentity .registrationName registrationName)

/-- Both halves of a lease identity, before they are joined into a key. -/
def validateLeaseIdentity (profileID slotKey : String) : Except Err Unit := do
  validateProfileID profileID
  validateSlotKey slotKey

/-- An empty namespace is that of a policy from before namespaces were reported. -/
def validateNamespace (namespaceName : String) : Except Err Unit :=
  reject (namespaceName ≠ "" ∧ profileIDPattern namespaceName = false) (.invalidIdentity .namespaceName namespaceName)

/-- An empty fingerprint is that of a publisher from before fingerprints were reported. -/
def validateFingerprint (name fingerprint : String) : Except Err Unit :=
  reject (fingerprint ≠ "" ∧ (fingerprint.utf8ByteSize > maxFingerprintBytes ∨ fingerprintPattern fingerprint = false))
    (.invalidPolicy (.fingerprint name))

/-! ## Keys -/

theorem slash_notMem_profileID {p : String} (h : profileIDPattern p = true) : '/' ∉ p.toList :=
  notMem_of_isToken h (by decide) (by decide)

theorem slash_notMem_slotKey {k : String} (h : slotKeyPattern k = true) : '/' ∉ k.toList :=
  notMem_of_isToken h (by decide) (by decide)

theorem profileID_ne_empty {p : String} (h : profileIDPattern p = true) : p ≠ "" := ne_empty_of_isToken h

theorem slotKey_ne_empty {k : String} (h : slotKeyPattern k = true) : k ≠ "" := ne_empty_of_isToken h

theorem validateLeaseIdentity_ok {p k : String} {u : Unit} :
    validateLeaseIdentity p k = .ok u ↔ profileIDPattern p = true ∧ slotKeyPattern k = true := by
  simp [validateLeaseIdentity, validateProfileID, validateSlotKey, bind_eq_ok]

theorem leaseKey_inj {p q a b : String} (hp : profileIDPattern p = true) (hq : profileIDPattern q = true)
    (h : leaseKey p a = leaseKey q b) : p = q ∧ a = b :=
  join_inj_left (slash_notMem_profileID hp) (slash_notMem_profileID hq) h

theorem leaseKey_eq {p k a b : String} (hp : profileIDPattern p = true) (hk : slotKeyPattern k = true)
    (h : leaseKey a b = leaseKey p k) : a = p ∧ b = k := by
  have hcount : (leaseKey a b).toList.count '/' = (leaseKey p k).toList.count '/' := by rw [h]
  have hpc : p.toList.count '/' = 0 := List.count_eq_zero.mpr (slash_notMem_profileID hp)
  have hkc : k.toList.count '/' = 0 := List.count_eq_zero.mpr (slash_notMem_slotKey hk)
  simp only [leaseKey, String.toList_append, String.toList_singleton, List.count_append, hpc, hkc] at hcount
  exact join_inj_left (List.count_eq_zero.mp (by omega)) (slash_notMem_profileID hp) h

theorem leaseIDOf_inj {k j : String} {m n : Int} (h : leaseIDOf k m = leaseIDOf j n) : k = j ∧ m = n := by
  have hmem : ∀ i : Int, '#' ∉ (toString i).toList := fun i => notMem_toString_int i (by decide) (by decide)
  obtain ⟨hkj, hmn⟩ := join_inj_right (hmem m) (hmem n) h
  exact ⟨hkj, toString_int_inj hmn⟩

end PitCrew.Admission
