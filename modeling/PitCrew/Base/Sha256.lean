import PitCrew.Base.Utf8

/-! # SHA-256

The digest of a text in UTF-8. Words are natural numbers below 2³², and the arithmetic on them is modulo 2³². -/

namespace Base.Sha256

def modulus : Nat := 4294967296

def rotateRight (n word : Nat) : Nat := (word >>> n) ||| ((word <<< (32 - n)) % modulus)

def xor3 (a b c : Nat) : Nat := Nat.xor (Nat.xor a b) c

/-! ## Compression -/

def constants : List Nat :=
  [0x428a2f98, 0x71374491, 0xb5c0fbcf, 0xe9b5dba5, 0x3956c25b, 0x59f111f1, 0x923f82a4, 0xab1c5ed5,
    0xd807aa98, 0x12835b01, 0x243185be, 0x550c7dc3, 0x72be5d74, 0x80deb1fe, 0x9bdc06a7, 0xc19bf174,
    0xe49b69c1, 0xefbe4786, 0x0fc19dc6, 0x240ca1cc, 0x2de92c6f, 0x4a7484aa, 0x5cb0a9dc, 0x76f988da,
    0x983e5152, 0xa831c66d, 0xb00327c8, 0xbf597fc7, 0xc6e00bf3, 0xd5a79147, 0x06ca6351, 0x14292967,
    0x27b70a85, 0x2e1b2138, 0x4d2c6dfc, 0x53380d13, 0x650a7354, 0x766a0abb, 0x81c2c92e, 0x92722c85,
    0xa2bfe8a1, 0xa81a664b, 0xc24b8b70, 0xc76c51a3, 0xd192e819, 0xd6990624, 0xf40e3585, 0x106aa070,
    0x19a4c116, 0x1e376c08, 0x2748774c, 0x34b0bcb5, 0x391c0cb3, 0x4ed8aa4a, 0x5b9cca4f, 0x682e6ff3,
    0x748f82ee, 0x78a5636f, 0x84c87814, 0x8cc70208, 0x90befffa, 0xa4506ceb, 0xbef9a3f7, 0xc67178f2]

structure State where
  a : Nat
  b : Nat
  c : Nat
  d : Nat
  e : Nat
  f : Nat
  g : Nat
  h : Nat

def State.initial : State where
  a := 0x6a09e667
  b := 0xbb67ae85
  c := 0x3c6ef372
  d := 0xa54ff53a
  e := 0x510e527f
  f := 0x9b05688c
  g := 0x1f83d9ab
  h := 0x5be0cd19

def State.round (s : State) (input : Nat) : State :=
  let choice := Nat.xor (s.e &&& s.f) ((modulus - 1 - s.e) &&& s.g)
  let t := s.h + xor3 (rotateRight 6 s.e) (rotateRight 11 s.e) (rotateRight 25 s.e) + choice + input
  let majority := xor3 (s.a &&& s.b) (s.a &&& s.c) (s.b &&& s.c)
  let u := xor3 (rotateRight 2 s.a) (rotateRight 13 s.a) (rotateRight 22 s.a) + majority
  { a := (t + u) % modulus, b := s.a, c := s.b, d := s.c, e := (s.d + t) % modulus, f := s.e, g := s.f, h := s.g }

def State.add (s t : State) : State where
  a := (s.a + t.a) % modulus
  b := (s.b + t.b) % modulus
  c := (s.c + t.c) % modulus
  d := (s.d + t.d) % modulus
  e := (s.e + t.e) % modulus
  f := (s.f + t.f) % modulus
  g := (s.g + t.g) % modulus
  h := (s.h + t.h) % modulus

/-- The message schedule: each further word is made from the sixteen before it. -/
def schedule : Nat → List Nat → List Nat
  | 0, words => words
  | _ + 1, [] => []
  | rounds + 1, first :: words =>
    let second := words.getD 0 0
    let fifteenth := words.getD 13 0
    let next := first + xor3 (rotateRight 7 second) (rotateRight 18 second) (second >>> 3) + words.getD 8 0 +
      xor3 (rotateRight 17 fifteenth) (rotateRight 19 fifteenth) (fifteenth >>> 10)
    first :: schedule rounds (words ++ [next % modulus])

def State.compress (s : State) (words : List Nat) : State :=
  s.add ((List.zipWith (· + ·) constants (schedule 48 words)).foldl State.round s)

/-! ## Digests -/

/-- The message with its padding: a bit, zeros up to a whole block, and the length in bits. -/
def pad (message : List Nat) : List Nat :=
  message ++ 128 :: List.replicate ((119 - message.length % 64) % 64) 0 ++
    (List.range 8).map fun i => (8 * message.length) >>> (8 * (7 - i)) % 256

def toWords : Nat → List Nat → List Nat
  | 0, _ => []
  | words + 1, bytes => (bytes.take 4).foldl (fun word byte => 256 * word + byte) 0 :: toWords words (bytes.drop 4)

def State.compressBlocks : Nat → State → List Nat → State
  | 0, s, _ => s
  | blocks + 1, s, words => State.compressBlocks blocks (s.compress (words.take 16)) (words.drop 16)

def digest (text : String) : State :=
  let message := pad ((Utf8.ofString text).map UInt8.toNat)
  State.compressBlocks (message.length / 64) .initial (toWords (message.length / 4) message)

def firstBytes (text : String) : UInt8 × UInt8 :=
  (UInt8.ofNat ((digest text).a >>> 24), UInt8.ofNat ((digest text).a >>> 16))

def hexWord (word : Nat) : List Char := (List.range 8).map fun i => Nat.digitChar (word >>> (4 * (7 - i)) % 16)

def hex (text : String) : String :=
  let s := digest text
  String.ofList ([s.a, s.b, s.c, s.d, s.e, s.f, s.g, s.h].flatMap hexWord)

theorem length_hexWord (word : Nat) : (hexWord word).length = 8 := by rw [hexWord, List.length_map, List.length_range]

theorem length_hex (text : String) : (hex text).length = 64 := by
  simp only [hex, String.length_ofList, List.flatMap_cons, List.flatMap_nil, List.length_append, length_hexWord,
    List.length_nil]

theorem mem_hex {text : String} {c : Char} (h : c ∈ (hex text).toList) : c ∈ "0123456789abcdef".toList := by
  have hdigits : ∀ n < 16, Nat.digitChar n ∈ "0123456789abcdef".toList := by decide
  rw [hex, String.toList_ofList] at h
  obtain ⟨word, -, hword⟩ := List.mem_flatMap.mp h
  obtain ⟨i, -, rfl⟩ := List.mem_map.mp hword
  exact hdigits _ (Nat.mod_lt _ (by decide))

def hexFrom (table : List (String × String)) (text : String) : String := (table.lookup text).getD (hex text)

theorem hexFrom_eq {table : List (String × String)} (h : ∀ entry ∈ table, hex entry.1 = entry.2) :
    hexFrom table = hex := by
  funext text
  unfold hexFrom
  induction table with
  | nil => rfl
  | cons entry table ih =>
    rw [List.lookup_cons]
    split
    next heq => rw [eq_of_beq heq, h entry List.mem_cons_self, Option.getD_some]
    next => exact ih fun entry hentry => h entry (List.mem_cons_of_mem _ hentry)

example : hex "abc" = "ba7816bf8f01cfea414140de5dae2223b00361a396177a9cb410ff61f20015ad" := by decide +kernel

end Base.Sha256
