import PitCrew.Base.Utf8

/-! # Percent-encoding

Bytes as a URL prints them: those of a set that are characters of their own, every other one as two
hexadecimal digits behind a percent sign. -/

namespace Base.Percent

def hexDigit (n : Nat) : Char := if n < 10 then Char.ofNat (48 + n) else Char.ofNat (55 + n)

def hexValue (c : Char) : Option Nat :=
  if c.isDigit then some (c.toNat - 48)
  else if 'A' ≤ c ∧ c ≤ 'F' then some (c.toNat - 55)
  else if 'a' ≤ c ∧ c ≤ 'f' then some (c.toNat - 87)
  else none

/-- A byte that is kept is a character of ASCII. -/
def printByte (keep : UInt8 → Bool) (b : UInt8) : List Char :=
  if keep b then [Utf8.asciiRune b] else ['%', hexDigit (b.toNat / 16), hexDigit (b.toNat % 16)]

def print (keep : UInt8 → Bool) (bytes : Bytes) : List Char := bytes.flatMap (printByte keep)

def read : List Char → Option Bytes
  | [] => some []
  | '%' :: high :: low :: rest => do
    let high ← hexValue high
    let low ← hexValue low
    let bytes ← read rest
    return UInt8.ofNat (high * 16 + low) :: bytes
  | c :: rest => do
    if c = '%' then none
    else
      let bytes ← read rest
      return String.utf8EncodeChar c ++ bytes

section
variable {keep : UInt8 → Bool} {bytes : Bytes}

theorem hexValue_hexDigit : ∀ n : Fin 16, hexValue (hexDigit n) = some n.val := by decide

theorem read_hex (b : UInt8) (rest : List Char) :
    read ('%' :: hexDigit (b.toNat / 16) :: hexDigit (b.toNat % 16) :: rest) = (read rest).map (b :: ·) := by
  have hb := b.toNat_lt
  have hhigh : hexValue (hexDigit (b.toNat / 16)) = some (b.toNat / 16) := hexValue_hexDigit ⟨b.toNat / 16, by omega⟩
  have hlow : hexValue (hexDigit (b.toNat % 16)) = some (b.toNat % 16) := hexValue_hexDigit ⟨b.toNat % 16, by omega⟩
  have hsum : b.toNat / 16 * 16 + b.toNat % 16 = b.toNat := by omega
  rw [read, hhigh, hlow]
  simp only [Option.bind_eq_bind, Option.bind_some, Option.pure_def, hsum, UInt8.ofNat_toNat]
  cases read rest <;> rfl

theorem read_ascii {b : UInt8} (hascii : b < 128) (hsign : b ≠ 37) (rest : List Char) :
    read (Utf8.asciiRune b :: rest) = (read rest).map (b :: ·) := by
  have hval := Utf8.toNat_asciiRune hascii
  have hne : Utf8.asciiRune b ≠ '%' := by
    intro h
    rw [h] at hval
    exact hsign (UInt8.toNat_inj.mp hval.symm)
  rw [read.eq_def]
  split
  · next h => cases h
  · next h => exact absurd (List.cons.inj h).1 hne
  · next c rest' _ h =>
    obtain ⟨rfl, rfl⟩ := List.cons.inj h
    rw [if_neg hne, Utf8.encode_asciiRune hascii]
    cases read rest <;> rfl

theorem read_print (hkeep : ∀ b, keep b = true → b < 128 ∧ b ≠ 37) (bytes : Bytes) :
    read (print keep bytes) = some bytes := by
  induction bytes with
  | nil => rfl
  | cons b bytes ih =>
    have hcons : print keep (b :: bytes) = printByte keep b ++ print keep bytes := rfl
    rw [hcons]
    unfold printByte
    split
    · next hb => rw [List.singleton_append, read_ascii (hkeep b hb).1 (hkeep b hb).2, ih, Option.map_some]
    · rw [List.cons_append, List.cons_append, List.singleton_append, read_hex, ih, Option.map_some]

end
end Base.Percent
