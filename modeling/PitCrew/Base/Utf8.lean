import Mathlib.Data.List.Basic
import Mathlib.Tactic

/-! # Strings of bytes

A string as Go keeps it: bytes, which need not be UTF-8. A loop over its runes, a regular expression and a JSON
encoder all read a byte that begins no rune as the replacement character. -/

namespace Base

abbrev Bytes := List UInt8

namespace Utf8

def encode (runes : List Char) : Bytes := runes.flatMap String.utf8EncodeChar

/-- What a byte that begins no rune is read as. -/
def runeError : Char := '�'

/-- The runes, at most as many as there are rounds. -/
def decodeRounds : Nat → Bytes → List Char
  | 0, _ => []
  | _ + 1, [] => []
  | rounds + 1, b :: bytes =>
    match (b :: bytes).toByteArray.utf8DecodeChar? 0 with
    | some rune => rune :: decodeRounds rounds ((b :: bytes).drop rune.utf8Size)
    | none => runeError :: decodeRounds rounds bytes

def decode (bytes : Bytes) : List Char := decodeRounds bytes.length bytes

def ofString (s : String) : Bytes := encode s.toList

def toString (bytes : Bytes) : String := String.ofList (decode bytes)

section
variable {bytes : Bytes} {rune : Char} {runes : List Char}

@[simp] theorem encode_nil : encode [] = [] := rfl

theorem encode_cons (rune : Char) (runes : List Char) :
    encode (rune :: runes) = String.utf8EncodeChar rune ++ encode runes := rfl

@[simp] theorem encode_append (a b : List Char) : encode (a ++ b) = encode a ++ encode b := List.flatMap_append

theorem decodeRounds_eq {m n : Nat} (hm : bytes.length ≤ m) (hn : bytes.length ≤ n) :
    decodeRounds m bytes = decodeRounds n bytes := by
  induction m generalizing n bytes with
  | zero =>
    obtain rfl := List.eq_nil_of_length_eq_zero (Nat.le_zero.mp hm)
    cases n <;> rfl
  | succ m ih =>
    cases bytes with
    | nil => cases n <;> rfl
    | cons b bytes =>
      cases n with
      | zero => exact absurd hn (by simp)
      | succ n =>
        have hm : bytes.length ≤ m := Nat.le_of_succ_le_succ hm
        have hn : bytes.length ≤ n := Nat.le_of_succ_le_succ hn
        unfold decodeRounds
        split
        · next rune _ =>
          have hrest : ((b :: bytes).drop rune.utf8Size).length ≤ bytes.length := by
            have hpos := rune.utf8Size_pos
            rw [List.length_drop, List.length_cons]
            omega
          rw [ih (hrest.trans hm) (hrest.trans hn)]
        · rw [ih hm hn]

@[simp] theorem decode_nil : decode [] = [] := rfl

theorem decode_cons (b : UInt8) (bytes : Bytes) :
    decode (b :: bytes) =
      match (b :: bytes).toByteArray.utf8DecodeChar? 0 with
      | some rune => rune :: decode ((b :: bytes).drop rune.utf8Size)
      | none => runeError :: decode bytes := by
  unfold decode
  rw [List.length_cons, decodeRounds]
  split
  · next rune _ =>
    have hpos := rune.utf8Size_pos
    rw [decodeRounds_eq _ le_rfl]
    rw [List.length_drop, List.length_cons]
    omega
  · rfl

theorem decode_ne_nil (h : bytes ≠ []) : decode bytes ≠ [] := by
  cases bytes with
  | nil => exact absurd rfl h
  | cons b bytes =>
    rw [decode_cons]
    split <;> exact List.cons_ne_nil _ _

theorem decode_encode_cons_append (rune : Char) (bytes : Bytes) :
    decode (String.utf8EncodeChar rune ++ bytes) = rune :: decode bytes := by
  have hread : (String.utf8EncodeChar rune ++ bytes).toByteArray.utf8DecodeChar? 0 = some rune := by
    rw [List.toByteArray_append]
    exact ByteArray.utf8DecodeChar?_utf8EncodeChar_append
  have hdrop : (String.utf8EncodeChar rune ++ bytes).drop rune.utf8Size = bytes := by
    rw [← String.length_utf8EncodeChar rune, List.drop_left]
  cases hall : String.utf8EncodeChar rune ++ bytes with
  | nil =>
    have hlength := congrArg List.length hall
    have hpos := rune.utf8Size_pos
    rw [List.length_append, String.length_utf8EncodeChar, List.length_nil] at hlength
    omega
  | cons b rest =>
    rw [hall] at hread hdrop
    rw [decode_cons, hread]
    dsimp only
    rw [hdrop]

theorem decode_encode_append (runes : List Char) (bytes : Bytes) :
    decode (encode runes ++ bytes) = runes ++ decode bytes := by
  induction runes with
  | nil => rfl
  | cons rune runes ih => rw [encode_cons, List.append_assoc, decode_encode_cons_append, ih, List.cons_append]

@[simp] theorem decode_encode (runes : List Char) : decode (encode runes) = runes := by
  have h := decode_encode_append runes []
  rwa [List.append_nil, decode_nil, List.append_nil] at h

theorem encode_decode (h : runeError ∉ decode bytes) : encode (decode bytes) = bytes := by
  generalize hn : bytes.length = n
  induction n using Nat.strong_induction_on generalizing bytes with
  | _ n ih =>
    cases bytes with
    | nil => rfl
    | cons b bytes =>
      rw [decode_cons] at h ⊢
      cases hread : (b :: bytes).toByteArray.utf8DecodeChar? 0 with
      | none =>
        rw [hread] at h
        exact absurd List.mem_cons_self h
      | some rune =>
        rw [hread] at h
        dsimp only at h ⊢
        have hpos := rune.utf8Size_pos
        have hfirst : (b :: bytes).take rune.utf8Size = String.utf8EncodeChar rune := by
          have hextract := String.toByteArray_utf8EncodeChar_of_utf8DecodeChar?_eq_some hread
          have hlist := congrArg (fun a : ByteArray => a.data.toList) hextract
          simp only [List.toList_data_toByteArray, ByteArray.data_extract, Array.toList_extract,
            List.extract_eq_take_drop, Nat.sub_zero, List.drop_zero] at hlist
          exact hlist.symm
        have hrest := ih ((b :: bytes).drop rune.utf8Size).length
          (by rw [← hn, List.length_drop, List.length_cons]; omega)
          (fun hmem => h (List.mem_cons_of_mem _ hmem)) rfl
        rw [encode_cons, hrest, ← hfirst, List.take_append_drop]

end

/-! ## ASCII -/

def isAscii (rune : Char) : Bool := rune.toNat < 128

def asciiByte (rune : Char) : UInt8 := UInt8.ofNat rune.toNat

section
variable {bytes : Bytes} {rune : Char} {runes : List Char}

theorem encode_rune_ascii (h : isAscii rune = true) : String.utf8EncodeChar rune = [asciiByte rune] := by
  have h : rune.val.toNat < 128 := of_decide_eq_true h
  unfold String.utf8EncodeChar
  dsimp only
  rw [if_pos (by omega)]
  rfl

theorem asciiByte_lt (h : isAscii rune = true) : asciiByte rune < 128 := by
  have h : rune.toNat < 128 := of_decide_eq_true h
  unfold asciiByte
  rw [UInt8.lt_iff_toNat_lt, UInt8.toNat_ofNat_of_lt' (h.trans (by decide))]
  exact h

theorem encode_ascii (h : ∀ rune ∈ runes, isAscii rune = true) : encode runes = runes.map asciiByte := by
  induction runes with
  | nil => rfl
  | cons rune runes ih =>
    rw [encode_cons, encode_rune_ascii (h rune List.mem_cons_self), ih fun r hr => h r (List.mem_cons_of_mem _ hr)]
    rfl

theorem lt_of_decode_ascii (h : ∀ rune ∈ decode bytes, isAscii rune = true) : ∀ b ∈ bytes, b < 128 := by
  have hbytes : encode (decode bytes) = bytes := encode_decode fun herror => absurd (h _ herror) (by decide)
  rw [← hbytes, encode_ascii h]
  intro b hb
  obtain ⟨rune, hrune, rfl⟩ := List.mem_map.mp hb
  exact asciiByte_lt (h rune hrune)

def asciiRune (b : UInt8) : Char := Char.ofNat b.toNat

theorem toNat_asciiRune {b : UInt8} (h : b < 128) : (asciiRune b).toNat = b.toNat := by
  have h : b.toNat < 128 := UInt8.lt_iff_toNat_lt.mp h
  have hvalid : b.toNat.isValidChar := Or.inl (by omega)
  unfold asciiRune Char.ofNat
  rw [dif_pos hvalid]
  rfl

theorem asciiRune_asciiByte (h : isAscii rune = true) : asciiRune (asciiByte rune) = rune := by
  have hlt : rune.toNat < 128 := of_decide_eq_true h
  unfold asciiRune asciiByte
  rw [UInt8.toNat_ofNat_of_lt' (hlt.trans (by decide)), Char.ofNat_toNat]

theorem isAscii_asciiRune {b : UInt8} (h : b < 128) : isAscii (asciiRune b) = true :=
  decide_eq_true ((toNat_asciiRune h).trans_lt (UInt8.lt_iff_toNat_lt.mp h))

theorem encode_asciiRune {b : UInt8} (h : b < 128) : String.utf8EncodeChar (asciiRune b) = [b] := by
  rw [encode_rune_ascii (isAscii_asciiRune h)]
  show [UInt8.ofNat (asciiRune b).toNat] = [b]
  rw [toNat_asciiRune h, UInt8.ofNat_toNat]

theorem eq_asciiRune_of_mem {b : UInt8} (hb : b < 128) (h : b ∈ String.utf8EncodeChar rune) : rune = asciiRune b := by
  have hascii : isAscii rune = true := by
    have hb : b.toNat < 128 := UInt8.lt_iff_toNat_lt.mp hb
    refine decide_eq_true (Nat.lt_of_not_le fun hle => ?_)
    have hle : 128 ≤ rune.val.toNat := hle
    unfold String.utf8EncodeChar at h
    dsimp only at h
    rw [if_neg (by omega)] at h
    split at h
    · simp only [List.mem_cons, List.not_mem_nil, or_false] at h
      rcases h with rfl | rfl <;> rw [UInt8.toNat_ofNat'] at hb <;> omega
    · split at h
      · simp only [List.mem_cons, List.not_mem_nil, or_false] at h
        rcases h with rfl | rfl | rfl <;> rw [UInt8.toNat_ofNat'] at hb <;> omega
      · simp only [List.mem_cons, List.not_mem_nil, or_false] at h
        rcases h with rfl | rfl | rfl | rfl <;> rw [UInt8.toNat_ofNat'] at hb <;> omega
  rw [encode_rune_ascii hascii] at h
  rw [List.mem_singleton.mp h, asciiRune_asciiByte hascii]

theorem encode_rune_ne_nil (rune : Char) : String.utf8EncodeChar rune ≠ [] := by
  intro h
  have hlength := String.length_utf8EncodeChar rune
  rw [h] at hlength
  exact absurd hlength.symm rune.utf8Size_pos.ne'

theorem head?_encode {b : UInt8} (hb : b < 128) : (encode runes).head? = some b ↔ runes.head? = some (asciiRune b) := by
  cases runes with
  | nil => exact iff_of_false (Option.some_ne_none _).symm (Option.some_ne_none _).symm
  | cons rune runes =>
    rw [encode_cons, List.head?_append_of_ne_nil _ (encode_rune_ne_nil rune), List.head?_cons]
    constructor
    · exact fun h => congrArg some (eq_asciiRune_of_mem hb (List.mem_of_head? h))
    · intro h
      rw [Option.some.inj h, encode_asciiRune hb]
      rfl

theorem getLast?_encode {b : UInt8} (hb : b < 128) :
    (encode runes).getLast? = some b ↔ runes.getLast? = some (asciiRune b) := by
  rcases List.eq_nil_or_concat runes with rfl | ⟨front, rune, rfl⟩
  · exact iff_of_false (Option.some_ne_none _).symm (Option.some_ne_none _).symm
  · have hone : encode [rune] = String.utf8EncodeChar rune := List.append_nil _
    rw [List.concat_eq_append, encode_append, hone, List.getLast?_append_of_ne_nil _ (encode_rune_ne_nil rune),
      List.getLast?_concat]
    constructor
    · exact fun h => congrArg some (eq_asciiRune_of_mem hb (List.mem_of_getLast? h))
    · intro h
      rw [Option.some.inj h, encode_asciiRune hb]
      rfl

theorem forall_byte {P : UInt8 → Prop} (h : ∀ n : Fin 256, P (UInt8.ofNat n)) (b : UInt8) : P b := by
  have hb := h ⟨b.toNat, b.toNat_lt⟩
  rwa [UInt8.ofNat_toNat] at hb

theorem eq_encode_ascii (h : ∀ b ∈ bytes, b < 128) :
    bytes = encode (bytes.map asciiRune) ∧ ∀ rune ∈ bytes.map asciiRune, isAscii rune = true := by
  have hascii : ∀ rune ∈ bytes.map asciiRune, isAscii rune = true := by
    intro rune hrune
    obtain ⟨b, hb, rfl⟩ := List.mem_map.mp hrune
    refine decide_eq_true ?_
    rw [toNat_asciiRune (h b hb)]
    exact UInt8.lt_iff_toNat_lt.mp (h b hb)
  refine ⟨?_, hascii⟩
  rw [encode_ascii hascii, List.map_map]
  refine (List.map_id bytes).symm.trans (List.map_congr_left fun b hb => ?_)
  show b = UInt8.ofNat (asciiRune b).toNat
  rw [toNat_asciiRune (h b hb), UInt8.ofNat_toNat]

end

scoped instance (priority := 1100) decidableText (p : Char → Prop) [DecidablePred p] (l : List Char) :
    Decidable (∀ c ∈ l, p c) :=
  List.decidableBAll p l

end Utf8
end Base
