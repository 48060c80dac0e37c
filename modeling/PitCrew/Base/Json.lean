import Mathlib.Data.List.Basic
import Mathlib.Tactic

/-! # Compact JSON texts

The text that Go's `encoding/json` writes for a value without indentation, as its list of characters, and
the number of bytes it takes. A value is built from the texts of its parts, so what is known about the length
of a text is one lemma for each way to build it. -/

namespace Base.Json

def hex4 (n : Nat) : List Char :=
  [Nat.digitChar (n / 4096 % 16), Nat.digitChar (n / 256 % 16), Nat.digitChar (n / 16 % 16), Nat.digitChar (n % 16)]

def escape (c : Char) : List Char :=
  if c = '"' then ['\\', '"']
  else if c = '\\' then ['\\', '\\']
  else if c = '\n' then ['\\', 'n']
  else if c = '\r' then ['\\', 'r']
  else if c = '\t' then ['\\', 't']
  else if c = Char.ofNat 8 then ['\\', 'b']
  else if c = Char.ofNat 12 then ['\\', 'f']
  else if c.toNat < 32 ∨ c = '<' ∨ c = '>' ∨ c = '&' ∨ c.toNat = 8232 ∨ c.toNat = 8233 then '\\' :: 'u' :: hex4 c.toNat
  else [c]

def string (s : String) : List Char := '"' :: (s.toList.flatMap escape ++ ['"'])

def int (n : Int) : List Char := (toString n).toList

def null : List Char := "null".toList

def optional {α : Type} (encode : α → List Char) : Option α → List Char
  | none => null
  | some a => encode a

def commas : List (List Char) → List Char
  | [] => []
  | [item] => item
  | item :: items => item ++ ',' :: commas items

def array (items : List (List Char)) : List Char := '[' :: (commas items ++ [']'])

def field (name : String) (value : List Char) : List Char := string name ++ ':' :: value

def object (fields : List (List Char)) : List Char := '\x7b' :: (commas fields ++ ['\x7d'])

/-! ## Lengths -/

def bytes (text : List Char) : Nat := (text.map Char.utf8Size).sum

@[simp] theorem bytes_nil : bytes [] = 0 := rfl

@[simp] theorem bytes_cons (c : Char) (text : List Char) : bytes (c :: text) = c.utf8Size + bytes text := rfl

@[simp] theorem bytes_append (a b : List Char) : bytes (a ++ b) = bytes a + bytes b := by
  simp [bytes, List.map_append, List.sum_append]

theorem bytes_commas {items : List (List Char)} (h : items ≠ []) :
    bytes (commas items) + 1 = (items.map bytes).sum + items.length := by
  induction items with
  | nil => exact absurd rfl h
  | cons item items ih =>
    cases items with
    | nil => simp [commas]
    | cons next items =>
      have hcomma : ','.utf8Size = 1 := by decide
      have hrest := ih (List.cons_ne_nil next items)
      rw [commas, bytes_append, bytes_cons, hcomma, List.map_cons, List.sum_cons, List.length_cons]
      · omega
      · exact fun h => absurd h (List.cons_ne_nil next items)

theorem bytes_array {items : List (List Char)} (h : items ≠ []) :
    bytes (array items) = (items.map bytes).sum + items.length + 1 := by
  have hopen : '['.utf8Size = 1 := by decide
  have hclose : bytes [']'] = 1 := by decide
  have hcommas := bytes_commas h
  rw [array, bytes_cons, bytes_append, hopen, hclose]
  omega

theorem bytes_object {fields : List (List Char)} (h : fields ≠ []) :
    bytes (object fields) = (fields.map bytes).sum + fields.length + 1 := by
  have hopen : '\x7b'.utf8Size = 1 := by decide
  have hclose : bytes ['\x7d'] = 1 := by decide
  have hcommas := bytes_commas h
  rw [object, bytes_cons, bytes_append, hopen, hclose]
  omega

theorem bytes_field (name : String) (value : List Char) :
    bytes (field name value) = bytes (string name) + 1 + bytes value := by
  have hcolon : ':'.utf8Size = 1 := by decide
  rw [field, bytes_append, bytes_cons, hcolon, Nat.add_assoc]

theorem bytes_digits {text : List Char} (h : ∀ c ∈ text, c.isDigit = true) : bytes text = text.length := by
  induction text with
  | nil => rfl
  | cons c text ih =>
    have hdigit : c.utf8Size = 1 := by
      have hrange := h c List.mem_cons_self
      rw [Char.isDigit, Bool.and_eq_true, decide_eq_true_iff, decide_eq_true_iff] at hrange
      have hnine : '9'.val ≤ 127 := by decide
      have hle : c.val ≤ 127 := UInt32.le_trans hrange.2 hnine
      exact if_pos hle
    rw [bytes_cons, hdigit, ih fun d hd => h d (List.mem_cons_of_mem c hd), List.length_cons, Nat.add_comm]

theorem bytes_int_le {n : Int} {digits : Nat} (hn : 0 ≤ n) (hdigits : 0 < digits) (h : n < 10 ^ digits) :
    bytes (int n) ≤ digits := by
  obtain ⟨m, rfl⟩ := Int.eq_ofNat_of_zero_le hn
  have htext : int (m : Int) = Nat.toDigits 10 m := by
    rw [int, Int.toString_eq_repr]
    exact Nat.toList_repr
  rw [htext, bytes_digits fun c hc => Nat.isDigit_of_mem_toDigits (by decide) le_rfl hc]
  exact Nat.toDigits_length 10 m digits hdigits (by exact_mod_cast h)

end Base.Json
