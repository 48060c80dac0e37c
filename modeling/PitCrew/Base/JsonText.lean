import PitCrew.Base.Json
import PitCrew.Base.JsonValue

/-! # The text of a JSON value

The compact text that `encoding/json` writes for a value when it does not escape for HTML, and that two values
with one text are equal. The parts of a text end where a comma or a closing bracket follows, so what is shown
for a value is that nothing else can be read off the front of a longer text. -/

namespace Base.Json

/-! ## Strings -/

/-- A character in a string that is not escaped for HTML. -/
def plainEscape (c : Char) : List Char := if c = '<' ∨ c = '>' ∨ c = '&' then [c] else escape c

def plainString (s : String) : List Char := '"' :: (s.toList.flatMap plainEscape ++ ['"'])

def hexDigitValue (c : Char) : Nat := if c.isDigit then c.toNat - 48 else c.toNat - 87

def readEscape : List Char → Option (Char × List Char)
  | '\\' :: 'u' :: a :: b :: c :: d :: rest =>
    some (Char.ofNat (hexDigitValue a * 4096 + hexDigitValue b * 256 + hexDigitValue c * 16 + hexDigitValue d), rest)
  | '\\' :: 'n' :: rest => some ('\n', rest)
  | '\\' :: 'r' :: rest => some ('\r', rest)
  | '\\' :: 't' :: rest => some ('\t', rest)
  | '\\' :: 'b' :: rest => some (Char.ofNat 8, rest)
  | '\\' :: 'f' :: rest => some (Char.ofNat 12, rest)
  | '\\' :: c :: rest => some (c, rest)
  | c :: rest => some (c, rest)
  | [] => none

theorem hexDigitValue_digitChar : ∀ n < 16, hexDigitValue (Nat.digitChar n) = n := by decide

theorem readEscape_hex4 {n : Nat} (h : n < 65536) (rest : List Char) :
    readEscape ('\\' :: 'u' :: hex4 n ++ rest) = some (Char.ofNat n, rest) := by
  have hvalue (m : Nat) : hexDigitValue (Nat.digitChar (m % 16)) = m % 16 :=
    hexDigitValue_digitChar _ (Nat.mod_lt m (by decide))
  have hsum : n / 4096 % 16 * 4096 + n / 256 % 16 * 256 + n / 16 % 16 * 16 + n % 16 = n := by omega
  simp only [hex4, List.cons_append, List.nil_append, readEscape, hvalue, hsum]

theorem readEscape_plain {c : Char} (h : c ≠ '\\') (rest : List Char) : readEscape (c :: rest) = some (c, rest) := by
  rw [readEscape]
  all_goals
    intros
    simp_all

theorem readEscape_plainEscape (c : Char) (rest : List Char) : readEscape (plainEscape c ++ rest) = some (c, rest) := by
  have hofNat : Char.ofNat c.toNat = c := Char.ofNat_toNat c
  unfold plainEscape
  split
  · rename_i h
    refine readEscape_plain ?_ rest
    rcases h with rfl | rfl | rfl <;> decide
  · unfold escape
    split_ifs with _ hslash
    all_goals first
      | (subst_vars; rfl)
      | exact readEscape_plain hslash rest
      | skip
    rename_i hcode
    have hsmall : c.toNat < 65536 := by
      rcases hcode with h | h | h | h | h | h
      · omega
      · subst h; decide
      · subst h; decide
      · subst h; decide
      · omega
      · omega
    exact (readEscape_hex4 hsmall rest).trans (by rw [hofNat])

theorem head?_plainEscape (c : Char) (rest : List Char) : (plainEscape c ++ rest).head? ≠ some '"' := by
  unfold plainEscape
  split
  · rename_i h
    rcases h with rfl | rfl | rfl <;> simp
  · unfold escape
    split_ifs <;> simp_all

theorem plainEscapes_inj {l m : List Char} {x y : List Char}
    (h : l.flatMap plainEscape ++ '"' :: x = m.flatMap plainEscape ++ '"' :: y) : l = m ∧ x = y := by
  induction l generalizing m with
  | nil =>
    cases m with
    | nil => exact ⟨rfl, (List.cons.inj h).2⟩
    | cons d m =>
      rw [List.flatMap_cons, List.append_assoc] at h
      exact absurd (congrArg List.head? h).symm (head?_plainEscape d _)
  | cons c l ih =>
    cases m with
    | nil =>
      rw [List.flatMap_cons, List.append_assoc] at h
      exact absurd (congrArg List.head? h) (head?_plainEscape c _)
    | cons d m =>
      rw [List.flatMap_cons, List.flatMap_cons, List.append_assoc, List.append_assoc] at h
      have hread := congrArg readEscape h
      rw [readEscape_plainEscape, readEscape_plainEscape] at hread
      obtain ⟨rfl, hrest⟩ := Prod.ext_iff.mp (Option.some.inj hread)
      obtain ⟨rfl, hxy⟩ := ih hrest
      exact ⟨rfl, hxy⟩

theorem plainString_inj {s t : String} {x y : List Char} (h : plainString s ++ x = plainString t ++ y) :
    s = t ∧ x = y := by
  rw [plainString, plainString, List.cons_append, List.cons_append, List.append_assoc, List.append_assoc] at h
  obtain ⟨hst, hxy⟩ := plainEscapes_inj (List.cons.inj h).2
  exact ⟨String.toList_inj.mp hst, hxy⟩

/-! ## Numbers -/

def isNumeral (c : Char) : Bool := c.isDigit || c ∈ ['-', '+', '.', 'e', 'E']

/-- The text of a number: not empty, and nothing in it ends a number. -/
structure NumberText (literal : String) : Prop where
  ne_nil : literal.toList ≠ []
  numeral : ∀ c ∈ literal.toList, isNumeral c = true

def Ends (rest : List Char) : Prop := ∀ c ∈ rest.head?, c = ',' ∨ c = ']' ∨ c = '\x7d'

theorem NumberText.takeWhile {literal : String} (h : NumberText literal) {rest : List Char} (hrest : Ends rest) :
    (literal.toList ++ rest).takeWhile isNumeral = literal.toList := by
  rw [List.takeWhile_append_of_pos h.numeral]
  cases rest with
  | nil => exact List.append_nil _
  | cons c rest =>
    have hc : isNumeral c = false := by
      rcases hrest c rfl with rfl | rfl | rfl <;> decide
    rw [List.takeWhile_cons_of_neg (by simp [hc]), List.append_nil]

theorem NumberText.inj {l m : String} {x y : List Char} (hl : NumberText l) (hm : NumberText m) (hx : Ends x)
    (hy : Ends y)
    (h : l.toList ++ x = m.toList ++ y) : l = m ∧ x = y := by
  have hlm : l.toList = m.toList := by rw [← hl.takeWhile hx, h, hm.takeWhile hy]
  refine ⟨String.toList_inj.mp hlm, ?_⟩
  rw [hlm] at h
  exact List.append_cancel_left h

theorem numberText_int (n : Int) : NumberText (toString n) := by
  have hdigits (m : Nat) : ∀ c ∈ m.repr.toList, isNumeral c = true := by
    intro c hc
    rw [Nat.toList_repr] at hc
    rw [isNumeral, Nat.isDigit_of_mem_toDigits (by decide) le_rfl hc, Bool.true_or]
  have hne (m : Nat) : m.repr.toList ≠ [] := by
    rw [Nat.toList_repr]
    exact Nat.toDigits_ne_nil
  rw [Int.toString_eq_repr, Int.repr_eq_if]
  split
  · exact ⟨hne _, hdigits _⟩
  · refine ⟨by simp, fun c hc => ?_⟩
    rw [String.toList_append] at hc
    rcases List.mem_append.mp hc with hc | hc
    · rw [List.mem_singleton.mp hc]
      decide
    · exact hdigits _ c hc

/-! ## Lists with commas -/

def Unmixed {α : Type} (encode : α → List Char) (a b : α) : Prop :=
  ∀ x y, Ends x → Ends y → encode a ++ x = encode b ++ y → a = b ∧ x = y

theorem commas_cons {item : List Char} {items : List (List Char)} (rest : List Char) :
    commas (item :: items) ++ rest = item ++ if items = [] then rest else ',' :: (commas items ++ rest) := by
  cases items with
  | nil => rfl
  | cons next items => simp [commas]

theorem commas_inj {α : Type} {encode : α → List Char} {close : Char} (hclose : close = ']' ∨ close = '\x7d')
    {as bs : List α}
    (h : ∀ a ∈ as, ∀ b ∈ bs, Unmixed encode a b) (hhead : ∀ a ∈ as ++ bs, ∀ rest, (encode a ++ rest).head? ≠ some close)
    {x y : List Char} (htext : commas (as.map encode) ++ close :: x = commas (bs.map encode) ++ close :: y) :
    as = bs ∧ x = y := by
  have hcomma : ',' ≠ close := by rcases hclose with rfl | rfl <;> decide
  have hends (as : List α) (x : List Char) :
      Ends (if as.map encode = [] then close :: x else ',' :: (commas (as.map encode) ++ close :: x)) := by
    intro c hc
    split at hc
    · rw [← Option.some.inj hc]
      exact Or.inr hclose
    · exact Or.inl (Option.some.inj hc).symm
  induction as generalizing bs with
  | nil =>
    cases bs with
    | nil => exact ⟨rfl, (List.cons.inj htext).2⟩
    | cons b bs =>
      rw [List.map_cons, commas_cons] at htext
      exact absurd (congrArg List.head? htext).symm (hhead b (by simp) _)
  | cons a as ih =>
    cases bs with
    | nil =>
      rw [List.map_cons, commas_cons] at htext
      exact absurd (congrArg List.head? htext) (hhead a (by simp) _)
    | cons b bs =>
      rw [List.map_cons, List.map_cons, commas_cons, commas_cons] at htext
      obtain ⟨rfl, hrest⟩ := h a List.mem_cons_self b List.mem_cons_self _ _ (hends as x) (hends bs y) htext
      -- both lists end here, or both go on
      cases as with
      | nil =>
        cases bs with
        | nil => exact ⟨rfl, (List.cons.inj hrest).2⟩
        | cons b' bs => exact absurd (List.cons.inj hrest).1.symm hcomma
      | cons a' as =>
        cases bs with
        | nil => exact absurd (List.cons.inj hrest).1 hcomma
        | cons b' bs =>
          obtain ⟨hsame, hxy⟩ :=
            ih (fun a' ha' b' hb' => h a' (List.mem_cons_of_mem _ ha') b' (List.mem_cons_of_mem _ hb'))
            (fun a' ha' => hhead a' (by simp only [List.mem_append, List.mem_cons] at ha' ⊢; tauto))
              (List.cons.inj hrest).2
          exact ⟨by rw [hsame], hxy⟩

/-! ## Values -/

namespace Value

mutual
def text : Value → List Char
  | .null => Json.null
  | .bool b => if b then "true".toList else "false".toList
  | .number literal => literal.toList
  | .string s => plainString s
  | .array items => Json.array (itemTexts items)
  | .object members => Json.object (memberTexts members)

def itemTexts : List Value → List (List Char)
  | [] => []
  | item :: items => item.text :: itemTexts items

def memberTexts : List (String × Value) → List (List Char)
  | [] => []
  | (key, value) :: members => (plainString key ++ ':' :: value.text) :: memberTexts members
end

def memberText (m : String × Value) : List Char := plainString m.1 ++ ':' :: m.2.text

theorem itemTexts_eq (items : List Value) : itemTexts items = items.map text := by
  induction items with
  | nil => rw [itemTexts, List.map_nil]
  | cons item items ih => rw [itemTexts, List.map_cons, ih]

theorem memberTexts_eq (members : List (String × Value)) : memberTexts members = members.map memberText := by
  induction members with
  | nil => rw [memberTexts, List.map_nil]
  | cons m members ih => rw [memberTexts, List.map_cons, ih, memberText]

/-- Every number in the value has the text of a number. -/
inductive Printable : Value → Prop
  | null : Printable .null
  | bool (b : Bool) : Printable (.bool b)
  | number {literal : String} (h : NumberText literal) : Printable (.number literal)
  | string (s : String) : Printable (.string s)
  | array {items : List Value} (h : ∀ v ∈ items, Printable v) : Printable (.array items)
  | object {members : List (String × Value)} (h : ∀ m ∈ members, Printable m.2) : Printable (.object members)

/-- The kind of value that a text begins, by its first character; `none` where no value can begin. -/
def kindOf (c : Char) : Option Nat :=
  if c = 'n' then some 0
  else if c = 't' then some 1
  else if c = 'f' then some 2
  else if c = '"' then some 3
  else if c = '[' then some 4
  else if c = '\x7b' then some 5
  else if isNumeral c then some 6
  else none

def kind : Value → Nat
  | .null => 0
  | .bool true => 1
  | .bool false => 2
  | .string _ => 3
  | .array _ => 4
  | .object _ => 5
  | .number _ => 6

theorem kindOf_numeral {c : Char} (h : isNumeral c = true) : kindOf c = some 6 := by
  have hne (d : Char) (hd : isNumeral d = false) : c ≠ d := fun hcd => by simp [hcd, hd] at h
  rw [kindOf, if_neg (hne _ (by decide)), if_neg (hne _ (by decide)), if_neg (hne _ (by decide)),
    if_neg (hne _ (by decide)), if_neg (hne _ (by decide)), if_neg (hne _ (by decide)), if_pos h]

theorem Printable.kindOf_head {v : Value} (h : v.Printable) (rest : List Char) :
    (v.text ++ rest).head?.bind kindOf = some v.kind := by
  cases h with
  | null => rw [text]; rfl
  | bool b => rw [text]; cases b <;> rfl
  | string s => rw [text]; rfl
  | array => rw [text]; rfl
  | object => rw [text]; rfl
  | @number literal h =>
    rw [text]
    cases htext : literal.toList with
    | nil => exact absurd htext h.ne_nil
    | cons c _ => exact kindOf_numeral (h.numeral c (htext ▸ List.mem_cons_self))

theorem Printable.head_ne {v : Value} (h : v.Printable) {close : Char} (hclose : close = ']' ∨ close = '\x7d')
    (rest : List Char) :
    (v.text ++ rest).head? ≠ some close := by
  intro hhead
  have hkind := h.kindOf_head rest
  rw [hhead] at hkind
  rcases hclose with rfl | rfl <;> cases hkind

theorem Printable.kind_eq {v w : Value} (hv : v.Printable) (hw : w.Printable) {x y : List Char}
    (h : v.text ++ x = w.text ++ y) :
    v.kind = w.kind := by
  have hkind := hv.kindOf_head x
  rw [h, hw.kindOf_head y] at hkind
  exact (Option.some.inj hkind).symm

theorem array_unmixed {items items' : List Value} (h : ∀ v ∈ items, ∀ w ∈ items', Unmixed text v w)
    (hitems : ∀ v ∈ items, v.Printable) (hitems' : ∀ w ∈ items', w.Printable) :
    Unmixed text (.array items) (.array items') := by
  intro x y _ _ htext
  rw [text, text, Json.array, Json.array, itemTexts_eq, itemTexts_eq, List.cons_append, List.cons_append,
    List.append_assoc, List.append_assoc] at htext
  have hhead : ∀ v ∈ items ++ items', ∀ rest, (v.text ++ rest).head? ≠ some ']' := by
    intro v hv
    rcases List.mem_append.mp hv with hv | hv
    · exact (hitems v hv).head_ne (Or.inl rfl)
    · exact (hitems' v hv).head_ne (Or.inl rfl)
  obtain ⟨rfl, hxy⟩ := commas_inj (Or.inl rfl) h hhead (List.cons.inj htext).2
  exact ⟨rfl, hxy⟩

theorem memberText_unmixed {m m' : String × Value} (h : Unmixed text m.2 m'.2) : Unmixed memberText m m' := by
  intro x y hx hy htext
  rw [memberText, memberText, List.append_assoc, List.append_assoc] at htext
  obtain ⟨hkey, hrest⟩ := plainString_inj htext
  obtain ⟨hvalue, hxy⟩ := h x y hx hy (List.cons.inj hrest).2
  exact ⟨Prod.ext hkey hvalue, hxy⟩

theorem object_unmixed {members members' : List (String × Value)}
    (h : ∀ m ∈ members, ∀ m' ∈ members', Unmixed text m.2 m'.2) :
    Unmixed text (.object members) (.object members') := by
  intro x y _ _ htext
  rw [text, text, Json.object, Json.object, memberTexts_eq, memberTexts_eq, List.cons_append, List.cons_append,
    List.append_assoc, List.append_assoc] at htext
  obtain ⟨rfl, hxy⟩ := commas_inj (Or.inr rfl) (fun m hm m' hm' => memberText_unmixed (h m hm m' hm'))
    (fun m _ rest hhead => absurd hhead (by simp [memberText, plainString])) (List.cons.inj htext).2
  exact ⟨rfl, hxy⟩

theorem Printable.unmixed {v w : Value} (hv : v.Printable) (hw : w.Printable) : Unmixed text v w := by
  induction v using Value.induction generalizing w with
  | null =>
    intro x y _ _ h
    have hkind := hv.kind_eq hw h
    cases hw with
    | null => exact ⟨rfl, List.append_cancel_left h⟩
    | bool b => cases b <;> cases hkind
    | _ => cases hkind
  | bool b =>
    intro x y _ _ h
    have hkind := hv.kind_eq hw h
    cases hw with
    | bool b' =>
      obtain rfl : b = b' := by cases b <;> cases b' <;> first | rfl | cases hkind
      exact ⟨rfl, List.append_cancel_left h⟩
    | _ => cases b <;> cases hkind
  | number literal =>
    intro x y hx hy h
    have hkind := hv.kind_eq hw h
    cases hw with
    | number hw =>
      cases hv with
      | number hv =>
        rw [text, text] at h
        obtain ⟨rfl, hxy⟩ := hv.inj hw hx hy h
        exact ⟨rfl, hxy⟩
    | bool b => cases b <;> cases hkind
    | _ => cases hkind
  | string s =>
    intro x y _ _ h
    have hkind := hv.kind_eq hw h
    cases hw with
    | string t =>
      rw [text, text] at h
      obtain ⟨rfl, hxy⟩ := plainString_inj h
      exact ⟨rfl, hxy⟩
    | bool b => cases b <;> cases hkind
    | _ => cases hkind
  | array items ih =>
    intro x y hx hy h
    have hkind := hv.kind_eq hw h
    cases hw with
    | array hw =>
      cases hv with
      | array hv => exact array_unmixed (fun v hmem w hmem' => ih v hmem (hv v hmem) (hw w hmem')) hv hw x y hx hy h
    | bool b => cases b <;> cases hkind
    | _ => cases hkind
  | object members ih =>
    intro x y hx hy h
    have hkind := hv.kind_eq hw h
    cases hw with
    | object hw =>
      cases hv with
      | object hv => exact object_unmixed (fun m hmem m' hmem' => ih m hmem (hv m hmem) (hw m' hmem')) x y hx hy h
    | bool b => cases b <;> cases hkind
    | _ => cases hkind

theorem Printable.text_inj {v w : Value} (hv : v.Printable) (hw : w.Printable) (h : v.text = w.text) : v = w := by
  have hends : Ends [] := fun c hc => absurd hc (by simp)
  exact (hv.unmixed hw [] [] hends hends (by rw [h])).1

end Value
end Base.Json
