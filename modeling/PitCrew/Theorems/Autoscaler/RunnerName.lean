import PitCrew.Admission.Identity
import PitCrew.Autoscaler.ControlPlaneGate
import PitCrew.Autoscaler.Reconcile
import PitCrew.Theorems.Autoscaler.RepositoryURL

/-! # Runner names

What `sanitizeIdentifier` leaves of any text, and when the name that `nextRunnerName` builds from a prefix, a target and
a suffix is one that host admission takes and that names its container as well. -/

namespace PitCrew.Autoscaler
open Base
open scoped Utf8

def hexDigits : List Char := "0123456789abcdef".toList

/-- The documented behaviour of `unicode`, as far as ASCII goes, and of `encoding/hex`. -/
structure Packages.Unicode (pkg : Packages) : Prop where
  isLetter : ∀ c, Utf8.isAscii c = true → pkg.isLetter c = c.isAlpha
  isDigit : ∀ c, Utf8.isAscii c = true → pkg.isDigit c = c.isDigit
  lower : ∀ c, Utf8.isAscii c = true → pkg.lower c = c.toLower
  lower_lower : ∀ c, pkg.lower (pkg.lower c) = pkg.lower c
  hexDigest : ∀ text, ∀ c ∈ (pkg.hexDigest text).toList, c ∈ hexDigits

/-! ## Words of runes -/

structure KeptRune (pkg : Packages) (r : Char) : Prop where
  valid : pkg.isLetter r = true ∨ pkg.isDigit r = true
  lower : pkg.lower r = r

/-- Letters and digits in lower case, with single hyphens that do not come first. -/
structure Tidy (pkg : Packages) (l : List Char) : Prop where
  rune : ∀ r ∈ l, KeptRune pkg r ∨ r = '-'
  single : l.IsChain fun a b => a = '-' → b ≠ '-'
  head : l.head? ≠ some '-'

/-- A tidy text that is not empty and does not end in a hyphen. -/
structure Word (pkg : Packages) (l : List Char) : Prop extends Tidy pkg l where
  ne_nil : l ≠ []
  last : l.getLast? ≠ some '-'

section
variable {pkg : Packages} {l a b built : List Char} {r : Char}

theorem Tidy.nil : Tidy pkg [] where
  rune _ h := absurd h List.not_mem_nil
  single := List.isChain_nil
  head := (Option.some_ne_none _).symm

theorem Tidy.left (h : Tidy pkg (a ++ b)) : Tidy pkg a where
  rune r hr := h.rune r (List.mem_append_left b hr)
  single := h.single.left_of_append
  head hhead := h.head (by rw [List.head?_append, hhead]; rfl)

theorem hyphen_invalid (hpkg : pkg.Unicode) : ¬(pkg.isLetter '-' = true ∨ pkg.isDigit '-' = true) := by
  rw [hpkg.isLetter _ (by decide), hpkg.isDigit _ (by decide)]
  decide

theorem kept_ne_hyphen (hpkg : pkg.Unicode) (h : KeptRune pkg r) : r ≠ '-' := by
  rintro rfl
  exact hyphen_invalid hpkg h.valid

theorem Tidy.append_kept (hpkg : pkg.Unicode) (h : Tidy pkg l) (hr : KeptRune pkg r) : Tidy pkg (l ++ [r]) := by
  have hne := kept_ne_hyphen hpkg hr
  refine ⟨fun c hc => ?_, h.single.append (List.isChain_singleton r) fun x _ y hy _ => ?_, ?_⟩
  · rcases List.mem_append.mp hc with hc | hc
    · exact h.rune c hc
    · exact Or.inl (List.mem_singleton.mp hc ▸ hr)
  · rw [← Option.some.inj hy]
    exact hne
  · rw [List.head?_append]
    have hhead := h.head
    generalize l.head? = first at hhead ⊢
    cases first with
    | none => exact fun h => hne (Option.some.inj h)
    | some c => exact hhead

theorem Tidy.append_hyphen (h : Tidy pkg l) (hne : l ≠ []) (hlast : l.getLast? ≠ some '-') : Tidy pkg (l ++ ['-']) := by
  refine ⟨fun c hc => ?_, h.single.append (List.isChain_singleton _) fun x hx y hy hhyphen => ?_, ?_⟩
  · rcases List.mem_append.mp hc with hc | hc
    · exact h.rune c hc
    · exact Or.inr (List.mem_singleton.mp hc)
  · exact absurd (hhyphen ▸ hx) hlast
  · rw [List.head?_append_of_ne_nil l hne]
    exact h.head

theorem Word.join (ha : Word pkg a) (hb : Word pkg b) : Word pkg (a ++ '-' :: b) := by
  refine ⟨⟨fun c hc => ?_, ?_, ?_⟩, List.append_ne_nil_of_left_ne_nil ha.ne_nil _, ?_⟩
  · rcases List.mem_append.mp hc with hc | hc
    · exact ha.rune c hc
    · rcases List.mem_cons.mp hc with hc | hc
      · exact Or.inr hc
      · exact hb.rune c hc
  · refine ha.single.append (List.isChain_cons.mpr ⟨fun y hy _ hhyphen => hb.head (hhyphen ▸ hy), hb.single⟩)
      fun x hx y _ hhyphen => ?_
    exact absurd (hhyphen ▸ hx) ha.last
  · rw [List.head?_append_of_ne_nil a ha.ne_nil]
    exact ha.head
  · rw [List.getLast?_append_of_ne_nil a (List.cons_ne_nil _ _), List.getLast?_cons_of_ne_nil hb.ne_nil]
    exact hb.last

theorem Word.of_kept (hpkg : pkg.Unicode) (hne : l ≠ []) (h : ∀ r ∈ l, KeptRune pkg r) : Word pkg l := by
  have htidy : Tidy pkg l := by
    induction l using List.reverseRecOn with
    | nil => exact Tidy.nil
    | append_singleton front r ih =>
      by_cases hfront : front = []
      · rw [hfront]
        exact Tidy.nil.append_kept hpkg (h r (List.mem_append_right _ List.mem_cons_self))
      · exact (ih hfront fun c hc => h c (List.mem_append_left _ hc)).append_kept hpkg
          (h r (List.mem_append_right _ List.mem_cons_self))
  refine ⟨htidy, hne, fun hlast => ?_⟩
  exact kept_ne_hyphen hpkg (h _ (List.mem_of_getLast? hlast)) rfl

/-! ## What is left of a text -/

theorem sanitizeRunes_tidy (hpkg : pkg.Unicode) (hl : ∀ r ∈ l, pkg.lower r = r) (hbuilt : Tidy pkg built.reverse) :
    Tidy pkg (sanitizeRunes pkg built l) := by
  induction l generalizing built with
  | nil => exact hbuilt
  | cons r l ih =>
    have hl' : ∀ r ∈ l, pkg.lower r = r := fun c hc => hl c (List.mem_cons_of_mem r hc)
    unfold sanitizeRunes
    split
    · next hvalid =>
      refine ih hl' ?_
      rw [List.reverse_cons]
      exact hbuilt.append_kept hpkg ⟨hvalid, hl r List.mem_cons_self⟩
    · split
      · next hhyphen =>
        refine ih hl' ?_
        rw [List.reverse_cons]
        refine hbuilt.append_hyphen (fun h => hhyphen.1 (List.reverse_eq_nil_iff.mp h)) ?_
        rw [List.getLast?_reverse]
        exact hhyphen.2
      · exact ih hl' hbuilt

theorem sanitizeRunes_eq (hpkg : pkg.Unicode) (h : Tidy pkg (built.reverse ++ l)) :
    sanitizeRunes pkg built l = built.reverse ++ l := by
  induction l generalizing built with
  | nil => exact (List.append_nil _).symm
  | cons r l ih =>
    have hnext : Tidy pkg ((r :: built).reverse ++ l) := by
      rw [List.reverse_cons, List.append_assoc]
      exact h
    have hsame :
        (r :: built).reverse ++ l = built.reverse ++ r :: l := by rw [List.reverse_cons, List.append_assoc]; rfl
    unfold sanitizeRunes
    rcases h.rune r (List.mem_append_right _ List.mem_cons_self) with hkept | rfl
    · rw [if_pos hkept.valid, ih hnext, hsame]
    · have hbuilt : built ≠ [] := by
        rintro rfl
        exact h.head rfl
      have hlast : built.head? ≠ some '-' := by
        intro hlast
        rw [← List.getLast?_reverse] at hlast
        exact (List.isChain_append.mp h.single).2.2 '-' hlast '-' rfl rfl rfl
      rw [if_neg (hyphen_invalid hpkg), if_pos ⟨hbuilt, hlast⟩, ih hnext, hsame]

theorem mem_sanitizeRunes (h : r ∈ sanitizeRunes pkg built l) : r ∈ built ∨ r ∈ l ∨ r = '-' := by
  induction l generalizing built with
  | nil => exact Or.inl (List.mem_reverse.mp h)
  | cons c l ih =>
    unfold sanitizeRunes at h
    split at h
    · rcases ih h with h | h | h
      · rcases List.mem_cons.mp h with rfl | h
        · exact Or.inr (Or.inl List.mem_cons_self)
        · exact Or.inl h
      · exact Or.inr (Or.inl (List.mem_cons_of_mem c h))
      · exact Or.inr (Or.inr h)
    · split at h
      · rcases ih h with h | h | h
        · rcases List.mem_cons.mp h with h | h
          · exact Or.inr (Or.inr h)
          · exact Or.inl h
        · exact Or.inr (Or.inl (List.mem_cons_of_mem c h))
        · exact Or.inr (Or.inr h)
      · rcases ih h with h | h | h
        · exact Or.inl h
        · exact Or.inr (Or.inl (List.mem_cons_of_mem c h))
        · exact Or.inr (Or.inr h)

theorem sanitizeRunes_ne_nil (h : built ≠ [] ∨ ∃ r ∈ l, pkg.isLetter r = true ∨ pkg.isDigit r = true) :
    sanitizeRunes pkg built l ≠ [] := by
  induction l generalizing built with
  | nil =>
    rcases h with h | ⟨r, hr, -⟩
    · exact fun hnil => h (List.reverse_eq_nil_iff.mp hnil)
    · exact absurd hr List.not_mem_nil
  | cons c l ih =>
    unfold sanitizeRunes
    split
    · exact ih (Or.inl (List.cons_ne_nil _ _))
    · next hinvalid =>
      have hrest : built ≠ [] ∨ ∃ r ∈ l, pkg.isLetter r = true ∨ pkg.isDigit r = true := by
        rcases h with h | ⟨r, hr, hvalid⟩
        · exact Or.inl h
        · rcases List.mem_cons.mp hr with rfl | hr
          · exact absurd hvalid hinvalid
          · exact Or.inr ⟨r, hr, hvalid⟩
      split
      · exact ih (Or.inl (List.cons_ne_nil _ _))
      · exact ih hrest

end

section
variable {pkg : Packages} {s value : Bytes} {maximum : Nat} {l : List Char}

theorem dropWhile_hyphen (h : s.head? ≠ some hyphen) : s.dropWhile (· = hyphen) = s := by
  cases s with
  | nil => rfl
  | cons b s => exact List.dropWhile_cons_of_neg fun hb => h (congrArg some (of_decide_eq_true hb))

theorem trimByte_append (h : s.head? ≠ some hyphen) :
    (∃ rest, trimByte hyphen s ++ rest = s) ∧ (trimByte hyphen s).getLast? ≠ some hyphen := by
  unfold trimByte
  rw [dropWhile_hyphen h]
  refine ⟨⟨_, List.rdropWhile_append_rtakeWhile⟩, fun hlast => ?_⟩
  have hne : s.rdropWhile (· = hyphen) ≠ [] := fun hnil => by rw [hnil] at hlast; cases hlast
  refine List.rdropWhile_last_not (fun b => decide (b = hyphen)) s hne (decide_eq_true ?_)
  rw [List.getLast?_eq_some_getLast hne] at hlast
  exact Option.some.inj hlast

theorem trimByte_eq_self (hhead : s.head? ≠ some hyphen) (hlast : s.getLast? ≠ some hyphen) :
    trimByte hyphen s = s := by
  unfold trimByte
  rw [dropWhile_hyphen hhead]
  refine List.rdropWhile_eq_self_iff.mpr fun hne hhyphen => hlast ?_
  rw [List.getLast?_eq_some_getLast hne, of_decide_eq_true hhyphen]

theorem trimByte_ne_nil_of_head {b : UInt8} (h : s.head? = some b) (hb : b ≠ hyphen) : trimByte hyphen s ≠ [] :=
  trimByte_ne_nil.mpr ⟨b, List.mem_of_head? h, hb⟩

def identifierRunes (pkg : Packages) (value : Bytes) : List Char :=
  sanitizeRunes pkg [] (Utf8.decode (lowerBytes pkg value))

theorem identifierRunes_tidy (hpkg : pkg.Unicode) (value : Bytes) : Tidy pkg (identifierRunes pkg value) := by
  refine sanitizeRunes_tidy hpkg (fun r hr => ?_) Tidy.nil
  unfold lowerBytes at hr
  rw [Utf8.decode_encode] at hr
  obtain ⟨c, -, rfl⟩ := List.mem_map.mp hr
  exact hpkg.lower_lower c

theorem head?_ne_hyphen (h : Tidy pkg l) : (Utf8.encode l).head? ≠ some hyphen :=
  fun hhead => h.head ((Utf8.head?_encode (by decide)).mp hhead)

theorem sanitizeIdentifier_eq (pkg : Packages) (value : Bytes) (maximum : Nat) : sanitizeIdentifier pkg value maximum =
    if (trimByte hyphen (Utf8.encode (identifierRunes pkg value))).length > maximum then
      trimByte hyphen ((trimByte hyphen (Utf8.encode (identifierRunes pkg value))).take maximum)
    else trimByte hyphen (Utf8.encode (identifierRunes pkg value)) := rfl

/-- An identifier is a front of its runes that does not end in a hyphen; it may end inside of a rune. -/
theorem sanitizeIdentifier_append (hpkg : pkg.Unicode) (value : Bytes) (maximum : Nat) :
    (∃ rest, sanitizeIdentifier pkg value maximum ++ rest = Utf8.encode (identifierRunes pkg value)) ∧
      (sanitizeIdentifier pkg value maximum).getLast? ≠ some hyphen ∧
        (sanitizeIdentifier pkg value maximum).length ≤ maximum := by
  obtain ⟨⟨rest, hrest⟩, hlast⟩ := trimByte_append (head?_ne_hyphen (identifierRunes_tidy hpkg value))
  rw [sanitizeIdentifier_eq]
  generalize trimByte hyphen (Utf8.encode (identifierRunes pkg value)) = whole at hrest hlast
  split
  · have htake : whole.take maximum ++ (whole.drop maximum ++ rest) = Utf8.encode (identifierRunes pkg value) := by
      rw [← List.append_assoc, List.take_append_drop, hrest]
    have hhead : (whole.take maximum).head? ≠ some hyphen := by
      intro hhead
      have hne : whole.take maximum ≠ [] := fun hnil => by rw [hnil] at hhead; cases hhead
      rw [head?_of_append htake hne] at hhead
      exact head?_ne_hyphen (identifierRunes_tidy hpkg value) hhead
    obtain ⟨⟨cut, hcut⟩, hend⟩ := trimByte_append hhead
    refine ⟨⟨cut ++ (whole.drop maximum ++ rest), ?_⟩, hend, ?_⟩
    · rw [← List.append_assoc, hcut, htake]
    · have hlength := congrArg List.length hcut
      rw [List.length_append, List.length_take] at hlength
      omega
  · next hlength => exact ⟨⟨rest, hrest⟩, hlast, Nat.le_of_not_lt hlength⟩

theorem sanitizeIdentifier_ne_nil (hpkg : pkg.Unicode) (hmaximum : 0 < maximum)
    (h : ∃ r ∈ Utf8.decode (lowerBytes pkg value), pkg.isLetter r = true ∨ pkg.isDigit r = true) :
    sanitizeIdentifier pkg value maximum ≠ [] := by
  have hrunes : identifierRunes pkg value ≠ [] := sanitizeRunes_ne_nil (Or.inr h)
  have hhead := head?_ne_hyphen (identifierRunes_tidy hpkg value)
  obtain ⟨⟨rest, hrest⟩, -⟩ := trimByte_append hhead
  obtain ⟨b, hb⟩ : ∃ b, (Utf8.encode (identifierRunes pkg value)).head? = some b := by
    cases hencode : Utf8.encode (identifierRunes pkg value) with
    | nil =>
      have hdecode := congrArg Utf8.decode hencode
      rw [Utf8.decode_encode] at hdecode
      exact absurd hdecode hrunes
    | cons b bytes => exact ⟨b, rfl⟩
  have hne : b ≠ hyphen := fun h => hhead (h ▸ hb)
  have hwhole := trimByte_ne_nil_of_head hb hne
  have hfirst := (head?_of_append hrest hwhole).trans hb
  rw [sanitizeIdentifier_eq]
  split
  · refine trimByte_ne_nil_of_head ?_ hne
    rw [List.head?_take, if_neg hmaximum.ne']
    exact hfirst
  · exact hwhole

theorem sanitizeIdentifier_ascii (hpkg : pkg.Unicode) (h : ∀ r ∈ identifierRunes pkg value, Utf8.isAscii r = true) :
    ∀ b ∈ sanitizeIdentifier pkg value maximum, b < 128 := by
  obtain ⟨⟨rest, hrest⟩, -⟩ := sanitizeIdentifier_append hpkg value maximum
  intro b hb
  have hb := List.mem_append_left rest hb
  rw [hrest, Utf8.encode_ascii h] at hb
  obtain ⟨r, hr, rfl⟩ := List.mem_map.mp hb
  exact Utf8.asciiByte_lt (h r hr)

theorem sanitizeIdentifier_word (hpkg : pkg.Unicode) (h : sanitizeIdentifier pkg value maximum = Utf8.encode l)
    (hne : l ≠ []) :
    Word pkg l := by
  obtain ⟨⟨rest, hrest⟩, hlast, -⟩ := sanitizeIdentifier_append hpkg value maximum
  rw [h] at hrest hlast
  have hrunes := congrArg Utf8.decode hrest
  rw [Utf8.decode_encode_append, Utf8.decode_encode] at hrunes
  refine ⟨Tidy.left (b := Utf8.decode rest) ?_, hne, fun hhyphen =>
    hlast ((Utf8.getLast?_encode (by decide)).mpr hhyphen)⟩
  rw [hrunes]
  exact identifierRunes_tidy hpkg value

theorem sanitizeIdentifier_eq_self (hpkg : pkg.Unicode) (h : Word pkg l) (hlength : (Utf8.encode l).length ≤ maximum) :
    sanitizeIdentifier pkg (Utf8.encode l) maximum = Utf8.encode l := by
  have hlower : l.map pkg.lower = l := by
    refine (List.map_congr_left fun r hr => ?_).trans (List.map_id l)
    rcases h.rune r hr with hkept | rfl
    · exact hkept.lower
    · exact hpkg.lower _ (by decide)
  have hrunes : identifierRunes pkg (Utf8.encode l) = l := by
    unfold identifierRunes lowerBytes
    rw [Utf8.decode_encode, Utf8.decode_encode, hlower]
    exact sanitizeRunes_eq hpkg h.toTidy
  have htrim : trimByte hyphen (Utf8.encode l) = Utf8.encode l :=
    trimByte_eq_self (head?_ne_hyphen h.toTidy) fun hlast => h.last ((Utf8.getLast?_encode (by decide)).mp hlast)
  rw [sanitizeIdentifier_eq, hrunes, htrim, if_neg (Nat.not_lt.mpr hlength)]

end

/-! ## Target keys -/

section
variable {pkg : Packages} {config : Config} {state : DesiredState} {targets : List TargetSpec} {t : TargetSpec}
    {key : String}

theorem repositoryTargets_key {seen : List String} {repositories : List DesiredRepository}
    (h : repositoryTargets pkg config seen repositories = .ok targets) (ht : t ∈ targets) :
    ∃ url, t.key = repositoryTargetKey pkg url := by
  induction repositories generalizing seen targets with
  | nil =>
    obtain rfl := Except.ok.inj h
    exact absurd ht List.not_mem_nil
  | cons repository repositories ih =>
    obtain ⟨url, -, h⟩ := bind_eq_ok.mp h
    obtain ⟨_, -, h⟩ := bind_eq_ok.mp h
    obtain ⟨_, -, h⟩ := bind_eq_ok.mp h
    obtain ⟨rest, hrest, h⟩ := bind_eq_ok.mp h
    obtain rfl := Except.ok.inj h
    rcases List.mem_cons.mp ht with rfl | ht
    · exact ⟨url, rfl⟩
    · exact ih hrest ht

theorem scopeTarget_key {subject url : String} {replicas : Option Int}
    (h : scopeTarget pkg config subject url replicas = .ok targets)
    (ht : t ∈ targets) : t.key = "scope" := by
  obtain ⟨_, -, h⟩ := bind_eq_ok.mp h
  obtain rfl := Except.ok.inj h
  rw [List.mem_singleton.mp ht]

theorem buildTargetSpecs_key (h : buildTargetSpecs pkg config state = .ok targets) (ht : t ∈ targets) :
    t.key = "scope" ∨ ∃ url, t.key = repositoryTargetKey pkg url := by
  obtain ⟨unsorted, hunsorted, h⟩ := bind_eq_ok.mp h
  obtain rfl := Except.ok.inj h
  have ht := (List.mem_insertionSort _).mp ht
  unfold unorderedTargets at hunsorted
  split at hunsorted
  · exact Or.inr (repositoryTargets_key hunsorted ht)
  · exact Or.inl (scopeTarget_key hunsorted ht)
  · exact Or.inl (scopeTarget_key hunsorted ht)
  · cases hunsorted

/-- The key of a target is a text of ASCII with a letter in it. -/
structure AsciiKey (key : String) : Prop where
  ascii : ∀ c ∈ key.toList, Utf8.isAscii c = true
  letter : ∃ c ∈ key.toList, c.isLower = true

theorem hexDigits_ascii : ∀ c ∈ hexDigits, Utf8.isAscii c = true := by decide

theorem buildTargetSpecs_asciiKey (hpkg : pkg.Unicode) (h : buildTargetSpecs pkg config state = .ok targets)
    (ht : t ∈ targets) :
    AsciiKey t.key := by
  rcases buildTargetSpecs_key h ht with hkey | ⟨url, hkey⟩ <;> rw [hkey]
  · exact ⟨by decide, 's', by decide, by decide⟩
  · have htext : (repositoryTargetKey pkg url).toList = "repo-".toList ++ (pkg.hexDigest url).toList.take 16 := by
      rw [repositoryTargetKey, String.toList_append]
      exact congrArg _ String.toList_ofList
    have hrepo : ∀ c ∈ "repo-".toList, Utf8.isAscii c = true := by decide
    refine ⟨fun c hc => ?_, 'r', ?_, by decide⟩
    · rw [htext] at hc
      rcases List.mem_append.mp hc with hc | hc
      · exact hrepo c hc
      · exact hexDigits_ascii c (hpkg.hexDigest url c (List.mem_of_mem_take hc))
    · rw [htext]
      exact List.mem_append_left _ (by decide)

end

/-! ## Names -/

section
variable {pkg : Packages} {key : String} {l : List Char} {c : Char}

theorem lower_ascii : ∀ b : UInt8, b < 128 → Utf8.isAscii (Utf8.asciiRune b).toLower = true :=
  Utf8.forall_byte (by decide +kernel)

theorem lowerLetter_spec : ∀ b : UInt8, b < 128 → (Utf8.asciiRune b).isLower = true →
    (Utf8.asciiRune b).toLower = Utf8.asciiRune b ∧ (Utf8.asciiRune b).isAlpha = true :=
      Utf8.forall_byte (by decide +kernel)

theorem alphanumeric_spec :
    ∀ b : UInt8, b < 128 → (Utf8.asciiRune b).isAlpha = true ∨ (Utf8.asciiRune b).isDigit = true →
    Admission.isAlphanumeric (Utf8.asciiRune b) = true := Utf8.forall_byte (by decide +kernel)

theorem forall_ascii {P : Char → Prop} (h : ∀ b : UInt8, b < 128 → P (Utf8.asciiRune b)) (hc : Utf8.isAscii c = true) :
    P c := by
  have hb := h (Utf8.asciiByte c) (Utf8.asciiByte_lt hc)
  rwa [Utf8.asciiRune_asciiByte hc] at hb

theorem hexDigits_kept (hpkg : pkg.Unicode) (hc : c ∈ hexDigits) : KeptRune pkg c := by
  have hascii := hexDigits_ascii c hc
  have hvalid : ∀ c ∈ hexDigits, (c.isAlpha = true ∨ c.isDigit = true) ∧ c.toLower = c := by decide
  obtain ⟨hkept, hlower⟩ := hvalid c hc
  rw [← hpkg.isLetter c hascii, ← hpkg.isDigit c hascii] at hkept
  exact ⟨hkept, (hpkg.lower c hascii).trans hlower⟩

theorem sanitizeIdentifier_key (hpkg : pkg.Unicode) (hkey : AsciiKey key) :
    ∃ l, sanitizeIdentifier pkg (Utf8.ofString key) 16 = Utf8.encode l ∧ Word pkg l ∧
      ∀ c ∈ l, Utf8.isAscii c = true := by
  have hlowered : Utf8.decode (lowerBytes pkg (Utf8.ofString key)) = key.toList.map pkg.lower := by
    unfold lowerBytes Utf8.ofString
    rw [Utf8.decode_encode, Utf8.decode_encode]
  have hrunes : ∀ c ∈ identifierRunes pkg (Utf8.ofString key), Utf8.isAscii c = true := by
    intro c hc
    unfold identifierRunes at hc
    rw [hlowered] at hc
    rcases mem_sanitizeRunes hc with hc | hc | rfl
    · exact absurd hc List.not_mem_nil
    · obtain ⟨d, hd, rfl⟩ := List.mem_map.mp hc
      rw [hpkg.lower d (hkey.ascii d hd)]
      exact forall_ascii (P := fun d => Utf8.isAscii d.toLower = true) lower_ascii (hkey.ascii d hd)
    · decide
  have hne : sanitizeIdentifier pkg (Utf8.ofString key) 16 ≠ [] := by
    obtain ⟨d, hd, hlower⟩ := hkey.letter
    have hascii := hkey.ascii d hd
    obtain ⟨hsame, halpha⟩ :=
        forall_ascii (P := fun d => d.isLower = true → d.toLower = d ∧ d.isAlpha = true) lowerLetter_spec hascii hlower
    refine sanitizeIdentifier_ne_nil hpkg (by decide) ⟨d, ?_, Or.inl ((hpkg.isLetter d hascii).trans halpha)⟩
    rw [hlowered]
    exact List.mem_map.mpr ⟨d, hd, (hpkg.lower d hascii).trans hsame⟩
  obtain ⟨hencode, hascii⟩ := Utf8.eq_encode_ascii (sanitizeIdentifier_ascii hpkg hrunes)
  exact ⟨_, hencode, sanitizeIdentifier_word hpkg hencode fun hnil => hne (List.map_eq_nil_iff.mp hnil), hascii⟩

theorem Word.isToken (hpkg : pkg.Unicode) (h : Word pkg l) (hascii : ∀ c ∈ l, Utf8.isAscii c = true)
    {rest : Char → Bool} {bound : Nat}
    (hrest : ∀ c, Admission.isAlphanumeric c = true ∨ c = '-' → rest c = true) (hlength : l.length ≤ bound + 1) :
    isToken Admission.isAlphanumeric rest bound (String.ofList l) = true := by
  have halnum (c : Char) (hc : c ∈ l) (hkept : KeptRune pkg c) : Admission.isAlphanumeric c = true := by
    have hvalid := hkept.valid
    rw [hpkg.isLetter c (hascii c hc), hpkg.isDigit c (hascii c hc)] at hvalid
    exact forall_ascii (P := fun c => c.isAlpha = true ∨ c.isDigit = true →
      Admission.isAlphanumeric c = true) alphanumeric_spec
      (hascii c hc) hvalid
  cases l with
  | nil => exact absurd rfl h.ne_nil
  | cons c l =>
    unfold Base.isToken
    rw [String.toList_ofList]
    simp only [Bool.and_eq_true, List.all_eq_true, decide_eq_true_eq]
    refine ⟨⟨?_, fun d hd => ?_⟩, Nat.le_of_succ_le_succ hlength⟩
    · rcases h.rune c List.mem_cons_self with hkept | rfl
      · exact halnum c List.mem_cons_self hkept
      · exact absurd rfl h.head
    · have hd' := List.mem_cons_of_mem c hd
      rcases h.rune d hd' with hkept | hhyphen
      · exact hrest d (Or.inl (halnum d hd' hkept))
      · exact hrest d (Or.inr hhyphen)

theorem isAlphanumeric_ascii (h : Admission.isAlphanumeric c = true) : Utf8.isAscii c = true := by
  have hz : c ≤ 'z' := by
    simp only [Admission.isAlphanumeric, Admission.isUpperLetter, Admission.isLowerLetter, Admission.isNumeral,
      Bool.or_eq_true, Bool.and_eq_true, decide_eq_true_eq] at h
    rcases h with (h | h) | h
    · exact h.2.trans (by decide)
    · exact h.2
    · exact h.2.trans (by decide)
  have hz : c.toNat ≤ 122 := hz
  exact decide_eq_true (by omega)

theorem isAscii_of_isToken {rest : Char → Bool} {bound : Nat} {text : String}
    (h : isToken Admission.isAlphanumeric rest bound text = true)
    (hrest : ∀ c, rest c = true → Utf8.isAscii c = true) : ∀ c ∈ text.toList, Utf8.isAscii c = true := by
  intro c hc
  by_contra hnot
  refine notMem_of_isToken h ?_ ?_ hc
  · exact Bool.eq_false_iff.mpr fun halnum => hnot (isAlphanumeric_ascii halnum)
  · exact Bool.eq_false_iff.mpr fun hr => hnot (hrest c hr)

theorem slotKey_ascii {text : String} (h : Admission.slotKeyPattern text = true) :
    ∀ c ∈ text.toList, Utf8.isAscii c = true := by
  refine isAscii_of_isToken h fun c hc => ?_
  simp only [Bool.or_eq_true, beq_iff_eq] at hc
  rcases hc with (((hc | rfl) | rfl) | rfl) | rfl
  · exact isAlphanumeric_ascii hc
  all_goals decide

end

section
variable {cfg : ScalerConfig} {suffix : String}

def identifierPrefix (cfg : ScalerConfig) : Bytes := sanitizeIdentifier cfg.pkg (Utf8.ofString cfg.namePrefix) 30

def firstPart (cfg : ScalerConfig) : Bytes := if identifierPrefix cfg = [] then Utf8.ofString "runner"
    else identifierPrefix cfg

theorem runnerNameOf_eq : runnerNameOf cfg suffix =
    firstPart cfg ++ hyphen :: sanitizeIdentifier cfg.pkg (Utf8.ofString cfg.targetKey) 16 ++
      hyphen :: Utf8.ofString suffix := rfl

theorem runner_kept {pkg : Packages} (hpkg : pkg.Unicode) : ∀ c ∈ "runner".toList, KeptRune pkg c := by
  intro c hc
  have hletters : ∀ c ∈ "runner".toList, Utf8.isAscii c = true ∧ c.isAlpha = true ∧ c.toLower = c := by decide
  obtain ⟨hascii, halpha, hlower⟩ := hletters c hc
  exact ⟨Or.inl ((hpkg.isLetter c hascii).trans halpha), (hpkg.lower c hascii).trans hlower⟩

theorem firstPart_word (hpkg : cfg.pkg.Unicode) (hwhole : Utf8.encode (Utf8.decode (identifierPrefix cfg)) =
    identifierPrefix cfg) :
    ∃ l, firstPart cfg = Utf8.encode l ∧ Word cfg.pkg l ∧ ((∀ b ∈ identifierPrefix cfg, b < 128) →
      ∀ c ∈ l, Utf8.isAscii c = true) := by
  unfold firstPart
  split
  · exact ⟨"runner".toList, rfl, Word.of_kept hpkg (by decide) (runner_kept hpkg), fun _ => by decide⟩
  · next hne =>
    refine ⟨_, hwhole.symm, sanitizeIdentifier_word hpkg hwhole.symm (Utf8.decode_ne_nil hne), fun hbytes => ?_⟩
    obtain ⟨hencode, hascii⟩ := Utf8.eq_encode_ascii hbytes
    rw [hencode, Utf8.decode_encode]
    exact hascii

theorem runnerName_word (hpkg : cfg.pkg.Unicode) (hkey : AsciiKey cfg.targetKey) (hlength : suffix.toList.length = 8)
    (hhex : ∀ c ∈ suffix.toList, c ∈ hexDigits) (hwhole : Utf8.encode (Utf8.decode (identifierPrefix cfg)) =
      identifierPrefix cfg) :
    ∃ l, runnerNameOf cfg suffix = Utf8.encode l ∧ Word cfg.pkg l ∧
      ((∀ b ∈ identifierPrefix cfg, b < 128) → ∀ c ∈ l, Utf8.isAscii c = true) := by
  obtain ⟨p, hp, hpword, hpascii⟩ := firstPart_word hpkg hwhole
  obtain ⟨t, ht, htword, htascii⟩ := sanitizeIdentifier_key hpkg hkey
  have hsuffix : Word cfg.pkg suffix.toList :=
    Word.of_kept hpkg (fun hnil => by rw [hnil] at hlength; cases hlength) fun c hc => hexDigits_kept hpkg (hhex c hc)
  refine ⟨p ++ '-' :: t ++ '-' :: suffix.toList, ?_, (hpword.join htword).join hsuffix, fun hbytes c hc => ?_⟩
  · have hhyphen : String.utf8EncodeChar '-' = [hyphen] := rfl
    rw [runnerNameOf_eq, hp, ht, Utf8.encode_append, Utf8.encode_append, Utf8.encode_cons, Utf8.encode_cons, hhyphen]
    rfl
  · rcases List.mem_append.mp hc with hc | hc
    · rcases List.mem_append.mp hc with hc | hc
      · exact hpascii hbytes c hc
      · rcases List.mem_cons.mp hc with rfl | hc
        · decide
        · exact htascii c hc
    · rcases List.mem_cons.mp hc with rfl | hc
      · decide
      · exact hexDigits_ascii c (hhex c hc)

theorem runnerName_length (hpkg : cfg.pkg.Unicode) (hlength : suffix.toList.length = 8)
    (hhex : ∀ c ∈ suffix.toList, c ∈ hexDigits) :
    (runnerNameOf cfg suffix).length ≤ 63 := by
  have hfirst : (firstPart cfg).length ≤ 30 := by
    unfold firstPart
    split
    · decide
    · exact (sanitizeIdentifier_append hpkg _ _).2.2
  have htarget := (sanitizeIdentifier_append hpkg (Utf8.ofString cfg.targetKey) 16).2.2
  have hsuffix : (Utf8.ofString suffix).length = 8 := by
    unfold Utf8.ofString
    rw [Utf8.encode_ascii fun c hc => hexDigits_ascii c (hhex c hc), List.length_map, hlength]
  rw [runnerNameOf_eq, List.length_append, List.length_append, List.length_cons, List.length_cons, hsuffix]
  omega

theorem identifierPrefix_subset : ∀ b ∈ identifierPrefix cfg, b ∈ runnerNameOf cfg suffix := by
  intro b hb
  rw [runnerNameOf_eq]
  refine List.mem_append_left _ (List.mem_append_left _ ?_)
  unfold firstPart
  rw [if_neg (List.ne_nil_of_mem hb)]
  exact hb

theorem identifierPrefix_ascii (hpkg : cfg.pkg.Unicode) (h : ∀ c ∈ cfg.namePrefix.toList,
      cfg.pkg.isLetter (cfg.pkg.lower c) = true ∨ cfg.pkg.isDigit (cfg.pkg.lower c) = true →
        Utf8.isAscii (cfg.pkg.lower c) = true) :
    ∀ b ∈ identifierPrefix cfg, b < 128 := by
  refine sanitizeIdentifier_ascii hpkg fun r hr => ?_
  rcases (identifierRunes_tidy hpkg _).rune r hr with hkept | rfl
  · rcases mem_sanitizeRunes hr with hr | hr | rfl
    · exact absurd hr List.not_mem_nil
    · unfold lowerBytes Utf8.ofString at hr
      rw [Utf8.decode_encode, Utf8.decode_encode] at hr
      obtain ⟨c, hc, rfl⟩ := List.mem_map.mp hr
      exact h c hc hkept.valid
    · decide
  · decide

/-- Every name is short enough. It is taken by host admission, as the key of a slot and as the name of a registration,
    and is the name of its container exactly when what is left of the configured prefix is ASCII, which it is when no
    letter or digit beyond ASCII is configured. It is the name of its container as soon as the prefix is not cut
    inside of a rune. -/
theorem runner_names_valid {config : Config} {state : DesiredState} {targets : List TargetSpec} {t : TargetSpec}
    (hpkg : cfg.pkg.Unicode) (htargets : buildTargetSpecs cfg.pkg config state = .ok targets) (ht : t ∈ targets)
    (hkey : cfg.targetKey = t.key) (hlength : suffix.toList.length = 8) (hhex : ∀ c ∈ suffix.toList, c ∈ hexDigits) :
    (runnerNameOf cfg suffix).length ≤ 63 ∧
    ((Admission.validateSlotKey (Utf8.toString (runnerNameOf cfg suffix)) = .ok () ∧
      Admission.validateRegistrationName (Utf8.toString (runnerNameOf cfg suffix)) = .ok () ∧
      sanitizeIdentifier cfg.pkg (runnerNameOf cfg suffix) 63 = runnerNameOf cfg suffix) ↔
        ∀ b ∈ identifierPrefix cfg, b < 128) ∧
    ((∀ c ∈ cfg.namePrefix.toList, cfg.pkg.isLetter (cfg.pkg.lower c) = true ∨
      cfg.pkg.isDigit (cfg.pkg.lower c) = true →
        Utf8.isAscii (cfg.pkg.lower c) = true) → ∀ b ∈ identifierPrefix cfg, b < 128) ∧
    (Utf8.encode (Utf8.decode (identifierPrefix cfg)) = identifierPrefix cfg →
      sanitizeIdentifier cfg.pkg (runnerNameOf cfg suffix) 63 = runnerNameOf cfg suffix) := by
  have hasciiKey : AsciiKey cfg.targetKey := hkey ▸ buildTargetSpecs_asciiKey hpkg htargets ht
  have hshort := runnerName_length hpkg hlength hhex
  have hfix (hwhole : Utf8.encode (Utf8.decode (identifierPrefix cfg)) = identifierPrefix cfg) :
      sanitizeIdentifier cfg.pkg (runnerNameOf cfg suffix) 63 = runnerNameOf cfg suffix := by
    obtain ⟨l, hname, hword, -⟩ := runnerName_word hpkg hasciiKey hlength hhex hwhole
    rw [hname] at hshort ⊢
    exact sanitizeIdentifier_eq_self hpkg hword hshort
  refine ⟨hshort, ⟨fun h b hb => ?_, fun hbytes => ?_⟩, identifierPrefix_ascii hpkg, hfix⟩
  · have hpattern := Bool.eq_true_of_not_eq_false (reject_eq_ok.mp h.1)
    have hrunes := slotKey_ascii hpattern
    unfold Utf8.toString at hrunes
    rw [String.toList_ofList] at hrunes
    exact Utf8.lt_of_decode_ascii hrunes b (identifierPrefix_subset b hb)
  · have hwhole : Utf8.encode (Utf8.decode (identifierPrefix cfg)) = identifierPrefix cfg := by
      obtain ⟨hencode, -⟩ := Utf8.eq_encode_ascii hbytes
      rw [hencode, Utf8.decode_encode]
    obtain ⟨l, hname, hword, hascii⟩ := runnerName_word hpkg hasciiKey hlength hhex hwhole
    have hascii := hascii hbytes
    have htext :
        Utf8.toString (runnerNameOf cfg suffix) = String.ofList l := by rw [hname, Utf8.toString, Utf8.decode_encode]
    have hcount : l.length ≤ 63 := by
      rw [hname, Utf8.encode_ascii hascii, List.length_map] at hshort
      exact hshort
    rw [htext]
    refine ⟨reject_eq_ok.mpr ?_, reject_eq_ok.mpr ?_, hfix hwhole⟩
    · rw [Bool.not_eq_false]
      refine hword.isToken hpkg hascii (fun c hc => ?_) (by omega)
      rcases hc with hc | rfl
      · rw [hc, Bool.true_or, Bool.true_or, Bool.true_or, Bool.true_or]
      · decide
    · rw [Bool.not_eq_false]
      refine hword.isToken hpkg hascii (fun c hc => ?_) (by omega)
      rcases hc with hc | rfl
      · rw [hc, Bool.true_or, Bool.true_or, Bool.true_or]
      · decide

end

/-! ## A prefix with an accent -/

/-- Letters are those of ASCII and one more. -/
def accentPackages : Packages := { PlainURL.packages with isLetter := fun c => c.isAlpha || c = 'é' }

theorem accentPackages_unicode : accentPackages.Unicode where
  isLetter c hc := by
    have hne : c ≠ 'é' := by
      rintro rfl
      exact absurd hc (by decide)
    show (c.isAlpha || decide (c = 'é')) = c.isAlpha
    rw [decide_eq_false hne, Bool.or_false]
  isDigit _ _ := rfl
  lower _ _ := rfl
  lower_lower := PlainURL.lower_lower
  hexDigest _ _ := Sha256.mem_hex

/-- A manager whose one target is its organization. -/
def accentScaler (namePrefix : String) : ScalerConfig where
  pkg := accentPackages
  rfc := utcTime
  deterministicRetryJitter := deterministicRetryJitter Sha256.firstBytes
  targetKey := "scope"
  profileID := "acme"
  namePrefix

def scopeState : DesiredState := { schemaVersion := 1, generation := 1, scope := .org, replicas := some 1 }

def scopeConfig : Config := { scope := .org, profileID := "acme", namePrefix := "pit", organization := "acme" }

theorem scopeTargets : buildTargetSpecs accentPackages scopeConfig scopeState =
    .ok [{ key := "scope", registrationURL := "https://github.com/acme", maximum := 1,
           scaleSetName := "pitcrew-acme-7bad98b1114a" }] := by
  decide +kernel

/-- The name of a runner on a host called `Pit_01`. -/
theorem runner_names_valid_plain :
    runnerNameOf (accentScaler "Pit_01") "0123abcd" = Utf8.ofString "pit-01-scope-0123abcd" ∧
      Admission.validateSlotKey (Utf8.toString (runnerNameOf (accentScaler "Pit_01") "0123abcd")) = .ok () :=
  ⟨by decide +kernel,
    ((@runner_names_valid (accentScaler "Pit_01") "0123abcd" _ _ _ _ accentPackages_unicode scopeTargets
      List.mem_cons_self rfl
      (by decide) (by decide)).2.1.mpr (by decide +kernel)).1⟩

/-- A letter beyond ASCII stays in the name, which host admission refuses. -/
theorem accented_name_refused :
    runnerNameOf (accentScaler "é") "0123abcd" = Utf8.ofString "é-scope-0123abcd" ∧
      Admission.validateSlotKey (Utf8.toString (runnerNameOf (accentScaler "é") "0123abcd")) ≠ .ok () ∧
      Admission.validateRegistrationName (Utf8.toString (runnerNameOf (accentScaler "é") "0123abcd")) ≠ .ok () := by
  decide +kernel

end PitCrew.Autoscaler
