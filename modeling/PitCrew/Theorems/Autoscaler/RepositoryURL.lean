import PitCrew.Base.Sha256
import PitCrew.Base.Percent
import PitCrew.Base.Text
import PitCrew.Autoscaler.Desired

/-! # Canonical repository URLs

When a canonical URL is canonical: what `canonicalRepositoryURL` returns is read again by `validateDesiredState` and by
`buildTargetSpecs`, while the slots of a document are named after the URL that was returned first. -/

namespace PitCrew.Autoscaler
open Base
open scoped Utf8

/-! ## `net/url` -/

/-- A host name and a port, as the host of a URL holds them. -/
def hostPort (name : Bytes) (port : String) : Bytes :=
  if port ≠ "" then joinHostPort name port
  else if colon ∈ name then Utf8.ofString "[" ++ name ++ Utf8.ofString "]"
  else name

def keptPort (scheme port : String) : String :=
  if (scheme = "http" ∧ port = "80") ∨ (scheme = "https" ∧ port = "443") then "" else port

/-- How `net/url` prints hosts and paths, and what it takes for the name and the port of a host. -/
structure NetURL where
  printHost : Bytes → String
  printByte : UInt8 → String
  Name : Bytes → Prop
  Port : String → Prop
  Address : Bytes → Prop

/-- A name that is put in brackets, for the colons in it, may stand there. -/
def NetURL.Addressed (net : NetURL) (name : Bytes) : Prop := colon ∈ name → net.Address name

def NetURL.printPath (net : NetURL) (path : Bytes) : String :=
  String.ofList (path.flatMap fun b => (net.printByte b).toList)

/-- A URL with a host, without what `canonicalRepositoryURL` takes away or refuses. -/
structure NetURL.Plain (net : NetURL) (u : URL) : Prop where
  scheme : u.scheme = "http" ∨ u.scheme = "https"
  host : ∃ name port, net.Name name ∧ net.Port port ∧ u.host = hostPort name port
  path : u.path.head? = some slash
  user : u.user = false
  rawPath : u.rawPath = ""
  rawQuery : u.rawQuery = ""
  fragment : u.fragment = ""
  forceQuery : u.forceQuery = false

/-- The documented behaviour of `net/url` and `unicode`. -/
structure NetURL.Documented (net : NetURL) (pkg : Packages) : Prop where
  parsed : ∀ value u, pkg.parseURL value = some u →
    net.Name (pkg.hostname u) ∧ net.Port (pkg.port u) ∧ (u.host ≠ [] → u.path ≠ [] → u.path.head? = some slash)
  /-- `Hostname` and `Port` take apart what `net.JoinHostPort` puts together. -/
  split : ∀ u name port, net.Name name → net.Port port → u.host = hostPort name port →
    pkg.hostname u = name ∧ pkg.port u = port
  format : ∀ u, net.Plain u → pkg.formatURL u = u.scheme ++ "://" ++ net.printHost u.host ++ net.printPath u.path
  /-- `Parse` reads what `String` prints, unless brackets hold what is no address. -/
  parse_format : ∀ u, net.Plain u → net.Addressed (pkg.hostname u) → pkg.parseURL (pkg.formatURL u) = some u
  parse_brackets : ∀ u, net.Plain u → ¬net.Addressed (pkg.hostname u) → pkg.parseURL (pkg.formatURL u) = none
  printByte_slash : net.printByte slash = "/"
  printByte_other : ∀ b, b ≠ slash → (net.printByte b).toList ≠ [] ∧ '/' ∉ (net.printByte b).toList
  spaceless : ∀ u, net.Plain u → ∀ c ∈ (pkg.formatURL u).toList, pkg.isSpace c = false
  name_lower : ∀ name, net.Name name → net.Name (lowerBytes pkg name)
  port_none : net.Port ""
  lower_lower : ∀ c, pkg.lower (pkg.lower c) = pkg.lower c

/-! ## Texts -/

section
variable {pkg : Packages} {α : Type}

theorem rdropWhile_append {p : α → Bool} {l r : List α} (hr : ∀ x ∈ r, p x = true)
    (hl : ∀ hne : l ≠ [], ¬p (l.getLast hne) = true) :
    (l ++ r).rdropWhile p = l := by
  unfold List.rdropWhile
  rw [List.reverse_append, List.dropWhile_append_of_pos fun x hx => hr x (List.mem_reverse.mp hx)]
  exact List.rdropWhile_eq_self_iff.mpr hl

theorem trimByte_ne_nil {cut : UInt8} {s : Bytes} : trimByte cut s ≠ [] ↔ ∃ b ∈ s, b ≠ cut := by
  unfold trimByte
  rw [Ne, List.rdropWhile_eq_nil_iff]
  constructor
  · intro h
    by_contra hall
    push Not at hall
    refine h fun b hb => decide_eq_true (hall b ((List.dropWhile_sublist _).subset hb))
  · rintro ⟨b, hb, hne⟩ hall
    rw [← List.takeWhile_append_dropWhile (p := fun x => decide (x = cut)) (l := s), List.mem_append] at hb
    rcases hb with hb | hb
    · have hcut := List.mem_takeWhile_imp hb
      exact hne (of_decide_eq_true hcut)
    · exact hne (of_decide_eq_true (hall b hb))

theorem toLower_toLower {net : NetURL} (hnet : net.Documented pkg) (s : String) :
    toLower pkg (toLower pkg s) = toLower pkg s := by
  refine String.toList_inj.mp ?_
  simp only [toLower, String.toList_map, List.map_map]
  exact List.map_congr_left fun c _ => hnet.lower_lower c

theorem lowerBytes_lowerBytes {net : NetURL} (hnet : net.Documented pkg) (s : Bytes) :
    lowerBytes pkg (lowerBytes pkg s) = lowerBytes pkg s := by
  unfold lowerBytes
  rw [Utf8.decode_encode, List.map_map]
  exact congrArg _ (List.map_congr_left fun c _ => hnet.lower_lower c)

end

/-! ## What is accepted -/

section
variable {pkg : Packages} {net : NetURL} {value c : String} {parsed : URL}

/-- The value reads as a URL that `canonicalRepositoryURL` does not refuse. -/
structure Accepts (pkg : Packages) (value : String) (parsed : URL) : Prop where
  text : ¬(value = "" ∨ value = "-" ∨ value ≠ trim pkg.isSpace value ∨ value.toList.any pkg.isSpace)
  parse : pkg.parseURL value = some parsed
  absolute : ¬((toLower pkg parsed.scheme ≠ "http" ∧ toLower pkg parsed.scheme ≠ "https") ∨ parsed.host = [] ∨
    trimByte slash parsed.path = [] ∨ parsed.user ∨ parsed.rawQuery ≠ "" ∨ parsed.fragment ≠ "")
  repository : trimByte slash (repositoryPath pkg parsed.path) ≠ []

/-- The URL that is printed, before the slashes at its end are cut. -/
def printedURL (pkg : Packages) (parsed : URL) : URL :=
  { parsed with
    scheme := toLower pkg parsed.scheme
    path := repositoryPath pkg parsed.path
    host := repositoryHost pkg (toLower pkg parsed.scheme) parsed
    rawPath := ""
    forceQuery := false }

theorem canonicalRepositoryURL_eq_ok : canonicalRepositoryURL pkg value = .ok c ↔
    ∃ parsed, Accepts pkg value parsed ∧ trimRight (· = '/') (pkg.formatURL (printedURL pkg parsed)) = c := by
  unfold canonicalRepositoryURL
  rw [bind_eq_ok]
  constructor
  · rintro ⟨_, hvalue, h⟩
    split at h
    · cases h
    · next parsed hparse =>
      obtain ⟨_, habsolute, h⟩ := bind_eq_ok.mp h
      obtain ⟨_, hrepository, h⟩ := bind_eq_ok.mp h
      exact ⟨parsed, ⟨reject_eq_ok.mp hvalue, hparse, reject_eq_ok.mp habsolute, reject_eq_ok.mp hrepository⟩,
        Except.ok.inj h⟩
  · rintro ⟨parsed, h, rfl⟩
    refine ⟨(), reject_eq_ok.mpr h.text, ?_⟩
    rw [h.parse]
    exact bind_eq_ok.mpr ⟨(), reject_eq_ok.mpr h.absolute, bind_eq_ok.mpr ⟨(), reject_eq_ok.mpr h.repository, rfl⟩⟩

def canonicalPath (pkg : Packages) (path : Bytes) : Bytes := (repositoryPath pkg path).rdropWhile (· = slash)

/-- The URL that a canonical URL is the text of. -/
def canonicalURL (pkg : Packages) (parsed : URL) : URL :=
  { scheme := toLower pkg parsed.scheme
    host := repositoryHost pkg (toLower pkg parsed.scheme) parsed
    path := canonicalPath pkg parsed.path }

theorem canonicalURL_path : (canonicalURL pkg parsed).path = canonicalPath pkg parsed.path := rfl

theorem repositoryHost_eq (scheme : String) :
    repositoryHost pkg scheme parsed = hostPort (lowerBytes pkg (pkg.hostname parsed))
      (keptPort scheme (pkg.port parsed)) := rfl

theorem repositoryPath_append (pkg : Packages) (path : Bytes) : ∃ rest, repositoryPath pkg path ++ rest = path := by
  have htrim := List.rdropWhile_append_rtakeWhile (p := fun b => decide (b = slash)) (l := path)
  unfold repositoryPath
  dsimp only
  split
  · generalize path.rdropWhile (· = slash) = trimmed at htrim
    refine ⟨trimmed.drop (trimmed.length - 4) ++ path.rtakeWhile (· = slash), ?_⟩
    unfold List.rdrop
    rw [← List.append_assoc, List.take_append_drop]
    exact htrim
  · exact ⟨_, htrim⟩

theorem canonicalPath_append (pkg : Packages) (path : Bytes) :
    ∃ rest, canonicalPath pkg path ++ rest = repositoryPath pkg path :=
  ⟨_, List.rdropWhile_append_rtakeWhile⟩

theorem head?_of_append {a b rest : Bytes} (h : a ++ rest = b) (ha : a ≠ []) : a.head? = b.head? := by
  rw [← h, List.head?_append_of_ne_nil a ha]

theorem Accepts.scheme (h : Accepts pkg value parsed) :
    toLower pkg parsed.scheme = "http" ∨ toLower pkg parsed.scheme = "https" := by
  by_contra hne
  exact h.absolute (Or.inl (not_or.mp hne))

theorem Accepts.path (h : Accepts pkg value parsed) : ∃ b ∈ parsed.path, b ≠ slash :=
  trimByte_ne_nil.mp fun hpath => h.absolute (Or.inr (Or.inr (Or.inl hpath)))

theorem canonicalPath_ne_nil (h : trimByte slash (repositoryPath pkg parsed.path) ≠ []) :
    canonicalPath pkg parsed.path ≠ [] := by
  obtain ⟨b, hb, hne⟩ := trimByte_ne_nil.mp h
  intro hnil
  exact hne (of_decide_eq_true (List.rdropWhile_eq_nil_iff.mp hnil b hb))

theorem canonicalPath_last (pkg : Packages) (path : Bytes) (hne : canonicalPath pkg path ≠ []) :
    (canonicalPath pkg path).getLast hne ≠ slash :=
  fun hlast => List.rdropWhile_last_not _ (repositoryPath pkg path) hne (decide_eq_true hlast)

section
variable (hnet : net.Documented pkg)
include hnet

theorem Accepts.head (h : Accepts pkg value parsed) : parsed.path.head? = some slash := by
  obtain ⟨b, hb, -⟩ := h.path
  exact (hnet.parsed value parsed h.parse).2.2 (fun hhost => h.absolute (Or.inr (Or.inl hhost))) (List.ne_nil_of_mem hb)

theorem keptPort_port {scheme port : String} (h : net.Port port) : net.Port (keptPort scheme port) := by
  unfold keptPort
  split
  · exact hnet.port_none
  · exact h

theorem host_plain (h : Accepts pkg value parsed) (scheme : String) :
    ∃ name port, net.Name name ∧ net.Port port ∧ repositoryHost pkg scheme parsed = hostPort name port := by
  obtain ⟨hname, hport, -⟩ := hnet.parsed value parsed h.parse
  exact ⟨_, _, hnet.name_lower _ hname, keptPort_port hnet hport, repositoryHost_eq scheme⟩

theorem printedURL_plain (h : Accepts pkg value parsed) : net.Plain (printedURL pkg parsed) := by
  obtain ⟨rest, hrest⟩ := repositoryPath_append pkg parsed.path
  obtain ⟨b, hb, -⟩ := trimByte_ne_nil.mp h.repository
  exact {
    scheme := h.scheme
    host := host_plain hnet h _
    path := (head?_of_append hrest (List.ne_nil_of_mem hb)).trans (h.head hnet)
    user := Bool.eq_false_iff.mpr fun huser => h.absolute (Or.inr (Or.inr (Or.inr (Or.inl huser))))
    rawPath := rfl
    rawQuery := not_not.mp fun hquery => h.absolute (Or.inr (Or.inr (Or.inr (Or.inr (Or.inl hquery)))))
    fragment := not_not.mp fun hfragment => h.absolute (Or.inr (Or.inr (Or.inr (Or.inr (Or.inr hfragment)))))
    forceQuery := rfl }

theorem canonicalURL_plain (h : Accepts pkg value parsed) : net.Plain (canonicalURL pkg parsed) := by
  obtain ⟨rest, hrest⟩ := canonicalPath_append pkg parsed.path
  exact {
    scheme := h.scheme
    host := host_plain hnet h _
    path := (head?_of_append hrest (canonicalPath_ne_nil h.repository)).trans (printedURL_plain hnet h).path
    user := rfl
    rawPath := rfl
    rawQuery := rfl
    fragment := rfl
    forceQuery := rfl }

theorem trimRight_printPath {path : Bytes} (front : String) (hpath : path.rdropWhile (· = slash) ≠ []) :
    trimRight (· = '/') (front ++ net.printPath path) = front ++ net.printPath (path.rdropWhile (· = slash)) := by
  have hlast := List.rdropWhile_last_not (fun b => decide (b = slash)) path hpath
  have hcut (b : UInt8) (hb : b ∈ path.rtakeWhile fun b => decide (b = slash)) : b = slash := by
    have hcut := List.mem_rtakeWhile_imp hb
    exact of_decide_eq_true hcut
  have hsplit := List.rdropWhile_append_rtakeWhile (p := fun b => decide (b = slash)) (l := path)
  generalize path.rdropWhile (fun b => decide (b = slash)) = kept at hpath hlast hsplit ⊢
  generalize path.rtakeWhile (fun b => decide (b = slash)) = cut at hcut hsplit
  refine String.toList_inj.mp ((String.toList_ofList).trans ?_)
  show (front ++ net.printPath path).toList.rdropWhile _ = _
  unfold NetURL.printPath
  simp only [String.toList_append, String.toList_ofList]
  rw [← hsplit, List.flatMap_append, ← List.append_assoc]
  refine rdropWhile_append (fun x hx => ?_) fun hne => ?_
  · obtain ⟨b, hb, hx⟩ := List.mem_flatMap.mp hx
    rw [hcut b hb, hnet.printByte_slash] at hx
    exact decide_eq_true (List.mem_singleton.mp hx)
  · -- the last character is one that a byte other than the slash is printed as
    obtain ⟨hprinted, hother⟩ := hnet.printByte_other (kept.getLast hpath) fun h => hlast (decide_eq_true h)
    have hshape : front.toList ++ kept.flatMap (fun b => (net.printByte b).toList) =
        (front.toList ++ kept.dropLast.flatMap fun b => (net.printByte b).toList) ++
          (net.printByte (kept.getLast hpath)).toList := by
      conv_lhs => rw [← List.dropLast_append_getLast hpath]
      rw [List.flatMap_append, List.flatMap_singleton, List.append_assoc]
    have hend := List.getLast_congr hne (List.append_ne_nil_of_right_ne_nil _ hprinted) hshape
    rw [List.getLast_append_of_ne_nil _ hprinted] at hend
    intro h
    refine hother ?_
    rw [← of_decide_eq_true h, hend]
    exact List.getLast_mem hprinted

theorem trimRight_formatURL (h : Accepts pkg value parsed) :
    trimRight (· = '/') (pkg.formatURL (printedURL pkg parsed)) = pkg.formatURL (canonicalURL pkg parsed) := by
  rw [hnet.format _ (printedURL_plain hnet h), hnet.format _ (canonicalURL_plain hnet h)]
  exact trimRight_printPath hnet _ (canonicalPath_ne_nil h.repository)

theorem canonicalRepositoryURL_text (h : canonicalRepositoryURL pkg value = .ok c) :
    ∃ parsed, Accepts pkg value parsed ∧ c = pkg.formatURL (canonicalURL pkg parsed) := by
  obtain ⟨parsed, haccepts, hc⟩ := canonicalRepositoryURL_eq_ok.mp h
  rw [trimRight_formatURL hnet haccepts] at hc
  exact ⟨parsed, haccepts, hc.symm⟩

theorem canonicalURL_hostPort (h : Accepts pkg value parsed) :
    pkg.hostname (canonicalURL pkg parsed) = lowerBytes pkg (pkg.hostname parsed) ∧
      pkg.port (canonicalURL pkg parsed) = keptPort (toLower pkg parsed.scheme) (pkg.port parsed) := by
  obtain ⟨hname, hport, -⟩ := hnet.parsed value parsed h.parse
  exact hnet.split (canonicalURL pkg parsed) _ _ (hnet.name_lower _ hname) (keptPort_port hnet hport)
    (repositoryHost_eq _)

theorem parseURL_canonicalURL (h : Accepts pkg value parsed) :
    pkg.parseURL (pkg.formatURL (canonicalURL pkg parsed)) = some (canonicalURL pkg parsed) ↔
      net.Addressed (lowerBytes pkg (pkg.hostname parsed)) := by
  rw [← (canonicalURL_hostPort hnet h).1]
  refine ⟨fun hparse => ?_, hnet.parse_format _ (canonicalURL_plain hnet h)⟩
  by_contra haddressed
  rw [hnet.parse_brackets _ (canonicalURL_plain hnet h) haddressed] at hparse
  cases hparse

theorem parseURL_of_accepts {again : URL} (h : Accepts pkg value parsed)
    (hagain : Accepts pkg (pkg.formatURL (canonicalURL pkg parsed)) again) :
    again = canonicalURL pkg parsed ∧ net.Addressed (lowerBytes pkg (pkg.hostname parsed)) := by
  have haddressed : net.Addressed (lowerBytes pkg (pkg.hostname parsed)) := by
    by_contra haddressed
    rw [← (canonicalURL_hostPort hnet h).1] at haddressed
    cases hagain.parse.symm.trans (hnet.parse_brackets _ (canonicalURL_plain hnet h) haddressed)
  exact ⟨Option.some.inj (hagain.parse.symm.trans ((parseURL_canonicalURL hnet h).mpr haddressed)), haddressed⟩

end

/-! ## When a canonical URL stays -/

/-- There is a host besides the scheme's own port, with colons in its name only if it is an address, and the path that
    is left does not end in `.git` once more. -/
structure SettledURL (net : NetURL) (pkg : Packages) (parsed : URL) : Prop where
  host : pkg.hostname parsed ≠ [] ∨ keptPort (toLower pkg parsed.scheme) (pkg.port parsed) ≠ ""
  addressed : net.Addressed (lowerBytes pkg (pkg.hostname parsed))
  path : ¬Utf8.ofString ".git" <:+ lowerBytes pkg (canonicalPath pkg parsed.path)

theorem keptPort_keptPort (scheme port : String) : keptPort scheme (keptPort scheme port) = keptPort scheme port := by
  unfold keptPort
  split
  · exact ite_self ""
  · rfl

theorem lowerBytes_eq_nil {s : Bytes} : lowerBytes pkg s = [] ↔ s = [] := by
  refine ⟨fun h => ?_, fun h => by rw [h]; rfl⟩
  by_contra hs
  cases hdecode : Utf8.decode s with
  | nil => exact Utf8.decode_ne_nil hs hdecode
  | cons rune runes =>
    unfold lowerBytes at h
    rw [hdecode, List.map_cons, Utf8.encode_cons] at h
    have hlength := congrArg List.length (List.append_eq_nil_iff.mp h).1
    rw [String.length_utf8EncodeChar] at hlength
    exact absurd hlength (Char.utf8Size_pos _).ne'

theorem hostPort_eq_nil {name : Bytes} {port : String} : hostPort name port = [] ↔ name = [] ∧ port = "" := by
  unfold hostPort joinHostPort
  by_cases hport : port = ""
  · rw [if_neg (not_not.mpr hport)]
    split
    · next hcolon => exact ⟨fun h => by simp [Utf8.ofString, Utf8.encode] at h,
        fun h => by rw [h.1] at hcolon; cases hcolon⟩
    · exact ⟨fun h => ⟨h, hport⟩, fun h => h.1⟩
  · rw [if_pos hport]
    refine ⟨fun h => ?_, fun h => absurd h.2 hport⟩
    split at h <;> simp [Utf8.ofString, Utf8.encode] at h

theorem host_ne_nil_iff : (canonicalURL pkg parsed).host ≠ [] ↔
    pkg.hostname parsed ≠ [] ∨ keptPort (toLower pkg parsed.scheme) (pkg.port parsed) ≠ "" := by
  show repositoryHost pkg _ parsed ≠ [] ↔ _
  rw [repositoryHost_eq, Ne, hostPort_eq_nil, lowerBytes_eq_nil, not_and_or]

theorem canonicalPath_eq_self_iff {path : Bytes} (hne : path ≠ []) (hlast : path.getLast hne ≠ slash) :
    canonicalPath pkg path = path ↔ ¬Utf8.ofString ".git" <:+ lowerBytes pkg path := by
  have htrim :
      path.rdropWhile (· = slash) = path := List.rdropWhile_eq_self_iff.mpr fun _ h => hlast (of_decide_eq_true h)
  unfold canonicalPath repositoryPath
  dsimp only
  rw [htrim]
  split
  · next hgit =>
    refine iff_of_false (fun h => ?_) (not_not.mpr hgit)
    have hlength := congrArg List.length h
    have hcut := (List.rdropWhile_append_rtakeWhile (p := fun b => decide (b = slash)) (l := path.rdrop 4))
    have hcut := congrArg List.length hcut
    have hpos := List.length_pos_iff.mpr hne
    rw [List.length_append] at hcut
    unfold List.rdrop at hcut hlength
    rw [List.length_take] at hcut
    omega
  · next hgit => exact iff_of_true htrim hgit

theorem canonicalURL_canonicalURL (hnet : net.Documented pkg) (h : Accepts pkg value parsed) :
    canonicalURL pkg (canonicalURL pkg parsed) =
      { canonicalURL pkg parsed with path := canonicalPath pkg (canonicalPath pkg parsed.path) } := by
  obtain ⟨hname', hport'⟩ := canonicalURL_hostPort hnet h
  have hscheme : toLower pkg (canonicalURL pkg parsed).scheme = (canonicalURL pkg parsed).scheme :=
    toLower_toLower hnet _
  have hhost :
      repositoryHost pkg (canonicalURL pkg parsed).scheme (canonicalURL pkg parsed) =
        (canonicalURL pkg parsed).host := by
    rw [repositoryHost_eq, hname', hport', lowerBytes_lowerBytes hnet]
    show hostPort _ (keptPort (toLower pkg parsed.scheme) _) = repositoryHost pkg _ parsed
    rw [keptPort_keptPort, repositoryHost_eq]
  rw [canonicalURL, hscheme, hhost]
  rfl

theorem canonicalURL_eq_self (hnet : net.Documented pkg) (h : Accepts pkg value parsed)
    (hpath : ¬Utf8.ofString ".git" <:+ lowerBytes pkg (canonicalPath pkg parsed.path)) :
    canonicalURL pkg (canonicalURL pkg parsed) = canonicalURL pkg parsed := by
  have hne := canonicalPath_ne_nil h.repository
  rw [canonicalURL_canonicalURL hnet h, (canonicalPath_eq_self_iff hne (canonicalPath_last _ _ hne)).mpr hpath]
  rfl

theorem trim_eq_self {bad : Char → Bool} {s : String} (h : ∀ c ∈ s.toList, bad c = false) : trim bad s = s := by
  have hstays : ∀ l : List Char, (∀ c ∈ l, bad c = false) → l.dropWhile bad = l := by
    intro l hl
    cases l with
    | nil => rfl
    | cons c l => rw [List.dropWhile_cons_of_neg (by rw [hl c List.mem_cons_self]; exact Bool.false_ne_true)]
  unfold trim trimRight trimLeft
  rw [hstays _ h, String.ofList_toList, hstays _ fun c hc => h c (List.mem_reverse.mp hc), List.reverse_reverse,
    String.ofList_toList]

theorem formatURL_text (hnet : net.Documented pkg) {u : URL} (h : net.Plain u) (hc : c = pkg.formatURL u) :
    ¬(c = "" ∨ c = "-" ∨ c ≠ trim pkg.isSpace c ∨ c.toList.any pkg.isSpace) := by
  have hspaceless : ∀ ch ∈ c.toList, pkg.isSpace ch = false := hc ▸ hnet.spaceless u h
  have hfirst : c.toList.head? = some 'h' := by
    rw [hc, hnet.format u h, String.toList_append, String.toList_append, String.toList_append, List.append_assoc,
      List.append_assoc]
    rcases h.scheme with hs | hs <;> rw [hs] <;> rfl
  rintro (rfl | rfl | htrim | hany)
  · cases hfirst
  · exact absurd hfirst (by decide)
  · exact htrim (trim_eq_self hspaceless).symm
  · obtain ⟨ch, hch, hspace⟩ := List.any_eq_true.mp hany
    rw [hspaceless ch hch] at hspace
    cases hspace

theorem canonicalURL_accepts (hnet : net.Documented pkg) (h : Accepts pkg value parsed)
    (hsettled : SettledURL net pkg parsed) :
    Accepts pkg (pkg.formatURL (canonicalURL pkg parsed)) (canonicalURL pkg parsed) := by
  have hplain := canonicalURL_plain hnet h
  have hne := canonicalPath_ne_nil h.repository
  have hlast := canonicalPath_last pkg parsed.path hne
  have hpath := (canonicalPath_eq_self_iff hne hlast).mpr hsettled.path
  refine ⟨formatURL_text hnet hplain rfl, (parseURL_canonicalURL hnet h).mpr hsettled.addressed, ?_,
    trimByte_ne_nil.mpr ⟨_, ?_, hlast⟩⟩
  · have hslashed : trimByte slash (canonicalPath pkg parsed.path) ≠ [] :=
      trimByte_ne_nil.mpr ⟨_, List.getLast_mem hne, hlast⟩
    have hscheme : toLower pkg (canonicalURL pkg parsed).scheme = (canonicalURL pkg parsed).scheme :=
      toLower_toLower hnet _
    rw [hscheme]
    rintro (hrefused | hhost | hslashes | huser | hquery | hfragment)
    · exact hplain.scheme.elim hrefused.1 hrefused.2
    · exact host_ne_nil_iff.mpr hsettled.host hhost
    · exact hslashed hslashes
    · cases huser
    · exact hquery rfl
    · exact hfragment rfl
  · obtain ⟨rest, hrest⟩ := canonicalPath_append pkg (canonicalPath pkg parsed.path)
    show _ ∈ repositoryPath pkg (canonicalPath pkg parsed.path)
    rw [← hrest, hpath]
    exact List.mem_append_left _ (List.getLast_mem hne)

theorem canonicalURL_of_stays (hnet : net.Documented pkg) (h : Accepts pkg value parsed)
    (hagain : Accepts pkg c (canonicalURL pkg parsed))
    (haddressed : net.Addressed (lowerBytes pkg (pkg.hostname parsed)))
    (hsame : pkg.formatURL (canonicalURL pkg parsed) = pkg.formatURL (canonicalURL pkg (canonicalURL pkg parsed))) :
    canonicalURL pkg (canonicalURL pkg parsed) = canonicalURL pkg parsed := by
  have haddressed' : net.Addressed (lowerBytes pkg (pkg.hostname (canonicalURL pkg parsed))) := by
    rw [(canonicalURL_hostPort hnet h).1, lowerBytes_lowerBytes hnet]
    exact haddressed
  have hparse := (parseURL_canonicalURL hnet h).mpr haddressed
  have hparse' := (parseURL_canonicalURL hnet hagain).mpr haddressed'
  rw [hsame, hparse'] at hparse
  exact Option.some.inj hparse

theorem canonicalRepositoryURL_stays_iff (hnet : net.Documented pkg) (h : canonicalRepositoryURL pkg value = .ok c) :
    canonicalRepositoryURL pkg c = .ok c ↔ ∃ parsed, pkg.parseURL value = some parsed ∧ SettledURL net pkg parsed := by
  obtain ⟨parsed, haccepts, rfl⟩ := canonicalRepositoryURL_text hnet h
  constructor
  · intro hstays
    obtain ⟨again, hagain, hsame⟩ := canonicalRepositoryURL_text hnet hstays
    obtain ⟨rfl, haddressed⟩ := parseURL_of_accepts hnet haccepts hagain
    have hne := canonicalPath_ne_nil haccepts.repository
    refine ⟨parsed, haccepts.parse, host_ne_nil_iff.mp fun hhost => hagain.absolute (Or.inr (Or.inl hhost)),
      haddressed, ?_⟩
    -- the text that stays is read as the URL that is printed once more
    have hpath := congrArg URL.path (canonicalURL_of_stays hnet haccepts hagain haddressed hsame)
    rw [canonicalURL_path, canonicalURL_path] at hpath
    exact (canonicalPath_eq_self_iff hne (canonicalPath_last _ _ hne)).mp hpath
  · rintro ⟨again, hagain, hsettled⟩
    obtain rfl : parsed = again := Option.some.inj (haccepts.parse.symm.trans hagain)
    have hstays := canonicalURL_accepts hnet haccepts hsettled
    refine canonicalRepositoryURL_eq_ok.mpr ⟨canonicalURL pkg parsed, hstays, ?_⟩
    rw [trimRight_formatURL hnet hstays, canonicalURL_eq_self hnet haccepts hsettled.path]

end

/-! ## Slots and targets -/

section
variable {pkg : Packages} {cfg : Config} {state : DesiredState} {key : String}

theorem hyphen_notMem_slotOrdinal (ordinal : Nat) : '-' ∉ (slotOrdinal ordinal).toList := by
  unfold slotOrdinal
  rw [String.toList_ofList, List.mem_append, not_or]
  refine ⟨fun h => absurd (List.eq_of_mem_replicate h) (by decide), fun h => ?_⟩
  have h : '-' ∈ ordinal.repr.toList := h
  rw [Nat.toList_repr] at h
  exact absurd (Nat.isDigit_of_mem_toDigits (by decide) (by decide) h) (by decide)

theorem exists_mem_slotKeys {targetKey : String} {workers : Int} :
    (∃ ordinal, key ++ "-" ++ slotOrdinal ordinal ∈ slotKeys targetKey workers) ↔ targetKey = key ∧ 1 ≤ workers := by
  constructor
  · rintro ⟨ordinal, h⟩
    obtain ⟨index, hindex, hkey⟩ := List.mem_map.mp h
    have hindex := List.mem_range.mp hindex
    exact ⟨(join_inj_right (hyphen_notMem_slotOrdinal _) (hyphen_notMem_slotOrdinal _) hkey).1, by omega⟩
  · rintro ⟨rfl, hworkers⟩
    exact ⟨1, List.mem_map.mpr ⟨0, List.mem_range.mpr (by omega), rfl⟩⟩

theorem exists_mem_configuredSlotKeys_repo (hscope : state.scope = .repo) :
    (∃ ordinal, key ++ "-" ++ slotOrdinal ordinal ∈ configuredSlotKeys pkg state) ↔
      ∃ r ∈ state.repositories, repositoryTargetKey pkg r.url = key ∧ 1 ≤ r.workers := by
  unfold configuredSlotKeys
  dsimp only
  rw [if_pos hscope]
  simp only [List.mem_insertionSort, List.mem_flatMap]
  constructor
  · rintro ⟨ordinal, r, hr, h⟩
    exact ⟨r, hr, exists_mem_slotKeys.mp ⟨ordinal, h⟩⟩
  · rintro ⟨r, hr, h⟩
    obtain ⟨ordinal, h⟩ := exists_mem_slotKeys.mpr h
    exact ⟨ordinal, r, hr, h⟩

theorem exists_mem_configuredSlotKeys_scope (hscope : state.scope ≠ .repo) :
    (∃ ordinal, key ++ "-" ++ slotOrdinal ordinal ∈ configuredSlotKeys pkg state) ↔
      "scope" = key ∧ 1 ≤ state.replicas.getD 0 := by
  unfold configuredSlotKeys
  dsimp only
  rw [if_neg hscope]
  simp only [List.mem_insertionSort]
  cases state.replicas with
  | none => exact iff_of_false (fun h => absurd h.choose_spec List.not_mem_nil) fun h => absurd h.2 (by decide)
  | some replicas => exact exists_mem_slotKeys

theorem exists_mem_repositoryTargets {seen : List String} {repositories : List DesiredRepository}
    {targets : List TargetSpec}
    (h : repositoryTargets pkg cfg seen repositories = .ok targets) :
    (∃ t ∈ targets, t.key = key ∧ 1 ≤ t.maximum) ↔
      ∃ r ∈ repositories, ∃ url, canonicalRepositoryURL pkg r.url = .ok url ∧ repositoryTargetKey pkg url = key ∧
        1 ≤ r.workers := by
  induction repositories generalizing seen targets with
  | nil =>
    obtain rfl := Except.ok.inj h
    simp
  | cons repository repositories ih =>
    obtain ⟨url, hurl, h⟩ := bind_eq_ok.mp h
    obtain ⟨_, -, h⟩ := bind_eq_ok.mp h
    obtain ⟨_, -, h⟩ := bind_eq_ok.mp h
    obtain ⟨rest, hrest, h⟩ := bind_eq_ok.mp h
    obtain rfl := Except.ok.inj h
    rw [List.exists_mem_cons_iff, List.exists_mem_cons_iff, ih hrest]
    refine or_congr_left ⟨fun h => ⟨url, hurl, h⟩, ?_⟩
    rintro ⟨url', hurl', h⟩
    obtain rfl := Except.ok.inj (hurl.symm.trans hurl')
    exact h

theorem exists_mem_scopeTarget {subject url : String} {replicas : Option Int} {targets : List TargetSpec}
    (h : scopeTarget pkg cfg subject url replicas = .ok targets) :
    (∃ t ∈ targets, t.key = key ∧ 1 ≤ t.maximum) ↔ "scope" = key ∧ 1 ≤ replicas.getD 0 := by
  obtain ⟨_, -, h⟩ := bind_eq_ok.mp h
  obtain rfl := Except.ok.inj h
  constructor
  · rintro ⟨t, ht, h⟩
    obtain rfl := List.mem_singleton.mp ht
    exact h
  · exact fun h => ⟨_, List.mem_singleton_self _, h⟩

/-- The keys of the configured slots are those of the targets that ask for a worker. -/
def SlotsAgree (pkg : Packages) (state : DesiredState) (targets : List TargetSpec) : Prop :=
  ∀ key, (∃ ordinal, key ++ "-" ++ slotOrdinal ordinal ∈ configuredSlotKeys pkg state) ↔
    ∃ t ∈ targets, t.key = key ∧ 1 ≤ t.maximum

/-- A target has the key of a slot only if it is for the URL of the slot. -/
def KeysApart (pkg : Packages) (state : DesiredState) : Prop :=
  ∀ r ∈ state.repositories, ∀ r' ∈ state.repositories, ∀ url, canonicalRepositoryURL pkg r'.url = .ok url →
    repositoryTargetKey pkg url = repositoryTargetKey pkg r.url → url = r.url

theorem slotsAgree_repo_iff {targets : List TargetSpec} (h : buildTargetSpecs pkg cfg state = .ok targets)
    (hscope : state.scope = .repo) : SlotsAgree pkg state targets ↔
      ∀ key, (∃ r ∈ state.repositories, repositoryTargetKey pkg r.url = key ∧ 1 ≤ r.workers) ↔
        ∃ r ∈ state.repositories, ∃ url,
          canonicalRepositoryURL pkg r.url = .ok url ∧ repositoryTargetKey pkg url = key ∧ 1 ≤ r.workers := by
  obtain ⟨unsorted, hunsorted, h⟩ := bind_eq_ok.mp h
  obtain rfl := Except.ok.inj h
  rw [unorderedTargets, hscope] at hunsorted
  refine forall_congr' fun key => ?_
  simp only [List.mem_insertionSort]
  rw [exists_mem_configuredSlotKeys_repo hscope, exists_mem_repositoryTargets hunsorted]

theorem slotsAgree_scope {targets : List TargetSpec} (h : buildTargetSpecs pkg cfg state = .ok targets)
    (hscope : state.scope ≠ .repo) : SlotsAgree pkg state targets := by
  obtain ⟨unsorted, hunsorted, h⟩ := bind_eq_ok.mp h
  obtain rfl := Except.ok.inj h
  intro key
  simp only [List.mem_insertionSort]
  rw [exists_mem_configuredSlotKeys_scope hscope]
  unfold unorderedTargets at hunsorted
  split at hunsorted
  · next hrepo => exact absurd hrepo hscope
  · rw [exists_mem_scopeTarget hunsorted]
  · rw [exists_mem_scopeTarget hunsorted]
  · cases hunsorted

theorem canonicalPath_lt {path : Bytes} (hne : canonicalPath pkg path ≠ path) :
    (canonicalPath pkg path).length < path.length := by
  obtain ⟨rest, hrest⟩ := canonicalPath_append pkg path
  obtain ⟨rest', hrest'⟩ := repositoryPath_append pkg path
  rw [← hrest, List.append_assoc] at hrest'
  have hlength := congrArg List.length hrest'
  rw [List.length_append] at hlength
  by_contra hle
  have hnil : rest ++ rest' = [] := List.eq_nil_of_length_eq_zero (by omega)
  rw [hnil, List.append_nil] at hrest'
  exact hne hrest'

/-- The length of the path that a text is read with. -/
def pathLength (pkg : Packages) (url : String) : Nat := ((pkg.parseURL url).map (·.path.length)).getD 0

theorem pathLength_lt {net : NetURL} (hnet : net.Documented pkg) {value c c' : String}
    (h : canonicalRepositoryURL pkg value = .ok c) (h' : canonicalRepositoryURL pkg c = .ok c') (hne : c' ≠ c) :
    pathLength pkg c' < pathLength pkg c := by
  obtain ⟨parsed, haccepts, rfl⟩ := canonicalRepositoryURL_text hnet h
  obtain ⟨again, hagain, rfl⟩ := canonicalRepositoryURL_text hnet h'
  obtain ⟨rfl, haddressed⟩ := parseURL_of_accepts hnet haccepts hagain
  have haddressed' : net.Addressed (lowerBytes pkg (pkg.hostname (canonicalURL pkg parsed))) := by
    rw [(canonicalURL_hostPort hnet haccepts).1, lowerBytes_lowerBytes hnet]
    exact haddressed
  rw [pathLength, pathLength, hagain.parse, (parseURL_canonicalURL hnet hagain).mpr haddressed', Option.map_some,
    Option.map_some, Option.getD_some, Option.getD_some, canonicalURL_path, canonicalURL_path]
  refine canonicalPath_lt fun hpath => hne ?_
  rw [canonicalURL_canonicalURL hnet haccepts, hpath]
  rfl

/-- Of the URLs that do not stay, the one with the longest path would be missed among the targets. -/
theorem stays_of_slotsAgree {net : NetURL} (hnet : net.Documented pkg) {targets : List TargetSpec}
    (h : buildTargetSpecs pkg cfg state = .ok targets) (hscope : state.scope = .repo) (hkeys : KeysApart pkg state)
    (hcanonical : ∀ r ∈ state.repositories, ∃ value, canonicalRepositoryURL pkg value = .ok r.url)
    (hagree : SlotsAgree pkg state targets) :
    ∀ r ∈ state.repositories, 1 ≤ r.workers → canonicalRepositoryURL pkg r.url = .ok r.url := by
  classical
  rw [slotsAgree_repo_iff h hscope] at hagree
  let moved := state.repositories.toFinset.filter fun r => 1 ≤ r.workers ∧ canonicalRepositoryURL pkg r.url ≠ .ok r.url
  have hmoved {r : DesiredRepository} : r ∈ moved ↔
      r ∈ state.repositories ∧ 1 ≤ r.workers ∧ canonicalRepositoryURL pkg r.url ≠ .ok r.url := by
    rw [Finset.mem_filter, List.mem_toFinset]
  by_contra hsome
  push Not at hsome
  obtain ⟨r₀, hr₀, hworkers₀, hne₀⟩ := hsome
  obtain ⟨r, hr, hlongest⟩ :=
    moved.exists_max_image (fun r => pathLength pkg r.url) ⟨r₀, hmoved.mpr ⟨hr₀, hworkers₀, hne₀⟩⟩
  obtain ⟨hr, hworkers, hne⟩ := hmoved.mp hr
  obtain ⟨r', hr', url, hurl, hkey, hworkers'⟩ := (hagree _).mp ⟨r, hr, rfl, hworkers⟩
  obtain rfl := hkeys r hr r' hr' url hurl hkey
  have hne' : r.url ≠ r'.url := fun heq => hne (by rw [← heq] at hurl; exact hurl)
  obtain ⟨value, hvalue⟩ := hcanonical r' hr'
  have hmember : r' ∈ moved := hmoved.mpr ⟨hr', hworkers', fun hstays => hne' (Except.ok.inj (hurl.symm.trans hstays))⟩
  exact (pathLength_lt hnet hvalue hurl hne').not_ge (hlongest r' hmember)

theorem slotsAgree_of_stays {targets : List TargetSpec} (h : buildTargetSpecs pkg cfg state = .ok targets)
    (hscope : state.scope = .repo)
    (hstay : ∀ r ∈ state.repositories, 1 ≤ r.workers → canonicalRepositoryURL pkg r.url = .ok r.url) :
    SlotsAgree pkg state targets := by
  refine (slotsAgree_repo_iff h hscope).mpr fun key => exists_congr fun r => and_congr_right fun hr => ?_
  refine ⟨fun h => ⟨r.url, hstay r hr h.2, h⟩, ?_⟩
  rintro ⟨url, hurl, hkey, hworkers⟩
  obtain rfl := Except.ok.inj ((hstay r hr hworkers).symm.trans hurl)
  exact ⟨hkey, hworkers⟩

end

/-! ## URLs of names and ports

A `net/url` for hosts that are names in lower case. -/

namespace PlainURL

def keptByte (b : UInt8) :
    Bool := b < 128 && ((Utf8.asciiRune b).isAlphanum || Utf8.asciiRune b ∈ ['-', '.', '_', '~', '/'])

def nameByte (b : UInt8) : Bool :=
  b < 128 && ((Utf8.asciiRune b).isLower || (Utf8.asciiRune b).isDigit || Utf8.asciiRune b ∈ ['-', '.'])

def net : NetURL where
  printHost host := String.ofList (host.map Utf8.asciiRune)
  printByte b := String.ofList (Percent.printByte keptByte b)
  Name name := name.all nameByte = true
  Port port := port.toList.all Char.isDigit = true
  Address _ := False

def format (u : URL) : String := u.scheme ++ "://" ++ net.printHost u.host ++ net.printPath u.path

def hostname (u : URL) : Bytes := u.host.takeWhile (· ≠ colon)

def port (u : URL) : String := String.ofList (((u.host.dropWhile (· ≠ colon)).drop 1).map Utf8.asciiRune)

def parseScheme (value : List Char) : Option (String × List Char) :=
  match value with
  | 'h' :: 't' :: 't' :: 'p' :: ':' :: '/' :: '/' :: rest => some ("http", rest)
  | 'h' :: 't' :: 't' :: 'p' :: 's' :: ':' :: '/' :: '/' :: rest => some ("https", rest)
  | _ => none

def parse (value : String) : Option URL := do
  let (scheme, rest) ← parseScheme value.toList
  let path ← Percent.read (rest.dropWhile (· ≠ '/'))
  let u : URL := { scheme, host := Utf8.encode (rest.takeWhile (· ≠ '/')), path }
  if (hostname u).all nameByte ∧ (port u).toList.all Char.isDigit ∧
    (path = [] ∨ path.head? = some slash) then some u else none

def document (url : String) : String :=
  "\x7b\"generation\":1,\"repositories\":[\x7b\"url\":\"" ++ url ++
    "\",\"workers\":1\x7d],\"schemaVersion\":1,\"scope\":\"repo\"\x7d"

/-- A repository whose canonical URL stays, and one whose canonical URL does not. -/
def stayingURL : String := "https://github.com:443/o/r.git/"
def movingURL : String := "https://github.com/o/r.git.git"

/-- The library knows the documents for these two. -/
def packages : Packages where
  parseURL := parse
  formatURL := format
  hostname := hostname
  port := port
  isSpace := Char.isWhitespace
  isLetter := Char.isAlpha
  isDigit := Char.isDigit
  lower := Char.toLower
  hexDigest := Sha256.hex
  decode data := ([stayingURL, movingURL].find? (document · = data)).map fun url =>
    { schemaVersion := 1, generation := 1, scope := .repo, repositories := [⟨url, 1⟩] }
  stateHash data :=
    Sha256.hex (document (if data = document stayingURL then "https://github.com/o/r"
      else "https://github.com/o/r.git"))

theorem keptByte_spec : ∀ b, keptByte b = true → b < 128 ∧ b ≠ 37 := Utf8.forall_byte (by decide +kernel)

theorem printByte_spec : ∀ b, (Percent.printByte keptByte b ≠ [] ∧ (b ≠ slash → '/' ∉ Percent.printByte keptByte b)) ∧
    ∀ c ∈ Percent.printByte keptByte b, c.isWhitespace = false := Utf8.forall_byte (by decide +kernel)

theorem nameByte_spec : ∀ b, nameByte b = true → b ≠ colon ∧ b < 128 ∧ (Utf8.asciiRune b).toLower = Utf8.asciiRune b :=
  Utf8.forall_byte (by decide +kernel)

theorem hostByte_spec : ∀ b, nameByte b = true ∨ b = colon →
    b < 128 ∧ Utf8.asciiRune b ≠ '/' ∧ (Utf8.asciiRune b).isWhitespace = false := Utf8.forall_byte (by decide +kernel)

section
variable {name : Bytes} {digits : String} (hname : net.Name name) (hdigits : net.Port digits)

theorem digit_ascii {c : Char} (h : c.isDigit = true) : Utf8.isAscii c = true := by
  have h : c.toNat ≤ 57 := (Char.isDigit_iff_toNat.mp h).2
  exact decide_eq_true (by omega)

include hdigits in
theorem digits_ascii : ∀ c ∈ digits.toList, Utf8.isAscii c = true :=
  fun c hc => digit_ascii (List.all_eq_true.mp hdigits c hc)

include hdigits in
theorem ofString_digits : Utf8.ofString digits = digits.toList.map Utf8.asciiByte :=
  Utf8.encode_ascii (digits_ascii hdigits)

include hname hdigits in
theorem hostPort_eq :
    hostPort name digits = name ++ if digits = "" then [] else colon :: digits.toList.map Utf8.asciiByte := by
  have hcolon : colon ∉ name := fun h => (nameByte_spec _ (List.all_eq_true.mp hname _ h)).1 rfl
  have hport : Utf8.ofString (":" ++ digits) = colon :: Utf8.ofString digits := by
    unfold Utf8.ofString
    rw [String.toList_append, Utf8.encode_append]
    rfl
  unfold hostPort joinHostPort
  by_cases h : digits = ""
  · rw [if_neg (not_not.mpr h), if_neg hcolon, if_pos h, List.append_nil]
  · rw [if_pos h, if_neg hcolon, if_neg h, hport, ofString_digits hdigits]

include hname hdigits in
theorem hostPort_bytes : ∀ b ∈ hostPort name digits, nameByte b = true ∨ b = colon := by
  rw [hostPort_eq hname hdigits]
  intro b hb
  rcases List.mem_append.mp hb with hb | hb
  · exact Or.inl (List.all_eq_true.mp hname b hb)
  · split at hb
    · cases hb
    · rcases List.mem_cons.mp hb with hb | hb
      · exact Or.inr hb
      · obtain ⟨c, hc, rfl⟩ := List.mem_map.mp hb
        have hdigit := List.all_eq_true.mp hdigits c hc
        have hascii := digit_ascii hdigit
        refine Or.inl (Bool.and_eq_true_iff.mpr ⟨decide_eq_true (Utf8.asciiByte_lt hascii), ?_⟩)
        rw [Utf8.asciiRune_asciiByte hascii, hdigit, Bool.or_true, Bool.true_or]

include hname hdigits in
theorem split {u : URL} (h : u.host = hostPort name digits) : hostname u = name ∧ port u = digits := by
  have hstop : ∀ b ∈ name, decide (b ≠ colon) = true :=
    fun b hb => decide_eq_true (nameByte_spec b (List.all_eq_true.mp hname b hb)).1
  unfold hostname port
  rw [h, hostPort_eq hname hdigits, List.takeWhile_append_of_pos hstop, List.dropWhile_append_of_pos hstop]
  split
  · next hempty => exact ⟨List.append_nil name, hempty.symm⟩
  · rw [List.takeWhile_cons_of_neg (by simp), List.dropWhile_cons_of_neg (by simp), List.drop_one, List.tail_cons,
      List.append_nil, List.map_map]
    refine ⟨rfl, (congrArg String.ofList ?_).trans String.ofList_toList⟩
    exact (List.map_congr_left fun c hc => Utf8.asciiRune_asciiByte (digits_ascii hdigits c hc)).trans (List.map_id _)

end

theorem toList_format (u : URL) :
    (format u).toList = u.scheme.toList ++
      ("://".toList ++ (u.host.map Utf8.asciiRune ++ Percent.print keptByte u.path)) := by
  unfold format NetURL.printPath net
  simp only [String.toList_append, String.toList_ofList, List.append_assoc]
  rfl

theorem parseScheme_format {scheme : String} (h : scheme = "http" ∨ scheme = "https") (rest : List Char) :
    parseScheme (scheme.toList ++ ("://".toList ++ rest)) = some (scheme, rest) := by
  rcases h with rfl | rfl <;> rfl

theorem host_bytes {u : URL} (h : net.Plain u) : ∀ b ∈ u.host, nameByte b = true ∨ b = colon := by
  obtain ⟨name, digits, hname, hdigits, hhost⟩ := h.host
  rw [hhost]
  exact hostPort_bytes hname hdigits

theorem parse_format {u : URL} (h : net.Plain u) : parse (format u) = some u := by
  obtain ⟨name, digits, hname, hdigits, hhost⟩ := h.host
  obtain ⟨rest, hpath⟩ := List.head?_eq_some_iff.mp h.path
  have hprint : Percent.print keptByte u.path = '/' :: Percent.print keptByte rest := by rw [hpath]; rfl
  have hstop : ∀ c ∈ u.host.map Utf8.asciiRune, decide (c ≠ '/') = true := by
    intro c hc
    obtain ⟨b, hb, rfl⟩ := List.mem_map.mp hc
    exact decide_eq_true (hostByte_spec b (host_bytes h b hb)).2.1
  have htake :
      (u.host.map Utf8.asciiRune ++ Percent.print keptByte u.path).takeWhile (· ≠ '/') = u.host.map Utf8.asciiRune := by
    rw [List.takeWhile_append_of_pos hstop, hprint, List.takeWhile_cons_of_neg (by simp), List.append_nil]
  have hdrop :
      (u.host.map Utf8.asciiRune ++ Percent.print keptByte u.path).dropWhile (· ≠ '/') =
        Percent.print keptByte u.path := by
    rw [List.dropWhile_append_of_pos hstop, hprint, List.dropWhile_cons_of_neg (by simp)]
  have hencode : Utf8.encode (u.host.map Utf8.asciiRune) = u.host :=
    (Utf8.eq_encode_ascii fun b hb => (hostByte_spec b (host_bytes h b hb)).1).1.symm
  have hu : ({ scheme := u.scheme, host := u.host, path := u.path } : URL) = u := by
    cases u
    simp only [URL.mk.injEq, true_and]
    exact ⟨h.user.symm, h.rawPath.symm, h.rawQuery.symm, h.fragment.symm, h.forceQuery.symm⟩
  obtain ⟨hhostname, hport⟩ := split hname hdigits hhost
  unfold parse
  rw [toList_format, parseScheme_format h.scheme]
  simp only [Option.bind_eq_bind, Option.bind_some]
  rw [htake, hdrop, Percent.read_print keptByte_spec, Option.bind_some, hencode, hu, hhostname, hport]
  exact if_pos ⟨hname, hdigits, Or.inr h.path⟩

theorem parsed {value : String} {u : URL} (h : parse value = some u) :
    net.Name (hostname u) ∧ net.Port (port u) ∧ (u.host ≠ [] → u.path ≠ [] → u.path.head? = some slash) := by
  obtain ⟨⟨scheme, rest⟩, -, h⟩ := Option.bind_eq_some_iff.mp h
  obtain ⟨path, -, h⟩ := Option.bind_eq_some_iff.mp h
  dsimp only at h
  split at h
  · next hchecked =>
    obtain rfl := Option.some.inj h
    exact ⟨hchecked.1, hchecked.2.1, fun _ hpath => hchecked.2.2.resolve_left hpath⟩
  · cases h

theorem spaceless {u : URL} (h : net.Plain u) : ∀ c ∈ (format u).toList, c.isWhitespace = false := by
  intro c hc
  rw [toList_format] at hc
  rcases List.mem_append.mp hc with hc | hc
  · have hscheme : ∀ c ∈ "http".toList ++ "https".toList, c.isWhitespace = false := by decide
    refine hscheme c ?_
    rcases h.scheme with hs | hs <;> rw [hs] at hc
    · exact List.mem_append_left _ hc
    · exact List.mem_append_right _ hc
  rcases List.mem_append.mp hc with hc | hc
  · have hseparator : ∀ c ∈ "://".toList, c.isWhitespace = false := by decide
    exact hseparator c hc
  rcases List.mem_append.mp hc with hc | hc
  · obtain ⟨b, hb, rfl⟩ := List.mem_map.mp hc
    exact (hostByte_spec b (host_bytes h b hb)).2.2
  · obtain ⟨b, -, hc⟩ := List.mem_flatMap.mp hc
    exact (printByte_spec b).2 c hc

theorem name_lower {name : Bytes} (h : net.Name name) : lowerBytes packages name = name := by
  have hname : ∀ b ∈ name, nameByte b = true := List.all_eq_true.mp h
  obtain ⟨hencode, -⟩ := Utf8.eq_encode_ascii fun b hb => (nameByte_spec b (hname b hb)).2.1
  have hlower : (name.map Utf8.asciiRune).map Char.toLower = name.map Utf8.asciiRune := by
    rw [List.map_map]
    exact List.map_congr_left fun b hb => (nameByte_spec b (hname b hb)).2.2
  conv_lhs => rw [hencode]
  unfold lowerBytes
  rw [Utf8.decode_encode]
  show Utf8.encode ((name.map Utf8.asciiRune).map Char.toLower) = name
  rw [hlower, ← hencode]

theorem lower_lower (c : Char) : c.toLower.toLower = c.toLower := by
  unfold Char.toLower
  split
  · next h =>
    refine dif_neg fun hupper => ?_
    have hfirst : 65 ≤ c.val.toNat := UInt32.le_iff_toNat_le.mp h.1
    have hlast : c.val.toNat ≤ 90 := UInt32.le_iff_toNat_le.mp h.2
    have hagain : (c.val + ('a'.val - 'A'.val)).toNat ≤ 90 := UInt32.le_iff_toNat_le.mp hupper.2
    rw [UInt32.toNat_add, show ('a'.val - 'A'.val).toNat = 32 from rfl] at hagain
    omega
  · rfl

theorem documented : net.Documented packages where
  parsed _ _ h := parsed h
  split _ _ _ hname hdigits h := split hname hdigits h
  format _ _ := rfl
  parse_format _ h _ := parse_format h
  parse_brackets u h haddressed := by
    obtain ⟨name, digits, hname, hdigits, hhost⟩ := h.host
    refine absurd (fun hcolon => ?_) haddressed
    have hcolon : colon ∈ name := (split hname hdigits hhost).1 ▸ hcolon
    exact absurd rfl (nameByte_spec _ (List.all_eq_true.mp hname _ hcolon)).1
  printByte_slash := by decide
  printByte_other b hb := by
    obtain ⟨⟨hne, hslash⟩, -⟩ := printByte_spec b
    have htext : (net.printByte b).toList = Percent.printByte keptByte b := String.toList_ofList
    rw [htext]
    exact ⟨hne, hslash hb⟩
  spaceless _ h := spaceless h
  name_lower name h := by rw [name_lower h]; exact h
  port_none := rfl
  lower_lower := lower_lower

end PlainURL

/-! ## Documents -/

section
variable {pkg : Packages} {net : NetURL}

theorem parseDesiredState_urls {data : String} {expectedScope : Scope} {accepted : ParsedDesiredState}
    {decoded : DesiredState}
    (h : parseDesiredState pkg data expectedScope = .ok accepted) (hdecode : pkg.decode data = some decoded) :
    accepted.state.scope = decoded.scope ∧ (decoded.scope = .repo →
      List.Forall₂ (fun r r' => canonicalRepositoryURL pkg r.url = .ok r'.url ∧ r'.workers = r.workers)
        decoded.repositories accepted.state.repositories) := by
  unfold parseDesiredState at h
  rw [hdecode] at h
  obtain ⟨state, hstate, h⟩ := bind_eq_ok.mp h
  obtain ⟨_, -, h⟩ := bind_eq_ok.mp h
  obtain rfl := Except.ok.inj h
  unfold canonicalizeDesiredRepositoryURLs at hstate
  split at hstate
  · next hscope =>
    obtain rfl := Except.ok.inj hstate
    exact ⟨rfl, fun hrepo => absurd hrepo hscope⟩
  · obtain ⟨repositories, hrepositories, hstate⟩ := bind_eq_ok.mp hstate
    obtain rfl := Except.ok.inj hstate
    refine ⟨rfl, fun _ => (mapM_eq_ok.mp hrepositories).imp fun r r' hr => ?_⟩
    obtain ⟨url, hcanonical, hr⟩ := bind_eq_ok.mp hr
    obtain rfl := Except.ok.inj hr
    exact ⟨hcanonical, rfl⟩

/-- Canonicalization returns its result unchanged exactly when the URL is settled, and, where no two URLs share a key,
    the slots of an accepted document are named after its targets exactly when the URLs that ask for a worker are
    settled. -/
theorem canonical_urls_stay (hnet : net.Documented pkg) :
    (∀ value c, canonicalRepositoryURL pkg value = .ok c →
      (canonicalRepositoryURL pkg c = .ok c ↔ ∃ parsed, pkg.parseURL value = some parsed ∧ SettledURL net pkg parsed)) ∧
    ∀ data expectedScope accepted decoded cfg targets, parseDesiredState pkg data expectedScope = .ok accepted →
      pkg.decode data = some decoded → buildTargetSpecs pkg cfg accepted.state = .ok targets →
      KeysApart pkg accepted.state →
      (SlotsAgree pkg accepted.state targets ↔ (decoded.scope = .repo → ∀ r ∈ decoded.repositories, 1 ≤ r.workers →
        ∃ parsed, pkg.parseURL r.url = some parsed ∧ SettledURL net pkg parsed)) := by
  refine ⟨fun value c h => canonicalRepositoryURL_stays_iff hnet h, ?_⟩
  intro data expectedScope accepted decoded cfg targets haccepted hdecode htargets hkeys
  obtain ⟨hscope, hurls⟩ := parseDesiredState_urls haccepted hdecode
  by_cases hrepo : decoded.scope = .repo
  swap
  · exact iff_of_true (slotsAgree_scope htargets (hscope ▸ hrepo)) fun h => absurd h hrepo
  have hurls := hurls hrepo
  have hscope := hscope.trans hrepo
  have hcanonical (r : DesiredRepository) (hr : r ∈ accepted.state.repositories) :
      ∃ value, canonicalRepositoryURL pkg value = .ok r.url := by
    obtain ⟨r', -, hr'⟩ := exists_of_forall₂ hurls hr
    exact ⟨r'.url, hr'.1⟩
  have hstays : (∀ r ∈ accepted.state.repositories, 1 ≤ r.workers → canonicalRepositoryURL pkg r.url = .ok r.url) ↔
      ∀ r ∈ decoded.repositories, 1 ≤ r.workers → ∃ parsed, pkg.parseURL r.url = some parsed ∧
        SettledURL net pkg parsed := by
    refine (forall_mem_iff_of_forall₂ hurls fun r r' hr => ?_).symm
    rw [hr.2, canonicalRepositoryURL_stays_iff hnet hr.1]
  rw [forall_prop_of_true hrepo, ← hstays]
  exact ⟨stays_of_slotsAgree hnet htargets hscope hkeys hcanonical, slotsAgree_of_stays htargets hscope⟩

end

section Sample
open PlainURL

def repositoryConfig : Config := { scope := .repo, profileID := "acme", namePrefix := "pit" }

/-- The state and the targets of the document for a URL with one `.git` and the scheme's own port. -/
def stayingState : DesiredState :=
  { schemaVersion := 1, generation := 1, scope := .repo, repositories := [⟨"https://github.com/o/r", 1⟩] }

def stayingTargets : List TargetSpec :=
  [{ key := "repo-97393e7e6b5ab8df", registrationURL := "https://github.com/o/r",
     repository := "https://github.com/o/r", maximum := 1, scaleSetName := "pitcrew-acme-e4ca214a6bbb" }]

/-- The URL is settled, and its canonical form stays and names both the slot and the target. -/
theorem canonical_urls_stay_plain :
    canonicalRepositoryURL packages stayingURL = .ok "https://github.com/o/r" ∧
      canonicalRepositoryURL packages "https://github.com/o/r" = .ok "https://github.com/o/r" ∧
      configuredSlotKeys packages stayingState = ["repo-97393e7e6b5ab8df-000001"] ∧
      SlotsAgree packages stayingState stayingTargets := by
  have h : canonicalRepositoryURL packages stayingURL = .ok "https://github.com/o/r" := by decide +kernel
  have hsettled : ∃ parsed, packages.parseURL stayingURL = some parsed ∧ SettledURL net packages parsed :=
    ⟨⟨"https", Utf8.ofString "github.com:443", Utf8.ofString "/o/r.git/", false, "", "", "", false⟩, by decide +kernel,
      ⟨Or.inl (by decide +kernel), fun hcolon => absurd hcolon (by decide +kernel), by decide +kernel⟩⟩
  have hstays := ((canonical_urls_stay documented).1 _ _ h).mpr hsettled
  have hdecoded : packages.decode (document stayingURL) =
      some { stayingState with repositories := [⟨stayingURL, 1⟩] } := by decide +kernel
  have haccepted : parseDesiredState packages (document stayingURL) .repo = .ok
      ⟨stayingState, packages.stateHash (document stayingURL), document stayingURL⟩ := by decide +kernel
  have htargets : buildTargetSpecs packages repositoryConfig stayingState = .ok stayingTargets := by decide +kernel
  have hkeys : KeysApart packages stayingState := by
    intro r hr r' hr' url hurl _
    obtain rfl := List.mem_singleton.mp hr
    obtain rfl := List.mem_singleton.mp hr'
    exact (Except.ok.inj (hstays.symm.trans hurl)).symm
  refine ⟨h, hstays, by decide +kernel, ((canonical_urls_stay documented).2 _ _ _ _ _ _ haccepted
    hdecoded htargets hkeys).mpr fun _ r hr _ => ?_⟩
  obtain rfl := List.mem_singleton.mp hr
  exact hsettled

/-- With `.git` twice, or with nothing but the scheme's own port for a host, it does not stay: the slots of the document
    are named after a repository that is not a target, or the result is refused. -/
theorem canonical_urls_move :
    canonicalRepositoryURL packages movingURL = .ok "https://github.com/o/r.git" ∧
    canonicalRepositoryURL packages "https://github.com/o/r.git" = .ok "https://github.com/o/r" ∧
    ((parseDesiredState packages (document movingURL) .repo).map fun accepted =>
        (configuredSlotKeys packages accepted.state,
          (buildTargetSpecs packages repositoryConfig accepted.state).map (·.map TargetSpec.key))) =
      .ok (["repo-bc3fbd4dd8dbadfc-000001"], .ok ["repo-97393e7e6b5ab8df"]) ∧
    canonicalRepositoryURL packages "http://:80/o/r" = .ok "http:///o/r" ∧
    (canonicalRepositoryURL packages "http:///o/r").isOk = false := by
  decide +kernel

end Sample
end PitCrew.Autoscaler
