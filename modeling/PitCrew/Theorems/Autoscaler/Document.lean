import PitCrew.Autoscaler.Document
import PitCrew.Theorems.Autoscaler.RepositoryURL

/-! # The hash of a document

Two traversals read a document: the state is taken from its typed fields, the hash from all its values after they
are normalized. What ties them together is that the state can be read back from the normalized document, so a hash
determines it; and that normalizing forgets the order of members and the spelling of integers, and the URLs were
made canonical before, so documents that differ in nothing else have one hash. -/

namespace PitCrew.Autoscaler.Document
open Base Base.Json
open scoped Utf8

/-- What the documentation of the library says about a document and its numbers. -/
structure Library.Documented (lib : Library) : Prop where
  decode_distinct : ∀ data v trailing, lib.decode data = .ok (v, trailing) → v.Distinct
  parseInt_rat : ∀ literal n, lib.parseInt literal = some n → lib.rat literal = some (n : ℚ)
  rat_int : ∀ n : Int, lib.rat (toString n) = some (n : ℚ)
  formatFloat_number : ∀ x, NumberText (lib.formatFloat x)

section
variable {lib : Library} {pkg : Packages}

/-! ## Normal forms -/

theorem normalizeNumber_of_rat (hlib : lib.Documented) {literal : String} {n : Int}
    (h : lib.rat literal = some (n : ℚ)) :
    normalizeNumber lib literal = .ok (toString n) := by
  unfold normalizeNumber
  cases hparse : lib.parseInt literal with
  | some m =>
    have hm := (hlib.parseInt_rat literal m hparse).symm.trans h
    rw [Int.cast_injective (Option.some.inj hm)]
  | none =>
    rw [h]
    simp [Option.filter]

theorem normalizeNumber_numberText (hlib : lib.Documented) {literal number : String}
    (h : normalizeNumber lib literal = .ok number) :
    NumberText number := by
  unfold normalizeNumber at h
  split at h
  · exact Except.ok.inj h ▸ numberText_int _
  · split at h
    · exact Except.ok.inj h ▸ numberText_int _
    · split at h
      · cases h
      · split at h
        · exact Except.ok.inj h ▸ numberText_int _
        · exact Except.ok.inj h ▸ hlib.formatFloat_number _

/-- The second value is the normal form of the first. -/
def Normal (lib : Library) (v n : Value) : Prop := normalizeJSONValue lib v = .ok n

theorem normalizeItems_forall₂ {items out : List Value} (h : normalizeItems lib items = .ok out) :
    List.Forall₂ (Normal lib) items out := by
  induction items generalizing out with
  | nil =>
    rw [normalizeItems] at h
    exact Except.ok.inj h ▸ .nil
  | cons v items ih =>
    rw [normalizeItems] at h
    obtain ⟨n, hn, h⟩ := bind_eq_ok.mp h
    obtain ⟨rest, hrest, h⟩ := bind_eq_ok.mp h
    exact Except.ok.inj h ▸ .cons hn (ih hrest)

theorem normalizeMembers_forall₂ {members out : List (String × Value)} (h : normalizeMembers lib members = .ok out) :
    List.Forall₂ (Paired fun _ => Normal lib) members out := by
  induction members generalizing out with
  | nil =>
    rw [normalizeMembers] at h
    exact Except.ok.inj h ▸ .nil
  | cons m members ih =>
    rw [normalizeMembers] at h
    obtain ⟨n, hn, h⟩ := bind_eq_ok.mp h
    obtain ⟨rest, hrest, h⟩ := bind_eq_ok.mp h
    exact Except.ok.inj h ▸ .cons ⟨rfl, hn⟩ (ih hrest)

theorem normal_array {items : List Value} {n : Value} (h : Normal lib (.array items) n) :
    ∃ out, n = .array out ∧ List.Forall₂ (Normal lib) items out := by
  rw [Normal, normalizeJSONValue] at h
  obtain ⟨out, hout, h⟩ := bind_eq_ok.mp h
  exact ⟨out, (Except.ok.inj h).symm, normalizeItems_forall₂ hout⟩

theorem normal_object {members : List (String × Value)} {n : Value} (h : Normal lib (.object members) n) :
    ∃ out, n = .object (byKey out) ∧ List.Forall₂ (Paired fun _ => Normal lib) members out := by
  rw [Normal, normalizeJSONValue] at h
  obtain ⟨out, hout, h⟩ := bind_eq_ok.mp h
  exact ⟨out, (Except.ok.inj h).symm, normalizeMembers_forall₂ hout⟩

theorem normal_number {literal : String} {n : Value} (h : Normal lib (.number literal) n) :
    ∃ number, n = .number number ∧ normalizeNumber lib literal = .ok number := by
  rw [Normal, normalizeJSONValue] at h
  obtain ⟨number, hnumber, h⟩ := bind_eq_ok.mp h
  exact ⟨number, (Except.ok.inj h).symm, hnumber⟩

theorem normal_string {s : String} {n : Value} (h : Normal lib (.string s) n) : n = .string s := by
  rw [Normal, normalizeJSONValue] at h
  exact (Except.ok.inj h).symm

theorem Normal.printable (hlib : lib.Documented) {v n : Value} (h : Normal lib v n) : n.Printable := by
  induction v using Value.induction generalizing n with
  | null =>
    rw [Normal, normalizeJSONValue] at h
    exact Except.ok.inj h ▸ .null
  | bool b =>
    rw [Normal, normalizeJSONValue] at h
    exact Except.ok.inj h ▸ .bool b
  | number literal =>
    obtain ⟨number, rfl, hnumber⟩ := normal_number h
    exact .number (normalizeNumber_numberText hlib hnumber)
  | string s => exact normal_string h ▸ .string s
  | array items ih =>
    obtain ⟨out, rfl, hout⟩ := normal_array h
    refine .array fun n hn => ?_
    obtain ⟨v, hv, hvn⟩ := exists_of_forall₂ hout hn
    exact ih v hv hvn
  | object members ih =>
    obtain ⟨out, rfl, hout⟩ := normal_object h
    refine .object fun n hn => ?_
    obtain ⟨m, hm, hmn⟩ := exists_of_forall₂ hout ((byKey_perm out).mem_iff.mp hn)
    exact ih m hm hmn.2

/-! ## The state of a document -/

structure Fits (lib : Library) (n : Int) : Prop where
  int64 : minInt64 ≤ n ∧ n ≤ maxInt64
  int : ¬(lib.intSize = 32 ∧ (n < minInt32 ∨ n > maxInt32))

theorem jsonInteger_eq_ok {value : Option Value} {field : String} {n : Int} :
    jsonInteger lib value field = .ok n ↔
      ∃ literal, value = some (.number literal) ∧ lib.rat literal = some (n : ℚ) ∧ Fits lib n := by
  unfold jsonInteger
  constructor
  · intro h
    split at h
    · cases h
    · rename_i literal hliteral
      split at h
      · cases h
      · rename_i q hq
        obtain ⟨_, hint, h⟩ := bind_eq_ok.mp h
        obtain ⟨_, hsize, h⟩ := bind_eq_ok.mp h
        obtain rfl := Except.ok.inj h
        obtain ⟨hden, hmin, hmax⟩ := not_not.mp (reject_eq_ok.mp hint)
        obtain ⟨v, rfl, hv⟩ := Option.bind_eq_some_iff.mp hliteral
        cases v with
        | number l =>
          obtain rfl := Option.some.inj hv
          exact ⟨l, rfl, by rw [hq, Rat.coe_int_num_of_den_eq_one hden], ⟨hmin, hmax⟩, reject_eq_ok.mp hsize⟩
        | _ => cases hv
  · rintro ⟨literal, rfl, hrat, hfits⟩
    have hint : (n : ℚ).den = 1 ∧ minInt64 ≤ (n : ℚ).num ∧ (n : ℚ).num ≤ maxInt64 := ⟨Rat.den_intCast n, hfits.int64⟩
    simp only [Option.bind_some, Value.number?, hrat]
    refine bind_eq_ok.mpr ⟨(), reject_eq_ok.mpr (not_not.mpr hint),
      bind_eq_ok.mpr ⟨(), reject_eq_ok.mpr hfits.int, rfl⟩⟩

theorem jsonInteger_normal (hlib : lib.Documented) {value normal : Option Value}
    (hnormal : Option.Rel (Normal lib) value normal)
    {field : String} {n : Int} (h : jsonInteger lib value field = .ok n) : jsonInteger lib normal field = .ok n := by
  obtain ⟨literal, rfl, hrat, hfits⟩ := jsonInteger_eq_ok.mp h
  cases hnormal with
  | some hvalue =>
    obtain ⟨number, rfl, hnumber⟩ := normal_number hvalue
    have hdigits := (normalizeNumber_of_rat hlib hrat).symm.trans hnumber
    exact jsonInteger_eq_ok.mpr ⟨number, rfl, Except.ok.inj hdigits ▸ hlib.rat_int n, hfits⟩

theorem bind_string? {value : Option Value} {s : String} :
    value.bind Value.string? = some s ↔ value = some (.string s) := by
  cases value with
  | none => simp
  | some v => cases v <;> simp [Value.string?]

theorem bind_items? {value : Option Value} {items : List Value} :
    value.bind Value.items? = some items ↔ value = some (.array items) := by
  cases value with
  | none => simp
  | some v => cases v <;> simp [Value.items?]

structure ReadsRepository (lib : Library) (index : Nat) (v : Value) (members : List (String × Value))
    (r : DesiredRepository) : Prop where
  object : v = .object members
  url : members.lookup "url" = some (.string r.url)
  workers :
    jsonInteger lib (members.lookup "workers") ("repositories[" ++ toString index ++ "].workers") = .ok r.workers

theorem repositoryFromJSON_eq_ok {index : Nat} {v : Value} {r : DesiredRepository} :
    repositoryFromJSON lib index v = .ok r ↔ ∃ members, ReadsRepository lib index v members r := by
  constructor
  · intro h
    cases v with
    | object members =>
      rw [repositoryFromJSON] at h
      split at h
      · cases h
      · rename_i url hurl
        obtain ⟨workers, hworkers, h⟩ := bind_eq_ok.mp h
        obtain rfl := Except.ok.inj h
        exact ⟨members, rfl, bind_string?.mp hurl, hworkers⟩
    | _ => cases h
  · rintro ⟨members, rfl, hurl, hworkers⟩
    rw [repositoryFromJSON, bind_string?.mpr hurl]
    exact bind_eq_ok.mpr ⟨r.workers, hworkers, rfl⟩

theorem repositoriesFromJSON_cons {index : Nat} {v : Value} {items : List Value}
    {repositories : List DesiredRepository} :
    repositoriesFromJSON lib index (v :: items) = .ok repositories ↔ ∃ r rest, repositories = r :: rest ∧
      repositoryFromJSON lib index v = .ok r ∧ repositoriesFromJSON lib (index + 1) items = .ok rest := by
  rw [repositoriesFromJSON]
  constructor
  · intro h
    obtain ⟨r, hr, h⟩ := bind_eq_ok.mp h
    obtain ⟨rest, hrest, h⟩ := bind_eq_ok.mp h
    exact ⟨r, rest, (Except.ok.inj h).symm, hr, hrest⟩
  · rintro ⟨r, rest, rfl, hr, hrest⟩
    exact bind_eq_ok.mpr ⟨r, hr, bind_eq_ok.mpr ⟨rest, hrest, rfl⟩⟩

structure Reads (lib : Library) (raw : List (String × Value)) (scope : String) (items : List Value)
    (state : DesiredState) : Prop where
  schemaVersion : jsonInteger lib (raw.lookup "schemaVersion") "schemaVersion" = .ok state.schemaVersion
  generation : jsonInteger lib (raw.lookup "generation") "generation" = .ok state.generation
  rawScope : raw.lookup "scope" = some (.string scope)
  scope : state.scope = scopeOf scope
  rawRepositories : raw.lookup "repositories" = some (.array items)
  repositories : repositoriesFromJSON lib 0 items = .ok state.repositories
  replicas : replicasFromJSON lib (raw.lookup "replicas") = .ok state.replicas

theorem desiredStateFromJSON_eq_ok {raw : List (String × Value)} {state : DesiredState} :
    desiredStateFromJSON lib raw = .ok state ↔ ∃ scope items, Reads lib raw scope items state := by
  unfold desiredStateFromJSON
  constructor
  · intro h
    obtain ⟨schemaVersion, hschema, h⟩ := bind_eq_ok.mp h
    obtain ⟨generation, hgeneration, h⟩ := bind_eq_ok.mp h
    split at h
    · cases h
    · rename_i scope hscope
      split at h
      · cases h
      · rename_i items hitems
        obtain ⟨repositories, hrepositories, h⟩ := bind_eq_ok.mp h
        obtain ⟨replicas, hreplicas, h⟩ := bind_eq_ok.mp h
        obtain rfl := Except.ok.inj h
        exact ⟨scope, items, hschema, hgeneration, bind_string?.mp hscope, rfl, bind_items?.mp hitems,
          hrepositories, hreplicas⟩
  · rintro ⟨scope, items, h⟩
    refine bind_eq_ok.mpr ⟨_, h.schemaVersion, bind_eq_ok.mpr ⟨_, h.generation, ?_⟩⟩
    rw [bind_string?.mpr h.rawScope]
    simp only [bind_items?.mpr h.rawRepositories]
    refine bind_eq_ok.mpr ⟨_, h.repositories, bind_eq_ok.mpr ⟨_, h.replicas, ?_⟩⟩
    exact congrArg Except.ok (by rw [← h.scope])

/-! ## The state is in the normal form -/

theorem repositoryFromJSON_normal (hlib : lib.Documented) {index : Nat} {v n : Value} (hv : v.Distinct)
    (hnormal : Normal lib v n)
    {r : DesiredRepository} (h : repositoryFromJSON lib index v = .ok r) : repositoryFromJSON lib index n = .ok r := by
  obtain ⟨members, rfl, hurl, hworkers⟩ := repositoryFromJSON_eq_ok.mp h
  obtain ⟨out, rfl, hout⟩ := normal_object hnormal
  cases hv with
  | object hkeys _ =>
    have hkeys' : (out.map Prod.fst).Nodup := keys_of_forall₂ hout ▸ hkeys
    refine repositoryFromJSON_eq_ok.mpr ⟨byKey out, rfl, ?_, ?_⟩
    · rw [lookup_byKey hkeys']
      have hrel := rel_lookup hout "url"
      rw [hurl] at hrel
      cases hlookup : out.lookup "url" with
      | none => rw [hlookup] at hrel; cases hrel
      | some n =>
        rw [hlookup] at hrel
        cases hrel with
        | some hn => rw [normal_string hn]
    · rw [lookup_byKey hkeys']
      exact jsonInteger_normal hlib (rel_lookup hout "workers") hworkers

theorem repositoriesFromJSON_normal (hlib : lib.Documented) {items out : List Value}
    (hdistinct : ∀ v ∈ items, v.Distinct)
    (hnormal : List.Forall₂ (Normal lib) items out) {index : Nat} {repositories : List DesiredRepository}
    (h : repositoriesFromJSON lib index items = .ok repositories) :
    repositoriesFromJSON lib index out = .ok repositories := by
  induction hnormal generalizing index repositories with
  | nil => exact h
  | @cons v n items out hvn _ ih =>
    obtain ⟨r, rest, rfl, hr, hrest⟩ := repositoriesFromJSON_cons.mp h
    refine repositoriesFromJSON_cons.mpr ⟨r, rest, rfl, ?_, ih
      (fun v hv => hdistinct v (List.mem_cons_of_mem _ hv)) hrest⟩
    exact repositoryFromJSON_normal hlib (hdistinct v List.mem_cons_self) hvn hr

theorem replicasFromJSON_number {literal : String} {replicas : Option Int} :
    replicasFromJSON lib (some (.number literal)) = .ok replicas ↔
      ∃ n, replicas = some n ∧ jsonInteger lib (some (.number literal)) "replicas" = .ok n := by
  rw [replicasFromJSON]
  · constructor
    · intro h
      obtain ⟨n, hn, h⟩ := bind_eq_ok.mp h
      exact ⟨n, (Except.ok.inj h).symm, hn⟩
    · rintro ⟨n, rfl, hn⟩
      exact bind_eq_ok.mpr ⟨n, hn, rfl⟩
  · exact Option.some_ne_none _
  · exact fun h => Value.noConfusion (Option.some.inj h)

theorem replicasFromJSON_normal (hlib : lib.Documented) {value normal : Option Value}
    (hnormal : Option.Rel (Normal lib) value normal)
    {replicas : Option Int} (h : replicasFromJSON lib value = .ok replicas) :
    replicasFromJSON lib normal = .ok replicas := by
  cases hnormal with
  | none => exact h
  | @some v n hvn =>
    cases v with
    | null =>
      rw [Normal, normalizeJSONValue] at hvn
      exact Except.ok.inj hvn ▸ h
    | number literal =>
      obtain ⟨m, rfl, hm⟩ := replicasFromJSON_number.mp h
      obtain ⟨number, rfl, _⟩ := normal_number hvn
      exact replicasFromJSON_number.mpr ⟨m, rfl, jsonInteger_normal hlib (.some hvn) hm⟩
    | _ => cases h

theorem Reads.normal (hlib : lib.Documented) {raw : List (String × Value)} {scope : String} {items : List Value}
    {state : DesiredState}
    (h : Reads lib raw scope items state) (hraw : (Value.object raw).Distinct) {n : Value}
    (hnormal : Normal lib (.object raw) n) :
    ∃ out, n = .object out ∧ desiredStateFromJSON lib out = .ok state := by
  obtain ⟨out, rfl, hout⟩ := normal_object hnormal
  refine ⟨byKey out, rfl, desiredStateFromJSON_eq_ok.mpr ?_⟩
  cases hraw with
  | object hkeys hmembers =>
    have hkeys' : (out.map Prod.fst).Nodup := keys_of_forall₂ hout ▸ hkeys
    have hlookup (key : String) : Option.Rel (Normal lib) (raw.lookup key) ((byKey out).lookup key) :=
      lookup_byKey hkeys' key ▸ rel_lookup hout key
    have hscope := hlookup "scope"
    have hrepositories := hlookup "repositories"
    rw [h.rawScope] at hscope
    rw [h.rawRepositories] at hrepositories
    generalize hs : (byKey out).lookup "scope" = s at hscope
    generalize hr : (byKey out).lookup "repositories" = r at hrepositories
    cases hscope with
    | some hscope =>
      cases hrepositories with
      | some hrepositories =>
        obtain ⟨items', rfl, hitems'⟩ := normal_array hrepositories
        have hitems : (Value.array items).Distinct := hmembers _ (mem_of_lookup h.rawRepositories)
        cases hitems with
        | array hitems =>
          exact ⟨scope, items', jsonInteger_normal hlib (hlookup _) h.schemaVersion,
            jsonInteger_normal hlib (hlookup _) h.generation,
            hs.trans (congrArg some (normal_string hscope)), h.scope, hr,
              repositoriesFromJSON_normal hlib hitems hitems' h.repositories,
            replicasFromJSON_normal hlib (hlookup _) h.replicas⟩

/-! ## Canonical URLs -/

/-- The canonical URL of a repository's object is written to it. -/
structure Rewritten (pkg : Packages) (v v' : Value) (members : List (String × Value)) (url canonical : String) :
    Prop where
  object : v = .object members
  rawURL : members.lookup "url" = some (.string url)
  valid : canonicalRepositoryURL pkg url = .ok canonical
  rewritten : v' = .object (assign "url" (.string canonical) members)

theorem canonicalizeRepositories_spec {index : Nat} {items items' : List Value}
    {repositories repositories' : List DesiredRepository}
    (hread : repositoriesFromJSON lib index items = .ok repositories)
    (h : canonicalizeRepositories pkg repositories items = .ok (repositories', items')) :
    repositoriesFromJSON lib index items' = .ok repositories' ∧
      List.Forall₂ (fun v v' => ∃ members url canonical, Rewritten pkg v v' members url canonical) items items' := by
  induction items generalizing index repositories repositories' items' with
  | nil =>
    obtain rfl := Except.ok.inj hread
    obtain ⟨rfl, rfl⟩ := Prod.ext_iff.mp (Except.ok.inj h)
    exact ⟨rfl, .nil⟩
  | cons v items ih =>
    obtain ⟨r, rest, rfl, hr, hrest⟩ := repositoriesFromJSON_cons.mp hread
    obtain ⟨members, rfl, hurl, hworkers⟩ := repositoryFromJSON_eq_ok.mp hr
    rw [canonicalizeRepositories] at h
    obtain ⟨canonical, hcanonical, h⟩ := bind_eq_ok.mp h
    obtain ⟨⟨rest', tail'⟩, htail, h⟩ := bind_eq_ok.mp h
    obtain ⟨rfl, rfl⟩ := Prod.ext_iff.mp (Except.ok.inj h)
    obtain ⟨hread', hforall⟩ := ih hrest htail
    refine ⟨repositoriesFromJSON_cons.mpr ⟨_, _, rfl, ?_, hread'⟩, .cons ?_ hforall⟩
    swap
    · exact ⟨members, r.url, canonical, rfl, hurl, hcanonical, rfl⟩
    refine repositoryFromJSON_eq_ok.mpr ⟨assign "url" (.string canonical) members, rfl, ?_, ?_⟩
    · rw [lookup_assign, if_pos rfl]
    · rw [lookup_assign, if_neg (by decide)]
      exact hworkers

theorem Rewritten.distinct {v v' : Value} {members : List (String × Value)} {url canonical : String}
    (h : Rewritten pkg v v' members url canonical) (hv : v.Distinct) : v'.Distinct := by
  obtain ⟨rfl, hurl, _, rfl⟩ := h
  exact hv.assign (hurl ▸ Option.some_ne_none _) (.string canonical)

/-- The raw document is left as it is, or its repositories are rewritten. -/
inductive Canonicalized (pkg : Packages) (raw : List (String × Value)) (items : List Value) (state : DesiredState) :
    List (String × Value) → Prop
  | other (h : state.scope ≠ .repo) : Canonicalized pkg raw items state raw
  | repo (h : state.scope = .repo) {items' : List Value}
      (hitems : List.Forall₂ (fun v v' => ∃ members url canonical,
        Rewritten pkg v v' members url canonical) items items') :
      Canonicalized pkg raw items state (assign "repositories" (.array items') raw)

theorem canonicalize_spec {raw raw' : List (String × Value)} {scope : String} {items : List Value}
    {state state' : DesiredState}
    (hread : Reads lib raw scope items state)
    (h : canonicalizeDesiredRepositoryURLs pkg state raw = .ok (state', raw')) :
    Canonicalized pkg raw items state raw' ∧ ∃ items', Reads lib raw' scope items' state' := by
  rw [canonicalizeDesiredRepositoryURLs] at h
  split at h
  · rename_i hscope
    obtain ⟨rfl, rfl⟩ := Prod.ext_iff.mp (Except.ok.inj h)
    exact ⟨.other hscope, items, hread⟩
  · rename_i hscope
    have hitems := bind_items?.mpr hread.rawRepositories
    simp only [hitems, Option.getD_some, Option.isSome_some, if_true] at h
    obtain ⟨⟨repositories', items'⟩, hloop, h⟩ := bind_eq_ok.mp h
    obtain ⟨rfl, rfl⟩ := Prod.ext_iff.mp (Except.ok.inj h)
    obtain ⟨hread', hforall⟩ := canonicalizeRepositories_spec hread.repositories hloop
    refine ⟨.repo (not_not.mp hscope) hforall, items', ?_⟩
    have hother {key : String} (hkey : key ≠ "repositories") :
        (assign "repositories" (.array items') raw).lookup key = raw.lookup key := by rw [lookup_assign, if_neg hkey]
    exact { schemaVersion := by rw [hother (by decide)]; exact hread.schemaVersion
            generation := by rw [hother (by decide)]; exact hread.generation
            rawScope := by rw [hother (by decide)]; exact hread.rawScope
            scope := hread.scope
            rawRepositories := by rw [lookup_assign, if_pos rfl]
            repositories := hread'
            replicas := by rw [hother (by decide)]; exact hread.replicas }

theorem Canonicalized.distinct {raw raw' : List (String × Value)} {scope : String} {items : List Value}
    {state : DesiredState}
    (h : Canonicalized pkg raw items state raw') (hread : Reads lib raw scope items state)
    (hraw : (Value.object raw).Distinct) :
    (Value.object raw').Distinct := by
  cases h with
  | other => exact hraw
  | repo _ hitems' =>
    refine hraw.assign (hread.rawRepositories ▸ Option.some_ne_none _) (.array fun v' hv' => ?_)
    obtain ⟨v, hv, members, url, canonical, hrewritten⟩ := exists_of_forall₂ hitems' hv'
    cases hraw with
    | object _ hmembers =>
      have hitems : (Value.array items).Distinct := hmembers _ (mem_of_lookup hread.rawRepositories)
      cases hitems with
      | array hitems => exact hrewritten.distinct (hitems v hv)

/-! ## Spellings -/

/-- Where in a document a value stands, as far as its spelling may differ. -/
inductive Place where
  | document
  | repositories
  | repository
  | url
  | other
  deriving DecidableEq, Repr

def Place.member : Place → String → Place
  | .document, key => if key = "repositories" then .repositories else .other
  | .repository, key => if key = "url" then .url else .other
  | _, _ => .other

def Place.item : Place → Place
  | .repositories => .repository
  | _ => .other

/-- The values differ in nothing but the order of members, the spelling of integers and that of repository URLs with
    one canonical form. -/
inductive Respelled (lib : Library) (pkg : Packages) : Place → Value → Value → Prop
  | same {place : Place} (v : Value) : Respelled lib pkg place v v
  | integer {place : Place} {literal literal' : String} (n : Int) (h : lib.rat literal = some (n : ℚ))
      (h' : lib.rat literal' = some (n : ℚ)) : Respelled lib pkg place (.number literal) (.number literal')
  | url {url url' canonical : String} (h : canonicalRepositoryURL pkg url = .ok canonical)
      (h' : canonicalRepositoryURL pkg url' = .ok canonical) : Respelled lib pkg .url (.string url) (.string url')
  | array {place : Place} {items items' : List Value} (hlength : items.length = items'.length)
      (h : ∀ (i : Nat) (v v' : Value), items[i]? = some v → items'[i]? = some v' → Respelled lib pkg place.item v v') :
      Respelled lib pkg place (.array items) (.array items')
  | object {place : Place} {members members' : List (String × Value)}
      (hkeys : ∀ key, members.lookup key = none ↔ members'.lookup key = none)
      (h : ∀ key v v', members.lookup key = some v → members'.lookup key = some v' →
        Respelled lib pkg (place.member key) v v') :
      Respelled lib pkg place (.object members) (.object members')

theorem Respelled.normal_eq (hlib : lib.Documented) {place : Place} {v v' n n' : Value}
    (h : Respelled lib pkg place v v')
    (hplace : place = .other) (hv : v.Distinct) (hv' : v'.Distinct) (hn : Normal lib v n) (hn' : Normal lib v' n') :
    n = n' := by
  induction h generalizing n n' with
  | same v => exact Except.ok.inj (hn.symm.trans hn')
  | integer m h h' =>
    obtain ⟨number, rfl, hnumber⟩ := normal_number hn
    obtain ⟨number', rfl, hnumber'⟩ := normal_number hn'
    rw [normalizeNumber_of_rat hlib h] at hnumber
    rw [normalizeNumber_of_rat hlib h'] at hnumber'
    rw [← Except.ok.inj hnumber, ← Except.ok.inj hnumber']
  | url => cases hplace
  | @array place items items' hlength _ ih =>
    subst hplace
    obtain ⟨out, rfl, hout⟩ := normal_array hn
    obtain ⟨out', rfl, hout'⟩ := normal_array hn'
    cases hv with
    | array hv =>
      cases hv' with
      | array hv' =>
        refine congrArg Value.array (List.ext_getElem? fun i => ?_)
        refine eq_of_rel (rel_getElem? hout i) (rel_getElem? hout' i) ?_ fun v v' n n' hi hi' => ?_
        · rw [List.getElem?_eq_none_iff, List.getElem?_eq_none_iff, hlength]
        · exact ih i v v' hi hi' rfl (hv v (List.mem_of_getElem? hi)) (hv' v' (List.mem_of_getElem? hi'))
  | @object place members members' hkeys _ ih =>
    subst hplace
    obtain ⟨out, rfl, hout⟩ := normal_object hn
    obtain ⟨out', rfl, hout'⟩ := normal_object hn'
    cases hv with
    | object hnodup hv =>
      cases hv' with
      | object hnodup' hv' =>
        refine congrArg Value.object (byKey_congr (keys_of_forall₂ hout ▸ hnodup)
          (keys_of_forall₂ hout' ▸ hnodup') fun key => ?_)
        refine eq_of_rel (rel_lookup hout key) (rel_lookup hout' key) (hkeys key) fun v v' n n' hk hk' => ?_
        exact ih key v v' hk hk' rfl (hv _ (mem_of_lookup hk)) (hv' _ (mem_of_lookup hk'))

theorem Respelled.lookup {place : Place} {members members' : List (String × Value)}
    (h : Respelled lib pkg place (.object members) (.object members')) (key : String) :
    (members.lookup key = none ↔ members'.lookup key = none) ∧
      ∀ v v', members.lookup key = some v → members'.lookup key = some v' →
        Respelled lib pkg (place.member key) v v' := by
  cases h with
  | same =>
    refine ⟨Iff.rfl, fun v v' hv hv' => ?_⟩
    obtain rfl := Option.some.inj (hv.symm.trans hv')
    exact .same v
  | object hkeys h => exact ⟨hkeys key, h key⟩

theorem Respelled.items {place : Place} {items items' : List Value}
    (h : Respelled lib pkg place (.array items) (.array items')) :
    items.length = items'.length ∧
      ∀ (i : Nat) (v v' : Value), items[i]? = some v → items'[i]? = some v' → Respelled lib pkg place.item v v' := by
  cases h with
  | same =>
    refine ⟨rfl, fun i v v' hv hv' => ?_⟩
    obtain rfl := Option.some.inj (hv.symm.trans hv')
    exact .same v
  | array hlength h => exact ⟨hlength, h⟩

theorem Respelled.of_perm {place : Place} {members paired members' : List (String × Value)}
    (hkeys : (members.map Prod.fst).Nodup)
    (h : List.Forall₂ (Paired fun key => Respelled lib pkg (place.member key)) members paired)
    (hperm : paired.Perm members') :
    Respelled lib pkg place (.object members) (.object members') := by
  have hpaired : (paired.map Prod.fst).Nodup := keys_of_forall₂ h ▸ hkeys
  have hlookup (key : String) :
      Option.Rel (Respelled lib pkg (place.member key)) (members.lookup key) (members'.lookup key) :=
    lookup_perm hpaired hperm key ▸ rel_lookup h key
  refine .object (fun key => rel_none_iff (hlookup key)) fun key v v' hv hv' => ?_
  have hrel := hlookup key
  rw [hv, hv'] at hrel
  cases hrel with
  | some h => exact h

theorem Respelled.canonical_eq {url url' canonical canonical' : String}
    (h : Respelled lib pkg .url (.string url) (.string url'))
    (hurl : canonicalRepositoryURL pkg url = .ok canonical) (hurl' : canonicalRepositoryURL pkg url' = .ok canonical') :
    canonical = canonical' := by
  cases h with
  | same => exact Except.ok.inj (hurl.symm.trans hurl')
  | url hu hu' => exact Except.ok.inj (hurl.symm.trans (hu.trans (hu'.symm.trans hurl')))

/-- Once their URLs are canonical, the objects of a repository differ in nothing that depends on its place. -/
theorem Rewritten.respelled {v v' w w' : Value} {members members' : List (String × Value)}
    {url url' canonical canonical' : String}
    (hv : Rewritten pkg v w members url canonical) (hv' : Rewritten pkg v' w' members' url' canonical')
    (h : Respelled lib pkg .repository v v') : Respelled lib pkg .other w w' := by
  obtain ⟨rfl, hurl, hvalid, rfl⟩ := hv
  obtain ⟨rfl, hurl', hvalid', rfl⟩ := hv'
  obtain rfl := ((h.lookup "url").2 _ _ hurl hurl').canonical_eq hvalid hvalid'
  refine .object (fun key => ?_) fun key v v' hkey hkey' => ?_
  · rw [lookup_assign, lookup_assign]
    by_cases hkey : key = "url"
    · rw [if_pos hkey, if_pos hkey]
    · rw [if_neg hkey, if_neg hkey]
      exact (h.lookup key).1
  · rw [lookup_assign] at hkey hkey'
    by_cases hk : key = "url"
    · rw [if_pos hk] at hkey hkey'
      obtain rfl := Option.some.inj (hkey.symm.trans hkey')
      exact .same v
    · rw [if_neg hk] at hkey hkey'
      have hvalue := (h.lookup key).2 v v' hkey hkey'
      rwa [Place.member, if_neg hk] at hvalue

theorem respelled_items {items items' out out' : List Value}
    (h : Respelled lib pkg .repositories (.array items) (.array items'))
    (hout : List.Forall₂ (fun v w => ∃ members url canonical, Rewritten pkg v w members url canonical) items out)
    (hout' : List.Forall₂ (fun v w => ∃ members url canonical, Rewritten pkg v w members url canonical) items' out') :
    Respelled lib pkg .other (.array out) (.array out') := by
  obtain ⟨hlength, hitems⟩ := h.items
  refine .array (by rw [← hout.length_eq, ← hout'.length_eq, hlength]) fun i w w' hw hw' => ?_
  have hrel := rel_getElem? hout i
  have hrel' := rel_getElem? hout' i
  rw [hw] at hrel
  rw [hw'] at hrel'
  generalize hv : items[i]? = v at hrel
  generalize hv' : items'[i]? = v' at hrel'
  cases hrel with
  | some hrewritten =>
    cases hrel' with
    | some hrewritten' =>
      obtain ⟨_, _, _, hrewritten⟩ := hrewritten
      obtain ⟨_, _, _, hrewritten'⟩ := hrewritten'
      exact hrewritten.respelled hrewritten' (hitems i _ _ hv hv')

theorem Respelled.document {raw raw' out out' : List (String × Value)} {items items' : List Value}
    (h : Respelled lib pkg .document (.object raw) (.object raw'))
    (hout : ∀ key, out.lookup key = if key = "repositories" then some (.array items) else raw.lookup key)
    (hout' : ∀ key, out'.lookup key = if key = "repositories" then some (.array items') else raw'.lookup key)
    (hitems : Respelled lib pkg .other (.array items) (.array items')) :
    Respelled lib pkg .other (.object out) (.object out') := by
  refine .object (fun key => ?_) fun key v v' hkey hkey' => ?_
  · rw [hout, hout']
    by_cases hkey : key = "repositories"
    · simp [hkey]
    · rw [if_neg hkey, if_neg hkey]
      exact (h.lookup key).1
  · rw [hout] at hkey
    rw [hout'] at hkey'
    by_cases hk : key = "repositories"
    · rw [if_pos hk] at hkey hkey'
      obtain rfl := Option.some.inj hkey
      obtain rfl := Option.some.inj hkey'
      exact hitems
    · rw [if_neg hk] at hkey hkey'
      have hvalue := (h.lookup key).2 v v' hkey hkey'
      rwa [Place.member, if_neg hk] at hvalue

/-! ## Accepted documents -/

theorem decodeObject_decode {data : String} {raw : List (String × Value)} (h : decodeObject lib data = .ok raw) :
    ∃ trailing, lib.decode data = .ok (.object raw, trailing) := by
  unfold decodeObject at h
  split at h
  · cases h
  · rename_i document trailing hdecode
    obtain ⟨_, _, h⟩ := bind_eq_ok.mp h
    cases document with
    | object members =>
      obtain rfl := Except.ok.inj h
      exact ⟨trailing, hdecode⟩
    | _ => cases h

theorem mapError_eq_ok {ε ε' α : Type} {f : ε → ε'} {x : Except ε α} {a : α} : x.mapError f = .ok a ↔ x = .ok a := by
  cases x <;> simp [Except.mapError]

theorem hashDocument_eq_ok {raw : List (String × Value)} {hash : String} (h : hashDocument lib pkg raw = .ok hash) :
    ∃ normalized, Normal lib (.object raw) normalized ∧ hash = pkg.hexDigest (String.ofList normalized.text) := by
  obtain ⟨normalized, hnormal, h⟩ := bind_eq_ok.mp h
  obtain ⟨_, _, h⟩ := bind_eq_ok.mp h
  exact ⟨normalized, hnormal, (Except.ok.inj h).symm⟩

/-- What the functions make of an accepted document on the way. -/
structure Accepted (lib : Library) (pkg : Packages) (data : String) (scope : Scope) (p : ParsedDesiredState)
    (raw raw' : List (String × Value)) (text : String) (items items' : List Value) (state : DesiredState)
    (normalized : Value) : Prop where
  decoded : decodeObject lib data = .ok raw
  reads : Reads lib raw text items state
  canonicalized : Canonicalized pkg raw items state raw'
  readsCanonical : Reads lib raw' text items' p.state
  validated : validateDesiredState pkg p.state scope = .ok ()
  normal : Normal lib (.object raw') normalized
  hash : p.stateHash = pkg.hexDigest (String.ofList normalized.text)

theorem exists_accepted {data : String} {scope : Scope} {p : ParsedDesiredState}
    (h : parseDesiredState lib pkg data scope = .ok p) :
    ∃ raw raw' text items items' state normalized, Accepted lib pkg data scope p raw raw' text items items' state
      normalized := by
  obtain ⟨raw, hraw, h⟩ := bind_eq_ok.mp h
  obtain ⟨state, hstate, h⟩ := bind_eq_ok.mp h
  obtain ⟨⟨state', raw'⟩, hcanonical, h⟩ := bind_eq_ok.mp h
  obtain ⟨_, hvalid, h⟩ := bind_eq_ok.mp h
  obtain ⟨hash, hhash, h⟩ := bind_eq_ok.mp h
  obtain rfl := Except.ok.inj h
  obtain ⟨text, items, hreads⟩ := desiredStateFromJSON_eq_ok.mp hstate
  obtain ⟨hcanonicalized, items', hreads'⟩ := canonicalize_spec hreads (mapError_eq_ok.mp hcanonical)
  obtain ⟨normalized, hnormal, hhash⟩ := hashDocument_eq_ok hhash
  exact ⟨raw, raw', text, items, items', state, normalized, hraw, hreads, hcanonicalized, hreads',
    mapError_eq_ok.mp hvalid, hnormal, hhash⟩

section
variable {data : String} {scope : Scope} {p : ParsedDesiredState} {raw raw' : List (String × Value)} {text : String}
  {items items' : List Value} {state : DesiredState} {normalized : Value}

theorem Accepted.distinct (hlib : lib.Documented)
    (h : Accepted lib pkg data scope p raw raw' text items items' state normalized) :
    (Value.object raw').Distinct := by
  obtain ⟨trailing, hdecode⟩ := decodeObject_decode h.decoded
  exact h.canonicalized.distinct h.reads (hlib.decode_distinct data _ trailing hdecode)

theorem Accepted.state_of_normal (hlib : lib.Documented)
    (h : Accepted lib pkg data scope p raw raw' text items items' state normalized) :
    ∃ out, normalized = .object out ∧ desiredStateFromJSON lib out = .ok p.state :=
  h.readsCanonical.normal hlib (h.distinct hlib) h.normal

theorem validateDesiredState_repositories {state : DesiredState} (h : validateDesiredState pkg state scope = .ok ())
    (hscope : state.scope ≠ .repo) : state.repositories = [] := by
  obtain ⟨_, _, h⟩ := bind_eq_ok.mp h
  obtain ⟨_, _, h⟩ := bind_eq_ok.mp h
  obtain ⟨_, _, h⟩ := bind_eq_ok.mp h
  cases hs : state.scope with
  | repo => exact absurd hs hscope
  | other text =>
    rw [hs] at h
    cases h
  | _ =>
    rw [hs] at h
    obtain ⟨_, hnil, _⟩ := bind_eq_ok.mp h
    exact not_not.mp (reject_eq_ok.mp hnil)

theorem Accepted.items_nil (h : Accepted lib pkg data scope p raw raw' text items items' state normalized)
    (hscope : p.state.scope ≠ .repo) : items' = [] := by
  have hread := h.readsCanonical.repositories
  rw [validateDesiredState_repositories h.validated hscope] at hread
  cases items' with
  | nil => rfl
  | cons v items' =>
    obtain ⟨r, rest, hnil, _⟩ := repositoriesFromJSON_cons.mp hread
    cases hnil

theorem Accepted.lookup (h : Accepted lib pkg data scope p raw raw' text items items' state normalized) (key : String) :
    raw'.lookup key = if key = "repositories" then some (.array items') else raw.lookup key := by
  by_cases hkey : key = "repositories"
  · rw [if_pos hkey, hkey]
    exact h.readsCanonical.rawRepositories
  · rw [if_neg hkey]
    cases h.canonicalized with
    | other => rfl
    | repo _ _ => rw [lookup_assign, if_neg hkey]

theorem Accepted.rewritten (h : Accepted lib pkg data scope p raw raw' text items items' state normalized)
    (hscope : p.state.scope = .repo) :
    List.Forall₂ (fun v v' => ∃ members url canonical, Rewritten pkg v v' members url canonical) items items' := by
  have hraw := h.readsCanonical.rawRepositories
  generalize hr : raw' = r at hraw
  cases hr ▸ h.canonicalized with
  | other hother => exact absurd (h.reads.scope.trans (h.readsCanonical.scope.symm.trans hscope)) hother
  | repo _ hitems =>
    rw [lookup_assign, if_pos rfl] at hraw
    cases hraw
    exact hitems

end

/-- The documents differ only in their white space, which is not decoded, the order of members, the spelling of
    integers and that of repository URLs with one canonical form. -/
def RespelledDocument (lib : Library) (pkg : Packages) (data data' : String) : Prop :=
  ∃ raw raw', decodeObject lib data = .ok raw ∧ decodeObject lib data' = .ok raw' ∧
    Respelled lib pkg .document (.object raw) (.object raw')

section
variable {data data' : String} {scope : Scope} {p p' : ParsedDesiredState}

theorem stateHash_eq_of_respelled (hlib : lib.Documented) (h : parseDesiredState lib pkg data scope = .ok p)
    (h' : parseDesiredState lib pkg data' scope = .ok p') (hspelled : RespelledDocument lib pkg data data') :
    p.stateHash = p'.stateHash := by
  obtain ⟨raw, out, text, items, canonicalItems, state, normalized, h⟩ := exists_accepted h
  obtain ⟨raw', out', text', items', canonicalItems', state', normalized', h'⟩ := exists_accepted h'
  obtain ⟨_, _, hdecoded, hdecoded', hspelled⟩ := hspelled
  obtain rfl := Except.ok.inj (h.decoded.symm.trans hdecoded)
  obtain rfl := Except.ok.inj (h'.decoded.symm.trans hdecoded')
  have hscope : p.state.scope = p'.state.scope := by
    rw [h.readsCanonical.scope, h'.readsCanonical.scope]
    have htext := (hspelled.lookup "scope").2 _ _ h.reads.rawScope h'.reads.rawScope
    cases htext with
    | same => rfl
  have hitems : Respelled lib pkg .other (.array canonicalItems) (.array canonicalItems') := by
    by_cases hrepo : p.state.scope = .repo
    · have hraw := (hspelled.lookup "repositories").2 _ _ h.reads.rawRepositories h'.reads.rawRepositories
      exact respelled_items hraw (h.rewritten hrepo) (h'.rewritten (hscope ▸ hrepo))
    · rw [h.items_nil hrepo, h'.items_nil (hscope ▸ hrepo)]
      exact .same _
  have hout := hspelled.document h.lookup h'.lookup hitems
  rw [h.hash, h'.hash, hout.normal_eq hlib rfl (h.distinct hlib) (h'.distinct hlib) h.normal h'.normal]

theorem state_eq_of_stateHash (hlib : lib.Documented) (hdigest : Function.Injective pkg.hexDigest)
    (h : parseDesiredState lib pkg data scope = .ok p) (h' : parseDesiredState lib pkg data' scope = .ok p')
    (hhash : p.stateHash = p'.stateHash) : p.state = p'.state := by
  obtain ⟨raw, out, text, items, canonicalItems, state, normalized, h⟩ := exists_accepted h
  obtain ⟨raw', out', text', items', canonicalItems', state', normalized', h'⟩ := exists_accepted h'
  rw [h.hash, h'.hash] at hhash
  have htext : normalized.text = normalized'.text := String.ofList_injective (hdigest hhash)
  obtain rfl := (h.normal.printable hlib).text_inj (h'.normal.printable hlib) htext
  obtain ⟨members, rfl, hstate⟩ := h.state_of_normal hlib
  obtain ⟨members', hmembers, hstate'⟩ := h'.state_of_normal hlib
  cases hmembers
  exact Except.ok.inj (hstate.symm.trans hstate')

end

/-! ## The hash is canonical -/

/-- The hash is canonical: respelled documents share it, it determines the state, and a document with another state at
    the same generation is a conflict. -/
theorem desired_hash_canonical (hlib : lib.Documented) (hdigest : Function.Injective pkg.hexDigest)
    {data data' : String} {scope : Scope} {p p' : ParsedDesiredState}
    (h : parseDesiredState lib pkg data scope = .ok p) (h' : parseDesiredState lib pkg data' scope = .ok p') :
    (RespelledDocument lib pkg data data' → p.stateHash = p'.stateHash ∧
        classifyDesiredState lib pkg data' scope p.state.generation p.stateHash = .unchanged p') ∧
      (p.stateHash = p'.stateHash → p.state = p'.state) ∧
      (p.state.generation = p'.state.generation → p.state ≠ p'.state →
        classifyDesiredState lib pkg data' scope p.state.generation p.stateHash = .conflict p') := by
  refine ⟨fun hspelled => ?_, state_eq_of_stateHash hlib hdigest h h', fun hgeneration hstate => ?_⟩
  · have hhash := stateHash_eq_of_respelled hlib h h' hspelled
    have hstate := state_eq_of_stateHash hlib hdigest h h' hhash
    refine ⟨hhash, ?_⟩
    simp only [classifyDesiredState, h', hhash, hstate, lt_irrefl, if_false, and_self, if_true]
  · have hhash : p'.stateHash ≠ p.stateHash := fun hhash => hstate (state_eq_of_stateHash hlib hdigest h h' hhash.symm)
    simp only [classifyDesiredState, h', hgeneration, lt_irrefl, if_false, hhash, and_false, if_true]

end

/-! ### Two spellings of one document -/

def readDigits (text : List Char) : Option Nat :=
  if text ≠ [] ∧ text.all Char.isDigit then some (Nat.ofDigitChars 10 text 0) else none

def readInt : List Char → Option Int
  | '-' :: text => (readDigits text).map fun n => -Int.ofNat n
  | text => (readDigits text).map Int.ofNat

/-- A number with a fraction and an exponent, or without. -/
def readDecimal (text : List Char) : Option ℚ :=
  match readInt text with
  | some n => some n
  | none => do
    let mantissa := text.takeWhile (· ≠ 'e')
    let fraction := (mantissa.dropWhile (· ≠ '.')).tail
    let digits ← readInt (mantissa.filter (· ≠ '.'))
    let exponent ← if 'e' ∈ text then readInt (text.dropWhile (· ≠ 'e')).tail else some 0
    return digits * 10 ^ (exponent - fraction.length)

def sampleRepository : List (String × Value) := [("url", .string "https://h/a"), ("workers", .number "2")]

def respelledRepository : List (String × Value) := [("url", .string "https://h/a.git/"), ("workers", .number "20e-1")]

def sampleMembers : List (String × Value) :=
  [("schemaVersion", .number "1"), ("generation", .number "3"), ("scope", .string "repo"),
    ("repositories", .array [.object sampleRepository]), ("note", .number "0.5")]

def respelledMembers : List (String × Value) :=
  [("schemaVersion", .number "1e0"), ("generation", .number "3.0"), ("scope", .string "repo"),
    ("repositories", .array [.object respelledRepository.reverse]), ("note", .number "0.5")]

def sampleText : String := String.ofList (Value.object sampleMembers).text

def respelledText : String := " " ++ String.ofList (Value.object respelledMembers.reverse).text

def sampleLibrary : Library where
  decode data :=
    if data = sampleText then .ok (.object sampleMembers, .eof)
    else if data = respelledText then .ok (.object respelledMembers.reverse, .eof)
    else .error "unexpected end of JSON input"
  parseInt literal := (readInt literal.toList).filter fun n => minInt64 ≤ n ∧ n ≤ maxInt64
  rat literal := readDecimal literal.toList
  parseFloat literal := readDecimal literal.toList
  int64OfFloat x := x.num
  formatFloat _ := "0.5"
  intSize := 64

theorem readInt_toString (n : Int) : readInt (toString n).toList = some n := by
  have hdigits (m : Nat) : readDigits m.repr.toList = some m := by
    have hall : (Nat.toDigits 10 m).all Char.isDigit = true :=
      List.all_eq_true.mpr fun c hc => Nat.isDigit_of_mem_toDigits (by decide) le_rfl hc
    rw [readDigits, Nat.toList_repr, if_pos ⟨Nat.toDigits_ne_nil, hall⟩, Nat.ofDigitChars_ten_toDigits]
  rw [Int.toString_eq_repr, Int.repr_eq_if]
  split
  · rename_i hn
    have hne : ∀ text, n.toNat.repr.toList ≠ '-' :: text := by
      intro text h
      have hdash : '-' ∈ Nat.toDigits 10 n.toNat := by
        rw [← Nat.toList_repr, h]
        exact List.mem_cons_self
      exact absurd (Nat.isDigit_of_mem_toDigits (by decide) le_rfl hdash) (by decide)
    rw [readInt]
    · rw [hdigits, Option.map_some]
      exact congrArg some (Int.toNat_of_nonneg hn)
    · exact hne
  · rename_i hn
    have hnat : Int.ofNat (-n).toNat = -n := Int.toNat_of_nonneg (by omega)
    rw [String.toList_append, show "-".toList = ['-'] from rfl, List.singleton_append, readInt, hdigits,
      Option.map_some, hnat, neg_neg]

theorem distinct_of_leaves {members : List (String × Value)} (hkeys : (members.map Prod.fst).Nodup)
    (h : ∀ m ∈ members, m.2.Distinct) : (Value.object members.reverse).Distinct :=
  .object (List.map_reverse ▸ List.nodup_reverse.mpr hkeys) fun m hm => h m (List.mem_reverse.mp hm)

theorem sampleLibrary_documented : sampleLibrary.Documented where
  decode_distinct data v trailing h := by
    have hsingle (r : Value) (hr : r.Distinct) : (Value.array [r]).Distinct :=
      .array fun v hv => List.mem_singleton.mp hv ▸ hr
    simp only [sampleLibrary] at h
    split at h
    · obtain ⟨rfl, _⟩ := Prod.ext_iff.mp (Except.ok.inj h)
      refine .object (by decide) ?_
      simp only [sampleMembers, List.forall_mem_cons, List.not_mem_nil, false_imp_iff, implies_true, and_true]
      refine ⟨.number _, .number _, .string _, hsingle _ (.object (by decide) ?_), .number _⟩
      simp only [sampleRepository, List.forall_mem_cons, List.not_mem_nil, false_imp_iff, implies_true, and_true]
      exact ⟨.string _, .number _⟩
    · split at h
      · obtain ⟨rfl, _⟩ := Prod.ext_iff.mp (Except.ok.inj h)
        refine distinct_of_leaves (by decide) ?_
        simp only [respelledMembers, List.forall_mem_cons, List.not_mem_nil, false_imp_iff, implies_true, and_true]
        refine ⟨.number _, .number _, .string _, hsingle _ (distinct_of_leaves (by decide) ?_), .number _⟩
        simp only [respelledRepository, List.forall_mem_cons, List.not_mem_nil, false_imp_iff, implies_true, and_true]
        exact ⟨.string _, .number _⟩
      · cases h
  parseInt_rat literal n h := by
    have hread := (Option.filter_eq_some_iff.mp h).1
    simp only [sampleLibrary, readDecimal, hread]
  rat_int n := by simp only [sampleLibrary, readDecimal, readInt_toString]
  formatFloat_number _ := by
    show NumberText "0.5"
    exact ⟨by decide, by decide⟩

theorem decodeObject_sample : decodeObject sampleLibrary sampleText = .ok sampleMembers := by
  have hdecode : sampleLibrary.decode sampleText = .ok (.object sampleMembers, .eof) := by
    dsimp only [sampleLibrary]
    rw [if_pos rfl]
  rw [decodeObject, hdecode]
  rfl

theorem decodeObject_respelled : decodeObject sampleLibrary respelledText = .ok respelledMembers.reverse := by
  have hne : respelledText ≠ sampleText := by decide +kernel
  have hdecode : sampleLibrary.decode respelledText = .ok (.object respelledMembers.reverse, .eof) := by
    dsimp only [sampleLibrary]
    rw [if_neg hne, if_pos rfl]
  rw [decodeObject, hdecode]
  rfl

/-- What both spellings are normalized to, and its digest. -/
def canonicalText : String :=
  "\x7b\"generation\":3,\"note\":0.5,\"repositories\":[\x7b\"url\":\"https://h/a\",\"workers\":2\x7d]," ++
    "\"schemaVersion\":1,\"scope\":\"repo\"\x7d"

def canonicalDigest : String := "a5251478299cfe818d39dd7d1f2201c28b7557c5880be1debf150f400b37e7cd"

example : Sha256.hex canonicalText = canonicalDigest := by decide +kernel

/-- The digest of that text is SHA-256's; no other text has it, or shares one with another text. -/
def hashPackages : Packages :=
  { PlainURL.packages with hexDigest := fun text => if text = canonicalText then canonicalDigest else "-" ++ text }

theorem hashPackages_injective : Function.Injective hashPackages.hexDigest := by
  have hdash (text : String) : canonicalDigest ≠ "-" ++ text := by
    intro h
    have hfirst := congrArg (·.toList.head?) h
    rw [String.toList_append, show "-".toList = ['-'] from rfl, List.singleton_append, List.head?_cons] at hfirst
    exact absurd hfirst (by decide)
  intro a b h
  simp only [hashPackages] at h
  split at h <;> split at h
  · rename_i ha hb
    exact ha.trans hb.symm
  · exact absurd h (hdash b)
  · exact absurd h.symm (hdash a)
  · rw [← String.toList_inj, String.toList_append, String.toList_append] at h
    exact String.toList_inj.mp (List.append_cancel_left h)

theorem sample_respelled : RespelledDocument sampleLibrary hashPackages sampleText respelledText := by
  have hinteger {place : Place} {literal literal' : String} (n : Int) (h : sampleLibrary.rat literal = some (n : ℚ))
      (h' : sampleLibrary.rat literal' = some (n : ℚ)) :
      Respelled sampleLibrary hashPackages place (.number literal) (.number literal') := .integer n h h'
  have hurl : Respelled sampleLibrary hashPackages .url (.string "https://h/a") (.string "https://h/a.git/") :=
    have h : canonicalRepositoryURL hashPackages "https://h/a" = .ok "https://h/a" := by decide +kernel
    .url h (by decide +kernel)
  have hrepository : List.Forall₂ (Paired fun key => Respelled sampleLibrary hashPackages (Place.repository.member key))
      sampleRepository respelledRepository :=
    .cons ⟨rfl, hurl⟩ (.cons ⟨rfl, hinteger 2 (by decide +kernel) (by decide +kernel)⟩ .nil)
  have hrepositories : Respelled sampleLibrary hashPackages .repositories (.array [.object sampleRepository])
      (.array [.object respelledRepository.reverse]) := by
    refine .array rfl fun i v v' hv hv' => ?_
    cases i with
    | zero =>
      obtain rfl := Option.some.inj hv
      obtain rfl := Option.some.inj hv'
      exact .of_perm (by decide) hrepository (List.reverse_perm _).symm
    | succ i => cases hv
  have hmembers : List.Forall₂ (Paired fun key => Respelled sampleLibrary hashPackages (Place.document.member key))
      sampleMembers respelledMembers :=
    .cons ⟨rfl, hinteger 1 (by decide +kernel) (by decide +kernel)⟩
      (.cons ⟨rfl, hinteger 3 (by decide +kernel) (by decide +kernel)⟩
      (.cons ⟨rfl, .same _⟩ (.cons ⟨rfl, hrepositories⟩ (.cons ⟨rfl, .same _⟩ .nil))))
  exact ⟨sampleMembers, respelledMembers.reverse, decodeObject_sample, decodeObject_respelled,
    .of_perm (by decide) hmembers (List.reverse_perm _).symm⟩

def sampleState : DesiredState where
  schemaVersion := 1
  generation := 3
  scope := .repo
  repositories := [⟨"https://h/a", 2⟩]

theorem desired_hash_canonical_respelled :
    ∃ p p', parseDesiredState sampleLibrary hashPackages sampleText .repo = .ok p ∧
    parseDesiredState sampleLibrary hashPackages respelledText .repo = .ok p' ∧ p.state = sampleState ∧
    p.stateHash = canonicalDigest ∧ p.stateHash = p'.stateHash ∧
    classifyDesiredState sampleLibrary hashPackages respelledText .repo p.state.generation p.stateHash =
      .unchanged p' := by
  have hfirst : (parseDesiredState sampleLibrary hashPackages sampleText .repo).toOption.map
      (fun p => (p.state, p.stateHash)) = some (sampleState, canonicalDigest) := by
    decide +kernel
  have hsecond :
      (parseDesiredState sampleLibrary hashPackages respelledText .repo).toOption.map (·.state) = some sampleState := by
    decide +kernel
  cases h : parseDesiredState sampleLibrary hashPackages sampleText .repo with
  | error => rw [h] at hfirst; cases hfirst
  | ok p =>
    cases h' : parseDesiredState sampleLibrary hashPackages respelledText .repo with
    | error => rw [h'] at hsecond; cases hsecond
    | ok p' =>
      rw [h] at hfirst
      obtain ⟨hsame, _⟩ := desired_hash_canonical sampleLibrary_documented hashPackages_injective h h'
      obtain ⟨hhash, hunchanged⟩ := hsame sample_respelled
      obtain ⟨hstate, hcanonical⟩ := Prod.ext_iff.mp (Option.some.inj hfirst)
      exact ⟨p, p', rfl, rfl, hstate, hcanonical, hhash, hunchanged⟩

end PitCrew.Autoscaler.Document
