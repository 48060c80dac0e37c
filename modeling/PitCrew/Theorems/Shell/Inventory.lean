import PitCrew.Shell.Inventory
import PitCrew.Base.Check

/-! # The inventory is complete or refused

A successful fetch has put together the first pages in order, all of which report the same total, and that
total is the number of its runners, whose names are distinct (`fetchPages_some`). Pages cut from one list
give that list back, as long as it fits the pages that may be asked for (`fetchPages_serve`). The file that is
written passes the checks with which it is read. -/

namespace PitCrew.Shell
open Base Base.Json

section
variable {tools : Tools}

/-! ## The file -/

theorem integral?_number {bound : Rat → Bool} {v : Value} {literal : String}
    (h : integral? tools bound v = some literal) :
    integral? tools bound (.number literal) = some literal := by
  obtain ⟨read, -, h⟩ := Option.bind_eq_some_iff.mp h
  split at h
  · next hok =>
    obtain rfl := Option.some.inj h
    exact if_pos hok
  · cases h

theorem nonempty?_string {v : Value} {s : String} (h : nonempty? v = some s) : nonempty? (.string s) = some s := by
  obtain ⟨text, -, h⟩ := Option.bind_eq_some_iff.mp h
  split at h
  · cases h
  · next hne =>
    obtain rfl := Option.some.inj h
    exact if_neg hne

/-- A record that `runner?` accepts, with strings for labels. -/
def GitHubRunner.Ok (tools : Tools) (r : GitHubRunner) : Prop :=
  positive? tools (.number r.id) = some r.id ∧ nonempty? (.string r.name) = some r.name ∧
    ∀ label ∈ r.labels, nonempty? (.string label) = some label

theorem runner?_ok {label? : Value → Option String} (hlabel : ∀ v s, label? v = some s → nonempty? (.string s) = some s)
    {v : Value} {r : GitHubRunner} (h : runner? tools label? v = some r) : r.Ok tools := by
  unfold runner? at h
  obtain ⟨_, -, h⟩ := Option.bind_eq_some_iff.mp h
  obtain ⟨id, hid, h⟩ := Option.bind_eq_some_iff.mp h
  obtain ⟨_, -, h⟩ := Option.bind_eq_some_iff.mp h
  obtain ⟨name, hname, h⟩ := Option.bind_eq_some_iff.mp h
  obtain ⟨_, -, h⟩ := Option.bind_eq_some_iff.mp h
  obtain ⟨online, -, h⟩ := Option.bind_eq_some_iff.mp h
  obtain ⟨_, -, h⟩ := Option.bind_eq_some_iff.mp h
  obtain ⟨busy, -, h⟩ := Option.bind_eq_some_iff.mp h
  obtain ⟨_, -, h⟩ := Option.bind_eq_some_iff.mp h
  obtain ⟨items, -, h⟩ := Option.bind_eq_some_iff.mp h
  obtain ⟨labels, hlabels, h⟩ := Option.bind_eq_some_iff.mp h
  obtain rfl := Option.some.inj h
  refine ⟨integral?_number hid, nonempty?_string hname, fun label hmem => ?_⟩
  have hmem : some label ∈ items.map label? := mapM_eq_some.mp hlabels ▸ List.mem_map_of_mem hmem
  obtain ⟨item, -, hitem⟩ := List.mem_map.mp hmem
  exact hlabel item label hitem

theorem runner?_toValue {r : GitHubRunner} (h : r.Ok tools) : runner? tools nonempty? r.toValue = some r := by
  obtain ⟨hid, hname, hlabels⟩ := h
  have hread : (r.labels.map Value.string).mapM nonempty? = some r.labels := by
    rw [mapM_eq_some, List.map_map]
    exact List.map_congr_left hlabels
  have honline : online? (.string (if r.online then "online" else "offline")) = some r.online := by
    cases r.online <;> rfl
  unfold runner? GitHubRunner.toValue
  simp only [Value.get?, List.lookup_cons, beq_self_eq_true, String.reduceBEq, Option.bind_eq_bind, Option.bind_some,
    hid, hname, honline, Value.bool?, Value.items?, hread]
  rfl

theorem page?_ok {v : Value} {total : String} {runners : List GitHubRunner}
    (h : page? tools v = some (total, runners)) :
    count? tools (.number total) = some total ∧ ∀ r ∈ runners, r.Ok tools := by
  unfold page? at h
  obtain ⟨_, -, h⟩ := Option.bind_eq_some_iff.mp h
  obtain ⟨count, hcount, h⟩ := Option.bind_eq_some_iff.mp h
  obtain ⟨_, -, h⟩ := Option.bind_eq_some_iff.mp h
  obtain ⟨items, -, h⟩ := Option.bind_eq_some_iff.mp h
  obtain ⟨read, hread, h⟩ := Option.bind_eq_some_iff.mp h
  obtain ⟨rfl, rfl⟩ := Prod.mk.inj (Option.some.inj h)
  refine ⟨integral?_number hcount, fun r hr => ?_⟩
  have hmem := mapM_eq_some.mp hread ▸ List.mem_map_of_mem (f := some) hr
  obtain ⟨item, -, hitem⟩ := List.mem_map.mp hmem
  refine runner?_ok (fun label s hs => ?_) hitem
  obtain ⟨_, -, hs⟩ := Option.bind_eq_some_iff.mp hs
  exact nonempty?_string hs

theorem inventory?_inventory {total : String} {runners : List GitHubRunner}
    (htotal : count? tools (.number total) = some total)
    (hrunners : ∀ r ∈ runners, r.Ok tools) (hlength : tools.number total = (runners.length : Rat))
    (hnodup : (runners.map (·.name)).Nodup) : inventory? tools (inventory total runners) = some runners := by
  have hread : (runners.map GitHubRunner.toValue).mapM (runner? tools nonempty?) = some runners := by
    rw [mapM_eq_some, List.map_map]
    exact List.map_congr_left fun r hr => runner?_toValue (hrunners r hr)
  unfold inventory? inventory
  simp only [Value.get?, List.lookup_cons, beq_self_eq_true, String.reduceBEq, Option.bind_eq_bind, Option.bind_some,
    htotal, Value.items?, hread]
  exact if_pos ⟨hlength, hnodup⟩

/-! ## Pages -/

section
variable {pages : Nat → Option Value}

def readPage (tools : Tools) (pages : Nat → Option Value) (page : Nat) : Option (String × List GitHubRunner) :=
  (pages page).bind (page? tools)

/-- The pages from `page` on, which all report `total`, hold `parts`. -/
def Holds (tools : Tools) (pages : Nat → Option Value) (page : Nat) (total : String)
    (parts : List (List GitHubRunner)) : Prop :=
  ∀ i part, parts[i]? = some part → readPage tools pages (page + i) = some (total, part)

theorem holds_nil (page : Nat) (total : String) : Holds tools pages page total [] := fun _ _ h => nomatch h

theorem Holds.cons {page : Nat} {total : String} {part : List GitHubRunner} {parts : List (List GitHubRunner)}
    (hpart : readPage tools pages page = some (total, part)) (h : Holds tools pages (page + 1) total parts) :
    Holds tools pages page total (part :: parts) := by
  intro i p hp
  cases i with
  | zero =>
    obtain rfl := Option.some.inj hp
    exact hpart
  | succ i =>
    rw [show page + (i + 1) = page + 1 + i by omega]
    exact h i p hp

def Fetch.add (fetch : Fetch) (total : String) (runners : List GitHubRunner) : Fetch :=
  { expectedTotal := some total
    records := fetch.records ++ runners
    fetchedCount := fetch.fetchedCount + runners.length }

theorem fetchPages_succ {rounds page : Nat} {fetch : Fetch} {total : String} {runners : List GitHubRunner}
    (hpage : readPage tools pages page = some (total, runners)) :
    fetchPages tools pages (rounds + 1) page fetch =
      if total ≠ fetch.expectedTotal.getD total then none
      else if tools.integer total = some ((fetch.fetchedCount + runners.length : Nat) : Int) then some
        (fetch.add total runners)
      else if (tools.integer total).any (· < ((fetch.fetchedCount + runners.length : Nat) : Int)) ∨
        runners.length < perPage then none
      else fetchPages tools pages rounds (page + 1) (fetch.add total runners) := by
  obtain ⟨v, hv, hread⟩ := Option.bind_eq_some_iff.mp hpage
  rw [fetchPages]
  simp only [hv, hread, Option.bind_eq_bind, Option.bind_some]
  split
  · rfl
  · next h => rw [← not_not.mp h]; rfl

theorem fetchPages_none {rounds page : Nat} {fetch : Fetch} (hpage : readPage tools pages page = none) :
    fetchPages tools pages (rounds + 1) page fetch = none := by
  rw [fetchPages]
  unfold readPage at hpage
  cases hv : pages page with
  | none => rfl
  | some v =>
    rw [hv, Option.bind_some] at hpage
    simp only [Option.bind_eq_bind, Option.bind_some, hpage, Option.bind_none]

/-- A loop that does not fail has read a page in every round, and all report the total that it ends with. -/
theorem fetchPages_some {rounds page : Nat} {fetch result : Fetch}
    (h : fetchPages tools pages rounds page fetch = some result) :
    ∃ parts, parts.length ≤ rounds ∧ (rounds ≠ 0 → parts ≠ []) ∧ result.records = fetch.records ++ parts.flatten ∧
      result.fetchedCount = fetch.fetchedCount + parts.flatten.length ∧
      ∀ total, result.expectedTotal = some total → (∀ t ∈ fetch.expectedTotal, t = total) ∧
        Holds tools pages page total parts := by
  induction rounds generalizing page fetch with
  | zero =>
    obtain rfl := Option.some.inj h
    refine ⟨[], le_rfl, fun hne => absurd rfl hne, (List.append_nil _).symm, rfl,
      fun total htotal => ⟨fun t ht => ?_, holds_nil _ _⟩⟩
    exact Option.some.inj (ht.symm.trans htotal)
  | succ rounds ih =>
    cases hpage : readPage tools pages page with
    | none =>
      rw [fetchPages_none hpage] at h
      cases h
    | some read =>
      obtain ⟨total, runners⟩ := read
      rw [fetchPages_succ hpage] at h
      split at h
      · cases h
      · next hsame =>
        have hexpected : ∀ t ∈ fetch.expectedTotal, t = total := by
          intro t ht
          rw [Option.mem_def.mp ht] at hsame
          exact (not_not.mp hsame).symm
        split at h
        · obtain rfl := Option.some.inj h
          refine ⟨[runners], by simp, fun _ => List.cons_ne_nil _ _, by simp [Fetch.add], by simp [Fetch.add],
            fun t ht => ?_⟩
          obtain rfl := Option.some.inj ht
          exact ⟨hexpected, Holds.cons hpage (holds_nil _ _)⟩
        · split at h
          · cases h
          · obtain ⟨parts, hle, -, hrecords, hfetched, htotal⟩ := ih h
            refine ⟨runners :: parts, Nat.succ_le_succ hle, fun _ => List.cons_ne_nil _ _, ?_, ?_, fun t ht => ?_⟩
            · rw [hrecords, List.flatten_cons, ← List.append_assoc]
              rfl
            · rw [hfetched, List.flatten_cons, List.length_append, ← Nat.add_assoc]
              rfl
            · obtain ⟨heq, hholds⟩ := htotal t ht
              obtain rfl : total = t := heq total rfl
              exact ⟨hexpected, Holds.cons hpage hholds⟩

structure Fetched (tools : Tools) (pages : Nat → Option Value) (out : Value) (total : String)
    (parts : List (List GitHubRunner)) :
    Prop where
  pages : Holds tools pages 1 total parts
  nonempty : parts ≠ []
  length_le : parts.length ≤ maxPages
  out : out = inventory total parts.flatten
  total : tools.number total = (parts.flatten.length : Rat)
  distinct : (parts.flatten.map (·.name)).Nodup

theorem fetch_fetched {accessToken : String} {out : Value}
    (h : fetchGithubRunnerInventory tools accessToken pages = some out) :
    ∃ total parts, Fetched tools pages out total parts := by
  unfold fetchGithubRunnerInventory at h
  split at h
  · cases h
  · obtain ⟨result, hresult, h⟩ := Option.bind_eq_some_iff.mp h
    obtain ⟨total, htotal, h⟩ := Option.bind_eq_some_iff.mp h
    obtain ⟨parts, hle, hne, hrecords, -, hholds⟩ := fetchPages_some hresult
    obtain ⟨-, hholds⟩ := hholds total htotal
    rw [List.nil_append] at hrecords
    split at h
    · cases h
    · split at h
      · next hok =>
        obtain rfl := Option.some.inj h
        rw [hrecords] at hok ⊢
        exact ⟨total, parts, hholds, hne (by decide), hle, rfl, hok.1, hok.2⟩
      · cases h

theorem Fetched.inventory {out : Value} {total : String} {parts : List (List GitHubRunner)}
    (h : Fetched tools pages out total parts) :
    inventory? tools out = some parts.flatten := by
  have hpage : ∀ part ∈ parts, ∃ v, page? tools v = some (total, part) := by
    intro part hpart
    obtain ⟨i, hi⟩ := List.mem_iff_getElem?.mp hpart
    obtain ⟨v, -, hv⟩ := Option.bind_eq_some_iff.mp (h.pages i part hi)
    exact ⟨v, hv⟩
  have htotal : count? tools (.number total) = some total := by
    obtain ⟨part, hpart⟩ := List.exists_mem_of_ne_nil parts h.nonempty
    obtain ⟨v, hv⟩ := hpage part hpart
    exact (page?_ok hv).1
  rw [h.out]
  refine inventory?_inventory htotal (fun r hr => ?_) h.total h.distinct
  obtain ⟨part, hpart, hr⟩ := List.mem_flatten.mp hr
  obtain ⟨v, hv⟩ := hpage part hpart
  exact (page?_ok hv).2 r hr

theorem classify_missing_iff {runners : List GitHubRunner} {v : Value} (h : inventory? tools v = some runners)
    {name : String}
    (hname : name ≠ "") :
    (classifyGithubRunnerRegistration tools v name).status = .registrationMissing ↔ ∀ r ∈ runners, r.name ≠ name := by
  unfold classifyGithubRunnerRegistration
  rw [if_neg hname, h]
  dsimp only
  split
  · next hnone =>
    rw [List.filter_eq_nil_iff] at hnone
    exact ⟨fun _ r hr => by simpa using hnone r hr, fun _ => rfl⟩
  · next runner hone =>
    have hmem : runner ∈ runners.filter (·.name = name) := hone ▸ List.mem_singleton_self _
    obtain ⟨hmem, hrunner⟩ := List.mem_filter.mp hmem
    refine ⟨fun hstatus => ?_, fun hall => absurd (by simpa using hrunner) (hall runner hmem)⟩
    unfold GitHubRunner.classify at hstatus
    split at hstatus
    · cases hstatus
    · split at hstatus <;> cases hstatus
  · next hnone _ =>
    obtain ⟨r, hr⟩ := List.exists_mem_of_ne_nil _ hnone
    obtain ⟨hmem, hr⟩ := List.mem_filter.mp hr
    exact ⟨nofun, fun hall => absurd (by simpa using hr) (hall r hmem)⟩

end

/-! ## Pages of one list -/

/-- The response of a server that cuts `list` into pages and counts it. -/
def serve (list : List Value) (page : Nat) : Option Value :=
  some (.object [("total_count", .number (toString list.length)),
    ("runners", .array ((list.drop (perPage * (page - 1))).take perPage))])

/-- The loop after the first `n` pages of the list. -/
def Fetch.upTo (runners : List GitHubRunner) (n : Nat) : Fetch where
  expectedTotal := if n = 0 then none else some (toString runners.length)
  records := runners.take (perPage * n)
  fetchedCount := perPage * n

section
variable {list : List Value} {runners : List GitHubRunner} (hread : list.mapM (runner? tools labelName?) = some runners)
variable (htools : tools.Documented)
include hread

theorem length_of_read : runners.length = list.length := by
  have h := congrArg List.length (mapM_eq_some.mp hread)
  rw [List.length_map, List.length_map] at h
  exact h.symm

include htools

theorem readPage_serve (n : Nat) :
    readPage tools (serve list) (n + 1) = some (toString runners.length,
      (runners.drop (perPage * n)).take perPage) := by
  have hcount : count? tools (.number (toString list.length)) = some (toString list.length) := by
    have hnumber := htools.number_toString list.length
    exact if_pos ⟨by rw [hnumber]; exact decide_eq_true (Nat.cast_nonneg _), by rw [hnumber]; exact Rat.den_natCast _⟩
  have hpart : ((list.drop (perPage * n)).take perPage).mapM (runner? tools labelName?) =
      some ((runners.drop (perPage * n)).take perPage) := by
    rw [mapM_eq_some, List.map_take, List.map_drop, mapM_eq_some.mp hread, ← List.map_drop, ← List.map_take]
  unfold readPage serve page?
  simp only [Option.bind_some, Value.get?, List.lookup_cons, beq_self_eq_true, String.reduceBEq, Option.bind_eq_bind,
    hcount, Value.items?, Nat.add_sub_cancel, hpart, length_of_read hread]
  rfl

omit hread in
theorem integer_ne {m n : Nat} (h : n ≠ m) : tools.integer (toString m) ≠ some (n : Int) := by
  intro hn
  have := htools.integer_toString _ _ hn
  omega

theorem fetchPages_full {rounds n : Nat} (h : perPage * (n + 1) < runners.length) :
    fetchPages tools (serve list) (rounds + 1) (n + 1) (.upTo runners n) =
      fetchPages tools (serve list) rounds (n + 2) (.upTo runners (n + 1)) := by
  have hperPage : perPage = 100 := rfl
  have hnext : perPage * (n + 1) = perPage * n + perPage := Nat.mul_succ _ _
  have hlength : ((runners.drop (perPage * n)).take perPage).length = perPage := by
    rw [List.length_take, List.length_drop]
    omega
  have hexpected : ((Fetch.upTo runners n).expectedTotal).getD (toString runners.length) = toString runners.length := by
    unfold Fetch.upTo
    dsimp only
    split <;> rfl
  have hany : (tools.integer (toString runners.length)).any (· < ((perPage * n + perPage : Nat) : Int)) = false := by
    cases hint : tools.integer (toString runners.length) with
    | none => rfl
    | some k =>
      have hk := htools.integer_toString _ _ hint
      exact decide_eq_false (by omega)
  rw [fetchPages_succ (readPage_serve hread htools n), hlength, hexpected, if_neg (not_not.mpr rfl)]
  show (if tools.integer (toString runners.length) = some ((perPage * n + perPage : Nat) : Int) then _
    else if (tools.integer (toString runners.length)).any (· < ((perPage * n + perPage : Nat) : Int)) ∨
      perPage < perPage then _ else _) = _
  rw [if_neg (integer_ne htools (by omega)), hany, if_neg (by simp)]
  congr 1
  unfold Fetch.add Fetch.upTo
  rw [hlength]
  congr 1
  exact List.take_add.symm

theorem fetchPages_last {rounds n : Nat} (hfrom : perPage * n ≤ runners.length)
    (hto : runners.length ≤ perPage * (n + 1))
    (hsmall : runners.length < 9223372036854775808) :
    fetchPages tools (serve list) (rounds + 1) (n + 1) (.upTo runners n) =
      some { expectedTotal := some (toString runners.length), records := runners, fetchedCount := runners.length } := by
  have hperPage : perPage = 100 := rfl
  have hnext : perPage * (n + 1) = perPage * n + perPage := Nat.mul_succ _ _
  have hlength : ((runners.drop (perPage * n)).take perPage).length = runners.length - perPage * n := by
    rw [List.length_take, List.length_drop]
    omega
  have hinteger : tools.integer (toString runners.length) = some (runners.length : Int) := by
    obtain ⟨k, hk⟩ := Option.isSome_iff_exists.mp (htools.integer_isSome _ hsmall)
    rw [hk, htools.integer_toString _ _ hk]
  have hfetched : (Fetch.upTo runners n).fetchedCount + (runners.length - perPage * n) = runners.length :=
    Nat.add_sub_cancel' hfrom
  have hexpected : ((Fetch.upTo runners n).expectedTotal).getD (toString runners.length) = toString runners.length := by
    unfold Fetch.upTo
    dsimp only
    split <;> rfl
  have hrecords : (Fetch.upTo runners n).records ++ (runners.drop (perPage * n)).take perPage = runners := by
    have hrest : (runners.drop (perPage * n)).length ≤ perPage := by
      rw [List.length_drop]
      omega
    rw [List.take_of_length_le hrest]
    exact List.take_append_drop _ _
  rw [fetchPages_succ (readPage_serve hread htools n), hlength, hexpected, hfetched, if_neg (not_not.mpr rfl),
    if_pos hinteger]
  unfold Fetch.add
  rw [hrecords, hlength, hfetched]

theorem fetchPages_fits {rounds n : Nat} (hrounds : rounds ≠ 0) (hfrom : perPage * n ≤ runners.length)
    (hfits : runners.length ≤ perPage * (n + rounds)) (hsmall : runners.length < 9223372036854775808) :
    fetchPages tools (serve list) rounds (n + 1) (.upTo runners n) =
      some { expectedTotal := some (toString runners.length), records := runners, fetchedCount := runners.length } := by
  induction rounds generalizing n with
  | zero => exact absurd rfl hrounds
  | succ rounds ih =>
    rcases le_or_gt runners.length (perPage * (n + 1)) with hlast | hfull
    · exact fetchPages_last hread htools hfrom hlast hsmall
    · rw [fetchPages_full hread htools hfull]
      have hshift : n + 1 + rounds = n + (rounds + 1) := by omega
      refine ih ?_ hfull.le (hshift ▸ hfits)
      rintro rfl
      exact absurd (hfits.trans_lt hfull) (lt_irrefl _)

theorem fetchPages_long {rounds n : Nat} (hlong : perPage * (n + rounds) < runners.length) :
    fetchPages tools (serve list) rounds (n + 1) (.upTo runners n) = some (.upTo runners (n + rounds)) := by
  induction rounds generalizing n with
  | zero => rfl
  | succ rounds ih =>
    have hshift : n + 1 + rounds = n + (rounds + 1) := by omega
    have hfull : perPage * (n + 1) < runners.length :=
      (Nat.mul_le_mul_left perPage (by omega : n + 1 ≤ n + (rounds + 1))).trans_lt hlong
    rw [fetchPages_full hread htools hfull, ih (hshift ▸ hlong), hshift]

/-- Pages of one list give that list back, if it has at most as many runners as the pages may hold and their names
    are distinct, and are refused otherwise. -/
theorem fetch_serve {accessToken : String} (htoken : accessToken ≠ "") :
    fetchGithubRunnerInventory tools accessToken (serve list) =
      if runners.length ≤ perPage * maxPages ∧
        (runners.map (·.name)).Nodup then some (inventory (toString runners.length) runners)
      else none := by
  have hlimit : perPage * maxPages = 2000 := rfl
  have hnumber := htools.number_toString runners.length
  unfold fetchGithubRunnerInventory
  rw [if_neg htoken]
  rcases le_or_gt runners.length (perPage * maxPages) with hfits | hlong
  · have hinteger : (tools.integer (toString runners.length)).any (· ≠ (runners.length : Int)) = false := by
      cases hint : tools.integer (toString runners.length) with
      | none => rfl
      | some k =>
        rw [htools.integer_toString _ _ hint]
        simp
    have hfetch := fetchPages_fits hread htools (by decide : maxPages ≠ 0) (Nat.zero_le _)
      (by rwa [Nat.zero_add]) (by omega)
    rw [show ({} : Fetch) = .upTo runners 0 from rfl, hfetch]
    simp only [Option.bind_eq_bind, Option.bind_some, hinteger, Bool.false_eq_true, if_false, hnumber, true_and, hfits]
  · have hfetch := fetchPages_long hread htools (n := 0) (by rwa [Nat.zero_add])
    have hrecords : (Fetch.upTo runners maxPages).records.length = perPage * maxPages := by
      show (runners.take _).length = _
      rw [List.length_take, min_eq_left hlong.le]
    rw [show ({} : Fetch) = .upTo runners 0 from rfl, hfetch, Nat.zero_add, if_neg (fun h => by omega)]
    show (if
        (tools.integer (toString runners.length)).any (· ≠ ((Fetch.upTo runners maxPages).fetchedCount : Int)) = true
      then none
      else if tools.number (toString runners.length) = ((Fetch.upTo runners maxPages).records.length : Rat) ∧ _
      then _ else none) = none
    rw [hrecords, hnumber]
    split
    · rfl
    · rw [if_neg]
      rintro ⟨heq, -⟩
      exact absurd (Nat.cast_injective heq) (by omega)

end

/-- The inventory is complete or refused. Pages cut from one list give back its runners in order if there are at most
    two thousand of them with distinct names, and nothing otherwise. Whatever the pages are, a fetch that succeeds has
    put together the first pages in order, between one and twenty of them, with distinct names and as many runners as
    each of them reports; and in its result the registration of a runner is missing exactly if no runner has its
    name. -/
theorem inventory_complete_or_refused (htools : tools.Documented) {accessToken : String} (htoken : accessToken ≠ "") :
    (∀ list runners, list.mapM (runner? tools labelName?) = some runners →
      fetchGithubRunnerInventory tools accessToken (serve list) =
        if runners.length ≤ 2000 ∧ (runners.map (·.name)).Nodup then
          some (inventory (toString runners.length) runners)
        else none) ∧
    ∀ pages out, fetchGithubRunnerInventory tools accessToken pages = some out →
      ∃ (total : String) (parts : List (List GitHubRunner)), parts ≠ [] ∧ parts.length ≤ 20 ∧
        out = inventory total parts.flatten ∧ (parts.flatten.map (·.name)).Nodup ∧
        tools.number total = (parts.flatten.length : Rat) ∧
        (∀ i part, parts[i]? = some part → (pages (i + 1)).bind (page? tools) = some (total, part)) ∧
        ∀ name, name ≠ "" → ((classifyGithubRunnerRegistration tools out name).status = .registrationMissing ↔
          ∀ r ∈ parts.flatten, r.name ≠ name) := by
  refine ⟨fun list runners hread => fetch_serve hread htools htoken, fun pages out hout => ?_⟩
  obtain ⟨total, parts, hfetched⟩ := fetch_fetched hout
  refine ⟨total, parts, hfetched.nonempty, hfetched.length_le, hfetched.out, hfetched.distinct, hfetched.total,
    fun i part hpart => ?_, fun name hname => ?_⟩
  · rw [Nat.add_comm]
    exact hfetched.pages i part hpart
  · exact classify_missing_iff hfetched.inventory hname

end

def decimalTools : Tools where
  number s := (Nat.ofDigitChars 10 s.toList 0 : Nat)
  integer s := some (Nat.ofDigitChars 10 s.toList 0 : Nat)

theorem ofDigitChars_toString (n : Nat) : Nat.ofDigitChars 10 (toString n).toList 0 = n := by
  show Nat.ofDigitChars 10 n.repr.toList 0 = n
  simp [Nat.toList_repr]

theorem decimalTools_documented : decimalTools.Documented where
  number_toString n := congrArg Nat.cast (ofDigitChars_toString n)
  integer_toString n _ h := (Option.some.inj h).symm.trans (congrArg Nat.cast (ofDigitChars_toString n))
  integer_isSome _ _ := rfl

def sampleRunner : Value :=
  .object [("id", .number "7"), ("name", .string "ci-1"), ("status", .string "online"), ("busy", .bool false),
    ("labels", .array [.object [("name", .string "linux")]])]

/-- One runner is fetched with the page it comes from, and two runners of one name are refused. -/
theorem inventory_complete_or_refused_sample :
    (∃ (out : Value) (total : String) (part : List GitHubRunner) (rest : List (List GitHubRunner)),
      fetchGithubRunnerInventory decimalTools "token" (serve [sampleRunner]) = some out ∧
      out = inventory total (part ++ rest.flatten) ∧ (serve [sampleRunner] 1).bind (page? decimalTools) =
        some (total, part) ∧
      rest.length < 20 ∧ (classifyGithubRunnerRegistration decimalTools out "ci-2").status = .registrationMissing) ∧
    fetchGithubRunnerInventory decimalTools "token" (serve [sampleRunner, sampleRunner]) = none := by
  have hread :
      runner? decimalTools labelName? sampleRunner = some ⟨"7", "ci-1", true, false, ["linux"]⟩ := by decide +kernel
  obtain ⟨hserve, hpages⟩ := inventory_complete_or_refused decimalTools_documented (by decide : "token" ≠ "")
  constructor
  · have hone := (hserve [sampleRunner] [⟨"7", "ci-1", true, false, ["linux"]⟩]
      (mapM_eq_some.mpr (by rw [List.map_singleton, hread]; rfl))).trans (if_pos (by decide))
    obtain ⟨total, parts, hne, hlength, hout, -, -, hparts, -⟩ := hpages _ _ hone
    cases parts with
    | nil => exact absurd rfl hne
    | cons part rest =>
      exact ⟨_, total, part, rest, hone, hout, hparts 0 part rfl, Nat.lt_of_succ_le hlength, by decide +kernel⟩
  · exact (hserve [sampleRunner, sampleRunner] [⟨"7", "ci-1", true, false, ["linux"]⟩,
      ⟨"7", "ci-1", true, false, ["linux"]⟩]
      (mapM_eq_some.mpr (by rw [List.map_cons, List.map_singleton, hread]; rfl))).trans (if_neg (by decide))

end PitCrew.Shell
