import Mathlib.Data.Finmap
import Mathlib.Data.Finset.Sort
import Mathlib.Algebra.BigOperators.Group.Multiset.Basic
import Mathlib.Algebra.Order.BigOperators.Group.Multiset
import Mathlib.Data.Int.Basic
import Mathlib.Tactic

/-! # Finite maps

Maps without an order on their entries, as Mathlib's `Finmap` with values of one type. A loop over a
map visits its keys in an order the program does not choose (`RangeOrder`); a loop whose result does
not depend on it is written over the entries. The sums and tallies are over `Int`. -/

namespace Base

/-- A finite map from `κ` to `ν`. -/
abbrev Map (κ ν : Type) := Finmap fun _ : κ => ν

/-- The order in which a loop over a map visits the keys: each key once, otherwise arbitrary. -/
structure RangeOrder (κ : Type) where
  list : Finset κ → List κ
  nodup : ∀ s, (list s).Nodup
  mem_list : ∀ s k, k ∈ list s ↔ k ∈ s

section Sorted
variable {α : Type} [LinearOrder α]

/-- The elements of a multiset in increasing order. Mathlib's `Multiset.sort` is the same list
    (`sortMultiset_eq_sort`), but it does not evaluate in the kernel. -/
def sortMultiset (m : Multiset α) : List α :=
  Quot.liftOn m (List.insertionSort (· ≤ ·)) fun a b h => by
    have hperm : (a.insertionSort (· ≤ ·)).Perm (b.insertionSort (· ≤ ·)) :=
      (List.perm_insertionSort _ a).trans (h.trans (List.perm_insertionSort _ b).symm)
    exact hperm.eq_of_pairwise' (List.pairwise_insertionSort _ a) (List.pairwise_insertionSort _ b)

theorem sortMultiset_eq_sort (m : Multiset α) : sortMultiset m = m.sort (· ≤ ·) := by
  obtain ⟨l⟩ := m
  exact (List.mergeSort_eq_insertionSort (· ≤ ·) l).symm

@[simp] theorem mem_sortMultiset {m : Multiset α} {a : α} : a ∈ sortMultiset m ↔ a ∈ m := by
  rw [sortMultiset_eq_sort, Multiset.mem_sort]

theorem sortMultiset_nodup {m : Multiset α} (h : m.Nodup) : (sortMultiset m).Nodup := by
  rw [sortMultiset_eq_sort, ← Multiset.coe_nodup, Multiset.sort_eq]
  exact h

theorem sortMultiset_sorted {m : Multiset α} (h : m.Nodup) : (sortMultiset m).Pairwise (· < ·) := by
  have hle : (sortMultiset m).Pairwise (· ≤ ·) := by
    rw [sortMultiset_eq_sort]
    exact Multiset.pairwise_sort m _
  exact (hle.and (sortMultiset_nodup h)).imp fun hab => lt_of_le_of_ne hab.1 hab.2

def sortedList (s : Finset α) : List α := sortMultiset s.1

@[simp] theorem mem_sortedList {s : Finset α} {a : α} : a ∈ sortedList s ↔ a ∈ s := mem_sortMultiset

theorem sortedList_sorted (s : Finset α) : (sortedList s).Pairwise (· < ·) := sortMultiset_sorted s.2

theorem sortedList_nodup (s : Finset α) : (sortedList s).Nodup := sortMultiset_nodup s.2

theorem length_sortedList (s : Finset α) : (sortedList s).length = s.card := by
  rw [sortedList, sortMultiset_eq_sort, Multiset.length_sort]
  rfl

theorem sum_sortedList (s : Finset α) (f : α → Int) : ((sortedList s).map f).sum = ∑ a ∈ s, f a := by
  have hset : (sortedList s).toFinset = s := Finset.ext fun a => by rw [List.mem_toFinset, mem_sortedList]
  rw [← List.sum_toFinset f (sortedList_nodup s), hset]

theorem eq_sortedList {s : Finset α} {l : List α} (hl : l.Pairwise (· < ·)) (hmem : ∀ a, a ∈ l ↔ a ∈ s) :
    l = sortedList s := by
  have hnodup : l.Nodup := hl.imp fun h => ne_of_lt h
  have hperm : l.Perm (sortedList s) :=
    (List.perm_ext_iff_of_nodup hnodup (sortedList_nodup s)).mpr fun a => by rw [hmem, mem_sortedList]
  exact hperm.eq_of_pairwise' (hl.imp le_of_lt) ((sortedList_sorted s).imp le_of_lt)

/-- Visiting the keys in increasing order. -/
def RangeOrder.sorted : RangeOrder α where
  list := sortedList
  nodup := sortedList_nodup
  mem_list _ _ := mem_sortedList

end Sorted

namespace Map
variable {κ ν μ : Type}

/-! ## Filtering and mapping -/

/-- The entries whose key satisfies `p`. -/
def filterKeys (p : κ → Bool) (m : Map κ ν) : Map κ ν where
  entries := m.entries.filter fun e => p e.1
  nodupKeys := by
    obtain ⟨⟨l⟩, hl⟩ := m
    exact List.NodupKeys.sublist List.filter_sublist hl

def mapVals (f : κ → ν → μ) (m : Map κ ν) : Map κ μ where
  entries := m.entries.map fun e => ⟨e.1, f e.1 e.2⟩
  nodupKeys := by
    obtain ⟨⟨l⟩, hl⟩ := m
    have : (l.map fun e : Sigma fun _ : κ => ν => (⟨e.1, f e.1 e.2⟩ : Sigma fun _ : κ => μ)).keys = l.keys := by
      simp [List.keys, Function.comp_def]
    show List.Nodup (List.keys _)
    rw [this]
    exact hl

section Lookup
variable [DecidableEq κ]

/-- The value at `k`, or the default `d` where the map has none. -/
def getD (m : Map κ ν) (k : κ) (d : ν) : ν := (m.lookup k).getD d

/-- The map that a list of entries builds, later entries replacing earlier ones. -/
def ofList (l : List (κ × ν)) : Map κ ν := l.foldl (fun m e => m.insert e.1 e.2) ∅

theorem dlookup_filter (p : κ → Bool) (k : κ) (l : List (Sigma fun _ : κ => ν)) :
    (l.filter fun e => p e.1).dlookup k = if p k then l.dlookup k else none := by
  induction l with
  | nil => simp
  | cons e l ih =>
    obtain ⟨a, b⟩ := e
    by_cases hk : k = a
    · subst hk
      cases hp : p k <;> simp_all
    · cases hp : p a <;> simp_all [List.dlookup_cons_ne]

@[simp] theorem lookup_filterKeys (p : κ → Bool) (m : Map κ ν) (k : κ) :
    (filterKeys p m).lookup k = if p k then m.lookup k else none := by
  obtain ⟨⟨l⟩, hl⟩ := m
  show (l.filter fun e => decide (p e.1 = true)).dlookup k = if p k then l.dlookup k else none
  simp only [Bool.decide_eq_true]
  exact dlookup_filter p k l

@[simp] theorem lookup_mapVals (f : κ → ν → μ) (m : Map κ ν) (k : κ) :
    (mapVals f m).lookup k = (m.lookup k).map (f k) := by
  obtain ⟨⟨l⟩, hl⟩ := m
  show (l.map fun e : Sigma fun _ : κ => ν => (⟨e.1, f e.1 e.2⟩ : Sigma fun _ : κ => μ)).dlookup k =
    (l.dlookup k).map (f k)
  clear hl
  induction l with
  | nil => rfl
  | cons e l ih =>
    obtain ⟨a, b⟩ := e
    by_cases hk : k = a
    · subst hk
      simp
    · simp [List.dlookup_cons_ne, hk, ih]

theorem lookup_insert_ite (m : Map κ ν) (a k : κ) (b : ν) :
    (m.insert a b).lookup k = if k = a then some b else m.lookup k := by
  split
  · next h => subst h; exact Finmap.lookup_insert m
  · next h => exact Finmap.lookup_insert_of_ne m h

theorem lookup_erase_ite (m : Map κ ν) (a k : κ) :
    (m.erase a).lookup k = if k = a then none else m.lookup k := by
  split
  · next h => subst h; exact Finmap.lookup_erase _ m
  · next h => exact Finmap.lookup_erase_ne h

theorem lookup_of_insert {m : Map κ ν} {a k : κ} {b v : ν} (h : (m.insert a b).lookup k = some v) :
    (k = a ∧ v = b) ∨ (k ≠ a ∧ m.lookup k = some v) := by
  rw [lookup_insert_ite] at h
  split_ifs at h with hk
  · exact Or.inl ⟨hk, (Option.some.inj h).symm⟩
  · exact Or.inr ⟨hk, h⟩

theorem lookup_of_erase {m : Map κ ν} {a k : κ} {v : ν} (h : (m.erase a).lookup k = some v) :
    k ≠ a ∧ m.lookup k = some v := by
  rw [lookup_erase_ite] at h
  split_ifs at h with hk
  exact ⟨hk, h⟩

def All (P : κ → ν → Prop) (m : Map κ ν) : Prop := ∀ k v, m.lookup k = some v → P k v

theorem All.empty (P : κ → ν → Prop) : All P (∅ : Map κ ν) := by
  intro k v h
  rw [Finmap.lookup_empty] at h
  cases h

theorem All.insert {P : κ → ν → Prop} {m : Map κ ν} (h : All P m) {a : κ} {b : ν} (hb : P a b) :
    All P (m.insert a b) := by
  intro k v hk
  rcases lookup_of_insert hk with ⟨rfl, rfl⟩ | ⟨-, hk⟩
  · exact hb
  · exact h k v hk

theorem All.erase {P : κ → ν → Prop} {m : Map κ ν} (h : All P m) (a : κ) : All P (m.erase a) :=
  fun k v hk => h k v (lookup_of_erase hk).2

def change (a : κ) (f : ν → ν) (m : Map κ ν) : Map κ ν :=
  match m.lookup a with
  | none => m
  | some v => m.insert a (f v)

theorem All.change {P : κ → ν → Prop} {m : Map κ ν} (h : All P m) (a : κ) {f : ν → ν} (hf : ∀ k v, P k v → P k (f v)) :
    All P (m.change a f) := by
  unfold Map.change
  cases ha : m.lookup a with
  | none => exact h
  | some v => exact h.insert (hf a v (h a v ha))

theorem insert_erase (m : Map κ ν) (a : κ) (b : ν) : (m.erase a).insert a b = m.insert a b :=
  Finmap.ext_lookup fun k => by
    rw [lookup_insert_ite, lookup_insert_ite, lookup_erase_ite]
    split <;> simp_all

theorem erase_eq_self {m : Map κ ν} {a : κ} (h : m.lookup a = none) : m.erase a = m :=
  Finmap.ext_lookup fun k => by
    rw [lookup_erase_ite]
    split
    · next hk => rw [hk, h]
    · rfl

theorem insert_eq_self {m : Map κ ν} {a : κ} {b : ν} (h : m.lookup a = some b) : m.insert a b = m :=
  Finmap.ext_lookup fun k => by
    rw [lookup_insert_ite]
    split
    · next hk => rw [hk, h]
    · rfl

theorem filterKeys_eq_self {p : κ → Bool} {m : Map κ ν} (h : ∀ k ∈ m, p k = true) : filterKeys p m = m :=
  Finmap.ext_lookup fun k => by
    rw [lookup_filterKeys]
    split
    · rfl
    · next hp => exact (Finmap.lookup_eq_none.mpr fun hk => hp (h k hk)).symm

theorem filterKeys_filterKeys (p q : κ → Bool) (m : Map κ ν) :
    filterKeys q (filterKeys p m) = filterKeys (fun k => p k && q k) m :=
  Finmap.ext_lookup fun k => by
    rw [lookup_filterKeys, lookup_filterKeys, lookup_filterKeys]
    cases p k <;> cases q k <;> rfl

theorem mapVals_eq_self {f : κ → ν → ν} {m : Map κ ν} (h : ∀ k v, m.lookup k = some v → f k v = v) :
    mapVals f m = m :=
  Finmap.ext_lookup fun k => by
    rw [lookup_mapVals]
    cases hk : m.lookup k with
    | none => rfl
    | some v => rw [Option.map_some, h k v hk]

theorem mem_iff_lookup {m : Map κ ν} {k : κ} : k ∈ m ↔ m.lookup k ≠ none := by
  rw [Ne, Finmap.lookup_eq_none, not_not]

theorem lookup_foldl_insert_of_notMem {l : List (κ × ν)} {m : Map κ ν} {k : κ} (h : k ∉ l.map Prod.fst) :
    (l.foldl (fun m e => m.insert e.1 e.2) m).lookup k = m.lookup k := by
  induction l generalizing m with
  | nil => rfl
  | cons e l ih =>
    rw [List.map_cons, List.mem_cons, not_or] at h
    rw [List.foldl_cons, ih h.2, Finmap.lookup_insert_of_ne _ h.1]

theorem lookup_foldl_insert_of_mem {l : List (κ × ν)} {m : Map κ ν} {k : κ} {v : ν}
    (hl : (l.map Prod.fst).Nodup) (h : (k, v) ∈ l) :
    (l.foldl (fun m e => m.insert e.1 e.2) m).lookup k = some v := by
  induction l generalizing m with
  | nil => cases h
  | cons e l ih =>
    rw [List.map_cons, List.nodup_cons] at hl
    rw [List.foldl_cons]
    rcases List.mem_cons.mp h with rfl | h
    · rw [lookup_foldl_insert_of_notMem hl.1, Finmap.lookup_insert]
    · exact ih hl.2 h

theorem lookup_ofList {l : List (κ × ν)} (hl : (l.map Prod.fst).Nodup) {k : κ} {v : ν} :
    (ofList l).lookup k = some v ↔ (k, v) ∈ l := by
  constructor
  · intro h
    by_cases hk : k ∈ l.map Prod.fst
    · obtain ⟨⟨k', w⟩, hw, rfl⟩ := List.mem_map.mp hk
      rw [ofList, lookup_foldl_insert_of_mem hl hw, Option.some.injEq] at h
      exact h ▸ hw
    · rw [ofList, lookup_foldl_insert_of_notMem hk, Finmap.lookup_empty] at h
      cases h
  · exact lookup_foldl_insert_of_mem hl

end Lookup

/-! ## Sums -/

/-- The sum of `f` over the values. -/
def sumOf (f : ν → Int) (m : Map κ ν) : Int := (m.entries.map fun e => f e.2).sum

@[simp] theorem sumOf_empty (f : ν → Int) : sumOf f (∅ : Map κ ν) = 0 := rfl

theorem sumOf_nonneg {f : ν → Int} {m : Map κ ν} (h : ∀ e ∈ m.entries, 0 ≤ f e.2) : 0 ≤ sumOf f m := by
  apply Multiset.sum_nonneg
  intro x hx
  obtain ⟨e, he, rfl⟩ := Multiset.mem_map.mp hx
  exact h e he

theorem sumOf_add (f g : ν → Int) (m : Map κ ν) : sumOf (fun v => f v + g v) m = sumOf f m + sumOf g m :=
  Multiset.sum_map_add

/-- The sums at the elements of a list with distinct keys are the sum of the values with one of these keys. -/
theorem sum_sumOf {α β : Type} [DecidableEq β] {id : α → β} {l : List α} (hl : (l.map id).Nodup) (key : ν → β)
    (f : ν → Int) (m : Map κ ν) : (l.map fun a => sumOf (fun v => if key v = id a then f v else 0) m).sum =
      sumOf (fun v => if key v ∈ l.map id then f v else 0) m := by
  induction l with
  | nil => simp [sumOf]
  | cons a l ih =>
    rw [List.map_cons, List.nodup_cons] at hl
    rw [List.map_cons, List.sum_cons, ih hl.2, ← sumOf_add]
    refine congrArg (sumOf · m) (funext fun v => ?_)
    by_cases hv : key v = id a
    · have hnot : key v ∉ l.map id := hv ▸ hl.1
      simp [hv, hl.1]
    · simp [hv]

section Sum
variable [DecidableEq κ] {f : ν → Int} {m : Map κ ν} {k : κ} {v : ν}

theorem sumOf_insert (h : m.lookup k = none) (v : ν) : sumOf f (m.insert k v) = f v + sumOf f m := by
  unfold sumOf
  rw [Finmap.entries_insert_of_notMem (Finmap.lookup_eq_none.mp h), Multiset.map_cons, Multiset.sum_cons]

theorem insert_erase_lookup (h : m.lookup k = some v) : (m.erase k).insert k v = m := by
  rw [insert_erase, insert_eq_self h]

theorem sumOf_erase (h : m.lookup k = some v) : sumOf f (m.erase k) = sumOf f m - f v := by
  have : sumOf f ((m.erase k).insert k v) = f v + sumOf f (m.erase k) :=
    sumOf_insert (Finmap.lookup_erase k m) v
  rw [insert_erase_lookup h] at this
  omega

theorem sumOf_replace (h : m.lookup k = some v) (w : ν) : sumOf f (m.insert k w) = sumOf f m - f v + f w := by
  rw [← insert_erase, sumOf_insert (Finmap.lookup_erase k m), sumOf_erase h]
  omega

theorem mem_entries_iff {e : Sigma fun _ : κ => ν} : e ∈ m.entries ↔ m.lookup e.1 = some e.2 := by
  obtain ⟨⟨l⟩, hl⟩ := m
  exact (List.mem_dlookup_iff hl).symm

theorem sumOf_mono {m' : Map κ ν} (hsub : ∀ j w, m'.lookup j = some w → m.lookup j = some w)
    (hf : ∀ j w, m.lookup j = some w → 0 ≤ f w) : sumOf f m' ≤ sumOf f m := by
  have hle : m'.entries ≤ m.entries :=
    (Multiset.le_iff_subset (Finmap.nodup_entries m')).mpr fun e he =>
      mem_entries_iff.mpr (hsub e.1 e.2 (mem_entries_iff.mp he))
  obtain ⟨rest, hrest⟩ := Multiset.le_iff_exists_add.mp hle
  have hnonneg : 0 ≤ (rest.map fun e => f e.2).sum := by
    apply Multiset.sum_nonneg
    intro x hx
    obtain ⟨e, he, rfl⟩ := Multiset.mem_map.mp hx
    exact hf e.1 e.2 (mem_entries_iff.mp (hrest ▸ Multiset.mem_add.mpr (Or.inr he)))
  unfold sumOf
  rw [hrest, Multiset.map_add, Multiset.sum_add]
  omega

/-- The sum over the entries kept under some keys, where a value shows whether its key is one of them. -/
theorem sumOf_filterKeys {p : κ → Bool} {q : ν → Prop} [DecidablePred q]
    (h : ∀ j w, m.lookup j = some w → (p j = true ↔ q w)) :
    sumOf f (filterKeys p m) = sumOf (fun w => if q w then f w else 0) m := by
  show ((m.entries.filter fun e => p e.1 = true).map fun e => f e.2).sum = _
  rw [Multiset.filter_congr fun e he => h e.1 e.2 (mem_entries_iff.mp he), sumOf]
  induction m.entries using Multiset.induction with
  | empty => rfl
  | cons e entries ih => by_cases he : q e.2 <;> simp [he, ih]

theorem sum_filterMap_lookup {l : List κ} (hl : (l : Multiset κ) = m.keys.1) :
    ((l.filterMap m.lookup).map f).sum = sumOf f m := by
  have hkeys : (l : Multiset κ) = m.entries.map Sigma.fst := hl
  have hvalue : ∀ e ∈ m.entries, m.lookup e.1 = some e.2 := fun e he => mem_entries_iff.mp he
  unfold sumOf
  obtain ⟨entries, hentries⟩ := Quot.exists_rep m.entries
  rw [← hentries] at hkeys hvalue ⊢
  have hperm : l.Perm (entries.map Sigma.fst) := Multiset.coe_eq_coe.mp hkeys
  have hmap : (entries.map Sigma.fst).filterMap m.lookup = entries.map (·.2) := by
    rw [List.filterMap_map, ← List.filterMap_eq_map]
    exact List.filterMap_congr hvalue
  rw [((hperm.filterMap _).map f).sum_eq, hmap, List.map_map]
  rfl

end Sum

/-! ## Tallies -/

section Tally
variable {α : Type} [DecidableEq α]

/-- `t[k] += n`, where a missing entry counts as zero. -/
def addAt (t : Map α Int) (k : α) (n : Int) : Map α Int := t.insert k (t.getD k 0 + n)

theorem getD_addAt (t : Map α Int) (k j : α) (n : Int) :
    (addAt t k n).getD j 0 = t.getD j 0 + if k = j then n else 0 := by
  unfold addAt getD
  rw [lookup_insert_ite]
  by_cases h : j = k
  · subst h
    simp
  · simp [h, Ne.symm h]

theorem sumOf_addAt (t : Map α Int) (k : α) (n : Int) : sumOf id (addAt t k n) = sumOf id t + n := by
  unfold addAt getD
  cases h : t.lookup k with
  | none =>
    rw [sumOf_insert h]
    simp only [Option.getD_none, id_eq]
    omega
  | some v =>
    rw [sumOf_replace h]
    simp only [Option.getD_some, id_eq]
    omega

theorem addAt_comm (t : Map α Int) (k j : α) (n o : Int) : addAt (addAt t k n) j o = addAt (addAt t j o) k n := by
  apply Finmap.ext_lookup
  intro i
  by_cases hkj : k = j
  · subst hkj
    simp only [addAt, getD, Finmap.insert_insert, Finmap.lookup_insert, Option.getD_some]
    rw [add_right_comm]
  · simp only [addAt, getD, lookup_insert_ite, hkj, Ne.symm hkj, if_false]
    by_cases hik : i = k <;> by_cases hij : i = j <;> simp_all

/-- The sums of `amount` over the values, one for each `key`. -/
def tally (key : ν → α) (amount : ν → Int) (m : Map κ ν) : Map α Int :=
  haveI : RightCommutative fun (t : Map α Int) (e : Sigma fun _ : κ => ν) => addAt t (key e.2) (amount e.2) :=
    ⟨fun t _ _ => addAt_comm t _ _ _ _⟩
  m.entries.foldl (fun t e => addAt t (key e.2) (amount e.2)) ∅

variable {key : ν → α} {amount : ν → Int}

theorem getD_tally (m : Map κ ν) (j : α) :
    (tally key amount m).getD j 0 = sumOf (fun v => if key v = j then amount v else 0) m := by
  obtain ⟨⟨l⟩, hl⟩ := m
  show (l.foldl (fun t e => addAt t (key e.2) (amount e.2)) ∅).getD j 0 =
    (l.map fun e => if key e.2 = j then amount e.2 else 0).sum
  have h : ∀ (l : List (Sigma fun _ : κ => ν)) (t : Map α Int),
      (l.foldl (fun t e => addAt t (key e.2) (amount e.2)) t).getD j 0 =
        t.getD j 0 + (l.map fun e => if key e.2 = j then amount e.2 else 0).sum := by
    intro l
    induction l with
    | nil => intro t; simp
    | cons e l ih => intro t; rw [List.foldl_cons, ih, getD_addAt, List.map_cons, List.sum_cons, add_assoc]
  rw [h]
  simp [getD]

theorem sumOf_tally (m : Map κ ν) : sumOf id (tally key amount m) = sumOf amount m := by
  obtain ⟨⟨l⟩, hl⟩ := m
  show sumOf id (l.foldl (fun t e => addAt t (key e.2) (amount e.2)) ∅) = (l.map fun e => amount e.2).sum
  have h : ∀ (l : List (Sigma fun _ : κ => ν)) (t : Map α Int),
      sumOf id (l.foldl (fun t e => addAt t (key e.2) (amount e.2)) t) =
        sumOf id t + (l.map fun e => amount e.2).sum := by
    intro l
    induction l with
    | nil => intro t; simp
    | cons e l ih => intro t; rw [List.foldl_cons, ih, sumOf_addAt, List.map_cons, List.sum_cons, add_assoc]
  rw [h]
  simp

end Tally

/-! ## Keeping the heaviest entries -/

section Trim
variable [DecidableEq κ]

def entriesIn (o : RangeOrder κ) (m : Map κ ν) : List (κ × ν) :=
  (o.list m.keys).filterMap fun k => (m.lookup k).map (k, ·)

theorem mem_entriesIn {o : RangeOrder κ} {m : Map κ ν} {e : κ × ν} :
    e ∈ entriesIn o m ↔ m.lookup e.1 = some e.2 := by
  obtain ⟨k, v⟩ := e
  simp only [entriesIn, List.mem_filterMap, o.mem_list, Finmap.mem_keys, Option.map_eq_some_iff, Prod.mk.injEq]
  constructor
  · rintro ⟨j, -, w, hw, rfl, rfl⟩
    exact hw
  · intro h
    exact ⟨k, Finmap.mem_of_lookup_eq_some h, v, h, rfl, rfl⟩

theorem map_fst_entriesIn (o : RangeOrder κ) (m : Map κ ν) : (entriesIn o m).map Prod.fst = o.list m.keys := by
  have h : ∀ l : List κ, (∀ k ∈ l, k ∈ m) → (l.filterMap fun k => (m.lookup k).map (k, ·)).map Prod.fst = l := by
    intro l
    induction l with
    | nil => intro _; rfl
    | cons k l ih =>
      intro hl
      obtain ⟨v, hv⟩ := Finmap.mem_iff.mp (hl k List.mem_cons_self)
      simp only [List.filterMap_cons, hv, Option.map_some, List.map_cons]
      rw [ih fun j hj => hl j (List.mem_cons_of_mem k hj)]
  exact h _ fun k hk => Finmap.mem_keys.mp ((o.mem_list _ k).mp hk)

theorem nodup_fst_entriesIn (o : RangeOrder κ) (m : Map κ ν) : ((entriesIn o m).map Prod.fst).Nodup :=
  map_fst_entriesIn o m ▸ o.nodup _

theorem sum_entriesIn (o : RangeOrder κ) (f : ν → Int) (m : Map κ ν) :
    ((entriesIn o m).map fun e => f e.2).sum = sumOf f m := by
  have hkeys : (o.list m.keys : Multiset κ) = m.keys.1 :=
    (Multiset.Nodup.ext (Multiset.coe_nodup.mpr (o.nodup _)) m.keys.nodup).mpr fun a => o.mem_list _ a
  rw [← sum_filterMap_lookup hkeys]
  refine congrArg List.sum ?_
  unfold entriesIn
  rw [List.map_filterMap, List.map_filterMap]
  refine List.filterMap_congr fun k _ => ?_
  rw [Option.map_map]
  rfl

/-- `a` is visited before `b` in a loop over entries by decreasing weight. -/
def Heavier (weight : ν → Int) (a b : κ × ν) : Prop := weight b.2 ≤ weight a.2

instance (weight : ν → Int) : DecidableRel (Heavier (κ := κ) weight) := fun a b =>
  inferInstanceAs (Decidable (weight b.2 ≤ weight a.2))

instance (weight : ν → Int) : Std.Total (Heavier (κ := κ) weight) := ⟨fun a b => le_total (weight b.2) (weight a.2)⟩

instance (weight : ν → Int) : IsTrans (κ × ν) (Heavier weight) := ⟨fun _ _ _ hab hbc => le_trans hbc hab⟩

/-- The `n` heaviest entries. Which of several equally heavy ones is kept depends on the order. -/
def keepHeaviest (o : RangeOrder κ) (n : Nat) (weight : ν → Int) (m : Map κ ν) : Map κ ν :=
  ofList (((entriesIn o m).insertionSort (Heavier weight)).take n)

section
variable {o : RangeOrder κ} {n : Nat} {weight : ν → Int} {m : Map κ ν}

theorem nodup_fst_sorted : (((entriesIn o m).insertionSort (Heavier weight)).map Prod.fst).Nodup :=
  ((List.perm_insertionSort _ _).map Prod.fst).nodup_iff.mpr (nodup_fst_entriesIn o m)

theorem lookup_keepHeaviest {k : κ} {v : ν} : (keepHeaviest o n weight m).lookup k = some v ↔
    (k, v) ∈ ((entriesIn o m).insertionSort (Heavier weight)).take n :=
  lookup_ofList (nodup_fst_sorted.sublist ((List.take_sublist n _).map Prod.fst))

theorem lookup_of_keepHeaviest {k : κ} {v : ν} (h : (keepHeaviest o n weight m).lookup k = some v) :
    m.lookup k = some v :=
  mem_entriesIn (o := o) |>.mp ((List.perm_insertionSort _ _).mem_iff.mp
    (List.mem_of_mem_take (lookup_keepHeaviest.mp h)))

theorem le_of_keepHeaviest {k j : κ} {v w : ν} (hv : (keepHeaviest o n weight m).lookup k = some v)
    (hw : m.lookup j = some w) (hj : (keepHeaviest o n weight m).lookup j ≠ some w) : weight w ≤ weight v := by
  have hsort := List.pairwise_insertionSort (Heavier weight) (entriesIn o m)
  rw [← List.take_append_drop n (List.insertionSort (Heavier weight) (entriesIn o m)), List.pairwise_append] at hsort
  refine hsort.2.2 (k, v) (lookup_keepHeaviest.mp hv) (j, w) ?_
  have hmem : (j, w) ∈ (entriesIn o m).insertionSort (Heavier weight) :=
    (List.perm_insertionSort _ _).mem_iff.mpr (mem_entriesIn.mpr hw)
  rw [← List.take_append_drop n (List.insertionSort (Heavier weight) (entriesIn o m)), List.mem_append] at hmem
  rcases hmem with hmem | hmem
  · exact absurd (lookup_keepHeaviest.mpr hmem) hj
  · exact hmem

theorem card_keys_ofList {l : List (κ × ν)} (hl : (l.map Prod.fst).Nodup) : (ofList l).keys.card = l.length := by
  have hkeys : (ofList l).keys = (l.map Prod.fst).toFinset := by
    ext k
    rw [Finmap.mem_keys, Finmap.mem_iff, List.mem_toFinset, List.mem_map]
    constructor
    · rintro ⟨v, hv⟩
      exact ⟨(k, v), (lookup_ofList hl).mp hv, rfl⟩
    · rintro ⟨⟨_, v⟩, hv, rfl⟩
      exact ⟨v, (lookup_ofList hl).mpr hv⟩
  rw [hkeys, List.toFinset_card_of_nodup hl, List.length_map]

theorem card_keepHeaviest : (keepHeaviest o n weight m).keys.card = min n m.keys.card := by
  rw [keepHeaviest, card_keys_ofList (nodup_fst_sorted.sublist ((List.take_sublist n _).map Prod.fst)),
    List.length_take, List.length_insertionSort, ← List.length_map Prod.fst, map_fst_entriesIn]
  have : (o.list m.keys).toFinset = m.keys := by
    ext k
    rw [List.mem_toFinset, o.mem_list]
  rw [← List.toFinset_card_of_nodup (o.nodup _), this]

end
end Trim
end Map
end Base
