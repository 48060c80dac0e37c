import Mathlib.Data.List.Forall2
import Mathlib.Data.List.Sort
import Mathlib.Data.String.Basic
import Mathlib.Tactic

/-! # JSON values

A decoded JSON text. A number keeps its literal, since programs differ in what they read it as, and an object
its members in the order of the text; of members with one key a decoder keeps the last, so a value has
distinct keys. -/

namespace Base.Json

inductive Value where
  | null
  | bool (b : Bool)
  | number (literal : String)
  | string (s : String)
  | array (items : List Value)
  | object (members : List (String × Value))
  deriving Repr

namespace Value

def get? (key : String) : Value → Option Value
  | object members => members.lookup key
  | _ => none

def items? : Value → Option (List Value)
  | array items => some items
  | _ => none

def string? : Value → Option String
  | string s => some s
  | _ => none

def number? : Value → Option String
  | number literal => some literal
  | _ => none

def bool? : Value → Option Bool
  | bool b => some b
  | _ => none

/-- What holds of the leaves, and of a container when it holds of all its parts, holds of every value. -/
theorem induction {P : Value → Prop} (null : P .null) (bool : ∀ b, P (.bool b))
    (number : ∀ literal, P (.number literal))
    (string : ∀ s, P (.string s)) (array : ∀ items, (∀ v ∈ items, P v) → P (.array items))
    (object : ∀ members, (∀ m ∈ members, P m.2) → P (.object members)) (v : Value) : P v :=
  @Value.rec P (fun items => ∀ v ∈ items, P v) (fun members => ∀ m ∈ members, P m.2) (fun m => P m.2)
    null bool number string array object (fun _ h => absurd h List.not_mem_nil)
    (fun _ _ hv hvs => List.forall_mem_cons.mpr ⟨hv, hvs⟩) (fun _ h => absurd h List.not_mem_nil)
    (fun _ _ hm hms => List.forall_mem_cons.mpr ⟨hm, hms⟩) (fun _ _ hv => hv) v

/-- No object in the value has two members with one key. -/
inductive Distinct : Value → Prop
  | null : Distinct .null
  | bool (b : Bool) : Distinct (.bool b)
  | number (literal : String) : Distinct (.number literal)
  | string (s : String) : Distinct (.string s)
  | array {items : List Value} (h : ∀ v ∈ items, Distinct v) : Distinct (.array items)
  | object {members : List (String × Value)} (hkeys : (members.map Prod.fst).Nodup) (h : ∀ m ∈ members, Distinct m.2) :
      Distinct (.object members)

end Value

/-! ## Members -/

def assign (key : String) (value : Value) (members : List (String × Value)) : List (String × Value) :=
  if key ∈ members.map Prod.fst then members.map fun m => if m.1 = key then (key, value) else m
  else members ++ [(key, value)]

def byKey (members : List (String × Value)) : List (String × Value) := members.insertionSort fun a b => a.1 ≤ b.1

section
variable {members other : List (String × Value)} {key : String} {value : Value}

theorem lookup_member (k : String) (v : Value) (members : List (String × Value)) (key : String) :
    List.lookup key ((k, v) :: members) = if key = k then some v else members.lookup key := by
  rw [List.lookup_cons]
  by_cases h : key = k
  · rw [if_pos h, beq_iff_eq.mpr h]
  · rw [if_neg h, beq_false_of_ne h]

theorem lookup_eq_some_iff_mem (h : (members.map Prod.fst).Nodup) :
    members.lookup key = some value ↔ (key, value) ∈ members := by
  induction members with
  | nil => simp
  | cons m members ih =>
    obtain ⟨k, v⟩ := m
    obtain ⟨hk, h⟩ := List.nodup_cons.mp h
    by_cases hkey : key = k
    · subst hkey
      have hnot : (key, value) ∉ members := fun hmem => hk (List.mem_map.mpr ⟨_, hmem, rfl⟩)
      simp [hnot, eq_comm]
    · simp [lookup_member, hkey, ih h]

theorem mem_of_lookup (h : members.lookup key = some value) : (key, value) ∈ members := by
  obtain ⟨front, back, rfl, _⟩ := List.lookup_eq_some_iff.mp h
  exact List.mem_append_right _ List.mem_cons_self

theorem lookup_eq_none_iff_notMem : members.lookup key = none ↔ key ∉ members.map Prod.fst := by
  rw [List.lookup_eq_none_iff]
  constructor
  · intro h hmem
    obtain ⟨m, hm, rfl⟩ := List.mem_map.mp hmem
    exact absurd (h m hm) (by simp)
  · intro h m hm
    exact bne_iff_ne.mpr fun hkey => h (hkey ▸ List.mem_map_of_mem hm)

theorem lookup_assign (key' : String) :
    (assign key value members).lookup key' = if key' = key then some value else members.lookup key' := by
  by_cases hkey : key ∈ members.map Prod.fst
  · rw [assign, if_pos hkey]
    induction members with
    | nil => exact absurd hkey List.not_mem_nil
    | cons m members ih =>
      obtain ⟨k, v⟩ := m
      by_cases hk : k = key
      · subst hk
        by_cases hmem : k ∈ members.map Prod.fst
        · rw [List.map_cons, if_pos rfl, lookup_member, lookup_member, ih hmem]
          by_cases hkk : key' = k <;> simp [hkk]
        · have hmap : members.map (fun m => if m.1 = k then (k, value) else m) = members := by
            refine (List.map_congr_left fun m hm => ?_).trans (List.map_id members)
            exact if_neg fun (h : m.1 = k) => hmem (h ▸ List.mem_map_of_mem hm)
          rw [List.map_cons, if_pos rfl, lookup_member, lookup_member, hmap]
          by_cases hkk : key' = k <;> simp [hkk]
      · have hmem : key ∈ members.map Prod.fst := (List.mem_cons.mp hkey).resolve_left fun h => hk h.symm
        rw [List.map_cons, if_neg hk, lookup_member, lookup_member, ih hmem]
        by_cases hkk : key' = k
        · rw [if_pos hkk, if_pos hkk, if_neg (hkk ▸ hk)]
        · rw [if_neg hkk, if_neg hkk]
  · have hnone := lookup_eq_none_iff_notMem.mpr hkey
    rw [assign, if_neg hkey, List.lookup_append, lookup_member]
    by_cases hkk : key' = key
    · rw [hkk, hnone, if_pos rfl, if_pos rfl, Option.none_or]
    · rw [if_neg hkk, if_neg hkk, List.lookup_nil, Option.or_none]

theorem keys_assign (h : members.lookup key ≠ none) :
    (assign key value members).map Prod.fst = members.map Prod.fst := by
  have hmem : key ∈ members.map Prod.fst := not_not.mp (mt lookup_eq_none_iff_notMem.mpr h)
  rw [assign, if_pos hmem, List.map_map]
  refine List.map_congr_left fun m _ => ?_
  by_cases hm : m.1 = key <;> simp [hm]

theorem mem_assign {m : String × Value} (h : m ∈ assign key value members) : m = (key, value) ∨ m ∈ members := by
  rw [assign] at h
  split at h
  · obtain ⟨m', hm', rfl⟩ := List.mem_map.mp h
    split
    · exact Or.inl rfl
    · exact Or.inr hm'
  · rcases List.mem_append.mp h with h | h
    · exact Or.inr h
    · exact Or.inl (List.mem_singleton.mp h)

theorem Value.Distinct.assign (h : (Value.object members).Distinct) (hkey : members.lookup key ≠ none)
    (hvalue : value.Distinct) :
    (Value.object (assign key value members)).Distinct := by
  cases h with
  | object hkeys hmembers =>
    refine .object (keys_assign hkey ▸ hkeys) fun m hm => ?_
    rcases mem_assign hm with rfl | hm
    · exact hvalue
    · exact hmembers m hm

theorem byKey_perm (members : List (String × Value)) : (byKey members).Perm members := List.perm_insertionSort _ _

theorem byKey_congr (hmembers : (members.map Prod.fst).Nodup) (hother : (other.map Prod.fst).Nodup)
    (h : ∀ key, members.lookup key = other.lookup key) : byKey members = byKey other := by
  have hsame : members.Perm other := by
    refine (List.perm_ext_iff_of_nodup hmembers.of_map hother.of_map).mpr fun m => ?_
    rw [← lookup_eq_some_iff_mem hmembers, ← lookup_eq_some_iff_mem hother, h]
  have hperm : (byKey members).Perm (byKey other) := (byKey_perm members).trans (hsame.trans (byKey_perm other).symm)
  have : Std.Total fun a b : String × Value => a.1 ≤ b.1 := ⟨fun a b => le_total a.1 b.1⟩
  have : IsTrans (String × Value) fun a b => a.1 ≤ b.1 := ⟨fun _ _ _ => le_trans⟩
  refine hperm.eq_of_pairwise ?_ (List.pairwise_insertionSort _ _) (List.pairwise_insertionSort _ _)
  rintro a b ha hb hab hba
  have ha' := (lookup_eq_some_iff_mem hmembers).mpr ((byKey_perm members).mem_iff.mp ha)
  have hb' := (lookup_eq_some_iff_mem hother).mpr ((byKey_perm other).mem_iff.mp hb)
  rw [le_antisymm hab hba, h] at ha'
  exact Prod.ext (le_antisymm hab hba) (Option.some.inj (ha'.symm.trans hb'))

end

/-! ## Containers in step -/

section
variable {α β : Type} {R : α → β → Prop}

theorem rel_getElem? {l : List α} {r : List β} (h : List.Forall₂ R l r) (i : Nat) : Option.Rel R l[i]? r[i]? := by
  induction h generalizing i with
  | nil => exact .none
  | cons hab _ ih =>
    cases i with
    | zero => exact .some hab
    | succ i => exact ih i

def Paired (S : String → Value → Value → Prop) (m n : String × Value) : Prop := n.1 = m.1 ∧ S m.1 m.2 n.2

section
variable {S : String → Value → Value → Prop} {l r : List (String × Value)}

theorem keys_of_forall₂ (h : List.Forall₂ (Paired S) l r) : r.map Prod.fst = l.map Prod.fst := by
  induction h with
  | nil => rfl
  | cons hmn _ ih => rw [List.map_cons, List.map_cons, ih, hmn.1]

theorem rel_lookup (h : List.Forall₂ (Paired S) l r) (key : String) :
    Option.Rel (S key) (l.lookup key) (r.lookup key) := by
  induction h with
  | nil => exact .none
  | @cons m n l r hmn _ ih =>
    obtain ⟨k, v⟩ := m
    obtain ⟨k', w⟩ := n
    obtain ⟨rfl, hvw⟩ := hmn
    rw [lookup_member, lookup_member]
    split
    · next h => exact h ▸ .some hvw
    · exact ih

theorem lookup_perm (hkeys : (l.map Prod.fst).Nodup) (h : l.Perm r) (key : String) : l.lookup key = r.lookup key := by
  have hkeys' : (r.map Prod.fst).Nodup := (h.map Prod.fst).nodup_iff.mp hkeys
  refine Option.ext fun value => ?_
  rw [lookup_eq_some_iff_mem hkeys, lookup_eq_some_iff_mem hkeys']
  exact h.mem_iff

theorem lookup_byKey (h : (l.map Prod.fst).Nodup) (key : String) : (byKey l).lookup key = l.lookup key :=
  (lookup_perm h (byKey_perm l).symm key).symm

end

theorem rel_none_iff {a : Option α} {b : Option β} (h : Option.Rel R a b) : a = none ↔ b = none := by
  cases h <;> simp

/-- What two parts give is equal, when they are both there or both missing and the values give the same. -/
theorem eq_of_rel {a b : Option α} {a' b' : Option β} (ha : Option.Rel R a a') (hb : Option.Rel R b b')
    (hnone : a = none ↔ b = none)
    (h : ∀ v w n m, a = some v → b = some w → R v n → R w m → n = m) : a' = b' := by
  cases ha with
  | none =>
    cases hb with
    | none => rfl
    | some => exact absurd (hnone.mp rfl) (Option.some_ne_none _)
  | some hvn =>
    cases hb with
    | none => exact absurd (hnone.mpr rfl) (Option.some_ne_none _)
    | some hwm => rw [h _ _ _ _ rfl rfl hvn hwm]

end
end Base.Json
