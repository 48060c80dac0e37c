import PitCrew.Admission.World

/-! # Facts about the ledger

What the functions on a ledger do to its fields: cloning, discarding leases, compacting tombstones and
accounting for a slot of a fence; and what validation accepts (`Valid`). -/

namespace PitCrew.Admission.DurableState
open Base

variable {s : DurableState} {o : RangeOrder String} {reason : TombstoneReason}

/-! ## Cloning -/

def FencesSet (s : DurableState) : Prop := ∀ id f, s.adoptionFences.lookup id = some f → f.pendingLeaseKeys ≠ none

theorem pendingLeaseKeys_eq {f : AdoptionFence} (h : f.pendingLeaseKeys ≠ none) :
    f.pendingLeaseKeys = some f.pending := by
  obtain ⟨pending, hp⟩ := Option.ne_none_iff_exists'.mp h
  simp [AdoptionFence.pending, hp]

theorem clone_eq (h : s.FencesSet) : s.clone = s := by
  unfold clone
  rw [Map.mapVals_eq_self fun id f hf => ?_]
  rw [← pendingLeaseKeys_eq (h id f hf)]

/-! ## Discarding leases -/

def tombstoneOf (reason : TombstoneReason) (l : Lease) (sequence : Int) : Tombstone :=
  { profileID := l.profileID, slotKey := l.slotKey, leaseID := l.leaseID, reason, sequence }

theorem discard_eq (reason : TombstoneReason) (s : DurableState) (key : String) (l : Lease) :
    s.discard reason key l =
      { s with
        decisionSequence := s.decisionSequence + 1
        leases := s.leases.erase key
        tombstones := s.tombstones.insert key (tombstoneOf reason l (s.decisionSequence + 1)) } := rfl

theorem discardAll_frame (reason : TombstoneReason) (s : DurableState) (l : List (String × Lease)) :
    s.discardAll reason l =
      { s with
        decisionSequence := (s.discardAll reason l).decisionSequence
        leases := (s.discardAll reason l).leases
        tombstones := (s.discardAll reason l).tombstones } := by
  induction l generalizing s with
  | nil => rfl
  | cons e l ih => exact ih (s.discard reason e.1 e.2)

@[simp] theorem discardAll_sequence (l : List (String × Lease)) :
    (s.discardAll reason l).decisionSequence = s.decisionSequence + l.length := by
  induction l generalizing s with
  | nil => simp [discardAll]
  | cons e l ih =>
    have := ih (s := s.discard reason e.1 e.2)
    rw [discard_eq] at this
    simp only [discardAll, List.foldl_cons, List.length_cons] at this ⊢
    rw [discard_eq, this]
    push_cast
    omega

theorem discardAll_leases (l : List (String × Lease)) (key : String) :
    (s.discardAll reason l).leases.lookup key = if key ∈ l.map Prod.fst then none else s.leases.lookup key := by
  induction l generalizing s with
  | nil => simp [discardAll]
  | cons e l ih =>
    have := ih (s := s.discard reason e.1 e.2)
    simp only [discardAll, List.foldl_cons, List.map_cons, List.mem_cons] at this ⊢
    rw [this, discard_eq, Map.lookup_erase_ite]
    by_cases hk : key = e.1 <;> by_cases hl : key ∈ l.map Prod.fst <;> simp [hk, hl]

theorem discardAll_tombstones_of_notMem (reason : TombstoneReason) {l : List (String × Lease)} {key : String}
    (h : key ∉ l.map Prod.fst) : (s.discardAll reason l).tombstones.lookup key = s.tombstones.lookup key := by
  induction l generalizing s with
  | nil => rfl
  | cons e l ih =>
    rw [List.map_cons, List.mem_cons, not_or] at h
    have := ih (s := s.discard reason e.1 e.2) h.2
    rw [discard_eq, Map.lookup_insert_ite, if_neg h.1] at this
    exact this

theorem discardAll_tombstones_of_get {l : List (String × Lease)} (hl : (l.map Prod.fst).Nodup) {i : Nat} {key : String}
    {lease : Lease} (h : l[i]? = some (key, lease)) :
    (s.discardAll reason l).tombstones.lookup key = some (tombstoneOf reason lease (s.decisionSequence + i + 1)) := by
  induction l generalizing s i with
  | nil => simp at h
  | cons e l ih =>
    rw [List.map_cons, List.nodup_cons] at hl
    cases i with
    | zero =>
      simp only [List.getElem?_cons_zero, Option.some.injEq] at h
      subst h
      have := discardAll_tombstones_of_notMem (s := s.discard reason key lease) reason hl.1
      rw [discard_eq, Map.lookup_insert_ite, if_pos rfl] at this
      simp only [discardAll, List.foldl_cons, Nat.cast_zero, add_zero]
      exact this
    | succ i =>
      rw [List.getElem?_cons_succ] at h
      have := ih (s := s.discard reason e.1 e.2) hl.2 h
      rw [discard_eq] at this
      simp only [discardAll, List.foldl_cons] at this ⊢
      rw [discard_eq, this]
      push_cast
      congr 2
      omega

/-- A tombstone after discarding was there before, or is that of a discarded lease, which is numbered
    above the old sequence and at most the new one. -/
theorem discardAll_tombstones_cases {l : List (String × Lease)} (hl : (l.map Prod.fst).Nodup) {key : String}
    {t : Tombstone}
    (h : (s.discardAll reason l).tombstones.lookup key = some t) :
    (key ∉ l.map Prod.fst ∧ s.tombstones.lookup key = some t) ∨
      ∃ (i : Nat) (lease : Lease), l[i]? = some (key, lease) ∧
        t = tombstoneOf reason lease (s.decisionSequence + i + 1) := by
  by_cases hk : key ∈ l.map Prod.fst
  · obtain ⟨⟨key', lease⟩, hmem, rfl⟩ := List.mem_map.mp hk
    obtain ⟨i, hi⟩ := List.mem_iff_getElem?.mp hmem
    rw [discardAll_tombstones_of_get hl hi, Option.some.injEq] at h
    exact Or.inr ⟨i, lease, hi, h.symm⟩
  · rw [discardAll_tombstones_of_notMem reason hk] at h
    exact Or.inl ⟨hk, h⟩

/-! ## Compacting tombstones -/

theorem compact_frame (o : RangeOrder String) (s : DurableState) :
    s.compactTombstones o = { s with tombstones := (s.compactTombstones o).tombstones } := by
  unfold compactTombstones
  split <;> rfl

theorem compact_lookup {key : String} {t : Tombstone} (h : (s.compactTombstones o).tombstones.lookup key = some t) :
    s.tombstones.lookup key = some t := by
  unfold compactTombstones at h
  split at h
  · exact h
  · exact Map.lookup_of_keepHeaviest h

theorem mem_of_mem_compact {key : String} (h : key ∈ (s.compactTombstones o).tombstones) : key ∈ s.tombstones := by
  obtain ⟨t, ht⟩ := Finmap.mem_iff.mp h
  exact Finmap.mem_of_lookup_eq_some (compact_lookup ht)

@[simp] theorem compact_leases : (s.compactTombstones o).leases = s.leases := by rw [compact_frame]

@[simp] theorem compact_sequence : (s.compactTombstones o).decisionSequence = s.decisionSequence := by
  rw [compact_frame]

@[simp] theorem compact_fences : (s.compactTombstones o).adoptionFences = s.adoptionFences := by rw [compact_frame]

@[simp] theorem compact_policy : (s.compactTombstones o).policy = s.policy := by rw [compact_frame]

@[simp] theorem compact_epoch : (s.compactTombstones o).epoch = s.epoch := by rw [compact_frame]

@[simp] theorem compact_schema : (s.compactTombstones o).schemaVersion = s.schemaVersion := by rw [compact_frame]

@[simp] theorem compact_decision : (s.compactTombstones o).lastDecision = s.lastDecision := by rw [compact_frame]

/-! ## Accounting for a slot of a fence -/

theorem mark_frame (s : DurableState) (p k : String) :
    (s.markLeaseAccountedForAdoption p k).1 =
      { s with adoptionFences := (s.markLeaseAccountedForAdoption p k).1.adoptionFences } := by
  unfold markLeaseAccountedForAdoption
  split
  · rfl
  · split <;> rfl

theorem mark_of_false {p k : String} (h : (s.markLeaseAccountedForAdoption p k).2 = false) :
    (s.markLeaseAccountedForAdoption p k).1 = s := by
  unfold markLeaseAccountedForAdoption at h ⊢
  split
  · rfl
  · next fence hf =>
    rw [hf] at h
    simp only at h
    split
    · rfl
    · next pending hr =>
      rw [hr] at h
      cases h

@[simp] theorem mark_leases {p k : String} : (s.markLeaseAccountedForAdoption p k).1.leases = s.leases := by
  rw [mark_frame]

@[simp] theorem mark_tombstones {p k : String} : (s.markLeaseAccountedForAdoption p k).1.tombstones = s.tombstones := by
  rw [mark_frame]

@[simp] theorem mark_sequence {p k : String} :
    (s.markLeaseAccountedForAdoption p k).1.decisionSequence = s.decisionSequence := by
  rw [mark_frame]

@[simp] theorem mark_policy {p k : String} : (s.markLeaseAccountedForAdoption p k).1.policy = s.policy := by
  rw [mark_frame]

@[simp] theorem mark_epoch {p k : String} : (s.markLeaseAccountedForAdoption p k).1.epoch = s.epoch := by
  rw [mark_frame]

@[simp] theorem mark_schema {p k : String} :
    (s.markLeaseAccountedForAdoption p k).1.schemaVersion = s.schemaVersion := by
  rw [mark_frame]

@[simp] theorem mark_decision {p k : String} :
    (s.markLeaseAccountedForAdoption p k).1.lastDecision = s.lastDecision := by
  rw [mark_frame]

theorem mark_congr {s' : DurableState} (h : s.adoptionFences = s'.adoptionFences) (p k : String) :
    (s.markLeaseAccountedForAdoption p k).1.adoptionFences =
      (s'.markLeaseAccountedForAdoption p k).1.adoptionFences := by
  unfold markLeaseAccountedForAdoption
  rw [h]
  split
  · exact h
  · split
    · exact h
    · rfl

theorem mark_fence_ne {p k id : String} (h : id ≠ p) :
    (s.markLeaseAccountedForAdoption p k).1.adoptionFences.lookup id = s.adoptionFences.lookup id := by
  unfold markLeaseAccountedForAdoption
  split
  · rfl
  · split
    · rfl
    · exact Finmap.lookup_insert_of_ne _ h

theorem mark_fence {p k : String} {f : AdoptionFence} (hf : s.adoptionFences.lookup p = some f) :
    (s.markLeaseAccountedForAdoption p k).1.adoptionFences.lookup p =
      some { f with pendingLeaseKeys := if (removeFound f.pending k).2 then some (removeFound f.pending k).1
        else f.pendingLeaseKeys } := by
  unfold markLeaseAccountedForAdoption
  rw [hf]
  simp only
  split
  · next hr => rw [hr, hf]; rfl
  · next pending hr => rw [hr, Finmap.lookup_insert]; rfl

theorem mark_fence_sorted {p k : String} {f : AdoptionFence} (hf : s.adoptionFences.lookup p = some f)
    (hset : f.pendingLeaseKeys ≠ none) (hsorted : f.pending.Pairwise (· < ·)) :
    (s.markLeaseAccountedForAdoption p k).1.adoptionFences.lookup p =
      some { f with pendingLeaseKeys := some (f.pending.erase k) } := by
  rw [mark_fence hf, removeFound_eq hsorted]
  by_cases hk : k ∈ f.pending
  · simp [hk]
  · simp only [hk, decide_false, Bool.false_eq_true, if_false, List.erase_of_not_mem hk]
    rw [← pendingLeaseKeys_eq hset]

theorem mark_mem_fences {p k id : String} :
    id ∈ (s.markLeaseAccountedForAdoption p k).1.adoptionFences ↔ id ∈ s.adoptionFences := by
  by_cases hid : id = p
  · subst hid
    cases hf : s.adoptionFences.lookup id with
    | none =>
      have : (s.markLeaseAccountedForAdoption id k).1 = s := by
        unfold markLeaseAccountedForAdoption
        rw [hf]
      rw [this]
    | some f =>
      exact iff_of_true (Finmap.mem_of_lookup_eq_some (mark_fence hf)) (Finmap.mem_of_lookup_eq_some hf)
  · rw [Map.mem_iff_lookup, Map.mem_iff_lookup, mark_fence_ne hid]

theorem mark_fencesSet (hset : s.FencesSet) (p k : String) : (s.markLeaseAccountedForAdoption p k).1.FencesSet := by
  intro id f hf
  by_cases hid : id = p
  · subst hid
    cases hold : s.adoptionFences.lookup id with
    | none => exact absurd (mark_mem_fences.mp (Finmap.mem_of_lookup_eq_some hf)) (Finmap.lookup_eq_none.mp hold)
    | some g =>
      rw [mark_fence hold, Option.some.injEq] at hf
      subst hf
      dsimp only
      split
      · simp
      · exact hset id g hold
  · rw [mark_fence_ne hid] at hf
    exact hset id f hf

/-! ## Slots of active leases -/

theorem mem_activeLeaseSlotKeys {leases : Map String Lease} {p k : String} :
    k ∈ activeLeaseSlotKeys leases p ↔
      ∃ key l, leases.lookup key = some l ∧ l.profileID = p ∧ l.status = .active ∧ l.slotKey = k := by
  rw [activeLeaseSlotKeys, mem_sortMultiset, Multiset.mem_map]
  constructor
  · rintro ⟨⟨key, l⟩, he, rfl⟩
    obtain ⟨he, hp, ha⟩ := Multiset.mem_filter.mp he
    exact ⟨key, l, Map.mem_entries_iff.mp he, hp, ha, rfl⟩
  · rintro ⟨key, l, hl, hp, ha, rfl⟩
    exact ⟨⟨key, l⟩, Multiset.mem_filter.mpr ⟨Map.mem_entries_iff.mpr hl, hp, ha⟩, rfl⟩

theorem activeLeaseSlotKeys_sorted {leases : Map String Lease}
    (hkey : ∀ key l, leases.lookup key = some l → key = l.key)
    (p : String) : (activeLeaseSlotKeys leases p).Pairwise (· < ·) := by
  apply sortMultiset_sorted
  refine Multiset.Nodup.map_on ?_ (Multiset.Nodup.filter _ (Finmap.nodup_entries leases))
  rintro ⟨key, l⟩ hl ⟨key', l'⟩ hl' hslot
  obtain ⟨hl, hp, -⟩ := Multiset.mem_filter.mp hl
  obtain ⟨hl', hp', -⟩ := Multiset.mem_filter.mp hl'
  rw [Map.mem_entries_iff] at hl hl'
  simp only at hl hl' hp hp' hslot
  have hkk : key = key' := by
    rw [hkey key l hl, hkey key' l' hl', Lease.key, Lease.key, hp, hp', hslot]
  subst hkk
  rw [hl, Option.some.injEq] at hl'
  rw [hl']

/-! ## Validation -/

structure LeaseValid (key : String) (l : Lease) : Prop where
  key : key = l.key
  profileID : l.profileID ≠ ""
  slotKey : l.slotKey ≠ ""
  units : 1 ≤ l.units
  registrationName : l.registrationName ≠ "" → registrationNamePattern l.registrationName = true
  status : l.status = .provisional ∨ l.status = .active

structure FenceValid (s : DurableState) (id : String) (f : AdoptionFence) : Prop where
  key : id = f.profileID
  profileID : profileIDPattern id = true
  known : s.policy.profile id ≠ none
  set : f.pendingLeaseKeys ≠ none
  nodup : f.pending.Nodup
  slotKey : ∀ k ∈ f.pending, slotKeyPattern k = true
  active : ∀ k ∈ f.pending, ∃ l, s.leases.lookup (leaseKey id k) = some l ∧ l.status = .active

structure DecisionValid (d : Decision) : Prop where
  sequence : 0 ≤ d.sequence
  command : d.command.isLeaseDecision = true
  profileID : profileIDPattern d.profileID = true
  failureCategory : d.failureCategory.valid = true

structure Valid (s : DurableState) : Prop where
  schema : s.schemaVersion = stateSchemaVersion
  epoch : 0 ≤ s.epoch
  sequence : 0 ≤ s.decisionSequence
  policy : 0 < s.policy.generation → s.policy.validate = .ok ()
  leases : ∀ key l, s.leases.lookup key = some l → LeaseValid key l
  tombstones : ∀ key t, s.tombstones.lookup key = some t → key = leaseKey t.profileID t.slotKey
  fences : ∀ id f, s.adoptionFences.lookup id = some f → FenceValid s id f
  disjoint : ∀ key, key ∈ s.leases → key ∉ s.tombstones
  decision : ∀ d, s.lastDecision = some d → DecisionValid d

theorem validateLease_ok {key : String} {l : Lease} {u : Unit} : validateLease key l = .ok u ↔ LeaseValid key l := by
  simp only [validateLease, bind_eq_ok, reject_eq_ok]
  constructor
  · rintro ⟨⟨⟩, hkey, ⟨⟩, hinc, ⟨⟩, hreg, hst⟩
    push Not at hkey hinc hreg hst
    exact ⟨hkey, hinc.1, hinc.2.1, hinc.2.2, fun h => by simpa using hreg h, or_iff_not_imp_left.mpr hst⟩
  · intro h
    refine ⟨(), by simpa using h.key, (), ?_, (), ?_, ?_⟩
    · have := h.units
      rintro (hp | hk | hu)
      · exact h.profileID hp
      · exact h.slotKey hk
      · omega
    · rintro ⟨hne, hpat⟩
      rw [h.registrationName hne] at hpat
      cases hpat
    · rintro ⟨hp, ha⟩
      rcases h.status with hs | hs
      · exact hp hs
      · exact ha hs

theorem validatePending_ok {p : String} {seen slots : List String} {u : Unit} :
    s.validatePending p seen slots = .ok u ↔
      slots.Nodup ∧ (∀ k ∈ slots, k ∉ seen) ∧ (∀ k ∈ slots, slotKeyPattern k = true) ∧
        ∀ k ∈ slots, ∃ l, s.leases.lookup (leaseKey p k) = some l ∧ l.status = .active := by
  induction slots generalizing seen with
  | nil => simp [validatePending]
  | cons k slots ih =>
    simp only [validatePending, bind_eq_ok, reject_eq_ok, ih, List.nodup_cons, List.forall_mem_cons]
    have hact : (¬(s.leases.lookup (leaseKey p k)).all (·.status ≠ .active) = true) ↔
        ∃ l, s.leases.lookup (leaseKey p k) = some l ∧ l.status = .active := by
      cases s.leases.lookup (leaseKey p k) with
      | none => simp
      | some l => simp
    rw [hact]
    constructor
    · rintro ⟨⟨⟩, hpat, ⟨⟩, hseen, ⟨⟩, hl, hn, hns, hpats, hls⟩
      refine ⟨⟨fun hk => hns k hk List.mem_cons_self, hn⟩, ⟨hseen, fun j hj hj' => ?_⟩,
        ⟨by simpa using hpat, hpats⟩, hl, hls⟩
      exact hns j hj (List.mem_cons_of_mem k hj')
    · rintro ⟨⟨hk, hn⟩, ⟨hseen, hns⟩, ⟨hpat, hpats⟩, hl, hls⟩
      refine ⟨(), by simpa using hpat, (), hseen, (), hl, hn, fun j hj hj' => ?_, hpats, hls⟩
      rcases List.mem_cons.mp hj' with rfl | hj'
      · exact hk hj
      · exact hns j hj hj'

theorem validateFence_ok {id : String} {f : AdoptionFence} {u : Unit} :
    s.validateFence id f = .ok u ↔ FenceValid s id f := by
  simp only [validateFence, bind_eq_ok, reject_eq_ok, validatePending_ok]
  constructor
  · rintro ⟨⟨⟩, hkey, ⟨⟩, hpat, ⟨⟩, hknown, ⟨⟩, hset, hn, -, hpats, hls⟩
    exact ⟨by simpa using hkey, by simpa using hpat, hknown, hset, hn, hpats, hls⟩
  · intro h
    exact ⟨(), by simpa using h.key, (), by simpa using h.profileID, (), h.known, (), h.set,
      h.nodup, by simp, h.slotKey, h.active⟩

theorem validateDecision_ok {d : Decision} {u : Unit} : validateDecision d = .ok u ↔ DecisionValid d := by
  simp only [validateDecision, bind_eq_ok, reject_eq_ok]
  constructor
  · rintro ⟨⟨⟩, hseq, ⟨⟩, hcmd, ⟨⟩, hid, hcode⟩
    exact ⟨by omega, by simpa using hcmd, by simpa using hid, by simpa using hcode⟩
  · intro h
    have := h.sequence
    exact ⟨(), by omega, (), by simpa using h.command, (), by simpa using h.profileID, by simpa using h.failureCategory⟩

theorem isOk_false_iff {x : Except Err Unit} : x.isOk = false ↔ x ≠ .ok () := by
  cases x with
  | ok u => simp [Except.isOk, Except.toBool]
  | error e => simp [Except.isOk, Except.toBool]

theorem validate_ok {u : Unit} : s.validate o = .ok u ↔ s.Valid := by
  simp only [validate, bind_eq_ok, reject_eq_ok, checkAll_eq_ok, validateLease_ok, validateFence_ok,
    validateDecision_ok,
    validateTombstone, isOk_false_iff, not_and, not_not, Map.mem_entriesIn, Prod.forall, Option.mem_toList, not_or,
    not_lt, gt_iff_lt]
  constructor
  · rintro ⟨⟨⟩, hschema, ⟨⟩, ⟨hepoch, hseq⟩, ⟨⟩, hpolicy, ⟨⟩, hleases, ⟨⟩, htombs, ⟨⟩, hfences, ⟨⟩, hdisj, hdec⟩
    refine ⟨hschema, hepoch, hseq, hpolicy, hleases, htombs, hfences, fun key hkey => ?_, fun d hd => hdec d hd⟩
    obtain ⟨l, hl⟩ := Finmap.mem_iff.mp hkey
    exact hdisj key l hl
  · intro h
    exact ⟨(), h.schema, (), ⟨h.epoch, h.sequence⟩, (), h.policy, (), h.leases, (), h.tombstones, (), h.fences, (),
      fun key l hl => h.disjoint key (Finmap.mem_of_lookup_eq_some hl), fun d hd => h.decision d hd⟩

theorem Valid.fencesSet (h : s.Valid) : s.FencesSet := fun id f hf => (h.fences id f hf).set

theorem upgrade_of_schema (h : s.schemaVersion = stateSchemaVersion) : s.upgrade = s := by
  unfold upgrade
  rw [if_neg]
  rw [h]
  decide

end PitCrew.Admission.DurableState
