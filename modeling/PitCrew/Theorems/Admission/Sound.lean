import PitCrew.Theorems.Admission.World

/-! # The sound ledger

What an act does to the lease under a key and to the tombstones, and two invariants of the ledger. A
valid ledger stays so if the costs of its policy are positive, the slots of its active leases match their
pattern and the pending slots of its fences are in order (`Tidy`). Every ledger that a service started
without a document reaches is tidy, its identities match their patterns and its sequences are those of
decisions taken (`Sound`). -/

namespace PitCrew.Admission
open Base Coordinator

/-! ## The life of a lease -/

/-- `l'` is `l` later in its life: only its status, its times and an empty registration name change. -/
structure Lease.Continues (l l' : Lease) : Prop where
  profileID : l'.profileID = l.profileID
  slotKey : l'.slotKey = l.slotKey
  leaseID : l'.leaseID = l.leaseID
  units : l'.units = l.units
  grantedAtSequence : l'.grantedAtSequence = l.grantedAtSequence
  bound : l.registrationName ≠ "" → l'.registrationName = l.registrationName
  registrationName : l'.registrationName = l.registrationName ∨ registrationNamePattern l'.registrationName = true
  active : l.status = .active → l'.status = .active ∧ l'.activatedAtSequence = l.activatedAtSequence
  status : l'.status = l.status ∨ l'.status = .active

theorem Lease.Continues.refl (l : Lease) : l.Continues l :=
  ⟨rfl, rfl, rfl, rfl, rfl, fun _ => rfl, Or.inl rfl, fun h => ⟨h, rfl⟩, Or.inl rfl⟩

/-- `l` is the lease that the next decision on `s` makes for a slot. -/
structure Lease.MadeOn (l : Lease) (s : DurableState) (p k : String) (units : Int) : Prop where
  profileID : l.profileID = p
  slotKey : l.slotKey = k
  leaseID : l.leaseID = leaseIDOf (leaseKey p k) (s.decisionSequence + 1)
  units : l.units = units
  grantedAtSequence : l.grantedAtSequence = s.decisionSequence + 1
  registrationName : l.registrationName = ""
  status : l.status = .provisional ∨ l.status = .active

structure Makes (a : Act) (s : DurableState) (p k : String) (l : Lease) : Prop where
  act : a = .grant p k l ∨ a = .create p k l
  profileID : profileIDPattern p = true
  slotKey : slotKeyPattern k = true
  absent : s.leases.lookup (leaseKey p k) = none
  made : ∃ pp, s.policy.profile p = some pp ∧ l.MadeOn s p k pp.unitCost

section Lease
variable {env : Env} {a : Act} {c c' : Coordinator}

theorem activated_continues (l : Lease) (n : Int) (h : l.status ≠ .active) : l.Continues (activated l n) :=
  ⟨rfl, rfl, rfl, rfl, rfl, fun _ => rfl, Or.inl rfl, fun ha => absurd ha h, Or.inr rfl⟩

theorem bound_continues (l : Lease) {name : String} (h : l.registrationName = "")
    (hname : registrationNamePattern name = true) :
    l.Continues { l with registrationName := name } :=
  ⟨rfl, rfl, rfl, rfl, rfl, fun hb => absurd h hb, Or.inr hname, fun ha => ⟨ha, rfl⟩, Or.inl rfl⟩

theorem renewed_continues (l : Lease) (n : Int) : l.Continues { l with expiresAtUnixNano := n } :=
  ⟨rfl, rfl, rfl, rfl, rfl, fun _ => rfl, Or.inl rfl, fun ha => ⟨ha, rfl⟩, Or.inl rfl⟩

theorem Took.leases_cases (h : Took env a c c') :
    c'.state.leases = c.state.leases ∨
      (∃ p k l, Makes a c.state p k l ∧ c'.state.leases = c.state.leases.insert (leaseKey p k) l) ∨
      (∃ p k l l', c.state.leases.lookup (leaseKey p k) = some l ∧ l.Continues l' ∧
        c'.state.leases = c.state.leases.insert (leaseKey p k) l') ∨
      ∃ p k t l, a = .remove p k t ∧ c.state.leases.lookup (leaseKey p k) = some l ∧
        c'.state.leases = c.state.leases.erase (leaseKey p k) := by
  rw [h.leaves.leases]
  cases h with
  | policy | fence | unfence | keep | account | gone => exact Or.inl rfl
  | @grant _ p k pp _ _ hp hk _ absent known _ =>
    exact Or.inr (Or.inl ⟨p, k, _, ⟨Or.inl rfl, hp, hk, absent, pp, known, rfl, rfl, rfl, rfl, rfl, rfl,
      Or.inl rfl⟩, rfl⟩)
  | @create _ p k pp _ hp hk absent known =>
    exact Or.inr (Or.inl ⟨p, k, _, ⟨Or.inr rfl, hp, hk, absent, pp, known, rfl, rfl, rfl, rfl, rfl, rfl,
      Or.inr rfl⟩, rfl⟩)
  | @bind _ p k _ l _ _ _ lease unbound valid =>
    exact Or.inr (Or.inr (Or.inl ⟨p, k, l, _, lease, bound_continues l unbound valid, rfl⟩))
  | @renew _ p k l _ _ _ lease _ =>
    exact Or.inr (Or.inr (Or.inl ⟨p, k, l, _, lease, renewed_continues l _, rfl⟩))
  | @promote _ p k l _ _ _ lease inactive =>
    exact Or.inr (Or.inr (Or.inl ⟨p, k, l, _, lease, activated_continues l _ inactive, rfl⟩))
  | @activate _ p k l _ _ _ lease inactive =>
    exact Or.inr (Or.inr (Or.inl ⟨p, k, l, _, lease, activated_continues l _ inactive, rfl⟩))
  | @remove _ p k l t _ _ _ lease _ => exact Or.inr (Or.inr (Or.inr ⟨p, k, t, l, rfl, lease, rfl⟩))

theorem Took.lease_cases (h : Took env a c c') (key : String) :
    c'.state.leases.lookup key = c.state.leases.lookup key ∨
      (∃ p k l, key = leaseKey p k ∧ c'.state.leases.lookup key = some l ∧ Makes a c.state p k l) ∨
      (∃ l l', c.state.leases.lookup key = some l ∧ c'.state.leases.lookup key = some l' ∧ l.Continues l') ∨
      ∃ p k t, a = .remove p k t ∧ key = leaseKey p k ∧ c'.state.leases.lookup key = none := by
  rcases h.leases_cases with
    hsame | ⟨p, k, l, makes, hnew⟩ | ⟨p, k, l, l', lease, continues, hnew⟩ | ⟨p, k, t, l, rfl, -, hnew⟩
  · exact Or.inl (by rw [hsame])
  · rw [hnew]
    by_cases hkey : key = leaseKey p k
    · exact Or.inr (Or.inl ⟨p, k, l, hkey, by rw [hkey]; exact Finmap.lookup_insert _, makes⟩)
    · exact Or.inl (Finmap.lookup_insert_of_ne _ hkey)
  · rw [hnew]
    by_cases hkey : key = leaseKey p k
    · subst hkey
      exact Or.inr (Or.inr (Or.inl ⟨l, l', lease, Finmap.lookup_insert _, continues⟩))
    · exact Or.inl (Finmap.lookup_insert_of_ne _ hkey)
  · rw [hnew]
    by_cases hkey : key = leaseKey p k
    · exact Or.inr (Or.inr (Or.inr ⟨p, k, t, rfl, hkey, by rw [hkey]; exact Finmap.lookup_erase _ _⟩))
    · exact Or.inl (Finmap.lookup_erase_ne hkey)

/-- A tombstone after an act was there before, under a key that the act gave no lease, or it is that of
    the lease the act removed. -/
theorem Took.tombstone_cases (h : Took env a c c') {key : String} {t : Tombstone}
    (ht : c'.state.tombstones.lookup key = some t) :
    (c.state.tombstones.lookup key = some t ∧ (c.state.leases.lookup key = none → c'.state.leases.lookup key = none)) ∨
      ∃ p k, a = .remove p k t ∧ key = leaseKey p k ∧ t.profileID = p ∧ t.slotKey = k ∧
        t.sequence = c.state.decisionSequence + 1 := by
  have erased {p k : String} {l : Lease} (ht : (c.state.tombstones.erase (leaseKey p k)).lookup key = some t) :
      c.state.tombstones.lookup key = some t ∧
        (c.state.leases.lookup key = none → (c.state.leases.insert (leaseKey p k) l).lookup key = none) := by
    rw [Map.lookup_erase_ite] at ht
    split at ht
    · cases ht
    · next hkey => exact ⟨ht, fun habs => by rw [Finmap.lookup_insert_of_ne _ hkey]; exact habs⟩
  have kept {p k : String} {l l' : Lease} (lease : c.state.leases.lookup (leaseKey p k) = some l)
      (ht : c.state.tombstones.lookup key = some t) :
      c.state.tombstones.lookup key = some t ∧
        (c.state.leases.lookup key = none → (c.state.leases.insert (leaseKey p k) l').lookup key = none) := by
    refine ⟨ht, fun habs => ?_⟩
    rw [Finmap.lookup_insert_of_ne, habs]
    rintro rfl
    rw [lease] at habs
    cases habs
  rw [h.leaves.leases]
  cases h with
  | policy | fence | unfence | keep | gone => exact Or.inl ⟨ht, id⟩
  | account _ _ _ _ _ next =>
    rcases next with ⟨rfl, -⟩ | rfl
    · exact Or.inl ⟨ht, id⟩
    · refine Or.inl ⟨?_, id⟩
      change (DurableState.markLeaseAccountedForAdoption _ _ _).1.tombstones.lookup key = some t at ht
      rwa [DurableState.mark_tombstones] at ht
  | grant => exact Or.inl (erased ht)
  | promote | create =>
    change (DurableState.markLeaseAccountedForAdoption _ _ _).1.tombstones.lookup key = some t at ht
    rw [DurableState.mark_tombstones] at ht
    exact Or.inl (erased ht)
  | bind _ _ _ lease _ _ => exact Or.inl (kept lease ht)
  | renew _ _ _ lease _ => exact Or.inl (kept lease ht)
  | activate _ _ _ lease _ => exact Or.inl (kept lease ht)
  | @remove _ p k l t' _ _ _ lease tombstone =>
    have ht := DurableState.compact_lookup ht
    dsimp only at ht
    rw [Map.lookup_insert_ite, DurableState.mark_tombstones] at ht
    split at ht
    · next hkey =>
      cases ht
      exact Or.inr ⟨p, k, rfl, hkey, tombstone.1, tombstone.2.1, tombstone.2.2.2⟩
    · refine Or.inl ⟨ht, fun habs => ?_⟩
      rw [Act.leases, Map.lookup_erase_ite]
      split
      · rfl
      · exact habs

end Lease

/-! ## The invariant -/

/-- What a valid ledger needs so that every operation leaves a valid one. -/
structure DurableState.Tidy (s : DurableState) : Prop where
  valid : s.Valid
  costs : ∀ pp ∈ s.policy.profiles, 1 ≤ pp.unitCost
  slots : ∀ key l, s.leases.lookup key = some l → l.status = .active → profileIDPattern l.profileID = true →
    slotKeyPattern l.slotKey = true
  pending : ∀ id f, s.adoptionFences.lookup id = some f → f.pending.Pairwise (· < ·)

structure DurableState.LeaseSound (s : DurableState) (key : String) (l : Lease) : Prop where
  valid : LeaseValid key l
  profileID : profileIDPattern l.profileID = true
  slotKey : slotKeyPattern l.slotKey = true
  leaseID : l.leaseID = leaseIDOf key l.grantedAtSequence
  granted : l.grantedAtSequence ≤ s.decisionSequence

structure DurableState.Sound (s : DurableState) : Prop where
  valid : s.Valid
  policy : s.policy = {} ∨ s.policy.validate = .ok ()
  leases : ∀ key l, s.leases.lookup key = some l → s.LeaseSound key l
  tombstones : ∀ key t, s.tombstones.lookup key = some t → t.sequence ≤ s.decisionSequence
  distinct : ∀ key key' t t', s.tombstones.lookup key = some t → s.tombstones.lookup key' = some t' →
    t.sequence = t'.sequence → key = key'
  pending : ∀ id f, s.adoptionFences.lookup id = some f → f.pending.Pairwise (· < ·)

namespace DurableState

variable {s : DurableState}

theorem LeaseSound.key {key : String} {l : Lease} (h : s.LeaseSound key l) :
    key = leaseKey l.profileID l.slotKey := h.valid.key

theorem LeaseSound.slot {p k : String} {l : Lease} (h : s.LeaseSound (leaseKey p k) l)
    (hp : profileIDPattern p = true) :
    l.profileID = p ∧ l.slotKey = k := by
  obtain ⟨hpp, hkk⟩ := leaseKey_inj hp h.profileID h.key
  exact ⟨hpp.symm, hkk.symm⟩

theorem LeaseSound.mono {s' : DurableState} {key : String} {l : Lease} (h : s.LeaseSound key l)
    (hseq : s.decisionSequence ≤ s'.decisionSequence) : s'.LeaseSound key l :=
  ⟨h.valid, h.profileID, h.slotKey, h.leaseID, h.granted.trans hseq⟩

theorem LeaseValid.continues {key : String} {l l' : Lease} (h : LeaseValid key l) (hc : l.Continues l') :
    LeaseValid key l' := by
  have hkey : l'.key = l.key := by rw [Lease.key, Lease.key, hc.profileID, hc.slotKey]
  refine ⟨?_, ?_, ?_, ?_, ?_, ?_⟩
  · rw [hkey]
    exact h.key
  · rw [hc.profileID]
    exact h.profileID
  · rw [hc.slotKey]
    exact h.slotKey
  · rw [hc.units]
    exact h.units
  · intro hne
    rcases hc.registrationName with hr | hr
    · rw [hr] at hne ⊢
      exact h.registrationName hne
    · exact hr
  · rcases hc.status with hs | hs
    · rw [hs]
      exact h.status
    · exact Or.inr hs

theorem LeaseSound.continues {s' : DurableState} {key : String} {l l' : Lease} (h : s.LeaseSound key l)
    (hc : l.Continues l') (hseq : s.decisionSequence ≤ s'.decisionSequence) : s'.LeaseSound key l' := by
  refine ⟨h.valid.continues hc, ?_, ?_, ?_, ?_⟩
  · rw [hc.profileID]
    exact h.profileID
  · rw [hc.slotKey]
    exact h.slotKey
  · rw [hc.leaseID, hc.grantedAtSequence]
    exact h.leaseID
  · rw [hc.grantedAtSequence]
    exact h.granted.trans hseq

theorem Sound.tidy (h : s.Sound) : s.Tidy where
  valid := h.valid
  costs pp hpp := by
    rcases h.policy with hp | hp
    · rw [hp] at hpp
      cases hpp
    · exact ((HostPolicy.valid_of_validate hp).profiles pp hpp).unitCost
  slots key l hl _ _ := (h.leases key l hl).slotKey
  pending := h.pending

theorem Sound.policyValid (h : s.Sound) {p : String} {pp : ProfilePolicy} (known : s.policy.profile p = some pp) :
    s.policy.Valid := by
  rcases h.policy with hp | hp
  · rw [hp] at known
    cases known
  · exact HostPolicy.valid_of_validate hp

theorem Sound.profile (h : s.Sound) {p : String} {pp : ProfilePolicy} (known : s.policy.profile p = some pp) :
    profileIDPattern p = true ∧ 1 ≤ pp.unitCost := by
  have hv := (h.policyValid known).profile known
  exact ⟨(HostPolicy.profile_some known).2 ▸ hv.profileID, hv.unitCost⟩

theorem newDurableState_sound : newDurableState.Sound where
  valid := newDurableState_valid
  policy := Or.inl rfl
  leases _ _ h := by cases h
  tombstones _ _ h := by cases h
  distinct _ _ _ _ h := by cases h
  pending _ _ h := by cases h

end DurableState

/-! ## Acts keep the ledger tidy -/

section Tidy
variable {env : Env} {a : Act} {c c' : Coordinator}

theorem Took.sequence_le (h : Took env a c c') : c.state.decisionSequence ≤ c'.state.decisionSequence := by
  rw [h.leaves.sequence]
  omega

theorem Makes.decisions {s : DurableState} {p k : String} {l : Lease} (h : Makes a s p k l) : a.decisions = 1 := by
  rcases h.act with rfl | rfl <;> rfl

theorem Makes.valid {s : DurableState} {p k : String} {l : Lease} (h : Makes a s p k l)
    (hs : ∀ pp ∈ s.policy.profiles, 1 ≤ pp.unitCost) : DurableState.LeaseValid (leaseKey p k) l := by
  obtain ⟨pp, known, made⟩ := h.made
  refine ⟨?_, ?_, ?_, ?_, fun hne => absurd made.registrationName hne, made.status⟩
  · rw [Lease.key, made.profileID, made.slotKey]
  · rw [made.profileID]
    exact profileID_ne_empty h.profileID
  · rw [made.slotKey]
    exact slotKey_ne_empty h.slotKey
  · rw [made.units]
    exact hs pp (HostPolicy.profile_some known).1

theorem Took.leases_valid (h : Took env a c c') (hs : c.state.Tidy) (key : String) (l' : Lease)
    (hl : c'.state.leases.lookup key = some l') : DurableState.LeaseValid key l' := by
  rcases h.lease_cases key with hsame | ⟨p, k, l, hkey, hnew, makes⟩ | ⟨l, l'', hold, hnew, hc⟩ | ⟨p, k, t, -, -, hnone⟩
  · rw [hsame] at hl
    exact hs.valid.leases key l' hl
  · rw [hnew, Option.some.injEq] at hl
    subst hl hkey
    exact makes.valid hs.costs
  · rw [hnew, Option.some.injEq] at hl
    subst hl
    exact (hs.valid.leases key l hold).continues hc
  · rw [hnone] at hl
    cases hl

theorem Took.active_cases (h : Took env a c c') {key : String} {l' : Lease} (hl : c'.state.leases.lookup key = some l')
    (hactive : l'.status = .active) :
    (∃ l, c.state.leases.lookup key = some l ∧ l.status = .active ∧ l.Continues l') ∨
      ∃ p k, key = leaseKey p k ∧ profileIDPattern p = true ∧ slotKeyPattern k = true := by
  rw [h.leaves.leases] at hl
  have inserted {p k : String} {l : Lease} (hp : profileIDPattern p = true) (hk : slotKeyPattern k = true)
      (hl : (c.state.leases.insert (leaseKey p k) l).lookup key = some l') :
      (∃ l, c.state.leases.lookup key = some l ∧ l.status = .active ∧ l.Continues l') ∨
        ∃ p k, key = leaseKey p k ∧ profileIDPattern p = true ∧ slotKeyPattern k = true := by
    rw [Map.lookup_insert_ite] at hl
    split at hl
    · next hkey => exact Or.inr ⟨p, k, hkey, hp, hk⟩
    · exact Or.inl ⟨l', hl, hactive, .refl l'⟩
  cases h with
  | grant _ hp hk => exact inserted hp hk hl
  | bind _ hp hk => exact inserted hp hk hl
  | promote _ hp hk => exact inserted hp hk hl
  | create _ hp hk => exact inserted hp hk hl
  | renew _ hp hk => exact inserted hp hk hl
  | activate _ hp hk => exact inserted hp hk hl
  | remove =>
    rw [Act.leases, Map.lookup_erase_ite] at hl
    split at hl
    · cases hl
    · exact Or.inl ⟨l', hl, hactive, .refl l'⟩
  | _ => exact Or.inl ⟨l', hl, hactive, .refl l'⟩

theorem Took.slots (h : Took env a c c') (hs : c.state.Tidy) (key : String) (l' : Lease)
    (hl : c'.state.leases.lookup key = some l') (hactive : l'.status = .active)
    (hpat : profileIDPattern l'.profileID = true) : slotKeyPattern l'.slotKey = true := by
  rcases h.active_cases hl hactive with ⟨l, hold, hbefore, hc⟩ | ⟨p, k, hkey, hp, hk⟩
  · rw [hc.slotKey]
    exact hs.slots key l hold hbefore (hc.profileID ▸ hpat)
  · obtain ⟨-, hslot⟩ := leaseKey_inj hpat hp ((h.leases_valid hs key l' hl).key.symm.trans hkey)
    rw [hslot]
    exact hk

theorem Took.policy_cases (h : Took env a c c') :
    c'.state.policy = c.state.policy ∨ c'.state.policy.validate = .ok () := by
  rw [h.leaves.policy]
  cases h with
  | policy valid _ => exact Or.inr valid
  | _ => exact Or.inl rfl

theorem Took.costs (h : Took env a c c') (hs : c.state.Tidy) : ∀ pp ∈ c'.state.policy.profiles, 1 ≤ pp.unitCost := by
  rcases h.policy_cases with hp | hp
  · rw [hp]
    exact hs.costs
  · exact fun pp hpp => ((HostPolicy.valid_of_validate hp).profiles pp hpp).unitCost

theorem Took.fence_cases (h : Took env a c c') (hs : c.state.Tidy) {id : String} {f : AdoptionFence}
    (hf : c'.state.adoptionFences.lookup id = some f) :
    (a = .fence id ∧ f =
      { profileID := id, pendingLeaseKeys := some (DurableState.activeLeaseSlotKeys c.state.leases id) }) ∨
      ((∀ k, a.accountsFor ≠ some (id, k)) ∧ c.state.adoptionFences.lookup id = some f) ∨
      ∃ k g, a.accountsFor = some (id, k) ∧ c.state.adoptionFences.lookup id = some g ∧
        f = { g with pendingLeaseKeys := some (g.pending.erase k) } := by
  rw [h.leaves.fences] at hf
  rcases a.fences_cases hf with hnew | hold | ⟨k, hk, hmark⟩
  · exact Or.inl hnew
  · exact Or.inr (Or.inl hold)
  · obtain ⟨g, hg⟩ := Finmap.mem_iff.mp (DurableState.mark_mem_fences.mp (Finmap.mem_of_lookup_eq_some hmark))
    rw [DurableState.mark_fence_sorted hg (hs.valid.fences id g hg).set (hs.pending id g hg),
      Option.some.injEq] at hmark
    exact Or.inr (Or.inr ⟨k, g, hk, hg, hmark.symm⟩)

theorem Took.continues_or_removed (h : Took env a c c') {key : String} {l : Lease}
    (hl : c.state.leases.lookup key = some l) :
    (∃ l', c'.state.leases.lookup key = some l' ∧ l.Continues l') ∨
      ∃ p k t, a = .remove p k t ∧ key = leaseKey p k ∧ profileIDPattern p = true ∧ slotKeyPattern k = true := by
  rcases h.lease_cases key with hsame | ⟨p, k, l', hkey, -, makes⟩ | ⟨l₁, l', hold, hnew, hc⟩ | ⟨p, k, t, rfl, hkey, -⟩
  · exact Or.inl ⟨l, hsame.trans hl, .refl l⟩
  · have := makes.absent
    rw [← hkey, hl] at this
    cases this
  · rw [hl, Option.some.injEq] at hold
    exact Or.inl ⟨l', hnew, hold ▸ hc⟩
  · cases h with
    | remove _ hp hk => exact Or.inr ⟨p, k, t, rfl, hkey, hp, hk⟩

theorem Took.active_kept (h : Took env a c c') {id k : String} (hid : profileIDPattern id = true) {l : Lease}
    (hl : c.state.leases.lookup (leaseKey id k) = some l) (hactive : l.status = .active)
    (hrem : ∀ t, a ≠ .remove id k t) :
    ∃ l', c'.state.leases.lookup (leaseKey id k) = some l' ∧ l'.status = .active := by
  rcases h.continues_or_removed hl with ⟨l', hl', hc⟩ | ⟨p, j, t, ha, hkey, hp, -⟩
  · exact ⟨l', hl', (hc.active hactive).1⟩
  · obtain ⟨rfl, rfl⟩ := leaseKey_inj hid hp hkey
    exact absurd ha (hrem t)

theorem Took.pending_sorted (h : Took env a c c') (hs : c.state.Tidy) {id : String} {f : AdoptionFence}
    (hf : c'.state.adoptionFences.lookup id = some f) : f.pending.Pairwise (· < ·) := by
  rcases h.fence_cases hs hf with ⟨-, rfl⟩ | ⟨-, hold⟩ | ⟨k, g, -, hg, rfl⟩
  · exact DurableState.activeLeaseSlotKeys_sorted (fun key l hl => (hs.valid.leases key l hl).key) id
  · exact hs.pending id f hold
  · exact (hs.pending id g hg).sublist List.erase_sublist

theorem Took.fences_known (h : Took env a c c') (hs : c.state.Tidy) {id : String} {f : AdoptionFence}
    (hf : c'.state.adoptionFences.lookup id = some f) : c'.state.policy.profile id ≠ none := by
  have hold : c.state.policy.profile id ≠ none ∨ a = .fence id := by
    rcases h.fence_cases hs hf with ⟨ha, -⟩ | ⟨-, hold⟩ | ⟨_, g, -, hg, -⟩
    · exact Or.inr ha
    · exact Or.inl (hs.valid.fences id f hold).known
    · exact Or.inl (hs.valid.fences id g hg).known
  rw [h.leaves.fences] at hf
  rw [h.leaves.policy]
  cases h with
  | policy =>
    rw [Act.fences, Map.lookup_filterKeys] at hf
    split at hf
    · next hsome => exact Option.isSome_iff_ne_none.mp hsome
    · cases hf
  | fence _ known _ =>
    rcases hold with hk | ha
    · exact hk
    · cases ha
      exact known
  | _ => exact hold.resolve_right fun heq => by cases heq

theorem Took.fences_valid (h : Took env a c c') (hs : c.state.Tidy) (id : String) (f : AdoptionFence)
    (hf : c'.state.adoptionFences.lookup id = some f) : DurableState.FenceValid c'.state id f := by
  have known := h.fences_known hs hf
  rcases h.fence_cases hs hf with ⟨rfl, rfl⟩ | ⟨hnot, hold⟩ | ⟨k, g, hk, hg, rfl⟩
  · cases h with
    | fence valid _ _ =>
      have hmem {k : String} (hk : k ∈ DurableState.activeLeaseSlotKeys c.state.leases id) :
          slotKeyPattern k = true ∧ ∃ l, c.state.leases.lookup (leaseKey id k) = some l ∧ l.status = .active := by
        obtain ⟨key, l, hl, rfl, hactive, rfl⟩ := DurableState.mem_activeLeaseSlotKeys.mp hk
        have hkey : key = leaseKey l.profileID l.slotKey := (hs.valid.leases key l hl).key
        exact ⟨hs.slots key l hl hactive valid, l, hkey ▸ hl, hactive⟩
      exact ⟨rfl, valid, known, by simp, (DurableState.activeLeaseSlotKeys_sorted
        (fun key l hl => (hs.valid.leases key l hl).key) id).imp ne_of_lt, fun k hk => (hmem hk).1,
          fun k hk => (hmem hk).2⟩
  · have hfence := hs.valid.fences id f hold
    refine ⟨hfence.key, hfence.profileID, known, hfence.set, hfence.nodup, hfence.slotKey, fun k hk => ?_⟩
    obtain ⟨l, hl, hactive⟩ := hfence.active k hk
    refine h.active_kept hfence.profileID hl hactive ?_
    rintro t rfl
    exact hnot k rfl
  · have hfence := hs.valid.fences id g hg
    refine ⟨hfence.key, hfence.profileID, known, by simp, hfence.nodup.erase k, fun j hj => ?_, fun j hj => ?_⟩
    · exact hfence.slotKey j (List.mem_of_mem_erase hj)
    · obtain ⟨l, hl, hactive⟩ := hfence.active j (List.mem_of_mem_erase hj)
      refine h.active_kept hfence.profileID hl hactive ?_
      -- a removed slot is no longer pending
      rintro t rfl
      cases hk
      exact (List.Nodup.mem_erase_iff hfence.nodup).mp hj |>.1 rfl

theorem Took.disjoint (h : Took env a c c') (hs : c.state.Valid) (key : String) (hkey : key ∈ c'.state.leases) :
    key ∉ c'.state.tombstones := by
  intro htomb
  obtain ⟨t, ht⟩ := Finmap.mem_iff.mp htomb
  rcases h.tombstone_cases ht with ⟨hold, habsent⟩ | ⟨p, k, rfl, rfl, -, -, -⟩
  · have hnone : c.state.leases.lookup key = none := by
      by_contra hne
      exact hs.disjoint key (Map.mem_iff_lookup.mpr hne) (Finmap.mem_of_lookup_eq_some hold)
    exact Map.mem_iff_lookup.mp hkey (habsent hnone)
  · rw [Map.mem_iff_lookup, h.leaves.leases] at hkey
    exact hkey (Finmap.lookup_erase _ _)

theorem Took.tombstones_keyed (h : Took env a c c') (hs : c.state.Valid) (key : String) (t : Tombstone)
    (ht : c'.state.tombstones.lookup key = some t) : key = leaseKey t.profileID t.slotKey := by
  rcases h.tombstone_cases ht with ⟨hold, -⟩ | ⟨p, k, -, rfl, rfl, rfl, -⟩
  · exact hs.tombstones key t hold
  · rfl

theorem Took.tidy (h : Took env a c c') (hs : c.state.Tidy) : c'.state.Tidy where
  valid :=
    { schema := h.leaves.schema.trans hs.valid.schema
      epoch := by
        have := hs.valid.epoch
        rw [h.leaves.epoch]
        omega
      sequence := hs.valid.sequence.trans h.sequence_le
      policy := by
        rcases h.policy_cases with hp | hp
        · rw [hp]
          exact hs.valid.policy
        · exact fun _ => hp
      leases := h.leases_valid hs
      tombstones := h.tombstones_keyed hs.valid
      fences := h.fences_valid hs
      disjoint := h.disjoint hs.valid
      decision := fun d hd => hs.valid.decision d (h.leaves.decision ▸ hd) }
  costs := h.costs hs
  slots := h.slots hs
  pending := fun _ _ hf => h.pending_sorted hs hf

end Tidy

namespace DurableState

variable {s : DurableState}

theorem Tidy.discardAll (h : s.Tidy) {reason : TombstoneReason} {l : List (String × Lease)}
    (hl : (l.map Prod.fst).Nodup)
    (hlook : ∀ e ∈ l, s.leases.lookup e.1 = some e.2 ∧ e.2.status = .provisional) (o : RangeOrder String) :
    ((s.discardAll reason l).compactTombstones o).Tidy where
  valid := h.valid.discardAll hl hlook o
  costs := by
    rw [compact_policy, discardAll_frame]
    exact h.costs
  slots := by
    intro key lease hk
    rw [compact_leases, discardAll_leases] at hk
    split at hk
    · cases hk
    · exact h.slots key lease hk
  pending := by
    intro id f hf
    rw [compact_fences, discardAll_frame] at hf
    exact h.pending id f hf

theorem Tidy.record (h : s.Tidy) {d : Decision} (on : d.On s) : Tidy { s with lastDecision := some d } where
  valid := { h.valid with
    leases := h.valid.leases
    fences := fun id f hf =>
      let hv := h.valid.fences id f hf
      ⟨hv.key, hv.profileID, hv.known, hv.set, hv.nodup, hv.slotKey, hv.active⟩
    decision := fun d' hd => by
      cases hd
      exact ⟨on.sequence ▸ h.valid.sequence, on.command, on.profileID, on.failureCategory⟩ }
  costs := h.costs
  slots := h.slots
  pending := h.pending

end DurableState

theorem tidy_kept : Kept DurableState.Tidy where
  swept env h := h.discardAll expiredLeases_nodup (fun _ he =>
    ⟨(mem_expiredLeases.mp he).1, (mem_expiredLeases.mp he).2.1⟩)
    env.order
  act took h := took.tidy h
  record on h := h.record on
  pruned o _ h := h.discardAll DurableState.restoredProvisionals_nodup
    (fun _ he => DurableState.mem_restoredProvisionals.mp he) o

/-! ## Acts keep the ledger sound -/

section Acts
variable {env : Env} {a : Act} {c c' : Coordinator}

theorem Took.leases_sound (h : Took env a c c') (hs : c.state.Sound) (key : String) (l' : Lease)
    (hl : c'.state.leases.lookup key = some l') : c'.state.LeaseSound key l' := by
  rcases h.lease_cases key with hsame | ⟨p, k, l, hkey, hnew, makes⟩ | ⟨l, l'', hold, hnew, hc⟩ | ⟨p, k, t, -, -, hnone⟩
  · rw [hsame] at hl
    exact (hs.leases key l' hl).mono h.sequence_le
  · rw [hnew, Option.some.injEq] at hl
    subst hl hkey
    obtain ⟨pp, -, made⟩ := makes.made
    have hseq := h.leaves.sequence
    rw [makes.decisions, Nat.cast_one] at hseq
    refine ⟨makes.valid hs.tidy.costs, ?_, ?_, ?_, ?_⟩
    · rw [made.profileID]
      exact makes.profileID
    · rw [made.slotKey]
      exact makes.slotKey
    · rw [made.leaseID, made.grantedAtSequence]
    · rw [made.grantedAtSequence, hseq]
  · rw [hnew, Option.some.injEq] at hl
    subst hl
    exact (hs.leases key l hold).continues hc h.sequence_le
  · rw [hnone] at hl
    cases hl

theorem Took.tombstones_sound (h : Took env a c c') (hs : c.state.Sound) {key : String} {t : Tombstone}
    (ht : c'.state.tombstones.lookup key = some t) : t.sequence ≤ c'.state.decisionSequence := by
  rcases h.tombstone_cases ht with ⟨hold, -⟩ | ⟨p, k, rfl, rfl, rfl, rfl, hseq⟩
  · exact (hs.tombstones key t hold).trans h.sequence_le
  · rw [h.leaves.sequence, hseq]
    exact le_refl _

theorem Took.tombstones_distinct (h : Took env a c c') (hs : c.state.Sound) {key key' : String} {t t' : Tombstone}
    (ht : c'.state.tombstones.lookup key = some t) (ht' : c'.state.tombstones.lookup key' = some t')
    (hseq : t.sequence = t'.sequence) : key = key' := by
  rcases h.tombstone_cases ht with ⟨hold, -⟩ | ⟨p, k, ha, hkey, -, -, hnew⟩
  · rcases h.tombstone_cases ht' with ⟨hold', -⟩ | ⟨p', k', -, -, -, -, hnew'⟩
    · exact hs.distinct key key' t t' hold hold' hseq
    · have := hs.tombstones key t hold
      omega
  · rcases h.tombstone_cases ht' with ⟨hold', -⟩ | ⟨p', k', ha', hkey', -, -, -⟩
    · have := hs.tombstones key' t' hold'
      omega
    · rw [ha, Act.remove.injEq] at ha'
      rw [hkey, hkey', ha'.1, ha'.2.1]

theorem Took.sound (h : Took env a c c') (hs : c.state.Sound) : c'.state.Sound where
  valid := (h.tidy hs.tidy).valid
  policy := by
    rcases h.policy_cases with hp | hp
    · rw [hp]
      exact hs.policy
    · exact Or.inr hp
  leases := h.leases_sound hs
  tombstones := fun _ _ ht => h.tombstones_sound hs ht
  distinct := fun _ _ _ _ ht ht' hseq => h.tombstones_distinct hs ht ht' hseq
  pending := (h.tidy hs.tidy).pending

end Acts

/-! ## Discarding keeps the ledger sound -/

namespace DurableState

variable {s : DurableState} {reason : TombstoneReason} {l : List (String × Lease)}

theorem Sound.discardAll_tombstones (h : s.Sound) (hl : (l.map Prod.fst).Nodup) {key : String} {t : Tombstone}
    (ht : (s.discardAll reason l).tombstones.lookup key = some t) : t.sequence ≤ s.decisionSequence + l.length := by
  rcases discardAll_tombstones_cases hl ht with ⟨-, hold⟩ | ⟨i, lease, hi, rfl⟩
  · have := h.tombstones key t hold
    omega
  · have := (List.getElem?_eq_some_iff.mp hi).1
    show s.decisionSequence + i + 1 ≤ _
    omega

theorem Sound.discardAll_distinct (h : s.Sound) (hl : (l.map Prod.fst).Nodup) {key key' : String} {t t' : Tombstone}
    (ht : (s.discardAll reason l).tombstones.lookup key = some t)
    (ht' : (s.discardAll reason l).tombstones.lookup key' = some t') (hseq : t.sequence = t'.sequence) :
    key = key' := by
  rcases discardAll_tombstones_cases hl ht with ⟨-, hold⟩ | ⟨i, lease, hi, rfl⟩
  · rcases discardAll_tombstones_cases hl ht' with ⟨-, hold'⟩ | ⟨j, lease', -, rfl⟩
    · exact h.distinct key key' t t' hold hold' hseq
    · have := h.tombstones key t hold
      change t.sequence = s.decisionSequence + j + 1 at hseq
      omega
  · rcases discardAll_tombstones_cases hl ht' with ⟨-, hold'⟩ | ⟨j, lease', hj, rfl⟩
    · have := h.tombstones key' t' hold'
      change s.decisionSequence + i + 1 = t'.sequence at hseq
      omega
    · change s.decisionSequence + i + 1 = s.decisionSequence + j + 1 at hseq
      have hij : i = j := by omega
      rw [hij, hj, Option.some.injEq, Prod.mk.injEq] at hi
      exact hi.1.symm

theorem Sound.discardAll (h : s.Sound) (hl : (l.map Prod.fst).Nodup)
    (hlook : ∀ e ∈ l, s.leases.lookup e.1 = some e.2 ∧ e.2.status = .provisional) (o : RangeOrder String) :
    ((s.discardAll reason l).compactTombstones o).Sound where
  valid := h.valid.discardAll hl hlook o
  policy := by
    rw [compact_policy, discardAll_frame]
    exact h.policy
  leases := by
    intro key lease hk
    rw [compact_leases, discardAll_leases] at hk
    split at hk
    · cases hk
    · refine (h.leases key lease hk).mono ?_
      rw [compact_sequence, discardAll_sequence]
      omega
  tombstones := by
    intro key t ht
    rw [compact_sequence, discardAll_sequence]
    exact h.discardAll_tombstones hl (compact_lookup ht)
  distinct := fun _ _ _ _ ht ht' hseq => h.discardAll_distinct hl (compact_lookup ht) (compact_lookup ht') hseq
  pending := (h.tidy.discardAll hl hlook o).pending

end DurableState

theorem sound_kept : Kept DurableState.Sound where
  swept env h := h.discardAll expiredLeases_nodup (fun _ he =>
    ⟨(mem_expiredLeases.mp he).1, (mem_expiredLeases.mp he).2.1⟩)
    env.order
  act took h := took.sound h
  record on h :=
    { valid := (h.tidy.record on).valid
      policy := h.policy
      leases := fun key l hl => (h.leases key l hl).mono le_rfl
      tombstones := h.tombstones
      distinct := h.distinct
      pending := h.pending }
  pruned o _ h := h.discardAll DurableState.restoredProvisionals_nodup
    (fun _ he => DurableState.mem_restoredProvisionals.mp he) o

theorem World.exec_sound (now : Int) (events : List Event) : ((initial now none).exec events).ledger.Sound := by
  have start : (initial now none).ledger.Sound := DurableState.newDurableState_sound
  exact exec_kept sound_kept start events

theorem World.sound_of_mem {now : Int} {events : List Event} {t : Transition World Event Reply}
    (h : t ∈ (initial now none).transitions events) : t.before.ledger.Sound := by
  obtain ⟨xs, -, -, hbefore, -⟩ := mem_transitions.mp h
  rw [hbefore]
  exact exec_sound now xs

end PitCrew.Admission
