import PitCrew.Theorems.Admission.Atomicity

/-! # Reopening the store

Every document that the service writes is accepted when it is read back, and a process that opens the
store has the ledger of the one before it, with a tombstone for every provisional lease. -/

namespace PitCrew.Admission
open Base Coordinator

/-! ## The bound on tombstones -/

/-- `kept` is what the bound leaves of `all`: the newest tombstones. -/
structure Newest (all kept : Map String Tombstone) : Prop where
  sub : ∀ key t, kept.lookup key = some t → all.lookup key = some t
  card : kept.keys.card = min DurableState.maxTombstones all.keys.card
  newest : ∀ key key' t t', kept.lookup key = some t → all.lookup key' = some t' → kept.lookup key' = none →
    t'.sequence ≤ t.sequence

namespace DurableState

variable {s s' : DurableState} {o : RangeOrder String}

theorem compact_newest (s : DurableState) (o : RangeOrder String) :
    Newest s.tombstones (s.compactTombstones o).tombstones := by
  unfold compactTombstones
  split
  · next hcard =>
    refine ⟨fun _ _ h => h, (min_eq_right hcard).symm, fun key key' t t' _ ht' hnone => ?_⟩
    rw [ht'] at hnone
    cases hnone
  · refine ⟨fun _ _ h => Map.lookup_of_keepHeaviest h, Map.card_keepHeaviest, fun key key' t t' ht ht' hnone => ?_⟩
    exact Map.le_of_keepHeaviest ht ht' (by rw [hnone]; nofun)

def Bounded (s : DurableState) : Prop := s.tombstones.keys.card ≤ maxTombstones

theorem compact_bounded (s : DurableState) (o : RangeOrder String) : (s.compactTombstones o).Bounded := by
  rw [Bounded, (compact_newest s o).card]
  exact min_le_left _ _

end DurableState

theorem Took.bounded {env : Env} {a : Act} {c c' : Coordinator} (h : Took env a c c') (bounded : c.state.Bounded) :
    c'.state.Bounded := by
  have erased (key : String) : (c.state.tombstones.erase key).keys.card ≤ DurableState.maxTombstones := by
    refine le_trans (Finset.card_le_card fun k hk => ?_) bounded
    rw [Finmap.mem_keys, Finmap.mem_erase] at hk
    exact Finmap.mem_keys.mpr hk.2
  cases h with
  | account _ _ _ _ _ next =>
    rcases next with ⟨rfl, -⟩ | rfl
    · exact bounded
    · show (DurableState.markLeaseAccountedForAdoption _ _ _).1.tombstones.keys.card ≤ _
      rw [DurableState.mark_tombstones]
      exact bounded
  | grant => exact erased _
  | promote | create =>
    show (DurableState.markLeaseAccountedForAdoption _ _ _).1.tombstones.keys.card ≤ _
    rw [DurableState.mark_tombstones]
    exact erased _
  | remove => exact DurableState.compact_bounded _ _
  | _ => exact bounded

theorem bounded_kept : Kept DurableState.Bounded where
  swept env _ := DurableState.compact_bounded _ env.order
  act took h := took.bounded h
  record _ h := h
  pruned o _ _ := DurableState.compact_bounded _ o

/-! ## What a restart makes of a ledger -/

def DurableState.provisionalKeys (s : DurableState) : Finset String :=
  s.leases.keys.filter fun key => (s.leases.lookup key).any (·.status = .provisional)

/-- What a restart makes of a ledger: the provisional leases go and leave tombstones with new sequences,
    everything else stays. -/
structure DurableState.Reopens (s s' : DurableState) : Prop where
  epoch : s'.epoch = s.epoch
  policy : s'.policy = s.policy
  fences : s'.adoptionFences = s.adoptionFences
  decision : s'.lastDecision = s.lastDecision
  active : ∀ key l, s'.leases.lookup key = some l ↔ s.leases.lookup key = some l ∧ l.status = .active
  sequence : s'.decisionSequence = s.decisionSequence + s.provisionalKeys.card
  tombstones : ∃ all : Map String Tombstone, Newest all s'.tombstones ∧
    (∀ key ∉ s.provisionalKeys, all.lookup key = s.tombstones.lookup key) ∧
    ∃ sequence : String → Int, Set.InjOn sequence s.provisionalKeys ∧
      ∀ key l, s.leases.lookup key = some l → l.status = .provisional →
        s.decisionSequence < sequence key ∧ sequence key ≤ s'.decisionSequence ∧
        all.lookup key = some
          { profileID := l.profileID, slotKey := l.slotKey, leaseID := l.leaseID, reason := .restartDiscarded,
            sequence := sequence key }
  discarded : s.provisionalKeys.card ≤ maxTombstones → ∀ key l, s.leases.lookup key = some l → l.status = .provisional →
    ∃ t, s'.tombstones.lookup key = some t ∧ t.leaseID = l.leaseID ∧ t.reason = .restartDiscarded

namespace DurableState

variable {s s' : DurableState} {o : RangeOrder String}

theorem mem_provisionalKeys {key : String} :
    key ∈ s.provisionalKeys ↔ ∃ l, s.leases.lookup key = some l ∧ l.status = .provisional := by
  rw [provisionalKeys, Finset.mem_filter, Finmap.mem_keys, Map.mem_iff_lookup]
  cases s.leases.lookup key with
  | none => simp
  | some l => simp

theorem map_fst_restoredProvisionals :
    ((s.restoredProvisionals o).map Prod.fst).toFinset = s.provisionalKeys := by
  ext key
  rw [List.mem_toFinset, List.mem_map, mem_provisionalKeys]
  constructor
  · rintro ⟨⟨key, l⟩, hmem, rfl⟩
    exact ⟨l, mem_restoredProvisionals.mp hmem⟩
  · rintro ⟨l, hl⟩
    exact ⟨(key, l), mem_restoredProvisionals.mpr hl, rfl⟩

theorem length_restoredProvisionals : (s.restoredProvisionals o).length = s.provisionalKeys.card := by
  rw [← map_fst_restoredProvisionals (o := o), List.toFinset_card_of_nodup restoredProvisionals_nodup, List.length_map]

theorem notMem_restored {key : String} (h : key ∉ s.provisionalKeys) :
    key ∉ (s.restoredProvisionals o).map Prod.fst := by
  rwa [← map_fst_restoredProvisionals (o := o), List.mem_toFinset] at h

/-- The tombstones above the bound that are dropped are older than every tombstone that is kept, so the
    new ones stay as long as they are not too many themselves. -/
theorem Newest.keeps {all kept : Map String Tombstone} {fresh : Finset String} {n : Int} {key : String} {t : Tombstone}
    (newest : Newest all kept) (hold : ∀ key ∉ fresh, ∀ t, all.lookup key = some t → t.sequence ≤ n)
    (hcard : fresh.card ≤ maxTombstones) (hkey : key ∈ fresh) (ht : all.lookup key = some t) (hnew : n < t.sequence) :
    kept.lookup key = some t := by
  cases hkept : kept.lookup key with
  | some t' =>
    rw [newest.sub key t' hkept] at ht
    exact ht
  | none =>
    exfalso
    have hfresh : kept.keys ⊆ fresh := by
      intro j hj
      obtain ⟨u, hu⟩ := Finmap.mem_iff.mp (Finmap.mem_keys.mp hj)
      by_contra hjf
      have hle := newest.newest j key u t hu ht hkept
      have := hold j hjf u (newest.sub j u hu)
      omega
    have hall : kept.keys ⊆ all.keys := by
      intro j hj
      obtain ⟨u, hu⟩ := Finmap.mem_iff.mp (Finmap.mem_keys.mp hj)
      exact Finmap.mem_keys.mpr (Finmap.mem_of_lookup_eq_some (newest.sub j u hu))
    have hmiss : key ∉ kept.keys := by
      rw [Finmap.mem_keys]
      exact Finmap.lookup_eq_none.mp hkept
    have hlt : kept.keys.card < fresh.card := Finset.card_lt_card ⟨hfresh, fun hsub => hmiss (hsub hkey)⟩
    have hlt' : kept.keys.card < all.keys.card := by
      refine Finset.card_lt_card ⟨hall, fun hsub => hmiss (hsub ?_)⟩
      exact Finmap.mem_keys.mpr (Finmap.mem_of_lookup_eq_some ht)
    have := newest.card
    omega

theorem pruned_tombstones (s : DurableState) (o : RangeOrder String) :
    ∃ sequence : String → Int, Set.InjOn sequence s.provisionalKeys ∧
      ∀ key l, s.leases.lookup key = some l → l.status = .provisional →
        s.decisionSequence < sequence key ∧ sequence key ≤ (s.pruned o).decisionSequence ∧
        (s.discardAll .restartDiscarded (s.restoredProvisionals o)).tombstones.lookup key =
          some (tombstoneOf .restartDiscarded l (sequence key)) := by
  have hnodup : ((s.restoredProvisionals o).map Prod.fst).Nodup := restoredProvisionals_nodup
  refine ⟨fun key => s.decisionSequence + ((s.restoredProvisionals o).map Prod.fst).idxOf key + 1, ?_, ?_⟩
  · intro key hkey key' hkey' heq
    rw [Finset.mem_coe, ← map_fst_restoredProvisionals (o := o), List.mem_toFinset] at hkey hkey'
    have :
        ((s.restoredProvisionals o).map Prod.fst).idxOf key = ((s.restoredProvisionals o).map Prod.fst).idxOf key' := by
      dsimp only at heq
      omega
    exact (List.idxOf_inj hkey).mp this
  · intro key l hl hp
    have hmem : key ∈ (s.restoredProvisionals o).map Prod.fst :=
      List.mem_map.mpr ⟨(key, l), mem_restoredProvisionals.mpr ⟨hl, hp⟩, rfl⟩
    have hlt := List.idxOf_lt_length_of_mem hmem
    rw [List.length_map] at hlt
    obtain ⟨⟨key', l'⟩, hget⟩ :
        ∃ e, (s.restoredProvisionals o)[((s.restoredProvisionals o).map Prod.fst).idxOf key]? = some e :=
      ⟨_, List.getElem?_eq_getElem hlt⟩
    have hfst : key' = key := by
      have hmap :
          ((s.restoredProvisionals o).map Prod.fst)[((s.restoredProvisionals o).map Prod.fst).idxOf key]? =
            some key' := by
        rw [List.getElem?_map, hget]
        rfl
      rw [List.getElem?_idxOf hmem, Option.some.injEq] at hmap
      exact hmap.symm
    subst hfst
    have hl' := (mem_restoredProvisionals.mp (List.mem_of_getElem? hget)).1
    rw [hl, Option.some.injEq] at hl'
    subst hl'
    dsimp only
    refine ⟨by omega, ?_, discardAll_tombstones_of_get hnodup hget⟩
    rw [pruned_sequence]
    omega

theorem Sound.reopens_pruned (h : s.Sound) (o : RangeOrder String) : s.Reopens (s.pruned o) := by
  have hnewest := compact_newest (s.discardAll .restartDiscarded (s.restoredProvisionals o)) o
  have hother :
    ∀ key ∉ s.provisionalKeys, (s.discardAll .restartDiscarded (s.restoredProvisionals o)).tombstones.lookup key =
      s.tombstones.lookup key := fun key hkey => discardAll_tombstones_of_notMem _ (notMem_restored hkey)
  obtain ⟨sequence, hinj, htomb⟩ := pruned_tombstones s o
  refine ⟨pruned_epoch, pruned_policy, pruned_fences, pruned_decision, fun key l => ?_, ?_,
    ⟨_, hnewest, hother, sequence, hinj, htomb⟩, fun hcard key l hl hp => ?_⟩
  · rw [pruned_lookup]
    refine and_congr_right fun hl => ?_
    rcases (h.valid.leases key l hl).status with hs | hs <;> simp [hs]
  · rw [pruned_sequence, length_restoredProvisionals]
  · obtain ⟨hlt, -, ht⟩ := htomb key l hl hp
    refine ⟨_, Newest.keeps hnewest (fun j hj t ht => ?_) hcard (mem_provisionalKeys.mpr ⟨l, hl, hp⟩) ht hlt, rfl, rfl⟩
    rw [hother j hj] at ht
    exact h.tombstones j t ht

theorem provisionalKeys_eq_empty (h : ∀ key l, s.leases.lookup key = some l → l.status ≠ .provisional) :
    s.provisionalKeys = ∅ := by
  rw [Finset.eq_empty_iff_forall_notMem]
  intro key hkey
  obtain ⟨l, hl, hp⟩ := mem_provisionalKeys.mp hkey
  exact h key l hl hp

theorem Sound.reopens_settled (h : s.Sound) (bounded : s.Bounded)
    (settled : ∀ key l, s.leases.lookup key = some l → l.status ≠ .provisional) : s.Reopens s := by
  have hnone := provisionalKeys_eq_empty settled
  refine ⟨rfl, rfl, rfl, rfl, fun key l => ?_, by simp [hnone],
    ⟨s.tombstones, ?_, fun _ _ => rfl, fun _ => 0, ?_, ?_⟩, ?_⟩
  · refine ⟨fun hl => ⟨hl, ?_⟩, And.left⟩
    exact (h.valid.leases key l hl).status.resolve_left (settled key l hl)
  · refine ⟨fun _ _ ht => ht, (min_eq_right bounded).symm, fun _ key' _ t' _ ht' hnone => ?_⟩
    rw [ht'] at hnone
    cases hnone
  · rw [hnone]
    simp
  · exact fun key l hl hp => absurd hp (settled key l hl)
  · exact fun _ key l hl hp => absurd hp (settled key l hl)

end DurableState

/-! ## Opening the store of a run -/

section Opening
variable {s : Store} {env : Env}

theorem openStore_valid (valid : s.ledger.Valid) (hsave : env.saves.change = true) (ttl : Int) :
    (∀ key l, s.ledger.leases.lookup key = some l → l.status ≠ .provisional) ∧
        openStore env s ttl = (s, .ok (restored s (leaseTTL ttl) s.ledger)) ∨
      openStore env s ttl =
        ({ document := some (s.ledger.pruned env.order) }, .ok (reopened s.ledger env.order ttl)) := by
  rcases openStore_cases env s ttl with ⟨e, -, hfail⟩ | ⟨-, ⟨settled, hopen⟩ | ⟨-, -, hopen⟩⟩
  · rw [hfail valid] at hsave
    cases hsave
  · exact Or.inl ⟨DurableState.restoredProvisionals_eq_nil.mp settled, hopen⟩
  · exact Or.inr hopen

theorem openStore_settled (valid : s.ledger.Valid)
    (settled : ∀ key l, s.ledger.leases.lookup key = some l → l.status ≠ .provisional) (env : Env) (ttl : Int) :
    openStore env s ttl = (s, .ok (restored s (leaseTTL ttl) s.ledger)) := by
  have hnil := (DurableState.restoredProvisionals_eq_nil (o := env.order)).mpr settled
  unfold openStore
  rcases s.load_cases env.order with ⟨-, -, hinvalid⟩ | ⟨-, ⟨hdoc, hload⟩ | hload⟩
  · exact absurd valid hinvalid
  · rw [hload, Store.ledger, hdoc]
    rfl
  · rw [hload]
    dsimp only
    rw [DurableState.discardRestoredProvisionals, if_pos hnil]
    rfl

/-- A sound store opens to a ledger that its own reopens to, and to the same one when it is opened again. -/
theorem openStore_reopens (sound : s.ledger.Sound) (bounded : s.ledger.Bounded) (hsave : env.saves.change = true)
    (ttl : Int) : ∃ c, openStore env s ttl = (c.store, .ok c) ∧ s.ledger.Reopens c.state ∧
      ∀ env', openStore env' c.store ttl = (c.store, .ok c) := by
  rcases openStore_valid sound.valid hsave ttl with ⟨settled, hopen⟩ | hopen
  · exact ⟨restored s (leaseTTL ttl) s.ledger, hopen, sound.reopens_settled bounded settled,
      fun env' => openStore_settled sound.valid settled env' ttl⟩
  · refine ⟨reopened s.ledger env.order ttl, hopen, sound.reopens_pruned env.order, fun env' => ?_⟩
    have fresh := fresh_pruned env.order ttl sound.valid
    have hledger : Store.ledger { document := some (s.ledger.pruned env.order) } = s.ledger.pruned env.order :=
      fresh.ledger
    have := openStore_settled (s := { document := some (s.ledger.pruned env.order) })
      (by rw [hledger]; exact fresh.valid)
      (by rw [hledger]; exact fresh.settled) env' ttl
    rw [hledger] at this
    exact this

end Opening

/-- The event with one of its saves made to succeed and the later ones to fail: what it then leaves in the
    store is what it passes to that save. -/
def Event.upToSave : Event → List Event
  | .call operation order saves =>
    [.call operation order { sweep := true, change := false, decision := false },
      .call operation order { saves with change := true, decision := false },
      .call operation order { saves with decision := true }]
  | .restart ttl order saves => [.restart ttl order { saves with change := true }]
  | .clock _ => []

def World.Passes (w : World) (e : Event) (d : DurableState) : Prop :=
  ∃ e' ∈ e.upToSave, (w.step e').1.store.document = some d

theorem World.exec_document {now : Int} {events : List Event} {d : DurableState}
    (h : ((initial now none).exec events).store.document = some d) : ((initial now none).exec events).ledger = d := by
  rcases exec_written now none events with hnone | ⟨d', hd', hschema⟩
  · rw [hnone] at h
    cases h
  · rw [h, Option.some.injEq] at hd'
    subst hd'
    rw [World.ledger, Store.ledger, h]
    exact DurableState.upgrade_of_schema hschema

/-- A valid document is accepted, is read back as it is and opens when the save of the opening works. -/
theorem DurableState.Valid.opens {d : DurableState} (valid : d.Valid) :
    (∀ o, d.validate o = .ok () ∧ Store.load o { document := some d } = .ok (some d)) ∧
      ∀ env ttl, env.saves.change = true → ∃ c, openStore env { document := some d } ttl = (c.store, .ok c) := by
  constructor
  · intro o
    have hvalid := (DurableState.validate_ok (o := o) (u := ())).mpr valid
    refine ⟨hvalid, ?_⟩
    unfold Store.load
    dsimp only
    rw [DurableState.upgrade_of_schema valid.schema, hvalid]
  · intro env ttl hsave
    have hledger : Store.ledger { document := some d } = d := Store.ledger_of_schema valid.schema
    rcases openStore_valid (by rw [hledger]; exact valid) hsave ttl with ⟨-, hopen⟩ | hopen
    · exact ⟨restored { document := some d } (leaseTTL ttl) _, hopen⟩
    · exact ⟨reopened _ env.order ttl, hopen⟩

/-- Along every run from an empty store, with any failing saves and restarts: every document that is passed
    to the store is valid, is read back as it is and opens; and opening the store gives the ledger that the
    last document reopens to, which another opening leaves as it is. -/
theorem reopens_exactly (now : Int) (events : List Event) :
    (∀ e d, ((World.initial now none).exec events).Passes e d →
      (∀ o, d.validate o = .ok () ∧ Store.load o { document := some d } = .ok (some d)) ∧
        ∀ env ttl, env.saves.change = true → ∃ c, openStore env { document := some d } ttl = (c.store, .ok c)) ∧
    ∀ env ttl, env.saves.change = true →
      ∃ c, openStore env ((World.initial now none).exec events).store ttl = (c.store, .ok c) ∧
        ((World.initial now none).exec events).ledger.Reopens c.state ∧
        ∀ env', openStore env' c.store ttl = (c.store, .ok c) := by
  constructor
  · rintro e d ⟨e', -, hd⟩
    have hstep : (World.initial now none).exec (events ++ [e']) = (((World.initial now none).exec events).step e').1 :=
      exec_concat ..
    rw [← hstep] at hd
    have valid := (World.exec_sound now (events ++ [e'])).valid
    rw [World.exec_document hd] at valid
    exact valid.opens
  · intro env ttl hsave
    exact openStore_reopens (World.exec_sound now events) (World.exec_kept bounded_kept
      (Nat.zero_le _) events) hsave ttl

/-- The document of a grant is accepted, and a restart after the grant leaves a tombstone of its lease. -/
theorem reopens_exactly_alphaGranted :
    (∃ d, ((World.initial 0 none).exec alphaOnly).Passes (.plain (.acquire "alpha" "slot-1" 1)) d ∧
        d.decisionSequence = 1 ∧ d.validate .sorted = .ok ()) ∧
      ∃ c, openStore { now := 0, order := .sorted } ((World.initial 0 none).exec alphaGranted).store 0 =
        (c.store, .ok c) ∧
        ∃ t, c.state.tombstones.lookup "alpha/slot-1" = some t ∧ t.leaseID = "alpha/slot-1#1" ∧
          t.reason = .restartDiscarded := by
  constructor
  · have passes : ((World.initial 0 none).exec alphaOnly).Passes (.plain (.acquire "alpha" "slot-1" 1)) _ :=
      ⟨_, List.mem_cons_of_mem _ (List.mem_cons_of_mem _ List.mem_cons_self), rfl⟩
    exact ⟨_, passes, by decide +kernel, ((reopens_exactly 0 alphaOnly).1 _ _ passes).1 .sorted |>.1⟩
  · obtain ⟨c, hopen, reopens, -⟩ := (reopens_exactly 0 alphaGranted).2 { now := 0, order := .sorted } 0 rfl
    exact ⟨c, hopen, reopens.discarded (by decide +kernel) "alpha/slot-1" alphaProvisional (by decide +kernel) rfl⟩

end PitCrew.Admission
