import PitCrew.Theorems.Admission.Fences
import PitCrew.Theorems.Admission.Tombstones

/-! # Loading fails closed

Which accepted documents the service can be run on. The check of a document leaves out a policy of
generation zero or less, the order of the pending slots of a fence, which are searched as if they were in
order, and the pattern of the slots of leases. A document with none of these gaps stays valid along every
run (`Tidy`), and a document with one of them does not. -/

namespace PitCrew.Admission
open Base Coordinator

/-- The document is accepted when it is loaded, in whatever order its maps are visited. -/
def Accepted (d : DurableState) : Prop := ∀ o, ∃ s, Store.load o { document := some d } = .ok (some s)

theorem accepted_iff {d : DurableState} : Accepted d ↔ d.upgrade.Valid := by
  have hload (o : RangeOrder String) : (∃ s, Store.load o { document := some d } = .ok (some s)) ↔ d.upgrade.Valid := by
    rcases Store.load_cases { document := some d } o with ⟨e, he, hinvalid⟩ | ⟨hv, ⟨hnone, -⟩ | hload⟩
    · rw [he]
      exact iff_of_false (fun ⟨_, h⟩ => by cases h) hinvalid
    · cases hnone
    · exact iff_of_true ⟨_, hload⟩ hv
  exact ⟨fun h => (hload .sorted).mp (h .sorted), fun h o => (hload o).mpr h⟩

/-- What a status divides by: the unit costs of the profiles that it reports. The shares and the cursor
    divide by the number of contenders, where there is one. -/
def Coordinator.divisors (c : Coordinator) : List Int :=
  c.state.policy.sortedProfileIDs.filterMap fun profileID => (c.state.policy.profile profileID).map (·.unitCost)

/-- What is asked of a document that is accepted, and of every run from it whose counters do not pass `int64`. A run
    can end with a call of which only the first saves succeed, so what it leaves in the store is every document that
    is saved. -/
structure FailsClosed (document : DurableState) : Prop where
  costs : ∀ pp ∈ document.policy.profiles, 1 ≤ pp.unitCost
  divides : ∀ now events c, ((World.initial now (some document)).exec events).ledger.Counted →
    ((World.initial now (some document)).exec events).process = .running c → 0 ∉ c.divisors
  leases : ∀ now events e l, (((World.initial now (some document)).exec events).step e).1.ledger.Counted →
    (((World.initial now (some document)).exec events).step e).2 = .lease l → 1 ≤ l.units
  saves : ∀ now events d, ((World.initial now (some document)).exec events).ledger.Counted →
    ((World.initial now (some document)).exec events).store.document = some d → Accepted d
  clears : ∀ now events c p f k order, ((World.initial now (some document)).exec events).process = .running c →
    c.state.adoptionFences.lookup p = some f → k ∈ f.pending →
    let next := ((World.initial now (some document)).exec events).step (.call (.release p k) order {})
    next.1.ledger.Counted →
      next.2 = .done ∧ ∀ f', next.1.ledger.adoptionFences.lookup p = some f' → k ∉ f'.pending

/-! ## Counters -/

/-- The decision sequence once all leases have been discarded. -/
def DurableState.ahead (s : DurableState) : Int := s.decisionSequence + s.leases.keys.card

/-- Leases were discarded, with a decision each. -/
structure DurableState.Sheds (s s' : DurableState) : Prop where
  ahead : s'.ahead = s.ahead
  epoch : s'.epoch = s.epoch
  policy : s'.policy = s.policy

/-- The counters have room for a decision on each lease and for some changes of the policy or of a fence. -/
structure DurableState.Room (s : DurableState) (changes : Int) : Prop where
  epoch : s.epoch + changes < 2 ^ 63
  ahead : s.ahead < 2 ^ 63
  generation : s.policy.generation + changes < 2 ^ 63

theorem DurableState.Room.counted {s : DurableState} {changes : Int} (h : s.Room changes) (hchanges : 0 ≤ changes) :
    s.Counted := by
  have hahead := h.ahead
  unfold DurableState.ahead at hahead
  exact ⟨by have := h.epoch; omega, by omega, by have := h.generation; omega⟩

theorem DurableState.Room.upgrade {s : DurableState} {changes : Int} (h : s.Room changes) : s.upgrade.Room changes := by
  unfold DurableState.upgrade
  split
  · exact ⟨h.epoch, h.ahead, h.generation⟩
  · exact h

namespace DurableState.Sheds
variable {s s' s'' : DurableState}

theorem refl (s : DurableState) : s.Sheds s := ⟨rfl, rfl, rfl⟩

theorem trans (h : s.Sheds s') (h' : s'.Sheds s'') : s.Sheds s'' :=
  ⟨h'.ahead.trans h.ahead, h'.epoch.trans h.epoch, h'.policy.trans h.policy⟩

theorem room (h : s.Sheds s') {changes : Int} (hroom : s.Room changes) : s'.Room changes :=
  ⟨h.epoch ▸ hroom.epoch, h.ahead ▸ hroom.ahead, h.policy ▸ hroom.generation⟩

theorem discardAll {reason : TombstoneReason} {l : List (String × Lease)} (hnodup : (l.map Prod.fst).Nodup)
    (hleases : ∀ e ∈ l, s.leases.lookup e.1 = some e.2) (o : RangeOrder String) :
    s.Sheds ((s.discardAll reason l).compactTombstones o) := by
  have hframe := discardAll_frame reason s l
  have hkeys : (s.discardAll reason l).leases.keys = s.leases.keys \ (l.map Prod.fst).toFinset := by
    ext key
    rw [Finset.mem_sdiff, Finmap.mem_keys, Finmap.mem_keys, ← Finmap.lookup_isSome, ← Finmap.lookup_isSome,
      discardAll_leases, List.mem_toFinset]
    split <;> simp_all
  have hsubset : (l.map Prod.fst).toFinset ⊆ s.leases.keys := by
    intro key hkey
    obtain ⟨e, he, rfl⟩ := List.mem_map.mp (List.mem_toFinset.mp hkey)
    exact Finmap.mem_keys.mpr (Finmap.mem_of_lookup_eq_some (hleases e he))
  have hcard := Finset.card_sdiff_add_card_eq_card hsubset
  rw [List.toFinset_card_of_nodup hnodup, List.length_map, ← hkeys] at hcard
  refine ⟨?_, ?_, ?_⟩
  · unfold DurableState.ahead
    rw [compact_sequence, compact_leases, discardAll_sequence]
    omega
  · rw [compact_epoch, hframe]
  · rw [compact_policy, hframe]

theorem sweptFor {c : Coordinator} (hset : c.state.FencesSet) (env : Env) (call : Call) :
    c.state.Sheds (c.sweptFor env call).state := by
  rcases sweptFor_cases hset env call with h | ⟨h, -⟩
  · rw [h]
    exact refl _
  · rw [h]
    exact discardAll expiredLeases_nodup (fun _ he => (mem_expiredLeases.mp he).1) env.order

theorem remove {env : Env} {p k : String} {t : Tombstone} {c c' : Coordinator} (h : Took env (.remove p k t) c c') :
    c.state.Sheds c'.state := by
  have leaves := h.leaves
  cases h with
  | @remove _ _ _ l _ _ _ _ lease _ =>
    have hmem : leaseKey p k ∈ c.state.leases := Finmap.mem_of_lookup_eq_some lease
    have hcard : (c.state.leases.erase (leaseKey p k)).keys.card + 1 = c.state.leases.keys.card := by
      rw [Finmap.keys_erase]
      exact Finset.card_erase_add_one (Finmap.mem_keys.mpr hmem)
    refine ⟨?_, ?_, ?_⟩
    · unfold DurableState.ahead
      rw [leaves.sequence, leaves.leases]
      show c.state.decisionSequence + 1 + ((c.state.leases.erase (leaseKey p k)).keys.card : Int) = _
      omega
    · rw [leaves.epoch]
      exact add_zero _
    · rw [leaves.policy]
      rfl

end DurableState.Sheds

/-! ## Releases -/

section Release
variable {env : Env} {c c' : Coordinator} {p k : String} {l : Lease}

theorem release_active (hset : c.state.FencesSet) (works : env.saves = {}) (hp : profileIDPattern p = true)
    (hk : slotKeyPattern k = true) (lease : c.state.leases.lookup (leaseKey p k) = some l)
    (active : l.status = .active) :
    (c.call env (.release p k)).2 = .done := by
  have hid : validateLeaseIdentity p k = .ok () := validateLeaseIdentity_ok.mpr ⟨hp, hk⟩
  have hsweeps : (Call.release p k).sweeps = true := isOk_of_ok hid
  obtain ⟨keys, hs⟩ := sweep_succeeds hset (Or.inl (by rw [works])) hsweeps
  have hlease : (c.sweptFor env (.release p k)).state.leases.lookup (leaseKey p k) = some l :=
    sweptFor_lookup hset env _ lease (by rw [active]; decide)
  simp only [Coordinator.call, release, hid, deciding, swept, hs, Prod.map_snd]
  unfold tombstoneLocked
  dsimp only
  rw [hlease, works]
  rfl

theorem release_leaves (hset : c.state.FencesSet) (lease : c.state.leases.lookup (leaseKey p k) = some l)
    (active : l.status = .active) (hdone : (c.call env (.release p k)).2 = .done) :
    (c.call env (.release p k)).1.state.adoptionFences =
        (c.state.markLeaseAccountedForAdoption p k).1.adoptionFences ∧
      c.state.Sheds (c.call env (.release p k)).1.state := by
  obtain ⟨a, ⟨c₁, c₂, c₃, h₁, hdoes, h₂, hrec⟩, fits⟩ := call_course hset env (.release p k)
  have hlease : c₁.state.leases.lookup (leaseKey p k) = some l := by
    rw [h₁.state]
    exact sweptFor_lookup hset env _ lease (by rw [active]; decide)
  rw [hdone] at fits
  have hframe := hrec.frame
  rw [h₂.state] at hframe
  rw [hframe]
  cases fits with
  | release =>
    have leaves := Took.leaves hdoes
    refine ⟨?_, ?_⟩
    · show c₂.state.adoptionFences = _
      rw [leaves.fences]
      refine DurableState.mark_congr ?_ p k
      rw [h₁.state]
      exact sweptFor_fences hset env _
    · have hswept : c.state.Sheds c₁.state := h₁.state ▸ .sweptFor hset env _
      have hremoved := DurableState.Sheds.remove hdoes
      exact hswept.trans ⟨hremoved.ahead, hremoved.epoch, hremoved.policy⟩
  | released =>
    cases hdoes with
    | gone _ absent _ =>
      rw [hlease] at absent
      cases absent

/-- With a working store the release of a pending slot succeeds, and the fence keeps what the search leaves. -/
theorem release_step {w : World} (synced : w.Synced) (running : w.process = .running c) {f : AdoptionFence}
    (hf : c.state.adoptionFences.lookup p = some f) (hfence : DurableState.FenceValid c.state p f) (hk : k ∈ f.pending)
    (order : RangeOrder String) :
    (w.step (.call (.release p k) order {})).2 = .done ∧
      ∃ c' f', (w.step (.call (.release p k) order {})).1.process = .running c' ∧
        (w.step (.call (.release p k) order {})).1.ledger = c'.state ∧ c.state.Sheds c'.state ∧
        c'.state.adoptionFences.lookup p = some f' ∧ f'.pending = (removeFound f.pending k).1 := by
  have hset := (synced c running).fences
  obtain ⟨l, lease, active⟩ := hfence.active k hk
  have hdone : (c.call { now := w.now, order, saves := {} } (.release p k)).2 = .done :=
    release_active hset rfl hfence.profileID (hfence.slotKey k hk) lease active
  obtain ⟨hfences, hsheds⟩ := release_leaves hset lease active hdone
  have synced' := World.step_synced synced (.call (.release p k) order {})
  have hstep : w.step (.call (.release p k) order {}) =
      ({ w with process := .running (c.call { now := w.now, order, saves := {} } (.release p k)).1 }, .done) := by
    simp only [World.step, running, hdone]
  rw [hstep] at synced' ⊢
  refine ⟨rfl, _, _, rfl, World.Synced.ledger synced' rfl,
    hsheds, by rw [hfences]; exact DurableState.mark_fence hf, ?_⟩
  rcases removeFound_cases hfence.nodup k with ⟨hr, -⟩ | ⟨hr, -⟩
  · simp only [hr, if_true]
    rfl
  · simp only [hr, Bool.false_eq_true, if_false]

end Release

/-! ## Documents that stay valid -/

section Sufficient
variable {w : World} {e : Event} {l : Lease} {document : DurableState}

theorem DurableState.upgrade_policy (s : DurableState) : s.upgrade.policy = s.policy := by
  unfold upgrade
  split <;> rfl

theorem Took.lease_valid {env : Env} {call : Call} {a : Act} {c c' : Coordinator} (h : Took env a c c')
    (fits : Fits call (.lease l) (some a)) (hs : c.state.Tidy) : ∃ key, DurableState.LeaseValid key l := by
  have hs' := (h.tidy hs).valid
  have inserted {p k : String} (heq : c'.state.leases = c.state.leases.insert (leaseKey p k) l) :
      ∃ key, DurableState.LeaseValid key l :=
    ⟨_, hs'.leases (leaseKey p k) l (by rw [heq]; exact Finmap.lookup_insert _)⟩
  have leaves := h.leaves.leases
  cases fits with
  | grant => exact inserted leaves
  | bind => exact inserted leaves
  | promote => exact inserted leaves
  | create => exact inserted leaves
  | renew => exact inserted leaves
  | activate => exact inserted leaves
  | bound | active =>
    cases h with
    | keep _ lease => exact ⟨_, hs.valid.leases _ l lease⟩
  | account =>
    cases h with
    | account _ _ _ lease _ _ => exact ⟨_, hs.valid.leases _ l lease⟩

theorem step_lease_valid (synced : w.Synced) (tidy : w.ledger.Tidy) (hl : (w.step e).2 = .lease l) :
    ∃ key, DurableState.LeaseValid key l := by
  have moved := World.step_moved synced e
  rw [hl] at moved
  generalize (w.step e).1 = w' at moved
  cases moved with
  | @call c c' call order saves a reply running course fits =>
    obtain ⟨c₁, c₂, c₃, h₁, hdoes, -, -⟩ := course
    have hset := (synced c running).fences
    have htidy : c₁.state.Tidy := by
      rw [h₁.state]
      rw [World.Synced.ledger synced running] at tidy
      exact tidy_kept.follows.sweptFor hset tidy
    cases a with
    | none => cases fits
    | some a => exact Took.lease_valid hdoes fits htidy

theorem DurableState.Tidy.failsClosed (tidy : document.upgrade.Tidy) : FailsClosed document := by
  have htidy (now : Int) (events : List Event) : ((World.initial now (some document)).exec events).ledger.Tidy := by
    have start : (World.initial now (some document)).ledger.Tidy := tidy
    exact World.exec_kept tidy_kept start events
  have hsynced (now : Int) (events : List Event) := World.exec_synced now (some document) events
  refine ⟨?_, ?_, ?_, ?_, ?_⟩
  · have := tidy.costs
    rwa [DurableState.upgrade_policy] at this
  · intro now events c _ running hzero
    have hcosts := (htidy now events).costs
    rw [World.Synced.ledger (hsynced now events) running] at hcosts
    obtain ⟨id, -, hid⟩ := List.mem_filterMap.mp hzero
    obtain ⟨pp, known, hcost⟩ := Option.map_eq_some_iff.mp hid
    have := hcosts pp (HostPolicy.profile_some known).1
    omega
  · intro now events e l _ hl
    obtain ⟨key, hvalid⟩ := step_lease_valid (hsynced now events) (htidy now events) hl
    exact hvalid.units
  · intro now events d _ hd
    have hvalid := (htidy now events).valid
    rw [World.ledger, Store.ledger, hd] at hvalid
    exact accepted_iff.mpr hvalid
  · intro now events c p f k order running hf hk
    have htidy := htidy now events
    rw [World.Synced.ledger (hsynced now events) running] at htidy
    have hfence := htidy.valid.fences p f hf
    obtain ⟨hdone, c', f', -, hledger, -, hf', hpending⟩ :=
      release_step (hsynced now events) running hf hfence hk order
    refine fun _ => ⟨hdone, fun f'' hf'' => ?_⟩
    rw [hledger, hf', Option.some.injEq] at hf''
    rw [← hf'', hpending, removeFound_eq (htidy.pending p f hf)]
    exact fun hmem => (List.Nodup.mem_erase_iff hfence.nodup).mp hmem |>.1 rfl

end Sufficient

/-! ## Documents that do not -/

section Necessary
variable {document : DurableState}

theorem opens_running (valid : document.upgrade.Valid) (now : Int) :
    ∃ c, ((World.initial now (some document)).exec [.start]).process = .running c ∧ document.upgrade.Sheds c.state ∧
      c.state.adoptionFences = document.upgrade.adoptionFences ∧
      ∀ key l, document.upgrade.leases.lookup key = some l → l.status = .active →
        c.state.leases.lookup key = some l := by
  have hledger : Store.ledger { document := some document } = document.upgrade := rfl
  have hexec :
      (World.initial now (some document)).exec [.start] = ((World.initial now (some document)).step .start).1 := rfl
  rw [hexec]
  simp only [World.step, Event.start, World.initial, World.store]
  rcases @openStore_valid { document := some document } { now, order := .sorted, saves := {} } valid rfl 0 with
    ⟨-, hopen⟩ | hopen
  · rw [hopen]
    exact ⟨_, rfl, .refl _, rfl, fun _ _ hl _ => hl⟩
  · rw [hopen]
    have hsheds : document.upgrade.Sheds (document.upgrade.pruned .sorted) :=
      .discardAll DurableState.restoredProvisionals_nodup
        (fun _ he => (DurableState.mem_restoredProvisionals.mp he).1) .sorted
    refine ⟨_, rfl, hsheds, DurableState.pruned_fences, fun key l hl active => ?_⟩
    exact DurableState.pruned_lookup.mpr ⟨hl, by rw [active]; decide⟩

theorem FailsClosed.valid (closed : FailsClosed document) (now : Int) (events : List Event)
    (counted : ((World.initial now (some document)).exec events).ledger.Counted) :
    ((World.initial now (some document)).exec events).ledger.Valid := by
  have hsaves := closed.saves now events
  rw [World.ledger, Store.ledger] at counted hsaves ⊢
  split at counted
  · exact DurableState.newDurableState_valid
  · next d hd => exact accepted_iff.mp (hsaves d (by simpa only [hd] using counted) hd)

theorem FailsClosed.state_valid (closed : FailsClosed document) {now : Int} {events : List Event} {c : Coordinator}
    (running : ((World.initial now (some document)).exec events).process = .running c) (room : c.state.Room 0) :
    c.state.Valid := by
  have valid := closed.valid now events
  rw [World.Synced.ledger (World.exec_synced now (some document) events) running] at valid
  exact valid (room.counted le_rfl)

/-- The release of a pending slot takes it off the list. -/
theorem FailsClosed.released (closed : FailsClosed document) {now : Int} {events : List Event} {c : Coordinator}
    (running : ((World.initial now (some document)).exec events).process = .running c) (room : c.state.Room 0)
    {p k : String} {f : AdoptionFence} (hf : c.state.adoptionFences.lookup p = some f) (hk : k ∈ f.pending) :
    ∃ c' f', ((World.initial now (some document)).exec
        (events ++ [.call (.release p k) .sorted {}])).process = .running c' ∧
      c'.state.Room 0 ∧ c'.state.adoptionFences.lookup p = some f' ∧ f'.pending = (removeFound f.pending k).1 ∧
      k ∉ f'.pending := by
  obtain ⟨-, c', f', running', hledger, hsheds, hf', hpending⟩ :=
    release_step (World.exec_synced now (some document) events) running hf
      ((closed.state_valid running room).fences p f hf) hk .sorted
  have room' := hsheds.room room
  obtain ⟨-, hclear⟩ := closed.clears now events c p f k .sorted running hf hk (hledger ▸ room'.counted le_rfl)
  have hstep : (World.initial now (some document)).exec (events ++ [.call (.release p k) .sorted {}]) =
      (((World.initial now (some document)).exec events).step (.call (.release p k) .sorted {})).1 := exec_concat ..
  rw [hstep]
  exact ⟨c', f', running', room', hf', hpending, hclear f' (by rw [hledger]; exact hf')⟩

/-- Where every release clears its slot, the pending slots of every fence are in order: release all slots but
    two that are not, and the search for one of these fails. -/
theorem FailsClosed.pending_sorted (closed : FailsClosed document) (now : Int) (n : Nat) :
    ∀ (events : List Event) (c : Coordinator) (p : String) (f : AdoptionFence),
      ((World.initial now (some document)).exec events).process = .running c → c.state.Room 0 →
      c.state.adoptionFences.lookup p = some f → f.pending.length = n → f.pending.Pairwise (· < ·) := by
  induction n using Nat.strong_induction_on with
  | _ n ih =>
    intro events c p f running room hf hlen
    have hfence := (closed.state_valid running room).fences p f hf
    rw [List.pairwise_iff_forall_sublist]
    intro x y hsub
    by_contra hnot
    have hinv : y < x := lt_of_le_of_ne (not_lt.mp hnot) fun heq => by
      have := hfence.nodup.sublist hsub
      simp [heq] at this
    by_cases hother : ∃ k ∈ f.pending, k ≠ x ∧ k ≠ y
    · obtain ⟨k, hk, hkx, hky⟩ := hother
      obtain ⟨c', f', running', room', hf', hpending, hclear⟩ := closed.released running room hf hk
      have hfound : f'.pending = f.pending.erase k := by
        rcases removeFound_cases hfence.nodup k with ⟨hr, -⟩ | ⟨hr, -⟩
        · rw [hpending, hr]
        · rw [hpending, hr] at hclear
          exact absurd hk hclear
      have hshort : f'.pending.length < n := by
        rw [hfound, List.length_erase_of_mem hk]
        have := List.length_pos_of_mem hk
        omega
      have hsorted := ih _ hshort _ c' p f' running' room' hf' rfl
      rw [hfound, List.pairwise_iff_forall_sublist] at hsorted
      refine hnot (hsorted ?_)
      have := hsub.erase k
      rwa [List.erase_of_not_mem (by simp [hkx, hky])] at this
    · push Not at hother
      have hpair : f.pending = [x, y] := by
        refine (hsub.eq_of_length_le (hfence.nodup.subperm fun k hk => ?_).length_le).symm
        by_cases hkx : k = x
        · simp [hkx]
        · simp [hother k hk hkx]
      obtain ⟨c', f', -, -, -, hpending, hclear⟩ := closed.released running room hf (k := y) (by rw [hpair]; simp)
      rw [hpending, hpair, removeFound_inverted hinv] at hclear
      simp at hclear

/-- A policy of cost one for some profiles. -/
def plainPolicy (generation : Int) (profiles : List String) : HostPolicy :=
  { generation, totalUnits := 1, profiles := profiles.map fun profileID => { profileID, unitCost := 1 } }

theorem plainPolicy_valid (generation : Int) (hg : 1 ≤ generation) {p : String} (hp : profileIDPattern p = true) :
    (plainPolicy generation []).validate = .ok () ∧ (plainPolicy generation [p]).validate = .ok () := by
  have hg' : ¬generation < 1 := by omega
  have hnamespace : validateNamespace "" = .ok () := rfl
  have hfingerprint (field : String) : validateFingerprint field "" = .ok () := rfl
  constructor
  · simp [plainPolicy, HostPolicy.validate, HostPolicy.validateWith, validateProfiles, reject, hg', hnamespace,
      hfingerprint, bind, Except.bind]
  · simp [plainPolicy, HostPolicy.validate, HostPolicy.validateWith, validateProfiles, ProfilePolicy.validate,
      reject, hg', hp, hnamespace, hfingerprint, bind, Except.bind]

theorem applyPolicy_step {w : World} {c : Coordinator} (synced : w.Synced) (running : w.process = .running c)
    {policy : HostPolicy}
    (valid : policy.validate = .ok ()) (newer : c.state.policy.generation < policy.generation) :
    ∃ c', (w.step (.plain (.applyPolicy policy))).1.process = .running c' ∧ c'.state.policy = policy ∧
      c'.state.leases = c.state.leases ∧ c'.state.epoch = c.state.epoch + 1 ∧ c'.state.ahead = c.state.ahead ∧
      c'.state.adoptionFences = c.state.adoptionFences.filterKeys fun id => (policy.profile id).isSome := by
  have hset := (synced c running).fences
  simp only [Event.plain, World.step, running, Coordinator.call, applyPolicy, valid, DurableState.clone_eq hset]
  rw [if_neg (by omega)]
  exact ⟨_, rfl, rfl, rfl, rfl, rfl, rfl⟩

theorem beginAdoption_step {w : World} {c : Coordinator} (synced : w.Synced)
    (running : w.process = .running c) {p : String}
    (hp : profileIDPattern p = true) (known : c.state.policy.profile p ≠ none) (absent : p ∉ c.state.adoptionFences) :
    ∃ c', (w.step (.plain (.beginAdoption p))).1.process = .running c' ∧ c'.state.policy = c.state.policy ∧
      c'.state.epoch = c.state.epoch + 1 ∧ c'.state.ahead = c.state.ahead ∧
      c'.state.adoptionFences.lookup p =
        some { profileID := p, pendingLeaseKeys := some (DurableState.activeLeaseSlotKeys c.state.leases p) } := by
  have hset := (synced c running).fences
  have hid : validateProfileID p = .ok () := by simp [validateProfileID, hp]
  simp only [Event.plain, World.step, running, Coordinator.call, beginAdoption, hid, DurableState.clone_eq hset]
  rw [if_neg known, if_neg absent]
  exact ⟨_, rfl, rfl, rfl, rfl, Finmap.lookup_insert _⟩

/-- Where every saved document is accepted the active leases have slots that match their pattern: a fence over
    the profile would name the slot. -/
theorem FailsClosed.slots (closed : FailsClosed document) (accepted : document.upgrade.Valid)
    (room : document.upgrade.Room 3) {key : String} {l : Lease} (hl : document.upgrade.leases.lookup key = some l)
    (active : l.status = .active)
    (hp : profileIDPattern l.profileID = true) : slotKeyPattern l.slotKey = true := by
  obtain ⟨c₁, running₁, hsheds, -, hleases₁⟩ := opens_running accepted 0
  have room₁ := hsheds.room room
  have synced (events : List Event) := World.exec_synced 0 (some document) events
  have hstep (events : List Event) (e : Event) : (World.initial 0 (some document)).exec (events ++ [e]) =
      (((World.initial 0 (some document)).exec events).step e).1 := exec_concat ..
  obtain ⟨hvalid₂, -⟩ := plainPolicy_valid (max c₁.state.policy.generation 0 + 1) (by omega) hp
  obtain ⟨-, hvalid₃⟩ := plainPolicy_valid (max c₁.state.policy.generation 0 + 2) (by omega) hp
  -- a policy without the profile takes down a fence that may be up, and the next one names the profile
  obtain ⟨c₂, running₂, hpolicy₂, hleases₂, hepoch₂, hahead₂, hfences₂⟩ := applyPolicy_step (synced _) running₁ hvalid₂
    (show c₁.state.policy.generation < max c₁.state.policy.generation 0 + 1 by omega)
  rw [← hstep] at running₂
  obtain ⟨c₃, running₃, hpolicy₃, hleases₃, hepoch₃, hahead₃, hfences₃⟩ :=
    applyPolicy_step (synced _) running₂ hvalid₃ (by
    rw [hpolicy₂]
    show max c₁.state.policy.generation 0 + 1 < max c₁.state.policy.generation 0 + 2
    omega)
  rw [← hstep] at running₃
  have habsent : l.profileID ∉ c₃.state.adoptionFences := by
    rw [hfences₃, hfences₂, ← Finmap.lookup_eq_none, Map.lookup_filterKeys, Map.lookup_filterKeys]
    simp [plainPolicy, HostPolicy.profile]
  obtain ⟨c₄, running₄, hpolicy₄, hepoch₄, hahead₄, hfence⟩ := beginAdoption_step (synced _) running₃ hp
    (by rw [hpolicy₃]; simp [plainPolicy, HostPolicy.profile]) habsent
  rw [← hstep] at running₄
  have room₄ : c₄.state.Room 0 := by
    have hepoch := room₁.epoch
    have hahead := room₁.ahead
    have hgeneration := room₁.generation
    refine ⟨by omega, by omega, ?_⟩
    rw [hpolicy₄, hpolicy₃]
    show max c₁.state.policy.generation 0 + 2 + 0 < 2 ^ 63
    omega
  refine ((closed.state_valid running₄ room₄).fences _ _ hfence).slotKey l.slotKey ?_
  refine DurableState.mem_activeLeaseSlotKeys.mpr ⟨key, l, ?_, rfl, active, rfl⟩
  rw [hleases₃, hleases₂]
  exact hleases₁ key l hl active

end Necessary

/-- An accepted document whose counters have room fails closed exactly when the unit costs of its policy are positive,
    the slots of its active leases under valid profile identities match their pattern, and the pending slots of its
    fences are in order. -/
theorem load_fails_closed_iff (document : DurableState) (accepted : Accepted document) (room : document.Room 3) :
    FailsClosed document ↔
      (∀ pp ∈ document.policy.profiles, 1 ≤ pp.unitCost) ∧
      (∀ key l, document.leases.lookup key = some l → l.status = .active → profileIDPattern l.profileID = true →
        slotKeyPattern l.slotKey = true) ∧
      ∀ id f, document.upgrade.adoptionFences.lookup id = some f → f.pending.Pairwise (· < ·) := by
  have valid := accepted_iff.mp accepted
  constructor
  · intro closed
    refine ⟨closed.costs, fun key l hl active hp => ?_, fun id f hf => ?_⟩
    · rw [← DurableState.upgrade_leases] at hl
      exact closed.slots valid room.upgrade hl active hp
    · obtain ⟨c, running, hsheds, hfences, -⟩ := opens_running valid 0
      have hroom := hsheds.room room.upgrade
      have hroom₀ : c.state.Room 0 :=
        ⟨by have := hroom.epoch; omega, hroom.ahead, by have := hroom.generation; omega⟩
      rw [← hfences] at hf
      exact closed.pending_sorted 0 _ [.start] c id f running hroom₀ hf rfl
  · rintro ⟨costs, slots, pending⟩
    refine DurableState.Tidy.failsClosed ⟨valid, ?_, ?_, pending⟩
    · rw [DurableState.upgrade_policy]
      exact costs
    · rw [DurableState.upgrade_leases]
      exact slots

/-- Before any policy was applied, with a profile of cost zero. -/
def costlessDocument : DurableState :=
  { newDurableState with policy := { profiles := [{ profileID := "alpha", unitCost := 0 }] } }

def activeLease (profileID slotKey : String) (sequence : Int) : Lease :=
  { profileID, slotKey, leaseID := leaseIDOf (leaseKey profileID slotKey) sequence, units := 1, status := .active,
    grantedAtSequence := sequence, activatedAtSequence := sequence }

/-- Two active leases under a fence that lists their slots out of order. -/
def unorderedDocument : DurableState :=
  { newDurableState with
    decisionSequence := 2
    policy := plainPolicy 1 ["alpha"]
    leases := ((∅ : Map String Lease).insert "alpha/slot-1" (activeLease "alpha" "slot-1" 1)).insert "alpha/slot-2"
      (activeLease "alpha" "slot-2" 2)
    adoptionFences := (∅ : Map String AdoptionFence).insert "alpha"
      { profileID := "alpha", pendingLeaseKeys := some ["slot-2", "slot-1"] } }

/-- An active lease with a slot that no call can name. -/
def unnameableDocument : DurableState :=
  { newDurableState with
    decisionSequence := 1
    policy := plainPolicy 1 ["alpha"]
    leases := (∅ : Map String Lease).insert "alpha/slot 1" (activeLease "alpha" "slot 1" 1) }

theorem accepted_of_validate {d : DurableState} (h : d.upgrade.validate .sorted = .ok ()) : Accepted d :=
  accepted_iff.mpr (DurableState.validate_ok.mp h)

/-- Three accepted documents: on the first the status divides by zero, on the second a release leaves its slot
    pending, and on the third an adoption saves a document; neither of these two is accepted again. -/
theorem accepted_documents_fail :
    (Accepted costlessDocument ∧
      (((World.initial 0 (some costlessDocument)).exec [.start]).coordinator?.map (·.divisors)) = some [0]) ∧
    (Accepted unorderedDocument ∧
      Store.load .sorted ((World.initial 0 (some unorderedDocument)).exec
        [.start, .plain (.release "alpha" "slot-1")]).store =
          .error (.corruptState (.fencePendingNotActive "alpha" "slot-1"))) ∧
    Accepted unnameableDocument ∧
      Store.load .sorted ((World.initial 0 (some unnameableDocument)).exec
        [.start, .plain (.beginAdoption "alpha")]).store =
        .error (.corruptState (.fencePendingInvalid "alpha")) := by
  refine ⟨⟨accepted_of_validate ?_, ?_⟩, ⟨accepted_of_validate ?_, ?_⟩, accepted_of_validate ?_, ?_⟩ <;> decide +kernel

/-- The two leases under a fence that lists their slots in order. -/
def orderedDocument : DurableState :=
  { unorderedDocument with
    adoptionFences := (∅ : Map String AdoptionFence).insert "alpha"
      { profileID := "alpha", pendingLeaseKeys := some ["slot-1", "slot-2"] } }

theorem load_fails_closed_iff_ordered : FailsClosed orderedDocument := by
  refine (load_fails_closed_iff orderedDocument (accepted_of_validate (by decide +kernel))
    ⟨by decide +kernel, by decide +kernel, by decide +kernel⟩).mpr
      ⟨by decide +kernel, fun key l hl _ _ => ?_, fun id f hf => ?_⟩
  · rw [orderedDocument, unorderedDocument, Map.lookup_insert_ite, Map.lookup_insert_ite] at hl
    split at hl
    · cases hl
      decide
    · split at hl
      · cases hl
        decide
      · cases hl
  · have hupgrade : orderedDocument.upgrade = orderedDocument := DurableState.upgrade_of_schema rfl
    rw [hupgrade, orderedDocument, Map.lookup_insert_ite] at hf
    split at hf
    · cases hf
      decide
    · cases hf

end PitCrew.Admission
