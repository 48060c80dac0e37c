import PitCrew.Theorems.Admission.Budget

/-! # The reply of an acquisition

An acquisition is decided on the ledger that its sweep leaves, with the stale demand gone and its own
demand registered (`atDecision`). Its reply is a function of that coordinator (`verdict`), unless the
sweep could not be saved. -/

namespace PitCrew.Admission
open Base Coordinator

namespace Coordinator

def atDecision (c : Coordinator) (env : Env) (p k : String) (n : Int) : Coordinator :=
  ((c.sweptFor env (.acquire p k n)).expireStaleDemandLocked env.now).registerDemand env p (if n < 1 then 1 else n)

/-- The reply of an acquisition decided on `d`. -/
def verdict (d : Coordinator) (env : Env) (p k : String) : Reply :=
  if d.state.adoptionFences.keys.card > 0 then .failed (.adoptionPending 0)
  else
    match d.state.leases.lookup (leaseKey p k) with
    | some l => .failed (.duplicateLease l)
    | none =>
      match d.state.policy.profile p with
      | none => .failed .unknownProfile
      | some pp =>
        match d.evaluateAcquireLocked p pp d.heldUnitsByProfileLocked with
        | .error e => .failed e
        | .ok _ => if env.saves.change then .lease (d.provisionalLease env p k pp.unitCost) else .failed .store

variable {c : Coordinator} {env : Env} {p k : String} {n : Int}

theorem atDecision_alike : Alike (c.sweptFor env (.acquire p k n)) (c.atDecision env p k n) :=
  (alike_expireStaleDemand _ _).trans (alike_registerDemand _ _ _ _)

theorem verdict_of_open {d : Coordinator} {pp : ProfilePolicy} (unfenced : d.state.adoptionFences.keys.card = 0)
    (absent : d.state.leases.lookup (leaseKey p k) = none) (known : d.state.policy.profile p = some pp) :
    d.verdict env p k =
      match d.evaluateAcquireLocked p pp d.heldUnitsByProfileLocked with
      | .error e => .failed e
      | .ok _ => if env.saves.change then .lease (d.provisionalLease env p k pp.unitCost) else .failed .store := by
  unfold verdict
  rw [if_neg (by omega), absent, known]

theorem acquireSwept_reply (c : Coordinator) :
    Reply.ofLease (c.acquireSwept env p k n).2 =
      ((c.expireStaleDemandLocked env.now).registerDemand env p (if n < 1 then 1 else n)).verdict env p k := by
  unfold acquireSwept verdict
  dsimp only
  generalize hd : (c.expireStaleDemandLocked env.now).registerDemand env p (if n < 1 then 1 else n) = d
  have hstate : (c.expireStaleDemandLocked env.now).state = d.state := hd ▸ rfl
  rw [hstate]
  by_cases hfence : d.state.adoptionFences.keys.card > 0
  · rw [if_pos hfence, if_pos hfence]
    rfl
  · rw [if_neg hfence, if_neg hfence]
    cases d.state.leases.lookup (leaseKey p k) with
    | some l => rfl
    | none =>
      cases d.state.policy.profile p with
      | none => rfl
      | some pp =>
        dsimp only
        cases d.evaluateAcquireLocked p pp d.heldUnitsByProfileLocked with
        | error e => rfl
        | ok m => cases env.saves.change <;> rfl

theorem acquire_reply (c : Coordinator) (hp : profileIDPattern p = true) (hk : slotKeyPattern k = true)
    (hset : c.state.FencesSet) :
    (c.call env (.acquire p k n)).2 = (c.atDecision env p k n).verdict env p k ∨
      c.expiredLeases env ≠ [] ∧ env.saves.sweep = false ∧ (c.call env (.acquire p k n)).2 = .failed .store := by
  have hid : validateLeaseIdentity p k = .ok () := validateLeaseIdentity_ok.mpr ⟨hp, hk⟩
  have hsweeps : (Call.acquire p k n).sweeps = true := isOk_of_ok hid
  simp only [call, acquire, hid, deciding, swept, Prod.map_snd]
  unfold atDecision sweptFor
  rw [if_pos hsweeps]
  rcases sweep_cases hset env with ⟨-, hs⟩ | ⟨hne, hsave, hs⟩ | ⟨-, -, hs⟩
  · rw [hs]
    exact Or.inl (acquireSwept_reply c)
  · rw [hs]
    exact Or.inr ⟨hne, hsave, rfl⟩
  · rw [hs]
    exact Or.inl (acquireSwept_reply _)

/-! ## Contenders -/

/-- The coordinator as it stands at a reading of the clock: swept, and without stale demand. -/
def current (c : Coordinator) (env : Env) : Coordinator := (c.sweepExpiredLocked env).1.expireStaleDemandLocked env.now

theorem atDecision_eq (hp : profileIDPattern p = true) (hk : slotKeyPattern k = true) :
    c.atDecision env p k n = (c.current env).registerDemand env p (if n < 1 then 1 else n) := by
  have hid : validateLeaseIdentity p k = .ok () := validateLeaseIdentity_ok.mpr ⟨hp, hk⟩
  have hsweeps : (Call.acquire p k n).sweeps = true := isOk_of_ok hid
  unfold atDecision sweptFor current
  rw [if_pos hsweeps]

theorem mem_contenders {id : String} :
    id ∈ c.contendersLocked ↔ 0 < c.demand.getD id 0 ∧ (c.state.policy.profile id).isSome = true := by
  unfold contendersLocked
  rw [mem_sortedList, Finset.mem_filter, and_iff_right_iff_imp]
  rintro ⟨hpos, -⟩
  rw [Finmap.mem_keys, Map.mem_iff_lookup]
  intro hnone
  rw [Map.getD, hnone] at hpos
  exact lt_irrefl _ hpos

theorem contenders_registerDemand (hp : p ∈ c.contendersLocked) (hn : 0 < n) :
    (c.registerDemand env p n).contendersLocked = c.contendersLocked := by
  unfold contendersLocked
  refine eq_sortedList (sortedList_sorted _) fun id => ?_
  rw [← contendersLocked, mem_contenders, ← mem_sortedList, ← contendersLocked, mem_contenders]
  refine and_congr_left fun _ => ?_
  by_cases hid : id = p
  · subst hid
    refine iff_of_true ?_ (mem_contenders.mp hp).1
    rw [Map.getD]
    show 0 < ((c.demand.insert id n).lookup id).getD 0
    rw [Finmap.lookup_insert]
    exact hn
  · rw [Map.getD, Map.getD]
    show 0 < ((c.demand.insert p n).lookup id).getD 0 ↔ _
    rw [Finmap.lookup_insert_of_ne _ hid]

theorem evaluateAcquire_congr {d : Coordinator} (hpolicy : d.state.policy = c.state.policy)
    (hleases : d.state.leases = c.state.leases) (hrotation : d.rotation = c.rotation)
    (hcontenders : d.contendersLocked = c.contendersLocked) (p : String) (pp : ProfilePolicy) :
    d.evaluateAcquireLocked p pp d.heldUnitsByProfileLocked =
      c.evaluateAcquireLocked p pp c.heldUnitsByProfileLocked := by
  unfold evaluateAcquireLocked fairTurnLocked fairAllocatableUnitsLocked guaranteedShareLocked reservedUnitsLocked
    protectedNonBorrowableLocked heldUnitsByProfileLocked
  rw [hpolicy, hleases, hrotation, hcontenders]

theorem current_state (hset : c.state.FencesSet) (env : Env) :
    (c.current env).state.policy = c.state.policy ∧ (c.current env).state.adoptionFences = c.state.adoptionFences := by
  have hstate : (c.current env).state = (c.sweptFor env .status).state := rfl
  rw [hstate]
  exact ⟨sweptFor_policy hset env .status, sweptFor_fences hset env .status⟩

theorem acquire_of_contender (hset : c.state.FencesSet) (hp : profileIDPattern p = true) (hk : slotKeyPattern k = true)
    (works : env.saves = {}) (unfenced : c.state.adoptionFences.keys.card = 0) {pp : ProfilePolicy}
    (known : (c.current env).state.policy.profile p = some pp)
    (absent : (c.current env).state.leases.lookup (leaseKey p k) = none)
    (hcontender : p ∈ (c.current env).contendersLocked) :
    (c.call env (.acquire p k n)).2 =
      match (c.current env).evaluateAcquireLocked p pp (c.current env).heldUnitsByProfileLocked with
      | .error e => .failed e
      | .ok _ => .lease ((c.current env).provisionalLease env p k pp.unitCost) := by
  have hn : 0 < if n < 1 then 1 else n := by split <;> omega
  have hdecide := evaluateAcquire_congr (c := c.current env)
    (d := (c.current env).registerDemand env p (if n < 1 then 1 else n)) rfl rfl rfl
      (contenders_registerDemand hcontender hn)
    p pp
  have hverdict : (c.call env (.acquire p k n)).2 = (c.atDecision env p k n).verdict env p k := by
    rcases acquire_reply c hp hk hset with h | ⟨-, hsave, -⟩
    · exact h
    · rw [works] at hsave
      cases hsave
  rw [hverdict, atDecision_eq hp hk, verdict_of_open (d := (c.current env).registerDemand env p _) ?_ absent
    known, hdecide]
  · cases (c.current env).evaluateAcquireLocked p pp (c.current env).heldUnitsByProfileLocked with
    | error e => rfl
    | ok m =>
      rw [works]
      rfl
  · show (c.current env).state.adoptionFences.keys.card = 0
    rw [(current_state hset env).2]
    exact unfenced

theorem acquire_of_fenced (hset : c.state.FencesSet) (hp : profileIDPattern p = true) (hk : slotKeyPattern k = true)
    (hsave : env.saves.sweep = true) (fenced : c.state.adoptionFences.keys.card ≠ 0) :
    (c.call env (.acquire p k n)).2 = .failed (.adoptionPending 0) := by
  have hfences : (c.atDecision env p k n).state.adoptionFences = c.state.adoptionFences := by
    rw [atDecision_eq hp hk]
    exact (current_state hset env).2
  rcases acquire_reply c hp hk hset with h | ⟨-, hfail, -⟩
  · rw [h, verdict, hfences, if_pos (by omega)]
  · rw [hsave] at hfail
    cases hfail

/-! ## Refusals for lack of units -/

theorem acquire_invalid {e : Err} (h : validateLeaseIdentity p k = .error e) :
    (c.call env (.acquire p k n)).2 = .failed e := by
  simp only [call, acquire, h]
  rfl

theorem validateLeaseIdentity_error {e : Err} (h : validateLeaseIdentity p k = .error e) :
    e = .invalidIdentity .profileID p ∨ e = .invalidIdentity .slotKey k := by
  unfold validateLeaseIdentity validateProfileID validateSlotKey reject at h
  by_cases hp : profileIDPattern p = false
  · simp only [hp] at h
    cases h
    exact Or.inl rfl
  · by_cases hk : slotKeyPattern k = false
    · simp only [hp, hk] at h
      cases h
      exact Or.inr rfl
    · simp only [hp, hk] at h
      cases h

/-- An acquisition is refused for lack of units only where its profile does not fit the free units. -/
theorem verdict_budgetExhausted {d : Coordinator} (h : d.verdict env p k = .failed .budgetExhausted) :
    ∃ pp, d.state.policy.profile p = some pp ∧ d.freeUnits < pp.unitCost := by
  unfold verdict at h
  split at h
  · cases h
  · split at h
    · cases h
    · split at h
      · cases h
      · next pp known =>
        refine ⟨pp, known, ?_⟩
        rw [evaluateAcquire_eq] at h
        by_contra hfree
        rw [if_neg hfree] at h
        split at h
        · next e he =>
          cases h
          split at he
          · cases he
          · split at he
            · cases he
            · split at he <;> cases he
        · split at h <;> cases h

theorem acquire_budgetExhausted (hset : c.state.FencesSet)
    (h : (c.call env (.acquire p k n)).2 = .failed .budgetExhausted) :
    ∃ pp, (c.sweptFor env (.acquire p k n)).state.policy.profile p = some pp ∧
      (c.sweptFor env (.acquire p k n)).freeUnits < pp.unitCost := by
  have hstate : (c.atDecision env p k n).state = (c.sweptFor env (.acquire p k n)).state := atDecision_alike.state
  cases hid : validateLeaseIdentity p k with
  | error e =>
    rw [acquire_invalid hid] at h
    cases h
    rcases validateLeaseIdentity_error hid with he | he <;> cases he
  | ok u =>
    obtain ⟨hp, hk⟩ := validateLeaseIdentity_ok.mp hid
    rcases acquire_reply c hp hk hset with hv | ⟨-, -, hv⟩
    · rw [hv] at h
      obtain ⟨pp, known, hfree⟩ := verdict_budgetExhausted h
      unfold freeUnits at hfree ⊢
      rw [hstate] at known hfree
      exact ⟨pp, known, hfree⟩
    · rw [hv] at h
      cases h

end Coordinator
end PitCrew.Admission
