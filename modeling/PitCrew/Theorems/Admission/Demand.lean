import PitCrew.Theorems.Admission.FairShare

/-! # Demand

Demand lives in three maps of the process: the pending counts, the profiles whose demand is known, and the
deadlines. Every call forgets the demand of some profiles in all three at once (`Forgets`), or sets that of
one profile at the reading of the clock, or clears them with a new policy. So a contender has asked for
workers within `defaultDemandTTL`, since the policy was applied and the process was started. -/

namespace PitCrew.Admission
open Base Coordinator

namespace Coordinator
variable {c c' c'' : Coordinator} {env : Env}

/-! ## Forgetting demand -/

/-- `c'` is on the same policy and has the demand of some of the profiles of `c`. -/
structure Forgets (c c' : Coordinator) : Prop where
  policy : c'.state.policy = c.state.policy
  maps : ∃ keep : String → Bool, c'.demand = c.demand.filterKeys keep ∧ c'.demandKnown = c.demandKnown.filter (keep ·) ∧
    c'.demandDeadlines = c.demandDeadlines.filterKeys keep

theorem Forgets.of_eq (policy : c'.state.policy = c.state.policy) (demand : c'.demand = c.demand)
    (known : c'.demandKnown = c.demandKnown) (deadlines : c'.demandDeadlines = c.demandDeadlines) : Forgets c c' := by
  refine ⟨policy, fun _ => true, ?_, ?_, ?_⟩
  · rw [demand, Map.filterKeys_eq_self fun _ _ => rfl]
  · rw [known]
    exact (Finset.filter_true_of_mem fun _ _ => rfl).symm
  · rw [deadlines, Map.filterKeys_eq_self fun _ _ => rfl]

theorem Forgets.refl (c : Coordinator) : Forgets c c := .of_eq rfl rfl rfl rfl

theorem Forgets.trans (h : Forgets c c') (h' : Forgets c' c'') : Forgets c c'' := by
  obtain ⟨keep, hd, hk, hdl⟩ := h.maps
  obtain ⟨keep', hd', hk', hdl'⟩ := h'.maps
  refine ⟨h'.policy.trans h.policy, fun id => keep id && keep' id, ?_, ?_, ?_⟩
  · rw [hd', hd, Map.filterKeys_filterKeys]
  · rw [hk', hk, Finset.filter_filter]
    exact Finset.filter_congr fun _ _ => by rw [Bool.and_eq_true]
  · rw [hdl', hdl, Map.filterKeys_filterKeys]

theorem forgets_expireStale (c : Coordinator) (now : Int) : Forgets c (c.expireStaleDemandLocked now) :=
  ⟨rfl, _, rfl, rfl, rfl⟩

theorem forgets_sweep (hset : c.state.FencesSet) (env : Env) : Forgets c (c.sweepExpiredLocked env).1 := by
  rcases sweep_cases hset env with ⟨-, hs⟩ | ⟨-, -, hs⟩ | ⟨-, -, hs⟩
  · rw [hs]
    exact .refl c
  · rw [hs]
    exact .refl c
  · rw [hs]
    refine ⟨expelledState_policy, (fun id => id ∉ (c.expiredLeases env).map (·.2.profileID)), rfl, ?_, rfl⟩
    exact Finset.filter_congr fun _ _ => by rw [decide_eq_true_iff]

theorem forgets_become {s : DurableState} (h : s.policy = c.state.policy) : Forgets c (c.become s) :=
  .of_eq h rfl rfl rfl

theorem forgets_record {command : Command} {p : String} {granted : Bool} {err : Option Err} (c : Coordinator) :
    Forgets c (c.recordDecisionLocked env command p granted err) := by
  unfold recordDecisionLocked
  dsimp only
  split
  · exact .refl c
  · next h =>
    obtain ⟨-, rfl⟩ := persist_ok h
    exact forgets_become rfl

/-! ### The calls that set no demand -/

section Calls
variable {p k : String}

theorem forgets_beginAdoption (c : Coordinator) : Forgets c (c.beginAdoption env p).1 := by
  unfold beginAdoption
  split
  · exact .refl c
  · split
    · exact .refl c
    · split
      · exact .refl c
      · dsimp only
        split
        · exact .refl c
        · next h =>
          obtain ⟨-, rfl⟩ := persist_ok h
          exact forgets_become rfl

theorem forgets_completeAdoption (c : Coordinator) : Forgets c (c.completeAdoption env p).1 := by
  unfold completeAdoption
  split
  · exact .refl c
  · split
    · exact .refl c
    · split
      · exact .refl c
      · dsimp only
        split
        · exact .refl c
        · next h =>
          obtain ⟨-, rfl⟩ := persist_ok h
          exact forgets_become rfl

theorem forgets_bindRegistration {name : String} (c : Coordinator) :
    Forgets c (c.bindRegistrationSwept env p k name).1 := by
  unfold bindRegistrationSwept
  dsimp only
  split
  · exact .refl c
  · split
    · exact .refl c
    · split
      · exact .refl c
      · split
        · exact .refl c
        · next h =>
          obtain ⟨-, rfl⟩ := persist_ok h
          exact forgets_become rfl

theorem forgets_adoptInactive {l : Lease} (c : Coordinator) : Forgets c (c.adoptInactive env p k l).1 := by
  unfold adoptInactive
  dsimp only
  split
  · exact .refl c
  · next h =>
    obtain ⟨-, rfl⟩ := persist_ok h
    exact .of_eq DurableState.mark_policy rfl rfl rfl

theorem forgets_adopt (c : Coordinator) : Forgets c (c.adoptSwept env p k).1 := by
  unfold adoptSwept
  split
  · exact .refl c
  · split
    · split
      · split
        · exact .refl c
        · next next hmark =>
          split
          · exact .refl c
          · next h =>
            obtain ⟨-, rfl⟩ := persist_ok h
            have hpolicy : (c.state.clone.markLeaseAccountedForAdoption p k).1.policy = c.state.policy :=
              DurableState.mark_policy
            rw [hmark] at hpolicy
            exact forgets_become hpolicy
      · exact forgets_adoptInactive c
    · exact forgets_adoptInactive c

theorem forgets_renew {expired : List String} (c : Coordinator) : Forgets c (c.renewSwept env p k expired).1 := by
  unfold renewSwept
  dsimp only
  split
  · exact .refl c
  · split
    · exact .refl c
    · split
      · exact .refl c
      · split
        · exact .refl c
        · next h =>
          obtain ⟨-, rfl⟩ := persist_ok h
          exact .of_eq rfl rfl rfl rfl

theorem forgets_activate {expired : List String} (c : Coordinator) : Forgets c (c.activateSwept env p k expired).1 := by
  unfold activateSwept
  dsimp only
  split
  · exact .refl c
  · split
    · exact .refl c
    · split
      · exact .refl c
      · split
        · exact .refl c
        · next h =>
          obtain ⟨-, rfl⟩ := persist_ok h
          exact .of_eq rfl rfl rfl rfl

theorem forgets_tombstone {reason : TombstoneReason} {evidence : String} (c : Coordinator) :
    Forgets c (c.tombstoneLocked env p k reason evidence).1 := by
  unfold tombstoneLocked
  dsimp only
  split
  · split <;> exact .refl c
  · split
    · exact .refl c
    · next h =>
      obtain ⟨-, rfl⟩ := persist_ok h
      refine .of_eq ?_ rfl rfl rfl
      show (DurableState.compactTombstones _ _).policy = _
      rw [DurableState.compact_policy]
      exact DurableState.mark_policy

theorem forgets_swept {α : Type} {body : Coordinator → List String → Coordinator × Except Err α}
    (hset : c.state.FencesSet)
    (hbody : ∀ c keys, Forgets c (body c keys).1) : Forgets c (c.swept env body).1 := by
  have hsweep := forgets_sweep hset env
  unfold swept
  split
  · next hs =>
    rw [hs] at hsweep
    exact hsweep
  · next c' keys hs =>
    rw [hs] at hsweep
    exact hsweep.trans (hbody c' keys)

theorem forgets_deciding {α : Type} {command : Command} {granted : Except Err α → Bool}
    {body : Coordinator → Coordinator × Except Err α} (hbody : Forgets c (body c).1) :
    Forgets c (c.deciding env command p granted body).1 :=
  hbody.trans (forgets_record _)

end Calls
end Coordinator

/-- The calls that may set demand or clear it. -/
def Call.setsDemand : Call → Bool
  | .applyPolicy _ | .setDemand .. | .acquire .. => true
  | _ => false

theorem call_forgets {c : Coordinator} (hset : c.state.FencesSet) (env : Env) {call : Call}
    (h : call.setsDemand = false) :
    Forgets c (c.call env call).1 := by
  cases call with
  | applyPolicy | setDemand | acquire => cases h
  | beginAdoption => exact forgets_beginAdoption c
  | completeAdoption => exact forgets_completeAdoption c
  | bindRegistration =>
    show Forgets c (bindRegistration ..).1
    unfold bindRegistration
    split
    · exact .refl c
    · split
      · exact .refl c
      · exact forgets_swept hset fun c _ => forgets_bindRegistration c
  | adopt =>
    show Forgets c (adopt ..).1
    unfold adopt
    split
    · exact .refl c
    · exact forgets_deciding (forgets_swept hset fun c _ => forgets_adopt c)
  | renew =>
    show Forgets c (renew ..).1
    unfold renew
    split
    · exact .refl c
    · exact forgets_deciding (forgets_swept hset fun c _ => forgets_renew c)
  | activate =>
    show Forgets c (activate ..).1
    unfold activate
    split
    · exact .refl c
    · exact forgets_deciding (forgets_swept hset fun c _ => forgets_activate c)
  | release =>
    show Forgets c (release ..).1
    unfold release
    split
    · exact .refl c
    · exact forgets_deciding (forgets_swept hset fun c _ => forgets_tombstone c)
  | reconcile =>
    show Forgets c (reconcile ..).1
    unfold reconcile
    split
    · exact .refl c
    · split
      · exact .refl c
      · exact forgets_deciding (forgets_swept hset fun c _ => forgets_tombstone c)
  | status => exact forgets_swept hset fun c _ => forgets_expireStale c env.now

/-! ## Where demand comes from -/

namespace Coordinator
variable {c c' : Coordinator} {env : Env} {p k q : String} {n : Int} {R R' : String → Int → Prop}

/-- An acquisition gets past its fence, duplicate and policy checks. -/
def considers (c : Coordinator) (env : Env) (p k : String) : Bool :=
  (validateLeaseIdentity p k).isOk &&
    match c.sweepExpiredLocked env with
    | (_, .error _) => false
    | (c, .ok _) =>
      decide (c.state.adoptionFences.keys.card = 0) && (c.state.leases.lookup (leaseKey p k)).isNone &&
        (c.state.policy.profile p).isSome

def Refreshes (c : Coordinator) (env : Env) (call : Call) (q : String) : Prop :=
  match call with
  | .setDemand p n => q = p ∧ 0 < n ∧ (c.setDemand env p n).2 = .ok ()
  | .acquire p k _ => q = p ∧ c.considers env p k = true
  | _ => False

/-- Every count is positive, of a known profile, and has a deadline set when `R` says; the deadlines are those
    of the counts, and what is known is of the policy. -/
structure DemandFrom (R : String → Int → Prop) (c : Coordinator) : Prop where
  entry : ∀ q n, c.demand.lookup q = some n → 0 < n ∧ q ∈ c.demandKnown ∧
    ∃ t, c.demandDeadlines.lookup q = some (t + defaultDemandTTL) ∧ R q t
  deadline : ∀ q, q ∈ c.demandDeadlines → q ∈ c.demand
  known : ∀ q, q ∈ c.demandKnown → (c.state.policy.profile q).isSome = true

theorem DemandFrom.mono (h : c.DemandFrom R) (hR : ∀ q t, R q t → R' q t) : c.DemandFrom R' where
  entry q n hn := by
    obtain ⟨hpos, hknown, t, ht, hr⟩ := h.entry q n hn
    exact ⟨hpos, hknown, t, ht, hR q t hr⟩
  deadline := h.deadline
  known := h.known

theorem DemandFrom.forgets (h : c.DemandFrom R) (hf : Forgets c c') : c'.DemandFrom R := by
  obtain ⟨keep, hd, hk, hdl⟩ := hf.maps
  refine ⟨fun q n hn => ?_, fun q hq => ?_, fun q hq => ?_⟩
  · rw [hd, Map.lookup_filterKeys] at hn
    split at hn
    · next hkeep =>
      obtain ⟨hpos, hknown, t, ht, hr⟩ := h.entry q n hn
      refine ⟨hpos, ?_, t, ?_, hr⟩
      · rw [hk, Finset.mem_filter]
        exact ⟨hknown, hkeep⟩
      · rw [hdl, Map.lookup_filterKeys, if_pos hkeep, ht]
    · cases hn
  · rw [hdl, Map.mem_iff_lookup, Map.lookup_filterKeys] at hq
    rw [hd, Map.mem_iff_lookup, Map.lookup_filterKeys]
    split at hq
    · next hkeep =>
      rw [if_pos hkeep]
      exact Map.mem_iff_lookup.mp (h.deadline q (Map.mem_iff_lookup.mpr hq))
    · exact absurd rfl hq
  · rw [hk, Finset.mem_filter] at hq
    rw [hf.policy]
    exact h.known q hq.1

theorem DemandFrom.empty (hd : c.demand = ∅) (hk : c.demandKnown = ∅) (hdl : c.demandDeadlines = ∅) :
    c.DemandFrom R where
  entry q n hn := by
    rw [hd] at hn
    cases hn
  deadline q hq := by
    rw [hdl] at hq
    exact absurd hq Finmap.notMem_empty
  known q hq := by
    rw [hk] at hq
    exact absurd hq (Finset.notMem_empty q)

theorem DemandFrom.register (h : c.DemandFrom R) (known : (c.state.policy.profile p).isSome = true) (hn : 0 < n)
    (hr : R p env.now) : (c.registerDemand env p n).DemandFrom R where
  entry q m hm := by
    rcases Map.lookup_of_insert hm with ⟨rfl, rfl⟩ | ⟨hne, hold⟩
    · exact ⟨hn, Finset.mem_insert_self _ _, env.now, Finmap.lookup_insert _, hr⟩
    · obtain ⟨hpos, hknown, t, ht, hrt⟩ := h.entry q m hold
      exact ⟨hpos, Finset.mem_insert_of_mem hknown, t, (Finmap.lookup_insert_of_ne _ hne).trans ht, hrt⟩
  deadline q hq := by
    rcases Finmap.mem_insert.mp hq with rfl | hold
    · exact Finmap.mem_insert.mpr (Or.inl rfl)
    · exact Finmap.mem_insert.mpr (Or.inr (h.deadline q hold))
  known q hq := by
    rcases Finset.mem_insert.mp hq with rfl | hold
    · exact known
    · exact h.known q hold

theorem DemandFrom.erase (h : c.DemandFrom R) :
    ({ c with demand := c.demand.erase p, demandDeadlines := c.demandDeadlines.erase p } : Coordinator).DemandFrom
      R where
  entry q n hn := by
    obtain ⟨hne, hold⟩ := Map.lookup_of_erase hn
    obtain ⟨hpos, hknown, t, ht, hr⟩ := h.entry q n hold
    exact ⟨hpos, hknown, t, (Finmap.lookup_erase_ne hne).trans ht, hr⟩
  deadline q hq := by
    obtain ⟨hne, hold⟩ := Finmap.mem_erase.mp hq
    exact Finmap.mem_erase.mpr ⟨hne, h.deadline q hold⟩
  known := h.known

theorem DemandFrom.consume (h : c.DemandFrom R) (hn : c.demand.lookup p = some n) :
    (c.consumeDemand p n).DemandFrom R := by
  obtain ⟨hpos, hknown, t, ht, hr⟩ := h.entry p n hn
  unfold consumeDemand
  split
  · exact h.erase
  · refine ⟨fun q m hm => ?_, fun q hq => Finmap.mem_insert.mpr (Or.inr (h.deadline q hq)), h.known⟩
    rcases Map.lookup_of_insert hm with ⟨rfl, rfl⟩ | ⟨-, hold⟩
    · exact ⟨by omega, hknown, t, ht, hr⟩
    · exact h.entry q m hold

theorem DemandFrom.advanceRotation {m : Nat} (h : c.DemandFrom R) : (c.advanceRotationLocked m).DemandFrom R := by
  unfold advanceRotationLocked
  split
  · exact h
  · exact ⟨h.entry, h.deadline, h.known⟩

/-! ## What a call does to demand -/

theorem DemandFrom.applyPolicy {policy : HostPolicy} (h : c.DemandFrom R)
    (hR : (c.applyPolicy env policy).2 ≠ .ok () → ∀ q t, R q t → R' q t) :
    (c.applyPolicy env policy).1.DemandFrom R' := by
  unfold Coordinator.applyPolicy at hR ⊢
  split
  · next hv =>
    rw [hv] at hR
    exact h.mono (hR (by nofun))
  · next hv =>
    rw [hv] at hR
    dsimp only at hR ⊢
    split
    · next hstale =>
      rw [if_pos hstale] at hR
      exact h.mono (hR (by nofun))
    · next hnew =>
      rw [if_neg hnew] at hR
      split
      · next hsave =>
        rw [hsave] at hR
        exact h.mono (hR (by nofun))
      · exact .empty rfl rfl rfl

theorem DemandFrom.setDemand (h : c.DemandFrom R) (hR : ∀ q t, R q t → R' q t)
    (hnew : ∀ q, c.Refreshes env (.setDemand p n) q → R' q env.now) : (c.setDemand env p n).1.DemandFrom R' := by
  have h' := h.mono hR
  have hreply := hnew p
  unfold Refreshes Coordinator.setDemand at hreply
  unfold Coordinator.setDemand
  split
  · exact h'
  · next hid =>
    split
    · exact h'
    · next hneg =>
      split
      · exact h'
      · next hunknown =>
        have known : (c.state.policy.profile p).isSome = true := Option.isSome_iff_ne_none.mpr hunknown
        have hexpired : (c.expireStaleDemandLocked env.now).DemandFrom R' := h'.forgets (forgets_expireStale c env.now)
        split
        · next hzero =>
          have hknown : ({ c.expireStaleDemandLocked env.now with
              demandKnown := insert p (c.expireStaleDemandLocked env.now).demandKnown } :
                Coordinator).DemandFrom R' := by
            refine ⟨fun q m hm => ?_, hexpired.deadline, fun q hq => ?_⟩
            · obtain ⟨hpos, hold, ht⟩ := hexpired.entry q m hm
              exact ⟨hpos, Finset.mem_insert_of_mem hold, ht⟩
            · rcases Finset.mem_insert.mp hq with rfl | hold
              · exact known
              · exact hexpired.known q hold
          exact hknown.erase
        · next hzero =>
          have hpos : 0 < n := by omega
          refine DemandFrom.register hexpired known hpos (hreply ⟨rfl, hpos, ?_⟩)
          rw [hid, if_neg hneg, if_neg hunknown, if_neg hzero]

theorem DemandFrom.acquireSwept (h : c.DemandFrom R) (hR : ∀ q t, R q t → R' q t)
    (hnew : c.state.adoptionFences.keys.card = 0 → c.state.leases.lookup (leaseKey p k) = none →
      (c.state.policy.profile p).isSome = true → R' p env.now) : (c.acquireSwept env p k n).1.DemandFrom R' := by
  have h' : (c.expireStaleDemandLocked env.now).DemandFrom R' := (h.mono hR).forgets (forgets_expireStale c env.now)
  unfold Coordinator.acquireSwept
  dsimp only
  split
  · exact h'
  · next hfence =>
    split
    · exact h'
    · next hfree =>
      split
      · exact h'
      · next pp hknown =>
        have known : (c.state.policy.profile p).isSome = true := Option.isSome_iff_exists.mpr ⟨pp, hknown⟩
        have hpos : 0 < (if n < 1 then 1 else n) := by split <;> omega
        have hreg : ((c.expireStaleDemandLocked env.now).registerDemand env p (if n < 1 then 1 else n)).DemandFrom R' :=
          h'.register known hpos (hnew (Nat.eq_zero_of_not_pos hfence) hfree known)
        split
        · exact hreg
        · split
          · exact hreg
          · next hsave =>
            obtain ⟨-, rfl⟩ := persist_ok hsave
            refine DemandFrom.advanceRotation (DemandFrom.consume (hreg.forgets (.of_eq ?_ ?_ ?_ ?_)) ?_)
            · rfl
            · rfl
            · rfl
            · rfl
            · exact Finmap.lookup_insert _

theorem DemandFrom.acquire (h : c.DemandFrom R) (hset : c.state.FencesSet) (hR : ∀ q t, R q t → R' q t)
    (hnew : ∀ q, c.Refreshes env (.acquire p k n) q → R' q env.now) : (c.acquire env p k n).1.DemandFrom R' := by
  unfold Coordinator.acquire
  split
  · exact h.mono hR
  · next hid =>
    refine DemandFrom.forgets ?_ (forgets_record _)
    have hsweep := h.forgets (forgets_sweep hset env)
    have hconsiders : c.considers env p k = true → R' p env.now := fun hc => hnew p ⟨rfl, hc⟩
    unfold considers at hconsiders
    rw [hid] at hconsiders
    show (c.swept env fun c _ => c.acquireSwept env p k n).1.DemandFrom R'
    unfold swept
    split
    · next hs =>
      rw [hs] at hsweep
      exact hsweep.mono hR
    · next hs =>
      rw [hs] at hsweep hconsiders
      refine DemandFrom.acquireSwept hsweep hR fun hfence hfree known => hconsiders ?_
      simp only [hfence, hfree, known, Except.isOk, Except.toBool, decide_true, Option.isNone_none, Bool.and_self]

/-- A call keeps the demand accounted for: what was set stays set, unless a policy was applied, and what is new
    was set at this reading of the clock. -/
theorem DemandFrom.call {call : Call} (h : c.DemandFrom R) (hset : c.state.FencesSet)
    (hR : (∀ policy, call = .applyPolicy policy → (c.call env call).2 ≠ .done) → ∀ q t, R q t → R' q t)
    (hnew : ∀ q, c.Refreshes env call q → R' q env.now) : (c.call env call).1.DemandFrom R' := by
  by_cases hsets : call.setsDemand = true
  · cases call with
    | applyPolicy policy =>
      refine DemandFrom.applyPolicy h fun hfail => hR ?_
      rintro - - hdone
      change Reply.ofUnit (c.applyPolicy env policy).2 = .done at hdone
      cases hr : (c.applyPolicy env policy).2 with
      | error e =>
        rw [hr] at hdone
        cases hdone
      | ok u => exact hfail hr
    | setDemand p n => exact DemandFrom.setDemand h (hR (by nofun)) hnew
    | acquire p k n => exact DemandFrom.acquire h hset (hR (by nofun)) hnew
    | _ => cases hsets
  · refine (h.mono (hR ?_)).forgets (call_forgets hset env (by simpa using hsets))
    rintro policy rfl
    exact absurd rfl hsets

end Coordinator

/-! ## Runs -/

def Refreshes (t : Transition World Event Reply) (q : String) : Prop :=
  ∃ c call order saves, t.before.process = .running c ∧ t.event = .call call order saves ∧
    c.Refreshes { now := t.before.now, order, saves } call q

def ClearsDemand (t : Transition World Event Reply) : Prop :=
  (∃ ttl order saves, t.event = .restart ttl order saves) ∨
    ∃ policy order saves, t.event = .call (.applyPolicy policy) order saves ∧ t.reply = .done

/-- The demand of the profile was set or renewed at the reading `time` of the clock, after the last restart and
    the last policy. -/
def RefreshedAt (history : List (Transition World Event Reply)) (q : String) (time : Int) : Prop :=
  ∃ xs t ys, history = xs ++ t :: ys ∧ Refreshes t q ∧ t.before.now = time ∧ ∀ u ∈ ys, ¬ClearsDemand u

theorem RefreshedAt.concat {history : List (Transition World Event Reply)}
    {t : Transition World Event Reply} {q : String}
    {time : Int} (h : RefreshedAt history q time) (ht : ¬ClearsDemand t) : RefreshedAt (history ++ [t]) q time := by
  obtain ⟨xs, u, ys, rfl, hu, htime, hys⟩ := h
  refine ⟨xs, u, ys ++ [t], by simp, hu, htime, fun v hv => ?_⟩
  rcases List.mem_append.mp hv with hv | hv
  · exact hys v hv
  · rw [List.mem_singleton.mp hv]
    exact ht

theorem RefreshedAt.last {history : List (Transition World Event Reply)} {t : Transition World Event Reply} {q : String}
    (h : Refreshes t q) : RefreshedAt (history ++ [t]) q t.before.now :=
  ⟨history, t, [], rfl, h, rfl, fun _ hu => absurd hu List.not_mem_nil⟩

/-- The demand of the process was set since the last restart and the last policy of the history. -/
structure Demanded (history : List (Transition World Event Reply)) (w : World) : Prop where
  synced : w.Synced
  demand : ∀ c, w.process = .running c → c.DemandFrom (RefreshedAt history)

theorem Demanded.step {history : List (Transition World Event Reply)} {w : World} (h : Demanded history w) (e : Event) :
    Demanded (history ++ [⟨w, e, (w.step e).2, (w.step e).1⟩]) (w.step e).1 := by
  refine ⟨World.step_synced h.synced e, fun c' running' => ?_⟩
  cases e with
  | clock now =>
    refine (h.demand c' running').mono fun q t ht => ht.concat ?_
    rintro (⟨_, _, _, he⟩ | ⟨_, _, _, he, -⟩) <;> cases he
  | restart ttl order saves =>
    obtain ⟨heq, -⟩ := (World.step_moved h.synced (.restart ttl order saves)).fresh running'
    refine .empty ?_ ?_ ?_ <;> rw [heq] <;> rfl
  | call call order saves =>
    cases hp : w.process with
    | stopped store =>
      rw [World.step, hp] at running'
      cases hp.symm.trans running'
    | running c =>
      have hstep : w.step (.call call order saves) =
          ({ w with process := .running (c.call { now := w.now, order, saves } call).1 },
            (c.call { now := w.now, order, saves } call).2) := by
        simp only [World.step, hp]
      rw [hstep] at running' ⊢
      cases running'
      refine (h.demand c hp).call (h.synced c hp).fences (fun happly q t ht => ht.concat ?_) fun q hq => ?_
      · rintro (⟨_, _, _, he⟩ | ⟨policy, _, _, he, hreply⟩)
        · cases he
        · cases he
          exact happly policy rfl hreply
      · exact RefreshedAt.last ⟨c, call, order, saves, hp, rfl, hq⟩

theorem World.exec_demanded (now : Int) (document : Option DurableState) (events : List Event) :
    Demanded ((initial now document).transitions events) ((initial now document).exec events) :=
  history_induction (I := Demanded) ⟨initial_synced now document, fun c hc => by cases hc⟩
    (fun _ _ e h => h.step e) events

/-! ## Contenders -/

namespace Coordinator
variable {c : Coordinator} {env : Env} {p k q : String} {n : Int} {R : String → Int → Prop}

/-- The contenders among whom a call shares the pool: those of the decision of an acquisition that gets that far,
    and those of a status report. -/
def contendersOf (c : Coordinator) (env : Env) : Call → List String
  | .acquire p k n => if c.considers env p k then (c.atDecision env p k n).contendersLocked else []
  | .status => if (c.sweepExpiredLocked env).2.isOk then (c.current env).contendersLocked else []
  | _ => []

theorem DemandFrom.fresh (h : c.DemandFrom R) (hset : c.state.FencesSet) (hq : q ∈ (c.current env).contendersLocked) :
    (c.state.policy.profile q).isSome = true ∧ ∃ t, R q t ∧ env.now - t < defaultDemandTTL := by
  obtain ⟨hpos, hpolicy⟩ := mem_contenders.mp hq
  rw [(current_state hset env).1] at hpolicy
  refine ⟨hpolicy, ?_⟩
  have hswept := h.forgets (forgets_sweep hset env)
  rw [Map.getD] at hpos
  cases hn : (c.current env).demand.lookup q with
  | none =>
    rw [hn] at hpos
    exact absurd hpos (lt_irrefl 0)
  | some n =>
    change (Map.filterKeys _ (c.sweepExpiredLocked env).1.demand).lookup q = some n at hn
    rw [Map.lookup_filterKeys] at hn
    split at hn
    · next hfresh =>
      obtain ⟨-, -, t, ht, hr⟩ := hswept.entry q n hn
      rw [ht, Option.all_some, decide_eq_true_iff] at hfresh
      exact ⟨t, hr, by omega⟩
    · cases hn

theorem considers_identity (h : c.considers env p k = true) : profileIDPattern p = true ∧ slotKeyPattern k = true := by
  unfold considers at h
  rw [Bool.and_eq_true] at h
  cases hid : validateLeaseIdentity p k with
  | error e =>
    rw [isOk_of_error hid] at h
    cases h.1
  | ok u => exact validateLeaseIdentity_ok.mp hid

theorem considers_known (hset : c.state.FencesSet) (h : c.considers env p k = true) :
    (c.state.policy.profile p).isSome = true := by
  have hpolicy := (forgets_sweep hset env).policy
  unfold considers at h
  split at h
  · rw [Bool.and_false] at h
    cases h
  · next hs =>
    rw [hs] at hpolicy
    simp only [Bool.and_eq_true] at h
    rw [← hpolicy]
    exact h.2.2

theorem DemandFrom.contenders {call : Call} (h : c.DemandFrom R) (hset : c.state.FencesSet)
    (hq : q ∈ c.contendersOf env call) : (c.state.policy.profile q).isSome = true ∧
      ((∃ t, R q t ∧ env.now - t < defaultDemandTTL) ∨ c.Refreshes env call q) := by
  cases call with
  | acquire p k n =>
    simp only [contendersOf] at hq
    split at hq
    · next hc =>
      obtain ⟨hp, hk⟩ := considers_identity hc
      rw [atDecision_eq hp hk] at hq
      by_cases heq : q = p
      · subst heq
        exact ⟨considers_known hset hc, Or.inr ⟨rfl, hc⟩⟩
      · have hold : q ∈ (c.current env).contendersLocked := by
          rw [mem_contenders] at hq ⊢
          refine ⟨?_, hq.2⟩
          have hpos := hq.1
          rw [Map.getD] at hpos ⊢
          change 0 < (Finmap.lookup q ((c.current env).demand.insert p _)).getD 0 at hpos
          rwa [Finmap.lookup_insert_of_ne _ heq] at hpos
        obtain ⟨hpolicy, t, hr, hlt⟩ := h.fresh hset hold
        exact ⟨hpolicy, Or.inl ⟨t, hr, hlt⟩⟩
    · cases hq
  | status =>
    simp only [contendersOf] at hq
    split at hq
    · obtain ⟨hpolicy, t, hr, hlt⟩ := h.fresh hset hq
      exact ⟨hpolicy, Or.inl ⟨t, hr, hlt⟩⟩
    · cases hq
  | _ => cases hq

end Coordinator

theorem setDemand_store {c : Coordinator} {env : Env} (p : String) (n : Int) :
    (c.setDemand env p n).1.store = c.store := by
  unfold setDemand
  split
  · rfl
  · split
    · rfl
    · split
      · rfl
      · dsimp only
        split <;> rfl

/-- In every state of every run, whatever document it starts from: the contenders of an acquisition or of a
    status report are profiles of the policy whose demand was set or renewed within `defaultDemandTTL`, since
    the last restart and the last policy; every count is positive, has a deadline, is known and is of a profile
    of the policy, so the three maps have at most one entry for each; and neither setting demand nor any other
    bookkeeping of it changes the ledger. -/
theorem stale_demand_ignored (now : Int) (document : Option DurableState) (events : List Event) (c : Coordinator)
    (running : ((World.initial now document).exec events).process = .running c) :
    let w := (World.initial now document).exec events
    (∀ call order saves, ∀ q ∈ c.contendersOf { now := w.now, order, saves } call,
        (c.state.policy.profile q).isSome = true ∧
          ∃ t, RefreshedAt ((World.initial now document).transitions (events ++ [.call call order saves])) q t ∧
            w.now - t < defaultDemandTTL) ∧
      (∀ q n, c.demand.lookup q = some n →
        0 < n ∧ q ∈ c.demandDeadlines ∧ q ∈ c.demandKnown ∧ (c.state.policy.profile q).isSome = true) ∧
      (c.demand.keys.card ≤ c.state.policy.profiles.length ∧ c.demandKnown.card ≤ c.state.policy.profiles.length ∧
        c.demandDeadlines.keys.card ≤ c.state.policy.profiles.length) ∧
      (∀ p n order saves, (w.step (.call (.setDemand p n) order saves)).1.ledger = w.ledger) ∧
      ∀ env p n, (c.expireStaleDemandLocked env.now).state = c.state ∧ (c.registerDemand env p n).state = c.state ∧
        (c.consumeDemand p n).state = c.state := by
  intro w
  obtain ⟨synced, demand⟩ := World.exec_demanded now document events
  have hset := (synced c running).fences
  have hdemand := demand c running
  have hids : c.demandKnown ⊆ (c.state.policy.profiles.map (·.profileID)).toFinset := by
    intro q hq
    rw [List.mem_toFinset]
    obtain ⟨pp, hpp⟩ := Option.isSome_iff_exists.mp (hdemand.known q hq)
    obtain ⟨hmem, hid⟩ := HostPolicy.profile_some hpp
    exact List.mem_map.mpr ⟨pp, hmem, hid⟩
  have hcount : (c.state.policy.profiles.map (·.profileID)).toFinset.card ≤ c.state.policy.profiles.length := by
    have := List.toFinset_card_le (c.state.policy.profiles.map (·.profileID))
    rwa [List.length_map] at this
  have hknown : c.demand.keys ⊆ c.demandKnown := by
    intro q hq
    obtain ⟨n, hn⟩ := Finmap.mem_iff.mp (Finmap.mem_keys.mp hq)
    exact (hdemand.entry q n hn).2.1
  have hdeadlines : c.demandDeadlines.keys ⊆ c.demandKnown := by
    intro q hq
    exact hknown (Finmap.mem_keys.mpr (hdemand.deadline q (Finmap.mem_keys.mp hq)))
  refine ⟨fun call order saves q hq => ?_, fun q n hn => ?_, ⟨?_, ?_, ?_⟩, fun p n order saves => ?_,
    fun env p n => ⟨rfl, rfl, (alike_consumeDemand c p n).state⟩⟩
  · obtain ⟨hpolicy, hfrom⟩ := hdemand.contenders hset hq
    refine ⟨hpolicy, ?_⟩
    have hhistory : (World.initial now document).transitions (events ++ [.call call order saves]) =
        (World.initial now document).transitions events ++
          [⟨w, .call call order saves, (w.step (.call call order saves)).2, (w.step (.call call order saves)).1⟩] :=
      transitions_append _ _ _ _
    rw [hhistory]
    rcases hfrom with ⟨t, ht, hlt⟩ | hrefreshes
    · refine ⟨t, ht.concat ?_, hlt⟩
      rintro (⟨_, _, _, he⟩ | ⟨policy, _, _, he, -⟩)
      · cases he
      · cases he
        cases hq
    · refine ⟨w.now, RefreshedAt.last ⟨c, call, order, saves, running, rfl, hrefreshes⟩, ?_⟩
      rw [sub_self]
      decide
  · obtain ⟨hpos, hq, t, ht, -⟩ := hdemand.entry q n hn
    exact ⟨hpos, Finmap.mem_of_lookup_eq_some ht, hq, hdemand.known q hq⟩
  · exact (Finset.card_le_card (hknown.trans hids)).trans hcount
  · exact (Finset.card_le_card hids).trans hcount
  · exact (Finset.card_le_card (hdeadlines.trans hids)).trans hcount
  · have hstep : (w.step (.call (.setDemand p n) order saves)).1 =
        { w with process := .running (c.call { now := w.now, order, saves } (.setDemand p n)).1 } := by
      simp only [World.step, w, running]
    have hstore : (c.call { now := w.now, order, saves } (.setDemand p n)).1.store = c.store := setDemand_store p n
    rw [hstep]
    simp only [World.ledger, World.store, w, running]
    exact congrArg Store.ledger hstore

/-- Beta asked for a worker half a minute ago and alpha asks now. -/
def askedBefore : List Event :=
  [.start, .plain (.applyPolicy evenPolicy), .plain (.setDemand "beta" 1), .clock 29999999999]

/-- Within the half minute beta contends with alpha. -/
theorem stale_demand_ignored_askedBefore :
    ∃ t, RefreshedAt ((World.initial 0 none).transitions (askedBefore ++ [.plain (.acquire "alpha" "slot-1" 1)])) "beta"
      t ∧
      29999999999 - t < defaultDemandTTL :=
  ((stale_demand_ignored 0 none askedBefore _ rfl).1 (.acquire "alpha" "slot-1" 1) .sorted {} "beta"
    (by decide +kernel)).2

end PitCrew.Admission
