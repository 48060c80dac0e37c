import PitCrew.Theorems.Admission.Acquire
import PitCrew.Base.Keyed

/-! # Protected reservations

The headroom is what the non-borrowable profiles have reserved and do not hold. The shared-pool path of
an acquisition leaves it alone, and so does the path of a non-borrowable profile into its own
reservation. The path of a borrowable profile into its own reservation checks only the free units: it
takes headroom whenever other profiles have borrowed that reservation before. -/

namespace PitCrew.Admission
open Base Coordinator

/-- The unused reservations of the non-borrowable profiles. -/
def DurableState.headroom (s : DurableState) : Int :=
  (s.policy.profiles.map fun pp =>
    if pp.borrowable = true then 0 else max (pp.reservedUnits - s.heldBy pp.profileID) 0).sum

def DurableState.Covered (s : DurableState) : Prop := s.headroom ≤ s.policy.totalUnits - s.heldUnits

instance (s : DurableState) : Decidable s.Covered := inferInstanceAs (Decidable (_ ≤ _))

namespace DurableState

variable {s s' : DurableState}

theorem heldBy_nonneg (units : ∀ key l, s.leases.lookup key = some l → 0 ≤ l.units) (p : String) : 0 ≤ s.heldBy p := by
  refine Map.sumOf_nonneg fun e he => ?_
  split
  · exact units e.1 e.2 (Map.mem_entries_iff.mp he)
  · exact le_rfl

theorem covered_of_empty (valid : s.policy.Valid) (empty : s.leases = ∅) : s.Covered := by
  have hheld : s.heldUnits = 0 := by rw [heldUnits, empty, Map.sumOf_empty]
  have hby (p : String) : s.heldBy p = 0 := by rw [heldBy, empty, Map.sumOf_empty]
  have hle : s.headroom ≤ (s.policy.profiles.map (·.reservedUnits)).sum := by
    refine List.sum_le_sum fun pp hpp => ?_
    have := (valid.profiles pp hpp).reserved
    rw [hby]
    split <;> omega
  have := valid.reserved
  unfold Covered
  omega

theorem Covered.erase (h : s.Covered) (valid : s.policy.Valid) {key : String}
    (units : ∀ key l, s.leases.lookup key = some l → 0 ≤ l.units) (hp : s'.policy = s.policy)
    (hl : s'.leases = s.leases.erase key) : s'.Covered := by
  cases hlook : s.leases.lookup key with
  | none =>
    rw [Map.erase_eq_self hlook] at hl
    unfold Covered headroom heldUnits heldBy
    rw [hp, hl]
    exact h
  | some l =>
    have hheld : s'.heldUnits = s.heldUnits - l.units := by rw [heldUnits, hl, Map.sumOf_erase hlook, heldUnits]
    have hby (p : String) : s'.heldBy p = s.heldBy p - if l.profileID = p then l.units else 0 := by
      rw [heldBy, hl, Map.sumOf_erase hlook, heldBy]
    have hunits := units key l hlook
    have hgrow : s'.headroom ≤ s.headroom + l.units := by
      unfold headroom
      rw [hp]
      refine sum_map_le_add (k := l.profileID) valid.distinct hunits fun pp _ => ?_
      rw [hby]
      by_cases hid : pp.profileID = l.profileID
      · rw [if_pos hid, if_pos hid.symm]
        split <;> omega
      · rw [if_neg hid, if_neg (Ne.symm hid)]
        split <;> omega
    unfold Covered at h ⊢
    rw [hp, hheld]
    omega

theorem Covered.discardAll (h : s.Covered) (valid : s.policy.Valid)
    (units : ∀ key l, s.leases.lookup key = some l → 0 ≤ l.units) (reason : TombstoneReason) (l : List (String × Lease))
    (o : RangeOrder String) : ((s.discardAll reason l).compactTombstones o).Covered := by
  have hcov : (s.discardAll reason l).Covered := by
    induction l generalizing s with
    | nil => exact h
    | cons e l ih =>
      refine ih (s := s.discard reason e.1 e.2) (h.erase valid units rfl rfl) valid fun key lease hk => ?_
      change (s.leases.erase e.1).lookup key = some lease at hk
      rw [Map.lookup_erase_ite] at hk
      split at hk
      · cases hk
      · exact units key lease hk
  unfold Covered headroom heldUnits heldBy at hcov ⊢
  rw [compact_policy, compact_leases]
  exact hcov

end DurableState

/-! ## Grants -/

/-- Whether one more worker of a profile leaves the headroom of the other profiles alone: only a
    borrowable profile that fits its own reservation can fail to. -/
def Coordinator.spares (c : Coordinator) (p : String) : Bool :=
  match c.state.policy.profile p with
  | none => true
  | some pp => !pp.borrowable || decide (c.ownRemaining p pp < pp.unitCost) || decide (pp.unitCost ≤ c.available p)

section Grants
variable {env : Env} {c c' : Coordinator} {p k : String} {pp : ProfilePolicy} {l : Lease}

theorem protectedNonBorrowable_eq (c : Coordinator) (p : String) :
    c.protectedNonBorrowableLocked p c.heldUnitsByProfileLocked =
      (c.state.policy.profiles.map fun pp => if pp.profileID = p then 0
        else if pp.borrowable = true then 0 else max (pp.reservedUnits - c.state.heldBy pp.profileID) 0).sum := by
  unfold protectedNonBorrowableLocked
  refine congrArg List.sum (List.map_congr_left fun pp _ => ?_)
  rw [held_getD]
  by_cases hid : pp.profileID = p <;> simp [hid]

theorem headroom_split (c : Coordinator) (valid : c.state.policy.Valid) (known : c.state.policy.profile p = some pp) :
    c.state.headroom = c.protectedNonBorrowableLocked p c.heldUnitsByProfileLocked +
      if pp.borrowable = true then 0 else c.ownRemaining p pp := by
  obtain ⟨hmem, hid⟩ := HostPolicy.profile_some known
  subst hid
  rw [protectedNonBorrowable_eq, DurableState.headroom, sum_map_split (·.profileID) pp.profileID]
  congr 1
  exact sum_map_at (·.profileID) _ valid.distinct hmem

theorem Took.covered_grant (h : Took env (.grant p k l) c c') (valid : c.state.policy.Valid)
    (covered : c.state.Covered) :
    c'.state.Covered ↔ c.spares p = true := by
  obtain ⟨pp, n, known, admitted, absent, rfl⟩ := h.grant_inv
  have hpolicy := h.leaves.policy_eq nofun
  have hcost := (valid.profile known).unitCost
  have hheld : c'.state.heldUnits = pp.unitCost + c.state.heldUnits := by
    rw [DurableState.heldUnits, h.leaves.leases]
    exact Map.sumOf_insert absent _
  have hby (q : String) : c'.state.heldBy q = (if p = q then pp.unitCost else 0) + c.state.heldBy q := by
    rw [DurableState.heldBy, h.leaves.leases]
    exact Map.sumOf_insert absent _
  -- what is protected from the profile does not depend on what it holds itself
  have hprotected : c'.protectedNonBorrowableLocked p c'.heldUnitsByProfileLocked =
      c.protectedNonBorrowableLocked p c.heldUnitsByProfileLocked := by
    rw [protectedNonBorrowable_eq, protectedNonBorrowable_eq, hpolicy]
    refine congrArg List.sum (List.map_congr_left fun q _ => ?_)
    by_cases hid : q.profileID = p
    · rw [if_pos hid, if_pos hid]
    · rw [hby, if_neg (Ne.symm hid), zero_add]
  have hafter := headroom_split c' (hpolicy ▸ valid) (hpolicy ▸ known)
  have hbefore := headroom_split c valid known
  obtain ⟨hfree, hpath⟩ := evaluateAcquire_ok admitted
  rw [hprotected] at hafter
  unfold ownRemaining at hafter hbefore hpath
  rw [hby, if_pos rfl] at hafter
  unfold DurableState.Covered at covered ⊢
  unfold spares ownRemaining
  rw [known, hpolicy, hheld]
  unfold available freeUnits at *
  cases hb : pp.borrowable with
  | true =>
    simp only [hb, if_true, Bool.not_true, Bool.false_or, Bool.or_eq_true, decide_eq_true_eq] at hafter hbefore ⊢
    omega
  | false =>
    simp only [hb, Bool.false_eq_true, if_false, Bool.not_false, Bool.true_or, iff_true] at hafter hbefore ⊢
    omega

theorem Took.covered_other {a : Act} (h : Took env a c c') (hs : c.state.Sound) (valid : c.state.policy.Valid)
    (covered : c.state.Covered) (hgrant : ∀ p k l, a ≠ .grant p k l) (hcreate : ∀ p k l, a ≠ .create p k l)
    (hpolicy : ∀ p, a ≠ .policy p) : c'.state.Covered := by
  have hsame := h.leaves.policy_eq hpolicy
  have weights (hw : ∀ f, Steady f → c'.state.leases.sumOf f = c.state.leases.sumOf f) : c'.state.Covered := by
    unfold DurableState.Covered DurableState.headroom DurableState.heldBy DurableState.heldUnits
    rw [hsame, hw _ steady_units]
    simp only [hw _ (steady_heldBy _)]
    exact covered
  rcases h.leases_cases with
    hnew | ⟨p, k, l, makes, -⟩ | ⟨p, k, l, l', lease, continues, hnew⟩ | ⟨p, k, t, l, -, -, hnew⟩
  · exact weights fun f _ => by rw [hnew]
  · rcases makes.act with ha | ha
    · exact absurd ha (hgrant p k l)
    · exact absurd ha (hcreate p k l)
  · exact weights fun f hf => by rw [hnew, Map.sumOf_replace lease, hf l l' continues, sub_add_cancel]
  · exact covered.erase valid (heldUnits_nonneg_of hs) hsame hnew

end Grants

/-! ## Runs without adoption -/

/-- The calls that neither adopt workers nor change the policy. -/
def Call.ordinary : Call → Bool
  | .adopt .. | .applyPolicy .. => false
  | _ => true

def Event.ordinary : Event → Bool
  | .call request _ _ => request.ordinary
  | _ => true

/-- Whether a granted acquisition spares the headroom, once its sweep has run. -/
def sparesHeadroom (t : Transition World Event Reply) : Bool :=
  match t.before.process, t.event, t.reply with
  | .running c, .call (.acquire p k n) order saves, .lease _ =>
    (c.sweptFor { now := t.before.now, order, saves } (.acquire p k n)).spares p
  | _, _, _ => true

section Runs
variable {w w' : World} {e : Event} {reply : Reply} {env : Env} {c c' : Coordinator} {call : Call} {a : Option Act}

theorem sweptFor_covered (hset : c.state.FencesSet) (hs : c.state.Sound) (valid : c.state.policy.Valid)
    (covered : c.state.Covered) (env : Env) (call : Call) : (c.sweptFor env call).state.Covered := by
  rcases sweptFor_cases hset env call with h | ⟨h, -⟩
  · rw [h]
    exact covered
  · rw [h]
    exact covered.discardAll valid (heldUnits_nonneg_of hs) .expired _ env.order

theorem Records.covered (h : Records c c') : c'.state.Covered ↔ c.state.Covered := by
  rw [h.frame]
  rfl

theorem spares_congr (h : c'.state = c.state) (p : String) : c'.spares p = c.spares p := by
  unfold spares ownRemaining available freeUnits protectedNonBorrowableLocked heldUnitsByProfileLocked
  rw [h]

theorem Course.covered (course : Course env call a c c') (hset : c.state.FencesSet) (hs : c.state.Sound)
    (valid : c.state.policy.Valid) (covered : c.state.Covered) (hcreate : ∀ p k l, a ≠ some (.create p k l))
    (hpolicy : ∀ p, a ≠ some (.policy p)) :
    c'.state.Covered ↔ ∀ p k l, a = some (.grant p k l) → (c.sweptFor env call).spares p = true := by
  have hsound := sweptFor_sound hset hs env call
  have hcov := sweptFor_covered hset hs valid covered env call
  have hvalid : (c.sweptFor env call).state.policy.Valid := sweptFor_policy hset env call ▸ valid
  obtain ⟨c₁, c₂, c₃, h₁, hdoes, h₂, hrec⟩ := course
  rw [hrec.covered, h₂.state]
  simp only [← spares_congr h₁.state]
  rw [← h₁.state] at hsound hcov hvalid
  cases a with
  | none =>
    rw [hdoes]
    exact iff_of_true hcov nofun
  | some a =>
    by_cases hgrant : ∃ p k l, a = .grant p k l
    · obtain ⟨p, k, l, rfl⟩ := hgrant
      rw [Took.covered_grant hdoes hvalid hcov]
      constructor
      · rintro hspares _ _ _ heq
        cases heq
        exact hspares
      · exact fun h => h p k l rfl
    · have hafter := Took.covered_other hdoes hsound hvalid hcov (fun p k l ha => hgrant ⟨p, k, l, ha⟩)
        (fun p k l ha => hcreate p k l (ha ▸ rfl)) (fun p ha => hpolicy p (ha ▸ rfl))
      exact iff_of_true hafter fun p k l ha => absurd ⟨p, k, l, Option.some.inj ha⟩ hgrant

theorem sparesHeadroom_call {order : RangeOrder String} {saves : Saves} (running : w.process = .running c)
    (fits : Fits call reply a) :
    sparesHeadroom ⟨w, .call call order saves, reply, w'⟩ = true ↔
      ∀ p k l, a = some (.grant p k l) → (c.sweptFor { now := w.now, order, saves } call).spares p = true := by
  unfold sparesHeadroom
  rw [running]
  cases fits with
  | @grant p k n l =>
    constructor
    · rintro hspares _ _ _ ha
      cases ha
      exact hspares
    · exact fun hspares => hspares p k l rfl
  | failed => cases call <;> exact iff_of_true rfl fun _ _ _ ha => by cases ha
  | _ => exact iff_of_true rfl fun _ _ _ ha => by cases ha

theorem Moved.covered (moved : Moved w e reply w') (synced : w.Synced) (hs : w.ledger.Sound)
    (valid : w.ledger.policy.Valid)
    (covered : w.ledger.Covered) (ordinary : e.ordinary = true) :
    w'.ledger.Covered ↔ sparesHeadroom ⟨w, e, reply, w'⟩ = true := by
  have synced' := World.moved_upheld synced_upheld synced synced moved
  have other {e : Event} {reply : Reply} {w' : World} (h : ∀ call order saves, e ≠ .call call order saves) :
      sparesHeadroom ⟨w, e, reply, w'⟩ = true := by
    unfold sparesHeadroom
    split
    · next hevent _ => exact absurd hevent (h _ _ _)
    · rfl
  cases moved with
  | clock | refused | opened => exact iff_of_true covered (other fun _ _ _ h => by cases h)
  | idle stopped =>
    refine iff_of_true covered ?_
    unfold sparesHeadroom
    rw [stopped]
  | pruned =>
    rw [World.Synced.ledger synced' rfl]
    exact iff_of_true (covered.discardAll valid (heldUnits_nonneg_of hs) .restartDiscarded _ _)
      (other fun _ _ _ h => by cases h)
  | @call c c' call order saves a reply running course fits =>
    rw [World.Synced.ledger synced' rfl]
    rw [synced.ledger running] at hs valid covered
    rw [sparesHeadroom_call running fits]
    refine course.covered (synced c running).fences hs valid covered ?_ ?_
    · rintro p k l rfl
      cases fits
      cases ordinary
    · rintro p rfl
      cases fits
      cases ordinary

theorem Moved.policy_eq (moved : Moved w e reply w') (synced : w.Synced) (ordinary : e.ordinary = true) :
    w'.ledger.policy = w.ledger.policy := by
  have synced' := World.moved_upheld synced_upheld synced synced moved
  cases moved with
  | clock | idle | refused | opened => rfl
  | pruned =>
    rw [World.Synced.ledger synced' rfl]
    exact DurableState.pruned_policy
  | @call c c' call order saves a reply running course fits =>
    rw [World.Synced.ledger synced' rfl, synced.ledger running]
    obtain ⟨c₁, c₂, c₃, h₁, hdoes, h₂, hrec⟩ := course
    have hact : c₂.state.policy = c₁.state.policy := by
      cases a with
      | none => rw [hdoes]
      | some a =>
        refine (Took.leaves hdoes).policy_eq ?_
        rintro p rfl
        cases fits
        cases ordinary
    rw [hrec.frame, h₂.state, hact, h₁.state, sweptFor_policy (synced c running).fences]

/-- What every run without adoption keeps. -/
structure World.Governed (w : World) : Prop where
  synced : w.Synced
  sound : w.ledger.Sound
  valid : w.ledger.policy.Valid

theorem World.Governed.step (h : w.Governed) (ordinary : e.ordinary = true) : (w.step e).1.Governed := by
  have moved := World.step_moved h.synced e
  exact ⟨World.step_synced h.synced e, World.moved_follows sound_kept.follows h.synced moved h.sound,
    moved.policy_eq h.synced ordinary ▸ h.valid⟩

theorem World.Governed.exec (h : w.Governed) {events : List Event} (ordinary : ∀ e ∈ events, e.ordinary = true) :
    (w.exec events).Governed := by
  refine exec_induction_of (P := fun _ e => e.ordinary = true) h (fun _ _ hw he => hw.step he) fun t ht => ?_
  obtain ⟨xs, e, ys, rfl, rfl⟩ := World.stepAfter_of_mem ht
  exact ordinary e (List.mem_append_right _ List.mem_cons_self)

theorem World.Governed.covered_step (h : w.Governed) (covered : w.ledger.Covered) (ordinary : e.ordinary = true) :
    (w.step e).1.ledger.Covered ↔ sparesHeadroom ⟨w, e, (w.step e).2, (w.step e).1⟩ = true :=
  (World.step_moved h.synced e).covered h.synced h.sound h.valid covered ordinary

end Runs

/-- An acquisition of a free slot, within the non-borrowable reservation of its profile, is not refused
    for lack of units. -/
def ReservationHonoured (t : Transition World Event Reply) : Prop :=
  ∀ p k n order saves pp, t.event = .call (.acquire p k n) order saves → t.before.ledger.policy.profile p = some pp →
    pp.borrowable = false → t.before.ledger.leases.lookup (leaseKey p k) = none →
    pp.unitCost ≤ pp.reservedUnits - t.before.ledger.heldBy p → t.reply ≠ .failed .budgetExhausted

theorem protectedNonBorrowable_nonneg (c : Coordinator) (p : String) :
    0 ≤ c.protectedNonBorrowableLocked p c.heldUnitsByProfileLocked := by
  rw [protectedNonBorrowable_eq]
  refine List.sum_nonneg fun n hn => ?_
  obtain ⟨pp, -, rfl⟩ := List.mem_map.mp hn
  split
  · exact le_rfl
  · split
    · exact le_rfl
    · exact le_max_right _ _

theorem sweptFor_heldBy {c : Coordinator} (hset : c.state.FencesSet) (hs : c.state.Sound) (env : Env) (call : Call)
    (p : String) : (c.sweptFor env call).state.heldBy p ≤ c.state.heldBy p := by
  rcases sweptFor_cases hset env call with h | ⟨h, -⟩
  · rw [h]
  · rw [h]
    refine Map.sumOf_mono (fun key l hl => ?_) fun key l hl => ?_
    · rw [expelled_leases] at hl
      split at hl
      · cases hl
      · exact hl
    · have := heldUnits_nonneg_of hs key l hl
      split <;> omega

theorem World.Governed.honours {w : World} (h : w.Governed) (covered : w.ledger.Covered) (e : Event) :
    ReservationHonoured ⟨w, e, (w.step e).2, (w.step e).1⟩ := by
  intro p k n order saves pp hevent known hfixed _ hcost hreply
  dsimp only at hevent known hcost hreply
  subst hevent
  unfold World.step at hreply
  cases hp : w.process with
  | stopped store =>
    rw [hp] at hreply
    cases hreply
  | running c =>
    rw [hp] at hreply
    have hset := (h.synced c hp).fences
    have hledger : w.ledger = c.state := h.synced.ledger hp
    have hsound := hledger ▸ h.sound
    have hvalid := hledger ▸ h.valid
    rw [hledger] at known hcost
    obtain ⟨pp', known', hfree⟩ := acquire_budgetExhausted hset hreply
    -- the sweep frees units of the profile, if any, and keeps the headroom covered
    have hcov := sweptFor_covered hset hsound hvalid (hledger ▸ covered) { now := w.now, order, saves } (.acquire p k n)
    have hby := sweptFor_heldBy hset hsound { now := w.now, order, saves } (.acquire p k n) p
    have hpolicy := sweptFor_policy hset { now := w.now, order, saves } (.acquire p k n)
    generalize c.sweptFor { now := w.now, order, saves } (.acquire p k n) = d at *
    rw [hpolicy, known, Option.some.injEq] at known'
    subst known'
    have hsplit := headroom_split d (hpolicy ▸ hvalid) (hpolicy ▸ known)
    have hnonneg := protectedNonBorrowable_nonneg d p
    rw [hfixed] at hsplit
    simp only [Bool.false_eq_true, if_false, ownRemaining] at hsplit
    unfold DurableState.Covered at hcov
    unfold freeUnits at hfree
    omega

/-- From a ledger without leases under an applied policy, in any run without adoption: every state that
    the run reaches covers the headroom of the non-borrowable profiles, and no acquisition within such a
    reservation is refused for lack of units, exactly when every granted acquisition spares it. -/
theorem headroom_protected_iff (now : Int) (before events : List Event)
    (empty : ((World.initial now none).exec before).ledger.leases = ∅)
    (applied : ((World.initial now none).exec before).ledger.policy.validate = .ok ())
    (ordinary : ∀ e ∈ events, e.ordinary = true) :
    ((∀ xs ys, events = xs ++ ys → (((World.initial now none).exec before).exec xs).ledger.Covered) ∧
      ∀ t ∈ ((World.initial now none).exec before).transitions events, ReservationHonoured t) ↔
    ∀ t ∈ ((World.initial now none).exec before).transitions events, sparesHeadroom t = true := by
  have valid := HostPolicy.valid_of_validate applied
  have start : ((World.initial now none).exec before).Governed :=
    ⟨World.exec_synced now none before, World.exec_sound now before, valid⟩
  have covered₀ := DurableState.covered_of_empty valid empty
  generalize (World.initial now none).exec before = w at start covered₀
  have governed {xs ys : List Event} (h : events = xs ++ ys) : (w.exec xs).Governed :=
    start.exec fun e he => ordinary e (h ▸ List.mem_append_left _ he)
  have step {xs ys : List Event} {e : Event} (h : events = xs ++ e :: ys) (covered : (w.exec xs).ledger.Covered) :
      (w.exec (xs ++ [e])).ledger.Covered ↔ sparesHeadroom (w.stepAfter xs e) = true := by
    rw [World.exec, exec_concat]
    exact (governed h).covered_step covered (ordinary e (h ▸ List.mem_append_right _ List.mem_cons_self))
  constructor
  · rintro ⟨covered, -⟩ t ht
    obtain ⟨xs, e, ys, hevents, rfl⟩ := World.stepAfter_of_mem ht
    exact (step hevents (covered xs _ hevents)).mp (covered (xs ++ [e]) ys (by rw [hevents, List.append_assoc]; rfl))
  · intro spares
    have covered (xs ys : List Event) (h : events = xs ++ ys) : (w.exec xs).ledger.Covered := by
      induction xs using List.reverseRecOn generalizing ys with
      | nil => exact covered₀
      | append_singleton xs e ih =>
        rw [List.append_assoc] at h
        refine (step h (ih _ h)).mpr (spares _ ?_)
        exact mem_transitions.mpr ⟨xs, ys, h, rfl, rfl⟩
    refine ⟨covered, fun t ht => ?_⟩
    obtain ⟨xs, e, ys, hevents, rfl⟩ := World.stepAfter_of_mem ht
    exact (governed hevents).honours (covered xs _ hevents) e

/-- A policy with a fixed reservation, a borrowable one and a profile that only borrows. -/
def reservingPolicy : HostPolicy :=
  { generation := 1, totalUnits := 4
    profiles := [{ profileID := "fixed", unitCost := 1, reservedUnits := 2 },
      { profileID := "lender", unitCost := 1, reservedUnits := 2, borrowable := true },
      { profileID := "guest", unitCost := 1 }] }

/-- The guest borrows the lender's reservation, and the lender then takes that of the fixed profile. -/
theorem headroom_taken_by_lender :
    let w := (World.initial 0 none).exec [.start, .plain (.applyPolicy reservingPolicy)]
    let events := [.plain (.acquire "guest" "slot-1" 1), .plain (.acquire "guest" "slot-2" 1),
      .plain (.acquire "lender" "slot-1" 1), .plain (.acquire "lender" "slot-2" 1)]
    w.ledger.leases = ∅ ∧ w.ledger.policy.validate = .ok () ∧ (∀ e ∈ events, e.ordinary = true) ∧
      ¬(w.exec events).ledger.Covered ∧ (w.exec events).ledger.heldBy "fixed" = 0 ∧
      ((w.exec events).step (.plain (.acquire "fixed" "slot-1" 1))).2 = .failed .budgetExhausted := by
  decide +kernel

theorem headroom_protected_iff_borrowing :
    let w := (World.initial 0 none).exec [.start, .plain (.applyPolicy reservingPolicy)]
    (w.exec [.plain (.acquire "guest" "slot-1" 1), .plain (.acquire "lender" "slot-1" 1)]).ledger.Covered := by
  have h := headroom_protected_iff 0 [.start, .plain (.applyPolicy reservingPolicy)]
    [.plain (.acquire "guest" "slot-1" 1), .plain (.acquire "lender" "slot-1" 1)] (by decide +kernel)
      (by decide +kernel)
    (by decide)
  exact (h.mpr (by decide +kernel)).1 _ [] (List.append_nil _).symm

end PitCrew.Admission
