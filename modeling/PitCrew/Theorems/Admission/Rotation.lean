import PitCrew.Theorems.Admission.FairShare

/-! # The rotation

Contenders of cost one that share an idle pool take turns: the cursor moves by one with every grant, and
the contender at the cursor is always served. A cursor beyond the number of contenders promises units
that are not there (`surplus`), and where the shares do not cover them nobody may be granted anything;
as only a grant moves the cursor, they then wait until the contenders change or the service restarts. -/

namespace PitCrew.Admission
open Base Coordinator

/-! ## Decisions on an idle pool -/

/-- No lease is held, no fence is up, and the contenders share `total` units in workers of cost one. -/
structure DecisionPoint (w : World) (contenders : List String) (total : Int) (c : Coordinator) : Prop where
  running : w.process = .running c
  unfenced : c.state.adoptionFences.keys.card = 0
  released : c.state.leases = ∅
  policy : c.state.policy.validate = .ok ()
  units : ∀ pp ∈ c.state.policy.profiles, pp.unitCost = 1 ∧ pp.reservedUnits = 0
  total : c.state.policy.totalUnits = total
  contenders : (c.expireStaleDemandLocked w.now).contendersLocked = contenders

/-- Every acquisition of a slot for the profile would be granted now. -/
def Grantable (w : World) (p : String) : Prop :=
  ∀ k n order, slotKeyPattern k = true → ∃ l, (w.step (.call (.acquire p k n) order {})).2 = .lease l

namespace Coordinator

variable {c d : Coordinator} {env : Env} {p : String} {pp : ProfilePolicy}

theorem current_of_released (released : c.state.leases = ∅) : c.current env = c.expireStaleDemandLocked env.now := by
  have hnil : c.expiredLeases env = [] := expiredLeases_eq_nil.mpr fun key l hl _ => by
    rw [released] at hl
    cases hl
  unfold current sweepExpiredLocked
  rw [hnil]
  rfl

theorem heldUnits_of_released (released : c.state.leases = ∅) : c.state.heldUnits = 0 := by
  rw [DurableState.heldUnits, released]
  rfl

theorem heldBy_of_released (released : c.state.leases = ∅) (p : String) : c.state.heldBy p = 0 := by
  rw [DurableState.heldBy, released]
  rfl

theorem reservedUnits_of_units (units : ∀ pp ∈ c.state.policy.profiles, pp.unitCost = 1 ∧ pp.reservedUnits = 0)
    (p : String) : c.reservedUnitsLocked p = 0 := by
  unfold reservedUnitsLocked
  cases known : c.state.policy.profile p with
  | none => rfl
  | some pp => exact (units pp (HostPolicy.profile_some known).1).2

theorem available_of_released (released : c.state.leases = ∅)
    (units : ∀ pp ∈ c.state.policy.profiles, pp.unitCost = 1 ∧ pp.reservedUnits = 0) (p : String) :
    c.available p = c.state.policy.totalUnits := by
  have hprotected : c.protectedNonBorrowableLocked p c.heldUnitsByProfileLocked = 0 := by
    rw [protectedNonBorrowable_eq]
    refine List.sum_eq_zero fun n hn => ?_
    obtain ⟨pp, hpp, rfl⟩ := List.mem_map.mp hn
    rw [(units pp hpp).2, heldBy_of_released released]
    simp
  rw [available, hprotected, freeUnits, heldUnits_of_released released]
  omega

theorem fairUnits_of_released (released : c.state.leases = ∅)
    (units : ∀ pp ∈ c.state.policy.profiles, pp.unitCost = 1 ∧ pp.reservedUnits = 0) (hp : p ∈ c.contendersLocked)
    (positive : 1 ≤ c.state.policy.totalUnits) :
    1 ≤ c.fairUnits p ↔
      Served c.rotation c.contendersLocked.length c.state.policy.totalUnits (c.contendersLocked.idxOf p) := by
  have nonempty := List.ne_nil_of_mem hp
  have hnonneg (o : String) (ho : o ∈ c.contendersLocked) : 0 ≤ c.shareOf c.state.policy.totalUnits o :=
    shareOf_nonneg (by omega) ho
  have hopen : (c.contendersLocked.map fun o => if o = p then 0
        else max (c.shareOf c.state.policy.totalUnits o - c.sharedUnits o) 0) =
      c.contendersLocked.map fun o => if id o = p then 0 else c.shareOf c.state.policy.totalUnits o := by
    refine List.map_congr_left fun o ho => ?_
    have hshared : c.sharedUnits o = 0 := by
      rw [sharedUnits, heldBy_of_released released, reservedUnits_of_units units]
      rfl
    rw [hshared, sub_zero, max_eq_left (hnonneg o ho), id]
  have hsplit := sum_map_split id p (c.shareOf c.state.policy.totalUnits) c.contendersLocked
  have hown : (c.contendersLocked.map fun o => if id o = p then c.shareOf c.state.policy.totalUnits o else 0).sum =
      c.shareOf c.state.policy.totalUnits p :=
    sum_map_at id (c.shareOf c.state.policy.totalUnits) (by rw [List.map_id]; exact c.contenders_nodup) hp
  have hshare (o : String) : c.shareOf c.state.policy.totalUnits o =
      share c.rotation c.contendersLocked.length (c.contendersLocked.idxOf o : Nat) c.state.policy.totalUnits :=
    guaranteedShare_eq c nonempty _ _
  have htotal : (c.contendersLocked.map (c.shareOf c.state.policy.totalUnits)).sum =
      ∑ i ∈ Finset.range c.contendersLocked.length,
        share c.rotation c.contendersLocked.length i c.state.policy.totalUnits := by
    rw [List.map_congr_left fun o _ => hshare o]
    exact sum_map_idxOf c.contenders_nodup fun i : Nat =>
      share c.rotation c.contendersLocked.length i c.state.policy.totalUnits
  rw [fairUnits, available_of_released released units, fairAllocatable_eq nonempty, hopen, Served, ← htotal, ← hshare]
  omega

/-- The decision on a contender of an idle pool: it is served from the shared pool or not at all. -/
theorem evaluateAcquire_of_released (released : c.state.leases = ∅)
    (units : ∀ pp ∈ c.state.policy.profiles, pp.unitCost = 1 ∧ pp.reservedUnits = 0) (hp : p ∈ c.contendersLocked)
    (positive : 1 ≤ c.state.policy.totalUnits) (known : c.state.policy.profile p = some pp) :
    c.evaluateAcquireLocked p pp c.heldUnitsByProfileLocked =
      if Served c.rotation c.contendersLocked.length c.state.policy.totalUnits (c.contendersLocked.idxOf p) then
        .ok c.contendersLocked.length
      else .error .fairShareContention := by
  obtain ⟨hcost, hreserved⟩ := units pp (HostPolicy.profile_some known).1
  have hfree : c.freeUnits = c.state.policy.totalUnits := by
    rw [freeUnits, heldUnits_of_released released, sub_zero]
  have hown : c.ownRemaining p pp = 0 := by
    rw [ownRemaining, hreserved, heldBy_of_released released]
    rfl
  have hcount (available : Int) : (c.fairAllocatableUnitsLocked p c.heldUnitsByProfileLocked available).2 =
      c.contendersLocked.length := by
    have hlen : ¬c.contendersLocked.length = 0 := by
      have := List.length_pos_of_mem hp
      omega
    unfold fairAllocatableUnitsLocked
    rw [if_neg hlen]
  rw [evaluateAcquire_eq, hfree, hown, available_of_released released units, hcost, if_neg (by omega),
    if_neg (by omega), if_neg (by omega), hcount]
  exact if_congr (fairUnits_of_released released units hp positive) rfl rfl

end Coordinator

section Point
variable {w : World} {contenders : List String} {total : Int} {c : Coordinator} {p : String}

theorem DecisionPoint.positive (point : DecisionPoint w contenders total c) : 1 ≤ total := by
  rw [← point.total]
  exact (HostPolicy.valid_of_validate point.policy).totalUnits

theorem DecisionPoint.nodup (point : DecisionPoint w contenders total c) : contenders.Nodup := by
  rw [← point.contenders]
  exact contenders_nodup _

theorem DecisionPoint.decides (point : DecisionPoint w contenders total c) (hp : p ∈ contenders) :
    let d := c.expireStaleDemandLocked w.now
    ∃ pp, d.state.policy.profile p = some pp ∧ profileIDPattern p = true ∧
      d.evaluateAcquireLocked p pp d.heldUnitsByProfileLocked =
        if Served c.rotation contenders.length total (contenders.idxOf p) then .ok contenders.length
        else .error .fairShareContention := by
  intro d
  rw [← point.contenders] at hp
  obtain ⟨pp, known⟩ := Option.isSome_iff_exists.mp (mem_contenders.mp hp).2
  obtain ⟨hmem, hid⟩ := HostPolicy.profile_some known
  have hvalid := HostPolicy.valid_of_validate point.policy
  refine ⟨pp, known, hid ▸ (hvalid.profiles pp hmem).profileID, ?_⟩
  have hpositive : 1 ≤ d.state.policy.totalUnits := hvalid.totalUnits
  have h := evaluateAcquire_of_released (c := d) point.released point.units hp hpositive known
  have htotal : d.state.policy.totalUnits = total := point.total
  rw [htotal, point.contenders] at h
  exact h

theorem DecisionPoint.grantable_iff (point : DecisionPoint w contenders total c) (synced : w.Synced)
    (hp : p ∈ contenders) : Grantable w p ↔ Served c.rotation contenders.length total (contenders.idxOf p) := by
  obtain ⟨pp, known, hpat, hdecides⟩ := point.decides hp
  have hset := (synced c point.running).fences
  have hreply (k : String) (n : Int) (order : RangeOrder String) (hk : slotKeyPattern k = true) :
      (w.step (.call (.acquire p k n) order {})).2 =
        if Served c.rotation contenders.length total (contenders.idxOf p) then
          .lease ((c.expireStaleDemandLocked w.now).provisionalLease { now := w.now, order } p k pp.unitCost)
        else .failed .fairShareContention := by
    have hcurrent : c.current { now := w.now, order } = c.expireStaleDemandLocked w.now :=
      current_of_released point.released
    have habsent : (c.current { now := w.now, order }).state.leases.lookup (leaseKey p k) = none := by
      rw [hcurrent]
      show c.state.leases.lookup _ = none
      rw [point.released]
      rfl
    have hcontender : p ∈ (c.current { now := w.now, order }).contendersLocked := by
      rw [hcurrent, point.contenders]
      exact hp
    have h := acquire_of_contender (n := n) hset hpat hk rfl point.unfenced
      (by rw [hcurrent]; exact known) habsent hcontender
    rw [hcurrent, hdecides] at h
    unfold World.step
    rw [point.running]
    by_cases hserved : Served c.rotation contenders.length total (contenders.idxOf p)
    · rw [if_pos hserved] at h ⊢
      exact h
    · rw [if_neg hserved] at h ⊢
      exact h
  constructor
  · intro h
    obtain ⟨l, hl⟩ := h "slot-1" 1 .sorted (by decide)
    by_contra hnot
    rw [hreply _ _ _ (by decide), if_neg hnot] at hl
    cases hl
  · intro h k n order hk
    exact ⟨_, by rw [hreply k n order hk, if_pos h]⟩

end Point

/-! ## The cursor along a run -/

section Cursor
variable {env : Env} {c c' : Coordinator} {p k : String} {n : Int} {call : Call} {a : Option Act}

theorem recordDecision_rotation (command : Command) (granted : Bool) (err : Option Err) :
    (c.recordDecisionLocked env command p granted err).rotation = c.rotation := by
  unfold recordDecisionLocked
  dsimp only
  split
  · rfl
  · next h =>
    obtain ⟨-, rfl⟩ := persist_ok h
    rfl

/-- A granted acquisition moves the cursor by one in the round of the contenders that it was decided on. -/
theorem acquireSwept_rotation {l : Lease} (h : (c.acquireSwept env p k n).2 = .ok l) :
    let d := (c.expireStaleDemandLocked env.now).registerDemand env p (if n < 1 then 1 else n)
    ∃ pp m, d.state.policy.profile p = some pp ∧ d.evaluateAcquireLocked p pp d.heldUnitsByProfileLocked = .ok m ∧
      (c.acquireSwept env p k n).1.rotation = if m = 0 then c.rotation else (c.rotation + 1).tmod m := by
  intro d
  revert h
  unfold acquireSwept
  dsimp only
  split
  · nofun
  · split
    · nofun
    · split
      · nofun
      · next pp known =>
        split
        · nofun
        · next m hadmitted =>
          split
          · nofun
          · next h =>
            obtain ⟨-, rfl⟩ := persist_ok h
            exact fun _ => ⟨pp, m, known, hadmitted, (alike_advanceRotation rfl).rotation⟩

theorem Course.rotation (hset : c.state.FencesSet) (course : Course env call a c c')
    (ha : ∀ p k l, a ≠ some (.grant p k l)) : c'.rotation = c.rotation := by
  obtain ⟨c₁, c₂, c₃, h₁, hdoes, h₂, hrec⟩ := course
  have hswept : (c.sweptFor env call).rotation = c.rotation := by
    rcases sweptFor_cases hset env call with h | ⟨h, -⟩ <;> rw [h]
    rfl
  have hact : c₂.rotation = c₁.rotation := by
    cases a with
    | none => rw [hdoes]
    | some a =>
      cases hdoes with
      | grant => exact absurd rfl (ha _ _ _)
      | account _ _ _ _ _ next => rcases next with ⟨rfl, -⟩ | rfl <;> rfl
      | _ => rfl
  rw [hrec.rotation, h₂.rotation, hact, h₁.rotation, hswept]

end Cursor

def isGrant (t : Transition World Event Reply) : Bool :=
  match t.event, t.reply with
  | .call (.acquire ..) .., .lease _ => true
  | _, _ => false

/-- The service is not restarted, and every grant goes to one of the contenders at a decision point. -/
structure Rotating (w : World) (contenders : List String) (total : Int) (events : List Event) : Prop where
  steady : ∀ e ∈ events, ∀ ttl order saves, e ≠ .restart ttl order saves
  grants : ∀ t ∈ w.transitions events, isGrant t = true →
    (∃ c, DecisionPoint t.before contenders total c) ∧
      ∀ p k n order saves, t.event = .call (.acquire p k n) order saves → p ∈ contenders

/-- After `grants` grants the cursor has moved on by as many, in a round of `n`. -/
structure CursorAt (start : Int) (n grants : Nat) (c : Coordinator) : Prop where
  moved : c.rotation ≡ start + grants [ZMOD n]
  first : grants = 0 → c.rotation = start
  round : 0 < grants → c.rotation < n

section Run
variable {w : World} {contenders : List String} {total : Int} {c : Coordinator} {e : Event}

theorem step_rotation (synced : w.Synced) (running : w.process = .running c)
    (steady : ∀ ttl order saves, e ≠ .restart ttl order saves) :
    ∃ c', (w.step e).1.process = .running c' ∧
      (isGrant ⟨w, e, (w.step e).2, (w.step e).1⟩ = false → c'.rotation = c.rotation) := by
  cases e with
  | restart ttl order saves => exact absurd rfl (steady ttl order saves)
  | clock now => exact ⟨c, running, fun _ => rfl⟩
  | call call order saves =>
    simp only [World.step, running]
    refine ⟨_, rfl, fun hgrant => ?_⟩
    have hset := (synced c running).fences
    obtain ⟨a, course, fits⟩ := call_course hset { now := w.now, order, saves } call
    refine course.rotation hset ?_
    rintro p k l rfl
    revert hgrant fits
    generalize (c.call { now := w.now, order, saves } call).2 = reply
    intro hgrant fits
    cases fits
    cases hgrant

theorem grant_rotation {p k : String} {n : Int} {order : RangeOrder String} {saves : Saves} {l : Lease}
    (synced : w.Synced)
    (point : DecisionPoint w contenders total c) (hp : p ∈ contenders)
    (granted : (w.step (.call (.acquire p k n) order saves)).2 = .lease l) :
    ∃ c', (w.step (.call (.acquire p k n) order saves)).1.process = .running c' ∧
      c'.rotation = (c.rotation + 1).tmod contenders.length := by
  have hset := (synced c point.running).fences
  obtain ⟨pp, known, hpat, hdecides⟩ := point.decides hp
  have hpos : 0 < if n < 1 then 1 else n := by split <;> omega
  have hcontender : p ∈ (c.expireStaleDemandLocked w.now).contendersLocked := by
    rw [point.contenders]
    exact hp
  have hnil : c.expiredLeases { now := w.now, order, saves } = [] := expiredLeases_eq_nil.mpr fun key l hl _ => by
    rw [point.released] at hl
    cases hl
  have hsweep : c.sweepExpiredLocked { now := w.now, order, saves } = (c, .ok []) := by
    unfold sweepExpiredLocked
    rw [hnil]
    rfl
  simp only [World.step, point.running] at granted ⊢
  refine ⟨_, rfl, ?_⟩
  cases hid : validateLeaseIdentity p k with
  | error err =>
    rw [acquire_invalid hid] at granted
    cases granted
  | ok u =>
    simp only [Coordinator.call, acquire, hid, deciding, swept, hsweep, Prod.map_fst, Prod.map_snd, id] at granted ⊢
    rw [recordDecision_rotation]
    cases hr : (c.acquireSwept { now := w.now, order, saves } p k n).2 with
    | error err =>
      rw [hr] at granted
      cases granted
    | ok l' =>
      obtain ⟨pp', m, known', hadmitted, hrotation⟩ := acquireSwept_rotation hr
      have hpp : pp' = pp := Option.some.inj (known'.symm.trans known)
      subst hpp
      have hcongr := evaluateAcquire_congr (c := c.expireStaleDemandLocked w.now)
        (d := (c.expireStaleDemandLocked w.now).registerDemand { now := w.now, order, saves } p
          (if n < 1 then 1 else n))
        rfl rfl rfl (contenders_registerDemand hcontender hpos) p pp'
      rw [hcongr, hdecides] at hadmitted
      split at hadmitted
      · cases hadmitted
        have hlen := List.length_pos_of_mem hp
        rw [hrotation, if_neg (by omega)]
      · cases hadmitted

theorem CursorAt.zero (c : Coordinator) (n : Nat) : CursorAt c.rotation n 0 c :=
  ⟨by simp [Int.ModEq.refl], fun _ => rfl, fun h => absurd h (lt_irrefl 0)⟩

theorem CursorAt.same {start : Int} {n g : Nat} {c' : Coordinator} (h : CursorAt start n g c)
    (heq : c'.rotation = c.rotation) : CursorAt start n g c' :=
  ⟨heq ▸ h.moved, fun hg => heq.trans (h.first hg), fun hg => heq ▸ h.round hg⟩

theorem CursorAt.succ {start : Int} {n g : Nat} {c' : Coordinator} (h : CursorAt start n g c) (hn : 0 < n)
    (heq : c'.rotation = (c.rotation + 1).tmod n) : CursorAt start n (g + 1) c' := by
  have hpos : (0 : Int) < n := by exact_mod_cast hn
  refine ⟨?_, fun hg => absurd hg (by omega), fun _ => ?_⟩
  · rw [heq, Nat.cast_succ, ← add_assoc]
    have hmod : (c.rotation + 1).tmod n ≡ c.rotation + 1 [ZMOD n] := by
      refine Int.modEq_iff_dvd.mpr ⟨(c.rotation + 1).tdiv n, ?_⟩
      have := Int.mul_tdiv_add_tmod (c.rotation + 1) n
      linarith
    exact hmod.trans (h.moved.add_right 1)
  · rw [heq]
    exact Int.tmod_lt_of_pos _ hpos

theorem rotating_cursor (synced : w.Synced) (nonempty : contenders ≠ []) (running : w.process = .running c)
    {events : List Event} (rotating : Rotating w contenders total events) :
    (∃ c', (w.exec events).process = .running c' ∧
      CursorAt c.rotation contenders.length ((w.transitions events).filter isGrant).length c') ∧
    ∀ j t, ((w.transitions events).filter isGrant)[j]? = some t → ∃ c', t.before.process = .running c' ∧
      CursorAt c.rotation contenders.length j c' := by
  induction events using List.reverseRecOn with
  | nil => exact ⟨⟨c, running, .zero c _⟩, fun j t ht => by cases ht⟩
  | append_singleton events e ih =>
    have hts : w.transitions (events ++ [e]) =
        w.transitions events ++ [⟨w.exec events, e, ((w.exec events).step e).2, ((w.exec events).step e).1⟩] :=
      transitions_append _ _ _ _
    have hexec : w.exec (events ++ [e]) = ((w.exec events).step e).1 := exec_concat _ _ _ _
    have synced' : (w.exec events).Synced := exec_induction synced (fun _ e h => World.step_synced h e) events
    obtain ⟨⟨c₁, running₁, hcursor⟩, hbefore⟩ := ih
      ⟨fun e' he' => rotating.steady e' (List.mem_append_left _ he'),
        fun t ht => rotating.grants t (hts ▸ List.mem_append_left _ ht)⟩
    rw [hts, hexec, List.filter_append]
    obtain ⟨c₂, running₂, hsame⟩ := step_rotation synced' running₁ (rotating.steady e (by simp))
    cases hgrant : isGrant ⟨w.exec events, e, ((w.exec events).step e).2, ((w.exec events).step e).1⟩ with
    | false =>
      rw [List.filter_cons_of_neg (by rw [hgrant]; decide), List.filter_nil, List.append_nil]
      exact ⟨⟨c₂, running₂, hcursor.same (hsame hgrant)⟩, hbefore⟩
    | true =>
      obtain ⟨⟨c₃, point⟩, hmem⟩ := rotating.grants _ (hts ▸ List.mem_append_right _ (List.mem_singleton_self _)) hgrant
      rw [List.filter_cons_of_pos hgrant, List.filter_nil]
      refine ⟨⟨c₂, running₂, ?_⟩, fun j t ht => ?_⟩
      · rw [List.length_append]
        refine hcursor.succ (List.length_pos_iff.mpr nonempty) ?_
        unfold isGrant at hgrant
        dsimp only at hgrant
        split at hgrant
        · next p k n order saves l hl =>
          obtain ⟨c₄, running₄, hrot⟩ := grant_rotation synced' point (hmem p k n order saves rfl) hl
          rw [point.running] at running₁
          rw [running₄] at running₂
          cases running₁
          cases running₂
          exact hrot
        · cases hgrant
      · rcases List.getElem?_eq_some_iff.mp ht with ⟨hlt, -⟩
        rw [List.length_append, List.length_singleton] at hlt
        rcases Nat.lt_succ_iff_lt_or_eq.mp hlt with hlt | rfl
        · rw [List.getElem?_append_left hlt] at ht
          exact hbefore j t ht
        · rw [List.getElem?_concat_length, Option.some.injEq] at ht
          subst ht
          exact ⟨c₁, running₁, hcursor⟩

end Run

/-! ## Nobody starves -/

/-- In every rotating run from here: at each decision point as many contenders are grantable as there are
    contenders, or units; and of as many consecutive grants as there are contenders, each contender is
    grantable at one. -/
def NoStarvation (w : World) (contenders : List String) (total : Int) : Prop :=
  ∀ events, Rotating w contenders total events →
    (∀ c, DecisionPoint (w.exec events) contenders total c → ∃ granted : Finset String,
      (∀ p ∈ granted, p ∈ contenders ∧ Grantable (w.exec events) p) ∧
        min (contenders.length : Int) total ≤ granted.card) ∧
    ∀ before window after, (w.transitions events).filter isGrant = before ++ window ++ after →
      window.length = contenders.length → ∀ p ∈ contenders, ∃ t ∈ window, Grantable t.before p

section Fairness
variable {w : World} {contenders : List String} {total : Int} {c : Coordinator}

/-- At a decision point enough contenders are grantable exactly when the shares cover their surplus. -/
theorem DecisionPoint.grantable_count_iff (point : DecisionPoint w contenders total c) (synced : w.Synced)
    (nonempty : contenders ≠ []) :
    (∃ granted : Finset String, (∀ p ∈ granted, p ∈ contenders ∧ Grantable w p) ∧
      min (contenders.length : Int) total ≤ granted.card) ↔ Covers c.rotation contenders.length total := by
  have hpos := List.length_pos_iff.mpr nonempty
  have hpositive := point.positive
  rw [← covers_iff hpos (by omega)]
  constructor
  · rintro ⟨granted, hgranted, hcount⟩
    refine hcount.trans ?_
    have hinj : Set.InjOn (contenders.idxOf ·) granted := fun p hp q hq heq =>
      (List.idxOf_inj (hgranted p hp).1).mp heq
    rw [← Finset.card_image_of_injOn hinj]
    refine Nat.cast_le.mpr (Finset.card_le_card fun i hi => ?_)
    obtain ⟨p, hp, rfl⟩ := Finset.mem_image.mp hi
    obtain ⟨hmem, hgrantable⟩ := hgranted p hp
    exact Finset.mem_filter.mpr ⟨Finset.mem_range.mpr (List.idxOf_lt_length_iff.mpr hmem),
      (point.grantable_iff synced hmem).mp hgrantable⟩
  · intro hcount
    refine ⟨contenders.toFinset.filter fun p => Served c.rotation contenders.length total (contenders.idxOf p),
      fun p hp => ?_, hcount.trans ?_⟩
    · obtain ⟨hmem, hserved⟩ := Finset.mem_filter.mp hp
      rw [List.mem_toFinset] at hmem
      exact ⟨hmem, (point.grantable_iff synced hmem).mpr hserved⟩
    · refine Nat.cast_le.mpr (le_trans (Finset.card_le_card fun i hi => ?_)
        (Finset.card_image_le (f := (contenders.idxOf ·))))
      obtain ⟨hi, hserved⟩ := Finset.mem_filter.mp hi
      have hlt := Finset.mem_range.mp hi
      have hidx : contenders.idxOf contenders[i] = i := point.nodup.idxOf_getElem i hlt
      refine Finset.mem_image.mpr ⟨contenders[i], Finset.mem_filter.mpr
        ⟨List.mem_toFinset.mpr (List.getElem_mem hlt), ?_⟩, hidx⟩
      rw [hidx]
      exact hserved

theorem DecisionPoint.grantable_of_turn (point : DecisionPoint w contenders total c) (synced : w.Synced) {p : String}
    (hp : p ∈ contenders) (covers : Covers c.rotation contenders.length total)
    (turn : c.rotation ≡ contenders.idxOf p [ZMOD contenders.length]) : Grantable w p := by
  have hpositive := point.positive
  rw [point.grantable_iff synced hp]
  exact served_of_turn covers (by omega) (List.idxOf_lt_length_iff.mpr hp) (Int.modEq_iff_dvd.mp turn)

theorem CursorAt.covers {start : Int} {n g : Nat} (h : CursorAt start n g c) (covers : Covers start n total) :
    Covers c.rotation n total := by
  rcases Nat.eq_zero_or_pos g with hg | hg
  · rw [h.first hg]
    exact covers
  · exact covers_of_le (h.round hg).le

/-- Among `n` consecutive positions of a round there is one for each of its members. -/
theorem exists_turn (start : Int) {n i : Nat} (hi : i < n) : ∃ j < n, start + j ≡ i [ZMOD n] := by
  have hpos : (0 : Int) < n := by omega
  have h₁ := Int.emod_nonneg ((i : Int) - start) hpos.ne'
  have h₂ := Int.emod_lt_of_pos ((i : Int) - start) hpos
  refine ⟨(((i : Int) - start) % n).toNat, by omega, ?_⟩
  rw [Int.toNat_of_nonneg h₁]
  calc start + ((i : Int) - start) % n ≡ start + (i - start) [ZMOD n] := (Int.mod_modEq _ _).add_left start
    _ = i := by ring

theorem noStarvation_iff (synced : w.Synced) (nonempty : contenders ≠ []) (point : DecisionPoint w contenders total c) :
    NoStarvation w contenders total ↔ Covers c.rotation contenders.length total := by
  constructor
  · intro h
    have rotating : Rotating w contenders total [] :=
      ⟨fun _ he => absurd he List.not_mem_nil, fun _ ht => absurd ht List.not_mem_nil⟩
    have hcount := (h [] rotating).1 c point
    exact (point.grantable_count_iff synced nonempty).mp hcount
  · intro covers events rotating
    obtain ⟨⟨c', running', hcursor⟩, hbefore⟩ := rotating_cursor synced nonempty point.running rotating
    have synced' : (w.exec events).Synced := exec_induction synced (fun _ e h => World.step_synced h e) events
    refine ⟨fun c₁ point₁ => ?_, fun before window after hsplit hlen p hp => ?_⟩
    · rw [point₁.running] at running'
      cases running'
      exact (point₁.grantable_count_iff synced' nonempty).mpr (hcursor.covers covers)
    · obtain ⟨j, hj, hturn⟩ := exists_turn (c.rotation + before.length) (List.idxOf_lt_length_iff.mpr hp)
      have hjw : j < window.length := by omega
      have ht : ((w.transitions events).filter isGrant)[before.length + j]? = some window[j] := by
        rw [hsplit, List.append_assoc, List.getElem?_append_right (by omega), Nat.add_sub_cancel_left,
          List.getElem?_append_left hjw, List.getElem?_eq_getElem hjw]
      obtain ⟨c₁, running₁, hcursor₁⟩ := hbefore _ _ ht
      have hmem := List.mem_of_getElem? ht
      obtain ⟨hmem, hgrant⟩ := List.mem_filter.mp hmem
      obtain ⟨⟨c₂, point₂⟩, -⟩ := rotating.grants _ hmem hgrant
      have synced₁ : window[j].before.Synced := Transition.before_of synced (fun _ e h => World.step_synced h e) hmem
      rw [point₂.running] at running₁
      cases running₁
      refine ⟨window[j], List.getElem_mem hjw, point₂.grantable_of_turn synced₁ hp (hcursor₁.covers covers) ?_⟩
      refine hcursor₁.moved.trans ?_
      rw [Nat.cast_add, ← add_assoc]
      exact hturn

end Fairness

/-- From every decision point of every run: nobody starves exactly when the cursor is at most the number of
    contenders, or there is one, or every share covers what the shares promise beyond the budget. -/
theorem no_starvation_iff (now : Int) (document : Option DurableState) (events : List Event) (contenders : List String)
    (total : Int) (c : Coordinator) (nonempty : contenders ≠ [])
    (point : DecisionPoint ((World.initial now document).exec events) contenders total c) :
    NoStarvation ((World.initial now document).exec events) contenders total ↔
      Covers c.rotation contenders.length total :=
  noStarvation_iff (World.exec_synced now document events) nonempty point

/-- After the restart the cursor is beyond the two contenders and neither is grantable. -/
theorem restarted_cursor_starves :
    ∃ c, DecisionPoint ((World.initial 0 none).exec restartedContention) ["alpha", "beta"] 1 c ∧ c.rotation = 3 ∧
      (((World.initial 0 none).exec restartedContention).step (.plain (.acquire "alpha" "slot-1" 1))).2 =
        .failed .fairShareContention ∧
      (((World.initial 0 none).exec restartedContention).step (.plain (.acquire "beta" "slot-1" 1))).2 =
        .failed .fairShareContention :=
  ⟨_, ⟨rfl, by decide +kernel, rfl, by decide +kernel, by decide +kernel, rfl, by decide +kernel⟩, by decide +kernel,
    by decide +kernel, by decide +kernel⟩

/-- Before any decision two contenders for one unit. -/
def evenContention : List Event :=
  [.start, .plain (.applyPolicy evenPolicy), .plain (.setDemand "alpha" 1), .plain (.setDemand "beta" 1)]

theorem no_starvation_iff_even : NoStarvation ((World.initial 0 none).exec evenContention) ["alpha", "beta"] 1 :=
  (no_starvation_iff 0 none evenContention ["alpha", "beta"] 1 _ (by decide)
    ⟨rfl, by decide +kernel, rfl, by decide +kernel, by decide +kernel, rfl, by decide +kernel⟩).mpr (by decide +kernel)

end PitCrew.Admission
