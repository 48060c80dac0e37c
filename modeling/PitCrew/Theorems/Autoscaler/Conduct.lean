import PitCrew.Theorems.Autoscaler.Books

/-! # The conduct of operations

What every step of an operation of a runner scaler does to target and capacity, whatever runs beside it. Recovery
may add runners while an operation is under way, but takes none away. A call of `reconcileLocked` leaves the fixed
part of the scaler alone during its retries (`Phase`). A runner that begins to drain stays named until GitHub is
asked to remove it (`Draining`), and the runners that are started stay within what was missing (`Launching`). -/

namespace PitCrew.Autoscaler
open Base Prog

/-! ## Rules -/

/-- What the others do while an operation runs. -/
structure Meanwhile (w w' : ScalerWorld) : Prop where
  fixed : w'.scaler.fixed = w.scaler.fixed
  capacity : w.scaler.capacityCount ≤ w'.scaler.capacityCount

theorem Meanwhile.refl (w : ScalerWorld) : Meanwhile w w := ⟨rfl, le_refl _⟩

theorem Meanwhile.trans {w w' w'' : ScalerWorld} (h : Meanwhile w w') (h' : Meanwhile w' w'') : Meanwhile w w'' :=
  ⟨h'.fixed.trans h.fixed, h.capacity.trans h'.capacity⟩

/-- A call of `reconcileLocked` starts no more runners than were missing when it decided. -/
def Reconciliation.Within (r : Reconciliation) : Prop :=
  (r.starts : Int) ≤ max (r.targetSlots - r.capacity - r.pendingRegistrations) 0

structure Fixed.Ok (f : Fixed) : Prop where
  target : f.targetSlots ≤ max f.maximum 0
  starts : f.reconciliation.Within

/-- A tracked runner begins to drain: no other one did, and if it is for the sake of scale-down, then there are
    more runners than the target, and no fewer are left. -/
structure Drains (fence : Fence) (w w' : ScalerWorld) : Prop where
  free : w.scaler.fencing = none
  runner : ∃ runner, w.scaler.runners.lookup fence.key = some runner ∧ runner.runnerID = fence.runnerID ∧
    w'.scaler.runners.lookup fence.key = some runner.drain
  surplus : fence.purpose = .scaleDown →
    w.scaler.targetSlots < w.scaler.capacityCount ∧ w'.scaler.targetSlots ≤ w'.scaler.capacityCount

/-- What every step of an operation keeps to. -/
structure Conduct (w w' : ScalerWorld) : Prop where
  operating : w'.operating = w.operating
  fenced : w'.scaler.fencing = w.scaler.fencing ∨ w'.scaler.fencing = none ∨
    ∃ fence, w'.scaler.fencing = some fence ∧ Drains fence w w'
  removed : ∀ id answer, w'.trace = .removeRunner id .fence answer :: w.trace →
    ∃ fence, w.scaler.fencing = some fence ∧ fence.runnerID = id ∧ w'.scaler.fencing = none ∧
      (fence.purpose = .scaleDown → w.scaler.targetSlots ≤ w.scaler.capacityCount)

def operationRules (cfg : ScalerConfig) (terms : Terms) : Rules ScalerWorld ScalerReply where
  inv w := w.books.Ok cfg.targetKey terms.stamp ∧ w.scaler.fixed.Ok
  rely := Meanwhile
  guar := Conduct
  may _ c := terms.clock c.now
  refl := Meanwhile.refl
  trans := Meanwhile.trans

section Steps
variable {w w' : ScalerWorld}

theorem Conduct.of (hoperating : w'.operating = w.operating) (hfencing : w'.scaler.fencing = w.scaler.fencing)
    (hcalls : Unfenced w w') : Conduct w w' where
  operating := hoperating
  fenced := Or.inl hfencing
  removed := by
    intro id answer hcall
    rcases hcalls with h | ⟨made, hmade, h⟩
    · exact absurd (h.symm.trans hcall) List.ne_cons_self
    · obtain ⟨rfl, -⟩ := List.cons.inj (h.symm.trans hcall)
      exact absurd hmade Bool.true_eq_false.mp

theorem Plain.conduct (h : Plain w w') : Conduct w w' := .of h.operating (congrArg (·.fencing) h.fixed) h.unfenced

theorem Conduct.refl (w : ScalerWorld) : Conduct w w := .of rfl rfl (Or.inl rfl)

end Steps

section Carry
variable {cfg : ScalerConfig} {terms : Terms} {α : Type} {Q : α → Prop} {p : ScalerProg α} {w : ScalerWorld}

theorem carry {G : ScalerWorld → ScalerWorld → Prop} (h : p.Keeps (stepRules cfg terms G) Q) {I : ScalerWorld → Prop}
    (hplain : ∀ {w w'}, G w w' → Plain w w') (hstep : ∀ {w w'}, G w w' → I w → I w')
    (hbeside : ∀ {w w'}, Meanwhile w w' → I w → I w') (hw : I w) :
    p.Safe (operationRules cfg terms) (fun a w => Q a ∧ I w) w := by
  refine (h w).under I (fun _ _ => trivial) (·.1) id (fun ht hI hbooks hG => ?_) hbeside hw
  have hfixed := (hplain hG).fixed
  exact ⟨⟨hbooks, hfixed ▸ ht.2⟩, (hplain hG).conduct, hstep hG hI⟩

theorem carry_fixed (h : Plainly cfg terms Q p) {I : Fixed → Prop} (hw : I w.scaler.fixed) :
    p.Safe (operationRules cfg terms) (fun a w => Q a ∧ I w.scaler.fixed) w :=
  carry h id (fun hstep hI => hstep.fixed.symm ▸ hI) (fun hstep hI => hstep.fixed.symm ▸ hI) hw

end Carry

/-! ## Retries -/

/-- During the retries of `reconcileLocked`, with the fixed part `f`. -/
def Phase (f : Fixed) (w : ScalerWorld) : Prop := w.scaler.fixed = f

/-- A runner drains, and the fence for it is on its way. -/
structure Draining (f : Fixed) (fence : Fence) (w : ScalerWorld) : Prop where
  phase : Phase { f with fencing := some fence } w
  capacity : fence.purpose = .scaleDown → f.targetSlots ≤ w.scaler.capacityCount

section Phases
variable {cfg : ScalerConfig} {terms : Terms} {α : Type} {Q : α → Prop} {p : ScalerProg α} {w w' : ScalerWorld}
variable {f : Fixed} {fence : Fence}

theorem Phase.plain (h : Phase f w) (hstep : Plain w w') : Phase f w' := hstep.fixed.trans h

theorem Phase.beside (h : Phase f w) (hstep : Meanwhile w w') : Phase f w' := hstep.fixed.trans h

theorem Draining.calm (h : Draining f fence w) (hstep : Calm w w') : Draining f fence w' :=
  ⟨h.phase.plain hstep.toPlain, fun hpurpose => hstep.capacity ▸ h.capacity hpurpose⟩

theorem Draining.beside (h : Draining f fence w) (hstep : Meanwhile w w') : Draining f fence w' :=
  ⟨h.phase.beside hstep, fun hpurpose => (h.capacity hpurpose).trans hstep.capacity⟩

theorem Phase.carry (h : Plainly cfg terms Q p) (hw : Phase f w) :
    p.Safe (operationRules cfg terms) (fun _ => Phase f) w :=
  (carry_fixed (I := (· = f)) h hw).mono fun _ _ hr => hr.2

theorem Phase.done (hw : Phase f w) (a : α) :
    (pure a : ScalerProg α).Safe (operationRules cfg terms) (fun _ => Phase f) w :=
  Safe.pure fun _ hstep _ => hw.beside hstep

/-! ### Fences -/

theorem sameRunner_drain (r : RunnerRecord) : SameRunner r r.drain := ⟨rfl, rfl, rfl, rfl⟩

theorem capacityCount_drain {s : Scaler} {key : String} {runner : RunnerRecord} (h : s.runners.lookup key = some runner)
    (purpose : FencePurpose) : s.capacityCount ≤ (s.drain key runner purpose).capacityCount + 1 := by
  have hreplaced : (s.drain key runner purpose).runners.sumOf (·.weight) =
      s.runners.sumOf (·.weight) - runner.weight + runner.drain.weight :=
    Map.sumOf_replace h _
  have hweight := runner.weight_le
  rw [Scaler.capacityCount_eq, Scaler.capacityCount_eq, hreplaced, runner.weight_drain]
  omega

theorem drain_step (hfencing : f.fencing = none) (hw : Phase f w) (hinv : (operationRules cfg terms).inv w)
    {key : String}
    {runner : RunnerRecord} (h : w.scaler.runners.lookup key = some runner) (purpose : FencePurpose)
    (hpurpose : purpose = .scaleDown → w.scaler.targetSlots < w.scaler.capacityCount) :
    (operationRules cfg terms).inv (w.update (·.drain key runner purpose)) ∧
      Conduct w (w.update (·.drain key runner purpose)) ∧
      Draining f ⟨purpose, key, runner.runnerID⟩ (w.update (·.drain key runner purpose)) := by
  have htarget : w.scaler.targetSlots = f.targetSlots := congrArg (·.targetSlots) hw
  have hcapacity := capacityCount_drain h purpose
  have hleft : purpose = .scaleDown → w.scaler.targetSlots ≤ (w.scaler.drain key runner purpose).capacityCount := by
    intro hdown
    have hlt := hpurpose hdown
    omega
  have hdrains : Drains ⟨purpose, key, runner.runnerID⟩ w (w.update (·.drain key runner purpose)) :=
    ⟨(congrArg (·.fencing) hw).trans hfencing, ⟨runner, h, rfl, Finmap.lookup_insert _⟩,
      fun hdown => ⟨hpurpose hdown, hleft hdown⟩⟩
  refine ⟨⟨{ hinv.1 with runners := ?_ }, hinv.2.target, hinv.2.starts⟩, ?_, ?_, fun hdown => htarget ▸ hleft hdown⟩
  · exact hinv.1.runners.insert ((hinv.1.runners _ _ h).same (sameRunner_drain runner))
  · exact ⟨rfl, Or.inr (Or.inr ⟨_, rfl, hdrains⟩), fun _ _ hcall => absurd hcall List.ne_cons_self⟩
  · show { w.scaler.fixed with fencing := some ⟨purpose, key, runner.runnerID⟩ } = _
    rw [show w.scaler.fixed = f from hw]

theorem Draining.ended (hfencing : f.fencing = none) (hw : Draining f fence w)
    (hfixed : w'.scaler.fixed = { w.scaler.fixed with fencing := none }) : Phase f w' := by
  show w'.scaler.fixed = f
  rw [hfixed, show w.scaler.fixed = { f with fencing := some fence } from hw.phase, ← hfencing]

theorem safe_removeRunner (hfencing : f.fencing = none) (hw : Draining f fence w) :
    (removeRunner fence.runnerID .fence).Safe (operationRules cfg terms) (fun _ => Phase f) w := by
  refine Safe.atomic fun t hstep hinv c _ => ?_
  have ht := hw.beside hstep
  have hok : Fixed.Ok { t.scaler.fixed with fencing := none } := ⟨hinv.2.target, hinv.2.starts⟩
  have htarget : t.scaler.targetSlots = f.targetSlots := congrArg (·.targetSlots) ht.phase
  have hend : ∀ (u : ScalerWorld) (answer : Removal), u.books = t.books → u.operating = t.operating →
      u.scaler.fixed = { t.scaler.fixed with fencing := none } →
        u.trace = .removeRunner fence.runnerID .fence answer :: t.trace →
      (operationRules cfg terms).inv u ∧ Conduct t u ∧
        ∀ v, Meanwhile u v → (operationRules cfg terms).inv v → Phase f v := by
    intro u answer hbooks hoperating hfixed htrace
    have hnone : u.scaler.fencing = none := congrArg (·.fencing) hfixed
    refine ⟨⟨hbooks ▸ hinv.1, hfixed ▸ hok⟩, ⟨hoperating, Or.inr (Or.inl hnone), fun id answer' hcall => ?_⟩,
      fun v huv _ => (ht.ended hfencing hfixed).beside huv⟩
    obtain ⟨hmade, -⟩ := List.cons.inj (htrace.symm.trans hcall)
    cases hmade
    exact ⟨fence, congrArg (·.fencing) ht.phase, rfl, hnone, fun hdown => htarget ▸ ht.capacity hdown⟩
  simp only [ScalerWorld.update, ↓reduceIte]
  cases c.outcome with
  | done =>
    dsimp only
    split
    · exact hend _ .jobStillRunning rfl rfl rfl rfl
    · exact hend _ .removed rfl rfl rfl rfl
  | failed => exact hend _ .failed rfl rfl rfl rfl
  | unsure => exact hend _ .failed rfl rfl rfl rfl

theorem sameRunner_restore (r previous : RunnerRecord) : SameRunner r (r.restore previous) := by
  unfold RunnerRecord.restore
  split <;> exact ⟨rfl, rfl, rfl, rfl⟩

theorem safe_restoreRunner (hfencing : f.fencing = none) (hw : Draining f fence w) (previous : RunnerRecord) :
    (restoreRunner previous).Safe (operationRules cfg terms) (fun _ => Phase f) w := by
  have hprogram : restoreRunner previous = ScalerProg.modify fun s =>
      { s with runners := s.runners.change previous.key (·.restore previous), fencing := none } := by
    unfold restoreRunner
    simp only [Scaler.updateRunner_eq]
  rw [hprogram]
  refine Safe.atomic fun t hstep hinv _ _ => ?_
  have ht := hw.beside hstep
  have hended : Phase f (t.update fun s =>
      { s with runners := s.runners.change previous.key (·.restore previous), fencing := none }) :=
        ht.ended hfencing rfl
  refine ⟨⟨{ hinv.1 with runners := ?_ }, hinv.2.target, hinv.2.starts⟩, ?_, fun v huv _ => hended.beside huv⟩
  · exact hinv.1.runners.change _ fun _ r hr => hr.same (sameRunner_restore r previous)
  · exact ⟨rfl, Or.inr (Or.inl rfl), fun _ _ hcall => absurd hcall List.ne_cons_self⟩

theorem plainly_noteRemovalError (previous : RunnerRecord) (answer : Removal) :
    Plainly cfg terms (fun _ => True) (noteRemovalError previous answer) := by
  refine plainly_updateRunner _ fun r => ?_
  split
  · exact ⟨rfl, rfl, rfl, rfl⟩
  · exact sameRunner_restore r previous

section Fences
variable (hstamps : terms.Stamps cfg.rfc) (hfencing : f.fencing = none)
include hstamps hfencing

omit hstamps in
theorem safe_removeFencedRunner {previous : RunnerRecord} (hid : previous.runnerID = fence.runnerID)
    (hw : Draining f fence w) :
    (removeFencedRunner cfg previous).Safe (operationRules cfg terms) (fun _ => Phase f) w := by
  refine Safe.bind ((hid ▸ safe_removeRunner hfencing hw).mono fun answer t ht => ?_)
  split
  · refine Safe.bind ((ht.carry (plainly_resolvePendingRegistrationFence _)).mono fun _ u hu => ?_)
    exact Safe.bind ((hu.carry (plainly_stopFencedRunner _ _)).mono fun _ v hv => hv.done _)
  · refine Safe.bind ((ht.carry (plainly_noteRemovalError _ _)).mono fun _ u hu => ?_)
    split
    · exact Safe.bind ((hu.carry (plainly_resolvePendingRegistrationFence _)).mono fun _ v hv => hv.done _)
    · exact hu.done _

omit hstamps in
theorem safe_retryFencedRunner {previous : RunnerRecord} (hid : previous.runnerID = fence.runnerID)
    (hw : Draining f fence w) :
    (retryFencedRunner cfg previous).Safe (operationRules cfg terms) (fun _ => Phase f) w := by
  have hremoved : Plainly cfg terms (fun _ => True)
      (ScalerProg.modify fun s => s.updateRunner previous.key fun r => { r with registrationRemoved := true }) :=
    plainly_updateRunner _ fun _ => ⟨rfl, rfl, rfl, rfl⟩
  refine Safe.bind ((hid ▸ safe_removeRunner hfencing hw).mono fun answer t ht => ?_)
  split
  · refine Safe.bind ((ht.carry hremoved).mono fun _ u hu => ?_)
    refine Safe.bind ((hu.carry (plainly_resolvePendingRegistrationFence _)).mono fun _ v hv => ?_)
    exact hv.carry (plainly_stopFencedRunner _ _)
  · refine Safe.bind ((ht.carry (plainly_noteRemovalError _ _)).mono fun _ u hu => ?_)
    split
    · exact Safe.bind ((hu.carry (plainly_resolvePendingRegistrationFence _)).mono fun _ v hv => hv.done _)
    · exact hu.done _

omit hstamps in
theorem safe_fence {save : ScalerProg Bool} (hsave : Calmly cfg terms (fun _ => True) save) {q : ScalerProg Bool}
    (hw : Draining f fence w) (previous : RunnerRecord)
    (hq : ∀ {t}, Draining f fence t → q.Safe (operationRules cfg terms) (fun _ => Phase f) t) :
    (save >>= fun saved => if saved = true then q else do restoreRunner previous; return false).Safe
      (operationRules cfg terms) (fun _ => Phase f) w := by
  refine Safe.bind ((Autoscaler.carry hsave (·.toPlain) (fun hstep hI => hI.calm hstep)
    (fun hstep hI => hI.beside hstep) hw).mono fun saved t ht => ?_)
  cases saved with
  | true => exact hq ht.2
  | false => exact Safe.bind ((safe_restoreRunner hfencing ht.2 previous).mono fun _ u hu => hu.done _)

/-! ### Retries of fences -/

omit hstamps hfencing in
theorem retryFence_cases (s : Scaler) (record : RegistrationFenceRecord) :
    s.retryFence record = (.absent, s) ∨ s.retryFence record = (.cancelled, s) ∨
      ∃ runner, s.runners.lookup record.slotKey = some runner ∧
        (record.purpose = .scaleDown → s.targetSlots < s.capacityCount) ∧
        s.retryFence record = (.drained runner, s.drain record.slotKey runner record.purpose) := by
  unfold Scaler.retryFence
  cases hrunner : s.runners.lookup record.slotKey with
  | none => exact Or.inl rfl
  | some runner =>
    dsimp only
    split_ifs with hid hdown
    · exact Or.inl rfl
    · exact Or.inr (Or.inl rfl)
    · exact Or.inr (Or.inl rfl)
    · exact Or.inr (Or.inl rfl)
    · exact Or.inr (Or.inr ⟨runner, rfl, fun hpurpose => not_le.mp fun hle => hdown ⟨hpurpose, hle⟩, rfl⟩)

theorem safe_retryPendingRegistrationFence (hw : Phase f w) {record : RegistrationFenceRecord}
    (hrecord : FenceOk cfg.targetKey terms.stamp record.slotKey record) :
    (retryPendingRegistrationFence cfg record).Safe (operationRules cfg terms) (fun _ => Phase f) w := by
  refine Safe.atomic_bind fun t hstep hinv c _ => ?_
  have ht := hw.beside hstep
  dsimp only
  rcases retryFence_cases t.scaler record with h | h | ⟨runner, hrunner, hpurpose, h⟩
  · rw [h]
    refine ⟨hinv, Conduct.refl t, ?_⟩
    have hbegin : Plainly cfg terms (fun _ => True) (beginPendingRegistrationCleanup cfg
        { key := record.slotKey
          runnerName := record.runnerName
          runnerID := record.runnerID
          containerID := record.containerID
          container := record.containerName }) :=
      (calmly_beginPendingRegistrationCleanup hstamps ⟨rfl, hrecord.identified⟩).plainly
    refine Safe.bind ((ht.carry hbegin).mono fun e u hu => ?_)
    obtain ⟨cleanup, saved⟩ := e
    cases saved with
    | true =>
      refine Safe.bind ((hu.carry (plainly_resolvePendingRegistrationFence _)).mono fun _ v hv => ?_)
      exact hv.carry (calmly_attemptPendingRegistrationCleanup cleanup).plainly
    | false => exact hu.done false
  · rw [h]
    refine ⟨hinv, Conduct.refl t, ?_⟩
    exact Safe.bind ((ht.carry (plainly_resolvePendingRegistrationFence _)).mono fun _ u hu => hu.done true)
  · obtain ⟨hnext, hconduct, hdraining⟩ := drain_step hfencing ht hinv hrunner record.purpose hpurpose
    rw [h]
    refine ⟨hnext, hconduct, ?_⟩
    exact safe_fence hfencing (calmly_preparePendingRegistrationFenceRetry hstamps _) hdraining runner
      fun hu => safe_retryFencedRunner hfencing rfl hu

theorem safe_retryFences {records : List RegistrationFenceRecord} (hw : Phase f w)
    (hrecords : ∀ record ∈ records, FenceOk cfg.targetKey terms.stamp record.slotKey record) :
    (retryFences cfg records).Safe (operationRules cfg terms) (fun _ => Phase f) w := by
  induction records generalizing w with
  | nil => exact hw.done true
  | cons record records ih =>
    have hrest : ∀ r ∈ records, FenceOk cfg.targetKey terms.stamp r.slotKey r := fun r hr =>
      hrecords r (List.mem_cons_of_mem _ hr)
    refine Safe.bind ((hw.carry calmly_now.plainly).mono fun now t ht => ?_)
    split
    · refine Safe.bind ((safe_retryPendingRegistrationFence hstamps hfencing ht
        (hrecords record List.mem_cons_self)).mono
        fun _ u hu => ?_)
      exact Safe.bind ((ih hu hrest).mono fun _ v hv => hv.done _)
    · exact ih ht hrest

theorem safe_retryPendingRegistrationFences (hw : Phase f w) :
    (retryPendingRegistrationFences cfg).Safe (operationRules cfg terms) (fun _ => Phase f) w := by
  have hread :
    Calmly cfg terms (fun records => ∀ record ∈ records, FenceOk cfg.targetKey terms.stamp record.slotKey record)
      (ScalerProg.gets fun s => (s.pendingFences.entriesIn .sorted).map (·.2)) := by
    refine calmly_gets _ fun t ht record hrecord => ?_
    obtain ⟨e, he, rfl⟩ := List.mem_map.mp hrecord
    have hok := ht.fences e.1 e.2 (Map.mem_entriesIn.mp he)
    exact hok.slotKey.symm ▸ hok
  exact Safe.bind ((carry_fixed (I := (· = f)) hread.plainly hw).mono fun records t ht =>
    safe_retryFences hstamps hfencing ht.2 ht.1)

/-! ### Stale runners -/

theorem safe_retireStaleRunner (hw : Phase f w) (key : String) :
    (retireStaleRunner cfg key).Safe (operationRules cfg terms) (fun _ => Phase f) w := by
  refine Safe.atomic_bind fun t hstep hinv c _ => ?_
  have ht := hw.beside hstep
  dsimp only
  cases hrunner : t.scaler.runners.lookup key with
  | none => exact ⟨hinv, Conduct.refl t, ht.done true⟩
  | some runner =>
    dsimp only
    split
    · obtain ⟨hnext, hconduct, hdraining⟩ := drain_step hfencing ht hinv hrunner .stale nofun
      refine ⟨hnext, hconduct, ?_⟩
      have hkey : RunnerOk runner.key runner := by
        have hok := hinv.1.runners _ _ hrunner
        exact hok.key.symm ▸ hok
      refine safe_fence hfencing (calmly_beginPendingRegistrationFence hstamps hkey .stale) hdraining runner fun hu =>
        ?_
      exact Safe.bind ((safe_removeFencedRunner hfencing rfl hu).mono fun _ v hv => hv.done _)
    · exact ⟨hinv, Conduct.refl t, ht.done true⟩

theorem safe_retireRunners (candidates : List RunnerRecord) (hw : Phase f w) :
    (retireRunners cfg candidates).Safe (operationRules cfg terms) (fun _ => Phase f) w := by
  induction candidates generalizing w with
  | nil => exact hw.done true
  | cons candidate candidates ih =>
    refine Safe.bind ((safe_retireStaleRunner hstamps hfencing hw _).mono fun _ t ht => ?_)
    exact Safe.bind ((ih ht).mono fun _ u hu => hu.done _)

theorem safe_retireStaleRunners (hw : Phase f w) :
    (retireStaleRunners cfg).Safe (operationRules cfg terms) (fun _ => Phase f) w := by
  refine Safe.bind ((hw.carry calmly_now.plainly).mono fun now t ht => ?_)
  exact Safe.bind ((ht.carry (calmly_reads _).plainly).mono fun candidates u hu =>
    safe_retireRunners hstamps hfencing candidates hu)

/-! ### Scale-down -/

omit hstamps hfencing in
theorem oldest_mem {time : RunnerRecord → Int} {runners : List RunnerRecord} {p : RunnerRecord → Bool}
    {runner : RunnerRecord}
    (h : (Scaler.oldest time (runners.filter p)).head? = some runner) : runner ∈ runners := by
  have hmem := List.mem_of_head? h
  unfold Scaler.oldest at hmem
  exact List.mem_of_mem_filter ((List.mem_insertionSort _).mp hmem)

omit hstamps hfencing in
theorem scaleDown_cases (s : Scaler) :
    s.scaleDown = (none, { s with scaleDownAt := none }) ∨ s.scaleDown = (none, s) ∨
      ∃ runner ∈ s.records, s.targetSlots < s.capacityCount ∧
        s.scaleDown = (some runner, s.drain runner.key runner .scaleDown) := by
  unfold Scaler.scaleDown
  split
  · exact Or.inl rfl
  · next hle =>
    dsimp only
    cases h : s.oldestIdleRunner.or (if s.retiring then s.oldestProtectedRecoveredRunner else none) with
    | none => exact Or.inr (Or.inl rfl)
    | some runner =>
      refine Or.inr (Or.inr ⟨runner, ?_, not_le.mp hle, rfl⟩)
      rcases Option.or_eq_some_iff.mp h with h | ⟨-, h⟩
      · exact oldest_mem h
      · split at h
        · exact oldest_mem h
        · nomatch h

theorem safe_scaleDownRounds (rounds : Nat) (hw : Phase f w) :
    (scaleDownRounds cfg rounds).Safe (operationRules cfg terms) (fun _ => Phase f) w := by
  induction rounds generalizing w with
  | zero => exact hw.done true
  | succ rounds ih =>
    refine Safe.atomic_bind fun t hstep hinv c _ => ?_
    have ht := hw.beside hstep
    dsimp only
    rcases scaleDown_cases t.scaler with h | h | ⟨runner, hmem, hlt, h⟩
    · rw [h]
      have hplain : Plain t { t with scaler := { t.scaler with scaleDownAt := none } } := ⟨rfl, rfl, Or.inl rfl⟩
      exact ⟨⟨hinv.1, hinv.2.target, hinv.2.starts⟩, hplain.conduct, (ht.plain hplain).done true⟩
    · rw [h]
      exact ⟨hinv, Conduct.refl t, ht.done true⟩
    · obtain ⟨hkey, hlookup⟩ := hinv.1.record hmem
      obtain ⟨hnext, hconduct, hdraining⟩ := drain_step hfencing ht hinv hlookup .scaleDown fun _ => hlt
      rw [h]
      refine ⟨hnext, hconduct, ?_⟩
      refine safe_fence hfencing (calmly_beginPendingRegistrationFence hstamps hkey .scaleDown) hdraining
        runner fun hu => ?_
      refine Safe.bind ((safe_removeFencedRunner hfencing rfl hu).mono fun e v hv => ?_)
      obtain ⟨removed, ok⟩ := e
      cases removed with
      | true => exact Safe.bind ((ih hv).mono fun _ x hx => hx.done _)
      | false =>
        have hclear : Calmly cfg terms (fun _ => True) (ScalerProg.modify fun s => { s with scaleDownAt := none }) :=
          calmly_note (fun _ => rfl) fun _ => .beside rfl rfl rfl (Or.inl rfl)
        exact Safe.bind ((hv.carry hclear.plainly).mono fun _ x hx => hx.done _)

theorem safe_scaleDown (hw : Phase f w) :
    (scaleDown cfg).Safe (operationRules cfg terms) (fun _ => Phase f) w := by
  refine Safe.bind ((hw.carry calmly_now.plainly).mono fun now t ht => ?_)
  have hdue : Plainly cfg terms (fun _ => True) (Prog.locally fun w : ScalerWorld =>
      let scaleDownAt := w.scaler.scaleDownAt.getD (now + cfg.scaleDownDelay)
      (!(now < scaleDownAt), w.update fun s => { s with scaleDownAt := some scaleDownAt })) :=
    Keeps.atomic fun _ _ hw _ => ⟨hw, ⟨rfl, rfl, Or.inl rfl⟩, trivial⟩
  refine Safe.bind ((ht.carry hdue).mono fun due u hu => ?_)
  split
  · exact Safe.bind ((hu.carry (calmly_reads _).plainly).mono fun rounds v hv =>
      safe_scaleDownRounds hstamps hfencing rounds hv)
  · exact hu.done true

end Fences
end Phases

/-! ## Launches -/

/-- `reconcileLocked` may start so many more runners. -/
structure Launching (starts : Nat) (f : Fixed) : Prop where
  fencing : f.fencing = none
  starts : (f.reconciliation.starts : Int) + starts ≤
    max (f.reconciliation.targetSlots - f.reconciliation.capacity - f.reconciliation.pendingRegistrations) 0

/-- Between calls of `reconcileLocked` no runner drains that is to be removed. -/
def AtRest (w : ScalerWorld) : Prop := w.scaler.fixed.fencing = none

section Reconciliations
variable {cfg : ScalerConfig} {terms : Terms} {α : Type} {Q : α → Prop} {p : ScalerProg α}
    {w w' : ScalerWorld} {f : Fixed}

theorem AtRest.beside (h : AtRest w) (hstep : Meanwhile w w') : AtRest w' :=
  (congrArg Fixed.fencing hstep.fixed).trans h

/-- A plain program between calls of `reconcileLocked`, or at the end of one. -/
theorem AtRest.carry (h : Plainly cfg terms Q p) (hw : AtRest w) :
    p.Safe (operationRules cfg terms) (fun _ => AtRest) w :=
  (carry_fixed (I := (·.fencing = none)) h hw).mono fun _ _ hr => hr.2

theorem AtRest.done (hw : AtRest w) (a : α) :
    (pure a : ScalerProg α).Safe (operationRules cfg terms) (fun _ => AtRest) w :=
  Safe.pure fun _ hstep _ => hw.beside hstep

theorem safe_nextRunnerName {rest : Nat} (hw : Launching (rest + 1) w.scaler.fixed) :
    (nextRunnerName cfg).Safe (operationRules cfg terms)
      (fun name w => (∀ n, name = some n → n ≠ "") ∧ Launching rest w.scaler.fixed) w := by
  refine Safe.atomic fun t hstep hinv c _ => ?_
  have ht : Launching (rest + 1) t.scaler.fixed := hstep.fixed.symm ▸ hw
  have hstarts : (t.scaler.reconciliation.starts : Int) + (rest + 1 : Nat) ≤ _ := ht.starts
  push_cast at hstarts
  have hnext : Launching rest { t.scaler.fixed with
      reconciliation := { t.scaler.reconciliation with starts := t.scaler.reconciliation.starts + 1 } } := by
    refine ⟨ht.fencing, ?_⟩
    show ((t.scaler.reconciliation.starts + 1 : Nat) : Int) + rest ≤ _
    push_cast
    exact le_trans (le_of_eq (by ring)) hstarts
  refine ⟨⟨hinv.1, hinv.2.target, le_trans (le_add_of_nonneg_right (Int.natCast_nonneg rest)) hnext.starts⟩,
    .of rfl rfl (Or.inl rfl), fun u huv _ => ⟨fun n hn => ?_, huv.fixed.symm ▸ hnext⟩⟩
  dsimp only at hn
  split at hn
  · exact Option.some.inj hn ▸ runnerName_ne_empty cfg c.text
  · nomatch hn

theorem safe_startRunner (hstamps : terms.Stamps cfg.rfc) {rest : Nat} (hw : Launching (rest + 1) w.scaler.fixed) :
    (startRunner cfg).Safe (operationRules cfg terms) (fun _ w => Launching rest w.scaler.fixed) w := by
  have hplain : ∀ {q : ScalerProg (Option LaunchFailure)} {t : ScalerWorld}, Plainly cfg terms (fun _ => True) q →
      Launching rest t.scaler.fixed → q.Safe (operationRules cfg terms) (fun _ w => Launching rest w.scaler.fixed) t :=
    fun hq ht => (carry_fixed hq ht).mono fun _ _ hr => hr.2
  refine Safe.bind ((safe_nextRunnerName hw).mono fun name t ht => ?_)
  match name with
  | none => exact hplain (Keeps.pure trivial) ht.2
  | some name =>
    have hname : name ≠ "" := ht.1 name rfl
    refine hplain (Keeps.cond (calmly_reads _).plainly ?_ (plainly_launchRunner hstamps hname "")) ht.2
    exact Keeps.cond (calmly_acquire name).plainly (plainly_launchRunner hstamps hname name) (Keeps.pure trivial)

theorem safe_startRunners (hstamps : terms.Stamps cfg.rfc) (remaining : Nat) (hw : Launching remaining w.scaler.fixed) :
    (startRunners cfg remaining).Safe (operationRules cfg terms) (fun _ => AtRest) w := by
  induction remaining generalizing w with
  | zero => exact AtRest.carry (calmly_clearDemand (calmly_pure true)).plainly hw.fencing
  | succ remaining ih =>
    refine Safe.bind ((safe_startRunner hstamps hw).mono fun failure t ht => ?_)
    match failure with
    | none => exact Safe.bind ((carry_fixed calmly_clearLaunchRetry.plainly ht).mono fun _ u hu => ih hu.2)
    | some .hostAdmission => exact AtRest.done ht.fencing false
    | some .other =>
      exact AtRest.carry (calmly_clearDemand (calmly_scheduleLaunchRetry.seq fun _ => calmly_pure false)).plainly
        ht.fencing

/-! ### The decision -/

/-- What `decide` does to a scaler. -/
structure Decided (s s' : Scaler) : Prop where
  fixed : s'.fixed =
    { s.fixed with reconciliation := { s.reconciliation with targetSlots := s.targetSlots,
                                                             capacity := s.capacityCount } }
  books : ∀ w : ScalerWorld, { w with scaler := s' }.books = { w with scaler := s }.books

theorem Decided.ite {s a b : Scaler} {c : Prop} [Decidable c] (ha : Decided s a) (hb : Decided s b) :
    Decided s (if c then a else b) := by
  split
  · exact ha
  · exact hb

theorem decided (s : Scaler) (launchIntentPending : Bool) (now : Int) :
    Decided s (s.decide launchIntentPending now).2 ∧
      ∀ missing, (s.decide launchIntentPending now).1 = .launch missing →
        missing = s.targetSlots - s.capacityCount := by
  unfold Scaler.decide
  lift_lets
  intro current target noted waiting steady
  have hnoted : Decided s noted := ⟨rfl, fun _ => rfl⟩
  have hwaiting : Decided s waiting := .ite ⟨rfl, fun _ => rfl⟩ ⟨rfl, fun _ => rfl⟩
  have hsteady : Decided s steady := .ite ⟨hwaiting.fixed, hwaiting.books⟩ hwaiting
  clear_value steady waiting noted
  split_ifs
  · exact ⟨hnoted, nofun⟩
  · exact ⟨hnoted, nofun⟩
  · exact ⟨hnoted, nofun⟩
  · exact ⟨hwaiting, nofun⟩
  · exact ⟨hsteady, fun missing h => (Capacity.launch.inj h).symm⟩
  · exact ⟨hsteady, nofun⟩
  · exact ⟨hsteady, nofun⟩

/-- So many runners are missing, as `reconcileLocked` has just found. -/
structure Short (missing : Int) (f : Fixed) : Prop where
  fencing : f.fencing = none
  starts : f.reconciliation.starts = 0
  found : f.reconciliation.targetSlots - f.reconciliation.capacity = missing

theorem safe_launchMissing (hstamps : terms.Stamps cfg.rfc) {missing : Int} (hw : Short missing w.scaler.fixed) :
    (launchMissing cfg missing).Safe (operationRules cfg terms) (fun _ => AtRest) w := by
  refine Safe.atomic_bind fun t hstep hinv _ _ => ?_
  have ht : Short missing t.scaler.fixed := hstep.fixed.symm ▸ hw
  have hlaunching : ∀ (blocked : Int) (n : Nat), (n : Int) ≤ missing - min blocked missing → Launching n
      { t.scaler.fixed with reconciliation := { t.scaler.reconciliation with pendingRegistrations := blocked } } := by
    intro blocked n hn
    have hstarts : t.scaler.reconciliation.starts = 0 := ht.starts
    have hfound : t.scaler.reconciliation.targetSlots - t.scaler.reconciliation.capacity = missing := ht.found
    refine ⟨ht.fencing, ?_⟩
    show (t.scaler.reconciliation.starts : Int) + n ≤
      max (t.scaler.reconciliation.targetSlots - t.scaler.reconciliation.capacity - blocked) 0
    rw [hstarts]
    push_cast
    omega
  have hnone : ∀ blocked : Int, (0 : Nat) ≤ missing - min blocked missing := by
    intro blocked
    push_cast
    omega
  have hok : ∀ blocked : Int, Fixed.Ok
      { t.scaler.fixed with reconciliation := { t.scaler.reconciliation with pendingRegistrations := blocked } } :=
    fun blocked => ⟨hinv.2.target, le_trans (le_of_eq (add_zero _).symm) (hlaunching blocked 0 (hnone blocked)).starts⟩
  refine ⟨⟨hinv.1, hok _⟩, .of rfl rfl (Or.inl rfl), ?_⟩
  dsimp only
  refine Safe.atomic_bind fun u hu hinv c _ => ⟨hinv, Conduct.refl u, ?_⟩
  have hadmitted :
    Launching (min c.granted (missing - min (t.scaler.pendingRegistrations.keys.card : Int) missing).toNat)
      u.scaler.fixed := by
    rw [hu.fixed]
    refine hlaunching _ _ ?_
    have := hnone (t.scaler.pendingRegistrations.keys.card : Int)
    omega
  dsimp only
  generalize min c.granted (missing - min (t.scaler.pendingRegistrations.keys.card : Int) missing).toNat =
    admitted at hadmitted ⊢
  exact Safe.bind ((carry_fixed (calmly_setTargetDemand admitted).plainly hadmitted).mono fun _ v hv =>
    safe_startRunners hstamps admitted hv.2)

/-! ### The course of a call -/

/-- The fixed part during a call of `reconcileLocked` that has started no runner yet. -/
structure Fixed.Fresh (f : Fixed) : Prop where
  starts : f.reconciliation.starts = 0
  fencing : f.fencing = none

section
variable (hstamps : terms.Stamps cfg.rfc)
include hstamps

theorem safe_reconcileCapacity (hf : f.Fresh) (hw : Phase f w) (launchIntentPending adopted : Bool) :
    (reconcileCapacity cfg launchIntentPending adopted).Safe (operationRules cfg terms) (fun _ => AtRest) w := by
  refine Safe.atomic_bind fun t hstep hinv c _ => ?_
  have ht : t.scaler.fixed = f := hw.beside hstep
  have hstarts : t.scaler.reconciliation.starts = 0 := (congrArg (·.reconciliation.starts) ht).trans hf.starts
  obtain ⟨hdecided, hlaunch⟩ := decided t.scaler launchIntentPending c.now
  dsimp only
  generalize t.scaler.decide launchIntentPending c.now = d at hdecided hlaunch ⊢
  have hreconciliation := congrArg (·.reconciliation) hdecided.fixed
  have hfencing :
      d.2.fencing = none := (congrArg (·.fencing) hdecided.fixed).trans ((congrArg (·.fencing) ht).trans hf.fencing)
  have hok : d.2.fixed.Ok := by
    rw [hdecided.fixed]
    refine ⟨hinv.2.target, ?_⟩
    show (t.scaler.reconciliation.starts : Int) ≤ _
    rw [hstarts]
    exact le_max_right _ _
  refine ⟨⟨hdecided.books t ▸ hinv.1, hok⟩, .of rfl (congrArg (·.fencing) hdecided.fixed) (Or.inl rfl), ?_⟩
  have hrest : AtRest { t with scaler := d.2 } := hfencing
  have hclear : (HostAdmission.setTargetDemand 0 >>= fun _ => pure true).Safe (operationRules cfg terms)
      (fun _ => AtRest) { t with scaler := d.2 } :=
    hrest.carry (calmly_clearDemand (calmly_pure true)).plainly
  match hcapacity : d.1 with
  | .shutdown => exact hrest.done true
  | .wait => exact hclear
  | .steady => exact hclear
  | .launch missing =>
    cases adopted with
    | true =>
      refine safe_launchMissing hstamps ⟨hfencing, (congrArg (·.starts) hreconciliation).trans hstarts, ?_⟩
      have htarget : d.2.reconciliation.targetSlots = t.scaler.targetSlots := congrArg (·.targetSlots) hreconciliation
      have hcount : d.2.reconciliation.capacity = t.scaler.capacityCount := congrArg (·.capacity) hreconciliation
      have hmissing := hlaunch missing hcapacity
      show d.2.reconciliation.targetSlots - d.2.reconciliation.capacity = missing
      omega
    | false => exact hrest.done true
  | .shrink =>
    have hphase : Phase d.2.fixed { t with scaler := d.2 } := rfl
    refine Safe.bind ((hphase.carry (calmly_setTargetDemand 0).plainly).mono fun _ u hu => ?_)
    exact (safe_scaleDown hstamps hfencing hu).mono fun _ v hv => (congrArg Fixed.fencing hv).trans hfencing

theorem calmly_retryLaunchIntent (adopted : Bool) :
    Calmly cfg terms (fun _ => True) (retryLaunchIntent cfg adopted) := by
  unfold retryLaunchIntent
  split
  · exact calmly_retryPendingLaunchIntent hstamps
  · exact calmly_pure true

/-- A call of `reconcileLocked`. -/
theorem safe_reconcileLocked (hw : AtRest w) :
    (reconcileLocked cfg).Safe (operationRules cfg terms) (fun _ => AtRest) w := by
  refine Safe.atomic_bind fun t hstep hinv _ _ => ?_
  have ht := hw.beside hstep
  refine ⟨⟨hinv.1, hinv.2.target, le_max_right _ _⟩, .of rfl rfl (Or.inl rfl), ?_⟩
  dsimp only
  split
  · exact AtRest.carry (calmly_clearDemand (calmly_pure false)).plainly ht
  · have hfresh : Fixed.Fresh { t.scaler.fixed with reconciliation := {} } := ⟨rfl, ht⟩
    have hphase : Phase { t.scaler.fixed with reconciliation := {} } (t.update (·.noteReconciliation fun _ => {})) :=
      rfl
    refine Safe.bind ((hphase.carry plainly_retryPendingHostLeaseAdoptions).mono fun e u hu => ?_)
    obtain ⟨adopted, adoption⟩ := e
    refine Safe.bind ((hu.carry (calmly_retryLaunchIntent hstamps adopted).plainly).mono fun intent u hu => ?_)
    refine Safe.bind ((hu.carry (calmly_reads _).plainly).mono fun launchIntentPending u hu => ?_)
    refine Safe.bind ((hu.carry calmly_retryPendingHostLeaseReleases.plainly).mono fun releases u hu => ?_)
    refine Safe.bind ((hu.carry (calmly_retryPendingRegistrations hstamps).plainly).mono fun registrations u hu => ?_)
    refine Safe.bind ((safe_retryPendingRegistrationFences hstamps hfresh.fencing hu).mono fun fences u hu => ?_)
    refine Safe.bind ((hu.carry plainly_retryCleanupPending).mono fun cleanups u hu => ?_)
    refine Safe.bind ((safe_retireStaleRunners hstamps hfresh.fencing hu).mono fun stale u hu => ?_)
    refine Safe.bind ((hu.carry (plainly_reconcileContainerLiveness hstamps)).mono fun liveness u hu => ?_)
    exact Safe.bind ((safe_reconcileCapacity hstamps hfresh hu launchIntentPending adopted).mono
      fun _ u hu => hu.done _)

end
end Reconciliations

/-! ## Operations -/

theorem calculateTarget_le (maximum minimumIdle assignedJobs : Int) :
    calculateTarget maximum minimumIdle assignedJobs ≤ max maximum 0 := by
  unfold calculateTarget
  split_ifs <;> omega

def Scaler.aim (s : Scaler) (maximum targetSlots assignedJobs : Int) (retiring : Bool) (scaleDownAt : Option Int) :
    Scaler :=
  { s with maximum, targetSlots, assignedJobs, retiring, scaleDownAt }

section Operations
variable {cfg : ScalerConfig} {terms : Terms} {w : ScalerWorld}

theorem retarget_le (s : Scaler) (maximum : Int) : (s.retarget cfg maximum).targetSlots ≤ max maximum 0 := by
  show (if s.retiring then 0 else calculateTarget maximum cfg.minimumIdle s.assignedJobs) ≤ _
  split
  · exact le_max_right _ _
  · exact calculateTarget_le _ _ _

theorem aim_step (hinv : (operationRules cfg terms).inv w) (hw : AtRest w) {maximum targetSlots : Int}
    (h : targetSlots ≤ max maximum 0) (assignedJobs : Int) (retiring : Bool) (scaleDownAt : Option Int) :
    (operationRules cfg terms).inv (w.update (·.aim maximum targetSlots assignedJobs retiring scaleDownAt)) ∧
      Conduct w (w.update (·.aim maximum targetSlots assignedJobs retiring scaleDownAt)) ∧
      AtRest (w.update (·.aim maximum targetSlots assignedJobs retiring scaleDownAt)) :=
  ⟨⟨hinv.1, h, hinv.2.starts⟩, .of rfl rfl (Or.inl rfl), hw⟩

/-- A change of the target between calls of `reconcileLocked`. -/
theorem safe_aim {α : Type} (answer : ScalerWorld → α) {g : Scaler → Scaler}
    (h : ∀ s, (g s).targetSlots ≤ max (g s).maximum 0 ∧
      g s = s.aim (g s).maximum (g s).targetSlots (g s).assignedJobs (g s).retiring (g s).scaleDownAt) (hw : AtRest w) :
    (Prog.locally fun w => (answer w, w.update g)).Safe (operationRules cfg terms) (fun _ => AtRest) w := by
  refine Safe.atomic fun t hstep hinv _ _ => ?_
  obtain ⟨htarget, heq⟩ := h t.scaler
  have hupdate : t.update g = t.update (·.aim (g t.scaler).maximum (g t.scaler).targetSlots (g t.scaler).assignedJobs
      (g t.scaler).retiring (g t.scaler).scaleDownAt) :=
    congrArg (fun s => { t with scaler := s }) heq
  obtain ⟨hnext, hconduct, hrest⟩ := aim_step hinv (hw.beside hstep) htarget (g t.scaler).assignedJobs
    (g t.scaler).retiring (g t.scaler).scaleDownAt
  rw [← hupdate] at hnext hconduct hrest
  exact ⟨hnext, hconduct, fun u hu _ => hrest.beside hu⟩

variable (hstamps : terms.Stamps cfg.rfc)
include hstamps

/-- A call of `reconcileLocked` at the end of an operation. -/
theorem safe_reconciles (hw : AtRest w) :
    (do let _ ← reconcileLocked cfg : ScalerProg Unit).Safe (operationRules cfg terms) (fun _ => AtRest) w :=
  Safe.bind ((safe_reconcileLocked hstamps hw).mono fun _ _ ht => ht.done ())

theorem safe_setMaximum (maximum : Int) (hw : AtRest w) :
    (setMaximum cfg maximum).Safe (operationRules cfg terms) (fun _ => AtRest) w := by
  unfold setMaximum
  split
  · exact hw.done ()
  · refine Safe.bind ((safe_aim (g := fun s => s.retarget cfg maximum)
      (fun w => (w.scaler.maximum, w.scaler.scaleDownAt))
      (fun s => ⟨retarget_le s maximum, rfl⟩) hw).mono fun previous t ht => ?_)
    refine Safe.bind ((safe_reconcileLocked hstamps ht).mono fun ok u hu => ?_)
    cases ok with
    | true => exact hu.done ()
    | false =>
      exact Safe.bind ((safe_aim (g := fun s => { s.retarget cfg previous.1 with scaleDownAt := previous.2 })
        (fun _ => ())
        (fun s => ⟨retarget_le s previous.1, rfl⟩) hu).mono fun _ v hv => safe_reconciles hstamps hv)

theorem safe_program (op : Operation) (hw : AtRest w) :
    (op.program cfg).Safe (operationRules cfg terms) (fun _ => AtRest) w := by
  cases op with
  | desiredRunnerCount assignedJobs =>
    show (handleDesiredRunnerCount cfg assignedJobs).Safe _ _ w
    unfold handleDesiredRunnerCount
    split
    · exact hw.done ()
    · exact Safe.bind ((safe_aim (g := fun s => Scaler.retarget cfg { s with assignedJobs } s.maximum) (fun _ => ())
        (fun s => ⟨retarget_le _ s.maximum, rfl⟩) hw).mono fun _ t ht => safe_reconciles hstamps ht)
  | jobStarted runnerName runnerID => exact hw.carry (plainly_handleJob _ _ fun _ _ => ⟨rfl, rfl, rfl, rfl⟩)
  | jobCompleted runnerName runnerID => exact hw.carry (plainly_handleJob _ _ fun _ _ => ⟨rfl, rfl, rfl, rfl⟩)
  | setMaximum maximum => exact safe_setMaximum hstamps maximum hw
  | beginRetirement =>
    refine Safe.bind ((hw.carry calmly_now.plainly).mono fun now t ht => ?_)
    exact Safe.bind ((safe_aim (g := fun s => { s with retiring := true, maximum := 0, targetSlots := 0,
                                                       scaleDownAt := some now })
      (fun _ => ()) (fun s => ⟨le_max_right _ _, rfl⟩) ht).mono fun _ u hu => safe_reconciles hstamps hu)
  | reactivate maximum =>
    show (reactivate cfg maximum).Safe _ _ w
    unfold reactivate
    split
    · exact hw.done ()
    · exact Safe.bind ((safe_aim
        (g := fun s => { Scaler.retarget cfg { s with retiring := false } maximum with scaleDownAt := none })
          (fun _ => ())
        (fun s => ⟨retarget_le { s with retiring := false } maximum, rfl⟩) hw).mono fun _ t ht =>
          safe_reconciles hstamps ht)
  | tick => exact safe_reconciles hstamps hw
  | containerExit containerID =>
    refine Safe.bind ((hw.carry (plainly_handleContainerExitLocked hstamps containerID)).mono fun follows t ht => ?_)
    cases follows with
    | true => exact safe_reconciles hstamps ht
    | false => exact ht.done ()
  | logSignal containerID signal => exact hw.carry (plainly_applyLogState containerID signal)
  | shutdown => exact hw.carry (plainly_shutdown hstamps)

end Operations
end PitCrew.Autoscaler
