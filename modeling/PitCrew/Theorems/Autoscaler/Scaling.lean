import PitCrew.Theorems.Autoscaler.Conduct
import PitCrew.Theorems.Autoscaler.Revival

/-! # Scaling within the target

Recovery adds runners and takes none away from an operation under way (`Grows`). With it, the conduct of
operations holds along every run of a target, for the current scaler and for those that earlier attempts left
running (`Sound`): launches stay within what is missing, the target within the maximum, and scale-down within the
surplus. -/

namespace PitCrew.Autoscaler
open Base Prog

/-! ## Recovery -/

structure Grows (w w' : ScalerWorld) : Prop where
  fixed : w'.scaler.fixed = w.scaler.fixed
  operating : w'.operating = w.operating
  capacity : w.operating = true → w.scaler.capacityCount ≤ w'.scaler.capacityCount

section Recovery
variable {cfg : ScalerConfig} {terms : Terms} {α : Type} {Q : α → Prop} {p : ScalerProg α}

theorem Grows.refl (w : ScalerWorld) : Grows w w := ⟨rfl, rfl, fun _ => le_refl _⟩

theorem Calm.grows {w w' : ScalerWorld} (h : Calm w w') : Grows w w' := ⟨h.fixed, h.operating, fun _ => h.capacity.ge⟩

abbrev Growing (cfg : ScalerConfig) (terms : Terms) (p : ScalerProg α) : Prop :=
  p.Keeps (stepRules cfg terms Grows) fun _ => True

theorem Calmly.growing (h : Calmly cfg terms Q p) : Growing cfg terms p := by
  intro w
  have hw : p.Safe (stepRules cfg terms Grows) (fun a _ => Q a) w := (h w).weaken (fun _ => Iff.rfl) id (·.grows) id
  exact hw.mono fun _ _ _ => trivial

theorem growing_pure (a : α) : Growing cfg terms (pure a) := Keeps.pure trivial

variable {found : RecoveredContainer} (hfound : ContainerOk found.containerID found.container)
include hfound

theorem RecoveredContainer.runner_ok : RunnerOk found.runner.key found.runner := ⟨rfl, hfound⟩

theorem calmly_discard (hstamps : terms.Stamps cfg.rfc) (hostSlotKey : String) :
    Calmly cfg terms (fun _ => True) (found.discard cfg hostSlotKey) := by
  refine (calmly_removeRegistrationOrEnqueue hstamps fun _ => RecoveredContainer.runner_ok hfound).seq fun removed => ?_
  refine (calmly_stopAndRemove _ _).seq fun stopped => ?_
  exact (calmly_releaseHostLeaseOrEnqueue hfound.slotKey hostSlotKey).seq fun released => calmly_pure _

omit hfound in
theorem growing_replayLogs : Growing cfg terms found.replayLogs := by
  refine Keeps.atomic fun w c hw _ => ?_
  cases c.signal with
  | none => exact ⟨hw, .refl w, trivial⟩
  | some signal =>
    dsimp only
    split
    · exact ⟨hw, .refl w, trivial⟩
    · next hfree =>
      obtain ⟨hbooks, hplain⟩ := applyLogState_plain hw found.containerID signal c.now
      exact ⟨hbooks, ⟨hplain.fixed, hplain.operating, fun h => absurd h hfree⟩, trivial⟩

theorem growing_insert (hostSlotKey : String) (replay adopted : Bool) :
    Growing cfg terms (found.insert cfg hostSlotKey replay adopted) := by
  refine Keeps.seq (Keeps.atomic fun w c hw _ => ?_) fun inserted => ?_
  · dsimp only
    split
    · exact ⟨hw, .refl w, trivial⟩
    · next hnew =>
      have hfree :
          w.scaler.runners.lookup (found.recoveredRunner cfg w.scaler hostSlotKey adopted c.now).key = none := by
        simpa using hnew
      refine ⟨{ hw with runners := hw.runners.insert ⟨rfl, hfound⟩ }, ⟨rfl, rfl, fun _ => ?_⟩, trivial⟩
      rw [Scaler.capacityCount_eq, Scaler.capacityCount_eq]
      show _ ≤ Map.sumOf (·.weight) (w.scaler.runners.insert _ _)
      rw [Map.sumOf_insert hfree]
      exact le_add_of_nonneg_left (RunnerRecord.weight_nonneg _)
  · cases inserted with
    | false => exact growing_pure false
    | true =>
      cases replay with
      | false => exact growing_pure true
      | true => exact growing_replayLogs.seq fun _ => growing_pure true

omit hfound in
theorem calmly_confirm {call : ScalerProg Bool} (h : Calmly cfg terms (fun _ => True) call) :
    Calmly cfg terms (fun _ => True) (found.confirm call) :=
  h.seq fun _ => Keeps.seq (Keeps.atomic fun _ _ hw _ => ⟨hw, .outside rfl rfl (Or.inr ⟨_, rfl, rfl⟩), trivial⟩)
    fun _ => calmly_pure _

omit hfound in
theorem calmly_bind (key : String) : Calmly cfg terms (fun _ => True) (found.bind key) :=
  (calmly_bindRegistration _ _).seq fun _ => calmly_pure _

theorem growing_start (hstamps : terms.Stamps cfg.rfc) (adopted : Bool) : Growing cfg terms (found.start cfg adopted) :=
  Keeps.cond (calmly_startContainer _).growing (growing_insert hfound _ _ _) (calmly_discard hfound hstamps _).growing

theorem growing_recoverCreated (hstamps : terms.Stamps cfg.rfc) : Growing cfg terms (found.recoverCreated cfg) := by
  have hdiscard := fun key => (calmly_discard hfound hstamps key).growing
  refine Keeps.cond (calmly_reads _).growing ?_ (growing_start hfound hstamps false)
  dsimp only
  split
  · exact Keeps.seq (Keeps.atomic fun w _ hw _ => ⟨hw, Calm.grows (.outside rfl rfl (Or.inr ⟨_, rfl, rfl⟩)), trivial⟩)
      fun _ => hdiscard _
  · refine Keeps.cond (calmly_confirm (calmly_bind _)).growing ?_ (hdiscard _)
    refine Keeps.cond (calmly_confirm (calmly_adopt _)).growing ?_ (hdiscard _)
    exact Keeps.cond (calmly_confirm (calmly_bind _)).growing (growing_start hfound hstamps true) (hdiscard _)

omit hfound in
theorem calmly_confirmLease (key : String) : Calmly cfg terms (fun _ => True) (found.confirmLease key) := by
  refine (calmly_bindRegistration _ _).seq fun answer => ?_
  match answer with
  | .ok => exact calmly_adopt key
  | .failed => exact calmly_pure false
  | .notFound => exact Keeps.cond (calmly_adopt key) (calmly_bind key) (calmly_pure false)

theorem growing_recoverRunning : Growing cfg terms (found.recoverRunning cfg) := by
  refine Keeps.cond (calmly_reads _).growing ?_ (growing_insert hfound _ _ _)
  exact (calmly_confirmLease _).growing.seq fun adopted => growing_insert hfound _ _ _

theorem growing_recover (hstamps : terms.Stamps cfg.rfc) : Growing cfg terms (found.recover cfg) := by
  unfold RecoveredContainer.recover
  split
  · exact growing_pure false
  · split
    · exact growing_recoverCreated hfound hstamps
    · exact growing_recoverRunning hfound

omit hfound in
theorem growing_recoverAll (hstamps : terms.Stamps cfg.rfc) {snapshot : List RecoveredContainer}
    (h : ∀ found ∈ snapshot, ContainerOk found.containerID found.container) :
    Growing cfg terms (recoverAll cfg snapshot) := by
  induction snapshot with
  | nil => exact growing_pure true
  | cons found rest ih =>
    exact Keeps.cond (growing_recover (h found List.mem_cons_self) hstamps)
      (ih fun f hf => h f (List.mem_cons_of_mem _ hf)) (growing_pure false)

end Recovery

/-! ## Runs -/

def ScalerEvent.Within (terms : Terms) : ScalerEvent → Prop
  | .recovery reply | .operation reply | .older _ reply => terms.clock reply.now
  | _ => True

structure Underway (cfg : ScalerConfig) (terms : Terms) (operation : ScalerProg Unit) (w : ScalerWorld) : Prop where
  inv : (operationRules cfg terms).inv w
  safe : operation.Safe (operationRules cfg terms) (fun _ => AtRest) w

structure Sound (cfg : ScalerConfig) (terms : Terms) (s : ScalerSystem) : Prop where
  operation : Underway cfg terms s.operation s.world
  gate : s.operation.ended = false → s.world.operating = true
  snapshot : ∀ found ∈ s.snapshot, ContainerOk found.containerID found.container
  recovery : Growing cfg terms s.recovery
  older : ∀ e ∈ s.older, Underway cfg terms e.2 { s.world with scaler := e.1 }

section Runs
variable {cfg : ScalerConfig} {terms : Terms} {w w' : ScalerWorld} {s : ScalerSystem}

theorem underway_pure (hinv : (operationRules cfg terms).inv w) (hrest : w.scaler.fencing = none) :
    Underway cfg terms (pure ()) w :=
  ⟨hinv, AtRest.done hrest ()⟩

theorem Underway.atRest {operation : ScalerProg Unit} (h : Underway cfg terms operation w)
    (hended : operation.ended = true) :
    AtRest w := by
  cases operation with
  | done a => exact h.safe w (Meanwhile.refl w) h.inv
  | step act next => exact absurd hended Bool.false_ne_true

theorem Underway.moved {operation : ScalerProg Unit} (h : Underway cfg terms operation w) (hstep : Meanwhile w w')
    (hinv : (operationRules cfg terms).inv w') : Underway cfg terms operation w' :=
  ⟨hinv, h.safe.moved hstep⟩

theorem beside_swap (w w' : ScalerWorld) (scaler : Scaler) : Meanwhile { w with scaler } { w' with scaler } :=
  ⟨rfl, le_refl _⟩

theorem inv_swap (h : (operationRules cfg terms).inv w) (h' : (operationRules cfg terms).inv w') :
    (operationRules cfg terms).inv { w with scaler := w'.scaler } :=
  ⟨{ h'.1 with
     containers := h.1.containers
     cleanupFile := h.1.cleanupFile
     fenceFile := h.1.fenceFile
     intentFile := h.1.intentFile
     releaseFile := h.1.releaseFile }, h'.2⟩

theorem Underway.swap {operation : ScalerProg Unit} {scaler : Scaler}
    (h : Underway cfg terms operation { w with scaler })
    (hinv : (operationRules cfg terms).inv w') : Underway cfg terms operation { w' with scaler } :=
  h.moved (beside_swap w w' scaler) (inv_swap hinv h.inv)

theorem Sound.moved (h : Sound cfg terms s) (hstep : Meanwhile s.world w') (hinv : (operationRules cfg terms).inv w')
    (hoperating : w'.operating = s.world.operating) : Sound cfg terms { s with world := w' } where
  operation := h.operation.moved hstep hinv
  gate := fun hended => hoperating.trans (h.gate hended)
  snapshot := h.snapshot
  recovery := h.recovery
  older := fun e he => (h.older e he).swap hinv

theorem Sound.outside (h : Sound cfg terms s) (hscaler : w'.scaler = s.world.scaler)
    (hoperating : w'.operating = s.world.operating)
    (hbooks : w'.books.Ok cfg.targetKey terms.stamp) : Sound cfg terms { s with world := w' } :=
  h.moved ⟨by rw [hscaler], by rw [hscaler]⟩ ⟨hbooks, hscaler ▸ h.operation.inv.2⟩ hoperating

theorem newRunnerScaler_inv (h : (operationRules cfg terms).inv w) (settings : Settings) (hostAdmission : Bool)
    (maximum : Int)
    (loads : Loads) : (operationRules cfg terms).inv
      { w with scaler := newRunnerScaler (cfg.set settings) w hostAdmission maximum loads } := by
  obtain ⟨hbooks, -⟩ := h
  refine ⟨⟨hbooks.containers, Map.All.empty _, ?_, hbooks.cleanupFile, ?_, hbooks.fenceFile, ?_, hbooks.intentFile, ?_,
    hbooks.releaseFile⟩, calculateTarget_le _ _ _, le_max_right _ _⟩
  · show Map.All _ (if loads.cleanups then w.cleanupFile else ∅)
    split
    · exact hbooks.cleanupFile
    · exact Map.All.empty _
  · show Map.All _ (if loads.fences then w.fenceFile else ∅)
    split
    · exact hbooks.fenceFile
    · exact Map.All.empty _
  · intro r hr
    have hr : (if loads.intent then w.intentFile else none) = some r := hr
    split at hr
    · exact hbooks.intentFile r hr
    · exact absurd hr.symm (Option.some_ne_none r)
  · show Map.All _ (if loads.releases then w.releaseFile else ∅)
    split
    · exact hbooks.releaseFile
    · exact Map.All.empty _

theorem Sound.attempt (hstamps : terms.Stamps cfg.rfc) (h : Sound cfg terms s) (maximum : Int) (loads : Loads) :
    Sound cfg terms (s.step cfg (.attempt maximum loads)).1 := by
  unfold ScalerSystem.step
  dsimp only
  split
  · have hinv := newRunnerScaler_inv h.operation.inv s.settings s.settings.hostAdmission maximum loads
    have hrecovery : Growing (cfg.set s.settings) terms (recoverAll (cfg.set s.settings) s.snapshot) :=
      growing_recoverAll (show terms.Stamps (cfg.set s.settings).rfc from hstamps) h.snapshot
    refine ⟨underway_pure hinv rfl, nofun, h.snapshot, hrecovery, fun e he => ?_⟩
    have hshared : Underway cfg terms e.2 { s.world with scaler := e.1 } := by
      split at he
      · exact h.older e he
      · rcases List.mem_cons.mp he with rfl | he
        · exact h.operation
        · exact h.older e he
    exact hshared.swap hinv
  · exact h

theorem Sound.restart (h : Sound cfg terms s) (settings : Settings) :
    Sound cfg terms (s.step cfg (.restart settings)).1 := by
  have hbooks := h.operation.inv.1
  have hloaded : Books.Ok cfg.targetKey terms.stamp { s.world with scaler := s.world.unloaded }.books :=
    { hbooks with
      runners := Map.All.empty _
      cleanups := hbooks.cleanupFile
      fences := hbooks.fenceFile
      intent := hbooks.intentFile
      releases := hbooks.releaseFile }
  refine ⟨underway_pure ⟨hloaded, le_max_right _ _, le_max_right _ _⟩ rfl,
    fun hended => absurd hended Bool.true_eq_false.mp,
    fun found hfound => ?_, growing_pure false, fun e he => absurd he List.not_mem_nil⟩
  obtain ⟨e, he, rfl⟩ := List.mem_map.mp hfound
  exact hbooks.containers e.1 e.2 (Map.mem_entriesIn.mp he)

theorem Sound.recover (h : Sound cfg terms s) {reply : ScalerReply} (hreply : terms.clock reply.now) :
    Sound cfg terms (s.step cfg (.recovery reply)).1 := by
  obtain ⟨hbooks, hgrows, hnext⟩ := h.recovery.advance (fun _ _ => trivial) h.operation.inv.1 hreply (Grows.refl _)
  have hfixed := hgrows.fixed
  have hinv : (operationRules cfg terms).inv (s.recovery.advance s.world reply).1 :=
    ⟨hbooks, hfixed ▸ h.operation.inv.2⟩
  have hoperating : (s.recovery.advance s.world reply).1.operating = s.world.operating := hgrows.operating
  refine ⟨?_, fun hended => hoperating.trans (h.gate hended), h.snapshot, hnext, fun e he => (h.older e he).swap hinv⟩
  cases hended : s.operation.ended with
  | true =>
    -- nothing is under way, and recovery may change the runners as it likes
    have hrest : AtRest (s.recovery.advance s.world reply).1 :=
      (congrArg Fixed.fencing hfixed).trans (h.operation.atRest hended)
    refine ⟨hinv, ?_⟩
    show s.operation.Safe _ _ _
    cases hoperation : s.operation with
    | done a => exact hrest.done a
    | step act next =>
      rw [hoperation] at hended
      exact absurd hended Bool.false_ne_true
  | false =>
    exact h.operation.moved ⟨hfixed, hgrows.capacity (h.gate hended)⟩ hinv

theorem Sound.begin (hstamps : terms.Stamps cfg.rfc) (h : Sound cfg terms s) (op : Operation) :
    Sound cfg terms (s.step cfg (.begin op)).1 := by
  unfold ScalerSystem.step
  dsimp only
  split
  · next hadmitted =>
    obtain ⟨hended, -⟩ := (Bool.and_eq_true _ _).mp hadmitted
    have hrest := h.operation.atRest hended
    have hentered : (operationRules cfg terms).inv (s.world.enter op) ∧ AtRest (s.world.enter op) ∧
        (s.world.enter op).operating = true := by
      cases op <;> exact ⟨h.operation.inv, hrest, rfl⟩
    refine ⟨⟨hentered.1, ?_⟩, fun _ => hentered.2.2, h.snapshot, h.recovery, fun e he => (h.older e he).swap hentered.1⟩
    exact safe_program (show terms.Stamps (cfg.set s.settings).rfc from hstamps) op hentered.2.1
  · exact h

/-- What a scaler's operation makes of the world in an event, if the event is one of its steps. -/
def ScalerSystem.acting (s : ScalerSystem) : ScalerEvent → Option (ScalerWorld × ScalerWorld)
  | .operation reply => some (s.world, (s.operation.advance s.world reply).1)
  | .older index reply =>
    (s.older[index]?).map fun e => ({ s.world with scaler := e.1 },
      (e.2.advance { s.world with scaler := e.1 } reply).1)
  | _ => none

theorem Underway.advance {operation : ScalerProg Unit} (h : Underway cfg terms operation w) {reply : ScalerReply}
    (hreply : terms.clock reply.now) :
    Conduct w (operation.advance w reply).1 ∧
      Underway cfg terms (operation.advance w reply).2 (operation.advance w reply).1 := by
  obtain ⟨hinv, hconduct, hsafe⟩ := h.safe.advance h.inv hreply (Conduct.refl w)
  exact ⟨hconduct, hinv, hsafe⟩

theorem Sound.operate (h : Sound cfg terms s) {reply : ScalerReply}
    (hreply : terms.clock reply.now) :
    Sound cfg terms (s.step cfg (.operation reply)).1 := by
  obtain ⟨hconduct, hnext⟩ := h.operation.advance hreply
  refine ⟨hnext.moved ⟨rfl, le_refl _⟩ hnext.inv, fun hended => ?_, h.snapshot, h.recovery,
    fun e he => (h.older e he).swap hnext.inv⟩
  show (!(s.operation.advance s.world reply).2.ended) = true
  exact (congrArg (!·) hended)

theorem Sound.operateOlder (h : Sound cfg terms s) (index : Nat) {reply : ScalerReply}
    (hreply : terms.clock reply.now) :
    Sound cfg terms (s.step cfg (.older index reply)).1 := by
  unfold ScalerSystem.step
  dsimp only
  cases hfound : s.older[index]? with
  | none => exact h
  | some e =>
    obtain ⟨hconduct, hnext⟩ := (h.older e (List.mem_of_getElem? hfound)).advance hreply
    obtain ⟨scaler, operation⟩ := e
    have hcurrent := inv_swap hnext.inv h.operation.inv
    refine ⟨h.operation.moved (beside_swap s.world _ s.world.scaler) hcurrent, fun hended => ?_, h.snapshot, h.recovery,
      fun e he => ?_⟩
    · exact hconduct.operating.trans (h.gate hended)
    · rcases List.mem_or_eq_of_mem_set he with he | rfl
      · exact (h.older e he).swap hcurrent
      · exact hnext

theorem Sound.confirm (h : Sound cfg terms s) (containerID : String) (now : Int) :
    Sound cfg terms (s.step cfg (.confirmRunning containerID now)).1 := by
  unfold ScalerSystem.step
  dsimp only
  cases hfound : s.world.scaler.findRunnerByContainer containerID with
  | none =>
    simp only [ScalerWorld.update, hfound]
    exact h
  | some runner =>
    obtain ⟨hbooks, hplain⟩ :=
        updateRunner_plain (f := fun r => { r with containerRunning := true, containerConfirmedAt := now })
      h.operation.inv.1 runner.key fun _ => ⟨rfl, rfl, rfl, rfl⟩
    have hcapacity : (s.world.scaler.updateRunner runner.key fun r =>
        { r with containerRunning := true, containerConfirmedAt := now }).capacityCount =
          s.world.scaler.capacityCount := by
      rw [Scaler.updateRunner_eq, Scaler.capacityCount_eq, Scaler.capacityCount_eq]
      exact sumOf_change runner.key fun _ => rfl
    simp only [ScalerWorld.update, hfound]
    exact h.moved ⟨hplain.fixed, hcapacity.ge⟩ ⟨hbooks, hplain.fixed ▸ h.operation.inv.2⟩ hplain.operating

theorem Sound.step (hstamps : terms.Stamps cfg.rfc) (h : Sound cfg terms s) {event : ScalerEvent}
    (hevent : event.Within terms) :
    Sound cfg terms (s.step cfg event).1 := by
  have hbooks := h.operation.inv.1
  cases event with
  | restart settings => exact h.restart settings
  | attempt maximum loads => exact h.attempt hstamps maximum loads
  | listen =>
    unfold ScalerSystem.step
    dsimp only
    split
    · exact ⟨h.operation, h.gate, nofun, h.recovery, h.older⟩
    · exact h
  | recovery reply => exact h.recover hevent
  | begin op => exact h.begin hstamps op
  | operation reply => exact h.operate hevent
  | older index reply => exact h.operateOlder index hevent
  | announceShutdown =>
    exact h.moved ⟨rfl, le_refl _⟩ ⟨hbooks, h.operation.inv.2.target, h.operation.inv.2.starts⟩ rfl
  | exit containerID =>
    unfold ScalerSystem.step
    dsimp only
    split
    · exact h.outside rfl rfl { hbooks with containers := hbooks.containers.erase containerID }
    · exact h
  | deregister runnerID => exact h.outside rfl rfl hbooks
  | expire key => exact h.outside rfl rfl hbooks
  | confirmRunning containerID now => exact h.confirm containerID now
  | statistics assignedJobs =>
    exact h.moved ⟨rfl, le_refl _⟩ ⟨hbooks, h.operation.inv.2.target, h.operation.inv.2.starts⟩ rfl

theorem sound_init : Sound cfg terms {} := by
  have hbooks : Books.Ok cfg.targetKey terms.stamp ({} : ScalerWorld).books :=
    ⟨Map.All.empty _, Map.All.empty _, Map.All.empty _, Map.All.empty _, Map.All.empty _, Map.All.empty _, nofun, nofun,
      Map.All.empty _, Map.All.empty _⟩
  exact ⟨underway_pure ⟨hbooks, le_max_right _ _, le_max_right _ _⟩ rfl,
    fun hended => absurd hended Bool.true_eq_false.mp, fun _ h => absurd h List.not_mem_nil, growing_pure false,
    fun _ h => absurd h List.not_mem_nil⟩

theorem Sound.exec (hstamps : terms.Stamps cfg.rfc) (h : Sound cfg terms s) {events : List ScalerEvent}
    (hevents : ∀ event ∈ events, event.Within terms) :
    Sound cfg terms (Base.exec (ScalerSystem.step cfg) s events) := by
  induction events generalizing s with
  | nil => exact h
  | cons event events ih =>
    exact ih (h.step hstamps (hevents event List.mem_cons_self)) fun e he => hevents e (List.mem_cons_of_mem _ he)

theorem sound (hstamps : terms.Stamps cfg.rfc) {events : List ScalerEvent}
    (hevents : ∀ event ∈ events, event.Within terms) :
    Sound cfg terms (ScalerSystem.run cfg events) :=
  sound_init.exec hstamps hevents

theorem Sound.conduct (h : Sound cfg terms s) {event : ScalerEvent} (hevent : event.Within terms)
    (hact : s.acting event = some (w, w')) : Conduct w w' := by
  cases event with
  | operation reply =>
    obtain ⟨rfl, rfl⟩ := Prod.mk.inj (Option.some.inj hact)
    exact (h.operation.advance hevent).1
  | older index reply =>
    obtain ⟨e, he, hpair⟩ := Option.map_eq_some_iff.mp hact
    obtain ⟨rfl, rfl⟩ := Prod.mk.inj hpair
    exact ((h.older e (List.mem_of_getElem? he)).advance hevent).1
  | restart | attempt | listen | recovery | begin | announceShutdown | exit | deregister | expire | confirmRunning
  | statistics =>
    nomatch hact

theorem trace_of_newCall {call : Call} (h : w.newCall w' = some call) : w'.trace = call :: w.trace := by
  unfold ScalerWorld.newCall at h
  cases htrace : w'.trace with
  | nil =>
    rw [htrace] at h
    nomatch h
  | cons made calls =>
    rw [htrace] at h
    dsimp only at h
    split at h
    · next hcalls => rw [hcalls, Option.some.inj h]
    · nomatch h

def anyTerms : Terms := ⟨fun _ => True, fun _ => True⟩

theorem anyTerms_stamps (rfc : Rfc3339) : anyTerms.Stamps rfc := fun _ _ _ _ _ => trivial

theorem within_anyTerms (event : ScalerEvent) : event.Within anyTerms := by
  cases event <;> exact trivial

/-- The scalers of a target: the current one, and those that earlier attempts left running. -/
def ScalerSystem.scalers (s : ScalerSystem) : List Scaler := s.world.scaler :: s.older.map (·.1)

/-- Scale-up and scale-down stay within the target. In every state that a run reaches, a call of `reconcileLocked` has
    started no more runners than were missing when it decided, and the target is within the maximum. A tracked runner
    begins to drain only while no other one does; for scale-down, in the loop or in the retry of a fence, only while
    there are more than the target, and it leaves no fewer. GitHub is asked once to remove the runner that drains; for
    scale-down, there are still no fewer then. -/
theorem scaling_within_target (cfg : ScalerConfig) (events : List ScalerEvent) :
    (∀ scaler ∈ (ScalerSystem.run cfg events).scalers,
      (scaler.reconciliation.starts : Int) ≤ max (scaler.reconciliation.targetSlots - scaler.reconciliation.capacity -
          scaler.reconciliation.pendingRegistrations) 0 ∧
        scaler.targetSlots ≤ max scaler.maximum 0) ∧
      ∀ event w w', (ScalerSystem.run cfg events).acting event = some (w, w') →
        (∀ fence, w'.scaler.fencing = some fence → w.scaler.fencing ≠ some fence → Drains fence w w') ∧
        ∀ id answer, w.newCall w' = some (.removeRunner id .fence answer) →
          ∃ fence, w.scaler.fencing = some fence ∧ fence.runnerID = id ∧ w'.scaler.fencing = none ∧
            (fence.purpose = .scaleDown → w.scaler.targetSlots ≤ w.scaler.capacityCount) := by
  have hsound : Sound cfg anyTerms (ScalerSystem.run cfg events) :=
    sound (anyTerms_stamps _) fun event _ => within_anyTerms event
  constructor
  · intro scaler hscaler
    rcases List.mem_cons.mp hscaler with rfl | hscaler
    · exact ⟨hsound.operation.inv.2.starts, hsound.operation.inv.2.target⟩
    · obtain ⟨e, he, rfl⟩ := List.mem_map.mp hscaler
      exact ⟨(hsound.older e he).inv.2.starts, (hsound.older e he).inv.2.target⟩
  · intro event w w' hact
    have hconduct := hsound.conduct (within_anyTerms event) hact
    constructor
    · intro fence hfence hnew
      rcases hconduct.fenced with h | h | ⟨other, h, hdrains⟩
      · exact absurd (h.symm.trans hfence) hnew
      · exact absurd (h.symm.trans hfence) nofun
      · exact Option.some.inj (h.symm.trans hfence) ▸ hdrains
    · exact fun id answer hcall => hconduct.removed id answer (trace_of_newCall hcall)

end Runs

section Sample

/-- A manager starts two workers for two jobs. The first worker is idle when one job is left. -/
def surplusWorker : List ScalerEvent :=
  [.restart {}, .attempt 3 {}, .listen, .begin (.desiredRunnerCount 2)] ++
    List.replicate 38 (.operation { sampleReply with granted := 2 }) ++
    List.replicate 24 (.operation { text := "b", runnerID := 2, runnerName := "pit-repo-b" }) ++
    [.begin (.logSignal "a" .idle), .operation {}, .operation {}, .begin (.desiredRunnerCount 1)]

/-- The idle worker drains, and GitHub is asked to remove it once its fence is saved. -/
theorem scaling_within_target_surplus :
    let drain := ScalerSystem.run sampleScaler (surplusWorker ++ List.replicate 20 (.operation {}))
    let removal := ScalerSystem.run sampleScaler (surplusWorker ++ List.replicate 22 (.operation {}))
    (∃ w w', drain.acting (.operation {}) = some (w, w') ∧ w.scaler.capacityCount = 2 ∧ w'.scaler.capacityCount = 1 ∧
      Drains ⟨.scaleDown, "repo-1", 1⟩ w w') ∧
    ∃ w w', removal.acting (.operation {}) = some (w, w') ∧ w.newCall w' = some (.removeRunner 1 .fence .removed) ∧
      ∃ fence, w.scaler.fencing = some fence ∧ fence.runnerID = 1 ∧ w'.scaler.fencing = none ∧
        (fence.purpose = .scaleDown → w.scaler.targetSlots ≤ w.scaler.capacityCount) := by
  refine ⟨⟨_, _, rfl, by decide +kernel, by decide +kernel, ?_⟩, _, _, rfl, by decide +kernel, ?_⟩
  · have h := (scaling_within_target sampleScaler (surplusWorker ++ List.replicate 20 (.operation {}))).2
      (.operation {})
    exact (h _ _ rfl).1 _ (by decide +kernel) (by decide +kernel)
  · have h := (scaling_within_target sampleScaler (surplusWorker ++ List.replicate 22 (.operation {}))).2
      (.operation {})
    exact (h _ _ rfl).2 _ .removed (by decide +kernel)

end Sample
end PitCrew.Autoscaler
