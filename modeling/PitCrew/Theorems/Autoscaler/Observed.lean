import PitCrew.Autoscaler.Observed
import PitCrew.Theorems.Autoscaler.Retirement

/-! # The slots of the observed state

What the published document shows is told by its slots before they are sorted (`shownSlots`): the counts are
counts of them. A slot for a container that no scaler has adopted carries no registration status, and a slot of
a worker shows the job that the worker's record still holds, whatever state that is in. -/

namespace PitCrew.Autoscaler.Observed
open Base

variable {Job Usage Exit : Type}

section Slots
variable (pkg : Packages) (rfc : Rfc3339) (o : RangeOrder String) (cfg : PublishConfig)

/-! ## What is shown -/

def shownCleanups (snapshot : ScalerSnapshot Job Exit) : List (ObservedSlot Job Usage Exit) :=
  snapshot.pendingCleanups.flatMap fun cleanup =>
    if slotKeyHeldByRunner snapshot cleanup.slotKey then [] else [observedCleanupSlot rfc cleanup snapshot]

def shownRunners (snapshot : ScalerSnapshot Job Exit) : List (ObservedSlot Job Usage Exit) :=
  snapshot.runners.map (observedRunnerSlot pkg rfc · snapshot.retiring cfg.workerImageID)

def shownSnapshot (snapshot : ScalerSnapshot Job Exit) : List (ObservedSlot Job Usage Exit) :=
  shownCleanups rfc snapshot ++ shownRunners pkg rfc cfg snapshot

def shownRecovered (m : PublishingManager Job Exit) (publicationTime : Int) : List (ObservedSlot Job Usage Exit) :=
  (Map.entriesIn o m.recovered).flatMap fun entry => entry.2.map
    (observedRecoveredSlot pkg rfc (decide (entry.1 ∈ desiredTargetKeys pkg cfg m.observedCurrent))
      (m.retirementRecords.lookup entry.1).isSome publicationTime)

def shownSlots (m : PublishingManager Job Exit) (publicationTime : Int) : List (ObservedSlot Job Usage Exit) :=
  (m.snapshots o).flatMap (shownSnapshot pkg rfc cfg) ++ shownRecovered pkg rfc o cfg m publicationTime

def isConnected (slot : ObservedSlot Job Usage Exit) : Bool := slot.registrationStatus = .connected

/-- One state shows some slots more than another, with so many active ones among them. -/
structure Adds (state : ObservedState Job Usage Exit) (added : List (ObservedSlot Job Usage Exit)) (count : Nat)
    (next : ObservedState Job Usage Exit) : Prop where
  slots : next.slots = state.slots ++ added
  active : next.activeSlots = state.activeSlots + count
  eligible : next.eligibleSlots = state.eligibleSlots + added.countP isConnected

theorem Adds.refl (state : ObservedState Job Usage Exit) : Adds state [] 0 state :=
  ⟨(List.append_nil _).symm, (Int.add_zero _).symm, (Int.add_zero _).symm⟩

theorem Adds.trans {state next last : ObservedState Job Usage Exit} {added more : List (ObservedSlot Job Usage Exit)}
    {count also : Nat} (h : Adds state added count next) (h' : Adds next more also last) :
    Adds state (added ++ more) (count + also) last where
  slots := by rw [h'.slots, h.slots, List.append_assoc]
  active := by rw [h'.active, h.active, Nat.cast_add, Int.add_assoc]
  eligible := by rw [h'.eligible, h.eligible, List.countP_append, Nat.cast_add, Int.add_assoc]

theorem Adds.foldl {α : Type} {step : ObservedState Job Usage Exit → α → ObservedState Job Usage Exit}
    {shown : α → List (ObservedSlot Job Usage Exit)} {active : α → Nat}
    (hstep : ∀ state a, Adds state (shown a) (active a) (step state a)) (items : List α)
    (state : ObservedState Job Usage Exit) :
    Adds state (items.flatMap shown) (items.map active).sum (items.foldl step state) := by
  induction items generalizing state with
  | nil => exact Adds.refl state
  | cons a items ih => exact (hstep state a).trans (ih (step state a))

theorem observeCleanup_adds (snapshot : ScalerSnapshot Job Exit) (state : ObservedState Job Usage Exit)
    (cleanup : PendingCleanup Exit) :
    Adds state (if slotKeyHeldByRunner snapshot cleanup.slotKey then []
      else [observedCleanupSlot rfc cleanup snapshot]) 0
      (observeCleanup rfc snapshot state cleanup) := by
  unfold observeCleanup
  split
  · exact Adds.refl state
  · exact ⟨rfl, (Int.add_zero _).symm, (Int.add_zero _).symm⟩

theorem observeRunner_adds (snapshot : ScalerSnapshot Job Exit) (state : ObservedState Job Usage Exit)
    (runner : TrackedRunner Job) :
    Adds state [observedRunnerSlot pkg rfc runner snapshot.retiring cfg.workerImageID] 1
      (observeRunner pkg rfc cfg snapshot state runner) := by
  refine ⟨rfl, rfl, ?_⟩
  rw [List.countP_singleton]
  show (if runnerRegistrationStatus runner = .connected then state.eligibleSlots + 1 else state.eligibleSlots) = _
  unfold isConnected
  show _ = state.eligibleSlots + ((if decide (runnerRegistrationStatus runner = .connected) = true then 1
    else 0 : Nat) : Int)
  by_cases hconnected : runnerRegistrationStatus runner = .connected
  · rw [if_pos hconnected, if_pos (decide_eq_true hconnected), Nat.cast_one]
  · rw [if_neg hconnected, if_neg (fun h => hconnected (of_decide_eq_true h)), Nat.cast_zero, Int.add_zero]

theorem observeSnapshot_adds (build : Build Job Usage Exit) (snapshot : ScalerSnapshot Job Exit) :
    Adds build.state (shownSnapshot pkg rfc cfg snapshot) snapshot.runners.length
      (observeSnapshot pkg rfc cfg build snapshot).state := by
  unfold observeSnapshot
  dsimp only
  generalize hcounted : ({ build.state with autoscaling := _, update := _ } : ObservedState Job Usage Exit) = counted
  have hstart : Adds build.state [] 0 counted := by
    rw [← hcounted]
    exact ⟨(List.append_nil _).symm, (Int.add_zero _).symm, (Int.add_zero _).symm⟩
  have hcleanups := Adds.foldl (observeCleanup_adds rfc snapshot) snapshot.pendingCleanups counted
  have hrunners := Adds.foldl (observeRunner_adds pkg rfc cfg snapshot) snapshot.runners
    (snapshot.pendingCleanups.foldl (observeCleanup rfc snapshot) counted)
  unfold shownSnapshot shownCleanups shownRunners
  rw [List.map_eq_flatMap]
  simpa using hstart.trans (hcleanups.trans hrunners)

theorem observeSnapshots_adds (snapshots : List (ScalerSnapshot Job Exit)) (build : Build Job Usage Exit) :
    Adds build.state (snapshots.flatMap (shownSnapshot pkg rfc cfg)) (snapshots.map (·.runners.length)).sum
      (snapshots.foldl (observeSnapshot pkg rfc cfg) build).state := by
  induction snapshots generalizing build with
  | nil => exact Adds.refl build.state
  | cons snapshot snapshots ih => exact (observeSnapshot_adds pkg rfc cfg build snapshot).trans (ih _)

theorem observeRecovered_adds (desired retiring : Bool) (publicationTime : Int) (state : ObservedState Job Usage Exit)
    (container : RecoveredContainer) :
    Adds state [observedRecoveredSlot pkg rfc desired retiring publicationTime container] 1
      (observeRecovered pkg rfc desired retiring publicationTime state container) :=
  ⟨rfl, rfl, (Int.add_zero _).symm⟩

def unadopted (m : PublishingManager Job Exit) : List RecoveredContainer := (Map.entriesIn o m.recovered).flatMap (·.2)

def tracked (m : PublishingManager Job Exit) : List (TrackedRunner Job) := (m.snapshots o).flatMap (·.runners)

/-! ## The published document -/

def sampled (sample : Map String Usage) (slot : ObservedSlot Job Usage Exit) : ObservedSlot Job Usage Exit :=
  { slot with resources := sample.lookup slot.key }

theorem buildObservedState_shows (instanceID managerStatus : String) (current : Option ParsedDesiredState)
    (desiredStateStatus : String) (snapshots : List (ScalerSnapshot Job Exit)) (lastError : Option String) (now : Int) :
    (buildObservedState pkg rfc cfg instanceID managerStatus current desiredStateStatus snapshots lastError now :
        ObservedState Job Usage Exit).slots.Perm (snapshots.flatMap (shownSnapshot pkg rfc cfg)) ∧
      (buildObservedState pkg rfc cfg instanceID managerStatus current desiredStateStatus snapshots lastError now :
        ObservedState Job Usage Exit).activeSlots = ((snapshots.map (·.runners.length)).sum : Nat) ∧
      (buildObservedState pkg rfc cfg instanceID managerStatus current desiredStateStatus snapshots lastError now :
        ObservedState Job Usage Exit).eligibleSlots =
          ((snapshots.flatMap (shownSnapshot pkg rfc cfg) : List (ObservedSlot Job Usage Exit)).countP
            isConnected : Nat) := by
  have hadds := observeSnapshots_adds pkg rfc cfg snapshots ({
    state := emptyState pkg rfc cfg instanceID managerStatus current desiredStateStatus snapshots.length
      lastError now } :
      Build Job Usage Exit)
  refine ⟨?_, ?_, ?_⟩
  · refine (List.perm_insertionSort _ _).trans (List.Perm.of_eq ?_)
    rw [hadds.slots]
    rfl
  · exact hadds.active.trans (Int.zero_add _)
  · exact hadds.eligible.trans (Int.zero_add _)

theorem publishObserved_shows (m : PublishingManager Job Exit) (sample : Map String Usage) (now : Int) :
    (publishObserved pkg rfc o cfg m sample now).slots.Perm
        ((shownSlots pkg rfc o cfg m (now / second * second)).map (sampled sample)) ∧
      (publishObserved pkg rfc o cfg m sample now).activeSlots = ((tracked o m).length + (unadopted o m).length : Nat) ∧
      (publishObserved pkg rfc o cfg m sample now).eligibleSlots =
        ((shownSlots pkg rfc o cfg m (now / second * second) : List (ObservedSlot Job Usage Exit)).countP
          isConnected : Nat) := by
  obtain ⟨hslots, hactive, heligible⟩ :=
    @buildObservedState_shows Job Usage Exit pkg rfc cfg m.instanceID m.managerStatus
    m.observedCurrent m.desiredStatus (m.snapshots o) m.lastError (now / second * second)
  unfold publishObserved
  dsimp only
  generalize buildObservedState pkg rfc cfg m.instanceID m.managerStatus m.observedCurrent m.desiredStatus
    (m.snapshots o)
    m.lastError (now / second * second) = built at hslots hactive heligible
  generalize hcounted : ({ built with autoscaling := _ } : ObservedState Job Usage Exit) = counted
  have hstart : Adds built [] 0 counted := by
    rw [← hcounted]
    exact ⟨(List.append_nil _).symm, (Int.add_zero _).symm, (Int.add_zero _).symm⟩
  have hrecovered : ∀ (state : ObservedState Job Usage Exit) (entry : String × List RecoveredContainer),
      Adds state (entry.2.map (observedRecoveredSlot pkg rfc
        (decide (entry.1 ∈ desiredTargetKeys pkg cfg m.observedCurrent))
        (m.retirementRecords.lookup entry.1).isSome (now / second * second))) entry.2.length
        (entry.2.foldl (observeRecovered pkg rfc (decide (entry.1 ∈ desiredTargetKeys pkg cfg m.observedCurrent))
          (m.retirementRecords.lookup entry.1).isSome (now / second * second)) state) := by
    intro state entry
    have hentry := Adds.foldl (observeRecovered_adds pkg rfc
      (decide (entry.1 ∈ desiredTargetKeys pkg cfg m.observedCurrent))
      (m.retirementRecords.lookup entry.1).isSome (now / second * second)) entry.2 state
    rw [List.map_eq_flatMap]
    simpa using hentry
  have hall := hstart.trans (Adds.foldl hrecovered (Map.entriesIn o m.recovered) counted)
  refine ⟨?_, ?_, ?_⟩
  · refine (List.perm_insertionSort _ _).trans (List.Perm.map (sampled sample) ?_)
    rw [hall.slots, List.nil_append]
    exact hslots.append_right _
  · refine hall.active.trans ?_
    rw [hactive, tracked, unadopted, List.length_flatMap, List.length_flatMap, Nat.zero_add, Nat.cast_add]
  · refine hall.eligible.trans ?_
    rw [heligible, List.nil_append, shownSlots, shownRecovered, List.countP_append, Nat.cast_add]

end Slots

/-! ## The contract -/

def registrationStatuses : List String := ["connected", "disconnected", "registration-missing", "unknown"]

/-- What the contract says about the slots of the document of a manager. -/
structure SlotContract (o : RangeOrder String) (m : PublishingManager Job Exit) (state : ObservedState Job Usage Exit) :
    Prop where
  statuses : ∀ slot ∈ state.slots, slot.registrationStatus.text ∈ registrationStatuses
  eligible : state.eligibleSlots = (state.slots.countP isConnected : Nat)
  active : state.activeSlots = ((tracked o m).length + (unadopted o m).length : Nat)
  jobs : ∀ slot ∈ state.slots, slot.currentJob.isSome → slot.processRunning = true ∧ slot.runnerNameHash.isSome ∧
    (slot.activity = .busy ∨ slot.activity = .draining)

/-- A worker that can be shown with a job: it runs under a name, is past its recovery and is busy or draining. -/
structure ShowsJob (runner : TrackedRunner Job) : Prop where
  running : runner.containerRunning = true
  named : runner.runnerName ≠ ""
  settled : ¬ (runner.recovered = true ∧ runner.isProtected = true)
  working : runner.state = .busy ∨ isDraining runner.state = true

section Contract
variable {pkg : Packages} {rfc : Rfc3339} {o : RangeOrder String} {cfg : PublishConfig}

theorem text_mem_registrationStatuses {status : RegistrationStatus} :
    status.text ∈ registrationStatuses ↔ status ≠ .unset := by
  cases status <;> decide

theorem runnerRegistrationStatus_ne_unset (runner : TrackedRunner Job) : runnerRegistrationStatus runner ≠ .unset := by
  unfold runnerRegistrationStatus
  split
  · exact fun h => nomatch h
  · split <;> exact fun h => nomatch h

theorem hashRunnerName_isSome {runnerName : String} : (hashRunnerName pkg runnerName).isSome ↔ runnerName ≠ "" := by
  unfold hashRunnerName nonempty
  split
  next h => simp [h]
  next h => simp [h]

theorem runnerActivity_working {runner : TrackedRunner Job} :
    (runnerActivity runner = .busy ∨ runnerActivity runner = .draining) ↔
      ¬ (runner.recovered = true ∧ runner.isProtected = true) ∧
        (runner.state = .busy ∨ isDraining runner.state = true) := by
  unfold runnerActivity
  split
  next h => simp [h]
  next h =>
    cases hstate : runner.state <;> simp [h, isDraining, stateActivity]

/-- The slot of a worker meets the contract's clause on jobs if the worker can be shown with its job. -/
theorem runnerSlot_job {runner : TrackedRunner Job} {retiring : Bool} {imageID : String} :
    ((observedRunnerSlot pkg rfc runner retiring imageID : ObservedSlot Job Usage Exit).processRunning = true ∧
      (observedRunnerSlot pkg rfc runner retiring imageID : ObservedSlot Job Usage Exit).runnerNameHash.isSome ∧
      ((observedRunnerSlot pkg rfc runner retiring imageID : ObservedSlot Job Usage Exit).activity = .busy ∨
        (observedRunnerSlot pkg rfc runner retiring imageID : ObservedSlot Job Usage Exit).activity = .draining)) ↔
      ShowsJob runner := by
  constructor
  · rintro ⟨hrunning, hhash, hactivity⟩
    obtain ⟨hsettled, hworking⟩ := runnerActivity_working.mp hactivity
    exact ⟨hrunning, hashRunnerName_isSome.mp hhash, hsettled, hworking⟩
  · rintro ⟨hrunning, hnamed, hsettled, hworking⟩
    exact ⟨hrunning, hashRunnerName_isSome.mpr hnamed, runnerActivity_working.mpr ⟨hsettled, hworking⟩⟩

theorem mem_shownSlots {m : PublishingManager Job Exit} {publicationTime : Int} {slot : ObservedSlot Job Usage Exit} :
    slot ∈ shownSlots pkg rfc o cfg m publicationTime ↔
      (∃ snapshot ∈ m.snapshots o, slot ∈ shownCleanups rfc snapshot) ∨
      (∃ snapshot ∈ m.snapshots o, ∃ runner ∈ snapshot.runners,
        slot = observedRunnerSlot pkg rfc runner snapshot.retiring cfg.workerImageID) ∨
      slot ∈ shownRecovered pkg rfc o cfg m publicationTime := by
  unfold shownSlots shownSnapshot shownRunners
  simp only [List.mem_append, List.mem_flatMap, List.mem_map, eq_comm (a := slot)]
  constructor
  · rintro (⟨snapshot, hsnapshot, hcleanup | hrunner⟩ | hrecovered)
    · exact Or.inl ⟨snapshot, hsnapshot, hcleanup⟩
    · exact Or.inr (Or.inl ⟨snapshot, hsnapshot, hrunner⟩)
    · exact Or.inr (Or.inr hrecovered)
  · rintro (⟨snapshot, hsnapshot, hcleanup⟩ | ⟨snapshot, hsnapshot, hrunner⟩ | hrecovered)
    · exact Or.inl ⟨snapshot, hsnapshot, Or.inl hcleanup⟩
    · exact Or.inl ⟨snapshot, hsnapshot, Or.inr hrunner⟩
    · exact Or.inr hrecovered

theorem shownCleanup {snapshot : ScalerSnapshot Job Exit} {slot : ObservedSlot Job Usage Exit}
    (h : slot ∈ shownCleanups rfc snapshot) : slot.registrationStatus = .unknown ∧ slot.currentJob = none := by
  obtain ⟨cleanup, -, hslot⟩ := List.mem_flatMap.mp h
  split at hslot
  · exact absurd hslot List.not_mem_nil
  · rw [List.mem_singleton.mp hslot]
    exact ⟨rfl, rfl⟩

theorem shownRecovered_unset {m : PublishingManager Job Exit} {publicationTime : Int}
    {slot : ObservedSlot Job Usage Exit}
    (h : slot ∈ shownRecovered pkg rfc o cfg m publicationTime) :
    slot.registrationStatus = .unset ∧ slot.currentJob = none := by
  obtain ⟨entry, -, hslot⟩ := List.mem_flatMap.mp h
  obtain ⟨container, -, rfl⟩ := List.mem_map.mp hslot
  exact ⟨rfl, rfl⟩

theorem shownRecovered_eq_nil {m : PublishingManager Job Exit} {publicationTime : Int} :
    (shownRecovered pkg rfc o cfg m publicationTime : List (ObservedSlot Job Usage Exit)) = [] ↔
      unadopted o m = [] := by
  unfold shownRecovered unadopted
  rw [List.flatMap_eq_nil_iff, List.flatMap_eq_nil_iff]
  simp only [List.map_eq_nil_iff]

end Contract

/-- For every manager, sample and time: the document meets the contract if and only if every recovered container
    has been adopted and every worker that still has a job can be shown with it. -/
theorem slotContract_iff (pkg : Packages) (rfc : Rfc3339) (o : RangeOrder String) (cfg : PublishConfig)
    (m : PublishingManager Job Exit) (sample : Map String Usage) (now : Int) :
    SlotContract o m (publishObserved pkg rfc o cfg m sample now) ↔
      unadopted o m = [] ∧ ∀ runner ∈ tracked o m, runner.currentJob.isSome → ShowsJob runner := by
  obtain ⟨hslots, hactive, heligible⟩ := publishObserved_shows pkg rfc o cfg m sample now
  generalize publishObserved pkg rfc o cfg m sample now = state at hslots hactive heligible
  -- the sample leaves what the contract reads
  have hmem : ∀ {P : ObservedSlot Job Usage Exit → Prop}, (∀ slot, P (sampled sample slot) ↔ P slot) →
      ((∀ slot ∈ state.slots, P slot) ↔ ∀ slot ∈ shownSlots pkg rfc o cfg m (now / second * second), P slot) := by
    intro P hP
    constructor
    · intro h slot hslot
      exact (hP slot).mp (h _ (hslots.mem_iff.mpr (List.mem_map_of_mem hslot)))
    · intro h slot hslot
      obtain ⟨shown, hshown, rfl⟩ := List.mem_map.mp (hslots.mem_iff.mp hslot)
      exact (hP shown).mpr (h shown hshown)
  have hcount : state.slots.countP isConnected =
      (shownSlots pkg rfc o cfg m (now / second * second) : List (ObservedSlot Job Usage Exit)).countP isConnected := by
    rw [hslots.countP_eq, List.countP_map]
    rfl
  have hempty : (shownRecovered pkg rfc o cfg m (now / second * second) : List (ObservedSlot Job Usage Exit)) = [] ↔
      unadopted o m = [] := shownRecovered_eq_nil
  constructor
  · intro h
    refine ⟨?_, fun runner hrunner hjob => ?_⟩
    · refine hempty.mp (List.eq_nil_iff_forall_not_mem.mpr fun slot hslot => ?_)
      have hstatus := (hmem fun _ => Iff.rfl).mp h.statuses slot (mem_shownSlots.mpr (Or.inr (Or.inr hslot)))
      exact text_mem_registrationStatuses.mp hstatus (shownRecovered_unset hslot).1
    · obtain ⟨snapshot, hsnapshot, hrunner⟩ := List.mem_flatMap.mp hrunner
      have hjobs := (hmem fun _ => Iff.rfl).mp h.jobs _
        (mem_shownSlots.mpr (Or.inr (Or.inl ⟨snapshot, hsnapshot, runner, hrunner, rfl⟩)))
      exact runnerSlot_job.mp (hjobs hjob)
  · rintro ⟨hadopted, hjobs⟩
    have hnone := hempty.mpr hadopted
    refine ⟨(hmem fun _ => Iff.rfl).mpr ?_, heligible.trans (by rw [hcount]), hactive, (hmem fun _ => Iff.rfl).mpr ?_⟩
    · intro slot hslot
      rw [text_mem_registrationStatuses]
      rcases mem_shownSlots.mp hslot with ⟨snapshot, -, hcleanup⟩ | ⟨snapshot, -, runner, -, rfl⟩ | hrecovered
      · rw [(shownCleanup hcleanup).1]
        exact fun h => nomatch h
      · exact runnerRegistrationStatus_ne_unset runner
      · rw [hnone] at hrecovered
        exact absurd hrecovered List.not_mem_nil
    · intro slot hslot hjob
      rcases mem_shownSlots.mp hslot with
        ⟨snapshot, -, hcleanup⟩ | ⟨snapshot, hsnapshot, runner, hrunner, rfl⟩ | hrecovered
      · rw [(shownCleanup hcleanup).2] at hjob
        exact absurd hjob Bool.false_ne_true
      · exact runnerSlot_job.mpr (hjobs runner (List.mem_flatMap.mpr ⟨snapshot, hsnapshot, hrunner⟩) hjob)
      · rw [hnone] at hrecovered
        exact absurd hrecovered List.not_mem_nil

def restartedManager : PublishingManager Nat Nat where
  instanceID := "first"
  managerStatus := "running"
  desiredStatus := "accepted"
  controllers := ∅
  retiring := ∅
  pending := ∅
  retirementRecords := ∅
  recovered := (∅ : Map String (List RecoveredContainer)).insert "widget"
    [{ containerID := "container", runnerName := "pit-widget-1", targetKey := "widget", slotKey := "widget-000001" }]

/-- The slot of the container has an empty registration status. -/
theorem recovered_container_breaks_contract :
    (publishObserved samplePackages utcTime RangeOrder.sorted { sampleConfig with } restartedManager
        (∅ : Map String Nat) 0).slots.map (·.registrationStatus.text) = [""] ∧
      ¬ SlotContract RangeOrder.sorted restartedManager
        (publishObserved samplePackages utcTime RangeOrder.sorted { sampleConfig with } restartedManager
          (∅ : Map String Nat) 0) := by
  have hstatuses : (publishObserved samplePackages utcTime RangeOrder.sorted { sampleConfig with } restartedManager
      (∅ : Map String Nat) 0).slots.map (·.registrationStatus.text) = [""] := by decide +kernel
  refine ⟨hstatuses, fun h => ?_⟩
  have hempty : "" ∈ (publishObserved samplePackages utcTime RangeOrder.sorted { sampleConfig with } restartedManager
      (∅ : Map String Nat) 0).slots.map (·.registrationStatus.text) := by
    rw [hstatuses]
    exact List.mem_singleton.mpr rfl
  obtain ⟨slot, hslot, hstatus⟩ := List.mem_map.mp hempty
  have hallowed := h.statuses slot hslot
  rw [hstatus] at hallowed
  exact absurd hallowed (by decide)

end PitCrew.Autoscaler.Observed
