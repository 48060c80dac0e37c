import PitCrew.Autoscaler.Recovery
import PitCrew.Theorems.Autoscaler.Backoff

/-! # What the programs of a runner scaler keep

Every record that a scaler tracks or keeps in a ledger names its target, its slot, its registration and its
container, and carries times that can be read (`Books.Ok`). A step of a program leaves alone what only a few of
them change (`Plain`): target and maximum, the call of `reconcileLocked` under way and the fence under way. Here
are the programs of which every step is plain; those that start, fence or retarget are put together from them in
later files. -/

namespace PitCrew.Autoscaler
open Base Prog

/-! ## Delays -/

theorem registrationOperationRetryDelay_mem (attempts : Int) :
    0 ≤ registrationOperationRetryDelay attempts ∧
      registrationOperationRetryDelay attempts ≤ registrationOperationRetryMaximum := by
  unfold registrationOperationRetryDelay
  rcases lt_or_ge 0 attempts with h | h
  · have hmem := boundedExponentialBackoff_mem (show 0 < registrationOperationRetryBase by decide)
      (show registrationOperationRetryBase ≤ registrationOperationRetryMaximum by decide) (by decide) h
    exact ⟨hmem.1.trans' (by decide), hmem.2⟩
  · have hnone :
      boundedExponentialBackoff registrationOperationRetryBase registrationOperationRetryMaximum attempts = 0 := by
      unfold boundedExponentialBackoff
      rw [if_pos (Or.inr h)]
    rw [hnone]
    exact ⟨le_refl _, by decide⟩

/-! ## Books -/

/-- What a run may count on: what its clock reads, and which texts of times are good. -/
structure Terms where
  clock : Int → Prop
  stamp : String → Prop

/-- The times that a scaler writes at a reading of the clock are good. -/
def Terms.Stamps (terms : Terms) (rfc : Rfc3339) : Prop :=
  ∀ now, terms.clock now → ∀ delay, 0 ≤ delay → delay ≤ registrationOperationRetryMaximum →
    terms.stamp (rfc.format (now + delay))

structure Identified (slotKey runnerName : String) (runnerID : Int) (containerID : String) : Prop where
  slotKey : slotKey ≠ ""
  runnerName : runnerName ≠ ""
  runnerID : 1 ≤ runnerID
  containerID : containerID ≠ ""

def Counted (least attempts : Int) : Prop := least ≤ attempts ∧ attempts ≤ maxRegistrationCleanupAttempts

/-- All that a target's scaler tracks or keeps in its ledgers. -/
structure Books where
  containers : Map String Container
  runners : Map String RunnerRecord
  cleanups : Map String RegistrationCleanupRecord
  cleanupFile : Map String RegistrationCleanupRecord
  fences : Map String RegistrationFenceRecord
  fenceFile : Map String RegistrationFenceRecord
  intent : Option LaunchIntentRecord
  intentFile : Option LaunchIntentRecord
  releases : Map String HostLeaseCleanupRecord
  releaseFile : Map String HostLeaseCleanupRecord

def ScalerWorld.books (w : ScalerWorld) : Books where
  containers := w.containers
  runners := w.scaler.runners
  cleanups := w.scaler.pendingRegistrations
  cleanupFile := w.cleanupFile
  fences := w.scaler.pendingFences
  fenceFile := w.fenceFile
  intent := w.scaler.pendingLaunchIntent
  intentFile := w.intentFile
  releases := w.scaler.pendingHostLeaseReleases
  releaseFile := w.releaseFile

section Records
variable (target : String) (stamp : String → Prop)

structure CleanupOk (k : String) (r : RegistrationCleanupRecord) : Prop where
  slotKey : r.slotKey = k
  targetKey : r.targetKey = target
  identified : Identified k r.runnerName r.runnerID r.containerID
  attempts : Counted 1 r.attempts
  firstFailedAt : stamp r.firstFailedAt
  lastAttemptAt : stamp r.lastAttemptAt
  nextAttemptAt : stamp r.nextAttemptAt

structure FenceOk (k : String) (r : RegistrationFenceRecord) : Prop where
  slotKey : r.slotKey = k
  targetKey : r.targetKey = target
  identified : Identified k r.runnerName r.runnerID r.containerID
  attempts : Counted 1 r.attempts
  firstFailedAt : stamp r.firstFailedAt
  lastAttemptAt : stamp r.lastAttemptAt
  nextAttemptAt : stamp r.nextAttemptAt

structure IntentOk (r : LaunchIntentRecord) : Prop where
  targetKey : r.targetKey = target
  runnerName : r.runnerName ≠ ""
  runnerID : 0 ≤ r.runnerID
  attempts : Counted 1 r.attempts
  lastAttemptAt : stamp r.lastAttemptAt
  nextAttemptAt : stamp r.nextAttemptAt

structure ReleaseOk (k : String) (r : HostLeaseCleanupRecord) : Prop where
  hostSlotKey : r.hostSlotKey = k
  targetKey : r.targetKey = target
  named : k ≠ ""
  runnerKey : r.runnerKey ≠ ""

structure RunnerOk (k : String) (r : RunnerRecord) : Prop where
  key : r.key = k
  identified : Identified k r.runnerName r.runnerID r.containerID

def ContainerOk (k : String) (c : Container) : Prop := Identified c.slotKey c.runnerName c.runnerID k

structure Books.Ok (b : Books) : Prop where
  containers : b.containers.All ContainerOk
  runners : b.runners.All RunnerOk
  cleanups : b.cleanups.All (CleanupOk target stamp)
  cleanupFile : b.cleanupFile.All (CleanupOk target stamp)
  fences : b.fences.All (FenceOk target stamp)
  fenceFile : b.fenceFile.All (FenceOk target stamp)
  intent : ∀ r, b.intent = some r → IntentOk target stamp r
  intentFile : ∀ r, b.intentFile = some r → IntentOk target stamp r
  releases : b.releases.All (ReleaseOk target)
  releaseFile : b.releaseFile.All (ReleaseOk target)

end Records

theorem counted_one : Counted 1 1 := ⟨le_refl 1, by decide⟩

theorem counted_countAttempt {attempts : Int} (h : Counted 1 attempts) : Counted 1 (countAttempt attempts) := by
  obtain ⟨hleast, hmost⟩ := h
  unfold countAttempt
  split
  · exact ⟨by omega, by omega⟩
  · exact ⟨hleast, hmost⟩

/-! ## Capacity -/

def RunnerRecord.weight (r : RunnerRecord) : Int := if r.state ≠ .cleanupPending && r.state ≠ .draining then 1 else 0

theorem RunnerRecord.weight_nonneg (r : RunnerRecord) : 0 ≤ r.weight := by
  unfold RunnerRecord.weight
  split <;> decide

theorem RunnerRecord.weight_le (r : RunnerRecord) : r.weight ≤ 1 := by
  unfold RunnerRecord.weight
  split <;> decide

theorem RunnerRecord.weight_drain (r : RunnerRecord) : r.drain.weight = 0 := rfl

theorem Scaler.capacityCount_eq (s : Scaler) : s.capacityCount = s.runners.sumOf (·.weight) := by
  have hcount : ∀ l : List RunnerRecord,
      ((l.filter fun r => r.state ≠ .cleanupPending && r.state ≠ .draining).length : Int) = (l.map (·.weight)).sum := by
    intro l
    induction l with
    | nil => rfl
    | cons r l ih =>
      rw [List.map_cons, List.sum_cons, ← ih, List.filter_cons, RunnerRecord.weight]
      split
      · rw [List.length_cons]
        push_cast
        ring
      · ring
  unfold Scaler.capacityCount Scaler.records
  rw [hcount, List.map_map, ← Map.sum_entriesIn .sorted]
  rfl

theorem sumOf_change {m : Map String RunnerRecord} (key : String) {f : RunnerRecord → RunnerRecord}
    (hf : ∀ r, (f r).weight = r.weight) : (m.change key f).sumOf (·.weight) = m.sumOf (·.weight) := by
  unfold Map.change
  cases h : m.lookup key with
  | none => rfl
  | some r =>
    dsimp only
    rw [Map.sumOf_replace h, hf]
    omega

/-! ## Plain steps -/

/-- What only a few programs change. -/
structure Fixed where
  maximum : Int
  targetSlots : Int
  reconciliation : Reconciliation
  fencing : Option Fence

def Scaler.fixed (s : Scaler) : Fixed where
  maximum := s.maximum
  targetSlots := s.targetSlots
  reconciliation := s.reconciliation
  fencing := s.fencing

/-- A call to remove a registration that a fence is for. -/
def Call.fences : Call → Bool
  | .removeRunner _ .fence _ => true
  | _ => false

def Unfenced (w w' : ScalerWorld) :
    Prop := w'.trace = w.trace ∨ ∃ call : Call, call.fences = false ∧ w'.trace = call :: w.trace

structure Plain (w w' : ScalerWorld) : Prop where
  fixed : w'.scaler.fixed = w.scaler.fixed
  operating : w'.operating = w.operating
  unfenced : Unfenced w w'

/-- A plain step that leaves the capacity alone. -/
structure Calm (w w' : ScalerWorld) : Prop extends Plain w w' where
  capacity : w'.scaler.capacityCount = w.scaler.capacityCount

section Steps
variable {w w' : ScalerWorld}

theorem Calm.beside (hfixed : w'.scaler.fixed = w.scaler.fixed) (hrunners : w'.scaler.runners = w.scaler.runners)
    (hoperating : w'.operating = w.operating) (hcalls : Unfenced w w') : Calm w w' where
  fixed := hfixed
  operating := hoperating
  unfenced := hcalls
  capacity := by rw [Scaler.capacityCount_eq, Scaler.capacityCount_eq, hrunners]

theorem Calm.outside (hscaler : w'.scaler = w.scaler) (hoperating : w'.operating = w.operating)
    (hcalls : Unfenced w w') :
    Calm w w' :=
  .beside (by rw [hscaler]) (by rw [hscaler]) hoperating hcalls

end Steps

/-! ## Changes of a runner -/

structure SameRunner (r r' : RunnerRecord) : Prop where
  key : r'.key = r.key
  runnerName : r'.runnerName = r.runnerName
  runnerID : r'.runnerID = r.runnerID
  containerID : r'.containerID = r.containerID

theorem RunnerOk.same {k : String} {r r' : RunnerRecord} (h : RunnerOk k r) (hsame : SameRunner r r') :
    RunnerOk k r' where
  key := hsame.key.trans h.key
  identified := by
    rw [hsame.runnerName, hsame.runnerID, hsame.containerID]
    exact h.identified

theorem Scaler.updateRunner_eq (s : Scaler) (key : String) (f : RunnerRecord → RunnerRecord) :
    s.updateRunner key f = { s with runners := s.runners.change key f } := by
  unfold Scaler.updateRunner Map.change
  cases s.runners.lookup key with
  | none => rfl
  | some r => rfl

/-! ## Plain programs -/

section Rules
variable (cfg : ScalerConfig) (terms : Terms)

/-- The rules of steps along `guar` that count on nothing but the books. -/
def stepRules (guar : ScalerWorld → ScalerWorld → Prop) : Rules ScalerWorld ScalerReply where
  inv w := w.books.Ok cfg.targetKey terms.stamp
  rely _ _ := True
  guar := guar
  may _ c := terms.clock c.now
  refl _ := trivial
  trans _ _ := trivial

/-- Every step of the program is plain and keeps the books, and its answer is as in `Q`. -/
abbrev Plainly {α : Type} (Q : α → Prop) (p : ScalerProg α) : Prop := p.Keeps (stepRules cfg terms Plain) Q

/-- Every step of the program is calm and keeps the books, and its answer is as in `Q`. -/
abbrev Calmly {α : Type} (Q : α → Prop) (p : ScalerProg α) : Prop := p.Keeps (stepRules cfg terms Calm) Q

variable {cfg terms}

theorem Calmly.plainly {α : Type} {Q : α → Prop} {p : ScalerProg α} (h : Calmly cfg terms Q p) :
    Plainly cfg terms Q p :=
  fun w => (h w).weaken (fun _ => Iff.rfl) id (·.toPlain) id

end Rules

section Programs
variable {cfg : ScalerConfig} {terms : Terms} {α : Type} {Q : α → Prop}

theorem calmly_gets (f : Scaler → α) (h : ∀ w : ScalerWorld, w.books.Ok cfg.targetKey terms.stamp → Q (f w.scaler)) :
    Calmly cfg terms Q (ScalerProg.gets f) :=
  Keeps.atomic fun w _ hw _ => ⟨hw, .outside rfl rfl (Or.inl rfl), h w hw⟩

theorem calmly_reads (f : Scaler → α) : Calmly cfg terms (fun _ => True) (ScalerProg.gets f) :=
  calmly_gets f fun _ _ => trivial

theorem calmly_now : Calmly cfg terms terms.clock ScalerProg.now :=
  Keeps.atomic fun _ _ hw hc => ⟨hw, .outside rfl rfl (Or.inl rfl), hc⟩

theorem calmly_pure (a : α) : Calmly cfg terms (fun _ => True) (pure a) := Keeps.pure trivial

theorem calmly_modify {f : Scaler → Scaler}
    (h : ∀ w : ScalerWorld, w.books.Ok cfg.targetKey terms.stamp →
      (w.update f).books.Ok cfg.targetKey terms.stamp ∧ Calm w (w.update f)) :
    Calmly cfg terms (fun _ => True) (ScalerProg.modify f) :=
  Keeps.atomic fun w _ hw _ => ⟨(h w hw).1, (h w hw).2, trivial⟩

theorem calmly_note {f : Scaler → Scaler}
    (hbooks : ∀ w : ScalerWorld, (w.update f).books = w.books)
    (hplain : ∀ w : ScalerWorld, Calm w (w.update f)) :
    Calmly cfg terms (fun _ => True) (ScalerProg.modify f) :=
  calmly_modify fun w hw => ⟨hbooks w ▸ hw, hplain w⟩

/-! ### Ledger files -/

theorem calmly_saveFile {write : ScalerWorld → ScalerWorld}
    (hbooks : ∀ w : ScalerWorld, w.books.Ok cfg.targetKey terms.stamp → (write w).books.Ok cfg.targetKey terms.stamp)
    (hscaler : ∀ w, (write w).scaler = w.scaler) (hoperating : ∀ w, (write w).operating = w.operating)
    (htrace : ∀ w, (write w).trace = w.trace) : Calmly cfg terms (fun _ => True) (saveFile write) := by
  refine Keeps.atomic fun w c hw _ => ?_
  cases c.outcome with
  | done | unsure => exact ⟨hbooks w hw, .outside (hscaler w) (hoperating w) (Or.inl (htrace w)), trivial⟩
  | failed => exact ⟨hw, .outside rfl rfl (Or.inl rfl), trivial⟩

theorem calmly_writeIntent {next : Option LaunchIntentRecord}
    (h : ∀ r, next = some r → IntentOk cfg.targetKey terms.stamp r) :
    Calmly cfg terms (fun _ => True) (do
      if ← saveFile fun w => { w with intentFile := next } then
        ScalerProg.modify fun s => { s with pendingLaunchIntent := next, launchIntentStateError := false }
        return true
      else
        ScalerProg.modify fun s => { s with launchIntentStateError := true }
        return false) := by
  have hsave : Calmly cfg terms (fun _ => True) (saveFile fun w => { w with intentFile := next }) :=
    calmly_saveFile (fun _ hw => { hw with intentFile := h }) (fun _ => rfl) (fun _ => rfl) fun _ => rfl
  have hsaved : Calmly cfg terms (fun _ => True)
      (ScalerProg.modify fun s => { s with pendingLaunchIntent := next, launchIntentStateError := false }) :=
    calmly_modify fun w hw => ⟨{ hw with intent := h }, .beside rfl rfl rfl (Or.inl rfl)⟩
  have hdoubt :
      Calmly cfg terms (fun _ => True) (ScalerProg.modify fun s => { s with launchIntentStateError := true }) :=
    calmly_note (fun _ => rfl) fun _ => .beside rfl rfl rfl (Or.inl rfl)
  exact Keeps.cond hsave (hsaved.seq fun _ => calmly_pure true) (hdoubt.seq fun _ => calmly_pure false)

theorem calmly_saveLaunchIntent {record : LaunchIntentRecord} (h : IntentOk cfg.targetKey terms.stamp record) :
    Calmly cfg terms (fun _ => True) (saveLaunchIntent record) :=
  calmly_writeIntent fun _ hr => Option.some.inj hr ▸ h

theorem calmly_clearLaunchIntent : Calmly cfg terms (fun _ => True) clearLaunchIntent := calmly_writeIntent nofun

/-! ### GitHub -/

theorem calmly_findRunnerByName (name : String) : Calmly cfg terms (fun _ => True) (findRunnerByName name) :=
  Keeps.atomic fun _ _ hw _ => ⟨hw, .outside rfl rfl (Or.inl rfl), trivial⟩

theorem calmly_removeRunner (id : Int) (cause : RemovalCause) (hcause : cause ≠ .fence) :
    Calmly cfg terms (fun _ => True) (removeRunner id cause) := by
  have hcall : ∀ answer, (Call.removeRunner id cause answer).fences = false := by
    intro answer
    cases cause with
    | fence => exact absurd rfl hcause
    | shutdown | cleanup | retry | intent | launch => rfl
  refine Keeps.atomic fun w c hw _ => ?_
  simp only [if_neg hcause]
  cases c.outcome with
  | done =>
    dsimp only
    split_ifs
    · exact ⟨hw, .outside rfl rfl (Or.inr ⟨_, hcall _, rfl⟩), trivial⟩
    · exact ⟨hw, .outside rfl rfl (Or.inr ⟨_, hcall _, rfl⟩), trivial⟩
  | failed => exact ⟨hw, .outside rfl rfl (Or.inr ⟨_, hcall _, rfl⟩), trivial⟩
  | unsure => exact ⟨hw, .outside rfl rfl (Or.inr ⟨_, hcall _, rfl⟩), trivial⟩

/-! ### Docker -/

theorem calmly_launchContainer {container : Container}
    (h : container.slotKey ≠ "" ∧ container.runnerName ≠ "" ∧ 1 ≤ container.runnerID) :
    Calmly cfg terms (fun x => ∀ id, x = some id → id ≠ "") (launchContainer container) := by
  refine Keeps.atomic fun w c hw _ => ?_
  split
  · exact ⟨hw, .outside rfl rfl (Or.inl rfl), nofun⟩
  · next htext =>
    have hmade := hw.containers.insert (show ContainerOk c.text container from ⟨h.1, h.2.1, h.2.2, htext⟩)
    cases c.outcome with
    | done =>
      exact ⟨{ hw with containers := hmade }, .outside rfl rfl (Or.inl rfl), fun _ h => Option.some.inj h ▸ htext⟩
    | failed => exact ⟨hw, .outside rfl rfl (Or.inl rfl), nofun⟩
    | unsure => exact ⟨{ hw with containers := hmade }, .outside rfl rfl (Or.inl rfl), nofun⟩

theorem calmly_startContainer (id : String) : Calmly cfg terms (fun _ => True) (startContainer id) := by
  refine Keeps.atomic fun w c hw _ => ?_
  cases hcontainer : w.containers.lookup id with
  | none => exact ⟨hw, .outside rfl rfl (Or.inr ⟨_, rfl, rfl⟩), trivial⟩
  | some container =>
    have hstarted := hw.containers.insert (show ContainerOk id
        { container with running := true } from hw.containers id container hcontainer)
    cases c.outcome with
    | done => exact ⟨{ hw with containers := hstarted }, .outside rfl rfl (Or.inr ⟨.start id true, rfl, rfl⟩), trivial⟩
    | failed => exact ⟨hw, .outside rfl rfl (Or.inr ⟨.start id false, rfl, rfl⟩), trivial⟩
    | unsure =>
      exact ⟨{ hw with containers := hstarted }, .outside rfl rfl (Or.inr ⟨.start id false, rfl, rfl⟩), trivial⟩

theorem calmly_stopAndRemove (id : String) (abandoned : Bool) :
    Calmly cfg terms (fun _ => True) (stopAndRemove id abandoned) := by
  refine Keeps.atomic fun w c hw _ => ?_
  have hgone := hw.containers.erase id
  cases c.outcome with
  | done =>
    exact ⟨{ hw with containers := hgone }, .outside rfl rfl
      (Or.inr ⟨.stopAndRemove id abandoned true, rfl, rfl⟩), trivial⟩
  | failed => exact ⟨hw, .outside rfl rfl (Or.inr ⟨.stopAndRemove id abandoned false, rfl, rfl⟩), trivial⟩
  | unsure =>
    exact ⟨{ hw with containers := hgone }, .outside rfl rfl
      (Or.inr ⟨.stopAndRemove id abandoned false, rfl, rfl⟩), trivial⟩

theorem calmly_stopContainer (id : String) : Calmly cfg terms (fun _ => True) (stopContainer id) := by
  refine Keeps.atomic fun w c hw _ => ?_
  have hgone := hw.containers.erase id
  cases w.containers.lookup id with
  | none => exact ⟨hw, .outside rfl rfl (Or.inl rfl), trivial⟩
  | some container =>
    cases c.outcome with
    | done => exact ⟨{ hw with containers := hgone }, .outside rfl rfl (Or.inl rfl), trivial⟩
    | failed => exact ⟨hw, .outside rfl rfl (Or.inl rfl), trivial⟩
    | unsure => exact ⟨{ hw with containers := hgone }, .outside rfl rfl (Or.inl rfl), trivial⟩

theorem calmly_probeContainer (id : String) : Calmly cfg terms (fun _ => True) (probeContainer id) := by
  refine Keeps.atomic fun w c hw _ => ?_
  split_ifs
  · exact ⟨hw, .outside rfl rfl (Or.inl rfl), trivial⟩
  · exact ⟨hw, .outside rfl rfl (Or.inr ⟨.exited id, rfl, rfl⟩), trivial⟩
  · exact ⟨hw, .outside rfl rfl (Or.inl rfl), trivial⟩

/-- `generateJIT` answers with no identifier below one and no empty name. -/
theorem calmly_generateJIT : Calmly cfg terms (fun x => ∀ e, x = some e → 1 ≤ e.1 ∧ e.2 ≠ "") generateJIT := by
  refine Keeps.atomic fun w c hw _ => ?_
  split
  · exact ⟨hw, .outside rfl rfl (Or.inl rfl), nofun⟩
  · next hgiven =>
    obtain ⟨hid, hname⟩ := not_or.mp hgiven
    cases c.outcome with
    | done => exact ⟨hw, .outside rfl rfl (Or.inl rfl), fun _ h => Option.some.inj h ▸ ⟨not_lt.mp hid, hname⟩⟩
    | failed | unsure => exact ⟨hw, .outside rfl rfl (Or.inl rfl), nofun⟩

/-! ### Host admission -/

theorem calmly_setTargetDemand (pending : Int) :
    Calmly cfg terms (fun _ => True) (HostAdmission.setTargetDemand pending) := by
  refine Keeps.atomic fun w _ hw _ => ?_
  dsimp only
  split
  · exact ⟨hw, .outside rfl rfl (Or.inl rfl), trivial⟩
  · exact ⟨hw, .outside rfl rfl (Or.inl rfl), trivial⟩

theorem calmly_clearDemand {p : ScalerProg α} (h : Calmly cfg terms Q p) :
    Calmly cfg terms Q (HostAdmission.setTargetDemand 0 >>= fun _ => p) :=
  (calmly_setTargetDemand 0).seq fun _ => h

theorem calmly_acquire (key : String) : Calmly cfg terms (fun _ => True) (HostAdmission.acquire key) := by
  refine Keeps.atomic fun w c hw _ => ?_
  cases c.outcome <;> exact ⟨hw, .outside rfl rfl (Or.inl rfl), trivial⟩

theorem calmly_bindRegistration (key name : String) :
    Calmly cfg terms (fun _ => True) (HostAdmission.bindRegistration key name) := by
  refine Keeps.atomic fun w c hw _ => ?_
  cases w.leases.lookup key with
  | none => exact ⟨hw, .outside rfl rfl (Or.inl rfl), trivial⟩
  | some lease => cases c.outcome <;> exact ⟨hw, .outside rfl rfl (Or.inl rfl), trivial⟩

theorem calmly_renew (key : String) : Calmly cfg terms (fun _ => True) (HostAdmission.renew key) :=
  Keeps.atomic fun _ _ hw _ => ⟨hw, .outside rfl rfl (Or.inl rfl), trivial⟩

theorem calmly_activate (key : String) : Calmly cfg terms (fun _ => True) (HostAdmission.activate key) := by
  refine Keeps.atomic fun w c hw _ => ?_
  cases w.leases.lookup key with
  | none => exact ⟨hw, .outside rfl rfl (Or.inl rfl), trivial⟩
  | some lease => cases c.outcome <;> exact ⟨hw, .outside rfl rfl (Or.inl rfl), trivial⟩

theorem calmly_adopt (key : String) : Calmly cfg terms (fun _ => True) (HostAdmission.adopt key) := by
  refine Keeps.atomic fun w c hw _ => ?_
  cases c.outcome <;> exact ⟨hw, .outside rfl rfl (Or.inl rfl), trivial⟩

theorem calmly_adoptIf (candidate : RunnerRecord) :
    Calmly cfg terms (fun _ => True) (HostAdmission.adoptIf candidate) := by
  refine Keeps.atomic fun w c hw _ => ?_
  split
  · cases c.outcome <;> exact ⟨hw, .outside rfl rfl (Or.inl rfl), trivial⟩
  · exact ⟨hw, .outside rfl rfl (Or.inl rfl), trivial⟩

theorem calmly_release (key : String) : Calmly cfg terms (fun _ => True) (HostAdmission.release key) := by
  refine Keeps.atomic fun w c hw _ => ?_
  split
  · cases c.outcome <;> exact ⟨hw, .outside rfl rfl (Or.inl rfl), trivial⟩
  · exact ⟨hw, .outside rfl rfl (Or.inl rfl), trivial⟩

/-! ### Host lease releases -/

theorem calmly_persistPendingHostLeaseReleases {records : Map String HostLeaseCleanupRecord}
    (h : records.All (ReleaseOk cfg.targetKey)) :
    Calmly cfg terms (fun _ => True) (persistPendingHostLeaseReleases records) := by
  refine Keeps.atomic fun w c hw _ => ?_
  cases c.outcome with
  | done | unsure => exact ⟨{ hw with releaseFile := h }, .outside rfl rfl (Or.inl rfl), trivial⟩
  | failed => exact ⟨hw, .outside rfl rfl (Or.inl rfl), trivial⟩

structure ReleasesOk (target : String) (e : HostLeaseCleanupRecord × Map String HostLeaseCleanupRecord) : Prop where
  record : ReleaseOk target e.1.hostSlotKey e.1
  records : e.2.All (ReleaseOk target)

theorem beginRelease_ok {w : ScalerWorld} (hw : w.books.Ok cfg.targetKey terms.stamp) {runnerKey hostSlotKey : String}
    (hrunner : runnerKey ≠ "") (hslot : hostSlotKey ≠ "") (now : Int) :
    ReleasesOk cfg.targetKey (w.beginRelease cfg runnerKey hostSlotKey now).1 := by
  have hrecord : ReleaseOk cfg.targetKey (w.beginRelease cfg runnerKey hostSlotKey now).1.1.hostSlotKey
      (w.beginRelease cfg runnerKey hostSlotKey now).1.1 := by
    unfold ScalerWorld.beginRelease
    cases hold : w.scaler.pendingHostLeaseReleases.lookup hostSlotKey with
    | none => exact ⟨rfl, rfl, hslot, hrunner⟩
    | some record =>
      have hok := hw.releases _ _ hold
      exact { hok with hostSlotKey := rfl, named := hok.hostSlotKey.symm ▸ hok.named }
  exact ⟨hrecord, hw.releases.insert hrecord⟩

theorem ReleaseOk.marked {target : String} {record : HostLeaseCleanupRecord}
    (h : ReleaseOk target record.hostSlotKey record)
    (firstFailedAt lastAttemptAt nextAttemptAt : String) (attempts : Int) :
    ReleaseOk target record.hostSlotKey { record with firstFailedAt, attempts, lastAttemptAt, nextAttemptAt } :=
  { h with }

theorem calmly_markPendingHostLeaseReleaseAttempt {record : HostLeaseCleanupRecord}
    (h : ReleaseOk cfg.targetKey record.hostSlotKey record) :
    Calmly cfg terms (fun _ => True) (markPendingHostLeaseReleaseAttempt cfg record) := by
  refine Keeps.bind (P := fun records => Map.All (ReleaseOk cfg.targetKey) records) (Keeps.atomic fun w c hw _ => ?_)
    fun records hrecords => (calmly_persistPendingHostLeaseReleases hrecords).seq fun _ => calmly_pure ()
  have hcurrent :
    ReleaseOk cfg.targetKey ((w.scaler.pendingHostLeaseReleases.lookup record.hostSlotKey).getD record).hostSlotKey
      ((w.scaler.pendingHostLeaseReleases.lookup record.hostSlotKey).getD record) := by
    cases hrecord : w.scaler.pendingHostLeaseReleases.lookup record.hostSlotKey with
    | none => exact h
    | some current =>
      have hold := hw.releases _ _ hrecord
      exact { hold with hostSlotKey := rfl, named := hold.hostSlotKey.symm ▸ hold.named }
  exact ⟨{ hw with releases := hw.releases.insert (hcurrent.marked _ _ _ _) }, .beside rfl rfl rfl (Or.inl rfl),
    hw.releases.insert (hcurrent.marked _ _ _ _)⟩

theorem calmly_resolvePendingHostLeaseRelease (hostSlotKey : String) :
    Calmly cfg terms (fun _ => True) (resolvePendingHostLeaseRelease hostSlotKey) := by
  refine Keeps.bind (P := fun x => ∀ records, x = some records → Map.All (ReleaseOk cfg.targetKey) records)
    (Keeps.atomic fun w c hw hc => ?_) fun x hx => ?_
  · have hnext := hw.releases.erase hostSlotKey
    refine ⟨{ hw with releases := hnext }, .beside rfl rfl rfl (Or.inl rfl), fun records hrecords => ?_⟩
    dsimp only at hrecords
    split_ifs at hrecords
    exact Option.some.inj hrecords ▸ hnext
  · cases x with
    | none => exact calmly_pure ()
    | some records => exact (calmly_persistPendingHostLeaseReleases (hx _ rfl)).seq fun _ => calmly_pure ()

theorem calmly_attemptPendingHostLeaseRelease {record : HostLeaseCleanupRecord}
    (h : ReleaseOk cfg.targetKey record.hostSlotKey record) :
    Calmly cfg terms (fun _ => True) (attemptPendingHostLeaseRelease cfg record) :=
  Keeps.cond (calmly_release _) ((calmly_resolvePendingHostLeaseRelease _).seq fun _ => calmly_pure true)
    ((calmly_markPendingHostLeaseReleaseAttempt h).seq fun _ => calmly_pure false)

theorem calmly_releaseHostLeaseOrEnqueue {runnerKey : String} (hrunner : runnerKey ≠ "") (hostSlotKey : String) :
    Calmly cfg terms (fun _ => True) (releaseHostLeaseOrEnqueue cfg runnerKey hostSlotKey) := by
  unfold releaseHostLeaseOrEnqueue
  split
  · exact calmly_pure true
  · next hslot =>
    refine Keeps.bind (P := ReleasesOk cfg.targetKey) (Keeps.atomic fun w c hw _ => ?_) fun e he => ?_
    · have hbegun := beginRelease_ok hw hrunner hslot c.now
      exact ⟨{ hw with releases := hbegun.records }, .beside rfl rfl rfl (Or.inl rfl), hbegun⟩
    · exact (calmly_persistPendingHostLeaseReleases he.records).seq fun _ =>
        calmly_attemptPendingHostLeaseRelease he.record

theorem calmly_retryHostLeaseReleases {records : List HostLeaseCleanupRecord}
    (h : ∀ record ∈ records, ReleaseOk cfg.targetKey record.hostSlotKey record) :
    Calmly cfg terms (fun _ => True) (retryHostLeaseReleases cfg records) := by
  induction records with
  | nil => exact calmly_pure true
  | cons record records ih =>
    obtain ⟨hrecord, hrecords⟩ := List.forall_mem_cons.mp h
    refine calmly_now.bind fun now _ => ?_
    split
    · exact (calmly_attemptPendingHostLeaseRelease hrecord).seq fun ok => (ih hrecords).seq fun rest =>
        calmly_pure (ok && rest)
    · exact ih hrecords

theorem calmly_retryPendingHostLeaseReleases :
    Calmly cfg terms (fun _ => True) (retryPendingHostLeaseReleases cfg) := by
  refine Keeps.bind (P := fun records => ∀ record ∈ records, ReleaseOk cfg.targetKey record.hostSlotKey record)
    (calmly_gets _ fun w hw record hrecord => ?_) fun records hrecords => calmly_retryHostLeaseReleases hrecords
  obtain ⟨e, he, rfl⟩ := List.mem_map.mp hrecord
  have hok := hw.releases e.1 e.2 (Map.mem_entriesIn.mp he)
  exact { hok with hostSlotKey := rfl, named := hok.hostSlotKey.symm ▸ hok.named }

/-! ### Launch intent -/

theorem Terms.Stamps.now {rfc : Rfc3339} (h : terms.Stamps rfc) {now : Int} (hnow : terms.clock now) :
    terms.stamp (rfc.format now) := by
  have := h now hnow 0 (le_refl 0) (by decide)
  rwa [add_zero] at this

theorem Terms.Stamps.later {rfc : Rfc3339} (h : terms.Stamps rfc) {now : Int} (hnow : terms.clock now)
    (attempts : Int) :
    terms.stamp (rfc.format (now + registrationOperationRetryDelay attempts)) :=
  h now hnow _ (registrationOperationRetryDelay_mem attempts).1 (registrationOperationRetryDelay_mem attempts).2

variable (hstamps : terms.Stamps cfg.rfc)
include hstamps

theorem calmly_beginLaunchIntent {runnerName : String} (hname : runnerName ≠ "") :
    Calmly cfg terms (fun _ => True) (beginLaunchIntent cfg runnerName) :=
  calmly_now.bind fun _ hnow => calmly_saveLaunchIntent
    { targetKey := rfl
      runnerName := hname
      runnerID := le_refl 0
      attempts := counted_one
      lastAttemptAt := hstamps.now hnow
      nextAttemptAt := hstamps.later hnow 1 }

omit hstamps in
theorem calmly_updateLaunchIntentRunnerID {runnerID : Int} (hid : 0 ≤ runnerID) :
    Calmly cfg terms (fun _ => True) (updateLaunchIntentRunnerID runnerID) := by
  have hread : Calmly cfg terms (fun x => ∀ r, x = some r → IntentOk cfg.targetKey terms.stamp r)
      (ScalerProg.gets (·.pendingLaunchIntent)) := calmly_gets _ fun _ hw => hw.intent
  refine hread.bind fun x hx => ?_
  cases x with
  | none => exact calmly_pure false
  | some record => exact calmly_saveLaunchIntent { hx record rfl with runnerID := hid }

theorem calmly_prepareLaunchIntentRetry {record : LaunchIntentRecord}
    (h : IntentOk cfg.targetKey terms.stamp record) {now : Int}
    (hnow : terms.clock now) : Calmly cfg terms (fun _ => True) (prepareLaunchIntentRetry cfg record now) :=
  calmly_saveLaunchIntent
    { h with
      attempts := counted_countAttempt h.attempts
      lastAttemptAt := hstamps.now hnow
      nextAttemptAt := hstamps.later hnow _ }

theorem calmly_recoverLaunchRegistration {record : LaunchIntentRecord}
    (h : IntentOk cfg.targetKey terms.stamp record) {now : Int}
    (hnow : terms.clock now) : Calmly cfg terms (fun _ => True) (recoverLaunchRegistration cfg record now) := by
  refine Keeps.cond (calmly_prepareLaunchIntentRetry hstamps h hnow) ?_ (calmly_pure false)
  refine (calmly_findRunnerByName _).seq fun found => ?_
  match found with
  | none => exact calmly_pure false
  | some none => exact calmly_clearLaunchIntent
  | some (some id) =>
    refine (calmly_removeRunner id .intent nofun).seq fun answer => ?_
    split
    · exact calmly_clearLaunchIntent
    · exact calmly_pure false

theorem calmly_retryPendingLaunchIntent : Calmly cfg terms (fun _ => True) (retryPendingLaunchIntent cfg) := by
  have hread : Calmly cfg terms (fun x => ∀ e, x = some e → IntentOk cfg.targetKey terms.stamp e.1)
      (ScalerProg.gets fun s => s.pendingLaunchIntent.map fun record => (record, s.launchIntentLive record)) := by
    refine calmly_gets _ fun w hw e he => ?_
    obtain ⟨record, hrecord, rfl⟩ := Option.map_eq_some_iff.mp he
    exact hw.intent record hrecord
  refine hread.bind fun x hx => ?_
  match x with
  | none => exact calmly_pure true
  | some (record, live) =>
    dsimp only
    split
    · exact calmly_clearLaunchIntent
    · split
      · exact calmly_pure false
      · refine calmly_now.bind fun now hnow => ?_
        split
        · exact calmly_pure true
        · exact calmly_recoverLaunchRegistration hstamps (hx _ rfl) hnow

omit hstamps in
theorem calmly_removeLaunchIntentRegistration : Calmly cfg terms (fun _ => True) removeLaunchIntentRegistration := by
  refine (calmly_reads _).seq fun x => ?_
  cases x with
  | none => exact calmly_pure false
  | some record =>
    dsimp only
    split
    · exact calmly_pure false
    · refine (calmly_removeRunner _ .launch nofun).seq fun answer => ?_
      split
      · exact calmly_clearLaunchIntent
      · exact calmly_pure false

/-! ### Registration cleanup -/

omit hstamps in
theorem calmly_persistPendingRegistrations {records : Map String RegistrationCleanupRecord}
    (h : records.All (CleanupOk cfg.targetKey terms.stamp)) :
    Calmly cfg terms (fun _ => True) (persistPendingRegistrations records) := by
  have hsave : Calmly cfg terms (fun _ => True) (saveFile fun w => { w with cleanupFile := records }) :=
    calmly_saveFile (fun _ hw => { hw with cleanupFile := h }) (fun _ => rfl) (fun _ => rfl) fun _ => rfl
  refine hsave.seq fun ok => Keeps.seq ?_ fun _ => calmly_pure ok
  exact calmly_note (fun _ => rfl) fun _ => .beside rfl rfl rfl (Or.inl rfl)

theorem cleanupRecord_ok {w : ScalerWorld} (hw : w.books.Ok cfg.targetKey terms.stamp) {runner : RunnerRecord}
    (h : RunnerOk runner.key runner) {now : Int} (hnow : terms.clock now) :
    CleanupOk cfg.targetKey terms.stamp (cleanupRecord cfg w.scaler runner now).slotKey
      (cleanupRecord cfg w.scaler runner now) := by
  unfold cleanupRecord
  cases hrecord : w.scaler.pendingRegistrations.lookup runner.key with
  | none =>
    exact
      { slotKey := rfl
        targetKey := rfl
        identified := h.identified
        attempts := counted_one
        firstFailedAt := hstamps.now hnow
        lastAttemptAt := hstamps.now hnow
        nextAttemptAt := hstamps.later hnow 1 }
  | some record =>
    have hold := hw.cleanups runner.key record hrecord
    exact { hold with slotKey := rfl, identified := hold.slotKey ▸ h.identified }

theorem calmly_beginPendingRegistrationCleanup {runner : RunnerRecord} (h : RunnerOk runner.key runner) :
    Calmly cfg terms (fun _ => True) (beginPendingRegistrationCleanup cfg runner) := by
  refine Keeps.bind (P := fun e => Map.All (CleanupOk cfg.targetKey terms.stamp) e.2)
    (Keeps.atomic fun w c hw hc => ?_) fun e he => ?_
  · have hnext := hw.cleanups.insert (cleanupRecord_ok hstamps hw h hc)
    exact ⟨{ hw with cleanups := hnext }, .beside rfl rfl rfl (Or.inl rfl), hnext⟩
  · exact (calmly_persistPendingRegistrations he).seq fun ok => calmly_pure (e.1, ok)

theorem CleanupOk.retried {k : String} {record : RegistrationCleanupRecord}
    (h : CleanupOk cfg.targetKey terms.stamp k record)
    {now : Int} (hnow : terms.clock now) :
    CleanupOk cfg.targetKey terms.stamp record.slotKey
      { record with
        attempts := countAttempt record.attempts
        lastAttemptAt := cfg.rfc.format now
        nextAttemptAt := cfg.rfc.format (now + registrationOperationRetryDelay (countAttempt record.attempts)) } :=
  { h with
    slotKey := rfl
    identified := h.slotKey.symm ▸ h.identified
    attempts := counted_countAttempt h.attempts
    lastAttemptAt := hstamps.now hnow
    nextAttemptAt := hstamps.later hnow _ }

theorem calmly_preparePendingRegistrationRetry (slotKey : String) :
    Calmly cfg terms (fun _ => True) (preparePendingRegistrationRetry cfg slotKey) := by
  refine Keeps.bind (P := fun x => ∀ e, x = some e → Map.All (CleanupOk cfg.targetKey terms.stamp) e.2)
    (Keeps.atomic fun w c hw hc => ?_) fun x hx => ?_
  · cases hcurrent : w.scaler.pendingRegistrations.lookup slotKey with
    | none => exact ⟨hw, .outside rfl rfl (Or.inl rfl), nofun⟩
    | some current =>
      have hnext := hw.cleanups.insert ((hw.cleanups slotKey current hcurrent).retried hstamps hc)
      exact ⟨{ hw with cleanups := hnext }, .beside rfl rfl rfl (Or.inl rfl), fun e he => Option.some.inj he ▸ hnext⟩
  · match x with
    | none => exact calmly_pure none
    | some (current, records) =>
      exact Keeps.cond (calmly_persistPendingRegistrations (hx _ rfl)) (calmly_pure (some current)) (calmly_pure none)

omit hstamps in
theorem calmly_resolvePendingRegistration (slotKey : String) :
    Calmly cfg terms (fun _ => True) (resolvePendingRegistration slotKey) := by
  refine Keeps.bind (P := fun x => ∀ records, x = some records → Map.All (CleanupOk cfg.targetKey terms.stamp) records)
    (Keeps.atomic fun w c hw hc => ?_) fun x hx => ?_
  · have hnext := hw.cleanups.erase slotKey
    refine ⟨{ hw with cleanups := hnext }, .beside rfl rfl rfl (Or.inl rfl), fun records hrecords => ?_⟩
    dsimp only at hrecords
    split_ifs at hrecords
    exact Option.some.inj hrecords ▸ hnext
  · cases x with
    | none => exact calmly_pure ()
    | some records => exact (calmly_persistPendingRegistrations (hx _ rfl)).seq fun _ => calmly_pure ()

omit hstamps in
theorem calmly_attemptPendingRegistrationCleanup (record : RegistrationCleanupRecord) :
    Calmly cfg terms (fun _ => True) (attemptPendingRegistrationCleanup record) := by
  refine (calmly_removeRunner _ .cleanup nofun).seq fun answer => ?_
  split
  · exact (calmly_resolvePendingRegistration _).seq fun _ => calmly_pure true
  · exact calmly_pure false

theorem calmly_removeRegistrationOrEnqueue {runner : RunnerRecord}
    (h : runner.containerID ≠ "" → RunnerOk runner.key runner) :
    Calmly cfg terms (fun _ => True) (removeRegistrationOrEnqueue cfg runner) := by
  unfold removeRegistrationOrEnqueue
  split
  · exact calmly_removeLaunchIntentRegistration
  · next hcontainer =>
    refine (calmly_beginPendingRegistrationCleanup hstamps (h hcontainer)).seq fun e => ?_
    obtain ⟨record, saved⟩ := e
    cases saved with
    | true =>
      exact Keeps.cond calmly_clearLaunchIntent (calmly_attemptPendingRegistrationCleanup record) (calmly_pure false)
    | false => exact calmly_pure false

theorem calmly_retryRegistrations (records : List RegistrationCleanupRecord) :
    Calmly cfg terms (fun _ => True) (retryRegistrations cfg records) := by
  induction records with
  | nil => exact calmly_pure true
  | cons record records ih =>
    have hfailed : Calmly cfg terms (fun _ => True) (retryRegistrations cfg records >>= fun _ => pure false) :=
      ih.seq fun _ => calmly_pure false
    refine Keeps.cond (calmly_reads _) ((calmly_resolvePendingRegistration _).seq fun _ => ih) ?_
    refine calmly_now.bind fun now _ => ?_
    split
    · refine (calmly_preparePendingRegistrationRetry hstamps _).seq fun x => ?_
      cases x with
      | none => exact hfailed
      | some current =>
        refine (calmly_removeRunner _ .retry nofun).seq fun answer => ?_
        split
        · exact (calmly_resolvePendingRegistration _).seq fun _ => ih
        · exact hfailed
    · exact ih

theorem calmly_retryPendingRegistrations : Calmly cfg terms (fun _ => True) (retryPendingRegistrations cfg) :=
  (calmly_reads _).seq fun pending => calmly_retryRegistrations hstamps pending

/-! ### Runners -/

omit hstamps in
theorem updateRunner_plain {w : ScalerWorld} (hw : w.books.Ok cfg.targetKey terms.stamp) (key : String)
    {f : RunnerRecord → RunnerRecord} (hf : ∀ r, SameRunner r (f r)) :
    (w.update (·.updateRunner key f)).books.Ok cfg.targetKey terms.stamp ∧
      Plain w (w.update (·.updateRunner key f)) := by
  have hupdate : w.update (·.updateRunner key f) = w.update fun s => { s with runners := s.runners.change key f } :=
    congrArg (fun s => { w with scaler := s }) (w.scaler.updateRunner_eq key f)
  rw [hupdate]
  exact ⟨{ hw with runners := hw.runners.change key fun _ r hr => hr.same (hf r) }, rfl, rfl, Or.inl rfl⟩

omit hstamps in
theorem plainly_updateRunner (key : String) {f : RunnerRecord → RunnerRecord} (hf : ∀ r, SameRunner r (f r)) :
    Plainly cfg terms (fun _ => True) (ScalerProg.modify (·.updateRunner key f)) :=
  Keeps.atomic fun _ _ hw _ => ⟨(updateRunner_plain hw key hf).1, (updateRunner_plain hw key hf).2, trivial⟩

/-! ### Registration fences -/

omit hstamps in
theorem runners_putFences (w : ScalerWorld) (fences : Map String RegistrationFenceRecord) (slotKey : String)
    (retryAt : Option Int) (outcome : Outcome) :
    (w.putFences fences slotKey retryAt outcome).2.scaler.runners =
      w.scaler.runners.change slotKey ({ · with fenceRetryAt := retryAt }) := by
  unfold ScalerWorld.putFences Map.change
  cases outcome with
  | done => cases w.scaler.runners.lookup slotKey <;> rfl
  | failed => cases w.scaler.runners.lookup slotKey <;> rfl
  | unsure => cases w.scaler.runners.lookup slotKey <;> rfl

omit hstamps in
theorem putFences_calm {w : ScalerWorld} (hw : w.books.Ok cfg.targetKey terms.stamp)
    {fences : Map String RegistrationFenceRecord}
    (hfences : fences.All (FenceOk cfg.targetKey terms.stamp)) (slotKey : String) (retryAt : Option Int)
    (outcome : Outcome) :
    (w.putFences fences slotKey retryAt outcome).2.books.Ok cfg.targetKey terms.stamp ∧
      Calm w (w.putFences fences slotKey retryAt outcome).2 := by
  have hcapacity : (w.putFences fences slotKey retryAt outcome).2.scaler.capacityCount = w.scaler.capacityCount := by
    rw [Scaler.capacityCount_eq, Scaler.capacityCount_eq, runners_putFences]
    exact sumOf_change slotKey fun _ => rfl
  have hrunners : Map.All RunnerOk (w.putFences fences slotKey retryAt outcome).2.scaler.runners := by
    rw [runners_putFences]
    exact hw.runners.change slotKey fun _ r hr => hr.same ⟨rfl, rfl, rfl, rfl⟩
  cases outcome with
  | done | unsure =>
    exact ⟨{ hw with fences := hfences, fenceFile := hfences, runners := hrunners }, ⟨rfl, rfl, Or.inl rfl⟩, hcapacity⟩
  | failed => exact ⟨{ hw with fences := hfences, runners := hrunners }, ⟨rfl, rfl, Or.inl rfl⟩, hcapacity⟩

theorem FenceOk.retried {k : String} {record : RegistrationFenceRecord} (h : FenceOk cfg.targetKey terms.stamp k record)
    {now : Int} (hnow : terms.clock now) :
    FenceOk cfg.targetKey terms.stamp record.slotKey
      { record with
        attempts := countAttempt record.attempts
        lastAttemptAt := cfg.rfc.format now
        nextAttemptAt := cfg.rfc.format (now + registrationOperationRetryDelay (countAttempt record.attempts)) } :=
  { h with
    slotKey := rfl
    identified := h.slotKey.symm ▸ h.identified
    attempts := counted_countAttempt h.attempts
    lastAttemptAt := hstamps.now hnow
    nextAttemptAt := hstamps.later hnow _ }

theorem calmly_beginPendingRegistrationFence {runner : RunnerRecord} (h : RunnerOk runner.key runner)
    (purpose : FencePurpose) :
    Calmly cfg terms (fun _ => True) (beginPendingRegistrationFence cfg runner purpose) := by
  refine Keeps.atomic fun w c hw hc => ?_
  have hfence : ∀ record, record = (w.scaler.pendingFences.lookup runner.key).getD
      { targetKey := cfg.targetKey
        slotKey := runner.key
        purpose
        runnerID := runner.runnerID
        runnerName := runner.runnerName
        containerID := runner.containerID
        containerName := runner.container
        attempts := 1
        firstFailedAt := cfg.rfc.format c.now
        lastAttemptAt := cfg.rfc.format c.now
        nextAttemptAt := cfg.rfc.format (c.now + registrationOperationRetryDelay 1) } →
      FenceOk cfg.targetKey terms.stamp record.slotKey record := by
    rintro record rfl
    cases hrecord : w.scaler.pendingFences.lookup runner.key with
    | none => exact ⟨rfl, rfl, h.identified, counted_one, hstamps.now hc, hstamps.now hc, hstamps.later hc 1⟩
    | some record =>
      have hold := hw.fences _ _ hrecord
      exact { hold with slotKey := rfl, identified := hold.slotKey.symm ▸ hold.identified }
  obtain ⟨hbooks, hcalm⟩ := putFences_calm hw (hw.fences.insert (hfence _ rfl)) _ _ _
  exact ⟨hbooks, hcalm, trivial⟩

theorem calmly_preparePendingRegistrationFenceRetry (slotKey : String) :
    Calmly cfg terms (fun _ => True) (preparePendingRegistrationFenceRetry cfg slotKey) := by
  refine Keeps.atomic fun w c hw hc => ?_
  cases hcurrent : w.scaler.pendingFences.lookup slotKey with
  | none => exact ⟨hw, .outside rfl rfl (Or.inl rfl), trivial⟩
  | some current =>
    obtain ⟨hbooks, hcalm⟩ := putFences_calm hw
      (hw.fences.insert ((hw.fences slotKey current hcurrent).retried hstamps hc)) current.slotKey
      (some (c.now + registrationOperationRetryDelay (countAttempt current.attempts))) c.outcome
    exact ⟨hbooks, hcalm, trivial⟩

omit hstamps in
theorem plainly_resolvePendingRegistrationFence (slotKey : String) :
    Plainly cfg terms (fun _ => True) (resolvePendingRegistrationFence slotKey) := by
  refine Keeps.atomic fun w c hw hc => ?_
  split
  · obtain ⟨hbooks, hcalm⟩ := putFences_calm hw (hw.fences.erase slotKey) slotKey none c.outcome
    exact ⟨hbooks, hcalm.toPlain, trivial⟩
  · cases hrunner : w.scaler.runners.lookup slotKey with
    | none =>
      simp only [ScalerWorld.update, hrunner]
      exact ⟨hw, Calm.toPlain (.outside rfl rfl (Or.inl rfl)), trivial⟩
    | some runner =>
      simp only [ScalerWorld.update, hrunner]
      exact ⟨{ hw with runners := hw.runners.insert ((hw.runners _ _ hrunner).same ⟨rfl, rfl, rfl, rfl⟩) },
        ⟨rfl, rfl, Or.inl rfl⟩, trivial⟩

/-! ### Settlement -/

omit hstamps

theorem plainly_settleStoppedRunner (runnerKey : String) :
    Plainly cfg terms (fun _ => True) (settleStoppedRunner cfg runnerKey) := by
  refine Keeps.bind (P := fun x => ∀ e, x = some e → ReleasesOk cfg.targetKey e.1)
    (Keeps.atomic fun w c hw _ => ?_) fun x hx => ?_
  · cases hcurrent : w.scaler.runners.lookup runnerKey with
    | none => exact ⟨hw, Calm.toPlain (.outside rfl rfl (Or.inl rfl)), nofun⟩
    | some current =>
      dsimp only
      split
      · exact ⟨{ hw with runners := hw.runners.erase runnerKey }, ⟨rfl, rfl, Or.inl rfl⟩, nofun⟩
      · next hheld =>
        have hslot : current.hostSlotKey ≠ "" := fun h => hheld (Or.inl h)
        have hbegun := beginRelease_ok hw (hw.runners _ _ hcurrent).identified.slotKey hslot c.now
        exact ⟨{ hw with releases := hbegun.records }, Calm.toPlain (.beside rfl rfl rfl (Or.inl rfl)),
          fun e he => Option.some.inj he ▸ hbegun⟩
  · match x with
    | none => exact Keeps.pure trivial
    | some ((record, records), hostSlotKey) =>
      have hok := hx _ rfl
      refine Keeps.cond (calmly_persistPendingHostLeaseReleases hok.records).plainly ?_ (Keeps.pure trivial)
      refine Keeps.seq (Keeps.atomic fun w _ hw _ => ?_) fun _ =>
        (calmly_attemptPendingHostLeaseRelease hok.record).plainly
      have hkept : w.books.Ok cfg.targetKey terms.stamp ∧ Plain w w :=
        ⟨hw, Calm.toPlain (.outside rfl rfl (Or.inl rfl))⟩
      cases hcurrent : w.scaler.runners.lookup runnerKey with
      | none =>
        simp only [ScalerWorld.update, hcurrent]
        exact ⟨hkept.1, hkept.2, trivial⟩
      | some current =>
        simp only [ScalerWorld.update, hcurrent]
        split
        · exact ⟨{ hw with runners := hw.runners.erase runnerKey }, ⟨rfl, rfl, Or.inl rfl⟩, trivial⟩
        · exact ⟨hkept.1, hkept.2, trivial⟩

/-! ### Adoption -/

theorem plainly_markAdopted (candidate : RunnerRecord) : Plainly cfg terms (fun _ => True) (markAdopted candidate) := by
  refine plainly_updateRunner _ fun r => ?_
  split
  · exact ⟨rfl, rfl, rfl, rfl⟩
  · exact ⟨rfl, rfl, rfl, rfl⟩

theorem plainly_retryAdoption (candidate : RunnerRecord) :
    Plainly cfg terms (fun _ => True) (retryAdoption candidate) := by
  have hmark : Plainly cfg terms (fun _ => True) (markAdopted candidate >>= fun _ => pure true) :=
    (plainly_markAdopted candidate).seq fun _ => Keeps.pure trivial
  have hfalse : Plainly cfg terms (fun _ => True) (pure false) := Keeps.pure trivial
  unfold retryAdoption
  split
  · exact hfalse
  · refine (calmly_bindRegistration _ _).plainly.seq fun bound => ?_
    split
    · exact hfalse
    · refine (calmly_adoptIf candidate).plainly.seq fun adopted => ?_
      match adopted with
      | none => exact Keeps.pure trivial
      | some false => exact hfalse
      | some true =>
        dsimp only
        split
        · refine (calmly_bindRegistration _ _).plainly.seq fun again => ?_
          split
          · exact hmark
          · exact hfalse
        · exact hmark

theorem plainly_retryAdoptions (candidates : List RunnerRecord) :
    Plainly cfg terms (fun _ => True) (retryAdoptions candidates) := by
  induction candidates with
  | nil => exact Keeps.pure trivial
  | cons candidate candidates ih =>
    exact (plainly_retryAdoption candidate).seq fun _ => ih.seq fun _ => Keeps.pure trivial

theorem plainly_retryPendingHostLeaseAdoptions : Plainly cfg terms (fun _ => True) retryPendingHostLeaseAdoptions := by
  refine Keeps.cond (calmly_reads _).plainly ?_ (Keeps.pure trivial)
  refine (calmly_reads _).plainly.seq fun pending => (plainly_retryAdoptions pending).seq fun ok => ?_
  exact (calmly_reads _).plainly.seq fun adopted => Keeps.pure trivial

/-! ### Containers that have stopped -/

theorem plainly_awaitCleanup (key : String) (registrationRemoved : Bool) :
    Plainly cfg terms (fun _ => True) (awaitCleanup key registrationRemoved) :=
  plainly_updateRunner _ fun _ => ⟨rfl, rfl, rfl, rfl⟩

theorem plainly_stopFencedRunner (runner : RunnerRecord) (registrationRemoved : Bool) :
    Plainly cfg terms (fun _ => True) (stopFencedRunner cfg runner registrationRemoved) :=
  Keeps.cond (calmly_stopAndRemove _ _).plainly (plainly_settleStoppedRunner _)
    ((plainly_awaitCleanup _ _).seq fun _ => Keeps.pure trivial)

theorem plainly_retryCleanups (runners : List RunnerRecord) :
    Plainly cfg terms (fun _ => True) (retryCleanups cfg runners) := by
  induction runners with
  | nil => exact Keeps.pure trivial
  | cons runner runners ih =>
    refine Keeps.cond (calmly_stopAndRemove _ _).plainly ?_ (ih.seq fun _ => Keeps.pure trivial)
    exact (plainly_settleStoppedRunner _).seq fun _ => ih.seq fun _ => Keeps.pure trivial

theorem plainly_retryCleanupPending : Plainly cfg terms (fun _ => True) (retryCleanupPending cfg) :=
  (calmly_reads _).plainly.seq fun pending => plainly_retryCleanups pending

/-! ### Exits -/

theorem calmly_scheduleExitRetry (exit : Exit) : Calmly cfg terms (fun _ => True) (scheduleExitRetry cfg exit) := by
  refine Keeps.atomic fun w c hw _ => ?_
  unfold ScalerWorld.update
  split
  · exact ⟨hw, .beside rfl rfl rfl (Or.inl rfl), trivial⟩
  · exact ⟨hw, .outside rfl rfl (Or.inl rfl), trivial⟩

theorem mem_records {s : Scaler} {r : RunnerRecord} : r ∈ s.records ↔ ∃ k, s.runners.lookup k = some r := by
  unfold Scaler.records
  constructor
  · intro h
    obtain ⟨e, he, rfl⟩ := List.mem_map.mp h
    exact ⟨e.1, Map.mem_entriesIn.mp he⟩
  · rintro ⟨k, hk⟩
    exact List.mem_map.mpr ⟨(k, r), Map.mem_entriesIn.mpr hk, rfl⟩

theorem Books.Ok.record {w : ScalerWorld} (hw : w.books.Ok cfg.targetKey terms.stamp) {r : RunnerRecord}
    (h : r ∈ w.scaler.records) :
    RunnerOk r.key r ∧ w.scaler.runners.lookup r.key = some r := by
  obtain ⟨k, hk⟩ := mem_records.mp h
  have hr := hw.runners k r hk
  exact ⟨hr.key ▸ hr, hr.key.symm ▸ hk⟩

theorem find_mem {s : Scaler} {containerID : String} {r : RunnerRecord}
    (h : s.findRunnerByContainer containerID = some r) :
    r ∈ s.records :=
  List.mem_of_find?_eq_some h

theorem exit_cases (s : Scaler) (containerID : String) (clean : Bool) :
    (s.exit containerID clean).2 = s ∨ (s.exit containerID clean).2 =
      { s with exitFailures := 0, exitRetryAt := none } := by
  unfold Scaler.exit
  cases s.findRunnerByContainer containerID with
  | none => exact Or.inl rfl
  | some runner =>
    dsimp only
    split
    · exact Or.inr rfl
    · exact Or.inl rfl

theorem exit_mem {s : Scaler} {containerID : String} {clean : Bool} {exit : Exit}
    (h : (s.exit containerID clean).1 = some exit) : exit.runner ∈ s.records := by
  unfold Scaler.exit at h
  cases hfound : s.findRunnerByContainer containerID with
  | none => simp only [hfound, reduceCtorEq] at h
  | some runner =>
    simp only [hfound, Option.some.injEq] at h
    exact h ▸ find_mem hfound

theorem exit_calm {w : ScalerWorld} (hw : w.books.Ok cfg.targetKey terms.stamp) (containerID : String) (clean : Bool) :
    { w with scaler := (w.scaler.exit containerID clean).2 }.books.Ok cfg.targetKey terms.stamp ∧
      Calm w { w with scaler := (w.scaler.exit containerID clean).2 } := by
  rcases exit_cases w.scaler containerID clean with h | h
  · rw [h]
    exact ⟨hw, .outside rfl rfl (Or.inl rfl)⟩
  · rw [h]
    exact ⟨hw, .beside rfl rfl rfl (Or.inl rfl)⟩

include hstamps

theorem calmly_recordExit {exit : Exit} (h : RunnerOk exit.runner.key exit.runner) :
    Calmly cfg terms (fun _ => True) (recordExit cfg exit) := by
  unfold recordExit
  split
  · exact calmly_pure _
  · exact (calmly_beginPendingRegistrationCleanup hstamps h).seq fun e => calmly_pure _

theorem plainly_handleContainerExitLocked (containerID : String) :
    Plainly cfg terms (fun _ => True) (handleContainerExitLocked cfg containerID) := by
  refine Keeps.bind (P := fun x => ∀ exit : Exit, x = some exit → RunnerOk exit.runner.key exit.runner)
    (Keeps.atomic fun w c hw _ => ?_) fun x hx => ?_
  · obtain ⟨hbooks, hcalm⟩ := exit_calm hw containerID c.clean
    exact ⟨hbooks, hcalm.toPlain, fun _ h => (hw.record (exit_mem h)).1⟩
  · match x with
    | none => exact Keeps.pure trivial
    | some exit =>
      refine (calmly_scheduleExitRetry exit).plainly.seq fun _ =>
        (calmly_recordExit hstamps (hx exit rfl)).plainly.seq fun e => ?_
      obtain ⟨record, saved⟩ := e
      cases saved with
      | true =>
        refine (plainly_settleStoppedRunner _).seq fun _ => Keeps.seq (Keeps.atomic fun w _ hw _ => ?_) fun _ => ?_
        · unfold ScalerWorld.update
          dsimp only
          split
          · exact ⟨hw, Calm.toPlain (.beside rfl rfl rfl (Or.inl rfl)), trivial⟩
          · exact ⟨hw, Calm.toPlain (.outside rfl rfl (Or.inl rfl)), trivial⟩
        · cases record with
          | none => exact Keeps.pure trivial
          | some record =>
            exact (calmly_attemptPendingRegistrationCleanup record).plainly.seq fun _ => Keeps.pure trivial
      | false =>
        have hupdate :
          Plainly cfg terms (fun _ => True) (ScalerProg.modify fun s => s.updateRunner exit.runner.key fun r =>
            { r with containerRunning := false, state := .cleanupPending }) :=
          plainly_updateRunner _ fun _ => ⟨rfl, rfl, rfl, rfl⟩
        exact hupdate.seq fun _ => Keeps.pure trivial

theorem plainly_probeRunner (candidate : RunnerRecord) :
    Plainly cfg terms (fun _ => True) (probeRunner cfg candidate) := by
  refine (calmly_probeContainer _).plainly.seq fun answer => ?_
  match answer with
  | none => exact Keeps.pure trivial
  | some true =>
    refine calmly_now.plainly.bind fun now _ => (plainly_updateRunner _ fun r => ?_).seq fun _ => Keeps.pure trivial
    split <;> exact ⟨rfl, rfl, rfl, rfl⟩
  | some false => exact (plainly_handleContainerExitLocked hstamps _).seq fun _ => Keeps.pure trivial

theorem plainly_probeRunners (candidates : List RunnerRecord) :
    Plainly cfg terms (fun _ => True) (probeRunners cfg candidates) := by
  induction candidates with
  | nil => exact Keeps.pure trivial
  | cons candidate candidates ih =>
    exact (plainly_probeRunner hstamps candidate).seq fun _ => ih.seq fun _ => Keeps.pure trivial

theorem plainly_reconcileContainerLiveness : Plainly cfg terms (fun _ => True) (reconcileContainerLiveness cfg) :=
  calmly_now.plainly.bind fun _ _ => (calmly_reads _).plainly.seq fun candidates =>
    plainly_probeRunners hstamps candidates

/-! ### Launches -/

omit hstamps in
theorem slotKey_ne_empty (runnerID : Int) : slotKey cfg runnerID ≠ "" := by
  unfold slotKey
  intro h
  have := congrArg String.length h
  simp only [String.length_append] at this
  exact absurd this (by simp)

structure Launch.Ok (l : Launch) : Prop where
  runnerName : l.runnerName ≠ ""
  runnerID : 1 ≤ l.runnerID

omit hstamps in
theorem Launch.Ok.runner {l : Launch} (h : l.Ok) {containerID : String} (hcontainer : containerID ≠ "")
    (container : String) :
    RunnerOk (slotKey cfg l.runnerID) (l.runner cfg containerID container) :=
  ⟨rfl, slotKey_ne_empty _, h.runnerName, h.runnerID, hcontainer⟩

theorem calmly_abandon {l : Launch} (h : l.Ok) (containerID : String) :
    Calmly cfg terms (fun _ => True) (l.abandon cfg containerID) := by
  have hrelease : Calmly cfg terms (fun _ => True) (do
      let _ ← releaseHostLeaseOrEnqueue cfg (slotKey cfg l.runnerID) l.hostSlotKey) :=
    (calmly_releaseHostLeaseOrEnqueue (slotKey_ne_empty _) _).seq fun _ => calmly_pure ()
  refine (calmly_removeRegistrationOrEnqueue hstamps fun hcontainer => h.runner hcontainer _).seq fun _ => ?_
  split
  · exact hrelease
  · exact (calmly_stopAndRemove _ _).seq fun _ => hrelease

theorem calmly_giveUp {l : Launch} : Calmly cfg terms (fun _ => True) (l.giveUp cfg) :=
  (calmly_removeRegistrationOrEnqueue hstamps (absurd rfl)).seq fun _ =>
    (calmly_releaseHostLeaseOrEnqueue (slotKey_ne_empty _) _).seq fun _ => calmly_pure ()

omit hstamps in
theorem plainly_failed {q : ScalerProg Unit} (hq : Calmly cfg terms (fun _ => True) q) (failure : LaunchFailure) :
    Plainly cfg terms (fun _ => True) (do q; return some failure : ScalerProg (Option LaunchFailure)) :=
  hq.plainly.seq fun _ => Keeps.pure trivial

section
variable {l : Launch} (hl : l.Ok)
include hl

theorem plainly_track {containerID : String} (hcontainer : containerID ≠ "") :
    Plainly cfg terms (fun _ => True) (l.track cfg containerID) := by
  refine Keeps.cond (Keeps.atomic fun w c hw _ => ?_) ?_ (plainly_failed (calmly_abandon hstamps hl containerID) .other)
  · split
    · exact ⟨hw, Calm.toPlain (.outside rfl rfl (Or.inl rfl)), trivial⟩
    · have hrunner : RunnerOk (slotKey cfg l.runnerID) { l.runner cfg containerID (l.containerName cfg) with
          containerRunning := true
          containerConfirmedAt := c.now
          startedAt := c.now
          hostSlotKey := l.hostSlotKey
          hostLeaseAdopted := w.scaler.hostAdmission } :=
        (hl.runner hcontainer (l.containerName cfg)).same ⟨rfl, rfl, rfl, rfl⟩
      have htracked := hw.runners.insert hrunner
      exact ⟨{ hw with runners := htracked }, ⟨rfl, rfl, Or.inl rfl⟩, trivial⟩
  · exact calmly_clearLaunchIntent.plainly.seq fun _ => Keeps.pure trivial

omit hstamps in
theorem containerSpec_ok (createdAt : Int) (running : Bool) :
    (l.containerSpec cfg createdAt running).slotKey ≠ "" ∧ (l.containerSpec cfg createdAt running).runnerName ≠ "" ∧
      1 ≤ (l.containerSpec cfg createdAt running).runnerID :=
  ⟨slotKey_ne_empty _, hl.runnerName, hl.runnerID⟩

theorem plainly_createAndStart : Plainly cfg terms (fun _ => True) (l.createAndStart cfg) := by
  have habandon := fun (failure : LaunchFailure) (containerID : String) =>
    plainly_failed (calmly_abandon hstamps hl containerID) failure
  refine Keeps.cond (calmly_renew _).plainly ?_ (habandon .hostAdmission _)
  refine calmly_now.plainly.bind fun now _ => ?_
  refine (calmly_launchContainer (containerSpec_ok hl now false)).plainly.bind fun launched hlaunched => ?_
  match launched with
  | none => exact habandon .other _
  | some containerID =>
    refine Keeps.cond (calmly_renew _).plainly ?_ (habandon .hostAdmission _)
    refine Keeps.cond (calmly_activate _).plainly ?_ (habandon .hostAdmission _)
    exact Keeps.cond (calmly_startContainer _).plainly (plainly_track hstamps hl (hlaunched _ rfl)) (habandon .other _)

theorem plainly_run : Plainly cfg terms (fun _ => True) (l.run cfg) := by
  refine calmly_now.plainly.bind fun now _ => ?_
  refine (calmly_launchContainer (containerSpec_ok hl now true)).plainly.bind fun launched hlaunched => ?_
  match launched with
  | none => exact plainly_failed (calmly_abandon hstamps hl _) .other
  | some containerID => exact plainly_track hstamps hl (hlaunched _ rfl)

theorem plainly_proceed : Plainly cfg terms (fun _ => True) (l.proceed cfg) := by
  -- a launch goes on if the container has a name
  have hnamed : ∀ {q : ScalerProg (Option LaunchFailure)} (name : String), Plainly cfg terms (fun _ => True) q →
      Plainly cfg terms (fun _ => True) (if name = "" then do l.giveUp cfg; return some .other else q) := by
    intro q name hq
    split
    · exact plainly_failed (calmly_giveUp hstamps) .other
    · exact hq
  unfold Launch.proceed
  generalize l.containerName cfg = name
  split
  · exact hnamed name (plainly_run hstamps hl)
  · refine (calmly_bindRegistration _ _).plainly.seq fun bound => ?_
    split
    · exact hnamed name (plainly_createAndStart hstamps hl)
    · exact plainly_failed (calmly_giveUp hstamps) .hostAdmission

end

theorem plainly_launchRunner {name : String} (hname : name ≠ "") (hostSlotKey : String) :
    Plainly cfg terms (fun _ => True) (launchRunner cfg name hostSlotKey) := by
  have hrelease : Plainly cfg terms (fun _ => True)
      (do let _ ← releaseHostLeaseOrEnqueue cfg name hostSlotKey; return some .other : ScalerProg
        (Option LaunchFailure)) :=
    (calmly_releaseHostLeaseOrEnqueue hname hostSlotKey).plainly.seq fun _ => Keeps.pure trivial
  refine Keeps.cond (calmly_beginLaunchIntent hstamps hname).plainly ?_ hrelease
  refine calmly_generateJIT.plainly.bind fun made hmade => ?_
  match made with
  | none => exact hrelease
  | some (runnerID, runnerName) =>
    obtain ⟨hid, hgiven⟩ := hmade _ rfl
    have hid' : 0 ≤ runnerID := le_trans Int.one_nonneg hid
    exact Keeps.cond (calmly_updateLaunchIntentRunnerID hid').plainly (plainly_proceed hstamps ⟨hgiven, hid⟩) hrelease

omit hstamps

theorem runnerName_ne_empty (cfg : ScalerConfig) (suffix : String) : Utf8.toString (runnerNameOf cfg suffix) ≠ "" := by
  have hne : runnerNameOf cfg suffix ≠ [] := List.append_ne_nil_of_right_ne_nil _ (List.cons_ne_nil _ _)
  intro h
  exact Utf8.decode_ne_nil hne (String.toList_ofList.symm.trans (congrArg String.toList h))

theorem calmly_clearLaunchRetry : Calmly cfg terms (fun _ => True) clearLaunchRetry :=
  calmly_note (fun _ => rfl) fun _ => .beside rfl rfl rfl (Or.inl rfl)

theorem calmly_scheduleLaunchRetry : Calmly cfg terms (fun _ => True) scheduleLaunchRetry :=
  calmly_now.bind fun _ _ => calmly_note (fun _ => rfl) fun _ => .beside rfl rfl rfl (Or.inl rfl)

/-! ### Messages and signals -/

theorem plainly_handleJob (runnerName : String) (runnerID : Int) {f : Int → RunnerRecord → RunnerRecord}
    (hf : ∀ now r, SameRunner r (f now r)) : Plainly cfg terms (fun _ => True) (handleJob runnerName runnerID f) := by
  refine calmly_now.plainly.bind fun now _ => Keeps.atomic fun w _ hw _ => ?_
  have hkept : w.books.Ok cfg.targetKey terms.stamp ∧ Plain w w := ⟨hw, Calm.toPlain (.outside rfl rfl (Or.inl rfl))⟩
  cases hfound : w.scaler.findRunner runnerName runnerID with
  | none =>
    simp only [ScalerWorld.update, hfound]
    exact ⟨hkept.1, hkept.2, trivial⟩
  | some runner =>
    simp only [ScalerWorld.update, hfound]
    split
    · exact ⟨hkept.1, hkept.2, trivial⟩
    · obtain ⟨hbooks, hplain⟩ := updateRunner_plain hw runner.key (hf now)
      exact ⟨hbooks, hplain, trivial⟩

theorem applyLogState_plain {w : ScalerWorld} (hw : w.books.Ok cfg.targetKey terms.stamp) (containerID : String)
    (signal : LogSignal)
    (now : Int) : (w.update (·.applyLogState containerID signal now)).books.Ok cfg.targetKey terms.stamp ∧
      Plain w (w.update (·.applyLogState containerID signal now)) := by
  have hkept : w.books.Ok cfg.targetKey terms.stamp ∧ Plain w w := ⟨hw, Calm.toPlain (.outside rfl rfl (Or.inl rfl))⟩
  unfold Scaler.applyLogState
  cases hfound : w.scaler.findRunnerByContainer containerID with
  | none =>
    simp only [ScalerWorld.update, hfound]
    exact hkept
  | some runner =>
    simp only [ScalerWorld.update, hfound]
    split
    · exact hkept
    · exact updateRunner_plain hw runner.key fun _ => ⟨rfl, rfl, rfl, rfl⟩

theorem plainly_applyLogState (containerID : String) (signal : LogSignal) :
    Plainly cfg terms (fun _ => True) (applyLogState containerID signal) :=
  calmly_now.plainly.bind fun now _ => Keeps.atomic fun _ _ hw _ =>
    ⟨(applyLogState_plain hw containerID signal now).1, (applyLogState_plain hw containerID signal now).2, trivial⟩

/-! ### Shutdown -/

theorem plainly_parAll {p : RunnerRecord → ScalerProg α} (branch : ScalerReply → Nat) {runners : List RunnerRecord}
    (hp : ∀ r ∈ runners, Plainly cfg terms (fun _ => True) (p r)) (i : Nat) :
    Plainly cfg terms (fun _ => True) (parAll branch i (runners.map p)) := by
  induction runners generalizing i with
  | nil => exact Keeps.pure trivial
  | cons runner runners ih =>
    have hrest := ih (fun r hr => hp r (List.mem_cons_of_mem _ hr)) (i + 1)
    exact Keeps.bind (Keeps.par (fun _ _ _ => trivial) (hp runner List.mem_cons_self) hrest) fun _ _ =>
      Keeps.pure trivial

include hstamps

theorem plainly_shutDownIdle {runner : RunnerRecord} (h : RunnerOk runner.key runner) :
    Plainly cfg terms (fun _ => True) (shutDownIdle cfg runner) := by
  refine Keeps.cond (calmly_beginPendingRegistrationFence hstamps h .shutdown).plainly ?_ (Keeps.pure trivial)
  refine (calmly_removeRunner _ .shutdown nofun).plainly.seq fun answer => ?_
  split
  · refine (plainly_resolvePendingRegistrationFence _).seq fun _ =>
      Keeps.cond (calmly_stopAndRemove _ _).plainly ?_ (Keeps.pure trivial)
    exact (plainly_settleStoppedRunner _).seq fun _ => Keeps.pure trivial
  · exact Keeps.pure trivial

omit hstamps in
theorem plainly_shutDownRemaining (preserved : List String) (runner : RunnerRecord) :
    Plainly cfg terms (fun _ => True) (shutDownRemaining cfg preserved runner) := by
  unfold shutDownRemaining
  split
  · exact Keeps.pure trivial
  · exact Keeps.cond (calmly_stopContainer _).plainly ((plainly_settleStoppedRunner _).seq fun _ => Keeps.pure trivial)
      (Keeps.pure trivial)

theorem plainly_shutdown : Plainly cfg terms (fun _ => True) (shutdown cfg) := by
  have hidle :
      Plainly cfg terms (fun runners => ∀ r ∈ runners, RunnerOk r.key r) (ScalerProg.gets (·.idleRunners)) := by
    refine Calmly.plainly (calmly_gets _ fun w hw r hr => ?_)
    unfold Scaler.idleRunners Scaler.oldest at hr
    exact (hw.record (List.mem_of_mem_filter ((List.mem_insertionSort _).mp hr))).1
  refine hidle.bind fun idle hok => ?_
  refine Keeps.seq (plainly_parAll _ (fun r hr => plainly_shutDownIdle hstamps (hok r hr)) 0) fun preserved => ?_
  refine (calmly_reads _).plainly.seq fun remaining => ?_
  exact Keeps.seq (plainly_parAll _ (fun r _ => plainly_shutDownRemaining _ r) 0) fun _ => Keeps.pure trivial

end Programs
end PitCrew.Autoscaler
