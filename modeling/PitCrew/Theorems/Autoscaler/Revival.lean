import PitCrew.Autoscaler.Recovery
import PitCrew.Theorems.Autoscaler.Retirement

/-! # Recovery and the workers it has started

The list of recovered containers says of each whether it was started when the manager came up. An attempt to
start the controller that fails is repeated with the same list, and takes a container that the earlier attempt
has started for one that never ran. It then stops it if the coordinator or Docker fails; as long as they do
not, recovery stops no worker that it has started. -/

namespace PitCrew.Autoscaler
open Base Prog

abbrev ScalerTransition := Transition ScalerSystem ScalerEvent Unit

/-! ## Calls -/

def Call.stopped : Call → Option String
  | .stopAndRemove containerID _ _ => some containerID
  | _ => none

/-- The container for which recovery could not confirm the lease, or which did not start. -/
def Call.unconfirmed : Call → Option String
  | .confirm containerID false => some containerID
  | .start containerID false => some containerID
  | _ => none

def ScalerEvent.recovers : ScalerEvent → Bool
  | .recovery _ => true
  | _ => false

/-- GitHub has confirmed that the registration of the container's runner is gone. -/
def ScalerWorld.deregistered (w : ScalerWorld) (containerID : String) : Bool :=
  w.trace.any fun
    | .removeRunner id _ .removed => w.created.lookup containerID = some id
    | _ => false

/-- Recovery stops no container that it has started in this process, unless its registration is known to be
    gone or it has been seen not to run. -/
def SparesRevived (t : ScalerTransition) : Prop :=
  ∀ call ∈ t.before.world.newCall t.after.world, ∀ id ∈ call.stopped, t.event.recovers = true → id ∈ t.before.revived →
    t.before.world.deregistered id = true ∨ .exited id ∈ t.before.world.trace

/-- Recovery confirms the lease of each container that it has started in this process, and starting it again
    succeeds. -/
def ConfirmsRevived (t : ScalerTransition) : Prop :=
  ∀ call ∈ t.before.world.newCall t.after.world, ∀ id ∈ call.unconfirmed, t.event.recovers = true →
    id ∉ t.before.revived

instance : DecidablePred SparesRevived := fun t => inferInstanceAs (Decidable (∀ call ∈ t.before.world.newCall _, _))

instance : DecidablePred ConfirmsRevived := fun t => inferInstanceAs (Decidable (∀ call ∈ t.before.world.newCall _, _))

section
variable {s t : ScalerWorld} {call : Call} {R : Finset String}

theorem newCall_eq (h : t.trace = call :: s.trace) : s.newCall t = some call := by
  unfold ScalerWorld.newCall
  rw [h]
  exact if_pos rfl

theorem newCall_eq_none (h : t.trace = s.trace) : s.newCall t = none := by
  unfold ScalerWorld.newCall
  rw [h]
  split
  · rfl
  · next call calls hs => exact if_neg fun heq => List.cons_ne_self call calls (hs ▸ heq.symm)

/-! ## Recovery -/

def recoveryNotes : Notes ScalerWorld (Finset String) where
  note := noteStart
  may R s t := ∀ call ∈ s.newCall t, ∀ id ∈ call.unconfirmed, id ∉ R
  good R s t := ∀ call ∈ s.newCall t, ∀ id ∈ call.stopped, id ∉ R

def Call.Still (call : Call) : Prop := call.stopped = none ∧ call.started = none

def Still {α : Type} (p : ScalerProg α) : Prop := ∀ R, p.Noted recoveryNotes (fun _ R' => R' = R) R

theorem noteStart_of_newCall (h : ∀ call ∈ s.newCall t, call.started = none) : noteStart R s t = R := by
  unfold noteStart
  cases hcall : s.newCall t with
  | none => rfl
  | some call => rw [Option.bind_some, h call hcall]

theorem good_of_still (h : ∀ call ∈ s.newCall t, call.Still) :
    recoveryNotes.good R s t ∧ recoveryNotes.note R s t = R := by
  refine ⟨fun call hcall id hid => ?_, noteStart_of_newCall fun call hcall => (h call hcall).2⟩
  rw [(h call hcall).1] at hid
  cases hid

end

section Still
variable {α β : Type} {p : ScalerProg α} {k : α → ScalerProg β}

theorem still_atomic {f : ScalerWorld → ScalerReply → α × ScalerWorld}
    (h : ∀ (s : ScalerWorld) c, ∀ call ∈ s.newCall (f s c).2, call.Still) : Still (Prog.atomic f) :=
  fun _ => Noted.atomic fun s c _ => good_of_still (h s c)

theorem still_silent {f : ScalerWorld → ScalerReply → α × ScalerWorld} (h : ∀ s c, (f s c).2.trace = s.trace) :
    Still (Prog.atomic f) :=
  still_atomic fun s c call hcall => by rw [newCall_eq_none (h s c)] at hcall; cases hcall

theorem still_call {f : ScalerWorld → ScalerReply → α × ScalerWorld}
    (h : ∀ s c, ∃ call, (f s c).2.trace = call :: s.trace ∧ call.Still) : Still (Prog.atomic f) :=
  still_atomic fun s c call hcall => by
    obtain ⟨call', htrace, hstill⟩ := h s c
    rw [newCall_eq htrace] at hcall
    obtain rfl := Option.some.inj hcall
    exact hstill

theorem still_bind (hp : Still p) (hk : ∀ a, Still (k a)) : Still (p >>= k) := by
  intro R
  refine (hp R).bind fun a R' hR => ?_
  subst hR
  exact hk a _

theorem still_pure (a : α) : Still (pure a : ScalerProg α) := fun _ => rfl

theorem still_gets (f : Scaler → α) : Still (ScalerProg.gets f) := still_silent fun _ _ => rfl

theorem still_modify (f : Scaler → Scaler) : Still (ScalerProg.modify f) := still_silent fun _ _ => rfl

theorem still_cond {c : ScalerProg Bool} {q : ScalerProg α} (hc : Still c) (hp : Still p) (hq : Still q) :
    Still (c >>= fun b => if b = true then p else q) := by
  refine still_bind hc fun b => ?_
  cases b with
  | true => exact hp
  | false => exact hq

end Still

section Programs
variable {cfg : ScalerConfig}

theorem still_saveFile {write : ScalerWorld → ScalerWorld} (h : ∀ w, (write w).trace = w.trace) :
    Still (saveFile write) := by
  refine still_silent fun s c => ?_
  cases c.outcome with
  | done | unsure => exact h s
  | failed => rfl

theorem still_clearLaunchIntent : Still clearLaunchIntent := by
  refine still_cond (still_saveFile fun _ => rfl) ?_ ?_
  · exact still_bind (still_modify _) fun _ => still_pure true
  · exact still_bind (still_modify _) fun _ => still_pure false

theorem still_removeRunner {id : Int} {cause : RemovalCause} : Still (removeRunner id cause) := by
  refine still_call fun s c => ?_
  cases c.outcome with
  | done =>
    dsimp only
    split_ifs
    all_goals exact ⟨_, rfl, rfl, rfl⟩
  | failed => exact ⟨_, rfl, rfl, rfl⟩
  | unsure => exact ⟨_, rfl, rfl, rfl⟩

theorem still_persistPendingRegistrations {records : Map String RegistrationCleanupRecord} :
    Still (persistPendingRegistrations records) :=
  still_bind (still_saveFile fun _ => rfl) fun _ => still_bind (still_modify _) fun _ => still_pure _

theorem still_resolvePendingRegistration {slotKey : String} : Still (resolvePendingRegistration slotKey) := by
  refine still_bind (still_silent fun _ _ => rfl) fun records => ?_
  cases records with
  | none => exact still_pure ()
  | some records => exact still_bind still_persistPendingRegistrations fun _ => still_pure ()

theorem still_attemptPendingRegistrationCleanup {record : RegistrationCleanupRecord} :
    Still (attemptPendingRegistrationCleanup record) := by
  refine still_bind still_removeRunner fun answer => ?_
  split_ifs
  · exact still_bind still_resolvePendingRegistration fun _ => still_pure true
  · exact still_pure false

theorem still_removeLaunchIntentRegistration : Still removeLaunchIntentRegistration := by
  refine still_bind (still_gets _) fun intent => ?_
  cases intent with
  | none => exact still_pure false
  | some record =>
    dsimp only
    split_ifs
    · exact still_pure false
    · refine still_bind still_removeRunner fun answer => ?_
      split_ifs
      · exact still_clearLaunchIntent
      · exact still_pure false

theorem still_removeRegistrationOrEnqueue {runner : RunnerRecord} : Still (removeRegistrationOrEnqueue cfg runner) := by
  unfold removeRegistrationOrEnqueue
  split_ifs
  · exact still_removeLaunchIntentRegistration
  · have hbegin : Still (beginPendingRegistrationCleanup cfg runner) :=
      still_bind (still_silent fun _ _ => rfl) fun _ => still_bind still_persistPendingRegistrations fun _ =>
        still_pure _
    refine still_bind hbegin fun begun => ?_
    dsimp only
    split_ifs
    · exact still_cond still_clearLaunchIntent still_attemptPendingRegistrationCleanup (still_pure false)
    · exact still_pure false

theorem still_persistPendingHostLeaseReleases {records : Map String HostLeaseCleanupRecord} :
    Still (persistPendingHostLeaseReleases records) := by
  refine still_silent fun s c => ?_
  cases c.outcome with
  | done | failed | unsure => rfl

theorem still_release {key : String} : Still (HostAdmission.release key) := by
  refine still_silent fun s c => ?_
  dsimp only
  split_ifs
  · cases c.outcome with
    | done | failed | unsure => rfl
  · rfl

theorem still_attemptPendingHostLeaseRelease {record : HostLeaseCleanupRecord} :
    Still (attemptPendingHostLeaseRelease cfg record) := by
  refine still_cond still_release ?_ ?_
  · refine still_bind (still_bind (still_silent fun _ _ => rfl) fun records => ?_) fun _ => still_pure true
    cases records with
    | none => exact still_pure ()
    | some records => exact still_bind still_persistPendingHostLeaseReleases fun _ => still_pure ()
  · refine still_bind (still_bind (still_silent fun _ _ => rfl) fun _ => ?_) fun _ => still_pure false
    exact still_bind still_persistPendingHostLeaseReleases fun _ => still_pure ()

theorem still_releaseHostLeaseOrEnqueue {runnerKey hostSlotKey : String} :
    Still (releaseHostLeaseOrEnqueue cfg runnerKey hostSlotKey) := by
  unfold releaseHostLeaseOrEnqueue
  split_ifs
  · exact still_pure true
  · refine still_bind (still_silent fun _ _ => rfl) fun _ => ?_
    exact still_bind still_persistPendingHostLeaseReleases fun _ => still_attemptPendingHostLeaseRelease

theorem still_bindRegistration {key name : String} : Still (HostAdmission.bindRegistration key name) := by
  refine still_silent fun s c => ?_
  split
  · rfl
  · cases c.outcome with
    | done | failed | unsure => rfl

theorem still_adopt {key : String} : Still (HostAdmission.adopt key) := by
  refine still_silent fun s c => ?_
  cases c.outcome with
  | done | failed | unsure => rfl

end Programs

/-! ### Containers -/

section Containers
variable {cfg : ScalerConfig} {found : RecoveredContainer} {R : Finset String} {key : String}

abbrev Spares {α : Type} (p : ScalerProg α) (R : Finset String) : Prop := p.Noted recoveryNotes (fun _ _ => True) R

theorem Still.spares {α : Type} {p : ScalerProg α} (h : Still p) : Spares p R := (h R).mono fun _ _ _ => trivial

theorem stopAndRemove_noted (h : key ∉ R) (abandoned : Bool) :
    (stopAndRemove key abandoned).Noted recoveryNotes (fun _ R' => R' = R) R := by
  refine Noted.atomic fun s c _ => ?_
  cases c.outcome with
  | done | failed | unsure =>
    refine ⟨?_, noteStart_of_newCall ?_⟩
    · intro call hcall id hid
      rw [newCall_eq rfl] at hcall
      cases hcall
      cases hid
      exact h
    · rw [newCall_eq rfl]
      rintro _ ⟨⟩
      rfl

theorem discard_spares (h : found.containerID ∉ R) : Spares (found.discard cfg key) R := by
  refine (still_removeRegistrationOrEnqueue R).bind fun _ R' hR => ?_
  subst hR
  refine (stopAndRemove_noted h true).bind fun _ R' _ => ?_
  exact (still_bind still_releaseHostLeaseOrEnqueue fun _ => still_pure _).spares

theorem still_insert {replay adopted : Bool} : Still (found.insert cfg key replay adopted) := by
  refine still_cond (still_silent fun s c => ?_) ?_ (still_pure false)
  · dsimp only
    split_ifs
    · rfl
    · rfl
  · split_ifs
    · refine still_bind (still_silent fun s c => ?_) fun _ => still_pure true
      split
      · rfl
      · split_ifs
        · rfl
        · rfl
    · exact still_pure true

theorem noteLease_noted (ok : Bool) :
    (found.noteLease ok).Noted recoveryNotes (fun _ R' => R' = R ∧ (ok = false → found.containerID ∉ R)) R := by
  refine Noted.atomic fun s c hmay => ?_
  have hnew : s.newCall (s.log (.confirm found.containerID ok)) = some (.confirm found.containerID ok) := newCall_eq rfl
  have hstill : recoveryNotes.good R s (s.log (.confirm found.containerID ok)) ∧
      recoveryNotes.note R s (s.log (.confirm found.containerID ok)) = R := by
    refine good_of_still fun call h => ?_
    rw [hnew] at h
    cases h
    exact ⟨rfl, rfl⟩
  refine ⟨hstill.1, hstill.2, ?_⟩
  rintro rfl
  exact hmay _ hnew _ rfl

theorem startContainer_noted : (startContainer key).Noted recoveryNotes (fun ok R' => ok = false → key ∉ R') R := by
  have hfailed : ∀ s t : ScalerWorld, t.trace = .start key false :: s.trace → recoveryNotes.may R s t →
      recoveryNotes.good R s t ∧ key ∉ recoveryNotes.note R s t := by
    intro s t htrace hmay
    have hnew := newCall_eq htrace
    obtain ⟨hgood, hnote⟩ : recoveryNotes.good R s t ∧ recoveryNotes.note R s t = R := by
      refine good_of_still fun call h => ?_
      rw [hnew] at h
      cases h
      exact ⟨rfl, rfl⟩
    refine ⟨hgood, ?_⟩
    rw [hnote]
    exact hmay _ hnew _ rfl
  refine Noted.atomic fun s c hmay => ?_
  cases hcontainer : s.containers.lookup key with
  | none =>
    simp only [hcontainer] at hmay ⊢
    exact (hfailed s _ rfl hmay).imp_right fun h _ => h
  | some container =>
    simp only [hcontainer] at hmay ⊢
    cases houtcome : c.outcome with
    | done =>
      refine ⟨fun call h id hid => ?_, fun h => by cases h⟩
      rw [newCall_eq rfl] at h
      cases h
      cases hid
    | failed =>
      simp only [houtcome] at hmay ⊢
      exact (hfailed s _ rfl hmay).imp_right fun h _ => h
    | unsure =>
      simp only [houtcome] at hmay ⊢
      exact (hfailed s _ rfl hmay).imp_right fun h _ => h

theorem start_spares {adopted : Bool} : Spares (found.start cfg adopted) R := by
  refine startContainer_noted.bind fun ok R' h => ?_
  cases ok with
  | true => exact still_insert.spares
  | false => exact discard_spares (h rfl)

theorem still_bind_registration : Still (found.bind key) := still_bind still_bindRegistration fun _ => still_pure _

theorem confirm_spares {call next : ScalerProg Bool} (hcall : Still call) (hnext : ∀ R, Spares next R) :
    Spares (do if ← found.confirm call then next else found.discard cfg key) R := by
  have hconfirm : (found.confirm call).Noted recoveryNotes (fun ok R' => ok = false → found.containerID ∉ R') R := by
    refine (hcall R).bind fun ok R' _ => (noteLease_noted ok).bind fun _ R'' h => ?_
    exact h.1 ▸ h.2
  refine hconfirm.bind fun ok R' h => ?_
  cases ok with
  | true => exact hnext R'
  | false => exact discard_spares (h rfl)

theorem recoverCreated_spares : Spares (found.recoverCreated cfg) R := by
  refine (still_gets (·.hostAdmission) R).bind fun enabled R' _ => ?_
  cases enabled with
  | false => exact start_spares
  | true =>
    simp only [if_true]
    split_ifs
    · exact (noteLease_noted false).bind fun _ R'' h => discard_spares (h.1 ▸ h.2 rfl)
    · refine confirm_spares still_bind_registration fun _ => confirm_spares still_adopt fun _ => ?_
      exact confirm_spares still_bind_registration fun _ => start_spares

theorem recoverRunning_spares : Spares (found.recoverRunning cfg) R := by
  have hlease : ∀ key, Still (found.confirmLease key) := by
    intro key
    refine still_bind still_bindRegistration fun answer => ?_
    cases answer with
    | ok => exact still_adopt
    | failed => exact still_pure false
    | notFound => exact still_cond still_adopt still_bind_registration (still_pure false)
  have hrunning : Still (found.recoverRunning cfg) := by
    refine still_cond (still_gets _) ?_ still_insert
    exact still_bind (hlease _) fun _ => still_insert
  exact hrunning.spares

theorem recover_spares : Spares (found.recover cfg) R := by
  unfold RecoveredContainer.recover
  split_ifs
  · exact (still_pure false).spares
  · exact recoverCreated_spares
  · exact recoverRunning_spares

theorem recoverAll_spares (snapshot : List RecoveredContainer) : ∀ R, Spares (recoverAll cfg snapshot) R := by
  induction snapshot with
  | nil => exact fun R => trivial
  | cons found rest ih =>
    intro R
    refine recover_spares.bind fun ok R' _ => ?_
    cases ok with
    | true => exact ih R'
    | false => exact trivial

end Containers

/-! ## Runs -/

section Runs
variable {cfg : ScalerConfig} {s : ScalerSystem}

theorem sparesRevived_of_event {t : ScalerTransition} (h : t.event.recovers = false) : SparesRevived t := by
  intro call _ id _ hrecovers
  rw [h] at hrecovers
  cases hrecovers

theorem step_spares (e : ScalerEvent) (h : Spares s.recovery s.revived)
    (hconfirms : ConfirmsRevived ⟨s, e, (s.step cfg e).2, (s.step cfg e).1⟩) :
    Spares (s.step cfg e).1.recovery (s.step cfg e).1.revived ∧
      SparesRevived ⟨s, e, (s.step cfg e).2, (s.step cfg e).1⟩ := by
  cases e with
  | recovery reply =>
    have hmay : recoveryNotes.may s.revived s.world (s.recovery.advance s.world reply).1 :=
      fun call hcall id hid => hconfirms call hcall id hid rfl
    have hsilent : ∀ call ∈ s.world.newCall s.world, call.Still := by
      rw [newCall_eq_none rfl]
      nofun
    obtain ⟨hgood, hnext⟩ := h.advance hmay (good_of_still hsilent)
    exact ⟨hnext, fun call hcall id hid _ hrevived => absurd hrevived (hgood call hcall id hid)⟩
  | restart => exact ⟨trivial, sparesRevived_of_event rfl⟩
  | attempt =>
    refine ⟨?_, sparesRevived_of_event rfl⟩
    dsimp only [ScalerSystem.step]
    split
    · exact recoverAll_spares s.snapshot s.revived
    · exact h
  | listen =>
    refine ⟨?_, sparesRevived_of_event rfl⟩
    dsimp only [ScalerSystem.step]
    split
    · exact h
    · exact h
  | begin =>
    refine ⟨?_, sparesRevived_of_event rfl⟩
    dsimp only [ScalerSystem.step]
    split_ifs
    · exact h
    · exact h
  | older =>
    refine ⟨?_, sparesRevived_of_event rfl⟩
    dsimp only [ScalerSystem.step]
    split
    · exact h
    · exact h
  | exit =>
    refine ⟨?_, sparesRevived_of_event rfl⟩
    dsimp only [ScalerSystem.step]
    split
    · exact h
    · exact h
  | operation | announceShutdown | deregister | expire | confirmRunning | statistics =>
    exact ⟨h, sparesRevived_of_event rfl⟩

/-- Every run of a target, with any number of attempts and restarts and whatever else goes on meanwhile: if
    recovery can confirm the containers that it has started in this process, it stops none of them. -/
theorem recovery_spares_revived (cfg : ScalerConfig) (events : List ScalerEvent)
    (hconfirms : ∀ t ∈ transitions (ScalerSystem.step cfg) {} events, ConfirmsRevived t) :
    ∀ t ∈ transitions (ScalerSystem.step cfg) {} events, SparesRevived t :=
  transitions_induction_of (I := fun s : ScalerSystem => Spares s.recovery s.revived) trivial
    (fun _ e h hconfirms => step_spares e h hconfirms) hconfirms

end Runs

section Sample

def sampleScaler : ScalerConfig where
  pkg := samplePackages
  rfc := utcTime
  deterministicRetryJitter := deterministicRetryJitter Sha256.firstBytes
  targetKey := "repo"
  profileID := "acme"
  namePrefix := "pit"

/-- Every call succeeds, and GitHub registers the runner under the name it was asked for. -/
def sampleReply : ScalerReply := { text := "a", runnerID := 1, runnerName := "pit-repo-a", granted := 1 }

/-- A manager comes up with host admission and is told of one job. -/
def jobAssigned : List ScalerEvent := [.restart {}, .attempt 1 {}, .listen, .begin (.desiredRunnerCount 1)]

/-- The manager crashes after it has created the worker's container, and the next one recovers it. The attempt
    fails for another reason and is repeated. -/
def repeatedRecovery (second : List ScalerEvent) : List ScalerEvent :=
  jobAssigned ++ List.replicate 33 (.operation sampleReply) ++ [.restart {}, .attempt 1 {}] ++
    List.replicate 12 (.recovery sampleReply) ++ [.attempt 1 {}] ++ second

/-- The repeated attempt confirms the container again. -/
theorem recovery_spares_revived_repeated :
    let events := repeatedRecovery (List.replicate 12 (.recovery sampleReply))
    (ScalerSystem.run sampleScaler events).revived = {"a"} ∧
      ∀ t ∈ transitions (ScalerSystem.step sampleScaler) {} events, SparesRevived t := by
  refine ⟨by decide +kernel, ?_⟩
  exact recovery_spares_revived sampleScaler _ (by decide +kernel)

/-- In the repeated attempt the coordinator fails once: the worker that the first one has started is stopped,
    though GitHub has just answered that a job is running on it. -/
theorem repeated_recovery_stops_worker :
    let events := repeatedRecovery (.recovery {} :: .recovery { outcome := .failed } ::
      List.replicate 9 (.recovery { jobRunning := true }))
    let s := ScalerSystem.run sampleScaler events
    .stopAndRemove "a" true true ∈ s.world.trace ∧ .removeRunner 1 .cleanup .jobStillRunning ∈ s.world.trace ∧
      ¬ ∀ t ∈ transitions (ScalerSystem.step sampleScaler) {} events, SparesRevived t := by
  decide +kernel

end Sample
end PitCrew.Autoscaler
