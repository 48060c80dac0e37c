import PitCrew.Theorems.Autoscaler.Backoff
import PitCrew.Theorems.Autoscaler.Retirement

/-! # Pacing of the control plane

A gate that has recorded a rate limit lets nobody pass before its deadline, and while it is limited the
deadline only moves on: every later one is set at a later time with a delay that is at least as long. What a
step can do to the gate is said once (`Acts`); the deadline (`Closed`) and the state that the file may hold
(`Stored`) are carried along runs from there. -/

namespace PitCrew.Autoscaler
open Base

/-! ## Delays -/

section Delays
variable (sha256 : String → UInt8 × UInt8)

theorem crash_jitter_lt (identity : String) :
    deterministicRetryJitter sha256 identity controlPlaneCrashRetryJitter < controlPlaneCrashRetryJitter := by
  have hwindow : controlPlaneCrashRetryJitter.tdiv second = 15 := by decide
  rw [deterministicRetryJitter, hwindow, if_neg (by decide)]
  have hlt := Int.tmod_lt_of_pos ((sha256 identity).1.toNat <<< 8 ||| (sha256 identity).2.toNat : Nat)
    (by decide : (0 : Int) < 15)
  exact mul_lt_mul_of_pos_right hlt (by decide)

theorem access_jitter_le (identity : String) :
    deterministicRetryJitter sha256 identity registrationAccessJitterWindow ≤ registrationAccessJitterWindow := by
  have hwindow : registrationAccessJitterWindow.tdiv second = 300 := by decide
  rw [deterministicRetryJitter, hwindow, if_neg (by decide)]
  have hlt := Int.tmod_lt_of_pos ((sha256 identity).1.toNat <<< 8 ||| (sha256 identity).2.toNat : Nat)
    (by decide : (0 : Int) < 300)
  exact mul_le_mul_of_nonneg_right hlt.le (by decide)

variable (profileID : String)

theorem limitDelay_capped {k failures : Int} (hcapped : failures = min k maxRegistrationCleanupAttempts)
    (h : 1 ≤ failures) :
    registrationAccessNextDelay sha256 profileID k true =
      registrationAccessNextDelay sha256 profileID failures true := by
  have hmax : maxRegistrationCleanupAttempts = 1000 := rfl
  -- three failures are enough for the longest delay
  have hlongest :
    ∀ n : Int, 3 ≤ n → boundedExponentialBackoff registrationAccessRateLimitBase registrationAccessMaxBackoff n =
      registrationAccessMaxBackoff := by
    intro n hn
    have hmem := boundedExponentialBackoff_mem (show 0 < registrationAccessRateLimitBase by decide)
      (show registrationAccessRateLimitBase ≤ registrationAccessMaxBackoff by decide) (by decide)
        (hn.trans' (by decide))
    have hmono := boundedExponentialBackoff_mono (show 0 < registrationAccessRateLimitBase by decide)
      (show 0 < registrationAccessMaxBackoff by decide) (by decide) (by decide) hn
    have hthree :
        boundedExponentialBackoff registrationAccessRateLimitBase registrationAccessMaxBackoff 3 =
          registrationAccessMaxBackoff := by
      decide
    omega
  rcases le_total k maxRegistrationCleanupAttempts with hk | hk
  · rw [hcapped, min_eq_left hk]
  · rw [limitDelay_eq sha256 profileID (by omega), limitDelay_eq sha256 profileID h, hlongest k (by omega),
      hlongest failures (by omega)]

theorem crashDelay_le_limitDelay {g : ControlPlaneRateGate} {k : Int} (h : 1 ≤ k) :
    g.crashRetryDelay sha256 ≤ registrationAccessNextDelay sha256 profileID k true := by
  have hcrash := crash_jitter_lt sha256 g.profileID
  have hjitter := jitter_nonneg sha256 profileID registrationAccessJitterWindow
  have hlongest :
      controlPlaneCrashRetryBase + controlPlaneCrashRetryJitter ≤ registrationAccessRateLimitBase := by decide
  have hbackoff := boundedExponentialBackoff_mem (show 0 < registrationAccessRateLimitBase by decide)
    (show registrationAccessRateLimitBase ≤ registrationAccessMaxBackoff by decide) (by decide) h
  rw [limitDelay_eq sha256 profileID h]
  unfold ControlPlaneRateGate.crashRetryDelay registrationAccessJitter
  omega

def longestDelay : Int := registrationAccessMaxBackoff + registrationAccessJitterWindow

theorem limitDelay_bounds {k : Int} (h : 1 ≤ k) :
    0 ≤ registrationAccessNextDelay sha256 profileID k true ∧
      registrationAccessNextDelay sha256 profileID k true ≤ longestDelay := by
  have hjitter := jitter_nonneg sha256 profileID registrationAccessJitterWindow
  have hwindow := access_jitter_le sha256 profileID
  have hbackoff := boundedExponentialBackoff_mem (show 0 < registrationAccessRateLimitBase by decide)
    (show registrationAccessRateLimitBase ≤ registrationAccessMaxBackoff by decide) (by decide) h
  have hbase : 0 < registrationAccessRateLimitBase := by decide
  rw [limitDelay_eq sha256 profileID h, longestDelay]
  unfold registrationAccessJitter
  omega

end Delays

/-! ## What a step does -/

def ControlPlaneEvent.isRestart : ControlPlaneEvent → Bool
  | .restart .. => true
  | _ => false

namespace ControlPlaneSystem
variable (cfg : ControlPlaneSetting)

/-- The step records a rate limit: an operation or a session reports one. -/
inductive Limits (s : ControlPlaneSystem) (g : ControlPlaneRateGate) :
    ControlPlaneEvent → ControlPlaneRateGate → Nat → Prop
  | after {operationErr : Option OperationError} {write : Outcome} {n : Nat}
      (limit : classifyFailure cfg.lower operationErr = .rateLimited) (operations : s.operations = n + 1) :
      Limits s g (.after operationErr write) { g with inFlight := g.inFlight - 1 } n
  | observe {operationErr : Option OperationError} {write : Outcome}
      (limit : classifyFailure cfg.lower operationErr = .rateLimited) :
      Limits s g (.observe operationErr write) g s.operations

/-- What a step of a running gate does, except for the clock and restarts. -/
inductive Acts (s : ControlPlaneSystem) (g : ControlPlaneRateGate) :
    ControlPlaneEvent → ControlPlaneSystem → ControlPlaneReply → Prop
  | idle {e : ControlPlaneEvent} {reply : ControlPlaneReply} (unchanged : ∀ write, e ≠ .before write) :
      Acts s g e s reply
  | refused {write : Outcome} (closed : g.rateLimited = true ∨ g.inFlight = 0) (early : s.now < g.nextAttemptAt) :
      Acts s g (.before write) s (.returned (some (.backoff g.nextAttemptAt)))
  | joined {write : Outcome} (busy : g.inFlight ≠ 0) (due : g.rateLimited = true → g.nextAttemptAt ≤ s.now) :
      Acts s g (.before write)
        { s with gate := some { g with inFlight := g.inFlight + 1 }, operations := s.operations + 1 } (.returned none)
  | opened {write : Outcome} {file : ControlPlaneFile} (quiet : g.inFlight = 0) (due : g.nextAttemptAt ≤ s.now)
      (written : file = s.file ∨ file = .state ((g.guarded cfg.sha256 s.now).retryState cfg.rfc)) :
      Acts s g (.before write)
        { s with
          gate := some { g.guarded cfg.sha256 s.now with inFlight := g.inFlight + 1 }, file
          operations := s.operations + 1 }
        (.returned none)
  | unsaved {write : Outcome} {file : ControlPlaneFile} (quiet : g.inFlight = 0) (due : g.nextAttemptAt ≤ s.now)
      (written : file = s.file ∨ file = .state ((g.guarded cfg.sha256 s.now).retryState cfg.rfc)) :
      Acts s g (.before write) { s with gate := some (g.guarded cfg.sha256 s.now), file } (.returned (some .save))
  | limited {e : ControlPlaneEvent} {g' : ControlPlaneRateGate} {n : Nat} {file : ControlPlaneFile}
      {err : Option ControlPlaneError} (limits : Limits cfg s g e g' n)
      (written : file = s.file ∨ file = .state ((g'.limited cfg.sha256 s.now).retryState cfg.rfc))
      (saved : g.path ≠ "" → err = none → file = .state ((g'.limited cfg.sha256 s.now).retryState cfg.rfc)) :
      Acts s g e { s with gate := some (g'.limited cfg.sha256 s.now), file, operations := n } (.returned err)
  | ended {operationErr : Option OperationError} {write : Outcome} {n : Nat} {file : ControlPlaneFile}
      {err : Option ControlPlaneError} (operations : s.operations = n + 1) (written : file = s.file ∨ file = .absent) :
      Acts s g (.after operationErr write) { s with gate := some { g with inFlight := g.inFlight - 1 }, file,
                                                    operations := n }
        (.returned err)
  | cleared {operationErr : Option OperationError} {write : Outcome} {n : Nat} {file : ControlPlaneFile}
      (operations : s.operations = n + 1) (fine : classifyFailure cfg.lower operationErr ≠ .rateLimited)
      (alone : g.inFlight - 1 = 0) (unlimited : g.rateLimited = false) (written : file = s.file ∨ file = .absent) :
      Acts s g (.after operationErr write)
        { s with
          gate := some { g with inFlight := g.inFlight - 1, consecutiveFailures := 0, nextAttemptAt := 0 }, file,
          operations := n }
        (.returned none)

theorem saveLocked_cases (rfc : Rfc3339) (g : ControlPlaneRateGate) (file : ControlPlaneFile) (write : Outcome) :
    ((g.saveLocked rfc file write).1 = file ∨ (g.saveLocked rfc file write).1 = .state (g.retryState rfc)) ∧
      (g.path ≠ "" → (g.saveLocked rfc file write).2 = true →
        (g.saveLocked rfc file write).1 = .state (g.retryState rfc)) := by
  unfold ControlPlaneRateGate.saveLocked
  split
  next hpath => exact ⟨Or.inl rfl, fun h => absurd hpath h⟩
  · cases write <;> simp

theorem clearLocked_cases (g : ControlPlaneRateGate) (file : ControlPlaneFile) (write : Outcome) :
    (g.clearLocked file write).1 = file ∨ (g.clearLocked file write).1 = .absent := by
  unfold ControlPlaneRateGate.clearLocked
  split
  · exact Or.inl rfl
  · cases write <;> simp

theorem acts_before {s : ControlPlaneSystem} {g : ControlPlaneRateGate} (hgate : s.gate = some g) (write : Outcome) :
    Acts cfg s g (.before write) (step cfg s (.before write)).1 (step cfg s (.before write)).2 := by
  obtain ⟨now, file, gate, operations⟩ := s
  obtain rfl : gate = some g := hgate
  simp only [step, ControlPlaneRateGate.before]
  split
  next h => exact .refused h.1 h.2
  next h =>
    have hdue (hclosed : g.rateLimited = true ∨ g.inFlight = 0) : g.nextAttemptAt ≤ now :=
      not_lt.mp fun hearly => h ⟨hclosed, hearly⟩
    split
    next hquiet =>
      have hwritten := (saveLocked_cases cfg.rfc (g.guarded cfg.sha256 now) file write).1
      split
      · exact .opened hquiet (hdue (Or.inr hquiet)) hwritten
      · exact .unsaved hquiet (hdue (Or.inr hquiet)) hwritten
    next hbusy => exact .joined hbusy fun hlimited => hdue (Or.inl hlimited)

theorem acts_limited {s : ControlPlaneSystem} {g g' : ControlPlaneRateGate} {e : ControlPlaneEvent} {n : Nat}
    (limits : Limits cfg s g e g' n) (write : Outcome) :
    Acts cfg s g e
      { s with
        gate := some (g'.recordRateLimitLocked cfg.sha256 cfg.rfc s.now s.file write).1
        file := (g'.recordRateLimitLocked cfg.sha256 cfg.rfc s.now s.file write).2.1
        operations := n }
      (.returned (g'.recordRateLimitLocked cfg.sha256 cfg.rfc s.now s.file write).2.2) := by
  obtain ⟨hwritten, hsaved⟩ := saveLocked_cases cfg.rfc (g'.limited cfg.sha256 s.now) s.file write
  refine .limited limits hwritten fun hpath herr => hsaved ?_ ?_
  · cases limits <;> exact hpath
  · simpa [ControlPlaneRateGate.recordRateLimitLocked] using herr

theorem acts_after {s : ControlPlaneSystem} {g : ControlPlaneRateGate} (hgate : s.gate = some g)
    (operationErr : Option OperationError) (write : Outcome) :
    Acts cfg s g (.after operationErr write) (step cfg s (.after operationErr write)).1
      (step cfg s (.after operationErr write)).2 := by
  obtain ⟨now, file, gate, operations⟩ := s
  obtain rfl : gate = some g := hgate
  cases operations with
  | zero => exact .idle fun _ h => ControlPlaneEvent.noConfusion h
  | succ n =>
    simp only [step, ControlPlaneRateGate.after]
    split
    next hlimit => exact acts_limited cfg (.after hlimit rfl) write
    next hfine =>
      split
      · exact .ended rfl (Or.inl rfl)
      next hopen =>
        rw [not_or, not_lt, Nat.le_zero, Bool.not_eq_true] at hopen
        have hwritten := clearLocked_cases { g with inFlight := g.inFlight - 1 } file write
        split
        · exact .cleared rfl hfine hopen.1 hopen.2 hwritten
        · exact .ended rfl hwritten

theorem acts_observe {s : ControlPlaneSystem} {g : ControlPlaneRateGate} (hgate : s.gate = some g)
    (operationErr : Option OperationError) (write : Outcome) :
    Acts cfg s g (.observe operationErr write) (step cfg s (.observe operationErr write)).1
      (step cfg s (.observe operationErr write)).2 := by
  obtain ⟨now, file, gate, operations⟩ := s
  obtain rfl : gate = some g := hgate
  simp only [step, ControlPlaneRateGate.observe]
  split
  · exact .idle fun _ h => ControlPlaneEvent.noConfusion h
  next hlimit => exact acts_limited cfg (.observe (not_not.mp hlimit)) write

theorem step_cases (s : ControlPlaneSystem) {e : ControlPlaneEvent} (hrestart : e.isRestart = false) :
    (∃ elapsed : Nat, step cfg s e = ({ s with now := s.now + elapsed }, .idle)) ∨
      ∃ g, s.gate = some g ∧ Acts cfg s g e (step cfg s e).1 (step cfg s e).2 := by
  obtain ⟨now, file, gate, operations⟩ := s
  cases e with
  | tick elapsed => exact Or.inl ⟨elapsed, rfl⟩
  | restart => exact absurd hrestart Bool.noConfusion
  | before write =>
    cases gate with
    | none => exact Or.inl ⟨0, by simp [step]⟩
    | some g => exact Or.inr ⟨g, rfl, acts_before cfg rfl write⟩
  | after operationErr write =>
    cases gate with
    | none => exact Or.inl ⟨0, by simp [step]⟩
    | some g => exact Or.inr ⟨g, rfl, acts_after cfg rfl operationErr write⟩
  | observe operationErr write =>
    cases gate with
    | none => exact Or.inl ⟨0, by simp [step]⟩
    | some g => exact Or.inr ⟨g, rfl, acts_observe cfg rfl operationErr write⟩

/-! ## What holds in every run -/

def limitDelay (failures : Int) : Int := registrationAccessNextDelay cfg.sha256 cfg.profileID failures true

def guardDelay : Int :=
  controlPlaneCrashRetryBase + deterministicRetryJitter cfg.sha256 cfg.profileID controlPlaneCrashRetryJitter

def savedDelay (failures : Int) : Int := if 0 < failures then limitDelay cfg failures else guardDelay cfg

theorem guardDelay_nonneg : 0 ≤ guardDelay cfg :=
  add_nonneg (by decide) (jitter_nonneg _ _ _)

theorem guardDelay_le_savedDelay (failures : Int) : guardDelay cfg ≤ savedDelay cfg failures := by
  unfold savedDelay
  split
  next h => exact crashDelay_le_limitDelay cfg.sha256 cfg.profileID (g := { path := "", profileID := cfg.profileID }) h
  · exact le_rfl

theorem savedDelay_le (failures : Int) : savedDelay cfg failures ≤ limitDelay cfg (max failures 1) := by
  unfold savedDelay
  split
  next h => rw [max_eq_left h]
  · exact crashDelay_le_limitDelay cfg.sha256 cfg.profileID (g := { path := "", profileID := cfg.profileID })
      (le_max_right _ _)

theorem savedDelay_bounds (failures : Int) : 0 ≤ savedDelay cfg failures ∧ savedDelay cfg failures ≤ longestDelay :=
  ⟨(guardDelay_nonneg cfg).trans (guardDelay_le_savedDelay cfg failures),
    (savedDelay_le cfg failures).trans (limitDelay_bounds _ _ (le_max_right _ _)).2⟩

/-- A deadline that a gate may have at a time: none, or one that was set before with a delay. -/
def Dated (now t : Int) : Prop := -62167219200 * second ≤ t ∧ t ≤ max 0 (now + longestDelay)

theorem dated_zero (now : Int) : Dated now 0 := ⟨by decide, le_max_left _ _⟩

theorem dated_delay {now delay : Int} (hstart : -62167219200 * second ≤ now) (hnonneg : 0 ≤ delay)
    (hle : delay ≤ longestDelay) : Dated now (now + delay) :=
  ⟨hstart.trans (le_add_of_nonneg_right hnonneg), le_max_of_le_right (Int.add_le_add_left hle now)⟩

theorem Dated.later {now later t : Int} (h : Dated now t) (hle : now ≤ later) : Dated later t :=
  ⟨h.1, h.2.trans (max_le_max_left 0 (Int.add_le_add_right hle _))⟩

theorem Dated.floor {now t : Int} (h : Dated now t) : Dated now (t / second * second) :=
  ⟨Int.mul_le_mul_of_nonneg_right ((Int.le_ediv_iff_mul_le (by decide)).mpr h.1) (by decide),
    (Int.ediv_mul_le t (by decide)).trans h.2⟩

theorem Dated.fourDigitYear {now t : Int} (h : Dated now t) (hlate : FourDigitYear (now + longestDelay)) :
    FourDigitYear t :=
  ⟨h.1, h.2.trans_lt (max_lt (by decide) hlate.2)⟩

/-- The gate of a manager at a time, with so many operations on their way. -/
structure Running (now : Int) (operations : Nat) (g : ControlPlaneRateGate) : Prop where
  path : g.path ≠ ""
  profile : g.profileID = cfg.profileID
  identity : g.credentialIdentity ≠ ""
  inFlight : g.inFlight = operations
  nonneg : 0 ≤ g.consecutiveFailures
  capped : g.consecutiveFailures ≤ maxRegistrationCleanupAttempts
  counted : g.rateLimited = true → 1 ≤ g.consecutiveFailures
  deadline : g.rateLimited = true → g.nextAttemptAt ≤ now + limitDelay cfg g.consecutiveFailures
  dated : Dated now g.nextAttemptAt

structure Stored (now : Int) (state : ControlPlaneRetryState) : Prop where
  schema : state.schemaVersion = 1
  contract : state.managerContractVersion = managerContractVersion
  profile : state.profileID = cfg.profileID
  identity : state.credentialIdentity ≠ ""
  nonneg : 0 ≤ state.consecutiveFailures
  capped : state.consecutiveFailures ≤ maxRegistrationCleanupAttempts
  deadline :
    ∃ t, state.nextAttemptAt = cfg.rfc.format t ∧ Dated now t ∧ t ≤ now + savedDelay cfg state.consecutiveFailures

structure Paced (s : ControlPlaneSystem) : Prop where
  gate : ∀ g ∈ s.gate, Running cfg s.now s.operations g
  file : s.file = .absent ∨ ∃ state, s.file = .state state ∧ Stored cfg s.now state
  started : -62167219200 * second ≤ s.now

theorem attempts_nonneg : 0 ≤ maxRegistrationCleanupAttempts := by decide

section Keeps
variable {cfg} {s : ControlPlaneSystem} {g : ControlPlaneRateGate} {now : Int} {operations : Nat}

theorem Running.guarded (h : Running cfg now operations g) :
    (g.guarded cfg.sha256 now).nextAttemptAt = now + guardDelay cfg := by
  show now + g.crashRetryDelay cfg.sha256 = _
  rw [ControlPlaneRateGate.crashRetryDelay, h.profile]
  rfl

theorem Running.limited (h : Running cfg now operations g) :
    let g' := g.limited cfg.sha256 now
    1 ≤ g'.consecutiveFailures ∧ g.consecutiveFailures ≤ g'.consecutiveFailures ∧
      g'.consecutiveFailures ≤ maxRegistrationCleanupAttempts ∧
      g'.nextAttemptAt = now + limitDelay cfg g'.consecutiveFailures := by
  have hmax : maxRegistrationCleanupAttempts = 1000 := rfl
  have hnonneg := h.nonneg
  have hcapped := h.capped
  refine ⟨?_, ?_, ?_, ?_⟩
  · simp only [ControlPlaneRateGate.limited]
    split <;> omega
  · simp only [ControlPlaneRateGate.limited]
    split <;> omega
  · simp only [ControlPlaneRateGate.limited]
    split <;> omega
  · simp only [ControlPlaneRateGate.limited, limitDelay, h.profile]

theorem Stored.later {later : Int} {state : ControlPlaneRetryState} (h : Stored cfg now state) (hle : now ≤ later) :
    Stored cfg later state := by
  obtain ⟨t, ht, hdated, hdeadline⟩ := h.deadline
  exact { h with deadline := ⟨t, ht, hdated.later hle, by omega⟩ }

theorem stored_retryState (profile : g.profileID = cfg.profileID) (identity : g.credentialIdentity ≠ "")
    (nonneg : 0 ≤ g.consecutiveFailures) (capped : g.consecutiveFailures ≤ maxRegistrationCleanupAttempts)
    (dated : Dated now g.nextAttemptAt) (deadline : g.nextAttemptAt ≤ now + savedDelay cfg g.consecutiveFailures) :
    Stored cfg now (g.retryState cfg.rfc) :=
  ⟨rfl, rfl, profile, identity, nonneg, capped, g.nextAttemptAt, rfl, dated, deadline⟩

theorem Paced.elapse (h : Paced cfg s) (elapsed : Nat) : Paced cfg { s with now := s.now + elapsed } := by
  have hle : s.now ≤ s.now + elapsed := by omega
  refine ⟨fun g hg => ?_, ?_, h.started.trans hle⟩
  · have hrunning := h.gate g hg
    exact { hrunning with
      deadline := fun hlimited => (hrunning.deadline hlimited).trans (by dsimp only; omega)
      dated := hrunning.dated.later hle }
  · rcases h.file with hfile | ⟨state, hfile, hstored⟩
    · exact Or.inl hfile
    · exact Or.inr ⟨state, hfile, hstored.later hle⟩

theorem Paced.file_of_written (h : Paced cfg s) {file : ControlPlaneFile} {state : ControlPlaneRetryState}
    (written : file = s.file ∨ file = .state state) (stored : Stored cfg s.now state) :
    file = .absent ∨ ∃ state, file = .state state ∧ Stored cfg s.now state := by
  rcases written with rfl | rfl
  · exact h.file
  · exact Or.inr ⟨state, rfl, stored⟩

theorem Paced.file_of_cleared (h : Paced cfg s) {file : ControlPlaneFile} (written : file = s.file ∨ file = .absent) :
    file = .absent ∨ ∃ state, file = .state state ∧ Stored cfg s.now state := by
  rcases written with rfl | rfl
  · exact h.file
  · exact Or.inl rfl

theorem Running.dated_guarded (h : Running cfg now operations g) (hstart : -62167219200 * second ≤ now) :
    Dated now (g.guarded cfg.sha256 now).nextAttemptAt := by
  rw [h.guarded]
  exact dated_delay hstart (guardDelay_nonneg cfg) ((guardDelay_le_savedDelay cfg 0).trans (savedDelay_bounds cfg 0).2)

theorem Running.dated_limited (h : Running cfg now operations g) (hstart : -62167219200 * second ≤ now) :
    Dated now (g.limited cfg.sha256 now).nextAttemptAt := by
  obtain ⟨hpos, -, -, hdeadline⟩ := h.limited
  obtain ⟨hnonneg, hle⟩ := limitDelay_bounds cfg.sha256 cfg.profileID hpos
  rw [hdeadline]
  exact dated_delay hstart hnonneg hle

theorem Running.stored_guarded (h : Running cfg now operations g) (hstart : -62167219200 * second ≤ now) :
    Stored cfg now ((g.guarded cfg.sha256 now).retryState cfg.rfc) :=
  stored_retryState h.profile h.identity h.nonneg h.capped (h.dated_guarded hstart)
    (by rw [h.guarded]; exact Int.add_le_add_left (guardDelay_le_savedDelay cfg _) _)

theorem Running.stored_limited (h : Running cfg now operations g) (hstart : -62167219200 * second ≤ now) :
    Stored cfg now ((g.limited cfg.sha256 now).retryState cfg.rfc) := by
  obtain ⟨hpos, hle, hcapped, hdeadline⟩ := h.limited
  refine stored_retryState h.profile h.identity (by omega) hcapped (h.dated_limited hstart) (le_of_eq ?_)
  rw [hdeadline, savedDelay, if_pos (by omega)]

theorem Limits.running {e : ControlPlaneEvent} {g' : ControlPlaneRateGate} {n : Nat} (limits : Limits cfg s g e g' n)
    (h : Running cfg s.now s.operations g) : Running cfg s.now n g' := by
  cases limits with
  | after limit operations =>
    exact { h with inFlight := by show g.inFlight - 1 = _; rw [h.inFlight, operations]; rfl }
  | observe limit => exact h

theorem Paced.acts (h : Paced cfg s) (hgate : s.gate = some g) {e : ControlPlaneEvent} {s' : ControlPlaneSystem}
    {reply : ControlPlaneReply} (hacts : Acts cfg s g e s' reply) : Paced cfg s' := by
  have hrunning := h.gate g hgate
  cases hacts with
  | idle unchanged => exact h
  | refused closed early => exact h
  | joined busy due =>
    refine ⟨fun g' hg' => ?_, h.file, h.started⟩
    rw [← Option.mem_some.mp hg']
    exact { hrunning with inFlight := congrArg (· + 1) hrunning.inFlight }
  | opened quiet due written =>
    refine ⟨fun g' hg' => ?_, h.file_of_written written (hrunning.stored_guarded h.started), h.started⟩
    rw [← Option.mem_some.mp hg']
    exact { hrunning with
      inFlight := congrArg (· + 1) hrunning.inFlight
      counted := Bool.noConfusion
      deadline := Bool.noConfusion
      dated := hrunning.dated_guarded h.started }
  | unsaved quiet due written =>
    refine ⟨fun g' hg' => ?_, h.file_of_written written (hrunning.stored_guarded h.started), h.started⟩
    rw [← Option.mem_some.mp hg']
    exact { hrunning with
      counted := Bool.noConfusion
      deadline := Bool.noConfusion
      dated := hrunning.dated_guarded h.started }
  | limited limits written saved =>
    have hrunning' := limits.running hrunning
    obtain ⟨hpos, hle, hcapped, hdeadline⟩ := hrunning'.limited
    refine ⟨fun g' hg' => ?_, h.file_of_written written (hrunning'.stored_limited h.started), h.started⟩
    rw [← Option.mem_some.mp hg']
    exact { hrunning' with
      nonneg := zero_le_one.trans hpos
      capped := hcapped
      counted := fun _ => hpos
      deadline := fun _ => hdeadline.le
      dated := hrunning'.dated_limited h.started }
  | ended operations written =>
    refine ⟨fun g' hg' => ?_, h.file_of_cleared written, h.started⟩
    rw [← Option.mem_some.mp hg']
    exact { hrunning with inFlight := by show g.inFlight - 1 = _; rw [hrunning.inFlight, operations]; rfl }
  | cleared operations fine alone unlimited written =>
    refine ⟨fun g' hg' => ?_, h.file_of_cleared written, h.started⟩
    rw [← Option.mem_some.mp hg']
    exact { hrunning with
      inFlight := by show g.inFlight - 1 = _; rw [hrunning.inFlight, operations]; rfl
      nonneg := le_rfl
      capped := attempts_nonneg
      counted := fun hlimited => absurd hlimited (by simp [unlimited])
      deadline := fun hlimited => absurd hlimited (by simp [unlimited])
      dated := dated_zero _ }

/-! ## Restarts -/

theorem credentialIdentity_ne_empty (githubApp : Option String) : githubCredentialIdentity githubApp ≠ "" := by
  cases githubApp with
  | none => decide
  | some clientID =>
    intro h
    have hlength := congrArg String.length h
    simp [githubCredentialIdentity, String.length_append] at hlength

theorem newGate_path (githubApp : Option String) : (newControlPlaneRateGate cfg githubApp).path ≠ "" := by
  intro h
  have hlength := congrArg String.length h
  simp [newControlPlaneRateGate, String.length_append] at hlength

theorem newGate_running (githubApp : Option String) (now : Int) :
    Running cfg now 0 (newControlPlaneRateGate cfg githubApp) where
  path := newGate_path githubApp
  profile := rfl
  identity := credentialIdentity_ne_empty githubApp
  inFlight := rfl
  nonneg := le_rfl
  capped := attempts_nonneg
  counted := Bool.noConfusion
  deadline := Bool.noConfusion
  dated := dated_zero now

variable (cfg) in
/-- A new gate with what a state of its credential holds. -/
def restoredGate (githubApp : Option String) (state : ControlPlaneRetryState) (t : Int) : ControlPlaneRateGate :=
  { newControlPlaneRateGate cfg githubApp with
    consecutiveFailures := state.consecutiveFailures
    rateLimited := decide (0 < state.consecutiveFailures)
    nextAttemptAt := t / second * second }

section Reading
variable (hrfc : cfg.rfc.Documented) (hlate : FourDigitYear (now + longestDelay)) {t : Int}
    {state : ControlPlaneRetryState}
  (h : Stored cfg now state)
include hrfc hlate h

theorem Stored.compatible (githubApp : Option String) :
    (newControlPlaneRateGate cfg githubApp).compatible state = true := by
  rw [ControlPlaneRateGate.compatible, decide_eq_true_eq]
  rintro (hschema | hcontract | hcontract | hprofile | hfailures | hdeadline)
  · exact hschema h.schema
  · exact absurd hcontract (by rw [h.contract]; decide)
  · exact absurd hcontract (by rw [h.contract]; decide)
  · exact hprofile h.profile
  · exact absurd hfailures h.nonneg.not_gt
  · obtain ⟨t, ht, hdated, -⟩ := h.deadline
    exact hrfc.format_ne_empty (hdated.fourDigitYear hlate) (ht ▸ hdeadline)

variable (ht : state.nextAttemptAt = cfg.rfc.format t) (hdated : Dated now t)
include ht hdated

theorem Stored.floor_le : t / second * second ≤ now + savedDelay cfg state.consecutiveFailures := by
  obtain ⟨t', ht', hdated', hdeadline⟩ := h.deadline
  have hfloor : some (t / second * second) = some (t' / second * second) := by
    rw [← hrfc.parse_format t (hdated.fourDigitYear hlate), ← hrfc.parse_format t'
      (hdated'.fourDigitYear hlate), ← ht, ← ht']
  rw [Option.some.inj hfloor]
  exact (Int.ediv_mul_le t' (by decide)).trans hdeadline

theorem load_stored (githubApp : Option String) (write : Outcome) :
    (newControlPlaneRateGate cfg githubApp).load cfg.sha256 cfg.rfc now (.state state) true write =
      (if state.credentialIdentity = githubCredentialIdentity githubApp then restoredGate cfg githubApp state t
        else newControlPlaneRateGate cfg githubApp, .state state, none) := by
  have hidentity : (newControlPlaneRateGate cfg githubApp).credentialIdentity = githubCredentialIdentity githubApp :=
    rfl
  rw [ControlPlaneRateGate.load, if_neg (newGate_path githubApp), if_neg (by decide)]
  dsimp only
  rw [h.compatible hrfc hlate, if_neg (by decide), if_neg h.identity, hidentity, ht,
    hrfc.parse_format t (hdated.fourDigitYear hlate)]
  by_cases hsame : state.credentialIdentity = githubCredentialIdentity githubApp
  · rw [if_neg (not_not.mpr hsame), if_pos hsame]
    have hmin : min state.consecutiveFailures maxRegistrationCleanupAttempts = state.consecutiveFailures :=
      min_eq_left h.capped
    have hfloor := h.floor_le hrfc hlate ht hdated
    simp only [ControlPlaneRateGate.restored, hmin]
    split
    next hclamp =>
      have hzero : ¬ 0 < state.consecutiveFailures := by simpa using hclamp.1
      rw [savedDelay, if_neg hzero] at hfloor
      exact absurd hclamp.2 hfloor.not_gt
    · rfl
  · rw [if_pos hsame, if_neg hsame]

theorem restoredGate_running (githubApp : Option String) : Running cfg now 0 (restoredGate cfg githubApp state t) := by
  refine { newGate_running githubApp now with
    nonneg := h.nonneg, capped := h.capped, counted := ?_, deadline := ?_, dated := hdated.floor }
  · exact fun hlimited => of_decide_eq_true hlimited
  · intro hlimited
    have hfloor := h.floor_le hrfc hlate ht hdated
    rwa [savedDelay, if_pos (of_decide_eq_true hlimited)] at hfloor

end Reading

theorem Paced.restart (hrfc : cfg.rfc.Documented) (h : Paced cfg s) (hlate : FourDigitYear (s.now + longestDelay))
    (githubApp : Option String) (readable : Bool) (write : Outcome) :
    Paced cfg (step cfg s (.restart githubApp readable write)).1 := by
  have hpath : (newControlPlaneRateGate cfg githubApp).path ≠ "" := newGate_path githubApp
  obtain ⟨now, file, gate, operations⟩ := s
  have hfile := h.file
  simp only [step]
  cases readable with
  | false =>
    have hload : (newControlPlaneRateGate cfg githubApp).load cfg.sha256 cfg.rfc now file false write =
        (newControlPlaneRateGate cfg githubApp, file, some .unreadable) := if_neg hpath
    rw [hload]
    exact ⟨fun g hg => absurd hg (by simp), hfile, h.started⟩
  | true =>
    dsimp only at hfile
    rcases hfile with rfl | ⟨state, rfl, hstored⟩
    · rw [ControlPlaneRateGate.load, if_neg hpath, if_neg (by decide)]
      refine ⟨fun g hg => ?_, Or.inl rfl, h.started⟩
      rw [← Option.mem_some.mp hg]
      exact newGate_running githubApp now
    · obtain ⟨t, ht, hdated, -⟩ := hstored.deadline
      rw [load_stored hrfc hlate hstored ht hdated]
      refine ⟨fun g hg => ?_, Or.inr ⟨state, rfl, hstored⟩, h.started⟩
      rw [← Option.mem_some.mp hg]
      dsimp only
      split
      · exact restoredGate_running hrfc hlate hstored ht hdated githubApp
      · exact newGate_running githubApp now

theorem Paced.step_running (h : Paced cfg s) {e : ControlPlaneEvent} (hrestart : e.isRestart = false) :
    Paced cfg (ControlPlaneSystem.step cfg s e).1 := by
  rcases step_cases cfg s hrestart with ⟨elapsed, heq⟩ | ⟨g, hgate, hacts⟩
  · rw [heq]
    exact h.elapse elapsed
  · exact h.acts hgate hacts

theorem Paced.step (hrfc : cfg.rfc.Documented) (h : Paced cfg s) (hlate : FourDigitYear (s.now + longestDelay))
    (e : ControlPlaneEvent) : Paced cfg (ControlPlaneSystem.step cfg s e).1 := by
  by_cases hrestart : e.isRestart = false
  · exact h.step_running hrestart
  · cases e with
    | restart githubApp readable write => exact h.restart hrfc hlate githubApp readable write
    | _ => exact absurd rfl hrestart

/-! ## The clock -/

theorem Acts.now_eq {e : ControlPlaneEvent} {s' : ControlPlaneSystem} {reply : ControlPlaneReply}
    (hacts : Acts cfg s g e s' reply) : s'.now = s.now := by
  cases hacts <;> rfl

theorem now_le_step (s : ControlPlaneSystem) (e : ControlPlaneEvent) :
    s.now ≤ (ControlPlaneSystem.step cfg s e).1.now := by
  by_cases hrestart : e.isRestart = false
  · rcases step_cases cfg s hrestart with ⟨elapsed, heq⟩ | ⟨g, hgate, hacts⟩
    · rw [heq]
      exact le_add_of_nonneg_right (Int.natCast_nonneg elapsed)
    · exact hacts.now_eq.ge
  · cases e with
    | restart githubApp readable write => exact le_rfl
    | _ => exact absurd rfl hrestart

theorem now_le_exec (s : ControlPlaneSystem) (events : List ControlPlaneEvent) :
    s.now ≤ (Base.exec (ControlPlaneSystem.step cfg) s events).now :=
  exec_induction (I := fun later => s.now ≤ later.now) le_rfl
    (fun later e hle => hle.trans (now_le_step later e)) events

/-! ## The deadline -/

variable (cfg) in
/-- The gate lets nobody pass until the time `t`, and the next rate limit moves its deadline on. -/
structure Shut (t now : Int) (g : ControlPlaneRateGate) : Prop where
  awaited : t ≤ g.nextAttemptAt
  closed : g.rateLimited = true ∨ g.inFlight = 0
  deadline : g.nextAttemptAt ≤ now + limitDelay cfg (max g.consecutiveFailures 1)

variable (cfg) in
/-- Nobody passes before the time `t`. -/
def Closed (t : Int) (s : ControlPlaneSystem) : Prop := ∀ g ∈ s.gate, t ≤ s.now ∨ Shut cfg t s.now g

theorem closed_of_due {t : Int} (h : t ≤ s.now) : Closed cfg t s := fun _ _ => Or.inl h

theorem closed_of_shut {t : Int} {file : ControlPlaneFile} (h : Shut cfg t now g) :
    Closed cfg t { now, file, gate := some g, operations } := by
  intro g' hg'
  rw [← Option.mem_some.mp hg']
  exact Or.inr h

/-- An operation that ends leaves the gate as shut as it was: while one is on its way, the gate is shut by a
    rate limit. -/
theorem Shut.limited_of_busy {t : Int} (h : Shut cfg t now g) (hrunning : Running cfg now (operations + 1) g) :
    g.rateLimited = true := by
  rcases h.closed with hlimited | hquiet
  · exact hlimited
  · exact absurd (hrunning.inFlight.symm.trans hquiet) (Nat.succ_ne_zero _)

theorem Shut.not_due {t : Int} (h : Shut cfg t now g) (hearly : now < t) : ¬ g.nextAttemptAt ≤ now := by
  have := h.awaited
  omega

theorem shut_limited {t : Int} (hrunning : Running cfg now operations g) (huntil : t ≤ g.nextAttemptAt)
    (hdeadline : g.nextAttemptAt ≤ now + limitDelay cfg (max g.consecutiveFailures 1)) :
    Shut cfg t now (g.limited cfg.sha256 now) := by
  obtain ⟨hpos, hle, -, hnext⟩ := hrunning.limited
  have hmono : limitDelay cfg (max g.consecutiveFailures 1) ≤
      limitDelay cfg (g.limited cfg.sha256 now).consecutiveFailures :=
    limitDelay_mono _ _ (le_max_right _ _) (max_le hle hpos)
  refine ⟨by rw [hnext]; omega, Or.inl rfl, ?_⟩
  rw [hnext, max_eq_left hpos]

theorem Closed.acts {t : Int} (h : Closed cfg t s) (hpaced : Paced cfg s) (hgate : s.gate = some g)
    {e : ControlPlaneEvent} {s' : ControlPlaneSystem} {reply : ControlPlaneReply} (hacts : Acts cfg s g e s' reply) :
    Closed cfg t s' := by
  have hrunning := hpaced.gate g hgate
  rcases h g hgate with hdue | hshut
  · cases hacts <;> exact closed_of_due hdue
  by_cases hdue : t ≤ s.now
  · cases hacts <;> exact closed_of_due hdue
  have hearly := not_le.mp hdue
  cases hacts with
  | idle unchanged => exact h
  | refused closed early => exact h
  | joined busy due =>
    rcases hshut.closed with hlimited | hquiet
    · exact absurd (due hlimited) (hshut.not_due hearly)
    · exact absurd hquiet busy
  | opened quiet due written => exact absurd due (hshut.not_due hearly)
  | unsaved quiet due written => exact absurd due (hshut.not_due hearly)
  | limited limits written saved =>
    have hrunning' := limits.running hrunning
    cases limits with
    | after limit operations => exact closed_of_shut (shut_limited hrunning' hshut.awaited hshut.deadline)
    | observe limit => exact closed_of_shut (shut_limited hrunning' hshut.awaited hshut.deadline)
  | ended operations written =>
    have hlimited := hshut.limited_of_busy (operations ▸ hrunning)
    exact closed_of_shut ⟨hshut.awaited, Or.inl hlimited, hshut.deadline⟩
  | cleared operations fine alone unlimited written =>
    have hlimited := hshut.limited_of_busy (operations ▸ hrunning)
    exact absurd hlimited (by simp [unlimited])

theorem Closed.step {t : Int} (h : Closed cfg t s) (hpaced : Paced cfg s) {e : ControlPlaneEvent}
    (hrestart : e.isRestart = false) : Closed cfg t (ControlPlaneSystem.step cfg s e).1 := by
  rcases step_cases cfg s hrestart with ⟨elapsed, heq⟩ | ⟨g, hgate, hacts⟩
  · rw [heq]
    intro g hg
    rcases h g hg with hdue | hshut
    · exact Or.inl (by dsimp only; omega)
    · have hdeadline := hshut.deadline
      exact Or.inr { hshut with deadline := by dsimp only; omega }
  · exact h.acts hpaced hgate hacts

/-- Whoever passes does so at `t` or later. -/
theorem Closed.passed {t : Int} (h : Closed cfg t s) {write : Outcome}
    (hpassed : (ControlPlaneSystem.step cfg s (.before write)).2 = .returned none) : t ≤ s.now := by
  rcases step_cases cfg s (e := .before write) rfl with ⟨elapsed, heq⟩ | ⟨g, hgate, hacts⟩
  · rw [heq] at hpassed
    cases hpassed
  rcases h g hgate with hdue | hshut
  · exact hdue
  have huntil := hshut.awaited
  rw [hpassed] at hacts
  generalize (ControlPlaneSystem.step cfg s (.before write)).1 = s' at hacts
  cases hacts with
  | idle unchanged => exact absurd rfl (unchanged write)
  | joined busy due =>
    rcases hshut.closed with hlimited | hquiet
    · exact huntil.trans (due hlimited)
    · exact absurd hquiet busy
  | opened quiet due written => exact huntil.trans due
  | limited limits written saved => cases limits

/-- From a state that nobody passes before `t` on, nobody does in a run without a restart. -/
theorem Closed.exec {t : Int} (h : Closed cfg t s) (hpaced : Paced cfg s)
    {events : List ControlPlaneEvent} (hevents : ∀ e ∈ events, e.isRestart = false) {write : Outcome}
    (hpassed : (ControlPlaneSystem.step cfg (Base.exec (ControlPlaneSystem.step cfg) s events) (.before write)).2 =
      .returned none) : t ≤ (Base.exec (ControlPlaneSystem.step cfg) s events).now := by
  have hclosed : Paced cfg (Base.exec (ControlPlaneSystem.step cfg) s events) ∧
      Closed cfg t (Base.exec (ControlPlaneSystem.step cfg) s events) := by
    refine exec_induction_of (I := fun s => Paced cfg s ∧ Closed cfg t s)
      (P := fun _ e => e.isRestart = false) ⟨hpaced, h⟩
      (fun s e hs he => ⟨hs.1.step_running he, hs.2.step hs.1 he⟩) fun u hu => hevents _ (Transition.event_mem hu)
  exact hclosed.2.passed hpassed

theorem Acts.deadline_le (hpaced : Paced cfg s) (hgate : s.gate = some g) (hlimited : g.rateLimited = true)
    {e : ControlPlaneEvent} {s' : ControlPlaneSystem} {reply : ControlPlaneReply} (hacts : Acts cfg s g e s' reply) :
    ∀ g' ∈ s'.gate, g.nextAttemptAt ≤ g'.nextAttemptAt := by
  have hrunning := hpaced.gate g hgate
  intro g' hg'
  cases hacts with
  | idle unchanged => exact (Option.mem_unique hgate hg') ▸ le_rfl
  | refused closed early => exact (Option.mem_unique hgate hg') ▸ le_rfl
  | joined busy due => exact Option.mem_some.mp hg' ▸ le_rfl
  | opened quiet due written =>
    rw [← Option.mem_some.mp hg']
    show g.nextAttemptAt ≤ (g.guarded cfg.sha256 s.now).nextAttemptAt
    rw [hrunning.guarded]
    exact due.trans (le_add_of_nonneg_right (guardDelay_nonneg cfg))
  | unsaved quiet due written =>
    rw [← Option.mem_some.mp hg', hrunning.guarded]
    exact due.trans (le_add_of_nonneg_right (guardDelay_nonneg cfg))
  | limited limits written saved =>
    have hrunning' := limits.running hrunning
    have hdeadline := hrunning.deadline hlimited
    rw [← max_eq_left (hrunning.counted hlimited)] at hdeadline
    rw [← Option.mem_some.mp hg']
    cases limits with
    | after limit operations => exact (shut_limited hrunning' le_rfl hdeadline).awaited
    | observe limit => exact (shut_limited hrunning' le_rfl hdeadline).awaited
  | ended operations written => exact Option.mem_some.mp hg' ▸ le_rfl
  | cleared operations fine alone unlimited written => exact absurd hlimited (by simp [unlimited])

/-- The count falls only when an operation ends without a rate limit, alone and at a gate that is not limited. -/
theorem Acts.reset (hpaced : Paced cfg s) (hgate : s.gate = some g) {e : ControlPlaneEvent} {s' : ControlPlaneSystem}
    {reply : ControlPlaneReply} (hacts : Acts cfg s g e s' reply) {g' : ControlPlaneRateGate} (hg' : g' ∈ s'.gate)
    (hfalls : g'.consecutiveFailures < g.consecutiveFailures) :
    g'.consecutiveFailures = 0 ∧ g.rateLimited = false ∧ s.operations = 1 ∧
      ∃ operationErr write, e = .after operationErr write ∧ classifyFailure cfg.lower operationErr ≠ .rateLimited := by
  have hrunning := hpaced.gate g hgate
  cases hacts with
  | idle unchanged => exact absurd hfalls (Option.mem_unique hgate hg' ▸ lt_irrefl _)
  | refused closed early => exact absurd hfalls (Option.mem_unique hgate hg' ▸ lt_irrefl _)
  | joined busy due => exact absurd hfalls (Option.mem_some.mp hg' ▸ lt_irrefl _)
  | opened quiet due written => exact absurd hfalls (Option.mem_some.mp hg' ▸ lt_irrefl _)
  | unsaved quiet due written => exact absurd hfalls (Option.mem_some.mp hg' ▸ lt_irrefl _)
  | limited limits written saved =>
    have hle := (limits.running hrunning).limited.2.1
    rw [← Option.mem_some.mp hg'] at hfalls
    cases limits with
    | after limit operations => exact absurd hfalls hle.not_gt
    | observe limit => exact absurd hfalls hle.not_gt
  | ended operations written => exact absurd hfalls (Option.mem_some.mp hg' ▸ lt_irrefl _)
  | cleared operations fine alone unlimited written =>
    have hcount := hrunning.inFlight
    refine ⟨Option.mem_some.mp hg' ▸ rfl, unlimited, by omega, _, _, rfl, fine⟩

end Keeps

/-! ## The gate -/

def Reports (s : ControlPlaneSystem) : ControlPlaneEvent → Prop
  | .after operationErr _ => s.operations ≠ 0 ∧ classifyFailure cfg.lower operationErr = .rateLimited
  | .observe operationErr _ => classifyFailure cfg.lower operationErr = .rateLimited
  | _ => False

/-- The step records a rate limit, and leaves the gate `g`. -/
structure Records (s : ControlPlaneSystem) (e : ControlPlaneEvent) (g : ControlPlaneRateGate) : Prop where
  running : s.gate ≠ none
  reports : Reports cfg s e
  gate : (step cfg s e).1.gate = some g

/-- The pacing that a state promises for the steps from it on: `paced` for the rate limit that a step records, as
    the `k`th one in a row, `survives` for a restart of a manager whose file holds the state of its gate. -/
structure Paces (s : ControlPlaneSystem) : Prop where
  paced : ∀ e g k, Records cfg s e g → g.consecutiveFailures = min k maxRegistrationCleanupAttempts →
    ∀ events write, (∀ e ∈ events, ControlPlaneEvent.isRestart e = false) →
      let later := exec (step cfg) (step cfg s e).1 events
      (step cfg later (.before write)).2 = .returned none →
      s.now + registrationAccessNextDelay cfg.sha256 cfg.profileID k true ≤ later.now
  saved : ∀ e g, Records cfg s e g → (step cfg s e).2 = .returned none →
    (step cfg s e).1.file = .state (g.retryState cfg.rfc)
  kept : ∀ e g g', e.isRestart = false → s.gate = some g → (step cfg s e).1.gate = some g' → g.rateLimited = true →
    g.nextAttemptAt ≤ g'.nextAttemptAt
  reset : ∀ e g g', e.isRestart = false → s.gate = some g → (step cfg s e).1.gate = some g' →
    g'.consecutiveFailures < g.consecutiveFailures →
    g'.consecutiveFailures = 0 ∧ g.rateLimited = false ∧ s.operations = 1 ∧
      ∃ operationErr write, e = .after operationErr write ∧ classifyFailure cfg.lower operationErr ≠ .rateLimited
  survives : ∀ g githubApp write, s.gate = some g → s.file = .state (g.retryState cfg.rfc) →
    githubCredentialIdentity githubApp = g.credentialIdentity →
    ∃ g', (step cfg s (.restart githubApp true write)).1.gate = some g' ∧
      g'.consecutiveFailures = min g.consecutiveFailures maxRegistrationCleanupAttempts ∧
      g'.nextAttemptAt = g.nextAttemptAt / second * second ∧
      ∀ events write', (∀ e ∈ events, ControlPlaneEvent.isRestart e = false) →
        let later := exec (step cfg) (step cfg s (.restart githubApp true write)).1 events
        (step cfg later (.before write')).2 = .returned none → g'.nextAttemptAt ≤ later.now

section Paces
variable {cfg} {s : ControlPlaneSystem} {e : ControlPlaneEvent} {g : ControlPlaneRateGate}

theorem Reports.step {g₀ : ControlPlaneRateGate} (h : Reports cfg s e) (hgate : s.gate = some g₀) :
    ∃ g₁ n write, Limits cfg s g₀ e g₁ n ∧ ControlPlaneSystem.step cfg s e =
      ({ s with
          gate := some (g₁.recordRateLimitLocked cfg.sha256 cfg.rfc s.now s.file write).1
          file := (g₁.recordRateLimitLocked cfg.sha256 cfg.rfc s.now s.file write).2.1
          operations := n },
        .returned (g₁.recordRateLimitLocked cfg.sha256 cfg.rfc s.now s.file write).2.2) := by
  obtain ⟨now, file, gate, operations⟩ := s
  obtain rfl : gate = some g₀ := hgate
  cases e with
  | tick elapsed => exact h.elim
  | before write => exact h.elim
  | restart githubApp readable write => exact h.elim
  | after operationErr write =>
    obtain ⟨hbusy, hlimit⟩ := h
    obtain ⟨n, rfl⟩ : ∃ n, operations = n + 1 := Nat.exists_eq_succ_of_ne_zero hbusy
    exact ⟨_, n, write, .after hlimit rfl, by simp only [ControlPlaneSystem.step, ControlPlaneRateGate.after,
      if_pos hlimit]⟩
  | observe operationErr write =>
    have hlimit : classifyFailure cfg.lower operationErr = .rateLimited := h
    exact ⟨g₀, operations, write, .observe hlimit, by
      simp only [ControlPlaneSystem.step, ControlPlaneRateGate.observe, hlimit, ne_eq, not_true_eq_false, if_false]⟩

/-- A step that records a rate limit leaves a gate that has just been limited, and where it reports no error, its
    state in the file. -/
theorem Records.limited (hpaced : Paced cfg s) (h : Records cfg s e g) :
    ∃ g₁ n, Running cfg s.now n g₁ ∧ g = g₁.limited cfg.sha256 s.now ∧ (step cfg s e).1.now = s.now ∧
      ((step cfg s e).2 = .returned none → (step cfg s e).1.file = .state (g.retryState cfg.rfc)) := by
  obtain ⟨g₀, hgate₀⟩ := Option.ne_none_iff_exists'.mp h.running
  obtain ⟨g₁, n, write, limits, hstep⟩ := h.reports.step hgate₀
  have hgate := h.gate
  rw [hstep] at hgate ⊢
  obtain rfl : g₁.limited cfg.sha256 s.now = g := Option.some.inj hgate
  have hrunning := limits.running (hpaced.gate g₀ hgate₀)
  refine ⟨g₁, n, hrunning, rfl, rfl, fun herr => ?_⟩
  refine (saveLocked_cases cfg.rfc (g₁.limited cfg.sha256 s.now) s.file write).2 hrunning.path ?_
  simpa [ControlPlaneRateGate.recordRateLimitLocked] using herr

theorem Reports.not_restart (h : Reports cfg s e) : e.isRestart = false := by
  cases e with
  | restart githubApp readable write => exact h.elim
  | _ => rfl

theorem Paced.paced (h : Paced cfg s) {k : Int} (hrecords : Records cfg s e g)
    (hcount : g.consecutiveFailures = min k maxRegistrationCleanupAttempts) {events : List ControlPlaneEvent}
    {write : Outcome} (hevents : ∀ e ∈ events, ControlPlaneEvent.isRestart e = false)
    (hpassed : (ControlPlaneSystem.step cfg (exec (ControlPlaneSystem.step cfg)
      (ControlPlaneSystem.step cfg s e).1 events)
      (.before write)).2 = .returned none) :
    s.now + registrationAccessNextDelay cfg.sha256 cfg.profileID k true ≤
      (exec (ControlPlaneSystem.step cfg) (ControlPlaneSystem.step cfg s e).1 events).now := by
  obtain ⟨g₁, n, hrunning, rfl, hnow, -⟩ := hrecords.limited h
  obtain ⟨hpos, -, -, hnext⟩ := hrunning.limited
  have hdelay : s.now + registrationAccessNextDelay cfg.sha256 cfg.profileID k true =
      (g₁.limited cfg.sha256 s.now).nextAttemptAt := by
    rw [hnext, limitDelay_capped _ _ hcount hpos]
    rfl
  have hclosed : Closed cfg (g₁.limited cfg.sha256 s.now).nextAttemptAt (ControlPlaneSystem.step cfg s e).1 := by
    intro g hg
    obtain rfl : g₁.limited cfg.sha256 s.now = g := Option.some.inj (hrecords.gate.symm.trans hg)
    refine Or.inr ⟨le_rfl, Or.inl rfl, ?_⟩
    rw [hnow, max_eq_left hpos, hnext]
  rw [hdelay]
  exact hclosed.exec (h.step_running hrecords.reports.not_restart) hevents hpassed

theorem Paced.survives (hrfc : cfg.rfc.Documented) (h : Paced cfg s) (hlate : FourDigitYear (s.now + longestDelay))
    {githubApp : Option String} (write : Outcome) (hgate : s.gate = some g)
    (hfile : s.file = .state (g.retryState cfg.rfc))
    (hidentity : githubCredentialIdentity githubApp = g.credentialIdentity) :
    ∃ g', (ControlPlaneSystem.step cfg s (.restart githubApp true write)).1.gate = some g' ∧
      g'.consecutiveFailures = min g.consecutiveFailures maxRegistrationCleanupAttempts ∧
      g'.nextAttemptAt = g.nextAttemptAt / second * second ∧
      Closed cfg g'.nextAttemptAt (ControlPlaneSystem.step cfg s (.restart githubApp true write)).1 := by
  have hrunning := h.gate g hgate
  obtain ⟨state, hstate, hstored⟩ : ∃ state, s.file = .state state ∧ Stored cfg s.now state := by
    rcases h.file with habsent | hstate
    · exact absurd (hfile.symm.trans habsent) ControlPlaneFile.noConfusion
    · exact hstate
  obtain rfl : g.retryState cfg.rfc = state := ControlPlaneFile.state.inj (hfile.symm.trans hstate)
  have hload := load_stored hrfc hlate hstored rfl hrunning.dated githubApp write
  have hsame : (g.retryState cfg.rfc).credentialIdentity = githubCredentialIdentity githubApp := hidentity.symm
  rw [if_pos hsame] at hload
  have hstep : ControlPlaneSystem.step cfg s (.restart githubApp true write) =
      ({ s with gate := some (restoredGate cfg githubApp (g.retryState cfg.rfc) g.nextAttemptAt), operations := 0 },
        .loaded none) := by
    simp only [ControlPlaneSystem.step, hfile, hload, if_true]
  rw [hstep]
  refine ⟨_, rfl, (min_eq_left hrunning.capped).symm, rfl, closed_of_shut ⟨le_rfl, Or.inr rfl, ?_⟩⟩
  exact (hstored.floor_le hrfc hlate rfl hrunning.dated).trans (Int.add_le_add_left (savedDelay_le cfg _) _)

end Paces

def sampleSetting : ControlPlaneSetting where
  sha256 := Sha256.firstBytes
  rfc := utcTime
  lower := Char.toLower
  stateDirectory := "/var/lib/pitcrew"
  profileID := "acme"

/-- An operation reports a rate limit, which its error says in its text only. -/
def limitedRun : List ControlPlaneEvent :=
  [.restart none true .done, .before .done, .after (some { wraps := [], message := "API rate limit exceeded" }) .done]

end ControlPlaneSystem
end PitCrew.Autoscaler
