import PitCrew.Theorems.Autoscaler.JournalWindow

/-! # Restoring the journal

`restore` validates every event again, sorts, coalesces and evicts. On the document of a recorder whose window
is in order each of these passes is the identity once every event is valid. An event stays valid as long as the
calls take the lock in the order of their clock readings: a call that repeats an event keeps the time at which
that was first observed, and a reading older than that makes the event end before it began. -/

namespace PitCrew.Autoscaler.Diagnostics
open Base DiagnosticsRecorder

section Documents
variable {rfc : Rfc3339} {isSpace : Char → Bool} {events : List ManagerEvent} {event previous : ManagerEvent}
  {latest : Int}

/-! ## Valid events -/

/-- The texts of an event that are never empty. -/
structure ManagerEvent.Complete (event : ManagerEvent) : Prop where
  sequence : 1 ≤ event.sequence
  instanceID : event.managerInstanceID ≠ ""
  observedAt : event.observedAt ≠ ""
  subsystem : event.subsystem ≠ .other ""
  operation : event.operation ≠ .other ""
  outcome : event.outcome ≠ .other ""
  reason : event.reason ≠ .other ""

theorem validJournalEvent_iff : validJournalEvent rfc event = true ↔ event.Complete ∧ ∃ first last,
    rfc.parse event.observedAt = some last ∧ rfc.parse event.firstObservedAt = some first ∧
      rfc.parse event.lastObservedAt = some last ∧ 1 ≤ event.occurrenceCount ∧
      event.occurrenceCount ≤ maxOccurrenceCount ∧ first ≤ last := by
  unfold validJournalEvent
  split
  next hmissing =>
    refine ⟨fun h => absurd h Bool.false_ne_true, fun ⟨h, _⟩ => ?_⟩
    have hsequence := h.sequence
    rcases hmissing with hmissing | hmissing | hmissing | hmissing | hmissing | hmissing | hmissing
    · omega
    · exact absurd hmissing h.instanceID
    · exact absurd hmissing h.observedAt
    · exact absurd hmissing h.subsystem
    · exact absurd hmissing h.operation
    · exact absurd hmissing h.outcome
    · exact absurd hmissing h.reason
  next hcomplete =>
    simp only [not_or] at hcomplete
    obtain ⟨h₁, h₂, h₃, h₄, h₅, h₆, h₇⟩ := hcomplete
    have hcomplete : event.Complete := ⟨by omega, h₂, h₃, h₄, h₅, h₆, h₇⟩
    split
    next observed first last hobserved hfirst hlast =>
      rw [decide_eq_true_iff]
      constructor
      · rintro ⟨hone, hmax, hle, rfl⟩
        exact ⟨hcomplete, first, observed, hobserved, hfirst, hlast, hone, hmax, hle⟩
      · rintro ⟨-, first', last', hobserved', hfirst', hlast', hone, hmax, hle⟩
        obtain rfl := Option.some.inj (hfirst.symm.trans hfirst')
        obtain rfl := Option.some.inj (hlast.symm.trans hlast')
        exact ⟨hone, hmax, hle, Option.some.inj (hobserved.symm.trans hobserved')⟩
    next hnone =>
      refine ⟨fun h => absurd h Bool.false_ne_true, ?_⟩
      rintro ⟨-, first, last, hobserved, hfirst, hlast, -⟩
      exact absurd hlast (hnone last first last hobserved hfirst)

/-- A valid event that was first observed no later than the reading. -/
structure Sound (rfc : Rfc3339) (latest : Int) (event : ManagerEvent) : Prop where
  valid : validJournalEvent rfc event = true
  past : ∃ first, rfc.parse event.firstObservedAt = some first ∧ first ≤ latest / second * second

theorem second_mono {a b : Int} (h : a ≤ b) : a / second ≤ b / second := Int.ediv_le_ediv (by decide) h

theorem second_scale {a b : Int} (h : a / second ≤ b / second) : a / second * second ≤ b / second * second :=
  Int.mul_le_mul_of_nonneg_right h (by decide)

theorem Sound.mono {later : Int} (h : Sound rfc latest event) (hle : latest ≤ later) : Sound rfc later event := by
  obtain ⟨first, hfirst, hpast⟩ := h.past
  exact ⟨h.valid, first, hfirst, hpast.trans (second_scale (second_mono hle))⟩

theorem normalize_of_valid (hrfc : rfc.Documented) (h : validJournalEvent rfc event = true) :
    normalizeManagerEvent event = event := by
  obtain ⟨-, first, last, -, hfirst, hlast, hone, -, -⟩ := validJournalEvent_iff.mp h
  have hparses : ∀ {text t}, rfc.parse text = some t → text ≠ "" := by
    intro text t hparse hempty
    rw [hempty, hrfc.parse_empty] at hparse
    exact Option.some_ne_none t hparse.symm
  unfold normalizeManagerEvent
  rw [if_neg (hparses hfirst), if_neg (hparses hlast), if_neg (by omega)]

theorem boundedOccurrenceSum_bounds {left right : Int} (hleft : 1 ≤ left) (hright : 1 ≤ right) :
    1 ≤ boundedOccurrenceSum left right ∧ boundedOccurrenceSum left right ≤ maxOccurrenceCount := by
  unfold boundedOccurrenceSum maxOccurrenceCount
  split <;> omega

theorem Sound.merged {later last : Int} (hrfc : rfc.Documented) (hprevious : Sound rfc latest previous)
    (hevent : Sound rfc later event) (hlast : rfc.parse event.lastObservedAt = some last)
    (hturn : latest / second * second ≤ last) (hle : latest ≤ later) :
    Sound rfc later (mergedEvent previous event) := by
  have hmerged : mergedEvent previous event =
      { event with
        firstObservedAt := previous.firstObservedAt
        occurrenceCount := boundedOccurrenceSum previous.occurrenceCount event.occurrenceCount } := by
    unfold mergedEvent
    rw [normalize_of_valid hrfc hprevious.valid, normalize_of_valid hrfc hevent.valid]
  obtain ⟨-, -, -, -, -, -, hone, -, -⟩ := validJournalEvent_iff.mp hprevious.valid
  obtain ⟨hcomplete, -, last', hobserved, -, hlast', hone', -, -⟩ := validJournalEvent_iff.mp hevent.valid
  obtain ⟨first, hfirst, hpast⟩ := hprevious.past
  obtain rfl := Option.some.inj (hlast'.symm.trans hlast)
  obtain ⟨hlow, hhigh⟩ := boundedOccurrenceSum_bounds hone hone'
  rw [hmerged]
  refine ⟨validJournalEvent_iff.mpr ⟨?_, first, last', hobserved, hfirst, hlast', hlow, hhigh, hpast.trans hturn⟩,
    first, hfirst, ?_⟩
  · exact { hcomplete with }
  · exact hpast.trans (second_scale (second_mono hle))

theorem Sound.coalesce {later last : Int} (hrfc : rfc.Documented) (h : ∀ event ∈ events, Sound rfc latest event)
    (hevent : Sound rfc later event) (hlast : rfc.parse event.lastObservedAt = some last)
    (hturn : latest / second * second ≤ last) (hle : latest ≤ later) :
    ∀ x ∈ coalesceJournalEvent events event, Sound rfc later x := by
  rcases coalesceJournalEvent_cases events event with ⟨heq, -⟩ | ⟨before, previous, after, rfl, heq, -⟩
  · rw [heq, normalize_of_valid hrfc hevent.valid]
    intro x hx
    rcases List.mem_append.mp hx with hx | hx
    · exact (h x hx).mono hle
    · rwa [List.mem_singleton.mp hx]
  · rw [heq]
    intro x hx
    rcases List.mem_append.mp hx with hx | hx
    · refine (h x ?_).mono hle
      rcases List.mem_append.mp hx with hx | hx
      · exact List.mem_append_left _ hx
      · exact List.mem_append_right _ (List.mem_cons_of_mem _ hx)
    · rw [List.mem_singleton.mp hx]
      exact (h previous (by simp)).merged hrfc hevent hlast hturn hle

/-! ## Restoring what was recorded -/

/-- The counts of a recorder, and its events as of a reading of the clock. -/
structure Recorded (rfc : Rfc3339) (latest : Int) (r : DiagnosticsRecorder) : Prop extends Tallied r where
  sound : ∀ event ∈ r.events, Sound rfc latest event

theorem Recorded.mono {r : DiagnosticsRecorder} {later : Int} (h : Recorded rfc latest r) (hle : latest ≤ later) :
    Recorded rfc later r :=
  { h with sound := fun event hevent => (h.sound event hevent).mono hle }

def DiagnosticsRecorder.holding (r : DiagnosticsRecorder) (document : JournalDocument) : DiagnosticsRecorder :=
  { r with
    events := document.events
    highestSequence := document.highestSequence
    evictedEvents := document.evictedEvents
    rejectedEvents := document.rejectedEvents
    unclassifiedEvents := document.unclassifiedEvents }

theorem foldl_max_of_le {start : Int} (h : ∀ event ∈ events, event.sequence ≤ start) :
    events.foldl (fun highest event => max highest event.sequence) start = start := by
  induction events with
  | nil => rfl
  | cons first rest ih =>
    rw [List.foldl_cons, max_eq_left (h first List.mem_cons_self)]
    exact ih fun event hevent => h event (List.mem_cons_of_mem first hevent)

theorem foldl_coalesce_eq (hcoalesced : Coalesced events)
    (hnormal : ∀ event ∈ events, normalizeManagerEvent event = event) :
    events.foldl coalesceJournalEvent [] = events := by
  induction events using List.reverseRecOn with
  | nil => rfl
  | append_singleton events last ih =>
    have hfront : Coalesced events := by
      intro before event after hsplit
      exact hcoalesced before event (after ++ [last]) (by rw [hsplit]; simp)
    rw [List.foldl_append, ih hfront fun event hevent => hnormal event (List.mem_append_left _ hevent)]
    show coalesceJournalEvent events last = events ++ [last]
    rcases coalesceJournalEvent_cases events last with
      ⟨heq, -⟩ | ⟨before, previous, after, rfl, -, hcoalescible, hscope, hrepeats, hafter⟩
    · rw [heq, hnormal last (by simp)]
    · -- the last event would repeat the one before it in its scope
      refine absurd hrepeats (hcoalesced (before ++ previous :: after) last [] rfl hcoalescible previous ?_)
      have hsplit : before ++ previous :: after = (before ++ [previous]) ++ after := by simp
      rw [hsplit, scopePredecessor_append hafter, scopePredecessor_concat, if_pos hscope]
      rfl

theorem restoredCounts_document {r : DiagnosticsRecorder} (h : Recorded rfc latest r) :
    restoredCounts r.documentLocked = (r.evictedEvents, r.rejectedEvents, r.unclassifiedEvents) := by
  have hevicted := h.evicted
  have hrejected := h.rejected
  have hunclassified := h.unclassified
  unfold restoredCounts documentLocked
  dsimp only
  rw [if_pos rfl, max_eq_left h.evicted, max_eq_left h.rejected, max_eq_left h.unclassified, if_neg (by omega)]

/-- Every pass of `restore` leaves the document of such a recorder as it is. -/
theorem restoreDocument_holding (hrfc : rfc.Documented) {built : DiagnosticsRecorder} (hwindowed : Windowed built)
    (h : Recorded rfc latest built) (r : DiagnosticsRecorder) :
    r.restoreDocument rfc built.documentLocked = r.holding built.documentLocked := by
  have hevents : (if built.documentLocked.schemaVersion = legacyDiagnosticsSchemaVersion then
      built.documentLocked.events.map normalizeManagerEvent else built.documentLocked.events) = built.events :=
    if_neg (show ¬ diagnosticsSchemaVersion = legacyDiagnosticsSchemaVersion by decide)
  have hvalid : built.events.filter (validJournalEvent rfc) = built.events :=
    List.filter_eq_self.mpr fun event hevent => (h.sound event hevent).valid
  have hnormal : ∀ event ∈ built.events, normalizeManagerEvent event = event :=
    fun event hevent => normalize_of_valid hrfc (h.sound event hevent).valid
  have hhighest : built.events.foldl (fun highest event => max highest event.sequence)
      (max built.documentLocked.highestSequence 0) = built.highestSequence := by
    have hmax : max built.documentLocked.highestSequence 0 = built.highestSequence := max_eq_left h.highest
    rw [hmax]
    exact foldl_max_of_le hwindowed.ordered.counted
  unfold restoreDocument
  rw [restoredCounts_document h]
  dsimp only
  rw [hevents, hvalid, hhighest, insertionSort_increasing hwindowed.ordered.increasing,
    foldl_coalesce_eq hwindowed.ordered.coalesced hnormal, evictBeyond_fits _ _ hwindowed.bounded, Nat.sub_self,
    Nat.cast_zero, add_zero]
  rfl

/-! ## Recording -/

/-- An observation as the callers make it: they name the subsystem, the operation and the outcome. -/
structure Named (observation : DiagnosticsObservation) : Prop where
  subsystem : observation.subsystem ≠ .other ""
  operation : observation.operation ≠ .other ""
  outcome : observation.outcome ≠ .other ""

instance (observation : DiagnosticsObservation) : Decidable (Named observation) :=
  decidable_of_iff (observation.subsystem ≠ .other "" ∧ observation.operation ≠ .other "" ∧
    observation.outcome ≠ .other "")
    ⟨fun h => ⟨h.1, h.2.1, h.2.2⟩, fun h => ⟨h.subsystem, h.operation, h.outcome⟩⟩

theorem Journals.named {observation journaled : DiagnosticsObservation} (h : Journals observation journaled)
    (hnamed : Named observation) : Named journaled := by
  cases h with
  | asIs => exact hnamed
  | recovery => exact ⟨hnamed.subsystem, hnamed.operation, fun h => JournalOutcome.noConfusion h⟩

theorem buildEvent_sound (hrfc : rfc.Documented) {r : DiagnosticsRecorder} {observation : DiagnosticsObservation}
    (hinstance : boundedIdentity isSpace r.instanceID ≠ "") (hhighest : 0 ≤ r.highestSequence)
    (hnamed : Named observation) {now : Int} (hnow : FourDigitYear now) :
    Sound rfc now (r.buildEventLocked rfc isSpace observation now).2 := by
  have hparse := hrfc.parse_format now hnow
  have hone : (1 : Int) ≤ maxOccurrenceCount := by decide
  refine ⟨validJournalEvent_iff.mpr ⟨?_, _, _, hparse, hparse, hparse, le_rfl, hone, le_rfl⟩, _, hparse, le_rfl⟩
  refine ⟨?_, hinstance, hrfc.format_ne_empty hnow, hnamed.subsystem, hnamed.operation, hnamed.outcome, ?_⟩
  · show 1 ≤ r.highestSequence + 1
    omega
  · show (if observation.outcome = .succeeded then JournalReason.none
      else if observation.reason = .other "" then .none else observation.reason) ≠ .other ""
    split
    · exact fun h => JournalReason.noConfusion h
    · split
      · exact fun h => JournalReason.noConfusion h
      next hreason => exact hreason

theorem Recorded.record (hrfc : rfc.Documented) {r : DiagnosticsRecorder} (h : Recorded rfc latest r)
    (hinstance : boundedIdentity isSpace r.instanceID ≠ "") {observation : DiagnosticsObservation}
    (hnamed : Named observation) {now : Int} (hnow : FourDigitYear now) (hturn : latest / second ≤ now / second) :
    Recorded rfc (max latest now) (r.record rfc isSpace observation now).1 := by
  obtain ⟨docker, github, ⟨heq, -⟩ | ⟨journaled, event, hjournals, hevent, heq⟩⟩ :=
    record_eq rfc isSpace r observation now
  · rw [heq]
    have hsame : Recorded rfc latest { r with docker, github } := { h with }
    exact hsame.mono (le_max_left _ _)
  · have htallied := h.toTallied.record rfc isSpace observation now
    rw [heq] at htallied ⊢
    have hinstance' : boundedIdentity isSpace ({ r with docker, github }).instanceID ≠ "" := hinstance
    have hsound : Sound rfc now event := by
      rw [hevent]
      exact buildEvent_sound hrfc hinstance' h.highest (hjournals.named hnamed) hnow
    have hlast : rfc.parse event.lastObservedAt = some (now / second * second) := by
      rw [hevent]
      exact hrfc.parse_format now hnow
    have hcoalesced := Sound.coalesce hrfc h.sound (hsound.mono (le_max_right latest now)) hlast (second_scale hturn)
      (le_max_left latest now)
    refine ⟨htallied, ?_⟩
    exact evictBeyond_induction (P := fun events => ∀ event ∈ events, Sound rfc (max latest now) event) _ _ hcoalesced
      fun events _ h event hevent => h event ((dropOldestJournalEvent_sublist events).subset hevent)

theorem Recorded.recordRestore (hrfc : rfc.Documented) {r : DiagnosticsRecorder} (h : Recorded rfc latest r)
    (hinstance : boundedIdentity isSpace r.instanceID ≠ "") {now : Int} (hnow : FourDigitYear now)
    (hle : latest ≤ now) :
    Recorded rfc (max latest now) (r.recordRestore rfc isSpace now).1 := by
  have hnamed : Named restoreObservation := ⟨by decide, by decide, by decide⟩
  have hrecorded := h.record hrfc hinstance hnamed hnow (second_mono hle)
  unfold DiagnosticsRecorder.recordRestore
  split
  · generalize r.record rfc isSpace restoreObservation now = recorded at hrecorded
    obtain ⟨r', _ | ⟨event, built⟩⟩ := recorded
    · exact hrecorded
    · exact hrecorded
  · exact h.mono (le_max_left _ _)

theorem record_instanceID (r : DiagnosticsRecorder) (observation : DiagnosticsObservation) (now : Int) :
    (r.record rfc isSpace observation now).1.instanceID = r.instanceID := by
  obtain ⟨docker, github, ⟨heq, -⟩ | ⟨journaled, event, -, -, heq⟩⟩ := record_eq rfc isSpace r observation now
  · rw [heq]
  · rw [heq]
    rfl

theorem recordRestore_instanceID (r : DiagnosticsRecorder) (now : Int) :
    (r.recordRestore rfc isSpace now).1.instanceID = r.instanceID := by
  have hrecord : (r.record rfc isSpace restoreObservation now).1.instanceID = r.instanceID :=
    record_instanceID r restoreObservation now
  unfold DiagnosticsRecorder.recordRestore
  split
  · generalize r.record rfc isSpace restoreObservation now = recorded at hrecord
    obtain ⟨r', _ | ⟨event, built⟩⟩ := recorded
    · exact hrecord
    · exact hrecord
  · rfl

end Documents

/-! ## Runs -/

/-- The clock never goes backwards and is in years of four digits, and managers and their observations are named. -/
def OnClock (isSpace : Char → Bool) (s : JournalRun) : JournalRunEvent → Prop
  | .start _ instanceID => boundedIdentity isSpace instanceID ≠ ""
  | .restore _ now => s.clock ≤ now ∧ FourDigitYear now
  | .call observation now => s.clock ≤ now ∧ FourDigitYear now ∧ Named observation
  | .lock _ => True

/-- A call takes the lock with a reading that is no earlier, in seconds, than that of any call before it. -/
def InTurn (s : JournalRun) : JournalRunEvent → Prop
  | .lock call => ∀ c ∈ s.waiting[call]?, s.recordedAt / second ≤ c.now / second
  | _ => True

instance (isSpace : Char → Bool) (s : JournalRun) (event : JournalRunEvent) : Decidable (OnClock isSpace s event) := by
  unfold OnClock
  split <;> infer_instance

instance (s : JournalRun) (event : JournalRunEvent) : Decidable (InTurn s event) := by
  unfold InTurn
  split <;> infer_instance

/-- A fresh recorder takes over the events and the counts of the document as they are. -/
def Lossless (rfc : Rfc3339) (isSpace : Char → Bool) (document : JournalDocument) : Prop :=
  ∀ stateDirectory instanceID now, stateDirectory ≠ "" →
    (newDiagnosticsRecorder stateDirectory instanceID).restore rfc isSpace (some (.document document)) now =
      ((newDiagnosticsRecorder stateDirectory instanceID).holding document).recordRestore rfc isSpace now

/-- A recorder of a run whose calls are in turn. -/
structure Faithful (rfc : Rfc3339) (isSpace : Char → Bool) (latest : Int) (r : DiagnosticsRecorder) : Prop where
  windowed : Windowed r
  recorded : Recorded rfc latest r
  instanceID : boundedIdentity isSpace r.instanceID ≠ ""

structure RunFaithful (rfc : Rfc3339) (isSpace : Char → Bool) (s : JournalRun) : Prop where
  recorders : RunOf (Faithful rfc isSpace s.recordedAt) s
  waiting : ∀ c ∈ s.waiting, Named c.observation ∧ FourDigitYear c.now ∧ c.now ≤ s.clock
  clock : s.recordedAt ≤ s.clock

section Runs
variable {s : JournalRun} {rfc : Rfc3339} {isSpace : Char → Bool} {latest : Int}

theorem Faithful.mono {r : DiagnosticsRecorder} {later : Int} (h : Faithful rfc isSpace latest r)
    (hle : latest ≤ later) :
    Faithful rfc isSpace later r :=
  ⟨h.windowed, h.recorded.mono hle, h.instanceID⟩

theorem newDiagnosticsRecorder_faithful {stateDirectory instanceID : String}
    (h : boundedIdentity isSpace instanceID ≠ "") :
    Faithful rfc isSpace latest (newDiagnosticsRecorder stateDirectory instanceID) :=
  ⟨newDiagnosticsRecorder_windowed stateDirectory instanceID,
    ⟨newDiagnosticsRecorder_tallied stateDirectory instanceID, fun _ h => absurd h List.not_mem_nil⟩, h⟩

theorem Faithful.record (hrfc : rfc.Documented) {r : DiagnosticsRecorder} (h : Faithful rfc isSpace latest r)
    {observation : DiagnosticsObservation} (hnamed : Named observation) {now : Int} (hnow : FourDigitYear now)
    (hturn : latest / second ≤ now / second) :
    Faithful rfc isSpace (max latest now) (r.record rfc isSpace observation now).1 :=
  ⟨h.windowed.record rfc isSpace observation now, h.recorded.record hrfc h.instanceID hnamed hnow hturn,
    (record_instanceID r observation now).symm ▸ h.instanceID⟩

theorem Faithful.restore (hrfc : rfc.Documented) {r built : DiagnosticsRecorder} (h : Faithful rfc isSpace latest r)
    (hbuilt : Faithful rfc isSpace latest built) {now : Int} (hnow : FourDigitYear now) (hle : latest ≤ now) :
    Faithful rfc isSpace (max latest now)
      ((r.restoreDocument rfc built.documentLocked).recordRestore rfc isSpace now).1 := by
  have hwindowed := hbuilt.windowed.restore r rfc isSpace now
  rw [restoreDocument_holding hrfc hbuilt.windowed hbuilt.recorded] at hwindowed ⊢
  have hholding : Recorded rfc latest (r.holding built.documentLocked) := { hbuilt.recorded with }
  exact ⟨hwindowed, hholding.recordRestore hrfc h.instanceID hnow hle,
    (recordRestore_instanceID _ now).symm ▸ h.instanceID⟩

theorem Faithful.lossless (hrfc : rfc.Documented) {r : DiagnosticsRecorder} (h : Faithful rfc isSpace latest r) :
    Lossless rfc isSpace r.documentLocked := by
  intro stateDirectory instanceID now hdirectory
  rw [← restoreDocument_holding hrfc h.windowed h.recorded]
  unfold DiagnosticsRecorder.restore
  rw [if_neg (newRecorder_path hdirectory instanceID)]
  rfl

theorem RunFaithful.start (clock : Int) : RunFaithful rfc isSpace { clock, recordedAt := clock } :=
  ⟨RunOf.start _ clock, fun _ h => absurd h List.not_mem_nil, le_rfl⟩

theorem RunFaithful.waiting_until (h : RunFaithful rfc isSpace s) {now : Int} (hnow : s.clock ≤ now) :
    ∀ c ∈ s.waiting, Named c.observation ∧ FourDigitYear c.now ∧ c.now ≤ now := by
  intro c hc
  obtain ⟨hnamed, hyear, hle⟩ := h.waiting c hc
  exact ⟨hnamed, hyear, hle.trans hnow⟩

theorem RunFaithful.restore (hrfc : rfc.Documented) (h : RunFaithful rfc isSpace s) (choice : Option Nat) {now : Int}
    (hnow : s.clock ≤ now) (hyear : FourDigitYear now) :
    RunFaithful rfc isSpace (JournalRun.step rfc isSpace s (.restore choice now)).1 := by
  cases hr : s.recorder with
  | none =>
    have hidle : JournalRun.step rfc isSpace s (.restore choice now) = (s, ()) := by
      unfold JournalRun.step
      rw [hr]
    rw [hidle]
    exact h
  | some r =>
    have hstep : (JournalRun.step rfc isSpace s (.restore choice now)).1.recordedAt = max s.recordedAt now ∧
        (JournalRun.step rfc isSpace s (.restore choice now)).1.clock = now ∧
        (JournalRun.step rfc isSpace s (.restore choice now)).1.waiting = s.waiting := by
      unfold JournalRun.step
      rw [hr]
      exact ⟨rfl, rfl, rfl⟩
    obtain ⟨hrecordedAt, hclock, hwaiting⟩ := hstep
    have hle : s.recordedAt ≤ now := h.clock.trans hnow
    refine ⟨?_, ?_, ?_⟩
    · rw [hrecordedAt]
      refine h.recorders.step (fun r hr => hr.mono (le_max_left _ _)) _ (fun _ _ heq => nomatch heq)
        (fun _ _ r built heq hr hbuilt => ?_) fun _ _ _ heq => nomatch heq
      obtain ⟨rfl, rfl⟩ := JournalRunEvent.restore.inj heq
      exact hr.restore hrfc hbuilt hyear hle
    · rw [hwaiting, hclock]
      exact h.waiting_until hnow
    · rw [hrecordedAt, hclock]
      exact max_le hle le_rfl

theorem JournalRun.step_lock_idle {call : Nat} (h : s.recorder = none ∨ s.waiting[call]? = none) :
    JournalRun.step rfc isSpace s (.lock call) = (s, ()) := by
  unfold JournalRun.step
  dsimp only
  split
  next hr hc => simp only [hr, hc, reduceCtorEq, or_self] at h
  next => rfl

/-- The call that takes the lock is the latest one now, and waits no longer. -/
theorem RunFaithful.lock (hrfc : rfc.Documented) (h : RunFaithful rfc isSpace s) {call : Nat}
    (hturn : InTurn s (.lock call)) : RunFaithful rfc isSpace (JournalRun.step rfc isSpace s (.lock call)).1 := by
  cases hr : s.recorder with
  | none =>
    rw [JournalRun.step_lock_idle (Or.inl hr)]
    exact h
  | some r =>
    cases hc : s.waiting[call]? with
    | none =>
      rw [JournalRun.step_lock_idle (Or.inr hc)]
      exact h
    | some c =>
      have hstep : (JournalRun.step rfc isSpace s (.lock call)).1.recordedAt = max s.recordedAt c.now ∧
          (JournalRun.step rfc isSpace s (.lock call)).1.clock = s.clock ∧
          (JournalRun.step rfc isSpace s (.lock call)).1.waiting = s.waiting.eraseIdx call := by
        unfold JournalRun.step
        dsimp only
        rw [hr, hc]
        exact ⟨rfl, rfl, rfl⟩
      obtain ⟨hrecordedAt, hclock, hwaiting⟩ := hstep
      obtain ⟨hnamed, hyear, hle⟩ := h.waiting c (List.mem_of_getElem? hc)
      refine ⟨?_, ?_, ?_⟩
      · rw [hrecordedAt]
        refine h.recorders.step (fun r hr => hr.mono (le_max_left _ _)) _ (fun _ _ heq => nomatch heq)
          (fun _ _ _ _ heq => nomatch heq) fun _ c' r heq hc' hr => ?_
        obtain rfl := JournalRunEvent.lock.inj heq
        obtain rfl := Option.some.inj (hc.symm.trans hc')
        exact hr.record hrfc hnamed hyear (hturn c hc)
      · rw [hwaiting, hclock]
        exact fun c' hc' => h.waiting c' ((List.eraseIdx_sublist s.waiting call).subset hc')
      · rw [hrecordedAt, hclock]
        exact max_le h.clock hle

theorem RunFaithful.step (hrfc : rfc.Documented) (h : RunFaithful rfc isSpace s) {event : JournalRunEvent}
    (hclock : OnClock isSpace s event) (hturn : InTurn s event) :
    RunFaithful rfc isSpace (JournalRun.step rfc isSpace s event).1 := by
  cases event with
  | start stateDirectory instanceID =>
    refine ⟨?_, fun _ h => absurd h List.not_mem_nil, h.clock⟩
    refine h.recorders.step (fun _ => id) _ (fun _ _ heq => ?_)
      (fun _ _ _ _ heq => nomatch heq) fun _ _ _ heq => nomatch heq
    obtain ⟨rfl, rfl⟩ := JournalRunEvent.start.inj heq
    exact newDiagnosticsRecorder_faithful hclock
  | restore choice now => exact h.restore hrfc choice hclock.1 hclock.2
  | call observation now =>
    obtain ⟨hnow, hyear, hnamed⟩ := hclock
    refine ⟨⟨h.recorders.recorder, h.recorders.documents⟩, fun c hc => ?_, h.clock.trans hnow⟩
    rcases List.mem_append.mp hc with hc | hc
    · exact h.waiting_until hnow c hc
    · rw [List.mem_singleton.mp hc]
      exact ⟨hnamed, hyear, le_rfl⟩
  | lock call => exact h.lock hrfc hturn

end Runs

/-- Two calls of one failure: the first reads the clock a second before the second does. The given one takes the
    lock first. -/
def racingCalls (first : Nat) : List JournalRunEvent :=
  [.start "/state" "first", .call failedLaunch 0, .call failedLaunch second, .lock first, .lock 0]

def racingTransitions (first : Nat) : List (Transition JournalRun JournalRunEvent Unit) :=
  transitions (JournalRun.step utcTime Char.isWhitespace) { clock := 0, recordedAt := 0 } (racingCalls first)

def racingDocuments (first : Nat) : List JournalDocument :=
  (exec (JournalRun.step utcTime Char.isWhitespace) { clock := 0, recordedAt := 0 } (racingCalls first)).documents

/-- In every run with a clock that never goes backwards, if the calls take the lock in the order of their
    readings, up to the second, every document that a recorder has built is restored as it is. -/
theorem restore_lossless {rfc : Rfc3339} (hrfc : rfc.Documented) (isSpace : Char → Bool) (clock : Int)
    (run : List JournalRunEvent)
    (hrun : ∀ t ∈ transitions (JournalRun.step rfc isSpace) { clock, recordedAt := clock } run,
      OnClock isSpace t.before t.event ∧ InTurn t.before t.event) :
    ∀ document ∈ (exec (JournalRun.step rfc isSpace) { clock, recordedAt := clock } run).documents,
      Lossless rfc isSpace document := by
  have hfaithful : RunFaithful rfc isSpace (exec (JournalRun.step rfc isSpace) { clock, recordedAt := clock } run) :=
    exec_induction_of (P := fun s event => OnClock isSpace s event ∧ InTurn s event) (RunFaithful.start clock)
      (fun s event h hevent => h.step hrfc hevent.1 hevent.2) hrun
  intro document hdocument
  obtain ⟨r, hr, rfl⟩ := hfaithful.recorders.documents document hdocument
  exact hr.lossless hrfc

theorem restore_lossless_racingCalls :
    (racingDocuments 0).map (·.events.map (·.occurrenceCount)) = [[2], [1]] ∧
      ∀ document ∈ racingDocuments 0, Lossless utcTime Char.isWhitespace document :=
  ⟨by decide +kernel,
    restore_lossless utcTime_documented Char.isWhitespace 0 (racingCalls 0) (by decide +kernel)⟩

/-- The second call takes the lock first: the event then ends before it began, and a restore rejects it. -/
theorem racing_calls_lost :
    (∀ t ∈ racingTransitions 1, OnClock Char.isWhitespace t.before t.event) ∧
      ((racingDocuments 1).map fun document =>
        ((newDiagnosticsRecorder "/state" "second").restoreDocument utcTime document).rejectedEvents) = [1, 0] ∧
      ¬ ∀ document ∈ racingDocuments 1, Lossless utcTime Char.isWhitespace document := by
  have hfirst : ∃ document ∈ racingDocuments 1,
      ((newDiagnosticsRecorder "/state" "second").restore utcTime Char.isWhitespace
          (some (.document document)) second).1.rejectedEvents ≠
        (((newDiagnosticsRecorder "/state" "second").holding document).recordRestore utcTime Char.isWhitespace
          second).1.rejectedEvents := by decide +kernel
  refine ⟨by decide +kernel, by decide +kernel, fun h => ?_⟩
  obtain ⟨document, hdocument, hne⟩ := hfirst
  have hlossless := h document hdocument "/state" "second" second (by decide)
  exact hne (by rw [hlossless])

end PitCrew.Autoscaler.Diagnostics
