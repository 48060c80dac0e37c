import PitCrew.Theorems.Autoscaler.JournalRestore

/-! # The size of the published journal

`journal` drops events until the array of them is within the budget; the object around the array, with its
status and its counts, comes on top. The object stays within the budget if no window that the loop may stop at
is so close to it that there is no room left for the rest. -/

namespace PitCrew.Autoscaler.Diagnostics
open Base DiagnosticsRecorder

/-! ## The object around the events -/

/-- The longest object around the events, if its numbers have at most 19 digits as those of Go's `int` have. -/
def envelopeBytes : Nat := 236

/-- A number that the recorder counts up to in a Go `int`. -/
def Counts19 (n : Int) : Prop := 0 ≤ n ∧ n < 2 ^ 63

/-- The numbers of a published journal. -/
structure ManagerOperationJournal.Counted (journal : ManagerOperationJournal) : Prop where
  capacity : journal.capacity = journalCapacity
  highest : ∀ n ∈ journal.highestSequence, Counts19 n
  dropped : Counts19 journal.droppedEvents
  evicted : Counts19 journal.evictedEvents
  rejected : Counts19 journal.rejectedEvents
  unclassified : Counts19 journal.unclassifiedEvents

theorem Counts19.bytes_le {n : Int} (h : Counts19 n) : Json.bytes (Json.int n) ≤ 19 :=
  Json.bytes_int_le h.1 (by decide) (h.2.trans (by decide))

theorem ManagerOperationJournal.envelope_bytes (journal : ManagerOperationJournal) (events : List Char) :
    Json.bytes (journal.envelope events) =
      126 + Json.bytes (Json.string journal.status.text) + Json.bytes (Json.int journal.capacity) +
        Json.bytes (Json.optional Json.int journal.highestSequence) + Json.bytes (Json.int journal.droppedEvents) +
        Json.bytes (Json.int journal.evictedEvents) + Json.bytes (Json.int journal.rejectedEvents) +
        Json.bytes (Json.int journal.unclassifiedEvents) + Json.bytes events := by
  have hstatus : Json.bytes (Json.string "status") = 8 := by decide
  have hcapacity : Json.bytes (Json.string "capacity") = 10 := by decide
  have hhighest : Json.bytes (Json.string "highestSequence") = 17 := by decide
  have hdropped : Json.bytes (Json.string "droppedEvents") = 15 := by decide
  have hevicted : Json.bytes (Json.string "evictedEvents") = 15 := by decide
  have hrejected : Json.bytes (Json.string "rejectedEvents") = 16 := by decide
  have hunclassified : Json.bytes (Json.string "unclassifiedEvents") = 20 := by decide
  have hevents : Json.bytes (Json.string "events") = 8 := by decide
  unfold ManagerOperationJournal.envelope
  rw [Json.bytes_object (List.cons_ne_nil _ _)]
  simp only [List.map_cons, List.map_nil, List.sum_cons, List.sum_nil, List.length_cons, List.length_nil,
    Json.bytes_field, hstatus, hcapacity, hhighest, hdropped, hevicted, hrejected, hunclassified, hevents]
  omega

theorem ManagerOperationJournal.Counted.envelope_le {journal : ManagerOperationJournal} (h : journal.Counted)
    (events : List Char) : Json.bytes (journal.envelope events) ≤ envelopeBytes + Json.bytes events := by
  have hstatus : Json.bytes (Json.string journal.status.text) ≤ 13 := by
    cases journal.status <;> decide
  have hcapacity : Json.bytes (Json.int journal.capacity) = 2 := by
    rw [h.capacity]
    decide
  have hhighest : Json.bytes (Json.optional Json.int journal.highestSequence) ≤ 19 := by
    cases hnone : journal.highestSequence with
    | none => decide
    | some n => exact (h.highest n hnone).bytes_le
  have hdropped := h.dropped.bytes_le
  have hevicted := h.evicted.bytes_le
  have hrejected := h.rejected.bytes_le
  have hunclassified := h.unclassified.bytes_le
  rw [journal.envelope_bytes, envelopeBytes]
  omega

/-! ## The published window -/

section Window
variable {events : List ManagerEvent}

/-- No window of the events that is within the budget leaves less room than the object around it may take. -/
def RoomAround (events : List ManagerEvent) : Prop :=
  ∀ dropped, Json.bytes (encodeEvents (dropOldestJournalEvent^[dropped] events)) ≤ journalMaximumBytes →
    Json.bytes (encodeEvents (dropOldestJournalEvent^[dropped] events)) + envelopeBytes ≤ journalMaximumBytes

theorem dropBeyondBudget_spec (fuel : Nat) (events : List ManagerEvent) (evicted : Int) (hfuel : events.length ≤ fuel) :
    ∃ dropped ≤ fuel, dropBeyondBudget fuel events evicted =
      (dropOldestJournalEvent^[dropped] events, evicted + dropped) ∧
      Json.bytes (encodeEvents (dropOldestJournalEvent^[dropped] events)) ≤ journalMaximumBytes := by
  have hempty : Json.bytes (encodeEvents []) ≤ journalMaximumBytes := by decide
  induction fuel generalizing events evicted with
  | zero =>
    obtain rfl := List.eq_nil_of_length_eq_zero (Nat.le_zero.mp hfuel)
    refine ⟨0, le_rfl, ?_, hempty⟩
    rw [dropBeyondBudget, Nat.cast_zero, add_zero]
    rfl
  | succ fuel ih =>
    rw [dropBeyondBudget]
    split
    next hstop =>
      refine ⟨0, Nat.zero_le _, by rw [Nat.cast_zero, add_zero]; rfl, ?_⟩
      rcases hstop with rfl | hstop
      · exact hempty
      · exact hstop
    next hgo =>
      have hlength := dropOldestJournalEvent_length fun h => hgo (Or.inl h)
      obtain ⟨dropped, hle, heq, hwithin⟩ := ih (dropOldestJournalEvent events) (evicted + 1) (by omega)
      refine ⟨dropped + 1, Nat.succ_le_succ hle, ?_, ?_⟩
      · rw [heq, Function.iterate_succ_apply]
        push_cast
        rw [add_right_comm, add_assoc]
      · rwa [Function.iterate_succ_apply]

theorem dropOldest_iterate_sublist (dropped : Nat) (events : List ManagerEvent) :
    (dropOldestJournalEvent^[dropped] events).Sublist events := by
  induction dropped generalizing events with
  | zero => exact List.Sublist.refl events
  | succ dropped ih =>
    rw [Function.iterate_succ_apply]
    exact (ih _).trans (dropOldestJournalEvent_sublist events)

/-- A recorder with no more events than it may have, numbered up to the highest number. -/
structure Sized (r : DiagnosticsRecorder) : Prop extends Tallied r where
  bounded : r.events.length ≤ journalCapacity
  counted : ∀ event ∈ r.events, event.sequence ≤ r.highestSequence

/-- The published numbers are within range if the counted ones are, up to what the window itself drops. -/
theorem journal_counted {r : DiagnosticsRecorder} (h : Sized r) (hhighest : r.highestSequence < 2 ^ 63)
    (hcounts : r.evictedEvents + r.rejectedEvents + r.unclassifiedEvents + journalCapacity + 1 < 2 ^ 63) :
    r.journal.Counted := by
  have hevicted := h.evicted
  have hrejected := h.rejected
  have hunclassified := h.unclassified
  have hbounded := h.bounded
  obtain ⟨dropped, hdropped, heq, -⟩ := dropBeyondBudget_spec _ r.events r.evictedEvents le_rfl
  have hlast : ∀ n ∈ (dropOldestJournalEvent^[dropped] r.events).getLast?.map (·.sequence), Counts19 n := by
    intro n hn
    obtain ⟨event, hevent, rfl⟩ := Option.map_eq_some_iff.mp hn
    have hmem := (dropOldest_iterate_sublist dropped r.events).subset (List.mem_of_getLast? hevent)
    exact ⟨h.numbered event hmem, (h.counted event hmem).trans_lt hhighest⟩
  have hnone : ∀ n ∈ (none : Option Int), Counts19 n := fun n hn => absurd hn (Option.not_mem_none n)
  unfold DiagnosticsRecorder.journal
  rw [heq]
  dsimp only
  have hzero : (0 : Int) ≤ dropped := Int.natCast_nonneg dropped
  have hle : (dropped : Int) ≤ journalCapacity := by exact_mod_cast hdropped.trans hbounded
  have hsum : Counts19 (r.evictedEvents + dropped + r.rejectedEvents + r.unclassifiedEvents) := ⟨by omega, by omega⟩
  have hunavailable : Counts19 (r.evictedEvents + dropped + r.rejectedEvents + r.unclassifiedEvents + 1) :=
    ⟨by omega, by omega⟩
  have hone : Counts19 1 := ⟨by decide, by decide⟩
  have hevicted' : Counts19 (r.evictedEvents + dropped) := ⟨by omega, by omega⟩
  have hrejected' : Counts19 r.rejectedEvents := ⟨hrejected, by omega⟩
  have hunclassified' : Counts19 r.unclassifiedEvents := ⟨hunclassified, by omega⟩
  split
  · split
    · exact ⟨rfl, hnone, hunavailable, hevicted', hone, hunclassified'⟩
    · exact ⟨rfl, hnone, hsum, hevicted', hrejected', hunclassified'⟩
  · split
    · exact ⟨rfl, hlast, hsum, hevicted', hrejected', hunclassified'⟩
    · exact ⟨rfl, hlast, hsum, hevicted', hrejected', hunclassified'⟩

theorem journal_events_of_fits {r : DiagnosticsRecorder} {dropped : Nat}
    (hbeyond : ∀ k < dropped, journalMaximumBytes < Json.bytes (encodeEvents (dropOldestJournalEvent^[k] r.events)))
    (hwithin : Json.bytes (encodeEvents (dropOldestJournalEvent^[dropped] r.events)) ≤ journalMaximumBytes) :
    r.journal.events = dropOldestJournalEvent^[dropped] r.events := by
  rw [journal_events]
  generalize r.evictedEvents = evicted
  generalize hevents : r.events = events at hbeyond hwithin ⊢
  clear hevents
  induction dropped generalizing events evicted with
  | zero =>
    rw [Function.iterate_zero_apply] at hwithin ⊢
    cases events.length with
    | zero => rfl
    | succ fuel => rw [dropBeyondBudget, if_pos (Or.inr hwithin)]
  | succ dropped ih =>
    have hfirst := hbeyond 0 (Nat.succ_pos dropped)
    cases events with
    | nil => exact absurd hfirst (by decide)
    | cons first rest =>
      have hlength := dropOldestJournalEvent_length (List.cons_ne_nil first rest)
      have hgo : ¬ (first :: rest = [] ∨ Json.bytes (encodeEvents (first :: rest)) ≤ journalMaximumBytes) :=
        not_or.mpr ⟨List.cons_ne_nil _ _, not_le.mpr hfirst⟩
      rw [List.length_cons, dropBeyondBudget, if_neg hgo, Function.iterate_succ_apply,
        ← Nat.succ.inj (hlength.trans List.length_cons)]
      exact ih _ _ (fun k hk => hbeyond (k + 1) (Nat.succ_lt_succ hk)) hwithin

theorem journal_status_of_rejected {r : DiagnosticsRecorder} (hevents : r.journal.events ≠ [])
    (h : 0 < r.rejectedEvents) :
    r.journal.status = .truncated := by
  rw [journal_events] at hevents
  unfold DiagnosticsRecorder.journal
  dsimp only
  rw [if_neg fun hempty => hevents hempty.1, if_pos h]

theorem journal_bytes_le {r : DiagnosticsRecorder} (hcounted : r.journal.Counted) (hroom : RoomAround r.events) :
    Json.bytes r.journal.encode ≤ journalMaximumBytes := by
  obtain ⟨dropped, -, heq, hwithin⟩ := dropBeyondBudget_spec _ r.events r.evictedEvents le_rfl
  have hevents : r.journal.events = dropOldestJournalEvent^[dropped] r.events := by
    rw [journal_events, heq]
  unfold ManagerOperationJournal.encode
  have hle := hcounted.envelope_le (encodeEvents r.journal.events)
  have hroom' := hroom dropped hwithin
  rw [hevents] at hle ⊢
  omega

end Window

/-! ## Runs -/

section Runs
variable {rfc : Rfc3339} {isSpace : Char → Bool} {r : DiagnosticsRecorder}

theorem restoredCounts_nonneg (document : JournalDocument) :
    0 ≤ (restoredCounts document).1 ∧ 0 ≤ (restoredCounts document).2.1 ∧ 0 ≤ (restoredCounts document).2.2 := by
  have hevicted := le_max_right document.evictedEvents 0
  have hrejected := le_max_right document.rejectedEvents 0
  have hunclassified := le_max_right document.unclassifiedEvents 0
  have hdropped := le_max_right document.droppedEvents 0
  unfold restoredCounts
  dsimp only
  split
  · split
    · exact ⟨hevicted, Int.add_nonneg hrejected (by decide), Int.add_nonneg hunclassified (le_max_right _ _)⟩
    · exact ⟨hevicted, hrejected, hunclassified⟩
  · exact ⟨le_rfl, le_rfl, hdropped⟩

theorem foldl_coalesce_sequences {P : Int → Prop} {events rest : List ManagerEvent}
    (h : ∀ event ∈ events, P event.sequence)
    (hrest : ∀ event ∈ rest, P event.sequence) :
    ∀ event ∈ rest.foldl coalesceJournalEvent events, P event.sequence := by
  induction rest generalizing events with
  | nil => exact h
  | cons event rest ih =>
    refine ih (coalesceJournalEvent_sequences h (hrest event List.mem_cons_self)) fun x hx => ?_
    exact hrest x (List.mem_cons_of_mem event hx)

/-- What holds of the numbers of the valid events holds of those that are left after sorting, coalescing and
    evicting. -/
theorem retained_sequences {P : Int → Prop} {events : List ManagerEvent} (fuel : Nat) (evicted : Int)
    (h : ∀ event ∈ events, validJournalEvent rfc event = true → P event.sequence) :
    ∀ event ∈ (evictBeyond fuel (((events.filter (validJournalEvent rfc)).insertionSort fun a b =>
      a.sequence ≤ b.sequence).foldl
      coalesceJournalEvent []) evicted).1, P event.sequence := by
  refine evictBeyond_sequences fuel evicted (foldl_coalesce_sequences
    (fun _ h => absurd h List.not_mem_nil) fun event hevent => ?_)
  obtain ⟨hmem, hvalid⟩ := List.mem_filter.mp ((List.perm_insertionSort _ _).mem_iff.mp hevent)
  exact h event hmem hvalid

/-- Whatever a document holds: only events with a number are valid, none has a number above the highest one, and
    no count is taken over that is negative. -/
theorem restoreDocument_sized (rfc : Rfc3339) (r : DiagnosticsRecorder) (document : JournalDocument) :
    Sized (r.restoreDocument rfc document) := by
  obtain ⟨hevicted, hrejected, hunclassified⟩ := restoredCounts_nonneg document
  unfold restoreDocument
  generalize restoredCounts document = counts at hevicted hrejected hunclassified
  obtain ⟨evicted, rejected, unclassified⟩ := counts
  dsimp only
  generalize (if document.schemaVersion = legacyDiagnosticsSchemaVersion then document.events.map normalizeManagerEvent
    else document.events) = migrated
  refine ⟨⟨retained_sequences (P := (0 ≤ ·)) _ evicted fun event _ hvalid => ?_, ?_,
    hevicted.trans (evictBeyond_count _ _ _), ?_, hunclassified⟩, evictBeyond_length _ _,
    retained_sequences (P := (· ≤ _)) _ evicted fun event hevent _ => le_foldl_max_of_mem hevent⟩
  · have hsequence := (validJournalEvent_iff.mp hvalid).1.sequence
    omega
  · exact (le_max_right _ _).trans (le_foldl_max _ _)
  · exact Int.add_nonneg hrejected (Int.natCast_nonneg _)

theorem newDiagnosticsRecorder_sized (stateDirectory instanceID : String) :
    Sized (newDiagnosticsRecorder stateDirectory instanceID) :=
  ⟨newDiagnosticsRecorder_tallied stateDirectory instanceID, Nat.zero_le _, fun _ h => absurd h List.not_mem_nil⟩

theorem Sized.record (h : Sized r) (observation : DiagnosticsObservation) (now : Int) :
    Sized (r.record rfc isSpace observation now).1 := by
  have htallied := h.toTallied.record rfc isSpace observation now
  obtain ⟨docker, github, ⟨heq, -⟩ | ⟨journaled, event, -, hevent, heq⟩⟩ := record_eq rfc isSpace r observation now
  · rw [heq]
    exact { h with }
  · rw [heq] at htallied ⊢
    refine ⟨htallied, evictBeyond_length _ _, evictBeyond_sequences (P := (· ≤ r.highestSequence + 1)) _ _ ?_⟩
    refine coalesceJournalEvent_sequences (P := (· ≤ r.highestSequence + 1))
      (fun event hevent => (h.counted event hevent).trans (lt_add_one _).le) ?_
    rw [hevent]
    exact le_rfl

theorem Sized.recordRestore (h : Sized r) (now : Int) : Sized (r.recordRestore rfc isSpace now).1 := by
  have hrecorded : Sized (r.record rfc isSpace restoreObservation now).1 := h.record restoreObservation now
  unfold DiagnosticsRecorder.recordRestore
  split
  · generalize r.record rfc isSpace restoreObservation now = recorded at hrecorded
    obtain ⟨r', _ | ⟨event, built⟩⟩ := recorded
    · exact hrecorded
    · exact hrecorded
  · exact h

theorem Sized.rejectJournal (h : Sized r) : Sized r.rejectJournal :=
  { h with rejected := Int.add_nonneg h.rejected (by decide) }

/-- `restore` of whatever the file holds. -/
theorem Sized.restore (h : Sized r) (read : Option JournalFile) (now : Int) :
    Sized (r.restore rfc isSpace read now).1 := by
  unfold DiagnosticsRecorder.restore
  split
  · exact h
  · split
    · exact h.rejectJournal
    · exact h.rejectJournal
    · exact h
    next document =>
      split
      · exact h.rejectJournal
      · exact (restoreDocument_sized rfc r document).recordRestore now

theorem sized_step {r : Option DiagnosticsRecorder} (h : ∀ r' ∈ r, Sized r') (event : RecorderEvent) :
    ∀ r' ∈ (recorderStep rfc isSpace r event).1, Sized r' := by
  intro r' hr'
  cases event with
  | start stateDirectory instanceID =>
    rw [← Option.mem_some.mp hr']
    exact newDiagnosticsRecorder_sized stateDirectory instanceID
  | restore read now =>
    obtain ⟨r, hr, rfl⟩ := Option.map_eq_some_iff.mp hr'
    exact (h r hr).restore read now
  | record observation now =>
    obtain ⟨r, hr, rfl⟩ := Option.map_eq_some_iff.mp hr'
    exact (h r hr).record observation now

end Runs

/-- In every run, whatever it records and whatever files it restores: if no window of the retained events is too
    close to the budget, and the counts are within Go's `int`, the published object is within the budget. -/
theorem journal_within_budget (rfc : Rfc3339) (isSpace : Char → Bool) (run : List RecorderEvent)
    {r : DiagnosticsRecorder}
    (hr : exec (recorderStep rfc isSpace) none run = some r)
    (hhighest : r.highestSequence < 2 ^ 63)
    (hcounts : r.evictedEvents + r.rejectedEvents + r.unclassifiedEvents + journalCapacity + 1 < 2 ^ 63)
    (hroom : RoomAround r.events) : Json.bytes r.journal.encode ≤ journalMaximumBytes := by
  have hsized : ∀ r ∈ exec (recorderStep rfc isSpace) none run, Sized r :=
    exec_induction (I := fun r => ∀ r' ∈ r, Sized r') (fun r hr => absurd hr (Option.not_mem_none r))
      (fun _ event h => sized_step h event) run
  exact journal_bytes_le (journal_counted (hsized r hr) hhighest hcounts) hroom

/-! ### Runs of launches -/

def launched (target : String) : DiagnosticsObservation where
  subsystem := .other "worker-launch"
  operation := .workerLaunch
  target
  outcome := .succeeded
  reason := .none

def launchTime : Int := 1782896400 * second

def launches (read : Option JournalFile) (target : String) (n : Nat) : List RecorderEvent :=
  .start "/state" "first" :: .restore read launchTime :: List.replicate n (.record (launched target) launchTime)

def launchesRecorder (read : Option JournalFile) (target : String) (n : Nat) : DiagnosticsRecorder :=
  (exec (recorderStep utcTime Char.isWhitespace) none (launches read target n)).getD (newDiagnosticsRecorder "" "")

def firstLaunch (target : String) : ManagerEvent :=
  ((newDiagnosticsRecorder "/state" "first").buildEventLocked utcTime Char.isWhitespace (launched target) launchTime).2

def launchedEvent (target : String) (sequence : Nat) : ManagerEvent := { firstLaunch target with sequence }

section Launches
variable {target : String} {size : Nat}

theorem encode_bytes (event : ManagerEvent) (sequence : Int) :
    Json.bytes ({ event with sequence }).encode + Json.bytes (Json.int event.sequence) =
      Json.bytes event.encode + Json.bytes (Json.int sequence) := by
  unfold ManagerEvent.encode
  rw [Json.bytes_object (List.cons_ne_nil _ _), Json.bytes_object (List.cons_ne_nil _ _)]
  simp only [List.map_cons, List.sum_cons, Json.bytes_field, List.length_cons]
  omega

variable (hfirst : Json.bytes (firstLaunch target).encode = size + Json.bytes (Json.int (firstLaunch target).sequence))
include hfirst

theorem launchedEvent_bytes (sequence : Nat) :
    Json.bytes (launchedEvent target sequence).encode = size + Json.bytes (Json.int sequence) := by
  have hencode :
    Json.bytes (launchedEvent target sequence).encode + Json.bytes (Json.int (firstLaunch target).sequence) =
      Json.bytes (firstLaunch target).encode + Json.bytes (Json.int sequence) :=
        encode_bytes (firstLaunch target) sequence
  omega

theorem launched_bytes (first : Nat) {n : Nat} (hn : n ≠ 0) :
    Json.bytes (encodeEvents ((List.range' first n).map (launchedEvent target))) =
      ((List.range' first n).map fun sequence : Nat => size + Json.bytes (Json.int sequence)).sum + n + 1 := by
  have hne : ((List.range' first n).map (launchedEvent target)).map ManagerEvent.encode ≠ [] := by simp [hn]
  have hsizes : (Json.bytes ∘ ManagerEvent.encode) ∘ launchedEvent target =
      fun sequence : Nat => size + Json.bytes (Json.int sequence) := funext (launchedEvent_bytes hfirst)
  rw [encodeEvents, Json.bytes_array hne, List.map_map, List.map_map, hsizes, List.length_map, List.length_map,
    List.length_range']

omit hfirst in
theorem dropOldest_launched (first n dropped : Nat) :
    dropOldestJournalEvent^[dropped] ((List.range' first n).map (launchedEvent target)) =
      (List.range' (first + dropped) (n - dropped)).map (launchedEvent target) := by
  induction dropped generalizing first n with
  | zero => rfl
  | succ dropped ih =>
    rw [Function.iterate_succ_apply]
    cases n with
    | zero =>
      rw [Nat.zero_sub]
      exact Function.iterate_fixed rfl dropped
    | succ n =>
      have hdrop : dropOldestJournalEvent ((List.range' first (n + 1)).map (launchedEvent target)) =
          (List.range' (first + 1) n).map (launchedEvent target) := by
        rw [List.range'_succ, List.map_cons]
        rcases dropOldestJournalEvent_cases (launchedEvent target first)
          ((List.range' (first + 1) n).map (launchedEvent target))
          with ⟨heq, -⟩ | ⟨_, _, -, -, hunresolved, -⟩
        · exact heq
        · exact absurd hunresolved.1 (by show ¬ JournalSubsystem.other "worker-launch" = .recovery; decide)
      rw [hdrop, ih, Nat.succ_sub_succ, Nat.add_assoc, Nat.add_comm 1 dropped]

end Launches

/-- A manager that cannot read its journal and starts 45 workers. -/
def crowdedRun : List RecorderEvent := launches none "acme/widget-factory-eu" 45

def crowdedRecorder : DiagnosticsRecorder := launchesRecorder none "acme/widget-factory-eu" 45

theorem crowdedRecorder_events : exec (recorderStep utcTime Char.isWhitespace) none crowdedRun = some crowdedRecorder ∧
    crowdedRecorder.events = (List.range' 1 45).map (launchedEvent "acme/widget-factory-eu") := by
  decide +kernel

def crowdedBytes (dropped : Nat) : Nat :=
  ((List.range' (1 + dropped) (45 - dropped)).map fun n : Nat => 407 + Json.bytes (Json.int n)).sum + (45 - dropped) + 1

theorem crowdedRecorder_bytes {dropped : Nat} (h : dropped < 45) :
    Json.bytes (encodeEvents (dropOldestJournalEvent^[dropped] crowdedRecorder.events)) = crowdedBytes dropped := by
  have hfirst : Json.bytes (firstLaunch "acme/widget-factory-eu").encode =
      407 + Json.bytes (Json.int (firstLaunch "acme/widget-factory-eu").sequence) := by decide +kernel
  rw [crowdedRecorder_events.2, dropOldest_launched, launched_bytes hfirst _ (Nat.sub_ne_zero_of_lt h), crowdedBytes]

theorem crowdedRecorder_room : RoomAround crowdedRecorder.events := by
  have hwindows : ∀ dropped < 45, crowdedBytes dropped ≤ journalMaximumBytes →
      crowdedBytes dropped + envelopeBytes ≤ journalMaximumBytes := by decide +kernel
  intro dropped
  by_cases hlt : dropped < 45
  · rw [crowdedRecorder_bytes hlt]
    exact hwindows dropped hlt
  · rw [crowdedRecorder_events.2, dropOldest_launched, Nat.sub_eq_zero_of_le (not_lt.mp hlt), List.range'_zero,
      List.map_nil]
    exact fun _ => by decide

theorem crowdedRecorder_published :
    crowdedRecorder.journal.events = dropOldestJournalEvent^[6] crowdedRecorder.events := by
  have hwindows :
      (∀ dropped < 6, journalMaximumBytes < crowdedBytes dropped) ∧ crowdedBytes 6 ≤ journalMaximumBytes := by
    decide +kernel
  refine journal_events_of_fits (fun dropped hlt => ?_) ?_
  · rw [crowdedRecorder_bytes (by omega)]
    exact hwindows.1 dropped hlt
  · rw [crowdedRecorder_bytes (by decide)]
    exact hwindows.2

/-- Of the 45 events 39 are published, with room for the object around them. -/
theorem journal_within_budget_crowded :
    crowdedRecorder.events.length = 45 ∧ crowdedRecorder.journal.events.length = 39 ∧
      crowdedRecorder.journal.status = .truncated ∧
        Json.bytes crowdedRecorder.journal.encode ≤ journalMaximumBytes := by
  have hcounts : crowdedRecorder.highestSequence = 45 ∧ crowdedRecorder.evictedEvents = 0 ∧
      crowdedRecorder.rejectedEvents = 1 ∧ crowdedRecorder.unclassifiedEvents = 0 := by decide +kernel
  obtain ⟨hhighest, hevicted, hrejected, hunclassified⟩ := hcounts
  have hlength : crowdedRecorder.journal.events.length = 39 := by
    rw [crowdedRecorder_published, crowdedRecorder_events.2, dropOldest_launched, List.length_map, List.length_range']
  refine ⟨by rw [crowdedRecorder_events.2, List.length_map, List.length_range'], hlength, ?_, ?_⟩
  · refine journal_status_of_rejected (fun hempty => ?_) (by rw [hrejected]; decide)
    rw [hempty] at hlength
    cases hlength
  · refine journal_within_budget utcTime Char.isWhitespace crowdedRun crowdedRecorder_events.1 ?_ ?_
      crowdedRecorder_room
    · rw [hhighest]
      decide
    · rw [hevicted, hrejected, hunclassified]
      decide

/-- The events of 41 launches are within the budget and all published, and the object around them is not. -/
theorem launches_beyond_budget :
    ∃ r, exec (recorderStep utcTime Char.isWhitespace) none (launches (some .absent) "acme/widget" 41) = some r ∧
      r.events.length = 41 ∧ r.journal.events = r.events ∧ journalMaximumBytes < Json.bytes r.journal.encode := by
  have hfirst : Json.bytes (firstLaunch "acme/widget").encode =
      396 + Json.bytes (Json.int (firstLaunch "acme/widget").sequence) := by decide +kernel
  have hevents : exec (recorderStep utcTime Char.isWhitespace) none (launches (some .absent) "acme/widget" 41) =
        some (launchesRecorder (some .absent) "acme/widget" 41) ∧
      (launchesRecorder (some .absent) "acme/widget" 41).events =
        (List.range' 1 41).map (launchedEvent "acme/widget") := by
    decide +kernel
  have hbytes : Json.bytes (encodeEvents (launchesRecorder (some .absent) "acme/widget" 41).events) = 16351 := by
    rw [hevents.2, launched_bytes hfirst 1 (by decide)]
    decide +kernel
  have hpublished : (launchesRecorder (some .absent) "acme/widget" 41).journal.events =
      (launchesRecorder (some .absent) "acme/widget" 41).events :=
    @journal_events_of_fits _ 0 (fun k hk => absurd hk (Nat.not_lt_zero k)) (by
      rw [Function.iterate_zero_apply, hbytes]
      decide)
  refine ⟨_, hevents.1, by rw [hevents.2, List.length_map, List.length_range'], hpublished, ?_⟩
  unfold ManagerOperationJournal.encode
  rw [ManagerOperationJournal.envelope_bytes, hpublished, hbytes, journalMaximumBytes]
  omega

end PitCrew.Autoscaler.Diagnostics
