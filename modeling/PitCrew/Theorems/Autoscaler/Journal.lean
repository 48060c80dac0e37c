import PitCrew.Autoscaler.Journal
import PitCrew.Theorems.Autoscaler.Retirement

/-! # Sequence numbers of the journal

The recorder counts its events, and every document it builds carries the count. The count of the file
follows as long as no document is written after one that was built later (`JournalCall.overtaken`): then a
new manager goes on from the count of the last one. A document that is written too late takes the count of
the file back, and the numbers between are assigned a second time after a restart. -/

namespace PitCrew.Autoscaler.Diagnostics
open Base

/-- The `HighestSequence` that the file holds. A file that is not a journal of a schema this manager reads
    holds none. -/
def JournalFile.highestSequence : JournalFile → Int
  | .document d => if DiagnosticsRecorder.supportedSchema d then d.highestSequence else 0
  | _ => 0

namespace DiagnosticsRecorder

/-! ## What the recorder counts -/

section Counts
variable {rfc : Rfc3339} {isSpace : Char → Bool} {r r' : DiagnosticsRecorder} {observation : DiagnosticsObservation}
  {now : Int}

theorem updateHealth_frame (rfc : Rfc3339) (r : DiagnosticsRecorder) (observation : DiagnosticsObservation)
    (now : Int) :
    (r.updateHealthLocked rfc observation now).1.highestSequence = r.highestSequence ∧
      (r.updateHealthLocked rfc observation now).1.path = r.path := by
  unfold updateHealthLocked
  split <;> exact ⟨rfl, rfl⟩

structure CountedBy (r : DiagnosticsRecorder) (document : JournalDocument) : Prop where
  schema : document.schemaVersion = diagnosticsSchemaVersion
  highest : document.highestSequence = r.highestSequence

theorem counted_document (r : DiagnosticsRecorder) : CountedBy r r.documentLocked := ⟨rfl, rfl⟩

theorem highest_document {document : JournalDocument} (h : document.schemaVersion = diagnosticsSchemaVersion) :
    (JournalFile.document document).highestSequence = document.highestSequence := by
  have hschema : supportedSchema document = true := by simp [supportedSchema, h]
  rw [JournalFile.highestSequence, if_pos hschema]

theorem CountedBy.stored {document : JournalDocument} (h : CountedBy r document) :
    (JournalFile.document document).highestSequence = r.highestSequence :=
  (highest_document h.schema).trans h.highest

theorem record_cases (rfc : Rfc3339) (isSpace : Char → Bool) (r : DiagnosticsRecorder)
    (observation : DiagnosticsObservation) (now : Int) :
    (∃ r', r.record rfc isSpace observation now = (r', none) ∧ r'.highestSequence = r.highestSequence ∧
        r'.path = r.path ∧ journalWorthy observation = false) ∨
      ∃ r' event document, r.record rfc isSpace observation now = (r', some (event, document)) ∧
        r'.highestSequence = r.highestSequence + 1 ∧ r'.path = r.path ∧ event.sequence = r'.highestSequence ∧
        CountedBy r' document := by
  obtain ⟨hhighest, hpath⟩ := updateHealth_frame rfc r observation now
  unfold record
  generalize r.updateHealthLocked rfc observation now = u at hhighest hpath
  obtain ⟨r₁, recovered⟩ := u
  dsimp only at hhighest hpath ⊢
  split
  · refine Or.inr ⟨_, _, _, rfl, ?_, hpath, rfl, counted_document _⟩
    show r₁.highestSequence + 1 = _
    rw [hhighest]
  next hworthy =>
    rw [Bool.or_eq_true, not_or, Bool.not_eq_true] at hworthy
    exact Or.inl ⟨r₁, rfl, hhighest, hpath, hworthy.1⟩

theorem le_foldl_max (events : List ManagerEvent) (highest : Int) :
    highest ≤ events.foldl (fun highest event => max highest event.sequence) highest := by
  induction events generalizing highest with
  | nil => exact le_rfl
  | cons event events ih => exact (le_max_left _ _).trans (ih _)

theorem restoreDocument_highest (rfc : Rfc3339) (r : DiagnosticsRecorder) (document : JournalDocument) :
    document.highestSequence ≤ (r.restoreDocument rfc document).highestSequence ∧
      (r.restoreDocument rfc document).path = r.path :=
  ⟨(le_max_left _ _).trans (le_foldl_max _ _), rfl⟩

/-- What a new recorder has restored from a file: it goes on from the count of the file, and either it writes
    its own count or that is what the file holds. -/
structure Restored (file : JournalFile) (r : DiagnosticsRecorder) (sequence : Option Int)
    (document : Option JournalDocument) : Prop where
  path : r.path ≠ ""
  highest : file.highestSequence ≤ r.highestSequence
  counted : ∀ d ∈ document, CountedBy r d
  kept : document = none → r.highestSequence ≤ file.highestSequence
  assigned : ∀ n ∈ sequence, file.highestSequence < n ∧ n = r.highestSequence

theorem recordRestore_restored {file : JournalFile} (hpath : r.path ≠ "")
    (hle : file.highestSequence ≤ r.highestSequence) :
    Restored file (r.recordRestore rfc isSpace now).1 (r.recordRestore rfc isSpace now).2.1
      (r.recordRestore rfc isSpace now).2.2 := by
  unfold recordRestore
  split
  · rcases record_cases rfc isSpace r restoreObservation now with
      ⟨r', -, -, -, hworthy⟩ | ⟨r', event, document, heq, hhighest, hpath', hseq, hcounted⟩
    · exact absurd hworthy (by decide)
    · rw [heq]
      refine ⟨hpath' ▸ hpath, ?_, fun d hd => ?_, fun h => absurd h (Option.some_ne_none _), fun n hn => ?_⟩
      · show file.highestSequence ≤ r'.highestSequence
        omega
      · rw [← Option.mem_some.mp hd]
        exact hcounted
      · rw [← Option.mem_some.mp hn]
        exact ⟨by omega, hseq⟩
  · refine ⟨hpath, hle, fun d hd => ?_, fun h => absurd h (Option.some_ne_none _),
      fun n hn => absurd hn (Option.not_mem_none n)⟩
    rw [← Option.mem_some.mp hd]
    exact counted_document r

theorem restored_nothing {file : JournalFile} (hpath : r.path ≠ "") (hzero : r.highestSequence = 0)
    (hfile : file.highestSequence = 0) : Restored file r none none :=
  ⟨hpath, by rw [hfile, hzero], fun d hd => absurd hd (Option.not_mem_none d), fun _ => by rw [hfile, hzero],
    fun n hn => absurd hn (Option.not_mem_none n)⟩

theorem restore_restored (rfc : Rfc3339) (isSpace : Char → Bool) (now : Int) (file : JournalFile) (hpath : r.path ≠ "")
    (hzero : r.highestSequence = 0) :
    Restored file (r.restore rfc isSpace (some file) now).1 (r.restore rfc isSpace (some file) now).2.1
      (r.restore rfc isSpace (some file) now).2.2 := by
  unfold restore
  rw [if_neg hpath]
  cases file with
  | absent => exact restored_nothing hpath hzero rfl
  | malformed => exact restored_nothing hpath hzero rfl
  | document document =>
    dsimp only
    split
    next hschema => exact restored_nothing hpath hzero (by rw [JournalFile.highestSequence, hschema]; rfl)
    next hschema =>
      obtain ⟨hle, hpath'⟩ := restoreDocument_highest rfc r document
      refine recordRestore_restored (hpath' ▸ hpath) ?_
      rw [JournalFile.highestSequence, if_pos (Bool.not_eq_false _ ▸ hschema)]
      exact hle

end Counts
end DiagnosticsRecorder

/-! ## Runs of the journal -/

def JournalCall.highestSequence (c : JournalCall) : Int := c.document.highestSequence

open DiagnosticsRecorder

/-- A running recorder, the file and the calls in progress: the calls are in the order of their counts, the
    last count is in the file or on its way, and the calls that the file has not reached are the ones not
    overtaken. -/
structure Counting (file : JournalFile) (r : DiagnosticsRecorder) (calls : List JournalCall) : Prop where
  path : r.path ≠ ""
  stored : file.highestSequence ≤ r.highestSequence
  schema : ∀ c ∈ calls, c.document.schemaVersion = diagnosticsSchemaVersion
  counted : ∀ c ∈ calls, c.highestSequence ≤ r.highestSequence
  covered : r.highestSequence ≤ file.highestSequence ∨ ∃ c ∈ calls, r.highestSequence ≤ c.highestSequence
  ordered : calls.Pairwise fun a b => a.highestSequence < b.highestSequence
  overtaken : ∀ c ∈ calls, c.overtaken = true → c.highestSequence < file.highestSequence
  ahead : ∀ c ∈ calls, c.overtaken = false → file.highestSequence ≤ c.highestSequence

section Counting
variable {file : JournalFile} {r r' : DiagnosticsRecorder} {calls : List JournalCall}

theorem Counting.same (h : Counting file r calls) (hhighest : r'.highestSequence = r.highestSequence)
    (hpath : r'.path = r.path) : Counting file r' calls := by
  obtain ⟨path, stored, schema, counted, covered, ordered, overtaken, ahead⟩ := h
  rw [← hhighest] at stored counted covered
  exact ⟨hpath ▸ path, stored, schema, counted, covered, ordered, overtaken, ahead⟩

theorem Counting.record (h : Counting file r calls) {document : JournalDocument}
    (hhighest : r'.highestSequence = r.highestSequence + 1) (hpath : r'.path = r.path)
    (hdocument : CountedBy r' document) : Counting file r' (calls ++ [{ document := document }]) := by
  have hstored := h.stored
  have hnew : JournalCall.highestSequence { document := document } = r'.highestSequence := hdocument.highest
  refine ⟨hpath ▸ h.path, by omega, ?_, ?_, Or.inr ⟨_, List.mem_concat_self, hnew.ge⟩, ?_, ?_, ?_⟩
  · intro c hc
    rcases List.mem_append.mp hc with hc | hc
    · exact h.schema c hc
    · rw [List.mem_singleton.mp hc]
      exact hdocument.schema
  · intro c hc
    rcases List.mem_append.mp hc with hc | hc
    · have := h.counted c hc
      omega
    · rw [List.mem_singleton.mp hc, hnew]
  · refine List.pairwise_append.mpr ⟨h.ordered, List.pairwise_singleton _ _, fun c hc d hd => ?_⟩
    have := h.counted c hc
    rw [List.mem_singleton.mp hd, hnew]
    omega
  · intro c hc hover
    rcases List.mem_append.mp hc with hc | hc
    · exact h.overtaken c hc hover
    · rw [List.mem_singleton.mp hc] at hover
      exact absurd hover Bool.false_ne_true
  · intro c hc hover
    rcases List.mem_append.mp hc with hc | hc
    · exact h.ahead c hc hover
    · rw [List.mem_singleton.mp hc, hnew]
      omega

theorem Counting.stored_call (h : Counting file r calls) {c : JournalCall} (hc : c ∈ calls) :
    (JournalFile.document c.document).highestSequence = c.highestSequence :=
  highest_document (h.schema c hc)

theorem calls_split {call : Nat} {c : JournalCall} (hc : calls[call]? = some c) :
    calls = calls.take call ++ c :: calls.drop (call + 1) := by
  obtain ⟨hlt, rfl⟩ := List.getElem?_eq_some_iff.mp hc
  rw [← List.drop_eq_getElem_cons hlt, List.take_append_drop]

theorem mem_written {call : Nat} {d : JournalCall} : d ∈ JournalSystem.written calls call ↔
    (∃ x ∈ calls.take call, x.overtake = d) ∨ d ∈ calls.drop (call + 1) := by
  rw [JournalSystem.written, List.mem_append, List.mem_map]

theorem pairwise_written {call : Nat} {P : JournalCall → JournalCall → Prop}
    (hP : ∀ a b, P a b → P a.overtake b ∧ P a.overtake b.overtake)
    (h : calls.Pairwise P) : (JournalSystem.written calls call).Pairwise P := by
  have hsub : (calls.take call ++ calls.drop (call + 1)).Sublist calls := by
    nth_rewrite 3 [← List.take_append_drop call calls]
    exact (List.Sublist.refl _).append (List.drop_sublist_drop_left calls (Nat.le_succ call))
  obtain ⟨htake, hdrop, hacross⟩ := List.pairwise_append.mp (h.sublist hsub)
  refine List.pairwise_append.mpr ⟨?_, hdrop, fun a ha b hb => ?_⟩
  · exact List.pairwise_map.mpr (htake.imp fun hab => (hP _ _ hab).2)
  · obtain ⟨x, hx, rfl⟩ := List.mem_map.mp ha
    exact (hP _ _ (hacross x hx b hb)).1

/-- A call that was not overtaken writes a count that the file has not passed, and the calls before it are now
    overtaken. -/
theorem Counting.write (h : Counting file r calls) {call : Nat} {c : JournalCall} (hc : calls[call]? = some c)
    (hover : c.overtaken = false) (hhighest : r'.highestSequence = r.highestSequence) (hpath : r'.path = r.path) :
    Counting (.document c.document) r' (JournalSystem.written calls call) := by
  have hmem := List.mem_of_getElem? hc
  have hstored := h.stored_call hmem
  have hsplit := calls_split hc
  have htake {x : JournalCall} (hx : x ∈ calls.take call) : x ∈ calls := List.mem_of_mem_take hx
  have hdrop {x : JournalCall} (hx : x ∈ calls.drop (call + 1)) : x ∈ calls := List.mem_of_mem_drop hx
  have hordered := h.ordered
  rw [hsplit] at hordered
  obtain ⟨-, hcys, hbefore⟩ := List.pairwise_append.mp hordered
  have hafter := (List.pairwise_cons.mp hcys).1
  have hahead := h.ahead c hmem hover
  refine ⟨hpath ▸ h.path, ?_, ?_, ?_, ?_, pairwise_written (fun _ _ hab => ⟨hab, hab⟩) h.ordered, ?_, ?_⟩
  · rw [hstored, hhighest]
    exact h.counted c hmem
  · intro d hd
    rcases mem_written.mp hd with ⟨x, hx, rfl⟩ | hd
    · exact h.schema x (htake hx)
    · exact h.schema d (hdrop hd)
  · intro d hd
    rw [hhighest]
    rcases mem_written.mp hd with ⟨x, hx, rfl⟩ | hd
    · exact h.counted x (htake hx)
    · exact h.counted d (hdrop hd)
  · -- the call with the last count is this one or comes after it
    rw [hhighest, hstored]
    rcases h.covered with hcovered | ⟨d, hd, hcovered⟩
    · exact Or.inl (hcovered.trans hahead)
    · rw [hsplit] at hd
      rcases List.mem_append.mp hd with hd | hd
      · exact Or.inl (hcovered.trans (hbefore d hd c List.mem_cons_self).le)
      rcases List.mem_cons.mp hd with rfl | hd
      · exact Or.inl hcovered
      · exact Or.inr ⟨d, mem_written.mpr (Or.inr hd), hcovered⟩
  · intro d hd hdover
    rw [hstored]
    rcases mem_written.mp hd with ⟨x, hx, rfl⟩ | hd
    · exact hbefore x hx c List.mem_cons_self
    · exact absurd (h.overtaken d (hdrop hd) hdover) (hahead.trans (hafter d hd).le).not_gt
  · intro d hd hdover
    rw [hstored]
    rcases mem_written.mp hd with ⟨x, hx, rfl⟩ | hd
    · exact absurd hdover (by simp [JournalCall.overtake])
    · exact (hafter d hd).le

theorem Counting.quiet (path : r.path ≠ "") (hle : file.highestSequence ≤ r.highestSequence)
    (hge : r.highestSequence ≤ file.highestSequence) : Counting file r [] where
  path
  stored := hle
  schema := List.forall_mem_nil _
  counted := List.forall_mem_nil _
  covered := Or.inl hge
  ordered := .nil
  overtaken := List.forall_mem_nil _
  ahead := List.forall_mem_nil _

end Counting

/-- The state of a run: no manager yet, or one that counts on from the file. -/
inductive Journaled : JournalSystem → Prop
  | stopped (file : JournalFile) : Journaled { file }
  | running {file : JournalFile} {r : DiagnosticsRecorder} {calls : List JournalCall} (h : Counting file r calls) :
      Journaled { file, recorder := some r, calls }

def JournalSystem.count (s : JournalSystem) : Int :=
  match s.recorder with
  | none => s.file.highestSequence
  | some r => r.highestSequence

/-- The event is not the write of a call after one that built its document later has written. -/
def InOrder (s : JournalSystem) : JournalEvent → Prop
  | .write call => ∀ c ∈ s.calls[call]?, c.overtaken = false
  | _ => True

instance (s : JournalSystem) (event : JournalEvent) : Decidable (InOrder s event) := by
  cases event <;> unfold InOrder <;> infer_instance

section Runs
variable {rfc : Rfc3339} {isSpace : Char → Bool} {stateDirectory : String}

/-- A step keeps the count, or moves it beyond the number it had and assigns the number it reaches. -/
structure Counts (s : JournalSystem) (result : JournalSystem × Option Int) : Prop where
  journaled : Journaled result.1
  stored : s.file.highestSequence ≤ result.1.file.highestSequence
  count : s.count ≤ result.1.count
  assigned : ∀ n ∈ result.2, s.count < n ∧ n ≤ result.1.count

theorem Counts.idle {s : JournalSystem} (h : Journaled s) : Counts s (s, none) :=
  ⟨h, le_rfl, le_rfl, fun n hn => absurd hn (Option.not_mem_none n)⟩

theorem persist_eq {r : DiagnosticsRecorder} (hpath : r.path ≠ "") (file : JournalFile) (document : JournalDocument) :
    JournalSystem.persist r file document = ({ r with persistFailed := false }, .document document) :=
  if_neg hpath

theorem counts_record {file : JournalFile} {r : DiagnosticsRecorder} {calls : List JournalCall}
    (h : Counting file r calls) (observation : DiagnosticsObservation) (now : Int) :
    Counts { file, recorder := some r, calls }
      (JournalSystem.step rfc isSpace stateDirectory { file, recorder := some r, calls }
        (.record observation now)) := by
  rcases record_cases rfc isSpace r observation now with
    ⟨r', heq, hhighest, hpath, -⟩ | ⟨r', event, document, heq, hhighest, hpath, hseq, hcounted⟩
  · simp only [JournalSystem.step, heq]
    exact ⟨.running (h.same hhighest hpath), le_rfl, hhighest.ge, fun n hn => absurd hn (Option.not_mem_none n)⟩
  · simp only [JournalSystem.step, heq]
    have hlt : r.highestSequence < r'.highestSequence := by omega
    refine ⟨.running (h.record hhighest hpath hcounted), le_rfl, hlt.le, fun n hn => ?_⟩
    rw [← Option.mem_some.mp hn, hseq]
    exact ⟨hlt, le_rfl⟩

theorem counts_write {file : JournalFile} {r : DiagnosticsRecorder} {calls : List JournalCall}
    (h : Counting file r calls) {call : Nat}
    (inOrder : InOrder { file, recorder := some r, calls } (.write call)) :
    Counts { file, recorder := some r, calls }
      (JournalSystem.step rfc isSpace stateDirectory { file, recorder := some r, calls } (.write call)) := by
  cases hc : calls[call]? with
  | none =>
    simp only [JournalSystem.step, hc]
    exact Counts.idle (.running h)
  | some c =>
    simp only [JournalSystem.step, hc, persist_eq h.path]
    have hover := inOrder c hc
    have hmem := List.mem_of_getElem? hc
    refine ⟨.running (h.write hc hover rfl rfl), ?_, le_rfl, fun n hn => absurd hn (Option.not_mem_none n)⟩
    rw [h.stored_call hmem]
    exact h.ahead c hmem hover

theorem newRecorder_path (hdirectory : stateDirectory ≠ "") (instanceID : String) :
    (newDiagnosticsRecorder stateDirectory instanceID).path ≠ "" := by
  rw [newDiagnosticsRecorder, if_pos hdirectory]
  intro h
  have hlength := congrArg String.length h
  simp [String.length_append, diagnosticsJournalFileName] at hlength

theorem Journaled.count_stored {s : JournalSystem} (h : Journaled s) (hcalls : s.calls = []) :
    s.count ≤ s.file.highestSequence := by
  cases h with
  | stopped file => exact le_rfl
  | running h =>
    obtain rfl : _ = [] := hcalls
    rcases h.covered with hcovered | ⟨c, hc, -⟩
    · exact hcovered
    · exact absurd hc List.not_mem_nil

theorem counts_restart (hdirectory : stateDirectory ≠ "") {s : JournalSystem} (h : Journaled s) (instanceID : String)
    (now : Int) :
    Counts s (JournalSystem.step rfc isSpace stateDirectory s (.restart instanceID now)) := by
  by_cases hcalls : s.calls = []
  · have hstored := h.count_stored hcalls
    obtain ⟨file, recorder, calls⟩ := s
    obtain rfl : calls = [] := hcalls
    have hrestored := restore_restored rfc isSpace now file (newRecorder_path hdirectory instanceID) rfl
    simp only [JournalSystem.step, ne_eq, not_true_eq_false, if_false]
    generalize (newDiagnosticsRecorder stateDirectory instanceID).restore rfc isSpace (some file) now = result
      at hrestored
    obtain ⟨r, sequence, document⟩ := result
    obtain ⟨hpath, hhighest, hcounted, hkept, hassigned⟩ := hrestored
    have hfresh (n) (hn : n ∈ sequence) : JournalSystem.count { file, recorder } < n ∧ n ≤ r.highestSequence :=
      ⟨hstored.trans_lt (hassigned n hn).1, (hassigned n hn).2.le⟩
    cases document with
    | none => exact ⟨.running (.quiet hpath hhighest (hkept rfl)), le_rfl, hstored.trans hhighest, hfresh⟩
    | some document =>
      have hdocument := (hcounted document rfl).stored
      simp only [persist_eq hpath]
      exact ⟨.running (.quiet hpath hdocument.le hdocument.ge), hhighest.trans hdocument.ge, hstored.trans hhighest,
        hfresh⟩
  · simp only [JournalSystem.step, ne_eq, hcalls, not_false_eq_true, if_true]
    exact Counts.idle h

theorem counts_step (hdirectory : stateDirectory ≠ "") {s : JournalSystem} (h : Journaled s) {event : JournalEvent}
    (inOrder : InOrder s event) : Counts s (JournalSystem.step rfc isSpace stateDirectory s event) := by
  cases event with
  | restart instanceID now => exact counts_restart hdirectory h instanceID now
  | record observation now =>
    cases h with
    | stopped file => exact Counts.idle (.stopped file)
    | running h => exact counts_record h observation now
  | write call =>
    cases h with
    | stopped file => exact Counts.idle (.stopped file)
    | running h => exact counts_write h inOrder

theorem inOrder_of_stored {s : JournalSystem} (h : Journaled s) {event : JournalEvent}
    (hstored : s.file.highestSequence ≤
      (JournalSystem.step rfc isSpace stateDirectory s event).1.file.highestSequence) :
    InOrder s event := by
  cases event with
  | restart instanceID now => exact trivial
  | record observation now => exact trivial
  | write call =>
    intro c hc
    cases h with
    | stopped file => exact absurd hc (by simp)
    | running h =>
      have hmem := List.mem_of_getElem? hc
      have hcall := Option.mem_def.mp hc
      dsimp only at hcall
      simp only [JournalSystem.step, hcall, persist_eq h.path, h.stored_call hmem] at hstored
      by_contra hover
      exact absurd (h.overtaken c hmem (Bool.not_eq_false _ ▸ hover)) hstored.not_gt

end Runs

/-- The numbers that are assigned fit an `int64`; beyond it, the counter of the code turns negative. -/
def Fit (ts : List (Transition JournalSystem JournalEvent (Option Int))) : Prop :=
  ∀ n ∈ ts.filterMap (·.reply), n < 2 ^ 63

instance (ts : List (Transition JournalSystem JournalEvent (Option Int))) : Decidable (Fit ts) :=
  inferInstanceAs (Decidable (∀ n ∈ _, n < 2 ^ 63))

/-- The file never goes back to a lower `HighestSequence`, and no number is assigned twice. -/
structure NeverReused (ts : List (Transition JournalSystem JournalEvent (Option Int))) : Prop where
  stored : ∀ t ∈ ts, t.before.file.highestSequence ≤ t.after.file.highestSequence
  assigned : (ts.filterMap (·.reply)).Nodup
  fit : Fit ts

def failedLaunch : DiagnosticsObservation where
  subsystem := .other "docker"
  operation := .workerLaunch
  outcome := .failed
  reason := .other "daemon-unavailable"

/-- Of two calls the given one writes its document first, then the other, and then a new manager starts. -/
def twoCalls (first : Nat) : List JournalEvent :=
  [.restart "first" 0, .record failedLaunch 1, .record failedLaunch 2, .write first, .write 0, .restart "second" 3]

def twoCallsRun (first : Nat) : List (Transition JournalSystem JournalEvent (Option Int)) :=
  transitions (JournalSystem.step utcTime Char.isWhitespace "/var/lib/pitcrew") { file := .absent }
    (twoCalls first)

/-- In every run, whatever the file holds at its start, numbers are never reused if and only if no call writes
    its document after a call that built a later one has, and no number passes `int64`. -/
theorem sequences_unique_iff (rfc : Rfc3339) (isSpace : Char → Bool) {stateDirectory : String}
    (hdirectory : stateDirectory ≠ "") (file : JournalFile) (events : List JournalEvent) :
    NeverReused (transitions (JournalSystem.step rfc isSpace stateDirectory) { file } events) ↔
      (∀ t ∈ transitions (JournalSystem.step rfc isSpace stateDirectory) { file } events, InOrder t.before t.event) ∧
        Fit (transitions (JournalSystem.step rfc isSpace stateDirectory) { file } events) := by
  constructor
  · intro h
    refine ⟨transitions_induction_of (I := Journaled) (.stopped file) (fun s e hs hstored => ?_) h.stored, h.fit⟩
    have inOrder := inOrder_of_stored hs hstored
    exact ⟨(counts_step hdirectory hs inOrder).journaled, inOrder⟩
  · rintro ⟨h, hfit⟩
    refine ⟨?_, ?_, hfit⟩
    · refine transitions_induction_of (I := Journaled) (.stopped file) (fun s e hs inOrder => ?_) h
      obtain ⟨journaled, hstored, -, -⟩ : Counts s (JournalSystem.step rfc isSpace stateDirectory s e) :=
        counts_step hdirectory hs inOrder
      exact ⟨journaled, hstored⟩
    · refine (replies_increasing (I := Journaled) JournalSystem.count (.stopped file)
        (fun s e hs inOrder => ?_) h).1.imp ne_of_lt
      obtain ⟨journaled, -, hcount, hassigned⟩ := counts_step hdirectory hs inOrder
      exact ⟨journaled, hcount, hassigned⟩

theorem sequences_unique_iff_twoCalls :
    (twoCallsRun 0).filterMap (·.reply) = [1, 2, 3] ∧ NeverReused (twoCallsRun 0) :=
  ⟨by decide +kernel, (sequences_unique_iff utcTime Char.isWhitespace (by decide) .absent (twoCalls 0)).mpr
    ⟨by decide +kernel, by decide +kernel⟩⟩

/-- The second call writes first: the first one then takes the file back to 1, and the new manager assigns 2 again. -/
theorem overtaken_call_reuses :
    (twoCallsRun 1).filterMap (·.reply) = [1, 2, 2] ∧
      (twoCallsRun 1).map (·.after.file.highestSequence) = [0, 0, 0, 2, 1, 2] ∧ ¬ NeverReused (twoCallsRun 1) := by
  have hassigned : (twoCallsRun 1).filterMap (·.reply) = [1, 2, 2] := by decide +kernel
  refine ⟨hassigned, by decide +kernel, fun h => ?_⟩
  have hnodup := h.assigned
  rw [hassigned] at hnodup
  exact absurd hnodup (by decide)

end PitCrew.Autoscaler.Diagnostics
