import PitCrew.Autoscaler.LedgerFiles
import PitCrew.Theorems.Autoscaler.Retirement
import PitCrew.Theorems.Autoscaler.Revival
import PitCrew.Theorems.Autoscaler.Scaling

/-! # Retry ledgers reload

Whatever a runner scaler writes to one of its ledgers is accepted by the loader of the next manager and gives
the records that were written: the records in the books are complete, their attempts are counted within the
limit, and their times can be read. -/

namespace PitCrew.Autoscaler
open Base

/-! ## Parsing -/

section Parsing
variable {ρ κ : Type} {slot : ρ → String} {check : Nat → ρ → Except LedgerFault κ}

theorem parseRecords_map {write : κ → ρ} {records : List κ} (index : Nat) (seen : List String)
    (hcheck : ∀ record ∈ records, ∀ index, check index (write record) = .ok record)
    (hslots : (records.map (slot ∘ write)).Nodup) (hseen : ∀ record ∈ records, slot (write record) ∉ seen) :
    parseRecords slot check index seen (records.map write) = .ok records := by
  induction records generalizing index seen with
  | nil => rfl
  | cons record records ih =>
    rw [List.map_cons] at hslots
    obtain ⟨hnew, hrest⟩ := List.nodup_cons.mp hslots
    have hparsed := ih (index + 1) (slot (write record) :: seen)
      (fun r hr => hcheck r (List.mem_cons_of_mem _ hr)) hrest
      fun r hr hmem => by
        rcases List.mem_cons.mp hmem with heq | hmem
        · exact hnew (List.mem_map.mpr ⟨r, hr, heq⟩)
        · exact hseen r (List.mem_cons_of_mem _ hr) hmem
    simp only [List.map_cons, parseRecords, hcheck record List.mem_cons_self, hparsed, reject,
      if_neg (hseen record List.mem_cons_self)]
    rfl

end Parsing

section Records
variable {ρ : Type} {slot : ρ → String} {pending : Map String ρ} (hslot : pending.All fun k r => slot r = k)
include hslot

theorem map_slot_pendingRecords : (pendingRecords pending).map slot = sortedList pending.keys := by
  unfold pendingRecords
  rw [List.map_map, show sortedList pending.keys =
    (pending.entriesIn .sorted).map Prod.fst from (Map.map_fst_entriesIn .sorted pending).symm]
  exact List.map_congr_left fun e he => hslot e.1 e.2 (Map.mem_entriesIn.mp he)

theorem nodup_slots : ((pendingRecords pending).map slot).Nodup := map_slot_pendingRecords hslot ▸ sortedList_nodup _

theorem insertionSort_pendingRecords {κ : Type} (write : ρ → κ) (slot' : κ → String)
    (hwrite : ∀ r, slot' (write r) = slot r) :
    ((pendingRecords pending).map write).insertionSort (fun a b => slot' a ≤ slot' b) =
      (pendingRecords pending).map write := by
  refine List.Pairwise.insertionSort_eq (List.pairwise_map.mpr ?_)
  have hsorted : ((pendingRecords pending).map slot).Pairwise (· < ·) :=
    map_slot_pendingRecords hslot ▸ sortedList_sorted _
  exact (List.pairwise_map.mp hsorted).imp fun {a b} hlt => by
    rw [hwrite, hwrite]
    exact le_of_lt hlt

theorem restoreRecords_pendingRecords : restoreRecords slot (pendingRecords pending) = pending := by
  have hentries : (pendingRecords pending).map (fun record => (slot record, record)) = pending.entriesIn .sorted := by
    unfold pendingRecords
    rw [List.map_map]
    conv_rhs => rw [← List.map_id (pending.entriesIn .sorted)]
    exact List.map_congr_left fun e he => Prod.ext (hslot e.1 e.2 (Map.mem_entriesIn.mp he)) rfl
  unfold restoreRecords
  rw [hentries]
  refine Finmap.ext_lookup fun k => Option.ext fun r => ?_
  rw [Map.lookup_ofList (Map.nodup_fst_entriesIn .sorted pending)]
  exact Map.mem_entriesIn

end Records

theorem mem_pendingRecords {ρ : Type} {pending : Map String ρ} {r : ρ} (h : r ∈ pendingRecords pending) :
    ∃ k, pending.lookup k = some r := by
  obtain ⟨e, he, rfl⟩ := List.mem_map.mp h
  exact ⟨e.1, Map.mem_entriesIn.mp he⟩

theorem clampAttempts_eq {least attempts : Int} (h : Counted least attempts) : clampAttempts attempts = attempts :=
  min_eq_left h.2

/-! ## Ledgers -/

section Ledgers
variable {json : LedgerJson} {rfc : Rfc3339} {target : String}

theorem checkRegistrationCleanup_ok {k : String} {record : RegistrationCleanupRecord}
    (h : CleanupOk target (readable rfc) k record) (index : Nat) :
    checkRegistrationCleanup rfc target index record = .ok record := by
  have hcomplete : ¬ record.incomplete target := by
    rintro (hne | hslot | hid | hname | hcontainer)
    · exact hne h.targetKey
    · exact h.identified.slotKey (h.slotKey.symm.trans hslot)
    · exact absurd h.identified.runnerID (by omega)
    · exact h.identified.runnerName hname
    · exact h.identified.containerID hcontainer
  have hcounted : ¬ record.attempts < 0 := by
    have := h.attempts.1
    omega
  have hclamp := clampAttempts_eq h.attempts
  simp only [checkRegistrationCleanup, reject, if_neg hcomplete, if_neg hcounted, h.firstFailedAt, h.lastAttemptAt,
    h.nextAttemptAt, not_true_eq_false, if_false, hclamp]
  rfl

theorem ofText_text (purpose : FencePurpose) : FencePurpose.ofText purpose.text = some purpose := by
  cases purpose <;> decide

theorem checkRegistrationFence_ok {k : String} {record : RegistrationFenceRecord}
    (h : FenceOk target (readable rfc) k record) (index : Nat) :
    checkRegistrationFence rfc target index record.entry = .ok record := by
  have hcomplete : ¬ (record.entry.toRegistrationCleanupRecord.incomplete target ∨ record.entry.attempts < 0) := by
    rintro ((hne | hslot | hid | hname | hcontainer) | hattempts)
    · exact hne h.targetKey
    · exact h.identified.slotKey (h.slotKey.symm.trans hslot)
    · exact absurd h.identified.runnerID (not_le.mpr hid)
    · exact h.identified.runnerName hname
    · exact h.identified.containerID hcontainer
    · exact absurd h.attempts.1 (by have : record.attempts < 0 := hattempts; omega)
  have hclamp : clampAttempts record.entry.attempts = record.attempts := clampAttempts_eq h.attempts
  have hfirst : readable rfc record.entry.firstFailedAt := h.firstFailedAt
  have hlast : readable rfc record.entry.lastAttemptAt := h.lastAttemptAt
  have hnext : readable rfc record.entry.nextAttemptAt := h.nextAttemptAt
  have hpurpose : FencePurpose.ofText record.entry.purpose = some record.purpose := ofText_text record.purpose
  simp only [checkRegistrationFence, reject, if_neg hcomplete, hpurpose, hfirst, hlast, hnext, not_true_eq_false,
    or_false, if_false, hclamp]
  rfl

theorem checkHostLeaseCleanup_ok {k : String} {record : HostLeaseCleanupRecord} (h : ReleaseOk target k record)
    (index : Nat) :
    checkHostLeaseCleanup target index record = .ok record := by
  have hcomplete : ¬ (record.targetKey ≠ target ∨ record.runnerKey = "" ∨ record.hostSlotKey = "") := by
    rintro (hne | hrunner | hslot)
    · exact hne h.targetKey
    · exact h.runnerKey hrunner
    · exact h.named (h.hostSlotKey.symm.trans hslot)
  simp only [checkHostLeaseCleanup, reject, if_neg hcomplete]
  rfl

theorem checkLaunchIntent_ok {record : LaunchIntentRecord} (h : IntentOk target (readable rfc) record) :
    checkLaunchIntent rfc target { record with schemaVersion := 1,
                                               managerContractVersion :=
                                                 launchIntentContractVersion } = .ok record := by
  have hcompatible : ¬ ((1 : Int) ≠ 1 ∨ launchIntentContractVersion < launchIntentContractVersion ∨
      launchIntentContractVersion > managerContractVersion ∨ record.targetKey ≠ target ∨
      record.runnerName = "" ∨ record.runnerID < 0 ∨ record.attempts < 1) := by
    have hid := h.runnerID
    have hattempts := h.attempts.1
    rintro (hversion | hversion | hversion | hne | hname | hid | hattempts)
    · exact hversion rfl
    · exact absurd hversion (lt_irrefl _)
    · exact absurd hversion (by decide)
    · exact hne h.targetKey
    · exact h.runnerName hname
    · omega
    · omega
  have hclamp := clampAttempts_eq h.attempts
  simp only [checkLaunchIntent, reject, if_neg hcompatible, h.lastAttemptAt, h.nextAttemptAt, not_true_eq_false,
    or_false, if_false, hclamp]
  rfl

theorem loadRecords_saveRecords {ρ κ : Type} {codec : Codec (LedgerDocument ρ)} (hcodec : codec.RoundTrips)
    (version : Int)
    (slot : ρ → String) (write : κ → ρ) {parse : LedgerDocument ρ → Except LedgerFault (List κ)}
    {check : Nat → ρ → Except LedgerFault κ} {pending : Map String κ}
    (hslot : pending.All fun k r => slot (write r) = k)
    (hcheck : ∀ k r, pending.lookup k = some r → ∀ index, check index (write r) = .ok r)
    (hparse : ∀ records, parse { schemaVersion := 1, managerContractVersion := version, targetKey := target, records } =
      parseRecords slot check 0 [] records) :
    loadRecords codec parse (saveRecords target codec version slot ((pendingRecords pending).map write)) =
      .ok (pendingRecords pending) := by
  unfold saveRecords
  split
  · next hempty =>
    have hnone : pendingRecords pending = [] := List.map_eq_nil_iff.mp (List.isEmpty_iff.mp hempty)
    rw [hnone]
    rfl
  · have hsorted := insertionSort_pendingRecords hslot write slot fun _ => rfl
    simp only [loadRecords, hcodec _, hsorted, hparse]
    refine parseRecords_map 0 [] (fun r hr => ?_) (nodup_slots hslot) nofun
    obtain ⟨k, hk⟩ := mem_pendingRecords hr
    exact hcheck k r hk

section Loads
variable (hjson : json.RoundTrips)
include hjson

theorem registrationCleanup_loads {pending : Map String RegistrationCleanupRecord}
    (h : pending.All (CleanupOk target (readable rfc))) :
    loadRegistrationCleanup json rfc target (saveRegistrationCleanup target json (pendingRecords pending)) =
      .ok (pendingRecords pending) := by
  have hversion : ¬ (registrationCleanupDocumentContractVersion < 10 ∨
      registrationCleanupDocumentContractVersion > managerContractVersion) := by decide
  have hloads : loadRecords json.cleanup (parseRegistrationCleanupDocument rfc target) (saveRecords target json.cleanup
      registrationCleanupDocumentContractVersion (·.slotKey) ((pendingRecords pending).map id)) =
        .ok (pendingRecords pending) := by
    refine loadRecords_saveRecords hjson.cleanup _ (·.slotKey) id (fun k r hr => (h k r hr).slotKey)
      (fun k r hr => checkRegistrationCleanup_ok (h k r hr)) fun records => ?_
    simp only [parseRegistrationCleanupDocument, reject, ne_eq, not_true_eq_false, if_false, if_neg hversion]
    rfl
  rwa [List.map_id] at hloads

theorem registrationFences_load {pending : Map String RegistrationFenceRecord}
    (h : pending.All (FenceOk target (readable rfc))) :
    loadRegistrationFences json rfc target (saveRegistrationFences target json (pendingRecords pending)) =
      .ok (pendingRecords pending) := by
  have hversion : ¬ (registrationFenceContractVersion < registrationFenceContractVersion) ∧
      ¬ (registrationFenceContractVersion > managerContractVersion) := by decide
  refine loadRecords_saveRecords hjson.fence _ (·.slotKey) (·.entry) (fun k r hr => (h k r hr).slotKey)
    (fun k r hr => checkRegistrationFence_ok (h k r hr)) fun records => ?_
  simp only [parseRegistrationFenceDocument, reject, ne_eq, not_true_eq_false, hversion.1, hversion.2,
    or_false, if_false]
  rfl

theorem hostLeaseCleanup_loads {pending : Map String HostLeaseCleanupRecord} (h : pending.All (ReleaseOk target)) :
    loadHostLeaseCleanup json target (saveHostLeaseCleanup target json (pendingRecords pending)) =
      .ok (pendingRecords pending) := by
  have hversion : ¬ (hostLeaseCleanupDocumentContractVersion < hostLeaseCleanupDocumentContractVersion ∨
      hostLeaseCleanupDocumentContractVersion > managerContractVersion) := by decide
  have hloads : loadRecords json.release (parseHostLeaseCleanupDocument target) (saveRecords target json.release
      hostLeaseCleanupDocumentContractVersion (·.hostSlotKey) ((pendingRecords pending).map id)) =
        .ok (pendingRecords pending) := by
    refine loadRecords_saveRecords hjson.release _ (·.hostSlotKey) id (fun k r hr => (h k r hr).hostSlotKey)
      (fun k r hr => checkHostLeaseCleanup_ok (h k r hr)) fun records => ?_
    simp only [parseHostLeaseCleanupDocument, reject, ne_eq, not_true_eq_false, if_false, if_neg hversion]
    rfl
  rwa [List.map_id] at hloads

theorem launchIntent_loads {intent : Option LaunchIntentRecord}
    (h : ∀ r, intent = some r → IntentOk target (readable rfc) r) :
    loadLaunchIntent json rfc target (saveLaunchIntentFile json intent) = .ok intent := by
  cases intent with
  | none => rfl
  | some record =>
    simp only [saveLaunchIntentFile, Option.map_some, loadLaunchIntent, hjson.intent _,
      checkLaunchIntent_ok (h record rfl)]
    rfl

end Loads

theorem restorePendingRegistrations_eq {pending : Map String RegistrationCleanupRecord}
    (h : pending.All (CleanupOk target (readable rfc))) :
    restorePendingRegistrations (pendingRecords pending) = pending := by
  have hclamped :
      (pendingRecords pending).map (fun record => { record with attempts := clampAttempts record.attempts }) =
      pendingRecords pending := by
    conv_rhs => rw [← List.map_id (pendingRecords pending)]
    refine List.map_congr_left fun record hrecord => ?_
    obtain ⟨k, hk⟩ := mem_pendingRecords hrecord
    rw [clampAttempts_eq (h k record hk).attempts]
    rfl
  unfold restorePendingRegistrations
  rw [hclamped]
  exact restoreRecords_pendingRecords fun k r hr => (h k r hr).slotKey

end Ledgers

/-! ## Paths -/

/-- A digest is printed with two hexadecimal digits for each of its 32 bytes. -/
def Packages.Digests (pkg : Packages) : Prop := ∀ text, (pkg.hexDigest text).length = 64

theorem length_ledgerDigest {pkg : Packages} (h : pkg.Digests) (targetKey : String) :
    (ledgerDigest pkg targetKey).toList.length = 8 := by
  unfold ledgerDigest
  rw [String.toList_ofList, List.length_take, String.length_toList, h]
  rfl

theorem ledgerPath_inj {pkg : Packages} (h : pkg.Digests) {directory directory' stateDirectory k k' : String}
    (heq : ledgerPath pkg directory stateDirectory k = ledgerPath pkg directory' stateDirectory k') :
    ledgerDigest pkg k = ledgerDigest pkg k' ∧ ledgerName pkg k = ledgerName pkg k' := by
  have hfile := congrArg (fun path => path.file.toList) heq
  simp only [ledgerPath, String.toList_append, List.append_cancel_right_eq] at hfile
  obtain ⟨hname, hdigest⟩ := List.append_inj' hfile ((length_ledgerDigest h k).trans (length_ledgerDigest h k').symm)
  exact ⟨String.toList_inj.mp hdigest, String.toList_inj.mp (List.append_cancel_right hname)⟩

theorem mem_ledgerPaths {pkg : Packages} {stateDirectory k : String} {path : LedgerPath}
    (h : path ∈ ledgerPaths pkg stateDirectory k) :
    ∃ directory, path = ledgerPath pkg directory stateDirectory k := by
  simp only [ledgerPaths, List.mem_cons, List.not_mem_nil, or_false] at h
  rcases h with h | h | h | h
  all_goals exact ⟨_, h⟩

/-! ## Runs -/

def ScalerEvent.reading : ScalerEvent → Option Int
  | .recovery reply | .operation reply | .older _ reply => some reply.now
  | _ => none

/-- The times that a scaler writes at a reading can be read again, up to the longest retry delay. -/
def Rfc3339.ReadsBack (rfc : Rfc3339) (now : Int) : Prop :=
  ∀ delay, 0 ≤ delay → delay ≤ registrationOperationRetryMaximum → (rfc.parse (rfc.format (now + delay))).isSome = true

/-- What a scaler has written is what the next one loads and restores. -/
structure LedgersReload (cfg : ScalerConfig) (json : LedgerJson) (w : ScalerWorld) : Prop where
  cleanups : loadRegistrationCleanup json cfg.rfc cfg.targetKey
    (saveRegistrationCleanup cfg.targetKey json (pendingRecords w.cleanupFile)) = .ok (pendingRecords w.cleanupFile)
  restoredCleanups : restorePendingRegistrations (pendingRecords w.cleanupFile) = w.cleanupFile
  cleanupAttempts : ∀ record ∈ pendingRecords w.cleanupFile, record.attempts ≤ maxRegistrationCleanupAttempts
  fences : loadRegistrationFences json cfg.rfc cfg.targetKey
    (saveRegistrationFences cfg.targetKey json (pendingRecords w.fenceFile)) = .ok (pendingRecords w.fenceFile)
  restoredFences : restorePendingFences (pendingRecords w.fenceFile) = w.fenceFile
  fenceAttempts : ∀ record ∈ pendingRecords w.fenceFile, record.attempts ≤ maxRegistrationCleanupAttempts
  intent : loadLaunchIntent json cfg.rfc cfg.targetKey (saveLaunchIntentFile json w.intentFile) = .ok w.intentFile
  intentAttempts : ∀ record ∈ w.intentFile, record.attempts ≤ maxRegistrationCleanupAttempts
  releases : loadHostLeaseCleanup json cfg.targetKey
    (saveHostLeaseCleanup cfg.targetKey json (pendingRecords w.releaseFile)) = .ok (pendingRecords w.releaseFile)
  restoredReleases : restorePendingHostLeaseReleases (pendingRecords w.releaseFile) = w.releaseFile

def readableTerms (rfc : Rfc3339) : Terms := ⟨rfc.ReadsBack, readable rfc⟩

theorem readableTerms_stamps (rfc : Rfc3339) : (readableTerms rfc).Stamps rfc :=
  fun _ hnow delay hleast hmost => Or.inr (hnow delay hleast hmost)

theorem Books.Ok.reload {cfg : ScalerConfig} {json : LedgerJson} (hjson : json.RoundTrips) {w : ScalerWorld}
    (h : w.books.Ok cfg.targetKey (readable cfg.rfc)) : LedgersReload cfg json w where
  cleanups := registrationCleanup_loads hjson h.cleanupFile
  restoredCleanups := restorePendingRegistrations_eq h.cleanupFile
  cleanupAttempts := fun _ hrecord => (mem_pendingRecords hrecord).elim fun k hk => (h.cleanupFile k _ hk).attempts.2
  fences := registrationFences_load hjson h.fenceFile
  restoredFences := restoreRecords_pendingRecords fun k r hr => (h.fenceFile k r hr).slotKey
  fenceAttempts := fun _ hrecord => (mem_pendingRecords hrecord).elim fun k hk => (h.fenceFile k _ hk).attempts.2
  intent := launchIntent_loads hjson h.intentFile
  intentAttempts := fun record hrecord => (h.intentFile record hrecord).attempts.2
  releases := hostLeaseCleanup_loads hjson h.releaseFile
  restoredReleases := restoreRecords_pendingRecords fun k r hr => (h.releaseFile k r hr).hostSlotKey

/-- Retry ledgers reload exactly, all along the runs of a target; and targets share a file only if the digests and
    the sanitized names of their keys are the same. -/
theorem ledgers_reload {cfg : ScalerConfig} {json : LedgerJson} (hjson : json.RoundTrips) (hdigest : cfg.pkg.Digests)
    {events : List ScalerEvent} (hclock : ∀ event ∈ events, ∀ now ∈ event.reading, cfg.rfc.ReadsBack now) :
    LedgersReload cfg json (ScalerSystem.run cfg events).world ∧
      ∀ stateDirectory k k' : String, ∀ path ∈ ledgerPaths cfg.pkg stateDirectory k,
        path ∈ ledgerPaths cfg.pkg stateDirectory k' →
        ledgerDigest cfg.pkg k = ledgerDigest cfg.pkg k' ∧ ledgerName cfg.pkg k = ledgerName cfg.pkg k' := by
  have hwithin : ∀ event ∈ events, event.Within (readableTerms cfg.rfc) := by
    intro event hevent
    have hread := hclock event hevent
    cases event with
    | recovery reply | operation reply | older index reply => exact hread reply.now rfl
    | restart | attempt | listen | begin | announceShutdown | exit | deregister | expire | confirmRunning
    | statistics => trivial
  refine ⟨(sound (readableTerms_stamps cfg.rfc) hwithin).operation.inv.1.reload hjson,
    fun stateDirectory k k' path hk hk' => ?_⟩
  obtain ⟨directory, rfl⟩ := mem_ledgerPaths hk
  obtain ⟨directory', heq⟩ := mem_ledgerPaths hk'
  exact ledgerPath_inj hdigest heq

/-! ### A sample -/

section Sample

instance encodableChar : Encodable Char := Encodable.ofLeftInverse Char.toNat Char.ofNat Char.ofNat_toNat

instance encodableString :
    Encodable String := Encodable.ofLeftInverse String.toList String.ofList fun _ => String.ofList_toList

instance : Encodable RegistrationCleanupRecord :=
  Encodable.ofLeftInverse
    (fun r => (r.targetKey, r.slotKey, r.runnerID, r.runnerName, r.containerID, r.containerName, r.attempts,
      r.firstFailedAt, r.lastAttemptAt, r.nextAttemptAt))
    (fun t => ⟨t.1, t.2.1, t.2.2.1, t.2.2.2.1, t.2.2.2.2.1, t.2.2.2.2.2.1, t.2.2.2.2.2.2.1, t.2.2.2.2.2.2.2.1,
      t.2.2.2.2.2.2.2.2.1, t.2.2.2.2.2.2.2.2.2⟩) fun _ => rfl

instance : Encodable RegistrationFenceEntry :=
  Encodable.ofLeftInverse (fun e => (e.toRegistrationCleanupRecord, e.purpose)) (fun t => ⟨t.1, t.2⟩) fun _ => rfl

instance : Encodable LaunchIntentRecord :=
  Encodable.ofLeftInverse (fun r => (r.targetKey, r.runnerName, r.runnerID, r.attempts, r.lastAttemptAt,
    r.nextAttemptAt))
    (fun t => ⟨t.1, t.2.1, t.2.2.1, t.2.2.2.1, t.2.2.2.2.1, t.2.2.2.2.2⟩) fun _ => rfl

instance : Encodable LaunchIntentDocument :=
  Encodable.ofLeftInverse (fun d => (d.toLaunchIntentRecord, d.schemaVersion, d.managerContractVersion))
    (fun t => ⟨t.1, t.2.1, t.2.2⟩) fun _ => rfl

instance : Encodable HostLeaseCleanupRecord :=
  Encodable.ofLeftInverse
    (fun r => (r.targetKey, r.runnerKey, r.hostSlotKey, r.attempts, r.firstFailedAt, r.lastAttemptAt, r.nextAttemptAt))
    (fun t => ⟨t.1, t.2.1, t.2.2.1, t.2.2.2.1, t.2.2.2.2.1, t.2.2.2.2.2.1, t.2.2.2.2.2.2⟩) fun _ => rfl

instance {ρ : Type} [Encodable ρ] : Encodable (LedgerDocument ρ) :=
  Encodable.ofLeftInverse (fun d => (d.schemaVersion, d.managerContractVersion, d.targetKey, d.records))
    (fun t => ⟨t.1, t.2.1, t.2.2.1, t.2.2.2⟩) fun _ => rfl

/-- A text of as many marks as the document's number in an enumeration. -/
def tallyCodec (δ : Type) [Encodable δ] : Codec δ where
  marshal document := String.ofList (List.replicate (Encodable.encode document) '.')
  unmarshal text := Encodable.decode text.toList.length

theorem tallyCodec_roundTrips (δ : Type) [Encodable δ] : (tallyCodec δ).RoundTrips := by
  intro document
  simp only [tallyCodec, String.toList_ofList, List.length_replicate, Encodable.encodek]

/-- The codec, but for one document, of which the text is known. -/
def Codec.printing {δ : Type} [DecidableEq δ] (codec : Codec δ) (document : δ) (text : String) : Codec δ where
  marshal other := if other = document then text else codec.marshal other
  unmarshal other := if other = text then some document else codec.unmarshal other

theorem Codec.marshal_printing {δ : Type} [DecidableEq δ] (codec : Codec δ) (document : δ) (text : String) :
    (codec.printing document text).marshal document = text := if_pos rfl

theorem Codec.RoundTrips.printing {δ : Type} [DecidableEq δ] {codec : Codec δ} (h : codec.RoundTrips) {document : δ}
    {text : String} (hother : ∀ other, codec.marshal other ≠ text) : (codec.printing document text).RoundTrips := by
  intro other
  by_cases hdocument : other = document
  · simp only [Codec.printing, if_true, hdocument]
  · simp only [Codec.printing, if_neg hdocument, if_neg (hother other), h other]

/-- The text of an object, which begins with a line of its own. -/
def objectText (lines : List String) : String := "\x7b\n" ++ String.join (lines.map (· ++ "\n"))

theorem tallyCodec_printing {δ : Type} [Encodable δ] [DecidableEq δ] {document : δ} {lines : List String} :
    ((tallyCodec δ).printing document (objectText lines)).RoundTrips := by
  refine (tallyCodec_roundTrips δ).printing fun other heq => ?_
  have hbrace : '\x7b' ∈ (objectText lines).toList := by
    unfold objectText
    rw [String.toList_append]
    exact List.mem_append_left _ List.mem_cons_self
  rw [← heq, tallyCodec, String.toList_ofList] at hbrace
  exact absurd (List.eq_of_mem_replicate hbrace) (by decide)

/-- The ledgers that the run below leaves, and their texts by `json.MarshalIndent`. -/
def cleanupDocument : LedgerDocument RegistrationCleanupRecord where
  schemaVersion := 1
  managerContractVersion := 10
  targetKey := "repo"
  records :=
    [{ targetKey := "repo"
       slotKey := "repo-2"
       runnerID := 2
       runnerName := "pit-repo-b"
       containerID := "b"
       containerName := "pit-repo-b"
       attempts := 1
       firstFailedAt := "2026-07-01T09:00:00Z"
       lastAttemptAt := "2026-07-01T09:00:00Z"
       nextAttemptAt := "2026-07-01T09:01:00Z" }]

def cleanupText : String :=
  objectText
    ["  \"schemaVersion\": 1,", "  \"managerContractVersion\": 10,", "  \"targetKey\": \"repo\",",
      "  \"records\": [", "    \x7b", "      \"targetKey\": \"repo\",", "      \"slotKey\": \"repo-2\",",
      "      \"runnerId\": 2,", "      \"runnerName\": \"pit-repo-b\",", "      \"containerId\": \"b\",",
      "      \"containerName\": \"pit-repo-b\",", "      \"attempts\": 1,",
      "      \"firstFailedAt\": \"2026-07-01T09:00:00Z\",", "      \"lastAttemptAt\": \"2026-07-01T09:00:00Z\",",
      "      \"nextAttemptAt\": \"2026-07-01T09:01:00Z\"", "    \x7d", "  ]", "\x7d"]

def fenceDocument : LedgerDocument RegistrationFenceEntry where
  schemaVersion := 1
  managerContractVersion := 22
  targetKey := "repo"
  records :=
    [{ targetKey := "repo"
       slotKey := "repo-1"
       purpose := "scale-down"
       runnerID := 1
       runnerName := "pit-repo-a"
       containerID := "a"
       containerName := "pit-repo-a"
       attempts := 1
       firstFailedAt := "2026-07-01T09:00:00Z"
       lastAttemptAt := "2026-07-01T09:00:00Z"
       nextAttemptAt := "2026-07-01T09:01:00Z" }]

def fenceText : String :=
  objectText
    ["  \"schemaVersion\": 1,", "  \"managerContractVersion\": 22,", "  \"targetKey\": \"repo\",",
      "  \"records\": [", "    \x7b", "      \"targetKey\": \"repo\",", "      \"slotKey\": \"repo-1\",",
      "      \"purpose\": \"scale-down\",", "      \"runnerId\": 1,", "      \"runnerName\": \"pit-repo-a\",",
      "      \"containerId\": \"a\",", "      \"containerName\": \"pit-repo-a\",", "      \"attempts\": 1,",
      "      \"firstFailedAt\": \"2026-07-01T09:00:00Z\",", "      \"lastAttemptAt\": \"2026-07-01T09:00:00Z\",",
      "      \"nextAttemptAt\": \"2026-07-01T09:01:00Z\"", "    \x7d", "  ]", "\x7d"]

/-- GitHub has not named the runner yet: its identifier is left out. -/
def intentDocument : LaunchIntentDocument where
  schemaVersion := 1
  managerContractVersion := 22
  targetKey := "repo"
  runnerName := "pit-repo-c"
  runnerID := 0
  attempts := 1
  lastAttemptAt := "2026-07-01T09:00:00Z"
  nextAttemptAt := "2026-07-01T09:01:00Z"

def intentText : String :=
  objectText
    ["  \"schemaVersion\": 1,", "  \"managerContractVersion\": 22,", "  \"targetKey\": \"repo\",",
      "  \"runnerName\": \"pit-repo-c\",", "  \"attempts\": 1,", "  \"lastAttemptAt\": \"2026-07-01T09:00:00Z\",",
      "  \"nextAttemptAt\": \"2026-07-01T09:01:00Z\"", "\x7d"]

def releaseDocument : LedgerDocument HostLeaseCleanupRecord where
  schemaVersion := 1
  managerContractVersion := 17
  targetKey := "repo"
  records :=
    [{ targetKey := "repo"
       runnerKey := "repo-2"
       hostSlotKey := "pit-repo-b"
       attempts := 1
       firstFailedAt := "2026-07-01T09:00:00Z"
       lastAttemptAt := "2026-07-01T09:00:00Z"
       nextAttemptAt := "2026-07-01T09:00:15Z" }]

def releaseText : String :=
  objectText
    ["  \"schemaVersion\": 1,", "  \"managerContractVersion\": 17,", "  \"targetKey\": \"repo\",",
      "  \"records\": [", "    \x7b", "      \"targetKey\": \"repo\",", "      \"runnerKey\": \"repo-2\",",
      "      \"hostSlotKey\": \"pit-repo-b\",", "      \"attempts\": 1,",
      "      \"firstFailedAt\": \"2026-07-01T09:00:00Z\",", "      \"lastAttemptAt\": \"2026-07-01T09:00:00Z\",",
      "      \"nextAttemptAt\": \"2026-07-01T09:00:15Z\"", "    \x7d", "  ]", "\x7d"]

def sampleJson : LedgerJson where
  cleanup := (tallyCodec _).printing cleanupDocument cleanupText
  fence := (tallyCodec _).printing fenceDocument fenceText
  intent := (tallyCodec _).printing intentDocument intentText
  release := (tallyCodec _).printing releaseDocument releaseText

theorem sampleJson_roundTrips : sampleJson.RoundTrips where
  cleanup := tallyCodec_printing
  fence := tallyCodec_printing
  intent := tallyCodec_printing
  release := tallyCodec_printing

theorem samplePackages_digests : samplePackages.Digests := by
  intro text
  show (Sha256.hexFrom sampleDigests text).length = 64
  rw [hexFrom_sampleDigests, Sha256.length_hex]

theorem utcTime_readsBack {now : Int} (hfirst : FourDigitYear now)
    (hlast : FourDigitYear (now + registrationOperationRetryMaximum)) :
    utcTime.ReadsBack now := by
  intro delay hleast hmost
  rw [utcTime_documented.parse_format _ (hfirst.between hlast (by omega) (by omega))]
  rfl

def atNine : ScalerReply := { now := 1782896400 * second }

def operations (n : Nat) (reply : ScalerReply) : List ScalerEvent := List.replicate n (.operation reply)

/-- A worker runs and is idle. The next one does not start, and neither its registration nor its lease can be given
    back. Then the idle worker is to be removed, which fails as well, and a third one is launched. -/
def fourPending : List ScalerEvent :=
  [.restart {}, .attempt 3 {}, .listen, .begin (.desiredRunnerCount 1)] ++
    operations 41 { atNine with text := "a", runnerID := 1, runnerName := "pit-repo-a", granted := 1 } ++
    .begin (.logSignal "a" .idle) :: operations 2 atNine ++
    .begin (.desiredRunnerCount 2) ::
      operations 35 { atNine with text := "b", runnerID := 2, runnerName := "pit-repo-b", granted := 1 } ++
    operations 1 { atNine with outcome := .failed } ++ operations 5 atNine ++
    operations 1 { atNine with outcome := .failed } ++ operations 3 atNine ++
    operations 1 { atNine with outcome := .failed } ++ operations 5 atNine ++
    .begin (.desiredRunnerCount 0) :: operations 25 atNine ++
    operations 1 { atNine with outcome := .failed } ++ operations 2 atNine ++
    .begin (.desiredRunnerCount 3) ::
      operations 28 { atNine with text := "c", runnerID := 3, runnerName := "pit-repo-c", granted := 1 }

theorem reading_fourPending : ∀ event ∈ fourPending, ∀ now ∈ event.reading, utcTime.ReadsBack now := by
  have hreadings : ∀ event ∈ fourPending, ∀ now ∈ event.reading, now = atNine.now := by decide +kernel
  intro event hevent now hnow
  rw [hreadings event hevent now hnow]
  exact utcTime_readsBack (by decide) (by decide)

/-- All four ledgers are on disk. -/
theorem ledgers_reload_fourPending :
    let w := (ScalerSystem.run sampleScaler fourPending).world
    saveRegistrationCleanup "repo" sampleJson (pendingRecords w.cleanupFile) = some cleanupText ∧
      saveRegistrationFences "repo" sampleJson (pendingRecords w.fenceFile) = some fenceText ∧
      saveLaunchIntentFile sampleJson w.intentFile = some intentText ∧
      saveHostLeaseCleanup "repo" sampleJson (pendingRecords w.releaseFile) = some releaseText ∧
      LedgersReload sampleScaler sampleJson w := by
  intro w
  have hledgers : pendingRecords w.cleanupFile = cleanupDocument.records ∧
      (pendingRecords w.fenceFile).map (·.entry) = fenceDocument.records ∧
      w.intentFile = some intentDocument.toLaunchIntentRecord ∧
      pendingRecords w.releaseFile = releaseDocument.records := by decide +kernel
  obtain ⟨hcleanups, hfences, hintent, hreleases⟩ := hledgers
  refine ⟨?_, ?_, ?_, ?_,
    (@ledgers_reload sampleScaler sampleJson sampleJson_roundTrips samplePackages_digests fourPending
    reading_fourPending).1⟩
  · rw [hcleanups]
    exact congrArg some (Codec.marshal_printing _ cleanupDocument cleanupText)
  · rw [saveRegistrationFences, hfences]
    exact congrArg some (Codec.marshal_printing _ fenceDocument fenceText)
  · rw [hintent]
    exact congrArg some (Codec.marshal_printing _ intentDocument intentText)
  · rw [hreleases]
    exact congrArg some (Codec.marshal_printing _ releaseDocument releaseText)

end Sample
end PitCrew.Autoscaler
