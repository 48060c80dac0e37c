import PitCrew.Theorems.Autoscaler.Backoff
import PitCrew.Autoscaler.Retirement
import PitCrew.Base.Sha256
import Mathlib.Data.List.TakeWhile

/-! # Reloading retirement intent

What `persistRetirements` writes is read back by the next manager as long as no target is dropped that
wants no workers: `parseRetirementDocument` refuses a record whose maximum is zero, and a document may ask
for zero workers. -/

namespace PitCrew.Autoscaler
open Base Prog

/-! ## Documents -/

/-- What `parseRetirementDocument` asks of a record. -/
structure RetirementRecord.Valid (rfc : Rfc3339) (r : RetirementRecord) : Prop where
  key : r.key ≠ ""
  registrationURL : r.registrationURL ≠ ""
  scaleSetName : r.scaleSetName ≠ ""
  maximum : 1 ≤ r.maximum
  generation : 1 ≤ r.retireAtGeneration
  attempts_nonneg : 0 ≤ r.startupAttempts
  attempts_le : r.startupAttempts ≤ maxRegistrationCleanupAttempts
  attempts_zero : r.startupAttempts = 0 ↔ r.startupRetryAt = ""
  deadline : r.startupRetryAt ≠ "" → rfc.parse r.startupRetryAt ≠ none

/-- Every record is valid and stands under its own key. -/
def Recorded (rfc : Rfc3339) (records : RetirementRecords) : Prop :=
  ∀ k r, records.lookup k = some r → r.key = k ∧ r.Valid rfc

section Documents
variable {rfc : Rfc3339} {records : RetirementRecords} {generation : Int} {o : RangeOrder String}

theorem valid_iff {r : RetirementRecord} : r.Valid rfc ↔
    ¬(r.key = "" ∨ r.registrationURL = "" ∨ r.scaleSetName = "" ∨ r.maximum < 1 ∨ r.retireAtGeneration < 1) ∧
    ¬(r.startupAttempts < 0 ∨ r.startupAttempts > maxRegistrationCleanupAttempts ∨
      ¬(r.startupAttempts = 0 ↔ r.startupRetryAt = "")) ∧
    ¬(r.startupRetryAt ≠ "" ∧ rfc.parse r.startupRetryAt = none) := by
  constructor
  · rintro ⟨hkey, hurl, hname, hmax, hgen, h0, hle, hzero, hdead⟩
    refine ⟨?_, ?_, fun h => hdead h.1 h.2⟩
    · rintro (h | h | h | h | h)
      exacts [hkey h, hurl h, hname h, by omega, by omega]
    · rintro (h | h | h)
      exacts [by omega, by omega, h hzero]
  · rintro ⟨hcomplete, hstate, hdead⟩
    simp only [not_or, not_lt, not_not, not_and, gt_iff_lt] at hcomplete hstate hdead
    obtain ⟨hkey, hurl, hname, hmax, hgen⟩ := hcomplete
    obtain ⟨h0, hle, hzero⟩ := hstate
    exact ⟨hkey, hurl, hname, hmax, hgen, h0, hle, hzero, hdead⟩

theorem parseRetirementRecords_eq_ok {index : Nat} {seen : List String} {l : List RetirementRecord} {u : Unit} :
    parseRetirementRecords rfc index seen l = .ok u ↔
      (∀ r ∈ l, r.Valid rfc) ∧ (l.map (·.key)).Nodup ∧ ∀ r ∈ l, r.key ∉ seen := by
  induction l generalizing index seen with
  | nil => simp [parseRetirementRecords]
  | cons r l ih =>
    simp only [parseRetirementRecords, bind_eq_ok, reject_eq_ok, exists_const, ih]
    constructor
    · rintro ⟨hcomplete, hseen, hstate, hdead, hl, hnodup, hnew⟩
      refine ⟨?_, ?_, ?_⟩
      · intro x hx
        rcases List.mem_cons.mp hx with rfl | hx
        · exact valid_iff.mpr ⟨hcomplete, hstate, hdead⟩
        · exact hl x hx
      · refine List.nodup_cons.mpr ⟨fun hmem => ?_, hnodup⟩
        obtain ⟨x, hx, hkey⟩ := List.mem_map.mp hmem
        exact hnew x hx (hkey ▸ List.mem_cons_self)
      · intro x hx
        rcases List.mem_cons.mp hx with rfl | hx
        · exact hseen
        · exact fun h => hnew x hx (List.mem_cons_of_mem _ h)
    · rintro ⟨hvalid, hnodup, hseen⟩
      obtain ⟨hcomplete, hstate, hdead⟩ := valid_iff.mp (hvalid r List.mem_cons_self)
      rw [List.map_cons, List.nodup_cons] at hnodup
      refine ⟨hcomplete, hseen r List.mem_cons_self, hstate, hdead,
        fun x hx => hvalid x (List.mem_cons_of_mem _ hx), hnodup.2, fun x hx hmem => ?_⟩
      rcases List.mem_cons.mp hmem with hkey | hmem
      · exact hnodup.1 (hkey ▸ List.mem_map_of_mem hx)
      · exact hseen x (List.mem_cons_of_mem _ hx) hmem

theorem newRetirementDocument_perm :
    (newRetirementDocument o generation records).targets.Perm ((records.entriesIn o).map (·.2)) :=
  List.perm_insertionSort _ _

theorem mem_newRetirementDocument {r : RetirementRecord} :
    r ∈ (newRetirementDocument o generation records).targets ↔ ∃ k, records.lookup k = some r := by
  rw [newRetirementDocument_perm.mem_iff, List.mem_map]
  constructor
  · rintro ⟨e, he, rfl⟩
    exact ⟨e.1, Map.mem_entriesIn.mp he⟩
  · rintro ⟨k, hk⟩
    exact ⟨(k, r), Map.mem_entriesIn.mpr hk, rfl⟩

theorem nodup_newRetirementDocument (h : Recorded rfc records) :
    ((newRetirementDocument o generation records).targets.map (·.key)).Nodup := by
  refine (newRetirementDocument_perm.map _).nodup_iff.mpr ?_
  have hkeys : ((records.entriesIn o).map (·.2)).map (·.key) = (records.entriesIn o).map Prod.fst := by
    rw [List.map_map]
    exact List.map_congr_left fun e he => (h e.1 e.2 (Map.mem_entriesIn.mp he)).1
  rw [hkeys]
  exact Map.nodup_fst_entriesIn o records

theorem parse_newRetirementDocument (h : Recorded rfc records) (hgen : 0 ≤ generation) :
    parseRetirementDocument rfc (newRetirementDocument o generation records) =
      .ok (newRetirementDocument o generation records) := by
  have hrecords : parseRetirementRecords rfc 0 [] (newRetirementDocument o generation records).targets = .ok () := by
    refine parseRetirementRecords_eq_ok.mpr ⟨fun r hr => ?_, nodup_newRetirementDocument h, fun _ _ => List.not_mem_nil⟩
    obtain ⟨k, hk⟩ := mem_newRetirementDocument.mp hr
    exact (h k r hk).2
  refine bind_eq_ok.mpr ⟨(), reject_eq_ok.mpr (not_not.mpr rfl), bind_eq_ok.mpr ⟨(), reject_eq_ok.mpr ?_, ?_⟩⟩
  · exact (by decide : ¬((8 : Int) < 8 ∨ (8 : Int) > 22))
  · exact bind_eq_ok.mpr ⟨(), reject_eq_ok.mpr (not_lt.mpr hgen), bind_eq_ok.mpr ⟨(), hrecords, rfl⟩⟩

theorem lookup_ofRecords {l : List RetirementRecord} (hl : (l.map (·.key)).Nodup) {k : String} {r : RetirementRecord} :
    (Map.ofList (l.map fun r => (r.key, r))).lookup k = some r ↔ r ∈ l ∧ r.key = k := by
  have hfst : ((l.map fun r => (r.key, r)).map Prod.fst) = l.map (·.key) := by rw [List.map_map]; rfl
  rw [Map.lookup_ofList (hfst ▸ hl), List.mem_map]
  constructor
  · rintro ⟨x, hx, heq⟩
    obtain ⟨rfl, rfl⟩ := Prod.mk.inj heq
    exact ⟨hx, rfl⟩
  · rintro ⟨hr, rfl⟩
    exact ⟨r, hr, rfl⟩

/-- The document that `e` is written as is accepted, and gives back the generation and the records of `e`. -/
def Reloads (rfc : Rfc3339) (e : Int × RetirementRecords) : Prop :=
  ∀ o, parseRetirementDocument rfc (newRetirementDocument o e.1 e.2) = .ok (newRetirementDocument o e.1 e.2) ∧
    loadRetirements rfc { retirements := some (newRetirementDocument o e.1 e.2) } = .ok e

theorem load_newRetirementDocument (h : Recorded rfc records) (hgen : 0 ≤ generation) (lastValid : Option String) :
    loadRetirements rfc ⟨lastValid, some (newRetirementDocument o generation records)⟩ = .ok (generation, records) := by
  have hmap : Map.ofList ((newRetirementDocument o generation records).targets.map fun r => (r.key, r)) = records := by
    refine Finmap.ext_lookup fun k => Option.ext fun r => ?_
    rw [lookup_ofRecords (nodup_newRetirementDocument h), mem_newRetirementDocument]
    constructor
    · rintro ⟨⟨j, hj⟩, rfl⟩
      rwa [(h j r hj).1]
    · intro hr
      exact ⟨⟨k, hr⟩, (h k r hr).1⟩
  refine bind_eq_ok.mpr ⟨_, parse_newRetirementDocument h hgen, ?_⟩
  rw [hmap]
  rfl

theorem Recorded.reloads (h : Recorded rfc records) (hgen : 0 ≤ generation) : Reloads rfc (generation, records) :=
  fun _ => ⟨parse_newRetirementDocument h hgen, load_newRetirementDocument h hgen none⟩

theorem parseRetirementDocument_eq_ok {document parsed : RetirementDocument}
    (h : parseRetirementDocument rfc document = .ok parsed) :
    parsed = document ∧ 0 ≤ document.generation ∧ (∀ r ∈ document.targets, r.Valid rfc) ∧
      (document.targets.map (·.key)).Nodup := by
  simp only [parseRetirementDocument, bind_eq_ok, reject_eq_ok, exists_const] at h
  obtain ⟨-, -, hgen, _, hrecords, hreturn⟩ := h
  obtain ⟨hvalid, hnodup, -⟩ := parseRetirementRecords_eq_ok.mp hrecords
  exact ⟨(Except.ok.inj hreturn).symm, not_lt.mp hgen, hvalid, hnodup⟩

theorem recorded_of_load {files : StateFiles} (h : loadRetirements rfc files = .ok (generation, records)) :
    Recorded rfc records ∧ 0 ≤ generation := by
  unfold loadRetirements at h
  split at h
  · obtain ⟨rfl, rfl⟩ := Prod.mk.inj (Except.ok.inj h)
    exact ⟨fun k r hr => by simp at hr, le_refl 0⟩
  · next document hdoc =>
    obtain ⟨parsed, hparsed, heq⟩ := bind_eq_ok.mp h
    obtain ⟨rfl, rfl⟩ := Prod.mk.inj (Except.ok.inj heq)
    obtain ⟨rfl, hgen, hvalid, hnodup⟩ := parseRetirementDocument_eq_ok hparsed
    refine ⟨fun k r hr => ?_, hgen⟩
    obtain ⟨hmem, hkey⟩ := (lookup_ofRecords hnodup).mp hr
    exact ⟨hkey, hvalid r hmem⟩

end Documents

/-! ## Targets -/

section Targets
variable {pkg : Packages} {cfg : Config}

theorem trimRight_eq_empty {bad : Char → Bool} {s : String} (h : trimRight bad s = "") :
    ∀ c ∈ s.toList, bad c = true := by
  have hl : (s.toList.reverse.dropWhile bad).reverse = [] := by
    have := congrArg String.toList h
    simpa [trimRight] using this
  intro c hc
  exact List.dropWhile_eq_nil_iff.mp (List.reverse_eq_nil_iff.mp hl) c (List.mem_reverse.mpr hc)

theorem canonicalRepositoryURL_ne_empty (hpkg : pkg.Documented) {value url : String}
    (h : canonicalRepositoryURL pkg value = .ok url) : url ≠ "" := by
  unfold canonicalRepositoryURL at h
  obtain ⟨_, -, h⟩ := bind_eq_ok.mp h
  split at h
  · cases h
  · next parsed _ =>
    obtain ⟨_, habsolute, h⟩ := bind_eq_ok.mp h
    obtain ⟨_, -, h⟩ := bind_eq_ok.mp h
    rw [← Except.ok.inj h]
    intro hempty
    have hscheme : toLower pkg parsed.scheme = "http" ∨ toLower pkg parsed.scheme = "https" := by
      by_contra hne
      rw [not_or] at hne
      exact reject_eq_ok.mp habsolute (Or.inl hne)
    -- the printed URL begins with its scheme, whose first character survives the trimming
    have hfirst (u : URL) (hu : u.scheme = "http" ∨ u.scheme = "https") : 'h' ∈ (pkg.formatURL u).toList := by
      obtain ⟨rest, hrest⟩ := hpkg.formatURL_scheme u (by rcases hu with hu | hu <;> rw [hu] <;> decide)
      rw [hrest, String.toList_append, String.toList_append]
      refine List.mem_append_left _ (List.mem_append_left _ ?_)
      rcases hu with hu | hu <;> rw [hu] <;> decide
    exact absurd (trimRight_eq_empty hempty 'h' (hfirst _ hscheme)) (by decide)

/-- A target that is not lacking any of the texts that identify it. -/
structure TargetSpec.Complete (t : TargetSpec) : Prop where
  key : t.key ≠ ""
  registrationURL : t.registrationURL ≠ ""
  scaleSetName : t.scaleSetName ≠ ""

theorem append_ne_empty {a b : String} (h : a ≠ "") : a ++ b ≠ "" := by
  intro hab
  have := congrArg String.toList hab
  rw [String.toList_append] at this
  exact h (String.toList_inj.mp (List.append_eq_nil_iff.mp this).1)

theorem stableScaleSetName_ne_empty (profileID namePrefix url : String) :
    stableScaleSetName pkg profileID namePrefix url ≠ "" :=
  append_ne_empty (append_ne_empty (append_ne_empty (by decide)))

theorem repositoryTargets_complete (hpkg : pkg.Documented) {seen : List String} {repositories : List DesiredRepository}
    {targets : List TargetSpec} (h : repositoryTargets pkg cfg seen repositories = .ok targets) :
    ∀ t ∈ targets, t.Complete := by
  induction repositories generalizing seen targets with
  | nil =>
    obtain rfl := Except.ok.inj h
    exact fun t ht => absurd ht List.not_mem_nil
  | cons repository repositories ih =>
    obtain ⟨url, hurl, h⟩ := bind_eq_ok.mp h
    obtain ⟨_, -, h⟩ := bind_eq_ok.mp h
    obtain ⟨_, -, h⟩ := bind_eq_ok.mp h
    obtain ⟨rest, hrest, h⟩ := bind_eq_ok.mp h
    obtain rfl := Except.ok.inj h
    intro t ht
    rcases List.mem_cons.mp ht with rfl | ht
    · exact ⟨append_ne_empty (by decide), canonicalRepositoryURL_ne_empty hpkg hurl, stableScaleSetName_ne_empty _ _ _⟩
    · exact ih hrest t ht

theorem scopeTarget_complete {subject url : String} {replicas : Option Int} {targets : List TargetSpec}
    (hurl : url ≠ "")
    (h : scopeTarget pkg cfg subject url replicas = .ok targets) : ∀ t ∈ targets, t.Complete := by
  obtain ⟨_, -, h⟩ := bind_eq_ok.mp h
  obtain rfl := Except.ok.inj h
  intro t ht
  obtain rfl := List.mem_singleton.mp ht
  have hscope : "scope" ≠ "" := by decide
  exact ⟨hscope, hurl, stableScaleSetName_ne_empty _ _ _⟩

theorem buildTargetSpecs_complete (hpkg : pkg.Documented) {state : DesiredState} {targets : List TargetSpec}
    (h : buildTargetSpecs pkg cfg state = .ok targets) : ∀ t ∈ targets, t.Complete := by
  obtain ⟨unsorted, hunsorted, h⟩ := bind_eq_ok.mp h
  obtain rfl := Except.ok.inj h
  intro t ht
  have hmem : t ∈ unsorted := (List.perm_insertionSort _ _).mem_iff.mp ht
  unfold unorderedTargets at hunsorted
  split at hunsorted
  · exact repositoryTargets_complete hpkg hunsorted t hmem
  · exact scopeTarget_complete (append_ne_empty (by decide)) hunsorted t hmem
  · exact scopeTarget_complete (append_ne_empty (by decide)) hunsorted t hmem
  · cases hunsorted

theorem generation_of_parse {data : String} {scope : Scope} {parsed : ParsedDesiredState}
    (h : parseDesiredState pkg data scope = .ok parsed) : 1 ≤ parsed.state.generation := by
  unfold parseDesiredState at h
  split at h
  · cases h
  · obtain ⟨state, -, h⟩ := bind_eq_ok.mp h
    obtain ⟨_, hvalid, h⟩ := bind_eq_ok.mp h
    obtain rfl := Except.ok.inj h
    obtain ⟨_, -, hvalid⟩ := bind_eq_ok.mp hvalid
    obtain ⟨_, hgen, -⟩ := bind_eq_ok.mp hvalid
    exact not_lt.mp (reject_eq_ok.mp hgen)

theorem parse_of_classify {data hash : String} {scope : Scope} {generation : Int} {parsed : ParsedDesiredState}
    (h : classifyDesiredState pkg data scope generation hash = .new parsed) :
    parseDesiredState pkg data scope = .ok parsed := by
  unfold classifyDesiredState at h
  split at h
  · cases h
  · next p hp =>
    split_ifs at h
    rw [hp, DesiredClassification.new.inj h]

end Targets

/-! ## What a manager keeps -/

/-- The records in memory can be written, and the state that was accepted has a generation. -/
structure Manager.Sound (rfc : Rfc3339) (m : Manager) : Prop where
  records : Recorded rfc m.retirementRecords
  current : ∀ p, m.current = some p → 1 ≤ p.state.generation

/-- Memory is sound, the next manager can load the file, and so it was with everything ever written. -/
structure ManagerWorld.Sound (rfc : Rfc3339) (w : ManagerWorld) : Prop where
  manager : w.manager.Sound rfc
  file : ∃ e, loadRetirements rfc w.files = .ok e
  persisted : ∀ e ∈ w.persisted, 0 ≤ e.1 ∧ Recorded rfc e.2

/-- Every target that the next state drops without a record has a worker to retire. -/
def Staffed (pkg : Packages) (cfg : Config) (m : Manager) (next : DesiredState) : Prop :=
  ∀ previous ∈ (previousTargets pkg cfg m.previous).toOption,
    ∀ nextTargets ∈ (buildTargetSpecs pkg cfg next).toOption,
      ∀ t ∈ previous, t.key ∉ targetKeys nextTargets → m.retirementRecords.lookup t.key = none → 1 ≤ t.maximum

instance (pkg : Packages) (cfg : Config) (m : Manager) (next : DesiredState) : Decidable (Staffed pkg cfg m next) :=
  inferInstanceAs (Decidable (∀ previous ∈ _, _))

/-- The document in the file, if the manager accepts it. -/
def Manager.accepted (pkg : Packages) (cfg : Config) (m : Manager) : DesiredFile → Option ParsedDesiredState
  | .data data =>
    match m.classify pkg cfg data with
    | .new parsed => some parsed
    | _ => none
  | _ => none

/-- The documents that the cycles accept drop only targets with workers. -/
def DropsStaffed (pkg : Packages) (cfg : Config) (s : ManagerSystem) : ManagerEvent → Prop
  | .cycle desired => ∀ parsed ∈ s.world.manager.accepted pkg cfg desired, Staffed pkg cfg s.world.manager parsed.state
  | _ => True

instance (pkg : Packages) (cfg : Config) (s : ManagerSystem) : DecidablePred (DropsStaffed pkg cfg s)
  | .cycle _ => inferInstanceAs (Decidable (∀ parsed ∈ _, _))
  | .restart _ _ | .step _ => inferInstanceAs (Decidable True)

section Keeping
variable {pkg : Packages} {cfg : Config} {rfc : Rfc3339} {m : Manager} {records : RetirementRecords} {generation : Int}

/-- The clock and the latest retry from now on are in years of four digits. -/
def Timely (now : Int) : Prop := FourDigitYear now ∧ FourDigitYear (now + retirementStartupRetryMax)

instance (now : Int) : Decidable (Timely now) := inferInstanceAs (Decidable (_ ∧ _))

def ManagerEvent.Timely : ManagerEvent → Prop
  | .step reply => Autoscaler.Timely reply.now
  | _ => True

instance : DecidablePred ManagerEvent.Timely
  | .step _ => inferInstanceAs (Decidable (Timely _))
  | .restart _ _ | .cycle _ => inferInstanceAs (Decidable True)

/-- The rules of a manager's programs: nobody else writes its memory or its files, and its clock is timely. -/
def rules (rfc : Rfc3339) : Prog.Rules ManagerWorld ManagerReply :=
  .alone (ManagerWorld.Sound rfc) fun c => Timely c.now

abbrev Kept {α : Type} (rfc : Rfc3339) (p : ManagerProg α) : Prop := p.Keeps (rules rfc) fun _ => True

theorem Manager.Sound.generation_nonneg (h : m.Sound rfc) : 0 ≤ m.generation := by
  unfold Manager.generation Manager.previous
  cases hc : m.current with
  | none => exact le_refl 0
  | some p => exact le_trans (by decide) (h.current p hc)

theorem Recorded.insert (h : Recorded rfc records) {r : RetirementRecord} (hr : r.Valid rfc) :
    Recorded rfc (records.insert r.key r) := by
  intro k x hx
  rw [Map.lookup_insert_ite] at hx
  split_ifs at hx with hk
  · obtain rfl := Option.some.inj hx
    exact ⟨hk.symm, hr⟩
  · exact h k x hx

theorem Recorded.erase (h : Recorded rfc records) (key : String) : Recorded rfc (records.erase key) := by
  intro k x hx
  rw [Map.lookup_erase_ite] at hx
  split_ifs at hx
  exact h k x hx

theorem Recorded.eraseAll (h : Recorded rfc records) (keys : List String) :
    Recorded rfc (keys.foldl (fun records key => records.erase key) records) := by
  induction keys generalizing records with
  | nil => exact h
  | cons key keys ih => exact ih (h.erase key)

/-! ### Steps -/

theorem gets_keeps : (ManagerProg.gets id).Keeps (rules rfc) (Manager.Sound rfc) :=
  Keeps.atomic fun _ _ hs _ => ⟨hs, trivial, hs.manager⟩

theorem call_kept : Kept rfc ManagerProg.call := Keeps.atomic fun _ _ hs _ => ⟨hs, trivial, trivial⟩

theorem ask_kept : Kept rfc ManagerProg.ask := Keeps.atomic fun _ _ hs _ => ⟨hs, trivial, trivial⟩

theorem now_keeps : ManagerProg.now.Keeps (rules rfc) Timely := Keeps.atomic fun _ _ hs hc => ⟨hs, trivial, hc⟩

theorem modify_kept {f : Manager → Manager} (h : ∀ m, m.Sound rfc → (f m).Sound rfc) :
    Kept rfc (ManagerProg.modify f) :=
  Keeps.atomic fun _ _ hs _ => ⟨⟨h _ hs.manager, hs.file, hs.persisted⟩, trivial, trivial⟩

theorem Manager.Sound.of_eq {m' : Manager} (h : m.Sound rfc) (hrecords : m'.retirementRecords = m.retirementRecords)
    (hcurrent : m'.current = m.current) : m'.Sound rfc :=
  ⟨hrecords ▸ h.records, hcurrent ▸ h.current⟩

theorem writeLastValid_kept (raw : String) : Kept rfc (writeLastValid raw) := by
  refine Keeps.atomic fun s c hs _ => ?_
  cases c.outcome with
  | failed => exact ⟨hs, trivial, trivial⟩
  | done | unsure => exact ⟨⟨hs.manager, hs.file, hs.persisted⟩, trivial, trivial⟩

theorem writeRetirements_kept (hgen : 0 ≤ generation) (h : Recorded rfc records) (completes : Option String) :
    Kept rfc (writeRetirements generation records completes) := by
  refine Keeps.atomic fun s c hs _ => ?_
  have hpersisted : ∀ e ∈ (generation, records) :: s.persisted, 0 ≤ e.1 ∧ Recorded rfc e.2 := by
    intro e he
    rcases List.mem_cons.mp he with rfl | he
    · exact ⟨hgen, h⟩
    · exact hs.persisted e he
  cases c.outcome with
  | failed => exact ⟨hs, trivial, trivial⟩
  | done | unsure =>
    exact ⟨⟨hs.manager, ⟨_, load_newRetirementDocument h hgen _⟩, hpersisted⟩, trivial, trivial⟩

theorem persistRetirements_kept (hgen : 0 ≤ generation) (h : Recorded rfc records) (completes : Option String) :
    Kept rfc (persistRetirements generation records completes) := by
  refine Keeps.cond (writeRetirements_kept hgen h completes) ?_ (Keeps.pure trivial)
  exact Keeps.seq (modify_kept fun m hm => ⟨h, hm.current⟩) fun _ => Keeps.pure trivial

/-! ### Desired documents -/

theorem addRetirements_recorded {nextKeys : List String} {targets : List TargetSpec} (hgen : 1 ≤ generation)
    (h : Recorded rfc records)
    (ht : ∀ t ∈ targets, t.Complete ∧ (t.key ∉ nextKeys → records.lookup t.key = none → 1 ≤ t.maximum)) :
    Recorded rfc (addRetirements nextKeys generation records targets) := by
  induction targets generalizing records with
  | nil => exact h
  | cons t targets ih =>
    have hrest := fun x hx => ht x (List.mem_cons_of_mem _ hx)
    unfold addRetirements
    split_ifs with hwanted hrecorded
    · exact ih h hrest
    · exact ih h hrest
    · obtain ⟨hcomplete, hstaffed⟩ := ht t List.mem_cons_self
      have hnone : records.lookup t.key = none := by simpa using hrecorded
      have hvalid : (retirementRecordFor t generation).Valid rfc :=
        ⟨hcomplete.key, hcomplete.registrationURL, hcomplete.scaleSetName, hstaffed hwanted hnone, hgen, le_refl 0,
          (by decide : (0 : Int) ≤ 1000), ⟨fun _ => rfl, fun _ => rfl⟩, fun hne => absurd rfl hne⟩
      refine ih (h.insert hvalid) fun x hx => ⟨(hrest x hx).1, fun hnext hx' => ?_⟩
      -- a record that the longer map lacks, the shorter one lacks too
      rw [Map.lookup_insert_ite] at hx'
      split_ifs at hx'
      exact (hrest x hx).2 hnext hx'

theorem recordsWithNewRetirements_recorded (hpkg : pkg.Documented) (hm : m.Sound rfc) {next : DesiredState}
    (hgen : 1 ≤ next.generation) (hstaffed : Staffed pkg cfg m next)
    (h : recordsWithNewRetirements pkg cfg m.retirementRecords m.previous next = .ok records) :
    Recorded rfc records := by
  obtain ⟨previous, hprevious, h⟩ := bind_eq_ok.mp h
  obtain ⟨nextTargets, hnext, h⟩ := bind_eq_ok.mp h
  obtain rfl := Except.ok.inj h
  have hdropped := hstaffed previous (by rw [hprevious]; rfl) nextTargets (by rw [hnext]; rfl)
  refine addRetirements_recorded hgen hm.records fun t ht => ⟨?_, hdropped t ht⟩
  unfold previousTargets at hprevious
  split_ifs at hprevious
  · obtain rfl := Except.ok.inj hprevious
    cases ht
  · exact buildTargetSpecs_complete hpkg hprevious t ht

theorem ensureRetirementStateCurrent_kept : Kept rfc (ensureRetirementStateCurrent pkg cfg) := by
  refine gets_keeps.bind fun m hm => ?_
  split
  · exact Keeps.pure trivial
  · next current hcurrent =>
    split
    · exact Keeps.pure trivial
    · dsimp only
      split
      · exact Keeps.pure trivial
      · exact persistRetirements_kept (le_trans (by decide) (hm.current current hcurrent)) (hm.records.eraseAll _) none

theorem acceptDesiredTransition_safe (hpkg : pkg.Documented) {parsed : ParsedDesiredState} {hash : String}
    {s : ManagerWorld} (hgen : 1 ≤ parsed.state.generation) (hstaffed : Staffed pkg cfg s.manager parsed.state) :
    (acceptDesiredTransition pkg cfg parsed hash).Safe (rules rfc) (fun _ _ => True) s := by
  refine Safe.atomic_bind fun t hst ht _ _ => ⟨ht, trivial, ?_⟩
  subst hst
  dsimp only [id]
  have happlied : Kept rfc (ManagerProg.modify fun m => { m with applied := m.applied <|> m.current }) :=
    modify_kept fun m hm => hm.of_eq rfl rfl
  refine happlied.seq (fun _ => ?_) s
  split
  · exact Keeps.pure trivial
  · next records hrecords =>
    have hrec : Recorded rfc records := recordsWithNewRetirements_recorded hpkg ht.manager hgen hstaffed hrecords
    refine Keeps.cond (persistRetirements_kept (le_trans (by decide) hgen) hrec none) ?_ (Keeps.pure trivial)
    refine Keeps.cond (writeLastValid_kept parsed.raw) ?_ (Keeps.pure trivial)
    refine Keeps.seq (modify_kept fun m hm => ⟨hm.records, fun p hp => ?_⟩) fun _ => ensureRetirementStateCurrent_kept
    rwa [← Option.some.inj hp]

theorem processDesired_safe (hpkg : pkg.Documented) {desired : DesiredFile} {s : ManagerWorld}
    (h : ∀ parsed ∈ s.manager.accepted pkg cfg desired, Staffed pkg cfg s.manager parsed.state) :
    (processDesired pkg cfg desired).Safe (rules rfc) (fun _ _ => True) s := by
  refine Safe.atomic_bind fun t hst ht _ _ => ⟨ht, trivial, ?_⟩
  subst hst
  have hhash (b : Bool) (hash : String) : Kept rfc
      (do ManagerProg.modify fun m => { m with lastDocumentHash := hash }
          return b) :=
    Keeps.seq (modify_kept fun m hm => hm.of_eq rfl rfl) fun _ => Keeps.pure trivial
  cases desired with
  | unreadable => exact Keeps.pure trivial s
  | missing => exact hhash true "" s
  | data data =>
    dsimp only [id]
    split
    · exact Keeps.pure trivial s
    · split
      · exact hhash false _ s
      · exact hhash false _ s
      · exact hhash false _ s
      · exact hhash true _ s
      · next parsed hnew =>
        refine acceptDesiredTransition_safe hpkg (generation_of_parse (parse_of_classify hnew)) (h parsed ?_)
        simp only [Manager.accepted, hnew, Option.mem_def]

/-! ### Controllers -/

/-- A step that leaves alone the files and what memory has of them. -/
structure Beside (w w' : ManagerWorld) : Prop where
  files : w'.files = w.files
  notes : w'.notes = w.notes
  persisted : w'.persisted = w.persisted
  current : w'.manager.current = w.manager.current
  records : w'.manager.retirementRecords = w.manager.retirementRecords
  generation : w'.manager.retirementGeneration = w.manager.retirementGeneration

abbrev Idle {α : Type} (p : ManagerProg α) : Prop := p.Along Beside

theorem Beside.sound {w w' : ManagerWorld} (h : Beside w w') (hw : w.Sound rfc) : w'.Sound rfc :=
  ⟨hw.manager.of_eq h.records h.current, h.files ▸ hw.file, h.persisted ▸ hw.persisted⟩

theorem Idle.kept {α : Type} {p : ManagerProg α} (h : Idle p) : Kept rfc p :=
  fun _ => h.safe (fun _ => True) (fun hw _ hstep => ⟨hstep.sound hw, trivial, trivial⟩) (fun _ => id) trivial

theorem modify_idle {f : Manager → Manager} (hcurrent : ∀ m, (f m).current = m.current)
    (hrecords : ∀ m, (f m).retirementRecords = m.retirementRecords)
    (hgeneration : ∀ m, (f m).retirementGeneration = m.retirementGeneration) : Idle (ManagerProg.modify f) :=
  Along.atomic fun _ _ => ⟨rfl, rfl, rfl, hcurrent _, hrecords _, hgeneration _⟩

theorem look_idle {α : Type} {f : ManagerWorld → ManagerReply → α} : Idle (Prog.atomic fun w c => (f w c, w)) :=
  Along.atomic fun _ _ => ⟨rfl, rfl, rfl, rfl, rfl, rfl⟩

theorem gets_idle {α : Type} {f : Manager → α} : Idle (ManagerProg.gets f) := look_idle

theorem call_idle : Idle ManagerProg.call := look_idle

theorem ask_idle : Idle ManagerProg.ask := look_idle

theorem startDesiredController_idle (target : TargetSpec) : Idle (startDesiredController target) := by
  refine Along.cond call_idle ?_ Along.pure
  refine Along.bind (modify_idle (fun _ => rfl) (fun _ => rfl) fun _ => rfl) fun _ => Along.cond call_idle ?_ Along.pure
  exact Along.bind (modify_idle (fun _ => rfl) (fun _ => rfl) fun _ => rfl) fun _ => Along.pure

theorem reconcileDesiredTarget_idle (target : TargetSpec) : Idle (reconcileDesiredTarget target) := by
  refine gets_idle.bind fun m => ?_
  split
  · refine Along.cond ask_idle ?_ (Along.cond call_idle ?_ Along.pure)
    · exact Along.bind (modify_idle (fun _ => rfl) (fun _ => rfl) fun _ => rfl) fun _ =>
        startDesiredController_idle target
    · exact Along.bind (modify_idle (fun _ => rfl) (fun _ => rfl) fun _ => rfl) fun _ => Along.pure
  · split
    · split
      · exact Along.pure
      · refine Along.cond call_idle ?_ Along.pure
        exact Along.bind (modify_idle (fun _ => rfl) (fun _ => rfl) fun _ => rfl) fun _ => Along.pure
    · exact startDesiredController_idle target

theorem reconcileTargets_idle (targets : List TargetSpec) : Idle (reconcileTargets targets) := by
  induction targets with
  | nil => exact Along.pure
  | cons target targets ih =>
    exact Along.bind (reconcileDesiredTarget_idle target) fun _ => Along.bind ih fun _ => Along.pure

theorem retireControllers_idle (desired keys : List String) : Idle (retireControllers desired keys) := by
  induction keys with
  | nil => exact Along.pure
  | cons key keys ih =>
    refine gets_idle.bind fun m => ?_
    split
    · exact ih
    · split
      · exact ih
      · split
        · exact Along.bind ih fun _ => Along.pure
        · refine Along.bind (modify_idle (fun _ => rfl) (fun _ => rfl) fun _ => rfl) fun _ => ?_
          exact Along.bind call_idle fun _ => Along.bind ih fun _ => Along.pure

theorem reconcileDesiredTargets_idle : Idle (reconcileDesiredTargets pkg cfg) := by
  refine gets_idle.bind fun m => ?_
  split
  · exact Along.pure
  · split
    · exact Along.pure
    · refine Along.bind (reconcileTargets_idle _) fun _ => look_idle.bind fun keys => ?_
      refine Along.bind (retireControllers_idle _ keys) fun _ => ?_
      exact Along.bind (modify_idle (fun _ => rfl) (fun _ => rfl) fun _ => rfl) fun _ => Along.pure

/-! ### Retirements -/

theorem nextStartup_valid (hrfc : rfc.Documented) {now : Int} (hnow : Timely now) {r next : RetirementRecord}
    (hr : r.Valid rfc) (h : nextStartup rfc now r = some next) : next.Valid rfc ∧ next.key = r.key := by
  have h0 := hr.attempts_nonneg
  have hmax : maxRegistrationCleanupAttempts = 1000 := rfl
  have hdelay := boundedExponentialBackoff_mem (show 0 < retirementStartupRetryBase by decide)
    (show retirementStartupRetryBase ≤ retirementStartupRetryMax by decide) (by decide)
    (show 1 ≤ min (r.startupAttempts + 1) maxRegistrationCleanupAttempts by omega)
  have hbase : 0 < retirementStartupRetryBase := by decide
  have hnext : next = { r with
      startupAttempts := min (r.startupAttempts + 1) maxRegistrationCleanupAttempts
      startupRetryAt := next.startupRetryAt } ∧ ∃ t, FourDigitYear t ∧ next.startupRetryAt = rfc.format t := by
    unfold nextStartup at h
    dsimp only at h
    split at h
    · rw [← Option.some.inj h]
      exact ⟨rfl, _, hnow.1.between hnow.2 (by omega) (by omega), rfl⟩
    · split at h
      · cases h
      · split at h
        · cases h
        · rw [← Option.some.inj h]
          exact ⟨rfl, _, hnow.1.between hnow.2 (by omega) (by omega), rfl⟩
  obtain ⟨hnext, t, hyear, ht⟩ := hnext
  have hformat : next.startupRetryAt ≠ "" := ht ▸ hrfc.format_ne_empty hyear
  have hattempts : next.startupAttempts = min (r.startupAttempts + 1) maxRegistrationCleanupAttempts := by rw [hnext]
  refine ⟨⟨?_, ?_, ?_, ?_, ?_, by omega, by omega, ⟨fun hzero => by omega, fun hempty => absurd hempty hformat⟩,
    fun _ => ?_⟩, by rw [hnext]⟩
  · rw [hnext]; exact hr.key
  · rw [hnext]; exact hr.registrationURL
  · rw [hnext]; exact hr.scaleSetName
  · rw [hnext]; exact hr.maximum
  · rw [hnext]; exact hr.generation
  · rw [ht, hrfc.parse_format t hyear]
    exact Option.some_ne_none _

theorem prepareRetirementStartup_kept (hrfc : rfc.Documented) {r : RetirementRecord} (hr : r.Valid rfc) :
    Kept rfc (prepareRetirementStartup rfc r) := by
  refine now_keeps.bind fun now hnow => ?_
  split
  · exact Keeps.pure trivial
  · next next hnext =>
    refine gets_keeps.bind fun m hm => ?_
    exact persistRetirements_kept hm.generation_nonneg (hm.records.insert (nextStartup_valid hrfc hnow hr hnext).1) none

theorem scaleSetExists_kept (key : String) : Kept rfc (scaleSetExists key) := by
  refine Keeps.atomic fun s c hs _ => ?_
  dsimp only
  split
  · exact ⟨hs, trivial, trivial⟩
  · exact ⟨⟨hs.manager, hs.file, hs.persisted⟩, trivial, trivial⟩

theorem deleteScaleSet_kept (key : String) : Kept rfc (deleteScaleSet key) := by
  refine Keeps.atomic fun s c hs _ => ?_
  cases c.outcome with
  | failed => exact ⟨hs, trivial, trivial⟩
  | done | unsure => exact ⟨⟨hs.manager, hs.file, hs.persisted⟩, trivial, trivial⟩

theorem startRetiringController_kept (r : RetirementRecord) : Kept rfc (startRetiringController r) := by
  refine Keeps.cond call_kept (Keeps.cond (scaleSetExists_kept _) ?_ ?_) (Keeps.pure trivial)
  · exact Keeps.cond call_kept (Keeps.pure trivial) (Keeps.pure trivial)
  · refine gets_keeps.bind fun m hm => ?_
    split
    · exact Keeps.pure trivial
    · exact Keeps.pure trivial

theorem completeRetirement_kept (key : String) : Kept rfc (completeRetirement key) :=
  gets_keeps.bind fun _ hm => persistRetirements_kept hm.generation_nonneg (hm.records.erase key) (some key)

theorem endRetirement_kept (key : String) : Kept rfc (endRetirement key) := by
  refine Keeps.cond (completeRetirement_kept key) ?_ (Keeps.pure trivial)
  exact Keeps.seq (modify_kept fun m hm => hm.of_eq rfl rfl) fun _ => Keeps.pure trivial

theorem finishRetirement_kept (allow : Bool) (key : String) : Kept rfc (finishRetirement allow key) := by
  refine Keeps.cond call_kept (Keeps.cond ask_kept ?_ (Keeps.pure trivial)) (Keeps.pure trivial)
  split
  · refine Keeps.cond call_kept (Keeps.cond (scaleSetExists_kept key) ?_ (endRetirement_kept key)) (Keeps.pure trivial)
    exact Keeps.cond (deleteScaleSet_kept key) (endRetirement_kept key) (Keeps.pure trivial)
  · exact Keeps.pure trivial

theorem reconcileRetirement_kept (hrfc : rfc.Documented) (allow : Bool) (key : String) :
    Kept rfc (reconcileRetirement rfc allow key) := by
  refine gets_keeps.bind fun m hm => ?_
  split
  · exact Keeps.pure trivial
  · next r hr =>
    obtain ⟨rfl, hvalid⟩ := hm.records _ r hr
    -- the record without its attempts is as valid as it was with them
    have hreset : ({ r with startupAttempts := 0, startupRetryAt := "" } : RetirementRecord).Valid rfc :=
      ⟨hvalid.key, hvalid.registrationURL, hvalid.scaleSetName, hvalid.maximum, hvalid.generation, le_refl 0,
        (by decide : (0 : Int) ≤ 1000), ⟨fun _ => rfl, fun _ => rfl⟩, fun hne => absurd rfl hne⟩
    split
    · exact finishRetirement_kept allow r.key
    · refine Keeps.cond (prepareRetirementStartup_kept hrfc hvalid) ?_ (Keeps.pure trivial)
      refine (startRetiringController_kept r).seq fun started => ?_
      cases started with
      | none => exact Keeps.pure trivial
      | some controller =>
        have hpersist (rest : ManagerProg Bool) (hrest : Kept rfc rest) : Kept rfc (do
            let m ← ManagerProg.gets id
            if ← persistRetirements m.generation
                (m.retirementRecords.insert r.key { r with startupAttempts := 0, startupRetryAt := "" }) then rest
            else return false) := by
          refine gets_keeps.bind fun m hm => Keeps.cond ?_ hrest (Keeps.pure trivial)
          exact persistRetirements_kept hm.generation_nonneg (hm.records.insert hreset) none
        cases controller with
        | none =>
          refine hpersist (if allow = true then completeRetirement r.key else return true) ?_
          split
          · exact completeRetirement_kept r.key
          · exact Keeps.pure trivial
        | some target =>
          refine Keeps.seq (modify_kept fun m hm => hm.of_eq rfl rfl) fun _ => ?_
          exact hpersist _ (finishRetirement_kept allow r.key)

theorem reconcileRetirementKeys_kept (hrfc : rfc.Documented) (allow : Bool) (keys : List String) :
    Kept rfc (reconcileRetirementKeys rfc allow keys) := by
  induction keys with
  | nil => exact Keeps.pure trivial
  | cons key keys ih =>
    exact Keeps.seq (reconcileRetirement_kept hrfc allow key) fun _ => Keeps.seq ih fun _ => Keeps.pure trivial

theorem reconcileRetirements_kept (hrfc : rfc.Documented) (allow : Bool) :
    Kept rfc (reconcileRetirementsWithFinalization pkg cfg rfc allow) := by
  refine gets_keeps.bind fun m hm => ?_
  split
  · exact Keeps.pure trivial
  · split
    · exact Keeps.pure trivial
    · exact reconcileRetirementKeys_kept hrfc allow _

/-! ### Acknowledging -/

theorem currentConfigurationCoherent_idle : Idle (currentConfigurationCoherent pkg cfg) := by
  refine gets_idle.bind fun m => ?_
  split
  · exact Along.pure
  · split
    · exact Along.pure
    · split
      · exact ask_idle
      · exact Along.pure

theorem writeAcknowledgement_kept (current : ParsedDesiredState) (previous : DesiredState) :
    Kept rfc (writeAcknowledgement pkg cfg rfc current previous) := by
  refine Keeps.atomic fun s c hs _ => ?_
  dsimp only
  cases c.outcome with
  | failed => exact ⟨hs, trivial, trivial⟩
  | done | unsure => exact ⟨⟨hs.manager, hs.file, hs.persisted⟩, trivial, trivial⟩

theorem publishAcknowledgement_kept : Kept rfc (publishAcknowledgement pkg cfg rfc) := by
  refine gets_keeps.bind fun m hm => ?_
  split
  · exact Keeps.pure trivial
  · split
    · exact Keeps.pure trivial
    · refine Keeps.cond currentConfigurationCoherent_idle.kept ?_ (Keeps.pure trivial)
      split
      · exact Keeps.pure trivial
      · split
        · exact Keeps.pure trivial
        · split
          · exact Keeps.pure trivial
          · refine Keeps.cond (writeAcknowledgement_kept _ _) ?_ (Keeps.pure trivial)
            exact Keeps.seq (modify_kept fun m hm => hm.of_eq rfl rfl) fun _ => Keeps.pure trivial

theorem applyConfiguration_kept : Kept rfc (applyConfiguration pkg cfg rfc) := by
  refine gets_keeps.bind fun m hm => ?_
  split
  · refine Keeps.cond currentConfigurationCoherent_idle.kept ?_ ?_
    · refine Keeps.seq (modify_kept fun m hm => hm.of_eq rfl rfl) fun _ => ?_
      exact Keeps.seq publishAcknowledgement_kept fun _ => Keeps.pure trivial
    · exact Keeps.seq publishAcknowledgement_kept fun _ => Keeps.pure trivial
  · exact Keeps.pure trivial

/-! ### Cycles and runs -/

theorem runReconciliationCycle_safe (hpkg : pkg.Documented) (hrfc : rfc.Documented) {desired : DesiredFile}
    {s : ManagerWorld} (h : ∀ parsed ∈ s.manager.accepted pkg cfg desired, Staffed pkg cfg s.manager parsed.state) :
    (runReconciliationCycle pkg cfg rfc desired).Safe (rules rfc) (fun _ _ => True) s := by
  refine Safe.bind ((processDesired_safe hpkg h).mono fun _ t _ => ?_)
  have hread {α : Type} (f : Manager → α) : Kept rfc (ManagerProg.gets f) :=
    Keeps.atomic fun _ _ hs _ => ⟨hs, trivial, trivial⟩
  have hlast (pending : Bool) : Kept rfc (do
      let m ← ManagerProg.gets id
      if pending && !m.hostAdmissionAdoptionPending && m.current.isSome then
        let _ ← reconcileRetirementsWithFinalization pkg cfg rfc true
      applyConfiguration pkg cfg rfc) := by
    refine (hread id).seq fun m => ?_
    split
    · exact Keeps.seq (reconcileRetirements_kept hrfc true) fun _ => applyConfiguration_kept
    · exact applyConfiguration_kept
  have hadoption (pending : Bool) : Kept rfc (do
      if ← ManagerProg.ask then ManagerProg.modify fun m => { m with hostAdmissionAdoptionPending := false }
      let m ← ManagerProg.gets id
      if pending && !m.hostAdmissionAdoptionPending && m.current.isSome then
        let _ ← reconcileRetirementsWithFinalization pkg cfg rfc true
      applyConfiguration pkg cfg rfc) := by
    refine Keeps.cond ask_kept ?_ (hlast pending)
    exact Keeps.seq (modify_kept fun m hm => hm.of_eq rfl rfl) fun _ => hlast pending
  refine (hread (·.hostAdmissionAdoptionPending)).seq (fun pending => (hread id).seq fun m => ?_) t
  split
  · refine Keeps.seq ensureRetirementStateCurrent_kept fun _ => Keeps.seq reconcileDesiredTargets_idle.kept fun _ => ?_
    exact (hread _).seq fun allow => Keeps.seq (reconcileRetirements_kept hrfc allow) fun _ => hadoption pending
  · exact hadoption pending

/-- The world is sound, and the process that runs keeps it so. -/
structure ManagerSystem.Sound (rfc : Rfc3339) (s : ManagerSystem) : Prop where
  world : s.world.Sound rfc
  program : ∀ p, s.program = some p → p.Safe (rules rfc) (fun _ _ => True) s.world

theorem startManager_sound {files : StateFiles} {recovered : Finset String} {pending : Bool}
    (h : startManager pkg cfg rfc files recovered pending = .ok m) : m.Sound rfc := by
  unfold startManager at h
  split at h
  · cases h
  next current hcurrent =>
  split at h
  · cases h
  next generation records hload =>
  obtain rfl := Except.ok.inj h
  refine ⟨(recorded_of_load hload).1, fun p hp => ?_⟩
  unfold restoreLastValid at hcurrent
  split at hcurrent
  · obtain rfl := Except.ok.inj hcurrent
    cases hp
  · obtain ⟨parsed, hparsed, hcurrent⟩ := bind_eq_ok.mp hcurrent
    obtain rfl := Except.ok.inj hcurrent
    obtain rfl := Option.some.inj hp
    exact generation_of_parse hparsed

theorem ManagerSystem.Sound.step (hpkg : pkg.Documented) (hrfc : rfc.Documented) {s : ManagerSystem} (h : s.Sound rfc)
    {e : ManagerEvent} (he : DropsStaffed pkg cfg s e) (htimely : e.Timely) : (s.step pkg cfg rfc e).1.Sound rfc := by
  cases e with
  | restart recovered pending =>
    unfold ManagerSystem.step
    dsimp only
    split
    · exact ⟨h.world, fun p hp => by cases hp⟩
    · next m hm =>
      refine ⟨⟨startManager_sound hm, h.world.file, h.world.persisted⟩, fun p hp => ?_⟩
      rw [← Option.some.inj hp]
      exact Keeps.pure trivial _
  | cycle desired =>
    unfold ManagerSystem.step
    dsimp only
    split
    · refine ⟨h.world, fun p hp => ?_⟩
      rw [← Option.some.inj hp]
      exact runReconciliationCycle_safe hpkg hrfc he
    · exact h
  | step reply =>
    unfold ManagerSystem.step
    dsimp only
    split
    · next act next hprogram =>
      obtain ⟨hinv, -, hnext⟩ := h.program _ hprogram _ rfl h.world reply htimely
      refine ⟨hinv, fun p hp => ?_⟩
      rw [← Option.some.inj hp]
      exact hnext
    · exact h

end Keeping

/-! ## A manager for closed runs -/

section Sample

/-- Two repositories, one of them without workers. -/
def idleDocument : String :=
  "\x7b\"generation\":1,\"repositories\":[\x7b\"url\":\"https://github.com/acme/build\",\"workers\":2\x7d," ++
    "\x7b\"url\":\"https://github.com/acme/docs\",\"workers\":0\x7d],\"schemaVersion\":1,\"scope\":\"repo\"\x7d"

/-- Two repositories with workers. -/
def busyDocument : String :=
  "\x7b\"generation\":1,\"repositories\":[\x7b\"url\":\"https://github.com/acme/build\",\"workers\":2\x7d," ++
    "\x7b\"url\":\"https://github.com/acme/docs\",\"workers\":1\x7d],\"schemaVersion\":1,\"scope\":\"repo\"\x7d"

/-- The second repository is dropped. -/
def droppedDocument : String :=
  "\x7b\"generation\":2,\"repositories\":[\x7b\"url\":\"https://github.com/acme/build\",\"workers\":2\x7d]," ++
    "\"schemaVersion\":1,\"scope\":\"repo\"\x7d"

def sampleDigests : List (String × String) :=
  [("https://github.com/acme/build", "a683009b705fe6dfbfe76a7e62b6f3e7c4b78b9ffd73a18e9a297ec571f2841f"),
    ("https://github.com/acme/docs", "9b7d330c298cfcbf74c156afd4930bdb42495acec909306ba6e5ac2bb968f05f"),
    ("pit\nhttps://github.com/acme/build", "5b3281a7847fa124624f3f847c5923d7c34254eb9a6b0d2a198f19ddb091f9fb"),
    ("pit\nhttps://github.com/acme/docs", "ad3580f07b6be15706b48bfe465f44fd15206bad7c389246d83b8c6a08777a8e"),
    (idleDocument, "03e27b72c286ec560e668f8f22da93d9e0d076bcaff6a88c6fa9a73321b5b7c5"),
    (busyDocument, "44b2b69e22403b8f60b4079c2d17323a08d1d2d9d032850001992a7303ae266d"),
    (droppedDocument, "e5e9ad940418d2a20eb1ca7849b7992aacbeebc2e93c345b11b9bb4f58b582c6")]

theorem hexFrom_sampleDigests : Sha256.hexFrom sampleDigests = Sha256.hex := Sha256.hexFrom_eq (by decide +kernel)

/-- A library that knows the URLs of one host and the three documents, which are in their canonical form. -/
def samplePackages : Packages where
  parseURL value :=
    some { scheme := "https", host := Utf8.ofString "github.com", path := Utf8.encode (value.toList.drop 18) }
  formatURL u := u.scheme ++ ":" ++ ("//" ++ Utf8.toString u.host ++ Utf8.toString u.path)
  hostname u := u.host
  port _ := ""
  isSpace := Char.isWhitespace
  isLetter := Char.isAlpha
  isDigit := Char.isDigit
  lower := Char.toLower
  hexDigest := Sha256.hexFrom sampleDigests
  decode data :=
    let build : DesiredRepository := ⟨"https://github.com/acme/build", 2⟩
    let docs := "https://github.com/acme/docs"
    if data = idleDocument then
      some { schemaVersion := 1, generation := 1, scope := .repo, repositories := [build, ⟨docs, 0⟩] }
    else if data = busyDocument then
      some { schemaVersion := 1, generation := 1, scope := .repo, repositories := [build, ⟨docs, 1⟩] }
    else if data = droppedDocument then
      some { schemaVersion := 1, generation := 2, scope := .repo, repositories := [build] }
    else none
  stateHash := Sha256.hexFrom sampleDigests

def sampleConfig : Config := { scope := .repo, profileID := "acme", namePrefix := "pit" }

def steps (n : Nat) (reply : ManagerReply) : List ManagerEvent := List.replicate n (.step reply)

/-- A manager starts, takes the first document and then the one that drops a target, and gets so far. -/
def droppingRun (first : String) (reached : Nat) : List ManagerEvent :=
  [.restart ∅ false, .cycle (.data first)] ++ steps 48 {} ++ [.cycle (.data droppedDocument)] ++ steps reached {}

theorem samplePackages_documented : samplePackages.Documented :=
  ⟨fun u _ => ⟨"//" ++ Utf8.toString u.host ++ Utf8.toString u.path, rfl⟩⟩

end Sample

/-! ## Runs -/

/-- Every run with a clock in years of four digits whose accepted documents drop only targets with workers: whatever
    retirement state was written reads back as it was, and a manager that starts can load the file it finds. -/
theorem retirements_reload_of_staffed {pkg : Packages} {cfg : Config} {rfc : Rfc3339} (hpkg : pkg.Documented)
    (hrfc : rfc.Documented) {files : StateFiles} (hfiles : ∃ e, loadRetirements rfc files = .ok e)
    (events : List ManagerEvent)
    (htimely : ∀ event ∈ events, event.Timely)
    (hstaffed : ∀ t ∈ transitions (ManagerSystem.step pkg cfg rfc) (.start files) events,
      DropsStaffed pkg cfg t.before t.event) :
    let s := exec (ManagerSystem.step pkg cfg rfc) (.start files) events
    (∀ e ∈ s.world.persisted, Reloads rfc e) ∧ ∃ e, loadRetirements rfc s.world.files = .ok e := by
  have hstart : (ManagerSystem.start files).Sound rfc :=
    ⟨⟨⟨fun k r hr => by simp [ManagerSystem.start] at hr, fun p hp => by cases hp⟩, hfiles, fun e he => by cases he⟩,
      fun p hp => by cases hp⟩
  have hsound := exec_induction_of (P := fun s event => DropsStaffed pkg cfg s event ∧ event.Timely) hstart
    (fun s event hs he => hs.step hpkg hrfc he.1 he.2)
    fun t ht => ⟨hstaffed t ht, htimely t.event (Transition.event_mem ht)⟩
  refine ⟨fun e he => ?_, hsound.world.file⟩
  obtain ⟨hgen, hrecords⟩ := hsound.world.persisted e he
  exact hrecords.reloads hgen

/-- A repository with a worker is dropped, and the record of its retirement reads back. -/
theorem retirements_reload_of_staffed_busy :
    let s := exec (ManagerSystem.step samplePackages sampleConfig utcTime) (.start {}) (droppingRun busyDocument 48)
    s.world.persisted.length = 2 ∧ (∀ e ∈ s.world.persisted, Reloads utcTime e) ∧
      ∃ e, loadRetirements utcTime s.world.files = .ok e := by
  refine ⟨by decide +kernel, ?_⟩
  exact retirements_reload_of_staffed samplePackages_documented utcTime_documented ⟨_, rfl⟩
    (droppingRun busyDocument 48)
    (by decide +kernel) (by decide +kernel)

/-- A target that wants no workers is dropped: its record has a maximum of zero, and the next manager
    refuses the file. -/
theorem dropped_idle_target_blocks_start :
    let s := exec (ManagerSystem.step samplePackages sampleConfig utcTime) (.start {}) (droppingRun idleDocument 5)
    loadRetirements utcTime s.world.files = .error (.incomplete 0) := by
  decide +kernel

end PitCrew.Autoscaler
