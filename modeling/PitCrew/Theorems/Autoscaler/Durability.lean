import PitCrew.Theorems.Autoscaler.Retirement

/-! # What the state files of a manager keep

What a manager does about a desired-capacity document rests on two files: the last-valid document and the
retirement records. Between two operations memory and files say the same (`Settled`), and at every step each
target that the last-valid file has ever named is in one of the two (`Durable`), until its scale set is gone.
A write that reports failure after it took effect leaves memory behind: for the retirement records that costs
nothing, for the last-valid document it does. Here are the rules of the manager's programs and the acceptance of
a document by them. -/

namespace PitCrew.Autoscaler
open Base Prog

/-! ## What the files say -/

section Files
variable (pkg : Packages) (cfg : Config)

/-- The keys of the targets of a state; a state whose targets cannot be built has none. -/
def stateKeys (state : DesiredState) : List String :=
  ((buildTargetSpecs pkg cfg state).toOption.map targetKeys).getD []

/-- The keys of the targets that a last-valid document names. -/
def documentKeys (raw : String) : List String :=
  ((parseDesiredState pkg raw cfg.scope).toOption.map fun parsed => stateKeys pkg cfg parsed.state).getD []

def StateFiles.acceptedKeys (f : StateFiles) : List String := (f.lastValid.map (documentKeys pkg cfg)).getD []

def StateFiles.retirementRecords (f : StateFiles) : List RetirementRecord := (f.retirements.map (·.targets)).getD []

def StateFiles.retirementGeneration (f : StateFiles) : Int := (f.retirements.map (·.generation)).getD 0

/-- The target has been named by a last-valid document, at the latest by one of the start, and no retirement has
    deleted its scale set or found none since. -/
def Owed (base : List String) (key : String) : List ManagerNote → Prop
  | [] => key ∈ base
  | .stored raw _ :: notes => key ∈ documentKeys pkg cfg raw ∨ Owed base key notes
  | .absent gone :: notes | .deleted gone :: notes => gone ≠ key ∧ Owed base key notes
  | .recorded _ _ :: notes | .acknowledged _ :: notes => Owed base key notes

/-- The documents that the last-valid file has held, latest first, with the one of the start. -/
def acceptedDocuments (initial : Option ParsedDesiredState) : List ManagerNote → List ParsedDesiredState
  | [] => initial.toList
  | .stored raw _ :: notes => (parseDesiredState pkg raw cfg.scope).toOption.toList ++ acceptedDocuments initial notes
  | _ :: notes => acceptedDocuments initial notes

/-- The document in the last-valid file, if there is one that can be read. -/
def StateFiles.accepted (f : StateFiles) : Option ParsedDesiredState := (restoreLastValid pkg cfg f).toOption.join

end Files

instance decidableOwed (pkg : Packages) (cfg : Config) (base : List String) (key : String) :
    (notes : List ManagerNote) → Decidable (Owed pkg cfg base key notes)
  | [] => inferInstanceAs (Decidable (key ∈ base))
  | .stored _ _ :: notes =>
    have := decidableOwed pkg cfg base key notes
    inferInstanceAs (Decidable (_ ∨ _))
  | .absent _ :: notes | .deleted _ :: notes =>
    have := decidableOwed pkg cfg base key notes
    inferInstanceAs (Decidable (_ ∧ _))
  | .recorded _ _ :: notes | .acknowledged _ :: notes => decidableOwed pkg cfg base key notes

/-- A write of the last-valid file has reported failure after it took effect. -/
def ManagerNote.storedInDoubt : ManagerNote → Bool
  | .stored _ reported => !reported
  | _ => false

/-- A write of one of the two files has. -/
def ManagerNote.inDoubt : ManagerNote → Bool
  | .stored _ reported | .recorded _ reported => !reported
  | _ => false

def ManagerNote.lastValid (before : Option String) : ManagerNote → Option String
  | .stored raw _ => some raw
  | _ => before

def Unambiguous (notes : List ManagerNote) : Prop := ∀ n ∈ notes, n.storedInDoubt = false

def Certain (notes : List ManagerNote) : Prop := ∀ n ∈ notes, n.inDoubt = false

instance : DecidablePred Unambiguous := fun notes => inferInstanceAs (Decidable (∀ n ∈ notes, _))

instance : DecidablePred Certain := fun notes => inferInstanceAs (Decidable (∀ n ∈ notes, _))

/-! ## What every step keeps -/

section Rules
variable (pkg : Packages) (cfg : Config) (base : List String)

/-- The target may be retired: the accepted state does not name it, and its record is due. -/
structure Retirable (w : ManagerWorld) (key : String) : Prop where
  out : ∃ current targets record, restoreLastValid pkg cfg w.files = .ok (some current) ∧
    w.manager.current = some current ∧
    buildTargetSpecs pkg cfg current.state = .ok targets ∧ key ∉ targetKeys targets ∧
    record ∈ w.files.retirementRecords ∧ record.key = key ∧ record.retireAtGeneration ≤ current.state.generation

structure Controls (controllers : Map String TargetSpec) (targets : List TargetSpec) : Prop where
  keys : ∀ key, (controllers.lookup key).isSome ↔ key ∈ targetKeys targets
  targets : ∀ t ∈ targets, ∃ c, controllers.lookup t.key = some c ∧ c.key = t.key ∧ c.maximum = t.maximum

/-- The document of the acknowledgement is the one in the last-valid file, and it is applied. -/
def Applied (w : ManagerWorld) (a : Acknowledgement) : Prop :=
  ∃ current targets document, w.files.lastValid = some current.raw ∧
    parseDesiredState pkg current.raw cfg.scope = .ok current ∧
    a.generation = current.state.generation ∧ a.desiredStateHash = current.stateHash ∧
    buildTargetSpecs pkg cfg current.state = .ok targets ∧ Controls w.manager.controllers targets ∧
    w.files.retirements = some document ∧ a.generation ≤ document.generation ∧
    ∀ t ∈ targets, t.key ∉ document.targets.map (·.key)

def NoteSound (w : ManagerWorld) : ManagerNote → Prop
  | .stored raw _ => ∃ parsed, parseDesiredState pkg raw cfg.scope = .ok parsed ∧
      ∀ previous, restoreLastValid pkg cfg w.files = .ok (some previous) →
        previous.state.generation < parsed.state.generation
  | .absent key | .deleted key => Retirable pkg cfg w key
  | .recorded completes _ => ∀ key ∈ completes, Retirable pkg cfg w key
  | .acknowledged a => Applied pkg cfg w a

def Keyed (records : RetirementRecords) : Prop := ∀ key record, records.lookup key = some record → record.key = key

structure Mirrors (w : ManagerWorld) : Prop where
  generation : w.manager.retirementGeneration = w.files.retirementGeneration
  records : ∀ key record, w.manager.retirementRecords.lookup key = some record ↔
    record ∈ w.files.retirementRecords ∧ record.key = key

/-- Nothing that is owed is forgotten if these are the records. -/
def Covers (w : ManagerWorld) (records : RetirementRecords) : Prop :=
  Unambiguous w.notes → ∀ key, Owed pkg cfg base key w.notes → key ∉ w.files.acceptedKeys pkg cfg →
    (records.lookup key).isSome

/-- Between the operations of a manager. -/
structure Settled (w : ManagerWorld) : Prop where
  keyed : Keyed w.manager.retirementRecords
  accepted : Unambiguous w.notes → restoreLastValid pkg cfg w.files = .ok w.manager.current
  covers : Covers pkg cfg base w w.manager.retirementRecords
  mirrors : Certain w.notes → Mirrors w

/-- At every step: what is owed is in one of the files. -/
def Durable (w : ManagerWorld) : Prop :=
  Unambiguous w.notes → ∀ key, Owed pkg cfg base key w.notes →
    key ∈ w.files.acceptedKeys pkg cfg ∨ key ∈ w.files.retirementRecords.map (·.key)

/-- A step notes what it does to the last-valid file, and as long as nothing is in doubt its note is sound. -/
def StepSound (w w' : ManagerWorld) : Prop :=
  (w'.files.lastValid = w.files.lastValid ∧ w'.notes = w.notes) ∨
    ∃ n, w'.notes = n :: w.notes ∧ w'.files.lastValid = n.lastValid w.files.lastValid ∧
      (Certain w.notes → NoteSound pkg cfg w n)

def transitionRules : Prog.Rules ManagerWorld ManagerReply where
  inv := Durable pkg cfg base
  rely := Eq
  guar := StepSound pkg cfg
  may _ _ := True
  refl _ := rfl
  trans := Eq.trans

end Rules

section Notes
variable {notes : List ManagerNote} {n : ManagerNote}

theorem Certain.unambiguous (h : Certain notes) : Unambiguous notes := by
  intro n hn
  have hsure := h n hn
  cases n with
  | stored raw reported => exact hsure
  | recorded | absent | deleted | acknowledged => rfl

theorem unambiguous_cons : Unambiguous (n :: notes) ↔ n.storedInDoubt = false ∧ Unambiguous notes :=
  List.forall_mem_cons

theorem certain_cons : Certain (n :: notes) ↔ n.inDoubt = false ∧ Certain notes := List.forall_mem_cons

end Notes

section Steps
variable {pkg : Packages} {cfg : Config} {base : List String} {w w' : ManagerWorld} {α β : Type}

theorem stepSound_of_notes (hfile : w'.files.lastValid = w.files.lastValid) (hnotes : w'.notes = w.notes) :
    StepSound pkg cfg w w' :=
  Or.inl ⟨hfile, hnotes⟩

theorem Durable.of_eq (h : Durable pkg cfg base w) (hfiles : w'.files = w.files) (hnotes : w'.notes = w.notes) :
    Durable pkg cfg base w' := by
  unfold Durable
  rw [hfiles, hnotes]
  exact h

variable {Q : α → ManagerWorld → Prop}

theorem safe_memory {f : ManagerWorld → ManagerReply → β × ManagerWorld} {k : β → ManagerProg α}
    (hsame : ∀ c, (f w c).2.files = w.files ∧ (f w c).2.notes = w.notes)
    (hk : ∀ c, (k (f w c).1).Safe (transitionRules pkg cfg base) Q (f w c).2) :
    (Prog.atomic f >>= k).Safe (transitionRules pkg cfg base) Q w := by
  refine Safe.atomic_bind fun t hst ht c _ => ?_
  subst hst
  obtain ⟨hfiles, hnotes⟩ := hsame c
  exact ⟨ht.of_eq hfiles hnotes, stepSound_of_notes (congrArg (·.lastValid) hfiles) hnotes, hk c⟩

theorem safe_gets {γ : Type} {f : Manager → γ} {k : γ → ManagerProg α}
    (hk : (k (f w.manager)).Safe (transitionRules pkg cfg base) Q w) :
    (ManagerProg.gets f >>= k).Safe (transitionRules pkg cfg base) Q w :=
  safe_memory (fun _ => ⟨rfl, rfl⟩) fun _ => hk

theorem safe_modify {f : Manager → Manager} {k : Unit → ManagerProg α}
    (hk : (k ()).Safe (transitionRules pkg cfg base) Q { w with manager := f w.manager }) :
    (ManagerProg.modify f >>= k).Safe (transitionRules pkg cfg base) Q w :=
  safe_memory (fun _ => ⟨rfl, rfl⟩) fun _ => hk

theorem safe_if {f : ManagerReply → Bool} {p q : ManagerProg α} (hp : p.Safe (transitionRules pkg cfg base) Q w)
    (hq : q.Safe (transitionRules pkg cfg base) Q w) :
    ((Prog.atomic fun w c => (f c, w)) >>= fun b => if b = true then p
      else q).Safe (transitionRules pkg cfg base) Q w := by
  refine safe_memory (fun _ => ⟨rfl, rfl⟩) fun c => ?_
  dsimp only
  cases f c with
  | true => exact hp
  | false => exact hq

theorem safe_now {k : Int → ManagerProg α} (hk : ∀ now, (k now).Safe (transitionRules pkg cfg base) Q w) :
    (ManagerProg.now >>= k).Safe (transitionRules pkg cfg base) Q w :=
  safe_memory (fun _ => ⟨rfl, rfl⟩) fun _ => hk _

theorem safe_pure {a : α} (h : Q a w) : (pure a : ManagerProg α).Safe (transitionRules pkg cfg base) Q w := by
  intro t hst _
  subst hst
  exact h

theorem safe_then {P : β → ManagerWorld → Prop} {p : ManagerProg β} {k : β → ManagerProg α}
    (hp : p.Safe (transitionRules pkg cfg base) P w)
    (hk : ∀ b w', P b w' → (k b).Safe (transitionRules pkg cfg base) Q w') :
    (p >>= k).Safe (transitionRules pkg cfg base) Q w :=
  Safe.bind (hp.mono hk)

theorem Settled.of_beside (hw : Settled pkg cfg base w) (h : Beside w w') : Settled pkg cfg base w' := by
  obtain ⟨files, notes, -, current, records, generation⟩ := h
  obtain ⟨keyed, accepted, covers, mirrors⟩ := hw
  unfold Covers at covers
  rw [← records] at keyed covers
  rw [← files, ← notes] at covers accepted
  rw [← current] at accepted
  rw [← notes] at mirrors
  refine ⟨keyed, accepted, covers, fun hc => ⟨?_, ?_⟩⟩
  · rw [generation, files]
    exact (mirrors hc).generation
  · rw [records, files]
    exact (mirrors hc).records

theorem Settled.of_memory (hw : Settled pkg cfg base w) {m : Manager} (hcurrent : m.current = w.manager.current)
    (hrecords : m.retirementRecords = w.manager.retirementRecords)
    (hgeneration : m.retirementGeneration = w.manager.retirementGeneration) :
    Settled pkg cfg base { w with manager := m } :=
  hw.of_beside ⟨rfl, rfl, rfl, hcurrent, hrecords, hgeneration⟩

theorem safe_idle {p : ManagerProg α} (h : Idle p) (hw : Settled pkg cfg base w) :
    p.Safe (transitionRules pkg cfg base) (fun _ w' => Settled pkg cfg base w') w := by
  refine h.safe (Settled pkg cfg base) (fun hd hs hstep => ?_) (fun heq hs => heq ▸ hs) hw
  exact ⟨hd.of_eq hstep.files hstep.notes, stepSound_of_notes (congrArg (·.lastValid) hstep.files) hstep.notes,
    hs.of_beside hstep⟩

end Steps

/-! ## Writing the retirements -/

section Writes
variable {pkg : Packages} {cfg : Config} {base : List String} {w w' : ManagerWorld}
  {records : RetirementRecords} {generation : Int} {completes : Option String}

theorem mem_document (h : Keyed records) {o : RangeOrder String} {key : String} {record : RetirementRecord} :
    record ∈ (newRetirementDocument o generation records).targets ∧ record.key = key ↔
      records.lookup key = some record := by
  rw [mem_newRetirementDocument]
  constructor
  · rintro ⟨⟨k, hk⟩, rfl⟩
    rwa [h k record hk]
  · exact fun hrecord => ⟨⟨key, hrecord⟩, h key record hrecord⟩

theorem mem_documentKeys (h : Keyed records) {o : RangeOrder String} {key : String} :
    key ∈ (newRetirementDocument o generation records).targets.map (·.key) ↔ (records.lookup key).isSome := by
  rw [List.mem_map, Option.isSome_iff_exists]
  exact exists_congr fun record => mem_document h

/-- What a manager may write over its records: nothing that is owed goes, and what completes a retirement is one
    that may be completed. -/
structure Writable (pkg : Packages) (cfg : Config) (base : List String) (w : ManagerWorld)
    (records : RetirementRecords) (completes : Option String) : Prop where
  keyed : Keyed records
  covers : Covers pkg cfg base w records
  retirable : Certain w.notes → ∀ key ∈ completes, Retirable pkg cfg w key

/-- The world after `persistRetirements` has answered. -/
structure Persisted (pkg : Packages) (cfg : Config) (base : List String) (w : ManagerWorld) (generation : Int)
    (records : RetirementRecords) (answer : Bool) (w' : ManagerWorld) : Prop where
  settled : Settled pkg cfg base w'
  lastValid : w'.files.lastValid = w.files.lastValid
  owed : ∀ key, Owed pkg cfg base key w'.notes ↔ Owed pkg cfg base key w.notes
  unambiguous : Unambiguous w'.notes ↔ Unambiguous w.notes
  manager : w'.manager =
    if answer then { w.manager with retirementRecords := records, retirementGeneration := generation } else w.manager
  file : answer = true → ∀ key, (records.lookup key).isSome → key ∈ w'.files.retirementRecords.map (·.key)

theorem unambiguous_recorded {reported : Bool} {notes : List ManagerNote} :
    Unambiguous (.recorded completes reported :: notes) ↔ Unambiguous notes :=
  unambiguous_cons.trans (and_iff_right rfl)

variable {o : RangeOrder String} {reported : Bool}

theorem Writable.durable (h : Writable pkg cfg base w records completes) :
    Durable pkg cfg base (w.written o generation records completes reported) := by
  intro hu key howed
  by_cases haccepted : key ∈ w.files.acceptedKeys pkg cfg
  · exact Or.inl haccepted
  · exact Or.inr ((mem_documentKeys h.keyed).mpr (h.covers (unambiguous_recorded.mp hu) key howed haccepted))

theorem Writable.stepSound (h : Writable pkg cfg base w records completes) :
    StepSound pkg cfg w (w.written o generation records completes reported) :=
  Or.inr ⟨_, rfl, rfl, h.retirable⟩

theorem Writable.settled (h : Writable pkg cfg base w records completes) (hw : Settled pkg cfg base w) :
    Settled pkg cfg base { w.written o generation records completes reported with
      manager := { w.manager with retirementRecords := records, retirementGeneration := generation } } where
  keyed := h.keyed
  accepted hu := hw.accepted (unambiguous_recorded.mp hu)
  covers hu := h.covers (unambiguous_recorded.mp hu)
  mirrors _ := ⟨rfl, fun _ _ => (mem_document h.keyed).symm⟩

theorem Settled.lagging (hw : Settled pkg cfg base w) :
    Settled pkg cfg base (w.written o generation records completes false) where
  keyed := hw.keyed
  accepted hu := hw.accepted (unambiguous_recorded.mp hu)
  covers hu := hw.covers (unambiguous_recorded.mp hu)
  mirrors hc := absurd (certain_cons.mp hc).1.symm Bool.false_ne_true

theorem persistRetirements_safe (hw : Settled pkg cfg base w) (h : Writable pkg cfg base w records completes) :
    (persistRetirements generation records completes).Safe (transitionRules pkg cfg base)
      (Persisted pkg cfg base w generation records) w := by
  refine Safe.atomic_bind fun t hst ht c _ => ?_
  subst hst
  cases c.outcome with
  | done =>
    refine ⟨h.durable, h.stepSound, safe_modify (safe_pure ?_)⟩
    exact ⟨h.settled hw, rfl, fun _ => Iff.rfl, unambiguous_recorded, rfl, fun _ key => (mem_documentKeys h.keyed).mpr⟩
  | failed =>
    exact ⟨ht, stepSound_of_notes rfl rfl, safe_pure
      ⟨hw, rfl, fun _ => Iff.rfl, Iff.rfl, rfl, fun h => absurd h Bool.false_ne_true⟩⟩
  | unsure =>
    refine ⟨h.durable, h.stepSound, safe_pure ?_⟩
    exact ⟨hw.lagging, rfl, fun _ => Iff.rfl, unambiguous_recorded, rfl, fun h => absurd h Bool.false_ne_true⟩

end Writes

/-! ## Desired documents -/

section Desired
variable {pkg : Packages} {cfg : Config} {base : List String} {w w' : ManagerWorld}

theorem raw_of_parse {data : String} {parsed : ParsedDesiredState}
    (h : parseDesiredState pkg data cfg.scope = .ok parsed) :
    parsed.raw = data := by
  unfold parseDesiredState at h
  split at h
  · cases h
  · obtain ⟨state, -, h⟩ := bind_eq_ok.mp h
    obtain ⟨_, -, h⟩ := bind_eq_ok.mp h
    obtain rfl := Except.ok.inj h
    rfl

theorem restore_some_iff {f : StateFiles} {parsed : ParsedDesiredState} :
    restoreLastValid pkg cfg f = .ok (some parsed) ↔
      f.lastValid = some parsed.raw ∧ parseDesiredState pkg parsed.raw cfg.scope = .ok parsed := by
  unfold restoreLastValid
  cases f.lastValid with
  | none => simp
  | some data =>
    constructor
    · intro h
      obtain ⟨p, hp, h⟩ := bind_eq_ok.mp h
      obtain rfl := Option.some.inj (Except.ok.inj h)
      rw [raw_of_parse hp]
      exact ⟨rfl, hp⟩
    · rintro ⟨hraw, hparse⟩
      rw [← Option.some.inj hraw] at hparse
      exact bind_eq_ok.mpr ⟨parsed, hparse, rfl⟩

theorem restore_none_iff {f : StateFiles} : restoreLastValid pkg cfg f = .ok none ↔ f.lastValid = none := by
  unfold restoreLastValid
  cases f.lastValid with
  | none => simp
  | some data =>
    refine ⟨fun h => ?_, fun h => absurd h (Option.some_ne_none _)⟩
    obtain ⟨p, -, h⟩ := bind_eq_ok.mp h
    exact absurd (Except.ok.inj h) (Option.some_ne_none _)

theorem stateKeys_eq {state : DesiredState} {targets : List TargetSpec}
    (h : buildTargetSpecs pkg cfg state = .ok targets) :
    stateKeys pkg cfg state = targetKeys targets := by
  rw [stateKeys, h]
  rfl

theorem documentKeys_eq {data : String} {parsed : ParsedDesiredState}
    (h : parseDesiredState pkg data cfg.scope = .ok parsed) :
    documentKeys pkg cfg data = stateKeys pkg cfg parsed.state := by
  rw [documentKeys, h]
  rfl

theorem acceptedKeys_of_restore {f : StateFiles} {parsed : ParsedDesiredState}
    (h : restoreLastValid pkg cfg f = .ok (some parsed)) :
    f.acceptedKeys pkg cfg = stateKeys pkg cfg parsed.state := by
  obtain ⟨hlast, hparse⟩ := restore_some_iff.mp h
  rw [StateFiles.acceptedKeys, hlast]
  exact documentKeys_eq hparse

theorem Keyed.eraseAll {records : RetirementRecords} (h : Keyed records) (keys : List String) :
    Keyed (keys.foldl (fun records key => records.erase key) records) := by
  induction keys generalizing records with
  | nil => exact h
  | cons key keys ih =>
    refine ih fun k record hrecord => ?_
    exact h k record (Map.lookup_of_erase hrecord).2

theorem lookup_eraseAll {records : RetirementRecords} {keys : List String} {key : String} (h : key ∉ keys) :
    (keys.foldl (fun records key => records.erase key) records).lookup key = records.lookup key := by
  induction keys generalizing records with
  | nil => rfl
  | cons k keys ih =>
    rw [List.mem_cons, not_or] at h
    rw [List.foldl_cons, ih h.2, Map.lookup_erase_ite, if_neg h.1]

theorem ensureRetirementStateCurrent_safe (hw : Settled pkg cfg base w) :
    (ensureRetirementStateCurrent pkg cfg).Safe (transitionRules pkg cfg base)
      (fun _ w' => Settled pkg cfg base w') w := by
  refine safe_gets ?_
  dsimp only [id]
  split
  · exact safe_pure hw
  next current hcurrent =>
    split
    · exact safe_pure hw
    next targets htargets =>
      split
      · exact safe_pure hw
      · refine (persistRetirements_safe hw ⟨hw.keyed.eraseAll _, fun hu key howed hkey => ?_, ?_⟩).mono
          fun _ _ h => h.settled
        · -- the targets that the file names are those whose records go
          have hrestore := hw.accepted hu
          rw [hcurrent] at hrestore
          rw [lookup_eraseAll]
          · exact hw.covers hu key howed hkey
          · rwa [acceptedKeys_of_restore hrestore, stateKeys_eq htargets] at hkey
        · exact fun _ key hkey => absurd hkey (Option.not_mem_none key)

theorem lookup_addRetirements {nextKeys : List String} {generation : Int} {records : RetirementRecords}
    {targets : List TargetSpec} {key : String}
    (h : (records.lookup key).isSome ∨ (key ∈ targetKeys targets ∧ key ∉ nextKeys)) :
    ((addRetirements nextKeys generation records targets).lookup key).isSome := by
  induction targets generalizing records with
  | nil =>
    rcases h with h | ⟨hmem, -⟩
    · exact h
    · exact absurd hmem List.not_mem_nil
  | cons t targets ih =>
    unfold addRetirements
    have hcons (hmem : key ∈ targetKeys (t :: targets)) : key = t.key ∨ key ∈ targetKeys targets :=
      List.mem_cons.mp hmem
    split_ifs with hwanted hrecorded
    · rcases h with h | ⟨hmem, hnext⟩
      · exact ih (Or.inl h)
      rcases hcons hmem with rfl | hmem
      · exact absurd hwanted hnext
      · exact ih (Or.inr ⟨hmem, hnext⟩)
    · rcases h with h | ⟨hmem, hnext⟩
      · exact ih (Or.inl h)
      rcases hcons hmem with rfl | hmem
      · exact ih (Or.inl hrecorded)
      · exact ih (Or.inr ⟨hmem, hnext⟩)
    · refine ih ?_
      rw [Map.lookup_insert_ite]
      split_ifs with hkey
      · exact Or.inl rfl
      · rcases h with h | ⟨hmem, hnext⟩
        · exact Or.inl h
        · exact Or.inr ⟨(hcons hmem).resolve_left hkey, hnext⟩

theorem Keyed.insert {records : RetirementRecords} (h : Keyed records) {key : String} {record : RetirementRecord}
    (hkey : record.key = key) : Keyed (records.insert key record) := by
  intro k r hr
  rw [Map.lookup_insert_ite] at hr
  split_ifs at hr with hk
  · obtain rfl := Option.some.inj hr
    exact hkey.trans hk.symm
  · exact h k r hr

theorem Keyed.addRetirements {nextKeys : List String} {generation : Int} {records : RetirementRecords}
    {targets : List TargetSpec} (h : Keyed records) : Keyed (addRetirements nextKeys generation records targets) := by
  induction targets generalizing records with
  | nil => exact h
  | cons t targets ih =>
    unfold Autoscaler.addRetirements
    split_ifs
    · exact ih h
    · exact ih h
    · exact ih (h.insert rfl)

theorem targetKeys_previous {current : ParsedDesiredState} {targets : List TargetSpec} {m : Manager}
    (hcurrent : m.current = some current) (h : previousTargets pkg cfg m.previous = .ok targets) :
    targetKeys targets = stateKeys pkg cfg current.state := by
  have hprevious : m.previous = current.state := by rw [Manager.previous, hcurrent]; rfl
  rw [hprevious] at h
  unfold previousTargets at h
  split_ifs at h with hscope
  · -- a state without a scope has no targets that could be built
    obtain rfl := Except.ok.inj h
    rw [stateKeys, buildTargetSpecs, unorderedTargets, hscope]
    rfl
  · exact (stateKeys_eq h).symm

theorem recordsWithNewRetirements_covers {next : DesiredState} {records : RetirementRecords}
    (hw : Settled pkg cfg base w)
    (h : recordsWithNewRetirements pkg cfg w.manager.retirementRecords w.manager.previous next = .ok records)
    (hu : Unambiguous w.notes) {key : String} (howed : Owed pkg cfg base key w.notes) :
    key ∈ stateKeys pkg cfg next ∨ (records.lookup key).isSome := by
  obtain ⟨targets, htargets, h⟩ := bind_eq_ok.mp h
  obtain ⟨nextTargets, hnext, h⟩ := bind_eq_ok.mp h
  obtain rfl := Except.ok.inj h
  rw [stateKeys_eq hnext]
  by_cases hkey : key ∈ targetKeys nextTargets
  · exact Or.inl hkey
  refine Or.inr (lookup_addRetirements ?_)
  by_cases haccepted : key ∈ w.files.acceptedKeys pkg cfg
  · have hrestore := hw.accepted hu
    cases hcurrent : w.manager.current with
    | none =>
      rw [hcurrent] at hrestore
      rw [StateFiles.acceptedKeys, restore_none_iff.mp hrestore] at haccepted
      exact absurd haccepted List.not_mem_nil
    | some current =>
      rw [hcurrent] at hrestore
      rw [acceptedKeys_of_restore hrestore, ← targetKeys_previous hcurrent htargets] at haccepted
      exact Or.inr ⟨haccepted, hkey⟩
  · exact Or.inl (hw.covers hu key howed haccepted)

theorem recordsWithNewRetirements_keeps {next : DesiredState} {records : RetirementRecords} {m : Manager}
    (h : recordsWithNewRetirements pkg cfg m.retirementRecords m.previous next = .ok records) {key : String}
    (hkey : (m.retirementRecords.lookup key).isSome) : (records.lookup key).isSome := by
  obtain ⟨targets, -, h⟩ := bind_eq_ok.mp h
  obtain ⟨nextTargets, -, h⟩ := bind_eq_ok.mp h
  obtain rfl := Except.ok.inj h
  exact lookup_addRetirements (Or.inl hkey)

theorem recordsWithNewRetirements_keyed {next : DesiredState} {records : RetirementRecords} {m : Manager}
    (hm : Keyed m.retirementRecords) (h : recordsWithNewRetirements pkg cfg m.retirementRecords m.previous next =
      .ok records) :
    Keyed records := by
  obtain ⟨targets, -, h⟩ := bind_eq_ok.mp h
  obtain ⟨nextTargets, -, h⟩ := bind_eq_ok.mp h
  obtain rfl := Except.ok.inj h
  exact hm.addRetirements

/-- A document that a manager may store: it is newer than the one in the file, and the retirement file has what it
    drops. -/
structure Storable (pkg : Packages) (cfg : Config) (base : List String) (w : ManagerWorld)
    (parsed : ParsedDesiredState) :
    Prop where
  parse : parseDesiredState pkg parsed.raw cfg.scope = .ok parsed
  newer : Unambiguous w.notes → ∀ previous, restoreLastValid pkg cfg w.files = .ok (some previous) →
    previous.state.generation < parsed.state.generation
  covered : Unambiguous w.notes → ∀ key, Owed pkg cfg base key w.notes →
    key ∈ stateKeys pkg cfg parsed.state ∨ (w.manager.retirementRecords.lookup key).isSome
  file : ∀ key, (w.manager.retirementRecords.lookup key).isSome → key ∈ w.files.retirementRecords.map (·.key)

section Stored
variable {parsed : ParsedDesiredState} {reported : Bool}

theorem Storable.kept (h : Storable pkg cfg base w parsed) (hu : Unambiguous (w.stored parsed.raw reported).notes)
    {key : String} (howed : Owed pkg cfg base key (w.stored parsed.raw reported).notes) :
    key ∈ (w.stored parsed.raw reported).files.acceptedKeys pkg cfg ∨
      (w.manager.retirementRecords.lookup key).isSome := by
  have hkeys : (w.stored parsed.raw reported).files.acceptedKeys pkg cfg = stateKeys pkg cfg parsed.state :=
    documentKeys_eq h.parse
  rw [hkeys]
  rcases howed with hnamed | howed
  · exact Or.inl (documentKeys_eq h.parse ▸ hnamed)
  · exact h.covered (unambiguous_cons.mp hu).2 key howed

theorem Storable.durable (h : Storable pkg cfg base w parsed) : Durable pkg cfg base (w.stored parsed.raw reported) :=
  fun hu key howed => (h.kept hu howed).imp_right (h.file key)

theorem Storable.stepSound (h : Storable pkg cfg base w parsed) : StepSound pkg cfg w (w.stored parsed.raw reported) :=
  Or.inr ⟨_, rfl, rfl, fun hc => ⟨parsed, h.parse, h.newer hc.unambiguous⟩⟩

theorem Storable.settled (h : Storable pkg cfg base w parsed) (hw : Settled pkg cfg base w) {m : Manager}
    (hcurrent : m.current = some parsed) (hrecords : m.retirementRecords = w.manager.retirementRecords)
    (hgeneration : m.retirementGeneration = w.manager.retirementGeneration) :
    Settled pkg cfg base { w.stored parsed.raw true with manager := m } where
  keyed := by
    rw [hrecords]
    exact hw.keyed
  accepted _ := by
    rw [hcurrent]
    exact restore_some_iff.mpr ⟨rfl, h.parse⟩
  covers hu key howed haccepted := by
    rw [hrecords]
    exact (h.kept hu howed).resolve_left haccepted
  mirrors hc := by
    obtain ⟨generation, records⟩ := hw.mirrors (certain_cons.mp hc).2
    refine ⟨hgeneration.trans generation, ?_⟩
    rw [hrecords]
    exact records

theorem Settled.doubtful (hw : Settled pkg cfg base w) (raw : String) : Settled pkg cfg base (w.stored raw false) where
  keyed := hw.keyed
  accepted hu := absurd (unambiguous_cons.mp hu).1.symm Bool.false_ne_true
  covers hu := absurd (unambiguous_cons.mp hu).1.symm Bool.false_ne_true
  mirrors hc := absurd (certain_cons.mp hc).1.symm Bool.false_ne_true

end Stored

theorem newer_of_classify {data : String} {parsed : ParsedDesiredState} {m : Manager}
    (h : m.classify pkg cfg data = .new parsed)
    {current : ParsedDesiredState} (hcurrent : m.current = some current) :
    current.state.generation < parsed.state.generation := by
  unfold Manager.classify classifyDesiredState at h
  rw [hcurrent] at h
  split at h
  · cases h
  · split_ifs at h with hstale _ hsame
    obtain rfl := DesiredClassification.new.inj h
    exact lt_of_le_of_ne (not_lt.mp hstale) (Ne.symm hsame)

theorem storable_of_persisted {w₁ : ManagerWorld} {data : String} {parsed : ParsedDesiredState}
    {records : RetirementRecords}
    {generation : Int} (hw : Settled pkg cfg base w) (hnew : w.manager.classify pkg cfg data = .new parsed)
    (hrecords : recordsWithNewRetirements pkg cfg w.manager.retirementRecords w.manager.previous
      parsed.state = .ok records)
    (h : Persisted pkg cfg base w₁ generation records true w') (hfiles : w₁.files = w.files)
    (hnotes : w₁.notes = w.notes) :
    Storable pkg cfg base w' parsed where
  parse := by
    have hparse := parse_of_classify hnew
    rwa [← raw_of_parse hparse] at hparse
  newer hu previous hprevious := by
    rw [h.unambiguous, hnotes] at hu
    have hrestore : restoreLastValid pkg cfg w'.files = restoreLastValid pkg cfg w.files := by
      rw [restoreLastValid, restoreLastValid, h.lastValid, hfiles]
    rw [hrestore, hw.accepted hu] at hprevious
    exact newer_of_classify hnew (Except.ok.inj hprevious)
  covered hu key howed := by
    rw [h.unambiguous, hnotes] at hu
    rw [h.owed, hnotes] at howed
    rw [h.manager]
    exact recordsWithNewRetirements_covers hw hrecords hu howed
  file key hkey := by
    rw [h.manager] at hkey
    exact h.file rfl key hkey

theorem acceptDesiredTransition_settles (hw : Settled pkg cfg base w) {data hash : String} {parsed : ParsedDesiredState}
    (h : w.manager.classify pkg cfg data = .new parsed) :
    (acceptDesiredTransition pkg cfg parsed hash).Safe (transitionRules pkg cfg base)
      (fun _ w' => Settled pkg cfg base w') w := by
  refine safe_gets (safe_modify ?_)
  dsimp only [id]
  generalize hm : ({ w.manager with applied := w.manager.applied <|> w.manager.current } : Manager) = m
  have hw₁ : Settled pkg cfg base { w with manager := m } := hw.of_memory (hm ▸ rfl) (hm ▸ rfl) (hm ▸ rfl)
  split
  · exact safe_pure hw₁
  next records hrecords =>
    have hwritable : Writable pkg cfg base { w with manager := m } records none := by
      refine ⟨recordsWithNewRetirements_keyed hw.keyed hrecords, fun hu key howed haccepted => ?_, ?_⟩
      · exact recordsWithNewRetirements_keeps hrecords (hw.covers hu key howed haccepted)
      · exact fun _ key hkey => absurd hkey (Option.not_mem_none key)
    refine safe_then (persistRetirements_safe hw₁ hwritable) fun written w₂ hpersisted => ?_
    cases written with
    | false => exact safe_pure hpersisted.settled
    | true =>
      have hstorable := storable_of_persisted hw h hrecords hpersisted rfl rfl
      refine Safe.atomic_bind fun t hst ht c _ => ?_
      subst hst
      cases c.outcome with
      | failed => exact ⟨ht, stepSound_of_notes rfl rfl, safe_pure hpersisted.settled⟩
      | unsure => exact ⟨hstorable.durable, hstorable.stepSound, safe_pure (hpersisted.settled.doubtful parsed.raw)⟩
      | done =>
        refine ⟨hstorable.durable, hstorable.stepSound, safe_modify ?_⟩
        exact ensureRetirementStateCurrent_safe (hstorable.settled hpersisted.settled rfl rfl rfl)

theorem processDesired_settles (hw : Settled pkg cfg base w) (desired : DesiredFile) :
    (processDesired pkg cfg desired).Safe (transitionRules pkg cfg base) (fun _ w' => Settled pkg cfg base w') w := by
  refine safe_gets ?_
  dsimp only [id]
  have hhash (b : Bool) (hash : String) : Idle
      (do ManagerProg.modify fun m => { m with lastDocumentHash := hash }
          return b) :=
    Along.bind (modify_idle (fun _ => rfl) (fun _ => rfl) fun _ => rfl) fun _ => Along.pure
  cases desired with
  | unreadable => exact safe_pure hw
  | missing => exact safe_idle (hhash true "") hw
  | data data =>
    dsimp only
    split
    · exact safe_pure hw
    · split
      · exact safe_idle (hhash false _) hw
      · exact safe_idle (hhash false _) hw
      · exact safe_idle (hhash false _) hw
      · exact safe_idle (hhash true _) hw
      next parsed hnew => exact acceptDesiredTransition_settles hw hnew

end Desired

end PitCrew.Autoscaler
