import PitCrew.Theorems.Autoscaler.Durability

/-! # Retirements, acknowledgements and runs of a manager

The rest of a cycle keeps the rules of the state files: retirements end only for targets that are due, and
acknowledgements are written only of what is applied. So every run keeps them, from whatever files it starts and
wherever its process is replaced by another one. -/

namespace PitCrew.Autoscaler
open Base Prog

/-! ## Retirements -/

section Retirements
variable {pkg : Packages} {cfg : Config} {rfc : Rfc3339} {base : List String} {w w' w'' : ManagerWorld} {key : String}

/-- The accepted state does not name the target, and a record that it has is due. -/
structure Selected (pkg : Packages) (cfg : Config) (key : String) (m : Manager) : Prop where
  out : ∃ current targets, m.current = some current ∧ buildTargetSpecs pkg cfg current.state = .ok targets ∧
    key ∉ targetKeys targets ∧
    ∀ record, m.retirementRecords.lookup key = some record → record.retireAtGeneration ≤ current.state.generation

/-- The records have kept their generations and have not become more. -/
structure Later (m m' : Manager) : Prop where
  current : m'.current = m.current
  records : ∀ key record, m'.retirementRecords.lookup key = some record →
    ∃ earlier, m.retirementRecords.lookup key = some earlier ∧ record.retireAtGeneration = earlier.retireAtGeneration

theorem Later.refl (m : Manager) : Later m m := ⟨rfl, fun _ record h => ⟨record, h, rfl⟩⟩

theorem Later.of_eq {m m' : Manager} (hcurrent : m'.current = m.current)
    (hrecords : m'.retirementRecords = m.retirementRecords) : Later m m' :=
  ⟨hcurrent, fun _ record h => ⟨record, hrecords ▸ h, rfl⟩⟩

theorem Later.trans {a b c : Manager} (h : Later a b) (h' : Later b c) : Later a c := by
  refine ⟨h'.current.trans h.current, fun key record hrecord => ?_⟩
  obtain ⟨middle, hmiddle, heq⟩ := h'.records key record hrecord
  obtain ⟨earlier, hearlier, heq'⟩ := h.records key middle hmiddle
  exact ⟨earlier, hearlier, heq.trans heq'⟩

theorem Selected.later {m m' : Manager} (h : Selected pkg cfg key m) (hlater : Later m m') :
    Selected pkg cfg key m' := by
  obtain ⟨current, targets, hcurrent, htargets, hkey, hdue⟩ := h
  refine ⟨current, targets, hlater.current.trans hcurrent, htargets, hkey, fun record hrecord => ?_⟩
  obtain ⟨earlier, hearlier, heq⟩ := hlater.records key record hrecord
  exact heq ▸ hdue earlier hearlier

structure Onward (pkg : Packages) (cfg : Config) (base : List String) (w w' : ManagerWorld) : Prop where
  settled : Settled pkg cfg base w'
  later : Later w.manager w'.manager

theorem Onward.trans (h : Onward pkg cfg base w w') (h' : Onward pkg cfg base w' w'') : Onward pkg cfg base w w'' :=
  ⟨h'.settled, h.later.trans h'.later⟩

theorem Onward.memory (h : Onward pkg cfg base w w') {m : Manager} (hcurrent : m.current = w'.manager.current)
    (hrecords : m.retirementRecords = w'.manager.retirementRecords)
    (hgeneration : m.retirementGeneration = w'.manager.retirementGeneration) :
    Onward pkg cfg base w { w' with manager := m } :=
  ⟨h.settled.of_memory hcurrent hrecords hgeneration, h.later.trans (Later.of_eq hcurrent hrecords)⟩

theorem Settled.retirable (hw : Settled pkg cfg base w) (hselected : Selected pkg cfg key w.manager)
    (hrecord : (w.manager.retirementRecords.lookup key).isSome) (hc : Certain w.notes) : Retirable pkg cfg w key := by
  obtain ⟨current, targets, hcurrent, htargets, hkey, hdue⟩ := hselected
  obtain ⟨record, hrecord⟩ := Option.isSome_iff_exists.mp hrecord
  obtain ⟨hmem, hkey'⟩ := ((hw.mirrors hc).records key record).mp hrecord
  have hrestore := hw.accepted hc.unambiguous
  rw [hcurrent] at hrestore
  exact ⟨current, targets, record, hrestore, hcurrent, htargets, hkey, hmem, hkey', hdue record hrecord⟩

/-! ### Scale sets -/

/-- The note says that the target has no scale set. -/
inductive Gone (key : String) : ManagerNote → Prop where
  | absent : Gone key (.absent key)
  | deleted : Gone key (.deleted key)

section Gone
variable {n : ManagerNote} {notes : List ManagerNote}

theorem Gone.owed (h : Gone key n) {k : String} :
    Owed pkg cfg base k (n :: notes) ↔ key ≠ k ∧ Owed pkg cfg base k notes := by
  cases h <;> exact Iff.rfl

theorem Gone.certain (h : Gone key n) : Certain (n :: notes) ↔ Certain notes := by
  refine certain_cons.trans (and_iff_right ?_)
  cases h <;> rfl

theorem Gone.unambiguous (h : Gone key n) : Unambiguous (n :: notes) ↔ Unambiguous notes := by
  refine unambiguous_cons.trans (and_iff_right ?_)
  cases h <;> rfl

theorem Gone.durable (h : Gone key n) (hw : Durable pkg cfg base w) : Durable pkg cfg base (w.noted n) :=
  fun hu k howed => hw (h.unambiguous.mp hu) k (h.owed.mp howed).2

theorem Gone.settled (h : Gone key n) (hw : Settled pkg cfg base w) : Settled pkg cfg base (w.noted n) where
  keyed := hw.keyed
  accepted hu := hw.accepted (h.unambiguous.mp hu)
  covers hu k howed := hw.covers (h.unambiguous.mp hu) k (h.owed.mp howed).2
  mirrors hc := ⟨(hw.mirrors (h.certain.mp hc)).generation, (hw.mirrors (h.certain.mp hc)).records⟩

theorem Gone.stepSound (h : Gone key n) (hretirable : Certain w.notes → Retirable pkg cfg w key) :
    StepSound pkg cfg w (w.noted n) := by
  cases h with
  | absent => exact Or.inr ⟨_, rfl, rfl, hretirable⟩
  | deleted => exact Or.inr ⟨_, rfl, rfl, hretirable⟩

end Gone

/-- After a question about the scale set of a target, or its deletion: memory is as it was, and if `gone`, the target
    is not owed any more. -/
structure Looked (pkg : Packages) (cfg : Config) (base : List String) (key : String) (w : ManagerWorld) (gone : Prop)
    (w' : ManagerWorld) : Prop where
  settled : Settled pkg cfg base w'
  manager : w'.manager = w.manager
  unowed : gone → ¬ Owed pkg cfg base key w'.notes

theorem looked_noted (hw : Settled pkg cfg base w) {n : ManagerNote} (h : Gone key n) (gone : Prop) :
    Looked pkg cfg base key w gone (w.noted n) :=
  ⟨h.settled hw, rfl, fun _ howed => (h.owed.mp howed).1 rfl⟩

theorem scaleSetExists_safe (hw : Settled pkg cfg base w) (hretirable : Certain w.notes → Retirable pkg cfg w key) :
    (scaleSetExists key).Safe (transitionRules pkg cfg base)
      (fun there => Looked pkg cfg base key w (there = false)) w := by
  refine Safe.atomic fun t hst ht c _ => ?_
  subst hst
  cases c.answer with
  | true =>
    refine ⟨ht, stepSound_of_notes rfl rfl, fun u hu _ => ?_⟩
    subst hu
    exact ⟨hw, rfl, fun h => absurd h.symm Bool.false_ne_true⟩
  | false =>
    refine ⟨Gone.absent.durable ht, Gone.absent.stepSound hretirable, fun u hu _ => ?_⟩
    subst hu
    exact looked_noted hw .absent _

theorem deleteScaleSet_safe (hw : Settled pkg cfg base w) (hretirable : Certain w.notes → Retirable pkg cfg w key) :
    (deleteScaleSet key).Safe (transitionRules pkg cfg base)
      (fun deleted => Looked pkg cfg base key w (deleted = true)) w := by
  refine Safe.atomic fun t hst ht c _ => ?_
  subst hst
  cases c.outcome with
  | failed =>
    refine ⟨ht, stepSound_of_notes rfl rfl, fun u hu _ => ?_⟩
    subst hu
    exact ⟨hw, rfl, fun h => absurd h Bool.false_ne_true⟩
  | done | unsure =>
    refine ⟨Gone.deleted.durable ht, Gone.deleted.stepSound hretirable, fun u hu _ => ?_⟩
    subst hu
    exact looked_noted hw .deleted _

/-! ### Ending a retirement -/

theorem Persisted.onward {generation : Int} {records : RetirementRecords} {answer : Bool}
    (h : Persisted pkg cfg base w generation records answer w')
    (hrecords : Later w.manager { w.manager with retirementRecords := records }) : Onward pkg cfg base w w' := by
  refine ⟨h.settled, ?_⟩
  rw [h.manager]
  cases answer with
  | false => exact Later.refl _
  | true => exact ⟨rfl, hrecords.records⟩

theorem completeRetirement_safe (hw : Settled pkg cfg base w) (hselected : Selected pkg cfg key w.manager)
    (hrecord : (w.manager.retirementRecords.lookup key).isSome) (hgone : ¬ Owed pkg cfg base key w.notes) :
    (completeRetirement key).Safe (transitionRules pkg cfg base) (fun _ w' => Onward pkg cfg base w w') w := by
  refine safe_gets ((persistRetirements_safe hw ⟨?_, ?_, ?_⟩).mono fun _ _ h => h.onward ⟨rfl, ?_⟩)
  · exact fun k record h => hw.keyed k record (Map.lookup_of_erase h).2
  · intro hu k howed haccepted
    have hne : k ≠ key := fun h => hgone (h ▸ howed)
    rw [Map.lookup_erase_ite, if_neg hne]
    exact hw.covers hu k howed haccepted
  · intro hc k hk
    obtain rfl := Option.some.inj hk
    exact hw.retirable hselected hrecord hc
  · exact fun k record h => ⟨record, (Map.lookup_of_erase h).2, rfl⟩

theorem endRetirement_safe (hw : Settled pkg cfg base w) (hselected : Selected pkg cfg key w.manager)
    (hrecord : (w.manager.retirementRecords.lookup key).isSome) (hgone : ¬ Owed pkg cfg base key w.notes) :
    (endRetirement key).Safe (transitionRules pkg cfg base) (fun _ w' => Onward pkg cfg base w w') w := by
  refine safe_then (completeRetirement_safe hw hselected hrecord hgone) fun completed w' honward => ?_
  cases completed with
  | false => exact safe_pure honward
  | true => exact safe_modify (safe_pure (honward.memory rfl rfl rfl))

theorem finishRetirement_safe (hw : Settled pkg cfg base w) (hselected : Selected pkg cfg key w.manager)
    (hrecord : (w.manager.retirementRecords.lookup key).isSome) (allow : Bool) :
    (finishRetirement allow key).Safe (transitionRules pkg cfg base) (fun _ w' => Onward pkg cfg base w w') w := by
  have hsame : Onward pkg cfg base w w := ⟨hw, Later.refl _⟩
  have hretirable := hw.retirable hselected hrecord
  refine safe_if (safe_if ?_ (safe_pure hsame)) (safe_pure hsame)
  cases allow with
  | false => exact safe_pure hsame
  | true =>
    refine safe_if (safe_then (scaleSetExists_safe hw hretirable) fun there w₁ hlooked => ?_) (safe_pure hsame)
    obtain ⟨hw₁, hm₁, hgone₁⟩ := hlooked
    have hselected₁ : Selected pkg cfg key w₁.manager := hm₁ ▸ hselected
    have hrecord₁ : (w₁.manager.retirementRecords.lookup key).isSome := hm₁ ▸ hrecord
    have honward₁ : Onward pkg cfg base w w₁ := ⟨hw₁, hm₁ ▸ Later.refl _⟩
    cases there with
    | false => exact (endRetirement_safe hw₁ hselected₁ hrecord₁ (hgone₁ rfl)).mono fun _ _ => honward₁.trans
    | true =>
      refine safe_then (deleteScaleSet_safe hw₁ (hw₁.retirable hselected₁ hrecord₁)) fun deleted w₂ hdeleted => ?_
      obtain ⟨hw₂, hm₂, hgone₂⟩ := hdeleted
      have honward₂ : Onward pkg cfg base w w₂ := honward₁.trans ⟨hw₂, hm₂ ▸ Later.refl _⟩
      cases deleted with
      | false => exact safe_pure honward₂
      | true =>
        refine (endRetirement_safe hw₂ (hm₂ ▸ hselected₁) (hm₂ ▸ hrecord₁) (hgone₂ rfl)).mono fun _ _ => ?_
        exact honward₂.trans

/-! ### Starting a retirement -/

theorem rewrite_safe (hw : Settled pkg cfg base w) {record next : RetirementRecord}
    (hrecord : w.manager.retirementRecords.lookup key = some record) (hkey : next.key = key)
    (hgeneration : next.retireAtGeneration = record.retireAtGeneration) (generation : Int) :
    (persistRetirements generation (w.manager.retirementRecords.insert key next)).Safe (transitionRules pkg cfg base)
      (fun _ w' => Onward pkg cfg base w w' ∧ (∀ k, Owed pkg cfg base k w'.notes ↔ Owed pkg cfg base k w.notes) ∧
        (w'.manager.retirementRecords.lookup key).isSome) w := by
  have hkept {k : String} (h : (w.manager.retirementRecords.lookup k).isSome) :
      ((w.manager.retirementRecords.insert key next).lookup k).isSome := by
    rw [Map.lookup_insert_ite]
    split_ifs
    · rfl
    · exact h
  refine (persistRetirements_safe hw ⟨hw.keyed.insert hkey, ?_, ?_⟩).mono
    fun written w' h => ⟨h.onward ⟨rfl, ?_⟩, h.owed, ?_⟩
  · exact fun hu k howed haccepted => hkept (hw.covers hu k howed haccepted)
  · exact fun _ k hk => absurd hk (Option.not_mem_none k)
  · intro k r hr
    rcases Map.lookup_of_insert hr with ⟨rfl, rfl⟩ | ⟨-, hr⟩
    · exact ⟨record, hrecord, hgeneration⟩
    · exact ⟨r, hr, rfl⟩
  · have hsome : (w.manager.retirementRecords.lookup key).isSome := by rw [hrecord]; rfl
    rw [h.manager]
    cases written with
    | true => exact hkept hsome
    | false => exact hsome

theorem nextStartup_same {now : Int} {record next : RetirementRecord} (h : nextStartup rfc now record = some next) :
    next.key = record.key ∧ next.retireAtGeneration = record.retireAtGeneration := by
  unfold nextStartup at h
  dsimp only at h
  split at h
  · obtain rfl := Option.some.inj h
    exact ⟨rfl, rfl⟩
  · split at h
    · cases h
    · split at h
      · cases h
      · obtain rfl := Option.some.inj h
        exact ⟨rfl, rfl⟩

theorem prepareRetirementStartup_safe (hw : Settled pkg cfg base w) {record : RetirementRecord}
    (hrecord : w.manager.retirementRecords.lookup key = some record) :
    (prepareRetirementStartup rfc record).Safe (transitionRules pkg cfg base)
      (fun _ w' => Onward pkg cfg base w w' ∧ (w'.manager.retirementRecords.lookup key).isSome) w := by
  refine safe_now fun now => ?_
  split
  · exact safe_pure ⟨⟨hw, Later.refl _⟩, by rw [hrecord]; rfl⟩
  next next hnext =>
    obtain ⟨hkey, hgeneration⟩ := nextStartup_same hnext
    rw [hw.keyed key record hrecord] at hkey
    refine safe_gets ?_
    dsimp only [id]
    rw [hkey]
    exact (rewrite_safe hw hrecord hkey hgeneration _).mono fun _ _ h => ⟨h.1, h.2.2⟩

theorem startRetiringController_safe (hw : Settled pkg cfg base w) (record : RetirementRecord)
    (hretirable : Certain w.notes → Retirable pkg cfg w record.key) :
    (startRetiringController record).Safe (transitionRules pkg cfg base)
      (fun controller => Looked pkg cfg base record.key w (controller = some none)) w := by
  refine safe_if (safe_then (scaleSetExists_safe hw hretirable) fun there w₁ hlooked => ?_) (safe_pure ⟨hw, rfl, nofun⟩)
  obtain ⟨hw₁, hm₁, hgone₁⟩ := hlooked
  cases there with
  | true => exact safe_if (safe_pure ⟨hw₁, hm₁, nofun⟩) (safe_pure ⟨hw₁, hm₁, nofun⟩)
  | false =>
    refine safe_gets ?_
    dsimp only [id]
    split
    · exact safe_pure ⟨hw₁, hm₁, nofun⟩
    · exact safe_pure ⟨hw₁, hm₁, fun _ => hgone₁ rfl⟩

theorem reset_safe {w₀ : ManagerWorld} {record : RetirementRecord} {rest : ManagerProg Bool}
    (h : Onward pkg cfg base w₀ w)
    (hrecord : w₀.manager.retirementRecords.lookup key = some record)
    (hpresent : (w.manager.retirementRecords.lookup key).isSome) (hkey : record.key = key)
    (hrest : ∀ w', Onward pkg cfg base w₀ w' → (∀ k, Owed pkg cfg base k w'.notes ↔ Owed pkg cfg base k w.notes) →
      (w'.manager.retirementRecords.lookup key).isSome →
      rest.Safe (transitionRules pkg cfg base) (fun _ w'' => Onward pkg cfg base w₀ w'') w') :
    Safe (transitionRules pkg cfg base) (fun _ w'' => Onward pkg cfg base w₀ w'') (do
      let m ← ManagerProg.gets id
      if ← persistRetirements m.generation
          (m.retirementRecords.insert key { record with startupAttempts := 0, startupRetryAt := "" }) then rest
      else return false) w := by
  refine safe_gets ?_
  dsimp only [id]
  obtain ⟨present, hpresent⟩ := Option.isSome_iff_exists.mp hpresent
  have hgeneration :
      ({ record with startupAttempts := 0, startupRetryAt := "" } : RetirementRecord).retireAtGeneration =
      present.retireAtGeneration := by
    obtain ⟨earlier, hearlier, heq⟩ := h.later.records key present hpresent
    obtain rfl := Option.some.inj (hrecord.symm.trans hearlier)
    exact heq.symm
  have hkey' : ({ record with startupAttempts := 0, startupRetryAt := "" } : RetirementRecord).key = key := hkey
  refine safe_then (rewrite_safe h.settled hpresent hkey' hgeneration _) fun written w' hwritten => ?_
  obtain ⟨honward, howed, hpresent'⟩ := hwritten
  cases written with
  | true => exact hrest w' (h.trans honward) howed hpresent'
  | false => exact safe_pure (h.trans honward)

theorem reconcileRetirement_safe (hw : Settled pkg cfg base w) (hselected : Selected pkg cfg key w.manager)
    (allow : Bool) :
    (reconcileRetirement rfc allow key).Safe (transitionRules pkg cfg base)
      (fun _ w' => Onward pkg cfg base w w') w := by
  refine safe_gets ?_
  dsimp only [id]
  split
  · exact safe_pure ⟨hw, Later.refl _⟩
  next record hrecord =>
    have hkey := hw.keyed key record hrecord
    split
    · exact finishRetirement_safe hw hselected (by rw [hrecord]; rfl) allow
    refine safe_then (prepareRetirementStartup_safe hw hrecord) fun prepared w₁ hprepared => ?_
    obtain ⟨honward₁, hpresent₁⟩ := hprepared
    have hselected₁ := hselected.later honward₁.later
    cases prepared with
    | false => exact safe_pure honward₁
    | true =>
      have hretirable : Certain w₁.notes → Retirable pkg cfg w₁ record.key := by
        rw [hkey]
        exact honward₁.settled.retirable hselected₁ hpresent₁
      refine safe_then (startRetiringController_safe honward₁.settled record hretirable) fun started w₂ hlooked => ?_
      obtain ⟨hw₂, hm₂, hgone₂⟩ := hlooked
      have honward₂ : Onward pkg cfg base w w₂ := honward₁.trans ⟨hw₂, hm₂ ▸ Later.refl _⟩
      have hpresent₂ : (w₂.manager.retirementRecords.lookup key).isSome := hm₂ ▸ hpresent₁
      cases started with
      | none => exact safe_pure honward₂
      | some controller =>
        cases controller with
        | none =>
          refine reset_safe honward₂ hrecord hpresent₂ hkey fun w₃ honward₃ howed₃ hpresent₃ => ?_
          cases allow with
          | false => exact safe_pure honward₃
          | true =>
            refine (completeRetirement_safe honward₃.settled (hselected.later honward₃.later) hpresent₃ ?_).mono
              fun _ _ => honward₃.trans
            rw [howed₃]
            exact hkey ▸ hgone₂ rfl
        | some target =>
          refine safe_modify ?_
          refine reset_safe (honward₂.memory rfl rfl rfl) hrecord hpresent₂ hkey fun w₃ honward₃ _ hpresent₃ => ?_
          exact (finishRetirement_safe honward₃.settled (hselected.later honward₃.later) hpresent₃ allow).mono
            fun _ _ => honward₃.trans

theorem reconcileRetirementKeys_safe (allow : Bool) {keys : List String} (hw : Settled pkg cfg base w)
    (hselected : ∀ key ∈ keys, Selected pkg cfg key w.manager) :
    (reconcileRetirementKeys rfc allow keys).Safe (transitionRules pkg cfg base)
      (fun _ w' => Settled pkg cfg base w') w := by
  induction keys generalizing w with
  | nil => exact safe_pure hw
  | cons key keys ih =>
    refine safe_then (reconcileRetirement_safe hw (hselected key List.mem_cons_self) allow) fun _ w₁ honward => ?_
    refine safe_then (ih honward.settled fun k hk => ?_) fun _ _ hw₂ => safe_pure hw₂
    exact (hselected k (List.mem_cons_of_mem _ hk)).later honward.later

theorem reconcileRetirements_safe (allow : Bool) (hw : Settled pkg cfg base w) :
    (reconcileRetirementsWithFinalization pkg cfg rfc allow).Safe (transitionRules pkg cfg base)
      (fun _ w' => Settled pkg cfg base w') w := by
  refine safe_gets ?_
  dsimp only [id]
  split
  · exact safe_pure hw
  next current hcurrent =>
    split
    · exact safe_pure hw
    next targets htargets =>
      refine reconcileRetirementKeys_safe allow hw fun key hkey => ⟨current, targets, hcurrent, htargets, ?_⟩
      obtain ⟨-, hkey⟩ := List.mem_filter.mp hkey
      rw [Bool.and_eq_true, decide_eq_true_eq] at hkey
      refine ⟨hkey.2, fun record hrecord => ?_⟩
      rw [hrecord] at hkey
      exact of_decide_eq_true hkey.1

end Retirements

/-! ## Acknowledgements -/

section Acknowledging
variable {pkg : Packages} {cfg : Config} {rfc : Rfc3339} {base : List String} {w : ManagerWorld}

theorem controller_of_runs {m : Manager} {target : TargetSpec} (h : m.runs target = true) :
    ∃ c, m.controllers.lookup target.key = some c ∧ c.key = target.key ∧ c.maximum = target.maximum := by
  unfold Manager.runs at h
  rw [Bool.and_eq_true, Bool.and_eq_true, Option.any_eq_true] at h
  obtain ⟨⟨⟨c, hc, hsame⟩, -⟩, -⟩ := h
  exact ⟨c, hc, of_decide_eq_true hsame⟩

theorem controls_of_coherent {m : Manager} {targets : List TargetSpec} (h : m.coherent targets = true) :
    Controls m.controllers targets := by
  obtain ⟨-, hruns, hkeys⟩ := of_decide_eq_true h
  refine ⟨fun key => ⟨fun hkey => hkeys key (Finmap.mem_keys.mpr (Finmap.lookup_isSome.mp hkey)), fun hkey => ?_⟩,
    fun t ht => controller_of_runs (hruns t ht)⟩
  obtain ⟨t, ht, rfl⟩ := List.mem_map.mp hkey
  obtain ⟨c, hc, -⟩ := controller_of_runs (hruns t ht)
  rw [hc]
  rfl

theorem currentConfigurationCoherent_safe : (currentConfigurationCoherent pkg cfg).Safe (transitionRules pkg cfg base)
    (fun coherent w' => w' = w ∧ (coherent = true → ∃ current targets, w.manager.current = some current ∧
      buildTargetSpecs pkg cfg current.state = .ok targets ∧ Controls w.manager.controllers targets)) w := by
  refine safe_gets ?_
  dsimp only [id]
  split
  · exact safe_pure ⟨rfl, nofun⟩
  next current hcurrent =>
    split
    · exact safe_pure ⟨rfl, nofun⟩
    next targets htargets =>
      split
      next hcoherent =>
        have hfound := controls_of_coherent hcoherent
        refine Safe.atomic fun t hst ht c _ => ⟨?_, ?_, fun u hu _ => ?_⟩
        · exact ht
        · exact stepSound_of_notes rfl rfl
        · subst hst hu
          exact ⟨rfl, fun _ => ⟨current, targets, hcurrent, htargets, hfound⟩⟩
      · exact safe_pure ⟨rfl, nofun⟩

theorem Settled.applied (hw : Settled pkg cfg base w) (hc : Certain w.notes) {current : ParsedDesiredState}
    {targets : List TargetSpec} (hcurrent : w.manager.current = some current)
    (htargets : buildTargetSpecs pkg cfg current.state = .ok targets)
    (hcontrols : Controls w.manager.controllers targets)
    (hgeneration : current.state.generation ≤ w.manager.retirementGeneration)
    (hrecords : ∀ t ∈ targets, w.manager.retirementRecords.lookup t.key = none) {a : Acknowledgement}
    (ha : a.generation = current.state.generation ∧ a.desiredStateHash = current.stateHash) : Applied pkg cfg w a := by
  have hrestore := hw.accepted hc.unambiguous
  rw [hcurrent] at hrestore
  obtain ⟨hlast, hparse⟩ := restore_some_iff.mp hrestore
  obtain ⟨hmirrored, hmirrors⟩ := hw.mirrors hc
  have hpositive : 1 ≤ current.state.generation := generation_of_parse hparse
  rw [hmirrored, StateFiles.retirementGeneration] at hgeneration
  unfold StateFiles.retirementRecords at hmirrors
  cases hfile : w.files.retirements with
  | none =>
    -- without a file the generation would be 0, which no document has
    rw [hfile] at hgeneration
    exact absurd (hpositive.trans hgeneration) (by decide)
  | some document =>
    rw [hfile] at hgeneration hmirrors
    refine ⟨current, targets, document, hlast, hparse, ha.1, ha.2, htargets, hcontrols, hfile, ha.1 ▸ hgeneration, ?_⟩
    intro t ht hkey
    obtain ⟨record, hmem, hkey⟩ := List.mem_map.mp hkey
    have hlookup := (hmirrors t.key record).mpr ⟨hmem, hkey⟩
    rw [hrecords t ht] at hlookup
    cases hlookup

section Acknowledged
variable {a : Acknowledgement}

theorem unambiguous_acknowledged {notes : List ManagerNote} :
    Unambiguous (.acknowledged a :: notes) ↔ Unambiguous notes :=
  unambiguous_cons.trans (and_iff_right rfl)

theorem Durable.acknowledged (hw : Durable pkg cfg base w) : Durable pkg cfg base (w.noted (.acknowledged a)) :=
  fun hu key howed => hw (unambiguous_acknowledged.mp hu) key howed

theorem Settled.acknowledged (hw : Settled pkg cfg base w) : Settled pkg cfg base (w.noted (.acknowledged a)) where
  keyed := hw.keyed
  accepted hu := hw.accepted (unambiguous_acknowledged.mp hu)
  covers hu := hw.covers (unambiguous_acknowledged.mp hu)
  mirrors hc := ⟨(hw.mirrors (certain_cons.mp hc).2).generation, (hw.mirrors (certain_cons.mp hc).2).records⟩

end Acknowledged

theorem writeAcknowledgement_safe {current : ParsedDesiredState} {previous : DesiredState} (hw : Settled pkg cfg base w)
    (happlied : ∀ a : Acknowledgement, a.generation = current.state.generation ∧
      a.desiredStateHash = current.stateHash →
      Certain w.notes → Applied pkg cfg w a) :
    (writeAcknowledgement pkg cfg rfc current previous).Safe (transitionRules pkg cfg base)
      (fun _ w' => Settled pkg cfg base w') w := by
  refine Safe.atomic fun t hst ht c _ => ?_
  subst hst
  dsimp only
  cases c.outcome with
  | failed => exact ⟨ht, stepSound_of_notes rfl rfl, fun u hu _ => hu ▸ hw⟩
  | done | unsure =>
    exact ⟨ht.acknowledged, Or.inr ⟨_, rfl, rfl, happlied _ ⟨rfl, rfl⟩⟩, fun u hu _ => hu ▸ hw.acknowledged⟩

theorem publishAcknowledgement_safe (hw : Settled pkg cfg base w) :
    (publishAcknowledgement pkg cfg rfc).Safe (transitionRules pkg cfg base)
      (fun _ w' => Settled pkg cfg base w') w := by
  refine safe_gets ?_
  dsimp only [id]
  split
  · exact safe_pure hw
  next current hcurrent =>
    split
    · exact safe_pure hw
    refine safe_then currentConfigurationCoherent_safe fun coherent w' h => ?_
    obtain ⟨rfl, hcoherent⟩ := h
    cases coherent with
    | false => exact safe_pure hw
    | true =>
      obtain ⟨current', targets, hcurrent', htargets, hcontrols⟩ := hcoherent rfl
      obtain rfl := Option.some.inj (hcurrent.symm.trans hcurrent')
      simp only [if_true, htargets]
      split
      · exact safe_pure hw
      next hgeneration =>
        split
        · exact safe_pure hw
        next hrecords =>
          have happlied (a : Acknowledgement)
              (ha : a.generation = current.state.generation ∧ a.desiredStateHash = current.stateHash)
              (hc : Certain w'.notes) : Applied pkg cfg w' a := by
            refine hw.applied hc hcurrent htargets hcontrols (not_lt.mp hgeneration) (fun t ht => ?_) ha
            have hnone : ¬ (w'.manager.retirementRecords.lookup t.key).isSome :=
              fun h => hrecords (List.any_eq_true.mpr ⟨t, ht, h⟩)
            rwa [Option.not_isSome_iff_eq_none] at hnone
          refine safe_then (writeAcknowledgement_safe hw happlied) fun written w'' hw'' => ?_
          cases written with
          | false => exact safe_pure hw''
          | true => exact safe_modify (safe_pure (hw''.of_memory rfl rfl rfl))

theorem applyConfiguration_safe (hw : Settled pkg cfg base w) :
    (applyConfiguration pkg cfg rfc).Safe (transitionRules pkg cfg base) (fun _ w' => Settled pkg cfg base w') w := by
  refine safe_gets ?_
  dsimp only [id]
  split
  · refine safe_then currentConfigurationCoherent_safe fun coherent w' h => ?_
    obtain ⟨rfl, -⟩ := h
    cases coherent with
    | false => exact safe_then (publishAcknowledgement_safe hw) fun _ _ hw' => safe_pure hw'
    | true =>
      refine safe_modify (safe_then (publishAcknowledgement_safe (hw.of_memory rfl rfl rfl)) fun _ _ hw' => ?_)
      exact safe_pure hw'
  · exact safe_pure hw

end Acknowledging

/-! ## Cycles and runs -/

section Runs
variable {pkg : Packages} {cfg : Config} {rfc : Rfc3339} {base : List String} {w : ManagerWorld}

theorem runReconciliationCycle_settles (hw : Settled pkg cfg base w) (desired : DesiredFile) :
    (runReconciliationCycle pkg cfg rfc desired).Safe (transitionRules pkg cfg base)
      (fun _ w' => Settled pkg cfg base w') w := by
  have hlast (pending : Bool) {w : ManagerWorld} (hw : Settled pkg cfg base w) :
      Safe (transitionRules pkg cfg base) (fun _ w' => Settled pkg cfg base w') (do
        let m ← ManagerProg.gets id
        if pending && !m.hostAdmissionAdoptionPending && m.current.isSome then
          let _ ← reconcileRetirementsWithFinalization pkg cfg rfc true
        applyConfiguration pkg cfg rfc) w := by
    refine safe_gets ?_
    dsimp only [id]
    split
    · exact safe_then (reconcileRetirements_safe true hw) fun _ _ hw' => applyConfiguration_safe hw'
    · exact applyConfiguration_safe hw
  have hadoption (pending : Bool) {w : ManagerWorld} (hw : Settled pkg cfg base w) :
      Safe (transitionRules pkg cfg base) (fun _ w' => Settled pkg cfg base w') (do
        if ← ManagerProg.ask then ManagerProg.modify fun m => { m with hostAdmissionAdoptionPending := false }
        let m ← ManagerProg.gets id
        if pending && !m.hostAdmissionAdoptionPending && m.current.isSome then
          let _ ← reconcileRetirementsWithFinalization pkg cfg rfc true
        applyConfiguration pkg cfg rfc) w :=
    safe_if (safe_modify (hlast pending (hw.of_memory rfl rfl rfl))) (hlast pending hw)
  refine safe_then (processDesired_settles hw desired) fun _ w₁ hw₁ => safe_gets (safe_gets ?_)
  dsimp only [id]
  split
  · refine safe_then (ensureRetirementStateCurrent_safe hw₁) fun _ w₂ hw₂ => ?_
    refine safe_then (safe_idle reconcileDesiredTargets_idle hw₂) fun _ w₃ hw₃ => safe_gets ?_
    exact safe_then (reconcileRetirements_safe _ hw₃) fun _ _ hw₄ => hadoption _ hw₄
  · exact hadoption _ hw₁

theorem mirrors_of_load {f : StateFiles} {generation : Int} {records : RetirementRecords}
    (h : loadRetirements rfc f = .ok (generation, records)) :
    generation = f.retirementGeneration ∧
      ∀ key record, records.lookup key = some record ↔ record ∈ f.retirementRecords ∧ record.key = key := by
  unfold loadRetirements at h
  unfold StateFiles.retirementGeneration StateFiles.retirementRecords
  cases hfile : f.retirements with
  | none =>
    rw [hfile] at h
    obtain ⟨rfl, rfl⟩ := Prod.mk.inj (Except.ok.inj h)
    exact ⟨rfl, fun key record => by simp⟩
  | some document =>
    rw [hfile] at h
    obtain ⟨parsed, hparsed, h⟩ := bind_eq_ok.mp h
    obtain ⟨rfl, rfl⟩ := Prod.mk.inj (Except.ok.inj h)
    obtain ⟨rfl, -, -, hnodup⟩ := parseRetirementDocument_eq_ok hparsed
    exact ⟨rfl, fun key record => lookup_ofRecords hnodup⟩

theorem settled_of_start (hw : Durable pkg cfg base w) {recovered : Finset String} {pending : Bool} {m : Manager}
    (h : startManager pkg cfg rfc w.files recovered pending = .ok m) :
    Settled pkg cfg base { w with manager := m } := by
  unfold startManager at h
  split at h
  · cases h
  next current hcurrent =>
    split at h
    · cases h
    next generation records hload =>
      obtain rfl := Except.ok.inj h
      obtain ⟨hgeneration, hrecords⟩ := mirrors_of_load hload
      refine ⟨fun key record hrecord => ((hrecords key record).mp hrecord).2, fun _ => hcurrent, ?_,
        fun _ => ⟨hgeneration, hrecords⟩⟩
      intro hu key howed haccepted
      obtain ⟨record, hmem, hkey⟩ := List.mem_map.mp ((hw hu key howed).resolve_left haccepted)
      exact Option.isSome_iff_exists.mpr ⟨record, (hrecords key record).mpr ⟨hmem, hkey⟩⟩

/-- The files lack nothing, and the process that runs keeps it so. -/
structure ManagerSystem.Lasting (pkg : Packages) (cfg : Config) (base : List String) (s : ManagerSystem) : Prop where
  durable : Durable pkg cfg base s.world
  program : ∀ p, s.program = some p →
    p.Safe (transitionRules pkg cfg base) (fun _ w' => Settled pkg cfg base w') s.world

theorem lasting_start (files : StateFiles) :
    (ManagerSystem.start files).Lasting pkg cfg (files.acceptedKeys pkg cfg) :=
  ⟨fun _ _ howed => Or.inl howed, fun _ h => absurd h.symm (Option.some_ne_none _)⟩

theorem ManagerSystem.Lasting.step {s : ManagerSystem} (h : s.Lasting pkg cfg base) (e : ManagerEvent) :
    (s.step pkg cfg rfc e).1.Lasting pkg cfg base ∧ StepSound pkg cfg s.world (s.step pkg cfg rfc e).1.world := by
  cases e with
  | restart recovered pending =>
    unfold ManagerSystem.step
    dsimp only
    split
    · exact ⟨⟨h.durable, fun p hp => absurd hp.symm (Option.some_ne_none p)⟩, stepSound_of_notes rfl rfl⟩
    next m hm =>
      refine ⟨⟨h.durable.of_eq rfl rfl, fun p hp => ?_⟩, stepSound_of_notes rfl rfl⟩
      rw [← Option.some.inj hp]
      exact safe_pure (settled_of_start h.durable hm)
  | cycle desired =>
    unfold ManagerSystem.step
    dsimp only
    split
    next hprogram =>
      refine ⟨⟨h.durable, fun p hp => ?_⟩, stepSound_of_notes rfl rfl⟩
      rw [← Option.some.inj hp]
      exact runReconciliationCycle_settles (h.program _ hprogram _ rfl h.durable) desired
    · exact ⟨h, stepSound_of_notes rfl rfl⟩
  | step reply =>
    unfold ManagerSystem.step
    dsimp only
    split
    next act next hprogram =>
      obtain ⟨hinv, hguar, hnext⟩ := h.program _ hprogram _ rfl h.durable reply trivial
      refine ⟨⟨hinv, fun p hp => ?_⟩, hguar⟩
      rw [← Option.some.inj hp]
      exact hnext
    · exact ⟨h, stepSound_of_notes rfl rfl⟩

theorem lasting_exec (files : StateFiles) (events : List ManagerEvent) :
    (exec (ManagerSystem.step pkg cfg rfc) (.start files) events).Lasting pkg cfg (files.acceptedKeys pkg cfg) :=
  exec_induction (lasting_start files) (fun _ e h => (h.step e).1) events

/-- In every run in which no write of the last-valid file has reported failure after it took effect, with crashes
    and other ambiguous writes anywhere: a target that a last-valid document has ever named is in the last-valid
    document or in the retirement records until its scale set has been deleted or found absent. -/
theorem dropped_targets_stay (files : StateFiles) (events : List ManagerEvent) :
    let s := exec (ManagerSystem.step pkg cfg rfc) (.start files) events
    Unambiguous s.world.notes → ∀ key, Owed pkg cfg (files.acceptedKeys pkg cfg) key s.world.notes →
      key ∈ s.world.files.acceptedKeys pkg cfg ∨ key ∈ s.world.files.retirementRecords.map (·.key) :=
  (lasting_exec files events).durable

end Runs

section Doubt

/-- The key of the repository that the second document drops. -/
def droppedKey : String := "repo-9b7d330c298cfcbf"

/-- A manager takes a document and then one that drops a target, with the given outcomes of its first writes, and
    is replaced by another one. -/
def doubtfulRun (retirements lastValid : Outcome) : List ManagerEvent :=
  List.flatten
    [[.restart ∅ false, .cycle (.data busyDocument)], steps 48 {}, [.cycle (.data droppedDocument)], steps 3 {},
      [.step { outcome := retirements }, .step {}, .step { outcome := lastValid }], steps 48 {},
      [.restart ∅ false, .cycle (.data droppedDocument)], steps 8 {}]

/-- The retirement file is written against the report of the write, and the manager stops. -/
theorem dropped_targets_stay_doubtfulRun :
    let s := exec (ManagerSystem.step samplePackages sampleConfig utcTime) (.start {}) (doubtfulRun .unsure .done)
    .recorded none false ∈ s.world.notes ∧ (droppedKey ∈ s.world.files.acceptedKeys samplePackages sampleConfig ∨
      droppedKey ∈ s.world.files.retirementRecords.map (·.key)) :=
  ⟨by decide +kernel, dropped_targets_stay {} (doubtfulRun .unsure .done) (by decide +kernel) droppedKey
    (by decide +kernel)⟩

/-- The last-valid file has the document that drops the target, the manager has not taken it for accepted, and so its
    cycle goes on by taking the record of the target out of the file again. The next manager knows nothing of it. -/
theorem doubtful_document_forgets :
    let s := exec (ManagerSystem.step samplePackages sampleConfig utcTime) (.start {}) (doubtfulRun .done .unsure)
    Owed samplePackages sampleConfig [] droppedKey s.world.notes ∧
      droppedKey ∉ s.world.files.acceptedKeys samplePackages sampleConfig ∧
      droppedKey ∉ s.world.files.retirementRecords.map (·.key) := by
  decide +kernel

end Doubt

/-! ## What the notes of a run say -/

section Accepted
variable {pkg : Packages} {cfg : Config} {rfc : Rfc3339} {initial : Option ParsedDesiredState} {w w' : ManagerWorld}

/-- The documents of a run have rising generations, and the last one is in the file. -/
structure Rising (pkg : Packages) (cfg : Config) (initial : Option ParsedDesiredState) (w : ManagerWorld) : Prop where
  sorted : (acceptedDocuments pkg cfg initial w.notes).Pairwise fun later earlier =>
    earlier.state.generation < later.state.generation
  latest : w.files.accepted pkg cfg = (acceptedDocuments pkg cfg initial w.notes).head?

theorem accepted_eq_some {f : StateFiles} {parsed : ParsedDesiredState} (h : f.accepted pkg cfg = some parsed) :
    restoreLastValid pkg cfg f = .ok (some parsed) := by
  unfold StateFiles.accepted at h
  cases hrestore : restoreLastValid pkg cfg f with
  | error fault =>
    rw [hrestore] at h
    cases h
  | ok current =>
    rw [hrestore] at h
    exact congrArg Except.ok (Option.join_eq_some_iff.mp h |> Option.some.inj)

theorem accepted_congr {f f' : StateFiles} (h : f'.lastValid = f.lastValid) :
    f'.accepted pkg cfg = f.accepted pkg cfg := by
  rw [StateFiles.accepted, StateFiles.accepted, restoreLastValid, restoreLastValid, h]

theorem Rising.stored (h : Rising pkg cfg initial w) {raw : String} {reported : Bool}
    (hsound : NoteSound pkg cfg w (.stored raw reported)) (hnotes : w'.notes = .stored raw reported :: w.notes)
    (hfile : w'.files.lastValid = some raw) : Rising pkg cfg initial w' := by
  obtain ⟨parsed, hparse, hnewer⟩ := hsound
  have haccepted :
      acceptedDocuments pkg cfg initial w'.notes = parsed :: acceptedDocuments pkg cfg initial w.notes := by
    rw [hnotes, acceptedDocuments, hparse]
    rfl
  obtain ⟨sorted, latest⟩ := h
  refine ⟨?_, ?_⟩
  · rw [haccepted]
    refine List.pairwise_cons.mpr ⟨fun earlier hearlier => ?_, sorted⟩
    cases hdocuments : acceptedDocuments pkg cfg initial w.notes with
    | nil =>
      rw [hdocuments] at hearlier
      exact absurd hearlier List.not_mem_nil
    | cons head rest =>
      rw [hdocuments] at hearlier latest sorted
      have hhead := hnewer head (accepted_eq_some latest)
      rcases List.mem_cons.mp hearlier with rfl | hrest
      · exact hhead
      · exact ((List.pairwise_cons.mp sorted).1 earlier hrest).trans hhead
  · rw [haccepted, StateFiles.accepted, restoreLastValid, hfile]
    dsimp only
    rw [hparse]
    rfl

theorem Rising.step (hstep : StepSound pkg cfg w w') (hc : Certain w'.notes)
    (h : Certain w.notes → Rising pkg cfg initial w) :
    Rising pkg cfg initial w' := by
  rcases hstep with ⟨hfile, hnotes⟩ | ⟨n, hnotes, hfile, hsound⟩
  · obtain ⟨sorted, latest⟩ := h (hnotes ▸ hc)
    rw [← hnotes] at sorted latest
    exact ⟨sorted, (accepted_congr hfile).trans latest⟩
  · rw [hnotes] at hc
    have hbefore := (certain_cons.mp hc).2
    have hother (hsame : acceptedDocuments pkg cfg initial (n :: w.notes) = acceptedDocuments pkg cfg initial w.notes)
        (hkept : n.lastValid w.files.lastValid = w.files.lastValid) : Rising pkg cfg initial w' := by
      obtain ⟨sorted, latest⟩ := h hbefore
      rw [← hsame, ← hnotes] at sorted latest
      exact ⟨sorted, (accepted_congr (hfile.trans hkept)).trans latest⟩
    cases n with
    | stored raw reported => exact (h hbefore).stored (hsound hbefore) hnotes hfile
    | recorded | absent | deleted | acknowledged => exact hother rfl rfl

theorem rising_start (files : StateFiles) :
    Rising pkg cfg (files.accepted pkg cfg) (ManagerSystem.start files).world := by
  unfold ManagerSystem.start
  refine ⟨?_, ?_⟩
  · show List.Pairwise _ (files.accepted pkg cfg).toList
    cases files.accepted pkg cfg with
    | none => exact List.Pairwise.nil
    | some parsed => exact List.pairwise_singleton _ parsed
  · show files.accepted pkg cfg = (files.accepted pkg cfg).toList.head?
    cases files.accepted pkg cfg <;> rfl

theorem rising_exec (files : StateFiles) (events : List ManagerEvent)
    (hc : Certain (exec (ManagerSystem.step pkg cfg rfc) (.start files) events).world.notes) :
    Rising pkg cfg (files.accepted pkg cfg) (exec (ManagerSystem.step pkg cfg rfc) (.start files) events).world := by
  let I (s : ManagerSystem) : Prop := s.Lasting pkg cfg (files.acceptedKeys pkg cfg) ∧
    (Certain s.world.notes → Rising pkg cfg (files.accepted pkg cfg) s.world)
  have hrun : I (exec (ManagerSystem.step pkg cfg rfc) (.start files) events) :=
    exec_induction ⟨lasting_start files, fun _ => rising_start files⟩
      (fun s e h => ⟨(h.1.step e).1, fun hc => Rising.step (h.1.step e).2 hc h.2⟩) events
  exact hrun.2 hc

theorem certain_before (hstep : StepSound pkg cfg w w') (hc : Certain w'.notes) : Certain w.notes := by
  rcases hstep with ⟨-, hnotes⟩ | ⟨n, hnotes, -⟩
  · exact hnotes ▸ hc
  · rw [hnotes] at hc
    exact (certain_cons.mp hc).2

theorem certain_of_exec {base : List String} {s : ManagerSystem} (h : s.Lasting pkg cfg base)
    (events : List ManagerEvent)
    (hc : Certain (exec (ManagerSystem.step pkg cfg rfc) s events).world.notes) : Certain s.world.notes := by
  induction events generalizing s with
  | nil => exact hc
  | cons e events ih => exact certain_before (h.step e).2 (ih (h.step e).1 hc)

/-- In every run in which a write that fails leaves the old file, with crashes anywhere: the accepted documents, those
    of the last-valid file, have rising generations and so one hash for each; and whatever a step does, its note is
    sound. That is, a retirement deletes a scale set or ends only if the accepted state does not name the target and
    its record is due, and an acknowledgement is written only of the document that is applied. -/
theorem transitions_sound (files : StateFiles) (events : List ManagerEvent) :
    let s := exec (ManagerSystem.step pkg cfg rfc) (.start files) events
    let accepted := acceptedDocuments pkg cfg (files.accepted pkg cfg) s.world.notes
    Certain s.world.notes →
      accepted.Pairwise (fun later earlier => earlier.state.generation < later.state.generation) ∧
      (∀ a ∈ accepted, ∀ b ∈ accepted, a.state.generation = b.state.generation → a.stateHash = b.stateHash) ∧
      s.world.files.accepted pkg cfg = accepted.head? ∧
      ∀ t ∈ transitions (ManagerSystem.step pkg cfg rfc) (.start files) events,
        t.after.world.notes = t.before.world.notes ∨
          ∃ n, t.after.world.notes = n :: t.before.world.notes ∧ NoteSound pkg cfg t.before.world n := by
  intro s accepted hc
  obtain ⟨sorted, latest⟩ := rising_exec files events hc
  refine ⟨sorted, fun a ha b hb hgeneration => ?_, latest, fun t ht => ?_⟩
  · have hnodup : (accepted.map (·.state.generation)).Nodup :=
      List.pairwise_map.mpr (sorted.imp fun hlt => ne_of_gt hlt)
    rw [List.inj_on_of_nodup_map hnodup ha hb hgeneration]
  · obtain ⟨xs, ys, rfl, hbefore, hstep⟩ := mem_transitions.mp ht
    have hlasting :
        (exec (ManagerSystem.step pkg cfg rfc) (.start files) xs).Lasting pkg cfg (files.acceptedKeys pkg cfg) :=
      lasting_exec files xs
    rw [← hbefore] at hlasting
    have hcertain : Certain t.before.world.notes := by
      have hrest : Certain (exec (ManagerSystem.step pkg cfg rfc) t.before (t.event :: ys)).world.notes := by
        rw [hbefore, ← exec_append]
        exact hc
      exact certain_of_exec hlasting _ hrest
    have hsound : StepSound pkg cfg t.before.world (t.before.step pkg cfg rfc t.event).1.world :=
      (hlasting.step t.event).2
    rw [hstep] at hsound
    rcases hsound with ⟨-, hnotes⟩ | ⟨n, hnotes, -, hn⟩
    · exact Or.inl hnotes
    · exact Or.inr ⟨n, hnotes, hn hcertain⟩

/-- A manager takes a document, acknowledges it, takes one that drops a target, deletes the scale set of the target and
    acknowledges that. -/
def retiringRun : List ManagerEvent :=
  List.flatten
    [[.restart ∅ false, .cycle (.data busyDocument)], steps 48 { answer := true }, [.cycle (.data droppedDocument)],
      steps 48 { answer := true }]

theorem transitions_sound_retiringRun :
    let s := exec (ManagerSystem.step samplePackages sampleConfig utcTime) (.start {}) retiringRun
    (.deleted droppedKey ∈ s.world.notes ∧ .recorded (some droppedKey) true ∈ s.world.notes ∧
      s.world.notes.length = 8) ∧
      ∀ t ∈ transitions (ManagerSystem.step samplePackages sampleConfig utcTime) (.start {}) retiringRun,
        t.after.world.notes = t.before.world.notes ∨
          ∃ n, t.after.world.notes = n :: t.before.world.notes ∧
            NoteSound samplePackages sampleConfig t.before.world n :=
  ⟨by decide +kernel, (transitions_sound {} retiringRun (by decide +kernel)).2.2.2⟩

end Accepted
end PitCrew.Autoscaler
