import PitCrew.Shell.Diagnostics

/-! # The diagnostic lock

A process removes a lock that it takes for one left behind. As long as that lock is the very directory whose creation
time the process has read, it is no lock that anyone holds, and then events are appended one after the other. -/

namespace PitCrew.Shell
open Base Prog

/-! ## Journals -/

namespace DiagnosticJournal
variable {j : DiagnosticJournal}

theorem isValid_iff : j.isValid = true ↔ j.highestSequence.all (1 ≤ ·) = true ∧
    j.droppedEvents = j.evictedEvents + j.rejectedEvents + j.unclassifiedEvents ∧
      (j.status = .current → j.rejectedEvents = 0) ∧ (j.status = .truncated → 1 ≤ j.rejectedEvents) := by
  unfold isValid
  cases j.status <;> simp [and_assoc]

theorem status_fits (rejected : Nat) :
    ((if rejected > 0 then JournalStatus.truncated else .current) = .current → rejected = 0) ∧
      ((if rejected > 0 then JournalStatus.truncated else .current) = .truncated → 1 ≤ rejected) := by
  cases rejected <;> simp

theorem evicting_valid (h : j.isValid = true) (evicted : Nat) (events : List DiagnosticEvent) :
    (j.evicting evicted events).isValid = true := by
  obtain ⟨hhighest, -, -, -⟩ := isValid_iff.mp h
  refine isValid_iff.mpr ⟨hhighest, rfl, ?_⟩
  unfold evicting
  by_cases hstatus : j.status = .unavailable
  · simp [hstatus]
  · simp only [if_neg hstatus]
    exact status_fits j.rejectedEvents

theorem append_valid (h : j.isValid = true) (a : AppendArguments) (observedAt : String) :
    (j.append a observedAt).isValid = true := by
  obtain ⟨-, hdropped, -, -⟩ := isValid_iff.mp h
  exact isValid_iff.mpr ⟨decide_eq_true (Nat.le_add_left 1 (j.highestSequence.getD 0)), hdropped,
    status_fits j.rejectedEvents⟩

end DiagnosticJournal

/-- The highest sequence of a journal; one that is not valid is reset before it is used. -/
def FileContent.highest (c : FileContent DiagnosticJournal) : Nat :=
  ((c.value.filter (·.isValid)).bind (·.highestSequence)).getD 0

theorem highest_valid {j : DiagnosticJournal} (h : j.isValid = true) :
    (FileContent.holds j).highest = j.highestSequence.getD 0 := by
  show (((some j).filter (·.isValid)).bind (·.highestSequence)).getD 0 = _
  rw [Option.filter_some, if_pos h, Option.bind_some]

theorem highest_invalid {c : FileContent DiagnosticJournal} (h : c.value.any (·.isValid) = false) : c.highest = 0 := by
  cases c with
  | absent => rfl
  | unreadable => rfl
  | holds j =>
    have h : j.isValid = false := h
    show (((some j).filter (·.isValid)).bind (·.highestSequence)).getD 0 = 0
    rw [Option.filter_some, h]
    rfl

def Appended.sequence (a : Appended) : Nat := a.after.highest

/-! ## The lock -/

/-- The journal is the one that the appends have made of the first, one after the other. -/
structure Chronicle (start : Nat) (w : DiagnosticWorld) : Prop where
  sequences : w.appends.map Appended.sequence = (List.range w.appends.length).map (start + 1 + ·)
  applied : ∀ a ∈ w.appends, ∃ j, a.before = .holds j ∧ a.after = .holds (j.append a.arguments a.observedAt)
  highest : (w.journals .journal).highest = start + w.appends.length
  valid : w.appends ≠ [] → ∃ j, w.journals .journal = .holds j ∧ j.isValid = true

/-- One process at a time holds the lock, and not for long. -/
structure Exclusive (w : DiagnosticWorld) : Prop where
  held : ∀ p h, w.holding.lookup p = some h → ∃ d, w.lock = some d ∧ d.stamp = h.stamp
  one : ∀ p q, (w.holding.lookup p).isSome = true → (w.holding.lookup q).isSome = true → p = q
  inside : ∀ p ∈ w.inside, (w.holding.lookup p).isSome = true
  stamp : ∀ d, w.lock = some d → d.stamp ≤ w.taken
  created : ∀ d c p h, w.lock = some d → d.created = .time c → w.holding.lookup p = some h → h.since ≤ c
  since : ∀ p h, w.holding.lookup p = some h → h.since ≤ w.now
  prompt : ∀ p h, w.holding.lookup p = some h → w.now < h.since + lockTimeoutSeconds

structure Sound (start : Nat) (w : DiagnosticWorld) : Prop extends Exclusive w where
  chronicle : Chronicle start w

/-- What the other processes do, as one of them sees it: its own notes stay, a lock directory is an old one or a new
    one, and while it holds the lock, nothing in the directory changes. -/
structure Others (p : Nat) (w w' : DiagnosticWorld) : Prop where
  now : w.now ≤ w'.now
  taken : w.taken ≤ w'.taken
  lock : ∀ d', w'.lock = some d' → w.taken < d'.stamp ∨
    ∃ d, w.lock = some d ∧ d.stamp = d'.stamp ∧ ∀ c, d.created = .time c → d'.created = .time c
  holding : w'.holding.lookup p = w.holding.lookup p
  looked : w'.looked.lookup p = w.looked.lookup p
  inside : p ∈ w'.inside ↔ p ∈ w.inside
  removing : p ∈ w'.removing ↔ p ∈ w.removing
  held : (w.holding.lookup p).isSome = true →
    w'.lock = w.lock ∧ w'.journals = w.journals ∧ w'.healths = w.healths ∧ w'.appends = w.appends

namespace Others
variable {p : Nat} {w w' w'' : DiagnosticWorld}

theorem refl (p : Nat) (w : DiagnosticWorld) : Others p w w where
  now := le_rfl
  taken := le_rfl
  lock d h := Or.inr ⟨d, h, rfl, fun _ h => h⟩
  holding := rfl
  looked := rfl
  inside := Iff.rfl
  removing := Iff.rfl
  held _ := ⟨rfl, rfl, rfl, rfl⟩

theorem trans (h : Others p w w') (h' : Others p w' w'') : Others p w w'' where
  now := h.now.trans h'.now
  taken := h.taken.trans h'.taken
  lock d'' hd'' := by
    rcases h'.lock d'' hd'' with hnew | ⟨d', hd', hstamp, hcreated⟩
    · exact Or.inl (h.taken.trans_lt hnew)
    · rcases h.lock d' hd' with hnew | ⟨d, hd, hstamp', hcreated'⟩
      · exact Or.inl (hstamp ▸ hnew)
      · exact Or.inr ⟨d, hd, hstamp'.trans hstamp, fun c hc => hcreated c (hcreated' c hc)⟩
  holding := h'.holding.trans h.holding
  looked := h'.looked.trans h.looked
  inside := h'.inside.trans h.inside
  removing := h'.removing.trans h.removing
  held hp := by
    obtain ⟨hlock, hjournals, hhealths, happends⟩ := h.held hp
    obtain ⟨hlock', hjournals', hhealths', happends'⟩ := h'.held (h.holding ▸ hp)
    exact ⟨hlock'.trans hlock, hjournals'.trans hjournals, hhealths'.trans hhealths, happends'.trans happends⟩

end Others

/-- The rules of a process. The lock that it removes as a stale one is the one whose creation time it has read. -/
def lockRules (start p : Nat) : Rules DiagnosticWorld DiagnosticReply where
  inv := Sound start
  rely := Others p
  guar w w' := ∀ q, q ≠ p → Others q w w'
  may w _ := p ∈ w.removing → ∀ d, w.lock = some d → w.looked.lookup p = some d.stamp
  refl := Others.refl p
  trans := Others.trans

section
variable {start p : Nat} {w w' : DiagnosticWorld}

structure Outside (p : Nat) (w : DiagnosticWorld) : Prop where
  holding : w.holding.lookup p = none
  removing : p ∉ w.removing

theorem Outside.moved (h : Outside p w) (hw : Others p w w') : Outside p w' :=
  ⟨hw.holding.trans h.holding, fun hp => h.removing (hw.removing.mp hp)⟩

structure HoldsLock (p : Nat) (w : DiagnosticWorld) : Prop where
  holding : (w.holding.lookup p).isSome = true
  removing : p ∉ w.removing

theorem HoldsLock.moved (h : HoldsLock p w) (hw : Others p w w') : HoldsLock p w' :=
  ⟨hw.holding ▸ h.holding, fun hp => h.removing (hw.removing.mp hp)⟩

structure Made (p : Nat) (w : DiagnosticWorld) : Prop extends HoldsLock p w where
  created : ∀ d, w.lock = some d → d.created = .absent

theorem Made.moved (h : Made p w) (hw : Others p w w') : Made p w' :=
  ⟨h.toHoldsLock.moved hw, fun d hd => h.created d ((hw.held h.holding).1 ▸ hd)⟩

/-- A directory whose creation time the process has read was made then. -/
structure Looked (p created : Nat) (w : DiagnosticWorld) : Prop extends Outside p w where
  taken : ∀ stamp, w.looked.lookup p = some stamp → stamp ≤ w.taken
  created : ∀ d, w.lock = some d → w.looked.lookup p = some d.stamp → d.created = .time created

theorem Looked.moved {created : Nat} (h : Looked p created w) (hw : Others p w w') : Looked p created w' where
  toOutside := h.toOutside.moved hw
  taken stamp hstamp := (h.taken stamp (hw.looked ▸ hstamp)).trans hw.taken
  created d' hd' hstamp := by
    rw [hw.looked] at hstamp
    rcases hw.lock d' hd' with hnew | ⟨d, hd, heq, hcreated⟩
    · exact absurd (h.taken _ hstamp) (Nat.not_le.mpr hnew)
    · exact hcreated created (h.created d hd (heq ▸ hstamp))

/-- The process is about to remove a lock that is stale if it is the one that it has looked at. -/
structure Stale (p : Nat) (w : DiagnosticWorld) : Prop where
  holding : w.holding.lookup p = none
  removing : p ∈ w.removing
  taken : ∀ stamp, w.looked.lookup p = some stamp → stamp ≤ w.taken
  created :
    ∀ d, w.lock = some d → w.looked.lookup p = some d.stamp → ∃ c, d.created = .time c ∧ c + lockTimeoutSeconds ≤ w.now

theorem Stale.moved (h : Stale p w) (hw : Others p w w') : Stale p w' where
  holding := hw.holding.trans h.holding
  removing := hw.removing.mpr h.removing
  taken stamp hstamp := (h.taken stamp (hw.looked ▸ hstamp)).trans hw.taken
  created d' hd' hstamp := by
    rw [hw.looked] at hstamp
    rcases hw.lock d' hd' with hnew | ⟨d, hd, heq, hcreated⟩
    · exact absurd (h.taken _ hstamp) (Nat.not_le.mpr hnew)
    · obtain ⟨c, hc, hold⟩ := h.created d hd (heq ▸ hstamp)
      exact ⟨c, hcreated c hc, hold.trans hw.now⟩

theorem not_held_of_stale (hw : Sound start w) (h : Stale p w)
    (hlooked : ∀ d, w.lock = some d → w.looked.lookup p = some d.stamp) (q : Nat) : w.holding.lookup q = none := by
  cases hq : w.holding.lookup q with
  | none => rfl
  | some held =>
    obtain ⟨d, hd, -⟩ := hw.held q held hq
    obtain ⟨c, hc, hold⟩ := h.created d hd (hlooked d hd)
    have hsince := hw.created d c q held hd hc hq
    have hprompt := hw.prompt q held hq
    omega

/-! ### Commands of the lock -/

theorem Sound.notes (h : Sound start w) (looked : Map Nat Nat) (removing : Finset Nat) :
    Sound start { w with looked, removing } :=
  ⟨⟨h.held, h.one, h.inside, h.stamp, h.created, h.since, h.prompt⟩,
    ⟨h.chronicle.sequences, h.chronicle.applied, h.chronicle.highest, h.chronicle.valid⟩⟩

theorem Others.notes {q : Nat} {looked : Map Nat Nat} {removing : Finset Nat}
    (hlooked : looked.lookup q = w.looked.lookup q)
    (hremoving : q ∈ removing ↔ q ∈ w.removing) : Others q w { w with looked, removing } :=
  ⟨le_rfl, le_rfl, fun d h => Or.inr ⟨d, h, rfl, fun _ h => h⟩, rfl, hlooked, Iff.rfl, hremoving,
    fun _ => ⟨rfl, rfl, rfl, rfl⟩⟩

theorem Sound.free (h : Sound start w) (hlock : w.lock = none) (q : Nat) : w.holding.lookup q = none := by
  cases hq : w.holding.lookup q with
  | none => rfl
  | some held =>
    obtain ⟨d, hd, -⟩ := h.held q held hq
    rw [hlock] at hd
    cases hd

theorem Sound.make (h : Sound start w) (hlock : w.lock = none) (p : Nat) :
    Sound start
      { w with
        lock := some { stamp := w.taken + 1 }
        taken := w.taken + 1
        holding := w.holding.insert p ⟨w.taken + 1, w.now⟩ } := by
  have hholding (q : Nat) (held : Holding) (hq : (w.holding.insert p ⟨w.taken + 1, w.now⟩).lookup q = some held) :
      q = p ∧ held = ⟨w.taken + 1, w.now⟩ := by
    rw [Map.lookup_insert_ite] at hq
    split_ifs at hq with heq
    · exact ⟨heq, (Option.some.inj hq).symm⟩
    · rw [h.free hlock q] at hq
      cases hq
  have hsome (q : Nat) (hq : ((w.holding.insert p ⟨w.taken + 1, w.now⟩).lookup q).isSome = true) : q = p := by
    obtain ⟨held, hheld⟩ := Option.isSome_iff_exists.mp hq
    exact (hholding q held hheld).1
  refine ⟨⟨fun q held hq => ?_, fun q r hq hr => (hsome q hq).trans (hsome r hr).symm, fun q hq => ?_, fun d hd => ?_,
    fun d c q held hd hc => ?_, fun q held hq => ?_, fun q held hq => ?_⟩,
    ⟨h.chronicle.sequences, h.chronicle.applied, h.chronicle.highest, h.chronicle.valid⟩⟩
  · rw [(hholding q held hq).2]
    exact ⟨_, rfl, rfl⟩
  · have hq := h.inside q hq
    rw [h.free hlock q] at hq
    cases hq
  · rw [← Option.some.inj hd]
  · rw [← Option.some.inj hd] at hc
    cases hc
  · rw [(hholding q held hq).2]
  · rw [(hholding q held hq).2]
    exact Nat.lt_add_of_pos_right (by decide)

theorem makeLock_safe (h : Outside p w) : (makeLock p).Safe (lockRules start p)
    (fun made w => if made = true then Made p w else Outside p w ∧ w.looked.lookup p = none) w := by
  refine Safe.atomic fun w' hmoved hsound c _ => ?_
  have houtside := h.moved hmoved
  split
  · next hlock _ =>
    refine ⟨hsound.make hlock p, fun q hq => ?_, fun u hu _ => ?_⟩
    · refine ⟨le_rfl, Nat.le_succ _, fun d hd => Or.inl ?_, Finmap.lookup_insert_of_ne _ hq, rfl, Iff.rfl, Iff.rfl,
        fun hheld => ?_⟩
      · rw [← Option.some.inj hd]
        exact Nat.lt_succ_self _
      · rw [hsound.free hlock q] at hheld
        cases hheld
    · rw [if_pos rfl]
      refine Made.moved ?_ hu
      refine ⟨⟨by dsimp only; rw [Finmap.lookup_insert]; rfl, houtside.removing⟩, fun d hd => ?_⟩
      rw [← Option.some.inj hd]
  · refine ⟨hsound.notes _ _, fun q hq => .notes (Finmap.lookup_erase_ne hq) Iff.rfl, fun u hu _ => ?_⟩
    rw [if_neg Bool.false_ne_true]
    have hnotes : Outside p { w' with looked := w'.looked.erase p } := ⟨houtside.holding, houtside.removing⟩
    exact ⟨hnotes.moved hu, hu.looked.trans (Finmap.lookup_erase _ _)⟩

theorem HoldsLock.alone (h : HoldsLock p w) (hw : Sound start w) {q : Nat} (hq : q ≠ p) :
    w.holding.lookup q = none := by
  cases hheld : w.holding.lookup q with
  | none => rfl
  | some held => exact absurd (hw.one q p (by rw [hheld]; rfl) h.holding) hq

theorem HoldsLock.others (h : HoldsLock p w) (hw : Sound start w) {q : Nat} (hq : q ≠ p) (hnow : w'.now = w.now)
    (htaken : w'.taken = w.taken)
    (hlock : ∀ d', w'.lock = some d' → ∃ d, w.lock = some d ∧ d.stamp = d'.stamp ∧ ∀ c, d.created = .time c →
      d'.created = .time c)
    (hholding : w'.holding.lookup q = w.holding.lookup q) (hlooked : w'.looked = w.looked)
    (hinside : q ∈ w'.inside ↔ q ∈ w.inside)
    (hremoving : w'.removing = w.removing) : Others q w w' where
  now := hnow.ge
  taken := htaken.ge
  lock d' hd' := Or.inr (hlock d' hd')
  holding := hholding
  looked := by rw [hlooked]
  inside := hinside
  removing := by rw [hremoving]
  held hheld := by
    rw [h.alone hw hq] at hheld
    cases hheld

theorem writeCreated_safe (h : Made p w) : (writeCreated p).Safe (lockRules start p) (fun _ w => HoldsLock p w) w := by
  refine Safe.atomic fun w' hmoved hsound c _ => ?_
  have hmade := h.moved hmoved
  have hlock (d' : LockDirectory)
      (hd' : (w'.lock.map fun d => { d with created := d.created.written c.outcome w'.now }) = some d') :
      ∃ d, w'.lock = some d ∧ d.stamp = d'.stamp ∧ d'.created = CreatedFile.absent.written c.outcome w'.now := by
    obtain ⟨d, hd, rfl⟩ := Option.map_eq_some_iff.mp hd'
    exact ⟨d, hd, rfl, by rw [hmade.created d hd]⟩
  refine ⟨⟨⟨fun q held hq => ?_, hsound.one, fun q hq => ?_, fun d' hd' => ?_, fun d' t q held hd' ht hq => ?_,
    hsound.since,
    hsound.prompt⟩, ⟨hsound.chronicle.sequences, hsound.chronicle.applied, hsound.chronicle.highest,
      hsound.chronicle.valid⟩⟩,
    fun q hq => ?_, fun u hu _ => ?_⟩
  · obtain ⟨d, hd, hstamp⟩ := hsound.held q held hq
    exact ⟨_, Option.map_eq_some_iff.mpr ⟨d, hd, rfl⟩, hstamp⟩
  · rcases Finset.mem_insert.mp hq with rfl | hq
    · exact hmade.holding
    · exact hsound.inside q hq
  · obtain ⟨d, hd, hstamp, -⟩ := hlock d' hd'
    exact hstamp ▸ hsound.stamp d hd
  · obtain ⟨d, hd, -, hcreated⟩ := hlock d' hd'
    rw [hcreated] at ht
    unfold CreatedFile.written at ht
    split at ht
    · obtain rfl : w'.now = t := by injection ht
      exact hsound.since q held hq
    · cases ht
    · cases ht
  · refine hmade.others hsound hq rfl rfl (fun d' hd' => ?_) rfl rfl ?_ rfl
    · obtain ⟨d, hd, hstamp, -⟩ := hlock d' hd'
      refine ⟨d, hd, hstamp, fun t ht => ?_⟩
      rw [hmade.created d hd] at ht
      cases ht
    · exact ⟨fun h => (Finset.mem_insert.mp h).resolve_left hq, Finset.mem_insert_of_mem⟩
  · refine HoldsLock.moved ?_ hu
    exact ⟨hmade.holding, hmade.removing⟩

theorem readOnly_safe {α : Type} {f : DiagnosticWorld → DiagnosticReply → α} {Q : α → DiagnosticWorld → Prop}
    (h : ∀ w' u c, Others p w w' → Sound start w' → Others p w' u → Sound start u → Q (f w' c) u) :
    (Prog.atomic fun w c => (f w c, w) : DiagnosticProg α).Safe (lockRules start p) Q w :=
  Safe.atomic fun w' hmoved hsound c _ => ⟨hsound, fun q _ => Others.refl q w',
    fun u hu hinv => h w' u c hmoved hsound hu hinv⟩

theorem readCreated_safe (h : Outside p w) (hlooked : w.looked.lookup p = none) :
    (readCreated p).Safe (lockRules start p) (fun created w => Looked p created w) w := by
  refine Safe.atomic fun w' hmoved hsound c _ => ?_
  have houtside := h.moved hmoved
  have hnone : w'.looked.lookup p = none := hmoved.looked.trans hlooked
  split
  · next seconds stamp hlock _ =>
    refine ⟨hsound.notes _ _, fun q hq => .notes (Finmap.lookup_insert_of_ne _ hq) Iff.rfl, fun u hu _ => ?_⟩
    refine Looked.moved ?_ hu
    refine ⟨⟨houtside.holding, houtside.removing⟩, fun s hs => ?_, fun d hd _ => ?_⟩
    · dsimp only at hs
      rw [Finmap.lookup_insert] at hs
      exact Option.some.inj hs ▸ hsound.stamp _ hlock
    · rw [Option.some.inj (hd.symm.trans hlock)]
  · refine ⟨hsound, fun q _ => Others.refl q w', fun u hu _ => ?_⟩
    refine Looked.moved ?_ hu
    refine ⟨houtside, fun s hs => ?_, fun d _ hs => ?_⟩
    · exact absurd (hs.symm.trans hnone) (Option.some_ne_none _)
    · exact absurd (hs.symm.trans hnone) (Option.some_ne_none _)

theorem isStale_safe {created : Nat} (h : Looked p created w) :
    (isStale p created).Safe (lockRules start p) (fun stale w => if stale = true then Stale p w
      else Outside p w) w := by
  refine Safe.atomic fun w' hmoved hsound c _ => ?_
  have hlooked := h.moved hmoved
  dsimp only
  split
  · next hold =>
    refine ⟨hsound.notes _ _, fun q hq => .notes rfl ?_, fun u hu _ => ?_⟩
    · exact ⟨fun h => (Finset.mem_insert.mp h).resolve_left hq, Finset.mem_insert_of_mem⟩
    · rw [if_pos rfl]
      refine Stale.moved ?_ hu
      refine ⟨hlooked.holding, Finset.mem_insert_self _ _, hlooked.taken,
        fun d hd hstamp => ⟨created, hlooked.created d hd hstamp, ?_⟩⟩
      have hpos : 0 < lockTimeoutSeconds := by decide
      dsimp only
      omega
  · refine ⟨hsound, fun q _ => Others.refl q w', fun u hu _ => ?_⟩
    rw [if_neg Bool.false_ne_true]
    exact hlooked.toOutside.moved hu

theorem removeStale_safe (h : Stale p w) : (removeStale p).Safe (lockRules start p) (fun _ w => Outside p w) w := by
  refine Safe.atomic fun w' hmoved hsound c hmay => ?_
  have hstale := h.moved hmoved
  have hfree := not_held_of_stale hsound hstale (hmay hstale.removing)
  have hremoving (q : Nat) (hq : q ≠ p) : q ∈ w'.removing.erase p ↔ q ∈ w'.removing :=
    ⟨Finset.mem_of_mem_erase, fun h => Finset.mem_erase.mpr ⟨hq, h⟩⟩
  have hnobody (q : Nat) (held : Holding) : w'.holding.lookup q ≠ some held := by
    rw [hfree q]
    exact (Option.some_ne_none held).symm
  split_ifs
  · refine ⟨hsound.notes _ _, fun q hq => .notes rfl (hremoving q hq), fun u hu _ => ?_⟩
    refine Outside.moved ?_ hu
    exact ⟨hstale.holding, Finset.notMem_erase p _⟩
  · refine ⟨⟨⟨fun q held hq => absurd hq (hnobody q held), hsound.one, hsound.inside, fun d hd => ?_,
      fun d _ _ _ hd => ?_, hsound.since,
      hsound.prompt⟩, ⟨hsound.chronicle.sequences, hsound.chronicle.applied, hsound.chronicle.highest,
        hsound.chronicle.valid⟩⟩,
      fun q hq => ?_, fun u hu _ => ?_⟩
    · cases hd
    · cases hd
    · refine ⟨le_rfl, le_rfl, fun d hd => ?_, rfl, rfl, Iff.rfl, hremoving q hq, fun hheld => ?_⟩
      · cases hd
      · rw [hfree q] at hheld
        cases hheld
    · refine Outside.moved ?_ hu
      exact ⟨hstale.holding, Finset.notMem_erase p _⟩

theorem looked_none (h : Outside p w) (hlooked : w.looked.lookup p = none) (created : Nat) : Looked p created w where
  toOutside := h
  taken _ hs := absurd (hs.symm.trans hlooked) (Option.some_ne_none _)
  created _ _ hs := absurd (hs.symm.trans hlooked) (Option.some_ne_none _)

/-- What a process whose `mkdir` has failed reads. -/
theorem lockCreated_safe (h : Outside p w) (hlooked : w.looked.lookup p = none) :
    (lockCreated p).Safe (lockRules start p) (fun created w => Looked p created w) w := by
  refine Safe.bind (readOnly_safe fun w' u _ hw' _ hu _ => ?_)
  have houtside := (h.moved hw').moved hu
  have hnone : u.looked.lookup p = none := hu.looked.trans (hw'.looked.trans hlooked)
  split
  · exact readCreated_safe houtside hnone
  · exact Safe.pure fun t ht _ => (looked_none houtside hnone 0).moved ht

theorem diagnosticAcquireLock_safe (rounds waited : Nat) (h : Outside p w) :
    (diagnosticAcquireLock p rounds waited).Safe (lockRules start p)
    (fun acquired w => if acquired = true then HoldsLock p w else Outside p w) w := by
  induction rounds generalizing waited w with
  | zero => exact Safe.pure fun t ht _ => h.moved ht
  | succ rounds ih =>
    unfold diagnosticAcquireLock
    refine Safe.bind ((makeLock_safe h).mono fun made w hmade => ?_)
    cases made with
    | true => exact Safe.bind ((writeCreated_safe hmade).mono fun _ w hw => Safe.pure fun t ht _ => hw.moved ht)
    | false =>
      obtain ⟨houtside, hlooked⟩ := hmade
      refine Safe.bind ((lockCreated_safe houtside hlooked).mono fun created w hcreated => ?_)
      refine Safe.bind ((isStale_safe hcreated).mono fun stale w hstale => ?_)
      cases stale with
      | true => exact Safe.bind ((removeStale_safe hstale).mono fun _ w hw => ih waited hw)
      | false =>
        rw [if_neg Bool.false_ne_true]
        have hw : Outside p w := hstale
        split_ifs
        · exact Safe.pure fun t ht _ => hw.moved ht
        · exact ih (waited + 1) hw

theorem diagnosticReleaseLock_safe (h : HoldsLock p w) :
    (diagnosticReleaseLock p).Safe (lockRules start p) (fun _ w => Outside p w) w := by
  refine Safe.atomic fun w' hmoved hsound c _ => ?_
  have hholds := h.moved hmoved
  have hnobody (q : Nat) : (w'.holding.erase p).lookup q = none := by
    rw [Map.lookup_erase_ite]
    split_ifs with hq
    · rfl
    · exact hholds.alone hsound hq
  have hheld (q : Nat) (held : Holding) : (w'.holding.erase p).lookup q ≠ some held := by
    rw [hnobody q]
    exact (Option.some_ne_none held).symm
  have hsome (q : Nat) : ¬((w'.holding.erase p).lookup q).isSome = true := by
    rw [hnobody q]
    exact Bool.false_ne_true
  -- whether or not the directory is removed, nobody holds a lock any more
  have hreleased (lock : Option LockDirectory) (hlock : ∀ d, lock = some d → w'.lock = some d) :
      Sound start { w' with lock, holding := w'.holding.erase p, inside := w'.inside.erase p } ∧
        (∀ q, q ≠ p → Others q w' { w' with lock, holding := w'.holding.erase p, inside := w'.inside.erase p }) ∧
        Outside p { w' with lock, holding := w'.holding.erase p, inside := w'.inside.erase p } := by
    refine ⟨⟨⟨fun q held hq => absurd hq (hheld q held), fun q _ hq => absurd hq (hsome q), fun q hq => ?_,
      fun d hd => ?_, fun _ _ q held _ _ hq => absurd hq (hheld q held), fun q held hq => absurd hq (hheld q held),
      fun q held hq => absurd hq (hheld q held)⟩,
      ⟨hsound.chronicle.sequences, hsound.chronicle.applied, hsound.chronicle.highest, hsound.chronicle.valid⟩⟩,
        fun q hq => ?_,
      hnobody p, hholds.removing⟩
    · obtain ⟨hne, hq⟩ := Finset.mem_erase.mp hq
      have hq := hsound.inside q hq
      rw [hholds.alone hsound hne] at hq
      cases hq
    · exact hsound.stamp d (hlock d hd)
    · refine hholds.others hsound hq rfl rfl (fun d hd => ⟨d, hlock d hd, rfl, fun _ h => h⟩)
        (Finmap.lookup_erase_ne hq) rfl ?_ rfl
      exact ⟨Finset.mem_of_mem_erase, fun h => Finset.mem_erase.mpr ⟨hq, h⟩⟩
  dsimp only
  split
  · obtain ⟨hinv, hothers, houtside⟩ := hreleased w'.lock fun _ h => h
    exact ⟨hinv, hothers, fun u hu _ => houtside.moved hu⟩
  · obtain ⟨hinv, hothers, houtside⟩ := hreleased none fun _ h => absurd h.symm (Option.some_ne_none _)
    exact ⟨hinv, hothers, fun u hu _ => houtside.moved hu⟩

end

/-! ## The directory while the lock is held -/

/-- Only files other than the lock have changed. -/
structure FilesOnly (w w' : DiagnosticWorld) : Prop where
  now : w'.now = w.now
  lock : w'.lock = w.lock
  taken : w'.taken = w.taken
  holding : w'.holding = w.holding
  inside : w'.inside = w.inside
  looked : w'.looked = w.looked
  removing : w'.removing = w.removing

abbrev Journals := JournalPath → FileContent DiagnosticJournal

section
variable {start p : Nat} {w w' : DiagnosticWorld} {P : Journals → Prop}

theorem Chronicle.of_eq (h : Chronicle start w) (hjournal : w'.journals .journal = w.journals .journal)
    (happends : w'.appends = w.appends) :
    Chronicle start w' := by
  refine ⟨?_, ?_, ?_, ?_⟩
  · rw [happends]
    exact h.sequences
  · rw [happends]
    exact h.applied
  · rw [hjournal, happends]
    exact h.highest
  · rw [hjournal, happends]
    exact h.valid

theorem Sound.files (h : Sound start w) (hfiles : FilesOnly w w') (hchronicle : Chronicle start w') :
    Sound start w' := by
  obtain ⟨hnow, hlock, htaken, hholding, hinside, -, -⟩ := hfiles
  refine ⟨⟨?_, ?_, ?_, ?_, ?_, ?_, ?_⟩, hchronicle⟩
  · rw [hholding, hlock]
    exact h.held
  · rw [hholding]
    exact h.one
  · rw [hinside, hholding]
    exact h.inside
  · rw [hlock, htaken]
    exact h.stamp
  · rw [hlock, hholding]
    exact h.created
  · rw [hholding, hnow]
    exact h.since
  · rw [hholding, hnow]
    exact h.prompt

/-- The process holds the lock, and the journals are as said. -/
structure HoldsWith (p : Nat) (P : Journals → Prop) (w : DiagnosticWorld) : Prop extends HoldsLock p w where
  journals : P w.journals

theorem HoldsWith.moved (h : HoldsWith p P w) (hw : Others p w w') : HoldsWith p P w' :=
  ⟨h.toHoldsLock.moved hw, (hw.held h.holding).2.1 ▸ h.journals⟩

theorem holder_atomic {α : Type} {f : DiagnosticWorld → DiagnosticReply → α × DiagnosticWorld} {Q : α → Journals → Prop}
    (h : HoldsWith p P w) (hf : ∀ w c, Chronicle start w → P w.journals →
      FilesOnly w (f w c).2 ∧ Chronicle start (f w c).2 ∧ Q (f w c).1 (f w c).2.journals) :
    (Prog.atomic f).Safe (lockRules start p) (fun a w => HoldsWith p (Q a) w) w := by
  refine Safe.atomic fun w' hmoved hsound c _ => ?_
  have hholds := h.moved hmoved
  obtain ⟨hfiles, hchronicle, hjournals⟩ := hf w' c hsound.chronicle hholds.journals
  refine ⟨hsound.files hfiles hchronicle, fun q hq => ?_, fun u hu _ => ?_⟩
  · refine hholds.others hsound hq hfiles.now hfiles.taken (fun d hd => ?_) (by rw [hfiles.holding]) hfiles.looked
      (by rw [hfiles.inside]) hfiles.removing
    rw [hfiles.lock] at hd
    exact ⟨d, hd, rfl, fun _ h => h⟩
  · refine HoldsWith.moved ?_ hu
    exact ⟨⟨by rw [hfiles.holding]; exact hholds.holding, by rw [hfiles.removing]; exact hholds.removing⟩, hjournals⟩

theorem write_self (w : DiagnosticWorld) (path : JournalPath) (content : FileContent DiagnosticJournal) :
    (w.write path content).journals path = content := Function.update_self _ _ _

theorem write_of_ne (w : DiagnosticWorld) {path other : JournalPath} (content : FileContent DiagnosticJournal)
    (h : other ≠ path) :
    (w.write path content).journals other = w.journals other := Function.update_of_ne h _ _

theorem FilesOnly.write (w : DiagnosticWorld) (path : JournalPath) (content : FileContent DiagnosticJournal) :
    FilesOnly w (w.write path content) := ⟨rfl, rfl, rfl, rfl, rfl, rfl, rfl⟩

def MainValid (journals : Journals) : Prop := ∃ j, journals .journal = .holds j ∧ j.isValid = true

theorem mainValid_of_any {journals : Journals} (h : (journals .journal).value.any (·.isValid) = true) :
    MainValid journals := by
  cases hc : journals .journal with
  | absent => rw [hc] at h; cases h
  | unreadable => rw [hc] at h; cases h
  | holds j =>
    rw [hc] at h
    exact ⟨j, hc, h⟩

theorem Chronicle.write (h : Chronicle start w) {path : JournalPath} (hpath : path ≠ .journal)
    (content : FileContent DiagnosticJournal) :
    Chronicle start (w.write path content) :=
  h.of_eq (write_of_ne w content hpath.symm) rfl

theorem removeJournal_safe {path : JournalPath} (hpath : path ≠ .journal) {R : FileContent DiagnosticJournal → Prop}
    (h : HoldsWith p (fun js => R (js .journal)) w) :
    (removeJournal path).Safe (lockRules start p) (fun _ w => HoldsWith p (fun js => R (js .journal)) w) w := by
  refine holder_atomic h fun w' _ hchronicle hP => ⟨.write _ _ _, hchronicle.write hpath _, ?_⟩
  show R ((w'.write path .absent).journals .journal)
  rwa [write_of_ne w' _ hpath.symm]

theorem jqJournal_safe {draft : JournalPath} (hdraft : draft ≠ .journal)
    {filter : DiagnosticJournal → DiagnosticJournal}
    {j : DiagnosticJournal} (h : HoldsWith p (fun js => js .journal = .holds j) w) :
    (jqJournal .journal draft filter).Safe (lockRules start p)
      (fun made w => HoldsWith p (fun js => js .journal = .holds j ∧
        (made = true → js draft = .holds (filter j))) w) w := by
  refine holder_atomic h fun w' c hchronicle hj => ?_
  have hj' (content : FileContent DiagnosticJournal) : (w'.write draft content).journals .journal = .holds j :=
    (write_of_ne w' content hdraft.symm).trans hj
  split
  · next j' hread _ =>
    refine ⟨.write _ _ _, hchronicle.write hdraft _, hj' _, fun _ => ?_⟩
    have hsame : j' = j := by
      rw [hj] at hread
      injection hread with hread
      exact hread.symm
    rw [← hsame]
    exact write_self w' draft _
  · exact ⟨.write _ _ _, hchronicle.write hdraft _, hj' _, fun h => absurd h Bool.false_ne_true⟩

theorem moved_journal (w : DiagnosticWorld) {draft : JournalPath} (hdraft : draft ≠ .journal) :
    ((w.write .journal (w.journals draft)).write draft .absent).journals .journal = w.journals draft := by
  rw [write_of_ne _ _ hdraft.symm, write_self]

theorem Chronicle.replace (h : Chronicle start w) {j' : DiagnosticJournal} (happends : w'.appends = w.appends)
    (hjournal : w'.journals .journal = .holds j') (hvalid : j'.isValid = true)
    (hhighest : j'.highestSequence.getD 0 = (w.journals .journal).highest) : Chronicle start w' := by
  refine ⟨?_, ?_, ?_, fun _ => ⟨j', hjournal, hvalid⟩⟩
  · rw [happends]
    exact h.sequences
  · rw [happends]
    exact h.applied
  · rw [hjournal, happends, highest_valid hvalid, hhighest]
    exact h.highest

theorem moveJournal_safe {draft : JournalPath} (hdraft : draft ≠ .journal) {j' : DiagnosticJournal}
    (hvalid : j'.isValid = true)
    {content : FileContent DiagnosticJournal} (hhighest : j'.highestSequence.getD 0 = content.highest)
    (h : HoldsWith p (fun js => js .journal = content ∧ js draft = .holds j') w) :
    (moveJournal draft .journal).Safe (lockRules start p)
      (fun moved w => HoldsWith p (fun js => js .journal = if moved = true then .holds j' else content) w) w := by
  refine holder_atomic h fun w' c hchronicle hjs => ?_
  split
  · have hjournal := (moved_journal w' hdraft).trans hjs.2
    refine ⟨⟨rfl, rfl, rfl, rfl, rfl, rfl, rfl⟩, hchronicle.replace rfl hjournal hvalid
      (by rw [hjs.1]; exact hhighest), ?_⟩
    rw [if_pos rfl]
    exact hjournal
  · refine ⟨⟨rfl, rfl, rfl, rfl, rfl, rfl, rfl⟩, hchronicle, ?_⟩
    rw [if_neg Bool.false_ne_true]
    exact hjs.1

theorem replaceJournal_safe {draft : JournalPath} (hdraft : draft ≠ .journal)
    {filter : DiagnosticJournal → DiagnosticJournal}
    (hvalid : ∀ j, j.isValid = true → (filter j).isValid = true)
    (hhighest : ∀ j, (filter j).highestSequence = j.highestSequence)
    (h : HoldsWith p MainValid w) :
    (replaceJournal draft filter).Safe (lockRules start p) (fun _ w => HoldsWith p MainValid w) w := by
  obtain ⟨hholds, j, hj, hjvalid⟩ := h
  unfold replaceJournal
  refine Safe.bind ((jqJournal_safe hdraft ⟨hholds, hj⟩).mono fun made w hw => ?_)
  have hkeep {w : DiagnosticWorld} (hw : HoldsWith p (fun js => js .journal = .holds j) w) :
      (removeJournal draft >>= fun _ => pure false : DiagnosticProg Bool).Safe (lockRules start p)
        (fun _ w => HoldsWith p MainValid w) w := by
    refine Safe.bind ((removeJournal_safe (R := fun c => c = .holds j) hdraft hw).mono fun _ w hw => ?_)
    exact Safe.pure fun t ht _ => HoldsWith.moved ⟨hw.toHoldsLock, j, hw.journals, hjvalid⟩ ht
  cases made with
  | false => exact hkeep ⟨hw.toHoldsLock, hw.journals.1⟩
  | true =>
    have hfilter := hvalid j hjvalid
    have hsame :
        (filter j).highestSequence.getD 0 = (FileContent.holds j).highest := by rw [hhighest, highest_valid hjvalid]
    refine Safe.bind ((moveJournal_safe hdraft hfilter hsame ⟨hw.toHoldsLock, hw.journals.1, hw.journals.2 rfl⟩).mono
      fun moved w hw => ?_)
    cases moved with
    | true => exact Safe.pure fun t ht _ => HoldsWith.moved ⟨hw.toHoldsLock, filter j, hw.journals, hfilter⟩ ht
    | false => exact hkeep hw

theorem enforceJournalBudget_safe (size : DiagnosticJournal → Nat) (rounds : Nat) (h : HoldsWith p MainValid w) :
    (enforceJournalBudget size rounds).Safe (lockRules start p) (fun _ w => HoldsWith p MainValid w) w := by
  have hread {α : Type} {f : DiagnosticWorld → DiagnosticReply → α} {w : DiagnosticWorld}
      (hw : HoldsWith p MainValid w) :
      (Prog.atomic fun w c => (f w c, w) : DiagnosticProg α).Safe (lockRules start p)
        (fun _ w => HoldsWith p MainValid w) w :=
    readOnly_safe fun _ _ _ hw' _ hu _ => (hw.moved hw').moved hu
  have hend {b : Bool} {w : DiagnosticWorld} (hw : HoldsWith p MainValid w) :
      (pure b : DiagnosticProg Bool).Safe (lockRules start p) (fun _ w => HoldsWith p MainValid w) w :=
    Safe.pure fun t ht _ => hw.moved ht
  induction rounds generalizing w with
  | zero => exact hend h
  | succ rounds ih =>
    unfold enforceJournalBudget
    refine Safe.bind ((replaceJournal_safe (by decide) (fun _ hj => DiagnosticJournal.evicting_valid hj _ _)
      (fun _ => rfl) h).mono
      fun replaced w hw => ?_)
    cases replaced with
    | false => exact hend hw
    | true =>
      refine Safe.bind ((hread hw).mono fun bytes w hw => ?_)
      cases bytes with
      | none => exact hend hw
      | some bytes =>
        dsimp only
        split_ifs
        · exact hend hw
        · refine Safe.bind ((hread hw).mono fun remaining w hw => ?_)
          split_ifs
          · exact hend hw
          · refine Safe.bind ((replaceJournal_safe (by decide) (fun _ hj => DiagnosticJournal.evicting_valid hj _ _)
              (fun _ => rfl) hw).mono
              fun replaced w hw => ?_)
            cases replaced with
            | false => exact hend hw
            | true => exact ih hw

theorem Chronicle.append (h : Chronicle start w) {j : DiagnosticJournal} (hvalid : j.isValid = true)
    (hj : w.journals .journal = .holds j)
    {a : AppendArguments} {observedAt : String} (hjournal : w'.journals .journal = .holds (j.append a observedAt))
    (happends : w'.appends = w.appends ++ [⟨a, observedAt, .holds j, .holds (j.append a observedAt)⟩]) :
    Chronicle start w' := by
  have hnext := DiagnosticJournal.append_valid hvalid a observedAt
  have hhighest : (FileContent.holds (j.append a observedAt)).highest = start + w.appends.length + 1 := by
    rw [highest_valid hnext, ← h.highest, hj, highest_valid hvalid]
    rfl
  refine ⟨?_, fun b hb => ?_, ?_, fun _ => ⟨_, hjournal, hnext⟩⟩
  · rw [happends, List.map_append, h.sequences, List.length_append, List.length_singleton, List.range_succ,
      List.map_append]
    refine congrArg _ (congrArg (fun n => [n]) ?_)
    exact hhighest.trans (by dsimp only; omega)
  · rw [happends] at hb
    rcases List.mem_append.mp hb with hb | hb
    · exact h.applied b hb
    · rw [List.mem_singleton.mp hb]
      exact ⟨j, rfl, rfl⟩
  · rw [hjournal, happends, hhighest, List.length_append, List.length_singleton, Nat.add_assoc]

theorem moveAppended_safe {j : DiagnosticJournal} (hvalid : j.isValid = true) {a : AppendArguments}
    {observedAt : String}
    (h : HoldsWith p (fun js => js .journal = .holds j ∧ js .append = .holds (j.append a observedAt)) w) :
    (moveAppended a observedAt).Safe (lockRules start p) (fun _ w => HoldsWith p MainValid w) w := by
  refine holder_atomic h fun w' c hchronicle hjs => ?_
  split
  · have hjournal :
      ((w'.write .journal (w'.journals .append)).write .append .absent).journals .journal =
        .holds (j.append a observedAt) :=
      (moved_journal w' (by decide)).trans hjs.2
    refine ⟨⟨rfl, rfl, rfl, rfl, rfl, rfl, rfl⟩, hchronicle.append hvalid hjs.1 hjournal ?_, _, hjournal,
      DiagnosticJournal.append_valid hvalid a observedAt⟩
    show w'.appends ++ [⟨a, observedAt, w'.journals .journal, w'.journals .append⟩] = _
    rw [hjs.1, hjs.2]
  · exact ⟨⟨rfl, rfl, rfl, rfl, rfl, rfl, rfl⟩, hchronicle, j, hjs.1, hvalid⟩

theorem appendToJournal_safe (size : DiagnosticJournal → Nat) (rounds : Nat) (a : AppendArguments)
    (h : HoldsWith p MainValid w) :
    (appendToJournal size rounds a).Safe (lockRules start p) (fun _ w => HoldsWith p MainValid w) w := by
  obtain ⟨hholds, j, hj, hvalid⟩ := h
  have hkeep {w : DiagnosticWorld} (hw : HoldsWith p MainValid w) :
      (removeJournal .append >>= fun _ => pure false : DiagnosticProg Bool).Safe (lockRules start p)
        (fun _ w => HoldsWith p MainValid w) w := by
    have hmain : HoldsWith p (fun js => ∃ j, js .journal = .holds j ∧ j.isValid = true) w := hw
    refine Safe.bind ((removeJournal_safe (R := fun c => ∃ j, c = .holds j ∧ j.isValid = true) (by decide) hmain).mono
      fun _ w hw => ?_)
    exact Safe.pure fun t ht _ => HoldsWith.moved hw ht
  unfold appendToJournal
  refine Safe.bind (readOnly_safe fun w' u c hw' _ hu _ => ?_)
  have hu : HoldsWith p (fun js => js .journal = .holds j) u := HoldsWith.moved (HoldsWith.moved ⟨hholds, hj⟩ hw') hu
  refine Safe.bind ((jqJournal_safe (by decide) hu).mono fun made w hw => ?_)
  cases made with
  | false => exact hkeep ⟨hw.toHoldsLock, j, hw.journals.1, hvalid⟩
  | true =>
    refine Safe.bind ((moveAppended_safe hvalid ⟨hw.toHoldsLock, hw.journals.1, hw.journals.2 rfl⟩).mono
      fun moved w hw => ?_)
    cases moved with
    | true => exact enforceJournalBudget_safe size rounds hw
    | false => exact hkeep hw

theorem writeEmptyJournal_safe {content : FileContent DiagnosticJournal}
    (hinvalid : content.value.any (·.isValid) = false)
    (h : HoldsWith p (fun js => js .journal = content) w) :
    writeEmptyJournal.Safe (lockRules start p) (fun written w => HoldsWith p (fun js => written = true →
      MainValid js) w) w := by
  have hkeep {w : DiagnosticWorld} (hw : HoldsWith p (fun js => js .journal = content) w) :
      (removeJournal .temporary >>= fun _ => pure false : DiagnosticProg Bool).Safe (lockRules start p)
        (fun written w => HoldsWith p (fun js => written = true → MainValid js) w) w := by
    refine Safe.bind ((removeJournal_safe (R := fun c => c = content) (by decide) hw).mono fun _ w hw => ?_)
    exact Safe.pure fun t ht _ => HoldsWith.moved ⟨hw.toHoldsLock, fun h => absurd h Bool.false_ne_true⟩ ht
  unfold writeEmptyJournal
  refine Safe.bind ((holder_atomic (Q := fun written js => js .journal = content ∧
    (written = true → js .temporary = .holds DiagnosticJournal.reset)) h fun w' c hchronicle hjs => ?_).mono
      fun written w hw => ?_)
  · have hmain (c : FileContent DiagnosticJournal) : (w'.write .temporary c).journals .journal = content :=
      (write_of_ne w' c (by decide)).trans hjs
    split
    · exact ⟨.write _ _ _, hchronicle.write (by decide) _, hmain _, fun _ => write_self w' _ _⟩
    · exact ⟨.write _ _ _, hchronicle.write (by decide) _, hmain _, fun h => absurd h Bool.false_ne_true⟩
  · cases written with
    | false => exact hkeep ⟨hw.toHoldsLock, hw.journals.1⟩
    | true =>
      have hhighest : DiagnosticJournal.reset.highestSequence.getD 0 = content.highest :=
        (highest_invalid hinvalid).symm
      refine Safe.bind ((moveJournal_safe (by decide) (by decide) hhighest
        ⟨hw.toHoldsLock, hw.journals.1, hw.journals.2 rfl⟩).mono
        fun moved w hw => ?_)
      cases moved with
      | true => exact Safe.pure fun t ht _ => HoldsWith.moved ⟨hw.toHoldsLock, fun _ => ⟨_, hw.journals, by decide⟩⟩ ht
      | false => exact hkeep hw

theorem diagnosticAppendJournalEvent_safe (size : DiagnosticJournal → Nat) (rounds : Nat) (a : AppendArguments)
    (h : HoldsLock p w) :
    (diagnosticAppendJournalEvent size rounds a).Safe (lockRules start p) (fun _ w => HoldsLock p w) w := by
  unfold diagnosticAppendJournalEvent
  refine Safe.bind (readOnly_safe fun w' u _ hw' _ hu _ => ?_)
  have hcontent : u.journals = w'.journals := (hu.held (h.moved hw').holding).2.1
  have hholds := (h.moved hw').moved hu
  split
  · next hvalid =>
    refine (appendToJournal_safe size rounds a ⟨hholds, ?_⟩).mono fun _ _ hw => hw.toHoldsLock
    rw [hcontent]
    exact mainValid_of_any hvalid
  · next hvalid =>
    have hinvalid := Bool.eq_false_iff.mpr hvalid
    refine Safe.bind ((writeEmptyJournal_safe hinvalid ⟨hholds, congrFun hcontent _⟩).mono fun written w hw => ?_)
    cases written with
    | true =>
      exact (appendToJournal_safe size rounds a ⟨hw.toHoldsLock, hw.journals rfl⟩).mono fun _ _ hw => hw.toHoldsLock
    | false => exact Safe.pure fun t ht _ => hw.toHoldsLock.moved ht

/-! ### Health files -/

theorem health_atomic {α : Type} {f : DiagnosticWorld → DiagnosticReply → α × DiagnosticWorld} (h : HoldsLock p w)
    (hf : ∀ w c, ∃ healths, (f w c).2 = { w with healths }) :
    (Prog.atomic f).Safe (lockRules start p) (fun _ w => HoldsLock p w) w := by
  refine (holder_atomic (P := fun _ => True) (Q := fun _ _ => True) ⟨h, trivial⟩ fun w c hchronicle _ => ?_).mono
    fun _ _ hw => hw.toHoldsLock
  obtain ⟨healths, heq⟩ := hf w c
  rw [heq]
  exact ⟨⟨rfl, rfl, rfl, rfl, rfl, rfl, rfl⟩, hchronicle.of_eq rfl rfl, trivial⟩

theorem holds_pure {α : Type} {a : α} (h : HoldsLock p w) :
    (pure a : DiagnosticProg α).Safe (lockRules start p) (fun _ w => HoldsLock p w) w :=
  Safe.pure fun _ ht _ => h.moved ht

theorem holds_read {α : Type} {f : DiagnosticWorld → DiagnosticReply → α} (h : HoldsLock p w) :
    (Prog.atomic fun w c => (f w c, w) : DiagnosticProg α).Safe (lockRules start p) (fun _ w => HoldsLock p w) w :=
  readOnly_safe fun _ _ _ hw' _ hu _ => (h.moved hw').moved hu

theorem writeHealthFile_safe (key : HealthKey) (make : DiagnosticWorld → DiagnosticReply → Option SubsystemHealth)
    (h : HoldsLock p w) :
    (writeHealthFile key make).Safe (lockRules start p) (fun _ w => HoldsLock p w) w := by
  have hkeep {w : DiagnosticWorld} (hw : HoldsLock p w) :
      (removeHealth (.temporary key) >>= fun _ => pure false : DiagnosticProg Bool).Safe (lockRules start p)
        (fun _ w => HoldsLock p w) w :=
    Safe.bind ((health_atomic hw fun _ _ => ⟨_, rfl⟩).mono fun _ _ hw => holds_pure hw)
  unfold writeHealthFile
  refine Safe.bind ((health_atomic h fun w c => ?_).mono fun written w hw => ?_)
  · split
    · exact ⟨_, rfl⟩
    · exact ⟨_, rfl⟩
  cases written with
  | false => exact hkeep hw
  | true =>
    refine Safe.bind ((health_atomic hw fun w c => ?_).mono fun moved w hw => ?_)
    · split
      · exact ⟨_, rfl⟩
      · exact ⟨_, rfl⟩
    cases moved with
    | true => exact holds_pure hw
    | false => exact hkeep hw

theorem healthBefore_safe (key : HealthKey) (h : HoldsLock p w) :
    (healthBefore key).Safe (lockRules start p) (fun _ w => HoldsLock p w) w := by
  have hready : (ensureHealth key).Safe (lockRules start p) (fun _ w => HoldsLock p w) w := by
    unfold ensureHealth
    refine Safe.bind ((holds_read h).mono fun valid w hw => ?_)
    cases valid with
    | true => exact holds_pure hw
    | false => exact writeHealthFile_safe key _ hw
  unfold healthBefore
  refine Safe.bind (hready.mono fun ready w hw => ?_)
  cases ready with
  | false => exact holds_pure hw
  | true =>
    refine Safe.bind ((holds_read hw).mono fun failures w hw => ?_)
    exact Safe.bind ((holds_read hw).mono fun state w hw => holds_pure hw)

/-! ### The call -/

theorem recordLocked_safe (size : DiagnosticJournal → Nat) (rounds : Nat) (a : EventArguments) (h : HoldsLock p w) :
    (recordLocked size rounds a).Safe (lockRules start p) (fun _ w => HoldsLock p w) w := by
  unfold recordLocked
  split
  · exact holds_pure h
  · exact diagnosticAppendJournalEvent_safe size rounds _ h
  · exact diagnosticAppendJournalEvent_safe size rounds _ h
  · next key _ _ =>
    unfold recordWithHealth
    refine Safe.bind ((healthBefore_safe key h).mono fun before w hw => ?_)
    cases before with
    | none => exact Safe.bind ((diagnosticAppendJournalEvent_safe size rounds _ hw).mono fun _ w hw => holds_pure hw)
    | some before =>
      refine Safe.bind ((writeHealthFile_safe key _ hw).mono fun updated w hw => ?_)
      split_ifs
      · exact Safe.bind ((diagnosticAppendJournalEvent_safe size rounds _ hw).mono fun _ w hw => holds_pure hw)
      · exact holds_pure hw

theorem recordManagerEvent_safe (size : DiagnosticJournal → Nat) (rounds : Nat) (a : EventArguments) (h : Outside p w) :
    (recordManagerEvent size rounds p a).Safe (lockRules start p) (fun _ w => Outside p w) w := by
  have hend {b : Bool} {w : DiagnosticWorld} (hw : Outside p w) :
      (pure b : DiagnosticProg Bool).Safe (lockRules start p) (fun _ w => Outside p w) w :=
        Safe.pure fun _ ht _ => hw.moved ht
  unfold recordManagerEvent
  split_ifs
  · exact hend h
  · refine Safe.bind ((diagnosticAcquireLock_safe rounds 0 h).mono fun acquired w hw => ?_)
    cases acquired with
    | false => exact hend hw
    | true =>
      refine Safe.bind ((recordLocked_safe size rounds a.normalized hw).mono fun recorded w hw => ?_)
      exact Safe.bind ((diagnosticReleaseLock_safe hw).mono fun _ w hw => hend hw)

end

/-! ## Runs -/

namespace DiagnosticSystem
variable {size : DiagnosticJournal → Nat} {start : Nat} {s : DiagnosticSystem}

/-- The lock that a process removes as a stale one is the very directory whose creation time it has read, and no
    process holds the lock for as long as the timeout. -/
def Calm (s : DiagnosticSystem) : DiagnosticAction → Prop
  | .call _ _ _ => True
  | .command process _ => process ∈ s.world.removing → ∀ d, s.world.lock = some d →
      s.world.looked.lookup process = some d.stamp
  | .tick seconds => ∀ p h, s.world.holding.lookup p = some h → s.world.now + seconds < h.since + lockTimeoutSeconds

/-- Every process is somewhere in a call that is safe, or in none. -/
structure Inv (start : Nat) (s : DiagnosticSystem) : Prop where
  sound : Sound start s.world
  running :
    ∀ p program, s.processes.lookup p = some program → program.Safe (lockRules start p) (fun _ w => Outside p w) s.world
  idle : ∀ p, s.processes.lookup p = none → Outside p s.world

theorem step_inv (action : DiagnosticAction) (h : Inv start s) (hcalm : Calm s action) :
    Inv start (s.step size action).1 := by
  cases action with
  | call process arguments rounds =>
    unfold step
    dsimp only
    split
    · next hended =>
      have houtside : Outside process s.world := by
        cases hprocess : s.processes.lookup process with
        | none => exact h.idle process hprocess
        | some program =>
          rw [hprocess] at hended
          cases program with
          | done b => exact h.running process _ hprocess s.world (Others.refl _ _) h.sound
          | step act next => cases hended
      refine ⟨h.sound, fun p program hp => ?_, fun p hp => ?_⟩
      · rcases Map.lookup_of_insert hp with ⟨rfl, rfl⟩ | ⟨-, hp⟩
        · exact recordManagerEvent_safe size rounds arguments houtside
        · exact h.running p program hp
      · have hp : (s.processes.insert process _).lookup p = none := hp
        rw [Map.lookup_insert_ite] at hp
        split_ifs at hp
        exact h.idle p hp
    · exact h
  | command process reply =>
    unfold step
    dsimp only
    split
    · exact h
    · next program hprogram =>
      obtain ⟨hsound, hguar, hrest⟩ :=
        (h.running process program hprogram).advance h.sound (c := reply) hcalm fun q _ => Others.refl q s.world
      refine ⟨hsound, fun p rest hp => ?_, fun p hp => ?_⟩
      · rcases Map.lookup_of_insert hp with ⟨rfl, rfl⟩ | ⟨hne, hp⟩
        · exact hrest
        · exact (h.running p rest hp).moved (hguar p hne)
      · have hp : (s.processes.insert process _).lookup p = none := hp
        rw [Map.lookup_insert_ite] at hp
        split_ifs at hp with hne
        exact (h.idle p hp).moved (hguar p hne)
  | tick seconds =>
    have hothers (p : Nat) : Others p s.world { s.world with now := s.world.now + seconds } :=
      ⟨Nat.le_add_right _ _, le_rfl, fun d hd => Or.inr ⟨d, hd, rfl, fun _ h => h⟩, rfl, rfl, Iff.rfl, Iff.rfl,
        fun _ => ⟨rfl, rfl, rfl, rfl⟩⟩
    refine ⟨⟨⟨h.sound.held, h.sound.one, h.sound.inside, h.sound.stamp, h.sound.created, fun p held hp => ?_, hcalm⟩,
      ⟨h.sound.chronicle.sequences, h.sound.chronicle.applied, h.sound.chronicle.highest, h.sound.chronicle.valid⟩⟩,
      fun p program hp => (h.running p program hp).moved (hothers p), fun p hp => (h.idle p hp).moved (hothers p)⟩
    exact (h.sound.since p held hp).trans (Nat.le_add_right _ _)

/-- A directory before any process uses it, with a lock that an earlier manager may have left behind. -/
def fresh (now : Nat) (leftover : Option CreatedFile) (journals : Journals)
    (healths : HealthPath → FileContent SubsystemHealth) :
    DiagnosticSystem :=
  { world := { now, lock := leftover.map (⟨·, 0⟩), journals, healths } }

theorem fresh_inv (now : Nat) (leftover : Option CreatedFile) (journals : Journals)
    (healths : HealthPath → FileContent SubsystemHealth) :
    Inv (journals .journal).highest (fresh now leftover journals healths) := by
  have hnone (p : Nat) (held : Holding) : (∅ : Map Nat Holding).lookup p ≠ some held := by
    rw [Finmap.lookup_empty]
    exact (Option.some_ne_none held).symm
  refine ⟨⟨⟨fun p held hp => absurd hp (hnone p held), fun p q hp => ?_, fun p hp => absurd hp (Finset.notMem_empty p),
    fun d hd => ?_, fun _ _ p held _ _ hp => absurd hp (hnone p held), fun p held hp => absurd hp (hnone p held),
    fun p held hp => absurd hp (hnone p held)⟩, ⟨rfl, fun _ h => absurd h List.not_mem_nil, rfl,
      fun h => absurd rfl h⟩⟩,
    fun p program hp => ?_, fun p _ => ⟨Finmap.lookup_empty _, Finset.notMem_empty p⟩⟩
  · obtain ⟨held, hheld⟩ := Option.isSome_iff_exists.mp hp
    exact absurd hheld (hnone p held)
  · obtain ⟨created, -, rfl⟩ := Option.map_eq_some_iff.mp hd
    exact Nat.zero_le _
  · have hp : (∅ : Map Nat (DiagnosticProg Bool)).lookup p = some program := hp
    rw [Finmap.lookup_empty] at hp
    cases hp

end DiagnosticSystem

/-- In every run in which a stale lock is removed only by a process that has read the creation time of that very lock,
    and in which every process gives the lock back in time, at most one process at a time is between acquiring and
    releasing it, every event that is appended gets the sequence after the highest one, and it is appended to the
    journal that it replaces. -/
theorem diagnostic_lock_excludes (size : DiagnosticJournal → Nat) (now : Nat) (leftover : Option CreatedFile)
    (journals : Journals)
    (healths : HealthPath → FileContent SubsystemHealth) (actions : List DiagnosticAction)
    (hcalm : ∀ t ∈ transitions (DiagnosticSystem.step size) (.fresh now leftover journals healths) actions,
      t.before.Calm t.event) :
    let w := (exec (DiagnosticSystem.step size) (.fresh now leftover journals healths) actions).world
    (∀ p ∈ w.inside, ∀ q ∈ w.inside, p = q) ∧
      w.appends.map Appended.sequence = (List.range w.appends.length).map ((journals .journal).highest + 1 + ·) ∧
      (∀ a ∈ w.appends, ∃ j, a.before = .holds j ∧ a.after = .holds (j.append a.arguments a.observedAt)) ∧
      (w.journals .journal).highest = (journals .journal).highest + w.appends.length := by
  have hinv : DiagnosticSystem.Inv (journals .journal).highest
      (exec (DiagnosticSystem.step size) (.fresh now leftover journals healths) actions) :=
    exec_induction_of (DiagnosticSystem.fresh_inv now leftover journals healths)
      (fun _ action h hcalm => DiagnosticSystem.step_inv action h hcalm) hcalm
  have hsound := hinv.sound
  exact ⟨fun p hp q hq => hsound.one p q (hsound.inside p hp) (hsound.inside q hq), hsound.chronicle.sequences,
    hsound.chronicle.applied, hsound.chronicle.highest⟩

section Sample

/-- An event that is journaled without a health file. -/
def sampleEvent (instanceID : String) : EventArguments :=
  { instanceID, subsystem := .recovery, operation := .managerStart, outcome := .succeeded, reason := .none }

/-- As many commands of a process, all of which succeed. -/
def commands (process count : Nat) : List DiagnosticAction := List.replicate count (.command process {})

/-- A manager that is gone has left its lock. The first process finds it stale, removes it and makes its own; the second
    finds that one taken, sees that it is not stale, waits, and has its turn when the first is done. -/
def waitingRun : List DiagnosticAction :=
  [.call 0 (sampleEvent "a") 3, .call 1 (sampleEvent "b") 3] ++ commands 0 7 ++ commands 1 4 ++ commands 0 10 ++
    commands 1 10

def leftBehind : DiagnosticSystem := .fresh 1000 (some (.time 990)) (fun _ => .absent) fun _ => .absent

/-- A check of one action: no time passes, and the lock that is removed is the one that was looked at. -/
def DiagnosticSystem.quiet (s : DiagnosticSystem) : DiagnosticAction → Bool
  | .call _ _ _ => true
  | .command process _ =>
    process ∉ s.world.removing ∨ s.world.looked.lookup process = s.world.lock.map LockDirectory.stamp
  | .tick _ => false

theorem DiagnosticSystem.calm_of_quiet {s : DiagnosticSystem} {action : DiagnosticAction} (h : s.quiet action = true) :
    s.Calm action := by
  cases action with
  | call process arguments rounds => trivial
  | command process reply =>
    intro hp d hd
    rcases of_decide_eq_true h with hnot | hlooked
    · exact absurd hp hnot
    · rw [hlooked, hd, Option.map_some]
  | tick seconds => cases h

/-- The stale lock is removed, and both events are appended, with the sequences 1 and 2. -/
theorem diagnostic_lock_excludes_waiting :
    ((transitions (DiagnosticSystem.step fun _ => 0) leftBehind waitingRun).any fun t =>
        0 ∈ t.before.world.removing ∧ t.before.world.lock.isSome ∧ t.after.world.lock = none) = true ∧
      ((exec (DiagnosticSystem.step fun _ => 0) leftBehind waitingRun).world.appends.map
        fun a => a.arguments.event.instanceID) = ["a", "b"] ∧
      (exec (DiagnosticSystem.step fun _ => 0) leftBehind waitingRun).world.appends.map Appended.sequence = [1, 2] := by
  have hquiet : ∀ t ∈ transitions (DiagnosticSystem.step fun _ => 0) leftBehind waitingRun,
      t.before.quiet t.event = true := by
    decide +kernel
  have hboth : ((exec (DiagnosticSystem.step fun _ => 0) leftBehind waitingRun).world.appends.map
      fun a => a.arguments.event.instanceID) = ["a", "b"] := by
    decide +kernel
  refine ⟨by decide +kernel, hboth, ?_⟩
  have hsequences := (diagnostic_lock_excludes (fun _ => 0) 1000 (some (.time 990)) (fun _ => .absent)
    (fun _ => .absent) waitingRun fun t ht => DiagnosticSystem.calm_of_quiet (hquiet t ht)).2.1
  have hlength := congrArg List.length hboth
  rw [List.length_map] at hlength
  unfold leftBehind at hlength ⊢
  rw [hsequences, hlength]
  decide

def emptyJournal :
    DiagnosticJournal := { status := .current, droppedEvents := 0, rejectedEvents := 0, unclassifiedEvents := 0 }

/-- The second process looks at the lock before the first one has written when it was made. -/
def overtakenRun : List DiagnosticAction :=
  [.call 0 (sampleEvent "a") 3, .call 1 (sampleEvent "b") 3] ++ commands 0 1 ++ commands 1 6 ++ commands 0 1

/-- It takes the lock for one that was left behind, although no second has passed since it was made. Both processes
    are then inside, and the event of the first one, whose append succeeds, is not in the journal. -/
theorem fresh_lock_removed :
    let start := DiagnosticSystem.fresh 1000 none (Function.update (fun _ => .absent) .journal (.holds emptyJournal))
      fun _ => .absent
    (exec (DiagnosticSystem.step fun _ => 0) start overtakenRun).world.inside = {0, 1} ∧
      ((exec (DiagnosticSystem.step fun _ => 0) start (overtakenRun ++ commands 0 3 ++ commands 1 3 ++
        commands 0 1)).world.appends.map
        fun a => a.arguments.event.instanceID) = ["a"] ∧
      (((exec (DiagnosticSystem.step fun _ => 0) start (overtakenRun ++ commands 0 3 ++ commands 1 3 ++
        commands 0 1)).world.journals
        .journal).value.map fun j => j.events.map (·.managerInstanceID)) = some ["b"] := by
  decide +kernel

end Sample
end PitCrew.Shell
