import PitCrew.Shell.Slots

/-! # Queued releases and newer leases

The release queue names a slot and not a lease. A release that stems from a queue entry frees no lease that
was acquired later as long as no lease is handed out while an entry of the slot is queued, or is on its way
through the main loop; `run_slot` does not see to that. -/

namespace PitCrew.Shell
open Base Prog

/-! ## What a step can do -/

/-- What any command does: a lease is an old one or is handed out by a command that does not touch the queue,
    an entry is an old one or written now, the main loop finds an entry in the queue, and a release stems from
    the entry that was found. -/
structure Moves (s t : World) : Prop where
  clock : s.clock ≤ t.clock
  leases : ∀ k a, t.acquired k = some a →
    s.acquired k = some a ∨ (a ≤ t.clock ∧ t.queue = s.queue ∧ t.found = s.found)
  queue : ∀ k e, t.queue.lookup k = some e → s.queue.lookup k = some e ∨ e = s.clock
  found : ∀ k e, t.found = some (k, e) → s.found = some (k, e) ∨ s.queue.lookup k = some e
  releases : ∀ r ∈ t.releases, r ∈ s.releases ∨
    (r.acquired = s.acquired r.slot ∧ ∀ e, r.entry = some e → s.found = some (r.slot, e))

/-- A command of anyone but the main loop's retry. -/
structure Quiet (s t : World) : Prop extends Moves s t where
  same : t.found = s.found

section Steps
variable {s t : World} {slot : String}

theorem Moves.of_eq (hclock : t.clock = s.clock) (hleases : t.leases = s.leases) (hqueue : t.queue = s.queue)
    (hfound : t.found = s.found) (hreleases : t.releases = s.releases) : Moves s t where
  clock := le_of_eq hclock.symm
  leases k a h := Or.inl (by rwa [World.acquired, hleases] at h)
  queue k e h := Or.inl (hqueue ▸ h)
  found k e h := Or.inl (hfound ▸ h)
  releases r h := Or.inl (hreleases ▸ h)

theorem Quiet.of_eq (hclock : t.clock = s.clock) (hleases : t.leases = s.leases) (hqueue : t.queue = s.queue)
    (hfound : t.found = s.found) (hreleases : t.releases = s.releases) : Quiet s t :=
  ⟨.of_eq hclock hleases hqueue hfound hreleases, hfound⟩

theorem Moves.refl (s : World) : Moves s s := .of_eq rfl rfl rfl rfl rfl

theorem Quiet.refl (s : World) : Quiet s s := ⟨.refl s, rfl⟩

theorem Quiet.of_leases {leases : Map String SlotLease} {clock : Nat} (hclock : s.clock ≤ clock)
    (h : ∀ k l, leases.lookup k = some l → s.acquired k = some l.acquired ∨ l.acquired ≤ clock) :
    Quiet s { s with leases, clock } where
  clock := hclock
  leases k a ha := by
    obtain ⟨l, hl, rfl⟩ := Option.map_eq_some_iff.mp ha
    exact (h k l hl).imp_right fun hle => ⟨hle, rfl, rfl⟩
  queue _ _ h := Or.inl h
  found _ _ h := Or.inl h
  releases _ h := Or.inl h
  same := rfl

theorem quiet_handOut (lease : SlotLease) : Quiet s (s.handOut slot lease) := by
  refine .of_leases (Nat.le_succ _) fun k l hl => ?_
  rw [Map.lookup_insert_ite] at hl
  split_ifs at hl
  · obtain rfl := Option.some.inj hl
    exact Or.inr (le_refl _)
  · exact Or.inl (by rw [World.acquired, hl]; rfl)

theorem quiet_update {lease : SlotLease} (hlease : s.leases.lookup slot = some lease) {next : SlotLease}
    (hnext : next.acquired = lease.acquired) : Quiet s { s with leases := s.leases.insert slot next } := by
  refine .of_leases (le_refl _) fun k l hl => Or.inl ?_
  rw [Map.lookup_insert_ite] at hl
  split_ifs at hl with hk
  · obtain rfl := Option.some.inj hl
    rw [World.acquired, hk, hlease, hnext]
    rfl
  · rw [World.acquired, hl]
    rfl

theorem acquired_of_erase {k : String} {a : Nat} (h : { s with leases := s.leases.erase slot }.acquired k = some a) :
    s.acquired k = some a := by
  obtain ⟨l, hl, rfl⟩ := Option.map_eq_some_iff.mp h
  dsimp only at hl
  rw [Map.lookup_erase_ite] at hl
  split_ifs at hl
  rw [World.acquired, hl]
  rfl

theorem quiet_erase : Quiet s { s with leases := s.leases.erase slot } :=
  .of_leases (le_refl _) fun k l hl => Or.inl (acquired_of_erase (by rw [World.acquired, hl]; rfl))

theorem moves_free {entry : Option Nat} (h : ∀ e, entry = some e → s.found = some (slot, e)) :
    Moves s (s.free slot entry) where
  clock := le_refl _
  leases k a ha := Or.inl (acquired_of_erase ha)
  queue _ _ h := Or.inl h
  found _ _ h := Or.inl h
  releases r hr := by
    rcases List.mem_cons.mp hr with rfl | hr
    · exact Or.inr ⟨rfl, h⟩
    · exact Or.inl hr

theorem quiet_free : Quiet s (s.free slot none) :=
  ⟨moves_free fun _ h => absurd h.symm (Option.some_ne_none _), rfl⟩

theorem quiet_queue : Quiet s { s with queue := s.queue.insert slot s.clock } where
  clock := le_refl _
  leases _ _ h := Or.inl h
  queue k e h := by
    dsimp only at h
    rw [Map.lookup_insert_ite] at h
    split_ifs at h
    · exact Or.inr (Option.some.inj h).symm
    · exact Or.inl h
  found _ _ h := Or.inl h
  releases _ h := Or.inl h
  same := rfl

theorem quiet_unqueue : Quiet s { s with queue := s.queue.erase slot } where
  clock := le_refl _
  leases _ _ h := Or.inl h
  queue k e h := by
    dsimp only at h
    rw [Map.lookup_erase_ite] at h
    split_ifs at h
    exact Or.inl h
  found _ _ h := Or.inl h
  releases _ h := Or.inl h
  same := rfl

end Steps

/-! ## Supervisors -/

/-- A supervisor counts on nothing and does nothing to the retry of the main loop. -/
def supervisorRules : Rules World Reply where
  inv _ := True
  rely _ _ := True
  guar := Quiet
  may _ _ := True
  refl _ := trivial
  trans _ _ := trivial

abbrev Supervised {α : Type} (p : ShellProg α) : Prop := p.Keeps supervisorRules fun _ => True

section Supervisors
variable {slot id name : String}

theorem supervised_atomic {α : Type} {f : World → Reply → α × World} (h : ∀ s c, Quiet s (f s c).2) :
    Supervised (Prog.atomic f) :=
  Keeps.atomic fun s c _ _ => ⟨trivial, h s c, trivial⟩

theorem supervised_cli {op : World → Reply → CliStatus × World} (h : ∀ s c, Quiet s (op s c).2) :
    Supervised (cli op) := by
  refine supervised_atomic fun s c => ?_
  cases c.outcome with
  | failed => exact .refl s
  | done | unsure => exact h s c

theorem cliAcquire_supervised : Supervised (cliAcquire slot) := by
  refine supervised_cli fun s c => ?_
  split_ifs
  · split
    · exact quiet_handOut _
    · exact quiet_handOut _
  · exact .refl s

theorem cliBindRegistration_supervised : Supervised (cliBindRegistration slot name) := by
  refine supervised_cli fun s c => ?_
  split
  · exact .refl s
  · next lease hlease =>
    split_ifs
    · exact quiet_update hlease rfl
    · exact .refl s

theorem cliActivate_supervised : Supervised (cliActivate slot) := by
  refine supervised_cli fun s c => ?_
  split
  · exact .refl s
  · next lease hlease => exact quiet_update hlease rfl

theorem cliAdopt_supervised : Supervised (cliAdopt slot) := by
  refine supervised_cli fun s c => ?_
  split_ifs
  · split
    · exact quiet_handOut _
    · exact quiet_handOut _
  · exact .refl s

theorem cliRelease_supervised : Supervised (cliRelease slot none) := by
  refine supervised_cli fun s c => ?_
  split
  · exact .refl s
  · exact quiet_free

theorem cliReconcile_supervised : Supervised (cliReconcile slot) := by
  refine supervised_cli fun s c => ?_
  split
  · exact .refl s
  · exact quiet_erase

theorem dockerCreate_supervised : Supervised (dockerCreate slot name) := by
  refine supervised_atomic fun s c => ?_
  split_ifs
  · exact .refl s
  · cases c.outcome with
    | failed => exact .refl s
    | done | unsure => exact .of_eq rfl rfl rfl rfl rfl

theorem dockerStart_supervised : Supervised (dockerStart id) := by
  refine supervised_atomic fun s c => ?_
  split
  · exact .refl s
  · cases c.outcome with
    | failed => exact .refl s
    | done | unsure => exact .of_eq rfl rfl rfl rfl rfl

theorem dockerRemove_supervised : Supervised (dockerRemove id) := by
  refine supervised_atomic fun s c => ?_
  cases c.outcome with
  | failed => exact .refl s
  | done | unsure => exact .of_eq rfl rfl rfl rfl rfl

theorem dockerInspect_supervised : Supervised (dockerInspect id) := supervised_atomic fun s _ => .refl s

theorem probe_supervised : Supervised (probeMonitoredContainer id) := by
  refine supervised_atomic fun s c => ?_
  split_ifs
  · exact .refl s
  · exact .refl s
  · exact .refl s

theorem draining_supervised : Supervised (draining slot) := supervised_atomic fun s _ => .refl s

theorem setContainerID_supervised : Supervised (setContainerID slot id) :=
  supervised_atomic fun _ _ => .of_eq rfl rfl rfl rfl rfl

theorem readContainerID_supervised : Supervised (readContainerID slot) := supervised_atomic fun s _ => .refl s

theorem clearContainerID_supervised : Supervised (clearContainerID slot) :=
  supervised_atomic fun _ _ => .of_eq rfl rfl rfl rfl rfl

theorem removePending_supervised : Supervised (removePending slot) := supervised_atomic fun _ _ => quiet_unqueue

theorem queueRelease_supervised : Supervised (hostAdmissionQueueRelease slot) := by
  refine supervised_atomic fun s c => ?_
  cases c.outcome with
  | failed => exact .refl s
  | done | unsure => exact quiet_queue

theorem supervised_pure {α : Type} (a : α) : Supervised (pure a : ShellProg α) := Keeps.pure trivial

theorem release_supervised : Supervised (hostAdmissionRelease slot) := by
  refine Keeps.seq cliRelease_supervised fun status => ?_
  split
  · exact supervised_pure false
  · exact Keeps.seq removePending_supervised fun _ => supervised_pure true

theorem releaseOrQueue_supervised : Supervised (hostAdmissionReleaseOrQueue slot) :=
  Keeps.cond release_supervised (supervised_pure ()) queueRelease_supervised

theorem reconcileAbsent_supervised : Supervised (hostAdmissionReconcileAbsent slot) :=
  Keeps.seq cliReconcile_supervised fun _ => supervised_pure ()

theorem finalize_supervised : Supervised (finalizeStoppedContainerSlot slot) :=
  Keeps.seq queueRelease_supervised fun _ => clearContainerID_supervised

theorem monitor_supervised (rounds : Nat) : Supervised (monitorRunnerContainer slot id rounds) := by
  induction rounds with
  | zero => exact supervised_pure ()
  | succ rounds ih =>
    refine Keeps.seq probe_supervised fun probe => ?_
    cases probe with
    | gone => exact finalize_supervised
    | running | unknown => exact ih

theorem releaseLoop_supervised (rounds : Nat) : Supervised (releaseLoop slot rounds) := by
  induction rounds with
  | zero => exact supervised_pure ()
  | succ rounds ih =>
    refine Keeps.cond release_supervised (supervised_pure ()) ?_
    exact Keeps.seq queueRelease_supervised fun _ => Keeps.cond draining_supervised (supervised_pure ()) ih

theorem monitored_supervised (rounds : Nat) : Supervised (do
    monitorRunnerContainer slot id rounds
    releaseLoop slot rounds) :=
  Keeps.seq (monitor_supervised rounds) fun _ => releaseLoop_supervised rounds

theorem activate_supervised : Supervised (hostAdmissionActivate slot) :=
  Keeps.seq cliActivate_supervised fun _ => supervised_pure _

theorem adopt_supervised : Supervised (hostAdmissionAdopt slot) :=
  Keeps.seq cliAdopt_supervised fun _ => supervised_pure _

theorem acquire_supervised : Supervised (hostAdmissionAcquire slot) :=
  Keeps.seq cliAcquire_supervised fun _ => supervised_pure _

theorem launchCreated_supervised (rounds : Nat) : Supervised (launchCreated slot id rounds) := by
  have hfailed : Supervised (do
      dockerRemove id
      hostAdmissionReleaseOrQueue slot
      hostAdmissionReleaseOrQueue slot) :=
    Keeps.seq dockerRemove_supervised fun _ => Keeps.seq releaseOrQueue_supervised fun _ => releaseOrQueue_supervised
  refine Keeps.cond activate_supervised (Keeps.cond dockerStart_supervised ?_ hfailed) hfailed
  exact Keeps.seq setContainerID_supervised fun _ => monitored_supervised rounds

theorem launch_supervised (rounds : Nat) : Supervised (launch slot rounds) := by
  refine Keeps.seq (supervised_atomic fun s _ => .refl s) fun name => ?_
  refine Keeps.seq cliBindRegistration_supervised fun status => ?_
  split
  · refine Keeps.seq dockerCreate_supervised fun created => ?_
    cases created with
    | some id => exact launchCreated_supervised rounds
    | none => exact releaseOrQueue_supervised
  · exact releaseOrQueue_supervised

theorem runSlotLoop_supervised (rounds : Nat) : Supervised (runSlotLoop slot rounds) := by
  induction rounds with
  | zero => exact supervised_pure ()
  | succ rounds ih =>
    refine Keeps.cond draining_supervised (supervised_pure ()) (Keeps.cond acquire_supervised ?_ ih)
    refine Keeps.cond draining_supervised releaseOrQueue_supervised ?_
    exact Keeps.seq (launch_supervised rounds) fun _ => ih

theorem adoptCreated_supervised (rounds : Nat) : Supervised (adoptCreated slot id name rounds) := by
  induction rounds with
  | zero => exact supervised_pure false
  | succ rounds ih =>
    refine Keeps.cond draining_supervised (supervised_pure false)
      (Keeps.cond dockerInspect_supervised ?_ (supervised_pure false))
    refine Keeps.seq cliBindRegistration_supervised fun binding => ?_
    split
    · refine Keeps.cond adopt_supervised (Keeps.seq cliBindRegistration_supervised fun confirmed => ?_) ih
      split
      · refine Keeps.cond dockerStart_supervised (supervised_pure true) ?_
        exact Keeps.seq dockerRemove_supervised fun _ => Keeps.seq releaseOrQueue_supervised fun _ =>
          supervised_pure false
      · exact ih
    · split
      · exact Keeps.seq dockerRemove_supervised fun _ => Keeps.seq reconcileAbsent_supervised fun _ =>
          supervised_pure false
      · exact ih

theorem adoptRunning_supervised (rounds : Nat) : Supervised (adoptRunning slot id name rounds) := by
  induction rounds with
  | zero => exact supervised_pure ()
  | succ rounds ih =>
    refine Keeps.seq probe_supervised fun probe => ?_
    cases probe with
    | gone | unknown => exact supervised_pure ()
    | running =>
      refine Keeps.seq cliBindRegistration_supervised fun binding => ?_
      split
      · exact Keeps.cond adopt_supervised (supervised_pure ()) ih
      · split
        · refine Keeps.cond adopt_supervised (Keeps.seq cliBindRegistration_supervised fun confirmed => ?_) ih
          split
          · exact supervised_pure ()
          · exact ih
        · exact ih

theorem runRecoveredSlot_supervised (status : WorkerStatus) (rounds : Nat) :
    Supervised (runRecoveredSlot slot id name status rounds) := by
  have hrecovered : Supervised (superviseRecovered slot id name status rounds) := by
    refine Keeps.seq setContainerID_supervised fun _ => Keeps.cond dockerInspect_supervised ?_ (supervised_pure ())
    cases status with
    | running =>
      refine Keeps.bind (Keeps.par (fun _ _ _ => trivial) (adoptRunning_supervised rounds) (monitor_supervised rounds))
        fun _ _ => releaseLoop_supervised rounds
    | created =>
      refine Keeps.cond (adoptCreated_supervised rounds) (monitored_supervised rounds) ?_
      exact Keeps.seq dockerRemove_supervised fun _ => reconcileAbsent_supervised
  refine Keeps.seq hrecovered fun _ => ?_
  exact Keeps.cond draining_supervised (supervised_pure ()) (runSlotLoop_supervised rounds)

theorem reconcileStalled_supervised : Supervised (reconcileStalledContainerMonitor slot) := by
  refine Keeps.seq readContainerID_supervised fun read => ?_
  cases read with
  | none => exact supervised_pure ()
  | some id =>
    refine Keeps.seq probe_supervised fun probe => ?_
    cases probe with
    | running | unknown => exact supervised_pure ()
    | gone =>
      refine Keeps.seq readContainerID_supervised fun current => ?_
      split
      · refine Keeps.seq (supervised_atomic fun s _ => .refl s) fun settled => ?_
        split
        · exact supervised_pure ()
        · refine Keeps.seq readContainerID_supervised fun final => ?_
          split
          · exact finalize_supervised
          · exact supervised_pure ()
      · exact supervised_pure ()

end Supervisors

/-! ## The main loop -/

def mainRules : Rules World Reply where
  inv _ := True
  rely s t := t.found = s.found
  guar := Moves
  may _ _ := True
  refl _ := rfl
  trans hst htu := htu.trans hst

abbrev MainSafe {α : Type} (p : ShellProg α) : Prop := p.Keeps mainRules fun _ => True

theorem Supervised.mainSafe {α : Type} {p : ShellProg α} (h : Supervised p) : MainSafe p :=
  fun s => (h s).weaken (fun _ => Iff.rfl) (fun _ => trivial) (fun hq => hq.toMoves) fun hc => hc

theorem moves_found {s : World} {slot : String} {entry : Nat} (h : s.queue.lookup slot = some entry) :
    Moves s { s with found := some (slot, entry) } where
  clock := le_refl _
  leases _ _ h := Or.inl h
  queue _ _ h := Or.inl h
  found k e hke := by
    obtain ⟨rfl, rfl⟩ := Prod.mk.inj (Option.some.inj hke)
    exact Or.inr h
  releases _ h := Or.inl h

theorem moves_unfound {s : World} : Moves s { s with found := none } where
  clock := le_refl _
  leases _ _ h := Or.inl h
  queue _ _ h := Or.inl h
  found _ _ h := by cases h
  releases _ h := Or.inl h

theorem moves_released {s : World} {slot : String} {entry : Nat} (h : s.found = some (slot, entry)) :
    Moves s { s.free slot (some entry) with found := none } where
  clock := le_refl _
  leases k a ha := Or.inl (acquired_of_erase ha)
  queue _ _ h := Or.inl h
  found _ _ h := by cases h
  releases r hr := (moves_free fun _ he => Option.some.inj he ▸ h).releases r hr

theorem find_cases (s : World) (slot : String) : s.find slot = (none, s) ∨
    ∃ entry, s.queue.lookup slot = some entry ∧ s.find slot = (some entry, { s with found := some (slot, entry) }) := by
  unfold World.find
  cases hqueue : s.queue.lookup slot with
  | none => exact Or.inl rfl
  | some entry => exact Or.inr ⟨entry, rfl, rfl⟩

theorem moves_send {s : World} {slot : String} {entry : Nat} (h : s.found = some (slot, entry)) (outcome : Outcome) :
    Moves s (s.send slot entry outcome).2 := by
  unfold World.send
  cases s.leases.lookup slot with
  | none => cases outcome <;> exact moves_unfound
  | some lease =>
    cases outcome with
    | failed => exact moves_unfound
    | done | unsure => exact moves_released h

theorem retryReleases_mainSafe (slots : List String) : MainSafe (retryReleases slots) := by
  induction slots with
  | nil => exact Keeps.pure trivial
  | cons slot slots ih =>
    intro s
    refine Safe.atomic_bind fun t _ _ _ _ => ⟨trivial, ?_⟩
    dsimp only
    rcases find_cases t slot with hfind | ⟨entry, hqueue, hfind⟩
    · rw [hfind]
      exact ⟨.refl t, ih t⟩
    · rw [hfind]
      refine ⟨moves_found hqueue, ?_⟩
      -- nobody else touches what was found until the release is sent
      refine Safe.atomic_bind fun u hu _ c _ => ⟨trivial, moves_send hu c.outcome, ?_⟩
      split
      · exact ih _
      · exact Keeps.seq removePending_supervised.mainSafe (fun _ => ih) _

theorem pass_mainSafe (p : Pass) : MainSafe p.program := by
  cases p with
  | retryReleases =>
    exact Keeps.seq (supervised_atomic fun s _ => .refl s).mainSafe fun slots => retryReleases_mainSafe slots
  | reconcileStalled slot => exact reconcileStalled_supervised.mainSafe
  | reconcileOrphaned slot => exact reconcileAbsent_supervised.mainSafe
  | drain slot => exact (supervised_atomic fun _ _ => .of_eq rfl rfl rfl rfl rfl).mainSafe
  | undrain slot => exact (supervised_atomic fun _ _ => .of_eq rfl rfl rfl rfl rfl).mainSafe

/-! ## Runs -/

/-- Every process keeps to its rules. -/
structure System.Sound (s : System) : Prop where
  main : s.main.Safe mainRules (fun _ _ => True) s.world
  supervisors : ∀ p ∈ s.supervisors, p.Safe supervisorRules (fun _ _ => True) s.world

section Runs
variable {s : System}

theorem System.Sound.outside {t : System} (h : s.Sound) (hmain : t.main = s.main)
    (hfound : t.world.found = s.world.found)
    (hsub : ∀ p ∈ t.supervisors, Supervised p ∨ p ∈ s.supervisors) : t.Sound where
  main := hmain ▸ h.main.moved hfound
  supervisors p hp := by
    rcases hsub p hp with hp | hp
    · exact hp t.world
    · exact (h.supervisors p hp).moved trivial

theorem System.Sound.step (h : s.Sound) (e : Event) : Moves s.world (s.step e).1.world ∧ (s.step e).1.Sound := by
  have hadd {p : ShellProg Unit} (hp : Supervised p) :
      ∀ q ∈ s.supervisors ++ [p], Supervised q ∨ q ∈ s.supervisors := by
    intro q hq
    rcases List.mem_append.mp hq with hq | hq
    · exact Or.inr hq
    · exact Or.inl (List.mem_singleton.mp hq ▸ hp)
  cases e with
  | start slot rounds =>
    exact ⟨.of_eq rfl rfl rfl rfl rfl, h.outside rfl rfl (hadd (runSlotLoop_supervised rounds))⟩
  | recover slot id name status rounds =>
    exact ⟨.refl _, h.outside rfl rfl (hadd (runRecoveredSlot_supervised status rounds))⟩
  | pass p =>
    unfold System.step
    dsimp only
    split
    · exact ⟨.refl _, pass_mainSafe p _, h.supervisors⟩
    · exact ⟨.refl _, h⟩
  | main reply =>
    obtain ⟨-, hmoves, hmain⟩ := h.main.advance trivial trivial (.refl _)
    exact ⟨hmoves, hmain, fun p hp => (h.supervisors p hp).moved trivial⟩
  | supervisor index reply =>
    unfold System.step
    dsimp only
    split
    · exact ⟨.refl _, h⟩
    · next p hp =>
      obtain ⟨-, hquiet, hnext⟩ := (h.supervisors p (List.mem_of_getElem? hp)).advance trivial trivial (.refl _)
      refine ⟨hquiet.toMoves, h.main.moved hquiet.same, fun q hq => ?_⟩
      rcases List.mem_or_eq_of_mem_set hq with hq | rfl
      · exact (h.supervisors q hq).moved trivial
      · exact hnext
  | kill index =>
    exact ⟨.refl _, h.outside rfl rfl fun p hp => Or.inr (List.mem_of_mem_eraseIdx hp)⟩
  | exit id => exact ⟨.of_eq rfl rfl rfl rfl rfl, h.outside rfl rfl fun p hp => Or.inr hp⟩
  | expire slot =>
    unfold System.step
    dsimp only
    split
    · exact ⟨quiet_erase.toMoves, h.outside rfl rfl fun p hp => Or.inr hp⟩
    · exact ⟨.refl _, h⟩
  | restart =>
    refine ⟨⟨le_refl _, fun _ _ h => Or.inl h, fun _ _ h => Or.inl h, fun _ _ h => ?_, fun _ h => Or.inl h⟩, ?_, ?_⟩
    · cases h
    · exact Keeps.pure trivial _
    · exact fun p hp => by cases hp

end Runs

/-- Whatever of a slot is queued, or was found in the queue, is no older than the slot's lease, and so it
    was with every release. -/
structure Dated (w : World) : Prop where
  leases : ∀ k a, w.acquired k = some a → a ≤ w.clock
  queue : ∀ k e a, w.queue.lookup k = some e → w.acquired k = some a → a ≤ e
  found : ∀ k e a, w.found = some (k, e) → w.acquired k = some a → a ≤ e
  releases : ∀ r ∈ w.releases, ∀ e a, r.entry = some e → r.acquired = some a → a ≤ e

/-- A slot whose lease is handed out at this step, be it a new one or the one it has, has no entry in the queue,
    and none that the main loop has found. -/
def GrantsClear (s t : World) : Prop :=
  ∀ k ∈ t.leases.keys, t.acquired k ≠ s.acquired k → s.queue.lookup k = none ∧ s.found.all (·.1 ≠ k)

instance (s t : World) : Decidable (GrantsClear s t) := inferInstanceAs (Decidable (∀ k ∈ _, _))

theorem GrantsClear.lease_cases {s t : World} (h : GrantsClear s t) (hm : Moves s t) {k : String} {a : Nat}
    (ha : t.acquired k = some a) :
    s.acquired k = some a ∨ (a ≤ t.clock ∧ t.queue.lookup k = none ∧ ∀ e, t.found ≠ some (k, e)) := by
  rcases hm.leases k a ha with hold | ⟨hle, hqueue, hfound⟩
  · exact Or.inl hold
  · by_cases hsame : t.acquired k = s.acquired k
    · exact Or.inl (hsame ▸ ha)
    · obtain ⟨l, hl, -⟩ := Option.map_eq_some_iff.mp ha
      have hmem : k ∈ t.leases.keys := Finmap.mem_keys.mpr (Finmap.mem_of_lookup_eq_some hl)
      obtain ⟨hempty, hother⟩ := h k hmem hsame
      refine Or.inr ⟨hle, hqueue ▸ hempty, fun e he => ?_⟩
      rw [hfound] at he
      simp [he] at hother

theorem Dated.step {s t : World} (h : Dated s) (hm : Moves s t) (hclear : GrantsClear s t) : Dated t where
  leases k a ha := by
    rcases hm.leases k a ha with hold | ⟨hle, -, -⟩
    · exact le_trans (h.leases k a hold) hm.clock
    · exact hle
  queue k e a he ha := by
    rcases hclear.lease_cases hm ha with hold | ⟨-, hempty, -⟩
    · rcases hm.queue k e he with hentry | rfl
      · exact h.queue k e a hentry hold
      · exact h.leases k a hold
    · exact absurd (hempty.symm.trans he) (Option.some_ne_none e).symm
  found k e a he ha := by
    rcases hclear.lease_cases hm ha with hold | ⟨-, -, hother⟩
    · rcases hm.found k e he with hfound | hentry
      · exact h.found k e a hfound hold
      · exact h.queue k e a hentry hold
    · exact absurd he (hother e)
  releases r hr e a he ha := by
    rcases hm.releases r hr with hold | ⟨hlease, hfound⟩
    · exact h.releases r hold e a he ha
    · exact h.found r.slot e a (hfound e he) (hlease ▸ ha)

theorem initial_sound : System.initial.Sound := ⟨Keeps.pure trivial _, fun p hp => by cases hp⟩

theorem initial_dated : Dated System.initial.world where
  leases k a h := by simp [System.initial, World.acquired] at h
  queue k e a h := by simp [System.initial] at h
  found k e a h := by simp [System.initial] at h
  releases r h := by simp [System.initial] at h

/-- The release stems from an entry that was written before the lease it frees was last acquired, while a worker
    started under that lease runs. -/
def Release.FreesNewer (r : Release) : Prop := ∃ entry ∈ r.entry, ∃ acquired ∈ r.acquired, entry < acquired ∧ r.running

instance (r : Release) : Decidable r.FreesNewer := inferInstanceAs (Decidable (∃ entry ∈ _, _))

/-- Every interleaving of supervisors, main loop, outages, kills and restarts in which no slot is granted a
    lease, or given the one it has, while an entry of it is queued or has been found: no release frees a newer
    worker's lease. -/
theorem queued_releases_old (events : List Event)
    (hclear : ∀ t ∈ transitions System.step .initial events,
      GrantsClear t.before.world (t.before.step t.event).1.world) :
    ∀ r ∈ (System.run events).world.releases, ¬ r.FreesNewer := by
  have hrun : (System.run events).Sound ∧ Dated (System.run events).world := by
    refine exec_induction_of (I := fun s : System => s.Sound ∧ Dated s.world)
      (P := fun (s : System) (e : Event) => GrantsClear s.world (s.step e).1.world)
        ⟨initial_sound, initial_dated⟩ ?_ hclear
    intro s e ⟨hsound, hdated⟩ hclear
    obtain ⟨hmoves, hnext⟩ := hsound.step e
    exact ⟨hnext, hdated.step hmoves hclear⟩
  rintro r hr ⟨entry, hentry, acquired, hacquired, hlt, -⟩
  exact absurd (hrun.2.releases r hr entry acquired hentry hacquired) (Nat.not_le.mpr hlt)

/-! ## Runs of one slot -/

/-- A launch of the supervisor, up to its first look at the worker: the checks, the lease, the name, the
    container and its start. -/
def launching (id : String) : List Event :=
  [.supervisor 0 {}, .supervisor 0 {}, .supervisor 0 {}, .supervisor 0 { text := "runner-" ++ id }, .supervisor 0 {},
    .supervisor 0 { text := id }, .supervisor 0 {}, .supervisor 0 {}, .supervisor 0 {}]

/-- The worker exits, and its monitor queues the release. -/
def exiting (id : String) : List Event := [.exit id, .supervisor 0 {}, .supervisor 0 {}, .supervisor 0 {}]

def finding : List Event := [.pass .retryReleases, .main {}, .main {}]

/-- The main loop is done with the entry before the supervisor releases and launches again. The answer to its
    acquire is lost, and it acquires the lease once more. -/
theorem queued_releases_old_retried :
    let events := .start "slot" 4 :: (launching "first" ++ exiting "first" ++ finding ++ [.main {}, .main {}] ++
      [.supervisor 0 {}, .supervisor 0 {}, .supervisor 0 {}, .supervisor 0 { outcome := .unsure }] ++
        launching "second")
    (System.run events).world.releases.length = 1 ∧ (System.run events).world.runs "slot" 2 ∧
      (System.run events).world.acquired "slot" = some 3 ∧
      ∀ r ∈ (System.run events).world.releases, ¬ r.FreesNewer := by
  refine ⟨by decide +kernel, by decide +kernel, by decide +kernel, queued_releases_old _ (by decide +kernel)⟩

/-- Between the main loop's look at the entry and its release, the supervisor releases, removes the entry and
    starts the next worker; the release that the main loop then sends frees that worker's lease. -/
theorem retried_release_frees_newer :
    let events := .start "slot" 3 :: (launching "first" ++ exiting "first" ++ finding ++
      [.supervisor 0 {}, .supervisor 0 {}] ++ launching "second" ++ [.main {}])
    ∃ r ∈ (System.run events).world.releases, r.FreesNewer := by
  decide +kernel

end PitCrew.Shell
