import PitCrew.Theorems.Admission.Fences

/-! # Failure atomicity

An operation saves a ledger before it takes it over, so the store holds the state of the process at every
boundary. A failed operation leaves what its expiry sweep left, but for the record of the decision. -/

namespace PitCrew.Admission
open Base Coordinator

/-! ## The stored state -/

/-- `c'` has the state of `c` in the same store, or has saved the state it has. -/
def Coordinator.Writes (c c' : Coordinator) : Prop :=
  c'.store = c.store ∧ c'.state = c.state ∨ c'.store = { document := some c'.state }

section Writes
variable {env : Env} {c c' c'' : Coordinator} {call : Call} {a : Option Act}

theorem Coordinator.Writes.trans (h₁ : c.Writes c') (h₂ : c'.Writes c'') : c.Writes c'' := by
  rcases h₂ with ⟨hstore, hstate⟩ | hsaved
  · rw [Coordinator.Writes, hstore, hstate]
    exact h₁
  · exact Or.inr hsaved

theorem Coordinator.Alike.writes (h : Alike c c') : c.Writes c' := Or.inl ⟨h.store, h.state⟩

theorem sweptFor_writes (hset : c.state.FencesSet) (env : Env) (call : Call) : c.Writes (c.sweptFor env call) := by
  rcases sweptFor_cases hset env call with h | ⟨h, -⟩
  · rw [h]
    exact Or.inl ⟨rfl, rfl⟩
  · rw [h]
    exact Or.inr rfl

theorem Does.writes (h : Does env a c c') : c.Writes c' := by
  cases a with
  | none =>
    rw [h]
    exact Or.inl ⟨rfl, rfl⟩
  | some a =>
    rcases Took.saved h with hsaved | rfl
    · exact Or.inr hsaved
    · exact Or.inl ⟨rfl, rfl⟩

theorem Records.writes (h : Records c c') : c.Writes c' := by
  rcases h with rfl | ⟨d, -, rfl⟩
  · exact Or.inl ⟨rfl, rfl⟩
  · exact Or.inr rfl

theorem Course.writes (course : Course env call a c c') (hset : c.state.FencesSet) : c.Writes c' := by
  obtain ⟨c₁, c₂, c₃, h₁, hdoes, h₂, hrec⟩ := course
  exact (sweptFor_writes hset env call).trans (h₁.writes.trans (hdoes.writes.trans (h₂.writes.trans hrec.writes)))

theorem Course.idle (course : Course env call none c c') :
    c'.state = { (c.sweptFor env call).state with lastDecision := c'.state.lastDecision } ∧
      c'.provisionalDeadlines = (c.sweptFor env call).provisionalDeadlines ∧
      c'.rotation = (c.sweptFor env call).rotation := by
  obtain ⟨c₁, c₂, c₃, h₁, rfl, h₂, hrec⟩ := course
  have hframe := hrec.frame
  rw [h₂.state, h₁.state] at hframe
  refine ⟨hframe, ?_, ?_⟩
  · rw [hrec.provisionalDeadlines, h₂.provisionalDeadlines, h₁.provisionalDeadlines]
  · rw [hrec.rotation, h₂.rotation, h₁.rotation]

theorem sweptFor_of_failed (hset : c.state.FencesSet) (hsweep : env.saves.sweep = false) : c.sweptFor env call = c := by
  unfold Coordinator.sweptFor
  split
  · rcases sweep_cases hset env with ⟨-, hs⟩ | ⟨-, -, hs⟩ | ⟨-, hsaved, -⟩
    · rw [hs]
    · rw [hs]
    · rw [hsweep] at hsaved
      cases hsaved
  · rfl

end Writes

/-! ## Runs -/

/-- The store holds the document it started with or one that the service has written. -/
def World.Written (document : Option DurableState) (w : World) : Prop :=
  w.store.document = document ∨ ∃ d, w.store.document = some d ∧ d.schemaVersion = stateSchemaVersion

section Runs
variable {w w' : World} {e : Event} {reply : Reply} {document : Option DurableState}

theorem World.store_of_running {c : Coordinator} (running : w.process = .running c) : w.store = c.store := by
  rw [World.store, running]

theorem Moved.written (moved : Moved w e reply w') (synced : w.Synced) (written : w.Written document) :
    w'.Written document := by
  have synced' := World.moved_upheld synced_upheld synced synced moved
  cases moved with
  | clock | idle | refused | opened => exact written
  | pruned valid => exact Or.inr ⟨_, rfl, DurableState.pruned_schema.trans valid.schema⟩
  | @call c c' call order saves a reply running course fits =>
    rcases course.writes (synced c running).fences with ⟨hstore, -⟩ | hsaved
    · rw [World.Written, World.store_of_running running, ← hstore] at written
      exact written
    · exact Or.inr ⟨c'.state, congrArg Store.document hsaved, (synced' c' rfl).schema⟩

theorem World.exec_written (now : Int) (document : Option DurableState) (events : List Event) :
    ((initial now document).exec events).Written document := by
  have : ((initial now document).exec events).Synced ∧ ((initial now document).exec events).Written document :=
    exec_induction (I := fun w : World => w.Synced ∧ w.Written document) ⟨initial_synced now document, Or.inl rfl⟩
      (fun w e hw => ⟨step_synced hw.1 e, (step_moved hw.1 e).written hw.1 hw.2⟩) events
  exact this.2

theorem World.Written.state (written : w.Written document) (synced : w.Synced) {c : Coordinator}
    (running : w.process = .running c) :
    c.store.document = some c.state ∨ c.store.document = document ∧ c.state = Store.ledger { document } := by
  have hledger := (synced c running).ledger
  rw [World.Written, World.store_of_running running] at written
  rcases written with hfirst | ⟨d, hd, hschema⟩
  · refine Or.inr ⟨hfirst, ?_⟩
    rw [← hledger, Store.ledger, Store.ledger, hfirst]
  · rw [Store.ledger, hd] at hledger
    left
    rw [hd, ← hledger]
    exact congrArg some (DurableState.upgrade_of_schema hschema).symm

theorem Moved.failed (moved : Moved w e reply w') (synced : w.Synced) {call : Call} {order : RangeOrder String}
    {saves : Saves} {err : Err} (he : e = .call call order saves) (hreply : reply = .failed err) :
    ∃ c c', w.process = .running c ∧ w'.process = .running c' ∧
      c'.state = { (c.sweptFor { now := w.now, order, saves } call).state with lastDecision := c'.state.lastDecision } ∧
      c'.provisionalDeadlines = (c.sweptFor { now := w.now, order, saves } call).provisionalDeadlines ∧
      c'.rotation = (c.sweptFor { now := w.now, order, saves } call).rotation ∧
      (saves.sweep = false → c.sweptFor { now := w.now, order, saves } call = c) := by
  subst he hreply
  cases moved with
  | @call c c' _ _ _ a _ running course fits =>
    have hnone : a = none := by
      cases fits
      rfl
    subst hnone
    obtain ⟨hstate, hdeadlines, hrotation⟩ := course.idle
    refine ⟨c, c', running, rfl, hstate, hdeadlines, hrotation, fun hsweep => ?_⟩
    exact sweptFor_of_failed (synced c running).fences hsweep

end Runs

/-- Along every run, from any document and with any failing saves and restarts: the state of the process is
    the document last saved, or that of the document the run started with; and a failed operation leaves the
    epoch, the decision sequence, the policy, the leases, the tombstones, the fences, the deadlines and the
    cursor as the expiry sweep of the operation left them, which is as it found them when the sweep was not
    saved. -/
theorem failure_atomicity (now : Int) (document : Option DurableState) (events : List Event) :
    (∀ c, ((World.initial now document).exec events).process = .running c →
      c.store.document = some c.state ∨ c.store.document = document ∧ c.state = Store.ledger { document }) ∧
    ∀ t ∈ (World.initial now document).transitions events, ∀ call order saves err,
      t.event = .call call order saves → t.reply = .failed err →
      ∃ c c', t.before.process = .running c ∧ t.after.process = .running c' ∧
        c'.state = { (c.sweptFor { now := t.before.now, order, saves } call).state with
          lastDecision := c'.state.lastDecision } ∧
        c'.provisionalDeadlines = (c.sweptFor { now := t.before.now, order, saves } call).provisionalDeadlines ∧
        c'.rotation = (c.sweptFor { now := t.before.now, order, saves } call).rotation ∧
        (saves.sweep = false → c.sweptFor { now := t.before.now, order, saves } call = c) := by
  constructor
  · intro c running
    exact (World.exec_written now document events).state (World.exec_synced now document events) running
  · intro t ht call order saves err he hreply
    obtain ⟨synced, moved⟩ := World.moved_of_mem ht
    exact moved.failed synced he hreply

/-- A grant that could not be saved, after a sweep that could not be saved either, leaves the ledger as it
    was. -/
theorem failure_atomicity_alphaGranted :
    ∃ c c', ((World.initial 0 none).exec (alphaGranted ++ [.clock 30000000000])).process = .running c ∧
      ((World.initial 0 none).exec (alphaGranted ++ [.clock 30000000000, .call (.acquire "alpha" "slot-2" 1) .sorted
        { sweep := false, change := false }])).process = .running c' ∧
      c'.state.leases = c.state.leases ∧ c'.store.document = some c'.state := by
  have hmem := World.stepAfter_mem (World.initial 0 none) (alphaGranted ++ [.clock 30000000000])
    (.call (.acquire "alpha" "slot-2" 1) .sorted { sweep := false, change := false })
  obtain ⟨hsaved, hfailed⟩ := failure_atomicity 0 none (alphaGranted ++ [.clock 30000000000] ++
    [.call (.acquire "alpha" "slot-2" 1) .sorted { sweep := false, change := false }])
  obtain ⟨c, c', running, running', hstate, -, -, hswept⟩ := hfailed _ hmem _ _ _ .store rfl (by decide +kernel)
  refine ⟨c, c', running, running', by rw [hstate, hswept rfl], ?_⟩
  rcases hsaved c' running' with h | ⟨h, -⟩
  · exact h
  · cases running'
    cases h

end PitCrew.Admission
