import PitCrew.Theorems.Admission.Course

/-! # Steps of the service

The ledger of the service is what its store reads back as; while a process runs it is also the state of
that process (`Synced`). `Moved` says once what an event can do to the service. An invariant of the
ledger is proved of the sweep, the acts, the record and the restart (`Kept`), one of the process of the
same and of a freshly opened process (`Upheld`), and both hold along whole runs. -/

namespace PitCrew.Admission
open Base Coordinator

/-- What the store reads back as. -/
def Store.ledger (s : Store) : DurableState :=
  match s.document with
  | none => newDurableState
  | some document => document.upgrade

def World.ledger (w : World) : DurableState := w.store.ledger

namespace DurableState

variable {s : DurableState} {o : RangeOrder String}

/-- The ledger that a restart leaves of `s`. -/
def pruned (s : DurableState) (o : RangeOrder String) : DurableState :=
  (s.discardAll .restartDiscarded (s.restoredProvisionals o)).compactTombstones o

theorem newDurableState_valid : newDurableState.Valid :=
  (validate_ok (o := .sorted) (u := ())).mp rfl

theorem mem_restoredProvisionals {key : String} {l : Lease} :
    (key, l) ∈ s.restoredProvisionals o ↔ s.leases.lookup key = some l ∧ l.status = .provisional := by
  simp [restoredProvisionals, Map.mem_entriesIn]

theorem restoredProvisionals_nodup : ((s.restoredProvisionals o).map Prod.fst).Nodup :=
  (Map.nodup_fst_entriesIn o s.leases).sublist (List.filter_sublist.map Prod.fst)

theorem restoredProvisionals_eq_nil :
    s.restoredProvisionals o = [] ↔ ∀ key l, s.leases.lookup key = some l → l.status ≠ .provisional := by
  rw [List.eq_nil_iff_forall_not_mem, Prod.forall]
  refine forall₂_congr fun key l => ?_
  rw [mem_restoredProvisionals, not_and]

theorem pruned_lookup {key : String} {l : Lease} :
    (s.pruned o).leases.lookup key = some l ↔ s.leases.lookup key = some l ∧ l.status ≠ .provisional := by
  rw [pruned, compact_leases, discardAll_leases]
  constructor
  · intro h
    split at h
    · cases h
    · next hkey =>
      refine ⟨h, fun hp => hkey (List.mem_map.mpr ⟨(key, l), mem_restoredProvisionals.mpr ⟨h, hp⟩, rfl⟩)⟩
  · rintro ⟨h, hp⟩
    rw [if_neg, h]
    intro hkey
    obtain ⟨⟨key', l'⟩, hmem, rfl⟩ := List.mem_map.mp hkey
    obtain ⟨hl, hp'⟩ := mem_restoredProvisionals.mp hmem
    rw [h, Option.some.injEq] at hl
    exact hp (hl ▸ hp')

theorem pruned_fences : (s.pruned o).adoptionFences = s.adoptionFences := by
  rw [pruned, compact_fences, discardAll_frame]

theorem pruned_policy : (s.pruned o).policy = s.policy := by rw [pruned, compact_policy, discardAll_frame]

theorem pruned_schema : (s.pruned o).schemaVersion = s.schemaVersion := by
  rw [pruned, compact_schema, discardAll_frame]

theorem pruned_epoch : (s.pruned o).epoch = s.epoch := by rw [pruned, compact_epoch, discardAll_frame]

theorem pruned_decision : (s.pruned o).lastDecision = s.lastDecision := by
  rw [pruned, compact_decision, discardAll_frame]

theorem pruned_sequence : (s.pruned o).decisionSequence = s.decisionSequence + (s.restoredProvisionals o).length := by
  rw [pruned, compact_sequence, discardAll_sequence]

theorem tombstones_discardAll {reason : TombstoneReason} {l : List (String × Lease)} (hl : (l.map Prod.fst).Nodup)
    (hkeys : ∀ e ∈ l, e.1 = e.2.key) (hold : ∀ key t, s.tombstones.lookup key = some t →
      key = leaseKey t.profileID t.slotKey)
    {key : String} {t : Tombstone} (h : (s.discardAll reason l).tombstones.lookup key = some t) :
    key = leaseKey t.profileID t.slotKey := by
  rcases discardAll_tombstones_cases hl h with ⟨-, hs⟩ | ⟨i, lease, hi, rfl⟩
  · exact hold key t hs
  · exact hkeys _ (List.mem_of_getElem? hi)

theorem Valid.discardAll (h : s.Valid) {reason : TombstoneReason} {l : List (String × Lease)}
    (hl : (l.map Prod.fst).Nodup) (hlook : ∀ e ∈ l, s.leases.lookup e.1 = some e.2 ∧ e.2.status = .provisional)
    (o : RangeOrder String) : ((s.discardAll reason l).compactTombstones o).Valid := by
  have hleases {key : String} {lease : Lease} (hk : ((s.discardAll reason l).compactTombstones o).leases.lookup key =
      some lease) :
      key ∉ l.map Prod.fst ∧ s.leases.lookup key = some lease := by
    rw [compact_leases, discardAll_leases] at hk
    split at hk
    · cases hk
    · next hkey => exact ⟨hkey, hk⟩
  have hpolicy :
      ((s.discardAll reason l).compactTombstones o).policy = s.policy := by rw [compact_policy, discardAll_frame]
  refine ⟨?_, ?_, ?_, ?_, ?_, ?_, ?_, ?_, ?_⟩
  · rw [compact_schema, discardAll_frame]
    exact h.schema
  · rw [compact_epoch, discardAll_frame]
    exact h.epoch
  · have := h.sequence
    rw [compact_sequence, discardAll_sequence]
    omega
  · rw [hpolicy]
    exact h.policy
  · intro key lease hk
    exact h.leases key lease (hleases hk).2
  · intro key t ht
    refine tombstones_discardAll hl (fun e he => ?_) h.tombstones (compact_lookup ht)
    exact (h.leases e.1 e.2 (hlook e he).1).key
  · intro id f hf
    rw [compact_fences, discardAll_frame] at hf
    have hf := h.fences id f hf
    refine ⟨hf.key, hf.profileID, by rw [hpolicy]; exact hf.known, hf.set, hf.nodup, hf.slotKey, fun k hk => ?_⟩
    -- a pending slot has an active lease, and only provisional ones are discarded
    obtain ⟨lease, hlease, hactive⟩ := hf.active k hk
    refine ⟨lease, ?_, hactive⟩
    rw [compact_leases, discardAll_leases, if_neg, hlease]
    intro hmem
    obtain ⟨e, he, hkey⟩ := List.mem_map.mp hmem
    obtain ⟨hlook, hprov⟩ := hlook e he
    rw [hkey, hlease, Option.some.injEq] at hlook
    rw [← hlook, hactive] at hprov
    cases hprov
  · intro key hkey htomb
    obtain ⟨lease, hk⟩ := Finmap.mem_iff.mp hkey
    obtain ⟨hnot, hold⟩ := hleases hk
    have htomb := mem_of_mem_compact htomb
    rw [Map.mem_iff_lookup, discardAll_tombstones_of_notMem reason hnot, ← Map.mem_iff_lookup] at htomb
    exact h.disjoint key (Finmap.mem_of_lookup_eq_some hold) htomb
  · intro d hd
    rw [compact_decision, discardAll_frame] at hd
    exact h.decision d hd

theorem Valid.pruned (h : s.Valid) (o : RangeOrder String) : (s.pruned o).Valid :=
  h.discardAll restoredProvisionals_nodup (fun _ he => mem_restoredProvisionals.mp he) o

theorem pruned_no_provisional : ∀ key l, (s.pruned o).leases.lookup key = some l → l.status ≠ .provisional :=
  fun _ _ h => (pruned_lookup.mp h).2

end DurableState

/-! ## Plain events -/

def Event.plain (call : Call) : Event := .call call .sorted {}

def Event.start : Event := .restart 0 .sorted {}

/-- The step that `e` takes after the events `xs`. -/
def World.stepAfter (w : World) (xs : List Event) (e : Event) : Transition World Event Reply :=
  ⟨w.exec xs, e, ((w.exec xs).step e).2, ((w.exec xs).step e).1⟩

theorem World.stepAfter_of_mem {w : World} {events : List Event} {t : Transition World Event Reply}
    (h : t ∈ w.transitions events) : ∃ xs e ys, events = xs ++ e :: ys ∧ t = w.stepAfter xs e := by
  obtain ⟨xs, ys, hevents, hbefore, hstep⟩ := mem_transitions.mp h
  obtain ⟨before, e, reply, after⟩ := t
  refine ⟨xs, e, ys, hevents, ?_⟩
  dsimp only at hbefore hstep
  subst hbefore
  rw [stepAfter, World.exec, hstep]

theorem World.stepAfter_mem (w : World) (xs : List Event) (e : Event) : w.stepAfter xs e ∈ w.transitions (xs ++ [e]) :=
  mem_transitions.mpr ⟨xs, [], rfl, rfl, rfl⟩

/-! ## Opening a store -/

/-- The time a lease is given by a process started with `ttl`. -/
def leaseTTL (ttl : Int) : Int := if ttl ≤ 0 then defaultProvisionalLeaseTTL else ttl

theorem Store.load_cases (s : Store) (o : RangeOrder String) :
    (∃ e, s.load o = .error e ∧ ¬s.ledger.Valid) ∨
      s.ledger.Valid ∧ (s.document = none ∧ s.load o = .ok none ∨ s.load o = .ok (some s.ledger)) := by
  unfold Store.load Store.ledger
  cases s.document with
  | none => exact Or.inr ⟨DurableState.newDurableState_valid, Or.inl ⟨rfl, rfl⟩⟩
  | some d =>
    dsimp only
    cases hv : d.upgrade.validate o with
    | error e =>
      refine Or.inl ⟨e, rfl, fun valid => ?_⟩
      rw [(DurableState.validate_ok (u := ())).mpr valid] at hv
      cases hv
    | ok u => exact Or.inr ⟨DurableState.validate_ok.mp hv, Or.inr rfl⟩

/-- The process that a restart opens after it has pruned the ledger. -/
def reopened (s : DurableState) (o : RangeOrder String) (ttl : Int) : Coordinator :=
  restored { document := some (s.pruned o) } (leaseTTL ttl) (s.pruned o)

/-- Opening a store fails and leaves it, on an invalid document or on a failed save, or gives a process on its
    ledger without provisional leases. -/
theorem openStore_cases (env : Env) (s : Store) (ttl : Int) :
    (∃ e, openStore env s ttl = (s, .error e) ∧ (s.ledger.Valid → env.saves.change = false)) ∨
      s.ledger.Valid ∧
        (s.ledger.restoredProvisionals env.order = [] ∧ openStore env s ttl =
          (s, .ok (restored s (leaseTTL ttl) s.ledger)) ∨
          s.ledger.restoredProvisionals env.order ≠ [] ∧ env.saves.change = true ∧
            openStore env s ttl =
              ({ document := some (s.ledger.pruned env.order) }, .ok (reopened s.ledger env.order ttl))) := by
  unfold openStore
  rcases s.load_cases env.order with ⟨e, he, hinvalid⟩ | ⟨hv, ⟨hdoc, hload⟩ | hload⟩
  · rw [he]
    exact Or.inl ⟨e, rfl, fun valid => absurd valid hinvalid⟩
  · have hnew : s.ledger = newDurableState := by rw [Store.ledger, hdoc]
    rw [hload]
    refine Or.inr ⟨hv, Or.inl ⟨?_, by rw [hnew]; rfl⟩⟩
    rw [DurableState.restoredProvisionals_eq_nil, hnew]
    intro key l hl
    cases hl
  · rw [hload]
    dsimp only
    unfold DurableState.discardRestoredProvisionals
    rw [DurableState.clone_eq hv.fencesSet]
    by_cases hnil : s.ledger.restoredProvisionals env.order = []
    · rw [if_pos hnil]
      exact Or.inr ⟨hv, Or.inl ⟨hnil, rfl⟩⟩
    · rw [if_neg hnil]
      cases hs : env.saves.change with
      | false => exact Or.inl ⟨_, rfl, fun _ => rfl⟩
      | true => exact Or.inr ⟨hv, Or.inr ⟨hnil, rfl, rfl⟩⟩

/-! ## Events -/

structure Coordinator.Synced (c : Coordinator) : Prop where
  ledger : c.store.ledger = c.state
  schema : c.state.schemaVersion = stateSchemaVersion
  fences : c.state.FencesSet

def World.Synced (w : World) : Prop := ∀ c, w.process = .running c → c.Synced

/-- What an event does to the service, with its reply. -/
inductive Moved (w : World) : Event → Reply → World → Prop where
  | clock (now : Int) : Moved w (.clock now) .done { w with now }
  | call {c c' : Coordinator} {call : Call} {order : RangeOrder String} {saves : Saves} {a : Option Act} {reply : Reply}
      (running : w.process = .running c) (course : Course { now := w.now, order, saves } call a c c')
      (fits : Fits call reply a) : Moved w (.call call order saves) reply { w with process := .running c' }
  | idle {call : Call} {order : RangeOrder String} {saves : Saves} {store : Store}
      (stopped : w.process = .stopped store) :
      Moved w (.call call order saves) .stopped w
  | refused {ttl : Int} {order : RangeOrder String} {saves : Saves} {e : Err} :
      Moved w (.restart ttl order saves) (.failed e) { w with process := .stopped w.store }
  | opened {ttl : Int} {order : RangeOrder String} {saves : Saves} (valid : w.ledger.Valid)
      (settled : w.ledger.restoredProvisionals order = []) :
      Moved w (.restart ttl order saves) .done
        { w with process := .running (restored w.store (leaseTTL ttl) w.ledger) }
  | pruned {ttl : Int} {order : RangeOrder String} {saves : Saves} (valid : w.ledger.Valid)
      (unsettled : w.ledger.restoredProvisionals order ≠ []) :
      Moved w (.restart ttl order saves) .done
        { w with process := .running (reopened w.ledger order ttl) }

namespace World

variable {w w' : World} {e : Event} {reply : Reply}

theorem Synced.ledger (h : w.Synced) {c : Coordinator} (running : w.process = .running c) : w.ledger = c.state := by
  have := (h c running).ledger
  rwa [World.ledger, World.store, running]

theorem step_moved (h : w.Synced) (e : Event) : Moved w e (w.step e).2 (w.step e).1 := by
  cases e with
  | clock now => exact .clock now
  | call call order saves =>
    unfold step
    cases hp : w.process with
    | stopped store => exact .idle hp
    | running c =>
      obtain ⟨a, course, fits⟩ := call_course (h c hp).fences { now := w.now, order, saves } call
      exact .call hp course fits
  | restart ttl order saves =>
    simp only [step]
    rcases openStore_cases { now := w.now, order, saves } w.store ttl with
      ⟨e, he, -⟩ | ⟨valid, ⟨settled, he⟩ | ⟨unsettled, -, he⟩⟩
    · rw [he]
      exact .refused
    · rw [he]
      exact .opened valid settled
    · rw [he]
      exact .pruned valid unsettled

end World

/-! ## Invariants of the process -/

/-- The start of every process: a valid ledger without provisional leases. -/
structure Fresh (c : Coordinator) : Prop where
  eq : c = restored c.store c.provisionalTTL c.state
  ttl : 0 < c.provisionalTTL
  valid : c.state.Valid
  settled : ∀ key l, c.state.leases.lookup key = some l → l.status ≠ .provisional
  ledger : c.store.ledger = c.state

/-- A property of processes that every part of an operation keeps. -/
structure Upheld (I : Coordinator → Prop) : Prop where
  fresh {c : Coordinator} (fresh : Fresh c) : I c
  alike {c c' : Coordinator} (alike : Alike c c') (h : I c) : I c'
  swept {c : Coordinator} {env : Env} (h : I c) : I (c.expelled env)
  act {c c' : Coordinator} {env : Env} {a : Act} (took : Took env a c c') (h : I c) : I c'
  record {c : Coordinator} {d : Decision} (h : I c) : I (c.become { c.state with lastDecision := some d })

theorem leaseTTL_pos (ttl : Int) : 0 < leaseTTL ttl := by
  unfold leaseTTL defaultProvisionalLeaseTTL
  split <;> omega

theorem fresh_opened {s : Store} (ttl : Int) (valid : s.ledger.Valid)
    (settled : ∀ key l, s.ledger.leases.lookup key = some l → l.status ≠ .provisional) :
    Fresh (restored s (leaseTTL ttl) s.ledger) :=
  ⟨rfl, leaseTTL_pos ttl, valid, settled, rfl⟩

theorem Store.ledger_of_schema {s : DurableState} (h : s.schemaVersion = stateSchemaVersion) :
    Store.ledger { document := some s } = s := DurableState.upgrade_of_schema h

theorem fresh_pruned {s : DurableState} (o : RangeOrder String) (ttl : Int) (valid : s.Valid) :
    Fresh (reopened s o ttl) :=
  ⟨rfl, leaseTTL_pos ttl, valid.pruned o, DurableState.pruned_no_provisional,
    Store.ledger_of_schema (DurableState.pruned_schema.trans valid.schema)⟩

theorem Moved.fresh {w w' : World} {ttl : Int} {order : RangeOrder String} {saves : Saves} {reply : Reply}
    {c : Coordinator}
    (h : Moved w (.restart ttl order saves) reply w') (running : w'.process = .running c) : Fresh c := by
  cases h with
  | refused => cases running
  | opened valid settled =>
    cases running
    exact fresh_opened ttl valid (DurableState.restoredProvisionals_eq_nil.mp settled)
  | pruned valid _ =>
    cases running
    exact fresh_pruned order ttl valid

section Upheld
variable {I : Coordinator → Prop} {env : Env} {c c' : Coordinator} {call : Call} {a : Option Act}

theorem sweptFor_cases (hset : c.state.FencesSet) (env : Env) (call : Call) :
    c.sweptFor env call = c ∨ c.sweptFor env call = c.expelled env ∧ c.expiredLeases env ≠ [] := by
  unfold Coordinator.sweptFor
  split
  · rcases sweep_cases hset env with ⟨_, hs⟩ | ⟨_, _, hs⟩ | ⟨hne, _, hs⟩
    · exact Or.inl (by rw [hs])
    · exact Or.inl (by rw [hs])
    · exact Or.inr ⟨by rw [hs], hne⟩
  · exact Or.inl rfl

theorem sweptFor_policy (hset : c.state.FencesSet) (env : Env) (call : Call) :
    (c.sweptFor env call).state.policy = c.state.policy := by
  rcases sweptFor_cases hset env call with h | ⟨h, -⟩
  · rw [h]
  · rw [h]
    exact expelledState_policy

theorem sweptFor_fences (hset : c.state.FencesSet) (env : Env) (call : Call) :
    (c.sweptFor env call).state.adoptionFences = c.state.adoptionFences := by
  rcases sweptFor_cases hset env call with h | ⟨h, -⟩
  · rw [h]
  · rw [h]
    exact expelledState_fences

theorem Upheld.sweptFor (h : Upheld I) (hset : c.state.FencesSet) (hi : I c) : I (c.sweptFor env call) := by
  rcases sweptFor_cases hset env call with hs | ⟨hs, -⟩
  · rw [hs]
    exact hi
  · rw [hs]
    exact h.swept hi

theorem Upheld.records (h : Upheld I) (hr : Records c c') (hi : I c) : I c' := by
  rcases hr with rfl | ⟨d, -, rfl⟩
  · exact hi
  · exact h.record hi

theorem Upheld.course (h : Upheld I) (hset : c.state.FencesSet) (course : Course env call a c c') (hi : I c) :
    I c' := by
  obtain ⟨c₁, c₂, c₃, h₁, hdoes, h₂, hr⟩ := course
  have hi₁ := h.alike h₁ (h.sweptFor hset hi)
  have hi₂ : I c₂ := by
    cases a with
    | none => exact hdoes ▸ hi₁
    | some a => exact h.act hdoes hi₁
  exact h.records hr (h.alike h₂ hi₂)

end Upheld

theorem synced_become {c : Coordinator} {s : DurableState} (schema : s.schemaVersion = stateSchemaVersion)
    (fences : s.FencesSet) : (c.become s).Synced :=
  ⟨Store.ledger_of_schema schema, schema, fences⟩

theorem Took.saved {env : Env} {a : Act} {c c' : Coordinator} (h : Took env a c c') :
    c'.store = { document := some c'.state } ∨ c' = c := by
  cases h with
  | account _ _ _ _ _ next => exact next.elim (fun h => Or.inr h.1) (fun h => Or.inl (by rw [h]; rfl))
  | keep => exact Or.inr rfl
  | gone => exact Or.inr rfl
  | _ => exact Or.inl rfl

theorem synced_upheld : Upheld Coordinator.Synced where
  fresh h := ⟨h.ledger, h.valid.schema, h.valid.fencesSet⟩
  alike h hs := ⟨by rw [h.store, h.state]; exact hs.ledger, by rw [h.state]; exact hs.schema,
    by rw [h.state]; exact hs.fences⟩
  swept {c env} hs := by
    have schema : (c.expelledState env).schemaVersion = _ := expelledState_schema.trans hs.schema
    exact ⟨Store.ledger_of_schema schema, schema, expelledState_fencesSet hs.fences⟩
  act {c c' env a} took hs := by
    have schema := took.leaves.schema.trans hs.schema
    rcases took.saved with saved | rfl
    · exact ⟨by rw [saved]; exact Store.ledger_of_schema schema, schema, took.fencesSet hs.fences⟩
    · exact hs
  record hs := synced_become hs.schema hs.fences

namespace World

variable {w w' : World} {e : Event} {reply : Reply} {I : Coordinator → Prop}

theorem moved_upheld (h : Upheld I) (synced : w.Synced) (hi : ∀ c, w.process = .running c → I c)
    (moved : Moved w e reply w') :
    ∀ c, w'.process = .running c → I c := by
  intro c hc
  have fresh : ∀ ttl order saves, e = .restart ttl order saves → Fresh c := by
    rintro ttl order saves rfl
    exact moved.fresh hc
  cases moved with
  | clock => exact hi c hc
  | call running course _ =>
    cases hc
    exact h.course (synced _ running).fences course (hi _ running)
  | idle stopped => exact hi c hc
  | refused => cases hc
  | opened => exact h.fresh (fresh _ _ _ rfl)
  | pruned => exact h.fresh (fresh _ _ _ rfl)

theorem step_synced (synced : w.Synced) (e : Event) : (w.step e).1.Synced :=
  moved_upheld synced_upheld synced synced (step_moved synced e)

theorem initial_synced (now : Int) (document : Option DurableState) : (initial now document).Synced := by
  intro c hc
  cases hc

theorem exec_synced (now : Int) (document : Option DurableState) (events : List Event) :
    ((initial now document).exec events).Synced :=
  exec_induction (initial_synced now document) (fun _ e h => step_synced h e) events

theorem exec_upheld (h : Upheld I) (now : Int) (document : Option DurableState) (events : List Event) {c : Coordinator}
    (running : ((initial now document).exec events).process = .running c) : I c := by
  have : ((initial now document).exec events).Synced ∧
      ∀ c, ((initial now document).exec events).process = .running c → I c :=
    exec_induction (I := fun w : World => w.Synced ∧ ∀ c, w.process = .running c → I c)
      ⟨initial_synced now document, fun c hc => by cases hc⟩
      (fun w e hw => ⟨step_synced hw.1 e, moved_upheld h hw.1 hw.2 (step_moved hw.1 e)⟩) events
  exact this.2 c running

end World

/-! ## Invariants of the ledger -/

/-- A relation between ledgers that every part of an operation, and a restart, respects. -/
structure Follows (R : DurableState → DurableState → Prop) : Prop where
  refl (s : DurableState) : R s s
  trans {s₁ s₂ s₃ : DurableState} (h₁ : R s₁ s₂) (h₂ : R s₂ s₃) : R s₁ s₃
  swept (c : Coordinator) (env : Env) : R c.state (c.expelledState env)
  act {c c' : Coordinator} {env : Env} {a : Act} (took : Took env a c c') : R c.state c'.state
  record {s : DurableState} {d : Decision} (on : d.On s) : R s { s with lastDecision := some d }
  pruned {s : DurableState} (o : RangeOrder String) (valid : s.Valid) : R s (s.pruned o)

/-- A property of ledgers that every part of an operation, and a restart, keeps. -/
structure Kept (I : DurableState → Prop) : Prop where
  swept {c : Coordinator} (env : Env) (h : I c.state) : I (c.expelledState env)
  act {c c' : Coordinator} {env : Env} {a : Act} (took : Took env a c c') (h : I c.state) : I c'.state
  record {s : DurableState} {d : Decision} (on : d.On s) (h : I s) : I { s with lastDecision := some d }
  pruned {s : DurableState} (o : RangeOrder String) (valid : s.Valid) (h : I s) : I (s.pruned o)

theorem Kept.follows {I : DurableState → Prop} (h : Kept I) : Follows fun s s' => I s → I s' where
  refl _ := id
  trans h₁ h₂ := h₂ ∘ h₁
  swept _ env := h.swept env
  act took := h.act took
  record on := h.record on
  pruned o valid := h.pruned o valid

section Follows
variable {R : DurableState → DurableState → Prop} {env : Env} {c c' : Coordinator} {call : Call} {a : Option Act}

theorem Follows.sweptFor (h : Follows R) (hset : c.state.FencesSet) : R c.state (c.sweptFor env call).state := by
  rcases sweptFor_cases hset env call with hs | ⟨hs, -⟩
  · rw [hs]
    exact h.refl c.state
  · rw [hs]
    exact h.swept c env

theorem Follows.records (h : Follows R) (hr : Records c c') : R c.state c'.state := by
  rcases hr with rfl | ⟨d, on, rfl⟩
  · exact h.refl _
  · exact h.record on

theorem Follows.does (h : Follows R) (hdoes : Does env a c c') : R c.state c'.state := by
  cases a with
  | none => rw [hdoes]; exact h.refl _
  | some a => exact h.act hdoes

theorem Follows.course (h : Follows R) (hset : c.state.FencesSet) (course : Course env call a c c') :
    R c.state c'.state := by
  obtain ⟨c₁, c₂, c₃, h₁, hdoes, h₂, hr⟩ := course
  have hact := h.does hdoes
  have hrec := h.records hr
  rw [h₁.state] at hact
  rw [h₂.state] at hrec
  exact h.trans (h.sweptFor hset) (h.trans hact hrec)

end Follows

namespace World

variable {w w' : World} {e : Event} {reply : Reply} {R : DurableState → DurableState → Prop} {I : DurableState → Prop}

theorem moved_follows (h : Follows R) (synced : w.Synced) (moved : Moved w e reply w') : R w.ledger w'.ledger := by
  have synced' := moved_upheld synced_upheld synced synced moved
  cases moved with
  | clock => exact h.refl _
  | @call c c' call _ _ _ _ running course _ =>
    rw [synced.ledger running, Synced.ledger synced' rfl]
    exact h.course (synced c running).fences course
  | idle => exact h.refl _
  | refused => exact h.refl _
  | opened => exact h.refl _
  | pruned valid _ =>
    rw [Synced.ledger synced' rfl]
    exact h.pruned _ valid

/-- What every part of an operation respects is respected from any state of a run to any later one. -/
theorem exec_follows (h : Follows R) (synced : w.Synced) (events : List Event) : R w.ledger (w.exec events).ledger :=
  exec_rel (R := fun w w' : World => R w.ledger w'.ledger) (fun w => h.refl w.ledger) h.trans synced
    (fun _ e h => step_synced h e) (fun _ e hs => moved_follows h hs (step_moved hs e)) events

theorem exec_kept (h : Kept I) {now : Int} {document : Option DurableState} (h₀ : I (initial now document).ledger)
    (events : List Event) : I ((initial now document).exec events).ledger :=
  exec_follows h.follows (initial_synced now document) events h₀

theorem moved_of_mem {now : Int} {document : Option DurableState} {events : List Event}
    {t : Transition World Event Reply}
    (h : t ∈ (initial now document).transitions events) : t.before.Synced ∧ Moved t.before t.event t.reply t.after := by
  have synced : t.before.Synced := Transition.before_of (initial_synced now document) (fun _ e h => step_synced h e) h
  have moved := step_moved synced t.event
  rw [Transition.step_eq h] at moved
  exact ⟨synced, moved⟩

end World
end PitCrew.Admission
