import PitCrew.Theorems.Admission.State

/-! # Acts on the ledger

What the expiry sweep does, and the acts that an operation can take after it (`Took`): what each asks of
the coordinator and what it leaves. The invariants of the ledger are proved of the sweep and of the
acts, never of the operations. -/

namespace PitCrew.Admission
open Base

namespace Coordinator

variable {c c' : Coordinator} {env : Env}

/-! ## Saving -/

/-- The coordinator with `next` as its saved ledger. -/
def become (c : Coordinator) (next : DurableState) : Coordinator :=
  { c with store := { document := some next }, state := next }

theorem persist_ok {succeeds : Bool} {next : DurableState} (h : c.persist succeeds next = .ok c') :
    succeeds = true ∧ c' = c.become next := by
  cases succeeds with
  | false => cases h
  | true => exact ⟨rfl, (Except.ok.inj h).symm⟩

/-! ## The expiry sweep -/

def Unexpired (c : Coordinator) (env : Env) : Prop :=
  ∀ key l, c.state.leases.lookup key = some l → l.status = .provisional →
    ∃ d, c.provisionalDeadlines.lookup key = some d ∧ env.now < d

theorem mem_expiredLeases {key : String} {l : Lease} : (key, l) ∈ c.expiredLeases env ↔
    c.state.leases.lookup key = some l ∧ l.status = .provisional ∧
      ∀ d, c.provisionalDeadlines.lookup key = some d → d ≤ env.now := by
  simp only [expiredLeases, List.mem_filter, Map.mem_entriesIn, Bool.decide_and, Bool.and_eq_true, decide_eq_true_eq]
  refine and_congr_right fun _ => and_congr_right fun _ => ?_
  cases c.provisionalDeadlines.lookup key with
  | none => simp
  | some d => simp

theorem expiredLeases_nodup : ((c.expiredLeases env).map Prod.fst).Nodup :=
  (Map.nodup_fst_entriesIn env.order c.state.leases).sublist (List.filter_sublist.map Prod.fst)

theorem expiredLeases_eq_nil : c.expiredLeases env = [] ↔ c.Unexpired env := by
  constructor
  · intro h key l hl hp
    by_contra hne
    have : (key, l) ∈ c.expiredLeases env := mem_expiredLeases.mpr ⟨hl, hp, fun d hd => by
      by_contra hlt
      exact hne ⟨d, hd, by omega⟩⟩
    rw [h] at this
    cases this
  · intro h
    rw [List.eq_nil_iff_forall_not_mem]
    rintro ⟨key, l⟩ hmem
    obtain ⟨hl, hp, hd⟩ := mem_expiredLeases.mp hmem
    obtain ⟨d, hd', hlt⟩ := h key l hl hp
    have := hd d hd'
    omega

def expelledState (c : Coordinator) (env : Env) : DurableState :=
  (c.state.discardAll .expired (c.expiredLeases env)).compactTombstones env.order

/-- The coordinator after a sweep that found expired leases and was saved. -/
def expelled (c : Coordinator) (env : Env) : Coordinator :=
  let profiles := (c.expiredLeases env).map (·.2.profileID)
  let keys := (c.expiredLeases env).map (·.1)
  { c.become (c.expelledState env) with
    demand := c.demand.filterKeys (· ∉ profiles)
    demandKnown := c.demandKnown.filter (· ∉ profiles)
    demandDeadlines := c.demandDeadlines.filterKeys (· ∉ profiles)
    provisionalDeadlines := c.provisionalDeadlines.filterKeys (· ∉ keys) }

theorem sweep_cases (hset : c.state.FencesSet) (env : Env) :
    (c.expiredLeases env = [] ∧ c.sweepExpiredLocked env = (c, .ok [])) ∨
      (c.expiredLeases env ≠ [] ∧ env.saves.sweep = false ∧ c.sweepExpiredLocked env = (c, .error .store)) ∨
      (c.expiredLeases env ≠ [] ∧ env.saves.sweep = true ∧
        c.sweepExpiredLocked env = (c.expelled env, .ok ((c.expiredLeases env).map Prod.fst))) := by
  unfold sweepExpiredLocked
  rw [DurableState.clone_eq hset]
  by_cases h : c.expiredLeases env = []
  · exact Or.inl ⟨h, by simp [h]⟩
  · right
    simp only [h, if_false]
    cases hs : env.saves.sweep
    · exact Or.inl ⟨h, rfl, rfl⟩
    · exact Or.inr ⟨h, rfl, rfl⟩

theorem expelledState_policy : (c.expelledState env).policy = c.state.policy := by
  rw [expelledState, DurableState.compact_policy, DurableState.discardAll_frame]

theorem expelledState_fences : (c.expelledState env).adoptionFences = c.state.adoptionFences := by
  rw [expelledState, DurableState.compact_fences, DurableState.discardAll_frame]

theorem expelledState_schema : (c.expelledState env).schemaVersion = c.state.schemaVersion := by
  rw [expelledState, DurableState.compact_schema, DurableState.discardAll_frame]

theorem expelledState_fencesSet (hset : c.state.FencesSet) : (c.expelledState env).FencesSet := by
  intro id f hf
  rw [expelledState_fences] at hf
  exact hset id f hf

theorem expelled_leases (key : String) : (c.expelled env).state.leases.lookup key =
    if key ∈ (c.expiredLeases env).map Prod.fst then none else c.state.leases.lookup key := by
  show ((c.state.discardAll .expired (c.expiredLeases env)).compactTombstones env.order).leases.lookup key = _
  rw [DurableState.compact_leases, DurableState.discardAll_leases]

theorem expelled_deadlines (key : String) : (c.expelled env).provisionalDeadlines.lookup key =
    if key ∈ (c.expiredLeases env).map Prod.fst then none else c.provisionalDeadlines.lookup key := by
  show (c.provisionalDeadlines.filterKeys _).lookup key = _
  rw [Map.lookup_filterKeys]
  by_cases h : key ∈ (c.expiredLeases env).map Prod.fst <;> simp [h]

theorem expelled_unexpired : (c.expelled env).Unexpired env := by
  intro key l hl hp
  rw [expelled_leases] at hl
  split at hl
  · cases hl
  · next hkey =>
    rw [expelled_deadlines, if_neg hkey]
    by_contra hne
    refine hkey (List.mem_map.mpr ⟨(key, l), mem_expiredLeases.mpr ⟨hl, hp, fun d hd => ?_⟩, rfl⟩)
    by_contra hlt
    exact hne ⟨d, hd, by omega⟩

theorem sweep_ok (hset : c.state.FencesSet) {keys : List String} (h : c.sweepExpiredLocked env = (c', .ok keys)) :
    c'.Unexpired env ∧ c'.state.FencesSet ∧ ∀ key ∈ keys, c'.state.leases.lookup key = none := by
  rcases sweep_cases hset env with ⟨hnil, hs⟩ | ⟨_, _, hs⟩ | ⟨_, _, hs⟩
  · rw [hs] at h
    cases h
    exact ⟨expiredLeases_eq_nil.mp hnil, hset, by simp⟩
  · rw [hs] at h
    cases h
  · rw [hs] at h
    cases h
    refine ⟨expelled_unexpired, expelledState_fencesSet hset, fun key hkey => ?_⟩
    rw [expelled_leases, if_pos hkey]

/-! ## Demand -/

/-- `c'` differs from `c` in its demand only. -/
structure Alike (c c' : Coordinator) : Prop where
  store : c'.store = c.store
  provisionalTTL : c'.provisionalTTL = c.provisionalTTL
  state : c'.state = c.state
  rotation : c'.rotation = c.rotation
  provisionalDeadlines : c'.provisionalDeadlines = c.provisionalDeadlines

theorem Alike.refl (c : Coordinator) : Alike c c := ⟨rfl, rfl, rfl, rfl, rfl⟩

theorem Alike.trans {c₁ c₂ c₃ : Coordinator} (h₁ : Alike c₁ c₂) (h₂ : Alike c₂ c₃) : Alike c₁ c₃ :=
  ⟨h₂.store.trans h₁.store, h₂.provisionalTTL.trans h₁.provisionalTTL, h₂.state.trans h₁.state,
    h₂.rotation.trans h₁.rotation, h₂.provisionalDeadlines.trans h₁.provisionalDeadlines⟩

theorem Alike.unexpired (h : Alike c c') (hu : c.Unexpired env) : c'.Unexpired env := by
  intro key l hl hp
  rw [h.state] at hl
  rw [h.provisionalDeadlines]
  exact hu key l hl hp

theorem alike_expireStaleDemand (c : Coordinator) (now : Int) : Alike c (c.expireStaleDemandLocked now) :=
  ⟨rfl, rfl, rfl, rfl, rfl⟩

theorem alike_registerDemand (c : Coordinator) (env : Env) (p : String) (n : Int) :
    Alike c (c.registerDemand env p n) :=
  ⟨rfl, rfl, rfl, rfl, rfl⟩

theorem alike_consumeDemand (c : Coordinator) (p : String) (n : Int) : Alike c (c.consumeDemand p n) := by
  unfold consumeDemand
  split <;> exact ⟨rfl, rfl, rfl, rfl, rfl⟩

theorem alike_advanceRotation {p : String} {n : Int} {m : Nat}
    (hc : c' = { c with rotation := if m = 0 then c.rotation else (c.rotation + 1).tmod m }) :
    Alike c' ((c.consumeDemand p n).advanceRotationLocked m) := by
  have h := alike_consumeDemand c p n
  subst hc
  unfold advanceRotationLocked
  by_cases hm : m = 0
  · rw [if_pos hm, if_pos hm]
    exact ⟨h.store, h.provisionalTTL, h.state, h.rotation, h.provisionalDeadlines⟩
  · rw [if_neg hm, if_neg hm]
    exact ⟨h.store, h.provisionalTTL, h.state, by rw [h.rotation], h.provisionalDeadlines⟩

end Coordinator

/-! ## Acts -/

open Coordinator

/-- The acts on the ledger, with the lease they leave or return. -/
inductive Act where
  | policy (policy : HostPolicy)
  | fence (profileID : String)
  | unfence (profileID : String)
  | grant (profileID slotKey : String) (lease : Lease)
  | bind (profileID slotKey : String) (lease : Lease)
  | keep (profileID slotKey : String) (lease : Lease)
  | account (profileID slotKey : String) (lease : Lease)
  | promote (profileID slotKey : String) (lease : Lease)
  | create (profileID slotKey : String) (lease : Lease)
  | renew (profileID slotKey : String) (lease : Lease)
  | activate (profileID slotKey : String) (lease : Lease)
  | remove (profileID slotKey : String) (tombstone : Tombstone)
  | gone (profileID slotKey : String)

/-- A lease stored under its key, with the tombstone of its slot removed. -/
def DurableState.withLease (s : DurableState) (p k : String) (l : Lease) : DurableState :=
  { s with
    decisionSequence := s.decisionSequence + 1
    tombstones := s.tombstones.erase (leaseKey p k)
    leases := s.leases.insert (leaseKey p k) l }

def DurableState.setLease (s : DurableState) (p k : String) (l : Lease) : DurableState :=
  { s with
    decisionSequence := s.decisionSequence + 1
    leases := s.leases.insert (leaseKey p k) l }

/-- The lease of a slot replaced by a tombstone, and its slot accounted for. -/
def DurableState.withoutLease (s : DurableState) (o : RangeOrder String) (p k : String) (t : Tombstone) :
    DurableState :=
  let s' := { s with decisionSequence := s.decisionSequence + 1, leases := s.leases.erase (leaseKey p k) }
  let s' := (s'.markLeaseAccountedForAdoption p k).1
  { s' with tombstones := s'.tombstones.insert (leaseKey p k) t }.compactTombstones o

/-- What an act asks of the coordinator and what it leaves, up to demand. The acts on leases follow a
    successful sweep. -/
inductive Took (env : Env) : Act → Coordinator → Coordinator → Prop where
  | policy {c : Coordinator} {p : HostPolicy} (valid : p.validate = .ok ())
      (newer : c.state.policy.generation < p.generation) :
      Took env (.policy p) c (c.become
        { c.state with
          policy := p, epoch := c.state.epoch + 1
          adoptionFences := c.state.adoptionFences.filterKeys fun id => (p.profile id).isSome })
  | fence {c : Coordinator} {id : String} (valid : profileIDPattern id = true)
      (known : c.state.policy.profile id ≠ none) (absent : id ∉ c.state.adoptionFences) :
      Took env (.fence id) c (c.become
        { c.state with
          epoch := c.state.epoch + 1
          adoptionFences := c.state.adoptionFences.insert id
            { profileID := id, pendingLeaseKeys := some (DurableState.activeLeaseSlotKeys c.state.leases id) } })
  | unfence {c : Coordinator} {id : String} {f : AdoptionFence} (fence : c.state.adoptionFences.lookup id = some f)
      (accounted : f.pending = []) :
      Took env (.unfence id) c (c.become
        { c.state with epoch := c.state.epoch + 1, adoptionFences := c.state.adoptionFences.erase id })
  | grant {c : Coordinator} {p k : String} {pp : ProfilePolicy} {n : Nat} (unexpired : c.Unexpired env)
      (profileID : profileIDPattern p = true) (slotKey : slotKeyPattern k = true)
      (unfenced : c.state.adoptionFences.keys.card = 0) (absent : c.state.leases.lookup (leaseKey p k) = none)
      (known : c.state.policy.profile p = some pp)
      (admitted : c.evaluateAcquireLocked p pp c.heldUnitsByProfileLocked = .ok n) :
      Took env (.grant p k (c.provisionalLease env p k pp.unitCost)) c
        { c.become (c.state.withLease p k (c.provisionalLease env p k pp.unitCost)) with
          rotation := if n = 0 then c.rotation else (c.rotation + 1).tmod n
          provisionalDeadlines := c.provisionalDeadlines.insert (leaseKey p k) (env.now + c.provisionalTTL) }
  | bind {c : Coordinator} {p k name : String} {l : Lease} (unexpired : c.Unexpired env)
      (profileID : profileIDPattern p = true) (slotKey : slotKeyPattern k = true)
      (lease : c.state.leases.lookup (leaseKey p k) = some l) (unbound : l.registrationName = "")
      (valid : registrationNamePattern name = true) :
      Took env (.bind p k { l with registrationName := name }) c
        (c.become (c.state.setLease p k { l with registrationName := name }))
  | keep {c : Coordinator} {p k : String} {l : Lease} (unexpired : c.Unexpired env)
      (lease : c.state.leases.lookup (leaseKey p k) = some l) : Took env (.keep p k l) c c
  | account {c c' : Coordinator} {p k : String} {l : Lease} (unexpired : c.Unexpired env)
      (profileID : profileIDPattern p = true) (slotKey : slotKeyPattern k = true)
      (lease : c.state.leases.lookup (leaseKey p k) = some l) (active : l.status = .active)
      (next : c' = c ∧ (c.state.markLeaseAccountedForAdoption p k).2 = false ∨
        c' = c.become (c.state.markLeaseAccountedForAdoption p k).1) :
      Took env (.account p k l) c c'
  | promote {c : Coordinator} {p k : String} {l : Lease} (unexpired : c.Unexpired env)
      (profileID : profileIDPattern p = true) (slotKey : slotKeyPattern k = true)
      (lease : c.state.leases.lookup (leaseKey p k) = some l) (inactive : l.status ≠ .active) :
      Took env (.promote p k (activated l (c.state.decisionSequence + 1))) c
        { c.become ((c.state.withLease p k (activated l (c.state.decisionSequence + 1))).markLeaseAccountedForAdoption
            p k).1 with provisionalDeadlines := c.provisionalDeadlines.erase (leaseKey p k) }
  | create {c : Coordinator} {p k : String} {pp : ProfilePolicy} (unexpired : c.Unexpired env)
      (profileID : profileIDPattern p = true) (slotKey : slotKeyPattern k = true)
      (absent : c.state.leases.lookup (leaseKey p k) = none) (known : c.state.policy.profile p = some pp) :
      Took env (.create p k (c.adoptedLease p k pp.unitCost)) c
        { c.become ((c.state.withLease p k (c.adoptedLease p k pp.unitCost)).markLeaseAccountedForAdoption p k).1
          with provisionalDeadlines := c.provisionalDeadlines.erase (leaseKey p k) }
  | renew {c : Coordinator} {p k : String} {l : Lease} (unexpired : c.Unexpired env)
      (profileID : profileIDPattern p = true) (slotKey : slotKeyPattern k = true)
      (lease : c.state.leases.lookup (leaseKey p k) = some l) (provisional : l.status = .provisional) :
      Took env (.renew p k { l with expiresAtUnixNano := env.now + c.provisionalTTL }) c
        { c.become (c.state.setLease p k { l with expiresAtUnixNano := env.now + c.provisionalTTL }) with
          provisionalDeadlines := c.provisionalDeadlines.insert (leaseKey p k) (env.now + c.provisionalTTL) }
  | activate {c : Coordinator} {p k : String} {l : Lease} (unexpired : c.Unexpired env)
      (profileID : profileIDPattern p = true) (slotKey : slotKeyPattern k = true)
      (lease : c.state.leases.lookup (leaseKey p k) = some l) (inactive : l.status ≠ .active) :
      Took env (.activate p k (activated l (c.state.decisionSequence + 1))) c
        { c.become (c.state.setLease p k (activated l (c.state.decisionSequence + 1))) with
          provisionalDeadlines := c.provisionalDeadlines.erase (leaseKey p k) }
  | remove {c : Coordinator} {p k : String} {l : Lease} {t : Tombstone} (unexpired : c.Unexpired env)
      (profileID : profileIDPattern p = true) (slotKey : slotKeyPattern k = true)
      (lease : c.state.leases.lookup (leaseKey p k) = some l)
      (tombstone : t.profileID = p ∧ t.slotKey = k ∧ t.leaseID = l.leaseID ∧
        t.sequence = c.state.decisionSequence + 1) :
      Took env (.remove p k t) c
        { c.become (c.state.withoutLease env.order p k t) with
          provisionalDeadlines := c.provisionalDeadlines.erase (leaseKey p k) }
  | gone {c : Coordinator} {p k : String} (unexpired : c.Unexpired env)
      (absent : c.state.leases.lookup (leaseKey p k) = none) (tombstone : leaseKey p k ∈ c.state.tombstones) :
      Took env (.gone p k) c c

/-! ### What an act leaves -/

def Act.leases : Act → Map String Lease → Map String Lease
  | .grant p k l, m | .bind p k l, m | .promote p k l, m | .create p k l, m | .renew p k l, m | .activate p k l, m =>
    m.insert (leaseKey p k) l
  | .remove p k _, m => m.erase (leaseKey p k)
  | _, m => m

def Act.fences (a : Act) (s : DurableState) : Map String AdoptionFence :=
  match a with
  | .policy p => s.adoptionFences.filterKeys fun id => (p.profile id).isSome
  | .fence id => s.adoptionFences.insert id
    { profileID := id, pendingLeaseKeys := some (DurableState.activeLeaseSlotKeys s.leases id) }
  | .unfence id => s.adoptionFences.erase id
  | .account p k _ | .promote p k _ | .create p k _ | .remove p k _ =>
    (s.markLeaseAccountedForAdoption p k).1.adoptionFences
  | _ => s.adoptionFences

def Act.accountsFor : Act → Option (String × String)
  | .account p k _ | .promote p k _ | .create p k _ | .remove p k _ => some (p, k)
  | _ => none

def Act.policyAfter : Act → HostPolicy → HostPolicy
  | .policy p, _ => p
  | _, p => p

def Act.decisions : Act → Nat
  | .grant .. | .bind .. | .promote .. | .create .. | .renew .. | .activate .. | .remove .. => 1
  | _ => 0

def Act.epochs : Act → Nat
  | .policy .. | .fence .. | .unfence .. => 1
  | _ => 0

/-- What an act leaves of a ledger, up to its tombstones. -/
structure Act.Leaves (a : Act) (s s' : DurableState) : Prop where
  schema : s'.schemaVersion = s.schemaVersion
  epoch : s'.epoch = s.epoch + a.epochs
  sequence : s'.decisionSequence = s.decisionSequence + a.decisions
  policy : s'.policy = a.policyAfter s.policy
  leases : s'.leases = a.leases s.leases
  fences : s'.adoptionFences = a.fences s
  decision : s'.lastDecision = s.lastDecision

section Took
variable {env : Env} {a : Act} {c c' : Coordinator}

theorem DurableState.withoutLease_fences (s : DurableState) (o : RangeOrder String) (p k : String) (t : Tombstone) :
    (s.withoutLease o p k t).adoptionFences = (s.markLeaseAccountedForAdoption p k).1.adoptionFences := by
  unfold withoutLease
  dsimp only
  rw [compact_fences]
  exact mark_congr (by rfl) p k

theorem Took.leaves (h : Took env a c c') : a.Leaves c.state c'.state := by
  cases h with
  | policy | fence | unfence => exact ⟨rfl, rfl, (add_zero _).symm, rfl, rfl, rfl, rfl⟩
  | keep | gone => exact ⟨rfl, (add_zero _).symm, (add_zero _).symm, rfl, rfl, rfl, rfl⟩
  | grant | bind | renew | activate => exact ⟨rfl, (add_zero _).symm, rfl, rfl, rfl, rfl, rfl⟩
  | account _ _ _ _ _ next =>
    rcases next with ⟨rfl, hmiss⟩ | rfl
    · exact ⟨rfl, (add_zero _).symm, (add_zero _).symm, rfl, rfl,
        congrArg DurableState.adoptionFences (DurableState.mark_of_false hmiss).symm, rfl⟩
    · exact ⟨DurableState.mark_schema, DurableState.mark_epoch.trans (add_zero _).symm,
        DurableState.mark_sequence.trans (add_zero _).symm, DurableState.mark_policy, DurableState.mark_leases, rfl,
        DurableState.mark_decision⟩
  | promote | create =>
    exact ⟨DurableState.mark_schema, DurableState.mark_epoch.trans (add_zero _).symm, DurableState.mark_sequence,
      DurableState.mark_policy, DurableState.mark_leases, DurableState.mark_congr (by rfl) _ _,
        DurableState.mark_decision⟩
  | remove =>
    refine ⟨?_, ?_, ?_, ?_, ?_, DurableState.withoutLease_fences _ _ _ _ _, ?_⟩ <;>
      simp [become, DurableState.withoutLease, Act.epochs, Act.decisions, Act.policyAfter, Act.leases]

theorem Act.Leaves.policy_eq {s s' : DurableState} (h : a.Leaves s s') (ha : ∀ p, a ≠ .policy p) :
    s'.policy = s.policy := by
  rw [h.policy]
  cases a with
  | policy p => exact absurd rfl (ha p)
  | _ => rfl

theorem Act.fences_cases (a : Act) {s : DurableState} {id : String} {f : AdoptionFence}
    (h : (a.fences s).lookup id = some f) :
    (a = .fence id ∧ f = { profileID := id, pendingLeaseKeys := some (DurableState.activeLeaseSlotKeys s.leases id) }) ∨
      ((∀ k, a.accountsFor ≠ some (id, k)) ∧ s.adoptionFences.lookup id = some f) ∨
      ∃ k, a.accountsFor = some (id, k) ∧
        (s.markLeaseAccountedForAdoption id k).1.adoptionFences.lookup id = some f := by
  have hmark {p k : String} (h : (s.markLeaseAccountedForAdoption p k).1.adoptionFences.lookup id = some f) :
      ((∀ j, some (p, k) ≠ some (id, j)) ∧ s.adoptionFences.lookup id = some f) ∨
        ∃ j, some (p, k) = some (id, j) ∧
          (s.markLeaseAccountedForAdoption id j).1.adoptionFences.lookup id = some f := by
    by_cases hid : id = p
    · subst hid
      exact Or.inr ⟨k, rfl, h⟩
    · rw [DurableState.mark_fence_ne hid] at h
      refine Or.inl ⟨fun j hj => ?_, h⟩
      rw [Option.some.injEq, Prod.mk.injEq] at hj
      exact hid hj.1.symm
  cases a with
  | policy p =>
    rw [Act.fences, Map.lookup_filterKeys] at h
    split at h
    · exact Or.inr (Or.inl ⟨(fun _ heq => by cases heq), h⟩)
    · cases h
  | fence p =>
    rw [Act.fences, Map.lookup_insert_ite] at h
    split at h
    · next hid =>
      subst hid
      cases h
      exact Or.inl ⟨rfl, rfl⟩
    · exact Or.inr (Or.inl ⟨(fun _ heq => by cases heq), h⟩)
  | unfence p =>
    rw [Act.fences, Map.lookup_erase_ite] at h
    split at h
    · cases h
    · exact Or.inr (Or.inl ⟨(fun _ heq => by cases heq), h⟩)
  | account | promote | create | remove => exact Or.inr (hmark h)
  | grant | bind | keep | renew | activate | gone => exact Or.inr (Or.inl ⟨(fun _ heq => by cases heq), h⟩)

theorem Took.fencesSet (h : Took env a c c') (hset : c.state.FencesSet) : c'.state.FencesSet := by
  intro id f hf
  rw [h.leaves.fences] at hf
  rcases a.fences_cases hf with ⟨-, rfl⟩ | ⟨-, hold⟩ | ⟨k, -, hmark⟩
  · simp
  · exact hset id f hold
  · exact DurableState.mark_fencesSet hset id k id f hmark

end Took

end PitCrew.Admission
