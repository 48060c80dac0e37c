import PitCrew.Theorems.Admission.Budget

/-! # The lifetime of a lease

An active lease goes on until its own slot is released or reconciled, whatever policies are applied,
clocks read or restarts made. The decision sequence is saved with every grant and never goes back, so
no identity is given twice, not even across restarts. -/

namespace PitCrew.Admission
open Base Coordinator

def DurableState.Keyed (s : DurableState) : Prop := ∀ key l, s.leases.lookup key = some l → key = l.key

section Acts
variable {env : Env} {a : Act} {c c' : Coordinator} {key : String} {l : Lease}

theorem Took.keyed (h : Took env a c c') (keyed : c.state.Keyed) : c'.state.Keyed := by
  intro key l hl
  rcases h.lease_cases key with
    hsame | ⟨p, k, l', hkey, hnew, makes⟩ | ⟨l₁, l', hold, hnew, hc⟩ | ⟨p, k, t, -, -, hnone⟩
  · exact keyed key l (hsame ▸ hl)
  · rw [hnew, Option.some.injEq] at hl
    obtain ⟨_, _, made⟩ := makes.made
    rw [hkey, ← hl, Lease.key, made.profileID, made.slotKey]
  · rw [hnew, Option.some.injEq] at hl
    rw [keyed key l₁ hold, ← hl, Lease.key, Lease.key, hc.profileID, hc.slotKey]
  · rw [hnone] at hl
    cases hl

theorem keyed_upheld : Upheld fun c => c.state.Keyed where
  fresh h := fun key l hl => (h.valid.leases key l hl).key
  alike h keyed := by
    rw [h.state]
    exact keyed
  swept keyed := by
    intro key l hl
    rw [expelled_leases] at hl
    split at hl
    · cases hl
    · exact keyed key l hl
  act took keyed := took.keyed keyed
  record keyed := keyed

theorem sweptFor_lookup (hset : c.state.FencesSet) (env : Env) (call : Call) (hl : c.state.leases.lookup key = some l)
    (hstatus : l.status ≠ .provisional) : (c.sweptFor env call).state.leases.lookup key = some l := by
  rcases sweptFor_cases hset env call with h | ⟨h, -⟩
  · rw [h]
    exact hl
  · rw [h, expelled_leases, if_neg, hl]
    intro hmem
    obtain ⟨⟨key', l'⟩, hexp, rfl⟩ := List.mem_map.mp hmem
    obtain ⟨hl', hp, -⟩ := mem_expiredLeases.mp hexp
    rw [hl, Option.some.injEq] at hl'
    exact hstatus (hl' ▸ hp)

theorem Records.leases (h : Records c c') : c'.state.leases = c.state.leases := by rw [h.frame]

theorem Course.active_cases {call : Call} {a : Option Act} (course : Course env call a c c') (hset : c.state.FencesSet)
    (hl : c.state.leases.lookup key = some l) (active : l.status = .active) :
    (∃ l', c'.state.leases.lookup key = some l' ∧ l.Continues l') ∨
      ∃ p k t, a = some (.remove p k t) ∧ key = leaseKey p k ∧ profileIDPattern p = true ∧ slotKeyPattern k = true := by
  have hswept := sweptFor_lookup hset env call hl (by rw [active]; decide)
  obtain ⟨c₁, c₂, c₃, h₁, hdoes, h₂, hrec⟩ := course
  rw [hrec.leases, h₂.state]
  rw [← h₁.state] at hswept
  cases a with
  | none =>
    rw [hdoes]
    exact Or.inl ⟨l, hswept, .refl l⟩
  | some a =>
    rcases Took.continues_or_removed hdoes hswept with hkept | ⟨p, k, t, rfl, hkey, hp, hk⟩
    · exact Or.inl hkept
    · exact Or.inr ⟨p, k, t, rfl, hkey, hp, hk⟩

end Acts

/-! ## Active leases -/

def Released (p k : String) (t : Transition World Event Reply) : Prop :=
  (∃ order saves, t.event = .call (.release p k) order saves ∨ ∃ e, t.event = .call (.reconcile p k e) order saves) ∧
    t.reply = .done

section Runs
variable {w w' : World} {e : Event} {reply : Reply} {key : String} {l : Lease}

def World.Keyed (w : World) : Prop := ∀ c, w.process = .running c → c.state.Keyed

theorem Moved.active_kept (moved : Moved w e reply w') (synced : w.Synced) (keyed : w.Keyed)
    (hl : w.ledger.leases.lookup key = some l) (active : l.status = .active)
    (unreleased : ¬Released l.profileID l.slotKey ⟨w, e, reply, w'⟩) :
    ∃ l', w'.ledger.leases.lookup key = some l' ∧ l.Continues l' := by
  have synced' := World.moved_upheld synced_upheld synced synced moved
  cases moved with
  | clock | idle | refused | opened => exact ⟨l, hl, .refl l⟩
  | pruned =>
    rw [World.Synced.ledger synced' rfl]
    exact ⟨l, DurableState.pruned_lookup.mpr ⟨hl, by rw [active]; decide⟩, .refl l⟩
  | @call c c' call order saves a reply running course fits =>
    rw [synced.ledger running] at hl
    rw [World.Synced.ledger synced' rfl]
    rcases course.active_cases (synced c running).fences hl active with hkept | ⟨p, k, t, rfl, hkey, hp, hk⟩
    · exact hkept
    · -- the removed slot is the one the lease names
      obtain ⟨hpp, hkk⟩ := leaseKey_eq hp hk ((keyed c running key l hl).symm.trans hkey)
      subst hpp hkk
      cases fits with
      | release => exact absurd ⟨⟨order, saves, Or.inl rfl⟩, rfl⟩ unreleased
      | reconcile => exact absurd ⟨⟨order, saves, Or.inr ⟨_, rfl⟩⟩, rfl⟩ unreleased

theorem Lease.Continues.trans {l₁ l₂ l₃ : Lease} (h₁ : l₁.Continues l₂) (h₂ : l₂.Continues l₃) : l₁.Continues l₃ where
  profileID := h₂.profileID.trans h₁.profileID
  slotKey := h₂.slotKey.trans h₁.slotKey
  leaseID := h₂.leaseID.trans h₁.leaseID
  units := h₂.units.trans h₁.units
  grantedAtSequence := h₂.grantedAtSequence.trans h₁.grantedAtSequence
  bound := fun h => (h₂.bound (by rw [h₁.bound h]; exact h)).trans (h₁.bound h)
  registrationName := by
    rcases h₂.registrationName with h | h
    · rw [h]
      exact h₁.registrationName
    · exact Or.inr h
  active := fun h => ⟨(h₂.active (h₁.active h).1).1, (h₂.active (h₁.active h).1).2.trans (h₁.active h).2⟩
  status := by
    rcases h₂.status with h | h
    · rw [h]
      exact h₁.status
    · exact Or.inr h

theorem World.step_keyed (synced : w.Synced) (keyed : w.Keyed) (e : Event) : (w.step e).1.Keyed :=
  World.moved_upheld keyed_upheld synced keyed (World.step_moved synced e)

theorem World.exec_active (synced : w.Synced) (keyed : w.Keyed) (hl : w.ledger.leases.lookup key = some l)
    (active : l.status = .active) (events : List Event)
    (unreleased : ∀ t ∈ w.transitions events, ¬Released l.profileID l.slotKey t) :
    ∃ l', (w.exec events).ledger.leases.lookup key = some l' ∧ l.Continues l' := by
  induction events generalizing w l with
  | nil => exact ⟨l, hl, .refl l⟩
  | cons e events ih =>
    obtain ⟨l', hl', hc⟩ := (World.step_moved synced e).active_kept synced keyed hl active
      (unreleased _ List.mem_cons_self)
    obtain ⟨l'', hl'', hc'⟩ :=
      ih (World.step_synced synced e) (World.step_keyed synced keyed e) hl' (hc.active active).1
      fun t ht => by
        rw [hc.profileID, hc.slotKey]
        exact unreleased t (List.mem_cons_of_mem _ ht)
    exact ⟨l'', hl'', hc.trans hc'⟩

end Runs

/-! ## Identities -/

theorem sequence_follows : Follows fun s s' => s.decisionSequence ≤ s'.decisionSequence where
  refl _ := le_rfl
  trans := le_trans
  swept c env := by
    rw [expelledState, DurableState.compact_sequence, DurableState.discardAll_sequence]
    omega
  act took := took.sequence_le
  record _ := le_rfl
  pruned o _ := by
    rw [DurableState.pruned_sequence]
    omega

/-- A grant: an acquisition that got a lease, or an adoption that got one for a slot without. -/
def Grants (t : Transition World Event Reply) (l : Lease) : Prop :=
  t.reply = .lease l ∧
    ((∃ p k n order saves, t.event = .call (.acquire p k n) order saves) ∨
      ∃ c p k order saves, t.before.process = .running c ∧ t.event = .call (.adopt p k) order saves ∧
        (c.sweptFor { now := t.before.now, order, saves } (.adopt p k)).state.leases.lookup (leaseKey p k) = none)

section Identities
variable {w w' : World} {e : Event} {reply : Reply} {l : Lease} {env : Env} {c c' : Coordinator} {call : Call} {a : Act}
  {p k : String}

theorem Took.made (h : Took env a c c') (hact : a = .grant p k l ∨ a = .create p k l) :
    l.leaseID = leaseIDOf (leaseKey p k) c'.state.decisionSequence ∧
      c.state.decisionSequence < c'.state.decisionSequence := by
  have hseq := h.leaves.sequence
  have hone : a.decisions = 1 := by rcases hact with rfl | rfl <;> rfl
  rw [hone, Nat.cast_one] at hseq
  refine ⟨?_, by omega⟩
  rw [hseq]
  rcases hact with rfl | rfl
  · cases h with
    | grant => rfl
  · cases h with
    | create => rfl

theorem Course.made (course : Course env call (some a) c c') (hset : c.state.FencesSet)
    (hact : a = .grant p k l ∨ a = .create p k l) :
    l.leaseID = leaseIDOf (leaseKey p k) c'.state.decisionSequence ∧
      c.state.decisionSequence < c'.state.decisionSequence := by
  have hle : c.state.decisionSequence ≤ (c.sweptFor env call).state.decisionSequence := sequence_follows.sweptFor hset
  obtain ⟨c₁, c₂, c₃, h₁, took, h₂, hrec⟩ := course
  obtain ⟨hid, hlt⟩ := Took.made took hact
  have hseq : c'.state.decisionSequence = c₂.state.decisionSequence := by rw [hrec.frame, h₂.state]
  rw [h₁.state] at hlt
  rw [hseq]
  exact ⟨hid, hle.trans_lt hlt⟩

theorem Course.creates (course : Course env (.adopt p k) (some a) c c')
    (habsent : (c.sweptFor env (.adopt p k)).state.leases.lookup (leaseKey p k) = none)
    (hact : a = .account p k l ∨ a = .promote p k l ∨ a = .create p k l) : a = .create p k l := by
  obtain ⟨c₁, c₂, c₃, h₁, took, h₂, hrec⟩ := course
  rw [← h₁.state] at habsent
  rcases hact with rfl | rfl | rfl
  · cases took with
    | account _ _ _ lease =>
      rw [habsent] at lease
      cases lease
  · cases took with
    | promote _ _ _ lease =>
      rw [habsent] at lease
      cases lease
  · rfl

/-- A granted lease is numbered with the decision sequence that its grant leaves, which is a new one. -/
theorem Moved.granted (moved : Moved w e reply w') (synced : w.Synced) (grants : Grants ⟨w, e, reply, w'⟩ l) :
    (∃ key, l.leaseID = leaseIDOf key w'.ledger.decisionSequence) ∧
      w.ledger.decisionSequence < w'.ledger.decisionSequence := by
  have synced' := World.moved_upheld synced_upheld synced synced moved
  obtain ⟨hreply, ⟨p, k, n, order, saves, he⟩ | ⟨c, p, k, order, saves, running, he, habsent⟩⟩ := grants
  · dsimp only at hreply he
    subst hreply he
    cases moved with
    | @call c c' _ _ _ _ _ running course fits =>
      rw [synced.ledger running, World.Synced.ledger synced' rfl]
      cases fits with
      | grant =>
        obtain ⟨hid, hlt⟩ := course.made (synced c running).fences (Or.inl rfl)
        exact ⟨⟨_, hid⟩, hlt⟩
  · dsimp only at hreply he running habsent
    subst hreply he
    cases moved with
    | @call c₁ c' _ _ _ a _ running' course fits =>
      rw [running, Process.running.injEq] at running'
      subst running'
      rw [synced.ledger running, World.Synced.ledger synced' rfl]
      have hact : ∃ b, a = some b ∧ (b = .account p k l ∨ b = .promote p k l ∨ b = .create p k l) := by
        cases fits with
        | account => exact ⟨_, rfl, Or.inl rfl⟩
        | promote => exact ⟨_, rfl, Or.inr (Or.inl rfl)⟩
        | create => exact ⟨_, rfl, Or.inr (Or.inr rfl)⟩
      obtain ⟨b, rfl, hb⟩ := hact
      obtain ⟨hid, hlt⟩ := course.made (synced c running).fences (Or.inr (course.creates habsent hb))
      exact ⟨⟨_, hid⟩, hlt⟩

theorem leaseID_ne_of_lt {now : Int} {document : Option DurableState} {events : List Event} {i j : Nat}
    {t u : Transition World Event Reply} {l l' : Lease}
    (ht : ((World.initial now document).transitions events)[i]? = some t)
    (hu : ((World.initial now document).transitions events)[j]? = some u) (hij : i < j) (grants : Grants t l)
    (grants' : Grants u l') : l.leaseID ≠ l'.leaseID := by
  obtain ⟨synced, moved⟩ := World.moved_of_mem (List.mem_of_getElem? ht)
  obtain ⟨synced', moved'⟩ := World.moved_of_mem (List.mem_of_getElem? hu)
  obtain ⟨⟨key, hid⟩, -⟩ := moved.granted synced grants
  obtain ⟨⟨key', hid'⟩, hlt⟩ := moved'.granted synced' grants'
  obtain ⟨ys, hbefore⟩ := transitions_order ht hu hij
  have after : t.after.Synced := World.moved_upheld synced_upheld synced synced moved
  have hle : t.after.ledger.decisionSequence ≤ u.before.ledger.decisionSequence := by
    rw [hbefore]
    exact World.exec_follows sequence_follows after ys
  intro heq
  rw [hid, hid'] at heq
  have := (leaseIDOf_inj heq).2
  omega

end Identities

/-- The lease is in the store, and in the ledger of the process if one is running. -/
def World.Holds (w : World) (key : String) (l : Lease) : Prop :=
  w.ledger.leases.lookup key = some l ∧ ∀ c, w.process = .running c → c.state.leases.lookup key = some l

theorem World.Synced.holds {w : World} (synced : w.Synced) {key : String} {l : Lease}
    (h : w.ledger.leases.lookup key = some l) : w.Holds key l :=
  ⟨h, fun _ running => synced.ledger running ▸ h⟩

/-- Along every run, from any document and with any policies, clock readings, failing saves and restarts,
    an active lease stays live with its identity, units and sequences until its slot is released or
    reconciled, and no two grants carry the same identity. -/
theorem active_leases_permanent (now : Int) (document : Option DurableState) :
    (∀ (xs ys : List Event) (key : String) (l : Lease), ((World.initial now document).exec xs).Holds key l →
      l.status = .active →
      (∀ t ∈ ((World.initial now document).exec xs).transitions ys, ¬Released l.profileID l.slotKey t) →
      ∃ l', ((World.initial now document).exec (xs ++ ys)).Holds key l' ∧ l'.status = .active ∧ l.Continues l') ∧
    ∀ (events : List Event) (i j : Nat) (t u : Transition World Event Reply) (l l' : Lease),
      ((World.initial now document).transitions events)[i]? = some t →
      ((World.initial now document).transitions events)[j]? = some u → i ≠ j → Grants t l → Grants u l' →
      l.leaseID ≠ l'.leaseID := by
  refine ⟨fun xs ys key l holds active unreleased => ?_, fun events i j t u l l' ht hu hij grants grants' => ?_⟩
  · have synced := World.exec_synced now document xs
    have keyed : ((World.initial now document).exec xs).Keyed := fun c => World.exec_upheld keyed_upheld now document xs
    obtain ⟨l', hl', hc⟩ := World.exec_active synced keyed holds.1 active ys unreleased
    have happ : (World.initial now document).exec (xs ++ ys) = ((World.initial now document).exec xs).exec ys :=
      exec_append ..
    refine ⟨l', World.Synced.holds (World.exec_synced now document _) ?_, (hc.active active).1, hc⟩
    rw [happ]
    exact hl'
  · rcases Nat.lt_or_gt_of_ne hij with hlt | hlt
    · exact leaseID_ne_of_lt ht hu hlt grants grants'
    · exact (leaseID_ne_of_lt hu ht hlt grants' grants).symm

def alphaActive : List Event :=
  alphaOnly ++ [.plain (.acquire "alpha" "slot-1" 1), .plain (.activate "alpha" "slot-1")]

def alphaLease : Lease :=
  { profileID := "alpha", slotKey := "slot-1", leaseID := "alpha/slot-1#1", units := 2, status := .active,
    grantedAtSequence := 1, activatedAtSequence := 2 }

/-- The lease released, and its slot granted again after a restart. -/
def alphaAgain : List Event :=
  alphaActive ++ [.plain (.release "alpha" "slot-1"), .start, .plain (.acquire "alpha" "slot-1" 1)]

/-- The lease outlives its policy and its process, and the slot is given a new identity once it is
    released. -/
theorem active_leases_permanent_alphaActive :
    (∃ l', ((World.initial 0 none).exec (alphaActive ++
        [.plain (.applyPolicy { generation := 2, totalUnits := 1,
                                profiles := [{ profileID := "beta", unitCost := 1 }] }),
          .clock 1000000000000, .start, .plain .status])).Holds "alpha/slot-1" l' ∧ l'.status = .active ∧
        alphaLease.Continues l') ∧
      ∃ t u l l', ((World.initial 0 none).transitions alphaAgain)[2]? = some t ∧
        ((World.initial 0 none).transitions alphaAgain)[6]? = some u ∧ Grants t l ∧ Grants u l' ∧
          l.leaseID ≠ l'.leaseID := by
  constructor
  · refine (active_leases_permanent 0 none).1 _ _ "alpha/slot-1" alphaLease
      (World.Synced.holds (World.exec_synced 0 none _) (by decide +kernel)) rfl ?_
    rintro t ht ⟨⟨order, saves, he⟩, -⟩
    simp only [World.transitions, transitions, List.mem_cons, List.not_mem_nil, or_false] at ht
    rcases ht with rfl | rfl | rfl | rfl <;> rcases he with he | ⟨_, he⟩ <;> cases he
  · have first : Grants ((World.initial 0 none).stepAfter alphaOnly (.plain (.acquire "alpha" "slot-1" 1))) _ :=
      ⟨rfl, Or.inl ⟨_, _, _, _, _, rfl⟩⟩
    have second : Grants ((World.initial 0 none).stepAfter
        (alphaActive ++ [.plain (.release "alpha" "slot-1"), .start]) (.plain (.acquire "alpha" "slot-1" 1))) _ :=
      ⟨rfl, Or.inl ⟨_, _, _, _, _, rfl⟩⟩
    exact ⟨_, _, _, _, rfl, rfl, first, second,
      (active_leases_permanent 0 none).2 alphaAgain 2 6 _ _ _ _ rfl rfl (by decide) first second⟩

end PitCrew.Admission
