import PitCrew.Theorems.Admission.Reopen

/-! # The window of tombstones

Four paths write tombstones (the expiry sweep, a restart, a release and a reconciliation), and two take the
tombstone of a slot away again (an acquisition and an adoption of it). Every call leaves the newest of the
tombstones before it and of those it wrote, without the slots that have a lease. -/

namespace PitCrew.Admission
open Base Coordinator

namespace DurableState
variable {s s' : DurableState}

/-- The lease that `s` has under `key` is no longer there in `s'`. -/
def Loses (s s' : DurableState) (key : String) : Prop :=
  ∃ l, s.leases.lookup key = some l ∧ ∀ l', s'.leases.lookup key = some l' → l'.leaseID ≠ l.leaseID

/-- `all` is the tombstones of `s` and one with a new sequence for each lease that `s'` has lost; `s'` keeps
    the newest of them, except under the slots that have a lease again. -/
structure Window (s s' : DurableState) (all : Map String Tombstone) : Prop where
  old : ∀ key, ¬s.Loses s' key → all.lookup key = s.tombstones.lookup key
  new : ∀ key l, s.leases.lookup key = some l → s.Loses s' key → ∃ t, all.lookup key = some t ∧
    t.profileID = l.profileID ∧ t.slotKey = l.slotKey ∧ t.leaseID = l.leaseID ∧
      s.decisionSequence < t.sequence ∧ t.sequence ≤ s'.decisionSequence
  kept : ∃ kept, Newest all kept ∧ s'.tombstones = kept.filterKeys (· ∉ s'.leases)

def TombstonesNamed (s : DurableState) : Prop :=
  ∀ key t, s.tombstones.lookup key = some t → profileIDPattern t.profileID = true ∧ slotKeyPattern t.slotKey = true

theorem Valid.tombstones_filter (h : s.Valid) : s.tombstones.filterKeys (· ∉ s.leases) = s.tombstones :=
  Map.filterKeys_eq_self fun key hkey => decide_eq_true fun hlease => h.disjoint key hlease hkey

theorem Bounded.newest (h : s.Bounded) : Newest s.tombstones s.tombstones := by
  refine ⟨fun _ _ ht => ht, (min_eq_right h).symm, fun key key' t t' _ ht' hnone => ?_⟩
  rw [ht'] at hnone
  cases hnone

theorem not_loses_self (s : DurableState) (key : String) : ¬s.Loses s key := by
  rintro ⟨l, hl, hne⟩
  exact hne l hl rfl

theorem Window.refl (valid : s.Valid) (bounded : s.Bounded) : s.Window s s.tombstones where
  old _ _ := rfl
  new key _ _ loses := absurd loses (not_loses_self s key)
  kept := ⟨s.tombstones, bounded.newest, valid.tombstones_filter.symm⟩

/-! ## Discarding leases -/

section Discard
variable {reason : TombstoneReason} {l : List (String × Lease)}

theorem loses_discardAll (hlook : ∀ e ∈ l, s.leases.lookup e.1 = some e.2) (o : RangeOrder String) (key : String) :
    s.Loses ((s.discardAll reason l).compactTombstones o) key ↔ key ∈ l.map Prod.fst := by
  unfold Loses
  rw [compact_leases, discardAll_leases]
  constructor
  · rintro ⟨lease, hl, hne⟩
    by_contra hkey
    rw [if_neg hkey] at hne
    exact hne lease hl rfl
  · intro hkey
    obtain ⟨e, he, rfl⟩ := List.mem_map.mp hkey
    refine ⟨e.2, hlook e he, fun l' hl' => ?_⟩
    rw [if_pos hkey] at hl'
    cases hl'

theorem Sound.window_discardAll (h : s.Sound) (hl : (l.map Prod.fst).Nodup)
    (hlook : ∀ e ∈ l, s.leases.lookup e.1 = some e.2 ∧ e.2.status = .provisional) (o : RangeOrder String) :
    s.Window ((s.discardAll reason l).compactTombstones o) (s.discardAll reason l).tombstones where
  old key hkeep := by
    rw [loses_discardAll (fun e he => (hlook e he).1)] at hkeep
    exact discardAll_tombstones_of_notMem reason hkeep
  new key lease hlease hlost := by
    rw [loses_discardAll (fun e he => (hlook e he).1)] at hlost
    obtain ⟨⟨key', lease'⟩, hmem, rfl⟩ := List.mem_map.mp hlost
    have hsame := (hlook _ hmem).1
    rw [hlease, Option.some.injEq] at hsame
    subst hsame
    obtain ⟨i, hi⟩ := List.mem_iff_getElem?.mp hmem
    have hlt := (List.getElem?_eq_some_iff.mp hi).1
    refine ⟨_, discardAll_tombstones_of_get hl hi, rfl, rfl, rfl, ?_, ?_⟩
    · show s.decisionSequence < s.decisionSequence + i + 1
      omega
    · rw [compact_sequence, discardAll_sequence]
      show s.decisionSequence + i + 1 ≤ s.decisionSequence + l.length
      omega
  kept := ⟨_, compact_newest _ o, (Valid.tombstones_filter (h.discardAll hl hlook o).valid).symm⟩

theorem TombstonesNamed.discardAll (h : s.TombstonesNamed) (sound : s.Sound) (hl : (l.map Prod.fst).Nodup)
    (hlook : ∀ e ∈ l, s.leases.lookup e.1 = some e.2) (o : RangeOrder String) :
    ((s.discardAll reason l).compactTombstones o).TombstonesNamed := by
  intro key t ht
  rcases discardAll_tombstones_cases hl (compact_lookup ht) with ⟨-, hold⟩ | ⟨i, lease, hi, rfl⟩
  · exact h key t hold
  · have hlease := sound.leases key lease (hlook _ (List.mem_of_getElem? hi))
    exact ⟨hlease.profileID, hlease.slotKey⟩

end Discard
end DurableState

/-! ## Acts -/

section Acts
variable {env : Env} {a : Act} {c c' : Coordinator}

theorem Took.tombstones_kept (h : Took env a c c') (hrem : ∀ p k t, a ≠ .remove p k t) {key : String}
    (hkey : key ∉ c'.state.leases) : c'.state.tombstones.lookup key = c.state.tombstones.lookup key := by
  have erased {p k : String} {l : Lease} (hkey : key ∉ c.state.leases.insert (leaseKey p k) l) :
      (c.state.tombstones.erase (leaseKey p k)).lookup key = c.state.tombstones.lookup key := by
    refine Finmap.lookup_erase_ne fun heq => hkey ?_
    rw [heq]
    exact Finmap.mem_insert.mpr (Or.inl rfl)
  rw [h.leaves.leases] at hkey
  cases h with
  | policy | fence | unfence | bind | keep | renew | activate | gone => rfl
  | account _ _ _ _ _ next =>
    rcases next with ⟨rfl, -⟩ | rfl
    · rfl
    · show (DurableState.markLeaseAccountedForAdoption _ _ _).1.tombstones.lookup key = _
      rw [DurableState.mark_tombstones]
  | grant => exact erased hkey
  | promote | create =>
    show (DurableState.markLeaseAccountedForAdoption _ _ _).1.tombstones.lookup key = _
    rw [DurableState.mark_tombstones]
    exact erased hkey
  | @remove _ p k l t => exact absurd rfl (hrem p k t)

/-- An act keeps every lease and takes tombstones only from slots with a lease, or replaces one lease by a
    tombstone and keeps the newest. -/
theorem Took.window_cases (h : Took env a c c') (sound : c.state.Sound) :
    (c'.state.tombstones = c.state.tombstones.filterKeys (· ∉ c'.state.leases) ∧
        ∀ key l, c.state.leases.lookup key = some l → ∃ l', c'.state.leases.lookup key = some l' ∧
          l'.leaseID = l.leaseID) ∨
      ∃ key l t, c.state.leases.lookup key = some l ∧ c'.state.leases = c.state.leases.erase key ∧
        Newest (c.state.tombstones.insert key t) c'.state.tombstones ∧ t.profileID = l.profileID ∧
          t.slotKey = l.slotKey ∧
        t.leaseID = l.leaseID ∧ t.sequence = c.state.decisionSequence + 1 ∧
        c'.state.decisionSequence = c.state.decisionSequence + 1 := by
  by_cases hrem : ∀ p k t, a ≠ .remove p k t
  · refine Or.inl ⟨Finmap.ext_lookup fun key => ?_, fun key l hl => ?_⟩
    · rw [Map.lookup_filterKeys]
      by_cases hkey : key ∈ c'.state.leases
      · rw [if_neg (by simpa using hkey)]
        exact Finmap.lookup_eq_none.mpr (h.disjoint sound.valid key hkey)
      · rw [if_pos (by simpa using hkey)]
        exact h.tombstones_kept hrem hkey
    · rcases h.continues_or_removed hl with ⟨l', hl', continues⟩ | ⟨p, k, t, ha, -⟩
      · exact ⟨l', hl', continues.leaseID⟩
      · exact absurd ha (hrem p k t)
  · push Not at hrem
    obtain ⟨p, k, t, rfl⟩ := hrem
    refine Or.inr ?_
    cases h with
    | @remove _ _ _ l _ unexpired hp hk lease tombstone =>
      obtain ⟨hpid, hslot, hid, hseq⟩ := tombstone
      obtain ⟨hlp, hlk⟩ := (sound.leases _ l lease).slot hp
      refine ⟨leaseKey p k, l, t, lease, ?_, ?_, hpid.trans hlp.symm, hslot.trans hlk.symm, hid, hseq, ?_⟩
      · simp [become, DurableState.withoutLease]
      · have := DurableState.compact_newest { (({ c.state with
            decisionSequence := c.state.decisionSequence + 1
            leases := c.state.leases.erase (leaseKey p k) } : DurableState).markLeaseAccountedForAdoption p k).1 with
            tombstones := c.state.tombstones.insert (leaseKey p k) t } env.order
        simpa [become, DurableState.withoutLease] using this
      · simp [become, DurableState.withoutLease]

theorem Took.named (h : Took env a c c') (named : c.state.TombstonesNamed) : c'.state.TombstonesNamed := by
  intro key t ht
  rcases h.tombstone_cases ht with ⟨hold, -⟩ | ⟨p, k, rfl, -, hp, hk, -⟩
  · exact named key t hold
  · cases h with
    | remove _ hpid hslot => exact ⟨hp ▸ hpid, hk ▸ hslot⟩

end Acts

theorem Newest.extended {all kept kept' : Map String Tombstone} {key : String} {t : Tombstone}
    (newest : Newest all kept)
    (newest' : Newest (kept.insert key t) kept') (hkey : all.lookup key = none)
    (hnew : ∀ j u, all.lookup j = some u → u.sequence ≤ t.sequence) : Newest (all.insert key t) kept' where
  sub j u hu := by
    rcases Map.lookup_of_insert (newest'.sub j u hu) with ⟨rfl, rfl⟩ | ⟨hne, hold⟩
    · exact Finmap.lookup_insert _
    · rw [Finmap.lookup_insert_of_ne _ hne]
      exact newest.sub j u hold
  card := by
    have hkept : kept.lookup key = none := by
      by_contra hne
      obtain ⟨u, hu⟩ := Option.ne_none_iff_exists'.mp hne
      rw [newest.sub key u hu] at hkey
      cases hkey
    have hcard {m : Map String Tombstone} (hm : m.lookup key = none) :
        (m.insert key t).keys.card = m.keys.card + 1 := by
      have hkeys : (m.insert key t).keys = insert key m.keys := by
        ext j
        simp [Finmap.mem_keys, Finmap.mem_insert]
      rw [hkeys, Finset.card_insert_of_notMem (by rwa [Finmap.mem_keys, ← Finmap.lookup_eq_none])]
    rw [newest'.card, hcard hkept, hcard hkey, newest.card]
    omega
  newest j j' u u' hu hu' hnone := by
    have hj := newest'.sub j u hu
    rcases Map.lookup_of_insert hu' with ⟨rfl, rfl⟩ | ⟨hne', hold'⟩
    · exact newest'.newest j j' u u' hu (Finmap.lookup_insert _) hnone
    · cases hkept : kept.lookup j' with
      | some v =>
        have hv := newest.sub j' v hkept
        rw [hold', Option.some.injEq] at hv
        subst hv
        exact newest'.newest j j' u u' hu (by rw [Finmap.lookup_insert_of_ne _ hne', hkept]) hnone
      | none =>
        rcases Map.lookup_of_insert hj with ⟨rfl, rfl⟩ | ⟨hne, hold⟩
        · exact hnew j' u' hold'
        · exact newest.newest j j' u u' hold hold' hkept

/-! ## Calls and restarts -/

namespace DurableState
variable {s d s' : DurableState} {all : Map String Tombstone}

/-- `d` is `s` after its expired leases were discarded. -/
structure Swept (s d : DurableState) (all : Map String Tombstone) : Prop where
  window : s.Window d all
  newest : Newest all d.tombstones
  leases : ∀ key l, d.leases.lookup key = some l → s.leases.lookup key = some l
  sequence : s.decisionSequence ≤ d.decisionSequence

theorem Window.of_frame (h : s.Window d all) (hl : s'.leases = d.leases) (ht : s'.tombstones = d.tombstones)
    (hseq : d.decisionSequence ≤ s'.decisionSequence) : s.Window s' all where
  old key hkeep := h.old key (by rwa [Loses, ← hl])
  new key l hlease hlost := by
    obtain ⟨t, hall, hp, hk, hid, hlt, hle⟩ := h.new key l hlease (by rwa [Loses, ← hl])
    exact ⟨t, hall, hp, hk, hid, hlt, hle.trans hseq⟩
  kept := by
    rw [hl, ht]
    exact h.kept

theorem Swept.all_le (h : s.Swept d all) (sound : s.Sound) {key : String} {t : Tombstone}
    (ht : all.lookup key = some t) :
    t.sequence ≤ d.decisionSequence := by
  by_cases hlost : s.Loses d key
  · obtain ⟨l, hl, -⟩ := id hlost
    obtain ⟨u, hu, -, -, -, -, hle⟩ := h.window.new key l hl hlost
    rw [ht, Option.some.injEq] at hu
    exact hu ▸ hle
  · rw [h.window.old key hlost] at ht
    exact (sound.tombstones key t ht).trans h.sequence

end DurableState

section Acts
variable {env : Env} {a : Act} {c c' : Coordinator} {s : DurableState} {all : Map String Tombstone}

theorem Took.loses_iff (h : Took env a c c') (swept : s.Swept c.state all) (sound : s.Sound)
    (hkeep : ∀ key l, c.state.leases.lookup key = some l → ∃ l', c'.state.leases.lookup key = some l' ∧
      l'.leaseID = l.leaseID)
    (key : String) : s.Loses c'.state key ↔ s.Loses c.state key := by
  constructor
  · rintro ⟨l, hl, hne⟩
    refine ⟨l, hl, fun l' hl' hid => ?_⟩
    obtain ⟨l'', hl'', hid'⟩ := hkeep key l' hl'
    exact hne l'' hl'' (hid'.trans hid)
  · rintro ⟨l, hl, hne⟩
    have hnone : c.state.leases.lookup key = none := by
      by_contra hsome
      obtain ⟨l', hl'⟩ := Option.ne_none_iff_exists'.mp hsome
      have hold := swept.leases key l' hl'
      rw [hl, Option.some.injEq] at hold
      exact hne l' hl' (by rw [hold])
    refine ⟨l, hl, fun l' hl' hid => ?_⟩
    rcases h.lease_cases key with hsame | ⟨p, k, l₁, rfl, hnew, makes⟩ | ⟨l₁, -, hold, -, -⟩ | ⟨-, -, -, -, -, hgone⟩
    · rw [hsame, hnone] at hl'
      cases hl'
    · -- a new lease is numbered above every lease before it
      rw [hnew, Option.some.injEq] at hl'
      subst hl'
      obtain ⟨pp, -, hmade⟩ := makes.made
      have hlease := sound.leases _ l hl
      rw [hmade.leaseID, hlease.leaseID] at hid
      have := (leaseIDOf_inj hid).2
      have := hlease.granted
      have := swept.sequence
      omega
    · rw [hnone] at hold
      cases hold
    · rw [hgone] at hl'
      cases hl'

theorem Took.window (h : Took env a c c') (swept : s.Swept c.state all) (sound : s.Sound) (sound' : c.state.Sound) :
    ∃ all', s.Window c'.state all' := by
  rcases h.window_cases sound' with ⟨htomb, hkeep⟩ | ⟨key, l, t, lease, hleases, newest, hp, hk, hid, hseq, hseq'⟩
  · have hloses := h.loses_iff swept sound hkeep
    refine ⟨all, fun key hnot => swept.window.old key (mt (hloses key).mpr hnot), fun key l hl hlost => ?_,
      c.state.tombstones, swept.newest, htomb⟩
    obtain ⟨t, hall, hp, hk, hid, hlt, hle⟩ := swept.window.new key l hl ((hloses key).mp hlost)
    exact ⟨t, hall, hp, hk, hid, hlt, hle.trans h.sequence_le⟩
  · have hold := swept.leases key l lease
    have hother {j : String} (hj : j ≠ key) : c'.state.leases.lookup j = c.state.leases.lookup j := by
      rw [hleases, Finmap.lookup_erase_ne hj]
    have hkept : ¬s.Loses c.state key := by
      rintro ⟨l', hl', hne⟩
      rw [hold, Option.some.injEq] at hl'
      exact hne l lease (by rw [hl'])
    have hlost : s.Loses c'.state key := by
      refine ⟨l, hold, fun l' hl' => ?_⟩
      rw [hleases, Finmap.lookup_erase] at hl'
      cases hl'
    have hkey : all.lookup key = none := by
      rw [swept.window.old key hkept]
      exact Finmap.lookup_eq_none.mpr (sound.valid.disjoint key (Finmap.mem_of_lookup_eq_some hold))
    refine ⟨all.insert key t, fun j hj => ?_, fun j lj hlj hj => ?_, c'.state.tombstones,
      swept.newest.extended newest hkey (fun j u hu => ?_), (h.sound sound').valid.tombstones_filter.symm⟩
    · have hne : j ≠ key := fun heq => hj (heq ▸ hlost)
      rw [Finmap.lookup_insert_of_ne _ hne]
      refine swept.window.old j fun hold => hj ?_
      rwa [DurableState.Loses, hother hne]
    · by_cases hne : j = key
      · subst hne
        rw [hold, Option.some.injEq] at hlj
        subst hlj
        have := swept.sequence
        exact ⟨t, Finmap.lookup_insert _, hp, hk, hid, by omega, by omega⟩
      · rw [DurableState.Loses, hother hne] at hj
        obtain ⟨u, hu, hp', hk', hid', hlt, hle⟩ := swept.window.new j lj hlj hj
        exact ⟨u, by rw [Finmap.lookup_insert_of_ne _ hne, hu], hp', hk', hid', hlt, hle.trans h.sequence_le⟩
    · have := swept.all_le sound hu
      omega

theorem sweptFor_swept (hset : c.state.FencesSet) (sound : c.state.Sound) (bounded : c.state.Bounded) (env : Env)
    (call : Call) : ∃ all, c.state.Swept (c.sweptFor env call).state all := by
  rcases sweptFor_cases hset env call with hs | ⟨hs, -⟩
  · rw [hs]
    exact ⟨_, DurableState.Window.refl sound.valid bounded, bounded.newest, fun _ _ hl => hl, le_rfl⟩
  · rw [hs]
    refine ⟨_, sound.window_discardAll expiredLeases_nodup (fun e he => ?_) env.order, DurableState.compact_newest _ _,
      fun key l hl => ?_, sequence_follows.swept c env⟩
    · obtain ⟨hl, hp, -⟩ := mem_expiredLeases.mp he
      exact ⟨hl, hp⟩
    · rw [expelled_leases] at hl
      split at hl
      · cases hl
      · exact hl

theorem Course.window {call : Call} {a : Option Act} (course : Course env call a c c') (hset : c.state.FencesSet)
    (sound : c.state.Sound) (bounded : c.state.Bounded) : ∃ all, c.state.Window c'.state all := by
  obtain ⟨c₁, c₂, c₃, h₁, hdoes, h₂, hr⟩ := course
  obtain ⟨all, swept⟩ := sweptFor_swept hset sound bounded env call
  have sound₁ : c₁.state.Sound := by
    rw [h₁.state]
    exact sweptFor_sound hset sound env call
  rw [← h₁.state] at swept
  obtain ⟨all', window⟩ : ∃ all', c.state.Window c₂.state all' := by
    cases a with
    | none => exact ⟨all, hdoes ▸ swept.window⟩
    | some a => exact Took.window hdoes swept sound sound₁
  have hframe := hr.frame
  rw [h₂.state] at hframe
  exact ⟨all', window.of_frame (by rw [hframe]) (by rw [hframe]) (by rw [hframe])⟩

end Acts

section Steps
variable {w w' : World} {e : Event} {reply : Reply}

theorem Moved.window (moved : Moved w e reply w') (synced : w.Synced) (sound : w.ledger.Sound)
    (bounded : w.ledger.Bounded) :
    ∃ all, w.ledger.Window w'.ledger all := by
  have synced' := World.moved_upheld synced_upheld synced synced moved
  have hrefl : ∃ all, w.ledger.Window w.ledger all := ⟨_, DurableState.Window.refl sound.valid bounded⟩
  cases moved with
  | clock | idle | refused | opened => exact hrefl
  | @call c c' call _ _ _ _ running course _ =>
    rw [World.Synced.ledger synced running] at sound bounded ⊢
    rw [World.Synced.ledger synced' rfl]
    exact course.window (synced c running).fences sound bounded
  | pruned valid _ =>
    rw [World.Synced.ledger synced' rfl]
    exact ⟨_, sound.window_discardAll DurableState.restoredProvisionals_nodup
      (fun _ he => DurableState.mem_restoredProvisionals.mp he) _⟩

theorem named_kept : Kept fun s => s.Sound ∧ s.TombstonesNamed where
  swept env h := ⟨sound_kept.swept env h.1,
    h.2.discardAll h.1 expiredLeases_nodup (fun _ he => (mem_expiredLeases.mp he).1) env.order⟩
  act took h := ⟨took.sound h.1, took.named h.2⟩
  record on h := ⟨sound_kept.record on h.1, h.2⟩
  pruned o valid h := ⟨sound_kept.pruned o valid h.1, h.2.discardAll h.1 DurableState.restoredProvisionals_nodup
    (fun _ he => (DurableState.mem_restoredProvisionals.mp he).1) o⟩

end Steps

/-! ## Releasing again -/

section Again
variable {env : Env} {c : Coordinator} {p k : String} {call : Call}

def Coordinator.SweepSucceeds (c : Coordinator) (env : Env) : Prop := env.saves.sweep = true ∨ c.expiredLeases env = []

theorem sweep_succeeds (hset : c.state.FencesSet) (h : c.SweepSucceeds env) (hsweeps : call.sweeps = true) :
    ∃ keys, c.sweepExpiredLocked env = (c.sweptFor env call, .ok keys) := by
  unfold Coordinator.sweptFor
  rw [if_pos hsweeps]
  rcases sweep_cases hset env with ⟨-, hs⟩ | ⟨hne, hfail, hs⟩ | ⟨-, -, hs⟩
  · exact ⟨_, by rw [hs]⟩
  · rcases h with hsave | hnil
    · rw [hsave] at hfail
      cases hfail
    · exact absurd hnil hne
  · exact ⟨_, by rw [hs]⟩

theorem removed_again {command : Command} {reason : TombstoneReason} {evidence : String} (hset : c.state.FencesSet)
    (hsweeps : call.sweeps = true) (succeeds : c.SweepSucceeds env) (hp : profileIDPattern p = true)
    (hcmd : command.isLeaseDecision = true) (valid : (c.sweptFor env call).state.Valid)
    (htomb : leaseKey p k ∈ (c.sweptFor env call).state.tombstones) :
    let result := (c.deciding env command p Except.isOk fun c =>
      c.swept env fun c _ => c.tombstoneLocked env p k reason evidence).map id Reply.ofUnit
    result.2 = .done ∧ Records (c.sweptFor env call) result.1 := by
  obtain ⟨keys, hs⟩ := sweep_succeeds hset succeeds hsweeps
  have habsent : (c.sweptFor env call).state.leases.lookup (leaseKey p k) = none :=
    Finmap.lookup_eq_none.mpr fun hlease => valid.disjoint _ hlease htomb
  have hagain : (c.sweptFor env call).tombstoneLocked env p k reason evidence = (c.sweptFor env call, .ok ()) := by
    unfold tombstoneLocked
    dsimp only
    rw [habsent]
    exact if_pos htomb
  have hswept : (c.swept env fun c _ => c.tombstoneLocked env p k reason evidence) = (c.sweptFor env call, .ok ()) := by
    unfold swept
    rw [hs]
    exact hagain
  unfold deciding
  dsimp only
  rw [hswept]
  refine ⟨rfl, ?_⟩
  show Records _ ((c.sweptFor env call).recordDecisionLocked env command p true none)
  exact records_decision _ valid.fencesSet hcmd hp

theorem release_again (hset : c.state.FencesSet) (succeeds : c.SweepSucceeds env) (hp : profileIDPattern p = true)
    (hk : slotKeyPattern k = true) (valid : (c.sweptFor env (.release p k)).state.Valid)
    (htomb : leaseKey p k ∈ (c.sweptFor env (.release p k)).state.tombstones) :
    (c.call env (.release p k)).2 = .done ∧ Records (c.sweptFor env (.release p k)) (c.call env (.release p k)).1 := by
  have hid : validateLeaseIdentity p k = .ok () := validateLeaseIdentity_ok.mpr ⟨hp, hk⟩
  have hsweeps : (Call.release p k).sweeps = true := isOk_of_ok hid
  simp only [Coordinator.call, release, hid]
  exact removed_again hset hsweeps succeeds hp rfl valid htomb

theorem reconcile_again {evidence : String} (hset : c.state.FencesSet) (succeeds : c.SweepSucceeds env)
    (hp : profileIDPattern p = true) (hk : slotKeyPattern k = true) (hev : (sanitizeEvidence evidence).isOk = true)
    (valid : (c.sweptFor env (.reconcile p k evidence)).state.Valid)
    (htomb : leaseKey p k ∈ (c.sweptFor env (.reconcile p k evidence)).state.tombstones) :
    (c.call env (.reconcile p k evidence)).2 = .done ∧
      Records (c.sweptFor env (.reconcile p k evidence)) (c.call env (.reconcile p k evidence)).1 := by
  have hid : validateLeaseIdentity p k = .ok () := validateLeaseIdentity_ok.mpr ⟨hp, hk⟩
  have hsweeps : (Call.reconcile p k evidence).sweeps = true := by
    simp only [Call.sweeps, isOk_of_ok hid, hev, Bool.and_self]
  cases hs : sanitizeEvidence evidence with
  | error e =>
    rw [isOk_of_error hs] at hev
    cases hev
  | ok sanitized =>
    simp only [Coordinator.call, reconcile, hid, hs]
    exact removed_again hset hsweeps succeeds hp rfl valid htomb

end Again

/-- In every state of every run from an empty store: the tombstones have distinct sequences, none above the
    decision sequence, no slot has both a lease and a tombstone, and there are at most `maxTombstones`; every
    event leaves the newest of the tombstones before it and of those of the leases it lost, except for slots
    that it gave a lease; and a release, or a reconciliation with acceptable evidence, of a slot whose
    tombstone outlasts the sweep of the call succeeds and adds to that sweep only the record of the
    decision. -/
theorem tombstone_window (now : Int) (events : List Event) :
    let w := (World.initial now none).exec events
    ((∀ key key' t t', w.ledger.tombstones.lookup key = some t → w.ledger.tombstones.lookup key' = some t' →
          t.sequence = t'.sequence → key = key') ∧
        (∀ key t, w.ledger.tombstones.lookup key = some t → t.sequence ≤ w.ledger.decisionSequence) ∧
        (∀ key, key ∈ w.ledger.leases → key ∉ w.ledger.tombstones) ∧
        w.ledger.tombstones.keys.card ≤ DurableState.maxTombstones) ∧
      (∀ e, ∃ all, w.ledger.Window (w.step e).1.ledger all) ∧
      ∀ c, w.process = .running c → ∀ order saves, c.SweepSucceeds { now := w.now, order, saves } →
        ∀ key t evidence, (sanitizeEvidence evidence).isOk = true →
          ∀ call ∈ [Call.release t.profileID t.slotKey, Call.reconcile t.profileID t.slotKey evidence],
            (c.sweptFor { now := w.now, order, saves } call).state.tombstones.lookup key = some t →
              (w.step (.call call order saves)).2 = .done ∧
                ∃ c', (w.step (.call call order saves)).1.process = .running c' ∧
                  Records (c.sweptFor { now := w.now, order, saves } call) c' := by
  intro w
  have synced : w.Synced := World.exec_synced now none events
  have sound : w.ledger.Sound := World.exec_sound now events
  have start : (World.initial now none).ledger.Bounded := Nat.zero_le _
  have bounded : w.ledger.Bounded := World.exec_kept bounded_kept start events
  have start' : (World.initial now none).ledger.Sound ∧ (World.initial now none).ledger.TombstonesNamed :=
    ⟨DurableState.newDurableState_sound, fun _ _ ht => by cases ht⟩
  have named : w.ledger.Sound ∧ w.ledger.TombstonesNamed := World.exec_kept named_kept start' events
  refine ⟨⟨sound.distinct, sound.tombstones, sound.valid.disjoint, bounded⟩,
    fun e => (World.step_moved synced e).window synced sound bounded, ?_⟩
  intro c running order saves succeeds key t evidence hev call hcall ht
  have hset := (synced c running).fences
  rw [World.Synced.ledger synced running] at named
  have named' : (c.sweptFor { now := w.now, order, saves } call).state.Sound ∧
      (c.sweptFor { now := w.now, order, saves } call).state.TombstonesNamed := named_kept.follows.sweptFor hset named
  have valid := named'.1.valid
  obtain ⟨hp, hk⟩ := named'.2 key t ht
  have hkey : key = leaseKey t.profileID t.slotKey := valid.tombstones key t ht
  subst hkey
  have htomb := Finmap.mem_of_lookup_eq_some ht
  have hstep : w.step (.call call order saves) =
      ({ w with process := .running (c.call { now := w.now, order, saves } call).1 },
        (c.call { now := w.now, order, saves } call).2) := by
    simp only [World.step, running]
  rw [hstep]
  rw [List.mem_pair] at hcall
  rcases hcall with rfl | rfl
  · obtain ⟨hreply, hrecords⟩ := release_again hset succeeds hp hk valid htomb
    exact ⟨hreply, _, rfl, hrecords⟩
  · obtain ⟨hreply, hrecords⟩ := reconcile_again hset succeeds hp hk hev valid htomb
    exact ⟨hreply, _, rfl, hrecords⟩

def alphaReleased : List Event := alphaGranted ++ [.plain (.release "alpha" "slot-1")]

/-- The slot is released a second time. -/
theorem tombstone_window_alphaReleased :
    (((World.initial 0 none).exec alphaReleased).step (.plain (.release "alpha" "slot-1"))).2 = .done :=
  ((tombstone_window 0 alphaReleased).2.2 _ rfl .sorted {} (Or.inl rfl) "alpha/slot-1"
    { profileID := "alpha", slotKey := "slot-1", leaseID := "alpha/slot-1#1", reason := .released,
      sequence := 2 } "seen"
    (by decide +kernel) (.release "alpha" "slot-1") List.mem_cons_self (by decide +kernel)).1

/-- Alpha's first slot has been released, and the lease of the second one is overdue. -/
def releasedBeside : List Event :=
  alphaReleased ++ [.plain (.acquire "alpha" "slot-2" 1), .clock 30000000000]

/-- The sweep of an acquisition writes a tombstone for the slot that the acquisition is then granted, so the
    call leaves none. Releasing a slot again takes an overdue lease of another slot, fails when the sweep cannot
    be saved, and a reconciliation without evidence fails. -/
theorem window_not_exact :
    let w := (World.initial 0 none).exec alphaOverdue
    let again := (w.step (.plain (.acquire "alpha" "slot-1" 1))).1
    let w' := (World.initial 0 none).exec releasedBeside
    let released := w'.step (.plain (.release "alpha" "slot-1"))
    (w.coordinator?.map fun c => (c.state.tombstones.keys,
        (c.sweepExpiredLocked { now := w.now, order := .sorted }).1.state.tombstones.lookup "alpha/slot-1")) =
          some (∅, some
            { profileID := "alpha", slotKey := "slot-1", leaseID := "alpha/slot-1#1", reason := .expired,
              sequence := 2 }) ∧
      again.ledger.tombstones.keys = ∅ ∧
      ("alpha/slot-1" ∈ w'.ledger.tombstones ∧ released.2 = .done ∧ "alpha/slot-2" ∈ w'.ledger.leases ∧
        "alpha/slot-2" ∉ released.1.ledger.leases) ∧
      (w'.step (.call (.release "alpha" "slot-1") .sorted { sweep := false })).2 = .failed .store ∧
      (w'.step (.plain (.reconcile "alpha" "slot-1" ""))).2 = .failed .evidenceRequired := by
  refine ⟨?_, ?_, ⟨?_, ?_, ?_, ?_⟩, ?_, ?_⟩ <;> decide +kernel

end PitCrew.Admission
