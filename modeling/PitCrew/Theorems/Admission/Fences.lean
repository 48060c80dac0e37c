import PitCrew.Theorems.Admission.Expiry

/-! # Adoption fences

A fence is raised over the slots of the active leases of its profile, by `BeginAdoption` or by the upgrade
of a document of the previous schema. Until it is lifted its pending slots are those slots without the
ones that were adopted, released or reconciled since, whatever fails or restarts in between. -/

namespace PitCrew.Admission
open Base Coordinator

def DurableState.ActiveAt (s : DurableState) (p k : String) : Prop :=
  ∃ l, s.leases.lookup (leaseKey p k) = some l ∧ l.profileID = p ∧ l.slotKey = k ∧ l.status = .active

def activeSlots (leases : Map String Lease) (p : String) : Set String :=
  { k | ∃ key l, leases.lookup key = some l ∧ l.profileID = p ∧ l.status = .active ∧ l.slotKey = k }

/-- The fence of a profile was raised over `slots`, and those in `done` have been accounted for. -/
structure DurableState.Fenced (s : DurableState) (p : String) (slots done : Set String) : Prop where
  profileID : profileIDPattern p = true
  fence : ∃ f, s.adoptionFences.lookup p = some f ∧ f.pending.Pairwise (· < ·) ∧
    ∀ k, k ∈ f.pending ↔ k ∈ slots ∧ k ∉ done
  active : ∀ k ∈ slots, k ∉ done → s.ActiveAt p k

/-! ## Acts on a fence -/

section Acts
variable {env : Env} {c c' : Coordinator} {p k : String} {slots done done' : Set String} {s s' : DurableState}

theorem DurableState.Fenced.congr (h : s.Fenced p slots done) (hdone : ∀ k ∈ slots, k ∈ done' ↔ k ∈ done) :
    s.Fenced p slots done' := by
  obtain ⟨f, hf, sorted, hpending⟩ := h.fence
  refine ⟨h.profileID, ⟨f, hf, sorted, fun k => ?_⟩, fun k hk hnot => ?_⟩
  · rw [hpending k]
    exact and_congr_right fun hk => not_congr (hdone k hk).symm
  · exact h.active k hk fun hd => hnot ((hdone k hk).mpr hd)

theorem DurableState.Fenced.transfer (h : s.Fenced p slots done)
    (hfences : s'.adoptionFences.lookup p = s.adoptionFences.lookup p)
    (hactive : ∀ k ∈ slots, s.ActiveAt p k → s'.ActiveAt p k) : s'.Fenced p slots done := by
  refine ⟨h.profileID, ?_, fun k hk hnot => hactive k hk (h.active k hk hnot)⟩
  rw [hfences]
  exact h.fence

theorem DurableState.Fenced.sweptFor (h : c.state.Fenced p slots done) (hset : c.state.FencesSet) (env : Env)
    (call : Call) : (c.sweptFor env call).state.Fenced p slots done := by
  refine h.transfer (by rw [sweptFor_fences hset]) fun k _ hk => ?_
  obtain ⟨l, hl, hp, hslot, hactive⟩ := hk
  exact ⟨l, sweptFor_lookup hset env call hl (by rw [hactive]; decide), hp, hslot, hactive⟩

theorem Took.activeAt {a : Act} (h : Took env a c c') (hp : profileIDPattern p = true) (hk : c.state.ActiveAt p k)
    (hnot : a.accountsFor ≠ some (p, k)) : c'.state.ActiveAt p k := by
  obtain ⟨l, hl, hlp, hlk, hactive⟩ := hk
  rcases h.continues_or_removed hl with ⟨l', hl', hc⟩ | ⟨q, j, t, rfl, hkey, hq, -⟩
  · exact ⟨l', hl', hc.profileID.trans hlp, hc.slotKey.trans hlk, (hc.active hactive).1⟩
  · obtain ⟨rfl, rfl⟩ := leaseKey_inj hp hq hkey
    exact absurd rfl hnot

theorem DurableState.Fenced.took {a : Act} (fenced : c.state.Fenced p slots done) (h : Took env a c c')
    (hset : c.state.FencesSet) (stays : p ∈ c'.state.adoptionFences) :
    c'.state.Fenced p slots (done ∪ { k | a.accountsFor = some (p, k) }) := by
  obtain ⟨f, hf, sorted, hpending⟩ := fenced.fence
  refine ⟨fenced.profileID, ?_, fun k hk hnot => ?_⟩
  · obtain ⟨f', hf'⟩ := Finmap.mem_iff.mp stays
    refine ⟨f', hf', ?_⟩
    rw [h.leaves.fences] at hf'
    rcases a.fences_cases hf' with ⟨rfl, -⟩ | ⟨hother, hold⟩ | ⟨k, hk, hmark⟩
    · cases h with
      | fence _ _ absent => exact absurd (Finmap.mem_of_lookup_eq_some hf) absent
    · rw [hf, Option.some.injEq] at hold
      subst hold
      refine ⟨sorted, fun k => ?_⟩
      simp [hpending k, hother k]
    · rw [DurableState.mark_fence_sorted hf (hset p f hf) sorted, Option.some.injEq] at hmark
      subst hmark
      refine ⟨sorted.sublist List.erase_sublist, fun j => ?_⟩
      have hnodup : f.pending.Nodup := sorted.imp ne_of_lt
      show j ∈ f.pending.erase k ↔ _
      rw [hnodup.mem_erase_iff, hpending j]
      simp only [Set.mem_union, Set.mem_ofPred_eq, hk, Option.some.injEq, Prod.mk.injEq, true_and, not_or]
      tauto
  · rw [Set.mem_union, not_or] at hnot
    exact h.activeAt fenced.profileID (fenced.active k hk hnot.1) hnot.2

end Acts

/-! ## Calls -/

def Accounts (p k : String) (t : Transition World Event Reply) : Prop :=
  (∃ order saves l, t.event = .call (.adopt p k) order saves ∧ t.reply = .lease l) ∨ Released p k t

theorem Fits.accounts {call : Call} {reply : Reply} {a : Option Act} (h : Fits call reply a) (w w' : World)
    (order : RangeOrder String) (saves : Saves) (p k : String) :
    Accounts p k ⟨w, .call call order saves, reply, w'⟩ ↔
      a.bind Act.accountsFor = some (p, k) ∨ a = some (.gone p k) := by
  cases h <;> simp [Accounts, Released, Act.accountsFor]

section Courses
variable {env : Env} {c c' : Coordinator} {call : Call} {a : Option Act} {p : String} {slots done : Set String}

theorem Records.fences (h : Records c c') : c'.state.adoptionFences = c.state.adoptionFences := by rw [h.frame]

theorem Course.gone {k : String} (course : Course env call (some (.gone p k)) c c')
    (hset : c.state.FencesSet) : ¬c.state.ActiveAt p k := by
  obtain ⟨c₁, c₂, c₃, h₁, hdoes, -, -⟩ := course
  rintro ⟨l, hl, -, -, hactive⟩
  have hswept := sweptFor_lookup hset env call hl (by rw [hactive]; decide)
  rw [← h₁.state] at hswept
  cases hdoes with
  | gone _ absent =>
    rw [absent] at hswept
    cases hswept

theorem Course.fenced (course : Course env call a c c') (hset : c.state.FencesSet)
    (fenced : c.state.Fenced p slots done) (stays : p ∈ c'.state.adoptionFences) :
    c'.state.Fenced p slots (done ∪ { k | a.bind Act.accountsFor = some (p, k) }) := by
  have fenced₁ := fenced.sweptFor hset env call
  have hset₁ : (c.sweptFor env call).state.FencesSet := sweptFor_fencesSet hset
  obtain ⟨c₁, c₂, c₃, h₁, hdoes, h₂, hrec⟩ := course
  rw [← h₁.state] at fenced₁ hset₁
  rw [hrec.fences, h₂.state] at stays
  have hend : ∀ done', c₂.state.Fenced p slots done' → c'.state.Fenced p slots done' := by
    intro done' h
    refine h.transfer (by rw [hrec.fences, h₂.state]) fun k _ hk => ?_
    rw [DurableState.ActiveAt, hrec.leases, h₂.state]
    exact hk
  cases a with
  | none =>
    rw [hdoes] at hend
    exact (hend done fenced₁).congr fun k _ => by simp
  | some a => exact hend _ (fenced₁.took hdoes hset₁ stays)

theorem Course.unfenced (course : Course env call a c c') (hset : c.state.FencesSet)
    (hbefore : p ∈ c.state.adoptionFences) (hafter : p ∉ c'.state.adoptionFences) :
    (a = some (.unfence p) ∧ ∃ f, c.state.adoptionFences.lookup p = some f ∧ f.pending = []) ∨
      ∃ policy, a = some (.policy policy) ∧ policy.profile p = none := by
  have hfences := sweptFor_fences hset env call
  obtain ⟨c₁, c₂, c₃, h₁, hdoes, h₂, hrec⟩ := course
  rw [hrec.fences, h₂.state] at hafter
  rw [← h₁.state] at hfences
  rw [← hfences] at hbefore ⊢
  cases a with
  | none =>
    rw [hdoes] at hafter
    exact absurd hbefore hafter
  | some a =>
    change Took env a c₁ c₂ at hdoes
    rw [hdoes.leaves.fences] at hafter
    cases hdoes with
    | @policy _ policy =>
      refine Or.inr ⟨policy, rfl, ?_⟩
      rw [Act.fences, Map.mem_iff_lookup, Map.lookup_filterKeys, not_not] at hafter
      split at hafter
      · exact absurd hafter (Map.mem_iff_lookup.mp hbefore)
      · next hnone => simpa using hnone
    | @unfence _ id f hfence accounted =>
      have hid : p = id := by
        by_contra hne
        rw [Act.fences, Map.mem_iff_lookup, Finmap.lookup_erase_ne hne] at hafter
        exact hafter (Map.mem_iff_lookup.mp hbefore)
      subst hid
      exact Or.inl ⟨rfl, f, hfence, accounted⟩
    | fence => exact absurd (Finmap.mem_insert.mpr (Or.inr hbefore)) hafter
    | account | promote | create | remove => exact absurd (DurableState.mark_mem_fences.mpr hbefore) hafter
    | grant | bind | keep | renew | activate | gone => exact absurd hbefore hafter

end Courses

/-! ## Runs -/

section Runs
variable {w w' : World} {e : Event} {reply : Reply} {p : String} {slots done : Set String}

theorem Moved.fenced (moved : Moved w e reply w') (synced : w.Synced) (fenced : w.ledger.Fenced p slots done)
    (stays : p ∈ w'.ledger.adoptionFences) :
    w'.ledger.Fenced p slots (done ∪ { k | Accounts p k ⟨w, e, reply, w'⟩ }) := by
  have synced' := World.moved_upheld synced_upheld synced synced moved
  have unaccounted {e : Event} {reply : Reply} (h : ∀ k, ¬Accounts p k ⟨w, e, reply, w'⟩)
      (kept : w'.ledger.Fenced p slots done) :
        w'.ledger.Fenced p slots (done ∪ { k | Accounts p k ⟨w, e, reply, w'⟩ }) :=
    kept.congr fun k _ => by simp [h k]
  cases moved with
  | clock | idle | refused | opened => exact unaccounted (by simp [Accounts, Released]) fenced
  | pruned =>
    refine unaccounted (by simp [Accounts, Released]) ?_
    rw [World.Synced.ledger synced' rfl]
    refine fenced.transfer (congrArg (Finmap.lookup p) DurableState.pruned_fences) fun k _ hk => ?_
    obtain ⟨l, hl, hp, hslot, hactive⟩ := hk
    exact ⟨l, DurableState.pruned_lookup.mpr ⟨hl, by rw [hactive]; decide⟩, hp, hslot, hactive⟩
  | @call c c' call order saves a reply running course fits =>
    rw [synced.ledger running] at fenced
    rw [World.Synced.ledger synced' rfl] at stays ⊢
    have hset := (synced c running).fences
    refine (course.fenced hset fenced stays).congr fun k hk => ?_
    rw [Set.mem_union, Set.mem_union, Set.mem_ofPred_eq, Set.mem_ofPred_eq, fits.accounts]
    constructor
    · rintro (hdone | haccounts | rfl)
      · exact Or.inl hdone
      · exact Or.inr haccounts
      · -- a slot without a lease was accounted for before
        by_contra hnot
        exact course.gone hset (fenced.active k hk fun hdone => hnot (Or.inl hdone))
    · rintro (hdone | haccounts)
      · exact Or.inl hdone
      · exact Or.inr (Or.inl haccounts)

theorem World.exec_fenced (synced : w.Synced) (fenced : w.ledger.Fenced p slots done) (events : List Event)
    (stays : ∀ t ∈ w.transitions events, p ∈ t.after.ledger.adoptionFences) :
    (w.exec events).ledger.Fenced p slots (done ∪ { k | ∃ t ∈ w.transitions events, Accounts p k t }) := by
  induction events generalizing w done with
  | nil => exact fenced.congr fun k _ => by simp [World.transitions, Base.transitions]
  | cons e events ih =>
    have moved := World.step_moved synced e
    have fenced' := moved.fenced synced fenced (stays _ List.mem_cons_self)
    refine (ih (World.step_synced synced e) fenced' fun t ht => stays t (List.mem_cons_of_mem _ ht)).congr fun k _ => ?_
    simp only [World.transitions, Base.transitions, List.exists_mem_cons_iff, Set.mem_union,
      Set.mem_ofPred_eq, or_assoc]

/-- The step raises the fence of a profile over the slots of its active leases: an adoption begins, or a
    process opens a document of the previous schema that has the fence. -/
def Raises (t : Transition World Event Reply) (p : String) (slots : Set String) : Prop :=
  (∃ order saves, t.event = .call (.beginAdoption p) order saves ∧ p ∉ t.before.ledger.adoptionFences ∧
    p ∈ t.after.ledger.adoptionFences ∧ slots = activeSlots t.before.ledger.leases p) ∨
  ∃ ttl order saves document, t.event = .restart ttl order saves ∧ t.reply = .done ∧
    t.before.store.document = some document ∧ document.schemaVersion = previousStateSchemaVersion ∧
    p ∈ document.adoptionFences ∧ slots = activeSlots document.leases p

theorem DurableState.fenced_of_listed {s : DurableState} {leases : Map String Lease} {f : AdoptionFence}
    (hp : profileIDPattern p = true) (keyed : ∀ key l, leases.lookup key = some l → key = l.key)
    (kept : ∀ key l, leases.lookup key = some l → l.status = .active → s.leases.lookup key = some l)
    (hf : s.adoptionFences.lookup p = some f) (hpending : f.pending = activeLeaseSlotKeys leases p) :
    s.Fenced p (activeSlots leases p) ∅ := by
  refine ⟨hp, ⟨f, hf, ?_, fun k => ?_⟩, fun k hk _ => ?_⟩
  · rw [hpending]
    exact activeLeaseSlotKeys_sorted keyed p
  · rw [hpending, mem_activeLeaseSlotKeys]
    simp [activeSlots]
  · obtain ⟨key, l, hl, hlp, hactive, hlk⟩ := hk
    have hkey := keyed key l hl
    rw [Lease.key, hlp, hlk] at hkey
    exact ⟨l, hkey ▸ kept key l hl hactive, hlp, hlk, hactive⟩

theorem DurableState.lookup_upgrade {s : DurableState} (h : s.schemaVersion = previousStateSchemaVersion)
    {f : AdoptionFence} (hf : s.adoptionFences.lookup p = some f) : s.upgrade.adoptionFences.lookup p =
      some { f with pendingLeaseKeys := some (activeLeaseSlotKeys s.leases p) } := by
  rw [upgrade, if_pos h]
  simp [hf]

theorem DurableState.upgrade_leases (s : DurableState) : s.upgrade.leases = s.leases := by
  unfold upgrade
  split <;> rfl

theorem Course.raised {env : Env} {c c' : Coordinator} {a : Option Act} (course : Course env (.beginAdoption p) a c c')
    (fits : Fits (.beginAdoption p) reply a) (keyed : c.state.Keyed) (habsent : p ∉ c.state.adoptionFences)
    (hpresent : p ∈ c'.state.adoptionFences) : c'.state.Fenced p (activeSlots c.state.leases p) ∅ := by
  obtain ⟨c₁, c₂, c₃, h₁, hdoes, h₂, hrec⟩ := course
  rw [hrec.fences, h₂.state] at hpresent
  have hstate : c₁.state = c.state := h₁.state
  cases a with
  | none =>
    rw [hdoes, hstate] at hpresent
    exact absurd hpresent habsent
  | some a =>
    cases fits with
    | fence =>
      change Took _ _ c₁ c₂ at hdoes
      have hleases : c'.state.leases = c.state.leases := by
        rw [hrec.leases, h₂.state, hdoes.leaves.leases, hstate]
        rfl
      have hfences : c'.state.adoptionFences.lookup p = some
          { profileID := p, pendingLeaseKeys := some (DurableState.activeLeaseSlotKeys c.state.leases p) } := by
        rw [hrec.fences, h₂.state, hdoes.leaves.fences, Act.fences, hstate]
        exact Finmap.lookup_insert _
      cases hdoes with
      | fence valid => exact DurableState.fenced_of_listed valid keyed (fun key l hl _ => hleases ▸ hl) hfences rfl

/-- A document of the previous schema does not list the slots of its fences; they are listed when it is
    opened. -/
theorem Moved.upgraded {ttl : Int} {order : RangeOrder String} {saves : Saves} {document : DurableState}
    (moved : Moved w (.restart ttl order saves) .done w') (synced : w.Synced) (hdoc : w.store.document = some document)
    (hschema : document.schemaVersion = previousStateSchemaVersion) (hf : p ∈ document.adoptionFences) :
    w'.ledger.Fenced p (activeSlots document.leases p) ∅ := by
  have synced' := World.moved_upheld synced_upheld synced synced moved
  obtain ⟨f, hf⟩ := Finmap.mem_iff.mp hf
  have hledger : w.ledger = document.upgrade := by rw [World.ledger, Store.ledger, hdoc]
  have hfence := DurableState.lookup_upgrade hschema hf
  rw [← hledger] at hfence
  have hleases : w.ledger.leases = document.leases := by rw [hledger, DurableState.upgrade_leases]
  rw [← hleases] at hfence ⊢
  cases moved with
  | opened valid _ =>
    exact DurableState.fenced_of_listed (valid.fences p _ hfence).profileID
      (fun key l hl => (valid.leases key l hl).key)
      (fun _ _ hl _ => hl) hfence rfl
  | pruned valid _ =>
    rw [World.Synced.ledger synced' rfl]
    refine DurableState.fenced_of_listed (valid.fences p _ hfence).profileID
      (fun key l hl => (valid.leases key l hl).key) (fun key l hl hactive => ?_)
      ((congrArg (Finmap.lookup p) DurableState.pruned_fences).trans hfence) rfl
    exact DurableState.pruned_lookup.mpr ⟨hl, by rw [hactive]; decide⟩

theorem Moved.raised (moved : Moved w e reply w') (synced : w.Synced) (keyed : w.Keyed)
    (raises : Raises ⟨w, e, reply, w'⟩ p slots) : w'.ledger.Fenced p slots ∅ := by
  have synced' := World.moved_upheld synced_upheld synced synced moved
  rcases raises with ⟨order, saves, he, habsent, hpresent, rfl⟩ |
    ⟨ttl, order, saves, document, he, hreply, hdoc, hschema, hf, rfl⟩
  · dsimp only at he habsent hpresent
    subst he
    cases moved with
    | idle => exact absurd hpresent habsent
    | @call c c' _ _ _ a reply running course fits =>
      rw [World.Synced.ledger synced' rfl] at hpresent ⊢
      dsimp only
      rw [synced.ledger running] at habsent ⊢
      exact course.raised fits (keyed c running) habsent hpresent
  · dsimp only at he hreply hdoc
    subst he hreply
    exact moved.upgraded synced hdoc hschema hf

theorem Moved.unfenced (moved : Moved w e reply w') (synced : w.Synced) (hbefore : p ∈ w.ledger.adoptionFences)
    (hafter : p ∉ w'.ledger.adoptionFences) :
    (∃ order saves f, e = .call (.completeAdoption p) order saves ∧ reply = .done ∧
        w.ledger.adoptionFences.lookup p = some f ∧ f.pending = []) ∨
      ∃ policy order saves, e = .call (.applyPolicy policy) order saves ∧ reply = .done ∧ policy.profile p = none := by
  have synced' := World.moved_upheld synced_upheld synced synced moved
  cases moved with
  | clock | idle | refused | opened => exact absurd hbefore hafter
  | pruned =>
    rw [World.Synced.ledger synced' rfl] at hafter
    refine absurd ?_ hafter
    show p ∈ (w.ledger.pruned _).adoptionFences
    rw [DurableState.pruned_fences]
    exact hbefore
  | @call c c' call order saves a reply running course fits =>
    rw [synced.ledger running] at hbefore ⊢
    rw [World.Synced.ledger synced' rfl] at hafter
    rcases course.unfenced (synced c running).fences hbefore hafter with ⟨rfl, f, hf, hpending⟩ | ⟨policy, rfl, hnone⟩
    · cases fits with
      | unfence => exact Or.inl ⟨order, saves, f, rfl, rfl, hf, hpending⟩
    · cases fits with
      | policy => exact Or.inr ⟨policy, order, saves, rfl, rfl, hnone⟩

theorem Moved.acquire_fenced (moved : Moved w e reply w') (synced : w.Synced) {q k : String} {n : Int}
    {order : RangeOrder String} {saves : Saves} (he : e = .call (.acquire q k n) order saves)
    (hfence : p ∈ w.ledger.adoptionFences) :
    (∀ l, reply ≠ .lease l) ∧
      ∀ key l, w'.ledger.leases.lookup key = some l → w.ledger.leases.lookup key = some l := by
  have synced' := World.moved_upheld synced_upheld synced synced moved
  subst he
  cases moved with
  | idle => exact ⟨nofun, fun _ _ hl => hl⟩
  | @call c c' _ _ _ a reply running course fits =>
    rw [synced.ledger running] at hfence ⊢
    rw [World.Synced.ledger synced' rfl]
    have hset := (synced c running).fences
    cases fits with
    | failed =>
      refine ⟨nofun, fun key l hl => ?_⟩
      rcases course.lease_old_or_new hl with hold | ⟨b, hb, -⟩
      · exact (sweptFor_deadline hset _ _ hold).1
      · cases hb
    | grant =>
      -- a grant finds no fence at all
      rw [← sweptFor_fences hset { now := w.now, order, saves } (.acquire q k n)] at hfence
      obtain ⟨c₁, c₂, c₃, h₁, hdoes, -, -⟩ := course
      rw [← h₁.state, ← Finmap.mem_keys] at hfence
      cases hdoes with
      | grant _ _ _ unfenced =>
        rw [Finset.card_eq_zero.mp unfenced] at hfence
        cases hfence

theorem Moved.completed (moved : Moved w e reply w') (synced : w.Synced) {order : RangeOrder String} {saves : Saves}
    (he : e = .call (.completeAdoption p) order saves) (fenced : w.ledger.Fenced p slots done)
    (hafter : p ∉ w'.ledger.adoptionFences) : slots ⊆ done := by
  obtain ⟨f, hf, -, hpending⟩ := fenced.fence
  rcases moved.unfenced synced (Finmap.mem_of_lookup_eq_some hf) hafter with
    ⟨-, -, f', -, -, hf', hnil⟩ | ⟨policy, order', saves', he', -, -⟩
  · rw [hf, Option.some.injEq] at hf'
    subst hf'
    intro k hk
    by_contra hnot
    have := (hpending k).mpr ⟨hk, hnot⟩
    rw [hnil] at this
    cases this
  · rw [he] at he'
    cases he'

theorem World.fenced_since {now : Int} {document : Option DurableState} {xs ys : List Event}
    (raises : Raises ((initial now document).stepAfter xs e) p slots)
    (stays : ∀ t ∈ ((initial now document).exec (xs ++ [e])).transitions ys, p ∈ t.after.ledger.adoptionFences) :
    ((initial now document).exec (xs ++ e :: ys)).ledger.Fenced p slots
      { k | ∃ t ∈ ((initial now document).exec (xs ++ [e])).transitions ys, Accounts p k t } := by
  have synced := exec_synced now document xs
  have keyed : ((initial now document).exec xs).Keyed := fun c => exec_upheld keyed_upheld now document xs
  have raised := (step_moved synced e).raised synced keyed raises
  have hstep : (initial now document).exec (xs ++ [e]) = (((initial now document).exec xs).step e).1 := exec_concat ..
  rw [← hstep] at raised
  have hexec : (initial now document).exec (xs ++ e :: ys) = ((initial now document).exec (xs ++ [e])).exec ys := by
    rw [List.append_cons]
    exact exec_append ..
  rw [hexec]
  exact (exec_fenced (exec_synced now document (xs ++ [e])) raised ys stays).congr fun k _ => by simp

end Runs

/-- Along every run, from any document and with any failing saves and restarts: an acquisition behind a fence
    makes no lease; while a fence that was raised over the slots of the active leases of its profile stays,
    its pending slots are in order, are those not yet adopted, released or reconciled, and have active
    leases, so that a completed adoption has accounted for all; and a fence goes only by a completed adoption
    or by a policy without its profile. -/
theorem adoption_fences (now : Int) (document : Option DurableState) :
    (∀ events, ∀ t ∈ (World.initial now document).transitions events, ∀ p k n order saves,
      t.event = .call (.acquire p k n) order saves → (∃ id, id ∈ t.before.ledger.adoptionFences) →
      (∀ l, t.reply ≠ .lease l) ∧
        ∀ key l, t.after.ledger.leases.lookup key = some l → t.before.ledger.leases.lookup key = some l) ∧
    (∀ xs e ys p slots, Raises ((World.initial now document).stepAfter xs e) p slots →
      (∀ t ∈ ((World.initial now document).exec (xs ++ [e])).transitions ys, p ∈ t.after.ledger.adoptionFences) →
      (∃ f, ((World.initial now document).exec (xs ++ e :: ys)).ledger.adoptionFences.lookup p = some f ∧
        f.pending.Pairwise (· < ·) ∧
        (∀ k, k ∈ f.pending ↔ k ∈ slots ∧
          ∀ t ∈ ((World.initial now document).exec (xs ++ [e])).transitions ys, ¬Accounts p k t) ∧
        ∀ k ∈ f.pending, ((World.initial now document).exec (xs ++ e :: ys)).ledger.ActiveAt p k) ∧
      ∀ order saves,
        p ∉ ((World.initial now document).exec
          (xs ++ e :: ys ++ [.call (.completeAdoption p) order saves])).ledger.adoptionFences →
        ∀ k ∈ slots, ∃ t ∈ ((World.initial now document).exec (xs ++ [e])).transitions ys, Accounts p k t) ∧
    ∀ events, ∀ t ∈ (World.initial now document).transitions events, ∀ p,
      p ∈ t.before.ledger.adoptionFences → p ∉ t.after.ledger.adoptionFences →
      (∃ order saves f, t.event = .call (.completeAdoption p) order saves ∧ t.reply = .done ∧
        t.before.ledger.adoptionFences.lookup p = some f ∧ f.pending = []) ∨
      ∃ policy order saves, t.event = .call (.applyPolicy policy) order saves ∧ t.reply = .done ∧
        policy.profile p = none := by
  refine ⟨?_, ?_, ?_⟩
  · rintro events t ht p k n order saves he ⟨id, hid⟩
    obtain ⟨synced, moved⟩ := World.moved_of_mem ht
    exact moved.acquire_fenced synced he hid
  · intro xs e ys p slots raises stays
    have fenced := World.fenced_since raises stays
    obtain ⟨f, hf, sorted, hpending⟩ := fenced.fence
    refine ⟨⟨f, hf, sorted, fun k => ?_, fun k hk => ?_⟩, fun order saves hlifted k hk => ?_⟩
    · rw [hpending k]
      simp
    · exact fenced.active k ((hpending k).mp hk).1 ((hpending k).mp hk).2
    · have synced := World.exec_synced now document (xs ++ e :: ys)
      have hstep : (World.initial now document).exec (xs ++ e :: ys ++ [.call (.completeAdoption p) order saves]) =
          (((World.initial now document).exec (xs ++ e :: ys)).step (.call (.completeAdoption p) order saves)).1 :=
        exec_concat ..
      rw [hstep] at hlifted
      exact (World.step_moved synced _).completed synced rfl fenced hlifted hk
  · intro events t ht p hbefore hafter
    obtain ⟨synced, moved⟩ := World.moved_of_mem ht
    exact moved.unfenced synced hbefore hafter

/-- The active lease fenced by the start of an adoption. -/
def alphaFenced : List Event := alphaActive ++ [.plain (.beginAdoption "alpha")]

/-- An acquisition behind the fence fails, the fence goes once its slot has been adopted, and it goes by the
    completion. -/
theorem adoption_fences_alphaFenced :
    (∀ l, ((World.initial 0 none).stepAfter alphaFenced (.plain (.acquire "alpha" "slot-2" 1))).reply ≠ .lease l) ∧
      (∃ t ∈ ((World.initial 0 none).exec alphaFenced).transitions [.start, .plain (.adopt "alpha" "slot-1")],
        Accounts "alpha" "slot-1" t) ∧
      ∃ f, ((World.initial 0 none).exec
        (alphaFenced ++ [.start, .plain (.adopt "alpha" "slot-1")])).ledger.adoptionFences.lookup
        "alpha" = some f ∧ f.pending = [] := by
  have raises : Raises ((World.initial 0 none).stepAfter alphaActive (.plain (.beginAdoption "alpha"))) "alpha" _ :=
    Or.inl ⟨_, _, rfl, by decide +kernel, by decide +kernel, rfl⟩
  refine ⟨?_, ?_, ?_⟩
  · exact ((adoption_fences 0 none).1 _ _ (World.stepAfter_mem _ _ _) _ _ _ _ _ rfl ⟨"alpha", by decide +kernel⟩).1
  · exact ((adoption_fences 0 none).2.1 alphaActive _ [.start, .plain (.adopt "alpha" "slot-1")] _ _ raises
      (by decide +kernel)).2 .sorted {} (by decide +kernel) "slot-1"
        ⟨"alpha/slot-1", alphaLease, by decide +kernel, rfl, rfl, rfl⟩
  · rcases (adoption_fences 0 none).2.2 _ _ (World.stepAfter_mem _
      (alphaFenced ++ [.start, .plain (.adopt "alpha" "slot-1")])
        (.plain (.completeAdoption "alpha"))) "alpha" (by decide +kernel) (by decide +kernel) with
      ⟨-, -, f, -, -, hf, hpending⟩ | ⟨_, _, _, he, -, -⟩
    · exact ⟨f, hf, hpending⟩
    · cases he

/-! ## Epoch and decision sequence -/

/-- A later ledger, whose epoch and decision sequence tell what is still as it was. -/
structure DurableState.Later (s s' : DurableState) : Prop where
  epoch : s.epoch ≤ s'.epoch
  sequence : s.decisionSequence ≤ s'.decisionSequence
  policy : s'.policy = s.policy ∨ s.policy.generation < s'.policy.generation
  sameEpoch : s.epoch = s'.epoch → s'.policy = s.policy ∧ ∀ p, p ∈ s'.adoptionFences ↔ p ∈ s.adoptionFences
  sameSequence : s.decisionSequence = s'.decisionSequence → s'.leases = s.leases

theorem DurableState.Later.trans {s₁ s₂ s₃ : DurableState} (h₁ : s₁.Later s₂) (h₂ : s₂.Later s₃) : s₁.Later s₃ := by
  have hepoch := h₁.epoch
  have hepoch' := h₂.epoch
  have hsequence := h₁.sequence
  have hsequence' := h₂.sequence
  refine ⟨by omega, by omega, ?_, fun h => ?_, fun h => ?_⟩
  · rcases h₁.policy with h | h <;> rcases h₂.policy with h' | h'
    · exact .inl (h'.trans h)
    · exact .inr (h ▸ h')
    · exact .inr (h' ▸ h)
    · exact .inr (h.trans h')
  · obtain ⟨hpolicy, hfences⟩ := h₁.sameEpoch (by omega)
    obtain ⟨hpolicy', hfences'⟩ := h₂.sameEpoch (by omega)
    exact ⟨hpolicy'.trans hpolicy, fun p => (hfences' p).trans (hfences p)⟩
  · exact (h₂.sameSequence (by omega)).trans (h₁.sameSequence (by omega))

theorem DurableState.later_discardAll (s : DurableState) (reason : TombstoneReason) (l : List (String × Lease))
    (o : RangeOrder String) : s.Later ((s.discardAll reason l).compactTombstones o) := by
  have hframe := discardAll_frame reason s l
  have hsequence : (s.discardAll reason l).decisionSequence = s.decisionSequence + l.length := discardAll_sequence l
  refine ⟨?_, ?_, .inl ?_, fun _ => ⟨?_, fun p => ?_⟩, fun h => ?_⟩
  · rw [compact_epoch, hframe]
  · rw [compact_sequence, hsequence]
    omega
  · rw [compact_policy, hframe]
  · rw [compact_policy, hframe]
  · rw [compact_fences, hframe]
  · rw [compact_sequence, hsequence] at h
    obtain rfl := List.eq_nil_of_length_eq_zero (by omega : l.length = 0)
    exact compact_leases

theorem Took.later {env : Env} {a : Act} {c c' : Coordinator} (h : Took env a c c') : c.state.Later c'.state := by
  have hleaves := h.leaves
  have hepoch := hleaves.epoch
  have hsequence := hleaves.sequence
  refine ⟨by omega, by omega, ?_, fun heq => ?_, fun heq => ?_⟩
  · cases h with
    | policy _ newer => exact .inr newer
    | _ => exact .inl (hleaves.policy_eq fun _ h => by cases h)
  · have ha : a.epochs = 0 := by omega
    rw [hleaves.policy, hleaves.fences]
    cases a with
    | policy | fence | unfence => cases ha
    | account | promote | create | remove => exact ⟨rfl, fun _ => DurableState.mark_mem_fences⟩
    | _ => exact ⟨rfl, fun _ => .rfl⟩
  · have ha : a.decisions = 0 := by omega
    rw [hleaves.leases]
    cases a with
    | policy | fence | unfence | keep | account | gone => rfl
    | _ => cases ha

theorem later_follows : Follows DurableState.Later where
  refl _ := ⟨le_rfl, le_rfl, .inl rfl, fun _ => ⟨rfl, fun _ => .rfl⟩, fun _ => rfl⟩
  trans := .trans
  swept c env := c.state.later_discardAll .expired (c.expiredLeases env) env.order
  act := Took.later
  record _ := ⟨le_rfl, le_rfl, .inl rfl, fun _ => ⟨rfl, fun _ => .rfl⟩, fun _ => rfl⟩
  pruned {s} o _ := s.later_discardAll .restartDiscarded (s.restoredProvisionals o) o

/-- The counters fit the `int64` that they are in the code. -/
structure DurableState.Counted (s : DurableState) : Prop where
  epoch : s.epoch < 2 ^ 63
  sequence : s.decisionSequence < 2 ^ 63
  generation : s.policy.generation < 2 ^ 63

/-- From any state of a run to any later one, through restarts and failing saves: no counter goes back, a policy is
    replaced only by one of a higher generation, an epoch that stays says that policy and fenced profiles do, and a
    decision sequence that stays says that the leases do. The counters are bounded where the run ends, and therefore
    all along. -/
theorem ledger_stamps (now : Int) (document : Option DurableState) (xs ys : List Event)
    (counted : ((World.initial now document).exec (xs ++ ys)).ledger.Counted) :
    ((World.initial now document).exec xs).ledger.Counted ∧
      ((World.initial now document).exec xs).ledger.Later ((World.initial now document).exec (xs ++ ys)).ledger := by
  have hexec : (World.initial now document).exec (xs ++ ys) = ((World.initial now document).exec xs).exec ys :=
    exec_append ..
  rw [hexec] at counted ⊢
  have later := World.exec_follows later_follows (World.exec_synced now document xs) ys
  refine ⟨⟨later.epoch.trans_lt counted.epoch, later.sequence.trans_lt counted.sequence, ?_⟩, later⟩
  rcases later.policy with hsame | hnewer
  · exact hsame ▸ counted.generation
  · exact hnewer.trans counted.generation

/-- The adoption that begins moves the epoch, and no lease. -/
theorem ledger_stamps_fenced :
    let before := ((World.initial 0 none).exec alphaActive).ledger
    let after := ((World.initial 0 none).exec (alphaActive ++ [.plain (.beginAdoption "alpha")])).ledger
    (before.epoch, before.decisionSequence) = (1, 2) ∧ (after.epoch, after.decisionSequence) = (2, 2) ∧
      before.Later after :=
  ⟨by decide +kernel, by decide +kernel,
    (ledger_stamps 0 none alphaActive _ ⟨by decide +kernel, by decide +kernel, by decide +kernel⟩).2⟩

end PitCrew.Admission
