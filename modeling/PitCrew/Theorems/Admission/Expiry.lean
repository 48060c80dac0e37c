import PitCrew.Theorems.Admission.Lifetime

/-! # Expiry of provisional leases

A provisional lease has until the deadline set by its grant or by its latest renewal in the same process.
The deadlines live in memory next to the ledger; here they are told apart from what a run's history says
of them (`Tenure`), and the two are shown to agree. -/

namespace PitCrew.Admission
open Base Coordinator

/-! ## Deadlines and leases -/

/-- The deadlines are those of the provisional leases. -/
def Coordinator.Tracked (c : Coordinator) : Prop :=
  ∀ key, key ∈ c.provisionalDeadlines ↔ ∃ l, c.state.leases.lookup key = some l ∧ l.status = .provisional

def Act.timed : Act → Option (String × Lease)
  | .grant p k l | .renew p k l => some (leaseKey p k, l)
  | _ => none

section Acts
variable {env : Env} {a : Act} {c c' : Coordinator} {key : String}

/-- What an act does to the lease and the deadline under a key: it sets both, it leaves no provisional
    lease there and no deadline, or it leaves the deadline with the lease it belongs to. -/
theorem Took.deadline_cases (h : Took env a c c') (key : String) :
    (∃ l, a.timed = some (key, l) ∧ c'.state.leases.lookup key = some l ∧ l.status = .provisional ∧
        c'.provisionalDeadlines.lookup key = some (env.now + c.provisionalTTL)) ∨
      (c'.provisionalDeadlines.lookup key = none ∧
        ∀ l, c'.state.leases.lookup key = some l → l.status ≠ .provisional) ∨
      (∀ l, a.timed ≠ some (key, l)) ∧ c'.provisionalDeadlines.lookup key = c.provisionalDeadlines.lookup key ∧
        (c'.state.leases.lookup key = c.state.leases.lookup key ∨
          ∃ l l', c.state.leases.lookup key = some l ∧ c'.state.leases.lookup key = some l' ∧ l'.status = l.status ∧
            l'.leaseID = l.leaseID) := by
  have other {p k : String} {l : Lease} (hkey : key ≠ leaseKey p k) :
      ∀ l', some (leaseKey p k, l) ≠ some (key, l') := by
    intro l' heq
    rw [Option.some.injEq, Prod.mk.injEq] at heq
    exact hkey heq.1.symm
  have inactive {l : Lease} (hl : l.status = .active) : l.status ≠ .provisional := by
    rw [hl]
    decide
  rw [h.leaves.leases]
  cases h with
  | policy | fence | unfence | keep | gone => exact Or.inr (Or.inr ⟨(fun _ heq => by cases heq), rfl, Or.inl rfl⟩)
  | account _ _ _ _ _ next =>
    refine Or.inr (Or.inr ⟨(fun _ heq => by cases heq), ?_, Or.inl rfl⟩)
    rcases next with ⟨rfl, -⟩ | rfl <;> rfl
  | @grant _ p k pp _ =>
    by_cases hkey : key = leaseKey p k
    · subst hkey
      exact Or.inl ⟨_, rfl, Finmap.lookup_insert _, rfl, Finmap.lookup_insert _⟩
    · exact Or.inr (Or.inr ⟨other hkey, Finmap.lookup_insert_of_ne _ hkey, Or.inl (Finmap.lookup_insert_of_ne _ hkey)⟩)
  | @renew _ p k l _ _ _ _ provisional =>
    by_cases hkey : key = leaseKey p k
    · subst hkey
      exact Or.inl ⟨_, rfl, Finmap.lookup_insert _, provisional, Finmap.lookup_insert _⟩
    · exact Or.inr (Or.inr ⟨other hkey, Finmap.lookup_insert_of_ne _ hkey, Or.inl (Finmap.lookup_insert_of_ne _ hkey)⟩)
  | @bind _ p k _ l _ _ _ lease =>
    refine Or.inr (Or.inr ⟨(fun _ heq => by cases heq), rfl, ?_⟩)
    by_cases hkey : key = leaseKey p k
    · subst hkey
      exact Or.inr ⟨l, _, lease, Finmap.lookup_insert _, rfl, rfl⟩
    · exact Or.inl (Finmap.lookup_insert_of_ne _ hkey)
  | @promote _ p k l | @create _ p k pp | @activate _ p k l =>
    by_cases hkey : key = leaseKey p k
    · subst hkey
      refine Or.inr (Or.inl ⟨Finmap.lookup_erase _ _, fun l' hl' => ?_⟩)
      rw [Act.leases, Finmap.lookup_insert, Option.some.injEq] at hl'
      subst hl'
      exact inactive rfl
    · exact Or.inr (Or.inr ⟨(fun _ heq => by cases heq), Finmap.lookup_erase_ne hkey,
        Or.inl (Finmap.lookup_insert_of_ne _ hkey)⟩)
  | @remove _ p k l t =>
    by_cases hkey : key = leaseKey p k
    · subst hkey
      refine Or.inr (Or.inl ⟨Finmap.lookup_erase _ _, fun l' hl' => ?_⟩)
      rw [Act.leases, Finmap.lookup_erase] at hl'
      cases hl'
    · exact Or.inr (Or.inr ⟨(fun _ heq => by cases heq), Finmap.lookup_erase_ne hkey,
        Or.inl (Finmap.lookup_erase_ne hkey)⟩)

theorem Took.tracked (h : Took env a c c') (tracked : c.Tracked) : c'.Tracked := by
  intro key
  have old := tracked key
  rw [Map.mem_iff_lookup] at old ⊢
  rcases h.deadline_cases key with ⟨l, -, hl, hp, hd⟩ | ⟨hd, hl⟩ | ⟨-, hd, hl | ⟨l, l', hl, hl', hstatus, -⟩⟩
  · simp [hd, hl, hp]
  · rw [hd]
    exact ⟨fun hne => absurd rfl hne, fun ⟨l, hl', hp⟩ => absurd hp (hl l hl')⟩
  · rw [hd, hl]
    exact old
  · rw [hd, hl']
    rw [hl] at old
    simpa [hstatus] using old

theorem tracked_upheld : Upheld Coordinator.Tracked where
  fresh {c} h := by
    intro key
    rw [Map.mem_iff_lookup, h.eq]
    exact ⟨fun hne => absurd rfl hne, fun ⟨l, hl, hp⟩ => absurd hp (h.settled key l hl)⟩
  alike h tracked := by
    rw [Coordinator.Tracked, h.provisionalDeadlines, h.state]
    exact tracked
  swept tracked := by
    intro key
    have old := tracked key
    rw [Map.mem_iff_lookup] at old ⊢
    rw [expelled_deadlines, expelled_leases]
    split
    · simp
    · exact old
  act took tracked := took.tracked tracked
  record tracked := tracked

theorem sweptFor_deadline (hset : c.state.FencesSet) (env : Env) (call : Call) {l : Lease}
    (hl : (c.sweptFor env call).state.leases.lookup key = some l) :
    c.state.leases.lookup key = some l ∧
      (c.sweptFor env call).provisionalDeadlines.lookup key = c.provisionalDeadlines.lookup key := by
  rcases sweptFor_cases hset env call with h | ⟨h, -⟩
  · rw [h] at hl ⊢
    exact ⟨hl, rfl⟩
  · rw [h] at hl ⊢
    rw [expelled_leases] at hl
    rw [expelled_deadlines]
    split at hl
    · cases hl
    · next hkey => exact ⟨hl, if_neg hkey⟩

end Acts

/-! ## The history of a lease's time -/

/-- What a run has said so far about the time of a lease: it was never granted, it has until a deadline, or
    its process has ended. -/
inductive Tenure where
  | never
  | due (deadline : Int)
  | over
  deriving DecidableEq, Repr

def World.provisionalTTL (w : World) : Int :=
  match w.process with
  | .running c => c.provisionalTTL
  | .stopped _ => 0

def timedBy (t : Transition World Event Reply) : Option Lease :=
  match t.reply with
  | .lease l =>
    match t.event with
    | .call (.acquire ..) _ _ | .call (.renew ..) _ _ => some l
    | _ => none
  | _ => none

/-- A grant or a renewal sets the deadline of its lease, and the end of the process ends its time. -/
def Tenure.after (id : String) (tenure : Tenure) (t : Transition World Event Reply) : Tenure :=
  match t.event with
  | .restart .. => if tenure = .never then .never else .over
  | _ =>
    match timedBy t with
    | some l => if l.leaseID = id then .due (t.before.now + t.before.provisionalTTL) else tenure
    | none => tenure

def Tenure.of (history : List (Transition World Event Reply)) (id : String) : Tenure :=
  history.foldl (Tenure.after id) .never

def World.tenure (w : World) (events : List Event) (id : String) : Tenure := Tenure.of (w.transitions events) id

theorem Tenure.of_concat (history : List (Transition World Event Reply)) (t : Transition World Event Reply)
    (id : String) :
    Tenure.of (history ++ [t]) id = (Tenure.of history id).after id t := by
  simp [Tenure.of]

def Act.tenure (a : Option Act) (deadline : Int) (id : String) (tenure : Tenure) : Tenure :=
  match a.bind Act.timed with
  | some (_, l) => if l.leaseID = id then .due deadline else tenure
  | none => tenure

theorem Tenure.after_call {w w' : World} {c : Coordinator} {call : Call} {order : RangeOrder String} {saves : Saves}
    {reply : Reply} {a : Option Act} (running : w.process = .running c) (fits : Fits call reply a) (id : String)
    (tenure : Tenure) : tenure.after id ⟨w, .call call order saves, reply, w'⟩ =
      Act.tenure a (w.now + c.provisionalTTL) id tenure := by
  have httl : w.provisionalTTL = c.provisionalTTL := by rw [World.provisionalTTL, running]
  rw [← httl]
  cases fits <;> rfl

/-! ## Deadlines follow the history -/

/-- The deadline of every provisional lease is the one that the history has set. -/
def Due (tenure : String → Tenure) (c : Coordinator) : Prop :=
  ∀ key l, c.state.leases.lookup key = some l → l.status = .provisional →
    ∃ d, c.provisionalDeadlines.lookup key = some d ∧ tenure l.leaseID = .due d

theorem DurableState.Sound.key_eq {s : DurableState} (h : s.Sound) {key key' : String} {l l' : Lease}
    (hl : s.leases.lookup key = some l) (hl' : s.leases.lookup key' = some l') (hid : l.leaseID = l'.leaseID) :
    key = key' := by
  rw [(h.leases key l hl).leaseID, (h.leases key' l' hl').leaseID] at hid
  exact (leaseIDOf_inj hid).1

def Act.lease? : Act → Option Lease
  | .grant _ _ l | .bind _ _ l | .keep _ _ l | .account _ _ l | .promote _ _ l | .create _ _ l | .renew _ _ l
  | .activate _ _ l => some l
  | _ => none

theorem Act.lease_of_timed {a : Act} {key : String} {l : Lease} (h : a.timed = some (key, l)) : a.lease? = some l := by
  cases a with
  | grant | renew =>
    cases h
    rfl
  | _ => cases h

theorem Fits.lease {call : Call} {l : Lease} {a : Option Act} (h : Fits call (.lease l) a) :
    ∃ b, a = some b ∧ b.lease? = some l := by
  cases h <;> exact ⟨_, rfl, rfl⟩

theorem Fits.reply_lease {call : Call} {reply : Reply} {l : Lease} {a : Act} (h : Fits call reply (some a))
    (ha : a.lease? = some l) : reply = .lease l := by
  cases h <;> cases ha <;> rfl

section Acts
variable {env : Env} {a : Act} {c c' : Coordinator} {key : String} {l l' : Lease} {tenure : String → Tenure}

theorem Took.stored (h : Took env a c c') (ht : a.timed = some (key, l)) : c'.state.leases.lookup key = some l := by
  rw [h.leaves.leases]
  cases a with
  | grant | renew =>
    cases ht
    exact Finmap.lookup_insert _
  | _ => cases ht

theorem Took.lease_old_or_new (h : Took env a c c') (hl : c'.state.leases.lookup key = some l) :
    c.state.leases.lookup key = some l ∨ a.lease? = some l := by
  rw [h.leaves.leases] at hl
  cases a with
  | grant | bind | promote | create | renew | activate =>
    rw [Act.leases, Map.lookup_insert_ite] at hl
    split at hl
    · exact Or.inr hl
    · exact Or.inl hl
  | remove =>
    rw [Act.leases, Map.lookup_erase_ite] at hl
    split at hl
    · cases hl
    · exact Or.inl hl
  | _ => exact Or.inl hl

/-- An act that answers with a lease follows a sweep, and the identity of the lease is that of a lease that
    the sweep left or a new one. -/
theorem Took.lease_origin (h : Took env a c c') (ha : a.lease? = some l) :
    c.Unexpired env ∧ ((∃ key l₀, c.state.leases.lookup key = some l₀ ∧ l₀.leaseID = l.leaseID) ∨
      ∃ key, l.leaseID = leaseIDOf key (c.state.decisionSequence + 1)) := by
  cases h with
  | grant unexpired | create unexpired =>
    cases ha
    exact ⟨unexpired, Or.inr ⟨_, rfl⟩⟩
  | bind unexpired _ _ lease | keep unexpired lease | account unexpired _ _ lease | promote unexpired _ _ lease
  | renew unexpired _ _ lease | activate unexpired _ _ lease =>
    cases ha
    exact ⟨unexpired, Or.inl ⟨_, _, lease, rfl⟩⟩
  | _ => cases ha

theorem Due.took (due : Due tenure c) (h : Took env a c c') (sound : c'.state.Sound) :
    Due (fun id => Act.tenure (some a) (env.now + c.provisionalTTL) id (tenure id)) c' := by
  intro key l hl hp
  rcases h.deadline_cases key with ⟨l', ht, hl', -, hd⟩ | ⟨-, hnone⟩ | ⟨ht, hd, hsame⟩
  · rw [hl', Option.some.injEq] at hl
    subst hl
    exact ⟨_, hd, by simp [Act.tenure, ht]⟩
  · exact absurd hp (hnone l hl)
  · obtain ⟨d, hold, hdue⟩ : ∃ d, c.provisionalDeadlines.lookup key = some d ∧ tenure l.leaseID = .due d := by
      rcases hsame with hsame | ⟨l₀, l', hl₀, hl', hstatus, hid⟩
      · exact due key l (hsame ▸ hl) hp
      · rw [hl', Option.some.injEq] at hl
        subst hl
        rw [hid]
        exact due key l₀ hl₀ (hstatus ▸ hp)
    refine ⟨d, hd.trans hold, ?_⟩
    -- the lease whose deadline the act sets is under another key, so it is another one
    cases htimed : a.timed with
    | none => simpa [Act.tenure, htimed] using hdue
    | some new =>
      obtain ⟨key', l'⟩ := new
      have hne : l'.leaseID ≠ l.leaseID := by
        intro hid
        have hkey := sound.key_eq (h.stored htimed) hl hid
        exact ht l' (hkey ▸ htimed)
      simpa [Act.tenure, htimed, hne] using hdue

/-- A provisional lease becomes active only by the acts of an activation or an adoption, after a sweep. -/
theorem Took.activates (h : Took env a c c') (hl : c.state.leases.lookup key = some l)
    (provisional : l.status = .provisional)
    (hl' : c'.state.leases.lookup key = some l') (active : l'.status = .active) :
    c.Unexpired env ∧ ∃ p k, a = .promote p k l' ∨ a = .activate p k l' := by
  have unchanged : c.state.leases.lookup key ≠ some l' := by
    intro heq
    rw [hl, Option.some.injEq] at heq
    rw [heq, active] at provisional
    cases provisional
  have hnew : a.lease? = some l' := (h.lease_old_or_new hl').resolve_left unchanged
  refine ⟨(h.lease_origin hnew).1, ?_⟩
  rw [h.leaves.leases] at hl'
  cases h with
  | @grant _ p k =>
    cases hnew
    cases active
  | @create _ p k pp _ _ _ absent =>
    rw [Act.leases, Map.lookup_insert_ite] at hl'
    split at hl'
    · next hkey =>
      rw [← hkey, hl] at absent
      cases absent
    · exact absurd hl' unchanged
  | @bind _ p k _ l₀ _ _ _ lease =>
    rw [Act.leases, Map.lookup_insert_ite] at hl'
    split at hl'
    · next hkey =>
      subst hkey
      rw [hl, Option.some.injEq] at lease
      subst lease
      cases hnew
      rw [provisional] at active
      cases active
    · exact absurd hl' unchanged
  | @renew _ p k l₀ _ _ _ _ hprov =>
    cases hnew
    change l₀.status = .active at active
    rw [hprov] at active
    cases active
  | @promote _ p k =>
    cases hnew
    exact ⟨p, k, Or.inl rfl⟩
  | @activate _ p k =>
    cases hnew
    exact ⟨p, k, Or.inr rfl⟩
  | keep | account => exact absurd hl' unchanged
  | _ => cases hnew

end Acts

section Courses
variable {env : Env} {c c' : Coordinator} {call : Call} {tenure : String → Tenure}

theorem Due.alike (due : Due tenure c) (h : Alike c c') : Due tenure c' := by
  rw [Due, h.state, h.provisionalDeadlines]
  exact due

theorem Due.ahead (due : Due tenure c) (unexpired : c.Unexpired env) {key : String} {l : Lease}
    (hl : c.state.leases.lookup key = some l) (provisional : l.status = .provisional) :
    ∃ d, tenure l.leaseID = .due d ∧ env.now < d := by
  obtain ⟨d, hd, hlt⟩ := unexpired key l hl provisional
  obtain ⟨d', hd', htenure⟩ := due key l hl provisional
  rw [hd, Option.some.injEq] at hd'
  exact ⟨d, hd' ▸ htenure, hlt⟩

theorem Due.sweptFor (due : Due tenure c) (hset : c.state.FencesSet) (env : Env) (call : Call) :
    Due tenure (c.sweptFor env call) := by
  intro key l hl hp
  obtain ⟨hold, hd⟩ := sweptFor_deadline hset env call hl
  rw [hd]
  exact due key l hold hp

theorem Due.records (due : Due tenure c) (h : Records c c') : Due tenure c' := by
  rcases h with rfl | ⟨d, -, rfl⟩ <;> exact due

theorem sweptFor_provisionalTTL (hset : c.state.FencesSet) (env : Env) (call : Call) :
    (c.sweptFor env call).provisionalTTL = c.provisionalTTL := by
  rcases sweptFor_cases hset env call with h | ⟨h, -⟩
  · rw [h]
  · rw [h]
    rfl

theorem Course.due {a : Option Act} (course : Course env call a c c') (hset : c.state.FencesSet)
    (sound : c.state.Sound) (due : Due tenure c) :
    Due (fun id => Act.tenure a (env.now + c.provisionalTTL) id (tenure id)) c' := by
  have sound₁ := sweptFor_sound hset sound env call
  obtain ⟨c₁, c₂, c₃, h₁, hdoes, h₂, hrec⟩ := course
  have due₁ := (due.sweptFor hset env call).alike h₁
  have httl : c.provisionalTTL = c₁.provisionalTTL := by rw [h₁.provisionalTTL, sweptFor_provisionalTTL hset]
  rw [← h₁.state] at sound₁
  refine Due.records (Due.alike ?_ h₂) hrec
  cases a with
  | none =>
    rw [hdoes]
    exact due₁
  | some a =>
    rw [httl]
    exact due₁.took hdoes (Took.sound hdoes sound₁)

/-- A lease that a call answers with has an identity that the sweep left, with its time ahead, or a new
    one. -/
theorem Course.answers {a : Act} {l : Lease} (course : Course env call (some a) c c') (hset : c.state.FencesSet)
    (due : Due tenure c) (ha : a.lease? = some l) :
    (∃ key l₀, c.state.leases.lookup key = some l₀ ∧ l₀.leaseID = l.leaseID ∧
        (l₀.status = .provisional → ∃ d, tenure l₀.leaseID = .due d ∧ env.now < d)) ∨
      ∃ key n, l.leaseID = leaseIDOf key n ∧ c.state.decisionSequence < n := by
  have hle : c.state.decisionSequence ≤ (c.sweptFor env call).state.decisionSequence := sequence_follows.sweptFor hset
  obtain ⟨c₁, c₂, c₃, h₁, hdoes, h₂, hrec⟩ := course
  have due₁ := (due.sweptFor hset env call).alike h₁
  obtain ⟨unexpired, ⟨key, l₀, hl₀, hid⟩ | ⟨key, hid⟩⟩ := Took.lease_origin hdoes ha
  · exact Or.inl ⟨key, l₀, (sweptFor_deadline hset env call (h₁.state ▸ hl₀)).1, hid, due₁.ahead unexpired hl₀⟩
  · refine Or.inr ⟨key, _, hid, ?_⟩
    rw [h₁.state]
    omega

theorem Course.stored {a : Act} {key : String} {l : Lease} (course : Course env call (some a) c c')
    (ht : a.timed = some (key, l)) : c'.state.leases.lookup key = some l := by
  obtain ⟨c₁, c₂, c₃, -, hdoes, h₂, hrec⟩ := course
  rw [hrec.leases, h₂.state]
  exact Took.stored hdoes ht

theorem Course.lease_old_or_new {a : Option Act} {key : String} {l : Lease} (course : Course env call a c c')
    (hl : c'.state.leases.lookup key = some l) :
    (c.sweptFor env call).state.leases.lookup key = some l ∨ ∃ b, a = some b ∧ b.lease? = some l := by
  obtain ⟨c₁, c₂, c₃, h₁, hdoes, h₂, hrec⟩ := course
  rw [hrec.leases, h₂.state] at hl
  rw [← h₁.state]
  cases a with
  | none =>
    rw [hdoes] at hl
    exact Or.inl hl
  | some a =>
    rcases Took.lease_old_or_new hdoes hl with hold | ha
    · exact Or.inl hold
    · exact Or.inr ⟨a, rfl, ha⟩

theorem sweptFor_unexpired (hset : c.state.FencesSet) (sweeps : call.sweeps = true) (hsave : env.saves.sweep = true) :
    (c.sweptFor env call).Unexpired env := by
  rw [Coordinator.sweptFor, if_pos sweeps]
  rcases sweep_cases hset env with ⟨hnil, hs⟩ | ⟨-, hfail, -⟩ | ⟨-, -, hs⟩
  · rw [hs]
    exact expiredLeases_eq_nil.mp hnil
  · rw [hsave] at hfail
    cases hfail
  · rw [hs]
    exact expelled_unexpired

/-- A call makes a lease active only by the acts of an activation or an adoption, before its deadline. -/
theorem Course.activates {a : Option Act} {key : String} {l l' : Lease} (course : Course env call a c c')
    (hset : c.state.FencesSet) (sound : c.state.Sound) (due : Due tenure c) (hl : c.state.leases.lookup key = some l)
    (provisional : l.status = .provisional) (hl' : c'.state.leases.lookup key = some l') (active : l'.status = .active)
    (hid : l'.leaseID = l.leaseID) :
    (∃ p k, a = some (.promote p k l') ∨ a = some (.activate p k l')) ∧ ∃ d, tenure l.leaseID = .due d ∧
      env.now < d := by
  have hne : l' ≠ l := by
    rintro rfl
    rw [provisional] at active
    cases active
  have hle : c.state.decisionSequence ≤ (c.sweptFor env call).state.decisionSequence := sequence_follows.sweptFor hset
  obtain ⟨c₁, c₂, c₃, h₁, hdoes, h₂, hrec⟩ := course
  have due₁ := (due.sweptFor hset env call).alike h₁
  have old {l₁ : Lease} (hl₁ : c₁.state.leases.lookup key = some l₁) : l₁ = l := by
    have := (sweptFor_deadline hset env call (h₁.state ▸ hl₁)).1
    rw [hl, Option.some.injEq] at this
    exact this.symm
  rw [hrec.leases, h₂.state] at hl'
  cases a with
  | none =>
    rw [hdoes] at hl'
    exact absurd (old hl') hne
  | some a =>
    rcases Took.lease_cases hdoes key with
      hsame | ⟨p, k, l₂, -, hnew, makes⟩ | ⟨l₁, l₂, hl₁, -, -⟩ | ⟨p, k, t, -, -, hnone⟩
    · exact absurd (old (hsame ▸ hl')) hne
    · -- a new lease has a new identity
      obtain ⟨pp, -, made⟩ := makes.made
      have hlease := sound.leases key l hl
      have hgranted := hlease.granted
      rw [hnew, Option.some.injEq] at hl'
      rw [← hl', made.leaseID, hlease.leaseID, h₁.state] at hid
      have := (leaseIDOf_inj hid).2
      omega
    · obtain rfl := old hl₁
      obtain ⟨unexpired, p, k, hact⟩ := Took.activates hdoes hl₁ provisional hl' active
      refine ⟨⟨p, k, ?_⟩, due₁.ahead unexpired hl₁ provisional⟩
      rcases hact with rfl | rfl
      · exact Or.inl rfl
      · exact Or.inr rfl
    · rw [hnone] at hl'
      cases hl'

end Courses

/-! ## Runs -/

def World.Has (w : World) (id : String) (status : LeaseStatus) : Prop :=
  ∃ key l, w.ledger.leases.lookup key = some l ∧ l.leaseID = id ∧ l.status = status

/-- What the history says of the ledger and of the process it led to. -/
structure Timed (tenure : String → Tenure) (w : World) : Prop where
  synced : w.Synced
  sound : w.ledger.Sound
  due : ∀ c, w.process = .running c → Due tenure c
  granted : ∀ id, tenure id ≠ .never → ∃ key n, id = leaseIDOf key n ∧ n ≤ w.ledger.decisionSequence

section Runs
variable {tenure : String → Tenure} {w w' : World} {e : Event} {reply : Reply} {id : String}

theorem Timed.moved (timed : Timed tenure w) (moved : Moved w e reply w') :
    Timed (fun id => (tenure id).after id ⟨w, e, reply, w'⟩) w' := by
  have synced' := World.moved_upheld synced_upheld timed.synced timed.synced moved
  have hsound : w'.ledger.Sound := World.moved_follows sound_kept.follows timed.synced moved timed.sound
  have hseq : w.ledger.decisionSequence ≤ w'.ledger.decisionSequence :=
    World.moved_follows sequence_follows timed.synced moved
  have settled : ∀ ttl order saves c, e = .restart ttl order saves → w'.process = .running c →
      Due (fun id => (tenure id).after id ⟨w, e, reply, w'⟩) c := by
    rintro ttl order saves c rfl running key l hl hp
    exact absurd hp ((moved.fresh running).settled key l hl)
  have old : ∀ id, tenure id ≠ .never → ∃ key n, id = leaseIDOf key n ∧ n ≤ w'.ledger.decisionSequence := by
    intro id hid
    obtain ⟨key, n, heq, hle⟩ := timed.granted id hid
    exact ⟨key, n, heq, hle.trans hseq⟩
  have restarted : ∀ id, (if tenure id = .never then Tenure.never else .over) ≠ .never →
      ∃ key n, id = leaseIDOf key n ∧ n ≤ w'.ledger.decisionSequence := by
    intro id hid
    exact old id fun heq => hid (if_pos heq)
  cases moved with
  | clock => exact ⟨synced', hsound, timed.due, old⟩
  | idle stopped => exact ⟨synced', hsound, timed.due, old⟩
  | refused => exact ⟨synced', hsound, fun c hc => (by cases hc), restarted⟩
  | opened => exact ⟨synced', hsound, fun c => settled _ _ _ c rfl, restarted⟩
  | pruned => exact ⟨synced', hsound, fun c => settled _ _ _ c rfl, restarted⟩
  | @call c c' call order saves a reply running course fits =>
    simp only [Tenure.after_call running fits]
    have sound := timed.sound
    rw [timed.synced.ledger running] at sound
    refine ⟨synced', hsound, fun c₁ hc₁ => ?_, fun id hid => ?_⟩
    · cases hc₁
      exact course.due (timed.synced c running).fences sound (timed.due c running)
    · cases htimed : a.bind Act.timed with
      | none =>
        rw [Act.tenure, htimed] at hid
        exact old id hid
      | some new =>
        obtain ⟨key, l⟩ := new
        rw [Act.tenure, htimed] at hid
        dsimp only at hid
        split at hid
        · next hl =>
          obtain ⟨b, rfl, hb⟩ := Option.bind_eq_some_iff.mp htimed
          rw [World.Synced.ledger synced' rfl] at hsound ⊢
          have hlease := hsound.leases key l (course.stored hb)
          exact ⟨key, l.grantedAtSequence, hl ▸ hlease.leaseID, hlease.granted⟩
        · exact old id hid

theorem World.exec_timed (now : Int) (events : List Event) :
    Timed ((initial now none).tenure events) ((initial now none).exec events) := by
  have start : Timed (Tenure.of []) (initial now none) :=
    ⟨initial_synced now none, DurableState.newDurableState_sound, fun c hc => (by cases hc),
      fun id hid => absurd rfl hid⟩
  refine history_induction (I := fun history w => Timed (Tenure.of history) w) start ?_ events
  intro history w e timed
  have := timed.moved (World.step_moved timed.synced e)
  simpa only [funext (Tenure.of_concat history _)] using this

theorem Timed.activated (timed : Timed tenure w) (moved : Moved w e reply w') (provisional : w.Has id .provisional)
    (active : w'.Has id .active) :
    (∃ p k order saves, e = .call (.activate p k) order saves ∨ e = .call (.adopt p k) order saves) ∧
      ∃ d, tenure id = .due d ∧ w.now < d := by
  have synced' := World.moved_upheld synced_upheld timed.synced timed.synced moved
  have hsound : w'.ledger.Sound := World.moved_follows sound_kept.follows timed.synced moved timed.sound
  obtain ⟨key, l, hl, rfl, hp⟩ := provisional
  obtain ⟨key', l', hl', hid, ha⟩ := active
  have hkey : key' = key := by
    rw [(hsound.leases key' l' hl').leaseID, (timed.sound.leases key l hl).leaseID] at hid
    exact (leaseIDOf_inj hid).1
  subst hkey
  have unchanged : w.ledger.leases.lookup key' ≠ some l' := by
    intro hold
    rw [hl, Option.some.injEq] at hold
    rw [hold, ha] at hp
    cases hp
  cases moved with
  | clock | idle | refused | opened => exact absurd hl' unchanged
  | pruned =>
    rw [World.Synced.ledger synced' rfl] at hl'
    exact absurd (DurableState.pruned_lookup.mp hl').1 unchanged
  | @call c c' call order saves a reply running course fits =>
    have sound := timed.sound
    rw [timed.synced.ledger running] at hl sound
    rw [World.Synced.ledger synced' rfl] at hl'
    obtain ⟨⟨p, k, hact⟩, hdue⟩ :=
      course.activates (timed.synced c running).fences sound (timed.due c running) hl hp hl' ha hid
    refine ⟨?_, hdue⟩
    rcases hact with rfl | rfl
    · cases fits with
      | promote => exact ⟨p, k, order, saves, Or.inr rfl⟩
    · cases fits with
      | activate => exact ⟨p, k, order, saves, Or.inl rfl⟩

def Tenure.Passed (tenure : Tenure) (now : Int) : Prop := tenure = .over ∨ ∃ d, tenure = .due d ∧ d ≤ now

theorem Tenure.Passed.ne_never {tenure : Tenure} {now : Int} (h : tenure.Passed now) : tenure ≠ .never := by
  rintro rfl
  rcases h with h | ⟨d, h, -⟩ <;> cases h

theorem Tenure.Passed.not_ahead {tenure : Tenure} {now d : Int} (h : tenure.Passed now) (due : tenure = .due d) :
    ¬now < d := by
  rcases h with hover | ⟨d', hdue, hle⟩
  · rw [hover] at due
    cases due
  · rw [hdue, Tenure.due.injEq] at due
    subst due
    exact not_lt.mpr hle

theorem Timed.silent (timed : Timed tenure w) (moved : Moved w e reply w') (passed : (tenure id).Passed w.now)
    (inactive : ¬w.Has id .active) {l : Lease} (hreply : reply = .lease l) : l.leaseID ≠ id := by
  subst hreply
  rintro rfl
  cases moved with
  | @call c c' call order saves a _ running course fits =>
    obtain ⟨b, rfl, hb⟩ := fits.lease
    have hledger := timed.synced.ledger running
    rcases course.answers (timed.synced c running).fences (timed.due c running) hb with
      ⟨key, l₀, hl₀, hid, hahead⟩ | ⟨key, n, hid, hlt⟩
    · rw [← hledger] at hl₀
      rcases (timed.sound.leases key l₀ hl₀).valid.status with hstatus | hstatus
      · obtain ⟨d, hdue, hnow⟩ := hahead hstatus
        rw [hid] at hdue
        exact passed.not_ahead hdue hnow
      · exact inactive ⟨key, l₀, hl₀, hid, hstatus⟩
    · obtain ⟨key', n', hid', hle⟩ := timed.granted l.leaseID passed.ne_never
      rw [hid] at hid'
      have := (leaseIDOf_inj hid').2
      rw [hledger] at hle
      omega

theorem Timed.absent (timed : Timed tenure w) (moved : Moved w e reply w') (passed : (tenure id).Passed w.now)
    (inactive : ¬w.Has id .active) {status : LeaseStatus} (absent : ¬w.Has id status) : ¬w'.Has id status := by
  have synced' := World.moved_upheld synced_upheld timed.synced timed.synced moved
  rintro ⟨key, l, hl, hid, hstatus⟩
  have silent := timed.silent moved passed inactive (l := l)
  cases moved with
  | clock | idle | refused | opened => exact absent ⟨key, l, hl, hid, hstatus⟩
  | pruned =>
    rw [World.Synced.ledger synced' rfl] at hl
    exact absent ⟨key, l, (DurableState.pruned_lookup.mp hl).1, hid, hstatus⟩
  | @call c c' call order saves a reply running course fits =>
    rw [World.Synced.ledger synced' rfl] at hl
    rcases course.lease_old_or_new hl with hold | ⟨b, rfl, hb⟩
    · have hbefore := (sweptFor_deadline (timed.synced c running).fences _ call hold).1
      rw [← timed.synced.ledger running] at hbefore
      exact absent ⟨key, l, hbefore, hid, hstatus⟩
    · exact silent (fits.reply_lease hb) hid

theorem Timed.passed (timed : Timed tenure w) (moved : Moved w e reply w') (clock : w.now ≤ w'.now)
    (passed : (tenure id).Passed w.now) (inactive : ¬w.Has id .active) :
    ((tenure id).after id ⟨w, e, reply, w'⟩).Passed w'.now := by
  have silent := fun l => timed.silent moved passed inactive (l := l)
  have later : (tenure id).Passed w'.now := by
    rcases passed with hover | ⟨d, hdue, hle⟩
    · exact Or.inl hover
    · exact Or.inr ⟨d, hdue, hle.trans clock⟩
  have restarted : (if tenure id = .never then Tenure.never else .over).Passed w'.now := Or.inl (if_neg passed.ne_never)
  cases moved with
  | clock | idle => exact later
  | refused | opened | pruned => exact restarted
  | @call c c' call order saves a reply running course fits =>
    rw [Tenure.after_call running fits, Act.tenure]
    cases htimed : a.bind Act.timed with
    | none => exact later
    | some timing =>
      obtain ⟨b, rfl, hb⟩ := Option.bind_eq_some_iff.mp htimed
      dsimp only
      rw [if_neg (silent _ (fits.reply_lease (Act.lease_of_timed hb)))]
      exact later

/-- The step runs the expiry sweep, and its save does not fail, or it opens the store. -/
def Sweeps (t : Transition World Event Reply) : Prop :=
  (∃ c call order saves, t.before.process = .running c ∧ t.event = .call call order saves ∧ call.sweeps = true ∧
    saves.sweep = true) ∨
  ∃ ttl order saves, t.event = .restart ttl order saves ∧ t.reply = .done

/-- A sweep, or the opening of the store, removes a lease whose time has passed and that is not active. -/
theorem Timed.swept (timed : Timed tenure w) (moved : Moved w e reply w') (passed : (tenure id).Passed w.now)
    (inactive : ¬w.Has id .active) (sweeps : Sweeps ⟨w, e, reply, w'⟩) (status : LeaseStatus) : ¬w'.Has id status := by
  have synced' := World.moved_upheld synced_upheld timed.synced timed.synced moved
  have hsound : w'.ledger.Sound := World.moved_follows sound_kept.follows timed.synced moved timed.sound
  have inactive' : ¬w'.Has id .active := timed.absent moved passed inactive inactive
  rintro ⟨key, l, hl, hid, -⟩
  -- the lease is not active, so it is provisional, and no provisional lease without time is left
  have provisional : l.status = .provisional :=
    (hsound.leases key l hl).valid.status.resolve_right fun active => inactive' ⟨key, l, hl, hid, active⟩
  have silent := timed.silent moved passed inactive (l := l)
  rcases sweeps with ⟨c, call, order, saves, running, he, hsweeps, hsave⟩ | ⟨ttl, order, saves, he, hreply⟩
  · dsimp only at running he
    subst he
    cases moved with
    | idle stopped =>
      rw [running] at stopped
      cases stopped
    | @call c₀ c' _ _ _ a reply running' course fits =>
      rw [running, Process.running.injEq] at running'
      subst running'
      have hset := (timed.synced c running).fences
      rw [World.Synced.ledger synced' rfl] at hl
      rcases course.lease_old_or_new hl with hold | ⟨b, rfl, hb⟩
      · obtain ⟨d, hdue, hlt⟩ := ((timed.due c running).sweptFor hset _ call).ahead
          (sweptFor_unexpired hset hsweeps hsave) hold provisional
        rw [hid] at hdue
        exact passed.not_ahead hdue hlt
      · exact silent (fits.reply_lease hb) hid
  · dsimp only at he hreply
    subst he hreply
    have settled : ∀ c, w'.process = .running c → w'.ledger.leases.lookup key = some l → False := by
      intro c running hl
      rw [World.Synced.ledger synced' running] at hl
      exact (moved.fresh running).settled key l hl provisional
    cases moved with
    | opened | pruned => exact settled _ rfl hl

/-- A lease with the identity is active, or provisional with its deadline ahead. -/
def World.Live (w : World) (id : String) : Prop :=
  w.Has id .active ∨ ∃ c key l d, w.process = .running c ∧ c.state.leases.lookup key = some l ∧ l.leaseID = id ∧
    l.status = .provisional ∧ c.provisionalDeadlines.lookup key = some d ∧ w.now < d

theorem Timed.not_live (timed : Timed tenure w) (passed : (tenure id).Passed w.now) (inactive : ¬w.Has id .active) :
    ¬w.Live id := by
  rintro (hactive | ⟨c, key, l, d, running, hl, rfl, hp, hd, hlt⟩)
  · exact inactive hactive
  · obtain ⟨d', hd', hdue⟩ := timed.due c running key l hl hp
    rw [hd, Option.some.injEq] at hd'
    subst hd'
    exact passed.not_ahead hdue hlt

/-- Along a run whose clock does not go back, a lease whose time has passed is not revived, and it is out of
    the ledger from the first sweep on. -/
theorem Timed.exec_dead (timed : Timed tenure w) (passed : (tenure id).Passed w.now) (inactive : ¬w.Has id .active)
    (events : List Event) (clock : ∀ t ∈ w.transitions events, t.before.now ≤ t.after.now) :
    ¬(w.exec events).Live id ∧ (∀ t ∈ w.transitions events, ∀ l, t.reply = .lease l → l.leaseID ≠ id) ∧
      ((∀ status, ¬w.Has id status) ∨ (∃ t ∈ w.transitions events, Sweeps t) →
        ∀ status, ¬(w.exec events).Has id status) := by
  induction events generalizing w tenure with
  | nil =>
    refine ⟨timed.not_live passed inactive, fun t ht => (by cases ht), ?_⟩
    rintro (absent | ⟨t, ht, -⟩)
    · exact absent
    · cases ht
  | cons e events ih =>
    have moved := World.step_moved timed.synced e
    have inactive' := timed.absent moved passed inactive inactive
    obtain ⟨dead, silent, absent'⟩ :=
      ih (timed.moved moved) (timed.passed moved (clock _ List.mem_cons_self) passed inactive)
      inactive' fun t ht => clock t (List.mem_cons_of_mem _ ht)
    refine ⟨dead, fun t ht l hl => ?_, fun gone => absent' ?_⟩
    · rcases List.mem_cons.mp ht with rfl | ht
      · exact timed.silent moved passed inactive hl
      · exact silent t ht l hl
    · rcases gone with absent | ⟨t, ht, sweeps⟩
      · exact Or.inl fun status => timed.absent moved passed inactive (absent status)
      · rcases List.mem_cons.mp ht with rfl | ht
        · exact Or.inl (timed.swept moved passed inactive sweeps)
        · exact Or.inr ⟨t, ht, sweeps⟩

end Runs

/-- Along every run from an empty store whose clock does not go back, with any failing saves and restarts:
    a provisional lease becomes active only through an activation or an adoption at a reading before the
    deadline that its grant or its latest renewal in this process has set; once that deadline is reached, or
    the process has ended, it is never live again, no call returns it, and it is out of the ledger from the
    first saved sweep or opening of the store on; and the deadlines are always those of the provisional
    leases. -/
theorem expired_never_revived (now : Int) (events : List Event)
    (clock : ∀ t ∈ (World.initial now none).transitions events, t.before.now ≤ t.after.now) :
    (∀ xs e ys id, events = xs ++ e :: ys → ((World.initial now none).exec xs).Has id .provisional →
      ((World.initial now none).exec (xs ++ [e])).Has id .active →
      (∃ p k order saves, e = .call (.activate p k) order saves ∨ e = .call (.adopt p k) order saves) ∧
        ∃ d, (World.initial now none).tenure xs id = .due d ∧ ((World.initial now none).exec xs).now < d) ∧
    (∀ xs ys id, events = xs ++ ys →
      ((World.initial now none).tenure xs id).Passed ((World.initial now none).exec xs).now →
      ¬((World.initial now none).exec xs).Has id .active →
      ¬((World.initial now none).exec events).Live id ∧
        (∀ t ∈ ((World.initial now none).exec xs).transitions ys, ∀ l, t.reply = .lease l → l.leaseID ≠ id) ∧
        ((∃ t ∈ ((World.initial now none).exec xs).transitions ys, Sweeps t) →
          ∀ status, ¬((World.initial now none).exec events).Has id status)) ∧
    ∀ xs ys c, events = xs ++ ys → ((World.initial now none).exec xs).process = .running c →
      ∀ key, key ∈ c.provisionalDeadlines ↔ ∃ l, c.state.leases.lookup key = some l ∧ l.status = .provisional := by
  refine ⟨fun xs e ys id _ hp ha => ?_, fun xs ys id hevents passed inactive => ?_, fun xs _ c _ running => ?_⟩
  · have timed := World.exec_timed now xs
    have hstep : (World.initial now none).exec (xs ++ [e]) = (((World.initial now none).exec xs).step e).1 :=
      exec_concat ..
    rw [hstep] at ha
    exact timed.activated (World.step_moved timed.synced e) hp ha
  · have happ : (World.initial now none).exec events = ((World.initial now none).exec xs).exec ys := by
      rw [hevents]
      exact exec_append ..
    have hsplit : (World.initial now none).transitions events = (World.initial now none).transitions xs ++
        ((World.initial now none).exec xs).transitions ys := by
      rw [hevents]
      exact transitions_append ..
    rw [hsplit] at clock
    rw [happ]
    obtain ⟨dead, silent, absent⟩ := (World.exec_timed now xs).exec_dead passed inactive ys
      fun t ht => clock t (List.mem_append_right _ ht)
    exact ⟨dead, silent, fun sweeps => absent (Or.inr sweeps)⟩
  · exact World.exec_upheld tracked_upheld now none xs running

def alphaGranted : List Event := alphaOnly ++ [.plain (.acquire "alpha" "slot-1" 1)]

def alphaProvisional : Lease :=
  { alphaLease with status := .provisional, expiresAtUnixNano := defaultProvisionalLeaseTTL, activatedAtSequence := 0 }

def alphaOverdue : List Event := alphaGranted ++ [.clock 30000000000]

/-- The lease one moment too late for its activation and for its adoption. -/
def alphaLapsed : List Event :=
  alphaOverdue ++ [.plain (.activate "alpha" "slot-1"), .plain (.adopt "alpha" "slot-1")]

/-- The lease activated at the last moment, and the same lease one moment later. -/
theorem expired_never_revived_alphaGranted :
    (∃ d, (World.initial 0 none).tenure (alphaGranted ++ [.clock 29999999999]) "alpha/slot-1#1" = .due d ∧
        29999999999 < d) ∧
      (¬((World.initial 0 none).exec alphaLapsed).Live "alpha/slot-1#1" ∧
        ∀ status, ¬((World.initial 0 none).exec alphaLapsed).Has "alpha/slot-1#1" status) ∧
      ∃ c, ((World.initial 0 none).exec alphaGranted).process = .running c ∧
        "alpha/slot-1" ∈ c.provisionalDeadlines := by
  refine ⟨?_, ?_, _, rfl, ?_⟩
  · have hrun := expired_never_revived 0 (alphaGranted ++ [.clock 29999999999, .plain (.activate "alpha" "slot-1")])
      (by decide +kernel)
    exact (hrun.1 (alphaGranted ++ [.clock 29999999999]) _ [] _ rfl
      ⟨"alpha/slot-1", alphaProvisional, by decide +kernel, rfl, rfl⟩
      ⟨"alpha/slot-1", alphaLease, by decide +kernel, rfl, rfl⟩).2
  · have hrun := expired_never_revived 0 alphaLapsed (by decide +kernel)
    have inactive : ¬((World.initial 0 none).exec alphaOverdue).Has "alpha/slot-1#1" .active := by
      rintro ⟨key, l, hl, -, hactive⟩
      have hleases : ((World.initial 0 none).exec alphaOverdue).ledger.leases =
          (∅ : Map String Lease).insert "alpha/slot-1" alphaProvisional := by
        decide +kernel
      rw [hleases, Map.lookup_insert_ite] at hl
      split at hl
      · cases hl
        cases hactive
      · cases hl
    obtain ⟨dead, -, absent⟩ := hrun.2.1 alphaOverdue
      [.plain (.activate "alpha" "slot-1"), .plain (.adopt "alpha" "slot-1")] "alpha/slot-1#1" rfl
      (Or.inr ⟨30000000000, by decide +kernel, by decide +kernel⟩) inactive
    obtain ⟨c, running⟩ : ∃ c, ((World.initial 0 none).exec alphaOverdue).process = .running c :=
      ⟨_, rfl⟩
    exact ⟨dead, absent ⟨_, List.mem_cons_self, Or.inl ⟨c, _, .sorted, {}, running, rfl, by decide +kernel, rfl⟩⟩⟩
  · exact ((expired_never_revived 0 alphaGranted (by decide +kernel)).2.2 alphaGranted [] _ rfl rfl "alpha/slot-1").mpr
      ⟨alphaProvisional, by decide +kernel, rfl⟩

end PitCrew.Admission
