import PitCrew.Theorems.Admission.Act

/-! # The course of an operation

Every operation of the coordinator is at most an expiry sweep, one act on the ledger and the record of
the decision, with changes of the in-memory demand in between (`Course`). A failed operation takes no
act, and the reply of a successful one names its act (`Fits`). -/

namespace PitCrew.Admission
open Base Coordinator

/-! ## Courses -/

def Does (env : Env) (a : Option Act) (c c' : Coordinator) : Prop :=
  match a with
  | none => c' = c
  | some a => Took env a c c'

structure Decision.On (d : Decision) (s : DurableState) : Prop where
  sequence : d.sequence = s.decisionSequence
  command : d.command.isLeaseDecision = true
  profileID : profileIDPattern d.profileID = true
  failureCategory : d.failureCategory.valid = true

/-- At most the record of a lease decision on the ledger as it is. -/
def Records (c c' : Coordinator) : Prop :=
  c' = c ∨ ∃ d : Decision, d.On c.state ∧ c' = c.become { c.state with lastDecision := some d }

theorem Records.frame {c c' : Coordinator} (h : Records c c') :
    c'.state = { c.state with lastDecision := c'.state.lastDecision } := by
  rcases h with rfl | ⟨d, -, rfl⟩ <;> rfl

theorem Records.provisionalDeadlines {c c' : Coordinator} (h : Records c c') :
    c'.provisionalDeadlines = c.provisionalDeadlines := by
  rcases h with rfl | ⟨d, -, rfl⟩ <;> rfl

theorem Records.rotation {c c' : Coordinator} (h : Records c c') : c'.rotation = c.rotation := by
  rcases h with rfl | ⟨d, -, rfl⟩ <;> rfl

/-- The calls that get as far as the expiry sweep. -/
def Call.sweeps : Call → Bool
  | .acquire p k _ | .adopt p k | .renew p k | .activate p k | .release p k => (validateLeaseIdentity p k).isOk
  | .bindRegistration p k name => (validateLeaseIdentity p k).isOk && (validateRegistrationName name).isOk
  | .reconcile p k evidence => (validateLeaseIdentity p k).isOk && (sanitizeEvidence evidence).isOk
  | .status => true
  | _ => false

/-- The coordinator once the sweep of a call has run, if the call gets that far. -/
def Coordinator.sweptFor (c : Coordinator) (env : Env) (call : Call) : Coordinator :=
  if call.sweeps then (c.sweepExpiredLocked env).1 else c

def Course (env : Env) (call : Call) (a : Option Act) (c c' : Coordinator) : Prop :=
  ∃ c₁ c₂ c₃, Alike (c.sweptFor env call) c₁ ∧ Does env a c₁ c₂ ∧ Alike c₂ c₃ ∧ Records c₃ c'

/-- The act that a call takes when it gives a reply. -/
inductive Fits : Call → Reply → Option Act → Prop where
  | failed {call : Call} {e : Err} : Fits call (.failed e) none
  | policy {p : HostPolicy} : Fits (.applyPolicy p) .done (some (.policy p))
  | demand {id : String} {n : Int} : Fits (.setDemand id n) .done none
  | fence {id : String} : Fits (.beginAdoption id) .done (some (.fence id))
  | fenced {id : String} : Fits (.beginAdoption id) .done none
  | unfence {id : String} : Fits (.completeAdoption id) .done (some (.unfence id))
  | unfenced {id : String} : Fits (.completeAdoption id) .done none
  | grant {p k : String} {n : Int} {l : Lease} : Fits (.acquire p k n) (.lease l) (some (.grant p k l))
  | bind {p k name : String} {l : Lease} : Fits (.bindRegistration p k name) (.lease l) (some (.bind p k l))
  | bound {p k name : String} {l : Lease} : Fits (.bindRegistration p k name) (.lease l) (some (.keep p k l))
  | account {p k : String} {l : Lease} : Fits (.adopt p k) (.lease l) (some (.account p k l))
  | promote {p k : String} {l : Lease} : Fits (.adopt p k) (.lease l) (some (.promote p k l))
  | create {p k : String} {l : Lease} : Fits (.adopt p k) (.lease l) (some (.create p k l))
  | renew {p k : String} {l : Lease} : Fits (.renew p k) (.lease l) (some (.renew p k l))
  | activate {p k : String} {l : Lease} : Fits (.activate p k) (.lease l) (some (.activate p k l))
  | active {p k : String} {l : Lease} : Fits (.activate p k) (.lease l) (some (.keep p k l))
  | release {p k : String} {t : Tombstone} : Fits (.release p k) .done (some (.remove p k t))
  | released {p k : String} : Fits (.release p k) .done (some (.gone p k))
  | reconcile {p k e : String} {t : Tombstone} : Fits (.reconcile p k e) .done (some (.remove p k t))
  | reconciled {p k e : String} : Fits (.reconcile p k e) .done (some (.gone p k))
  | status {s : Snapshot} : Fits .status (.snapshot s) none

/-! ## The course of each call -/

section Courses
variable {env : Env} {c : Coordinator} {call : Call}

/-- The course of a call after its sweep and before its record. -/
def Body (env : Env) (call : Call) (c : Coordinator) (result : Coordinator × Reply) : Prop :=
  ∃ a c₁ c₂, Alike c c₁ ∧ Does env a c₁ c₂ ∧ Alike c₂ result.1 ∧ Fits call result.2 a

theorem Body.fail {c' : Coordinator} {e : Err} (h : Alike c c') : Body env call c (c', .failed e) :=
  ⟨none, c, c, .refl c, rfl, h, .failed⟩

theorem Body.none {c' : Coordinator} {reply : Reply} (h : Alike c c') (fits : Fits call reply none) :
    Body env call c (c', reply) :=
  ⟨.none, c, c, .refl c, rfl, h, fits⟩

theorem Body.act {c' : Coordinator} {a : Act} {reply : Reply} (h : Took env a c c') (fits : Fits call reply (some a)) :
    Body env call c (c', reply) :=
  ⟨some a, c, c', .refl c, h, .refl c', fits⟩

theorem records_decision {command : Command} {p : String} {granted : Bool} {err : Option Err} (c : Coordinator)
    (hset : c.state.FencesSet) (hcmd : command.isLeaseDecision = true) (hp : profileIDPattern p = true) :
    Records c (c.recordDecisionLocked env command p granted err) := by
  unfold recordDecisionLocked
  rw [DurableState.clone_eq hset]
  dsimp only
  split
  · exact Or.inl rfl
  · next h =>
    obtain ⟨-, rfl⟩ := persist_ok h
    refine Or.inr ⟨_, ⟨rfl, hcmd, hp, ?_⟩, rfl⟩
    cases granted with
    | true => rfl
    | false =>
      cases err with
      | none => rfl
      | some e => exact durableDecisionErrorCode_valid e

theorem applyPolicy_body (hset : c.state.FencesSet) (p : HostPolicy) :
    Body env (.applyPolicy p) c ((c.applyPolicy env p).map id .ofUnit) := by
  unfold applyPolicy
  rw [DurableState.clone_eq hset]
  split
  · exact .fail (.refl c)
  · next hvalid =>
    split
    · exact .fail (.refl c)
    · next hgen =>
      dsimp only
      split
      · exact .fail (.refl c)
      · next h =>
        obtain ⟨-, rfl⟩ := persist_ok h
        exact ⟨some (.policy p), c, _, .refl c, .policy hvalid (by omega), ⟨rfl, rfl, rfl, rfl, rfl⟩, .policy⟩

theorem setDemand_body (profileID : String) (n : Int) :
    Body env (.setDemand profileID n) c ((c.setDemand env profileID n).map id .ofUnit) := by
  unfold setDemand
  split
  · exact .fail (.refl c)
  · split
    · exact .fail (.refl c)
    · split
      · exact .fail (.refl c)
      · dsimp only
        split <;> exact .none ⟨rfl, rfl, rfl, rfl, rfl⟩ .demand

theorem beginAdoption_body (hset : c.state.FencesSet) (profileID : String) :
    Body env (.beginAdoption profileID) c ((c.beginAdoption env profileID).map id .ofUnit) := by
  unfold beginAdoption
  rw [DurableState.clone_eq hset]
  split
  · exact .fail (.refl c)
  · next hid =>
    have hvalid : profileIDPattern profileID = true := by simpa [validateProfileID] using hid
    split
    · exact .fail (.refl c)
    · next hknown =>
      split
      · exact .none (.refl c) .fenced
      · next habsent =>
        dsimp only
        split
        · exact .fail (.refl c)
        · next h =>
          obtain ⟨-, rfl⟩ := persist_ok h
          exact .act (.fence hvalid hknown habsent) .fence

theorem completeAdoption_body (hset : c.state.FencesSet) (profileID : String) :
    Body env (.completeAdoption profileID) c ((c.completeAdoption env profileID).map id .ofUnit) := by
  unfold completeAdoption
  rw [DurableState.clone_eq hset]
  split
  · exact .fail (.refl c)
  · split
    · exact .none (.refl c) .unfenced
    · next fence hfence =>
      split
      · exact .fail (.refl c)
      · next hpending =>
        dsimp only
        split
        · exact .fail (.refl c)
        · next h =>
          obtain ⟨-, rfl⟩ := persist_ok h
          exact .act (.unfence hfence (List.length_eq_zero_iff.mp (by omega))) .unfence

theorem acquireSwept_body (hset : c.state.FencesSet) (hun : c.Unexpired env) {p k : String}
    (hp : profileIDPattern p = true)
    (hk : slotKeyPattern k = true) (n : Int) :
    Body env (.acquire p k n) c ((c.acquireSwept env p k n).map id .ofLease) := by
  have hstale := alike_expireStaleDemand c env.now
  unfold acquireSwept
  dsimp only
  split
  · exact .fail hstale
  · next hfences =>
    split
    · exact .fail hstale
    · next habsent =>
      split
      · exact .fail hstale
      · next pp hknown =>
        have hreg := hstale.trans (alike_registerDemand (c.expireStaleDemandLocked env.now) env p
          (if n < 1 then 1 else n))
        split
        · exact .fail hreg
        · next contenders hadmitted =>
          rw [DurableState.clone_eq (by rw [hreg.state]; exact hset)]
          split
          · exact .fail hreg
          · next h =>
            obtain ⟨-, rfl⟩ := persist_ok h
            refine ⟨some _, _, _, hreg, Took.grant (hreg.unexpired hun) hp hk
              (Nat.eq_zero_of_not_pos hfences) habsent hknown
              hadmitted, ?_, .grant⟩
            exact alike_advanceRotation rfl

theorem bindRegistrationSwept_body (hset : c.state.FencesSet) (hun : c.Unexpired env) {p k name : String}
    (hp : profileIDPattern p = true) (hk : slotKeyPattern k = true) (hname : registrationNamePattern name = true) :
    Body env (.bindRegistration p k name) c ((c.bindRegistrationSwept env p k name).map id .ofLease) := by
  unfold bindRegistrationSwept
  rw [DurableState.clone_eq hset]
  dsimp only
  split
  · exact .fail (.refl c)
  · next l hl =>
    split
    · exact .act (.keep hun hl) .bound
    · split
      · exact .fail (.refl c)
      · next hunbound =>
        split
        · exact .fail (.refl c)
        · next h =>
          obtain ⟨-, rfl⟩ := persist_ok h
          exact .act (.bind hun hp hk hl (not_not.mp hunbound) hname) .bind

theorem adoptSwept_body (hset : c.state.FencesSet) (hun : c.Unexpired env) {p k : String}
    (hp : profileIDPattern p = true)
    (hk : slotKeyPattern k = true) : Body env (.adopt p k) c ((c.adoptSwept env p k).map id .ofLease) := by
  unfold adoptSwept adoptInactive
  rw [DurableState.clone_eq hset]
  dsimp only
  split
  · exact .fail (.refl c)
  · next pp hknown =>
    split
    · next l hl =>
      split
      · next hactive =>
        split
        · next hmark => exact .act (.account hun hp hk hl hactive (Or.inl ⟨rfl, by rw [hmark]⟩)) .account
        · next next hmark =>
          split
          · exact .fail (.refl c)
          · next h =>
            obtain ⟨-, rfl⟩ := persist_ok h
            exact .act (.account hun hp hk hl hactive (Or.inr (by rw [hmark]; rfl))) .account
      · next hinactive =>
        split
        · exact .fail (.refl c)
        · next h =>
          obtain ⟨-, rfl⟩ := persist_ok h
          exact .act (.promote hun hp hk hl hinactive) .promote
    · next habsent =>
      split
      · exact .fail (.refl c)
      · next h =>
        obtain ⟨-, rfl⟩ := persist_ok h
        exact .act (.create hun hp hk habsent hknown) .create

theorem renewSwept_body (hset : c.state.FencesSet) (hun : c.Unexpired env) {p k : String}
    (hp : profileIDPattern p = true)
    (hk : slotKeyPattern k = true) (expired : List String) :
    Body env (.renew p k) c ((c.renewSwept env p k expired).map id .ofLease) := by
  unfold renewSwept
  rw [DurableState.clone_eq hset]
  dsimp only
  split
  · exact .fail (.refl c)
  · split
    · exact .fail (.refl c)
    · next l hl =>
      split
      · exact .fail (.refl c)
      · next hprovisional =>
        split
        · exact .fail (.refl c)
        · next h =>
          obtain ⟨-, rfl⟩ := persist_ok h
          exact .act (.renew hun hp hk hl (not_not.mp hprovisional)) .renew

theorem activateSwept_body (hset : c.state.FencesSet) (hun : c.Unexpired env) {p k : String}
    (hp : profileIDPattern p = true)
    (hk : slotKeyPattern k = true) (expired : List String) :
    Body env (.activate p k) c ((c.activateSwept env p k expired).map id .ofLease) := by
  unfold activateSwept
  rw [DurableState.clone_eq hset]
  dsimp only
  split
  · exact .fail (.refl c)
  · split
    · exact .fail (.refl c)
    · next l hl =>
      split
      · exact .act (.keep hun hl) .active
      · next hinactive =>
        split
        · exact .fail (.refl c)
        · next h =>
          obtain ⟨-, rfl⟩ := persist_ok h
          exact .act (.activate hun hp hk hl hinactive) .activate

theorem tombstoneLocked_body (hset : c.state.FencesSet) (hun : c.Unexpired env) {p k : String}
    (hp : profileIDPattern p = true) (hk : slotKeyPattern k = true) (reason : TombstoneReason) (evidence : String)
    (hremove : ∀ t, Fits call .done (some (.remove p k t))) (hgone : Fits call .done (some (.gone p k))) :
    Body env call c ((c.tombstoneLocked env p k reason evidence).map id .ofUnit) := by
  unfold tombstoneLocked
  rw [DurableState.clone_eq hset]
  dsimp only
  split
  · next habsent =>
    split
    · next htomb => exact .act (.gone hun habsent htomb) hgone
    · exact .fail (.refl c)
  · next l hl =>
    split
    · exact .fail (.refl c)
    · next h =>
      obtain ⟨-, rfl⟩ := persist_ok h
      exact .act (.remove hun hp hk hl ⟨rfl, rfl, rfl, rfl⟩) (hremove _)

theorem Body.fencesSet {r : Coordinator × Reply} (h : Body env call c r) (hset : c.state.FencesSet) :
    r.1.state.FencesSet := by
  obtain ⟨a, c₁, c₂, h₁, hdoes, h₂, -⟩ := h
  rw [h₂.state]
  rw [← h₁.state] at hset
  cases a with
  | none => rw [hdoes]; exact hset
  | some a => exact Took.fencesSet hdoes hset

theorem sweptFor_fencesSet (hset : c.state.FencesSet) : (c.sweptFor env call).state.FencesSet := by
  unfold Coordinator.sweptFor
  split
  · have hsw := sweep_cases hset env
    cases hr : c.sweepExpiredLocked env with
    | mk c' r =>
      cases r with
      | ok keys => exact (sweep_ok hset hr).2.1
      | error e =>
        rcases hsw with ⟨_, hs⟩ | ⟨_, _, hs⟩ | ⟨_, _, hs⟩ <;> rw [hs] at hr <;> cases hr
        exact hset
  · exact hset

theorem swept_body {α : Type} {toReply : Except Err α → Reply}
    {body : Coordinator → List String → Coordinator × Except Err α}
    (hset : c.state.FencesSet) (hsweeps : call.sweeps = true) (herr : ∀ e, toReply (.error e) = .failed e)
    (hbody : ∀ c keys, c.state.FencesSet → c.Unexpired env → Body env call c ((body c keys).map id toReply)) :
    Body env call (c.sweptFor env call) ((c.swept env body).map id toReply) := by
  unfold Coordinator.sweptFor swept
  rw [if_pos hsweeps]
  split
  · next c' e hs =>
    rw [hs, Prod.map_apply, herr]
    exact .fail (.refl c')
  · next c' keys hs =>
    rw [hs]
    obtain ⟨hun, hset', -⟩ := sweep_ok hset hs
    exact hbody c' keys hset' hun

theorem Body.course {r : Coordinator × Reply} (h : Body env call (c.sweptFor env call) r) :
    ∃ a, Course env call a c r.1 ∧ Fits call r.2 a := by
  obtain ⟨a, c₁, c₂, h₁, hdoes, h₂, fits⟩ := h
  exact ⟨a, ⟨c₁, c₂, r.1, h₁, hdoes, h₂, Or.inl rfl⟩, fits⟩

theorem Body.deciding {α : Type} {toReply : Except Err α → Reply} {command : Command} {p : String}
    {granted : Except Err α → Bool} {body : Coordinator → Coordinator × Except Err α} (hset : c.state.FencesSet)
    (hcmd : command.isLeaseDecision = true) (hp : profileIDPattern p = true)
    (h : Body env call (c.sweptFor env call) ((body c).map id toReply)) :
    ∃ a, Course env call a c ((c.deciding env command p granted body).map id toReply).1 ∧
      Fits call ((c.deciding env command p granted body).map id toReply).2 a := by
  have hset' := h.fencesSet (sweptFor_fencesSet hset)
  obtain ⟨a, c₁, c₂, h₁, hdoes, h₂, fits⟩ := h
  exact ⟨a, ⟨c₁, c₂, (body c).1, h₁, hdoes, h₂, records_decision (body c).1 hset' hcmd hp⟩, fits⟩

theorem sweptFor_of_not (h : call.sweeps = false) : c.sweptFor env call = c := by
  simp [Coordinator.sweptFor, h]

theorem isOk_of_ok {α : Type} {x : Except Err α} {v : α} (h : x = .ok v) : x.isOk = true := by rw [h]; rfl

theorem isOk_of_error {α : Type} {x : Except Err α} {e : Err} (h : x = .error e) : x.isOk = false := by rw [h]; rfl

theorem Body.refused {e : Err} (h : call.sweeps = false) : Body env call (c.sweptFor env call) (c, .failed e) := by
  rw [sweptFor_of_not h]
  exact .fail (.refl c)

/-- The course of the lease operations that are recorded: a bad identity is refused, any other outcome is
    recorded. -/
theorem decided_course {α : Type} {toReply : Except Err α → Reply} {command : Command} {p k : String}
    {granted : Except Err α → Bool} {body : Coordinator → List String → Coordinator × Except Err α}
    {r : Coordinator × Except Err α} (hset : c.state.FencesSet)
    (hsweeps : call.sweeps = (validateLeaseIdentity p k).isOk)
    (herr : ∀ e, toReply (.error e) = .failed e) (hcmd : command.isLeaseDecision = true)
    (hbody : ∀ c keys, c.state.FencesSet → c.Unexpired env → profileIDPattern p = true → slotKeyPattern k = true →
      Body env call c ((body c keys).map id toReply))
    (hr : r = match validateLeaseIdentity p k with
      | .error e => (c, .error e)
      | .ok () => c.deciding env command p granted fun c => c.swept env body) :
    ∃ a, Course env call a c (r.map id toReply).1 ∧ Fits call (r.map id toReply).2 a := by
  subst hr
  split
  · next hid =>
    rw [Prod.map_apply, herr]
    exact (Body.refused (hsweeps.trans (isOk_of_error hid))).course
  · next hid =>
    obtain ⟨hp, hk⟩ := validateLeaseIdentity_ok.mp hid
    have hswept := swept_body hset (hsweeps.trans (isOk_of_ok hid)) herr fun c keys hset hun =>
      hbody c keys hset hun hp hk
    exact hswept.deciding hset hcmd hp

theorem call_course (hset : c.state.FencesSet) (env : Env) (call : Call) :
    ∃ a, Course env call a c (c.call env call).1 ∧ Fits call (c.call env call).2 a := by
  cases call with
  | applyPolicy p => exact (applyPolicy_body hset p).course
  | setDemand p n => exact (setDemand_body p n).course
  | beginAdoption p => exact (beginAdoption_body hset p).course
  | completeAdoption p => exact (completeAdoption_body hset p).course
  | acquire p k n =>
    exact decided_course hset rfl (fun _ => rfl) rfl (fun c _ hset hun hp hk => acquireSwept_body hset hun hp hk n) rfl
  | bindRegistration p k name =>
    simp only [Coordinator.call, bindRegistration]
    split
    · next hid => exact (Body.refused (by simp [Call.sweeps, isOk_of_error hid])).course
    · next hid =>
      obtain ⟨hp, hk⟩ := validateLeaseIdentity_ok.mp hid
      split
      · next hname => exact (Body.refused (by simp [Call.sweeps, isOk_of_error hname])).course
      · next hname =>
        have hsweeps : (Call.bindRegistration p k name).sweeps = true := by
          simp [Call.sweeps, isOk_of_ok hid, isOk_of_ok hname]
        have hpat : registrationNamePattern name = true := by simpa [validateRegistrationName] using hname
        exact (swept_body hset hsweeps (fun _ => rfl) fun c _ hset hun =>
          bindRegistrationSwept_body hset hun hp hk hpat).course
  | adopt p k =>
    exact decided_course hset rfl (fun _ => rfl) rfl (fun c _ hset hun hp hk => adoptSwept_body hset hun hp hk) rfl
  | renew p k =>
    exact decided_course hset rfl (fun _ => rfl) rfl (fun c keys hset hun hp hk =>
      renewSwept_body hset hun hp hk keys) rfl
  | activate p k =>
    exact decided_course hset rfl (fun _ => rfl) rfl (fun c keys hset hun hp hk =>
      activateSwept_body hset hun hp hk keys)
      rfl
  | release p k =>
    exact decided_course hset rfl (fun _ => rfl) rfl (fun c _ hset hun hp hk =>
      tombstoneLocked_body hset hun hp hk .released "" (fun _ => .release) .released) rfl
  | reconcile p k e =>
    simp only [Coordinator.call, reconcile]
    cases hev : sanitizeEvidence e with
    | error err =>
      have hsweeps : (Call.reconcile p k e).sweeps = false := by simp [Call.sweeps, isOk_of_error hev]
      split
      · exact (Body.refused hsweeps).course
      · exact (Body.refused hsweeps).course
    | ok evidence =>
      have hsweeps : (Call.reconcile p k e).sweeps = (validateLeaseIdentity p k).isOk := by
        simp [Call.sweeps, isOk_of_ok hev]
      exact decided_course hset hsweeps (fun _ => rfl) rfl (fun c _ hset hun hp hk =>
        tombstoneLocked_body hset hun hp hk .reconciledAbsent evidence (fun _ => .reconcile) .reconciled) rfl
  | status =>
    have hstatus (c : Coordinator) (_ : List String) (_ : c.state.FencesSet) (_ : c.Unexpired env) : Body env .status c
        ((c.expireStaleDemandLocked env.now, .ok (c.expireStaleDemandLocked env.now).snapshot).map id .ofSnapshot) :=
      .none (alike_expireStaleDemand c env.now) .status
    exact (swept_body hset rfl (fun _ => rfl) hstatus).course

end Courses

end PitCrew.Admission
