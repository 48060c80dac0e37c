import PitCrew.Theorems.Autoscaler.Journal

/-! # The window of the journal

Events enter the journal at its end and leave it near its front. An event whose scope already ends in the same
outcome and reason takes the place of the last one there, so no scope holds two such events in a row
(`Coalesced`), and what leaves is never the latest recovery failure that is unresolved. Restoring a document
passes its events through the same functions again; it changes nothing if every event is still valid. -/

namespace PitCrew.Autoscaler.Diagnostics
open Base

/-! ## Scopes -/

section Scopes
variable {events before after : List ManagerEvent} {event previous : ManagerEvent}

def scopePredecessor (events : List ManagerEvent) (event : ManagerEvent) : Option ManagerEvent :=
  (events.filter (sameJournalEventScope · event)).getLast?

def Repeats (event previous : ManagerEvent) : Prop := previous.outcome = event.outcome ∧ previous.reason = event.reason

/-- No event with a coalescible outcome repeats the one before it in its scope. -/
def Coalesced (events : List ManagerEvent) : Prop :=
  ∀ before event after, events = before ++ event :: after → journalOutcomeCoalescible event.outcome = true →
    ∀ previous ∈ scopePredecessor before event, ¬ Repeats event previous

theorem sameScope_iff {left right : ManagerEvent} : sameJournalEventScope left right = true ↔
    left.subsystem = right.subsystem ∧ left.operation = right.operation ∧ left.target = right.target := by
  unfold sameJournalEventScope
  exact decide_eq_true_iff

theorem sameScope_symm {left right : ManagerEvent} (h : sameJournalEventScope left right = true) :
    sameJournalEventScope right left = true := by
  obtain ⟨hsubsystem, hoperation, htarget⟩ := sameScope_iff.mp h
  exact sameScope_iff.mpr ⟨hsubsystem.symm, hoperation.symm, htarget.symm⟩

theorem sameScope_trans {a b c : ManagerEvent} (h : sameJournalEventScope a b = true)
    (h' : sameJournalEventScope b c = true) : sameJournalEventScope a c = true := by
  obtain ⟨hsubsystem, hoperation, htarget⟩ := sameScope_iff.mp h
  obtain ⟨hsubsystem', hoperation', htarget'⟩ := sameScope_iff.mp h'
  exact sameScope_iff.mpr ⟨hsubsystem.trans hsubsystem', hoperation.trans hoperation', htarget.trans htarget'⟩

theorem scopePredecessor_concat (events : List ManagerEvent) (last event : ManagerEvent) :
    scopePredecessor (events ++ [last]) event =
      if sameJournalEventScope last event then some last else scopePredecessor events event := by
  unfold scopePredecessor
  rw [List.filter_append]
  split
  next h => simp [h]
  next h => simp [h]

theorem scopePredecessor_append (h : ∀ x ∈ after, sameJournalEventScope x event = false) :
    scopePredecessor (before ++ after) event = scopePredecessor before event := by
  have hnone : after.filter (sameJournalEventScope · event) = [] := by
    rw [List.filter_eq_nil_iff]
    intro x hx
    rw [h x hx]
    exact Bool.false_ne_true
  unfold scopePredecessor
  rw [List.filter_append, hnone, List.append_nil]

theorem scopePredecessor_cons (first : ManagerEvent) (events : List ManagerEvent) (event : ManagerEvent) :
    scopePredecessor (first :: events) event = scopePredecessor events event ∨
      (scopePredecessor (first :: events) event = some first ∧ scopePredecessor events event = none ∧
        sameJournalEventScope first event = true) := by
  unfold scopePredecessor
  rw [List.filter_cons]
  split
  next h =>
    cases hrest : events.filter (sameJournalEventScope · event) with
    | nil => exact Or.inr ⟨rfl, rfl, h⟩
    | cons x xs => exact Or.inl (by rw [List.getLast?_cons_cons])
  next => exact Or.inl rfl

/-! ### Coalescing -/

theorem coalescibleBelow_prefix {n : Nat} (hn : n ≤ before.length) :
    coalescibleBelow (before ++ after) event n = coalescibleBelow before event n := by
  induction n with
  | zero => rfl
  | succ n ih => rw [coalescibleBelow, coalescibleBelow, List.getElem?_append_left hn, ih (by omega)]

/-- The search finds the last event of the scope, if the event repeats it, and otherwise nothing. -/
theorem coalescibleBelow_cases (events : List ManagerEvent) (event : ManagerEvent) :
    (coalescibleBelow events event events.length = none ∧
        ∀ previous ∈ scopePredecessor events event, ¬ Repeats event previous) ∨
      ∃ before previous after, events = before ++ previous :: after ∧
        coalescibleBelow events event events.length = some before.length ∧
        sameJournalEventScope previous event = true ∧ Repeats event previous ∧
        ∀ x ∈ after, sameJournalEventScope x event = false := by
  induction events using List.reverseRecOn with
  | nil => exact Or.inl ⟨rfl, fun _ h => absurd h (Option.not_mem_none _)⟩
  | append_singleton events last ih =>
    have hlast : (events ++ [last])[events.length]? = some last := List.getElem?_concat_length
    have hsearch : coalescibleBelow (events ++ [last]) event (events ++ [last]).length =
        if sameJournalEventScope last event = false then coalescibleBelow events event events.length
        else if last.outcome = event.outcome ∧ last.reason = event.reason then some events.length else none := by
      rw [List.length_append, List.length_singleton, coalescibleBelow, hlast, coalescibleBelow_prefix le_rfl]
    rw [hsearch, scopePredecessor_concat]
    cases hscope : sameJournalEventScope last event with
    | false =>
      rw [if_pos rfl, if_neg Bool.false_ne_true]
      rcases ih with hnone | ⟨before, previous, after, rfl, hfound, hprevious, hrepeats, hafter⟩
      · exact Or.inl hnone
      · refine Or.inr ⟨before, previous, after ++ [last], by simp, hfound, hprevious, hrepeats, fun x hx => ?_⟩
        rcases List.mem_append.mp hx with hx | hx
        · exact hafter x hx
        · rw [List.mem_singleton.mp hx]
          exact hscope
    | true =>
      rw [if_neg (Bool.false_ne_true ∘ Eq.symm), if_pos rfl]
      split
      next hrepeats =>
        exact Or.inr ⟨events, last, [], rfl, rfl, hscope, hrepeats, fun x hx => absurd hx List.not_mem_nil⟩
      next hrepeats =>
        refine Or.inl ⟨rfl, fun previous hprevious => ?_⟩
        rw [← Option.mem_some.mp hprevious]
        exact hrepeats

/-- The event that takes the place of the one it repeats. -/
def mergedEvent (previous event : ManagerEvent) : ManagerEvent :=
  { normalizeManagerEvent event with
    firstObservedAt := (normalizeManagerEvent previous).firstObservedAt
    occurrenceCount := boundedOccurrenceSum (normalizeManagerEvent previous).occurrenceCount
      (normalizeManagerEvent event).occurrenceCount }

theorem coalesceJournalEvent_cases (events : List ManagerEvent) (event : ManagerEvent) :
    (coalesceJournalEvent events event = events ++ [normalizeManagerEvent event] ∧
        (journalOutcomeCoalescible event.outcome = true →
          ∀ previous ∈ scopePredecessor events event, ¬ Repeats event previous)) ∨
      ∃ before previous after, events = before ++ previous :: after ∧
        coalesceJournalEvent events event = before ++ after ++ [mergedEvent previous event] ∧
        journalOutcomeCoalescible event.outcome = true ∧ sameJournalEventScope previous event = true ∧
        Repeats event previous ∧ ∀ x ∈ after, sameJournalEventScope x event = false := by
  unfold coalesceJournalEvent coalescibleJournalEventIndex
  dsimp only
  by_cases hcoalescible : journalOutcomeCoalescible event.outcome = true
  · have hcoalescible' : journalOutcomeCoalescible (normalizeManagerEvent event).outcome = true := hcoalescible
    rw [if_pos hcoalescible']
    rcases coalescibleBelow_cases events (normalizeManagerEvent event) with
      ⟨hnone, hpredecessor⟩ | ⟨before, previous, after, rfl, hfound, hscope, hrepeats, hafter⟩
    · rw [hnone]
      exact Or.inl ⟨rfl, fun _ => hpredecessor⟩
    · have hprevious : (before ++ previous :: after)[before.length]? = some previous := by simp
      have herase : (before ++ previous :: after).eraseIdx before.length = before ++ after := by
        rw [List.eraseIdx_append_of_length_le le_rfl, Nat.sub_self]
        rfl
      rw [hfound]
      dsimp only
      rw [hprevious]
      dsimp only
      rw [herase]
      exact Or.inr ⟨before, previous, after, rfl, rfl, hcoalescible, hscope, hrepeats, hafter⟩
  · have hcoalescible' : ¬ journalOutcomeCoalescible (normalizeManagerEvent event).outcome = true := hcoalescible
    rw [if_neg hcoalescible']
    exact Or.inl ⟨rfl, fun h => absurd h hcoalescible⟩

theorem Coalesced.concat (h : Coalesced events) (hnew : journalOutcomeCoalescible event.outcome = true →
    ∀ previous ∈ scopePredecessor events event, ¬ Repeats event previous) : Coalesced (events ++ [event]) := by
  intro before x after hsplit hx
  rcases List.eq_nil_or_concat after with rfl | ⟨after', last, rfl⟩
  · obtain ⟨rfl, hlast⟩ := List.append_inj' hsplit rfl
    obtain rfl := (List.cons.inj hlast).1
    exact hnew hx
  · have hsplit' : events ++ [event] = (before ++ x :: after') ++ [last] := by simpa using hsplit
    exact h before x after' (List.append_inj' hsplit' rfl).1 hx

theorem Coalesced.remove {gone : ManagerEvent} (h : Coalesced (before ++ gone :: after))
    (hafter : ∀ b x a, after = b ++ x :: a → journalOutcomeCoalescible x.outcome = true →
      (∀ previous ∈ scopePredecessor (before ++ gone :: b) x, ¬ Repeats x previous) →
      ∀ previous ∈ scopePredecessor (before ++ b) x, ¬ Repeats x previous) : Coalesced (before ++ after) := by
  intro b x a hsplit hx
  rcases List.append_eq_append_iff.mp hsplit with ⟨c, hb, hc⟩ | ⟨c, hb, hc⟩
  · -- the event stands after the one that is gone
    subst hb
    exact hafter c x a hc hx (h (before ++ gone :: c) x a (by rw [hc]; simp) hx)
  · cases c with
    | nil =>
      rw [List.append_nil] at hb
      subst hb
      have hsplit' : after = [] ++ x :: a := by simpa using hc.symm
      have hgone := hafter [] x a hsplit' hx (h (before ++ [gone]) x a (by rw [hsplit']; simp) hx)
      simpa using hgone
    | cons y ys =>
      obtain ⟨rfl, rfl⟩ := List.cons.inj hc
      exact h b x (ys ++ gone :: after) (by rw [hb]; simp) hx

theorem Coalesced.coalesce (h : Coalesced events) (event : ManagerEvent) :
    Coalesced (coalesceJournalEvent events event) := by
  rcases coalesceJournalEvent_cases events event with
    ⟨heq, hnew⟩ | ⟨before, previous, after, rfl, heq, hcoalescible, hscope, hrepeats, hafter⟩
  · rw [heq]
    exact h.concat hnew
  · rw [heq]
    refine Coalesced.concat (h.remove fun b x a hsplit _ hx => ?_) fun _ p hp => ?_
    · -- no event after it is in its scope
      have hother : sameJournalEventScope previous x = false := by
        by_contra hsame
        have hx' := hafter x (by rw [hsplit]; simp)
        rw [sameScope_trans (sameScope_symm (Bool.not_eq_false _ ▸ hsame)) hscope] at hx'
        exact Bool.false_ne_true hx'.symm
      have hsame : scopePredecessor (before ++ previous :: b) x = scopePredecessor (before ++ b) x := by
        unfold scopePredecessor
        simp [hother]
      rwa [hsame] at hx
    · have hpredecessor :
        scopePredecessor (before ++ after) (mergedEvent previous event) = scopePredecessor before previous := by
        have hmerged :
            ∀ x, sameJournalEventScope x (mergedEvent previous event) = sameJournalEventScope x previous := by
          intro x
          obtain ⟨hsubsystem, hoperation, htarget⟩ := sameScope_iff.mp hscope
          unfold sameJournalEventScope
          rw [hsubsystem, hoperation, htarget]
          rfl
        have hafter' : ∀ x ∈ after, sameJournalEventScope x (mergedEvent previous event) = false := hafter
        rw [scopePredecessor_append hafter']
        unfold scopePredecessor
        simp only [hmerged]
      rw [hpredecessor] at hp
      have hkept := h before previous after rfl (hrepeats.1 ▸ hcoalescible) p hp
      intro hp'
      exact hkept ⟨hp'.1.trans hrepeats.1.symm, hp'.2.trans hrepeats.2.symm⟩

end Scopes

/-! ## Eviction -/

section Eviction
variable {events before after : List ManagerEvent} {event : ManagerEvent}

def unresolvedOutcome : JournalOutcome → Bool
  | .blocked | .failed | .timedOut | .retryScheduled => true
  | _ => false

def Unresolved (event : ManagerEvent) : Prop :=
  event.subsystem = .recovery ∧ unresolvedOutcome event.outcome = true

/-- Not an event that would resolve or replace an earlier recovery failure. -/
def Aside (event : ManagerEvent) : Prop :=
  event.subsystem = .recovery → event.outcome ≠ .recovered ∧ unresolvedOutcome event.outcome = false

/-- The latest recovery failure, with nothing after it that resolves it. -/
def LatestUnresolved (events : List ManagerEvent) (event : ManagerEvent) : Prop :=
  ∃ before after, events = before ++ event :: after ∧ Unresolved event ∧ ∀ later ∈ after, Aside later

theorem LatestUnresolved.mem (h : LatestUnresolved events event) : event ∈ events := by
  obtain ⟨before, after, rfl, -, -⟩ := h
  exact List.mem_append_right before List.mem_cons_self

theorem unresolvedRecoveryBelow_append {n : Nat} (hn : n ≤ before.length) :
    unresolvedRecoveryBelow (before ++ after) n = unresolvedRecoveryBelow before n := by
  induction n with
  | zero => rfl
  | succ n ih => rw [unresolvedRecoveryBelow, unresolvedRecoveryBelow, List.getElem?_append_left hn, ih (by omega)]

theorem unresolvedRecoveryEventIndex_concat (events : List ManagerEvent) (last : ManagerEvent) :
    (Unresolved last ∧ unresolvedRecoveryEventIndex (events ++ [last]) = some events.length) ∨
      (Aside last ∧ unresolvedRecoveryEventIndex (events ++ [last]) = unresolvedRecoveryEventIndex events) ∨
      (last.subsystem = .recovery ∧ last.outcome = .recovered ∧
        unresolvedRecoveryEventIndex (events ++ [last]) = none) := by
  have hlast : (events ++ [last])[events.length]? = some last := List.getElem?_concat_length
  unfold unresolvedRecoveryEventIndex
  rw [List.length_append, List.length_singleton, unresolvedRecoveryBelow, hlast]
  dsimp only
  rw [unresolvedRecoveryBelow_append le_rfl]
  split
  next hother => exact Or.inr (Or.inl ⟨fun h => absurd h hother, rfl⟩)
  next hrecovery =>
    have hrecovery : last.subsystem = .recovery := not_not.mp hrecovery
    cases houtcome : last.outcome with
    | recovered => exact Or.inr (Or.inr ⟨hrecovery, rfl, rfl⟩)
    | blocked | failed | timedOut | retryScheduled => exact Or.inl ⟨⟨hrecovery, by rw [houtcome]; rfl⟩, rfl⟩
    | succeeded | unknown | other text =>
      refine Or.inr (Or.inl ⟨fun _ => ⟨?_, ?_⟩, rfl⟩)
      · rw [houtcome]
        exact fun h => JournalOutcome.noConfusion h
      · rw [houtcome]
        rfl

theorem unresolvedRecoveryEventIndex_iff {index : Nat} : unresolvedRecoveryEventIndex events = some index ↔
    ∃ before event after, events = before ++ event :: after ∧ before.length = index ∧ Unresolved event ∧
      ∀ later ∈ after, Aside later := by
  induction events using List.reverseRecOn with
  | nil => simp [unresolvedRecoveryEventIndex, unresolvedRecoveryBelow]
  | append_singleton events last ih =>
    -- a split of the longer list ends before the last event or at it
    have hsplit : (∃ before event after, events ++ [last] = before ++ event :: after ∧ before.length = index ∧
        Unresolved event ∧ ∀ later ∈ after, Aside later) ↔
        (Unresolved last ∧ events.length = index) ∨ (Aside last ∧
          unresolvedRecoveryEventIndex events = some index) := by
      rw [ih]
      constructor
      · rintro ⟨before, event, after, heq, hindex, hevent, hafter⟩
        rcases List.eq_nil_or_concat after with rfl | ⟨after', x, rfl⟩
        · obtain ⟨rfl, hlast⟩ := List.append_inj' heq rfl
          obtain rfl := (List.cons.inj hlast).1
          exact Or.inl ⟨hevent, hindex⟩
        · have heq' : events ++ [last] = (before ++ event :: after') ++ [x] := by simpa using heq
          obtain ⟨rfl, hlast⟩ := List.append_inj' heq' rfl
          obtain rfl := (List.cons.inj hlast).1
          refine Or.inr ⟨hafter last (by simp), before, event, after', rfl, hindex, hevent, fun later hlater => ?_⟩
          exact hafter later (by simp [hlater])
      · rintro (⟨hlast, hindex⟩ | ⟨hlast, before, event, after, rfl, hindex, hevent, hafter⟩)
        · exact ⟨events, last, [], rfl, hindex, hlast, fun later hlater => absurd hlater List.not_mem_nil⟩
        · refine ⟨before, event, after ++ [last], by simp, hindex, hevent, fun later hlater => ?_⟩
          rcases List.mem_append.mp hlater with hlater | hlater
          · exact hafter later hlater
          · rw [List.mem_singleton.mp hlater]
            exact hlast
    rw [hsplit]
    rcases unresolvedRecoveryEventIndex_concat events last with
      ⟨hlast, heq⟩ | ⟨hlast, heq⟩ | ⟨hrecovery, hrecovered, heq⟩
    · rw [heq, Option.some.injEq]
      refine ⟨fun h => Or.inl ⟨hlast, h⟩, fun h => ?_⟩
      rcases h with ⟨-, h⟩ | ⟨haside, -⟩
      · exact h
      · exact absurd ((haside hlast.1).2.symm.trans hlast.2) Bool.false_ne_true
    · rw [heq]
      refine ⟨fun h => Or.inr ⟨hlast, h⟩, fun h => ?_⟩
      rcases h with ⟨hunresolved, -⟩ | ⟨-, h⟩
      · exact absurd ((hlast hunresolved.1).2.symm.trans hunresolved.2) Bool.false_ne_true
      · exact h
    · rw [heq]
      refine ⟨fun h => absurd h.symm (Option.some_ne_none _), fun h => ?_⟩
      rcases h with ⟨⟨-, hunresolved⟩, -⟩ | ⟨haside, -⟩
      · rw [hrecovered] at hunresolved
        exact absurd hunresolved Bool.false_ne_true
      · exact absurd hrecovered (haside hrecovery).1

theorem dropOldestJournalEvent_cases (first : ManagerEvent) (rest : List ManagerEvent) :
    (dropOldestJournalEvent (first :: rest) = rest ∧
        (Unresolved first → (∀ later ∈ rest, Aside later) → rest = [])) ∨
      ∃ second tail, rest = second :: tail ∧ dropOldestJournalEvent (first :: rest) = first :: tail ∧
        Unresolved first ∧ ∀ later ∈ rest, Aside later := by
  unfold dropOldestJournalEvent
  split
  next h =>
    obtain ⟨hindex, hlength⟩ := h
    obtain ⟨before, event, after, heq, hbefore, hevent, hafter⟩ := unresolvedRecoveryEventIndex_iff.mp hindex
    obtain rfl := List.eq_nil_of_length_eq_zero hbefore
    obtain ⟨rfl, rfl⟩ := List.cons.inj heq
    cases rest with
    | nil => exact absurd hlength (lt_irrefl 1)
    | cons second tail => exact Or.inr ⟨second, tail, rfl, rfl, hevent, hafter⟩
  next h =>
    refine Or.inl ⟨rfl, fun hfirst hrest => ?_⟩
    by_contra hne
    refine h ⟨unresolvedRecoveryEventIndex_iff.mpr ⟨[], first, rest, rfl, rfl, hfirst, hrest⟩, ?_⟩
    have := List.length_pos_of_ne_nil hne
    rw [List.length_cons]
    omega

theorem dropOldestJournalEvent_sublist (events : List ManagerEvent) : (dropOldestJournalEvent events).Sublist events :=
  List.eraseIdx_sublist events _

theorem dropOldestJournalEvent_length (h : events ≠ []) :
    (dropOldestJournalEvent events).length + 1 = events.length := by
  cases events with
  | nil => exact absurd rfl h
  | cons first rest =>
    rcases dropOldestJournalEvent_cases first rest with ⟨heq, -⟩ | ⟨second, tail, rfl, heq, -⟩
    · rw [heq, List.length_cons]
    · rw [heq]
      simp

theorem LatestUnresolved.drop (h : LatestUnresolved events event) (hleft : dropOldestJournalEvent events ≠ []) :
    LatestUnresolved (dropOldestJournalEvent events) event := by
  obtain ⟨before, after, rfl, hevent, hafter⟩ := h
  cases before with
  | nil =>
    rcases dropOldestJournalEvent_cases event after with ⟨heq, hlast⟩ | ⟨second, tail, rfl, heq, -, -⟩
    · rw [List.nil_append, heq] at hleft
      exact absurd (hlast hevent hafter) hleft
    · rw [List.nil_append, heq]
      exact ⟨[], tail, rfl, hevent, fun later hlater => hafter later (List.mem_cons_of_mem _ hlater)⟩
  | cons first before =>
    rcases dropOldestJournalEvent_cases first (before ++ event :: after) with ⟨heq, -⟩ | ⟨_, _, _, _, hfirst, hrest⟩
    · rw [List.cons_append, heq]
      exact ⟨before, after, rfl, hevent, hafter⟩
    · -- the failure itself is not aside
      have haside := hrest event (by simp)
      exact absurd ((haside hevent.1).2.symm.trans hevent.2) Bool.false_ne_true

theorem Coalesced.drop (h : Coalesced events) : Coalesced (dropOldestJournalEvent events) := by
  cases events with
  | nil => exact h
  | cons first rest =>
    rcases dropOldestJournalEvent_cases first rest with ⟨heq, -⟩ | ⟨second, tail, rfl, heq, hfirst, hrest⟩
    · rw [heq]
      have hsplit : Coalesced ([] ++ first :: rest) := h
      refine hsplit.remove fun b x a _ _ hx previous hprevious => ?_
      rcases scopePredecessor_cons first b x with hsame | ⟨-, hnone, -⟩
      · exact hx previous (hsame ▸ hprevious)
      · rw [List.nil_append, hnone] at hprevious
        exact absurd hprevious (Option.not_mem_none _)
    · rw [heq]
      have hsplit : Coalesced ([first] ++ second :: tail) := h
      refine hsplit.remove fun b x a htail _ hx previous hprevious => ?_
      rcases scopePredecessor_cons first b x with hsame | ⟨hfound, -, hscope⟩
      · refine hx previous ?_
        have hb : previous ∈ scopePredecessor b x := hsame ▸ hprevious
        have hsecond : previous ∈ scopePredecessor (second :: b) x := by
          rcases scopePredecessor_cons second b x with heq | ⟨-, hnone, -⟩
          · rwa [heq]
          · rw [hnone] at hb
            exact absurd hb (Option.not_mem_none _)
        rcases scopePredecessor_cons first (second :: b) x with heq | ⟨-, hnone, -⟩
        · show previous ∈ scopePredecessor (first :: second :: b) x
          rwa [heq]
        · rw [hnone] at hsecond
          exact absurd hsecond (Option.not_mem_none _)
      · -- the first event is a failure that nothing after it in its scope repeats
        obtain rfl : first = previous := Option.mem_some.mp (hfound ▸ hprevious)
        intro hrepeats
        have haside := hrest x (by rw [htail]; simp)
        have hrecovery : x.subsystem = .recovery := (sameScope_iff.mp hscope).1.symm.trans hfirst.1
        have hresolved := (haside hrecovery).2
        rw [← hrepeats.1, hfirst.2] at hresolved
        exact Bool.false_ne_true hresolved.symm

/-! ### The loops -/

theorem evictBeyond_length (events : List ManagerEvent) (evicted : Int) :
    (evictBeyond events.length events evicted).1.length ≤ journalCapacity := by
  suffices h : ∀ fuel (events : List ManagerEvent) evicted, events.length ≤ fuel →
      (evictBeyond fuel events evicted).1.length ≤ journalCapacity from h _ events evicted le_rfl
  intro fuel
  induction fuel with
  | zero =>
    intro events evicted hfuel
    rw [evictBeyond]
    exact hfuel.trans (Nat.zero_le _)
  | succ fuel ih =>
    intro events evicted hfuel
    rw [evictBeyond]
    split
    next hlength =>
      have hdropped := dropOldestJournalEvent_length (List.ne_nil_of_length_pos (Nat.zero_lt_of_lt hlength))
      exact ih _ _ (by omega)
    next hlength => exact not_lt.mp hlength

theorem evictBeyond_induction {P : List ManagerEvent → Prop} (fuel : Nat) (evicted : Int) (h : P events)
    (hdrop : ∀ events, journalCapacity < events.length → P events → P (dropOldestJournalEvent events)) :
    P (evictBeyond fuel events evicted).1 := by
  induction fuel generalizing events evicted with
  | zero => exact h
  | succ fuel ih =>
    rw [evictBeyond]
    split
    next hlength => exact ih _ (hdrop events hlength h)
    next => exact h

theorem evictBeyond_fits (fuel : Nat) (evicted : Int) (h : events.length ≤ journalCapacity) :
    evictBeyond fuel events evicted = (events, evicted) := by
  cases fuel with
  | zero => rfl
  | succ fuel => rw [evictBeyond, if_neg (not_lt.mpr h)]

theorem evictBeyond_count (fuel : Nat) (events : List ManagerEvent) (evicted : Int) :
    evicted ≤ (evictBeyond fuel events evicted).2 := by
  induction fuel generalizing events evicted with
  | zero => exact le_rfl
  | succ fuel ih =>
    rw [evictBeyond]
    split
    · have := ih (dropOldestJournalEvent events) (evicted + 1)
      omega
    · exact le_rfl

theorem LatestUnresolved.evict (h : LatestUnresolved events event) (fuel : Nat) (evicted : Int) :
    LatestUnresolved (evictBeyond fuel events evicted).1 event := by
  refine evictBeyond_induction (P := fun events => LatestUnresolved events event) fuel evicted h fun events hlength h =>
    h.drop ?_
  have := dropOldestJournalEvent_length (List.ne_nil_of_length_pos (Nat.zero_lt_of_lt hlength))
  unfold journalCapacity at hlength
  exact List.ne_nil_of_length_pos (by omega)

theorem LatestUnresolved.project (h : LatestUnresolved events event) (fuel : Nat) (evicted : Int)
    (hleft : (dropBeyondBudget fuel events evicted).1 ≠ []) :
    LatestUnresolved (dropBeyondBudget fuel events evicted).1 event := by
  induction fuel generalizing events evicted with
  | zero => exact h
  | succ fuel ih =>
    rw [dropBeyondBudget] at hleft ⊢
    split at hleft
    next hstop =>
      rw [if_pos hstop]
      exact h
    next hgo =>
      rw [if_neg hgo]
      refine ih (h.drop fun hempty => hleft ?_) _ hleft
      rw [hempty]
      cases fuel with
      | zero => rfl
      | succ fuel => rw [dropBeyondBudget, if_pos (Or.inl rfl)]

theorem journal_events (r : DiagnosticsRecorder) :
    r.journal.events = (dropBeyondBudget r.events.length r.events r.evictedEvents).1 := by
  unfold DiagnosticsRecorder.journal
  dsimp only
  split
  · split
    · rfl
    · rfl
  · split
    · rfl
    · rfl

end Eviction

/-! ## Recorders -/

/-- Events in the order of their numbers, up to the highest one. -/
structure Ordered (events : List ManagerEvent) (highest : Int) : Prop where
  increasing : events.Pairwise fun earlier later => earlier.sequence < later.sequence
  counted : ∀ event ∈ events, event.sequence ≤ highest
  coalesced : Coalesced events

/-- The window of a recorder between its calls. -/
structure Windowed (r : DiagnosticsRecorder) : Prop where
  ordered : Ordered r.events r.highestSequence
  bounded : r.events.length ≤ journalCapacity
  last : ∀ event ∈ r.events.getLast?, event.sequence = r.highestSequence

section Recorders
variable {events : List ManagerEvent} {event : ManagerEvent} {highest : Int}

theorem Ordered.nil (highest : Int) : Ordered [] highest :=
  ⟨.nil, fun _ h => absurd h List.not_mem_nil, fun before _ _ h => absurd h.symm (by simp)⟩

theorem Ordered.drop (h : Ordered events highest) : Ordered (dropOldestJournalEvent events) highest where
  increasing := h.increasing.sublist (dropOldestJournalEvent_sublist events)
  counted event hevent := h.counted event ((dropOldestJournalEvent_sublist events).subset hevent)
  coalesced := h.coalesced.drop

theorem coalesceJournalEvent_last (events : List ManagerEvent) (event : ManagerEvent) :
    ∃ kept last, coalesceJournalEvent events event = kept ++ [last] ∧ kept.Sublist events ∧
      last.sequence = event.sequence := by
  rcases coalesceJournalEvent_cases events event with ⟨heq, -⟩ | ⟨before, previous, after, rfl, heq, -⟩
  · exact ⟨events, _, heq, List.Sublist.refl _, rfl⟩
  · exact ⟨before ++ after, _, heq, (List.Sublist.refl before).append (List.sublist_cons_self previous after), rfl⟩

theorem Ordered.coalesce (h : Ordered events highest) (hnew : highest < event.sequence) :
    Ordered (coalesceJournalEvent events event) event.sequence ∧
      ∀ last ∈ (coalesceJournalEvent events event).getLast?, last.sequence = event.sequence := by
  obtain ⟨kept, last, heq, hkept, hlast⟩ := coalesceJournalEvent_last events event
  have hbelow : ∀ x ∈ kept, x.sequence < event.sequence := fun x hx => (h.counted x (hkept.subset hx)).trans_lt hnew
  refine ⟨⟨?_, ?_, h.coalesced.coalesce event⟩, ?_⟩
  · rw [heq]
    refine List.pairwise_append.mpr ⟨h.increasing.sublist hkept, List.pairwise_singleton _ _, fun x hx y hy => ?_⟩
    rw [List.mem_singleton.mp hy, hlast]
    exact hbelow x hx
  · rw [heq]
    intro x hx
    rcases List.mem_append.mp hx with hx | hx
    · exact (hbelow x hx).le
    · rw [List.mem_singleton.mp hx, hlast]
  · rw [heq, List.getLast?_concat]
    intro x hx
    rw [← Option.mem_some.mp hx, hlast]

theorem dropOldestJournalEvent_getLast? (h : 2 < events.length) :
    (dropOldestJournalEvent events).getLast? = events.getLast? := by
  cases events with
  | nil => exact absurd h (by simp)
  | cons first rest =>
    rcases dropOldestJournalEvent_cases first rest with ⟨heq, -⟩ | ⟨second, tail, rfl, heq, -⟩
    · rw [heq]
      cases rest with
      | nil => exact absurd h (by simp)
      | cons second tail => rw [List.getLast?_cons_cons]
    · rw [heq]
      cases tail with
      | nil => exact absurd h (by simp)
      | cons third tail => rw [List.getLast?_cons_cons, List.getLast?_cons_cons, List.getLast?_cons_cons]

theorem Ordered.evict (h : Ordered events highest) (fuel : Nat) (evicted : Int) :
    Ordered (evictBeyond fuel events evicted).1 highest :=
  evictBeyond_induction (P := fun events => Ordered events highest) fuel evicted h fun _ _ h => h.drop

theorem evictBeyond_getLast? (events : List ManagerEvent) (fuel : Nat) (evicted : Int) :
    (evictBeyond fuel events evicted).1.getLast? = events.getLast? := by
  refine evictBeyond_induction (P := fun kept => kept.getLast? =
    events.getLast?) fuel evicted rfl fun kept hlength h => ?_
  unfold journalCapacity at hlength
  rw [dropOldestJournalEvent_getLast? (by omega), h]

open DiagnosticsRecorder

theorem Windowed.append {r : DiagnosticsRecorder} (h : Ordered r.events highest) (hnew : highest < r.highestSequence)
    (hsequence : event.sequence = r.highestSequence) : Windowed (r.appendLocked event) := by
  obtain ⟨hordered, hlast⟩ := h.coalesce (hsequence ▸ hnew)
  rw [hsequence] at hordered hlast
  refine ⟨hordered.evict _ _, evictBeyond_length _ _, ?_⟩
  show ∀ event ∈ (evictBeyond _ _ _).1.getLast?, _
  rw [evictBeyond_getLast?]
  exact hlast

/-- An observation that is journaled goes in under its own outcome or as a recovery. -/
inductive Journals (observation : DiagnosticsObservation) : DiagnosticsObservation → Prop
  | asIs : Journals observation observation
  | recovery : Journals observation (asRecovery observation)

theorem updateHealth_eq (rfc : Rfc3339) (r : DiagnosticsRecorder) (observation : DiagnosticsObservation) (now : Int) :
    ∃ docker github, (r.updateHealthLocked rfc observation now).1 = { r with docker, github } := by
  unfold updateHealthLocked
  split
  · exact ⟨_, _, rfl⟩
  · exact ⟨_, _, rfl⟩
  · exact ⟨r.docker, r.github, rfl⟩

/-- A record call touches only the health of subsystems, or appends one event and builds the document with it. -/
theorem record_eq (rfc : Rfc3339) (isSpace : Char → Bool) (r : DiagnosticsRecorder)
    (observation : DiagnosticsObservation) (now : Int) :
    ∃ docker github,
      (r.record rfc isSpace observation now = ({ r with docker, github }, none) ∧ journalWorthy observation = false) ∨
      ∃ journaled event, Journals observation journaled ∧
        event = ({ r with docker, github }.buildEventLocked rfc isSpace journaled now).2 ∧
        r.record rfc isSpace observation now =
          ({ r with docker, github, highestSequence := r.highestSequence + 1 }.appendLocked event,
            some (event, ({ r with docker, github, highestSequence := r.highestSequence + 1 }.appendLocked
              event).documentLocked)) := by
  obtain ⟨docker, github, hhealth⟩ := updateHealth_eq rfc r observation now
  refine ⟨docker, github, ?_⟩
  unfold record
  generalize r.updateHealthLocked rfc observation now = u at hhealth
  obtain ⟨r₁, recovered⟩ := u
  obtain rfl : r₁ = { r with docker, github } := hhealth
  dsimp only
  split
  · split
    · exact Or.inr ⟨_, _, .recovery, rfl, rfl⟩
    · exact Or.inr ⟨_, _, .asIs, rfl, rfl⟩
  next hquiet =>
    rw [Bool.or_eq_true, not_or, Bool.not_eq_true] at hquiet
    exact Or.inl ⟨rfl, hquiet.1⟩

theorem Windowed.record {r : DiagnosticsRecorder} (h : Windowed r) (rfc : Rfc3339) (isSpace : Char → Bool)
    (observation : DiagnosticsObservation) (now : Int) : Windowed (r.record rfc isSpace observation now).1 := by
  obtain ⟨docker, github, ⟨heq, -⟩ | ⟨journaled, event, -, hevent, heq⟩⟩ := record_eq rfc isSpace r observation now
  · rw [heq]
    exact ⟨h.ordered, h.bounded, h.last⟩
  · rw [heq]
    exact Windowed.append h.ordered (lt_add_one r.highestSequence) (by rw [hevent]; rfl)

/-! ### Restoring -/

theorem Ordered.mono {bound : Int} (h : Ordered events highest) (hle : highest ≤ bound) : Ordered events bound :=
  ⟨h.increasing, fun event hevent => (h.counted event hevent).trans hle, h.coalesced⟩

theorem Ordered.foldl {rest : List ManagerEvent} {bound : Int} (h : Ordered events highest)
    (hincreasing : rest.Pairwise fun earlier later => earlier.sequence < later.sequence)
    (habove : ∀ event ∈ rest, highest < event.sequence) (hbound : ∀ event ∈ rest, event.sequence ≤ bound)
    (hle : highest ≤ bound) : Ordered (rest.foldl coalesceJournalEvent events) bound := by
  induction rest generalizing events highest with
  | nil => exact h.mono hle
  | cons event rest ih =>
    obtain ⟨hfirst, hrest⟩ := List.pairwise_cons.mp hincreasing
    refine ih (h.coalesce (habove event List.mem_cons_self)).1 hrest hfirst ?_ (hbound event List.mem_cons_self)
    exact fun e he => hbound e (List.mem_cons_of_mem event he)

theorem ordered_foldl {rest : List ManagerEvent} {bound : Int}
    (hincreasing : rest.Pairwise fun earlier later => earlier.sequence < later.sequence)
    (hbound : ∀ event ∈ rest, event.sequence ≤ bound) : Ordered (rest.foldl coalesceJournalEvent []) bound := by
  cases rest with
  | nil => exact Ordered.nil bound
  | cons event rest =>
    have hfirst := (List.pairwise_cons.mp hincreasing).1
    refine (Ordered.nil (event.sequence - 1)).foldl hincreasing (fun e he => ?_) hbound ?_
    · rcases List.mem_cons.mp he with rfl | he
      · exact sub_one_lt _
      · exact (sub_one_lt _).trans (hfirst e he)
    · exact (sub_one_lt _).le.trans (hbound event List.mem_cons_self)

theorem le_foldl_max_of_mem {start : Int} (hevent : event ∈ events) :
    event.sequence ≤ events.foldl (fun highest event => max highest event.sequence) start := by
  induction events generalizing start with
  | nil => exact absurd hevent List.not_mem_nil
  | cons first rest ih =>
    rw [List.foldl_cons]
    rcases List.mem_cons.mp hevent with rfl | hevent
    · exact (le_max_right _ _).trans (le_foldl_max rest _)
    · exact ih hevent

theorem insertionSort_increasing (h : events.Pairwise fun earlier later => earlier.sequence < later.sequence) :
    events.insertionSort (fun a b => a.sequence ≤ b.sequence) = events :=
  (h.imp fun hlt => le_of_lt hlt).insertionSort_eq

theorem restoreDocument_ordered (rfc : Rfc3339) (r : DiagnosticsRecorder) {document : JournalDocument}
    (h : document.events.Pairwise fun earlier later => earlier.sequence < later.sequence) :
    Ordered (r.restoreDocument rfc document).events (r.restoreDocument rfc document).highestSequence ∧
      (r.restoreDocument rfc document).events.length ≤ journalCapacity := by
  unfold restoreDocument
  dsimp only
  generalize hevents : (if document.schemaVersion = legacyDiagnosticsSchemaVersion then
    document.events.map normalizeManagerEvent else document.events) = migrated
  have hincreasing : migrated.Pairwise fun earlier later => earlier.sequence < later.sequence := by
    rw [← hevents]
    split
    · exact List.pairwise_map.mpr h
    · exact h
  have hvalid := hincreasing.sublist (List.filter_sublist (p := validJournalEvent rfc))
  rw [insertionSort_increasing hvalid]
  refine ⟨(ordered_foldl hvalid fun event hevent => ?_).evict _ _, evictBeyond_length _ _⟩
  exact le_foldl_max_of_mem (List.mem_of_mem_filter hevent)

theorem recordRestore_windowed {r : DiagnosticsRecorder} (rfc : Rfc3339) (isSpace : Char → Bool) (now : Int)
    (h : Ordered r.events r.highestSequence) (hbounded : r.events.length ≤ journalCapacity) :
    Windowed (r.recordRestore rfc isSpace now).1 := by
  unfold recordRestore
  split
  · obtain ⟨docker, github, ⟨-, hworthy⟩ | ⟨journaled, event, -, hevent, heq⟩⟩ :=
      record_eq rfc isSpace r restoreObservation now
    · exact absurd hworthy (by decide)
    · rw [heq]
      exact Windowed.append h (lt_add_one r.highestSequence) (by rw [hevent]; rfl)
  next hempty =>
    obtain hnil := List.eq_nil_of_length_eq_zero (Nat.eq_zero_of_not_pos hempty)
    refine ⟨h, hbounded, fun event hevent => ?_⟩
    rw [hnil] at hevent
    exact absurd hevent (Option.not_mem_none _)

/-! ### Counts -/

/-- The counts of a recorder and the numbers of its events. -/
structure Tallied (r : DiagnosticsRecorder) : Prop where
  numbered : ∀ event ∈ r.events, 0 ≤ event.sequence
  highest : 0 ≤ r.highestSequence
  evicted : 0 ≤ r.evictedEvents
  rejected : 0 ≤ r.rejectedEvents
  unclassified : 0 ≤ r.unclassifiedEvents

theorem coalesceJournalEvent_sequences {P : Int → Prop} (h : ∀ event ∈ events, P event.sequence)
    (hevent : P event.sequence) :
    ∀ x ∈ coalesceJournalEvent events event, P x.sequence := by
  obtain ⟨kept, last, heq, hkept, hlast⟩ := coalesceJournalEvent_last events event
  rw [heq]
  intro x hx
  rcases List.mem_append.mp hx with hx | hx
  · exact h x (hkept.subset hx)
  · rw [List.mem_singleton.mp hx, hlast]
    exact hevent

theorem evictBeyond_sequences {P : Int → Prop} (fuel : Nat) (evicted : Int) (h : ∀ event ∈ events, P event.sequence) :
    ∀ event ∈ (evictBeyond fuel events evicted).1, P event.sequence :=
  evictBeyond_induction (P := fun events => ∀ event ∈ events, P event.sequence) fuel evicted h
    fun events _ h event hevent => h event ((dropOldestJournalEvent_sublist events).subset hevent)

theorem Tallied.record {r : DiagnosticsRecorder} (h : Tallied r) (rfc : Rfc3339) (isSpace : Char → Bool)
    (observation : DiagnosticsObservation) (now : Int) : Tallied (r.record rfc isSpace observation now).1 := by
  obtain ⟨docker, github, ⟨heq, -⟩ | ⟨journaled, event, -, hevent, heq⟩⟩ := record_eq rfc isSpace r observation now
  · rw [heq]
    exact { h with }
  · rw [heq]
    have hnext : 0 ≤ r.highestSequence + 1 := h.highest.trans (lt_add_one _).le
    have hsequence : event.sequence = r.highestSequence + 1 := by
      rw [hevent]
      rfl
    exact ⟨evictBeyond_sequences _ _ (coalesceJournalEvent_sequences h.numbered (hsequence ▸ hnext)), hnext,
      h.evicted.trans (evictBeyond_count _ _ _), h.rejected, h.unclassified⟩

theorem record_built {rfc : Rfc3339} {isSpace : Char → Bool} {r : DiagnosticsRecorder}
    {observation : DiagnosticsObservation} {now : Int} {built : ManagerEvent × JournalDocument}
    (h : built ∈ (r.record rfc isSpace observation now).2) :
    built.2 = (r.record rfc isSpace observation now).1.documentLocked := by
  obtain ⟨docker, github, ⟨heq, -⟩ | ⟨journaled, event, -, -, heq⟩⟩ := record_eq rfc isSpace r observation now
  · rw [heq] at h
    exact absurd h (Option.not_mem_none _)
  · rw [heq] at h ⊢
    rw [← Option.mem_some.mp h]

theorem recordRestore_built {rfc : Rfc3339} {isSpace : Char → Bool} {r : DiagnosticsRecorder} {now : Int}
    {document : JournalDocument} (h : document ∈ (r.recordRestore rfc isSpace now).2.2) :
    document = (r.recordRestore rfc isSpace now).1.documentLocked := by
  unfold recordRestore at h ⊢
  split
  next hevents =>
    rw [if_pos hevents] at h
    have hbuilt := @record_built rfc isSpace r restoreObservation now
    generalize r.record rfc isSpace restoreObservation now = recorded at h hbuilt
    obtain ⟨r', _ | ⟨event, built⟩⟩ := recorded
    · exact absurd h (Option.not_mem_none _)
    · rw [← Option.mem_some.mp h]
      exact hbuilt rfl
  next hevents =>
    rw [if_neg hevents] at h
    exact (Option.mem_some.mp h).symm

end Recorders

/-! ## Runs -/

/-- What holds of the recorder of a run, and of every one that has built a document in it. -/
structure RunOf (P : DiagnosticsRecorder → Prop) (s : JournalRun) : Prop where
  recorder : ∀ r ∈ s.recorder, P r
  documents : ∀ document ∈ s.documents, ∃ r, P r ∧ document = r.documentLocked

section Runs
variable {s : JournalRun} {rfc : Rfc3339} {isSpace : Char → Bool} {P Q : DiagnosticsRecorder → Prop}

open DiagnosticsRecorder

theorem RunOf.start (P : DiagnosticsRecorder → Prop) (clock : Int) : RunOf P { clock, recordedAt := clock } :=
  ⟨fun _ h => absurd h (Option.not_mem_none _), fun _ h => absurd h List.not_mem_nil⟩

theorem JournalRun.read_cases (s : JournalRun) (choice : Option Nat) :
    s.read choice = .absent ∨ ∃ document ∈ s.documents, s.read choice = .document document := by
  unfold JournalRun.read
  split
  · exact Or.inl rfl
  · split
    · exact Or.inl rfl
    next document hdocument => exact Or.inr ⟨document, List.mem_of_getElem? hdocument, rfl⟩

theorem RunOf.restore_cases (h : RunOf P s) (rfc : Rfc3339) (isSpace : Char → Bool) (r : DiagnosticsRecorder)
    (choice : Option Nat) (now : Int) :
    r.restore rfc isSpace (some (s.read choice)) now = (r, none, none) ∨
      ∃ built, P built ∧ r.restore rfc isSpace (some (s.read choice)) now =
        (r.restoreDocument rfc built.documentLocked).recordRestore rfc isSpace now := by
  rcases s.read_cases choice with hread | ⟨document, hdocument, hread⟩
  · rw [hread]
    refine Or.inl ?_
    unfold DiagnosticsRecorder.restore
    split
    · rfl
    · rfl
  · obtain ⟨built, hbuilt, rfl⟩ := h.documents document hdocument
    rw [hread]
    unfold DiagnosticsRecorder.restore
    split
    · exact Or.inl rfl
    · exact Or.inr ⟨built, hbuilt, rfl⟩

theorem RunOf.built (h : RunOf P s) (hPQ : ∀ r, P r → Q r) {r : DiagnosticsRecorder} (hr : Q r)
    {built : Option JournalDocument} (hbuilt : ∀ document ∈ built, document = r.documentLocked)
    {waiting : List WaitingCall} {clock recordedAt : Int} :
    RunOf Q { recorder := some r, waiting, clock, recordedAt, documents := built.toList ++ s.documents } := by
  refine ⟨fun r' hr' => Option.mem_some.mp hr' ▸ hr, fun document hdocument => ?_⟩
  rcases List.mem_append.mp hdocument with hdocument | hdocument
  · exact ⟨r, hr, hbuilt document (Option.mem_toList.mp hdocument)⟩
  · obtain ⟨r', hr', heq⟩ := h.documents document hdocument
    exact ⟨r', hPQ r' hr', heq⟩

/-- What a step makes of the recorders: a new one, one that records, or one that restores an earlier one. -/
theorem RunOf.step (h : RunOf P s) (hPQ : ∀ r, P r → Q r) (event : JournalRunEvent)
    (hstart : ∀ stateDirectory instanceID, event = .start stateDirectory instanceID →
      Q (newDiagnosticsRecorder stateDirectory instanceID))
    (hrestore : ∀ choice now r built, event = .restore choice now → P r → P built →
      Q ((r.restoreDocument rfc built.documentLocked).recordRestore rfc isSpace now).1)
    (hlock : ∀ call c r, event = .lock call → s.waiting[call]? = some c → P r →
      Q (r.record rfc isSpace c.observation c.now).1) : RunOf Q (JournalRun.step rfc isSpace s event).1 := by
  have hkeep : ∀ document ∈ s.documents, ∃ r, Q r ∧ document = r.documentLocked := by
    intro document hdocument
    obtain ⟨r, hr, heq⟩ := h.documents document hdocument
    exact ⟨r, hPQ r hr, heq⟩
  have hidle : RunOf Q s := ⟨fun r hr => hPQ r (h.recorder r hr), hkeep⟩
  cases event with
  | start stateDirectory instanceID =>
    exact ⟨fun r hr => Option.mem_some.mp hr ▸ hstart stateDirectory instanceID rfl, hkeep⟩
  | restore choice now =>
    unfold JournalRun.step
    cases hr : s.recorder with
    | none => exact hidle
    | some r =>
      dsimp only
      rcases h.restore_cases rfc isSpace r choice now with heq | ⟨built, hbuilt, heq⟩
      · rw [heq]
        exact h.built hPQ (hPQ r (h.recorder r hr)) fun document hdocument => absurd hdocument (Option.not_mem_none _)
      · rw [heq]
        exact h.built hPQ (hrestore choice now r built rfl (h.recorder r hr) hbuilt) fun document => recordRestore_built
  | call observation now => exact ⟨hidle.recorder, hkeep⟩
  | lock call =>
    unfold JournalRun.step
    dsimp only
    split
    next r c hr hc =>
      refine h.built hPQ (hlock call c r rfl hc (h.recorder r hr)) fun document hdocument => ?_
      obtain ⟨built, hbuilt, rfl⟩ := Option.map_eq_some_iff.mp hdocument
      exact record_built hbuilt
    next => exact hidle

theorem newDiagnosticsRecorder_windowed (stateDirectory instanceID : String) :
    Windowed (newDiagnosticsRecorder stateDirectory instanceID) :=
  ⟨Ordered.nil _, Nat.zero_le _, fun _ h => absurd h (Option.not_mem_none _)⟩

theorem newDiagnosticsRecorder_tallied (stateDirectory instanceID : String) :
    Tallied (newDiagnosticsRecorder stateDirectory instanceID) :=
  ⟨fun _ h => absurd h List.not_mem_nil, le_rfl, le_rfl, le_rfl, le_rfl⟩

theorem Windowed.restore {built : DiagnosticsRecorder} (hbuilt : Windowed built) (r : DiagnosticsRecorder)
    (rfc : Rfc3339) (isSpace : Char → Bool) (now : Int) :
    Windowed ((r.restoreDocument rfc built.documentLocked).recordRestore rfc isSpace now).1 := by
  have hincreasing : built.documentLocked.events.Pairwise fun earlier later => earlier.sequence < later.sequence :=
    hbuilt.ordered.increasing
  obtain ⟨hordered, hbounded⟩ := restoreDocument_ordered rfc r hincreasing
  exact recordRestore_windowed rfc isSpace now hordered hbounded

theorem windowed_step (h : RunOf Windowed s) (event : JournalRunEvent) :
    RunOf Windowed (JournalRun.step rfc isSpace s event).1 :=
  h.step (fun _ => id) event (fun stateDirectory instanceID _ =>
    newDiagnosticsRecorder_windowed stateDirectory instanceID)
    (fun _ now r _ _ _ hbuilt => hbuilt.restore r rfc isSpace now)
    fun _ c _ _ _ hr => hr.record rfc isSpace c.observation c.now

end Runs

/-- Of every recorder that a run reaches: its events are within the capacity, in the order of their numbers with
    the highest last, and coalesced. Whatever event is appended, the latest unresolved recovery failure stays,
    and it stays in the published window as long as that has any event. -/
theorem journal_window (rfc : Rfc3339) (isSpace : Char → Bool) (clock : Int) (run : List JournalRunEvent)
    {r : DiagnosticsRecorder}
    (hr : (exec (JournalRun.step rfc isSpace) { clock, recordedAt := clock } run).recorder = some r) :
    r.events.length ≤ journalCapacity ∧
      r.events.Pairwise (fun earlier later => earlier.sequence < later.sequence) ∧
      (∀ event ∈ r.events.getLast?, event.sequence = r.highestSequence) ∧ Coalesced r.events ∧
      (∀ event unresolved, LatestUnresolved (coalesceJournalEvent r.events event) unresolved →
        unresolved ∈ (r.appendLocked event).events) ∧
      ∀ unresolved, LatestUnresolved r.events unresolved → r.journal.events ≠ [] → unresolved ∈ r.journal.events := by
  have hrun : RunOf Windowed (exec (JournalRun.step rfc isSpace) { clock, recordedAt := clock } run) :=
    exec_induction (RunOf.start Windowed clock) (fun _ event h => windowed_step h event) run
  have hwindowed := hrun.recorder r hr
  refine ⟨hwindowed.bounded, hwindowed.ordered.increasing, hwindowed.last, hwindowed.ordered.coalesced, ?_, ?_⟩
  · intro event unresolved hlatest
    exact (hlatest.evict _ _).mem
  · intro unresolved hlatest hleft
    rw [journal_events] at hleft ⊢
    exact (hlatest.project _ _ hleft).mem

def failedRecovery : List JournalRunEvent :=
  let failed : DiagnosticsObservation :=
    { subsystem := .recovery, operation := .registrationCleanup, outcome := .failed, reason := .unknown }
  [.start "/state" "first", .call failed 0, .lock 0, .call failed second, .lock 0, .call failedLaunch second, .lock 0]

def failedRecoveryRecorder : DiagnosticsRecorder :=
  (exec (JournalRun.step utcTime Char.isWhitespace) { clock := 0, recordedAt := 0 } failedRecovery).recorder.getD
    (newDiagnosticsRecorder "" "")

/-- The failures are one event, and it is published. -/
theorem journal_window_failedRecovery :
    failedRecoveryRecorder.events.map (fun event => (event.sequence, event.occurrenceCount)) = [(2, 2), (3, 1)] ∧
      Coalesced failedRecoveryRecorder.events ∧ ∃ event ∈ failedRecoveryRecorder.journal.events, Unresolved event := by
  obtain ⟨-, -, -, hcoalesced, -, hpublished⟩ :=
    journal_window utcTime Char.isWhitespace 0 failedRecovery (r := failedRecoveryRecorder) (by decide +kernel)
  have hindex : unresolvedRecoveryEventIndex failedRecoveryRecorder.events = some 0 := by decide +kernel
  obtain ⟨before, event, after, heq, -, hevent, hafter⟩ := unresolvedRecoveryEventIndex_iff.mp hindex
  refine ⟨by decide +kernel, hcoalesced, event, hpublished event ⟨before, after, heq, hevent, hafter⟩ ?_, hevent⟩
  decide +kernel

end PitCrew.Autoscaler.Diagnostics
