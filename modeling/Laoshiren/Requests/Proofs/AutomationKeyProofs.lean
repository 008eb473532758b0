import Laoshiren.Automations.Proofs.MaterializeProofs
import Laoshiren.Requests.Keys

/-!
# Proofs: the keys of changes of Automations

Only a change of an Automation records an operation, and no step takes one away.
-/

namespace Automations

open Runtime Raise
open PersonalState (Calendar TaskStatus)

variable {cal : Calendar} {view : ℕ → State} {s s' : State} {w : World} {now : Timestamp}

/-! ## The operations that are recorded -/

theorem operations_updateAutomation {a : Automation} {version : ℕ} {message : String}
    (h : s.updateAutomation a version message = .ok s') : s'.operations = s.operations := by
  simp only [State.updateAutomation, bind_eq_ok, ensure_eq_ok, pure_eq_ok] at h
  obtain ⟨_, -, rfl⟩ := h
  rfl

theorem operations_completeOneShot {a : Automation} (h : completeOneShot a now s = .ok s') :
    s'.operations = s.operations := by
  unfold completeOneShot at h
  dsimp only at h
  split at h
  · obtain rfl := pure_eq_ok.mp h
    rfl
  · exact operations_updateAutomation h

theorem operations_addDeliveries {i : NotificationIntent} {fresh : UUID → ℕ → Stamp}
    {endpoints : List PushEndpoint} (h : addDeliveries i fresh endpoints s = .ok s') :
    s'.operations = s.operations := by
  induction endpoints generalizing s with
  | nil =>
    obtain rfl := pure_eq_ok.mp h
    rfl
  | cons e endpoints ih =>
    simp only [addDeliveries, bind_eq_ok, orRaise_eq_ok, Prod.exists] at h
    obtain ⟨deliveries, added, -, h⟩ := h
    split at h
    · simp only [bind_eq_ok] at h
      obtain ⟨store, -, h⟩ := h
      have hadded := ih h
      exact hadded
    · exact ih h

theorem operations_fireOccurrence {a : Automation} {o : AutomationOccurrence} {stamp : Stamp}
    {fresh : UUID → ℕ → Stamp} (h : fireOccurrence cal a o now stamp fresh view s = .ok s') :
    s'.operations = s.operations := by
  simp only [fireOccurrence, bind_eq_ok] at h
  obtain ⟨s₁, hnotify, hcomplete⟩ := h
  have hcompleted := operations_completeOneShot hcomplete
  refine hcompleted.trans ?_
  show s₁.operations = s.operations
  unfold createReminderNotification at hnotify
  split at hnotify
  · obtain rfl := pure_eq_ok.mp hnotify
    rfl
  · simp only [bind_eq_ok, orRaise_eq_ok, Prod.exists] at hnotify
    obtain ⟨intents, added, -, hnotify⟩ := hnotify
    split at hnotify
    · have hadded := operations_addDeliveries hnotify
      exact hadded
    · obtain rfl := pure_eq_ok.mp hnotify
      rfl

theorem operations_settleClaim {job : DurableJob} {owner : String} {status : DurableJobStatus}
    {errorCode : Option String} (h : settleClaim job owner status now errorCode s = some s') :
    s'.operations = s.operations := by
  unfold settleClaim at h
  dsimp only at h
  split at h
  · obtain rfl := Option.some.inj h
    rfl
  · cases h

theorem operations_failOccurrence {job : DurableJob} (h : failOccurrence job now view s = .ok s') :
    s'.operations = s.operations := by
  simp only [failOccurrence, bind_eq_ok] at h
  obtain ⟨occurrenceId, -, h⟩ := h
  split at h
  · obtain rfl := pure_eq_ok.mp h
    rfl
  · split at h
    · split at h
      · obtain rfl := pure_eq_ok.mp h
        rfl
      · split at h
        · have hcompleted := operations_completeOneShot h
          exact hcompleted
        · obtain rfl := pure_eq_ok.mp h
          rfl
    · obtain rfl := pure_eq_ok.mp h
      rfl

theorem operations_recordFailure {job : DurableJob} {owner : String} {availableAt : Timestamp}
    (h : recordFailure job owner availableAt now view s = .ok (some s')) :
    s'.operations = s.operations := by
  unfold recordFailure at h
  split at h
  · split at h
    · have hreleased := pure_eq_ok.mp h
      split at hreleased
      · obtain rfl := Option.some.inj hreleased
        rfl
      · cases hreleased
    · simp only [bind_eq_ok, pure_eq_ok] at h
      obtain ⟨s₁, hfail, hsettle⟩ := h
      exact (operations_settleClaim hsettle).trans (operations_failOccurrence hfail)
  · cases pure_eq_ok.mp h

theorem operations_completeExhausted {n : ℕ} {settled : List (UUID × UUID × ℕ)}
    (h : completeExhausted now view n settled s = .ok s') : s'.operations = s.operations := by
  induction settled generalizing s n with
  | nil =>
    obtain rfl := pure_eq_ok.mp h
    rfl
  | cons entry settled ih =>
    obtain ⟨userId, automationId, definitionRevision⟩ := entry
    unfold completeExhausted at h
    split at h
    · exact ih h
    · split at h
      · simp only [bind_eq_ok] at h
        obtain ⟨s₁, hfirst, hrest⟩ := h
        exact (ih hrest).trans (operations_completeOneShot hfirst)
      · exact ih h

theorem operations_materialize {occurredAt : Timestamp}
    {taskStatus : UUID → UUID → Option TaskStatus} {fresh : ℕ → Stamp} {a : Automation}
    {occurrence : Option AutomationOccurrence}
    (h : materializeDueAutomation cal occurredAt taskStatus fresh a s = .ok (s', occurrence)) :
    s'.operations = s.operations := by
  unfold materializeDueAutomation at h
  split at h
  · simp only [bind_eq_ok, pure_eq_ok, Prod.mk.injEq] at h
    obtain ⟨s₁, hupdate, rfl, -⟩ := h
    exact operations_updateAutomation hupdate
  · simp only [bind_eq_ok, orRaise_eq_ok] at h
    obtain ⟨scheduledFor, -, h⟩ := h
    split at h
    · simp only [bind_eq_ok, orRaise_eq_ok, Prod.exists] at h
      obtain ⟨occurrences, created, -, h⟩ := h
      split at h
      · simp only [bind_eq_ok, pure_eq_ok, Prod.mk.injEq] at h
        obtain ⟨s₁, hupdate, rfl, -⟩ := h
        have hupdated := operations_updateAutomation hupdate
        exact hupdated
      · obtain ⟨rfl, -⟩ := Prod.mk.inj (pure_eq_ok.mp h)
        rfl
    · simp only [bind_eq_ok, orRaise_eq_ok, Prod.exists] at h
      obtain ⟨occurrences, created, -, h⟩ := h
      split at h
      · simp only [bind_eq_ok, pure_eq_ok, Prod.mk.injEq] at h
        obtain ⟨store, -, s₁, hupdate, rfl, -⟩ := h
        have hupdated := operations_updateAutomation hupdate
        exact hupdated
      · obtain ⟨rfl, -⟩ := Prod.mk.inj (pure_eq_ok.mp h)
        rfl

theorem operations_materializeAll {occurredAt : Timestamp}
    {taskStatus : UUID → UUID → Option TaskStatus} {fresh : UUID → ℕ → Stamp}
    {due : List Automation} {count : ℕ}
    (h : materializeAll cal occurredAt taskStatus fresh due s = .ok (s', count)) :
    s'.operations = s.operations := by
  induction due generalizing s s' count with
  | nil =>
    obtain ⟨rfl, -⟩ := Prod.mk.inj (pure_eq_ok.mp h)
    rfl
  | cons a due ih =>
    simp only [materializeAll, bind_eq_ok, pure_eq_ok, Prod.exists, Prod.mk.injEq] at h
    obtain ⟨s₁, occurrence, hfirst, s₂, created, hrest, rfl, -⟩ := h
    exact (ih hrest).trans (operations_materialize hfirst)

/-- A change of an Automation is answered from an operation, or it records one under its key. -/
theorem applyChangeAutomationStatus_operations {c : ChangeStatus} {stamp : Stamp}
    {outcome : WriteOutcome} (h : applyChangeAutomationStatus c stamp view s = .ok (s', outcome)) :
    s' = s ∧
        AutomationRepository.getOperation c.userId c.idempotencyKey (view 0).operations ≠ none ∨
      ∃ r : AutomationOperation, r.userId = c.userId ∧ r.idempotencyKey = c.idempotencyKey ∧
        s.operations.insert? r = some s'.operations := by
  unfold applyChangeAutomationStatus at h
  split at h
  next recordedId version hseen =>
    simp only [bind_eq_ok, pure_eq_ok, Prod.mk.injEq] at h
    obtain ⟨_, -, rfl, -⟩ := h
    exact .inl ⟨rfl, by simp [hseen]⟩
  next =>
    simp only [bind_eq_ok, orRaise_eq_ok, pure_eq_ok, Prod.mk.injEq] at h
    obtain ⟨a, -, _, -, a', -, s₁, hupdate, operations, hinserted, rfl, -⟩ := h
    rw [operations_updateAutomation hupdate] at hinserted
    exact .inr ⟨_, rfl, rfl, hinserted⟩

/-- What a step makes of the operations: it leaves them, or it adds one. -/
def OperationsKept (s s' : State) : Prop :=
  s'.operations = s.operations ∨ ∃ r, s.operations.insert? r = some s'.operations

theorem answered_operations {α : Type} {reply : α → Reply} {x : Raises (State × α)}
    (hok : ∀ s' a, x = .ok (s', a) → OperationsKept w.toState s') :
    OperationsKept w.toState (w.answered reply x).1.toState := by
  cases x with
  | error e => exact .inl rfl
  | ok r => exact hok _ _ rfl

theorem commit_operations (cal : Calendar) (op : Op) (view : ℕ → World) (w : World) :
    OperationsKept w.toState (w.commit cal op view).1.toState := by
  cases op with
  | create c lookups stamp =>
    refine answered_operations fun s' a h => .inl ?_
    simp only [applyCreateAutomation, bind_eq_ok, ensure_eq_ok] at h
    obtain ⟨_, -, h⟩ := h
    split at h
    · obtain ⟨rfl, -⟩ := Prod.mk.inj (pure_eq_ok.mp h)
      rfl
    · simp only [bind_eq_ok, orRaise_eq_ok, pure_eq_ok, Prod.mk.injEq] at h
      obtain ⟨_, -, _, -, _, -, rfl, -⟩ := h
      rfl
  | changeStatus c stamp =>
    refine answered_operations fun s' a h => ?_
    rcases applyChangeAutomationStatus_operations h with ⟨rfl, -⟩ | ⟨r, -, -, hinserted⟩
    · exact .inl rfl
    · exact .inr ⟨r, hinserted⟩
  | deleteAccount userId now => exact .inl rfl
  | rebindThing fromThingId toThingId => exact .inl rfl
  | registerPushToken endpoint =>
    refine .inl ?_
    simp only [World.commit]
    split <;> rfl
  | deletePushToken userId deviceId now => exact .inl rfl
  | processDue occurredAt limit locked taskStatus fresh =>
    exact answered_operations fun s' a h => .inl (operations_materializeAll h)
  | claim worker lease now reached locked =>
    refine .inl ?_
    simp only [World.commit]
    split
    · split <;> rfl
    · rfl
  | execute worker clock budgetSnapshot fresh =>
    refine .inl ?_
    simp only [World.commit]
    split
    next job =>
      split
      next verdict _ =>
        cases verdict with
        | lost => rfl
        | settle status errorCode occurrence =>
          simp only [World.proceed]
          split
          next s₁ hsettle =>
            have hsettled := operations_settleClaim hsettle
            exact hsettled
          next => rfl
        | fire o a =>
          simp only [World.proceed]
          split <;> rfl
      next => rfl
    next => rfl
  | settle worker now stamp fresh =>
    refine .inl ?_
    simp only [World.commit]
    split
    next job o a =>
      split
      next s₁ hfire =>
        split
        next s₂ hsettle =>
          have hsettled := (operations_settleClaim hsettle).trans (operations_fireOccurrence hfire)
          exact hsettled
        next => rfl
      next => rfl
    next => rfl
  | fault worker =>
    refine .inl ?_
    simp only [World.commit]
    split <;> rfl
  | recordFailure worker availableAt now =>
    refine .inl ?_
    simp only [World.commit]
    split
    next job =>
      split
      next s₁ hfail =>
        have hfailed := operations_recordFailure hfail
        exact hfailed
      next => rfl
      next => rfl
    next => rfl
  | abandon worker => exact .inl rfl
  | reconcileExhausted now =>
    refine answered_operations fun s' a h => .inl ?_
    obtain ⟨_, hreconcile, heq⟩ := map_eq_ok h
    obtain ⟨rfl, -⟩ := Prod.mk.inj heq
    have hcompleted := operations_completeExhausted hreconcile
    exact hcompleted
  | updateDelivery d => exact .inl rfl
  | addJob job hkind =>
    refine .inl ?_
    simp only [World.commit]
    split <;> rfl
  | settleJob jobId owner claimEpoch status now errorCode howner => exact .inl rfl
  | runtime op hforeign => exact .inl rfl

/-! ## The keys -/

/-- An operation is recorded under a key. -/
def KeyTaken (s : State) (k : UUID × String) : Prop :=
  ∃ r ∈ s.operations, r.userId = k.1 ∧ r.idempotencyKey = k.2

theorem getOperation_ne_none {userId : UUID} {key : String} :
    AutomationRepository.getOperation userId key s.operations ≠ none ↔
      KeyTaken s (userId, key) := by
  simp only [AutomationRepository.getOperation, ne_eq, Option.map_eq_none_iff, Table.get_eq_none,
    KeyTaken, decide_eq_false_iff_not, not_forall, not_not, exists_prop]

theorem answered_succeeds {x : Raises (State × WriteOutcome)} :
    (w.answered .outcome x).2.Succeeds ↔ ∃ s' a, x = .ok (s', a) := by
  cases x with
  | error e =>
    refine ⟨fun h => absurd h id, ?_⟩
    rintro ⟨s', a, h⟩
    cases h
  | ok r => exact ⟨fun _ => ⟨r.1, r.2, rfl⟩, fun _ => trivial⟩

/-- A change that finds its key is answered where the Automation of the operation can be read. -/
theorem changeStatus_replays {c : ChangeStatus} {stamp : Stamp}
    (hseen : KeyTaken (view 0) (c.userId, c.idempotencyKey)) :
    (∃ s' a, applyChangeAutomationStatus c stamp view s = .ok (s', a)) ↔
      ((AutomationRepository.getOperation c.userId c.idempotencyKey (view 0).operations).bind
        fun recorded =>
          AutomationRepository.get c.userId recorded.1 (view 1).automations).isSome := by
  obtain ⟨previous, hprevious⟩ := Option.ne_none_iff_exists'.mp (getOperation_ne_none.mpr hseen)
  simp only [applyChangeAutomationStatus, hprevious, bind_eq_ok, orRaise_eq_ok, pure_eq_ok,
    Option.bind_some, Option.isSome_iff_exists, Prod.mk.injEq]
  constructor
  · rintro ⟨_, _, a, ha, -⟩
    exact ⟨a, ha⟩
  · rintro ⟨a, ha⟩
    exact ⟨s, c.outcome a true, a, ha, rfl, rfl⟩

/-- The keys under which the user changes Automations. -/
def requestKeys (cal : Calendar) : (system cal).Keyed (UUID × String) where
  key := Op.request
  lookup _ := 0
  OnRecord w k := KeyTaken w.toState k
  Succeeds := Reply.Succeeds
  Answers := Op.AnswersFromRecord
  found op view k hkey hanswers := by
    cases op with
    | changeStatus c stamp =>
      obtain rfl := Option.some.inj hkey
      obtain ⟨a, ha⟩ := Option.isSome_iff_exists.mp hanswers
      obtain ⟨recorded, hrecorded, -⟩ := Option.bind_eq_some_iff.mp ha
      exact getOperation_ne_none.mp (by rw [hrecorded]; exact Option.some_ne_none _)
    | _ => cases hkey
  keeps op view w k h := by
    obtain ⟨r, hr, hk⟩ := h
    rcases commit_operations cal op view w with hsame | ⟨r', hinserted⟩
    · exact ⟨r, (congrArg (r ∈ ·) hsame).mpr hr, hk⟩
    · exact ⟨r, (Table.mem_insert? hinserted).mpr (.inl hr), hk⟩
  records op view w k hkey hsucceeds := by
    cases op with
    | changeStatus c stamp =>
      obtain rfl := Option.some.inj hkey
      obtain ⟨s', a, h⟩ := answered_succeeds.mp hsucceeds
      rcases applyChangeAutomationStatus_operations h with ⟨-, hseen⟩ | ⟨r, huser, hkey', hinserted⟩
      · exact .inl (getOperation_ne_none.mp hseen)
      · refine .inr ⟨r, ?_, huser, hkey'⟩
        simp only [system, World.commit, h, World.answered]
        exact (Table.mem_insert? hinserted).mpr (.inr rfl)
    | _ => cases hkey
  replays op view w k hkey hseen := by
    cases op with
    | changeStatus c stamp =>
      obtain rfl := Option.some.inj hkey
      exact answered_succeeds.trans (changeStatus_replays hseen)
    | _ => cases hkey
  blocks op view w k hkey hunseen htaken := by
    cases op with
    | changeStatus c stamp =>
      obtain rfl := Option.some.inj hkey
      intro h
      obtain ⟨s', a, h⟩ := answered_succeeds.mp h
      rcases applyChangeAutomationStatus_operations h with ⟨-, hseen⟩ | ⟨r, huser, hkey', hinserted⟩
      · exact hunseen (getOperation_ne_none.mp hseen)
      · obtain ⟨r', hr', huser', hkey''⟩ := htaken
        refine Table.not_conflict_of_insert? hinserted hr' (.inr ⟨?_, ?_⟩)
        · exact huser'.trans huser.symm
        · exact hkey''.trans hkey'.symm
    | _ => cases hkey

end Automations
