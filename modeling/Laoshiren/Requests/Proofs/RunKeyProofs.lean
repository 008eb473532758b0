import Laoshiren.Requests.Keys
import Laoshiren.Runtime.Proofs.EffectsProofs

/-!
# Proofs: the keys of changes of Runs

Only a change of a Run records an operation, and no transaction takes one away.
-/

namespace Runtime

open Raise

variable {view : ℕ → Store} {s s' s₁ s₂ : Store} {fresh : ℕ → Stamp} {run run' : AgentRun} {op : Op}

/-! ## The operations that are recorded -/

theorem operations_addRun (h : s.addRun run = .ok s') : s'.operations = s.operations := by
  obtain ⟨_, -, rfl⟩ := Store.addRun_ok h
  rfl

theorem operations_addMessage {message : Message} (h : s.addMessage message = .ok s') :
    s'.operations = s.operations := by
  obtain ⟨_, _, -, rfl⟩ := Store.addMessage_ok h
  rfl

theorem operations_addInteraction {interaction : RunInteraction}
    (h : s.addInteraction interaction = .ok s') : s'.operations = s.operations := by
  obtain ⟨_, -, rfl⟩ := Store.addInteraction_ok h
  rfl

theorem operations_addJob {job : DurableJob} (h : s.addJob job = .ok s') :
    s'.operations = s.operations := by
  obtain ⟨_, -, rfl⟩ := Store.addJob_ok h
  rfl

theorem operations_updateRun {version : ℕ} (h : s.updateRun run version = .ok s') :
    s'.operations = s.operations := by
  obtain ⟨-, rfl⟩ := Store.updateRun_ok h
  rfl

theorem operations_appendEvent {runId : UUID} {eventType : RunEventType} {data : Dict}
    {stamp : Stamp} {event : RunEvent}
    (h : s.appendEvent runId eventType data stamp = .ok (s', event)) :
    s'.operations = s.operations := by
  obtain ⟨_, _, -, -, -, rfl⟩ := Store.appendEvent_ok h
  rfl

theorem operations_commitNewRun {message : Message} {data : Dict}
    (h : commitNewRun s run message data fresh = .ok s') : s'.operations = s.operations := by
  simp only [commitNewRun, bind_eq_ok, Prod.exists] at h
  obtain ⟨s₁, hrun, s₂, hadd, s₃, event, hevent, hjob⟩ := h
  rw [operations_addJob hjob, operations_appendEvent hevent, operations_addMessage hadd,
    operations_addRun hrun]

theorem operations_recoverRun {fresh : UUID → Stamp} (h : recoverRun fresh s run = .ok s') :
    s'.operations = s.operations := by
  unfold recoverRun at h
  split at h
  · simp only [bind_eq_ok, reraise_eq_ok] at h
    obtain ⟨recovered, -, h⟩ := h
    split at h
    · simp only [bind_eq_ok, pure_eq_ok, Prod.exists] at h
      obtain ⟨s₁, event, hevent, rfl⟩ := h
      have happended := operations_appendEvent hevent
      exact happended
    · obtain rfl := pure_eq_ok.mp h
      rfl
  · obtain rfl := pure_eq_ok.mp h
    rfl

theorem operations_workerTransition {c : WorkerCall}
    (h : workerTransition c fresh view s = .ok (s', run')) : s'.operations = s.operations := by
  simp only [workerTransition, bind_eq_ok, ensure_eq_ok] at h
  obtain ⟨run, -, _, -, h⟩ := h
  obtain ⟨userId, runId, action, claimOwner, claimToken⟩ := c
  cases action with
  | start phase label =>
    simp only [commitTransition, bind_eq_ok, pure_eq_ok, Prod.exists, Prod.mk.injEq] at h
    obtain ⟨_, -, s₁, hupdate, s₂, _, hevent, rfl, -⟩ := h
    rw [operations_appendEvent hevent, operations_updateRun hupdate]
  | wait payload interactionId =>
    simp only [commitTransition, bind_eq_ok, pure_eq_ok, Prod.exists, Prod.mk.injEq] at h
    obtain ⟨_, -, s₁, hopen, s₂, hupdate, s₃, _, hevent, s₄, _, hevent', rfl, -⟩ := h
    rw [operations_appendEvent hevent', operations_appendEvent hevent, operations_updateRun hupdate,
      operations_addInteraction hopen]
  | complete content =>
    simp only [commitTransition, bind_eq_ok, pure_eq_ok, Prod.exists, Prod.mk.injEq] at h
    obtain ⟨_, _, s₁, hmessage, _, -, s₂, hupdate, s₃, _, hevent, s₄, _, hevent', rfl, -⟩ := h
    rw [operations_appendEvent hevent', operations_appendEvent hevent, operations_updateRun hupdate,
      operations_addMessage hmessage]
  | fail errorCode =>
    simp only [commitTransition, bind_eq_ok, pure_eq_ok, Prod.exists, Prod.mk.injEq] at h
    obtain ⟨_, -, s₁, hupdate, s₂, _, hevent, rfl, -⟩ := h
    rw [operations_appendEvent hevent, operations_updateRun hupdate]

/-- A change of a Run is answered from an operation, or it records one under its key. -/
theorem changeRun_operations {c : ChangeCall} {replayed : Bool}
    (h : changeRun c fresh view s = .ok (s', run', replayed)) :
    s' = s ∧ RunRepository.getOperation c.userId c.idempotencyKey (view 0).operations ≠ none ∨
      ∃ r : RunOperation, r.userId = c.userId ∧ r.key = c.idempotencyKey ∧
        s.operations.insert? r = some s'.operations := by
  simp only [changeRun] at h
  split at h
  next previous hseen =>
    simp only [bind_eq_ok, pure_eq_ok, Prod.mk.injEq] at h
    obtain ⟨_, -, rfl, -⟩ := h
    exact .inl ⟨rfl, by simp [hseen]⟩
  next =>
    simp only [bind_eq_ok, pure_eq_ok, Prod.exists, Prod.mk.injEq] at h
    obtain ⟨run, -, _, -, s₁, _, _, _, hchange, s₂, hupdate, s₃, hrecord, s₄, _, hevent, rfl, -⟩ := h
    have hchanged : s₁.operations = s.operations := by
      obtain ⟨userId, runId, expectedVersion, key, change⟩ := c
      cases change with
      | resume interruptId response =>
        simp only [commitChange, bind_eq_ok, pure_eq_ok, Prod.mk.injEq] at hchange
        obtain ⟨_, _, _, _, _, _, _, _, rfl, -⟩ := hchange
        rfl
      | cancel =>
        simp only [commitChange, bind_eq_ok, pure_eq_ok, Prod.mk.injEq] at hchange
        obtain ⟨_, _, rfl, -⟩ := hchange
        rfl
    obtain ⟨operations, hoperations, hs₃⟩ := Store.recordOperation_ok hrecord
    rw [operations_updateRun hupdate, hchanged] at hoperations
    refine .inr ⟨_, rfl, rfl, hoperations.trans ?_⟩
    rw [operations_appendEvent hevent, hs₃]

/-- What a transaction makes of the operations: it leaves them, or it adds one. -/
def OperationsKept (s s' : Store) : Prop :=
  s'.operations = s.operations ∨ ∃ r, s.operations.insert? r = some s'.operations

theorem settled_operations {α : Type} {reply : α → Reply} {x : Raises (Store × α)}
    (hok : ∀ s' a, x = .ok (s', a) → OperationsKept s s') :
    OperationsKept s (settled s reply x).1 := by
  cases x with
  | error e => exact .inl rfl
  | ok r => exact hok _ _ rfl

theorem changeRun_kept {c : ChangeCall} {answer : AgentRun × Bool}
    (h : changeRun c fresh view s = .ok (s', answer)) : OperationsKept s s' := by
  rcases changeRun_operations h with ⟨rfl, -⟩ | ⟨r, -, -, hinserted⟩
  · exact .inl rfl
  · exact .inr ⟨r, hinserted⟩

theorem commit_operations (op : Op) (view : ℕ → Store) (s : Store) :
    OperationsKept s (commit op view s).1 := by
  by_cases hop : op.onLedger = true
  · obtain ⟨toolExecutions, hs, -⟩ := commit_ledger op view s hop
    rw [hs]
    exact .inl rfl
  cases op with
  | createThread =>
    refine settled_operations fun s' a h => .inl ?_
    simp only [createThread, bind_eq_ok, ensure_eq_ok] at h
    obtain ⟨_, _, h⟩ := h
    split at h
    · obtain ⟨rfl, -⟩ := Prod.mk.inj (pure_eq_ok.mp h)
      rfl
    · simp only [bind_eq_ok, pure_eq_ok, Prod.mk.injEq] at h
      obtain ⟨_, _, _, _, rfl, -⟩ := h
      rfl
  | archiveThread =>
    refine settled_operations fun s' a h => .inl ?_
    simp only [archiveThread, bind_eq_ok, pure_eq_ok, Prod.mk.injEq] at h
    obtain ⟨_, _, rfl, -⟩ := h
    rfl
  | createUserRun =>
    refine settled_operations fun s' a h => .inl ?_
    simp only [createUserRun, bind_eq_ok, ensure_eq_ok] at h
    obtain ⟨_, _, _, _, h⟩ := h
    split at h
    · obtain ⟨rfl, -⟩ := Prod.mk.inj (pure_eq_ok.mp h)
      rfl
    · simp only [bind_eq_ok, ensure_eq_ok, pure_eq_ok, Prod.mk.injEq] at h
      obtain ⟨_, _, _, _, s₁, hnew, rfl, -⟩ := h
      exact operations_commitNewRun hnew
  | createAutomationRun c budget fresh =>
    refine settled_operations fun s' a h => .inl ?_
    simp only [createAutomationRun, bind_eq_ok, ensure_eq_ok] at h
    obtain ⟨_, _, _, _, h⟩ := h
    split at h
    · obtain ⟨rfl, -⟩ := Prod.mk.inj (pure_eq_ok.mp h)
      rfl
    · simp only [bind_eq_ok, pure_eq_ok, Prod.exists, Prod.mk.injEq] at h
      obtain ⟨s₁, threadId, hthread, s₂, hnew, rfl, -⟩ := h
      rw [operations_commitNewRun hnew]
      unfold automationThread at hthread
      split at hthread
      · obtain ⟨rfl, -⟩ := Prod.mk.inj (pure_eq_ok.mp hthread)
        rfl
      · simp only [bind_eq_ok, pure_eq_ok, Prod.mk.injEq] at hthread
        obtain ⟨_, _, rfl, -⟩ := hthread
        rfl
  | claimRun =>
    refine settled_operations fun s' a h => .inl ?_
    simp only [claimRun, bind_eq_ok, ensure_eq_ok] at h
    obtain ⟨_, _, h⟩ := h
    split at h
    · obtain ⟨rfl, -⟩ := Prod.mk.inj (pure_eq_ok.mp h)
      rfl
    · simp only [bind_eq_ok, pure_eq_ok, Prod.exists, Prod.mk.injEq] at h
      obtain ⟨s₁, event, hevent, rfl, -⟩ := h
      have happended := operations_appendEvent hevent
      exact happended
  | renewRunLease =>
    refine .inl ?_
    simp only [commit, renewRunLease]
    split <;> rfl
  | recoverPendingRuns limit now fresh =>
    refine settled_operations fun s' a h => .inl ?_
    obtain ⟨_, hrecover, heq⟩ := map_eq_ok h
    obtain ⟨rfl, -⟩ := Prod.mk.inj heq
    have hfold : ∀ (runs : List AgentRun) {s₁ s₂ : Store},
        runs.foldlM (recoverRun fresh) s₁ = .ok s₂ → s₂.operations = s₁.operations := by
      intro runs
      induction runs with
      | nil =>
        intro s₁ s₂ h
        obtain rfl := pure_eq_ok.mp h
        rfl
      | cons run runs ih =>
        intro s₁ s₂ h
        simp only [List.foldlM_cons, bind_eq_ok] at h
        obtain ⟨s₃, hfirst, hrest⟩ := h
        exact (ih hrest).trans (operations_recoverRun hfirst)
    exact hfold _ hrecover
  | workerTransition =>
    exact settled_operations fun s' a h => .inl (operations_workerTransition h)
  | acceptTerminalOutput =>
    refine settled_operations fun s' a h => .inl ?_
    simp only [acceptTerminalOutput, bind_eq_ok, ensure_eq_ok] at h
    obtain ⟨run, -, _, _, run₁, -, h⟩ := h
    split at h
    · simp only [bind_eq_ok, pure_eq_ok, Prod.mk.injEq] at h
      obtain ⟨s₁, hupdate, rfl, -⟩ := h
      exact operations_updateRun hupdate
    · obtain ⟨rfl, -⟩ := Prod.mk.inj (pure_eq_ok.mp h)
      rfl
  | resumeRun => exact settled_operations fun s' a h => changeRun_kept h
  | cancelRun =>
    refine settled_operations fun s' a h => ?_
    simp only [cancelRun, bind_eq_ok] at h
    obtain ⟨_, _, _, _, h⟩ := h
    exact changeRun_kept h
  | emitEvent =>
    refine settled_operations fun s' a h => .inl ?_
    simp only [emitEvent, bind_eq_ok] at h
    obtain ⟨_, _, hevent⟩ := h
    exact operations_appendEvent hevent
  | claimAgentRunJobs =>
    refine settled_operations fun s' a h => .inl ?_
    simp only [claimAgentRunJobs, bind_eq_ok, pure_eq_ok, Prod.mk.injEq] at h
    obtain ⟨_, _, _, _, rfl, -⟩ := h
    rfl
  | claimReadyJobs => exact .inl rfl
  | settleAgentRunJob =>
    refine settled_operations fun s' a h => .inl ?_
    obtain ⟨_, hsettle, heq⟩ := map_eq_ok h
    obtain ⟨rfl, -⟩ := Prod.mk.inj heq
    simp only [settleAgentRunJob, bind_eq_ok, pure_eq_ok, Prod.exists] at hsettle
    obtain ⟨_, _, _, _, _, rfl⟩ := hsettle
    rfl
  | renewAgentRunJob =>
    refine .inl ?_
    simp only [commit, renewAgentRunJob]
    split <;> rfl
  | releaseForRetry => exact .inl rfl
  | _ => exact absurd rfl hop

/-! ## The keys -/

/-- An operation is recorded under a key. -/
def KeyTaken (s : Store) (k : UUID × String) : Prop :=
  ∃ r ∈ s.operations, r.userId = k.1 ∧ r.key = k.2

theorem getOperation_ne_none {userId : UUID} {key : String} :
    RunRepository.getOperation userId key s.operations ≠ none ↔ KeyTaken s (userId, key) := by
  simp only [RunRepository.getOperation, ne_eq, Option.map_eq_none_iff, Table.get_eq_none, KeyTaken,
    decide_eq_false_iff_not, not_forall, not_not, exists_prop]

theorem KeyTaken.kept {k : UUID × String} (h : KeyTaken s k) (hkept : OperationsKept s s') :
    KeyTaken s' k := by
  obtain ⟨r, hr, hk⟩ := h
  rcases hkept with hsame | ⟨r', hinserted⟩
  · exact ⟨r, by rw [hsame]; exact hr, hk⟩
  · exact ⟨r, (Table.mem_insert? hinserted).mpr (.inl hr), hk⟩

theorem recordedRun_taken {userId : UUID} {key : String}
    (h : (recordedRun userId key view).isSome) : KeyTaken (view 0) (userId, key) := by
  obtain ⟨run, hrun⟩ := Option.isSome_iff_exists.mp h
  obtain ⟨recorded, hrecorded, -⟩ := Option.bind_eq_some_iff.mp hrun
  exact getOperation_ne_none.mp (by rw [hrecorded]; exact Option.some_ne_none _)

theorem changed_succeeds {x : Raises (Store × AgentRun × Bool)} :
    (settled s (fun r => .changed r.1 r.2) x).2.Succeeds ↔ ∃ s' a, x = .ok (s', a) := by
  cases x with
  | error e =>
    refine ⟨fun h => absurd h id, ?_⟩
    rintro ⟨s', a, h⟩
    cases h
  | ok r => exact ⟨fun _ => ⟨r.1, r.2, rfl⟩, fun _ => trivial⟩

/-- A change that finds its key is answered where the Run of the operation can be read. -/
theorem changeRun_replays {c : ChangeCall}
    (hseen : KeyTaken (view 0) (c.userId, c.idempotencyKey)) :
    (∃ s' a, changeRun c fresh view s = .ok (s', a)) ↔
      (recordedRun c.userId c.idempotencyKey view).isSome := by
  obtain ⟨previous, hprevious⟩ := Option.ne_none_iff_exists'.mp (getOperation_ne_none.mpr hseen)
  simp only [changeRun, hprevious, bind_eq_ok, orRaise_eq_ok, pure_eq_ok, recordedRun,
    Option.bind_some, Option.isSome_iff_exists, Prod.exists, Prod.mk.injEq]
  constructor
  · rintro ⟨_, _, _, run, hrun, -⟩
    exact ⟨run, hrun⟩
  · rintro ⟨run, hrun⟩
    exact ⟨s, run, true, run, hrun, rfl, rfl, rfl⟩

/-- A change does not come through whose key is taken by now. -/
theorem changeRun_blocked {c : ChangeCall}
    (hunseen : ¬KeyTaken (view 0) (c.userId, c.idempotencyKey))
    (htaken : KeyTaken s (c.userId, c.idempotencyKey)) :
    ¬∃ s' a, changeRun c fresh view s = .ok (s', a) := by
  rintro ⟨s', ⟨run', replayed⟩, h⟩
  rcases changeRun_operations h with ⟨-, hseen⟩ | ⟨r, huser, hkey, hinserted⟩
  · exact hunseen (getOperation_ne_none.mp hseen)
  · obtain ⟨r', hr', huser', hkey'⟩ := htaken
    exact Table.not_conflict_of_insert? hinserted hr' ⟨huser'.trans huser.symm, hkey'.trans hkey.symm⟩

theorem changeRun_records {c : ChangeCall} {answer : AgentRun × Bool}
    (h : changeRun c fresh view s = .ok (s', answer)) :
    KeyTaken (view 0) (c.userId, c.idempotencyKey) ∨ KeyTaken s' (c.userId, c.idempotencyKey) := by
  rcases changeRun_operations h with ⟨-, hseen⟩ | ⟨r, huser, hkey, hinserted⟩
  · exact .inl (getOperation_ne_none.mp hseen)
  · exact .inr ⟨r, (Table.mem_insert? hinserted).mpr (.inr rfl), huser, hkey⟩

/-- A cancellation makes two checks before the change. -/
theorem cancelRun_eq_ok {userId runId : UUID} {expectedVersion : ℕ} {key : String}
    {answer : AgentRun × Bool} :
    cancelRun userId runId expectedVersion key fresh view s = .ok (s', answer) ↔
      (RunRepository.get userId runId (view 0).runs).isSome ∧
        ToolExecutionRepository.listInProgress runId (view 1).toolExecutions = [] ∧
        changeRun { userId, runId, expectedVersion, idempotencyKey := key, change := .cancel } fresh
          (fun n => view (n + 2)) s = .ok (s', answer) := by
  simp only [cancelRun, getRun, bind_eq_ok, orRaise_eq_ok, ensure_eq_ok,
    Option.isSome_iff_exists]
  constructor
  · rintro ⟨run, hrun, _, hidle, hchange⟩
    exact ⟨⟨run, hrun⟩, hidle, hchange⟩
  · rintro ⟨⟨run, hrun⟩, hidle, hchange⟩
    exact ⟨run, hrun, (), hidle, hchange⟩

/-- The keys under which the user changes Runs. -/
def requestKeys : system.Keyed (UUID × String) where
  key := Op.request
  lookup
    | .cancelRun _ _ _ _ _ => 2
    | _ => 0
  OnRecord := KeyTaken
  Succeeds := Reply.Succeeds
  Answers := Op.AnswersFromRecord
  found op view k hkey hanswers := by
    cases op with
    | resumeRun userId runId interruptId response expectedVersion key fresh =>
      obtain rfl := Option.some.inj hkey
      exact recordedRun_taken hanswers
    | cancelRun userId runId expectedVersion key fresh =>
      obtain rfl := Option.some.inj hkey
      exact recordedRun_taken hanswers.2.2
    | _ => cases hkey
  keeps op view s k h := h.kept (commit_operations op view s)
  records op view s k hkey hsucceeds := by
    cases op with
    | resumeRun userId runId interruptId response expectedVersion key fresh =>
      obtain rfl := Option.some.inj hkey
      obtain ⟨s', a, h⟩ := changed_succeeds.mp hsucceeds
      refine (changeRun_records h).imp_right fun hrecorded => ?_
      simp only [system, commit, h, settled]
      exact hrecorded
    | cancelRun userId runId expectedVersion key fresh =>
      obtain rfl := Option.some.inj hkey
      obtain ⟨s', a, h⟩ := changed_succeeds.mp hsucceeds
      refine (changeRun_records (cancelRun_eq_ok.mp h).2.2).imp_right fun hrecorded => ?_
      simp only [system, commit, h, settled]
      exact hrecorded
    | _ => cases hkey
  replays op view s k hkey hseen := by
    cases op with
    | resumeRun userId runId interruptId response expectedVersion key fresh =>
      obtain rfl := Option.some.inj hkey
      exact changed_succeeds.trans (changeRun_replays hseen)
    | cancelRun userId runId expectedVersion key fresh =>
      obtain rfl := Option.some.inj hkey
      refine changed_succeeds.trans ?_
      simp only [cancelRun_eq_ok, exists_and_left, Op.AnswersFromRecord]
      exact and_congr_right fun _ => and_congr_right fun _ => changeRun_replays hseen
    | _ => cases hkey
  blocks op view s k hkey hunseen htaken := by
    cases op with
    | resumeRun userId runId interruptId response expectedVersion key fresh =>
      obtain rfl := Option.some.inj hkey
      exact fun h => changeRun_blocked hunseen htaken (changed_succeeds.mp h)
    | cancelRun userId runId expectedVersion key fresh =>
      obtain rfl := Option.some.inj hkey
      intro h
      obtain ⟨s', a, h⟩ := changed_succeeds.mp h
      exact changeRun_blocked hunseen htaken ⟨s', a, (cancelRun_eq_ok.mp h).2.2⟩
    | _ => cases hkey

end Runtime
