import Laoshiren.Runtime.Proofs.LedgerProofs
import Laoshiren.Runtime.Proofs.LifecycleProofs

/-!
# Cancelling and tools in flight

`cancel_run` looks for tools in flight in a transaction of its own, and `claim_tool_execution` looks
whether the Run still runs before it inserts its row. Neither holds what it has read, so a Run may be
cancelled between the two steps of a claim, or a tool claimed between the two of a cancellation
(`Op.racesCancel`). No other transaction brings a tool in flight and a cancelled Run together.
-/

namespace Runtime

open RunRepository

/-- No tool of a cancelled Run is in flight. -/
def CancelledIdle (runs : Table AgentRun) (toolExecutions : Table ToolExecution) : Prop :=
  ∀ run ∈ runs, run.status = .cancelled →
    ToolExecutionRepository.listInProgress run.id toolExecutions = []

/-- What a claim of a tool action checks of its Run. -/
def ClaimTool.allowedFor (c : ClaimTool) (run : AgentRun) : Prop :=
  run.id = c.runId ∧ run.userId = c.userId ∧ run.claimOwner = some c.owner ∧
    run.claimToken = some c.runClaimToken ∧ run.status = .running

/-- The transaction lost the race that its own check does not close: a `cancel_run` that comes
through although a tool of the Run was claimed after it had looked for one, or the first claim of a
tool action by a worker that read the Run as its own before the Run was cancelled. -/
def Op.racesCancel (op : Op) (view : ℕ → Store) (s : Store) : Prop :=
  (∃ userId runId expectedVersion key fresh,
    op = .cancelRun userId runId expectedVersion key fresh ∧
      ToolExecutionRepository.listInProgress runId (view 1).toolExecutions = [] ∧
      ToolExecutionRepository.listInProgress runId s.toolExecutions ≠ [] ∧
      getOperation userId key (view 2).operations = none ∧
      ∃ r ∈ s.runs, r.id = runId ∧ r.userId = userId ∧ r.version = expectedVersion) ∨
    ∃ c fresh, op = .claimToolExecution c fresh ∧
      (∃ run ∈ (view 0).runs, c.allowedFor run) ∧
      ToolExecutionRepository.get c.runId c.actionId s.toolExecutions = none ∧
      ∃ r ∈ s.runs, r.id = c.runId ∧ r.status = .cancelled

variable {runs runs' : Table AgentRun} {tools tools' : Table ToolExecution} {x x' : Facts}
  {r r' run run' : AgentRun} {v s : Store} {view : ℕ → Store} {op : Op}

theorem listInProgress_eq_nil {runId : UUID} :
    ToolExecutionRepository.listInProgress runId tools = [] ↔
      ∀ e ∈ tools, e.runId = runId → e.status ≠ .inProgress := by
  simp [ToolExecutionRepository.listInProgress, Table.select, Table.mem_rows]

/-! ## Which transactions cancel a Run -/

theorem Advances.not_cancelled (h : Advances op run run') : run'.status ≠ .cancelled := by
  cases h with
  | start _ h =>
    obtain ⟨-, rfl⟩ := AgentRun.start_ok h
    simp
  | complete _ h =>
    obtain ⟨-, ms, rfl⟩ := AgentRun.complete_ok h
    simp
  | fail _ _ _ _ h =>
    obtain ⟨-, ms, rfl⟩ := AgentRun.fail_ok h
    simp
  | accept h _ =>
    obtain ⟨hstatus, rfl | rfl⟩ := AgentRun.acceptTerminalOutput_ok h <;> simp [hstatus]

/-- The update to a Run that is not cancelled cancels none. -/
theorem cancelled_of_mem_updated {version : ℕ} (hrun : run.status ≠ .cancelled)
    (h : r' ∈ (update run version runs).1) (hstatus : r'.status = .cancelled) : r' ∈ runs := by
  rcases mem_updated h with ⟨r, hr, hp, rfl⟩ | ⟨hr, -⟩
  · exact absurd hstatus hrun
  · exact hr

theorem cancelled_of_recovers (h : Relation.ReflTransGen (Recovers view) runs runs')
    (hr' : r' ∈ runs') (hstatus : r'.status = .cancelled) : r' ∈ runs := by
  induction h with
  | refl => exact hr'
  | tail _ hlast ih =>
    cases hlast with
    | run hread h hversion =>
      refine ih (cancelled_of_mem_updated ?_ hr' hstatus)
      obtain ⟨-, ms, rfl⟩ := AgentRun.recoverAfterCrash_ok h
      simp

/-- A Run that is cancelled was cancelled before, or the transaction is the `cancel_run` for it. -/
theorem Effect.cancelled_cases (hview : ∀ n, RunsLater (view n).facts.runs x.runs)
    (h : Effect view op x x') (hr' : r' ∈ x'.runs) (hstatus : r'.status = .cancelled) :
    (∃ r ∈ x.runs, r.id = r'.id ∧ r.status = .cancelled) ∨
      ∃ expectedVersion key fresh, op = .cancelRun r'.userId r'.id expectedVersion key fresh ∧
        ToolExecutionRepository.listInProgress r'.id (view 1).toolExecutions = [] ∧
        getOperation r'.userId key (view 2).operations = none ∧
        ∃ r ∈ x.runs, r.id = r'.id ∧ r.userId = r'.userId ∧ r.version = expectedVersion := by
  cases h with
  | createRun hnew hrun _ =>
    rcases (Table.mem_insert? hrun).mp hr' with hr | rfl
    · exact .inl ⟨r', hr, rfl, hstatus⟩
    · rw [hnew] at hstatus
      cases hstatus
  | @claimRun userId runId owner lease fresh =>
    have hkeep : Table.Keeps (claimWhere userId runId (fresh 0).now)
        (claimValues owner (fresh 0).id (fresh 0).now ((fresh 0).now + lease)) := fun _ _ _ h => h
    rcases Table.mem_update_cases hkeep hr' with ⟨r, hr, hp, rfl⟩ | ⟨hr, -⟩
    · cases hstatus
    · exact .inl ⟨r', hr, rfl, hstatus⟩
  | @renewRunLease userId runId owner token lease now =>
    have hkeep : Table.Keeps (renewLeaseWhere userId runId owner token)
        (renewLeaseValues now (now + lease)) := fun _ _ _ h => h
    rcases Table.mem_update_cases hkeep hr' with ⟨r, hr, hp, rfl⟩ | ⟨hr, -⟩
    · exact .inl ⟨r, hr, rfl, hstatus⟩
    · exact .inl ⟨r', hr, rfl, hstatus⟩
  | recover h => exact .inl ⟨r', cancelled_of_recovers h hr' hstatus, rfl, hstatus⟩
  | advance hread h _ =>
    exact .inl ⟨r', cancelled_of_mem_updated h.not_cancelled hr' hstatus, rfl, hstatus⟩
  | wait hread _ _ _ h _ _ =>
    obtain ⟨-, ms, rfl⟩ := AgentRun.waitForUser_ok h
    exact .inl ⟨r', cancelled_of_mem_updated (by simp) hr' hstatus, rfl, hstatus⟩
  | resume hread _ _ _ _ _ h _ _ =>
    obtain ⟨-, -, rfl⟩ := AgentRun.resume_ok h
    exact .inl ⟨r', cancelled_of_mem_updated (by simp) hr' hstatus, rfl, hstatus⟩
  | cancel hidle hkey hread hrun huser hexpected h hversion =>
    rcases mem_updated hr' with ⟨r, hr, hp, rfl⟩ | ⟨hr, -⟩
    · -- the row that the update matches is the Run that the transaction read
      obtain ⟨hid, hrversion⟩ := updateWhere_iff.mp hp
      have hrun' := (AgentRun.Moved.cancel h).counts.1
      have hcore := (hview 3).core_eq hread hr (updateWhere_iff.mpr ⟨hid.trans hrun', hrversion⟩)
      have hrid : r.id = _ := (hid.trans hrun').trans hrun
      have hruser : r.userId = _ := (congrArg AgentRun.userId hcore :).trans huser
      subst hrid hruser
      exact .inr ⟨_, _, _, rfl, hidle, hkey, r, hr, rfl, rfl, hrversion.trans hexpected⟩
    · exact .inl ⟨r', hr, rfl, hstatus⟩
  | _ => exact .inl ⟨r', hr', rfl, hstatus⟩

/-! ## Which transactions put a tool in flight -/

/-- A row that is in flight was in flight before. -/
theorem ToolStep.inProgress {e e' : ToolExecution} (h : ToolStep op e e')
    (hstatus : e'.status = .inProgress) : e.status = .inProgress := by
  cases hst : e.status with
  | inProgress => rfl
  | unknownOutcome => exact absurd hstatus (h.later.unknown hst)
  | succeeded => rw [← hst, ← h.later.settled (.inl hst)]; exact hstatus
  | failed => rw [← hst, ← h.later.settled (.inr hst)]; exact hstatus

/-- A tool that is in flight was in flight before, or the transaction is the first claim of its
action, by a worker that read the Run as its own. -/
theorem commit_inProgress_cases (hview : LedgerLater (view 1).toolExecutions s.toolExecutions)
    {e' : ToolExecution} (he' : e' ∈ (commit op view s).1.toolExecutions)
    (hstatus : e'.status = .inProgress) :
    (∃ e ∈ s.toolExecutions, e.runId = e'.runId ∧ e.status = .inProgress) ∨
      ∃ c fresh, op = .claimToolExecution c fresh ∧ e'.runId = c.runId ∧
        (∃ run ∈ (view 0).runs, c.allowedFor run) ∧
        ToolExecutionRepository.get c.runId c.actionId s.toolExecutions = none := by
  rcases (commit_toolExecutions op view s).cases hview with ⟨hmoves, -⟩ |
    ⟨c, fresh, claim, rfl, hreply, -, habsent, hins⟩
  · obtain ⟨e, he, hstep⟩ := hmoves.mem he'
    exact .inl ⟨e, he, hstep.later.runId.symm, hstep.inProgress hstatus⟩
  · rcases (Table.mem_insert? hins).mp he' with he | rfl
    · exact .inl ⟨e', he, rfl, hstatus⟩
    · obtain ⟨s', claim', hok, -⟩ := settled_reply (fun _ => by simp) hreply
      exact .inr ⟨c, fresh, rfl, rfl, claimToolExecution_owned hok, habsent⟩

/-! ## Every history without a lost race -/

/-- A transaction that lost no race leaves no tool of a cancelled Run in flight. -/
theorem CancelledIdle.step (hruns : ∀ n, RunsLater (view n).facts.runs s.facts.runs)
    (hledger : LedgerLater (view 1).toolExecutions s.toolExecutions)
    (hok : ¬op.racesCancel view s) (h : CancelledIdle s.facts.runs s.toolExecutions) :
    CancelledIdle (commit op view s).1.facts.runs (commit op view s).1.toolExecutions := by
  have heffect := commit_effect op view s
  intro r' hr' hcancelled
  refine listInProgress_eq_nil.mpr fun e' he' hrun hstatus => ?_
  -- a ledger transaction leaves the Runs alone, and any other one the ledger
  by_cases hop : op.onLedger = true
  · obtain ⟨toolExecutions, hs, -⟩ := commit_ledger op view s hop
    have hr : r' ∈ s.facts.runs := by rwa [hs] at hr'
    rcases commit_inProgress_cases hledger he' hstatus with ⟨e, he, hid, hst⟩ |
      ⟨c, fresh, rfl, hid, hallowed, habsent⟩
    · exact listInProgress_eq_nil.mp (h r' hr hcancelled) e he (hid.trans hrun) hst
    · obtain ⟨r, hr₀, rfl⟩ := Store.exists_of_mem_facts_runs hr
      exact hok (.inr ⟨c, fresh, rfl, hallowed, habsent, r, hr₀, hrun.symm.trans hid, hcancelled⟩)
  · have hsame : (commit op view s).1.toolExecutions = s.toolExecutions :=
      heffect.toolExecutions_eq (by simpa using hop)
    rw [hsame] at he'
    rcases heffect.cancelled_cases hruns hr' hcancelled with ⟨r, hr, hid, hst⟩ |
      ⟨expectedVersion, key, fresh, rfl, hidle, hkey, r, hr, hid, huser, hversion⟩
    · exact listInProgress_eq_nil.mp (h r hr hst) e' he' (hrun.trans hid.symm) hstatus
    · obtain ⟨r, hr₀, rfl⟩ := Store.exists_of_mem_facts_runs hr
      refine hok (.inl ⟨_, _, _, _, _, rfl, hidle, fun hnil => ?_, hkey, r, hr₀, hid, huser,
        hversion⟩)
      exact listInProgress_eq_nil.mp hnil e' he' hrun hstatus

/-- Runs and ledger stay together while no transaction loses a race. -/
theorem cancellation_stable : Program.Stable system (fun op view s => ¬op.racesCancel view s)
    (fun s => (RunsWellFormed s.facts.runs ∧ ResultsSettled s.toolExecutions) ∧
      CancelledIdle s.facts.runs s.toolExecutions)
    (fun v s => RunsLater v.facts.runs s.facts.runs ∧
      LedgerLater v.toolExecutions s.toolExecutions) := by
  refine ((runs_stable.and ledger_stable).restrict fun _ _ _ _ => trivial).strengthen
    (fun s => CancelledIdle s.facts.runs s.toolExecutions) ?_ ?_
  · rintro s rfl r hr
    exact absurd hr Table.not_mem_empty
  · intro op view s _ h hviews hok
    exact h.step (fun n => (hviews n).2.2.1) (hviews 1).2.2.2 hok

/-- In every history in which no transaction loses that race: no cancelled Run has a tool in
flight. -/
theorem cancelled_run_idle {h : History Store Op Reply}
    (hr : system.ReachableIf (fun op view s => ¬op.racesCancel view s) h) :
    ∀ s ∈ h.states, CancelledIdle s.runs s.toolExecutions := by
  intro s hs run hrun
  have hidle := (cancellation_stable.inv_mem hr hs).2 _ (Store.mem_facts_runs hrun)
  exact hidle

/-- A transaction that commits on the state that it read loses no race. -/
theorem not_racesCancel_of_same (op : Op) (s : Store) : ¬op.racesCancel (fun _ => s) s := by
  rintro (⟨_, _, _, _, _, -, hidle, hbusy, -⟩ |
    ⟨c, _, -, ⟨run, hrun, hid, -, -, -, hstatus⟩, -, r, hr, hrid, hcancelled⟩)
  · exact hbusy hidle
  · rw [run_ext hr hrun (hrid.trans hid.symm), hstatus] at hcancelled
    cases hcancelled

/-- Worker `w` executes a tool, and then the user cancels the Run. -/
def cancelledInTime : List Op :=
  claimedRun ++
    [.claimToolExecution (unsafeClaim "w") (stampsFrom 30 0),
      .completeToolExecution ⟨1, 10, "a", "w", 30⟩ [] true 1,
      .cancelRun 1 10 2 "cancel" (stampsFrom 40 3)]

theorem cancelled_run_idle_cancelledInTime :
    (∀ s ∈ (system.serial {} cancelledInTime).states, CancelledIdle s.runs s.toolExecutions) ∧
      (system.serial {} cancelledInTime).cur.runs.rows.map AgentRun.status = [.cancelled] ∧
      (system.serial {} cancelledInTime).cur.toolExecutions.rows.map ToolExecution.status =
        [.succeeded] :=
  ⟨cancelled_run_idle (system.serial_reachableIf rfl _
      (system.serialMeets_of_same (fun op _ s => not_racesCancel_of_same op s) _)),
    by decide, by decide⟩

/-- `cancel_run` has looked for tools in flight before worker `w` claims one. -/
def cancelledInFlight : History Store Op Reply :=
  system.extend unsafeClaimed (.cancelRun 1 10 2 "cancel" (stampsFrom 40 3)) fun n =>
    if n ≤ 1 then (system.serial {} claimedRun).cur else unsafeClaimed.cur

theorem cancelled_run_in_flight :
    system.Reachable cancelledInFlight ∧
      cancelledInFlight.cur.runs.rows.map AgentRun.status = [.cancelled] ∧
      cancelledInFlight.cur.toolExecutions.rows.map ToolExecution.status = [.inProgress] ∧
      ¬CancelledIdle cancelledInFlight.cur.runs cancelledInFlight.cur.toolExecutions := by
  refine ⟨.commit (system.serial_reachable rfl _) _ _ (fun n => ?_) trivial, by decide, by decide,
    fun hidle => ?_⟩
  · split
    · exact .tail _ (.head _)
    · exact .head _
  · have hall : ∀ run ∈ cancelledInFlight.cur.runs.rows,
        ToolExecutionRepository.listInProgress run.id cancelledInFlight.cur.toolExecutions = [] :=
      fun run hrun => hidle run hrun
        ((by decide : ∀ run ∈ cancelledInFlight.cur.runs.rows, run.status = .cancelled) run hrun)
    exact absurd hall (by decide)

end Runtime
