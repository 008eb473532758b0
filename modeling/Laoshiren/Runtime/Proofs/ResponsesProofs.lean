import Laoshiren.Runtime.AgentLoop
import Laoshiren.Runtime.Proofs.InteractionProofs

/-!
# Responses of the user

The Run that a worker claims carries the response that was accepted last (`carries_stable`). What the
worker does with it is decided by the checkpoint first: one that still reports the interrupt sends
the Run back to its user, whatever the response was.
-/

namespace Runtime

open RunRepository

variable {r r' run run' : AgentRun} {runs runs' : Table AgentRun} {v : Store} {view : ℕ → Store}
  {op : Op} {x x' : Facts}

/-! ## Quiet steps -/

theorem RunQuiet.refl (r : AgentRun) : RunQuiet r r := ⟨rfl, rfl, fun h => ⟨h, rfl⟩, fun _ h => h⟩

theorem RunQuiet.trans {r₁ r₂ r₃ : AgentRun} (h : RunQuiet r₁ r₂) (h' : RunQuiet r₂ r₃) :
    RunQuiet r₁ r₃ where
  id := h'.id.trans h.id
  payload := h'.payload.trans h.payload
  waits hstatus := by
    obtain ⟨hwaiting, hinterrupt⟩ := h'.waits hstatus
    obtain ⟨hwaiting', hinterrupt'⟩ := h.waits hwaiting
    exact ⟨hwaiting', hinterrupt.trans hinterrupt'⟩
  claimed token htoken := h.claimed token (h'.claimed token htoken)

/-- What a quiet method does to a Run, it does to the row of the version that was read. -/
theorem RunQuiet.update (hcore : r.core = run.core) (h : RunQuiet run run') :
    RunQuiet r (updateValues run' r) where
  id := rfl
  payload := h.payload.trans (congrArg AgentRun.resumePayload hcore :).symm
  waits hstatus := by
    obtain ⟨hwaiting, hinterrupt⟩ := h.waits hstatus
    have hrow : r.status = run.status := (congrArg AgentRun.status hcore :)
    have hrowid : r.interruptId = run.interruptId := (congrArg AgentRun.interruptId hcore :)
    exact ⟨hrow.trans hwaiting, hinterrupt.trans hrowid.symm⟩
  claimed token htoken := by
    have hrow : r.claimToken = run.claimToken := (congrArg AgentRun.claimToken hcore :)
    exact hrow.trans (h.claimed token htoken)

theorem runQuiet_update (hview : RunsLater v.facts.runs runs) (hread : run ∈ v.runs)
    (h : RunQuiet run run') : runs.Moves RunQuiet (update run' run.version runs).1 := by
  refine .update .refl fun r hr hp => .update (hview.core_eq hread hr ?_) h
  obtain ⟨hid, hversion⟩ := updateWhere_iff.mp hp
  exact updateWhere_iff.mpr ⟨hid.trans h.id, hversion⟩

/-- A Run that loses its claim without waiting. -/
theorem RunQuiet.of_released (hid : run'.id = run.id)
    (hpayload : run'.resumePayload = run.resumePayload) (hstatus : run'.status ≠ .waitingForUser)
    (htoken : run'.claimToken = none) : RunQuiet run run' where
  id := hid
  payload := hpayload
  waits hwaiting := absurd hwaiting hstatus
  claimed token hclaimed := by
    rw [htoken] at hclaimed
    cases hclaimed

theorem RunQuiet.of_recover {now : Timestamp} (h : run.recoverAfterCrash now = .ok run') :
    RunQuiet run run' := by
  obtain ⟨-, ms, rfl⟩ := AgentRun.recoverAfterCrash_ok h
  exact .of_released rfl rfl (by simp) rfl

theorem RunQuiet.of_cancel {now : Timestamp} (h : run.cancel now = .ok run') :
    RunQuiet run run' := by
  obtain ⟨-, ms, rfl⟩ := AgentRun.cancel_ok h
  exact .of_released rfl rfl (by simp) rfl

theorem Advances.runQuiet (h : Advances op run run') : RunQuiet run run' := by
  cases h with
  | start _ h =>
    obtain ⟨-, rfl⟩ := AgentRun.start_ok h
    exact ⟨rfl, rfl, by simp, fun _ htoken => htoken⟩
  | complete _ h =>
    obtain ⟨-, ms, rfl⟩ := AgentRun.complete_ok h
    exact .of_released rfl rfl (by simp) rfl
  | fail _ _ _ _ h =>
    obtain ⟨-, ms, rfl⟩ := AgentRun.fail_ok h
    exact .of_released rfl rfl (by simp) rfl
  | accept h _ =>
    obtain ⟨-, rfl | rfl⟩ := AgentRun.acceptTerminalOutput_ok h
    · exact .refl _
    · exact ⟨rfl, rfl, fun hstatus => ⟨hstatus, rfl⟩, fun _ htoken => htoken⟩

theorem runQuiet_recovers (hwf : RunsWellFormed runs) (hview : RunsLater (view 0).facts.runs runs)
    (h : Relation.ReflTransGen (Recovers view) runs runs') : runs.Moves RunQuiet runs' := by
  induction h with
  | refl => exact .refl .refl _
  | tail hfirst hlast ih =>
    cases hlast with
    | run hread hmethod _ =>
      have hkept := runsKept_of_recovers hwf hview hfirst
      exact ih.trans (runQuiet_update (hview.trans hkept.2) hread (.of_recover hmethod))
        fun _ _ _ h h' => h.trans h'

/-- Moving every Run quietly is quiet. -/
theorem Facts.Quiet.of_moves (hinteractions : x'.interactions = x.interactions)
    (h : x.runs.Moves RunQuiet x'.runs) : x.Quiet x' where
  interactions := hinteractions
  old _ hr := h.exists_mem hr
  new _ hr' := .inl (h.mem hr')

theorem Facts.Quiet.refl (x : Facts) : x.Quiet x := .of_moves rfl (.refl .refl _)

/-- A new Run leaves the others alone. -/
theorem Facts.Quiet.of_insert (hinteractions : x'.interactions = x.interactions)
    (hnew : run.IsNew) (h : x.runs.insert? run = some x'.runs) : x.Quiet x' where
  interactions := hinteractions
  old r hr := ⟨r, (Table.mem_insert? h).mpr (.inl hr), .refl r⟩
  new r' hr' := by
    rcases (Table.mem_insert? h).mp hr' with hr' | rfl
    · exact .inl ⟨r', hr', .refl r'⟩
    · exact .inr ⟨hnew, fun r hr hid => Table.not_conflict_of_insert? h hr (.inl hid)⟩

/-- The quiet transactions are quiet. -/
theorem Effect.quiet (hwf : RunsWellFormed x.runs)
    (hview : ∀ n, RunsLater (view n).facts.runs x.runs) (hop : op.quiet = true)
    (h : Effect view op x x') : x.Quiet x' := by
  cases h with
  | createRun hnew hrun _ => exact .of_insert rfl hnew hrun
  | claimRun => cases hop
  | renewRunLease =>
    have hsame : ∀ r : AgentRun, ∀ now leaseExpiresAt,
        RunQuiet r (renewLeaseValues now leaseExpiresAt r) := fun r _ _ =>
      ⟨rfl, rfl, fun hstatus => ⟨hstatus, rfl⟩, fun _ htoken => htoken⟩
    exact .of_moves rfl (.update .refl fun r _ _ => hsame r _ _)
  | recover h => exact .of_moves rfl (runQuiet_recovers hwf (hview 0) h)
  | advance hread h _ => exact .of_moves rfl (runQuiet_update (hview 0) hread h.runQuiet)
  | wait _ _ _ haction _ _ _ => simp [Op.quiet, haction] at hop
  | resume => cases hop
  | cancel _ _ hread _ _ _ h _ =>
    exact .of_moves rfl (runQuiet_update (hview 3) hread (.of_cancel h))
  | _ => exact .of_moves rfl (.refl .refl _)

/-! ## The response that a Run carries -/

/-- Every Run carries the response to it that was accepted last. -/
def CarriesLastResponse (replies : List (Op × Reply)) (runs : Table AgentRun) : Prop :=
  (∀ r ∈ runs, r.resumePayload = lastResponse r.id replies) ∧
    ∀ runId, (∀ r ∈ runs, r.id ≠ runId) → lastResponse runId replies = none

/-- The rows of a table carry what they carried before. -/
def PayloadsKept (runs runs' : Table AgentRun) : Prop :=
  (∀ r ∈ runs, ∃ r' ∈ runs', r'.id = r.id) ∧
    ∀ r' ∈ runs', (∃ r ∈ runs, r'.id = r.id ∧ r'.resumePayload = r.resumePayload) ∨
      (r'.resumePayload = none ∧ ∀ r ∈ runs, r.id ≠ r'.id)

theorem PayloadsKept.of_moves
    (h : runs.Moves (fun r r' => r'.id = r.id ∧ r'.resumePayload = r.resumePayload) runs') :
    PayloadsKept runs runs' := by
  refine ⟨fun r hr => ?_, fun r' hr' => .inl (h.mem hr')⟩
  obtain ⟨r', hr', hid, -⟩ := h.exists_mem hr
  exact ⟨r', hr', hid⟩

theorem Facts.Quiet.payloadsKept (h : x.Quiet x') : PayloadsKept x.runs x'.runs := by
  refine ⟨fun r hr => ?_, fun r' hr' => ?_⟩
  · obtain ⟨r', hr', hquiet⟩ := h.old r hr
    exact ⟨r', hr', hquiet.id⟩
  · rcases h.new r' hr' with ⟨r, hr, hquiet⟩ | ⟨hnew, hids⟩
    · exact .inl ⟨r, hr, hquiet.id, hquiet.payload⟩
    · exact .inr ⟨by rw [hnew], hids⟩

/-- Every transaction but a resume leaves the responses alone. -/
theorem Effect.payloadsKept (hwf : RunsWellFormed x.runs)
    (hview : ∀ n, RunsLater (view n).facts.runs x.runs)
    (hop : ∀ userId runId interruptId response expectedVersion key fresh,
      op ≠ .resumeRun userId runId interruptId response expectedVersion key fresh)
    (h : Effect view op x x') : PayloadsKept x.runs x'.runs := by
  by_cases hquiet : op.quiet = true
  · exact (h.quiet hwf hview hquiet).payloadsKept
  cases h with
  | @createRun _ _ _ _ runs durableJobs hnew hrun _ =>
    have hinsert : x.Quiet { x with runs, durableJobs } := .of_insert rfl hnew hrun
    exact hinsert.payloadsKept
  | claimRun => exact .of_moves (.update (fun _ => ⟨rfl, rfl⟩) fun _ _ _ => ⟨rfl, rfl⟩)
  | advance hread h _ =>
    exact .of_moves ((runQuiet_update (hview 0) hread h.runQuiet).imp fun _ _ h =>
      ⟨h.id, h.payload⟩)
  | @wait _ _ _ _ _ _ run run' _ hread _ _ _ h _ hversion =>
    obtain ⟨-, ms, rfl⟩ := AgentRun.waitForUser_ok h
    refine .of_moves (.update (fun _ => ⟨rfl, rfl⟩) fun r hr hp => ⟨rfl, ?_⟩)
    have hcore := (hview 0).core_eq hread hr hp
    exact (congrArg AgentRun.resumePayload hcore :).symm
  | resume => exact absurd rfl (hop _ _ _ _ _ _ _)
  | renewRunLease | recover | cancel => exact absurd rfl hquiet
  | _ => exact .of_moves (.refl (fun _ => ⟨rfl, rfl⟩) _)

/-- A transaction that recorded no response. -/
theorem commit_payloadsKept {s : Store} (hwf : RunsWellFormed s.facts.runs)
    (hview : ∀ n, RunsLater (view n).facts.runs s.facts.runs)
    (hnone : op.accepted (commit op view s).2 = none) :
    PayloadsKept s.facts.runs (commit op view s).1.facts.runs := by
  have hsame : PayloadsKept s.facts.runs s.facts.runs := .of_moves (.refl (fun _ => ⟨rfl, rfl⟩) _)
  cases op with
  | resumeRun userId runId interruptId response expectedVersion key fresh =>
    simp only [commit] at hnone ⊢
    cases h : resumeRun userId runId interruptId response expectedVersion key fresh view s with
    | error e => exact hsame
    | ok result =>
      obtain ⟨s', run', replayed⟩ := result
      rcases resumeRun_ok h with ⟨-, rfl⟩ | ⟨rfl, -⟩
      · exact hsame
      · rw [h] at hnone
        cases hnone
  | _ => exact (commit_effect _ view s).payloadsKept hwf hview (by simp)

theorem Op.accepted_eq_some {reply : Reply} {runId : UUID} {response : Dict}
    (h : op.accepted reply = some (runId, response)) :
    ∃ userId interruptId expectedVersion key fresh run,
      op = .resumeRun userId runId interruptId response expectedVersion key fresh ∧
        reply = .changed run false := by
  unfold Op.accepted at h
  split at h
  case h_1 => cases h; exact ⟨_, _, _, _, _, _, rfl, rfl⟩
  case h_2 => cases h

/-- A transaction that recorded a response wrote it on the Run. -/
theorem commit_response {s : Store} {runId : UUID} {response : Dict}
    (hview : ∀ n, RunsLater (view n).facts.runs s.facts.runs)
    (haccepted : op.accepted (commit op view s).2 = some (runId, response)) :
    (∀ r ∈ s.facts.runs, ∃ r' ∈ (commit op view s).1.facts.runs, r'.id = r.id) ∧
      (∃ r ∈ s.facts.runs, r.id = runId) ∧
      ∀ r' ∈ (commit op view s).1.facts.runs, ∃ r ∈ s.facts.runs, r'.id = r.id ∧
        r'.resumePayload = if r.id = runId then some response else r.resumePayload := by
  obtain ⟨userId, interruptId, expectedVersion, key, fresh, run', rfl, hreply⟩ :=
    Op.accepted_eq_some haccepted
  obtain ⟨s', ⟨run'', replayed⟩, hok, hchanged⟩ := settled_reply (fun _ => by simp) hreply
  obtain ⟨rfl, rfl⟩ := Reply.changed.inj hchanged
  have hcommit : (commit (.resumeRun userId runId interruptId response expectedVersion key fresh)
      view s).1 = s' := by simp only [commit, hok, settled]
  rw [hcommit]
  rcases resumeRun_ok hok with ⟨hreplayed, -⟩ | ⟨-, run, run₁, interaction, interaction', hread, hid,
    -, -, -, -, hmethod, -, hversion, hs'⟩
  · cases hreplayed
  obtain ⟨-, -, hrun₁⟩ := AgentRun.resume_ok hmethod
  have hid₁ : run₁.id = run.id := by rw [hrun₁]
  obtain ⟨row, hrow, hcore, hp⟩ := exists_row_of_update (hview 1) hread hid₁ hversion
  have hrowid : row.id = runId := (updateWhere_iff.mp hp).1.trans (hid₁.trans hid)
  rw [hs']
  refine ⟨fun r hr => ⟨_, Table.updateRow_mem hr, ?_⟩, ⟨row, hrow, hrowid⟩, fun r' hr' => ?_⟩
  · unfold Table.updateRow
    split <;> rfl
  · rcases mem_updated hr' with ⟨r, hr, hp', rfl⟩ | ⟨hr, hp'⟩
    · refine ⟨r, hr, rfl, ?_⟩
      have hrid : r.id = runId := (updateWhere_iff.mp hp').1.trans (hid₁.trans hid)
      rw [if_pos hrid]
      simp only [updateValues, hrun₁]
    · refine ⟨r', hr, rfl, (if_neg fun hrid => ?_).symm⟩
      rw [run_ext hr hrow (hrid.trans hrowid.symm), hp] at hp'
      cases hp'

theorem CarriesLastResponse.step {s : Store} {replies : List (Op × Reply)}
    (hwf : RunsWellFormed s.facts.runs) (hview : ∀ n, RunsLater (view n).facts.runs s.facts.runs)
    (h : CarriesLastResponse replies s.facts.runs) :
    CarriesLastResponse ((op, (commit op view s).2) :: replies)
      (commit op view s).1.facts.runs := by
  cases haccepted : op.accepted (commit op view s).2 with
  | none =>
    obtain ⟨hold, hnew⟩ := commit_payloadsKept hwf hview haccepted
    simp only [CarriesLastResponse, lastResponse, haccepted]
    refine ⟨fun r' hr' => ?_, fun runId hids => h.2 runId fun r hr hid => ?_⟩
    · rcases hnew r' hr' with ⟨r, hr, hid, hpayload⟩ | ⟨hpayload, hids⟩
      · rw [hpayload, hid]
        exact h.1 r hr
      · rw [hpayload, h.2 r'.id hids]
    · obtain ⟨r', hr', hid'⟩ := hold r hr
      exact hids r' hr' (hid'.trans hid)
  | some answer =>
    obtain ⟨answeredId, response⟩ := answer
    obtain ⟨hold, ⟨row, hrow, hrowid⟩, hnew⟩ := commit_response hview haccepted
    simp only [CarriesLastResponse, lastResponse, haccepted]
    refine ⟨fun r' hr' => ?_, fun runId hids => ?_⟩
    · obtain ⟨r, hr, hid, hpayload⟩ := hnew r' hr'
      rw [hpayload, hid, h.1 r hr]
      simp only [eq_comm]
    · have hold' : ∀ r ∈ s.facts.runs, r.id ≠ runId := fun r hr hid => by
        obtain ⟨r', hr', hid'⟩ := hold r hr
        exact hids r' hr' (hid'.trans hid)
      have hother : answeredId ≠ runId := fun hid => hold' row hrow (hrowid.trans hid)
      rw [if_neg hother]
      exact h.2 runId hold'

/-- In every history each Run carries the response to it that was accepted last. -/
theorem carries_lastResponse {h : History Store Op Reply} (hr : system.Reachable h) :
    CarriesLastResponse h.replies h.cur.facts.runs := by
  refine runs_stable.log_induction (fun replies s => CarriesLastResponse replies s.facts.runs)
    (fun s hs => ?_) (fun op view s replies hwf hviews _ hlog => ?_) hr
  · obtain rfl : s = {} := hs
    exact ⟨fun r hr => absurd hr Table.not_mem_empty, fun _ _ => rfl⟩
  · exact hlog.step hwf fun n => (hviews n).2

/-- A Run that is claimed carries the response to it that was accepted last. -/
theorem claimed_carries {h : History Store Op Reply} (hr : system.Reachable h) {userId runId : UUID}
    {owner : String} {lease : ℤ} {fresh : ℕ → Stamp}
    (hclaim : (commit (.claimRun userId runId owner lease fresh) view h.cur).2 =
      .claimed (some run)) : run.resumePayload = lastResponse runId h.replies := by
  obtain ⟨s', claimed, hok, hreply⟩ := settled_reply (fun _ => by simp) hclaim
  cases hreply
  rcases claimRun_ok hok with ⟨hnone, -⟩ | ⟨⟨r, hrow, hp, hrun⟩, -⟩
  · cases hnone
  · have hid : r.id = runId := (claimWhere_iff.mp hp).1
    have hcarries := (carries_lastResponse hr).1 _ (Store.mem_facts_runs hrow)
    rw [Option.some.inj hrun, ← hid]
    exact hcarries

/-! ## What a worker does with it -/

section Worker

variable {worker : AgentRunWorker} {snapshot : GraphSnapshot} {now : Timestamp}
  {checkpoint : CheckpointSnapshotDTO} {status : RunStatus} {input : GraphInput}

/-- The checkpoints for which a worker goes on to the graph. -/
theorem reconcileCheckpoint_proceeds (hstatus : status ≠ .waitingForUser) :
    (reconcileCheckpoint status checkpoint = .reconcileTools ∨
        reconcileCheckpoint status checkpoint = .reexecute) ↔
      checkpoint.terminalOutput = none ∧ checkpoint.pendingInterrupt = none ∧
        AgentRunWorker.actionsFit checkpoint.pendingActions = true := by
  have hmalformed : (checkpoint.pendingActions.any fun action =>
      !hasText action "action_id" || !hasText action "tool_name") =
        !AgentRunWorker.actionsFit checkpoint.pendingActions := by
    simp only [AgentRunWorker.actionsFit, List.not_all_eq_any_not, Bool.not_and]
  unfold reconcileCheckpoint
  rw [hmalformed]
  cases houtput : checkpoint.terminalOutput with
  | some output => simp
  | none =>
    cases hpending : checkpoint.pendingInterrupt with
    | some pending => simp
    | none =>
      by_cases hactions : checkpoint.pendingActions = []
      · simp [hactions, hstatus, AgentRunWorker.actionsFit]
      · cases hfit : AgentRunWorker.actionsFit checkpoint.pendingActions <;> simp [hactions]

/-- Where the checkpoint lets the worker go on, it invokes the graph with what the Run carries. -/
theorem decideCheckpoint_eq_invoke (hstatus : run.status ≠ .waitingForUser) :
    AgentRunWorker.decideCheckpoint checkpoint run = .invoke input ↔
      (checkpoint.terminalOutput = none ∧ checkpoint.pendingInterrupt = none ∧
        AgentRunWorker.actionsFit checkpoint.pendingActions = true) ∧
      AgentRunWorker.graphInput run = input := by
  rw [← reconcileCheckpoint_proceeds hstatus]
  unfold AgentRunWorker.decideCheckpoint
  cases hreconcile : reconcileCheckpoint run.status checkpoint with
  | reexecute => simp
  | reconcileTools => simp
  | failInconsistency => simp
  | finalize =>
    dsimp only
    split
    · simp
    · split <;> simp
  | waitForUser =>
    dsimp only
    split
    · simp
    · unfold AgentRunWorker.checkpointWait
      split <;> simp

/-- A worker with an inspector invokes the graph with the response that its Run carries exactly where
nothing keeps it from it. -/
theorem decide_eq_invoke_resume {response : Dict} (hinspects : worker.inspects = true)
    (hstatus : run.status ≠ .waitingForUser) (hpayload : run.resumePayload = some response) :
    worker.decide snapshot now run = .invoke (.resume response) ↔
      worker.Unblocked snapshot now run := by
  have hinput : AgentRunWorker.graphInput run = .resume response := by
    simp only [AgentRunWorker.graphInput, hpayload]
  have hinspect : (inspect snapshot).terminalOutput = none ∧
      (inspect snapshot).pendingInterrupt = none ↔
        finalResponse (snapshot.values.getD []) = none ∧ snapshot.interrupts = [] := by
    simp [inspect]
  have hcheckpoint : AgentRunWorker.decideCheckpoint (inspect snapshot) run =
      .invoke (.resume response) ↔ _ := decideCheckpoint_eq_invoke hstatus
  unfold AgentRunWorker.decide
  cases hbudget : worker.activeBudget run.budgetSnapshot with
  | none =>
    simp only [reduceCtorEq, false_iff]
    rintro ⟨⟨budget, hsome, -⟩, -⟩
    rw [hbudget] at hsome
    cases hsome
  | some budget =>
    dsimp only
    by_cases hleft : AgentRunWorker.activeElapsed run now < budget
    · rw [if_neg (not_le.mpr (sub_pos.mpr hleft))]
      cases houtput : run.terminalOutput with
      | some output =>
        have hblocked : ¬worker.Unblocked snapshot now run := fun h => by
          rw [h.output] at houtput
          cases houtput
        simp only [hblocked, iff_false]
        split <;> simp
      | none =>
        simp only [hinspects, if_true]
        rw [hcheckpoint]
        constructor
        · rintro ⟨⟨hterminal, hpending, hactions⟩, -⟩
          obtain ⟨hresponse, hinterrupts⟩ := hinspect.mp ⟨hterminal, hpending⟩
          exact ⟨⟨budget, hbudget, hleft⟩, houtput, hresponse, hinterrupts, hactions⟩
        · intro h
          obtain ⟨hterminal, hpending⟩ := hinspect.mpr ⟨h.response, h.interrupts⟩
          exact ⟨⟨hterminal, hpending, h.actions⟩, hinput⟩
    · rw [if_pos (sub_nonpos.mpr (not_lt.mp hleft))]
      simp only [reduceCtorEq, false_iff]
      rintro ⟨⟨budget', hsome, hleft'⟩, -⟩
      rw [hbudget] at hsome
      cases hsome
      exact hleft hleft'

end Worker

/-- In every history, for a Run whose user gave a response: the worker with an inspector that claims
the Run invokes the graph with this response exactly where nothing keeps it from it. -/
theorem resumed_run_invokes_graph {h : History Store Op Reply} (hr : system.Reachable h)
    (worker : AgentRunWorker) {userId runId : UUID} {lease : ℤ} {fresh : ℕ → Stamp}
    {response : Dict} (hresponse : lastResponse runId h.replies = some response)
    (hinspects : worker.inspects = true)
    (hclaim : (commit (.claimRun userId runId worker.workerId lease fresh) view h.cur).2 =
      .claimed (some run)) (snapshot : GraphSnapshot) (now : Timestamp) :
    worker.decide snapshot now run = .invoke (.resume response) ↔
      worker.Unblocked snapshot now run := by
  have hpayload := (claimed_carries hr hclaim).trans hresponse
  refine decide_eq_invoke_resume hinspects ?_ hpayload
  obtain ⟨s', claimed, hok, hreply⟩ := settled_reply (fun _ => by simp) hclaim
  cases hreply
  rcases claimRun_ok hok with ⟨hnone, -⟩ | ⟨⟨r, -, -, hrun⟩, -⟩
  · cases hnone
  · rw [Option.some.inj hrun]
    simp [claimValues]

/-- The user of Run 10 confirms. -/
def confirmation : Dict := [("action", .str "confirm")]

/-- Run 10 after its user answered the question 7. -/
def answeredRun : History Store Op Reply :=
  system.serial {} (waitingRun ++ [.resumeRun 1 10 7 confirmation 3 "answer" (stampsFrom 40 3)])

/-- The claim of worker `v`, which has an inspector. -/
def claimByV : Op := .claimRun 1 10 "v" 60 (stampsFrom 50 4)

/-- Run 10 as worker `v` claims it. -/
def resumedRun : AgentRun where
  userId := 1
  threadId := 14
  trigger := .automation
  idempotencyKey := "automation-run:occurrence"
  id := 10
  inputMessageId := some 11
  status := .running
  currentPhase := some "executive"
  statusLabel := some "正在理解并处理"
  resumePayload := some confirmation
  claimOwner := some "v"
  claimToken := some 50
  leaseExpiresAt := some 64
  heartbeatAt := some 4
  attemptCount := 2
  version := 5
  eventSequence := 5
  activeStartedAt := some 4
  createdAt := 0
  startedAt := some 0
  updatedAt := 4

theorem resumed_run_invokes_graph_answeredRun :
    ({ workerId := "v" } : AgentRunWorker).decide {} 4 resumedRun =
      .invoke (.resume confirmation) := by
  have hclaim : (commit claimByV (fun _ => answeredRun.cur) answeredRun.cur).2 =
      .claimed (some resumedRun) := by decide +kernel
  have hresponse : lastResponse 10 answeredRun.replies = some confirmation := by decide +kernel
  exact (resumed_run_invokes_graph (system.serial_reachable rfl _) { workerId := "v" } hresponse rfl
    hclaim {} 4).mpr
    ⟨⟨300, rfl, by decide +kernel⟩, rfl, by decide, rfl, by decide⟩

/-- The checkpoint of Run 10, which still reports the interrupt that the Run waited for. -/
def askingSnapshot : GraphSnapshot where
  interrupts :=
    [{ id := some "0123456789abcdef0123456789abcdef", value := .obj [("action_id", .str "a")] }]

/-- What worker `v` passes to `require_input`. -/
def askedAgain : Dict :=
  [("action_id", .str "a"), ("interaction_id", .str "0123456789abcdef0123456789abcdef")]

/-- The worker that claims the Run after the response sends it back to its user. -/
theorem resumed_run_waits_again :
    system.Reachable answeredRun ∧ lastResponse 10 answeredRun.replies = some confirmation ∧
      (commit claimByV (fun _ => answeredRun.cur) answeredRun.cur).2 =
        .claimed (some resumedRun) ∧
      ({ workerId := "v" } : AgentRunWorker).decide askingSnapshot 4 resumedRun =
        .requireInput askedAgain (some 0x0123456789abcdef0123456789abcdef) ∧
      (system.serial {} (waitingRun ++
        [.resumeRun 1 10 7 confirmation 3 "answer" (stampsFrom 40 3), claimByV,
          .workerTransition
            { userId := 1, runId := 10,
              action := .wait askedAgain (some 0x0123456789abcdef0123456789abcdef),
              claimOwner := some "v", claimToken := some 50 } (stampsFrom 60 5)])).cur.runs.rows.map
        (fun r => (r.status, r.interrupt)) = [(.waitingForUser, some askedAgain)] := by
  refine ⟨system.serial_reachable rfl _, ?_, ?_, ?_, ?_⟩ <;> decide +kernel

end Runtime
