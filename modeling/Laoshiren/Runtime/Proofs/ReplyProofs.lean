import Laoshiren.Runtime.Proofs.EventLogProofs

/-!
# Replies exactly once

The reply to the user, the completion event and the COMPLETED status of a Run are written together by
the one transaction that finds the Run RUNNING under the version it read, and nothing leaves
COMPLETED. Every other transaction posts neither a reply nor a completion.
-/

namespace Runtime

open RunRepository

variable {s s' : Store} {view : ℕ → Store} {op : Op} {r r' run run' : AgentRun} {x x' : Facts}
  {messages : List Message} {events : List RunEvent}

/-! ## Steps that complete no Run -/

/-- The Run is completed after the step if and only if it was before, with the same reply. -/
structure ReplyKept (r r' : AgentRun) : Prop where
  id : r'.id = r.id
  status : r'.status = .completed ↔ r.status = .completed
  final : r.status = .completed → r'.finalMessageId = r.finalMessageId

theorem ReplyKept.refl (r : AgentRun) : ReplyKept r r := ⟨rfl, .rfl, fun _ => rfl⟩

theorem ReplyKept.trans {r₁ r₂ r₃ : AgentRun} (h : ReplyKept r₁ r₂) (h' : ReplyKept r₂ r₃) :
    ReplyKept r₁ r₃ :=
  ⟨h'.id.trans h.id, h'.status.trans h.status, fun hst =>
    (h'.final (h.status.mpr hst)).trans (h.final hst)⟩

/-- A Run that is not over before a method, and not completed after it. -/
theorem ReplyKept.of_moved (hcore : r.core = run.core) (h : AgentRun.Moved run run')
    (hstatus : run'.status ≠ .completed) : ReplyKept r (updateValues run' r) := by
  have hsame : r.status = run.status := (congrArg AgentRun.status hcore :)
  have hrow : r.status ≠ .completed := by
    intro hcompleted
    have hlive := h.live
    rw [← hsame, hcompleted] at hlive
    cases hlive
  exact ⟨rfl, iff_of_false hstatus hrow, fun hst => absurd hst hrow⟩

theorem Advances.not_completed (hop : op.completes = false) (h : Advances op run run') :
    run'.status ≠ .completed := by
  cases h with
  | start _ h =>
    obtain ⟨-, rfl⟩ := AgentRun.start_ok h
    simp
  | @complete c _ _ _ _ haction h =>
    obtain ⟨userId, runId, action, owner, token⟩ := c
    obtain rfl : action = _ := haction
    cases hop
  | fail _ _ _ _ h =>
    obtain ⟨-, ms, rfl⟩ := AgentRun.fail_ok h
    simp
  | accept h _ =>
    obtain ⟨hstatus, rfl | rfl⟩ := AgentRun.acceptTerminalOutput_ok h <;> simp [hstatus]

theorem RowStep.replyKept (hop : op.completes = false) (h : RowStep op r r') : ReplyKept r r' := by
  cases h with
  | renewed hp => exact ⟨rfl, .rfl, fun _ => rfl⟩
  | claimed hp =>
    have hrow : r.status ≠ .completed := by
      rcases status_of_claimWhere hp with hstatus | hstatus <;> simp [hstatus]
    exact ⟨rfl, iff_of_false (by simp [claimValues]) hrow, fun hst => absurd hst hrow⟩
  | recovered hcore h =>
    refine .of_moved hcore (.recover h) ?_
    obtain ⟨-, ms, rfl⟩ := AgentRun.recoverAfterCrash_ok h
    simp
  | advanced hcore h => exact .of_moved hcore h.moved (h.not_completed hop)
  | waited hcore h =>
    refine .of_moved hcore (.wait h) ?_
    obtain ⟨-, ms, rfl⟩ := AgentRun.waitForUser_ok h
    simp
  | resumed hcore h =>
    refine .of_moved hcore (.resume h) ?_
    obtain ⟨-, -, rfl⟩ := AgentRun.resume_ok h
    simp
  | cancelled hcore h =>
    refine .of_moved hcore (.cancel h) ?_
    obtain ⟨-, ms, rfl⟩ := AgentRun.cancel_ok h
    simp

/-- Any number of steps of one transaction that completes no Run. -/
theorem replyKept_of_rowSteps (hop : op.completes = false)
    (h : Relation.ReflTransGen (RowStep op) r r') : ReplyKept r r' := by
  induction h with
  | refl => exact .refl r
  | tail _ hlast ih => exact ih.trans (hlast.replyKept hop)

/-! ## What is posted -/

theorem repliesOf_append {runId : UUID} (h : Journaled s messages events s') :
    repliesOf runId s'.messages = repliesOf runId s.messages ++
      messages.filter fun m => m.runId = some runId ∧ m.role = .assistant := by
  simp only [repliesOf, Table.select, h.messages_eq, List.filter_append]

theorem completionsOf_append {runId : UUID} (h : Journaled s messages events s') :
    completionsOf runId s'.events = completionsOf runId s.events ++
      events.filter fun e => e.runId = runId ∧ e.eventType = .runCompleted := by
  simp only [completionsOf, Table.select, h.events_eq, List.filter_append]

/-- The law on the facts. -/
structure RepliesFit (s : Store) : Prop where
  completed : ∀ r ∈ s.facts.runs, r.status = .completed →
    (∃ m, repliesOf r.id s.messages = [m] ∧ r.finalMessageId = some m.id) ∧
      ∃ e, completionsOf r.id s.events = [e]
  unanswered : ∀ r ∈ s.facts.runs, r.status ≠ .completed →
    repliesOf r.id s.messages = [] ∧ completionsOf r.id s.events = []

/-- A Run that is not there has posted nothing. -/
theorem nothing_posted (howned : MessagesOwned s) (hfit : EventsFit s) {runId : UUID}
    (hnone : ∀ r ∈ s.facts.runs, r.id ≠ runId) :
    repliesOf runId s.messages = [] ∧ completionsOf runId s.events = [] := by
  constructor
  · refine List.filter_eq_nil_iff.mpr fun m hm hreply => ?_
    simp only [decide_eq_true_eq] at hreply
    obtain ⟨r, hr, hid⟩ := howned m hm runId hreply.1
    exact hnone _ (Store.mem_facts_runs hr) hid
  · refine List.filter_eq_nil_iff.mpr fun e he hcompletion => ?_
    simp only [decide_eq_true_eq] at hcompletion
    obtain ⟨r, hr, hid⟩ := hfit.owned e he
    exact hnone _ (Store.mem_facts_runs hr) (hid.trans hcompletion.1)

/-- Posts that are neither replies nor completions. -/
theorem RepliesFit.quiet (h : RepliesFit s) (howned : MessagesOwned s) (hfit : EventsFit s)
    (hj : Journaled s messages events s') (hmessages : ∀ m ∈ messages, m.role ≠ .assistant)
    (hevents : ∀ e ∈ events, e.eventType ≠ .runCompleted)
    (hruns : (∃ run : AgentRun, run.IsNew ∧ s.facts.runs.insert? run = some s'.facts.runs) ∨
      s.facts.runs.Moves ReplyKept s'.facts.runs) : RepliesFit s' := by
  have hreplies : ∀ runId, repliesOf runId s'.messages = repliesOf runId s.messages := by
    intro runId
    rw [repliesOf_append hj, List.filter_eq_nil_iff.mpr, List.append_nil]
    intro m hm hreply
    simp only [decide_eq_true_eq] at hreply
    exact hmessages m hm hreply.2
  have hcompletions : ∀ runId, completionsOf runId s'.events = completionsOf runId s.events := by
    intro runId
    rw [completionsOf_append hj, List.filter_eq_nil_iff.mpr, List.append_nil]
    intro e he hcompletion
    simp only [decide_eq_true_eq] at hcompletion
    exact hevents e he hcompletion.2
  -- a row was there before, with the same reply, or is new and has posted nothing
  have hrow : ∀ r' ∈ s'.facts.runs, (∃ r ∈ s.facts.runs, ReplyKept r r') ∨
      r'.status ≠ .completed ∧ ∀ r ∈ s.facts.runs, r.id ≠ r'.id := by
    intro r' hr'
    rcases hruns with ⟨run, hnew, hins⟩ | hmoves
    · rcases (Table.mem_insert? hins).mp hr' with hr | rfl
      · exact .inl ⟨r', hr, .refl r'⟩
      · refine .inr ⟨?_, fun r hr hid => Table.not_conflict_of_insert? hins hr (.inl hid)⟩
        rw [hnew]
        simp
    · exact .inl (hmoves.mem hr')
  constructor
  · intro r' hr' hstatus
    rcases hrow r' hr' with ⟨r, hr, hkept⟩ | ⟨hopen, -⟩
    · have hcompleted := hkept.status.mp hstatus
      rw [hreplies, hcompletions, hkept.id, hkept.final hcompleted]
      exact h.completed r hr hcompleted
    · exact absurd hstatus hopen
  · intro r' hr' hstatus
    rw [hreplies, hcompletions]
    rcases hrow r' hr' with ⟨r, hr, hkept⟩ | ⟨-, hnone⟩
    · rw [hkept.id]
      exact h.unanswered r hr (mt hkept.status.mpr hstatus)
    · exact nothing_posted howned hfit hnone

/-- The reply that completes a Run. -/
theorem RepliesFit.complete (h : RepliesFit s) {v : Store}
    (hview : RunsLater v.facts.runs s.facts.runs) {now : Timestamp} {message : Message}
    {event event' : RunEvent} (hread : run ∈ v.runs)
    (hmethod : run.complete now message.id = .ok run') (hmessage : message.runId = some run.id)
    (hrole : message.role = .assistant) (hevent : event.eventType ≠ .runCompleted)
    (hevent' : event'.runId = run.id ∧ event'.eventType = .runCompleted)
    (hversion : (update run' run.version s.facts.runs).2 = true)
    (hruns : s'.facts.runs = (update run' run.version s.facts.runs).1)
    (hj : Journaled s [message] [event, event'] s') : RepliesFit s' := by
  have hmoved : AgentRun.Moved run run' := .complete hmethod
  obtain ⟨hstatus, ms, hrun'⟩ := AgentRun.complete_ok hmethod
  obtain ⟨row, hrow, hcore, hwhere⟩ := exists_row_of_update hview hread hmoved.counts.1 hversion
  have hrowid : row.id = run.id := (congrArg AgentRun.id hcore :)
  have hrowstatus : row.status = run.status := (congrArg AgentRun.status hcore :)
  -- the Run has replied to nothing so far
  obtain ⟨hnoreply, hnocompletion⟩ :=
    h.unanswered row hrow (by rw [hrowstatus, hstatus]; simp)
  have hreplies : repliesOf run.id s'.messages = [message] := by
    rw [repliesOf_append hj, ← hrowid, hnoreply]
    simp [hmessage, hrole, hrowid]
  have hcompletions : completionsOf run.id s'.events = [event'] := by
    rw [completionsOf_append hj, ← hrowid, hnocompletion]
    simp [hevent, hevent', hrowid]
  have hothers : ∀ runId, runId ≠ run.id → repliesOf runId s'.messages = repliesOf runId s.messages ∧
      completionsOf runId s'.events = completionsOf runId s.events := by
    intro runId hne
    rw [repliesOf_append hj, completionsOf_append hj]
    simp [hmessage, hevent, hevent', hne.symm]
  have hrows : ∀ r' ∈ s'.facts.runs, r' = updateValues run' row ∨ (r' ∈ s.facts.runs ∧ r'.id ≠ run.id) := by
    intro r' hr'
    rw [hruns] at hr'
    rcases mem_updated hr' with ⟨r, hr, hp, rfl⟩ | ⟨hr, hp⟩
    · rw [run_ext hr hrow ((updateWhere_iff.mp hp).1.trans (updateWhere_iff.mp hwhere).1.symm)]
      exact .inl rfl
    · refine .inr ⟨hr, fun hid => ?_⟩
      rw [run_ext hr hrow (hid.trans hrowid.symm), hwhere] at hp
      cases hp
  constructor
  · intro r' hr' hcompleted
    rcases hrows r' hr' with rfl | ⟨hr, hne⟩
    · have hid : (updateValues run' row).id = run.id := hrowid
      rw [hid, hreplies, hcompletions]
      refine ⟨⟨message, rfl, ?_⟩, event', rfl⟩
      rw [hrun']
      rfl
    · rw [(hothers _ hne).1, (hothers _ hne).2]
      exact h.completed r' hr hcompleted
  · intro r' hr' hopen
    rcases hrows r' hr' with rfl | ⟨hr, hne⟩
    · refine absurd ?_ hopen
      rw [hrun']
      rfl
    · rw [(hothers _ hne).1, (hothers _ hne).2]
      exact h.unanswered r' hr hopen

/-! ## Every history -/

/-- A transaction keeps the law, if the events that are emitted on their own are those of tools. -/
theorem RepliesFit.step (h : RepliesFit s) (howned : MessagesOwned s) (hfit : EventsFit s)
    (hwf : RunsWellFormed s.facts.runs)
    (hview : ∀ n, RunsLater (view n).facts.runs s.facts.runs) (hsink : op.emitsFromSink) :
    RepliesFit (commit op view s).1 := by
  have hruns : op.completes = false →
      (∃ run : AgentRun, run.IsNew ∧
        s.facts.runs.insert? run = some (commit op view s).1.facts.runs) ∨
      s.facts.runs.Moves ReplyKept (commit op view s).1.facts.runs := fun hop =>
    ((commit_effect op view s).rowSteps hwf hview).imp
      (fun ⟨run, hnew, hins, _⟩ => ⟨run, hnew, hins⟩)
      fun hmoves => hmoves.imp fun _ _ hsteps => replyKept_of_rowSteps hop hsteps
  have hlog := commit_logEffect op view s
  generalize (commit op view s).1 = s' at hlog hruns
  cases hlog with
  | idle => exact h
  | quiet hop hevents hj =>
    exact h.quiet howned hfit hj (by simp) hevents (hruns (Op.posts_eq_false.mp hop).1)
  | emit htype hj =>
    refine h.quiet howned hfit hj (by simp) (fun e he => ?_) (hruns rfl)
    obtain rfl := List.mem_singleton.mp he
    rw [htype]
    rcases hsink _ _ _ _ _ rfl with ⟨_, _, hop⟩ | ⟨_, _, status, _, hop⟩
    · cases hop
      simp
    · simp only [RuntimeAgentEventSink.toolFinished, Op.emitEvent.injEq] at hop
      rw [hop.2.2.1]
      split <;> simp
  | create hop hnew hmessage hrole hinput hevent hrun hjob hj =>
    refine h.quiet howned hfit hj (fun m hm => ?_) (fun e he => ?_) (.inl ⟨_, hnew, hrun⟩)
    · obtain rfl := List.mem_singleton.mp hm
      exact hrole
    · obtain rfl := List.mem_singleton.mp he
      rw [hevent.2.2]
      simp
  | complete haction hread hmethod hmessage hrole hevent hevent' hversion hruns' hj =>
    exact h.complete (hview 0) hread hmethod hmessage hrole hevent hevent' hversion hruns' hj

theorem replies_stable : Program.Stable system (fun op _ _ => op.emitsFromSink)
    (fun s => ((RunsWellFormed s.facts.runs ∧ EventsFit s) ∧ MessagesOwned s) ∧ RepliesFit s)
    (fun v s => RunsLater v.facts.runs s.facts.runs ∧ v.events.rows <+: s.events.rows) := by
  refine (logs_stable.restrict fun _ _ _ _ => trivial).strengthen RepliesFit ?_ ?_
  · rintro s rfl
    exact ⟨fun r hr => absurd hr Table.not_mem_empty, fun r hr => absurd hr Table.not_mem_empty⟩
  · intro op view s hinv h hviews hsink
    exact h.step hinv.2 hinv.1.2 hinv.1.1 (fun n => (hviews n).2.2.1) hsink

/-- In every history whose single events are those of the event sink: a COMPLETED Run has exactly one
reply, the one that it names, and exactly one completion event, and any other Run has neither. -/
theorem completed_run_replied_once {h : History Store Op Reply}
    (hr : system.ReachableIf (fun op _ _ => op.emitsFromSink) h) :
    ∀ s ∈ h.states, RepliedOnce s := by
  intro s hs run hrun
  have hfit := (replies_stable.inv_mem hr hs).2
  have hcompleted := hfit.completed _ (Store.mem_facts_runs hrun)
  have hunanswered := hfit.unanswered _ (Store.mem_facts_runs hrun)
  exact ⟨hcompleted, hunanswered⟩

/-- Worker `w` accepts its output twice and completes Run 10 twice. -/
def completedRun : List Op :=
  let output : Dict := [("final_response", .str "done")]
  let complete : WorkerCall :=
    { userId := 1, runId := 10, action := .complete "done", claimOwner := some "w",
      claimToken := some 20 }
  claimedRun ++
    [RuntimeAgentEventSink.toolStarted 1 10 "a" "search_web" (stampsFrom 30 1 0),
      .acceptTerminalOutput 1 10 output "w" 20 2, .acceptTerminalOutput 1 10 output "w" 20 3,
      .workerTransition complete (stampsFrom 40 4), .workerTransition complete (stampsFrom 50 5)]

theorem emitsFromSink_completedRun : ∀ op ∈ completedRun, op.emitsFromSink := by
  intro op hop userId runId eventType data stamp heq
  subst heq
  simp only [completedRun, claimedRun, List.cons_append, List.nil_append, List.mem_cons,
    List.not_mem_nil, or_false, reduceCtorEq, false_or] at hop
  rw [hop]
  cases hop
  exact .inl ⟨_, _, rfl⟩

theorem completed_run_replied_once_completedRun :
    (∀ s ∈ (system.serial {} completedRun).states, RepliedOnce s) ∧
      (system.serial {} completedRun).cur.runs.rows.map AgentRun.status = [.completed] ∧
      (repliesOf 10 (system.serial {} completedRun).cur.messages).length = 1 :=
  ⟨completed_run_replied_once (system.serial_reachableIf rfl _
      (system.serialMeets_of_forall (fun op hop _ _ => emitsFromSink_completedRun op hop) _)),
    by decide, by decide⟩

end Runtime
