import Laoshiren.Runtime.Proofs.DrivenProofs
import Laoshiren.Runtime.Proofs.EventLogProofs

/-!
# Creating a Run exactly once

A Run, its input message, its first event and its job are inserted together or not at all, and none
of them is ever taken away or changed in what links them. The unique constraint on the key of a user
makes every call but the first one find the Run that is there, or raise.
-/

namespace Runtime

open Raise RunRepository

/-- The messages that a Run was created with. -/
def inputsOf (runId : UUID) (messages : Table Message) : List Message :=
  messages.select fun m => m.runId = some runId ∧ m.role ≠ .assistant

/-- A Run has exactly one job, exactly one input message and, under the number 1, its first event. -/
def CreatedWhole (s : Store) (run : AgentRun) : Prop :=
  (∃ j, (s.durableJobs.select fun j => j.kind = .agentRun ∧ j.dedupeKey = agentRunKey run.id) = [j] ∧
    JobOf run j) ∧
  (∃ m, inputsOf run.id s.messages = [m] ∧ run.inputMessageId = some m.id) ∧
  ∃ e, (s.events.select fun e => e.runId = run.id ∧ e.sequence = 1) = [e] ∧
    e.eventType = .runQueued

/-- A user has one Run under a key at most, every Run is there as a whole, and there is no job, no
message and no event of a Run that is not there. -/
def CreationLaw (s : Store) : Prop :=
  (∀ run ∈ s.runs, ∀ run' ∈ s.runs, run'.userId = run.userId →
    run'.idempotencyKey = run.idempotencyKey → run' = run) ∧
  (∀ run ∈ s.runs, CreatedWhole s run) ∧
  (∀ j ∈ s.durableJobs, j.kind = .agentRun → ∃ run ∈ s.runs, JobOf run j) ∧
  (∀ m ∈ s.messages, ∀ runId ∈ m.runId, ∃ run ∈ s.runs, run.id = runId) ∧
  ∀ e ∈ s.events, ∃ run ∈ s.runs, run.id = e.runId

variable {s s' : Store} {view : ℕ → Store} {op : Op} {r r' run run' : AgentRun} {x x' : Facts}
  {fresh : ℕ → Stamp} {messages : List Message} {events : List RunEvent}

/-! ## What no transaction changes -/

/-- The columns that identify a Run. -/
structure SameRun (r r' : AgentRun) : Prop where
  id : r'.id = r.id
  userId : r'.userId = r.userId
  idempotencyKey : r'.idempotencyKey = r.idempotencyKey
  inputMessageId : r'.inputMessageId = r.inputMessageId

theorem SameRun.refl (r : AgentRun) : SameRun r r := ⟨rfl, rfl, rfl, rfl⟩

theorem SameRun.trans {r₁ r₂ r₃ : AgentRun} (h : SameRun r₁ r₂) (h' : SameRun r₂ r₃) :
    SameRun r₁ r₃ :=
  ⟨h'.id.trans h.id, h'.userId.trans h.userId, h'.idempotencyKey.trans h.idempotencyKey,
    h'.inputMessageId.trans h.inputMessageId⟩

theorem RowStep.sameRun (h : RowStep op r r') : SameRun r r' := by
  cases h <;> exact ⟨rfl, rfl, rfl, rfl⟩

theorem sameRun_of_rowSteps (h : Relation.ReflTransGen (RowStep op) r r') : SameRun r r' := by
  induction h with
  | refl => exact .refl r
  | tail _ hlast ih => exact ih.trans hlast.sameRun

/-- A Run with the same columns has the same job, as long as that keeps its own. -/
theorem JobOf.same {j j' : DurableJob} (h : JobOf r j) (hr : SameRun r r') (hj : SameJob j j') :
    JobOf r' j' where
  userId := (hj.userId.trans h.userId).trans hr.userId.symm
  dedupeKey := by rw [hj.dedupeKey, h.dedupeKey, hr.id]
  payload := by rw [hj.payload, h.payload, hr.id]

/-- A transaction that creates no Run moves the Runs that are there. -/
theorem Effect.sameRuns (hwf : RunsWellFormed x.runs)
    (hview : ∀ n, RunsLater (view n).facts.runs x.runs) (h : Effect view op x x')
    (hop : op.createsKey = none) : x.runs.Moves SameRun x'.runs := by
  rcases h.rowSteps hwf hview with ⟨run, -, -, hkey⟩ | hmoves
  · rw [hop] at hkey
    cases hkey
  · exact hmoves.imp fun _ _ => sameRun_of_rowSteps

theorem JobMove.sameJob {j j' : DurableJob} (h : JobMove op j j') : SameJob j j' := by
  cases h <;> exact ⟨rfl, rfl, rfl, rfl⟩

/-- A transaction that creates no Run moves the jobs that are there. -/
theorem Effect.sameJobs (h : Effect view op x x') (hop : op.createsKey = none) :
    x.durableJobs.Moves SameJob x'.durableJobs := by
  rcases h.jobMoves with ⟨run, stamp, hkey, -⟩ | hmoves
  · rw [hop] at hkey
    cases hkey
  · refine hmoves.imp fun j j' hstep => ?_
    cases hstep with
    | refl => exact .refl j
    | single hmove => exact hmove.sameJob

/-! ## Every Run is there as a whole -/

/-- The law on the facts. -/
structure CreationFits (s : Store) : Prop where
  job : ∀ r ∈ s.facts.runs, ∃ j ∈ s.durableJobs, j.kind = .agentRun ∧ JobOf r j
  jobOwned : ∀ j ∈ s.durableJobs, ∃ r ∈ s.facts.runs, JobOf r j
  input : ∀ r ∈ s.facts.runs, ∃ m, inputsOf r.id s.messages = [m] ∧ r.inputMessageId = some m.id
  queued : ∀ r ∈ s.facts.runs, ∃ e ∈ s.events,
    e.runId = r.id ∧ e.sequence = 1 ∧ e.eventType = .runQueued

theorem inputsOf_append {runId : UUID} (h : Journaled s messages events s') :
    inputsOf runId s'.messages = inputsOf runId s.messages ++
      messages.filter fun m => m.runId = some runId ∧ m.role ≠ .assistant := by
  simp only [inputsOf, Table.select, h.messages_eq, List.filter_append]

theorem mem_events_of_journaled (h : Journaled s messages events s') {e : RunEvent}
    (he : e ∈ s.events) : e ∈ s'.events := by
  rw [← Table.mem_rows, h.events_eq]
  exact List.mem_append_left _ he

namespace CreationFits

/-- A transaction that creates no Run posts replies only. -/
theorem keep (h : CreationFits s) (hj : Journaled s messages events s')
    (hmessages : ∀ m ∈ messages, m.role = .assistant)
    (hruns : s.facts.runs.Moves SameRun s'.facts.runs)
    (hjobs : s.durableJobs.Moves SameJob s'.durableJobs) : CreationFits s' where
  job r' hr' := by
    obtain ⟨r, hr, hsame⟩ := hruns.mem hr'
    obtain ⟨j, hj, hkind, hof⟩ := h.job r hr
    obtain ⟨j', hj', hsame'⟩ := hjobs.exists_mem hj
    exact ⟨j', hj', hsame'.kind.trans hkind, hof.same hsame hsame'⟩
  jobOwned j' hj' := by
    obtain ⟨j, hj, hsame'⟩ := hjobs.mem hj'
    obtain ⟨r, hr, hof⟩ := h.jobOwned j hj
    obtain ⟨r', hr', hsame⟩ := hruns.exists_mem hr
    exact ⟨r', hr', hof.same hsame hsame'⟩
  input r' hr' := by
    obtain ⟨r, hr, hsame⟩ := hruns.mem hr'
    have hnone : messages.filter (fun m => m.runId = some r.id ∧ m.role ≠ .assistant) = [] := by
      refine List.filter_eq_nil_iff.mpr fun m hm hinput => ?_
      simp only [decide_eq_true_eq] at hinput
      exact hinput.2 (hmessages m hm)
    rw [hsame.id, hsame.inputMessageId, inputsOf_append hj, hnone, List.append_nil]
    exact h.input r hr
  queued r' hr' := by
    obtain ⟨r, hr, hsame⟩ := hruns.mem hr'
    obtain ⟨e, he, hqueued⟩ := h.queued r hr
    exact ⟨e, mem_events_of_journaled hj he, by rw [hsame.id]; exact hqueued⟩

/-- The transaction that creates a Run inserts everything that belongs to it. -/
theorem create (h : CreationFits s) (howned : MessagesOwned s) {message : Message}
    {event : RunEvent} {stamp : Stamp} (hmessage : message.runId = some run.id)
    (hrole : message.role ≠ .assistant) (hinput : run.inputMessageId = some message.id)
    (hevent : event.runId = run.id ∧ event.sequence = 1 ∧ event.eventType = .runQueued)
    (hrun : s.facts.runs.insert? run = some s'.facts.runs)
    (hjob : s.durableJobs.insert? (agentRunJob run stamp) = some s'.durableJobs)
    (hj : Journaled s [message] [event] s') : CreationFits s' := by
  have hfresh : ∀ r ∈ s.facts.runs, r.id ≠ run.id := fun r hr hid =>
    Table.not_conflict_of_insert? hrun hr (.inl hid)
  constructor
  · intro r hr
    rcases (Table.mem_insert? hrun).mp hr with hr | rfl
    · obtain ⟨j, hj, hof⟩ := h.job r hr
      exact ⟨j, (Table.mem_insert? hjob).mpr (.inl hj), hof⟩
    · exact ⟨_, (Table.mem_insert? hjob).mpr (.inr rfl), rfl, .agentRunJob r stamp⟩
  · intro j hj
    rcases (Table.mem_insert? hjob).mp hj with hj | rfl
    · obtain ⟨r, hr, hof⟩ := h.jobOwned j hj
      exact ⟨r, (Table.mem_insert? hrun).mpr (.inl hr), hof⟩
    · exact ⟨run, (Table.mem_insert? hrun).mpr (.inr rfl), .agentRunJob run stamp⟩
  · intro r hr
    rw [inputsOf_append hj]
    rcases (Table.mem_insert? hrun).mp hr with hr | rfl
    · have hne := (hfresh r hr).symm
      simpa [hmessage, hne] using h.input r hr
    · have hnone : inputsOf r.id s.messages = [] := by
        refine List.filter_eq_nil_iff.mpr fun m hm hof => ?_
        simp only [decide_eq_true_eq] at hof
        obtain ⟨r', hr', hid⟩ := howned m hm r.id hof.1
        exact hfresh _ (Store.mem_facts_runs hr') hid
      exact ⟨message, by simp [hnone, hmessage, hrole], hinput⟩
  · intro r hr
    rcases (Table.mem_insert? hrun).mp hr with hr | rfl
    · obtain ⟨e, he, hqueued⟩ := h.queued r hr
      exact ⟨e, mem_events_of_journaled hj he, hqueued⟩
    · refine ⟨event, ?_, hevent⟩
      rw [← Table.mem_rows, hj.events_eq]
      exact List.mem_append_right _ (.head _)

/-- Every transaction keeps the law. -/
theorem step (h : CreationFits s) (howned : MessagesOwned s) (hwf : RunsWellFormed s.facts.runs)
    (hview : ∀ n, RunsLater (view n).facts.runs s.facts.runs) :
    CreationFits (commit op view s).1 := by
  have heffect := commit_effect op view s
  have hruns := heffect.sameRuns hwf hview
  have hjobs := heffect.sameJobs
  have hlog := commit_logEffect op view s
  generalize (commit op view s).1 = s' at hlog hruns hjobs
  cases hlog with
  | idle => exact h
  | quiet hop _ hj =>
    have hkey := (Op.posts_eq_false.mp hop).2
    exact h.keep hj (by simp) (hruns hkey) (hjobs hkey)
  | emit _ hj => exact h.keep hj (by simp) (hruns rfl) (hjobs rfl)
  | create _ _ hmessage hrole hinput hevent hrun hjob hj =>
    exact h.create howned hmessage hrole hinput hevent hrun hjob hj
  | complete _ _ _ _ hrole _ _ _ _ hj =>
    exact h.keep hj (by simp [hrole]) (hruns rfl) (hjobs rfl)

/-- The law for the Runs of a state. -/
theorem creationLaw (h : CreationFits s) (howned : MessagesOwned s) (hfit : EventsFit s) :
    CreationLaw s := by
  refine ⟨fun run hrun run' hrun' huser hkey =>
      Table.eq_of_conflict hrun' hrun (.inr ⟨huser, hkey⟩), fun run hrun => ⟨?_, ?_, ?_⟩,
    fun j hj _ => ?_, howned, hfit.owned⟩
  · obtain ⟨j, hj, hkind, hof⟩ := h.job _ (Store.mem_facts_runs hrun)
    have hof' : JobOf run j := ⟨hof.userId, hof.dedupeKey, hof.payload⟩
    refine ⟨j, Table.select_eq_singleton hj ?_ (.inl rfl) fun j' hj' hp => ?_, hof'⟩
    · simp [hkind, hof'.dedupeKey]
    · -- the other job has an owner under the same key, which is this Run
      simp only [decide_eq_true_eq] at hp
      obtain ⟨r, hr, hother⟩ := h.jobOwned j' hj'
      have hid : r.id = run.forgetEvents.id :=
        agentRunKey_injective (hother.dedupeKey.symm.trans hp.2)
      rw [run_ext hr (Store.mem_facts_runs hrun) hid] at hother
      exact hother.job_ext hj' hj hof
  · obtain ⟨m, hm, hinput⟩ := h.input _ (Store.mem_facts_runs hrun)
    exact ⟨m, hm, hinput⟩
  · obtain ⟨e, he, hrunId, hsequence, htype⟩ := h.queued _ (Store.mem_facts_runs hrun)
    refine ⟨e, Table.select_eq_singleton he ?_ (.inl rfl) fun e' he' hp => ?_, htype⟩
    · simp only [decide_eq_true_eq]
      exact ⟨hrunId, hsequence⟩
    · simp only [decide_eq_true_eq] at hp
      exact Table.eq_of_conflict he' he (.inr ⟨hp.1.trans hrunId.symm, hp.2.trans hsequence.symm⟩)
  · obtain ⟨r, hr, hof⟩ := h.jobOwned j hj
    obtain ⟨run, hrun, rfl⟩ := Store.exists_of_mem_facts_runs hr
    exact ⟨run, hrun, hof.userId, hof.dedupeKey, hof.payload⟩

end CreationFits

/-! ## Every history -/

/-- What identifies a Run stays from a state to every later one. -/
theorem sameRuns_stable : Program.Stable system (fun _ _ _ => True)
    (fun s => RunsWellFormed s.facts.runs)
    (fun v s => RunsLater v.facts.runs s.facts.runs ∧
      v.facts.runs.Evolves AgentRun.id SameRun s.facts.runs) where
  init := runs_stable.init
  refl s := ⟨.refl _, Table.Evolves.refl SameRun.refl _⟩
  trans u v w h h' := ⟨h.1.trans h'.1, Table.Evolves.trans (fun _ _ _ => .trans) h.2 h'.2⟩
  step op view s hwf hviews _ := by
    have hview := fun n => (hviews n).2.1
    have heffect := commit_effect op view s
    refine ⟨(heffect.runsKept hwf hview).1, (heffect.runsKept hwf hview).2, ?_⟩
    rcases heffect.rowSteps hwf hview with ⟨run, -, hins, -⟩ | hmoves
    · exact .insert? SameRun.refl hins
    · refine hmoves.evolves fun r r' hsteps => ?_
      have hsame := sameRun_of_rowSteps hsteps
      exact ⟨hsame.id, hsame⟩

theorem creation_stable : Program.Stable system (fun _ _ _ => True)
    (fun s => (((RunsWellFormed s.facts.runs ∧ EventsFit s) ∧ MessagesOwned s) ∧
      RunsWellFormed s.facts.runs) ∧ CreationFits s)
    (fun v s => (RunsLater v.facts.runs s.facts.runs ∧ v.events.rows <+: s.events.rows) ∧
      RunsLater v.facts.runs s.facts.runs ∧
        v.facts.runs.Evolves AgentRun.id SameRun s.facts.runs) := by
  refine (logs_stable.and sameRuns_stable).strengthen CreationFits ?_ ?_
  · rintro s rfl
    exact ⟨fun r hr => absurd hr Table.not_mem_empty, fun j hj => absurd hj Table.not_mem_empty,
      fun r hr => absurd hr Table.not_mem_empty, fun r hr => absurd hr Table.not_mem_empty⟩
  · intro op view s hinv h hviews _
    exact h.step hinv.1.2 hinv.2 fun n => (hviews n).2.2.2.1

/-- What a call that creates a Run under a key answers: the Run that it found, and then it wrote
nothing, or the one that it inserted. -/
def FoundOrInserted (view : ℕ → Store) (s s' : Store) (userId : UUID) (key : String)
    (run : AgentRun) : Prop :=
  run.userId = userId ∧ run.idempotencyKey = key ∧
    ((s' = s ∧ run ∈ (view 0).runs) ∨ s.facts.runs.insert? run = some s'.facts.runs)

theorem createUserRun_answer {c : CreateUserRun} {budget : Dict} {sourceKnown : UUID → Bool}
    (h : createUserRun c budget sourceKnown fresh view s = .ok (s', run)) :
    FoundOrInserted view s s' c.userId c.idempotencyKey run := by
  simp only [createUserRun, bind_eq_ok, ensure_eq_ok] at h
  obtain ⟨_, _, _, _, h⟩ := h
  split at h
  case h_1 hfound =>
    obtain ⟨rfl, rfl⟩ := Prod.mk.inj (pure_eq_ok.mp h)
    obtain ⟨hmem, hkey⟩ := Table.get_eq_some hfound
    simp only [decide_eq_true_eq] at hkey
    exact ⟨hkey.1, hkey.2, .inl ⟨rfl, hmem⟩⟩
  case h_2 =>
    simp only [bind_eq_ok, ensure_eq_ok, pure_eq_ok, Prod.mk.injEq] at h
    obtain ⟨_, _, _, _, s₁, hnew, rfl, rfl⟩ := h
    obtain ⟨_, _, hins, -, hs'⟩ := commitNewRun_facts (by exact rfl) hnew
    exact ⟨rfl, rfl, .inr (hins.trans (congrArg (fun x => some x.runs) hs').symm)⟩

theorem createAutomationRun_answer {c : CreateAutomationRun} {budget : Dict}
    (h : createAutomationRun c budget fresh view s = .ok (s', run)) :
    FoundOrInserted view s s' c.userId ("automation-run:" ++ c.occurrenceKey) run := by
  simp only [createAutomationRun, bind_eq_ok, ensure_eq_ok] at h
  obtain ⟨_, _, _, _, h⟩ := h
  split at h
  case h_1 hfound =>
    obtain ⟨rfl, rfl⟩ := Prod.mk.inj (pure_eq_ok.mp h)
    obtain ⟨hmem, hkey⟩ := Table.get_eq_some hfound
    simp only [decide_eq_true_eq] at hkey
    exact ⟨hkey.1, hkey.2, .inl ⟨rfl, hmem⟩⟩
  case h_2 =>
    simp only [bind_eq_ok, pure_eq_ok, Prod.exists, Prod.mk.injEq] at h
    obtain ⟨s₁, threadId, hthread, s₂, hnew, rfl, rfl⟩ := h
    obtain ⟨_, _, hins, -, hs'⟩ := commitNewRun_facts (by exact rfl) hnew
    rw [automationThread_facts hthread] at hins
    exact ⟨rfl, rfl, .inr (hins.trans (congrArg (fun x => some x.runs) hs').symm)⟩

/-- A call that creates a Run and returned found it, or inserted it. -/
theorem commit_creates {userId : UUID} {key : String} (hop : op.createsKey = some (userId, key))
    (hreply : (commit op view s).2 = .run run) :
    FoundOrInserted view s (commit op view s).1 userId key run := by
  cases op with
  | createUserRun c budget sourceKnown fresh =>
    obtain ⟨rfl, rfl⟩ := Prod.mk.inj (Option.some.inj hop)
    obtain ⟨s', run', hok, hrun⟩ := settled_reply (fun _ => by simp) hreply
    obtain rfl := Reply.run.inj hrun
    have hcommit : (commit (.createUserRun c budget sourceKnown fresh) view s).1 = s' := by
      simp only [commit, hok, settled]
    rw [hcommit]
    exact createUserRun_answer hok
  | createAutomationRun c budget fresh =>
    obtain ⟨rfl, rfl⟩ := Prod.mk.inj (Option.some.inj hop)
    obtain ⟨s', run', hok, hrun⟩ := settled_reply (fun _ => by simp) hreply
    obtain rfl := Reply.run.inj hrun
    have hcommit : (commit (.createAutomationRun c budget fresh) view s).1 = s' := by
      simp only [commit, hok, settled]
    rw [hcommit]
    exact createAutomationRun_answer hok
  | _ => cases hop

/-- The Runs that the answers so far were about are there. -/
def AnswersThere (replies : List (Op × Reply)) (s : Store) : Prop :=
  ∀ op run userId key, (op, Reply.run run) ∈ replies → op.createsKey = some (userId, key) →
    ∃ run' ∈ s.runs, run'.id = run.id ∧ run'.userId = userId ∧ run'.idempotencyKey = key

/-- A Run is found again in every later state. -/
theorem exists_same {v : Store} (hsame : v.facts.runs.Evolves AgentRun.id SameRun s.facts.runs)
    (hrun : run ∈ v.facts.runs) : ∃ run' ∈ s.runs, run'.id = run.id ∧ run'.userId = run.userId ∧
      run'.idempotencyKey = run.idempotencyKey := by
  obtain ⟨r, hr, -, hrow⟩ := hsame run hrun
  obtain ⟨run', hrun', rfl⟩ := Store.exists_of_mem_facts_runs hr
  exact ⟨run', hrun', hrow.id, hrow.userId, hrow.idempotencyKey⟩

theorem answers_there {h : History Store Op Reply} (hr : system.Reachable h) :
    AnswersThere h.replies h.cur := by
  refine sameRuns_stable.log_induction AnswersThere (fun _ _ _ _ _ _ h => absurd h List.not_mem_nil)
    ?_ hr
  intro op view s replies hwf hviews _ hthere op' run userId key hmem hkey
  have hlater := (sameRuns_stable.step op view s hwf hviews trivial).2.2
  rcases List.mem_cons.mp hmem with heq | hmem
  · obtain ⟨rfl, hreply⟩ := Prod.mk.inj heq
    obtain ⟨rfl, rfl, hfound | hins⟩ := commit_creates hkey hreply.symm
    · obtain ⟨hstate, hread⟩ := hfound
      have hsame : (system.commit op' view s).1 = s := hstate
      have hthere' := exists_same (hviews 0).2.2 (Store.mem_facts_runs hread)
      rw [hsame]
      exact hthere'
    · obtain ⟨run', hrun', hfacts⟩ :=
        Store.exists_of_mem_facts_runs ((Table.mem_insert? hins).mpr (.inr rfl))
      exact ⟨run', hrun', (congrArg AgentRun.id hfacts :), (congrArg AgentRun.userId hfacts :),
        (congrArg AgentRun.idempotencyKey hfacts :)⟩
  · obtain ⟨run', hrun', hid, huser, hkey'⟩ := hthere op' run userId key hmem hkey
    obtain ⟨run'', hrun'', hid', huser', hkey''⟩ := exists_same hlater (Store.mem_facts_runs hrun')
    exact ⟨run'', hrun'', hid'.trans hid, huser'.trans huser, hkey''.trans hkey'⟩

/-- In every history: a user has one Run under a key at most, there as a whole; after a call that
returned it is there; and from then on every call with that key that returns answers with that Run
and writes nothing. -/
theorem run_created_once {h : History Store Op Reply} (hr : system.Reachable h) :
    (∀ s ∈ h.states, CreationLaw s) ∧
    AnswersThere h.replies h.cur ∧
    ∀ (op : Op) (view : ℕ → Store) (userId : UUID) (key : String) (run known : AgentRun),
      (∀ n, view n ∈ h.states) → op.createsKey = some (userId, key) →
      (commit op view h.cur).2 = .run run → known ∈ h.cur.runs → known.userId = userId →
      known.idempotencyKey = key → run.id = known.id ∧ (commit op view h.cur).1 = h.cur := by
  refine ⟨fun s hs => ?_, answers_there hr, ?_⟩
  · have hinv := creation_stable.inv_mem hr hs
    exact hinv.2.creationLaw hinv.1.1.2 hinv.1.1.1.2
  · rintro op view userId key run known hview hkey hreply hknown rfl rfl
    obtain ⟨huser, hkey', ⟨hstate, hread⟩ | hins⟩ := commit_creates hkey hreply
    · obtain ⟨run', hrun', hid, huser', hkey''⟩ := exists_same
        (sameRuns_stable.rel_mem hr (hview 0)).2 (Store.mem_facts_runs hread)
      have hone : run' = known := Table.eq_of_conflict hrun' hknown
        (.inr ⟨huser'.trans huser, hkey''.trans hkey'⟩)
      have hid' : run'.id = run.id := hid
      exact ⟨by rw [← hid', hone], hstate⟩
    · exact absurd (.inr ⟨huser.symm, hkey'.symm⟩)
        (Table.not_conflict_of_insert? hins (Store.mem_facts_runs hknown))

/-- A user creates a Run, and sends the request once more. -/
def createdTwice : List Op :=
  [.createThread 1 "title" "thread" none false ⟨5, 0⟩,
    .createUserRun ⟨1, 5, "content", [], "key"⟩ [] (fun _ => false) (stampsFrom 10 0),
    .createUserRun ⟨1, 5, "content", [], "key"⟩ [] (fun _ => false) (stampsFrom 20 0)]

theorem run_created_once_createdTwice :
    (∀ s ∈ (system.serial {} createdTwice).states, CreationLaw s) ∧
      (system.serial {} createdTwice).cur.runs.rows.map AgentRun.id = [10] ∧
      (system.serial {} createdTwice).cur.durableJobs.rows.length = 1 :=
  ⟨(run_created_once (system.serial_reachable rfl _)).1, by decide, by decide⟩

end Runtime
