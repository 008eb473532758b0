import Laoshiren.Runtime.Effects
import Laoshiren.Runtime.Proofs.StoreProofs

/-!
# Every transaction is an effect

`commit_effect`: what a transaction makes of the facts of a store is the effect of that transaction.
The invariants of the Runtime are proved from the effects and never unfold a transaction again.
-/

namespace Runtime

open Raise

/-! ## The facts after a write -/

/-- A write that leaves the event counters aside acts on the facts as on the store. -/
theorem map_forgetEvents_update (p : AgentRun → Bool) (f : AgentRun → AgentRun)
    (hf : Table.Keeps p f) {t : Table AgentRun} (hp : ∀ r, p r.forgetEvents = p r)
    (hcomm : ∀ r, (f r).forgetEvents = f r.forgetEvents) :
    (t.update p f hf).map AgentRun.forgetEvents forgetEvents_neutral =
      (t.map AgentRun.forgetEvents forgetEvents_neutral).update p f hf :=
  Table.map_update hp hcomm

theorem facts_nextSequence (runId : UUID) (t : Table AgentRun) :
    (RunRepository.nextSequence runId t).1.map AgentRun.forgetEvents forgetEvents_neutral =
      t.map AgentRun.forgetEvents forgetEvents_neutral := by
  refine Table.ext_rows ?_
  simp only [RunRepository.nextSequence, Table.map, Table.update, List.map_map]
  refine List.map_congr_left fun r _ => ?_
  simp only [Function.comp, Table.updateRow]
  split <;> rfl

namespace Store

variable {s s' : Store} {run : AgentRun}

theorem facts_appendEvent {runId : UUID} {eventType : RunEventType} {data : Dict} {stamp : Stamp}
    {event : RunEvent} (h : s.appendEvent runId eventType data stamp = .ok (s', event)) :
    s'.facts = s.facts := by
  obtain ⟨_, _, _, _, _, rfl⟩ := appendEvent_ok h
  simp only [facts, facts_nextSequence]

theorem facts_addMessage {message : Message} (h : s.addMessage message = .ok s') :
    s'.facts = s.facts := by
  obtain ⟨_, _, _, rfl⟩ := addMessage_ok h
  rfl

theorem facts_recordOperation {operation : RunOperation}
    (h : s.recordOperation operation = .ok s') : s'.facts = s.facts := by
  obtain ⟨_, _, rfl⟩ := recordOperation_ok h
  rfl

theorem facts_addRun (hnew : run.IsNew) (h : s.addRun run = .ok s') :
    ∃ runs, s.facts.runs.insert? run = some runs ∧ s'.facts = { s.facts with runs } := by
  obtain ⟨runs, hins, rfl⟩ := addRun_ok h
  refine ⟨_, ?_, rfl⟩
  have hrow : (s.runs.map AgentRun.forgetEvents forgetEvents_neutral).insert? _ =
      some (runs.map AgentRun.forgetEvents forgetEvents_neutral) := Table.insert?_map hins
  rw [hnew] at hrow ⊢
  exact hrow

theorem facts_addInteraction {interaction : RunInteraction}
    (h : s.addInteraction interaction = .ok s') :
    ∃ interactions, s.facts.interactions.insert? interaction = some interactions ∧
      s'.facts = { s.facts with interactions } := by
  obtain ⟨interactions, hins, rfl⟩ := addInteraction_ok h
  exact ⟨interactions, hins, rfl⟩

theorem facts_addJob {job : DurableJob} (h : s.addJob job = .ok s') :
    ∃ durableJobs, s.facts.durableJobs.insert? job = some durableJobs ∧
      s'.facts = { s.facts with durableJobs } := by
  obtain ⟨durableJobs, hins, rfl⟩ := addJob_ok h
  exact ⟨durableJobs, hins, rfl⟩

/-- The update of a Run by its version sees the facts only. -/
theorem facts_update (run : AgentRun) (v : ℕ) (t : Table AgentRun) :
    (RunRepository.update run v t).1.map AgentRun.forgetEvents forgetEvents_neutral =
        (RunRepository.update run v (t.map AgentRun.forgetEvents forgetEvents_neutral)).1 ∧
      (RunRepository.update run v t).2 =
        (RunRepository.update run v (t.map AgentRun.forgetEvents forgetEvents_neutral)).2 := by
  constructor
  · exact map_forgetEvents_update (RunRepository.updateWhere run v) (RunRepository.updateValues run)
      (fun _ _ _ h => h) (fun _ => rfl) fun _ => rfl
  · have hcount : (t.map AgentRun.forgetEvents forgetEvents_neutral).rowcount
        (RunRepository.updateWhere run v) = t.rowcount (RunRepository.updateWhere run v) :=
      Table.rowcount_map fun _ => rfl
    simp only [RunRepository.update, hcount]

theorem facts_updateRun {v : ℕ} (h : s.updateRun run v = .ok s') :
    (RunRepository.update run v s.facts.runs).2 = true ∧
      s'.facts = { s.facts with runs := (RunRepository.update run v s.facts.runs).1 } := by
  obtain ⟨hupdated, rfl⟩ := updateRun_ok h
  obtain ⟨htable, hcount⟩ := facts_update run v s.runs
  exact ⟨hcount ▸ hupdated, by simp only [facts, htable]⟩

end Store

/-! ## Transactions on Runs and threads -/

variable {s s' : Store} {view : ℕ → Store} {fresh : ℕ → Stamp} {run run' : AgentRun}

theorem createThread_facts {userId : UUID} {title key : String} {activeThingId : Option UUID}
    {thingKnown : Bool} {stamp : Stamp} {thread : Thread}
    (h : createThread userId title key activeThingId thingKnown stamp view s = .ok (s', thread)) :
    s'.facts = s.facts := by
  simp only [createThread, bind_eq_ok, ensure_eq_ok] at h
  obtain ⟨_, _, h⟩ := h
  split at h
  · obtain ⟨rfl, -⟩ := Prod.mk.inj (pure_eq_ok.mp h)
    rfl
  · simp only [bind_eq_ok, pure_eq_ok, Prod.mk.injEq] at h
    obtain ⟨_, _, _, _, rfl, -⟩ := h
    rfl

theorem archiveThread_facts {userId threadId : UUID} {now : Timestamp} {thread : Thread}
    (h : archiveThread userId threadId now view s = .ok (s', thread)) : s'.facts = s.facts := by
  simp only [archiveThread, bind_eq_ok, pure_eq_ok, Prod.mk.injEq] at h
  obtain ⟨_, _, rfl, -⟩ := h
  rfl

/-- The Run and the job that a creation inserts. -/
theorem commitNewRun_facts {message : Message} {data : Dict} (hnew : run.IsNew)
    (h : commitNewRun s run message data fresh = .ok s') :
    ∃ runs durableJobs, s.facts.runs.insert? run = some runs ∧
      s.durableJobs.insert? (agentRunJob run (fresh 3)) = some durableJobs ∧
      s'.facts = { s.facts with runs, durableJobs } := by
  simp only [commitNewRun, bind_eq_ok, Prod.exists] at h
  obtain ⟨s₁, hrun, s₂, hmessage, s₃, event, hevent, hjob⟩ := h
  obtain ⟨runs, hins, hs₁⟩ := Store.facts_addRun hnew hrun
  obtain ⟨durableJobs, hins', hs'⟩ := Store.facts_addJob hjob
  have hs₃ : s₃.facts = { s.facts with runs } := by
    rw [Store.facts_appendEvent hevent, Store.facts_addMessage hmessage, hs₁]
  rw [hs₃] at hins' hs'
  exact ⟨runs, durableJobs, hins, hins', hs'⟩

theorem commitNewRun_effect {op : Op} {message : Message} {data : Dict}
    (hop : op.createsKey = some (run.userId, run.idempotencyKey)) (hnew : run.IsNew)
    (h : commitNewRun s run message data fresh = .ok s') : Effect view op s.facts s'.facts := by
  obtain ⟨runs, durableJobs, hrun, hjob, hs'⟩ := commitNewRun_facts hnew h
  rw [hs']
  exact .createRun hnew hrun hjob hop

theorem createUserRun_effect {c : CreateUserRun} {budget : Dict} {sourceKnown : UUID → Bool}
    (h : createUserRun c budget sourceKnown fresh view s = .ok (s', run)) :
    Effect view (.createUserRun c budget sourceKnown fresh) s.facts s'.facts := by
  simp only [createUserRun, bind_eq_ok, ensure_eq_ok] at h
  obtain ⟨_, _, _, _, h⟩ := h
  split at h
  · obtain ⟨rfl, -⟩ := Prod.mk.inj (pure_eq_ok.mp h)
    exact .idle
  · simp only [bind_eq_ok, ensure_eq_ok, pure_eq_ok, Prod.mk.injEq] at h
    obtain ⟨_, _, _, _, s₁, hnew, rfl, rfl⟩ := h
    exact commitNewRun_effect rfl (by exact rfl) hnew

theorem automationThread_facts {c : CreateAutomationRun} {stamp : Stamp} {known : Option Thread}
    {threadId : UUID} (h : automationThread c stamp known s = .ok (s', threadId)) :
    s'.facts = s.facts := by
  cases known with
  | some thread =>
    obtain ⟨rfl, -⟩ := Prod.mk.inj (pure_eq_ok.mp h)
    rfl
  | none =>
    simp only [automationThread, bind_eq_ok, pure_eq_ok, Prod.mk.injEq] at h
    obtain ⟨_, _, rfl, -⟩ := h
    rfl

theorem createAutomationRun_effect {c : CreateAutomationRun} {budget : Dict}
    (h : createAutomationRun c budget fresh view s = .ok (s', run)) :
    Effect view (.createAutomationRun c budget fresh) s.facts s'.facts := by
  simp only [createAutomationRun, bind_eq_ok, ensure_eq_ok] at h
  obtain ⟨_, _, _, _, h⟩ := h
  split at h
  · obtain ⟨rfl, -⟩ := Prod.mk.inj (pure_eq_ok.mp h)
    exact .idle
  · simp only [bind_eq_ok, pure_eq_ok, Prod.exists, Prod.mk.injEq] at h
    obtain ⟨s₁, threadId, hthread, s₂, hnew, rfl, rfl⟩ := h
    rw [← automationThread_facts hthread]
    exact commitNewRun_effect rfl (by exact rfl) hnew

/-- A claim that was answered: no row to claim, or the row that is claimed. -/
theorem claimRun_ok {userId runId : UUID} {owner : String} {lease : ℤ}
    {claimed : Option AgentRun} (h : claimRun userId runId owner lease fresh s = .ok (s', claimed)) :
    (claimed = none ∧ s' = s) ∨
      ((∃ r ∈ s.runs, RunRepository.claimWhere userId runId (fresh 0).now r = true ∧
        claimed = some (RunRepository.claimValues owner (fresh 0).id (fresh 0).now
          ((fresh 0).now + lease) r)) ∧
      s'.facts =
        { s.facts with
          runs := (RunRepository.claim userId runId owner (fresh 0).id (fresh 0).now
            ((fresh 0).now + lease) s.facts.runs).1 }) := by
  simp only [claimRun, bind_eq_ok, ensure_eq_ok] at h
  obtain ⟨_, _, h⟩ := h
  split at h
  case h_1 =>
    obtain ⟨rfl, rfl⟩ := Prod.mk.inj (pure_eq_ok.mp h)
    exact .inl ⟨rfl, rfl⟩
  case h_2 run hclaimed =>
    simp only [bind_eq_ok, pure_eq_ok, Prod.exists, Prod.mk.injEq] at h
    obtain ⟨s₁, event, hevent, rfl, rfl⟩ := h
    refine .inr ⟨?_, ?_⟩
    · simp only [RunRepository.claim] at hclaimed
      split at hclaimed
      · cases hclaimed
      obtain ⟨hmem, hid⟩ := Table.get_eq_some hclaimed
      rename_i hcount
      have hkeep : Table.Keeps (RunRepository.claimWhere userId runId (fresh 0).now)
          (RunRepository.claimValues owner (fresh 0).id (fresh 0).now ((fresh 0).now + lease)) :=
        fun _ _ _ h => h
      rcases Table.mem_update_cases hkeep hmem with ⟨r, hr, hp, rfl⟩ | ⟨hr, hp⟩
      · exact ⟨r, hr, hp, rfl⟩
      -- the row that the update matches has the id of this one, so it is this one
      · refine absurd (Table.rowcount_eq_zero.mpr fun r' hr' => ?_) hcount
        by_contra hp'
        have hid' : r'.id = runId := by
          have hwhere : RunRepository.claimWhere userId runId (fresh 0).now r' = true := by
            simpa using hp'
          simp only [RunRepository.claimWhere, decide_eq_true_eq] at hwhere
          exact hwhere.1
        have hrun : run.id = runId := by simpa using hid
        rw [run_ext hr' hr (hid'.trans hrun.symm), hp] at hp'
        exact hp' rfl
    · rw [Store.facts_appendEvent hevent]
      have htable : ∀ t : Table AgentRun,
          (RunRepository.claim userId runId owner (fresh 0).id (fresh 0).now ((fresh 0).now + lease)
            t).1.map AgentRun.forgetEvents forgetEvents_neutral =
          (RunRepository.claim userId runId owner (fresh 0).id (fresh 0).now ((fresh 0).now + lease)
            (t.map AgentRun.forgetEvents forgetEvents_neutral)).1 := fun t =>
        map_forgetEvents_update (RunRepository.claimWhere userId runId (fresh 0).now)
          (RunRepository.claimValues owner (fresh 0).id (fresh 0).now ((fresh 0).now + lease))
          (fun _ _ _ h => h) (fun _ => rfl) fun _ => rfl
      simp only [Store.facts, htable]

theorem claimRun_effect {userId runId : UUID} {owner : String} {lease : ℤ}
    {claimed : Option AgentRun} (h : claimRun userId runId owner lease fresh s = .ok (s', claimed)) :
    Effect view (.claimRun userId runId owner lease fresh) s.facts s'.facts := by
  rcases claimRun_ok h with ⟨-, rfl⟩ | ⟨-, hs'⟩
  · exact .idle
  · rw [hs']
    exact .claimRun

theorem renewRunLease_effect {userId runId : UUID} {owner : String} {token : UUID} {lease : ℤ}
    {now : Timestamp} :
    Effect view (.renewRunLease userId runId owner token lease now) s.facts
      (renewRunLease userId runId owner token lease now s).1.facts := by
  unfold renewRunLease
  dsimp only
  split
  · have htable : (RunRepository.renewLease userId runId owner token now (now + lease)
          s.runs).1.map AgentRun.forgetEvents forgetEvents_neutral =
        (RunRepository.renewLease userId runId owner token now (now + lease) s.facts.runs).1 :=
      map_forgetEvents_update (RunRepository.renewLeaseWhere userId runId owner token)
        (RunRepository.renewLeaseValues now (now + lease)) (fun _ _ _ h => h) (fun _ => rfl)
        fun _ => rfl
    simp only [Store.facts] at htable ⊢
    rw [htable]
    exact .renewRunLease
  · exact .idle

theorem recoverRun_effect {fresh : UUID → Stamp} (hread : run ∈ (view 0).runs)
    (h : recoverRun fresh s run = .ok s') :
    ∃ runs, Relation.ReflTransGen (Recovers view) s.facts.runs runs ∧
      s'.facts = { s.facts with runs } := by
  unfold recoverRun at h
  split at h
  case h_2 =>
    obtain rfl := pure_eq_ok.mp h
    exact ⟨_, .refl, rfl⟩
  case h_1 =>
    simp only [bind_eq_ok, reraise_eq_ok] at h
    obtain ⟨recovered, hrecover, h⟩ := h
    obtain ⟨htable, hcount⟩ := Store.facts_update recovered run.version s.runs
    split at h
    case isFalse =>
      obtain rfl := pure_eq_ok.mp h
      exact ⟨_, .refl, rfl⟩
    case isTrue hupdated =>
      simp only [bind_eq_ok, pure_eq_ok, Prod.exists] at h
      obtain ⟨s₁, event, hevent, rfl⟩ := h
      refine ⟨_, .single (.run hread hrecover (hcount ▸ hupdated)), ?_⟩
      rw [Store.facts_appendEvent hevent]
      simp only [Store.facts, htable]

theorem foldlM_recoverRun_effect {fresh : UUID → Stamp} {runs : List AgentRun} :
    ∀ {s : Store}, (∀ run ∈ runs, run ∈ (view 0).runs) → runs.foldlM (recoverRun fresh) s = .ok s' →
      ∃ runs', Relation.ReflTransGen (Recovers view) s.facts.runs runs' ∧
        s'.facts = { s.facts with runs := runs' } := by
  induction runs with
  | nil =>
    intro s _ h
    obtain rfl := pure_eq_ok.mp h
    exact ⟨_, .refl, rfl⟩
  | cons run runs ih =>
    intro s hread h
    simp only [List.foldlM_cons, bind_eq_ok] at h
    obtain ⟨s₁, hfirst, hrest⟩ := h
    obtain ⟨runs₁, hsteps, hs₁⟩ := recoverRun_effect (hread run (.head _)) hfirst
    obtain ⟨runs₂, hsteps', hs'⟩ := ih (fun r hr => hread r (.tail _ hr)) hrest
    rw [hs₁] at hsteps' hs'
    exact ⟨runs₂, hsteps.trans hsteps', hs'⟩

theorem recoverPendingRuns_effect {limit : ℕ} {now : Timestamp} {fresh : UUID → Stamp}
    (h : recoverPendingRuns limit now fresh view s = .ok s') :
    Effect view (.recoverPendingRuns limit now fresh) s.facts s'.facts := by
  have hread : ∀ run ∈ RunRepository.listRecoverable now limit (view 0).runs,
      run ∈ (view 0).runs := by
    intro run hrun
    have := (List.mem_insertionSort _).mp (List.mem_of_mem_take hrun)
    exact (List.mem_filter.mp this).1
  obtain ⟨runs, hsteps, hs'⟩ := foldlM_recoverRun_effect hread h
  rw [hs']
  exact .recover hsteps

/-- A wait that was answered opened an Interaction and changed the Run. -/
theorem commitTransition_wait_ok {userId : UUID} {payload : Dict} {interactionId : Option UUID}
    (h : commitTransition userId run (.wait payload interactionId) fresh s = .ok (s', run')) :
    ∃ interactions,
      run.waitForUser (fresh 0).now (interactionId.getD (fresh 0).id) payload = .ok run' ∧
      s.interactions.insert? (openedInteraction userId run.id (interactionId.getD (fresh 0).id)
        payload (fresh 0).now) = some interactions ∧
      (RunRepository.update run' run.version s.facts.runs).2 = true ∧
      s'.facts =
        { s.facts with
          runs := (RunRepository.update run' run.version s.facts.runs).1
          interactions } := by
  simp only [commitTransition, bind_eq_ok, pure_eq_ok, Prod.exists, Prod.mk.injEq,
    valueErrorAsTransition_eq_ok] at h
  obtain ⟨run₁, hmethod, s₁, hopen, s₂, hupdate, s₃, e, hevent, s₄, e', hevent', rfl, rfl⟩ := h
  obtain ⟨interactions, hins, hs₁⟩ := Store.facts_addInteraction hopen
  obtain ⟨hversion, hs₂⟩ := Store.facts_updateRun hupdate
  rw [hs₁] at hversion hs₂
  refine ⟨interactions, hmethod, hins, hversion, ?_⟩
  rw [Store.facts_appendEvent hevent', Store.facts_appendEvent hevent, hs₂]

theorem workerTransition_effect {c : WorkerCall}
    (h : workerTransition c fresh view s = .ok (s', run')) :
    Effect view (.workerTransition c fresh) s.facts s'.facts := by
  simp only [workerTransition, bind_eq_ok, ensure_eq_ok] at h
  obtain ⟨run, hrun, _, howns, h⟩ := h
  obtain ⟨hread, hid, huser⟩ := getRun_ok hrun
  cases haction : c.action with
  | wait payload interactionId =>
    rw [haction] at h
    obtain ⟨interactions, hmethod, hins, hversion, hs'⟩ := commitTransition_wait_ok h
    rw [hs']
    exact .wait hread hid howns haction hmethod hins hversion
  | start phase label =>
    simp only [haction, commitTransition, bind_eq_ok, pure_eq_ok, Prod.exists, Prod.mk.injEq,
      valueErrorAsTransition_eq_ok] at h
    obtain ⟨run₁, hmethod, s₁, hupdate, s₂, e, hevent, rfl, rfl⟩ := h
    obtain ⟨hversion, hs₁⟩ := Store.facts_updateRun hupdate
    rw [Store.facts_appendEvent hevent, hs₁]
    exact .advance hread (.start haction hmethod) hversion
  | complete content =>
    simp only [haction, commitTransition, bind_eq_ok, ensure_eq_ok, pure_eq_ok, Prod.exists,
      Prod.mk.injEq, valueErrorAsTransition_eq_ok] at h
    obtain ⟨_, _, s₁, hmessage, run₁, hmethod, s₂, hupdate, s₃, e, hevent, s₄, e', hevent', rfl,
      rfl⟩ := h
    obtain ⟨hversion, hs₂⟩ := Store.facts_updateRun hupdate
    rw [Store.facts_addMessage hmessage] at hversion hs₂
    rw [Store.facts_appendEvent hevent', Store.facts_appendEvent hevent, hs₂]
    exact .advance hread (.complete haction hmethod) hversion
  | fail errorCode =>
    simp only [haction, commitTransition, bind_eq_ok, pure_eq_ok, Prod.exists, Prod.mk.injEq,
      valueErrorAsTransition_eq_ok] at h
    obtain ⟨run₁, hmethod, s₁, hupdate, s₂, e, hevent, rfl, rfl⟩ := h
    obtain ⟨hversion, hs₁⟩ := Store.facts_updateRun hupdate
    rw [Store.facts_appendEvent hevent, hs₁]
    exact .advance hread (.fail hid huser howns haction hmethod) hversion

theorem acceptTerminalOutput_effect {userId runId : UUID} {output : Dict} {owner : String}
    {token : UUID} {now : Timestamp}
    (h : acceptTerminalOutput userId runId output owner token now view s = .ok (s', run')) :
    Effect view (.acceptTerminalOutput userId runId output owner token now) s.facts s'.facts := by
  simp only [acceptTerminalOutput, bind_eq_ok, ensure_eq_ok, valueErrorAsTransition_eq_ok] at h
  obtain ⟨run, hrun, _, howns, run₁, hmethod, h⟩ := h
  split at h
  case isTrue hchanged =>
    simp only [bind_eq_ok, pure_eq_ok, Prod.mk.injEq] at h
    obtain ⟨s₁, hupdate, rfl, rfl⟩ := h
    obtain ⟨hversion, hs₁⟩ := Store.facts_updateRun hupdate
    rw [hs₁]
    exact .advance (getRun_ok hrun).1 (.accept hmethod hchanged) hversion
  case isFalse =>
    obtain ⟨rfl, -⟩ := Prod.mk.inj (pure_eq_ok.mp h)
    exact .idle

/-- A resume that was answered: a replay, or the change of a Run that waits. -/
theorem resumeRun_ok {userId runId interruptId : UUID} {response : Dict} {expectedVersion : ℕ}
    {key : String} {replayed : Bool}
    (h : resumeRun userId runId interruptId response expectedVersion key fresh view s =
      .ok (s', run', replayed)) :
    (replayed = true ∧ s' = s) ∨
      (replayed = false ∧ ∃ run run₁ interaction interaction',
        run ∈ (view 1).runs ∧ run.id = runId ∧ run.userId = userId ∧ run.version = expectedVersion ∧
        InteractionRepository.get userId runId interruptId (view 2).interactions =
          some interaction ∧
        interaction.resolve (fresh 0).now response = .ok interaction' ∧
        run.resume (fresh 0).now interruptId response = .ok run₁ ∧
        (DurableJobRepository.resume userId (agentRunKey run.id) (fresh 0).now
          s.durableJobs).2 = true ∧
        (RunRepository.update run₁ run.version s.facts.runs).2 = true ∧
        s'.facts =
          { s.facts with
            runs := (RunRepository.update run₁ run.version s.facts.runs).1
            interactions := InteractionRepository.resolve interaction' s.interactions
            durableJobs := (DurableJobRepository.resume userId (agentRunKey run.id) (fresh 0).now
              s.durableJobs).1 }) := by
  simp only [resumeRun, changeRun] at h
  split at h
  · simp only [bind_eq_ok, pure_eq_ok, Prod.mk.injEq] at h
    obtain ⟨_, _, rfl, -, rfl⟩ := h
    exact .inl ⟨rfl, rfl⟩
  · simp only [commitChange, bind_eq_ok, orRaise_eq_ok, ensure_eq_ok, pure_eq_ok, Prod.exists,
      Prod.mk.injEq, valueErrorAsTransition_eq_ok] at h
    obtain ⟨run, hrun, _, hexpected, s₁, run₁, eventType, data, ⟨interaction, hfound, interaction',
      hresolve, run₂, hmethod, _, hjob, rfl, rfl, -, -⟩, s₂, hupdate, s₃, hrecord, s₄, e, hevent,
      rfl, -, rfl⟩ := h
    obtain ⟨hread, hid, huser⟩ := getRun_ok hrun
    obtain ⟨hversion, hs₂⟩ := Store.facts_updateRun hupdate
    rw [← hexpected] at hversion hs₂
    refine .inr ⟨rfl, run, run₂, interaction, interaction', hread, hid, huser, hexpected, hfound,
      hresolve, hmethod, hjob, hversion, ?_⟩
    rw [Store.facts_appendEvent hevent, Store.facts_recordOperation hrecord, hs₂]
    rfl

theorem resumeRun_effect {userId runId interruptId : UUID} {response : Dict} {expectedVersion : ℕ}
    {key : String} {answer : AgentRun × Bool}
    (h : resumeRun userId runId interruptId response expectedVersion key fresh view s =
      .ok (s', answer)) :
    Effect view (.resumeRun userId runId interruptId response expectedVersion key fresh) s.facts
      s'.facts := by
  rcases resumeRun_ok h with ⟨-, rfl⟩ | ⟨-, run, run₁, interaction, interaction', hread, hid, huser,
    hexpected, hfound, hresolve, hmethod, hjob, hversion, hs'⟩
  · exact .idle
  · rw [hs']
    exact .resume hread hid huser hexpected hfound hresolve hmethod hjob hversion

theorem cancelRun_effect {userId runId : UUID} {expectedVersion : ℕ} {key : String}
    {answer : AgentRun × Bool}
    (h : cancelRun userId runId expectedVersion key fresh view s = .ok (s', answer)) :
    Effect view (.cancelRun userId runId expectedVersion key fresh) s.facts s'.facts := by
  simp only [cancelRun, changeRun, bind_eq_ok, ensure_eq_ok] at h
  obtain ⟨_, _, _, hflight, h⟩ := h
  have hidle := by simpa using hflight
  split at h
  · simp only [bind_eq_ok, pure_eq_ok, Prod.mk.injEq] at h
    obtain ⟨_, _, rfl, -⟩ := h
    exact .idle
  case h_2 hkey =>
    simp only [commitChange, bind_eq_ok, ensure_eq_ok, pure_eq_ok, Prod.exists, Prod.mk.injEq,
      valueErrorAsTransition_eq_ok] at h
    obtain ⟨run, hrun, _, hexpected, s₁, run₁, eventType, data, ⟨run₂, hmethod, rfl, rfl, -, -⟩, s₂,
      hupdate, s₃, hrecord, s₄, e, hevent, rfl, -⟩ := h
    obtain ⟨hread, hid, huser⟩ := getRun_ok hrun
    obtain ⟨hversion, hs₂⟩ := Store.facts_updateRun hupdate
    rw [Store.facts_appendEvent hevent, Store.facts_recordOperation hrecord, hs₂]
    obtain rfl : run.version = expectedVersion := by simpa using hexpected
    exact .cancel hidle hkey hread hid huser rfl hmethod hversion

/-! ## Transactions on jobs -/

theorem claimAgentRunJobs_effect {owner : String} {lease : ℤ} {limit : ℕ} {now : Timestamp}
    {reached locked : UUID → Bool} {claims : List DurableJobClaimDTO}
    (h : claimAgentRunJobs owner lease limit now reached locked s = .ok (s', claims)) :
    Effect view (.claimAgentRunJobs owner lease limit now reached locked) s.facts s'.facts := by
  simp only [claimAgentRunJobs, bind_eq_ok, pure_eq_ok, Prod.mk.injEq] at h
  obtain ⟨_, _, _, _, rfl, -⟩ := h
  exact .claimJobs (.inr ⟨lease, rfl⟩)

theorem settleAgentRunJob_effect {claim : DurableJobClaimDTO} {owner : String}
    {errorCode : Option String} {now : Timestamp}
    (h : settleAgentRunJob claim owner errorCode now view s = .ok s') :
    Effect view (.settleAgentRunJob claim owner errorCode now) s.facts s'.facts := by
  simp only [settleAgentRunJob, bind_eq_ok, ensure_eq_ok, pure_eq_ok, Prod.exists] at h
  obtain ⟨status, errorCode', hstatus, _, hsettled, rfl⟩ := h
  exact .settleJob hstatus hsettled

theorem renewAgentRunJob_effect {claim : DurableJobClaimDTO} {owner : String} {lease : ℤ}
    {now : Timestamp} :
    Effect view (.renewAgentRunJob claim owner lease now) s.facts
      (renewAgentRunJob claim owner lease now s).1.facts := by
  unfold renewAgentRunJob
  dsimp only
  split
  · exact .renewJob
  · exact .idle

/-! ## Transactions on the ledger -/

/-- A claim that was answered. -/
theorem claimToolExecution_ledger {c : ClaimTool} {claim : ToolExecutionClaimDTO}
    (h : claimToolExecution c fresh view s = .ok (s', claim)) :
    ∃ toolExecutions, s' = { s with toolExecutions } ∧
      LedgerEffect view (.claimToolExecution c fresh) s.toolExecutions toolExecutions
        (.toolClaim claim) := by
  simp only [claimToolExecution, bind_eq_ok, orRaise_eq_ok, ensure_eq_ok] at h
  obtain ⟨run, hrun, _, howns, ⟨t, inserted⟩, hadd, h⟩ := h
  unfold ToolExecutionRepository.addIfAbsent at hadd
  split at hadd
  case isFalse habsent =>
    simp only [Option.map_eq_some_iff, Prod.mk.injEq] at hadd
    obtain ⟨t', hins, rfl, rfl⟩ := hadd
    obtain ⟨rfl, rfl⟩ := Prod.mk.inj (pure_eq_ok.mp h)
    exact ⟨t', rfl, .add (Option.not_isSome_iff_eq_none.mp habsent) hins⟩
  case isTrue =>
    obtain ⟨rfl, rfl⟩ := Prod.mk.inj (Option.some.inj hadd)
    simp only [Bool.false_eq_true, if_false, bind_eq_ok, orRaise_eq_ok] at h
    obtain ⟨existing, hread, h⟩ := h
    simp only [claimExisting, bind_eq_ok, ensure_eq_ok] at h
    obtain ⟨_, htool, _, ⟨hsafe, hkey⟩, h⟩ := h
    split at h
    case h_1 result hresult =>
      obtain ⟨rfl, rfl⟩ := Prod.mk.inj (pure_eq_ok.mp h)
      refine ⟨s.toolExecutions, rfl, .idle ?_⟩
      intro claim hclaim
      obtain rfl := Reply.toolClaim.inj hclaim
      exact ⟨rfl, c, fresh, existing, rfl, hread, by simp [hresult]⟩
    case h_2 =>
      split at h
      case isTrue hrisky =>
        obtain ⟨rfl, rfl⟩ := Prod.mk.inj (pure_eq_ok.mp h)
        exact ⟨_, rfl, .markUnknown hread hsafe hrisky.2 hrisky.1⟩
      case isFalse hlease =>
        obtain ⟨rfl, rfl⟩ := Prod.mk.inj (pure_eq_ok.mp h)
        exact ⟨_, rfl, .takeover hread hsafe hlease rfl⟩

/-- The claim of a tool action that was answered read a Run that its worker runs. -/
theorem claimToolExecution_owned {c : ClaimTool} {claim : ToolExecutionClaimDTO}
    (h : claimToolExecution c fresh view s = .ok (s', claim)) :
    ∃ run ∈ (view 0).runs, run.id = c.runId ∧ run.userId = c.userId ∧
      run.claimOwner = some c.owner ∧ run.claimToken = some c.runClaimToken ∧
        run.status = .running := by
  simp only [claimToolExecution, bind_eq_ok, ensure_eq_ok] at h
  obtain ⟨run, hrun, _, ⟨howner, htoken, hstatus⟩, -⟩ := h
  obtain ⟨hread, hid, huser⟩ := getRun_ok hrun
  exact ⟨run, hread, hid, huser, howner, htoken, hstatus⟩

theorem completeRow_ok {c : ToolClaim} {result : Dict} {succeeded : Bool} {now : Timestamp}
    (h : completeRow c result succeeded now s = .ok s') :
    (ToolExecutionRepository.complete c.runId c.actionId c.owner c.claimToken result succeeded now
        s.toolExecutions).2 = true ∧
      s' = { s with toolExecutions := (ToolExecutionRepository.complete c.runId c.actionId c.owner
        c.claimToken result succeeded now s.toolExecutions).1 } := by
  simp only [completeRow, bind_eq_ok, ensure_eq_ok, pure_eq_ok] at h
  obtain ⟨_, hcompleted, rfl⟩ := h
  exact ⟨hcompleted, rfl⟩

theorem completePersonalStateMutationTool_ok {δ : Type} {c : ToolClaim} {toolName : String}
    {applyMutation : δ → Raises (δ × WriteOutcome)} {now : Timestamp} {d d' : δ} {data : Dict}
    (h : completePersonalStateMutationTool c toolName applyMutation now view s d =
      .ok ((s', d'), data)) :
    ∃ outcome, applyMutation d = .ok (d', outcome) ∧
      completeRow c (buildToolReceipt toolName outcome) true now s = .ok s' := by
  simp only [completePersonalStateMutationTool, bind_eq_ok, pure_eq_ok, Prod.exists,
    Prod.mk.injEq] at h
  obtain ⟨_, _, d₁, outcome, happly, s₁, hrow, ⟨rfl, rfl⟩, -⟩ := h
  exact ⟨outcome, happly, hrow⟩

theorem completeToolExecution_ledger {c : ToolClaim} {result : Dict} {succeeded : Bool}
    {now : Timestamp} (h : completeToolExecution c result succeeded now view s = .ok s') :
    ∃ toolExecutions, s' = { s with toolExecutions } ∧
      LedgerEffect view (.completeToolExecution c result succeeded now) s.toolExecutions
        toolExecutions .done := by
  simp only [completeToolExecution, bind_eq_ok] at h
  obtain ⟨_, _, h⟩ := h
  obtain ⟨hcompleted, rfl⟩ := completeRow_ok h
  exact ⟨_, rfl, .complete (.inl rfl) (fun _ hc => (by cases hc)) hcompleted⟩

theorem reconcileUnknownToolExecution_ledger {userId runId : UUID} {actionId : String}
    {result : Dict} {succeeded : Bool} {providerRequestId : Option String} {now : Timestamp}
    (h : reconcileUnknownToolExecution userId runId actionId result succeeded providerRequestId now
      view s = .ok s') :
    ∃ toolExecutions, s' = { s with toolExecutions } ∧
      LedgerEffect view (.reconcileUnknownToolExecution userId runId actionId result succeeded
        providerRequestId now) s.toolExecutions toolExecutions .done := by
  simp only [reconcileUnknownToolExecution, bind_eq_ok, ensure_eq_ok, orRaise_eq_ok, pure_eq_ok] at h
  obtain ⟨_, _, execution, _, _, _, _, _, rfl⟩ := h
  exact ⟨_, rfl, .reconcile execution⟩

/-! ## Every transaction -/

/-- The transactions of the ledger. -/
def Op.onLedger : Op → Bool
  | .claimToolExecution _ _ | .completeToolExecution _ _ _ _
  | .completePersonalStateMutationTool _ _ _ _ | .reconcileUnknownToolExecution _ _ _ _ _ _ _ => true
  | _ => false

/-- The ledger sees no transaction but its own. -/
theorem Effect.toolExecutions_eq {op : Op} {x x' : Facts} (h : Effect view op x x')
    (hop : op.onLedger = false) : x'.toolExecutions = x.toolExecutions := by
  cases h with
  | ledger h =>
    cases h with
    | idle => rfl
    | complete hop' => rcases hop' with rfl | ⟨_, _, rfl⟩ <;> cases hop
    | _ => cases hop
  | _ => rfl

theorem settled_effect {α : Type} {op : Op} {reply : α → Reply} {x : Raises (Store × α)}
    (hok : ∀ s' a, x = .ok (s', a) → Effect view op s.facts s'.facts) :
    Effect view op s.facts (settled s reply x).1.facts := by
  cases x with
  | error e => exact .idle
  | ok r => exact hok _ _ rfl

theorem map_eq_ok {α β : Type} {x : Raises α} {f : α → β} {b : β} (h : x.map f = .ok b) :
    ∃ a, x = .ok a ∧ f a = b := by
  cases x with
  | error e => cases h
  | ok a => exact ⟨a, rfl, Except.ok.inj h⟩

/-- A transaction of the ledger writes the ledger alone. -/
theorem commit_ledger (op : Op) (view : ℕ → Store) (s : Store) (hop : op.onLedger = true) :
    ∃ toolExecutions, (commit op view s).1 = { s with toolExecutions } ∧
      LedgerEffect view op s.toolExecutions toolExecutions (commit op view s).2 := by
  have hsettled : ∀ {α : Type} (reply : α → Reply) (x : Raises (Store × α)),
      (∀ s' a, x = .ok (s', a) → ∃ toolExecutions, s' = { s with toolExecutions } ∧
        LedgerEffect view op s.toolExecutions toolExecutions (reply a)) →
      ∃ toolExecutions, (settled s reply x).1 = { s with toolExecutions } ∧
        LedgerEffect view op s.toolExecutions toolExecutions (settled s reply x).2 := by
    intro α reply x hok
    cases x with
    | error e => exact ⟨_, rfl, .idle fun _ h => nomatch h⟩
    | ok r => exact hok _ _ rfl
  cases op with
  | claimToolExecution c fresh => exact hsettled _ _ fun s' claim h => claimToolExecution_ledger h
  | completeToolExecution c result succeeded now =>
    refine hsettled _ _ fun s' a h => ?_
    obtain ⟨_, hcomplete, heq⟩ := map_eq_ok h
    obtain ⟨rfl, -⟩ := Prod.mk.inj heq
    exact completeToolExecution_ledger hcomplete
  | completePersonalStateMutationTool c toolName outcome now =>
    refine hsettled _ _ fun s' a h => ?_
    obtain ⟨⟨⟨s₁, d⟩, data⟩, hmutation, heq⟩ := map_eq_ok h
    obtain ⟨rfl, -⟩ := Prod.mk.inj heq
    obtain ⟨outcome', -, hrow⟩ := completePersonalStateMutationTool_ok hmutation
    obtain ⟨hcompleted, rfl⟩ := completeRow_ok hrow
    exact ⟨_, rfl, .complete (.inr ⟨_, _, rfl⟩) (fun _ hc => nomatch hc) hcompleted⟩
  | reconcileUnknownToolExecution userId runId actionId result succeeded providerRequestId now =>
    refine hsettled _ _ fun s' a h => ?_
    obtain ⟨_, hreconcile, heq⟩ := map_eq_ok h
    obtain ⟨rfl, -⟩ := Prod.mk.inj heq
    exact reconcileUnknownToolExecution_ledger hreconcile
  | _ => cases hop

/-- What a transaction makes of the facts is its effect. -/
theorem commit_effect (op : Op) (view : ℕ → Store) (s : Store) :
    Effect view op s.facts (commit op view s).1.facts := by
  by_cases hop : op.onLedger = true
  · obtain ⟨toolExecutions, hs, hledger⟩ := commit_ledger op view s hop
    rw [hs]
    exact .ledger hledger
  cases op with
  | createThread => exact settled_effect fun s' thread h => createThread_facts h ▸ .idle
  | archiveThread => exact settled_effect fun s' thread h => archiveThread_facts h ▸ .idle
  | createUserRun => exact settled_effect fun s' run h => createUserRun_effect h
  | createAutomationRun => exact settled_effect fun s' run h => createAutomationRun_effect h
  | claimRun => exact settled_effect fun s' claimed h => claimRun_effect h
  | renewRunLease => exact renewRunLease_effect
  | recoverPendingRuns =>
    refine settled_effect fun s' a h => ?_
    obtain ⟨_, hrecover, heq⟩ := map_eq_ok h
    obtain ⟨rfl, -⟩ := Prod.mk.inj heq
    exact recoverPendingRuns_effect hrecover
  | workerTransition => exact settled_effect fun s' run h => workerTransition_effect h
  | acceptTerminalOutput => exact settled_effect fun s' run h => acceptTerminalOutput_effect h
  | resumeRun => exact settled_effect fun s' answer h => resumeRun_effect h
  | cancelRun => exact settled_effect fun s' answer h => cancelRun_effect h
  | emitEvent =>
    refine settled_effect fun s' event h => ?_
    simp only [emitEvent, bind_eq_ok] at h
    obtain ⟨_, _, hevent⟩ := h
    rw [Store.facts_appendEvent hevent]
    exact .idle
  | claimAgentRunJobs => exact settled_effect fun s' claims h => claimAgentRunJobs_effect h
  | claimReadyJobs => exact .claimJobs (.inl rfl)
  | settleAgentRunJob =>
    refine settled_effect fun s' a h => ?_
    obtain ⟨_, hsettle, heq⟩ := map_eq_ok h
    obtain ⟨rfl, -⟩ := Prod.mk.inj heq
    exact settleAgentRunJob_effect hsettle
  | renewAgentRunJob => exact renewAgentRunJob_effect
  | releaseForRetry => exact .releaseJob
  | _ => exact absurd rfl hop

/-- A transaction that was not rolled back, by its answer. -/
theorem settled_reply {α : Type} {reply : α → Reply} {x : Raises (Store × α)} {r : Reply}
    (hr : ∀ error, r ≠ .raised error) (h : (settled s reply x).2 = r) :
    ∃ s' a, x = .ok (s', a) ∧ reply a = r := by
  cases x with
  | error e => exact absurd h.symm (hr e)
  | ok result => exact ⟨result.1, result.2, rfl, h⟩

/-- Nothing but the ledger answers with a tool claim. -/
theorem onLedger_of_toolClaim {op : Op} {claim : ToolExecutionClaimDTO}
    (h : (commit op view s).2 = .toolClaim claim) : op.onLedger = true := by
  cases op with
  | renewRunLease | claimReadyJobs | renewAgentRunJob | releaseForRetry => cases h
  | claimToolExecution | completeToolExecution | completePersonalStateMutationTool
  | reconcileUnknownToolExecution => rfl
  | _ =>
    obtain ⟨_, _, -, hreply⟩ := settled_reply (fun _ => by simp) h
    cases hreply

/-- The call that answers with claims of jobs. -/
theorem claimAgentRunJobs_of_claims {op : Op} {claims : List DurableJobClaimDTO}
    (h : (commit op view s).2 = .claims claims) :
    ∃ owner lease limit now reached locked,
      claimAgentRunJobs owner lease limit now reached locked s =
        .ok ((commit op view s).1, claims) := by
  cases op with
  | renewRunLease | claimReadyJobs | renewAgentRunJob | releaseForRetry => cases h
  | claimAgentRunJobs owner lease limit now reached locked =>
    obtain ⟨s', claims', hok, hreply⟩ := settled_reply (fun _ => by simp) h
    cases hreply
    refine ⟨owner, lease, limit, now, reached, locked, ?_⟩
    simp only [commit, hok, settled]
  | _ =>
    obtain ⟨_, _, -, hreply⟩ := settled_reply (fun _ => by simp) h
    cases hreply

/-- Every transaction, seen from the ledger. -/
theorem commit_toolExecutions (op : Op) (view : ℕ → Store) (s : Store) :
    LedgerEffect view op s.toolExecutions (commit op view s).1.toolExecutions
      (commit op view s).2 := by
  by_cases hop : op.onLedger = true
  · obtain ⟨toolExecutions, hs, hledger⟩ := commit_ledger op view s hop
    rw [hs]
    exact hledger
  · have hsame : (commit op view s).1.toolExecutions = s.toolExecutions :=
      (commit_effect op view s).toolExecutions_eq (by simpa using hop)
    rw [hsame]
    exact .idle fun claim hreply => absurd (onLedger_of_toolClaim hreply) hop

/-- The transaction of a bound write, as the Runtime has it. -/
theorem commit_of_complete {δ : Type} {c : ToolClaim} {toolName : String}
    {apply : δ → Raises (δ × WriteOutcome)} {now : Timestamp} {stores : ℕ → Store}
    {store store' : Store} {d d' : δ} {outcome : WriteOutcome} {data : Dict}
    (h : completePersonalStateMutationTool c toolName apply now stores store d =
      .ok ((store', d'), data)) (happly : apply d = .ok (d', outcome)) :
    (commit (.completePersonalStateMutationTool c toolName (.ok outcome) now) stores
      store).1 = store' := by
  simp only [completePersonalStateMutationTool, bind_eq_ok, pure_eq_ok, Prod.exists,
    Prod.mk.injEq, happly, Except.ok.injEq] at h
  obtain ⟨_, hworker, _, _, ⟨rfl, rfl⟩, store₁, hrow, ⟨rfl, -⟩, -⟩ := h
  have hcomplete : completePersonalStateMutationTool c toolName
      (fun _ : Unit => .ok ((), outcome)) now stores store () = .ok ((store₁, ()), outcome.data) := by
    simp only [completePersonalStateMutationTool, bind_eq_ok, pure_eq_ok, Prod.exists,
      Prod.mk.injEq]
    exact ⟨_, hworker, (), outcome, rfl, store₁, hrow, ⟨rfl, trivial⟩, rfl⟩
  show (settled store Reply.data ((completePersonalStateMutationTool c toolName
    (fun _ => .ok ((), outcome)) now stores store ()).map fun r => (r.1.1, r.2))).1 = store₁
  rw [hcomplete]
  rfl

end Runtime
