import Laoshiren.Memories.Formation
import Laoshiren.Runtime.Proofs.ReplyProofs
import Laoshiren.Runtime.Proofs.CreationProofs

/-!
# Formations that are lost

A Run is completed in one transaction, and its formation is queued in a later one. A worker that
completes a Run out of an output that was there before queues nothing, and a worker that raises or
dies in between leaves nothing behind that would. Without such a step, every completed Run for which a
formation is due has its job, or a worker that is about to queue it (`FormationFits`).
-/

namespace Memories

open Runtime Raise RunRepository

variable {op : Runtime.Op} {view : ℕ → Store} {v s s' : Store} {r r' : AgentRun} {w w' : Formation}
  {x : Execution} {execution : UUID} {fresh : ℕ → Stamp} {stage next failed : Option WorkerStage}

/-! ## What every transaction of the Runtime leaves -/

/-- The columns of a Run that its formation depends on. -/
structure SameInput (r r' : AgentRun) : Prop where
  id : r'.id = r.id
  userId : r'.userId = r.userId
  trigger : r'.trigger = r.trigger
  inputMessageId : r'.inputMessageId = r.inputMessageId

theorem SameInput.refl (r : AgentRun) : SameInput r r := ⟨rfl, rfl, rfl, rfl⟩

theorem SameInput.trans {r₁ r₂ r₃ : AgentRun} (h : SameInput r₁ r₂) (h' : SameInput r₂ r₃) :
    SameInput r₁ r₃ :=
  ⟨h'.id.trans h.id, h'.userId.trans h.userId, h'.trigger.trans h.trigger,
    h'.inputMessageId.trans h.inputMessageId⟩

theorem sameInput_of_rowSteps (h : Relation.ReflTransGen (RowStep op) r r') : SameInput r r' := by
  induction h with
  | refl => exact .refl r
  | tail _ hlast ih => exact ih.trans (by cases hlast <;> exact ⟨rfl, rfl, rfl, rfl⟩)

/-- What is there stays: Runs with their input, messages and jobs. -/
structure StoreLater (v s : Store) : Prop where
  runs : ∀ r ∈ v.facts.runs, ∃ r' ∈ s.facts.runs, SameInput r r'
  messages : ∀ m ∈ v.messages, m ∈ s.messages
  jobs : ∀ j ∈ v.durableJobs, ∃ j' ∈ s.durableJobs, SameJob j j'

theorem StoreLater.refl (s : Store) : StoreLater s s :=
  ⟨fun r hr => ⟨r, hr, .refl r⟩, fun _ hm => hm, fun j hj => ⟨j, hj, .refl j⟩⟩

theorem StoreLater.trans {s₁ s₂ s₃ : Store} (h : StoreLater s₁ s₂) (h' : StoreLater s₂ s₃) :
    StoreLater s₁ s₃ where
  runs r hr := by
    obtain ⟨r₂, hr₂, hsame⟩ := h.runs r hr
    obtain ⟨r₃, hr₃, hsame'⟩ := h'.runs r₂ hr₂
    exact ⟨r₃, hr₃, hsame.trans hsame'⟩
  messages m hm := h'.messages m (h.messages m hm)
  jobs j hj := by
    obtain ⟨j₂, hj₂, hsame⟩ := h.jobs j hj
    obtain ⟨j₃, hj₃, hsame'⟩ := h'.jobs j₂ hj₂
    exact ⟨j₃, hj₃, hsame.trans hsame'⟩

theorem mem_messages_commit {m : Message} (op : Runtime.Op) (view : ℕ → Store) (hm : m ∈ s.messages) :
    m ∈ (Runtime.commit op view s).1.messages := by
  have happended : ∀ {messages : List Message} {events : List RunEvent} {s' : Store},
      Journaled s messages events s' → m ∈ s'.messages := fun hj => by
    rw [← Table.mem_rows, hj.messages_eq]
    exact List.mem_append_left _ hm
  have hlog := commit_logEffect op view s
  generalize (Runtime.commit op view s).1 = s' at hlog ⊢
  cases hlog with
  | idle => exact hm
  | quiet _ _ hj => exact happended hj
  | emit _ hj => exact happended hj
  | create _ _ _ _ _ _ _ _ hj => exact happended hj
  | complete _ _ _ _ _ _ _ _ _ hj => exact happended hj

theorem storeLater_commit (op : Runtime.Op) (hwf : RunsWellFormed s.facts.runs)
    (hviews : ∀ n, RunsLater (view n).facts.runs s.facts.runs) : StoreLater s (Runtime.commit op view s).1 where
  runs r hr := by
    rcases (commit_effect op view s).rowSteps hwf hviews with ⟨run, -, hinsert, -⟩ | hmoves
    · exact ⟨r, (Table.mem_insert? hinsert).mpr (.inl hr), .refl r⟩
    · obtain ⟨r', hr', hsteps⟩ := hmoves.exists_mem hr
      exact ⟨r', hr', sameInput_of_rowSteps hsteps⟩
  messages _ := mem_messages_commit op view
  jobs j hj := by
    rcases (commit_effect op view s).jobMoves with ⟨run, stamp, -, hinsert⟩ | hmoves
    · exact ⟨j, (Table.mem_insert? hinsert).mpr (.inl hj), .refl j⟩
    · obtain ⟨j', hj', hstep⟩ := hmoves.exists_mem hj
      refine ⟨j', hj', ?_⟩
      cases hstep with
      | refl => exact .refl j
      | single hmove => exact hmove.sameJob

/-! ## Runs that a transaction completes -/

/-- The Run that a transaction may complete. -/
def completing : Runtime.Op → Option UUID
  | .workerTransition { runId, action := .complete _, .. } _ => some runId
  | _ => none

/-- A completion changes no other Run. -/
theorem workerTransition_others {c : WorkerCall} {content : String} {run : AgentRun}
    (haction : c.action = .complete content)
    (h : workerTransition c fresh view s = .ok (s', run)) (hr' : r' ∈ s'.facts.runs) :
    r'.id = c.runId ∨ r' ∈ s.facts.runs := by
  simp only [workerTransition, bind_eq_ok, ensure_eq_ok] at h
  obtain ⟨run₀, hrun₀, _, -, h⟩ := h
  obtain ⟨-, hid, -⟩ := getRun_ok hrun₀
  simp only [haction, commitTransition, bind_eq_ok, ensure_eq_ok, pure_eq_ok, Prod.exists,
    Prod.mk.injEq, valueErrorAsTransition_eq_ok] at h
  obtain ⟨_, -, s₁, hmessage, run₁, hmethod, s₂, hupdate, s₃, e, hevent, s₄, e', hevent', rfl,
    rfl⟩ := h
  obtain ⟨-, hs₂⟩ := Store.facts_updateRun hupdate
  rw [Store.facts_addMessage hmessage] at hs₂
  rw [Store.facts_appendEvent hevent', Store.facts_appendEvent hevent, hs₂] at hr'
  rcases mem_updated hr' with ⟨row, -, hp, rfl⟩ | ⟨hr', -⟩
  · refine .inl ?_
    have hrow : (updateValues run₁ row).id = run₁.id := (updateWhere_iff.mp hp).1
    rw [hrow, (AgentRun.Moved.complete hmethod).counts.1, hid]
  · exact .inr hr'

/-- A Run that is completed was completed before, or its transaction completes it. -/
theorem completed_commit (op : Runtime.Op) (hwf : RunsWellFormed s.facts.runs)
    (hviews : ∀ n, RunsLater (view n).facts.runs s.facts.runs) (hr' : r' ∈ (Runtime.commit op view s).1.facts.runs)
    (hstatus : r'.status = .completed) :
    completing op = some r'.id ∨
      ∃ r ∈ s.facts.runs, SameInput r r' ∧ r.status = .completed := by
  by_cases hop : op.completes = true
  · cases op with
    | workerTransition c fresh =>
      obtain ⟨userId, runId, action, owner, token⟩ := c
      cases action with
      | complete content =>
        generalize hresult : workerTransition ⟨userId, runId, .complete content, owner, token⟩ fresh
          view s = result at hr'
        simp only [Runtime.commit, hresult] at hr'
        cases result with
        | error e => exact .inr ⟨r', hr', .refl r', hstatus⟩
        | ok result =>
          rcases workerTransition_others rfl hresult hr' with hid | hr'
          · exact .inl (congrArg some hid.symm)
          · exact .inr ⟨r', hr', .refl r', hstatus⟩
      | _ => cases hop
    | _ => cases hop
  · refine .inr ?_
    rcases (commit_effect op view s).rowSteps hwf hviews with ⟨run, hnew, hinsert, -⟩ | hmoves
    · rcases (Table.mem_insert? hinsert).mp hr' with hr | rfl
      · exact ⟨r', hr, .refl r', hstatus⟩
      · rw [hnew] at hstatus
        cases hstatus
    · obtain ⟨r, hr, hsteps⟩ := hmoves.mem hr'
      have hkept := replyKept_of_rowSteps (by simpa using hop) hsteps
      exact ⟨r, hr, sameInput_of_rowSteps hsteps, hkept.status.mp hstatus⟩

/-! ## Formations that are due -/

theorem due_iff : due s r = true ↔ r.trigger = .userMessage ∧
    ∀ m ∈ s.messages, r.inputMessageId = some m.id → isExplicitMemoryCommand m.content = false := by
  simp [due, Table.mem_rows, imp_iff_not_or]

/-- A Run for which a formation is due was one before: messages are never lost. -/
theorem due_earlier (hlater : StoreLater s s') (hsame : SameInput r r') (h : due s' r' = true) :
    due s r = true := by
  obtain ⟨htrigger, hinput⟩ := due_iff.mp h
  refine due_iff.mpr ⟨hsame.trigger ▸ htrigger, fun m hm hid => ?_⟩
  exact hinput m (hlater.messages m hm) (hsame.inputMessageId.trans hid)

theorem Formed.later (h : Formed s r) (hlater : StoreLater s s') (hsame : SameInput r r') :
    Formed s' r' := by
  obtain ⟨j, hj, hkind, huser, hkey⟩ := h
  obtain ⟨j', hj', hjob⟩ := hlater.jobs j hj
  refine ⟨j', hj', hjob.kind.trans hkind, ?_, ?_⟩
  · rw [hjob.userId, huser, hsame.userId]
  · rw [hjob.dedupeKey, hkey, hsame.id]

/-! ## The invariant -/

/-- The messages that a worker has read. -/
def WorkerStage.messages : WorkerStage → List Message
  | .invoking messages | .answered messages _ _ | .accepted messages _ _ | .completed messages _ =>
    messages
  | _ => []

/-- The Run that a worker claimed is there, and so are the messages that it read. -/
structure Execution.Fits (x : Execution) (s : Store) : Prop where
  run : ∃ r ∈ s.facts.runs, SameInput x.run r
  messages : ∀ m ∈ x.stage.messages, m ∈ s.messages

theorem Execution.Fits.later (h : x.Fits s) (hlater : StoreLater s s') : x.Fits s' where
  run := by
    obtain ⟨r, hr, hsame⟩ := h.run
    obtain ⟨r', hr', hsame'⟩ := hlater.runs r hr
    exact ⟨r', hr', hsame.trans hsame'⟩
  messages m hm := hlater.messages m (h.messages m hm)

/-- A worker is about to queue the formation of the Run. -/
def Carried (w : Formation) (runId : UUID) : Prop :=
  ∃ execution x, w.executions execution = some x ∧ x.run.id = runId ∧ x.between = true

structure FormationFits (w : Formation) : Prop where
  formed : ∀ r ∈ w.store.facts.runs, r.status = .completed → due w.store r = true →
    Formed w.store r ∨ Carried w r.id
  executions : ∀ execution x, w.executions execution = some x → x.Fits w.store
  /-- The key of a formation names no job of another kind. -/
  keys : ∀ j ∈ w.store.durableJobs, ∀ runId, j.dedupeKey = memoryFormationKey runId →
    j.kind = .memoryFormation

/-- What a step has to show: the store moves on, and every completed Run was completed before, and is
carried no longer only if it is formed, or it is now carried. -/
theorem FormationFits.step (h : FormationFits w) (hlater : StoreLater w.store w'.store)
    (hexecutions : ∀ execution x, w'.executions execution = some x → x.Fits w'.store)
    (hkeys : ∀ j ∈ w'.store.durableJobs, ∀ runId, j.dedupeKey = memoryFormationKey runId →
      j.kind = .memoryFormation)
    (hrows : ∀ r' ∈ w'.store.facts.runs, r'.status = .completed → due w'.store r' = true →
      Carried w' r'.id ∨ ∃ r ∈ w.store.facts.runs, SameInput r r' ∧ r.status = .completed)
    (hcarried : ∀ r' ∈ w'.store.facts.runs, due w'.store r' = true → Carried w r'.id →
      Formed w'.store r' ∨ Carried w' r'.id) : FormationFits w' where
  formed r' hr' hstatus hdue := by
    rcases hrows r' hr' hstatus hdue with hcarried' | ⟨r, hr, hsame, hcompleted⟩
    · exact .inr hcarried'
    rcases h.formed r hr hcompleted (due_earlier hlater hsame hdue) with hformed | hold
    · exact .inl (hformed.later hlater hsame)
    · rw [← hsame.id] at hold
      exact hcarried r' hr' hdue hold
  executions := hexecutions
  keys := hkeys

/-! ## The store moves on -/

theorem memoryFormationKey_ne (runId runId' : UUID) :
    agentRunKey runId ≠ memoryFormationKey runId' :=
  Text.append_ne_append (c := 'a') (d := 'm') (by simp) (by simp) (by decide) _ _

/-- The keys of formations stay those of formations. -/
theorem keys_commit (op : Runtime.Op) (view : ℕ → Store)
    (h : ∀ j ∈ s.durableJobs, ∀ runId, j.dedupeKey = memoryFormationKey runId →
      j.kind = .memoryFormation) :
    ∀ j ∈ (Runtime.commit op view s).1.durableJobs, ∀ runId, j.dedupeKey = memoryFormationKey runId →
      j.kind = .memoryFormation := by
  intro j hj runId hkey
  rcases (commit_effect op view s).jobMoves with ⟨run, stamp, -, hinsert⟩ | hmoves
  · rcases (Table.mem_insert? hinsert).mp hj with hj | rfl
    · exact h j hj runId hkey
    · exact absurd hkey (memoryFormationKey_ne run.id runId)
  · obtain ⟨j₀, hj₀, hstep⟩ := hmoves.mem hj
    cases hstep with
    | refl => exact h _ hj₀ runId hkey
    | single hmove =>
      rw [hmove.sameJob.kind]
      exact h j₀ hj₀ runId (hmove.sameJob.dedupeKey.symm.trans hkey)

/-! ## One execution -/

theorem goOn_self : (w.goOn execution x stage).executions execution =
    stage.map ({ x with stage := · }) := Function.update_self ..

theorem goOn_of_ne {execution' : UUID} (hne : execution' ≠ execution) :
    (w.goOn execution x stage).executions execution' = w.executions execution' :=
  Function.update_of_ne hne ..

/-- The execution stands at a stage between the completion and the job. -/
def StandsBetween (x : Execution) (stage : Option WorkerStage) : Prop :=
  ∃ st ∈ stage, { x with stage := st }.between = true

/-- The step of one execution. -/
theorem FormationFits.goOn (h : FormationFits w) (hx : w.executions execution = some x)
    (hlater : StoreLater w.store s')
    (hkeys : ∀ j ∈ s'.durableJobs, ∀ runId, j.dedupeKey = memoryFormationKey runId →
      j.kind = .memoryFormation)
    (hmessages : ∀ st ∈ stage, ∀ m ∈ st.messages, m ∈ s'.messages)
    (hrows : ∀ r' ∈ s'.facts.runs, r'.status = .completed → due s' r' = true →
      (r'.id = x.run.id ∧ StandsBetween x stage) ∨
        ∃ r ∈ w.store.facts.runs, SameInput r r' ∧ r.status = .completed)
    (hcarried : ∀ r' ∈ s'.facts.runs, due s' r' = true → x.run.id = r'.id → x.between = true →
      Formed s' r' ∨ StandsBetween x stage) :
    FormationFits ({ w with store := s' }.goOn execution x stage) := by
  have hstands : ∀ runId, x.run.id = runId → StandsBetween x stage →
      Carried ({ w with store := s' }.goOn execution x stage) runId := by
    rintro runId hid ⟨st, hst, hbetween⟩
    refine ⟨execution, { x with stage := st }, ?_, hid, hbetween⟩
    rw [goOn_self, Option.mem_def.mp hst]
    rfl
  refine h.step hlater ?_ hkeys ?_ ?_
  · intro execution' x' hx'
    by_cases hsame : execution' = execution
    · rw [hsame, goOn_self] at hx'
      obtain ⟨st, hst, rfl⟩ := Option.map_eq_some_iff.mp hx'
      exact ⟨((h.executions execution x hx).later hlater).run, hmessages st hst⟩
    · rw [goOn_of_ne hsame] at hx'
      exact (h.executions execution' x' hx').later hlater
  · intro r' hr' hstatus hdue
    refine (hrows r' hr' hstatus hdue).imp_left fun ⟨hid, hbetween⟩ => ?_
    exact hstands r'.id hid.symm hbetween
  · rintro r' hr' hdue ⟨execution', x', hx', hid, hbetween⟩
    by_cases hsame : execution' = execution
    · rw [hsame, hx] at hx'
      obtain rfl := Option.some.inj hx'
      exact (hcarried r' hr' hdue hid hbetween).imp_right (hstands r'.id hid)
    · exact .inr ⟨execution', x', by rw [goOn_of_ne hsame]; exact hx', hid, hbetween⟩

/-- A formation that is due was due for the execution of its Run before. -/
theorem owing_of_due (hfits : x.Fits s) (hlater : StoreLater s s') (hr' : r' ∈ s'.facts.runs)
    (hid : r'.id = x.run.id) (hdue : due s' r' = true) : x.owing s = true := by
  obtain ⟨r, hr, hsame⟩ := hfits.run
  obtain ⟨r'', hr'', hsame'⟩ := hlater.runs r hr
  obtain rfl := run_ext hr'' hr' ((hsame'.id.trans hsame.id).trans hid.symm)
  have hbefore := due_earlier hlater hsame' hdue
  obtain ⟨run, hrun, rfl⟩ := Store.exists_of_mem_facts_runs hr
  refine List.any_eq_true.mpr ⟨run, hrun, ?_⟩
  have hrunid : run.id = x.run.id := hsame.id
  have hrundue : due s run = true := hbefore
  simp [hrunid, hrundue]

theorem completed_of_raised {runId : UUID} {error : RuntimeError} (hop : completing op = some runId)
    (h : (Runtime.commit op view s).2 = .raised error) : (Runtime.commit op view s).1 = s := by
  cases op with
  | workerTransition c fresh =>
    show (settled s Runtime.Reply.run (workerTransition c fresh view s)).1 = s
    replace h : (settled s Runtime.Reply.run (workerTransition c fresh view s)).2 = .raised error := h
    generalize workerTransition c fresh view s = result at h ⊢
    cases result with
    | error e => rfl
    | ok result => cases h
  | _ => cases hop

theorem follow_cases (op : Runtime.Op) (next failed : Option WorkerStage) (view : ℕ → Store) (s : Store) :
    (∃ error, (Runtime.commit op view s).2 = .raised error ∧
      follow op next failed view s = ((Runtime.commit op view s).1, failed)) ∨
      follow op next failed view s = ((Runtime.commit op view s).1, next) := by
  unfold follow
  split
  · next heq => exact .inl ⟨_, by rw [heq], by rw [heq]⟩
  · next heq => exact .inr (by rw [heq])

/-- A transaction of a worker that is not between the completion and the job. -/
theorem FormationFits.followed (h : FormationFits w) (hwf : RunsWellFormed w.store.facts.runs)
    (hviews : ∀ n, RunsLater (view n).facts.runs w.store.facts.runs)
    (hx : w.executions execution = some x) (hbetween : x.between = false)
    (hnext : ∀ st ∈ next, st.messages ⊆ x.stage.messages)
    (hfailed : ∀ st ∈ failed, st.messages ⊆ x.stage.messages)
    (hcompletes : ∀ runId, completing op = some runId → x.owing w.store = true →
      StandsBetween x next)
    (hown : ∀ runId, completing op = some runId → runId = x.run.id) :
    FormationFits ({ w with store := (follow op next failed view w.store).1 }.goOn execution
      x (follow op next failed view w.store).2) := by
  have hlater := storeLater_commit op hwf hviews
  have hread : ∀ {st : WorkerStage}, st.messages ⊆ x.stage.messages →
      ∀ m ∈ st.messages, m ∈ (Runtime.commit op view w.store).1.messages := fun hsub m hm =>
    hlater.messages m ((h.executions execution x hx).messages m (hsub hm))
  have hnot : ∀ r' ∈ (Runtime.commit op view w.store).1.facts.runs,
      due (Runtime.commit op view w.store).1 r' = true → x.run.id = r'.id → x.between = true →
        ∀ {P : Prop}, P := by
    intro r' _ _ _ hb
    rw [hbetween] at hb
    cases hb
  rcases follow_cases op next failed view w.store with ⟨error, hraised, hfollow⟩ | hfollow
  · rw [hfollow]
    refine h.goOn hx hlater (keys_commit op view h.keys) (fun st hst => hread (hfailed st hst))
      (fun r' hr' hstatus hdue => .inr ?_) fun r' hr' hdue hid hb => hnot r' hr' hdue hid hb
    rcases completed_commit op hwf hviews hr' hstatus with hop | hbefore
    · rw [completed_of_raised hop hraised] at hr'
      exact ⟨r', hr', .refl r', hstatus⟩
    · exact hbefore
  · rw [hfollow]
    refine h.goOn hx hlater (keys_commit op view h.keys) (fun st hst => hread (hnext st hst))
      (fun r' hr' hstatus hdue => ?_) fun r' hr' hdue hid hb => hnot r' hr' hdue hid hb
    rcases completed_commit op hwf hviews hr' hstatus with hop | hbefore
    · have hid := hown _ hop
      have howing := owing_of_due (h.executions execution x hx) hlater hr' hid hdue
      exact .inl ⟨hid, hcompletes _ hop howing⟩
    · exact .inr hbefore

/-! ## The job -/

variable {event : MemoryFormationEvent} {stamp : Stamp}

theorem formationJob_postInit : (formationJob event stamp).postInit = .ok (formationJob event stamp) := by
  have hblank : Text.isBlank (memoryFormationKey event.runId) = false := by
    unfold memoryFormationKey Text.isBlank
    rw [String.toList_append, List.all_append]
    rfl
  unfold DurableJob.postInit
  rw [if_neg (by simp [formationJob, hblank]), if_neg (by simp [formationJob])]

/-- The job is queued, or it was there already. -/
theorem enqueue_ok (h : enqueueMemoryFormation event stamp view s = .ok s') :
    (s' = s ∧ ∃ j ∈ (view 0).durableJobs,
        j.userId = event.userId ∧ j.dedupeKey = memoryFormationKey event.runId) ∨
      ∃ durableJobs, s.durableJobs.insert? (formationJob event stamp) = some durableJobs ∧
        s' = { s with durableJobs } := by
  unfold enqueueMemoryFormation at h
  split at h
  · next j hj =>
    obtain ⟨hmem, hwhere⟩ := Table.get_eq_some hj
    exact .inl ⟨(pure_eq_ok.mp h).symm, j, hmem, of_decide_eq_true hwhere⟩
  · exact .inr (Store.addJob_ok h)

/-- A new job can be refused only for one that the Run has. -/
theorem exists_of_enqueue_error {error : RuntimeError}
    (h : enqueueMemoryFormation event stamp view s = .error error)
    (hfresh : ∀ j ∈ s.durableJobs, j.id ≠ stamp.id) : ∃ j ∈ s.durableJobs,
      j.userId = event.userId ∧ j.dedupeKey = memoryFormationKey event.runId := by
  by_contra hnone
  have hinsert : ∃ durableJobs, s.durableJobs.insert? (formationJob event stamp) =
      some durableJobs := by
    refine Table.exists_insert? fun j hj hconflict => ?_
    rcases hconflict with hid | hkey
    · exact hfresh j hj hid
    · exact hnone ⟨j, hj, hkey⟩
  obtain ⟨durableJobs, hinsert⟩ := hinsert
  unfold enqueueMemoryFormation at h
  split at h
  · cases h
  · have hok : s.addJob (formationJob event stamp) = .ok { s with durableJobs } := by
      unfold Store.addJob
      rw [bind_of_ok (reraise_eq_ok.mpr formationJob_postInit), bind_of_orRaise hinsert]
      rfl
    rw [hok] at h
    cases h

theorem storeLater_insertJob {durableJobs : Table DurableJob} {job : DurableJob}
    (hinsert : s.durableJobs.insert? job = some durableJobs) :
    StoreLater s { s with durableJobs } where
  runs r hr := ⟨r, hr, .refl r⟩
  messages _ hm := hm
  jobs j hj := ⟨j, (Table.mem_insert? hinsert).mpr (.inl hj), .refl j⟩

/-- A job under the key of the Run is the job of its formation. -/
theorem formed_of_key (hkeys : ∀ j ∈ s.durableJobs, ∀ runId,
      j.dedupeKey = memoryFormationKey runId → j.kind = .memoryFormation)
    (hsame : SameInput x.run r)
    (h : ∃ j ∈ s.durableJobs, j.userId = x.run.userId ∧
      j.dedupeKey = memoryFormationKey x.run.id) : Formed s r := by
  obtain ⟨j, hj, huser, hkey⟩ := h
  exact ⟨j, hj, hkeys j hj _ hkey, by rw [huser, hsame.userId], by rw [hkey, hsame.id]⟩

/-- The end of a Run that the worker has completed queues the formation that is due. -/
theorem FormationFits.form (h : FormationFits w)
    (hviews : ∀ n, StoreLater (view n) w.store) (hx : w.executions execution = some x)
    {messages : List Message} {toolCodes : List String}
    (hstage : x.stage = .completed messages toolCodes)
    (hsafe : x.owing w.store = true → x.safe stamp.id w.store = true) :
    FormationFits ({ w with store := (x.form messages toolCodes stamp view w.store).1 }.goOn execution
      x (x.form messages toolCodes stamp view w.store).2) := by
  have hfits := h.executions execution x hx
  -- a formation that is due finds the worker configured, and the message and a fresh id at hand
  have hsafe : ∀ r ∈ w.store.facts.runs, due w.store r = true → x.run.id = r.id →
      x.forms = true ∧ (x.current messages).isSome = true ∧
        ∀ j ∈ w.store.durableJobs, j.id ≠ stamp.id := by
    intro r hr hdue hid
    have hall := hsafe (owing_of_due hfits (.refl _) hr hid.symm hdue)
    simpa [Execution.safe, hstage, Table.mem_rows, and_assoc] using hall
  have hsame : ∀ r ∈ w.store.facts.runs, x.run.id = r.id → SameInput x.run r := by
    intro r hr hid
    obtain ⟨r₀, hr₀, hinput⟩ := hfits.run
    rwa [run_ext hr hr₀ (hid.symm.trans hinput.id.symm)]
  have hidle : ∀ {st : Option WorkerStage}, (∀ m ∈ st, m.messages = []) →
      (∀ r ∈ w.store.facts.runs, due w.store r = true → x.run.id = r.id → Formed w.store r) →
      FormationFits ({ w with store := w.store }.goOn execution x st) := by
    intro st hst hformed
    refine h.goOn hx (.refl _) h.keys (fun st' hst' m hm => ?_) (fun r' hr' hstatus _ => .inr ?_)
      fun r' hr' hdue hid _ => .inl (hformed r' hr' hdue hid)
    · rw [hst st' hst'] at hm
      cases hm
    · exact ⟨r', hr', .refl r', hstatus⟩
  unfold Execution.form
  split
  case isFalse hforms =>
    exact hidle (by simp) fun r hr hdue hid => absurd (hsafe r hr hdue hid).1 hforms
  case isTrue hforms =>
    split
    · next hcurrent =>
      refine hidle (by simp [Execution.failed, WorkerStage.messages]) fun r hr hdue hid => ?_
      have hsome := (hsafe r hr hdue hid).2.1
      rw [hcurrent] at hsome
      cases hsome
    · next message hcurrent =>
      split
      · next hexplicit =>
        refine hidle (by simp) fun r hr hdue hid => ?_
        have hmem : message ∈ w.store.messages := by
          refine hfits.messages message ?_
          rw [hstage]
          exact List.mem_of_find?_eq_some hcurrent
        have hinput : some message.id = x.run.inputMessageId := by
          simpa using List.find?_some hcurrent
        have hplain := (due_iff.mp hdue).2 message hmem
          ((hsame r hr hid).inputMessageId.trans hinput.symm)
        rw [hplain] at hexplicit
        cases hexplicit
      · dsimp only
        split
        · next s' henqueue =>
          rcases enqueue_ok henqueue with ⟨rfl, j, hj, huser, hkey⟩ | ⟨durableJobs, hinsert, rfl⟩
          · refine hidle (by simp) fun r hr hdue hid => ?_
            obtain ⟨j', hj', hjob⟩ := (hviews 0).jobs j hj
            exact formed_of_key h.keys (hsame r hr hid)
              ⟨j', hj', hjob.userId.trans huser, hjob.dedupeKey.trans hkey⟩
          · refine h.goOn hx (storeLater_insertJob hinsert) ?_ (by simp)
              (fun r' hr' hstatus _ => .inr ⟨r', hr', .refl r', hstatus⟩)
              fun r' hr' hdue hid _ => .inl ?_
            · intro j hj runId hkey
              rcases (Table.mem_insert? hinsert).mp hj with hj | rfl
              · exact h.keys j hj runId hkey
              · rfl
            · refine ⟨_, (Table.mem_insert? hinsert).mpr (.inr rfl), rfl, ?_, ?_⟩
              · exact (hsame r' hr' hid).userId.symm
              · exact congrArg memoryFormationKey hid
        · next henqueue =>
          refine hidle (by simp [Execution.failed, WorkerStage.messages]) fun r hr hdue hid => ?_
          exact formed_of_key h.keys (hsame r hr hid)
            (exists_of_enqueue_error henqueue (hsafe r hr hdue hid).2.2)

/-! ## Every step -/

theorem mem_of_invoke {input : GraphInput} {st : WorkerStage} {m : Message}
    (hst : st ∈ x.invoke input view) (hm : m ∈ st.messages) : m ∈ (view 1).messages := by
  unfold Execution.invoke at hst
  split at hst
  · cases hst
  · next messages hlist =>
    split at hst
    · obtain rfl := Option.some.inj hst
      cases hm
    · obtain rfl := Option.some.inj hst
      have hm : m ∈ messages := hm
      simp only [listMessages, bind_eq_ok, pure_eq_ok] at hlist
      obtain ⟨_, -, rfl⟩ := hlist
      have htaken := List.mem_of_mem_take (List.mem_reverse.mp hm)
      exact (Table.mem_select.mp ((List.mem_insertionSort _).mp htaken)).1

/-- The next transaction of a worker. -/
theorem FormationFits.proceed (h : FormationFits w) (hwf : RunsWellFormed w.store.facts.runs)
    (hviews : ∀ n, RunsLater (view n).facts.runs w.store.facts.runs ∧ StoreLater (view n) w.store)
    (hx : w.executions execution = some x)
    (hsafe : x.owing w.store = true → x.safe (fresh 0).id w.store = true) :
    FormationFits ({ w with store := (x.proceed fresh view w.store).1 }.goOn execution x
      (x.proceed fresh view w.store).2) := by
  have hread n := (hviews n).1
  have hfits := h.executions execution x hx
  have hidle : ∀ {st : Option WorkerStage}, x.between = false →
      (∀ st' ∈ st, ∀ m ∈ st'.messages, m ∈ w.store.messages) →
      FormationFits ({ w with store := w.store }.goOn execution x st) := by
    intro st hbetween hst
    refine h.goOn hx (.refl _) h.keys hst (fun r' hr' hstatus _ => .inr ⟨r', hr', .refl r', hstatus⟩)
      fun r' _ _ _ hb => ?_
    rw [hbetween] at hb
    cases hb
  have hquiet : ∀ {op : Runtime.Op} {next failed : Option WorkerStage}, x.between = false →
      completing op = none → (∀ st ∈ next, st.messages ⊆ x.stage.messages) →
      (∀ st ∈ failed, st.messages ⊆ x.stage.messages) →
      FormationFits ({ w with store := (follow op next failed view w.store).1 }.goOn execution x
        (follow op next failed view w.store).2) := by
    intro op next failed hbetween hop hnext hfailed
    refine h.followed hwf hread hx hbetween hnext hfailed ?_ ?_ <;>
    · intro runId hruns
      rw [hop] at hruns
      cases hruns
  have hcompletes : ∀ {content : String} {next failed : Option WorkerStage}, x.between = false →
      (∀ st ∈ next, st.messages ⊆ x.stage.messages) →
      (∀ st ∈ failed, st.messages ⊆ x.stage.messages) →
      (x.owing w.store = true → StandsBetween x next) →
      FormationFits ({ w with store := (follow (x.transition (.complete content) fresh) next failed
        view w.store).1 }.goOn execution x
          (follow (x.transition (.complete content) fresh) next failed view w.store).2) := by
    intro content next failed hbetween hnext hfailed hstands
    refine h.followed hwf hread hx hbetween hnext hfailed (fun _ _ => hstands) fun runId hruns => ?_
    have hruns : some x.run.id = some runId := hruns
    exact (Option.some.inj hruns).symm
  have hnone : ∀ st ∈ (none : Option WorkerStage), st.messages ⊆ x.stage.messages := by simp
  have hhandled : ∀ st ∈ Execution.failed, st.messages ⊆ x.stage.messages := by
    simp [Execution.failed, WorkerStage.messages]
  have hlives : (∀ messages toolCodes, x.stage ≠ .completed messages toolCodes) →
      x.between = false := by
    intro hstage
    unfold Execution.between
    split
    · next heq => exact absurd heq (hstage _ _)
    · rfl
  unfold Execution.proceed
  cases hstage : x.stage with
  | claimed =>
    refine hidle (hlives (by simp [hstage])) fun st hst m hm => ?_
    obtain rfl := Option.some.inj hst
    cases hm
  | decided decision =>
    have hbetween := hlives (by simp [hstage])
    cases decision with
    | failRun errorCode => exact hquiet hbetween rfl hnone hnone
    | completeRun content =>
      refine hcompletes hbetween hnone hnone fun howing => ?_
      have hfalse := hsafe howing
      simp [Execution.safe, hstage] at hfalse
    | finalize output content => exact hquiet hbetween rfl (by simp [WorkerStage.messages]) hnone
    | requireInput payload interactionId => exact hquiet hbetween rfl hnone hnone
    | invoke input =>
      refine hidle hbetween fun st hst m hm => ?_
      exact (hviews 1).2.messages m (mem_of_invoke hst hm)
    | raises => exact hidle hbetween (by simp)
  | finalizing content =>
    refine hcompletes (hlives (by simp [hstage])) hnone hnone fun howing => ?_
    have hfalse := hsafe howing
    simp [Execution.safe, hstage] at hfalse
  | invoking messages =>
    refine hidle (hlives (by simp [hstage])) fun st hst m hm => hfits.messages m ?_
    obtain rfl := Option.some.inj hst
    rwa [hstage]
  | interrupted payload => exact hquiet (hlives (by simp [hstage])) rfl hnone hhandled
  | answered messages response toolCodes =>
    exact hquiet (hlives (by simp [hstage])) rfl (by simp [hstage, WorkerStage.messages]) hhandled
  | accepted messages response toolCodes =>
    refine hcompletes (hlives (by simp [hstage])) (by simp [hstage, WorkerStage.messages]) hhandled
      fun _ => ⟨_, rfl, rfl⟩
  | completed messages toolCodes =>
    exact h.form (fun n => (hviews n).2) hx hstage hsafe
  | failing errorCode => exact hquiet (hlives (by simp [hstage])) rfl hnone hnone

/-- What a step leaves of the store. -/
structure StoreStep (s s' : Store) : Prop where
  wellFormed : RunsWellFormed s'.facts.runs
  runsLater : RunsLater s.facts.runs s'.facts.runs
  later : StoreLater s s'

theorem StoreStep.commit (op : Runtime.Op) (hwf : RunsWellFormed s.facts.runs)
    (hviews : ∀ n, RunsLater (view n).facts.runs s.facts.runs) :
    StoreStep s (Runtime.commit op view s).1 := by
  obtain ⟨hwf', hlater⟩ := (commit_effect op view s).runsKept hwf hviews
  exact ⟨hwf', hlater, storeLater_commit op hwf hviews⟩

theorem StoreStep.jobs {durableJobs : Table DurableJob} (hwf : RunsWellFormed s.facts.runs)
    (hjobs : ∀ j ∈ s.durableJobs, ∃ j' ∈ durableJobs, SameJob j j') :
    StoreStep s { s with durableJobs } :=
  ⟨hwf, .refl _, fun r hr => ⟨r, hr, .refl r⟩, fun _ hm => hm, hjobs⟩

theorem StoreStep.refl (hwf : RunsWellFormed s.facts.runs) : StoreStep s s := ⟨hwf, .refl _, .refl s⟩

theorem storeStep_follow (op : Runtime.Op) (next failed : Option WorkerStage)
    (hwf : RunsWellFormed s.facts.runs)
    (hviews : ∀ n, RunsLater (view n).facts.runs s.facts.runs) :
    StoreStep s (follow op next failed view s).1 := by
  have hcommit := StoreStep.commit op hwf hviews
  rcases follow_cases op next failed view s with ⟨_, -, hfollow⟩ | hfollow
  · rw [hfollow]
    exact hcommit
  · rw [hfollow]
    exact hcommit

theorem storeStep_form (x : Execution) (messages : List Message) (toolCodes : List String)
    (stamp : Stamp) (hwf : RunsWellFormed s.facts.runs) :
    StoreStep s (x.form messages toolCodes stamp view s).1 := by
  unfold Execution.form
  split
  · split
    · exact .refl hwf
    · split
      · exact .refl hwf
      · dsimp only
        split
        · next s' henqueue =>
          rcases enqueue_ok henqueue with ⟨rfl, -⟩ | ⟨durableJobs, hinsert, rfl⟩
          · exact .refl hwf
          · exact .jobs hwf (storeLater_insertJob hinsert).jobs
        · exact .refl hwf
  · exact .refl hwf

theorem storeStep_proceed (x : Execution) (fresh : ℕ → Stamp) (hwf : RunsWellFormed s.facts.runs)
    (hviews : ∀ n, RunsLater (view n).facts.runs s.facts.runs) :
    StoreStep s (x.proceed fresh view s).1 := by
  unfold Execution.proceed
  cases x.stage with
  | claimed | invoking _ => exact .refl hwf
  | decided decision =>
    cases decision with
    | invoke _ | raises => exact .refl hwf
    | _ => exact storeStep_follow _ _ _ hwf hviews
  | completed messages toolCodes => exact storeStep_form x messages toolCodes (fresh 0) hwf
  | _ => exact storeStep_follow _ _ _ hwf hviews

theorem messages_of_returned {outcome : GraphOutcome} {leaseLost : Bool} {messages : List Message}
    {st : WorkerStage} {m : Message} (hst : st ∈ Execution.returned outcome leaseLost messages)
    (hm : m ∈ st.messages) : m ∈ messages := by
  cases outcome with
  | interrupted payload =>
    obtain rfl := Option.some.inj hst
    cases hm
  | ended response toolCodes =>
    cases response with
    | none =>
      obtain rfl := Option.some.inj hst
      cases hm
    | some response =>
      simp only [Execution.returned] at hst
      split at hst
      · obtain rfl := Option.some.inj hst
        cases hm
      · obtain rfl := Option.some.inj hst
        exact hm

theorem messages_of_raised {errorCode : String} {st : WorkerStage} (hst : st ∈ x.raised errorCode) :
    st.messages = [] := by
  unfold Execution.raised at hst
  split at hst <;> cases hst <;> rfl

/-- A step that leaves the store as it is, and takes an execution on that is not between the
completion of a due Run and its job. -/
theorem FormationFits.stay (h : FormationFits w) (hx : w.executions execution = some x)
    (hmessages : ∀ st ∈ stage, ∀ m ∈ st.messages, m ∈ w.store.messages)
    (hsafe : x.owing w.store = true → x.between = false) :
    FormationFits (w.goOn execution x stage) := by
  refine h.goOn hx (.refl _) h.keys hmessages
    (fun r' hr' hstatus _ => .inr ⟨r', hr', .refl r', hstatus⟩) fun r' hr' hdue hid hbetween => ?_
  rw [hsafe (owing_of_due (h.executions execution x hx) (.refl _) hr' hid.symm hdue)] at hbetween
  cases hbetween

/-- A transaction of another client. -/
theorem FormationFits.other (h : FormationFits w) (op : Runtime.Op) (hop : completing op = none)
    (hwf : RunsWellFormed w.store.facts.runs)
    (hviews : ∀ n, RunsLater (view n).facts.runs w.store.facts.runs) :
    FormationFits { w with store := (Runtime.commit op view w.store).1 } := by
  have hlater := storeLater_commit op hwf hviews
  refine h.step hlater (fun e x hx => (h.executions e x hx).later hlater) (keys_commit op view h.keys)
    (fun r' hr' hstatus _ => .inr ?_) fun r' _ _ hcarried => .inr hcarried
  rcases completed_commit op hwf hviews hr' hstatus with hruns | hbefore
  · rw [hop] at hruns
    cases hruns
  · exact hbefore

theorem completing_of_completes (h : op.completes = false) : completing op = none := by
  unfold completing
  split
  · cases h
  · rfl

theorem settle_same (jobId : UUID) (owner : String) (claimEpoch : ℕ) (status : DurableJobStatus)
    (now : Timestamp) (errorCode : Option String) (t : Table DurableJob) :
    t.Moves SameJob (DurableJobRepository.settle jobId owner claimEpoch status now errorCode t).1 :=
  .update .refl fun _ _ _ => ⟨rfl, rfl, rfl, rfl⟩

/-- A worker of memory formation settles its job. -/
theorem FormationFits.settle (h : FormationFits w) {jobId : UUID} {owner : String} {claimEpoch : ℕ}
    {now : Timestamp} (hwf : RunsWellFormed w.store.facts.runs) :
    FormationFits { w with store := { w.store with
      durableJobs := (DurableJobRepository.settle jobId owner claimEpoch .completed now none
        w.store.durableJobs).1 } } := by
  have hmoves := settle_same jobId owner claimEpoch .completed now none w.store.durableJobs
  have hlater := (StoreStep.jobs hwf fun j hj => hmoves.exists_mem hj).later
  refine h.step hlater (fun e x hx => (h.executions e x hx).later hlater) (fun j hj runId hkey => ?_)
    (fun r' hr' hstatus _ => .inr ⟨r', hr', .refl r', hstatus⟩) fun r' _ _ hcarried => .inr hcarried
  obtain ⟨j₀, hj₀, hsame⟩ := hmoves.mem hj
  rw [hsame.kind]
  exact h.keys j₀ hj₀ runId (hsame.dedupeKey.symm.trans hkey)

/-- The Run that a claim answers with is there. -/
theorem fits_of_claim {userId runId : UUID} {owner : String} {lease : ℤ} {run : AgentRun}
    {worker : AgentRunWorker} {forms : Bool} {token : UUID}
    (hlater : StoreLater s (Runtime.commit (.claimRun userId runId owner lease fresh) view s).1)
    (h : (Runtime.commit (.claimRun userId runId owner lease fresh) view s).2 = .claimed (some run)) :
    Execution.Fits ⟨worker, forms, run, token, .claimed⟩
      (Runtime.commit (.claimRun userId runId owner lease fresh) view s).1 where
  run := by
    obtain ⟨s', claimed, hclaim, hreply⟩ := settled_reply (fun _ => by simp) h
    obtain rfl : claimed = some run := by simpa using hreply
    rcases claimRun_ok hclaim with ⟨hnone, -⟩ | ⟨⟨r, hr, -, hrun⟩, -⟩
    · cases hnone
    obtain rfl := Option.some.inj hrun
    obtain ⟨r', hr', hsame⟩ := hlater.runs _ (Store.mem_facts_runs hr)
    exact ⟨r', hr', hsame.id, hsame.userId, hsame.trigger, hsame.inputMessageId⟩
  messages m hm := by cases hm

/-- A worker begins to execute a Run. -/
theorem FormationFits.start (h : FormationFits w) (hfree : w.executions execution = none)
    (hlater : StoreLater w.store s')
    (hkeys : ∀ j ∈ s'.durableJobs, ∀ runId, j.dedupeKey = memoryFormationKey runId →
      j.kind = .memoryFormation)
    (hfits : x.Fits s') (hstage : x.stage = .claimed)
    (hrows : ∀ r' ∈ s'.facts.runs, r'.status = .completed →
      ∃ r ∈ w.store.facts.runs, SameInput r r' ∧ r.status = .completed) :
    FormationFits ({ w with store := s' }.goOn execution x (some .claimed)) := by
  refine h.step hlater (fun execution' x' hx' => ?_) hkeys
    (fun r' hr' hstatus _ => .inr (hrows r' hr' hstatus)) fun r' hr' hdue hcarried => .inr ?_
  · by_cases hsame : execution' = execution
    · rw [hsame, goOn_self] at hx'
      obtain rfl := Option.some.inj hx'
      rwa [← hstage]
    · rw [goOn_of_ne hsame] at hx'
      exact (h.executions execution' x' hx').later hlater
  · obtain ⟨execution', x', hx', hid, hbetween⟩ := hcarried
    have hne : execution' ≠ execution := by
      rintro rfl
      rw [hfree] at hx'
      cases hx'
    exact ⟨execution', x', by rw [goOn_of_ne hne]; exact hx', hid, hbetween⟩

/-- The invariant with the Runs well formed. -/
structure Sound (w : Formation) : Prop where
  wellFormed : RunsWellFormed w.store.facts.runs
  fits : FormationFits w

/-- What a step may still rely on. -/
structure FormationLater (v w : Formation) : Prop where
  runsLater : RunsLater v.store.facts.runs w.store.facts.runs
  later : StoreLater v.store w.store

theorem FormationLater.refl (w : Formation) : FormationLater w w := ⟨.refl _, .refl _⟩

theorem StoreStep.sound {executions : UUID → Option Execution} (h : StoreStep w.store s')
    (hfits : FormationFits ⟨s', executions⟩) :
    Sound ⟨s', executions⟩ ∧ FormationLater w ⟨s', executions⟩ :=
  ⟨⟨h.wellFormed, hfits⟩, h.runsLater, h.later⟩

/-- Every step that is safe keeps the invariant. -/
theorem Sound.step {view : ℕ → Formation} (op : FormationOp) (h : Sound w)
    (hviews : ∀ n, FormationLater (view n) w) (hsafe : op.safe w = true) :
    Sound (w.commit op view) ∧ FormationLater w (w.commit op view) := by
  have hread n := (hviews n).runsLater
  have hidle : Sound w ∧ FormationLater w w := ⟨h, .refl w⟩
  have hstay : ∀ {execution : UUID} {x : Execution} {stage : Option WorkerStage},
      w.executions execution = some x →
      (∀ st ∈ stage, ∀ m ∈ st.messages, m ∈ w.store.messages) →
      (x.owing w.store = true → x.between = false) →
      Sound (w.goOn execution x stage) ∧ FormationLater w (w.goOn execution x stage) :=
    fun hx hmessages hbetween =>
      (StoreStep.refl h.wellFormed).sound (h.fits.stay hx hmessages hbetween)
  cases op with
  | other op hother =>
    have hstep := StoreStep.commit op h.wellFormed hread
    exact hstep.sound (h.fits.other op (completing_of_completes hother) h.wellFormed hread)
  | claim execution worker forms userId runId lease fresh =>
    have hstep := StoreStep.commit (.claimRun userId runId worker.workerId lease fresh) h.wellFormed
      hread
    have hother := h.fits.other (.claimRun userId runId worker.workerId lease fresh) rfl h.wellFormed
      hread
    simp only [Formation.commit]
    split
    · exact hidle
    · next hfree =>
      split
      · next run hreply =>
        split
        · next token htoken =>
          refine hstep.sound (h.fits.start hfree hstep.later hother.keys
            (fits_of_claim hstep.later hreply) rfl fun r' hr' hstatus => ?_)
          exact (completed_commit _ h.wellFormed hread hr' hstatus).resolve_left (by simp [completing])
        · exact hstep.sound hother
      · exact hstep.sound hother
  | decide execution snapshot now =>
    simp only [Formation.commit]
    split
    · next worker forms run token hx => exact hstay hx (by simp [WorkerStage.messages]) fun _ => rfl
    · exact hidle
  | proceed execution fresh =>
    simp only [Formation.commit]
    split
    · next x hx =>
      have hsafe : x.owing w.store = true → x.safe (fresh 0).id w.store = true := by
        simpa [FormationOp.safe, hx, imp_iff_not_or] using hsafe
      refine (storeStep_proceed x fresh h.wellFormed hread).sound ?_
      exact h.fits.proceed h.wellFormed (fun n => ⟨hread n, (hviews n).later⟩) hx hsafe
    · exact hidle
  | returns execution outcome leaseLost =>
    simp only [Formation.commit]
    split
    · next worker forms run token messages hx =>
      refine hstay hx (fun st hst m hm => ?_) fun _ => rfl
      refine (h.fits.executions execution _ hx).messages m ?_
      exact messages_of_returned hst hm
    · exact hidle
  | raises execution errorCode =>
    simp only [Formation.commit]
    split
    · next x hx =>
      refine hstay hx (fun st hst m hm => ?_) ?_
      · have hnone := messages_of_raised hst
        rw [hnone] at hm
        cases hm
      · simpa [FormationOp.safe, hx, imp_iff_not_or] using hsafe
    · exact hidle
  | crash execution =>
    cases hx : w.executions execution with
    | none =>
      have hsame : w.commit (.crash execution) view = w := by
        show { w with executions := Function.update w.executions execution none } = w
        rw [← hx, Function.update_eq_self]
      rw [hsame]
      exact hidle
    | some x =>
      refine @hstay execution x none hx (by simp) ?_
      simpa [FormationOp.safe, hx, imp_iff_not_or] using hsafe
  | settle jobId owner claimEpoch now =>
    have hmoves := settle_same jobId owner claimEpoch .completed now none w.store.durableJobs
    exact (StoreStep.jobs h.wellFormed fun j hj => hmoves.exists_mem hj).sound
      (h.fits.settle h.wellFormed)

/-! ## Every history -/

theorem formation_stable : Program.Stable formation (fun op _ w => op.safe w = true) Sound FormationLater where
  init w hw := by
    obtain rfl : w = ⟨{}, fun _ => none⟩ := hw
    refine ⟨fun r hr => absurd hr Table.not_mem_empty, ⟨?_, ?_, ?_⟩⟩
    · exact fun r hr => absurd hr Table.not_mem_empty
    · exact fun execution x hx => absurd hx (by simp)
    · exact fun j hj => absurd hj Table.not_mem_empty
  refl := FormationLater.refl
  trans _ _ _ h h' := ⟨h.runsLater.trans h'.runsLater, h.later.trans h'.later⟩
  step op view w h hviews hsafe := h.step op (fun n => (hviews n).2) hsafe

/-- In every history in which no worker completes a Run out of a terminal output that it found, and
none raises or dies between a completion and its job, no formation that is due is lost. -/
theorem formation_kept {h : History Formation FormationOp Unit}
    (hr : formation.ReachableIf (fun op _ w => op.safe w = true) h) : ∀ w ∈ h.states, NoneLost w := by
  intro w hw r hr' hstatus hdue hidle
  have hfits := (formation_stable.inv_mem hr hw).fits
  rcases hfits.formed _ (Store.mem_facts_runs hr') hstatus hdue with hformed | hcarried
  · exact hformed
  · obtain ⟨execution, x, hx, hid, -⟩ := hcarried
    exact absurd hid (hidle execution x hx)

/-! ## A worker dies in between -/

/-- The execution that a step is of. -/
def FormationOp.executes : FormationOp → Option UUID
  | .other _ _ | .settle _ _ _ _ => none
  | .claim execution _ _ _ _ _ _ | .decide execution _ _ | .proceed execution _
  | .returns execution _ _ | .raises execution _ | .crash execution => some execution

theorem executions_of_ne (op : FormationOp) (view : ℕ → Formation) (w : Formation)
    (hne : op.executes ≠ some execution) :
    (w.commit op view).executions execution = w.executions execution := by
  have hgo : ∀ {execution' : UUID} {x : Execution} {stage : Option WorkerStage} {w' : Formation},
      FormationOp.executes op = some execution' → w'.executions = w.executions →
        (w'.goOn execution' x stage).executions execution = w.executions execution := by
    intro execution' x stage w' hop hw
    rw [goOn_of_ne (fun hsame => hne (hop.trans (congrArg some hsame.symm))), hw]
  cases op with
  | other | settle => rfl
  | claim =>
    simp only [Formation.commit]
    split
    · rfl
    · split
      · split
        · exact hgo rfl rfl
        · rfl
      · rfl
  | decide | proceed | returns | raises =>
    simp only [Formation.commit]
    split
    · exact hgo rfl rfl
    · rfl
  | crash execution' => exact Function.update_of_ne (fun hsame => hne (congrArg some hsame.symm)) ..

theorem serial_executions_of_ne {ops : List FormationOp}
    (hne : ∀ op ∈ ops, op.executes ≠ some execution) (w : Formation) :
    (formation.serial w ops).cur.executions execution = w.executions execution := by
  suffices hfold : ∀ (ops : List FormationOp) (h : History Formation FormationOp Unit),
      (∀ op ∈ ops, op.executes ≠ some execution) →
      (ops.foldl (fun h op => formation.extend h op fun _ => h.cur) h).cur.executions execution =
        h.cur.executions execution from hfold ops _ hne
  intro ops
  induction ops with
  | nil => exact fun h _ => rfl
  | cons op ops ih =>
    intro h hne
    rw [List.foldl_cons, ih _ fun op' hop' => hne op' (.tail _ hop')]
    exact executions_of_ne op _ h.cur (hne op (.head _))

/-- User 1 says hello in Run 10, and a worker gets a response and has it accepted. -/
def acceptedRun : List FormationOp :=
  [.other (.createThread 1 "title" "thread" none false ⟨2, 0⟩) rfl,
    .other (.createUserRun ⟨1, 2, "hello", [], "message"⟩ [] (fun _ => false) (stampsFrom 10 0)) rfl,
    .claim 100 { workerId := "a" } true 1 10 60 (stampsFrom 20 1), .decide 100 {} 2,
    .proceed 100 (stampsFrom 30 3), .returns 100 (.ended (some "hi") []) false,
    .proceed 100 (stampsFrom 40 4)]

/-- The worker completes the Run and queues its formation. -/
def formedRun : List FormationOp :=
  acceptedRun ++ [.proceed 100 (stampsFrom 50 5), .proceed 100 (stampsFrom 60 6)]

theorem formation_kept_formedRun :
    NoneLost (formation.serial ⟨{}, fun _ => none⟩ formedRun).cur :=
  formation_kept (formation.serial_reachableIf rfl formedRun (by decide +kernel)) _ (.head _)

/-- The worker dies, and another one finds the output that was accepted. -/
def takenOverRun : List FormationOp :=
  acceptedRun ++
    [.crash 100, .claim 101 { workerId := "b" } true 1 10 60 (stampsFrom 50 100), .decide 101 {} 100,
      .proceed 101 (stampsFrom 60 100)]

/-- The Run that was taken over is completed, nobody executes it, and it has no job of memory
formation. -/
theorem formation_lost_takenOverRun :
    ¬∀ h, formation.Reachable h → ∀ w ∈ h.states, NoneLost w := by
  intro hall
  have hkept := hall _ (formation.serial_reachable rfl takenOverRun) _ (.head _)
  have hrows : ∃ r ∈ (formation.serial ⟨{}, fun _ => none⟩ takenOverRun).cur.store.runs.rows,
      r.status = .completed ∧ due (formation.serial ⟨{}, fun _ => none⟩ takenOverRun).cur.store r = true := by
    decide +kernel
  obtain ⟨r, hr, hstatus, hdue⟩ := hrows
  have hknown : takenOverRun.all fun op => op.executes.all fun e => e = 100 ∨ e = 101 := by decide
  have hidle : ∀ execution,
      (formation.serial ⟨{}, fun _ => none⟩ takenOverRun).cur.executions execution = none := by
    intro execution
    by_cases hfirst : execution = 100
    · rw [hfirst]
      exact Option.isNone_iff_eq_none.mp (by decide +kernel)
    by_cases hsecond : execution = 101
    · rw [hsecond]
      exact Option.isNone_iff_eq_none.mp (by decide +kernel)
    refine serial_executions_of_ne (fun op hop hexecutes => ?_) _
    have hone := List.all_eq_true.mp hknown op hop
    rw [hexecutes, Option.all_some, decide_eq_true_eq] at hone
    exact hone.elim hfirst hsecond
  obtain ⟨j, hj, hkind, -⟩ := hkept r hr hstatus hdue fun execution x hx => by
    rw [hidle execution] at hx
    cases hx
  have hkinds : ∀ j ∈ (formation.serial ⟨{}, fun _ => none⟩ takenOverRun).cur.store.durableJobs.rows,
      j.kind ≠ .memoryFormation := by
    decide +kernel
  exact hkinds j hj hkind

end Memories
