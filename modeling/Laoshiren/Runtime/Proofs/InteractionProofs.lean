import Laoshiren.Runtime.Proofs.LifecycleProofs

/-!
# Questions to the user

A Run that waits for the user has one pending Interaction, and no other Run has one. Waiting and
resuming write both rows together. Cancelling or failing a Run that waits writes its own row alone,
so the law holds of the histories in which no transaction does that (`Op.endsWaiting`).
-/

namespace Runtime

open RunRepository

/-- The law for the Runs of one state: the pending Interaction of a Run, which there is exactly while
it waits, is the one that its interrupt names. -/
def PendingIffWaiting (runs : Table AgentRun) (interactions : Table RunInteraction) : Prop :=
  ∀ run ∈ runs,
    ((∃ i ∈ interactions, i.runId = run.id ∧ i.status = .pending) ↔ run.status = .waitingForUser) ∧
      (∀ i ∈ interactions, i.runId = run.id → i.status = .pending → run.interruptId = some i.id ∧
        ∀ i' ∈ interactions, i'.runId = run.id → i'.status = .pending → i' = i) ∧
      (run.status ≠ .waitingForUser → run.interruptId = none ∧ run.interrupt = none)

/-- The transaction ends a Run that waits for the user: a `cancel_run` that passes its checks, or a
`fail_run` of a caller that names no claim. -/
def Op.endsWaiting (op : Op) (view : ℕ → Store) (s : Store) : Prop :=
  (∃ userId runId expectedVersion key fresh,
    op = .cancelRun userId runId expectedVersion key fresh ∧
      ToolExecutionRepository.listInProgress runId (view 1).toolExecutions = [] ∧
      getOperation userId key (view 2).operations = none ∧
      ∃ r ∈ s.runs, r.id = runId ∧ r.userId = userId ∧ r.version = expectedVersion ∧
        r.status = .waitingForUser) ∨
    ∃ c fresh errorCode, op = .workerTransition c fresh ∧ c.action = .fail errorCode ∧
      c.claimOwner = none ∧
      ∃ r ∈ s.runs, r.id = c.runId ∧ r.userId = c.userId ∧ r.status = .waitingForUser

/-- The invariant behind the law: each side of it has its partner. -/
structure QuestionsFit (runs : Table AgentRun) (interactions : Table RunInteraction) : Prop where
  asked : ∀ r ∈ runs, r.status = .waitingForUser →
    ∃ i ∈ interactions, i.runId = r.id ∧ i.status = .pending ∧ r.interruptId = some i.id
  waiting : ∀ i ∈ interactions, i.status = .pending →
    ∃ r ∈ runs, r.id = i.runId ∧ r.status = .waitingForUser
  unasked : ∀ r ∈ runs, r.status ≠ .waitingForUser → r.interruptId = none ∧ r.interrupt = none

variable {runs runs' : Table AgentRun} {interactions interactions' : Table RunInteraction}
  {r r' run run' : AgentRun} {v : Store} {view : ℕ → Store} {op : Op}

/-- A Run has one pending Interaction at most. -/
theorem interaction_pending_ext {i i' : RunInteraction} (hi : i ∈ interactions)
    (hi' : i' ∈ interactions) (hrun : i.runId = i'.runId) (hpending : i.status = .pending)
    (hpending' : i'.status = .pending) : i = i' :=
  Table.eq_of_conflict hi hi' (.inr ⟨hrun, hpending, hpending'⟩)

theorem QuestionsFit.pendingIffWaiting (h : QuestionsFit runs interactions) :
    PendingIffWaiting runs interactions := by
  intro run hrun
  have hwaiting : ∀ i ∈ interactions, i.runId = run.id → i.status = .pending →
      run.status = .waitingForUser := by
    intro i hi hid hpending
    obtain ⟨r, hr, hrid, hstatus⟩ := h.waiting i hi hpending
    rwa [run_ext hr hrun (hrid.trans hid)] at hstatus
  refine ⟨⟨fun ⟨i, hi, hid, hpending⟩ => hwaiting i hi hid hpending, fun hstatus => ?_⟩,
    fun i hi hid hpending => ⟨?_, fun i' hi' hid' hpending' => ?_⟩, h.unasked run hrun⟩
  · obtain ⟨i, hi, hid, hpending, -⟩ := h.asked run hrun hstatus
    exact ⟨i, hi, hid, hpending⟩
  · obtain ⟨i', hi', hid', hpending', hinterrupt⟩ :=
      h.asked run hrun (hwaiting i hi hid hpending)
    rw [interaction_pending_ext hi hi' (hid.trans hid'.symm) hpending hpending']
    exact hinterrupt
  · exact interaction_pending_ext hi' hi (hid'.trans hid.symm) hpending' hpending

/-! ## Steps that leave the questions alone -/

/-- The Run waits for the same answer as before, or for none as before. -/
structure AsksSame (r r' : AgentRun) : Prop where
  id : r'.id = r.id
  status : r'.status = .waitingForUser ↔ r.status = .waitingForUser
  interruptId : r'.interruptId = r.interruptId
  interrupt : r'.interrupt = r.interrupt

theorem AsksSame.refl (r : AgentRun) : AsksSame r r := ⟨rfl, Iff.rfl, rfl, rfl⟩

theorem AsksSame.trans {r₁ r₂ r₃ : AgentRun} (h : AsksSame r₁ r₂) (h' : AsksSame r₂ r₃) :
    AsksSame r₁ r₃ :=
  ⟨h'.id.trans h.id, h'.status.trans h.status, h'.interruptId.trans h.interruptId,
    h'.interrupt.trans h.interrupt⟩

/-- What a method does to a Run, it does to the row of the version that was read. -/
theorem AsksSame.update (hcore : r.core = run.core) (h : AsksSame run run') :
    AsksSame r (updateValues run' r) := by
  have hstatus : r.status = run.status := (congrArg AgentRun.status hcore :)
  have hid : r.interruptId = run.interruptId := (congrArg AgentRun.interruptId hcore :)
  have hinterrupt : r.interrupt = run.interrupt := (congrArg AgentRun.interrupt hcore :)
  exact ⟨rfl, by rw [hstatus]; exact h.status, h.interruptId.trans hid.symm,
    h.interrupt.trans hinterrupt.symm⟩

theorem asksSame_update (hview : RunsLater v.facts.runs runs) (hread : run ∈ v.runs)
    (h : AsksSame run run') : runs.Moves AsksSame (update run' run.version runs).1 := by
  refine .update .refl fun r hr hp => .update (hview.core_eq hread hr ?_) h
  obtain ⟨hid, hversion⟩ := updateWhere_iff.mp hp
  exact updateWhere_iff.mpr ⟨hid.trans h.id, hversion⟩

theorem QuestionsFit.moves (h : QuestionsFit runs interactions) (hm : runs.Moves AsksSame runs') :
    QuestionsFit runs' interactions where
  asked r' hr' hstatus := by
    obtain ⟨r, hr, hsame⟩ := hm.mem hr'
    rw [hsame.id, hsame.interruptId]
    exact h.asked r hr (hsame.status.mp hstatus)
  waiting i hi hpending := by
    obtain ⟨r, hr, hid, hstatus⟩ := h.waiting i hi hpending
    obtain ⟨r', hr', hsame⟩ := hm.exists_mem hr
    exact ⟨r', hr', hsame.id.trans hid, hsame.status.mpr hstatus⟩
  unasked r' hr' hstatus := by
    obtain ⟨r, hr, hsame⟩ := hm.mem hr'
    rw [hsame.interruptId, hsame.interrupt]
    exact h.unasked r hr (mt hsame.status.mpr hstatus)

theorem QuestionsFit.insert (h : QuestionsFit runs interactions) (hnew : run.IsNew)
    (hins : runs.insert? run = some runs') : QuestionsFit runs' interactions where
  asked r hr hstatus := by
    rcases (Table.mem_insert? hins).mp hr with hr | rfl
    · exact h.asked r hr hstatus
    · rw [hnew] at hstatus
      cases hstatus
  waiting i hi hpending := by
    obtain ⟨r, hr, hid, hstatus⟩ := h.waiting i hi hpending
    exact ⟨r, (Table.mem_insert? hins).mpr (.inl hr), hid, hstatus⟩
  unasked r hr hstatus := by
    rcases (Table.mem_insert? hins).mp hr with hr | rfl
    · exact h.unasked r hr hstatus
    · rw [hnew]
      exact ⟨rfl, rfl⟩

/-! ## Asking and answering -/

/-- A Run that starts to wait opens its Interaction with it. -/
theorem QuestionsFit.wait (h : QuestionsFit runs interactions)
    (hview : RunsLater v.facts.runs runs) (hread : run ∈ v.runs) {now : Timestamp}
    {userId interruptId : UUID} {payload : Dict}
    (hwait : run.waitForUser now interruptId payload = .ok run')
    (hins : interactions.insert? (openedInteraction userId run.id interruptId payload now) =
      some interactions') (hversion : (update run' run.version runs).2 = true) :
    QuestionsFit (update run' run.version runs).1 interactions' := by
  obtain ⟨hrunning, ms, hrun'⟩ := AgentRun.waitForUser_ok hwait
  have hid : run'.id = run.id := by rw [hrun']; rfl
  obtain ⟨row, hrow, hcore, hp⟩ := exists_row_of_update hview hread hid hversion
  have hrowid : row.id = run.id := (updateWhere_iff.mp hp).1.trans hid
  have hrowstatus : row.status = .running := (congrArg AgentRun.status hcore :).trans hrunning
  -- the update changes this row alone
  have hmatch : ∀ r ∈ runs, updateWhere run' run.version r = true → r = row := fun r hr hp' =>
    run_ext hr hrow (((updateWhere_iff.mp hp').1.trans hid).trans hrowid.symm)
  refine ⟨fun r' hr' hstatus => ?_, fun i hi hpending => ?_, fun r' hr' hstatus => ?_⟩
  · rcases mem_updated hr' with ⟨r, hr, hp', rfl⟩ | ⟨hr, -⟩
    · refine ⟨_, (Table.mem_insert? hins).mpr (.inr rfl), ?_, rfl, ?_⟩
      · exact ((updateWhere_iff.mp hp').1.trans hid).symm
      · simp only [updateValues, hrun', openedInteraction]
    · obtain ⟨i, hi, hi'⟩ := h.asked r' hr hstatus
      exact ⟨i, (Table.mem_insert? hins).mpr (.inl hi), hi'⟩
  · rcases (Table.mem_insert? hins).mp hi with hi | rfl
    · obtain ⟨r, hr, hrid, hstatus⟩ := h.waiting i hi hpending
      have hother : updateWhere run' run.version r = false := by
        by_contra hp'
        rw [hmatch r hr (by simpa using hp'), hrowstatus] at hstatus
        cases hstatus
      exact ⟨r, Table.mem_update_of_neg hr hother, hrid, hstatus⟩
    · refine ⟨_, Table.mem_update_of_pos hrow hp, hrowid, ?_⟩
      simp only [updateValues, hrun']
  · rcases mem_updated hr' with ⟨r, -, -, rfl⟩ | ⟨hr, -⟩
    · exact absurd (by simp only [updateValues, hrun']) hstatus
    · exact h.unasked r' hr hstatus

theorem RunInteraction.resolve_ok {i i' : RunInteraction} {now : Timestamp} {response : Dict}
    (h : i.resolve now response = .ok i') :
    i'.id = i.id ∧ i'.status = .resolved ∧ i'.responsePayload = some response := by
  unfold RunInteraction.resolve at h
  split at h
  case h_1 hstatus =>
    split at h
    case isTrue => cases h
    case isFalse hsame =>
      obtain rfl := Except.ok.inj h
      exact ⟨rfl, hstatus, not_not.mp hsame⟩
  case h_2 => cases h
  case h_3 =>
    obtain rfl := Except.ok.inj h
    exact ⟨rfl, rfl, rfl⟩

/-- A Run that is resumed closes its Interaction with it. -/
theorem QuestionsFit.resume (h : QuestionsFit runs interactions)
    (hview : RunsLater v.facts.runs runs) (hread : run ∈ v.runs) {now : Timestamp}
    {interruptId : UUID} {response : Dict} {i₀ : RunInteraction}
    (hresume : run.resume now interruptId response = .ok run')
    (hid₀ : i₀.id = interruptId) (hstatus₀ : i₀.status = .resolved)
    (hversion : (update run' run.version runs).2 = true) :
    QuestionsFit (update run' run.version runs).1
      (InteractionRepository.resolve i₀ interactions) := by
  obtain ⟨hwaiting, hinterrupt, hrun'⟩ := AgentRun.resume_ok hresume
  have hid : run'.id = run.id := by rw [hrun']
  obtain ⟨row, hrow, hcore, hp⟩ := exists_row_of_update hview hread hid hversion
  have hrowid : row.id = run.id := (updateWhere_iff.mp hp).1.trans hid
  have hrowstatus : row.status = .waitingForUser := (congrArg AgentRun.status hcore :).trans hwaiting
  have hrowinterrupt : row.interruptId = some interruptId :=
    (congrArg AgentRun.interruptId hcore :).trans hinterrupt
  -- the question of this Run is the one that is resolved
  obtain ⟨question, hquestion, hqrun, hqpending, hqid⟩ := h.asked row hrow hrowstatus
  have hqid' : question.id = i₀.id := by
    rw [hid₀]
    exact Option.some.inj (hqid.symm.trans hrowinterrupt)
  have hresolved : ∀ i ∈ interactions, InteractionRepository.resolveWhere i₀ i = true ↔
      i = question := by
    intro i hi
    simp only [InteractionRepository.resolveWhere, decide_eq_true_eq]
    constructor
    · exact fun hi' => interaction_ext hi hquestion (hi'.1.trans hqid'.symm)
    · rintro rfl
      exact ⟨hqid', hqpending⟩
  refine ⟨fun r' hr' hstatus => ?_, fun i' hi' hpending => ?_, fun r' hr' hstatus => ?_⟩
  · rcases mem_updated hr' with ⟨r, -, -, rfl⟩ | ⟨hr, hp'⟩
    · simp [updateValues, hrun'] at hstatus
    · obtain ⟨i, hi, hirun, hipending, hiid⟩ := h.asked r' hr hstatus
      have hother : InteractionRepository.resolveWhere i₀ i = false := by
        by_contra hq
        obtain rfl := (hresolved i hi).mp (by simpa using hq)
        rw [run_ext hr hrow (hirun.symm.trans hqrun), hp] at hp'
        cases hp'
      exact ⟨i, Table.mem_update_of_neg hi hother, hirun,
        hipending, hiid⟩
  · rcases Table.mem_update_cases (InteractionRepository.resolve_keeps i₀) hi' with ⟨i, -, -, rfl⟩ | ⟨hi, hq⟩
    · simp [InteractionRepository.resolveValues, hstatus₀] at hpending
    · obtain ⟨r, hr, hrid, hstatus⟩ := h.waiting i' hi hpending
      have hother : updateWhere run' run.version r = false := by
        by_contra hp'
        have hr' : r = row := run_ext hr hrow
          (((updateWhere_iff.mp (by simpa using hp')).1.trans hid).trans hrowid.symm)
        have hi'' : i' = question := interaction_pending_ext hi hquestion
          (hrid.symm.trans (hr' ▸ hqrun.symm)) hpending hqpending
        rw [(hresolved i' hi).mpr hi''] at hq
        cases hq
      exact ⟨r, Table.mem_update_of_neg hr hother, hrid, hstatus⟩
  · rcases mem_updated hr' with ⟨r, -, -, rfl⟩ | ⟨hr, -⟩
    · simp only [updateValues, hrun']
      exact ⟨trivial, trivial⟩
    · exact h.unasked r' hr hstatus

/-! ## Every transaction -/

/-- The methods that are no questions and no answers, on a Run that does not wait. -/
theorem AsksSame.of_fail {now : Timestamp} {errorCode : String}
    (h : run.fail now errorCode = .ok run') (hstatus : run.status ≠ .waitingForUser) :
    AsksSame run run' := by
  obtain ⟨-, ms, rfl⟩ := AgentRun.fail_ok h
  exact ⟨rfl, by simp [hstatus], rfl, rfl⟩

theorem AsksSame.of_cancel {now : Timestamp} (h : run.cancel now = .ok run')
    (hstatus : run.status ≠ .waitingForUser) : AsksSame run run' := by
  obtain ⟨-, ms, rfl⟩ := AgentRun.cancel_ok h
  exact ⟨rfl, by simp [hstatus], rfl, rfl⟩

theorem AsksSame.of_recover {now : Timestamp} (h : run.recoverAfterCrash now = .ok run') :
    AsksSame run run' := by
  obtain ⟨hstatus, ms, rfl⟩ := AgentRun.recoverAfterCrash_ok h
  exact ⟨rfl, by simp [hstatus], rfl, rfl⟩

/-- A Run that advances without waiting asks the same as before. -/
theorem Advances.asksSame (h : Advances op run run')
    (hfail : ∀ c fresh errorCode, op = .workerTransition c fresh → c.action = .fail errorCode →
      run.id = c.runId → run.userId = c.userId → ownsRun c.claimOwner c.claimToken run = true →
      run.status ≠ .waitingForUser) : AsksSame run run' := by
  cases h with
  | start haction h =>
    obtain ⟨hstatus, rfl⟩ := AgentRun.start_ok h
    exact ⟨rfl, by simp [hstatus], rfl, rfl⟩
  | complete haction h =>
    obtain ⟨hstatus, ms, rfl⟩ := AgentRun.complete_ok h
    exact ⟨rfl, by simp [hstatus], rfl, rfl⟩
  | fail hrun huser howns haction h =>
    exact .of_fail h (hfail _ _ _ rfl haction hrun huser howns)
  | accept h hchanged =>
    obtain ⟨-, rfl | rfl⟩ := AgentRun.acceptTerminalOutput_ok h
    · exact .refl _
    · exact ⟨rfl, Iff.rfl, rfl, rfl⟩

/-- Recovering moves Runs back to the queue that were running. -/
theorem QuestionsFit.recovers (h : QuestionsFit runs interactions) (hwf : RunsWellFormed runs)
    (hview : RunsLater (view 0).facts.runs runs)
    (hrecovers : Relation.ReflTransGen (Recovers view) runs runs') :
    QuestionsFit runs' interactions := by
  induction hrecovers with
  | refl => exact h
  | tail hfirst hlast ih =>
    cases hlast with
    | run hread hmethod _ =>
      have hkept := runsKept_of_recovers hwf hview hfirst
      exact ih.moves (asksSame_update (hview.trans hkept.2) hread (.of_recover hmethod))

/-- Every effect but the end of a Run that waits keeps questions and Runs together. -/
theorem Effect.questionsFit {s : Store} {x x' : Facts} (hx : x = s.facts)
    (hwf : RunsWellFormed x.runs) (hview : ∀ n, RunsLater (view n).facts.runs x.runs)
    (hok : ¬op.endsWaiting view s) (hfit : QuestionsFit x.runs x.interactions)
    (h : Effect view op x x') : QuestionsFit x'.runs x'.interactions := by
  have hrow : ∀ {n run run'}, run ∈ (view n).runs → run'.id = run.id →
      (update run' run.version x.runs).2 = true → run.status = .waitingForUser →
      ∃ r ∈ s.runs, r.id = run.id ∧ r.userId = run.userId ∧ r.version = run.version ∧
        r.status = .waitingForUser := by
    intro n run run' hread hid hversion hstatus
    obtain ⟨r, hr, hcore, -⟩ := exists_row_of_update (hview n) hread hid hversion
    rw [hx] at hr
    obtain ⟨r₀, hr₀, rfl⟩ := Store.exists_of_mem_facts_runs hr
    exact ⟨r₀, hr₀, (congrArg AgentRun.id hcore :), (congrArg AgentRun.userId hcore :),
      (congrArg AgentRun.version hcore :), (congrArg AgentRun.status hcore :).trans hstatus⟩
  cases h with
  | createRun hnew hrun _ => exact hfit.insert hnew hrun
  | claimRun =>
    refine hfit.moves (.update .refl fun r hr hp => ⟨rfl, ?_, rfl, rfl⟩)
    rcases status_of_claimWhere hp with hstatus | hstatus <;> simp [claimValues, hstatus]
  | renewRunLease =>
    exact hfit.moves (.update .refl fun r hr hp => ⟨rfl, Iff.rfl, rfl, rfl⟩)
  | recover h => exact hfit.recovers hwf (hview 0) h
  | @advance _ _ run run' hread h hversion =>
    refine hfit.moves (asksSame_update (hview 0) hread (h.asksSame ?_))
    rintro c fresh errorCode rfl haction hid huser howns hstatus
    obtain ⟨r, hr, hrid, hruser, -, hrstatus⟩ := hrow hread h.moved.counts.1 hversion hstatus
    refine hok (.inr ⟨c, fresh, errorCode, rfl, haction, ?_, r, hr, hrid.trans hid,
      hruser.trans huser, hrstatus⟩)
    -- a caller that names a claim owns the Run, which then is running
    by_contra howner
    obtain ⟨r', hr', hcore, -⟩ := exists_row_of_update (hview 0) hread h.moved.counts.1 hversion
    have hunclaimed := ((hwf r' hr').of_core hcore.symm).unclaimed (by simp [hstatus])
    simp only [ownsRun, decide_eq_true_eq] at howns
    rcases howns with hnone | ⟨-, howner', -⟩
    · exact howner hnone
    · rw [hunclaimed.1] at howner'
      exact howner howner'.symm
  | wait hread _ _ _ h hopened hversion => exact hfit.wait (hview 0) hread h hopened hversion
  | resume hread _ _ _ hfound hresolve h _ hversion =>
    obtain ⟨hid, hstatus, -⟩ := RunInteraction.resolve_ok hresolve
    have hfoundid := (Table.get_eq_some hfound).2
    simp only [decide_eq_true_eq] at hfoundid
    exact hfit.resume (hview 1) hread h (hid.trans hfoundid.1) hstatus hversion
  | cancel hidle hkey hread hrun huser hexpected h hversion =>
    refine hfit.moves (asksSame_update (hview 3) hread (.of_cancel h fun hstatus => hok (.inl ?_)))
    obtain ⟨r, hr, hrid, hruser, hrversion, hrstatus⟩ :=
      hrow hread (AgentRun.Moved.cancel h).counts.1 hversion hstatus
    exact ⟨_, _, _, _, _, rfl, hidle, hkey, r, hr, hrid.trans hrun, hruser.trans huser,
      hrversion.trans hexpected, hrstatus⟩
  | _ => exact hfit

/-- Questions and Runs stay together while no transaction ends a Run that waits. -/
theorem questions_stable : Program.Stable system (fun op view s => ¬op.endsWaiting view s)
    (fun s => RunsWellFormed s.facts.runs ∧ QuestionsFit s.facts.runs s.facts.interactions)
    (fun v s => RunsLater v.facts.runs s.facts.runs) where
  init s hs := by
    obtain rfl : s = {} := hs
    exact ⟨fun r hr => absurd hr Table.not_mem_empty, fun r hr => absurd hr Table.not_mem_empty,
      fun i hi => absurd hi Table.not_mem_empty, fun r hr => absurd hr Table.not_mem_empty⟩
  refl s := .refl _
  trans _ _ _ := .trans
  step op view s hinv hviews hok := by
    have heffect := commit_effect op view s
    have hkept := heffect.runsKept hinv.1 fun n => (hviews n).2
    exact ⟨⟨hkept.1, heffect.questionsFit rfl hinv.1 (fun n => (hviews n).2) hok hinv.2⟩, hkept.2⟩

/-- In every history in which no transaction ends a Run that waits: a Run has a pending Interaction
exactly while it waits for the user, one, the one that its interrupt names, and no interrupt
otherwise. -/
theorem pending_iff_waiting {h : History Store Op Reply}
    (hr : system.ReachableIf (fun op view s => ¬op.endsWaiting view s) h) :
    PendingIffWaiting h.cur.runs h.cur.interactions := by
  have hfit := (questions_stable.inv_cur hr).2.pendingIffWaiting
  intro run hrun
  have hlaw := hfit _ (Store.mem_facts_runs hrun)
  exact hlaw

/-- No step up to the question ends a Run. -/
theorem not_endsWaiting_waitingRun (view : ℕ → Store) (s : Store) :
    ∀ op ∈ waitingRun, ¬op.endsWaiting view s := by
  intro op hop
  simp only [waitingRun, claimedRun, List.cons_append, List.nil_append, List.mem_cons,
    List.not_mem_nil, or_false] at hop
  rcases hop with rfl | rfl | rfl <;> simp [Op.endsWaiting]

theorem pending_iff_waiting_waitingRun :
    PendingIffWaiting (system.serial {} waitingRun).cur.runs
        (system.serial {} waitingRun).cur.interactions ∧
      (system.serial {} waitingRun).cur.interactions.rows.map RunInteraction.status = [.pending] :=
  ⟨pending_iff_waiting
    (system.serial_reachableIf rfl _ (system.serialMeets_of_forall (fun op hop view s =>
      not_endsWaiting_waitingRun view s op hop) _)),
    by decide⟩

/-- The user cancels the Run instead of answering: its question stays open. -/
def cancelledRun : History Store Op Reply :=
  system.serial {} (waitingRun ++ [.cancelRun 1 10 3 "cancel" (stampsFrom 40 3)])

theorem cancelled_run_still_asks :
    system.Reachable cancelledRun ∧
      cancelledRun.cur.runs.rows.map AgentRun.status = [.cancelled] ∧
      cancelledRun.cur.interactions.rows.map RunInteraction.status = [.pending] ∧
      ¬PendingIffWaiting cancelledRun.cur.runs cancelledRun.cur.interactions := by
  refine ⟨system.serial_reachable rfl _, by decide, by decide, fun hlaw => ?_⟩
  have hall : ∀ run ∈ cancelledRun.cur.runs.rows, run.interruptId = none := by
    intro run hrun
    have hstatus : run.status ≠ .waitingForUser :=
      (by decide : ∀ run ∈ cancelledRun.cur.runs.rows, run.status ≠ .waitingForUser) run hrun
    exact ((hlaw run hrun).2.2 hstatus).1
  exact absurd hall (by decide)

end Runtime
