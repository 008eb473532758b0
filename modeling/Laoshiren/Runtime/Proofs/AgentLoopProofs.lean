import Laoshiren.Runtime.Proofs.RunLoopProofs

/-!
# The agent loop

Every Run of the system fits its loop, in every history whose steps keep to the turns of the workers:
so each response of the user answers one interrupt, the one that its Interaction asked about. A
worker that takes over from one that died after its graph had gone on does not keep to its turn.
-/

namespace Runtime

open RunRepository

variable {runId : UUID}

/-! ## The whole system -/

/-- Every Run of a state fits its loop, and nothing has happened to a loop without a Run. -/
structure AgentsFit (a : Agents) : Prop where
  runs : RunsWellFormed a.store.facts.runs
  loops : ∀ r ∈ a.store.facts.runs, LoopFits a.store.interactions r (a.loops r.id)
  unused : ∀ id, (∀ r ∈ a.store.facts.runs, r.id ≠ id) → a.loops id = {}

namespace AgentsFit

variable {a : Agents} {s : Store} {view : ℕ → Store} {f : RunLoop → RunLoop}

/-- A step of one loop. -/
theorem updateLoop (h : AgentsFit a)
    (hfits : ∀ r ∈ a.store.facts.runs, r.id = runId →
      LoopFits a.store.interactions r (a.loops runId) →
      LoopFits a.store.interactions r (f (a.loops runId)))
    (hunused : f {} = {}) : AgentsFit (a.updateLoop runId f) where
  runs := h.runs
  loops r hr := by
    have hloop := h.loops r hr
    by_cases hid : r.id = runId
    · simp only [Agents.updateLoop, hid, Function.update_self]
      rw [hid] at hloop
      exact hfits r hr hid hloop
    · simp only [Agents.updateLoop, Function.update_of_ne hid]
      exact hloop
  unused id hids := by
    have hloop := h.unused id hids
    by_cases hid : id = runId
    · simp only [Agents.updateLoop, hid, Function.update_self]
      rw [← hid, hloop]
      exact hunused
    · simp only [Agents.updateLoop, Function.update_of_ne hid]
      exact hloop

/-- A quiet transaction. -/
theorem quiet (h : AgentsFit a) (hwf : RunsWellFormed s.facts.runs)
    (hquiet : a.store.facts.Quiet s.facts) : AgentsFit { a with store := s } where
  runs := hwf
  loops r' hr' := by
    have hinteractions : s.interactions = a.store.interactions := hquiet.interactions
    rw [hinteractions]
    rcases hquiet.new r' hr' with ⟨r, hr, hrow⟩ | ⟨hnew, hids⟩
    · rw [hrow.id]
      exact (h.loops r hr).quiet hrow
    · have hloop : a.loops r'.id = {} := h.unused r'.id fun r hr => hids r hr
      rw [hloop]
      exact .new hnew
  unused id hids := by
    refine h.unused id fun r hr hid => ?_
    obtain ⟨r', hr', hrow⟩ := hquiet.old r hr
    exact hids r' hr' (hrow.id.trans hid)

/-- A change of one row and of its loop, with Interactions that the other Runs do not see change. -/
theorem change (h : AgentsFit a) (hwf : RunsWellFormed s.facts.runs)
    {row : AgentRun} (hrow : row ∈ a.store.facts.runs)
    {p : AgentRun → Bool} {g : AgentRun → AgentRun} (hkeep : Table.Keeps p g)
    (hruns : s.facts.runs = a.store.facts.runs.update p g hkeep) (hp : p row = true)
    (hone : ∀ r ∈ a.store.facts.runs, p r = true → r = row) (hg : ∀ r, (g r).id = r.id)
    (hfits : LoopFits a.store.interactions row (a.loops row.id) →
      LoopFits s.interactions (g row) (f (a.loops row.id)))
    (hkept : ∀ r ∈ a.store.facts.runs, r.id ≠ row.id → ∀ i ∈ a.store.interactions,
      i.runId = r.id → i ∈ s.interactions) :
    AgentsFit (({ a with store := s } : Agents).updateLoop row.id f) where
  runs := hwf
  loops r' hr' := by
    have hr'' : r' ∈ a.store.facts.runs.update p g hkeep := hruns ▸ hr'
    rcases Table.mem_update_cases hkeep hr'' with ⟨r, hr, hpr, rfl⟩ | ⟨hr, hpr⟩
    · obtain rfl := hone r hr hpr
      simp only [Agents.updateLoop, hg, Function.update_self]
      exact hfits (h.loops r hr)
    · have hother : r'.id ≠ row.id := fun hid => by
        rw [run_ext hr hrow hid, hp] at hpr
        cases hpr
      simp only [Agents.updateLoop, Function.update_of_ne hother]
      exact (h.loops r' hr).mono (hkept r' hr hother)
  unused id hids := by
    have hold : ∀ r ∈ a.store.facts.runs, r.id ≠ id := by
      intro r hr hid
      have hmem : Table.updateRow p g r ∈ s.facts.runs := hruns ▸ Table.updateRow_mem hr
      refine hids _ hmem ?_
      unfold Table.updateRow
      split
      · exact (hg r).trans hid
      · exact hid
    have hother : id ≠ row.id := fun hid => hold row hrow hid.symm
    simp only [Agents.updateLoop, Function.update_of_ne hother]
    exact h.unused id hold

/-- The Runs after any transaction. -/
theorem runsKept (h : AgentsFit a) (hview : ∀ n, RunsLater (view n).facts.runs a.store.facts.runs)
    (op : Op) : RunsKept a.store.facts.runs (Runtime.commit op view a.store).1.facts.runs :=
  (commit_effect op view a.store).runsKept h.runs hview

/-- The user answers the question of a Run. -/
theorem resume (h : AgentsFit a) (hview : ∀ n, RunsLater (view n).facts.runs a.store.facts.runs)
    {userId interruptId : UUID} {response : Dict} {expectedVersion : ℕ} {key : String}
    {fresh : ℕ → Stamp} {run' : AgentRun} (hwf : RunsWellFormed s.facts.runs)
    (hok : resumeRun userId runId interruptId response expectedVersion key fresh view a.store =
      .ok (s, run', false)) :
    AgentsFit (({ a with store := s } : Agents).updateLoop runId fun loop =>
      { loop with accepted := some interruptId }) := by
  rcases resumeRun_ok hok with ⟨hreplayed, -⟩ | ⟨-, run, run₁, interaction, i₀, hread, hid, -, -,
    hfound, hresolve, hmethod, -, hversion, hs⟩
  · cases hreplayed
  obtain ⟨hwaiting, hinterrupt, hrun₁⟩ := AgentRun.resume_ok hmethod
  obtain ⟨hid₀, hresolved, hresponse⟩ := RunInteraction.resolve_ok hresolve
  have hid₁ : run₁.id = run.id := by rw [hrun₁]
  have hfoundid : i₀.id = interruptId := by
    have hp := (Table.get_eq_some hfound).2
    simp only [decide_eq_true_eq] at hp
    exact hid₀.trans hp.1
  obtain ⟨row, hrow, hcore, hp⟩ := exists_row_of_update (hview 1) hread hid₁ hversion
  obtain rfl : row.id = runId := ((updateWhere_iff.mp hp).1.trans hid₁).trans hid
  have hrowstatus : row.status = .waitingForUser :=
    (congrArg AgentRun.status hcore :).trans hwaiting
  have hrowinterrupt : row.interruptId = some i₀.id := by
    rw [hfoundid]
    exact (congrArg AgentRun.interruptId hcore :).trans hinterrupt
  have hrowtoken : row.claimToken = run.claimToken := (congrArg AgentRun.claimToken hcore :)
  have hinteractions : s.interactions = InteractionRepository.resolve i₀ a.store.interactions :=
    congrArg Facts.interactions hs
  have hkeep : Table.Keeps (updateWhere run₁ run.version) (updateValues run₁) := fun _ _ _ h => h
  refine h.change hwf hrow hkeep (congrArg Facts.runs hs) hp (fun r hr hp' => ?_) (fun _ => rfl)
    (fun hloop => ?_) (fun r hr hother i hi hirun => ?_)
  · exact run_ext hr hrow ((updateWhere_iff.mp hp').1.trans (updateWhere_iff.mp hp).1.symm)
  · rw [hinteractions, ← hfoundid]
    refine hloop.resume hrowstatus hrowinterrupt hresolved hresponse rfl ?_
      ?_ ?_
    · simp [updateValues, hrun₁]
    · simp [updateValues, hrun₁]
    · simp [updateValues, hrun₁, hrowtoken]
  · -- the question that is resolved is not one of another Run
    obtain ⟨-, question, hquestion, hqid, hqrun, -, -⟩ := (h.loops row hrow).waits hrowstatus
    rw [hinteractions]
    refine Table.mem_update_of_neg hi ?_
    by_contra hresolves
    have hsame : i.id = i₀.id := by
      have hwhere : InteractionRepository.resolveWhere i₀ i = true := by simpa using hresolves
      simp only [InteractionRepository.resolveWhere, decide_eq_true_eq] at hwhere
      exact hwhere.1
    have hqsame : question.id = i₀.id := Option.some.inj (hqid.symm.trans hrowinterrupt)
    obtain rfl := interaction_ext hi hquestion (hsame.trans hqsame.symm)
    exact hother (hirun.symm.trans hqrun)

/-- A worker claims a Run. -/
theorem claim (h : AgentsFit a) {worker : AgentRunWorker} {userId : UUID} {lease : ℤ}
    {fresh : ℕ → Stamp} {run : AgentRun} (hwf : RunsWellFormed s.facts.runs)
    (hok : claimRun userId runId worker.workerId lease fresh a.store = .ok (s, some run)) :
    AgentsFit (({ a with store := s } : Agents).updateLoop runId (.claim worker run)) := by
  rcases claimRun_ok hok with ⟨hnone, -⟩ | ⟨⟨row, hrow, hp, hrun⟩, hs⟩
  · cases hnone
  obtain rfl := Option.some.inj hrun
  obtain rfl : row.id = runId := (claimWhere_iff.mp hp).1
  have hinteractions : s.interactions = a.store.interactions := congrArg Facts.interactions hs
  have hkeep : Table.Keeps (claimWhere userId row.id (fresh 0).now) (claimValues worker.workerId
      (fresh 0).id (fresh 0).now ((fresh 0).now + lease)) := fun _ _ _ h => h
  have hmem : row.forgetEvents ∈ a.store.facts.runs := Store.mem_facts_runs hrow
  change AgentsFit (({ a with store := s } : Agents).updateLoop row.forgetEvents.id _)
  refine h.change hwf hmem hkeep (congrArg Facts.runs hs) hp (fun r hr hp' => ?_)
    (fun _ => rfl) (fun hloop => ?_) (fun r hr _ i hi _ => ?_)
  · exact run_ext hr hmem (claimWhere_iff.mp hp').1
  · rw [hinteractions]
    exact hloop.claim worker rfl rfl
  · rw [hinteractions]
    exact hi

/-- A worker takes its Run to the user. -/
theorem requireInput (h : AgentsFit a)
    (hview : ∀ n, RunsLater (view n).facts.runs a.store.facts.runs) {c : WorkerCall}
    {token : UUID} {w : LoopWorker} {payload : Dict} {interactionId : Option UUID}
    {fresh : ℕ → Stamp} {run' : AgentRun} (hwf : RunsWellFormed s.facts.runs)
    (hrunId : c.runId = runId) (haction : c.action = .wait payload interactionId)
    (howner : c.claimOwner = some w.worker.workerId) (htoken : c.claimToken = w.run.claimToken)
    (hw : (a.loops runId).workers token = some w)
    (hquestion : w.question = some (payload, interactionId))
    (hok : workerTransition c fresh view a.store = .ok (s, run')) :
    AgentsFit (({ a with store := s } : Agents).updateLoop runId (.setWorker token none)) := by
  simp only [workerTransition, haction, Raise.bind_eq_ok, Raise.ensure_eq_ok] at hok
  obtain ⟨run, hrun, _, howns, hok⟩ := hok
  obtain ⟨hread, hid, huser⟩ := getRun_ok hrun
  obtain ⟨interactions, hmethod, hins, hversion, hs⟩ := commitTransition_wait_ok hok
  obtain ⟨hrunning, ms, hrun'⟩ := AgentRun.waitForUser_ok hmethod
  have hid' : run'.id = run.id := by rw [hrun']; rfl
  obtain ⟨row, hrow, hcore, hp⟩ := exists_row_of_update (hview 0) hread hid' hversion
  have hrowid : row.id = runId :=
    (((updateWhere_iff.mp hp).1.trans hid').trans hid).trans hrunId
  have hinteractions : s.interactions = interactions := congrArg Facts.interactions hs
  have hloop := h.loops row hrow
  rw [hrowid] at hloop
  -- only the worker of the present claim gets this far
  have hlatest : (a.loops runId).latest = some token := by
    have hheld := hloop.held token w hw
    have hrowtoken : row.claimToken = run.claimToken := (congrArg AgentRun.claimToken hcore :)
    simp only [ownsRun, howner, reduceCtorEq, false_or, decide_eq_true_eq] at howns
    refine hloop.fence token ?_
    rw [hrowtoken, howns.2.2, htoken, hheld]
  subst hrowid
  have hkeep : Table.Keeps (updateWhere run' run.version) (updateValues run') := fun _ _ _ h => h
  refine h.change hwf hrow hkeep (congrArg Facts.runs hs) hp (fun r hr hp' => ?_) (fun _ => rfl)
    (fun hloop => ?_) (fun r hr _ i hi _ => ?_)
  · exact run_ext hr hrow ((updateWhere_iff.mp hp').1.trans (updateWhere_iff.mp hp).1.symm)
  · rw [hinteractions]
    refine hloop.wait hlatest hw hquestion hins (hid.trans hrunId) rfl rfl rfl ?_ ?_ ?_
    · simp [updateValues, hrun', openedInteraction]
    · simp only [updateValues, hrun']
      exact (congrArg AgentRun.resumePayload hcore :).symm
    · simp [updateValues, hrun', AgentRun.releaseClaim]
  · rw [hinteractions]
    exact (Table.mem_insert? hins).mpr (.inl hi)

/-- Every step that keeps to its turn keeps every Run fitting its loop, and moves the Runs on. -/
theorem step (h : AgentsFit a) {op : LoopOp} {view : ℕ → Agents}
    (hview : ∀ n, RunsLater (view n).store.facts.runs a.store.facts.runs) (hturn : op.InTurn a) :
    AgentsFit (a.commit op view) ∧
      RunsLater a.store.facts.runs (a.commit op view).store.facts.runs := by
  have hsame : RunsLater a.store.facts.runs a.store.facts.runs := .refl _
  have hkept := h.runsKept hview
  cases op with
  | runtime op hquiet =>
    refine ⟨h.quiet (hkept op).1 ?_, (hkept op).2⟩
    exact (commit_effect op _ a.store).quiet h.runs hview hquiet
  | resume userId runId interruptId response expectedVersion key fresh =>
    have hkept := hkept (.resumeRun userId runId interruptId response expectedVersion key fresh)
    simp only [Agents.commit, Runtime.commit] at hkept ⊢
    cases hok : resumeRun userId runId interruptId response expectedVersion key fresh
        (fun n => (view n).store) a.store with
    | error e => exact ⟨h, hsame⟩
    | ok result =>
      obtain ⟨s, run', replayed⟩ := result
      rw [hok] at hkept
      cases replayed with
      | true =>
        obtain ⟨-, rfl⟩ | ⟨hreplayed, -⟩ := resumeRun_ok hok
        · exact ⟨h, hsame⟩
        · cases hreplayed
      | false => exact ⟨h.resume hview hkept.1 hok, hkept.2⟩
  | claim worker userId runId lease fresh =>
    have hkept := hkept (.claimRun userId runId worker.workerId lease fresh)
    simp only [Agents.commit, Runtime.commit] at hkept ⊢
    cases hok : claimRun userId runId worker.workerId lease fresh a.store with
    | error e => exact ⟨h, hsame⟩
    | ok result =>
      obtain ⟨s, claimed⟩ := result
      rw [hok] at hkept
      cases claimed with
      | none =>
        obtain ⟨-, rfl⟩ | ⟨⟨_, -, -, hclaimed⟩, -⟩ := claimRun_ok hok
        · exact ⟨h, hsame⟩
        · cases hclaimed
      | some run => exact ⟨h.claim hkept.1 hok, hkept.2⟩
  | reconcile runId token now =>
    exact ⟨h.updateLoop (fun _ _ _ hloop => hloop.reconcile now) rfl, hsame⟩
  | invoke runId token =>
    exact ⟨h.updateLoop (fun _ _ _ hloop => hloop.invoke hturn.1 hturn.2) rfl, hsame⟩
  | advance runId token values =>
    exact ⟨h.updateLoop (fun _ _ _ hloop => hloop.advance values) rfl, hsame⟩
  | reach runId token pending =>
    exact ⟨h.updateLoop (fun _ _ _ hloop => hloop.reach hturn pending) rfl, hsame⟩
  | stop runId token =>
    exact ⟨h.updateLoop (fun _ _ _ hloop => hloop.stop) (RunLoop.setWorker_none_empty token), hsame⟩
  | requireInput runId token fresh =>
    simp only [Agents.commit]
    split
    · exact ⟨h, hsame⟩
    case h_2 w hw =>
      split
      · exact ⟨h, hsame⟩
      case h_2 payload interactionId hquestion =>
        have hkept := hkept (Agents.requireInput w runId payload interactionId fresh)
        simp only [Agents.requireInput, Runtime.commit] at hkept ⊢
        cases hok : workerTransition _ fresh (fun n => (view n).store) a.store with
        | error e =>
          exact ⟨h.updateLoop (fun _ _ _ hloop => hloop.stop)
            (RunLoop.setWorker_none_empty token), hsame⟩
        | ok result =>
          rw [hok] at hkept
          exact ⟨h.requireInput hview hkept.1 rfl rfl rfl rfl hw hquestion hok, hkept.2⟩

end AgentsFit

/-- While every step keeps to its turn, every Run fits its loop. -/
theorem agents_stable : Program.Stable agents (fun op _ a => op.InTurn a) AgentsFit
    (fun v a => RunsLater v.store.facts.runs a.store.facts.runs) where
  init a ha := by
    obtain rfl : a = ⟨{}, fun _ => {}⟩ := ha
    exact ⟨fun r hr => absurd hr Table.not_mem_empty, fun r hr => absurd hr Table.not_mem_empty,
      fun _ _ => rfl⟩
  refl _ := .refl _
  trans _ _ _ := .trans
  step _ _ _ hinv hviews hok := hinv.step (fun n => (hviews n).2) hok

/-- A worker without an inspector. -/
def plainWorker (workerId : String) : AgentRunWorker where
  workerId
  inspects := false

/-- Worker `w` takes Run 10 to its user to confirm the action `a1`, the user confirms, and worker `v`
goes on. -/
def confirmedLoop : List LoopOp :=
  [.runtime (.createAutomationRun ⟨1, 2, none, "title", "message", "occurrence"⟩ []
      (stampsFrom 10 0)) rfl,
    .claim (plainWorker "w") 1 10 60 (stampsFrom 20 0),
    .reconcile 10 20 1,
    .invoke 10 20,
    .reach 10 20 ⟨"i1", .confirmation "a1" "memory_forget"⟩,
    .requireInput 10 20 (stampsFrom 30 2),
    .resume 1 10 30 confirmation 3 "answer" (stampsFrom 40 3),
    .claim (plainWorker "v") 1 10 60 (stampsFrom 50 4),
    .reconcile 10 50 5,
    .invoke 10 50]

/-- The graph goes on to the interrupt for the action `a2`, worker `v` dies before the Run is taken
to its user, and worker `u` claims the Run when the lease is over. -/
def redeliveredLoop : List LoopOp :=
  confirmedLoop ++
    [.reach 10 50 ⟨"i2", .confirmation "a2" "thing_delete"⟩,
      .stop 10 50,
      .claim (plainWorker "u") 1 10 60 (stampsFrom 60 70),
      .reconcile 10 60 71,
      .invoke 10 60]

/-- The system after these steps. -/
def loopAfter (ops : List LoopOp) : History Agents LoopOp Unit :=
  agents.serial ⟨{}, fun _ => {}⟩ ops

end Runtime
