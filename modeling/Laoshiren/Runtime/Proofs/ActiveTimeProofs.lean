import Mathlib.Algebra.Order.BigOperators.Group.List
import Mathlib.Tactic.Linarith
import Mathlib.Tactic.Ring
import Laoshiren.Runtime.Lifecycle
import Laoshiren.Runtime.Proofs.LifecycleProofs

/-!
# Proofs: the active time of a Run, as long as every transaction is within the lease

A transaction that starts the stopwatch or stops it does so at its own clock. Where each of them comes
before the lease is over, the time on the stopwatch is time under the lease.
-/

namespace Runtime

open Raise RunRepository

variable {x x' : Facts} {r r' run run' : AgentRun} {s s' : Store} {view : ℕ → Store} {op : Op}
  {runId : UUID} {till now : Timestamp}

/-! ## The stopwatch -/

/-- What a Run has of the stopwatch. -/
def AgentRun.watch (run : AgentRun) : RunStatus × ℕ × Option Timestamp :=
  (run.status, run.activeTimeUsedMs, run.activeStartedAt)

/-- What a transaction at a clock does to the stopwatch of a Run. -/
inductive WatchStep (t : Timestamp) : AgentRun → AgentRun → Prop
  | kept {r r' : AgentRun} (h : r'.watch = r.watch) : WatchStep t r r'
  | requeued {r r' : AgentRun} (hr : r.status ≠ .running) (hr' : r'.status ≠ .running)
      (hused : r'.activeTimeUsedMs = r.activeTimeUsedMs)
      (hactive : r'.activeStartedAt = r.activeStartedAt) : WatchStep t r r'
  | started {r r' : AgentRun} (hr : r.status = .queued) (hr' : r'.status = .running)
      (hused : r'.activeTimeUsedMs = r.activeTimeUsedMs)
      (hactive : r'.activeStartedAt = r.activeStartedAt.or (some t)) : WatchStep t r r'
  | stopped {r r' : AgentRun} (hr' : r'.status ≠ .running)
      (hused : r'.activeTimeUsedMs = (r.pauseActiveTime t).activeTimeUsedMs)
      (hactive : r'.activeStartedAt = none) : WatchStep t r r'

/-- The methods that let a Run go stop its stopwatch. -/
theorem stopped_of_row {t : Timestamp} (hcore : r.core = run.core) (hstatus : run'.status ≠ .running)
    (hused : run'.activeTimeUsedMs = (run.pauseActiveTime t).activeTimeUsedMs)
    (hactive : run'.activeStartedAt = none) : WatchStep t r (updateValues run' r) := by
  have hsame : r.activeStartedAt = run.activeStartedAt := (congrArg AgentRun.activeStartedAt hcore :)
  have hms : r.activeTimeUsedMs = run.activeTimeUsedMs := (congrArg AgentRun.activeTimeUsedMs hcore :)
  refine .stopped hstatus ?_ hactive
  show run'.activeTimeUsedMs = _
  rw [hused]
  unfold AgentRun.pauseActiveTime
  rw [hsame]
  split
  · exact hms.symm
  · simp only [hms]

theorem recoverAfterCrash_watch (h : run.recoverAfterCrash now = .ok run') :
    run.status = .running ∧ run'.status ≠ .running ∧
      run'.activeTimeUsedMs = (run.pauseActiveTime now).activeTimeUsedMs ∧
      run'.activeStartedAt = none := by
  obtain ⟨hrunning, ms, hrun'⟩ := AgentRun.recoverAfterCrash_ok h
  unfold AgentRun.recoverAfterCrash at h
  rw [if_neg (not_not.mpr hrunning)] at h
  refine ⟨hrunning, by rw [hrun']; simp, by rw [← Except.ok.inj h]; rfl, by rw [hrun']⟩

theorem waitForUser_watch {interruptId : UUID} {payload : Dict}
    (h : run.waitForUser now interruptId payload = .ok run') :
    run'.status ≠ .running ∧ run'.activeTimeUsedMs = (run.pauseActiveTime now).activeTimeUsedMs ∧
      run'.activeStartedAt = none := by
  obtain ⟨hrunning, ms, hrun'⟩ := AgentRun.waitForUser_ok h
  unfold AgentRun.waitForUser at h
  rw [if_neg (not_not.mpr hrunning)] at h
  refine ⟨by rw [hrun']; simp, by rw [← Except.ok.inj h]; rfl, by rw [hrun']⟩

theorem complete_watch {finalMessageId : UUID} (h : run.complete now finalMessageId = .ok run') :
    run'.status ≠ .running ∧ run'.activeTimeUsedMs = (run.pauseActiveTime now).activeTimeUsedMs ∧
      run'.activeStartedAt = none := by
  obtain ⟨hrunning, ms, hrun'⟩ := AgentRun.complete_ok h
  unfold AgentRun.complete at h
  rw [if_neg (not_not.mpr hrunning)] at h
  refine ⟨by rw [hrun']; simp, by rw [← Except.ok.inj h]; rfl, by rw [hrun']⟩

theorem fail_watch {errorCode : String} (h : run.fail now errorCode = .ok run') :
    run'.status ≠ .running ∧ run'.activeTimeUsedMs = (run.pauseActiveTime now).activeTimeUsedMs ∧
      run'.activeStartedAt = none := by
  obtain ⟨hlive, ms, hrun'⟩ := AgentRun.fail_ok h
  unfold AgentRun.fail at h
  rw [if_neg (by simp [hlive])] at h
  refine ⟨by rw [hrun']; simp, by rw [← Except.ok.inj h]; rfl, by rw [hrun']⟩

theorem cancel_watch (h : run.cancel now = .ok run') :
    run'.status ≠ .running ∧ run'.activeTimeUsedMs = (run.pauseActiveTime now).activeTimeUsedMs ∧
      run'.activeStartedAt = none := by
  obtain ⟨hlive, ms, hrun'⟩ := AgentRun.cancel_ok h
  unfold AgentRun.cancel at h
  rw [if_neg (by simp [hlive])] at h
  refine ⟨by rw [hrun']; simp, by rw [← Except.ok.inj h]; rfl, by rw [hrun']⟩

/-- The rows after the update of a Run that was read, with what the update does to a stopwatch. -/
theorem watch_of_update {v : Store} {t : Table AgentRun} {P : AgentRun → AgentRun → Prop}
    (hview : RunsLater v.facts.runs t) (hread : run ∈ v.runs) (hid : run'.id = run.id)
    (hrow : ∀ r, r.core = run.core → P r (updateValues run' r))
    (hr' : r' ∈ (update run' run.version t).1) : ∃ r ∈ t, r.id = r'.id ∧ (r' = r ∨ P r r') := by
  rcases mem_updated hr' with ⟨r, hr, hp, rfl⟩ | ⟨hr, _⟩
  · exact ⟨r, hr, rfl, Or.inr (hrow r (hview.core_of_update hread hid hr hp))⟩
  · exact ⟨r', hr, rfl, Or.inl rfl⟩

/-- A Run with the stopwatch of a row. -/
theorem watch_of_core (hcore : r.core = run.core) : r.watch = run.watch :=
  (congrArg AgentRun.watch hcore :)

/-- What a transaction but the recovery does to the stopwatch of a Run, at its clock. -/
theorem Effect.watch (hwf : RunsWellFormed x.runs)
    (hview : ∀ n, RunsLater (view n).facts.runs x.runs) (h : Effect view op x x')
    (hop : ∀ limit now fresh, op ≠ .recoverPendingRuns limit now fresh) (hr' : r' ∈ x'.runs) :
    r'.IsNew ∨ ∃ r ∈ x.runs, r.id = r'.id ∧
      (r' = r ∨ ∃ t, op.actsAt r'.id = some t ∧ WatchStep t r r') := by
  have hsame : r' ∈ x.runs → r'.IsNew ∨ ∃ r ∈ x.runs, r.id = r'.id ∧
      (r' = r ∨ ∃ t, op.actsAt r'.id = some t ∧ WatchStep t r r') := fun hr =>
    Or.inr ⟨r', hr, rfl, Or.inl rfl⟩
  cases h with
  | createRun hnew hrun _ _ =>
    rcases (Table.mem_insert? hrun).mp hr' with hr | rfl
    · exact hsame hr
    · exact Or.inl hnew
  | @claimRun userId id owner lease fresh =>
    have hkeep : Table.Keeps (claimWhere userId id (fresh 0).now)
        (claimValues owner (fresh 0).id (fresh 0).now ((fresh 0).now + lease)) := fun _ _ _ h => h
    rcases Table.mem_update_cases hkeep hr' with ⟨r, hr, hp, rfl⟩ | ⟨hr, _⟩
    · refine Or.inr ⟨r, hr, rfl, Or.inr ⟨_, rfl, ?_⟩⟩
      rcases status_of_claimWhere hp with hqueued | hrunning
      · exact .started hqueued rfl rfl rfl
      -- the stopwatch of a Run that was abandoned goes on
      · obtain ⟨since, hsince⟩ := Option.isSome_iff_exists.mp ((hwf r hr).active.mpr hrunning)
        refine .kept ?_
        simp only [AgentRun.watch, claimValues, hrunning, hsince, Option.some_or]
    · exact hsame hr
  | @renewRunLease userId id owner token lease now =>
    have hkeep : Table.Keeps (renewLeaseWhere userId id owner token)
        (renewLeaseValues now (now + lease)) := fun _ _ _ h => h
    rcases Table.mem_update_cases hkeep hr' with ⟨r, hr, _, rfl⟩ | ⟨hr, _⟩
    · exact Or.inr ⟨r, hr, rfl, Or.inr ⟨_, rfl, .kept rfl⟩⟩
    · exact hsame hr
  | recover _ => exact absurd rfl (hop _ _ _)
  | advance hread h _ =>
    refine Or.inr ?_
    refine watch_of_update (P := fun r r' => ∃ t, op.actsAt r'.id = some t ∧ WatchStep t r r')
      (hview 0) hread h.moved.counts.1 (fun r hcore => ?_) hr'
    cases h with
    | start _ h =>
      obtain ⟨hqueued, rfl⟩ := AgentRun.start_ok h
      have hwatch := watch_of_core hcore
      simp only [AgentRun.watch, Prod.mk.injEq] at hwatch
      refine ⟨_, rfl, .started (hwatch.1.trans hqueued) rfl hwatch.2.1.symm ?_⟩
      rw [hwatch.2.2]
      rfl
    | complete _ h =>
      obtain ⟨hstatus, hused, hactive⟩ := complete_watch h
      exact ⟨_, rfl, stopped_of_row hcore hstatus hused hactive⟩
    | fail _ _ _ _ h =>
      obtain ⟨hstatus, hused, hactive⟩ := fail_watch h
      exact ⟨_, rfl, stopped_of_row hcore hstatus hused hactive⟩
    | accept h _ =>
      refine ⟨_, rfl, .kept ?_⟩
      obtain ⟨hrunning, rfl | rfl⟩ := AgentRun.acceptTerminalOutput_ok h
      · exact (watch_of_core hcore).symm
      · exact (watch_of_core hcore).symm
  | wait hread _ _ _ h _ _ =>
    refine Or.inr ?_
    refine watch_of_update (P := fun r r' => ∃ t, Op.actsAt r'.id _ = some t ∧ WatchStep t r r')
      (hview 0) hread (AgentRun.Moved.wait h).counts.1 (fun r hcore => ?_) hr'
    obtain ⟨hstatus, hused, hactive⟩ := waitForUser_watch h
    exact ⟨_, rfl, stopped_of_row hcore hstatus hused hactive⟩
  | resume hread _ _ _ _ _ h _ _ =>
    refine Or.inr ?_
    refine watch_of_update (P := fun r r' => ∃ t, Op.actsAt r'.id _ = some t ∧ WatchStep t r r')
      (hview 1) hread (AgentRun.Moved.resume h).counts.1 (fun r hcore => ?_) hr'
    obtain ⟨hwaiting, _, rfl⟩ := AgentRun.resume_ok h
    have hwatch := watch_of_core hcore
    simp only [AgentRun.watch, Prod.mk.injEq] at hwatch
    refine ⟨_, rfl, .requeued (by rw [hwatch.1, hwaiting]; decide) ?_ hwatch.2.1.symm hwatch.2.2.symm⟩
    simp [updateValues]
  | cancel _ _ hread _ _ _ h _ =>
    refine Or.inr ?_
    refine watch_of_update (P := fun r r' => ∃ t, Op.actsAt r'.id _ = some t ∧ WatchStep t r r')
      (hview 3) hread (AgentRun.Moved.cancel h).counts.1 (fun r hcore => ?_) hr'
    obtain ⟨hstatus, hused, hactive⟩ := cancel_watch h
    exact ⟨_, rfl, stopped_of_row hcore hstatus hused hactive⟩
  | _ => exact hsame hr'

/-! ## Recovery -/

/-- The recovery of one Run stops its stopwatch. -/
theorem recoverRun_watch {fresh : UUID → Stamp}
    (hview : RunsLater (view 0).facts.runs s.facts.runs) (hread : run ∈ (view 0).runs)
    (h : recoverRun fresh s run = .ok s') (hr' : r' ∈ s'.facts.runs) :
    ∃ r ∈ s.facts.runs, r.id = r'.id ∧ (r' = r ∨ r.status = .running ∧ r'.status ≠ .running ∧
      WatchStep (fresh r'.id).now r r') := by
  have hsame : r' ∈ s.facts.runs → ∃ r ∈ s.facts.runs, r.id = r'.id ∧ (r' = r ∨
      r.status = .running ∧ r'.status ≠ .running ∧ WatchStep (fresh r'.id).now r r') :=
    fun hr => ⟨r', hr, rfl, Or.inl rfl⟩
  unfold recoverRun at h
  split at h
  · simp only [bind_eq_ok, reraise_eq_ok] at h
    obtain ⟨recovered, hrecover, h⟩ := h
    obtain ⟨htable, _⟩ := Store.facts_update recovered run.version s.runs
    split at h
    · simp only [bind_eq_ok, pure_eq_ok, Prod.exists] at h
      obtain ⟨s₁, event, hevent, rfl⟩ := h
      rw [Store.facts_appendEvent hevent] at hr'
      simp only [Store.facts, htable] at hr'
      obtain ⟨hrunning, hstatus, hused, hactive⟩ := recoverAfterCrash_watch hrecover
      have hid := (AgentRun.Moved.recover hrecover).counts.1
      rcases mem_updated hr' with ⟨r, hr, hp, rfl⟩ | ⟨hr, _⟩
      · have hcore := hview.core_of_update hread hid hr hp
        have hrid : r.id = run.id := (updateWhere_iff.mp hp).1.trans hid
        refine ⟨r, hr, rfl, Or.inr ⟨?_, hstatus, ?_⟩⟩
        · exact (congrArg AgentRun.status hcore :).trans hrunning
        · show WatchStep (fresh r.id).now r _
          rw [hrid]
          exact stopped_of_row hcore hstatus hused hactive
      · exact hsame hr
    · obtain rfl := pure_eq_ok.mp h
      exact hsame hr'
  · obtain rfl := pure_eq_ok.mp h
    exact hsame hr'

theorem recoverRuns_watch {fresh : UUID → Stamp} {runs : List AgentRun}
    (hwf : RunsWellFormed s.facts.runs) (hview : RunsLater (view 0).facts.runs s.facts.runs)
    (hread : ∀ run ∈ runs, run ∈ (view 0).runs) (h : runs.foldlM (recoverRun fresh) s = .ok s')
    (hr' : r' ∈ s'.facts.runs) :
    ∃ r ∈ s.facts.runs, r.id = r'.id ∧ (r' = r ∨ r.status = .running ∧ r'.status ≠ .running ∧
      WatchStep (fresh r'.id).now r r') := by
  induction runs generalizing s with
  | nil =>
    obtain rfl := pure_eq_ok.mp h
    exact ⟨r', hr', rfl, Or.inl rfl⟩
  | cons run runs ih =>
    simp only [List.foldlM_cons, bind_eq_ok] at h
    obtain ⟨s₁, hfirst, hrest⟩ := h
    obtain ⟨runs₁, hsteps, hs₁⟩ := recoverRun_effect (hread run (.head _)) hfirst
    have hkept := runsKept_of_recovers hwf hview hsteps
    have hruns₁ : s₁.facts.runs = runs₁ := by rw [hs₁]
    obtain ⟨r₁, hr₁, hid₁, hlast⟩ := ih (hruns₁ ▸ hkept.1) (hruns₁ ▸ hview.trans hkept.2)
      (fun other hother => hread other (.tail _ hother)) hrest
    obtain ⟨r, hr, hid, hstep⟩ := recoverRun_watch hview (hread run (.head _)) hfirst hr₁
    refine ⟨r, hr, hid.trans hid₁, ?_⟩
    rcases hstep with rfl | ⟨hrunning, hstopped, hwatch⟩
    · exact hlast
    -- a Run that was recovered is not running, so it is not recovered again
    · rcases hlast with rfl | ⟨hagain, _⟩
      · exact Or.inr ⟨hrunning, hstopped, hwatch⟩
      · exact absurd hagain hstopped

/-! ## One step -/

/-- What a transaction does to the stopwatch of a Run: nothing, or something at its clock. -/
theorem commit_watch (hwf : RunsWellFormed s.facts.runs)
    (hview : ∀ n, RunsLater (view n).facts.runs s.facts.runs)
    (hr' : r' ∈ (commit op view s).1.runs) :
    (r'.activeTimeUsedMs = 0 ∧ r'.activeStartedAt = none) ∨ ∃ r ∈ s.runs, r.id = r'.id ∧
      (r'.watch = r.watch ∨ ∃ t, op.actsAt r'.id = some t ∧ WatchStep t r r') := by
  have hstored : ∀ {r₁ r₂ : AgentRun} {t : Timestamp}, WatchStep t r₁.forgetEvents r₂.forgetEvents →
      WatchStep t r₁ r₂ := by
    intro r₁ r₂ t h
    cases h with
    | kept h => exact .kept h
    | requeued hr hr' hused hactive => exact .requeued hr hr' hused hactive
    | started hr hr' hused hactive => exact .started hr hr' hused hactive
    | stopped hr' hused hactive =>
      refine .stopped hr' (hused.trans ?_) hactive
      unfold AgentRun.pauseActiveTime AgentRun.forgetEvents
      dsimp only
      split <;> rfl
  by_cases hop : ∃ limit now fresh, op = .recoverPendingRuns limit now fresh
  · obtain ⟨limit, now, fresh, rfl⟩ := hop
    simp only [commit] at hr'
    cases h : recoverPendingRuns limit now fresh view s with
    | error error =>
      rw [h] at hr'
      exact Or.inr ⟨r', hr', rfl, Or.inl rfl⟩
    | ok recovered =>
      rw [h] at hr'
      have hread : ∀ run ∈ listRecoverable now limit (view 0).runs, run ∈ (view 0).runs := by
        intro run hrun
        have hselected := (List.mem_insertionSort _).mp (List.mem_of_mem_take hrun)
        exact (List.mem_filter.mp hselected).1
      obtain ⟨r, hr, hid, hstep⟩ :=
        recoverRuns_watch hwf (hview 0) hread h (Store.mem_facts_runs hr')
      obtain ⟨r, hmem, rfl⟩ := Store.exists_of_mem_facts_runs hr
      refine Or.inr ⟨r, hmem, hid, ?_⟩
      rcases hstep with heq | ⟨_, _, hwatch⟩
      · exact Or.inl (congrArg AgentRun.watch heq :)
      · exact Or.inr ⟨_, rfl, hstored hwatch⟩
  · have hop : ∀ limit now fresh, op ≠ .recoverPendingRuns limit now fresh :=
      fun limit now fresh heq => hop ⟨limit, now, fresh, heq⟩
    rcases (commit_effect op view s).watch hwf hview hop (Store.mem_facts_runs hr') with
      hnew | ⟨r, hr, hid, hstep⟩
    · refine Or.inl ⟨?_, ?_⟩
      · exact (congrArg AgentRun.activeTimeUsedMs hnew :)
      · exact (congrArg AgentRun.activeStartedAt hnew :)
    · obtain ⟨r, hmem, rfl⟩ := Store.exists_of_mem_facts_runs hr
      refine Or.inr ⟨r, hmem, hid, ?_⟩
      rcases hstep with heq | ⟨t, hat, hwatch⟩
      · exact Or.inl (congrArg AgentRun.watch heq :)
      · exact Or.inr ⟨t, hat, hstored hwatch⟩

/-! ## The stretches of a history -/

theorem rowOf_eq_some : rowOf runId s = some r ↔ r ∈ s.runs ∧ r.id = runId := by
  constructor
  · intro h
    obtain ⟨hmem, hid⟩ := Table.get_eq_some h
    exact ⟨hmem, of_decide_eq_true hid⟩
  · rintro ⟨hmem, rfl⟩
    exact Table.get_of_mem hmem (by simp) fun r' hr' => .inl (of_decide_eq_true hr')

theorem Stretch.leased_nonneg (stretch : Stretch) : 0 ≤ stretch.leased := by
  unfold Stretch.leased
  split
  · exact le_rfl
  · split
    · split
      · exact le_rfl
      · exact le_max_left _ _
    · exact le_rfl

theorem leasedTime_nonneg (parts : List Stretch) : 0 ≤ leasedTime parts := by
  refine List.sum_nonneg fun n hn => ?_
  obtain ⟨stretch, _, rfl⟩ := List.mem_map.mp hn
  exact stretch.leased_nonneg

/-- A stretch within its lease counts in full. -/
theorem Stretch.leased_running {since : Timestamp} (hin : (⟨some r, since, till⟩ : Stretch).InOrder)
    (hlease : (⟨some r, since, till⟩ : Stretch).WithinLease) (hrunning : r.status = .running) :
    (⟨some r, since, till⟩ : Stretch).leased = till - since := by
  obtain ⟨lease, hsome, hle⟩ := hlease r rfl hrunning
  have hsome : r.leaseExpiresAt = some lease := hsome
  have hle : till ≤ lease := hle
  have hin : 0 ≤ till - since := sub_nonneg.mpr hin
  unfold Stretch.leased
  simp only [hrunning, hsome, if_true]
  rw [min_eq_left hle]
  exact max_eq_right hin

/-- What is charged depends on the stopwatch alone. -/
theorem charged_of_watch (h : r'.watch = r.watch) (now : Timestamp) : r'.charged now = r.charged now := by
  simp only [AgentRun.watch, Prod.mk.injEq] at h
  unfold AgentRun.charged
  rw [h.2.1, h.2.2]

theorem charged_stopped (h : r.activeStartedAt = none) (now : Timestamp) :
    r.charged now = r.activeTimeUsedMs * 1000 := by
  unfold AgentRun.charged
  rw [h, Option.getD_none]
  omega

theorem charged_running {since : Timestamp} (h : r.activeStartedAt = some since) (now : Timestamp) :
    r.charged now = r.activeTimeUsedMs * 1000 + (now - since) := by
  unfold AgentRun.charged
  rw [h, Option.getD_some]

/-- The stopwatch is stopped exactly while the Run is not running. -/
theorem stopped_iff (hwf : r.WellFormed) : r.activeStartedAt = none ↔ r.status ≠ .running := by
  rw [← not_iff_not, not_not, ← hwf.active, Option.isSome_iff_ne_none]

/-- Stopping the stopwatch charges no more than ran. -/
theorem charged_pause (h : ∀ since ∈ r.activeStartedAt, since ≤ now) :
    ((r.pauseActiveTime now).activeTimeUsedMs : ℤ) * 1000 ≤ r.charged now := by
  unfold AgentRun.pauseActiveTime
  split
  · rename_i hnone
    exact (charged_stopped hnone now).ge
  · rename_i since hsome
    have hle : 0 ≤ now - since := sub_nonneg.mpr (h since hsome)
    have hms : (((now - since) / 1000).toNat : ℤ) = (now - since) / 1000 :=
      Int.toNat_of_nonneg (Int.ediv_nonneg hle (by decide))
    have hfloor : (now - since) / 1000 * 1000 ≤ now - since := Int.ediv_mul_le _ (by decide)
    rw [charged_running hsome]
    dsimp only
    push_cast
    rw [hms, add_mul]
    exact add_le_add_right hfloor _

/-- A stretch after a step at its beginning: what is charged grows by no more than the stretch. -/
theorem charged_step {t : Timestamp} (hwf : r.WellFormed) (hwf' : r'.WellFormed)
    (hstep : WatchStep t r r') (hsince : ∀ since ∈ r.activeStartedAt, since ≤ t)
    (hin : (⟨some r', t, till⟩ : Stretch).InOrder)
    (hlease : (⟨some r', t, till⟩ : Stretch).WithinLease) :
    (∀ since ∈ r'.activeStartedAt, since ≤ till) ∧
      r'.charged till ≤ (⟨some r', t, till⟩ : Stretch).leased + r.charged t := by
  have hle : t ≤ till := hin
  have hpos := Stretch.leased_nonneg ⟨some r', t, till⟩
  cases hstep with
  | kept h =>
    have hwatch := h
    simp only [AgentRun.watch, Prod.mk.injEq] at hwatch
    refine ⟨fun since hmem => (hsince since (hwatch.2.2 ▸ hmem)).trans hle, ?_⟩
    rw [charged_of_watch h]
    cases hactive : r.activeStartedAt with
    | none =>
      rw [charged_stopped hactive, charged_stopped hactive]
      omega
    | some since =>
      have hrunning : r'.status = .running := by
        rw [← hwf'.active, hwatch.2.2, hactive]
        rfl
      rw [Stretch.leased_running hin hlease hrunning, charged_running hactive, charged_running hactive]
      omega
  | requeued hr hr' hused hactive =>
    have hnone := (stopped_iff hwf).mpr hr
    rw [hnone] at hactive
    refine ⟨fun since hmem => ?_, ?_⟩
    · rw [hactive] at hmem
      cases hmem
    · rw [charged_stopped hactive, charged_stopped hnone, hused]
      omega
  | started hr hr' hused hactive =>
    have hnone := (stopped_iff hwf).mpr (by rw [hr]; decide)
    rw [hnone, Option.none_or] at hactive
    refine ⟨fun since hmem => ?_, ?_⟩
    · rw [hactive] at hmem
      obtain rfl := Option.some.inj hmem
      exact hle
    · rw [Stretch.leased_running hin hlease hr', charged_running hactive, charged_stopped hnone, hused]
      omega
  | stopped hr' hused hactive =>
    refine ⟨fun since hmem => ?_, ?_⟩
    · rw [hactive] at hmem
      cases hmem
    · rw [charged_stopped hactive, hused]
      have hpause := charged_pause hsince
      omega

theorem stretches_cons (runId : UUID) (till : Timestamp) (s cur : Store) (op : Op)
    (before : List (Op × Store)) :
    stretches runId till cur ((op, s) :: before) =
      (if rowOf runId s = rowOf runId cur then none else op.actsAt runId).elim
        (stretches runId till s before) fun t =>
          ⟨rowOf runId cur, t, till⟩ :: stretches runId t s before := by
  rw [stretches]
  cases (if rowOf runId s = rowOf runId cur then none else op.actsAt runId) <;> rfl

/-- In a history without a step after the end of a lease, no more is charged than was leased. -/
theorem charged_le_leased {h : History Store Op Reply} (hr : system.Reachable h) (till : Timestamp)
    (hparts : ∀ stretch ∈ stretchesOf runId till h, stretch.InOrder ∧ stretch.WithinLease)
    (hrow : rowOf runId h.cur = some r) :
    (∀ since ∈ r.activeStartedAt, since ≤ till) ∧
      r.charged till ≤ leasedTime (stretchesOf runId till h) := by
  induction hr generalizing till r with
  | init hs =>
    obtain rfl := hs
    obtain ⟨hmem, _⟩ := rowOf_eq_some.mp hrow
    exact absurd hmem Table.not_mem_empty
  | @commit h hr op view hview _ ih =>
    have hstretches : stretchesOf runId till (system.extend h op view) =
        (if rowOf runId h.cur = rowOf runId (commit op view h.cur).1 then none
          else op.actsAt runId).elim (stretchesOf runId till h) fun t =>
            ⟨rowOf runId (commit op view h.cur).1, t, till⟩ :: stretchesOf runId t h := stretches_cons runId till h.cur _ op _
    have hrow : rowOf runId (commit op view h.cur).1 = some r := hrow
    obtain ⟨hmem, hid⟩ := rowOf_eq_some.mp hrow
    have hwf := runs_stable.inv_cur hr
    have hwf' : r.WellFormed :=
      (runs_stable.inv_cur (hr.commit op view hview trivial) _ (Store.mem_facts_runs hmem)).of_core rfl
    have hnew : r.activeTimeUsedMs = 0 ∧ r.activeStartedAt = none → ∀ parts till,
        (∀ since ∈ r.activeStartedAt, since ≤ till) ∧ r.charged till ≤ leasedTime parts := by
      rintro ⟨hused, hactive⟩ parts till
      refine ⟨fun since hsince => ?_, ?_⟩
      · rw [hactive] at hsince
        cases hsince
      · rw [charged_stopped hactive, hused]
        exact leasedTime_nonneg parts
    by_cases hsame : rowOf runId h.cur = rowOf runId (commit op view h.cur).1
    · rw [hstretches, if_pos hsame] at hparts ⊢
      exact ih till hparts (hsame.trans hrow)
    · rw [hstretches, if_neg hsame] at hparts ⊢
      have hwatch := commit_watch hwf (fun n => runs_stable.rel_mem hr (hview n)) hmem
      rw [hid] at hwatch
      cases hat : op.actsAt runId with
      | none =>
        rw [hat] at hparts
        rcases hwatch with hfresh | ⟨r₀, hr₀, hid₀, hkept | ⟨t, hacts, _⟩⟩
        · exact hnew hfresh _ _
        · obtain ⟨hsince, hcharged⟩ := ih till hparts (rowOf_eq_some.mpr ⟨hr₀, hid₀⟩)
          rw [charged_of_watch hkept]
          simp only [AgentRun.watch, Prod.mk.injEq] at hkept
          exact ⟨hkept.2.2 ▸ hsince, hcharged⟩
        · rw [hat] at hacts
          cases hacts
      | some t =>
        rw [hat, hrow] at hparts
        rw [hrow]
        dsimp only [Option.elim_some] at hparts ⊢
        obtain ⟨hin, hlease⟩ := hparts _ List.mem_cons_self
        have hbefore := fun stretch hstretch => hparts stretch (List.mem_cons_of_mem _ hstretch)
        have hsum : leasedTime (⟨some r, t, till⟩ :: stretchesOf runId t h) =
            (⟨some r, t, till⟩ : Stretch).leased + leasedTime (stretchesOf runId t h) := by
          simp [leasedTime]
        rcases hwatch with hfresh | ⟨r₀, hr₀, hid₀, hstep⟩
        · exact hnew hfresh _ _
        · have hwf₀ : r₀.WellFormed := (hwf _ (Store.mem_facts_runs hr₀)).of_core rfl
          have hstep : WatchStep t r₀ r := by
            rcases hstep with hkept | ⟨t', hacts, hstep⟩
            · exact .kept hkept
            · rw [hat] at hacts
              rwa [Option.some.inj hacts]
          obtain ⟨hsince, hcharged⟩ := ih t hbefore (rowOf_eq_some.mpr ⟨hr₀, hid₀⟩)
          obtain ⟨hsince', hcharged'⟩ := charged_step hwf₀ hwf' hstep hsince hin hlease
          refine ⟨hsince', ?_⟩
          rw [hsum]
          omega

/-! ## The budget -/

theorem activeElapsed_eq (run : AgentRun) (now : Timestamp) :
    AgentRunWorker.activeElapsed run now * 1000000 = (run.charged now : ℚ) := by
  unfold AgentRunWorker.activeElapsed AgentRun.charged
  push_cast
  ring

/-- A Run whose budget is exhausted was charged its budget. -/
theorem budget_of_exhausted {worker : AgentRunWorker} {snapshot : GraphSnapshot}
    (h : worker.decide snapshot now run = .failRun "BUDGET_EXHAUSTED") :
    ∃ budget ∈ worker.activeBudget run.budgetSnapshot,
      budget ≤ AgentRunWorker.activeElapsed run now := by
  unfold AgentRunWorker.decide at h
  cases hbudget : worker.activeBudget run.budgetSnapshot with
  | none =>
    rw [hbudget] at h
    cases h
  | some budget =>
    rw [hbudget] at h
    dsimp only at h
    refine ⟨budget, rfl, ?_⟩
    by_contra hlt
    rw [if_neg (by linarith)] at h
    cases houtput : run.terminalOutput with
    | some output =>
      rw [houtput] at h
      dsimp only at h
      split at h
      · simp at h
      · cases h
    | none =>
      rw [houtput] at h
      dsimp only at h
      split at h
      · unfold AgentRunWorker.decideCheckpoint at h
        split at h
        · simp at h
        · split at h
          · cases h
          · split at h <;> cases h
        · split at h
          · cases h
          · unfold AgentRunWorker.checkpointWait at h
            split at h <;> cases h
        · cases h
        · cases h
      · cases h

/-- In every history, and at any moment after it: where time did not go backwards on a Run, and neither a
transaction on it nor the moment itself comes after the end of a lease under which it was RUNNING, the
active time of the Run is no more than the time that it was RUNNING under a lease; and a worker that
finds its budget exhausted finds it used up by this time. -/
theorem active_time_leased (h : History Store Op Reply) (hr : system.Reachable h) (runId : UUID)
    (till : Timestamp)
    (hparts : ∀ stretch ∈ stretchesOf runId till h, stretch.InOrder ∧ stretch.WithinLease)
    (r : AgentRun) (hrow : rowOf runId h.cur = some r) :
    AgentRunWorker.activeElapsed r till * 1000000 ≤ leasedTime (stretchesOf runId till h) ∧
      ∀ (worker : AgentRunWorker) snapshot,
        worker.decide snapshot till r = .failRun "BUDGET_EXHAUSTED" →
          ∃ budget ∈ worker.activeBudget r.budgetSnapshot,
            budget * 1000000 ≤ leasedTime (stretchesOf runId till h) := by
  have hcharged : AgentRunWorker.activeElapsed r till * 1000000 ≤
      leasedTime (stretchesOf runId till h) := by
    rw [activeElapsed_eq]
    exact_mod_cast (charged_le_leased hr till hparts hrow).2
  refine ⟨hcharged, fun worker snapshot hfail => ?_⟩
  obtain ⟨budget, hbudget, hle⟩ := budget_of_exhausted hfail
  exact ⟨budget, hbudget, le_trans (by linarith) hcharged⟩

/-- Run 10 is claimed for a minute. -/
def minuteRun : List Op :=
  [.createAutomationRun ⟨1, 2, none, "title", "message", "occurrence"⟩ [] (stampsFrom 10 0),
    .claimRun 1 10 "w" 60000000 (stampsFrom 20 0)]

/-- The claim is renewed after 30 seconds, and 80 seconds are charged after 80 seconds. -/
theorem active_time_leased_renewed :
    ∃ r, rowOf 10 (system.serial {} (minuteRun ++
        [.renewRunLease 1 10 "w" 20 60000000 30000000])).cur = some r ∧
      r.charged 80000000 = 80000000 ∧
      AgentRunWorker.activeElapsed r 80000000 * 1000000 ≤ leasedTime (stretchesOf 10 80000000
        (system.serial {} (minuteRun ++ [.renewRunLease 1 10 "w" 20 60000000 30000000]))) := by
  have hrow : ∃ r, rowOf 10 (system.serial {} (minuteRun ++
      [.renewRunLease 1 10 "w" 20 60000000 30000000])).cur = some r ∧
        r.charged 80000000 = 80000000 := ⟨_, rfl, by decide⟩
  obtain ⟨r, hrow, hcharged⟩ := hrow
  refine ⟨r, hrow, hcharged,
    (active_time_leased _ (system.serial_reachable rfl _) 10 80000000 ?_ r hrow).1⟩
  have hparts : stretchesOf 10 80000000 (system.serial {} (minuteRun ++
      [.renewRunLease 1 10 "w" 20 60000000 30000000])) =
        [⟨rowOf 10 (system.serial {} (minuteRun ++
            [.renewRunLease 1 10 "w" 20 60000000 30000000])).cur, 30000000, 80000000⟩,
          ⟨rowOf 10 (system.serial {} minuteRun).cur, 0, 30000000⟩] := rfl
  rw [hparts]
  intro stretch hstretch
  rcases List.mem_cons.mp hstretch with rfl | hstretch
  · refine ⟨by unfold Stretch.InOrder; decide, fun r₁ hr₁ _ => ⟨90000000, ?_, by decide⟩⟩
    obtain rfl := Option.some.inj hr₁
    rfl
  · obtain rfl := List.mem_singleton.mp hstretch
    refine ⟨by unfold Stretch.InOrder; decide, fun r₁ hr₁ _ => ⟨60000000, ?_, by decide⟩⟩
    obtain rfl := Option.some.inj hr₁
    rfl

/-- The worker of Run 10 crashes, and another one takes it over after 400 seconds: 60 seconds were under
a lease, 400 are charged, and the budget of 300 is exhausted. -/
theorem takeover_bills_downtime :
    let h := system.serial {} (minuteRun ++ [.claimRun 1 10 "v" 60000000 (stampsFrom 30 400000000)])
    system.Reachable h ∧ (∀ stretch ∈ stretchesOf 10 400000000 h, stretch.since ≤ stretch.till) ∧
      leasedTime (stretchesOf 10 400000000 h) = 60000000 ∧
      ∃ r, rowOf 10 h.cur = some r ∧ AgentRunWorker.activeElapsed r 400000000 = 400 ∧
        AgentRunWorker.decide { workerId := "v" } {} 400000000 r = .failRun "BUDGET_EXHAUSTED" := by
  refine ⟨system.serial_reachable rfl _, by decide, by decide, _, rfl, by decide +kernel,
    by decide +kernel⟩

end Runtime
