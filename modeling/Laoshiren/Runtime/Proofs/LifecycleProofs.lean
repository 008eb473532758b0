import Laoshiren.Runtime.Lifecycle
import Laoshiren.Runtime.Proofs.EffectsProofs

/-!
# The lifecycle of a Run

First what each method of a Run does (`start_ok`, …), once; then that every step of a row keeps the
Run well formed and moves its version on; then every history.
-/

namespace Runtime

namespace AgentRun

variable {run run' : AgentRun} {now : Timestamp}

/-! ## The methods -/

theorem pauseActiveTime_eq (run : AgentRun) (now : Timestamp) :
    ∃ ms, run.pauseActiveTime now = { run with activeTimeUsedMs := ms, activeStartedAt := none } := by
  unfold pauseActiveTime
  split
  case h_1 hnone => exact ⟨run.activeTimeUsedMs, by rw [← hnone]⟩
  case h_2 since _ => exact ⟨_, rfl⟩

theorem start_ok {phase label : Option String} (h : run.start now phase label = .ok run') :
    run.status = .queued ∧
      run' =
        { run with
          status := .running
          startedAt := run.startedAt.or (some now)
          activeStartedAt := run.activeStartedAt.or (some now)
          currentPhase := phase
          statusLabel := label
          updatedAt := now
          version := run.version + 1 } := by
  unfold start at h
  split at h
  case isTrue => cases h
  case isFalse hstatus => exact ⟨not_not.mp hstatus, (Except.ok.inj h).symm⟩

theorem recoverAfterCrash_ok (h : run.recoverAfterCrash now = .ok run') :
    run.status = .running ∧ ∃ ms,
      run' =
        { run.releaseClaim with
          status := .queued
          activeTimeUsedMs := ms
          activeStartedAt := none
          currentPhase := some "recovering"
          statusLabel := some "Recovering after service restart"
          updatedAt := now
          version := run.version + 1 } := by
  unfold recoverAfterCrash at h
  obtain ⟨ms, hms⟩ := run.pauseActiveTime_eq now
  split at h
  case isTrue => cases h
  case isFalse hstatus =>
    rw [hms] at h
    exact ⟨not_not.mp hstatus, ms, (Except.ok.inj h).symm⟩

theorem waitForUser_ok {interruptId : UUID} {payload : Dict}
    (h : run.waitForUser now interruptId payload = .ok run') :
    run.status = .running ∧ ∃ ms,
      run' =
        { run.releaseClaim with
          status := .waitingForUser
          activeTimeUsedMs := ms
          activeStartedAt := none
          interruptId := some interruptId
          interrupt := some payload
          updatedAt := now
          version := run.version + 1 } := by
  unfold waitForUser at h
  obtain ⟨ms, hms⟩ := run.pauseActiveTime_eq now
  split at h
  case isTrue => cases h
  case isFalse hstatus =>
    rw [hms] at h
    exact ⟨not_not.mp hstatus, ms, (Except.ok.inj h).symm⟩

theorem resume_ok {interruptId : UUID} {response : Dict}
    (h : run.resume now interruptId response = .ok run') :
    run.status = .waitingForUser ∧ run.interruptId = some interruptId ∧
      run' =
        { run with
          status := .queued
          interruptId := none
          interrupt := none
          resumePayload := some response
          currentPhase := some "resuming"
          statusLabel := some "正在继续处理"
          updatedAt := now
          version := run.version + 1 } := by
  unfold resume at h
  split at h
  case isTrue => cases h
  case isFalse hstatus =>
    split at h
    case isTrue => cases h
    case isFalse hinterrupt =>
      exact ⟨not_not.mp hstatus, not_not.mp hinterrupt, (Except.ok.inj h).symm⟩

theorem complete_ok {finalMessageId : UUID} (h : run.complete now finalMessageId = .ok run') :
    run.status = .running ∧ ∃ ms,
      run' =
        { run.releaseClaim with
          status := .completed
          activeTimeUsedMs := ms
          activeStartedAt := none
          finalMessageId := some finalMessageId
          completedAt := some now
          updatedAt := now
          version := run.version + 1 } := by
  unfold complete at h
  obtain ⟨ms, hms⟩ := run.pauseActiveTime_eq now
  split at h
  case isTrue => cases h
  case isFalse hstatus =>
    rw [hms] at h
    exact ⟨not_not.mp hstatus, ms, (Except.ok.inj h).symm⟩

/-- An output that is accepted is the one that was there, or the first one. -/
theorem acceptTerminalOutput_ok {output : Dict}
    (h : run.acceptTerminalOutput now output = .ok run') :
    run.status = .running ∧ (run' = run ∨
      run' =
        { run with
          terminalOutput := some output
          graphTerminalAt := some now
          updatedAt := now
          version := run.version + 1 }) := by
  unfold acceptTerminalOutput at h
  split at h
  case isTrue => cases h
  case isFalse hstatus =>
    refine ⟨not_not.mp hstatus, ?_⟩
    split at h
    · split at h
      · cases h
      · exact .inl (Except.ok.inj h).symm
    · exact .inr (Except.ok.inj h).symm

theorem fail_ok {errorCode : String} (h : run.fail now errorCode = .ok run') :
    run.status.terminal = false ∧ ∃ ms,
      run' =
        { run.releaseClaim with
          status := .failed
          activeTimeUsedMs := ms
          activeStartedAt := none
          errorCode := some errorCode
          completedAt := some now
          updatedAt := now
          version := run.version + 1 } := by
  unfold fail at h
  obtain ⟨ms, hms⟩ := run.pauseActiveTime_eq now
  split at h
  case isTrue => cases h
  case isFalse hstatus =>
    rw [hms] at h
    exact ⟨by simpa using hstatus, ms, (Except.ok.inj h).symm⟩

theorem cancel_ok (h : run.cancel now = .ok run') :
    run.status.terminal = false ∧ ∃ ms,
      run' =
        { run.releaseClaim with
          status := .cancelled
          activeTimeUsedMs := ms
          activeStartedAt := none
          completedAt := some now
          updatedAt := now
          version := run.version + 1 } := by
  unfold cancel at h
  obtain ⟨ms, hms⟩ := run.pauseActiveTime_eq now
  split at h
  case isTrue => cases h
  case isFalse hstatus =>
    rw [hms] at h
    exact ⟨by simpa using hstatus, ms, (Except.ok.inj h).symm⟩

/-! ## Well-formed Runs -/

theorem IsNew.wellFormed (h : run.IsNew) : run.WellFormed := by
  rw [h]
  constructor <;> simp [RunStatus.terminal]

namespace WellFormed

/-- Nobody holds a Run that is not running. -/
theorem unclaimed (h : run.WellFormed) (hstatus : run.status ≠ .running) :
    run.claimOwner = none ∧ run.claimToken = none ∧ run.leaseExpiresAt = none ∧
      run.activeStartedAt = none := by
  have howner : run.claimOwner = none := by simpa using mt h.claimed hstatus
  have htoken := h.token
  have hlease := h.lease
  have hactive := mt h.active.mp hstatus
  rw [howner] at htoken hlease
  exact ⟨howner, by simpa using htoken, by simpa using hlease, by simpa using hactive⟩

/-- A Run that is not over has no outcome yet. -/
theorem unsettled (h : run.WellFormed) (hstatus : run.status.terminal = false) :
    run.completedAt = none ∧ run.finalMessageId = none ∧ run.errorCode = none := by
  have hcompleted := mt h.completed.mp (by simp [hstatus])
  have hfinal := mt h.final.mp fun hst => by simp [hst, RunStatus.terminal] at hstatus
  have herror := mt h.error fun hst => by simp [hst, RunStatus.terminal] at hstatus
  exact ⟨by simpa using hcompleted, by simpa using hfinal, by simpa using herror⟩

/-- Well-formedness does not look at what may change while the version stays. -/
theorem of_core (h : run.WellFormed) (hcore : run'.core = run.core) : run'.WellFormed := by
  have hfield : ∀ {β : Type} (f : AgentRun → β), f run'.core = f run.core := fun f => by rw [hcore]
  have howner : run'.claimOwner = run.claimOwner := hfield AgentRun.claimOwner
  have htoken : run'.claimToken = run.claimToken := hfield AgentRun.claimToken
  have hstatus : run'.status = run.status := hfield AgentRun.status
  have hlease : run'.leaseExpiresAt.isSome = run.leaseExpiresAt.isSome := by
    simpa [core] using hfield fun r => r.leaseExpiresAt.isSome
  have hactive : run'.activeStartedAt = run.activeStartedAt := hfield AgentRun.activeStartedAt
  have hcompleted : run'.completedAt = run.completedAt := hfield AgentRun.completedAt
  have hfinal : run'.finalMessageId = run.finalMessageId := hfield AgentRun.finalMessageId
  have herror : run'.errorCode = run.errorCode := hfield AgentRun.errorCode
  constructor
  · rw [htoken, howner, h.token]
  · rw [hlease, howner, h.lease]
  · rw [howner, hstatus]
    exact h.claimed
  · rw [hactive, hstatus]
    exact h.active
  · rw [hcompleted, hstatus]
    exact h.completed
  · rw [hfinal, hstatus]
    exact h.final
  · rw [herror, hstatus]
    exact h.error

end WellFormed

/-! ## Every method -/

namespace Moved

/-- A method keeps the identity of the Run and counts its version up. -/
theorem counts (h : Moved run run') :
    run'.id = run.id ∧ run'.userId = run.userId ∧ run'.version = run.version + 1 := by
  cases h with
  | start h =>
    obtain ⟨-, rfl⟩ := start_ok h
    exact ⟨rfl, rfl, rfl⟩
  | recover h =>
    obtain ⟨-, ms, rfl⟩ := recoverAfterCrash_ok h
    exact ⟨rfl, rfl, rfl⟩
  | wait h =>
    obtain ⟨-, ms, rfl⟩ := waitForUser_ok h
    exact ⟨rfl, rfl, rfl⟩
  | resume h =>
    obtain ⟨-, -, rfl⟩ := resume_ok h
    exact ⟨rfl, rfl, rfl⟩
  | complete h =>
    obtain ⟨-, ms, rfl⟩ := complete_ok h
    exact ⟨rfl, rfl, rfl⟩
  | accept h hchanged =>
    obtain ⟨-, rfl | rfl⟩ := acceptTerminalOutput_ok h
    · exact absurd rfl hchanged
    · exact ⟨rfl, rfl, rfl⟩
  | fail h =>
    obtain ⟨-, ms, rfl⟩ := fail_ok h
    exact ⟨rfl, rfl, rfl⟩
  | cancel h =>
    obtain ⟨-, ms, rfl⟩ := cancel_ok h
    exact ⟨rfl, rfl, rfl⟩

/-- No method changes a Run that is over. -/
theorem live (h : Moved run run') : run.status.terminal = false := by
  cases h with
  | start h => simp [(start_ok h).1, RunStatus.terminal]
  | recover h => simp [(recoverAfterCrash_ok h).1, RunStatus.terminal]
  | wait h => simp [(waitForUser_ok h).1, RunStatus.terminal]
  | resume h => simp [(resume_ok h).1, RunStatus.terminal]
  | complete h => simp [(complete_ok h).1, RunStatus.terminal]
  | accept h _ => simp [(acceptTerminalOutput_ok h).1, RunStatus.terminal]
  | fail h => exact (fail_ok h).1
  | cancel h => exact (cancel_ok h).1

theorem wellFormed (h : Moved run run') (hwf : run.WellFormed) : run'.WellFormed := by
  obtain ⟨hcompleted, hfinal, herror⟩ := hwf.unsettled h.live
  cases h with
  | start h =>
    obtain ⟨hstatus, rfl⟩ := start_ok h
    obtain ⟨howner, htoken, hlease, hactive⟩ := hwf.unclaimed (by simp [hstatus])
    constructor <;>
      simp [howner, htoken, hlease, hactive, hcompleted, hfinal, herror, RunStatus.terminal]
  | recover h =>
    obtain ⟨-, ms, rfl⟩ := recoverAfterCrash_ok h
    constructor <;> simp [releaseClaim, hcompleted, hfinal, herror, RunStatus.terminal]
  | wait h =>
    obtain ⟨-, ms, rfl⟩ := waitForUser_ok h
    constructor <;> simp [releaseClaim, hcompleted, hfinal, herror, RunStatus.terminal]
  | resume h =>
    obtain ⟨hstatus, -, rfl⟩ := resume_ok h
    obtain ⟨howner, htoken, hlease, hactive⟩ := hwf.unclaimed (by simp [hstatus])
    constructor <;>
      simp [howner, htoken, hlease, hactive, hcompleted, hfinal, herror, RunStatus.terminal]
  | complete h =>
    obtain ⟨-, ms, rfl⟩ := complete_ok h
    constructor <;> simp [releaseClaim, herror, RunStatus.terminal]
  | accept h hchanged =>
    obtain ⟨-, rfl | rfl⟩ := acceptTerminalOutput_ok h
    · exact hwf
    · exact ⟨hwf.token, hwf.lease, hwf.claimed, hwf.active, hwf.completed, hwf.final, hwf.error⟩
  | fail h =>
    obtain ⟨-, ms, rfl⟩ := fail_ok h
    constructor <;> simp [releaseClaim, hfinal, RunStatus.terminal]
  | cancel h =>
    obtain ⟨-, ms, rfl⟩ := cancel_ok h
    constructor <;> simp [releaseClaim, hfinal, herror, RunStatus.terminal]

end Moved

end AgentRun

theorem Advances.moved {op : Op} {run run' : AgentRun} (h : Advances op run run') :
    AgentRun.Moved run run' := by
  cases h with
  | start _ h => exact .start h
  | complete _ h => exact .complete h
  | fail _ _ _ _ h => exact .fail h
  | accept h hchanged => exact .accept h hchanged

/-! ## Rows -/

open RunRepository

variable {r r' run run' : AgentRun} {t t' : Table AgentRun} {v : Store} {view : ℕ → Store} {op : Op}

theorem Store.mem_facts_runs (h : run ∈ v.runs) : run.forgetEvents ∈ v.facts.runs :=
  List.mem_map_of_mem h

theorem Store.exists_of_mem_facts_runs (h : r ∈ v.facts.runs) :
    ∃ run ∈ v.runs, run.forgetEvents = r := List.mem_map.mp h

theorem renewLeaseWhere_iff {userId runId token : UUID} {owner : String} :
    renewLeaseWhere userId runId owner token r = true ↔
      r.id = runId ∧ r.userId = userId ∧ r.status = .running ∧ r.claimOwner = some owner ∧
        r.claimToken = some token := by
  simp [renewLeaseWhere]

theorem claimWhere_iff {userId runId : UUID} {now : Timestamp} :
    claimWhere userId runId now r = true ↔
      r.id = runId ∧ r.userId = userId ∧ (r.status = .queued ∨ abandoned now r = true) := by
  simp [claimWhere]

/-- A Run that can be claimed is queued or running. -/
theorem status_of_claimWhere {userId runId : UUID} {now : Timestamp}
    (h : claimWhere userId runId now r = true) : r.status = .queued ∨ r.status = .running := by
  obtain ⟨-, -, hstatus⟩ := claimWhere_iff.mp h
  exact hstatus.imp_right fun h => by
    simp only [abandoned, decide_eq_true_eq] at h
    exact h.1

theorem updateWhere_iff {version : ℕ} :
    updateWhere run version r = true ↔ r.id = run.id ∧ r.version = version := by
  simp [updateWhere]

/-- The rows after the update of a Run by its version. -/
theorem mem_updated {version : ℕ} (h : r' ∈ (update run version t).1) :
    (∃ r ∈ t, updateWhere run version r = true ∧ r' = updateValues run r) ∨
      (r' ∈ t ∧ updateWhere run version r' = false) := by
  have hkeep : Table.Keeps (updateWhere run version) (updateValues run) := fun _ _ _ h => h
  exact Table.mem_update_cases hkeep h

namespace RunStep

theorem id_eq (h : RunStep r r') : r'.id = r.id := by
  cases h <;> rfl

/-- Every step keeps a row well formed. -/
theorem wellFormed (h : RunStep r r') (hwf : r.WellFormed) : r'.WellFormed := by
  cases h with
  | same => exact hwf
  | renewed hp =>
    obtain ⟨-, -, -, howner, -⟩ := renewLeaseWhere_iff.mp hp
    exact ⟨hwf.token, by simp [renewLeaseValues, howner], hwf.claimed, hwf.active, hwf.completed,
      hwf.final, hwf.error⟩
  | claimed hp =>
    have hlive : r.status.terminal = false := by
      rcases status_of_claimWhere hp with hstatus | hstatus <;> simp [hstatus, RunStatus.terminal]
    obtain ⟨hcompleted, hfinal, herror⟩ := hwf.unsettled hlive
    constructor <;> simp [claimValues, hcompleted, hfinal, herror, RunStatus.terminal]
  | moved hcore h =>
    have hrun := h.wellFormed (hwf.of_core hcore.symm)
    exact ⟨hrun.token, hrun.lease, hrun.claimed, hrun.active, hrun.completed, hrun.final,
      hrun.error⟩

/-- Every step but the renewal of a lease counts the version up. -/
theorem later (h : RunStep r r') (hwf : r.WellFormed) : RunLater r r' := by
  cases h with
  | same => exact ⟨rfl, le_rfl, fun _ => rfl, fun _ => rfl⟩
  | renewed hp =>
    obtain ⟨-, -, -, howner, -⟩ := renewLeaseWhere_iff.mp hp
    have hlease : r.leaseExpiresAt.isSome := by rw [hwf.lease, howner]; rfl
    obtain ⟨t, ht⟩ := Option.isSome_iff_exists.mp hlease
    exact ⟨rfl, le_rfl, fun _ => rfl, fun _ => by simp [renewLeaseValues, AgentRun.core, ht]⟩
  | claimed hp =>
    refine ⟨rfl, Nat.le_succ _, fun hterminal => ?_, fun hsame => absurd hsame (Nat.succ_ne_self _)⟩
    rcases status_of_claimWhere hp with hstatus | hstatus <;>
      simp [hstatus, RunStatus.terminal] at hterminal
  | @moved _ run run' hcore h =>
    have hstatus : r.status = run.status := (congrArg AgentRun.status hcore :)
    have hversion : r.version = run.version := (congrArg AgentRun.version hcore :)
    obtain ⟨-, -, hcount⟩ := h.counts
    have hnew : (updateValues run' r).version = r.version + 1 := by rw [hversion]; exact hcount
    refine ⟨rfl, by omega, fun hterminal => ?_, fun hsame => by omega⟩
    rw [hstatus, h.live] at hterminal
    cases hterminal

end RunStep

theorem RunLater.refl (r : AgentRun) : RunLater r r := ⟨rfl, le_rfl, fun _ => rfl, fun _ => rfl⟩

theorem RunLater.trans {r₁ r₂ r₃ : AgentRun} (h : RunLater r₁ r₂) (h' : RunLater r₂ r₃) :
    RunLater r₁ r₃ where
  userId := h'.userId.trans h.userId
  version := h.version.trans h'.version
  terminal hterminal := by
    have hstatus := h.terminal hterminal
    rw [← hstatus]
    exact h'.terminal (hstatus ▸ hterminal)
  same hsame := by
    have hle := h.version
    have hle' := h'.version
    rw [h'.same (by omega), h.same (by omega)]

/-- A status that changed came with a new version. -/
theorem RunLater.version_lt (h : RunLater r r') (hstatus : r'.status ≠ r.status) :
    r.version < r'.version := by
  refine lt_of_le_of_ne h.version fun hsame => hstatus ?_
  exact (congrArg AgentRun.status (h.same hsame.symm) :)

theorem RunsLater.refl (t : Table AgentRun) : RunsLater t t := Table.Evolves.refl RunLater.refl t

theorem RunsLater.trans {t₁ t₂ t₃ : Table AgentRun} (h : RunsLater t₁ t₂) (h' : RunsLater t₂ t₃) :
    RunsLater t₁ t₃ :=
  Table.Evolves.trans (fun _ _ _ h₁ h₂ => h₁.trans h₂) h h'

/-- The later version of a row. -/
theorem RunsLater.row (h : RunsLater t t') (hr : r ∈ t) (hr' : r' ∈ t') (hid : r'.id = r.id) :
    RunLater r r' := by
  obtain ⟨r'', hr'', hid'', hlater⟩ := h r hr
  rwa [run_ext hr' hr'' (hid.trans hid''.symm)]

/-- A row of the version that was read is the Run that was read. -/
theorem RunsLater.core_eq (h : RunsLater v.facts.runs t) (hread : run ∈ v.runs) (hr : r ∈ t)
    (hp : updateWhere run run.version r = true) : r.core = run.core := by
  obtain ⟨hid, hversion⟩ := updateWhere_iff.mp hp
  exact (h.row (Store.mem_facts_runs hread) hr hid).same hversion

/-- The row that the update to a changed Run matches is the Run that was read. -/
theorem RunsLater.core_of_update (h : RunsLater v.facts.runs t) (hread : run ∈ v.runs)
    (hid : run'.id = run.id) (hr : r ∈ t) (hp : updateWhere run' run.version r = true) :
    r.core = run.core := by
  obtain ⟨hrid, hversion⟩ := updateWhere_iff.mp hp
  exact h.core_eq hread hr (updateWhere_iff.mpr ⟨hrid.trans hid, hversion⟩)

/-- The row that a successful update of a Run by its version finds. -/
theorem exists_row_of_update (hview : RunsLater v.facts.runs t) (hread : run ∈ v.runs)
    (hid : run'.id = run.id) (hversion : (update run' run.version t).2 = true) :
    ∃ r ∈ t, r.core = run.core ∧ updateWhere run' run.version r = true := by
  obtain ⟨r, hr, hp⟩ := Table.exists_of_rowcount_eq_one (p := updateWhere run' run.version) (t := t)
    (by simpa [update] using hversion)
  obtain ⟨hrid, hrversion⟩ := updateWhere_iff.mp hp
  refine ⟨r, hr, hview.core_eq hread hr ?_, hp⟩
  exact updateWhere_iff.mpr ⟨hrid.trans hid, hrversion⟩

/-! ## Tables of Runs -/

def RunsWellFormed (t : Table AgentRun) : Prop := ∀ r ∈ t, r.WellFormed

/-- The update of a Run that was read and changed by a method. -/
theorem moves_update (hview : RunsLater v.facts.runs t) (hread : run ∈ v.runs)
    (h : AgentRun.Moved run run') : t.Moves RunStep (update run' run.version t).1 := by
  refine .update (fun _ => .same) fun r hr hp => ?_
  obtain ⟨hid, -, -⟩ := h.counts
  refine .moved (hview.core_eq hread hr ?_) h
  obtain ⟨hrun, hversion⟩ := updateWhere_iff.mp hp
  exact updateWhere_iff.mpr ⟨hrun.trans hid, hversion⟩

/-- The table stays well formed and its rows move on. -/
def RunsKept (t t' : Table AgentRun) : Prop := RunsWellFormed t' ∧ RunsLater t t'

theorem runsKept_of_moves (hwf : RunsWellFormed t) (h : t.Moves RunStep t') : RunsKept t t' := by
  constructor
  · intro r' hr'
    obtain ⟨r, hr, hstep⟩ := h.mem hr'
    exact hstep.wellFormed (hwf r hr)
  · intro r hr
    obtain ⟨r', hr', hstep⟩ := h.exists_mem hr
    exact ⟨r', hr', hstep.id_eq, hstep.later (hwf r hr)⟩

theorem RunsKept.trans {t₁ t₂ t₃ : Table AgentRun} (h : RunsKept t₁ t₂) (h' : RunsKept t₂ t₃) :
    RunsKept t₁ t₃ := ⟨h'.1, h.2.trans h'.2⟩

/-- Recovering moves every row on, one Run after the other. -/
theorem runsKept_of_recovers (hwf : RunsWellFormed t) (hview : RunsLater (view 0).facts.runs t)
    (h : Relation.ReflTransGen (Recovers view) t t') : RunsKept t t' := by
  induction h with
  | refl => exact ⟨hwf, .refl t⟩
  | tail _ hlast ih =>
    cases hlast with
    | run hread h hversion =>
      exact ih.trans (runsKept_of_moves ih.1 (moves_update (hview.trans ih.2) hread (.recover h)))

/-- Every effect keeps the Runs well formed and moves them on. -/
theorem Effect.runsKept {x x' : Facts} (hwf : RunsWellFormed x.runs)
    (hview : ∀ n, RunsLater (view n).facts.runs x.runs) (h : Effect view op x x') :
    RunsKept x.runs x'.runs := by
  have hsame : RunsKept x.runs x.runs := ⟨hwf, .refl _⟩
  have hmoved : ∀ {n run run'}, run ∈ (view n).runs → AgentRun.Moved run run' →
      RunsKept x.runs (update run' run.version x.runs).1 := fun hread hmoved =>
    runsKept_of_moves hwf (moves_update (hview _) hread hmoved)
  cases h with
  | createRun hnew hrun _ =>
    refine ⟨fun r hr => ?_, .insert? RunLater.refl hrun⟩
    rcases (Table.mem_insert? hrun).mp hr with hr | rfl
    · exact hwf r hr
    · exact hnew.wellFormed
  | claimRun => exact runsKept_of_moves hwf (.update (fun _ => .same) fun _ _ hp => .claimed hp)
  | renewRunLease => exact runsKept_of_moves hwf (.update (fun _ => .same) fun _ _ hp => .renewed hp)
  | recover h => exact runsKept_of_recovers hwf (hview 0) h
  | advance hread h _ => exact hmoved hread h.moved
  | wait hread _ _ _ h _ _ => exact hmoved hread (.wait h)
  | resume hread _ _ _ _ _ h _ _ => exact hmoved hread (.resume h)
  | cancel _ _ hread _ _ _ h _ => exact hmoved hread (.cancel h)
  | _ => exact hsame

/-! ## Steps that name their transaction -/

theorem rowSteps_of_recovers (hwf : RunsWellFormed t) (hview : RunsLater (view 0).facts.runs t)
    (h : Relation.ReflTransGen (Recovers view) t t') :
    t.Moves (Relation.ReflTransGen (RowStep op)) t' := by
  induction h with
  | refl => exact .refl (fun _ => .refl) t
  | tail hfirst hlast ih =>
    cases hlast with
    | run hread h hversion =>
      have hlater := hview.trans (runsKept_of_recovers hwf hview hfirst).2
      refine ih.trans (.update (fun _ => .refl) fun r hr hp => .single ?_) fun _ _ _ => .trans
      exact .recovered (hlater.core_of_update hread (AgentRun.Moved.recover h).counts.1 hr hp) h

/-- An effect inserts one new Run, or moves the rows that are there by steps of its transaction. -/
theorem Effect.rowSteps {x x' : Facts} (hwf : RunsWellFormed x.runs)
    (hview : ∀ n, RunsLater (view n).facts.runs x.runs) (h : Effect view op x x') :
    (∃ run : AgentRun, run.IsNew ∧ x.runs.insert? run = some x'.runs ∧
        op.createsKey = some (run.userId, run.idempotencyKey)) ∨
      x.runs.Moves (Relation.ReflTransGen (RowStep op)) x'.runs := by
  have hmoved : ∀ {n run run'}, run ∈ (view n).runs → run'.id = run.id →
      (∀ r : AgentRun, r.core = run.core → RowStep op r (updateValues run' r)) →
      x.runs.Moves (Relation.ReflTransGen (RowStep op)) (update run' run.version x.runs).1 :=
    fun hread hid hstep => .update (fun _ => .refl) fun r hr hp =>
      .single (hstep r ((hview _).core_of_update hread hid hr hp))
  cases h with
  | createRun hnew hrun _ hop => exact .inl ⟨_, hnew, hrun, hop⟩
  | claimRun => exact .inr (.update (fun _ => .refl) fun r _ hp => .single (.claimed hp))
  | renewRunLease => exact .inr (.update (fun _ => .refl) fun r _ hp => .single (.renewed hp))
  | recover h => exact .inr (rowSteps_of_recovers hwf (hview 0) h)
  | advance hread h _ =>
    exact .inr (hmoved hread h.moved.counts.1 fun r hcore => .advanced hcore h)
  | wait hread _ _ _ h _ _ =>
    exact .inr (hmoved hread (AgentRun.Moved.wait h).counts.1 fun r hcore => .waited hcore h)
  | resume hread _ _ _ _ _ h _ _ =>
    exact .inr (hmoved hread (AgentRun.Moved.resume h).counts.1 fun r hcore => .resumed hcore h)
  | cancel _ _ hread _ _ _ h _ =>
    exact .inr (hmoved hread (AgentRun.Moved.cancel h).counts.1 fun r hcore => .cancelled hcore h)
  | _ => exact .inr (.refl (fun _ => .refl) _)

/-- What the Runs guarantee to every transaction, whatever it read. -/
theorem runs_stable : Program.Stable system (fun _ _ _ => True)
    (fun s => RunsWellFormed s.facts.runs)
    (fun v s => RunsLater v.facts.runs s.facts.runs) where
  init s hs := by
    obtain rfl : s = {} := hs
    exact fun r hr => absurd hr Table.not_mem_empty
  refl s := .refl _
  trans _ _ _ := .trans
  step op view s hinv hviews _ :=
    (commit_effect op view s).runsKept hinv fun n => (hviews n).2

/-- In every history: the fields of every Run agree with its status; and from any state to any later
one, a Run that is over keeps its status, and a Run whose status changed has a greater version. -/
theorem run_lifecycle {h : History Store Op Reply} (hr : system.Reachable h) :
    (∀ run ∈ h.cur.runs, run.WellFormed) ∧
      h.states.Pairwise fun later earlier =>
        earlier.runs.Evolves AgentRun.id
          (fun run run' => (run.status.terminal = true → run'.status = run.status) ∧
            (run'.status ≠ run.status → run.version < run'.version))
          later.runs := by
  constructor
  · intro run hrun
    have hwf := runs_stable.inv_cur hr _ (Store.mem_facts_runs hrun)
    exact hwf.of_core rfl
  · refine (runs_stable.pairwise hr).imp fun {later earlier} hlater run hrun => ?_
    obtain ⟨r, hr, hid, hrow⟩ := hlater _ (Store.mem_facts_runs hrun)
    obtain ⟨run', hrun', rfl⟩ := Store.exists_of_mem_facts_runs hr
    exact ⟨run', hrun', hid, hrow.terminal, hrow.version_lt⟩

/-- Run 10, which its worker lets wait for an answer to the question 7. -/
def waitingRun : List Op :=
  claimedRun ++
    [.workerTransition
      { userId := 1, runId := 10, action := .wait [("action_id", .str "a")] (some 7),
        claimOwner := some "w", claimToken := some 20 } (stampsFrom 30 2)]

theorem run_lifecycle_waitingRun :
    (∀ run ∈ (system.serial {} waitingRun).cur.runs, run.WellFormed) ∧
      (system.serial {} waitingRun).cur.runs.rows.map AgentRun.status = [.waitingForUser] :=
  ⟨(run_lifecycle (system.serial_reachable rfl _)).1, by decide⟩

end Runtime
