import Laoshiren.Runtime.Lifecycle
import Laoshiren.Runtime.Proofs.LifecycleProofs

/-!
# A superseded claim token writes nothing

The fence has two halves. What a worker read may be old, so the check of the claim alone decides
nothing; but the write goes to the row of the version that was read, which is then the Run that was
read (`RunsLater.core_of_update`), with the claim that was checked.
-/

namespace Runtime

open Raise RunRepository

variable {runs runs' : Table AgentRun} {x x' : Facts} {r r' run run' : AgentRun} {v s s' : Store}
  {view : ℕ → Store} {fresh : ℕ → Stamp} {op : Op} {runId token : UUID}

/-! ## A token does not come back -/

/-- A Run that runs under a token after a transition of its worker ran under it before. -/
theorem Advances.held (hwf : run.WellFormed) (h : Advances op run run')
    (hstatus : run'.status = .running) (htoken : run'.claimToken = some token) :
    run.status = .running ∧ run.claimToken = some token := by
  cases h with
  | start _ h =>
    -- a Run that starts is queued, so nobody holds it
    obtain ⟨hqueued, rfl⟩ := AgentRun.start_ok h
    obtain ⟨-, hnone, -, -⟩ := hwf.unclaimed (by simp [hqueued])
    rw [show run.claimToken = some token from htoken] at hnone
    cases hnone
  | complete _ h =>
    obtain ⟨-, ms, rfl⟩ := AgentRun.complete_ok h
    cases hstatus
  | fail _ _ _ _ h =>
    obtain ⟨-, ms, rfl⟩ := AgentRun.fail_ok h
    cases hstatus
  | accept h _ =>
    obtain ⟨hrunning, rfl | rfl⟩ := AgentRun.acceptTerminalOutput_ok h
    · exact ⟨hrunning, htoken⟩
    · exact ⟨hrunning, htoken⟩

namespace Superseded

theorem insert (hnew : run.IsNew) (hins : runs.insert? run = some runs')
    (h : Superseded runId token runs) : Superseded runId token runs' := by
  intro r hr hid
  rcases (Table.mem_insert? hins).mp hr with hr | rfl
  · exact h r hr hid
  · refine .inl fun hrunning => ?_
    rw [hnew] at hrunning
    cases hrunning

/-- The update of a Run that does not run afterwards. -/
theorem idle {version : ℕ} (hstatus : run'.status ≠ .running) (h : Superseded runId token runs) :
    Superseded runId token (update run' version runs).1 := by
  intro r' hr' hid
  rcases mem_updated hr' with ⟨r, hr, hp, rfl⟩ | ⟨hr, -⟩
  · exact .inl hstatus
  · exact h r' hr hid

theorem advance (hwf : RunsWellFormed runs) (hview : RunsLater v.facts.runs runs)
    (hread : run ∈ v.runs) (h : Advances op run run') (hsup : Superseded runId token runs) :
    Superseded runId token (update run' run.version runs).1 := by
  intro r' hr' hid
  rcases mem_updated hr' with ⟨r, hr, hp, rfl⟩ | ⟨hr, -⟩
  · have hcore := hview.core_of_update hread h.moved.counts.1 hr hp
    have hstatus : r.status = run.status := (congrArg AgentRun.status hcore :)
    have htoken : r.claimToken = run.claimToken := (congrArg AgentRun.claimToken hcore :)
    by_contra hheld
    obtain ⟨hrunning, hhas⟩ := not_or.mp hheld
    obtain ⟨hrunning', hhas'⟩ := h.held ((hwf r hr).of_core hcore.symm) (not_not.mp hrunning)
      (not_not.mp hhas)
    rcases hsup r hr hid with hover | hover
    · exact hover (hstatus.trans hrunning')
    · exact hover (htoken.trans hhas')
  · exact hsup r' hr hid

theorem recovers (h : Relation.ReflTransGen (Recovers view) runs runs')
    (hsup : Superseded runId token runs) : Superseded runId token runs' := by
  induction h with
  | refl => exact hsup
  | tail _ hlast ih =>
    cases hlast with
    | run hread h hversion =>
      obtain ⟨-, ms, rfl⟩ := AgentRun.recoverAfterCrash_ok h
      exact ih.idle (by simp)

/-- A superseded token stays superseded, unless a claim of the Run draws it again. -/
theorem effect (hwf : RunsWellFormed x.runs) (hview : ∀ n, RunsLater (view n).facts.runs x.runs)
    (h : Effect view op x x') (hop : op.draws runId token = false) (hsup : Superseded runId token x.runs) :
    Superseded runId token x'.runs := by
  cases h with
  | createRun hnew hrun _ _ => exact hsup.insert hnew hrun
  | @claimRun userId claimedId owner lease fresh =>
    intro r' hr' hid
    have hkeep : Table.Keeps (claimWhere userId claimedId (fresh 0).now)
        (claimValues owner (fresh 0).id (fresh 0).now ((fresh 0).now + lease)) := fun _ _ _ h => h
    rcases Table.mem_update_cases hkeep hr' with ⟨r, hr, hp, rfl⟩ | ⟨hr, -⟩
    · obtain ⟨hclaimed, -, -⟩ := claimWhere_iff.mp hp
      refine .inr fun htoken => ?_
      simp only [Op.draws, decide_eq_false_iff_not] at hop
      exact hop ⟨hclaimed.symm.trans hid, Option.some.inj htoken⟩
    · exact hsup r' hr hid
  | @renewRunLease userId renewedId owner presented lease now =>
    intro r' hr' hid
    have hkeep : Table.Keeps (renewLeaseWhere userId renewedId owner presented)
        (renewLeaseValues now (now + lease)) := fun _ _ _ h => h
    rcases Table.mem_update_cases hkeep hr' with ⟨r, hr, hp, rfl⟩ | ⟨hr, -⟩
    · exact hsup r hr hid
    · exact hsup r' hr hid
  | recover h => exact hsup.recovers h
  | advance hread h _ => exact hsup.advance hwf (hview 0) hread h
  | wait _ _ _ _ h _ _ =>
    obtain ⟨-, ms, rfl⟩ := AgentRun.waitForUser_ok h
    exact hsup.idle (by simp)
  | resume _ _ _ _ _ _ h _ _ =>
    obtain ⟨-, -, rfl⟩ := AgentRun.resume_ok h
    exact hsup.idle (by simp)
  | cancel _ _ _ _ _ _ h _ =>
    obtain ⟨-, ms, rfl⟩ := AgentRun.cancel_ok h
    exact hsup.idle (by simp)
  | _ => exact hsup

end Superseded

/-! ## What a write of the Run finds -/

/-- A branch of `_worker_transition` writes the Run by the version that was read. -/
theorem commitTransition_ok {userId : UUID} {action : WorkerAction}
    (h : commitTransition userId run action fresh s = .ok (s', run')) :
    AgentRun.Moved run run' ∧ (update run' run.version s.facts.runs).2 = true := by
  cases action with
  | wait payload interactionId =>
    obtain ⟨_, hmethod, -, hversion, -⟩ := commitTransition_wait_ok h
    exact ⟨.wait hmethod, hversion⟩
  | start phase label =>
    simp only [commitTransition, bind_eq_ok, pure_eq_ok, Prod.exists, Prod.mk.injEq,
      valueErrorAsTransition_eq_ok] at h
    obtain ⟨run₁, hmethod, s₁, hupdate, s₂, e, -, -, rfl⟩ := h
    exact ⟨.start hmethod, (Store.facts_updateRun hupdate).1⟩
  | complete content =>
    simp only [commitTransition, bind_eq_ok, ensure_eq_ok, pure_eq_ok, Prod.exists, Prod.mk.injEq,
      valueErrorAsTransition_eq_ok] at h
    obtain ⟨_, _, s₁, hmessage, run₁, hmethod, s₂, hupdate, s₃, e, -, s₄, e', -, -, rfl⟩ := h
    have hversion := (Store.facts_updateRun hupdate).1
    rw [Store.facts_addMessage hmessage] at hversion
    exact ⟨.complete hmethod, hversion⟩
  | fail errorCode =>
    simp only [commitTransition, bind_eq_ok, pure_eq_ok, Prod.exists, Prod.mk.injEq,
      valueErrorAsTransition_eq_ok] at h
    obtain ⟨run₁, hmethod, s₁, hupdate, s₂, e, -, -, rfl⟩ := h
    exact ⟨.fail hmethod, (Store.facts_updateRun hupdate).1⟩

/-- A successful write of a Run that its worker holds by this token is no write of a Run whose token
is superseded. -/
theorem Superseded.not_written (hwf : RunsWellFormed runs) (hview : RunsLater v.facts.runs runs)
    (hread : run ∈ v.runs) (hmoved : AgentRun.Moved run run')
    (hversion : (update run' run.version runs).2 = true) (htoken : run.claimToken = some token)
    (hsup : Superseded run.id token runs) : False := by
  obtain ⟨r, hr, hcore, hp⟩ := exists_row_of_update hview hread hmoved.counts.1 hversion
  have hrid : r.id = run.id := (congrArg AgentRun.id hcore :)
  have hrtoken : r.claimToken = some token :=
    (congrArg AgentRun.claimToken hcore :).trans htoken
  rcases hsup r hr hrid with hover | hover
  · have hnone := ((hwf r hr).unclaimed hover).2.1
    rw [hrtoken] at hnone
    cases hnone
  · exact hover hrtoken

/-- A transaction that presents a superseded token changes nothing at all. -/
theorem Superseded.commit_eq (hwf : RunsWellFormed s.facts.runs)
    (hview : RunsLater (view 0).facts.runs s.facts.runs) (hop : op.presents = some (runId, token))
    (hsup : Superseded runId token s.facts.runs) : (commit op view s).1 = s := by
  cases op with
  | workerTransition c fresh =>
    show (settled s Reply.run (workerTransition c fresh view s)).1 = s
    cases h : workerTransition c fresh view s with
    | error => rfl
    | ok answer =>
      exfalso
      simp only [workerTransition, bind_eq_ok, ensure_eq_ok] at h
      obtain ⟨run, hrun, _, howns, h⟩ := h
      obtain ⟨hread, hid, -⟩ := getRun_ok hrun
      obtain ⟨hmoved, hversion⟩ := commitTransition_ok h
      have hpresents : c.claimOwner ≠ none ∧ c.runId = runId ∧ c.claimToken = some token := by
        simp only [Op.presents] at hop
        split at hop
        · cases hop
        case isFalse howner =>
          obtain ⟨t, ht, heq⟩ := Option.map_eq_some_iff.mp hop
          obtain ⟨rfl, rfl⟩ := Prod.mk.inj heq
          exact ⟨howner, rfl, ht⟩
      obtain ⟨howner, rfl, hpresented⟩ := hpresents
      have htoken : run.claimToken = some token := by
        simp only [ownsRun, decide_eq_true_eq] at howns
        exact ((howns.resolve_left howner).2.2).trans hpresented
      exact (hid ▸ hsup).not_written hwf hview hread hmoved hversion htoken
  | acceptTerminalOutput userId id output owner presented now =>
    obtain ⟨rfl, rfl⟩ := Prod.mk.inj (Option.some.inj hop)
    show (settled s Reply.run (acceptTerminalOutput userId id output owner presented now view s)).1 = s
    cases h : acceptTerminalOutput userId id output owner presented now view s with
    | error => rfl
    | ok answer =>
      simp only [acceptTerminalOutput, bind_eq_ok, ensure_eq_ok, valueErrorAsTransition_eq_ok] at h
      obtain ⟨run, hrun, _, ⟨-, htoken⟩, run₁, hmethod, h⟩ := h
      obtain ⟨hread, rfl, -⟩ := getRun_ok hrun
      split at h
      case isTrue hchanged =>
        exfalso
        simp only [bind_eq_ok, pure_eq_ok] at h
        obtain ⟨s₁, hupdate, -⟩ := h
        exact hsup.not_written hwf hview hread (.accept hmethod hchanged)
          (Store.facts_updateRun hupdate).1 htoken
      case isFalse =>
        -- the output that is there already is not written again
        rw [← pure_eq_ok.mp h]
        rfl
  | renewRunLease userId id owner presented lease now =>
    obtain ⟨rfl, rfl⟩ := Prod.mk.inj (Option.some.inj hop)
    have hmissed : (renewLease userId id owner presented now (now + lease) s.runs).2 = false := by
      have hcount : s.runs.rowcount (renewLeaseWhere userId id owner presented) = 0 := by
        refine Table.rowcount_eq_zero.mpr fun r hr => ?_
        by_contra hp
        obtain ⟨hrid, -, hrunning, -, htoken⟩ := renewLeaseWhere_iff.mp (by simpa using hp)
        rcases hsup _ (Store.mem_facts_runs hr) hrid with hover | hover
        · exact hover hrunning
        · exact hover htoken
      simp [renewLease, hcount]
    simp only [commit, renewRunLease, hmissed]
    rfl
  | _ => cases hop

/-! ## Every history -/

/-- In every history: once a Run ran no longer under a token (it was claimed again with another one,
or it left RUNNING), and as long as no later claim draws the very same token, a transaction that
presents the token leaves the whole store as it is, whatever it read and whenever it read it. -/
theorem superseded_token_writes_nothing {h : History Store Op Reply} (hr : system.Reachable h)
    {i : Fin h.states.length} (hrun : r ∈ (h.stateAt i).runs)
    (hover : r.status ≠ .running ∨ r.claimToken ≠ some token)
    (hfresh : ∀ entry ∈ h.replies.take (h.states.length - 1 - i), entry.1.draws r.id token = false)
    (hview : ∀ n, view n ∈ h.states) (hop : op.presents = some (r.id, token)) :
    (system.extend h op view).cur = h.cur := by
  have hthen : Superseded r.id token (h.stateAt i).facts.runs := by
    intro r' hr' hid
    rw [run_ext hr' (Store.mem_facts_runs hrun) hid]
    exact hover
  have hnow : Superseded r.id token h.cur.facts.runs :=
    runs_stable.persists (fun s => Superseded r.id token s.facts.runs)
      (fun op => op.draws r.id token = false) (fun op view s hwf hviews _ hkeeps hsup =>
        hsup.effect hwf (fun n => (hviews n).2) (commit_effect op view s) hkeeps) hr hfresh hthen
  exact hnow.commit_eq (runs_stable.inv_cur hr) (runs_stable.rel_mem hr (hview 0)) hop

/-- The lease of worker `w` is over, the Run goes back to the queue and worker `v` claims it. -/
def takenOverRun : List Op :=
  claimedRun ++
    [.recoverPendingRuns 10 100 (fun _ => ⟨50, 100⟩), .claimRun 1 10 "v" 60 (stampsFrom 60 101)]

/-- Worker `w` read the Run while it was its own, and completes it after the takeover. -/
theorem superseded_token_writes_nothing_takenOverRun :
    (system.serial {} takenOverRun).cur.runs.rows.map AgentRun.claimToken = [some 60] ∧
      (system.extend (system.serial {} takenOverRun)
        (.workerTransition
          { userId := 1, runId := 10, action := .complete "done", claimOwner := some "w",
            claimToken := some 20 } (stampsFrom 70 102))
        fun _ => (system.serial {} claimedRun).cur).cur = (system.serial {} takenOverRun).cur := by
  refine ⟨by decide, ?_⟩
  -- the Run as it waits in the queue, before worker `v` claims it
  have hrow : ∃ r ∈ ((system.serial {} takenOverRun).stateAt ⟨3, by decide⟩).runs.rows,
      r.id = 10 ∧ r.status ≠ .running := by decide
  obtain ⟨r, hr, hid, hstatus⟩ := hrow
  refine superseded_token_writes_nothing (system.serial_reachable rfl _) hr (.inl hstatus) ?_
    (fun n => .tail _ (.tail _ (.head _))) (by rw [hid]; rfl)
  rw [hid]
  decide

end Runtime
