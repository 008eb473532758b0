import Laoshiren.Runtime.Lifecycle
import Laoshiren.Runtime.Proofs.LifecycleProofs

/-!
# Proofs: a renewal is undone by an output that was accepted on an old read

Every lease of a claimed Run comes from the claim or from a renewal. Where no output is accepted on an
old read of the lease, it comes from the last one.
-/

namespace Runtime

open Raise RunRepository

variable {x x' : Facts} {r r' run run' : AgentRun} {s s' : Store} {view : ℕ → Store} {op : Op}
  {userId runId token : UUID} {owner : String} {now : Timestamp} {output : Dict}

/-! ## Accepting an output -/

/-- An accepted output is there already, or is written with the Run that was read. -/
theorem acceptTerminalOutput_cases
    (h : acceptTerminalOutput userId runId output owner token now view s = .ok (s', run')) :
    (s' = s ∧ ∃ run, getRun (view 0) userId runId = .ok run ∧ run.terminalOutput ≠ none) ∨
      ∃ run, getRun (view 0) userId runId = .ok run ∧ run.claimOwner = some owner ∧
        run.claimToken = some token ∧ run.status = .running ∧ run.terminalOutput = none ∧
        run'.id = run.id ∧ run'.claimToken = run.claimToken ∧ run'.leaseTimes = run.leaseTimes ∧
        s.updateRun run' run.version = .ok s' := by
  simp only [acceptTerminalOutput, bind_eq_ok, ensure_eq_ok, valueErrorAsTransition_eq_ok] at h
  obtain ⟨run, hrun, _, ⟨howner, htoken⟩, run₁, hmethod, h⟩ := h
  unfold AgentRun.acceptTerminalOutput at hmethod
  split at hmethod
  · cases hmethod
  rename_i hstatus
  split at hmethod
  · rename_i known hknown
    split at hmethod
    · cases hmethod
    obtain rfl := Except.ok.inj hmethod
    rw [if_neg (by simp)] at h
    obtain ⟨rfl, rfl⟩ := Prod.mk.inj (pure_eq_ok.mp h)
    exact Or.inl ⟨rfl, run, hrun, by simp [hknown]⟩
  · rename_i hnone
    obtain rfl := Except.ok.inj hmethod
    rw [if_pos (by simp)] at h
    simp only [bind_eq_ok, pure_eq_ok, Prod.mk.injEq] at h
    obtain ⟨s₁, hupdate, rfl, rfl⟩ := h
    exact Or.inr ⟨run, hrun, howner, htoken, not_not.mp hstatus, hnone, rfl, rfl, rfl, hupdate⟩

/-! ## The other transactions -/

/-- The transactions that write the lease of a Run that they leave claimed. -/
def Op.touchesLease : Op → Bool
  | .renewRunLease _ _ _ _ _ _ | .claimRun _ _ _ _ _ | .acceptTerminalOutput _ _ _ _ _ _ => true
  | _ => false

/-- A row with a claim is none that a Run without one was written to. -/
theorem claimed_of_update {t : Table AgentRun} {version : ℕ} (hnone : run'.claimToken = none)
    (hr' : r' ∈ (update run' version t).1) (htoken : r'.claimToken = some token) : r' ∈ t := by
  rcases mem_updated hr' with ⟨r, _, _, rfl⟩ | ⟨hr, _⟩
  · rw [show (updateValues run' r).claimToken = none from hnone] at htoken
    cases htoken
  · exact hr

theorem claimed_of_recovers {t t' : Table AgentRun}
    (h : Relation.ReflTransGen (Recovers view) t t') (hr' : r' ∈ t')
    (htoken : r'.claimToken = some token) : r' ∈ t := by
  induction h with
  | refl => exact hr'
  | tail _ hlast ih =>
    cases hlast with
    | run _ h _ =>
      obtain ⟨_, ms, rfl⟩ := AgentRun.recoverAfterCrash_ok h
      exact ih (claimed_of_update rfl hr' htoken)

/-- A Run that was read, and whose update finds its row, is well formed. -/
theorem wellFormed_of_update {v : Store} {t : Table AgentRun} (hwf : RunsWellFormed t)
    (hview : RunsLater v.facts.runs t) (hread : run ∈ v.runs) (hid : run'.id = run.id)
    (hversion : (update run' run.version t).2 = true) : run.WellFormed := by
  obtain ⟨r, hr, hcore, _⟩ := exists_row_of_update hview hread hid hversion
  exact (hwf r hr).of_core hcore.symm

/-- Every other transaction leaves the Runs with a claim as they are. -/
theorem Effect.claimed (hwf : RunsWellFormed x.runs)
    (hview : ∀ n, RunsLater (view n).facts.runs x.runs) (h : Effect view op x x')
    (hop : op.touchesLease = false) (hr' : r' ∈ x'.runs) (htoken : r'.claimToken = some token) :
    r' ∈ x.runs := by
  cases h with
  | createRun hnew hrun _ _ =>
    rcases (Table.mem_insert? hrun).mp hr' with hr | rfl
    · exact hr
    · rw [hnew] at htoken
      cases htoken
  | claimRun | renewRunLease => cases hop
  | recover h => exact claimed_of_recovers h hr' htoken
  | advance hread h hversion =>
    refine claimed_of_update ?_ hr' htoken
    have hrun := wellFormed_of_update hwf (hview 0) hread h.moved.counts.1 hversion
    cases h with
    | start _ h =>
      obtain ⟨hqueued, rfl⟩ := AgentRun.start_ok h
      exact (hrun.unclaimed (by simp [hqueued])).2.1
    | complete _ h =>
      obtain ⟨_, ms, rfl⟩ := AgentRun.complete_ok h
      rfl
    | fail _ _ _ _ h =>
      obtain ⟨_, ms, rfl⟩ := AgentRun.fail_ok h
      rfl
    | accept _ _ => cases hop
  | wait _ _ _ _ h _ _ =>
    obtain ⟨_, ms, rfl⟩ := AgentRun.waitForUser_ok h
    exact claimed_of_update rfl hr' htoken
  | resume hread _ _ _ _ _ h _ hversion =>
    have hid := (AgentRun.Moved.resume h).counts.1
    have hrun := wellFormed_of_update hwf (hview 1) hread hid hversion
    obtain ⟨hwaiting, _, rfl⟩ := AgentRun.resume_ok h
    refine claimed_of_update ?_ hr' htoken
    exact (hrun.unclaimed (by simp [hwaiting])).2.1
  | cancel _ _ _ _ _ _ h _ =>
    obtain ⟨_, ms, rfl⟩ := AgentRun.cancel_ok h
    exact claimed_of_update rfl hr' htoken
  | _ => exact hr'

/-! ## One step -/

/-- A Run among the facts, with the lease of the stored one. -/
theorem exists_of_facts (h : r ∈ s.facts.runs) :
    ∃ run ∈ s.runs, run.id = r.id ∧ run.claimToken = r.claimToken ∧ run.leaseTimes = r.leaseTimes := by
  obtain ⟨run, hrun, rfl⟩ := Store.exists_of_mem_facts_runs h
  exact ⟨run, hrun, rfl, rfl, rfl⟩

theorem renewRunLease_lease {lease : ℤ}
    (hr' : r' ∈ (renewRunLease userId runId owner token lease now s).1.runs) :
    r' ∈ s.runs ∨ writtenLease r'.id (.renewRunLease userId runId owner token lease now,
      .flag (renewRunLease userId runId owner token lease now s).2) = some r'.leaseTimes := by
  unfold renewRunLease at hr' ⊢
  dsimp only at hr' ⊢
  split at hr'
  · rename_i hflag
    rw [if_pos hflag]
    have hkeep : Table.Keeps (renewLeaseWhere userId runId owner token)
        (renewLeaseValues now (now + lease)) := fun _ _ _ h => h
    rcases Table.mem_update_cases hkeep hr' with ⟨r, _, hp, rfl⟩ | ⟨hr, _⟩
    · obtain ⟨hid, _⟩ := renewLeaseWhere_iff.mp hp
      refine Or.inr (if_pos ?_)
      exact hid.symm
    · exact Or.inl hr
  · exact Or.inl hr'

theorem claimRun_lease {lease : ℤ} {fresh : ℕ → Stamp} {claimed : Option AgentRun}
    (h : claimRun userId runId owner lease fresh s = .ok (s', claimed)) (hr' : r' ∈ s'.runs) :
    r'.forgetEvents ∈ s.facts.runs ∨
      writtenLease r'.id (.claimRun userId runId owner lease fresh, .claimed claimed) =
        some r'.leaseTimes := by
  rcases claimRun_ok h with ⟨_, rfl⟩ | ⟨⟨_, _, _, rfl⟩, hs'⟩
  · exact Or.inl (Store.mem_facts_runs hr')
  · have hfacts := Store.mem_facts_runs hr'
    rw [hs'] at hfacts
    have hkeep : Table.Keeps (claimWhere userId runId (fresh 0).now)
        (claimValues owner (fresh 0).id (fresh 0).now ((fresh 0).now + lease)) := fun _ _ _ h => h
    rcases Table.mem_update_cases hkeep hfacts with ⟨r, _, hp, heq⟩ | ⟨hr, _⟩
    · obtain ⟨hid, _⟩ := claimWhere_iff.mp hp
      have hrid : r'.id = r.id := (congrArg AgentRun.id heq :)
      have htimes : r'.leaseTimes = (some ((fresh 0).now + lease), some (fresh 0).now) :=
        (congrArg AgentRun.leaseTimes heq :)
      refine Or.inr ?_
      rw [htimes]
      exact if_pos (hid.symm.trans hrid.symm)
    · exact Or.inl hr

/-- The row that an accepted output is written to has the claim of the Run that was read, and its lease
where this was read as it is. -/
theorem acceptTerminalOutput_lease (hview : RunsLater (view 0).facts.runs s.facts.runs)
    (hreads : ReadsLease userId runId owner token (view 0) s)
    (h : acceptTerminalOutput userId runId output owner token now view s = .ok (s', run'))
    (hr' : r' ∈ s'.runs) :
    ∃ r ∈ s.runs, r.id = r'.id ∧ r.claimToken = r'.claimToken ∧ r.leaseTimes = r'.leaseTimes := by
  rcases acceptTerminalOutput_cases h with
    ⟨rfl, _⟩ | ⟨run, hrun, howner, htoken, hstatus, hnone, hid, hclaim, htimes, hupdate⟩
  · exact ⟨r', hr', rfl, rfl, rfl⟩
  · obtain ⟨hread, rfl, huser⟩ := getRun_ok hrun
    obtain ⟨_, rfl⟩ := Store.updateRun_ok hupdate
    rcases mem_updated hr' with ⟨r, hr, hp, rfl⟩ | ⟨hr, _⟩
    · obtain ⟨hrid, hversion⟩ := updateWhere_iff.mp hp
      have hcore := hview.core_of_update hread hid (Store.mem_facts_runs hr) hp
      have hsame : r.claimToken = run.claimToken := (congrArg AgentRun.claimToken hcore :)
      have hlease := hreads run hread rfl huser howner htoken hstatus hnone r hr (hrid.trans hid)
        hversion
      exact ⟨r, hr, rfl, hsame.trans hclaim.symm, hlease.symm.trans htimes.symm⟩
    · exact ⟨r', hr, rfl, rfl, rfl⟩

/-- A Run with a claim has the lease that it had under the claim, or the one that was written now. -/
theorem commit_lease (hwf : RunsWellFormed s.facts.runs)
    (hview : ∀ n, RunsLater (view n).facts.runs s.facts.runs) (hok : AcceptsFresh op view s)
    (hr' : r' ∈ (commit op view s).1.runs) (htoken : r'.claimToken = some token) :
    (∃ r ∈ s.runs, r.id = r'.id ∧ r.claimToken = some token ∧ r.leaseTimes = r'.leaseTimes) ∨
      writtenLease r'.id (op, (commit op view s).2) = some r'.leaseTimes := by
  have hkept : r'.forgetEvents ∈ s.facts.runs →
      ∃ r ∈ s.runs, r.id = r'.id ∧ r.claimToken = some token ∧ r.leaseTimes = r'.leaseTimes := by
    intro hfacts
    obtain ⟨r, hr, hid, hclaim, htimes⟩ := exists_of_facts hfacts
    exact ⟨r, hr, hid, hclaim.trans htoken, htimes⟩
  by_cases hop : op.touchesLease = false
  · refine Or.inl (hkept ?_)
    exact (commit_effect op view s).claimed hwf hview hop (Store.mem_facts_runs hr') htoken
  cases op with
  | renewRunLease userId id owner presented lease now =>
    refine (renewRunLease_lease hr').imp_left fun hr => ?_
    exact ⟨r', hr, rfl, htoken, rfl⟩
  | claimRun userId id owner lease fresh =>
    simp only [commit] at hr' ⊢
    cases h : claimRun userId id owner lease fresh s with
    | error error =>
      rw [h] at hr'
      exact Or.inl ⟨r', hr', rfl, htoken, rfl⟩
    | ok answer =>
      rw [h] at hr'
      exact (claimRun_lease h hr').imp_left hkept
  | acceptTerminalOutput userId id output owner presented now =>
    simp only [commit] at hr' ⊢
    cases h : acceptTerminalOutput userId id output owner presented now view s with
    | error error =>
      rw [h] at hr'
      exact Or.inl ⟨r', hr', rfl, htoken, rfl⟩
    | ok answer =>
      rw [h] at hr'
      obtain ⟨r, hr, hid, hclaim, htimes⟩ := acceptTerminalOutput_lease (hview 0) hok h hr'
      exact Or.inl ⟨r, hr, hid, hclaim.trans htoken, htimes⟩
  | _ => exact absurd rfl hop

/-! ## Every history -/

/-- An accepted renewal wrote the lease of its Run. -/
theorem renewal_written {lease : ℤ} (hflag : (renewRunLease userId runId owner token lease now s).2 = true)
    (hr' : r' ∈ (renewRunLease userId runId owner token lease now s).1.runs) (hid : r'.id = runId) :
    r'.leaseTimes = (some (now + lease), some now) := by
  unfold renewRunLease at hr' hflag
  dsimp only at hr' hflag
  split at hr'
  · rename_i hrenewed
    have hkeep : Table.Keeps (renewLeaseWhere userId runId owner token)
        (renewLeaseValues now (now + lease)) := fun _ _ _ h => h
    rcases Table.mem_update_cases hkeep hr' with ⟨r, _, hp, rfl⟩ | ⟨hr, hp⟩
    · rfl
    -- the row that the update matches has the id of this one, so it is this one
    · obtain ⟨matched, hmatched, hwhere⟩ := Table.exists_of_rowcount_eq_one
        (p := renewLeaseWhere userId runId owner token) (t := s.runs) (by simpa [renewLease] using hrenewed)
      rw [run_ext hr hmatched (hid.trans (renewLeaseWhere_iff.mp hwhere).1.symm), hwhere] at hp
      cases hp
  · rename_i hrenewed
    rw [if_neg hrenewed] at hflag
    cases hflag

theorem renewals_last {h : History Store Op Reply} (hr : system.ReachableIf AcceptsFresh h) :
    RenewalsLast h.replies h.cur := by
  refine (runs_stable.restrict fun _ _ _ _ => trivial).log_induction RenewalsLast ?_ ?_ hr
  · intro s _ j userId runId owner token lease now hj
    cases hj
  · intro op view s replies hinv hviews hok ih j userId runId owner token lease now hj r' hr' hid htoken
    cases j with
    | zero =>
      obtain ⟨rfl, hreply⟩ := Prod.mk.inj (Option.some.inj hj)
      have hflag : (renewRunLease userId runId owner token lease now s).2 = true :=
        Reply.flag.inj hreply
      refine ⟨0, le_rfl, _, rfl, ?_⟩
      rw [renewal_written hflag hr' hid, hreply]
      exact if_pos rfl
    | succ j =>
      rcases commit_lease hinv (fun n => (hviews n).2) hok hr' htoken with
        ⟨r, hmem, hrid, hclaim, htimes⟩ | hwritten
      · obtain ⟨k, hk, entry, hentry, hlease⟩ :=
          ih j userId runId owner token lease now hj r hmem (hrid.trans hid) hclaim
        exact ⟨k + 1, Nat.succ_le_succ hk, entry, hentry, by rw [← htimes]; exact hlease⟩
      · exact ⟨0, Nat.zero_le _, _, rfl, hid ▸ hwritten⟩

/-- The first output of a Run, on a read of its present version, is written with the lease that was
read. -/
theorem acceptTerminalOutput_writes (hread : run ∈ (view 0).runs) (hid : run.id = runId)
    (huser : run.userId = userId) (howner : run.claimOwner = some owner)
    (htoken : run.claimToken = some token) (hstatus : run.status = .running)
    (hnone : run.terminalOutput = none) (hr : r ∈ s.runs) (hrid : r.id = runId)
    (hversion : r.version = run.version) :
    ∃ r' ∈ (commit (.acceptTerminalOutput userId runId output owner token now) view s).1.runs,
      r'.id = runId ∧ r'.leaseTimes = run.leaseTimes := by
  have hget : getRun (view 0) userId runId = .ok run := by
    refine orRaise_eq_ok.mpr (Table.get_of_mem hread (by simp [hid, huser]) fun r' hr' => .inl ?_)
    rw [hid]
    exact (of_decide_eq_true hr').1
  have hmethod : run.acceptTerminalOutput now output = .ok { run with
      terminalOutput := some output, graphTerminalAt := some now, updatedAt := now
      version := run.version + 1 } := by
    unfold AgentRun.acceptTerminalOutput
    rw [if_neg (not_not.mpr hstatus), hnone]
  have hfound : updateWhere { run with
      terminalOutput := some output, graphTerminalAt := some now, updatedAt := now
      version := run.version + 1 } run.version r = true :=
    updateWhere_iff.mpr ⟨hrid.trans hid.symm, hversion⟩
  have hcount : (update { run with
      terminalOutput := some output, graphTerminalAt := some now, updatedAt := now
      version := run.version + 1 } run.version s.runs).2 = true := by
    refine beq_iff_eq.mpr (Table.rowcount_eq_one (fun r₁ r₂ h₁ h₂ => .inl ?_) hr hfound)
    exact (updateWhere_iff.mp h₁).1.trans (updateWhere_iff.mp h₂).1.symm
  have hupdate := bind_of_ensure (e := RuntimeError.versionConflict "Run was updated concurrently.")
    hcount fun _ => (pure { s with runs := (update { run with
      terminalOutput := some output, graphTerminalAt := some now, updatedAt := now
      version := run.version + 1 } run.version s.runs).1 } : Raises Store)
  have haccepted : acceptTerminalOutput userId runId output owner token now view s = .ok
      ({ s with runs := (update { run with
          terminalOutput := some output, graphTerminalAt := some now, updatedAt := now
          version := run.version + 1 } run.version s.runs).1 },
        { run with
          terminalOutput := some output, graphTerminalAt := some now, updatedAt := now
          version := run.version + 1 }) := by
    unfold acceptTerminalOutput
    rw [bind_of_ok hget, bind_of_ensure ⟨howner, htoken⟩, hmethod]
    refine (if_pos (Nat.succ_ne_self run.version)).trans ?_
    exact bind_of_ok hupdate _
  simp only [commit, haccepted]
  exact ⟨_, Table.mem_update_of_pos hr hfound, hrid, rfl⟩

/-- Accepting an output leaves the lease of the Run exactly where it was read as it is. -/
theorem leaseKept_iff (hview : RunsLater (view 0).facts.runs s.facts.runs) :
    LeaseKept runId s (commit (.acceptTerminalOutput userId runId output owner token now) view s).1 ↔
      ReadsLease userId runId owner token (view 0) s := by
  constructor
  · intro hkept run hread hid huser howner htoken hstatus hnone r hr hrid hversion
    obtain ⟨r', hr', hrid', htimes⟩ := acceptTerminalOutput_writes hread
      hid huser howner htoken hstatus hnone hr hrid hversion
    obtain ⟨r'', hr'', hrid'', hsame⟩ := hkept r hr hrid
    rw [← htimes, ← hsame, run_ext hr' hr'' (hrid'.trans hrid''.symm)]
  · intro hreads r hr hrid
    cases h : acceptTerminalOutput userId runId output owner token now view s with
    | error error =>
      simp only [commit, h]
      exact ⟨r, hr, hrid, rfl⟩
    | ok answer =>
      obtain ⟨s', run'⟩ := answer
      simp only [commit, h]
      have hstays : ∃ r' ∈ s'.runs, r'.id = runId := by
        rcases acceptTerminalOutput_cases h with
          ⟨rfl, _⟩ | ⟨run, _, _, _, _, _, _, _, _, hupdate⟩
        · exact ⟨r, hr, hrid⟩
        · obtain ⟨_, rfl⟩ := Store.updateRun_ok hupdate
          refine ⟨_, Table.updateRow_mem hr, ?_⟩
          unfold Table.updateRow
          split
          · exact hrid
          · exact hrid
      obtain ⟨r', hr', hrid'⟩ := hstays
      obtain ⟨r'', hr'', hid, _, htimes⟩ := acceptTerminalOutput_lease hview hreads h hr'
      refine ⟨r', hr', hrid', ?_⟩
      rw [← htimes, run_ext hr'' hr (hid.trans (hrid'.trans hrid.symm))]

/-- Accepting an output leaves the lease of the Run and its heartbeat exactly where the row that it read
has those of the row that it is written to. In a history in which every output is accepted on such a
read, the lease of a claim that was renewed is the one of the last renewal. -/
theorem renewals_last_iff (runId : UUID) :
    (∀ h : History Store Op Reply, system.Reachable h →
      ∀ userId output owner token now (view : ℕ → Store), (∀ n, view n ∈ h.states) →
        (LeaseKept runId h.cur
            (commit (.acceptTerminalOutput userId runId output owner token now) view h.cur).1 ↔
          ReadsLease userId runId owner token (view 0) h.cur)) ∧
    ∀ h : History Store Op Reply, system.ReachableIf AcceptsFresh h →
      RenewalsLast h.replies h.cur :=
  ⟨fun _ hr _ _ _ _ _ _ hview => leaseKept_iff (runs_stable.rel_mem hr (hview 0)),
    fun _ hr => renewals_last hr⟩

/-- A read of the state that is written to is a fresh one. -/
theorem acceptsFresh_same (op : Op) (s : Store) : AcceptsFresh op (fun _ => s) s := by
  cases op with
  | acceptTerminalOutput userId runId output owner token now =>
    intro run hread hid _ _ _ _ _ r hr hrid _
    rw [run_ext hread hr (hid.trans hrid.symm)]
  | _ => trivial

/-! ## A heartbeat and an output -/

def doneOutput : Dict := [("final_response", .str "done")]

/-- The worker of Run 10 renews its lease at time 30. -/
def renewedRun : List Op := claimedRun ++ [.renewRunLease 1 10 "w" 20 60 30]

/-- Its output is accepted on a read before the renewal. -/
def undoneRun : History Store Op Reply :=
  system.extend (system.serial {} renewedRun) (.acceptTerminalOutput 1 10 doneOutput "w" 20 31)
    fun _ => (system.serial {} renewedRun).stateAt ⟨2, by decide⟩

/-- Its output is accepted on a read after the renewal. -/
theorem renewals_last_renewedRun :
    let accepted := renewedRun ++ [.acceptTerminalOutput 1 10 doneOutput "w" 20 31]
    RenewalsLast (system.serial {} accepted).replies (system.serial {} accepted).cur ∧
      LeaseKept 10 (system.serial {} renewedRun).cur (system.serial {} accepted).cur ∧
      (system.serial {} accepted).cur.runs.rows.map AgentRun.leaseTimes = [(some 90, some 30)] := by
  refine ⟨(renewals_last_iff 10).2 _ ?_, ?_, by decide⟩
  · exact system.serial_reachableIf rfl _
      (system.serialMeets_of_same (fun op _ s => acceptsFresh_same op s) _)
  · exact ((renewals_last_iff 10).1 _ (system.serial_reachable rfl renewedRun) 1 doneOutput "w" 20 31
      (fun _ => (system.serial {} renewedRun).cur) (fun _ => List.mem_cons_self)).mpr
      (acceptsFresh_same (.acceptTerminalOutput 1 10 doneOutput "w" 20 31) _)

/-- The lease of Run 10 was to last until 90, and it is over at 60 again. -/
theorem renewal_undone :
    system.Reachable undoneRun ∧
      undoneRun.replies[1]? = some (.renewRunLease 1 10 "w" 20 60 30, .flag true) ∧
      (system.serial {} renewedRun).cur.runs.rows.map AgentRun.leaseTimes = [(some 90, some 30)] ∧
      undoneRun.cur.runs.rows.map AgentRun.leaseTimes = [(some 60, some 0)] ∧
      ¬LeaseKept 10 (system.serial {} renewedRun).cur undoneRun.cur := by
  have htimes : undoneRun.cur.runs.rows.map AgentRun.leaseTimes = [(some 60, some 0)] := by decide
  refine ⟨?_, rfl, by decide, htimes, ?_⟩
  · exact (system.serial_reachable rfl _).commit _ _ (fun _ => History.stateAt_mem _ _) trivial
  · intro hkept
    have hrenewed : ∃ r ∈ (system.serial {} renewedRun).cur.runs.rows,
        r.id = 10 ∧ r.leaseTimes = (some 90, some 30) := by decide
    obtain ⟨r, hr, hid, hlease⟩ := hrenewed
    obtain ⟨r', hr', _, hsame⟩ := hkept r hr hid
    have hold := List.mem_singleton.mp (htimes ▸ List.mem_map_of_mem (f := AgentRun.leaseTimes) hr')
    rw [hsame, hlease] at hold
    cases hold

end Runtime
