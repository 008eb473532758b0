import Laoshiren.Runtime.Proofs.JobProofs
import Laoshiren.Runtime.Proofs.LifecycleProofs

/-!
# Jobs that drive Runs

A Run and its job are two rows that different transactions move. A Run that is not over keeps a job
that is READY or CLAIMED, or PAUSED while it waits, as long as no sweep gives up a job whose Run is
not over (`Op.strands`). A worker settles a job by what it read of the Run earlier; the claim epoch
says that the job was claimed ever since, and meanwhile nobody can resume the Run (`ClaimHolds`).
-/

namespace Runtime

open RunRepository DurableJobRepository

/-- The job `j` is the job of the Run `r`. -/
structure JobOf (r : AgentRun) (j : DurableJob) : Prop where
  userId : j.userId = r.userId
  dedupeKey : j.dedupeKey = agentRunKey r.id
  payload : j.payload = [("run_id", .str r.id.str)]

/-- The law for the Runs of one state: a Run that is queued or running has its job READY or CLAIMED,
and a Run that waits has a job that resuming can make READY again, at the latest once its worker has
settled it. -/
def JobsDriveRuns (runs : Table AgentRun) (durableJobs : Table DurableJob) : Prop :=
  ∀ run ∈ runs,
    (run.status = .queued ∨ run.status = .running →
      ∃ j ∈ durableJobs, JobOf run j ∧ (j.status = .ready ∨ j.status = .claimed)) ∧
    (run.status = .waitingForUser →
      ∃ j ∈ durableJobs, JobOf run j ∧
        (j.status = .ready ∨ j.status = .claimed ∨ j.status = .paused))

/-- A claim as `claim_agent_run_jobs` answers it, with a job that was claimed at its epoch before the
worker read. -/
def DurableJobClaimDTO.HandedOut (claim : DurableJobClaimDTO) (v : Store) : Prop :=
  ∃ j ∈ v.durableJobs, claim.claimEpoch ≤ j.claimEpoch ∧
    claimOf j = .ok { claim with claimEpoch := j.claimEpoch }

/-- Workers settle with the claims that they were given. -/
def Op.settlesOwnClaim (op : Op) (view : ℕ → Store) : Prop :=
  ∀ claim owner errorCode now, op = .settleAgentRunJob claim owner errorCode now →
    claim.HandedOut (view 0)

/-- The transaction begins with a sweep of the jobs whose lease is over. -/
def Op.sweeps (op : Op) (now : Timestamp) (reached : UUID → Bool) : Prop :=
  (∃ owner lease limit locked, op = .claimAgentRunJobs owner lease limit now reached locked) ∨
    ∃ kind owner leaseUntil limit locked,
      op = .claimReadyJobs kind owner now leaseUntil limit reached locked

/-- The transaction gives up a job whose Run is not over: its lease is over and it was delivered as
often as it may be. -/
def Op.strands (op : Op) (s : Store) : Prop :=
  ∃ now reached, op.sweeps now reached ∧ ∃ j ∈ s.durableJobs, reached j.id = true ∧
    exhaustedWhere now j = true ∧ ∃ r ∈ s.runs, JobOf r j ∧ r.status.terminal = false

/-- The statuses of a job that fit the status of its Run. -/
def RunStatus.drivenBy : RunStatus → DurableJobStatus → Bool
  | .queued, .ready | .queued, .claimed => true
  | .running, .ready | .running, .claimed => true
  | .waitingForUser, .ready | .waitingForUser, .claimed | .waitingForUser, .paused => true
  | .queued, _ | .running, _ | .waitingForUser, _ => false
  | .completed, _ | .failed, _ | .cancelled, _ => true

/-- The invariant behind the law: every Run has its job, and every job its Run. -/
structure Driven (runs : Table AgentRun) (durableJobs : Table DurableJob) : Prop where
  job : ∀ r ∈ runs, ∃ j ∈ durableJobs, JobOf r j ∧ r.status.drivenBy j.status = true
  run : ∀ j ∈ durableJobs, ∃ r ∈ runs, JobOf r j

variable {runs runs' : Table AgentRun} {jobs jobs' : Table DurableJob} {r r' run run' : AgentRun}
  {j j' : DurableJob} {v : Store} {view : ℕ → Store} {op : Op}

/-! ## Runs and their jobs -/

theorem agentRunKey_injective : Function.Injective agentRunKey := by
  intro a b h
  have hstr : a.str = b.str := by simpa [agentRunKey, String.ext_iff] using h
  exact UUID.str_injective hstr

theorem JobOf.job_ext (hj : j ∈ jobs) (hj' : j' ∈ jobs) (h : JobOf r j) (h' : JobOf r j') : j = j' :=
  Table.eq_of_conflict hj hj'
    (.inr ⟨h.userId.trans h'.userId.symm, h.dedupeKey.trans h'.dedupeKey.symm⟩)

theorem JobOf.run_id (h : JobOf r j) (h' : JobOf r' j) : r'.id = r.id :=
  agentRunKey_injective (h'.dedupeKey.symm.trans h.dedupeKey)

theorem JobOf.run_ext (hr : r ∈ runs) (hr' : r' ∈ runs) (h : JobOf r j) (h' : JobOf r' j) : r' = r :=
  Runtime.run_ext hr' hr (h.run_id h')

theorem JobOf.agentRunJob (run : AgentRun) (stamp : Stamp) : JobOf run (agentRunJob run stamp) :=
  ⟨rfl, rfl, rfl⟩

/-- The claim of the job of a Run names the Run. -/
theorem JobOf.claimOf (h : JobOf r j) {claim : DurableJobClaimDTO} (hclaim : claimOf j = .ok claim) :
    claim = { jobId := j.id, userId := r.userId, runId := r.id, claimEpoch := j.claimEpoch } := by
  simp only [Runtime.claimOf, Raise.bind_eq_ok, Raise.orRaise_eq_ok, Raise.pure_eq_ok, h.payload,
    h.userId] at hclaim
  obtain ⟨text, htext, runId, hparse, rfl⟩ := hclaim
  obtain rfl : Json.str r.id.str = text := by simpa [Dict.get] using htext
  obtain rfl : r.id = runId := by simpa [Json.asStr?] using hparse
  rfl

/-! ## Steps of a Run -/

/-- What every transaction but a resume does to a Run: one that waits goes on waiting or is over. -/
structure RunKept (r r' : AgentRun) : Prop where
  id : r'.id = r.id
  userId : r'.userId = r.userId
  waiting : r.status = .waitingForUser → r'.status = .waitingForUser ∨ r'.status.terminal = true
  terminal : r.status.terminal = true → r'.status.terminal = true

theorem RunKept.refl (r : AgentRun) : RunKept r r := ⟨rfl, rfl, .inl, fun h => h⟩

theorem RunKept.trans {r₁ r₂ r₃ : AgentRun} (h : RunKept r₁ r₂) (h' : RunKept r₂ r₃) :
    RunKept r₁ r₃ where
  id := h'.id.trans h.id
  userId := h'.userId.trans h.userId
  waiting hstatus := (h.waiting hstatus).elim h'.waiting fun hterminal => .inr (h'.terminal hterminal)
  terminal hterminal := h'.terminal (h.terminal hterminal)

/-- A Run that neither waits nor is over may go anywhere. -/
theorem RunKept.of_busy (hid : r'.id = r.id) (huser : r'.userId = r.userId)
    (h : r.status = .queued ∨ r.status = .running) : RunKept r r' := by
  refine ⟨hid, huser, fun hstatus => ?_, fun hterminal => ?_⟩
  · rcases h with h | h <;> rw [h] at hstatus <;> cases hstatus
  · rcases h with h | h <;> rw [h] at hterminal <;> cases hterminal

theorem RunKept.of_over (hid : r'.id = r.id) (huser : r'.userId = r.userId)
    (h : r'.status.terminal = true) : RunKept r r' := ⟨hid, huser, fun _ => .inr h, fun _ => h⟩

theorem RunKept.jobOf (h : RunKept r r') (hj : JobOf r j) : JobOf r' j :=
  ⟨hj.userId.trans h.userId.symm, by rw [h.id]; exact hj.dedupeKey, by rw [h.id]; exact hj.payload⟩

theorem Advances.runKept (h : Advances op run run') : RunKept run run' := by
  obtain ⟨hid, huser, -⟩ := h.moved.counts
  cases h with
  | start haction h => exact .of_busy hid huser (.inl (AgentRun.start_ok h).1)
  | complete haction h => exact .of_busy hid huser (.inr (AgentRun.complete_ok h).1)
  | fail _ _ _ _ h =>
    obtain ⟨-, ms, rfl⟩ := AgentRun.fail_ok h
    exact .of_over hid huser rfl
  | accept h _ => exact .of_busy hid huser (.inr (AgentRun.acceptTerminalOutput_ok h).1)

/-- What a method does to a Run, it does to the row of the version that was read. -/
theorem runKept_update (hview : RunsLater v.facts.runs runs) (hread : run ∈ v.runs)
    (h : RunKept run run') : runs.Moves RunKept (update run' run.version runs).1 := by
  refine .update .refl fun r hr hp => ?_
  obtain ⟨hid, hversion⟩ := updateWhere_iff.mp hp
  have hcore := hview.core_eq hread hr (updateWhere_iff.mpr ⟨hid.trans h.id, hversion⟩)
  have hstatus : r.status = run.status := (congrArg AgentRun.status hcore :)
  exact ⟨rfl, rfl, by rw [hstatus]; exact h.waiting, by rw [hstatus]; exact h.terminal⟩

theorem runKept_of_recovers (hwf : RunsWellFormed runs) (hview : RunsLater (view 0).facts.runs runs)
    (h : Relation.ReflTransGen (Recovers view) runs runs') : runs.Moves RunKept runs' := by
  induction h with
  | refl => exact .refl .refl _
  | tail hfirst hlast ih =>
    cases hlast with
    | run hread hmethod _ =>
      have hkept := runsKept_of_recovers hwf hview hfirst
      obtain ⟨hid, huser, -⟩ := (AgentRun.Moved.recover hmethod).counts
      refine ih.trans (runKept_update (hview.trans hkept.2) hread (.of_busy hid huser ?_))
        fun _ _ _ => .trans
      exact .inr (AgentRun.recoverAfterCrash_ok hmethod).1

/-! ## Steps of a job -/

/-- What any number of transactions leave of a job. Its claim epoch tells whether it was given back
in the meantime. -/
structure JobLater (j j' : DurableJob) : Prop where
  userId : j'.userId = j.userId
  dedupeKey : j'.dedupeKey = j.dedupeKey
  payload : j'.payload = j.payload
  epoch : j.claimEpoch ≤ j'.claimEpoch
  claimed : j'.claimEpoch = j.claimEpoch → j'.status = .claimed → j.status = .claimed

theorem JobLater.refl (j : DurableJob) : JobLater j j := ⟨rfl, rfl, rfl, le_rfl, fun _ => id⟩

theorem JobLater.trans {j₁ j₂ j₃ : DurableJob} (h : JobLater j₁ j₂) (h' : JobLater j₂ j₃) :
    JobLater j₁ j₃ where
  userId := h'.userId.trans h.userId
  dedupeKey := h'.dedupeKey.trans h.dedupeKey
  payload := h'.payload.trans h.payload
  epoch := h.epoch.trans h'.epoch
  claimed hsame hstatus := by
    have hle := h.epoch
    have hle' := h'.epoch
    exact h.claimed (by omega) (h'.claimed (by omega) hstatus)

theorem JobLater.jobOf (h : JobLater j j') (hj : JobOf r j) : JobOf r j' :=
  ⟨h.userId.trans hj.userId, h.dedupeKey.trans hj.dedupeKey, h.payload.trans hj.payload⟩

def JobsLater (t t' : Table DurableJob) : Prop := t.Evolves DurableJob.id JobLater t'

theorem JobsLater.refl (t : Table DurableJob) : JobsLater t t := Table.Evolves.refl JobLater.refl t

theorem JobsLater.trans {t₁ t₂ t₃ : Table DurableJob} (h : JobsLater t₁ t₂) (h' : JobsLater t₂ t₃) :
    JobsLater t₁ t₃ :=
  Table.Evolves.trans (fun _ _ _ h₁ h₂ => h₁.trans h₂) h h'

theorem JobsLater.row (h : JobsLater jobs jobs') (hj : j ∈ jobs) (hj' : j' ∈ jobs')
    (hid : j'.id = j.id) : JobLater j j' := by
  obtain ⟨j'', hj'', hid'', hlater⟩ := h j hj
  rwa [Runtime.job_ext hj' hj'' (hid.trans hid''.symm)]

/-- A step of a job that goes on driving its Run, whose status is one of `runs`. -/
structure JobStep (runs : Table AgentRun) (j j' : DurableJob) : Prop extends JobLater j j' where
  id : j'.id = j.id
  drives : ∀ r ∈ runs, JobOf r j → r.status.drivenBy j.status = true →
    r.status.drivenBy j'.status = true

theorem JobStep.refl (runs : Table AgentRun) (j : DurableJob) : JobStep runs j j :=
  ⟨.refl j, rfl, fun _ _ _ h => h⟩

theorem JobStep.trans {j₁ j₂ j₃ : DurableJob} (h : JobStep runs j₁ j₂) (h' : JobStep runs j₂ j₃) :
    JobStep runs j₁ j₃ :=
  ⟨h.toJobLater.trans h'.toJobLater, h'.id.trans h.id, fun r hr hof hdrives =>
    h'.drives r hr (h.toJobLater.jobOf hof) (h.drives r hr hof hdrives)⟩

theorem jobsLater_of_moves (h : jobs.Moves (JobStep runs) jobs') : JobsLater jobs jobs' :=
  h.evolves fun _ _ hstep => ⟨hstep.id, hstep.toJobLater⟩

/-! ## The invariant under steps -/

theorem drivenBy_ready (s : RunStatus) : s.drivenBy .ready = true := by cases s <;> rfl

theorem drivenBy_claimed (s : RunStatus) : s.drivenBy .claimed = true := by cases s <;> rfl

theorem drivenBy_of_terminal {s : RunStatus} (h : s.terminal = true) (d : DurableJobStatus) :
    s.drivenBy d = true := by
  cases s <;> first | rfl | cases h

/-- A status that drives a Run drives what becomes of it unless it is resumed. -/
theorem RunKept.drivenBy (h : RunKept r r') {d : DurableJobStatus}
    (hd : r.status.drivenBy d = true) : r'.status.drivenBy d = true := by
  by_cases hbusy : d = .ready ∨ d = .claimed
  · rcases hbusy with rfl | rfl
    · exact drivenBy_ready _
    · exact drivenBy_claimed _
  · have hstatus : r.status = .waitingForUser ∨ r.status.terminal = true := by
      cases hst : r.status <;> rw [hst] at hd <;> cases d <;>
        simp [RunStatus.drivenBy, RunStatus.terminal] at hd hbusy ⊢
    rcases hstatus with hwaiting | hterminal
    · rcases h.waiting hwaiting with hstill | hover
      · rw [hstill, ← hwaiting]
        exact hd
      · exact drivenBy_of_terminal hover d
    · exact drivenBy_of_terminal (h.terminal hterminal) d

theorem Driven.movesRuns (h : Driven runs jobs) (hm : runs.Moves RunKept runs') :
    Driven runs' jobs where
  job r' hr' := by
    obtain ⟨r, hr, hkept⟩ := hm.mem hr'
    obtain ⟨j, hj, hof, hdrives⟩ := h.job r hr
    exact ⟨j, hj, hkept.jobOf hof, hkept.drivenBy hdrives⟩
  run j hj := by
    obtain ⟨r, hr, hof⟩ := h.run j hj
    obtain ⟨r', hr', hkept⟩ := hm.exists_mem hr
    exact ⟨r', hr', hkept.jobOf hof⟩

theorem Driven.movesJobs (h : Driven runs jobs) (hm : jobs.Moves (JobStep runs) jobs') :
    Driven runs jobs' where
  job r hr := by
    obtain ⟨j, hj, hof, hdrives⟩ := h.job r hr
    obtain ⟨j', hj', hstep⟩ := hm.exists_mem hj
    exact ⟨j', hj', hstep.toJobLater.jobOf hof, hstep.drives r hr hof hdrives⟩
  run j' hj' := by
    obtain ⟨j, hj, hstep⟩ := hm.mem hj'
    obtain ⟨r, hr, hof⟩ := h.run j hj
    exact ⟨r, hr, hstep.toJobLater.jobOf hof⟩

theorem Driven.create (h : Driven runs jobs) {stamp : Stamp} (hnew : run.IsNew)
    (hrun : runs.insert? run = some runs') (hjob : jobs.insert? (agentRunJob run stamp) = some jobs') :
    Driven runs' jobs' where
  job r hr := by
    rcases (Table.mem_insert? hrun).mp hr with hr | rfl
    · obtain ⟨j, hj, hof⟩ := h.job r hr
      exact ⟨j, (Table.mem_insert? hjob).mpr (.inl hj), hof⟩
    · exact ⟨_, (Table.mem_insert? hjob).mpr (.inr rfl), .agentRunJob r stamp, drivenBy_ready _⟩
  run j hj := by
    rcases (Table.mem_insert? hjob).mp hj with hj | rfl
    · obtain ⟨r, hr, hof⟩ := h.run j hj
      exact ⟨r, (Table.mem_insert? hrun).mpr (.inl hr), hof⟩
    · exact ⟨run, (Table.mem_insert? hrun).mpr (.inr rfl), .agentRunJob run stamp⟩

/-- The Run of a job that is ready or claimed may go anywhere. -/
theorem Driven.moveRun (h : Driven runs jobs) {version : ℕ}
    (hlive : ∀ r ∈ runs, updateWhere run version r = true →
      ∀ j ∈ jobs, JobOf r j → j.status = .ready ∨ j.status = .claimed) :
    Driven (update run version runs).1 jobs where
  job r' hr' := by
    rcases mem_updated hr' with ⟨r, hr, hp, rfl⟩ | ⟨hr, -⟩
    · obtain ⟨j, hj, hof, -⟩ := h.job r hr
      refine ⟨j, hj, ⟨hof.userId, hof.dedupeKey, hof.payload⟩, ?_⟩
      rcases hlive r hr hp j hj hof with hstatus | hstatus <;> rw [hstatus]
      · exact drivenBy_ready _
      · exact drivenBy_claimed _
    · exact h.job r' hr
  run j hj := by
    obtain ⟨r, hr, hof⟩ := h.run j hj
    refine ⟨_, Table.updateRow_mem hr, ?_⟩
    unfold Table.updateRow
    split
    · exact ⟨hof.userId, hof.dedupeKey, hof.payload⟩
    · exact hof

/-! ## What a claim holds -/

/-- While a job stays claimed at one epoch, a Run that waits goes on waiting or is over. -/
def ClaimHolds (x x' : Facts) : Prop :=
  ∀ r ∈ x.runs, ∀ j ∈ x.durableJobs, JobOf r j → r.status = .waitingForUser →
    ∀ j' ∈ x'.durableJobs, j'.id = j.id → j'.claimEpoch = j.claimEpoch → j'.status = .claimed →
      ∀ r' ∈ x'.runs, r'.id = r.id → r'.status = .waitingForUser ∨ r'.status.terminal = true

/-- The facts as a transaction may have read them, and as they are now. -/
structure FactsLater (x x' : Facts) : Prop where
  runs : RunsLater x.runs x'.runs
  jobs : JobsLater x.durableJobs x'.durableJobs
  claim : ClaimHolds x x'

variable {x x' : Facts}

theorem claimHolds_of_kept (h : x.runs.Moves RunKept x'.runs) : ClaimHolds x x' := by
  intro r hr j _ _ hwaiting j' _ _ _ _ r' hr' hid
  obtain ⟨r₀, hr₀, hkept⟩ := h.mem hr'
  obtain rfl : r₀ = r := run_ext hr₀ hr (hkept.id.symm.trans hid)
  exact hkept.waiting hwaiting

theorem FactsLater.refl (x : Facts) : FactsLater x x :=
  ⟨.refl _, .refl _, claimHolds_of_kept (.refl .refl _)⟩

theorem FactsLater.trans {x₁ x₂ x₃ : Facts} (h : FactsLater x₁ x₂) (h' : FactsLater x₂ x₃) :
    FactsLater x₁ x₃ where
  runs := h.runs.trans h'.runs
  jobs := h.jobs.trans h'.jobs
  claim r₁ hr₁ j₁ hj₁ hof hwaiting j₃ hj₃ hjid hepoch hclaimed r₃ hr₃ hrid := by
    obtain ⟨r₂, hr₂, hrid₂, hrlater⟩ := h.runs r₁ hr₁
    obtain ⟨j₂, hj₂, hjid₂, hjlater⟩ := h.jobs j₁ hj₁
    have hjlater' := h'.jobs.row hj₂ hj₃ (hjid.trans hjid₂.symm)
    have hrlater' := h'.runs.row hr₂ hr₃ (hrid.trans hrid₂.symm)
    have hle := hjlater.epoch
    have hle' := hjlater'.epoch
    have hclaimed₂ : j₂.status = .claimed := hjlater'.claimed (by omega) hclaimed
    have hof₂ : JobOf r₂ j₂ := by
      have hof' := hjlater.jobOf hof
      exact ⟨hof'.userId.trans hrlater.userId.symm, by rw [hrid₂]; exact hof'.dedupeKey,
        by rw [hrid₂]; exact hof'.payload⟩
    rcases h.claim r₁ hr₁ j₁ hj₁ hof hwaiting j₂ hj₂ hjid₂ (by omega) hclaimed₂ r₂ hr₂ hrid₂ with
      hstill | hover
    · exact h'.claim r₂ hr₂ j₂ hj₂ hof₂ hstill j₃ hj₃ (hjid.trans hjid₂.symm) (by omega) hclaimed r₃
        hr₃ (hrid.trans hrid₂.symm)
    · rw [hrlater'.terminal hover]
      exact .inr hover

/-! ## Statements on jobs -/

/-- A claim moves the jobs that the sweep before it gets to, and then those that it takes. -/
theorem jobMoves_claimReadyJobs {kind : DurableJobKind} {owner : String}
    {now leaseUntil : Timestamp} {limit : ℕ} {reached locked : UUID → Bool}
    (hop : op.claimsAs kind owner) (hsweep : op.sweep = some (now, reached)) :
    jobs.Moves (Relation.ReflGen (JobMove op))
      (claimReadyJobs kind owner now leaseUntil limit reached locked jobs).1 := by
  refine claimMove_claimReadyJobs.imp fun j j' hmove => ?_
  cases hmove with
  | swept hmove =>
    cases hmove with
    | kept => exact .refl
    | requeued hreached hp => exact .single (.requeued hsweep hreached hp)
    | givenUp hreached hp => exact .single (.givenUp hsweep hreached hp)
  | claimed hmove hp =>
    cases hmove with
    | kept => exact .single (.claimed hop hp)
    | requeued hreached hretry => exact .single (.reclaimed hop hsweep hreached hretry hp)
    | givenUp _ _ => simp [claimReadyWhere, exhaustedValues] at hp

/-- What a transaction does to the jobs: it creates the job of a new Run, or it moves those that are
there. -/
theorem Effect.jobMoves (h : Effect view op x x') :
    (∃ run stamp, op.createsKey = some (run.userId, run.idempotencyKey) ∧
      x.durableJobs.insert? (agentRunJob run stamp) = some x'.durableJobs) ∨
      x.durableJobs.Moves (Relation.ReflGen (JobMove op)) x'.durableJobs := by
  cases h with
  | createRun _ _ hjob hop => exact .inl ⟨_, _, hop, hjob⟩
  | claimJobs hop =>
    refine .inr (jobMoves_claimReadyJobs ?_ ?_)
    · rcases hop with rfl | ⟨_, rfl⟩
      · exact .inl ⟨_, _, _, _, _, rfl⟩
      · exact .inr ⟨_, _, _, _, _, rfl⟩
    · rcases hop with rfl | ⟨_, rfl⟩ <;> rfl
  | settleJob hstatus =>
    exact .inr (.update (fun _ => .refl) fun _ _ hp => .single (.settled rfl hstatus hp))
  | renewJob => exact .inr (.update (fun _ => .refl) fun _ _ hp => .single (.renewed rfl hp))
  | releaseJob => exact .inr (.update (fun _ => .refl) fun _ _ hp => .single (.released rfl hp))
  | resume => exact .inr (.update (fun _ => .refl) fun _ _ hp => .single (.resumed hp))
  | cancel => exact .inr (.update (fun _ => .refl) fun _ _ hp => .single (.cancelled hp))
  | _ => exact .inr (.refl (fun _ => .refl) _)

/-- A statement that makes a job READY or leaves its status alone. -/
theorem JobStep.of_ready (hid : j'.id = j.id) (huser : j'.userId = j.userId)
    (hkey : j'.dedupeKey = j.dedupeKey) (hpayload : j'.payload = j.payload)
    (hepoch : j'.claimEpoch = j.claimEpoch) (h : j'.status = .ready ∨ j'.status = j.status) :
    JobStep runs j j' := by
  refine ⟨⟨huser, hkey, hpayload, hepoch.ge, fun _ hclaimed => ?_⟩, hid, fun r _ _ hdrives => ?_⟩
  · rcases h with h | h
    · rw [h] at hclaimed
      cases hclaimed
    · exact h.symm.trans hclaimed
  · rcases h with h | h <;> rw [h]
    · exact drivenBy_ready _
    · exact hdrives

/-- The sweep makes jobs ready again, or fails those whose Run is over. -/
theorem jobStep_requeueExpired {now : Timestamp} {reached : UUID → Bool}
    (hspared : ∀ j ∈ jobs, reached j.id = true → exhaustedWhere now j = true →
      ∀ r ∈ runs, JobOf r j → r.status.terminal = true) :
    jobs.Moves (JobStep runs) (requeueExpired now reached jobs) := by
  have hretry : ∀ j, JobStep runs j (retryableValues now j) := fun j =>
    .of_ready rfl rfl rfl rfl rfl (.inl rfl)
  have hkeep : Table.Keeps (fun j => reached j.id && retryableWhere now j) (retryableValues now) :=
    fun _ _ _ h => h
  have hfirst : jobs.Moves (JobStep runs) (jobs.update _ _ hkeep) :=
    .update (.refl runs) fun j _ _ => hretry j
  refine hfirst.trans (.update (.refl runs) fun j hj hp => ?_) fun _ _ _ => .trans
  -- the second statement reaches no row that the first one changed
  simp only [Bool.and_eq_true] at hp
  rcases Table.mem_update_cases hkeep hj with ⟨k, -, -, rfl⟩ | ⟨hj, -⟩
  · simp [exhaustedWhere, expired, retryableValues] at hp
  · have hover := hspared j hj hp.1 hp.2
    refine ⟨⟨rfl, rfl, rfl, le_rfl, fun _ hclaimed => ?_⟩, rfl, fun r hr hof _ => ?_⟩
    · simp [exhaustedValues] at hclaimed
    · exact drivenBy_of_terminal (hover r hr hof) _

theorem jobStep_claimReady {kind : DurableJobKind} {owner : String} {now leaseUntil : Timestamp}
    {limit : ℕ} {locked : UUID → Bool} :
    jobs.Moves (JobStep runs) (claimReady kind owner now leaseUntil limit locked jobs).1 := by
  refine .update (.refl runs) fun j _ _ => ⟨⟨rfl, rfl, rfl, Nat.le_succ _, fun hsame => ?_⟩, rfl,
    fun r _ _ _ => drivenBy_claimed _⟩
  exact absurd hsame (Nat.succ_ne_self _)

/-- What a job is settled to fits the Run that was read. -/
theorem settledStatus_ok {errorCode errorCode' : Option String} {status : DurableJobStatus}
    (h : settledStatus errorCode (some run) = .ok (status, errorCode')) :
    status ≠ .claimed ∧ ((run.status = .waitingForUser ∧ status = .paused) ∨
      run.status.terminal = true) := by
  unfold settledStatus at h
  cases hstatus : run.status <;> simp only [hstatus] at h
  case queued | running => cases h
  all_goals
    obtain ⟨rfl, -⟩ := Prod.mk.inj (Raise.pure_eq_ok.mp h)
    simp [RunStatus.terminal]

/-- A worker that settles the job that it was given leaves the Run driven: since it read the Run the
job was claimed at one epoch. -/
theorem jobStep_settle {claim : DurableJobClaimDTO} {owner : String} {now : Timestamp}
    {errorCode errorCode' : Option String} {status : DurableJobStatus}
    (hdriven : Driven v.facts.runs v.facts.durableJobs) (hlater : FactsLater v.facts x)
    (hclaim : claim.HandedOut v)
    (hstatus : settledStatus errorCode (RunRepository.get claim.userId claim.runId v.runs) =
      .ok (status, errorCode')) :
    x.durableJobs.Moves (JobStep x.runs)
      (settle claim.jobId owner claim.claimEpoch status now errorCode' x.durableJobs).1 := by
  obtain ⟨j, hj, hepoch, hof⟩ := hclaim
  obtain ⟨r, hr, hjob⟩ := hdriven.run j hj
  obtain ⟨r₀, hr₀, rfl⟩ := Store.exists_of_mem_facts_runs hr
  have heq := hjob.claimOf hof
  have hread : RunRepository.get claim.userId claim.runId v.runs = some r₀ := by
    have huser : claim.userId = r₀.userId := congrArg DurableJobClaimDTO.userId heq
    have hrun : claim.runId = r₀.id := congrArg DurableJobClaimDTO.runId heq
    refine Table.get_of_mem hr₀ (by simp [huser, hrun]) fun r' hr' => ?_
    simp only [decide_eq_true_eq] at hr'
    exact .inl (hr'.1.trans hrun)
  have hjobid : claim.jobId = j.id := congrArg DurableJobClaimDTO.jobId heq
  rw [hread] at hstatus
  obtain ⟨hnotclaimed, hfits⟩ := settledStatus_ok hstatus
  refine .update (.refl _) fun k hk hp => ?_
  obtain ⟨hkid, hkclaimed, -, hkepoch⟩ := heldBy_iff.mp (settleWhere_iff.mp hp).1
  have hid : k.id = j.id := hkid.trans hjobid
  have hrow := hlater.jobs.row hj hk hid
  have hle := hrow.epoch
  refine ⟨⟨rfl, rfl, rfl, le_rfl, fun _ h => absurd h hnotclaimed⟩, rfl, fun r' hr' hof' _ => ?_⟩
  have hrid : r'.id = r₀.forgetEvents.id := (hrow.jobOf hjob).run_id hof'
  have hover : r₀.status.terminal = true → r'.status.terminal = true := fun hterminal => by
    rw [(hlater.runs.row hr hr' hrid).terminal hterminal]
    exact hterminal
  show r'.status.drivenBy status = true
  rcases hfits with ⟨hwaiting, rfl⟩ | hterminal
  · rcases hlater.claim _ hr j hj hjob hwaiting k hk hid (by omega) hkclaimed r' hr' hrid with
      hstill | hterminal
    · rw [hstill]
      rfl
    · exact drivenBy_of_terminal hterminal _
  · exact drivenBy_of_terminal (hover hterminal) _

/-! ## Transactions on both rows -/

/-- Runs that are kept and jobs that go on driving them. -/
theorem driven_of_moves (hdriven : Driven x.runs x.durableJobs) (hlater : RunsLater x.runs x'.runs)
    (hruns : x.runs.Moves RunKept x'.runs)
    (hjobs : x.durableJobs.Moves (JobStep x.runs) x'.durableJobs) :
    Driven x'.runs x'.durableJobs ∧ FactsLater x x' :=
  ⟨(hdriven.movesJobs hjobs).movesRuns hruns, hlater, jobsLater_of_moves hjobs,
    claimHolds_of_kept hruns⟩

/-- The row of the Run that an update by its version changes. -/
theorem row_of_updateWhere (hview : RunsLater v.facts.runs runs) (hread : run ∈ v.runs)
    (hid : run'.id = run.id) (hr : r ∈ runs) (hp : updateWhere run' run.version r = true) :
    r.id = run.id ∧ r.userId = run.userId := by
  obtain ⟨hrid, hversion⟩ := updateWhere_iff.mp hp
  have hcore := hview.core_eq hread hr (updateWhere_iff.mpr ⟨hrid.trans hid, hversion⟩)
  exact ⟨hrid.trans hid, (congrArg AgentRun.userId hcore :)⟩

/-- Resuming queues the Run and makes its job READY, from PAUSED or READY: not from CLAIMED, so no
claim is out. -/
theorem driven_of_resume {now : Timestamp} {interruptId : UUID} {response : Dict}
    {interactions : Table RunInteraction} (hdriven : Driven x.runs x.durableJobs)
    (hview : RunsLater v.facts.runs x.runs) (hread : run ∈ v.runs)
    (h : run.resume now interruptId response = .ok run')
    (hjob : (resume run.userId (agentRunKey run.id) now x.durableJobs).2 = true)
    (hlater : RunsLater x.runs (update run' run.version x.runs).1) :
    Driven (update run' run.version x.runs).1
        (resume run.userId (agentRunKey run.id) now x.durableJobs).1 ∧
      FactsLater x { x with
        runs := (update run' run.version x.runs).1
        interactions
        durableJobs := (resume run.userId (agentRunKey run.id) now x.durableJobs).1 } := by
  have hid : run'.id = run.id := (AgentRun.Moved.resume h).counts.1
  have hstep : ∀ j, JobStep x.runs j (resumeValues now j) := fun j =>
    .of_ready rfl rfl rfl rfl rfl (.inl rfl)
  have hkeep : Table.Keeps (resumeWhere run.userId (agentRunKey run.id)) (resumeValues now) :=
    fun _ _ _ h => h
  have hjobs : x.durableJobs.Moves (JobStep x.runs)
      (resume run.userId (agentRunKey run.id) now x.durableJobs).1 :=
    .update (.refl _) fun j _ _ => hstep j
  have hready : ∀ r ∈ x.runs, updateWhere run' run.version r = true →
      ∀ j ∈ (resume run.userId (agentRunKey run.id) now x.durableJobs).1, JobOf r j →
        j.status = .ready := by
    intro r hr hp j hj hof
    obtain ⟨hrid, hruser⟩ := row_of_updateWhere hview hread hid hr hp
    rcases Table.mem_update_cases hkeep hj with ⟨k, -, -, rfl⟩ | ⟨hj, hnot⟩
    · rfl
    · obtain ⟨k, hk, hkp⟩ := Table.exists_of_rowcount_eq_one
        (p := resumeWhere run.userId (agentRunKey run.id)) (t := x.durableJobs)
        (by simpa [resume] using hjob)
      have hkof : k.userId = run.userId ∧ k.dedupeKey = agentRunKey run.id := by
        simp only [resumeWhere, decide_eq_true_eq] at hkp
        exact ⟨hkp.1, hkp.2.1⟩
      have hsame : k = j := Table.eq_of_conflict hk hj (.inr ⟨hkof.1.trans
        (hruser ▸ hof.userId).symm, hkof.2.trans (hrid ▸ hof.dedupeKey).symm⟩)
      rw [hsame, hnot] at hkp
      cases hkp
  refine ⟨(hdriven.movesJobs hjobs).moveRun fun r hr hp j hj hof => .inl (hready r hr hp j hj hof),
    hlater, jobsLater_of_moves hjobs, ?_⟩
  intro r hr j hj hof hwaiting j' hj' hjid _ hclaimed r' hr' hrid
  rcases mem_updated hr' with ⟨r₁, hr₁, hp, rfl⟩ | ⟨hr', -⟩
  · obtain rfl : r₁ = r := run_ext hr₁ hr hrid
    have hof' := ((jobsLater_of_moves hjobs).row hj hj' hjid).jobOf hof
    rw [hready r₁ hr₁ hp j' hj' hof'] at hclaimed
    cases hclaimed
  · rw [run_ext hr' hr hrid]
    exact .inl hwaiting

/-- Cancelling ends the Run, so that no job has to drive it. -/
theorem driven_of_cancel {now : Timestamp} (hdriven : Driven x.runs x.durableJobs)
    (hview : RunsLater v.facts.runs x.runs) (hread : run ∈ v.runs) (h : run.cancel now = .ok run')
    (hversion : (update run' run.version x.runs).2 = true)
    (hlater : RunsLater x.runs (update run' run.version x.runs).1) :
    Driven (update run' run.version x.runs).1
        (cancel run.userId (agentRunKey run.id) now x.durableJobs).1 ∧
      FactsLater x { x with
        runs := (update run' run.version x.runs).1
        durableJobs := (cancel run.userId (agentRunKey run.id) now x.durableJobs).1 } := by
  obtain ⟨hid, huser, -⟩ := (AgentRun.Moved.cancel h).counts
  have hover : run'.status.terminal = true := by
    obtain ⟨-, ms, rfl⟩ := AgentRun.cancel_ok h
    rfl
  have hruns := runKept_update hview hread (.of_over hid huser hover)
  have hjobs : x.durableJobs.Moves (JobStep (update run' run.version x.runs).1)
      (cancel run.userId (agentRunKey run.id) now x.durableJobs).1 := by
    refine .update (.refl _) fun j hj hp => ?_
    refine ⟨⟨rfl, rfl, rfl, le_rfl, fun _ hclaimed => ?_⟩, rfl, fun r' hr' hof _ => ?_⟩
    · simp [cancelValues] at hclaimed
    · refine drivenBy_of_terminal ?_ _
      simp only [cancelWhere, decide_eq_true_eq] at hp
      have hrid : r'.id = run.id := agentRunKey_injective (hof.dedupeKey.symm.trans hp.2.1)
      rcases mem_updated hr' with ⟨r, -, -, rfl⟩ | ⟨hr', hnot⟩
      · exact hover
      · obtain ⟨r, hr, -, hpr⟩ := exists_row_of_update hview hread hid hversion
        have hsame : r = r' :=
          run_ext hr hr' (((updateWhere_iff.mp hpr).1.trans hid).trans hrid.symm)
        rw [hsame, hnot] at hpr
        cases hpr
  exact ⟨(hdriven.movesRuns hruns).movesJobs hjobs, hlater, jobsLater_of_moves hjobs,
    claimHolds_of_kept hruns⟩

/-- Every effect that gives up no job of a Run that is not over keeps every Run driven. -/
theorem Effect.driven (hwf : RunsWellFormed x.runs)
    (hviews : ∀ n, Driven (view n).facts.runs (view n).facts.durableJobs ∧
      FactsLater (view n).facts x)
    (hsettles : op.settlesOwnClaim view)
    (hspared : ∀ now reached, op.sweeps now reached → ∀ j ∈ x.durableJobs, reached j.id = true →
      exhaustedWhere now j = true → ∀ r ∈ x.runs, JobOf r j → r.status.terminal = true)
    (hdriven : Driven x.runs x.durableJobs) (h : Effect view op x x') :
    Driven x'.runs x'.durableJobs ∧ FactsLater x x' := by
  have hlater : RunsLater x.runs x'.runs := (h.runsKept hwf fun n => (hviews n).2.runs).2
  have hview := fun n => (hviews n).2.runs
  have hruns : x.runs.Moves RunKept x.runs := .refl .refl _
  have hjobs : x.durableJobs.Moves (JobStep x.runs) x.durableJobs := .refl (.refl _) _
  cases h with
  | createRun hnew hrun hjob =>
    refine ⟨hdriven.create hnew hrun hjob, hlater, .insert? JobLater.refl hjob, ?_⟩
    intro r hr j _ _ hwaiting j' _ _ _ _ r' hr' hid
    rcases (Table.mem_insert? hrun).mp hr' with hr' | rfl
    · rw [run_ext hr' hr hid]
      exact .inl hwaiting
    · exact absurd (.inl hid.symm) (Table.not_conflict_of_insert? hrun hr)
  | claimRun =>
    exact driven_of_moves hdriven hlater (.update .refl fun r _ hp =>
      .of_busy rfl rfl (status_of_claimWhere hp)) hjobs
  | renewRunLease =>
    exact driven_of_moves hdriven hlater (.update .refl fun r _ _ => ⟨rfl, rfl, .inl, fun h => h⟩)
      hjobs
  | recover h => exact driven_of_moves hdriven hlater (runKept_of_recovers hwf (hview 0) h) hjobs
  | advance hread h _ =>
    exact driven_of_moves hdriven hlater (runKept_update (hview 0) hread h.runKept) hjobs
  | wait hread _ _ _ h _ _ =>
    obtain ⟨hid, huser, -⟩ := (AgentRun.Moved.wait h).counts
    have hkept := RunKept.of_busy hid huser (.inr (AgentRun.waitForUser_ok h).1)
    exact driven_of_moves hdriven hlater (runKept_update (hview 0) hread hkept) hjobs
  | resume hread hrun huser _ _ _ h hjob _ =>
    subst hrun huser
    exact driven_of_resume hdriven (hview 1) hread h hjob hlater
  | cancel _ _ hread hrun huser _ h hversion =>
    subst hrun huser
    exact driven_of_cancel hdriven (hview 3) hread h hversion hlater
  | @claimJobs _ kind owner now leaseUntil limit reached locked _ hop =>
    have hsweeps : op.sweeps now reached := by
      rcases hop with rfl | ⟨lease, rfl⟩
      · exact .inr ⟨_, _, _, _, _, rfl⟩
      · exact .inl ⟨_, _, _, _, rfl⟩
    refine driven_of_moves hdriven hlater hruns ?_
    exact (jobStep_requeueExpired (hspared now reached hsweeps)).trans jobStep_claimReady
      fun _ _ _ => .trans
  | settleJob hstatus _ =>
    exact driven_of_moves hdriven hlater hruns (jobStep_settle (hviews 0).1 (hviews 0).2
      (hsettles _ _ _ _ rfl) hstatus)
  | renewJob =>
    exact driven_of_moves hdriven hlater hruns (.update (.refl _) fun j _ _ =>
      .of_ready rfl rfl rfl rfl rfl (.inr rfl))
  | releaseJob =>
    exact driven_of_moves hdriven hlater hruns (.update (.refl _) fun j _ _ =>
      .of_ready rfl rfl rfl rfl rfl (.inl rfl))
  | idle | ledger => exact driven_of_moves hdriven hlater hruns hjobs

/-! ## Every history -/

theorem claimOf_epoch {claim : DurableJobClaimDTO} (h : claimOf j = .ok claim) :
    claim.claimEpoch = j.claimEpoch := by
  simp only [claimOf, Raise.bind_eq_ok, Raise.pure_eq_ok] at h
  obtain ⟨_, _, _, _, rfl⟩ := h
  rfl

/-- What a claim call answers was handed out: the workers have their claims from here. -/
theorem handedOut_of_claimAgentRunJobs {owner : String} {lease : ℤ} {limit : ℕ} {now : Timestamp}
    {reached locked : UUID → Bool} {s s' : Store} {claims : List DurableJobClaimDTO}
    (h : claimAgentRunJobs owner lease limit now reached locked s = .ok (s', claims)) :
    ∀ claim ∈ claims, claim.HandedOut s' := by
  simp only [claimAgentRunJobs, Raise.bind_eq_ok, Raise.pure_eq_ok, Prod.mk.injEq] at h
  obtain ⟨_, _, claims', hclaims, rfl, rfl⟩ := h
  intro claim hclaim
  obtain ⟨j, hj, hof⟩ := Raise.mem_of_mapM_eq_ok hclaims claim hclaim
  obtain ⟨k, hk, rfl⟩ := List.mem_map.mp hj
  have hepoch : claim.claimEpoch = (claimReadyValues owner now (now + lease) k).claimEpoch :=
    claimOf_epoch hof
  exact ⟨_, Table.mem_update_of_pos (readyJobs_mem hk).1 (by simpa using hk), hepoch.le,
    by rw [hof, ← hepoch]⟩

/-- A claim that was handed out stays so. -/
theorem DurableJobClaimDTO.HandedOut.later {claim : DurableJobClaimDTO} {s : Store}
    (h : claim.HandedOut v) (hlater : JobsLater v.durableJobs s.durableJobs) :
    claim.HandedOut s := by
  obtain ⟨j, hj, hepoch, hof⟩ := h
  obtain ⟨j', hj', hid, hrow⟩ := hlater j hj
  refine ⟨j', hj', hepoch.trans hrow.epoch, ?_⟩
  simp only [claimOf, Raise.bind_eq_ok, Raise.orRaise_eq_ok, Raise.pure_eq_ok] at hof ⊢
  obtain ⟨text, htext, runId, hparse, heq⟩ := hof
  refine ⟨text, hrow.payload.symm ▸ htext, runId, hparse, ?_⟩
  simp only [DurableJobClaimDTO.mk.injEq] at heq ⊢
  exact ⟨hid.trans heq.1, hrow.userId.trans heq.2.1, heq.2.2.1, trivial⟩

/-- Runs stay driven while workers settle the claims that they were given and no sweep gives up the
job of a Run that is not over. -/
theorem driven_stable : Program.Stable system
    (fun op view s => op.settlesOwnClaim view ∧ ¬op.strands s)
    (fun s => RunsWellFormed s.facts.runs ∧ Driven s.facts.runs s.facts.durableJobs)
    (fun v s => FactsLater v.facts s.facts) where
  init s hs := by
    obtain rfl : s = {} := hs
    exact ⟨fun r hr => absurd hr Table.not_mem_empty, fun r hr => absurd hr Table.not_mem_empty,
      fun j hj => absurd hj Table.not_mem_empty⟩
  refl s := .refl _
  trans _ _ _ := .trans
  step op view s hinv hviews hok := by
    have heffect := commit_effect op view s
    have hkept := heffect.runsKept hinv.1 fun n => (hviews n).2.runs
    have hspared : ∀ now reached, op.sweeps now reached → ∀ j ∈ s.facts.durableJobs,
        reached j.id = true → exhaustedWhere now j = true → ∀ r ∈ s.facts.runs, JobOf r j →
          r.status.terminal = true := by
      intro now reached hsweeps j hj hreached hexhausted r hr hof
      by_contra hlive
      obtain ⟨r₀, hr₀, rfl⟩ := Store.exists_of_mem_facts_runs hr
      exact hok.2 ⟨now, reached, hsweeps, j, hj, hreached, hexhausted, r₀, hr₀,
        ⟨hof.userId, hof.dedupeKey, hof.payload⟩, Bool.eq_false_iff.mpr hlive⟩
    obtain ⟨hdriven, hlater⟩ := heffect.driven hinv.1
      (fun n => ⟨(hviews n).1.2, (hviews n).2⟩) hok.1 hspared hinv.2
    exact ⟨⟨hkept.1, hdriven⟩, hlater⟩

/-- A worker that presents a claim that it was given, and reads after that, settles its own claim. -/
theorem claims_handedOut {h : History Store Op Reply}
    (hr : system.ReachableIf (fun op view s => op.settlesOwnClaim view ∧ ¬op.strands s) h) :
    ∀ op claims, (op, .claims claims) ∈ h.replies → ∀ claim ∈ claims, claim.HandedOut h.cur := by
  refine driven_stable.log_induction (fun replies s => ∀ op claims, (op, .claims claims) ∈ replies →
    ∀ claim ∈ claims, claim.HandedOut s) (fun _ _ _ _ hmem => absurd hmem List.not_mem_nil) ?_ hr
  intro op view s replies hinv hviews hok ih op' claims hmem claim hclaim
  have hlater := (driven_stable.step op view s hinv hviews hok).2.jobs
  rcases List.mem_cons.mp hmem with heq | hmem
  · obtain ⟨-, hreply⟩ := Prod.mk.inj heq
    obtain ⟨_, _, _, _, _, _, hcall⟩ := claimAgentRunJobs_of_claims hreply.symm
    exact handedOut_of_claimAgentRunJobs hcall claim hclaim
  · exact (ih op' claims hmem claim hclaim).later hlater

theorem live_of_drivenBy {s : RunStatus} {d : DurableJobStatus} (h : s.drivenBy d = true)
    (hs : s = .queued ∨ s = .running) : d = .ready ∨ d = .claimed := by
  rcases hs with rfl | rfl <;> revert h <;> cases d <;> decide

theorem resumable_of_drivenBy {d : DurableJobStatus}
    (h : RunStatus.waitingForUser.drivenBy d = true) : d = .ready ∨ d = .claimed ∨ d = .paused := by
  revert h
  cases d <;> decide

theorem Driven.jobsDriveRuns (h : Driven runs jobs) : JobsDriveRuns runs jobs := by
  intro run hrun
  obtain ⟨j, hj, hof, hdrives⟩ := h.job run hrun
  refine ⟨fun hstatus => ⟨j, hj, hof, live_of_drivenBy hdrives hstatus⟩, fun hstatus => ?_⟩
  rw [hstatus] at hdrives
  exact ⟨j, hj, hof, resumable_of_drivenBy hdrives⟩

/-- In every history in which workers settle the claims that they were given and no sweep gives up
the job of a Run that is not over: every Run that is not over has a job that can drive it. -/
theorem jobs_drive_runs {h : History Store Op Reply}
    (hr : system.ReachableIf (fun op view s => op.settlesOwnClaim view ∧ ¬op.strands s) h) :
    JobsDriveRuns h.cur.runs h.cur.durableJobs := by
  have hlaw := (driven_stable.inv_cur hr).2.jobsDriveRuns
  intro run hrun
  obtain ⟨hbusy, hwaiting⟩ := hlaw _ (Store.mem_facts_runs hrun)
  refine ⟨fun hstatus => ?_, fun hstatus => ?_⟩
  · obtain ⟨j, hj, hof, hjob⟩ := hbusy hstatus
    exact ⟨j, hj, ⟨hof.userId, hof.dedupeKey, hof.payload⟩, hjob⟩
  · obtain ⟨j, hj, hof, hjob⟩ := hwaiting hstatus
    exact ⟨j, hj, ⟨hof.userId, hof.dedupeKey, hof.payload⟩, hjob⟩

theorem jobs_drive_runs_waitingRun :
    JobsDriveRuns (system.serial {} waitingRun).cur.runs
        (system.serial {} waitingRun).cur.durableJobs ∧
      (system.serial {} waitingRun).cur.durableJobs.rows.map DurableJob.status = [.ready] := by
  refine ⟨jobs_drive_runs (system.serial_reachableIf rfl _
    (system.serialMeets_of_forall (fun op hop view s => ?_) _)), by decide⟩
  simp only [waitingRun, claimedRun, List.cons_append, List.nil_append, List.mem_cons,
    List.not_mem_nil, or_false] at hop
  rcases hop with rfl | rfl | rfl <;> simp [Op.settlesOwnClaim, Op.strands, Op.sweeps]

/-- A scanner that claims the ready job at `now`, with a lease of one, and dies. -/
def lostClaim (now : Timestamp) : Op :=
  .claimAgentRunJobs "scanner" 1 1 now (fun _ => true) fun _ => false

/-- A Run whose job was lost five times, and then met by a sweep. -/
def givenUpRun : History Store Op Reply :=
  system.serial {}
    [.createAutomationRun ⟨1, 2, none, "title", "message", "occurrence"⟩ [] (stampsFrom 10 0),
      lostClaim 0, lostClaim 2, lostClaim 4, lostClaim 6, lostClaim 8, lostClaim 10]

theorem given_up_job_strands_run :
    system.Reachable givenUpRun ∧
      givenUpRun.cur.runs.rows.map AgentRun.status = [.queued] ∧
      ¬JobsDriveRuns givenUpRun.cur.runs givenUpRun.cur.durableJobs := by
  have hruns : givenUpRun.cur.runs.rows.map AgentRun.status = [.queued] := by decide +kernel
  have hjobs : ∀ j ∈ givenUpRun.cur.durableJobs.rows, j.status = .failed := by decide +kernel
  refine ⟨system.serial_reachable rfl _, hruns, fun hlaw => ?_⟩
  obtain ⟨run, hrun, hstatus⟩ : ∃ run ∈ givenUpRun.cur.runs.rows, run.status = .queued :=
    List.mem_map.mp (hruns ▸ List.mem_cons_self)
  obtain ⟨j, hj, -, hlive⟩ := (hlaw run hrun).1 (.inl hstatus)
  rw [hjobs j hj] at hlive
  rcases hlive with hlive | hlive <;> cases hlive

end Runtime
