import Laoshiren.Runtime.Dispatch
import Laoshiren.Runtime.Proofs.DrivenProofs

/-!
# Attempts are spent on executions

A claim counts one delivery attempt before its job is executed. As long as no sweep gets to a claimed
job that was not executed yet, the attempts of a job are paid for by executions, all but the one of
its present claim (`Accounted`), so a job that is given up was executed as often as it may be.
-/

namespace Runtime

open DurableJobRepository

variable {d : Dispatch} {j j' : DurableJob} {op : Op}

/-- The job of the claim is there, and was claimed at its epoch. -/
def DurableJobClaimDTO.Issued (claim : DurableJobClaimDTO) (jobs : Table DurableJob) : Prop :=
  ∃ j ∈ jobs, j.id = claim.jobId ∧ claim.claimEpoch ≤ j.claimEpoch

/-- The attempts of a job of a Run are paid for. -/
structure Accounted (d : Dispatch) (j : DurableJob) : Prop where
  holder : j.status = .claimed → ∃ scanner, j.claimedBy = some (scannerOwner scanner)
  claimed : j.status = .claimed → j.deliveryAttempt ≤ d.starts j.id + 1
  paid : j.status ≠ .cancelled → (j.status = .claimed → d.Started j) →
    j.deliveryAttempt ≤ d.starts j.id
  exhausted : j.status = .failed → j.lastErrorCode = some "RECOVERY_EXHAUSTED" →
    j.maxDeliveryAttempts ≤ j.deliveryAttempt

/-- The invariant of the system. -/
structure Dispatched (d : Dispatch) : Prop where
  jobs : ∀ j ∈ d.store.durableJobs, j.kind = .agentRun → Accounted d j
  running : ∀ scanner, ∀ claim ∈ (d.scanners scanner).running, claim ∈ d.started
  waiting : ∀ scanner, ∀ claim ∈ (d.scanners scanner).waiting, claim.Issued d.store.durableJobs
  started : ∀ claim ∈ d.started, claim.Issued d.store.durableJobs

/-- A transaction as the system sends it: jobs of Runs are claimed by scanners, who settle what they
executed, nobody else releases them, and the sweep spares those that were not executed. -/
structure Op.Orderly (op : Op) (d : Dispatch) : Prop where
  claims : ∀ owner, op.claimsAs .agentRun owner → ∃ scanner, owner = scannerOwner scanner
  settles : ∀ claim owner errorCode now, op = .settleAgentRunJob claim owner errorCode now →
    claim ∈ d.started
  releases : ∀ jobId owner claimEpoch availableAt now errorCode,
    op = .releaseForRetry jobId owner claimEpoch availableAt now errorCode →
      ∀ scanner, owner ≠ scannerOwner scanner
  sweeps : ∀ swept ∈ op.sweep, ∀ j ∈ d.store.durableJobs, j.kind = .agentRun →
    swept.2 j.id = true → expired swept.1 j = true → d.Started j

/-! ## One job -/

theorem JobMove.id_eq (h : JobMove op j j') : j'.id = j.id := by
  cases h <;> rfl

theorem JobMove.kind_eq (h : JobMove op j j') : j'.kind = j.kind := by
  cases h <;> rfl

theorem JobMove.epoch_le (h : JobMove op j j') : j.claimEpoch ≤ j'.claimEpoch := by
  cases h with
  | claimed | reclaimed => exact Nat.le_succ _
  | _ => exact le_rfl

theorem status_of_expired {now : Timestamp} (h : expired now j = true) : j.status = .claimed :=
  (of_decide_eq_true h).1

theorem expired_of_retryable {now : Timestamp} (h : retryableWhere now j = true) :
    expired now j = true := (Bool.and_eq_true_iff.mp h).1

theorem expired_of_exhausted {now : Timestamp} (h : exhaustedWhere now j = true) :
    expired now j = true ∧ j.maxDeliveryAttempts ≤ j.deliveryAttempt :=
  ⟨(Bool.and_eq_true_iff.mp h).1, of_decide_eq_true (Bool.and_eq_true_iff.mp h).2⟩

/-- A job that is not claimed and has paid for its attempts. -/
theorem Accounted.of_paid (hstatus : j.status ≠ .claimed) (hpaid : j.deliveryAttempt ≤ d.starts j.id)
    (hexhausted : j.status = .failed → j.lastErrorCode = some "RECOVERY_EXHAUSTED" →
      j.maxDeliveryAttempts ≤ j.deliveryAttempt) : Accounted d j :=
  ⟨fun h => absurd h hstatus, fun h => absurd h hstatus, fun _ _ => hpaid, hexhausted⟩

/-- A claim adds one attempt to those that a job has paid for: nothing was executed with its epoch
yet. -/
theorem Accounted.claim {owner : String} {now leaseUntil : Timestamp}
    (hpaid : j.deliveryAttempt ≤ d.starts j.id) (howner : ∃ scanner, owner = scannerOwner scanner)
    (hepoch : ∀ claim ∈ d.started, claim.jobId = j.id → claim.claimEpoch ≤ j.claimEpoch) :
    Accounted d (claimReadyValues owner now leaseUntil j) where
  holder _ := by
    obtain ⟨scanner, rfl⟩ := howner
    exact ⟨scanner, rfl⟩
  claimed _ := Nat.succ_le_succ hpaid
  paid _ hstarted := by
    obtain ⟨claim, hclaim, hid, hsame⟩ := hstarted rfl
    have hle := hepoch claim hclaim hid
    have hsame : claim.claimEpoch = j.claimEpoch + 1 := hsame
    omega
  exhausted h := by cases h

/-- What a settled job has for its status and its error. -/
theorem settledStatus_cases {errorCode errorCode' : Option String} {run : Option AgentRun}
    {status : DurableJobStatus} (h : settledStatus errorCode run = .ok (status, errorCode')) :
    status ≠ .claimed ∧ (status = .failed → errorCode' = some "RUN_NOT_FOUND") := by
  cases run with
  | none =>
    obtain ⟨rfl, rfl⟩ := Prod.mk.inj (Raise.pure_eq_ok.mp h)
    exact ⟨by decide, fun _ => rfl⟩
  | some run =>
    obtain ⟨hne, hcase⟩ := settledStatus_ok h
    refine ⟨hne, ?_⟩
    rintro rfl
    unfold settledStatus at h
    cases hstatus : run.status <;> simp [hstatus] at h

theorem Accounted.move (h : Accounted d j) (hkind : j.kind = .agentRun)
    (hj : j ∈ d.store.durableJobs) (hop : op.Orderly d)
    (hepoch : ∀ claim ∈ d.started, claim.jobId = j.id → claim.claimEpoch ≤ j.claimEpoch)
    (hmove : JobMove op j j') : Accounted d j' := by
  have hswept : ∀ {now : Timestamp} {reached : UUID → Bool}, op.sweep = some (now, reached) →
      reached j.id = true → expired now j = true → j.deliveryAttempt ≤ d.starts j.id := by
    intro now reached hsweep hreached hexpired
    have hstarted := hop.sweeps (now, reached) hsweep j hj hkind hreached hexpired
    refine h.paid ?_ fun _ => hstarted
    rw [status_of_expired hexpired]
    decide
  cases hmove with
  | requeued hsweep hreached hp =>
    have hpaid := hswept hsweep hreached (expired_of_retryable hp)
    exact .of_paid nofun hpaid nofun
  | givenUp hsweep hreached hp =>
    obtain ⟨hexpired, hmax⟩ := expired_of_exhausted hp
    have hpaid := hswept hsweep hreached hexpired
    exact .of_paid nofun hpaid fun _ _ => hmax
  | claimed hclaims hp =>
    obtain ⟨rfl, hready, -⟩ := of_decide_eq_true hp
    have hpaid := h.paid (by rw [hready]; decide) (by rw [hready]; nofun)
    exact .claim hpaid (hop.claims _ (hkind ▸ hclaims)) hepoch
  | reclaimed hclaims hsweep hreached hretry hp =>
    obtain ⟨rfl, -, -⟩ := of_decide_eq_true hp
    have hpaid := hswept hsweep hreached (expired_of_retryable hretry)
    have hclaims : op.claimsAs j.kind _ := hclaims
    exact .claim hpaid (hop.claims _ (hkind ▸ hclaims)) hepoch
  | @settled claim _ _ _ _ _ _ _ hsettle hstatus hp =>
    obtain ⟨hid, hclaimed, -, hsame⟩ := heldBy_iff.mp (settleWhere_iff.mp hp).1
    have hstarted : d.Started j := ⟨claim, hop.settles _ _ _ _ hsettle, hid.symm, hsame.symm⟩
    have hpaid := h.paid (by rw [hclaimed]; decide) fun _ => hstarted
    obtain ⟨hne, hfailed⟩ := settledStatus_cases hstatus
    refine .of_paid hne hpaid fun hfail herror => ?_
    have hsame := (hfailed hfail).symm.trans herror
    simp at hsame
  | renewed => exact ⟨h.holder, h.claimed, h.paid, h.exhausted⟩
  | released hrelease hp =>
    obtain ⟨-, hclaimed, howner, -⟩ := heldBy_iff.mp (settleWhere_iff.mp hp).1
    obtain ⟨scanner, hholder⟩ := h.holder hclaimed
    have hsame := Option.some.inj (howner.symm.trans hholder)
    exact absurd hsame (hop.releases _ _ _ _ _ _ hrelease scanner)
  | resumed hp =>
    obtain ⟨-, -, hstatus⟩ := of_decide_eq_true hp
    have hpaid : j.deliveryAttempt ≤ d.starts j.id := by
      rcases hstatus with hstatus | hstatus
      · exact h.paid (by rw [hstatus]; decide) (by rw [hstatus]; nofun)
      · exact h.paid (by rw [hstatus]; decide) (by rw [hstatus]; nofun)
    exact .of_paid nofun hpaid nofun
  | cancelled => exact ⟨nofun, nofun, fun h => absurd rfl h, nofun⟩

/-! ## Claims -/

theorem DurableJobClaimDTO.Issued.later {claim : DurableJobClaimDTO} {jobs jobs' : Table DurableJob}
    (h : claim.Issued jobs)
    (hlater : jobs.Evolves DurableJob.id (fun j j' => j.claimEpoch ≤ j'.claimEpoch) jobs') :
    claim.Issued jobs' := by
  obtain ⟨j, hj, hid, hepoch⟩ := h
  obtain ⟨j', hj', hid', hle⟩ := hlater j hj
  exact ⟨j', hj', hid'.trans hid, hepoch.trans hle⟩

/-- The claim that a job was handed out with names this job. -/
theorem DurableJobClaimDTO.HandedOut.issued {claim : DurableJobClaimDTO} {s : Store}
    (h : claim.HandedOut s) : claim.Issued s.durableJobs := by
  obtain ⟨j, hj, hepoch, hof⟩ := h
  simp only [claimOf, Raise.bind_eq_ok, Raise.pure_eq_ok, DurableJobClaimDTO.mk.injEq] at hof
  obtain ⟨_, _, _, _, hid, -⟩ := hof
  exact ⟨j, hj, hid, hepoch⟩

/-- No claim of a job has a later epoch than the job. -/
theorem DurableJobClaimDTO.Issued.epoch_le {claim : DurableJobClaimDTO} {jobs : Table DurableJob}
    (h : claim.Issued jobs) (hj : j ∈ jobs) (hid : claim.jobId = j.id) :
    claim.claimEpoch ≤ j.claimEpoch := by
  obtain ⟨j', hj', hid', hepoch⟩ := h
  have hsame : j' = j := Table.eq_of_conflict hj' hj (.inl (hid'.trans hid))
  rwa [hsame] at hepoch

/-! ## The invariant under steps -/

theorem jobs_evolve (op : Op) (view : ℕ → Store) (s : Store) :
    s.durableJobs.Evolves DurableJob.id (fun j j' => j.claimEpoch ≤ j'.claimEpoch)
      (commit op view s).1.durableJobs := by
  rcases (commit_effect op view s).jobMoves with ⟨run, stamp, -, hinsert⟩ | hmoves
  · exact Table.Evolves.insert? (fun _ => le_rfl) hinsert
  · refine hmoves.evolves fun j j' hstep => ?_
    cases hstep with
    | refl => exact ⟨rfl, le_rfl⟩
    | single hmove => exact ⟨hmove.id_eq, hmove.epoch_le⟩

/-- An orderly transaction keeps the accounts. -/
theorem Dispatched.transaction (h : Dispatched d) (hop : op.Orderly d) (view : ℕ → Store) :
    Dispatched { d with store := (commit op view d.store).1 } where
  jobs j' hj' hkind := by
    suffices haccounted : Accounted d j' from
      ⟨haccounted.holder, haccounted.claimed, haccounted.paid, haccounted.exhausted⟩
    rcases (commit_effect op view d.store).jobMoves with ⟨run, stamp, -, hinsert⟩ | hmoves
    · rcases (Table.mem_insert? hinsert).mp hj' with hj | rfl
      · exact h.jobs j' hj hkind
      · exact .of_paid nofun (Nat.zero_le _) nofun
    · obtain ⟨j, hj, hstep⟩ := hmoves.mem hj'
      cases hstep with
      | refl => exact h.jobs _ hj hkind
      | single hmove =>
        have hkind := hmove.kind_eq.symm.trans hkind
        exact (h.jobs j hj hkind).move hkind hj hop
          (fun claim hclaim hid => (h.started claim hclaim).epoch_le hj hid) hmove
  running := h.running
  waiting scanner claim hclaim := (h.waiting scanner claim hclaim).later (jobs_evolve op view d.store)
  started claim hclaim := (h.started claim hclaim).later (jobs_evolve op view d.store)

theorem Dispatched.setScanner (h : Dispatched d) (scanner : UUID) {state : Scanner}
    (hrunning : ∀ claim ∈ state.running, claim ∈ d.started)
    (hwaiting : ∀ claim ∈ state.waiting, claim.Issued d.store.durableJobs) :
    Dispatched (d.setScanner scanner state) where
  jobs j hj hkind :=
    ⟨(h.jobs j hj hkind).holder, (h.jobs j hj hkind).claimed, (h.jobs j hj hkind).paid,
      (h.jobs j hj hkind).exhausted⟩
  running scanner' := by
    by_cases hsame : scanner' = scanner
    · rw [hsame]
      simpa [Dispatch.setScanner] using hrunning
    · simpa [Dispatch.setScanner, hsame] using h.running scanner'
  waiting scanner' := by
    by_cases hsame : scanner' = scanner
    · rw [hsame]
      simpa [Dispatch.setScanner] using hwaiting
    · simpa [Dispatch.setScanner, hsame] using h.waiting scanner'
  started := h.started

/-- An execution pays for the present claim of its job, or for nothing. -/
theorem Accounted.start (h : Accounted d j) (claim : DurableJobClaimDTO) :
    Accounted { d with started := claim :: d.started } j := by
  have hstarts : Dispatch.starts j.id { d with started := claim :: d.started } =
      d.starts j.id + if claim.jobId = j.id then 1 else 0 := by
    simp [Dispatch.starts, List.countP_cons]
  refine ⟨h.holder, fun hclaimed => ?_, fun hstatus hstarted => ?_, h.exhausted⟩
  · have hle := h.claimed hclaimed
    omega
  · by_cases hpaid : j.status = .claimed → d.Started j
    · have hle := h.paid hstatus hpaid
      omega
    · -- the claim is the present one of the job, whose attempt was not paid for yet
      obtain ⟨hclaimed, hnot⟩ := Classical.not_imp.mp hpaid
      obtain ⟨claim', hmem, hid, hepoch⟩ := hstarted hclaimed
      rcases List.mem_cons.mp hmem with rfl | hmem
      · have hle := h.claimed hclaimed
        rw [hstarts, if_pos hid]
        exact hle
      · exact absurd ⟨claim', hmem, hid, hepoch⟩ hnot

theorem Dispatched.start (h : Dispatched d) {claim : DurableJobClaimDTO}
    (hclaim : claim.Issued d.store.durableJobs) :
    Dispatched { d with started := claim :: d.started } where
  jobs j hj hkind := (h.jobs j hj hkind).start claim
  running scanner claim' hrunning := .tail _ (h.running scanner claim' hrunning)
  waiting := h.waiting
  started claim' hmem := by
    rcases List.mem_cons.mp hmem with rfl | hmem
    · exact hclaim
    · exact h.started claim' hmem

/-! ## The transactions of the system -/

theorem isPrefixOf_scannerOwner (scanner : UUID) :
    scannerPrefix.toList.isPrefixOf (scannerOwner scanner).toList = true := by
  rw [scannerOwner, String.toList_append, List.isPrefixOf_iff_prefix]
  exact List.prefix_append _ _

theorem orderly_of_apart (hapart : op.apart = true)
    (hsweeps : ∀ swept ∈ op.sweep, ∀ j ∈ d.store.durableJobs, j.kind = .agentRun →
      swept.2 j.id = true → expired swept.1 j = true → d.Started j) : op.Orderly d where
  claims owner hclaims := by
    rcases hclaims with ⟨_, _, _, _, _, rfl⟩ | ⟨_, _, _, _, _, rfl⟩ <;> simp [Op.apart] at hapart
  settles _ _ _ _ hop := by
    rw [hop] at hapart
    simp [Op.apart] at hapart
  releases _ owner _ _ _ _ hop scanner hsame := by
    rw [hop] at hapart
    simp [Op.apart, hsame, isPrefixOf_scannerOwner] at hapart
  sweeps := hsweeps

theorem orderly_claim {scanner : UUID} {lease : ℤ} {limit : ℕ} {now : Timestamp}
    {reached locked : UUID → Bool}
    (hspares : (DispatchOp.claim scanner lease limit now reached locked).Spares d) :
    (Op.claimAgentRunJobs (scannerOwner scanner) lease limit now reached locked).Orderly d where
  claims owner hclaims := by
    rcases hclaims with ⟨_, _, _, _, _, hop⟩ | ⟨_, _, _, _, _, hop⟩
    · cases hop
    · exact ⟨scanner, (Op.claimAgentRunJobs.inj hop).1.symm⟩
  settles _ _ _ _ hop := by cases hop
  releases _ _ _ _ _ _ hop := by cases hop
  sweeps := hspares

theorem orderly_renew (claim : DurableJobClaimDTO) (owner : String) (lease : ℤ) (now : Timestamp) :
    (Op.renewAgentRunJob claim owner lease now).Orderly d where
  claims _ hclaims := by
    rcases hclaims with ⟨_, _, _, _, _, hop⟩ | ⟨_, _, _, _, _, hop⟩ <;> cases hop
  settles _ _ _ _ hop := by cases hop
  releases _ _ _ _ _ _ hop := by cases hop
  sweeps := nofun

theorem orderly_settle {claim : DurableJobClaimDTO} (hclaim : claim ∈ d.started) (owner : String)
    (errorCode : Option String) (now : Timestamp) :
    (Op.settleAgentRunJob claim owner errorCode now).Orderly d where
  claims _ hclaims := by
    rcases hclaims with ⟨_, _, _, _, _, hop⟩ | ⟨_, _, _, _, _, hop⟩ <;> cases hop
  settles _ _ _ _ hop := by
    obtain ⟨rfl, -⟩ := Op.settleAgentRunJob.inj hop
    exact hclaim
  releases _ _ _ _ _ _ hop := by cases hop
  sweeps := nofun

theorem Dispatched.commit (h : Dispatched d) {op : DispatchOp} (hspares : op.Spares d)
    (view : ℕ → Dispatch) : Dispatched (Dispatch.commit op view d) := by
  cases op with
  | other op hapart => exact h.transaction (orderly_of_apart hapart hspares) _
  | claim scanner lease limit now reached locked =>
    have hstore := h.transaction (orderly_claim hspares) fun n => (view n).store
    have hissued : ∀ waiting, (Runtime.commit (.claimAgentRunJobs (scannerOwner scanner) lease limit
        now reached locked) (fun n => (view n).store) d.store).2 = .claims waiting →
        ∀ claim ∈ waiting, claim.Issued (Runtime.commit (.claimAgentRunJobs (scannerOwner scanner)
          lease limit now reached locked) (fun n => (view n).store) d.store).1.durableJobs := by
      intro waiting hreply claim hclaim
      obtain ⟨_, _, _, _, _, _, hcall⟩ := claimAgentRunJobs_of_claims hreply
      exact (handedOut_of_claimAgentRunJobs hcall claim hclaim).issued
    unfold Dispatch.commit
    dsimp only
    generalize Runtime.commit _ _ d.store = answer at hstore hissued ⊢
    obtain ⟨store, reply⟩ := answer
    split
    · cases reply with
      | claims waiting => exact hstore.setScanner scanner nofun (hissued waiting rfl)
      | _ => exact hstore
    · exact h
  | start scanner =>
    unfold Dispatch.commit
    dsimp only
    split
    · rename_i claim waiting hscanner
      have hwaiting := h.waiting scanner
      rw [hscanner] at hwaiting
      refine (h.start (hwaiting claim (.head _))).setScanner scanner ?_ fun claim' hclaim' => ?_
      · rintro claim' ⟨⟩
        exact .head _
      · exact hwaiting claim' (.tail _ hclaim')
    · exact h
  | heartbeat scanner lease now =>
    unfold Dispatch.commit
    dsimp only
    split
    · exact h.transaction (orderly_renew _ _ lease now) _
    · exact h
  | settle scanner errorCode now =>
    unfold Dispatch.commit
    dsimp only
    split
    · rename_i claim hrunning
      have hstarted := h.running scanner claim hrunning
      have hstore := h.transaction (orderly_settle hstarted (scannerOwner scanner) errorCode now)
        fun n => (view n).store
      generalize Runtime.commit _ _ d.store = answer at hstore ⊢
      obtain ⟨store, reply⟩ := answer
      cases reply with
      | raised => exact hstore.setScanner scanner nofun nofun
      | _ => exact hstore.setScanner scanner nofun (hstore.waiting scanner)
    · exact h
  | abandon scanner => exact h.setScanner scanner nofun nofun

/-! ## Every history -/

theorem dispatch_stable :
    Program.Stable dispatch (fun op _ d => op.Spares d) Dispatched fun _ _ => True where
  init d hd := by
    obtain rfl : d = _ := hd
    exact ⟨fun j hj => absurd hj Table.not_mem_empty, nofun, nofun, nofun⟩
  refl _ := trivial
  trans _ _ _ _ _ := trivial
  step op view d hinv _ hspares := ⟨hinv.commit hspares view, trivial⟩

/-- In every history in which no sweep gets to a job of a Run that was claimed and not executed yet: a
job of a Run that was given up was executed as often as it may be delivered. -/
theorem attempts_are_executions {h : History Dispatch DispatchOp Unit}
    (hr : dispatch.ReachableIf (fun op _ d => op.Spares d) h) {j : DurableJob}
    (hj : j ∈ h.cur.store.durableJobs) (hkind : j.kind = .agentRun) (hfailed : j.status = .failed)
    (herror : j.lastErrorCode = some "RECOVERY_EXHAUSTED") :
    j.maxDeliveryAttempts ≤ h.cur.starts j.id := by
  have haccounted := (dispatch_stable.inv_cur hr).jobs j hj hkind
  calc
    j.maxDeliveryAttempts ≤ j.deliveryAttempt := haccounted.exhausted hfailed herror
    _ ≤ h.cur.starts j.id := by
      refine haccounted.paid ?_ ?_
      · rw [hfailed]
        decide
      · rw [hfailed]
        nofun

/-- Run 10, or Run 30, of user 1, whose threads are no concern here. -/
def dispatchedRun (n : ℕ) (occurrence : String) : DispatchOp :=
  .other (.createAutomationRun ⟨1, 2, none, "title", "message", occurrence⟩ [] (stampsFrom n 0)) rfl

/-- A scanner claims the ready jobs at `now`, with a lease of one. -/
def claimBatch (now : Timestamp) : DispatchOp :=
  .claim 0 1 500 now (fun _ => true) fun _ => false

/-- A round whose first execution raises and leaves its Run queued: settling the job raises too, and
the rest of the batch is given up. -/
def failedRound (now : Timestamp) : List DispatchOp :=
  [claimBatch now, .start 0, .settle 0 (some "RuntimeError") now]

/-- Five rounds and the sweep of the next one. -/
def failedRounds : List DispatchOp :=
  failedRound 0 ++ failedRound 2 ++ failedRound 4 ++ failedRound 6 ++ failedRound 8 ++ [claimBatch 10]

theorem attempts_are_executions_oneJob :
    ∃ j ∈ (dispatch.serial ⟨{}, fun _ => {}, []⟩
        (dispatchedRun 10 "a" :: failedRounds)).cur.store.durableJobs,
      j.status = .failed ∧ j.maxDeliveryAttempts = 5 ∧ j.maxDeliveryAttempts ≤
        (dispatch.serial ⟨{}, fun _ => {}, []⟩ (dispatchedRun 10 "a" :: failedRounds)).cur.starts
          j.id := by
  have hmeets : dispatch.SerialMeets (fun op _ d => op.Spares d) ⟨⟨{}, fun _ => {}, []⟩, [], []⟩
      (dispatchedRun 10 "a" :: failedRounds) := by decide +kernel
  have hjobs : ∃ j ∈ (dispatch.serial ⟨{}, fun _ => {}, []⟩
      (dispatchedRun 10 "a" :: failedRounds)).cur.store.durableJobs.rows, j.kind = .agentRun ∧
        j.status = .failed ∧ j.lastErrorCode = some "RECOVERY_EXHAUSTED" ∧
          j.maxDeliveryAttempts = 5 := by decide +kernel
  obtain ⟨j, hj, hkind, hfailed, herror, hmax⟩ := hjobs
  exact ⟨j, hj, hfailed, hmax,
    attempts_are_executions (dispatch.serial_reachableIf rfl _ hmeets) hj hkind hfailed herror⟩

/-- A job that is always second in its batch, behind one whose execution raises, is given up without
one execution. -/
theorem second_job_starved :
    dispatch.Reachable (dispatch.serial ⟨{}, fun _ => {}, []⟩
        (dispatchedRun 10 "a" :: dispatchedRun 30 "b" :: failedRounds)) ∧
      ∃ j ∈ (dispatch.serial ⟨{}, fun _ => {}, []⟩
          (dispatchedRun 10 "a" :: dispatchedRun 30 "b" :: failedRounds)).cur.store.durableJobs.rows,
        j.kind = .agentRun ∧ j.status = .failed ∧ j.lastErrorCode = some "RECOVERY_EXHAUSTED" ∧
          j.maxDeliveryAttempts = 5 ∧ (dispatch.serial ⟨{}, fun _ => {}, []⟩
            (dispatchedRun 10 "a" :: dispatchedRun 30 "b" :: failedRounds)).cur.starts j.id = 0 :=
  ⟨dispatch.serial_reachable rfl _, by decide +kernel⟩

end Runtime
