import Laoshiren.Runtime.JobQueue
import Laoshiren.Runtime.Proofs.StoreProofs

/-!
# Fencing of durable jobs

Every statement makes a step of the lease that a job row stands for (`commitJob_step`), so the tokens
of a job are fenced in every history of the queue.
-/

namespace Runtime

open DurableJobRepository

variable {t t' : Table DurableJob} {j : DurableJob}

/-! ## Conditions on one row -/

theorem settleWhere_iff {jobId : UUID} {owner : String} {claimEpoch : ℕ} {now : Timestamp} :
    settleWhere jobId owner claimEpoch now j = true ↔
      heldBy jobId owner claimEpoch j = true ∧ ∃ t ∈ j.leaseUntil, now ≤ t := by
  simp [settleWhere]

theorem heldBy_iff {jobId : UUID} {owner : String} {claimEpoch : ℕ} :
    heldBy jobId owner claimEpoch j = true ↔
      j.id = jobId ∧ j.status = .claimed ∧ j.claimedBy = some owner ∧ j.claimEpoch = claimEpoch := by
  simp [heldBy]

/-- A job that is held is a lease that is out. -/
theorem lease_isSome_of_heldBy {jobId : UUID} {owner : String} {claimEpoch : ℕ}
    (h : heldBy jobId owner claimEpoch j = true) : j.lease.holder.isSome := by
  obtain ⟨-, hstatus, hby, -⟩ := heldBy_iff.mp h
  simp [DurableJob.lease, hstatus, hby]

/-- A statement on a job by its id reports whether the row met its condition. -/
theorem rowcount_of_id {p : DurableJob → Bool} {jobId : UUID} (hp : ∀ j, p j = true → j.id = jobId)
    (hj : j ∈ t) (hid : j.id = jobId) : (t.rowcount p == 1) = p j := by
  cases hpj : p j with
  | true =>
    have hone : t.rowcount p = 1 := Table.rowcount_eq_one
      (fun r r' hr hr' => .inl ((hp r hr).trans (hp r' hr').symm)) hj hpj
    simp [hone]
  | false =>
    have hzero : t.rowcount p = 0 := by
      refine Table.rowcount_eq_zero.mpr fun r hr => ?_
      by_contra hpr
      have hpr' : p r = true := by simpa using hpr
      rw [job_ext hr hj ((hp r hpr').trans hid.symm), hpj] at hpr'
      cases hpr'
    simp [hzero]

/-! ## What a claim makes of a job -/

/-- The columns of a job that stay. -/
structure SameJob (j j' : DurableJob) : Prop where
  userId : j'.userId = j.userId
  kind : j'.kind = j.kind
  dedupeKey : j'.dedupeKey = j.dedupeKey
  payload : j'.payload = j.payload

theorem SameJob.refl (j : DurableJob) : SameJob j j := ⟨rfl, rfl, rfl, rfl⟩

theorem SameJob.trans {j₁ j₂ j₃ : DurableJob} (h : SameJob j₁ j₂) (h' : SameJob j₂ j₃) :
    SameJob j₁ j₃ :=
  ⟨h'.userId.trans h.userId, h'.kind.trans h.kind, h'.dedupeKey.trans h.dedupeKey,
    h'.payload.trans h.payload⟩

theorem SameJob.symm {j' : DurableJob} (h : SameJob j j') : SameJob j' j :=
  ⟨h.userId.symm, h.kind.symm, h.dedupeKey.symm, h.payload.symm⟩

/-- A job that is claimed is a row that is ready. -/
theorem readyJobs_mem {kind : DurableJobKind} {now : Timestamp} {limit : ℕ} {locked : UUID → Bool}
    (hj : j ∈ readyJobs kind now limit locked t) : j ∈ t ∧ claimReadyWhere kind now j = true := by
  have hsorted := (List.mem_insertionSort _).mp (List.mem_of_mem_take hj)
  obtain ⟨hmem, hp⟩ := List.mem_filter.mp hsorted
  exact ⟨hmem, by simp only [Bool.and_eq_true] at hp; exact hp.1⟩

/-- What the sweep makes of a job. -/
inductive SweepMove (now : Timestamp) (reached : UUID → Bool) : DurableJob → DurableJob → Prop
  | kept {j : DurableJob} : SweepMove now reached j j
  | requeued {j : DurableJob} (hreached : reached j.id = true) (hp : retryableWhere now j = true) :
      SweepMove now reached j (retryableValues now j)
  | givenUp {j : DurableJob} (hreached : reached j.id = true) (hp : exhaustedWhere now j = true) :
      SweepMove now reached j (exhaustedValues now j)

theorem sweepMove_requeueExpired (now : Timestamp) (reached : UUID → Bool) :
    t.Moves (SweepMove now reached) (requeueExpired now reached t) := by
  have hretry : t.Moves (fun j j' => j' = j ∨
      (reached j.id && retryableWhere now j) = true ∧ j' = retryableValues now j)
      (t.update (fun j => reached j.id && retryableWhere now j) (retryableValues now)
        fun _ _ _ h => h) :=
    .update (fun _ => .inl rfl) fun _ _ hp => .inr ⟨hp, rfl⟩
  refine hretry.trans (Q := fun j j' => j' = j ∨
    (reached j.id && exhaustedWhere now j) = true ∧ j' = exhaustedValues now j)
    (.update (fun _ => .inl rfl) fun _ _ hp => .inr ⟨hp, rfl⟩) ?_
  rintro j _ _ (rfl | ⟨hp, rfl⟩) (rfl | ⟨hp', rfl⟩)
  · exact .kept
  · exact .givenUp (Bool.and_eq_true_iff.mp hp').1 (Bool.and_eq_true_iff.mp hp').2
  · exact .requeued (Bool.and_eq_true_iff.mp hp).1 (Bool.and_eq_true_iff.mp hp).2
  · -- the second statement reaches no row that the first one changed
    simp [exhaustedWhere, expired, retryableValues] at hp'

/-- What a claim makes of a job: the sweep, and then it may be handed out. -/
inductive ClaimMove (kind : DurableJobKind) (owner : String) (now leaseUntil : Timestamp)
    (reached : UUID → Bool) (j : DurableJob) : DurableJob → Prop
  | swept {j' : DurableJob} (hmove : SweepMove now reached j j') :
      ClaimMove kind owner now leaseUntil reached j j'
  | claimed {j₁ : DurableJob} (hmove : SweepMove now reached j j₁)
      (hp : claimReadyWhere kind now j₁ = true) :
      ClaimMove kind owner now leaseUntil reached j (claimReadyValues owner now leaseUntil j₁)

theorem claimMove_claimReadyJobs {kind : DurableJobKind} {owner : String}
    {now leaseUntil : Timestamp} {limit : ℕ} {reached locked : UUID → Bool} :
    t.Moves (ClaimMove kind owner now leaseUntil reached)
      (claimReadyJobs kind owner now leaseUntil limit reached locked t).1 := by
  have hclaim : (requeueExpired now reached t).Moves (fun j j' => j' = j ∨
      claimReadyWhere kind now j = true ∧ j' = claimReadyValues owner now leaseUntil j)
      (claimReadyJobs kind owner now leaseUntil limit reached locked t).1 :=
    .update (fun _ => .inl rfl) fun j _ hp =>
      .inr ⟨(readyJobs_mem (of_decide_eq_true hp)).2, rfl⟩
  refine (sweepMove_requeueExpired now reached).trans hclaim ?_
  rintro j j₁ j₂ hmove (rfl | ⟨hp, rfl⟩)
  · exact .swept hmove
  · exact .claimed hmove hp

theorem SweepMove.same {now : Timestamp} {reached : UUID → Bool} {j' : DurableJob}
    (h : SweepMove now reached j j') : SameJob j j' := by
  cases h <;> exact ⟨rfl, rfl, rfl, rfl⟩

theorem ClaimMove.id {kind : DurableJobKind} {owner : String} {now leaseUntil : Timestamp}
    {reached : UUID → Bool} {j' : DurableJob}
    (h : ClaimMove kind owner now leaseUntil reached j j') : j'.id = j.id := by
  cases h with
  | swept hmove => cases hmove <;> rfl
  | claimed hmove hp => cases hmove <;> rfl

theorem ClaimMove.same {kind : DurableJobKind} {owner : String} {now leaseUntil : Timestamp}
    {reached : UUID → Bool} {j' : DurableJob}
    (h : ClaimMove kind owner now leaseUntil reached j j') : SameJob j j' := by
  cases h with
  | swept hmove => exact hmove.same
  | claimed hmove hp => exact hmove.same.trans ⟨rfl, rfl, rfl, rfl⟩

/-- A job that is not swept is one of those that are handed out. -/
theorem claimed_or_swept (kind : DurableJobKind) (owner : String) (now leaseUntil : Timestamp)
    (limit : ℕ) (reached locked : UUID → Bool) :
    t.Moves (fun j j' => SweepMove now reached j j' ∨ j'.id = j.id ∧ SameJob j j' ∧
        j' ∈ (claimReadyJobs kind owner now leaseUntil limit reached locked t).2)
      (claimReadyJobs kind owner now leaseUntil limit reached locked t).1 := by
  have hclaim : (requeueExpired now reached t).Moves (fun j j' => j' = j ∨
      j' = claimReadyValues owner now leaseUntil j ∧
        j' ∈ (claimReadyJobs kind owner now leaseUntil limit reached locked t).2)
      (claimReadyJobs kind owner now leaseUntil limit reached locked t).1 :=
    .update (fun _ => .inl rfl) fun j _ hp =>
      .inr ⟨rfl, List.mem_map_of_mem (of_decide_eq_true hp)⟩
  refine (sweepMove_requeueExpired now reached).trans hclaim ?_
  rintro j j₁ j₂ hmove (rfl | ⟨rfl, hmem⟩)
  · exact .inl hmove
  · refine .inr ⟨?_, hmove.same.trans ⟨rfl, rfl, rfl, rfl⟩, hmem⟩
    cases hmove <;> rfl

theorem claimed_length {kind : DurableJobKind} {owner : String} {now leaseUntil : Timestamp}
    {limit : ℕ} {reached locked : UUID → Bool} :
    (claimReadyJobs kind owner now leaseUntil limit reached locked t).2.length ≤ limit := by
  unfold claimReadyJobs claimReady readyJobs
  rw [List.length_map]
  exact List.length_take_le _ _

/-- A job that was claimed is there, and it was ready after the sweep. -/
theorem mem_of_claimed {kind : DurableJobKind} {owner : String} {now leaseUntil : Timestamp}
    {limit : ℕ} {reached locked : UUID → Bool} {job : DurableJob}
    (h : job ∈ (claimReadyJobs kind owner now leaseUntil limit reached locked t).2) :
    job ∈ (claimReadyJobs kind owner now leaseUntil limit reached locked t).1 ∧
      job.kind = kind ∧ ∃ j ∈ requeueExpired now reached t, claimReadyWhere kind now j = true ∧
        job = claimReadyValues owner now leaseUntil j := by
  obtain ⟨j, hj, rfl⟩ := List.mem_map.mp h
  obtain ⟨hmem, hp⟩ := readyJobs_mem hj
  unfold claimReadyJobs claimReady
  exact ⟨List.mem_map.mpr ⟨j, hmem, Table.updateRow_pos (decide_eq_true hj)⟩,
    (of_decide_eq_true hp).1, j, hmem, hp, rfl⟩

/-! ## One statement -/

/-- What a statement does to the lease of one job, as its answer shows it. -/
def LeaseStep (op : JobOp) (reply : JobReply) (j j' : DurableJob) : Prop :=
  j'.id = j.id ∧ ∃ e, Lease.Step j.lease e j'.lease ∧
    claimsOf j.id [(op, reply)] = e.grants ∧ releasesOf j.id [(op, reply)] = e.releases

theorem claimsOf_cons (jobId : UUID) (op : JobOp) (reply : JobReply)
    (replies : List (JobOp × JobReply)) :
    claimsOf jobId ((op, reply) :: replies) = claimsOf jobId [(op, reply)] ++ claimsOf jobId replies := by
  simp [claimsOf]

theorem releasesOf_cons (jobId : UUID) (op : JobOp) (reply : JobReply)
    (replies : List (JobOp × JobReply)) :
    releasesOf jobId ((op, reply) :: replies) =
      releasesOf jobId [(op, reply)] ++ releasesOf jobId replies := by
  simp [releasesOf]

theorem releasesOf_settle (jobId id : UUID) (owner : String) (claimEpoch : ℕ)
    (status : DurableJobStatus) (now : Timestamp) (errorCode : Option String) (b : Bool) :
    releasesOf jobId [(.settle id owner claimEpoch status now errorCode, .flag b)] =
      if b = true ∧ id = jobId then [claimEpoch] else [] := by
  cases b <;> simp [releasesOf]

theorem releasesOf_releaseForRetry (jobId id : UUID) (owner : String) (claimEpoch : ℕ)
    (availableAt now : Timestamp) (errorCode : String) (b : Bool) :
    releasesOf jobId [(.releaseForRetry id owner claimEpoch availableAt now errorCode, .flag b)] =
      if b = true ∧ id = jobId then [claimEpoch] else [] := by
  cases b <;> simp [releasesOf]

/-- A job is claimed once. -/
theorem readyJobs_nodup {kind : DurableJobKind} {now : Timestamp} {limit : ℕ}
    {locked : UUID → Bool} : (readyJobs kind now limit locked t).Pairwise fun j j' => j.id ≠ j'.id := by
  have hrows : t.rows.Pairwise fun j j' => j.id ≠ j'.id :=
    t.consistent.imp fun hn hid => hn (.inl hid)
  have hsorted := (List.perm_insertionSort (fun j j' => served j ≤ served j')
    (t.select fun j => claimReadyWhere kind now j && !locked j.id)).symm.pairwise
      (hrows.filter _) fun h => h.symm
  exact hsorted.sublist (List.take_sublist _ _)

/-- The answer of a claim names the new epoch of a job that it claimed, and no other job. -/
theorem claimsOf_claimReady {op : JobOp} {owner : String} {now leaseUntil : Timestamp}
    {jobs : List DurableJob} (hnodup : jobs.Pairwise fun j j' => j.id ≠ j'.id)
    (hjobs : ∀ j' ∈ jobs, j'.id = j.id → j' = j) :
    claimsOf j.id [(op, .jobs (jobs.map (claimReadyValues owner now leaseUntil)))] =
      if j ∈ jobs then [j.claimEpoch + 1] else [] := by
  simp only [claimsOf, List.flatMap_cons, List.flatMap_nil, List.append_nil]
  induction jobs with
  | nil => rfl
  | cons k jobs ih =>
    obtain ⟨hk, hrest⟩ := List.pairwise_cons.mp hnodup
    have ih' := ih hrest fun j' hj' => hjobs j' (.tail _ hj')
    by_cases hid : k.id = j.id
    · obtain rfl := hjobs k (.head _) hid
      have hnot : k ∉ jobs := fun hmem => hk k hmem rfl
      rw [if_neg hnot] at ih'
      simp only [List.map_cons, List.filter_cons, claimReadyValues, decide_true, if_true] at ih' ⊢
      rw [ih', if_pos List.mem_cons_self]
    · have hne : j ≠ k := fun h => hid (h ▸ rfl)
      simp only [List.map_cons, List.filter_cons, claimReadyValues, hid, decide_false,
        Bool.false_eq_true, if_false] at ih' ⊢
      rw [ih']
      simp [hne]

/-- A job whose lease was taken away, if it had one. -/
def Revoked (j j' : DurableJob) : Prop := j'.id = j.id ∧ Lease.Step j.lease .silent j'.lease

theorem Revoked.refl (j : DurableJob) : Revoked j j := ⟨rfl, .keep⟩

theorem Revoked.trans {j₁ j₂ j₃ : DurableJob} (h : Revoked j₁ j₂) (h' : Revoked j₂ j₃) :
    Revoked j₁ j₃ := ⟨h'.1.trans h.1, h.2.silent_trans h'.2⟩

/-- A step that nobody is told about. -/
theorem LeaseStep.silent {op : JobOp} {reply : JobReply} {j j' : DurableJob} (hid : j'.id = j.id)
    (hstep : Lease.Step j.lease .silent j'.lease) (hclaims : claimsOf j.id [(op, reply)] = [])
    (hreleases : releasesOf j.id [(op, reply)] = []) : LeaseStep op reply j j' :=
  ⟨hid, .silent, hstep, hclaims, hreleases⟩

/-- What an update does to one row. -/
theorem exists_leaseStep {op : JobOp} {reply : JobReply} {p : DurableJob → Bool}
    {f : DurableJob → DurableJob} {hrows} (hj : j ∈ t)
    (hpos : p j = true → LeaseStep op reply j (f j))
    (hneg : p j = false → LeaseStep op reply j j) :
    ∃ j' ∈ (⟨t.rows.map (Table.updateRow p f), hrows⟩ : Table DurableJob), LeaseStep op reply j j' := by
  refine ⟨_, Table.updateRow_mem hj, ?_⟩
  cases hp : p j with
  | true => rw [Table.updateRow_pos hp]; exact hpos hp
  | false => rw [Table.updateRow_neg hp]; exact hneg hp

/-- A statement that gives a claim back, `settle` or `release_for_retry`: `f` is what it writes. -/
theorem leaseStep_release {op : JobOp} {jobId : UUID} {owner : String} {claimEpoch : ℕ}
    {now : Timestamp} {f : DurableJob → DurableJob} {hrows}
    (hclaims : ∀ b, claimsOf j.id [(op, .flag b)] = [])
    (hreleases : ∀ b, releasesOf j.id [(op, .flag b)] =
      if b = true ∧ jobId = j.id then [claimEpoch] else [])
    (hid : (f j).id = j.id) (hlease : (f j).lease = ⟨j.claimEpoch, none⟩) (hj : j ∈ t) :
    ∃ j' ∈ (⟨t.rows.map (Table.updateRow (settleWhere jobId owner claimEpoch now) f), hrows⟩ :
      Table DurableJob),
      LeaseStep op (.flag (t.rowcount (settleWhere jobId owner claimEpoch now) == 1)) j j' := by
  have hjob : ∀ k, settleWhere jobId owner claimEpoch now k = true → k.id = jobId := fun k hk =>
    (heldBy_iff.mp (settleWhere_iff.mp hk).1).1
  refine exists_leaseStep hj (fun hp => ?_) fun hp => ?_
  · have hheld := (settleWhere_iff.mp hp).1
    obtain ⟨hk, -, -, hepoch⟩ := heldBy_iff.mp hheld
    refine ⟨hid, .released j.claimEpoch, ?_, hclaims _, ?_⟩
    · rw [hlease]
      exact .release (lease_isSome_of_heldBy hheld)
    · rw [rowcount_of_id hjob hj hk, hp, hreleases, if_pos ⟨rfl, hk.symm⟩, hepoch]
      rfl
  · refine .silent rfl .keep (hclaims _) ?_
    rw [hreleases, if_neg]
    rintro ⟨hone, hk⟩
    rw [rowcount_of_id hjob hj hk.symm, hp] at hone
    cases hone

/-- Every statement makes a step of the lease of every job. -/
theorem commitJob_step (op : JobOp) (t : Table DurableJob) (hj : j ∈ t) :
    ∃ j' ∈ (commitJob op t).1, LeaseStep op (commitJob op t).2 j j' := by
  cases op with
  | add job =>
    refine ⟨j, ?_, ?_⟩
    · simp only [commitJob]
      cases job.postInit with
      | error message => exact hj
      | ok job =>
        cases hins : t.insert? job with
        | none => simpa [hins] using hj
        | some t' => simpa [hins] using (Table.mem_insert? hins).mpr (.inl hj)
    · simp only [commitJob]
      cases job.postInit <;> exact .silent rfl .keep rfl rfl
  | claimReady kind owner now leaseUntil limit locked =>
    let op : JobOp := .claimReady kind owner now leaseUntil limit locked
    have hclaims : claimsOf j.id [(op, (commitJob op t).2)] =
        if j ∈ readyJobs kind now limit locked t then [j.claimEpoch + 1] else [] :=
      claimsOf_claimReady readyJobs_nodup fun j' hj' hid => job_ext (readyJobs_mem hj').1 hj hid
    refine exists_leaseStep hj (fun hp => ?_) fun hp => ?_
    · rw [if_pos (by simpa using hp)] at hclaims
      exact ⟨rfl, .granted (j.claimEpoch + 1), .grant, hclaims, rfl⟩
    · rw [if_neg (by simpa using hp)] at hclaims
      exact .silent rfl .keep hclaims rfl
  | settle jobId owner claimEpoch status now errorCode =>
    refine leaseStep_release (fun _ => rfl) (releasesOf_settle _ _ _ _ _ _ _) rfl ?_ hj
    cases status <;> rfl
  | releaseForRetry jobId owner claimEpoch availableAt now errorCode =>
    exact leaseStep_release (fun _ => rfl) (releasesOf_releaseForRetry _ _ _ _ _ _ _) rfl rfl hj
  | requeueExpired now reached =>
    have hretryable : ∀ k, Revoked k (retryableValues now k) := fun _ => ⟨rfl, .revoke⟩
    have hexhausted : ∀ k, Revoked k (exhaustedValues now k) := fun _ => ⟨rfl, .revoke⟩
    have hrevoke : t.Moves Revoked (requeueExpired now reached t) :=
      (Table.Moves.update .refl fun k _ _ => hretryable k).trans
        (Table.Moves.update .refl fun k _ _ => hexhausted k) fun _ _ _ => .trans
    obtain ⟨j', hj', hid, hstep⟩ := hrevoke.exists_mem hj
    exact ⟨j', hj', .silent hid hstep rfl rfl⟩
  | renew jobId owner claimEpoch leaseUntil now =>
    exact exists_leaseStep hj (fun _ => .silent rfl .keep rfl rfl) fun _ => .silent rfl .keep rfl rfl
  | resume userId dedupeKey now =>
    refine exists_leaseStep hj (fun hp => ?_) fun _ => .silent rfl .keep rfl rfl
    have hfree : (resumeValues now j).lease = j.lease := by
      simp only [resumeWhere, decide_eq_true_eq] at hp
      obtain ⟨-, -, hstatus | hstatus⟩ := hp <;> simp [DurableJob.lease, resumeValues, hstatus]
    exact .silent rfl (hfree ▸ .keep) rfl rfl
  | cancel userId dedupeKey now =>
    exact exists_leaseStep hj (fun _ => .silent rfl .revoke rfl rfl) fun _ =>
      .silent rfl .keep rfl rfl

/-! ## Every history of the queue -/

/-- The answers given so far fit the leases of the jobs. -/
structure ClaimsFit (replies : List (JobOp × JobReply)) (t : Table DurableJob) : Prop where
  fenced : ∀ j ∈ t, j.lease.Fenced (claimsOf j.id replies) (releasesOf j.id replies)
  absent : ∀ jobId, (∀ j ∈ t, j.id ≠ jobId) →
    claimsOf jobId replies = [] ∧ releasesOf jobId replies = []

theorem not_settled_of_absent {jobId id : UUID} {owner : String} {claimEpoch : ℕ} {now : Timestamp}
    (h : ∀ j ∈ t, j.id ≠ jobId) :
    ¬((t.rowcount (settleWhere id owner claimEpoch now) == 1) = true ∧ id = jobId) := by
  rintro ⟨hone, rfl⟩
  obtain ⟨j, hj, hp⟩ := Table.exists_of_rowcount_eq_one (by simpa using hone)
  exact h j hj (heldBy_iff.mp (settleWhere_iff.mp hp).1).1

/-- No answer speaks of a job that is not there. -/
theorem commitJob_absent (op : JobOp) {jobId : UUID} (h : ∀ j ∈ t, j.id ≠ jobId) :
    claimsOf jobId [(op, (commitJob op t).2)] = [] ∧
      releasesOf jobId [(op, (commitJob op t).2)] = [] := by
  cases op with
  | add job => simp only [commitJob]; cases job.postInit <;> exact ⟨rfl, rfl⟩
  | claimReady kind owner now leaseUntil limit locked =>
    refine ⟨?_, rfl⟩
    have hnone : ∀ j ∈ readyJobs kind now limit locked t, j.id ≠ jobId := fun j hj =>
      h j (readyJobs_mem hj).1
    simpa [commitJob, claimReady, claimsOf, claimReadyValues] using hnone
  | settle id owner claimEpoch status now errorCode =>
    exact ⟨rfl, (releasesOf_settle ..).trans (if_neg (not_settled_of_absent h))⟩
  | releaseForRetry id owner claimEpoch availableAt now errorCode =>
    exact ⟨rfl, (releasesOf_releaseForRetry ..).trans (if_neg (not_settled_of_absent h))⟩
  | _ => exact ⟨rfl, rfl⟩

theorem ClaimsFit.step {replies : List (JobOp × JobReply)} (h : ClaimsFit replies t) (op : JobOp) :
    ClaimsFit ((op, (commitJob op t).2) :: replies) (commitJob op t).1 where
  fenced j' hj' := by
    rw [claimsOf_cons, releasesOf_cons]
    by_cases hold : ∃ j ∈ t, j.id = j'.id
    · obtain ⟨j, hj, hid⟩ := hold
      obtain ⟨j'', hj'', hid'', e, hstep, hclaims, hreleases⟩ := commitJob_step op t hj
      obtain rfl := job_ext hj' hj'' (hid.symm.trans hid''.symm)
      rw [← hid, hclaims, hreleases]
      exact (h.fenced j hj).step hstep
    · have habsent : ∀ j ∈ t, j.id ≠ j'.id := fun j hj hid => hold ⟨j, hj, hid⟩
      rw [(commitJob_absent op habsent).1, (commitJob_absent op habsent).2,
        (h.absent _ habsent).1, (h.absent _ habsent).2]
      exact .nil _
  absent jobId hnone := by
    have habsent : ∀ j ∈ t, j.id ≠ jobId := by
      intro j hj hid
      obtain ⟨j', hj', hid', -⟩ := commitJob_step op t hj
      exact hnone j' hj' (hid'.trans hid)
    rw [claimsOf_cons, releasesOf_cons, (commitJob_absent op habsent).1,
      (commitJob_absent op habsent).2]
    exact h.absent jobId habsent

/-- The invariants of the queue are those of its log. -/
theorem jobQueue_stable :
    Program.Stable jobQueue (fun _ _ _ => True) (fun _ => True) fun _ _ => True where
  init _ _ := trivial
  refl _ := trivial
  trans _ _ _ _ _ := trivial
  step _ _ _ _ _ _ := ⟨trivial, trivial⟩

theorem claimsFit {h : History (Table DurableJob) JobOp JobReply} (hr : jobQueue.Reachable h) :
    ClaimsFit h.replies h.cur := by
  refine jobQueue_stable.log_induction ClaimsFit ?_ ?_ hr
  · intro t ht
    obtain rfl : t = .empty := ht
    exact ⟨fun j hj => absurd hj Table.not_mem_empty, fun _ _ => ⟨rfl, rfl⟩⟩
  · exact fun op _ _ _ _ _ _ hfit => hfit.step op

/-- A statement that presents a claim which is not the present one of the job. -/
theorem commitJob_of_not_held {op : JobOp} {jobId : UUID} {owner : String} {claimEpoch : ℕ}
    (hop : op.presents jobId owner claimEpoch) (h : ∀ j ∈ t, heldBy jobId owner claimEpoch j = false) :
    commitJob op t = (t, .flag false) := by
  have hsettle : ∀ now, t.rowcount (settleWhere jobId owner claimEpoch now) = 0 := fun now =>
    Table.rowcount_eq_zero.mpr fun j hj => by simp [settleWhere, h j hj]
  have hheld : t.rowcount (heldBy jobId owner claimEpoch) = 0 := Table.rowcount_eq_zero.mpr h
  rcases hop with ⟨status, now, errorCode, rfl⟩ | ⟨availableAt, now, errorCode, rfl⟩ |
    ⟨leaseUntil, now, rfl⟩
  · exact Prod.ext (Table.update_eq_self (hsettle now)) (by simp [commitJob, settle, hsettle now])
  · exact Prod.ext (Table.update_eq_self (hsettle now))
      (by simp [commitJob, releaseForRetry, hsettle now])
  · exact Prod.ext (Table.update_eq_self hheld) (by simp [commitJob, renew, hheld])

/-- In every history of the queue and for every job: each claim is handed out with a greater epoch
than the ones before it, at most one `settle` or `release_for_retry` succeeds with an epoch, and a
statement that presents a claim which is not the present one of the job fails and changes nothing. -/
theorem job_fencing {h : History (Table DurableJob) JobOp JobReply} (hr : jobQueue.Reachable h)
    (jobId : UUID) :
    (claimsOf jobId h.replies).Pairwise (· > ·) ∧ (releasesOf jobId h.replies).Nodup ∧
      ∀ op owner claimEpoch, op.presents jobId owner claimEpoch →
        (∀ j ∈ h.cur, heldBy jobId owner claimEpoch j = false) →
        commitJob op h.cur = (h.cur, .flag false) := by
  have hfit := claimsFit hr
  have hfenced : ∃ l : Lease String,
      l.Fenced (claimsOf jobId h.replies) (releasesOf jobId h.replies) := by
    by_cases hold : ∃ j ∈ h.cur, j.id = jobId
    · obtain ⟨j, hj, rfl⟩ := hold
      exact ⟨j.lease, hfit.fenced j hj⟩
    · have habsent := hfit.absent jobId fun j hj hid => hold ⟨j, hj, hid⟩
      rw [habsent.1, habsent.2]
      exact ⟨⟨0, none⟩, .nil _⟩
  obtain ⟨l, hl⟩ := hfenced
  exact ⟨hl.increasing, hl.once, fun _ _ _ hop hnone => commitJob_of_not_held hop hnone⟩

/-- A job of which two workers present a claim: `w` lets its lease run out, `x` settles. -/
def takenOverJob : History (Table DurableJob) JobOp JobReply :=
  jobQueue.serial .empty
    [.add
        { userId := 1, kind := .agentRun, dedupeKey := "k", payload := [], id := 7, availableAt := 0,
          createdAt := 0, updatedAt := 0 },
      .claimReady .agentRun "w" 0 5 1 fun _ => false, .requeueExpired 6 fun _ => true,
      .claimReady .agentRun "x" 7 20 1 fun _ => false, .settle 7 "w" 1 .completed 8 none,
      .settle 7 "x" 2 .completed 9 none]

theorem job_fencing_takenOverJob :
    (claimsOf 7 takenOverJob.replies).Pairwise (· > ·) ∧
      claimsOf 7 takenOverJob.replies = [2, 1] ∧ releasesOf 7 takenOverJob.replies = [2] :=
  ⟨(job_fencing (jobQueue.serial_reachable rfl _) 7).1, by decide, by decide⟩

end Runtime
