import Laoshiren.Foundation.FencedLease
import Laoshiren.Foundation.ReadCommitted
import Laoshiren.Runtime.Store

/-!
# The job queue

The statements on `durable_jobs`, sent by any number of workers with any arguments. `claim_ready`
selects with `FOR UPDATE SKIP LOCKED` and writes before it lets the rows go, so it is one step; the
rows that other transactions hold at that time are the ones that it skips.
-/

/-!
## Transactions on durable jobs

The claim path that every worker shares, and what the dispatch scanner does with the job of a Run.
-/

namespace Runtime

open Raise

/-- What a worker holds of the job that it claimed. -/
structure DurableJobClaimDTO where
  jobId : UUID
  userId : UUID
  runId : UUID
  claimEpoch : ℕ
  deriving DecidableEq, Repr

/-- `claim_ready_jobs`: leases that are over are swept first, for the jobs of every kind. -/
def claimReadyJobs (kind : DurableJobKind) (owner : String) (now leaseUntil : Timestamp)
    (limit : ℕ) (reached locked : UUID → Bool) (t : Table DurableJob) :
    Table DurableJob × List DurableJob :=
  DurableJobRepository.claimReady kind owner now leaseUntil limit locked
    (DurableJobRepository.requeueExpired now reached t)

/-- The claim of a job that drives a Run. -/
def claimOf (job : DurableJob) : Raises DurableJobClaimDTO := do
  let text ← orRaise (.keyError "run_id") (job.payload.get "run_id")
  let runId ← orRaise (.valueError "badly formed hexadecimal UUID string")
    (text.asStr?.bind UUID.parse?)
  return { jobId := job.id, userId := job.userId, runId, claimEpoch := job.claimEpoch }

/-- `claim_agent_run_jobs`. -/
def claimAgentRunJobs (owner : String) (lease : ℤ) (limit : ℕ) (now : Timestamp)
    (reached locked : UUID → Bool) (s : Store) : Raises (Store × List DurableJobClaimDTO) := do
  ensure (.valueError "Durable Job claim parameters must be positive.")
    (!Text.isBlank owner && decide (0 < lease) && decide (0 < limit))
  let (durableJobs, jobs) :=
    claimReadyJobs .agentRun owner now (now + lease) limit reached locked s.durableJobs
  let claims ← jobs.mapM claimOf
  return ({ s with durableJobs }, claims)

/-- The status that the job of a Run settles to, and its error code. -/
def settledStatus (errorCode : Option String) :
    Option AgentRun → Raises (DurableJobStatus × Option String)
  | none => return (.failed, some "RUN_NOT_FOUND")
  | some run =>
    match run.status with
    | .waitingForUser => return (.paused, errorCode)
    | .cancelled => return (.cancelled, errorCode)
    | .completed | .failed => return (.completed, errorCode)
    | .queued | .running =>
      throw (.invalidStateTransition "Agent Run returned without settling its state.")

/-- `settle_agent_run_job`. -/
def settleAgentRunJob (claim : DurableJobClaimDTO) (owner : String) (errorCode : Option String)
    (now : Timestamp) (view : ℕ → Store) (s : Store) : Raises Store := do
  let (status, errorCode) ←
    settledStatus errorCode (RunRepository.get claim.userId claim.runId (view 0).runs)
  let (durableJobs, settled) := DurableJobRepository.settle claim.jobId owner claim.claimEpoch status
    now errorCode s.durableJobs
  ensure (.invalidStateTransition "Durable Job fencing token was lost.") settled
  return { s with durableJobs }

/-- `renew_agent_run_job`. -/
def renewAgentRunJob (claim : DurableJobClaimDTO) (owner : String) (lease : ℤ) (now : Timestamp)
    (s : Store) : Store × Bool :=
  let (durableJobs, renewed) := DurableJobRepository.renew claim.jobId owner claim.claimEpoch
    (now + lease) now s.durableJobs
  if renewed then ({ s with durableJobs }, true) else (s, false)

end Runtime

/-! ## The job queue -/

namespace Runtime

inductive JobOp where
  | add (job : DurableJob)
  | claimReady (kind : DurableJobKind) (owner : String) (now leaseUntil : Timestamp) (limit : ℕ)
      (locked : UUID → Bool)
  | settle (jobId : UUID) (owner : String) (claimEpoch : ℕ) (status : DurableJobStatus)
      (now : Timestamp) (errorCode : Option String)
  | releaseForRetry (jobId : UUID) (owner : String) (claimEpoch : ℕ) (availableAt now : Timestamp)
      (errorCode : String)
  | requeueExpired (now : Timestamp) (reached : UUID → Bool)
  | renew (jobId : UUID) (owner : String) (claimEpoch : ℕ) (leaseUntil now : Timestamp)
  | resume (userId : UUID) (dedupeKey : String) (now : Timestamp)
  | cancel (userId : UUID) (dedupeKey : String) (now : Timestamp)

inductive JobReply where
  | flag (value : Bool)
  | jobs (jobs : List DurableJob)
  | done

open DurableJobRepository in
/-- What a statement makes of the table, and what it answers. A job that breaks a constraint is not
added. -/
def commitJob (op : JobOp) (t : Table DurableJob) : Table DurableJob × JobReply :=
  match op with
  | .add job =>
    match job.postInit with
    | .ok job => ((t.insert? job).getD t, .done)
    | .error _ => (t, .done)
  | .claimReady kind owner now leaseUntil limit locked =>
    let (t', jobs) := claimReady kind owner now leaseUntil limit locked t
    (t', .jobs jobs)
  | .settle jobId owner claimEpoch status now errorCode =>
    let (t', settled) := settle jobId owner claimEpoch status now errorCode t
    (t', .flag settled)
  | .releaseForRetry jobId owner claimEpoch availableAt now errorCode =>
    let (t', released) := releaseForRetry jobId owner claimEpoch availableAt now errorCode t
    (t', .flag released)
  | .requeueExpired now reached => (requeueExpired now reached t, .done)
  | .renew jobId owner claimEpoch leaseUntil now =>
    let (t', renewed) := renew jobId owner claimEpoch leaseUntil now t
    (t', .flag renewed)
  | .resume userId dedupeKey now =>
    let (t', resumed) := resume userId dedupeKey now t
    (t', .flag resumed)
  | .cancel userId dedupeKey now =>
    let (t', cancelled) := cancel userId dedupeKey now t
    (t', .flag cancelled)

/-- The queue: it starts without jobs. -/
def jobQueue : Program (Table DurableJob) JobOp JobReply where
  init t := t = .empty
  commit op _ t := commitJob op t

/-- The claim epochs of a job that were handed out, latest first. -/
def claimsOf (jobId : UUID) (replies : List (JobOp × JobReply)) : List ℕ :=
  replies.flatMap fun
    | (_, .jobs jobs) => (jobs.filter fun j => j.id = jobId).map DurableJob.claimEpoch
    | _ => []

/-- The claim epochs of a job that were settled or released, latest first. -/
def releasesOf (jobId : UUID) (replies : List (JobOp × JobReply)) : List ℕ :=
  replies.flatMap fun
    | (.settle id _ epoch _ _ _, .flag true) => if id = jobId then [epoch] else []
    | (.releaseForRetry id _ epoch _ _ _, .flag true) => if id = jobId then [epoch] else []
    | _ => []

/-- The statements that present a claim, with the claim. -/
def JobOp.presents (op : JobOp) (jobId : UUID) (owner : String) (claimEpoch : ℕ) : Prop :=
  (∃ status now errorCode, op = .settle jobId owner claimEpoch status now errorCode) ∨
    (∃ availableAt now errorCode,
      op = .releaseForRetry jobId owner claimEpoch availableAt now errorCode) ∨
    ∃ leaseUntil now, op = .renew jobId owner claimEpoch leaseUntil now

/-- A job as a lease: its claim epoch, and who holds it while it is CLAIMED. -/
def DurableJob.lease (j : DurableJob) : Lease String where
  epoch := j.claimEpoch
  holder := if j.status = .claimed then j.claimedBy else none

end Runtime
