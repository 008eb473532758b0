import Mathlib.Data.List.Sort
import Mathlib.Data.Prod.Lex
import Mathlib.Data.Int.Order.Basic
import Laoshiren.Foundation.Table
import Laoshiren.Runtime.Entities

/-!
# Runtime repositories

The statements that the repositories send to the database, as functions on tables. A conditional
update is its condition (`…Where`), what it assigns (`…Values`) and the statement built from both.
A comparison with `NULL` does not hold. What a statement takes from the clock or from `uuid4()` is
an argument.
-/

namespace Runtime

/-! ## Unique constraints -/

instance : Row Thread where
  conflict r r' := r.id = r'.id ∨ r.userId = r'.userId ∧ r.idempotencyKey = r'.idempotencyKey
  decConflict _ _ := inferInstanceAs (Decidable (_ ∨ _))
  symm _ _ := Or.imp Eq.symm (And.imp Eq.symm Eq.symm)

instance : Row Message where
  conflict r r' := r.id = r'.id
  decConflict _ _ := inferInstanceAs (Decidable (_ = _))
  symm _ _ := Eq.symm

instance : Row AgentRun where
  conflict r r' := r.id = r'.id ∨ r.userId = r'.userId ∧ r.idempotencyKey = r'.idempotencyKey
  decConflict _ _ := inferInstanceAs (Decidable (_ ∨ _))
  symm _ _ := Or.imp Eq.symm (And.imp Eq.symm Eq.symm)

instance : Row RunEvent where
  conflict r r' := r.id = r'.id ∨ r.runId = r'.runId ∧ r.sequence = r'.sequence
  decConflict _ _ := inferInstanceAs (Decidable (_ ∨ _))
  symm _ _ := Or.imp Eq.symm (And.imp Eq.symm Eq.symm)

/-- `uq_run_interactions_one_pending`: a Run has one pending Interaction at most. -/
instance : Row RunInteraction where
  conflict r r' := r.id = r'.id ∨ r.runId = r'.runId ∧ r.status = .pending ∧ r'.status = .pending
  decConflict _ _ := inferInstanceAs (Decidable (_ ∨ _))
  symm _ _ := Or.imp Eq.symm fun ⟨h, hr, hr'⟩ => ⟨h.symm, hr', hr⟩

instance : Row ToolExecution where
  conflict r r' := r.id = r'.id ∨ r.runId = r'.runId ∧ r.actionId = r'.actionId
  decConflict _ _ := inferInstanceAs (Decidable (_ ∨ _))
  symm _ _ := Or.imp Eq.symm (And.imp Eq.symm Eq.symm)

instance : Row DurableJob where
  conflict r r' := r.id = r'.id ∨ r.userId = r'.userId ∧ r.dedupeKey = r'.dedupeKey
  decConflict _ _ := inferInstanceAs (Decidable (_ ∨ _))
  symm _ _ := Or.imp Eq.symm (And.imp Eq.symm Eq.symm)

/-- A row of `run_operations`: what `record_operation` writes. -/
structure RunOperation where
  userId : UUID
  runId : UUID
  key : String
  operation : String
  targetVersion : ℕ
  deriving DecidableEq

instance : Row RunOperation where
  conflict r r' := r.userId = r'.userId ∧ r.key = r'.key
  decConflict _ _ := inferInstanceAs (Decidable (_ ∧ _))
  symm _ _ := And.imp Eq.symm Eq.symm

/-! ## Interactions -/

namespace InteractionRepository

def get (userId runId interactionId : UUID) (t : Table RunInteraction) : Option RunInteraction :=
  t.get fun r => r.id = interactionId ∧ r.runId = runId ∧ r.userId = userId

def resolveWhere (interaction r : RunInteraction) : Bool :=
  r.id = interaction.id ∧ r.status = .pending

def resolveValues (interaction r : RunInteraction) : RunInteraction :=
  { r with
    status := interaction.status
    responsePayload := interaction.responsePayload
    resolvedAt := interaction.resolvedAt }

theorem resolve_keeps (interaction : RunInteraction) :
    Table.Keeps (resolveWhere interaction) (resolveValues interaction) := by
  intro r hr r' hc
  have hp : r.status = .pending := by
    simp only [resolveWhere, decide_eq_true_eq] at hr
    exact hr.2
  exact hc.imp id fun ⟨hrun, _, hp'⟩ => ⟨hrun, hp, hp'⟩

def resolve (interaction : RunInteraction) (t : Table RunInteraction) : Table RunInteraction :=
  t.update (resolveWhere interaction) (resolveValues interaction) (resolve_keeps interaction)

end InteractionRepository

/-! ## Runs -/

namespace RunRepository

/-- The insert leaves the columns of the active time and of the terminal output to their defaults. -/
def add (run : AgentRun) (t : Table AgentRun) : Option (Table AgentRun) :=
  t.insert? { run with
    activeTimeUsedMs := 0, activeStartedAt := none, terminalOutput := none, graphTerminalAt := none }

def get (userId runId : UUID) (t : Table AgentRun) : Option AgentRun :=
  t.get fun r => r.id = runId ∧ r.userId = userId

def getByIdempotency (userId : UUID) (key : String) (t : Table AgentRun) : Option AgentRun :=
  t.get fun r => r.userId = userId ∧ r.idempotencyKey = key

/-- A RUNNING row whose lease is missing or over. -/
def abandoned (now : Timestamp) (r : AgentRun) : Bool :=
  r.status = .running ∧ ∀ t ∈ r.leaseExpiresAt, t ≤ now

def listRecoverable (now : Timestamp) (limit : ℕ) (t : Table AgentRun) : List AgentRun :=
  ((t.select fun r => r.status = .queued ∨ abandoned now r).insertionSort fun r r' =>
    toLex (r.createdAt, r.id.toNat) ≤ toLex (r'.createdAt, r'.id.toNat)).take limit

def claimWhere (userId runId : UUID) (now : Timestamp) (r : AgentRun) : Bool :=
  r.id = runId ∧ r.userId = userId ∧ (r.status = .queued ∨ abandoned now r)

def claimValues (owner : String) (claimToken : UUID) (now leaseExpiresAt : Timestamp)
    (r : AgentRun) : AgentRun :=
  { r with
    status := .running
    currentPhase := some "executive"
    statusLabel := some "正在理解并处理"
    claimOwner := some owner
    claimToken := some claimToken
    heartbeatAt := some now
    leaseExpiresAt := some leaseExpiresAt
    attemptCount := r.attemptCount + 1
    startedAt := r.startedAt.or (some now)
    activeStartedAt := r.activeStartedAt.or (some now)
    updatedAt := now
    version := r.version + 1 }

/-- `claim`: the table after the update, and the row that it claimed. -/
def claim (userId runId : UUID) (owner : String) (claimToken : UUID)
    (now leaseExpiresAt : Timestamp) (t : Table AgentRun) : Table AgentRun × Option AgentRun :=
  let p := claimWhere userId runId now
  let t' := t.update p (claimValues owner claimToken now leaseExpiresAt) fun _ _ _ h => h
  (t', if t.rowcount p = 0 then none else t'.get fun r => r.id = runId)

def renewLeaseWhere (userId runId : UUID) (owner : String) (claimToken : UUID) (r : AgentRun) :
    Bool :=
  r.id = runId ∧ r.userId = userId ∧ r.status = .running ∧ r.claimOwner = some owner ∧
    r.claimToken = some claimToken

def renewLeaseValues (now leaseExpiresAt : Timestamp) (r : AgentRun) : AgentRun :=
  { r with heartbeatAt := some now, leaseExpiresAt := some leaseExpiresAt, updatedAt := now }

def renewLease (userId runId : UUID) (owner : String) (claimToken : UUID)
    (now leaseExpiresAt : Timestamp) (t : Table AgentRun) : Table AgentRun × Bool :=
  let p := renewLeaseWhere userId runId owner claimToken
  (t.update p (renewLeaseValues now leaseExpiresAt) fun _ _ _ h => h, t.rowcount p == 1)

def updateWhere (run : AgentRun) (expectedVersion : ℕ) (r : AgentRun) : Bool :=
  r.id = run.id ∧ r.version = expectedVersion

/-- Every column but the identity of the Run and its event counter. -/
def updateValues (run r : AgentRun) : AgentRun :=
  { r with
    status := run.status
    currentPhase := run.currentPhase
    statusLabel := run.statusLabel
    finalMessageId := run.finalMessageId
    interruptId := run.interruptId
    interrupt := run.interrupt
    resumePayload := run.resumePayload
    errorCode := run.errorCode
    claimOwner := run.claimOwner
    claimToken := run.claimToken
    leaseExpiresAt := run.leaseExpiresAt
    heartbeatAt := run.heartbeatAt
    attemptCount := run.attemptCount
    version := run.version
    startedAt := run.startedAt
    activeTimeUsedMs := run.activeTimeUsedMs
    activeStartedAt := run.activeStartedAt
    terminalOutput := run.terminalOutput
    graphTerminalAt := run.graphTerminalAt
    budgetSnapshot := run.budgetSnapshot
    completedAt := run.completedAt
    updatedAt := run.updatedAt }

def update (run : AgentRun) (expectedVersion : ℕ) (t : Table AgentRun) : Table AgentRun × Bool :=
  let p := updateWhere run expectedVersion
  (t.update p (updateValues run) fun _ _ _ h => h, t.rowcount p == 1)

def getOperation (userId : UUID) (key : String) (t : Table RunOperation) : Option (UUID × ℕ) :=
  (t.get fun r => r.userId = userId ∧ r.key = key).map fun r => (r.runId, r.targetVersion)

def countEvent (r : AgentRun) : AgentRun := { r with eventSequence := r.eventSequence + 1 }

/-- The first statement of `append_event`: the table with the event counted, and the number of the
event. -/
def nextSequence (runId : UUID) (t : Table AgentRun) : Table AgentRun × Option ℕ :=
  let t' := t.update (fun r => r.id = runId) countEvent fun _ _ _ h => h
  (t', (t'.get fun r => r.id = runId).map AgentRun.eventSequence)

/-- The cursor of a reader that names the last event it has seen by its id. -/
def sequenceOf (runId eventId : UUID) (t : Table RunEvent) : Option ℕ :=
  (t.get fun e => e.id = eventId ∧ e.runId = runId).map RunEvent.sequence

/-- The events of a Run of the user beyond a number, in order. -/
def listEvents (userId runId : UUID) (afterSequence : Option ℕ) (limit : ℕ) (runs : Table AgentRun)
    (events : Table RunEvent) : List RunEvent :=
  ((events.select fun e =>
      (∃ r ∈ runs.rows, r.id = e.runId ∧ r.userId = userId) ∧ e.runId = runId ∧
        ∀ n ∈ afterSequence, n < e.sequence).insertionSort
    fun e e' => e.sequence ≤ e'.sequence).take limit

end RunRepository

/-! ## Durable jobs -/

namespace DurableJobRepository

def getByDedupeKey (userId : UUID) (dedupeKey : String) (t : Table DurableJob) :
    Option DurableJob :=
  t.get fun j => j.userId = userId ∧ j.dedupeKey = dedupeKey

/-- The order in which ready jobs are served. -/
def served (j : DurableJob) : ℤ ×ₗ Timestamp ×ₗ Timestamp ×ₗ ℕ :=
  toLex (-j.priority, toLex (j.availableAt, toLex (j.createdAt, j.id.toNat)))

def claimReadyWhere (kind : DurableJobKind) (now : Timestamp) (j : DurableJob) : Bool :=
  j.kind = kind ∧ j.status = .ready ∧ j.availableAt ≤ now

def claimReadyValues (owner : String) (now leaseUntil : Timestamp) (j : DurableJob) : DurableJob :=
  { j with
    status := .claimed
    claimedBy := some owner
    claimEpoch := j.claimEpoch + 1
    deliveryAttempt := j.deliveryAttempt + 1
    leaseUntil := some leaseUntil
    updatedAt := now }

/-- The rows that `SELECT … FOR UPDATE SKIP LOCKED` hands out: none that is `locked` by another
open transaction. -/
def readyJobs (kind : DurableJobKind) (now : Timestamp) (limit : ℕ) (locked : UUID → Bool)
    (t : Table DurableJob) : List DurableJob :=
  ((t.select fun j => claimReadyWhere kind now j && !locked j.id).insertionSort fun j j' =>
    served j ≤ served j').take limit

/-- `claim_ready`: the table with the selected rows claimed, and these rows. -/
def claimReady (kind : DurableJobKind) (owner : String) (now leaseUntil : Timestamp) (limit : ℕ)
    (locked : UUID → Bool) (t : Table DurableJob) : Table DurableJob × List DurableJob :=
  let jobs := readyJobs kind now limit locked t
  (t.update (fun j => j ∈ jobs) (claimReadyValues owner now leaseUntil) fun _ _ _ h => h,
    jobs.map (claimReadyValues owner now leaseUntil))

/-- The present claim of a job is the one that is presented. -/
def heldBy (jobId : UUID) (owner : String) (claimEpoch : ℕ) (j : DurableJob) : Bool :=
  j.id = jobId ∧ j.status = .claimed ∧ j.claimedBy = some owner ∧ j.claimEpoch = claimEpoch

/-- The condition of `settle` and of `release_for_retry`. -/
def settleWhere (jobId : UUID) (owner : String) (claimEpoch : ℕ) (now : Timestamp)
    (j : DurableJob) : Bool :=
  heldBy jobId owner claimEpoch j && decide (∃ t ∈ j.leaseUntil, now ≤ t)

def settleValues (status : DurableJobStatus) (now : Timestamp) (errorCode : Option String)
    (j : DurableJob) : DurableJob :=
  { j with
    status, claimedBy := none, leaseUntil := none, lastErrorCode := errorCode, updatedAt := now }

def settle (jobId : UUID) (owner : String) (claimEpoch : ℕ) (status : DurableJobStatus)
    (now : Timestamp) (errorCode : Option String) (t : Table DurableJob) :
    Table DurableJob × Bool :=
  let p := settleWhere jobId owner claimEpoch now
  (t.update p (settleValues status now errorCode) fun _ _ _ h => h, t.rowcount p == 1)

def releaseForRetryValues (availableAt now : Timestamp) (errorCode : String) (j : DurableJob) :
    DurableJob :=
  { j with
    status := .ready, claimedBy := none, leaseUntil := none, availableAt,
    lastErrorCode := some errorCode, updatedAt := now }

def releaseForRetry (jobId : UUID) (owner : String) (claimEpoch : ℕ)
    (availableAt now : Timestamp) (errorCode : String) (t : Table DurableJob) :
    Table DurableJob × Bool :=
  let p := settleWhere jobId owner claimEpoch now
  (t.update p (releaseForRetryValues availableAt now errorCode) fun _ _ _ h => h,
    t.rowcount p == 1)

/-- A claim whose lease is over. -/
def expired (now : Timestamp) (j : DurableJob) : Bool :=
  j.status = .claimed ∧ ∃ t ∈ j.leaseUntil, t < now

def retryableWhere (now : Timestamp) (j : DurableJob) : Bool :=
  expired now j && decide (j.deliveryAttempt < j.maxDeliveryAttempts)

def retryableValues (now : Timestamp) (j : DurableJob) : DurableJob :=
  { j with
    status := .ready, claimedBy := none, leaseUntil := none, availableAt := now, updatedAt := now }

def exhaustedWhere (now : Timestamp) (j : DurableJob) : Bool :=
  expired now j && decide (j.deliveryAttempt ≥ j.maxDeliveryAttempts)

def exhaustedValues (now : Timestamp) (j : DurableJob) : DurableJob :=
  { j with
    status := .failed, claimedBy := none, leaseUntil := none,
    lastErrorCode := some "RECOVERY_EXHAUSTED", updatedAt := now }

/-- `requeue_expired`. Its statements see the rows as they were when each began, so a row that met
the condition only afterwards may be left out: `reached` says which rows they get to. -/
def requeueExpired (now : Timestamp) (reached : UUID → Bool) (t : Table DurableJob) :
    Table DurableJob :=
  (t.update (fun j => reached j.id && retryableWhere now j) (retryableValues now)
    fun _ _ _ h => h).update
      (fun j => reached j.id && exhaustedWhere now j) (exhaustedValues now) fun _ _ _ h => h

def renewValues (leaseUntil now : Timestamp) (j : DurableJob) : DurableJob :=
  { j with leaseUntil := some leaseUntil, updatedAt := now }

def renew (jobId : UUID) (owner : String) (claimEpoch : ℕ) (leaseUntil now : Timestamp)
    (t : Table DurableJob) : Table DurableJob × Bool :=
  let p := heldBy jobId owner claimEpoch
  (t.update p (renewValues leaseUntil now) fun _ _ _ h => h, t.rowcount p == 1)

def resumeWhere (userId : UUID) (dedupeKey : String) (j : DurableJob) : Bool :=
  j.userId = userId ∧ j.dedupeKey = dedupeKey ∧ (j.status = .paused ∨ j.status = .ready)

def resumeValues (now : Timestamp) (j : DurableJob) : DurableJob :=
  { j with status := .ready, availableAt := now, updatedAt := now }

def resume (userId : UUID) (dedupeKey : String) (now : Timestamp) (t : Table DurableJob) :
    Table DurableJob × Bool :=
  let p := resumeWhere userId dedupeKey
  (t.update p (resumeValues now) fun _ _ _ h => h, t.rowcount p == 1)

def cancelWhere (userId : UUID) (dedupeKey : String) (j : DurableJob) : Bool :=
  j.userId = userId ∧ j.dedupeKey = dedupeKey ∧
    (j.status = .ready ∨ j.status = .claimed ∨ j.status = .paused)

def cancelValues (now : Timestamp) (j : DurableJob) : DurableJob :=
  { j with status := .cancelled, claimedBy := none, leaseUntil := none, updatedAt := now }

def cancel (userId : UUID) (dedupeKey : String) (now : Timestamp) (t : Table DurableJob) :
    Table DurableJob × Bool :=
  let p := cancelWhere userId dedupeKey
  (t.update p (cancelValues now) fun _ _ _ h => h, t.rowcount p == 1)

end DurableJobRepository

/-! ## Tool executions -/

namespace ToolExecutionRepository

def get (runId : UUID) (actionId : String) (t : Table ToolExecution) : Option ToolExecution :=
  t.get fun e => e.runId = runId ∧ e.actionId = actionId

def listInProgress (runId : UUID) (t : Table ToolExecution) : List ToolExecution :=
  t.select fun e => e.runId = runId ∧ e.status = .inProgress

/-- `add_if_absent`: an action that has a row is left alone, and any other conflict is an integrity
error. -/
def addIfAbsent (execution : ToolExecution) (t : Table ToolExecution) :
    Option (Table ToolExecution × Bool) :=
  if (get execution.runId execution.actionId t).isSome then some (t, false)
  else (t.insert? execution).map fun t' => (t', true)

def takeoverIfExpiredWhere (executionId : UUID) (now : Timestamp) (e : ToolExecution) : Bool :=
  e.id = executionId ∧ e.status = .inProgress ∧ e.leaseExpiresAt ≤ now

def takeoverIfExpiredValues (now : Timestamp) (owner : String) (claimToken : UUID)
    (leaseExpiresAt : Timestamp) (e : ToolExecution) : ToolExecution :=
  { e with
    claimOwner := owner, claimToken, leaseExpiresAt, attemptCount := e.attemptCount + 1,
    updatedAt := now }

def takeoverIfExpired (execution : ToolExecution) (now : Timestamp) (owner : String)
    (claimToken : UUID) (leaseExpiresAt : Timestamp) (t : Table ToolExecution) :
    Table ToolExecution × Bool :=
  let p := takeoverIfExpiredWhere execution.id now
  (t.update p (takeoverIfExpiredValues now owner claimToken leaseExpiresAt) fun _ _ _ h => h,
    t.rowcount p == 1)

/-- The columns of a settled row. The error code is the `code` of the result. -/
def settledValues (result : Dict) (succeeded : Bool) (now : Timestamp) (e : ToolExecution) :
    ToolExecution :=
  { e with
    status := if succeeded then .succeeded else .failed
    result := some result
    receipt := if succeeded then some result else none
    errorCode := if succeeded then none else some ((result.get "code").getD (.str "TOOL_FAILURE"))
    updatedAt := now }

def completeWhere (runId : UUID) (actionId : String) (owner : String) (claimToken : UUID)
    (e : ToolExecution) : Bool :=
  e.runId = runId ∧ e.actionId = actionId ∧ e.status = .inProgress ∧ e.claimOwner = owner ∧
    e.claimToken = claimToken

def complete (runId : UUID) (actionId : String) (owner : String) (claimToken : UUID)
    (result : Dict) (succeeded : Bool) (now : Timestamp) (t : Table ToolExecution) :
    Table ToolExecution × Bool :=
  let p := completeWhere runId actionId owner claimToken
  (t.update p (settledValues result succeeded now) fun _ _ _ h => h, t.rowcount p == 1)

def markUnknownIfExpiredWhere (executionId : UUID) (now : Timestamp) (e : ToolExecution) : Bool :=
  e.id = executionId ∧ e.status = .inProgress ∧ e.leaseExpiresAt ≤ now ∧ e.replaySafe = false

def markUnknownIfExpiredValues (now : Timestamp) (e : ToolExecution) : ToolExecution :=
  { e with
    status := .unknownOutcome, errorCode := some (.str "UNKNOWN_OUTCOME"), updatedAt := now }

def markUnknownIfExpired (executionId : UUID) (now : Timestamp) (t : Table ToolExecution) :
    Table ToolExecution × Bool :=
  let p := markUnknownIfExpiredWhere executionId now
  (t.update p (markUnknownIfExpiredValues now) fun _ _ _ h => h, t.rowcount p == 1)

def reconcileUnknownWhere (executionId : UUID) (e : ToolExecution) : Bool :=
  e.id = executionId ∧ e.status = .unknownOutcome

def reconcileUnknownValues (result : Dict) (succeeded : Bool) (providerRequestId : Option String)
    (now : Timestamp) (e : ToolExecution) : ToolExecution :=
  { settledValues result succeeded now e with providerRequestId }

/-- Resolve UNKNOWN_OUTCOME only from an explicit provider observation. -/
def reconcileUnknown (executionId : UUID) (result : Dict) (succeeded : Bool)
    (providerRequestId : Option String) (now : Timestamp) (t : Table ToolExecution) :
    Table ToolExecution × Bool :=
  let p := reconcileUnknownWhere executionId
  (t.update p (reconcileUnknownValues result succeeded providerRequestId now) fun _ _ _ h => h,
    t.rowcount p == 1)

end ToolExecutionRepository

end Runtime
