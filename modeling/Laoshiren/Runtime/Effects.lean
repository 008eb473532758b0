import Laoshiren.Runtime.System
import Mathlib.Logic.Relation

/-!
# What a transaction can do

The transactions of the Runtime as atomic effects on the tables that decide what happens next: Runs,
Interactions, jobs and the tool ledger. `Facts` leaves the logs out (threads, messages, events and
the operations that were recorded) and the event counter of a Run with them. An effect names the
transaction it belongs to, the rows that the transaction read, and every check that it made on them.
-/

namespace Runtime

/-- A Run without its event counter. -/
def AgentRun.forgetEvents (run : AgentRun) : AgentRun := { run with eventSequence := 0 }

theorem forgetEvents_neutral : Table.Neutral AgentRun.forgetEvents := fun _ _ => Iff.rfl

/-- The tables that decide what the Runtime does next. -/
structure Facts where
  runs : Table AgentRun
  interactions : Table RunInteraction
  durableJobs : Table DurableJob
  toolExecutions : Table ToolExecution

/-- The facts of a store. -/
def Store.facts (s : Store) : Facts where
  runs := s.runs.map AgentRun.forgetEvents forgetEvents_neutral
  interactions := s.interactions
  durableJobs := s.durableJobs
  toolExecutions := s.toolExecutions

/-- A Run as it is created: every column but the ones that identify it has its default. -/
def AgentRun.IsNew (run : AgentRun) : Prop :=
  run =
    { userId := run.userId
      threadId := run.threadId
      trigger := run.trigger
      idempotencyKey := run.idempotencyKey
      id := run.id
      inputMessageId := run.inputMessageId
      budgetSnapshot := run.budgetSnapshot
      createdAt := run.createdAt
      updatedAt := run.updatedAt }

/-- The transitions that write the row of the Run alone, on a Run that the transaction read. -/
inductive Advances : Op → AgentRun → AgentRun → Prop
  | start {c : WorkerCall} {fresh : ℕ → Stamp} {phase label : String} {run run' : AgentRun}
      (haction : c.action = .start phase label)
      (h : run.start (fresh 0).now (some phase) (some label) = .ok run') :
      Advances (.workerTransition c fresh) run run'
  | complete {c : WorkerCall} {fresh : ℕ → Stamp} {content : String} {run run' : AgentRun}
      (haction : c.action = .complete content)
      (h : run.complete (fresh 0).now (fresh 0).id = .ok run') :
      Advances (.workerTransition c fresh) run run'
  | fail {c : WorkerCall} {fresh : ℕ → Stamp} {errorCode : String} {run run' : AgentRun}
      (hrun : run.id = c.runId) (huser : run.userId = c.userId)
      (howns : ownsRun c.claimOwner c.claimToken run = true) (haction : c.action = .fail errorCode)
      (h : run.fail (fresh 0).now errorCode = .ok run') :
      Advances (.workerTransition c fresh) run run'
  | accept {userId runId : UUID} {output : Dict} {owner : String} {token : UUID} {now : Timestamp}
      {run run' : AgentRun} (h : run.acceptTerminalOutput now output = .ok run')
      (hchanged : run'.version ≠ run.version) :
      Advances (.acceptTerminalOutput userId runId output owner token now) run run'

/-- One abandoned Run goes back to the queue. -/
inductive Recovers (view : ℕ → Store) : Table AgentRun → Table AgentRun → Prop
  | run {runs : Table AgentRun} {run run' : AgentRun} {now : Timestamp}
      (hread : run ∈ (view 0).runs) (h : run.recoverAfterCrash now = .ok run')
      (hversion : (RunRepository.update run' run.version runs).2 = true) :
      Recovers view runs (RunRepository.update run' run.version runs).1

/-- What the transactions of the ledger do, with the row that they read and their answer. -/
inductive LedgerEffect (view : ℕ → Store) :
    Op → Table ToolExecution → Table ToolExecution → Reply → Prop
  | idle {op : Op} {t : Table ToolExecution} {reply : Reply}
      (hreply : ∀ claim, reply = .toolClaim claim → claim.acquired = false ∧
        ∃ c fresh existing, op = .claimToolExecution c fresh ∧
          ToolExecutionRepository.get c.runId c.actionId (view 1).toolExecutions = some existing ∧
            existing.result.isSome) : LedgerEffect view op t t reply
  | add {c : ClaimTool} {fresh : ℕ → Stamp} {t t' : Table ToolExecution}
      (habsent : ToolExecutionRepository.get c.runId c.actionId t = none)
      (h : t.insert? (c.execution fresh) = some t') :
      LedgerEffect view (.claimToolExecution c fresh) t t'
        (.toolClaim { acquired := true, claimToken := some (fresh 0).id })
  | markUnknown {c : ClaimTool} {fresh : ℕ → Stamp} {t : Table ToolExecution}
      {existing : ToolExecution}
      (hread : ToolExecutionRepository.get c.runId c.actionId (view 1).toolExecutions =
        some existing)
      (hsafe : existing.replaySafe = c.replaySafe) (hrisky : existing.replaySafe = false)
      (hlease : existing.leaseExpiresAt ≤ (fresh 0).now) :
      LedgerEffect view (.claimToolExecution c fresh) t
        (ToolExecutionRepository.markUnknownIfExpired existing.id (fresh 0).now t).1
        (.toolClaim { acquired := false, blockedReason := some c.blockedReason })
  | takeover {c : ClaimTool} {fresh : ℕ → Stamp} {t : Table ToolExecution}
      {existing : ToolExecution} {acquired : Bool}
      (hread : ToolExecutionRepository.get c.runId c.actionId (view 1).toolExecutions =
        some existing)
      (hsafe : existing.replaySafe = c.replaySafe)
      (hlease : ¬(existing.leaseExpiresAt ≤ (fresh 0).now ∧ existing.replaySafe = false))
      (hacquired : acquired = (ToolExecutionRepository.takeoverIfExpired existing (fresh 0).now
        c.owner (fresh 0).id ((fresh 0).now + c.lease) t).2) :
      LedgerEffect view (.claimToolExecution c fresh) t
        (ToolExecutionRepository.takeoverIfExpired existing (fresh 0).now c.owner (fresh 0).id
          ((fresh 0).now + c.lease) t).1
        (.toolClaim { acquired, claimToken := if acquired then some (fresh 0).id else none })
  | complete {op : Op} {c : ToolClaim} {result : Dict} {succeeded : Bool} {now : Timestamp}
      {t : Table ToolExecution} {reply : Reply}
      (hop : op = .completeToolExecution c result succeeded now ∨
        ∃ toolName outcome, op = .completePersonalStateMutationTool c toolName outcome now)
      (hreply : ∀ claim, reply ≠ .toolClaim claim)
      (h : (ToolExecutionRepository.complete c.runId c.actionId c.owner c.claimToken result
        succeeded now t).2 = true) :
      LedgerEffect view op t (ToolExecutionRepository.complete c.runId c.actionId c.owner
        c.claimToken result succeeded now t).1 reply
  | reconcile {userId runId : UUID} {actionId : String} {result : Dict} {succeeded : Bool}
      {providerRequestId : Option String} {now : Timestamp} {t : Table ToolExecution}
      (execution : ToolExecution) : LedgerEffect view
        (.reconcileUnknownToolExecution userId runId actionId result succeeded providerRequestId now)
        t (ToolExecutionRepository.reconcileUnknown execution.id result succeeded providerRequestId
          now t).1 .done

/-- The user and the idempotency key under which the transaction creates a Run. -/
def Op.createsKey : Op → Option (UUID × String)
  | .createUserRun c _ _ _ => some (c.userId, c.idempotencyKey)
  | .createAutomationRun c _ _ => some (c.userId, "automation-run:" ++ c.occurrenceKey)
  | _ => none

/-- What a transaction does to the facts. -/
inductive Effect (view : ℕ → Store) : Op → Facts → Facts → Prop
  | idle {op : Op} {x : Facts} : Effect view op x x
  | createRun {op : Op} {x : Facts} {run : AgentRun} {stamp : Stamp} {runs : Table AgentRun}
      {durableJobs : Table DurableJob} (hnew : run.IsNew) (hrun : x.runs.insert? run = some runs)
      (hjob : x.durableJobs.insert? (agentRunJob run stamp) = some durableJobs)
      (hop : op.createsKey = some (run.userId, run.idempotencyKey)) :
      Effect view op x { x with runs, durableJobs }
  | claimRun {userId runId : UUID} {owner : String} {lease : ℤ} {fresh : ℕ → Stamp} {x : Facts} :
      Effect view (.claimRun userId runId owner lease fresh) x
        { x with runs := (RunRepository.claim userId runId owner (fresh 0).id (fresh 0).now
            ((fresh 0).now + lease) x.runs).1 }
  | renewRunLease {userId runId : UUID} {owner : String} {token : UUID} {lease : ℤ}
      {now : Timestamp} {x : Facts} :
      Effect view (.renewRunLease userId runId owner token lease now) x
        { x with runs := (RunRepository.renewLease userId runId owner token now (now + lease)
            x.runs).1 }
  | recover {limit : ℕ} {now : Timestamp} {fresh : UUID → Stamp} {x : Facts}
      {runs : Table AgentRun} (h : Relation.ReflTransGen (Recovers view) x.runs runs) :
      Effect view (.recoverPendingRuns limit now fresh) x { x with runs }
  | advance {op : Op} {x : Facts} {run run' : AgentRun} (hread : run ∈ (view 0).runs)
      (h : Advances op run run')
      (hversion : (RunRepository.update run' run.version x.runs).2 = true) :
      Effect view op x { x with runs := (RunRepository.update run' run.version x.runs).1 }
  | wait {c : WorkerCall} {fresh : ℕ → Stamp} {payload : Dict} {interactionId : Option UUID}
      {interruptId : UUID} {x : Facts} {run run' : AgentRun} {interactions : Table RunInteraction}
      (hread : run ∈ (view 0).runs) (hrun : run.id = c.runId)
      (howns : ownsRun c.claimOwner c.claimToken run = true)
      (haction : c.action = .wait payload interactionId) (h : run.waitForUser (fresh 0).now interruptId payload = .ok run')
      (hopened : x.interactions.insert?
        (openedInteraction c.userId run.id interruptId payload (fresh 0).now) = some interactions)
      (hversion : (RunRepository.update run' run.version x.runs).2 = true) :
      Effect view (.workerTransition c fresh) x
        { x with runs := (RunRepository.update run' run.version x.runs).1, interactions }
  | resume {userId runId interruptId : UUID} {response : Dict} {expectedVersion : ℕ} {key : String}
      {fresh : ℕ → Stamp} {x : Facts} {run run' : AgentRun}
      {interaction interaction' : RunInteraction} (hread : run ∈ (view 1).runs)
      (hrun : run.id = runId) (huser : run.userId = userId) (hexpected : run.version = expectedVersion)
      (hfound : InteractionRepository.get userId runId interruptId (view 2).interactions =
        some interaction)
      (hresolve : interaction.resolve (fresh 0).now response = .ok interaction')
      (h : run.resume (fresh 0).now interruptId response = .ok run')
      (hjob : (DurableJobRepository.resume userId (agentRunKey run.id) (fresh 0).now
        x.durableJobs).2 = true)
      (hversion : (RunRepository.update run' run.version x.runs).2 = true) :
      Effect view (.resumeRun userId runId interruptId response expectedVersion key fresh) x
        { x with
          runs := (RunRepository.update run' run.version x.runs).1
          interactions := InteractionRepository.resolve interaction' x.interactions
          durableJobs := (DurableJobRepository.resume userId (agentRunKey run.id) (fresh 0).now
            x.durableJobs).1 }
  | cancel {userId runId : UUID} {expectedVersion : ℕ} {key : String} {fresh : ℕ → Stamp}
      {x : Facts} {run run' : AgentRun}
      (hidle : ToolExecutionRepository.listInProgress runId (view 1).toolExecutions = [])
      (hkey : RunRepository.getOperation userId key (view 2).operations = none)
      (hread : run ∈ (view 3).runs) (hrun : run.id = runId) (huser : run.userId = userId)
      (hexpected : run.version = expectedVersion) (h : run.cancel (fresh 0).now = .ok run')
      (hversion : (RunRepository.update run' run.version x.runs).2 = true) :
      Effect view (.cancelRun userId runId expectedVersion key fresh) x
        { x with
          runs := (RunRepository.update run' run.version x.runs).1
          durableJobs := (DurableJobRepository.cancel userId (agentRunKey run.id) (fresh 0).now
            x.durableJobs).1 }
  | claimJobs {op : Op} {kind : DurableJobKind} {owner : String} {now leaseUntil : Timestamp}
      {limit : ℕ} {reached locked : UUID → Bool} {x : Facts}
      (hop : op = .claimReadyJobs kind owner now leaseUntil limit reached locked ∨
        ∃ lease, op = .claimAgentRunJobs owner lease limit now reached locked) :
      Effect view op x { x with
        durableJobs := (claimReadyJobs kind owner now leaseUntil limit reached locked
          x.durableJobs).1 }
  | settleJob {claim : DurableJobClaimDTO} {owner : String} {errorCode errorCode' : Option String}
      {now : Timestamp} {x : Facts} {status : DurableJobStatus}
      (hstatus : settledStatus errorCode
        (RunRepository.get claim.userId claim.runId (view 0).runs) = .ok (status, errorCode'))
      (h : (DurableJobRepository.settle claim.jobId owner claim.claimEpoch status now errorCode'
        x.durableJobs).2 = true) :
      Effect view (.settleAgentRunJob claim owner errorCode now) x { x with
        durableJobs := (DurableJobRepository.settle claim.jobId owner claim.claimEpoch status now
          errorCode' x.durableJobs).1 }
  | renewJob {claim : DurableJobClaimDTO} {owner : String} {lease : ℤ} {now : Timestamp}
      {x : Facts} :
      Effect view (.renewAgentRunJob claim owner lease now) x { x with
        durableJobs := (DurableJobRepository.renew claim.jobId owner claim.claimEpoch (now + lease)
          now x.durableJobs).1 }
  | releaseJob {jobId : UUID} {owner : String} {claimEpoch : ℕ} {availableAt now : Timestamp}
      {errorCode : String} {x : Facts} :
      Effect view (.releaseForRetry jobId owner claimEpoch availableAt now errorCode) x { x with
        durableJobs := (DurableJobRepository.releaseForRetry jobId owner claimEpoch availableAt now
          errorCode x.durableJobs).1 }
  | ledger {op : Op} {x : Facts} {toolExecutions : Table ToolExecution} {reply : Reply}
      (h : LedgerEffect view op x.toolExecutions toolExecutions reply) :
      Effect view op x { x with toolExecutions }

/-! ## One job -/

/-- The sweep of the leases that are over: its time, and the jobs that it gets to. -/
def Op.sweep : Op → Option (Timestamp × (UUID → Bool))
  | .claimAgentRunJobs _ _ _ now reached _ | .claimReadyJobs _ _ now _ _ reached _ =>
    some (now, reached)
  | _ => none

/-- The transaction claims jobs of the kind for the worker. -/
def Op.claimsAs (op : Op) (kind : DurableJobKind) (owner : String) : Prop :=
  (∃ now leaseUntil limit reached locked,
    op = .claimReadyJobs kind owner now leaseUntil limit reached locked) ∨
    ∃ lease limit now reached locked, op = .claimAgentRunJobs owner lease limit now reached locked

open DurableJobRepository in
/-- What a transaction makes of a job that it changes. A claim writes a job after the sweep did. -/
inductive JobMove (op : Op) : DurableJob → DurableJob → Prop
  | requeued {now : Timestamp} {reached : UUID → Bool} {j : DurableJob}
      (hop : op.sweep = some (now, reached)) (hreached : reached j.id = true)
      (hp : retryableWhere now j = true) : JobMove op j (retryableValues now j)
  | givenUp {now : Timestamp} {reached : UUID → Bool} {j : DurableJob}
      (hop : op.sweep = some (now, reached)) (hreached : reached j.id = true)
      (hp : exhaustedWhere now j = true) : JobMove op j (exhaustedValues now j)
  | claimed {kind : DurableJobKind} {owner : String} {now leaseUntil : Timestamp} {j : DurableJob}
      (hop : op.claimsAs kind owner) (hp : claimReadyWhere kind now j = true) :
      JobMove op j (claimReadyValues owner now leaseUntil j)
  | reclaimed {kind : DurableJobKind} {owner : String} {now leaseUntil : Timestamp}
      {reached : UUID → Bool} {j : DurableJob} (hop : op.claimsAs kind owner)
      (hsweep : op.sweep = some (now, reached)) (hreached : reached j.id = true)
      (hretry : retryableWhere now j = true)
      (hp : claimReadyWhere kind now (retryableValues now j) = true) :
      JobMove op j (claimReadyValues owner now leaseUntil (retryableValues now j))
  | settled {claim : DurableJobClaimDTO} {owner : String} {errorCode errorCode' : Option String}
      {now : Timestamp} {run : Option AgentRun} {status : DurableJobStatus} {j : DurableJob}
      (hop : op = .settleAgentRunJob claim owner errorCode now)
      (hstatus : settledStatus errorCode run = .ok (status, errorCode'))
      (hp : settleWhere claim.jobId owner claim.claimEpoch now j = true) :
      JobMove op j (settleValues status now errorCode' j)
  | renewed {claim : DurableJobClaimDTO} {owner : String} {lease : ℤ} {now : Timestamp}
      {j : DurableJob} (hop : op = .renewAgentRunJob claim owner lease now)
      (hp : heldBy claim.jobId owner claim.claimEpoch j = true) :
      JobMove op j (renewValues (now + lease) now j)
  | released {jobId : UUID} {owner : String} {claimEpoch : ℕ} {availableAt now : Timestamp}
      {errorCode : String} {j : DurableJob}
      (hop : op = .releaseForRetry jobId owner claimEpoch availableAt now errorCode)
      (hp : settleWhere jobId owner claimEpoch now j = true) :
      JobMove op j (releaseForRetryValues availableAt now errorCode j)
  | resumed {userId : UUID} {dedupeKey : String} {now : Timestamp} {j : DurableJob}
      (hp : resumeWhere userId dedupeKey j = true) : JobMove op j (resumeValues now j)
  | cancelled {userId : UUID} {dedupeKey : String} {now : Timestamp} {j : DurableJob}
      (hp : cancelWhere userId dedupeKey j = true) : JobMove op j (cancelValues now j)

end Runtime
