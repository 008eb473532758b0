import Laoshiren.Foundation.ReadCommitted
import Laoshiren.Runtime.JobQueue
import Laoshiren.Runtime.RunService
import Laoshiren.Runtime.ToolService

/-!
# The Runtime as a database program

Every transaction that any client of the Runtime sends: requests of users, agent workers, the
dispatch scanner and the workers of other jobs. The program interleaves them in every way. A client
that crashes sends nothing more, and a lease that is over is a matter of the clock that a later
transaction reads, so neither needs a transaction of its own.
-/

namespace Runtime

/-- A transaction with its arguments and with what it takes from the clock, from `uuid4()` and from
the row locks of other transactions. -/
inductive Op where
  | createThread (userId : UUID) (title idempotencyKey : String) (activeThingId : Option UUID)
      (thingKnown : Bool) (stamp : Stamp)
  | archiveThread (userId threadId : UUID) (now : Timestamp)
  | createUserRun (c : CreateUserRun) (budgetSnapshot : Dict) (sourceKnown : UUID → Bool)
      (fresh : ℕ → Stamp)
  | createAutomationRun (c : CreateAutomationRun) (budgetSnapshot : Dict) (fresh : ℕ → Stamp)
  | claimRun (userId runId : UUID) (owner : String) (lease : ℤ) (fresh : ℕ → Stamp)
  | renewRunLease (userId runId : UUID) (owner : String) (claimToken : UUID) (lease : ℤ)
      (now : Timestamp)
  | recoverPendingRuns (limit : ℕ) (now : Timestamp) (fresh : UUID → Stamp)
  | workerTransition (c : WorkerCall) (fresh : ℕ → Stamp)
  | acceptTerminalOutput (userId runId : UUID) (output : Dict) (claimOwner : String)
      (claimToken : UUID) (now : Timestamp)
  | resumeRun (userId runId interruptId : UUID) (response : Dict) (expectedVersion : ℕ)
      (idempotencyKey : String) (fresh : ℕ → Stamp)
  | cancelRun (userId runId : UUID) (expectedVersion : ℕ) (idempotencyKey : String)
      (fresh : ℕ → Stamp)
  | emitEvent (userId runId : UUID) (eventType : RunEventType) (data : Dict) (stamp : Stamp)
  | claimAgentRunJobs (owner : String) (lease : ℤ) (limit : ℕ) (now : Timestamp)
      (reached locked : UUID → Bool)
  | claimReadyJobs (kind : DurableJobKind) (owner : String) (now leaseUntil : Timestamp) (limit : ℕ)
      (reached locked : UUID → Bool)
  | settleAgentRunJob (claim : DurableJobClaimDTO) (owner : String) (errorCode : Option String)
      (now : Timestamp)
  | renewAgentRunJob (claim : DurableJobClaimDTO) (owner : String) (lease : ℤ) (now : Timestamp)
  | releaseForRetry (jobId : UUID) (owner : String) (claimEpoch : ℕ) (availableAt now : Timestamp)
      (errorCode : String)
  | claimToolExecution (c : ClaimTool) (fresh : ℕ → Stamp)
  | completeToolExecution (c : ToolClaim) (result : Dict) (succeeded : Bool) (now : Timestamp)
  | completePersonalStateMutationTool (c : ToolClaim) (toolName : String)
      (outcome : Raises WriteOutcome) (now : Timestamp)
  | reconcileUnknownToolExecution (userId runId : UUID) (actionId : String) (result : Dict)
      (succeeded : Bool) (providerRequestId : Option String) (now : Timestamp)

/-- What a transaction answers. -/
inductive Reply where
  | raised (error : RuntimeError)
  | done
  | flag (value : Bool)
  | thread (thread : Thread)
  | run (run : AgentRun)
  | claimed (run : Option AgentRun)
  | changed (run : AgentRun) (replayed : Bool)
  | event (event : RunEvent)
  | claims (claims : List DurableJobClaimDTO)
  | jobs (jobs : List DurableJob)
  | toolClaim (claim : ToolExecutionClaimDTO)
  | data (data : Dict)
  deriving DecidableEq

/-- A transaction that raises is rolled back. -/
def settled {α : Type} (s : Store) (reply : α → Reply) : Raises (Store × α) → Store × Reply
  | .ok (s', a) => (s', reply a)
  | .error error => (s, .raised error)

/-- What a transaction makes of the committed state, and its answer. -/
def commit (op : Op) (view : ℕ → Store) (s : Store) : Store × Reply :=
  match op with
  | .createThread userId title key activeThingId thingKnown stamp =>
    settled s .thread (createThread userId title key activeThingId thingKnown stamp view s)
  | .archiveThread userId threadId now =>
    settled s .thread (archiveThread userId threadId now view s)
  | .createUserRun c budget sourceKnown fresh =>
    settled s .run (createUserRun c budget sourceKnown fresh view s)
  | .createAutomationRun c budget fresh => settled s .run (createAutomationRun c budget fresh view s)
  | .claimRun userId runId owner lease fresh =>
    settled s .claimed (claimRun userId runId owner lease fresh s)
  | .renewRunLease userId runId owner claimToken lease now =>
    let (s', renewed) := renewRunLease userId runId owner claimToken lease now s
    (s', .flag renewed)
  | .recoverPendingRuns limit now fresh =>
    settled s (fun _ => .done) ((recoverPendingRuns limit now fresh view s).map (·, ()))
  | .workerTransition c fresh => settled s .run (workerTransition c fresh view s)
  | .acceptTerminalOutput userId runId output claimOwner claimToken now =>
    settled s .run (acceptTerminalOutput userId runId output claimOwner claimToken now view s)
  | .resumeRun userId runId interruptId response expectedVersion key fresh =>
    settled s (fun r => .changed r.1 r.2)
      (resumeRun userId runId interruptId response expectedVersion key fresh view s)
  | .cancelRun userId runId expectedVersion key fresh =>
    settled s (fun r => .changed r.1 r.2) (cancelRun userId runId expectedVersion key fresh view s)
  | .emitEvent userId runId eventType data stamp =>
    settled s .event (emitEvent userId runId eventType data stamp view s)
  | .claimAgentRunJobs owner lease limit now reached locked =>
    settled s .claims (claimAgentRunJobs owner lease limit now reached locked s)
  | .claimReadyJobs kind owner now leaseUntil limit reached locked =>
    let (durableJobs, jobs) :=
      claimReadyJobs kind owner now leaseUntil limit reached locked s.durableJobs
    ({ s with durableJobs }, .jobs jobs)
  | .settleAgentRunJob claim owner errorCode now =>
    settled s (fun _ => .done) ((settleAgentRunJob claim owner errorCode now view s).map (·, ()))
  | .renewAgentRunJob claim owner lease now =>
    let (s', renewed) := renewAgentRunJob claim owner lease now s
    (s', .flag renewed)
  | .releaseForRetry jobId owner claimEpoch availableAt now errorCode =>
    let (durableJobs, released) := DurableJobRepository.releaseForRetry jobId owner claimEpoch
      availableAt now errorCode s.durableJobs
    ({ s with durableJobs }, .flag released)
  | .claimToolExecution c fresh => settled s .toolClaim (claimToolExecution c fresh view s)
  | .completeToolExecution c result succeeded now =>
    settled s (fun _ => .done) ((completeToolExecution c result succeeded now view s).map (·, ()))
  | .completePersonalStateMutationTool c toolName outcome now =>
    settled s .data ((completePersonalStateMutationTool c toolName
      (fun _ => outcome.map ((), ·)) now view s ()).map fun r => (r.1.1, r.2))
  | .reconcileUnknownToolExecution userId runId actionId result succeeded providerRequestId now =>
    settled s (fun _ => .done) ((reconcileUnknownToolExecution userId runId actionId result succeeded
      providerRequestId now view s).map (·, ()))

/-- The Runtime: it starts with empty tables. -/
def system : Program Store Op Reply where
  init s := s = {}
  commit := commit

/-! ## A Run to start examples from -/

/-- Stamps with the ids from `n` on, at time `now`. -/
def stampsFrom (n : ℕ) (now : Timestamp) : ℕ → Stamp := fun k => ⟨BitVec.ofNat 128 (n + k), now⟩

/-- Run 10 of user 1, claimed by worker `w` with the token 20. -/
def claimedRun : List Op :=
  [.createAutomationRun ⟨1, 2, none, "title", "message", "occurrence"⟩ [] (stampsFrom 10 0),
    .claimRun 1 10 "w" 60 (stampsFrom 20 0)]

end Runtime

/-!
## Mutations that are bound to the ledger

`complete_mutation_tool` applies the domain write of a tool and completes the ledger row of its action
in one transaction. Here the transactions of the Runtime and of all other clients share one database
with it; what the write does to the domain tables is a parameter of the transaction.
-/

namespace Runtime

open Raise

variable {δ : Type}

/-- The tables of the Runtime next to those of the domain. -/
structure Bound (δ : Type) where
  store : Store
  domain : δ

/-- A call of `complete_mutation_tool`, with the time at which it completes the row. -/
structure MutationCall (δ : Type) where
  claim : ToolClaim
  toolName : String
  /-- `apply_mutation`, which reads some states of the domain and writes another one. -/
  applyMutation : (view : ℕ → δ) → δ → Raises (δ × WriteOutcome)
  now : Timestamp

/-- The transactions of all clients. -/
inductive BoundOp (δ : Type) where
  /-- A transaction of the Runtime: the claims, takeovers and completions of tool actions among
  them. -/
  | runtime (op : Op)
  /-- Another client changes the domain. -/
  | client (f : δ → δ)
  | mutation (call : MutationCall δ)

inductive BoundReply where
  | runtime (reply : Reply)
  | done
  /-- The mutation is committed, with these data for the model. -/
  | committed (data : Dict)
  /-- The mutation is rolled back. -/
  | raised (error : RuntimeError)

/-- `complete_mutation_tool`, which is `complete_personal_state_mutation_tool`. -/
def completeMutationTool (call : MutationCall δ) (view : ℕ → Bound δ) (s : Bound δ) :
    Bound δ × BoundReply :=
  match completePersonalStateMutationTool call.claim call.toolName
    (call.applyMutation fun n => (view n).domain) call.now (fun n => (view n).store) s.store
    s.domain with
  | .ok ((store, domain), data) => (⟨store, domain⟩, .committed data)
  | .error error => (s, .raised error)

/-- What a transaction makes of the committed state, and its answer. -/
def BoundOp.commit (op : BoundOp δ) (view : ℕ → Bound δ) (s : Bound δ) : Bound δ × BoundReply :=
  match op with
  | .runtime op =>
    let (store, reply) := Runtime.commit op (fun n => (view n).store) s.store
    ({ s with store }, .runtime reply)
  | .client f => ({ s with domain := f s.domain }, .done)
  | .mutation call => completeMutationTool call view s

/-- The database: the Runtime starts with empty tables, and the domain with any state. -/
def boundSystem (δ : Type) : Program (Bound δ) (BoundOp δ) BoundReply where
  init s := s.store = {}
  commit := BoundOp.commit

/-- The transactions of a history, latest first, that committed the mutation of a tool action. -/
def committedMutations (runId : UUID) (actionId : String)
    (replies : List (BoundOp δ × BoundReply)) : List (MutationCall δ) :=
  replies.filterMap fun
    | (.mutation call, .committed _) =>
      if call.claim.runId = runId ∧ call.claim.actionId = actionId then some call else none
    | _ => none

/-- The transaction of a mutation moves the ledger row of its action from IN_PROGRESS to SUCCEEDED,
under the claim token that the row has. -/
def MutationCall.MovesRow (call : MutationCall δ) (s s' : Store) : Prop :=
  ∃ e ∈ s.toolExecutions, ∃ e' ∈ s'.toolExecutions, e'.id = e.id ∧
    e.runId = call.claim.runId ∧ e.actionId = call.claim.actionId ∧
    e.claimToken = call.claim.claimToken ∧ e.status = .inProgress ∧ e'.status = .succeeded

/-- Nobody holds the action under the token: its row is settled, unknown or another worker's. -/
def TakenOver (runId : UUID) (actionId : String) (token : UUID) (t : Table ToolExecution) : Prop :=
  ∀ e ∈ t, e.runId = runId → e.actionId = actionId →
    e.status ≠ .inProgress ∨ e.claimToken ≠ token

/-- The claim of a tool action that draws this token. -/
def BoundOp.draws (runId : UUID) (actionId : String) (token : UUID) : BoundOp δ → Bool
  | .runtime (.claimToolExecution c fresh) =>
    c.runId = runId ∧ c.actionId = actionId ∧ (fresh 0).id = token
  | _ => false

end Runtime
