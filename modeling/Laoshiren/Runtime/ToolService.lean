import Laoshiren.Runtime.Store

/-!
# Transactions on the tool ledger

A worker claims a tool action in the ledger before it executes the tool, and completes the row with
the result afterwards. What the ledger answers decides whether the tool may be executed.
-/

namespace Runtime

open Raise

structure ToolExecutionClaimDTO where
  acquired : Bool
  claimToken : Option UUID := none
  cachedResult : Option Dict := none
  blockedReason : Option String := none
  deriving DecidableEq

structure ClaimTool where
  userId : UUID
  runId : UUID
  actionId : String
  toolName : String
  argumentsHash : String
  owner : String
  lease : ℤ
  runClaimToken : UUID
  replaySafe : Bool := true
  idempotencyKey : Option String := none
  deriving DecidableEq

/-- The row that a claim would insert. -/
def ClaimTool.execution (c : ClaimTool) (fresh : ℕ → Stamp) : ToolExecution :=
  { runId := c.runId
    actionId := c.actionId
    toolName := c.toolName
    argumentsHash := c.argumentsHash
    status := .inProgress
    claimOwner := c.owner
    claimToken := (fresh 0).id
    leaseExpiresAt := (fresh 0).now + c.lease
    replaySafe := c.replaySafe
    idempotencyKey := c.idempotencyKey
    id := (fresh 1).id
    createdAt := (fresh 1).now
    updatedAt := (fresh 1).now }

/-- `Non-replayable Tool outcome is unknown for idempotency key …`. -/
def ClaimTool.blockedReason (c : ClaimTool) : String :=
  let key := match c.idempotencyKey with
    | some key => if key = "" then c.actionId else key
    | none => c.actionId
  "Non-replayable Tool outcome is unknown for idempotency key " ++ key ++ "."

/-- `claim_tool_execution` once the action is known to have a row, which it read as `existing`. -/
def claimExisting (c : ClaimTool) (existing : ToolExecution) (fresh : ℕ → Stamp) (s : Store) :
    Raises (Store × ToolExecutionClaimDTO) := do
  let now := (fresh 0).now
  let claimToken := (fresh 0).id
  ensure (.invalidStateTransition "Tool action id was reused with different arguments.")
    (existing.toolName = c.toolName ∧ existing.argumentsHash = c.argumentsHash)
  ensure (.invalidStateTransition "Tool action id was reused with a different replay contract.")
    (existing.replaySafe = c.replaySafe ∧
      (existing.idempotencyKey = none ∨ existing.idempotencyKey = c.idempotencyKey))
  match existing.result with
  | some result => return (s, { acquired := false, cachedResult := some result })
  | none =>
    if existing.leaseExpiresAt ≤ now ∧ existing.replaySafe = false then
      let (toolExecutions, _) :=
        ToolExecutionRepository.markUnknownIfExpired existing.id now s.toolExecutions
      return ({ s with toolExecutions },
        { acquired := false, blockedReason := some c.blockedReason })
    else
      let (toolExecutions, acquired) := ToolExecutionRepository.takeoverIfExpired existing now c.owner
        claimToken (now + c.lease) s.toolExecutions
      return ({ s with toolExecutions },
        { acquired, claimToken := if acquired then some claimToken else none })

/-- `claim_tool_execution`. -/
def claimToolExecution (c : ClaimTool) (fresh : ℕ → Stamp) (view : ℕ → Store) (s : Store) :
    Raises (Store × ToolExecutionClaimDTO) := do
  let run ← getRun (view 0) c.userId c.runId
  ensure (.invalidStateTransition "Run is not owned by this Tool worker.")
    (run.claimOwner = some c.owner ∧ run.claimToken = some c.runClaimToken ∧ run.status = .running)
  let (toolExecutions, inserted) ← orRaise .integrityError
    (ToolExecutionRepository.addIfAbsent (c.execution fresh) s.toolExecutions)
  if inserted then
    return ({ s with toolExecutions }, { acquired := true, claimToken := some (fresh 0).id })
  else
    let existing ← orRaise (.runtimeError "Tool execution conflict points to missing data.")
      (ToolExecutionRepository.get c.runId c.actionId (view 1).toolExecutions)
    claimExisting c existing fresh s

/-- What a worker presents to complete a claim of a tool action. -/
structure ToolClaim where
  userId : UUID
  runId : UUID
  actionId : String
  owner : String
  claimToken : UUID
  deriving DecidableEq

/-- The Run of a tool action has to run, and under the claim owner. -/
def ensureToolWorker (c : ToolClaim) (view : ℕ → Store) : Raises Unit := do
  let run ← getRun (view 0) c.userId c.runId
  ensure (.invalidStateTransition "Run is not owned by this Tool worker.")
    (run.claimOwner = some c.owner ∧ run.status = .running)

/-- The write that completes a ledger row, if the claim is still the present one. -/
def completeRow (c : ToolClaim) (result : Dict) (succeeded : Bool) (now : Timestamp) (s : Store) :
    Raises Store := do
  let (toolExecutions, completed) := ToolExecutionRepository.complete c.runId c.actionId c.owner
    c.claimToken result succeeded now s.toolExecutions
  ensure (.invalidStateTransition "Tool execution lease was lost.") completed
  return { s with toolExecutions }

/-- `complete_tool_execution`. -/
def completeToolExecution (c : ToolClaim) (result : Dict) (succeeded : Bool) (now : Timestamp)
    (view : ℕ → Store) (s : Store) : Raises Store := do
  ensureToolWorker c view
  completeRow c result succeeded now s

/-- What a Personal State write reports. -/
structure WriteOutcome where
  code : String
  message : String
  data : Dict
  mutationRefs : List String
  deriving DecidableEq

/-- `build_tool_receipt` of a write that succeeded. -/
def buildToolReceipt (toolName : String) (outcome : WriteOutcome) : Dict :=
  let refs : Json := .arr (outcome.mutationRefs.map .str)
  Dict.ofFields
    [("status", .str "SUCCESS"), ("code", .str outcome.code), ("message", .str outcome.message),
      ("data", .obj outcome.data), ("retryable", .bool false), ("mutation_refs", refs),
      ("source_refs", .arr []),
      ("receipt", .obj (Dict.ofFields
        [("code", .str outcome.code), ("data", .obj outcome.data), ("mutation_refs", refs),
          ("source_refs", .arr [])])),
      ("error", .null), ("warnings", .arr []), ("current_state", .null),
      ("tool_name", .str toolName)]

/-- `complete_personal_state_mutation_tool`: the domain write `applyMutation` on the Personal State
`d` and the ledger receipt commit together. -/
def completePersonalStateMutationTool {δ : Type} (c : ToolClaim) (toolName : String)
    (applyMutation : δ → Raises (δ × WriteOutcome)) (now : Timestamp) (view : ℕ → Store)
    (s : Store) (d : δ) : Raises ((Store × δ) × Dict) := do
  ensureToolWorker c view
  let (d, outcome) ← applyMutation d
  let s ← completeRow c (buildToolReceipt toolName outcome) true now s
  return ((s, d), outcome.data)

/-- `reconcile_unknown_tool_execution`: record an explicit external observation. -/
def reconcileUnknownToolExecution (userId runId : UUID) (actionId : String) (result : Dict)
    (succeeded : Bool) (providerRequestId : Option String) (now : Timestamp) (view : ℕ → Store)
    (s : Store) : Raises Store := do
  let _ ← getRun (view 0) userId runId
  let execution ← orRaise (.entityNotFound "Tool execution was not found.")
    (ToolExecutionRepository.get runId actionId (view 1).toolExecutions)
  ensure (.invalidStateTransition "Only UNKNOWN_OUTCOME Tool executions can be reconciled.")
    (execution.status = .unknownOutcome)
  let (toolExecutions, reconciled) := ToolExecutionRepository.reconcileUnknown execution.id result
    succeeded providerRequestId now s.toolExecutions
  ensure (.versionConflict "Tool execution was reconciled concurrently.") reconciled
  return { s with toolExecutions }

end Runtime
