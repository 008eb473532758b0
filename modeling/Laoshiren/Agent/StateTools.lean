import Laoshiren.Agent.Contracts
import Laoshiren.Foundation.Json
import Laoshiren.Foundation.ReadCommitted
import Laoshiren.PersonalState.Writes
import Laoshiren.Runtime.System

/-!
# The tools that write Personal State

The handlers of the tools with a risk other than `READ`. A handler passes its write to
`try_bound_mutation`, which commits it together with the receipt of the ledger, or it calls a service,
which commits it alone. What a write does to Personal State is a parameter.
-/

namespace Agent

open Raise Runtime PersonalState

structure ToolExecutionContext where
  userId : UUID
  runId : UUID
  actionId : String
  toolClaimOwner : Option String := none
  toolClaimToken : Option UUID := none
  deriving DecidableEq

namespace ToolExecutionContext

def idempotencyKey (context : ToolExecutionContext) : String :=
  s!"agent:{context.runId.str}:{context.actionId}"

/-- The claim that a bound write completes: `none` where `_ledger_ready` is false. -/
def ledgerClaim (context : ToolExecutionContext) : Option ToolClaim :=
  match context.toolClaimOwner, context.toolClaimToken with
  | some owner, some claimToken =>
    some ⟨context.userId, context.runId, context.actionId, owner, claimToken⟩
  | _, _ => none

end ToolExecutionContext

/-! ## Writes -/

/-- The write operations that handlers call. -/
inductive WriteOp where
  | createThing
  | createTask
  | setDeadline
  | updateDate
  | setThingContext
  | changeArchive (archive : Bool)
  | updateThing (status : ThingStatus)
  | transitionTask
  | createBlocker
  | resolveBlocker
  | deleteThing
  | mergeThings
  | createAutomation
  | changeAutomationStatus
  | explicitRemember
  | forgetMemory
  | deleteFile
  deriving DecidableEq, Repr

/-- What the handlers take from the application services. -/
structure WriteOps (δ : Type) where
  py : Builtins
  /-- A write with the arguments of the call still to be read, in a transaction that reads the states
  of `view` and commits on another one. -/
  write : WriteOp → ToolExecutionContext → Dict → (ℕ → Stamp) → (view : ℕ → δ) → δ →
    Raises (δ × WriteOutcome)
  /-- `rejects_state_authority`. -/
  rejectsStateAuthority : String → Bool := fun _ => false

/-- A write of a handler, with the code of its result. -/
structure ToolWrite where
  op : WriteOp
  toolName : String
  code : String
  message : String
  arguments : Dict
  deriving DecidableEq

/-- What a handler does. -/
inductive HandlerPlan where
  /-- It answers without a write. -/
  | answers (result : ToolResult)
  /-- It passes the write to `try_bound_mutation`, and to a service where the ledger is not ready. -/
  | bindable (write : ToolWrite)
  /-- It passes the write to a service. -/
  | unbindable (write : ToolWrite)
  deriving DecidableEq

/-! ## Handlers -/

namespace StateTools

/-- `str(arguments[key])`. -/
def text (py : Builtins) (arguments : Dict) (key : String) : Raises String := do
  let value ← orRaise (.keyError key) (arguments.get key)
  return py.str value

/-- A handler with one bindable write. -/
def bindable (op : WriteOp) (toolName code message : String) (arguments : Dict) :
    Raises HandlerPlan :=
  return .bindable ⟨op, toolName, code, message, arguments⟩

def createThing := bindable .createThing "thing_create" "THING_CREATED" "Thing created."

def createTask := bindable .createTask "task_create" "TASK_CREATED" "Task created."

def setDeadline := bindable .setDeadline "thing_date_set" "DEADLINE_SET" "Deadline set."

def updateDate := bindable .updateDate "thing_date_set" "DATE_UPDATED" "Date updated."

def setThingContext :=
  bindable .setThingContext "thing_context_set" "THING_CONTEXT_SET" "Current Thing context set."

def archiveThing :=
  bindable (.changeArchive true) "thing_change_state" "THING_ARCHIVED" "Thing archived."

def restoreThing :=
  bindable (.changeArchive false) "thing_change_state" "THING_RESTORED" "Thing restored."

/-- `status_by_action`, with the code and the message of the result. -/
def statusByAction : String → Option (ThingStatus × String × String)
  | "COMPLETE" => some (.completed, "THING_COMPLETED", "Thing completed.")
  | "CANCEL" => some (.cancelled, "THING_CANCELLED", "Thing canceld.")
  | "REACTIVATE" => some (.active, "THING_REACTIVATED", "Thing reactivated.")
  | _ => none

def changeThingState (py : Builtins) (arguments : Dict) : Raises HandlerPlan := do
  let action ← text py arguments "action"
  if action = "ARCHIVE" then archiveThing arguments
  else if action = "RESTORE" then restoreThing arguments
  else
    let (status, code, message) ← orRaise (.valueError "Unsupported Thing state action.")
      (statusByAction action)
    -- No `try_bound` here: the write goes to `service.update_thing`.
    return .unbindable ⟨.updateThing status, "thing_change_state", code, message, arguments⟩

def createBlocker := bindable .createBlocker "blocker_manage" "BLOCKER_ADDED" "Blocker added."

def resolveBlocker :=
  bindable .resolveBlocker "blocker_manage" "BLOCKER_RESOLVED" "Blocker resolved."

def manageBlocker (py : Builtins) (arguments : Dict) : Raises HandlerPlan := do
  let operation ← text py arguments "operation"
  if operation = "OPEN" then createBlocker arguments
  else if operation = "RESOLVE" then resolveBlocker arguments
  else throw (.valueError "Unsupported Blocker operation.")

def setThingDate (py : Builtins) (arguments : Dict) : Raises HandlerPlan := do
  let operation ← text py arguments "operation"
  if operation = "CREATE" then setDeadline arguments
  else if operation = "CORRECT" then updateDate arguments
  else throw (.valueError "Unsupported ThingDate operation.")

def transitionTask :=
  bindable .transitionTask "task_change_status" "TASK_STATUS_CHANGED" "Task status changed."

def deleteThing := bindable .deleteThing "thing_delete" "THING_DELETED" "Thing deleted."

def mergeThings :=
  bindable .mergeThings "thing_merge" "THING_MERGED"
    "Duplicate Thing merged into its canonical Thing."

def createAutomation :=
  bindable .createAutomation "automation_create" "AUTOMATION_CREATED" "Automation created."

/-- `change_automation` with the action `CANCEL`, the only one that is registered. -/
def cancelAutomation (arguments : Dict) : Raises HandlerPlan :=
  bindable .changeAutomationStatus "automation_cancel" "AUTOMATION_CANCELLED"
    "Automation status changed." (arguments.set "action" (.str "CANCEL"))

def remember (py : Builtins) (rejectsStateAuthority : String → Bool) (arguments : Dict) :
    Raises HandlerPlan := do
  let content ← text py arguments "content"
  if rejectsStateAuthority content then
    return .answers
      { status := .failed
        code := "STATE_AUTHORITY_VIOLATION"
        message := "Memory must not override current Personal State authority." }
  else bindable .explicitRemember "memory_remember" "MEMORY_REMEMBERED" "Memory remembered." arguments

def forget := bindable .forgetMemory "memory_forget" "MEMORY_FORGOTTEN" "Memory forgotten."

/-- `resolve_file_id`. -/
def resolveFileId (py : Builtins) (arguments : Dict) : Raises UUID :=
  let given := (arguments.get "file_id").filter Json.truthy
  let raw := given.or (arguments.get "source_id")
  orRaise (.valueError "badly formed hexadecimal UUID string")
    (UUID.parse? (py.str (raw.getD .null)))

def deleteFile (py : Builtins) (arguments : Dict) : Raises HandlerPlan := do
  let _ ← resolveFileId py arguments
  bindable .deleteFile "file_delete" "FILE_DELETED" "File deleted." arguments

/-! ## The registry -/

/-- The definition of `thing_date_set`. -/
def thingDateSet : ToolDefinition where
  name := "thing_date_set"
  risk := .sensitiveWrite
  replayPolicy := .idempotent
  requiredArguments := ["operation"]

/-- The tools that are registered with a risk other than `READ`. -/
def registry : ToolRegistry where
  definitions :=
    [{ name := "thing_create", risk := .reversibleWrite, replayPolicy := .idempotent
       requiredArguments := ["name"] },
      { name := "task_create", risk := .reversibleWrite, replayPolicy := .idempotent
        requiredArguments := ["title"] },
      { name := "task_change_status", risk := .reversibleWrite, replayPolicy := .idempotent
        requiredArguments := ["task_id", "target_status", "expected_version"] },
      { name := "thing_context_set", risk := .reversibleWrite, replayPolicy := .idempotent
        requiredArguments := ["thing_id", "label", "content"] },
      { name := "thing_merge", risk := .irreversible, replayPolicy := .idempotent
        requiredArguments :=
          ["canonical_thing_id", "duplicate_thing_id", "expected_canonical_version",
            "expected_duplicate_version"] },
      { name := "thing_change_state", risk := .reversibleWrite, replayPolicy := .idempotent
        requiredArguments := ["thing_id", "action", "expected_version"] },
      thingDateSet,
      { name := "blocker_manage", risk := .reversibleWrite, replayPolicy := .idempotent
        requiredArguments := ["operation"] },
      { name := "thing_delete", risk := .irreversible, replayPolicy := .idempotent
        requiredArguments := ["thing_id", "expected_version"] },
      { name := "automation_create", risk := .reversibleWrite, replayPolicy := .idempotent
        requiredArguments := ["automation_type", "title", "next_trigger_at"] },
      { name := "automation_cancel", risk := .reversibleWrite, replayPolicy := .idempotent
        requiredArguments := ["automation_id", "expected_version"] },
      { name := "memory_remember", risk := .reversibleWrite, replayPolicy := .idempotent
        requiredArguments := ["content", "memory_type"] },
      { name := "memory_forget", risk := .sensitiveWrite, replayPolicy := .idempotent
        requiredArguments := ["memory_id", "expected_version"] },
      { name := "file_delete", risk := .irreversible, replayPolicy := .idempotent
        requiredArguments := ["file_id"] }]

/-- The handler of a tool of the registry. -/
def handler {δ : Type} (ops : WriteOps δ) (name : String) : Dict → Raises HandlerPlan :=
  match name with
  | "thing_create" => createThing
  | "task_create" => createTask
  | "task_change_status" => transitionTask
  | "thing_context_set" => setThingContext
  | "thing_merge" => mergeThings
  | "thing_change_state" => changeThingState ops.py
  | "thing_date_set" => setThingDate ops.py
  | "blocker_manage" => manageBlocker ops.py
  | "thing_delete" => deleteThing
  | "automation_create" => createAutomation
  | "automation_cancel" => cancelAutomation
  | "memory_remember" => remember ops.py ops.rejectsStateAuthority
  | "memory_forget" => forget
  | "file_delete" => deleteFile ops.py
  | _ => fun _ => throw (.keyError name)

end StateTools

/-! ## Execution -/

/-- A call of a tool that writes Personal State. -/
structure ToolCall where
  name : String
  context : ToolExecutionContext
  arguments : Dict
  /-- What the write takes from the clock and from `uuid4()`. -/
  fresh : ℕ → Stamp
  /-- The time at which the receipt is stored. -/
  now : Timestamp

namespace ToolCall

variable {δ : Type}

/-- What `execute` does before a handler writes: the arguments have to be there. -/
def plan (ops : WriteOps δ) (call : ToolCall) : Option (Raises HandlerPlan) :=
  (StateTools.registry.get call.name).bind fun d =>
    if d.requiredArguments.all fun key => (call.arguments.get key).isSome then
      some (StateTools.handler ops call.name call.arguments)
    else none

/-- The write of a plan in one transaction. -/
def write (ops : WriteOps δ) (call : ToolCall) (w : ToolWrite) (view : ℕ → δ) (d : δ) :
    Raises (δ × WriteOutcome) :=
  ops.write w.op call.context w.arguments call.fresh view d

/-- What the write of a call makes of Personal State, if the call writes and the write answers. -/
def run (ops : WriteOps δ) (call : ToolCall) (d : δ) : Option (δ × WriteOutcome) :=
  match call.plan ops with
  | some (.ok (.bindable w)) | some (.ok (.unbindable w)) =>
    (call.write ops w (fun _ => d) d).toOption
  | _ => none

/-- The Personal State after a call, where the ledger takes its receipt. -/
def leaves (ops : WriteOps δ) (call : ToolCall) (d : δ) : δ := (call.run ops d).elim d Prod.fst

/-- The result of a write that a service committed. -/
def serviceResult (w : ToolWrite) (outcome : WriteOutcome) : ToolResult :=
  { status := .success
    code := w.code
    message := w.message
    data := outcome.data
    mutationRefs := outcome.mutationRefs }

/-- The result of a write that was committed with its receipt. -/
def boundResult (py : Builtins) (w : ToolWrite) (data : Dict) : ToolResult :=
  { status := .success
    code := w.code
    message := w.message
    data
    mutationRefs := ((data.get "mutation_id").filter Json.truthy).toList.map py.str
    ledgerReceiptPersisted := true }

/-- What the registry makes of an exception of a handler. -/
def outcomeOf : RuntimeError → HandlerOutcome
  | .entityNotFound _ => .entityNotFound
  | .versionConflict _ => .versionConflict
  | .invalidStateTransition _ => .invalidStateTransition
  | .keyError _ | .valueError _ => .invalidArgument
  | .runtimeError message => .raises (.other message)
  | .integrityError => .raises (.other "IntegrityError")

end ToolCall

/-! ## Personal State and the ledger in one database -/

/-- A domain effect that is committed, and the receipt that belongs to it. -/
structure Written where
  runId : UUID
  actionId : String
  receipt : Dict
  deriving DecidableEq

/-- The tables of the Runtime, Personal State, and the effects of tools so far. -/
structure Ledgered (δ : Type) where
  store : Store
  domain : δ
  written : List Written

/-- The transactions of all clients. -/
inductive Transaction (δ : Type) where
  /-- Any transaction of the Runtime: the claim and the completion of a tool action among them. -/
  | runtime (op : Runtime.Op)
  /-- Another client changes Personal State. -/
  | client (f : δ → δ)
  /-- The transaction in which a handler writes. -/
  | tool (call : ToolCall)

/-- What a transaction answers. -/
inductive Answer where
  | runtime (reply : Runtime.Reply)
  | done
  | tool (result : Except AgentError ToolResult)

namespace ToolCall

variable {δ : Type} [DecidableEq δ]

/-- The effect of a write that was committed, if it changed anything. -/
def effect (call : ToolCall) (w : ToolWrite) (outcome : WriteOutcome) (d d' : δ) : List Written :=
  if d' = d then []
  else [⟨call.context.runId, call.context.actionId, buildToolReceipt w.toolName outcome⟩]

/-- `try_bound_mutation` where the ledger is ready. -/
def commitBound (ops : WriteOps δ) (call : ToolCall) (c : ToolClaim) (w : ToolWrite)
    (view : ℕ → Ledgered δ) (s : Ledgered δ) : Raises (Ledgered δ × ToolResult) := do
  let apply := call.write ops w fun n => (view n).domain
  let ((store, d), data) ← completePersonalStateMutationTool c w.toolName apply call.now
    (fun n => (view n).store) s.store s.domain
  -- The outcome once more, for the record of the effect.
  let (_, outcome) ← apply s.domain
  return (⟨store, d, call.effect w outcome s.domain d ++ s.written⟩,
    boundResult ops.py w data)

omit [DecidableEq δ] in
/-- The bound mutation of a write. -/
def mutation (ops : WriteOps δ) (call : ToolCall) (c : ToolClaim) (w : ToolWrite) :
    MutationCall δ :=
  ⟨c, w.toolName, call.write ops w, call.now⟩

/-- The call of a service, which commits on its own. -/
def commitService (ops : WriteOps δ) (call : ToolCall) (w : ToolWrite) (view : ℕ → Ledgered δ)
    (s : Ledgered δ) : Raises (Ledgered δ × ToolResult) := do
  let (d, outcome) ← call.write ops w (fun n => (view n).domain) s.domain
  return (⟨s.store, d, call.effect w outcome s.domain d ++ s.written⟩, serviceResult w outcome)

/-- The transaction of a plan. -/
def commitPlan (ops : WriteOps δ) (call : ToolCall) (view : ℕ → Ledgered δ) (s : Ledgered δ) :
    HandlerPlan → Raises (Ledgered δ × ToolResult)
  | .answers result => .ok (s, result)
  | .unbindable w => call.commitService ops w view s
  | .bindable w =>
    match call.context.ledgerClaim with
    | some c => call.commitBound ops c w view s
    | none => call.commitService ops w view s

/-- The state that a call leaves: a transaction that raises is rolled back. -/
def commit (ops : WriteOps δ) (call : ToolCall) (view : ℕ → Ledgered δ) (s : Ledgered δ) :
    Ledgered δ × HandlerOutcome :=
  match call.plan ops with
  | none => (s, .invalidArgument)
  | some plan =>
    match plan.bind (call.commitPlan ops view s) with
    | .ok (s', result) => (s', .answers result)
    | .error error => (s, outcomeOf error)

end ToolCall

variable {δ : Type} [DecidableEq δ]

/-- What a transaction makes of the committed state, and its answer. -/
def Transaction.commit (ops : WriteOps δ) (t : Transaction δ) (view : ℕ → Ledgered δ)
    (s : Ledgered δ) : Ledgered δ × Answer :=
  match t with
  | .runtime op =>
    let (store, reply) := Runtime.commit op (fun n => (view n).store) s.store
    ({ s with store }, .runtime reply)
  | .client f => ({ s with domain := f s.domain }, .done)
  | .tool call =>
    let (s', outcome) := call.commit ops view s
    (s', .tool (StateTools.registry.execute call.name call.arguments outcome))

/-- The database that holds Personal State and the ledger: the Runtime starts with empty tables. -/
def database (ops : WriteOps δ) : Program (Ledgered δ) (Transaction δ) Answer where
  init s := s.store = {} ∧ s.written = []
  commit := Transaction.commit ops

end Agent
