import Laoshiren.Foundation.Json
import Laoshiren.Foundation.Raise

/-!
# Contracts of the agent

What the model decides, what a tool answers with, and the state that the graph of a Run keeps.
-/

namespace Agent

/-! ## Errors -/

/-- What the code of the agent raises. -/
inductive AgentError where
  | budgetExceeded (message : String)
  | valueError (message : String)
  | keyError (key : String)
  | toolExecutionBusy (message : String)
  | toolOutcomeUnknown (message : String)
  | modelGatewayError (code message : String) (retryable : Bool)
  /-- Any other exception. -/
  | other (message : String)
  deriving DecidableEq, Repr

/-- `str(exception)`. -/
def AgentError.text : AgentError → String
  | .keyError key => "'" ++ key ++ "'"
  | .budgetExceeded message | .valueError message | .toolExecutionBusy message
  | .toolOutcomeUnknown message | .modelGatewayError _ message _ | .other message => message

/-! ## Decisions -/

inductive DecisionKind where
  | respond
  | askUser
  | callTool
  | callTools
  deriving DecidableEq, Repr

def DecisionKind.value : DecisionKind → String
  | .respond => "respond"
  | .askUser => "ask_user"
  | .callTool => "call_tool"
  | .callTools => "call_tools"

structure ToolCallSpec where
  toolName : String
  toolArguments : Dict := []
  deriving DecidableEq

/-- A decision of the model. The fields at its end are the checks of `__post_init__`. -/
structure ExecutiveDecision where
  kind : DecisionKind
  content : Option String := none
  toolName : Option String := none
  toolArguments : Dict := []
  toolCalls : List ToolCallSpec := []
  prompt : Option Dict := none
  inputTokens : ℕ := 0
  outputTokens : ℕ := 0
  responds : kind = .respond → content.getD "" ≠ "" := by decide
  asks : kind = .askUser → prompt.isSome := by decide
  calls : kind = .callTool → toolName.getD "" ≠ "" := by decide
  callsAll : kind = .callTools → toolCalls ≠ [] := by decide

/-! ## Tool results -/

inductive ToolStatus where
  | success
  | partialSuccess
  | failed
  | notFound
  | conflict
  | requiresConfirmation
  | requiresUserInput
  deriving DecidableEq, Repr

/-- The text of a status, in results and events. -/
def ToolStatus.value : ToolStatus → String
  | .success => "SUCCESS"
  | .partialSuccess => "PARTIAL"
  | .failed => "FAILED"
  | .notFound => "NOT_FOUND"
  | .conflict => "CONFLICT"
  | .requiresConfirmation => "REQUIRES_CONFIRMATION"
  | .requiresUserInput => "REQUIRES_USER_INPUT"

structure ToolResult where
  status : ToolStatus
  code : String
  message : String
  data : Dict := []
  retryable : Bool := false
  mutationRefs : List String := []
  sourceRefs : List String := []
  receipt : Option Dict := none
  error : Option Dict := none
  warnings : List String := []
  currentState : Option Dict := none
  ledgerReceiptPersisted : Bool := false
  deriving DecidableEq

namespace ToolResult

/-- The statuses of a result that its tool stands by. -/
def succeeded (r : ToolResult) : Bool := r.status = .success ∨ r.status = .partialSuccess

/-- A list of texts. -/
def texts (values : List String) : Json := .arr (values.map .str)

/-- A dictionary or `None`. -/
def dict? : Option Dict → Json
  | some fields => .obj fields
  | none => .null

/-- The receipt that `as_dict` writes. -/
def receiptOf (r : ToolResult) : Option Dict :=
  if r.succeeded ∧ r.receipt = none then
    some (Dict.ofFields
      [("code", .str r.code), ("data", .obj r.data), ("mutation_refs", texts r.mutationRefs),
        ("source_refs", texts r.sourceRefs)])
  else r.receipt

/-- The error that `as_dict` writes. -/
def errorOf (r : ToolResult) : Option Dict :=
  if ¬ r.succeeded ∧ r.error = none then
    some (Dict.ofFields
      [("code", .str r.code), ("message", .str r.message), ("retryable", .bool r.retryable)])
  else r.error

def asDict (r : ToolResult) : Dict :=
  Dict.ofFields
    [("status", .str r.status.value), ("code", .str r.code), ("message", .str r.message),
      ("data", .obj r.data), ("retryable", .bool r.retryable),
      ("mutation_refs", texts r.mutationRefs), ("source_refs", texts r.sourceRefs),
      ("receipt", dict? r.receiptOf), ("error", dict? r.errorOf), ("warnings", texts r.warnings),
      ("current_state", dict? r.currentState)]

end ToolResult

/-! ## The state of the graph -/

inductive ToolRisk where
  | read
  | reversibleWrite
  | sensitiveWrite
  | irreversible
  deriving DecidableEq, Repr

/-- The nodes of the graph. -/
inductive Node where
  | buildInitialContext
  | executive
  | respond
  | askUser
  | policy
  | parallelPolicy
  | confirmation
  | execute
  | parallelExecute
  deriving DecidableEq, Repr

/-- A tool call under the id that the graph gave it. -/
structure Call where
  actionId : String
  toolName : String
  arguments : Dict
  deriving DecidableEq

structure PendingAction extends Call where
  risk : ToolRisk
  deriving DecidableEq

/-- The state of the graph. A counter that is absent reads as 0 everywhere. -/
structure GraphState where
  userId : String := ""
  threadId : String := ""
  runId : String := ""
  runClaimToken : String := ""
  inputMessageId : Option String := none
  currentInput : String := ""
  messages : List Dict := []
  sourceRefs : List String := []
  prefetchedState : Dict := []
  contextManifest : Dict := []
  budgetSnapshot : Dict := []
  toolResults : List Dict := []
  decision : Option Dict := none
  pendingAction : Option PendingAction := none
  pendingBatch : List Call := []
  userResponse : Option Dict := none
  finalResponse : Option String := none
  decisionCount : ℕ := 0
  toolCallCount : ℕ := 0
  inputTokensUsed : ℕ := 0
  outputTokensUsed : ℕ := 0
  externalActionCount : ℕ := 0
  route : Option Node := none
  deriving DecidableEq

end Agent

/-!
## The registry of tools

A registry holds one definition for a name, and the replay policy of a definition fits its risk:
`register` refuses any other. What the handler of a tool does is an argument of `execute`.
-/

namespace Agent

open Raise

inductive ToolReplayPolicy where
  | readOnly
  | idempotent
  | nonReplayable
  deriving DecidableEq, Repr

structure ToolDefinition where
  name : String
  risk : ToolRisk
  replayPolicy : ToolReplayPolicy := .readOnly
  enabled : Bool := true
  requiredArguments : List String := []
  deriving DecidableEq

namespace ToolDefinition

/-- What `register` checks of the replay policy. -/
def ReplayFits (d : ToolDefinition) : Prop := d.risk = .read ↔ d.replayPolicy = .readOnly

instance (d : ToolDefinition) : Decidable d.ReplayFits := inferInstanceAs (Decidable (_ ↔ _))

end ToolDefinition

structure ToolRegistry where
  definitions : List ToolDefinition := []
  names : (definitions.map ToolDefinition.name).Nodup := by decide
  replay : ∀ d ∈ definitions, d.ReplayFits := by decide

/-- What the handler of a tool does: it answers, or it raises one of the exceptions that `execute`
knows or another one. -/
inductive HandlerOutcome where
  | answers (result : ToolResult)
  | entityNotFound
  | versionConflict
  | invalidStateTransition
  /-- `KeyError`, `TypeError` or `ValueError`. -/
  | invalidArgument
  | raises (error : AgentError)

namespace ToolRegistry

def register (r : ToolRegistry) (d : ToolDefinition) : Except AgentError ToolRegistry :=
  if hname : d.name ∈ r.definitions.map ToolDefinition.name then
    .error (.valueError ("Tool is already registered: " ++ d.name))
  else if hwrite : d.risk ≠ .read ∧ d.replayPolicy = .readOnly then
    .error (.valueError "Write Tools must declare an explicit replay policy.")
  else if hread : d.risk = .read ∧ d.replayPolicy ≠ .readOnly then
    .error (.valueError "Read Tools must use the READ_ONLY replay policy.")
  else
    .ok
      { definitions := d :: r.definitions
        names := List.nodup_cons.mpr ⟨hname, r.names⟩
        replay := by
          have hfits : d.ReplayFits := by
            unfold ToolDefinition.ReplayFits
            tauto
          exact List.forall_mem_cons.mpr ⟨hfits, r.replay⟩ }

/-- The definition of an enabled tool. -/
def get (r : ToolRegistry) (name : String) : Option ToolDefinition :=
  (r.definitions.find? fun d => d.name = name).filter ToolDefinition.enabled

def execute (r : ToolRegistry) (name : String) (arguments : Dict) (handler : HandlerOutcome) :
    Except AgentError ToolResult :=
  match r.get name with
  | none => .ok { status := .notFound, code := "TOOL_NOT_FOUND", message := "Tool is unavailable." }
  | some d =>
    let missing := d.requiredArguments.filter fun key => (arguments.get key).isNone
    if missing ≠ [] then
      .ok
        { status := .requiresUserInput
          code := "MISSING_ARGUMENT"
          message := "Required tool arguments are missing."
          data := [("missing", ToolResult.texts missing)] }
    else
      match handler with
      | .answers result => .ok result
      | .entityNotFound =>
        .ok
          { status := .notFound
            code := "ENTITY_NOT_FOUND"
            message := "Requested data was not found." }
      | .versionConflict =>
        .ok
          { status := .conflict
            code := "VERSION_CONFLICT"
            message := "Data changed concurrently; reload before retrying."
            retryable := true }
      | .invalidStateTransition =>
        .ok
          { status := .conflict
            code := "INVALID_STATE_TRANSITION"
            message := "The requested state transition is not allowed." }
      | .invalidArgument =>
        .ok
          { status := .failed
            code := "INVALID_ARGUMENT"
            message := "Tool arguments are invalid." }
      | .raises error => .error error

theorem mem_of_get {r : ToolRegistry} {name : String} {d : ToolDefinition} (h : r.get name = some d) :
    d ∈ r.definitions ∧ d.name = name ∧ d.enabled = true := by
  obtain ⟨hfind, henabled⟩ := Option.filter_eq_some_iff.mp h
  have hname : d.name = name := by simpa using List.find?_some hfind
  exact ⟨List.mem_of_find?_eq_some hfind, hname, henabled⟩

end ToolRegistry

end Agent
