import Laoshiren.Agent.Policy
import Laoshiren.Foundation.Machine

/-!
# The Executive Graph

The nodes of the graph and the edges between them. A node reads the state, may ask the model, the
ledger, a tool or the user, and answers with the state that it leaves. A node that calls `interrupt`
stops the graph there, and runs anew from its first line when the graph is resumed with a value.

What the world answers to one run of a node is a `Turn`; a run of the graph is its start and a
sequence of turns. A node that raises ends the run.
-/

namespace Agent

open Raise

/-! ## What the world answers -/

/-- The references from which the context of a model invocation is built. -/
structure ContextAssemblyRequest where
  userId : UUID
  threadId : UUID
  runId : UUID
  inputMessageId : Option UUID
  currentInput : String
  sourceRefs : List UUID
  decisionIndex : ℕ
  deriving DecidableEq

structure ContextAssembly where
  messages : List Dict
  prefetchedState : Dict
  contextManifest : Dict
  deriving DecidableEq

/-- What the ledger, the event sink and the tool answer to one action. -/
structure ToolTurn where
  /-- `claim`: whether the action was acquired, and the result of an earlier execution. -/
  claim : Except AgentError (Bool × Option Dict) := .ok (true, none)
  started : Except AgentError Unit := .ok ()
  handler : HandlerOutcome
  complete : Except AgentError Unit := .ok ()
  finished : Except AgentError Unit := .ok ()

/-- What the world answers to one run of a node. -/
structure Turn where
  assemble : ContextAssemblyRequest → Except AgentError ContextAssembly
  decide : GraphState → Except AgentError ExecutiveDecision
  /-- The `n`-th action of a batch, or the 0-th for a single one. -/
  tool : ℕ → ToolTurn
  /-- The value that a waiting graph is resumed with. -/
  response : Json
  /-- The claim token of the worker that resumes a waiting graph. -/
  runClaimToken : String

/-- What an observer of the graph notes down. -/
inductive GraphEvent where
  /-- The model was invoked. -/
  | decided
  | evaluated (call : Call) (decision : PolicyDecision)
  /-- The graph stopped at the interrupt of an action. -/
  | asked (actionId : String)
  /-- The interrupt of an action was resumed with a value. -/
  | answered (actionId : String) (response : Json)
  /-- The action went to the ledger, and from there to its tool. -/
  | executed (call : Call)
  /-- The actions of a batch went to the ledger. -/
  | executedBatch (calls : List Call)
  deriving DecidableEq

/-- The calls that an event takes to the ledger. -/
def GraphEvent.calls : GraphEvent → List Call
  | .executed call => [call]
  | .executedBatch calls => calls
  | .decided | .evaluated _ _ | .asked _ | .answered _ _ => []

/-- What a node does. -/
inductive NodeResult where
  | update (s : GraphState)
  | interrupt (payload : Dict)
  | raises (error : AgentError)

/-! ## The graph -/

/-- What `build_executive_graph` is called with. -/
structure ExecutiveGraph where
  py : Builtins
  /-- `uuid5(ACTION_NAMESPACE, name)`. -/
  uuid5 : String → UUID
  tools : ToolRegistry
  toolPolicy : ToolPolicy := {}
  maxDecisions : ℤ := 12
  maxToolCalls : ℤ := 8
  parallelReadMax : ℤ := 4
  searchMaxPerRun : ℤ := 6
  maxInputTokens : ℤ := 120000
  maxOutputTokens : ℤ := 16000
  maxExternalActions : ℤ := 3
  /-- Whether the graph has a tool ledger. -/
  hasLedger : Bool := true
  /-- Whether the graph has a context assembler. -/
  hasAssembler : Bool := true

/-- A failed tool result. -/
def blocked (status : ToolStatus) (code message : String) (toolName : Option String) : Dict :=
  Dict.ofFields
    ([("status", .str status.value), ("code", .str code), ("message", .str message)] ++
      toolName.toList.map fun name => ("tool_name", .str name))

/-- `_decision_dict`. -/
def decisionDict (d : ExecutiveDecision) : Dict :=
  let calls := d.toolCalls.map fun spec => Json.obj (Dict.ofFields
    [("tool_name", .str spec.toolName), ("tool_arguments", .obj spec.toolArguments)])
  Dict.ofFields
    ([("kind", .str d.kind.value), ("content", Json.ofStr? d.content),
        ("tool_name", Json.ofStr? d.toolName), ("tool_arguments", .obj d.toolArguments),
        ("prompt", ToolResult.dict? d.prompt)] ++
      if d.toolCalls = [] then [] else [("tool_calls", .arr calls)])

/-- A `tool_arguments` or `arguments` field: no dictionary reads as an empty one. -/
def argumentsOf (item : Dict) : Dict := ((item.get "tool_arguments").bind Json.asDict?).getD []

/-- `_tool_specs_from_decision`. -/
def toolSpecsFromDecision (decision : Dict) : List ToolCallSpec :=
  let items := ((decision.get "tool_calls").bind Json.asList?).getD []
  (items.filterMap Json.asDict?).filterMap fun item =>
    (((item.get "tool_name").bind Json.asStr?).filter fun name => name ≠ "").map fun name =>
      ⟨name, argumentsOf item⟩

/-- `_with_tool_name`. -/
def withToolName (result : Dict) (toolName : String) : Dict := result.set "tool_name" (.str toolName)

namespace ExecutiveGraph

/-- `int(budget.get(key, default))`. -/
def budgetLimit (g : ExecutiveGraph) (s : GraphState) (key : String) (default : ℤ) :
    Except AgentError ℤ :=
  orRaise (.valueError "invalid literal for int()") (g.py.limit s.budgetSnapshot key default)

def decisionLimit (g : ExecutiveGraph) (s : GraphState) : Except AgentError ℤ :=
  g.budgetLimit s "max_model_steps" g.maxDecisions

def toolLimit (g : ExecutiveGraph) (s : GraphState) : Except AgentError ℤ :=
  g.budgetLimit s "max_tool_actions" g.maxToolCalls

def externalLimit (g : ExecutiveGraph) (s : GraphState) : Except AgentError ℤ :=
  g.budgetLimit s "max_external_actions" g.maxExternalActions

/-- The id of a single action. -/
def actionId (g : ExecutiveGraph) (s : GraphState) (toolName : String) : String :=
  (g.uuid5 s!"{s.runId}:{s.toolResults.length}:{toolName}").str

/-- The id of an action of a batch. -/
def batchActionId (g : ExecutiveGraph) (s : GraphState) (index : ℕ) (toolName : String) : String :=
  (g.uuid5 s!"{s.runId}:{s.toolResults.length}:batch:{index}:{toolName}").str

/-! ### The model -/

def buildInitialContext (s : GraphState) : List GraphEvent × NodeResult := ([], .update s)

/-- A text of the state as a UUID. -/
def uuidOf (text : String) : Except AgentError UUID :=
  orRaise (.valueError "badly formed hexadecimal UUID string") (UUID.parse? text)

def assemblyRequest (s : GraphState) : Except AgentError ContextAssemblyRequest := do
  let sourceRefs ← s.sourceRefs.mapM uuidOf
  let userId ← uuidOf s.userId
  let threadId ← uuidOf s.threadId
  let runId ← uuidOf s.runId
  let inputMessageId ← s.inputMessageId.mapM uuidOf
  return {
    userId, threadId, runId, inputMessageId, sourceRefs
    currentInput := s.currentInput
    decisionIndex := s.decisionCount }

/-- The state with which the model is invoked. -/
def invocationState (g : ExecutiveGraph) (s : GraphState) (t : Turn) :
    Except AgentError GraphState := do
  if g.hasAssembler then
    let request ← assemblyRequest s
    let context ← t.assemble request
    return { s with
      messages := context.messages
      prefetchedState := context.prefetchedState
      contextManifest := context.contextManifest }
  else return s

/-- The part of `executive` before it asks the model: the state of the invocation, and the limits of
the input and output tokens. -/
def prepare (g : ExecutiveGraph) (s : GraphState) (t : Turn) :
    Except AgentError (GraphState × ℤ × ℤ) := do
  let invocation ← g.invocationState s t
  let decisionLimit ← g.decisionLimit s
  let inputLimit ← g.budgetLimit s "max_input_tokens" g.maxInputTokens
  let outputLimit ← g.budgetLimit s "max_output_tokens" g.maxOutputTokens
  ensure (.budgetExceeded "Executive decision budget exceeded.") (s.decisionCount < decisionLimit)
  return (invocation, inputLimit, outputLimit)

def routeOf : DecisionKind → Node
  | .respond => .respond
  | .askUser => .askUser
  | .callTool => .policy
  | .callTools => .parallelPolicy

/-- The part of `executive` from the decision of the model on. -/
def decided (invocation : GraphState) (inputLimit outputLimit : ℤ) (d : ExecutiveDecision) :
    NodeResult :=
  let inputTokensUsed := invocation.inputTokensUsed + d.inputTokens
  let outputTokensUsed := invocation.outputTokensUsed + d.outputTokens
  if (inputTokensUsed : ℤ) > inputLimit ∨ (outputTokensUsed : ℤ) > outputLimit then
    .raises (.budgetExceeded "Executive token budget exceeded.")
  else
    .update { invocation with
      decision := some (decisionDict d)
      route := some (routeOf d.kind)
      decisionCount := invocation.decisionCount + 1
      inputTokensUsed
      outputTokensUsed }

def executive (g : ExecutiveGraph) (s : GraphState) (t : Turn) : List GraphEvent × NodeResult :=
  match g.prepare s t with
  | .error error => ([], .raises error)
  | .ok (invocation, inputLimit, outputLimit) =>
    match t.decide invocation with
    | .error error => ([.decided], .raises error)
    | .ok d => ([.decided], decided invocation inputLimit outputLimit d)

/-! ### Replies and questions -/

def respond (s : GraphState) : List GraphEvent × NodeResult :=
  match s.decision with
  | none => ([], .raises (.keyError "decision"))
  | some decision =>
    match ((decision.get "content").bind Json.asStr?).filter fun text => !Text.isBlank text with
    | none => ([], .raises (.valueError "Executive response must contain text."))
    | some content => ([], .update { s with finalResponse := some (Text.strip content) })

/-- The response of the user as a dictionary. -/
def userResponse : Json → Dict
  | .obj fields => fields
  | value => [("value", value)]

def askUser (s : GraphState) (resume : Option Json) : List GraphEvent × NodeResult :=
  match s.decision with
  | none => ([], .raises (.keyError "decision"))
  | some decision =>
    match (decision.get "prompt").bind Json.asDict? with
    | none => ([], .raises (.valueError "Executive interrupt payload must be an object."))
    | some prompt =>
      match resume with
      | none => ([], .interrupt prompt)
      | some value =>
        ([], .update { s with userResponse := some (userResponse value), route := some .executive })

/-! ### Policy -/

/-- Append a tool result and go back to the model. -/
def backWith (s : GraphState) (result : Dict) : NodeResult :=
  .update { s with toolResults := s.toolResults ++ [result], route := some .executive }

/-- What `policy` makes of the result of the tool policy. -/
def judged (s : GraphState) (pending : PendingAction) (result : PolicyResult) : NodeResult :=
  match result.decision with
  | .deny | .requireMoreContext =>
    backWith s (blocked .failed result.code result.message pending.toolName)
  | .requireConfirmation =>
    .update { s with pendingAction := some pending, route := some .confirmation }
  | .allow => .update { s with pendingAction := some pending, route := some .execute }

def policy (g : ExecutiveGraph) (s : GraphState) : List GraphEvent × NodeResult :=
  match s.decision with
  | none => ([], .raises (.keyError "decision"))
  | some decision =>
    match (decision.get "tool_name").bind Json.asStr? with
    | none => ([], .raises (.valueError "Tool decision is missing its name."))
    | some name =>
      match g.tools.get name with
      | none =>
        ([], backWith s (blocked .notFound "TOOL_NOT_FOUND" "Tool is unavailable." name))
      | some definition =>
        let arguments := argumentsOf decision
        let pending : PendingAction := ⟨⟨g.actionId s name, name, arguments⟩, definition.risk⟩
        match g.toolPolicy.evaluate g.py definition (some s) arguments with
        | none => ([], .raises (.valueError "invalid literal for int()"))
        | some result => ([.evaluated pending.toCall result.decision], judged s pending result)

/-- Why a batch goes no further. -/
inductive BatchStop where
  | blocked (result : Dict)
  | raises (error : AgentError)

/-- The loop of `parallel_policy`, from the call with number `index` on. -/
def evaluateBatch (g : ExecutiveGraph) (s : GraphState) :
    ℕ → List ToolCallSpec → List GraphEvent × Except BatchStop (List Call)
  | _, [] => ([], .ok [])
  | index, spec :: specs =>
    match g.tools.get spec.toolName with
    | none => g.evaluateBatch s (index + 1) specs
    | some definition =>
      let call : Call :=
        ⟨g.batchActionId s index spec.toolName, spec.toolName, spec.toolArguments⟩
      match g.toolPolicy.evaluate g.py definition (some s) spec.toolArguments with
      | none => ([], .error (.raises (.valueError "invalid literal for int()")))
      | some result =>
        if result.decision ≠ .allow then
          ([.evaluated call result.decision],
            .error (.blocked (Agent.blocked .failed result.code result.message spec.toolName)))
        else
          let (events, calls) := g.evaluateBatch s (index + 1) specs
          (.evaluated call .allow :: events, calls.map (call :: ·))

/-- The limits of a batch in a state. -/
def batchLimits (g : ExecutiveGraph) (s : GraphState) : Except AgentError BatchLimits := do
  let toolLimit ← g.toolLimit s
  let searchLimit ← g.budgetLimit s "max_search_queries" g.searchMaxPerRun
  return {
    toolCallCount := s.toolCallCount
    maxToolCalls := toolLimit
    parallelReadMax := g.parallelReadMax
    searchCountInRun := countSearchToolsInResults s.toolResults
    searchMaxPerRun := searchLimit }

/-- What `parallel_policy` makes of the loop over a batch. -/
def judgedBatch (s : GraphState) : Except BatchStop (List Call) → NodeResult
  | .error (.raises error) => .raises error
  | .error (.blocked result) => backWith s result
  | .ok calls => .update { s with pendingBatch := calls, route := some .parallelExecute }

def parallelPolicy (g : ExecutiveGraph) (s : GraphState) : List GraphEvent × NodeResult :=
  match s.decision with
  | none => ([], .raises (.keyError "decision"))
  | some decision =>
    match g.batchLimits s with
    | .error error => ([], .raises error)
    | .ok limits =>
      let validation := validateParallelBatch g.tools (toolSpecsFromDecision decision) limits
      if ¬ validation.ok then
        ([], backWith s (blocked .failed validation.code validation.message none))
      else
        let (events, calls) := g.evaluateBatch s 0 validation.specs
        (events, judgedBatch s calls)

/-! ### Confirmation -/

/-- What the confirmation node passes to `interrupt`. -/
def confirmationPayload (action : Call) : Dict :=
  Dict.ofFields
    [("type", .str "confirmation"), ("title", .str "确认执行敏感操作"),
      ("message", .str s!"是否允许执行 {action.toolName}？"), ("action_id", .str action.actionId),
      ("options", .arr
        [.obj (Dict.ofFields [("id", .str "confirm"), ("label", .str "确认")]),
          .obj (Dict.ofFields [("id", .str "cancel"), ("label", .str "取消")])])]

/-- The user confirms. -/
def confirms : Json → Bool
  | .obj fields => Dict.get fields "action" = some (.str "confirm")
  | _ => false

def confirmation (s : GraphState) (resume : Option Json) : List GraphEvent × NodeResult :=
  match s.pendingAction with
  | none => ([], .raises (.keyError "pending_action"))
  | some action =>
    match resume with
    | none => ([.asked action.actionId], .interrupt (confirmationPayload action.toCall))
    | some value =>
      ([.answered action.actionId value],
        if confirms value then .update { s with route := some .execute }
        else
          backWith s (blocked .requiresConfirmation "USER_DECLINED"
            "User declined the sensitive action." action.toolName))

/-! ### Execution -/

/-- `_execute_one`. -/
def executeOne (g : ExecutiveGraph) (s : GraphState) (call : Call) (t : ToolTurn) :
    Except AgentError Dict := do
  let _ ← uuidOf s.userId
  let _ ← uuidOf s.runId
  let claimed ← if g.hasLedger then t.claim else pure (true, none)
  match claimed with
  | (_, some cached) => return withToolName cached call.toolName
  | (acquired, none) =>
    ensure (.toolExecutionBusy "Tool execution is owned by another worker.") acquired
    t.started
    let result ← g.tools.execute call.toolName call.arguments t.handler
    if g.hasLedger ∧ result.ledgerReceiptPersisted = false then t.complete
    t.finished
    return withToolName result.asDict call.toolName

/-- A tool that may not be replayed. -/
def isExternal (g : ExecutiveGraph) (toolName : String) : Bool :=
  (g.tools.get toolName).any fun d => d.replayPolicy = .nonReplayable

/-- The checks of `execute`. -/
def admitAction (g : ExecutiveGraph) (s : GraphState) : Except AgentError PendingAction := do
  let toolLimit ← g.toolLimit s
  let externalLimit ← g.externalLimit s
  ensure (.budgetExceeded "Executive tool-call budget exceeded.") (s.toolCallCount < toolLimit)
  let action ← orRaise (.keyError "pending_action") s.pendingAction
  ensure (.budgetExceeded "Executive external-action budget exceeded.")
    (g.isExternal action.toolName = true → s.externalActionCount < externalLimit)
  return action

def execute (g : ExecutiveGraph) (s : GraphState) (t : Turn) : List GraphEvent × NodeResult :=
  match g.admitAction s with
  | .error error => ([], .raises error)
  | .ok action =>
    ([.executed action.toCall],
      match g.executeOne s action.toCall (t.tool 0) with
      | .error error => .raises error
      | .ok result =>
        .update { s with
          toolResults := s.toolResults ++ [result]
          route := some .executive
          toolCallCount := s.toolCallCount + 1
          externalActionCount :=
            s.externalActionCount + if g.isExternal action.toolName then 1 else 0 })

/-- How many calls of a batch may not be replayed. -/
def externalCount (g : ExecutiveGraph) (calls : List Call) : ℕ :=
  calls.countP fun call => g.isExternal call.toolName

/-- The checks of `parallel_execute`. -/
def admitBatch (g : ExecutiveGraph) (s : GraphState) : Except AgentError Unit := do
  ensure (.valueError "Parallel execution requires a pending batch.") (s.pendingBatch ≠ [])
  let toolLimit ← g.toolLimit s
  let externalLimit ← g.externalLimit s
  ensure (.budgetExceeded "Executive tool-call budget exceeded.")
    ((s.toolCallCount : ℤ) + s.pendingBatch.length ≤ toolLimit)
  ensure (.budgetExceeded "Executive external-action budget exceeded.")
    ((s.externalActionCount : ℤ) + g.externalCount s.pendingBatch ≤ externalLimit)

/-- A result of `asyncio.gather(…, return_exceptions=True)` as a tool result. -/
def gathered (call : Call) : Except AgentError Dict → Dict
  | .ok result => result
  | .error error => blocked .failed "PARALLEL_TOOL_FAILED" error.text call.toolName

/-- The results of a batch. -/
def batchResults (g : ExecutiveGraph) (s : GraphState) (t : Turn) : List Dict :=
  s.pendingBatch.mapIdx fun index call => gathered call (g.executeOne s call (t.tool index))

/-- The result that stands for a whole batch. -/
def combined (calls : List Call) (results : List Dict) : Dict :=
  Dict.ofFields
    [("status", .str ToolStatus.success.value), ("code", .str "PARALLEL_BATCH_OK"),
      ("message", .str "Parallel read batch completed."),
      ("batch_tool_names", ToolResult.texts (calls.map Call.toolName)),
      ("batch_results", .arr (results.map .obj))]

def parallelExecute (g : ExecutiveGraph) (s : GraphState) (t : Turn) :
    List GraphEvent × NodeResult :=
  match g.admitBatch s with
  | .error error => ([], .raises error)
  | .ok _ =>
    let results := g.batchResults s t
    ([.executedBatch s.pendingBatch],
      .update { s with
        toolResults := s.toolResults ++ results ++ [combined s.pendingBatch results]
        route := some .executive
        toolCallCount := s.toolCallCount + s.pendingBatch.length
        externalActionCount := s.externalActionCount + g.externalCount s.pendingBatch })

/-! ## Runs of the graph -/

/-- One run of a node, resumed with a value or not. -/
def visit (g : ExecutiveGraph) (node : Node) (resume : Option Json) (s : GraphState) (t : Turn) :
    List GraphEvent × NodeResult :=
  match node with
  | .buildInitialContext => buildInitialContext s
  | .executive => g.executive s t
  | .respond => respond s
  | .askUser => askUser s resume
  | .policy => g.policy s
  | .parallelPolicy => g.parallelPolicy s
  | .confirmation => confirmation s resume
  | .execute => g.execute s t
  | .parallelExecute => g.parallelExecute s t

end ExecutiveGraph

/-- Where a run of the graph stands. -/
inductive Position where
  | next (node : Node)
  /-- At the interrupt of a node. -/
  | waiting (node : Node)
  | ended
  | raised (error : AgentError)
  deriving DecidableEq

/-- The run is over. -/
def Position.final : Position → Bool
  | .ended | .raised _ => true
  | .next _ | .waiting _ => false

/-- A conditional edge: the node that `route` names, if the edge leads there. -/
def routed (targets : List Node) (s : GraphState) : Position :=
  match s.route.filter fun node => node ∈ targets with
  | some node => .next node
  | none => .raised (.keyError "route")

/-- Where the edges lead from a node. -/
def edge (node : Node) (s : GraphState) : Position :=
  match node with
  | .buildInitialContext | .askUser | .execute | .parallelExecute => .next .executive
  | .respond => .ended
  | .executive =>
    routed [.respond, .askUser, .policy, .parallelPolicy, .parallelExecute, .confirmation, .execute,
      .executive] s
  | .policy => routed [.confirmation, .execute, .executive] s
  | .parallelPolicy => routed [.parallelExecute, .executive] s
  | .confirmation => routed [.execute, .executive] s

/-- A run of the graph so far. -/
structure GraphRun where
  state : GraphState
  position : Position
  /-- What happened, in its order. -/
  log : List GraphEvent := []

namespace ExecutiveGraph

/-- Where a visit of a node in the state `s` leaves the run. -/
def land (node : Node) (s : GraphState) (log : List GraphEvent) : NodeResult → GraphRun
  | .update s' => ⟨s', edge node s', log⟩
  | .interrupt _ => ⟨s, .waiting node, log⟩
  | .raises error => ⟨s, .raised error, log⟩

/-- The run after a visit of a node. -/
def enter (g : ExecutiveGraph) (node : Node) (resume : Option Json) (s : GraphState) (t : Turn)
    (log : List GraphEvent) : GraphRun :=
  let (events, result) := g.visit node resume s t
  land node s (log ++ events) result

/-- The state under the claim of another worker. -/
def claimedBy (token : String) (s : GraphState) : GraphState := { s with runClaimToken := token }

/-- One node further. A waiting run is resumed, with the claim token of the worker that does it. -/
def step (g : ExecutiveGraph) (r : GraphRun) (t : Turn) : GraphRun :=
  match r.position with
  | .next node => g.enter node none r.state t r.log
  | .waiting node =>
    g.enter node (some t.response) (claimedBy t.runClaimToken r.state) t r.log
  | .ended | .raised _ => r

/-- The run after `n` turns. -/
def run (g : ExecutiveGraph) (start : GraphRun) (turns : ℕ → Turn) (n : ℕ) : GraphRun :=
  Machine.run g.step start turns n

end ExecutiveGraph

/-- What a worker invokes the graph of a Run with. -/
structure InitialInput where
  userId : String
  threadId : String
  runId : String
  runClaimToken : String
  inputMessageId : String
  budgetSnapshot : Dict := []
  currentInput : String := ""
  sourceRefs : List String := []
  deriving DecidableEq

namespace InitialInput

/-- The input merged over a state. -/
def mergedOver (i : InitialInput) (s : GraphState) : GraphState :=
  { s with
    userId := i.userId
    threadId := i.threadId
    runId := i.runId
    runClaimToken := i.runClaimToken
    inputMessageId := some i.inputMessageId
    budgetSnapshot := i.budgetSnapshot
    currentInput := i.currentInput
    messages := []
    sourceRefs := i.sourceRefs
    toolResults := [] }

/-- The start of a run over the state of a checkpoint. -/
def startOver (i : InitialInput) (s : GraphState) : GraphRun :=
  ⟨i.mergedOver s, .next .buildInitialContext, []⟩

/-- The start of a run. -/
def start (i : InitialInput) : GraphRun := i.startOver {}

end InitialInput

/-! ## What a run spends -/

/-- How often the model was invoked. -/
def decisionsIn (log : List GraphEvent) : ℕ := log.count .decided

/-- The calls that went to the ledger, in their order. -/
def presented (log : List GraphEvent) : List Call := log.flatMap GraphEvent.calls

/-- A limit as a number of times: a limit that is no number lets nothing through. -/
def allowance : Except AgentError ℤ → ℕ
  | .ok limit => limit.toNat
  | .error _ => 0

/-! ## A graph to start examples from -/

/-- What the world answers where the model takes the given decisions, one after the other, every tool
succeeds and the user always gives the same response. -/
def turnsOf (decisions : List ExecutiveDecision) (response : Json) : ℕ → Turn := fun _ =>
  { assemble := fun _ => .ok ⟨[], [], []⟩
    decide := fun s =>
      match decisions[s.decisionCount]? with
      | some d => .ok d
      | none => .error (.other "no decision")
    tool := fun _ => { handler := .answers { status := .success, code := "OK", message := "" } }
    response
    runClaimToken := "00000000-0000-0000-0000-000000000014" }

/-- The name strings of the first actions of Run 10 with the tool `search_web`, and their ids. -/
def searchIds : List (String × UUID) :=
  [("00000000-0000-0000-0000-00000000000a:0:search_web", 0xf3c8ede5e37454c888f8ed773287a93e),
    ("00000000-0000-0000-0000-00000000000a:1:search_web", 0x7efd8f82386e5b5fa19880a4b51e9af6),
    ("00000000-0000-0000-0000-00000000000a:2:search_web", 0x430350cbeee751f5a43167dfe92a71e0),
    ("00000000-0000-0000-0000-00000000000a:0:batch:0:search_web",
      0x23cdab8b75d558a0b97edadc152dc11c),
    ("00000000-0000-0000-0000-00000000000a:0:batch:1:search_web",
      0xd65154e8ecf55441930cbf8105515a64),
    ("00000000-0000-0000-0000-00000000000a:0:batch:2:search_web",
      0x4507de36907750bb992f0285bccce905),
    ("00000000-0000-0000-0000-00000000000a:1:batch:0:search_web",
      0x9ce0c74cdc435b0c9d6b6c7b8283dd63),
    ("00000000-0000-0000-0000-00000000000a:1:batch:1:search_web",
      0x50285c5bd3ca5e06be431999beb59e90),
    ("00000000-0000-0000-0000-00000000000a:2:batch:0:search_web",
      0xfeb2b95a06ea5eee97e3846bf8167605)]

/-- A graph with the tool `search_web`. -/
def searchGraph : ExecutiveGraph where
  py := ⟨fun _ => none, fun _ => ""⟩
  uuid5 name := (searchIds.lookup name).getD 0
  tools := { definitions := [⟨"search_web", .read, .readOnly, true, ["query"]⟩] }

/-- Run 10 of user 1. -/
def searchInput : InitialInput where
  userId := "00000000-0000-0000-0000-000000000001"
  threadId := "00000000-0000-0000-0000-000000000002"
  runId := "00000000-0000-0000-0000-00000000000a"
  runClaimToken := "00000000-0000-0000-0000-000000000014"
  inputMessageId := "00000000-0000-0000-0000-000000000003"

/-- The model searches for a text. -/
def searchFor (query : String) : ExecutiveDecision where
  kind := .callTool
  toolName := some "search_web"
  toolArguments := [("query", .str query)]

end Agent
