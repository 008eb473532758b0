import Laoshiren.Agent.Visit
import Laoshiren.Runtime.Worker

/-!
# A Run that another worker takes over

A worker that dies leaves the graph of its Run where the last checkpoint stands. The worker that takes
the Run over looks at the checkpoint and invokes the graph: with the response that the Run carries, and
then the graph goes on from the checkpoint; or else with an initial input, and then the graph starts at
its entry, over the state of the checkpoint. Every step of the graph writes a checkpoint.
-/

namespace Agent

open Runtime

/-! ## What the checkpoint shows -/

def ToolRisk.value : ToolRisk → String
  | .read => "READ"
  | .reversibleWrite => "REVERSIBLE_WRITE"
  | .sensitiveWrite => "SENSITIVE_WRITE"
  | .irreversible => "IRREVERSIBLE"

/-- A call of the pending batch. -/
def Call.dict (call : Call) : Dict :=
  Dict.ofFields
    [("action_id", .str call.actionId), ("tool_name", .str call.toolName),
      ("arguments", .obj call.arguments)]

/-- The pending action. -/
def PendingAction.dict (action : PendingAction) : Dict :=
  Dict.ofFields
    [("action_id", .str action.actionId), ("tool_name", .str action.toolName),
      ("arguments", .obj action.arguments), ("risk", .str action.risk.value)]

/-- The values of a checkpoint that the inspector looks at. -/
def GraphState.values (s : GraphState) : Dict :=
  Dict.ofFields
    ((s.finalResponse.toList.map fun text => ("final_response", .str text)) ++
      (s.pendingAction.toList.map fun action => ("pending_action", .obj action.dict)) ++
      if s.pendingBatch = [] then []
      else [("pending_batch", .arr (s.pendingBatch.map fun call => .obj call.dict))])

/-- The interrupts that are pending where a run stands. -/
def GraphRun.interrupts (r : GraphRun) : List GraphInterrupt :=
  match r.position with
  | .waiting .askUser =>
    (r.state.decision.bind fun decision => decision.get "prompt").toList.map fun value => { value }
  | .waiting .confirmation =>
    r.state.pendingAction.toList.map fun action =>
      { value := .obj (ExecutiveGraph.confirmationPayload action.toCall) }
  | _ => []

/-- What `aget_state` answers where a run stands. -/
def GraphRun.snapshot (r : GraphRun) : GraphSnapshot where
  values := some r.state.values
  interrupts := r.interrupts

/-- The ids of the actions that a state holds as pending. -/
def GraphState.pendingIds (s : GraphState) : List String :=
  (s.pendingAction.toList.map fun action => action.actionId) ++ s.pendingBatch.map Call.actionId

/-! ## Taking over -/

/-- The initial input that a worker builds for a Run that it claimed. -/
def InitialInput.ofRun (run : AgentRun) (currentInput : String) (sourceRefs : List String) :
    InitialInput where
  userId := run.userId.str
  threadId := run.threadId.str
  runId := run.id.str
  runClaimToken := (run.claimToken.map UUID.str).getD ""
  inputMessageId := run.inputMessageId.elim "None" UUID.str
  budgetSnapshot := run.budgetSnapshot
  currentInput
  sourceRefs

/-- The run of the graph that a worker starts over the checkpoint of another one. -/
def GraphRun.takeOver (r : GraphRun) (i : InitialInput) : GraphInput → GraphRun
  | .initial => i.startOver r.state
  | .resume _ => ⟨ExecutiveGraph.claimedBy i.runClaimToken r.state, r.position, []⟩

/-- Where the graph of a Run has stood, over all the workers that the Run had, the latest place first.
A worker may die anywhere, and be followed by another one. -/
inductive Life (g : ExecutiveGraph) (runId : String) : List GraphRun → Prop
  | start (i : InitialInput) (hrun : i.runId = runId) : Life g runId [i.start]
  | step {r : GraphRun} {past : List GraphRun} (h : Life g runId (r :: past)) (t : Turn) :
      Life g runId (g.step r t :: r :: past)
  | takeOver {r : GraphRun} {past : List GraphRun} (h : Life g runId (r :: past)) (i : InitialInput)
      (hrun : i.runId = runId) (input : GraphInput) : Life g runId (r.takeOver i input :: r :: past)

/-- The run `q` is about to execute where the run `p` came to what the state `held` holds as pending:
after as many tool results, in the same way, and with the same tool. -/
def SameAction (p q : GraphRun) (held : GraphState) : Prop :=
  p.state.toolResults.length = q.state.toolResults.length ∧
    ((p.position = .next .execute ∨ p.position = .next .confirmation) ∧
        q.position = .next .execute ∧ p.state.pendingAction = held.pendingAction ∧
        (p.state.pendingAction.map fun action => action.toolName) =
          q.state.pendingAction.map (fun action => action.toolName) ∨
      p.position = .next .parallelExecute ∧ q.position = .next .parallelExecute ∧
        p.state.pendingBatch = held.pendingBatch ∧
        p.state.pendingBatch.head?.map Call.toolName =
          q.state.pendingBatch.head?.map Call.toolName)

/-- The name strings of a run and of the batch that it holds. -/
def heldNames (g : ExecutiveGraph) (r : GraphRun) : Set String :=
  {name | ∃ key : ActionKey, g.Knows key.toolName ∧
    key.place ≤ r.state.toolResults.length + r.state.pendingBatch.length ∧
    name = key.text r.state.runId}

/-! ## A Run that creates a Thing -/

/-- The name strings of the first actions of Run 10 with the tools of `createGraph`, and their ids. -/
def createIds : List (String × UUID) :=
  [("00000000-0000-0000-0000-00000000000a:0:search_web", 0xf3c8ede5e37454c888f8ed773287a93e),
    ("00000000-0000-0000-0000-00000000000a:0:thing_create", 0x05bb57c88814567795bd077c634310eb),
    ("00000000-0000-0000-0000-00000000000a:1:thing_create", 0x737478040aec552f8de1eb831b3b7f24),
    ("00000000-0000-0000-0000-00000000000a:0:batch:0:search_web",
      0x23cdab8b75d558a0b97edadc152dc11c),
    ("00000000-0000-0000-0000-00000000000a:0:batch:0:thing_create",
      0xb760d9211f9c5b14b18f970b335cf6ad)]

/-- A graph with the tools `search_web` and `thing_create`. -/
def createGraph : ExecutiveGraph where
  py := ⟨fun _ => none, fun _ => ""⟩
  uuid5 name := (createIds.lookup name).getD 0
  tools :=
    { definitions :=
        [⟨"search_web", .read, .readOnly, true, ["query"]⟩,
          ⟨"thing_create", .reversibleWrite, .idempotent, true, ["name"]⟩] }

theorem createThing_responds :
    DecisionKind.callTool = .respond → (none : Option String).getD "" ≠ "" := by decide

theorem createThing_asks : DecisionKind.callTool = .askUser → (none : Option Dict).isSome := by
  decide

theorem createThing_calls :
    DecisionKind.callTool = .callTool → (some "thing_create").getD "" ≠ "" := by decide

theorem createThing_callsAll :
    DecisionKind.callTool = .callTools → ([] : List ToolCallSpec) ≠ [] := by decide

/-- The model creates a Thing. -/
def createThing (name : String) : ExecutiveDecision where
  kind := .callTool
  toolName := some "thing_create"
  toolArguments := [("name", .str name)]
  responds := createThing_responds
  asks := createThing_asks
  calls := createThing_calls
  callsAll := createThing_callsAll

/-- Run 10 as a worker has it that claimed it with the token 20. -/
def createRun : AgentRun where
  userId := 1
  threadId := 2
  trigger := .userMessage
  idempotencyKey := "message"
  id := 10
  inputMessageId := some 3
  status := .running
  claimOwner := some "worker"
  claimToken := some 20
  createdAt := 0
  updatedAt := 0

/-- The graph of Run 10 as the worker left it that died when it was about to create a Thing, or while
it did. -/
def createCrash : GraphRun :=
  createGraph.run searchInput.start (turnsOf [createThing "Move"] .null) 3

end Agent
