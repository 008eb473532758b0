import Mathlib.Data.Set.Function
import Laoshiren.Agent.Graph
import Laoshiren.Foundation.NumberedLog

/-!
# What a visit of a node can do

`Visit` says once, for every node, which events a visit logs and what it leaves, with the checks that
it went through.
-/

namespace Agent

namespace ExecutiveGraph

/-- The call of a batch with the number `index`. -/
def batchCall (g : ExecutiveGraph) (s : GraphState) (indexed : ToolCallSpec × ℕ) : Call :=
  ⟨g.batchActionId s indexed.2 indexed.1.toolName, indexed.1.toolName, indexed.1.toolArguments⟩

/-- The state that goes to the execution of a batch. -/
def withBatch (g : ExecutiveGraph) (s : GraphState) (specs : List ToolCallSpec) : GraphState :=
  { s with
    pendingBatch := specs.zipIdx.map (g.batchCall s)
    route := some .parallelExecute }

/-- The external actions of a state are within their limit. -/
def WithinExternalLimit (g : ExecutiveGraph) (s : GraphState) : Prop :=
  ∀ limit, g.externalLimit s = .ok limit → (s.externalActionCount : ℤ) ≤ limit

/-- The name of an enabled tool. -/
def Knows (g : ExecutiveGraph) (toolName : String) : Prop := (g.tools.get toolName).isSome

end ExecutiveGraph

/-- What the policy says to a batch that it allows. -/
def allowAll (calls : List Call) : List GraphEvent :=
  calls.map fun call => .evaluated call .allow

/-- The events note down what the policy said: calls that it allows, and then one more at the most. -/
def Judged (events : List GraphEvent) : Prop :=
  ∃ (allowed : List Call) (last : Option (Call × PolicyDecision)),
    events = allowAll allowed ++ last.toList.map fun judged => .evaluated judged.1 judged.2

/-- A visit of a node in the state `s`: the node, the value it was resumed with, the events and the
result. -/
inductive Visit (g : ExecutiveGraph) (s : GraphState) :
    Node → Option Json → List GraphEvent → NodeResult → Prop
  /-- A node raises before it asks the model or executes anything. -/
  | raises {node : Node} {resume : Option Json} (error : AgentError) :
      Visit g s node resume [] (.raises error)
  | raisesInBatch {resume : Option Json} {events : List GraphEvent} (error : AgentError)
      (hjudged : Judged events) : Visit g s .parallelPolicy resume events (.raises error)
  | begins {resume : Option Json} : Visit g s .buildInitialContext resume [] (.update s)
  /-- The model was asked and raises, or took too many tokens. -/
  | failsToDecide {resume : Option Json} {limit : ℤ} (hlimit : g.decisionLimit s = .ok limit)
      (hlt : s.decisionCount < limit) (error : AgentError) :
      Visit g s .executive resume [.decided] (.raises error)
  | decides {resume : Option Json} {limit : ℤ} (hlimit : g.decisionLimit s = .ok limit)
      (hlt : s.decisionCount < limit) (messages : List Dict)
      (prefetchedState contextManifest : Dict) (d : ExecutiveDecision)
      (inputTokensUsed outputTokensUsed : ℕ) :
      Visit g s .executive resume [.decided] (.update { s with
        messages, prefetchedState, contextManifest, inputTokensUsed, outputTokensUsed
        decision := some (decisionDict d)
        route := some (ExecutiveGraph.routeOf d.kind)
        decisionCount := s.decisionCount + 1 })
  | responds {resume : Option Json} (text : String) :
      Visit g s .respond resume [] (.update { s with finalResponse := some text })
  | asks (prompt : Dict) : Visit g s .askUser none [] (.interrupt prompt)
  | hears (value : Json) (response : Dict) :
      Visit g s .askUser (some value) []
        (.update { s with userResponse := some response, route := some .executive })
  /-- The policy, or the check of a batch, turns a decision back to the model. -/
  | turnsBack {node : Node} {resume : Option Json} {events : List GraphEvent} (result : Dict)
      (hnode : node = .policy ∨ node = .parallelPolicy) (hjudged : Judged events) :
      Visit g s node resume events (ExecutiveGraph.backWith s result)
  | permits {resume : Option Json} (pending : PendingAction) (hknows : g.Knows pending.toolName)
      (hid : pending.actionId = g.actionId s pending.toolName) :
      Visit g s .policy resume [.evaluated pending.toCall .allow]
        (.update { s with pendingAction := some pending, route := some .execute })
  | questions {resume : Option Json} (pending : PendingAction) (hknows : g.Knows pending.toolName)
      (hid : pending.actionId = g.actionId s pending.toolName) :
      Visit g s .policy resume [.evaluated pending.toCall .requireConfirmation]
        (.update { s with pendingAction := some pending, route := some .confirmation })
  /-- The policy allows every call of a batch; the calls carry their numbers in the batch. -/
  | permitsBatch {resume : Option Json} (specs : List ToolCallSpec)
      (hknows : ∀ spec ∈ specs, g.Knows spec.toolName) :
      Visit g s .parallelPolicy resume (allowAll (specs.zipIdx.map (g.batchCall s))) (.update { s with
        pendingBatch := specs.zipIdx.map (g.batchCall s)
        route := some .parallelExecute })
  | stops {action : PendingAction} (haction : s.pendingAction = some action) (payload : Dict) :
      Visit g s .confirmation none [.asked action.actionId] (.interrupt payload)
  | confirms {action : PendingAction} {value : Json} (haction : s.pendingAction = some action)
      (hvalue : ExecutiveGraph.confirms value = true) :
      Visit g s .confirmation (some value) [.answered action.actionId value]
        (.update { s with route := some .execute })
  | declines {action : PendingAction} {value : Json} (haction : s.pendingAction = some action)
      (hvalue : ExecutiveGraph.confirms value = false) (result : Dict) :
      Visit g s .confirmation (some value) [.answered action.actionId value]
        (ExecutiveGraph.backWith s result)
  /-- An action goes to the ledger, and its execution raises. -/
  | failsToExecute {resume : Option Json} {action : PendingAction} {toolLimit externalLimit : ℤ}
      (haction : s.pendingAction = some action) (htool : g.toolLimit s = .ok toolLimit)
      (hexternal : g.externalLimit s = .ok externalLimit) (hcount : s.toolCallCount < toolLimit)
      (hroom : g.isExternal action.toolName = true → s.externalActionCount < externalLimit)
      (error : AgentError) : Visit g s .execute resume [.executed action.toCall] (.raises error)
  | executes {resume : Option Json} {action : PendingAction} {toolLimit externalLimit : ℤ}
      (haction : s.pendingAction = some action) (htool : g.toolLimit s = .ok toolLimit)
      (hexternal : g.externalLimit s = .ok externalLimit) (hcount : s.toolCallCount < toolLimit)
      (hroom : g.isExternal action.toolName = true → s.externalActionCount < externalLimit)
      (result : Dict) :
      Visit g s .execute resume [.executed action.toCall] (.update { s with
        toolResults := s.toolResults ++ [result]
        route := some .executive
        toolCallCount := s.toolCallCount + 1
        externalActionCount :=
          s.externalActionCount + if g.isExternal action.toolName then 1 else 0 })
  | executesBatch {resume : Option Json} {toolLimit externalLimit : ℤ}
      (htool : g.toolLimit s = .ok toolLimit) (hexternal : g.externalLimit s = .ok externalLimit)
      (hcount : (s.toolCallCount : ℤ) + s.pendingBatch.length ≤ toolLimit)
      (hroom : (s.externalActionCount : ℤ) + g.externalCount s.pendingBatch ≤ externalLimit)
      (results : List Dict) (hresults : results.length = s.pendingBatch.length + 1) :
      Visit g s .parallelExecute resume [.executedBatch s.pendingBatch] (.update { s with
        toolResults := s.toolResults ++ results
        route := some .executive
        toolCallCount := s.toolCallCount + s.pendingBatch.length
        externalActionCount := s.externalActionCount + g.externalCount s.pendingBatch })

/-- A step of a run that is not over: it visits the node that is next, or resumes the one that waits,
with a value and the claim token of the worker that resumes it. -/
inductive Step (g : ExecutiveGraph) : GraphRun → GraphRun → Prop
  | next {s : GraphState} {node : Node} {log events : List GraphEvent} {result : NodeResult}
      (hvisit : Visit g s node none events result) :
      Step g ⟨s, .next node, log⟩ (ExecutiveGraph.land node s (log ++ events) result)
  | resumed {s : GraphState} {node : Node} {log events : List GraphEvent} {result : NodeResult}
      {value : Json} {token : String}
      (hvisit : Visit g (ExecutiveGraph.claimedBy token s) node (some value) events result) :
      Step g ⟨s, .waiting node, log⟩
        (ExecutiveGraph.land node (ExecutiveGraph.claimedBy token s) (log ++ events) result)

/-!
## Permission to execute

What may come after what in the log of a run: an action goes to the ledger right after the policy
allowed it, or right after the user confirmed the interrupt that the policy asked for; a batch goes
there right after the policy allowed every call of it; and after the policy turned a call back nothing
happens before the model is asked again.
-/

/-- The user was asked about the call on the word of the policy, and confirmed. -/
def Confirmed (call : Call) (log : List GraphEvent) : Prop :=
  ∃ value, ExecutiveGraph.confirms value = true ∧
    [.evaluated call .requireConfirmation, .asked call.actionId,
      .answered call.actionId value] <:+ log

/-- The last thing that happened permits the call: the policy allowed it, or the user confirmed it. -/
def Permit (call : Call) (log : List GraphEvent) : Prop :=
  [.evaluated call .allow] <:+ log ∨ Confirmed call log

/-- The last thing that happened is that the policy turned a call back. -/
def Refused (log : List GraphEvent) : Prop :=
  ∃ call decision, (decision = PolicyDecision.deny ∨ decision = .requireMoreContext) ∧
    log.getLast? = some (.evaluated call decision)

/-- What an event asks of the events before it. -/
def MayFollow (log : List GraphEvent) : GraphEvent → Prop
  | .decided => True
  | .executed call => Permit call log
  | .executedBatch calls => allowAll calls <:+ log
  | .evaluated _ _ | .asked _ | .answered _ _ => ¬ Refused log

/-!
## The ids of actions

An action id is the `uuid5` of a name string, and the name string is made from the Run, the place in
the tool results, the number in a batch, and the tool.
-/

/-- What the name string of an action is made from. -/
inductive ActionKey where
  | single (position : ℕ) (toolName : String)
  | batch (position index : ℕ) (toolName : String)

namespace ActionKey

/-- The number of tool results when the id was made. -/
def position : ActionKey → ℕ
  | .single position _ | .batch position _ _ => position

def toolName : ActionKey → String
  | .single _ toolName | .batch _ _ toolName => toolName

/-- The place that the result of the action takes in the tool results. -/
def place : ActionKey → ℕ
  | .single position _ => position
  | .batch position index _ => position + index

/-- The name string. -/
def text (runId : String) : ActionKey → String
  | .single position toolName => s!"{runId}:{position}:{toolName}"
  | .batch position index toolName => s!"{runId}:{position}:batch:{index}:{toolName}"

/-- The action id. -/
def id (g : ExecutiveGraph) (runId : String) (key : ActionKey) : String :=
  (g.uuid5 (key.text runId)).str

end ActionKey

/-- The name strings that a run can have passed to `uuid5` so far: of the tools that it knows, and of
places up to the end of its tool results. -/
def nameStrings (g : ExecutiveGraph) (r : GraphRun) : Set String :=
  {name | ∃ key : ActionKey, g.Knows key.toolName ∧ key.place ≤ r.state.toolResults.length ∧
    name = key.text r.state.runId}

end Agent

/-!
## The searches of a run and its quota

The quota of a run is checked against `count_search_tools_in_results`, the searches that the tool
results stand for. What a run really searched is the number of its actions that got to a search tool.
-/

namespace Agent

/-! ## The searches that were made -/

/-- The claim of an action that was not executed before. -/
def ToolTurn.acquired (t : ToolTurn) : Bool :=
  match t.claim with
  | .ok (true, none) => true
  | _ => false

namespace ExecutiveGraph

/-- An action gets from the ledger to its tool. -/
def reachesTool (g : ExecutiveGraph) (s : GraphState) (t : ToolTurn) : Bool :=
  (uuidOf s.userId).isOk && (uuidOf s.runId).isOk && (!g.hasLedger || t.acquired) && t.started.isOk

/-- The calls that a visit of a node takes to the ledger, with their numbers. -/
def callsOf (g : ExecutiveGraph) (s : GraphState) : Node → List (Call × ℕ)
  | .execute =>
    match g.admitAction s with
    | .ok action => [(action.toCall, 0)]
    | .error _ => []
  | .parallelExecute =>
    match g.admitBatch s with
    | .ok _ => s.pendingBatch.zipIdx
    | .error _ => []
  | .buildInitialContext | .executive | .respond | .askUser | .policy | .parallelPolicy
  | .confirmation => []

/-- The executions of search tools in a visit of a node. -/
def searchExecutions (g : ExecutiveGraph) (node : Node) (s : GraphState) (t : Turn) : ℕ :=
  (g.callsOf s node).countP fun indexed =>
    countsAsSearch indexed.1.toolName && g.reachesTool s (t.tool indexed.2)

end ExecutiveGraph

/-- The node that a run visits next, the value that it is resumed with and the state. -/
def GraphRun.visited (r : GraphRun) (t : Turn) : Option (Node × Option Json × GraphState) :=
  match r.position with
  | .next node => some (node, none, r.state)
  | .waiting node =>
    some (node, some t.response, ExecutiveGraph.claimedBy t.runClaimToken r.state)
  | .ended | .raised _ => none

namespace ExecutiveGraph

/-- The executions of search tools in a step of a run. -/
def searchesOfStep (g : ExecutiveGraph) (r : GraphRun) (t : Turn) : ℕ :=
  match r.visited t with
  | some (node, _, s) => g.searchExecutions node s t
  | none => 0

/-- The executions of search tools in the first `n` steps of a run. -/
def searchesOfRun (g : ExecutiveGraph) (start : GraphRun) (turns : ℕ → Turn) : ℕ → ℕ
  | 0 => 0
  | n + 1 => g.searchesOfRun start turns n + g.searchesOfStep (g.run start turns n) (turns n)

/-- No worker of the run crashes: every action that goes to the ledger is new there and gets to its
tool, and no node raises. -/
structure CrashFree (g : ExecutiveGraph) (start : GraphRun) (turns : ℕ → Turn) (n : ℕ) : Prop where
  reaches : ∀ m < n, ∀ v ∈ (g.run start turns m).visited (turns m), ∀ k,
    g.reachesTool v.2.2 ((turns m).tool k) = true
  goes : ∀ m ≤ n, ∀ error, (g.run start turns m).position ≠ .raised error

/-! ## The quota -/

/-- The search tools that the policy limits. -/
def limitedSearches : List String := ["search_web", "url_inspect", "search.web", "search.official"]

/-- The quota of a state, as the policy reads it: `none` where `int` raises. -/
def searchLimit (g : ExecutiveGraph) (s : GraphState) : Option ℤ :=
  g.py.limit s.budgetSnapshot "max_search_queries" g.toolPolicy.searchMaxPerRun

/-- The quota is used up by `searches` searches. -/
def QuotaUsedUp (g : ExecutiveGraph) (s : GraphState) (searches : ℕ) : Prop :=
  ∃ limit, g.searchLimit s = some limit ∧ limit ≤ searches

/-- A state counts the searches right, and denies a search if and only if the quota is used up. -/
structure QuotaKept (g : ExecutiveGraph) (s : GraphState) (searches : ℕ) : Prop where
  /-- A single search. -/
  denies_iff : ∀ (d : ToolDefinition) (args : Dict), d.enabled = true → d.name ∈ limitedSearches →
    ((∃ result, g.toolPolicy.evaluate g.py d (some s) args = some result ∧
      result.code = "SEARCH_QUOTA_EXCEEDED") ↔ g.QuotaUsedUp s searches)
  /-- A batch with a search is refused for the quota only where it would exceed it. -/
  refuses_batch : ∀ (specs : List ToolCallSpec) (limits : BatchLimits),
    g.batchLimits s = .ok limits → 0 < searchesAmong (firstOccurrences specs) →
    (validateParallelBatch g.tools specs limits).code = "SEARCH_QUOTA_EXCEEDED" →
      limits.searchMaxPerRun < searches + searchesAmong (firstOccurrences specs)
  /-- A batch is accepted only where it does not exceed the quota. -/
  accepts_batch : ∀ (specs : List ToolCallSpec) (limits : BatchLimits),
    g.batchLimits s = .ok limits → (validateParallelBatch g.tools specs limits).ok = true →
      (searches : ℤ) + searchesAmong (firstOccurrences specs) ≤ limits.searchMaxPerRun

/-! ## Where the count is right -/

/-- The tool that the decision of a state asks for. -/
def requestedTool (s : GraphState) : Option String :=
  s.decision.bind fun decision => (decision.get "tool_name").bind Json.asStr?

/-- The visit of a node records no search that is not made and no search twice, as far as the quota is
not concerned: no unavailable search tool is asked for, no search is declined by the user and no batch
holds a search. -/
def VisitTallies (g : ExecutiveGraph) (node : Node) (resume : Option Json) (s : GraphState) : Prop :=
  match node with
  | .policy => ∀ name, requestedTool s = some name → countsAsSearch name = true → g.Knows name
  | .confirmation => ∀ action value, s.pendingAction = some action → resume = some value →
    countsAsSearch action.toolName = true → confirms value = true
  | .parallelExecute => ∀ call ∈ s.pendingBatch, countsAsSearch call.toolName = false
  | .buildInitialContext | .executive | .respond | .askUser | .parallelPolicy | .execute => True

/-- No search that the policy limits is asked for once the quota is used up. -/
def VisitWithinQuota (g : ExecutiveGraph) (searches : ℕ) (node : Node) (s : GraphState) : Prop :=
  node = .policy → ∀ name ∈ limitedSearches, requestedTool s = some name → ¬ g.QuotaUsedUp s searches

def StepTallies (g : ExecutiveGraph) (r : GraphRun) (t : Turn) : Prop :=
  ∀ v ∈ r.visited t, g.VisitTallies v.1 v.2.1 v.2.2

def StepWithinQuota (g : ExecutiveGraph) (searches : ℕ) (r : GraphRun) (t : Turn) : Prop :=
  ∀ v ∈ r.visited t, g.VisitWithinQuota searches v.1 v.2.2

end ExecutiveGraph

end Agent
