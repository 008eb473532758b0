import Laoshiren.Agent.Contracts
import Laoshiren.Foundation.Json
import Laoshiren.Foundation.Text

/-!
# What the model answers with

The reply of a model is a JSON value that is read as a decision. A reply that is none is an error of the
gateway that may be retried; the gateways retry these errors and no others.
-/

namespace Agent

open Raise

def DecisionKind.ofText (text : String) : Option DecisionKind :=
  [DecisionKind.respond, .askUser, .callTool, .callTools].find? fun kind => kind.value = text

/-- The error of a malformed reply. -/
def malformed (message : String) : AgentError :=
  .modelGatewayError "MODEL_INVALID_RESPONSE" message true

/-- The checks of `__post_init__`, in their order. The tokens are set later. -/
def newDecision (kind : DecisionKind) (content toolName : Option String) (toolArguments : Dict)
    (toolCalls : List ToolCallSpec) (prompt : Option Dict) : Except AgentError ExecutiveDecision :=
  if hcontent : kind = .respond ∧ content.getD "" = "" then
    .error (.valueError "A response decision requires content.")
  else if hprompt : kind = .askUser ∧ prompt = none then
    .error (.valueError "An ask-user decision requires a prompt.")
  else if hname : kind = .callTool ∧ toolName.getD "" = "" then
    .error (.valueError "A tool decision requires a tool name.")
  else if hcalls : kind = .callTools ∧ toolCalls = [] then
    .error (.valueError "A parallel tool decision requires at least one tool call.")
  else
    .ok
      { kind, content, toolName, toolArguments, toolCalls, prompt
        responds := fun hkind hempty => hcontent ⟨hkind, hempty⟩
        asks := fun hkind => Option.isSome_iff_ne_none.mpr fun hnone => hprompt ⟨hkind, hnone⟩
        calls := fun hkind hempty => hname ⟨hkind, hempty⟩
        callsAll := fun hkind hempty => hcalls ⟨hkind, hempty⟩ }

/-- The call that an object lists. -/
def parseCall (py : Builtins) (availableTools : List String) (fields : Dict) :
    Except AgentError ToolCallSpec := do
  let toolName := py.str ((fields.get "tool_name").getD (.str ""))
  ensure (malformed "Model selected an unavailable tool.") (toolName ∈ availableTools)
  match (fields.get "tool_arguments").getD (.obj []) with
  | .obj toolArguments => return ⟨toolName, toolArguments⟩
  | _ => throw (malformed "Model tool arguments must be an object.")

/-- The loop over the entries of a batch. -/
def parseCalls (py : Builtins) (availableTools : List String) :
    List Json → Except AgentError (List ToolCallSpec)
  | [] => return []
  | .obj fields :: entries => do
    let call ← parseCall py availableTools fields
    let calls ← parseCalls py availableTools entries
    return call :: calls
  | _ :: _ => throw (malformed "Each parallel tool entry must be an object.")

/-- The text of a reply before the blanks around it are taken off. -/
def replyText (py : Builtins) (fields : Dict) : String :=
  py.str ((fields.get "content").getD (.str ""))

def parseExecutiveDecision (py : Builtins) (value : Json) (availableTools : List String) :
    Except AgentError ExecutiveDecision :=
  match value with
  | .obj fields => do
    let kind ← orRaise (malformed "Model decision kind is invalid.")
      (((Dict.get fields "kind").map py.str).bind DecisionKind.ofText)
    match kind with
    | .respond => newDecision .respond (some (Text.strip (replyText py fields))) none [] [] none
    | .askUser =>
      match Dict.get fields "prompt" with
      | some (.obj prompt) => newDecision .askUser none none [] [] (some prompt)
      | _ => throw (malformed "Model ask-user prompt must be an object.")
    | .callTools =>
      match Dict.get fields "tools" with
      | some (.arr (entry :: entries)) => do
        let calls ← parseCalls py availableTools (entry :: entries)
        newDecision .callTools none none [] calls none
      | _ => throw (malformed "Parallel tool decision must include a non-empty tools array.")
    | .callTool => do
      let call ← parseCall py availableTools fields
      newDecision .callTool none (some call.toolName) call.toolArguments [] none
  | _ => throw (malformed "Model decision must be an object.")

/-! ## The gateways -/

/-- The error is one that may be retried. -/
def AgentError.retryable : AgentError → Bool
  | .modelGatewayError _ _ retryable => retryable
  | _ => false

/-- `FailoverExecutiveModelGateway.decide`. -/
def failover (primary : Except AgentError ExecutiveDecision)
    (secondary : Option (Except AgentError ExecutiveDecision)) :
    Except AgentError ExecutiveDecision :=
  match primary with
  | .ok decision => .ok decision
  | .error error => if error.retryable then secondary.getD (.error error) else .error error

/-- `RetryingExecutiveModelGateway.decide` from an attempt on, with so many attempts left. -/
def retrying (inner : ℕ → Except AgentError ExecutiveDecision) (attempt : ℕ) :
    ℕ → Except AgentError ExecutiveDecision
  | 0 => .error (.other "Unreachable model retry state.")
  | left + 1 =>
    match inner attempt with
    | .ok decision => .ok decision
    | .error error =>
      if ¬ error.retryable ∨ left = 0 then .error error else retrying inner (attempt + 1) left

/-! ## What a reply names -/

/-- An entry lists a call of an available tool. -/
def Lists (py : Builtins) (availableTools : List String) (entry : Json) (call : ToolCallSpec) :
    Prop :=
  ∃ fields : Dict, entry = .obj fields ∧
    call.toolName = py.str ((fields.get "tool_name").getD (.str "")) ∧
    call.toolName ∈ availableTools ∧
    (fields.get "tool_arguments").getD (.obj []) = .obj call.toolArguments

/-- A reply is of a kind. -/
def IsKind (py : Builtins) (fields : Dict) (kind : DecisionKind) : Prop :=
  (fields.get "kind").map py.str = some kind.value

/-- The decision is the one that a reply names. -/
def NamesDecision (py : Builtins) (availableTools : List String) (value : Json)
    (d : ExecutiveDecision) : Prop :=
  ∃ fields : Dict, value = .obj fields ∧ IsKind py fields d.kind ∧
    match d.kind with
    | .respond => ∃ text, d.content = some text ∧ text = Text.strip (replyText py fields) ∧
      Text.isBlank text = false
    | .askUser => ∃ prompt, d.prompt = some prompt ∧ fields.get "prompt" = some (.obj prompt)
    | .callTool => ∃ name, d.toolName = some name ∧
      Lists py availableTools value ⟨name, d.toolArguments⟩
    | .callTools => ∃ entries, fields.get "tools" = some (.arr entries) ∧
      List.Forall₂ (Lists py availableTools) entries d.toolCalls

/-- The reply is a response with nothing but blanks in it. -/
def BlankReply (py : Builtins) (value : Json) : Prop :=
  ∃ fields : Dict, value = .obj fields ∧ IsKind py fields .respond ∧
    Text.isBlank (replyText py fields) = true

/-- The reply is a call of a tool with an empty name, which is among the available ones. -/
def NamelessCall (py : Builtins) (availableTools : List String) (value : Json) : Prop :=
  ∃ (fields : Dict) (arguments : Dict), value = .obj fields ∧ IsKind py fields .callTool ∧
    Lists py availableTools value ⟨"", arguments⟩

/-- The reply is read as the decision that it names, or turned down with an error that may be
retried. -/
def ReadOrRetried (py : Builtins) (availableTools : List String) (value : Json) : Prop :=
  (∃ d, parseExecutiveDecision py value availableTools = .ok d ∧
      NamesDecision py availableTools value d) ∨
    ∃ error, parseExecutiveDecision py value availableTools = .error error ∧
      error.retryable = true

end Agent
