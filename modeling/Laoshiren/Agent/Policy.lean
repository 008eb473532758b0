import Laoshiren.Agent.Parallel
import Laoshiren.Foundation.Json
import Laoshiren.PersonalState.Entities

/-!
# The tool policy

What the policy says to a tool call in a state of the graph, before anything is executed.
-/

namespace Agent

open PersonalState

inductive PolicyDecision where
  | allow
  | deny
  | requireConfirmation
  | requireMoreContext
  deriving DecidableEq, Repr

structure PolicyResult where
  decision : PolicyDecision
  code : String
  message : String
  deriving DecidableEq

/-! ## Reading the arguments -/

/-- `_parse_bool`: a text is read without regard to case and to blanks around it. -/
def parseBool (value : Option Json) (default : Bool) : Bool :=
  match value with
  | some (.bool b) => b
  | some (.str text) =>
    let normalized := (Text.strip text).toLower
    if normalized ∈ ["true", "1", "yes"] then true
    else if normalized ∈ ["false", "0", "no"] then false
    else default
  | _ => default

/-- The `source_id` that is a text and not blank. -/
def givenSourceId (arguments : Dict) : Option String :=
  ((arguments.get "source_id").bind Json.asStr?).filter fun text => !Text.isBlank text

/-- `_has_source_provenance`. -/
def hasSourceProvenance (arguments : Dict) : Bool :=
  match givenSourceId arguments with
  | some sourceId => (UUID.parse? sourceId).isSome
  | none => ((arguments.get "source_refs").bind Json.asList?).any fun refs => !refs.isEmpty

/-- The texts of a list that are not blank, without the blanks around them. -/
def strippedTexts (items : List Json) : List String :=
  ((items.filterMap Json.asStr?).map Text.strip).filter fun text => text ≠ ""

/-- `_evidence_urls`. -/
def evidenceUrls (arguments : Dict) : List String :=
  strippedTexts (((arguments.get "evidence_urls").bind Json.asList?).getD [])

/-- `extract_urls_from_search_payload`. -/
def extractUrlsFromSearchPayload (data : Dict) : List String :=
  let items := ((data.get "items").bind Json.asList?).getD []
  strippedTexts ((items.filterMap Json.asDict?).filterMap fun item => item.get "url")

/-- The tool result is a successful answer of a search tool. -/
def isSearchSuccess (result : Dict) : Bool :=
  result.get "status" = some (.str "SUCCESS") ∧
    ["search_web", "url_inspect", "search.official"].any fun name =>
      result.get "tool_name" = some (.str name)

/-- `_search_urls_from_state`. -/
def searchUrlsFromState (state : Option GraphState) : List String :=
  match state with
  | none => []
  | some s =>
    (s.toolResults.filter isSearchSuccess).flatMap fun result =>
      extractUrlsFromSearchPayload (((result.get "data").bind Json.asDict?).getD [])

/-- `_has_verified_search_evidence`. -/
def hasVerifiedSearchEvidence (state : Option GraphState) (arguments : Dict) : Bool :=
  (evidenceUrls arguments).any fun url => url ∈ searchUrlsFromState state

/-- `_prefetched_thing_has_deadline`. -/
def prefetchedThingHasDeadline (py : Builtins) (s : GraphState) (thingId : String) : Bool :=
  match (s.prefetchedState.get "active_thing_context").getD (.obj []) with
  | .obj active =>
    py.str ((Dict.get active "thing_id").getD (.str "")) = thingId ∧
      (Dict.get? active "deadline_at").isSome
  | _ => false

/-! ## The policy -/

structure ToolPolicy where
  searchMaxPerRun : ℤ := 6

namespace ToolPolicy

def allowed : PolicyResult := ⟨.allow, "ALLOWED", "Tool execution is allowed."⟩

/-- The branch of the search tools: `none` where `int` raises. -/
def evaluateSearch (policy : ToolPolicy) (py : Builtins) (state : Option GraphState) :
    Option PolicyResult :=
  let allowed : PolicyResult := ⟨.allow, "ALLOWED", "Search is allowed."⟩
  match state with
  | none => some allowed
  | some s =>
    (py.limit s.budgetSnapshot "max_search_queries" policy.searchMaxPerRun).map fun (limit : ℤ) =>
      if limit ≤ (countSearchToolsInResults s.toolResults : ℤ) then
        ⟨.deny, "SEARCH_QUOTA_EXCEEDED", "Search quota for this run has been exceeded."⟩
      else allowed

/-- The branch of the dates: `none` where it leaves the decision to the risk of the tool. -/
def evaluateDate (py : Builtins) (state : Option GraphState) (args : Dict) : Option PolicyResult :=
  let confirmed :=
    DateCertainty.ofText (py.str ((args.get "certainty").getD .null)) = some .confirmed
  let isPrimary := parseBool (args.get "is_primary") true
  let thingId := py.str ((args.get "thing_id").getD (.str ""))
  let hasSource := hasSourceProvenance args
  let hasSearchEvidence := hasVerifiedSearchEvidence state args
  if confirmed ∧ isPrimary ∧ ¬ hasSource ∧ ¬ hasSearchEvidence then
    some ⟨.requireMoreContext, "DEADLINE_NEEDS_VERIFICATION",
      "Confirmed primary deadlines require source evidence or explicit user confirmation."⟩
  else if confirmed ∧ isPrimary ∧ (hasSource ∨ hasSearchEvidence) ∧ thingId ≠ "" ∧
      state.any fun s => prefetchedThingHasDeadline py s thingId then
    some ⟨.requireConfirmation, "DEADLINE_OVERWRITE",
      "Overwriting an existing deadline requires user confirmation even with source evidence."⟩
  else if hasSource ∧ confirmed then
    some ⟨.allow, "SOURCE_VERIFIED_DEADLINE", "Source-backed confirmed deadline is allowed."⟩
  else if hasSearchEvidence ∧ confirmed then
    some ⟨.allow, "SEARCH_VERIFIED_DEADLINE", "Search-backed confirmed deadline is allowed."⟩
  else none

/-- The decision by the risk of the tool alone. -/
def evaluateRisk (definition : ToolDefinition) : PolicyResult :=
  if definition.risk = .sensitiveWrite ∨ definition.risk = .irreversible then
    ⟨.requireConfirmation, "CONFIRMATION_REQUIRED", "Explicit user confirmation is required."⟩
  else allowed

/-- `evaluate`: `none` where `int` raises on the search limit of the budget. -/
def evaluate (policy : ToolPolicy) (py : Builtins) (definition : ToolDefinition)
    (state : Option GraphState) (args : Dict) : Option PolicyResult :=
  if ¬ definition.enabled then some ⟨.deny, "TOOL_DISABLED", "Tool is disabled."⟩
  else if definition.name ∈ ["search_web", "url_inspect", "search.web", "search.official"] then
    policy.evaluateSearch py state
  else if definition.name ∈ ["thing_date_set", "state.set_deadline"] then
    some ((evaluateDate py state args).getD (evaluateRisk definition))
  else some (evaluateRisk definition)

end ToolPolicy

end Agent
