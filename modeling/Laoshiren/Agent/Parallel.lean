import Laoshiren.Agent.Contracts

/-!
# Parallel batches

What a batch of tool calls has to meet before any of them is looked at by the policy: read-only tools
that exist, within the limits of the Run. A call that occurs twice is made once.
-/

namespace Agent

/-- The tools that count against the search quota. -/
def countsAsSearch (toolName : String) : Bool :=
  toolName = "search_web" ∨ toolName = "url_inspect" ∨ toolName.startsWith "search."

/-- The searches that one tool result stands for. -/
def searchesIn (result : Dict) : ℕ :=
  let toolName := (result.get "tool_name").bind Json.asStr?
  if toolName.any countsAsSearch then 1
  else
    let names := ((result.get "batch_tool_names").bind Json.asList?).getD []
    (names.filterMap Json.asStr?).countP countsAsSearch

/-- `count_search_tools_in_results`. -/
def countSearchToolsInResults (toolResults : List Dict) : ℕ := (toolResults.map searchesIn).sum

structure ParallelBatchValidation where
  ok : Bool
  code : String
  message : String
  specs : List ToolCallSpec := []
  deriving DecidableEq

/-- The limits of a batch. -/
structure BatchLimits where
  toolCallCount : ℕ
  maxToolCalls : ℤ
  parallelReadMax : ℤ
  searchCountInRun : ℕ
  searchMaxPerRun : ℤ

mutual

/-- A value with the fields of its objects in the order of their keys. -/
def canonical : Json → Json
  | .arr items => .arr (canonicalItems items)
  | .obj fields => .obj (canonicalFields fields)
  | .null => .null
  | .bool b => .bool b
  | .num q => .num q
  | .str text => .str text

def canonicalItems : List Json → List Json
  | [] => []
  | item :: items => canonical item :: canonicalItems items

def canonicalFields : List (String × Json) → Dict
  | [] => []
  | (key, value) :: fields => Dict.set (canonicalFields fields) key (canonical value)

end

/-- `canonicalize_arguments`. Two values have one text exactly if they are the same up to the order of
their keys, so that the value with its keys in order stands for the text. -/
def canonicalizeArguments (arguments : Dict) : Dict := canonicalFields arguments

/-- The key under which the loop below has seen a call. -/
def seenKey (spec : ToolCallSpec) : String × Dict :=
  (spec.toolName, canonicalizeArguments spec.toolArguments)

/-- The calls have the same key. -/
def sameCall (spec other : ToolCallSpec) : Bool := seenKey spec = seenKey other

/-- The loop over the calls of a batch: `unique` are the calls kept so far, in reverse. -/
def uniqueSpecs (registry : ToolRegistry) (unique : List ToolCallSpec) :
    List ToolCallSpec → Except ParallelBatchValidation (List ToolCallSpec)
  | [] => .ok unique.reverse
  | spec :: specs =>
    match registry.get spec.toolName with
    | none =>
      .error
        { ok := false
          code := "TOOL_NOT_FOUND"
          message := "Tool is unavailable: " ++ spec.toolName }
    | some d =>
      if d.risk ≠ .read then
        .error
          { ok := false
            code := "PARALLEL_WRITE_FORBIDDEN"
            message := "Parallel batches may only include read-only tools." }
      else if unique.any (sameCall spec) then uniqueSpecs registry unique specs
      else uniqueSpecs registry (spec :: unique) specs

def validateParallelBatch (registry : ToolRegistry) (specs : List ToolCallSpec)
    (limits : BatchLimits) : ParallelBatchValidation :=
  if specs = [] then
    { ok := false
      code := "PARALLEL_BATCH_EMPTY"
      message := "Parallel batch must include at least one tool." }
  else if (specs.length : ℤ) > limits.parallelReadMax then
    { ok := false
      code := "PARALLEL_BATCH_TOO_LARGE"
      message := s!"Parallel batch exceeds the limit of {limits.parallelReadMax} tools." }
  else if (limits.toolCallCount : ℤ) + specs.length > limits.maxToolCalls then
    { ok := false
      code := "TOOL_BUDGET_EXCEEDED"
      message := "Parallel batch would exceed the tool-call budget for this run." }
  else
    match uniqueSpecs registry [] specs with
    | .error refused => refused
    | .ok unique =>
      let searchInBatch := unique.countP fun spec => countsAsSearch spec.toolName
      if searchInBatch > 2 then
        { ok := false
          code := "SEARCH_BATCH_LIMIT"
          message := "Parallel batch may include at most two search tools." }
      else if (limits.searchCountInRun : ℤ) + searchInBatch > limits.searchMaxPerRun then
        { ok := false
          code := "SEARCH_QUOTA_EXCEEDED"
          message := "Search quota for this run has been exceeded." }
      else { ok := true, code := "OK", message := "Parallel batch is valid.", specs := unique }

/-! ## What an accepted batch is -/

/-- The calls of a batch without the ones that were made before, in their order. -/
def firstOccurrences (specs : List ToolCallSpec) : List ToolCallSpec := specs.eraseDupsBy sameCall

/-- The searches among the calls of a batch. -/
def searchesAmong (specs : List ToolCallSpec) : ℕ :=
  specs.countP fun spec => countsAsSearch spec.toolName

/-- The calls `kept` are those of an accepted batch: the first occurrences of its calls, which are all
calls of enabled read-only tools, and within the limits. -/
structure AcceptedBatch (registry : ToolRegistry) (specs : List ToolCallSpec) (limits : BatchLimits)
    (kept : List ToolCallSpec) : Prop where
  kept_eq : kept = firstOccurrences specs
  nonempty : specs ≠ []
  reads : ∀ spec ∈ specs, ∃ d,
    registry.get spec.toolName = some d ∧ d.enabled = true ∧ d.risk = .read
  size_le : (specs.length : ℤ) ≤ limits.parallelReadMax
  calls_le : (limits.toolCallCount : ℤ) + specs.length ≤ limits.maxToolCalls
  searches_le_two : searchesAmong kept ≤ 2
  searches_le : (limits.searchCountInRun : ℤ) + searchesAmong kept ≤ limits.searchMaxPerRun

end Agent
