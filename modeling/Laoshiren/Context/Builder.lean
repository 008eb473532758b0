import Laoshiren.Context.Sections
import Laoshiren.Memories.Candidates

/-!
# The context of a model invocation

The builder chooses the recent messages of a thread, sums up the others, and shares what is left of the
total budget among memory, sources and attachments. Numbers of characters that are left are natural
numbers: where the code goes below zero it goes on with zero.
-/

namespace Context

open Runtime (MessageRole)

/-- `AgentContextBuilder`: its constructor accepts positive budgets only. -/
structure AgentContextBuilder where
  totalCharacters : ℕ := 24000
  recentMessageCharacters : ℕ := 8000
  summaryCharacters : ℕ := 3000
  memoryCharacters : ℕ := 5000
  sourceCharacters : ℕ := 8000
  attachmentCharacters : ℕ := 4000
  stateOverviewCharacters : ℕ := 3000
  activeThingCharacters : ℕ := 4000
  attentionCharacters : ℕ := 2000
  recentMessageCount : ℕ := 20
  positive : ∀ limit ∈ [totalCharacters, recentMessageCharacters, summaryCharacters,
    memoryCharacters, sourceCharacters, attachmentCharacters, stateOverviewCharacters,
    activeThingCharacters, attentionCharacters, recentMessageCount], 0 < limit := by decide

/-- What the builder reads of a message. -/
structure ContextMessage where
  id : UUID
  role : MessageRole
  content : String
  runId : Option UUID := none
  deriving DecidableEq

def roleText : MessageRole → String
  | .user => "USER"
  | .assistant => "ASSISTANT"
  | .systemEvent => "SYSTEM_EVENT"

/-- A recent message in the context. -/
structure RecentMessage where
  id : String
  role : String
  content : String
  runId : Option String
  deriving DecidableEq

def ContextMessage.recent (m : ContextMessage) : RecentMessage :=
  ⟨m.id.str, roleText m.role, m.content, m.runId.map UUID.str⟩

/-- An item of the source or attachment context: its `content`, if it has one, and its other fields. -/
structure SourceItem where
  content : Option String := none
  others : List (String × String) := []

/-- `item.get("content", "")`. -/
def SourceItem.text (item : SourceItem) : String := item.content.getD ""

/-- The two groups of the memory context. -/
structure MemoryContext where
  profile : List Dict := []
  relevant : List Dict := []

/-- `text[:n]`. -/
def cut (text : String) (n : ℕ) : String := String.ofList (text.toList.take n)

namespace AgentContextBuilder

variable (b : AgentContextBuilder) (py : Interpreter)

/-! ## Messages -/

/-- The loop of `_recent_messages` over the messages from the newest on. -/
def selectRecent (selected : List ContextMessage) (used : ℕ) :
    List ContextMessage → List ContextMessage
  | [] => selected
  | message :: older =>
    if selected ≠ [] ∧ (b.recentMessageCount ≤ selected.length ∨
        used + message.content.length > b.recentMessageCharacters) then selected
    else selectRecent (message :: selected) (used + message.content.length) older

/-- `_recent_messages`. -/
def recentMessages (messages : List ContextMessage) : List RecentMessage :=
  (b.selectRecent [] 0 messages.reverse).map ContextMessage.recent

/-- The line of a message in the summary of `count` messages. -/
def summaryLine (count : ℕ) (message : ContextMessage) : String :=
  let perMessage := max 1 (b.summaryCharacters / count)
  let normalized := Memories.Texts.joined message.content
  let before := roleText message.role ++ ": "
  before ++ cut normalized (max 1 (min 240 (perMessage - before.length - 1)))

/-- The loop of `_summarize`. -/
def summaryLines (count used : ℕ) : List ContextMessage → List String
  | [] => []
  | message :: messages =>
    let line := b.summaryLine count message
    if used + line.length > b.summaryCharacters then []
    else line :: summaryLines count (used + line.length + 1) messages

/-- `_summarize`. -/
def summarize (messages : List ContextMessage) : String :=
  if messages = [] then "" else "\n".intercalate (b.summaryLines messages.length 0 messages)

/-! ## Memory and sources -/

/-- What an item of the memory context costs. -/
def memoryCost (item : Dict) : ℕ :=
  (py.builtins.str ((item.get "content").getD (.str ""))).length +
    (py.builtins.str ((item.get "summary").getD (.str ""))).length

/-- The loop of `_trim_memory` over the items of a group, and what it leaves of the budget. -/
def trimGroup (remaining : ℕ) : List Json → List Dict × ℕ
  | [] => ([], remaining)
  | .obj item :: items =>
    let cost := memoryCost py item
    if cost > remaining then ([], remaining)
    else
      let (kept, left) := trimGroup (remaining - cost) items
      (item :: kept, left)
  | _ :: items => trimGroup remaining items

/-- `_trim_memory`. -/
def trimMemory (value : Dict) (budget : ℕ) : MemoryContext :=
  let group (key : String) : List Json := (((value.get key).bind Json.asList?).getD [])
  let (profile, left) := trimGroup py budget (group "profile")
  let (relevant, _) := trimGroup py left (group "relevant")
  { profile, relevant }

/-- `_measure_memory`. -/
def measureMemory (value : MemoryContext) : ℕ :=
  ((value.profile ++ value.relevant).map (memoryCost py)).sum

/-- `_trim_sources`. -/
def trimSources (remaining : ℕ) : List SourceItem → List SourceItem
  | [] => []
  | value :: values =>
    if remaining = 0 then []
    else
      let trimmed := cut value.text remaining
      if trimmed = "" then trimSources remaining values
      else { value with content := some trimmed } :: trimSources (remaining - trimmed.length) values

/-- The characters of the contents of a list of items. -/
def measureSources (items : List SourceItem) : ℕ := (items.map fun item => item.text.length).sum

end AgentContextBuilder

/-! ## The context -/

structure ContextStats where
  durableMessageCountLoaded : ℕ
  recentMessageCount : ℕ
  summarizedMessageCount : ℕ
  characterBudget : ℕ

/-- `current_reality`, which repeats sections of the prefetched state. -/
structure CurrentReality where
  stateOverview : List Section
  activeThingContext : List (String × Json)
  attentionCandidates : List (List (String × Json))
  attachmentContext : List SourceItem

/-- `prefetched_state`: a section that may be left out is empty then. -/
structure PrefetchedState where
  memoryContext : MemoryContext
  sourceContext : List SourceItem
  attachmentContext : List SourceItem
  contextStats : ContextStats
  stateOverview : List Section
  activeThingContext : List (String × Json)
  attentionCandidates : List (List (String × Json))
  threadSummary : String
  currentReality : CurrentReality

structure AgentContext where
  messages : List RecentMessage
  prefetchedState : PrefetchedState

/-- What the builder puts into a context, beside the messages. -/
structure ContextParts where
  memoryContext : Option Dict := none
  sourceContext : List SourceItem := []
  attachmentContext : List SourceItem := []
  stateOverview : Option StateOverview := none
  activeThingContext : List (String × Json) := []
  attention : List AttentionCandidate := []

namespace AgentContextBuilder

variable (b : AgentContextBuilder) (py : Interpreter)

/-- The messages that are summed up. -/
def omittedMessages (messages : List ContextMessage) : List ContextMessage :=
  messages.filter fun message => message.id.str ∉ (b.recentMessages messages).map RecentMessage.id

def build (messages : List ContextMessage) (parts : ContextParts) : AgentContext :=
  let recent := b.recentMessages messages
  let omitted := b.omittedMessages messages
  let summary := b.summarize omitted
  let used := (recent.map fun item => item.content.length).sum + summary.length
  let remaining := b.totalCharacters - used
  let memory := trimMemory py (parts.memoryContext.getD []) (min b.memoryCharacters remaining)
  let remaining := remaining - measureMemory py memory
  let sources := trimSources (min b.sourceCharacters remaining) parts.sourceContext
  let remaining := remaining - measureSources sources
  let attachments := trimSources (min b.attachmentCharacters remaining) parts.attachmentContext
  let overview :=
    match parts.stateOverview with
    | some overview => trimOverview py (overviewToPromptData py overview) b.stateOverviewCharacters
    | none => []
  let active := trimJsonDict py parts.activeThingContext b.activeThingCharacters
  let attention := trimAttention py b.attentionCharacters 0 parts.attention
  { messages := recent
    prefetchedState :=
      { memoryContext := memory
        sourceContext := sources
        attachmentContext := attachments
        contextStats :=
          { durableMessageCountLoaded := messages.length
            recentMessageCount := recent.length
            summarizedMessageCount := omitted.length
            characterBudget := b.totalCharacters }
        stateOverview := overview
        activeThingContext := active
        attentionCandidates := attention
        threadSummary := summary
        currentReality :=
          { stateOverview := overview
            activeThingContext := active
            attentionCandidates := attention
            attachmentContext := attachments } } }

end AgentContextBuilder

namespace AgentContext

/-- The characters of the recent messages. -/
def recentCharacters (context : AgentContext) : ℕ :=
  (context.messages.map fun item => item.content.length).sum

/-- The characters of the recent messages, the summary, memory, sources and attachments together. -/
def characters (py : Interpreter) (context : AgentContext) : ℕ :=
  context.recentCharacters + context.prefetchedState.threadSummary.length +
    AgentContextBuilder.measureMemory py context.prefetchedState.memoryContext +
    AgentContextBuilder.measureSources context.prefetchedState.sourceContext +
    AgentContextBuilder.measureSources context.prefetchedState.attachmentContext

end AgentContext

end Context
