import Laoshiren.Foundation.Blocks
import Laoshiren.Foundation.Json
import Laoshiren.Foundation.Text
import Laoshiren.Runtime.Entities

/-!
# The chat of the HarmonyOS client

`AgentStreamClient`, which reads an event stream, and `ChatViewModel`, which follows a Run with it and
answers the questions of the Run. A `follow` that is under way awaits one thing after the other: the
end of the stream, the answer of `getRun`, the messages.
-/

namespace HarmonyOS

/-- A Run as the API answers it. -/
structure AgentRun where
  id : UUID
  status : String
  interruptId : Option UUID := none
  errorCode : Option String := none
  version : ℕ
  lastEventSequence : Option ℕ := none
  pendingInteraction : Option Dict := none
  deriving DecidableEq

/-- `to_run_dto`, `RunResponse` and the parsing of the answer. -/
def AgentRun.ofRun (run : Runtime.AgentRun) : AgentRun where
  id := run.id
  status := run.status.value
  interruptId := run.interruptId
  errorCode := run.errorCode
  version := run.version
  lastEventSequence := some run.eventSequence
  pendingInteraction := do
    let interruptId ← run.interruptId
    let interrupt ← run.interrupt
    return Dict.ofFields
      [("interaction_id", .str interruptId.str),
        ("type", (interrupt.get "type").getD (.str "CONFIRMATION")),
        ("action_id", (interrupt.get "action_id").getD .null), ("request", .obj interrupt)]

/-! ## The stream -/

/-- The white space that `trim` takes off. -/
def isWhiteSpace (c : Char) : Bool :=
  let n := c.toNat
  (9 ≤ n && n ≤ 13) || n == 32 || n == 0xA0 || n == 0x1680 || (0x2000 ≤ n && n ≤ 0x200A) ||
    n == 0x2028 || n == 0x2029 || n == 0x202F || n == 0x205F || n == 0x3000 || n == 0xFEFF

/-- The value that a block of the stream carries: `none` where it has no `data:` line, and where its
text does not parse. -/
def readBlock (json : JsonText) (block : List Char) : Option Json :=
  ((block.splitOn '\n').find? fun line => "data:".toList.isPrefixOf line).bind fun line =>
    json.parse (Text.trim isWhiteSpace (line.drop 5))

/-- `AgentStreamClient`: whether there is an active request, and the text that is not read yet. -/
structure AgentStreamClient where
  active : Bool := true
  buffer : List Char := []
  deriving DecidableEq

/-- `close`. -/
def AgentStreamClient.close (stream : AgentStreamClient) : AgentStreamClient :=
  { stream with active := false }

/-! ## Following a Run -/

/-- The Run that waits for an answer of the user. -/
abbrev WaitingRun := { run : AgentRun // run.status = "WAITING_USER" }

/-- `ChatViewModel`. `lastEventSequence` is `none` where it is `NaN`. -/
structure ChatViewModel where
  busy : Bool := false
  statusText : String := ""
  errorText : String := ""
  waitingRun : Option WaitingRun := none
  lastEventSequence : Option ℚ := some 0
  deriving DecidableEq

/-- `event.key`: `none` where it is `undefined`. -/
def property (event : Json) (key : String) : Option Json := event.asDict?.bind (·.get key)

/-- `Math.max(a, b)`. -/
def mathMax : Option ℚ → Option Json → Option ℚ
  | some a, some (.num b) => some (max a b)
  | _, _ => none

/-- The handler that `follow` passes to `followRun`, and whether it closes the stream. On `null` it
throws before it does anything, and the stream goes on. -/
def onEvent (viewModel : ChatViewModel) (event : Json) : ChatViewModel × Bool :=
  if event.isNone then (viewModel, false)
  else
    let viewModel := { viewModel with
      lastEventSequence := mathMax viewModel.lastEventSequence (property event "sequence") }
    let name := property event "event"
    if name = some (.str "assistant.message") then
      ({ viewModel with statusText := "正在整理回复…" }, false)
    else if name = some (.str "status.updated") ∨ name = some (.str "tool.started") then
      ({ viewModel with statusText := "正在处理…" }, false)
    else if name = some (.str "interrupt.required") then (viewModel, true)
    else if name = some (.str "run.failed") then
      ({ viewModel with errorText := "处理失败，可以重试上一条消息" }, false)
    else (viewModel, false)

/-- What a `follow` awaits, and how it ends. -/
inductive FollowStage where
  | streaming
  | rereading
  | refreshing (latest : AgentRun)
  | returned (latest : AgentRun)
  | threw
  deriving DecidableEq

/-- A call of `onEvent`: its argument, and whether the stream is closed when it returns. -/
structure Handled where
  event : Json
  closed : Bool
  deriving DecidableEq

/-- A call of `follow`, with the calls of `onEvent` that it made. -/
structure Follow where
  viewModel : ChatViewModel
  stream : AgentStreamClient := {}
  afterSequence : Option ℕ
  interrupted : Bool := false
  handled : List Handled := []
  stage : FollowStage := .streaming

namespace Follow

/-- `follow(run)` up to the request. -/
def start (viewModel : ChatViewModel) (run : AgentRun) : Follow :=
  let lastEventSequence := run.lastEventSequence.getD 0
  { viewModel := { viewModel with lastEventSequence := some lastEventSequence }
    afterSequence := if lastEventSequence > 0 then some lastEventSequence else none }

/-- The header `Last-Event-ID` of the request. -/
def lastEventId (f : Follow) : Option String := f.afterSequence.map Nat.repr

/-- One event for the handler. -/
def handle (f : Follow) (event : Json) : Follow :=
  let (viewModel, closes) := onEvent f.viewModel event
  let stream := if closes then f.stream.close else f.stream
  { f with
    viewModel, stream
    interrupted := f.interrupted || closes
    handled := f.handled ++ [⟨event, !stream.active⟩] }

/-- `consume`. -/
def consume (json : JsonText) (flush : Bool) (f : Follow) : Follow :=
  let (blocks, rest) := Blocks.cut '\n' f.stream.buffer
  let f := { f with stream := { f.stream with buffer := if flush then [] else rest } }
  ((if flush then blocks ++ [rest] else blocks).filterMap (readBlock json)).foldl handle f

/-- The listener of `dataReceive`. -/
def dataReceive (json : JsonText) (chunk : List Char) (f : Follow) : Follow :=
  consume json false { f with stream := { f.stream with buffer := f.stream.buffer ++ chunk } }

/-- The listener of `dataEnd`. -/
def dataEnd (json : JsonText) (f : Follow) : Follow := consume json true f

/-- The end of `requestInStream`: a status code, or none where it throws. An error passes on unless
the handler has closed the stream. -/
def settle (statusCode : Option ℕ) (f : Follow) : Follow :=
  let ok : Bool := statusCode.any fun code => 200 ≤ code && code < 300
  { f with stream := f.stream.close, stage := if ok || f.interrupted then .rereading else .threw }

/-- The answer of `getRun`: `none` where it throws. -/
def reread (answer : Option AgentRun) (f : Follow) : Follow :=
  match answer with
  | none => { f with stage := .threw }
  | some latest =>
    { f with
      viewModel :=
        if h : latest.status = "WAITING_USER" then
          { f.viewModel with waitingRun := some ⟨latest, h⟩, statusText := "需要你的确认" }
        else if latest.status = "FAILED" then
          -- The API answers `null` where there is no code, and `null` is not `undefined`.
          { f.viewModel with errorText := "处理失败：" ++ latest.errorCode.getD "null" }
        else f.viewModel
      stage := .refreshing latest }

/-- The answer of `refreshMessages`. -/
def refreshed (ok : Bool) (latest : AgentRun) (f : Follow) : Follow :=
  { f with stage := if ok then .returned latest else .threw }

end Follow

/-! ## Answering -/

/-- The request that `resumeRun` sends. -/
inductive ResumeRequest where
  | respond (runId : UUID) (interactionId : String) (action : String) (expectedVersion : ℕ)
  | resume (runId : UUID) (interruptId : Option UUID) (action : String) (expectedVersion : ℕ)
  deriving DecidableEq

/-- `resumeRun`. -/
def resumeRun (run : AgentRun) (approved : Bool) : ResumeRequest :=
  let action := if approved then "confirm" else "cancel"
  match run.pendingInteraction.bind (·.get "interaction_id") with
  | some (.str interactionId) => .respond run.id interactionId action run.version
  | _ => .resume run.id run.interruptId action run.version

/-- The request that `respondToInterrupt` begins with, if any. -/
def respondToInterrupt (viewModel : ChatViewModel) (approved : Bool) : Option ResumeRequest :=
  if viewModel.busy then none
  else viewModel.waitingRun.map fun run => resumeRun run.val approved

end HarmonyOS
