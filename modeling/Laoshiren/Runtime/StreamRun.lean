import Laoshiren.Foundation.Blocks
import Laoshiren.Foundation.Json
import Laoshiren.Runtime.Journal
import Laoshiren.Runtime.RunService

/-!
# A stream while the log grows

A stream of the events of a Run from any cursor on, interleaved with the transactions of all other
clients. A statement of the stream reads any state that was committed by then.
-/

/-!
## The event stream of a Run

`GET /runs/{run_id}/events`: the events of a Run beyond a cursor and then, as long as the Run has not
ended and the reader is there, those that come. Between two looks at the log the stream passes on a
live frame or a heartbeat.
-/

namespace Runtime

/-- What the two sides of the stream make of values and texts. -/
structure Wire extends JsonText where
  isoformat : Timestamp → String

/-- The frames that `emit_ephemeral_frame` lets through. -/
inductive FrameType where
  | assistantDelta
  | streamReset
  deriving DecidableEq, Repr

def FrameType.value : FrameType → String
  | .assistantDelta => "assistant.delta"
  | .streamReset => "stream.reset"

structure EphemeralFrameDTO where
  runId : UUID
  frameType : FrameType
  data : Dict
  emittedAt : Timestamp
  deriving DecidableEq

/-! ## Texts -/

/-- The `envelope` of `_encode_event`. -/
def RunEvent.envelope (wire : Wire) (event : RunEvent) : Dict :=
  Dict.ofFields
    [("event_id", .str event.id.str), ("sequence", .num event.sequence),
      ("event", .str event.eventType.value), ("run_id", .str event.runId.str),
      ("occurred_at", .str (wire.isoformat event.occurredAt)),
      ("visibility", .str event.visibility), ("schema_version", .num event.schemaVersion),
      ("data", .obj event.data)]

/-- The `frame` that stands in the stream for a live frame. -/
def EphemeralFrameDTO.envelope (wire : Wire) (signal : EphemeralFrameDTO) : Dict :=
  Dict.ofFields
    [("run_id", .str signal.runId.str), ("frame_type", .str signal.frameType.value),
      ("emitted_at", .str (wire.isoformat signal.emittedAt)), ("data", .obj signal.data)]

/-- What `generate` yields. -/
inductive Frame where
  | event (event : RunEvent)
  | live (signal : EphemeralFrameDTO)
  | heartbeat
  deriving DecidableEq

/-- `_encode_event`, and the other texts of `generate`. -/
def Frame.text (wire : Wire) : Frame → List Char
  | .event e =>
    "id: ".toList ++ e.sequence.repr.toList ++ "\nevent: ".toList ++ e.eventType.value.toList ++
      "\ndata: ".toList ++ wire.dumps (e.envelope wire) ++ "\n\n".toList
  | .live signal =>
    "event: ".toList ++ signal.frameType.value.toList ++ "\ndata: ".toList ++
      wire.dumps (signal.envelope wire) ++ "\n\n".toList
  | .heartbeat => ": heartbeat\n\n".toList

/-- The object that a frame carries. -/
def Frame.payload (wire : Wire) : Frame → Option Dict
  | .event e => some (e.envelope wire)
  | .live signal => some (signal.envelope wire)
  | .heartbeat => none

/-! ## The stream -/

/-- The two cursors that a `Last-Event-ID` may give, a number and the id of an event. A text that is
a negative number may still be a UUID; then the number is kept, and all numbers are beyond it. -/
def parseLastEventId (py : Builtins) : Option String → Option (Option ℕ × Option UUID)
  | none => some (none, none)
  | some text =>
    match py.intOfText text with
    | some (.ofNat n) => some (some n, none)
    | some (.negSucc _) => (UUID.parse? text).map fun eventId => (some 0, some eventId)
    | none => (UUID.parse? text).map fun eventId => (none, some eventId)

/-- Where `generate` stands: in the `for` loop over the pending events or at the checks behind it,
before the next look at the log, or at its end. -/
inductive StreamStage where
  | sending
  | listing
  | ended
  deriving DecidableEq

/-- `generate` of a stream between two of its steps. -/
structure EventStream where
  userId : UUID
  runId : UUID
  follow : Bool
  cursor : Option ℕ
  pending : List RunEvent
  stage : StreamStage := .sending
  deriving DecidableEq

/-- Why a stream is refused. -/
inductive StreamRefusal where
  | badRequest (detail : String)
  | raised (error : RuntimeError)
  deriving DecidableEq

/-- `stream_run_events`. -/
def streamRunEvents (py : Builtins) (userId runId : UUID) (lastEventId : Option String)
    (follow : Bool) (view : ℕ → Store) : Except StreamRefusal EventStream :=
  match parseLastEventId py lastEventId with
  | none => .error (.badRequest "Last-Event-ID must be a non-negative sequence or UUID.")
  | some (afterSequence, legacyEventId) =>
    match listEvents userId runId legacyEventId afterSequence 200 view with
    | .error error => .error (.raised error)
    | .ok initial =>
      .ok { userId, runId, follow, pending := initial,
            cursor := (initial.getLast?.map RunEvent.sequence).or afterSequence }

/-- One step of `generate`, with what it yields. `disconnected` is the answer of
`request.is_disconnected()`, `signal` what the wait for a live frame brings. -/
def EventStream.next (stream : EventStream) (disconnected : Bool) (signal : Option EphemeralFrameDTO)
    (view : ℕ → Store) : EventStream × Option Frame :=
  match stream.stage with
  | .sending =>
    match stream.pending with
    | event :: pending =>
      ({ stream with cursor := some event.sequence, pending }, some (.event event))
    | [] =>
      match getRun (view 0) stream.userId stream.runId with
      | .error _ => ({ stream with stage := .ended }, none)
      | .ok run =>
        if !stream.follow || run.status.terminal then ({ stream with stage := .ended }, none)
        else if disconnected then ({ stream with stage := .ended }, none)
        else ({ stream with stage := .listing }, some (signal.elim .heartbeat .live))
  | .listing =>
    match listEvents stream.userId stream.runId none stream.cursor 200 view with
    | .error _ => ({ stream with stage := .ended }, none)
    | .ok page => ({ stream with pending := page, stage := .sending }, none)
  | .ended => (stream, none)

end Runtime

/-! ## A stream while the log grows -/

namespace Runtime

/-- Where a client asks a stream to begin. -/
inductive StreamCursor where
  | beginning
  | sequence (n : ℕ)
  | event (event : RunEvent)
  deriving DecidableEq

namespace StreamCursor

/-- The `Last-Event-ID` of the request. -/
def text : StreamCursor → Option String
  | .beginning => none
  | .sequence n => some n.repr
  | .event e => some e.id.str

/-- The number of the last event that is not asked for. -/
def number : StreamCursor → ℕ
  | .beginning => 0
  | .sequence n => n
  | .event e => e.sequence

/-- `int()` reads a number off its digits, and raises on the text of an event id. -/
def ReadBy (py : Builtins) : StreamCursor → Prop
  | .beginning => True
  | .sequence n => py.intOfText n.repr = some (n : ℤ)
  | .event e => py.intOfText e.id.str = none

/-- A cursor that names an event names one of the Run. -/
def Committed (runId : UUID) (events : Table RunEvent) : StreamCursor → Prop
  | .event e => e ∈ events ∧ e.runId = runId
  | _ => True

end StreamCursor

/-- The event of a frame that has one. -/
def Frame.durable : Frame → Option RunEvent
  | .event e => some e
  | _ => none

/-- A history of the Runtime with a stream in it. -/
structure StreamRun where
  history : History Store Op Reply
  cursor : StreamCursor
  stream : EventStream
  /-- The durable events that were yielded. -/
  emitted : List RunEvent := []
  /-- The log of the Run as the last look of the stream read it. -/
  read : List RunEvent
  /-- The number of the last event that was yielded before that look, or the cursor. -/
  since : ℕ
  /-- The state in which `get_run` read the terminal status with which the stream ended. -/
  observed : Option Store := none

namespace StreamRun

/-- The stream is opened; `s` is the state in which its first page was read. -/
def opened (history : History Store Op Reply) (cursor : StreamCursor) (stream : EventStream)
    (s : Store) : StreamRun :=
  { history, cursor, stream, read := eventsOf stream.runId s.events, since := cursor.number }

/-- A transaction commits. -/
def committed (x : StreamRun) (op : Op) (view : ℕ → Store) : StreamRun :=
  { x with history := system.extend x.history op view }

/-- `get_run` reads a terminal status. -/
def seesTerminal (stream : EventStream) (s : Store) : Bool :=
  stream.stage = .sending ∧ stream.pending = [] ∧
    ∃ run ∈ (getRun s stream.userId stream.runId).toOption, run.status.terminal = true

/-- The stream takes a step. -/
def serve (x : StreamRun) (disconnected : Bool) (signal : Option EphemeralFrameDTO)
    (view : ℕ → Store) : StreamRun :=
  let (stream, frame) := x.stream.next disconnected signal view
  let looked := x.stream.stage = .listing ∧ stream.stage = .sending
  { x with
    stream
    emitted := x.emitted ++ (frame.bind Frame.durable).toList
    read := if looked then eventsOf x.stream.runId (view 2).events else x.read
    since := if looked then x.cursor.number + x.emitted.length else x.since
    observed := if seesTerminal x.stream (view 0) then some (view 0) else x.observed }

/-- Every stream, with any transactions between its steps, in which each state that the stream takes a
step from meets `ok`. -/
inductive ReachableIf (py : Builtins) (ok : StreamRun → Prop) : StreamRun → Prop
  | connect {history : History Store Op Reply} (hr : system.Reachable history) {userId runId : UUID}
      {cursor : StreamCursor} {view : ℕ → Store} {stream : EventStream}
      (hview : ∀ n, view n ∈ history.states) (hread : cursor.ReadBy py)
      (hcommitted : cursor.Committed runId (view 1).events)
      (hstream : streamRunEvents py userId runId cursor.text true view = .ok stream) :
      ReachableIf py ok (opened history cursor stream (view 2))
  | commit {x : StreamRun} (hr : ReachableIf py ok x) (op : Op) (view : ℕ → Store)
      (hview : ∀ n, view n ∈ x.history.states) : ReachableIf py ok (x.committed op view)
  | serve {x : StreamRun} (hr : ReachableIf py ok x) (hok : ok x) (disconnected : Bool)
      (signal : Option EphemeralFrameDTO) (view : ℕ → Store)
      (hview : ∀ n, view n ∈ x.history.states) :
      ReachableIf py ok (x.serve disconnected signal view)

/-- The events of the Run in a state. -/
def log (x : StreamRun) (s : Store) : List RunEvent := eventsOf x.stream.runId s.events

/-- The stream yields exactly the events beyond its cursor. -/
structure Exact (x : StreamRun) : Prop where
  /-- Each once, in order and from the first one on. -/
  begins : x.emitted <+: (x.log x.history.cur).drop x.cursor.number
  numbers : x.emitted.map RunEvent.sequence =
    List.range' (x.cursor.number + 1) x.emitted.length
  /-- Every look brings all that there was, or 200 events more. -/
  goesOn : x.read.drop x.cursor.number <+: x.emitted ++ x.stream.pending ∨
    x.cursor.number + (x.emitted ++ x.stream.pending).length = x.since + 200
  /-- Nothing that was committed before the terminal status was observed is missing. -/
  ends : ∀ s, x.observed = some s → (x.log s).drop x.cursor.number <+: x.emitted

/-- A stream that was opened with the id of an event looks again only with the number of an event that
it has yielded. -/
def KnowsPlace (x : StreamRun) : Prop :=
  x.stream.stage = .listing → x.stream.cursor = none → x.cursor.number = 0

/-- Between the last look and the `get_run` that read a terminal status no event of the Run was
committed, and the look did not stop at its limit before an event. -/
def EndsInTime (x : StreamRun) : Prop :=
  ∀ s, x.observed = some s → ∀ e ∈ x.log s, x.since < e.sequence →
    e ∈ x.read ∧ e.sequence ≤ x.since + 200

end StreamRun

end Runtime
