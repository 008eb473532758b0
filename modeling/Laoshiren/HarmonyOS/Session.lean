import Laoshiren.HarmonyOS.Chat
import Laoshiren.Runtime.Journal
import Laoshiren.Runtime.StreamRun
import Laoshiren.Runtime.System

/-!
# A client that follows a Run

The two parties of a `follow`: the Runtime, in which any transactions commit while the stream is
served, and the client. The text that the stream has yielded arrives in any pieces, in order. When
the request ends, and with which status code, is up to the platform; so is whether a request is
answered.
-/

namespace HarmonyOS

open Runtime

/-- A `follow` with what it follows. -/
structure Session where
  history : History Store Op Reply
  userId : UUID
  runId : UUID
  /-- The stream, once the request for it is answered. -/
  server : Option EventStream := none
  /-- What the stream has yielded. -/
  sent : List Frame := []
  /-- The text that has arrived. -/
  received : List Char := []
  client : Follow

namespace Session

/-- A session begins with a call of `follow`. -/
def start (history : History Store Op Reply) (userId : UUID) (viewModel : ChatViewModel)
    (run : AgentRun) : Session where
  history := history
  userId := userId
  runId := run.id
  client := Follow.start viewModel run

/-- The text of all that was yielded. -/
def text (wire : Wire) (frames : List Frame) : List Char := frames.flatMap (Frame.text wire)

/-- A transaction commits. -/
def committed (x : Session) (op : Op) (view : ℕ → Store) : Session :=
  { x with history := system.extend x.history op view }

/-- The stream is there. -/
def connected (x : Session) (stream : EventStream) : Session := { x with server := some stream }

/-- The stream takes a step. -/
def served (x : Session) (step : EventStream × Option Frame) : Session :=
  { x with server := some step.1, sent := x.sent ++ step.2.toList }

/-- A piece of text arrives. -/
def receives (wire : Wire) (x : Session) (chunk : List Char) : Session :=
  { x with
    received := x.received ++ chunk
    client := x.client.dataReceive wire.toJsonText chunk }

/-- The client alone takes a step. -/
def goes (x : Session) (client : Follow) : Session := { x with client }

/-- One step of a session. A statement reads any state that was committed by then. -/
inductive Step (py : Builtins) (wire : Wire) (x : Session) : Session → Prop
  | commit (op : Op) (view : ℕ → Store) (hview : ∀ n, view n ∈ x.history.states) :
      Step py wire x (x.committed op view)
  | connect {stream : EventStream} (view : ℕ → Store) (hview : ∀ n, view n ∈ x.history.states)
      (hserver : x.server = none)
      (hstream : streamRunEvents py x.userId x.runId x.client.lastEventId true view = .ok stream) :
      Step py wire x (x.connected stream)
  | serve {stream : EventStream} (disconnected : Bool) (signal : Option EphemeralFrameDTO)
      (view : ℕ → Store) (hview : ∀ n, view n ∈ x.history.states) (hserver : x.server = some stream) :
      Step py wire x (x.served (stream.next disconnected signal view))
  | receive (chunk : List Char) (hactive : x.client.stream.active = true)
      (hchunk : x.received ++ chunk <+: text wire x.sent) : Step py wire x (x.receives wire chunk)
  | dataEnd {stream : EventStream} (hactive : x.client.stream.active = true)
      (hserver : x.server = some stream) (hended : stream.stage = .ended)
      (hall : x.received = text wire x.sent) :
      Step py wire x (x.goes (x.client.dataEnd wire.toJsonText))
  | close : Step py wire x (x.goes { x.client with stream := x.client.stream.close })
  | settle (statusCode : Option ℕ) (hstage : x.client.stage = .streaming) :
      Step py wire x (x.goes (x.client.settle statusCode))
  | reread {run : Runtime.AgentRun} {s : Store} (hs : s ∈ x.history.states)
      (hstage : x.client.stage = .rereading) (hrun : getRun s x.userId x.runId = .ok run) :
      Step py wire x (x.goes (x.client.reread (some (.ofRun run))))
  | rereadFails (hstage : x.client.stage = .rereading) :
      Step py wire x (x.goes (x.client.reread none))
  | refreshed {latest : AgentRun} (ok : Bool) (hstage : x.client.stage = .refreshing latest) :
      Step py wire x (x.goes (x.client.refreshed ok latest))

/-- The sessions of a client that follows a Run at any time of any history. -/
inductive Reachable (py : Builtins) (wire : Wire) : Session → Prop
  | start {history : History Store Op Reply} (hr : system.Reachable history) (userId : UUID)
      (viewModel : ChatViewModel) (run : AgentRun) :
      Reachable py wire (start history userId viewModel run)
  | step {x x' : Session} (hr : Reachable py wire x) (hstep : Step py wire x x') :
      Reachable py wire x'

/-- What the object of a frame has to keep on its way. -/
def Carried (wire : Wire) (frame : Frame) : Prop := ∀ fields ∈ frame.payload wire, wire.Keeps fields

/-! ## The question reaches the user -/

/-- The Run waits for the user. -/
def Waits (s : Store) (runId : UUID) : Prop :=
  ∃ run ∈ s.runs, run.id = runId ∧ run.status = .waitingForUser

/-- The last event of the Run that the commit appended with which it went to wait. -/
def WaitEvent (history : History Store Op Reply) (runId : UUID) (event : RunEvent) : Prop :=
  ∃ before after, [after, before] <:+: history.states ∧ ¬ Waits before runId ∧ Waits after runId ∧
    (eventsOf runId after.events).getLast? = some event

/-- The whole frame of an event has arrived. -/
def Arrived (wire : Wire) (x : Session) (event : RunEvent) : Prop :=
  ∃ frames, frames ++ [.event event] <+: x.sent ∧
    text wire (frames ++ [.event event]) <+: x.received

/-- The user is asked: the client has closed the stream when it has handled the event with which the
Run waits, and once `follow` has returned, `waitingRun` is the Run if and only if it waits. -/
structure Asks (x : Session) : Prop where
  closes : ∀ event, WaitEvent x.history x.runId event → ∀ call ∈ x.client.handled,
    property call.event "event_id" = some (.str event.id.str) → call.closed = true
  waitingRun : ∀ latest, x.client.stage = .returned latest →
    (x.client.viewModel.waitingRun.map Subtype.val = some latest ↔
      latest.status = RunStatus.waitingForUser.value)

end Session

end HarmonyOS

/-!
## The cursor of a client

What the client of a stream is to have seen of it: each durable event once and in order, and the number of
the last one as its cursor.
-/

namespace HarmonyOS

open Runtime

/-- The object of a durable event, which has an id. -/
def isDurable (event : Json) : Bool := (property event "event_id").isSome

/-- JSON texts of objects that `JSON.parse` reads back as they were printed. -/
def ReadBack (wire : Wire) (frame : Frame) : Prop :=
  ∀ fields ∈ frame.payload wire, wire.parse (wire.dumps fields) = some (.obj fields)

namespace Session

/-- The frames of which the whole block has arrived. -/
def delivered (x : Session) : List Frame := x.sent.take (Blocks.cut '\n' x.received).1.length

/-- The durable events of the frames that have arrived. -/
def events (x : Session) : List RunEvent := x.delivered.filterMap Frame.durable

/-- The cursor with which `follow` began. -/
def initial (x : Session) : ℕ := x.client.afterSequence.getD 0

/-- The client inverts the server: its handler was called once for each durable event, in order and with the
envelope that was encoded, and its cursor is the number of the last one. -/
structure Inverts (wire : Wire) (x : Session) : Prop where
  handled : (x.client.handled.map Handled.event).filter isDurable =
    x.events.map fun e => .obj (e.envelope wire)
  cursor : x.client.viewModel.lastEventSequence =
    some (((x.events.getLast?.map RunEvent.sequence).getD x.initial : ℕ) : ℚ)

/-- `int()` reads the cursor of the request off its digits. -/
def CursorRead (py : Builtins) (x : Session) : Prop :=
  ∀ n ∈ x.client.afterSequence, py.intOfText n.repr = some (n : ℤ)

end Session

end HarmonyOS
