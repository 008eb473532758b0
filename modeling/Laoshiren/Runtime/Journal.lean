import Laoshiren.Agent.Contracts
import Laoshiren.Foundation.NumberedLog
import Laoshiren.Runtime.Effects

/-!
# The logs of the Runtime

Messages and events are only ever appended, and a Run counts its events. `Journaled` is the trace
that the writes of a transaction leave in the logs, and `LogEffect` what each transaction appends,
with the rows that it writes along with them. Where `Effect` leaves the logs out, this leaves out
every table that neither a reply nor the creation of a Run depends on.
-/

namespace Runtime

/-- The events of a Run. -/
def eventsOf (runId : UUID) (events : Table RunEvent) : List RunEvent :=
  events.select fun e => e.runId = runId

/-- What a reader of a Run has seen after `k` calls of `list_events`, each with the last number that
it has seen; the statement `n` of the call `k` reads `read (3 * k + n)`. A call that raises brings
nothing. -/
def followEvents (userId runId : UUID) (limit : ℕ) (read : ℕ → Store) : ℕ → List RunEvent
  | 0 => []
  | k + 1 =>
    let seen := followEvents userId runId limit read k
    match listEvents userId runId none (seen.getLast?.map RunEvent.sequence) limit
      fun n => read (3 * k + n) with
    | .ok page => seen ++ page
    | .error _ => seen

/-! ## The events of a tool -/

namespace RuntimeAgentEventSink

open Agent

/-- `tool_started`. -/
def toolStarted (userId runId : UUID) (actionId toolName : String) (stamp : Stamp) : Op :=
  .emitEvent userId runId .toolStarted
    (Dict.ofFields [("action_id", .str actionId), ("tool_name", .str toolName)]) stamp

/-- `tool_finished`. -/
def toolFinished (userId runId : UUID) (actionId toolName : String) (status : ToolStatus)
    (code : String) (stamp : Stamp) : Op :=
  .emitEvent userId runId
    (if status = .success ∨ status = .partialSuccess then .toolCompleted else .toolFailed)
    (Dict.ofFields
      [("action_id", .str actionId), ("tool_name", .str toolName), ("status", .str status.value),
        ("code", .str code)])
    stamp

end RuntimeAgentEventSink

/-- An event that is emitted on its own is one of the sink, the only caller of `emit_event`. -/
def Op.emitsFromSink (op : Op) : Prop :=
  ∀ userId runId eventType data stamp, op = .emitEvent userId runId eventType data stamp →
    (∃ actionId toolName,
      op = RuntimeAgentEventSink.toolStarted userId runId actionId toolName stamp) ∨
    ∃ actionId toolName status code,
      op = RuntimeAgentEventSink.toolFinished userId runId actionId toolName status code stamp

/-! ## Replies -/

/-- The replies to the user that a Run has written. -/
def repliesOf (runId : UUID) (messages : Table Message) : List Message :=
  messages.select fun m => m.runId = some runId ∧ m.role = .assistant

/-- The events that say that a Run is completed. -/
def completionsOf (runId : UUID) (events : Table RunEvent) : List RunEvent :=
  events.select fun e => e.runId = runId ∧ e.eventType = .runCompleted

/-- A Run that is completed has one reply, the one that it names, and one completion event; any other
Run has neither. -/
def RepliedOnce (s : Store) : Prop :=
  ∀ run ∈ s.runs,
    (run.status = .completed →
      (∃ m, repliesOf run.id s.messages = [m] ∧ run.finalMessageId = some m.id) ∧
        ∃ e, completionsOf run.id s.events = [e]) ∧
    (run.status ≠ .completed →
      repliesOf run.id s.messages = [] ∧ completionsOf run.id s.events = [])

/-! ## What a transaction appends -/

/-- Every Run is still there with its event counter, and a new one counts from 0. -/
def CountersKept (runs runs' : Table AgentRun) : Prop :=
  runs.Evolves AgentRun.id (fun r r' => r'.eventSequence = r.eventSequence) runs' ∧
    ∀ r' ∈ runs', (∃ r ∈ runs, r.id = r'.id) ∨ r'.eventSequence = 0

/-- Writes that append these messages and these events. -/
inductive Journaled (s : Store) : List Message → List RunEvent → Store → Prop
  | refl : Journaled s [] [] s
  | write {messages : List Message} {events : List RunEvent} {s₁ s₂ : Store}
      (h : Journaled s messages events s₁) (hmessages : s₂.messages = s₁.messages)
      (hevents : s₂.events = s₁.events) (hruns : CountersKept s₁.runs s₂.runs) :
      Journaled s messages events s₂
  | message {messages : List Message} {events : List RunEvent} {s₁ s₂ : Store} {message : Message}
      (h : Journaled s messages events s₁) (hadd : s₁.addMessage message = .ok s₂) :
      Journaled s (messages ++ [message]) events s₂
  | event {messages : List Message} {events : List RunEvent} {s₁ s₂ : Store} {runId : UUID}
      {eventType : RunEventType} {data : Dict} {stamp : Stamp} {event : RunEvent}
      (h : Journaled s messages events s₁)
      (happend : s₁.appendEvent runId eventType data stamp = .ok (s₂, event)) :
      Journaled s messages (events ++ [event]) s₂

/-- The transaction completes a Run. -/
def Op.completes : Op → Bool
  | .workerTransition { action := .complete _, .. } _ => true
  | _ => false

/-- The transaction may post a message. -/
def Op.posts (op : Op) : Bool := op.completes || op.createsKey.isSome

/-- What a transaction appends to the logs. -/
inductive LogEffect (view : ℕ → Store) (s : Store) : Op → Store → Prop
  | idle {op : Op} : LogEffect view s op s
  | quiet {op : Op} {events : List RunEvent} {s' : Store} (hop : op.posts = false)
      (hevents : ∀ e ∈ events, e.eventType ≠ .runCompleted) (h : Journaled s [] events s') :
      LogEffect view s op s'
  | emit {userId runId : UUID} {eventType : RunEventType} {data : Dict} {stamp : Stamp}
      {event : RunEvent} {s' : Store} (htype : event.eventType = eventType)
      (h : Journaled s [] [event] s') :
      LogEffect view s (.emitEvent userId runId eventType data stamp) s'
  | create {op : Op} {run : AgentRun} {message : Message} {event : RunEvent} {stamp : Stamp}
      {s' : Store} (hop : op.createsKey = some (run.userId, run.idempotencyKey)) (hnew : run.IsNew)
      (hmessage : message.runId = some run.id) (hrole : message.role ≠ .assistant)
      (hinput : run.inputMessageId = some message.id)
      (hevent : event.runId = run.id ∧ event.sequence = 1 ∧ event.eventType = .runQueued)
      (hrun : s.facts.runs.insert? run = some s'.facts.runs)
      (hjob : s.durableJobs.insert? (agentRunJob run stamp) = some s'.durableJobs)
      (h : Journaled s [message] [event] s') : LogEffect view s op s'
  | complete {c : WorkerCall} {fresh : ℕ → Stamp} {content : String} {run run' : AgentRun}
      {message : Message} {event event' : RunEvent} {s' : Store} (haction : c.action = .complete content)
      (hread : run ∈ (view 0).runs) (hmethod : run.complete (fresh 0).now message.id = .ok run')
      (hmessage : message.runId = some run.id) (hrole : message.role = .assistant)
      (hevent : event.eventType ≠ .runCompleted)
      (hevent' : event'.runId = run.id ∧ event'.eventType = .runCompleted)
      (hversion : (RunRepository.update run' run.version s.facts.runs).2 = true)
      (hruns : s'.facts.runs = (RunRepository.update run' run.version s.facts.runs).1)
      (h : Journaled s [message] [event, event'] s') :
      LogEffect view s (.workerTransition c fresh) s'

end Runtime
