import Laoshiren.Foundation.Raise
import Laoshiren.Runtime.Repositories

/-!
# The Runtime store

The tables of the Runtime and the writes that its transactions share. A transaction is a function of
what its reading statements saw (`view n` for the `n`-th one) and of the committed state that it
writes to. It answers with the state that it commits and its result, or raises and leaves the
committed state as it was.
-/

namespace Runtime

/-- The tables of the Runtime. -/
structure Store where
  threads : Table Thread := .empty
  runs : Table AgentRun := .empty
  interactions : Table RunInteraction := .empty
  durableJobs : Table DurableJob := .empty
  toolExecutions : Table ToolExecution := .empty
  messages : Table Message := .empty
  events : Table RunEvent := .empty
  operations : Table RunOperation := .empty
  deriving DecidableEq

inductive RuntimeError where
  | valueError (message : String)
  | runtimeError (message : String)
  | keyError (key : String)
  | entityNotFound (message : String)
  | invalidStateTransition (message : String)
  | versionConflict (message : String)
  /-- A unique constraint refuses the write. -/
  | integrityError
  deriving DecidableEq, Repr

/-- Code that may raise. -/
abbrev Raises := Except RuntimeError

open Raise

/-- `uow.runs.get` of a Run that has to be there. -/
def getRun (s : Store) (userId runId : UUID) : Raises AgentRun :=
  orRaise (.entityNotFound "Run was not found.") (RunRepository.get userId runId s.runs)

/-- `except ValueError as exception: raise InvalidStateTransition(str(exception))`. -/
def valueErrorAsTransition {α : Type} : Except String α → Raises α :=
  reraise .invalidStateTransition

/-- What a row insert takes from `uuid4()` and `utc_now()`. -/
structure Stamp where
  id : UUID
  now : Timestamp
  deriving DecidableEq

namespace Store

/-- `append_event`: count the event in its Run and store it under that number. -/
def appendEvent (s : Store) (runId : UUID) (eventType : RunEventType) (data : Dict)
    (stamp : Stamp) : Raises (Store × RunEvent) := do
  let (runs, sequence?) := RunRepository.nextSequence runId s.runs
  let sequence ← orRaise (.runtimeError "Cannot append an event to a missing Run.") sequence?
  let event : RunEvent :=
    { runId, sequence, eventType, data, id := stamp.id, occurredAt := stamp.now }
  let events ← orRaise .integrityError (s.events.insert? event)
  return ({ s with runs, events }, event)

/-- `uow.messages.add`: a new message advances its Thread. -/
def addMessage (s : Store) (message : Message) : Raises Store := do
  let messages ← orRaise .integrityError (s.messages.insert? message)
  let threads := s.threads.update
    (fun r => r.id = message.threadId ∧ r.userId = message.userId)
    (fun r => { r with updatedAt := max r.updatedAt message.createdAt }) fun _ _ _ h => h
  return { s with messages, threads }

def addRun (s : Store) (run : AgentRun) : Raises Store := do
  let runs ← orRaise .integrityError (RunRepository.add run s.runs)
  return { s with runs }

def addInteraction (s : Store) (interaction : RunInteraction) : Raises Store := do
  let interactions ← orRaise .integrityError (s.interactions.insert? interaction)
  return { s with interactions }

/-- `uow.durable_jobs.add` of a new job. -/
def addJob (s : Store) (job : DurableJob) : Raises Store := do
  let job ← reraise .valueError job.postInit
  let durableJobs ← orRaise .integrityError (s.durableJobs.insert? job)
  return { s with durableJobs }

/-- `if not await uow.runs.update(run, expected_version=…): raise VersionConflict`. -/
def updateRun (s : Store) (run : AgentRun) (expectedVersion : ℕ) : Raises Store := do
  let (runs, updated) := RunRepository.update run expectedVersion s.runs
  ensure (.versionConflict "Run was updated concurrently.") updated
  return { s with runs }

def recordOperation (s : Store) (operation : RunOperation) : Raises Store := do
  let operations ← orRaise .integrityError (s.operations.insert? operation)
  return { s with operations }

end Store

/-- `f"agent-run:{run.id}"`. -/
def agentRunKey (runId : UUID) : String := "agent-run:" ++ runId.str

end Runtime
