import Laoshiren.Memories.Candidates
import Laoshiren.Runtime.Journal
import Laoshiren.Runtime.Worker

/-!
# Memory formation

After a worker has completed a Run it queues the job that forms Memories from the input of the Run.
Between its claim and that job `run_once` is a sequence of transactions, and the worker may raise or
die between any two of them. Any number of workers share the Runtime with its other clients.
-/

namespace Memories

open Runtime Raise

/-! ## The job -/

/-- `is_explicit_memory_command`. -/
def isExplicitMemoryCommand (text : String) : Bool :=
  let normalized := Texts.joined (Text.strip text)
  ["请记住", "记住这个", "记下来", "别忘了", "记住我"].any (Texts.within · normalized)

structure MemoryFormationEvent where
  userId : UUID
  runId : UUID
  threadId : UUID
  sourceMessageId : UUID
  userText : String
  toolResultCodes : List String := []
  deriving DecidableEq

/-- `f"memory-formation:{event.run_id}"`. -/
def memoryFormationKey (runId : UUID) : String := "memory-formation:" ++ runId.str

/-- The job that `enqueue_memory_formation` adds. -/
def formationJob (event : MemoryFormationEvent) (stamp : Stamp) : DurableJob :=
  { userId := event.userId
    kind := .memoryFormation
    dedupeKey := memoryFormationKey event.runId
    payload := Dict.ofFields
      [("run_id", .str event.runId.str), ("thread_id", .str event.threadId.str),
        ("source_message_id", .str event.sourceMessageId.str), ("user_text", .str event.userText),
        ("tool_result_codes", .arr (event.toolResultCodes.map .str))]
    id := stamp.id
    availableAt := stamp.now
    createdAt := stamp.now
    updatedAt := stamp.now }

/-- `enqueue_memory_formation`: a Run has one job at most. -/
def enqueueMemoryFormation (event : MemoryFormationEvent) (stamp : Stamp) (view : ℕ → Store)
    (s : Store) : Raises Store :=
  match DurableJobRepository.getByDedupeKey event.userId (memoryFormationKey event.runId)
    (view 0).durableJobs with
  | some _ => return s
  | none => s.addJob (formationJob event stamp)

/-- `list_messages`: the newest messages of a thread, the oldest of them first. -/
def listMessages (userId threadId : UUID) (limit : ℕ) (view : ℕ → Store) :
    Raises (List Message) := do
  let _ ← orRaise (.entityNotFound "Thread was not found.")
    ((view 0).threads.get fun r => r.id = threadId ∧ r.userId = userId)
  let newestFirst :=
    ((view 1).messages.select fun m => m.userId = userId ∧ m.threadId = threadId).insertionSort
      fun m m' => toLex (m'.createdAt, m'.id.toNat) ≤ toLex (m.createdAt, m.id.toNat)
  return (newestFirst.take limit).reverse

/-! ## The worker of a Run -/

/-- Where a worker stands in `run_once`. -/
inductive WorkerStage where
  /-- The Run is claimed. -/
  | claimed
  /-- The decision is made, and nothing of it is done. -/
  | decided (decision : Decision)
  /-- The output of the checkpoint is accepted. -/
  | finalizing (content : String)
  /-- The graph runs; `messages` is what `list_messages` answered. -/
  | invoking (messages : List Message)
  | interrupted (payload : Dict)
  /-- The graph has ended with a response. -/
  | answered (messages : List Message) (response : String) (toolCodes : List String)
  /-- The response is accepted. -/
  | accepted (messages : List Message) (response : String) (toolCodes : List String)
  /-- The Run is completed. -/
  | completed (messages : List Message) (toolCodes : List String)
  /-- An exception is handled. -/
  | failing (errorCode : String)
  deriving DecidableEq

/-- A `run_once` that has claimed its Run and has not ended. -/
structure Execution where
  worker : AgentRunWorker
  /-- Whether `memory_formation` is configured. -/
  forms : Bool
  /-- The Run as `claim_run` answered it. -/
  run : AgentRun
  token : UUID
  stage : WorkerStage

/-- How an invocation of the graph returns. -/
inductive GraphOutcome where
  /-- The graph waits; the payload is made from the first interrupt. -/
  | interrupted (payload : Dict)
  /-- The final response, where it is a text, and the codes of the tools that succeeded. -/
  | ended (finalResponse : Option String) (toolCodes : List String)
  deriving DecidableEq

/-- A transaction of the Runtime, and where the worker stands when it has committed or has raised;
`none` is the end of `run_once`. -/
def follow (op : Runtime.Op) (next failed : Option WorkerStage) (view : ℕ → Store) (s : Store) :
    Store × Option WorkerStage :=
  match Runtime.commit op view s with
  | (s', .raised _) => (s', failed)
  | (s', _) => (s', next)

namespace Execution

/-- `start_run` and its like, called with the claim. -/
def transition (x : Execution) (action : WorkerAction) (fresh : ℕ → Stamp) : Runtime.Op :=
  .workerTransition
    { userId := x.run.userId
      runId := x.run.id
      action
      claimOwner := some x.worker.workerId
      claimToken := some x.token }
    fresh

/-- `accept_terminal_output`, called with the claim. -/
def accept (x : Execution) (output : Dict) (now : Timestamp) : Runtime.Op :=
  .acceptTerminalOutput x.run.userId x.run.id output x.worker.workerId x.token now

/-- `except Exception`: the code of an exception that is none of the three with their own. -/
def failed : Option WorkerStage := some (.failing "AGENT_EXECUTION_FAILED")

/-- `next(item for item in messages if item.id == run.input_message_id)`. -/
def current (x : Execution) (messages : List Message) : Option Message :=
  messages.find? fun m => some m.id = x.run.inputMessageId

/-- The invocation of the graph: an initial input is built from the current message. -/
def invoke (x : Execution) (input : GraphInput) (view : ℕ → Store) : Option WorkerStage :=
  match listMessages x.run.userId x.run.threadId 500 view with
  | .error _ => none
  | .ok messages =>
    if input = .initial ∧ x.current messages = none then failed else some (.invoking messages)

/-- The graph returns. -/
def returned (outcome : GraphOutcome) (leaseLost : Bool) (messages : List Message) :
    Option WorkerStage :=
  match outcome with
  | .interrupted payload => some (.interrupted payload)
  | .ended none _ => failed
  | .ended (some response) toolCodes =>
    if Text.isBlank response || leaseLost then failed
    else some (.answered messages response toolCodes)

/-- The end of a Run that the worker has completed: an explicit command is processed at once. -/
def form (x : Execution) (messages : List Message) (toolCodes : List String) (stamp : Stamp)
    (view : ℕ → Store) (s : Store) : Store × Option WorkerStage :=
  if x.forms then
    match x.current messages with
    | none => (s, failed)
    | some message =>
      if isExplicitMemoryCommand message.content then (s, none)
      else
        let event : MemoryFormationEvent :=
          { userId := x.run.userId
            runId := x.run.id
            threadId := x.run.threadId
            sourceMessageId := message.id
            userText := message.content
            toolResultCodes := toolCodes }
        match enqueueMemoryFormation event stamp view s with
        | .ok s' => (s', none)
        | .error _ => (s, failed)
  else (s, none)

/-- The next transaction of the worker, and where it stands then. -/
def proceed (x : Execution) (fresh : ℕ → Stamp) (view : ℕ → Store) (s : Store) :
    Store × Option WorkerStage :=
  match x.stage with
  | .claimed | .invoking _ => (s, some x.stage)
  | .decided (.failRun errorCode) => follow (x.transition (.fail errorCode) fresh) none none view s
  | .decided (.completeRun content) =>
    follow (x.transition (.complete content) fresh) none none view s
  | .decided (.finalize output content) =>
    follow (x.accept output (fresh 0).now) (some (.finalizing content)) none view s
  | .decided (.requireInput payload interactionId) =>
    follow (x.transition (.wait payload interactionId) fresh) none none view s
  | .decided (.invoke input) => (s, x.invoke input view)
  | .decided .raises => (s, none)
  | .finalizing content => follow (x.transition (.complete content) fresh) none none view s
  | .interrupted payload => follow (x.transition (.wait payload none) fresh) none failed view s
  | .answered messages response toolCodes =>
    follow (x.accept [("final_response", .str (Text.strip response))] (fresh 0).now)
      (some (.accepted messages response toolCodes)) failed view s
  | .accepted messages response toolCodes =>
    follow (x.transition (.complete response) fresh) (some (.completed messages toolCodes)) failed
      view s
  | .completed messages toolCodes => x.form messages toolCodes (fresh 0) view s
  | .failing errorCode => follow (x.transition (.fail errorCode) fresh) none none view s

/-- An exception is raised where the worker stands: outside the `try` it ends `run_once`. -/
def raised (x : Execution) (errorCode : String) : Option WorkerStage :=
  match x.stage with
  | .claimed | .decided _ | .finalizing _ | .failing _ => none
  | .invoking _ | .interrupted _ | .answered _ _ _ | .accepted _ _ _ | .completed _ _ =>
    some (.failing errorCode)

end Execution

/-! ## The system -/

/-- The Runtime and the workers that execute its Runs. -/
structure Formation where
  store : Store
  executions : UUID → Option Execution

/-- A step, with its arguments and with what it takes from the clock and from `uuid4()`. -/
inductive FormationOp where
  /-- A transaction of another client: it completes no Run. -/
  | other (op : Runtime.Op) (hother : op.completes = false)
  /-- A worker claims a Run. -/
  | claim (execution : UUID) (worker : AgentRunWorker) (forms : Bool) (userId runId : UUID)
      (lease : ℤ) (fresh : ℕ → Stamp)
  /-- The worker decides what to do with the Run that it claimed. -/
  | decide (execution : UUID) (snapshot : GraphSnapshot) (now : Timestamp)
  | proceed (execution : UUID) (fresh : ℕ → Stamp)
  /-- The graph that the worker invoked returns. -/
  | returns (execution : UUID) (outcome : GraphOutcome) (leaseLost : Bool)
  | raises (execution : UUID) (errorCode : String)
  /-- The worker dies. -/
  | crash (execution : UUID)
  /-- A worker of memory formation settles its job. -/
  | settle (jobId : UUID) (owner : String) (claimEpoch : ℕ) (now : Timestamp)

namespace Formation

/-- The execution stands at a stage, or has ended. -/
def goOn (execution : UUID) (x : Execution) (stage : Option WorkerStage) (w : Formation) :
    Formation :=
  { w with executions := Function.update w.executions execution (stage.map ({ x with stage := · })) }

/-- What a step makes of the system. -/
def commit (op : FormationOp) (view : ℕ → Formation) (w : Formation) : Formation :=
  let views n := (view n).store
  match op with
  | .other op _ => { w with store := (Runtime.commit op views w.store).1 }
  | .claim execution worker forms userId runId lease fresh =>
    match w.executions execution with
    | some _ => w
    | none =>
      let (store, reply) :=
        Runtime.commit (.claimRun userId runId worker.workerId lease fresh) views w.store
      match reply with
      | .claimed (some run) =>
        match run.claimToken with
        | some token =>
          { w with store }.goOn execution ⟨worker, forms, run, token, .claimed⟩ (some .claimed)
        | none => { w with store }
      | _ => { w with store }
  | .decide execution snapshot now =>
    match w.executions execution with
    | some ⟨worker, forms, run, token, .claimed⟩ =>
      w.goOn execution ⟨worker, forms, run, token, .claimed⟩
        (some (.decided (worker.decide snapshot now run)))
    | _ => w
  | .proceed execution fresh =>
    match w.executions execution with
    | some x =>
      let (store, stage) := x.proceed fresh views w.store
      { w with store }.goOn execution x stage
    | none => w
  | .returns execution outcome leaseLost =>
    match w.executions execution with
    | some ⟨worker, forms, run, token, .invoking messages⟩ =>
      w.goOn execution ⟨worker, forms, run, token, .invoking messages⟩
        (Execution.returned outcome leaseLost messages)
    | _ => w
  | .raises execution errorCode =>
    match w.executions execution with
    | some x => w.goOn execution x (x.raised errorCode)
    | none => w
  | .crash execution => { w with executions := Function.update w.executions execution none }
  | .settle jobId owner claimEpoch now =>
    { w with
      store := { w.store with
        durableJobs := (DurableJobRepository.settle jobId owner claimEpoch .completed now none
          w.store.durableJobs).1 } }

end Formation

/-- The system: it starts with empty tables, and no Run is executed. -/
def formation : Program Formation FormationOp Unit where
  init w := w = ⟨{}, fun _ => none⟩
  commit op view w := (Formation.commit op view w, ())

/-! ## Formations that are due -/

/-- A Run of the user whose input is no explicit memory command. -/
def due (s : Store) (r : AgentRun) : Bool :=
  r.trigger = .userMessage && s.messages.rows.all fun m =>
    r.inputMessageId ≠ some m.id || !isExplicitMemoryCommand m.content

/-- The job of memory formation for a Run is there. -/
def Formed (s : Store) (r : AgentRun) : Prop :=
  ∃ j ∈ s.durableJobs, j.kind = .memoryFormation ∧ j.userId = r.userId ∧
    j.dedupeKey = memoryFormationKey r.id

/-- No formation is lost: a Run that is completed, for which one is due and which no worker executes
any more, has its job. -/
def NoneLost (w : Formation) : Prop :=
  ∀ r ∈ w.store.runs, r.status = .completed → due w.store r = true →
    (∀ execution x, w.executions execution = some x → x.run.id ≠ r.id) → Formed w.store r

namespace Execution

/-- The execution is of a Run for which a formation is due. -/
def owing (x : Execution) (s : Store) : Bool :=
  s.runs.rows.any fun r => r.id = x.run.id && due s r

/-- The Run is completed, and its job is not queued yet. -/
def between (x : Execution) : Bool :=
  match x.stage with
  | .completed _ _ => true
  | _ => false

/-- The next transaction loses no formation: it does not complete the Run out of an output that was
there before, and after the completion the job can be queued. -/
def safe (x : Execution) (jobId : UUID) (s : Store) : Bool :=
  match x.stage with
  | .decided (.completeRun _) | .finalizing _ => false
  | .completed messages _ =>
    x.forms && (x.current messages).isSome && s.durableJobs.rows.all fun j => j.id ≠ jobId
  | _ => true

end Execution

/-- The step loses no formation that is due: the worker neither completes a Run out of a terminal
output that it found, nor raises or dies between the completion and the job. -/
def FormationOp.safe (op : FormationOp) (w : Formation) : Bool :=
  match op with
  | .proceed execution fresh =>
    (w.executions execution).all fun x => !x.owing w.store || x.safe (fresh 0).id w.store
  | .raises execution _ | .crash execution =>
    (w.executions execution).all fun x => !x.owing w.store || !x.between
  | _ => true

end Memories
