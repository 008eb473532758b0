import Laoshiren.Runtime.Store

/-!
# Transactions on Runs

Creating, claiming, changing and recovering Runs. `fresh n` is what the `n`-th `uuid4()` and
`utc_now()` of a transaction answer.
-/

namespace Runtime

open Raise

/-! ## Threads -/

/-- `create_thread`; `thingKnown` is whether `things.get` finds the active Thing. -/
def createThread (userId : UUID) (title idempotencyKey : String) (activeThingId : Option UUID)
    (thingKnown : Bool) (stamp : Stamp) (view : ℕ → Store) (s : Store) :
    Raises (Store × Thread) := do
  ensure (.valueError "Thread title must not be empty.") (!Text.isBlank title)
  match (view 0).threads.get fun r => r.userId = userId ∧ r.idempotencyKey = idempotencyKey with
  | some existing => return (s, existing)
  | none =>
    ensure (.entityNotFound "Thing was not found.") (activeThingId = none ∨ thingKnown)
    let thread : Thread :=
      { userId
        title := Text.strip title
        idempotencyKey
        id := stamp.id
        activeThingId
        createdAt := stamp.now
        updatedAt := stamp.now }
    let threads ← orRaise .integrityError (s.threads.insert? thread)
    return ({ s with threads }, thread)

/-- `archive_thread`: a thread that was read as archived is written back as it was read. -/
def archiveThread (userId threadId : UUID) (now : Timestamp) (view : ℕ → Store) (s : Store) :
    Raises (Store × Thread) := do
  let thread ← orRaise (.entityNotFound "Thread was not found.")
    ((view 0).threads.get fun r => r.id = threadId ∧ r.userId = userId)
  let thread := if thread.archivedAt = none then
    { thread with archivedAt := some now, updatedAt := now } else thread
  let threads := s.threads.update (fun r => r.id = thread.id ∧ r.userId = thread.userId)
    (fun r => { r with archivedAt := thread.archivedAt, updatedAt := thread.updatedAt })
    fun _ _ _ h => h
  return ({ s with threads }, thread)

/-! ## Creation -/

structure CreateUserRun where
  userId : UUID
  threadId : UUID
  content : String
  sourceIds : List UUID
  idempotencyKey : String
  deriving DecidableEq

/-- The job that drives a Run. -/
def agentRunJob (run : AgentRun) (stamp : Stamp) : DurableJob :=
  { userId := run.userId
    kind := .agentRun
    dedupeKey := agentRunKey run.id
    payload := [("run_id", .str run.id.str)]
    id := stamp.id
    availableAt := stamp.now
    createdAt := stamp.now
    updatedAt := stamp.now }

/-- What both ways of creating a Run write: the Run, its input message, the first event and the job
that drives it. -/
def commitNewRun (s : Store) (run : AgentRun) (message : Message) (data : Dict)
    (fresh : ℕ → Stamp) : Raises Store := do
  let s ← s.addRun run
  let s ← s.addMessage message
  let (s, _) ← s.appendEvent run.id .runQueued data (fresh 2)
  s.addJob (agentRunJob run (fresh 3))

/-- `create_user_run`; `sourceKnown` is what `sources.get` finds. -/
def createUserRun (c : CreateUserRun) (budgetSnapshot : Dict) (sourceKnown : UUID → Bool)
    (fresh : ℕ → Stamp) (view : ℕ → Store) (s : Store) : Raises (Store × AgentRun) := do
  ensure (.valueError "Run message content must not be empty.") (!Text.isBlank c.content)
  ensure (.valueError "Run source_ids must not contain duplicates.") c.sourceIds.Nodup
  match RunRepository.getByIdempotency c.userId c.idempotencyKey (view 0).runs with
  | some existing => return (s, existing)
  | none =>
    let thread := (view 1).threads.get fun r => r.id = c.threadId ∧ r.userId = c.userId
    ensure (.entityNotFound "Active Thread was not found.") (∃ t ∈ thread, t.archivedAt = none)
    ensure (.entityNotFound "Source was not found.") (c.sourceIds.all sourceKnown)
    let message : Message :=
      { userId := c.userId
        threadId := c.threadId
        role := .user
        content := Text.strip c.content
        id := (fresh 1).id
        runId := some (fresh 0).id
        sourceIds := c.sourceIds
        createdAt := (fresh 1).now }
    let run : AgentRun :=
      { userId := c.userId
        threadId := c.threadId
        trigger := .userMessage
        idempotencyKey := c.idempotencyKey
        id := (fresh 0).id
        inputMessageId := some message.id
        budgetSnapshot
        createdAt := (fresh 0).now
        updatedAt := (fresh 0).now }
    let data := Dict.ofFields
      [("status", .str RunStatus.queued.value), ("label", .str "等待开始"), ("phase", .str "queued")]
    let s ← commitNewRun s run message data fresh
    return (s, run)

structure CreateAutomationRun where
  userId : UUID
  automationId : UUID
  thingId : Option UUID
  title : String
  message : String
  occurrenceKey : String
  deriving DecidableEq

/-- The thread of a user's automations: the one that is there, or a new one. -/
def automationThread (c : CreateAutomationRun) (stamp : Stamp) (known : Option Thread) (s : Store) :
    Raises (Store × UUID) :=
  match known with
  | some thread => return (s, thread.id)
  | none => do
    let threads ← orRaise .integrityError <| s.threads.insert?
      { userId := c.userId
        title := "自动化"
        idempotencyKey := "automation-inbox:" ++ c.userId.str
        id := stamp.id
        activeThingId := c.thingId
        createdAt := stamp.now
        updatedAt := stamp.now }
    return ({ s with threads }, stamp.id)

/-- `create_automation_run`. The Thing that it sets on a thread that was there is never written. -/
def createAutomationRun (c : CreateAutomationRun) (budgetSnapshot : Dict) (fresh : ℕ → Stamp)
    (view : ℕ → Store) (s : Store) : Raises (Store × AgentRun) := do
  ensure (.valueError "Automation run title and message must not be empty.")
    (!Text.isBlank c.title && !Text.isBlank c.message)
  ensure (.valueError "Automation occurrence_key must not be empty.")
    (!Text.isBlank c.occurrenceKey)
  let runKey := "automation-run:" ++ c.occurrenceKey
  match RunRepository.getByIdempotency c.userId runKey (view 0).runs with
  | some existing => return (s, existing)
  | none =>
    let (s, threadId) ← automationThread c (fresh 4) ((view 1).threads.get fun r =>
      r.userId = c.userId ∧ r.idempotencyKey = "automation-inbox:" ++ c.userId.str) s
    let message : Message :=
      { userId := c.userId
        threadId
        role := .systemEvent
        content := "[自动化提醒] " ++ Text.strip c.title ++ "\n" ++ Text.strip c.message
        id := (fresh 1).id
        runId := some (fresh 0).id
        metadata := Dict.ofFields
          [("automation_id", .str c.automationId.str), ("occurrence_key", .str c.occurrenceKey),
            ("thing_id", .ofStr? (c.thingId.map UUID.str))]
        createdAt := (fresh 1).now }
    let run : AgentRun :=
      { userId := c.userId
        threadId
        trigger := .automation
        idempotencyKey := runKey
        id := (fresh 0).id
        inputMessageId := some message.id
        budgetSnapshot
        createdAt := (fresh 0).now
        updatedAt := (fresh 0).now }
    let data := Dict.ofFields
      [("status", .str RunStatus.queued.value), ("label", .str "自动化触发"),
        ("phase", .str "automation"), ("automation_id", .str c.automationId.str)]
    let s ← commitNewRun s run message data fresh
    return (s, run)

/-! ## Claims -/

/-- `claim_run`: `fresh 0` has the claim token and the clock. -/
def claimRun (userId runId : UUID) (owner : String) (lease : ℤ) (fresh : ℕ → Stamp) (s : Store) :
    Raises (Store × Option AgentRun) := do
  ensure (.valueError "Run claim owner and lease must be valid.")
    (!Text.isBlank owner && decide (0 < lease))
  let now := (fresh 0).now
  let (runs, claimed) :=
    RunRepository.claim userId runId owner (fresh 0).id now (now + lease) s.runs
  match claimed with
  | none => return (s, none)
  | some run =>
    let data := Dict.ofFields
      [("phase", .ofStr? run.currentPhase), ("label", .ofStr? run.statusLabel),
        ("attempt", .num run.attemptCount), ("claim_owner", .str owner)]
    let (s, _) ← { s with runs }.appendEvent run.id .runStarted data (fresh 1)
    return (s, some run)

/-- `renew_run_lease`. -/
def renewRunLease (userId runId : UUID) (owner : String) (claimToken : UUID) (lease : ℤ)
    (now : Timestamp) (s : Store) : Store × Bool :=
  let (runs, renewed) :=
    RunRepository.renewLease userId runId owner claimToken now (now + lease) s.runs
  if renewed then ({ s with runs }, true) else (s, false)

/-- `recover_pending_runs`: one Run of the loop. -/
def recoverRun (fresh : UUID → Stamp) (s : Store) (run : AgentRun) : Raises Store :=
  match run.status with
  | .running => do
    let recovered ← reraise .valueError (run.recoverAfterCrash (fresh run.id).now)
    let (runs, updated) := RunRepository.update recovered run.version s.runs
    if updated then
      let data := Dict.ofFields
        [("status", .str RunStatus.queued.value), ("phase", .ofStr? recovered.currentPhase),
          ("label", .ofStr? recovered.statusLabel), ("reason", .str "lease_expired")]
      let (s, _) ← { s with runs }.appendEvent run.id .runQueued data (fresh run.id)
      return s
    else return s
  | _ => return s

/-- Requeue crash-abandoned Runs. -/
def recoverPendingRuns (limit : ℕ) (now : Timestamp) (fresh : UUID → Stamp) (view : ℕ → Store)
    (s : Store) : Raises Store :=
  (RunRepository.listRecoverable now limit (view 0).runs).foldlM (recoverRun fresh) s

/-! ## Transitions of the worker -/

/-- Where a worker takes its Run to. -/
inductive WorkerAction where
  | start (phase label : String)
  | wait (payload : Dict) (interactionId : Option UUID)
  | complete (content : String)
  | fail (errorCode : String)
  deriving DecidableEq

structure WorkerCall where
  userId : UUID
  runId : UUID
  action : WorkerAction
  claimOwner : Option String := none
  claimToken : Option UUID := none
  deriving DecidableEq

/-- A call that names a claim owner has to name the present claim of the Run. -/
def ownsRun (claimOwner : Option String) (claimToken : Option UUID) (run : AgentRun) : Bool :=
  claimOwner = none ∨
    (claimToken ≠ none ∧ run.claimOwner = claimOwner ∧ run.claimToken = claimToken)

/-- The Interaction that a wait opens. -/
def openedInteraction (userId runId interruptId : UUID) (payload : Dict) (now : Timestamp) :
    RunInteraction :=
  { userId
    runId
    interactionType := (payload.get "type").getD (.str "CONFIRMATION")
    requestPayload := payload
    id := interruptId
    actionId := payload.get? "action_id"
    createdAt := now }

/-- The branch of `_worker_transition` for each action, once the Run is read and its claim is
checked. -/
def commitTransition (userId : UUID) (run : AgentRun) (action : WorkerAction) (fresh : ℕ → Stamp)
    (s : Store) : Raises (Store × AgentRun) := do
  let now := (fresh 0).now
  match action with
  | .start phase label =>
    let run' ← valueErrorAsTransition (run.start now (some phase) (some label))
    let s ← s.updateRun run' run.version
    let data := Dict.ofFields [("phase", .str phase), ("label", .str label)]
    let (s, _) ← s.appendEvent run.id .runStarted data (fresh 1)
    return (s, run')
  | .wait payload interactionId =>
    let interruptId := interactionId.getD (fresh 0).id
    let run' ← valueErrorAsTransition (run.waitForUser now interruptId payload)
    let s ← s.addInteraction (openedInteraction userId run.id interruptId payload now)
    let s ← s.updateRun run' run.version
    let data := Dict.merge [("interrupt_id", .str interruptId.str)] payload
    let (s, _) ← s.appendEvent run.id .hitlRequested data (fresh 1)
    let (s, _) ← s.appendEvent run.id .runWaitingForUser
      [("interaction_id", (data.get "interrupt_id").getD .null)] (fresh 2)
    return (s, run')
  | .complete content =>
    ensure (.invalidStateTransition "Assistant message must not be empty.") (!Text.isBlank content)
    let message : Message :=
      { userId
        threadId := run.threadId
        role := .assistant
        content := Text.strip content
        id := (fresh 0).id
        runId := some run.id
        createdAt := now }
    let s ← s.addMessage message
    let run' ← valueErrorAsTransition (run.complete now message.id)
    let s ← s.updateRun run' run.version
    let (s, _) ← s.appendEvent run.id .assistantCompleted
      (Dict.ofFields [("message_id", .str message.id.str), ("content", .str content)]) (fresh 1)
    let (s, _) ← s.appendEvent run.id .runCompleted [("message_id", .str message.id.str)] (fresh 2)
    return (s, run')
  | .fail errorCode =>
    let run' ← valueErrorAsTransition (run.fail now errorCode)
    let s ← s.updateRun run' run.version
    let (s, _) ← s.appendEvent run.id .runFailed [("error_code", .str errorCode)] (fresh 1)
    return (s, run')

/-- `_worker_transition`, behind `start_run`, `require_input`, `complete_run` and `fail_run`. -/
def workerTransition (c : WorkerCall) (fresh : ℕ → Stamp) (view : ℕ → Store) (s : Store) :
    Raises (Store × AgentRun) := do
  let run ← getRun (view 0) c.userId c.runId
  ensure (.invalidStateTransition "Run lease is no longer owned by this worker.")
    (ownsRun c.claimOwner c.claimToken run)
  commitTransition c.userId run c.action fresh s

/-- `accept_terminal_output`: an output that is there already is not written again. -/
def acceptTerminalOutput (userId runId : UUID) (output : Dict) (claimOwner : String)
    (claimToken : UUID) (now : Timestamp) (view : ℕ → Store) (s : Store) :
    Raises (Store × AgentRun) := do
  let run ← getRun (view 0) userId runId
  ensure (.invalidStateTransition "Run lease is no longer owned by this worker.")
    (run.claimOwner = some claimOwner ∧ run.claimToken = some claimToken)
  let run' ← valueErrorAsTransition (run.acceptTerminalOutput now output)
  if run'.version ≠ run.version then
    let s ← s.updateRun run' run.version
    return (s, run')
  else return (s, run')

/-! ## Changes by the user -/

inductive RunChange where
  | resume (interruptId : UUID) (response : Dict)
  | cancel
  deriving DecidableEq

def RunChange.operation : RunChange → String
  | .resume _ _ => "RESUME"
  | .cancel => "CANCEL"

structure ChangeCall where
  userId : UUID
  runId : UUID
  expectedVersion : ℕ
  idempotencyKey : String
  change : RunChange
  deriving DecidableEq

/-- The two branches of `_change_run`: the changed Run, the writes on other tables and the event. -/
def commitChange (c : ChangeCall) (run : AgentRun) (fresh : ℕ → Stamp) (view : ℕ → Store)
    (s : Store) : Raises (Store × AgentRun × RunEventType × Dict) := do
  let now := (fresh 0).now
  match c.change with
  | .resume interruptId response =>
    let interaction ← orRaise (.invalidStateTransition "Run Interaction was not found.")
      (InteractionRepository.get c.userId c.runId interruptId (view 2).interactions)
    let interaction ← valueErrorAsTransition (interaction.resolve now response)
    let interactions := InteractionRepository.resolve interaction s.interactions
    let run' ← valueErrorAsTransition (run.resume now interruptId response)
    let (durableJobs, resumed) :=
      DurableJobRepository.resume c.userId (agentRunKey run.id) now s.durableJobs
    ensure (.invalidStateTransition "Paused Durable Job was not found.") resumed
    let data := Dict.ofFields
      [("status", .str RunStatus.queued.value), ("label", .ofStr? run'.statusLabel),
        ("phase", .ofStr? run'.currentPhase)]
    return ({ s with interactions, durableJobs }, run', .runResumed, data)
  | .cancel =>
    let run' ← valueErrorAsTransition (run.cancel now)
    let (durableJobs, _) :=
      DurableJobRepository.cancel c.userId (agentRunKey run.id) now s.durableJobs
    return ({ s with durableJobs }, run', .runCancelled,
      [("status", .str RunStatus.cancelled.value)])

/-- `_change_run`. The second component says whether the operation was replayed. -/
def changeRun (c : ChangeCall) (fresh : ℕ → Stamp) (view : ℕ → Store) (s : Store) :
    Raises (Store × AgentRun × Bool) := do
  match RunRepository.getOperation c.userId c.idempotencyKey (view 0).operations with
  | some (previousRunId, _) =>
    let run ← orRaise (.runtimeError "Run operation points to missing data.")
      (RunRepository.get c.userId previousRunId (view 1).runs)
    return (s, run, true)
  | none =>
    let run ← getRun (view 1) c.userId c.runId
    ensure (.versionConflict "Run version is stale.") (run.version = c.expectedVersion)
    let (s, run', eventType, data) ← commitChange c run fresh view s
    let s ← s.updateRun run' c.expectedVersion
    let s ← s.recordOperation
      { userId := c.userId
        runId := run.id
        key := c.idempotencyKey
        operation := c.change.operation
        targetVersion := run'.version }
    let (s, _) ← s.appendEvent run.id eventType data (fresh 1)
    return (s, run', false)

/-- `cancel_run`: the check for Tools in flight is a transaction of its own, before the change. -/
def cancelRun (userId runId : UUID) (expectedVersion : ℕ) (idempotencyKey : String)
    (fresh : ℕ → Stamp) (view : ℕ → Store) (s : Store) : Raises (Store × AgentRun × Bool) := do
  let _ ← getRun (view 0) userId runId
  ensure (.invalidStateTransition ("Cannot cancel while a Tool execution is in flight; " ++
      "wait for its outcome to be persisted first."))
    (ToolExecutionRepository.listInProgress runId (view 1).toolExecutions = [])
  changeRun { userId, runId, expectedVersion, idempotencyKey, change := .cancel } fresh
    (fun n => view (n + 2)) s

/-- `resume_run`. -/
def resumeRun (userId runId interruptId : UUID) (response : Dict) (expectedVersion : ℕ)
    (idempotencyKey : String) (fresh : ℕ → Stamp) (view : ℕ → Store) (s : Store) :
    Raises (Store × AgentRun × Bool) :=
  changeRun { userId, runId, expectedVersion, idempotencyKey, change := .resume interruptId response }
    fresh view s

/-- `emit_event`. -/
def emitEvent (userId runId : UUID) (eventType : RunEventType) (data : Dict) (stamp : Stamp)
    (view : ℕ → Store) (s : Store) : Raises (Store × RunEvent) := do
  let _ ← getRun (view 0) userId runId
  s.appendEvent runId eventType data stamp

/-! ## Reading -/

/-- `list_events`: a number is preferred to an event id, and an unknown event id has nothing after
it. -/
def listEvents (userId runId : UUID) (afterEventId : Option UUID) (afterSequence : Option ℕ)
    (limit : ℕ) (view : ℕ → Store) : Raises (List RunEvent) := do
  let _ ← getRun (view 0) userId runId
  let page (after : Option ℕ) : List RunEvent :=
    RunRepository.listEvents userId runId after limit (view 2).runs (view 2).events
  match afterSequence, afterEventId with
  | none, some eventId =>
    match RunRepository.sequenceOf runId eventId (view 1).events with
    | none => return []
    | some sequence => return page (some sequence)
  | _, _ => return page afterSequence

end Runtime
