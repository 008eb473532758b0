import Laoshiren.Foundation.Json
import Laoshiren.Foundation.Text
import Laoshiren.Foundation.Uuid

/-!
# Runtime entities

The entities of the Runtime and their state changes. A method that may raise `ValueError` answers
with its message; every `utc_now()` of a method is the argument `now`.

Times are microseconds. The milliseconds of active time are counted exactly, where the source goes
through a floating point number of seconds.
-/

/-- A point in time, in microseconds. -/
abbrev Timestamp := ℤ

namespace Runtime

inductive MessageRole where
  | user
  | assistant
  | systemEvent
  deriving DecidableEq, Repr

inductive RunTrigger where
  | userMessage
  | automation
  | systemEvent
  deriving DecidableEq, Repr

inductive RunStatus where
  | queued
  | running
  | waitingForUser
  | completed
  | failed
  | cancelled
  deriving DecidableEq, Repr

/-- The text of a status, in the database and on the wire. -/
def RunStatus.value : RunStatus → String
  | .queued => "QUEUED"
  | .running => "RUNNING"
  | .waitingForUser => "WAITING_FOR_USER"
  | .completed => "COMPLETED"
  | .failed => "FAILED"
  | .cancelled => "CANCELLED"

/-- `TERMINAL_RUN_STATUSES`. -/
def RunStatus.terminal : RunStatus → Bool
  | .completed | .failed | .cancelled => true
  | .queued | .running | .waitingForUser => false

inductive RunEventType where
  | runQueued
  | runStarted
  | assistantStarted
  | assistantCompleted
  | toolStarted
  | toolCompleted
  | toolFailed
  | hitlRequested
  | runWaitingForUser
  | runResumed
  | runCompleted
  | runFailed
  | runCancelled
  deriving DecidableEq, Repr

/-- The name of an event, in the database and on the wire. -/
def RunEventType.value : RunEventType → String
  | .runQueued => "run.queued"
  | .runStarted => "run.started"
  | .assistantStarted => "assistant.started"
  | .assistantCompleted => "assistant.completed"
  | .toolStarted => "tool.started"
  | .toolCompleted => "tool.completed"
  | .toolFailed => "tool.failed"
  | .hitlRequested => "hitl.requested"
  | .runWaitingForUser => "run.waiting_for_user"
  | .runResumed => "run.resumed"
  | .runCompleted => "run.completed"
  | .runFailed => "run.failed"
  | .runCancelled => "run.cancelled"

inductive ToolExecutionStatus where
  | inProgress
  | succeeded
  | failed
  | unknownOutcome
  deriving DecidableEq, Repr

inductive DurableJobKind where
  | agentRun
  | fileProcessing
  | filePurge
  | memoryFormation
  | automationOccurrence
  | pushDelivery
  | accountDeletion
  deriving DecidableEq, Repr

inductive DurableJobStatus where
  | ready
  | claimed
  | paused
  | completed
  | failed
  | cancelled
  deriving DecidableEq, Repr

inductive RunInteractionStatus where
  | pending
  | resolved
  | cancelled
  deriving DecidableEq, Repr

structure Thread where
  userId : UUID
  title : String
  idempotencyKey : String
  id : UUID
  activeThingId : Option UUID := none
  archivedAt : Option Timestamp := none
  createdAt : Timestamp
  updatedAt : Timestamp
  deriving DecidableEq, Repr

structure Message where
  userId : UUID
  threadId : UUID
  role : MessageRole
  content : String
  id : UUID
  runId : Option UUID := none
  sourceIds : List UUID := []
  metadata : Dict := []
  createdAt : Timestamp
  deriving DecidableEq

structure AgentRun where
  userId : UUID
  threadId : UUID
  trigger : RunTrigger
  idempotencyKey : String
  id : UUID
  inputMessageId : Option UUID := none
  status : RunStatus := .queued
  currentPhase : Option String := none
  statusLabel : Option String := none
  finalMessageId : Option UUID := none
  interruptId : Option UUID := none
  interrupt : Option Dict := none
  resumePayload : Option Dict := none
  errorCode : Option String := none
  claimOwner : Option String := none
  claimToken : Option UUID := none
  leaseExpiresAt : Option Timestamp := none
  heartbeatAt : Option Timestamp := none
  attemptCount : ℕ := 0
  version : ℕ := 1
  eventSequence : ℕ := 0
  activeTimeUsedMs : ℕ := 0
  activeStartedAt : Option Timestamp := none
  terminalOutput : Option Dict := none
  graphTerminalAt : Option Timestamp := none
  budgetSnapshot : Dict := []
  createdAt : Timestamp
  startedAt : Option Timestamp := none
  completedAt : Option Timestamp := none
  updatedAt : Timestamp
  deriving DecidableEq

namespace AgentRun

/-- `_release_claim`. -/
def releaseClaim (run : AgentRun) : AgentRun :=
  { run with claimOwner := none, claimToken := none, leaseExpiresAt := none, heartbeatAt := none }

/-- `_pause_active_time`: a clock that went backwards counts as no time. -/
def pauseActiveTime (run : AgentRun) (now : Timestamp) : AgentRun :=
  match run.activeStartedAt with
  | none => run
  | some since =>
    { run with
      activeTimeUsedMs := run.activeTimeUsedMs + ((now - since) / 1000).toNat
      activeStartedAt := none }

def start (run : AgentRun) (now : Timestamp) (phase label : Option String) :
    Except String AgentRun :=
  if run.status ≠ .queued then .error "Only a queued Run can start."
  else .ok
    { run with
      status := .running
      startedAt := run.startedAt.or (some now)
      activeStartedAt := run.activeStartedAt.or (some now)
      currentPhase := phase
      statusLabel := label
      updatedAt := now
      version := run.version + 1 }

/-- Return an abandoned in-flight Run to the durable dispatch queue. -/
def recoverAfterCrash (run : AgentRun) (now : Timestamp) : Except String AgentRun :=
  if run.status ≠ .running then .error "Only a running Run can be recovered."
  else .ok
    { (run.pauseActiveTime now).releaseClaim with
      status := .queued
      currentPhase := some "recovering"
      statusLabel := some "Recovering after service restart"
      updatedAt := now
      version := run.version + 1 }

def waitForUser (run : AgentRun) (now : Timestamp) (interruptId : UUID) (payload : Dict) :
    Except String AgentRun :=
  if run.status ≠ .running then .error "Only a running Run can wait for user input."
  else .ok
    { (run.pauseActiveTime now).releaseClaim with
      status := .waitingForUser
      interruptId := some interruptId
      interrupt := some payload
      updatedAt := now
      version := run.version + 1 }

def resume (run : AgentRun) (now : Timestamp) (interruptId : UUID) (response : Dict) :
    Except String AgentRun :=
  if run.status ≠ .waitingForUser then .error "Only a Run waiting for user input can resume."
  else if run.interruptId ≠ some interruptId then
    .error "Interrupt id does not match the active interrupt."
  else .ok
    { run with
      status := .queued
      interruptId := none
      interrupt := none
      resumePayload := some response
      currentPhase := some "resuming"
      statusLabel := some "正在继续处理"
      updatedAt := now
      version := run.version + 1 }

def complete (run : AgentRun) (now : Timestamp) (finalMessageId : UUID) :
    Except String AgentRun :=
  if run.status ≠ .running then .error "Only a running Run can complete."
  else .ok
    { (run.pauseActiveTime now).releaseClaim with
      status := .completed
      finalMessageId := some finalMessageId
      completedAt := some now
      updatedAt := now
      version := run.version + 1 }

/-- The same output again is accepted without a change. -/
def acceptTerminalOutput (run : AgentRun) (now : Timestamp) (output : Dict) :
    Except String AgentRun :=
  if run.status ≠ .running then .error "Only a running Run can accept terminal graph output."
  else match run.terminalOutput with
    | some known =>
      if known ≠ output then .error "Run already has different terminal graph output." else .ok run
    | none => .ok
      { run with
        terminalOutput := some output
        graphTerminalAt := some now
        updatedAt := now
        version := run.version + 1 }

def fail (run : AgentRun) (now : Timestamp) (errorCode : String) : Except String AgentRun :=
  if run.status.terminal then .error "A terminal Run cannot fail again."
  else .ok
    { (run.pauseActiveTime now).releaseClaim with
      status := .failed
      errorCode := some errorCode
      completedAt := some now
      updatedAt := now
      version := run.version + 1 }

def cancel (run : AgentRun) (now : Timestamp) : Except String AgentRun :=
  if run.status.terminal then .error "A terminal Run cannot be cancelled."
  else .ok
    { (run.pauseActiveTime now).releaseClaim with
      status := .cancelled
      completedAt := some now
      updatedAt := now
      version := run.version + 1 }

end AgentRun

structure RunEvent where
  runId : UUID
  sequence : ℕ
  eventType : RunEventType
  data : Dict
  visibility : String := "CLIENT"
  schemaVersion : ℕ := 1
  id : UUID
  occurredAt : Timestamp
  deriving DecidableEq

/-- `actionId` and `interactionType` hold the value that the source passes through `str`. -/
structure RunInteraction where
  userId : UUID
  runId : UUID
  interactionType : Json
  requestPayload : Dict
  id : UUID
  actionId : Option Json := none
  status : RunInteractionStatus := .pending
  responsePayload : Option Dict := none
  createdAt : Timestamp
  resolvedAt : Option Timestamp := none
  deriving DecidableEq

/-- `RunInteraction.resolve`: the same answer again is accepted without a change. -/
def RunInteraction.resolve (interaction : RunInteraction) (now : Timestamp) (response : Dict) :
    Except String RunInteraction :=
  match interaction.status with
  | .resolved =>
    if interaction.responsePayload ≠ some response then
      .error "Interaction was already resolved differently."
    else .ok interaction
  | .cancelled => .error "Only a pending Interaction can be resolved."
  | .pending => .ok
    { interaction with
      status := .resolved
      responsePayload := some response
      resolvedAt := some now }

/-- `errorCode` holds the value that the source passes through `str`. -/
structure ToolExecution where
  runId : UUID
  actionId : String
  toolName : String
  argumentsHash : String
  status : ToolExecutionStatus
  claimOwner : String
  claimToken : UUID
  leaseExpiresAt : Timestamp
  replaySafe : Bool := true
  idempotencyKey : Option String := none
  id : UUID
  result : Option Dict := none
  receipt : Option Dict := none
  errorCode : Option Json := none
  providerIdempotencyKey : Option String := none
  providerRequestId : Option String := none
  attemptCount : ℕ := 1
  createdAt : Timestamp
  updatedAt : Timestamp
  deriving DecidableEq

structure DurableJob where
  userId : UUID
  kind : DurableJobKind
  dedupeKey : String
  payload : Dict
  id : UUID
  status : DurableJobStatus := .ready
  priority : ℤ := 0
  availableAt : Timestamp
  deliveryAttempt : ℕ := 0
  maxDeliveryAttempts : ℕ := 5
  claimedBy : Option String := none
  claimEpoch : ℕ := 0
  leaseUntil : Option Timestamp := none
  lastErrorCode : Option String := none
  createdAt : Timestamp
  updatedAt : Timestamp
  deriving DecidableEq

namespace DurableJob

/-- `__post_init__`. -/
def postInit (job : DurableJob) : Except String DurableJob :=
  if Text.isBlank job.dedupeKey then .error "Durable Job dedupe key must not be empty."
  else if job.maxDeliveryAttempts < 1 then
    .error "Durable Job must allow at least one delivery attempt."
  else .ok job

def claim (job : DurableJob) (now : Timestamp) (owner : String) (leaseUntil : Timestamp) :
    Except String DurableJob :=
  if job.status ≠ .ready then .error "Only a ready Durable Job can be claimed."
  else if Text.isBlank owner then
    .error "Durable Job claim requires an owner and aware lease."
  else .ok
    { job with
      status := .claimed
      claimedBy := some owner
      claimEpoch := job.claimEpoch + 1
      deliveryAttempt := job.deliveryAttempt + 1
      leaseUntil := some leaseUntil
      updatedAt := now }

end DurableJob

end Runtime
