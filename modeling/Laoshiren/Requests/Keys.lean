import Laoshiren.Automations.System
import Laoshiren.Foundation.RequestKeys
import Laoshiren.Memories.System
import Laoshiren.PersonalState.Replay

/-!
# The idempotency keys of the clients

The writes on the Personal State share one space of keys, and the changes of Runs, of Automations and of
Memories have one each. A request that finds its key taken is answered from what was recorded under it.
-/

/-! ## The Personal State -/

namespace PersonalState

open Runtime

/-- The same operation on the same rows. -/
def Op.SameCall : Op → Op → Prop
  | .createThing _ _, .createThing _ _ => True
  | .updateThing c _, .updateThing c' _ => c.thingId = c'.thingId
  | .changeArchive c _, .changeArchive c' _ => c.archive = c'.archive ∧ c.thingId = c'.thingId
  | .deleteThing c _, .deleteThing c' _ => c.thingId = c'.thingId
  | .mergeThings c _, .mergeThings c' _ =>
    c.canonicalThingId = c'.canonicalThingId ∧ c.duplicateThingId = c'.duplicateThingId
  | .setDeadline c _, .setDeadline c' _ => c.thingId = c'.thingId
  | .updateDate c _, .updateDate c' _ => c.dateId = c'.dateId
  | .createTask c _, .createTask c' _ => c.thingId = c'.thingId
  | .transitionTask c _, .transitionTask c' _ => c.taskId = c'.taskId
  | .completeTask c _, .completeTask c' _ => c.taskId = c'.taskId
  | .createBlocker c _, .createBlocker c' _ => c.thingId = c'.thingId ∧ c.taskId = c'.taskId
  | .resolveBlocker c _, .resolveBlocker c' _ => c.blockerId = c'.blockerId
  | .setThingContext c _, .setThingContext c' _ =>
    c.thingId = c'.thingId ∧ c.entryId = c'.entryId
  | .linkToThing c _, .linkToThing c' _ => c.thingId = c'.thingId ∧ c.sourceId = c'.sourceId
  | .addRelation c _, .addRelation c' _ =>
    c.fromThingId = c'.fromThingId ∧ c.toThingId = c'.toThingId
  | .deleteFile c _, .deleteFile c' _ => c.sourceId = c'.sourceId
  | _, _ => False

/-- A write finds a mutation under its key and can be answered from it. -/
def Op.AnswersFromRecord (op : Op) (view : ℕ → State) : Prop :=
  ∃ userId key m, op.request = some (userId, key) ∧
    AuditRepository.getMutation userId key (view 0).mutations = some m ∧ op.Answerable view m

end PersonalState

/-! ## Runs -/

namespace Runtime

def Reply.Succeeds : Reply → Prop
  | .raised _ => False
  | _ => True

/-- The user and the idempotency key of a change of a Run. -/
def Op.request : Op → Option (UUID × String)
  | .resumeRun userId _ _ _ _ key _ => some (userId, key)
  | .cancelRun userId _ _ key _ => some (userId, key)
  | _ => none

/-- The same operation on the same Run, and on the same Interaction of it. -/
def Op.SameCall : Op → Op → Prop
  | .resumeRun _ runId interruptId _ _ _ _, .resumeRun _ runId' interruptId' _ _ _ _ =>
    runId = runId' ∧ interruptId = interruptId'
  | .cancelRun _ runId _ _ _, .cancelRun _ runId' _ _ _ => runId = runId'
  | _, _ => False

/-- The Run that was changed under a key. -/
def recordedRun (userId : UUID) (key : String) (view : ℕ → Store) : Option AgentRun :=
  (RunRepository.getOperation userId key (view 0).operations).bind fun recorded =>
    RunRepository.get userId recorded.1 (view 1).runs

/-- A change finds an operation under its key and can be answered from it: a cancellation makes its own
checks on the Run that it names first. -/
def Op.AnswersFromRecord (op : Op) (view : ℕ → Store) : Prop :=
  match op with
  | .resumeRun userId _ _ _ _ key _ => (recordedRun userId key view).isSome
  | .cancelRun userId runId _ key _ => (RunRepository.get userId runId (view 0).runs).isSome ∧
    ToolExecutionRepository.listInProgress runId (view 1).toolExecutions = [] ∧
      (recordedRun userId key fun n => view (n + 2)).isSome
  | _ => False

end Runtime

/-! ## Automations -/

namespace Automations

open Runtime

def Reply.Succeeds : Reply → Prop
  | .raised _ => False
  | _ => True

/-- The user and the idempotency key of a change of an Automation. -/
def Op.request : Op → Option (UUID × String)
  | .changeStatus c _ => some (c.userId, c.idempotencyKey)
  | _ => none

/-- The same action on the same Automation. -/
def Op.SameCall : Op → Op → Prop
  | .changeStatus c _, .changeStatus c' _ => c.action = c'.action ∧ c.automationId = c'.automationId
  | _, _ => False

/-- A change finds an operation under its key and can be answered from it. -/
def Op.AnswersFromRecord (op : Op) (view : ℕ → World) : Prop :=
  match op with
  | .changeStatus c _ =>
    ((AutomationRepository.getOperation c.userId c.idempotencyKey (view 0).operations).bind
      fun recorded => AutomationRepository.get c.userId recorded.1 (view 1).automations).isSome
  | _ => False

end Automations

/-! ## Memories -/

namespace Memories

open Runtime

def Reply.Succeeds : Reply → Prop
  | .raised _ => False
  | _ => True

/-- The user and the idempotency key of a change of a Memory. -/
def Op.request : Op → Option (UUID × String)
  | .update _ c _ => some (c.userId, c.idempotencyKey)
  | .forget c _ => some (c.userId, c.idempotencyKey)
  | _ => none

/-- The same operation on the same Memory. -/
def Op.SameCall : Op → Op → Prop
  | .update _ c _, .update _ c' _ => c.memoryId = c'.memoryId
  | .forget c _, .forget c' _ => c.memoryId = c'.memoryId
  | _, _ => False

/-- An operation is there under the key, and so is the Memory that the request names. -/
def RecordedMemory (userId memoryId : UUID) (key : String) (view : ℕ → State) : Prop :=
  (MemoryRepository.getOperationVersion userId key (view 0).operations).isSome ∧
    (MemoryRepository.get userId memoryId (view 1).memories).isSome

/-- A change finds an operation under its key and can be answered: an update checks its arguments
first. -/
def Op.AnswersFromRecord (op : Op) (view : ℕ → State) : Prop :=
  match op with
  | .update _ c _ => (c.importance.all fun value => 0 ≤ value ∧ value ≤ 1) ∧
    (c.confidence.all fun value => 0 ≤ value ∧ value ≤ 1) ∧
      RecordedMemory c.userId c.memoryId c.idempotencyKey view
  | .forget c _ => RecordedMemory c.userId c.memoryId c.idempotencyKey view
  | _ => False

end Memories
