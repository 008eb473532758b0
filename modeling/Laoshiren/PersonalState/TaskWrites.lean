import Laoshiren.PersonalState.Attachments

/-!
# Writes on Tasks, Blockers, relations and files

What a user or a model does with the rows that a Thing has: a Task changes its status, a Blocker is
resolved, two Things are related, a file is deleted.
-/

namespace PersonalState

open Raise Runtime

/-! ## Entities -/

/-- `timedelta(days=days)`, in microseconds. -/
def timedeltaDays (days : ℤ) : ℤ := days * 86400000000

namespace Task

/-- `Task.complete`: a recurring Task is due again, and a Task that is done stays as it is. -/
def complete (task : Task) (now : Timestamp) : Raises Task := do
  ensure (.invalidStateTransition "A cancelled task cannot be completed directly.")
    (task.status ≠ .cancelled)
  if task.status = .done then return task
  else
    match task.recurrenceIntervalDays with
    | some days =>
      let due ← orRaise (.valueError "Recurring Task requires a due time and a positive interval.")
        (task.dueAt.filter fun _ => 0 < days)
      return { task with
        status := .todo
        completedAt := some now
        dueAt := some (due + timedeltaDays days)
        updatedAt := now
        version := task.version + 1 }
    | none =>
      return { task with
        status := .done
        completedAt := some now
        updatedAt := now
        version := task.version + 1 }

def reopen (task : Task) (now : Timestamp) : Raises Task := do
  ensure (.invalidStateTransition "Only a terminal task can be reopened.")
    (task.status = .done ∨ task.status = .cancelled)
  return { task with
    status := .todo
    completedAt := none
    updatedAt := now
    version := task.version + 1 }

/-- `Task.transition_to`. -/
def transitionTo (task : Task) (target : TaskStatus) (now : Timestamp) : Raises Task :=
  if target = task.status then .ok task
  else if task.status = .done ∨ task.status = .cancelled then
    if target = .todo then task.reopen now
    else .error (.invalidStateTransition "A terminal task must be reopened before transition.")
  else
    match target with
    | .done => task.complete now
    | .cancelled => .ok { task with
        status := .cancelled
        completedAt := none
        updatedAt := now
        version := task.version + 1 }
    | .todo => .error (.invalidStateTransition "Task transition target is not supported.")

end Task

/-- `Blocker.resolve`. -/
def Blocker.resolve (blocker : Blocker) (now : Timestamp) : Raises Blocker := do
  ensure (.invalidStateTransition "Only an open blocker can be resolved.") (blocker.status = .open)
  return { blocker with
    status := .resolved
    resolvedAt := some now
    updatedAt := now
    version := blocker.version + 1 }

/-! ## Repositories -/

namespace TaskRepository

/-- The row that `update` writes. -/
def updateWhere (task : Task) (expectedVersion : ℤ) (r : Task) : Bool :=
  r.id = task.id ∧ (r.version : ℤ) = expectedVersion

def updateValues (task r : Task) : Task :=
  { r with
    status := task.status
    version := task.version
    completedAt := task.completedAt
    dueAt := task.dueAt
    recurrenceIntervalDays := task.recurrenceIntervalDays
    updatedAt := task.updatedAt }

def update (task : Task) (expectedVersion : ℤ) (t : Table Task) : Table Task × Bool :=
  let p := updateWhere task expectedVersion
  (t.update p (updateValues task) fun _ _ _ h => h, t.rowcount p == 1)

end TaskRepository

namespace BlockerRepository

/-- The row that `update` writes. -/
def updateWhere (blocker : Blocker) (expectedVersion : ℤ) (r : Blocker) : Bool :=
  r.id = blocker.id ∧ (r.version : ℤ) = expectedVersion

def updateValues (blocker r : Blocker) : Blocker :=
  { r with
    status := blocker.status
    resolvedAt := blocker.resolvedAt
    version := blocker.version
    updatedAt := blocker.updatedAt }

def update (blocker : Blocker) (expectedVersion : ℤ) (t : Table Blocker) : Table Blocker × Bool :=
  let p := updateWhere blocker expectedVersion
  (t.update p (updateValues blocker) fun _ _ _ h => h, t.rowcount p == 1)

end BlockerRepository

namespace SourceRepository

/-- `get_including_deleted`. -/
def getIncludingDeleted (userId sourceId : UUID) (t : Table Source) : Option Source :=
  t.get fun r => r.id = sourceId ∧ r.userId = userId

/-- `mark_deleted`, where the Source was found. -/
def markDeleted (sourceId : UUID) (now : Timestamp) (t : Table Source) : Table Source :=
  t.update (fun r => r.id = sourceId) (fun r => { r with deletedAt := some now }) fun _ _ _ h => h

end SourceRepository

/-! ## The status of a Task -/

/-- The arguments of `apply_transition_task`. -/
structure TransitionTask where
  userId : UUID
  taskId : UUID
  targetStatus : TaskStatus
  expectedVersion : ℤ
  actionId : String
  idempotencyKey : String
  reason : String
  runId : Option UUID := none
  deriving DecidableEq

namespace TransitionTask

def mutation (c : TransitionTask) (task task' : Task) (stamp : Stamp) : StateMutation where
  userId := c.userId
  thingId := task.thingId
  runId := c.runId
  actionId := c.actionId
  mutationType := "TASK_STATUS_CHANGED"
  targetType := "TASK"
  targetId := task.id
  before := some (Dict.ofFields
    [("status", .str task.status.value), ("version", .num c.expectedVersion)])
  after := Dict.ofFields
    [("status", .str task'.status.value), ("version", .num task'.version)]
  reason := c.reason
  idempotencyKey := c.idempotencyKey
  id := stamp.id
  createdAt := stamp.now

/-- The event in the timeline of the Thing of the Task. -/
def event (c : TransitionTask) (task : Task) (m : StateMutation) (stamp : Stamp) (thingId : UUID) :
    TimelineEvent where
  userId := c.userId
  thingId
  eventType := if task.status = .done then "TASK_COMPLETED" else "TASK_STATUS_CHANGED"
  title := "任务状态变更：" ++ task.title ++ " → " ++ task.status.value
  occurredAt := task.updatedAt
  id := stamp.id
  mutationId := some m.id
  createdAt := stamp.now

def outcome (task : Task) (m : StateMutation) : WriteOutcome where
  code := "TASK_STATUS_CHANGED"
  message := "Task status changed."
  data := Dict.ofFields
    [("mutation_id", .str m.id.str), ("task_id", .str task.id.str),
      ("version", .num task.version), ("replayed", .bool false)]
  mutationRefs := [m.id.str]

end TransitionTask

/-- `apply_transition_task`. -/
def applyTransitionTask (c : TransitionTask) (fresh : ℕ → Stamp) (view : ℕ → State) (s : State) :
    Raises (State × WriteOutcome) :=
  match AuditRepository.getMutation c.userId c.idempotencyKey (view 0).mutations with
  | some previous => do
    let outcome ← replayVersion "TASK_STATUS_CHANGED" "Task status changed." "task_id"
      "Stored Task mutation is missing target version." previous
    return (s, outcome)
  | none => do
    let task ← orRaise (.entityNotFound "Task was not found.")
      (TaskRepository.get c.userId c.taskId (view 1).tasks)
    ensure (.versionConflict "Task version is stale.") ((task.version : ℤ) = c.expectedVersion)
    let task' ← task.transitionTo c.targetStatus (fresh 0).now
    ensure (.valueError "Task already has the requested status.")
      ((task'.version : ℤ) ≠ c.expectedVersion)
    let (tasks, updated) := TaskRepository.update task' c.expectedVersion s.tasks
    ensure (.versionConflict "Task was updated concurrently.") updated
    let m := c.mutation task task' (fresh 1)
    let s ← { s with tasks }.setRecords <|
      s.recordWith m (task'.thingId.map (c.event task' m (fresh 2)))
    return (s, TransitionTask.outcome task' m)

/-! ## A Task is done -/

/-- The arguments of `apply_complete_task`. -/
structure CompleteTask where
  userId : UUID
  taskId : UUID
  expectedVersion : ℤ
  actionId : String
  idempotencyKey : String
  reason : String
  runId : Option UUID := none
  deriving DecidableEq

namespace CompleteTask

def mutation (cal : Calendar) (c : CompleteTask) (task task' : Task) (stamp : Stamp) :
    StateMutation where
  userId := c.userId
  thingId := task.thingId
  runId := c.runId
  actionId := c.actionId
  mutationType :=
    if task'.recurrenceIntervalDays.isSome then "RECURRING_TASK_ADVANCED" else "TASK_COMPLETED"
  targetType := "TASK"
  targetId := task.id
  before := some (Dict.ofFields
    [("status", .str task.status.value), ("version", .num task.version)])
  after := Dict.ofFields
    [("status", .str task'.status.value), ("due_at", isoformat? cal task'.dueAt),
      ("version", .num task'.version)]
  reason := c.reason
  idempotencyKey := c.idempotencyKey
  id := stamp.id
  createdAt := stamp.now

/-- The event in the timeline of the Thing of the Task. -/
def event (c : CompleteTask) (task : Task) (m : StateMutation) (stamp : Stamp) (thingId : UUID) :
    TimelineEvent where
  userId := c.userId
  thingId
  eventType := "TASK_COMPLETED"
  title := task.title ++ "已完成"
  occurredAt := task.completedAt.getD stamp.now
  id := stamp.id
  mutationId := some m.id
  createdAt := stamp.now

def outcome (task : Task) (m : StateMutation) : WriteOutcome where
  code := "TASK_COMPLETED"
  message := "Task completed."
  data := Dict.ofFields
    [("mutation_id", .str m.id.str), ("task_id", .str task.id.str),
      ("version", .num task.version), ("replayed", .bool false)]
  mutationRefs := [m.id.str]

end CompleteTask

/-- `apply_complete_task`. -/
def applyCompleteTask (cal : Calendar) (c : CompleteTask) (fresh : ℕ → Stamp) (view : ℕ → State)
    (s : State) : Raises (State × WriteOutcome) :=
  match AuditRepository.getMutation c.userId c.idempotencyKey (view 0).mutations with
  | some previous => do
    let outcome ← replayVersion "TASK_COMPLETED" "Task completed." "task_id"
      "Stored mutation is missing a valid target version." previous
    return (s, outcome)
  | none => do
    let task ← orRaise (.entityNotFound "Task was not found.")
      (TaskRepository.get c.userId c.taskId (view 1).tasks)
    ensure (.versionConflict "Task version is stale.") ((task.version : ℤ) = c.expectedVersion)
    let task' ← task.complete (fresh 0).now
    let (tasks, updated) := TaskRepository.update task' c.expectedVersion s.tasks
    ensure (.versionConflict "Task was updated concurrently.") updated
    let m := c.mutation cal task task' (fresh 1)
    let s ← { s with tasks }.setRecords <|
      s.recordWith m (task'.thingId.map (c.event task' m (fresh 2)))
    return (s, CompleteTask.outcome task' m)

/-! ## A Blocker is resolved -/

/-- The arguments of `apply_resolve_blocker`. -/
structure ResolveBlocker where
  userId : UUID
  blockerId : UUID
  expectedVersion : ℤ
  actionId : String
  idempotencyKey : String
  reason : String
  deriving DecidableEq

namespace ResolveBlocker

def mutation (c : ResolveBlocker) (blocker : Blocker) (stamp : Stamp) : StateMutation where
  userId := c.userId
  thingId := some blocker.thingId
  actionId := c.actionId
  mutationType := "BLOCKER_RESOLVED"
  targetType := "BLOCKER"
  targetId := blocker.id
  before := some (Dict.ofFields [("status", .str "OPEN"), ("version", .num c.expectedVersion)])
  after := Dict.ofFields
    [("status", .str blocker.status.value), ("version", .num blocker.version)]
  reason := c.reason
  idempotencyKey := c.idempotencyKey
  id := stamp.id
  createdAt := stamp.now

def event (c : ResolveBlocker) (blocker : Blocker) (m : StateMutation) (stamp : Stamp) :
    TimelineEvent where
  userId := c.userId
  thingId := blocker.thingId
  eventType := "BLOCKER_RESOLVED"
  title := "解决阻碍：" ++ blocker.description
  occurredAt := blocker.resolvedAt.getD stamp.now
  id := stamp.id
  mutationId := some m.id
  createdAt := stamp.now

def outcome (blocker : Blocker) (m : StateMutation) : WriteOutcome where
  code := "BLOCKER_RESOLVED"
  message := "Blocker resolved."
  data := Dict.ofFields
    [("mutation_id", .str m.id.str), ("blocker_id", .str blocker.id.str),
      ("version", .num blocker.version), ("replayed", .bool false)]
  mutationRefs := [m.id.str]

end ResolveBlocker

/-- `apply_resolve_blocker`. -/
def applyResolveBlocker (c : ResolveBlocker) (fresh : ℕ → Stamp) (view : ℕ → State) (s : State) :
    Raises (State × WriteOutcome) :=
  match AuditRepository.getMutation c.userId c.idempotencyKey (view 0).mutations with
  | some previous => do
    let outcome ← replayVersion "BLOCKER_RESOLVED" "Blocker resolved." "blocker_id"
      "Stored Blocker mutation is missing target version." previous
    return (s, outcome)
  | none => do
    let blocker ← orRaise (.entityNotFound "Blocker was not found.")
      (BlockerRepository.get c.userId c.blockerId (view 1).things (view 1).blockers)
    ensure (.versionConflict "Blocker version is stale.")
      ((blocker.version : ℤ) = c.expectedVersion)
    let blocker' ← blocker.resolve (fresh 0).now
    let (blockers, updated) := BlockerRepository.update blocker' c.expectedVersion s.blockers
    ensure (.versionConflict "Blocker was updated concurrently.") updated
    let m := c.mutation blocker' (fresh 1)
    let s ← { s with blockers }.setRecords <| s.record m (c.event blocker' m (fresh 2))
    return (s, ResolveBlocker.outcome blocker' m)

/-! ## Relations of Things -/

/-- The arguments of `add_relation`. -/
structure AddRelation where
  userId : UUID
  fromThingId : UUID
  toThingId : UUID
  relationType : ThingRelationType
  note : Option String := none
  actionId : String
  idempotencyKey : String
  reason : String
  deriving DecidableEq

namespace AddRelation

def relation (c : AddRelation) (stamp : Stamp) : ThingRelation where
  fromThingId := c.fromThingId
  toThingId := c.toThingId
  relationType := c.relationType
  note := (c.note.filter fun text => text ≠ "").map Text.strip
  createdAt := stamp.now

def mutation (c : AddRelation) (created : Bool) (stamp : Stamp) : StateMutation where
  userId := c.userId
  thingId := some c.fromThingId
  actionId := c.actionId
  mutationType := "THING_RELATION_ADDED"
  targetType := "THING"
  targetId := c.toThingId
  after := Dict.ofFields
    [("relation_type", .str c.relationType.value), ("created", .bool created)]
  reason := c.reason
  idempotencyKey := c.idempotencyKey
  id := stamp.id
  createdAt := stamp.now

end AddRelation

/-- `add_relation`. -/
def addRelation (c : AddRelation) (fresh : ℕ → Stamp) (view : ℕ → State) (s : State) :
    Raises (State × Bool) :=
  match AuditRepository.getMutation c.userId c.idempotencyKey (view 0).mutations with
  | some _ => return (s, false)
  | none => do
    let notFound : RuntimeError := .entityNotFound "Related Thing was not found."
    ensure notFound (ThingRepository.get c.userId c.fromThingId (view 1).things).isSome
    ensure notFound (ThingRepository.get c.userId c.toThingId (view 2).things).isSome
    ensure (.valueError "A Thing cannot relate to itself.") (c.fromThingId ≠ c.toThingId)
    let relation := c.relation (fresh 0)
    let created := (s.relations.insert? relation).isSome
    let m := c.mutation created (fresh 1)
    let s ← { s with relations := s.relations.insertOrIgnore relation }.setRecords <|
      s.recordWith m none
    return (s, created)

/-! ## Files -/

/-- The arguments of `apply_delete_file`. -/
structure DeleteFile where
  userId : UUID
  sourceId : UUID
  actionId : String
  idempotencyKey : String
  reason : String
  deriving DecidableEq

namespace DeleteFile

def mutation (cal : Calendar) (c : DeleteFile) (deletedAt : Timestamp) (stamp : Stamp) :
    StateMutation where
  userId := c.userId
  thingId := none
  actionId := c.actionId
  mutationType := "FILE_DELETED"
  targetType := "SOURCE"
  targetId := c.sourceId
  after := Dict.ofFields [("deleted_at", isoformat? cal (some deletedAt))]
  reason := c.reason
  idempotencyKey := c.idempotencyKey
  id := stamp.id
  createdAt := stamp.now

def outcome (c : DeleteFile) (m : StateMutation) : WriteOutcome where
  code := "FILE_DELETED"
  message := "File deleted."
  data := Dict.ofFields
    [("mutation_id", .str m.id.str), ("file_id", .str c.sourceId.str),
      ("purge_enqueued", .bool true), ("replayed", .bool false)]
  mutationRefs := [m.id.str]

/-- The answer from the earlier mutation: it names the file of the present call. -/
def replay (c : DeleteFile) (previous : StateMutation) : WriteOutcome where
  code := "FILE_DELETED"
  message := "File deleted."
  data := Dict.ofFields
    [("mutation_id", .str previous.id.str), ("file_id", .str c.sourceId.str),
      ("replayed", .bool true)]
  mutationRefs := [previous.id.str]

end DeleteFile

/-- `apply_delete_file`: the Source is read twice, by `get` and by `mark_deleted`. -/
def applyDeleteFile (cal : Calendar) (c : DeleteFile) (fresh : ℕ → Stamp) (view : ℕ → State)
    (s : State) : Raises (State × WriteOutcome) :=
  match AuditRepository.getMutation c.userId c.idempotencyKey (view 0).mutations with
  | some previous => do
    ensure (.runtimeError "Idempotent file delete points to a missing Source.")
      (SourceRepository.getIncludingDeleted c.userId c.sourceId (view 1).sources).isSome
    return (s, c.replay previous)
  | none => do
    let notFound : RuntimeError := .entityNotFound "Source was not found."
    ensure notFound (SourceRepository.get c.userId c.sourceId (view 1).sources).isSome
    ensure notFound (SourceRepository.get c.userId c.sourceId (view 2).sources).isSome
    let sources := SourceRepository.markDeleted c.sourceId (fresh 0).now s.sources
    let m := c.mutation cal (fresh 0).now (fresh 1)
    let s ← s.setRecords <| { s.toRecords with sources }.recordWith m none
    return (s, c.outcome m)

end PersonalState
