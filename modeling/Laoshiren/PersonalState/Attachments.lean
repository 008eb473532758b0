import Laoshiren.PersonalState.ThingWrites
import Laoshiren.Runtime.RunService

/-!
# Writes that attach a row to a Thing

The Tasks, dates, Blockers, context entries, Source links, Automations, Memories and Threads that a user
or a model creates for a Thing. Each write looks the Thing up by its id, and stores that id.
-/

namespace PersonalState

open Raise Runtime

/-! ## Repositories -/

def TaskRepository.get (userId taskId : UUID) (t : Table Task) : Option Task :=
  t.get fun r => r.id = taskId ∧ r.userId = userId

/-- The row with its Thing: `things` is the table that is joined. -/
def BlockerRepository.get (userId blockerId : UUID) (things : Table Thing) (t : Table Blocker) :
    Option Blocker :=
  t.get fun r => r.id = blockerId ∧
    things.rows.any fun thing => thing.id = r.thingId ∧ thing.userId = userId

namespace ContextEntryRepository

/-- The row with its Thing: `things` is the table that is joined. -/
def get (userId entryId : UUID) (things : Table Thing) (t : Table ThingContextEntry) :
    Option ThingContextEntry :=
  t.get fun r => r.id = entryId ∧
    things.rows.any fun thing => thing.id = r.thingId ∧ thing.userId = userId

/-- The row that `update` writes. -/
def updateWhere (entry : ThingContextEntry) (expectedVersion : ℤ) (r : ThingContextEntry) : Bool :=
  r.id = entry.id ∧ (r.version : ℤ) = expectedVersion

def updateValues (entry r : ThingContextEntry) : ThingContextEntry :=
  { r with
    label := entry.label
    content := entry.content
    version := entry.version
    updatedAt := entry.updatedAt }

def update (entry : ThingContextEntry) (expectedVersion : ℤ) (t : Table ThingContextEntry) :
    Table ThingContextEntry × Bool :=
  let p := updateWhere entry expectedVersion
  (t.update p (updateValues entry) fun _ _ _ h => h, t.rowcount p == 1)

end ContextEntryRepository

def AutomationRepository.getByIdempotency (userId : UUID) (key : String) (t : Table Automation) :
    Option Automation :=
  t.get fun r => r.userId = userId ∧ r.idempotencyKey = key

namespace MemoryRepository

def getByIdempotency (userId : UUID) (key : String) (t : Table Memory) : Option Memory :=
  t.get fun r => r.userId = userId ∧ r.idempotencyKey = key

def getActiveProfile (userId : UUID) (profileKey : String) (t : Table Memory) : Option Memory :=
  t.get fun r => r.userId = userId ∧ r.memoryType = .profile ∧ r.status = .active ∧
    r.profileKey = some profileKey

/-- The row that `update` writes. -/
def updateWhere (memory : Memory) (expectedVersion : ℕ) (r : Memory) : Bool :=
  r.id = memory.id ∧ r.version = expectedVersion

def updateValues (memory r : Memory) : Memory :=
  { r with
    content := memory.content
    summary := memory.summary
    importance := memory.importance
    confidence := memory.confidence
    profileKey := memory.profileKey
    supersedesId := memory.supersedesId
    status := memory.status
    version := memory.version
    updatedAt := memory.updatedAt }

end MemoryRepository

/-- `add_mutation`, and `add_timeline_event` where the write has one. -/
def Records.recordWith (db : Records) (m : StateMutation) : Option TimelineEvent → Raises Records
  | some event => db.record m event
  | none => do
    let mutations ← orRaise .integrityError (db.mutations.insert? m)
    return { db with mutations }

/-- `str(row.id)` and `row.version` of a new row. -/
def createdData (id : UUID) (version : ℕ) (replayed : Bool) : Dict :=
  Dict.ofFields
    [("id", .str id.str), ("version", .num version), ("replayed", .bool replayed)]

/-! ## Tasks -/

/-- The arguments of `apply_create_task`. -/
structure CreateTask where
  userId : UUID
  thingId : Option UUID := none
  title : String
  dueAt : Option Timestamp := none
  recurrenceIntervalDays : Option ℤ := none
  actionId : String
  idempotencyKey : String
  reason : String
  runId : Option UUID := none
  deriving DecidableEq

namespace CreateTask

/-- The Thing of the Task, where it has one. -/
def findThing (c : CreateTask) (things : Table Thing) : Raises (Option Thing) :=
  match c.thingId with
  | none => return none
  | some thingId => do
    let thing ← orRaise (.entityNotFound "Thing was not found.")
      (ThingRepository.get c.userId thingId things)
    return some thing

def task (c : CreateTask) (thing : Option Thing) (stamp : Stamp) : Task where
  userId := c.userId
  title := Text.strip c.title
  thingId := thing.map Thing.id
  id := stamp.id
  dueAt := c.dueAt
  recurrenceIntervalDays := c.recurrenceIntervalDays
  createdAt := stamp.now
  updatedAt := stamp.now

def mutation (cal : Calendar) (c : CreateTask) (task : Task) (stamp : Stamp) : StateMutation where
  userId := c.userId
  thingId := task.thingId
  runId := c.runId
  actionId := c.actionId
  mutationType := "TASK_CREATED"
  targetType := "TASK"
  targetId := task.id
  after := Dict.ofFields
    [("title", .str task.title), ("status", .str task.status.value),
      ("due_at", isoformat? cal task.dueAt),
      ("recurrence_interval_days", (task.recurrenceIntervalDays.map fun n => .num n).getD .null),
      ("version", .num task.version)]
  reason := c.reason
  idempotencyKey := c.idempotencyKey
  id := stamp.id
  createdAt := stamp.now

def event (c : CreateTask) (thing : Thing) (task : Task) (m : StateMutation) (stamp : Stamp) :
    TimelineEvent where
  userId := c.userId
  thingId := thing.id
  eventType := "TASK_CREATED"
  title := "创建任务：" ++ task.title
  occurredAt := task.createdAt
  id := stamp.id
  mutationId := some m.id
  createdAt := stamp.now

def outcome (task : Task) (mutationId : UUID) (replayed : Bool) : WriteOutcome where
  code := "TASK_CREATED"
  message := "Task created."
  data := createdData task.id task.version replayed
  mutationRefs := [mutationId.str]

end CreateTask

/-- `apply_create_task`. -/
def applyCreateTask (cal : Calendar) (c : CreateTask) (fresh : ℕ → Stamp) (view : ℕ → State)
    (s : State) : Raises (State × WriteOutcome) := do
  ensure (.valueError "Task title must not be empty.") (Text.strip c.title ≠ "")
  ensure (.valueError "Recurring Task requires a due time and a positive interval.")
    (c.recurrenceIntervalDays.all fun n => 0 < n ∧ c.dueAt ≠ none)
  match AuditRepository.getMutation c.userId c.idempotencyKey (view 0).mutations with
  | some previous =>
    let task ← orRaise (.runtimeError "Idempotent Task creation points to a missing Task.")
      (TaskRepository.get c.userId previous.targetId (view 1).tasks)
    return (s, CreateTask.outcome task previous.id true)
  | none =>
    let thing ← c.findThing (view 1).things
    let task := c.task thing (fresh 0)
    let tasks ← orRaise .integrityError (s.tasks.insert? task)
    let m := c.mutation cal task (fresh 1)
    let s ← { s with tasks }.setRecords <|
      s.recordWith m (thing.map fun thing => c.event thing task m (fresh 2))
    return (s, CreateTask.outcome task m.id false)

/-! ## Dates -/

/-- `apply_set_deadline` over what its reading statements saw. -/
def applySetDeadlineAt (cal : Calendar) (c : SetDeadline) (fresh : ℕ → Stamp) (view : ℕ → Records)
    (db : Records) : Raises (Records × WriteOutcome) := do
  let value ← orRaise (.valueError "Deadline must include timezone information.") c.value.instant
  ensure (.valueError "Date timezone must not be empty.") (Text.strip c.timezoneName ≠ "")
  ensure (.valueError "Only a confirmed date can become the primary deadline.")
    (c.isPrimary = true → c.certainty = .confirmed)
  match AuditRepository.getMutation c.userId c.idempotencyKey (view 0).mutations with
  | some previous =>
    let outcome ← replayDate "DEADLINE_SET" "Deadline set." "thing_version"
      "Stored deadline mutation is missing Thing version." previous
    return (db, outcome)
  | none =>
    let thing ← orRaise (.entityNotFound "Thing was not found.")
      (ThingRepository.get c.userId c.thingId (view 1).things)
    ensure (.versionConflict "Thing version is stale.") ((thing.version : ℤ) = c.expectedVersion)
    ensure (.entityNotFound "Source was not found.")
      (c.sourceId.all fun id => (SourceRepository.get c.userId id (view 2).sources).isSome)
    let date := c.date thing value (fresh 0)
    let (thing', db) ← c.promote thing (fresh 0).now db
    let dates ← orRaise .integrityError (db.dates.insert? date)
    let m := c.mutation cal thing thing' date (fresh 1)
    let db ← { db with dates }.record m (c.event thing m (fresh 2))
    return (db, SetDeadline.outcome thing' date m)

/-- `apply_update_date` over what its reading statements saw. -/
def applyUpdateDateAt (cal : Calendar) (c : UpdateDate) (fresh : ℕ → Stamp) (view : ℕ → Records)
    (db : Records) : Raises (Records × WriteOutcome) :=
  match AuditRepository.getMutation c.userId c.idempotencyKey (view 0).mutations with
  | some previous => do
    let outcome ← replayDate "DATE_UPDATED" "Date updated." "date_version"
      "Stored date mutation is missing target version." previous
    return (db, outcome)
  | none => do
    let date ← orRaise (.entityNotFound "ThingDate was not found.")
      (ThingDateRepository.get c.userId c.dateId (view 1).things (view 1).dates)
    ensure (.versionConflict "ThingDate version is stale.") ((date.version : ℤ) = c.expectedVersion)
    let thing ← orRaise (.entityNotFound "Thing was not found.")
      (ThingRepository.get c.userId date.thingId (view 2).things)
    ensure (.versionConflict "Thing version is stale.")
      ((thing.version : ℤ) = c.expectedThingVersion)
    let date' ← date.revise c.value c.timezoneName c.precision c.certainty c.isPrimary (fresh 0).now
    let (thing', db) ← c.promote thing date (fresh 0).now db
    let db ← c.storeThing thing' db
    let (dates, updated) ← orRaise .integrityError
      (ThingDateRepository.update date' c.expectedVersion db.dates)
    ensure (.versionConflict "ThingDate was updated concurrently.") updated
    let m := c.mutation cal thing thing' date date' (fresh 1)
    let db ← { db with dates }.record m (c.event thing date date' m (fresh 2))
    return (db, UpdateDate.outcome thing' date' m)

/-- `update_thing` over what its reading statements saw. -/
def updateThingAt (c : UpdateThing) (fresh : ℕ → Stamp) (view : ℕ → Records) (db : Records) :
    Raises (Records × Thing) := do
  ensure (.valueError "At least one editable Thing field must be provided.")
    (c.name ≠ none ∨ c.status ≠ none ∨ c.updateCurrentStage)
  match AuditRepository.getMutation c.userId c.idempotencyKey (view 0).mutations with
  | some _ =>
    let thing ← orRaise (.runtimeError "Idempotent Thing update points to a missing Thing.")
      (ThingRepository.get c.userId c.thingId (view 1).things)
    return (db, thing)
  | none =>
    let thing ← orRaise (.entityNotFound "Thing was not found.")
      (ThingRepository.get c.userId c.thingId (view 1).things)
    ensure (.versionConflict "Thing version is stale.") ((thing.version : ℤ) = c.expectedVersion)
    let thing' ← thing.revise c.name c.status c.currentStage c.updateCurrentStage (fresh 0).now
    let (things, updated) := ThingRepository.update thing' c.expectedVersion db.things
    ensure (.versionConflict "Thing was updated concurrently.") updated
    let m := c.mutation thing thing' (fresh 1)
    let db ← { db with things }.record m (c.event thing' m (fresh 2))
    return (db, thing')

/-- A write that read the state that it commits on is the write of one transaction alone. -/
theorem applySetDeadlineAt_same (cal : Calendar) (c : SetDeadline) (fresh : ℕ → Stamp)
    (db : Records) :
    applySetDeadlineAt cal c fresh (fun _ => db) db = applySetDeadline cal c fresh db := rfl

theorem applyUpdateDateAt_same (cal : Calendar) (c : UpdateDate) (fresh : ℕ → Stamp) (db : Records) :
    applyUpdateDateAt cal c fresh (fun _ => db) db = applyUpdateDate cal c fresh db := rfl

theorem updateThingAt_same (c : UpdateThing) (fresh : ℕ → Stamp) (db : Records) :
    updateThingAt c fresh (fun _ => db) db = updateThing c fresh db := rfl

/-! ## Blockers -/

/-- The arguments of `apply_create_blocker`. -/
structure CreateBlocker where
  userId : UUID
  thingId : UUID
  description : String
  severity : BlockerSeverity
  taskId : Option UUID := none
  sourceId : Option UUID := none
  actionId : String
  idempotencyKey : String
  reason : String
  deriving DecidableEq

namespace CreateBlocker

def blocker (c : CreateBlocker) (stamp : Stamp) : Blocker where
  thingId := c.thingId
  description := Text.strip c.description
  severity := c.severity
  id := stamp.id
  taskId := c.taskId
  blockedSince := stamp.now
  sourceId := c.sourceId
  createdAt := stamp.now
  updatedAt := stamp.now

def mutation (c : CreateBlocker) (blocker : Blocker) (stamp : Stamp) : StateMutation where
  userId := c.userId
  thingId := some c.thingId
  actionId := c.actionId
  mutationType := "BLOCKER_ADDED"
  targetType := "BLOCKER"
  targetId := blocker.id
  after := Dict.ofFields
    [("status", .str blocker.status.value), ("version", .num blocker.version)]
  reason := c.reason
  sourceId := c.sourceId
  idempotencyKey := c.idempotencyKey
  id := stamp.id
  createdAt := stamp.now

def event (c : CreateBlocker) (blocker : Blocker) (m : StateMutation) (stamp : Stamp) :
    TimelineEvent where
  userId := c.userId
  thingId := c.thingId
  eventType := "BLOCKER_ADDED"
  title := "新增阻碍：" ++ blocker.description
  occurredAt := blocker.blockedSince
  id := stamp.id
  sourceId := c.sourceId
  mutationId := some m.id
  createdAt := stamp.now

def outcome (blocker : Blocker) (mutationId : UUID) (replayed : Bool) : WriteOutcome where
  code := "BLOCKER_ADDED"
  message := "Blocker added."
  data := createdData blocker.id blocker.version replayed
  mutationRefs := [mutationId.str]

end CreateBlocker

/-- `apply_create_blocker`. -/
def applyCreateBlocker (c : CreateBlocker) (fresh : ℕ → Stamp) (view : ℕ → State) (s : State) :
    Raises (State × WriteOutcome) := do
  ensure (.valueError "Blocker description must not be empty.") (Text.strip c.description ≠ "")
  match AuditRepository.getMutation c.userId c.idempotencyKey (view 0).mutations with
  | some previous =>
    let blocker ← orRaise (.runtimeError "Idempotent Blocker creation points to missing data.")
      (BlockerRepository.get c.userId previous.targetId (view 1).things (view 1).blockers)
    return (s, CreateBlocker.outcome blocker previous.id true)
  | none =>
    ensure (.entityNotFound "Thing was not found.")
      (ThingRepository.get c.userId c.thingId (view 1).things).isSome
    ensure (.entityNotFound "Task was not found in this Thing.") (c.taskId.all fun taskId =>
      (TaskRepository.get c.userId taskId (view 2).tasks).any fun task =>
        task.thingId = some c.thingId)
    ensure (.entityNotFound "Source was not found.")
      (c.sourceId.all fun id => (SourceRepository.get c.userId id (view 3).sources).isSome)
    let blocker := c.blocker (fresh 0)
    let blockers ← orRaise .integrityError (s.blockers.insert? blocker)
    let m := c.mutation blocker (fresh 1)
    let s ← { s with blockers }.setRecords <| s.record m (c.event blocker m (fresh 2))
    return (s, CreateBlocker.outcome blocker m.id false)

/-! ## Context entries -/

/-- The arguments of `apply_set_thing_context`. -/
structure SetThingContext where
  userId : UUID
  thingId : UUID
  label : String
  content : String
  entryId : Option UUID := none
  expectedVersion : Option ℤ := none
  sourceId : Option UUID := none
  actionId : String
  idempotencyKey : String
  reason : String
  runId : Option UUID := none
  deriving DecidableEq

/-- `ThingContextEntry.revise`. -/
def ThingContextEntry.revise (entry : ThingContextEntry) (label content : String) (now : Timestamp) :
    Raises ThingContextEntry := do
  ensure (.valueError "Thing context label and content must not be empty.")
    (Text.strip label ≠ "" ∧ Text.strip content ≠ "")
  return { entry with
    label := Text.strip label
    content := Text.strip content
    updatedAt := now
    version := entry.version + 1 }

namespace SetThingContext

def entry (c : SetThingContext) (stamp : Stamp) : ThingContextEntry where
  thingId := c.thingId
  label := Text.strip c.label
  content := Text.strip c.content
  id := stamp.id
  sourceId := c.sourceId
  createdAt := stamp.now
  updatedAt := stamp.now

/-- The state of an entry in a mutation. -/
def entryState (entry : ThingContextEntry) : Dict :=
  Dict.ofFields
    [("label", .str entry.label), ("content", .str entry.content), ("version", .num entry.version)]

/-- The entry before and after the write, and the table with it. -/
def store (c : SetThingContext) (stamp : Stamp) (view : ℕ → State) (s : State) :
    Raises (Option ThingContextEntry × ThingContextEntry × Table ThingContextEntry) :=
  match c.entryId with
  | none => do
    ensure (.valueError "expected_version is only valid when updating a context entry.")
      (c.expectedVersion = none)
    let entry := c.entry stamp
    let entries ← orRaise .integrityError (s.contextEntries.insert? entry)
    return (none, entry, entries)
  | some entryId => do
    let expectedVersion ← orRaise
      (.valueError "expected_version is required when updating a context entry.") c.expectedVersion
    let notFound : RuntimeError := .entityNotFound "Thing context entry was not found."
    let existing ← orRaise notFound
      (ContextEntryRepository.get c.userId entryId (view 2).things (view 2).contextEntries)
    ensure notFound (existing.thingId = c.thingId)
    ensure (.versionConflict "Thing context entry version is stale.")
      ((existing.version : ℤ) = expectedVersion)
    let entry ← existing.revise (Text.strip c.label) (Text.strip c.content) stamp.now
    let (entries, updated) := ContextEntryRepository.update entry expectedVersion s.contextEntries
    ensure (.versionConflict "Thing context entry was updated concurrently.") updated
    return (some existing, entry, entries)

/-- The name of the mutation and of the timeline event. -/
def mutationType (existing : Option ThingContextEntry) : String :=
  if existing.isSome then "THING_CONTEXT_UPDATED" else "THING_CONTEXT_CREATED"

def mutation (c : SetThingContext) (existing : Option ThingContextEntry) (entry : ThingContextEntry)
    (stamp : Stamp) : StateMutation where
  userId := c.userId
  thingId := some c.thingId
  runId := c.runId
  actionId := c.actionId
  mutationType := mutationType existing
  targetType := "THING_CONTEXT_ENTRY"
  targetId := entry.id
  before := existing.map entryState
  after := entryState entry
  reason := c.reason
  sourceId := c.sourceId
  idempotencyKey := c.idempotencyKey
  id := stamp.id
  createdAt := stamp.now

def event (c : SetThingContext) (existing : Option ThingContextEntry) (entry : ThingContextEntry)
    (m : StateMutation) (stamp : Stamp) : TimelineEvent where
  userId := c.userId
  thingId := c.thingId
  eventType := mutationType existing
  title := "更新当前上下文：" ++ entry.label
  occurredAt := entry.updatedAt
  id := stamp.id
  sourceId := c.sourceId
  mutationId := some m.id
  createdAt := stamp.now

def outcome (entry : ThingContextEntry) (m : StateMutation) : WriteOutcome where
  code := "THING_CONTEXT_SET"
  message := "Current Thing context set."
  data := Dict.ofFields
    [("mutation_id", .str m.id.str), ("entry_id", .str entry.id.str),
      ("version", .num entry.version), ("replayed", .bool false)]
  mutationRefs := [m.id.str]

end SetThingContext

/-- `apply_set_thing_context`. -/
def applySetThingContext (c : SetThingContext) (fresh : ℕ → Stamp) (view : ℕ → State) (s : State) :
    Raises (State × WriteOutcome) := do
  ensure (.valueError "Thing context label and content must not be empty.")
    (Text.strip c.label ≠ "" ∧ Text.strip c.content ≠ "")
  match AuditRepository.getMutation c.userId c.idempotencyKey (view 0).mutations with
  | some previous =>
    let outcome ← replayVersion "THING_CONTEXT_SET" "Current Thing context set." "entry_id"
      "Stored context mutation is missing target version." previous
    return (s, outcome)
  | none =>
    ensure (.entityNotFound "Thing was not found.")
      (ThingRepository.get c.userId c.thingId (view 1).things).isSome
    let (existing, entry, contextEntries) ← c.store (fresh 0) view s
    let m := c.mutation existing entry (fresh 1)
    let s ← { s with contextEntries }.setRecords <|
      s.record m (c.event existing entry m (fresh 2))
    return (s, SetThingContext.outcome entry m)

/-! ## Source links -/

/-- The arguments of `link_to_thing`, and the title of the Source. -/
structure LinkToThing where
  userId : UUID
  thingId : UUID
  sourceId : UUID
  relationType : SourceRelationType
  relevance : ℚ
  actionId : String
  idempotencyKey : String
  reason : String
  sourceTitle : String
  deriving DecidableEq

namespace LinkToThing

def relation (c : LinkToThing) (stamp : Stamp) : ThingSource where
  thingId := c.thingId
  sourceId := c.sourceId
  relationType := c.relationType
  relevance := c.relevance
  createdAt := stamp.now

def mutation (c : LinkToThing) (created : Bool) (stamp : Stamp) : StateMutation where
  userId := c.userId
  thingId := some c.thingId
  actionId := c.actionId
  mutationType := "SOURCE_LINKED"
  targetType := "SOURCE"
  targetId := c.sourceId
  after := Dict.ofFields
    [("relation_type", .str c.relationType.value), ("relevance", .num c.relevance),
      ("created", .bool created)]
  reason := c.reason
  sourceId := some c.sourceId
  idempotencyKey := c.idempotencyKey
  id := stamp.id
  createdAt := stamp.now

def event (c : LinkToThing) (m : StateMutation) (stamp : Stamp) : TimelineEvent where
  userId := c.userId
  thingId := c.thingId
  eventType := "SOURCE_ADDED"
  title := "添加来源：" ++ c.sourceTitle
  occurredAt := stamp.now
  id := stamp.id
  sourceId := some c.sourceId
  mutationId := some m.id
  createdAt := stamp.now

end LinkToThing

/-- `link_to_thing`. -/
def linkToThing (c : LinkToThing) (fresh : ℕ → Stamp) (view : ℕ → State) (s : State) :
    Raises (State × Bool) := do
  ensure (.valueError "Source relevance must be between 0 and 1.")
    (0 ≤ c.relevance ∧ c.relevance ≤ 1)
  match AuditRepository.getMutation c.userId c.idempotencyKey (view 0).mutations with
  | some _ => return (s, false)
  | none =>
    ensure (.entityNotFound "Thing was not found.")
      (ThingRepository.get c.userId c.thingId (view 1).things).isSome
    ensure (.entityNotFound "Source was not found.")
      (SourceRepository.get c.userId c.sourceId (view 2).sources).isSome
    let relation := c.relation (fresh 0)
    let created := (s.thingSources.insert? relation).isSome
    let m := c.mutation created (fresh 1)
    let s ← { s with thingSources := s.thingSources.insertOrIgnore relation }.setRecords <|
      s.recordWith m (if created then some (c.event m (fresh 2)) else none)
    return (s, created)

/-! ## Automations -/

/-- The arguments of `apply_create_automation`. -/
structure CreateAutomation where
  userId : UUID
  automationType : AutomationType
  title : String
  message : String
  timezoneName : String
  nextTriggerAt : DateTime
  idempotencyKey : String
  thingId : Option UUID := none
  taskId : Option UUID := none
  sourceId : Option UUID := none
  recurrenceIntervalSeconds : Option ℤ := none
  deriving DecidableEq

namespace CreateAutomation

def automation (c : CreateAutomation) (trigger : Timestamp) (stamp : Stamp) : Automation where
  userId := c.userId
  automationType := c.automationType
  title := Text.strip c.title
  message := Text.strip c.message
  timezoneName := Text.strip c.timezoneName
  nextTriggerAt := some trigger
  idempotencyKey := c.idempotencyKey
  id := stamp.id
  thingId := c.thingId
  taskId := c.taskId
  sourceId := c.sourceId
  recurrenceIntervalSeconds := c.recurrenceIntervalSeconds
  status := if c.automationType = .conditionWatch ∨ c.automationType = .condition then .paused
    else .active
  createdAt := stamp.now
  updatedAt := stamp.now

/-- `Automation.__post_init__` of a new Automation. -/
def postInit (c : CreateAutomation) : Raises Timestamp := do
  let trigger ← orRaise (.valueError "Automation trigger must include timezone information.")
    c.nextTriggerAt.instant
  if c.automationType = .recurring then
    ensure (.valueError "Recurring Automation interval must be at least 60 seconds.")
      (c.recurrenceIntervalSeconds.any fun n => 60 ≤ n)
  else
    ensure (.valueError "Only a recurring Automation can define an interval.")
      (c.recurrenceIntervalSeconds = none)
  return trigger

def outcome (automation : Automation) (replayed : Bool) : WriteOutcome where
  code := "AUTOMATION_CREATED"
  message := "Automation created."
  data := Dict.ofFields
    [("id", .str automation.id.str), ("status", .str automation.status.value),
      ("version", .num automation.version), ("replayed", .bool replayed)]
  mutationRefs := []

end CreateAutomation

/-- `apply_create_automation`. -/
def applyCreateAutomation (c : CreateAutomation) (stamp : Stamp) (view : ℕ → State) (s : State) :
    Raises (State × WriteOutcome) := do
  ensure (.valueError "Automation title, message and timezone must not be empty.")
    (Text.strip c.title ≠ "" ∧ Text.strip c.message ≠ "" ∧ Text.strip c.timezoneName ≠ "")
  match AutomationRepository.getByIdempotency c.userId c.idempotencyKey (view 0).automations with
  | some previous => return (s, CreateAutomation.outcome previous true)
  | none =>
    ensure (.entityNotFound "Thing was not found.") (c.thingId.all fun thingId =>
      (ThingRepository.get c.userId thingId (view 1).things).isSome)
    ensure (.entityNotFound "Task was not found in the selected Thing.") (c.taskId.all fun taskId =>
      (TaskRepository.get c.userId taskId (view 2).tasks).any fun task =>
        c.thingId = none ∨ task.thingId = c.thingId)
    ensure (.entityNotFound "Source was not found.")
      (c.sourceId.all fun id => (SourceRepository.get c.userId id (view 3).sources).isSome)
    let trigger ← c.postInit
    let automation := c.automation trigger stamp
    let automations ← orRaise .integrityError (s.automations.insert? automation)
    return ({ s with automations }, CreateAutomation.outcome automation false)

/-! ## Memories -/

/-- The arguments of `apply_create_memory`. Its checks of the embedding and of the time that a Memory is
valid are left to the caller, and so is what it looks up under the fingerprint of the content. -/
structure CreateMemory where
  userId : UUID
  memoryType : MemoryType
  content : String
  summary : String
  importance : ℚ
  confidence : ℚ
  idempotencyKey : String
  thingId : Option UUID := none
  sourceIds : List UUID := []
  /-- `profile_key.strip().casefold()`. -/
  profileKey : Option String := none
  /-- The content was forgotten before. -/
  suppressed : Bool := false
  /-- The content says what the Personal State says. -/
  duplicatesState : Bool := false
  deriving DecidableEq

namespace CreateMemory

/-- A profile key that is no empty text. -/
def namedKey (c : CreateMemory) : Option String := c.profileKey.filter fun key => key ≠ ""

def memory (c : CreateMemory) (superseded : Option Memory) (stamp : Stamp) : Memory where
  userId := c.userId
  memoryType := c.memoryType
  content := Text.strip c.content
  summary := Text.strip c.summary
  importance := c.importance
  confidence := c.confidence
  idempotencyKey := c.idempotencyKey
  id := stamp.id
  thingId := c.thingId
  sourceIds := c.sourceIds
  profileKey := c.profileKey
  supersedesId := superseded.map Memory.id
  createdAt := stamp.now
  updatedAt := stamp.now

def outcome (memory : Memory) (replayed : Bool) : WriteOutcome where
  code := "MEMORY_REMEMBERED"
  message := "Memory remembered."
  data := Dict.ofFields
    [("id", .str memory.id.str), ("type", .str memory.memoryType.value), ("replayed", .bool replayed)]
  mutationRefs := []

/-- The answer where nothing is remembered. -/
def skipped (code message : String) : WriteOutcome where
  code
  message
  data := Dict.ofFields [("replayed", .bool false)]
  mutationRefs := []

/-- The Memory that holds the present value of the profile key, superseded. -/
def supersede (c : CreateMemory) (now : Timestamp) (view : ℕ → State) (t : Table Memory) :
    Raises (Option Memory × Table Memory) :=
  match c.namedKey.bind fun key => MemoryRepository.getActiveProfile c.userId key (view 2).memories with
  | none => return (none, t)
  | some superseded => do
    let p := MemoryRepository.updateWhere superseded superseded.version
    let memories ← orRaise .integrityError <|
      t.update? p (MemoryRepository.updateValues { superseded with
        status := .superseded
        updatedAt := now
        version := superseded.version + 1 })
    ensure (.versionConflict "PROFILE Memory was updated concurrently.") (t.rowcount p = 1)
    return (some superseded, memories)

end CreateMemory

/-- `apply_create_memory`. -/
def applyCreateMemory (c : CreateMemory) (stamp : Stamp) (view : ℕ → State) (s : State) :
    Raises (State × WriteOutcome) := do
  ensure (.valueError "Memory content and summary must not be empty.")
    (Text.strip c.content ≠ "" ∧ Text.strip c.summary ≠ "")
  ensure (.valueError "Memory importance and confidence must be between 0 and 1.")
    (0 ≤ c.importance ∧ c.importance ≤ 1 ∧ 0 ≤ c.confidence ∧ c.confidence ≤ 1)
  ensure (.valueError "Only PROFILE Memory can define a profile key.")
    (c.namedKey ≠ none → c.memoryType = .profile)
  ensure (.valueError "Memory profile key must not exceed 100 characters.")
    (c.namedKey.all fun key => key.length ≤ 100)
  if c.suppressed then
    return (s, CreateMemory.skipped "MEMORY_SUPPRESSED" "Memory content is suppressed.")
  else if c.duplicatesState then
    return (s, CreateMemory.skipped "MEMORY_STATE_DUPLICATE"
      "Memory duplicates current Personal State.")
  else
    match MemoryRepository.getByIdempotency c.userId c.idempotencyKey (view 0).memories with
    | some previous => return (s, CreateMemory.outcome previous true)
    | none =>
      ensure (.entityNotFound "Thing was not found.") (c.thingId.all fun thingId =>
        (ThingRepository.get c.userId thingId (view 1).things).isSome)
      ensure (.entityNotFound "Source was not found.") (c.sourceIds.zipIdx.all fun (id, i) =>
        (SourceRepository.get c.userId id (view (i + 3)).sources).isSome)
      let (superseded, memories) ← c.supersede stamp.now view s.memories
      let memory := c.memory superseded stamp
      let memories ← orRaise .integrityError (memories.insert? memory)
      return ({ s with memories }, CreateMemory.outcome memory false)

/-! ## Threads -/

/-- The Threads of a Personal State, as the Runtime sees them. -/
def State.threadStore (s : State) : Store := { threads := s.threads }

/-- `create_thread` of the Runtime. -/
def applyCreateThread (userId : UUID) (title idempotencyKey : String) (activeThingId : Option UUID)
    (stamp : Stamp) (view : ℕ → State) (s : State) : Raises (State × Thread) := do
  let known := activeThingId.any fun id => (ThingRepository.get userId id (view 1).things).isSome
  let (store, thread) ← createThread userId title idempotencyKey activeThingId known stamp
    (fun n => (view n).threadStore) s.threadStore
  return ({ s with threads := store.threads }, thread)

/-- The part of `create_automation_run` that stores a Thread: the Thing is that of the Automation, and
nothing is looked up. -/
def applyAutomationThread (c : CreateAutomationRun) (stamp : Stamp) (view : ℕ → State) (s : State) :
    Raises (State × UUID) := do
  let known := (view 0).threads.get fun r =>
    r.userId = c.userId ∧ r.idempotencyKey = "automation-inbox:" ++ c.userId.str
  let (store, threadId) ← automationThread c stamp known s.threadStore
  return ({ s with threads := store.threads }, threadId)

end PersonalState
