import Mathlib.Algebra.Order.Field.Rat
import Laoshiren.PersonalState.Repositories
import Laoshiren.Runtime.ToolService

/-!
# Personal State writes

Writes on Things and their dates, each inside the transaction of its caller. A write whose idempotency
key has a mutation already is answered from the mutation and changes nothing.
-/

namespace PersonalState

open Raise Runtime

/-- `isinstance(value, int)`. -/
def isInt : Json → Bool
  | .num q => q.den = 1
  | .bool _ => true
  | _ => false

/-- The answer of a date write from its earlier mutation: `field` is the version that it reports. -/
def replayDate (code message field error : String) (previous : StateMutation) :
    Raises WriteOutcome := do
  let version ← orRaise (.runtimeError error) ((previous.after.get field).filter isInt)
  return {
    code
    message
    data := Dict.ofFields
      [("mutation_id", .str previous.id.str), ("date_id", .str previous.targetId.str),
        (field, version), ("replayed", .bool true)]
    mutationRefs := [previous.id.str] }

/-- The mutation and the timeline event of a write. -/
def Records.record (db : Records) (m : StateMutation) (event : TimelineEvent) : Raises Records := do
  let mutations ← orRaise .integrityError (db.mutations.insert? m)
  let timeline ← orRaise .integrityError (db.timeline.insert? event)
  return { db with mutations, timeline }

/-! ## Setting a date -/

/-- The arguments of `apply_set_deadline`. -/
structure SetDeadline where
  userId : UUID
  thingId : UUID
  kind : ThingDateType
  value : DateTime
  timezoneName : String
  precision : DatePrecision
  certainty : DateCertainty
  isPrimary : Bool
  expectedVersion : ℤ
  actionId : String
  idempotencyKey : String
  reason : String
  label : Option String := none
  runId : Option UUID := none
  sourceId : Option UUID := none
  deriving DecidableEq

namespace SetDeadline

/-- The new date. -/
def date (c : SetDeadline) (thing : Thing) (value : Timestamp) (stamp : Stamp) : ThingDate where
  thingId := thing.id
  kind := c.kind
  value
  timezoneName := Text.strip c.timezoneName
  precision := c.precision
  certainty := c.certainty
  label := (c.label.filter fun text => text ≠ "").map Text.strip
  id := stamp.id
  isPrimary := c.isPrimary
  sourceId := c.sourceId
  createdAt := stamp.now
  updatedAt := stamp.now

/-- A primary date becomes the deadline of its Thing, and takes the place of the primary date before. -/
def promote (c : SetDeadline) (thing : Thing) (now : Timestamp) (db : Records) :
    Raises (Thing × Records) :=
  if c.isPrimary then do
    let thing ← thing.setPrimaryDeadline c.value now
    let (things, updated) := ThingRepository.update thing c.expectedVersion db.things
    ensure (.versionConflict "Thing was updated concurrently.") updated
    return (thing,
      { db with things, dates := ThingDateRepository.unsetPrimary thing.id c.kind db.dates })
  else return (thing, db)

def mutation (cal : Calendar) (c : SetDeadline) (before after : Thing) (date : ThingDate)
    (stamp : Stamp) : StateMutation where
  userId := c.userId
  thingId := some before.id
  runId := c.runId
  actionId := c.actionId
  mutationType := "DEADLINE_SET"
  targetType := "THING_DATE"
  targetId := date.id
  before := some (Dict.ofFields
    [("deadline_at", Json.ofStr? (before.deadlineAt.map fun t => cal.isoformat (.utc t))),
      ("thing_version", .num c.expectedVersion)])
  after := Dict.ofFields
    ([("value", .str (cal.isoformat c.value)), ("certainty", .str c.certainty.value),
        ("is_primary", .bool c.isPrimary),
        ("source_id", Json.ofStr? (c.sourceId.map UUID.str)),
        ("thing_version", .num after.version)] ++
      c.sourceId.toList.map fun id => ("evidence_ref", .obj (Dict.ofFields
        [("source_kind", .str "FILE"), ("source_id", .str id.str)])))
  reason := c.reason
  idempotencyKey := c.idempotencyKey
  id := stamp.id
  createdAt := stamp.now

def event (c : SetDeadline) (thing : Thing) (m : StateMutation) (stamp : Stamp) : TimelineEvent where
  userId := c.userId
  thingId := thing.id
  eventType := if c.isPrimary then "DEADLINE_CHANGED" else "IMPORTANT_DATE_ADDED"
  title := "设置日期：" ++ c.kind.value
  occurredAt := stamp.now
  id := stamp.id
  mutationId := some m.id
  createdAt := stamp.now

def outcome (thing : Thing) (date : ThingDate) (m : StateMutation) : WriteOutcome where
  code := "DEADLINE_SET"
  message := "Deadline set."
  data := Dict.ofFields
    [("mutation_id", .str m.id.str), ("date_id", .str date.id.str),
      ("thing_version", .num thing.version), ("replayed", .bool false)]
  mutationRefs := [m.id.str]

end SetDeadline

/-- `apply_set_deadline` where no earlier mutation has its idempotency key. -/
def setNewDeadline (cal : Calendar) (c : SetDeadline) (value : Timestamp) (fresh : ℕ → Stamp)
    (db : Records) : Raises (Records × WriteOutcome) := do
  let thing ← orRaise (.entityNotFound "Thing was not found.")
    (ThingRepository.get c.userId c.thingId db.things)
  ensure (.versionConflict "Thing version is stale.") ((thing.version : ℤ) = c.expectedVersion)
  ensure (.entityNotFound "Source was not found.")
    (c.sourceId.all fun id => (SourceRepository.get c.userId id db.sources).isSome)
  let date := c.date thing value (fresh 0)
  let (thing', db) ← c.promote thing (fresh 0).now db
  let dates ← orRaise .integrityError (db.dates.insert? date)
  let m := c.mutation cal thing thing' date (fresh 1)
  let db ← { db with dates }.record m (c.event thing m (fresh 2))
  return (db, SetDeadline.outcome thing' date m)

/-- `apply_set_deadline`. -/
def applySetDeadline (cal : Calendar) (c : SetDeadline) (fresh : ℕ → Stamp) (db : Records) :
    Raises (Records × WriteOutcome) := do
  let value ← orRaise (.valueError "Deadline must include timezone information.") c.value.instant
  ensure (.valueError "Date timezone must not be empty.") (Text.strip c.timezoneName ≠ "")
  ensure (.valueError "Only a confirmed date can become the primary deadline.")
    (c.isPrimary = true → c.certainty = .confirmed)
  match AuditRepository.getMutation c.userId c.idempotencyKey db.mutations with
  | some previous =>
    let outcome ← replayDate "DEADLINE_SET" "Deadline set." "thing_version"
      "Stored deadline mutation is missing Thing version." previous
    return (db, outcome)
  | none => setNewDeadline cal c value fresh db

/-! ## Correcting a date -/

/-- The arguments of `apply_update_date`. -/
structure UpdateDate where
  userId : UUID
  dateId : UUID
  value : DateTime
  timezoneName : String
  precision : DatePrecision
  certainty : DateCertainty
  isPrimary : Bool
  expectedVersion : ℤ
  expectedThingVersion : ℤ
  actionId : String
  idempotencyKey : String
  reason : String
  deriving DecidableEq

namespace UpdateDate

/-- What the correction does to the Thing, and to the primary date before: nothing, where the date
neither is nor was primary. -/
def promote (c : UpdateDate) (thing : Thing) (date : ThingDate) (now : Timestamp) (db : Records) :
    Raises (Thing × Records) :=
  if c.isPrimary then do
    let dates := ThingDateRepository.unsetPrimary thing.id date.kind db.dates
    let thing ← thing.setPrimaryDeadline c.value now
    return (thing, { db with dates })
  else if date.isPrimary then return ({ thing with deadlineAt := none }.touch now, db)
  else return (thing, db)

/-- The Thing is written where the correction changed it. -/
def storeThing (c : UpdateDate) (thing : Thing) (db : Records) : Raises Records :=
  if (thing.version : ℤ) = c.expectedThingVersion then return db
  else do
    let (things, updated) := ThingRepository.update thing c.expectedThingVersion db.things
    ensure (.versionConflict "Thing was updated concurrently.") updated
    return { db with things }

/-- The state of a date in a mutation. -/
def dateState (value : String) (date : ThingDate) (thing : Thing) : Dict :=
  Dict.ofFields
    [("value", .str value), ("certainty", .str date.certainty.value),
      ("is_primary", .bool date.isPrimary), ("date_version", .num date.version),
      ("thing_version", .num thing.version)]

def mutation (cal : Calendar) (c : UpdateDate) (thing thing' : Thing) (date date' : ThingDate)
    (stamp : Stamp) : StateMutation where
  userId := c.userId
  thingId := some thing.id
  actionId := c.actionId
  mutationType := "DATE_UPDATED"
  targetType := "THING_DATE"
  targetId := date.id
  before := some (dateState (cal.isoformat (.utc date.value)) date thing)
  after := dateState (cal.isoformat c.value) date' thing'
  reason := c.reason
  idempotencyKey := c.idempotencyKey
  id := stamp.id
  createdAt := stamp.now

def event (c : UpdateDate) (thing : Thing) (date date' : ThingDate) (m : StateMutation)
    (stamp : Stamp) : TimelineEvent where
  userId := c.userId
  thingId := thing.id
  eventType := if c.isPrimary ∨ date.isPrimary then "DEADLINE_CHANGED" else "DATE_CHANGED"
  title := "更新日期：" ++ date.kind.value
  occurredAt := date'.updatedAt
  id := stamp.id
  mutationId := some m.id
  createdAt := stamp.now

def outcome (thing : Thing) (date : ThingDate) (m : StateMutation) : WriteOutcome where
  code := "DATE_UPDATED"
  message := "Date updated."
  data := Dict.ofFields
    [("mutation_id", .str m.id.str), ("date_id", .str date.id.str),
      ("date_version", .num date.version), ("thing_version", .num thing.version),
      ("replayed", .bool false)]
  mutationRefs := [m.id.str]

end UpdateDate

/-- `apply_update_date` where no earlier mutation has its idempotency key. -/
def updateStoredDate (cal : Calendar) (c : UpdateDate) (fresh : ℕ → Stamp) (db : Records) :
    Raises (Records × WriteOutcome) := do
  let date ← orRaise (.entityNotFound "ThingDate was not found.")
    (ThingDateRepository.get c.userId c.dateId db.things db.dates)
  ensure (.versionConflict "ThingDate version is stale.") ((date.version : ℤ) = c.expectedVersion)
  let thing ← orRaise (.entityNotFound "Thing was not found.")
    (ThingRepository.get c.userId date.thingId db.things)
  ensure (.versionConflict "Thing version is stale.")
    ((thing.version : ℤ) = c.expectedThingVersion)
  let date' ← date.revise c.value c.timezoneName c.precision c.certainty c.isPrimary (fresh 0).now
  let (thing', db) ← c.promote thing date (fresh 0).now db
  let db ← c.storeThing thing' db
  let (dates, updated) ← orRaise .integrityError
    (ThingDateRepository.update date' c.expectedVersion db.dates)
  ensure (.versionConflict "ThingDate was updated concurrently.") updated
  let m := c.mutation cal thing thing' date date' (fresh 1)
  let db ← { db with dates }.record m (c.event thing date date' m (fresh 2))
  return (db, UpdateDate.outcome thing' date' m)

/-- `apply_update_date`. -/
def applyUpdateDate (cal : Calendar) (c : UpdateDate) (fresh : ℕ → Stamp) (db : Records) :
    Raises (Records × WriteOutcome) :=
  match AuditRepository.getMutation c.userId c.idempotencyKey db.mutations with
  | some previous => do
    let outcome ← replayDate "DATE_UPDATED" "Date updated." "date_version"
      "Stored date mutation is missing target version." previous
    return (db, outcome)
  | none => updateStoredDate cal c fresh db

/-! ## Updating a Thing -/

/-- The arguments of `update_thing`. -/
structure UpdateThing where
  userId : UUID
  thingId : UUID
  expectedVersion : ℤ
  name : Option String := none
  status : Option ThingStatus := none
  currentStage : Option String := none
  updateCurrentStage : Bool := false
  actionId : String
  idempotencyKey : String
  reason : String
  runId : Option UUID := none
  deriving DecidableEq

namespace UpdateThing

/-- The state of a Thing in a mutation. -/
def thingState (thing : Thing) : Dict :=
  Dict.ofFields
    [("name", .str thing.name), ("status", .str thing.status.value),
      ("current_stage", Json.ofStr? thing.currentStage), ("version", .num thing.version)]

def mutation (c : UpdateThing) (thing thing' : Thing) (stamp : Stamp) : StateMutation where
  userId := c.userId
  thingId := some thing.id
  runId := c.runId
  actionId := c.actionId
  mutationType := "THING_UPDATED"
  targetType := "THING"
  targetId := thing.id
  before := some (thingState thing)
  after := thingState thing'
  reason := c.reason
  idempotencyKey := c.idempotencyKey
  id := stamp.id
  createdAt := stamp.now

def event (c : UpdateThing) (thing : Thing) (m : StateMutation) (stamp : Stamp) : TimelineEvent where
  userId := c.userId
  thingId := thing.id
  eventType := "THING_UPDATED"
  title := "更新事务：" ++ thing.name
  occurredAt := thing.updatedAt
  id := stamp.id
  mutationId := some m.id
  createdAt := stamp.now

end UpdateThing

/-- `update_thing`. -/
def updateThing (c : UpdateThing) (fresh : ℕ → Stamp) (db : Records) : Raises (Records × Thing) := do
  ensure (.valueError "At least one editable Thing field must be provided.")
    (c.name ≠ none ∨ c.status ≠ none ∨ c.updateCurrentStage)
  match AuditRepository.getMutation c.userId c.idempotencyKey db.mutations with
  | some _ =>
    let thing ← orRaise (.runtimeError "Idempotent Thing update points to a missing Thing.")
      (ThingRepository.get c.userId c.thingId db.things)
    return (db, thing)
  | none =>
    let thing ← orRaise (.entityNotFound "Thing was not found.")
      (ThingRepository.get c.userId c.thingId db.things)
    ensure (.versionConflict "Thing version is stale.") ((thing.version : ℤ) = c.expectedVersion)
    let thing' ← thing.revise c.name c.status c.currentStage c.updateCurrentStage (fresh 0).now
    let (things, updated) := ThingRepository.update thing' c.expectedVersion db.things
    ensure (.versionConflict "Thing was updated concurrently.") updated
    let m := c.mutation thing thing' (fresh 1)
    let db ← { db with things }.record m (c.event thing' m (fresh 2))
    return (db, thing')

end PersonalState

/-!
## What the date writes accept and leave

The checks that a date write makes on its arguments and on the tables, all at once, and what it leaves
of the dates and of the deadlines where it passes them.
-/

namespace PersonalState

open Runtime

/-- The deadline of a Thing. -/
def Records.deadline (db : Records) (thingId : UUID) : Option Timestamp :=
  (db.things.get fun r => r.id = thingId).bind Thing.deadlineAt

/-- The ids that a write takes for its mutation and its timeline event are new, and so is its
idempotency key. -/
def Records.Unrecorded (db : Records) (idempotencyKey : String) (fresh : ℕ → Stamp) : Prop :=
  (∀ m ∈ db.mutations, m.id ≠ (fresh 1).id ∧ m.idempotencyKey ≠ idempotencyKey) ∧
    ∀ e ∈ db.timeline, e.id ≠ (fresh 2).id

namespace SetDeadline

/-- What is checked of the arguments alone. -/
def Valid (c : SetDeadline) (value : Timestamp) : Prop :=
  c.value.instant = some value ∧ Text.strip c.timezoneName ≠ "" ∧
    (c.isPrimary = true → c.certainty = .confirmed)

/-- A new date is written for `thing`, at the point in time `value`. -/
structure Accepted (c : SetDeadline) (fresh : ℕ → Stamp) (db : Records) (thing : Thing)
    (value : Timestamp) : Prop where
  valid : c.Valid value
  unrecorded : db.Unrecorded c.idempotencyKey fresh
  newDate : ∀ r ∈ db.dates, r.id ≠ (fresh 0).id
  found : ThingRepository.get c.userId c.thingId db.things = some thing
  version : (thing.version : ℤ) = c.expectedVersion
  source : ∀ id, c.sourceId = some id → (SourceRepository.get c.userId id db.sources).isSome

/-- What a new date leaves. -/
structure Leaves (c : SetDeadline) (fresh : ℕ → Stamp) (db : Records) (thing : Thing)
    (value : Timestamp) (db' : Records) (outcome : WriteOutcome) : Prop where
  deadline : ∀ id, db'.deadline id =
    if c.isPrimary = true ∧ id = thing.id then some value else db.deadline id
  written : c.date thing value (fresh 0) ∈ db'.dates
  sources : db'.sources = db.sources
  dateId : outcome.data.get "date_id" = some (.str (fresh 0).id.str)

end SetDeadline

namespace UpdateDate

/-- What is checked of the arguments alone. -/
def Valid (c : UpdateDate) (value : Timestamp) : Prop :=
  c.value.instant = some value ∧ Text.strip c.timezoneName ≠ "" ∧
    (c.isPrimary = true → c.certainty = .confirmed)

/-- The stored `date` of `thing` is corrected, to the point in time `value`. -/
structure Accepted (c : UpdateDate) (fresh : ℕ → Stamp) (db : Records) (thing : Thing)
    (date : ThingDate) (value : Timestamp) : Prop where
  valid : c.Valid value
  unrecorded : db.Unrecorded c.idempotencyKey fresh
  foundDate : ThingDateRepository.get c.userId c.dateId db.things db.dates = some date
  version : (date.version : ℤ) = c.expectedVersion
  found : ThingRepository.get c.userId date.thingId db.things = some thing
  thingVersion : (thing.version : ℤ) = c.expectedThingVersion

/-- The deadline of the Thing of `date` after the correction: a date that neither is nor was primary
leaves it alone. -/
def newDeadline (c : UpdateDate) (date : ThingDate) (value : Timestamp) (old : Option Timestamp) :
    Option Timestamp :=
  if c.isPrimary then some value else if date.isPrimary then none else old

/-- The row of `date` after the correction. -/
def corrected (c : UpdateDate) (date : ThingDate) (value : Timestamp) (now : Timestamp) : ThingDate :=
  { date with
    value
    timezoneName := Text.strip c.timezoneName
    precision := c.precision
    certainty := c.certainty
    isPrimary := c.isPrimary
    updatedAt := now
    version := date.version + 1 }

/-- What a correction leaves. -/
structure Leaves (c : UpdateDate) (fresh : ℕ → Stamp) (db : Records) (thing : Thing)
    (date : ThingDate) (value : Timestamp) (db' : Records) (outcome : WriteOutcome) : Prop where
  deadline : ∀ id, db'.deadline id =
    if id = thing.id then c.newDeadline date value thing.deadlineAt else db.deadline id
  written : c.corrected date value (fresh 0).now ∈ db'.dates
  sources : db'.sources = db.sources
  dateId : outcome.data.get "date_id" = some (.str date.id.str)

end UpdateDate

end PersonalState
