import Laoshiren.Foundation.Json
import Laoshiren.Foundation.Text
import Laoshiren.Runtime.Store

/-!
# Personal State entities

The Things of a user with their dates, the Sources that a date can come from, and the audit of every
change.
-/

namespace PersonalState

open Raise Runtime

/-! ## Value objects -/

inductive ThingStatus where
  | active
  | completed
  | cancelled
  deriving DecidableEq, Repr

def ThingStatus.value : ThingStatus → String
  | .active => "ACTIVE"
  | .completed => "COMPLETED"
  | .cancelled => "CANCELLED"

inductive TaskStatus where
  | todo
  | done
  | cancelled
  deriving DecidableEq, Repr

def TaskStatus.value : TaskStatus → String
  | .todo => "TODO"
  | .done => "DONE"
  | .cancelled => "CANCELLED"

inductive BlockerSeverity where
  | low
  | medium
  | high
  | critical
  deriving DecidableEq, Repr

def BlockerSeverity.value : BlockerSeverity → String
  | .low => "LOW"
  | .medium => "MEDIUM"
  | .high => "HIGH"
  | .critical => "CRITICAL"

inductive DateCertainty where
  | confirmed
  | probable
  | unconfirmed
  | disputed
  deriving DecidableEq, Repr

def DateCertainty.value : DateCertainty → String
  | .confirmed => "CONFIRMED"
  | .probable => "PROBABLE"
  | .unconfirmed => "UNCONFIRMED"
  | .disputed => "DISPUTED"

/-- `DateCertainty(text)`: `none` where it raises `ValueError`. -/
def DateCertainty.ofText (text : String) : Option DateCertainty :=
  [DateCertainty.confirmed, .probable, .unconfirmed, .disputed].find? fun c => c.value = text

inductive DatePrecision where
  | dateTime
  | date
  | month
  deriving DecidableEq, Repr

def DatePrecision.value : DatePrecision → String
  | .dateTime => "DATE_TIME"
  | .date => "DATE"
  | .month => "MONTH"

/-- `DatePrecision(text)`: `none` where it raises `ValueError`. -/
def DatePrecision.ofText (text : String) : Option DatePrecision :=
  [DatePrecision.dateTime, .date, .month].find? fun p => p.value = text

inductive ThingDateType where
  | deadline
  | event
  | milestone
  deriving DecidableEq, Repr

def ThingDateType.value : ThingDateType → String
  | .deadline => "DEADLINE"
  | .event => "EVENT"
  | .milestone => "MILESTONE"

/-- `ThingDateType(text)`: `none` where it raises `ValueError`. -/
def ThingDateType.ofText (text : String) : Option ThingDateType :=
  [ThingDateType.deadline, .event, .milestone].find? fun k => k.value = text

/-! ## Points in time -/

/-- A `datetime`: its wall clock, and its offset from UTC where it has a time zone, in microseconds. -/
structure DateTime where
  wall : ℤ
  utcoffset : Option ℤ
  deriving DecidableEq

namespace DateTime

/-- The point in time of a `datetime` that has a time zone. -/
def instant (t : DateTime) : Option Timestamp := t.utcoffset.map fun offset => t.wall - offset

/-- A column with time zone as the database answers it. -/
def utc (t : Timestamp) : DateTime := ⟨t, some 0⟩

@[simp] theorem instant_utc (t : Timestamp) : (utc t).instant = some t := by
  simp [instant, utc]

end DateTime

/-- How texts are read as `datetime` and back. -/
structure Calendar where
  /-- `datetime.fromisoformat(text)`: `none` where it raises `ValueError`. -/
  fromisoformat : String → Option DateTime
  isoformat : DateTime → String

/-! ## Entities -/

structure Thing where
  userId : UUID
  name : String
  id : UUID
  status : ThingStatus := .active
  currentStage : Option String := none
  deadlineAt : Option Timestamp := none
  archivedAt : Option Timestamp := none
  deletedAt : Option Timestamp := none
  mergedIntoThingId : Option UUID := none
  version : ℕ := 1
  createdAt : Timestamp
  updatedAt : Timestamp
  deriving DecidableEq

namespace Thing

def touch (thing : Thing) (now : Timestamp) : Thing :=
  { thing with updatedAt := now, version := thing.version + 1 }

def setPrimaryDeadline (thing : Thing) (value : DateTime) (now : Timestamp) : Raises Thing := do
  let instant ← orRaise (.valueError "Deadline must include timezone information.") value.instant
  return { thing with deadlineAt := some instant }.touch now

/-- `Thing.revise`: the current stage is an update of its own, since `none` is one of its values. -/
def revise (thing : Thing) (name : Option String) (status : Option ThingStatus)
    (currentStage : Option String) (updateCurrentStage : Bool) (now : Timestamp) : Raises Thing := do
  ensure (.valueError "Thing name must not be empty.") (name.all fun text => Text.strip text ≠ "")
  let stage := (currentStage.filter fun text => text ≠ "").map Text.strip
  return { thing with
    name := (name.map Text.strip).getD thing.name
    status := status.getD thing.status
    currentStage := if updateCurrentStage then stage else thing.currentStage }.touch now

end Thing

structure ThingDate where
  thingId : UUID
  kind : ThingDateType
  value : Timestamp
  timezoneName : String
  precision : DatePrecision
  certainty : DateCertainty
  label : Option String := none
  id : UUID
  isPrimary : Bool := false
  sourceId : Option UUID := none
  version : ℕ := 1
  createdAt : Timestamp
  updatedAt : Timestamp
  deriving DecidableEq

/-- `ThingDate.revise`. -/
def ThingDate.revise (date : ThingDate) (value : DateTime) (timezoneName : String)
    (precision : DatePrecision) (certainty : DateCertainty) (isPrimary : Bool) (now : Timestamp) :
    Raises ThingDate := do
  let instant ← orRaise (.valueError "Date must include timezone information.") value.instant
  ensure (.valueError "Date timezone must not be empty.") (Text.strip timezoneName ≠ "")
  ensure (.valueError "Only a confirmed date can become primary.")
    (isPrimary = true → certainty = .confirmed)
  return { date with
    value := instant
    timezoneName := Text.strip timezoneName
    precision
    certainty
    isPrimary
    updatedAt := now
    version := date.version + 1 }

/-- A Source, as far as a date refers to it. -/
structure Source where
  userId : UUID
  id : UUID
  deletedAt : Option Timestamp := none
  deriving DecidableEq

structure StateMutation where
  userId : UUID
  thingId : Option UUID
  actionId : String
  mutationType : String
  targetType : String
  targetId : UUID
  after : Dict
  reason : String
  idempotencyKey : String
  id : UUID
  runId : Option UUID := none
  before : Option Dict := none
  sourceId : Option UUID := none
  createdAt : Timestamp
  deriving DecidableEq

structure TimelineEvent where
  userId : UUID
  thingId : UUID
  eventType : String
  title : String
  occurredAt : Timestamp
  id : UUID
  summary : Option String := none
  sourceId : Option UUID := none
  mutationId : Option UUID := none
  createdAt : Timestamp
  deriving DecidableEq

end PersonalState
