import Mathlib.Data.List.Sort
import Mathlib.Data.Prod.Lex
import Laoshiren.PersonalState.Entities
import Laoshiren.PersonalState.ThingWrites

/-!
# The two descriptions of a Thing

A model sees a Thing twice: in full, as the snapshot that a tool reads, and in a few lines, as the
prefetch that comes with its input. Each of them finds the Thing and what belongs to it by itself.
-/

/-!
## The prefetched Thing

What the graph of a Run gets to see of the Thing that its input is about.
-/

namespace PersonalState

open Runtime

/-- A Task, as far as it is prefetched. -/
structure TaskDTO where
  id : UUID
  title : String
  status : TaskStatus
  version : ℕ
  deriving DecidableEq

/-- A Blocker, as far as it is prefetched. -/
structure BlockerDTO where
  id : UUID
  description : String
  severity : BlockerSeverity
  version : ℕ
  deriving DecidableEq

def thingPayload (cal : Calendar) (thing : Thing) : Json :=
  .obj (Dict.ofFields
    [("id", .str thing.id.str), ("name", .str thing.name), ("status", .str thing.status.value),
      ("current_stage", Json.ofStr? thing.currentStage),
      ("deadline_at", Json.ofStr? (thing.deadlineAt.map fun t => cal.isoformat (.utc t))),
      ("version", .num thing.version)])

def taskPayload (task : TaskDTO) : Json :=
  .obj (Dict.ofFields
    [("id", .str task.id.str), ("title", .str task.title), ("status", .str task.status.value),
      ("version", .num task.version)])

def blockerPayload (blocker : BlockerDTO) : Json :=
  .obj (Dict.ofFields
    [("id", .str blocker.id.str), ("description", .str blocker.description),
      ("severity", .str blocker.severity.value), ("version", .num blocker.version)])

def datePayload (cal : Calendar) (date : ThingDate) : Json :=
  .obj (Dict.ofFields
    [("id", .str date.id.str), ("kind", .str date.kind.value),
      ("value", .str (cal.isoformat (.utc date.value))), ("certainty", .str date.certainty.value),
      ("version", .num date.version)])

/-- `thing_prefetch_payload`. -/
def thingPrefetchPayload (cal : Calendar) (thing : Thing) (tasks : List TaskDTO)
    (blockers : List BlockerDTO) (dates : List ThingDate) (matchReason : String) : Dict :=
  let openTasks := tasks.filter fun task => task.status ≠ .done ∧ task.status ≠ .cancelled
  let primaryDates := (dates.filter ThingDate.isPrimary).take 3
  Dict.ofFields
    [("match_status", .str "resolved"), ("match_reason", .str matchReason),
      ("thing", thingPayload cal thing),
      ("open_tasks", .arr ((openTasks.take 12).map taskPayload)),
      ("blockers", .arr ((blockers.take 6).map blockerPayload)),
      ("primary_dates", .arr (primaryDates.map (datePayload cal)))]

end PersonalState

/-! ## The two descriptions of a Thing -/

namespace PersonalState

open Raise Runtime

/-! ## What belongs to a Thing -/

/-- The Thing of the row is one of the user: `things` is the table that is joined. -/
def ofUser (userId thingId : UUID) (things : Table Thing) : Bool :=
  things.rows.any fun thing => thing.id = thingId ∧ thing.userId = userId

def TaskRepository.listForThing (userId thingId : UUID) (t : Table Task) : List Task :=
  (t.select fun r => r.thingId = some thingId ∧ r.userId = userId).insertionSort fun r r' =>
    toLex (r.createdAt, r.id.toNat) ≤ toLex (r'.createdAt, r'.id.toNat)

def ThingDateRepository.listForThing (userId thingId : UUID) (limit : ℕ) (things : Table Thing)
    (t : Table ThingDate) : List ThingDate :=
  ((t.select fun r => r.thingId = thingId ∧ ofUser userId thingId things).insertionSort fun r r' =>
    toLex (r.value, r.id.toNat) ≤ toLex (r'.value, r'.id.toNat)).take limit

/-- The latest Blocker comes first. -/
def BlockerRepository.listForThing (userId thingId : UUID) (things : Table Thing)
    (t : Table Blocker) : List Blocker :=
  (t.select fun r => r.thingId = thingId ∧ ofUser userId thingId things).insertionSort fun r r' =>
    toLex (r'.createdAt, r'.id.toNat) ≤ toLex (r.createdAt, r.id.toNat)

/-- The entry that was changed last comes first. -/
def ContextEntryRepository.listForThing (userId thingId : UUID) (things : Table Thing)
    (t : Table ThingContextEntry) : List ThingContextEntry :=
  (t.select fun r => r.thingId = thingId ∧ ofUser userId thingId things).insertionSort fun r r' =>
    toLex (r'.updatedAt, r'.id.toNat) ≤ toLex (r.updatedAt, r.id.toNat)

/-! ## The snapshot -/

structure ThingContextSnapshot where
  requestedId : UUID
  thing : Thing
  contextEntries : List ThingContextEntry
  tasks : List Task
  dates : List ThingDate
  openBlockers : List Blocker

def Task.dto (task : Task) : TaskDTO := ⟨task.id, task.title, task.status, task.version⟩

def Blocker.dto (blocker : Blocker) : BlockerDTO :=
  ⟨blocker.id, blocker.description, blocker.severity, blocker.version⟩

def contextEntryPayload (entry : ThingContextEntry) : Json :=
  .obj (Dict.ofFields
    [("id", .str entry.id.str), ("label", .str entry.label), ("content", .str entry.content),
      ("version", .num entry.version)])

/-- A date of the snapshot, with its mark. -/
def markedDatePayload (cal : Calendar) (date : ThingDate) : Json :=
  .obj (Dict.ofFields
    [("id", .str date.id.str), ("kind", .str date.kind.value),
      ("value", .str (cal.isoformat (.utc date.value))), ("certainty", .str date.certainty.value),
      ("is_primary", .bool date.isPrimary), ("version", .num date.version)])

def ThingContextSnapshot.payload (cal : Calendar) (sn : ThingContextSnapshot) : Dict :=
  let redirect :=
    if sn.thing.id = sn.requestedId then []
    else [("requested_thing_id", Json.str sn.requestedId.str),
      ("resolved_thing_id", Json.str sn.thing.id.str)]
  Dict.ofFields
    ([("thing", thingPayload cal sn.thing),
      ("context_entries", .arr (sn.contextEntries.map contextEntryPayload)),
      ("tasks", .arr (sn.tasks.map fun task => taskPayload task.dto)),
      ("dates", .arr (sn.dates.map (markedDatePayload cal))),
      ("open_blockers", .arr (sn.openBlockers.map fun blocker => blockerPayload blocker.dto))] ++
      redirect)

/-- `get_thing_context_snapshot`, with all its reads in one state. -/
def getThingContextSnapshot (userId thingId : UUID) (s : State) : Raises ThingContextSnapshot := do
  let thing ← resolveActiveThing userId thingId fun _ => s
  return {
    requestedId := thingId
    thing
    tasks := TaskRepository.listForThing userId thing.id s.tasks
    dates := ThingDateRepository.listForThing userId thing.id 100 s.things s.dates
    openBlockers := (BlockerRepository.listForThing userId thing.id s.things s.blockers).filter
      fun blocker => blocker.status = .open
    contextEntries := ContextEntryRepository.listForThing userId thing.id s.things s.contextEntries }

/-! ## The prefetch -/

def getThing (userId thingId : UUID) (s : State) : Raises Thing :=
  match ThingRepository.getIncludingDeleted userId thingId s.things with
  | none => .error (.entityNotFound "Thing was not found.")
  | some thing =>
    if thing.deletedAt = none then .ok thing else .error (.entityNotFound "Thing was not found.")

/-- The check of `get_blockers` and `get_dates`. -/
def requireThing (userId thingId : UUID) (s : State) : Raises Thing :=
  orRaise (.entityNotFound "Thing was not found.") (ThingRepository.get userId thingId s.things)

def getBlockers (userId thingId : UUID) (s : State) : Raises (List Blocker) := do
  let _ ← requireThing userId thingId s
  return BlockerRepository.listForThing userId thingId s.things s.blockers

def getDates (userId thingId : UUID) (s : State) : Raises (List ThingDate) := do
  let _ ← requireThing userId thingId s
  return ThingDateRepository.listForThing userId thingId 100 s.things s.dates

/-- `_build_thing_prefetch`, with all its reads in one state. -/
def buildThingPrefetch (cal : Calendar) (userId thingId : UUID) (matchReason : String) (s : State) :
    Raises Dict := do
  let thing ← getThing userId thingId s
  let resolvedId := thing.mergedIntoThingId.getD thing.id
  let tasks := TaskRepository.listForThing userId resolvedId s.tasks
  let blockers ← getBlockers userId resolvedId s
  let dates ← getDates userId resolvedId s
  return thingPrefetchPayload cal thing (tasks.map Task.dto) (blockers.map Blocker.dto) dates
    matchReason

/-! ## Agreement -/

/-- A field of the described Thing. -/
def thingField (payload : Dict) (key : String) : Option Json :=
  ((payload.get "thing").bind Json.asDict?).bind fun thing => Dict.get thing key

/-- A Task that the prefetch shows. -/
def Task.isOpen (task : Task) : Bool := task.status ≠ .done ∧ task.status ≠ .cancelled

/-- The prefetch describes the Thing of the snapshot, and what is open there and primary, up to its
limits. -/
structure Describes (cal : Calendar) (payload : Dict) (sn : ThingContextSnapshot) : Prop where
  thing : ∀ key ∈ ["id", "version", "deadline_at"],
    thingField payload key = thingField (sn.payload cal) key
  openTasks : payload.get "open_tasks" =
    some (.arr (((sn.tasks.filter Task.isOpen).take 12).map fun task => taskPayload task.dto))
  blockers : payload.get "blockers" =
    some (.arr ((sn.openBlockers.take 6).map fun blocker => blockerPayload blocker.dto))
  primaryDates : payload.get "primary_dates" =
    some (.arr (((sn.dates.filter ThingDate.isPrimary).take 3).map (datePayload cal)))

/-- The prefetch of a Thing agrees with its snapshot: both find no Thing, or both describe the same
one. -/
def PrefetchAgrees (cal : Calendar) (userId thingId : UUID) (matchReason : String) (s : State) :
    Prop :=
  match buildThingPrefetch cal userId thingId matchReason s, getThingContextSnapshot userId thingId s with
  | .ok payload, .ok sn => Describes cal payload sn
  | .error error, .error error' => error = error'
  | .ok _, .error _ | .error _, .ok _ => False

/-- The Thing is not merged, and its six latest Blockers are open. -/
def PlainThing (userId : UUID) (thing : Thing) (s : State) : Prop :=
  thing.mergedIntoThingId = none ∧
    ∀ blocker ∈ (BlockerRepository.listForThing userId thing.id s.things s.blockers).take 6,
      blocker.status = .open

/-- The Thing is merged into one that is not there. -/
def LostThing (userId : UUID) (thing : Thing) (s : State) : Prop :=
  ∃ canonicalId ∈ thing.mergedIntoThingId, ThingRepository.get userId canonicalId s.things = none

end PersonalState
