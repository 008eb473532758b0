import Laoshiren.PersonalState.ContextRefresh
import Laoshiren.PersonalState.System

/-!
# What the Personal State answers

The reads of a user on the Personal State: lists of Things and of what belongs to them, the
overview, and the two descriptions of a Thing. A read runs several statements, and each of them sees
a state of its own.
-/

namespace PersonalState

open Raise Runtime

/-! ## Statements -/

/-- `list_standalone`. -/
def TaskRepository.listStandalone (userId : UUID) (t : Table Task) : List Task :=
  (t.select fun r => r.userId = userId ∧ r.thingId = none).insertionSort fun r r' =>
    toLex (r.createdAt, r.id.toNat) ≤ toLex (r'.createdAt, r'.id.toNat)

/-- The number that `count_open` finds for a Thing, 0 where it finds none. -/
def TaskRepository.countOpen (userId : UUID) (thingIds : List UUID) (thingId : UUID)
    (t : Table Task) : ℕ :=
  (t.select fun r => r.thingId = some thingId ∧ thingIds.contains thingId ∧ r.userId = userId ∧
    r.status = .todo).length

namespace AuditRepository

/-- `list_timeline`: the latest event comes first. -/
def listTimeline (userId thingId : UUID) (eventType : Option String) (limit : ℕ)
    (t : Table TimelineEvent) : List TimelineEvent :=
  ((t.select fun r => r.userId = userId ∧ r.thingId = thingId ∧
    eventType.all fun eventType => r.eventType = eventType).insertionSort fun r r' =>
      toLex (r'.occurredAt, r'.id.toNat) ≤ toLex (r.occurredAt, r.id.toNat)).take limit

/-- `list_mutations`: the latest mutation comes first. -/
def listMutations (userId thingId : UUID) (limit : ℕ) (t : Table StateMutation) :
    List StateMutation :=
  ((t.select fun r => r.userId = userId ∧ r.thingId = some thingId).insertionSort fun r r' =>
    toLex (r'.createdAt, r'.id.toNat) ≤ toLex (r.createdAt, r.id.toNat)).take limit

end AuditRepository

/-- `list_for_thing`: the relations that the Thing has to others. -/
def RelationRepository.listForThing (userId thingId : UUID) (things : Table Thing)
    (t : Table ThingRelation) : List ThingRelation :=
  (t.select fun r => r.fromThingId = thingId ∧ ofUser userId thingId things).insertionSort
    fun r r' => toLex (r.createdAt, r.toThingId.toNat) ≤ toLex (r'.createdAt, r'.toThingId.toNat)

/-! ## Lists -/

/-- The check of a list's limit. -/
def checkLimit (list : String) (limit : ℤ) : Raises Unit :=
  ensure (.valueError (list ++ " limit must be between 1 and 100.")) (1 ≤ limit ∧ limit ≤ 100)

/-- `get_things`: `ilike` is the `ILIKE` of the database. -/
def getThings (ilike : String → String → Bool) (userId : UUID) (status : Option ThingStatus)
    (query : Option String) (cursor : Option UUID) (limit : ℤ) (s : State) :
    Raises (List Thing) := do
  checkLimit "Thing list" limit
  let query := (query.filter fun query => query ≠ "").map Text.strip
  return ThingRepository.listForUser ilike userId status query cursor limit.toNat s.things

/-- A list of what belongs to a Thing, after a look at the Thing. -/
def listOfThing {α : Type} (userId thingId : UUID) (list : State → α) (view : ℕ → State) :
    Raises α := do
  let _ ← requireThing userId thingId (view 0)
  return list (view 1)

/-- `get_dates`. -/
def getDatesAt (userId thingId : UUID) (limit : ℤ) (view : ℕ → State) :
    Raises (List ThingDate) := do
  checkLimit "Date list" limit
  listOfThing userId thingId
    (fun s => ThingDateRepository.listForThing userId thingId limit.toNat s.things s.dates) view

/-- `get_context_entries`. -/
def getContextEntries (userId thingId : UUID) (view : ℕ → State) :
    Raises (List ThingContextEntry) :=
  listOfThing userId thingId
    (fun s => ContextEntryRepository.listForThing userId thingId s.things s.contextEntries) view

/-- `get_timeline`. -/
def getTimeline (userId thingId : UUID) (eventType : Option String) (limit : ℤ) (view : ℕ → State) :
    Raises (List TimelineEvent) := do
  checkLimit "Timeline" limit
  let eventType := (eventType.filter fun eventType => eventType ≠ "").map Text.strip
  listOfThing userId thingId
    (fun s => AuditRepository.listTimeline userId thingId eventType limit.toNat s.timeline) view

/-- `get_state_history`. -/
def getStateHistory (userId thingId : UUID) (limit : ℤ) (view : ℕ → State) :
    Raises (List StateMutation) := do
  checkLimit "State history" limit
  listOfThing userId thingId
    (fun s => AuditRepository.listMutations userId thingId limit.toNat s.mutations) view

/-- `get_blockers`. -/
def getBlockersAt (userId thingId : UUID) (view : ℕ → State) : Raises (List Blocker) :=
  listOfThing userId thingId
    (fun s => BlockerRepository.listForThing userId thingId s.things s.blockers) view

/-- `get_relations`. -/
def getRelations (userId thingId : UUID) (view : ℕ → State) : Raises (List ThingRelation) :=
  listOfThing userId thingId
    (fun s => RelationRepository.listForThing userId thingId s.things s.relations) view

/-! ## The overview -/

structure UpcomingThingDTO where
  thingId : UUID
  name : String
  deadlineAt : Timestamp
  openTaskCount : ℕ
  deriving DecidableEq

structure ActiveThingDTO where
  thingId : UUID
  name : String
  currentStage : Option String
  openTaskCount : ℕ
  deriving DecidableEq

structure BlockedThingDTO where
  thingId : UUID
  thingName : String
  description : String
  severity : BlockerSeverity
  deriving DecidableEq

structure RecentThingDTO where
  thingId : UUID
  name : String
  status : ThingStatus
  updatedAt : Timestamp
  deriving DecidableEq

structure StateOverviewDTO where
  upcoming : List UpcomingThingDTO
  blocked : List BlockedThingDTO
  active : List ActiveThingDTO
  recent : List RecentThingDTO
  deriving DecidableEq

/-- The limits of an overview. -/
structure OverviewLimits where
  upcomingDays : ℤ := 7
  upcomingLimit : ℤ := 8
  blockedLimit : ℤ := 5
  activeLimit : ℤ := 8
  recentLimit : ℤ := 5

/-- `get_state_overview`, at the time `now`. -/
def getStateOverview (userId : UUID) (now : Timestamp) (limits : OverviewLimits)
    (view : ℕ → State) : Raises StateOverviewDTO := do
  ensure (.valueError "State overview limits must be positive.")
    (0 < limits.upcomingDays ∧ 0 < limits.upcomingLimit ∧ 0 < limits.blockedLimit ∧
      0 < limits.activeLimit ∧ 0 < limits.recentLimit)
  let windowEnd := now + timedeltaDays limits.upcomingDays
  let upcoming := ThingRepository.listUpcoming userId now windowEnd limits.upcomingLimit.toNat
    (view 0).things
  let active := Memories.listActive userId limits.activeLimit.toNat (view 1).things
  let recent := ThingRepository.listRecent userId limits.recentLimit.toNat (view 2).things
  let blocked := BlockerRepository.listOpen userId limits.blockedLimit.toNat (view 3).things
    (view 3).blockers
  let counted := (upcoming ++ active).map Thing.id
  let openCount := fun thingId => TaskRepository.countOpen userId counted thingId (view 4).tasks
  return {
    upcoming := upcoming.filterMap fun thing => thing.deadlineAt.map fun deadlineAt =>
      { thingId := thing.id, name := thing.name, deadlineAt, openTaskCount := openCount thing.id }
    blocked := blocked.map fun (blocker, thingName) =>
      { thingId := blocker.thingId
        thingName
        description := blocker.description
        severity := blocker.severity }
    active := active.map fun thing =>
      { thingId := thing.id
        name := thing.name
        currentStage := thing.currentStage
        openTaskCount := openCount thing.id }
    recent := recent.map fun thing =>
      { thingId := thing.id
        name := thing.name
        status := thing.status
        updatedAt := thing.updatedAt } }

/-! ## The descriptions of a Thing -/

/-- `get_thing_context_snapshot`: the redirects are followed through `view 4`, `view 5` and so on.
-/
def getThingContextSnapshotAt (userId thingId : UUID) (view : ℕ → State) :
    Raises ThingContextSnapshot := do
  let thing ← resolveActiveThing userId thingId fun n => view (n + 4)
  return {
    requestedId := thingId
    thing
    tasks := TaskRepository.listForThing userId thing.id (view 0).tasks
    dates := ThingDateRepository.listForThing userId thing.id 100 (view 1).things (view 1).dates
    openBlockers := (BlockerRepository.listForThing userId thing.id (view 2).things
      (view 2).blockers).filter fun blocker => blocker.status = .open
    contextEntries := ContextEntryRepository.listForThing userId thing.id (view 3).things
      (view 3).contextEntries }

/-- `_build_thing_prefetch`. -/
def buildThingPrefetchAt (cal : Calendar) (userId thingId : UUID) (matchReason : String)
    (view : ℕ → State) : Raises Dict := do
  let thing ← getThing userId thingId (view 0)
  let resolvedId := thing.mergedIntoThingId.getD thing.id
  let tasks := TaskRepository.listForThing userId resolvedId (view 1).tasks
  let blockers ← getBlockersAt userId resolvedId fun n => view (n + 2)
  let dates ← getDatesAt userId resolvedId 100 fun n => view (n + 4)
  return thingPrefetchPayload cal thing (tasks.map Task.dto) (blockers.map Blocker.dto) dates
    matchReason

/-- `get_agent_thing_prefetch`. -/
def getAgentThingPrefetchAt (cal : Calendar) (ilike : String → String → Bool) (userId : UUID)
    (activeThingId : Option UUID) (query : String) (candidateLimit : ℤ) (view : ℕ → State) :
    Raises Dict := do
  ensure (.valueError "Thing prefetch candidate limit must be positive.") (0 < candidateLimit)
  match activeThingId with
  | some thingId => buildThingPrefetchAt cal userId thingId "active_thread" view
  | none =>
    let normalized := Text.strip query
    let searchQuery := thingSearchQueryFromInput normalized
    if normalized.length < 2 ∨ searchQuery.length < 2 then return Dict.ofFields []
    else
      let candidates ← getThings ilike userId none (some searchQuery) none candidateLimit (view 0)
      match candidates with
      | [] => return Dict.ofFields []
      | [candidate] =>
        buildThingPrefetchAt cal userId candidate.id "query_match" fun n => view (n + 1)
      | candidates => return ambiguousThingCandidates candidates

/-! ## Every read -/

/-- What a user asks for. -/
inductive Query where
  | thing (thingId : UUID)
  | things (status : Option ThingStatus) (query : Option String) (cursor : Option UUID) (limit : ℤ)
  | tasks (thingId : UUID)
  | standaloneTasks
  | dates (thingId : UUID) (limit : ℤ)
  | contextEntries (thingId : UUID)
  | timeline (thingId : UUID) (eventType : Option String) (limit : ℤ)
  | stateHistory (thingId : UUID) (limit : ℤ)
  | blockers (thingId : UUID)
  | relations (thingId : UUID)
  | overview (now : Timestamp) (limits : OverviewLimits)
  | snapshot (thingId : UUID)
  | prefetch (activeThingId : Option UUID) (query : String) (candidateLimit : ℤ)
  | candidates (now : Timestamp) (dueSoonHours : ℤ) (limit : ℕ) (feedback : Table AttentionFeedback)

inductive Answer where
  | thing (thing : Thing)
  | things (things : List Thing)
  | tasks (tasks : List Task)
  | dates (dates : List ThingDate)
  | contextEntries (entries : List ThingContextEntry)
  | timeline (events : List TimelineEvent)
  | stateHistory (mutations : List StateMutation)
  | blockers (blockers : List Blocker)
  | relations (relations : List ThingRelation)
  | overview (overview : StateOverviewDTO)
  | payload (payload : Dict)
  | candidates (candidates : List AttentionCandidate)

/-- What a user is answered, where the `n`-th statement of the read sees `view n`. -/
def Query.answer (cal : Calendar) (ilike : String → String → Bool) (userId : UUID)
    (view : ℕ → State) : Query → Raises Answer
  | .thing thingId => (getThing userId thingId (view 0)).map .thing
  | .things status query cursor limit =>
    (getThings ilike userId status query cursor limit (view 0)).map .things
  | .tasks thingId => .ok (.tasks (TaskRepository.listForThing userId thingId (view 0).tasks))
  | .standaloneTasks => .ok (.tasks (TaskRepository.listStandalone userId (view 0).tasks))
  | .dates thingId limit => (getDatesAt userId thingId limit view).map .dates
  | .contextEntries thingId => (getContextEntries userId thingId view).map .contextEntries
  | .timeline thingId eventType limit =>
    (getTimeline userId thingId eventType limit view).map .timeline
  | .stateHistory thingId limit => (getStateHistory userId thingId limit view).map .stateHistory
  | .blockers thingId => (getBlockersAt userId thingId view).map .blockers
  | .relations thingId => (getRelations userId thingId view).map .relations
  | .overview now limits => (getStateOverview userId now limits view).map .overview
  | .snapshot thingId =>
    (getThingContextSnapshotAt userId thingId view).map fun sn => .payload (sn.payload cal)
  | .prefetch activeThingId query candidateLimit =>
    (getAgentThingPrefetchAt cal ilike userId activeThingId query candidateLimit view).map .payload
  | .candidates now dueSoonHours limit feedback => .ok (.candidates
    (AttentionRepository.getCandidates userId now dueSoonHours limit feedback view))

end PersonalState
