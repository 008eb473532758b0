import Laoshiren.Foundation.Json
import Laoshiren.Foundation.Redirects
import Laoshiren.PersonalState.Holdings
import Laoshiren.PersonalState.Writes

/-!
# Creating, archiving, deleting and merging Things

Each write is a transaction: its `n`-th reading statement saw `view n`, and it writes to the state that
it commits on. A Thing that was merged stays as a tombstone that redirects to its canonical Thing.
-/

namespace PersonalState

open Raise Runtime

/-! ## Things -/

namespace ThingRepository

/-- `get_including_deleted`. -/
def getIncludingDeleted (userId thingId : UUID) (t : Table Thing) : Option Thing :=
  t.get fun r => r.id = thingId ∧ r.userId = userId

end ThingRepository

namespace Thing

def archive (thing : Thing) (now : Timestamp) : Thing :=
  if thing.archivedAt = none then
    { thing with archivedAt := some now, updatedAt := now, version := thing.version + 1 }
  else thing

def unarchive (thing : Thing) (now : Timestamp) : Thing :=
  if thing.archivedAt = none then thing
  else { thing with archivedAt := none, updatedAt := now, version := thing.version + 1 }

/-- `Thing.merge_into`. -/
def mergeInto (thing : Thing) (canonicalThingId : UUID) (now : Timestamp) : Raises Thing := do
  ensure (.valueError "A Thing cannot merge into itself.") (canonicalThingId ≠ thing.id)
  ensure (.invalidStateTransition "A merged Thing cannot be merged again.")
    (thing.mergedIntoThingId = none)
  return { thing with
    mergedIntoThingId := some canonicalThingId
    updatedAt := now
    version := thing.version + 1 }

/-- `Thing.delete`. -/
def delete (thing : Thing) (now : Timestamp) : Raises Thing :=
  if thing.deletedAt = none then do
    ensure (.invalidStateTransition "A merged Thing cannot be deleted directly.")
      (thing.mergedIntoThingId = none)
    return { thing with deletedAt := some now, updatedAt := now, version := thing.version + 1 }
  else return thing

end Thing

/-- `thing.archived_at.isoformat() if thing.archived_at else None`. -/
def isoformat? (cal : Calendar) (t : Option Timestamp) : Json :=
  Json.ofStr? (t.map fun t => cal.isoformat (.utc t))

/-- The answer of a write from its earlier mutation: `target` is the field of the id that it reports. -/
def replayVersion (code message target error : String) (previous : StateMutation) :
    Raises WriteOutcome := do
  let version ← orRaise (.runtimeError error) ((previous.after.get "version").filter isInt)
  return {
    code
    message
    data := Dict.ofFields
      [("mutation_id", .str previous.id.str), (target, .str previous.targetId.str),
        ("version", version), ("replayed", .bool true)]
    mutationRefs := [previous.id.str] }

/-- A write on a state, where it writes to the tables of `Records` alone. -/
def State.setRecords (s : State) (r : Raises Records) : Raises State := do
  let db ← r
  return { s with toRecords := db }

/-! ## Creating a Thing -/

/-- The arguments of `apply_create_thing`. -/
structure CreateThing where
  userId : UUID
  name : String
  actionId : String
  idempotencyKey : String
  reason : String
  runId : Option UUID := none
  deriving DecidableEq

namespace CreateThing

def thing (c : CreateThing) (stamp : Stamp) : Thing where
  userId := c.userId
  name := Text.strip c.name
  id := stamp.id
  createdAt := stamp.now
  updatedAt := stamp.now

def mutation (c : CreateThing) (thing : Thing) (stamp : Stamp) : StateMutation where
  userId := c.userId
  thingId := some thing.id
  runId := c.runId
  actionId := c.actionId
  mutationType := "THING_CREATED"
  targetType := "THING"
  targetId := thing.id
  after := Dict.ofFields
    [("name", .str thing.name), ("status", .str thing.status.value), ("version", .num thing.version)]
  reason := c.reason
  idempotencyKey := c.idempotencyKey
  id := stamp.id
  createdAt := stamp.now

def event (c : CreateThing) (thing : Thing) (m : StateMutation) (stamp : Stamp) : TimelineEvent where
  userId := c.userId
  thingId := thing.id
  eventType := "THING_CREATED"
  title := "创建事务：" ++ thing.name
  occurredAt := thing.createdAt
  id := stamp.id
  mutationId := some m.id
  createdAt := stamp.now

def outcome (thing : Thing) (mutationId : UUID) (replayed : Bool) : WriteOutcome where
  code := "THING_CREATED"
  message := "Thing created."
  data := Dict.ofFields
    [("id", .str thing.id.str), ("version", .num thing.version), ("replayed", .bool replayed)]
  mutationRefs := [mutationId.str]

end CreateThing

/-- `apply_create_thing`. -/
def applyCreateThing (c : CreateThing) (fresh : ℕ → Stamp) (view : ℕ → State) (s : State) :
    Raises (State × WriteOutcome) := do
  ensure (.valueError "Thing name must not be empty.") (Text.strip c.name ≠ "")
  match AuditRepository.getMutation c.userId c.idempotencyKey (view 0).mutations with
  | some previous =>
    let thing ← orRaise (.runtimeError "Idempotent Thing creation points to a missing Thing.")
      (ThingRepository.get c.userId previous.targetId (view 1).things)
    return (s, CreateThing.outcome thing previous.id true)
  | none =>
    let thing := c.thing (fresh 0)
    let things ← orRaise .integrityError (s.things.insert? thing)
    let m := c.mutation thing (fresh 1)
    let s ← s.setRecords <| { s.toRecords with things }.record m (c.event thing m (fresh 2))
    return (s, CreateThing.outcome thing m.id false)

/-! ## Archiving a Thing, and taking it out of the archive -/

/-- The arguments of `apply_change_archive`. -/
structure ChangeArchive where
  userId : UUID
  thingId : UUID
  expectedVersion : ℤ
  actionId : String
  idempotencyKey : String
  reason : String
  runId : Option UUID := none
  archive : Bool
  deriving DecidableEq

namespace ChangeArchive

def code (c : ChangeArchive) : String := if c.archive then "THING_ARCHIVED" else "THING_RESTORED"

/-- The name of the mutation and of the timeline event. -/
def mutationType (c : ChangeArchive) : String :=
  if c.archive then "THING_ARCHIVED" else "THING_UNARCHIVED"

def mutation (cal : Calendar) (c : ChangeArchive) (thing thing' : Thing) (stamp : Stamp) :
    StateMutation where
  userId := c.userId
  thingId := some thing.id
  runId := c.runId
  actionId := c.actionId
  mutationType := c.mutationType
  targetType := "THING"
  targetId := thing.id
  before := some (Dict.ofFields
    [("archived_at", isoformat? cal thing.archivedAt), ("version", .num thing.version)])
  after := Dict.ofFields
    [("archived_at", isoformat? cal thing'.archivedAt), ("version", .num thing'.version)]
  reason := c.reason
  idempotencyKey := c.idempotencyKey
  id := stamp.id
  createdAt := stamp.now

def event (c : ChangeArchive) (thing : Thing) (m : StateMutation) (stamp : Stamp) :
    TimelineEvent where
  userId := c.userId
  thingId := thing.id
  eventType := c.mutationType
  title := (if c.archive then "归档事务：" else "恢复事务：") ++ thing.name
  occurredAt := thing.updatedAt
  id := stamp.id
  mutationId := some m.id
  createdAt := stamp.now

def outcome (c : ChangeArchive) (thing : Thing) (m : StateMutation) : WriteOutcome where
  code := c.code
  message := if c.archive then "Thing archived." else "Thing restored."
  data := Dict.ofFields
    [("mutation_id", .str m.id.str), ("thing_id", .str thing.id.str),
      ("version", .num thing.version), ("replayed", .bool false)]
  mutationRefs := [m.id.str]

/-- The version that `_replay_from_mutation` finds. -/
def replayedVersion (previous : StateMutation) : Json :=
  (((previous.after.get "version").filter isInt).or
    ((previous.after.get "date_version").filter isInt)).getD
      ((previous.after.get "thing_version").getD (.num 1))

/-- The answer from the earlier mutation. -/
def replay (c : ChangeArchive) (previous : StateMutation) : WriteOutcome where
  code := c.code
  message := "Mutation replayed."
  data := Dict.ofFields
    [("mutation_id", .str previous.id.str), ("thing_id", .str previous.targetId.str),
      ("version", replayedVersion previous), ("replayed", .bool true)]
  mutationRefs := [previous.id.str]

end ChangeArchive

/-- `apply_change_archive`. -/
def applyChangeArchive (cal : Calendar) (c : ChangeArchive) (fresh : ℕ → Stamp) (view : ℕ → State)
    (s : State) : Raises (State × WriteOutcome) :=
  match AuditRepository.getMutation c.userId c.idempotencyKey (view 0).mutations with
  | some previous => return (s, c.replay previous)
  | none => do
    let thing ← orRaise (.entityNotFound "Thing was not found.")
      (ThingRepository.get c.userId c.thingId (view 1).things)
    ensure (.versionConflict "Thing version is stale.") ((thing.version : ℤ) = c.expectedVersion)
    let thing' := if c.archive then thing.archive (fresh 0).now else thing.unarchive (fresh 0).now
    let (things, updated) := ThingRepository.update thing' c.expectedVersion s.things
    ensure (.versionConflict "Thing was updated concurrently.") updated
    let m := c.mutation cal thing thing' (fresh 1)
    let s ← s.setRecords <| { s.toRecords with things }.record m (c.event thing' m (fresh 2))
    return (s, c.outcome thing' m)

/-! ## Deleting a Thing -/

/-- The arguments of `apply_delete_thing`. -/
structure DeleteThing where
  userId : UUID
  thingId : UUID
  expectedVersion : ℤ
  actionId : String
  idempotencyKey : String
  reason : String
  runId : Option UUID := none
  deriving DecidableEq

namespace DeleteThing

def mutation (cal : Calendar) (c : DeleteThing) (thing thing' : Thing) (stamp : Stamp) :
    StateMutation where
  userId := c.userId
  thingId := some thing.id
  runId := c.runId
  actionId := c.actionId
  mutationType := "THING_DELETED"
  targetType := "THING"
  targetId := thing.id
  before := some (Dict.ofFields [("deleted_at", .null), ("version", .num thing.version)])
  after := Dict.ofFields
    [("deleted_at", isoformat? cal thing'.deletedAt), ("version", .num thing'.version)]
  reason := c.reason
  idempotencyKey := c.idempotencyKey
  id := stamp.id
  createdAt := stamp.now

def event (c : DeleteThing) (thing : Thing) (m : StateMutation) (stamp : Stamp) : TimelineEvent where
  userId := c.userId
  thingId := thing.id
  eventType := "THING_DELETED"
  title := "删除事务：" ++ thing.name
  occurredAt := thing.updatedAt
  id := stamp.id
  mutationId := some m.id
  createdAt := stamp.now

def outcome (thing : Thing) (m : StateMutation) : WriteOutcome where
  code := "THING_DELETED"
  message := "Thing deleted."
  data := Dict.ofFields
    [("mutation_id", .str m.id.str), ("thing_id", .str thing.id.str),
      ("version", .num thing.version), ("replayed", .bool false)]
  mutationRefs := [m.id.str]

end DeleteThing

/-- `detach_tasks` and `delete_owned_components`: `view n` is what the `n`-th of their statements saw. -/
def deleteOwnedComponents (thingId : UUID) (view : ℕ → State) (s : State) : State :=
  { s with
    tasks := s.tasks.update
      (Table.foundIn Task.id (view 0).tasks fun r => r.thingId = some thingId)
      (fun r => { r with thingId := none }) fun _ _ _ h => h
    contextEntries := s.contextEntries.delete <|
      Table.foundIn ThingContextEntry.id (view 1).contextEntries fun r => r.thingId = thingId
    dates := s.dates.delete <| Table.foundIn ThingDate.id (view 2).dates fun r => r.thingId = thingId
    blockers := s.blockers.delete <|
      Table.foundIn Blocker.id (view 3).blockers fun r => r.thingId = thingId
    thingSources := s.thingSources.delete <|
      Table.foundIn (fun r => (r.thingId, r.sourceId)) (view 4).thingSources fun r =>
        r.thingId = thingId
    relations := s.relations.delete <|
      Table.foundIn (fun r => (r.fromThingId, r.toThingId, r.relationType)) (view 5).relations
        fun r => r.fromThingId = thingId ∨ r.toThingId = thingId }

/-- `apply_delete_thing`. -/
def applyDeleteThing (cal : Calendar) (c : DeleteThing) (fresh : ℕ → Stamp) (view : ℕ → State)
    (s : State) : Raises (State × WriteOutcome) :=
  match AuditRepository.getMutation c.userId c.idempotencyKey (view 0).mutations with
  | some previous => do
    let outcome ← replayVersion "THING_DELETED" "Thing deleted." "thing_id"
      "Stored delete mutation is missing its target version." previous
    return (s, outcome)
  | none => do
    let thing ← orRaise (.entityNotFound "Thing was not found.")
      (ThingRepository.getIncludingDeleted c.userId c.thingId (view 1).things)
    ensure (.entityNotFound "Thing was not found.") (thing.deletedAt = none)
    ensure (.versionConflict "Thing version is stale.") ((thing.version : ℤ) = c.expectedVersion)
    let s := deleteOwnedComponents thing.id (fun n => view (n + 2)) s
    let thing' ← thing.delete (fresh 0).now
    let (things, updated) := ThingRepository.update thing' c.expectedVersion s.things
    ensure (.versionConflict "Thing was updated concurrently.") updated
    let m := c.mutation cal thing thing' (fresh 1)
    let s ← s.setRecords <| { s.toRecords with things }.record m (c.event thing' m (fresh 2))
    return (s, DeleteThing.outcome thing' m)

/-! ## Merging two Things -/

/-- The arguments of `apply_merge_things`. -/
structure MergeThings where
  userId : UUID
  canonicalThingId : UUID
  duplicateThingId : UUID
  expectedCanonicalVersion : ℤ
  expectedDuplicateVersion : ℤ
  actionId : String
  idempotencyKey : String
  reason : String
  runId : Option UUID := none
  deriving DecidableEq

namespace MergeThings

def mutation (c : MergeThings) (canonical duplicate : Thing) (stamp : Stamp) : StateMutation where
  userId := c.userId
  thingId := some duplicate.id
  runId := c.runId
  actionId := c.actionId
  mutationType := "THING_MERGED"
  targetType := "THING"
  targetId := duplicate.id
  before := some (Dict.ofFields
    [("merged_into_thing_id", .null), ("version", .num c.expectedDuplicateVersion)])
  after := Dict.ofFields
    [("merged_into_thing_id", .str canonical.id.str), ("canonical_thing_id", .str canonical.id.str),
      ("version", .num duplicate.version)]
  reason := c.reason
  idempotencyKey := c.idempotencyKey
  id := stamp.id
  createdAt := stamp.now

def event (c : MergeThings) (canonical duplicate : Thing) (m : StateMutation) (stamp : Stamp) :
    TimelineEvent where
  userId := c.userId
  thingId := canonical.id
  eventType := "THING_MERGED"
  title := "Merged duplicate Thing: " ++ duplicate.name
  occurredAt := duplicate.updatedAt
  id := stamp.id
  mutationId := some m.id
  createdAt := stamp.now

def outcome (canonical duplicate : Thing) (m : StateMutation) : WriteOutcome where
  code := "THING_MERGED"
  message := "Things merged."
  data := Dict.ofFields
    [("mutation_id", .str m.id.str), ("duplicate_thing_id", .str duplicate.id.str),
      ("canonical_thing_id", .str canonical.id.str), ("version", .num duplicate.version),
      ("replayed", .bool false)]
  mutationRefs := [m.id.str]

/-- The answer from the earlier mutation. -/
def replay (py : Builtins) (previous : StateMutation) : Raises WriteOutcome := do
  let version ← orRaise (.runtimeError "Stored merge mutation is missing target version.")
    ((previous.after.get "version").filter isInt)
  return {
    code := "THING_MERGED"
    message := "Things merged."
    data := Dict.ofFields
      [("mutation_id", .str previous.id.str), ("duplicate_thing_id", .str previous.targetId.str),
        ("canonical_thing_id",
          .str (((previous.after.get "canonical_thing_id").map py.str).getD "")),
        ("version", version), ("replayed", .bool true)]
    mutationRefs := [previous.id.str] }

end MergeThings

/-- `insert(ThingSourceORM).from_select(…)`: the links of the duplicate that the statement `found`, as
links of the canonical Thing. -/
def copySources (canonicalThingId : UUID) (found : List ThingSource) (t : Table ThingSource) :
    Table ThingSource :=
  found.foldl (fun t r => t.insertOrIgnore { r with thingId := canonicalThingId }) t

/-- `rebind_merged_references`: `view n` is what the `n`-th of its statements saw. -/
def rebindMergedReferences (duplicateThingId canonicalThingId : UUID) (view : ℕ → State) (s : State) :
    Raises State := do
  let dates ← orRaise .integrityError <| s.dates.update?
    (Table.foundIn ThingDate.id (view 1).dates fun r => r.thingId = duplicateThingId)
    fun r => { r with thingId := canonicalThingId }
  return { s with
    tasks := s.tasks.update
      (Table.foundIn Task.id (view 0).tasks fun r => r.thingId = some duplicateThingId)
      (fun r => { r with thingId := some canonicalThingId }) fun _ _ _ h => h
    dates
    blockers := s.blockers.update
      (Table.foundIn Blocker.id (view 2).blockers fun r => r.thingId = duplicateThingId)
      (fun r => { r with thingId := canonicalThingId }) fun _ _ _ h => h
    contextEntries := s.contextEntries.update
      (Table.foundIn ThingContextEntry.id (view 3).contextEntries fun r =>
        r.thingId = duplicateThingId)
      (fun r => { r with thingId := canonicalThingId }) fun _ _ _ h => h
    automations := s.automations.update
      (Table.foundIn Automation.id (view 4).automations fun r => r.thingId = some duplicateThingId)
      (fun r => { r with thingId := some canonicalThingId }) fun _ _ _ h => h
    notifications := s.notifications.update
      (Table.foundIn NotificationIntent.id (view 5).notifications fun r =>
        r.thingId = some duplicateThingId)
      (fun r => { r with thingId := some canonicalThingId }) fun _ _ _ h => h
    memories := s.memories.update
      (Table.foundIn Memory.id (view 6).memories fun r => r.thingId = some duplicateThingId)
      (fun r => { r with thingId := some canonicalThingId }) fun _ _ _ h => h
    threads := s.threads.update
      (Table.foundIn Thread.id (view 7).threads fun r => r.activeThingId = some duplicateThingId)
      (fun r => { r with activeThingId := some canonicalThingId }) fun _ _ _ h => h
    thingSources := (copySources canonicalThingId
      ((view 8).thingSources.select fun r => r.thingId = duplicateThingId) s.thingSources).delete
        (Table.foundIn (fun r => (r.thingId, r.sourceId)) (view 9).thingSources fun r =>
          r.thingId = duplicateThingId) }

/-- `apply_merge_things`. -/
def applyMergeThings (py : Builtins) (c : MergeThings) (fresh : ℕ → Stamp) (view : ℕ → State)
    (s : State) : Raises (State × WriteOutcome) := do
  ensure (.valueError "Canonical and duplicate Thing IDs must differ.")
    (c.canonicalThingId ≠ c.duplicateThingId)
  match AuditRepository.getMutation c.userId c.idempotencyKey (view 0).mutations with
  | some previous =>
    let outcome ← MergeThings.replay py previous
    return (s, outcome)
  | none =>
    let notFound : RuntimeError := .entityNotFound "Canonical or duplicate Thing was not found."
    let canonical ← orRaise notFound (ThingRepository.get c.userId c.canonicalThingId (view 1).things)
    let duplicate ← orRaise notFound (ThingRepository.get c.userId c.duplicateThingId (view 2).things)
    ensure (.versionConflict "Canonical Thing version is stale.")
      ((canonical.version : ℤ) = c.expectedCanonicalVersion)
    ensure (.versionConflict "Duplicate Thing version is stale.")
      ((duplicate.version : ℤ) = c.expectedDuplicateVersion)
    let duplicate' ← duplicate.mergeInto canonical.id (fresh 0).now
    let (things, updated) :=
      ThingRepository.update duplicate' c.expectedDuplicateVersion s.things
    ensure (.versionConflict "Duplicate Thing was updated concurrently.") updated
    let s ← rebindMergedReferences duplicate.id canonical.id (fun n => view (n + 3)) { s with things }
    let m := c.mutation canonical duplicate' (fresh 1)
    let s ← s.setRecords <| s.record m (c.event canonical duplicate' m (fresh 2))
    return (s, MergeThings.outcome canonical duplicate' m)

/-! ## Following the redirects of merged Things -/

/-- The loop of `_resolve_active_thing` from its `n`-th read on: it has `seen` some Things and is at
`currentId`. -/
def resolveFrom (userId : UUID) (view : ℕ → State) (n : ℕ) (seen : Finset UUID) (currentId : UUID) :
    Raises Thing :=
  if _h : currentId ∈ seen then .error (.runtimeError "Thing merge redirect cycle detected.")
  else
    match ThingRepository.getIncludingDeleted userId currentId (view n).things with
    | none => .error (.entityNotFound "Thing was not found.")
    | some thing =>
      if thing.deletedAt = none then
        match thing.mergedIntoThingId with
        | none => .ok thing
        | some next => resolveFrom userId view (n + 1) (insert currentId seen) next
      else .error (.entityNotFound "Thing was not found.")
termination_by 2 ^ 128 - seen.card
decreasing_by exact Redirects.card_insert_lt _h

/-- `_resolve_active_thing`. -/
def resolveActiveThing (userId thingId : UUID) (view : ℕ → State) : Raises Thing :=
  resolveFrom userId view 0 ∅ thingId

end PersonalState
