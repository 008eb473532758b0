import Laoshiren.Foundation.Versioned
import Laoshiren.PersonalState.System

/-!
# The versions of the Personal State

Things, Tasks, dates, context entries and Blockers carry a version number. Which rows a transaction reads
to write them, and what it is for a transaction to lose the race for one.
-/

namespace PersonalState

open Raise Runtime

/-! ## Versioned rows -/

def thingVersions : Versioned Thing UUID Thing := ⟨Thing.id, Thing.version, fun r => r⟩

/-- A Task can be moved to another Thing without a new version. -/
def taskVersions : Versioned Task UUID Task :=
  ⟨Task.id, Task.version, fun r => { r with thingId := none }⟩

/-- A date can be moved to another Thing, and another date can become primary in its place, without a
new version. -/
def dateVersions : Versioned ThingDate UUID ThingDate :=
  ⟨ThingDate.id, ThingDate.version, fun r => { r with thingId := 0, isPrimary := false }⟩

def entryVersions : Versioned ThingContextEntry UUID ThingContextEntry :=
  ⟨ThingContextEntry.id, ThingContextEntry.version, fun r => { r with thingId := 0 }⟩

def blockerVersions : Versioned Blocker UUID Blocker :=
  ⟨Blocker.id, Blocker.version, fun r => { r with thingId := 0 }⟩

/-! ## What a transaction computes its writes from -/

/-- The version of a Thing that the transaction expects. -/
def Op.expectedThing (op : Op) (thing : Thing) : Prop :=
  match op with
  | .updateThing c _ => c.thingId = thing.id ∧ c.expectedVersion = thing.version
  | .changeArchive c _ => c.thingId = thing.id ∧ c.expectedVersion = thing.version
  | .deleteThing c _ => c.thingId = thing.id ∧ c.expectedVersion = thing.version
  | .mergeThings c _ =>
    c.duplicateThingId = thing.id ∧ c.expectedDuplicateVersion = thing.version
  | .setDeadline c _ => c.thingId = thing.id ∧ c.expectedVersion = thing.version
  | .updateDate c _ => c.expectedThingVersion = thing.version
  | _ => False

/-- The transaction read the Thing, at the version that it expects. -/
def Op.ReadsThing (op : Op) (view : ℕ → State) (thing : Thing) : Prop :=
  op.expectedThing thing ∧ ∃ n, thing ∈ (view n).things

/-- The transaction read this version of the Task, and expects it. -/
def Op.ReadsTask (op : Op) (view : ℕ → State) (task : Task) : Prop :=
  (match op with
    | .transitionTask c _ => c.taskId = task.id ∧ c.expectedVersion = task.version
    | .completeTask c _ => c.taskId = task.id ∧ c.expectedVersion = task.version
    | _ => False) ∧
    ∃ n, ∃ r ∈ (view n).tasks, r.id = task.id ∧ taskVersions.Same r task

/-- The transaction read this version of the date, and expects it. -/
def Op.ReadsDate (op : Op) (view : ℕ → State) (date : ThingDate) : Prop :=
  (match op with
    | .updateDate c _ => c.dateId = date.id ∧ c.expectedVersion = date.version
    | _ => False) ∧
    ∃ n, ∃ r ∈ (view n).dates, r.id = date.id ∧ r.version = date.version

/-- The transaction read this version of the context entry, and expects it. -/
def Op.ReadsEntry (op : Op) (view : ℕ → State) (entry : ThingContextEntry) : Prop :=
  (match op with
    | .setThingContext c _ =>
      c.entryId = some entry.id ∧ c.expectedVersion = some (entry.version : ℤ)
    | _ => False) ∧
    ∃ n, ∃ r ∈ (view n).contextEntries, r.id = entry.id ∧ r.version = entry.version

/-- The transaction read this version of the Blocker, and expects it. -/
def Op.ReadsBlocker (op : Op) (view : ℕ → State) (blocker : Blocker) : Prop :=
  (match op with
    | .resolveBlocker c _ => c.blockerId = blocker.id ∧ c.expectedVersion = blocker.version
    | _ => False) ∧
    ∃ n, ∃ r ∈ (view n).blockers, r.id = blocker.id ∧ r.version = blocker.version

/-- The writes of a transaction on versioned rows: each was computed from the version that it replaces,
and is the next one. -/
structure Op.ExtendsChains (op : Op) (view : ℕ → State) (s s' : State) : Prop where
  things : thingVersions.Chain (op.ReadsThing view) s.things s'.things
  tasks : taskVersions.Chain (op.ReadsTask view) s.tasks s'.tasks
  dates : dateVersions.Chain (op.ReadsDate view) s.dates s'.dates
  contextEntries : entryVersions.Chain (op.ReadsEntry view) s.contextEntries s'.contextEntries
  blockers : blockerVersions.Chain (op.ReadsBlocker view) s.blockers s'.blockers

/-! ## Losing a race -/

/-- No row of the Thing has the version any more. -/
def State.LostThing (s : State) (thing : Thing) : Prop :=
  ∀ r ∈ s.things, ¬(r.id = thing.id ∧ r.version = thing.version)

def State.LostTask (s : State) (task : Task) : Prop :=
  ∀ r ∈ s.tasks, ¬(r.id = task.id ∧ r.version = task.version)

def State.LostDate (s : State) (date : ThingDate) : Prop :=
  ∀ r ∈ s.dates, ¬(r.id = date.id ∧ r.version = date.version)

def State.LostEntry (s : State) (entry : ThingContextEntry) : Prop :=
  ∀ r ∈ s.contextEntries, ¬(r.id = entry.id ∧ r.version = entry.version)

def State.LostBlocker (s : State) (blocker : Blocker) : Prop :=
  ∀ r ∈ s.blockers, ¬(r.id = blocker.id ∧ r.version = blocker.version)

/-- A transaction loses the race for a row: it read another version of the row than it expects, or it
read that version and would write the next one, and the row does not have that version any more. -/
def Op.Loses (op : Op) (view : ℕ → State) (s : State) : Prop :=
  (∀ userId key, op.request = some (userId, key) →
    AuditRepository.getMutation userId key (view 0).mutations = none) ∧
  match op with
  | .updateThing c fresh => (c.name ≠ none ∨ c.status ≠ none ∨ c.updateCurrentStage = true) ∧
    ∃ thing, ThingRepository.get c.userId c.thingId (view 1).things = some thing ∧
      ((thing.version : ℤ) ≠ c.expectedVersion ∨ s.LostThing thing ∧
        ∃ thing', thing.revise c.name c.status c.currentStage c.updateCurrentStage (fresh 0).now =
          .ok thing')
  | .changeArchive c _ =>
    ∃ thing, ThingRepository.get c.userId c.thingId (view 1).things = some thing ∧
      ((thing.version : ℤ) ≠ c.expectedVersion ∨ s.LostThing thing)
  | .deleteThing c _ =>
    ∃ thing, ThingRepository.get c.userId c.thingId (view 1).things = some thing ∧
      ((thing.version : ℤ) ≠ c.expectedVersion ∨
        s.LostThing thing ∧ thing.mergedIntoThingId = none)
  | .mergeThings c _ => c.canonicalThingId ≠ c.duplicateThingId ∧
    ∃ canonical duplicate,
      ThingRepository.get c.userId c.canonicalThingId (view 1).things = some canonical ∧
      ThingRepository.get c.userId c.duplicateThingId (view 2).things = some duplicate ∧
      ((canonical.version : ℤ) ≠ c.expectedCanonicalVersion ∨
        (duplicate.version : ℤ) ≠ c.expectedDuplicateVersion ∨
        s.LostThing duplicate ∧ duplicate.mergedIntoThingId = none)
  | .setDeadline c _ => (∃ value, c.Valid value) ∧
    ∃ thing, ThingRepository.get c.userId c.thingId (view 1).things = some thing ∧
      ((thing.version : ℤ) ≠ c.expectedVersion ∨ c.isPrimary = true ∧ s.LostThing thing ∧
        c.sourceId.all (fun id => (SourceRepository.get c.userId id (view 2).sources).isSome))
  | .updateDate c _ =>
    ∃ date, ThingDateRepository.get c.userId c.dateId (view 1).things (view 1).dates = some date ∧
      ((date.version : ℤ) ≠ c.expectedVersion ∨
        ∃ thing, ThingRepository.get c.userId date.thingId (view 2).things = some thing ∧
          ((thing.version : ℤ) ≠ c.expectedThingVersion ∨ (∃ value, c.Valid value) ∧
            ((c.isPrimary = true ∨ date.isPrimary = true) ∧ s.LostThing thing ∨ s.LostDate date)))
  | .transitionTask c fresh =>
    ∃ task, TaskRepository.get c.userId c.taskId (view 1).tasks = some task ∧
      ((task.version : ℤ) ≠ c.expectedVersion ∨ s.LostTask task ∧ c.targetStatus ≠ task.status ∧
        ∃ task', task.transitionTo c.targetStatus (fresh 0).now = .ok task')
  | .completeTask c fresh =>
    ∃ task, TaskRepository.get c.userId c.taskId (view 1).tasks = some task ∧
      ((task.version : ℤ) ≠ c.expectedVersion ∨ s.LostTask task ∧
        ∃ task', task.complete (fresh 0).now = .ok task')
  | .resolveBlocker c _ =>
    ∃ blocker, BlockerRepository.get c.userId c.blockerId (view 1).things (view 1).blockers =
        some blocker ∧
      ((blocker.version : ℤ) ≠ c.expectedVersion ∨
        s.LostBlocker blocker ∧ blocker.status = .open)
  | .setThingContext c _ => (Text.strip c.label ≠ "" ∧ Text.strip c.content ≠ "") ∧
    (ThingRepository.get c.userId c.thingId (view 1).things).isSome = true ∧
    ∃ entryId entry version, c.entryId = some entryId ∧ c.expectedVersion = some version ∧
      ContextEntryRepository.get c.userId entryId (view 2).things (view 2).contextEntries =
        some entry ∧ entry.thingId = c.thingId ∧
      ((entry.version : ℤ) ≠ version ∨ s.LostEntry entry)
  | _ => False

end PersonalState
