import Laoshiren.PersonalState.Versions

/-!
# What mutations tell

A mutation tells what a row was before a write and what it is after it. When what it tells is true.
-/

namespace PersonalState

open Runtime

/-! ## The columns of a row in a mutation -/

/-- The dictionary tells of a row what its columns are; a key that is no column tells nothing of it. -/
def Tells (column : String → Json → Prop) (d : Dict) : Prop :=
  ∀ key v, d.get key = some v → column key v

def Thing.Column (cal : Calendar) (thing : Thing) (key : String) (v : Json) : Prop :=
  (key = "name" → v = .str thing.name) ∧ (key = "status" → v = .str thing.status.value) ∧
  (key = "current_stage" → v = Json.ofStr? thing.currentStage) ∧
  (key = "archived_at" → v = isoformat? cal thing.archivedAt) ∧
  (key = "deleted_at" → v = isoformat? cal thing.deletedAt) ∧
  (key = "merged_into_thing_id" → v = Json.ofStr? (thing.mergedIntoThingId.map UUID.str)) ∧
  (key = "version" → v = .num thing.version)

def Task.Column (cal : Calendar) (task : Task) (key : String) (v : Json) : Prop :=
  (key = "title" → v = .str task.title) ∧ (key = "status" → v = .str task.status.value) ∧
  (key = "due_at" → v = isoformat? cal task.dueAt) ∧
  (key = "recurrence_interval_days" →
    v = (task.recurrenceIntervalDays.map fun n => Json.num n).getD .null) ∧
  (key = "version" → v = .num task.version)

/-- The value is told as any text of the point in time. -/
def ThingDate.Column (cal : Calendar) (date : ThingDate) (key : String) (v : Json) : Prop :=
  (key = "value" → ∃ d : DateTime, d.instant = some date.value ∧ v = .str (cal.isoformat d)) ∧
  (key = "certainty" → v = .str date.certainty.value) ∧
  (key = "is_primary" → v = .bool date.isPrimary) ∧ (key = "date_version" → v = .num date.version)

def ThingContextEntry.Column (entry : ThingContextEntry) (key : String) (v : Json) : Prop :=
  (key = "label" → v = .str entry.label) ∧ (key = "content" → v = .str entry.content) ∧
  (key = "version" → v = .num entry.version)

def Blocker.Column (blocker : Blocker) (key : String) (v : Json) : Prop :=
  (key = "status" → v = .str blocker.status.value) ∧ (key = "version" → v = .num blocker.version)

/-! ## Kinds of rows -/

/-- A kind of rows that mutations are about. -/
structure Kind (α : Type) where
  targetType : String
  rows : Versioned α UUID α
  /-- The field that tells the version. -/
  versionField : String
  column : α → String → Json → Prop

def thingKind (cal : Calendar) : Kind Thing := ⟨"THING", thingVersions, "version", Thing.Column cal⟩

def taskKind (cal : Calendar) : Kind Task := ⟨"TASK", taskVersions, "version", Task.Column cal⟩

def dateKind (cal : Calendar) : Kind ThingDate :=
  ⟨"THING_DATE", dateVersions, "date_version", ThingDate.Column cal⟩

def entryKind : Kind ThingContextEntry :=
  ⟨"THING_CONTEXT_ENTRY", entryVersions, "version", ThingContextEntry.Column⟩

def blockerKind : Kind Blocker := ⟨"BLOCKER", blockerVersions, "version", Blocker.Column⟩

variable {α : Type} [Row α]

/-- The dictionary tells of the row, and tells its version. -/
structure Kind.Shows (k : Kind α) (r : α) (d : Dict) : Prop where
  tells : Tells (k.column r) d
  version : d.get k.versionField = some (.num (k.rows.version r))

/-- The mutation tells of a row that was created, in its first version. -/
structure Kind.Created (k : Kind α) (m : StateMutation) (t : Table α) (r' : α) : Prop where
  before : m.before = none
  new : ∀ r ∈ t, k.rows.key r ≠ m.targetId
  version : k.rows.version r' = 1

/-- The mutation tells what a row was, and its next version. -/
structure Kind.Changed (k : Kind α) (m : StateMutation) (t : Table α) (r' : α) : Prop where
  old : ∃ r ∈ t, k.rows.key r = m.targetId ∧ (∃ before, m.before = some before ∧ k.Shows r before) ∧
    k.rows.version r' = k.rows.version r + 1

/-- The mutation tells what became of a row of the table. -/
structure Kind.Told (k : Kind α) (m : StateMutation) (t t' : Table α) : Prop where
  targetType : m.targetType = k.targetType
  row : ∃ r' ∈ t', k.rows.key r' = m.targetId ∧ k.Shows r' m.after ∧
    (k.Created m t r' ∨ k.Changed m t r')

/-- The mutation tells what became of the row that it is about. -/
def StateMutation.Describes (m : StateMutation) (cal : Calendar) (s s' : State) : Prop :=
  (thingKind cal).Told m s.things s'.things ∨ (taskKind cal).Told m s.tasks s'.tasks ∨
    (dateKind cal).Told m s.dates s'.dates ∨
    entryKind.Told m s.contextEntries s'.contextEntries ∨
    blockerKind.Told m s.blockers s'.blockers

/-! ## Writes and their mutations -/

/-- The two states differ in the audit at most. -/
def SameRows (s s' : State) : Prop :=
  s' = { s with mutations := s'.mutations, timeline := s'.timeline }

/-- The write records one mutation that tells what it did; where it did nothing, it records nothing. -/
structure FaithfullyAudited (cal : Calendar) (s s' : State) : Prop where
  changes : ¬SameRows s s' → ∃ m, s.mutations.insert? m = some s'.mutations ∧ m.Describes cal s s'
  idle : SameRows s s' → s'.mutations = s.mutations ∧ s'.timeline = s.timeline

/-- The mutation of the write tells the version of the row that it is about. -/
def Op.TellsVersion : Op → Prop
  | .setDeadline _ _ => False
  | .linkToThing _ _ => False
  | .addRelation _ _ => False
  | .deleteFile _ _ => False
  | _ => True

/-- The write finds its target as it should become: a Thing in the archive or out of it, a Task that is
done. -/
def Op.Idle (op : Op) (s : State) : Prop :=
  match op with
  | .changeArchive c _ =>
    ∃ thing ∈ s.things, thing.id = c.thingId ∧ (c.archive = true ↔ thing.archivedAt ≠ none)
  | .completeTask c _ => ∃ task ∈ s.tasks, task.id = c.taskId ∧ task.status = .done
  | _ => False

/-- The row that the write read is the one that it replaces, in the columns that its mutation tells. The
mark of a primary date can be taken away without a new version. -/
def Op.ReadsCurrent (op : Op) (view : ℕ → State) (s : State) : Prop :=
  match op with
  | .updateDate c _ => ∀ date,
    ThingDateRepository.get c.userId c.dateId (view 1).things (view 1).dates = some date →
      ∀ r ∈ s.dates, r.id = date.id →
        r.value = date.value ∧ r.certainty = date.certainty ∧ r.isPrimary = date.isPrimary
  | .setThingContext c _ => ∀ entryId entry, c.entryId = some entryId →
    ContextEntryRepository.get c.userId entryId (view 2).things (view 2).contextEntries =
        some entry → ∀ r ∈ s.contextEntries, r.id = entry.id →
      r.label = entry.label ∧ r.content = entry.content
  | .resolveBlocker c _ => ∀ blocker,
    BlockerRepository.get c.userId c.blockerId (view 1).things (view 1).blockers = some blocker →
      ∀ r ∈ s.blockers, r.id = blocker.id → r.status = blocker.status
  | _ => True

end PersonalState
