import Laoshiren.PersonalState.System

/-!
# Writes that are repeated

A write that finds a mutation under its idempotency key answers from it. What it needs for an
answer, and what its answer tells of the write that recorded the mutation.
-/

namespace PersonalState

open Raise Runtime

/-- The same call once more, at another time. -/
def Op.again (fresh : ℕ → Stamp) : Op → Op
  | .createThing c _ => .createThing c fresh
  | .updateThing c _ => .updateThing c fresh
  | .changeArchive c _ => .changeArchive c fresh
  | .deleteThing c _ => .deleteThing c fresh
  | .mergeThings c _ => .mergeThings c fresh
  | .setDeadline c _ => .setDeadline c fresh
  | .updateDate c _ => .updateDate c fresh
  | .createTask c _ => .createTask c fresh
  | .transitionTask c _ => .transitionTask c fresh
  | .completeTask c _ => .completeTask c fresh
  | .createBlocker c _ => .createBlocker c fresh
  | .resolveBlocker c _ => .resolveBlocker c fresh
  | .setThingContext c _ => .setThingContext c fresh
  | .linkToThing c _ => .linkToThing c fresh
  | .addRelation c _ => .addRelation c fresh
  | .deleteFile c _ => .deleteFile c fresh
  | op => op

/-! ## What an answer tells -/

def Reply.Succeeds : Reply → Prop
  | .raised _ => False
  | _ => True

/-- The field of the data of an answer that holds the id of the row that the write is about. -/
def Op.targetField : Op → String
  | .changeArchive _ _ => "thing_id"
  | .deleteThing _ _ => "thing_id"
  | .mergeThings _ _ => "duplicate_thing_id"
  | .setDeadline _ _ => "date_id"
  | .updateDate _ _ => "date_id"
  | .transitionTask _ _ => "task_id"
  | .completeTask _ _ => "task_id"
  | .resolveBlocker _ _ => "blocker_id"
  | .setThingContext _ _ => "entry_id"
  | .deleteFile _ _ => "file_id"
  | _ => "id"

/-- The id of the row that an answer is about. -/
def Op.targetOf (op : Op) : Reply → Option Json
  | .outcome answer => answer.data.get op.targetField
  | .thing thing => some (.str thing.id.str)
  | _ => none

/-- The ids of the mutations that an answer names. -/
def Reply.mutationRefs : Reply → Option (List String)
  | .outcome answer => some answer.mutationRefs
  | _ => none

/-- The answer says that it is one to an earlier write. -/
def Reply.Replayed : Reply → Prop
  | .outcome answer => answer.data.get "replayed" = some (.bool true)
  | _ => False

/-- The second answer tells what the first one told, and that it is a replay. -/
structure Op.Repeats (op : Op) (first again : Reply) : Prop where
  target : op.targetOf again = op.targetOf first
  mutation : again.mutationRefs = first.mutationRefs
  replayed : again.Replayed

/-- The write answers with an outcome, and not with a Thing or a flag. -/
def Op.AnswersOutcome : Op → Prop
  | .updateThing _ _ => False
  | .linkToThing _ _ => False
  | .addRelation _ _ => False
  | _ => True

/-- The row that an answer from the mutation names: the deletion of a file names the file of the
call. -/
def Op.target (op : Op) (m : StateMutation) : UUID :=
  match op with
  | .deleteFile c _ => c.sourceId
  | _ => m.targetId

/-- The answer names the mutation and its target. -/
structure Op.Names (op : Op) (m : StateMutation) (reply : Reply) : Prop where
  target : op.targetOf reply = some (.str (op.target m).str)
  mutation : reply.mutationRefs = some [m.id.str]

/-! ## What an answer is made of -/

/-- The arguments pass the checks that a write makes before it looks for a mutation. -/
def Op.Valid : Op → Prop
  | .createThing c _ => Text.strip c.name ≠ ""
  | .updateThing c _ => c.name ≠ none ∨ c.status ≠ none ∨ c.updateCurrentStage = true
  | .mergeThings c _ => c.canonicalThingId ≠ c.duplicateThingId
  | .setDeadline c _ => ∃ value, c.Valid value
  | .createTask c _ => Text.strip c.title ≠ "" ∧
    c.recurrenceIntervalDays.all (fun n => 0 < n ∧ c.dueAt ≠ none) = true
  | .createBlocker c _ => Text.strip c.description ≠ ""
  | .setThingContext c _ => Text.strip c.label ≠ "" ∧ Text.strip c.content ≠ ""
  | .linkToThing c _ => 0 ≤ c.relevance ∧ c.relevance ≤ 1
  | _ => True

/-- The field of the recorded state that a write needs for its answer: a version number. -/
def Op.versionField : Op → Option String
  | .deleteThing _ _ => some "version"
  | .mergeThings _ _ => some "version"
  | .setDeadline _ _ => some "thing_version"
  | .updateDate _ _ => some "date_version"
  | .transitionTask _ _ => some "version"
  | .completeTask _ _ => some "version"
  | .resolveBlocker _ _ => some "version"
  | .setThingContext _ _ => some "version"
  | _ => none

/-- The mutation records the version number. -/
def StateMutation.Tells (m : StateMutation) (field : String) : Prop :=
  ∃ version, m.after.get field = some version ∧ isInt version = true

/-- The row that the write reads for its answer is there: `view 1` is what its statement saw. -/
def Op.Visible (op : Op) (view : ℕ → State) (targetId : UUID) : Prop :=
  match op with
  | .createThing c _ => (ThingRepository.get c.userId targetId (view 1).things).isSome
  | .updateThing c _ => (ThingRepository.get c.userId c.thingId (view 1).things).isSome
  | .createTask c _ => (TaskRepository.get c.userId targetId (view 1).tasks).isSome
  | .createBlocker c _ =>
    (BlockerRepository.get c.userId targetId (view 1).things (view 1).blockers).isSome
  | .deleteFile c _ =>
    (SourceRepository.getIncludingDeleted c.userId c.sourceId (view 1).sources).isSome
  | _ => True

/-- The write can be answered from the mutation. -/
structure Op.Answerable (op : Op) (view : ℕ → State) (m : StateMutation) : Prop where
  valid : op.Valid
  tells : ∀ field, op.versionField = some field → m.Tells field
  visible : op.Visible view m.targetId

/-- A repeated write is answered like the first one: the row that it created can still be read,
where its answer is read from that row. -/
def Op.RepeatsWell (op : Op) (view : ℕ → State) : Prop :=
  match op with
  | .createThing c _ => ∃ previous,
    AuditRepository.getMutation c.userId c.idempotencyKey (view 0).mutations = some previous ∧
      (ThingRepository.get c.userId previous.targetId (view 1).things).isSome
  | .createBlocker c _ => ∃ previous,
    AuditRepository.getMutation c.userId c.idempotencyKey (view 0).mutations = some previous ∧
      (BlockerRepository.get c.userId previous.targetId (view 1).things (view 1).blockers).isSome
  | op => op.AnswersOutcome

end PersonalState
