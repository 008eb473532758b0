import Laoshiren.Foundation.ReadCommitted
import Laoshiren.PersonalState.Coherence
import Laoshiren.PersonalState.TaskWrites
import Laoshiren.PersonalState.Writes

/-!
# The Personal State as a database program

Every write on the Personal State, by a user or by a Run. The program interleaves them in every way.
-/

namespace PersonalState

open Raise Runtime

/-- A change of the rows of a table that leaves alone which row it is (`key`) and what it belongs to
(`owner`). -/
structure Rewrite (α : Type) [Row α] {κ β : Type} (key : α → κ) (owner : α → β) where
  change : α → α
  keeps : Table.Keeps (fun _ => true) change
  key_eq : ∀ r, key (change r) = key r
  owner_eq : ∀ r, owner (change r) = owner r

/-- The table rewritten. -/
def Rewrite.apply {α κ β : Type} [Row α] {key : α → κ} {owner : α → β} (w : Rewrite α key owner)
    (t : Table α) : Table α :=
  t.update (fun _ => true) w.change w.keeps

/-- The change that changes nothing. -/
def Rewrite.id {α κ β : Type} [Row α] {key : α → κ} {owner : α → β} : Rewrite α key owner :=
  ⟨fun r => r, fun _ _ _ h => h, fun _ => rfl, fun _ => rfl⟩

/-- A write that records no mutation and neither touches a Thing or a date nor moves a row to another
Thing: an Automation paused, a Memory forgotten, a Thread archived. -/
structure Upkeep where
  automations : Rewrite Automation Automation.id Automation.thingId := .id
  memories : Rewrite Memory Memory.id Memory.thingId := .id
  threads : Rewrite Thread Thread.id (fun r => (r.userId, r.activeThingId)) := .id

def Upkeep.apply (w : Upkeep) (s : State) : State :=
  { s with
    automations := w.automations.apply s.automations
    memories := w.memories.apply s.memories
    threads := w.threads.apply s.threads }

/-- A Source is captured. -/
def addSource (source : Source) (s : State) : Raises (State × Unit) := do
  let sources ← orRaise .integrityError (s.sources.insert? source)
  return ({ s with sources }, ())

/-- A transaction with its arguments and with what it takes from the clock and from `uuid4()`. -/
inductive Op where
  | createThing (c : CreateThing) (fresh : ℕ → Stamp)
  | updateThing (c : UpdateThing) (fresh : ℕ → Stamp)
  | changeArchive (c : ChangeArchive) (fresh : ℕ → Stamp)
  | deleteThing (c : DeleteThing) (fresh : ℕ → Stamp)
  | mergeThings (c : MergeThings) (fresh : ℕ → Stamp)
  | setDeadline (c : SetDeadline) (fresh : ℕ → Stamp)
  | updateDate (c : UpdateDate) (fresh : ℕ → Stamp)
  | createTask (c : CreateTask) (fresh : ℕ → Stamp)
  | transitionTask (c : TransitionTask) (fresh : ℕ → Stamp)
  | completeTask (c : CompleteTask) (fresh : ℕ → Stamp)
  | createBlocker (c : CreateBlocker) (fresh : ℕ → Stamp)
  | resolveBlocker (c : ResolveBlocker) (fresh : ℕ → Stamp)
  | setThingContext (c : SetThingContext) (fresh : ℕ → Stamp)
  | linkToThing (c : LinkToThing) (fresh : ℕ → Stamp)
  | addRelation (c : AddRelation) (fresh : ℕ → Stamp)
  | deleteFile (c : DeleteFile) (fresh : ℕ → Stamp)
  | createAutomation (c : CreateAutomation) (stamp : Stamp)
  | createMemory (c : CreateMemory) (stamp : Stamp)
  | createThread (userId : UUID) (title idempotencyKey : String) (activeThingId : Option UUID)
      (stamp : Stamp)
  | automationThread (c : CreateAutomationRun) (stamp : Stamp)
  | addSource (source : Source)
  | upkeep (w : Upkeep)

/-- What a transaction answers. -/
inductive Reply where
  | raised (error : RuntimeError)
  | done
  | outcome (outcome : WriteOutcome)
  | thing (thing : Thing)
  | created (created : Bool)
  | thread (thread : Thread)
  | threadId (id : UUID)
  deriving DecidableEq

/-- A transaction that raises is rolled back. -/
def settled {α : Type} (s : State) (reply : α → Reply) : Raises (State × α) → State × Reply
  | .ok (s', a) => (s', reply a)
  | .error error => (s, .raised error)

/-- A transaction on the tables of `Records`. -/
def State.onRecords {α : Type} (s : State) (result : Raises (Records × α)) : Raises (State × α) := do
  let (db, a) ← result
  return ({ s with toRecords := db }, a)

/-- What a transaction makes of the committed state, and its answer. -/
def commit (py : Builtins) (cal : Calendar) (op : Op) (view : ℕ → State) (s : State) :
    State × Reply :=
  match op with
  | .createThing c fresh => settled s .outcome (applyCreateThing c fresh view s)
  | .updateThing c fresh => settled s .thing <|
    s.onRecords (updateThingAt c fresh (fun n => (view n).toRecords) s.toRecords)
  | .changeArchive c fresh => settled s .outcome (applyChangeArchive cal c fresh view s)
  | .deleteThing c fresh => settled s .outcome (applyDeleteThing cal c fresh view s)
  | .mergeThings c fresh => settled s .outcome (applyMergeThings py c fresh view s)
  | .setDeadline c fresh => settled s .outcome <|
    s.onRecords (applySetDeadlineAt cal c fresh (fun n => (view n).toRecords) s.toRecords)
  | .updateDate c fresh => settled s .outcome <|
    s.onRecords (applyUpdateDateAt cal c fresh (fun n => (view n).toRecords) s.toRecords)
  | .createTask c fresh => settled s .outcome (applyCreateTask cal c fresh view s)
  | .transitionTask c fresh => settled s .outcome (applyTransitionTask c fresh view s)
  | .completeTask c fresh => settled s .outcome (applyCompleteTask cal c fresh view s)
  | .createBlocker c fresh => settled s .outcome (applyCreateBlocker c fresh view s)
  | .resolveBlocker c fresh => settled s .outcome (applyResolveBlocker c fresh view s)
  | .setThingContext c fresh => settled s .outcome (applySetThingContext c fresh view s)
  | .linkToThing c fresh => settled s .created (linkToThing c fresh view s)
  | .addRelation c fresh => settled s .created (addRelation c fresh view s)
  | .deleteFile c fresh => settled s .outcome (applyDeleteFile cal c fresh view s)
  | .createAutomation c stamp => settled s .outcome (applyCreateAutomation c stamp view s)
  | .createMemory c stamp => settled s .outcome (applyCreateMemory c stamp view s)
  | .createThread userId title key activeThingId stamp =>
    settled s .thread (applyCreateThread userId title key activeThingId stamp view s)
  | .automationThread c stamp => settled s .threadId (applyAutomationThread c stamp view s)
  | .addSource source => settled s (fun _ => .done) (addSource source s)
  | .upkeep w => (w.apply s, .done)

/-- The Personal State: it starts with empty tables. -/
def system (py : Builtins) (cal : Calendar) : Program State Op Reply where
  init s := s = {}
  commit := commit py cal

/-! ## Conditions on a transaction -/

/-- The user and the idempotency key of a write that records a mutation. -/
def Op.request : Op → Option (UUID × String)
  | .createThing c _ => some (c.userId, c.idempotencyKey)
  | .updateThing c _ => some (c.userId, c.idempotencyKey)
  | .changeArchive c _ => some (c.userId, c.idempotencyKey)
  | .deleteThing c _ => some (c.userId, c.idempotencyKey)
  | .mergeThings c _ => some (c.userId, c.idempotencyKey)
  | .setDeadline c _ => some (c.userId, c.idempotencyKey)
  | .updateDate c _ => some (c.userId, c.idempotencyKey)
  | .createTask c _ => some (c.userId, c.idempotencyKey)
  | .transitionTask c _ => some (c.userId, c.idempotencyKey)
  | .completeTask c _ => some (c.userId, c.idempotencyKey)
  | .createBlocker c _ => some (c.userId, c.idempotencyKey)
  | .resolveBlocker c _ => some (c.userId, c.idempotencyKey)
  | .setThingContext c _ => some (c.userId, c.idempotencyKey)
  | .linkToThing c _ => some (c.userId, c.idempotencyKey)
  | .addRelation c _ => some (c.userId, c.idempotencyKey)
  | .deleteFile c _ => some (c.userId, c.idempotencyKey)
  | _ => none

/-- An answer. -/
def answered {α : Type} (reply : α → Reply) : Raises α → Reply
  | .ok a => reply a
  | .error error => .raised error

/-- What a write answers that finds the mutation of an earlier one under its key: `view 1` is what the
statement saw that reads the target. -/
def Op.replayed (py : Builtins) (view : ℕ → State) (previous : StateMutation) : Op → Reply
  | .createThing c _ => answered .outcome do
    ensure (.valueError "Thing name must not be empty.") (Text.strip c.name ≠ "")
    let thing ← orRaise (.runtimeError "Idempotent Thing creation points to a missing Thing.")
      (ThingRepository.get c.userId previous.targetId (view 1).things)
    return CreateThing.outcome thing previous.id true
  | .updateThing c _ => answered .thing do
    ensure (.valueError "At least one editable Thing field must be provided.")
      (c.name ≠ none ∨ c.status ≠ none ∨ c.updateCurrentStage)
    orRaise (.runtimeError "Idempotent Thing update points to a missing Thing.")
      (ThingRepository.get c.userId c.thingId (view 1).things)
  | .changeArchive c _ => .outcome (c.replay previous)
  | .deleteThing _ _ => answered .outcome <|
    replayVersion "THING_DELETED" "Thing deleted." "thing_id"
      "Stored delete mutation is missing its target version." previous
  | .mergeThings c _ => answered .outcome do
    ensure (.valueError "Canonical and duplicate Thing IDs must differ.")
      (c.canonicalThingId ≠ c.duplicateThingId)
    MergeThings.replay py previous
  | .setDeadline c _ => answered .outcome do
    let _ ← orRaise (.valueError "Deadline must include timezone information.") c.value.instant
    ensure (.valueError "Date timezone must not be empty.") (Text.strip c.timezoneName ≠ "")
    ensure (.valueError "Only a confirmed date can become the primary deadline.")
      (c.isPrimary = true → c.certainty = .confirmed)
    replayDate "DEADLINE_SET" "Deadline set." "thing_version"
      "Stored deadline mutation is missing Thing version." previous
  | .updateDate _ _ => answered .outcome <|
    replayDate "DATE_UPDATED" "Date updated." "date_version"
      "Stored date mutation is missing target version." previous
  | .createTask c _ => answered .outcome do
    ensure (.valueError "Task title must not be empty.") (Text.strip c.title ≠ "")
    ensure (.valueError "Recurring Task requires a due time and a positive interval.")
      (c.recurrenceIntervalDays.all fun n => 0 < n ∧ c.dueAt ≠ none)
    let task ← orRaise (.runtimeError "Idempotent Task creation points to a missing Task.")
      (TaskRepository.get c.userId previous.targetId (view 1).tasks)
    return CreateTask.outcome task previous.id true
  | .transitionTask _ _ => answered .outcome <|
    replayVersion "TASK_STATUS_CHANGED" "Task status changed." "task_id"
      "Stored Task mutation is missing target version." previous
  | .completeTask _ _ => answered .outcome <|
    replayVersion "TASK_COMPLETED" "Task completed." "task_id"
      "Stored mutation is missing a valid target version." previous
  | .createBlocker c _ => answered .outcome do
    ensure (.valueError "Blocker description must not be empty.") (Text.strip c.description ≠ "")
    let blocker ← orRaise (.runtimeError "Idempotent Blocker creation points to missing data.")
      (BlockerRepository.get c.userId previous.targetId (view 1).things (view 1).blockers)
    return CreateBlocker.outcome blocker previous.id true
  | .resolveBlocker _ _ => answered .outcome <|
    replayVersion "BLOCKER_RESOLVED" "Blocker resolved." "blocker_id"
      "Stored Blocker mutation is missing target version." previous
  | .setThingContext c _ => answered .outcome do
    ensure (.valueError "Thing context label and content must not be empty.")
      (Text.strip c.label ≠ "" ∧ Text.strip c.content ≠ "")
    replayVersion "THING_CONTEXT_SET" "Current Thing context set." "entry_id"
      "Stored context mutation is missing target version." previous
  | .linkToThing c _ => answered .created do
    ensure (.valueError "Source relevance must be between 0 and 1.")
      (0 ≤ c.relevance ∧ c.relevance ≤ 1)
    return false
  | .addRelation _ _ => .created false
  | .deleteFile c _ => answered .outcome do
    ensure (.runtimeError "Idempotent file delete points to a missing Source.")
      (SourceRepository.getIncludingDeleted c.userId c.sourceId (view 1).sources).isSome
    return c.replay previous
  | _ => .done

/-- The idempotency key of a write that records a mutation. -/
def Op.auditKey (op : Op) : Option String := op.request.map Prod.snd

/-- No earlier write has the idempotency key of the transaction. -/
def Op.IsNew (op : Op) (s : State) : Prop :=
  match op with
  | .createAutomation c _ =>
    ∀ r ∈ s.automations, ¬(r.userId = c.userId ∧ r.idempotencyKey = c.idempotencyKey)
  | .createMemory c _ => c.suppressed = false ∧ c.duplicatesState = false ∧
    ∀ r ∈ s.memories, ¬(r.userId = c.userId ∧ r.idempotencyKey = c.idempotencyKey)
  | .createThread userId _ key _ _ =>
    ∀ r ∈ s.threads, ¬(r.userId = userId ∧ r.idempotencyKey = key)
  | .automationThread c _ => ∀ r ∈ s.threads,
    ¬(r.userId = c.userId ∧ r.idempotencyKey = "automation-inbox:" ++ c.userId.str)
  | op => ∀ key, op.auditKey = some key → ∀ m ∈ s.mutations, m.idempotencyKey ≠ key

/-- The Thing that the transaction stores in a row. -/
def Op.attachesTo : Op → Option UUID
  | .mergeThings c _ => some c.canonicalThingId
  | .setDeadline c _ => some c.thingId
  | .createTask c _ => c.thingId
  | .createBlocker c _ => some c.thingId
  | .setThingContext c _ => if c.entryId = none then some c.thingId else none
  | .linkToThing c _ => some c.thingId
  | .createAutomation c _ => c.thingId
  | .createMemory c _ => c.thingId
  | .createThread _ _ _ activeThingId _ => activeThingId
  | .automationThread c _ => c.thingId
  | _ => none

/-- The reading statement of `apply_merge_things` that finds a row to move, or a Source link to
delete. -/
def Holder.statement : Holder → ℕ
  | .task _ => 3
  | .date _ => 4
  | .blocker _ => 5
  | .contextEntry _ => 6
  | .automation _ => 7
  | .memory _ => 9
  | .thread _ => 10
  | .source _ => 12

/-- A transaction attaches no row to a merged Thing, and where it merges a Thing it finds every row that
belongs to it when it commits. -/
def Op.KeepsOffTombstones (op : Op) (view : ℕ → State) (s : State) : Prop :=
  op.IsNew s →
    (∀ thingId, op.attachesTo = some thingId → s.redirect thingId = none) ∧
    ∀ c fresh, op = .mergeThings c fresh → ∀ holder, s.Holds c.duplicateThingId holder →
      (view holder.statement).Holds c.duplicateThingId holder

/-- A merge closes a cycle of redirects: it reads the canonical Thing and finds the duplicate live, not
merged and at the versions that it expects, and the canonical Thing redirects to the duplicate. -/
def Op.ClosesCycle (op : Op) (view : ℕ → State) (s : State) : Prop :=
  op.IsNew s ∧ ∃ c fresh, op = .mergeThings c fresh ∧
    (∃ canonical, ThingRepository.get c.userId c.canonicalThingId (view 1).things = some canonical ∧
      (canonical.version : ℤ) = c.expectedCanonicalVersion) ∧
    (∃ duplicate ∈ s.things, duplicate.id = c.duplicateThingId ∧ duplicate.userId = c.userId ∧
      duplicate.deletedAt = none ∧ duplicate.mergedIntoThingId = none ∧
      (duplicate.version : ℤ) = c.expectedDuplicateVersion) ∧
    Redirects.Leads s.redirect c.canonicalThingId c.duplicateThingId

/-- A transaction on the present state takes the deadline of a Thing away, though the Thing keeps
another primary date; or it moves the first primary dates to a Thing, or all of them from it. -/
def Op.LosesDeadline (op : Op) (s : State) (thingId : UUID) : Prop :=
  op.IsNew s ∧
    match op with
    | .updateDate c _ => c.isPrimary = false ∧ (∃ value, c.Valid value) ∧
      ∃ date thing, ThingDateRepository.get c.userId c.dateId s.things s.dates = some date ∧
        ThingRepository.get c.userId thingId s.things = some thing ∧ date.PrimaryOf thingId ∧
        (date.version : ℤ) = c.expectedVersion ∧ (thing.version : ℤ) = c.expectedThingVersion ∧
        ∃ r ∈ s.dates, r.id ≠ date.id ∧ r.PrimaryOf thingId
    | .mergeThings c _ => c.canonicalThingId ≠ c.duplicateThingId ∧
      (∃ canonical duplicate,
        ThingRepository.get c.userId c.canonicalThingId s.things = some canonical ∧
        ThingRepository.get c.userId c.duplicateThingId s.things = some duplicate ∧
        (canonical.version : ℤ) = c.expectedCanonicalVersion ∧
        (duplicate.version : ℤ) = c.expectedDuplicateVersion ∧
        duplicate.mergedIntoThingId = none) ∧
      ¬s.BothPrimary c.canonicalThingId c.duplicateThingId ∧
      (∃ r ∈ s.dates, r.PrimaryOf c.duplicateThingId) ∧
      (thingId = c.duplicateThingId ∨
        thingId = c.canonicalThingId ∧ ∀ r ∈ s.dates, ¬r.PrimaryOf c.canonicalThingId)
    | _ => False

end PersonalState

/-!
## Whose rows the Personal State holds

All users share the tables. A row is of one user: it says so itself, or it hangs on a Thing that
does. What it refers to has to be of the same user, and no write of another user may touch it.
-/

namespace PersonalState

open Runtime

/-! ## What a row refers to -/

/-- The Thing is there, and it is the user's. -/
def State.Owns (s : State) (userId thingId : UUID) : Prop :=
  ∃ thing ∈ s.things, thing.id = thingId ∧ thing.userId = userId

/-- The Task is there, and it is the user's. -/
def State.OwnsTask (s : State) (userId taskId : UUID) : Prop :=
  ∃ task ∈ s.tasks, task.id = taskId ∧ task.userId = userId

/-- The Source is there, and it is the user's. -/
def State.OwnsSource (s : State) (userId sourceId : UUID) : Prop :=
  ∃ source ∈ s.sources, source.id = sourceId ∧ source.userId = userId

/-- All that a row refers to is there, and it is the user's. -/
structure State.OwnsRefs (s : State) (userId : UUID) (thingIds taskIds sourceIds : List UUID) :
    Prop where
  things : ∀ id ∈ thingIds, s.Owns userId id
  tasks : ∀ id ∈ taskIds, s.OwnsTask userId id
  sources : ∀ id ∈ sourceIds, s.OwnsSource userId id

/-- Every row of `s` refers to what is there in `base` and is its user's. A row without a user of
its own is that of the user of its Things, and has an id that `uuid4()` gives to his rows (`gives`).
The Source of a context entry is left out: nobody looks it up. -/
structure State.OwnedIn (base : State) (gives : UUID → UUID → Prop) (s : State) : Prop where
  things : ∀ r ∈ s.things, base.OwnsRefs r.userId r.mergedIntoThingId.toList [] []
  tasks : ∀ r ∈ s.tasks, base.OwnsRefs r.userId r.thingId.toList [] []
  dates : ∀ r ∈ s.dates,
    ∃ userId, gives userId r.id ∧ base.OwnsRefs userId [r.thingId] [] r.sourceId.toList
  blockers : ∀ r ∈ s.blockers,
    ∃ userId, gives userId r.id ∧ base.OwnsRefs userId [r.thingId] r.taskId.toList r.sourceId.toList
  contextEntries : ∀ r ∈ s.contextEntries,
    ∃ userId, gives userId r.id ∧ base.OwnsRefs userId [r.thingId] [] []
  thingSources : ∀ r ∈ s.thingSources, ∃ userId, base.OwnsRefs userId [r.thingId] [] [r.sourceId]
  relations : ∀ r ∈ s.relations,
    ∃ userId, base.OwnsRefs userId [r.fromThingId, r.toThingId] [] []
  automations : ∀ r ∈ s.automations,
    base.OwnsRefs r.userId r.thingId.toList r.taskId.toList r.sourceId.toList
  memories : ∀ r ∈ s.memories, base.OwnsRefs r.userId r.thingId.toList [] r.sourceIds
  threads : ∀ r ∈ s.threads, base.OwnsRefs r.userId r.activeThingId.toList [] []
  mutations : ∀ m ∈ s.mutations, base.OwnsRefs m.userId m.thingId.toList [] []
  timeline : ∀ e ∈ s.timeline, base.OwnsRefs e.userId [e.thingId] [] []

/-- Every row refers to what is of its own user. -/
def State.Segregated (s : State) : Prop := s.OwnedIn (fun _ _ => True) s

/-! ## The rows of one user -/

/-- The rows of a user are the same in `s` and in `s'`: neither changed, nor taken away, nor added
to. `base` says whose the Things are. -/
structure State.SameIn (base : State) (userId : UUID) (s s' : State) : Prop where
  things : Table.SameOn (fun r => r.userId = userId) s.things s'.things
  tasks : Table.SameOn (fun r => r.userId = userId) s.tasks s'.tasks
  dates : Table.SameOn (fun r => base.Owns userId r.thingId) s.dates s'.dates
  blockers : Table.SameOn (fun r => base.Owns userId r.thingId) s.blockers s'.blockers
  contextEntries :
    Table.SameOn (fun r => base.Owns userId r.thingId) s.contextEntries s'.contextEntries
  thingSources : Table.SameOn (fun r => base.Owns userId r.thingId) s.thingSources s'.thingSources
  relations : Table.SameOn (fun r => base.Owns userId r.fromThingId) s.relations s'.relations
  automations : Table.SameOn (fun r => r.userId = userId) s.automations s'.automations
  memories : Table.SameOn (fun r => r.userId = userId) s.memories s'.memories
  threads : Table.SameOn (fun r => r.userId = userId) s.threads s'.threads
  sources : Table.SameOn (fun r => r.userId = userId) s.sources s'.sources
  mutations : Table.SameOn (fun m => m.userId = userId) s.mutations s'.mutations
  timeline : Table.SameOn (fun e => e.userId = userId) s.timeline s'.timeline

/-- The rows of a user are the same in two states. -/
def State.SameFor (userId : UUID) (s s' : State) : Prop := s.SameIn userId s s'

/-- Whose transaction it is. The upkeep is nobody's. -/
def Op.userId : Op → Option UUID
  | .createAutomation c _ => some c.userId
  | .createMemory c _ => some c.userId
  | .createThread userId _ _ _ _ => some userId
  | .automationThread c _ => some c.userId
  | .addSource source => some source.userId
  | op => op.request.map Prod.fst

/-! ## Conditions on a transaction -/

/-- A change of an Automation leaves alone its user, its Task and its Source. -/
def Upkeep.KeepsOwners (w : Upkeep) : Prop :=
  (∀ r, (w.automations.change r).userId = r.userId ∧ (w.automations.change r).taskId = r.taskId ∧
    (w.automations.change r).sourceId = r.sourceId) ∧
  ∀ r, (w.memories.change r).userId = r.userId ∧ (w.memories.change r).sourceIds = r.sourceIds

/-- What the writes are promised that look nothing up: the upkeep of Automations and Memories leaves
alone whose they are, and the Thread for the Runs of an Automation is given the Thing of the
Automation. -/
def Op.KeepsOwners (op : Op) (view : ℕ → State) : Prop :=
  match op with
  | .upkeep w => w.KeepsOwners
  | .automationThread c _ => c.thingId = none ∨
    ∃ r ∈ (view 0).automations, r.userId = c.userId ∧ r.thingId = c.thingId
  | _ => True

/-- `uuid4()` gives to a date, a Blocker or a context entry of a user one of his ids. -/
def Op.GivesIds (gives : UUID → UUID → Prop) : Op → Prop
  | .setDeadline c fresh => gives c.userId (fresh 0).id
  | .createBlocker c fresh => gives c.userId (fresh 0).id
  | .setThingContext c fresh => gives c.userId (fresh 0).id
  | _ => True

end PersonalState
