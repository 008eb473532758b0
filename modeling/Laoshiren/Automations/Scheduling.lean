import Laoshiren.Automations.Repositories

/-!
# Scheduling Automations

Automations are created, change their status and fall due. A scheduler materializes an Occurrence for
every Automation that is due, with the job that will execute it, and moves the Automation on to its
next trigger, all in one transaction.
-/

namespace Automations

open Runtime Raise
open PersonalState (AutomationType AutomationStatus Calendar CreateAutomation TaskStatus)

/-- The tables that Automations are scheduled with, beside those of the Runtime. -/
structure State where
  store : Store := {}
  automations : Table Automation := .empty
  operations : Table AutomationOperation := .empty
  occurrences : Table AutomationOccurrence := .empty
  intents : Table NotificationIntent := .empty
  deliveries : Table NotificationDelivery := .empty
  endpoints : Table PushEndpoint := .empty

/-- `if not await uow.automations.update(automation, expected_version=…): raise VersionConflict`. -/
def State.updateAutomation (s : State) (a : Automation) (expectedVersion : ℕ) (message : String) :
    Raises State := do
  let (automations, updated) := AutomationRepository.update a expectedVersion s.automations
  ensure (.versionConflict message) updated
  return { s with automations }

/-! ## Writes on Automations -/

/-- `apply_create_automation`; `lookups` is what becomes of the look-ups of its Thing, its Task and its
Source in the Personal State. -/
def applyCreateAutomation (c : CreateAutomation) (lookups : Raises Unit) (stamp : Stamp)
    (view : ℕ → State) (s : State) : Raises (State × WriteOutcome) := do
  ensure (.valueError "Automation title, message and timezone must not be empty.")
    (Text.strip c.title ≠ "" ∧ Text.strip c.message ≠ "" ∧ Text.strip c.timezoneName ≠ "")
  match AutomationRepository.getByIdempotency c.userId c.idempotencyKey (view 0).automations with
  | some previous => return (s, CreateAutomation.outcome previous.toAutomation true)
  | none =>
    lookups
    let trigger ← c.postInit
    let automation : Automation := { c.automation trigger stamp with }
    let automations ← orRaise .integrityError (s.automations.insert? automation)
    return ({ s with automations }, CreateAutomation.outcome automation.toAutomation false)

/-- The arguments of `apply_change_automation_status`. -/
structure ChangeStatus where
  userId : UUID
  automationId : UUID
  action : String
  expectedVersion : ℤ
  idempotencyKey : String
  deriving DecidableEq

namespace ChangeStatus

def changed (c : ChangeStatus) (a : Automation) (now : Timestamp) : Raises Automation :=
  if c.action = "PAUSE" then a.pause now
  else if c.action = "RESUME" then do
    ensure (.valueError "Condition watch execution requires the Agent phase.")
      (a.automationType ≠ .conditionWatch ∧ a.automationType ≠ .condition)
    a.resume now
  else if c.action = "CANCEL" then return a.cancel now
  else throw (.valueError "Unsupported Automation action.")

def outcome (c : ChangeStatus) (a : Automation) (replayed : Bool) : WriteOutcome where
  code := if c.action = "CANCEL" then "AUTOMATION_CANCELLED" else "AUTOMATION_CHANGED"
  message := "Automation status changed."
  data := Dict.ofFields
    [("id", .str a.id.str), ("status", .str a.status.value), ("version", .num a.version),
      ("replayed", .bool replayed)]
  mutationRefs := []

def operation (c : ChangeStatus) (a : Automation) (stamp : Stamp) : AutomationOperation where
  userId := c.userId
  automationId := a.id
  idempotencyKey := c.idempotencyKey
  targetVersion := a.version
  id := stamp.id

end ChangeStatus

/-- `apply_change_automation_status`. -/
def applyChangeAutomationStatus (c : ChangeStatus) (stamp : Stamp) (view : ℕ → State) (s : State) :
    Raises (State × WriteOutcome) :=
  match AutomationRepository.getOperation c.userId c.idempotencyKey (view 0).operations with
  | some (recordedId, _) => do
    let a ← orRaise (.runtimeError "Automation operation points to missing data.")
      (AutomationRepository.get c.userId recordedId (view 1).automations)
    return (s, c.outcome a true)
  | none => do
    let a ← orRaise (.entityNotFound "Automation was not found.")
      (AutomationRepository.get c.userId c.automationId (view 1).automations)
    ensure (.versionConflict "Automation version is stale.") ((a.version : ℤ) = c.expectedVersion)
    let a' ← c.changed a stamp.now
    let s ← s.updateAutomation a' a.version "Automation was updated concurrently."
    let operations ← orRaise .integrityError (s.operations.insert? (c.operation a' stamp))
    return ({ s with operations }, c.outcome a' false)

/-- What `apply_account_deletion` does to Automations and push endpoints: an Automation that was changed
since it was read is left as it is. -/
def applyAccountDeletion (userId : UUID) (now : Timestamp) (view : ℕ → State) (s : State) : State :=
  let automations := (AutomationRepository.listForUser userId 500 (view 0).automations).foldl
    (fun t a => if a.status = .active then
      (AutomationRepository.update (a.cancel now) a.version t).1 else t) s.automations
  { s with
    automations
    endpoints := EndpointRepository.invalidate (fun r => r.userId = userId) now (view 1).endpoints
      s.endpoints }

/-- What a merge of Things does to Automations and intents: those of one Thing are moved to the other. -/
def rebindThing (fromThingId toThingId : UUID) (view : ℕ → State) (s : State) : State :=
  { s with
    automations := s.automations.update
      (Table.foundIn (fun r => r.id) (view 0).automations fun r => r.thingId = some fromThingId)
      (fun r => { r with thingId := some toThingId }) fun _ _ _ h => h
    intents := s.intents.update
      (Table.foundIn (fun r => r.id) (view 1).intents fun r => r.thingId = some fromThingId)
      (fun r => { r with thingId := some toThingId }) fun _ _ _ h => h }

/-! ## Materializing Occurrences -/

/-- `MISFIRE_HORIZON`. -/
def misfireHorizon : ℤ := 24 * 60 * 60 * 1000000

/-- `occurrence_dedupe_key`. -/
def occurrenceDedupeKey (occurrenceId : UUID) : String :=
  "AUTOMATION_OCCURRENCE:" ++ occurrenceId.str

/-- The Occurrence of an Automation at its trigger. -/
def dueOccurrence (a : Automation) (scheduledFor : Timestamp) (stamp : Stamp) :
    AutomationOccurrence where
  automationId := a.id
  definitionRevision := a.definitionRevision
  scheduledFor
  userId := a.userId
  id := stamp.id
  materializedAt := stamp.now
  createdAt := stamp.now

/-- What the job of an Occurrence carries. -/
def occurrencePayload (cal : Calendar) (o : AutomationOccurrence) : Dict :=
  Dict.ofFields
    [("occurrence_id", .str o.id.str), ("automation_id", .str o.automationId.str),
      ("scheduled_for", .str (cal.isoformat (.utc o.scheduledFor)))]

/-- The job that executes an Occurrence. -/
def occurrenceJob (cal : Calendar) (o : AutomationOccurrence) (occurredAt : Timestamp)
    (stamp : Stamp) : DurableJob where
  userId := o.userId
  kind := .automationOccurrence
  dedupeKey := occurrenceDedupeKey o.id
  payload := occurrencePayload cal o
  id := stamp.id
  availableAt := occurredAt
  createdAt := stamp.now
  updatedAt := stamp.now

/-- The Task of an Automation is gone or over. -/
def taskOver : Option TaskStatus → Bool
  | none | some .done | some .cancelled => true
  | _ => false

/-- `materialize_due_automation`. `taskStatus` is what `tasks.get` finds; `fresh` has the stamps of the
cancellation, of the Occurrence and of its job. -/
def materializeDueAutomation (cal : Calendar) (occurredAt : Timestamp)
    (taskStatus : UUID → UUID → Option TaskStatus) (fresh : ℕ → Stamp) (a : Automation) (s : State) :
    Raises (State × Option AutomationOccurrence) := do
  if a.taskId.any fun taskId => taskOver (taskStatus a.userId taskId) then
    let s ← s.updateAutomation (a.cancel (fresh 0).now) a.version
      "Automation was claimed concurrently."
    return (s, none)
  else
    let scheduledFor ← orRaise
      (.valueError "An Automation without a scheduled trigger cannot be materialized.")
      a.nextTriggerAt
    let o := dueOccurrence a scheduledFor (fresh 1)
    if a.misfirePolicy = .skip ∧ misfireHorizon < occurredAt - scheduledFor then
      let o := { o with status := .skipped, settledAt := some occurredAt }
      let (occurrences, created) ← orRaise .integrityError (OccurrenceRepository.add o s.occurrences)
      if created then
        let s ← { s with occurrences }.updateAutomation
          ((a.markTriggered occurredAt).completeOneShot (fresh 0).now) a.version
          "Automation was claimed concurrently."
        return (s, some o)
      else return (s, none)
    else
      let (occurrences, created) ← orRaise .integrityError (OccurrenceRepository.add o s.occurrences)
      if created then
        let job := occurrenceJob cal o occurredAt (fresh 2)
        let store ← s.store.addJob job
        let o := { o with durableJobId := some job.id }
        let s ← { s with
          store, occurrences := OccurrenceRepository.update o occurrences }.updateAutomation
          (a.markTriggered occurredAt) a.version "Automation was claimed concurrently."
        return (s, some o)
      else return (s, none)

/-- The loop of `process_due`: the Automations that are due, one after the other. -/
def materializeAll (cal : Calendar) (occurredAt : Timestamp)
    (taskStatus : UUID → UUID → Option TaskStatus) (fresh : UUID → ℕ → Stamp) :
    List Automation → State → Raises (State × ℕ)
  | [], s => return (s, 0)
  | a :: due, s => do
    let (s, occurrence) ← materializeDueAutomation cal occurredAt taskStatus (fresh a.id) a s
    let (s, createdCount) ← materializeAll cal occurredAt taskStatus fresh due s
    return (s, createdCount + if occurrence.isSome then 1 else 0)

/-- `process_due`. -/
def processDue (cal : Calendar) (occurredAt : Timestamp) (limit : ℕ) (locked : UUID → Bool)
    (taskStatus : UUID → UUID → Option TaskStatus) (fresh : UUID → ℕ → Stamp) (s : State) :
    Raises (State × ℕ) :=
  materializeAll cal occurredAt taskStatus fresh
    (AutomationRepository.listDue occurredAt limit locked s.automations) s

end Automations
