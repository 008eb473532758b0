import Laoshiren.PersonalState.Attachments
import Laoshiren.Runtime.Entities

/-!
# Automations

An Automation falls due at a point in time. Each time it does is an Occurrence: the slot of one
definition of the Automation at one scheduled time. An Occurrence that succeeds leaves a notification
intent, and a delivery for every push endpoint of the user.
-/

namespace Automations

open Runtime Raise
open PersonalState (AutomationType AutomationStatus Calendar)

/-! ## Value objects -/

inductive OccurrenceStatus where
  | materialized
  | succeeded
  | notMet
  | failed
  | cancelled
  | skipped
  deriving DecidableEq, Repr

inductive NotificationKind where
  | reminder
  | conditionMet
  | conditionWatchEnded
  deriving DecidableEq, Repr

inductive DeliveryStatus where
  | ready
  | accepted
  | delivered
  | failed
  | unknownOutcome
  | cancelled
  deriving DecidableEq, Repr

inductive MisfirePolicy where
  | fireOnce
  | skip
  deriving DecidableEq, Repr

/-- `is_one_shot_type`. -/
def isOneShotType : AutomationType → Bool
  | .oneShot | .once | .relative => true
  | _ => false

/-! ## Automations -/

/-- An Automation with the columns that its scheduling needs beside those of the Personal State. -/
structure Automation extends PersonalState.Automation where
  definitionRevision : ℕ := 1
  misfirePolicy : MisfirePolicy := .fireOnce
  lastTriggeredAt : Option Timestamp := none
  deriving DecidableEq

namespace Automation

def cancel (a : Automation) (now : Timestamp) : Automation :=
  if a.status = .completed ∨ a.status = .cancelled then a
  else { a with status := .cancelled, updatedAt := now, version := a.version + 1 }

def pause (a : Automation) (now : Timestamp) : Raises Automation := do
  ensure (.valueError "Only an active Automation can be paused.") (a.status = .active)
  return { a with status := .paused, updatedAt := now, version := a.version + 1 }

def resume (a : Automation) (now : Timestamp) : Raises Automation := do
  ensure (.valueError "Only a paused Automation can be resumed.") (a.status = .paused)
  return { a with status := .active, updatedAt := now, version := a.version + 1 }

/-- The time after `occurredAt` at which the Automation falls due again. -/
def nextTrigger (a : Automation) (occurredAt : Timestamp) : Option Timestamp :=
  if isOneShotType a.automationType then none
  else if a.automationType = .recurring then
    a.recurrenceIntervalSeconds.map fun n => occurredAt + n * 1000000
  else a.nextTriggerAt

def markTriggered (a : Automation) (occurredAt : Timestamp) : Automation :=
  { a with
    lastTriggeredAt := some occurredAt
    nextTriggerAt := a.nextTrigger occurredAt
    updatedAt := occurredAt
    version := a.version + 1 }

def completeOneShot (a : Automation) (now : Timestamp) : Automation :=
  if isOneShotType a.automationType ∧ a.status = .active then
    { a with status := .completed, updatedAt := now, version := a.version + 1 }
  else a

end Automation

/-- A status change that was carried out under an idempotency key. -/
structure AutomationOperation where
  userId : UUID
  automationId : UUID
  idempotencyKey : String
  targetVersion : ℕ
  id : UUID
  deriving DecidableEq

/-! ## Occurrences -/

/-- What an Occurrence is the only one of. -/
structure Slot where
  automationId : UUID
  definitionRevision : ℕ
  scheduledFor : Timestamp
  deriving DecidableEq

/-- `scheduled_slot_key`. -/
def Slot.key (cal : Calendar) (slot : Slot) : String :=
  slot.automationId.str ++ ":" ++ slot.definitionRevision.repr ++ ":" ++
    cal.isoformat (.utc slot.scheduledFor)

structure AutomationOccurrence extends Slot where
  userId : UUID
  id : UUID
  status : OccurrenceStatus := .materialized
  durableJobId : Option UUID := none
  materializedAt : Timestamp
  settledAt : Option Timestamp := none
  createdAt : Timestamp
  deriving DecidableEq

namespace AutomationOccurrence

def succeed (o : AutomationOccurrence) (now : Timestamp) : AutomationOccurrence :=
  { o with status := .succeeded, settledAt := some now }

def skip (o : AutomationOccurrence) (now : Timestamp) : AutomationOccurrence :=
  { o with status := .skipped, settledAt := some now }

def fail (o : AutomationOccurrence) (now : Timestamp) : AutomationOccurrence :=
  { o with status := .failed, settledAt := some now }

end AutomationOccurrence

/-! ## Notifications -/

structure NotificationIntent extends PersonalState.NotificationIntent where
  userId : UUID
  kind : NotificationKind
  title : String
  body : String
  occurrenceId : UUID
  automationId : UUID
  dedupeKey : String
  createdAt : Timestamp
  deriving DecidableEq

structure NotificationDelivery where
  userId : UUID
  intentId : UUID
  endpointId : UUID
  id : UUID
  status : DeliveryStatus := .ready
  attemptCount : ℕ := 0
  providerMessageId : Option String := none
  errorCode : Option String := none
  createdAt : Timestamp
  updatedAt : Timestamp
  deriving DecidableEq

structure PushEndpoint where
  userId : UUID
  deviceId : UUID
  pushToken : String
  provider : String := "HUAWEI"
  active : Bool := true
  notificationsEnabled : Bool := true
  id : UUID
  lastRegisteredAt : Timestamp
  invalidatedAt : Option Timestamp := none
  createdAt : Timestamp
  updatedAt : Timestamp
  deriving DecidableEq

/-! ## Unique constraints -/

/-- `uq_automations_user_key`. -/
instance : Row Automation where
  conflict r r' := Row.conflict r.toAutomation r'.toAutomation
  decConflict _ _ := inferInstanceAs (Decidable (Row.conflict _ _))
  symm _ _ := Row.symm _ _

/-- `uq_automation_operations_key`. -/
instance : Row AutomationOperation where
  conflict r r' := r.id = r'.id ∨ r.userId = r'.userId ∧ r.idempotencyKey = r'.idempotencyKey
  decConflict _ _ := inferInstanceAs (Decidable (_ ∨ _))
  symm _ _ := Or.imp Eq.symm (And.imp Eq.symm Eq.symm)

/-- `uq_automation_occurrence_slot`. -/
instance : Row AutomationOccurrence where
  conflict r r' := r.id = r'.id ∨ r.toSlot = r'.toSlot
  decConflict _ _ := inferInstanceAs (Decidable (_ ∨ _))
  symm _ _ := Or.imp Eq.symm Eq.symm

/-- `uq_notification_intents_dedupe`. -/
instance : Row NotificationIntent where
  conflict r r' := r.id = r'.id ∨ r.dedupeKey = r'.dedupeKey
  decConflict _ _ := inferInstanceAs (Decidable (_ ∨ _))
  symm _ _ := Or.imp Eq.symm Eq.symm

/-- `uq_notification_deliveries_intent_endpoint`. -/
instance : Row NotificationDelivery where
  conflict r r' := r.id = r'.id ∨ r.intentId = r'.intentId ∧ r.endpointId = r'.endpointId
  decConflict _ _ := inferInstanceAs (Decidable (_ ∨ _))
  symm _ _ := Or.imp Eq.symm (And.imp Eq.symm Eq.symm)

/-- `uq_push_endpoints_user_device`. -/
instance : Row PushEndpoint where
  conflict r r' := r.id = r'.id ∨ r.userId = r'.userId ∧ r.deviceId = r'.deviceId
  decConflict _ _ := inferInstanceAs (Decidable (_ ∨ _))
  symm _ _ := Or.imp Eq.symm (And.imp Eq.symm Eq.symm)

end Automations
