import Laoshiren.Automations.Entities
import Laoshiren.Runtime.Store

/-!
# Statements on the tables of Automations

`list_due` selects with `FOR UPDATE SKIP LOCKED`, so it answers with rows as they are when its
transaction commits, and leaves out those that other transactions hold at that time.
-/

namespace Automations

open Runtime

/-! ## Automations -/

namespace AutomationRepository

def get (userId automationId : UUID) (t : Table Automation) : Option Automation :=
  t.get fun r => r.id = automationId ∧ r.userId = userId

def getByIdempotency (userId : UUID) (key : String) (t : Table Automation) : Option Automation :=
  t.get fun r => r.userId = userId ∧ r.idempotencyKey = key

def listForUser (userId : UUID) (limit : ℕ) (t : Table Automation) : List Automation :=
  ((t.select fun r => r.userId = userId).insertionSort fun r r' =>
    toLex (-r.createdAt, -(r.id.toNat : ℤ)) ≤ toLex (-r'.createdAt, -(r'.id.toNat : ℤ))).take limit

def dueWhere (now : Timestamp) (r : Automation) : Bool :=
  r.status = .active ∧ ∃ t ∈ r.nextTriggerAt, t ≤ now

def listDue (now : Timestamp) (limit : ℕ) (locked : UUID → Bool) (t : Table Automation) :
    List Automation :=
  ((t.select fun r => dueWhere now r && !locked r.id).insertionSort fun r r' =>
    toLex (r.nextTriggerAt.getD 0, r.id.toNat) ≤ toLex (r'.nextTriggerAt.getD 0, r'.id.toNat)).take
      limit

def updateWhere (a : Automation) (expectedVersion : ℕ) (r : Automation) : Bool :=
  r.id = a.id ∧ r.version = expectedVersion

def updateValues (a r : Automation) : Automation :=
  { r with
    status := a.status
    nextTriggerAt := a.nextTriggerAt
    lastTriggeredAt := a.lastTriggeredAt
    definitionRevision := a.definitionRevision
    version := a.version
    updatedAt := a.updatedAt }

def update (a : Automation) (expectedVersion : ℕ) (t : Table Automation) : Table Automation × Bool :=
  let p := updateWhere a expectedVersion
  (t.update p (updateValues a) fun _ _ _ h => h, t.rowcount p == 1)

/-- What was recorded under the key: the Automation, and the version that it had then. -/
def getOperation (userId : UUID) (key : String) (t : Table AutomationOperation) :
    Option (UUID × ℕ) :=
  (t.get fun r => r.userId = userId ∧ r.idempotencyKey = key).map fun r =>
    (r.automationId, r.targetVersion)

end AutomationRepository

/-! ## Occurrences -/

namespace OccurrenceRepository

def add (o : AutomationOccurrence) (t : Table AutomationOccurrence) :
    Option (Table AutomationOccurrence × Bool) :=
  t.insertUnless AutomationOccurrence.toSlot o

def get (occurrenceId : UUID) (t : Table AutomationOccurrence) : Option AutomationOccurrence :=
  t.get fun r => r.id = occurrenceId

def updateValues (o r : AutomationOccurrence) : AutomationOccurrence :=
  { r with status := o.status, durableJobId := o.durableJobId, settledAt := o.settledAt }

def update (o : AutomationOccurrence) (t : Table AutomationOccurrence) :
    Table AutomationOccurrence :=
  t.update (fun r => r.id = o.id) (updateValues o) fun _ _ _ h => h

/-- The jobs that ran out of deliveries, or were given up. -/
def exhausted (jobs : Table DurableJob) (jobId : UUID) : Bool :=
  (jobs.get fun j => j.id = jobId ∧ j.kind = .automationOccurrence ∧ j.status = .failed).isSome

def failExhaustedWhere (jobs : Table DurableJob) (r : AutomationOccurrence) : Bool :=
  r.status = .materialized ∧ ∃ jobId ∈ r.durableJobId, exhausted jobs jobId = true

/-- `fail_exhausted`: the rows that the statement found in `seen`, with the jobs as it saw them. -/
def failExhausted (now : Timestamp) (jobs : Table DurableJob) (seen t : Table AutomationOccurrence) :
    Table AutomationOccurrence × List AutomationOccurrence :=
  let p := Table.foundIn AutomationOccurrence.id seen (failExhaustedWhere jobs)
  (t.update p (fun r => { r with status := .failed, settledAt := some now }) fun _ _ _ h => h,
    t.select p)

end OccurrenceRepository

/-! ## Notifications -/

namespace IntentRepository

def add (i : NotificationIntent) (t : Table NotificationIntent) :
    Option (Table NotificationIntent × Bool) :=
  t.insertUnless NotificationIntent.dedupeKey i

def getByDedupeKey (dedupeKey : String) (t : Table NotificationIntent) : Option NotificationIntent :=
  t.get fun r => r.dedupeKey = dedupeKey

def get (intentId : UUID) (t : Table NotificationIntent) : Option NotificationIntent :=
  t.get fun r => r.id = intentId

end IntentRepository

namespace DeliveryRepository

def add (d : NotificationDelivery) (t : Table NotificationDelivery) :
    Option (Table NotificationDelivery × Bool) :=
  t.insertUnless (fun r => (r.intentId, r.endpointId)) d

def get (deliveryId : UUID) (t : Table NotificationDelivery) : Option NotificationDelivery :=
  t.get fun r => r.id = deliveryId

def updateValues (d r : NotificationDelivery) : NotificationDelivery :=
  { r with
    status := d.status
    attemptCount := d.attemptCount
    providerMessageId := d.providerMessageId
    errorCode := d.errorCode
    updatedAt := d.updatedAt }

def update (d : NotificationDelivery) (t : Table NotificationDelivery) :
    Table NotificationDelivery :=
  t.update (fun r => r.id = d.id) (updateValues d) fun _ _ _ h => h

end DeliveryRepository

namespace EndpointRepository

def get (endpointId : UUID) (t : Table PushEndpoint) : Option PushEndpoint :=
  t.get fun r => r.id = endpointId

def eligible (userId : UUID) (r : PushEndpoint) : Bool :=
  r.userId = userId ∧ r.active = true ∧ r.notificationsEnabled = true ∧ r.invalidatedAt = none

def listEligible (userId : UUID) (t : Table PushEndpoint) : List PushEndpoint :=
  t.select (eligible userId)

/-- `upsert`: the endpoint of the device of a user is overwritten. -/
def upsert (e : PushEndpoint) (t : Table PushEndpoint) : Option (Table PushEndpoint) :=
  if (t.get fun r => r.userId = e.userId ∧ r.deviceId = e.deviceId).isSome then
    some <| t.update (fun r => r.userId = e.userId ∧ r.deviceId = e.deviceId)
      (fun r => { r with
        pushToken := e.pushToken
        provider := e.provider
        active := e.active
        notificationsEnabled := e.notificationsEnabled
        lastRegisteredAt := e.lastRegisteredAt
        invalidatedAt := e.invalidatedAt
        updatedAt := e.updatedAt }) fun _ _ _ h => h
  else t.insert? e

/-- `invalidate_for_device` and `invalidate_for_user`: the rows that the statement found in `seen`. -/
def invalidate (p : PushEndpoint → Bool) (now : Timestamp) (seen t : Table PushEndpoint) :
    Table PushEndpoint :=
  t.update (Table.foundIn PushEndpoint.id seen p) (fun r => { r with
    active := false
    notificationsEnabled := false
    invalidatedAt := some now
    updatedAt := now }) fun _ _ _ h => h

end EndpointRepository

end Automations
