import Laoshiren.Automations.Scheduling
import Laoshiren.Runtime.RunService

/-!
# Executing Occurrences

A worker that claimed the job of an Occurrence settles both in one transaction, and the notification
with them. The Run of the Occurrence is created before that, in a transaction of its own.
-/

namespace Automations

open Runtime Raise
open PersonalState (Calendar)

/-! ## Notifications -/

/-- The slot of an Occurrence, as the Automation is read. -/
def slotOf (a : Automation) (o : AutomationOccurrence) : Slot :=
  ⟨a.id, o.definitionRevision, o.scheduledFor⟩

/-- `push_delivery_dedupe_key`. -/
def pushDeliveryDedupeKey (deliveryId : UUID) : String := "PUSH_DELIVERY:" ++ deliveryId.str

def reminder (cal : Calendar) (a : Automation) (o : AutomationOccurrence) (stamp : Stamp) :
    NotificationIntent where
  userId := a.userId
  kind := .reminder
  title := a.title
  body := a.message
  occurrenceId := o.id
  automationId := a.id
  thingId := a.thingId
  dedupeKey := (slotOf a o).key cal
  id := stamp.id
  createdAt := stamp.now

/-- The delivery of an intent to an endpoint. -/
def deliveryTo (i : NotificationIntent) (e : PushEndpoint) (stamp : Stamp) :
    NotificationDelivery where
  userId := i.userId
  intentId := i.id
  endpointId := e.id
  id := stamp.id
  createdAt := stamp.now
  updatedAt := stamp.now

/-- What the job of a delivery carries. -/
def pushPayload (d : NotificationDelivery) : Dict :=
  Dict.ofFields
    [("delivery_id", .str d.id.str), ("intent_id", .str d.intentId.str),
      ("endpoint_id", .str d.endpointId.str)]

/-- The job that pushes a delivery. -/
def pushJob (d : NotificationDelivery) (stamp : Stamp) : DurableJob where
  userId := d.userId
  kind := .pushDelivery
  dedupeKey := pushDeliveryDedupeKey d.id
  payload := pushPayload d
  id := stamp.id
  availableAt := stamp.now
  createdAt := stamp.now
  updatedAt := stamp.now

/-- The deliveries of an intent, each with its job; `fresh` has the stamps of an endpoint. -/
def addDeliveries (i : NotificationIntent) (fresh : UUID → ℕ → Stamp) :
    List PushEndpoint → State → Raises State
  | [], s => return s
  | e :: endpoints, s => do
    let d := deliveryTo i e (fresh e.id 0)
    let (deliveries, added) ← orRaise .integrityError (DeliveryRepository.add d s.deliveries)
    if added then
      let store ← s.store.addJob (pushJob d (fresh e.id 1))
      addDeliveries i fresh endpoints { s with deliveries, store }
    else addDeliveries i fresh endpoints s

/-- `create_reminder_notification`. -/
def createReminderNotification (cal : Calendar) (a : Automation) (o : AutomationOccurrence)
    (stamp : Stamp) (fresh : UUID → ℕ → Stamp) (view : ℕ → State) (s : State) : Raises State :=
  match IntentRepository.getByDedupeKey ((slotOf a o).key cal) (view 0).intents with
  | some _ => return s
  | none => do
    let i := reminder cal a o stamp
    let (intents, added) ← orRaise .integrityError (IntentRepository.add i s.intents)
    if added then
      addDeliveries i fresh (EndpointRepository.listEligible a.userId (view 1).endpoints)
        { s with intents }
    else return s

/-- `_complete_one_shot`. -/
def completeOneShot (a : Automation) (now : Timestamp) (s : State) : Raises State :=
  let a' := a.completeOneShot now
  if a'.version = a.version then return s
  else s.updateAutomation a' a.version "Automation changed while settling an occurrence."

/-! ## Claims -/

/-- `_owns_claim`. -/
def ownsClaim (claimed : Option DurableJob) (job : DurableJob) (owner : String) (now : Timestamp) :
    Bool :=
  claimed.any fun j => j.id = job.id ∧ j.status = .claimed ∧ j.claimedBy = some owner ∧
    j.claimEpoch = job.claimEpoch ∧ ∃ t ∈ j.leaseUntil, now ≤ t

/-- The job as it is read under its dedupe key. -/
def readClaim (job : DurableJob) (s : State) : Option DurableJob :=
  DurableJobRepository.getByDedupeKey job.userId job.dedupeKey s.store.durableJobs

/-- `UUID(str(job.payload[field]))`. -/
def payloadId (job : DurableJob) (field : String) : Raises UUID := do
  let text ← orRaise (.keyError field) (job.payload.get field)
  orRaise (.valueError "badly formed hexadecimal UUID string") (text.asStr?.bind UUID.parse?)

/-- `settle` as the last write of a transaction, which is rolled back where it fails. -/
def settleClaim (job : DurableJob) (owner : String) (status : DurableJobStatus) (now : Timestamp)
    (errorCode : Option String) (s : State) : Option State :=
  let (durableJobs, settled) := DurableJobRepository.settle job.id owner job.claimEpoch status now
    errorCode s.store.durableJobs
  if settled then some { s with store := { s.store with durableJobs } } else none

/-! ## `execute_claimed` -/

/-- What a worker makes of the Occurrence that it read. -/
inductive Verdict where
  /-- The claim is not its own any more. -/
  | lost
  /-- The job settles, and the Occurrence with it where it is to be written. -/
  | settle (status : DurableJobStatus) (errorCode : Option String)
      (occurrence : Option AutomationOccurrence)
  /-- The Occurrence is due: its Run is triggered. -/
  | fire (occurrence : AutomationOccurrence) (automation : Automation)
  deriving DecidableEq

/-- The Occurrence that was read, judged by its status and by its Automation. -/
def judge (cal : Calendar) (job : DurableJob) (automationId : UUID) (now : Timestamp)
    (view : ℕ → State) (o : AutomationOccurrence) : Verdict :=
  if o.automationId ≠ automationId then .settle .failed (some "OCCURRENCE_NOT_FOUND") none
  else match o.status with
  | .succeeded =>
    let slot : Slot := ⟨automationId, o.definitionRevision, o.scheduledFor⟩
    if (IntentRepository.getByDedupeKey (slot.key cal) (view 2).intents).isSome then
      .settle .completed none none
    else .settle .failed (some "OCCURRENCE_INTENT_MISSING") none
  | .cancelled | .skipped => .settle .completed none none
  | .failed => .settle .failed (some "OCCURRENCE_ALREADY_FAILED") none
  | .materialized | .notMet =>
    match AutomationRepository.get job.userId automationId (view 2).automations with
    | none => .settle .failed (some "AUTOMATION_NOT_FOUND") (some (o.fail now))
    | some a =>
      if o.definitionRevision ≠ a.definitionRevision ∨ a.status = .cancelled then
        .settle .completed none (some (o.skip now))
      else .fire o a

/-- What `execute_claimed` reads, up to where it writes; `clock` has the time of the claim check and
that of the settlement. -/
def inspect (cal : Calendar) (job : DurableJob) (owner : String) (clock : ℕ → Timestamp)
    (view : ℕ → State) : Raises Verdict := do
  let occurrenceId ← payloadId job "occurrence_id"
  let automationId ← payloadId job "automation_id"
  if ownsClaim (readClaim job (view 0)) job owner (clock 0) then
    match OccurrenceRepository.get occurrenceId (view 1).occurrences with
    | none => return .settle .failed (some "OCCURRENCE_NOT_FOUND") none
    | some o => return judge cal job automationId (clock 1) view o
  else return .lost

/-- The arguments of `trigger_from_occurrence`. -/
def runRequest (cal : Calendar) (a : Automation) (o : AutomationOccurrence) :
    CreateAutomationRun where
  userId := a.userId
  automationId := a.id
  thingId := a.thingId
  title := a.title
  message := a.message
  occurrenceKey := (slotOf a o).key cal

/-- The writes of `execute_claimed` after the Run was triggered, up to the settlement of the job. -/
def fireOccurrence (cal : Calendar) (a : Automation) (o : AutomationOccurrence) (now : Timestamp)
    (stamp : Stamp) (fresh : UUID → ℕ → Stamp) (view : ℕ → State) (s : State) : Raises State := do
  let s ← createReminderNotification cal a o stamp fresh view s
  completeOneShot a now
    { s with occurrences := OccurrenceRepository.update (o.succeed now) s.occurrences }

/-! ## Failures -/

/-- The Occurrence of a job that has no delivery left. -/
def failOccurrence (job : DurableJob) (now : Timestamp) (view : ℕ → State) (s : State) :
    Raises State := do
  let occurrenceId ← payloadId job "occurrence_id"
  match OccurrenceRepository.get occurrenceId (view 1).occurrences with
  | none => return s
  | some o =>
    if o.status = .materialized then
      let s := { s with occurrences := OccurrenceRepository.update (o.fail now) s.occurrences }
      match AutomationRepository.get job.userId o.automationId (view 2).automations with
      | none => return s
      | some a =>
        if a.definitionRevision = o.definitionRevision then completeOneShot a now s else return s
    else return s

/-- `record_failure`; `availableAt` is when the job is delivered again. The answer is `none` where the
claim was lost. -/
def recordFailure (job : DurableJob) (owner : String) (availableAt now : Timestamp)
    (view : ℕ → State) (s : State) : Raises (Option State) := do
  if ownsClaim (readClaim job (view 0)) job owner now then
    if job.deliveryAttempt < job.maxDeliveryAttempts then
      let (durableJobs, released) := DurableJobRepository.releaseForRetry job.id owner job.claimEpoch
        availableAt now "OCCURRENCE_EXECUTION_RETRY" s.store.durableJobs
      return if released then some { s with store := { s.store with durableJobs } } else none
    else
      let s ← failOccurrence job now view s
      return settleClaim job owner .failed now (some "OCCURRENCE_RETRY_EXHAUSTED") s
  else return none

/-- The loop of `reconcile_exhausted`, from the `n`-th reading statement on. -/
def completeExhausted (now : Timestamp) (view : ℕ → State) :
    ℕ → List (UUID × UUID × ℕ) → State → Raises State
  | _, [], s => return s
  | n, (userId, automationId, definitionRevision) :: settled, s => do
    let s ← match AutomationRepository.get userId automationId (view n).automations with
      | none => pure s
      | some a =>
        if a.definitionRevision = definitionRevision then completeOneShot a now s else pure s
    completeExhausted now view (n + 1) settled s

/-- `reconcile_exhausted`. -/
def reconcileExhausted (now : Timestamp) (view : ℕ → State) (s : State) : Raises State :=
  let (occurrences, failed) := OccurrenceRepository.failExhausted now (view 0).store.durableJobs
    (view 0).occurrences s.occurrences
  let settled := failed.map fun o => (o.userId, o.automationId, o.definitionRevision)
  completeExhausted now view 1 settled.dedup { s with occurrences }

end Automations
