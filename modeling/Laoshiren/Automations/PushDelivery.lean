import Laoshiren.Automations.Execution
import Laoshiren.Foundation.ReadCommitted
import Laoshiren.Runtime.JobQueue

/-!
# Push workers

A push worker claims the job of a delivery, submits the delivery to the provider, records the answer and
settles the job, in three transactions with the call of the provider between the first two. It may crash
before each of them. The provider is outside: what was submitted to it is kept as a log, and its answer
is an argument of the step.
-/

namespace PushDelivery

open Runtime Raise Automations
open PersonalState (Calendar)

/-! ## The worker -/

/-- One push worker. -/
inductive Worker where
  | idle
  /-- The job that it claimed. -/
  | claimed (job : DurableJob)
  /-- The provider answered, and the delivery is not written yet. -/
  | submitted (job : DurableJob) (delivery : NotificationDelivery)
  /-- The job is still to be settled. -/
  | handled (job : DurableJob)

/-- How the name of a push worker begins. -/
def workerPrefix : String := "push-delivery-"

/-- `PushDeliveryWorker._worker_id`. -/
def workerOwner (worker : UUID) : String := workerPrefix ++ worker.str

/-- `NotificationDelivery.accepted`, without a message of the provider. -/
def accepted (d : NotificationDelivery) (now : Timestamp) : NotificationDelivery :=
  { d with
    status := .accepted, attemptCount := d.attemptCount + 1, providerMessageId := none,
    updatedAt := now }

/-- `NotificationDelivery.failed`. -/
def failed (d : NotificationDelivery) (errorCode : String) (now : Timestamp) :
    NotificationDelivery :=
  { d with
    status := .failed, attemptCount := d.attemptCount + 1, errorCode := some errorCode,
    updatedAt := now }

/-- What the provider's answer makes of a delivery; an exception counts as a refusal. -/
def answered (answer : Bool) (now : Timestamp) (d : NotificationDelivery) : NotificationDelivery :=
  if answer then accepted d now else failed d "ADAPTER_REJECTED" now

/-- The delivery that a job is about, where its intent and its endpoint are there too. -/
def readDelivery (job : DurableJob) (view : ℕ → State) : Raises (Option NotificationDelivery) := do
  let deliveryId ← payloadId job "delivery_id"
  let intentId ← payloadId job "intent_id"
  let endpointId ← payloadId job "endpoint_id"
  match DeliveryRepository.get deliveryId (view 0).deliveries,
    IntentRepository.get intentId (view 1).intents,
    EndpointRepository.get endpointId (view 2).endpoints with
  | some d, some _, some _ => return some d
  | _, _, _ => return none

/-! ## The system -/

/-- The database, the push workers and the log of the provider. -/
structure World extends State where
  workers : UUID → Worker := fun _ => .idle
  /-- The deliveries that were submitted, the latest first. -/
  submissions : List UUID := []

/-- A transaction of another component: it leaves the deliveries and their jobs alone. -/
structure Foreign (s s' : State) : Prop where
  deliveries : s'.deliveries = s.deliveries
  jobs : ∀ j : DurableJob, j.kind = .pushDelivery →
    (j ∈ s'.store.durableJobs ↔ j ∈ s.store.durableJobs)

inductive Op where
  /-- `create_reminder_notification`, in the transaction that fires an Occurrence. -/
  | notify (automation : Automation) (occurrence : AutomationOccurrence) (stamp : Stamp)
      (fresh : UUID → ℕ → Stamp)
  /-- An idle worker claims a job. -/
  | claim (worker : UUID) (lease : ℤ) (now : Timestamp) (reached locked : UUID → Bool)
  /-- The worker reads the delivery and submits it; `answer` is what the provider says. -/
  | submit (worker : UUID) (answer : Bool) (now : Timestamp)
  /-- The worker writes the delivery. -/
  | record (worker : UUID)
  | settle (worker : UUID) (now : Timestamp)
  /-- The worker crashes, or an exception ends its round. -/
  | crash (worker : UUID)
  /-- A worker of another kind claims jobs, and sweeps the leases that are over. -/
  | claimOther (kind : DurableJobKind) (owner : String) (now leaseUntil : Timestamp) (limit : ℕ)
      (reached locked : UUID → Bool) (hkind : kind ≠ .pushDelivery)
  /-- Another component. -/
  | other (change : State → State) (hforeign : ∀ s, Foreign s (change s))

inductive Reply where
  | raised (error : RuntimeError)
  | done
  deriving DecidableEq

namespace World

def setWorker (worker : UUID) (phase : Worker) (w : World) : World :=
  { w with workers := Function.update w.workers worker phase }

/-- What a step makes of the system. -/
def commit (cal : Calendar) (op : Op) (view : ℕ → World) (w : World) : World × Reply :=
  let states n := (view n).toState
  match op with
  | .notify a o stamp fresh =>
    match createReminderNotification cal a o stamp fresh states w.toState with
    | .ok s => ({ w with toState := s }, .done)
    | .error error => (w, .raised error)
  | .claim worker lease now reached locked =>
    match w.workers worker with
    | .idle =>
      let (durableJobs, jobs) := claimReadyJobs .pushDelivery (workerOwner worker) now (now + lease) 1
        reached locked w.store.durableJobs
      let w := { w with store := { w.store with durableJobs } }
      match jobs with
      | job :: _ => (w.setWorker worker (.claimed job), .done)
      | [] => (w, .done)
    | _ => (w, .done)
  | .submit worker answer now =>
    match w.workers worker with
    | .claimed job =>
      match readDelivery job states with
      | .ok (some d) =>
        ({ w with submissions := d.id :: w.submissions }.setWorker worker
          (.submitted job (answered answer now d)), .done)
      | .ok none => (w.setWorker worker (.handled job), .done)
      | .error error => (w.setWorker worker .idle, .raised error)
    | _ => (w, .done)
  | .record worker =>
    match w.workers worker with
    | .submitted job d =>
      ({ w with deliveries := DeliveryRepository.update d w.deliveries }.setWorker worker
        (.handled job), .done)
    | _ => (w, .done)
  | .settle worker now =>
    match w.workers worker with
    | .handled job =>
      match settleClaim job (workerOwner worker) .completed now none w.toState with
      | some s => ({ w with toState := s }.setWorker worker .idle, .done)
      | none => (w.setWorker worker .idle, .done)
    | _ => (w, .done)
  | .crash worker => (w.setWorker worker .idle, .done)
  | .claimOther kind owner now leaseUntil limit reached locked _ =>
    let (durableJobs, _) := claimReadyJobs kind owner now leaseUntil limit reached locked
      w.store.durableJobs
    ({ w with store := { w.store with durableJobs } }, .done)
  | .other change _ => ({ w with toState := change w.toState }, .done)

end World

/-- Push workers: they start with empty tables and an empty log. -/
def system (cal : Calendar) : Program World Op Reply where
  init w := w = {}
  commit := World.commit cal

end PushDelivery
