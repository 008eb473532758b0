import Laoshiren.Automations.Execution
import Laoshiren.Runtime.System

/-!
# Automations as a database program

Any number of schedulers and occurrence workers share the database with the clients that change
Automations, with the push workers and with every other client of the Runtime. A worker claims a job and
executes it in one transaction or in two: between the Run that it triggers and the settlement anything
can happen, and the worker may never get to the settlement.
-/

namespace Automations

open Runtime Raise
open PersonalState (Calendar CreateAutomation TaskStatus)

/-! ## Workers -/

/-- One occurrence worker. -/
inductive Worker where
  | idle
  /-- The job that it claimed. -/
  | claimed (job : DurableJob)
  /-- Its Run is there, and the transaction that settles the job is still open. -/
  | triggered (job : DurableJob) (occurrence : AutomationOccurrence) (automation : Automation)
  /-- `execute_claimed` raised. -/
  | raised (job : DurableJob)

/-- How the name of an occurrence worker begins. -/
def workerPrefix : String := "automation-occurrence-"

/-- `AutomationOccurrenceWorker._worker_id`. -/
def workerOwner (worker : UUID) : String := workerPrefix ++ worker.str

/-- Whether a name is none of an occurrence worker. -/
def foreignOwner (owner : String) : Bool := !workerPrefix.toList.isPrefixOf owner.toList

/-- The transactions of the other clients of the Runtime: only occurrence workers trigger the Run of an
Automation, claim the jobs of Occurrences and present such claims. -/
def foreign : Runtime.Op → Bool
  | .createAutomationRun _ _ _ => false
  | .claimReadyJobs kind _ _ _ _ _ _ => decide (kind ≠ .automationOccurrence)
  | .settleAgentRunJob _ owner _ _ | .renewAgentRunJob _ owner _ _ => foreignOwner owner
  | .releaseForRetry _ owner _ _ _ _ => foreignOwner owner
  | _ => true

/-- The database and the occurrence workers. -/
structure World extends State where
  workers : UUID → Worker := fun _ => .idle

/-! ## Steps -/

/-- A step, with its arguments and with what it takes from the clock, from `uuid4()`, from the Personal
State and from the row locks of other transactions. -/
inductive Op where
  | create (c : CreateAutomation) (lookups : Raises Unit) (stamp : Stamp)
  | changeStatus (c : ChangeStatus) (stamp : Stamp)
  | deleteAccount (userId : UUID) (now : Timestamp)
  | rebindThing (fromThingId toThingId : UUID)
  | registerPushToken (endpoint : PushEndpoint)
  | deletePushToken (userId deviceId : UUID) (now : Timestamp)
  | processDue (occurredAt : Timestamp) (limit : ℕ) (locked : UUID → Bool)
      (taskStatus : UUID → UUID → Option TaskStatus) (fresh : UUID → ℕ → Stamp)
  /-- An idle worker claims a job. -/
  | claim (worker : UUID) (lease : ℤ) (now : Timestamp) (reached locked : UUID → Bool)
  /-- `execute_claimed` up to its first commit. -/
  | execute (worker : UUID) (clock : ℕ → Timestamp) (budgetSnapshot : Dict) (fresh : ℕ → Stamp)
  /-- The rest of `execute_claimed`, after the Run was triggered. -/
  | settle (worker : UUID) (now : Timestamp) (stamp : Stamp) (fresh : UUID → ℕ → Stamp)
  /-- The database fails in the middle of `execute_claimed`. -/
  | fault (worker : UUID)
  | recordFailure (worker : UUID) (availableAt now : Timestamp)
  /-- The worker gives up what it holds: it crashes, or an exception ends its round. -/
  | abandon (worker : UUID)
  | reconcileExhausted (now : Timestamp)
  /-- A push worker reports what became of a delivery. -/
  | updateDelivery (d : NotificationDelivery)
  /-- A job of another kind is added. -/
  | addJob (job : DurableJob) (hkind : job.kind ≠ .automationOccurrence ∧ job.kind ≠ .pushDelivery)
  /-- A worker of another kind settles its job. -/
  | settleJob (jobId : UUID) (owner : String) (claimEpoch : ℕ) (status : DurableJobStatus)
      (now : Timestamp) (errorCode : Option String) (howner : foreignOwner owner = true)
  | runtime (op : Runtime.Op) (hforeign : foreign op = true)

inductive Reply where
  | raised (error : RuntimeError)
  | done
  | created (count : ℕ)
  | outcome (outcome : WriteOutcome)
  deriving DecidableEq

namespace World

def setWorker (worker : UUID) (phase : Worker) (w : World) : World :=
  { w with workers := Function.update w.workers worker phase }

/-- The transaction of a client that is no worker: it is rolled back where it raises. -/
def answered {α : Type} (w : World) (reply : α → Reply) : Raises (State × α) → World × Reply
  | .ok (s, a) => ({ w with toState := s }, reply a)
  | .error error => (w, .raised error)

/-- What a worker makes of its verdict. -/
def proceed (cal : Calendar) (worker : UUID) (job : DurableJob) (clock : ℕ → Timestamp)
    (budgetSnapshot : Dict) (fresh : ℕ → Stamp) (view : ℕ → State) (w : World) : Verdict → World
  | .lost => w.setWorker worker .idle
  | .settle status errorCode occurrence =>
    let occurrences := match occurrence with
      | some o => OccurrenceRepository.update o w.occurrences
      | none => w.occurrences
    match settleClaim job (workerOwner worker) status (clock 2) errorCode
        { w.toState with occurrences } with
    | some s => { w with toState := s }.setWorker worker .idle
    | none => w.setWorker worker .idle
  | .fire o a =>
    match createAutomationRun (runRequest cal a o) budgetSnapshot fresh
        (fun n => (view (n + 3)).store) w.store with
    | .ok (store, _) => { w with store }.setWorker worker (.triggered job o a)
    | .error _ => w.setWorker worker (.raised job)

/-- What a step makes of the system. -/
def commit (cal : Calendar) (op : Op) (view : ℕ → World) (w : World) : World × Reply :=
  let states n := (view n).toState
  match op with
  | .create c lookups stamp =>
    w.answered .outcome (applyCreateAutomation c lookups stamp states w.toState)
  | .changeStatus c stamp =>
    w.answered .outcome (applyChangeAutomationStatus c stamp states w.toState)
  | .deleteAccount userId now =>
    ({ w with toState := applyAccountDeletion userId now states w.toState }, .done)
  | .rebindThing fromThingId toThingId =>
    ({ w with toState := Automations.rebindThing fromThingId toThingId states w.toState }, .done)
  | .registerPushToken endpoint =>
    match EndpointRepository.upsert endpoint w.endpoints with
    | some endpoints => ({ w with endpoints }, .done)
    | none => (w, .raised .integrityError)
  | .deletePushToken userId deviceId now =>
    let endpoints := EndpointRepository.invalidate
      (fun r => r.userId = userId ∧ r.deviceId = deviceId) now (view 0).endpoints w.endpoints
    ({ w with endpoints }, .done)
  | .processDue occurredAt limit locked taskStatus fresh =>
    w.answered .created (Automations.processDue cal occurredAt limit locked taskStatus fresh w.toState)
  | .claim worker lease now reached locked =>
    match w.workers worker with
    | .idle =>
      let (durableJobs, jobs) := claimReadyJobs .automationOccurrence (workerOwner worker) now
        (now + lease) 1 reached locked w.store.durableJobs
      let w := { w with store := { w.store with durableJobs } }
      match jobs with
      | job :: _ => (w.setWorker worker (.claimed job), .done)
      | [] => (w, .done)
    | _ => (w, .done)
  | .execute worker clock budgetSnapshot fresh =>
    match w.workers worker with
    | .claimed job =>
      match inspect cal job (workerOwner worker) clock states with
      | .ok verdict => (w.proceed cal worker job clock budgetSnapshot fresh states verdict, .done)
      | .error error => (w.setWorker worker (.raised job), .raised error)
    | _ => (w, .done)
  | .settle worker now stamp fresh =>
    match w.workers worker with
    | .triggered job o a =>
      match fireOccurrence cal a o now stamp fresh states w.toState with
      | .ok s =>
        match settleClaim job (workerOwner worker) .completed now none s with
        | some s => ({ w with toState := s }.setWorker worker .idle, .done)
        | none => (w.setWorker worker .idle, .done)
      | .error error => (w.setWorker worker (.raised job), .raised error)
    | _ => (w, .done)
  | .fault worker =>
    match w.workers worker with
    | .claimed job | .triggered job _ _ => (w.setWorker worker (.raised job), .done)
    | _ => (w, .done)
  | .recordFailure worker availableAt now =>
    match w.workers worker with
    | .raised job =>
      match Automations.recordFailure job (workerOwner worker) availableAt now states w.toState with
      | .ok (some s) => ({ w with toState := s }.setWorker worker .idle, .done)
      | .ok none => (w.setWorker worker .idle, .done)
      | .error error => (w.setWorker worker .idle, .raised error)
    | _ => (w, .done)
  | .abandon worker => (w.setWorker worker .idle, .done)
  | .reconcileExhausted now =>
    w.answered (fun _ => .done)
      ((Automations.reconcileExhausted now states w.toState).map (·, ()))
  | .updateDelivery d => ({ w with deliveries := DeliveryRepository.update d w.deliveries }, .done)
  | .addJob job _ =>
    match w.store.addJob job with
    | .ok store => ({ w with store }, .done)
    | .error error => (w, .raised error)
  | .settleJob jobId owner claimEpoch status now errorCode _ =>
    let (durableJobs, _) := DurableJobRepository.settle jobId owner claimEpoch status now errorCode
      w.store.durableJobs
    ({ w with store := { w.store with durableJobs } }, .done)
  | .runtime op _ =>
    ({ w with store := (Runtime.commit op (fun n => (view n).store) w.store).1 }, .done)

end World

/-- Automations: they start with empty tables and idle workers. -/
def system (cal : Calendar) : Program World Op Reply where
  init w := w = {}
  commit := World.commit cal

end Automations
