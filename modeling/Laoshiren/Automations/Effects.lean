import Laoshiren.Automations.System
import Laoshiren.Foundation.Growth
import Laoshiren.Runtime.Proofs.CreationProofs

/-!
# What a step of Automations can do

A transaction as atomic effects on the tables, one after the other where it materializes several
Occurrences. An effect names the rows that it replaces as they are when it takes place, and what the
transaction read where it matters later.
-/

namespace Automations

open Runtime Table DurableJobRepository
open PersonalState (Calendar TaskStatus)

/-! ## Jobs -/

/-- The job is not over yet. -/
def Live (status : DurableJobStatus) : Prop := status = .ready ∨ status = .claimed

/-- The job is claimed by an occurrence worker, if it is claimed. -/
def WorkerHeld (j : DurableJob) : Prop :=
  ∀ owner, j.claimedBy = some owner → ∃ worker, owner = workerOwner worker

/-- What stays of a job: what it is about, and that it is over. -/
structure JobLater (j j' : DurableJob) : Prop where
  id : j'.id = j.id
  same : SameJob j j'
  ended : j.kind = .automationOccurrence → ¬Live j.status → j'.status = j.status

/-- What the queue makes of the job of an Occurrence: it gives it up in a sweep alone. -/
structure QueueMove (sweep : Option (Timestamp × (UUID → Bool))) (j j' : DurableJob) : Prop where
  later : JobLater j j'
  live : j.kind = .automationOccurrence → Live j.status → Live j'.status ∨ j'.status = .failed ∧
    ∃ swept ∈ sweep, swept.2 j.id = true ∧ exhaustedWhere swept.1 j = true
  held : j.kind = .automationOccurrence → WorkerHeld j → WorkerHeld j'

/-- A job that has nothing to do with Automations. -/
def OtherKind (j : DurableJob) : Prop := j.kind ≠ .automationOccurrence ∧ j.kind ≠ .pushDelivery

/-- The job executes the Occurrence. -/
structure JobFor (cal : Calendar) (o : AutomationOccurrence) (j : DurableJob) : Prop where
  kind : j.kind = .automationOccurrence
  userId : j.userId = o.userId
  dedupeKey : j.dedupeKey = occurrenceDedupeKey o.id
  payload : j.payload = occurrencePayload cal o

/-- The job pushes the delivery. -/
structure PushFor (d : NotificationDelivery) (j : DurableJob) : Prop where
  kind : j.kind = .pushDelivery
  userId : j.userId = d.userId
  dedupeKey : j.dedupeKey = pushDeliveryDedupeKey d.id
  payload : j.payload = pushPayload d

/-- A job that waits to push a delivery that nobody tried to push yet. -/
structure PushesFirst (d : NotificationDelivery) (j : DurableJob) : Prop extends PushFor d j where
  delivery : d.status = .ready
  status : j.status = .ready
  claimedBy : j.claimedBy = none

/-! ## Runs -/

/-- The columns that tell what a Run was created for. -/
structure SameOrigin (r r' : AgentRun) : Prop where
  id : r'.id = r.id
  trigger : r'.trigger = r.trigger
  userId : r'.userId = r.userId
  idempotencyKey : r'.idempotencyKey = r.idempotencyKey

/-- A Run that belongs to no Automation. -/
def OfUser (r : AgentRun) : Prop := r.trigger ≠ .automation

/-! ## Automations -/

namespace Automation

/-- A watch of a condition is never active, and what recurs has an interval. -/
structure WellFormed (a : Automation) : Prop where
  watching : a.automationType = .conditionWatch ∨ a.automationType = .condition → a.status ≠ .active
  recurring : a.automationType = .recurring → ∃ n ∈ a.recurrenceIntervalSeconds, 60 ≤ n

/-- An Automation that was created just now. -/
structure IsNew (a : Automation) : Prop where
  wellFormed : a.WellFormed
  nextTriggerAt : a.nextTriggerAt ≠ none
  lastTriggeredAt : a.lastTriggeredAt = none

/-- A one-shot Automation that is not over. -/
def Waits (a : Automation) : Prop := isOneShotType a.automationType = true ∧ a.status = .active

end Automation

/-- What a client makes of an Automation, or a scheduler that finds its Task over. -/
inductive StatusMove (op : Op) : Automation → Automation → Prop
  | touched {a : Automation} (thingId : Option UUID) (updatedAt : Timestamp) :
      StatusMove op a { a with thingId, updatedAt }
  | cancelled {a : Automation} (now : Timestamp)
      (h : ¬(a.status = .completed ∨ a.status = .cancelled)) :
      StatusMove op a { a with status := .cancelled, updatedAt := now, version := a.version + 1 }
  | paused {a : Automation} (now : Timestamp) (h : a.status = .active) :
      StatusMove op a { a with status := .paused, updatedAt := now, version := a.version + 1 }
  | resumed {c : ChangeStatus} {stamp : Stamp} {a : Automation} (hop : op = .changeStatus c stamp)
      (hid : a.id = c.automationId) (haction : c.action = "RESUME")
      (htype : a.automationType ≠ .conditionWatch ∧ a.automationType ≠ .condition)
      (h : a.status = .paused) :
      StatusMove op a
        { a with status := .active, updatedAt := stamp.now, version := a.version + 1 }

/-- What becomes of an Automation as an Occurrence ends. -/
inductive CompletionMove : Automation → Automation → Prop
  | kept {a : Automation} : CompletionMove a a
  | completed {a : Automation} (now : Timestamp) (h : a.Waits) :
      CompletionMove a
        { a with status := .completed, updatedAt := now, version := a.version + 1 }

/-- The Automation is over where it was read as one that waits. -/
def Completed (read : Automation) (t : Table Automation) : Prop :=
  read.Waits → ∀ a ∈ t, a.id = read.id → a.status = .completed

/-- An Automation that the transaction creates. -/
structure CreatedBy (op : Op) (a : Automation) : Prop extends a.IsNew where
  op : ∃ c lookups stamp, op = .create c lookups stamp ∧ a.userId = c.userId

/-! ## Notifications -/

/-- An intent, moved to another Thing at most. -/
structure SameIntent (i i' : NotificationIntent) : Prop where
  id : i'.id = i.id
  userId : i'.userId = i.userId
  occurrenceId : i'.occurrenceId = i.occurrenceId
  automationId : i'.automationId = i.automationId
  dedupeKey : i'.dedupeKey = i.dedupeKey

theorem SameIntent.refl (i : NotificationIntent) : SameIntent i i := ⟨rfl, rfl, rfl, rfl, rfl⟩

theorem SameIntent.trans {i₁ i₂ i₃ : NotificationIntent} (h : SameIntent i₁ i₂)
    (h' : SameIntent i₂ i₃) : SameIntent i₁ i₃ where
  id := h'.id.trans h.id
  userId := h'.userId.trans h.userId
  occurrenceId := h'.occurrenceId.trans h.occurrenceId
  automationId := h'.automationId.trans h.automationId
  dedupeKey := h'.dedupeKey.trans h.dedupeKey

/-- A delivery, whatever became of it. -/
structure SameDelivery (d d' : NotificationDelivery) : Prop where
  id : d'.id = d.id
  userId : d'.userId = d.userId
  intentId : d'.intentId = d.intentId
  endpointId : d'.endpointId = d.endpointId

theorem SameDelivery.refl (d : NotificationDelivery) : SameDelivery d d := ⟨rfl, rfl, rfl, rfl⟩

theorem SameDelivery.trans {d₁ d₂ d₃ : NotificationDelivery} (h : SameDelivery d₁ d₂)
    (h' : SameDelivery d₂ d₃) : SameDelivery d₁ d₃ where
  id := h'.id.trans h.id
  userId := h'.userId.trans h.userId
  intentId := h'.intentId.trans h.intentId
  endpointId := h'.endpointId.trans h.endpointId

/-- The deliveries that are added for an intent, each with its job. -/
structure AddsDeliveries (i : NotificationIntent) (deliveries deliveries' : Table NotificationDelivery)
    (jobs jobs' : Table DurableJob) : Prop where
  added : Grows Eq (fun d => d.intentId = i.id ∧ d.status = .ready) deliveries deliveries'
  pushed : ∀ d ∈ deliveries', d ∈ deliveries ∨ ∃ j ∈ jobs', PushFor d j
  queued : Grows Eq (fun j => ∃ d ∈ deliveries', PushesFirst d j) jobs jobs'

/-! ## Steps -/

/-- The sweep of the leases that are over: its time, and the jobs that it gets to. -/
def Op.sweep : Op → Option (Timestamp × (UUID → Bool))
  | .claim _ _ now reached _ => some (now, reached)
  | .runtime op _ => op.sweep
  | _ => none

/-- The steps that change several Automations, one after the other. -/
def Op.loops : Op → Bool
  | .processDue _ _ _ _ _ | .deleteAccount _ _ => true
  | _ => false

/-- The step ends the Occurrence of the job without a notification. -/
inductive Ends (cal : Calendar) (workers : UUID → Worker) (view : ℕ → State) :
    Op → UUID → DurableJob → Prop
  | execute {worker : UUID} {clock : ℕ → Timestamp} {budget : Dict} {fresh : ℕ → Stamp}
      {job : DurableJob} {status : DurableJobStatus} {errorCode : Option String}
      {occurrence : Option AutomationOccurrence} (hphase : workers worker = .claimed job)
      (hread : inspect cal job (workerOwner worker) clock view =
        .ok (.settle status errorCode occurrence)) :
      Ends cal workers view (.execute worker clock budget fresh) worker job
  | giveUp {worker : UUID} {availableAt now : Timestamp} {job : DurableJob}
      (hphase : workers worker = .raised job)
      (hlast : ¬job.deliveryAttempt < job.maxDeliveryAttempts) :
      Ends cal workers view (.recordFailure worker availableAt now) worker job

/-- What ends an Occurrence without a notification: the status of its job and its own. -/
inductive Ending (view : ℕ → State) (o : AutomationOccurrence) :
    DurableJobStatus → OccurrenceStatus → Prop
  | skipped {a : Automation}
      (hread : AutomationRepository.get o.userId o.automationId (view 2).automations = some a)
      (hover : o.definitionRevision ≠ a.definitionRevision ∨ a.status = .cancelled) :
      Ending view o .completed .skipped
  | failed : Ending view o .failed .failed
  | unseen : Ending view o .failed .materialized

/-- What a transaction makes of the tables. -/
inductive Effect (cal : Calendar) (workers : UUID → Worker) (op : Op) (view : ℕ → State)
    (s s' : State) : Prop
  | clients (hautomations : Grows (StatusMove op) (CreatedBy op) s.automations s'.automations)
      (hintents : s.intents.Moves SameIntent s'.intents)
      (hrest : s'.store = s.store ∧ s'.occurrences = s.occurrences ∧ s'.deliveries = s.deliveries)
  | materialized {a : Automation} {o : AutomationOccurrence} {job : DurableJob}
      {occurredAt t : Timestamp} {limit : ℕ} {locked : UUID → Bool}
      {taskStatus : UUID → UUID → Option TaskStatus} {fresh : UUID → ℕ → Stamp}
      (hop : op = .processDue occurredAt limit locked taskStatus fresh)
      (hactive : a.status = .active) (hdue : a.nextTriggerAt = some t) (hpast : t ≤ occurredAt)
      (ho : o = { dueOccurrence a t (fresh a.id 1) with durableJobId := some job.id })
      (hjob : job = occurrenceJob cal o occurredAt (fresh a.id 2))
      (hautomations : Replaces a (a.markTriggered occurredAt) s.automations s'.automations)
      (hnew : ∀ r ∈ s.occurrences, r.toSlot ≠ o.toSlot) (hmem : o ∈ s'.occurrences)
      (hoccurrences : Grows Eq (· = o) s.occurrences s'.occurrences)
      (hqueued : job ∈ s'.store.durableJobs)
      (hjobs : Grows Eq (· = job) s.store.durableJobs s'.store.durableJobs)
      (hrest : s'.store.runs = s.store.runs ∧ s'.intents = s.intents ∧
        s'.deliveries = s.deliveries)
  | passedOver {a : Automation} {o : AutomationOccurrence} {occurredAt t now : Timestamp}
      {limit : ℕ} {locked : UUID → Bool} {taskStatus : UUID → UUID → Option TaskStatus}
      {fresh : UUID → ℕ → Stamp} (hop : op = .processDue occurredAt limit locked taskStatus fresh)
      (hactive : a.status = .active) (hdue : a.nextTriggerAt = some t) (hpast : t ≤ occurredAt)
      (ho : o = { dueOccurrence a t (fresh a.id 1) with
        status := .skipped, settledAt := some occurredAt })
      (hautomations : Replaces a ((a.markTriggered occurredAt).completeOneShot now) s.automations
        s'.automations)
      (hnew : ∀ r ∈ s.occurrences, r.toSlot ≠ o.toSlot) (hmem : o ∈ s'.occurrences)
      (hoccurrences : Grows Eq (· = o) s.occurrences s'.occurrences)
      (hrest : s'.store = s.store ∧ s'.intents = s.intents ∧ s'.deliveries = s.deliveries)
  | run {worker : UUID} {clock : ℕ → Timestamp} {budget : Dict} {fresh : ℕ → Stamp}
      {job : DurableJob} {o : AutomationOccurrence} {a : Automation}
      (hop : op = .execute worker clock budget fresh) (hphase : workers worker = .claimed job)
      (hread : inspect cal job (workerOwner worker) clock view = .ok (.fire o a))
      {row : AutomationOccurrence} (hrow : row ∈ s.occurrences) (hlink : row.durableJobId = some job.id)
      (hslot : row.toSlot = o.toSlot) (huser : row.userId = a.userId)
      (hautomation : a.id = o.automationId)
      (hruns : Grows SameOrigin (fun r => r.userId = a.userId ∧
        r.idempotencyKey = "automation-run:" ++ (slotOf a o).key cal) s.store.runs s'.store.runs)
      (hjobs : Grows (QueueMove none) OtherKind s.store.durableJobs s'.store.durableJobs)
      (hrest : s'.automations = s.automations ∧ s'.occurrences = s.occurrences ∧
        s'.intents = s.intents ∧ s'.deliveries = s.deliveries)
  | ended {worker : UUID} {job j : DurableJob} {o : AutomationOccurrence}
      {status : DurableJobStatus} {outcome : OccurrenceStatus} {now : Timestamp}
      {errorCode : Option String} {settledAt : Option Timestamp}
      (hends : Ends cal workers view op worker job)
      (hclaim : settleWhere job.id (workerOwner worker) job.claimEpoch now j = true)
      (hlink : o.durableJobId = some j.id) (hopen : o.status = .materialized)
      (hending : Ending view o status outcome)
      (hoccurrences : Replaces o { o with status := outcome, settledAt } s.occurrences
        s'.occurrences)
      (hjobs : Replaces j (settleValues status now errorCode j) s.store.durableJobs
        s'.store.durableJobs)
      (hautomations : s.automations.Moves CompletionMove s'.automations)
      (hcompleted : outcome = .failed → ∀ a, AutomationRepository.get o.userId o.automationId
        (view 2).automations = some a → Completed a s'.automations)
      (hrest : s'.store.runs = s.store.runs ∧ s'.intents = s.intents ∧
        s'.deliveries = s.deliveries)
  | fired {worker : UUID} {job j : DurableJob} {o read : AutomationOccurrence} {a : Automation}
      {i : NotificationIntent} {now : Timestamp} {stamp : Stamp} {fresh : UUID → ℕ → Stamp}
      {jobs : Table DurableJob} (hop : op = .settle worker now stamp fresh)
      (hphase : workers worker = .triggered job read a)
      (hclaim : settleWhere job.id (workerOwner worker) job.claimEpoch now j = true)
      (hlink : o.durableJobId = some j.id) (hid : read.id = o.id) (hopen : o.status = .materialized)
      (hautomation : a.id = o.automationId) (huser : a.userId = o.userId)
      (hi : i = reminder cal a o stamp) (hintent : i ∈ s'.intents)
      (hintents : Grows Eq (· = i) s.intents s'.intents)
      (hdeliveries : AddsDeliveries i s.deliveries s'.deliveries s.store.durableJobs jobs)
      (hoccurrences : Replaces o { o with status := .succeeded, settledAt := some now }
        s.occurrences s'.occurrences)
      (hjobs : Replaces j (settleValues .completed now none j) jobs s'.store.durableJobs)
      (hautomations : s.automations.Moves CompletionMove s'.automations)
      (hcompleted : Completed a s'.automations) (hrest : s'.store.runs = s.store.runs)
  | exhausted {now : Timestamp} (hop : op = .reconcileExhausted now)
      (hoccurrences : s.occurrences.Moves (fun o o' => o' = o ∨
        OccurrenceRepository.failExhaustedWhere (view 0).store.durableJobs o = true ∧
          o' = { o with status := .failed, settledAt := some now } ∧
          ∃ n, ∀ a, AutomationRepository.get o.userId o.automationId (view n).automations =
            some a → a.definitionRevision = o.definitionRevision → Completed a s'.automations)
        s'.occurrences)
      (hautomations : s.automations.Moves CompletionMove s'.automations)
      (hrest : s'.store = s.store ∧ s'.intents = s.intents ∧ s'.deliveries = s.deliveries)
  | queue (hruns : Grows SameOrigin OfUser s.store.runs s'.store.runs)
      (hjobs : Grows (QueueMove op.sweep) OtherKind s.store.durableJobs s'.store.durableJobs)
      (hrest : s'.automations = s.automations ∧ s'.occurrences = s.occurrences ∧
        s'.intents = s.intents ∧ s'.deliveries = s.deliveries)
  | deliveries (hdeliveries : s.deliveries.Moves SameDelivery s'.deliveries)
      (hrest : s'.store = s.store ∧ s'.automations = s.automations ∧
        s'.occurrences = s.occurrences ∧ s'.intents = s.intents)

end Automations
