import Laoshiren.Automations.Proofs.QueueProofs

/-!
# What holds of Automations throughout

An Occurrence and its job settle together, the notification with them. What a worker holds in memory
may be old, but it is an earlier state of rows that are there.
-/

namespace Automations

open Runtime Table
open PersonalState (Calendar)

/-! ## Later states -/

/-- What stays of an Automation: what it is, and that it is over. Its status and its trigger change with
its version, and the trigger never goes back. -/
structure AutomationLater (a a' : Automation) : Prop where
  id : a'.id = a.id
  userId : a'.userId = a.userId
  automationType : a'.automationType = a.automationType
  interval : a'.recurrenceIntervalSeconds = a.recurrenceIntervalSeconds
  definitionRevision : a'.definitionRevision = a.definitionRevision
  version : a.version ≤ a'.version
  unchanged : a'.version = a.version → a'.status = a.status ∧
    a'.nextTriggerAt = a.nextTriggerAt ∧ a'.lastTriggeredAt = a.lastTriggeredAt
  ended : a.status = .cancelled ∨ a.status = .completed → a'.status = a.status
  trigger : ∀ t' ∈ a'.nextTriggerAt, ∃ t ∈ a.nextTriggerAt, t ≤ t'

/-- What stays of an Occurrence: what it is, and how it was settled. -/
structure OccurrenceLater (o o' : AutomationOccurrence) : Prop where
  id : o'.id = o.id
  slot : o'.toSlot = o.toSlot
  userId : o'.userId = o.userId
  job : o'.durableJobId = o.durableJobId
  settled : o.status ≠ .materialized → o'.status = o.status

/-- No row goes away, and each stays what it is. -/
structure Later (s s' : State) : Prop where
  automations : Grows AutomationLater (fun _ => True) s.automations s'.automations
  occurrences : Grows OccurrenceLater (fun _ => True) s.occurrences s'.occurrences
  jobs : Grows JobLater (fun _ => True) s.store.durableJobs s'.store.durableJobs
  runs : Grows SameOrigin (fun _ => True) s.store.runs s'.store.runs
  intents : Grows SameIntent (fun _ => True) s.intents s'.intents
  deliveries : Grows SameDelivery (fun _ => True) s.deliveries s'.deliveries

namespace AutomationLater

theorem refl (a : Automation) : AutomationLater a a :=
  ⟨rfl, rfl, rfl, rfl, rfl, le_rfl, fun _ => ⟨rfl, rfl, rfl⟩, fun _ => rfl,
    fun t ht => ⟨t, ht, le_rfl⟩⟩

theorem trans {a₁ a₂ a₃ : Automation} (h : AutomationLater a₁ a₂) (h' : AutomationLater a₂ a₃) :
    AutomationLater a₁ a₃ where
  id := h'.id.trans h.id
  userId := h'.userId.trans h.userId
  automationType := h'.automationType.trans h.automationType
  interval := h'.interval.trans h.interval
  definitionRevision := h'.definitionRevision.trans h.definitionRevision
  version := h.version.trans h'.version
  unchanged hversion := by
    have hle := h.version
    have hle' := h'.version
    obtain ⟨hstatus, hnext, hlast⟩ := h.unchanged (by omega)
    obtain ⟨hstatus', hnext', hlast'⟩ := h'.unchanged (by omega)
    exact ⟨hstatus'.trans hstatus, hnext'.trans hnext, hlast'.trans hlast⟩
  ended hover := by
    have hstatus := h.ended hover
    rw [← hstatus] at hover
    exact (h'.ended hover).trans hstatus
  trigger t₃ ht₃ := by
    obtain ⟨t₂, ht₂, hle'⟩ := h'.trigger t₃ ht₃
    obtain ⟨t₁, ht₁, hle⟩ := h.trigger t₂ ht₂
    exact ⟨t₁, ht₁, hle.trans hle'⟩

end AutomationLater

namespace OccurrenceLater

theorem refl (o : AutomationOccurrence) : OccurrenceLater o o := ⟨rfl, rfl, rfl, rfl, fun _ => rfl⟩

theorem trans {o₁ o₂ o₃ : AutomationOccurrence} (h : OccurrenceLater o₁ o₂)
    (h' : OccurrenceLater o₂ o₃) : OccurrenceLater o₁ o₃ where
  id := h'.id.trans h.id
  slot := h'.slot.trans h.slot
  userId := h'.userId.trans h.userId
  job := h'.job.trans h.job
  settled hsettled := by
    have hstatus := h.settled hsettled
    rw [← hstatus] at hsettled
    exact (h'.settled hsettled).trans hstatus

end OccurrenceLater

namespace Later

theorem refl (s : State) : Later s s :=
  ⟨.refl .refl _, .refl .refl _, .refl .refl _, .refl .refl _, .refl .refl _, .refl .refl _⟩

theorem trans {s₁ s₂ s₃ : State} (h : Later s₁ s₂) (h' : Later s₂ s₃) : Later s₁ s₃ where
  automations := h.automations.trans h'.automations (fun _ _ _ => .trans) fun _ _ _ _ => trivial
  occurrences := h.occurrences.trans h'.occurrences (fun _ _ _ => .trans) fun _ _ _ _ => trivial
  jobs := h.jobs.trans h'.jobs (fun _ _ _ => .trans) fun _ _ _ _ => trivial
  runs := h.runs.trans h'.runs (fun _ _ _ => .trans) fun _ _ _ _ => trivial
  intents := h.intents.trans h'.intents (fun _ _ _ => .trans) fun _ _ _ _ => trivial
  deliveries := h.deliveries.trans h'.deliveries (fun _ _ _ => .trans) fun _ _ _ _ => trivial

end Later

/-! ## The invariant -/

/-- The status of an Occurrence and the status of its job. -/
inductive Agree : OccurrenceStatus → DurableJobStatus → Prop
  | open {status : DurableJobStatus} (h : Live status ∨ status = .failed) :
      Agree .materialized status
  | succeeded : Agree .succeeded .completed
  | skipped : Agree .skipped .completed
  | failed : Agree .failed .failed

/-- A job of the kind executes an Occurrence, and workers alone hold it. -/
def Executes (occurrences : Table AutomationOccurrence) (j : DurableJob) : Prop :=
  j.kind = .automationOccurrence → WorkerHeld j ∧ ∃ o ∈ occurrences, o.durableJobId = some j.id

/-- An Occurrence was passed over, or it has a job. -/
def Linked (cal : Calendar) (jobs : Table DurableJob) (o : AutomationOccurrence) : Prop :=
  o.durableJobId = none ∧ o.status = .skipped ∨
    ∃ j ∈ jobs, o.durableJobId = some j.id ∧ JobFor cal o j ∧ Agree o.status j.status

/-- The Automation of an Occurrence has moved on. -/
def Owned (automations : Table Automation) (o : AutomationOccurrence) : Prop :=
  ∃ a ∈ automations, a.id = o.automationId ∧ a.userId = o.userId ∧
    a.definitionRevision = o.definitionRevision ∧ ∀ t ∈ a.nextTriggerAt, o.scheduledFor < t

/-- An intent tells of an Occurrence that succeeded. -/
def TellsOf (cal : Calendar) (occurrences : Table AutomationOccurrence) (i : NotificationIntent) :
    Prop :=
  ∃ o ∈ occurrences, o.id = i.occurrenceId ∧ o.status = .succeeded ∧
    i.dedupeKey = o.toSlot.key cal ∧ i.automationId = o.automationId ∧ i.userId = o.userId

/-- The Run of an Automation carries out one of its Occurrences. -/
def CarriesOut (cal : Calendar) (occurrences : Table AutomationOccurrence) (r : AgentRun) : Prop :=
  r.trigger = .automation → ∃ o ∈ occurrences,
    r.userId = o.userId ∧ r.idempotencyKey = "automation-run:" ++ o.toSlot.key cal

structure Fits (cal : Calendar) (s : State) : Prop where
  jobs : ∀ j ∈ s.store.durableJobs, Executes s.occurrences j
  linked : ∀ o ∈ s.occurrences, Linked cal s.store.durableJobs o
  owned : ∀ o ∈ s.occurrences, Owned s.automations o
  intents : ∀ i ∈ s.intents, TellsOf cal s.occurrences i
  succeeded : ∀ o ∈ s.occurrences, o.status = .succeeded → ∃ i ∈ s.intents, i.occurrenceId = o.id
  runs : ∀ r ∈ s.store.runs, CarriesOut cal s.occurrences r
  wellFormed : ∀ a ∈ s.automations, a.WellFormed
  pushed : ∀ d ∈ s.deliveries, ∃ j ∈ s.store.durableJobs, PushFor d j
  pushes : ∀ j ∈ s.store.durableJobs, j.kind = .pushDelivery → ∃ d ∈ s.deliveries, PushFor d j

/-! ## Workers -/

/-- The job that a worker claimed. -/
def KnownJob (s : State) (job : DurableJob) : Prop :=
  job.kind = .automationOccurrence ∧ ∃ j ∈ s.store.durableJobs, JobLater job j

def KnownOccurrence (s : State) (o : AutomationOccurrence) : Prop :=
  ∃ r ∈ s.occurrences, OccurrenceLater o r

def KnownAutomation (s : State) (a : Automation) : Prop :=
  ∃ r ∈ s.automations, AutomationLater a r

/-- What a worker holds is known to the database. -/
inductive WorkerFits (cal : Calendar) (s : State) : Worker → Prop
  | idle : WorkerFits cal s .idle
  | claimed {job : DurableJob} (hjob : KnownJob s job) : WorkerFits cal s (.claimed job)
  | raised {job : DurableJob} (hjob : KnownJob s job) : WorkerFits cal s (.raised job)
  | triggered {job : DurableJob} {o : AutomationOccurrence} {a : Automation} (hjob : KnownJob s job)
      (hfor : JobFor cal o job) (hoccurrence : KnownOccurrence s o)
      (hautomation : KnownAutomation s a) (hid : a.id = o.automationId)
      (huser : a.userId = o.userId) (hheld : a.status ≠ .cancelled) :
      WorkerFits cal s (.triggered job o a)

/-- The invariant of the system. -/
structure Sound (cal : Calendar) (w : World) : Prop where
  fits : Fits cal w.toState
  workers : ∀ worker, WorkerFits cal w.toState (w.workers worker)

variable {cal : Calendar} {s s' : State} {o : AutomationOccurrence} {a : Automation}
  {job : DurableJob}

theorem KnownJob.later (h : KnownJob s job) (hlater : Later s s') : KnownJob s' job := by
  obtain ⟨hkind, j, hj, hjob⟩ := h
  obtain ⟨j', hj', hmove⟩ := hlater.jobs.kept j hj
  exact ⟨hkind, j', hj', hjob.trans hmove⟩

theorem KnownOccurrence.later (h : KnownOccurrence s o) (hlater : Later s s') :
    KnownOccurrence s' o := by
  obtain ⟨r, hr, ho⟩ := h
  obtain ⟨r', hr', hmove⟩ := hlater.occurrences.kept r hr
  exact ⟨r', hr', ho.trans hmove⟩

theorem KnownAutomation.later (h : KnownAutomation s a) (hlater : Later s s') :
    KnownAutomation s' a := by
  obtain ⟨r, hr, ha⟩ := h
  obtain ⟨r', hr', hmove⟩ := hlater.automations.kept r hr
  exact ⟨r', hr', ha.trans hmove⟩

theorem WorkerFits.later {phase : Worker} (h : WorkerFits cal s phase) (hlater : Later s s') :
    WorkerFits cal s' phase := by
  cases h with
  | idle => exact .idle
  | claimed hjob => exact .claimed (hjob.later hlater)
  | raised hjob => exact .raised (hjob.later hlater)
  | triggered hjob hfor ho ha hid huser hheld =>
    exact .triggered (hjob.later hlater) hfor (ho.later hlater) (ha.later hlater) hid huser hheld

/-! ## Reading the invariant -/

/-- Two Occurrences with one id are one. -/
theorem occurrence_eq {r : AutomationOccurrence} (ho : o ∈ s.occurrences) (hr : r ∈ s.occurrences)
    (h : o.id = r.id) : o = r := eq_of_conflict ho hr (.inl h)

theorem job_eq {j : DurableJob} (hjob : job ∈ s.store.durableJobs) (hj : j ∈ s.store.durableJobs)
    (h : job.id = j.id) : job = j := eq_of_conflict hjob hj (.inl h)

theorem automation_eq {r : Automation} (ha : a ∈ s.automations) (hr : r ∈ s.automations)
    (h : a.id = r.id) : a = r := eq_of_conflict ha hr (.inl h)

/-- The Occurrence that a job executes. -/
theorem Fits.occurrenceOf (h : Fits cal s) {j : DurableJob} (hj : j ∈ s.store.durableJobs)
    (hkind : j.kind = .automationOccurrence) :
    ∃ o ∈ s.occurrences, o.durableJobId = some j.id ∧ JobFor cal o j ∧ Agree o.status j.status := by
  obtain ⟨o, ho, hlink⟩ := (h.jobs j hj hkind).2
  rcases h.linked o ho with ⟨hnone, -⟩ | ⟨j', hj', hlink', hfor, hagree⟩
  · rw [hnone] at hlink
    cases hlink
  · obtain rfl := job_eq hj hj' (Option.some.inj (hlink.symm.trans hlink'))
    exact ⟨o, ho, hlink, hfor, hagree⟩

/-- A job that is not over has an Occurrence to execute. -/
theorem Agree.materialized {status : OccurrenceStatus} {jobStatus : DurableJobStatus}
    (h : Agree status jobStatus) (hlive : Live jobStatus) : status = .materialized := by
  rcases hlive with rfl | rfl
  · cases h
    rfl
  · cases h
    rfl

end Automations
