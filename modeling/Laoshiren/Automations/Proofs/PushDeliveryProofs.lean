import Laoshiren.Automations.Proofs.FiringProofs
import Laoshiren.Automations.PushDelivery

/-!
# Proofs: a delivery that was accepted

A delivery has one job, and a job is held by one worker. So as long as a worker that holds its job works
alone on the delivery, it finds it not accepted yet. Only the lease breaks that: nothing in the worker
looks at what was recorded before, so a job that is handed out again is submitted again.
-/

namespace PushDelivery

open Runtime Raise Table DurableJobRepository Automations
open PersonalState (Calendar)

variable {cal : Calendar} {op : Op} {view : ℕ → World} {w w' : World} {d d' : NotificationDelivery}
  {j j' job : DurableJob} {h : History World Op Reply}

/-! ## Conditions -/

/-- The sweep of the leases that are over: its time, and the jobs that it gets to. -/
def Op.sweep : Op → Option (Timestamp × (UUID → Bool))
  | .claim _ _ now reached _ => some (now, reached)
  | .claimOther _ _ now _ _ reached _ _ => some (now, reached)
  | _ => none

/-- No job of the delivery, as far as the rows tell, is for a delivery that was accepted. -/
def Unaccepted (s : State) (j : DurableJob) : Prop :=
  ∀ d ∈ s.deliveries, PushFor d j → d.status ≠ .accepted

/-- The worker still holds the job as it claimed it. -/
def Holds (s : State) (worker : UUID) (job : DurableJob) : Prop :=
  ∃ j ∈ s.store.durableJobs, heldBy job.id (workerOwner worker) job.claimEpoch j = true

/-- A worker submits and records only while it holds its job, and no sweep makes the job of an accepted
delivery ready again. -/
structure Exclusive (op : Op) (w : World) : Prop where
  submit : ∀ worker answer now job, op = .submit worker answer now →
    w.workers worker = .claimed job → Holds w.toState worker job
  record : ∀ worker job d, op = .record worker → w.workers worker = .submitted job d →
    Holds w.toState worker job
  sweep : ∀ swept ∈ op.sweep, ∀ j ∈ w.store.durableJobs, j.kind = .pushDelivery →
    swept.2 j.id = true → retryableWhere swept.1 j = true → Unaccepted w.toState j

/-! ## Jobs -/

/-- The worker that claims. -/
def Op.claimer : Op → Option UUID
  | .claim worker _ _ _ _ => some worker
  | _ => none

/-- The job is still to be worked on. -/
def Unsettled (j : DurableJob) : Prop := j.status = .ready ∨ j.status = .claimed

/-- What a step makes of a job that pushes a delivery. -/
structure JobStep (op : Op) (j j' : DurableJob) : Prop where
  id : j'.id = j.id
  same : SameJob j j'
  ready : j'.status = .ready → j.status = .ready ∨
    ∃ swept ∈ op.sweep, swept.2 j.id = true ∧ retryableWhere swept.1 j = true
  held : ∀ worker jobId claimEpoch, op.claimer ≠ some worker →
    heldBy jobId (workerOwner worker) claimEpoch j' = true →
      heldBy jobId (workerOwner worker) claimEpoch j = true
  unsettled : Unsettled j' → Unsettled j

theorem JobStep.refl (j : DurableJob) : JobStep op j j :=
  ⟨rfl, .refl j, .inl, fun _ _ _ _ hheld => hheld, fun h => h⟩

theorem workerOwner_injective : Function.Injective workerOwner :=
  fun _ _ h => UUID.str_injective ((String.append_right_inj _).mp h)

theorem claimed_of_retryable {now : Timestamp} (h : retryableWhere now j = true) :
    j.status = .claimed := by
  simp only [retryableWhere, expired, Bool.and_eq_true, decide_eq_true_eq] at h
  exact h.1.1

variable (op) in
theorem JobStep.of_swept {now : Timestamp} {reached : UUID → Bool} (hop : op.sweep = some (now, reached))
    (h : SweepMove now reached j j') : JobStep op j j' := by
  cases h with
  | kept => exact .refl j
  | requeued hreached hp =>
    refine ⟨rfl, ⟨rfl, rfl, rfl, rfl⟩, fun _ => .inr ⟨_, hop, hreached, hp⟩,
      fun _ _ _ _ hheld => ?_, fun _ => .inr (claimed_of_retryable hp)⟩
    cases (heldBy_iff.mp hheld).2.1
  | givenUp hreached hp =>
    refine ⟨rfl, ⟨rfl, rfl, rfl, rfl⟩, fun hready => (by cases hready), fun _ _ _ _ hheld => ?_,
      fun hunsettled => (by rcases hunsettled with h | h <;> cases h)⟩
    cases (heldBy_iff.mp hheld).2.1

theorem claimReadyWhere_iff {kind : DurableJobKind} {now : Timestamp} :
    claimReadyWhere kind now j = true ↔ j.kind = kind ∧ j.status = .ready ∧ j.availableAt ≤ now := by
  simp [claimReadyWhere]

/-- What the claim of a push worker makes of a job. -/
theorem jobStep_claim {worker : UUID} {lease : ℤ} {now leaseUntil : Timestamp}
    {reached locked : UUID → Bool} (hop : op = .claim worker lease now reached locked)
    (h : ClaimMove .pushDelivery (workerOwner worker) now leaseUntil reached j j') :
    JobStep op j j' := by
  have hsweep : op.sweep = some (now, reached) := by rw [hop]; rfl
  cases h with
  | swept hswept => exact .of_swept op hsweep hswept
  | claimed hswept hp =>
    have hstep := JobStep.of_swept op hsweep hswept
    refine ⟨hstep.id, ⟨hstep.same.userId, hstep.same.kind, hstep.same.dedupeKey,
      hstep.same.payload⟩, fun hready => (by cases hready), ?_,
      fun _ => hstep.unsettled (.inl (claimReadyWhere_iff.mp hp).2.1)⟩
    intro other _ _ hother hheld
    have howner : some (workerOwner worker) = some (workerOwner other) := (heldBy_iff.mp hheld).2.2.1
    have hclaimer : op.claimer = some worker := by rw [hop]; rfl
    exact absurd (hclaimer.trans (congrArg some (workerOwner_injective (Option.some.inj howner))))
      hother

/-- What the claim of another worker makes of a job that pushes a delivery. -/
theorem jobStep_claimOther {kind : DurableJobKind} {owner : String} {now leaseUntil : Timestamp}
    {reached : UUID → Bool} (hkind : kind ≠ .pushDelivery) (hpush : j'.kind = .pushDelivery)
    (hsweep : op.sweep = some (now, reached))
    (h : ClaimMove kind owner now leaseUntil reached j j') : JobStep op j j' := by
  cases h with
  | swept hswept => exact .of_swept op hsweep hswept
  | claimed _ hp => exact absurd ((claimReadyWhere_iff.mp hp).1.symm.trans hpush) hkind

/-! ## Steps -/

/-- What a step makes of a delivery. -/
def DeliveryStep (op : Op) (w : World) (d d' : NotificationDelivery) : Prop :=
  d' = d ∨ ∃ worker job r, op = .record worker ∧ w.workers worker = .submitted job r ∧ r.id = d.id ∧
    d' = DeliveryRepository.updateValues r d

/-- A job that a notification added waits to push a delivery that nobody tried to push yet. -/
def NewJob (op : Op) (s : State) (j : DurableJob) : Prop :=
  (∃ a o stamp fresh, op = .notify a o stamp fresh) ∧ j.status = .ready ∧ ∃ d ∈ s.deliveries, PushFor d j ∧ d.status = .ready

/-- The jobs and the deliveries of a step. -/
structure Steps (op : Op) (w : World) (s' : State) : Prop where
  kept : ∀ j ∈ w.store.durableJobs, j.kind = .pushDelivery → ∃ j' ∈ s'.store.durableJobs,
    JobStep op j j'
  origin : ∀ j' ∈ s'.store.durableJobs, j'.kind = .pushDelivery →
    (∃ j ∈ w.store.durableJobs, JobStep op j j') ∨ NewJob op s' j'
  deliveries : Grows (DeliveryStep op w) (fun d => d.status = .ready) w.deliveries s'.deliveries

/-- A step that moves the jobs and leaves the deliveries alone. -/
theorem Steps.of_moves {s' : State} {R : DurableJob → DurableJob → Prop}
    (hmoves : w.store.durableJobs.Moves R s'.store.durableJobs)
    (hR : ∀ j j', R j j' → j'.kind = j.kind ∧ (j'.kind = .pushDelivery → JobStep op j j'))
    (hdeliveries : s'.deliveries = w.deliveries) : Steps op w s' where
  kept j hj hkind := by
    obtain ⟨j', hj', hmove⟩ := hmoves.exists_mem hj
    obtain ⟨hsame, hstep⟩ := hR j j' hmove
    exact ⟨j', hj', hstep (hsame.trans hkind)⟩
  origin j' hj' hkind := by
    obtain ⟨j, hj, hmove⟩ := hmoves.mem hj'
    exact .inl ⟨j, hj, (hR j j' hmove).2 hkind⟩
  deliveries := by
    rw [hdeliveries]
    exact .refl (fun _ => .inl rfl) _

theorem Steps.refl : Steps op w w.toState :=
  .of_moves (R := Eq) (.refl (fun _ => rfl) _) (fun j _ h => h ▸ ⟨rfl, fun _ => .refl j⟩) rfl

theorem steps_notify {a : Automation} {o : AutomationOccurrence} {stamp : Stamp}
    {fresh : UUID → ℕ → Stamp} {states : ℕ → State} {s' : State}
    (h : createReminderNotification cal a o stamp fresh states w.toState = .ok s') :
    Steps (.notify a o stamp fresh) w s' := by
  unfold createReminderNotification at h
  split at h
  · obtain rfl := pure_eq_ok.mp h
    exact .refl
  · simp only [bind_eq_ok, orRaise_eq_ok, Prod.exists] at h
    obtain ⟨intents, added, -, h⟩ := h
    split at h
    · obtain ⟨deliveries, durableJobs, rfl, hadds⟩ := addDeliveries_spec h
      refine ⟨fun j hj _ => ?_, fun j' hj' _ => ?_, hadds.added.imp (fun _ _ h => .inl h.symm) ?_⟩
      · obtain ⟨_, hj', rfl⟩ := hadds.queued.kept j hj
        exact ⟨j, hj', .refl j⟩
      · rcases hadds.queued.origin j' hj' with ⟨j, hj, rfl⟩ | ⟨d, hd, hpush⟩
        · exact .inl ⟨j, hj, .refl j⟩
        · exact .inr ⟨⟨a, o, stamp, fresh, rfl⟩, hpush.status, d, hd, hpush.toPushFor, hpush.delivery⟩
      · exact fun _ => And.right
    · obtain rfl := pure_eq_ok.mp h
      exact .of_moves (R := Eq) (.refl (fun _ => rfl) _) (fun j _ h => h ▸ ⟨rfl, fun _ => .refl j⟩) rfl

/-- A step on the tables and on the phase of one worker. -/
theorem toState_setWorker (worker : UUID) (phase : Worker) :
    (w.setWorker worker phase).toState = w.toState := rfl

variable (cal view) in
theorem commit_steps (op : Op) : Steps op w (World.commit cal op view w).1.toState := by
  cases op with
  | notify a o stamp fresh =>
    simp only [World.commit]
    split
    next s hs => exact steps_notify hs
    next => exact .refl
  | claim worker lease now reached locked =>
    simp only [World.commit]
    split
    next =>
      have hsteps : Steps (.claim worker lease now reached locked) w { w.toState with
          store := { w.store with durableJobs := (claimReadyJobs .pushDelivery (workerOwner worker)
            now (now + lease) 1 reached locked w.store.durableJobs).1 } } :=
        .of_moves claimMove_claimReadyJobs (fun j j' hmove => ⟨hmove.same.kind,
          fun _ => jobStep_claim rfl hmove⟩) rfl
      split <;> exact hsteps
    next => exact .refl
  | submit worker answer now =>
    simp only [World.commit]
    split
    · split <;> exact .refl
    · exact .refl
  | record worker =>
    simp only [World.commit]
    split
    next job r hphase =>
      refine ⟨fun j hj _ => ⟨j, hj, .refl j⟩, fun j hj _ => .inl ⟨j, hj, .refl j⟩, ?_⟩
      refine .update (fun _ => .inl rfl) fun d _ hp => ?_
      exact .inr ⟨worker, job, r, rfl, hphase, (of_decide_eq_true hp).symm, rfl⟩
    next => exact .refl
  | settle worker now =>
    simp only [World.commit]
    split
    · split
      next s hs =>
        obtain ⟨j₁, durableJobs, hclaim, hjobs, rfl⟩ := settleClaim_eq_some hs
        refine .of_moves hjobs.2 (fun j j' hmove => ?_) rfl
        rcases hmove with ⟨rfl, rfl⟩ | ⟨-, rfl⟩
        · refine ⟨rfl, fun _ => ⟨rfl, ⟨rfl, rfl, rfl, rfl⟩, fun hready => (by cases hready),
            fun _ _ _ _ hheld => ?_, fun hunsettled => (by rcases hunsettled with h | h <;> cases h)⟩⟩
          cases (heldBy_iff.mp hheld).2.1
        · exact ⟨rfl, fun _ => .refl _⟩
      next => exact .refl
    · exact .refl
  | crash worker => exact .refl
  | claimOther kind owner now leaseUntil limit reached locked hkind =>
    exact .of_moves claimMove_claimReadyJobs (fun j j' hmove => ⟨hmove.same.kind,
      fun hpush => jobStep_claimOther hkind hpush rfl hmove⟩) rfl
  | other change hforeign =>
    have hchange := hforeign w.toState
    refine ⟨fun j hj hkind => ⟨j, (hchange.jobs j hkind).mpr hj, .refl j⟩,
      fun j hj hkind => .inl ⟨j, (hchange.jobs j hkind).mp hj, .refl j⟩, ?_⟩
    show Grows _ _ _ (change w.toState).deliveries
    rw [hchange.deliveries]
    exact .refl (fun _ => .inl rfl) _

/-! ## The invariant -/

/-- The job that a worker claimed. -/
def KnownJob (s : State) (job : DurableJob) : Prop :=
  job.kind = .pushDelivery ∧ ∃ j ∈ s.store.durableJobs, j.id = job.id ∧ SameJob job j

/-- While the worker holds the job, the delivery of the job is not accepted. -/
def HeldOpen (s : State) (worker : UUID) (job : DurableJob) : Prop :=
  ∀ j ∈ s.store.durableJobs, heldBy job.id (workerOwner worker) job.claimEpoch j = true →
    Unaccepted s j

inductive WorkerFits (s : State) (worker : UUID) : Worker → Prop
  | idle : WorkerFits s worker .idle
  | handled {job : DurableJob} : WorkerFits s worker (.handled job)
  | claimed {job : DurableJob} (hknown : KnownJob s job) (hopen : HeldOpen s worker job) :
      WorkerFits s worker (.claimed job)
  | submitted {job : DurableJob} {d r : NotificationDelivery} (hknown : KnownJob s job)
      (hopen : HeldOpen s worker job) (hr : r ∈ s.deliveries) (hid : d.id = r.id)
      (hpush : PushFor r job) : WorkerFits s worker (.submitted job d)

structure Fits (w : World) : Prop where
  pushes : ∀ j ∈ w.store.durableJobs, j.kind = .pushDelivery → ∃ d ∈ w.deliveries, PushFor d j
  ready : ∀ j ∈ w.store.durableJobs, j.kind = .pushDelivery → j.status = .ready →
    Unaccepted w.toState j
  workers : ∀ worker, WorkerFits w.toState worker (w.workers worker)

/-- What is accepted is submitted no more, and stays accepted. -/
def Recorded (v w : World) : Prop :=
  ∀ d ∈ v.deliveries, d.status = .accepted →
    w.submissions.count d.id = v.submissions.count d.id ∧
      ∃ d' ∈ w.deliveries, d'.id = d.id ∧ d'.status = .accepted

theorem Recorded.refl (w : World) : Recorded w w :=
  fun d hd haccepted => ⟨rfl, d, hd, rfl, haccepted⟩

theorem Recorded.trans {u : World} (h : Recorded u w) (h' : Recorded w w') : Recorded u w' := by
  intro d hd haccepted
  obtain ⟨hcount, d₁, hd₁, hid, haccepted₁⟩ := h d hd haccepted
  obtain ⟨hcount', d₂, hd₂, hid', haccepted₂⟩ := h' d₁ hd₁ haccepted₁
  rw [hid] at hcount' hid'
  exact ⟨hcount'.trans hcount, d₂, hd₂, hid', haccepted₂⟩

/-! ## Deliveries and their jobs -/

theorem delivery_eq {s : State} (hd : d ∈ s.deliveries) (hd' : d' ∈ s.deliveries)
    (h : d.id = d'.id) : d = d' := eq_of_conflict hd hd' (.inl h)

theorem pushFor_of_sameJob (h : PushFor d j) (hj : SameJob j j') : PushFor d j' := h.move (.refl d) hj

/-- A delivery has one job. -/
theorem job_unique {s : State} (hj : j ∈ s.store.durableJobs) (hj' : j' ∈ s.store.durableJobs)
    (h : PushFor d j) (h' : PushFor d j') : j = j' :=
  eq_of_conflict hj hj' (.inr ⟨h.userId.trans h'.userId.symm, h.dedupeKey.trans h'.dedupeKey.symm⟩)

/-- A job has one delivery. -/
theorem pushFor_id (h : PushFor d j) (h' : PushFor d' j) : d.id = d'.id :=
  pushPayload_inj (h.payload.symm.trans h'.payload)

theorem pushFor_payloadId (h : PushFor d job) {id : UUID}
    (hid : payloadId job "delivery_id" = .ok id) : id = d.id := by
  refine payloadId_eq_ok ?_ hid
  rw [h.payload, pushPayload, Dict.get_ofFields]
  rfl

theorem DeliveryStep.same (h : DeliveryStep op w d d') : SameDelivery d d' := by
  rcases h with rfl | ⟨worker, job, r, -, -, -, rfl⟩
  · exact .refl d'
  · exact ⟨rfl, rfl, rfl, rfl⟩

theorem KnownJob.step {s' : State} (h : KnownJob w.toState job) (hsteps : Steps op w s') :
    KnownJob s' job := by
  obtain ⟨hkind, j, hj, hid, hsame⟩ := h
  obtain ⟨j', hj', hstep⟩ := hsteps.kept j hj (hsame.kind.trans hkind)
  exact ⟨hkind, j', hj', hstep.id.trans hid, hsame.trans hstep.same⟩

/-- The row of the job that a worker holds. -/
theorem KnownJob.row {s : State} (h : KnownJob s job) (hj : j ∈ s.store.durableJobs)
    (hid : j.id = job.id) : SameJob job j := by
  obtain ⟨-, r, hr, hrid, hsame⟩ := h
  rwa [eq_of_conflict hj hr (.inl (hid.trans hrid.symm))]

/-- The worker that records a delivery holds the job of the delivery. -/
theorem record_holds (hfits : Fits w) (hexclusive : Exclusive op w) {worker : UUID}
    {r : NotificationDelivery} (hop : op = .record worker)
    (hphase : w.workers worker = .submitted job r) (hd : d ∈ w.deliveries) (hid : r.id = d.id)
    (hj : j ∈ w.store.durableJobs) (hpush : PushFor d j) :
    heldBy job.id (workerOwner worker) job.claimEpoch j = true ∧ HeldOpen w.toState worker job := by
  have hworker := hfits.workers worker
  rw [hphase] at hworker
  cases hworker with
  | submitted hknown hopen hr hrid hrpush =>
    obtain rfl := delivery_eq hd hr (hid.symm.trans hrid)
    obtain ⟨k, hk, hheld⟩ := hexclusive.record worker job r hop hphase
    have hsame := hknown.row hk (heldBy_iff.mp hheld).1
    obtain rfl := job_unique hj hk hpush (pushFor_of_sameJob hrpush hsame)
    exact ⟨hheld, hopen⟩

/-- A job whose delivery was not accepted, unless it is accepted now. -/
theorem unaccepted_step {s' : State} (hsteps : Steps op w s') (hopen : Unaccepted w.toState j)
    (hsame : SameJob j j')
    (hother : ∀ worker job r d, op = .record worker → w.workers worker = .submitted job r →
      d ∈ w.deliveries → r.id = d.id → ¬PushFor d j) : Unaccepted s' j' := by
  intro d' hd' hpush'
  rcases hsteps.deliveries.origin d' hd' with ⟨d, hd, hmove⟩ | hready
  · have hmoved := hmove.same
    have hpush : PushFor d j :=
      hpush'.move ⟨hmoved.id.symm, hmoved.userId.symm, hmoved.intentId.symm, hmoved.endpointId.symm⟩
        (hsame.symm)
    rcases hmove with rfl | ⟨worker, job, r, hop, hphase, hid, -⟩
    · exact hopen d' hd hpush
    · exact absurd hpush (hother worker job r d hop hphase hd hid)
  · simp [hready]

/-! ## One step -/

/-- A job that is ready after a step is for a delivery that was not accepted. -/
theorem ready_step {s' : State} (hfits : Fits w) (hexclusive : Exclusive op w)
    (hsteps : Steps op w s') : ∀ j' ∈ s'.store.durableJobs, j'.kind = .pushDelivery →
      j'.status = .ready → Unaccepted s' j' := by
  intro j' hj' hkind' hready'
  rcases hsteps.origin j' hj' hkind' with ⟨j, hj, hstep⟩ | ⟨-, -, r, hr, hrpush, hrready⟩
  · have hkind : j.kind = .pushDelivery := hstep.same.kind.symm.trans hkind'
    have hopen : Unaccepted w.toState j := by
      rcases hstep.ready hready' with hready | ⟨swept, hswept, hreached, hretry⟩
      · exact hfits.ready j hj hkind hready
      · exact hexclusive.sweep swept hswept j hj hkind hreached hretry
    refine unaccepted_step hsteps hopen hstep.same fun worker job r d hop hphase hd hid hpush => ?_
    -- the one who records holds the job, so it is not ready
    have hheld := (record_holds hfits hexclusive hop hphase hd hid hj hpush).1
    have hclaimed := (heldBy_iff.mp hheld).2.1
    rcases hstep.ready hready' with hready | ⟨swept, hswept, -⟩
    · rw [hready] at hclaimed
      cases hclaimed
    · rw [hop] at hswept
      cases hswept
  · intro d' hd' hpush'
    rw [delivery_eq hd' hr (pushFor_id hpush' hrpush), hrready]
    decide

/-- A worker that did not take the step, or is still at its job. -/
theorem heldOpen_step {s' : State} {worker : UUID} (hfits : Fits w) (hexclusive : Exclusive op w)
    (hsteps : Steps op w s') (hclaimer : op.claimer ≠ some worker)
    (hrecord : op ≠ .record worker) (hknown : KnownJob w.toState job)
    (hopen : HeldOpen w.toState worker job) : HeldOpen s' worker job := by
  intro j' hj' hheld'
  have hknown' := hknown.step hsteps
  have hkind' : j'.kind = .pushDelivery :=
    (hknown'.row hj' (heldBy_iff.mp hheld').1).kind.trans hknown.1
  rcases hsteps.origin j' hj' hkind' with ⟨j, hj, hstep⟩ | ⟨-, hready, -⟩
  · have hheld := hstep.held worker job.id job.claimEpoch hclaimer hheld'
    refine unaccepted_step hsteps (hopen j hj hheld) hstep.same ?_
    intro other job' r d hop hphase hd hid hpush
    have hheldOther := (record_holds hfits hexclusive hop hphase hd hid hj hpush).1
    have howner : some (workerOwner other) = some (workerOwner worker) :=
      (heldBy_iff.mp hheldOther).2.2.1.symm.trans (heldBy_iff.mp hheld).2.2.1
    have hsame := workerOwner_injective (Option.some.inj howner)
    exact hrecord (hsame ▸ hop)
  · have hclaimed := (heldBy_iff.mp hheld').2.1
    rw [hready] at hclaimed
    cases hclaimed

/-- The worker goes on with what it held. -/
theorem workerFits_step {s' : State} {worker : UUID} {phase : Worker} (hfits : Fits w)
    (hexclusive : Exclusive op w) (hsteps : Steps op w s') (hclaimer : op.claimer ≠ some worker)
    (hrecord : op ≠ .record worker) (h : WorkerFits w.toState worker phase) :
    WorkerFits s' worker phase := by
  cases h with
  | idle => exact .idle
  | handled => exact .handled
  | claimed hknown hopen =>
    exact .claimed (hknown.step hsteps)
      (heldOpen_step hfits hexclusive hsteps hclaimer hrecord hknown hopen)
  | submitted hknown hopen hr hid hpush =>
    obtain ⟨r', hr', hmove⟩ := hsteps.deliveries.kept _ hr
    exact .submitted (hknown.step hsteps)
      (heldOpen_step hfits hexclusive hsteps hclaimer hrecord hknown hopen) hr'
      (hid.trans hmove.same.id.symm) (hpush.move hmove.same (.refl _))

/-- Every delivery that the worker of a job may submit is the one of its job. -/
theorem readDelivery_spec {states : ℕ → State} (h : readDelivery job states = .ok (some d)) :
    payloadId job "delivery_id" = .ok d.id := by
  simp only [readDelivery, bind_eq_ok] at h
  obtain ⟨deliveryId, hid, intentId, -, endpointId, -, h⟩ := h
  split at h
  next r i e hr hi he =>
    obtain rfl := Option.some.inj (pure_eq_ok.mp h)
    rw [hid, of_decide_eq_true (get_eq_some hr).2]
  next => cases pure_eq_ok.mp h

/-- The delivery that a worker submits, as its row is. -/
theorem submitted_row {states : ℕ → State}
    (hpushes : ∀ j ∈ w.store.durableJobs, j.kind = .pushDelivery → ∃ d ∈ w.deliveries, PushFor d j)
    (hknown : KnownJob w.toState job) (h : readDelivery job states = .ok (some d)) :
    ∃ r ∈ w.deliveries, d.id = r.id ∧ PushFor r job := by
  obtain ⟨hkind, j, hj, -, hsame⟩ := hknown
  obtain ⟨r, hr, hpush⟩ := hpushes j hj (hsame.kind.trans hkind)
  have hpush' := pushFor_of_sameJob hpush (hsame.symm)
  exact ⟨r, hr, pushFor_payloadId hpush' (readDelivery_spec h), hpush'⟩

/-- A job that a push worker claims is for a delivery that was not accepted. -/
theorem claimed_open {worker : UUID} {lease : ℤ} {now : Timestamp} {reached locked : UUID → Bool}
    (hfits : Fits w) (hexclusive : Exclusive (.claim worker lease now reached locked) w)
    (h : job ∈ (claimReadyJobs .pushDelivery (workerOwner worker) now (now + lease) 1 reached locked
      w.store.durableJobs).2) : Unaccepted w.toState job := by
  obtain ⟨-, hkind, j₁, hj₁, hwhere, rfl⟩ := mem_of_claimed h
  obtain ⟨j, hj, hmove⟩ := (sweepMove_requeueExpired now reached).mem hj₁
  have hkind' : j.kind = .pushDelivery := hmove.same.kind.symm.trans hkind
  intro d hd hpush
  cases hmove with
  | kept =>
    exact hfits.ready _ hj hkind' (claimReadyWhere_iff.mp hwhere).2.1 d hd
      (pushFor_of_sameJob hpush ⟨rfl, rfl, rfl, rfl⟩)
  | requeued hreached hp =>
    exact hexclusive.sweep _ rfl _ hj hkind' hreached hp d hd
      (pushFor_of_sameJob hpush ⟨rfl, rfl, rfl, rfl⟩)
  | givenUp => cases (claimReadyWhere_iff.mp hwhere).2.1

/-- The worker that takes the step gets to its next phase. -/
theorem workers_setWorker {worker : UUID} {phase : Worker}
    (hphase : WorkerFits w'.toState worker phase)
    (hothers : ∀ other, other ≠ worker → WorkerFits w'.toState other (w'.workers other)) :
    ∀ other, WorkerFits (w'.setWorker worker phase).toState other
      ((w'.setWorker worker phase).workers other) := by
  intro other
  show WorkerFits w'.toState other (Function.update w'.workers worker phase other)
  by_cases hother : other = worker
  · subst hother
    rwa [Function.update_self]
  · rw [Function.update_of_ne hother]
    exact hothers other hother

/-- The workers after a step, from those that did not take it. -/
theorem workers_step {s' : State} (hfits : Fits w) (hexclusive : Exclusive op w)
    (hsteps : Steps op w s') {worker : UUID} (hclaimer : op.claimer ≠ some worker)
    (hrecord : op ≠ .record worker) : WorkerFits s' worker (w.workers worker) :=
  workerFits_step hfits hexclusive hsteps hclaimer hrecord (hfits.workers worker)

/-- The claim of a push worker. -/
theorem workers_claim {worker : UUID} {lease : ℤ} {now : Timestamp} {reached locked : UUID → Bool}
    (hfits : Fits w) (hexclusive : Exclusive (.claim worker lease now reached locked) w) :
    ∀ other, WorkerFits
      (World.commit cal (.claim worker lease now reached locked) view w).1.toState other
      ((World.commit cal (.claim worker lease now reached locked) view w).1.workers other) := by
  have hsteps := commit_steps cal view (w := w)
    (.claim worker lease now reached locked)
  simp only [World.commit] at hsteps ⊢
  cases hphase : w.workers worker with
  | idle =>
    rw [hphase] at hsteps
    rcases hclaim : claimReadyJobs .pushDelivery (workerOwner worker) now (now + lease) 1 reached
      locked w.store.durableJobs with ⟨durableJobs, claimed⟩
    simp only [hclaim] at hsteps ⊢
    have hothers : ∀ other, other ≠ worker → WorkerFits { w.toState with
        store := { w.store with durableJobs } } other (w.workers other) := by
      intro other hother
      refine workers_step hfits hexclusive ?_ ?_ (by simp)
      · cases claimed with
        | nil => exact hsteps
        | cons => exact hsteps
      · exact fun hclaimer => hother (Option.some.inj hclaimer).symm
    cases claimed with
    | nil =>
      intro other
      by_cases hother : other = worker
      · rw [hother]
        show WorkerFits _ worker (w.workers worker)
        rw [hphase]
        exact .idle
      · exact hothers other hother
    | cons job rest =>
      have hmem : job ∈ (claimReadyJobs .pushDelivery (workerOwner worker) now (now + lease) 1 reached
          locked w.store.durableJobs).2 := by
        rw [hclaim]
        exact .head _
      have hopen : Unaccepted w.toState job := claimed_open hfits hexclusive hmem
      obtain ⟨hthere, hkind, -⟩ := mem_of_claimed hmem
      rw [hclaim] at hthere
      refine workers_setWorker
        (.claimed ⟨hkind, job, hthere, rfl, .refl job⟩ ?_) hothers
      intro j hj hheld
      obtain rfl : j = job := eq_of_conflict hj hthere (.inl (heldBy_iff.mp hheld).1)
      exact fun d hd => hopen d hd
  | claimed | submitted | handled => exact hfits.workers

/-- The submission of a delivery. -/
theorem workers_submit {worker : UUID} {answer : Bool} {now : Timestamp} (hfits : Fits w)
    (hexclusive : Exclusive (.submit worker answer now) w) :
    ∀ other, WorkerFits (World.commit cal (.submit worker answer now) view w).1.toState other
      ((World.commit cal (.submit worker answer now) view w).1.workers other) := by
  have hworker := hfits.workers worker
  simp only [World.commit]
  split
  next job hphase =>
    rw [hphase] at hworker
    cases hworker with
    | claimed hknown hopen =>
      split
      next d hread =>
        obtain ⟨r, hr, hid, hpush⟩ := submitted_row hfits.pushes hknown hread
        have hid' : (answered answer now d).id = r.id := by
          cases answer <;> exact hid
        exact workers_setWorker
          (.submitted hknown hopen hr hid' hpush) fun other _ => hfits.workers other
      next => exact workers_setWorker .handled fun other _ => hfits.workers other
      next => exact workers_setWorker .idle fun other _ => hfits.workers other
  next => exact hfits.workers

theorem commit_workers (hfits : Fits w) (hexclusive : Exclusive op w) :
    ∀ worker, WorkerFits (World.commit cal op view w).1.toState worker
      ((World.commit cal op view w).1.workers worker) := by
  have hsteps := commit_steps cal view (w := w) op
  cases op with
  | notify a o stamp fresh =>
    have hworkers : (World.commit cal (.notify a o stamp fresh) view w).1.workers = w.workers := by
      simp only [World.commit]
      split <;> rfl
    intro worker
    rw [hworkers]
    exact workers_step hfits hexclusive hsteps (by simp [Op.claimer]) (by simp)
  | claim worker lease now reached locked => exact workers_claim hfits hexclusive
  | submit worker answer now => exact workers_submit hfits hexclusive
  | record worker =>
    have hothers : ∀ other, other ≠ worker → WorkerFits
        (World.commit cal (.record worker) view w).1.toState other (w.workers other) := by
      intro other hother
      exact workers_step hfits hexclusive hsteps (by simp [Op.claimer])
        fun hop => hother (Op.record.inj hop).symm
    simp only [World.commit] at hothers ⊢
    cases hphase : w.workers worker with
    | submitted job d =>
      rw [hphase] at hothers
      exact workers_setWorker
        .handled hothers
    | idle | claimed | handled => exact hfits.workers
  | settle worker now =>
    have hothers : ∀ other, WorkerFits
        (World.commit cal (.settle worker now) view w).1.toState other (w.workers other) := by
      intro other
      exact workers_step hfits hexclusive hsteps (by simp [Op.claimer]) (by simp)
    simp only [World.commit] at hothers ⊢
    cases hphase : w.workers worker with
    | handled job =>
      rw [hphase] at hothers
      simp only at hothers ⊢
      split at hothers
      next s hs =>
        exact workers_setWorker .idle fun other _ => hothers other
      next hs => exact workers_setWorker .idle fun other _ => hothers other
    | idle | claimed | submitted => exact hfits.workers
  | crash worker =>
    refine workers_setWorker .idle fun other hother => ?_
    exact workers_step hfits hexclusive hsteps (by simp [Op.claimer]) (by simp)
  | claimOther kind owner now leaseUntil limit reached locked hkind =>
    intro worker
    exact workers_step hfits hexclusive hsteps (by simp [Op.claimer]) (by simp)
  | other change hforeign =>
    intro worker
    exact workers_step hfits hexclusive hsteps (by simp [Op.claimer]) (by simp)

theorem commit_fits (hfits : Fits w) (hexclusive : Exclusive op w) :
    Fits (World.commit cal op view w).1 where
  pushes j' hj' hkind' := by
    have hsteps := commit_steps cal view (w := w) op
    rcases hsteps.origin j' hj' hkind' with ⟨j, hj, hstep⟩ | ⟨-, -, d, hd, hpush, -⟩
    · obtain ⟨d, hd, hpush⟩ := hfits.pushes j hj (hstep.same.kind.symm.trans hkind')
      obtain ⟨d', hd', hmove⟩ := hsteps.deliveries.kept d hd
      exact ⟨d', hd', hpush.move hmove.same hstep.same⟩
    · exact ⟨d, hd, hpush⟩
  ready := ready_step hfits hexclusive (commit_steps cal view op)
  workers := commit_workers hfits hexclusive

/-- What a worker that holds its job is at is not accepted yet. -/
theorem not_accepted_of_held {s : State} {worker : UUID} (hknown : KnownJob s job)
    (hopen : HeldOpen s worker job) (hholds : Holds s worker job) (hd : d ∈ s.deliveries)
    (hpush : PushFor d job) : d.status ≠ .accepted := by
  obtain ⟨k, hk, hheld⟩ := hholds
  have hsame := hknown.row hk (heldBy_iff.mp hheld).1
  exact hopen k hk hheld d hd (pushFor_of_sameJob hpush hsame)

/-- An accepted delivery is not submitted in the step. -/
theorem commit_submissions (hfits : Fits w) (hexclusive : Exclusive op w) (hd : d ∈ w.deliveries)
    (haccepted : d.status = .accepted) :
    (World.commit cal op view w).1.submissions.count d.id = w.submissions.count d.id := by
  cases op with
  | notify a o stamp fresh =>
    simp only [World.commit]
    split <;> rfl
  | claim worker lease now reached locked =>
    simp only [World.commit]
    split
    · split <;> rfl
    · rfl
  | submit worker answer now =>
    have hworker := hfits.workers worker
    simp only [World.commit]
    split
    next job hphase =>
      rw [hphase] at hworker
      split
      next r hread =>
        cases hworker with
        | claimed hknown hopen =>
          obtain ⟨row, hrow, hid, hpush⟩ := submitted_row hfits.pushes hknown hread
          have hopen' := not_accepted_of_held hknown hopen
            (hexclusive.submit worker answer now job rfl hphase) hrow hpush
          refine List.count_cons_of_ne fun hsame => hopen' ?_
          rwa [← delivery_eq hd hrow (hsame.symm.trans hid)]
      next => rfl
      next => rfl
    next => rfl
  | record worker =>
    simp only [World.commit]
    split <;> rfl
  | settle worker now =>
    simp only [World.commit]
    split
    · split <;> rfl
    · rfl
  | crash | claimOther | other => rfl

theorem commit_recorded (hfits : Fits w) (hexclusive : Exclusive op w) :
    Recorded w (World.commit cal op view w).1 := by
  intro d hd haccepted
  refine ⟨commit_submissions hfits hexclusive hd haccepted, ?_⟩
  obtain ⟨d', hd', hmove⟩ :=
    (commit_steps cal view (w := w) op).deliveries.kept d hd
  rcases hmove with rfl | ⟨worker, job, r, hop, hphase, hid, -⟩
  · exact ⟨d', hd', rfl, haccepted⟩
  · have hworker := hfits.workers worker
    rw [hphase] at hworker
    cases hworker with
    | submitted hknown hopen hr hrid hpush =>
      obtain rfl := delivery_eq hd hr (hid.symm.trans hrid)
      exact absurd haccepted (not_accepted_of_held hknown hopen
        (hexclusive.record worker job r hop hphase) hd hpush)

/-! ## Every history -/

theorem stable : Program.Stable (system cal) (fun op _ w => Exclusive op w) Fits Recorded where
  init w hw := by
    obtain rfl : w = {} := hw
    exact ⟨fun _ h => absurd h not_mem_empty, fun _ h => absurd h not_mem_empty, fun _ => .idle⟩
  refl := .refl
  trans _ _ _ := .trans
  step _ _ _ hfits _ hexclusive := ⟨commit_fits hfits hexclusive, commit_recorded hfits hexclusive⟩

/-- Where push workers submit and record only while they hold their jobs, and no sweep makes the job of an
accepted delivery ready again, an accepted delivery is never submitted again and stays accepted. -/
theorem accepted_once (hr : (system cal).ReachableIf (fun op _ w => Exclusive op w) h)
    {i j : Fin h.states.length} (hij : i ≤ j) : Recorded (h.stateAt i) (h.stateAt j) :=
  stable.rel_stateAt hr hij

/-! ## A worker that crashes -/

/-- The phone of user 1. -/
def phone : PushEndpoint where
  userId := 1
  deviceId := 2
  pushToken := "token"
  id := 3
  lastRegisteredAt := 0
  createdAt := 0
  updatedAt := 0

/-- The phone is registered. -/
def registerPhone : Op :=
  .other (fun s => { s with endpoints := (s.endpoints.insert? phone).getD s.endpoints })
    fun _ => ⟨rfl, fun _ _ => Iff.rfl⟩

/-- An Automation of user 1, and its Occurrence. -/
def ringing : Automation := { askReminder.automation 0 ⟨10, 0⟩ with }

def ringingOccurrence : AutomationOccurrence := dueOccurrence ringing 0 ⟨20, 1⟩

/-- The delivery to the phone is accepted and recorded. -/
def acceptedPush : List Op :=
  [registerPhone, .notify ringing ringingOccurrence ⟨30, 1⟩ fun _ => stampsFrom 40 1,
    .claim 5 60 2 (fun _ => true) (fun _ => false), .submit 5 true 3, .record 5]

/-- What neither submits nor records is exclusive up to its sweep. -/
theorem Exclusive.of_sweep (hsubmit : ∀ x a n, op ≠ .submit x a n) (hrecord : ∀ x, op ≠ .record x)
    (hsweep : ∀ swept ∈ op.sweep, ∀ j ∈ w.store.durableJobs, j.kind = .pushDelivery →
      swept.2 j.id = true → retryableWhere swept.1 j = true → Unaccepted w.toState j) :
    Exclusive op w :=
  ⟨fun x a n _ h => absurd h (hsubmit x a n), fun x _ _ h => absurd h (hrecord x), hsweep⟩

/-- What does not sweep either is exclusive. -/
theorem Exclusive.of_plain (hsubmit : ∀ x a n, op ≠ .submit x a n) (hrecord : ∀ x, op ≠ .record x)
    (hsweep : op.sweep = none) : Exclusive op w := by
  refine .of_sweep hsubmit hrecord ?_
  rw [hsweep]
  exact fun swept hswept => absurd hswept (Option.not_mem_none swept)

theorem Exclusive.of_submit {worker : UUID} {answer : Bool} {now : Timestamp}
    (hholds : ∀ job, w.workers worker = .claimed job → Holds w.toState worker job) :
    Exclusive (.submit worker answer now) w := by
  refine ⟨?_, fun x _ _ h => absurd h nofun, fun _ h => absurd h (Option.not_mem_none _)⟩
  rintro x a n job h hphase
  obtain ⟨rfl, -, -⟩ := Op.submit.inj h
  exact hholds job hphase

theorem Exclusive.of_record {worker : UUID}
    (hholds : ∀ job d, w.workers worker = .submitted job d → Holds w.toState worker job) :
    Exclusive (.record worker) w := by
  refine ⟨fun x _ _ _ h => absurd h nofun, ?_, fun _ h => absurd h (Option.not_mem_none _)⟩
  rintro x job d h hphase
  obtain rfl := Op.record.inj h
  exact hholds job d hphase

/-- Worker 5 works alone. -/
theorem acceptedPush_exclusive : (system PersonalState.tallies).SerialMeets
    (fun op _ w => Exclusive op w) ⟨{}, [], []⟩ (acceptedPush ++ [.settle 5 4]) := by
  refine ⟨.of_plain nofun nofun rfl, .of_plain nofun nofun rfl, .of_sweep nofun nofun ?_,
    .of_submit ?_, .of_record ?_, .of_plain nofun nofun rfl, trivial⟩
  · intro swept _ j _ _ _ _ d hd _ haccepted
    have hopen : ∀ d ∈ ((system PersonalState.tallies).serial {}
        (acceptedPush.take 2)).cur.deliveries.rows, d.status ≠ .accepted := by
      decide +kernel
    exact hopen d hd haccepted
  · intro job hphase
    obtain ⟨job', hclaimed, hheld⟩ : ∃ job', ((system PersonalState.tallies).serial {}
        (acceptedPush.take 3)).cur.workers 5 = .claimed job' ∧ ∃ j ∈ ((system
          PersonalState.tallies).serial {} (acceptedPush.take 3)).cur.store.durableJobs.rows,
        heldBy job'.id (workerOwner 5) job'.claimEpoch j = true :=
      ⟨_, rfl, by decide +kernel⟩
    obtain rfl := Worker.claimed.inj (hclaimed.symm.trans hphase)
    exact hheld
  · intro job d hphase
    obtain ⟨job', d', hsubmitted, hheld⟩ : ∃ job' d', ((system PersonalState.tallies).serial {}
        (acceptedPush.take 4)).cur.workers 5 = .submitted job' d' ∧ ∃ j ∈ ((system
          PersonalState.tallies).serial {} (acceptedPush.take 4)).cur.store.durableJobs.rows,
        heldBy job'.id (workerOwner 5) job'.claimEpoch j = true :=
      ⟨_, _, rfl, by decide +kernel⟩
    obtain ⟨rfl, -⟩ := Worker.submitted.inj (hsubmitted.symm.trans hphase)
    exact hheld

/-- The delivery that worker 5 recorded as accepted keeps that when its job is settled. -/
theorem accepted_once_settled :
    Recorded (((system PersonalState.tallies).serial {}
        (acceptedPush ++ [.settle 5 4])).stateAt ⟨5, by decide⟩)
      (((system PersonalState.tallies).serial {}
        (acceptedPush ++ [.settle 5 4])).stateAt ⟨6, by decide⟩) :=
  accepted_once ((system PersonalState.tallies).serial_reachableIf rfl _ acceptedPush_exclusive)
    (by decide)

/-- Worker 5 crashes before it settles the job, and worker 6 takes the job over and is refused. -/
def pushedTwice : List Op :=
  acceptedPush ++ [.crash 5, .claim 6 60 100 (fun _ => true) (fun _ => false), .submit 6 false 101,
    .record 6]

/-- A delivery that was recorded as accepted is submitted again and fails. -/
theorem accepted_then_failed :
    ∃ h : History World Op Reply, (system PersonalState.tallies).Reachable h ∧
      ∃ i j : Fin h.states.length, i ≤ j ∧
        ∃ d ∈ (h.stateAt i).deliveries, ∃ d' ∈ (h.stateAt j).deliveries, d'.id = d.id ∧
          d.status = .accepted ∧ d'.status = .failed ∧
          (h.stateAt i).submissions.count d.id < (h.stateAt j).submissions.count d.id := by
  refine ⟨_, (system PersonalState.tallies).serial_reachable rfl pushedTwice, ⟨5, by decide⟩,
    ⟨9, by decide⟩, by decide, ?_⟩
  have hrows : ∃ d ∈ (((system PersonalState.tallies).serial {} pushedTwice).stateAt
      ⟨5, by decide⟩).deliveries.rows, ∃ d' ∈ (((system PersonalState.tallies).serial {}
        pushedTwice).stateAt ⟨9, by decide⟩).deliveries.rows, d'.id = d.id ∧
        d.status = .accepted ∧ d'.status = .failed ∧
        (((system PersonalState.tallies).serial {} pushedTwice).stateAt
          ⟨5, by decide⟩).submissions.count d.id <
        (((system PersonalState.tallies).serial {} pushedTwice).stateAt
          ⟨9, by decide⟩).submissions.count d.id := by
    decide +kernel
  exact hrows

end PushDelivery
