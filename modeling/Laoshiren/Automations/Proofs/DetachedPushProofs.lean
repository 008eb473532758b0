import Laoshiren.Automations.Proofs.PushDeliveryProofs

/-!
# Proofs: an endpoint that was invalidated

A push worker loads the endpoint of a delivery, but does not look at whether it was invalidated. So what
was queued before is submitted afterwards. Where nothing was on its way to the endpoint when it was
invalidated, and no notification is created for it as it was before, nothing is submitted to it until it
is registered again (`detached_silent`).
-/

namespace PushDelivery

open Runtime Raise Table DurableJobRepository Automations
open PersonalState (Calendar)

variable {cal : Calendar} {op : Op} {view : ℕ → World} {u v w : World} {s s' : State}
  {d d' : NotificationDelivery} {j j' job : DurableJob} {endpointId : UUID}
  {h : History World Op Reply}

/-! ## Conditions -/

/-- The endpoint is there, and was invalidated. -/
def Detached (endpointId : UUID) (s : State) : Prop :=
  ∃ e ∈ s.endpoints, e.id = endpointId ∧ e.invalidatedAt.isSome = true

/-- The job is for a delivery to the endpoint. -/
def PushTo (s : State) (endpointId : UUID) (j : DurableJob) : Prop :=
  ∃ d ∈ s.deliveries, PushFor d j ∧ d.endpointId = endpointId

/-- Nothing is on its way to the endpoint. -/
structure Quiet (endpointId : UUID) (w : World) : Prop where
  jobs : ∀ j ∈ w.store.durableJobs, PushTo w.toState endpointId j → ¬Unsettled j
  workers : ∀ worker job, w.workers worker = .claimed job → ¬PushTo w.toState endpointId job

/-- An endpoint is invalidated when nothing is on its way to it, and no notification is created for one
that was invalidated since it was read. -/
structure Orderly (op : Op) (view : ℕ → World) (w : World) : Prop where
  notify : ∀ a o stamp fresh, op = .notify a o stamp fresh →
    ∀ e ∈ EndpointRepository.listEligible a.userId (view 1).endpoints, ¬Detached e.id w.toState
  other : ∀ change hforeign, op = .other change hforeign → ∀ endpointId,
    Detached endpointId (change w.toState) → Detached endpointId w.toState ∨ Quiet endpointId w

/-- Nothing was submitted to the endpoint from one state to the other. -/
def Silent (endpointId : UUID) (v w : World) : Prop :=
  ∃ sent, w.submissions = sent ++ v.submissions ∧
    ∀ id ∈ sent, ∃ d ∈ w.deliveries, d.id = id ∧ d.endpointId ≠ endpointId

/-! ## The invariant -/

/-- Nothing is on its way to an endpoint that was invalidated. -/
structure Undisturbed (w : World) : Prop where
  pushes : ∀ j ∈ w.store.durableJobs, j.kind = .pushDelivery → ∃ d ∈ w.deliveries, PushFor d j
  known : ∀ worker job, w.workers worker = .claimed job → KnownJob w.toState job
  quiet : ∀ endpointId, Detached endpointId w.toState → Quiet endpointId w

/-- The delivery of a job that a worker claimed. -/
theorem Undisturbed.delivery (hinv : Undisturbed w) (hknown : KnownJob w.toState job) :
    ∃ d ∈ w.deliveries, PushFor d job := by
  obtain ⟨hkind, j, hj, -, hsame⟩ := hknown
  obtain ⟨d, hd, hpush⟩ := hinv.pushes j hj (hsame.kind.trans hkind)
  exact ⟨d, hd, pushFor_of_sameJob hpush hsame.symm⟩

/-- What a job is for does not change. -/
theorem PushTo.back (hkept : ∀ d ∈ s.deliveries, ∃ d' ∈ s'.deliveries, SameDelivery d d')
    (hthere : ∃ d ∈ s.deliveries, PushFor d j) (hsame : SameJob j j')
    (h : PushTo s' endpointId j') : PushTo s endpointId j := by
  obtain ⟨d, hd, hpush⟩ := hthere
  obtain ⟨d', hd', hmove⟩ := hkept d hd
  obtain ⟨r, hr, hrpush, hendpoint⟩ := h
  obtain rfl := delivery_eq hd' hr (pushFor_id (hpush.move hmove hsame) hrpush)
  exact ⟨d, hd, hpush, hmove.endpointId.symm.trans hendpoint⟩

/-! ## Steps -/

/-- A job of `addDeliveries` is for one of the endpoints. -/
theorem queued_addDeliveries {i : NotificationIntent} {fresh : UUID → ℕ → Stamp}
    {endpoints : List PushEndpoint} (h : addDeliveries i fresh endpoints s = .ok s')
    (hj : j ∈ s'.store.durableJobs) :
    j ∈ s.store.durableJobs ∨ ∃ e ∈ endpoints, PushTo s' e.id j := by
  induction endpoints generalizing s with
  | nil =>
    obtain rfl := pure_eq_ok.mp h
    exact .inl hj
  | cons e endpoints ih =>
    simp only [addDeliveries, bind_eq_ok, orRaise_eq_ok, Prod.exists] at h
    obtain ⟨deliveries, added, hadd, h⟩ := h
    split at h
    next hadded =>
      subst hadded
      simp only [bind_eq_ok] at h
      obtain ⟨store, hjob, h⟩ := h
      rcases ih h with hold | ⟨e', he', hto⟩
      · rcases (addJob_grows hjob).2.1.origin j hold with ⟨j₀, hj₀, heq⟩ | rfl
        · exact .inl (heq ▸ hj₀)
        · -- the delivery that was added with the job
          rcases insertUnless_eq_some.mp hadd with ⟨hfalse, -⟩ | ⟨-, hinsert, -⟩
          · cases hfalse
          have hmem : deliveryTo i e (fresh e.id 0) ∈ deliveries :=
            (mem_insert? hinsert).mpr (.inr rfl)
          obtain ⟨_, _, rfl, hadds⟩ := addDeliveries_spec h
          obtain ⟨_, hmem', rfl⟩ := hadds.added.kept _ hmem
          exact .inr ⟨e, .head _, _, hmem', ⟨rfl, rfl, rfl, rfl⟩, rfl⟩
      · exact .inr ⟨e', .tail _ he', hto⟩
    next =>
      rcases ih h with hold | ⟨e', he', hto⟩
      · exact .inl hold
      · exact .inr ⟨e', .tail _ he', hto⟩

/-- A notification is queued for endpoints that were eligible when they were read. -/
theorem queued_notify {a : Automation} {o : AutomationOccurrence} {stamp : Stamp}
    {fresh : UUID → ℕ → Stamp} {states : ℕ → State}
    (h : createReminderNotification cal a o stamp fresh states s = .ok s')
    (hj : j ∈ s'.store.durableJobs) : j ∈ s.store.durableJobs ∨
      ∃ e ∈ EndpointRepository.listEligible a.userId (states 1).endpoints, PushTo s' e.id j := by
  unfold createReminderNotification at h
  split at h
  · obtain rfl := pure_eq_ok.mp h
    exact .inl hj
  · simp only [bind_eq_ok, orRaise_eq_ok, Prod.exists] at h
    obtain ⟨intents, added, -, h⟩ := h
    split at h
    · exact queued_addDeliveries (s := { s with intents }) h hj
    · obtain rfl := pure_eq_ok.mp h
      exact .inl hj

theorem addDeliveries_endpoints {i : NotificationIntent} {fresh : UUID → ℕ → Stamp}
    {endpoints : List PushEndpoint} (h : addDeliveries i fresh endpoints s = .ok s') :
    s'.endpoints = s.endpoints := by
  obtain ⟨_, _, rfl, -⟩ := addDeliveries_spec h
  rfl

theorem notify_endpoints {a : Automation} {o : AutomationOccurrence} {stamp : Stamp}
    {fresh : UUID → ℕ → Stamp} {states : ℕ → State}
    (h : createReminderNotification cal a o stamp fresh states s = .ok s') :
    s'.endpoints = s.endpoints := by
  unfold createReminderNotification at h
  split at h
  · obtain rfl := pure_eq_ok.mp h
    rfl
  · simp only [bind_eq_ok, orRaise_eq_ok, Prod.exists] at h
    obtain ⟨intents, added, -, h⟩ := h
    split at h
    · exact (addDeliveries_endpoints h).trans rfl
    · obtain rfl := pure_eq_ok.mp h
      rfl

/-- Only another component changes endpoints. -/
theorem commit_endpoints (hop : ∀ change hforeign, op ≠ .other change hforeign) :
    (World.commit cal op view w).1.endpoints = w.endpoints := by
  cases op with
  | notify a o stamp fresh =>
    simp only [World.commit]
    split
    next s hs => exact notify_endpoints hs
    next => rfl
  | claim =>
    simp only [World.commit]
    split
    · split <;> rfl
    · rfl
  | submit =>
    simp only [World.commit]
    split
    · split <;> rfl
    · rfl
  | record =>
    simp only [World.commit]
    split <;> rfl
  | settle =>
    simp only [World.commit]
    split
    · split
      next s hs =>
        obtain ⟨_, _, -, -, rfl⟩ := settleClaim_eq_some hs
        rfl
      next => rfl
    · rfl
  | crash => rfl
  | claimOther => rfl
  | other change hforeign => exact absurd rfl (hop change hforeign)

/-- Nothing was on its way to an endpoint that is invalidated after the step. -/
theorem quiet_before (hinv : Undisturbed w) (horderly : Orderly op view w)
    (h : Detached endpointId (World.commit cal op view w).1.toState) : Quiet endpointId w := by
  by_cases hop : ∃ change hforeign, op = .other change hforeign
  · obtain ⟨change, hforeign, rfl⟩ := hop
    rcases horderly.other change hforeign rfl endpointId h with hbefore | hquiet
    · exact hinv.quiet endpointId hbefore
    · exact hquiet
  · have hsame : (World.commit cal op view w).1.endpoints = w.endpoints :=
      commit_endpoints fun change hforeign hop' => hop ⟨change, hforeign, hop'⟩
    unfold Detached at h
    rw [hsame] at h
    exact hinv.quiet endpointId h

/-- A job after a step was there before, or was queued for an endpoint that is not invalidated. -/
theorem jobs_step (horderly : Orderly op view w)
    (hj' : j' ∈ (World.commit cal op view w).1.store.durableJobs) (hkind : j'.kind = .pushDelivery) :
    (∃ j ∈ w.store.durableJobs, JobStep op j j') ∨
      ∃ id, PushTo (World.commit cal op view w).1.toState id j' ∧
        ¬Detached id (World.commit cal op view w).1.toState := by
  rcases (commit_steps _ _ op).origin j' hj' hkind with hold | hnew
  · exact .inl hold
  obtain ⟨⟨a, o, stamp, fresh, rfl⟩, -⟩ := hnew
  have hsame : (World.commit cal (.notify a o stamp fresh) view w).1.endpoints = w.endpoints :=
    commit_endpoints nofun
  have hdetached : ∀ id, Detached id (World.commit cal (.notify a o stamp fresh) view w).1.toState →
      Detached id w.toState := by
    intro id h
    unfold Detached at h ⊢
    rwa [hsame] at h
  simp only [World.commit] at hj' hdetached ⊢
  split at hj'
  next s hs =>
    rw [hs] at hdetached
    rcases queued_notify hs hj' with hold | ⟨e, he, hto⟩
    · exact .inl ⟨j', hold, .refl j'⟩
    · exact .inr ⟨e.id, hto, fun h => horderly.notify a o stamp fresh rfl e he (hdetached e.id h)⟩
  next => exact .inl ⟨j', hj', .refl j'⟩

/-- A worker that holds a claimed job did not take a step that ends in another phase. -/
theorem claimed_of_setWorker {x worker : UUID} {phase : Worker}
    (h : (w.setWorker x phase).workers worker = .claimed job) (hphase : phase ≠ .claimed job) :
    w.workers worker = .claimed job := by
  have hupdate : Function.update w.workers x phase worker = .claimed job := h
  by_cases hx : worker = x
  · subst hx
    rw [Function.update_self] at hupdate
    exact absurd hupdate hphase
  · rwa [Function.update_of_ne hx] at hupdate

/-- The job that a worker has after a step is the one that it had, or one that it claims. -/
theorem claimed_step {worker : UUID}
    (h : (World.commit cal op view w).1.workers worker = .claimed job) :
    w.workers worker = .claimed job ∨
      job ∈ (World.commit cal op view w).1.store.durableJobs ∧ job.kind = .pushDelivery ∧
        ∃ j ∈ w.store.durableJobs, SameJob j job ∧ Unsettled j := by
  cases op with
  | notify a o stamp fresh =>
    simp only [World.commit] at h
    split at h <;> exact .inl h
  | claim x lease now reached locked =>
    simp only [World.commit] at h ⊢
    cases hphase : w.workers x with
    | idle =>
      rw [hphase] at h
      rcases hclaim : claimReadyJobs .pushDelivery (workerOwner x) now (now + lease) 1 reached
        locked w.store.durableJobs with ⟨durableJobs, claimed⟩
      simp only [hclaim] at h ⊢
      cases claimed with
      | nil => exact .inl h
      | cons job' rest =>
        by_cases hx : worker = x
        · subst hx
          have hjob : Function.update w.workers worker (.claimed job') worker = .claimed job := h
          rw [Function.update_self] at hjob
          obtain rfl := Worker.claimed.inj hjob
          have hmem : job' ∈ (claimReadyJobs .pushDelivery (workerOwner worker) now (now + lease) 1
              reached locked w.store.durableJobs).2 := by
            rw [hclaim]
            exact .head _
          obtain ⟨hthere, hkind, j₁, hj₁, hwhere, rfl⟩ := mem_of_claimed hmem
          obtain ⟨j, hj, hmove⟩ := (sweepMove_requeueExpired now reached).mem hj₁
          rw [hclaim] at hthere
          refine .inr ⟨hthere, hkind, j, hj, hmove.same.trans ⟨rfl, rfl, rfl, rfl⟩, ?_⟩
          exact (JobStep.of_swept (.claim worker lease now reached locked) rfl hmove).unsettled
            (.inl (claimReadyWhere_iff.mp hwhere).2.1)
        · have hold : (Function.update w.workers x (.claimed job')) worker = .claimed job := h
          rw [Function.update_of_ne hx] at hold
          exact .inl hold
    | claimed | submitted | handled =>
      rw [hphase] at h
      exact .inl h
  | submit x answer now =>
    simp only [World.commit] at h
    split at h
    · split at h <;> exact .inl (claimed_of_setWorker h (by simp))
    · exact .inl h
  | record x =>
    simp only [World.commit] at h
    split at h
    · exact .inl (claimed_of_setWorker h (by simp))
    · exact .inl h
  | settle x now =>
    simp only [World.commit] at h
    split at h
    · split at h <;> exact .inl (claimed_of_setWorker h (by simp))
    · exact .inl h
  | crash x => exact .inl (claimed_of_setWorker h (by simp))
  | claimOther => exact .inl h
  | other => exact .inl h

/-- After a step, nothing is on its way to an endpoint that was invalidated. -/
theorem quiet_step (hinv : Undisturbed w) (horderly : Orderly op view w)
    (h : Detached endpointId (World.commit cal op view w).1.toState) :
    Quiet endpointId (World.commit cal op view w).1 := by
  have hbefore := quiet_before hinv horderly h
  have hsteps := commit_steps cal view (w := w) op
  have hkept : ∀ d ∈ w.deliveries, ∃ d' ∈ (World.commit cal op view w).1.deliveries,
      SameDelivery d d' := by
    intro d hd
    obtain ⟨d', hd', hmove⟩ := hsteps.deliveries.kept d hd
    exact ⟨d', hd', hmove.same⟩
  refine ⟨fun j' hj' hto hunsettled => ?_, fun worker job hphase hto => ?_⟩
  · obtain ⟨d, hd, hpush, hendpoint⟩ := hto
    rcases jobs_step horderly hj' hpush.kind with ⟨j, hj, hstep⟩ | ⟨id, ⟨r, hr, hrpush, rfl⟩, hnot⟩
    · have hthere := hinv.pushes j hj (hstep.same.kind.symm.trans hpush.kind)
      have hto := PushTo.back hkept hthere hstep.same ⟨d, hd, hpush, hendpoint⟩
      exact hbefore.jobs j hj hto (hstep.unsettled hunsettled)
    · obtain rfl := delivery_eq hd hr (pushFor_id hpush hrpush)
      exact hnot (hendpoint ▸ h)
  · rcases claimed_step hphase with hold | ⟨-, hkind, j, hj, hsame, hunsettled⟩
    · have hthere := hinv.delivery (hinv.known worker job hold)
      exact hbefore.workers worker job hold (PushTo.back hkept hthere (.refl job) hto)
    · have hthere := hinv.pushes j hj (hsame.kind.symm.trans hkind)
      exact hbefore.jobs j hj (PushTo.back hkept hthere hsame hto) hunsettled

theorem commit_undisturbed (hinv : Undisturbed w) (horderly : Orderly op view w) :
    Undisturbed (World.commit cal op view w).1 where
  pushes j' hj' hkind' := by
    have hsteps := commit_steps cal view (w := w) op
    rcases hsteps.origin j' hj' hkind' with ⟨j, hj, hstep⟩ | ⟨-, -, d, hd, hpush, -⟩
    · obtain ⟨d, hd, hpush⟩ := hinv.pushes j hj (hstep.same.kind.symm.trans hkind')
      obtain ⟨d', hd', hmove⟩ := hsteps.deliveries.kept d hd
      exact ⟨d', hd', hpush.move hmove.same hstep.same⟩
    · exact ⟨d, hd, hpush⟩
  known worker job hphase := by
    rcases claimed_step hphase with hold | ⟨hthere, hkind, -⟩
    · exact (hinv.known worker job hold).step (commit_steps cal view op)
    · exact ⟨hkind, job, hthere, rfl, .refl job⟩
  quiet endpointId h := quiet_step hinv horderly h

/-- A step submits the delivery of a job that a worker claimed, if any. -/
theorem submissions_step (hinv : Undisturbed w) :
    (World.commit cal op view w).1.submissions = w.submissions ∨
      ∃ worker job, w.workers worker = .claimed job ∧ ∃ d ∈ w.deliveries, PushFor d job ∧
        (World.commit cal op view w).1.submissions = d.id :: w.submissions := by
  cases op with
  | submit worker answer now =>
    simp only [World.commit]
    split
    next job hphase =>
      split
      next d hread =>
        obtain ⟨r, hr, hid, hpush⟩ := submitted_row hinv.pushes (hinv.known worker job hphase) hread
        exact .inr ⟨worker, job, hphase, r, hr, hpush, congrArg (· :: w.submissions) hid⟩
      next => exact .inl rfl
      next => exact .inl rfl
    next => exact .inl rfl
  | notify a o stamp fresh =>
    simp only [World.commit]
    split <;> exact .inl rfl
  | claim worker lease now reached locked =>
    simp only [World.commit]
    split
    · split <;> exact .inl rfl
    · exact .inl rfl
  | record worker =>
    simp only [World.commit]
    split <;> exact .inl rfl
  | settle worker now =>
    simp only [World.commit]
    split
    · split <;> exact .inl rfl
    · exact .inl rfl
  | crash | claimOther | other => exact .inl rfl

/-! ## Every history -/

/-- The deliveries stay what they are, and none was submitted to the endpoint. -/
structure Unreached (endpointId : UUID) (v w : World) : Prop where
  kept : ∀ d ∈ v.deliveries, ∃ d' ∈ w.deliveries, SameDelivery d d'
  silent : Silent endpointId v w

theorem Unreached.refl (w : World) : Unreached endpointId w w :=
  ⟨fun d hd => ⟨d, hd, .refl d⟩, [], rfl, fun _ h => absurd h List.not_mem_nil⟩

theorem Unreached.trans (h : Unreached endpointId u v) (h' : Unreached endpointId v w) :
    Unreached endpointId u w := by
  refine ⟨fun d hd => ?_, ?_⟩
  · obtain ⟨d₁, hd₁, hmove⟩ := h.kept d hd
    obtain ⟨d₂, hd₂, hmove'⟩ := h'.kept d₁ hd₁
    exact ⟨d₂, hd₂, hmove.trans hmove'⟩
  · obtain ⟨sent, hsent, hothers⟩ := h.silent
    obtain ⟨sent', hsent', hothers'⟩ := h'.silent
    refine ⟨sent' ++ sent, by rw [hsent', hsent, List.append_assoc], fun id hid => ?_⟩
    rcases List.mem_append.mp hid with hnew | hold
    · exact hothers' id hnew
    · obtain ⟨d, hd, hdid, hne⟩ := hothers id hold
      obtain ⟨d', hd', hmove⟩ := h'.kept d hd
      exact ⟨d', hd', hmove.id.trans hdid, fun heq => hne (hmove.endpointId.symm.trans heq)⟩

/-- While an endpoint is invalidated, a step submits nothing to it. -/
theorem commit_unreached (hinv : Undisturbed w) (hdetached : Detached endpointId w.toState) :
    Unreached endpointId w (World.commit cal op view w).1 := by
  have hsteps := commit_steps cal view (w := w) op
  have hkept : ∀ d ∈ w.deliveries, ∃ d' ∈ (World.commit cal op view w).1.deliveries,
      SameDelivery d d' := by
    intro d hd
    obtain ⟨d', hd', hmove⟩ := hsteps.deliveries.kept d hd
    exact ⟨d', hd', hmove.same⟩
  refine ⟨hkept, ?_⟩
  rcases submissions_step hinv with
    hsame | ⟨worker, job, hphase, d, hd, hpush, hsent⟩
  · exact ⟨[], hsame, fun _ h => absurd h List.not_mem_nil⟩
  · refine ⟨[d.id], hsent, fun id hid => ?_⟩
    obtain rfl := List.mem_singleton.mp hid
    obtain ⟨d', hd', hmove⟩ := hkept d hd
    refine ⟨d', hd', hmove.id, fun heq => ?_⟩
    exact (hinv.quiet endpointId hdetached).workers worker job hphase
      ⟨d, hd, hpush, hmove.endpointId.symm.trans heq⟩

theorem undisturbed_stable :
    Program.Stable (system cal) Orderly Undisturbed fun _ _ => True where
  init w hw := by
    obtain rfl : w = {} := hw
    exact ⟨fun _ h => absurd h not_mem_empty, fun _ _ h => Worker.noConfusion h,
      fun _ ⟨_, h, _⟩ => absurd h not_mem_empty⟩
  refl _ := trivial
  trans _ _ _ _ _ := trivial
  step _ _ _ hinv _ horderly := ⟨commit_undisturbed hinv horderly, trivial⟩

/-- Where nothing is on its way to an endpoint when it is invalidated, and no notification is created for
an endpoint that was invalidated since it was read, nothing is submitted to an endpoint as long as it is
invalidated. -/
theorem detached_silent (hr : (system cal).ReachableIf Orderly h) {i j : Fin h.states.length}
    (hij : i ≤ j)
    (hdetached : ∀ k, i ≤ k → k < j → Detached endpointId (h.stateAt k).toState) :
    Silent endpointId (h.stateAt i) (h.stateAt j) :=
  (undisturbed_stable.rel_while (fun w => Detached endpointId w.toState)
    (R := Unreached endpointId) .refl (fun _ _ _ => .trans)
    (fun _ _ _ hinv _ _ hlaw => commit_unreached hinv hlaw) hr hij hdetached).silent

/-! ## A push that was queued before -/

/-- The token of the phone is deleted. -/
def deletePhone : Op :=
  .other (fun s => { s with
      endpoints := EndpointRepository.invalidate (fun r => r.userId = 1 ∧ r.deviceId = 2) 5
        s.endpoints s.endpoints })
    fun _ => ⟨rfl, fun _ _ => Iff.rfl⟩

/-- The push is settled before the token is deleted, and a later Occurrence is told of after it. -/
def detachedAfterPush : List Op :=
  acceptedPush ++ [.settle 5 4, deletePhone,
    .notify ringing (dueOccurrence ringing 60 ⟨21, 6⟩) ⟨31, 6⟩ fun _ => stampsFrom 50 6]

/-- Every worker is idle once the push is settled. -/
theorem settledPush_idle (worker : UUID) : ((system PersonalState.tallies).serial {}
    (acceptedPush ++ [.settle 5 4])).cur.workers worker = .idle := by
  obtain ⟨p₁, p₂, p₃, hphases⟩ : ∃ p₁ p₂ p₃, ((system PersonalState.tallies).serial {}
      (acceptedPush ++ [.settle 5 4])).cur.workers = Function.update (Function.update
        (Function.update (Function.update (fun _ => .idle) 5 p₁) 5 p₂) 5 p₃) 5 .idle :=
    ⟨_, _, _, rfl⟩
  rw [hphases]
  simp only [Function.update_idem]
  by_cases hworker : worker = 5
  · rw [hworker, Function.update_self]
  · rw [Function.update_of_ne hworker]

/-- The step is one of a worker. -/
def Op.byWorker : Op → Bool
  | .notify _ _ _ _ | .other _ _ => false
  | _ => true

theorem Orderly.of_worker (h : op.byWorker = true) : Orderly op view w := by
  refine ⟨fun a o stamp fresh hop => ?_, fun change hforeign hop => ?_⟩
  · rw [hop] at h
    cases h
  · rw [hop] at h
    cases h

theorem Orderly.of_notify {a : Automation} {o : AutomationOccurrence} {stamp : Stamp}
    {fresh : UUID → ℕ → Stamp} (h : ∀ e ∈ EndpointRepository.listEligible a.userId
      (view 1).endpoints, ¬Detached e.id w.toState) : Orderly (.notify a o stamp fresh) view w := by
  refine ⟨fun a' o' stamp' fresh' hop => ?_, fun _ _ hop => Op.noConfusion hop⟩
  obtain ⟨rfl, -⟩ := Op.notify.inj hop
  exact h

theorem Orderly.of_other {change : State → State} {hforeign : ∀ s, Foreign s (change s)}
    (h : ∀ endpointId, Detached endpointId (change w.toState) →
      Detached endpointId w.toState ∨ Quiet endpointId w) :
    Orderly (.other change hforeign) view w := by
  refine ⟨fun _ _ _ _ hop => Op.noConfusion hop, fun change' hforeign' hop => ?_⟩
  obtain rfl := Op.other.inj hop
  exact h

theorem detachedAfterPush_orderly :
    (system PersonalState.tallies).SerialMeets Orderly ⟨{}, [], []⟩ detachedAfterPush := by
  refine ⟨.of_other fun id hdetached => ?_, .of_notify fun e _ hdetached => ?_,
    .of_worker rfl, .of_worker rfl, .of_worker rfl, .of_worker rfl,
    .of_other fun id _ => .inr ⟨fun j hj _ hunsettled => ?_, fun worker job hphase _ => ?_⟩,
    .of_notify fun e he _ => ?_, trivial⟩
  · have hnone : (((system PersonalState.tallies).serial {}
        (detachedAfterPush.take 1)).cur.endpoints.rows.all fun e => e.invalidatedAt.isNone) = true := by
      decide +kernel
    obtain ⟨e, he, -, hsome⟩ := hdetached
    have he' := List.all_eq_true.mp hnone e he
    rw [Option.isNone_iff_eq_none.mp he'] at hsome
    cases hsome
  · have hnone : (((system PersonalState.tallies).serial {}
        (detachedAfterPush.take 1)).cur.endpoints.rows.all fun e => e.invalidatedAt.isNone) = true := by
      decide +kernel
    obtain ⟨e, he, -, hsome⟩ := hdetached
    have he' := List.all_eq_true.mp hnone e he
    rw [Option.isNone_iff_eq_none.mp he'] at hsome
    cases hsome
  · have hcompleted : (((system PersonalState.tallies).serial {}
        (detachedAfterPush.take 6)).cur.store.durableJobs.rows.all fun j =>
          j.status = .completed) = true := by
      decide +kernel
    have hstatus := of_decide_eq_true (List.all_eq_true.mp hcompleted j hj)
    unfold Unsettled at hunsettled
    rw [hstatus] at hunsettled
    rcases hunsettled with h | h <;> cases h
  · cases (settledPush_idle worker).symm.trans hphase
  · have hnone : EndpointRepository.listEligible 1 ((system PersonalState.tallies).serial {}
        (detachedAfterPush.take 7)).cur.endpoints = [] := by
      decide +kernel
    have he' : e ∈ EndpointRepository.listEligible 1 ((system PersonalState.tallies).serial {}
        (detachedAfterPush.take 7)).cur.endpoints := he
    rw [hnone] at he'
    cases he'

/-- The phone is told of nothing after its token was deleted. -/
theorem detached_silent_phone :
    Silent 3 (((system PersonalState.tallies).serial {} detachedAfterPush).stateAt ⟨7, by decide⟩)
      (((system PersonalState.tallies).serial {} detachedAfterPush).stateAt ⟨8, by decide⟩) := by
  refine detached_silent
    ((system PersonalState.tallies).serial_reachableIf rfl _ detachedAfterPush_orderly) (by decide) ?_
  intro k hle hlt
  obtain ⟨k, hk⟩ := k
  obtain rfl : k = 7 := Nat.le_antisymm (Nat.le_of_lt_succ hlt) hle
  have hdetached : ∃ e ∈ (((system PersonalState.tallies).serial {} detachedAfterPush).stateAt
      ⟨7, by decide⟩).endpoints.rows, e.id = 3 ∧ e.invalidatedAt.isSome = true := by
    decide +kernel
  exact hdetached

/-- The token is deleted while the job of the delivery waits, and worker 5 claims and submits it. -/
def detachedBeforePush : List Op :=
  [registerPhone, .notify ringing ringingOccurrence ⟨30, 1⟩ fun _ => stampsFrom 40 1, deletePhone,
    .claim 5 60 6 (fun _ => true) (fun _ => false), .submit 5 true 7]

/-- A delivery that was queued before is submitted to an endpoint that was invalidated. -/
theorem detached_phone_told :
    ∃ h : History World Op Reply, (system PersonalState.tallies).Reachable h ∧
      ∃ (endpointId : UUID) (i j : Fin h.states.length), i ≤ j ∧
        (∀ k, i ≤ k → k ≤ j → Detached endpointId (h.stateAt k).toState) ∧
          ¬Silent endpointId (h.stateAt i) (h.stateAt j) := by
  refine ⟨_, (system PersonalState.tallies).serial_reachable rfl detachedBeforePush, 3,
    ⟨3, by decide⟩, ⟨5, by decide⟩, by decide, fun k hle hlt => ?_, ?_⟩
  · obtain ⟨k, hk⟩ := k
    have hk' : k = 3 ∨ k = 4 ∨ k = 5 := by
      have hle' : 3 ≤ k := hle
      have hlt' : k ≤ 5 := hlt
      omega
    have hdetached : ∀ k ∈ [3, 4, 5], ∀ hk : k < ((system PersonalState.tallies).serial {}
        detachedBeforePush).states.length, ∃ e ∈ (((system PersonalState.tallies).serial {}
          detachedBeforePush).stateAt ⟨k, hk⟩).endpoints.rows,
            e.id = 3 ∧ e.invalidatedAt.isSome = true := by
      decide +kernel
    exact hdetached k (by simpa using hk') hk
  · rintro ⟨sent, hsent, hothers⟩
    have hcounts : (((system PersonalState.tallies).serial {} detachedBeforePush).stateAt
          ⟨3, by decide⟩).submissions = [] ∧
        (((system PersonalState.tallies).serial {} detachedBeforePush).stateAt
          ⟨5, by decide⟩).submissions ≠ [] ∧
        ∀ d ∈ (((system PersonalState.tallies).serial {} detachedBeforePush).stateAt
          ⟨5, by decide⟩).deliveries.rows, d.endpointId = 3 := by
      decide +kernel
    obtain ⟨hnone, hsome, hall⟩ := hcounts
    rw [hnone, List.append_nil] at hsent
    obtain ⟨id, hid⟩ := List.exists_mem_of_ne_nil _ hsome
    obtain ⟨d, hd, -, hne⟩ := hothers id (hsent ▸ hid)
    exact hne (hall d hd)

end PushDelivery
