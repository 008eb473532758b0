import Laoshiren.Automations.Proofs.ExecutionProofs

/-!
# Proofs: the invariant holds throughout

Every step is a chain of effects, and leaves each worker with what the database knows. So the invariant
holds in every state of every history, and every state is related to those after it.
-/

namespace Automations

open Runtime Raise Table DurableJobRepository
open PersonalState (Calendar)

variable {cal : Calendar} {view : ℕ → World} {w w' : World}

/-! ## One step -/

/-- What a step does to the tables and to the workers. -/
structure Steps (cal : Calendar) (op : Op) (view : ℕ → World) (w w' : World) : Prop where
  effects : Relation.ReflTransGen (Effect cal w.workers op fun n => (view n).toState) w.toState
    w'.toState
  single : op.loops = false →
    Relation.ReflGen (Effect cal w.workers op fun n => (view n).toState) w.toState w'.toState
  workers : ∀ worker, w'.workers worker = w.workers worker ∨
    WorkerFits cal w'.toState (w'.workers worker)

namespace Steps

variable {op : Op} {s : State} {worker : UUID} {phase : Worker}

theorem refl : Steps cal op view w w := ⟨.refl, fun _ => .refl, fun _ => .inl rfl⟩

theorem of_effects (hloops : op.loops = true)
    (h : Relation.ReflTransGen (Effect cal w.workers op fun n => (view n).toState) w.toState s) :
    Steps cal op view w { w with toState := s } := by
  refine ⟨h, fun hsingle => ?_, fun _ => .inl rfl⟩
  rw [hloops] at hsingle
  cases hsingle

theorem of_effect (h : Effect cal w.workers op (fun n => (view n).toState) w.toState s) :
    Steps cal op view w { w with toState := s } :=
  ⟨.single h, fun _ => .single h, fun _ => .inl rfl⟩

/-- The worker that takes the step gets to its next phase. -/
theorem setWorker (h : Steps cal op view w w') (hphase : WorkerFits cal w'.toState phase) :
    Steps cal op view w (w'.setWorker worker phase) := by
  refine ⟨h.effects, h.single, fun other => ?_⟩
  by_cases hother : other = worker
  · subst hother
    refine .inr ?_
    show WorkerFits cal w'.toState (Function.update w'.workers other phase other)
    rwa [Function.update_self]
  · show Function.update w'.workers worker phase other = _ ∨
      WorkerFits cal w'.toState (Function.update w'.workers worker phase other)
    rw [Function.update_of_ne hother]
    exact h.workers other

theorem answered {α : Type} {reply : α → Reply} {result : Raises (State × α)}
    (h : ∀ s a, result = .ok (s, a) → Steps cal op view w { w with toState := s }) :
    Steps cal op view w (w.answered reply result).1 := by
  cases hresult : result with
  | error e => exact refl
  | ok r => exact h r.1 r.2 hresult

end Steps

/-- What the loop of the scheduler makes of the Automations that it selected. -/
theorem effects_materializeAll {workers : UUID → Worker} {op : Op} {view : ℕ → State}
    {occurredAt : Timestamp} {limit : ℕ} {locked : UUID → Bool}
    {taskStatus : UUID → UUID → Option PersonalState.TaskStatus} {fresh : UUID → ℕ → Stamp}
    (hop : op = .processDue occurredAt limit locked taskStatus fresh) {due : List Automation}
    {s s' : State} {count : ℕ} (hfits : Fits cal s) (hview : Later (view 0) s)
    (hdue : ∀ a ∈ due, KnownAutomation s a ∧ AutomationRepository.dueWhere occurredAt a = true)
    (h : materializeAll cal occurredAt taskStatus fresh due s = .ok (s', count)) :
    Relation.ReflTransGen (Effect cal workers op view) s s' := by
  induction due generalizing s count with
  | nil =>
    obtain ⟨rfl, -⟩ := Prod.mk.inj (pure_eq_ok.mp h)
    exact .refl
  | cons a due ih =>
    simp only [materializeAll, bind_eq_ok, pure_eq_ok, Prod.exists, Prod.mk.injEq] at h
    obtain ⟨s₁, occurrence, hfirst, s₂, createdCount, hrest, rfl, -⟩ := h
    obtain ⟨hknown, hwhere⟩ := hdue a (.head _)
    have hstep : Effect cal workers op view s s₁ := effect_materialize hop hknown hwhere hfirst
    have hlater := hstep.later hfits
    refine .head hstep (ih (hstep.fits hfits hview) (hview.trans hlater) (fun b hb => ?_) hrest)
    obtain ⟨hknown', hwhere'⟩ := hdue b (.tail _ hb)
    exact ⟨hknown'.later hlater, hwhere'⟩

theorem effects_processDue {workers : UUID → Worker} {view : ℕ → State} {occurredAt : Timestamp}
    {limit : ℕ} {locked : UUID → Bool}
    {taskStatus : UUID → UUID → Option PersonalState.TaskStatus} {fresh : UUID → ℕ → Stamp}
    {s s' : State} {count : ℕ} (hfits : Fits cal s) (hview : Later (view 0) s)
    (h : processDue cal occurredAt limit locked taskStatus fresh s = .ok (s', count)) :
    Relation.ReflTransGen
      (Effect cal workers (.processDue occurredAt limit locked taskStatus fresh) view) s s' := by
  refine effects_materializeAll rfl hfits hview (fun a ha => ?_) h
  have hmem := List.mem_of_mem_take ha
  rw [List.mem_insertionSort, mem_select] at hmem
  exact ⟨⟨a, hmem.1, .refl a⟩, (Bool.and_eq_true_iff.mp hmem.2).1⟩

/-- The jobs that move in the queue, with nothing else. -/
theorem Effect.of_jobs {workers : UUID → Worker} {op : Op} {view : ℕ → State} {s : State}
    {durableJobs : Table DurableJob}
    (h : Grows (QueueMove op.sweep) OtherKind s.store.durableJobs durableJobs) :
    Effect cal workers op view s { s with store := { s.store with durableJobs } } :=
  .queue (.refl .refl _) h ⟨rfl, rfl, rfl, rfl⟩

variable {worker : UUID}

/-- The job of a worker, as the invariant knows it. -/
theorem Sound.knownJob (hsound : Sound cal w) {job : DurableJob}
    (hphase : w.workers worker = .claimed job ∨ w.workers worker = .raised job) :
    KnownJob w.toState job := by
  have hworker := hsound.workers worker
  rcases hphase with hphase | hphase
  · rw [hphase] at hworker
    cases hworker with
    | claimed hjob => exact hjob
  · rw [hphase] at hworker
    cases hworker with
    | raised hjob => exact hjob

theorem steps_claim {lease : ℤ} {now : Timestamp} {reached locked : UUID → Bool}
    (hsound : Sound cal w) :
    Steps cal (.claim worker lease now reached locked) view w
      (World.commit cal (.claim worker lease now reached locked) view w).1 := by
  simp only [World.commit]
  split
  next hidle =>
    rcases hclaim : claimReadyJobs .automationOccurrence (workerOwner worker) now (now + lease) 1
      reached locked w.store.durableJobs with ⟨durableJobs, claimed⟩
    have hjobs : durableJobs = (claimReadyJobs .automationOccurrence (workerOwner worker) now
        (now + lease) 1 reached locked w.store.durableJobs).1 := by rw [hclaim]
    have heffect : Effect cal w.workers (.claim worker lease now reached locked)
        (fun n => (view n).toState) w.toState
        { w.toState with store := { w.store with durableJobs } } := by
      refine .of_jobs ?_
      rw [hjobs]
      exact .of_moves queueMoves_claim
    cases claimed with
    | nil => exact .of_effect heffect
    | cons job rest =>
      have hmem : job ∈ (claimReadyJobs .automationOccurrence (workerOwner worker) now (now + lease) 1
          reached locked w.store.durableJobs).2 := by
        rw [hclaim]
        exact .head _
      obtain ⟨hthere, hkind, -⟩ := mem_of_claimed hmem
      rw [← hjobs] at hthere
      exact (Steps.of_effect heffect).setWorker (.claimed ⟨hkind, job, hthere, .refl job⟩)
  next => exact .refl

theorem steps_execute {clock : ℕ → Timestamp} {budget : Dict} {fresh : ℕ → Stamp}
    (hsound : Sound cal w) (hviews : ∀ n, Later (view n).toState w.toState) :
    Steps cal (.execute worker clock budget fresh) view w
      (World.commit cal (.execute worker clock budget fresh) view w).1 := by
  simp only [World.commit]
  split
  next job hphase =>
    have hknown := hsound.knownJob (.inl hphase)
    split
    next verdict hread =>
      cases verdict with
      | lost => exact .setWorker .refl .idle
      | settle status errorCode occurrence =>
        simp only [World.proceed]
        split
        next s hsettle =>
          exact (Steps.of_effect (effect_settled hsound.fits hviews hphase hknown hsettle
            hread)).setWorker .idle
        next => exact .setWorker .refl .idle
      | fire o a =>
        simp only [World.proceed]
        split
        next store run hrun =>
          obtain ⟨heffect, hworker⟩ := effect_run hsound.fits hviews hphase hknown hread hrun
          exact (Steps.of_effect heffect).setWorker (hworker.later (heffect.later hsound.fits))
        next => exact .setWorker .refl (.raised hknown)
    next => exact .setWorker .refl (.raised hknown)
  next => exact .refl

theorem steps_settle {now : Timestamp} {stamp : Stamp} {fresh : UUID → ℕ → Stamp}
    (hcal : Function.Injective cal.isoformat) (hsound : Sound cal w)
    (hviews : ∀ n, Later (view n).toState w.toState) :
    Steps cal (.settle worker now stamp fresh) view w
      (World.commit cal (.settle worker now stamp fresh) view w).1 := by
  simp only [World.commit]
  split
  next job o a hphase =>
    have hworker := hsound.workers worker
    rw [hphase] at hworker
    split
    next s hfire =>
      split
      next s' hsettle =>
        exact (Steps.of_effect (effect_fired hsound.fits hcal hviews hphase hworker hfire
          hsettle)).setWorker .idle
      next => exact .setWorker .refl .idle
    next =>
      cases hworker with
      | triggered hknown => exact .setWorker .refl (.raised hknown)
  next => exact .refl

theorem steps_fault (hsound : Sound cal w) :
    Steps cal (.fault worker) view w (World.commit cal (.fault worker) view w).1 := by
  have hworker := hsound.workers worker
  simp only [World.commit]
  split
  next job hphase =>
    rw [hphase] at hworker
    cases hworker with
    | claimed hknown => exact .setWorker .refl (.raised hknown)
  next job _ _ hphase =>
    rw [hphase] at hworker
    cases hworker with
    | triggered hknown => exact .setWorker .refl (.raised hknown)
  next => exact .refl

theorem steps_recordFailure {availableAt now : Timestamp} (hsound : Sound cal w)
    (hviews : ∀ n, Later (view n).toState w.toState) :
    Steps cal (.recordFailure worker availableAt now) view w
      (World.commit cal (.recordFailure worker availableAt now) view w).1 := by
  simp only [World.commit]
  split
  next job hphase =>
    split
    next s hrecord =>
      exact (Steps.of_effect (effect_recordFailure hsound.fits hviews hphase
        (hsound.knownJob (.inr hphase)) hrecord)).setWorker .idle
    next => exact .setWorker .refl .idle
    next => exact .setWorker .refl .idle
  next => exact .refl

theorem commit_steps (hcal : Function.Injective cal.isoformat) (op : Op) (hsound : Sound cal w)
    (hviews : ∀ n, Later (view n).toState w.toState) :
    Steps cal op view w (World.commit cal op view w).1 := by
  cases op with
  | create c lookups stamp => exact .answered fun s o h => .of_effect (effect_create h)
  | changeStatus c stamp => exact .answered fun s o h => .of_effect (effect_changeStatus hviews h)
  | deleteAccount userId now => exact .of_effects rfl (effects_deleteAccount hviews)
  | rebindThing fromThingId toThingId => exact .of_effect effect_rebindThing
  | registerPushToken endpoint =>
    simp only [World.commit]
    split
    · exact .of_effect (.of_automations (.refl .refl _) ⟨rfl, rfl, rfl, rfl⟩)
    · exact .refl
  | deletePushToken userId deviceId now =>
    exact .of_effect (.of_automations (.refl .refl _) ⟨rfl, rfl, rfl, rfl⟩)
  | processDue occurredAt limit locked taskStatus fresh =>
    exact .answered fun s n h => .of_effects rfl (effects_processDue hsound.fits (hviews 0) h)
  | claim worker lease now reached locked => exact steps_claim hsound
  | execute worker clock budget fresh => exact steps_execute hsound hviews
  | settle worker now stamp fresh => exact steps_settle hcal hsound hviews
  | fault worker => exact steps_fault hsound
  | recordFailure worker availableAt now => exact steps_recordFailure hsound hviews
  | abandon worker => exact .setWorker .refl .idle
  | reconcileExhausted now =>
    refine .answered fun s u h => .of_effect ?_
    cases hresult : reconcileExhausted now (fun n => (view n).toState) w.toState with
    | error e =>
      rw [hresult] at h
      cases h
    | ok s₁ =>
      rw [hresult] at h
      obtain ⟨rfl, -⟩ := Prod.mk.inj (Except.ok.inj h)
      exact effect_exhausted hviews hresult
  | updateDelivery d =>
    exact .of_effect (.deliveries (.update .refl fun _ _ _ => ⟨rfl, rfl, rfl, rfl⟩)
      ⟨rfl, rfl, rfl, rfl⟩)
  | addJob job hkind =>
    simp only [World.commit]
    split
    next store hadd =>
      obtain ⟨durableJobs, hinsert, rfl⟩ := Store.addJob_ok hadd
      exact .of_effect (.of_jobs (.insert? .refl hkind hinsert))
    next => exact .refl
  | settleJob jobId owner claimEpoch status now errorCode howner =>
    refine .of_effect (.of_jobs (.update .refl fun j hj hp => ?_))
    refine .of_kind rfl ⟨rfl, rfl, rfl, rfl⟩ fun hkind => ?_
    have hheld := not_heldBy_foreign jobId claimEpoch howner
      (hsound.fits.jobs j hj hkind).1
    rw [(settleWhere_iff.mp hp).1] at hheld
    cases hheld
  | runtime op hforeign =>
    have hqueued : Queued w.store.durableJobs := fun j hj hkind => by
      obtain ⟨o, -, -, hfor, -⟩ := hsound.fits.occurrenceOf hj hkind
      exact ⟨(hsound.fits.jobs j hj hkind).1, o.id, hfor.dedupeKey⟩
    exact .of_effect (.queue (sameOrigins_foreign hforeign) (queueMoves_foreign hforeign hqueued)
      ⟨rfl, rfl, rfl, rfl⟩)

/-! ## Every history -/

/-- The invariant holds in every state, and nothing is lost from one state to a later one. -/
theorem stable (hcal : Function.Injective cal.isoformat) :
    Program.Stable (system cal) (fun _ _ _ => True) (Sound cal)
      fun v w => Later v.toState w.toState where
  init w hw := by
    obtain rfl : w = {} := hw
    exact ⟨⟨fun _ h => absurd h not_mem_empty, fun _ h => absurd h not_mem_empty,
      fun _ h => absurd h not_mem_empty, fun _ h => absurd h not_mem_empty,
      fun _ h => absurd h not_mem_empty, fun _ h => absurd h not_mem_empty,
      fun _ h => absurd h not_mem_empty, fun _ h => absurd h not_mem_empty,
      fun _ h => absurd h not_mem_empty⟩, fun _ => .idle⟩
  refl w := .refl _
  trans u v w := .trans
  step op view w hsound hviews _ := by
    have hsteps := commit_steps hcal op hsound fun n => (hviews n).2
    obtain ⟨hfits, hlater⟩ := effects_fits hsteps.effects hsound.fits (hviews 0).2
    refine ⟨⟨hfits, fun worker => ?_⟩, hlater⟩
    rcases hsteps.workers worker with hsame | hworker
    · have hphase := (hsound.workers worker).later hlater
      rwa [← hsame] at hphase
    · exact hworker

end Automations
