import Laoshiren.Automations.Proofs.StoppingProofs

/-!
# Proofs: a Run and what becomes of its Occurrence

The Run of an Occurrence commits before the Occurrence succeeds. In between, the Occurrence can end
otherwise: another worker skips it or fails it, or its job runs out of deliveries. As long as no
Occurrence ends otherwise once its Run is there, and no Run is triggered for one that ended, every Run
belongs to an Occurrence that succeeded or that will be executed again.
-/

namespace Automations

open Runtime Table DurableJobRepository
open PersonalState (Calendar)

variable {cal : Calendar} {workers : UUID → Worker} {op : Op} {view : ℕ → State} {s s' : State}
  {o o' : AutomationOccurrence} {h : History World Op Reply}

/-! ## Runs and Occurrences -/

/-- The Occurrence succeeded, or it is open and its job is not over. -/
def Executable (s : State) (o : AutomationOccurrence) : Prop :=
  o.status = .succeeded ∨ o.status = .materialized ∧
    ∃ j ∈ s.store.durableJobs, o.durableJobId = some j.id ∧ Live j.status

/-- Every Run of an Automation belongs to an Occurrence that succeeded or will be executed again, and no
Occurrence that ended otherwise has a Run. -/
structure Whole (cal : Calendar) (s : State) : Prop where
  runs : ∀ r ∈ s.store.runs, r.trigger = .automation → ∃ o ∈ s.occurrences,
    RunOf cal o.toSlot r ∧ Executable s o
  ended : ∀ o ∈ s.occurrences, o.status = .skipped ∨ o.status = .cancelled ∨ o.status = .failed →
    ∀ r ∈ s.store.runs, ¬RunOf cal o.toSlot r

/-- There is no Run for the Occurrence of the job. -/
def Untriggered (cal : Calendar) (s : State) (jobId : UUID) : Prop :=
  ∀ o ∈ s.occurrences, o.durableJobId = some jobId → ∀ r ∈ s.store.runs, ¬RunOf cal o.toSlot r

/-- The job is not over, or its Occurrence succeeded. -/
def Undecided (s : State) (jobId : UUID) : Prop :=
  (∃ j ∈ s.store.durableJobs, j.id = jobId ∧ Live j.status) ∨
    ∃ o ∈ s.occurrences, o.durableJobId = some jobId ∧ o.status = .succeeded

/-- The worker still holds the job as it claimed it. -/
def Holds (s : State) (worker : UUID) (job : DurableJob) : Prop :=
  ∃ j ∈ s.store.durableJobs, heldBy job.id (workerOwner worker) job.claimEpoch j = true

/-- A step ends an Occurrence without firing it only where there is no Run for it, and triggers a Run only
for an Occurrence that did not end otherwise. -/
def KeepsWhole (cal : Calendar) (workers : UUID → Worker) (op : Op) (view : ℕ → State) (s : State) :
    Prop :=
  match op with
  | .execute worker clock _ _ => ∀ job, workers worker = .claimed job →
    (∀ o a, inspect cal job (workerOwner worker) clock view = .ok (.fire o a) →
      Undecided s job.id) ∧
    ∀ status errorCode occurrence, inspect cal job (workerOwner worker) clock view =
      .ok (.settle status errorCode occurrence) → Holds s worker job → Untriggered cal s job.id
  | .recordFailure worker _ _ => ∀ job, workers worker = .raised job →
    ¬job.deliveryAttempt < job.maxDeliveryAttempts → Holds s worker job → Untriggered cal s job.id
  | op => ∀ swept ∈ op.sweep, ∀ j ∈ s.store.durableJobs, j.kind = .automationOccurrence →
    swept.2 j.id = true → exhaustedWhere swept.1 j = true → Untriggered cal s j.id

/-! ## One effect -/

/-- A step that sweeps, seen from a job that it gives up. -/
theorem KeepsWhole.swept (h : KeepsWhole cal workers op view s) {swept : Timestamp × (UUID → Bool)}
    (hswept : swept ∈ op.sweep) {j : DurableJob} (hj : j ∈ s.store.durableJobs)
    (hkind : j.kind = .automationOccurrence) (hreached : swept.2 j.id = true)
    (hexhausted : exhaustedWhere swept.1 j = true) : Untriggered cal s j.id := by
  cases op with
  | execute | recordFailure => cases hswept
  | _ => exact h swept hswept j hj hkind hreached hexhausted

/-- A step that ends an Occurrence without firing it. -/
theorem KeepsWhole.ends (h : KeepsWhole cal workers op view s) {worker : UUID} {job j : DurableJob}
    (hends : Ends cal workers view op worker job) (hj : j ∈ s.store.durableJobs)
    (hheld : heldBy job.id (workerOwner worker) job.claimEpoch j = true) :
    Untriggered cal s job.id := by
  cases hends with
  | execute hphase hread => exact (h job hphase).2 _ _ _ hread ⟨j, hj, hheld⟩
  | giveUp hphase hlast => exact h job hphase hlast ⟨j, hj, hheld⟩

/-- Where the Run of an open Occurrence is there, the step leaves the Occurrence to be executed or to have
succeeded. -/
theorem Effect.executable (h : Effect cal workers op view s s') (hfits : Fits cal s)
    (hview : Later (view 0) s) (hkeeps : KeepsWhole cal workers op view s) (ho : o ∈ s.occurrences)
    {r : AgentRun} (hr : r ∈ s.store.runs) (hrun : RunOf cal o.toSlot r) (hexec : Executable s o) :
    ∃ o' ∈ s'.occurrences, o'.toSlot = o.toSlot ∧ Executable s' o' := by
  have hlater := h.later hfits
  rcases hexec with hsucceeded | ⟨hopen, j, hj, hlink, hlive⟩
  · obtain ⟨o', ho', hmove⟩ := hlater.occurrences.kept o ho
    exact ⟨o', ho', hmove.slot, .inl ((hmove.settled (by simp [hsucceeded])).trans hsucceeded)⟩
  have hkind : j.kind = .automationOccurrence := (hfits.linkedJob ho hj hlink).1.kind
  -- the Occurrence stays open where it stays as it is and its job stays live
  have hstays : o ∈ s'.occurrences → (∃ j' ∈ s'.store.durableJobs, j'.id = j.id ∧ Live j'.status) →
      ∃ o' ∈ s'.occurrences, o'.toSlot = o.toSlot ∧ Executable s' o' := by
    rintro ho' ⟨j', hj', hid, hlive'⟩
    exact ⟨o, ho', rfl, .inr ⟨hopen, j', hj', by rw [hid, hlink], hlive'⟩⟩
  have hqueue : ∀ {sweep : Option (Timestamp × (UUID → Bool))} {new : DurableJob → Prop},
      Grows (QueueMove sweep) new s.store.durableJobs s'.store.durableJobs →
      (∀ swept ∈ sweep, swept.2 j.id = true → exhaustedWhere swept.1 j = true → False) →
      ∃ j' ∈ s'.store.durableJobs, j'.id = j.id ∧ Live j'.status := by
    intro sweep new hjobs hspared
    obtain ⟨j', hj', hmove⟩ := hjobs.kept j hj
    refine ⟨j', hj', hmove.later.id, ?_⟩
    rcases hmove.live hkind hlive with hlive' | ⟨-, swept, hswept, hreached, hexhausted⟩
    · exact hlive'
    · exact (hspared swept hswept hreached hexhausted).elim
  have hsame : s'.store.durableJobs = s.store.durableJobs →
      ∃ j' ∈ s'.store.durableJobs, j'.id = j.id ∧ Live j'.status :=
    fun hjobs => ⟨j, hjobs ▸ hj, rfl, hlive⟩
  cases h with
  | clients _ _ hrest =>
    obtain ⟨hstore, hoccurrences, -⟩ := hrest
    exact hstays (hoccurrences ▸ ho) (hsame (congrArg (·.durableJobs) hstore))
  | materialized _ _ _ _ _ _ _ _ _ hoccurrences _ hjobs _ =>
    obtain ⟨_, ho', rfl⟩ := hoccurrences.kept o ho
    obtain ⟨_, hj', rfl⟩ := hjobs.kept j hj
    exact hstays ho' ⟨j, hj', rfl, hlive⟩
  | passedOver _ _ _ _ _ _ _ _ hoccurrences hrest =>
    obtain ⟨_, ho', rfl⟩ := hoccurrences.kept o ho
    exact hstays ho' (hsame (congrArg (·.durableJobs) hrest.1))
  | run _ _ _ _ _ _ _ _ _ hjobs hrest =>
    exact hstays (hrest.2.1 ▸ ho) (hqueue hjobs fun _ h => by cases h)
  | @ended worker job j₁ o₁ status outcome now errorCode settledAt hends hclaim hlink₁ hopen₁ hending
      hoccurrences hjobs =>
    have hheld := (settleWhere_iff.mp hclaim).1
    have hid : j₁.id = job.id := (heldBy_iff.mp hheld).1
    have huntriggered := hkeeps.ends hends hjobs.1 hheld
    have hother : o ≠ o₁ := by
      rintro rfl
      exact huntriggered o ho (hlink₁.trans (congrArg some hid)) r hr hrun
    refine hstays (hoccurrences.mem_of_ne ho hother) ⟨j, hjobs.mem_of_ne hj ?_, rfl, hlive⟩
    rintro rfl
    exact hother (hfits.linked_eq ho hoccurrences.1 hlink hlink₁)
  | @fired worker job j₁ o₁ read a i now stamp fresh jobs _ _ hclaim hlink₁ _ _ _ _ _ _ _ hdeliveries
      hoccurrences hjobs =>
    by_cases hsettled : o = o₁
    · subst hsettled
      exact ⟨_, hoccurrences.mem_new, rfl, .inl rfl⟩
    · obtain ⟨_, hj', rfl⟩ := hdeliveries.queued.kept j hj
      refine hstays (hoccurrences.mem_of_ne ho hsettled) ⟨j, hjobs.mem_of_ne hj' ?_, rfl, hlive⟩
      rintro rfl
      exact hsettled (hfits.linked_eq ho hoccurrences.1 hlink hlink₁)
  | exhausted _ hoccurrences _ hrest =>
    obtain ⟨o', ho', rfl | ⟨hwhere, -⟩⟩ := hoccurrences.exists_mem ho
    · exact hstays ho' (hsame (congrArg (·.durableJobs) hrest.1))
    · obtain ⟨j', hj', hlink', hfailed⟩ := exhausted_job hview.jobs hwhere
      obtain rfl := job_eq hj hj' (Option.some.inj (hlink.symm.trans hlink'))
      rw [hfailed] at hlive
      rcases hlive with hlive | hlive <;> cases hlive
  | queue _ hjobs hrest =>
    refine hstays (hrest.2.1 ▸ ho) (hqueue hjobs fun swept hswept hreached hexhausted => ?_)
    exact hkeeps.swept hswept hj hkind hreached hexhausted o ho hlink r hr hrun
  | deliveries _ hrest =>
    obtain ⟨hstore, -, hoccurrences, -⟩ := hrest
    exact hstays (hoccurrences ▸ ho) (hsame (congrArg (·.durableJobs) hstore))

theorem Fits.executable_of_undecided (hfits : Fits cal s) {jobId : UUID} (ho : o ∈ s.occurrences)
    (hlink : o.durableJobId = some jobId) (h : Undecided s jobId) : Executable s o := by
  rcases h with ⟨j, hj, rfl, hlive⟩ | ⟨o', ho', hlink', hsucceeded⟩
  · obtain ⟨-, hagree⟩ := hfits.linkedJob ho hj hlink
    exact .inr ⟨hagree.materialized hlive, j, hj, hlink, hlive⟩
  · obtain rfl := hfits.linked_eq ho ho' hlink hlink'
    exact .inl hsucceeded

/-- What is executed again did not end otherwise. -/
theorem Executable.not_ended (h : Executable s o) :
    ¬(o.status = .skipped ∨ o.status = .cancelled ∨ o.status = .failed) := by
  rcases h with hstatus | ⟨hstatus, -⟩ <;> simp [hstatus]

/-- The two parts of `Whole` are one: a slot has one Occurrence. -/
theorem Whole.of_runs (hcal : Function.Injective cal.isoformat)
    (hruns : ∀ r ∈ s.store.runs, r.trigger = .automation → ∃ o ∈ s.occurrences,
      RunOf cal o.toSlot r ∧ Executable s o) : Whole cal s := by
  refine ⟨hruns, fun o ho hended r hr hrun => ?_⟩
  obtain ⟨o', ho', hrun', hexec⟩ := hruns r hr hrun.1
  have hslot : o.toSlot = o'.toSlot := runKey_inj hcal (hrun.2.symm.trans hrun'.2)
  obtain rfl := eq_of_conflict ho ho' (.inr hslot)
  exact hexec.not_ended hended

theorem Whole.effect (hwhole : Whole cal s) (hcal : Function.Injective cal.isoformat)
    (hfits : Fits cal s) (hview : Later (view 0) s) (hkeeps : KeepsWhole cal workers op view s)
    (h : Effect cal workers op view s s') : Whole cal s' := by
  refine .of_runs hcal fun r' hr' htrigger => ?_
  have hlater := h.later hfits
  -- a Run that was there, or one that was just triggered
  have hold : ∀ r ∈ s.store.runs, SameOrigin r r' → ∃ o ∈ s'.occurrences,
      RunOf cal o.toSlot r' ∧ Executable s' o := by
    intro r hr hsame
    obtain ⟨o, ho, hrun, hexec⟩ := hwhole.runs r hr (hsame.trigger.symm.trans htrigger)
    obtain ⟨o', ho', hslot, hexec'⟩ := h.executable hfits hview hkeeps ho hr hrun hexec
    refine ⟨o', ho', ⟨htrigger, ?_⟩, hexec'⟩
    rw [hsame.idempotencyKey, hrun.2, hslot]
  have hkept : s'.store.runs = s.store.runs → ∃ o ∈ s'.occurrences,
      RunOf cal o.toSlot r' ∧ Executable s' o :=
    fun hruns => hold r' (hruns ▸ hr') ⟨rfl, rfl, rfl, rfl⟩
  cases h with
  | clients _ _ hrest => exact hkept (congrArg (·.runs) hrest.1)
  | materialized _ _ _ _ _ _ _ _ _ _ _ _ hrest => exact hkept hrest.1
  | passedOver _ _ _ _ _ _ _ _ _ hrest => exact hkept (congrArg (·.runs) hrest.1)
  | @run worker clock budget fresh job read a hop hphase hread row hrow hlink hslot huser hautomation
      hruns hjobs hrest =>
    rcases hruns.origin r' hr' with ⟨r, hr, hsame⟩ | ⟨-, hkey⟩
    · exact hold r hr hsame
    · subst hop
      have hundecided := (hkeeps job hphase).1 read a hread
      rw [slotOf_eq hautomation, ← hslot] at hkey
      refine ⟨row, hrest.2.1 ▸ hrow, ⟨htrigger, hkey⟩, ?_⟩
      rcases hfits.executable_of_undecided hrow hlink hundecided with
        hsucceeded | ⟨hopen, j, hj, hlink', hlive⟩
      · exact .inl hsucceeded
      · obtain ⟨j', hj', hmove⟩ := hjobs.kept j hj
        have hkind := (hfits.linkedJob hrow hj hlink').1.kind
        rcases hmove.live hkind hlive with hlive' | ⟨-, swept, hswept, -⟩
        · exact .inr ⟨hopen, j', hj', by rw [hlink', hmove.later.id], hlive'⟩
        · cases hswept
  | ended _ _ _ _ _ _ _ _ _ hrest => exact hkept hrest.1
  | fired _ _ _ _ _ _ _ _ _ _ _ _ _ _ _ _ hrest => exact hkept hrest
  | exhausted _ _ _ hrest => exact hkept (congrArg (·.runs) hrest.1)
  | queue hruns _ _ =>
    rcases hruns.origin r' hr' with ⟨r, hr, hsame⟩ | huser
    · exact hold r hr hsame
    · exact absurd htrigger huser
  | deliveries _ hrest => exact hkept (congrArg (·.runs) hrest.1)

/-! ## Every history -/

/-- The steps of several effects end nothing that a worker executes. -/
theorem KeepsWhole.of_loops {s₁ : State} (h : KeepsWhole cal workers op view s)
    (hloops : op.loops = true) : KeepsWhole cal workers op view s₁ := by
  cases op with
  | processDue | deleteAccount => exact fun _ hswept => by cases hswept
  | _ => cases hloops

theorem Whole.effects (hwhole : Whole cal s) (hcal : Function.Injective cal.isoformat)
    (hfits : Fits cal s) (hview : Later (view 0) s) (hkeeps : KeepsWhole cal workers op view s)
    (hloops : op.loops = true) (h : Relation.ReflTransGen (Effect cal workers op view) s s') :
    Whole cal s' := by
  induction h with
  | refl => exact hwhole
  | tail hfirst hlast ih =>
    obtain ⟨hfits', hlater⟩ := effects_fits hfirst hfits hview
    exact ih.effect hcal hfits' (hview.trans hlater) (hkeeps.of_loops hloops) hlast

theorem Whole.commit {view : ℕ → World} {w : World} (hwhole : Whole cal w.toState)
    (hcal : Function.Injective cal.isoformat) (hsound : Sound cal w)
    (hviews : ∀ n, Later (view n).toState w.toState)
    (hkeeps : KeepsWhole cal w.workers op (fun n => (view n).toState) w.toState) :
    Whole cal (World.commit cal op view w).1.toState := by
  have hsteps := commit_steps hcal op hsound hviews
  cases hloops : op.loops with
  | true => exact hwhole.effects hcal hsound.fits (hviews 0) hkeeps hloops hsteps.effects
  | false =>
    have hsingle := hsteps.single hloops
    generalize (World.commit cal op view w).1.toState = s' at hsingle
    cases hsingle with
    | refl => exact hwhole
    | single heffect => exact hwhole.effect hcal hsound.fits (hviews 0) hkeeps heffect

/-- Where no step ends an Occurrence whose Run is there, except by firing it, and none triggers a Run for
an Occurrence that ended otherwise, every Run belongs in every state to an Occurrence that succeeded or
that will be executed again. -/
theorem run_commits_with_occurrence (hcal : Function.Injective cal.isoformat)
    (hr : (system cal).ReachableIf
      (fun op view w => KeepsWhole cal w.workers op (fun n => (view n).toState) w.toState) h) :
    ∀ w ∈ h.states, Whole cal w.toState := by
  intro w hw
  have hstable := ((stable hcal).restrict
    (p := fun op view w => KeepsWhole cal w.workers op (fun n => (view n).toState) w.toState)
    fun _ _ _ _ => trivial).strengthen
    (fun w => Whole cal w.toState) ?_ ?_
  · exact (hstable.inv_mem hr hw).2
  · rintro _ rfl
    exact .of_runs hcal fun r hr => absurd hr not_mem_empty
  · intro op view w hsound hwhole hviews hkeeps
    exact hwhole.commit hcal hsound (fun n => (hviews n).2.2) hkeeps

/-! ## A reminder whose worker crashes -/

/-- The steps up to the one in which worker 5 triggers the Run sweep nothing that was given up. -/
theorem firedReminder_keepsWhole : (system PersonalState.tallies).SerialMeets
    (fun op view w => KeepsWhole PersonalState.tallies w.workers op (fun n => (view n).toState)
      w.toState) ⟨{}, [], []⟩ firedReminder := by
  have hnone : ∀ swept : Timestamp × (UUID → Bool), swept ∈ (none : Option _) → False :=
    fun swept => Option.not_mem_none swept
  refine ⟨fun _ h => (hnone _ h).elim, fun _ h => (hnone _ h).elim, ?_, ?_,
    fun _ h => (hnone _ h).elim, trivial⟩
  · intro swept hswept j hj _ _ hexhausted
    obtain rfl := Option.some.inj hswept
    have hfresh : ∀ j ∈ ((system PersonalState.tallies).serial {}
        (dueReminder.take 2)).cur.store.durableJobs.rows, exhaustedWhere 2 j = false := by
      decide +kernel
    rw [hfresh j hj] at hexhausted
    cases hexhausted
  · intro job hphase
    obtain rfl := Worker.claimed.inj hphase
    refine ⟨fun o a _ => .inl ⟨_, List.mem_singleton_self _, rfl, .inr rfl⟩, ?_⟩
    intro status errorCode occurrence _ _ o _ _ r hr
    have hnone : ((system PersonalState.tallies).serial {} dueReminder).cur.store.runs.rows = [] := by
      decide +kernel
    have hmem : r ∈ ([] : List AgentRun) := hnone ▸ hr
    cases hmem

/-- A reminder that fired. -/
theorem run_commits_with_occurrence_reminder :
    Whole PersonalState.tallies
      ((system PersonalState.tallies).serial {} firedReminder).cur.toState :=
  run_commits_with_occurrence PersonalState.tallies_injective
    ((system PersonalState.tallies).serial_reachableIf rfl firedReminder firedReminder_keepsWhole)
    _ (.head _)

/-- Worker 5 triggers the Run and crashes, Automation 10 is cancelled, and worker 6 takes the job over. -/
def cancelledHalfway : List Op :=
  dueReminder ++ [.execute 5 (fun _ => 3) [] (stampsFrom 30 3), .abandon 5,
    .changeStatus ⟨1, 10, "CANCEL", 2, "cancel"⟩ ⟨60, 5⟩,
    .claim 6 60 100 (fun _ => true) (fun _ => false),
    .execute 6 (fun _ => 101) [] (stampsFrom 70 101)]

/-- An Occurrence is skipped whose Run is there, and no worker is at it any more. -/
theorem skipped_with_run :
    ∃ h : History World Op Reply, (system PersonalState.tallies).Reachable h ∧
      (∀ worker, h.cur.workers worker = .idle) ∧ ¬Whole PersonalState.tallies h.cur.toState := by
  refine ⟨_, (system PersonalState.tallies).serial_reachable rfl cancelledHalfway, ?_, ?_⟩
  · have hworkers : ∃ p q r s, ((system PersonalState.tallies).serial {} cancelledHalfway).cur.workers =
        Function.update (Function.update (Function.update (Function.update (Function.update
          (fun _ => .idle) 5 p) 5 q) 5 .idle) 6 r) 6 s ∧ s = .idle := ⟨_, _, _, _, rfl, rfl⟩
    obtain ⟨p, q, r, s, hworkers, rfl⟩ := hworkers
    intro worker
    rw [hworkers]
    by_cases h6 : worker = 6
    · rw [h6, Function.update_self]
    · rw [Function.update_of_ne h6, Function.update_of_ne h6]
      by_cases h5 : worker = 5
      · rw [h5, Function.update_self]
      · rw [Function.update_of_ne h5, Function.update_of_ne h5, Function.update_of_ne h5]
  · intro hwhole
    have hskipped : ∃ o ∈ ((system PersonalState.tallies).serial {}
        cancelledHalfway).cur.occurrences.rows, o.status = .skipped ∧
        ∃ r ∈ ((system PersonalState.tallies).serial {} cancelledHalfway).cur.store.runs.rows,
          r.trigger = .automation ∧
            r.idempotencyKey = "automation-run:" ++ o.toSlot.key PersonalState.tallies := by
      decide +kernel
    obtain ⟨o, ho, hstatus, r, hr, hrun⟩ := hskipped
    exact hwhole.ended o ho (.inl hstatus) r hr hrun

end Automations
