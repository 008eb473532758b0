import Laoshiren.Automations.Proofs.OutcomeProofs

/-!
# Proofs: an active Automation fires or completes

A one-shot Automation gives its trigger up when its Occurrence is materialized, and it completes when the
Occurrence ends. A transaction that ends the Occurrence completes the Automation only as it read it, so
one that read it as paused leaves it without trigger and without Occurrence.
-/

namespace Automations

open Runtime Table DurableJobRepository
open PersonalState (Calendar)

variable {cal : Calendar} {workers : UUID → Worker} {op : Op} {view : ℕ → State} {s s' : State}
  {a a' b : Automation} {o : AutomationOccurrence} {h : History World Op Reply}

/-! ## Automations that are not over -/

/-- The Automation is active or paused. -/
def Automation.Unfinished (a : Automation) : Prop := a.status = .active ∨ a.status = .paused

/-- An Automation that is not over has a trigger, or it is a one-shot and its Occurrence is open. -/
def Awaited (s : State) (a : Automation) : Prop :=
  a.Unfinished → a.nextTriggerAt ≠ none ∨ isOneShotType a.automationType = true ∧
    ∃ o ∈ s.occurrences, o.automationId = a.id ∧ o.status = .materialized

/-- The Occurrence is open, and its job will be executed or given up and reconciled. -/
structure StillDue (s : State) (o : AutomationOccurrence) : Prop where
  status : o.status = .materialized
  job : (∃ j ∈ s.store.durableJobs, o.durableJobId = some j.id ∧ Live j.status) ∨
    OccurrenceRepository.failExhaustedWhere s.store.durableJobs o = true

/-- An active Automation can fire or complete. -/
def CanProceed (s : State) (a : Automation) : Prop :=
  a.status = .active → (∃ t, a.nextTriggerAt = some t) ∨ isOneShotType a.automationType = true ∧
    ∃ o ∈ s.occurrences, o.automationId = a.id ∧ StillDue s o

/-- The Automation of the Occurrence is found, and not as one that is paused. -/
def FoundUnpaused (s : State) (o : AutomationOccurrence) : Prop :=
  ∃ a, AutomationRepository.get o.userId o.automationId s.automations = some a ∧ a.status ≠ .paused

/-- A step that ends an Occurrence did not read its Automation as paused. -/
def ReadsUnpaused (cal : Calendar) (workers : UUID → Worker) (op : Op) (view : ℕ → State)
    (s : State) : Prop :=
  match op with
  | .settle worker _ _ _ => ∀ job o a, workers worker = .triggered job o a → a.status ≠ .paused
  | .execute worker clock _ _ => ∀ job status errorCode occurrence,
    workers worker = .claimed job → inspect cal job (workerOwner worker) clock view =
      .ok (.settle status errorCode occurrence) →
        ∀ o ∈ s.occurrences, o.durableJobId = some job.id → FoundUnpaused (view 2) o
  | .recordFailure worker _ _ => ∀ job, workers worker = .raised job →
    ¬job.deliveryAttempt < job.maxDeliveryAttempts →
      ∀ o ∈ s.occurrences, o.durableJobId = some job.id → FoundUnpaused (view 2) o
  | .reconcileExhausted _ => ∀ n, ∀ o ∈ s.occurrences,
    OccurrenceRepository.failExhaustedWhere (view 0).store.durableJobs o = true →
      FoundUnpaused (view n) o
  | _ => True

/-! ## One effect -/

theorem StatusMove.unfinished (h : StatusMove op a a') (hunfinished : a'.Unfinished) :
    a.Unfinished ∧ a'.id = a.id ∧ a'.nextTriggerAt = a.nextTriggerAt ∧
      a'.automationType = a.automationType := by
  cases h with
  | touched => exact ⟨hunfinished, rfl, rfl, rfl⟩
  | cancelled => rcases hunfinished with h | h <;> cases h
  | paused _ hactive => exact ⟨.inl hactive, rfl, rfl, rfl⟩
  | resumed _ _ _ _ hpaused => exact ⟨.inr hpaused, rfl, rfl, rfl⟩

theorem CompletionMove.unfinished (h : CompletionMove a a') (hunfinished : a'.Unfinished) :
    a' = a := by
  cases h with
  | kept => rfl
  | completed => rcases hunfinished with h | h <;> cases h

/-- What recurs has a next trigger. -/
theorem Automation.WellFormed.nextTrigger_ne_none (h : a.WellFormed) {occurredAt t : Timestamp}
    (hdue : a.nextTriggerAt = some t) (hshot : isOneShotType a.automationType ≠ true) :
    a.nextTrigger occurredAt ≠ none := by
  unfold Automation.nextTrigger
  rw [if_neg hshot]
  split
  next hrecurring =>
    obtain ⟨n, hn, -⟩ := h.recurring hrecurring
    rw [Option.mem_def.mp hn]
    exact Option.some_ne_none _
  next =>
    rw [hdue]
    exact Option.some_ne_none _

/-- An Automation whose Occurrence ends is over, unless it was read as paused. -/
theorem not_unfinished_of_completed (ha : a ∈ s.automations) (hunfinished : a.Unfinished)
    (hshot : isOneShotType a.automationType = true) (hknown : KnownAutomation s b)
    (hid : b.id = a.id) (hread : b.status ≠ .paused) (hcompleted : Completed b s'.automations) :
    a ∉ s'.automations := by
  intro ha'
  obtain ⟨r, hr, hlater⟩ := hknown
  obtain rfl := automation_eq ha hr (hid.symm.trans hlater.id.symm)
  have hwaits : b.Waits := by
    refine ⟨by rwa [← hlater.automationType], ?_⟩
    cases hstatus : b.status with
    | active => rfl
    | paused => exact absurd hstatus hread
    | completed =>
      have hover := hlater.ended (.inr hstatus)
      rw [hstatus] at hover
      rcases hunfinished with h | h <;> rw [hover] at h <;> cases h
    | cancelled =>
      have hover := hlater.ended (.inl hstatus)
      rw [hstatus] at hover
      rcases hunfinished with h | h <;> rw [hover] at h <;> cases h
  have hstatus := hcompleted hwaits a ha' hid.symm
  rcases hunfinished with h | h <;> rw [hstatus] at h <;> cases h

/-- What the workers hold is known to the database. -/
def KnowsWorkers (workers : UUID → Worker) (s : State) : Prop :=
  ∀ worker job o a, workers worker = .triggered job o a → KnownAutomation s a

theorem Awaited.congr (hlaw : Awaited s a) (hoccurrences : s'.occurrences = s.occurrences) :
    Awaited s' a := by
  intro hunfinished
  rw [hoccurrences]
  exact hlaw hunfinished

/-- An Automation that stays as it is, while at most one Occurrence ends. -/
theorem Awaited.of_kept (hlaw : Awaited s a)
    (hoccurrences : ∀ o ∈ s.occurrences, o.automationId = a.id → o.status = .materialized →
      a.Unfinished → isOneShotType a.automationType = true →
        ∃ o' ∈ s'.occurrences, o'.automationId = a.id ∧ o'.status = .materialized) :
    Awaited s' a := by
  intro hunfinished
  refine (hlaw hunfinished).imp id fun ⟨hshot, o, ho, hid, hopen⟩ => ?_
  exact ⟨hshot, hoccurrences o ho hid hopen hunfinished hshot⟩

/-- The Occurrences stay, and the Automations move on. -/
theorem awaited_triggered (hlaw : ∀ a ∈ s.automations, Awaited s a) {new : AutomationOccurrence → Prop}
    (hoccurrences : Grows Eq new s.occurrences s'.occurrences)
    (hautomations : Replaces a a' s.automations s'.automations)
    (hnew : Awaited s' a') : ∀ a ∈ s'.automations, Awaited s' a := by
  intro b hb
  rcases hautomations.mem_cases hb with rfl | ⟨hold, -⟩
  · exact hnew
  · refine (hlaw b hold).of_kept fun o ho hid hopen _ _ => ?_
    obtain ⟨_, ho', rfl⟩ := hoccurrences.kept o ho
    exact ⟨o, ho', hid, hopen⟩

/-- The Automations that are there after an Occurrence ended. -/
theorem awaited_completed (hlaw : ∀ a ∈ s.automations, Awaited s a)
    (hautomations : s.automations.Moves CompletionMove s'.automations)
    (hoccurrences : ∀ a ∈ s.automations, a ∈ s'.automations → a.Unfinished →
      isOneShotType a.automationType = true → ∀ o ∈ s.occurrences, o.automationId = a.id →
        o.status = .materialized → ∃ o' ∈ s'.occurrences, o'.automationId = a.id ∧
          o'.status = .materialized) : ∀ a ∈ s'.automations, Awaited s' a := by
  intro b hb hunfinished
  obtain ⟨a, ha, hmove⟩ := hautomations.mem hb
  obtain rfl := hmove.unfinished hunfinished
  exact (hlaw b ha).of_kept
    (fun o ho hid hopen hunfinished hshot => hoccurrences b ha hb hunfinished hshot o ho hid hopen)
    hunfinished

/-- A step that ends an Occurrence without firing it. -/
theorem ReadsUnpaused.ends (h : ReadsUnpaused cal workers op view s) {worker : UUID}
    {job : DurableJob} (hends : Ends cal workers view op worker job) (ho : o ∈ s.occurrences)
    (hlink : o.durableJobId = some job.id) : FoundUnpaused (view 2) o := by
  cases hends with
  | execute hphase hread => exact h job _ _ _ hphase hread o ho hlink
  | giveUp hphase hlast => exact h job hphase hlast o ho hlink

theorem effect_awaited (h : Effect cal workers op view s s') (hfits : Fits cal s)
    (hviews : ∀ n, Later (view n) s) (hworkers : KnowsWorkers workers s)
    (hreads : ReadsUnpaused cal workers op view s) (hlaw : ∀ a ∈ s.automations, Awaited s a) :
    ∀ a ∈ s'.automations, Awaited s' a := by
  have hsame : s'.automations = s.automations → s'.occurrences = s.occurrences →
      ∀ a ∈ s'.automations, Awaited s' a := by
    intro hautomations hoccurrences a ha
    exact (hlaw a (hautomations ▸ ha)).congr hoccurrences
  cases h with
  | clients hautomations _ hrest =>
    intro a' ha' hunfinished'
    rcases hautomations.origin a' ha' with ⟨a, ha, hmove⟩ | hnew
    · obtain ⟨hunfinished, hid, hnext, htype⟩ := hmove.unfinished hunfinished'
      rw [hid, hnext, htype, hrest.2.1]
      exact hlaw a ha hunfinished
    · exact .inl hnew.nextTriggerAt
  | @materialized a o job occurredAt t limit locked taskStatus fresh _ hactive hdue _ ho _ hautomations
      _ hmem hoccurrences =>
    refine awaited_triggered hlaw hoccurrences hautomations fun _ => ?_
    by_cases hshot : isOneShotType a.automationType = true
    · refine .inr ⟨hshot, o, hmem, ?_, ?_⟩
      · rw [ho]
        rfl
      · rw [ho]
        rfl
    · exact .inl ((hfits.wellFormed a hautomations.1).nextTrigger_ne_none hdue hshot)
  | @passedOver a o occurredAt t now limit locked taskStatus fresh _ hactive hdue _ _ hautomations _ _
      hoccurrences =>
    refine awaited_triggered hlaw hoccurrences hautomations fun hunfinished => ?_
    have hkept := (completionMove_completeOneShot (a.markTriggered occurredAt) now).unfinished
      hunfinished
    rw [hkept]
    by_cases hshot : isOneShotType a.automationType = true
    · have hwaits : (a.markTriggered occurredAt).Waits := ⟨hshot, hactive⟩
      rw [completeOneShot_of_waits hwaits] at hunfinished
      rcases hunfinished with h | h <;> cases h
    · exact .inl ((hfits.wellFormed a hautomations.1).nextTrigger_ne_none hdue hshot)
  | run _ _ _ _ _ _ _ _ _ _ hrest => exact hsame hrest.1 hrest.2.1
  | @ended worker job j o status outcome now errorCode settledAt hends hclaim hlink hopen hending
      hoccurrences hjobs hautomations hcompleted hrest =>
    refine awaited_completed hlaw hautomations fun a ha ha' hunfinished hshot r hr hid hopen' => ?_
    by_cases hother : r = o
    · subst hother
      have hjob : j.id = job.id := (heldBy_iff.mp (settleWhere_iff.mp hclaim).1).1
      obtain ⟨b, hget, hunpaused⟩ :=
        hreads.ends hends hr (hlink.trans (congrArg some hjob))
      have hbid := (of_decide_eq_true (get_eq_some hget).2).1
      obtain ⟨hknown, hrevision⟩ := hfits.sameDefinition hviews hr hget
      cases hending with
      | skipped hread hover =>
        obtain rfl := Option.some.inj (hget.symm.trans hread)
        have hcancelled : b.status = .cancelled := hover.resolve_left (not_not_intro hrevision.symm)
        obtain ⟨r, hr, hlater⟩ := hknown
        obtain rfl := automation_eq ha hr ((hbid.trans hid).symm.trans hlater.id.symm)
        have hstatus := hlater.ended (.inl hcancelled)
        rw [hcancelled] at hstatus
        rcases hunfinished with h | h <;> rw [hstatus] at h <;> cases h
      | failed =>
        exact absurd ha' (not_unfinished_of_completed ha hunfinished hshot hknown (hbid.trans hid)
          hunpaused (hcompleted rfl b hget))
      | unseen => exact ⟨_, hoccurrences.mem_new, hid, rfl⟩
    · exact ⟨r, hoccurrences.mem_of_ne hr hother, hid, hopen'⟩
  | @fired worker job j o read b i now stamp fresh jobs hop hphase hclaim hlink hid hopen hautomation
      huser hi hintent hintents hdeliveries hoccurrences hjobs hautomations hcompleted hrest =>
    refine awaited_completed hlaw hautomations fun a ha ha' hunfinished hshot r hr hrid hopen' => ?_
    by_cases hother : r = o
    · subst hother
      subst hop
      exact absurd ha' (not_unfinished_of_completed ha hunfinished hshot
        (hworkers worker job read b hphase) (hautomation.trans hrid) (hreads job read b hphase)
        hcompleted)
    · exact ⟨r, hoccurrences.mem_of_ne hr hother, hrid, hopen'⟩
  | exhausted hop hoccurrences hautomations _ =>
    refine awaited_completed hlaw hautomations fun a ha ha' hunfinished hshot r hr hid hopen' => ?_
    obtain ⟨r', hr', rfl | ⟨hwhere, -, n, hcompleted⟩⟩ := hoccurrences.exists_mem hr
    · exact ⟨r', hr', hid, hopen'⟩
    · subst hop
      obtain ⟨b, hget, hunpaused⟩ := hreads n r hr hwhere
      obtain ⟨hknown, hrevision⟩ := hfits.sameDefinition hviews hr hget
      have hbid := (of_decide_eq_true (get_eq_some hget).2).1
      exact absurd ha' (not_unfinished_of_completed ha hunfinished hshot hknown (hbid.trans hid)
        hunpaused (hcompleted b hget hrevision))
  | queue _ _ hrest => exact hsame hrest.1 hrest.2.1
  | deliveries _ hrest => exact hsame hrest.2.1 hrest.2.2.1

/-! ## Every history -/

theorem Sound.knowsWorkers {w : World} (hsound : Sound cal w) : KnowsWorkers w.workers w.toState := by
  intro worker job o a hphase
  have hworker := hsound.workers worker
  rw [hphase] at hworker
  cases hworker with
  | triggered _ _ _ hautomation => exact hautomation

theorem ReadsUnpaused.of_loops {s₁ : State} (h : ReadsUnpaused cal workers op view s)
    (hloops : op.loops = true) : ReadsUnpaused cal workers op view s₁ := by
  cases op with
  | processDue | deleteAccount => trivial
  | _ => cases hloops

theorem KnowsWorkers.later (h : KnowsWorkers workers s) (hlater : Later s s') :
    KnowsWorkers workers s' :=
  fun worker job o a hphase => (h worker job o a hphase).later hlater

theorem commit_awaited {view : ℕ → World} {w : World} (hcal : Function.Injective cal.isoformat)
    (hsound : Sound cal w) (hviews : ∀ n, Later (view n).toState w.toState)
    (hreads : ReadsUnpaused cal w.workers op (fun n => (view n).toState) w.toState)
    (hlaw : ∀ a ∈ w.automations, Awaited w.toState a) :
    ∀ a ∈ (World.commit cal op view w).1.automations,
      Awaited (World.commit cal op view w).1.toState a := by
  have hsteps := commit_steps hcal op hsound hviews
  generalize (World.commit cal op view w).1 = w' at hsteps
  cases hloops : op.loops with
  | true =>
    have heffects := hsteps.effects
    generalize w'.toState = s' at heffects
    induction heffects with
    | refl => exact hlaw
    | tail hfirst hlast ih =>
      obtain ⟨hfits, hlater⟩ := effects_fits hfirst hsound.fits (hviews 0)
      exact effect_awaited hlast hfits (fun n => (hviews n).trans hlater)
        (hsound.knowsWorkers.later hlater) (hreads.of_loops hloops) ih
  | false =>
    have hsingle := hsteps.single hloops
    generalize w'.toState = s' at hsingle
    cases hsingle with
    | refl => exact hlaw
    | single heffect =>
      exact effect_awaited heffect hsound.fits hviews hsound.knowsWorkers hreads hlaw

/-- An open Occurrence will be executed, or its job was given up and it is reconciled. -/
theorem Fits.stillDue (hfits : Fits cal s) (ho : o ∈ s.occurrences) (hopen : o.status = .materialized) :
    StillDue s o := by
  refine ⟨hopen, ?_⟩
  rcases hfits.linked o ho with ⟨-, hskipped⟩ | ⟨j, hj, hlink, hfor, hagree⟩
  · rw [hopen] at hskipped
    cases hskipped
  rw [hopen] at hagree
  rcases hagree with ⟨hlive | hfailed⟩
  · exact .inl ⟨j, hj, hlink, hlive⟩
  · refine .inr (decide_eq_true ⟨hopen, j.id, hlink, ?_⟩)
    have hp : decide (j.id = j.id ∧ j.kind = .automationOccurrence ∧ j.status = .failed) = true :=
      decide_eq_true ⟨rfl, hfor.kind, hfailed⟩
    rw [OccurrenceRepository.exhausted, Option.isSome_iff_ne_none]
    intro hnone
    rw [get_eq_none.mp hnone j hj] at hp
    cases hp

/-- Where no step that ends an Occurrence read its Automation as paused, an active Automation has a trigger
in every state, or is a one-shot whose Occurrence is still due. -/
theorem no_zombie (hcal : Function.Injective cal.isoformat)
    (hr : (system cal).ReachableIf
      (fun op view w => ReadsUnpaused cal w.workers op (fun n => (view n).toState) w.toState) h) :
    ∀ w ∈ h.states, ∀ a ∈ w.automations, CanProceed w.toState a := by
  have hstable := ((stable hcal).restrict
    (p := fun op view w => ReadsUnpaused cal w.workers op (fun n => (view n).toState) w.toState)
    fun _ _ _ _ => trivial).strengthen
    (fun w => ∀ a ∈ w.automations, Awaited w.toState a) ?_ ?_
  · intro w hw a ha hactive
    obtain ⟨hsound, hlaw⟩ := hstable.inv_mem hr hw
    refine (hlaw a ha (.inl hactive)).imp Option.ne_none_iff_exists'.mp ?_
    rintro ⟨hshot, o, ho, hid, hopen⟩
    exact ⟨hshot, o, ho, hid, hsound.fits.stillDue ho hopen⟩
  · rintro _ rfl a ha
    exact absurd ha not_mem_empty
  · intro op view w hsound hlaw hviews hreads
    exact commit_awaited hcal hsound (fun n => (hviews n).2.2) hreads hlaw

/-! ## A reminder that is resumed -/

/-- The steps up to the notification read Automation 10 as active. -/
theorem firedReminder_readsUnpaused : (system PersonalState.tallies).SerialMeets
    (fun op view w => ReadsUnpaused PersonalState.tallies w.workers op (fun n => (view n).toState)
      w.toState) ⟨{}, [], []⟩ firedReminder := by
  refine ⟨trivial, trivial, trivial, ?_, ?_, trivial⟩
  · intro _ _ _ _ _ _ o ho _
    have hfound : ∀ o ∈ ((system PersonalState.tallies).serial {}
        dueReminder).cur.occurrences.rows, ∃ a ∈ AutomationRepository.get o.userId o.automationId
          ((system PersonalState.tallies).serial {} dueReminder).cur.automations,
            a.status ≠ .paused := by
      decide +kernel
    exact hfound o ho
  · intro job o a hphase
    obtain ⟨-, -, rfl⟩ := Worker.triggered.inj hphase
    decide +kernel

/-- A reminder that fired. -/
theorem no_zombie_reminder :
    ∃ a ∈ ((system PersonalState.tallies).serial {} firedReminder).cur.automations, a.id = 10 ∧
      CanProceed ((system PersonalState.tallies).serial {} firedReminder).cur.toState a := by
  obtain ⟨a, ha, hid⟩ : ∃ a ∈ ((system PersonalState.tallies).serial {} firedReminder).cur.automations.rows,
      a.id = 10 := by
    decide +kernel
  exact ⟨a, ha, hid, no_zombie PersonalState.tallies_injective
    ((system PersonalState.tallies).serial_reachableIf rfl firedReminder firedReminder_readsUnpaused)
    _ (.head _) a ha⟩

/-- Automation 10 fires while it is paused, and is resumed. -/
def resumedLate : List Op := pausedLate ++ [.changeStatus ⟨1, 10, "RESUME", 3, "resume"⟩ ⟨61, 5⟩]

/-- A reminder is resumed that fired while it was paused: it has no trigger, and its Occurrence
succeeded. -/
theorem resumed_reminder_stuck :
    ∃ h : History World Op Reply, (system PersonalState.tallies).Reachable h ∧
      ∃ a ∈ h.cur.automations, ¬CanProceed h.cur.toState a := by
  refine ⟨_, (system PersonalState.tallies).serial_reachable rfl resumedLate, ?_⟩
  have hstuck : ∃ a ∈ ((system PersonalState.tallies).serial {} resumedLate).cur.automations.rows,
      a.status = .active ∧ a.nextTriggerAt = none ∧
        ∀ o ∈ ((system PersonalState.tallies).serial {} resumedLate).cur.occurrences.rows,
          o.status ≠ .materialized := by
    decide +kernel
  obtain ⟨a, ha, hactive, hnext, hsettled⟩ := hstuck
  refine ⟨a, ha, fun hproceed => ?_⟩
  rcases hproceed hactive with ⟨t, ht⟩ | ⟨-, o, ho, -, hdue⟩
  · rw [hnext] at ht
    cases ht
  · exact hsettled o ho hdue.status

end Automations
