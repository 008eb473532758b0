import Laoshiren.Automations.Proofs.FiringProofs

/-!
# Proofs: an Automation that was stopped

While an Automation is paused or cancelled, no scheduler materializes it. A worker looks at the status of
the Automation once, before it triggers the Run, and looks for a cancellation only: what it does next is
right as long as the Automation is not paused and its status is still the one that was read.
-/

namespace Automations

open Runtime Table
open PersonalState (Calendar)

variable {cal : Calendar} {workers : UUID → Worker} {op : Op} {view : ℕ → State} {s s' : State}
  {a a' : Automation} {id : UUID} {h : History World Op Reply}

/-! ## Stopped Automations -/

/-- The Automation is paused or cancelled. -/
def Stopped (id : UUID) (s : State) : Prop :=
  ∃ a ∈ s.automations, a.id = id ∧ (a.status = .paused ∨ a.status = .cancelled)

/-- The Run was triggered for a slot of the Automation. -/
def RunFor (cal : Calendar) (id : UUID) (r : AgentRun) : Prop :=
  ∃ slot : Slot, slot.automationId = id ∧ RunOf cal slot r

/-- The job executes an Occurrence of the Automation. -/
def ExecutesFor (s : State) (id : UUID) (j : DurableJob) : Prop :=
  j.kind = .automationOccurrence ∧
    ∃ o ∈ s.occurrences, o.automationId = id ∧ o.durableJobId = some j.id

/-- What the later state has for the Automation was there before. -/
structure CreatesNothing (cal : Calendar) (id : UUID) (s s' : State) : Prop where
  jobs : ∀ j' ∈ s'.store.durableJobs, ExecutesFor s' id j' → ∃ j ∈ s.store.durableJobs,
    j.id = j'.id ∧ ExecutesFor s id j
  runs : ∀ r' ∈ s'.store.runs, RunFor cal id r' → ∃ r ∈ s.store.runs, r.id = r'.id ∧ RunFor cal id r
  intents : ∀ i' ∈ s'.intents, i'.automationId = id → ∃ i ∈ s.intents,
    i.id = i'.id ∧ i.automationId = id

namespace CreatesNothing

theorem refl (s : State) : CreatesNothing cal id s s :=
  ⟨fun j hj h => ⟨j, hj, rfl, h⟩, fun r hr h => ⟨r, hr, rfl, h⟩, fun i hi h => ⟨i, hi, rfl, h⟩⟩

theorem trans {s₁ s₂ s₃ : State} (h : CreatesNothing cal id s₁ s₂)
    (h' : CreatesNothing cal id s₂ s₃) : CreatesNothing cal id s₁ s₃ where
  jobs j₃ hj₃ hfor₃ := by
    obtain ⟨j₂, hj₂, hid, hfor₂⟩ := h'.jobs j₃ hj₃ hfor₃
    obtain ⟨j₁, hj₁, hid', hfor₁⟩ := h.jobs j₂ hj₂ hfor₂
    exact ⟨j₁, hj₁, hid'.trans hid, hfor₁⟩
  runs r₃ hr₃ hfor₃ := by
    obtain ⟨r₂, hr₂, hid, hfor₂⟩ := h'.runs r₃ hr₃ hfor₃
    obtain ⟨r₁, hr₁, hid', hfor₁⟩ := h.runs r₂ hr₂ hfor₂
    exact ⟨r₁, hr₁, hid'.trans hid, hfor₁⟩
  intents i₃ hi₃ hfor₃ := by
    obtain ⟨i₂, hi₂, hid, hfor₂⟩ := h'.intents i₃ hi₃ hfor₃
    obtain ⟨i₁, hi₁, hid', hfor₁⟩ := h.intents i₂ hi₂ hfor₂
    exact ⟨i₁, hi₁, hid'.trans hid, hfor₁⟩

end CreatesNothing

/-! ## One effect -/

/-- A job, a Run and a notification need what they are for: an Occurrence of the Automation with the
job, a Run of one of its slots, an intent of its own. -/
theorem CreatesNothing.of_rows {newRun : AgentRun → Prop} {newIntent : NotificationIntent → Prop}
    (hfits : Fits cal s)
    (hoccurrences : ∀ o' ∈ s'.occurrences, o'.automationId = id → ∃ o ∈ s.occurrences,
      o.automationId = id ∧ o.durableJobId = o'.durableJobId)
    (hruns : Grows SameOrigin newRun s.store.runs s'.store.runs)
    (hrun : ∀ r, newRun r → ¬RunFor cal id r)
    (hintents : Grows SameIntent newIntent s.intents s'.intents)
    (hintent : ∀ i, newIntent i → i.automationId ≠ id) : CreatesNothing cal id s s' where
  jobs j' hj' hfor := by
    obtain ⟨hkind, o', ho', hautomation, hlink'⟩ := hfor
    obtain ⟨o, ho, hid, hsame⟩ := hoccurrences o' ho' hautomation
    rw [hlink'] at hsame
    rcases hfits.linked o ho with ⟨hnone, -⟩ | ⟨j, hj, hlink, hjob, -⟩
    · rw [hnone] at hsame
      cases hsame
    · have hjid : j.id = j'.id := Option.some.inj (hlink.symm.trans hsame)
      exact ⟨j, hj, hjid, hjob.kind, o, ho, hid, hlink⟩
  runs r' hr' hfor := by
    rcases hruns.origin r' hr' with ⟨r, hr, hsame⟩ | hnew
    · obtain ⟨slot, hslot, htrigger, hkey⟩ := hfor
      exact ⟨r, hr, hsame.id.symm, slot, hslot, hsame.trigger.symm.trans htrigger,
        hsame.idempotencyKey.symm.trans hkey⟩
    · exact absurd hfor (hrun r' hnew)
  intents i' hi' hfor := by
    rcases hintents.origin i' hi' with ⟨i, hi, hsame⟩ | hnew
    · exact ⟨i, hi, hsame.id.symm, hsame.automationId.symm.trans hfor⟩
    · exact absurd hfor (hintent i' hnew)

/-- Neither a Run nor a notification is added. -/
theorem CreatesNothing.of_occurrences (hfits : Fits cal s)
    (hoccurrences : ∀ o' ∈ s'.occurrences, o'.automationId = id → ∃ o ∈ s.occurrences,
      o.automationId = id ∧ o.durableJobId = o'.durableJobId)
    (hruns : s'.store.runs = s.store.runs) (hintents : s.intents.Moves SameIntent s'.intents) :
    CreatesNothing cal id s s' :=
  .of_rows hfits hoccurrences
    (grows_of_same (fun _ => ⟨rfl, rfl, rfl, rfl⟩) hruns) (fun _ => False.elim) (.of_moves hintents) fun _ => False.elim

theorem intents_of_same (h : s'.intents = s.intents) : s.intents.Moves SameIntent s'.intents := by
  rw [h]
  exact .refl .refl _

/-- The Occurrences that were there. -/
theorem occurrences_of_same (h : s'.occurrences = s.occurrences) :
    ∀ o' ∈ s'.occurrences, o'.automationId = id → ∃ o ∈ s.occurrences,
      o.automationId = id ∧ o.durableJobId = o'.durableJobId := by
  rw [h]
  exact fun o ho hid => ⟨o, ho, hid, rfl⟩

/-- The Occurrences that are added are those of another Automation. -/
theorem occurrences_of_added {o : AutomationOccurrence} (hne : o.automationId ≠ id)
    (h : Grows Eq (· = o) s.occurrences s'.occurrences) :
    ∀ o' ∈ s'.occurrences, o'.automationId = id → ∃ r ∈ s.occurrences,
      r.automationId = id ∧ r.durableJobId = o'.durableJobId := by
  intro o' ho' hid
  rcases h.origin o' ho' with ⟨r, hr, rfl⟩ | rfl
  · exact ⟨r, hr, hid, rfl⟩
  · exact absurd hid hne

theorem occurrences_of_moves {R : AutomationOccurrence → AutomationOccurrence → Prop}
    (hR : ∀ o o', R o o' → o'.toSlot = o.toSlot ∧ o'.durableJobId = o.durableJobId)
    (h : s.occurrences.Moves R s'.occurrences) :
    ∀ o' ∈ s'.occurrences, o'.automationId = id → ∃ r ∈ s.occurrences,
      r.automationId = id ∧ r.durableJobId = o'.durableJobId := by
  intro o' ho' hid
  obtain ⟨o, ho, hmove⟩ := h.mem ho'
  obtain ⟨hslot, hjob⟩ := hR o o' hmove
  exact ⟨o, ho, (congrArg Slot.automationId hslot).symm.trans hid, hjob.symm⟩

theorem Stopped.status (h : Stopped id s) (ha : a ∈ s.automations) (hid : a.id = id) :
    a.status = .paused ∨ a.status = .cancelled := by
  obtain ⟨r, hr, hrid, hstatus⟩ := h
  rwa [automation_eq ha hr (hid.trans hrid.symm)]

/-- An active Automation is none that is stopped. -/
theorem Stopped.ne_of_active (h : Stopped id s) (ha : a ∈ s.automations)
    (hactive : a.status = .active) : a.id ≠ id := by
  intro hid
  have hstatus := h.status ha hid
  rw [hactive] at hstatus
  rcases hstatus with hstatus | hstatus <;> cases hstatus

/-- What a worker read of an Automation that it fires an Occurrence of. -/
structure UpToDate (s : State) (a : Automation) : Prop where
  notPaused : a.status ≠ .paused
  current : ∃ r ∈ s.automations, r.id = a.id ∧ r.status = a.status

theorem UpToDate.ne (h : UpToDate s a) (hheld : a.status ≠ .cancelled) (hstopped : Stopped id s) :
    a.id ≠ id := by
  intro hid
  obtain ⟨r, hr, hrid, hstatus⟩ := h.current
  rcases hstopped.status hr (hrid.trans hid) with hpaused | hcancelled
  · exact h.notPaused (hstatus.symm.trans hpaused)
  · exact hheld (hstatus.symm.trans hcancelled)

/-- No Occurrence of a cancelled Automation is fired. -/
theorem not_cancelled_of_fire {job : DurableJob} {owner : String} {clock : ℕ → Timestamp}
    {o : AutomationOccurrence} (h : inspect cal job owner clock view = .ok (.fire o a)) :
    a.status ≠ .cancelled := by
  simp only [inspect, Raise.bind_eq_ok] at h
  obtain ⟨occurrenceId, -, automationId, -, h⟩ := h
  split at h
  · split at h
    · cases Raise.pure_eq_ok.mp h
    next read _ =>
      obtain ⟨-, -, -, hheld⟩ := judge_fire (Raise.pure_eq_ok.mp h)
      exact fun hcancelled => hheld (.inr hcancelled)
  · cases Raise.pure_eq_ok.mp h

/-- A step heeds the status of the Automations: what a worker fires is an Occurrence of an Automation
that is not paused and whose status is the one that was read. -/
def Heeds (cal : Calendar) (workers : UUID → Worker) (op : Op) (view : ℕ → State) (s : State) :
    Prop :=
  match op with
  | .execute worker clock _ _ => ∀ job o a, workers worker = .claimed job →
    inspect cal job (workerOwner worker) clock view = .ok (.fire o a) → UpToDate s a
  | .settle worker _ _ _ => ∀ job o a, workers worker = .triggered job o a → UpToDate s a
  | _ => True

/-- No worker fires an Occurrence of an Automation that it read as cancelled. -/
def NoneCancelled (workers : UUID → Worker) : Prop :=
  ∀ worker job o a, workers worker = .triggered job o a → a.status ≠ .cancelled

/-- An Automation that is stopped stays so, unless it is resumed. -/
theorem Stopped.effect (hstopped : Stopped id s) (h : Effect cal workers op view s s')
    (hop : ∀ c stamp, op ≠ .changeStatus c stamp) : Stopped id s' := by
  obtain ⟨a, ha, hid, hstatus⟩ := hstopped
  have hidle : a.status ≠ .active := by
    rcases hstatus with hstatus | hstatus <;> simp [hstatus]
  have hreplaced : ∀ b b', b.status = .active → Replaces b b' s.automations s'.automations →
      Stopped id s' := by
    intro b b' hactive hreplaces
    refine ⟨a, hreplaces.mem_of_ne ha ?_, hid, hstatus⟩
    rintro rfl
    exact hidle hactive
  have hcompleted : s.automations.Moves CompletionMove s'.automations → Stopped id s' := by
    intro hmoves
    obtain ⟨a', ha', hmove⟩ := hmoves.exists_mem ha
    cases hmove with
    | kept => exact ⟨a, ha', hid, hstatus⟩
    | completed _ hwaits => exact absurd hwaits.2 hidle
  have hsame : s'.automations = s.automations → Stopped id s' := by
    intro hautomations
    exact ⟨a, hautomations ▸ ha, hid, hstatus⟩
  cases h with
  | clients hautomations =>
    obtain ⟨a', ha', hmove⟩ := hautomations.kept a ha
    cases hmove with
    | touched => exact ⟨_, ha', hid, hstatus⟩
    | cancelled => exact ⟨_, ha', hid, .inr rfl⟩
    | paused => exact ⟨_, ha', hid, .inl rfl⟩
    | resumed hchange => exact absurd hchange (hop _ _)
  | materialized _ hactive _ _ _ _ hautomations => exact hreplaced _ _ hactive hautomations
  | passedOver _ hactive _ _ _ hautomations => exact hreplaced _ _ hactive hautomations
  | run _ _ _ _ _ _ _ _ _ _ hrest => exact hsame hrest.1
  | ended _ _ _ _ _ _ _ hautomations => exact hcompleted hautomations
  | fired _ _ _ _ _ _ _ _ _ _ _ _ _ _ hautomations => exact hcompleted hautomations
  | exhausted _ _ hautomations => exact hcompleted hautomations
  | queue _ _ hrest => exact hsame hrest.1
  | deliveries _ hrest => exact hsame hrest.2.1

/-- Nothing is created for an Automation that is stopped. -/
theorem Stopped.createsNothing (hstopped : Stopped id s) (hcal : Function.Injective cal.isoformat)
    (hfits : Fits cal s) (hheeds : Heeds cal workers op view s) (hheld : NoneCancelled workers)
    (h : Effect cal workers op view s s') : CreatesNothing cal id s s' := by
  cases h with
  | clients hautomations hintents hrest =>
    obtain ⟨hstore, hoccurrences, -⟩ := hrest
    exact .of_occurrences hfits (occurrences_of_same hoccurrences) (congrArg (·.runs) hstore) hintents
  | materialized _ hactive _ _ ho _ hautomations _ _ hoccurrences _ _ hrest =>
    obtain ⟨hruns, hintents, -⟩ := hrest
    refine .of_occurrences hfits (occurrences_of_added ?_ hoccurrences) hruns (intents_of_same hintents)
    rw [ho]
    exact hstopped.ne_of_active hautomations.1 hactive
  | passedOver _ hactive _ _ ho hautomations _ _ hoccurrences hrest =>
    obtain ⟨hstore, hintents, -⟩ := hrest
    refine .of_occurrences hfits (occurrences_of_added ?_ hoccurrences) (congrArg (·.runs) hstore)
      (intents_of_same hintents)
    rw [ho]
    exact hstopped.ne_of_active hautomations.1 hactive
  | @run worker clock budget fresh job o a hop hphase hread row hrow hlink hslot huser hautomation
      hruns hjobs hrest =>
    obtain ⟨-, hoccurrences, hintents, -⟩ := hrest
    subst hop
    have hne := (hheeds job o a hphase hread).ne (not_cancelled_of_fire hread) hstopped
    refine .of_rows hfits (occurrences_of_same hoccurrences) hruns ?_
      (.of_moves (intents_of_same hintents)) fun _ => False.elim
    rintro r ⟨-, hkey⟩ ⟨slot, hid, -, hkey'⟩
    have hsame : slotOf a o = slot := runKey_inj hcal (hkey.symm.trans hkey')
    exact hne ((congrArg Slot.automationId hsame).trans hid)
  | ended _ _ _ _ _ hoccurrences _ _ _ hrest =>
    obtain ⟨hruns, hintents, -⟩ := hrest
    refine .of_occurrences hfits (occurrences_of_moves ?_ hoccurrences.2) hruns
      (intents_of_same hintents)
    rintro o o' (⟨rfl, rfl⟩ | ⟨-, rfl⟩)
    · exact ⟨rfl, rfl⟩
    · exact ⟨rfl, rfl⟩
  | @fired worker job j o read a i now stamp fresh jobs hop hphase hclaim hlink hid hopen hautomation
      huser hi hintent hintents hdeliveries hoccurrences hjobs hautomations hcompleted hrest =>
    subst hop
    have hne := (hheeds job read a hphase).ne (hheld worker job read a hphase) hstopped
    refine .of_rows hfits (occurrences_of_moves ?_ hoccurrences.2)
      (grows_of_same (fun _ => ⟨rfl, rfl, rfl, rfl⟩) hrest) (fun _ => False.elim)
      (hintents.imp (fun i _ hsame => hsame ▸ .refl i) fun _ h => h) ?_
    · rintro o o' (⟨rfl, rfl⟩ | ⟨-, rfl⟩)
      · exact ⟨rfl, rfl⟩
      · exact ⟨rfl, rfl⟩
    · rintro _ rfl
      rw [hi]
      exact hne
  | exhausted hop hoccurrences hautomations hrest =>
    obtain ⟨hstore, hintents, -⟩ := hrest
    refine .of_occurrences hfits (occurrences_of_moves ?_ hoccurrences) (congrArg (·.runs) hstore)
      (intents_of_same hintents)
    rintro o o' (rfl | ⟨-, rfl, -⟩)
    · exact ⟨rfl, rfl⟩
    · exact ⟨rfl, rfl⟩
  | queue hruns hjobs hrest =>
    obtain ⟨-, hoccurrences, hintents, -⟩ := hrest
    refine .of_rows hfits (occurrences_of_same hoccurrences) hruns ?_
      (.of_moves (intents_of_same hintents)) fun _ => False.elim
    rintro r huser ⟨-, -, htrigger, -⟩
    exact huser htrigger
  | deliveries _ hrest =>
    obtain ⟨hstore, -, hoccurrences, hintents⟩ := hrest
    exact .of_occurrences hfits (occurrences_of_same hoccurrences) (congrArg (·.runs) hstore)
      (intents_of_same hintents)

/-! ## Every history -/

theorem Sound.noneCancelled {w : World} (hsound : Sound cal w) : NoneCancelled w.workers := by
  intro worker job o a hphase
  have hworker := hsound.workers worker
  rw [hphase] at hworker
  cases hworker with
  | triggered _ _ _ _ _ _ hheld => exact hheld

/-- The steps of several effects do not read what a worker would fire. -/
theorem Heeds.of_loops {s₁ : State} (h : Heeds cal workers op view s) (hloops : op.loops = true) :
    Heeds cal workers op view s₁ := by
  cases op with
  | processDue | deleteAccount => trivial
  | _ => cases hloops

theorem op_ne_of_loops (hloops : op.loops = true) (c : ChangeStatus) (stamp : Stamp) :
    op ≠ .changeStatus c stamp := by
  rintro rfl
  cases hloops

/-- The effects of one transaction. -/
theorem Stopped.effects (hstopped : Stopped id s) (hcal : Function.Injective cal.isoformat)
    (hfits : Fits cal s) (hview : Later (view 0) s) (hheeds : Heeds cal workers op view s)
    (hheld : NoneCancelled workers) (hloops : op.loops = true)
    (h : Relation.ReflTransGen (Effect cal workers op view) s s') :
    Stopped id s' ∧ CreatesNothing cal id s s' := by
  induction h with
  | refl => exact ⟨hstopped, .refl s⟩
  | tail hfirst hlast ih =>
    obtain ⟨hstopped', hnothing⟩ := ih
    have hfits' := (effects_fits hfirst hfits hview).1
    exact ⟨hstopped'.effect hlast (op_ne_of_loops hloops),
      hnothing.trans (hstopped'.createsNothing hcal hfits' (hheeds.of_loops hloops) hheld hlast)⟩

/-- One step creates nothing for an Automation that is stopped. -/
theorem Stopped.commit {view : ℕ → World} {w : World} (hstopped : Stopped id w.toState)
    (hcal : Function.Injective cal.isoformat) (hsound : Sound cal w)
    (hviews : ∀ n, Later (view n).toState w.toState)
    (hheeds : Heeds cal w.workers op (fun n => (view n).toState) w.toState) :
    CreatesNothing cal id w.toState (World.commit cal op view w).1.toState := by
  have hsteps := commit_steps hcal op hsound hviews
  cases hloops : op.loops with
  | true =>
    exact (hstopped.effects hcal hsound.fits (hviews 0) hheeds hsound.noneCancelled hloops
      hsteps.effects).2
  | false =>
    have hsingle := hsteps.single hloops
    generalize (World.commit cal op view w).1.toState = s' at hsingle
    cases hsingle with
    | refl => exact .refl _
    | single heffect =>
      exact hstopped.createsNothing hcal hsound.fits hheeds hsound.noneCancelled heffect

/-- Where every worker fires Occurrences only of Automations that are not paused and whose status is the
one that it read, nothing is created for an Automation while it is paused or cancelled. -/
theorem nothing_while_stopped (hcal : Function.Injective cal.isoformat)
    (hr : (system cal).ReachableIf
      (fun op view w => Heeds cal w.workers op (fun n => (view n).toState) w.toState) h)
    {i j : Fin h.states.length} (hij : i ≤ j)
    (hstopped : ∀ k, i ≤ k → k < j → Stopped id (h.stateAt k).toState) :
    CreatesNothing cal id (h.stateAt i).toState (h.stateAt j).toState := by
  refine ((stable hcal).restrict fun _ _ _ _ => trivial).rel_while
    (fun w => Stopped id w.toState) (R := fun v w => CreatesNothing cal id v.toState w.toState)
    (fun _ => .refl _) (fun _ _ _ => .trans) ?_ hr hij hstopped
  intro op view w hsound hviews hheeds hlaw
  exact hlaw.commit hcal hsound (fun n => (hviews n).2) hheeds

/-! ## A reminder that is paused -/

/-- User 1 pauses Automation 10. -/
def pauseReminder (expectedVersion : ℤ) : Op :=
  .changeStatus ⟨1, 10, "PAUSE", expectedVersion, "pause"⟩ ⟨60, 3⟩

/-- Automation 10 is paused before it falls due. -/
def pausedInTime : List Op :=
  [.create askReminder (.ok ()) ⟨10, 0⟩, pauseReminder 1,
    .processDue 1 10 (fun _ => false) (fun _ _ => none) fun _ => stampsFrom 20 1]

/-- Automation 10 is paused while worker 5 holds the job of its Occurrence. -/
def pausedLate : List Op :=
  dueReminder ++ [pauseReminder 2, .execute 5 (fun _ => 3) [] (stampsFrom 30 3),
    .settle 5 4 ⟨40, 4⟩ fun _ => stampsFrom 50 4]

/-- A reminder that was paused in time. -/
theorem nothing_while_stopped_reminder :
    CreatesNothing PersonalState.tallies 10
      (((system PersonalState.tallies).serial {} pausedInTime).stateAt ⟨2, by decide⟩).toState
      (((system PersonalState.tallies).serial {} pausedInTime).stateAt ⟨3, by decide⟩).toState := by
  refine nothing_while_stopped PersonalState.tallies_injective
    ((system PersonalState.tallies).serial_reachableIf rfl pausedInTime
      ((system PersonalState.tallies).serialMeets_of_forall ?_ _)) (by decide) ?_
  · intro op hop view w
    simp only [pausedInTime, List.mem_cons, List.not_mem_nil, or_false] at hop
    rcases hop with rfl | rfl | rfl <;> trivial
  · intro k hle hlt
    obtain ⟨k, hk⟩ := k
    obtain rfl : k = 2 := Nat.le_antisymm (Nat.le_of_lt_succ hlt) hle
    exact ⟨_, List.mem_singleton_self _, rfl, .inl rfl⟩

/-- From the fourth transaction on, Automation 10 is paused. -/
theorem paused_reminder_stopped (k : ℕ) (hk : k < 7) (hle : 4 ≤ k) :
    Stopped 10 (((system PersonalState.tallies).serial {} pausedLate).stateAt ⟨k, hk⟩).toState := by
  obtain rfl | rfl | rfl : k = 4 ∨ k = 5 ∨ k = 6 := by omega
  · exact ⟨_, List.mem_singleton_self _, rfl, .inl rfl⟩
  · exact ⟨_, List.mem_singleton_self _, rfl, .inl rfl⟩
  · exact ⟨_, List.mem_singleton_self _, rfl, .inl rfl⟩

/-- An Occurrence of a paused Automation is fired. -/
theorem paused_reminder_fires :
    ∃ h : History World Op Reply, (system PersonalState.tallies).Reachable h ∧
      ∃ i j : Fin h.states.length, i ≤ j ∧
        (∀ k, i ≤ k → k < j → Stopped 10 (h.stateAt k).toState) ∧
          ¬CreatesNothing PersonalState.tallies 10 (h.stateAt i).toState (h.stateAt j).toState := by
  refine ⟨_, (system PersonalState.tallies).serial_reachable rfl pausedLate, ⟨4, by decide⟩,
    ⟨6, by decide⟩, by decide, fun k hle hlt => paused_reminder_stopped k k.isLt hle, ?_⟩
  · intro hnothing
    have hbefore : (((system PersonalState.tallies).serial {} pausedLate).stateAt
        ⟨4, by decide⟩).intents.rows = [] := by decide +kernel
    have hafter : ∃ i ∈ (((system PersonalState.tallies).serial {} pausedLate).stateAt
        ⟨6, by decide⟩).intents.rows, i.automationId = 10 := by decide +kernel
    obtain ⟨i', hi', hid⟩ := hafter
    obtain ⟨i, hi, -⟩ := hnothing.intents i' hi' hid
    have hmem : i ∈ ([] : List NotificationIntent) := hbefore ▸ hi
    cases hmem

end Automations
