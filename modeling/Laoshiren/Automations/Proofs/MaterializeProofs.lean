import Laoshiren.Automations.Proofs.ClientProofs

/-!
# Proofs: what a scheduler makes of the Automations that are due

The scheduler writes an Automation in the version that it selected, and the Occurrence with it: the
Automation was active and due, and it moves on.
-/

namespace Automations

open Runtime Raise Table
open PersonalState (Calendar TaskStatus)

variable {cal : Calendar} {workers : UUID → Worker} {op : Op} {view : ℕ → State} {s s' : State}
  {a r : Automation} {occurredAt : Timestamp}

/-! ## The rows -/

theorem nextTrigger_known (hlater : AutomationLater a r) (hversion : r.version = a.version) :
    a.nextTrigger occurredAt = r.nextTrigger occurredAt := by
  simp only [Automation.nextTrigger, hlater.automationType, hlater.interval,
    (hlater.unchanged hversion).2.1]

variable (occurredAt) in
theorem updateValues_markTriggered (hlater : AutomationLater a r)
    (hversion : r.version = a.version) :
    AutomationRepository.updateValues (a.markTriggered occurredAt) r =
      r.markTriggered occurredAt := by
  have hstatus := (hlater.unchanged hversion).1
  have hnext : (a.markTriggered occurredAt).nextTriggerAt = r.nextTrigger occurredAt :=
    nextTrigger_known hlater hversion
  simp only [AutomationRepository.updateValues, hnext]
  simp only [Automation.markTriggered, hversion, ← hstatus, ← hlater.definitionRevision]

theorem updateValues_passedOver {now : Timestamp} (hlater : AutomationLater a r)
    (hversion : r.version = a.version) :
    AutomationRepository.updateValues ((a.markTriggered occurredAt).completeOneShot now) r =
      (r.markTriggered occurredAt).completeOneShot now := by
  have hsame : (a.markTriggered occurredAt).Waits ↔ (r.markTriggered occurredAt).Waits := by
    simp only [Automation.Waits, Automation.markTriggered, hlater.automationType,
      (hlater.unchanged hversion).1]
  have hvalues := updateValues_markTriggered occurredAt hlater hversion
  by_cases hwaits : (r.markTriggered occurredAt).Waits
  · rw [completeOneShot_of_waits hwaits, completeOneShot_of_waits (hsame.mpr hwaits), ← hvalues]
    simp only [AutomationRepository.updateValues, Automation.markTriggered]
  · rw [completeOneShot_of_not hwaits, completeOneShot_of_not (mt hsame.mp hwaits), hvalues]

theorem id_completeOneShot (a : Automation) (now : Timestamp) : (a.completeOneShot now).id = a.id := by
  unfold Automation.completeOneShot
  split <;> rfl

theorem dueOccurrence_known {t : Timestamp} {stamp : Stamp} (hlater : AutomationLater a r) :
    dueOccurrence a t stamp = dueOccurrence r t stamp := by
  simp only [dueOccurrence, hlater.id, hlater.userId, hlater.definitionRevision]

/-- An Occurrence that is added is in the table, and its slot was free. -/
theorem occurrence_added {o : AutomationOccurrence} {occurrences : Table AutomationOccurrence}
    (h : OccurrenceRepository.add o s.occurrences = some (occurrences, true)) :
    s.occurrences.insert? o = some occurrences ∧ ∀ r ∈ s.occurrences, r.toSlot ≠ o.toSlot := by
  rcases insertUnless_eq_some.mp h with ⟨hfalse, -⟩ | ⟨-, hinsert, hnew⟩
  · cases hfalse
  · exact ⟨hinsert, hnew⟩

/-- The Occurrence that was inserted gets its job. -/
theorem occurrence_linked {o : AutomationOccurrence} {occurrences : Table AutomationOccurrence}
    {jobId : UUID} (hinsert : s.occurrences.insert? o = some occurrences) :
    { o with durableJobId := some jobId } ∈
        OccurrenceRepository.update { o with durableJobId := some jobId } occurrences ∧
      Grows Eq (· = { o with durableJobId := some jobId }) s.occurrences
        (OccurrenceRepository.update { o with durableJobId := some jobId } occurrences) := by
  have hmem : o ∈ occurrences := (mem_insert? hinsert).mpr (.inr rfl)
  have hreplaces : Replaces o { o with durableJobId := some jobId } occurrences
      (OccurrenceRepository.update { o with durableJobId := some jobId } occurrences) :=
    .update hmem (decide_eq_true rfl) fun x hx hp =>
      eq_of_conflict hx hmem (.inl (of_decide_eq_true hp))
  refine ⟨hreplaces.mem_new, fun x hx => ?_, fun x hx => ?_⟩
  · have hne : x ≠ o := by
      rintro rfl
      exact not_conflict_of_insert? hinsert hx (.inl rfl)
    exact ⟨x, hreplaces.mem_of_ne ((mem_insert? hinsert).mpr (.inl hx)) hne, rfl⟩
  · rcases hreplaces.mem_cases hx with rfl | ⟨hold, hne⟩
    · exact .inr rfl
    · exact .inl ⟨x, ((mem_insert? hinsert).mp hold).resolve_right hne, rfl⟩

theorem addJob_grows {store store' : Store} {job : DurableJob} (h : store.addJob job = .ok store') :
    job ∈ store'.durableJobs ∧ Grows Eq (· = job) store.durableJobs store'.durableJobs ∧
      store' = { store with durableJobs := store'.durableJobs } := by
  obtain ⟨jobs, hinsert, rfl⟩ := Store.addJob_ok h
  exact ⟨(mem_insert? hinsert).mpr (.inr rfl), .insert? (fun _ => rfl) rfl hinsert, rfl⟩

/-! ## One Automation -/

theorem effect_materialize {limit : ℕ} {locked : UUID → Bool}
    {taskStatus : UUID → UUID → Option TaskStatus} {fresh : UUID → ℕ → Stamp}
    {occurrence : Option AutomationOccurrence}
    (hop : op = .processDue occurredAt limit locked taskStatus fresh)
    (hknown : KnownAutomation s a) (hdue : AutomationRepository.dueWhere occurredAt a = true)
    (h : materializeDueAutomation cal occurredAt taskStatus (fresh a.id) a s =
      .ok (s', occurrence)) :
    Effect cal workers op view s s' := by
  obtain ⟨hactive, t, ht, hpast⟩ := of_decide_eq_true hdue
  unfold materializeDueAutomation at h
  split at h
  · simp only [bind_eq_ok, pure_eq_ok, Prod.mk.injEq] at h
    obtain ⟨s₁, hupdate, rfl, -⟩ := h
    obtain ⟨r, automations, hlater, hversion, hreplaces, rfl⟩ :=
      updateAutomation_known hknown (id_cancel a _) hupdate
    exact .of_automations (hreplaces.grows .refl (statusMove_cancel hlater hversion))
      ⟨rfl, rfl, rfl, rfl⟩
  · simp only [bind_eq_ok, orRaise_eq_ok] at h
    obtain ⟨t', ht', h⟩ := h
    obtain rfl : t = t' := Option.some.inj (ht.symm.trans ht')
    split at h
    · simp only [bind_eq_ok, orRaise_eq_ok, Prod.exists] at h
      obtain ⟨occurrences, created, hadd, h⟩ := h
      split at h
      next hcreated =>
        subst hcreated
        simp only [bind_eq_ok, pure_eq_ok, Prod.mk.injEq] at h
        obtain ⟨s₁, hupdate, rfl, -⟩ := h
        obtain ⟨r, automations, hlater, hversion, hreplaces, rfl⟩ :=
          updateAutomation_known (s := { s with occurrences }) hknown
            (id_completeOneShot (a.markTriggered occurredAt) _) hupdate
        obtain ⟨hstatus, hnext, -⟩ := hlater.unchanged hversion
        obtain ⟨hinsert, hnew⟩ := occurrence_added hadd
        rw [updateValues_passedOver hlater hversion] at hreplaces
        rw [dueOccurrence_known hlater, ← hlater.id] at hinsert hnew
        exact .passedOver hop (hstatus.trans hactive) (hnext.trans ht) hpast rfl hreplaces hnew
          ((mem_insert? hinsert).mpr (.inr rfl)) (.insert? (fun _ => rfl) rfl hinsert)
          ⟨rfl, rfl, rfl⟩
      next =>
        obtain ⟨rfl, -⟩ := Prod.mk.inj (pure_eq_ok.mp h)
        exact .of_automations (.refl .refl _) ⟨rfl, rfl, rfl, rfl⟩
    · simp only [bind_eq_ok, orRaise_eq_ok, Prod.exists] at h
      obtain ⟨occurrences, created, hadd, h⟩ := h
      split at h
      next hcreated =>
        subst hcreated
        simp only [bind_eq_ok, pure_eq_ok, Prod.mk.injEq] at h
        obtain ⟨store, hjob, s₁, hupdate, rfl, -⟩ := h
        obtain ⟨r, automations, hlater, hversion, hreplaces, rfl⟩ :=
          updateAutomation_known (s := { s with store, occurrences := _ }) hknown
            (show (a.markTriggered occurredAt).id = a.id from rfl) hupdate
        obtain ⟨hstatus, hnext, -⟩ := hlater.unchanged hversion
        obtain ⟨hinsert, hnew⟩ := occurrence_added hadd
        obtain ⟨hqueued, hjobs, hstore⟩ := addJob_grows hjob
        have hruns : store.runs = s.store.runs := by rw [hstore]
        rw [updateValues_markTriggered _ hlater hversion] at hreplaces
        rw [dueOccurrence_known hlater, ← hlater.id] at hinsert hnew hjobs hqueued
        obtain ⟨hmem, hgrows⟩ := occurrence_linked hinsert
        rw [dueOccurrence_known hlater, ← hlater.id]
        exact .materialized hop (hstatus.trans hactive) (hnext.trans ht) hpast rfl rfl hreplaces hnew
          hmem hgrows hqueued hjobs ⟨hruns, rfl, rfl⟩
      next =>
        obtain ⟨rfl, -⟩ := Prod.mk.inj (pure_eq_ok.mp h)
        exact .of_automations (.refl .refl _) ⟨rfl, rfl, rfl, rfl⟩

end Automations
