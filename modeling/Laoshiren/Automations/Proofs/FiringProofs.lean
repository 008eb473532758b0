import Laoshiren.Automations.Proofs.HistoryProofs
import Laoshiren.PersonalState.Proofs.AuditProofs

/-!
# Proofs: a slot fires once

Whatever the schedulers and the workers do, a slot has one Occurrence, one Run, one notification and one
delivery for an endpoint at most; and an Occurrence succeeds with its job and with its notification.
-/

namespace Automations

open Runtime Raise Table DurableJobRepository
open PersonalState (Calendar)

variable {cal : Calendar} {s s' : State} {o o' : AutomationOccurrence} {slot : Slot}
  {h : History World Op Reply}

/-! ## What belongs to a slot -/

/-- The Run was triggered for the slot. -/
def RunOf (cal : Calendar) (slot : Slot) (r : AgentRun) : Prop :=
  r.trigger = .automation ∧ r.idempotencyKey = "automation-run:" ++ slot.key cal

/-- The notification is about the Occurrence of the slot. -/
def IntentOf (s : State) (slot : Slot) (i : NotificationIntent) : Prop :=
  ∃ o ∈ s.occurrences, o.id = i.occurrenceId ∧ o.toSlot = slot

/-- The delivery carries a notification of the slot. -/
def DeliveryOf (s : State) (slot : Slot) (d : NotificationDelivery) : Prop :=
  ∃ i ∈ s.intents, i.id = d.intentId ∧ IntentOf s slot i

/-- What two states have of one slot is the same. -/
structure FiresOnce (cal : Calendar) (s s' : State) (slot : Slot) : Prop where
  occurrence : ∀ o ∈ s.occurrences, ∀ o' ∈ s'.occurrences, o.toSlot = slot → o'.toSlot = slot →
    o.id = o'.id
  run : ∀ r ∈ s.store.runs, ∀ r' ∈ s'.store.runs, RunOf cal slot r → RunOf cal slot r' → r.id = r'.id
  intent : ∀ i ∈ s.intents, ∀ i' ∈ s'.intents, IntentOf s slot i → IntentOf s' slot i' → i.id = i'.id
  delivery : ∀ d ∈ s.deliveries, ∀ d' ∈ s'.deliveries, DeliveryOf s slot d → DeliveryOf s' slot d' →
    d.endpointId = d'.endpointId → d.id = d'.id
  push : ∀ d ∈ s.deliveries, ∀ j ∈ s.store.durableJobs, ∀ j' ∈ s'.store.durableJobs,
    j.kind = .pushDelivery → j'.kind = .pushDelivery → j.payload = pushPayload d →
      j'.payload = pushPayload d → j.id = j'.id

/-- What is committed with an Occurrence: the job of one that is to be executed, and the advance of its
Automation; and with a delivery, its job. -/
structure CommittedWhole (cal : Calendar) (s : State) : Prop where
  job : ∀ o ∈ s.occurrences, o.status = .materialized →
    ∃ j ∈ s.store.durableJobs, o.durableJobId = some j.id ∧ JobFor cal o j
  advance : ∀ o ∈ s.occurrences, ∃ a ∈ s.automations, a.id = o.automationId ∧
    ∀ t ∈ a.nextTriggerAt, o.scheduledFor < t
  push : ∀ d ∈ s.deliveries, ∃ j ∈ s.store.durableJobs, PushFor d j

theorem runKey_inj (hcal : Function.Injective cal.isoformat) {slot slot' : Slot}
    (h : "automation-run:" ++ slot.key cal = "automation-run:" ++ slot'.key cal) : slot = slot' :=
  slotKey_injective hcal ((String.append_right_inj _).mp h)

theorem pushDeliveryDedupeKey_inj {id id' : UUID}
    (h : pushDeliveryDedupeKey id = pushDeliveryDedupeKey id') : id = id' :=
  UUID.str_injective ((String.append_right_inj _).mp h)

/-- A delivery can be read off what its job carries. -/
theorem pushPayload_inj {d d' : NotificationDelivery} (h : pushPayload d = pushPayload d') :
    d.id = d'.id := by
  have hget := congrArg (Dict.get · "delivery_id") h
  simp only [pushPayload, Dict.get_ofFields] at hget
  exact UUID.str_injective (Json.str.inj (Option.some.inj hget))

/-! ## One state -/

theorem Fits.run_eq (hfits : Fits cal s) (hcal : Function.Injective cal.isoformat) {r r' : AgentRun}
    (hr : r ∈ s.store.runs) (hr' : r' ∈ s.store.runs) (hrun : RunOf cal slot r)
    (hrun' : RunOf cal slot r') : r = r' := by
  obtain ⟨o, ho, huser, hkey⟩ := hfits.runs r hr hrun.1
  obtain ⟨o', ho', huser', hkey'⟩ := hfits.runs r' hr' hrun'.1
  have hslot : o.toSlot = slot := runKey_inj hcal (hkey.symm.trans hrun.2)
  have hslot' : o'.toSlot = slot := runKey_inj hcal (hkey'.symm.trans hrun'.2)
  obtain rfl : o = o' := eq_of_conflict ho ho' (.inr (hslot.trans hslot'.symm))
  exact eq_of_conflict hr hr' (.inr ⟨huser.trans huser'.symm, hrun.2.trans hrun'.2.symm⟩)

theorem Fits.intent_eq (hfits : Fits cal s) {i i' : NotificationIntent} (hi : i ∈ s.intents)
    (hi' : i' ∈ s.intents) (htells : IntentOf s slot i) (htells' : IntentOf s slot i') : i = i' := by
  have hkey : ∀ i ∈ s.intents, IntentOf s slot i → i.dedupeKey = slot.key cal := by
    rintro i hi ⟨o, ho, hid, rfl⟩
    obtain ⟨r, hr, hrid, -, hkey, -⟩ := hfits.intents i hi
    rw [hkey, occurrence_eq hr ho (hrid.trans hid.symm)]
  exact eq_of_conflict hi hi' (.inr ((hkey i hi htells).trans (hkey i' hi' htells').symm))

theorem Fits.push_eq (hfits : Fits cal s) {d : NotificationDelivery} {j j' : DurableJob}
    (hj : j ∈ s.store.durableJobs) (hj' : j' ∈ s.store.durableJobs) (hkind : j.kind = .pushDelivery)
    (hkind' : j'.kind = .pushDelivery) (hd : j.payload = pushPayload d)
    (hd' : j'.payload = pushPayload d) : j = j' := by
  obtain ⟨e, he, hpush⟩ := hfits.pushes j hj hkind
  obtain ⟨e', he', hpush'⟩ := hfits.pushes j' hj' hkind'
  have hid : e.id = d.id := pushPayload_inj (hpush.payload.symm.trans hd)
  have hid' : e'.id = d.id := pushPayload_inj (hpush'.payload.symm.trans hd')
  obtain rfl : e = e' := eq_of_conflict he he' (.inl (hid.trans hid'.symm))
  exact eq_of_conflict hj hj' (.inr ⟨hpush.userId.trans hpush'.userId.symm,
    hpush.dedupeKey.trans hpush'.dedupeKey.symm⟩)

variable (slot) in
theorem Fits.firesOnce (hfits : Fits cal s) (hcal : Function.Injective cal.isoformat) :
    FiresOnce cal s s slot where
  occurrence o ho o' ho' hslot hslot' := by
    rw [eq_of_conflict ho ho' (.inr (hslot.trans hslot'.symm))]
  run r hr r' hr' hrun hrun' := by rw [hfits.run_eq hcal hr hr' hrun hrun']
  intent i hi i' hi' htells htells' := by rw [hfits.intent_eq hi hi' htells htells']
  delivery d hd d' hd' hof hof' hendpoint := by
    obtain ⟨i, hi, hid, htells⟩ := hof
    obtain ⟨i', hi', hid', htells'⟩ := hof'
    rw [hfits.intent_eq hi hi' htells htells'] at hid
    rw [eq_of_conflict hd hd' (.inr ⟨hid.symm.trans hid', hendpoint⟩)]
  push d _ j hj j' hj' hkind hkind' hcarries hcarries' := by
    rw [hfits.push_eq hj hj' hkind hkind' hcarries hcarries']

/-! ## Earlier states -/

theorem IntentOf.later {i i' : NotificationIntent} (h : IntentOf s slot i) (hlater : Later s s')
    (hi : SameIntent i i') : IntentOf s' slot i' := by
  obtain ⟨o, ho, hid, hslot⟩ := h
  obtain ⟨o', ho', hmove⟩ := hlater.occurrences.kept o ho
  exact ⟨o', ho', hmove.id.trans (hid.trans hi.occurrenceId.symm), hmove.slot.trans hslot⟩

theorem DeliveryOf.later {d d' : NotificationDelivery} (h : DeliveryOf s slot d)
    (hlater : Later s s') (hd : SameDelivery d d') : DeliveryOf s' slot d' := by
  obtain ⟨i, hi, hid, htells⟩ := h
  obtain ⟨i', hi', hsame⟩ := hlater.intents.kept i hi
  exact ⟨i', hi', hsame.id.trans (hid.trans hd.intentId.symm), htells.later hlater hsame⟩

/-- What holds of the present state holds of any two states before. -/
theorem FiresOnce.earlier {v w : State} (h : FiresOnce cal s s slot) (hv : Later v s)
    (hw : Later w s) : FiresOnce cal v w slot where
  occurrence o ho o' ho' hslot hslot' := by
    obtain ⟨p, hp, hlater⟩ := hv.occurrences.kept o ho
    obtain ⟨p', hp', hlater'⟩ := hw.occurrences.kept o' ho'
    rw [← hlater.id, ← hlater'.id]
    exact h.occurrence p hp p' hp' (hlater.slot.trans hslot) (hlater'.slot.trans hslot')
  run r hr r' hr' hrun hrun' := by
    obtain ⟨p, hp, hsame⟩ := hv.runs.kept r hr
    obtain ⟨p', hp', hsame'⟩ := hw.runs.kept r' hr'
    rw [← hsame.id, ← hsame'.id]
    exact h.run p hp p' hp' ⟨hsame.trigger.trans hrun.1, hsame.idempotencyKey.trans hrun.2⟩
      ⟨hsame'.trigger.trans hrun'.1, hsame'.idempotencyKey.trans hrun'.2⟩
  intent i hi i' hi' htells htells' := by
    obtain ⟨p, hp, hsame⟩ := hv.intents.kept i hi
    obtain ⟨p', hp', hsame'⟩ := hw.intents.kept i' hi'
    rw [← hsame.id, ← hsame'.id]
    exact h.intent p hp p' hp' (htells.later hv hsame) (htells'.later hw hsame')
  delivery d hd d' hd' hof hof' hendpoint := by
    obtain ⟨p, hp, hsame⟩ := hv.deliveries.kept d hd
    obtain ⟨p', hp', hsame'⟩ := hw.deliveries.kept d' hd'
    rw [← hsame.id, ← hsame'.id]
    refine h.delivery p hp p' hp' (hof.later hv hsame) (hof'.later hw hsame') ?_
    rw [hsame.endpointId, hendpoint, hsame'.endpointId]
  push d hd j hj j' hj' hkind hkind' hcarries hcarries' := by
    obtain ⟨e, he, hsame⟩ := hv.deliveries.kept d hd
    obtain ⟨p, hp, hlater⟩ := hv.jobs.kept j hj
    obtain ⟨p', hp', hlater'⟩ := hw.jobs.kept j' hj'
    have hpayload : pushPayload d = pushPayload e := by
      rw [pushPayload, pushPayload, hsame.id, hsame.intentId, hsame.endpointId]
    rw [← hlater.id, ← hlater'.id]
    refine h.push e he p hp p' hp' (hlater.same.kind.trans hkind)
      (hlater'.same.kind.trans hkind') ?_ ?_
    · rw [hlater.same.payload, hcarries, hpayload]
    · rw [hlater'.same.payload, hcarries', hpayload]

theorem Fits.committedWhole (hfits : Fits cal s) : CommittedWhole cal s where
  job o ho hstatus := by
    rcases hfits.linked o ho with ⟨-, hskipped⟩ | ⟨j, hj, hlink, hfor, -⟩
    · rw [hstatus] at hskipped
      cases hskipped
    · exact ⟨j, hj, hlink, hfor⟩
  advance o ho := by
    obtain ⟨a, ha, hid, -, -, hpast⟩ := hfits.owned o ho
    exact ⟨a, ha, hid, hpast⟩
  push := hfits.pushed

/-! ## Every history -/

/-- In any two states that were ever committed, a slot has at most one Occurrence, one Run, one
notification and, for an endpoint, one delivery with one job; and an Occurrence is committed together
with its job and with the advance of its Automation. -/
theorem slot_fires_once (hcal : Function.Injective cal.isoformat)
    (hr : (system cal).Reachable h) :
    (∀ v ∈ h.states, ∀ w ∈ h.states, ∀ slot, FiresOnce cal v.toState w.toState slot) ∧
      ∀ w ∈ h.states, CommittedWhole cal w.toState := by
  refine ⟨fun v hv w hw slot => ?_, fun w hw => ?_⟩
  · have honce := ((stable hcal).inv_cur hr).fits.firesOnce slot hcal
    exact honce.earlier ((stable hcal).rel_mem hr hv) ((stable hcal).rel_mem hr hw)
  · exact ((stable hcal).inv_mem hr hw).fits.committedWhole

/-- User 1 asks to be reminded at time 0. -/
def askReminder : PersonalState.CreateAutomation where
  userId := 1
  automationType := .once
  title := "title"
  message := "message"
  timezoneName := "UTC"
  nextTriggerAt := .utc 0
  idempotencyKey := "reminder"

/-- Automation 10 is created and falls due, and worker 5 claims the job of its Occurrence. -/
def dueReminder : List Op :=
  [.create askReminder (.ok ()) ⟨10, 0⟩,
    .processDue 1 10 (fun _ => false) (fun _ _ => none) fun _ => stampsFrom 20 1,
    .claim 5 60 2 (fun _ => true) fun _ => false]

/-- Worker 5 fires the Occurrence and settles it. -/
def firedReminder : List Op :=
  dueReminder ++ [.execute 5 (fun _ => 3) [] (stampsFrom 30 3), .settle 5 4 ⟨40, 4⟩
    fun _ => stampsFrom 50 4]

/-- A reminder that fired. -/
theorem slot_fires_once_reminder :
    FiresOnce PersonalState.tallies
      ((system PersonalState.tallies).serial {} firedReminder).cur.toState
      ((system PersonalState.tallies).serial {} firedReminder).cur.toState ⟨10, 1, 0⟩ :=
  (slot_fires_once PersonalState.tallies_injective
    ((system PersonalState.tallies).serial_reachable rfl firedReminder)).1 _ (.head _) _ (.head _) _

/-! ## Occurrences, jobs and notifications -/

/-- What the status of an Occurrence says of its job and of its notification. -/
structure InAgreement (cal : Calendar) (s : State) : Prop where
  told : ∀ o ∈ s.occurrences,
    o.status = .succeeded ↔ ∃ i ∈ s.intents, i.dedupeKey = o.toSlot.key cal
  succeeded : ∀ o ∈ s.occurrences, o.status = .succeeded →
    ∃ j ∈ s.store.durableJobs, o.durableJobId = some j.id ∧ j.status = .completed
  completed : ∀ j ∈ s.store.durableJobs, j.kind = .automationOccurrence → j.status = .completed →
    ∃ o ∈ s.occurrences, o.durableJobId = some j.id ∧
      (o.status = .succeeded ∨ o.status = .skipped ∨ o.status = .cancelled)

theorem Fits.inAgreement (hfits : Fits cal s) (hcal : Function.Injective cal.isoformat) :
    InAgreement cal s where
  told o ho := by
    constructor
    · intro hstatus
      obtain ⟨i, hi, hid⟩ := hfits.succeeded o ho hstatus
      obtain ⟨r, hr, hrid, -, hkey, -⟩ := hfits.intents i hi
      rw [occurrence_eq hr ho (hrid.trans hid)] at hkey
      exact ⟨i, hi, hkey⟩
    · rintro ⟨i, hi, hkey⟩
      obtain ⟨r, hr, -, hstatus, hkey', -⟩ := hfits.intents i hi
      have hslot : r.toSlot = o.toSlot := slotKey_injective hcal (hkey'.symm.trans hkey)
      rwa [← eq_of_conflict hr ho (.inr hslot)]
  succeeded o ho hstatus := by
    rcases hfits.linked o ho with ⟨-, hskipped⟩ | ⟨j, hj, hlink, -, hagree⟩
    · rw [hstatus] at hskipped
      cases hskipped
    · rw [hstatus] at hagree
      refine ⟨j, hj, hlink, ?_⟩
      generalize j.status = status at hagree
      cases hagree
      rfl
  completed j hj hkind hstatus := by
    obtain ⟨o, ho, hlink, -, hagree⟩ := hfits.occurrenceOf hj hkind
    rw [hstatus] at hagree
    refine ⟨o, ho, hlink, ?_⟩
    generalize o.status = status at hagree
    cases hagree with
    | «open» hopen => rcases hopen with (h | h) | h <;> cases h
    | succeeded => exact .inl rfl
    | skipped => exact .inr (.inl rfl)

theorem judge_missing {job : DurableJob} {automationId : UUID} {now : Timestamp} {view : ℕ → State}
    (h : judge cal job automationId now view o =
      .settle .failed (some "OCCURRENCE_INTENT_MISSING") none) :
    o.status = .succeeded ∧ o.automationId = automationId ∧
      IntentRepository.getByDedupeKey
        ((⟨automationId, o.definitionRevision, o.scheduledFor⟩ : Slot).key cal) (view 2).intents =
          none := by
  unfold judge at h
  split at h
  · simp at h
  next hid =>
    cases hstatus : o.status with
    | succeeded =>
      simp only [hstatus] at h
      split at h
      · cases h
      next hmissing => exact ⟨rfl, not_not.mp hid, by simpa using hmissing⟩
    | cancelled | skipped | failed =>
      simp only [hstatus] at h
      simp at h
    | materialized | notMet =>
      simp only [hstatus] at h
      split at h
      · simp at h
      · split at h <;> cases h

/-- A worker settles a job as one whose notification is missing only where it read an Occurrence that
succeeded, and then no notification with its key. -/
theorem missing_of_inspect {job : DurableJob} {owner : String} {clock : ℕ → Timestamp}
    {view : ℕ → State} (h : inspect cal job owner clock view =
      .ok (.settle .failed (some "OCCURRENCE_INTENT_MISSING") none)) :
    ∃ o ∈ (view 1).occurrences, o.status = .succeeded ∧
      ∀ i ∈ (view 2).intents, i.dedupeKey ≠ o.toSlot.key cal := by
  simp only [inspect, bind_eq_ok] at h
  obtain ⟨occurrenceId, -, automationId, -, h⟩ := h
  split at h
  · split at h
    · simp at h
    next o hread =>
      obtain ⟨hmem, -⟩ := get_eq_some hread
      obtain ⟨hstatus, hid, hmissing⟩ := judge_missing (pure_eq_ok.mp h)
      refine ⟨o, hmem, hstatus, fun i hi hkey => ?_⟩
      have hnone := get_eq_none.mp hmissing i hi
      rw [← hid] at hnone
      exact absurd hkey (of_decide_eq_false hnone)
  · cases pure_eq_ok.mp h

/-- An Occurrence succeeds with its job and with its notification, and what is settled stays as it was
settled. A worker that reads the database from one statement to the next never finds that the
notification of an Occurrence is missing. -/
theorem occurrence_job_intent_agree (hcal : Function.Injective cal.isoformat)
    (hr : (system cal).Reachable h) :
    (∀ w ∈ h.states, InAgreement cal w.toState) ∧
      (h.states.Pairwise fun later earlier => ∀ o ∈ earlier.occurrences, ∀ o' ∈ later.occurrences,
        o.id = o'.id → o.status ≠ .materialized → o'.status = o.status) ∧
      ∀ (job : DurableJob) (owner : String) (clock : ℕ → Timestamp) (view : ℕ → State)
        (i : ℕ → Fin h.states.length), Monotone i → (∀ n, view n = (h.stateAt (i n)).toState) →
          inspect cal job owner clock view ≠
            .ok (.settle .failed (some "OCCURRENCE_INTENT_MISSING") none) := by
  refine ⟨fun w hw => ((stable hcal).inv_mem hr hw).fits.inAgreement hcal, ?_, ?_⟩
  · refine ((stable hcal).pairwise hr).imp fun {later earlier} hlater o ho o' ho' hid hsettled => ?_
    obtain ⟨r, hr, hmove⟩ := hlater.occurrences.kept o ho
    rw [occurrence_eq ho' hr (hid.symm.trans hmove.id.symm)]
    exact hmove.settled hsettled
  · intro job owner clock view i hmono hviews hread
    obtain ⟨o, ho, hstatus, hmissing⟩ := missing_of_inspect hread
    rw [hviews 1] at ho
    rw [hviews 2] at hmissing
    have hfits := ((stable hcal).inv_mem hr (h.stateAt_mem (i 1))).fits
    obtain ⟨intent, hintent, hkey⟩ := ((hfits.inAgreement hcal).told o ho).mp hstatus
    have hlater := (stable hcal).rel_stateAt hr (hmono (show 1 ≤ 2 by omega))
    obtain ⟨intent', hintent', hsame⟩ := hlater.intents.kept intent hintent
    exact hmissing intent' hintent' (hsame.dedupeKey.trans hkey)

/-- A reminder that fired. -/
theorem occurrence_job_intent_agree_reminder :
    InAgreement PersonalState.tallies
      ((system PersonalState.tallies).serial {} firedReminder).cur.toState :=
  (occurrence_job_intent_agree PersonalState.tallies_injective
    ((system PersonalState.tallies).serial_reachable rfl firedReminder)).1 _ (.head _)

end Automations
