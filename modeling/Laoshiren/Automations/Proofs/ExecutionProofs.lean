import Laoshiren.Automations.Proofs.InvariantProofs

/-!
# Proofs: what a worker makes of an Occurrence

A settlement succeeds only under the claim that the worker holds, and a job is claimed only while its
Occurrence is open. So whatever a worker read before, it settles an Occurrence that is still open.
-/

namespace Automations

open Runtime Raise Table DurableJobRepository
open PersonalState (Calendar AutomationStatus)

variable {cal : Calendar} {workers : UUID → Worker} {op : Op} {view : ℕ → State} {s s' : State}
  {a : Automation} {o : AutomationOccurrence} {job j : DurableJob} {owner : String}

/-! ## Keys -/

/-- A slot can be read off its key. -/
theorem slotKey_injective (hcal : Function.Injective cal.isoformat) :
    Function.Injective fun slot : Slot => slot.key cal := by
  rintro ⟨automationId, revision, scheduledFor⟩ ⟨automationId', revision', scheduledFor'⟩ h
  have hlist := congrArg String.toList h
  simp only [Slot.key, String.toList_append, List.append_assoc] at hlist
  obtain ⟨hid, hrest⟩ := Text.append_mark_inj (UUID.colon_not_mem_str _)
    (UUID.colon_not_mem_str _) hlist
  obtain ⟨hrevision, hdate⟩ := Text.append_mark_inj (Text.not_mem_repr (by decide) _)
    (Text.not_mem_repr (by decide) _) hrest
  obtain rfl := UUID.str_injective (String.toList_injective hid)
  obtain rfl := Text.repr_injective hrevision
  obtain ⟨rfl, -⟩ := PersonalState.DateTime.mk.inj (hcal (String.toList_injective hdate))
  rfl

/-! ## Payloads -/

theorem payloadId_eq_ok {field : String} {id id' : UUID}
    (hfield : job.payload.get field = some (.str id.str)) (h : payloadId job field = .ok id') :
    id' = id := by
  simp only [payloadId, hfield, bind_eq_ok, orRaise_eq_ok, Option.some.injEq] at h
  obtain ⟨_, rfl, h⟩ := h
  simpa [Json.asStr?] using h.symm

theorem JobFor.occurrenceId (h : JobFor cal o job) {id : UUID}
    (hid : payloadId job "occurrence_id" = .ok id) : id = o.id := by
  refine payloadId_eq_ok ?_ hid
  rw [h.payload, occurrencePayload, Dict.get_ofFields]
  rfl

theorem JobFor.automationId (h : JobFor cal o job) {id : UUID}
    (hid : payloadId job "automation_id" = .ok id) : id = o.automationId := by
  refine payloadId_eq_ok ?_ hid
  rw [h.payload, occurrencePayload, Dict.get_ofFields]
  rfl

/-! ## Settlements -/

/-- A settlement that is not refused settles the job that is claimed. -/
theorem settleClaim_eq_some {status : DurableJobStatus} {now : Timestamp}
    {errorCode : Option String} (h : settleClaim job owner status now errorCode s = some s') :
    ∃ j durableJobs, settleWhere job.id owner job.claimEpoch now j = true ∧
      Replaces j (settleValues status now errorCode j) s.store.durableJobs durableJobs ∧
      s' = { s with store := { s.store with durableJobs } } := by
  simp only [settleClaim, settle, Option.ite_none_right_eq_some, Option.some.injEq,
    beq_iff_eq] at h
  obtain ⟨hcount, rfl⟩ := h
  obtain ⟨j, hj, hp⟩ := exists_of_rowcount_eq_one hcount
  refine ⟨j, _, hp, .update hj hp fun j' hj' hp' => ?_, rfl⟩
  have hid := (heldBy_iff.mp (settleWhere_iff.mp hp).1).1
  have hid' := (heldBy_iff.mp (settleWhere_iff.mp hp').1).1
  exact job_eq hj' hj (hid'.trans hid.symm)

/-- The Occurrence of the job that a worker claimed. -/
theorem Fits.jobFor (h : Fits cal s) (hknown : KnownJob s job) :
    ∃ j ∈ s.store.durableJobs, j.id = job.id ∧ ∃ o ∈ s.occurrences, o.durableJobId = some job.id ∧
      JobFor cal o job ∧ Agree o.status j.status := by
  obtain ⟨hkind, j, hj, hlater⟩ := hknown
  obtain ⟨o, ho, hlink, hfor, hagree⟩ := h.occurrenceOf hj (hlater.same.kind.trans hkind)
  refine ⟨j, hj, hlater.id, o, ho, by rw [hlink, hlater.id], ?_, hagree⟩
  exact ⟨hkind, hlater.same.userId.symm.trans hfor.userId,
    hlater.same.dedupeKey.symm.trans hfor.dedupeKey, hlater.same.payload.symm.trans hfor.payload⟩

/-- A job that is settled has an Occurrence that is open. -/
theorem Fits.openOccurrence (h : Fits cal s) (hknown : KnownJob s job) {now : Timestamp}
    (hj : j ∈ s.store.durableJobs)
    (hclaim : settleWhere job.id owner job.claimEpoch now j = true) :
    ∃ o ∈ s.occurrences, o.durableJobId = some j.id ∧ JobFor cal o job ∧
      o.status = .materialized := by
  obtain ⟨j', hj', hid, o, ho, hlink, hfor, hagree⟩ := h.jobFor hknown
  have hjob : j.id = job.id := (heldBy_iff.mp (settleWhere_iff.mp hclaim).1).1
  obtain rfl := job_eq hj hj' (hjob.trans hid.symm)
  exact ⟨o, ho, by rw [hlink, hid], hfor, hagree.materialized (live_of_claim hclaim)⟩

/-- An Occurrence that is open was open before. -/
theorem OccurrenceLater.open {o o' : AutomationOccurrence} (h : OccurrenceLater o o')
    (hopen : o'.status = .materialized) : o.status = .materialized := by
  by_contra hsettled
  exact hsettled ((h.settled hsettled).symm.trans hopen)

/-! ## Completion of an Automation -/

theorem completeOneShot_spec {now : Timestamp} (hknown : KnownAutomation s a)
    (h : completeOneShot a now s = .ok s') :
    ∃ automations, s' = { s with automations } ∧ s.automations.Moves CompletionMove automations ∧
      Completed a automations := by
  unfold completeOneShot at h
  by_cases hwaits : a.Waits
  · rw [completeOneShot_of_waits hwaits, if_neg (Nat.succ_ne_self _)] at h
    obtain ⟨r, automations, hlater, hversion, hreplaces, rfl⟩ :=
      updateAutomation_known hknown
        (show ({ a with status := .completed, updatedAt := now, version := a.version + 1 } :
          Automation).id = a.id from rfl) h
    rw [updateValues_status hlater hversion] at hreplaces
    have hwaits' : r.Waits := by
      rw [Automation.Waits, hlater.automationType, (hlater.unchanged hversion).1]
      exact hwaits
    refine ⟨automations, rfl, hreplaces.moves (fun _ => .kept) (.completed now hwaits'), ?_⟩
    intro _ b hb hid
    rcases hreplaces.mem_cases hb with rfl | ⟨hold, hne⟩
    · rfl
    · exact absurd (automation_eq hold hreplaces.1 (hid.trans hlater.id.symm)) hne
  · rw [completeOneShot_of_not hwaits, if_pos rfl] at h
    obtain rfl := pure_eq_ok.mp h
    exact ⟨s.automations, rfl, .refl (fun _ => .kept) _, fun h => absurd h hwaits⟩

/-! ## What a worker read -/

theorem inspect_cases {clock : ℕ → Timestamp} {verdict : Verdict} (hfor : JobFor cal o job)
    (h : inspect cal job owner clock view = .ok verdict) :
    verdict = .lost ∨ verdict = .settle .failed (some "OCCURRENCE_NOT_FOUND") none ∨
      ∃ read ∈ (view 1).occurrences, read.id = o.id ∧
        verdict = judge cal job o.automationId (clock 1) view read := by
  simp only [inspect, bind_eq_ok] at h
  obtain ⟨occurrenceId, hoccurrence, automationId, hautomation, h⟩ := h
  obtain rfl := hfor.occurrenceId hoccurrence
  obtain rfl := hfor.automationId hautomation
  split at h
  · split at h
    · exact .inr (.inl (pure_eq_ok.mp h).symm)
    next read hread =>
      obtain ⟨hmem, hid⟩ := get_eq_some hread
      exact .inr (.inr ⟨read, hmem, of_decide_eq_true hid, (pure_eq_ok.mp h).symm⟩)
  · exact .inl (pure_eq_ok.mp h).symm

/-- An Occurrence that was open when it was read. -/
theorem judge_open {automationId : UUID} {now : Timestamp} (hid : o.automationId = automationId)
    (hopen : o.status = .materialized) :
    judge cal job automationId now view o =
      match AutomationRepository.get job.userId automationId (view 2).automations with
      | none => .settle .failed (some "AUTOMATION_NOT_FOUND") (some (o.fail now))
      | some a =>
        if o.definitionRevision ≠ a.definitionRevision ∨ a.status = .cancelled then
          .settle .completed none (some (o.skip now))
        else .fire o a := by
  rw [judge, if_neg (not_not_intro hid)]
  generalize o.status = status at hopen ⊢
  subst hopen
  rfl

/-- An Occurrence is fired with the Automation that was read for it. -/
theorem judge_fire {automationId : UUID} {now : Timestamp} {read : AutomationOccurrence}
    (h : judge cal job automationId now view o = .fire read a) :
    read = o ∧ o.automationId = automationId ∧
      AutomationRepository.get job.userId automationId (view 2).automations = some a ∧
      ¬(o.definitionRevision ≠ a.definitionRevision ∨ a.status = .cancelled) := by
  have hdue : ∀ found : Option Automation,
      (match found with
        | none => Verdict.settle .failed (some "AUTOMATION_NOT_FOUND") (some (o.fail now))
        | some (b : Automation) =>
          if o.definitionRevision ≠ b.definitionRevision ∨ b.status = AutomationStatus.cancelled then
            Verdict.settle .completed none (some (o.skip now)) else .fire o b) = .fire read a →
      read = o ∧ found = some a ∧
        ¬(o.definitionRevision ≠ a.definitionRevision ∨ a.status = .cancelled) := by
    intro found hfire
    cases found with
    | none => cases hfire
    | some b =>
      by_cases hover : o.definitionRevision ≠ b.definitionRevision ∨ b.status = .cancelled
      · simp only [if_pos hover] at hfire
        cases hfire
      · simp only [if_neg hover, Verdict.fire.injEq] at hfire
        obtain ⟨rfl, rfl⟩ := hfire
        exact ⟨rfl, rfl, hover⟩
  unfold judge at h
  split at h
  · cases h
  next hid =>
    cases hstatus : o.status with
    | succeeded =>
      simp only [hstatus] at h
      split at h <;> cases h
    | cancelled | skipped | failed =>
      simp only [hstatus] at h
      cases h
    | materialized | notMet =>
      simp only [hstatus] at h
      obtain ⟨hread, hfound, hover⟩ := hdue _ h
      exact ⟨hread, not_not.mp hid, hfound, hover⟩

/-! ## Occurrences that end -/

/-- A worker writes the Occurrence that it read: the row as it is, with another status. -/
theorem occurrence_update {read : AutomationOccurrence} (status : OccurrenceStatus)
    (settledAt : Option Timestamp) (ho : o ∈ s.occurrences) (hread : OccurrenceLater read o) :
    Replaces o { o with status := status, settledAt := settledAt } s.occurrences
      (OccurrenceRepository.update { read with status := status, settledAt := settledAt }
        s.occurrences) := by
  have hvalues : { o with status := status, settledAt := settledAt } =
      OccurrenceRepository.updateValues { read with status := status, settledAt := settledAt } o := by
    simp only [OccurrenceRepository.updateValues, hread.job]
  rw [hvalues]
  exact .update ho (decide_eq_true hread.id) fun r hr hp =>
    occurrence_eq hr ho ((of_decide_eq_true hp).trans hread.id.symm)

/-- The row of an Occurrence that was read. -/
theorem occurrence_read {read : AutomationOccurrence} {n : ℕ} (hviews : ∀ n, Later (view n) s)
    (ho : o ∈ s.occurrences) (hread : read ∈ (view n).occurrences) (hid : read.id = o.id) :
    OccurrenceLater read o := by
  obtain ⟨r, hr, hlater⟩ := (hviews n).occurrences.kept read hread
  rwa [occurrence_eq hr ho (hlater.id.trans hid)] at hlater

theorem replaces_unseen (ho : o ∈ s.occurrences) (hopen : o.status = .materialized) :
    Replaces o { o with status := .materialized, settledAt := o.settledAt } s.occurrences
      s.occurrences := by
  rw [← hopen]
  exact .refl ho

/-- A worker settles without firing. -/
theorem effect_settled {worker : UUID} {clock : ℕ → Timestamp} {budget : Dict}
    {fresh : ℕ → Stamp} {status : DurableJobStatus} {errorCode : Option String}
    {occurrence : Option AutomationOccurrence} (hfits : Fits cal s)
    (hviews : ∀ n, Later (view n) s) (hphase : workers worker = .claimed job)
    (hknown : KnownJob s job)
    (h : settleClaim job (workerOwner worker) status (clock 2) errorCode { s with
      occurrences := match occurrence with
        | some o => OccurrenceRepository.update o s.occurrences
        | none => s.occurrences } = some s')
    (hread : inspect cal job (workerOwner worker) clock view =
      .ok (.settle status errorCode occurrence)) :
    Effect cal workers (.execute worker clock budget fresh) view s s' := by
  obtain ⟨j, durableJobs, hclaim, hjobs, rfl⟩ := settleClaim_eq_some h
  obtain ⟨o, ho, hlink, hfor, hopen⟩ := hfits.openOccurrence hknown hjobs.1 hclaim
  have hends : Ends cal workers view (.execute worker clock budget fresh) worker _ :=
    .execute hphase hread
  rcases inspect_cases hfor hread with hlost | hunseen | ⟨read, hmem, hid, hjudge⟩
  · cases hlost
  · obtain ⟨rfl, rfl, rfl⟩ := Verdict.settle.inj hunseen
    exact .ended hends hclaim hlink hopen .unseen (replaces_unseen ho hopen) hjobs
      (.refl (fun _ => .kept) _) (fun h => by cases h) ⟨rfl, rfl, rfl⟩
  · have hlater := occurrence_read hviews ho hmem hid
    have hslot : read.automationId = o.automationId := congrArg Slot.automationId hlater.slot.symm
    rw [judge_open hslot (hlater.open hopen), hfor.userId] at hjudge
    split at hjudge
    next hmissing =>
      obtain ⟨rfl, rfl, rfl⟩ := Verdict.settle.inj hjudge
      refine .ended hends hclaim hlink hopen .failed (occurrence_update _ _ ho hlater) hjobs
        (.refl (fun _ => .kept) _) (fun _ a ha => ?_) ⟨rfl, rfl, rfl⟩
      rw [hmissing] at ha
      cases ha
    next a ha =>
      split at hjudge
      next hover =>
        obtain ⟨rfl, rfl, rfl⟩ := Verdict.settle.inj hjudge
        rw [← congrArg Slot.definitionRevision hlater.slot] at hover
        exact .ended hends hclaim hlink hopen (.skipped ha hover) (occurrence_update _ _ ho hlater) hjobs
          (.refl (fun _ => .kept) _) (fun h => by cases h) ⟨rfl, rfl, rfl⟩
      next => cases hjudge

/-! ## Occurrences that fire -/

theorem JobFor.of_later {read : AutomationOccurrence} (h : JobFor cal o job)
    (hread : OccurrenceLater read o) : JobFor cal read job where
  kind := h.kind
  userId := h.userId.trans hread.userId
  dedupeKey := by rw [h.dedupeKey, hread.id]
  payload := by rw [h.payload, occurrencePayload, occurrencePayload, hread.id, hread.slot]

/-- A worker triggers the Run of the Occurrence that it read. -/
theorem effect_run {worker : UUID} {clock : ℕ → Timestamp} {budget : Dict} {fresh : ℕ → Stamp}
    {read : AutomationOccurrence} {storeView : ℕ → Store} {store : Store} {r : AgentRun}
    (hfits : Fits cal s) (hviews : ∀ n, Later (view n) s) (hphase : workers worker = .claimed job)
    (hknown : KnownJob s job)
    (hread : inspect cal job (workerOwner worker) clock view = .ok (.fire read a))
    (h : createAutomationRun (runRequest cal a read) budget fresh storeView s.store =
      .ok (store, r)) :
    Effect cal workers (.execute worker clock budget fresh) view s { s with store } ∧
      WorkerFits cal s (.triggered job read a) := by
  obtain ⟨j, hj, hid, o, ho, hlink, hfor, -⟩ := hfits.jobFor hknown
  rcases inspect_cases hfor hread with hlost | hunseen | ⟨read', hmem, hread', hjudge⟩
  · cases hlost
  · cases hunseen
  · obtain ⟨rfl, hautomation, hget, hheld⟩ := judge_fire hjudge.symm
    obtain ⟨ha, hp⟩ := get_eq_some hget
    obtain ⟨haid, hauser⟩ := of_decide_eq_true hp
    have hlater := occurrence_read hviews ho hmem hread'
    obtain ⟨hruns, hjobs⟩ := createAutomationRun_runs h
    have hown : a.id = read.automationId := haid.trans hautomation.symm
    have huser : a.userId = o.userId := hauser.trans hfor.userId
    refine ⟨.run rfl hphase hread ho hlink hlater.slot huser.symm hown hruns hjobs
      ⟨rfl, rfl, rfl, rfl⟩, ?_⟩
    exact .triggered hknown (hfor.of_later hlater) ⟨o, ho, hlater⟩
      ((hviews 2).automations.kept a ha) hown (huser.trans hlater.userId)
      fun hcancelled => hheld (.inr hcancelled)

namespace AddsDeliveries

variable {i : NotificationIntent} {deliveries deliveries' deliveries'' : Table NotificationDelivery}
  {jobs jobs' jobs'' : Table DurableJob}

theorem refl : AddsDeliveries i deliveries deliveries jobs jobs :=
  ⟨.refl (fun _ => rfl) _, fun _ hd => .inl hd, .refl (fun _ => rfl) _⟩

theorem trans (h : AddsDeliveries i deliveries deliveries' jobs jobs')
    (h' : AddsDeliveries i deliveries' deliveries'' jobs' jobs'') :
    AddsDeliveries i deliveries deliveries'' jobs jobs'' where
  added := h.added.trans h'.added (fun _ _ _ => .trans) fun _ _ hnew heq => heq ▸ hnew
  pushed d hd := by
    rcases h'.pushed d hd with hold | hnew
    · refine (h.pushed d hold).imp id fun ⟨j, hj, hpush⟩ => ?_
      obtain ⟨_, hj', rfl⟩ := h'.queued.kept j hj
      exact ⟨j, hj', hpush⟩
    · exact .inr hnew
  queued := by
    refine (h.queued.imp (fun _ _ => id) fun j ⟨d, hd, hpush⟩ => ?_).trans h'.queued
      (fun _ _ _ => .trans) fun _ _ hnew heq => heq ▸ hnew
    obtain ⟨_, hd', rfl⟩ := h'.added.kept d hd
    exact ⟨d, hd', hpush⟩

end AddsDeliveries

theorem addDeliveries_spec {i : NotificationIntent} {fresh : UUID → ℕ → Stamp}
    {endpoints : List PushEndpoint} (h : addDeliveries i fresh endpoints s = .ok s') :
    ∃ deliveries durableJobs,
      s' = { s with deliveries, store := { s.store with durableJobs } } ∧
        AddsDeliveries i s.deliveries deliveries s.store.durableJobs durableJobs := by
  induction endpoints generalizing s with
  | nil =>
    obtain rfl := pure_eq_ok.mp h
    exact ⟨_, _, rfl, .refl⟩
  | cons e endpoints ih =>
    simp only [addDeliveries, bind_eq_ok, orRaise_eq_ok, Prod.exists] at h
    obtain ⟨deliveries, added, hadd, h⟩ := h
    split at h
    next hadded =>
      subst hadded
      simp only [bind_eq_ok] at h
      obtain ⟨store, hjob, h⟩ := h
      obtain ⟨hqueued, hjobs, hstore⟩ := addJob_grows hjob
      obtain ⟨deliveries', durableJobs, rfl, hrest⟩ := ih h
      rcases insertUnless_eq_some.mp hadd with ⟨hfalse, -⟩ | ⟨-, hinsert, -⟩
      · cases hfalse
      have hmem : deliveryTo i e (fresh e.id 0) ∈ deliveries := (mem_insert? hinsert).mpr (.inr rfl)
      have hpush : PushesFirst (deliveryTo i e (fresh e.id 0))
          (pushJob (deliveryTo i e (fresh e.id 0)) (fresh e.id 1)) :=
        ⟨⟨rfl, rfl, rfl, rfl⟩, rfl, rfl, rfl⟩
      have hfirst : AddsDeliveries i s.deliveries deliveries s.store.durableJobs
          store.durableJobs := by
        refine ⟨.insert? (fun _ => rfl) ⟨rfl, rfl⟩ hinsert, fun d hd => ?_, hjobs.imp (fun _ _ => id) ?_⟩
        · rcases (mem_insert? hinsert).mp hd with hold | rfl
          · exact .inl hold
          · exact .inr ⟨_, hqueued, hpush.toPushFor⟩
        · rintro _ rfl
          exact ⟨_, hmem, hpush⟩
      refine ⟨deliveries', durableJobs, ?_, hfirst.trans hrest⟩
      rw [hstore]
    next hadded => exact ih h

/-- No notification tells of an Occurrence that is open. -/
theorem Fits.untold (h : Fits cal s) (hcal : Function.Injective cal.isoformat)
    (ho : o ∈ s.occurrences) (hopen : o.status = .materialized) :
    ∀ i ∈ s.intents, i.dedupeKey ≠ o.toSlot.key cal := by
  intro i hi hkey
  obtain ⟨r, hr, -, hsucceeded, hslot, -⟩ := h.intents i hi
  have hsame : r.toSlot = o.toSlot := slotKey_injective hcal (hslot.symm.trans hkey)
  obtain rfl : r = o := eq_of_conflict hr ho (.inr hsame)
  rw [hopen] at hsucceeded
  cases hsucceeded

/-- The notification of an Occurrence that is open is new. -/
theorem createReminderNotification_spec {read : AutomationOccurrence} {stamp : Stamp}
    {fresh : UUID → ℕ → Stamp} (hfits : Fits cal s) (hcal : Function.Injective cal.isoformat)
    (hview : Later (view 0) s) (ho : o ∈ s.occurrences) (hopen : o.status = .materialized)
    (hread : OccurrenceLater read o) (hid : a.id = o.automationId)
    (h : createReminderNotification cal a read stamp fresh view s = .ok s') :
    ∃ i intents deliveries durableJobs, i = reminder cal a o stamp ∧ i ∈ intents ∧
      Grows Eq (· = i) s.intents intents ∧
      AddsDeliveries i s.deliveries deliveries s.store.durableJobs durableJobs ∧
      s' = { s with intents, deliveries, store := { s.store with durableJobs } } := by
  have hslot : slotOf a read = o.toSlot := by
    rw [slotOf_eq (hid.trans (congrArg Slot.automationId hread.slot)), hread.slot]
  have hreminder : reminder cal a read stamp = reminder cal a o stamp := by
    simp only [reminder, hread.id, hslot, slotOf_eq hid]
  have huntold := hfits.untold hcal ho hopen
  unfold createReminderNotification at h
  split at h
  next i hget =>
    obtain ⟨hi, hkey⟩ := get_eq_some hget
    obtain ⟨i', hi', hsame⟩ := hview.intents.kept i hi
    rw [hslot] at hkey
    exact absurd (hsame.dedupeKey.trans (of_decide_eq_true hkey)) (huntold i' hi')
  next =>
    simp only [bind_eq_ok, orRaise_eq_ok, Prod.exists] at h
    obtain ⟨intents, added, hadd, h⟩ := h
    rw [hreminder] at hadd h
    rcases insertUnless_eq_some.mp hadd with ⟨-, -, i, hi, hkey⟩ | ⟨rfl, hinsert, -⟩
    · have hkey' : i.dedupeKey = (slotOf a o).key cal := hkey
      rw [slotOf_eq hid] at hkey'
      exact absurd hkey' (huntold i hi)
    · rw [if_pos rfl] at h
      obtain ⟨deliveries, durableJobs, rfl, hdeliveries⟩ := addDeliveries_spec h
      exact ⟨_, intents, deliveries, durableJobs, rfl, (mem_insert? hinsert).mpr (.inr rfl),
        .insert? (fun _ => rfl) rfl hinsert, hdeliveries, rfl⟩

theorem createReminderNotification_automations {read : AutomationOccurrence} {stamp : Stamp}
    {fresh : UUID → ℕ → Stamp}
    (h : createReminderNotification cal a read stamp fresh view s = .ok s') :
    s'.automations = s.automations := by
  unfold createReminderNotification at h
  split at h
  · obtain rfl := pure_eq_ok.mp h
    rfl
  · simp only [bind_eq_ok, orRaise_eq_ok, Prod.exists] at h
    obtain ⟨intents, added, -, h⟩ := h
    split at h
    · obtain ⟨deliveries, durableJobs, rfl, -⟩ := addDeliveries_spec h
      rfl
    · obtain rfl := pure_eq_ok.mp h
      rfl

theorem createReminderNotification_jobs {read : AutomationOccurrence} {stamp : Stamp}
    {fresh : UUID → ℕ → Stamp}
    (h : createReminderNotification cal a read stamp fresh view s = .ok s') :
    Grows Eq (fun _ => True) s.store.durableJobs s'.store.durableJobs := by
  unfold createReminderNotification at h
  split at h
  · obtain rfl := pure_eq_ok.mp h
    exact .refl (fun _ => rfl) _
  · simp only [bind_eq_ok, orRaise_eq_ok, Prod.exists] at h
    obtain ⟨intents, added, -, h⟩ := h
    split at h
    · obtain ⟨deliveries, durableJobs, rfl, hdeliveries⟩ := addDeliveries_spec h
      exact hdeliveries.queued.imp (fun _ _ => id) fun _ _ => trivial
    · obtain rfl := pure_eq_ok.mp h
      exact .refl (fun _ => rfl) _

/-- A worker settles the Occurrence that it fired. -/
theorem effect_fired {worker : UUID} {now : Timestamp} {stamp : Stamp} {fresh : UUID → ℕ → Stamp}
    {read : AutomationOccurrence} {s₁ : State} (hfits : Fits cal s)
    (hcal : Function.Injective cal.isoformat) (hviews : ∀ n, Later (view n) s)
    (hphase : workers worker = .triggered job read a)
    (hworker : WorkerFits cal s (.triggered job read a))
    (hfire : fireOccurrence cal a read now stamp fresh view s = .ok s₁)
    (hsettle : settleClaim job (workerOwner worker) .completed now none s₁ = some s') :
    Effect cal workers (.settle worker now stamp fresh) view s s' := by
  cases hworker with
  | triggered hknown hfor hoccurrence hautomation hid huser =>
    simp only [fireOccurrence, bind_eq_ok] at hfire
    obtain ⟨s₂, hnotify, hcomplete⟩ := hfire
    have hgrows := createReminderNotification_jobs hnotify
    have hknown₂ : KnownAutomation { s₂ with
        occurrences := OccurrenceRepository.update (read.succeed now) s₂.occurrences } a := by
      obtain ⟨r, hr, ha⟩ := hautomation
      exact ⟨r, by rwa [createReminderNotification_automations hnotify], ha⟩
    obtain ⟨automations, rfl, hmoves, hcompleted⟩ := completeOneShot_spec hknown₂ hcomplete
    obtain ⟨j, durableJobs, hclaim, hjobs, rfl⟩ := settleClaim_eq_some hsettle
    -- the job that is settled was there, so its Occurrence is open
    have hthere : j ∈ s.store.durableJobs := by
      obtain ⟨-, j₀, hj₀, hjob⟩ := hknown
      obtain ⟨_, hmem, rfl⟩ := hgrows.kept j₀ hj₀
      have hjid : j.id = job.id := (heldBy_iff.mp (settleWhere_iff.mp hclaim).1).1
      rwa [eq_of_conflict hjobs.1 hmem (.inl (hjid.trans hjob.id.symm))]
    obtain ⟨o, ho, hlink, hfor', hopen⟩ := hfits.openOccurrence hknown hthere hclaim
    have hlater : OccurrenceLater read o := by
      obtain ⟨r, hr, hread⟩ := hoccurrence
      have hsame : o.id = read.id :=
        occurrenceDedupeKey_inj (hfor'.dedupeKey.symm.trans hfor.dedupeKey)
      rwa [occurrence_eq ho hr (hsame.trans hread.id.symm)]
    have hown : a.id = o.automationId := hid.trans (congrArg Slot.automationId hlater.slot.symm)
    obtain ⟨i, intents, deliveries, jobs, hi, hintent, hintents, hdeliveries, rfl⟩ :=
      createReminderNotification_spec hfits hcal (hviews 0) ho hopen hlater hown hnotify
    exact .fired rfl hphase hclaim hlink hlater.id.symm hopen hown (huser.trans hlater.userId.symm) hi
      hintent hintents hdeliveries (occurrence_update _ _ ho hlater) hjobs hmoves hcompleted rfl

/-! ## Failures -/

/-- The Automation that was read for an Occurrence is of its definition. -/
theorem Fits.sameDefinition (h : Fits cal s) {n : ℕ} (hviews : ∀ n, Later (view n) s)
    (ho : o ∈ s.occurrences) (hget : AutomationRepository.get o.userId o.automationId
      (view n).automations = some a) :
    KnownAutomation s a ∧ a.definitionRevision = o.definitionRevision := by
  obtain ⟨ha, hp⟩ := get_eq_some hget
  obtain ⟨r, hr, hlater⟩ := (hviews n).automations.kept a ha
  obtain ⟨r', hr', hid, -, hrevision, -⟩ := h.owned o ho
  obtain rfl := automation_eq hr hr' (hlater.id.trans ((of_decide_eq_true hp).1.trans hid.symm))
  exact ⟨⟨r, hr, hlater⟩, hlater.definitionRevision.symm.trans hrevision⟩

theorem completeOneShot_store {now : Timestamp} (h : completeOneShot a now s = .ok s') :
    s'.store = s.store := by
  simp only [completeOneShot] at h
  split at h
  · obtain rfl := pure_eq_ok.mp h
    rfl
  · obtain ⟨r, automations, -, -, -, rfl⟩ := updateAutomation_replaces h
    rfl

theorem failOccurrence_store {now : Timestamp} (h : failOccurrence job now view s = .ok s') :
    s'.store = s.store := by
  simp only [failOccurrence, bind_eq_ok] at h
  obtain ⟨occurrenceId, -, h⟩ := h
  split at h
  · obtain rfl := pure_eq_ok.mp h
    rfl
  · split at h
    · split at h
      · obtain rfl := pure_eq_ok.mp h
        rfl
      · split at h
        · have hstore := completeOneShot_store h
          exact hstore
        · obtain rfl := pure_eq_ok.mp h
          rfl
    · obtain rfl := pure_eq_ok.mp h
      rfl

/-- The Occurrence of a job that has no delivery left fails where it was seen. -/
theorem failOccurrence_spec {now : Timestamp} (hfits : Fits cal s)
    (hviews : ∀ n, Later (view n) s) (ho : o ∈ s.occurrences) (hopen : o.status = .materialized)
    (hfor : JobFor cal o job) (h : failOccurrence job now view s = .ok s') :
    ∃ occurrences automations outcome settledAt, s' = { s with occurrences, automations } ∧
      Ending view o .failed outcome ∧
      Replaces o { o with status := outcome, settledAt := settledAt } s.occurrences occurrences ∧
      s.automations.Moves CompletionMove automations ∧
      (outcome = .failed → ∀ a, AutomationRepository.get o.userId o.automationId
        (view 2).automations = some a → Completed a automations) := by
  simp only [failOccurrence, bind_eq_ok] at h
  obtain ⟨occurrenceId, hpayload, h⟩ := h
  obtain rfl := hfor.occurrenceId hpayload
  split at h
  · obtain rfl := pure_eq_ok.mp h
    exact ⟨_, _, _, _, rfl, .unseen, replaces_unseen ho hopen, .refl (fun _ => .kept) _,
      fun h => by cases h⟩
  next read hget =>
    obtain ⟨hmem, hid⟩ := get_eq_some hget
    have hlater := occurrence_read hviews ho hmem (of_decide_eq_true hid)
    rw [if_pos (hlater.open hopen)] at h
    have hfailed := occurrence_update .failed (some now) ho hlater
    rw [← congrArg Slot.automationId hlater.slot, ← congrArg Slot.definitionRevision hlater.slot,
      hfor.userId] at h
    split at h
    next hmissing =>
      obtain rfl := pure_eq_ok.mp h
      refine ⟨_, _, _, _, rfl, .failed, hfailed, .refl (fun _ => .kept) _, fun _ a ha => ?_⟩
      rw [hmissing] at ha
      cases ha
    next a ha =>
      obtain ⟨hknown, hrevision⟩ := hfits.sameDefinition hviews ho ha
      rw [if_pos hrevision] at h
      obtain ⟨automations, rfl, hmoves, hcompleted⟩ := completeOneShot_spec
        (s := { s with occurrences := OccurrenceRepository.update (read.fail now) s.occurrences })
        hknown h
      refine ⟨_, _, _, _, rfl, .failed, hfailed, hmoves, fun _ b hb => ?_⟩
      rw [ha] at hb
      rwa [← Option.some.inj hb]

theorem effect_recordFailure {worker : UUID} {availableAt now : Timestamp} (hfits : Fits cal s)
    (hviews : ∀ n, Later (view n) s) (hphase : workers worker = .raised job)
    (hknown : KnownJob s job)
    (h : recordFailure job (workerOwner worker) availableAt now view s = .ok (some s')) :
    Effect cal workers (.recordFailure worker availableAt now) view s s' := by
  unfold recordFailure at h
  split at h
  · split at h
    next hretry =>
      have hreleased := pure_eq_ok.mp h
      split at hreleased
      next =>
        obtain rfl := Option.some.inj hreleased
        refine .queue (.refl .refl _) (.of_moves (.update .refl fun j _ hp => ?_))
          ⟨rfl, rfl, rfl, rfl⟩
        exact .of_live rfl ⟨rfl, rfl, rfl, rfl⟩ (live_of_claim hp) (.inl rfl)
          fun _ => workerHeld_none rfl
      next => cases hreleased
    next hlast =>
      simp only [bind_eq_ok, pure_eq_ok] at h
      obtain ⟨s₁, hfail, hsettle⟩ := h
      obtain ⟨j, durableJobs, hclaim, hjobs, rfl⟩ := settleClaim_eq_some hsettle
      rw [failOccurrence_store hfail] at hjobs
      obtain ⟨o, ho, hlink, hfor, hopen⟩ := hfits.openOccurrence hknown hjobs.1 hclaim
      obtain ⟨occurrences, automations, outcome, settledAt, rfl, hending, hoccurrences, hmoves,
        hcompleted⟩ := failOccurrence_spec hfits hviews ho hopen hfor hfail
      exact .ended (.giveUp hphase hlast) hclaim hlink hopen hending hoccurrences hjobs hmoves
        hcompleted ⟨rfl, rfl, rfl⟩
  · cases pure_eq_ok.mp h

/-! ## Jobs that ran out of deliveries -/

theorem CompletionMove.trans {a₁ a₂ a₃ : Automation} (h : CompletionMove a₁ a₂)
    (h' : CompletionMove a₂ a₃) : CompletionMove a₁ a₃ := by
  cases h with
  | kept => exact h'
  | completed now hwaits =>
    cases h' with
    | kept => exact .completed now hwaits
    | completed _ hwaits' => cases hwaits'.2

/-- An Automation that is over stays so. -/
theorem Completed.move {automations automations' : Table Automation} (h : Completed a automations)
    (hmoves : automations.Moves CompletionMove automations') : Completed a automations' := by
  intro hwaits b' hb' hid
  obtain ⟨b, hb, hmove⟩ := hmoves.mem hb'
  cases hmove with
  | kept => exact h hwaits b' hb hid
  | completed => rfl

/-- The Automations of the Occurrences that failed, each as it was read for one of them. -/
theorem completeExhausted_spec {now : Timestamp} {n : ℕ} {settled : List (UUID × UUID × ℕ)}
    (hviews : ∀ n, Grows AutomationLater (fun _ => True) (view n).automations s.automations)
    (h : completeExhausted now view n settled s = .ok s') :
    ∃ automations, s' = { s with automations } ∧ s.automations.Moves CompletionMove automations ∧
      ∀ userId automationId revision, (userId, automationId, revision) ∈ settled → ∃ m, ∀ a,
        AutomationRepository.get userId automationId (view m).automations = some a →
          a.definitionRevision = revision → Completed a automations := by
  induction settled generalizing n s with
  | nil =>
    obtain rfl := pure_eq_ok.mp h
    exact ⟨_, rfl, .refl (fun _ => .kept) _, fun _ _ _ h => by cases h⟩
  | cons key settled ih =>
    obtain ⟨userId, automationId, revision⟩ := key
    have hstep : ∃ automations,
        completeExhausted now view (n + 1) settled { s with automations } = .ok s' ∧
        s.automations.Moves CompletionMove automations ∧ ∀ a,
          AutomationRepository.get userId automationId (view n).automations = some a →
            a.definitionRevision = revision → Completed a automations := by
      simp only [completeExhausted] at h
      split at h
      next hmissing =>
        refine ⟨_, h, .refl (fun _ => .kept) _, fun a ha => ?_⟩
        rw [hmissing] at ha
        cases ha
      next a ha =>
        split at h
        next hrevision =>
          simp only [bind_eq_ok] at h
          obtain ⟨s₁, hcomplete, h⟩ := h
          obtain ⟨automations, rfl, hmoves, hcompleted⟩ :=
            completeOneShot_spec ((hviews n).kept a (get_eq_some ha).1) hcomplete
          refine ⟨automations, h, hmoves, fun b hb _ => ?_⟩
          rw [ha] at hb
          rwa [← Option.some.inj hb]
        next hrevision =>
          refine ⟨_, h, .refl (fun _ => .kept) _, fun b hb hb' => ?_⟩
          rw [ha] at hb
          rw [← Option.some.inj hb] at hb'
          exact absurd hb' hrevision
    obtain ⟨automations, hrest, hmoves, hcompleted⟩ := hstep
    have hviews' : ∀ n, Grows AutomationLater (fun _ => True) (view n).automations automations :=
      fun m => (hviews m).trans (.of_moves hmoves) (fun _ _ _ h h' => h.trans h'.later)
        fun _ _ _ _ => trivial
    obtain ⟨automations', rfl, hmoves', hcompleted'⟩ :=
      ih (s := { s with automations }) hviews' hrest
    refine ⟨automations', rfl, hmoves.trans hmoves' fun _ _ _ => .trans, ?_⟩
    intro userId' automationId' revision' hmem
    rcases List.mem_cons.mp hmem with hkey | hmem
    · obtain ⟨rfl, rfl, rfl⟩ := Prod.mk.inj hkey |>.imp id Prod.mk.inj
      exact ⟨n, fun a ha hrevision => (hcompleted a ha hrevision).move hmoves'⟩
    · exact hcompleted' userId' automationId' revision' hmem

theorem effect_exhausted {now : Timestamp} (hviews : ∀ n, Later (view n) s)
    (h : reconcileExhausted now view s = .ok s') :
    Effect cal workers (.reconcileExhausted now) view s s' := by
  unfold reconcileExhausted at h
  rcases hfail : OccurrenceRepository.failExhausted now (view 0).store.durableJobs
    (view 0).occurrences s.occurrences with ⟨occurrences, failed⟩
  rw [hfail] at h
  obtain ⟨automations, rfl, hmoves, hcompleted⟩ := completeExhausted_spec
    (s := { s with occurrences }) (fun n => (hviews n).automations) h
  obtain ⟨rfl, rfl⟩ := Prod.mk.inj hfail
  refine .exhausted rfl ?_ hmoves ⟨rfl, rfl, rfl⟩
  refine .update (fun _ => .inl rfl) fun o ho hp => .inr ⟨(foundIn_iff.mp hp).1, rfl, ?_⟩
  refine hcompleted o.userId o.automationId o.definitionRevision ?_
  rw [List.mem_dedup]
  exact List.mem_map.mpr ⟨o, mem_select.mpr ⟨ho, hp⟩, rfl⟩

end Automations
