import Laoshiren.Automations.Proofs.MaterializeProofs

/-!
# Proofs: what every effect keeps

Each part of the invariant speaks of the rows of one table and of what they refer to. A part is kept
where its rows move along with what they refer to, so each effect is a look at the tables that it
changes.
-/

namespace Automations

open Runtime Raise Table DurableJobRepository
open PersonalState (Calendar)

variable {cal : Calendar} {workers : UUID → Worker} {op : Op} {view : ℕ → State} {s s' : State}
  {a a' : Automation} {o o' : AutomationOccurrence} {j j' : DurableJob}
  {automations automations' : Table Automation}
  {occurrences occurrences' : Table AutomationOccurrence} {jobs jobs' : Table DurableJob}
  {anyOccurrence : AutomationOccurrence → Prop} {anyAutomation : Automation → Prop}

/-! ## References -/

theorem Executes.move {sweep : Option (Timestamp × (UUID → Bool))} (h : Executes occurrences j)
    (hmove : QueueMove sweep j j')
    (hgrows : Grows OccurrenceLater anyOccurrence occurrences occurrences') :
    Executes occurrences' j' := by
  intro hkind'
  have hkind : j.kind = .automationOccurrence := hmove.later.same.kind.symm.trans hkind'
  obtain ⟨hheld, o, ho, hlink⟩ := h hkind
  obtain ⟨o', ho', hlater⟩ := hgrows.kept o ho
  refine ⟨hmove.held hkind hheld, o', ho', ?_⟩
  rw [hlater.job, hlink, hmove.later.id]

theorem JobFor.move (h : JobFor cal o j) (ho : OccurrenceLater o o') (hj : SameJob j j') :
    JobFor cal o' j' where
  kind := hj.kind.trans h.kind
  userId := by rw [hj.userId, h.userId, ho.userId]
  dedupeKey := by rw [hj.dedupeKey, h.dedupeKey, ho.id]
  payload := by
    rw [hj.payload, h.payload, occurrencePayload, occurrencePayload, ho.id, ho.slot]

/-- The queue keeps an Occurrence and its job in agreement. -/
theorem Agree.move {sweep : Option (Timestamp × (UUID → Bool))} {status : OccurrenceStatus}
    (h : Agree status j.status) (hmove : QueueMove sweep j j')
    (hkind : j.kind = .automationOccurrence) : Agree status j'.status := by
  by_cases hlive : Live j.status
  · obtain rfl := h.materialized hlive
    exact .open ((hmove.live hkind hlive).imp id And.left)
  · rw [hmove.later.ended hkind hlive]
    exact h

theorem Linked.queue {sweep : Option (Timestamp × (UUID → Bool))} {new : DurableJob → Prop}
    (h : Linked cal jobs o) (hjobs : Grows (QueueMove sweep) new jobs jobs') :
    Linked cal jobs' o := by
  refine h.imp id fun ⟨j, hj, hlink, hfor, hagree⟩ => ?_
  obtain ⟨j', hj', hmove⟩ := hjobs.kept j hj
  refine ⟨j', hj', hlink.trans (congrArg some hmove.later.id.symm), ?_, hagree.move hmove hfor.kind⟩
  exact hfor.move (.refl o) hmove.later.same

theorem Owned.move (h : Owned automations o) (ho : OccurrenceLater o o')
    (hgrows : Grows AutomationLater anyAutomation automations automations') :
    Owned automations' o' := by
  obtain ⟨a, ha, hid, huser, hrevision, hpast⟩ := h
  obtain ⟨a', ha', hlater⟩ := hgrows.kept a ha
  refine ⟨a', ha', ?_, ?_, ?_, fun t' ht' => ?_⟩
  · rw [hlater.id, hid, ho.slot]
  · rw [hlater.userId, huser, ho.userId]
  · rw [hlater.definitionRevision, hrevision, ho.slot]
  · obtain ⟨t, ht, hle⟩ := hlater.trigger t' ht'
    rw [ho.slot]
    exact (hpast t ht).trans_le hle

theorem TellsOf.move {i i' : NotificationIntent} (h : TellsOf cal occurrences i)
    (hi : SameIntent i i') (hgrows : Grows OccurrenceLater anyOccurrence occurrences occurrences') :
    TellsOf cal occurrences' i' := by
  obtain ⟨o, ho, hid, hstatus, hkey, hautomation, huser⟩ := h
  obtain ⟨o', ho', hlater⟩ := hgrows.kept o ho
  refine ⟨o', ho', ?_, ?_, ?_, ?_, ?_⟩
  · rw [hlater.id, hid, hi.occurrenceId]
  · rw [hlater.settled (by simp [hstatus]), hstatus]
  · rw [hi.dedupeKey, hkey, hlater.slot]
  · rw [hi.automationId, hautomation, hlater.slot]
  · rw [hi.userId, huser, hlater.userId]

theorem CarriesOut.move {r r' : AgentRun} (h : CarriesOut cal occurrences r) (hr : SameOrigin r r')
    (hgrows : Grows OccurrenceLater anyOccurrence occurrences occurrences') :
    CarriesOut cal occurrences' r' := by
  intro htrigger
  obtain ⟨o, ho, huser, hkey⟩ := h (hr.trigger.symm.trans htrigger)
  obtain ⟨o', ho', hlater⟩ := hgrows.kept o ho
  refine ⟨o', ho', ?_, ?_⟩
  · rw [hr.userId, huser, hlater.userId]
  · rw [hr.idempotencyKey, hkey, hlater.slot]

theorem PushFor.move {d d' : NotificationDelivery} (h : PushFor d j) (hd : SameDelivery d d')
    (hj : SameJob j j') : PushFor d' j' where
  kind := hj.kind.trans h.kind
  userId := by rw [hj.userId, h.userId, hd.userId]
  dedupeKey := by rw [hj.dedupeKey, h.dedupeKey, hd.id]
  payload := by
    rw [hj.payload, h.payload, pushPayload, pushPayload, hd.id, hd.intentId, hd.endpointId]

/-! ## Automations -/

theorem Automation.WellFormed.statusMove (h : a.WellFormed) (hmove : StatusMove op a a') :
    a'.WellFormed := by
  cases hmove with
  | touched => exact ⟨h.watching, h.recurring⟩
  | cancelled => exact ⟨fun _ => by simp, h.recurring⟩
  | paused => exact ⟨fun _ => by simp, h.recurring⟩
  | resumed _ _ _ htype => exact ⟨fun hwatch => by tauto, h.recurring⟩

theorem Automation.WellFormed.completion (h : a.WellFormed) (hmove : CompletionMove a a') :
    a'.WellFormed := by
  cases hmove with
  | kept => exact h
  | completed => exact ⟨fun _ => by simp, h.recurring⟩

theorem CompletionMove.later (h : CompletionMove a a') : AutomationLater a a' := by
  cases h with
  | kept => exact .refl a
  | completed _ hwaits => exact .of_status (by simp [hwaits.2])

/-- The next trigger is later than the time at which it is set. -/
theorem Automation.WellFormed.nextTrigger_lt {occurredAt t : Timestamp} (h : a.WellFormed)
    (hactive : a.status = .active) (ht : t ∈ a.nextTrigger occurredAt) : occurredAt < t := by
  unfold Automation.nextTrigger at ht
  split at ht
  · cases ht
  · split at ht
    next hrecurring =>
      obtain ⟨n, hn, hle⟩ := h.recurring hrecurring
      rw [Option.mem_def.mp hn, Option.map_some, Option.mem_some] at ht
      subst ht
      have hpos : 0 < n * 1000000 := by omega
      exact lt_add_of_pos_right _ hpos
    next hshot hrecurring =>
      refine absurd hactive (h.watching ?_)
      cases htype : a.automationType <;> simp_all [isOneShotType]

/-- An Automation that was triggered. -/
theorem AutomationLater.of_triggered {occurredAt t : Timestamp} (h : a.WellFormed)
    (hactive : a.status = .active) (hdue : a.nextTriggerAt = some t) (hpast : t ≤ occurredAt) :
    AutomationLater a (a.markTriggered occurredAt) where
  id := rfl
  userId := rfl
  automationType := rfl
  interval := rfl
  definitionRevision := rfl
  version := Nat.le_succ _
  unchanged hversion := absurd hversion (Nat.succ_ne_self _)
  ended hover := absurd hover (by simp [hactive])
  trigger t' ht' := ⟨t, hdue, hpast.trans (h.nextTrigger_lt hactive ht').le⟩

theorem completionMove_completeOneShot (a : Automation) (now : Timestamp) :
    CompletionMove a (a.completeOneShot now) := by
  by_cases hwaits : a.Waits
  · rw [completeOneShot_of_waits hwaits]
    exact .completed now hwaits
  · rw [completeOneShot_of_not hwaits]
    exact .kept

/-! ## One Occurrence and its job -/

theorem occurrenceDedupeKey_inj {id id' : UUID}
    (h : occurrenceDedupeKey id = occurrenceDedupeKey id') : id = id' :=
  UUID.str_injective ((String.append_right_inj _).mp h)

/-- A job executes one Occurrence. -/
theorem Fits.linked_eq (h : Fits cal s) (ho : o ∈ s.occurrences) (ho' : o' ∈ s.occurrences)
    {jobId : UUID} (hlink : o.durableJobId = some jobId) (hlink' : o'.durableJobId = some jobId) :
    o = o' := by
  rcases h.linked o ho with ⟨hnone, -⟩ | ⟨j, hj, hid, hfor, -⟩
  · rw [hnone] at hlink
    cases hlink
  rcases h.linked o' ho' with ⟨hnone, -⟩ | ⟨j', hj', hid', hfor', -⟩
  · rw [hnone] at hlink'
    cases hlink'
  obtain rfl : j = j' := job_eq hj hj'
    ((Option.some.inj (hid.symm.trans hlink)).trans (Option.some.inj (hlink'.symm.trans hid')))
  exact occurrence_eq ho ho'
    (occurrenceDedupeKey_inj (hfor.dedupeKey.symm.trans hfor'.dedupeKey))

/-- An Occurrence and its job settle together, and the others are left alone. -/
theorem Fits.linked_settled (h : Fits cal s) {n : DurableJob → Prop}
    (hlink : o.durableJobId = some j.id) (ho : OccurrenceLater o o') (hj : JobLater j j')
    (hagree : Agree o'.status j'.status) (hadded : Grows Eq n s.store.durableJobs jobs)
    (hoccurrences : Replaces o o' s.occurrences occurrences')
    (hjobs : Replaces j j' jobs jobs') : ∀ r ∈ occurrences', Linked cal jobs' r := by
  intro r hr
  rcases hoccurrences.mem_cases hr with rfl | ⟨hold, hne⟩
  · rcases h.linked o hoccurrences.1 with ⟨hnone, -⟩ | ⟨j₀, hj₀, hlink₀, hfor, -⟩
    · rw [hnone] at hlink
      cases hlink
    · obtain ⟨_, hmem, rfl⟩ := hadded.kept j₀ hj₀
      obtain rfl : j₀ = j :=
        eq_of_conflict hmem hjobs.1 (.inl (Option.some.inj (hlink₀.symm.trans hlink)))
      refine .inr ⟨j', hjobs.mem_new, ?_, hfor.move ho hj.same, hagree⟩
      rw [ho.job, hlink, hj.id]
  · refine (h.linked r hold).imp id fun ⟨j₀, hj₀, hlink₀, hfor, hagree⟩ => ?_
    obtain ⟨_, hmem, rfl⟩ := hadded.kept j₀ hj₀
    refine ⟨j₀, hjobs.mem_of_ne hmem ?_, hlink₀, hfor, hagree⟩
    rintro rfl
    exact hne (h.linked_eq hold hoccurrences.1 hlink₀ hlink)

/-! ## Effects -/

section

variable {α : Type*} [Row α] {R : α → α → Prop} {new : α → Prop} {t t' : Table α}

/-- A table that is left alone, or gets rows. -/
theorem grows_of_eq (hR : ∀ r, R r r) (h : Grows Eq new t t') : Grows R (fun _ => True) t t' :=
  h.imp (fun r _ heq => heq ▸ hR r) fun _ _ => trivial

theorem grows_of_same (hR : ∀ r, R r r) (h : t' = t) : Grows R new t t' := by
  rw [h]
  exact .refl hR t

end

theorem JobLater.settled {status : DurableJobStatus} {now : Timestamp} {errorCode : Option String}
    (hlive : Live j.status) : JobLater j (settleValues status now errorCode j) :=
  ⟨rfl, ⟨rfl, rfl, rfl, rfl⟩, fun _ hover => absurd hlive hover⟩

theorem live_of_claim {jobId : UUID} {owner : String} {claimEpoch : ℕ} {now : Timestamp}
    (h : settleWhere jobId owner claimEpoch now j = true) : Live j.status :=
  .inr (heldBy_iff.mp (settleWhere_iff.mp h).1).2.1

theorem OccurrenceLater.of_open {status : OccurrenceStatus} {settledAt : Option Timestamp}
    (hopen : o.status = .materialized) :
    OccurrenceLater o { o with status := status, settledAt := settledAt } :=
  ⟨rfl, rfl, rfl, rfl, fun hsettled => absurd hopen hsettled⟩

theorem Effect.later (h : Effect cal workers op view s s') (hfits : Fits cal s) : Later s s' := by
  cases h with
  | clients hautomations hintents hrest =>
    obtain ⟨hstore, hoccurrences, hdeliveries⟩ := hrest
    exact ⟨hautomations.imp (fun _ _ => StatusMove.later) fun _ _ => trivial,
      grows_of_same .refl hoccurrences, grows_of_same .refl (congrArg (·.durableJobs) hstore),
      grows_of_same .refl (congrArg (·.runs) hstore), .of_moves hintents,
      grows_of_same .refl hdeliveries⟩
  | materialized hop hactive hdue hpast ho hjob hautomations hnew hmem hoccurrences hqueued hjobs
      hrest =>
    obtain ⟨hruns, hintents, hdeliveries⟩ := hrest
    have hlater := AutomationLater.of_triggered (hfits.wellFormed _ hautomations.1) hactive hdue hpast
    exact ⟨hautomations.grows .refl hlater, grows_of_eq .refl hoccurrences, grows_of_eq .refl hjobs,
      grows_of_same .refl hruns, grows_of_same .refl hintents, grows_of_same .refl hdeliveries⟩
  | passedOver hop hactive hdue hpast ho hautomations hnew hmem hoccurrences hrest =>
    obtain ⟨hstore, hintents, hdeliveries⟩ := hrest
    have hlater := AutomationLater.of_triggered (hfits.wellFormed _ hautomations.1) hactive hdue hpast
    exact ⟨hautomations.grows .refl (hlater.trans (completionMove_completeOneShot _ _).later), grows_of_eq .refl hoccurrences,
      grows_of_same .refl (congrArg (·.durableJobs) hstore),
      grows_of_same .refl (congrArg (·.runs) hstore), grows_of_same .refl hintents,
      grows_of_same .refl hdeliveries⟩
  | run hop hphase hread hrow hlink hslot huser hautomation hruns hjobs hrest =>
    obtain ⟨hautomations, hoccurrences, hintents, hdeliveries⟩ := hrest
    exact ⟨grows_of_same .refl hautomations, grows_of_same .refl hoccurrences,
      hjobs.imp (fun _ _ => QueueMove.later) fun _ _ => trivial,
      hruns.imp (fun _ _ => id) fun _ _ => trivial, grows_of_same .refl hintents,
      grows_of_same .refl hdeliveries⟩
  | ended hends hclaim hlink hopen hending hoccurrences hjobs hautomations hcompleted hrest =>
    obtain ⟨hruns, hintents, hdeliveries⟩ := hrest
    exact ⟨.of_moves (hautomations.imp fun _ _ => CompletionMove.later),
      hoccurrences.grows .refl (.of_open hopen), hjobs.grows .refl (.settled (live_of_claim hclaim)),
      grows_of_same .refl hruns, grows_of_same .refl hintents, grows_of_same .refl hdeliveries⟩
  | fired hop hphase hclaim hlink hid hopen hautomation huser hi hintent hintents hdeliveries
      hoccurrences hjobs hautomations hcompleted hrest =>
    have hpushed := grows_of_eq JobLater.refl hdeliveries.queued
    have hsettled := hjobs.moves JobLater.refl (.settled (live_of_claim hclaim))
    exact ⟨.of_moves (hautomations.imp fun _ _ => CompletionMove.later),
      hoccurrences.grows .refl (.of_open hopen),
      hpushed.trans (.of_moves hsettled) (fun _ _ _ => .trans) fun _ _ _ _ => trivial,
      grows_of_same .refl hrest, grows_of_eq .refl hintents, grows_of_eq .refl hdeliveries.added⟩
  | exhausted hop hoccurrences hautomations hrest =>
    obtain ⟨hstore, hintents, hdeliveries⟩ := hrest
    refine ⟨.of_moves (hautomations.imp fun _ _ => CompletionMove.later),
      .of_moves (hoccurrences.imp ?_), grows_of_same .refl (congrArg (·.durableJobs) hstore),
      grows_of_same .refl (congrArg (·.runs) hstore), grows_of_same .refl hintents,
      grows_of_same .refl hdeliveries⟩
    rintro o o' (rfl | ⟨hwhere, rfl, -⟩)
    · exact .refl o'
    · exact .of_open (of_decide_eq_true hwhere).1
  | queue hruns hjobs hrest =>
    obtain ⟨hautomations, hoccurrences, hintents, hdeliveries⟩ := hrest
    exact ⟨grows_of_same .refl hautomations, grows_of_same .refl hoccurrences,
      hjobs.imp (fun _ _ => QueueMove.later) fun _ _ => trivial,
      hruns.imp (fun _ _ => id) fun _ _ => trivial, grows_of_same .refl hintents,
      grows_of_same .refl hdeliveries⟩
  | deliveries hdeliveries hrest =>
    obtain ⟨hstore, hautomations, hoccurrences, hintents⟩ := hrest
    exact ⟨grows_of_same .refl hautomations, grows_of_same .refl hoccurrences,
      grows_of_same .refl (congrArg (·.durableJobs) hstore),
      grows_of_same .refl (congrArg (·.runs) hstore), grows_of_same .refl hintents,
      .of_moves hdeliveries⟩

theorem grows_added {α : Type*} [Row α] {R : α → α → Prop} {new new' : α → Prop} {t t' : Table α}
    (hR : ∀ r, R r r) (h : Grows Eq new t t') (hnew : ∀ r, new r → new' r) : Grows R new' t t' :=
  h.imp (fun r _ heq => heq ▸ hR r) hnew

/-- The parts of the invariant, each from what it was before. -/
theorem Fits.step (h : Fits cal s) (hlater : Later s s')
    (hexecutes : ∀ j ∈ s'.store.durableJobs, Executes s'.occurrences j)
    (hlinked : ∀ o ∈ s'.occurrences, Linked cal s'.store.durableJobs o)
    (howned : Grows OccurrenceLater (Owned s'.automations) s.occurrences s'.occurrences)
    (hintents : Grows SameIntent (TellsOf cal s'.occurrences) s.intents s'.intents)
    (hsucceeded : ∀ o ∈ s'.occurrences, o.status = .succeeded →
      (∃ r ∈ s.occurrences, r.id = o.id ∧ r.status = .succeeded) ∨
        ∃ i ∈ s'.intents, i.occurrenceId = o.id)
    (hruns : Grows SameOrigin (CarriesOut cal s'.occurrences) s.store.runs s'.store.runs)
    (hwellFormed : ∀ a ∈ s'.automations, a.WellFormed)
    (hpushed : Grows SameDelivery (fun d => ∃ j ∈ s'.store.durableJobs, PushFor d j) s.deliveries
      s'.deliveries)
    (hpushes : Grows JobLater
      (fun j => j.kind = .pushDelivery → ∃ d ∈ s'.deliveries, PushFor d j) s.store.durableJobs
      s'.store.durableJobs) : Fits cal s' where
  jobs := hexecutes
  linked := hlinked
  owned := howned.forall_mem h.owned (fun _ _ ho hown => hown.move ho hlater.automations)
    fun _ => id
  intents := hintents.forall_mem h.intents (fun _ _ hi htells => htells.move hi hlater.occurrences)
    fun _ => id
  succeeded o ho hstatus := by
    rcases hsucceeded o ho hstatus with ⟨r, hr, hid, hsettled⟩ | hnew
    · obtain ⟨i, hi, htells⟩ := h.succeeded r hr hsettled
      obtain ⟨i', hi', hsame⟩ := hintents.kept i hi
      exact ⟨i', hi', hsame.occurrenceId.trans (htells.trans hid)⟩
    · exact hnew
  runs := hruns.forall_mem h.runs (fun _ _ hr hcarries => hcarries.move hr hlater.occurrences)
    fun _ => id
  wellFormed := hwellFormed
  pushed d hd := by
    rcases hpushed.origin d hd with ⟨d₀, hd₀, hsame⟩ | hnew
    · obtain ⟨j, hj, hpush⟩ := h.pushed d₀ hd₀
      obtain ⟨j', hj', hmove⟩ := hpushes.kept j hj
      exact ⟨j', hj', hpush.move hsame hmove.same⟩
    · exact hnew
  pushes j hj hkind := by
    rcases hpushes.origin j hj with ⟨j₀, hj₀, hmove⟩ | hnew
    · obtain ⟨d, hd, hpush⟩ := h.pushes j₀ hj₀ (hmove.same.kind.symm.trans hkind)
      obtain ⟨d', hd', hsame⟩ := hpushed.kept d hd
      exact ⟨d', hd', hpush.move hsame hmove.same⟩
    · exact hnew hkind

/-- The jobs of the Occurrences that are there, when the queue moves them. -/
theorem Fits.executes_queue (h : Fits cal s) (sweep : Option (Timestamp × (UUID → Bool)))
    {newJob : DurableJob → Prop} (hjobs : Grows (QueueMove sweep) newJob s.store.durableJobs jobs')
    (hoccurrences : Grows OccurrenceLater anyOccurrence s.occurrences occurrences')
    (hnew : ∀ j, newJob j → Executes occurrences' j) : ∀ j ∈ jobs', Executes occurrences' j := by
  intro j' hj'
  rcases hjobs.origin j' hj' with ⟨j, hj, hmove⟩ | hadded
  · exact (h.jobs j hj).move hmove hoccurrences
  · exact hnew j' hadded

/-- The jobs of the Occurrences that are there, when one of them is settled. -/
theorem Fits.executes_settled (h : Fits cal s) {newJob : DurableJob → Prop}
    {status : DurableJobStatus} {now : Timestamp} {errorCode : Option String}
    (hadded : Grows Eq newJob s.store.durableJobs jobs)
    (hjobs : Replaces j (settleValues status now errorCode j) jobs jobs')
    (hoccurrences : Grows OccurrenceLater anyOccurrence s.occurrences occurrences')
    (hnew : ∀ j, newJob j → j.kind ≠ .automationOccurrence) :
    ∀ j ∈ jobs', Executes occurrences' j := by
  have hthere : ∀ j ∈ jobs, Executes occurrences' j :=
    h.executes_queue none (hadded.imp (fun _ _ heq => heq ▸ .refl _) fun _ => id)
      hoccurrences fun j hj hkind => absurd hkind (hnew j hj)
  intro j' hj'
  rcases hjobs.mem_cases hj' with rfl | ⟨hold, -⟩
  · exact fun hkind => ⟨workerHeld_none rfl, (hthere j hjobs.1 hkind).2⟩
  · exact hthere j' hold

theorem nextTriggerAt_completeOneShot (a : Automation) (now : Timestamp) :
    (a.completeOneShot now).nextTriggerAt = a.nextTriggerAt := by
  unfold Automation.completeOneShot
  split <;> rfl

/-- An Automation owns the Occurrence that it was triggered for. -/
theorem owned_triggered {occurredAt t : Timestamp} (stamp : Stamp) (h : a.WellFormed)
    (hactive : a.status = .active) (hpast : t ≤ occurredAt) (hmem : a' ∈ automations)
    (ha' : AutomationLater (a.markTriggered occurredAt) a') :
    Owned automations (dueOccurrence a t stamp) := by
  refine ⟨a', hmem, ha'.id, ha'.userId, ha'.definitionRevision, fun t' ht' => ?_⟩
  obtain ⟨t₁, ht₁, hle⟩ := ha'.trigger t' ht'
  exact hpast.trans_lt ((h.nextTrigger_lt hactive ht₁).trans_le hle)

theorem Automation.WellFormed.triggered (h : a.WellFormed) (occurredAt : Timestamp) :
    (a.markTriggered occurredAt).WellFormed := ⟨h.watching, h.recurring⟩

theorem wellFormed_replaces (h : ∀ a ∈ automations, a.WellFormed)
    (hreplaces : Replaces a a' automations automations') (hnew : a'.WellFormed) :
    ∀ a ∈ automations', a.WellFormed := by
  intro b hb
  rcases hreplaces.mem_cases hb with rfl | ⟨hold, -⟩
  · exact hnew
  · exact h b hold

theorem wellFormed_completed (h : ∀ a ∈ automations, a.WellFormed)
    (hmoves : automations.Moves CompletionMove automations') : ∀ a ∈ automations', a.WellFormed := by
  intro b hb
  obtain ⟨a, ha, hmove⟩ := hmoves.mem hb
  exact (h a ha).completion hmove

/-- A job that was seen to be given up stays so. -/
theorem exhausted_job {newJob : DurableJob → Prop}
    (hlater : Grows JobLater newJob jobs s.store.durableJobs)
    (hwhere : OccurrenceRepository.failExhaustedWhere jobs o = true) :
    ∃ j ∈ s.store.durableJobs, o.durableJobId = some j.id ∧ j.status = .failed := by
  obtain ⟨-, jobId, hjobId, hexhausted⟩ := of_decide_eq_true hwhere
  obtain ⟨j₀, hget⟩ := Option.isSome_iff_exists.mp hexhausted
  obtain ⟨hj₀, hp⟩ := get_eq_some hget
  obtain ⟨hid, hkind, hfailed⟩ := of_decide_eq_true hp
  obtain ⟨j, hj, hmove⟩ := hlater.kept j₀ hj₀
  refine ⟨j, hj, hjobId.trans (congrArg some (hmove.id.trans hid).symm), ?_⟩
  rw [hmove.ended hkind (by simp [Live, hfailed]), hfailed]

/-- What is known of the job of an Occurrence. -/
theorem Fits.linkedJob (h : Fits cal s) (ho : o ∈ s.occurrences) (hj : j ∈ s.store.durableJobs)
    (hlink : o.durableJobId = some j.id) : JobFor cal o j ∧ Agree o.status j.status := by
  rcases h.linked o ho with ⟨hnone, -⟩ | ⟨j', hj', hlink', hfor, hagree⟩
  · rw [hnone] at hlink
    cases hlink
  · obtain rfl := job_eq hj hj' (Option.some.inj (hlink.symm.trans hlink'))
    exact ⟨hfor, hagree⟩

/-- An Occurrence whose job was seen to fail agrees with it when it fails too. -/
theorem Fits.linked_exhausted (h : Fits cal s) {newJob : DurableJob → Prop}
    (hlater : Grows JobLater newJob jobs s.store.durableJobs) (ho : o ∈ s.occurrences)
    (hwhere : OccurrenceRepository.failExhaustedWhere jobs o = true) {settledAt : Option Timestamp} :
    Linked cal s.store.durableJobs { o with status := .failed, settledAt := settledAt } := by
  obtain ⟨j, hj, hlink, hstatus⟩ := exhausted_job hlater hwhere
  obtain ⟨hfor, -⟩ := h.linkedJob ho hj hlink
  refine .inr ⟨j, hj, hlink, ⟨hfor.kind, hfor.userId, hfor.dedupeKey, hfor.payload⟩, ?_⟩
  rw [hstatus]
  exact .failed

theorem slotOf_eq (h : a.id = o.automationId) : slotOf a o = o.toSlot := by
  rw [slotOf, h]

theorem Effect.fits (h : Effect cal workers op view s s') (hfits : Fits cal s)
    (hview : Later (view 0) s) : Fits cal s' := by
  have hlater := h.later hfits
  cases h with
  | clients hautomations hintents hrest =>
    obtain ⟨hstore, hoccurrences, hdeliveries⟩ := hrest
    refine hfits.step hlater ?_ ?_ (grows_of_same .refl hoccurrences) (.of_moves hintents) ?_
      (grows_of_same .refl (congrArg (·.runs) hstore)) ?_ (grows_of_same .refl hdeliveries)
      (grows_of_same .refl (congrArg (·.durableJobs) hstore))
    · rw [hstore, hoccurrences]
      exact hfits.jobs
    · rw [hstore, hoccurrences]
      exact hfits.linked
    · rw [hoccurrences]
      exact fun o ho hstatus => .inl ⟨o, ho, rfl, hstatus⟩
    · exact hautomations.forall_mem hfits.wellFormed (fun _ _ hmove h => h.statusMove hmove)
        fun _ h => h.wellFormed
  | @materialized a o job occurredAt t limit locked taskStatus fresh hop hactive hdue hpast ho hjob
      hautomations hnew hmem hoccurrences hqueued hjobs hrest =>
    obtain ⟨hruns, hintents, hdeliveries⟩ := hrest
    have hkind : job.kind = .automationOccurrence := by rw [hjob]; rfl
    have hclaimed : job.claimedBy = none := by rw [hjob]; rfl
    have hlink : o.durableJobId = some job.id := by rw [ho]
    have hfor : JobFor cal o job := by
      rw [hjob]
      exact ⟨rfl, rfl, rfl, rfl⟩
    have hmoves := grows_added (R := QueueMove none) .refl hjobs fun _ => id
    refine hfits.step hlater ?_ ?_ ?_ (grows_of_same .refl hintents) ?_
      (grows_of_same .refl hruns) ?_ (grows_of_same .refl hdeliveries) ?_
    · refine hfits.executes_queue none hmoves hlater.occurrences ?_
      rintro _ rfl -
      exact ⟨workerHeld_none hclaimed, o, hmem, hlink⟩
    · refine hoccurrences.forall_mem hfits.linked (fun _ _ heq h => heq ▸ h.queue hmoves) ?_
      rintro _ rfl
      refine .inr ⟨job, hqueued, hlink, hfor, ?_⟩
      rw [hjob, ho]
      exact .open (.inl (.inl rfl))
    · refine grows_added .refl hoccurrences ?_
      rintro _ rfl
      have hown := owned_triggered (fresh a.id 1) (hfits.wellFormed a hautomations.1) hactive
        hpast hautomations.mem_new (.refl _)
      rw [ho]
      exact hown
    · intro r hr hstatus
      rcases hoccurrences.origin r hr with ⟨r, hold, rfl⟩ | rfl
      · exact .inl ⟨r, hold, rfl, hstatus⟩
      · rw [ho] at hstatus
        cases hstatus
    · exact wellFormed_replaces hfits.wellFormed hautomations
        ((hfits.wellFormed a hautomations.1).triggered _)
    · refine grows_added .refl hjobs ?_
      rintro _ rfl hpush
      rw [hkind] at hpush
      cases hpush
  | @passedOver a o occurredAt t now limit locked taskStatus fresh hop hactive hdue hpast ho
      hautomations hnew hmem hoccurrences hrest =>
    obtain ⟨hstore, hintents, hdeliveries⟩ := hrest
    have hwellFormed := (hfits.wellFormed a hautomations.1).triggered occurredAt
    refine hfits.step hlater ?_ ?_ ?_ (grows_of_same .refl hintents) ?_
      (grows_of_same .refl (congrArg (·.runs) hstore)) ?_ (grows_of_same .refl hdeliveries)
      (grows_of_same .refl (congrArg (·.durableJobs) hstore))
    · rw [hstore]
      exact hfits.executes_queue none (.refl .refl _) hlater.occurrences fun _ => False.elim
    · rw [hstore]
      refine hoccurrences.forall_mem hfits.linked (fun _ _ heq h => heq ▸ h) ?_
      rintro _ rfl
      rw [ho]
      exact .inl ⟨rfl, rfl⟩
    · refine grows_added .refl hoccurrences ?_
      rintro _ rfl
      have hown := owned_triggered (fresh a.id 1) (hfits.wellFormed a hautomations.1) hactive
        hpast hautomations.mem_new (completionMove_completeOneShot _ _).later
      rw [ho]
      exact hown
    · intro r hr hstatus
      rcases hoccurrences.origin r hr with ⟨r, hold, rfl⟩ | rfl
      · exact .inl ⟨r, hold, rfl, hstatus⟩
      · rw [ho] at hstatus
        cases hstatus
    · exact wellFormed_replaces hfits.wellFormed hautomations
        (hwellFormed.completion (completionMove_completeOneShot _ _))
  | @run worker clock budget fresh job o a hop hphase hread row hrow hlink hslot huser hautomation
      hruns hjobs hrest =>
    obtain ⟨hautomations, hoccurrences, hintents, hdeliveries⟩ := hrest
    refine hfits.step hlater ?_ ?_ (grows_of_same .refl hoccurrences)
      (grows_of_same .refl hintents) ?_ (hruns.imp (fun _ _ => id) ?_) ?_
      (grows_of_same .refl hdeliveries) (hjobs.imp (fun _ _ => QueueMove.later) ?_)
    · exact hfits.executes_queue _ hjobs hlater.occurrences fun _ hother hkind => absurd hkind hother.1
    · rw [hoccurrences]
      exact fun r hr => (hfits.linked r hr).queue hjobs
    · rw [hoccurrences]
      exact fun r hr hstatus => .inl ⟨r, hr, rfl, hstatus⟩
    · rintro r ⟨hr, hkey⟩ -
      rw [slotOf_eq hautomation, ← hslot] at hkey
      rw [hoccurrences]
      exact ⟨row, hrow, hr.trans huser.symm, hkey⟩
    · rw [hautomations]
      exact hfits.wellFormed
    · exact fun _ hother hpush => absurd hpush hother.2
  | @ended worker job j o status outcome now errorCode settledAt hends hclaim hlink hopen hending
      hoccurrences hjobs hautomations hcompleted hrest =>
    obtain ⟨hruns, hintents, hdeliveries⟩ := hrest
    have hlive := live_of_claim hclaim
    refine hfits.step hlater ?_ ?_ (hoccurrences.grows .refl (.of_open hopen))
      (grows_of_same .refl hintents) ?_ (grows_of_same .refl hruns)
      (wellFormed_completed hfits.wellFormed hautomations) (grows_of_same .refl hdeliveries)
      (hjobs.grows .refl (.settled hlive))
    · exact hfits.executes_settled (.refl (fun _ => rfl) _) hjobs
        hlater.occurrences fun _ => False.elim
    · refine hfits.linked_settled hlink (.of_open hopen) (.settled hlive) ?_
        (n := fun _ => False) (.refl (fun _ => rfl) _) hoccurrences hjobs
      cases hending with
      | skipped => exact .skipped
      | failed => exact .failed
      | unseen => exact .open (.inr rfl)
    · intro r hr hstatus
      rcases hoccurrences.mem_cases hr with rfl | ⟨hold, -⟩
      · cases hending <;> cases hstatus
      · exact .inl ⟨r, hold, rfl, hstatus⟩
  | @fired worker job j o read a i now stamp fresh jobs hop hphase hclaim hlink hid hopen hautomation
      huser hi hintent hintents hdeliveries hoccurrences hjobs hautomations hcompleted hrest =>
    have hlive := live_of_claim hclaim
    have hmem := hoccurrences.mem_new
    have hpushed := grows_of_eq JobLater.refl hdeliveries.queued
    have hsettled := hjobs.moves JobLater.refl (.settled hlive)
    refine hfits.step hlater ?_ ?_ (hoccurrences.grows .refl (.of_open hopen))
      (grows_added .refl hintents ?_) ?_ (grows_of_same .refl hrest)
      (wellFormed_completed hfits.wellFormed hautomations) ?_ ?_
    · refine hfits.executes_settled hdeliveries.queued hjobs hlater.occurrences ?_
      rintro j' ⟨d, -, hpush⟩ hkind
      rw [hpush.kind] at hkind
      cases hkind
    · exact hfits.linked_settled hlink (.of_open hopen) (.settled hlive) .succeeded
        hdeliveries.queued hoccurrences hjobs
    · rintro _ rfl
      rw [hi]
      refine ⟨_, hmem, rfl, rfl, ?_, hautomation, huser⟩
      show (slotOf a o).key cal = o.toSlot.key cal
      rw [slotOf_eq hautomation]
    · intro r hr hstatus
      rcases hoccurrences.mem_cases hr with rfl | ⟨hold, -⟩
      · refine .inr ⟨i, hintent, ?_⟩
        rw [hi]
        rfl
      · exact .inl ⟨r, hold, rfl, hstatus⟩
    · refine ⟨(hlater.deliveries).kept, fun d hd => ?_⟩
      rcases hdeliveries.pushed d hd with hold | ⟨j', hj', hpush⟩
      · exact .inl ⟨d, hold, .refl d⟩
      · obtain ⟨j'', hj'', hmove⟩ := hsettled.exists_mem hj'
        exact .inr ⟨j'', hj'', hpush.move (.refl d) hmove.same⟩
    · have hqueued := grows_added JobLater.refl hdeliveries.queued fun _ => id
      refine hqueued.trans (.of_moves hsettled) (fun _ _ _ => .trans) ?_
      rintro j₁ j₂ ⟨d, hd, hpush⟩ hmove -
      exact ⟨d, hd, hpush.move (.refl d) hmove.same⟩
  | exhausted hop hoccurrences hautomations hrest =>
    obtain ⟨hstore, hintents, hdeliveries⟩ := hrest
    refine hfits.step hlater ?_ ?_ (.of_moves (hoccurrences.imp ?_))
      (grows_of_same .refl hintents) ?_ (grows_of_same .refl (congrArg (·.runs) hstore))
      (wellFormed_completed hfits.wellFormed hautomations) (grows_of_same .refl hdeliveries)
      (grows_of_same .refl (congrArg (·.durableJobs) hstore))
    · rw [hstore]
      exact hfits.executes_queue none (.refl .refl _) hlater.occurrences fun _ => False.elim
    · rw [hstore]
      intro r hr
      obtain ⟨o, ho, rfl | ⟨hwhere, rfl, -⟩⟩ := hoccurrences.mem hr
      · exact hfits.linked r ho
      · exact hfits.linked_exhausted hview.jobs ho hwhere
    · rintro o o' (rfl | ⟨hwhere, rfl, -⟩)
      · exact .refl o'
      · exact .of_open (of_decide_eq_true hwhere).1
    · intro r hr hstatus
      obtain ⟨o, ho, rfl | ⟨-, rfl, -⟩⟩ := hoccurrences.mem hr
      · exact .inl ⟨r, ho, rfl, hstatus⟩
      · cases hstatus
  | queue hruns hjobs hrest =>
    obtain ⟨hautomations, hoccurrences, hintents, hdeliveries⟩ := hrest
    refine hfits.step hlater ?_ ?_ (grows_of_same .refl hoccurrences)
      (grows_of_same .refl hintents) ?_ (hruns.imp (fun _ _ => id) ?_) ?_
      (grows_of_same .refl hdeliveries) (hjobs.imp (fun _ _ => QueueMove.later) ?_)
    · exact hfits.executes_queue _ hjobs hlater.occurrences fun _ hother hkind => absurd hkind hother.1
    · rw [hoccurrences]
      exact fun r hr => (hfits.linked r hr).queue hjobs
    · rw [hoccurrences]
      exact fun r hr hstatus => .inl ⟨r, hr, rfl, hstatus⟩
    · exact fun _ huser htrigger => absurd htrigger huser
    · rw [hautomations]
      exact hfits.wellFormed
    · exact fun _ hother hpush => absurd hpush hother.2
  | deliveries hdeliveries hrest =>
    obtain ⟨hstore, hautomations, hoccurrences, hintents⟩ := hrest
    refine hfits.step hlater ?_ ?_ (grows_of_same .refl hoccurrences)
      (grows_of_same .refl hintents) ?_ (grows_of_same .refl (congrArg (·.runs) hstore)) ?_
      (.of_moves hdeliveries) (grows_of_same .refl (congrArg (·.durableJobs) hstore))
    · rw [hstore, hoccurrences]
      exact hfits.jobs
    · rw [hstore, hoccurrences]
      exact hfits.linked
    · rw [hoccurrences]
      exact fun r hr hstatus => .inl ⟨r, hr, rfl, hstatus⟩
    · rw [hautomations]
      exact hfits.wellFormed

/-- What the effects of one transaction keep. -/
theorem effects_fits (h : Relation.ReflTransGen (Effect cal workers op view) s s')
    (hfits : Fits cal s) (hview : Later (view 0) s) : Fits cal s' ∧ Later s s' := by
  induction h with
  | refl => exact ⟨hfits, .refl s⟩
  | tail _ hlast ih =>
    obtain ⟨hfits', hlater⟩ := ih
    exact ⟨hlast.fits hfits' (hview.trans hlater), hlater.trans (hlast.later hfits')⟩

end Automations
