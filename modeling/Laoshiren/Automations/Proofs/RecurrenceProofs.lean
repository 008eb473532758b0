import Laoshiren.Automations.Proofs.CompletionProofs

/-!
# Proofs: when a recurring Automation fires

A scan moves the trigger of a recurring Automation to one interval after the scan, not after the trigger.
So the triggers leave the grid of the first one as soon as a scan is late by anything but whole intervals.
Whatever the lag, an Automation fires once in a scan, each Occurrence is later than the ones before, and
the next trigger is later than the scan.
-/

namespace Automations

open Runtime Table
open PersonalState (Calendar TaskStatus)

variable {cal : Calendar} {workers : UUID → Worker} {op : Op} {view : ℕ → State} {s s' s'' : State}
  {a a' : Automation} {o o' : AutomationOccurrence} {id : UUID} {h : History World Op Reply}

/-! ## Triggers -/

/-- The time of a scan. -/
def Op.scan : Op → Option Timestamp
  | .processDue occurredAt _ _ _ _ => some occurredAt
  | _ => none

/-- The Automation is due in the scan. -/
structure DueAt (op : Op) (a : Automation) (t : Timestamp) : Prop where
  active : a.status = .active
  due : a.nextTriggerAt = some t
  past : ∃ occurredAt ∈ op.scan, t ≤ occurredAt

/-- What a step makes of the trigger of an Automation. -/
inductive TriggerMove (op : Op) (a a' : Automation) : Prop
  | kept (hnext : a'.nextTriggerAt = a.nextTriggerAt) (hlast : a'.lastTriggeredAt = a.lastTriggeredAt)
  | triggered {occurredAt t : Timestamp} (hscan : op.scan = some occurredAt) (hdue : DueAt op a t)
      (hnext : a'.nextTriggerAt = a.nextTrigger occurredAt)
      (hlast : a'.lastTriggeredAt = some occurredAt)

/-- An Automation and what an effect makes of it. -/
structure TriggerLater (op : Op) (a a' : Automation) : Prop where
  later : AutomationLater a a'
  move : TriggerMove op a a'
  active : op.loops = true → a'.status = .active → a.status = .active

/-- The Occurrence of an Automation that was due. -/
structure FiresNow (op : Op) (s s' : State) (o : AutomationOccurrence) (a a' : Automation) : Prop where
  before : a ∈ s.automations
  after : a' ∈ s'.automations
  id : a'.id = a.id
  automation : o.automationId = a.id
  due : DueAt op a o.scheduledFor
  next : ∀ occurredAt ∈ op.scan, a'.nextTriggerAt = a.nextTrigger occurredAt

/-- What an effect does to the triggers and to the Occurrences. -/
structure Triggers (op : Op) (s s' : State) : Prop where
  automations : Grows (TriggerLater op) Automation.IsNew s.automations s'.automations
  occurrences : Grows OccurrenceLater (fun o => ∃ a a', FiresNow op s s' o a a')
    s.occurrences s'.occurrences

theorem TriggerLater.refl (a : Automation) : TriggerLater op a a :=
  ⟨.refl a, .kept rfl rfl, fun _ => id⟩

theorem StatusMove.trigger (h : StatusMove op a a') : TriggerLater op a a' := by
  refine ⟨h.later, ?_, fun hloops hactive => ?_⟩
  · cases h <;> exact .kept rfl rfl
  · cases h with
    | touched => exact hactive
    | cancelled => cases hactive
    | paused => cases hactive
    | resumed hop => exact absurd hop (op_ne_of_loops hloops _ _)

theorem CompletionMove.trigger (h : CompletionMove a a') : TriggerLater op a a' := by
  refine ⟨h.later, ?_, fun _ hactive => ?_⟩
  · cases h <;> exact .kept rfl rfl
  · cases h with
    | kept => exact hactive
    | completed => cases hactive

/-- The status of an Automation has no part in its trigger. -/
theorem completeOneShot_trigger (now : Timestamp) :
    (a.completeOneShot now).nextTriggerAt = a.nextTriggerAt ∧
      (a.completeOneShot now).lastTriggeredAt = a.lastTriggeredAt := by
  by_cases hwaits : a.Waits
  · rw [completeOneShot_of_waits hwaits]
    exact ⟨rfl, rfl⟩
  · rw [completeOneShot_of_not hwaits]
    exact ⟨rfl, rfl⟩

/-- An Automation that a scan triggers, and its Occurrence. -/
theorem Triggers.of_scan {occurredAt t : Timestamp} (hfits : Fits cal s)
    (hscan : op.scan = some occurredAt) (hactive : a.status = .active)
    (hdue : a.nextTriggerAt = some t) (hpast : t ≤ occurredAt)
    (hmove : AutomationLater a a') (hnext : a'.nextTriggerAt = a.nextTrigger occurredAt)
    (hlast : a'.lastTriggeredAt = some occurredAt)
    (hautomations : Replaces a a' s.automations s'.automations) (hid : o.automationId = a.id)
    (hscheduled : o.scheduledFor = t)
    (hoccurrences : Grows Eq (· = o) s.occurrences s'.occurrences) : Triggers op s s' := by
  have hat : DueAt op a t := ⟨hactive, hdue, occurredAt, hscan, hpast⟩
  refine ⟨hautomations.grows .refl ⟨hmove, .triggered hscan hat hnext hlast, fun _ _ => hactive⟩,
    grows_added .refl hoccurrences ?_⟩
  rintro _ rfl
  refine ⟨a, a', hautomations.1, hautomations.mem_new, hmove.id, hid, hscheduled ▸ hat, ?_⟩
  intro _ hscan'
  obtain rfl := Option.some.inj (hscan.symm.trans hscan')
  exact hnext

theorem Effect.triggers (h : Effect cal workers op view s s') (hfits : Fits cal s) :
    Triggers op s s' := by
  have hkept : s'.automations = s.automations → s'.occurrences = s.occurrences →
      Triggers op s s' :=
    fun hautomations hoccurrences =>
      ⟨grows_of_same .refl hautomations, grows_of_same .refl hoccurrences⟩
  have hcompleted : s.automations.Moves CompletionMove s'.automations →
      s.occurrences.Moves OccurrenceLater s'.occurrences → Triggers op s s' :=
    fun hautomations hoccurrences =>
      ⟨.of_moves (hautomations.imp fun _ _ => CompletionMove.trigger), .of_moves hoccurrences⟩
  cases h with
  | clients hautomations _ hrest =>
    exact ⟨hautomations.imp (fun _ _ => StatusMove.trigger) fun _ h => h.toIsNew,
      grows_of_same .refl hrest.2.1⟩
  | materialized hop hactive hdue hpast ho _ hautomations _ _ hoccurrences =>
    have hmove := AutomationLater.of_triggered (hfits.wellFormed _ hautomations.1) hactive hdue hpast
    exact .of_scan hfits (by rw [hop]; rfl) hactive hdue hpast hmove rfl rfl hautomations
      (by rw [ho]; rfl) (by rw [ho]; rfl) hoccurrences
  | @passedOver a o occurredAt t now limit locked taskStatus fresh hop hactive hdue hpast ho hautomations
      _ _ hoccurrences =>
    have hmove := (AutomationLater.of_triggered (hfits.wellFormed a hautomations.1) hactive hdue
      hpast).trans (completionMove_completeOneShot _ now).later
    obtain ⟨hnext, hlast⟩ := completeOneShot_trigger (a := a.markTriggered occurredAt) now
    exact .of_scan hfits (by rw [hop]; rfl) hactive hdue hpast hmove hnext hlast hautomations
      (by rw [ho]; rfl) (by rw [ho]; rfl) hoccurrences
  | run _ _ _ _ _ _ _ _ _ _ hrest => exact hkept hrest.1 hrest.2.1
  | ended _ _ _ hopen _ hoccurrences _ hautomations =>
    exact hcompleted hautomations (hoccurrences.moves .refl (.of_open hopen))
  | fired _ _ _ _ _ hopen _ _ _ _ _ _ hoccurrences _ hautomations =>
    exact hcompleted hautomations (hoccurrences.moves .refl (.of_open hopen))
  | exhausted _ hoccurrences hautomations =>
    refine hcompleted hautomations (hoccurrences.imp ?_)
    rintro o o' (rfl | ⟨hwhere, rfl, -⟩)
    · exact .refl o'
    · exact .of_open (of_decide_eq_true hwhere).1
  | queue _ _ hrest => exact hkept hrest.1 hrest.2.1
  | deliveries _ hrest => exact hkept hrest.2.1 hrest.2.2.1

/-! ## Order -/

/-- The Occurrence is new since the earlier state. -/
def NewSince (s : State) (o : AutomationOccurrence) : Prop := ∀ r ∈ s.occurrences, r.id ≠ o.id

/-- The later Occurrences of an Automation are scheduled later. -/
def Increases (s s' : State) : Prop :=
  ∀ o' ∈ s'.occurrences, NewSince s o' → ∀ o ∈ s.occurrences, o.automationId = o'.automationId →
    o.scheduledFor < o'.scheduledFor

/-- The next trigger of an Automation is later than the scan, and there is one if it recurs. -/
structure Ahead (occurredAt : Timestamp) (a : Automation) : Prop where
  later : ∀ t ∈ a.nextTriggerAt, occurredAt < t
  recurring : a.automationType = .recurring → a.nextTriggerAt ≠ none

/-- What a scan makes of the Automations that were due: each has one new Occurrence, and its next trigger is
later than the scan. -/
structure Advances (occurredAt : Timestamp) (s s' : State) : Prop where
  ahead : ∀ o ∈ s'.occurrences, NewSince s o → ∃ a ∈ s'.automations, a.id = o.automationId ∧
    Ahead occurredAt a
  once : ∀ o ∈ s'.occurrences, ∀ o' ∈ s'.occurrences, NewSince s o → NewSince s o' →
    o.automationId = o'.automationId → o = o'

/-- An Occurrence was there, or it is the one that is fired. -/
theorem Triggers.new (h : Triggers op s s') (ho : o ∈ s'.occurrences) (hnew : NewSince s o) :
    ∃ a a', FiresNow op s s' o a a' := by
  rcases h.occurrences.origin o ho with ⟨r, hr, hlater⟩ | hfires
  · exact absurd hlater.id.symm (hnew r hr)
  · exact hfires

theorem Increases.refl (s : State) : Increases s s :=
  fun _ ho' hnew _ _ _ => absurd rfl (hnew _ ho')

theorem Increases.trans (h : Increases s s') (h' : Increases s' s'')
    (hlater : Grows OccurrenceLater (fun _ => True) s.occurrences s'.occurrences)
    (hlater' : Grows OccurrenceLater (fun _ => True) s'.occurrences s''.occurrences) :
    Increases s s'' := by
  intro o₃ ho₃ hnew o₁ ho₁ hid
  obtain ⟨o₂, ho₂, hmove⟩ := hlater.kept o₁ ho₁
  by_cases hthere : NewSince s' o₃
  · have hlt := h' o₃ ho₃ hthere o₂ ho₂ ((congrArg Slot.automationId hmove.slot).trans hid)
    rwa [congrArg Slot.scheduledFor hmove.slot] at hlt
  · simp only [NewSince, not_forall, not_not] at hthere
    obtain ⟨r, hr, hrid⟩ := hthere
    obtain ⟨r', hr', hmove'⟩ := hlater'.kept r hr
    obtain rfl := occurrence_eq hr' ho₃ (hmove'.id.trans hrid)
    have hlt := h r hr (fun q hq hqid => hnew q hq (hqid.trans hrid)) o₁ ho₁
      (hid.trans (congrArg Slot.automationId hmove'.slot))
    rwa [← congrArg Slot.scheduledFor hmove'.slot] at hlt

/-- The trigger of an Automation is later than its Occurrences. -/
theorem Triggers.increases (h : Triggers op s s') (hfits : Fits cal s) : Increases s s' := by
  intro o' ho' hnew o ho hid
  obtain ⟨a, a', hfires⟩ := h.new ho' hnew
  obtain ⟨r, hr, hrid, -, -, hpast⟩ := hfits.owned o ho
  obtain rfl := automation_eq hfires.before hr
    (hfires.automation.symm.trans (hid.symm.trans hrid.symm))
  exact hpast _ hfires.due.due

theorem recurring_not_oneShot (h : a.automationType = .recurring) :
    isOneShotType a.automationType ≠ true := by
  rw [h]
  decide

/-- An Automation that recurs keeps a trigger. -/
theorem TriggerLater.next_ne_none (h : TriggerLater op a a') (hwell : a.WellFormed)
    (hrecurring : a.automationType = .recurring) (hnext : a.nextTriggerAt ≠ none) :
    a'.nextTriggerAt ≠ none := by
  cases h.move with
  | kept hkept => rwa [hkept]
  | triggered _ hdue hmoved =>
    rw [hmoved]
    exact hwell.nextTrigger_ne_none hdue.due (recurring_not_oneShot hrecurring)

theorem Ahead.later_of {occurredAt : Timestamp} (h : Ahead occurredAt a) (hlater : TriggerLater op a a')
    (hwell : a.WellFormed) : Ahead occurredAt a' := by
  refine ⟨fun t' ht' => ?_, fun hrecurring => ?_⟩
  · obtain ⟨t, ht, hle⟩ := hlater.later.trigger t' ht'
    exact (h.later t ht).trans_le hle
  · have htype := hlater.later.automationType.symm.trans hrecurring
    exact hlater.next_ne_none hwell htype (h.recurring htype)

/-- An Automation that fired in a scan. -/
theorem FiresNow.ahead {occurredAt : Timestamp} (h : FiresNow op s s' o a a')
    (hscan : op.scan = some occurredAt) (hfits : Fits cal s) (htype : a'.automationType =
      a.automationType) : Ahead occurredAt a' := by
  have hwell := hfits.wellFormed a h.before
  have hnext := h.next occurredAt hscan
  refine ⟨fun t ht => ?_, fun hrecurring => ?_⟩
  · rw [hnext] at ht
    exact hwell.nextTrigger_lt h.due.active ht
  · rw [hnext]
    exact hwell.nextTrigger_ne_none h.due.due (recurring_not_oneShot (htype.symm.trans hrecurring))

/-- The row of an Automation, and what an effect made of it. -/
theorem Triggers.row (h : Triggers op s s') (ha : a ∈ s.automations) (ha' : a' ∈ s'.automations)
    (hid : a.id = a'.id) : TriggerLater op a a' := by
  obtain ⟨r, hr, hlater⟩ := h.automations.kept a ha
  rwa [automation_eq hr ha' (hlater.later.id.trans hid)] at hlater

theorem FiresNow.later (h : FiresNow op s s' o a a') (htriggers : Triggers op s s') :
    TriggerLater op a a' := htriggers.row h.before h.after h.id.symm

/-- An Occurrence that is new was new already, or it is fired now. -/
theorem Triggers.new_cases (h : Triggers op s' s'') (ho : o ∈ s''.occurrences)
    (hnew : NewSince s o) : (∃ r ∈ s'.occurrences, NewSince s r ∧ r.id = o.id ∧
      r.automationId = o.automationId) ∨ ∃ a a', FiresNow op s' s'' o a a' := by
  rcases h.occurrences.origin o ho with ⟨r, hr, hlater⟩ | hfires
  · refine .inl ⟨r, hr, fun q hq hqid => ?_, hlater.id.symm, ?_⟩
    · exact hnew q hq (hqid.trans hlater.id.symm)
    · exact (congrArg Slot.automationId hlater.slot).symm
  · exact .inr hfires

/-- An Automation that fired in a scan is not due in it any more. -/
theorem Ahead.not_fires {occurredAt : Timestamp} (h : Ahead occurredAt a)
    (hscan : op.scan = some occurredAt) {b b' : Automation} (hfires : FiresNow op s s' o b b')
    (ha : a ∈ s.automations) (hid : a.id = o.automationId) : False := by
  obtain rfl := automation_eq ha hfires.before (hid.trans hfires.automation)
  obtain ⟨t, hscan', hpast⟩ := hfires.due.past
  obtain rfl := Option.some.inj (hscan.symm.trans hscan')
  have hlt := h.later _ hfires.due.due
  exact absurd hpast (not_le.mpr hlt)

theorem Advances.refl (occurredAt : Timestamp) (s : State) : Advances occurredAt s s :=
  ⟨fun o ho hnew => absurd rfl (hnew o ho), fun o ho _ _ hnew => absurd rfl (hnew o ho)⟩

theorem Advances.effect {occurredAt : Timestamp} (h : Advances occurredAt s s')
    (hscan : op.scan = some occurredAt) (hfits : Fits cal s') (hfits' : Fits cal s'')
    (htriggers : Triggers op s' s'') : Advances occurredAt s s'' where
  ahead o ho hnew := by
    rcases htriggers.new_cases ho hnew with ⟨r, hr, hnew', -, hautomation⟩ | ⟨a, a', hfires⟩
    · obtain ⟨a, ha, hid, hahead⟩ := h.ahead r hr hnew'
      obtain ⟨a', ha', hlater⟩ := htriggers.automations.kept a ha
      exact ⟨a', ha', hlater.later.id.trans (hid.trans hautomation),
        hahead.later_of hlater (hfits.wellFormed a ha)⟩
    · exact ⟨a', hfires.after, hfires.id.trans hfires.automation.symm,
        hfires.ahead hscan hfits (hfires.later htriggers).later.automationType⟩
  once o ho o' ho' hnew hnew' hautomation := by
    rcases htriggers.new_cases ho hnew with ⟨r, hr, hnewr, hrid, hra⟩ | ⟨a, a₁, hfires⟩ <;>
      rcases htriggers.new_cases ho' hnew' with ⟨r', hr', hnewr', hrid', hra'⟩ | ⟨b, b₁, hfires'⟩
    · have hsame := h.once r hr r' hr' hnewr hnewr' (hra.trans (hautomation.trans hra'.symm))
      exact occurrence_eq ho ho' (hrid.symm.trans ((congrArg _ hsame).trans hrid'))
    · obtain ⟨a, ha, hid, hahead⟩ := h.ahead r hr hnewr
      exact (hahead.not_fires hscan hfires' ha (hid.trans (hra.trans hautomation))).elim
    · obtain ⟨b, hb, hid, hahead⟩ := h.ahead r' hr' hnewr'
      exact (hahead.not_fires hscan hfires hb (hid.trans (hra'.trans hautomation.symm))).elim
    · -- both are fired now, for one trigger and one definition of the Automation
      obtain rfl := automation_eq hfires.before hfires'.before
        (hfires.automation.symm.trans (hautomation.trans hfires'.automation))
      have hscheduled := Option.some.inj (hfires.due.due.symm.trans hfires'.due.due)
      obtain ⟨c, hc, hcid, -, hcrev, -⟩ := hfits'.owned o ho
      obtain ⟨d, hd, hdid, -, hdrev, -⟩ := hfits'.owned o' ho'
      obtain rfl := automation_eq hc hd (hcid.trans (hautomation.trans hdid.symm))
      refine eq_of_conflict ho ho' (.inr ?_)
      exact Slot.mk.injEq .. |>.mpr ⟨hautomation, hcrev.symm.trans hdrev, hscheduled⟩

/-! ## The grid of the first trigger -/

/-- An Automation that was never triggered has no Occurrence. -/
def NewUnfired (s : State) : Prop :=
  ∀ a ∈ s.automations, a.lastTriggeredAt = none → ∀ o ∈ s.occurrences, o.automationId ≠ a.id

/-- The time lies a number of whole intervals of `n` seconds after `t₀`. -/
def OnGrid (t₀ : Timestamp) (n : ℤ) (t : Timestamp) : Prop := ∃ k : ℕ, t = t₀ + k * (n * 1000000)

/-- The Automation recurs every `n` seconds, and it and its Occurrences are on the grid of `t₀`. -/
structure Recurs (id : UUID) (t₀ : Timestamp) (n : ℤ) (s : State) : Prop where
  row : ∃ a ∈ s.automations, a.id = id ∧ a.automationType = .recurring ∧
    a.recurrenceIntervalSeconds = some n ∧ ∃ t, a.nextTriggerAt = some t ∧ OnGrid t₀ n t
  occurrences : ∀ o ∈ s.occurrences, o.automationId = id → OnGrid t₀ n o.scheduledFor

/-- A scan meets the recurring Automations that are due a number of whole intervals after their
triggers. -/
def OnTime (op : Op) (s : State) : Prop :=
  ∀ occurredAt ∈ op.scan, ∀ a ∈ s.automations, a.automationType = .recurring →
    ∀ t, DueAt op a t → ∀ n ∈ a.recurrenceIntervalSeconds, n * 1000000 ∣ occurredAt - t

/-- The scan meets one Automation on time. -/
def OnTimeFor (op : Op) (id : UUID) (n : ℤ) (s : State) : Prop :=
  ∀ occurredAt ∈ op.scan, ∀ a ∈ s.automations, a.id = id → ∀ t, DueAt op a t →
    n * 1000000 ∣ occurredAt - t

theorem newUnfired_effect (h : Triggers op s s') (hfits : Fits cal s)
    (hlaw : NewUnfired s) : NewUnfired s' := by
  intro a' ha' hlast o' ho' hid
  -- the Automation of the Occurrence was there, and is the one that was never triggered
  have hrow : ∃ a ∈ s.automations, a.id = o'.automationId ∧
      ((∃ o ∈ s.occurrences, o.automationId = a.id) ∨ ∃ b, FiresNow op s s' o' a b) := by
    rcases h.occurrences.origin o' ho' with ⟨o, ho, hlater⟩ | ⟨a, b, hfires⟩
    · obtain ⟨a, ha, haid, -⟩ := hfits.owned o ho
      exact ⟨a, ha, haid.trans (congrArg Slot.automationId hlater.slot).symm, .inl ⟨o, ho, haid.symm⟩⟩
    · exact ⟨a, hfires.before, hfires.automation.symm, .inr ⟨b, hfires⟩⟩
  obtain ⟨a, ha, haid, hfound⟩ := hrow
  have hlater := h.row ha ha' (haid.trans hid)
  cases hlater.move with
  | kept hnext hkept =>
    rcases hfound with ⟨o, ho, hoid⟩ | ⟨b, hfires⟩
    · exact hlaw a ha (hkept.symm.trans hlast) o ho hoid
    · obtain rfl := automation_eq hfires.after ha' (hfires.id.trans (haid.trans hid))
      obtain ⟨occurredAt, hscan, hpast⟩ := hfires.due.past
      have hmoved := hfires.next occurredAt hscan
      rw [hnext, hfires.due.due] at hmoved
      have hlt := (hfits.wellFormed a ha).nextTrigger_lt hfires.due.active hmoved.symm
      exact absurd hpast (not_le.mpr hlt)
  | triggered _ _ _ hmoved =>
    rw [hlast] at hmoved
    cases hmoved

theorem Recurs.effect {t₀ : Timestamp} {n : ℤ} (h : Recurs id t₀ n s) (hfits : Fits cal s)
    (htriggers : Triggers op s s') (hontime : OnTimeFor op id n s) : Recurs id t₀ n s' where
  row := by
    obtain ⟨a, ha, hid, htype, hinterval, t, hnext, k, hgrid⟩ := h.row
    obtain ⟨a', ha', hlater⟩ := htriggers.automations.kept a ha
    refine ⟨a', ha', hlater.later.id.trans hid, hlater.later.automationType.trans htype,
      hlater.later.interval.trans hinterval, ?_⟩
    cases hlater.move with
    | kept hkept => exact ⟨t, hkept.trans hnext, k, hgrid⟩
    | @triggered occurredAt t' hscan hdue hmoved =>
      obtain rfl := Option.some.inj (hnext.symm.trans hdue.due)
      obtain ⟨m, hm⟩ := hontime occurredAt hscan a ha hid t hdue
      obtain ⟨_, hscan', hpast⟩ := hdue.past
      obtain rfl := Option.some.inj (hscan.symm.trans hscan')
      obtain ⟨n', hn', hle⟩ := (hfits.wellFormed a ha).recurring htype
      obtain rfl := Option.some.inj (hinterval.symm.trans hn')
      -- the scan is `m` intervals after the trigger
      have hpos : 0 ≤ m := by
        by_contra hneg
        have hprod : n * 1000000 * m < 0 := mul_neg_of_pos_of_neg (by omega) (not_le.mp hneg)
        have hnonneg : 0 ≤ occurredAt - t := sub_nonneg.mpr hpast
        rw [hm] at hnonneg
        exact absurd hnonneg (not_le.mpr hprod)
      refine ⟨occurredAt + n * 1000000, ?_, k + m.toNat + 1, ?_⟩
      · rw [hmoved, Automation.nextTrigger, if_neg (recurring_not_oneShot htype), if_pos htype,
          hinterval]
        rfl
      · have hoccurred : occurredAt = t + n * 1000000 * m := by rw [← hm]; ring
        push_cast
        rw [hoccurred, hgrid, Int.toNat_of_nonneg hpos]
        ring
  occurrences o' ho' hid := by
    rcases htriggers.occurrences.origin o' ho' with ⟨o, ho, hlater⟩ | ⟨a, a', hfires⟩
    · rw [congrArg Slot.scheduledFor hlater.slot]
      exact h.occurrences o ho ((congrArg Slot.automationId hlater.slot).symm.trans hid)
    · obtain ⟨b, hb, hbid, -, -, t, hnext, hgrid⟩ := h.row
      obtain rfl := automation_eq hfires.before hb
        (hfires.automation.symm.trans (hid.trans hbid.symm))
      rwa [← Option.some.inj (hnext.symm.trans hfires.due.due)]

/-- The next effects of a scan meet the Automation on time too: it is not due any more, or still as it
was. -/
theorem OnTimeFor.effect {t₀ : Timestamp} {n : ℤ} (hontime : OnTimeFor op id n s)
    (hrecurs : Recurs id t₀ n s) (hfits : Fits cal s) (htriggers : Triggers op s s')
    (hloops : op.loops = true) : OnTimeFor op id n s' := by
  intro occurredAt hscan a' ha' hid t hdue
  obtain ⟨a, ha, haid, -⟩ := hrecurs.row
  have hlater := htriggers.row ha ha' (haid.trans hid.symm)
  have hactive := hlater.active hloops hdue.active
  cases hlater.move with
  | kept hkept =>
    exact hontime occurredAt hscan a ha haid t ⟨hactive, hkept.symm.trans hdue.due, hdue.past⟩
  | triggered hscan' _ hmoved =>
    obtain rfl := Option.some.inj (hscan.symm.trans hscan')
    obtain ⟨_, hscan'', hpast⟩ := hdue.past
    obtain rfl := Option.some.inj (hscan.symm.trans hscan'')
    have hlt := (hfits.wellFormed a ha).nextTrigger_lt hactive (hmoved.symm.trans hdue.due)
    exact absurd hpast (not_le.mpr hlt)

/-! ## Every history -/

/-- One effect of a step, between two states that fit. -/
structure Advance (cal : Calendar) (op : Op) (s s' : State) : Prop where
  before : Fits cal s
  after : Fits cal s'
  triggers : Triggers op s s'
  later : Later s s'

theorem effects_advance (h : Relation.ReflTransGen (Effect cal workers op view) s s')
    (hfits : Fits cal s) (hview : Later (view 0) s) :
    Relation.ReflTransGen (Advance cal op) s s' := by
  induction h with
  | refl => exact .refl
  | tail hfirst hlast ih =>
    obtain ⟨hfits', hlater⟩ := effects_fits hfirst hfits hview
    exact ih.tail ⟨hfits', hlast.fits hfits' (hview.trans hlater), hlast.triggers hfits',
      hlast.later hfits'⟩

theorem advances_newUnfired (h : Relation.ReflTransGen (Advance cal op) s s')
    (hlaw : NewUnfired s) : NewUnfired s' := by
  induction h with
  | refl => exact hlaw
  | tail _ hlast ih => exact newUnfired_effect hlast.triggers hlast.before ih

theorem advances_increases (h : Relation.ReflTransGen (Advance cal op) s s') :
    Increases s s' ∧ Later s s' := by
  induction h with
  | refl => exact ⟨.refl s, .refl s⟩
  | tail _ hlast ih =>
    obtain ⟨hincreases, hlater⟩ := ih
    exact ⟨hincreases.trans (hlast.triggers.increases hlast.before) hlater.occurrences
      hlast.later.occurrences, hlater.trans hlast.later⟩

theorem advances_scan {occurredAt : Timestamp} (h : Relation.ReflTransGen (Advance cal op) s s')
    (hscan : op.scan = some occurredAt) : Advances occurredAt s s' := by
  induction h with
  | refl => exact .refl occurredAt s
  | tail _ hlast ih => exact ih.effect hscan hlast.before hlast.after hlast.triggers

theorem advances_recurs {t₀ : Timestamp} {n : ℤ} (h : Relation.ReflTransGen (Advance cal op) s s')
    (hloops : op.loops = true) (hrecurs : Recurs id t₀ n s) (hontime : OnTimeFor op id n s) :
    Recurs id t₀ n s' ∧ OnTimeFor op id n s' := by
  induction h with
  | refl => exact ⟨hrecurs, hontime⟩
  | tail _ hlast ih =>
    obtain ⟨hrecurs', hontime'⟩ := ih
    exact ⟨hrecurs'.effect hlast.before hlast.triggers hontime',
      hontime'.effect hrecurs' hlast.before hlast.triggers hloops⟩

theorem Recurs.commit {view : ℕ → World} {w : World} {t₀ : Timestamp} {n : ℤ}
    (hrecurs : Recurs id t₀ n w.toState) (hcal : Function.Injective cal.isoformat)
    (hsound : Sound cal w) (hviews : ∀ n, Later (view n).toState w.toState)
    (hontime : OnTime op w.toState) :
    Recurs id t₀ n (World.commit cal op view w).1.toState := by
  have hsteps := commit_steps hcal op hsound hviews
  have hontime' : OnTimeFor op id n w.toState := by
    intro occurredAt hscan a ha hid t hdue
    obtain ⟨b, hb, hbid, htype, hinterval, -⟩ := hrecurs.row
    obtain rfl := automation_eq ha hb (hid.trans hbid.symm)
    exact hontime occurredAt hscan a ha htype t hdue n hinterval
  cases hloops : op.loops with
  | true =>
    exact (advances_recurs (effects_advance hsteps.effects hsound.fits (hviews 0)) hloops hrecurs
      hontime').1
  | false =>
    have hsingle := hsteps.single hloops
    generalize (World.commit cal op view w).1.toState = s' at hsingle
    cases hsingle with
    | refl => exact hrecurs
    | single heffect =>
      exact hrecurs.effect hsound.fits (heffect.triggers hsound.fits) hontime'

/-- Along every history, Occurrences of an Automation follow each other in the order of their slots. -/
theorem recurring_stable (hcal : Function.Injective cal.isoformat) :
    Program.Stable (system cal) (fun _ _ _ => True)
      (fun w => Sound cal w ∧ NewUnfired w.toState)
      fun v w => Later v.toState w.toState ∧ Increases v.toState w.toState where
  init w hw := by
    refine ⟨(stable hcal).init w hw, ?_⟩
    obtain rfl : w = {} := hw
    exact fun a ha => absurd ha not_mem_empty
  refl w := ⟨.refl _, .refl _⟩
  trans u v w h h' := ⟨h.1.trans h'.1, h.2.trans h'.2 h.1.occurrences h'.1.occurrences⟩
  step op view w hinv hviews _ := by
    obtain ⟨hsound, hlaw⟩ := hinv
    have hlater := fun n => (hviews n).2.1
    have hadvance := effects_advance (commit_steps hcal op hsound hlater).effects hsound.fits (hlater 0)
    obtain ⟨hincreases, hstep⟩ := advances_increases hadvance
    refine ⟨⟨?_, advances_newUnfired hadvance hlaw⟩, hstep, hincreases⟩
    exact ((stable hcal).step op view w hsound
      (fun n => ⟨(hviews n).1.1, (hviews n).2.1⟩) trivial).1

/-- An Automation that recurs and was never triggered: from its first trigger on. -/
theorem recurs_of_new {w : World} (hlaw : NewUnfired w.toState) {t₀ : Timestamp} {n : ℤ}
    (ha : a ∈ w.automations) (htype : a.automationType = .recurring)
    (hlast : a.lastTriggeredAt = none) (ht₀ : a.nextTriggerAt = some t₀)
    (hn : a.recurrenceIntervalSeconds = some n) : Recurs a.id t₀ n w.toState := by
  refine ⟨⟨a, ha, rfl, htype, hn, t₀, ht₀, 0, by simp⟩, fun o ho hid => ?_⟩
  exact absurd hid (hlaw a ha hlast o ho)

/-- Where every scan meets the recurring Automations that are due a number of whole intervals after their
triggers, all Occurrences of an Automation that recurs every `n` seconds lie on the grid of its first
trigger. Whatever the scans do, later Occurrences of an Automation are scheduled later, a scan adds one
Occurrence of an Automation at most, and moves its trigger to a time after the scan. -/
theorem recurring_on_grid (hcal : Function.Injective cal.isoformat)
    (hr : (system cal).ReachableIf (fun op _ w => OnTime op w.toState) h) :
    (∀ i j, ∀ a ∈ (h.stateAt i).automations, a.automationType = .recurring →
      a.lastTriggeredAt = none → ∀ t₀ ∈ a.nextTriggerAt, ∀ n ∈ a.recurrenceIntervalSeconds,
        ∀ o ∈ (h.stateAt j).occurrences, o.automationId = a.id → OnGrid t₀ n o.scheduledFor) ∧
    (h.states.Pairwise fun later earlier => Increases earlier.toState later.toState) ∧
    ∀ op view, (∀ n, view n ∈ h.states) → ∀ occurredAt ∈ op.scan,
      Advances occurredAt h.cur.toState (World.commit cal op view h.cur).1.toState := by
  have hstable := (recurring_stable hcal).restrict
    (p := fun op _ w => OnTime op w.toState) fun _ _ _ _ => trivial
  refine ⟨?_, (hstable.pairwise hr).imp And.right, ?_⟩
  · intro i j a ha htype hlast t₀ ht₀ n hn o ho hid
    have hnew := recurs_of_new (hstable.inv_mem hr (h.stateAt_mem i)).2 ha htype hlast ht₀ hn
    rcases le_total i j with hij | hji
    · have hrecurs := hstable.rel_while (fun _ => True)
        (R := fun v w => Recurs a.id t₀ n v.toState → Recurs a.id t₀ n w.toState) (fun _ => id)
        (fun _ _ _ h h' hv => h' (h hv)) ?_ hr hij fun _ _ _ => trivial
      · exact (hrecurs hnew).occurrences o ho hid
      · intro op view w hinv hviews hontime _ hrecurs
        exact hrecurs.commit hcal hinv.1 (fun n => (hviews n).2.1) hontime
    · -- an Occurrence that was there before would still be there
      have hlater := (hstable.rel_stateAt hr hji).1
      obtain ⟨o', ho', hmove⟩ := hlater.occurrences.kept o ho
      rw [← congrArg Slot.scheduledFor hmove.slot]
      exact hnew.occurrences o' ho' ((congrArg Slot.automationId hmove.slot).trans hid)
  · intro op view hviews occurredAt hscan
    have hsound := (hstable.inv_cur hr).1
    have hlater := fun n => (hstable.rel_mem hr (hviews n)).1
    exact advances_scan (effects_advance (commit_steps hcal op hsound hlater).effects hsound.fits
      (hlater 0)) hscan

/-! ## A reminder every minute -/

/-- User 1 asks to be reminded every minute from time 0 on. -/
def askEveryMinute : PersonalState.CreateAutomation :=
  { askReminder with automationType := .recurring, recurrenceIntervalSeconds := some 60 }

/-- A scan at the time. -/
def scanAt (occurredAt : Timestamp) (n : ℕ) : Op :=
  .processDue occurredAt 10 (fun _ => false) (fun _ _ => none) fun _ => stampsFrom n occurredAt

/-- Automation 10 is scanned at its first trigger, and again after five minutes. -/
def scannedOnTime : List Op :=
  [.create askEveryMinute (.ok ()) ⟨10, 0⟩, scanAt 0 20, scanAt 300000000 40]

/-- Automation 10 is scanned one second after its first trigger, and again when it is due. -/
def scannedLate : List Op :=
  [.create askEveryMinute (.ok ()) ⟨10, 0⟩, scanAt 1000000 20, scanAt 61000000 40]

theorem onTime_of_rows {op : Op} {s : State} (hscan : ∀ occurredAt ∈ op.scan,
    ∀ a ∈ s.automations.rows, ∀ t ∈ a.nextTriggerAt, ∀ n ∈ a.recurrenceIntervalSeconds,
      n * 1000000 ∣ occurredAt - t) : OnTime op s :=
  fun occurredAt hoccurred a ha _ t hdue n hn => hscan occurredAt hoccurred a ha t hdue.due n hn

theorem scannedOnTime_onTime : (system PersonalState.tallies).SerialMeets
    (fun op _ w => OnTime op w.toState) ⟨{}, [], []⟩ scannedOnTime := by
  refine ⟨fun _ hscan => absurd hscan (Option.not_mem_none _), ?_, ?_, trivial⟩
  · refine onTime_of_rows ?_
    decide +kernel
  · refine onTime_of_rows ?_
    decide +kernel

/-- A reminder that is scanned on time. -/
theorem recurring_on_grid_reminder :
    ∃ o ∈ (((system PersonalState.tallies).serial {} scannedOnTime).stateAt
      ⟨3, by decide⟩).occurrences, o.automationId = 10 ∧ OnGrid 0 60 o.scheduledFor := by
  obtain ⟨o, ho, hid⟩ : ∃ o ∈ (((system PersonalState.tallies).serial {} scannedOnTime).stateAt
      ⟨3, by decide⟩).occurrences.rows, o.automationId = 10 := by
    decide +kernel
  exact ⟨o, ho, hid, (recurring_on_grid PersonalState.tallies_injective
    ((system PersonalState.tallies).serial_reachableIf rfl scannedOnTime scannedOnTime_onTime)).1
    ⟨1, by decide⟩ ⟨3, by decide⟩ _ (List.mem_singleton_self _) rfl rfl 0 rfl 60 rfl o ho hid⟩

/-- 61 seconds are no number of whole minutes. -/
theorem not_onGrid_late : ¬OnGrid 0 60 61000000 := by
  rintro ⟨k, hk⟩
  have hk' : (61000000 : ℤ) = 0 + k * (60 * 1000000) := hk
  omega

/-- A reminder that is scanned a second late fires off the grid from then on. -/
theorem late_scan_drifts :
    ∃ h : History World Op Reply, (system PersonalState.tallies).Reachable h ∧
      ∃ i j, ∃ a ∈ (h.stateAt i).automations, a.automationType = .recurring ∧
        a.lastTriggeredAt = none ∧ a.nextTriggerAt = some 0 ∧
          a.recurrenceIntervalSeconds = some 60 ∧
            ∃ o ∈ (h.stateAt j).occurrences, o.automationId = a.id ∧ ¬OnGrid 0 60 o.scheduledFor := by
  have hdrifted : ∃ o ∈ (((system PersonalState.tallies).serial {} scannedLate).stateAt
      ⟨3, by decide⟩).occurrences.rows, o.automationId = 10 ∧ o.scheduledFor = 61000000 := by
    decide +kernel
  obtain ⟨o, ho, hid, hscheduled⟩ := hdrifted
  refine ⟨_, (system PersonalState.tallies).serial_reachable rfl scannedLate, ⟨1, by decide⟩,
    ⟨3, by decide⟩, _, List.mem_singleton_self _, rfl, rfl, rfl, rfl, o, ho, hid, ?_⟩
  rw [hscheduled]
  exact not_onGrid_late

end Automations
