import Laoshiren.Automations.Proofs.RecurrenceProofs
import Laoshiren.Automations.Proofs.SilencingProofs
import Mathlib.Algebra.Order.Floor.Div

/-!
# Proofs: a scan leaves nothing due that it selected

A scan cancels an Automation whose Task is over, and else adds the Occurrence of its slot and moves its
trigger beyond the scan. It would leave the Automation as it is if there were an Occurrence of the slot,
but the trigger of an Automation is later than all its Occurrences. So each scan takes from the
Automations that are due as many as its limit allows (`due_scan_progress`).
-/

namespace Automations

open Runtime Raise Table
open PersonalState (Calendar TaskStatus)

variable {cal : Calendar} {op : Op} {s s' s'' : State} {a a' b : Automation}
  {o o' : AutomationOccurrence} {occurredAt t : Timestamp} {limit : ℕ} {locked : UUID → Bool}
  {taskStatus : UUID → UUID → Option TaskStatus} {fresh : UUID → ℕ → Stamp} {due : List Automation}
  {h : History World Op Reply}

/-! ## What a scan does -/

/-- The Task of the Automation is gone or over. -/
def TaskOver (taskStatus : UUID → UUID → Option TaskStatus) (a : Automation) : Prop :=
  (a.taskId.any fun taskId => taskOver (taskStatus a.userId taskId)) = true

/-- The Occurrence is for the slot at which the Automation is due. -/
structure SlotOf (a : Automation) (o : AutomationOccurrence) : Prop where
  automation : o.automationId = a.id
  revision : o.definitionRevision = a.definitionRevision
  due : a.nextTriggerAt = some o.scheduledFor

/-- A scan dealt with an Automation: it is not due any more, and either it was cancelled because its Task
is over, or it has one new Occurrence, which is for the slot at which it was due. -/
structure Handled (occurredAt : Timestamp) (taskStatus : UUID → UUID → Option TaskStatus) (s s' : State)
    (a : Automation) : Prop where
  settled : ∃ a' ∈ s'.automations, a'.id = a.id ∧
    (a'.status ≠ .active ∨ ∀ t ∈ a'.nextTriggerAt, occurredAt < t)
  outcome : (TaskOver taskStatus a ∧ (∃ a' ∈ s'.automations, a'.id = a.id ∧ a'.status = .cancelled) ∧
      ∀ o ∈ s'.occurrences, o.automationId = a.id → ¬NewSince s o) ∨
    ∃ o, SlotOf a o ∧
      ∀ o', o' ∈ s'.occurrences ∧ o'.automationId = a.id ∧ NewSince s o' ↔ o' = o

/-- The Automations that are due at a time. -/
def dueIds (t : Timestamp) (s : State) : Finset UUID :=
  ((s.automations.select (AutomationRepository.dueWhere t)).map fun a => a.id).toFinset

theorem mem_dueIds {id : UUID} :
    id ∈ dueIds t s ↔ ∃ a ∈ s.automations, AutomationRepository.dueWhere t a = true ∧ a.id = id := by
  simp only [dueIds, List.mem_toFinset, List.mem_map, mem_select, and_assoc]

theorem dueWhere_iff : AutomationRepository.dueWhere t a = true ↔
    a.status = .active ∧ ∃ t' ∈ a.nextTriggerAt, t' ≤ t := decide_eq_true_iff

theorem mem_listDue (ha : a ∈ AutomationRepository.listDue occurredAt limit locked s.automations) :
    a ∈ s.automations ∧ AutomationRepository.dueWhere occurredAt a = true ∧ locked a.id = false := by
  have hmem := List.mem_of_mem_take ha
  rw [List.mem_insertionSort, mem_select, Bool.and_eq_true, Bool.not_eq_true'] at hmem
  exact hmem

/-! ## One Automation -/

/-- What `materialize_due_automation` makes of an Automation that is due. -/
inductive Handles (occurredAt : Timestamp) (taskStatus : UUID → UUID → Option TaskStatus)
    (a : Automation) (s s' : State) : Prop
  | cancelled {a' : Automation} (hover : TaskOver taskStatus a)
      (hautomations : Replaces a a' s.automations s'.automations) (hid : a'.id = a.id)
      (hstatus : a'.status = .cancelled) (hoccurrences : s'.occurrences = s.occurrences)
  | fired {a' : Automation} {o : AutomationOccurrence}
      (hautomations : Replaces a a' s.automations s'.automations) (hid : a'.id = a.id)
      (hahead : ∀ t ∈ a'.nextTriggerAt, occurredAt < t) (hslot : SlotOf a o)
      (ho : o ∈ s'.occurrences) (hnew : NewSince s o)
      (hoccurrences : Grows Eq (· = o) s.occurrences s'.occurrences)

/-- The trigger of an Automation that is due is later than its Occurrences. -/
theorem slot_free (hfits : Fits cal s) (ha : a ∈ s.automations) (hslot : SlotOf a o)
    (ho : o' ∈ s.occurrences) : o'.toSlot ≠ o.toSlot := by
  intro hsame
  obtain ⟨r, hr, hid, -, -, hpast⟩ := hfits.owned o' ho
  have hautomation := (congrArg Slot.automationId hsame).trans hslot.automation
  obtain rfl := automation_eq hr ha (hid.trans hautomation)
  have hlt := hpast _ hslot.due
  rw [congrArg Slot.scheduledFor hsame] at hlt
  exact absurd hlt (lt_irrefl _)

theorem slotOf_dueOccurrence {stamp : Stamp} (hdue : a.nextTriggerAt = some t) :
    SlotOf a (dueOccurrence a t stamp) := ⟨rfl, rfl, hdue⟩

/-- The row that an update of the version in the table replaces is the one that was read. -/
theorem updateAutomation_row {message : String} (ha : a ∈ s.automations) (hid : a'.id = a.id)
    (h : s.updateAutomation a' a.version message = .ok s') : ∃ automations,
      Replaces a (AutomationRepository.updateValues a' a) s.automations automations ∧
        s' = { s with automations } := by
  obtain ⟨r, automations, hlater, -, hreplaces, hs⟩ := updateAutomation_known ⟨a, ha, .refl a⟩ hid h
  obtain rfl := automation_eq hreplaces.1 ha hlater.id
  exact ⟨automations, hreplaces, hs⟩

theorem handles_materialize {stamps : ℕ → Stamp} {occurrence : Option AutomationOccurrence}
    (hfits : Fits cal s) (ha : a ∈ s.automations)
    (hdue : AutomationRepository.dueWhere occurredAt a = true)
    (h : materializeDueAutomation cal occurredAt taskStatus stamps a s = .ok (s', occurrence)) :
    Handles occurredAt taskStatus a s s' := by
  have hwell := hfits.wellFormed a ha
  obtain ⟨hactive, t, ht, hpast⟩ := dueWhere_iff.mp hdue
  have hahead : ∀ t' ∈ a.nextTrigger occurredAt, occurredAt < t' :=
    fun t' ht' => hwell.nextTrigger_lt hactive ht'
  unfold materializeDueAutomation at h
  split at h
  next hover =>
    simp only [bind_eq_ok, pure_eq_ok, Prod.mk.injEq] at h
    obtain ⟨s₁, hupdate, rfl, -⟩ := h
    obtain ⟨automations, hreplaces, rfl⟩ := updateAutomation_row ha (id_cancel a _) hupdate
    exact .cancelled hover hreplaces rfl (status_cancel hactive) rfl
  next =>
    simp only [bind_eq_ok, orRaise_eq_ok] at h
    obtain ⟨t', ht', h⟩ := h
    obtain rfl : t = t' := Option.some.inj (ht.symm.trans ht')
    split at h
    · simp only [bind_eq_ok, orRaise_eq_ok, Prod.exists] at h
      obtain ⟨occurrences, created, hadd, h⟩ := h
      split at h
      next hcreated =>
        subst hcreated
        simp only [bind_eq_ok, pure_eq_ok, Prod.mk.injEq] at h
        obtain ⟨s₁, hupdate, rfl, -⟩ := h
        obtain ⟨automations, hreplaces, rfl⟩ := updateAutomation_row (s := { s with occurrences }) ha
          (id_completeOneShot (a.markTriggered occurredAt) _) hupdate
        obtain ⟨hinsert, -⟩ := occurrence_added hadd
        refine .fired hreplaces rfl ?_ ⟨rfl, rfl, ht⟩ ((mem_insert? hinsert).mpr (.inr rfl)) ?_
          (.insert? (fun _ => rfl) rfl hinsert)
        · show ∀ t' ∈ ((a.markTriggered occurredAt).completeOneShot _).nextTriggerAt, occurredAt < t'
          rw [(completeOneShot_trigger _).1]
          exact hahead
        · exact fun r hr hid => not_conflict_of_insert? hinsert hr (.inl hid)
      next hnot =>
        -- the slot is free, so the Occurrence is added
        rcases insertUnless_eq_some.mp hadd with ⟨-, -, r, hr, hsame⟩ | ⟨rfl, -⟩
        · exact absurd hsame (slot_free hfits ha ⟨rfl, rfl, ht⟩ hr)
        · exact absurd rfl hnot
    · simp only [bind_eq_ok, orRaise_eq_ok, Prod.exists] at h
      obtain ⟨occurrences, created, hadd, h⟩ := h
      split at h
      next hcreated =>
        subst hcreated
        simp only [bind_eq_ok, pure_eq_ok, Prod.mk.injEq] at h
        obtain ⟨store, hjob, s₁, hupdate, rfl, -⟩ := h
        obtain ⟨automations, hreplaces, rfl⟩ := updateAutomation_row
          (s := { s with store, occurrences := _ }) ha
          (show (a.markTriggered occurredAt).id = a.id from rfl) hupdate
        obtain ⟨hinsert, -⟩ := occurrence_added hadd
        obtain ⟨hmem, hgrows⟩ := occurrence_linked hinsert
        refine .fired hreplaces rfl hahead ⟨rfl, rfl, ht⟩ hmem ?_ hgrows
        exact fun r hr hid => not_conflict_of_insert? hinsert hr (.inl hid)
      next hnot =>
        rcases insertUnless_eq_some.mp hadd with ⟨-, -, r, hr, hsame⟩ | ⟨rfl, -⟩
        · exact absurd hsame (slot_free hfits ha ⟨rfl, rfl, ht⟩ hr)
        · exact absurd rfl hnot

/-! ## All Automations that were selected -/

/-- What a scan makes of the Automations that it selected; the others are left as they are. -/
structure Scans (occurredAt : Timestamp) (taskStatus : UUID → UUID → Option TaskStatus)
    (due : List Automation) (s s' : State) : Prop where
  handled : ∀ a ∈ due, Handled occurredAt taskStatus s s' a
  others : ∀ a, (∀ b ∈ due, b.id ≠ a.id) → (a ∈ s'.automations ↔ a ∈ s.automations)
  occurrences : Grows Eq (fun o => ∃ a ∈ due, o.automationId = a.id) s.occurrences s'.occurrences

theorem Handles.occurrences (h : Handles occurredAt taskStatus a s s') :
    Grows Eq (fun o => o.automationId = a.id) s.occurrences s'.occurrences := by
  cases h with
  | cancelled _ _ _ _ hoccurrences => exact grows_of_same (fun _ => rfl) hoccurrences
  | fired _ _ _ hslot _ _ hoccurrences =>
    refine hoccurrences.imp (fun _ _ h => h) ?_
    rintro _ rfl
    exact hslot.automation

theorem Handles.row (h : Handles occurredAt taskStatus a s s') : ∃ a',
    Replaces a a' s.automations s'.automations ∧ a'.id = a.id ∧
      (a'.status ≠ .active ∨ ∀ t ∈ a'.nextTriggerAt, occurredAt < t) := by
  cases h with
  | cancelled _ hautomations hid hstatus =>
    refine ⟨_, hautomations, hid, .inl ?_⟩
    rw [hstatus]
    decide
  | fired hautomations hid hahead => exact ⟨_, hautomations, hid, .inr hahead⟩

/-- An Automation that is not the one that a scan deals with is left as it is. -/
theorem Handles.others (h : Handles occurredAt taskStatus a s s') (hne : a.id ≠ b.id) :
    b ∈ s'.automations ↔ b ∈ s.automations := by
  obtain ⟨a', hreplaces, hid, -⟩ := h.row
  constructor
  · intro hb
    rcases hreplaces.mem_cases hb with rfl | ⟨hold, -⟩
    · exact absurd hid.symm hne
    · exact hold
  · intro hb
    refine hreplaces.mem_of_ne hb ?_
    rintro rfl
    exact hne rfl

/-- The Automation that a scan deals with first is handled after it dealt with the others. -/
theorem Handles.handled (h : Handles occurredAt taskStatus a s s')
    (hrest : Scans occurredAt taskStatus due s' s'') (hne : ∀ b ∈ due, b.id ≠ a.id) :
    Handled occurredAt taskStatus s s'' a := by
  obtain ⟨a', hreplaces, hid, hsettled⟩ := h.row
  have hkept : ∀ r, r.id = a.id → r ∈ s'.automations → r ∈ s''.automations := by
    intro r hrid hr
    exact (hrest.others r fun b hb => hrid ▸ hne b hb).mpr hr
  have hlate : ∀ o ∈ s''.occurrences, o.automationId = a.id → o ∈ s'.occurrences := by
    intro o ho hautomation
    rcases hrest.occurrences.origin o ho with ⟨_, hold, rfl⟩ | ⟨b, hb, hother⟩
    · exact hold
    · exact absurd (hother.symm.trans hautomation) (hne b hb)
  refine ⟨⟨a', hkept a' hid hreplaces.mem_new, hid, hsettled⟩, ?_⟩
  cases h with
  | @cancelled r hover hautomations hrid hstatus hoccurrences =>
    refine .inl ⟨hover, ⟨r, hkept r hrid hautomations.mem_new, hrid, hstatus⟩, ?_⟩
    intro o ho hautomation hnew
    have hold := hlate o ho hautomation
    rw [hoccurrences] at hold
    exact hnew o hold rfl
  | @fired r o hautomations hrid hahead hslot ho hnew hoccurrences =>
    refine .inr ⟨o, hslot, fun o' => ⟨fun ⟨ho', hautomation, hnew'⟩ => ?_, ?_⟩⟩
    · rcases hoccurrences.origin o' (hlate o' ho' hautomation) with ⟨r, hold, heq⟩ | hsame
      · exact absurd (congrArg _ heq) (hnew' r hold)
      · exact hsame
    · intro hsame
      obtain ⟨_, ho', rfl⟩ := hrest.occurrences.kept o ho
      rw [hsame]
      exact ⟨ho', hslot.automation, hnew⟩

/-- An Automation that is dealt with later is handled. -/
theorem Handles.handled_later (h : Handles occurredAt taskStatus a s s') (hne : a.id ≠ b.id)
    (hrest : Scans occurredAt taskStatus due s' s'')
    (hb : Handled occurredAt taskStatus s' s'' b) : Handled occurredAt taskStatus s s'' b := by
  -- an Occurrence of the Automation is new since the scan began if it is new since the step
  have hnew : ∀ o ∈ s''.occurrences, o.automationId = b.id → (NewSince s o ↔ NewSince s' o) := by
    intro o ho hautomation
    constructor
    · intro hnew r hr hid
      rcases h.occurrences.origin r hr with ⟨r₀, hold, heq⟩ | hfirst
      · exact hnew r₀ hold (heq ▸ hid)
      · obtain ⟨_, hr', rfl⟩ := hrest.occurrences.kept r hr
        obtain rfl := occurrence_eq hr' ho hid
        exact hne (hfirst.symm.trans hautomation)
    · intro hnew r hr hid
      obtain ⟨r', hr', hsame⟩ := h.occurrences.kept r hr
      exact hnew r' hr' (hsame ▸ hid)
  refine ⟨hb.settled, ?_⟩
  rcases hb.outcome with ⟨hover, hcancelled, hnone⟩ | ⟨o, hslot, hone⟩
  · exact .inl ⟨hover, hcancelled, fun o ho hautomation hnew' =>
      hnone o ho hautomation ((hnew o ho hautomation).mp hnew')⟩
  · refine .inr ⟨o, hslot, fun o' => ⟨fun ⟨ho', hautomation, hnew'⟩ => ?_, fun hsame => ?_⟩⟩
    · exact (hone o').mp ⟨ho', hautomation, (hnew o' ho' hautomation).mp hnew'⟩
    · obtain ⟨ho', hautomation, hnew'⟩ := (hone o').mpr hsame
      exact ⟨ho', hautomation, (hnew o' ho' hautomation).mpr hnew'⟩

/-- The induction over the Automations that a scan selected. -/
theorem scans_materializeAll {count : ℕ} (hfits : Fits cal s) (hmem : ∀ a ∈ due, a ∈ s.automations)
    (hdue : ∀ a ∈ due, AutomationRepository.dueWhere occurredAt a = true)
    (hids : due.Pairwise fun a b => a.id ≠ b.id)
    (h : materializeAll cal occurredAt taskStatus fresh due s = .ok (s', count)) :
    Scans occurredAt taskStatus due s s' := by
  induction due generalizing s count with
  | nil =>
    obtain ⟨rfl, -⟩ := Prod.mk.inj (pure_eq_ok.mp h)
    exact ⟨fun _ h => absurd h List.not_mem_nil, fun _ _ => Iff.rfl, .refl (fun _ => rfl) _⟩
  | cons a due ih =>
    simp only [materializeAll, bind_eq_ok, Prod.exists] at h
    obtain ⟨s₁, occurrence, hfirst, s₂, count', hrest, h⟩ := h
    obtain ⟨rfl, -⟩ := Prod.mk.inj (pure_eq_ok.mp h)
    obtain ⟨hhead, htail⟩ := List.pairwise_cons.mp hids
    have ha := hmem a (.head _)
    have hhandles := handles_materialize hfits ha (hdue a (.head _)) hfirst
    have heffect : Effect cal (fun _ => .idle)
        (.processDue occurredAt 0 (fun _ => false) taskStatus fresh) (fun _ => s) s s₁ :=
      effect_materialize rfl ⟨a, ha, .refl a⟩ (hdue a (.head _)) hfirst
    have hscans := ih (heffect.fits hfits (.refl s))
      (fun b hb => (hhandles.others (hhead b hb)).mpr (hmem b (.tail _ hb)))
      (fun b hb => hdue b (.tail _ hb)) htail hrest
    refine ⟨fun b hb => ?_, fun b hb => ?_, ?_⟩
    · rcases List.mem_cons.mp hb with rfl | hb
      · exact hhandles.handled hscans fun c hc hid => hhead c hc hid.symm
      · exact hhandles.handled_later (hhead b hb) hscans (hscans.handled b hb)
    · rw [hscans.others b fun c hc => hb c (.tail _ hc), hhandles.others (hb a (.head _))]
    · have hfirst := hhandles.occurrences.imp (p := fun o => ∃ b ∈ a :: due, o.automationId = b.id)
        (fun _ _ h => h) fun o h => ⟨a, .head _, h⟩
      have hlater := hscans.occurrences.imp (p := fun o => ∃ b ∈ a :: due, o.automationId = b.id)
        (fun _ _ h => h) fun o ho => ho.imp fun b hb => ⟨.tail _ hb.1, hb.2⟩
      exact hfirst.trans hlater (fun _ _ _ => .trans) fun _ _ hnew heq => heq ▸ hnew

/-- The Automations that a scan selects differ in their ids. -/
theorem listDue_pairwise : (AutomationRepository.listDue occurredAt limit locked
    s.automations).Pairwise fun a b => a.id ≠ b.id := by
  have hrows : (s.automations.select fun r => AutomationRepository.dueWhere occurredAt r &&
      !locked r.id).Pairwise fun a b => a.id ≠ b.id :=
    (s.automations.consistent.imp fun hnot hid => hnot (.inl hid)).filter _
  refine List.Pairwise.sublist (List.take_sublist _ _) ?_
  exact (List.Perm.pairwise_iff (fun h => Ne.symm h) (List.perm_insertionSort _ _)).mpr hrows

/-- What `process_due` makes of the Automations that it selects. -/
theorem scans_processDue {count : ℕ} (hfits : Fits cal s)
    (h : processDue cal occurredAt limit locked taskStatus fresh s = .ok (s', count)) :
    Scans occurredAt taskStatus (AutomationRepository.listDue occurredAt limit locked s.automations)
      s s' :=
  scans_materializeAll hfits (fun _ ha => (mem_listDue ha).1) (fun _ ha => (mem_listDue ha).2.1)
    listDue_pairwise h

/-! ## How many are still due -/

/-- The ids of the Automations that a scan selects. -/
def selectedIds (occurredAt : Timestamp) (limit : ℕ) (locked : UUID → Bool) (s : State) :
    Finset UUID :=
  ((AutomationRepository.listDue occurredAt limit locked s.automations).map fun a => a.id).toFinset

theorem mem_selectedIds {id : UUID} : id ∈ selectedIds occurredAt limit locked s ↔
    ∃ a ∈ AutomationRepository.listDue occurredAt limit locked s.automations, a.id = id := by
  simp only [selectedIds, List.mem_toFinset, List.mem_map]

theorem card_selectedIds : (selectedIds occurredAt limit locked s).card =
    (AutomationRepository.listDue occurredAt limit locked s.automations).length := by
  have hnodup : ((AutomationRepository.listDue occurredAt limit locked s.automations).map
      fun a => a.id).Nodup := List.pairwise_map.mpr listDue_pairwise
  rw [selectedIds, List.toFinset_card_of_nodup hnodup, List.length_map]

theorem dueWhere_mono (hle : t ≤ occurredAt) (h : AutomationRepository.dueWhere t a = true) :
    AutomationRepository.dueWhere occurredAt a = true := by
  obtain ⟨hactive, t', ht', hpast⟩ := dueWhere_iff.mp h
  exact dueWhere_iff.mpr ⟨hactive, t', ht', hpast.trans hle⟩

/-- What is still due after a scan was due before, and was not selected. -/
theorem Scans.dueIds (h : Scans occurredAt taskStatus
    (AutomationRepository.listDue occurredAt limit locked s.automations) s s') (hle : t ≤ occurredAt) :
    dueIds t s' = dueIds t s \ selectedIds occurredAt limit locked s := by
  ext id
  rw [Finset.mem_sdiff, mem_dueIds, mem_dueIds, mem_selectedIds]
  constructor
  · rintro ⟨a', ha', hdue, rfl⟩
    have hunselected : ∀ b ∈ AutomationRepository.listDue occurredAt limit locked s.automations,
        b.id ≠ a'.id := by
      intro b hb hid
      obtain ⟨r, hr, hrid, hsettled⟩ := (h.handled b hb).settled
      obtain rfl := automation_eq hr ha' (hrid.trans hid)
      obtain ⟨hactive, t', ht', hpast⟩ := dueWhere_iff.mp hdue
      rcases hsettled with hnot | hahead
      · exact hnot hactive
      · exact absurd (hpast.trans hle) (not_le.mpr (hahead t' ht'))
    exact ⟨⟨a', (h.others a' hunselected).mp ha', hdue, rfl⟩, fun ⟨b, hb, hid⟩ => hunselected b hb hid⟩
  · rintro ⟨⟨a, ha, hdue, rfl⟩, hnot⟩
    exact ⟨a, (h.others a fun b hb hid => hnot ⟨b, hb, hid⟩).mpr ha, hdue, rfl⟩

/-- A list that is sorted by a key is in the order of the keys. -/
theorem pairwise_sortedBy {α κ : Type} [LinearOrder κ] (key : α → κ) (l : List α) :
    (l.insertionSort fun a b => key a ≤ key b).Pairwise fun a b => key a ≤ key b := by
  have : IsTrans α fun a b => key a ≤ key b := ⟨fun _ _ _ => le_trans⟩
  have : Std.Total fun a b : α => key a ≤ key b := ⟨fun _ _ => le_total _ _⟩
  exact List.pairwise_insertionSort _ l

/-- What a sorted list holds beyond its first elements is not before any of them. -/
theorem mem_take_of_lt {α κ : Type} [LinearOrder κ] {key : α → κ} {l : List α} {n : ℕ} {x y : α}
    (hsorted : l.Pairwise fun a b => key a ≤ key b) (hx : x ∈ l.take n) (hy : y ∈ l)
    (hlt : key y < key x) : y ∈ l.take n := by
  rw [← List.take_append_drop n l] at hsorted hy
  rcases List.mem_append.mp hy with hearly | hlate
  · exact hearly
  · have hle := (List.pairwise_append.mp hsorted).2.2 x hx y hlate
    exact absurd hlt (not_lt.mpr hle)

/-- A scan that reaches its limit takes that many of the Automations that are due, the oldest first; one
that does not takes all that are not locked. -/
theorem selected_cases (hle : t ≤ occurredAt) :
    (selectedIds occurredAt limit locked s ⊆ Automations.dueIds t s ∧
        (selectedIds occurredAt limit locked s).card = limit) ∨
      ∀ a ∈ s.automations, AutomationRepository.dueWhere t a = true → locked a.id = false →
        a.id ∈ selectedIds occurredAt limit locked s := by
  have hcandidate : ∀ a ∈ s.automations, AutomationRepository.dueWhere t a = true →
      locked a.id = false → a ∈ (s.automations.select fun r =>
        AutomationRepository.dueWhere occurredAt r && !locked r.id).insertionSort fun r r' =>
          toLex (r.nextTriggerAt.getD 0, r.id.toNat) ≤ toLex (r'.nextTriggerAt.getD 0, r'.id.toNat) := by
    intro a ha hdue hfree
    rw [List.mem_insertionSort, mem_select, dueWhere_mono hle hdue, hfree]
    exact ⟨ha, rfl⟩
  by_cases hold : ∀ b ∈ AutomationRepository.listDue occurredAt limit locked s.automations,
      AutomationRepository.dueWhere t b = true
  · by_cases hfull : (AutomationRepository.listDue occurredAt limit locked s.automations).length = limit
    · refine .inl ⟨fun id hid => ?_, card_selectedIds.trans hfull⟩
      obtain ⟨b, hb, rfl⟩ := mem_selectedIds.mp hid
      exact mem_dueIds.mpr ⟨b, (mem_listDue hb).1, hold b hb, rfl⟩
    · refine .inr fun a ha hdue hfree => mem_selectedIds.mpr ⟨a, ?_, rfl⟩
      unfold AutomationRepository.listDue at hfull ⊢
      rw [List.take_of_length_le]
      · exact hcandidate a ha hdue hfree
      · rw [List.length_take] at hfull
        omega
  · -- some Automation is not as old, so all that are as old come before it
    simp only [not_forall] at hold
    obtain ⟨b, hb, hyoung⟩ := hold
    refine .inr fun a ha hdue hfree => mem_selectedIds.mpr ⟨a, ?_, rfl⟩
    refine mem_take_of_lt
      (pairwise_sortedBy _ _) hb (hcandidate a ha hdue hfree) ?_
    obtain ⟨hactive, tb, htb, -⟩ := dueWhere_iff.mp (mem_listDue hb).2.1
    obtain ⟨-, ta, hta, hpast⟩ := dueWhere_iff.mp hdue
    have hlate : t < tb := by
      by_contra hnot
      exact hyoung (dueWhere_iff.mpr ⟨hactive, tb, htb, not_lt.mp hnot⟩)
    rw [Prod.Lex.toLex_lt_toLex, Option.mem_def.mp hta, Option.mem_def.mp htb]
    exact .inl (hpast.trans_lt hlate)

/-! ## Every history -/

/-- The scan is not before the time, and was committed. -/
def ScansSince (t : Timestamp) (limit : ℕ) : Op × Reply → Prop
  | (.processDue occurredAt n _ _ _, .created _) => t ≤ occurredAt ∧ n = limit
  | _ => False

/-- The rows that a scan finds locked. -/
def Op.skips : Op → UUID → Bool
  | .processDue _ _ locked _ _ => locked
  | _ => fun _ => false

theorem processDue_of_created {view : ℕ → World} {w : World} {entry : Op × Reply}
    (hscan : ScansSince t limit entry) (hreply : entry.2 = (World.commit cal entry.1 view w).2) :
    ∃ occurredAt taskStatus fresh count, t ≤ occurredAt ∧ ∃ locked, entry.1.skips = locked ∧
      processDue cal occurredAt limit locked taskStatus fresh w.toState =
        .ok ((World.commit cal entry.1 view w).1.toState, count) := by
  obtain ⟨op, reply⟩ := entry
  cases op with
  | processDue occurredAt n locked taskStatus fresh =>
    simp only [World.commit] at hreply ⊢
    cases hresult : processDue cal occurredAt n locked taskStatus fresh w.toState with
    | error error =>
      rw [hresult] at hreply
      obtain rfl : reply = .raised error := hreply
      exact hscan.elim
    | ok result =>
      rw [hresult] at hreply
      obtain rfl : reply = .created result.2 := hreply
      obtain ⟨hle, rfl⟩ := hscan
      exact ⟨occurredAt, taskStatus, fresh, result.2, hle, locked, rfl, hresult⟩
  | _ => exact hscan.elim

/-- A number of scans take as many of the Automations that were due as their limits allow, or every one of
these that is still due was locked at one of the scans. -/
theorem scans_drain (hcal : Function.Injective cal.isoformat) (hr : (system cal).Reachable h) {k : ℕ}
    {w : World} (hw : h.states[k]? = some w)
    (hscans : ∀ entry ∈ h.replies.take k, ScansSince t limit entry) :
    (∀ id ∈ dueIds t h.cur.toState, ∃ entry ∈ h.replies.take k, entry.1.skips id = true) ∨
      (dueIds t h.cur.toState).card + k * limit ≤ (dueIds t w.toState).card := by
  induction hr generalizing k w with
  | @init v hv =>
    obtain rfl : w = v := by simpa [History.states] using List.mem_of_getElem? hw
    cases k with
    | zero => exact .inr (by simp)
    | succ k => simp [History.states] at hw
  | @commit h hr op view hview hok ih =>
    cases k with
    | zero =>
      obtain rfl : ((system cal).commit op view h.cur).1 = w := Option.some.inj hw
      exact .inr (by rw [Nat.zero_mul, Nat.add_zero]; rfl)
    | succ k =>
      have hsound := (stable hcal).inv_cur hr
      obtain ⟨occurredAt, taskStatus, fresh, count, hle, locked, hskips, hscan⟩ :=
        processDue_of_created (w := h.cur) (hscans _ (.head _)) rfl
      have hrest : dueIds t ((system cal).commit op view h.cur).1.toState =
          dueIds t h.cur.toState \ selectedIds occurredAt limit locked h.cur.toState :=
        (scans_processDue hsound.fits hscan).dueIds hle
      show (∀ id ∈ dueIds t ((system cal).commit op view h.cur).1.toState, _) ∨
        (dueIds t ((system cal).commit op view h.cur).1.toState).card + _ ≤ _
      rw [hrest]
      rcases ih hw fun entry hentry => hscans entry (.tail _ hentry) with hlocked | hcard
      · refine .inl fun id hid => ?_
        obtain ⟨entry, hentry, hskipped⟩ := hlocked id (Finset.mem_sdiff.mp hid).1
        exact ⟨entry, .tail _ hentry, hskipped⟩
      rcases selected_cases (s := h.cur.toState) hle with
        ⟨hsubset, hfull⟩ | hall
      · refine .inr ?_
        have hle' := Finset.card_le_card hsubset
        rw [Finset.card_sdiff_of_subset hsubset, hfull, Nat.succ_mul]
        omega
      · -- only Automations that were locked at this scan are left
        refine .inl fun id hid => ?_
        obtain ⟨hdue, hunselected⟩ := Finset.mem_sdiff.mp hid
        obtain ⟨a, ha, hwhere, rfl⟩ := mem_dueIds.mp hdue
        refine ⟨_, .head _, ?_⟩
        show op.skips a.id = true
        rw [show op.skips = locked from hskips]
        by_contra hfree
        exact hunselected (hall a ha hwhere (by simpa using hfree))

/-- After a scan, no Automation that it selected is due at its time any more, and each was cancelled
because its Task is over or has one new Occurrence, which is for the slot at which it was due. Scans that
are as many as the Automations that are due fill leave none of them due, but those that were locked. -/
theorem due_scan_progress (hcal : Function.Injective cal.isoformat) (hr : (system cal).Reachable h) :
    (∀ occurredAt limit locked taskStatus fresh s' count,
      processDue cal occurredAt limit locked taskStatus fresh h.cur.toState = .ok (s', count) →
        ∀ a ∈ AutomationRepository.listDue occurredAt limit locked h.cur.automations,
          Handled occurredAt taskStatus h.cur.toState s' a) ∧
    ∀ (t : Timestamp) (limit k : ℕ) (w : World), 0 < limit → h.states[k]? = some w →
      (∀ entry ∈ h.replies.take k, ScansSince t limit entry) →
        (dueIds t w.toState).card ⌈/⌉ limit ≤ k →
          ∀ a ∈ h.cur.automations, AutomationRepository.dueWhere t a = true →
            ∃ entry ∈ h.replies.take k, entry.1.skips a.id = true := by
  refine ⟨fun occurredAt limit locked taskStatus fresh s' count hscan => ?_, ?_⟩
  · exact (scans_processDue ((stable hcal).inv_cur hr).fits hscan).handled
  · intro t limit k w hpos hw hscans hmany a ha hdue
    have hid : a.id ∈ dueIds t h.cur.toState := mem_dueIds.mpr ⟨a, ha, hdue, rfl⟩
    rcases scans_drain hcal hr hw hscans with hlocked | hcard
    · exact hlocked a.id hid
    · have hfew := (ceilDiv_le_iff_le_mul hpos).mp hmany
      have hsome := Finset.card_pos.mpr ⟨_, hid⟩
      rw [Nat.mul_comm] at hfew
      omega

/-- The first scan after the reminder was created handles it. -/
theorem due_scan_progress_reminder :
    ∃ a ∈ AutomationRepository.listDue 1 10 (fun _ => false)
        ((system PersonalState.tallies).serial {} (dueReminder.take 1)).cur.automations, a.id = 10 ∧
      Handled 1 (fun _ _ => none)
        ((system PersonalState.tallies).serial {} (dueReminder.take 1)).cur.toState
        ((system PersonalState.tallies).serial {} (dueReminder.take 2)).cur.toState a := by
  obtain ⟨a, ha, hid⟩ : ∃ a ∈ AutomationRepository.listDue 1 10 (fun _ => false)
      ((system PersonalState.tallies).serial {} (dueReminder.take 1)).cur.automations, a.id = 10 := by
    decide +kernel
  exact ⟨a, ha, hid, (due_scan_progress PersonalState.tallies_injective
    ((system PersonalState.tallies).serial_reachable rfl (dueReminder.take 1))).1 1 10
    (fun _ => false) (fun _ _ => none) (fun _ => stampsFrom 20 1) _ 1 rfl a ha⟩

end Automations
