import Laoshiren.Automations.Invariants

/-!
# Proofs: what clients make of Automations

A client changes the status of an Automation as it is when the change is written: what it read before is
that version of the row, or the change is refused.
-/

namespace Automations

open Runtime Raise Table
open PersonalState (Calendar CreateAutomation)

variable {cal : Calendar} {workers : UUID → Worker} {op : Op} {view : ℕ → State} {s s' : State}
  {a a' r : Automation}

/-! ## Updates of an Automation -/

theorem automation_updateWhere {a : Automation} {version : ℕ} :
    AutomationRepository.updateWhere a version r = true ↔ r.id = a.id ∧ r.version = version := by
  rw [AutomationRepository.updateWhere, decide_eq_true_eq]

/-- An update that is not refused replaces the row in the version that is expected. -/
theorem updateAutomation_replaces {version : ℕ} {message : String}
    (h : s.updateAutomation a' version message = .ok s') :
    ∃ r automations, r.id = a'.id ∧ r.version = version ∧
      Replaces r (AutomationRepository.updateValues a' r) s.automations automations ∧
      s' = { s with automations } := by
  simp only [State.updateAutomation, AutomationRepository.update, bind_eq_ok, ensure_eq_ok,
    pure_eq_ok, beq_iff_eq] at h
  obtain ⟨_, hcount, rfl⟩ := h
  obtain ⟨r, hr, hp⟩ := exists_of_rowcount_eq_one hcount
  obtain ⟨hid, hversion⟩ := automation_updateWhere.mp hp
  refine ⟨r, _, hid, hversion, .update hr hp fun x hx hx' => ?_, rfl⟩
  exact automation_eq hx hr ((automation_updateWhere.mp hx').1.trans hid.symm)

/-- The row is the one that was read before, in the same version. -/
theorem updateAutomation_known {message : String} (hknown : KnownAutomation s a)
    (hid : a'.id = a.id) (h : s.updateAutomation a' a.version message = .ok s') :
    ∃ r automations, AutomationLater a r ∧ r.version = a.version ∧
      Replaces r (AutomationRepository.updateValues a' r) s.automations automations ∧
      s' = { s with automations } := by
  obtain ⟨r, automations, hr, hversion, hreplaces, hs⟩ := updateAutomation_replaces h
  obtain ⟨r', hr', hlater⟩ := hknown
  obtain rfl := automation_eq hreplaces.1 hr' (hr.trans (hid.trans hlater.id.symm))
  exact ⟨r, automations, hlater, hversion, hreplaces, hs⟩

/-- What an update writes that leaves the trigger alone. -/
theorem updateValues_status {status : PersonalState.AutomationStatus} {now : Timestamp} {n : ℕ}
    (hlater : AutomationLater a r) (hversion : r.version = a.version) :
    AutomationRepository.updateValues
        { a with status := status, updatedAt := now, version := a.version + n } r =
      { r with status := status, updatedAt := now, version := r.version + n } := by
  obtain ⟨-, hnext, hlast⟩ := hlater.unchanged hversion
  simp only [AutomationRepository.updateValues, hversion, ← hnext, ← hlast,
    ← hlater.definitionRevision]

/-- What an update writes that changes nothing. -/
theorem updateValues_self (hlater : AutomationLater a r) (hversion : r.version = a.version) :
    AutomationRepository.updateValues a r = { r with updatedAt := a.updatedAt } := by
  obtain ⟨hstatus, hnext, hlast⟩ := hlater.unchanged hversion
  simp only [AutomationRepository.updateValues, ← hversion, ← hstatus, ← hnext, ← hlast,
    ← hlater.definitionRevision]

theorem completeOneShot_of_waits (h : a.Waits) (now : Timestamp) : a.completeOneShot now =
    { a with status := .completed, updatedAt := now, version := a.version + 1 } := if_pos h

theorem completeOneShot_of_not (h : ¬a.Waits) (now : Timestamp) : a.completeOneShot now = a :=
  if_neg h

/-! ## Single changes -/

theorem StatusMove.refl (a : Automation) : StatusMove op a a := .touched a.thingId a.updatedAt

/-- A change of the status with a new version, of an Automation that is not over. -/
theorem AutomationLater.of_status {status : PersonalState.AutomationStatus} {now : Timestamp}
    (h : ¬(a.status = .cancelled ∨ a.status = .completed)) :
    AutomationLater a { a with status := status, updatedAt := now, version := a.version + 1 } where
  id := rfl
  userId := rfl
  automationType := rfl
  interval := rfl
  definitionRevision := rfl
  version := Nat.le_succ _
  unchanged hversion := absurd hversion (Nat.succ_ne_self _)
  ended hover := absurd hover h
  trigger t ht := ⟨t, ht, le_rfl⟩

theorem StatusMove.later (h : StatusMove op a a') : AutomationLater a a' := by
  cases h with
  | touched thingId updatedAt =>
    exact ⟨rfl, rfl, rfl, rfl, rfl, le_rfl, fun _ => ⟨rfl, rfl, rfl⟩, fun _ => rfl,
      fun t ht => ⟨t, ht, le_rfl⟩⟩
  | cancelled _ hopen => exact .of_status (mt Or.symm hopen)
  | paused _ hactive => exact .of_status (by simp [hactive])
  | resumed _ _ _ _ hpaused => exact .of_status (by simp [hpaused])

/-- The cancellation of an Automation, on the row in the version that was read. -/
theorem statusMove_cancel {now : Timestamp} (hlater : AutomationLater a r)
    (hversion : r.version = a.version) :
    StatusMove op r (AutomationRepository.updateValues (a.cancel now) r) := by
  have hstatus := (hlater.unchanged hversion).1
  by_cases hover : a.status = .completed ∨ a.status = .cancelled
  · rw [Automation.cancel, if_pos hover, updateValues_self hlater hversion]
    exact .touched r.thingId a.updatedAt
  · rw [Automation.cancel, if_neg hover, updateValues_status hlater hversion]
    exact .cancelled now (by rwa [hstatus])

theorem id_cancel (a : Automation) (now : Timestamp) : (a.cancel now).id = a.id := by
  unfold Automation.cancel
  split <;> rfl

theorem changed_id {c : ChangeStatus} {now : Timestamp} (h : c.changed a now = .ok a') :
    a'.id = a.id := by
  unfold ChangeStatus.changed at h
  split at h
  · simp only [Automation.pause, bind_eq_ok, ensure_eq_ok, pure_eq_ok] at h
    obtain ⟨_, _, rfl⟩ := h
    rfl
  · split at h
    · simp only [Automation.resume, bind_eq_ok, ensure_eq_ok, pure_eq_ok] at h
      obtain ⟨_, _, _, _, rfl⟩ := h
      rfl
    · split at h
      · obtain rfl := pure_eq_ok.mp h
        exact id_cancel a now
      · exact absurd h (by simp)

/-- A change of the status, on the row in the version that was read. -/
theorem statusMove_changed {c : ChangeStatus} {stamp : Stamp} (hlater : AutomationLater a r)
    (hversion : r.version = a.version) (hid : a.id = c.automationId)
    (h : c.changed a stamp.now = .ok a') :
    StatusMove (.changeStatus c stamp) r (AutomationRepository.updateValues a' r) := by
  have hstatus := (hlater.unchanged hversion).1
  unfold ChangeStatus.changed at h
  split at h
  · simp only [Automation.pause, bind_eq_ok, ensure_eq_ok, pure_eq_ok] at h
    obtain ⟨_, hactive, rfl⟩ := h
    rw [updateValues_status hlater hversion]
    exact .paused _ (hstatus.trans hactive)
  · split at h
    next hresume =>
      simp only [Automation.resume, bind_eq_ok, ensure_eq_ok, pure_eq_ok] at h
      obtain ⟨_, htype, _, hpaused, rfl⟩ := h
      rw [updateValues_status hlater hversion]
      rw [← hlater.automationType] at htype
      exact .resumed rfl (hlater.id.trans hid) hresume htype (hstatus.trans hpaused)
    next =>
      split at h
      · obtain rfl := pure_eq_ok.mp h
        exact statusMove_cancel hlater hversion
      · exact absurd h (by simp)

/-! ## Requests of clients -/

theorem isNew_automation {c : CreateAutomation} {trigger : Timestamp} {stamp : Stamp}
    (h : c.postInit = .ok trigger) : ({ c.automation trigger stamp with } : Automation).IsNew where
  wellFormed :=
    { watching := fun htype hactive => by
        have hpaused : (c.automation trigger stamp).status = .paused := if_pos htype
        rw [hpaused] at hactive
        cases hactive
      recurring := fun htype => by
        have hrecurring : c.automationType = .recurring := htype
        simp only [CreateAutomation.postInit, bind_eq_ok, orRaise_eq_ok, if_pos hrecurring,
          ensure_eq_ok] at h
        obtain ⟨_, _, _, hinterval, _⟩ := h
        obtain ⟨n, hn, hle⟩ := (Option.any_eq_true _ _).mp hinterval
        exact ⟨n, hn, of_decide_eq_true hle⟩ }
  nextTriggerAt := by simp [CreateAutomation.automation]
  lastTriggeredAt := rfl

/-- Automations that move by themselves. -/
theorem Effect.of_automations (h : Grows (StatusMove op) (CreatedBy op) s.automations
      s'.automations)
    (hrest : s'.store = s.store ∧ s'.occurrences = s.occurrences ∧ s'.deliveries = s.deliveries ∧
      s'.intents = s.intents) : Effect cal workers op view s s' := by
  obtain ⟨hstore, hoccurrences, hdeliveries, hintents⟩ := hrest
  refine .clients h ?_ ⟨hstore, hoccurrences, hdeliveries⟩
  rw [hintents]
  exact .refl .refl _

theorem effect_create {c : CreateAutomation} {lookups : Raises Unit} {stamp : Stamp}
    {outcome : WriteOutcome}
    (h : applyCreateAutomation c lookups stamp view s = .ok (s', outcome)) :
    Effect cal workers (.create c lookups stamp) view s s' := by
  simp only [applyCreateAutomation, bind_eq_ok, ensure_eq_ok] at h
  obtain ⟨_, _, h⟩ := h
  split at h
  · obtain ⟨rfl, -⟩ := Prod.mk.inj (pure_eq_ok.mp h)
    exact .of_automations (.refl .refl _) ⟨rfl, rfl, rfl, rfl⟩
  · simp only [bind_eq_ok, orRaise_eq_ok, pure_eq_ok, Prod.mk.injEq] at h
    obtain ⟨_, _, trigger, htrigger, automations, hinsert, rfl, rfl⟩ := h
    have hcreated : CreatedBy (.create c lookups stamp) { c.automation trigger stamp with } :=
      ⟨isNew_automation htrigger, c, lookups, stamp, rfl, rfl⟩
    exact .of_automations (.insert? .refl hcreated hinsert) ⟨rfl, rfl, rfl, rfl⟩

theorem effect_changeStatus {c : ChangeStatus} {stamp : Stamp} {outcome : WriteOutcome}
    (hviews : ∀ n, Later (view n) s)
    (h : applyChangeAutomationStatus c stamp view s = .ok (s', outcome)) :
    Effect cal workers (.changeStatus c stamp) view s s' := by
  unfold applyChangeAutomationStatus at h
  split at h
  · simp only [bind_eq_ok, orRaise_eq_ok, pure_eq_ok, Prod.mk.injEq] at h
    obtain ⟨_, _, rfl, rfl⟩ := h
    exact .of_automations (.refl .refl _) ⟨rfl, rfl, rfl, rfl⟩
  · simp only [bind_eq_ok, orRaise_eq_ok, ensure_eq_ok, pure_eq_ok, Prod.mk.injEq] at h
    obtain ⟨a, hget, _, -, a', hchanged, s₁, hupdate, operations, -, rfl, rfl⟩ := h
    obtain ⟨ha, hp⟩ := get_eq_some hget
    have hid : a.id = c.automationId := (of_decide_eq_true hp).1
    obtain ⟨r, automations, hlater, hversion, hreplaces, rfl⟩ :=
      updateAutomation_known ((hviews 1).automations.kept a ha) (changed_id hchanged) hupdate
    have hmove := statusMove_changed hlater hversion hid hchanged
    exact .of_automations (hreplaces.grows .refl hmove) ⟨rfl, rfl, rfl, rfl⟩

/-- The Automations of an account that is deleted are cancelled one after the other. -/
theorem effects_cancelAll (now : Timestamp) (read : List Automation)
    (hread : ∀ a ∈ read, KnownAutomation s a) :
    Relation.ReflTransGen (Effect cal workers op view) s
      { s with automations := read.foldl (fun t a => if a.status = .active then
        (AutomationRepository.update (a.cancel now) a.version t).1 else t) s.automations } := by
  induction read generalizing s with
  | nil => exact .refl
  | cons a read ih =>
    have hstep : Grows (StatusMove op) (CreatedBy op) s.automations (if a.status = .active then
        (AutomationRepository.update (a.cancel now) a.version s.automations).1
        else s.automations) := by
      split
      · refine .update .refl fun r hr hp => ?_
        obtain ⟨r', hr', hlater⟩ := hread a (.head _)
        obtain ⟨hid, hversion⟩ := automation_updateWhere.mp hp
        obtain rfl := automation_eq hr hr' (hid.trans ((id_cancel a now).trans hlater.id.symm))
        exact statusMove_cancel hlater hversion
      · exact .refl .refl _
    rw [List.foldl_cons]
    revert hstep
    generalize (if a.status = .active then
      (AutomationRepository.update (a.cancel now) a.version s.automations).1
      else s.automations) = automations
    intro hstep
    have hknown : ∀ b ∈ read, KnownAutomation { s with automations } b := by
      intro b hb
      obtain ⟨r, hr, hlater⟩ := hread b (.tail _ hb)
      obtain ⟨r', hr', hmove⟩ := hstep.kept r hr
      exact ⟨r', hr', hlater.trans hmove.later⟩
    have hfirst : Effect cal workers op view s { s with automations } :=
      .of_automations hstep ⟨rfl, rfl, rfl, rfl⟩
    exact .head hfirst (ih hknown)

theorem effects_deleteAccount {userId : UUID} {now : Timestamp} (hviews : ∀ n, Later (view n) s) :
    Relation.ReflTransGen (Effect cal workers op view) s
      (applyAccountDeletion userId now view s) := by
  refine .tail (effects_cancelAll now
    (AutomationRepository.listForUser userId 500 (view 0).automations) fun a ha => ?_) ?_
  · have hmem := List.mem_of_mem_take ha
    rw [List.mem_insertionSort, mem_select] at hmem
    exact (hviews 0).automations.kept a hmem.1
  · exact .of_automations (.refl .refl _) ⟨rfl, rfl, rfl, rfl⟩

theorem effect_rebindThing {fromThingId toThingId : UUID} :
    Effect cal workers op view s (rebindThing fromThingId toThingId view s) := by
  refine .clients ?_ ?_ ⟨rfl, rfl, rfl⟩
  · exact .update .refl fun a _ _ => .touched _ a.updatedAt
  · exact .update .refl fun _ _ _ => ⟨rfl, rfl, rfl, rfl, rfl⟩

end Automations
