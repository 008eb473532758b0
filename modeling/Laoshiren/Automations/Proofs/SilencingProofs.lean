import Laoshiren.Automations.Proofs.StoppingProofs

/-!
# Automations of a deleted account

A deletion cancels the ACTIVE Automations among the 500 that it lists, each with an update on the version
that it read; whether the row was updated is not looked at. Where it reaches every Automation that is not
over, none of them is ACTIVE again, until one is created for the user (`silenced_since`).
-/

namespace Automations

open Runtime Raise Table
open PersonalState (Calendar CreateAutomation)

variable {cal : Calendar} {workers : UUID → Worker} {op : Op} {view : ℕ → State} {s s' : State}
  {a a' : Automation} {userId : UUID} {h : History World Op Reply}

/-- The Automation is over. -/
def Over (a : Automation) : Prop := a.status = .cancelled ∨ a.status = .completed

/-- The Automations of the user are over. -/
def Silenced (userId : UUID) (s : State) : Prop := ∀ a ∈ s.automations, a.userId = userId → Over a

/-- The deletion reaches the Automations of the user that are not over: they are ACTIVE, and listed with
the version that they have. -/
def Reaches (userId : UUID) (view : ℕ → State) (s : State) : Prop :=
  ∀ a ∈ s.automations, a.userId = userId → ¬Over a → a.status = .active ∧
    ∃ read ∈ AutomationRepository.listForUser userId 500 (view 0).automations,
      read.id = a.id ∧ read.version = a.version

/-- What a deletion is to reach. -/
def Op.Silences (view : ℕ → State) (s : State) : Op → Prop
  | .deleteAccount userId _ => Reaches userId view s
  | _ => True

/-- An Automation was created for the user, and not found under its key. -/
def AddsFor (userId : UUID) : Op × Reply → Prop
  | (.create c _ _, .outcome outcome) =>
    c.userId = userId ∧ outcome.data.get "replayed" = some (.bool false)
  | _ => False

/-! ## The deletion -/

/-- What one update of a deletion makes of the rows. -/
def cancelRead (now : Timestamp) (t : Table Automation) (read : Automation) : Table Automation :=
  if read.status = .active then
    (AutomationRepository.update (read.cancel now) read.version t).1
  else t

theorem status_cancel {now : Timestamp} (hactive : a.status = .active) :
    (a.cancel now).status = .cancelled := by
  rw [Automation.cancel, if_neg (by simp [hactive])]

/-- A row is left as it is, where it is not the one that was read, or it is cancelled. -/
theorem cancelRead_cases {now : Timestamp} {t : Table Automation} {read r' : Automation}
    (hr' : r' ∈ cancelRead now t read) :
    r' ∈ t ∧ (read.status = .active → r'.id = read.id → r'.version ≠ read.version) ∨
      r'.status = .cancelled := by
  unfold cancelRead at hr'
  by_cases hactive : read.status = .active
  · rw [if_pos hactive] at hr'
    rcases mem_update_cases (f := AutomationRepository.updateValues (read.cancel now))
      (fun _ _ _ h => h) hr' with ⟨r, -, -, rfl⟩ | ⟨hr, hp⟩
    · exact .inr (status_cancel hactive)
    · refine .inl ⟨hr, fun _ hid hversion => ?_⟩
      rw [automation_updateWhere.mpr ⟨hid.trans (id_cancel read now).symm, hversion⟩] at hp
      cases hp
  · rw [if_neg hactive] at hr'
    exact .inl ⟨hr', fun hactive' => absurd hactive' hactive⟩

/-- An Automation that is ACTIVE with the version that was read, if it is not over, is over after the
deletion. -/
theorem over_cancelAll {now : Timestamp} {listed : List Automation} {t : Table Automation}
    {read r' : Automation} (hread : read ∈ listed) (hactive : read.status = .active)
    (hrow : ∀ r ∈ t, r.id = read.id → Over r ∨ r.version = read.version)
    (hr' : r' ∈ listed.foldl (cancelRead now) t) (hid : r'.id = read.id) : Over r' := by
  -- once it is over it stays so
  have hstays : ∀ (listed : List Automation) (t : Table Automation),
      (∀ r ∈ t, r.id = read.id → Over r) → r' ∈ listed.foldl (cancelRead now) t → Over r' := by
    intro listed
    induction listed with
    | nil => exact fun t hall hr' => hall r' hr' hid
    | cons b listed ih =>
      intro t hall hr'
      refine ih _ (fun r hr hid' => ?_) hr'
      rcases cancelRead_cases hr with ⟨hr, -⟩ | hcancelled
      · exact hall r hr hid'
      · exact .inl hcancelled
  induction listed generalizing t with
  | nil => exact absurd hread List.not_mem_nil
  | cons b listed ih =>
    rcases List.mem_cons.mp hread with rfl | hread
    · refine hstays listed _ (fun r hr hid' => ?_) hr'
      rcases cancelRead_cases hr with ⟨hr, hmissed⟩ | hcancelled
      · exact (hrow r hr hid').resolve_right (hmissed hactive hid')
      · exact .inl hcancelled
    · refine ih hread (fun r hr hid' => ?_) hr'
      rcases cancelRead_cases hr with ⟨hr, -⟩ | hcancelled
      · exact hrow r hr hid'
      · exact .inl (.inl hcancelled)

/-- A row of the deletion comes from one of the same user that was over before, if it was. -/
theorem origin_cancelAll {now : Timestamp} {listed : List Automation} {t : Table Automation}
    {r' : Automation} (hr' : r' ∈ listed.foldl (cancelRead now) t) :
    r' ∈ t ∨ r'.status = .cancelled := by
  induction listed generalizing t with
  | nil => exact .inl hr'
  | cons b listed ih =>
    rcases ih hr' with hr' | hcancelled
    · exact (cancelRead_cases hr').imp And.left id
    · exact .inr hcancelled

/-- A deletion that reaches all Automations of the user silences them. -/
theorem silenced_deleteAccount {now : Timestamp} (hviews : ∀ n, Later (view n) s)
    (hreaches : Reaches userId view s) : Silenced userId (applyAccountDeletion userId now view s) := by
  intro r' hr' huser
  have hfold : r' ∈ (AutomationRepository.listForUser userId 500 (view 0).automations).foldl
      (cancelRead now) s.automations := hr'
  rcases origin_cancelAll hfold with hr₀ | hcancelled
  · by_cases hover : Over r'
    · exact hover
    · obtain ⟨hactive, read, hread, hid, hversion⟩ := hreaches r' hr₀ huser hover
      have hmem : read ∈ (view 0).automations := by
        have hlisted := List.mem_of_mem_take hread
        rw [List.mem_insertionSort, mem_select] at hlisted
        exact hlisted.1
      obtain ⟨r, hr, hlater⟩ := (hviews 0).automations.kept read hmem
      obtain rfl := automation_eq hr hr₀ (hlater.id.trans hid)
      have hstatus := (hlater.unchanged hversion.symm).1
      refine over_cancelAll hread (hstatus.symm.trans hactive) (fun r₁ hr₁ hid₁ => .inr ?_) hfold
        hid.symm
      rw [automation_eq hr₁ hr₀ (hid₁.trans hid), hversion]
  · exact .inl hcancelled

/-! ## One transaction -/

/-- An Automation that was added, by its user. -/
def NewOf (op : Op) (a : Automation) : Prop :=
  ∃ c lookups stamp, op = .create c lookups stamp ∧ a.userId = c.userId

theorem Effect.created (hfits : Fits cal s) (h : Effect cal workers op view s s') :
    Grows AutomationLater (NewOf op) s.automations s'.automations := by
  have hcompleted : s.automations.Moves CompletionMove s'.automations →
      Grows AutomationLater (NewOf op) s.automations s'.automations := fun hmoves =>
    .of_moves (hmoves.imp fun _ _ => CompletionMove.later)
  have hkept : s'.automations = s.automations →
      Grows AutomationLater (NewOf op) s.automations s'.automations := by
    intro hsame
    rw [hsame]
    exact .refl .refl _
  cases h with
  | clients hautomations =>
    exact hautomations.imp (fun _ _ => StatusMove.later) fun _ h => h.op
  | materialized hop hactive hdue hpast ho hjob hautomations =>
    exact hautomations.grows .refl
      (.of_triggered (hfits.wellFormed _ hautomations.1) hactive hdue hpast)
  | passedOver hop hactive hdue hpast ho hautomations =>
    have hlater := AutomationLater.of_triggered (hfits.wellFormed _ hautomations.1) hactive hdue hpast
    exact hautomations.grows .refl (hlater.trans (completionMove_completeOneShot _ _).later)
  | run _ _ _ _ _ _ _ _ _ _ hrest => exact hkept hrest.1
  | ended _ _ _ _ _ _ _ hautomations => exact hcompleted hautomations
  | fired _ _ _ _ _ _ _ _ _ _ _ _ _ _ hautomations => exact hcompleted hautomations
  | exhausted _ _ hautomations => exact hcompleted hautomations
  | queue _ _ hrest => exact hkept hrest.1
  | deliveries _ hrest => exact hkept hrest.2.1

theorem effects_created (h : Relation.ReflTransGen (Effect cal workers op view) s s')
    (hfits : Fits cal s) (hview : Later (view 0) s) :
    Grows AutomationLater (NewOf op) s.automations s'.automations := by
  induction h with
  | refl => exact .refl .refl _
  | tail hfirst hlast ih =>
    have hfits' := (effects_fits hfirst hfits hview).1
    refine ih.trans (hlast.created hfits') (fun _ _ _ => .trans) ?_
    rintro r r' ⟨c, lookups, stamp, hop, huser⟩ hlater
    exact ⟨c, lookups, stamp, hop, hlater.userId.trans huser⟩

/-! ## Every history -/

theorem outcome_new {a : PersonalState.Automation} :
    (CreateAutomation.outcome a false).data.get "replayed" = some (.bool false) := by
  simp [CreateAutomation.outcome, Dict.get_ofFields, List.lookup_cons]

/-- A transaction that adds no Automation of the user leaves the silenced ones alone. -/
theorem Silenced.commit {view : ℕ → World} {w : World} (hsilenced : Silenced userId w.toState)
    (hcal : Function.Injective cal.isoformat) (hsound : Sound cal w)
    (hviews : ∀ n, Later (view n).toState w.toState)
    (hadds : ¬AddsFor userId (op, (World.commit cal op view w).2)) :
    Silenced userId (World.commit cal op view w).1.toState := by
  have hsteps := commit_steps hcal op hsound hviews
  have hgrows := effects_created hsteps.effects hsound.fits (hviews 0)
  intro a' ha' huser
  rcases hgrows.origin a' ha' with ⟨a, ha, hlater⟩ | ⟨c, lookups, stamp, rfl, huser'⟩
  · have hover := hsilenced a ha (hlater.userId.symm.trans huser)
    unfold Over at hover ⊢
    rw [hlater.ended hover]
    exact hover
  · -- a creation that answers with an Automation that was there changes nothing
    simp only [World.commit] at ha' hadds
    cases hresult : applyCreateAutomation c lookups stamp (fun n => (view n).toState) w.toState with
    | error error =>
      rw [hresult] at ha'
      exact hsilenced a' ha' huser
    | ok result =>
      obtain ⟨s', outcome⟩ := result
      rw [hresult] at ha' hadds
      simp only [applyCreateAutomation, bind_eq_ok, ensure_eq_ok] at hresult
      obtain ⟨_, _, hresult⟩ := hresult
      split at hresult
      · obtain ⟨rfl, -⟩ := Prod.mk.inj (pure_eq_ok.mp hresult)
        exact hsilenced a' ha' huser
      · simp only [bind_eq_ok, orRaise_eq_ok, pure_eq_ok, Prod.mk.injEq] at hresult
        obtain ⟨_, _, trigger, _, automations, _, _, rfl⟩ := hresult
        exact absurd ⟨huser'.symm.trans huser, outcome_new⟩ hadds

/-- From a deletion that reaches the Automations of its user on, as long as none is created for the user,
every one of them is over: none is ACTIVE, and no scan selects one. -/
theorem silenced_since (hcal : Function.Injective cal.isoformat)
    (hr : (system cal).ReachableIf
      (fun op view w => op.Silences (fun n => (view n).toState) w.toState) h)
    {j : ℕ} {now : Timestamp} {reply : Reply}
    (hj : h.replies[j]? = some (.deleteAccount userId now, reply))
    (hadds : ∀ entry ∈ h.replies.take j, ¬AddsFor userId entry) :
    ∀ w ∈ h.states.take (j + 1),
      (∀ a ∈ w.automations, a.userId = userId → a.status = .cancelled ∨ a.status = .completed) ∧
        ∀ scannedAt limit locked,
          ∀ a ∈ AutomationRepository.listDue scannedAt limit locked w.automations,
            a.userId ≠ userId := by
  have hstable := (stable hcal).restrict
    (p := fun op view w => op.Silences (fun n => (view n).toState) w.toState)
    fun _ _ _ _ => trivial
  obtain ⟨h₀, view, hr₀, hview, hreaches, -, hstates⟩ := hr.answered hj
  have hviews : ∀ n, Later (view n).toState h₀.cur.toState := fun n =>
    hstable.rel_mem hr₀ (hview n)
  have hdone : Silenced userId
      ((system cal).commit (.deleteAccount userId now) view h₀.cur).1.toState :=
    silenced_deleteAccount hviews hreaches
  have hat : h.states[j]? = some ((system cal).commit (.deleteAccount userId now) view h₀.cur).1 := by
    have hfirst := congrArg List.head? hstates
    rw [List.head?_drop] at hfirst
    exact hfirst
  have hsilenced := hstable.lasts (fun w => Silenced userId w.toState)
    (fun entry => ¬AddsFor userId entry)
    (fun op view w hsound hviews _ hnone hlaw =>
      hlaw.commit hcal hsound (fun n => (hviews n).2) hnone) hr hat hadds hdone
  refine fun w hw => ⟨hsilenced w hw, fun scannedAt limit locked a ha huser => ?_⟩
  have hmem := List.mem_of_mem_take ha
  rw [List.mem_insertionSort, mem_select] at hmem
  simp only [AutomationRepository.dueWhere, Bool.and_eq_true, decide_eq_true_eq] at hmem
  rcases hsilenced w hw a hmem.1 huser with hover | hover
  · rw [hmem.2.1.1] at hover
    cases hover
  · rw [hmem.2.1.1] at hover
    cases hover

/-- User 1 creates Automation 10, and is deleted. -/
def silencedReminder : List Op := [.create askReminder (.ok ()) ⟨10, 0⟩, .deleteAccount 1 1]

theorem silencedReminder_silences : (system PersonalState.tallies).SerialMeets
    (fun op view w => op.Silences (fun n => (view n).toState) w.toState)
    ⟨{}, [], []⟩ silencedReminder := by
  refine ⟨trivial, fun a ha _ _ => ?_, trivial⟩
  have hall : (((system PersonalState.tallies).serial {}
      (silencedReminder.take 1)).cur.automations.rows.all fun a => decide (a.status = .active ∧
        ∃ read ∈ AutomationRepository.listForUser 1 500 ((system PersonalState.tallies).serial {}
          (silencedReminder.take 1)).cur.automations, read.id = a.id ∧ read.version = a.version)) =
            true := by
    decide +kernel
  exact of_decide_eq_true (List.all_eq_true.mp hall a ha)

/-- The reminder is over once its user is deleted. -/
theorem silenced_since_reminder :
    (∀ a ∈ ((system PersonalState.tallies).serial {} silencedReminder).cur.automations,
      a.userId = 1 → a.status = .cancelled ∨ a.status = .completed) ∧
    ∀ scannedAt limit locked,
      ∀ a ∈ AutomationRepository.listDue scannedAt limit locked
        ((system PersonalState.tallies).serial {} silencedReminder).cur.automations, a.userId ≠ 1 :=
  silenced_since PersonalState.tallies_injective
    ((system PersonalState.tallies).serial_reachableIf rfl _ silencedReminder_silences)
    (j := 0) rfl (fun _ h => absurd h List.not_mem_nil) _ (.head _)

/-- User 1 pauses Automation 10, is deleted, and resumes it. -/
def resumedDeleted : List Op :=
  [.create askReminder (.ok ()) ⟨10, 0⟩, pauseReminder 1, .deleteAccount 1 4,
    .changeStatus ⟨1, 10, "RESUME", 2, "resume"⟩ ⟨61, 5⟩]

/-- An Automation is made ACTIVE again after the deletion of its user. -/
theorem deleted_reminder_active :
    ∃ h : History World Op Reply, (system PersonalState.tallies).Reachable h ∧
      ∃ (j : ℕ) (userId : UUID) (now : Timestamp) (reply : Reply),
        h.replies[j]? = some (.deleteAccount userId now, reply) ∧
          ∃ w ∈ h.states.take (j + 1), ∃ a ∈ w.automations, a.userId = userId ∧ a.status = .active := by
  refine ⟨_, (system PersonalState.tallies).serial_reachable rfl resumedDeleted, 1, 1, 4, .done,
    rfl, _, List.mem_cons_self, ?_⟩
  have hactive : ∃ a ∈ ((system PersonalState.tallies).serial {} resumedDeleted).cur.automations.rows,
      a.userId = 1 ∧ a.status = .active := by
    decide +kernel
  exact hactive

end Automations
