import Laoshiren.Runtime.Proofs.EffectsProofs

/-!
# The tool ledger

What a transaction does to one ledger row (`ToolStep`), and from it what holds over whole histories:
a row has a result exactly when it is settled and never loses it, a tool that is not replay-safe is
granted once, and a claim that is no longer the present one completes nothing.
-/

namespace Runtime

/-- A row whose outcome is known. -/
def ToolExecution.Settled (e : ToolExecution) : Prop := e.status = .succeeded ∨ e.status = .failed

/-- What a transaction may do to a ledger row that is there. -/
inductive ToolStep : Op → ToolExecution → ToolExecution → Prop
  | same {op : Op} {e : ToolExecution} : ToolStep op e e
  | takeover {c : ClaimTool} {fresh : ℕ → Stamp} {e : ToolExecution}
      (hstatus : e.status = .inProgress) (hsafe : e.replaySafe = true) :
      ToolStep (.claimToolExecution c fresh) e
        (ToolExecutionRepository.takeoverIfExpiredValues (fresh 0).now c.owner (fresh 0).id
          ((fresh 0).now + c.lease) e)
  | markUnknown {c : ClaimTool} {fresh : ℕ → Stamp} {e : ToolExecution}
      (hstatus : e.status = .inProgress) :
      ToolStep (.claimToolExecution c fresh) e
        (ToolExecutionRepository.markUnknownIfExpiredValues (fresh 0).now e)
  | complete {op : Op} {c : ToolClaim} {result : Dict} {succeeded : Bool} {now : Timestamp}
      {e : ToolExecution} (hop : op = .completeToolExecution c result succeeded now ∨
        ∃ toolName outcome, op = .completePersonalStateMutationTool c toolName outcome now)
      (hstatus : e.status = .inProgress) (htoken : e.claimToken = c.claimToken) :
      ToolStep op e (ToolExecutionRepository.settledValues result succeeded now e)
  | reconcile {userId runId : UUID} {actionId : String} {result : Dict} {succeeded : Bool}
      {providerRequestId : Option String} {now : Timestamp} {e : ToolExecution}
      (hstatus : e.status = .unknownOutcome) :
      ToolStep
        (.reconcileUnknownToolExecution userId runId actionId result succeeded providerRequestId now)
        e (ToolExecutionRepository.reconcileUnknownValues result succeeded providerRequestId now e)

/-- What any number of transactions leave of a ledger row. -/
structure ToolLater (e e' : ToolExecution) : Prop where
  runId : e'.runId = e.runId
  actionId : e'.actionId = e.actionId
  replaySafe : e'.replaySafe = e.replaySafe
  /-- Nobody takes over a tool that is not replay-safe. -/
  lease : e.replaySafe = false → e'.leaseExpiresAt = e.leaseExpiresAt
  settled : e.Settled → e' = e
  unknown : e.status = .unknownOutcome → e'.status ≠ .inProgress

theorem ToolLater.refl (e : ToolExecution) : ToolLater e e :=
  ⟨rfl, rfl, rfl, fun _ => rfl, fun _ => rfl, fun h => by simp [h]⟩

theorem ToolLater.trans {e₁ e₂ e₃ : ToolExecution} (h : ToolLater e₁ e₂) (h' : ToolLater e₂ e₃) :
    ToolLater e₁ e₃ where
  runId := h'.runId.trans h.runId
  actionId := h'.actionId.trans h.actionId
  replaySafe := h'.replaySafe.trans h.replaySafe
  lease hs := (h'.lease (h.replaySafe.trans hs)).trans (h.lease hs)
  settled hs := by
    have h₂ := h.settled hs
    subst h₂
    exact h'.settled hs
  unknown hs := by
    have h₂ := h.unknown hs
    cases hst : e₂.status with
    | inProgress => exact absurd hst h₂
    | unknownOutcome => exact h'.unknown hst
    | succeeded => rw [h'.settled (.inl hst)]; exact h₂
    | failed => rw [h'.settled (.inr hst)]; exact h₂

theorem settledValues_settled (result : Dict) (succeeded : Bool) (now : Timestamp)
    (e : ToolExecution) : (ToolExecutionRepository.settledValues result succeeded now e).Settled := by
  cases succeeded
  · exact .inr rfl
  · exact .inl rfl

theorem reconcileUnknownValues_settled (result : Dict) (succeeded : Bool)
    (providerRequestId : Option String) (now : Timestamp) (e : ToolExecution) :
    (ToolExecutionRepository.reconcileUnknownValues result succeeded providerRequestId now
      e).Settled :=
  settledValues_settled result succeeded now e

theorem not_settled_of_inProgress {e : ToolExecution} (h : e.status = .inProgress) :
    ¬e.Settled := by
  rintro (hs | hs) <;> rw [h] at hs <;> cases hs

theorem not_settled_of_unknown {e : ToolExecution} (h : e.status = .unknownOutcome) :
    ¬e.Settled := by
  rintro (hs | hs) <;> rw [h] at hs <;> cases hs

theorem ToolStep.id_eq {op : Op} {e e' : ToolExecution} (h : ToolStep op e e') : e'.id = e.id := by
  cases h <;> rfl

theorem ToolStep.later {op : Op} {e e' : ToolExecution} (h : ToolStep op e e') :
    ToolLater e e' := by
  cases h with
  | same => exact .refl e
  | takeover hstatus hsafe =>
    exact ⟨rfl, rfl, rfl, fun hs => by simp [hsafe] at hs,
      fun hs => absurd hs (not_settled_of_inProgress hstatus), fun hs => by simp [hstatus] at hs⟩
  | markUnknown hstatus =>
    exact ⟨rfl, rfl, rfl, fun _ => rfl, fun hs => absurd hs (not_settled_of_inProgress hstatus),
      fun hs => by simp [hstatus] at hs⟩
  | complete hop hstatus htoken =>
    exact ⟨rfl, rfl, rfl, fun _ => rfl, fun hs => absurd hs (not_settled_of_inProgress hstatus),
      fun hs => by simp [hstatus] at hs⟩
  | reconcile hstatus =>
    exact ⟨rfl, rfl, rfl, fun _ => rfl, fun hs => absurd hs (not_settled_of_unknown hstatus),
      fun _ hp => not_settled_of_inProgress hp (reconcileUnknownValues_settled _ _ _ _ _)⟩

/-- The ledger as a transaction may have read it, and as it is now. -/
def LedgerLater (t t' : Table ToolExecution) : Prop := t.Evolves ToolExecution.id ToolLater t'

theorem LedgerLater.refl (t : Table ToolExecution) : LedgerLater t t :=
  Table.Evolves.refl ToolLater.refl t

theorem LedgerLater.trans {t₁ t₂ t₃ : Table ToolExecution} (h : LedgerLater t₁ t₂)
    (h' : LedgerLater t₂ t₃) : LedgerLater t₁ t₃ :=
  Table.Evolves.trans (fun _ _ _ h₁ h₂ => h₁.trans h₂) h h'

/-- The present version of a row that a transaction read. -/
theorem LedgerLater.row {t t' : Table ToolExecution} (h : LedgerLater t t') {e e' : ToolExecution}
    (he : e ∈ t) (he' : e' ∈ t') (hid : e'.id = e.id) : ToolLater e e' := by
  obtain ⟨e'', he'', hid', hlater⟩ := h e he
  rwa [toolExecution_ext he' he'' (hid.trans hid'.symm)]

variable {view : ℕ → Store} {op : Op} {t t' : Table ToolExecution} {reply : Reply}

/-- The row that a takeover matches is replay-safe: one that is not still has the lease that was
read, and that lease was not over. -/
theorem takeover_replaySafe (hview : LedgerLater (view 1).toolExecutions t) {c : ClaimTool}
    {now : Timestamp} {existing e : ToolExecution}
    (hread : ToolExecutionRepository.get c.runId c.actionId (view 1).toolExecutions = some existing)
    (hlease : ¬(existing.leaseExpiresAt ≤ now ∧ existing.replaySafe = false)) (he : e ∈ t)
    (hp : ToolExecutionRepository.takeoverIfExpiredWhere existing.id now e = true) :
    ToolLater existing e ∧ e.status = .inProgress ∧ e.replaySafe = true := by
  simp only [ToolExecutionRepository.takeoverIfExpiredWhere, decide_eq_true_eq] at hp
  obtain ⟨hid, hstatus, hexpired⟩ := hp
  have hlater := hview.row (Table.get_eq_some hread).1 he hid
  refine ⟨hlater, hstatus, ?_⟩
  by_contra hrisky
  have hfalse : existing.replaySafe = false := by
    rw [← hlater.replaySafe]
    simpa using hrisky
  exact hlease ⟨by rw [← hlater.lease hfalse]; exact hexpired, hfalse⟩

/-- A transaction moves rows, each by a step of its own, and grants an action on a replay-safe row
only; or it inserts the row of a new action. -/
theorem LedgerEffect.cases (hview : LedgerLater (view 1).toolExecutions t)
    (h : LedgerEffect view op t t' reply) :
    (t.Moves (ToolStep op) t' ∧ ∀ claim, reply = .toolClaim claim → claim.acquired = true →
      ∃ c fresh, op = .claimToolExecution c fresh ∧ c.replaySafe = true ∧
        ∃ e ∈ t, e.runId = c.runId ∧ e.actionId = c.actionId ∧ e.replaySafe = true) ∨
      ∃ c fresh claim, op = .claimToolExecution c fresh ∧ reply = .toolClaim claim ∧
        claim.acquired = true ∧ ToolExecutionRepository.get c.runId c.actionId t = none ∧
          t.insert? (c.execution fresh) = some t' := by
  cases h with
  | idle hreply =>
    refine .inl ⟨.refl (fun _ => .same) t, fun claim hc hacquired => ?_⟩
    rw [(hreply claim hc).1] at hacquired
    cases hacquired
  | add habsent hins => exact .inr ⟨_, _, _, rfl, rfl, rfl, habsent, hins⟩
  | markUnknown hread hsafe hrisky hlease =>
    refine .inl ⟨.update (fun _ => .same) fun e he hp => ?_, fun claim hc hacquired => ?_⟩
    · simp only [ToolExecutionRepository.markUnknownIfExpiredWhere, decide_eq_true_eq] at hp
      exact .markUnknown hp.2.1
    · cases hc
      cases hacquired
  | @takeover c fresh _ existing acquired hread hsafe hlease hacquired =>
    refine .inl ⟨.update (fun _ => .same) fun e he hp => ?_, fun claim hc hgranted => ?_⟩
    · obtain ⟨-, hstatus, hreplay⟩ := takeover_replaySafe hview hread hlease he hp
      exact .takeover hstatus hreplay
    · cases hc
      have hone : t.rowcount
          (ToolExecutionRepository.takeoverIfExpiredWhere existing.id (fresh 0).now) = 1 := by
        simpa [ToolExecutionRepository.takeoverIfExpired] using hacquired.symm.trans hgranted
      obtain ⟨e, he, hp⟩ := Table.exists_of_rowcount_eq_one hone
      obtain ⟨hlater, -, hreplay⟩ := takeover_replaySafe hview hread hlease he hp
      obtain ⟨-, hkey⟩ := Table.get_eq_some hread
      simp only [decide_eq_true_eq] at hkey
      exact ⟨c, fresh, rfl, hsafe.symm.trans (hlater.replaySafe.symm.trans hreplay), e, he,
        hlater.runId.trans hkey.1, hlater.actionId.trans hkey.2, hreplay⟩
  | complete hop hreply _ =>
    refine .inl ⟨.update (fun _ => .same) fun e he hp => ?_, fun claim hc => absurd hc (hreply claim)⟩
    simp only [ToolExecutionRepository.completeWhere, decide_eq_true_eq] at hp
    exact .complete hop hp.2.2.1 hp.2.2.2.2
  | reconcile =>
    refine .inl ⟨.update (fun _ => .same) fun e he hp => ?_, fun claim hc => by cases hc⟩
    simp only [ToolExecutionRepository.reconcileUnknownWhere, decide_eq_true_eq] at hp
    exact .reconcile hp.2

/-- Every row that was there makes a step. -/
theorem LedgerEffect.evolves (hview : LedgerLater (view 1).toolExecutions t)
    (h : LedgerEffect view op t t' reply) : t.Evolves ToolExecution.id (ToolStep op) t' := by
  rcases h.cases hview with ⟨hmoves, -⟩ | ⟨c, fresh, claim, -, -, -, -, hins⟩
  · exact hmoves.evolves fun e e' hstep => ⟨hstep.id_eq, hstep⟩
  · exact .insert? (fun _ => .same) hins

/-- Every row is a row that was there, one step on, or the row of a new action. -/
theorem LedgerEffect.mem (hview : LedgerLater (view 1).toolExecutions t)
    (h : LedgerEffect view op t t' reply) {e' : ToolExecution} (he' : e' ∈ t') :
    (∃ e ∈ t, ToolStep op e e') ∨ ∃ c fresh, e' = ClaimTool.execution c fresh := by
  rcases h.cases hview with ⟨hmoves, -⟩ | ⟨c, fresh, claim, -, -, -, -, hins⟩
  · exact .inl (hmoves.mem he')
  · rcases (Table.mem_insert? hins).mp he' with he | rfl
    · exact .inl ⟨e', he, .same⟩
    · exact .inr ⟨c, fresh, rfl⟩

/-! ## Every history -/

/-- A result is stored exactly with a known outcome. -/
def ResultsSettled (t : Table ToolExecution) : Prop :=
  ∀ e ∈ t, e.result.isSome ↔ e.Settled

theorem ToolStep.resultSettled {e e' : ToolExecution} (h : ToolStep op e e')
    (he : e.result.isSome ↔ e.Settled) : e'.result.isSome ↔ e'.Settled := by
  cases h with
  | same => exact he
  | takeover => exact he
  | markUnknown hstatus =>
    have hnone := mt he.mp (not_settled_of_inProgress hstatus)
    exact ⟨fun hs => absurd hs hnone, fun hs => by rcases hs with hs | hs <;> cases hs⟩
  | complete => exact ⟨fun _ => settledValues_settled _ _ _ _, fun _ => rfl⟩
  | reconcile => exact ⟨fun _ => reconcileUnknownValues_settled _ _ _ _ _, fun _ => rfl⟩

/-- What the ledger guarantees to every transaction, whatever it read. -/
theorem ledger_stable : Program.Stable system (fun _ _ _ => True)
    (fun s => ResultsSettled s.toolExecutions)
    (fun v s => LedgerLater v.toolExecutions s.toolExecutions) where
  init s hs := by
    obtain rfl : s = {} := hs
    exact fun e he => absurd he Table.not_mem_empty
  refl s := .refl _
  trans _ _ _ := .trans
  step op view s hinv hviews _ := by
    have hl := commit_toolExecutions op view s
    have hview := (hviews 1).2
    constructor
    · intro e' he'
      rcases hl.mem hview he' with ⟨e, he, hstep⟩ | ⟨c, fresh, rfl⟩
      · exact hstep.resultSettled (hinv e he)
      · exact iff_of_false (by simp [ClaimTool.execution]) (not_settled_of_inProgress rfl)
    · intro e he
      obtain ⟨e', he', hid, hstep⟩ := hl.evolves hview e he
      exact ⟨e', he', hid, hstep.later⟩

/-! ## Grants -/

/-- The claims of a tool action that were granted, latest first, each with what it took from the
clock. -/
def grants (runId : UUID) (actionId : String) (replies : List (Op × Reply)) :
    List (ClaimTool × (ℕ → Stamp)) :=
  replies.filterMap fun
    | (.claimToolExecution c fresh, .toolClaim claim) =>
      if claim.acquired ∧ c.runId = runId ∧ c.actionId = actionId then some (c, fresh) else none
    | _ => none

/-- The grants given so far fit the rows of the ledger. -/
structure GrantsFit (replies : List (Op × Reply)) (t : Table ToolExecution) : Prop where
  absent : ∀ runId actionId, ToolExecutionRepository.get runId actionId t = none →
    grants runId actionId replies = []
  safe : ∀ e ∈ t, ∀ g ∈ grants e.runId e.actionId replies, g.1.replaySafe = e.replaySafe
  lease : ∀ e ∈ t, e.replaySafe = false → ∀ g ∈ grants e.runId e.actionId replies,
    e.leaseExpiresAt = (g.2 0).now + g.1.lease
  once : ∀ e ∈ t, e.replaySafe = false → (grants e.runId e.actionId replies).length ≤ 1

variable {replies : List (Op × Reply)}

theorem ToolExecutionRepository.get_eq_none {runId : UUID} {actionId : String} :
    ToolExecutionRepository.get runId actionId t = none ↔
      ∀ e ∈ t, e.runId = runId → e.actionId ≠ actionId := by
  simp [ToolExecutionRepository.get, Table.get_eq_none]

theorem ToolExecutionRepository.get_eq_some {runId : UUID} {actionId : String} {e : ToolExecution}
    (h : ToolExecutionRepository.get runId actionId t = some e) :
    e ∈ t ∧ e.runId = runId ∧ e.actionId = actionId := by
  obtain ⟨he, hp⟩ := Table.get_eq_some h
  exact ⟨he, by simpa using hp⟩

/-- Moving the rows on keeps what the grants say about them. -/
theorem GrantsFit.moves (h : GrantsFit replies t) (hmoves : t.Moves (ToolStep op) t') :
    GrantsFit replies t' where
  absent runId actionId hnone := by
    refine h.absent runId actionId (ToolExecutionRepository.get_eq_none.mpr fun e he hrun => ?_)
    obtain ⟨e', he', hstep⟩ := hmoves.exists_mem he
    rw [← hstep.later.actionId]
    exact ToolExecutionRepository.get_eq_none.mp hnone e' he' (hstep.later.runId.trans hrun)
  safe e' he' g hg := by
    obtain ⟨e, he, hstep⟩ := hmoves.mem he'
    rw [hstep.later.runId, hstep.later.actionId] at hg
    exact (h.safe e he g hg).trans hstep.later.replaySafe.symm
  lease e' he' hsafe g hg := by
    obtain ⟨e, he, hstep⟩ := hmoves.mem he'
    rw [hstep.later.runId, hstep.later.actionId] at hg
    have hs := hstep.later.replaySafe.symm.trans hsafe
    exact (hstep.later.lease hs).trans (h.lease e he hs g hg)
  once e' he' hsafe := by
    obtain ⟨e, he, hstep⟩ := hmoves.mem he'
    rw [hstep.later.runId, hstep.later.actionId]
    exact h.once e he (hstep.later.replaySafe.symm.trans hsafe)

/-- An answer that grants nothing adds no grant. -/
theorem grants_cons_of_not_acquired (h : ∀ claim, reply = .toolClaim claim → claim.acquired = false)
    (runId : UUID) (actionId : String) :
    grants runId actionId ((op, reply) :: replies) = grants runId actionId replies := by
  refine List.filterMap_cons_none ?_
  split
  case h_1 c fresh claim heq =>
    obtain ⟨-, rfl⟩ := Prod.mk.inj heq
    simp [h claim rfl]
  case h_2 => rfl

theorem grants_cons_of_acquired {c : ClaimTool} {fresh : ℕ → Stamp} {claim : ToolExecutionClaimDTO}
    (h : claim.acquired = true) (runId : UUID) (actionId : String) :
    grants runId actionId ((.claimToolExecution c fresh, .toolClaim claim) :: replies) =
      if c.runId = runId ∧ c.actionId = actionId then (c, fresh) :: grants runId actionId replies
      else grants runId actionId replies := by
  simp only [grants, List.filterMap_cons, h, true_and]
  split <;> split <;> simp_all

theorem GrantsFit.idle (h : GrantsFit replies t)
    (hreply : ∀ claim, reply = .toolClaim claim → claim.acquired = false) :
    GrantsFit ((op, reply) :: replies) t := by
  have hsame : ∀ runId actionId, grants runId actionId ((op, reply) :: replies) =
      grants runId actionId replies := grants_cons_of_not_acquired hreply
  constructor <;> simp only [hsame]
  exacts [h.absent, h.safe, h.lease, h.once]

/-- A takeover is granted on a row that is replay-safe. -/
theorem GrantsFit.takeover (h : GrantsFit replies t) {c : ClaimTool} {fresh : ℕ → Stamp}
    {claim : ToolExecutionClaimDTO} (hclaim : claim.acquired = true) {e : ToolExecution} (he : e ∈ t)
    (hrun : e.runId = c.runId) (haction : e.actionId = c.actionId) (hsafe : e.replaySafe = true)
    (hc : c.replaySafe = true) :
    GrantsFit ((.claimToolExecution c fresh, .toolClaim claim) :: replies) t := by
  have hrow : ∀ e' ∈ t, c.runId = e'.runId ∧ c.actionId = e'.actionId → e' = e := fun e' he' hk =>
    toolExecution_action_ext he' he (hk.1.symm.trans hrun.symm) (hk.2.symm.trans haction.symm)
  constructor <;> simp only [grants_cons_of_acquired hclaim]
  · intro runId actionId hnone
    rw [if_neg fun hk => ?_]
    · exact h.absent runId actionId hnone
    · exact ToolExecutionRepository.get_eq_none.mp hnone e he (hrun.trans hk.1) (haction.trans hk.2)
  · intro e' he' g hg
    split at hg
    case isTrue hk =>
      rcases List.mem_cons.mp hg with rfl | hg
      · rw [hrow e' he' hk, hsafe, hc]
      · exact h.safe e' he' g hg
    case isFalse => exact h.safe e' he' g hg
  · intro e' he' hrisky g hg
    rw [if_neg fun hk => by simp [hrow e' he' hk, hsafe] at hrisky] at hg
    exact h.lease e' he' hrisky g hg
  · intro e' he' hrisky
    rw [if_neg fun hk => by simp [hrow e' he' hk, hsafe] at hrisky]
    exact h.once e' he' hrisky

/-- A new action has no grant but the one that inserts its row. -/
theorem GrantsFit.add (h : GrantsFit replies t) {c : ClaimTool} {fresh : ℕ → Stamp}
    {claim : ToolExecutionClaimDTO} (hclaim : claim.acquired = true)
    (habsent : ToolExecutionRepository.get c.runId c.actionId t = none)
    (hins : t.insert? (c.execution fresh) = some t') :
    GrantsFit ((.claimToolExecution c fresh, .toolClaim claim) :: replies) t' := by
  have hnew : grants c.runId c.actionId replies = [] := h.absent _ _ habsent
  have hold : ∀ e ∈ t, ¬(c.runId = e.runId ∧ c.actionId = e.actionId) := fun e he hk =>
    ToolExecutionRepository.get_eq_none.mp habsent e he hk.1.symm hk.2.symm
  have hmem : ∀ e ∈ t', e ∈ t ∨ e = c.execution fresh := fun e he => (Table.mem_insert? hins).mp he
  constructor <;> simp only [grants_cons_of_acquired hclaim]
  · intro runId actionId hnone
    have hnone' := ToolExecutionRepository.get_eq_none.mp hnone
    rw [if_neg fun hk => hnone' _ ((Table.mem_insert? hins).mpr (.inr rfl)) hk.1 hk.2]
    refine h.absent runId actionId (ToolExecutionRepository.get_eq_none.mpr fun e he => ?_)
    exact hnone' e ((Table.mem_insert? hins).mpr (.inl he))
  · intro e he g hg
    rcases hmem e he with he | rfl
    · rw [if_neg (hold e he)] at hg
      exact h.safe e he g hg
    · rw [if_pos ⟨rfl, rfl⟩] at hg
      obtain rfl : g = (c, fresh) := by simpa [ClaimTool.execution, hnew] using hg
      rfl
  · intro e he hrisky g hg
    rcases hmem e he with he | rfl
    · rw [if_neg (hold e he)] at hg
      exact h.lease e he hrisky g hg
    · rw [if_pos ⟨rfl, rfl⟩] at hg
      obtain rfl : g = (c, fresh) := by simpa [ClaimTool.execution, hnew] using hg
      rfl
  · intro e he hrisky
    rcases hmem e he with he | rfl
    · rw [if_neg (hold e he)]
      exact h.once e he hrisky
    · rw [if_pos ⟨rfl, rfl⟩]
      simp [ClaimTool.execution, hnew]

/-- The grants fit the ledger after every transaction. -/
theorem LedgerEffect.grantsFit (hview : LedgerLater (view 1).toolExecutions t)
    (h : LedgerEffect view op t t' reply) (hfit : GrantsFit replies t) :
    GrantsFit ((op, reply) :: replies) t' := by
  rcases h.cases hview with ⟨hmoves, hgrant⟩ | ⟨c, fresh, claim, rfl, rfl, hc, habsent, hins⟩
  · have hfit' := hfit.moves hmoves
    by_cases hacquired : ∃ claim, reply = .toolClaim claim ∧ claim.acquired = true
    · obtain ⟨claim, rfl, hclaim⟩ := hacquired
      obtain ⟨c, fresh, rfl, hc, e, he, hrun, haction, hsafe⟩ := hgrant claim rfl hclaim
      obtain ⟨e', he', hstep⟩ := hmoves.exists_mem he
      exact hfit'.takeover hclaim he' (hstep.later.runId.trans hrun)
        (hstep.later.actionId.trans haction) (hstep.later.replaySafe.trans hsafe) hc
    · exact hfit'.idle fun claim hreply => by
        simpa using fun h => hacquired ⟨claim, hreply, h⟩
  · exact hfit.add hc habsent hins

/-! ## The ledger over whole histories -/

/-- The status changes that a transaction may make on a ledger row. -/
def StatusStep (op : Op) (e e' : ToolExecution) : Prop :=
  e'.status = e.status ∨
    (e.status = .inProgress ∧ (e'.Settled ∨ e'.status = .unknownOutcome)) ∨
    (e.status = .unknownOutcome ∧ e'.Settled ∧
      ∃ userId runId actionId result succeeded providerRequestId now,
        op = .reconcileUnknownToolExecution userId runId actionId result succeeded providerRequestId
          now)

theorem ToolStep.statusStep {e e' : ToolExecution} (h : ToolStep op e e') : StatusStep op e e' := by
  cases h with
  | same => exact .inl rfl
  | takeover => exact .inl rfl
  | markUnknown hstatus => exact .inr (.inl ⟨hstatus, .inr rfl⟩)
  | complete _ hstatus => exact .inr (.inl ⟨hstatus, .inl (settledValues_settled _ _ _ _)⟩)
  | reconcile hstatus =>
    exact .inr (.inr ⟨hstatus, reconcileUnknownValues_settled _ _ _ _ _, _, _, _, _, _, _, _, rfl⟩)

/-- The transactions that complete a claim. -/
def Op.Completes (op : Op) (c : ToolClaim) : Prop :=
  (∃ result succeeded now, op = .completeToolExecution c result succeeded now) ∨
    ∃ toolName outcome now, op = .completePersonalStateMutationTool c toolName outcome now

/-- A completion changes the row of the present claim alone, and only while it is in progress. -/
theorem ToolStep.eq_of_completes {c : ToolClaim} (hop : op.Completes c) {e e' : ToolExecution}
    (h : ToolStep op e e') (hlost : e.claimToken ≠ c.claimToken ∨ e.status ≠ .inProgress) :
    e' = e := by
  cases h with
  | same => rfl
  | complete hop' hstatus htoken =>
    have hc : ∀ c', op.Completes c' → c' = c := by
      rintro c' (⟨_, _, _, rfl⟩ | ⟨_, _, _, rfl⟩) <;>
        rcases hop with ⟨_, _, _, h⟩ | ⟨_, _, _, h⟩ <;> cases h <;> rfl
    have hpresent : _ = c := hc _ (hop'.imp (fun h => ⟨_, _, _, h⟩) fun ⟨_, _, h⟩ => ⟨_, _, _, h⟩)
    rw [hpresent] at htoken
    exact absurd hlost (by simp [htoken, hstatus])
  | _ => rcases hop with ⟨_, _, _, h⟩ | ⟨_, _, _, h⟩ <;> cases h

/-- In every history: a row has a result exactly when it is settled; a stored result and its status
stay; a status changes only on the ways of `StatusStep`; and a completion with another token than the
present one, or of a row that is no longer in progress, leaves the row as it is. -/
theorem ledger_laws {h : History Store Op Reply} (hr : system.Reachable h) :
    ResultsSettled h.cur.toolExecutions ∧
      (h.states.Pairwise fun later earlier =>
        earlier.toolExecutions.Evolves ToolExecution.id
          (fun e e' => e.result.isSome → e'.result = e.result ∧ e'.status = e.status)
          later.toolExecutions) ∧
      ∀ op view, (∀ n, view n ∈ h.states) →
        h.cur.toolExecutions.Evolves ToolExecution.id (StatusStep op)
            (commit op view h.cur).1.toolExecutions ∧
          ∀ c, op.Completes c → ∀ e ∈ h.cur.toolExecutions, e.runId = c.runId →
            e.actionId = c.actionId → e.claimToken ≠ c.claimToken ∨ e.status ≠ .inProgress →
            e ∈ (commit op view h.cur).1.toolExecutions := by
  have hinv : ∀ s ∈ h.states, ResultsSettled s.toolExecutions := fun s hs =>
    ledger_stable.inv_mem hr hs
  refine ⟨ledger_stable.inv_cur hr, ?_, fun op view hview => ?_⟩
  · refine List.Pairwise.imp_of_mem (fun {later earlier} _ hearlier hlater e he => ?_)
      (ledger_stable.pairwise hr)
    obtain ⟨e', he', hid, hrow⟩ := hlater e he
    refine ⟨e', he', hid, fun hresult => ?_⟩
    rw [hrow.settled ((hinv earlier hearlier e he).mp hresult)]
    exact ⟨rfl, rfl⟩
  · have hevolves := (commit_toolExecutions op view h.cur).evolves
      (ledger_stable.rel_mem hr (hview 1))
    refine ⟨fun e he => ?_, fun c hop e he _ _ hlost => ?_⟩
    · obtain ⟨e', he', hid, hstep⟩ := hevolves e he
      exact ⟨e', he', hid, hstep.statusStep⟩
    · obtain ⟨e', he', -, hstep⟩ := hevolves e he
      rwa [← hstep.eq_of_completes hop hlost]

/-- A claim of the action `a` of Run 10 for a tool that is not replay-safe. -/
def unsafeClaim (owner : String) : ClaimTool :=
  { userId := 1
    runId := 10
    actionId := "a"
    toolName := "send"
    argumentsHash := "hash"
    owner
    lease := 5
    runClaimToken := 20
    replaySafe := false }

/-- The history in which worker `w` claims that action and never completes it. -/
def unsafeClaimed : History Store Op Reply :=
  system.serial {} (claimedRun ++ [.claimToolExecution (unsafeClaim "w") (stampsFrom 30 0)])

theorem ledger_laws_unsafeClaimed :
    ResultsSettled unsafeClaimed.cur.toolExecutions ∧
      unsafeClaimed.cur.toolExecutions.rows.length = 1 :=
  ⟨(ledger_laws (system.serial_reachable rfl _)).1, by decide⟩

/-- The grants fit the ledger in every history. -/
theorem grantsFit {h : History Store Op Reply} (hr : system.Reachable h) :
    GrantsFit h.replies h.cur.toolExecutions := by
  refine ledger_stable.log_induction (fun replies s => GrantsFit replies s.toolExecutions) ?_ ?_
    hr
  · intro s hs
    obtain rfl : s = {} := hs
    exact ⟨fun _ _ _ => rfl, fun e he => absurd he Table.not_mem_empty,
      fun e he => absurd he Table.not_mem_empty, fun e he => absurd he Table.not_mem_empty⟩
  · intro op view s replies _ hviews _ hfit
    exact (commit_toolExecutions op view s).grantsFit (hviews 1).2 hfit

/-- A claim on a row that is not replay-safe, once the lease of the row is over: it is refused with
an error and changes nothing, or it grants nothing and leaves the row with no doubt about it. -/
theorem claim_after_lease {h : History Store Op Reply} (hr : system.Reachable h)
    {e : ToolExecution} (he : e ∈ h.cur.toolExecutions) (hrisky : e.replaySafe = false)
    {c : ClaimTool} {fresh : ℕ → Stamp} (hview : ∀ n, view n ∈ h.states) (hrun : e.runId = c.runId)
    (haction : e.actionId = c.actionId) (hover : e.leaseExpiresAt ≤ (fresh 0).now) :
    (∃ error, commit (.claimToolExecution c fresh) view h.cur = (h.cur, .raised error)) ∨
      ∃ claim s', commit (.claimToolExecution c fresh) view h.cur = (s', .toolClaim claim) ∧
        claim.acquired = false ∧ ∃ e' ∈ s'.toolExecutions, e'.runId = c.runId ∧
          e'.actionId = c.actionId ∧ (e'.status = .unknownOutcome ∨ e'.Settled) := by
  have hlater := ledger_stable.rel_mem hr (hview 1)
  have hread : ∀ existing, ToolExecutionRepository.get c.runId c.actionId
      (view 1).toolExecutions = some existing → ToolLater existing e ∧ e.id = existing.id := by
    intro existing hget
    obtain ⟨hmem, hrun', haction'⟩ := ToolExecutionRepository.get_eq_some hget
    obtain ⟨e', he', hid, hrow⟩ := hlater existing hmem
    rw [toolExecution_action_ext he he' (by rw [hrun, hrow.runId, hrun'])
      (by rw [haction, hrow.actionId, haction'])]
    exact ⟨hrow, hid⟩
  cases hx : claimToolExecution c fresh view h.cur with
  | error error => exact .inl ⟨error, by simp [commit, hx, settled]⟩
  | ok r =>
    obtain ⟨s', claim⟩ := r
    obtain ⟨t, rfl, hl⟩ := claimToolExecution_ledger hx
    refine .inr ⟨claim, { h.cur with toolExecutions := t }, by simp [commit, hx, settled], ?_⟩
    cases hl with
    | idle hreply =>
      obtain ⟨hrefused, c', fresh', existing, hop, hget, hresult⟩ := hreply claim rfl
      cases hop
      obtain ⟨hrow, -⟩ := hread existing hget
      have hsettled := (ledger_stable.inv_mem hr (hview 1) existing
        (ToolExecutionRepository.get_eq_some hget).1).mp hresult
      exact ⟨hrefused, e, he, hrun, haction, .inr (hrow.settled hsettled ▸ hsettled)⟩
    | add habsent => exact absurd haction (ToolExecutionRepository.get_eq_none.mp habsent e he hrun)
    | @markUnknown _ _ _ existing hget hsafe hexisting hlease =>
      obtain ⟨hrow, hid⟩ := hread existing hget
      refine ⟨rfl, _, Table.updateRow_mem he, ?_⟩
      cases hst : e.status with
      | inProgress =>
        rw [Table.updateRow_pos (by
          simp [ToolExecutionRepository.markUnknownIfExpiredWhere, hid, hst, hover, hrisky])]
        exact ⟨hrun, haction, .inl rfl⟩
      | unknownOutcome =>
        rw [Table.updateRow_neg (by
          simp [ToolExecutionRepository.markUnknownIfExpiredWhere, hst])]
        exact ⟨hrun, haction, .inl hst⟩
      | succeeded =>
        rw [Table.updateRow_neg (by
          simp [ToolExecutionRepository.markUnknownIfExpiredWhere, hst])]
        exact ⟨hrun, haction, .inr (.inl hst)⟩
      | failed =>
        rw [Table.updateRow_neg (by
          simp [ToolExecutionRepository.markUnknownIfExpiredWhere, hst])]
        exact ⟨hrun, haction, .inr (.inr hst)⟩
    | @takeover _ _ _ existing _ hget hsafe hlease _ =>
      obtain ⟨hrow, -⟩ := hread existing hget
      have hexisting : existing.replaySafe = false := hrow.replaySafe.symm.trans hrisky
      exact absurd ⟨by rw [← hrow.lease hexisting]; exact hover, hexisting⟩ hlease
    | complete _ hreply _ => exact absurd rfl (hreply claim)

/-- In every history: a tool action that was granted as not replay-safe was granted once, and a
claim that comes after the lease of that grant is refused with an error and changes nothing, or it
is answered without a grant and leaves the row UNKNOWN_OUTCOME or settled. -/
theorem unsafe_tool_granted_once {h : History Store Op Reply} (hr : system.Reachable h)
    {c : ClaimTool} {fresh : ℕ → Stamp}
    (hgrant : (c, fresh) ∈ grants c.runId c.actionId h.replies) (hrisky : c.replaySafe = false) :
    grants c.runId c.actionId h.replies = [(c, fresh)] ∧
      ∀ (c' : ClaimTool) (fresh' : ℕ → Stamp) (view : ℕ → Store), (∀ n, view n ∈ h.states) →
        c'.runId = c.runId → c'.actionId = c.actionId →
        (fresh 0).now + c.lease ≤ (fresh' 0).now →
        (∃ error, commit (.claimToolExecution c' fresh') view h.cur = (h.cur, .raised error)) ∨
          ∃ claim s', commit (.claimToolExecution c' fresh') view h.cur = (s', .toolClaim claim) ∧
            claim.acquired = false ∧ ∃ e ∈ s'.toolExecutions, e.runId = c.runId ∧
              e.actionId = c.actionId ∧ (e.status = .unknownOutcome ∨ e.Settled) := by
  have hfit := grantsFit hr
  obtain ⟨e, hget⟩ : ∃ e, ToolExecutionRepository.get c.runId c.actionId h.cur.toolExecutions =
      some e := by
    cases hget : ToolExecutionRepository.get c.runId c.actionId h.cur.toolExecutions with
    | some e => exact ⟨e, rfl⟩
    | none => simp [hfit.absent _ _ hget] at hgrant
  obtain ⟨he, hrun, haction⟩ := ToolExecutionRepository.get_eq_some hget
  have hgrant' : (c, fresh) ∈ grants e.runId e.actionId h.replies := by rwa [hrun, haction]
  have hsafe : e.replaySafe = false := (hfit.safe e he _ hgrant').symm.trans hrisky
  constructor
  · have hone := hfit.once e he hsafe
    rw [hrun, haction] at hone
    obtain ⟨g, hg⟩ := List.length_eq_one_iff.mp
      (le_antisymm hone (List.length_pos_of_mem hgrant))
    rw [hg] at hgrant ⊢
    rw [List.mem_singleton.mp hgrant]
  · intro c' fresh' view hview hrun' haction' hover
    have hover' : e.leaseExpiresAt ≤ (fresh' 0).now := by rwa [hfit.lease e he hsafe _ hgrant']
    have hresult := claim_after_lease hr he hsafe hview (hrun.trans hrun'.symm)
      (haction.trans haction'.symm) hover'
    rwa [hrun', haction'] at hresult

theorem unsafe_tool_granted_once_unsafeClaimed :
    grants 10 "a" unsafeClaimed.replies = [(unsafeClaim "w", stampsFrom 30 0)] := by
  have hgrant : (unsafeClaim "w", stampsFrom 30 0) ∈
      grants (unsafeClaim "w").runId (unsafeClaim "w").actionId unsafeClaimed.replies :=
    List.mem_singleton.mpr rfl
  exact (unsafe_tool_granted_once (system.serial_reachable rfl _) hgrant rfl).1

/-- A worker that does not own the Run is refused, and the row stays in progress although its lease
is over. -/
theorem refused_claim_keeps_row :
    system.Reachable unsafeClaimed ∧
      (unsafeClaim "w", stampsFrom 30 0) ∈ grants 10 "a" unsafeClaimed.replies ∧
      (unsafeClaim "w").replaySafe = false ∧
      (stampsFrom 30 0 0).now + (unsafeClaim "w").lease ≤ (stampsFrom 40 100 0).now ∧
      ∃ e ∈ (commit (.claimToolExecution (unsafeClaim "x") (stampsFrom 40 100))
        (fun _ => unsafeClaimed.cur) unsafeClaimed.cur).1.toolExecutions,
        e.runId = 10 ∧ e.actionId = "a" ∧ e.status = .inProgress ∧ e.result = none :=
  ⟨system.serial_reachable rfl _, List.mem_singleton.mpr rfl, rfl, by decide, by decide⟩

end Runtime
