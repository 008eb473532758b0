import Laoshiren.Agent.DateTools
import Laoshiren.Runtime.Proofs.LedgerProofs

/-!
# Proofs: tools and their receipts

A write that goes through `try_bound_mutation` changes Personal State in the transaction that stores
its receipt, and a ledger row with a result is never changed. So as long as no tool call changes
Personal State through a service, every effect that is committed has its receipt in the ledger.
-/

namespace Agent

open Raise Runtime PersonalState

variable {δ : Type} {ops : WriteOps δ} {call : ToolCall} {w : ToolWrite} {view : ℕ → Ledgered δ}
  {s s' : Ledgered δ}

/-! ## Which calls go to a service -/

namespace ToolCall

/-- The action of a `thing_change_state` call is one of those that `status_by_action` knows. -/
def ChangesStatus (py : Builtins) (call : ToolCall) : Prop :=
  call.name = "thing_change_state" ∧
    ∃ action, call.arguments.get "action" = some action ∧
      (StateTools.statusByAction (py.str action)).isSome

/-- The call writes through a service: it changes the status of a Thing, or it has no ledger claim. -/
def CallsService (py : Builtins) (call : ToolCall) : Prop :=
  call.ChangesStatus py ∨ call.context.ledgerClaim = none

/-- The write of the call. -/
def Writes (ops : WriteOps δ) (call : ToolCall) (w : ToolWrite) : Prop :=
  call.plan ops = some (.ok (.bindable w)) ∨ call.plan ops = some (.ok (.unbindable w))

end ToolCall

theorem bindable_ne_unbindable {op : WriteOp} {toolName code message : String} {arguments : Dict} :
    StateTools.bindable op toolName code message arguments ≠ .ok (.unbindable w) := by
  intro h
  cases h

theorem changesStatus_of_changeThingState {py : Builtins} {arguments : Dict}
    (h : StateTools.changeThingState py arguments = .ok (.unbindable w)) :
    ∃ action, arguments.get "action" = some action ∧
      (StateTools.statusByAction (py.str action)).isSome := by
  simp only [StateTools.changeThingState, StateTools.text, bind_eq_ok, orRaise_eq_ok,
    pure_eq_ok] at h
  obtain ⟨_, ⟨action, haction, rfl⟩, h⟩ := h
  refine ⟨action, haction, ?_⟩
  split at h
  · exact absurd h bindable_ne_unbindable
  · split at h
    · exact absurd h bindable_ne_unbindable
    · simp only [bind_eq_ok, orRaise_eq_ok, Prod.exists] at h
      obtain ⟨status, code, message, hstatus, -⟩ := h
      exact Option.isSome_of_eq_some hstatus

/-- Every tool but `thing_change_state` passes its write to `try_bound_mutation`. -/
theorem handler_unbindable {name : String} {arguments : Dict}
    (h : StateTools.handler ops name arguments = .ok (.unbindable w)) :
    name = "thing_change_state" ∧ ∃ action, arguments.get "action" = some action ∧
      (StateTools.statusByAction (ops.py.str action)).isSome := by
  unfold StateTools.handler at h
  split at h
  case h_6 => exact ⟨rfl, changesStatus_of_changeThingState h⟩
  case h_7 =>
    simp only [StateTools.setThingDate, bind_eq_ok] at h
    obtain ⟨operation, -, h⟩ := h
    split at h
    · exact absurd h bindable_ne_unbindable
    · split at h
      · exact absurd h bindable_ne_unbindable
      · cases h
  case h_8 =>
    simp only [StateTools.manageBlocker, bind_eq_ok] at h
    obtain ⟨operation, -, h⟩ := h
    split at h
    · exact absurd h bindable_ne_unbindable
    · split at h
      · exact absurd h bindable_ne_unbindable
      · cases h
  case h_12 =>
    simp only [StateTools.remember, bind_eq_ok] at h
    obtain ⟨content, -, h⟩ := h
    split at h
    · cases h
    · exact absurd h bindable_ne_unbindable
  case h_14 =>
    simp only [StateTools.deleteFile, bind_eq_ok] at h
    obtain ⟨_, -, h⟩ := h
    exact absurd h bindable_ne_unbindable
  case h_15 => cases h
  all_goals exact absurd h bindable_ne_unbindable

theorem changesStatus_of_plan (h : call.plan ops = some (.ok (.unbindable w))) :
    call.ChangesStatus ops.py := by
  unfold ToolCall.plan at h
  obtain ⟨d, -, h⟩ := Option.bind_eq_some_iff.mp h
  split at h
  · exact handler_unbindable (Option.some.inj h)
  · cases h

/-! ## What a call commits -/

variable [DecidableEq δ]

theorem ToolCall.commit_of_ok {plan : HandlerPlan} {result : ToolResult}
    (hplan : call.plan ops = some (.ok plan))
    (hcommit : call.commitPlan ops view s plan = .ok (s', result)) :
    (call.commit ops view s).1 = s' := by
  have hbind : (Except.ok plan : Raises HandlerPlan).bind (call.commitPlan ops view s) =
      .ok (s', result) := hcommit
  simp only [ToolCall.commit, hplan, hbind]

theorem ToolCall.commit_of_error {plan : HandlerPlan} {error : RuntimeError}
    (hplan : call.plan ops = some (.ok plan))
    (hcommit : call.commitPlan ops view s plan = .error error) : (call.commit ops view s).1 = s := by
  have hbind : (Except.ok plan : Raises HandlerPlan).bind (call.commitPlan ops view s) =
      .error error := hcommit
  simp only [ToolCall.commit, hplan, hbind]

/-- A call leaves everything as it is, or its write was committed with the receipt, or by a service. -/
theorem ToolCall.commit_cases (ops : WriteOps δ) (call : ToolCall) (view : ℕ → Ledgered δ)
    (s : Ledgered δ) :
    (call.commit ops view s).1 = s ∨
    (∃ w c result, call.Writes ops w ∧ call.context.ledgerClaim = some c ∧
      call.commitBound ops c w view s = .ok ((call.commit ops view s).1, result)) ∨
    ∃ w result, call.Writes ops w ∧ call.CallsService ops.py ∧
      call.commitService ops w view s = .ok ((call.commit ops view s).1, result) := by
  cases hplan : call.plan ops with
  | none => exact Or.inl (by simp only [ToolCall.commit, hplan])
  | some planned =>
    cases planned with
    | error error =>
      refine Or.inl ?_
      unfold ToolCall.commit
      rw [hplan]
      rfl
    | ok plan =>
      cases hcommit : call.commitPlan ops view s plan with
      | error error => exact Or.inl (commit_of_error hplan hcommit)
      | ok committed =>
        obtain ⟨s', result⟩ := committed
        rw [commit_of_ok hplan hcommit]
        cases plan with
        | answers answer =>
          obtain ⟨rfl, -⟩ := Prod.mk.inj (Except.ok.inj hcommit)
          exact Or.inl rfl
        | unbindable w =>
          exact Or.inr (Or.inr ⟨w, result, Or.inr hplan, Or.inl (changesStatus_of_plan hplan),
            hcommit⟩)
        | bindable w =>
          unfold commitPlan at hcommit
          cases hclaim : call.context.ledgerClaim with
          | some c =>
            rw [hclaim] at hcommit
            exact Or.inr (Or.inl ⟨w, c, result, Or.inl hplan, rfl, hcommit⟩)
          | none =>
            rw [hclaim] at hcommit
            exact Or.inr (Or.inr ⟨w, result, Or.inl hplan, Or.inr hclaim, hcommit⟩)

omit [DecidableEq δ] in
theorem ToolCall.run_of_writes (h : call.Writes ops w) (d : δ) :
    call.run ops d = (call.write ops w (fun _ => d) d).toOption := by
  unfold ToolCall.run
  rcases h with h | h <;> rw [h]

/-- A call that reads and commits on one state leaves Personal State alone, or as its write has it. -/
theorem ToolCall.commit_domain (ops : WriteOps δ) (call : ToolCall) (s : Ledgered δ) :
    (call.commit ops (fun _ => s) s).1.domain = s.domain ∨
      (call.commit ops (fun _ => s) s).1.domain = call.leaves ops s.domain := by
  rcases call.commit_cases ops (fun _ => s) s with
    hsame | ⟨w, c, result, hwrites, -, hcommit⟩ | ⟨w, result, hwrites, -, hcommit⟩
  · exact Or.inl (by rw [hsame])
  · simp only [commitBound, bind_eq_ok, pure_eq_ok, Prod.exists, Prod.mk.injEq] at hcommit
    obtain ⟨store, d, data, hcomplete, d', outcome, hwrite, hcommitted, -⟩ := hcommit
    obtain ⟨outcome', happly, -⟩ := completePersonalStateMutationTool_ok hcomplete
    refine Or.inr ?_
    rw [← hcommitted, leaves, run_of_writes hwrites, happly]
    rfl
  · simp only [commitService, bind_eq_ok, pure_eq_ok, Prod.exists, Prod.mk.injEq] at hcommit
    obtain ⟨d, outcome, hwrite, hcommitted, -⟩ := hcommit
    refine Or.inr ?_
    rw [← hcommitted, leaves, run_of_writes hwrites, hwrite]
    rfl

/-! ## Receipts -/

/-- The ledger row of an effect is `SUCCEEDED` with its receipt. -/
def Written.Receipted (t : Table ToolExecution) (e : Written) : Prop :=
  ∃ row ∈ t, row.runId = e.runId ∧ row.actionId = e.actionId ∧ row.status = .succeeded ∧
    row.result = some e.receipt

instance (t : Table ToolExecution) (e : Written) : Decidable (e.Receipted t) :=
  inferInstanceAs (Decidable (∃ row ∈ t.rows, _))

/-- Every effect that is committed has its receipt. -/
def Ledgered.Receipted (s : Ledgered δ) : Prop :=
  ∀ e ∈ s.written, e.Receipted s.store.toolExecutions

instance (s : Ledgered δ) : Decidable s.Receipted := inferInstanceAs (Decidable (∀ e ∈ _, _))

/-- A ledger row with a result stays as it is. -/
theorem Written.Receipted.later {t t' : Table ToolExecution} {e : Written} (h : e.Receipted t)
    (hlater : LedgerLater t t') : e.Receipted t' := by
  obtain ⟨row, hrow, hrun, haction, hstatus, hresult⟩ := h
  obtain ⟨row', hrow', -, hlater⟩ := hlater row hrow
  obtain rfl := hlater.settled (Or.inl hstatus)
  exact ⟨row', hrow', hrun, haction, hstatus, hresult⟩

theorem ledgerClaim_action {context : ToolExecutionContext} {c : ToolClaim}
    (h : context.ledgerClaim = some c) :
    c.runId = context.runId ∧ c.actionId = context.actionId := by
  unfold ToolExecutionContext.ledgerClaim at h
  split at h
  · obtain rfl := Option.some.inj h
    exact ⟨rfl, rfl⟩
  · cases h

/-- The receipt of a bound write is in the ledger once it is committed. -/
theorem ToolCall.receipted_of_completeRow {c : ToolClaim} {w : ToolWrite} {outcome : WriteOutcome}
    {store store' : Store} (hclaim : call.context.ledgerClaim = some c)
    (hrow : completeRow c (buildToolReceipt w.toolName outcome) true call.now store = .ok store')
    {d d' : δ} : ∀ e ∈ call.effect w outcome d d', e.Receipted store'.toolExecutions := by
  obtain ⟨hcompleted, rfl⟩ := completeRow_ok hrow
  have hone : store.toolExecutions.rowcount (ToolExecutionRepository.completeWhere c.runId
      c.actionId c.owner c.claimToken) = 1 := by
    simpa [ToolExecutionRepository.complete] using hcompleted
  obtain ⟨row, hmem, hp⟩ := Table.exists_of_rowcount_eq_one hone
  have hmem' : ToolExecutionRepository.settledValues (buildToolReceipt w.toolName outcome) true
      call.now row ∈ (ToolExecutionRepository.complete c.runId c.actionId c.owner c.claimToken
        (buildToolReceipt w.toolName outcome) true call.now store.toolExecutions).1 :=
    Table.mem_update_of_pos hmem hp
  simp only [ToolExecutionRepository.completeWhere, decide_eq_true_eq] at hp
  obtain ⟨hrun, haction, -⟩ := hp
  obtain ⟨hrun', haction'⟩ := ledgerClaim_action hclaim
  intro e he
  unfold effect at he
  split at he
  · cases he
  · obtain rfl := List.mem_singleton.mp he
    exact ⟨_, hmem', hrun.trans hrun', haction.trans haction', rfl, rfl⟩

/-- A bound write is a transaction of the Runtime, and leaves its receipt. -/
theorem ToolCall.commitBound_ok {c : ToolClaim} {result : ToolResult}
    (hclaim : call.context.ledgerClaim = some c)
    (h : call.commitBound ops c w view s = .ok (s', result)) :
    (∃ op, s'.store = (Runtime.commit op (fun n => (view n).store) s.store).1) ∧
      ∀ e ∈ s'.written, e ∈ s.written ∨ e.Receipted s'.store.toolExecutions := by
  simp only [commitBound, bind_eq_ok, pure_eq_ok, Prod.exists, Prod.mk.injEq] at h
  obtain ⟨store, d, data, hcomplete, d', outcome, hwrite, rfl, -⟩ := h
  obtain ⟨outcome', happly, hrow⟩ := completePersonalStateMutationTool_ok hcomplete
  obtain ⟨rfl, rfl⟩ := Prod.mk.inj (Except.ok.inj (happly.symm.trans hwrite))
  refine ⟨⟨_, (commit_of_complete hcomplete happly).symm⟩, fun e he => ?_⟩
  rcases List.mem_append.mp he with he | he
  · exact Or.inr (receipted_of_completeRow hclaim hrow e he)
  · exact Or.inl he

/-- A bound write commits as `complete_mutation_tool` has it. -/
theorem ToolCall.commitBound_mutation {c : ToolClaim} {result : ToolResult}
    (h : call.commitBound ops c w view s = .ok (s', result)) :
    ∃ data, completeMutationTool (call.mutation ops c w)
      (fun n => ⟨(view n).store, (view n).domain⟩) ⟨s.store, s.domain⟩ =
        (⟨s'.store, s'.domain⟩, .committed data) := by
  simp only [commitBound, bind_eq_ok, pure_eq_ok, Prod.exists, Prod.mk.injEq] at h
  obtain ⟨store, d, data, hcomplete, d', outcome, hwrite, rfl, -⟩ := h
  refine ⟨data, ?_⟩
  unfold completeMutationTool mutation
  dsimp only
  rw [hcomplete]

/-- A service commits no effect where its write changes nothing. -/
theorem ToolCall.commitService_eq {result : ToolResult}
    (h : call.commitService ops w view s = .ok (s', result))
    (hsame : ∀ d outcome, call.write ops w (fun n => (view n).domain) s.domain = .ok (d, outcome) →
      d = s.domain) : s' = s := by
  simp only [commitService, bind_eq_ok, pure_eq_ok, Prod.exists, Prod.mk.injEq] at h
  obtain ⟨d, outcome, hwrite, rfl, -⟩ := h
  obtain rfl := hsame d outcome hwrite
  simp [effect]

/-! ## Every run -/

/-- No tool call changes Personal State through a service. -/
def Transaction.Bound (ops : WriteOps δ) (t : Transaction δ) (view : ℕ → Ledgered δ)
    (s : Ledgered δ) : Prop :=
  ∀ call, t = .tool call → call.CallsService ops.py → ∀ w, call.Writes ops w → ∀ d outcome,
    call.write ops w (fun n => (view n).domain) s.domain = .ok (d, outcome) → d = s.domain

theorem database_stable (ops : WriteOps δ) :
    Program.Stable (database ops) (Transaction.Bound ops)
      (fun s => ResultsSettled s.store.toolExecutions ∧ s.Receipted)
      (fun v s => LedgerLater v.store.toolExecutions s.store.toolExecutions) where
  init s hs := by
    obtain ⟨hstore, hwritten⟩ := hs
    refine ⟨?_, fun e he => ?_⟩
    · rw [hstore]
      exact ledger_stable.init {} rfl
    · rw [hwritten] at he
      cases he
  refl s := .refl _
  trans _ _ _ := .trans
  step t view s hinv hviews hok := by
    obtain ⟨hsettled, hreceipted⟩ := hinv
    cases t with
    | runtime op =>
      obtain ⟨hsettled', hlater⟩ := ledger_stable.step op (fun n => (view n).store) s.store hsettled
        (fun n => ⟨(hviews n).1.1, (hviews n).2⟩) trivial
      exact ⟨⟨hsettled', fun e he => (hreceipted e he).later hlater⟩, hlater⟩
    | client f => exact ⟨⟨hsettled, hreceipted⟩, .refl _⟩
    | tool call =>
      show (ResultsSettled (call.commit ops view s).1.store.toolExecutions ∧
        (call.commit ops view s).1.Receipted) ∧
        LedgerLater s.store.toolExecutions (call.commit ops view s).1.store.toolExecutions
      rcases call.commit_cases ops view s with
        hsame | ⟨w, c, result, -, hclaim, hbound⟩ | ⟨w, result, hwrites, hservice, hcommit⟩
      · rw [hsame]
        exact ⟨⟨hsettled, hreceipted⟩, .refl _⟩
      · obtain ⟨⟨op, hop⟩, hwritten⟩ := call.commitBound_ok hclaim hbound
        obtain ⟨hsettled', hlater⟩ := ledger_stable.step op (fun n => (view n).store) s.store
          hsettled (fun n => ⟨(hviews n).1.1, (hviews n).2⟩) trivial
        rw [show (system.commit op (fun n => (view n).store) s.store).1 = _ from hop.symm]
          at hsettled' hlater
        refine ⟨⟨hsettled', fun e he => ?_⟩, hlater⟩
        rcases hwritten e he with hold | hnew
        · exact (hreceipted e hold).later hlater
        · exact hnew
      · rw [ToolCall.commitService_eq hcommit (hok call rfl hservice w hwrites)]
        exact ⟨⟨hsettled, hreceipted⟩, .refl _⟩

/-- In every run in which no tool call changes Personal State through a service, every effect of a tool
that is committed has its receipt in the ledger, in every state that was ever committed. -/
theorem effects_have_receipts (ops : WriteOps δ) {h : History (Ledgered δ) (Transaction δ) Answer}
    (hr : (database ops).ReachableIf (Transaction.Bound ops) h) : ∀ s ∈ h.states, s.Receipted :=
  fun _ hs => ((database_stable ops).inv_mem hr hs).2

/-- A Thing is completed, and the ledger has no receipt of it: whatever happens next, the state is
committed. -/
theorem completed_without_receipt :
    (database moveOps).Reachable ((database moveOps).serial ⟨{}, moveRecords, []⟩
      (moveTransactions (moveCall "thing_change_state" [("action", .str "COMPLETE")]))) ∧
    ¬ ((database moveOps).serial ⟨{}, moveRecords, []⟩
      (moveTransactions (moveCall "thing_change_state" [("action", .str "COMPLETE")]))).cur.Receipted :=
  ⟨(database moveOps).serial_reachable ⟨rfl, rfl⟩ _, by decide +kernel⟩

/-- A new deadline, with its receipt. -/
theorem effects_have_receipts_moveWithSource :
    ((database moveOps).serial ⟨{}, moveRecords, []⟩
      (moveTransactions moveWithSource)).cur.Receipted := by
  refine effects_have_receipts moveOps ((database moveOps).serial_reachableIf ⟨rfl, rfl⟩ _
    ((database moveOps).serialMeets_of_forall ?_ _)) _ List.mem_cons_self
  rintro t ht view s call rfl hservice
  obtain rfl : call = moveWithSource := by
    simpa [moveTransactions, claimedRun] using ht
  rcases hservice with ⟨hname, -⟩ | hclaim
  · exact absurd hname (by decide)
  · cases hclaim

end Agent
