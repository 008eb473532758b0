import Laoshiren.Runtime.Proofs.LedgerProofs
import Laoshiren.Runtime.System

/-!
# A bound mutation commits exactly once

The mutation comes before the fenced update of its ledger row, in the same transaction: where the
fence refuses the row, the transaction raises and nothing of the mutation stays. A row that is settled
stays as it is, so no second mutation of its action can find it in progress.
-/

namespace Runtime

open Raise

variable {δ : Type} {s s' : Bound δ} {view : ℕ → Bound δ} {stores : ℕ → Store}
  {call : MutationCall δ} {op : BoundOp δ} {runId token : UUID} {actionId : String}
  {t t' : Table ToolExecution} {replies : List (BoundOp δ × BoundReply)}

/-! ## One transaction -/

/-- A committed mutation: its domain write, and the row that it completes. -/
theorem completeMutationTool_committed {data : Dict}
    (h : completeMutationTool call view s = (s', .committed data)) :
    ∃ outcome, call.applyMutation (fun n => (view n).domain) s.domain = .ok (s'.domain, outcome) ∧
      completeRow call.claim (buildToolReceipt call.toolName outcome) true call.now s.store =
        .ok s'.store ∧
      ∃ op, (commit op (fun n => (view n).store) s.store).1 = s'.store := by
  unfold completeMutationTool at h
  split at h
  case h_1 store domain data' hcomplete =>
    obtain ⟨rfl, -⟩ := Prod.mk.inj h
    obtain ⟨outcome, happly, hrow⟩ := completePersonalStateMutationTool_ok hcomplete
    exact ⟨outcome, happly, hrow, _, commit_of_complete hcomplete happly⟩
  case h_2 =>
    obtain ⟨-, hreply⟩ := Prod.mk.inj h
    cases hreply

/-- A mutation is committed or rolled back. -/
theorem completeMutationTool_cases (call : MutationCall δ) (view : ℕ → Bound δ) (s : Bound δ) :
    (∃ data, (completeMutationTool call view s).2 = .committed data) ∨
      ∃ error, completeMutationTool call view s = (s, .raised error) := by
  unfold completeMutationTool
  split
  · exact .inl ⟨_, rfl⟩
  · exact .inr ⟨_, rfl⟩

/-- The row that a successful completion finds. -/
theorem exists_row_of_completeRow {c : ToolClaim} {result : Dict} {now : Timestamp}
    {store store' : Store} (h : completeRow c result true now store = .ok store') :
    ∃ e ∈ store.toolExecutions,
      ToolExecutionRepository.completeWhere c.runId c.actionId c.owner c.claimToken e = true ∧
        ToolExecutionRepository.settledValues result true now e ∈ store'.toolExecutions := by
  obtain ⟨hcompleted, rfl⟩ := completeRow_ok h
  obtain ⟨e, he, hp⟩ := Table.exists_of_rowcount_eq_one
    (p := ToolExecutionRepository.completeWhere c.runId c.actionId c.owner c.claimToken)
    (t := store.toolExecutions) (by simpa [ToolExecutionRepository.complete] using hcompleted)
  exact ⟨e, he, hp, Table.mem_update_of_pos he hp⟩

/-- A committed mutation moves the row of its action. -/
theorem movesRow_of_completeRow {result : Dict}
    (h : completeRow call.claim result true call.now s.store = .ok s'.store) :
    call.MovesRow s.store s'.store := by
  obtain ⟨e, he, hp, he'⟩ := exists_row_of_completeRow h
  simp only [ToolExecutionRepository.completeWhere, decide_eq_true_eq] at hp
  obtain ⟨hrun, haction, hstatus, -, htoken⟩ := hp
  exact ⟨e, he, _, he', rfl, hrun, haction, htoken, hstatus, rfl⟩

/-- A transaction that changes nothing moves no row. -/
theorem MutationCall.not_movesRow_self (call : MutationCall δ) (store : Store) :
    ¬call.MovesRow store store := by
  rintro ⟨e, he, e', he', hid, -, -, -, hbefore, hafter⟩
  rw [toolExecution_ext he' he hid, hbefore] at hafter
  cases hafter

/-- The mutation commits if and only if its transaction moves the row. -/
theorem committed_iff_movesRow (call : MutationCall δ) (view : ℕ → Bound δ) (s : Bound δ) :
    (∃ data, (completeMutationTool call view s).2 = .committed data) ↔
      call.MovesRow s.store (completeMutationTool call view s).1.store := by
  constructor
  · rintro ⟨data, hreply⟩
    obtain ⟨outcome, -, hrow, -⟩ := completeMutationTool_committed (Prod.ext rfl hreply)
    exact movesRow_of_completeRow hrow
  · intro hmoves
    rcases completeMutationTool_cases call view s with hcommitted | ⟨error, hraised⟩
    · exact hcommitted
    · rw [hraised] at hmoves
      exact absurd hmoves (call.not_movesRow_self s.store)

/-! ## A claim that was taken over -/

namespace TakenOver

/-- A row that is not in progress any more. -/
theorem update {p : ToolExecution → Bool} {f : ToolExecution → ToolExecution} {hrows}
    (hrun : ∀ e, (f e).runId = e.runId) (haction : ∀ e, (f e).actionId = e.actionId)
    (hover : ∀ e ∈ t, p e = true → e.runId = runId → e.actionId = actionId →
      (f e).status ≠ .inProgress ∨ (f e).claimToken ≠ token)
    (h : TakenOver runId actionId token t) :
    TakenOver runId actionId token ⟨t.rows.map (Table.updateRow p f), hrows⟩ := by
  intro e' he' hrun' haction'
  obtain ⟨e, he, rfl⟩ := List.mem_map.mp he'
  cases hp : p e with
  | true =>
    rw [Table.updateRow_pos hp] at hrun' haction' ⊢
    exact hover e he hp ((hrun e).symm.trans hrun') ((haction e).symm.trans haction')
  | false =>
    rw [Table.updateRow_neg hp] at hrun' haction' ⊢
    exact h e he hrun' haction'

/-- A token stays taken over, unless a claim of the action draws it again. -/
theorem effect {op : Op} {reply : Reply} (hview : LedgerLater (stores 1).toolExecutions t)
    (h : LedgerEffect stores op t t' reply)
    (hdraws : (BoundOp.runtime op : BoundOp δ).draws runId actionId token = false)
    (hover : TakenOver runId actionId token t) : TakenOver runId actionId token t' := by
  cases h with
  | idle => exact hover
  | @add c fresh _ _ habsent hins =>
    intro e he hrun haction
    rcases (Table.mem_insert? hins).mp he with he | rfl
    · exact hover e he hrun haction
    · refine .inr fun htoken => ?_
      simp only [BoundOp.draws, decide_eq_false_iff_not] at hdraws
      exact hdraws ⟨hrun, haction, htoken⟩
  | markUnknown =>
    refine hover.update (fun _ => rfl) (fun _ => rfl)
      fun e he hp hrun haction => ?_
    exact .inl fun hstatus => by cases hstatus
  | @takeover c fresh _ existing acquired hread hsafe hlease hacquired =>
    refine hover.update (fun _ => rfl) (fun _ => rfl)
      fun e he hp hrun haction => ?_
    -- the row that is taken over is the row of the action that the claim names
    simp only [ToolExecutionRepository.takeoverIfExpiredWhere, decide_eq_true_eq] at hp
    obtain ⟨hmem, hrun', haction'⟩ := ToolExecutionRepository.get_eq_some hread
    have hlater := hview.row hmem he hp.1
    refine .inr fun htoken => ?_
    simp only [BoundOp.draws, decide_eq_false_iff_not] at hdraws
    exact hdraws ⟨hrun'.symm.trans (hlater.runId.symm.trans hrun),
      haction'.symm.trans (hlater.actionId.symm.trans haction), htoken⟩
  | @complete _ c result succeeded now _ _ hop _ _ =>
    refine hover.update (fun _ => rfl) (fun _ => rfl)
      fun e he hp hrun haction => ?_
    exact .inl fun hstatus =>
      not_settled_of_inProgress hstatus (settledValues_settled result succeeded now e)
  | @reconcile _ _ _ result succeeded providerRequestId now _ execution =>
    refine hover.update (fun _ => rfl) (fun _ => rfl)
      fun e he hp hrun haction => ?_
    exact .inl fun hstatus => not_settled_of_inProgress hstatus
      (reconcileUnknownValues_settled result succeeded providerRequestId now e)

/-- A mutation hands no token out. -/
theorem mutation (hover : TakenOver runId actionId token s.store.toolExecutions) :
    TakenOver runId actionId token (completeMutationTool call view s).1.store.toolExecutions := by
  rcases completeMutationTool_cases call view s with ⟨data, hreply⟩ | ⟨error, hraised⟩
  · obtain ⟨outcome, -, hrow, -⟩ := completeMutationTool_committed (Prod.ext rfl hreply)
    obtain ⟨-, hstore⟩ := completeRow_ok hrow
    rw [hstore]
    refine hover.update (fun _ => rfl) (fun _ => rfl)
      fun e he hp hrun haction => ?_
    exact .inl fun hstatus => not_settled_of_inProgress hstatus (settledValues_settled _ _ _ e)
  · rw [hraised]
    exact hover

/-- Every transaction that does not draw the token leaves it taken over. -/
theorem commit (hview : LedgerLater (view 1).store.toolExecutions s.store.toolExecutions)
    (hdraws : op.draws runId actionId token = false)
    (hover : TakenOver runId actionId token s.store.toolExecutions) :
    TakenOver runId actionId token (op.commit view s).1.store.toolExecutions := by
  cases op with
  | runtime op =>
    exact hover.effect hview
      (commit_toolExecutions op (fun n => (view n).store) s.store) hdraws
  | client f => exact hover
  | mutation call => exact hover.mutation

/-- A mutation under a token that was taken over is rolled back. -/
theorem rolledBack (hover : TakenOver call.claim.runId call.claim.actionId call.claim.claimToken
    s.store.toolExecutions) : (completeMutationTool call view s).1 = s := by
  rcases completeMutationTool_cases call view s with ⟨data, hreply⟩ | ⟨error, hraised⟩
  · obtain ⟨e, he, -, -, -, hrun, haction, htoken, hstatus, -⟩ :=
      (committed_iff_movesRow call view s).mp ⟨data, hreply⟩
    rcases hover e he hrun haction with hsettled | hother
    · exact absurd hstatus hsettled
    · exact absurd htoken hother
  · rw [hraised]

end TakenOver

/-! ## Every history -/

/-- Every transaction is, seen from the Runtime, one of its own or none. -/
theorem BoundOp.commit_store (op : BoundOp δ) (view : ℕ → Bound δ) (s : Bound δ) :
    (op.commit view s).1.store = s.store ∨
      ∃ op', (op.commit view s).1.store = (Runtime.commit op' (fun n => (view n).store) s.store).1 := by
  cases op with
  | runtime op => exact .inr ⟨op, rfl⟩
  | client f => exact .inl rfl
  | mutation call =>
    rcases completeMutationTool_cases call view s with ⟨data, hreply⟩ | ⟨error, hraised⟩
    · obtain ⟨-, -, -, op', hop'⟩ := completeMutationTool_committed (Prod.ext rfl hreply)
      exact .inr ⟨op', hop'.symm⟩
    · exact .inl (congrArg (fun r => r.1.store) hraised)

/-- The ledger moves on under every transaction, as it does under those of the Runtime. -/
theorem boundSystem_stable : Program.Stable (boundSystem δ) (fun _ _ _ => True)
    (fun s => ResultsSettled s.store.toolExecutions)
    (fun v s => LedgerLater v.store.toolExecutions s.store.toolExecutions) where
  init s hs := ledger_stable.init s.store hs
  refl s := .refl _
  trans _ _ _ := .trans
  step op view s hinv hviews _ := by
    show ResultsSettled (op.commit view s).1.store.toolExecutions ∧
      LedgerLater s.store.toolExecutions (op.commit view s).1.store.toolExecutions
    rcases op.commit_store view s with hsame | ⟨op', hop'⟩
    · rw [hsame]
      exact ⟨hinv, .refl _⟩
    · rw [hop']
      exact ledger_stable.step op' (fun n => (view n).store) s.store hinv hviews trivial

/-- The row of the action is SUCCEEDED. -/
def ActionSucceeded (runId : UUID) (actionId : String) (t : Table ToolExecution) : Prop :=
  ∃ e ∈ t, e.runId = runId ∧ e.actionId = actionId ∧ e.status = .succeeded

/-- An action that succeeded has succeeded for good. -/
theorem ActionSucceeded.later (hlater : LedgerLater t t') (h : ActionSucceeded runId actionId t) :
    ActionSucceeded runId actionId t' := by
  obtain ⟨e, he, hrun, haction, hstatus⟩ := h
  obtain ⟨e', he', -, hrow⟩ := hlater e he
  obtain rfl := hrow.settled (.inl hstatus)
  exact ⟨e', he', hrun, haction, hstatus⟩

/-- The mutations committed so far fit the ledger: one at most, and then the action has succeeded. -/
def MutationsFit (replies : List (BoundOp δ × BoundReply)) (t : Table ToolExecution) : Prop :=
  ∀ runId actionId, committedMutations runId actionId replies = [] ∨
    (∃ call, committedMutations runId actionId replies = [call]) ∧ ActionSucceeded runId actionId t

/-- A transaction that commits no mutation. -/
theorem MutationsFit.keep {reply : BoundReply} (hreply : ∀ data, reply ≠ .committed data)
    (hlater : LedgerLater t t') (h : MutationsFit replies t) :
    MutationsFit ((op, reply) :: replies) t' := by
  intro runId actionId
  have hsame : committedMutations runId actionId ((op, reply) :: replies) =
      committedMutations runId actionId replies := by
    refine List.filterMap_cons_none ?_
    split
    case h_1 heq =>
      obtain ⟨-, rfl⟩ := Prod.mk.inj heq
      exact absurd rfl (hreply _)
    case h_2 => rfl
  rw [hsame]
  exact (h runId actionId).imp_right fun ⟨hone, hsucceeded⟩ => ⟨hone, hsucceeded.later hlater⟩

/-- The commit of a mutation: no other one of its action was committed, since the row was still in
progress. -/
theorem MutationsFit.mutation {data : Dict} (hmoves : call.MovesRow s.store s'.store)
    (hlater : LedgerLater s.store.toolExecutions s'.store.toolExecutions)
    (h : MutationsFit replies s.store.toolExecutions) :
    MutationsFit ((.mutation call, .committed data) :: replies) s'.store.toolExecutions := by
  obtain ⟨e, he, e', he', hid, hrun, haction, -, hbefore, hafter⟩ := hmoves
  intro runId actionId
  by_cases hkey : call.claim.runId = runId ∧ call.claim.actionId = actionId
  · obtain ⟨rfl, rfl⟩ := hkey
    have hnew : committedMutations call.claim.runId call.claim.actionId
        ((.mutation call, .committed data) :: replies) =
          call :: committedMutations call.claim.runId call.claim.actionId replies := by
      simp [committedMutations]
    have hnone : committedMutations call.claim.runId call.claim.actionId replies = [] := by
      refine (h _ _).resolve_right ?_
      rintro ⟨-, e₀, he₀, hrun₀, haction₀, hstatus₀⟩
      rw [toolExecution_action_ext he₀ he (hrun₀.trans hrun.symm) (haction₀.trans haction.symm),
        hbefore] at hstatus₀
      cases hstatus₀
    have hrow := hlater.row he he' hid
    rw [hnew, hnone]
    exact .inr ⟨⟨call, rfl⟩, e', he', hrow.runId.trans hrun, hrow.actionId.trans haction, hafter⟩
  · have hsame : committedMutations runId actionId ((.mutation call, .committed data) :: replies) =
        committedMutations runId actionId replies := by
      simp [committedMutations, hkey]
    rw [hsame]
    exact (h runId actionId).imp_right fun ⟨hone, hsucceeded⟩ => ⟨hone, hsucceeded.later hlater⟩

theorem mutationsFit {h : History (Bound δ) (BoundOp δ) BoundReply}
    (hr : (boundSystem δ).Reachable h) : MutationsFit h.replies h.cur.store.toolExecutions := by
  refine boundSystem_stable.log_induction (fun replies s => MutationsFit replies
    s.store.toolExecutions) (fun s _ runId actionId => .inl rfl) ?_ hr
  intro op view s replies hinv hviews _ hfit
  have hlater := (boundSystem_stable.step op view s hinv hviews trivial).2
  show MutationsFit ((op, (op.commit view s).2) :: replies) (op.commit view s).1.store.toolExecutions
  cases op with
  | runtime op => exact hfit.keep (fun _ hreply => nomatch hreply) hlater
  | client f => exact hfit.keep (fun _ hreply => nomatch hreply) hlater
  | mutation call =>
    rcases completeMutationTool_cases call view s with ⟨data, hreply⟩ | ⟨error, hraised⟩
    · rw [show (BoundOp.commit (.mutation call) view s).2 = .committed data from hreply]
      exact hfit.mutation ((committed_iff_movesRow call view s).mp ⟨data, hreply⟩) hlater
    · refine hfit.keep (fun data hreply => ?_) hlater
      rw [show (BoundOp.commit (.mutation call) view s).2 = .raised error from
        congrArg Prod.snd hraised] at hreply
      cases hreply

/-- In every history: of the mutations of one tool action at most one is ever committed. A mutation
is committed if and only if its own transaction moves the ledger row from IN_PROGRESS to SUCCEEDED
under the claim token of the row; it then leaves the domain as its write has it, and otherwise it
leaves everything as it was. So does a mutation whose claim was taken over. -/
theorem bound_mutation_exactly_once {h : History (Bound δ) (BoundOp δ) BoundReply}
    (hr : (boundSystem δ).Reachable h) :
    (∀ runId actionId, (committedMutations runId actionId h.replies).length ≤ 1) ∧
      ∀ (call : MutationCall δ) (view : ℕ → Bound δ), (∀ n, view n ∈ h.states) →
        ((∃ data, (completeMutationTool call view h.cur).2 = .committed data) ↔
          call.MovesRow h.cur.store (completeMutationTool call view h.cur).1.store) ∧
        ((∃ data, (completeMutationTool call view h.cur).2 = .committed data) →
          ∃ outcome, call.applyMutation (fun n => (view n).domain) h.cur.domain =
            .ok ((completeMutationTool call view h.cur).1.domain, outcome)) ∧
        ((¬∃ data, (completeMutationTool call view h.cur).2 = .committed data) →
          (completeMutationTool call view h.cur).1 = h.cur) ∧
        ∀ i : Fin h.states.length, TakenOver call.claim.runId call.claim.actionId
            call.claim.claimToken (h.stateAt i).store.toolExecutions →
          (∀ entry ∈ h.replies.take (h.states.length - 1 - i), entry.1.draws call.claim.runId
            call.claim.actionId call.claim.claimToken = false) →
          (completeMutationTool call view h.cur).1 = h.cur := by
  refine ⟨fun runId actionId => ?_, fun call view hview => ⟨committed_iff_movesRow call view h.cur,
    ?_, ?_, fun i hover hfresh => ?_⟩⟩
  · rcases mutationsFit hr runId actionId with hnone | ⟨⟨call, hone⟩, -⟩
    · simp [hnone]
    · simp [hone]
  · rintro ⟨data, hreply⟩
    obtain ⟨outcome, happly, -, -⟩ := completeMutationTool_committed (Prod.ext rfl hreply)
    exact ⟨outcome, happly⟩
  · intro hnot
    obtain ⟨error, hraised⟩ := (completeMutationTool_cases call view h.cur).resolve_left hnot
    rw [hraised]
  · refine TakenOver.rolledBack ?_
    exact boundSystem_stable.persists (fun s => TakenOver call.claim.runId call.claim.actionId
      call.claim.claimToken s.store.toolExecutions) (fun op => op.draws call.claim.runId
        call.claim.actionId call.claim.claimToken = false)
      (fun op view s _ hviews _ hdraws hover => hover.commit (hviews 1).2 hdraws) hr hfresh hover

/-- Worker `w` claims a tool action, commits its mutation, and is sent the call once more. -/
def retriedMutation : List (BoundOp ℕ) :=
  let call : MutationCall ℕ :=
    ⟨⟨1, 10, "a", "w", 30⟩, "thing_create", fun _ n => .ok (n + 1, ⟨"code", "message", [], []⟩), 2⟩
  claimedRun.map .runtime ++
    [.runtime (.claimToolExecution (unsafeClaim "w") (stampsFrom 30 0)), .mutation call,
      .mutation call]

theorem bound_mutation_exactly_once_retriedMutation :
    (committedMutations 10 "a" ((boundSystem ℕ).serial ⟨{}, 0⟩ retriedMutation).replies).length ≤ 1 ∧
      ((boundSystem ℕ).serial ⟨{}, 0⟩ retriedMutation).cur.domain = 1 :=
  ⟨(bound_mutation_exactly_once ((boundSystem ℕ).serial_reachable (s := ⟨{}, 0⟩) rfl
    retriedMutation)).1 10 "a",
    by decide⟩

end Runtime
