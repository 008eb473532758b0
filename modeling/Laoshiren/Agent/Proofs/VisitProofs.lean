import Laoshiren.Agent.Visit
import Laoshiren.Agent.Proofs.ParallelProofs

/-!
# Proofs: what a visit of a node can do

The inversion of `visit`: node by node, every visit of the graph is a `Visit`.
-/

namespace Agent

open Raise ExecutiveGraph

variable {g : ExecutiveGraph} {s : GraphState} {t : Turn} {resume : Option Json}

theorem judged_nil : Judged [] := ⟨[], none, rfl⟩

theorem judged_last (call : Call) (decision : PolicyDecision) :
    Judged [.evaluated call decision] := ⟨[], some (call, decision), rfl⟩

theorem Judged.cons {events : List GraphEvent} (h : Judged events) (call : Call) :
    Judged (.evaluated call .allow :: events) := by
  obtain ⟨allowed, last, rfl⟩ := h
  exact ⟨call :: allowed, last, rfl⟩

namespace ExecutiveGraph

theorem invocationState_ok {invocation : GraphState} (h : g.invocationState s t = .ok invocation) :
    ∃ messages prefetchedState contextManifest,
      invocation = { s with messages, prefetchedState, contextManifest } := by
  unfold invocationState at h
  split at h
  · simp only [bind_eq_ok, pure_eq_ok] at h
    obtain ⟨_, _, context, _, rfl⟩ := h
    exact ⟨_, _, _, rfl⟩
  · obtain rfl := pure_eq_ok.mp h
    exact ⟨_, _, _, rfl⟩

theorem prepare_ok {invocation : GraphState} {inputLimit outputLimit : ℤ}
    (h : g.prepare s t = .ok (invocation, inputLimit, outputLimit)) :
    g.invocationState s t = .ok invocation ∧
      ∃ limit, g.decisionLimit s = .ok limit ∧ s.decisionCount < limit := by
  simp only [prepare, bind_eq_ok, ensure_eq_ok, pure_eq_ok, Prod.mk.injEq] at h
  obtain ⟨_, hinvocation, limit, hlimit, _, _, _, _, _, hlt, rfl, _, _⟩ := h
  exact ⟨hinvocation, limit, hlimit, hlt⟩

theorem executive_visit : Visit g s .executive resume (g.executive s t).1 (g.executive s t).2 := by
  unfold executive
  cases hprepare : g.prepare s t with
  | error error => exact .raises error
  | ok prepared =>
    obtain ⟨invocation, inputLimit, outputLimit⟩ := prepared
    obtain ⟨hinvocation, limit, hlimit, hlt⟩ := prepare_ok hprepare
    obtain ⟨messages, prefetchedState, contextManifest, rfl⟩ := invocationState_ok hinvocation
    dsimp only
    cases t.decide _ with
    | error error => exact .failsToDecide hlimit hlt error
    | ok d =>
      dsimp only
      unfold decided
      dsimp only
      split
      · exact .failsToDecide hlimit hlt _
      · exact .decides hlimit hlt messages prefetchedState contextManifest d _ _

theorem respond_visit : Visit g s .respond resume (respond s).1 (respond s).2 := by
  unfold respond
  split
  · exact .raises _
  · split
    · exact .raises _
    · exact .responds _

theorem askUser_visit : Visit g s .askUser resume (askUser s resume).1 (askUser s resume).2 := by
  unfold askUser
  split
  · exact .raises _
  · split
    · exact .raises _
    · cases resume with
      | none => exact .asks _
      | some value => exact .hears value _

theorem judged_visit (pending : PendingAction) (result : PolicyResult)
    (hknows : g.Knows pending.toolName) (hid : pending.actionId = g.actionId s pending.toolName) :
    Visit g s .policy resume [.evaluated pending.toCall result.decision]
      (judged s pending result) := by
  unfold judged
  cases result.decision with
  | deny => exact .turnsBack _ (Or.inl rfl) (judged_last _ _)
  | requireMoreContext => exact .turnsBack _ (Or.inl rfl) (judged_last _ _)
  | requireConfirmation => exact .questions pending hknows hid
  | allow => exact .permits pending hknows hid

theorem policy_visit : Visit g s .policy resume (g.policy s).1 (g.policy s).2 := by
  unfold policy
  split
  · exact .raises _
  · split
    · exact .raises _
    · split
      · exact .turnsBack _ (Or.inl rfl) judged_nil
      · rename_i name _ _ definition hget
        dsimp only
        split
        · exact .raises _
        · have hknows : g.Knows name := by
            unfold Knows
            rw [hget]
            rfl
          exact judged_visit ⟨⟨g.actionId s name, name, _⟩, definition.risk⟩ _ hknows rfl

/-- The calls that an accepted batch keeps are calls of tools that exist. -/
theorem validateParallelBatch_known {registry : ToolRegistry} {specs : List ToolCallSpec}
    {limits : BatchLimits} (h : (validateParallelBatch registry specs limits).ok = true) :
    ∀ spec ∈ (validateParallelBatch registry specs limits).specs,
      (registry.get spec.toolName).isSome = true := by
  intro spec hspec
  obtain ⟨d, hget, _⟩ := (acceptedBatch_of_ok h).kept_reads spec hspec
  rw [hget]
  rfl

/-- The loop over a batch logs what the policy said, and goes through the batch where the policy
allows every call of it. -/
theorem evaluateBatch_spec (index : ℕ) {specs : List ToolCallSpec}
    (hknows : ∀ spec ∈ specs, g.Knows spec.toolName) :
    Judged (g.evaluateBatch s index specs).1 ∧
    ∀ calls, (g.evaluateBatch s index specs).2 = .ok calls →
      calls = (specs.zipIdx index).map (g.batchCall s) ∧
        (g.evaluateBatch s index specs).1 = allowAll calls := by
  induction specs generalizing index with
  | nil =>
    refine ⟨judged_nil, fun calls hcalls => ?_⟩
    obtain rfl : [] = calls := by simpa [evaluateBatch] using hcalls
    exact ⟨rfl, rfl⟩
  | cons spec specs ih =>
    obtain ⟨hspec, hspecs⟩ := List.forall_mem_cons.mp hknows
    obtain ⟨hjudged, hok⟩ := ih (index + 1) hspecs
    obtain ⟨definition, hget⟩ := Option.isSome_iff_exists.mp hspec
    rw [evaluateBatch, hget]
    dsimp only
    cases g.toolPolicy.evaluate g.py definition (some s) spec.toolArguments with
    | none => exact ⟨judged_nil, by simp⟩
    | some result =>
      dsimp only
      by_cases hallow : result.decision = .allow
      · rw [if_neg (by simp [hallow])]
        refine ⟨hjudged.cons _, fun calls hcalls => ?_⟩
        dsimp only at hcalls ⊢
        cases hcase : (g.evaluateBatch s (index + 1) specs).2 with
        | error stop => simp [hcase, Except.map] at hcalls
        | ok rest =>
          obtain ⟨hrest, hevents⟩ := hok rest hcase
          obtain rfl : g.batchCall s (spec, index) :: rest = calls := by
            simpa [hcase, Except.map, batchCall] using hcalls
          rw [hevents, List.zipIdx_cons, List.map_cons, ← hrest]
          exact ⟨rfl, rfl⟩
      · rw [if_pos hallow]
        exact ⟨judged_last _ _, by simp⟩

theorem parallelPolicy_visit :
    Visit g s .parallelPolicy resume (g.parallelPolicy s).1 (g.parallelPolicy s).2 := by
  unfold parallelPolicy
  split
  · exact .raises _
  · split
    · exact .raises _
    · rename_i decision _ _ limits _
      dsimp only
      split
      · exact .turnsBack _ (Or.inr rfl) judged_nil
      · rename_i hvalid
        have hknows : ∀ spec ∈ (validateParallelBatch g.tools (toolSpecsFromDecision decision)
            limits).specs, g.Knows spec.toolName :=
          validateParallelBatch_known (Decidable.not_not.mp hvalid)
        generalize (validateParallelBatch g.tools (toolSpecsFromDecision decision) limits).specs =
          specs at hknows ⊢
        obtain ⟨hjudged, hok⟩ := g.evaluateBatch_spec (s := s) 0 hknows
        dsimp only
        cases hcalls : (g.evaluateBatch s 0 specs).2 with
        | error stop =>
          cases stop with
          | blocked result => exact .turnsBack result (Or.inr rfl) hjudged
          | raises error => exact .raisesInBatch error hjudged
        | ok calls =>
          obtain ⟨rfl, hevents⟩ := hok calls hcalls
          rw [hevents]
          exact .permitsBatch specs hknows

theorem confirmation_visit :
    Visit g s .confirmation resume (confirmation s resume).1 (confirmation s resume).2 := by
  unfold confirmation
  split
  · exact .raises _
  · rename_i action haction
    cases resume with
    | none => exact .stops haction _
    | some value =>
      dsimp only
      cases hvalue : confirms value with
      | true => exact .confirms haction hvalue
      | false => exact .declines haction hvalue _

theorem admitAction_ok {action : PendingAction} (h : g.admitAction s = .ok action) :
    s.pendingAction = some action ∧ ∃ toolLimit externalLimit,
      g.toolLimit s = .ok toolLimit ∧ g.externalLimit s = .ok externalLimit ∧
      s.toolCallCount < toolLimit ∧
      (g.isExternal action.toolName = true → s.externalActionCount < externalLimit) := by
  simp only [admitAction, bind_eq_ok, ensure_eq_ok, orRaise_eq_ok, pure_eq_ok] at h
  obtain ⟨toolLimit, htool, externalLimit, hexternal, _, hcount, _, haction, _, hroom, rfl⟩ := h
  exact ⟨haction, toolLimit, externalLimit, htool, hexternal, hcount, hroom⟩

theorem execute_visit : Visit g s .execute resume (g.execute s t).1 (g.execute s t).2 := by
  unfold execute
  cases hroom : g.admitAction s with
  | error error => exact .raises error
  | ok action =>
    obtain ⟨haction, _, _, htool, hexternal, hcount, hadmits⟩ := admitAction_ok hroom
    dsimp only
    cases g.executeOne s action.toCall (t.tool 0) with
    | error error => exact .failsToExecute haction htool hexternal hcount hadmits error
    | ok result => exact .executes haction htool hexternal hcount hadmits result

theorem admitBatch_ok {u : Unit} (h : g.admitBatch s = .ok u) :
    ∃ toolLimit externalLimit, g.toolLimit s = .ok toolLimit ∧
      g.externalLimit s = .ok externalLimit ∧
      (s.toolCallCount : ℤ) + s.pendingBatch.length ≤ toolLimit ∧
      (s.externalActionCount : ℤ) + g.externalCount s.pendingBatch ≤ externalLimit := by
  simp only [admitBatch, bind_eq_ok, ensure_eq_ok] at h
  obtain ⟨_, _, toolLimit, htool, externalLimit, hexternal, _, hcount, hroom⟩ := h
  exact ⟨toolLimit, externalLimit, htool, hexternal, hcount, hroom⟩

theorem parallelExecute_visit :
    Visit g s .parallelExecute resume (g.parallelExecute s t).1 (g.parallelExecute s t).2 := by
  unfold parallelExecute
  cases hroom : g.admitBatch s with
  | error error => exact .raises error
  | ok _ =>
    obtain ⟨_, _, htool, hexternal, hcount, hadmits⟩ := admitBatch_ok hroom
    dsimp only
    rw [List.append_assoc]
    exact .executesBatch htool hexternal hcount hadmits _ (by simp [batchResults])

variable (g s t resume) in
/-- Every visit of a node is one of the cases of `Visit`. -/
theorem visit_cases (node : Node) :
    Visit g s node resume (g.visit node resume s t).1 (g.visit node resume s t).2 := by
  cases node with
  | buildInitialContext => exact .begins
  | executive => exact executive_visit
  | respond => exact respond_visit
  | askUser => exact askUser_visit
  | policy => exact policy_visit
  | parallelPolicy => exact parallelPolicy_visit
  | confirmation => exact confirmation_visit
  | execute => exact execute_visit
  | parallelExecute => exact parallelExecute_visit

/-! ## Steps of a run -/

/-- A run that is not over takes a step. -/
theorem step_of_not_final {r : GraphRun} (h : ¬ r.position.final = true) (t : Turn) :
    Step g r (g.step r t) := by
  obtain ⟨s, position, log⟩ := r
  cases position with
  | next node => exact .next (visit_cases _ _ _ _ node)
  | waiting node => exact .resumed (visit_cases _ _ _ _ node)
  | ended => exact absurd rfl h
  | raised error => exact absurd rfl h

/-- A run that is over stays as it is. -/
theorem step_of_final {r : GraphRun} (h : r.position.final = true) (t : Turn) : g.step r t = r := by
  obtain ⟨s, position, log⟩ := r
  cases position with
  | next node => cases h
  | waiting node => cases h
  | ended => rfl
  | raised error => rfl

/-- A conditional edge leads where the route says. -/
theorem routed_eq {targets : List Node} {s : GraphState} {node : Node} (h : s.route = some node)
    (hmem : node ∈ targets) : routed targets s = .next node := by
  unfold routed
  rw [h, Option.filter_some, if_pos (by simpa using hmem)]

/-- The log of a run after a visit. -/
@[simp] theorem land_log (node : Node) (log : List GraphEvent) (result : NodeResult) :
    (land node s log result).log = log := by
  cases result <;> rfl

end ExecutiveGraph

/-! ## What a visit leaves alone -/

/-- A visit leaves the Run and its budget alone. -/
theorem Visit.keeps {node : Node} {events : List GraphEvent} {s' : GraphState}
    (h : Visit g s node resume events (.update s')) :
    s'.runId = s.runId ∧ s'.budgetSnapshot = s.budgetSnapshot := by
  cases h <;> exact ⟨rfl, rfl⟩

/-- A step leaves the Run and its budget alone. -/
theorem Step.keeps {r r' : GraphRun} (h : Step g r r') :
    r'.state.runId = r.state.runId ∧ r'.state.budgetSnapshot = r.state.budgetSnapshot := by
  cases h with
  | next hvisit =>
    rename_i result
    cases result with
    | update s' => exact hvisit.keeps
    | interrupt _ => exact ⟨rfl, rfl⟩
    | raises _ => exact ⟨rfl, rfl⟩
  | resumed hvisit =>
    rename_i result _ _
    cases result with
    | update s' => exact hvisit.keeps
    | interrupt _ => exact ⟨rfl, rfl⟩
    | raises _ => exact ⟨rfl, rfl⟩

@[simp] theorem presented_append (log log' : List GraphEvent) :
    presented (log ++ log') = presented log ++ presented log' := List.flatMap_append

@[simp] theorem decisionsIn_append (log log' : List GraphEvent) :
    decisionsIn (log ++ log') = decisionsIn log + decisionsIn log' := List.count_append

/-- What the policy said goes to no ledger. -/
theorem presented_of_judged {events : List GraphEvent} (h : Judged events) :
    presented events = [] := by
  obtain ⟨allowed, last, rfl⟩ := h
  refine List.flatMap_eq_nil_iff.mpr fun e he => ?_
  rcases List.mem_append.mp he with he | he
  · obtain ⟨call, _, rfl⟩ := List.mem_map.mp he
    rfl
  · obtain ⟨judged, _, rfl⟩ := List.mem_map.mp he
    rfl

/-- What the policy said invokes no model. -/
theorem decisionsIn_of_judged {events : List GraphEvent} (h : Judged events) :
    decisionsIn events = 0 := by
  obtain ⟨allowed, last, rfl⟩ := h
  refine List.count_eq_zero.mpr fun hmem => ?_
  simp [allowAll] at hmem

theorem judged_allowAll (calls : List Call) : Judged (allowAll calls) :=
  ⟨calls, none, by simp⟩

end Agent
