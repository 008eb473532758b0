import Laoshiren.Agent.Proofs.VisitProofs
import Laoshiren.Agent.Visit

/-!
# Proofs: permission to execute

The invariant says, for the place where a run stands, what its log ends with: the word of the policy on
the pending action or batch, the question to the user, or the permission.
-/

namespace Agent

open ExecutiveGraph

variable {g : ExecutiveGraph}

/-! ## Refusals -/

theorem not_refused_nil : ¬ Refused [] := by
  rintro ⟨_, _, _, h⟩
  cases h

theorem not_refused_concat {log : List GraphEvent} {event : GraphEvent}
    (h : ∀ call decision, event = .evaluated call decision →
      decision ≠ .deny ∧ decision ≠ .requireMoreContext) : ¬ Refused (log ++ [event]) := by
  rintro ⟨call, decision, hdecision, hlast⟩
  rw [List.getLast?_concat, Option.some.injEq] at hlast
  obtain ⟨hdeny, hmore⟩ := h call decision hlast
  exact hdecision.elim hdeny hmore

/-- The word on a batch that is allowed fits a log that ends with no refusal. -/
theorem traced_allowAll {log : List GraphEvent} (h : Traced MayFollow log) (hlog : ¬ Refused log)
    (calls : List Call) :
    Traced MayFollow (log ++ allowAll calls) ∧ ¬ Refused (log ++ allowAll calls) := by
  refine h.append_of (Q := fun log => ¬ Refused log) hlog fun l event hevent hl => ?_
  obtain ⟨call, _, rfl⟩ := List.mem_map.mp hevent
  refine ⟨hl, not_refused_concat fun call' decision heq => ?_⟩
  cases heq
  exact ⟨by decide, by decide⟩

theorem traced_judged {log events : List GraphEvent} (h : Traced MayFollow log)
    (hlog : ¬ Refused log) (hjudged : Judged events) : Traced MayFollow (log ++ events) := by
  obtain ⟨allowed, last, rfl⟩ := hjudged
  obtain ⟨htraced, hallowed⟩ := traced_allowAll h hlog allowed
  rw [← List.append_assoc]
  cases last with
  | none =>
    rw [Option.toList_none, List.map_nil, List.append_nil]
    exact htraced
  | some judged => exact htraced.concat hallowed

/-! ## The invariant -/

/-- What the log ends with, by the place where the run stands. -/
def Gate (s : GraphState) (log : List GraphEvent) : Position → Prop
  | .next .executive | .ended | .raised _ => True
  | .next .execute => ∃ action, s.pendingAction = some action ∧ Permit action.toCall log
  | .next .confirmation => ∃ action, s.pendingAction = some action ∧
      [.evaluated action.toCall .requireConfirmation] <:+ log
  | .waiting .confirmation => ∃ action, s.pendingAction = some action ∧
      [.evaluated action.toCall .requireConfirmation, .asked action.actionId] <:+ log
  | .next .parallelExecute => allowAll s.pendingBatch <:+ log
  | .next .buildInitialContext | .next .respond | .next .askUser | .next .policy
  | .next .parallelPolicy | .waiting .askUser => ¬ Refused log
  | .waiting .buildInitialContext | .waiting .executive | .waiting .respond | .waiting .policy
  | .waiting .parallelPolicy | .waiting .execute | .waiting .parallelExecute => False

/-- A run in which nothing was executed without permission, and nothing will be next. -/
def Gated (r : GraphRun) : Prop := Traced MayFollow r.log ∧ Gate r.state r.log r.position

theorem suffix_concat {α : Type*} {l log : List α} (h : l <:+ log) (a : α) :
    l ++ [a] <:+ log ++ [a] := by
  obtain ⟨pre, rfl⟩ := h
  exact ⟨pre, by rw [List.append_assoc]⟩

theorem suffix_singleton {α : Type*} (log : List α) (a : α) : [a] <:+ log ++ [a] := ⟨log, rfl⟩

/-- What ends with the question of an action ends with no refusal. -/
theorem not_refused_of_suffix {log l : List GraphEvent} {event : GraphEvent}
    (h : l ++ [event] <:+ log)
    (hevent : ∀ call decision, event = .evaluated call decision →
      decision ≠ .deny ∧ decision ≠ .requireMoreContext) : ¬ Refused log := by
  obtain ⟨pre, rfl⟩ := h
  rw [← List.append_assoc]
  exact not_refused_concat hevent

/-- A visit of the node that is next keeps the invariant. -/
theorem Gated.visit_next {s : GraphState} {node : Node} {log events : List GraphEvent}
    {result : NodeResult} (h : Gated ⟨s, .next node, log⟩)
    (hvisit : Visit g s node none events result) : Gated (land node s (log ++ events) result) := by
  obtain ⟨htraced, hgate⟩ := h
  cases hvisit with
  | raises error =>
    rw [List.append_nil]
    exact ⟨htraced, trivial⟩
  | raisesInBatch error hjudged => exact ⟨traced_judged htraced hgate hjudged, trivial⟩
  | begins =>
    rw [List.append_nil]
    exact ⟨htraced, trivial⟩
  | failsToDecide => exact ⟨htraced.concat trivial, trivial⟩
  | decides _ _ messages prefetchedState contextManifest d =>
    refine ⟨htraced.concat trivial, ?_⟩
    have hrefused : ¬ Refused (log ++ [.decided]) := not_refused_concat (by simp)
    show Gate _ _ (routed _ _)
    rw [routed_eq rfl (by cases d.kind <;> decide)]
    cases d.kind <;> exact hrefused
  | responds =>
    rw [List.append_nil]
    exact ⟨htraced, trivial⟩
  | asks =>
    rw [List.append_nil]
    exact ⟨htraced, hgate⟩
  | turnsBack result hnode hjudged =>
    have hrefused : ¬ Refused log := by rcases hnode with rfl | rfl <;> exact hgate
    refine ⟨traced_judged htraced hrefused hjudged, ?_⟩
    rcases hnode with rfl | rfl <;> trivial
  | permits pending =>
    exact ⟨htraced.concat hgate, pending, rfl, Or.inl (suffix_singleton _ _)⟩
  | questions pending => exact ⟨htraced.concat hgate, pending, rfl, suffix_singleton _ _⟩
  | permitsBatch indexed =>
    exact ⟨(traced_allowAll htraced hgate _).1, List.suffix_append _ _⟩
  | stops haction =>
    obtain ⟨action, haction', hsuffix⟩ := hgate
    obtain rfl : _ = action := Option.some.inj (haction.symm.trans haction')
    have hrefused : ¬ Refused log :=
      not_refused_of_suffix (l := []) hsuffix (by rintro _ _ ⟨⟩; exact ⟨by decide, by decide⟩)
    exact ⟨htraced.concat hrefused, _, haction, suffix_concat hsuffix _⟩
  | failsToExecute haction =>
    obtain ⟨action, haction', hpermit⟩ := hgate
    obtain rfl : _ = action := Option.some.inj (haction.symm.trans haction')
    exact ⟨htraced.concat hpermit, trivial⟩
  | executes haction =>
    obtain ⟨action, haction', hpermit⟩ := hgate
    obtain rfl : _ = action := Option.some.inj (haction.symm.trans haction')
    exact ⟨htraced.concat hpermit, trivial⟩
  | executesBatch => exact ⟨htraced.concat hgate, trivial⟩

/-- A visit of a node that is resumed keeps the invariant. -/
theorem Gated.visit_resumed {s : GraphState} {node : Node} {log events : List GraphEvent}
    {result : NodeResult} {value : Json} {token : String} (h : Gated ⟨s, .waiting node, log⟩)
    (hvisit : Visit g (claimedBy token s) node (some value) events result) :
    Gated (land node (claimedBy token s) (log ++ events) result) := by
  obtain ⟨htraced, hgate⟩ := h
  cases hvisit with
  | raises error =>
    rw [List.append_nil]
    exact ⟨htraced, trivial⟩
  | hears =>
    rw [List.append_nil]
    exact ⟨htraced, trivial⟩
  | confirms haction hvalue =>
    obtain ⟨action, haction', hsuffix⟩ := hgate
    obtain rfl : _ = action := Option.some.inj (haction.symm.trans haction')
    have hrefused : ¬ Refused log :=
      not_refused_of_suffix (l := [_]) hsuffix (by simp)
    exact ⟨htraced.concat hrefused, _, haction, Or.inr ⟨_, hvalue, suffix_concat hsuffix _⟩⟩
  | declines haction =>
    obtain ⟨action, haction', hsuffix⟩ := hgate
    obtain rfl : _ = action := Option.some.inj (haction.symm.trans haction')
    have hrefused : ¬ Refused log :=
      not_refused_of_suffix (l := [_]) hsuffix (by simp)
    exact ⟨htraced.concat hrefused, trivial⟩
  | turnsBack _ hnode => rcases hnode with rfl | rfl <;> exact hgate.elim
  | raisesInBatch | begins | failsToDecide | decides | responds | permits | questions | permitsBatch
  | failsToExecute | executes | executesBatch => exact hgate.elim

theorem Gated.step {r r' : GraphRun} (h : Gated r) (hstep : Step g r r') : Gated r' := by
  cases hstep with
  | next hvisit => exact h.visit_next hvisit
  | resumed hvisit => exact h.visit_resumed hvisit

theorem gated_run (g : ExecutiveGraph) (i : InitialInput) (turns : ℕ → Turn) (n : ℕ) :
    Gated (g.run i.start turns n) := by
  refine Machine.run_invariant ⟨Traced.nil, not_refused_nil⟩ (fun r t h => ?_) turns n
  by_cases hfinal : r.position.final = true
  · rw [step_of_final hfinal]
    exact h
  · exact h.step (step_of_not_final hfinal t)

end Agent
