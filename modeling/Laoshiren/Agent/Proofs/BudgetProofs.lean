import Laoshiren.Agent.Proofs.VisitProofs

/-!
# Proofs: the budget of a run

A meter of the graph is a count in the state that a node checks before it spends and that takes in
what was spent. The graph has three: the decisions of the model, the tool calls, and the calls of
tools that may not be replayed. A rank of the nodes shows that a run comes to its end.
-/

namespace Agent

open ExecutiveGraph

variable {g : ExecutiveGraph}

/-! ## Meters -/

/-- A meter of the graph. -/
structure Meter (g : ExecutiveGraph) where
  /-- What a log has spent. -/
  spent : List GraphEvent → ℕ
  count : GraphState → ℕ
  limit : GraphState → ℕ
  spent_nil : spent [] = 0
  spent_append : ∀ log log', spent (log ++ log') = spent log + spent log'
  count_token : ∀ s token, count (claimedBy token s) = count s
  limit_budget : ∀ s s', s'.budgetSnapshot = s.budgetSnapshot → limit s' = limit s
  admits : ∀ s node resume events result, Visit g s node resume events result →
    spent events = 0 ∨ count s + spent events ≤ limit s
  counts : ∀ s node resume events s', Visit g s node resume events (.update s') →
    count s' = count s + spent events
  rests : ∀ s node resume events payload, Visit g s node resume events (.interrupt payload) →
    spent events = 0

namespace Meter

variable (m : Meter g)

/-- What one visit does to a meter. -/
theorem spends_land {s : GraphState} {node : Node} {resume : Option Json}
    {events : List GraphEvent} {result : NodeResult} (log : List GraphEvent)
    (h : Visit g s node resume events result) :
    ∃ k, m.spent (land node s (log ++ events) result).log = m.spent log + k ∧
      (k = 0 ∨ m.count s + k ≤ m.limit s) ∧
      ((land node s (log ++ events) result).position.final = true ∨
        m.count (land node s (log ++ events) result).state = m.count s + k) := by
  refine ⟨m.spent events, ?_, m.admits _ _ _ _ _ h, ?_⟩
  · rw [land_log, m.spent_append]
  · cases result with
    | update s' => exact Or.inr (m.counts _ _ _ _ _ h)
    | interrupt payload =>
      right
      rw [m.rests _ _ _ _ _ h]
      rfl
    | raises error => exact Or.inl rfl

/-- The meter as a meter of the machine. -/
theorem metered (budget : Dict) (limit : ℕ)
    (hlimit : ∀ s : GraphState, s.budgetSnapshot = budget → m.limit s = limit) :
    Machine.Metered g.step (fun r => r.state.budgetSnapshot = budget)
      (fun r => r.position.final = true) (fun r => m.spent r.log) (fun r => m.count r.state)
      limit where
  keeps r t hbudget := by
    by_cases hfinal : r.position.final = true
    · rw [step_of_final hfinal]
      exact hbudget
    · exact (step_of_not_final hfinal t).keeps.2.trans hbudget
  stays r t hfinal := step_of_final hfinal t
  spends r t hbudget hfinal := by
    have hstep : Step g r (g.step r t) := step_of_not_final hfinal t
    generalize g.step r t = r' at hstep ⊢
    cases hstep with
    | @next s node log events result hvisit =>
      obtain ⟨k, hk, hroom, hcount⟩ := m.spends_land log hvisit
      rw [hlimit s hbudget] at hroom
      exact ⟨k, hk, hroom, hcount⟩
    | @resumed s node log events result value token hvisit =>
      obtain ⟨k, hk, hroom, hcount⟩ := m.spends_land log hvisit
      rw [hlimit (claimedBy token s) hbudget, m.count_token] at hroom
      rw [m.count_token] at hcount
      exact ⟨k, hk, hroom, hcount⟩

/-- A run never spends more than its budget. -/
theorem spent_le (i : InitialInput) (turns : ℕ → Turn) (n : ℕ) :
    m.spent (g.run i.start turns n).log ≤ m.limit i.start.state :=
  (m.metered i.budgetSnapshot (m.limit i.start.state) fun s hs => m.limit_budget _ s hs).spent_le
    rfl m.spent_nil turns n

end Meter

/-- A count below a limit is below its allowance. -/
theorem lt_allowance {count : ℕ} {limit : ℤ} {l : Except AgentError ℤ} (hl : l = .ok limit)
    (h : (count : ℤ) < limit) : count < allowance l := by
  rw [hl]
  show count < limit.toNat
  omega

theorem add_le_allowance {count k : ℕ} {limit : ℤ} {l : Except AgentError ℤ} (hl : l = .ok limit)
    (h : (count : ℤ) + k ≤ limit) : count + k ≤ allowance l := by
  rw [hl]
  show count + k ≤ limit.toNat
  omega

theorem budgetLimit_eq {s s' : GraphState} (h : s'.budgetSnapshot = s.budgetSnapshot) (key : String)
    (default : ℤ) : g.budgetLimit s' key default = g.budgetLimit s key default := by
  unfold budgetLimit
  rw [h]

/-! ## The three meters -/

/-- The decisions of the model. -/
def decisionMeter (g : ExecutiveGraph) : Meter g where
  spent := decisionsIn
  count := GraphState.decisionCount
  limit s := allowance (g.decisionLimit s)
  spent_nil := rfl
  spent_append := decisionsIn_append
  count_token _ _ := rfl
  limit_budget _ _ h := congrArg allowance (budgetLimit_eq h _ _)
  admits s node resume events result h := by
    cases h with
    | failsToDecide hlimit hlt => exact Or.inr (lt_allowance hlimit hlt)
    | decides hlimit hlt => exact Or.inr (lt_allowance hlimit hlt)
    | raisesInBatch _ hjudged => exact Or.inl (decisionsIn_of_judged hjudged)
    | turnsBack _ _ hjudged => exact Or.inl (decisionsIn_of_judged hjudged)
    | permitsBatch => exact Or.inl (decisionsIn_of_judged (judged_allowAll _))
    | raises | begins | responds | asks | hears | permits | questions | stops | confirms | declines
    | failsToExecute | executes | executesBatch => exact Or.inl rfl
  counts s node resume events s' h := by
    cases h with
    | turnsBack _ _ hjudged =>
      rw [decisionsIn_of_judged hjudged]
      rfl
    | permitsBatch =>
      rw [decisionsIn_of_judged (judged_allowAll _)]
      rfl
    | decides | begins | responds | hears | permits | questions | confirms | declines
    | executes | executesBatch => rfl
  rests s node resume events payload h := by
    cases h <;> rfl

/-- The calls that go to the ledger. -/
def toolMeter (g : ExecutiveGraph) : Meter g where
  spent log := (presented log).length
  count := GraphState.toolCallCount
  limit s := allowance (g.toolLimit s)
  spent_nil := rfl
  spent_append log log' := by rw [presented_append, List.length_append]
  count_token _ _ := rfl
  limit_budget _ _ h := congrArg allowance (budgetLimit_eq h _ _)
  admits s node resume events result h := by
    cases h with
    | failsToExecute _ htool _ hcount => exact Or.inr (lt_allowance htool hcount)
    | executes _ htool _ hcount => exact Or.inr (lt_allowance htool hcount)
    | executesBatch htool _ hcount =>
      right
      simpa [presented, GraphEvent.calls] using add_le_allowance htool hcount
    | raisesInBatch _ hjudged => exact Or.inl (by rw [presented_of_judged hjudged]; rfl)
    | turnsBack _ _ hjudged => exact Or.inl (by rw [presented_of_judged hjudged]; rfl)
    | permitsBatch => exact Or.inl (by rw [presented_of_judged (judged_allowAll _)]; rfl)
    | raises | begins | failsToDecide | decides | responds | asks | hears | permits | questions | stops
    | confirms | declines => exact Or.inl rfl
  counts s node resume events s' h := by
    cases h with
    | turnsBack _ _ hjudged =>
      rw [presented_of_judged hjudged]
      rfl
    | permitsBatch =>
      rw [presented_of_judged (judged_allowAll _)]
      rfl
    | executesBatch => simp [presented, GraphEvent.calls]
    | begins | decides | responds | hears | permits | questions | confirms | declines | executes =>
      rfl
  rests s node resume events payload h := by
    cases h <;> rfl

/-- A call that finds room for an external action stays within the allowance. -/
theorem externalCount_executed {s : GraphState} (action : PendingAction) {limit : ℤ}
    (hlimit : g.externalLimit s = .ok limit)
    (hroom : g.isExternal action.toolName = true → s.externalActionCount < limit) :
    g.externalCount (presented [.executed action.toCall]) = 0 ∨
      s.externalActionCount + g.externalCount (presented [.executed action.toCall]) ≤
        allowance (g.externalLimit s) := by
  by_cases hexternal : g.isExternal action.toolName = true
  · right
    have hlt := lt_allowance hlimit (hroom hexternal)
    simp [externalCount, presented, GraphEvent.calls, hexternal]
    omega
  · left
    simp [externalCount, presented, GraphEvent.calls, hexternal]

/-- The calls of tools that may not be replayed. -/
def externalMeter (g : ExecutiveGraph) : Meter g where
  spent log := g.externalCount (presented log)
  count := GraphState.externalActionCount
  limit s := allowance (g.externalLimit s)
  spent_nil := rfl
  spent_append log log' := by
    unfold externalCount
    rw [presented_append, List.countP_append]
  count_token _ _ := rfl
  limit_budget _ _ h := congrArg allowance (budgetLimit_eq h _ _)
  admits s node resume events result h := by
    cases h with
    | failsToExecute _ _ hexternal _ hroom => exact externalCount_executed _ hexternal hroom
    | executes _ _ hexternal _ hroom => exact externalCount_executed _ hexternal hroom
    | executesBatch _ hexternal _ hroom =>
      right
      simpa [presented, GraphEvent.calls] using add_le_allowance hexternal hroom
    | raisesInBatch _ hjudged => exact Or.inl (by rw [presented_of_judged hjudged]; rfl)
    | turnsBack _ _ hjudged => exact Or.inl (by rw [presented_of_judged hjudged]; rfl)
    | permitsBatch => exact Or.inl (by rw [presented_of_judged (judged_allowAll _)]; rfl)
    | raises | begins | failsToDecide | decides | responds | asks | hears | permits | questions | stops
    | confirms | declines => exact Or.inl rfl
  counts s node resume events s' h := by
    cases h with
    | turnsBack _ _ hjudged =>
      rw [presented_of_judged hjudged]
      rfl
    | permitsBatch =>
      rw [presented_of_judged (judged_allowAll _)]
      rfl
    | executesBatch => simp [presented, GraphEvent.calls]
    | executes => simp [presented, GraphEvent.calls, externalCount, List.countP_cons]
    | begins | decides | responds | hears | permits | questions | confirms | declines => rfl
  rests s node resume events payload h := by
    cases h <;> rfl

/-! ## The end of a run -/

/-- The ranks go down along the edges, but for the one from `executive`, which takes a decision. -/
def Node.rank : Node → ℕ
  | .executive => 2
  | .buildInitialContext | .respond | .execute | .parallelExecute => 4
  | .askUser | .confirmation => 6
  | .policy | .parallelPolicy => 8

def Position.rank : Position → ℕ
  | .next node => node.rank
  | .waiting node => node.rank - 1
  | .ended | .raised _ => 0

/-- The decisions that are left. -/
def remaining (g : ExecutiveGraph) (s : GraphState) : ℕ :=
  allowance (g.decisionLimit s) - s.decisionCount

/-- What a run has left to do. -/
def GraphRun.measure (g : ExecutiveGraph) (r : GraphRun) : ℕ :=
  10 * remaining g r.state + r.position.rank

theorem routeOf_rank_le (kind : DecisionKind) : (routeOf kind).rank ≤ 8 := by
  cases kind <;> decide

/-- A visit brings the run closer to its end, also when it resumes a node that waited. -/
theorem Visit.goes_down {s : GraphState} {node : Node} {resume : Option Json}
    {events log : List GraphEvent} {result : NodeResult} (h : Visit g s node resume events result) :
    (land node s log result).position.final = true ∨
      (land node s log result).measure g < 10 * remaining g s + node.rank - resume.toList.length := by
  have hresume : resume.toList.length ≤ 1 := by cases resume <;> simp
  cases h with
  | raises error => exact Or.inl rfl
  | raisesInBatch error => exact Or.inl rfl
  | failsToDecide _ _ error => exact Or.inl rfl
  | failsToExecute _ _ _ _ _ error => exact Or.inl rfl
  | responds => exact Or.inl rfl
  | begins =>
    right
    show 10 * remaining g s + 2 < 10 * remaining g s + 4 - _
    omega
  | decides hlimit hlt messages prefetchedState contextManifest d =>
    right
    have hlt := lt_allowance hlimit hlt
    have hrank := routeOf_rank_le d.kind
    show 10 * (allowance (g.decisionLimit s) - (s.decisionCount + 1)) + (routed _ _).rank <
      10 * (allowance (g.decisionLimit s) - s.decisionCount) + 2 - _
    rw [routed_eq rfl (by cases d.kind <;> decide), Position.rank]
    omega
  | asks => exact Or.inr (Nat.lt_succ_self _)
  | stops => exact Or.inr (Nat.lt_succ_self _)
  | hears =>
    right
    show 10 * remaining g s + 2 < 10 * remaining g s + 6 - 1
    omega
  | turnsBack result hnode =>
    right
    have hedge : (edge node { s with
        toolResults := s.toolResults ++ [result], route := some .executive }).rank = 2 := by
      rcases hnode with rfl | rfl <;> rfl
    have hrank : node.rank = 8 := by rcases hnode with rfl | rfl <;> rfl
    show 10 * remaining g s + (edge node _).rank < _
    rw [hedge, hrank]
    omega
  | permits =>
    right
    show 10 * remaining g s + 4 < 10 * remaining g s + 8 - _
    omega
  | questions =>
    right
    show 10 * remaining g s + 6 < 10 * remaining g s + 8 - _
    omega
  | permitsBatch =>
    right
    show 10 * remaining g s + 4 < 10 * remaining g s + 8 - _
    omega
  | confirms =>
    right
    show 10 * remaining g s + 4 < 10 * remaining g s + 6 - 1
    omega
  | declines =>
    right
    show 10 * remaining g s + 2 < 10 * remaining g s + 6 - 1
    omega
  | executes =>
    right
    show 10 * remaining g s + 2 < 10 * remaining g s + 4 - _
    omega
  | executesBatch =>
    right
    show 10 * remaining g s + 2 < 10 * remaining g s + 4 - _
    omega

theorem Step.goes_down {r r' : GraphRun} (h : Step g r r') :
    r'.position.final = true ∨ r'.measure g < r.measure g := by
  cases h with
  | next hvisit => exact hvisit.goes_down
  | @resumed s node log events result value token hvisit =>
    refine hvisit.goes_down.imp id fun hlt => lt_of_lt_of_le hlt ?_
    have hpos : 0 < node.rank := by cases node <;> decide
    show 10 * remaining g s + node.rank - 1 ≤ 10 * remaining g s + (node.rank - 1)
    omega

/-- A run is over after so many nodes as its decisions allow. -/
theorem run_ends (i : InitialInput) (turns : ℕ → Turn) {n : ℕ}
    (hn : 10 * allowance (g.decisionLimit i.start.state) + 4 < n) :
    (g.run i.start turns n).position.final = true := by
  have hmeasure : i.start.measure g = 10 * allowance (g.decisionLimit i.start.state) + 4 := rfl
  have hdown : ∀ r t, True → ¬ r.position.final = true →
      (g.step r t).position.final = true ∨ (g.step r t).measure g < r.measure g :=
    fun r t _ hfinal => (step_of_not_final hfinal t).goes_down
  have hstays : ∀ (r : GraphRun) (t : Turn), r.position.final = true → g.step r t = r :=
    fun r t hfinal => step_of_final hfinal t
  rw [← hmeasure] at hn
  exact Machine.run_halts (I := fun _ => True) trivial (fun _ _ h => h) hstays hdown turns hn

/-- A run of the graph keeps to its budget, whatever the model decides, the tools do and the user
answers: the model is invoked at most `max_model_steps` times, at most `max_tool_actions` calls go to
the ledger, at most `max_external_actions` of them for tools that may not be replayed, and the run
comes to its end after finitely many nodes if the user answers whenever it waits. -/
theorem graph_run_within_budget (g : ExecutiveGraph) (i : InitialInput) (turns : ℕ → Turn) :
    (∀ n, decisionsIn (g.run i.start turns n).log ≤ allowance (g.decisionLimit i.start.state)) ∧
    (∀ n, (presented (g.run i.start turns n).log).length ≤
      allowance (g.toolLimit i.start.state)) ∧
    (∀ n, g.externalCount (presented (g.run i.start turns n).log) ≤
      allowance (g.externalLimit i.start.state)) ∧
    ∀ n, 10 * allowance (g.decisionLimit i.start.state) + 4 < n →
      (g.run i.start turns n).position.final = true :=
  ⟨(decisionMeter g).spent_le i turns, (toolMeter g).spent_le i turns,
    (externalMeter g).spent_le i turns, fun _ => run_ends i turns⟩

end Agent
