import Laoshiren.Agent.Proofs.BatchProofs
import Laoshiren.Agent.Visit

/-!
# Proofs: the quota of searches

Node by node, how many searches a visit adds to the count of the tool results, and how many of them it
made. A search that is made alone is counted once; a batch counts each of its searches twice, in its own
result and in the result of the batch; a search that is turned back is counted although it is not made.
-/

namespace Agent

open Raise ExecutiveGraph

variable {g : ExecutiveGraph} {s s' : GraphState} {t : Turn} {resume : Option Json} {name : String}

/-! ## The searches of one result -/

/-- One search, if the tool is one. -/
def oneIfSearch (name : String) : ℕ := if countsAsSearch name then 1 else 0

/-- The searches that a state has counted. -/
def counted (s : GraphState) : ℕ := countSearchToolsInResults s.toolResults

theorem countSearchToolsInResults_append (results results' : List Dict) :
    countSearchToolsInResults (results ++ results') =
      countSearchToolsInResults results + countSearchToolsInResults results' := by
  unfold countSearchToolsInResults
  rw [List.map_append, List.sum_append]

theorem countSearchToolsInResults_singleton (result : Dict) :
    countSearchToolsInResults [result] = searchesIn result := by
  simp [countSearchToolsInResults]

/-- A result of a single tool. -/
theorem searchesIn_of_name {result : Dict} (hname : result.get "tool_name" = some (.str name))
    (hbatch : result.get "batch_tool_names" = none) : searchesIn result = oneIfSearch name := by
  unfold searchesIn oneIfSearch
  rw [hname, hbatch]
  cases hsearch : countsAsSearch name <;> simp [Json.asStr?, hsearch]

/-- A record of a tool that was not executed counts as if it was. -/
theorem searchesIn_blocked (status : ToolStatus) (code message : String) :
    searchesIn (blocked status code message (some name)) = oneIfSearch name := by
  refine searchesIn_of_name ?_ ?_
  · rw [blocked, Dict.get_ofFields]
    simp [List.lookup_cons]
  · rw [blocked, Dict.get_ofFields]
    simp [List.lookup_cons]

theorem searchesIn_blocked_none (status : ToolStatus) (code message : String) :
    searchesIn (blocked status code message none) = 0 := by
  have hname : (blocked status code message none).get "tool_name" = none := by
    rw [blocked, Dict.get_ofFields]
    simp [List.lookup_cons]
  have hbatch : (blocked status code message none).get "batch_tool_names" = none := by
    rw [blocked, Dict.get_ofFields]
    simp [List.lookup_cons]
  simp [searchesIn, hname, hbatch]

theorem searchesIn_withToolName (result : ToolResult) (name : String) :
    searchesIn (withToolName result.asDict name) = oneIfSearch name := by
  refine searchesIn_of_name (Dict.get_set_self _ _ _) ?_
  rw [withToolName, Dict.get_set_ne (by decide), ToolResult.asDict, Dict.get_ofFields]
  simp [List.lookup_cons]

/-- The result that stands for a batch counts the searches of the batch. -/
theorem searchesIn_combined (calls : List Call) (results : List Dict) :
    searchesIn (combined calls results) =
      calls.countP fun call => countsAsSearch call.toolName := by
  have hname : (combined calls results).get "tool_name" = none := by
    rw [combined, Dict.get_ofFields]
    simp [List.lookup_cons]
  have hbatch : (combined calls results).get "batch_tool_names" =
      some (ToolResult.texts (calls.map Call.toolName)) := by
    rw [combined, Dict.get_ofFields]
    simp [List.lookup_cons]
  have hnames : ((calls.map Call.toolName).map Json.str).filterMap Json.asStr? =
      calls.map Call.toolName := by
    rw [List.filterMap_map]
    exact List.filterMap_some
  unfold searchesIn
  rw [hname, hbatch]
  simp only [Option.bind_none, Option.any_none, Bool.false_eq_true, if_false, Option.bind_some,
    ToolResult.texts, Json.asList?, Option.getD_some, hnames, List.countP_map]
  rfl

/-! ## The executions -/

/-- The claim of an action that gets to its tool, if there is a ledger. -/
theorem claim_of_reachesTool {turn : ToolTurn} (h : g.reachesTool s turn = true)
    (hledger : g.hasLedger = true) : turn.claim = .ok (true, none) := by
  simp only [reachesTool, Bool.and_eq_true, Bool.or_eq_true, Bool.not_eq_true', hledger,
    Bool.true_eq_false, false_or, ToolTurn.acquired] at h
  obtain ⟨⟨_, hacquired⟩, _⟩ := h
  split at hacquired
  · assumption
  · cases hacquired

/-- An action that gets to its tool leaves a result of its tool. -/
theorem searchesIn_executeOne {call : Call} {turn : ToolTurn} {result : Dict}
    (hreaches : g.reachesTool s turn = true) (h : g.executeOne s call turn = .ok result) :
    searchesIn result = oneIfSearch call.toolName := by
  have hlast : ∀ answer : ToolResult, (if g.hasLedger = true ∧ answer.ledgerReceiptPersisted = false
      then do
        turn.complete
        turn.finished
        pure (withToolName answer.asDict call.toolName)
      else do
        turn.finished
        pure (withToolName answer.asDict call.toolName)) = .ok result →
        searchesIn result = oneIfSearch call.toolName := by
    intro answer hanswer
    split at hanswer
    · simp only [bind_eq_ok, pure_eq_ok] at hanswer
      obtain ⟨_, _, _, _, rfl⟩ := hanswer
      exact searchesIn_withToolName answer call.toolName
    · simp only [bind_eq_ok, pure_eq_ok] at hanswer
      obtain ⟨_, _, rfl⟩ := hanswer
      exact searchesIn_withToolName answer call.toolName
  unfold executeOne at h
  simp only [bind_eq_ok] at h
  obtain ⟨_, _, _, _, h⟩ := h
  split at h
  · rename_i hledger
    rw [claim_of_reachesTool hreaches hledger, bind_of_ok rfl] at h
    simp only [bind_eq_ok] at h
    obtain ⟨_, _, _, _, answer, _, h⟩ := h
    exact hlast answer h
  · obtain ⟨_, hclaimed, h⟩ := bind_eq_ok.mp h
    obtain rfl := pure_eq_ok.mp hclaimed
    simp only [bind_eq_ok] at h
    obtain ⟨_, _, _, _, answer, _, h⟩ := h
    exact hlast answer h

theorem searchesIn_gathered {call : Call} {turn : ToolTurn} (hreaches : g.reachesTool s turn = true) :
    searchesIn (gathered call (g.executeOne s call turn)) = oneIfSearch call.toolName := by
  cases hresult : g.executeOne s call turn with
  | ok result => exact searchesIn_executeOne hreaches hresult
  | error error => exact searchesIn_blocked _ _ _

/-- The searches among the calls that a batch took to the ledger. -/
def searchesCalled (calls : List Call) : ℕ := calls.countP fun call => countsAsSearch call.toolName

theorem countSearches_mapIdx (calls : List Call) (f : ℕ → Call → Dict)
    (hf : ∀ index call, searchesIn (f index call) = oneIfSearch call.toolName) :
    countSearchToolsInResults (calls.mapIdx f) = searchesCalled calls := by
  induction calls generalizing f with
  | nil => rfl
  | cons call calls ih =>
    have hrest := ih (fun index => f (index + 1)) fun index call => hf (index + 1) call
    rw [List.mapIdx_cons, ← List.singleton_append, countSearchToolsInResults_append,
      countSearchToolsInResults_singleton, hf, hrest, searchesCalled, searchesCalled, List.countP_cons,
      Nat.add_comm, oneIfSearch]

/-- A batch counts each of its searches twice. -/
theorem countSearches_batch (hreaches : ∀ k, g.reachesTool s (t.tool k) = true) :
    countSearchToolsInResults
        (g.batchResults s t ++ [combined s.pendingBatch (g.batchResults s t)]) =
      searchesCalled s.pendingBatch + searchesCalled s.pendingBatch := by
  rw [countSearchToolsInResults_append, countSearchToolsInResults_singleton, searchesIn_combined]
  unfold batchResults
  rw [countSearches_mapIdx _ _ fun index call => searchesIn_gathered (hreaches index)]
  rfl

/-- A batch makes each of its searches once. -/
theorem searchExecutions_batch (hreaches : ∀ k, g.reachesTool s (t.tool k) = true) {u : Unit}
    (hadmits : g.admitBatch s = .ok u) :
    g.searchExecutions .parallelExecute s t = searchesCalled s.pendingBatch := by
  unfold searchExecutions callsOf
  rw [hadmits]
  dsimp only
  simp only [hreaches, Bool.and_true]
  have hfst : s.pendingBatch.zipIdx.map Prod.fst = s.pendingBatch := List.zipIdx_map_fst 0 _
  unfold searchesCalled
  conv_rhs => rw [← hfst, List.countP_map]
  rfl

/-! ## What the policy says to a search -/

/-- The policy lets a search that it limits through until the quota is used up. -/
theorem evaluate_limited {d : ToolDefinition} {args : Dict} (henabled : d.enabled = true)
    (hlimited : d.name ∈ limitedSearches) :
    g.toolPolicy.evaluate g.py d (some s) args = (g.searchLimit s).map fun limit =>
      if limit ≤ (counted s : ℤ) then
        ⟨.deny, "SEARCH_QUOTA_EXCEEDED", "Search quota for this run has been exceeded."⟩
      else ⟨.allow, "ALLOWED", "Search is allowed."⟩ := by
  unfold limitedSearches at hlimited
  unfold ToolPolicy.evaluate
  rw [if_neg (by simp [henabled]), if_pos hlimited]
  rfl

/-- The policy looks at the risk of any other search. -/
theorem evaluate_unlimited {d : ToolDefinition} {args : Dict} (henabled : d.enabled = true)
    (hsearch : countsAsSearch d.name = true) (hlimited : d.name ∉ limitedSearches) :
    g.toolPolicy.evaluate g.py d (some s) args = some (ToolPolicy.evaluateRisk d) := by
  have hdate : d.name ∉ ["thing_date_set", "state.set_deadline"] := by
    intro hmem
    rcases List.mem_pair.mp hmem with hname | hname
    · rw [hname] at hsearch
      exact absurd hsearch (by simp [countsAsSearch])
    · rw [hname] at hsearch
      exact absurd hsearch (by simp [countsAsSearch])
  unfold limitedSearches at hlimited
  unfold ToolPolicy.evaluate
  rw [if_neg (by simp [henabled]), if_neg hlimited, if_neg hdate]

/-- The policy turns a search back exactly if it limits the search and the quota is used up. -/
theorem turnsBack_iff {d : ToolDefinition} {args : Dict} {result : PolicyResult}
    (henabled : d.enabled = true) (hsearch : countsAsSearch d.name = true)
    (h : g.toolPolicy.evaluate g.py d (some s) args = some result) :
    (result.decision = .deny ∨ result.decision = .requireMoreContext) ↔
      d.name ∈ limitedSearches ∧ g.QuotaUsedUp s (counted s) := by
  by_cases hlimited : d.name ∈ limitedSearches
  · rw [evaluate_limited henabled hlimited] at h
    obtain ⟨limit, hlimit, rfl⟩ := Option.map_eq_some_iff.mp h
    have hiff : g.QuotaUsedUp s (counted s) ↔ limit ≤ (counted s : ℤ) := by
      unfold QuotaUsedUp
      simp [hlimit]
    rw [hiff]
    split
    · rename_i hle
      simp [hlimited, hle]
    · rename_i hlt
      simp [hlimited, hlt]
  · rw [evaluate_unlimited henabled hsearch hlimited] at h
    obtain rfl := Option.some.inj h
    unfold ToolPolicy.evaluateRisk
    split <;> simp [ToolPolicy.allowed, hlimited]

/-- The policy asks the user about no search of a read-only tool. -/
theorem allow_of_read {d : ToolDefinition} {args : Dict} {result : PolicyResult}
    (henabled : d.enabled = true) (hsearch : countsAsSearch d.name = true) (hread : d.risk = .read)
    (hquota : ¬ g.QuotaUsedUp s (counted s))
    (h : g.toolPolicy.evaluate g.py d (some s) args = some result) : result.decision = .allow := by
  by_cases hlimited : d.name ∈ limitedSearches
  · rw [evaluate_limited henabled hlimited] at h
    obtain ⟨limit, hlimit, rfl⟩ := Option.map_eq_some_iff.mp h
    rw [if_neg fun hle => hquota ⟨limit, hlimit, hle⟩]
  · rw [evaluate_unlimited henabled hsearch hlimited] at h
    obtain rfl := Option.some.inj h
    unfold ToolPolicy.evaluateRisk
    rw [hread, if_neg (by simp)]
    rfl

/-! ## Node by node -/

/-- What a visit adds to the count: the searches that it made and `unmade` others, which it does not
add where it tallies and the quota is not used up. -/
def Adds (g : ExecutiveGraph) (node : Node) (resume : Option Json) (s : GraphState) (t : Turn)
    (s' : GraphState) : Prop :=
  ∃ unmade, counted s' = counted s + g.searchExecutions node s t + unmade ∧
    (unmade = 0 ↔ g.VisitTallies node resume s ∧ g.VisitWithinQuota (counted s) node s) ∧
    (g.VisitTallies node resume s → unmade ≠ 0 → g.QuotaUsedUp s (counted s))

/-- The count of a state with one more result. -/
theorem counted_backWith (result : Dict) (h : backWith s result = .update s') :
    counted s' = counted s + searchesIn result := by
  obtain rfl := NodeResult.update.inj h
  show countSearchToolsInResults (s.toolResults ++ [result]) = _
  rw [countSearchToolsInResults_append, countSearchToolsInResults_singleton]
  rfl

theorem oneIfSearch_eq_zero : oneIfSearch name = 0 ↔ countsAsSearch name = false := by
  unfold oneIfSearch
  cases countsAsSearch name <;> simp

theorem countsAsSearch_of_limited (h : name ∈ limitedSearches) : countsAsSearch name = true := by
  simp only [limitedSearches, List.mem_cons, List.not_mem_nil, or_false] at h
  rcases h with rfl | rfl | rfl | rfl <;> simp [countsAsSearch]

/-- A call that the policy turns back is counted as if it was made. -/
theorem counted_judged {pending : PendingAction} {result : PolicyResult}
    (h : judged s pending result = .update s') :
    counted s' = counted s + if result.decision = .deny ∨ result.decision = .requireMoreContext then
      oneIfSearch pending.toolName else 0 := by
  unfold judged at h
  cases hdecision : result.decision with
  | deny =>
    rw [hdecision] at h
    rw [counted_backWith _ h, searchesIn_blocked, if_pos (Or.inl rfl)]
  | requireMoreContext =>
    rw [hdecision] at h
    rw [counted_backWith _ h, searchesIn_blocked, if_pos (Or.inr rfl)]
  | requireConfirmation =>
    rw [hdecision] at h
    obtain rfl := NodeResult.update.inj h
    simp [counted]
  | allow =>
    rw [hdecision] at h
    obtain rfl := NodeResult.update.inj h
    simp [counted]

theorem policy_adds (h : (g.policy s).2 = .update s') : Adds g .policy resume s t s' := by
  have hnone : g.searchExecutions .policy s t = 0 := rfl
  unfold policy at h
  split at h
  · cases h
  rename_i decision hdecision
  split at h
  · cases h
  rename_i name hname
  have hrequested : requestedTool s = some name := by
    unfold requestedTool
    rw [hdecision, Option.bind_some, hname]
  have htallies : g.VisitTallies .policy resume s ↔
      (countsAsSearch name = true → g.Knows name) := by
    unfold VisitTallies
    simp [hrequested]
  have hwithin : g.VisitWithinQuota (counted s) .policy s ↔
      (name ∈ limitedSearches → ¬ g.QuotaUsedUp s (counted s)) := by
    unfold VisitWithinQuota
    rw [hrequested]
    refine ⟨fun h hmem => h rfl name hmem rfl, fun h _ other hmem hother => ?_⟩
    obtain rfl := Option.some.inj hother
    exact h hmem
  have hlimited : name ∈ limitedSearches → countsAsSearch name = true := countsAsSearch_of_limited
  unfold Adds
  rw [hnone, Nat.add_zero, htallies, hwithin]
  cases hget : g.tools.get name with
  | none =>
    rw [hget] at h
    have hknows : ¬ g.Knows name := by
      unfold Knows
      simp [hget]
    refine ⟨oneIfSearch name, ?_, ?_, fun htallies hunmade => ?_⟩
    · rw [counted_backWith _ h, searchesIn_blocked]
    · rw [oneIfSearch_eq_zero, Bool.eq_false_iff]
      tauto
    · rw [Ne, oneIfSearch_eq_zero, Bool.not_eq_false] at hunmade
      exact absurd (htallies hunmade) hknows
  | some d =>
    obtain ⟨_, rfl, henabled⟩ := ToolRegistry.mem_of_get hget
    have hknows : g.Knows d.name := by
      unfold Knows
      rw [hget]
      rfl
    rw [hget] at h
    dsimp only at h
    cases hevaluate : g.toolPolicy.evaluate g.py d (some s) (argumentsOf decision) with
    | none =>
      rw [hevaluate] at h
      cases h
    | some result =>
      rw [hevaluate] at h
      have hcounted := counted_judged h
      by_cases hback : result.decision = .deny ∨ result.decision = .requireMoreContext
      · rw [if_pos hback] at hcounted
        refine ⟨_, hcounted, ?_, fun _ hunmade => ?_⟩
        · rw [oneIfSearch_eq_zero]
          by_cases hsearch : countsAsSearch d.name = true
          · have hused := (turnsBack_iff henabled hsearch hevaluate).mp hback
            simp [hsearch, hused.1, hused.2]
          · simp only [Bool.eq_false_iff]
            tauto
        · rw [Ne, oneIfSearch_eq_zero, Bool.not_eq_false] at hunmade
          exact ((turnsBack_iff henabled hunmade hevaluate).mp hback).2
      · rw [if_neg hback] at hcounted
        refine ⟨0, hcounted, ?_, fun _ hunmade => absurd rfl hunmade⟩
        have hroom : d.name ∈ limitedSearches → ¬ g.QuotaUsedUp s (counted s) := by
          intro hmem hused
          exact hback ((turnsBack_iff henabled (hlimited hmem) hevaluate).mpr ⟨hmem, hused⟩)
        exact iff_of_true rfl ⟨fun _ => hknows, hroom⟩

/-- The loop over a batch stops at a call that the policy does not allow. -/
theorem evaluateBatch_blocked {index : ℕ} {specs : List ToolCallSpec} {record : Dict}
    (h : (g.evaluateBatch s index specs).2 = .error (.blocked record)) :
    ∃ spec ∈ specs, ∃ d result, g.tools.get spec.toolName = some d ∧
      g.toolPolicy.evaluate g.py d (some s) spec.toolArguments = some result ∧
      result.decision ≠ .allow ∧
      record = blocked .failed result.code result.message (some spec.toolName) := by
  induction specs generalizing index with
  | nil => cases h
  | cons spec specs ih =>
    rw [evaluateBatch] at h
    cases hget : g.tools.get spec.toolName with
    | none =>
      rw [hget] at h
      obtain ⟨spec', hspec', hblocked⟩ := ih h
      exact ⟨spec', List.mem_cons_of_mem _ hspec', hblocked⟩
    | some d =>
      rw [hget] at h
      dsimp only at h
      cases hevaluate : g.toolPolicy.evaluate g.py d (some s) spec.toolArguments with
      | none =>
        rw [hevaluate] at h
        cases h
      | some result =>
        rw [hevaluate] at h
        dsimp only at h
        by_cases hallow : result.decision = .allow
        · rw [if_neg (not_not.mpr hallow)] at h
          dsimp only at h
          cases hrest : (g.evaluateBatch s (index + 1) specs).2 with
          | ok calls =>
            rw [hrest] at h
            cases h
          | error stop =>
            rw [hrest] at h
            obtain ⟨spec', hspec', hblocked⟩ := ih (hrest.trans h)
            exact ⟨spec', List.mem_cons_of_mem _ hspec', hblocked⟩
        · rw [if_pos hallow] at h
          refine ⟨spec, List.mem_cons_self, d, result, hget, hevaluate, hallow, ?_⟩
          exact (BatchStop.blocked.inj (Except.error.inj h)).symm

/-- The quota that a batch is checked against is the one of the policy, if both have one default. -/
theorem batchLimits_search {limits : BatchLimits}
    (hquota : g.toolPolicy.searchMaxPerRun = g.searchMaxPerRun) (h : g.batchLimits s = .ok limits) :
    g.searchLimit s = some limits.searchMaxPerRun ∧ limits.searchCountInRun = counted s := by
  simp only [batchLimits, bind_eq_ok, pure_eq_ok] at h
  obtain ⟨_, _, searchLimit, hsearch, rfl⟩ := h
  refine ⟨?_, rfl⟩
  unfold ExecutiveGraph.searchLimit
  rw [hquota]
  exact orRaise_eq_ok.mp hsearch

/-- A call of an accepted batch that is a search leaves the quota with a search to make. -/
theorem not_usedUp_of_accepted {specs kept : List ToolCallSpec} {limits : BatchLimits}
    {spec : ToolCallSpec} (hquota : g.toolPolicy.searchMaxPerRun = g.searchMaxPerRun)
    (hlimits : g.batchLimits s = .ok limits) (h : AcceptedBatch g.tools specs limits kept)
    (hspec : spec ∈ kept) (hsearch : countsAsSearch spec.toolName = true) :
    ¬ g.QuotaUsedUp s (counted s) := by
  rintro ⟨limit, hlimit, hle⟩
  obtain ⟨hsame, hcount⟩ := batchLimits_search hquota hlimits
  obtain rfl : limit = limits.searchMaxPerRun := Option.some.inj (hlimit.symm.trans hsame)
  have hpos : 0 < searchesAmong kept := List.countP_pos_iff.mpr ⟨spec, hspec, hsearch⟩
  have hroom := h.searches_le
  rw [hcount] at hroom
  omega

/-- The check of a batch records no search. -/
theorem parallelPolicy_adds (hquota : g.toolPolicy.searchMaxPerRun = g.searchMaxPerRun)
    (h : (g.parallelPolicy s).2 = .update s') : Adds g .parallelPolicy resume s t s' := by
  have hsame : counted s' = counted s → Adds g .parallelPolicy resume s t s' := fun hcounted =>
    ⟨0, hcounted, iff_of_true rfl ⟨trivial, fun hnode => by cases hnode⟩,
      fun _ hunmade => absurd rfl hunmade⟩
  apply hsame
  unfold parallelPolicy at h
  split at h
  · cases h
  split at h
  · cases h
  rename_i decision _ _ limits hlimits
  dsimp only at h
  split at h
  · rw [counted_backWith _ h, searchesIn_blocked_none, Nat.add_zero]
  rename_i hok
  have haccepted := acceptedBatch_of_ok (Decidable.not_not.mp hok)
  generalize (validateParallelBatch g.tools (toolSpecsFromDecision decision) limits).specs = kept
    at h haccepted
  dsimp only at h
  cases hcalls : (g.evaluateBatch s 0 kept).2 with
  | ok calls =>
    rw [hcalls] at h
    obtain rfl := NodeResult.update.inj h
    rfl
  | error stop =>
    rw [hcalls] at h
    cases stop with
    | raises error => cases h
    | blocked record =>
      obtain ⟨spec, hspec, d, result, hget, hevaluate, hallow, rfl⟩ := evaluateBatch_blocked hcalls
      rw [counted_backWith _ h, searchesIn_blocked, Nat.add_eq_left, oneIfSearch_eq_zero,
        Bool.eq_false_iff]
      intro hsearch
      obtain ⟨d', hget', henabled, hread⟩ := haccepted.kept_reads spec hspec
      obtain rfl : d' = d := Option.some.inj (hget'.symm.trans hget)
      have hname : d'.name = spec.toolName := (ToolRegistry.mem_of_get hget).2.1
      exact hallow (allow_of_read henabled (hname ▸ hsearch) hread
        (not_usedUp_of_accepted hquota hlimits haccepted hspec hsearch) hevaluate)

/-- A search that the user declines is counted as if it was made. -/
theorem confirmation_adds (h : (confirmation s resume).2 = .update s') :
    Adds g .confirmation resume s t s' := by
  have hnone : g.searchExecutions .confirmation s t = 0 := rfl
  have hwithin : g.VisitWithinQuota (counted s) .confirmation s := fun hnode => by cases hnode
  unfold confirmation at h
  split at h
  · cases h
  rename_i action haction
  cases resume with
  | none => cases h
  | some value =>
    have htallies : g.VisitTallies .confirmation (some value) s ↔
        (countsAsSearch action.toolName = true → confirms value = true) := by
      unfold VisitTallies
      simp [haction]
    dsimp only at h
    unfold Adds
    rw [hnone, Nat.add_zero, htallies]
    cases hvalue : confirms value with
    | true =>
      rw [hvalue] at h
      obtain rfl := NodeResult.update.inj h
      exact ⟨0, rfl, iff_of_true rfl ⟨fun _ => rfl, hwithin⟩, fun _ hunmade => absurd rfl hunmade⟩
    | false =>
      rw [hvalue] at h
      refine ⟨oneIfSearch action.toolName, ?_, ?_, fun hsearches hunmade => ?_⟩
      · rw [counted_backWith _ h, searchesIn_blocked]
      · rw [oneIfSearch_eq_zero]
        simp [hwithin]
      · rw [Ne, oneIfSearch_eq_zero, Bool.not_eq_false] at hunmade
        exact absurd (hsearches hunmade) (by simp)

/-- A search that is made alone is counted once. -/
theorem execute_adds (hreaches : ∀ k, g.reachesTool s (t.tool k) = true)
    (h : (g.execute s t).2 = .update s') : Adds g .execute resume s t s' := by
  unfold execute at h
  cases hadmits : g.admitAction s with
  | error error =>
    rw [hadmits] at h
    cases h
  | ok action =>
    rw [hadmits] at h
    dsimp only at h
    have hmade : g.searchExecutions .execute s t = oneIfSearch action.toolName := by
      unfold searchExecutions callsOf
      rw [hadmits]
      simp [hreaches, oneIfSearch, List.countP_cons]
    cases hresult : g.executeOne s action.toCall (t.tool 0) with
    | error error =>
      rw [hresult] at h
      cases h
    | ok result =>
      rw [hresult] at h
      obtain rfl := NodeResult.update.inj h
      refine ⟨0, ?_, iff_of_true rfl ⟨trivial, fun hnode => by cases hnode⟩,
        fun _ hunmade => absurd rfl hunmade⟩
      rw [hmade, ← searchesIn_executeOne (hreaches 0) hresult,
        ← countSearchToolsInResults_singleton result]
      exact countSearchToolsInResults_append _ _

/-- A batch counts each of its searches twice. -/
theorem parallelExecute_adds (hreaches : ∀ k, g.reachesTool s (t.tool k) = true)
    (h : (g.parallelExecute s t).2 = .update s') : Adds g .parallelExecute resume s t s' := by
  unfold parallelExecute at h
  cases hadmits : g.admitBatch s with
  | error error =>
    rw [hadmits] at h
    cases h
  | ok u =>
    rw [hadmits] at h
    obtain rfl := NodeResult.update.inj h
    have htallies : g.VisitTallies .parallelExecute resume s ↔ searchesCalled s.pendingBatch = 0 := by
      simp [VisitTallies, searchesCalled, List.countP_eq_zero]
    refine ⟨searchesCalled s.pendingBatch, ?_, ?_, fun hnone hunmade => ?_⟩
    · rw [searchExecutions_batch hreaches hadmits, Nat.add_assoc, ← countSearches_batch hreaches]
      show countSearchToolsInResults (s.toolResults ++ _ ++ _) = _
      rw [List.append_assoc, countSearchToolsInResults_append]
      rfl
    · rw [htallies]
      exact ⟨fun hzero => ⟨hzero, fun hnode => by cases hnode⟩, fun hzero => hzero.1⟩
    · exact absurd (htallies.mp hnone) hunmade

/-- The nodes before and after the tools leave the results alone. -/
theorem Visit.same_results {node : Node} {events : List GraphEvent}
    (h : Visit g s node resume events (.update s'))
    (hnode : node ∈ [Node.buildInitialContext, .executive, .respond, .askUser]) :
    s'.toolResults = s.toolResults := by
  cases h with
  | begins | decides | responds | hears => rfl
  | turnsBack _ hpolicy =>
    rcases hpolicy with rfl | rfl
    · exact absurd hnode (by decide)
    · exact absurd hnode (by decide)
  | permits | questions | permitsBatch | confirms | declines | executes | executesBatch =>
    exact absurd hnode (by decide)

/-- What a visit adds to the count, node by node. -/
theorem visit_adds {node : Node} (hquota : g.toolPolicy.searchMaxPerRun = g.searchMaxPerRun)
    (hreaches : ∀ k, g.reachesTool s (t.tool k) = true)
    (h : (g.visit node resume s t).2 = .update s') : Adds g node resume s t s' := by
  have hvisit := visit_cases g s t resume node
  rw [h] at hvisit
  have hsame : s'.toolResults = s.toolResults → counted s' = counted s := fun hresults =>
    congrArg countSearchToolsInResults hresults
  have hother : ∀ hunmade : (0 : ℕ) ≠ 0, g.QuotaUsedUp s (counted s) := fun hunmade =>
    absurd rfl hunmade
  cases node with
  | buildInitialContext =>
    exact ⟨0, hsame (hvisit.same_results (by decide)), iff_of_true rfl ⟨trivial, nofun⟩,
      fun _ => hother⟩
  | executive =>
    exact ⟨0, hsame (hvisit.same_results (by decide)), iff_of_true rfl ⟨trivial, nofun⟩,
      fun _ => hother⟩
  | respond =>
    exact ⟨0, hsame (hvisit.same_results (by decide)), iff_of_true rfl ⟨trivial, nofun⟩,
      fun _ => hother⟩
  | askUser =>
    exact ⟨0, hsame (hvisit.same_results (by decide)), iff_of_true rfl ⟨trivial, nofun⟩,
      fun _ => hother⟩
  | policy => exact policy_adds h
  | parallelPolicy => exact parallelPolicy_adds hquota h
  | confirmation => exact confirmation_adds h
  | execute => exact execute_adds hreaches h
  | parallelExecute => exact parallelExecute_adds hreaches h

/-- A node that waits makes no search and adds none. -/
theorem interrupt_adds {node : Node} {payload : Dict}
    (h : (g.visit node resume s t).2 = .interrupt payload) : Adds g node resume s t s := by
  have hvisit := visit_cases g s t resume node
  rw [h] at hvisit
  generalize (g.visit node resume s t).1 = events at hvisit
  cases hvisit with
  | asks =>
    exact ⟨0, rfl, iff_of_true rfl ⟨trivial, nofun⟩, fun _ hunmade => absurd rfl hunmade⟩
  | stops =>
    exact ⟨0, rfl, iff_of_true rfl ⟨nofun, nofun⟩, fun _ hunmade => absurd rfl hunmade⟩

/-! ## Runs -/

/-- What a step of a run adds to the count. -/
theorem step_adds {r : GraphRun} (hquota : g.toolPolicy.searchMaxPerRun = g.searchMaxPerRun)
    (hreaches : ∀ v ∈ r.visited t, ∀ k, g.reachesTool v.2.2 (t.tool k) = true)
    (hgoes : ∀ error, (g.step r t).position ≠ .raised error) :
    ∃ unmade, counted (g.step r t).state = counted r.state + g.searchesOfStep r t + unmade ∧
      (unmade = 0 ↔ g.StepTallies r t ∧ g.StepWithinQuota (counted r.state) r t) ∧
      (g.StepTallies r t → unmade ≠ 0 → g.QuotaUsedUp r.state (counted r.state)) := by
  have hland : ∀ (node : Node) (resume : Option Json) (s : GraphState) (log : List GraphEvent),
      (∀ k, g.reachesTool s (t.tool k) = true) →
      (∀ error, (g.enter node resume s t log).position ≠ .raised error) →
        Adds g node resume s t (g.enter node resume s t log).state := by
    intro node resume s log hreaches hgoes
    unfold enter at hgoes ⊢
    dsimp only at hgoes ⊢
    cases hresult : (g.visit node resume s t).2 with
    | update s' => exact visit_adds hquota hreaches hresult
    | interrupt payload => exact interrupt_adds hresult
    | raises error =>
      rw [hresult] at hgoes
      exact absurd rfl (hgoes error)
  cases hvisited : r.visited t with
  | none =>
    have hfinal : g.step r t = r := by
      obtain ⟨s, position, log⟩ := r
      cases position with
      | next node => cases hvisited
      | waiting node => cases hvisited
      | ended => rfl
      | raised error => rfl
    have hzero : g.searchesOfStep r t = 0 := by
      unfold searchesOfStep
      rw [hvisited]
    rw [hfinal, hzero]
    refine ⟨0, rfl, iff_of_true rfl ⟨?_, ?_⟩, fun _ hunmade => absurd rfl hunmade⟩
    · intro v hv
      rw [hvisited] at hv
      cases hv
    · intro v hv
      rw [hvisited] at hv
      cases hv
  | some v =>
    obtain ⟨node, resume, s⟩ := v
    have hstep : ∃ log, g.step r t = g.enter node resume s t log ∧ counted r.state = counted s ∧
        r.state.budgetSnapshot = s.budgetSnapshot := by
      obtain ⟨s', position, log⟩ := r
      cases position with
      | next node' =>
        obtain ⟨rfl, rfl, rfl⟩ : node' = node ∧ none = resume ∧ s' = s := by
          simpa [GraphRun.visited] using hvisited
        exact ⟨log, rfl, rfl, rfl⟩
      | waiting node' =>
        obtain ⟨rfl, rfl, rfl⟩ : node' = node ∧ some t.response = resume ∧
            claimedBy t.runClaimToken s' = s := by
          simpa [GraphRun.visited] using hvisited
        exact ⟨log, rfl, rfl, rfl⟩
      | ended => cases hvisited
      | raised error => cases hvisited
    obtain ⟨log, hstep, hcounted, hbudget⟩ := hstep
    rw [hstep] at hgoes ⊢
    have hadds := hland node resume s log (hreaches (node, resume, s) hvisited) hgoes
    have hmade : g.searchesOfStep r t = g.searchExecutions node s t := by
      unfold searchesOfStep
      rw [hvisited]
    have htallies : g.StepTallies r t ↔ g.VisitTallies node resume s := by
      simp [StepTallies, hvisited]
    have hwithin : g.StepWithinQuota (counted s) r t ↔ g.VisitWithinQuota (counted s) node s := by
      simp [StepWithinQuota, hvisited]
    have hused : g.QuotaUsedUp r.state (counted s) ↔ g.QuotaUsedUp s (counted s) := by
      simp [QuotaUsedUp, searchLimit, hbudget]
    rw [hcounted, hmade, htallies, hwithin, hused]
    exact hadds

/-- A batch that is refused for the quota would exceed it. -/
theorem exceeds_of_refused {specs : List ToolCallSpec} {limits : BatchLimits}
    (h : (validateParallelBatch g.tools specs limits).code = "SEARCH_QUOTA_EXCEEDED") :
    limits.searchMaxPerRun < (limits.searchCountInRun : ℤ) + searchesAmong (firstOccurrences specs) := by
  unfold validateParallelBatch at h
  split at h
  · exact absurd h (by simp)
  split at h
  · exact absurd h (by simp)
  split at h
  · exact absurd h (by simp)
  split at h
  · rename_i refused hrefused
    have hcode := (uniqueSpecs_refused hrefused).2
    rw [h] at hcode
    exact absurd hcode (by decide)
  rename_i kept hkept
  dsimp only at h
  split at h
  · exact absurd h (by simp)
  split at h
  · rename_i hexceeds
    rw [(uniqueSpecs_ok hkept).1] at hexceeds
    exact hexceeds
  · exact absurd h (by simp)

/-- A quota that is used up stays so. -/
theorem usedUp_mono {m n : ℕ} (h : g.QuotaUsedUp s m)
    (hbudget : s'.budgetSnapshot = s.budgetSnapshot) (hle : m ≤ n) : g.QuotaUsedUp s' n := by
  obtain ⟨limit, hlimit, hm⟩ := h
  refine ⟨limit, ?_, by omega⟩
  unfold searchLimit
  rw [hbudget]
  exact hlimit

theorem step_budget (r : GraphRun) (t : Turn) :
    (g.step r t).state.budgetSnapshot = r.state.budgetSnapshot := by
  by_cases hfinal : r.position.final = true
  · rw [step_of_final hfinal]
  · exact (step_of_not_final hfinal t).keeps.2

/-- The count of a state is the number of searches made, or it is more and the quota is used up. -/
def CountsAtLeast (g : ExecutiveGraph) (s : GraphState) (searches : ℕ) : Prop :=
  searches ≤ counted s ∧ (searches = counted s ∨ g.QuotaUsedUp s searches)

/-- A state that counts the searches well enough keeps the quota. -/
theorem CountsAtLeast.quotaKept {searches : ℕ}
    (hquota : g.toolPolicy.searchMaxPerRun = g.searchMaxPerRun) (h : CountsAtLeast g s searches) :
    g.QuotaKept s searches := by
  obtain ⟨hle, hcases⟩ := h
  refine ⟨fun d args henabled hlimited => ?_, fun specs limits hlimits hpos hcode => ?_,
    fun specs limits hlimits hok => ?_⟩
  · rw [evaluate_limited henabled hlimited]
    constructor
    · rintro ⟨result, hresult, hcode⟩
      obtain ⟨limit, hlimit, rfl⟩ := Option.map_eq_some_iff.mp hresult
      rcases hcases with rfl | hused
      · refine ⟨limit, hlimit, ?_⟩
        by_contra hlt
        rw [if_neg hlt] at hcode
        exact absurd hcode (by decide)
      · exact hused
    · rintro ⟨limit, hlimit, hused⟩
      rw [hlimit, Option.map_some, if_pos (by omega)]
      exact ⟨_, rfl, rfl⟩
  · have hexceeds := exceeds_of_refused hcode
    obtain ⟨hlimit, hcount⟩ := batchLimits_search hquota hlimits
    rw [hcount] at hexceeds
    rcases hcases with rfl | ⟨limit, hlimit', hused⟩
    · exact hexceeds
    · obtain rfl : limit = limits.searchMaxPerRun := Option.some.inj (hlimit'.symm.trans hlimit)
      omega
  · have haccepted := acceptedBatch_of_ok hok
    have hroom := haccepted.searches_le
    rw [(batchLimits_search hquota hlimits).2, haccepted.kept_eq] at hroom
    omega

/-- A run makes no more searches than it counts, and a search is denied exactly where the quota is used
up, as long as no search is asked for that is not available, none is declined and no batch holds one. -/
theorem countsAtLeast_run {start : GraphRun} {turns : ℕ → Turn} {n : ℕ}
    (hquota : g.toolPolicy.searchMaxPerRun = g.searchMaxPerRun)
    (hstart : start.state.toolResults = []) (hcrashFree : g.CrashFree start turns n)
    (htallies : ∀ m < n, g.StepTallies (g.run start turns m) (turns m)) {m : ℕ} (hm : m ≤ n) :
    CountsAtLeast g (g.run start turns m).state (g.searchesOfRun start turns m) := by
  induction m with
  | zero =>
    have hzero : counted (g.run start turns 0).state = 0 := by
      show countSearchToolsInResults start.state.toolResults = 0
      rw [hstart]
      rfl
    exact ⟨Nat.zero_le _, Or.inl hzero.symm⟩
  | succ m ih =>
    obtain ⟨hle, hcases⟩ := ih (by omega)
    obtain ⟨unmade, hcounted, _, hused⟩ := step_adds hquota (hcrashFree.reaches m (by omega))
      (hcrashFree.goes (m + 1) hm)
    have hbudget := step_budget (g := g) (g.run start turns m) (turns m)
    show CountsAtLeast g (g.step (g.run start turns m) (turns m)).state
      (g.searchesOfRun start turns m + g.searchesOfStep (g.run start turns m) (turns m))
    refine ⟨by omega, ?_⟩
    rcases hcases with heq | hquotaUsed
    · by_cases hunmade : unmade = 0
      · left
        omega
      · right
        have hfull := hused (htallies m (by omega)) hunmade
        rw [← heq] at hfull
        exact usedUp_mono hfull hbudget (Nat.le_add_right _ _)
    · exact Or.inr (usedUp_mono hquotaUsed hbudget (Nat.le_add_right _ _))

/-- The searches that a run counts are the ones that it made, and a search is denied if and only if the
quota is used up, in every state of a run without a crash, exactly where no step of it asks for a search
that is not available, has the user decline one, executes a batch that holds one, or asks for one that
the policy limits once the quota is used up. The last one of these leaves the decisions right: a search
is denied if and only if the quota is used up also after it. -/
theorem searches_counted_iff (g : ExecutiveGraph)
    (hquota : g.toolPolicy.searchMaxPerRun = g.searchMaxPerRun) (i : InitialInput)
    (turns : ℕ → Turn) (n : ℕ) (hcrashFree : g.CrashFree i.start turns n) :
    ((∀ m ≤ n, countSearchToolsInResults (g.run i.start turns m).state.toolResults =
        g.searchesOfRun i.start turns m ∧
        g.QuotaKept (g.run i.start turns m).state (g.searchesOfRun i.start turns m)) ↔
      ∀ m < n, g.StepTallies (g.run i.start turns m) (turns m) ∧
        g.StepWithinQuota (g.searchesOfRun i.start turns m) (g.run i.start turns m) (turns m)) ∧
    ((∀ m < n, g.StepTallies (g.run i.start turns m) (turns m)) →
      ∀ m ≤ n, g.QuotaKept (g.run i.start turns m).state (g.searchesOfRun i.start turns m)) := by
  have hkept : (∀ m < n, g.StepTallies (g.run i.start turns m) (turns m)) →
      ∀ m ≤ n, g.QuotaKept (g.run i.start turns m).state (g.searchesOfRun i.start turns m) :=
    fun htallies m hm => (countsAtLeast_run hquota rfl hcrashFree htallies hm).quotaKept hquota
  have hstep : ∀ m < n, ∃ unmade, counted (g.run i.start turns (m + 1)).state =
      counted (g.run i.start turns m).state +
        g.searchesOfStep (g.run i.start turns m) (turns m) + unmade ∧
      (unmade = 0 ↔ g.StepTallies (g.run i.start turns m) (turns m) ∧
        g.StepWithinQuota (counted (g.run i.start turns m).state) (g.run i.start turns m)
          (turns m)) := by
    intro m hm
    obtain ⟨unmade, hcounted, hiff, _⟩ := step_adds hquota (hcrashFree.reaches m hm)
      (hcrashFree.goes (m + 1) hm)
    exact ⟨unmade, hcounted, hiff⟩
  have hmade : ∀ m, g.searchesOfRun i.start turns (m + 1) = g.searchesOfRun i.start turns m +
      g.searchesOfStep (g.run i.start turns m) (turns m) := fun m => rfl
  refine ⟨⟨fun h m hm => ?_, fun h => ?_⟩, hkept⟩
  · obtain ⟨unmade, hcounted, hiff⟩ := hstep m hm
    have hbefore : counted _ = _ := (h m (by omega)).1
    have hafter : counted _ = _ := (h (m + 1) hm).1
    rw [hmade m] at hafter
    rw [← hbefore]
    exact hiff.mp (by omega)
  · suffices hcount : ∀ m ≤ n, counted (g.run i.start turns m).state =
        g.searchesOfRun i.start turns m from
      fun m hm => ⟨hcount m hm, hkept (fun m hm => (h m hm).1) m hm⟩
    intro m hm
    induction m with
    | zero => rfl
    | succ m ih =>
      obtain ⟨unmade, hcounted, hiff⟩ := hstep m hm
      have hbefore := ih (by omega)
      obtain ⟨htallies, hwithin⟩ := h m hm
      rw [← hbefore] at hwithin
      have hzero : unmade = 0 := hiff.mpr ⟨htallies, hwithin⟩
      rw [hmade m]
      omega

/-- The model searches for tea. -/
def teaTurns : ℕ → Turn := turnsOf [searchFor "tea"] .null

theorem searches_counted_iff_tea :
    countSearchToolsInResults (searchGraph.run searchInput.start teaTurns 4).state.toolResults = 1 ∧
    searchGraph.QuotaKept (searchGraph.run searchInput.start teaTurns 4).state 1 := by
  have hreaches : ∀ m < 4, ((searchGraph.run searchInput.start teaTurns m).visited (teaTurns m)).all
      (fun v => searchGraph.reachesTool v.2.2 ((teaTurns m).tool 0)) = true := by
    decide +kernel
  have hgoes : ∀ m ≤ 4, (searchGraph.run searchInput.start teaTurns m).position.final = false := by
    decide +kernel
  have hcrashFree : searchGraph.CrashFree searchInput.start teaTurns 4 := by
    refine ⟨fun m hm v hv k => ?_, fun m hm error herror => ?_⟩
    · have hall := hreaches m hm
      rw [Option.mem_def.mp hv] at hall
      exact hall
    · have hfinal := hgoes m hm
      rw [herror] at hfinal
      cases hfinal
  have hnodes : ∀ m < 4, ((searchGraph.run searchInput.start teaTurns m).visited (teaTurns m)).all
      (fun v => decide ((v.1 = .policy ∧ requestedTool v.2.2 = some "search_web" ∧
          searchGraph.searchLimit v.2.2 = some 6 ∧
          searchGraph.searchesOfRun searchInput.start teaTurns m = 0) ∨
        v.1 ∈ [Node.buildInitialContext, .executive, .execute])) = true := by
    decide +kernel
  have hsteps : ∀ m < 4, searchGraph.StepTallies (searchGraph.run searchInput.start teaTurns m)
        (teaTurns m) ∧
      searchGraph.StepWithinQuota (searchGraph.searchesOfRun searchInput.start teaTurns m)
        (searchGraph.run searchInput.start teaTurns m) (teaTurns m) := by
    intro m hm
    have hnode := hnodes m hm
    have hcase : ∀ v ∈ (searchGraph.run searchInput.start teaTurns m).visited (teaTurns m),
        searchGraph.VisitTallies v.1 v.2.1 v.2.2 ∧ searchGraph.VisitWithinQuota
          (searchGraph.searchesOfRun searchInput.start teaTurns m) v.1 v.2.2 := by
      rintro ⟨node, resume, s⟩ hv
      rw [Option.mem_def.mp hv] at hnode
      rcases of_decide_eq_true hnode with ⟨rfl, hname, hlimit, hzero⟩ | hother
      · refine ⟨fun name hrequested _ => ?_, fun _ name _ _ hused => ?_⟩
        · obtain rfl := Option.some.inj (hname.symm.trans hrequested)
          rfl
        · obtain ⟨limit, hused, hle⟩ := hused
          obtain rfl : limit = 6 := Option.some.inj (hused.symm.trans hlimit)
          rw [hzero] at hle
          exact absurd hle (by decide)
      · simp only [List.mem_cons, List.not_mem_nil, or_false] at hother
        rcases hother with rfl | rfl | rfl
        · exact ⟨trivial, nofun⟩
        · exact ⟨trivial, nofun⟩
        · exact ⟨trivial, nofun⟩
    exact ⟨fun v hv => (hcase v hv).1, fun v hv => (hcase v hv).2⟩
  exact ((searches_counted_iff searchGraph rfl searchInput teaTurns 4 hcrashFree).1.mpr hsteps) 4
    le_rfl

/-- A batch of one search, and then a search alone. -/
def batchTurns : ℕ → Turn :=
  turnsOf [{ kind := .callTools, toolCalls := [⟨"search_web", [("query", .str "tea")]⟩] },
    searchFor "water"] .null

/-- Run 10 may search twice. -/
def twoSearches : InitialInput := { searchInput with budgetSnapshot := [("max_search_queries", .num 2)] }

/-- The one search of a batch counts twice, so that the second search of a run is denied, which may
search twice. -/
theorem batch_search_counts_twice :
    searchGraph.searchesOfRun twoSearches.start batchTurns 6 = 1 ∧
    countSearchToolsInResults (searchGraph.run twoSearches.start batchTurns 4).state.toolResults = 2 ∧
    (searchGraph.run twoSearches.start batchTurns 6).state.toolResults.getLast? =
      some (blocked .failed "SEARCH_QUOTA_EXCEEDED" "Search quota for this run has been exceeded."
        (some "search_web")) := by
  refine ⟨by decide +kernel, by decide +kernel, by decide +kernel⟩

end Agent
