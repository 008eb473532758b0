import Laoshiren.Agent.Proofs.VisitProofs

/-!
# Proofs: a batch that is accepted can be executed

The node that executes a batch checks the budgets again, on the calls that the batch keeps. They are no
more than the calls that were checked before, and none of them is external: a read-only tool has the
replay policy of one. So the only check that may still fail is whether the state had gone beyond its
external actions already, and a run never does.
-/

namespace Agent

open Raise ExecutiveGraph

variable {g : ExecutiveGraph} {s : GraphState} {specs kept : List ToolCallSpec} {limits : BatchLimits}

namespace ExecutiveGraph

/-! ## The second check of a batch -/

/-- A read-only tool is not external. -/
theorem isExternal_of_read {name : String} {d : ToolDefinition} (hget : g.tools.get name = some d)
    (hread : d.risk = .read) : g.isExternal name = false := by
  have hfits : d.ReplayFits := g.tools.replay d (ToolRegistry.mem_of_get hget).1
  have hreplay : d.replayPolicy = .readOnly := hfits.mp hread
  unfold isExternal
  rw [hget, Option.any_some, hreplay]
  rfl

/-- No call of an accepted batch is external. -/
theorem externalCount_of_accepted (h : AcceptedBatch g.tools specs limits kept) :
    g.externalCount (g.withBatch s kept).pendingBatch = 0 := by
  refine List.countP_eq_zero.mpr fun call hcall => ?_
  obtain ⟨indexed, hindexed, rfl⟩ := List.mem_map.mp hcall
  obtain ⟨d, hget, _, hread⟩ := h.kept_reads _ (List.fst_mem_of_mem_zipIdx hindexed)
  exact Bool.eq_false_iff.mp (isExternal_of_read hget hread)

theorem batchLimits_ok (h : g.batchLimits s = .ok limits) :
    g.toolLimit s = .ok limits.maxToolCalls ∧ limits.toolCallCount = s.toolCallCount := by
  simp only [batchLimits, bind_eq_ok, pure_eq_ok] at h
  obtain ⟨toolLimit, htool, _, _, rfl⟩ := h
  exact ⟨htool, rfl⟩

/-- The calls of an accepted batch are within the tool-call budget. -/
theorem calls_le_of_accepted (hlimits : g.batchLimits s = .ok limits)
    (h : AcceptedBatch g.tools specs limits kept) :
    (s.toolCallCount : ℤ) + (g.withBatch s kept).pendingBatch.length ≤ limits.maxToolCalls := by
  have hfew : (g.withBatch s kept).pendingBatch.length ≤ specs.length := by
    show (kept.zipIdx.map (g.batchCall s)).length ≤ specs.length
    rw [List.length_map, List.length_zipIdx]
    exact h.kept_length_le
  have hcalls := h.calls_le
  rw [(batchLimits_ok hlimits).2] at hcalls
  omega

/-- The second check of an accepted batch: only the external actions of the state are left to fail. -/
theorem admitBatch_of_accepted (hlimits : g.batchLimits s = .ok limits)
    (h : AcceptedBatch g.tools specs limits kept) :
    g.admitBatch (g.withBatch s kept) = (do
      let externalLimit ← g.externalLimit s
      ensure (.budgetExceeded "Executive external-action budget exceeded.")
        ((s.externalActionCount : ℤ) ≤ externalLimit)) := by
  have hnonempty : (g.withBatch s kept).pendingBatch ≠ [] := by
    have hkept : kept ≠ [] := by
      rw [h.kept_eq]
      exact firstOccurrences_ne_nil h.nonempty
    show kept.zipIdx.map (g.batchCall s) ≠ []
    simpa using hkept
  have htool : g.toolLimit (g.withBatch s kept) = .ok limits.maxToolCalls :=
    (batchLimits_ok hlimits).1
  unfold admitBatch
  rw [bind_of_ensure hnonempty, bind_of_ok htool]
  show (g.externalLimit s >>= _) = _
  cases g.externalLimit s with
  | error error => rfl
  | ok externalLimit =>
    refine (bind_of_ensure (calls_le_of_accepted hlimits h) _).trans ?_
    rw [externalCount_of_accepted h, Nat.cast_zero, add_zero]
    rfl

/-- The execution of a batch raises what its check raises, and nothing else. -/
theorem parallelExecute_raises_iff {t : Turn} {error : AgentError} :
    (g.parallelExecute s t).2 = .raises error ↔ g.admitBatch s = .error error := by
  unfold parallelExecute
  cases g.admitBatch s with
  | error other => simp
  | ok _ => simp

/-- The execution of an accepted batch exceeds a budget only where its state had gone beyond its
external actions. -/
theorem parallelExecute_exceeds_iff {t : Turn} {message : String}
    (hlimits : g.batchLimits s = .ok limits) (h : AcceptedBatch g.tools specs limits kept) :
    (g.parallelExecute (g.withBatch s kept) t).2 = .raises (.budgetExceeded message) ↔
      message = "Executive external-action budget exceeded." ∧
        ∃ limit, g.externalLimit s = .ok limit ∧ limit < s.externalActionCount := by
  rw [parallelExecute_raises_iff, admitBatch_of_accepted hlimits h]
  rw [bind_eq_error]
  constructor
  · rintro (hraises | ⟨limit, hlimit, hexceeds⟩)
    · exact absurd (orRaise_eq_error.mp hraises).1 (by simp)
    · obtain ⟨hmessage, hlt⟩ := ensure_eq_error.mp hexceeds
      exact ⟨(AgentError.budgetExceeded.inj hmessage).symm, limit, hlimit, Int.not_le.mp hlt⟩
  · rintro ⟨rfl, limit, hlimit, hlt⟩
    exact Or.inr ⟨limit, hlimit, ensure_eq_error.mpr ⟨rfl, Int.not_le.mpr hlt⟩⟩

/-! ## The external actions of a run -/

/-- A visit keeps the external actions within their limit. -/
theorem withinExternalLimit_visit {node : Node} {resume : Option Json} {events : List GraphEvent}
    {s' : GraphState} (h : Visit g s node resume events (.update s'))
    (hwithin : g.WithinExternalLimit s) : g.WithinExternalLimit s' := by
  cases h with
  | @executes _ action _ externalLimit _ _ hexternal _ hroom =>
    intro limit hlimit
    obtain rfl : externalLimit = limit := Except.ok.inj (hexternal.symm.trans hlimit)
    show ((s.externalActionCount + if g.isExternal action.toolName then 1 else 0 : ℕ) : ℤ) ≤ _
    have hle := hwithin externalLimit hexternal
    split
    · rename_i hisExternal
      have hlt := hroom hisExternal
      omega
    · omega
  | @executesBatch _ _ externalLimit _ hexternal _ hroom =>
    intro limit hlimit
    obtain rfl : externalLimit = limit := Except.ok.inj (hexternal.symm.trans hlimit)
    show ((s.externalActionCount + g.externalCount s.pendingBatch : ℕ) : ℤ) ≤ _
    omega
  | begins | decides | responds | hears | turnsBack | permits | questions | permitsBatch | confirms
  | declines => exact hwithin

/-- A visit leaves the external actions within their limit, whatever comes of it. -/
theorem withinExternalLimit_land {node : Node} {resume : Option Json} {events : List GraphEvent}
    {result : NodeResult} (log : List GraphEvent) (h : Visit g s node resume events result)
    (hwithin : g.WithinExternalLimit s) : g.WithinExternalLimit (land node s log result).state := by
  cases result with
  | update s' => exact withinExternalLimit_visit h hwithin
  | interrupt payload => exact hwithin
  | raises error => exact hwithin

theorem withinExternalLimit_step {r : GraphRun} (t : Turn) (h : g.WithinExternalLimit r.state) :
    g.WithinExternalLimit (g.step r t).state := by
  by_cases hfinal : r.position.final = true
  · rw [step_of_final hfinal]
    exact h
  · have hstep := g.step_of_not_final hfinal t
    generalize g.step r t = r' at hstep ⊢
    cases hstep with
    | next hvisit => exact withinExternalLimit_land _ hvisit h
    | resumed hvisit => exact withinExternalLimit_land _ hvisit h

/-- A run never goes beyond its external actions. -/
theorem withinExternalLimit_run {i : InitialInput} (turns : ℕ → Turn) (n : ℕ)
    (hlimit : ∀ limit, g.externalLimit i.start.state = .ok limit → 0 ≤ limit) :
    g.WithinExternalLimit (g.run i.start turns n).state :=
  Machine.run_invariant (I := fun r : GraphRun => g.WithinExternalLimit r.state) hlimit
    (fun _ t h => withinExternalLimit_step t h) turns n

end ExecutiveGraph

/-! ## Batches that are accepted -/

/-- Three searches of which the first two differ in the order of their arguments only. -/
def threeSearches : List ToolCallSpec :=
  [⟨"search_web", [("limit", .num 5), ("query", .str "tea")]⟩,
    ⟨"search_web", [("query", .str "tea"), ("limit", .num 5)]⟩,
    ⟨"search_web", [("query", .str "water")]⟩]

/-- The limits at the start of a run. -/
def freshLimits : BatchLimits where
  toolCallCount := 0
  maxToolCalls := 8
  parallelReadMax := 4
  searchCountInRun := 0
  searchMaxPerRun := 6

end Agent
