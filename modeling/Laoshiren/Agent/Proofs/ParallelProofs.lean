import Laoshiren.Agent.Parallel

/-!
# Proofs: the check of a parallel batch

The inversion of `validate_parallel_batch`: what it says of a batch that it accepts. The loop keeps the
first call of every key.
-/

namespace Agent

/-- The first occurrences are some of the calls, in their order. -/
theorem firstOccurrences_sublist (specs : List ToolCallSpec) :
    (firstOccurrences specs).Sublist specs := by
  unfold firstOccurrences
  induction hlength : specs.length using Nat.strong_induction_on generalizing specs with
  | _ n ih =>
    cases specs with
    | nil => exact .refl []
    | cons spec specs =>
      rw [List.eraseDupsBy_cons]
      have hshorter : (specs.filter fun other => sameCall other spec = false).length < n := by
        have hle := List.length_filter_le (fun other => sameCall other spec = false) specs
        rw [← hlength, List.length_cons]
        omega
      exact ((ih _ hshorter _ rfl).trans List.filter_sublist).cons_cons spec

/-- A batch with a call in it has a first one. -/
theorem firstOccurrences_ne_nil {specs : List ToolCallSpec} (h : specs ≠ []) :
    firstOccurrences specs ≠ [] := by
  unfold firstOccurrences
  cases specs with
  | nil => exact absurd rfl h
  | cons spec specs =>
    rw [List.eraseDupsBy_cons]
    exact List.cons_ne_nil _ _

variable {registry : ToolRegistry} {specs unique kept : List ToolCallSpec} {limits : BatchLimits}

/-- The loop keeps the first call of every key, and goes through calls of read-only tools only. -/
theorem uniqueSpecs_ok (h : uniqueSpecs registry unique specs = .ok kept) :
    kept = List.eraseDupsBy.loop sameCall specs unique ∧
      ∀ spec ∈ specs, ∃ d, registry.get spec.toolName = some d ∧ d.risk = .read := by
  induction specs generalizing unique with
  | nil =>
    obtain rfl : unique.reverse = kept := by simpa [uniqueSpecs] using h
    exact ⟨rfl, by simp⟩
  | cons spec specs ih =>
    rw [uniqueSpecs] at h
    cases hget : registry.get spec.toolName with
    | none => simp [hget] at h
    | some d =>
      simp only [hget] at h
      by_cases hread : d.risk = .read
      · rw [if_neg (not_not.mpr hread)] at h
        by_cases hseen : unique.any (sameCall spec) = true
        · rw [if_pos hseen] at h
          obtain ⟨hkept, hreads⟩ := ih h
          refine ⟨?_, List.forall_mem_cons.mpr ⟨⟨d, hget, hread⟩, hreads⟩⟩
          rw [hkept, List.eraseDupsBy.loop, hseen]
        · rw [if_neg hseen] at h
          obtain ⟨hkept, hreads⟩ := ih h
          refine ⟨?_, List.forall_mem_cons.mpr ⟨⟨d, hget, hread⟩, hreads⟩⟩
          rw [hkept, List.eraseDupsBy.loop, Bool.eq_false_iff.mpr hseen]
      · rw [if_pos hread] at h
        cases h

/-- A batch with an unknown tool or a write is not valid, and that is the reason that it gives. -/
theorem uniqueSpecs_refused {refused : ParallelBatchValidation}
    (h : uniqueSpecs registry unique specs = .error refused) :
    refused.ok = false ∧ refused.code ∈ ["TOOL_NOT_FOUND", "PARALLEL_WRITE_FORBIDDEN"] := by
  induction specs generalizing unique with
  | nil => simp [uniqueSpecs] at h
  | cons spec specs ih =>
    rw [uniqueSpecs] at h
    cases hget : registry.get spec.toolName with
    | none =>
      simp only [hget, Except.error.injEq] at h
      rw [← h]
      exact ⟨rfl, by simp⟩
    | some d =>
      simp only [hget] at h
      split at h
      · rw [← Except.error.inj h]
        exact ⟨rfl, by simp⟩
      · split at h
        · exact ih h
        · exact ih h

/-- What a batch meets that the check accepts. -/
theorem acceptedBatch_of_ok (h : (validateParallelBatch registry specs limits).ok = true) :
    AcceptedBatch registry specs limits (validateParallelBatch registry specs limits).specs := by
  unfold validateParallelBatch at h ⊢
  by_cases hempty : specs = []
  · simp [hempty] at h
  by_cases hsize : (specs.length : ℤ) > limits.parallelReadMax
  · simp [hempty, hsize] at h
  by_cases hcalls : (limits.toolCallCount : ℤ) + specs.length > limits.maxToolCalls
  · simp [hempty, hsize, hcalls] at h
  rw [if_neg hempty, if_neg hsize, if_neg hcalls] at h ⊢
  cases hunique : uniqueSpecs registry [] specs with
  | error refused =>
    rw [hunique] at h
    rw [(uniqueSpecs_refused hunique).1] at h
    cases h
  | ok unique =>
    rw [hunique] at h
    dsimp only at h ⊢
    by_cases htwo : (unique.countP fun spec => countsAsSearch spec.toolName) > 2
    · simp [htwo] at h
    rw [if_neg htwo] at h ⊢
    by_cases hquota : (limits.searchCountInRun : ℤ) +
        (unique.countP fun spec => countsAsSearch spec.toolName) > limits.searchMaxPerRun
    · simp [hquota] at h
    rw [if_neg hquota]
    obtain ⟨hkept, hreads⟩ := uniqueSpecs_ok hunique
    have hsearches : (limits.searchCountInRun : ℤ) + searchesAmong unique ≤ limits.searchMaxPerRun := by
      unfold searchesAmong
      omega
    refine ⟨hkept, hempty, fun spec hspec => ?_, Int.not_lt.mp hsize, Int.not_lt.mp hcalls,
      Nat.not_lt.mp htwo, hsearches⟩
    obtain ⟨d, hget, hread⟩ := hreads spec hspec
    exact ⟨d, hget, (ToolRegistry.mem_of_get hget).2.2, hread⟩

/-- The calls that are kept are calls of enabled read-only tools. -/
theorem AcceptedBatch.kept_reads (h : AcceptedBatch registry specs limits kept) :
    ∀ spec ∈ kept, ∃ d, registry.get spec.toolName = some d ∧ d.enabled = true ∧ d.risk = .read := by
  intro spec hspec
  rw [h.kept_eq] at hspec
  exact h.reads spec ((firstOccurrences_sublist specs).subset hspec)

/-- Fewer calls are kept than were asked for, or as many. -/
theorem AcceptedBatch.kept_length_le (h : AcceptedBatch registry specs limits kept) :
    kept.length ≤ specs.length := by
  rw [h.kept_eq]
  exact (firstOccurrences_sublist specs).length_le

end Agent
