import Laoshiren.Runtime.System

/-!
# What the writes of a transaction change

Inversion of the writes that transactions share: a write that did not raise met the constraints of
the tables, and changed one or two of them. Appending events changes nothing of a Run but its event
counter (`Logged`).
-/

namespace Runtime

open Raise

/-! ## Looking rows up -/

theorem RunRepository.get_eq_some {userId runId : UUID} {t : Table AgentRun} {run : AgentRun}
    (h : RunRepository.get userId runId t = some run) :
    run ∈ t ∧ run.id = runId ∧ run.userId = userId := by
  obtain ⟨hmem, hp⟩ := Table.get_eq_some h
  exact ⟨hmem, by simpa using hp⟩

theorem getRun_ok {s : Store} {userId runId : UUID} {run : AgentRun}
    (h : getRun s userId runId = .ok run) :
    run ∈ s.runs ∧ run.id = runId ∧ run.userId = userId :=
  RunRepository.get_eq_some (orRaise_eq_ok.mp h)

@[simp] theorem valueErrorAsTransition_eq_ok {α : Type} {x : Except String α} {a : α} :
    valueErrorAsTransition x = .ok a ↔ x = .ok a := reraise_eq_ok

/-- Rows of one table with one id are one row. -/
theorem run_ext {t : Table AgentRun} {r r' : AgentRun} (hr : r ∈ t) (hr' : r' ∈ t)
    (h : r.id = r'.id) : r = r' := Table.eq_of_conflict hr hr' (.inl h)

theorem job_ext {t : Table DurableJob} {j j' : DurableJob} (hj : j ∈ t) (hj' : j' ∈ t)
    (h : j.id = j'.id) : j = j' := Table.eq_of_conflict hj hj' (.inl h)

theorem interaction_ext {t : Table RunInteraction} {i i' : RunInteraction} (hi : i ∈ t)
    (hi' : i' ∈ t) (h : i.id = i'.id) : i = i' := Table.eq_of_conflict hi hi' (.inl h)

theorem toolExecution_ext {t : Table ToolExecution} {e e' : ToolExecution} (he : e ∈ t)
    (he' : e' ∈ t) (h : e.id = e'.id) : e = e' := Table.eq_of_conflict he he' (.inl h)

/-- A tool action has one row. -/
theorem toolExecution_action_ext {t : Table ToolExecution} {e e' : ToolExecution} (he : e ∈ t)
    (he' : e' ∈ t) (hrun : e.runId = e'.runId) (haction : e.actionId = e'.actionId) : e = e' :=
  Table.eq_of_conflict he he' (.inr ⟨hrun, haction⟩)

/-! ## The writes -/

/-- The checks on a new job leave it as it is. -/
theorem DurableJob.postInit_ok {job job' : DurableJob} (h : job.postInit = .ok job') :
    job' = job := by
  unfold DurableJob.postInit at h
  split at h
  · cases h
  split at h
  · cases h
  exact (Except.ok.inj h).symm

namespace Store

variable {s s' : Store} {runId : UUID} {eventType : RunEventType} {data : Dict} {stamp : Stamp}
  {event : RunEvent} {run : AgentRun}

theorem appendEvent_ok (h : s.appendEvent runId eventType data stamp = .ok (s', event)) :
    ∃ sequence events, (RunRepository.nextSequence runId s.runs).2 = some sequence ∧
      event = { runId, sequence, eventType, data, id := stamp.id, occurredAt := stamp.now } ∧
      s.events.insert? event = some events ∧
      s' = { s with runs := (RunRepository.nextSequence runId s.runs).1, events } := by
  simp only [appendEvent, bind_eq_ok, orRaise_eq_ok, pure_eq_ok, Prod.mk.injEq] at h
  obtain ⟨sequence, hseq, events, hins, hs, he⟩ := h
  subst he
  exact ⟨sequence, events, hseq, rfl, hins, hs.symm⟩

theorem addMessage_ok {message : Message} (h : s.addMessage message = .ok s') :
    ∃ messages threads, s.messages.insert? message = some messages ∧
      s' = { s with messages, threads } := by
  simp only [addMessage, bind_eq_ok, orRaise_eq_ok, pure_eq_ok] at h
  obtain ⟨messages, hins, hs⟩ := h
  exact ⟨messages, _, hins, hs.symm⟩

theorem addRun_ok (h : s.addRun run = .ok s') :
    ∃ runs, RunRepository.add run s.runs = some runs ∧ s' = { s with runs } := by
  simp only [addRun, bind_eq_ok, orRaise_eq_ok, pure_eq_ok] at h
  obtain ⟨runs, hins, hs⟩ := h
  exact ⟨runs, hins, hs.symm⟩

theorem addInteraction_ok {interaction : RunInteraction}
    (h : s.addInteraction interaction = .ok s') :
    ∃ interactions, s.interactions.insert? interaction = some interactions ∧
      s' = { s with interactions } := by
  simp only [addInteraction, bind_eq_ok, orRaise_eq_ok, pure_eq_ok] at h
  obtain ⟨interactions, hins, hs⟩ := h
  exact ⟨interactions, hins, hs.symm⟩

theorem addJob_ok {job : DurableJob} (h : s.addJob job = .ok s') :
    ∃ durableJobs, s.durableJobs.insert? job = some durableJobs ∧ s' = { s with durableJobs } := by
  simp only [addJob, bind_eq_ok, orRaise_eq_ok, pure_eq_ok, reraise_eq_ok] at h
  obtain ⟨job', hjob, durableJobs, hins, hs⟩ := h
  obtain rfl := DurableJob.postInit_ok hjob
  exact ⟨durableJobs, hins, hs.symm⟩

theorem updateRun_ok {expectedVersion : ℕ} (h : s.updateRun run expectedVersion = .ok s') :
    (RunRepository.update run expectedVersion s.runs).2 = true ∧
      s' = { s with runs := (RunRepository.update run expectedVersion s.runs).1 } := by
  simp only [updateRun, bind_eq_ok, ensure_eq_ok, pure_eq_ok] at h
  obtain ⟨_, hupdated, hs⟩ := h
  exact ⟨hupdated, hs.symm⟩

theorem recordOperation_ok {operation : RunOperation}
    (h : s.recordOperation operation = .ok s') :
    ∃ operations, s.operations.insert? operation = some operations ∧
      s' = { s with operations } := by
  simp only [recordOperation, bind_eq_ok, orRaise_eq_ok, pure_eq_ok] at h
  obtain ⟨operations, hins, hs⟩ := h
  exact ⟨operations, hins, hs.symm⟩

end Store

end Runtime
