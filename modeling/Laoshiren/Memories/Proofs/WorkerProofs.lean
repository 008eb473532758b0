import Laoshiren.Memories.Proofs.DuplicateProofs
import Laoshiren.Memories.Worker
import Laoshiren.PersonalState.Proofs.MergeProofs
import Laoshiren.Runtime.Proofs.JobProofs

/-!
# Proofs: when a job of memory formation is completed

`run_once` logs an exception of the formation and completes the job all the same. So a job is completed
by a delivery that formed what was accepted if and only if the formation raised nothing, or the worker
did not get to settle the job.
-/

namespace Memories

open Runtime Raise DurableJobRepository
open PersonalState (Memory)

variable {texts : Texts} {py : Builtins} {threshold : ℚ} {env : Surroundings}
  {context : FormationContext} {candidates : List MemoryCandidate} {p : Pass}
  {event : MemoryFormationEvent} {job : DurableJob} {owner : String} {dies : Bool} {now : Timestamp}
  {t : Table DurableJob} {s : State}

/-! ## The event of a job -/

theorem idField_str {payload : Dict} {name : String} {id : UUID}
    (h : payload.get name = some (.str id.str)) : idField py payload name = .ok id := by
  rw [idField, bind_of_orRaise h]
  exact orRaise_eq_ok.mpr (UUID.parse?_str id)

/-- The job that was queued for an event gives the event back. -/
theorem eventFromJobPayload_formationJob (py : Builtins) (event : MemoryFormationEvent)
    (stamp : Stamp) : eventFromJobPayload py (formationJob event stamp).userId
      (formationJob event stamp).payload = .ok event := by
  have hfield : ∀ name value, [("run_id", Json.str event.runId.str),
      ("thread_id", .str event.threadId.str), ("source_message_id", .str event.sourceMessageId.str),
      ("user_text", .str event.userText),
      ("tool_result_codes", .arr (event.toolResultCodes.map .str))].reverse.lookup name = some value →
        (formationJob event stamp).payload.get name = some value := by
    intro name value h
    rw [formationJob, Dict.get_ofFields, h]
  unfold eventFromJobPayload
  rw [hfield "tool_result_codes" _ rfl, bind_of_ok (idField_str (hfield "run_id" _ rfl)),
    bind_of_ok (idField_str (hfield "thread_id" _ rfl)),
    bind_of_ok (idField_str (hfield "source_message_id" _ rfl)),
    bind_of_orRaise (hfield "user_text" _ rfl)]
  have hcodes : (event.toolResultCodes.map Json.str).map py.str = event.toolResultCodes := by
    rw [List.map_map]
    exact List.map_id _
  simp only [hcodes]
  rfl

/-! ## The loop -/

/-- A loop that raised nothing carried out every candidate that was accepted. -/
theorem attempts_of_form (h : ∀ attempt ∈ (form texts threshold env context candidates p).1,
    attempt.2.isOk = true) :
    (form texts threshold env context candidates p).1.map Prod.fst =
      candidates.filter fun candidate => candidate.considered texts threshold := by
  induction candidates generalizing p with
  | nil => rfl
  | cons candidate candidates ih =>
    unfold form at h ⊢
    by_cases hconsidered : candidate.considered texts threshold = true
    · rw [if_pos hconsidered] at h ⊢
      rw [List.filter_cons, if_pos hconsidered]
      rcases hresult : (candidate.carryOut texts env context).run.run p with ⟨answer, p'⟩
      rw [hresult] at h
      cases answer with
      | error error => cases h _ (.head _)
      | ok reply =>
        simp only at h ⊢
        rw [List.map_cons, ih fun attempt hattempt => h attempt (.tail _ hattempt)]
    · rw [if_neg hconsidered] at h ⊢
      rw [List.filter_cons, if_neg hconsidered]
      exact ih h

theorem isOk_iff {ε α : Type} {x : Except ε α} : x.isOk = true ↔ ∃ a, x = .ok a := by
  cases x with
  | error e => exact ⟨nofun, nofun⟩
  | ok a => exact ⟨fun _ => ⟨a, rfl⟩, fun _ => rfl⟩

/-- What was accepted is formed if and only if the formation raised nothing. -/
theorem formed_iff : (process texts threshold env event s).Formed texts threshold ↔
    (process texts threshold env event s).raised = false := by
  unfold process
  split
  next error hcandidates =>
    refine ⟨fun ⟨candidates, hnone, _⟩ => ?_, fun h => ?_⟩
    · cases hnone
    · cases h
  next candidates hcandidates =>
    have hraised : (⟨.ok candidates, (form texts threshold env ⟨event.userId, event.runId⟩ candidates
        { state := s }).1, (form texts threshold env ⟨event.userId, event.runId⟩ candidates
          { state := s }).2⟩ : Processing).raised = false ↔
        ∀ attempt ∈ (form texts threshold env ⟨event.userId, event.runId⟩ candidates
          { state := s }).1, attempt.2.isOk = true := by
      simp [Processing.raised, Except.isOk, Except.toBool]
    rw [hraised]
    constructor
    · rintro ⟨_, -, -, hall⟩ attempt hattempt
      exact isOk_iff.mpr (hall attempt hattempt)
    · intro hall
      exact ⟨candidates, rfl, attempts_of_form hall,
        fun attempt hattempt => isOk_iff.mp (hall attempt hattempt)⟩

/-! ## Settling the job -/

/-- Two rows with the id of the job are one. -/
theorem row_of_id {j j' : DurableJob} (hj : j ∈ t) (hj' : j' ∈ t) (hid : j.id = job.id)
    (hid' : j'.id = job.id) : j = j' := Table.eq_of_conflict hj hj' (.inl (hid.trans hid'.symm))

/-- A worker that still holds its job completes it. -/
theorem settle_held {j : DurableJob} (hj : j ∈ t)
    (hheld : settleWhere job.id owner job.claimEpoch now j = true) :
    (settle job.id owner job.claimEpoch .completed now none t).2 = true ∧
      settleValues .completed now none j ∈
        (settle job.id owner job.claimEpoch .completed now none t).1 := by
  have honly : t.rowcount (settleWhere job.id owner job.claimEpoch now) = 1 := by
    refine Table.rowcount_eq_one (fun r r' hr hr' => .inl ?_) hj hheld
    have hid := (heldBy_iff.mp (settleWhere_iff.mp hr).1).1
    have hid' := (heldBy_iff.mp (settleWhere_iff.mp hr').1).1
    exact hid.trans hid'.symm
  refine ⟨beq_iff_eq.mpr honly, ?_⟩
  exact List.mem_map.mpr ⟨j, hj, Table.updateRow_pos hheld⟩

/-- A worker that lost its job settles nothing. -/
theorem settle_lost (hlost : ∀ j ∈ t, settleWhere job.id owner job.claimEpoch now j ≠ true) :
    (settle job.id owner job.claimEpoch .completed now none t).2 = false := by
  refine beq_eq_false_iff_ne.mpr fun hone => ?_
  obtain ⟨j, hj, hheld⟩ := Table.exists_of_rowcount_eq_one hone
  exact hlost j hj hheld

theorem status_of_settleWhere {j : DurableJob}
    (h : settleWhere job.id owner job.claimEpoch now j = true) :
    j.id = job.id ∧ j.status = .claimed := by
  have hheld := heldBy_iff.mp (settleWhere_iff.mp h).1
  exact ⟨hheld.1, hheld.2.1⟩

/-- A delivery that leaves the jobs alone owes nothing. -/
theorem honest_of_untouched {x : Option Processing} : Honest texts threshold job t ⟨x, t⟩ := by
  refine ⟨fun j hj hid hopen j' hj' hid' hcompleted => ?_, fun _ => rfl⟩
  obtain rfl := row_of_id hj hj' hid hid'
  exact absurd hcompleted hopen

/-- The extractor takes a Memory for the water that is gone since. -/
def waterGone : Surroundings where
  store := fun _ => {}
  search := .ok []
  extract := fun _ => .ok [teaAgain]
  embed := fun _ => .ok ()
  others := fun _ s => s
  view := fun _ _ => {}
  fault := fun _ => none
  fresh := fun _ => ⟨30, 4⟩

def teaTold : MemoryFormationEvent where
  userId := 1
  runId := 5
  threadId := 2
  sourceMessageId := 3
  userText := "喝茶"
  toolResultCodes := []

/-- The job of Run 5, claimed by a worker for its first delivery. -/
def teaJob : DurableJob :=
  { formationJob teaTold ⟨20, 1⟩ with
    status := .claimed
    deliveryAttempt := 1
    claimedBy := some "worker"
    claimEpoch := 1
    leaseUntil := some 60 }

def teaJobs : Table DurableJob := ⟨[teaJob], List.pairwise_singleton _ _⟩

end Memories
