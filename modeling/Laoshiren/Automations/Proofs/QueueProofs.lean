import Laoshiren.Automations.Effects

/-!
# Proofs: the jobs of Occurrences and the other clients of the Runtime

A job of an Occurrence is claimed by occurrence workers alone, so no other client settles it: it can
only sweep it when its lease is over. And no other client creates the Run of an Automation.
-/

namespace Automations

open Runtime Raise Table DurableJobRepository
open PersonalState (Calendar)

variable {op : Runtime.Op} {view : ℕ → Store} {s s' : Store} {j j' : DurableJob}
  {jobs jobs' : Table DurableJob}

/-! ## One job -/

theorem JobLater.refl (j : DurableJob) : JobLater j j := ⟨rfl, .refl j, fun _ _ => rfl⟩

theorem JobLater.trans {j₁ j₂ j₃ : DurableJob} (h : JobLater j₁ j₂) (h' : JobLater j₂ j₃) :
    JobLater j₁ j₃ where
  id := h'.id.trans h.id
  same := h.same.trans h'.same
  ended hkind hover := by
    have hstatus := h.ended hkind hover
    refine (h'.ended (h.same.kind.trans hkind) ?_).trans hstatus
    rwa [hstatus]

theorem QueueMove.refl {sweep : Option (Timestamp × (UUID → Bool))} (j : DurableJob) :
    QueueMove sweep j j := ⟨.refl j, fun _ hlive => .inl hlive, fun _ => id⟩

/-- A job of another kind moves in any way. -/
theorem QueueMove.of_kind {sweep : Option (Timestamp × (UUID → Bool))} (hid : j'.id = j.id)
    (hsame : SameJob j j') (hkind : j.kind ≠ .automationOccurrence) : QueueMove sweep j j' :=
  ⟨⟨hid, hsame, fun h => absurd h hkind⟩, fun h => absurd h hkind, fun h => absurd h hkind⟩

/-- A job goes back to the queue, or a worker claims it. -/
theorem QueueMove.of_live {sweep : Option (Timestamp × (UUID → Bool))} (hid : j'.id = j.id)
    (hsame : SameJob j j') (hlive : Live j.status) (hlive' : Live j'.status)
    (hheld : WorkerHeld j → WorkerHeld j') : QueueMove sweep j j' :=
  ⟨⟨hid, hsame, fun _ hover => absurd hlive hover⟩, fun _ _ => .inl hlive', fun _ => hheld⟩

theorem workerHeld_none (h : j.claimedBy = none) : WorkerHeld j := by
  intro owner howner
  rw [h] at howner
  cases howner

theorem live_of_expired {now : Timestamp} (h : expired now j = true) : Live j.status :=
  .inr (of_decide_eq_true h).1

theorem isPrefixOf_workerOwner (worker : UUID) :
    workerPrefix.toList.isPrefixOf (workerOwner worker).toList = true := by
  rw [workerOwner, String.toList_append, List.isPrefixOf_iff_prefix]
  exact List.prefix_append _ _

theorem not_foreignOwner (worker : UUID) : foreignOwner (workerOwner worker) = false := by
  rw [foreignOwner, isPrefixOf_workerOwner]
  rfl

/-- No other client holds the claim of a job that a worker claimed. -/
theorem not_heldBy_foreign (jobId : UUID) {owner : String} (claimEpoch : ℕ)
    (hforeign : foreignOwner owner = true) (hheld : WorkerHeld j) :
    heldBy jobId owner claimEpoch j = false := by
  by_contra h
  obtain ⟨-, -, howner, -⟩ := heldBy_iff.mp (by simpa using h)
  obtain ⟨worker, rfl⟩ := hheld owner howner
  rw [not_foreignOwner] at hforeign
  cases hforeign

/-- What a sweep makes of a job. -/
theorem QueueMove.of_swept {now : Timestamp} {reached : UUID → Bool}
    (h : SweepMove now reached j j') : QueueMove (some (now, reached)) j j' := by
  cases h with
  | kept => exact .refl j
  | requeued _ hp =>
    exact .of_live rfl ⟨rfl, rfl, rfl, rfl⟩
      (live_of_expired (Bool.and_eq_true_iff.mp hp).1) (.inl rfl) fun _ => workerHeld_none rfl
  | givenUp hreached hp =>
    have hlive := live_of_expired (Bool.and_eq_true_iff.mp hp).1
    exact ⟨⟨rfl, ⟨rfl, rfl, rfl, rfl⟩, fun _ hover => absurd hlive hover⟩,
      fun _ _ => .inr ⟨rfl, _, rfl, hreached, hp⟩, fun _ _ => workerHeld_none rfl⟩

/-- A worker claims a job. -/
theorem QueueMove.of_claimed {sweep : Option (Timestamp × (UUID → Bool))} {kind : DurableJobKind}
    {worker : UUID} {now leaseUntil : Timestamp} (hp : claimReadyWhere kind now j = true) :
    QueueMove sweep j (claimReadyValues (workerOwner worker) now leaseUntil j) := by
  obtain ⟨-, hready, -⟩ := of_decide_eq_true hp
  refine .of_live rfl ⟨rfl, rfl, rfl, rfl⟩ (.inl hready) (.inr rfl) fun _ owner howner => ?_
  exact ⟨worker, (Option.some.inj howner).symm⟩

/-! ## The queue of the workers -/

/-- What the claim of a worker makes of the jobs. -/
theorem queueMoves_claim {worker : UUID} {now leaseUntil : Timestamp} {limit : ℕ}
    {reached locked : UUID → Bool} :
    jobs.Moves (QueueMove (some (now, reached)))
      (claimReadyJobs .automationOccurrence (workerOwner worker) now leaseUntil limit reached locked
        jobs).1 := by
  refine claimMove_claimReadyJobs.imp fun j j' hmove => ?_
  cases hmove with
  | swept hmove => exact .of_swept hmove
  | claimed hmove hp =>
    cases hmove with
    | kept => exact .of_claimed hp
    | requeued _ hretry =>
      refine .of_live rfl ⟨rfl, rfl, rfl, rfl⟩
        (live_of_expired (Bool.and_eq_true_iff.mp hretry).1) (.inr rfl) fun _ owner howner => ?_
      exact ⟨worker, (Option.some.inj howner).symm⟩
    | givenUp _ _ => simp [claimReadyWhere, exhaustedValues] at hp

/-! ## Other clients -/

/-- The key of the job of a Run is not that of an Occurrence. -/
theorem agentRunKey_ne (runId occurrenceId : UUID) :
    agentRunKey runId ≠ occurrenceDedupeKey occurrenceId :=
  Text.append_ne_append (c := 'a') (d := 'A') (by simp) (by simp) (by decide) _ _

/-- Jobs of Occurrences are named after them, and workers alone hold them. -/
def Queued (jobs : Table DurableJob) : Prop :=
  ∀ j ∈ jobs, j.kind = .automationOccurrence →
    WorkerHeld j ∧ ∃ occurrenceId, j.dedupeKey = occurrenceDedupeKey occurrenceId

/-- What the claim of a worker of another kind makes of the jobs. -/
theorem queueMoves_claimOther {kind : DurableJobKind} {owner : String} {now leaseUntil : Timestamp}
    {limit : ℕ} {reached locked : UUID → Bool} (hkind : kind ≠ .automationOccurrence) :
    jobs.Moves (QueueMove (some (now, reached)))
      (claimReadyJobs kind owner now leaseUntil limit reached locked jobs).1 := by
  refine claimMove_claimReadyJobs.imp fun j j' hmove => ?_
  cases hmove with
  | swept hmove => exact .of_swept hmove
  | claimed hmove hp =>
    have hswept := (QueueMove.of_swept hmove).later
    refine .of_kind hswept.id ⟨hswept.same.userId, hswept.same.kind, hswept.same.dedupeKey,
      hswept.same.payload⟩ ?_
    rw [← hswept.same.kind, (of_decide_eq_true hp).1]
    exact hkind

/-- What another client makes of the jobs, when it claims none of a Run. -/
theorem Effect.queueMoves {x x' : Facts} (hforeign : foreign op = true)
    (hqueued : Queued x.durableJobs) (h : Runtime.Effect view op x x')
    (hop : ∀ owner lease limit now reached locked,
      op ≠ .claimAgentRunJobs owner lease limit now reached locked) :
    Grows (QueueMove op.sweep) OtherKind x.durableJobs x'.durableJobs := by
  have hheld : ∀ {jobId owner claimEpoch}, foreignOwner owner = true → ∀ j ∈ x.durableJobs,
      heldBy jobId owner claimEpoch j = true → j.kind ≠ .automationOccurrence := by
    intro jobId owner claimEpoch howner j hj hp hkind
    rw [not_heldBy_foreign _ _ howner (hqueued j hj hkind).1] at hp
    cases hp
  have hnamed : ∀ {runId}, ∀ j ∈ x.durableJobs, j.dedupeKey = agentRunKey runId →
      j.kind ≠ .automationOccurrence := by
    intro runId j hj hkey hkind
    obtain ⟨occurrenceId, hname⟩ := (hqueued j hj hkind).2
    exact agentRunKey_ne runId occurrenceId (hkey.symm.trans hname)
  cases h with
  | createRun _ _ hjob _ =>
    exact .insert? .refl ⟨(by decide : DurableJobKind.agentRun ≠ .automationOccurrence),
      (by decide : DurableJobKind.agentRun ≠ .pushDelivery)⟩ hjob
  | claimJobs hclaims =>
    rcases hclaims with rfl | ⟨_, rfl⟩
    · exact .of_moves (queueMoves_claimOther (of_decide_eq_true hforeign))
    · exact absurd rfl (hop _ _ _ _ _ _)
  | settleJob _ _ =>
    exact .update .refl fun j hj hp => .of_kind rfl ⟨rfl, rfl, rfl, rfl⟩
      (hheld hforeign j hj (settleWhere_iff.mp hp).1)
  | renewJob =>
    exact .update .refl fun j hj hp => .of_kind rfl ⟨rfl, rfl, rfl, rfl⟩ (hheld hforeign j hj hp)
  | releaseJob =>
    exact .update .refl fun j hj hp => .of_kind rfl ⟨rfl, rfl, rfl, rfl⟩
      (hheld hforeign j hj (settleWhere_iff.mp hp).1)
  | resume =>
    exact .update .refl fun j hj hp => .of_kind rfl ⟨rfl, rfl, rfl, rfl⟩
      (hnamed j hj (of_decide_eq_true hp).2.1)
  | cancel =>
    exact .update .refl fun j hj hp => .of_kind rfl ⟨rfl, rfl, rfl, rfl⟩
      (hnamed j hj (of_decide_eq_true hp).2.1)
  | _ => exact .refl .refl _

/-- What another client makes of the jobs. -/
theorem queueMoves_foreign (hforeign : foreign op = true) (hqueued : Queued s.durableJobs) :
    Grows (QueueMove op.sweep) OtherKind s.durableJobs
      (Runtime.commit op view s).1.durableJobs := by
  by_cases hop : ∃ owner lease limit now reached locked,
      op = .claimAgentRunJobs owner lease limit now reached locked
  · obtain ⟨owner, lease, limit, now, reached, locked, rfl⟩ := hop
    show Grows _ _ _ (Runtime.settled s _ (claimAgentRunJobs owner lease limit now reached locked s)).1.durableJobs
    cases h : claimAgentRunJobs owner lease limit now reached locked s with
    | error e => exact .refl .refl _
    | ok r =>
      simp only [claimAgentRunJobs, bind_eq_ok, ensure_eq_ok, pure_eq_ok] at h
      obtain ⟨_, -, _, -, rfl⟩ := h
      exact .of_moves (queueMoves_claimOther (by decide))
  · simp only [not_exists] at hop
    exact Effect.queueMoves (x := s.facts) hforeign hqueued (commit_effect op view s) hop

/-! ## Runs -/

theorem SameOrigin.refl (r : AgentRun) : SameOrigin r r := ⟨rfl, rfl, rfl, rfl⟩

theorem SameOrigin.trans {r₁ r₂ r₃ : AgentRun} (h : SameOrigin r₁ r₂) (h' : SameOrigin r₂ r₃) :
    SameOrigin r₁ r₃ :=
  ⟨h'.id.trans h.id, h'.trigger.trans h.trigger, h'.userId.trans h.userId,
    h'.idempotencyKey.trans h.idempotencyKey⟩

theorem OfUser.move {r r' : AgentRun} (h : OfUser r) (hmove : SameOrigin r r') : OfUser r' := by
  rw [OfUser, hmove.trigger]
  exact h

theorem OfUser.of_message {r : AgentRun} (h : r.trigger = .userMessage) : OfUser r := by
  rw [OfUser, h]
  decide

theorem sameOrigin_update {runs : Table AgentRun} (run : AgentRun) (version : ℕ) :
    Grows SameOrigin OfUser runs (RunRepository.update run version runs).1 :=
  .update .refl fun _ _ _ => ⟨rfl, rfl, rfl, rfl⟩

/-- A transaction that creates no Run moves the Runs that are there. -/
theorem Effect.sameOrigins {x x' : Facts} (h : Runtime.Effect view op x x')
    (hop : op.createsKey = none) : Grows SameOrigin OfUser x.runs x'.runs := by
  cases h with
  | createRun _ _ _ hkey =>
    rw [hop] at hkey
    cases hkey
  | claimRun => exact .update .refl fun _ _ _ => ⟨rfl, rfl, rfl, rfl⟩
  | renewRunLease => exact .update .refl fun _ _ _ => ⟨rfl, rfl, rfl, rfl⟩
  | recover h =>
    induction h with
    | refl => exact .refl .refl _
    | tail _ hlast ih =>
      cases hlast with
      | run _ _ _ =>
        exact ih.trans (sameOrigin_update _ _) (fun _ _ _ => .trans) fun _ _ => .move
  | advance => exact sameOrigin_update _ _
  | wait => exact sameOrigin_update _ _
  | resume => exact sameOrigin_update _ _
  | cancel => exact sameOrigin_update _ _
  | _ => exact .refl .refl _

theorem mem_facts_runs {r : AgentRun} :
    r ∈ s.facts.runs ↔ ∃ r' ∈ s.runs, r'.forgetEvents = r := List.mem_map

/-- The Runs of a store, read off its facts. -/
theorem sameOrigins_of_facts {new : AgentRun → Prop}
    (hnew : ∀ r : AgentRun, new r.forgetEvents → new r)
    (h : Grows SameOrigin new s.facts.runs s'.facts.runs) : Grows SameOrigin new s.runs s'.runs where
  kept r hr := by
    obtain ⟨_, hfact, hsame⟩ := h.kept _ (mem_facts_runs.mpr ⟨r, hr, rfl⟩)
    obtain ⟨r', hmem, rfl⟩ := mem_facts_runs.mp hfact
    exact ⟨r', hmem, hsame.id, hsame.trigger, hsame.userId, hsame.idempotencyKey⟩
  origin r' hr' := by
    rcases h.origin _ (mem_facts_runs.mpr ⟨r', hr', rfl⟩) with ⟨_, hfact, hsame⟩ | hadded
    · obtain ⟨r, hmem, rfl⟩ := mem_facts_runs.mp hfact
      exact .inl ⟨r, hmem, hsame.id, hsame.trigger, hsame.userId, hsame.idempotencyKey⟩
    · exact .inr (hnew r' hadded)

theorem createUserRun_runs {c : CreateUserRun} {budget : Dict} {sourceKnown : UUID → Bool}
    {fresh : ℕ → Stamp} {run : AgentRun}
    (h : createUserRun c budget sourceKnown fresh view s = .ok (s', run)) :
    Grows SameOrigin OfUser s.facts.runs s'.facts.runs := by
  simp only [createUserRun, bind_eq_ok, ensure_eq_ok] at h
  obtain ⟨_, _, _, _, h⟩ := h
  split at h
  · obtain ⟨rfl, -⟩ := Prod.mk.inj (pure_eq_ok.mp h)
    exact .refl .refl _
  · simp only [bind_eq_ok, ensure_eq_ok, pure_eq_ok, Prod.mk.injEq] at h
    obtain ⟨_, _, _, _, s₁, hnew, rfl, rfl⟩ := h
    obtain ⟨runs, _, hinsert, -, hfacts⟩ := commitNewRun_facts (by exact rfl) hnew
    rw [hfacts]
    exact .insert? .refl (.of_message rfl) hinsert

/-- The Run that an Occurrence triggers is the only new one, and its job the only new job. -/
theorem createAutomationRun_runs {c : CreateAutomationRun} {budget : Dict} {fresh : ℕ → Stamp}
    {run : AgentRun} (h : createAutomationRun c budget fresh view s = .ok (s', run)) :
    Grows SameOrigin (fun r => r.userId = c.userId ∧
        r.idempotencyKey = "automation-run:" ++ c.occurrenceKey) s.runs s'.runs ∧
      Grows (QueueMove none) OtherKind s.durableJobs s'.durableJobs := by
  simp only [createAutomationRun, bind_eq_ok, ensure_eq_ok] at h
  obtain ⟨_, _, _, _, h⟩ := h
  split at h
  · obtain ⟨rfl, -⟩ := Prod.mk.inj (pure_eq_ok.mp h)
    exact ⟨.refl .refl _, .refl .refl _⟩
  · simp only [bind_eq_ok, pure_eq_ok, Prod.exists, Prod.mk.injEq] at h
    obtain ⟨s₁, threadId, hthread, s₂, hnew, rfl, rfl⟩ := h
    obtain ⟨runs, jobs, hinsert, hjob, hfacts⟩ := commitNewRun_facts (by exact rfl) hnew
    have hsame := automationThread_facts hthread
    rw [hsame] at hinsert hfacts
    have hjobs : s₁.durableJobs = s.durableJobs := congrArg Facts.durableJobs hsame
    have hjobs' : s₂.durableJobs = jobs := congrArg Facts.durableJobs hfacts
    rw [hjobs] at hjob
    refine ⟨sameOrigins_of_facts (fun _ => id) ?_, ?_⟩
    · rw [hfacts]
      exact .insert? .refl ⟨rfl, rfl⟩ hinsert
    · rw [hjobs']
      exact .insert? .refl ⟨(by decide : DurableJobKind.agentRun ≠ .automationOccurrence),
        (by decide : DurableJobKind.agentRun ≠ .pushDelivery)⟩ hjob

/-- No other client creates the Run of an Automation. -/
theorem sameOrigins_foreign (hforeign : foreign op = true) :
    Grows SameOrigin OfUser s.runs (Runtime.commit op view s).1.runs := by
  refine sameOrigins_of_facts (fun _ => id) ?_
  by_cases hop : op.createsKey = none
  · exact Effect.sameOrigins (commit_effect op view s) hop
  · cases op with
    | createUserRun c budget sourceKnown fresh =>
      show Grows _ _ _ (Runtime.settled s _ (createUserRun c budget sourceKnown fresh view s)).1.facts.runs
      cases h : createUserRun c budget sourceKnown fresh view s with
      | error e => exact .refl .refl _
      | ok r => exact createUserRun_runs h
    | createAutomationRun => cases hforeign
    | _ => exact absurd rfl hop

end Automations
