import Laoshiren.Runtime.AgentLoop
import Laoshiren.Runtime.Proofs.ResponsesProofs

/-!
# A Run and its loop

`LoopFits` says how the checkpoint and the workers of a Run fit its row: the graph waits at the
interrupt whose response the Run carries until it consumes the response, and the worker that claimed
the Run last carries what the row carries. First what a worker decides, then every step of a worker
and of the Runtime on one Run.
-/

namespace Runtime

open RunRepository

variable {runs : Table AgentRun} {interactions interactions' : Table RunInteraction}
  {r r' : AgentRun} {loop : RunLoop} {token runId : UUID}

/-! ## What a worker decides -/

namespace RunLoop

/-- The graph waits at an interrupt about this action. -/
def Asks (loop : RunLoop) (actionId : Option Json) : Prop :=
  ∃ pending, loop.pending = some pending ∧ actionId = pending.node.actionId

/-- The graph has consumed the response that was accepted last, if there is one. -/
def Consumed (loop : RunLoop) : Prop :=
  ∀ id, loop.accepted = some id → some id ∈ loop.answers.map Answer.interaction

/-- What the phase of the worker that claimed the Run last says about the checkpoint. -/
def PhaseFits (loop : RunLoop) (run : AgentRun) : WorkerPhase → Prop
  | .claimed => True
  | .decided (.requireInput payload _) => loop.Asks (payload.get? "action_id")
  | .decided (.invoke input) => input = AgentRunWorker.graphInput run
  | .decided _ => True
  | .running answer => answer = none ∧ loop.Consumed
  | .interrupted payload => loop.Asks (payload.get? "action_id")

/-- The workers after one of them was replaced. -/
theorem setWorker_eq_some {loop : RunLoop} {token token' : UUID} {new : Option LoopWorker}
    {w : LoopWorker} (h : (loop.setWorker token new).workers token' = some w) :
    (token' = token ∧ new = some w) ∨ (token' ≠ token ∧ loop.workers token' = some w) := by
  change Function.update loop.workers token new token' = some w at h
  by_cases htoken : token' = token
  · rw [htoken, Function.update_self] at h
    exact .inl ⟨htoken, h⟩
  · rw [Function.update_of_ne htoken] at h
    exact .inr ⟨htoken, h⟩

theorem setWorker_none_empty (token : UUID) : setWorker token none {} = {} := by
  simp [setWorker]

end RunLoop

theorem InterruptNode.actionId_confirmation (actionId toolName : String) :
    (confirmation actionId toolName).actionId = some (.str actionId) := by
  have hother : ("action_id" : String) ≠ "options" := by decide
  simp only [InterruptNode.actionId, payload, Dict.ofFields, Dict.merge, List.foldl_cons,
    List.foldl_nil, Dict.get?, Dict.get_set_ne hother, Dict.get_set_self]

/-- A node that sends an action on to execution asked about this action and was answered with a
confirmation. -/
theorem InterruptNode.executes_eq_some {node : InterruptNode} {response : Dict} {actionId : String}
    (h : node.executes response = some actionId) :
    node.actionId = some (.str actionId) ∧ response.get "action" = some (.str "confirm") := by
  cases node with
  | askUser prompt => cases h
  | confirmation actionId' toolName =>
    simp only [InterruptNode.executes] at h
    split at h
    case isTrue hconfirm =>
      obtain rfl := Option.some.inj h
      exact ⟨actionId_confirmation actionId' toolName, hconfirm⟩
    case isFalse => cases h

section Decisions

variable {worker : AgentRunWorker} {now : Timestamp} {run : AgentRun} {payload : Dict}
  {interactionId : Option UUID}

/-- A worker that invokes the graph goes by what its Run carries. -/
theorem decide_eq_invoke {snapshot : GraphSnapshot} {input : GraphInput}
    (h : worker.decide snapshot now run = .invoke input) :
    input = AgentRunWorker.graphInput run := by
  unfold AgentRunWorker.decide at h
  split at h
  · cases h
  split at h
  · cases h
  split at h
  · split at h <;> cases h
  split at h
  · unfold AgentRunWorker.decideCheckpoint at h
    split at h
    · cases h
    · split at h
      · cases h
      · split at h <;> cases h
    · split at h
      · cases h
      · unfold AgentRunWorker.checkpointWait at h
        split at h <;> cases h
    all_goals exact (Decision.invoke.inj h).symm
  · exact (Decision.invoke.inj h).symm

/-- A worker that takes its Run to the user without the graph does it for a pending interrupt. -/
theorem decide_eq_requireInput {snapshot : GraphSnapshot}
    (h : worker.decide snapshot now run = .requireInput payload interactionId) :
    ∃ pending, (inspect snapshot).pendingInterrupt = some pending ∧
      payload.get? "action_id" = pending.get? "action_id" := by
  unfold AgentRunWorker.decide at h
  split at h
  · cases h
  split at h
  · cases h
  split at h
  · split at h <;> cases h
  split at h
  · unfold AgentRunWorker.decideCheckpoint at h
    split at h
    · cases h
    · split at h
      · cases h
      · split at h <;> cases h
    · split at h
      case h_1 => cases h
      case h_2 pending hpending =>
        refine ⟨pending, hpending, ?_⟩
        unfold AgentRunWorker.checkpointWait at h
        split at h
        · cases h
          rfl
        · cases h
          exact Dict.get?_setdefault_ne (by decide) _ _
    all_goals cases h
  · cases h

/-- The interrupt that an inspector finds is the one that the graph waits at. -/
theorem asks_of_decide (h : worker.decide loop.snapshot now run =
    .requireInput payload interactionId) : loop.Asks (payload.get? "action_id") := by
  obtain ⟨asked, hasked, haction⟩ := decide_eq_requireInput h
  rw [haction]
  unfold RunLoop.Asks
  cases hpending : loop.pending with
  | none => simp [inspect, RunLoop.snapshot, hpending] at hasked
  | some pending =>
    have hpayload : asked = pending.node.payload := by
      simpa [inspect, RunLoop.snapshot, hpending, Json.asDict?, eq_comm] using hasked
    exact ⟨pending, rfl, by rw [hpayload]; rfl⟩

/-- What a worker decides fits the checkpoint that it looked at. -/
theorem phaseFits_decide (worker : AgentRunWorker) (now : Timestamp) (run : AgentRun) :
    loop.PhaseFits run (.decided (worker.decide loop.snapshot now run)) := by
  cases hdecision : worker.decide loop.snapshot now run with
  | requireInput payload interactionId => exact asks_of_decide hdecision
  | invoke input => exact decide_eq_invoke hdecision
  | _ => trivial

end Decisions

/-! ## A Run and its loop -/

/-- How the checkpoint and the workers of a Run fit its row. -/
structure LoopFits (interactions : Table RunInteraction) (r : AgentRun) (loop : RunLoop) :
    Prop where
  /-- Each response answered one interrupt. -/
  once : (loop.answers.map Answer.interaction).Nodup
  answered : ∀ a ∈ loop.answers, ∃ i ∈ interactions, a.Matches r.id i
  unanswered : loop.accepted = none → r.resumePayload = none
  /-- The response that the Run carries was consumed, or the graph waits at its interrupt. -/
  carries : ∀ id, loop.accepted = some id → ∃ i ∈ interactions, i.id = id ∧ i.runId = r.id ∧
    i.status = .resolved ∧
    (∃ response, i.responsePayload = some response ∧ r.resumePayload = some response) ∧
    (some id ∈ loop.answers.map Answer.interaction ∨ loop.Asks i.actionId)
  /-- A Run that waits has no worker, and its question is the interrupt that the graph waits at. -/
  waits : r.status = .waitingForUser →
    (∀ token, loop.latest = some token → loop.workers token = none) ∧
      ∃ i ∈ interactions, r.interruptId = some i.id ∧ i.runId = r.id ∧ i.status = .pending ∧
        loop.Asks i.actionId
  fence : ∀ token, r.claimToken = some token → loop.latest = some token
  held : ∀ token w, loop.workers token = some w → w.run.claimToken = some token
  /-- The worker that claimed the Run last carries what the Run carries. -/
  turn : ∀ token w, loop.latest = some token → loop.workers token = some w →
    w.response = loop.accepted ∧ w.run.resumePayload = r.resumePayload ∧
      loop.PhaseFits w.run w.phase

namespace LoopFits

/-- A loop that nobody has begun fits a new Run. -/
theorem new (hnew : r.IsNew) : LoopFits interactions r {} where
  once := .nil
  answered _ ha := absurd ha List.not_mem_nil
  unanswered _ := by rw [hnew]
  carries _ h := nomatch h
  waits h := by
    rw [hnew] at h
    cases h
  fence _ h := by
    rw [hnew] at h
    cases h
  held _ _ h := nomatch h
  turn _ _ h := nomatch h

/-- A quiet step of the row. -/
theorem quiet (h : LoopFits interactions r loop) (hquiet : RunQuiet r r') :
    LoopFits interactions r' loop where
  once := h.once
  answered := by
    rw [hquiet.id]
    exact h.answered
  unanswered := by
    rw [hquiet.payload]
    exact h.unanswered
  carries := by
    rw [hquiet.id, hquiet.payload]
    exact h.carries
  waits hstatus := by
    obtain ⟨hwaiting, hinterrupt⟩ := hquiet.waits hstatus
    rw [hquiet.id, hinterrupt]
    exact h.waits hwaiting
  fence token htoken := h.fence token (hquiet.claimed token htoken)
  held := h.held
  turn := by
    rw [hquiet.payload]
    exact h.turn

/-- The Interactions of the Run are still there. -/
theorem mono (h : LoopFits interactions r loop)
    (hkept : ∀ i ∈ interactions, i.runId = r.id → i ∈ interactions') :
    LoopFits interactions' r loop where
  once := h.once
  answered a ha := by
    obtain ⟨i, hi, hmatches⟩ := h.answered a ha
    exact ⟨i, hkept i hi hmatches.run, hmatches⟩
  unanswered := h.unanswered
  carries id hid := by
    obtain ⟨i, hi, hiid, hirun, hrest⟩ := h.carries id hid
    exact ⟨i, hkept i hi hirun, hiid, hirun, hrest⟩
  waits hstatus := by
    obtain ⟨hidle, i, hi, hiid, hirun, hrest⟩ := h.waits hstatus
    exact ⟨hidle, i, hkept i hi hirun, hiid, hirun, hrest⟩
  fence := h.fence
  held := h.held
  turn := h.turn

/-! ### Steps of a worker -/

/-- A Run with a worker whose turn it is does not wait. -/
theorem not_waiting (h : LoopFits interactions r loop) {w : LoopWorker}
    (hlatest : loop.latest = some token) (hw : loop.workers token = some w) :
    r.status ≠ .waitingForUser := by
  intro hstatus
  rw [(h.waits hstatus).1 token hlatest] at hw
  cases hw

/-- The worker of a phase is held by its claim. -/
theorem held_setPhase (h : LoopFits interactions r loop) {w : LoopWorker} {phase : WorkerPhase}
    (hw : loop.workers token = some w) {token' : UUID} {w' : LoopWorker}
    (hw' : (loop.setWorker token (some { w with phase })).workers token' = some w') :
    w'.run.claimToken = some token' := by
  rcases RunLoop.setWorker_eq_some hw' with ⟨rfl, hnew⟩ | ⟨-, hold⟩
  · obtain rfl := Option.some.inj hnew
    exact h.held _ w hw
  · exact h.held token' w' hold

/-- A worker moves on to a phase that fits the checkpoint. -/
theorem setPhase (h : LoopFits interactions r loop) {w : LoopWorker} {phase : WorkerPhase}
    (hw : loop.workers token = some w)
    (hphase : loop.latest = some token → loop.PhaseFits w.run phase) :
    LoopFits interactions r (loop.setWorker token (some { w with phase })) where
  once := h.once
  answered := h.answered
  unanswered := h.unanswered
  carries := h.carries
  waits hstatus := by
    obtain ⟨hidle, hquestion⟩ := h.waits hstatus
    refine ⟨fun token' hlatest => ?_, hquestion⟩
    refine Option.eq_none_iff_forall_ne_some.mpr fun w' hw' => ?_
    rcases RunLoop.setWorker_eq_some hw' with ⟨rfl, -⟩ | ⟨-, hold⟩
    · exact h.not_waiting hlatest hw hstatus
    · exact h.not_waiting hlatest hold hstatus
  fence := h.fence
  held _ _ hw' := h.held_setPhase hw hw'
  turn token' w' hlatest hw' := by
    rcases RunLoop.setWorker_eq_some hw' with ⟨rfl, hnew⟩ | ⟨-, hold⟩
    · obtain rfl := Option.some.inj hnew
      obtain ⟨hresponse, hpayload, -⟩ := h.turn _ w hlatest hw
      exact ⟨hresponse, hpayload, hphase hlatest⟩
    · exact h.turn token' w' hlatest hold

/-- The worker whose turn it is drives the graph on, which has consumed what the Run carries. -/
theorem drive (h : LoopFits interactions r loop) {w : LoopWorker} {phase : WorkerPhase}
    {pending : Option PendingInterrupt} {answers : List Answer} (hlatest : loop.latest = some token)
    (hw : loop.workers token = some w) (honce : (answers.map Answer.interaction).Nodup)
    (hanswered : ∀ a ∈ answers, ∃ i ∈ interactions, a.Matches r.id i)
    (hconsumed : ∀ id, loop.accepted = some id → some id ∈ answers.map Answer.interaction)
    (hphase : RunLoop.PhaseFits { loop with pending, answers } w.run phase) :
    LoopFits interactions r
      (({ loop with pending, answers } : RunLoop).setWorker token (some { w with phase })) where
  once := honce
  answered := hanswered
  unanswered := h.unanswered
  carries id hid := by
    obtain ⟨i, hi, hiid, hirun, hresolved, hresponse, -⟩ := h.carries id hid
    exact ⟨i, hi, hiid, hirun, hresolved, hresponse, .inl (hconsumed id hid)⟩
  waits hstatus := absurd hstatus (h.not_waiting hlatest hw)
  fence := h.fence
  held _ _ hw' := h.held_setPhase hw hw'
  turn token' w' hlatest' hw' := by
    obtain ⟨hresponse, hpayload, -⟩ := h.turn token w hlatest hw
    rcases RunLoop.setWorker_eq_some hw' with ⟨-, hnew⟩ | ⟨hother, -⟩
    · obtain rfl := Option.some.inj hnew
      exact ⟨hresponse, hpayload, hphase⟩
    · exact absurd (Option.some.inj (hlatest'.symm.trans hlatest)) hother

theorem reconcile (h : LoopFits interactions r loop) (now : Timestamp) :
    LoopFits interactions r (loop.reconcile token now) := by
  unfold RunLoop.reconcile
  split
  · exact h
  case h_2 w hw =>
    split
    · exact h.setPhase hw fun _ => phaseFits_decide w.worker now w.run
    · exact h

/-- The graph is invoked with a response that it has not consumed yet, so it waits at the interrupt
that the response is for. -/
theorem invoke (h : LoopFits interactions r loop) (hlatest : loop.latest = some token)
    (hfresh : ∀ w ∈ loop.workers token, w.delivers = true →
      w.response ∉ loop.answers.map Answer.interaction) :
    LoopFits interactions r (loop.invoke token) := by
  unfold RunLoop.invoke
  split
  · exact h
  case h_2 w hw =>
    obtain ⟨hresponse, hpayload, hphase⟩ := h.turn token w hlatest hw
    split
    case h_1 payload hdecided =>
      have hinput : GraphInput.resume payload = AgentRunWorker.graphInput w.run := by
        rw [hdecided] at hphase
        exact hphase
      have hrow : r.resumePayload = some payload := by
        unfold AgentRunWorker.graphInput at hinput
        rw [← hpayload]
        split at hinput <;> cases hinput
        assumption
      obtain ⟨id, haccepted⟩ : ∃ id, loop.accepted = some id := by
        refine Option.ne_none_iff_exists'.mp fun hnone => ?_
        rw [h.unanswered hnone] at hrow
        cases hrow
      rw [haccepted] at hresponse
      have hnew := hfresh w hw (by simp [LoopWorker.delivers, hdecided])
      rw [hresponse] at hnew
      obtain ⟨i, hi, hiid, hirun, hresolved, ⟨value, hvalue, hcarried⟩, hasks⟩ :=
        h.carries id haccepted
      obtain ⟨pending, hpending, haction⟩ := hasks.resolve_left hnew
      obtain rfl : value = payload := Option.some.inj (hcarried.symm.trans hrow)
      let answer : Answer := ⟨w.response, pending.node, value⟩
      have hmatches : answer.Matches r.id i :=
        ⟨hresponse.trans (congrArg some hiid.symm), hirun, hresolved, hvalue, haction⟩
      have honce : ((answer :: loop.answers).map Answer.interaction).Nodup := by
        refine List.nodup_cons.mpr ⟨?_, h.once⟩
        rw [show answer.interaction = some id from hresponse]
        exact hnew
      have hanswered : ∀ a ∈ answer :: loop.answers, ∃ i ∈ interactions, a.Matches r.id i := by
        intro a ha
        rcases List.mem_cons.mp ha with rfl | ha
        · exact ⟨i, hi, hmatches⟩
        · exact h.answered a ha
      have hconsumed : ∀ id', loop.accepted = some id' →
          some id' ∈ (answer :: loop.answers).map Answer.interaction := by
        intro id' hid'
        refine List.mem_cons.mpr (.inl ?_)
        rw [← hid', haccepted]
        exact hresponse.symm
      simp only [hpending]
      exact h.drive hlatest hw honce hanswered hconsumed ⟨rfl, hconsumed⟩
    case h_2 hdecided =>
      have hinput : GraphInput.initial = AgentRunWorker.graphInput w.run := by
        rw [hdecided] at hphase
        exact hphase
      have hrow : r.resumePayload = none := by
        unfold AgentRunWorker.graphInput at hinput
        rw [← hpayload]
        split at hinput <;> cases hinput
        assumption
      have haccepted : ∀ id, loop.accepted ≠ some id := fun id hid => by
        obtain ⟨i, -, -, -, -, ⟨response, -, hcarried⟩, -⟩ := h.carries id hid
        rw [hrow] at hcarried
        cases hcarried
      exact h.drive hlatest hw h.once h.answered (fun id hid => absurd hid (haccepted id))
        ⟨rfl, fun id hid => absurd hid (haccepted id)⟩
    case h_3 => exact h

/-- A graph that runs on has consumed what the Run carries, so it stops at the next interrupt. -/
theorem reach (h : LoopFits interactions r loop) (hlatest : loop.latest = some token)
    (pending : PendingInterrupt) : LoopFits interactions r (loop.reach token pending) := by
  unfold RunLoop.reach
  split
  · exact h
  case h_2 w hw =>
    obtain ⟨-, -, hphase⟩ := h.turn token w hlatest hw
    split
    case h_1 response value hrunning =>
      rw [hrunning] at hphase
      exact absurd hphase.1 (Option.some_ne_none _)
    case h_2 hrunning =>
      rw [hrunning] at hphase
      exact h.drive hlatest hw h.once h.answered hphase.2 ⟨pending, rfl, rfl⟩
    case h_3 => exact h

theorem advance (h : LoopFits interactions r loop) (values : Option Dict) :
    LoopFits interactions r (loop.advance token values) := by
  unfold RunLoop.advance
  split
  · exact h
  split
  · exact ⟨h.once, h.answered, h.unanswered, h.carries, h.waits, h.fence, h.held, h.turn⟩
  · exact h

/-- A worker that is gone leaves the Run as it is. -/
theorem stop (h : LoopFits interactions r loop) :
    LoopFits interactions r (loop.setWorker token none) := by
  have hold : ∀ token' w, (loop.setWorker token none).workers token' = some w →
      loop.workers token' = some w := by
    intro token' w hw
    rcases RunLoop.setWorker_eq_some hw with ⟨-, hnone⟩ | ⟨-, hold⟩
    · cases hnone
    · exact hold
  refine ⟨h.once, h.answered, h.unanswered, h.carries, fun hstatus => ?_, h.fence,
    fun token' w hw => h.held token' w (hold token' w hw),
    fun token' w hlatest hw => h.turn token' w hlatest (hold token' w hw)⟩
  obtain ⟨-, hquestion⟩ := h.waits hstatus
  refine ⟨fun token' hlatest => ?_, hquestion⟩
  exact Option.eq_none_iff_forall_ne_some.mpr fun w hw =>
    h.not_waiting hlatest (hold token' w hw) hstatus

/-! ### Steps of the Runtime -/

/-- A worker claims the Run and carries from then on what the Run carries. -/
theorem claim (h : LoopFits interactions r loop) {run : AgentRun} {owner : String}
    {now leaseExpiresAt : Timestamp} (worker : AgentRunWorker)
    (htoken : run.claimToken = some token) (hpayload : run.resumePayload = r.resumePayload) :
    LoopFits interactions (claimValues owner token now leaseExpiresAt r)
      (loop.claim worker run) := by
  unfold RunLoop.claim
  rw [htoken]
  refine ⟨h.once, h.answered, h.unanswered, h.carries, fun hstatus => (nomatch hstatus),
    fun _ hclaimed => hclaimed, fun token' w hw => ?_, fun token' w hlatest hw => ?_⟩
  · rcases RunLoop.setWorker_eq_some hw with ⟨rfl, hnew⟩ | ⟨-, hold⟩
    · obtain rfl := Option.some.inj hnew
      exact htoken
    · exact h.held token' w hold
  · obtain rfl : token = token' := Option.some.inj hlatest
    rcases RunLoop.setWorker_eq_some hw with ⟨-, hnew⟩ | ⟨hother, -⟩
    · obtain rfl := Option.some.inj hnew
      exact ⟨rfl, hpayload, trivial⟩
    · exact absurd rfl hother

/-- The question of a Run that waits is answered, and the Run carries the answer. -/
theorem resume (h : LoopFits interactions r loop) {i₀ : RunInteraction} {response : Dict}
    (hwaiting : r.status = .waitingForUser) (hinterrupt : r.interruptId = some i₀.id)
    (hresolved : i₀.status = .resolved) (hresponse : i₀.responsePayload = some response)
    (hid : r'.id = r.id) (hstatus : r'.status ≠ .waitingForUser)
    (hpayload : r'.resumePayload = some response) (htoken : r'.claimToken = r.claimToken) :
    LoopFits (InteractionRepository.resolve i₀ interactions) r'
      { loop with accepted := some i₀.id } := by
  obtain ⟨hidle, i, hi, hiid, hirun, hpending, hasks⟩ := h.waits hwaiting
  have hsame : i.id = i₀.id := Option.some.inj (hiid.symm.trans hinterrupt)
  -- the question is the row that is written, and what was answered before stays
  have hnew : InteractionRepository.resolveValues i₀ i ∈
      InteractionRepository.resolve i₀ interactions := by
    refine Table.mem_update_of_pos hi ?_
    simp [InteractionRepository.resolveWhere, hsame, hpending]
  have hold : ∀ i' ∈ interactions, i'.status = .resolved →
      i' ∈ InteractionRepository.resolve i₀ interactions := by
    intro i' hi' hstatus'
    refine Table.mem_update_of_neg hi' ?_
    simp [InteractionRepository.resolveWhere, hstatus']
  refine ⟨h.once, fun a ha => ?_, fun hnone => (by cases hnone), fun id hsome => ?_,
    fun hwaits => absurd hwaits hstatus, fun token hclaimed => ?_, h.held,
    fun token w hlatest hw => ?_⟩
  · obtain ⟨i', hi', hmatches⟩ := h.answered a ha
    rw [hid]
    exact ⟨i', hold i' hi' hmatches.resolved, hmatches⟩
  · obtain rfl : i₀.id = id := Option.some.inj hsome
    rw [hid, hpayload]
    exact ⟨_, hnew, hsame, hirun, hresolved, ⟨response, hresponse, rfl⟩, .inr hasks⟩
  · rw [htoken] at hclaimed
    exact h.fence token hclaimed
  · rw [hidle token hlatest] at hw
    cases hw

/-- The Run waits for the answer to the interrupt that its worker found. -/
theorem wait (h : LoopFits interactions r loop) {w : LoopWorker} {payload : Dict}
    {interactionId : Option UUID} {i : RunInteraction} (hlatest : loop.latest = some token)
    (hw : loop.workers token = some w) (hquestion : w.question = some (payload, interactionId))
    (hins : interactions.insert? i = some interactions') (hirun : i.runId = r.id)
    (hpending : i.status = .pending) (haction : i.actionId = payload.get? "action_id")
    (hid : r'.id = r.id) (hinterrupt : r'.interruptId = some i.id)
    (hpayload : r'.resumePayload = r.resumePayload) (htoken : r'.claimToken = none) :
    LoopFits interactions' r' (loop.setWorker token none) := by
  have hasks : loop.Asks (payload.get? "action_id") := by
    obtain ⟨-, -, hphase⟩ := h.turn token w hlatest hw
    unfold LoopWorker.question at hquestion
    split at hquestion
    case h_3 => cases hquestion
    all_goals
      rename_i hcase
      rw [hcase] at hphase
      cases hquestion
      exact hphase
  have hstop : LoopFits interactions r (loop.setWorker token none) := h.stop
  have hstopped := hstop.mono fun i' hi' _ => (Table.mem_insert? hins).mpr (.inl hi')
  refine ⟨hstopped.once, ?_, ?_, ?_, fun _ => ⟨fun token' hlatest' => ?_, i, ?_⟩, ?_,
    hstopped.held, ?_⟩
  · rw [hid]
    exact hstopped.answered
  · rw [hpayload]
    exact hstopped.unanswered
  · rw [hid, hpayload]
    exact hstopped.carries
  · obtain rfl : token = token' := Option.some.inj (hlatest.symm.trans hlatest')
    exact Function.update_self ..
  · refine ⟨(Table.mem_insert? hins).mpr (.inr rfl), hinterrupt, hirun.trans hid.symm, hpending, ?_⟩
    rw [haction]
    exact hasks
  · intro token' hclaimed
    rw [htoken] at hclaimed
    cases hclaimed
  · rw [hpayload]
    exact hstopped.turn

end LoopFits

end Runtime
