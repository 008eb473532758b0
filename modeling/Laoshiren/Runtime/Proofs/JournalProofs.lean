import Laoshiren.Runtime.Journal
import Laoshiren.Runtime.Proofs.LifecycleProofs

/-!
# Every transaction appends

`commit_logEffect`: what a transaction makes of the logs is the log effect of that transaction. From
it `EventsFit`: the events of a Run have the numbers from 1 to its event counter, in the order in
which they were appended.
-/

namespace Runtime

open Raise RunRepository

variable {s s' s₁ s₂ : Store} {view : ℕ → Store} {fresh : ℕ → Stamp} {run run' r r' : AgentRun}
  {runs runs' : Table AgentRun} {messages : List Message} {events : List RunEvent} {op : Op}

/-! ## Writes that count no event -/

namespace CountersKept

theorem refl (runs : Table AgentRun) : CountersKept runs runs :=
  ⟨fun r hr => ⟨r, hr, rfl, rfl⟩, fun r' hr' => .inl ⟨r', hr', rfl⟩⟩

theorem update {p : AgentRun → Bool} {f : AgentRun → AgentRun}
    (h : ∀ r, (f r).id = r.id ∧ (f r).eventSequence = r.eventSequence)
    (hf : Table.Keeps p f) : CountersKept runs (runs.update p f hf) := by
  have hmoves : runs.Moves (fun r r' => r'.id = r.id ∧ r'.eventSequence = r.eventSequence)
      (runs.update p f hf) := .update (fun _ => ⟨rfl, rfl⟩) fun r _ _ => h r
  refine ⟨hmoves.evolves fun _ _ h => h, fun r' hr' => ?_⟩
  obtain ⟨r, hr, hid, -⟩ := hmoves.mem hr'
  exact .inl ⟨r, hr, hid.symm⟩

theorem insert (hcount : run.eventSequence = 0) (h : runs.insert? run = some runs') :
    CountersKept runs runs' := by
  refine ⟨fun r hr => ⟨r, (Table.mem_insert? h).mpr (.inl hr), rfl, rfl⟩, fun r' hr' => ?_⟩
  rcases (Table.mem_insert? h).mp hr' with hr' | rfl
  · exact .inl ⟨r', hr', rfl⟩
  · exact .inr hcount

/-- The counter of a Run that was there. -/
theorem eventSequence_eq (h : CountersKept runs runs') (hr : r ∈ runs) (hr' : r' ∈ runs')
    (hid : r'.id = r.id) : r'.eventSequence = r.eventSequence := by
  obtain ⟨r'', hr'', hid'', hcount⟩ := h.1 r hr
  rwa [run_ext hr' hr'' (hid.trans hid''.symm)]

end CountersKept

namespace Journaled

theorem writeRuns (h : Journaled s messages events s₁) (hruns : CountersKept s₁.runs runs) :
    Journaled s messages events { s₁ with runs } := .write h rfl rfl hruns

theorem updateRun {version : ℕ} (h : Journaled s messages events s₁)
    (hupdate : s₁.updateRun run version = .ok s₂) : Journaled s messages events s₂ := by
  obtain ⟨-, rfl⟩ := Store.updateRun_ok hupdate
  have hcount : ∀ r, (updateValues run r).id = r.id ∧
      (updateValues run r).eventSequence = r.eventSequence := fun _ => ⟨rfl, rfl⟩
  exact h.writeRuns (.update hcount fun _ _ _ h => h)

theorem addRun (hnew : run.IsNew) (h : Journaled s messages events s₁)
    (hadd : s₁.addRun run = .ok s₂) : Journaled s messages events s₂ := by
  obtain ⟨runs, hins, rfl⟩ := Store.addRun_ok hadd
  refine h.writeRuns (.insert ?_ hins)
  rw [hnew]

theorem addInteraction {interaction : RunInteraction} (h : Journaled s messages events s₁)
    (hadd : s₁.addInteraction interaction = .ok s₂) : Journaled s messages events s₂ := by
  obtain ⟨_, _, rfl⟩ := Store.addInteraction_ok hadd
  exact .write h rfl rfl (.refl _)

theorem addJob {job : DurableJob} (h : Journaled s messages events s₁)
    (hadd : s₁.addJob job = .ok s₂) : Journaled s messages events s₂ := by
  obtain ⟨_, _, rfl⟩ := Store.addJob_ok hadd
  exact .write h rfl rfl (.refl _)

theorem recordOperation {operation : RunOperation} (h : Journaled s messages events s₁)
    (hrecord : s₁.recordOperation operation = .ok s₂) : Journaled s messages events s₂ := by
  obtain ⟨_, _, rfl⟩ := Store.recordOperation_ok hrecord
  exact .write h rfl rfl (.refl _)

/-! ## What the logs are afterwards -/

theorem messages_eq (h : Journaled s messages events s') :
    s'.messages.rows = s.messages.rows ++ messages := by
  induction h with
  | refl => simp
  | write _ hmessages _ _ ih => rw [hmessages, ih]
  | message _ hadd ih =>
    obtain ⟨_, _, hins, rfl⟩ := Store.addMessage_ok hadd
    rw [Table.rows_insert? hins, ih, List.append_assoc]
  | event _ happend ih =>
    obtain ⟨_, _, _, _, _, rfl⟩ := Store.appendEvent_ok happend
    exact ih

theorem events_eq (h : Journaled s messages events s') :
    s'.events.rows = s.events.rows ++ events := by
  induction h with
  | refl => simp
  | write _ _ hevents _ ih => rw [hevents, ih]
  | message _ hadd ih =>
    obtain ⟨_, _, _, rfl⟩ := Store.addMessage_ok hadd
    exact ih
  | event _ happend ih =>
    obtain ⟨_, _, _, _, hins, rfl⟩ := Store.appendEvent_ok happend
    rw [Table.rows_insert? hins, ih, List.append_assoc]

/-- The Runs that were there are still there. -/
theorem runs_kept (h : Journaled s messages events s') :
    s.runs.Evolves AgentRun.id (fun _ _ => True) s'.runs := by
  have htrans : ∀ {t₁ t₂ t₃ : Table AgentRun}, t₁.Evolves AgentRun.id (fun _ _ => True) t₂ →
      t₂.Evolves AgentRun.id (fun _ _ => True) t₃ → t₁.Evolves AgentRun.id (fun _ _ => True) t₃ :=
    Table.Evolves.trans fun _ _ _ _ _ => trivial
  induction h with
  | refl => exact .refl (fun _ => trivial) _
  | write _ _ _ hruns ih =>
    refine htrans ih fun r hr => ?_
    obtain ⟨r', hr', hid, -⟩ := hruns.1 r hr
    exact ⟨r', hr', hid, trivial⟩
  | message _ hadd ih =>
    obtain ⟨_, _, _, rfl⟩ := Store.addMessage_ok hadd
    exact ih
  | event _ happend ih =>
    obtain ⟨_, _, _, _, _, rfl⟩ := Store.appendEvent_ok happend
    refine htrans ih fun r hr => ⟨_, Table.updateRow_mem hr, ?_, trivial⟩
    unfold Table.updateRow
    split <;> rfl

end Journaled

/-! ## The numbers of the events -/

/-- The number of an event is one more than the counter of its Run. -/
theorem nextSequence_ok {runId : UUID} {sequence : ℕ}
    (h : (nextSequence runId runs).2 = some sequence) :
    ∃ r ∈ runs, r.id = runId ∧ sequence = r.eventSequence + 1 := by
  simp only [nextSequence, Option.map_eq_some_iff] at h
  obtain ⟨r', hget, rfl⟩ := h
  obtain ⟨hr', hid⟩ := Table.get_eq_some hget
  have hkeep : Table.Keeps (fun r : AgentRun => r.id = runId) countEvent := fun _ _ _ h => h
  rcases Table.mem_update_cases hkeep hr' with ⟨r, hr, hp, rfl⟩ | ⟨-, hp⟩
  · exact ⟨r, hr, by simpa using hp, rfl⟩
  · rw [hp] at hid
    cases hid

/-- The events of every Run have the numbers from 1 to its event counter, in the order in which they
were appended, and every event is one of a Run. -/
structure EventsFit (s : Store) : Prop where
  numbered : ∀ run ∈ s.runs,
    (eventsOf run.id s.events).map RunEvent.sequence = List.range' 1 run.eventSequence
  owned : ∀ e ∈ s.events, ∃ run ∈ s.runs, run.id = e.runId

namespace EventsFit

theorem eventsOf_nil (h : EventsFit s) {runId : UUID} (hnone : ∀ r ∈ s.runs, r.id ≠ runId) :
    eventsOf runId s.events = [] := by
  refine List.filter_eq_nil_iff.mpr fun e he hrun => ?_
  obtain ⟨r, hr, hid⟩ := h.owned e he
  exact hnone r hr (hid.trans (by simpa using hrun))

theorem write (h : EventsFit s₁) (hevents : s₂.events = s₁.events)
    (hruns : CountersKept s₁.runs s₂.runs) : EventsFit s₂ where
  numbered r' hr' := by
    rw [hevents]
    by_cases hold : ∃ r ∈ s₁.runs, r.id = r'.id
    · obtain ⟨r, hr, hid⟩ := hold
      rw [hruns.eventSequence_eq hr hr' hid.symm, ← hid]
      exact h.numbered r hr
    · have hzero : r'.eventSequence = 0 := (hruns.2 r' hr').resolve_left hold
      rw [hzero, h.eventsOf_nil fun r hr hid => hold ⟨r, hr, hid⟩]
      rfl
  owned e he := by
    rw [hevents] at he
    obtain ⟨r, hr, hid⟩ := h.owned e he
    obtain ⟨r', hr', hid', -⟩ := hruns.1 r hr
    exact ⟨r', hr', hid'.trans hid⟩

theorem event (h : EventsFit s₁) {runId : UUID} {eventType : RunEventType} {data : Dict}
    {stamp : Stamp} {event : RunEvent}
    (happend : s₁.appendEvent runId eventType data stamp = .ok (s₂, event)) : EventsFit s₂ := by
  obtain ⟨sequence, events, hseq, hevent, hins, rfl⟩ := Store.appendEvent_ok happend
  obtain ⟨r, hr, rfl, rfl⟩ := nextSequence_ok hseq
  have hrow : event.runId = r.id ∧ event.sequence = r.eventSequence + 1 := by
    rw [hevent]
    exact ⟨rfl, rfl⟩
  have hkeep : Table.Keeps (fun r' : AgentRun => r'.id = r.id) countEvent := fun _ _ _ h => h
  constructor
  · intro r' hr'
    have hsplit : eventsOf r'.id events =
        eventsOf r'.id s₁.events ++ [event].filter fun e => e.runId = r'.id := by
      simp only [eventsOf, Table.select, Table.rows_insert? hins, List.filter_append]
    rw [hsplit]
    rcases Table.mem_update_cases hkeep hr' with ⟨r₀, hr₀, hp, rfl⟩ | ⟨hr', hp⟩
    · -- the Run of the event counts it
      obtain rfl : r₀ = r := run_ext hr₀ hr (by simpa using hp)
      have hown : [event].filter (fun e => e.runId = (countEvent r₀).id) = [event] := by
        simp [hrow.1, countEvent]
      have hold : (eventsOf (countEvent r₀).id s₁.events).map RunEvent.sequence =
          List.range' 1 r₀.eventSequence := h.numbered r₀ hr₀
      rw [hown, List.map_append, hold, List.map_singleton, hrow.2]
      show _ = List.range' 1 (r₀.eventSequence + 1)
      rw [List.range'_concat, Nat.add_comm 1, Nat.one_mul]
    · have hother : [event].filter (fun e => e.runId = r'.id) = [] := by
        have hne : r.id ≠ r'.id := fun heq => by simp [heq] at hp
        simp [hrow.1, hne]
      rw [hother, List.append_nil]
      exact h.numbered r' hr'
  · intro e he
    have hthere : ∃ r' ∈ s₁.runs, r'.id = e.runId := by
      rcases (Table.mem_insert? hins).mp he with he | rfl
      · exact h.owned e he
      · exact ⟨r, hr, hrow.1.symm⟩
    obtain ⟨r', hr', hid⟩ := hthere
    refine ⟨_, Table.updateRow_mem hr', ?_⟩
    rw [← hid]
    unfold Table.updateRow
    split <;> rfl

/-- Whatever a transaction appends, the events fit afterwards. -/
theorem journaled (h : EventsFit s) (hj : Journaled s messages events s') : EventsFit s' := by
  induction hj with
  | refl => exact h
  | write _ _ hevents hruns ih => exact ih.write hevents hruns
  | message _ hadd ih =>
    obtain ⟨_, _, _, rfl⟩ := Store.addMessage_ok hadd
    exact ih.write rfl (.refl _)
  | event _ happend ih => exact ih.event happend

end EventsFit

/-! ## What each transaction appends -/

theorem Op.posts_eq_false : op.posts = false ↔ op.completes = false ∧ op.createsKey = none := by
  simp [Op.posts]

/-- An event that is appended has the type that it is appended with. -/
theorem appendEvent_type {runId : UUID} {eventType : RunEventType} {data : Dict} {stamp : Stamp}
    {event : RunEvent} (h : s.appendEvent runId eventType data stamp = .ok (s', event)) :
    event.runId = runId ∧ event.eventType = eventType := by
  obtain ⟨_, _, _, rfl, _, _⟩ := Store.appendEvent_ok h
  exact ⟨rfl, rfl⟩

namespace LogEffect

/-- A transaction that writes other tables only. -/
theorem of_same (hop : op.posts = false) (hmessages : s'.messages = s.messages)
    (hevents : s'.events = s.events) (hruns : CountersKept s.runs s'.runs) :
    LogEffect view s op s' :=
  .quiet hop (fun _ he => absurd he List.not_mem_nil) (.write .refl hmessages hevents hruns)

/-- A transaction that appends one event. -/
theorem of_event {runId : UUID} {eventType : RunEventType} {data : Dict} {stamp : Stamp}
    {event : RunEvent} (hop : op.posts = false) (htype : eventType ≠ .runCompleted)
    (h : Journaled s [] [] s₁)
    (happend : s₁.appendEvent runId eventType data stamp = .ok (s', event)) :
    LogEffect view s op s' := by
  refine .quiet hop (fun e he => ?_) (.event h happend)
  obtain rfl : e = event := by simpa using he
  rw [(appendEvent_type happend).2]
  exact htype

end LogEffect

theorem createThread_logEffect {userId : UUID} {title key : String} {activeThingId : Option UUID}
    {thingKnown : Bool} {stamp : Stamp} {thread : Thread}
    (h : createThread userId title key activeThingId thingKnown stamp view s = .ok (s', thread))
    (hop : op.posts = false) : LogEffect view s op s' := by
  simp only [createThread, bind_eq_ok, ensure_eq_ok] at h
  obtain ⟨_, _, h⟩ := h
  split at h
  · obtain ⟨rfl, -⟩ := Prod.mk.inj (pure_eq_ok.mp h)
    exact .idle
  · simp only [bind_eq_ok, pure_eq_ok, Prod.mk.injEq] at h
    obtain ⟨_, _, _, _, rfl, -⟩ := h
    exact .of_same hop rfl rfl (.refl _)

theorem archiveThread_logEffect {userId threadId : UUID} {now : Timestamp} {thread : Thread}
    (h : archiveThread userId threadId now view s = .ok (s', thread)) (hop : op.posts = false) :
    LogEffect view s op s' := by
  simp only [archiveThread, bind_eq_ok, pure_eq_ok, Prod.mk.injEq] at h
  obtain ⟨_, _, rfl, -⟩ := h
  exact .of_same hop rfl rfl (.refl _)

/-- The first event of a new Run has the number 1. -/
theorem first_event (hnew : run.IsNew) (hadd : s.addRun run = .ok s₁) (hruns : s₂.runs = s₁.runs)
    {eventType : RunEventType} {data : Dict} {stamp : Stamp} {event : RunEvent}
    (h : s₂.appendEvent run.id eventType data stamp = .ok (s', event)) : event.sequence = 1 := by
  obtain ⟨runs, hins, rfl⟩ := Store.addRun_ok hadd
  obtain ⟨sequence, _, hseq, rfl, -, -⟩ := Store.appendEvent_ok h
  rw [hruns] at hseq
  obtain ⟨r, hr, hid, rfl⟩ := nextSequence_ok hseq
  have hrow : r = _ := run_ext hr ((Table.mem_insert? hins).mpr (.inr rfl)) hid
  show r.eventSequence + 1 = 1
  rw [hrow, hnew]

/-- The rows that create a Run, on a store that may have a new thread already. -/
theorem commitNewRun_logEffect {message : Message} {data : Dict}
    (hop : op.createsKey = some (run.userId, run.idempotencyKey)) (hnew : run.IsNew)
    (hmessage : message.runId = some run.id) (hrole : message.role ≠ .assistant)
    (hinput : run.inputMessageId = some message.id) (hfacts : s₁.facts = s.facts)
    (hj : Journaled s [] [] s₁) (h : commitNewRun s₁ run message data fresh = .ok s') :
    LogEffect view s op s' := by
  obtain ⟨runs, durableJobs, hins, hins', hs'⟩ := commitNewRun_facts hnew h
  have hjobs : s₁.durableJobs = s.durableJobs := congrArg Facts.durableJobs hfacts
  rw [hfacts] at hins hs'
  rw [hjobs] at hins'
  simp only [commitNewRun, bind_eq_ok, Prod.exists] at h
  obtain ⟨s₂, hrun, s₃, hadd, s₄, event, hevent, hjob⟩ := h
  have hruns : s₃.runs = s₂.runs := by
    obtain ⟨_, _, _, rfl⟩ := Store.addMessage_ok hadd
    rfl
  exact .create hop hnew hmessage hrole hinput
    ⟨(appendEvent_type hevent).1, first_event hnew hrun hruns hevent, (appendEvent_type hevent).2⟩
    (hins.trans (congrArg (fun x => some x.runs) hs').symm)
    (hins'.trans (congrArg (fun x => some x.durableJobs) hs').symm)
    ((((hj.addRun hnew hrun).message hadd).event hevent).addJob hjob)

theorem createUserRun_logEffect {c : CreateUserRun} {budget : Dict} {sourceKnown : UUID → Bool}
    (h : createUserRun c budget sourceKnown fresh view s = .ok (s', run)) :
    LogEffect view s (.createUserRun c budget sourceKnown fresh) s' := by
  simp only [createUserRun, bind_eq_ok, ensure_eq_ok] at h
  obtain ⟨_, _, _, _, h⟩ := h
  split at h
  · obtain ⟨rfl, -⟩ := Prod.mk.inj (pure_eq_ok.mp h)
    exact .idle
  · simp only [bind_eq_ok, ensure_eq_ok, pure_eq_ok, Prod.mk.injEq] at h
    obtain ⟨_, _, _, _, s₁, hnew, rfl, rfl⟩ := h
    exact commitNewRun_logEffect rfl (by exact rfl) rfl (by simp) rfl rfl .refl hnew

theorem automationThread_journaled {c : CreateAutomationRun} {stamp : Stamp}
    {known : Option Thread} {threadId : UUID}
    (h : automationThread c stamp known s = .ok (s', threadId)) : Journaled s [] [] s' := by
  cases known with
  | some thread =>
    obtain ⟨rfl, -⟩ := Prod.mk.inj (pure_eq_ok.mp h)
    exact .refl
  | none =>
    simp only [automationThread, bind_eq_ok, pure_eq_ok, Prod.mk.injEq] at h
    obtain ⟨_, _, rfl, -⟩ := h
    exact .write .refl rfl rfl (.refl _)

theorem createAutomationRun_logEffect {c : CreateAutomationRun} {budget : Dict}
    (h : createAutomationRun c budget fresh view s = .ok (s', run)) :
    LogEffect view s (.createAutomationRun c budget fresh) s' := by
  simp only [createAutomationRun, bind_eq_ok, ensure_eq_ok] at h
  obtain ⟨_, _, _, _, h⟩ := h
  split at h
  · obtain ⟨rfl, -⟩ := Prod.mk.inj (pure_eq_ok.mp h)
    exact .idle
  · simp only [bind_eq_ok, pure_eq_ok, Prod.exists, Prod.mk.injEq] at h
    obtain ⟨s₁, threadId, hthread, s₂, hnew, rfl, rfl⟩ := h
    exact commitNewRun_logEffect rfl (by exact rfl) rfl (by simp) rfl
      (automationThread_facts hthread) (automationThread_journaled hthread) hnew

theorem claimRun_logEffect {userId runId : UUID} {owner : String} {lease : ℤ}
    {claimed : Option AgentRun} (h : claimRun userId runId owner lease fresh s = .ok (s', claimed))
    (hop : op.posts = false) : LogEffect view s op s' := by
  simp only [claimRun, bind_eq_ok, ensure_eq_ok] at h
  obtain ⟨_, _, h⟩ := h
  split at h
  · obtain ⟨rfl, -⟩ := Prod.mk.inj (pure_eq_ok.mp h)
    exact .idle
  · simp only [bind_eq_ok, pure_eq_ok, Prod.exists, Prod.mk.injEq] at h
    obtain ⟨s₁, event, hevent, rfl, -⟩ := h
    have hcount : ∀ r, (claimValues owner (fresh 0).id (fresh 0).now ((fresh 0).now + lease) r).id =
        r.id ∧ (claimValues owner (fresh 0).id (fresh 0).now ((fresh 0).now + lease)
          r).eventSequence = r.eventSequence := fun _ => ⟨rfl, rfl⟩
    refine .of_event hop (by simp) (Journaled.refl.writeRuns ?_) hevent
    exact .update hcount fun _ _ _ h => h

theorem renewRunLease_logEffect {userId runId : UUID} {owner : String} {token : UUID} {lease : ℤ}
    {now : Timestamp} (hop : op.posts = false) :
    LogEffect view s op (renewRunLease userId runId owner token lease now s).1 := by
  have hcount : ∀ r, (renewLeaseValues now (now + lease) r).id = r.id ∧
      (renewLeaseValues now (now + lease) r).eventSequence = r.eventSequence := fun _ => ⟨rfl, rfl⟩
  unfold renewRunLease
  dsimp only
  split
  · exact .of_same hop rfl rfl (.update hcount fun _ _ _ h => h)
  · exact .idle

theorem recoverRun_journaled {fresh : UUID → Stamp} (h : recoverRun fresh s₁ run = .ok s')
    (hj : Journaled s [] events s₁) (hevents : ∀ e ∈ events, e.eventType ≠ .runCompleted) :
    ∃ events', Journaled s [] events' s' ∧ ∀ e ∈ events', e.eventType ≠ .runCompleted := by
  unfold recoverRun at h
  split at h
  case h_2 =>
    obtain rfl := pure_eq_ok.mp h
    exact ⟨events, hj, hevents⟩
  case h_1 =>
    simp only [bind_eq_ok, reraise_eq_ok] at h
    obtain ⟨recovered, hrecover, h⟩ := h
    split at h
    case isFalse =>
      obtain rfl := pure_eq_ok.mp h
      exact ⟨events, hj, hevents⟩
    case isTrue =>
      simp only [bind_eq_ok, pure_eq_ok, Prod.exists] at h
      obtain ⟨s₂, event, hevent, rfl⟩ := h
      have hcount : ∀ r, (updateValues recovered r).id = r.id ∧
          (updateValues recovered r).eventSequence = r.eventSequence := fun _ => ⟨rfl, rfl⟩
      refine ⟨_, (hj.writeRuns (.update hcount fun _ _ _ h => h)).event hevent, fun e he => ?_⟩
      rcases List.mem_append.mp he with he | he
      · exact hevents e he
      · obtain rfl := List.mem_singleton.mp he
        rw [(appendEvent_type hevent).2]
        simp

theorem recoverPendingRuns_logEffect {limit : ℕ} {now : Timestamp} {fresh : UUID → Stamp}
    (h : recoverPendingRuns limit now fresh view s = .ok s') (hop : op.posts = false) :
    LogEffect view s op s' := by
  have hfold : ∀ (runs : List AgentRun) {s₁ : Store} {events : List RunEvent},
      Journaled s [] events s₁ → (∀ e ∈ events, e.eventType ≠ .runCompleted) →
      runs.foldlM (recoverRun fresh) s₁ = .ok s' →
      ∃ events', Journaled s [] events' s' ∧ ∀ e ∈ events', e.eventType ≠ .runCompleted := by
    intro runs
    induction runs with
    | nil =>
      intro s₁ events hj hevents h
      obtain rfl := pure_eq_ok.mp h
      exact ⟨events, hj, hevents⟩
    | cons run runs ih =>
      intro s₁ events hj hevents h
      simp only [List.foldlM_cons, bind_eq_ok] at h
      obtain ⟨s₂, hfirst, hrest⟩ := h
      obtain ⟨events', hj', hevents'⟩ := recoverRun_journaled hfirst hj hevents
      exact ih hj' hevents' hrest
  obtain ⟨events', hj, hevents⟩ := hfold _ .refl (fun _ he => absurd he List.not_mem_nil) h
  exact .quiet hop hevents hj

theorem workerTransition_logEffect {c : WorkerCall}
    (h : workerTransition c fresh view s = .ok (s', run')) :
    LogEffect view s (.workerTransition c fresh) s' := by
  simp only [workerTransition, bind_eq_ok, ensure_eq_ok] at h
  obtain ⟨run, hrun, _, -, h⟩ := h
  obtain ⟨hread, -, -⟩ := getRun_ok hrun
  obtain ⟨userId, runId, action, claimOwner, claimToken⟩ := c
  cases action with
  | start phase label =>
    simp only [commitTransition, bind_eq_ok, pure_eq_ok, Prod.exists, Prod.mk.injEq] at h
    obtain ⟨run₁, -, s₁, hupdate, s₂, e, hevent, rfl, -⟩ := h
    exact .of_event rfl (by simp) (Journaled.refl.updateRun hupdate) hevent
  | wait payload interactionId =>
    simp only [commitTransition, bind_eq_ok, pure_eq_ok, Prod.exists, Prod.mk.injEq] at h
    obtain ⟨run₁, -, s₁, hopen, s₂, hupdate, s₃, e, hevent, s₄, e', hevent', rfl, -⟩ := h
    refine .quiet rfl (fun x hx => ?_)
      ((((Journaled.refl.addInteraction hopen).updateRun hupdate).event hevent).event hevent')
    simp only [List.nil_append, List.cons_append, List.mem_cons, List.not_mem_nil, or_false] at hx
    rcases hx with rfl | rfl
    · simp [(appendEvent_type hevent).2]
    · simp [(appendEvent_type hevent').2]
  | complete content =>
    simp only [commitTransition, bind_eq_ok, ensure_eq_ok, pure_eq_ok, Prod.exists,
      Prod.mk.injEq, valueErrorAsTransition_eq_ok] at h
    obtain ⟨_, _, s₁, hmessage, run₁, hmethod, s₂, hupdate, s₃, e, hevent, s₄, e', hevent', rfl,
      -⟩ := h
    obtain ⟨hversion, hs₂⟩ := Store.facts_updateRun hupdate
    rw [Store.facts_addMessage hmessage] at hversion hs₂
    have hs₄ : s₄.facts.runs = (RunRepository.update run₁ run.version s.facts.runs).1 := by
      rw [Store.facts_appendEvent hevent', Store.facts_appendEvent hevent, hs₂]
    refine .complete rfl hread hmethod rfl rfl ?_ (appendEvent_type hevent') hversion hs₄
      ((((Journaled.refl.message hmessage).updateRun hupdate).event hevent).event hevent')
    simp [(appendEvent_type hevent).2]
  | fail errorCode =>
    simp only [commitTransition, bind_eq_ok, pure_eq_ok, Prod.exists, Prod.mk.injEq] at h
    obtain ⟨run₁, -, s₁, hupdate, s₂, e, hevent, rfl, -⟩ := h
    exact .of_event rfl (by simp) (Journaled.refl.updateRun hupdate) hevent

theorem acceptTerminalOutput_logEffect {userId runId : UUID} {output : Dict} {owner : String}
    {token : UUID} {now : Timestamp}
    (h : acceptTerminalOutput userId runId output owner token now view s = .ok (s', run'))
    (hop : op.posts = false) : LogEffect view s op s' := by
  simp only [acceptTerminalOutput, bind_eq_ok, ensure_eq_ok] at h
  obtain ⟨run, hrun, _, _, run₁, hmethod, h⟩ := h
  split at h
  · simp only [bind_eq_ok, pure_eq_ok, Prod.mk.injEq] at h
    obtain ⟨s₁, hupdate, rfl, -⟩ := h
    exact .quiet hop (fun _ he => absurd he List.not_mem_nil) (Journaled.refl.updateRun hupdate)
  · obtain ⟨rfl, -⟩ := Prod.mk.inj (pure_eq_ok.mp h)
    exact .idle

theorem commitChange_journaled {c : ChangeCall} {eventType : RunEventType} {data : Dict}
    (h : commitChange c run fresh view s = .ok (s', run', eventType, data)) :
    Journaled s [] [] s' ∧ eventType ≠ .runCompleted := by
  obtain ⟨userId, runId, expectedVersion, key, change⟩ := c
  cases change with
  | resume interruptId response =>
    simp only [commitChange, bind_eq_ok, pure_eq_ok, Prod.mk.injEq] at h
    obtain ⟨_, _, _, _, _, _, _, _, rfl, -, rfl, -⟩ := h
    exact ⟨.write .refl rfl rfl (.refl _), by simp⟩
  | cancel =>
    simp only [commitChange, bind_eq_ok, pure_eq_ok, Prod.mk.injEq] at h
    obtain ⟨_, _, rfl, -, rfl, -⟩ := h
    exact ⟨.write .refl rfl rfl (.refl _), by simp⟩

theorem changeRun_logEffect {c : ChangeCall} {answer : AgentRun × Bool} {view' : ℕ → Store}
    (h : changeRun c fresh view' s = .ok (s', answer)) (hop : op.posts = false) :
    LogEffect view s op s' := by
  simp only [changeRun] at h
  split at h
  · simp only [bind_eq_ok, pure_eq_ok, Prod.mk.injEq] at h
    obtain ⟨_, _, rfl, -⟩ := h
    exact .idle
  · simp only [bind_eq_ok, pure_eq_ok, Prod.exists, Prod.mk.injEq] at h
    obtain ⟨run, -, _, -, s₁, run₁, eventType, data, hchange, s₂, hupdate, s₃, hrecord, s₄, e, hevent,
      rfl, -⟩ := h
    obtain ⟨hj, htype⟩ := commitChange_journaled hchange
    exact .of_event hop htype ((hj.updateRun hupdate).recordOperation hrecord) hevent

theorem cancelRun_logEffect {userId runId : UUID} {expectedVersion : ℕ} {key : String}
    {answer : AgentRun × Bool}
    (h : cancelRun userId runId expectedVersion key fresh view s = .ok (s', answer))
    (hop : op.posts = false) : LogEffect view s op s' := by
  simp only [cancelRun, bind_eq_ok] at h
  obtain ⟨_, _, _, _, h⟩ := h
  exact changeRun_logEffect h hop

theorem settled_logEffect {α : Type} {reply : α → Reply} {x : Raises (Store × α)}
    (hok : ∀ s' a, x = .ok (s', a) → LogEffect view s op s') :
    LogEffect view s op (settled s reply x).1 := by
  cases x with
  | error e => exact .idle
  | ok r => exact hok _ _ rfl

/-- What a transaction makes of the logs is its log effect. -/
theorem commit_logEffect (op : Op) (view : ℕ → Store) (s : Store) :
    LogEffect view s op (commit op view s).1 := by
  by_cases hop : op.onLedger = true
  · obtain ⟨toolExecutions, hs, -⟩ := commit_ledger op view s hop
    rw [hs]
    exact .of_same (by cases op <;> first | rfl | cases hop) rfl rfl (.refl _)
  cases op with
  | createThread => exact settled_logEffect fun _ _ h => createThread_logEffect h rfl
  | archiveThread => exact settled_logEffect fun _ _ h => archiveThread_logEffect h rfl
  | createUserRun => exact settled_logEffect fun _ _ h => createUserRun_logEffect h
  | createAutomationRun => exact settled_logEffect fun _ _ h => createAutomationRun_logEffect h
  | claimRun => exact settled_logEffect fun _ _ h => claimRun_logEffect h rfl
  | renewRunLease => exact renewRunLease_logEffect rfl
  | recoverPendingRuns =>
    refine settled_logEffect fun s' a h => ?_
    obtain ⟨_, hrecover, heq⟩ := map_eq_ok h
    obtain ⟨rfl, -⟩ := Prod.mk.inj heq
    exact recoverPendingRuns_logEffect hrecover rfl
  | workerTransition => exact settled_logEffect fun _ _ h => workerTransition_logEffect h
  | acceptTerminalOutput =>
    exact settled_logEffect fun _ _ h => acceptTerminalOutput_logEffect h rfl
  | resumeRun => exact settled_logEffect fun _ _ h => changeRun_logEffect h rfl
  | cancelRun => exact settled_logEffect fun _ _ h => cancelRun_logEffect h rfl
  | emitEvent =>
    refine settled_logEffect fun s' event h => ?_
    simp only [emitEvent, bind_eq_ok] at h
    obtain ⟨_, _, hevent⟩ := h
    exact .emit (appendEvent_type hevent).2 (.event .refl hevent)
  | claimAgentRunJobs =>
    refine settled_logEffect fun s' claims h => ?_
    simp only [claimAgentRunJobs, bind_eq_ok, pure_eq_ok, Prod.mk.injEq] at h
    obtain ⟨_, _, _, _, rfl, -⟩ := h
    exact .of_same rfl rfl rfl (.refl _)
  | claimReadyJobs => exact .of_same rfl rfl rfl (.refl _)
  | settleAgentRunJob =>
    refine settled_logEffect fun s' a h => ?_
    obtain ⟨_, hsettle, heq⟩ := map_eq_ok h
    obtain ⟨rfl, -⟩ := Prod.mk.inj heq
    simp only [settleAgentRunJob, bind_eq_ok, pure_eq_ok, Prod.exists] at hsettle
    obtain ⟨_, _, _, _, _, rfl⟩ := hsettle
    exact .of_same rfl rfl rfl (.refl _)
  | renewAgentRunJob =>
    simp only [commit, renewAgentRunJob]
    split
    · exact .of_same rfl rfl rfl (.refl _)
    · exact .idle
  | releaseForRetry => exact .of_same rfl rfl rfl (.refl _)
  | _ => exact absurd rfl hop

end Runtime
