import Laoshiren.Runtime.Proofs.JournalProofs

/-!
# The event log of a Run

The events of a Run are a numbered log that grows at its end, so a reader that asks for the events
beyond the last one it has seen misses none and sees none twice, however the log grows meanwhile.
-/

namespace Runtime

open Raise RunRepository

variable {s s' : Store} {view : ℕ → Store} {op : Op}

/-! ## Every history -/

theorem LogEffect.eventsFit (h : LogEffect view s op s') (hfit : EventsFit s) : EventsFit s' := by
  cases h with
  | idle => exact hfit
  | quiet _ _ hj => exact hfit.journaled hj
  | emit _ hj => exact hfit.journaled hj
  | create _ _ _ _ _ _ _ _ hj => exact hfit.journaled hj
  | complete _ _ _ _ _ _ _ _ _ hj => exact hfit.journaled hj

theorem LogEffect.events_begin (h : LogEffect view s op s') : s.events.rows <+: s'.events.rows := by
  cases h with
  | idle => exact List.prefix_refl _
  | quiet _ _ hj => exact ⟨_, hj.events_eq.symm⟩
  | emit _ hj => exact ⟨_, hj.events_eq.symm⟩
  | create _ _ _ _ _ _ _ _ hj => exact ⟨_, hj.events_eq.symm⟩
  | complete _ _ _ _ _ _ _ _ _ hj => exact ⟨_, hj.events_eq.symm⟩

/-- The events fit in every state, and a later state has those of an earlier one at its start. -/
theorem events_stable : Program.Stable system (fun _ _ _ => True) EventsFit
    (fun v s => v.events.rows <+: s.events.rows) where
  init s hs := by
    obtain rfl : s = {} := hs
    exact ⟨fun r hr => absurd hr Table.not_mem_empty, fun e he => absurd he Table.not_mem_empty⟩
  refl s := List.prefix_refl _
  trans _ _ _ h h' := h.trans h'
  step op view s hinv _ _ :=
    ⟨(commit_logEffect op view s).eventsFit hinv, (commit_logEffect op view s).events_begin⟩

/-- Every message that names a Run names one that is there. -/
def MessagesOwned (s : Store) : Prop :=
  ∀ m ∈ s.messages, ∀ runId ∈ m.runId, ∃ r ∈ s.runs, r.id = runId

theorem MessagesOwned.journaled (h : MessagesOwned s) {messages : List Message}
    {events : List RunEvent} (hj : Journaled s messages events s')
    (hnew : ∀ m ∈ messages, ∀ runId ∈ m.runId, ∃ r ∈ s'.runs, r.id = runId) : MessagesOwned s' := by
  intro m hm runId hrun
  rw [← Table.mem_rows, hj.messages_eq, List.mem_append] at hm
  rcases hm with hm | hm
  · obtain ⟨r, hr, rfl⟩ := h m hm runId hrun
    obtain ⟨r', hr', hid, -⟩ := hj.runs_kept r hr
    exact ⟨r', hr', hid⟩
  · exact hnew m hm runId hrun

theorem LogEffect.messagesOwned (h : LogEffect view s op s')
    (hview : RunsLater (view 0).facts.runs s.facts.runs) (howned : MessagesOwned s) :
    MessagesOwned s' := by
  cases h with
  | idle => exact howned
  | quiet _ _ hj => exact howned.journaled hj (by simp)
  | emit _ hj => exact howned.journaled hj (by simp)
  | create _ _ hmessage _ _ _ hrun _ hj =>
    refine howned.journaled hj fun m hm runId hrunId => ?_
    obtain rfl := List.mem_singleton.mp hm
    obtain ⟨r, hr, hfacts⟩ :=
      Store.exists_of_mem_facts_runs ((Table.mem_insert? hrun).mpr (.inr rfl))
    have hid : r.id = _ := (congrArg AgentRun.id hfacts :)
    exact ⟨r, hr, hid.trans (Option.some.inj (hmessage.symm.trans hrunId))⟩
  | complete _ hread _ hmessage _ _ _ _ _ hj =>
    refine howned.journaled hj fun m hm runId hrunId => ?_
    obtain rfl := List.mem_singleton.mp hm
    obtain ⟨row, hrow, hid, -⟩ := hview _ (Store.mem_facts_runs hread)
    obtain ⟨r, hr, rfl⟩ := Store.exists_of_mem_facts_runs hrow
    obtain ⟨r', hr', hid', -⟩ := hj.runs_kept r hr
    exact ⟨r', hr', (hid'.trans hid).trans (Option.some.inj (hmessage.symm.trans hrunId))⟩

/-- Runs, events and messages together. -/
theorem logs_stable : Program.Stable system (fun _ _ _ => True)
    (fun s => (RunsWellFormed s.facts.runs ∧ EventsFit s) ∧ MessagesOwned s)
    (fun v s => RunsLater v.facts.runs s.facts.runs ∧ v.events.rows <+: s.events.rows) := by
  refine (runs_stable.and events_stable).strengthen MessagesOwned ?_ ?_
  · rintro s rfl m hm
    exact absurd hm Table.not_mem_empty
  · intro op view s _ howned hviews _
    exact (commit_logEffect op view s).messagesOwned (hviews 0).2.2.1 howned

/-! ## Readers -/

theorem eventsOf_prefix {runId : UUID} (h : s.events.rows <+: s'.events.rows) :
    eventsOf runId s.events <+: eventsOf runId s'.events := by
  obtain ⟨rest, hrest⟩ := h
  refine ⟨rest.filter fun e => e.runId = runId, ?_⟩
  rw [eventsOf, eventsOf, Table.select, Table.select, ← List.filter_append, hrest]

/-- The Run that a reader of it finds. -/
theorem get_isSome_iff {userId runId : UUID} {runs : Table AgentRun} :
    (RunRepository.get userId runId runs).isSome ↔
      ∃ run ∈ runs, run.id = runId ∧ run.userId = userId := by
  simp [RunRepository.get, Table.get, List.find?_isSome, Table.mem_rows]

/-- The page of a Run of the user is a page of its log. -/
theorem RunRepository.listEvents_eq_page {userId runId : UUID} (after : Option ℕ) (limit : ℕ)
    (hjoin : ∃ run ∈ s.runs, run.id = runId ∧ run.userId = userId) :
    RunRepository.listEvents userId runId after limit s.runs s.events =
      NumberedLog.page RunEvent.sequence after limit (eventsOf runId s.events) := by
  have hselect : (s.events.select fun e =>
      (∃ r ∈ s.runs.rows, r.id = e.runId ∧ r.userId = userId) ∧ e.runId = runId ∧
        ∀ n ∈ after, n < e.sequence) =
      (eventsOf runId s.events).filter fun e => ∀ n ∈ after, n < e.sequence := by
    simp only [eventsOf, Table.select, List.filter_filter]
    refine List.filter_congr fun e _ => ?_
    by_cases hid : e.runId = runId
    · have hexists : ∃ r ∈ s.runs.rows, r.id = runId ∧ r.userId = userId := hjoin
      simp [hid, hexists]
    · simp [hid]
  simp only [RunRepository.listEvents, hselect, NumberedLog.page]

/-- A page of a Run that the user owns is a page of its log. -/
theorem listEvents_eq_page (view : ℕ → Store) {userId runId : UUID} (after : Option ℕ) (limit : ℕ)
    (hrun : ∃ run ∈ (view 0).runs, run.id = runId ∧ run.userId = userId)
    (hjoin : ∃ run ∈ (view 2).runs, run.id = runId ∧ run.userId = userId) :
    listEvents userId runId none after limit view =
      .ok (NumberedLog.page RunEvent.sequence after limit (eventsOf runId (view 2).events)) := by
  obtain ⟨run, hget⟩ := Option.isSome_iff_exists.mp (get_isSome_iff.mpr hrun)
  simp only [listEvents, getRun, hget, orRaise]
  cases after <;> simp [RunRepository.listEvents_eq_page _ limit hjoin]

theorem listEvents_error (view : ℕ → Store) {userId runId : UUID} (after : Option ℕ) (limit : ℕ)
    (hrun : ¬∃ run ∈ (view 0).runs, run.id = runId ∧ run.userId = userId) :
    ∃ error, listEvents userId runId none after limit view = .error error := by
  have hget : RunRepository.get userId runId (view 0).runs = none := by
    rw [← Option.not_isSome_iff_eq_none, get_isSome_iff]
    exact hrun
  exact ⟨_, by simp only [listEvents, getRun, hget, orRaise]; rfl⟩

/-- The log that the call `k` of a reader sees: none before the Run is there. -/
def readLog (userId runId : UUID) (read : ℕ → Store) (k : ℕ) : List RunEvent :=
  if (RunRepository.get userId runId (read (3 * k)).runs).isSome then
    eventsOf runId (read (3 * k + 2)).events
  else []

variable {userId runId : UUID} {limit : ℕ} {read : ℕ → Store}

/-- A Run of the user stays one. -/
theorem exists_later {v : Store} (hlater : RunsLater v.facts.runs s.facts.runs)
    (h : ∃ run ∈ v.runs, run.id = runId ∧ run.userId = userId) :
    ∃ run ∈ s.runs, run.id = runId ∧ run.userId = userId := by
  obtain ⟨run, hrun, hid, huser⟩ := h
  obtain ⟨r, hr, hrid, hrow⟩ := hlater _ (Store.mem_facts_runs hrun)
  obtain ⟨run', hrun', rfl⟩ := Store.exists_of_mem_facts_runs hr
  exact ⟨run', hrun', hrid.trans hid, hrow.userId.trans huser⟩

/-- A reader of the events of a Run reads its log page by page. -/
theorem followEvents_eq_follow
    (hlater : ∀ i j, i ≤ j → RunsLater (read i).facts.runs (read j).facts.runs) (k : ℕ) :
    followEvents userId runId limit read k =
      NumberedLog.follow RunEvent.sequence limit (readLog userId runId read) k := by
  induction k with
  | zero => rfl
  | succ k ih =>
    simp only [followEvents, NumberedLog.follow, ih]
    by_cases hfound : (RunRepository.get userId runId (read (3 * k)).runs).isSome
    · have hrun := get_isSome_iff.mp hfound
      have hlog : readLog userId runId read k = eventsOf runId (read (3 * k + 2)).events :=
        if_pos hfound
      rw [listEvents_eq_page (fun n => read (3 * k + n)) _ limit hrun
        (exists_later (hlater _ _ (by omega)) hrun), hlog]
      rfl
    · have hlog : readLog userId runId read k = [] := if_neg hfound
      obtain ⟨error, herror⟩ := listEvents_error (fun n => read (3 * k + n))
        (NumberedLog.cursor RunEvent.sequence
          (NumberedLog.follow RunEvent.sequence limit (readLog userId runId read) k)) limit
        (mt get_isSome_iff.mpr hfound)
      simp only [NumberedLog.cursor] at herror
      rw [herror, hlog]
      simp [NumberedLog.page]

/-- The logs that a reader sees one after the other are numbered and grow at their end. -/
theorem readLog_grows
    (hlater : ∀ i j, i ≤ j → RunsLater (read i).facts.runs (read j).facts.runs)
    (hgrows : ∀ i j, i ≤ j → (read i).events.rows <+: (read j).events.rows)
    (hfit : ∀ n, EventsFit (read n)) (k : ℕ) :
    NumberedLog.Numbered RunEvent.sequence (readLog userId runId read k) ∧
      readLog userId runId read k <+: readLog userId runId read (k + 1) := by
  by_cases hfound : (RunRepository.get userId runId (read (3 * k)).runs).isSome
  · have hlog : readLog userId runId read k = eventsOf runId (read (3 * k + 2)).events :=
      if_pos hfound
    have hrun := get_isSome_iff.mp hfound
    have hnext : readLog userId runId read (k + 1) =
        eventsOf runId (read (3 * (k + 1) + 2)).events :=
      if_pos (get_isSome_iff.mpr (exists_later (hlater _ _ (by omega)) hrun))
    rw [hlog, hnext]
    refine ⟨?_, eventsOf_prefix (hgrows _ _ (by omega))⟩
    obtain ⟨run, hrun', rfl, -⟩ := exists_later (hlater (3 * k) (3 * k + 2) (by omega)) hrun
    have hnumbered := (hfit _).numbered run hrun'
    have hlength := congrArg List.length hnumbered
    rw [List.length_map, List.length_range'] at hlength
    rwa [NumberedLog.Numbered, hlength]
  · have hlog : readLog userId runId read k = [] := if_neg hfound
    rw [hlog]
    exact ⟨.nil, List.nil_prefix⟩

/-- In every history: the events of every Run have exactly the numbers from 1 to its event counter.
A reader of the events of a Run, whose calls read states committed one after the other, has seen the
beginning of the log, every event once and in order; and as many calls after a state as the Run had
events there, it has seen them all. -/
theorem event_log_complete {h : History Store Op Reply} (hr : system.Reachable h) :
    (∀ s ∈ h.states, ∀ run ∈ s.runs,
      (eventsOf run.id s.events).map RunEvent.sequence = List.range' 1 run.eventSequence) ∧
    ∀ (userId runId : UUID) (limit : ℕ), 1 ≤ limit → ∀ (t : ℕ → Fin h.states.length), Monotone t →
      let seen := followEvents userId runId limit fun n => h.stateAt (t n)
      (∀ k, (seen k).map RunEvent.sequence = List.range' 1 (seen k).length ∧
        seen k <+: eventsOf runId (h.stateAt (t (3 * k))).events) ∧
      ∀ (v : Fin h.states.length) (i k : ℕ), v ≤ t (3 * i) →
        (∃ run ∈ (h.stateAt v).runs, run.id = runId ∧ run.userId = userId) →
        i + (eventsOf runId (h.stateAt v).events).length ≤ k →
        eventsOf runId (h.stateAt v).events <+: seen k := by
  refine ⟨fun s hs run hrun => (events_stable.inv_mem hr hs).numbered run hrun, ?_⟩
  intro userId runId limit hlimit t ht seen
  have hlater : ∀ i j, i ≤ j →
      RunsLater (h.stateAt (t i)).facts.runs (h.stateAt (t j)).facts.runs :=
    fun i j hij => runs_stable.rel_stateAt hr (ht hij)
  have hgrows : ∀ i j, i ≤ j →
      (h.stateAt (t i)).events.rows <+: (h.stateAt (t j)).events.rows :=
    fun i j hij => events_stable.rel_stateAt hr (ht hij)
  have hfit : ∀ n, EventsFit (h.stateAt (t n)) := fun n =>
    events_stable.inv_mem hr (h.stateAt_mem _)
  have hlogs : ∀ k, NumberedLog.Numbered RunEvent.sequence
        (readLog userId runId (fun n => h.stateAt (t n)) k) ∧
      readLog userId runId (fun n => h.stateAt (t n)) k <+:
        readLog userId runId (fun n => h.stateAt (t n)) (k + 1) :=
    readLog_grows hlater hgrows hfit
  have hseen : ∀ k, seen k = NumberedLog.follow RunEvent.sequence limit
      (readLog userId runId fun n => h.stateAt (t n)) k := followEvents_eq_follow hlater
  have hbegin : ∀ k, seen k <+: readLog userId runId (fun n => h.stateAt (t n)) k := fun k => by
    rw [hseen]
    exact NumberedLog.follow_begins (fun k => (hlogs k).1) (fun k => (hlogs k).2) k
  refine ⟨fun k => ⟨(hlogs k).1.of_begins (hbegin k), ?_⟩, fun v i k hv hrun hk => ?_⟩
  · cases k with
    | zero => exact List.nil_prefix
    | succ k =>
      have hpage : seen (k + 1) <+: readLog userId runId (fun n => h.stateAt (t n)) k := by
        rw [hseen, NumberedLog.follow_succ (fun k => (hlogs k).1) (by rw [← hseen]; exact hbegin k)]
        exact List.take_prefix _ _
      refine hpage.trans ?_
      unfold readLog
      split
      · exact eventsOf_prefix (hgrows _ _ (by omega))
      · exact List.nil_prefix
  · have hlog : eventsOf runId (h.stateAt v).events <+:
        readLog userId runId (fun n => h.stateAt (t n)) i := by
      have hfound := get_isSome_iff.mpr (exists_later (runs_stable.rel_stateAt hr hv) hrun)
      rw [readLog, if_pos hfound]
      exact eventsOf_prefix (events_stable.rel_stateAt hr (hv.trans (ht (by omega))))
    rw [hseen]
    exact NumberedLog.begins_follow (fun k => (hlogs k).1) (fun k => (hlogs k).2) hlimit hlog hk

theorem event_log_complete_waitingRun :
    (∀ s ∈ (system.serial {} waitingRun).states, ∀ run ∈ s.runs,
      (eventsOf run.id s.events).map RunEvent.sequence = List.range' 1 run.eventSequence) ∧
      (eventsOf 10 (system.serial {} waitingRun).cur.events).map RunEvent.eventType =
        [.runQueued, .runStarted, .hitlRequested, .runWaitingForUser] :=
  ⟨(event_log_complete (system.serial_reachable rfl _)).1, by decide⟩

end Runtime
