import Laoshiren.Runtime.Proofs.EventLogProofs
import Laoshiren.Runtime.StreamRun

/-!
# What a stream yields

Every look at the log goes on behind the last event that was yielded, so that the stream yields a
piece of the log from its cursor on. The check of the status comes after a look and reads another
state: events that were committed in between, with the terminal status, are never looked at.
-/

/-! ## Proofs: the event stream of a Run -/

namespace Runtime

open Raise

variable {userId runId : UUID} {view : ℕ → Store} {stream : EventStream} {events : Table RunEvent}

/-- A page comes from the log. -/
theorem mem_of_listEvents {afterEventId : Option UUID} {afterSequence : Option ℕ} {limit : ℕ}
    {page : List RunEvent}
    (h : listEvents userId runId afterEventId afterSequence limit view = .ok page) :
    ∀ e ∈ page, e ∈ (view 2).events := by
  have hpage : ∀ after, ∀ e ∈ RunRepository.listEvents userId runId after limit (view 2).runs
      (view 2).events, e ∈ (view 2).events := by
    intro after e he
    have hsorted := List.mem_of_mem_take he
    rw [List.mem_insertionSort] at hsorted
    exact (Table.mem_select.mp hsorted).1
  simp only [listEvents, bind_eq_ok] at h
  obtain ⟨run, -, h⟩ := h
  split at h
  · split at h
    · obtain rfl := pure_eq_ok.mp h
      exact fun e he => absurd he List.not_mem_nil
    · obtain rfl := pure_eq_ok.mp h
      exact hpage _
  · obtain rfl := pure_eq_ok.mp h
    exact hpage _

/-- A stream that follows a Run and has events of the log to send. -/
structure EventStream.Holds (stream : EventStream) (userId runId : UUID) (events : Table RunEvent) :
    Prop where
  userId : stream.userId = userId
  runId : stream.runId = runId
  follow : stream.follow = true
  pending : ∀ e ∈ stream.pending, e ∈ events

theorem streamRunEvents_holds {py : Builtins} {lastEventId : Option String}
    (h : streamRunEvents py userId runId lastEventId true view = .ok stream) :
    stream.Holds userId runId (view 2).events := by
  unfold streamRunEvents at h
  split at h
  · cases h
  · split at h
    · cases h
    · rename_i initial hinitial
      cases h
      exact ⟨rfl, rfl, rfl, mem_of_listEvents hinitial⟩

theorem EventStream.Holds.next (h : stream.Holds userId runId events) (disconnected : Bool)
    (signal : Option EphemeralFrameDTO) (hview : ∀ e ∈ (view 2).events, e ∈ events) :
    (stream.next disconnected signal view).1.Holds userId runId events ∧
      ∀ e, (stream.next disconnected signal view).2 = some (.event e) → e ∈ events := by
  obtain ⟨huser, hrun, hfollow, hpending⟩ := h
  unfold EventStream.next
  split
  · split
    · rename_i event pending hsplit
      rw [hsplit] at hpending
      refine ⟨⟨huser, hrun, hfollow, fun e he => hpending e (List.mem_cons_of_mem _ he)⟩, ?_⟩
      rintro e ⟨⟩
      exact hpending event List.mem_cons_self
    · split
      · exact ⟨⟨huser, hrun, hfollow, hpending⟩, nofun⟩
      · split_ifs
        · exact ⟨⟨huser, hrun, hfollow, hpending⟩, nofun⟩
        · exact ⟨⟨huser, hrun, hfollow, hpending⟩, nofun⟩
        · refine ⟨⟨huser, hrun, hfollow, hpending⟩, ?_⟩
          intro e he
          cases signal with
          | none => cases he
          | some signal => cases he
  · split
    · exact ⟨⟨huser, hrun, hfollow, hpending⟩, nofun⟩
    · rename_i page hpage
      exact ⟨⟨huser, hrun, hfollow, fun e he => hview e (mem_of_listEvents hpage e he)⟩, nofun⟩
  · exact ⟨⟨huser, hrun, hfollow, hpending⟩, nofun⟩

/-- The server does not end the stream of a Run that it sees wait. -/
theorem EventStream.Holds.next_waiting {signal : Option EphemeralFrameDTO} {run : AgentRun}
    (h : stream.Holds userId runId events) (hstage : stream.stage ≠ .ended)
    (hrun : getRun (view 0) userId runId = .ok run) (hwaits : run.status = .waitingForUser) :
    (stream.next false signal view).1.stage ≠ .ended := by
  have hopen : run.status.terminal = false := by
    rw [hwaits]
    rfl
  unfold EventStream.next
  rw [h.userId, h.runId, hrun]
  split
  · split
    · rename_i hstage' _ _ _ _
      simp [hstage']
    · simp [h.follow, hopen]
  · have hlist : ∃ page, listEvents userId runId none stream.cursor 200 view = .ok page := by
      simp only [listEvents, hrun]
      split
      · rename_i hnone
        cases hnone
      · exact ⟨_, rfl⟩
    obtain ⟨page, hpage⟩ := hlist
    rw [hpage]
    simp
  · rename_i hended
    exact absurd hended hstage

end Runtime

/-! ## What a stream yields -/

namespace Runtime

open Raise

variable {h : History Store Op Reply} {userId runId : UUID} {view : ℕ → Store}
  {x : StreamRun} {py : Builtins} {cursor : StreamCursor} {stream : EventStream}

/-! ## The log of a Run in a history -/

/-- The log of a Run is numbered in every state, even before the Run is there. -/
theorem numbered_eventsOf {s : Store} (hfit : EventsFit s) (runId : UUID) :
    NumberedLog.Numbered RunEvent.sequence (eventsOf runId s.events) := by
  by_cases hrun : ∃ run ∈ s.runs, run.id = runId
  · obtain ⟨run, hmem, rfl⟩ := hrun
    have hnumbered := hfit.numbered run hmem
    have hlength := congrArg List.length hnumbered
    rw [List.length_map, List.length_range'] at hlength
    rwa [NumberedLog.Numbered, hlength]
  · rw [hfit.eventsOf_nil fun r hr hid => hrun ⟨r, hr, hid⟩]
    exact .nil

/-- An earlier log is the beginning of the present one. -/
theorem eventsOf_begins {s : Store} (hr : system.Reachable h) (hs : s ∈ h.states) (runId : UUID) :
    eventsOf runId s.events <+: eventsOf runId h.cur.events :=
  eventsOf_prefix (events_stable.rel_mem hr hs)

/-- The page that any state of the history gives of a Run of the user. -/
theorem listEvents_page {s : Store} (hr : system.Reachable h) (hs : s ∈ h.states)
    (howned : ∃ v ∈ h.states, ∃ run ∈ v.runs, run.id = runId ∧ run.userId = userId)
    (after : Option ℕ) (limit : ℕ) :
    RunRepository.listEvents userId runId after limit s.runs s.events =
      NumberedLog.page RunEvent.sequence after limit (eventsOf runId s.events) := by
  by_cases hrun : ∃ run ∈ s.runs, run.id = runId
  · -- the Run of this id has the same user in every state
    obtain ⟨run, hmem, hid⟩ := hrun
    obtain ⟨v, hv, hvrun⟩ := howned
    obtain ⟨run', hmem', hid', huser'⟩ := exists_later (runs_stable.rel_mem hr hv) hvrun
    have hsrun : ∃ r ∈ s.runs, r.id = runId ∧ r.userId = run.userId := ⟨run, hmem, hid, rfl⟩
    obtain ⟨run'', hmem'', hid'', huser''⟩ := exists_later (runs_stable.rel_mem hr hs) hsrun
    refine RunRepository.listEvents_eq_page after limit ⟨run, hmem, hid, ?_⟩
    rw [← huser'', run_ext hmem'' hmem' (hid''.trans hid'.symm), huser']
  · have hfit := events_stable.inv_mem hr hs
    have hnone : ∀ r ∈ s.runs, r.id ≠ runId := fun r hr hid => hrun ⟨r, hr, hid⟩
    have hempty : (s.events.select fun e => (∃ r ∈ s.runs.rows, r.id = e.runId ∧ r.userId = userId) ∧
        e.runId = runId ∧ ∀ n ∈ after, n < e.sequence) = [] := by
      refine List.filter_eq_nil_iff.mpr fun e he hp => ?_
      have hid : e.runId = runId := (by simpa using hp : _ ∧ e.runId = runId ∧ _).2.1
      obtain ⟨r, hr, hrid⟩ := hfit.owned e he
      exact hnone r hr (hrid.trans hid)
    rw [hfit.eventsOf_nil hnone, RunRepository.listEvents, hempty]
    simp [NumberedLog.page]

/-- A look that is answered. -/
theorem listEvents_ok {after : Option ℕ} {page : List RunEvent} (hr : system.Reachable h)
    (hview : ∀ n, view n ∈ h.states)
    (howned : ∃ v ∈ h.states, ∃ run ∈ v.runs, run.id = runId ∧ run.userId = userId)
    (hlist : listEvents userId runId none after 200 view = .ok page) :
    page = NumberedLog.page RunEvent.sequence after 200 (eventsOf runId (view 2).events) := by
  simp only [listEvents, bind_eq_ok] at hlist
  obtain ⟨run, -, hpage⟩ := hlist
  rw [← listEvents_page hr (hview 2) howned]
  cases after <;> exact (pure_eq_ok.mp hpage).symm

namespace StreamRun

/-! ## Opening -/

/-- The id of an event is read as one. -/
theorem parseLastEventId_event {e : RunEvent} (hread : (StreamCursor.event e).ReadBy py) :
    parseLastEventId py (StreamCursor.event e).text = some (none, some e.id) := by
  have hint : py.intOfText e.id.str = none := hread
  simp only [StreamCursor.text, parseLastEventId, hint, UUID.parse?_str, Option.map_some]

/-- The first page is the one beyond the cursor. -/
theorem opened_page (hr : system.Reachable h) (hview : ∀ n, view n ∈ h.states)
    (hread : cursor.ReadBy py) (hcommitted : cursor.Committed runId (view 1).events)
    (hstream : streamRunEvents py userId runId cursor.text true view = .ok stream) :
    ∃ page after, stream =
        { userId, runId, follow := true, pending := page,
          cursor := (page.getLast?.map RunEvent.sequence).or after } ∧
      (after = some cursor.number ∨ after = none) ∧
      page = NumberedLog.page RunEvent.sequence (some cursor.number) 200
        (eventsOf runId (view 2).events) ∧
      ∃ run ∈ (view 0).runs, run.id = runId ∧ run.userId = userId := by
  have hstart : ∀ log : List RunEvent, NumberedLog.Numbered RunEvent.sequence log →
      NumberedLog.page RunEvent.sequence none 200 log =
        NumberedLog.page RunEvent.sequence (some 0) 200 log := fun log hlog => by
    rw [hlog.page_eq, hlog.page_eq]
    rfl
  have hnumbered := numbered_eventsOf (events_stable.inv_mem hr (hview 2)) runId
  -- what the parsed cursor makes of the request
  have hopen : ∀ after legacy, parseLastEventId py cursor.text = some (after, legacy) →
      ∃ page, listEvents userId runId legacy after 200 view = .ok page ∧
        stream = { userId, runId, follow := true, pending := page,
                   cursor := (page.getLast?.map RunEvent.sequence).or after } := by
    intro after legacy hparse
    simp only [streamRunEvents, hparse] at hstream
    split at hstream
    · cases hstream
    case h_2 page hlist => exact ⟨page, hlist, (Except.ok.inj hstream).symm⟩
  have hfound : ∀ {after legacy page}, listEvents userId runId legacy after 200 view = .ok page →
      ∃ run ∈ (view 0).runs, run.id = runId ∧ run.userId = userId := by
    intro after legacy page hlist
    simp only [listEvents, bind_eq_ok] at hlist
    obtain ⟨run, hrun, -⟩ := hlist
    obtain ⟨hmem, hid, huser⟩ := getRun_ok hrun
    exact ⟨run, hmem, hid, huser⟩
  cases cursor with
  | beginning =>
    obtain ⟨page, hlist, rfl⟩ := hopen none none rfl
    have hrun := hfound hlist
    refine ⟨page, none, rfl, .inr rfl, ?_, hrun⟩
    rw [listEvents_ok hr hview ⟨_, hview 0, hrun⟩ hlist]
    exact hstart _ hnumbered
  | sequence n =>
    have hparse : parseLastEventId py (some n.repr) = some (some n, none) := by
      have hint : py.intOfText n.repr = some (Int.ofNat n) := hread
      simp only [parseLastEventId, hint]
    obtain ⟨page, hlist, rfl⟩ := hopen (some n) none hparse
    have hrun := hfound hlist
    exact ⟨page, some n, rfl, .inl rfl, listEvents_ok hr hview ⟨_, hview 0, hrun⟩ hlist, hrun⟩
  | event e =>
    obtain ⟨page, hlist, rfl⟩ := hopen none (some e.id) (parseLastEventId_event hread)
    have hrun := hfound hlist
    refine ⟨page, none, rfl, .inr rfl, ?_, hrun⟩
    obtain ⟨hmem, hid⟩ := hcommitted
    have hsequence : RunRepository.sequenceOf runId e.id (view 1).events = some e.sequence := by
      have hget : (view 1).events.get (fun e' => e'.id = e.id ∧ e'.runId = runId) = some e :=
        Table.get_of_mem hmem (by simp [hid]) fun e' hp => .inl (by simpa using hp : _ ∧ _).1
      simp only [RunRepository.sequenceOf, hget, Option.map_some]
    simp only [listEvents, bind_eq_ok, hsequence] at hlist
    obtain ⟨_, -, hpage⟩ := hlist
    rw [← pure_eq_ok.mp hpage]
    exact listEvents_page hr (hview 2) ⟨_, hview 0, hrun⟩ _ _

/-! ## One step -/

/-- A step of the stream yields an event, looks at the log, or does neither. -/
theorem serve_cases (x : StreamRun) (disconnected : Bool) (signal : Option EphemeralFrameDTO)
    (view : ℕ → Store) (hfollow : x.stream.follow = true) :
    (∃ e pending, x.stream.stage = .sending ∧ x.stream.pending = e :: pending ∧
      x.serve disconnected signal view =
        { x with
          stream := { x.stream with cursor := some e.sequence, pending }
          emitted := x.emitted ++ [e] }) ∨
    (∃ page, x.stream.stage = .listing ∧
      listEvents x.stream.userId x.stream.runId none x.stream.cursor 200 view = .ok page ∧
      x.serve disconnected signal view =
        { x with
          stream := { x.stream with pending := page, stage := .sending }
          read := eventsOf x.stream.runId (view 2).events
          since := x.cursor.number + x.emitted.length }) ∨
    ∃ stage observed, (x.stream.stage = .sending → x.stream.pending = []) ∧ stage ≠ .sending ∧
      (x.stream.stage = .ended → stage = .ended) ∧
      (observed = x.observed ∨ observed = some (view 0) ∧ stage = .ended) ∧
      x.serve disconnected signal view =
        { x with stream := { x.stream with stage }, observed } := by
  cases hstage : x.stream.stage with
  | sending =>
    cases hpending : x.stream.pending with
    | cons e pending =>
      refine .inl ⟨e, pending, rfl, rfl, ?_⟩
      simp [serve, EventStream.next, seesTerminal, hstage, hpending, Frame.durable]
    | nil =>
      refine .inr (.inr ?_)
      cases hrun : getRun (view 0) x.stream.userId x.stream.runId with
      | error error =>
        refine ⟨.ended, x.observed, fun _ => rfl, by simp, fun _ => rfl, .inl rfl, ?_⟩
        simp [serve, EventStream.next, seesTerminal, hstage, hpending, hrun, Except.toOption]
      | ok run =>
        by_cases hover : run.status.terminal = true
        · refine ⟨.ended, some (view 0), fun _ => rfl, by simp, fun _ => rfl, .inr ⟨rfl, rfl⟩, ?_⟩
          simp [serve, EventStream.next, seesTerminal, hstage, hpending, hrun, hover,
            Except.toOption]
        · have hopen : run.status.terminal = false := by simpa using hover
          cases disconnected with
          | true =>
            refine ⟨.ended, x.observed, fun _ => rfl, by simp, fun _ => rfl, .inl rfl, ?_⟩
            simp [serve, EventStream.next, seesTerminal, hstage, hpending, hrun, hopen, hfollow,
              Except.toOption]
          | false =>
            refine ⟨.listing, x.observed, fun _ => rfl, by simp, fun h => (by cases h),
              .inl rfl, ?_⟩
            cases signal <;>
              simp [serve, EventStream.next, seesTerminal, hstage, hpending, hrun, hopen, hfollow,
                Except.toOption, Frame.durable]
  | listing =>
    cases hlist : listEvents x.stream.userId x.stream.runId none x.stream.cursor 200 view with
    | ok page =>
      refine .inr (.inl ⟨page, rfl, rfl, ?_⟩)
      simp [serve, EventStream.next, seesTerminal, hstage, hlist]
    | error error =>
      refine .inr (.inr ⟨.ended, x.observed, fun h => (by cases h), by simp, fun _ => rfl, .inl rfl, ?_⟩)
      simp [serve, EventStream.next, seesTerminal, hstage, hlist]
  | ended =>
    refine .inr (.inr ⟨.ended, x.observed, fun h => (by cases h), by simp, fun _ => rfl, .inl rfl, ?_⟩)
    have hsame : x.stream = { x.stream with stage := .ended } := by rw [← hstage]
    simp [serve, EventStream.next, seesTerminal, hstage, ← hsame]

/-! ## Every run -/

/-- What holds of a stream that always knows its place. -/
structure Kept (x : StreamRun) : Prop where
  history : system.Reachable x.history
  owned : ∃ s ∈ x.history.states, ∃ run ∈ s.runs,
    run.id = x.stream.runId ∧ run.userId = x.stream.userId
  follow : x.stream.follow = true
  begins : x.emitted ++ x.stream.pending <+: (x.log x.history.cur).drop x.cursor.number
  idle : x.stream.stage ≠ .sending → x.stream.pending = []
  /-- Between two looks the cursor is the number of the last event that was yielded. -/
  place : x.stream.pending = [] → x.stream.cursor = some (x.cursor.number + x.emitted.length) ∨
    x.stream.cursor = none ∧ x.emitted = []
  read : x.read <+: x.log x.history.cur
  since : x.cursor.number ≤ x.since
  looked : x.cursor.number + (x.emitted ++ x.stream.pending).length =
    max x.since (min x.read.length (x.since + 200))
  observed : ∀ s, x.observed = some s → s ∈ x.history.states ∧ x.stream.stage = .ended

/-- A log has the numbers from 1 on. -/
theorem Kept.numbered (hkept : x.Kept) :
    NumberedLog.Numbered RunEvent.sequence (x.log x.history.cur) :=
  numbered_eventsOf (events_stable.inv_cur hkept.history) _

theorem Kept.opened (hr : system.Reachable h) (hview : ∀ n, view n ∈ h.states)
    (hread : cursor.ReadBy py) (hcommitted : cursor.Committed runId (view 1).events)
    (hstream : streamRunEvents py userId runId cursor.text true view = .ok stream) :
    (opened h cursor stream (view 2)).Kept := by
  obtain ⟨page, after, rfl, hafter, hpage, hrun⟩ :=
    opened_page hr hview hread hcommitted hstream
  have hlog := numbered_eventsOf (events_stable.inv_mem hr (hview 2)) runId
  have hbegins := eventsOf_begins hr (hview 2) runId
  rw [hlog.page_eq, Option.getD_some] at hpage
  refine ⟨hr, ⟨_, hview 0, hrun⟩, rfl, ?_, fun hstage => absurd rfl hstage, fun hnone => ?_, hbegins,
    le_rfl, ?_, fun s hs => by cases hs⟩
  · show [] ++ page <+: (eventsOf runId h.cur.events).drop cursor.number
    rw [List.nil_append, hpage]
    exact (List.take_prefix _ _).trans (List.IsPrefix.drop hbegins _)
  · obtain rfl : page = [] := hnone
    rcases hafter with rfl | rfl
    · exact .inl rfl
    · exact .inr ⟨rfl, rfl⟩
  · show cursor.number + ([] ++ page).length =
      max cursor.number (min (eventsOf runId (view 2).events).length (cursor.number + 200))
    rw [List.nil_append, hpage, List.length_take, List.length_drop]
    omega

theorem Kept.committed (hkept : x.Kept) (op : Op) (hview : ∀ n, view n ∈ x.history.states) :
    (x.committed op view).Kept := by
  have hr := hkept.history.commit op view hview trivial
  have hgrows : x.log x.history.cur <+: x.log (x.committed op view).history.cur :=
    eventsOf_begins hr (List.mem_cons_of_mem _ (List.mem_cons_self)) _
  obtain ⟨s, hs, hrun⟩ := hkept.owned
  exact ⟨hr, ⟨s, List.mem_cons_of_mem _ hs, hrun⟩, hkept.follow,
    hkept.begins.trans (List.IsPrefix.drop hgrows _), hkept.idle, hkept.place,
    hkept.read.trans hgrows, hkept.since, hkept.looked,
    fun s hs => ⟨List.mem_cons_of_mem _ (hkept.observed s hs).1, (hkept.observed s hs).2⟩⟩

/-- The number of the next event of a reader. -/
theorem sequence_of_begins {log seen rest : List RunEvent} {e : RunEvent} {start : ℕ}
    (hlog : NumberedLog.Numbered RunEvent.sequence log)
    (h : seen ++ e :: rest <+: log.drop start) : e.sequence = start + seen.length + 1 := by
  have hat : (log.drop start)[seen.length]? = some e := by
    obtain ⟨more, hmore⟩ := h
    rw [← hmore, List.append_assoc, List.getElem?_append_right le_rfl]
    simp
  rw [List.getElem?_drop] at hat
  obtain ⟨hlt, rfl⟩ := List.getElem?_eq_some_iff.mp hat
  exact hlog.getElem hlt

theorem Kept.serve (hkept : x.Kept) (hplace : x.KnowsPlace) (disconnected : Bool)
    (signal : Option EphemeralFrameDTO) (hview : ∀ n, view n ∈ x.history.states) :
    (x.serve disconnected signal view).Kept := by
  rcases x.serve_cases disconnected signal view hkept.follow with
    ⟨e, pending, hstage, hpending, hserve⟩ | ⟨page, hstage, hlist, hserve⟩ |
    ⟨stage, observed, hnone, hstage, hended, hobserved, hserve⟩
  · have hbegins := hkept.begins
    rw [hpending] at hbegins
    have hsequence := sequence_of_begins hkept.numbered hbegins
    have hlooked := hkept.looked
    rw [hpending] at hlooked
    rw [hserve]
    refine ⟨hkept.history, hkept.owned, hkept.follow, ?_, fun h => absurd hstage h, fun _ => .inl ?_,
      hkept.read, hkept.since, ?_, hkept.observed⟩
    · show (x.emitted ++ [e]) ++ pending <+: _
      rw [List.append_assoc]
      exact hbegins
    · show some e.sequence = _
      rw [hsequence, List.length_append]
      rfl
    · show _ + ((x.emitted ++ [e]) ++ pending).length = _
      rw [List.append_assoc]
      exact hlooked
  · have hidle := hkept.idle (by simp [hstage])
    have hbegins := hkept.begins
    rw [hidle, List.append_nil] at hbegins
    -- the cursor is where the stream is
    have hcursor : page = NumberedLog.page RunEvent.sequence
        (some (x.cursor.number + x.emitted.length)) 200 (x.log (view 2)) := by
      rw [listEvents_ok hkept.history hview hkept.owned hlist]
      rcases hkept.place hidle with hsome | ⟨hnone, hnil⟩
      · rw [hsome]
        rfl
      · rw [hnone, hplace hstage hnone, hnil]
        have hlog := numbered_eventsOf (events_stable.inv_mem hkept.history (hview 2)) x.stream.runId
        rw [hlog.page_eq]
        exact (hlog.page_eq (some 0) 200).symm
    have hlog : x.log (view 2) <+: x.log x.history.cur :=
      eventsOf_begins hkept.history (hview 2) _
    rw [hserve]
    refine ⟨hkept.history, hkept.owned, hkept.follow, ?_, fun h => absurd rfl h, fun hnil => ?_, hlog,
      Nat.le_add_right _ _, ?_, fun s hs => ?_⟩
    · rw [hcursor]
      exact NumberedLog.begins_page hkept.numbered hlog hbegins
    · rcases hkept.place hidle with hsome | hnone
      · exact .inl hsome
      · exact .inr hnone
    · have hlength : page.length = min 200 ((x.log (view 2)).length -
          (x.cursor.number + x.emitted.length)) := by
        rw [hcursor, (hkept.numbered.of_begins hlog).page_eq, List.length_take, List.length_drop,
          Option.getD_some]
      show x.cursor.number + (x.emitted ++ page).length = max (x.cursor.number + x.emitted.length)
        (min (x.log (view 2)).length (x.cursor.number + x.emitted.length + 200))
      rw [List.length_append, hlength]
      omega
    · rw [(hkept.observed s hs).2] at hstage
      cases hstage
  · have hidle : x.stream.pending = [] := by
      by_cases hsending : x.stream.stage = .sending
      · exact hnone hsending
      · exact hkept.idle hsending
    rw [hserve]
    refine ⟨hkept.history, hkept.owned, hkept.follow, hkept.begins, fun _ => hidle, hkept.place,
      hkept.read, hkept.since, hkept.looked, fun s hs => ?_⟩
    rcases hobserved with rfl | ⟨rfl, hover⟩
    · exact ⟨(hkept.observed s hs).1, hended (hkept.observed s hs).2⟩
    · obtain rfl : view 0 = s := Option.some.inj hs
      exact ⟨hview 0, hover⟩

/-- The induction over a run of a stream. -/
theorem ReachableIf.kept (hr : ReachableIf py KnowsPlace x) : x.Kept := by
  induction hr with
  | connect hr hview hread hcommitted hstream => exact .opened hr hview hread hcommitted hstream
  | commit hr op view hview ih => exact ih.committed op hview
  | serve hr hok disconnected signal view hview ih => exact ih.serve hok disconnected signal hview

/-- A stream that has ended with the Run has yielded all that the Run had, if and only if it ended in
time. -/
theorem Kept.ends_iff (hkept : x.Kept) :
    (∀ s, x.observed = some s → (x.log s).drop x.cursor.number <+: x.emitted) ↔ x.EndsInTime := by
  have hlooked := hkept.looked
  have hsince := hkept.since
  refine forall_congr' fun s => forall_congr' fun hs => ?_
  obtain ⟨hmem, hended⟩ := hkept.observed s hs
  have hidle := hkept.idle (by simp [hended])
  have hbegins := hkept.begins
  rw [hidle, List.append_nil] at hbegins hlooked
  have hlog : x.log s <+: x.log x.history.cur := eventsOf_begins hkept.history hmem _
  have hnumbered := hkept.numbered.of_begins hlog
  constructor
  · intro hall e he hbeyond
    obtain ⟨i, hi, rfl⟩ := List.mem_iff_getElem.mp he
    rw [hnumbered.getElem hi] at hbeyond ⊢
    -- an event beyond the last look was yielded, so the look has read it
    have hlen := hall.length_le
    rw [List.length_drop] at hlen
    have hread : i < x.read.length := by omega
    refine ⟨?_, by omega⟩
    have hsame : (x.log s)[i] = x.read[i] := by
      rw [List.IsPrefix.getElem hlog hi, List.IsPrefix.getElem hkept.read hread]
    rw [hsame]
    exact List.getElem_mem hread
  · intro hin
    refine NumberedLog.begins_of_length hlog hbegins ?_
    by_contra hlong
    -- the last event of the log is one that the look left out
    have hpos : (x.log s).length - 1 < (x.log s).length := by omega
    obtain ⟨hread, hle⟩ := hin _ (List.getElem_mem hpos) (by
      rw [hnumbered.getElem hpos]
      omega)
    obtain ⟨j, hj, hsame⟩ := List.mem_iff_getElem.mp hread
    have hnumber := (hkept.numbered.of_begins hkept.read).getElem hj
    rw [hsame] at hnumber
    rw [hnumbered.getElem hpos] at hnumber hle
    omega

/-- In every run of a stream that knows its place at every look: it yields exactly the events beyond
its cursor if and only if it ended in time. -/
theorem stream_exact_iff (hr : ReachableIf py KnowsPlace x) : x.Exact ↔ x.EndsInTime := by
  have hkept := hr.kept
  refine ⟨fun hexact => hkept.ends_iff.mp hexact.ends, fun hin => ?_⟩
  have hbegins : x.emitted <+: (x.log x.history.cur).drop x.cursor.number :=
    (List.prefix_append _ _).trans hkept.begins
  refine ⟨hbegins, ?_, ?_, hkept.ends_iff.mpr hin⟩
  · exact hkept.numbered.map_of_begins hbegins
  · have hlooked := hkept.looked
    have hsince := hkept.since
    by_cases hfull : x.since + 200 < x.read.length
    · exact .inr (by omega)
    · refine .inl (NumberedLog.begins_of_length hkept.read hkept.begins ?_)
      omega

/-! ## Runs to look at -/

/-- The interpreter, as far as the text of an event id goes. -/
def anyBuiltins : Builtins := ⟨fun _ => none, fun _ => ""⟩

/-- A step that reads the present state. -/
def now (x : StreamRun) : StreamRun := x.serve false none fun _ => x.history.cur

theorem ReachableIf.now {ok : StreamRun → Prop} (hr : ReachableIf py ok x) (hok : ok x) :
    ReachableIf py ok x.now := hr.serve hok _ _ _ fun _ => .head _

/-- Worker `w` completes Run 10. -/
def completes : Op :=
  .workerTransition
    { userId := 1, runId := 10, action := .complete "done", claimOwner := some "w",
      claimToken := some 20 } (stampsFrom 30 2)

/-- A stream of Run 10 from its first event on, opened while its worker has it. -/
def openedStream : StreamRun :=
  let history := system.serial {} claimedRun
  opened history .beginning
    { userId := 1, runId := 10, follow := true, pending := eventsOf 10 history.cur.events,
      cursor := some 2 } history.cur

theorem openedStream_reachable (ok : StreamRun → Prop) :
    ReachableIf anyBuiltins ok openedStream := by
  have hstream : streamRunEvents anyBuiltins 1 10 StreamCursor.beginning.text true
      (fun _ => (system.serial {} claimedRun).cur) = .ok openedStream.stream := by decide
  exact .connect (system.serial_reachable rfl _) (fun _ => .head _) trivial trivial hstream

/-- The Run completes while the stream waits for the next look. -/
def completedBeforeLook : StreamRun :=
  ((openedStream.now.now.now.committed completes fun _ => openedStream.history.cur).now.now.now).now

theorem stream_exact_iff_completedBeforeLook :
    completedBeforeLook.Exact ∧
      completedBeforeLook.emitted.map RunEvent.sequence = [1, 2, 3, 4] ∧
      completedBeforeLook.stream.stage = .ended := by
  have hplace : ∀ x : StreamRun, x.cursor = .beginning → x.KnowsPlace :=
    fun x hx _ _ => by rw [hx]; rfl
  have hreach : ReachableIf anyBuiltins KnowsPlace completedBeforeLook := by
    refine (((ReachableIf.now ?_ (hplace _ rfl)).now (hplace _ rfl)).now (hplace _ rfl)).now
      (hplace _ rfl)
    refine .commit ?_ _ _ fun _ => .head _
    exact (((openedStream_reachable KnowsPlace).now (hplace _ rfl)).now (hplace _ rfl)).now
      (hplace _ rfl)
  refine ⟨(stream_exact_iff hreach).mpr fun s hs => ?_, by decide, by decide⟩
  obtain rfl : completedBeforeLook.history.cur = s := Option.some.inj hs
  decide

/-- The Run completes between the last look and the check of its status. -/
def completedAfterLook : StreamRun :=
  ((openedStream.now.now.committed completes) fun _ => openedStream.history.cur).now

/-- The event 2 of Run 10. -/
def startedEvent : RunEvent :=
  ((eventsOf 10 openedStream.history.cur.events).getLast?).get (by decide)

/-- A stream of Run 10 that goes on behind its event 2. -/
def resumedStream : StreamRun :=
  let history := system.serial {} claimedRun
  opened history (.event startedEvent)
    { userId := 1, runId := 10, follow := true, pending := [], cursor := none } history.cur

theorem resumedStream_reachable (ok : StreamRun → Prop) :
    ReachableIf anyBuiltins ok resumedStream := by
  have hcommitted : startedEvent ∈ (system.serial {} claimedRun).cur.events.rows := by decide
  have hread : (StreamCursor.event startedEvent).ReadBy anyBuiltins := rfl
  have hstream : streamRunEvents anyBuiltins 1 10 (StreamCursor.event startedEvent).text true
      (fun _ => (system.serial {} claimedRun).cur) = .ok resumedStream.stream := by
    simp only [streamRunEvents, parseLastEventId_event hread]
    decide
  exact .connect (system.serial_reachable rfl _) (fun _ => .head _) hread ⟨hcommitted, by decide⟩
    hstream

/-- Two streams that are not exact. The first ends with the Run, and the two events of its completion
are missing. The second begins again with the first event, which is before its cursor. -/
theorem stream_not_exact :
    (ReachableIf anyBuiltins (fun _ => True) completedAfterLook ∧
      completedAfterLook.stream.stage = .ended ∧
      completedAfterLook.emitted.map RunEvent.sequence = [1, 2] ∧
      (completedAfterLook.log completedAfterLook.history.cur).map RunEvent.sequence =
        [1, 2, 3, 4] ∧ ¬completedAfterLook.Exact) ∧
    ReachableIf anyBuiltins (fun _ => True) resumedStream.now.now.now ∧
      resumedStream.cursor.number = 2 ∧
      resumedStream.now.now.now.emitted.map RunEvent.sequence = [1] ∧
      ¬resumedStream.now.now.now.Exact := by
  refine ⟨⟨?_, by decide, by decide, by decide, fun hexact => ?_⟩, ?_, by decide, by decide,
    fun hexact => ?_⟩
  · refine .now (.commit ?_ _ _ fun _ => .head _) trivial
    exact ((openedStream_reachable _).now trivial).now trivial
  · have hlength := (hexact.ends completedAfterLook.history.cur (by decide +kernel)).length_le
    exact absurd hlength (by decide)
  · exact (((resumedStream_reachable _).now trivial).now trivial).now trivial
  · exact absurd hexact.numbers (by decide)

end StreamRun

end Runtime
