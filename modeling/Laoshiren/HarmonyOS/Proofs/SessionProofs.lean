import Laoshiren.HarmonyOS.Session
import Laoshiren.Runtime.Proofs.StreamRunProofs

/-!
# Proofs: a client that follows a Run

The client reads off the stream the frames that have arrived, whatever pieces they arrive in, and
hands each of their objects to its handler. The handler closes the stream on an event that the server
does not send.
-/

namespace HarmonyOS

open Runtime Raise Session

variable {py : Builtins} {wire : Wire}

/-! ## Frames -/

/-- The lines of a frame. -/
def lines (wire : Wire) : Frame → List (List Char)
  | .event e =>
    ["id: ".toList ++ e.sequence.repr.toList, "event: ".toList ++ e.eventType.value.toList,
      "data: ".toList ++ wire.dumps (e.envelope wire)]
  | .live signal =>
    ["event: ".toList ++ signal.frameType.value.toList,
      "data: ".toList ++ wire.dumps (signal.envelope wire)]
  | .heartbeat => [": heartbeat".toList]

/-- A frame as a block of lines. -/
def block (wire : Wire) (frame : Frame) : List Char := ['\n'].intercalate (lines wire frame)

theorem text_eq_block (frame : Frame) : frame.text wire = block wire frame ++ ['\n', '\n'] := by
  have hevent : "\nevent: ".toList = '\n' :: "event: ".toList := by decide
  have hdata : "\ndata: ".toList = '\n' :: "data: ".toList := by decide
  have hblank : "\n\n".toList = ['\n', '\n'] := by decide
  have hheartbeat : ": heartbeat\n\n".toList = ": heartbeat".toList ++ ['\n', '\n'] := by decide
  unfold block
  cases frame with
  | event e =>
    unfold Frame.text lines
    simp only
    rw [hevent, hdata, hblank]
    generalize "id: ".toList = id
    generalize "event: ".toList = event
    generalize "data: ".toList = data
    simp [List.intercalate]
  | live signal =>
    unfold Frame.text lines
    simp only
    rw [hdata, hblank]
    generalize "event: ".toList = event
    generalize "data: ".toList = data
    simp [List.intercalate]
  | heartbeat =>
    unfold Frame.text lines
    simp only
    rw [hheartbeat]
    generalize ": heartbeat".toList = heartbeat
    simp [List.intercalate]

theorem text_eq_join (frames : List Frame) :
    Session.text wire frames = Blocks.join '\n' (frames.map (block wire)) := by
  unfold Session.text Blocks.join
  rw [List.flatMap_map]
  exact congrArg (fun f => List.flatMap f frames) (funext text_eq_block)

theorem lines_ne_nil (frame : Frame) : lines wire frame ≠ [] := by
  cases frame <;> simp [lines]

theorem newline_not_mem_lines {frame : Frame} (hcarried : Carried wire frame) :
    ∀ line ∈ lines wire frame, line ≠ [] ∧ '\n' ∉ line := by
  intro line hline
  cases frame with
  | event e =>
    have hone := (hcarried _ rfl).oneLine
    have hname : '\n' ∉ e.eventType.value.toList := by cases e.eventType <;> decide
    have hnumber : '\n' ∉ e.sequence.repr.toList := Text.not_mem_repr (by decide) _
    simp only [lines, List.mem_cons, List.not_mem_nil, or_false] at hline
    rcases hline with rfl | rfl | rfl
    · exact ⟨by simp, List.not_mem_append (by decide) hnumber⟩
    · exact ⟨by simp, List.not_mem_append (by decide) hname⟩
    · exact ⟨by simp, List.not_mem_append (by decide) hone⟩
  | live signal =>
    have hone := (hcarried _ rfl).oneLine
    have hname : '\n' ∉ signal.frameType.value.toList := by cases signal.frameType <;> decide
    simp only [lines, List.mem_cons, List.not_mem_nil, or_false] at hline
    rcases hline with rfl | rfl
    · exact ⟨by simp, List.not_mem_append (by decide) hname⟩
    · exact ⟨by simp, List.not_mem_append (by decide) hone⟩
  | heartbeat =>
    obtain rfl := List.mem_singleton.mp hline
    decide

theorem plain_block {frame : Frame} (hcarried : Carried wire frame) :
    Blocks.Plain '\n' (block wire frame) :=
  Blocks.plain_intercalate (lines_ne_nil frame) (newline_not_mem_lines hcarried)

/-- The text of an object has nothing that `trim` takes off. -/
theorem trim_dumps {fields : Dict} (hkeeps : wire.Keeps fields) :
    Text.trim isWhiteSpace (' ' :: wire.dumps fields) = wire.dumps fields := by
  obtain ⟨inner, hinner⟩ := hkeeps.braces
  have hblank : isWhiteSpace ' ' = true := by decide
  have hopen : isWhiteSpace '{' = false := by decide
  have hclose : isWhiteSpace '}' = false := by decide
  rw [hinner]
  simp [Text.trim, List.dropWhile, hblank, hopen, hclose]

/-- The client reads the object of a frame. -/
theorem readBlock_block {frame : Frame} (hcarried : Carried wire frame) :
    readBlock wire.toJsonText (block wire frame) =
      (frame.payload wire).bind fun fields => wire.parse (wire.dumps fields) := by
  have hsplit : (block wire frame).splitOn '\n' = lines wire frame :=
    List.splitOn_intercalate '\n' (fun line hline => (newline_not_mem_lines hcarried line hline).2)
      (lines_ne_nil frame)
  unfold readBlock
  rw [hsplit]
  cases frame with
  | event e =>
    have htrim := trim_dumps (hcarried _ rfl)
    simp [lines, Frame.payload, List.isPrefixOf, htrim]
  | live signal =>
    have htrim := trim_dumps (hcarried _ rfl)
    simp [lines, Frame.payload, List.isPrefixOf, htrim]
  | heartbeat => simp [lines, Frame.payload, List.isPrefixOf]

/-! ## Objects -/

theorem eventId_envelope (e : RunEvent) :
    (e.envelope wire).get "event_id" = some (.str e.id.str) := by
  unfold RunEvent.envelope Dict.ofFields Dict.merge
  simp [Dict.get_set_ne, Dict.get_set_self]

theorem name_envelope (e : RunEvent) :
    (e.envelope wire).get "event" = some (.str e.eventType.value) := by
  unfold RunEvent.envelope Dict.ofFields Dict.merge
  simp [Dict.get_set_ne, Dict.get_set_self]

/-- The server has no event of the name that the client closes the stream on. -/
theorem name_ne_interrupt {frame : Frame} (hcarried : Carried wire frame) {event : Json}
    (hread : readBlock wire.toJsonText (block wire frame) = some event) :
    property event "event" ≠ some (.str "interrupt.required") := by
  rw [readBlock_block hcarried] at hread
  intro hname
  cases frame with
  | event e =>
    obtain ⟨fields, hparse, hkeeps⟩ := (hcarried _ rfl).parse
    obtain rfl : Json.obj fields = event := Option.some.inj (hparse.symm.trans hread)
    have htext : fields.get "event" = some (.str e.eventType.value) :=
      (hkeeps "event").1 _ (name_envelope e)
    rw [property, Json.asDict?, Option.bind_some, htext] at hname
    have hvalue := Json.str.inj (Option.some.inj hname)
    revert hvalue
    cases e.eventType <;> decide
  | live signal =>
    obtain ⟨fields, hparse, hkeeps⟩ := (hcarried _ rfl).parse
    obtain rfl : Json.obj fields = event := Option.some.inj (hparse.symm.trans hread)
    have hnone : fields.get "event" = none :=
      (hkeeps "event").2 (Dict.get_ofFields_of_not_mem (by simp))
    rw [property, Json.asDict?, Option.bind_some, hnone] at hname
    cases hname
  | heartbeat => cases hread

/-- An object with the id of an event comes from the frame of an event. -/
theorem exists_event_of_eventId {frame : Frame} (hcarried : Carried wire frame) {event : Json}
    (hread : readBlock wire.toJsonText (block wire frame) = some event) {id : UUID}
    (hid : property event "event_id" = some (.str id.str)) : ∃ e, frame = .event e ∧ e.id = id := by
  rw [readBlock_block hcarried] at hread
  cases frame with
  | event e =>
    obtain ⟨fields, hparse, hkeeps⟩ := (hcarried _ rfl).parse
    obtain rfl : Json.obj fields = event := Option.some.inj (hparse.symm.trans hread)
    have htext : fields.get "event_id" = some (.str e.id.str) :=
      (hkeeps "event_id").1 _ (eventId_envelope e)
    rw [property, Json.asDict?, Option.bind_some, htext] at hid
    exact ⟨e, rfl, UUID.str_injective (Json.str.inj (Option.some.inj hid))⟩
  | live signal =>
    obtain ⟨fields, hparse, hkeeps⟩ := (hcarried _ rfl).parse
    obtain rfl : Json.obj fields = event := Option.some.inj (hparse.symm.trans hread)
    have hnone : fields.get "event_id" = none :=
      (hkeeps "event_id").2 (Dict.get_ofFields_of_not_mem (by simp))
    rw [property, Json.asDict?, Option.bind_some, hnone] at hid
    cases hid
  | heartbeat => cases hread

/-- The frame of an event is read as an object with its id. -/
theorem exists_read_event {e : RunEvent} (hcarried : Carried wire (.event e)) :
    ∃ event, readBlock wire.toJsonText (block wire (.event e)) = some event ∧
      property event "event_id" = some (.str e.id.str) := by
  obtain ⟨fields, hparse, hkeeps⟩ := (hcarried _ rfl).parse
  refine ⟨.obj fields, (readBlock_block hcarried).trans hparse, ?_⟩
  exact (hkeeps "event_id").1 _ (eventId_envelope e)

theorem text_append (frames frames' : List Frame) :
    text wire (frames ++ frames') = text wire frames ++ text wire frames' := List.flatMap_append

/-! ## Handling -/

/-- Events that do not close the stream are handed over one by one, and the stream stays open. -/
theorem foldl_handle (events : List Json) {f : Follow} (hactive : f.stream.active = true)
    (hnames : ∀ event ∈ events, property event "event" ≠ some (.str "interrupt.required")) :
    (events.foldl Follow.handle f).stream = f.stream ∧
      (events.foldl Follow.handle f).stage = f.stage ∧
      (events.foldl Follow.handle f).handled = f.handled ++ events.map (⟨·, false⟩) := by
  induction events generalizing f with
  | nil => simp
  | cons event events ih =>
    have hopen : (onEvent f.viewModel event).2 = false := by
      have hname := hnames event List.mem_cons_self
      unfold onEvent
      simp only [hname, if_false]
      split_ifs <;> rfl
    have hstep : (f.handle event).stream = f.stream ∧ (f.handle event).stage = f.stage ∧
        (f.handle event).handled = f.handled ++ [⟨event, false⟩] := by
      simp [Follow.handle, hopen, hactive]
    obtain ⟨hstream, hstage, hhandled⟩ :=
      @ih (f.handle event) (by rw [hstep.1]; exact hactive)
        fun e he => hnames e (List.mem_cons_of_mem _ he)
    refine ⟨hstream.trans hstep.1, hstage.trans hstep.2.1, ?_⟩
    rw [List.foldl_cons, hhandled, hstep.2.2]
    simp

namespace Session

variable {x x' : Session}

/-- What holds of a session: its history is one of the Runtime, the stream sends events of the log,
what has arrived is the beginning of what was sent, and the Run that `follow` read again is one of the
server. -/
structure Kept (wire : Wire) (x : Session) : Prop where
  history : system.Reachable x.history
  server : ∀ stream ∈ x.server, stream.Holds x.userId x.runId x.history.cur.events
  sent : ∀ e, .event e ∈ x.sent → e ∈ x.history.cur.events
  received : x.received <+: text wire x.sent
  latest : ∀ latest, x.client.stage = .refreshing latest ∨ x.client.stage = .returned latest →
    ∃ run : Runtime.AgentRun, latest = .ofRun run

/-- The events of a state that a statement reads are in the log. -/
theorem mem_events_of_view (hr : system.Reachable x.history) {s : Store} (hs : s ∈ x.history.states) :
    ∀ e ∈ s.events, e ∈ x.history.cur.events := fun _ he =>
  (events_stable.rel_mem hr hs).subset he

theorem stage_handle (f : Follow) (event : Json) : (f.handle event).stage = f.stage := rfl

theorem stage_consume (json : JsonText) (flush : Bool) (f : Follow) :
    (f.consume json flush).stage = f.stage := by
  have hfold : ∀ (events : List Json) (f : Follow),
      (events.foldl Follow.handle f).stage = f.stage := by
    intro events
    induction events with
    | nil => exact fun _ => rfl
    | cons event events ih => exact fun f => (ih (f.handle event)).trans (stage_handle f event)
  exact hfold _ _

theorem Kept.step (h : Kept wire x) (hstep : Step py wire x x') : Kept wire x' := by
  have hview : ∀ s ∈ x.history.states, ∀ e ∈ s.events, e ∈ x.history.cur.events :=
    fun s hs => mem_events_of_view h.history hs
  cases hstep with
  | commit op view hviews =>
    have hgrows := (commit_logEffect op view x.history.cur).events_begin
    refine ⟨h.history.commit op view hviews trivial, fun stream hstream => ?_,
      fun e he => hgrows.subset (h.sent e he), h.received, h.latest⟩
    obtain ⟨huser, hrun, hfollow, hpending⟩ := h.server stream hstream
    exact ⟨huser, hrun, hfollow, fun e he => hgrows.subset (hpending e he)⟩
  | connect view hviews hserver hstream =>
    refine ⟨h.history, fun stream hmem => ?_, h.sent, h.received, h.latest⟩
    obtain rfl := Option.some.inj hmem
    obtain ⟨huser, hrun, hfollow, hpending⟩ := streamRunEvents_holds hstream
    exact ⟨huser, hrun, hfollow, fun e he => hview _ (hviews 2) e (hpending e he)⟩
  | serve disconnected signal view hviews hserver =>
    obtain ⟨hholds, hyields⟩ :=
      (h.server _ hserver).next disconnected signal (hview _ (hviews 2))
    refine ⟨h.history, fun stream hmem => ?_, fun e he => ?_, ?_, h.latest⟩
    · obtain rfl := Option.some.inj hmem
      exact hholds
    · rcases List.mem_append.mp he with he | he
      · exact h.sent e he
      · exact hyields e (Option.mem_toList.mp he)
    · refine h.received.trans ?_
      rw [served, text_append]
      exact List.prefix_append _ _
  | receive chunk hactive hchunk =>
    have hstage : (receives wire x chunk).client.stage = x.client.stage := stage_consume _ _ _
    refine ⟨h.history, h.server, h.sent, hchunk, ?_⟩
    rw [hstage]
    exact h.latest
  | dataEnd hactive hserver hended hall =>
    have hstage : (x.goes (x.client.dataEnd wire.toJsonText)).client.stage = x.client.stage :=
      stage_consume _ _ _
    refine ⟨h.history, h.server, h.sent, h.received, ?_⟩
    rw [hstage]
    exact h.latest
  | close => exact ⟨h.history, h.server, h.sent, h.received, h.latest⟩
  | settle statusCode hstage =>
    refine ⟨h.history, h.server, h.sent, h.received, fun latest hlatest => ?_⟩
    simp only [goes, Follow.settle] at hlatest
    split_ifs at hlatest <;> simp at hlatest
  | reread hs hstage hrun =>
    refine ⟨h.history, h.server, h.sent, h.received, fun latest hlatest => ?_⟩
    simp only [goes, Follow.reread, FollowStage.refreshing.injEq, reduceCtorEq, or_false] at hlatest
    exact ⟨_, hlatest.symm⟩
  | rereadFails hstage =>
    refine ⟨h.history, h.server, h.sent, h.received, fun latest hlatest => ?_⟩
    simp [goes, Follow.reread] at hlatest
  | @refreshed latest ok hstage =>
    refine ⟨h.history, h.server, h.sent, h.received, fun latest' hlatest => ?_⟩
    obtain ⟨run, rfl⟩ := h.latest latest (Or.inl hstage)
    simp only [goes, Follow.refreshed] at hlatest
    split_ifs at hlatest
    · simp only [FollowStage.returned.injEq, false_or] at hlatest
      exact ⟨run, hlatest.symm⟩
    · simp at hlatest

theorem Reachable.kept (hr : Reachable py wire x) : Kept wire x := by
  induction hr with
  | start hr userId viewModel run =>
    refine ⟨hr, nofun, nofun, List.nil_prefix, ?_⟩
    rintro latest (hlatest | hlatest) <;> cases hlatest
  | step _ hstep ih => exact ih.step hstep

/-- The blocks that have arrived are those of the first frames. -/
theorem exists_frames (hcarried : ∀ frame ∈ x.sent, Carried wire frame) {received : List Char}
    (hreceived : received <+: text wire x.sent) :
    ∃ frames, frames <+: x.sent ∧ (Blocks.cut '\n' received).1 = frames.map (block wire) ∧
      text wire frames <+: received := by
  have hplain : ∀ b ∈ x.sent.map (block wire), Blocks.Plain '\n' b := by
    intro b hb
    obtain ⟨frame, hframe, rfl⟩ := List.mem_map.mp hb
    exact plain_block (hcarried frame hframe)
  rw [text_eq_join] at hreceived
  obtain ⟨hblocks, heq⟩ := Blocks.cut_of_begins hplain hreceived
  obtain ⟨frames, hframes, hmap⟩ := List.prefix_map_iff.mp hblocks
  refine ⟨frames, hframes, hmap, ?_⟩
  rw [text_eq_join, ← hmap]
  exact ⟨_, heq.symm⟩

/-- The client has handed over what has arrived, and has not closed the stream on any of it. -/
structure Read (wire : Wire) (x : Session) : Prop where
  buffer : x.client.stream.buffer = (Blocks.cut '\n' x.received).2
  handled : x.client.handled =
    ((Blocks.cut '\n' x.received).1.filterMap (readBlock wire.toJsonText)).map (⟨·, false⟩)

theorem names_ne (hcarried : ∀ frame ∈ x.sent, Carried wire frame) {received : List Char}
    (hreceived : received <+: text wire x.sent) :
    ∀ event ∈ (Blocks.cut '\n' received).1.filterMap (readBlock wire.toJsonText),
      property event "event" ≠ some (.str "interrupt.required") := by
  intro event hevent
  obtain ⟨frames, hframes, hblocks, -⟩ := exists_frames hcarried hreceived
  obtain ⟨b, hb, hread⟩ := List.mem_filterMap.mp hevent
  rw [hblocks] at hb
  obtain ⟨frame, hframe, rfl⟩ := List.mem_map.mp hb
  exact name_ne_interrupt (hcarried frame (hframes.subset hframe)) hread

theorem Read.receives (h : Read wire x) (hcarried : ∀ frame ∈ x.sent, Carried wire frame)
    (hactive : x.client.stream.active = true) {chunk : List Char}
    (hchunk : x.received ++ chunk <+: text wire x.sent) : Read wire (x.receives wire chunk) := by
  have hcut : Blocks.cut '\n' (x.received ++ chunk) = _ := Blocks.cut_append _ _
  rw [← h.buffer] at hcut
  have hnames := names_ne hcarried hchunk
  rw [hcut, List.filterMap_append] at hnames
  let read := Blocks.cut '\n' (x.client.stream.buffer ++ chunk)
  let client := { x.client with stream := ⟨x.client.stream.active, read.2⟩ }
  have hopen : client.stream.active = true := hactive
  obtain ⟨hstream, -, hhandled⟩ :=
    foldl_handle (read.1.filterMap (readBlock wire.toJsonText)) hopen
      fun event hevent => hnames event (List.mem_append_right _ hevent)
  refine ⟨?_, ?_⟩
  · show (Follow.consume _ _ _).stream.buffer = (Blocks.cut '\n' (x.received ++ chunk)).2
    rw [hcut]
    exact congrArg AgentStreamClient.buffer hstream
  · show (Follow.consume _ _ _).handled = _
    have hall : (x.receives wire chunk).received = x.received ++ chunk := rfl
    rw [hall, hcut, List.filterMap_append, List.map_append, ← h.handled]
    exact hhandled

theorem Read.dataEnd (h : Read wire x) (hcarried : ∀ frame ∈ x.sent, Carried wire frame)
    (hall : x.received = text wire x.sent) :
    Read wire (x.goes (x.client.dataEnd wire.toJsonText)) := by
  have hplain : ∀ b ∈ x.sent.map (block wire), Blocks.Plain '\n' b := by
    intro b hb
    obtain ⟨frame, hframe, rfl⟩ := List.mem_map.mp hb
    exact plain_block (hcarried frame hframe)
  have hcut : (Blocks.cut '\n' x.received).2 = [] := by
    have hjoin := Blocks.cut_join hplain List.IsChain.nil
    rw [List.append_nil, ← text_eq_join, ← hall] at hjoin
    rw [hjoin]
  have hbuffer : x.client.stream.buffer = [] := h.buffer.trans hcut
  have hblank : readBlock wire.toJsonText [] = none := rfl
  have hclient : x.client.dataEnd wire.toJsonText =
      { x.client with stream := { x.client.stream with buffer := [] } } := by
    simp [Follow.dataEnd, Follow.consume, hbuffer, Blocks.cut, hblank]
  refine ⟨?_, ?_⟩
  · rw [hclient]
    exact hcut.symm
  · rw [hclient]
    exact h.handled

theorem Read.step (h : Read wire x)
    (hcarried : ∀ frame ∈ x'.sent, Carried wire frame) (hstep : Step py wire x x') :
    Read wire x' := by
  cases hstep with
  | commit op view hviews => exact ⟨h.buffer, h.handled⟩
  | connect view hviews hserver hstream => exact ⟨h.buffer, h.handled⟩
  | serve disconnected signal view hviews hserver => exact ⟨h.buffer, h.handled⟩
  | receive chunk hactive hchunk => exact h.receives hcarried hactive hchunk
  | dataEnd hactive hserver hended hall => exact h.dataEnd hcarried hall
  | close => exact ⟨h.buffer, h.handled⟩
  | settle statusCode hstage => exact ⟨h.buffer, h.handled⟩
  | reread hs hstage hrun => exact ⟨h.buffer, h.handled⟩
  | rereadFails hstage => exact ⟨h.buffer, h.handled⟩
  | refreshed ok hstage => exact ⟨h.buffer, h.handled⟩

theorem sent_step (hstep : Step py wire x x') : x.sent <+: x'.sent := by
  cases hstep with
  | serve disconnected signal view hviews hserver => exact List.prefix_append _ _
  | _ => exact List.prefix_refl _

theorem Reachable.read (hr : Reachable py wire x)
    (hcarried : ∀ frame ∈ x.sent, Carried wire frame) : Read wire x := by
  induction hr with
  | start => exact ⟨rfl, rfl⟩
  | step _ hstep ih =>
    have hbefore := ih fun frame hframe => hcarried frame ((sent_step hstep).subset hframe)
    exact hbefore.step hcarried hstep

/-! ## The question -/

/-- An event whose frame has arrived is handed over, and the stream is open behind it. -/
theorem exists_handled_of_arrived (hread : Read wire x)
    (hcarried : ∀ frame ∈ x.sent, Carried wire frame) {e : RunEvent} (he : Arrived wire x e) :
    ∃ call ∈ x.client.handled, property call.event "event_id" = some (.str e.id.str) ∧
      call.closed = false := by
  obtain ⟨frames, hsent, hreceived⟩ := he
  have hcarriedOf : ∀ frame ∈ frames ++ [Frame.event e], Carried wire frame :=
    fun frame hframe => hcarried frame (hsent.subset hframe)
  have hplain : ∀ b ∈ (frames ++ [Frame.event e]).map (block wire), Blocks.Plain '\n' b := by
    intro b hb
    obtain ⟨frame, hframe, rfl⟩ := List.mem_map.mp hb
    exact plain_block (hcarriedOf frame hframe)
  obtain ⟨rest, hrest⟩ := hreceived
  have hjoin := Blocks.cut_join hplain List.IsChain.nil
  rw [List.append_nil, ← text_eq_join] at hjoin
  have hcut : Blocks.cut '\n' (text wire (frames ++ [.event e]) ++ rest) = _ :=
    Blocks.cut_append _ _
  rw [hjoin, hrest] at hcut
  obtain ⟨event, hevent, hid⟩ := exists_read_event (hcarriedOf (.event e) (by simp))
  refine ⟨⟨event, false⟩, ?_, hid, rfl⟩
  rw [hread.handled, hcut]
  refine List.mem_map.mpr ⟨event, List.mem_filterMap.mpr ⟨block wire (.event e), ?_, hevent⟩, rfl⟩
  exact List.mem_append_left _ (List.mem_map_of_mem (by simp))

/-- What was handed over with the id of an event has arrived with the frame of that event. -/
theorem arrived_of_handled (hkept : Kept wire x) (hread : Read wire x)
    (hcarried : ∀ frame ∈ x.sent, Carried wire frame) {e : RunEvent}
    (he : e ∈ x.history.cur.events) {call : Handled} (hcall : call ∈ x.client.handled)
    (hid : property call.event "event_id" = some (.str e.id.str)) : Arrived wire x e := by
  obtain ⟨frames, hframes, hblocks, hreceived⟩ := exists_frames hcarried hkept.received
  rw [hread.handled, hblocks] at hcall
  obtain ⟨event, hevent, rfl⟩ := List.mem_map.mp hcall
  obtain ⟨b, hb, hread'⟩ := List.mem_filterMap.mp hevent
  obtain ⟨frame, hframe, rfl⟩ := List.mem_map.mp hb
  obtain ⟨e', rfl, hsame⟩ :=
    exists_event_of_eventId (hcarried frame (hframes.subset hframe)) hread' hid
  obtain rfl : e' = e :=
    Table.eq_of_conflict (hkept.sent e' (hframes.subset hframe)) he (Or.inl hsame)
  obtain ⟨before, after, rfl⟩ := List.append_of_mem hframe
  have hsplit : before ++ .event e' :: after = (before ++ [.event e']) ++ after := by simp
  rw [hsplit] at hframes hreceived
  refine ⟨before, (List.prefix_append _ _).trans hframes, ?_⟩
  refine List.IsPrefix.trans ?_ hreceived
  rw [text_append (before ++ [Frame.event e'])]
  exact List.prefix_append _ _

/-- The event with which a Run goes to wait is in the log. -/
theorem mem_of_waitEvent (hr : system.Reachable x.history) {runId : UUID} {e : RunEvent}
    (he : WaitEvent x.history runId e) : e ∈ x.history.cur.events := by
  obtain ⟨before, after, hstates, -, -, hlast⟩ := he
  have hafter : after ∈ x.history.states := hstates.subset List.mem_cons_self
  exact mem_events_of_view hr hafter e (Table.mem_select.mp (List.mem_of_getLast? hlast)).1

/-- No status of the server is the one that `waitingRun` is set on. -/
theorem status_ne_waitingUser (run : Runtime.AgentRun) : (AgentRun.ofRun run).status ≠ "WAITING_USER" := by
  show run.status.value ≠ _
  cases run.status <;> decide

/-- In every session: the server does not end the stream of a Run that it sees wait; and the user is
asked if and only if there is nothing to ask, because no event with which the Run goes to wait has
arrived and the Run does not wait when `follow` reads it again. -/
theorem user_asked_iff (hr : Reachable py wire x)
    (hcarried : ∀ frame ∈ x.sent, Carried wire frame) :
    (∀ stream run signal view, x.server = some stream → stream.stage ≠ .ended →
      getRun (view 0) x.userId x.runId = .ok run → run.status = .waitingForUser →
        (stream.next false signal view).1.stage ≠ .ended) ∧
    (x.Asks ↔
      (∀ event, WaitEvent x.history x.runId event → ¬ Arrived wire x event) ∧
        ∀ latest, x.client.stage = .returned latest →
          latest.status ≠ RunStatus.waitingForUser.value) := by
  have hkept := hr.kept
  have hread := hr.read hcarried
  have hunset : ∀ latest, x.client.stage = .returned latest →
      x.client.viewModel.waitingRun.map Subtype.val ≠ some latest := by
    intro latest hlatest hset
    obtain ⟨run, rfl⟩ := hkept.latest latest (Or.inr hlatest)
    obtain ⟨waiting, -, hwaiting⟩ := Option.map_eq_some_iff.mp hset
    exact status_ne_waitingUser run (hwaiting ▸ waiting.property)
  refine ⟨fun stream run signal view hserver hstage hrun hwaits =>
    (hkept.server stream hserver).next_waiting hstage hrun hwaits, ?_, ?_⟩
  · intro hasks
    refine ⟨fun event hwait harrived => ?_, fun latest hlatest hstatus => ?_⟩
    · obtain ⟨call, hcall, hid, hopen⟩ := exists_handled_of_arrived hread hcarried harrived
      have hclosed := hasks.closes event hwait call hcall hid
      rw [hopen] at hclosed
      cases hclosed
    · exact hunset latest hlatest ((hasks.waitingRun latest hlatest).mpr hstatus)
  · rintro ⟨hquiet, hstatus⟩
    refine ⟨fun event hwait call hcall hid => ?_, fun latest hlatest => ?_⟩
    · have hmem := mem_of_waitEvent hkept.history hwait
      exact absurd (arrived_of_handled hkept hread hcarried hmem hcall hid) (hquiet event hwait)
    · exact iff_of_false (hunset latest hlatest) (hstatus latest hlatest)

/-! ## A Run that waits while it is followed -/

/-- `int` of the cursor that the client sends. -/
def followedPy : Builtins := ⟨fun text => if text = "3" then some 3 else none, fun _ => ""⟩

/-- `isoformat` of the time at which the Run goes to wait. -/
def followedTime (_ : Timestamp) : String := "2026-05-01T00:00:02+00:00"

/-- The last event of a Run that goes to wait. -/
def waitEvent : RunEvent where
  runId := 10
  sequence := 4
  eventType := .runWaitingForUser
  data := [("interaction_id", .str "00000000-0000-0000-0000-000000000007")]
  id := 32
  occurredAt := 2

/-- Its object. -/
def waitFields : Dict := waitEvent.envelope ⟨⟨fun _ => [], fun _ => none⟩, followedTime⟩

/-- The text of its object. -/
def waitText : List Char :=
  ["\x7b\"event_id\": ", "\"00000000-0000-", "0000-0000-", "000000000020\", ", "\"sequence\": 4, ",
    "\"event\": ", "\"run.waiting_for_user\", ", "\"run_id\": ", "\"00000000-0000-", "0000-0000-",
    "00000000000a\", ", "\"occurred_at\": ", "\"2026-05-01T", "00:00:02+00:00\", ",
    "\"visibility\": ", "\"CLIENT\", ", "\"schema_version\": 1, ", "\"data\": ",
    "\x7b\"interaction_id\": ", "\"00000000-0000-", "0000-0000-",
    "000000000007\"\x7d\x7d"].flatMap String.toList

/-- JSON as far as this event needs it. -/
def followedWire : Wire where
  dumps fields := if fields = waitFields then waitText else []
  parse text := if text = waitText then some (.obj waitFields) else none
  isoformat := followedTime

/-- The stream of the Run beyond the third event. -/
def followedStream : EventStream where
  userId := 1
  runId := 10
  follow := true
  cursor := some 4
  pending := [waitEvent]

/-- What a statement reads while the Run waits. -/
def waitingView (_ : ℕ) : Store := (system.serial {} waitingRun).cur

/-- The client has followed the Run up to the event that it waits, and all of it has arrived. -/
def followedRun : Session :=
  (((Session.start (system.serial {} waitingRun) 1 {}
    { id := 10, status := "RUNNING", version := 2, lastEventSequence := some 3 }).connected
      followedStream).served (followedStream.next false none waitingView)).receives followedWire
        (Frame.text followedWire (.event waitEvent))

theorem followedRun_reachable : Reachable followedPy followedWire followedRun := by
  have hview : ∀ n, waitingView n ∈ (system.serial {} waitingRun).states :=
    fun _ => List.mem_cons_self
  have hall : [] ++ Frame.text followedWire (.event waitEvent) <+:
      text followedWire [.event waitEvent] := by
    simp [text]
  refine .step (.step (.step (.start (system.serial_reachable rfl _) 1 {} _)
    (.connect waitingView hview rfl ?_)) (.serve false none waitingView hview rfl))
      (.receive _ rfl hall)
  decide +kernel

theorem followedRun_carried : ∀ frame ∈ followedRun.sent, Carried followedWire frame := by
  have hdumps : followedWire.dumps waitFields = waitText := by simp [followedWire]
  have hparse : followedWire.parse waitText = some (.obj waitFields) := by simp [followedWire]
  have hkeeps : followedWire.Keeps waitFields := by
    refine ⟨?_, ⟨(waitText.drop 1).dropLast, ?_⟩, waitFields, ?_, fun key => ⟨fun _ h => h, id⟩⟩
    · rw [hdumps]
      decide +kernel
    · rw [hdumps]
      decide +kernel
    · rw [hdumps, hparse]
  intro frame hframe fields hfields
  obtain rfl : frame = .event waitEvent := List.mem_singleton.mp hframe
  obtain rfl : waitFields = fields := Option.some.inj hfields
  exact hkeeps

/-- The event is the one with which the Run goes to wait. -/
theorem waitEvent_last : WaitEvent followedRun.history followedRun.runId waitEvent := by
  refine ⟨(system.serial {} claimedRun).cur, (system.serial {} waitingRun).cur,
    ⟨[], (system.serial {} claimedRun).past, rfl⟩, ?_, ?_, by decide +kernel⟩
  · show ¬ ∃ run ∈ (system.serial {} claimedRun).cur.runs, run.id = 10 ∧ run.status = _
    decide +kernel
  · show ∃ run ∈ (system.serial {} waitingRun).cur.runs, run.id = 10 ∧ run.status = _
    decide +kernel

/-- The user is not asked: the client has handled the last event, with which the Run waits, and its
stream is open. -/
theorem waiting_run_not_asked :
    Reachable followedPy followedWire followedRun ∧ ¬ followedRun.Asks ∧
      ∃ call ∈ followedRun.client.handled,
        property call.event "event_id" = some (.str waitEvent.id.str) ∧ call.closed = false := by
  have harrived : Arrived followedWire followedRun waitEvent := by
    refine ⟨[], List.prefix_refl _, ?_⟩
    show text followedWire [.event waitEvent] <+: Frame.text followedWire (.event waitEvent)
    simp [text]
  have hhandled := exists_handled_of_arrived (followedRun_reachable.read followedRun_carried)
    followedRun_carried harrived
  refine ⟨followedRun_reachable, fun hasks => ?_, hhandled⟩
  obtain ⟨call, hcall, hid, hopen⟩ := hhandled
  have hclosed := hasks.closes waitEvent waitEvent_last call hcall hid
  rw [hopen] at hclosed
  cases hclosed

/-- The same session, as a case of the general statement. -/
theorem user_asked_iff_followedRun :
    followedRun.Asks ↔
      (∀ event, WaitEvent followedRun.history followedRun.runId event →
        ¬ Arrived followedWire followedRun event) ∧
        ∀ latest, followedRun.client.stage = .returned latest →
          latest.status ≠ RunStatus.waitingForUser.value :=
  (user_asked_iff followedRun_reachable followedRun_carried).2

end Session

end HarmonyOS
