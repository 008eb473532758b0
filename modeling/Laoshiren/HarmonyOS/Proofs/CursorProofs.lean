import Laoshiren.HarmonyOS.Proofs.SessionProofs
import Laoshiren.HarmonyOS.Session

/-!
# Proofs: the cursor of a client

The durable events come with increasing numbers beyond the cursor of the request, and the client hands over
the object of every frame that has arrived. A live frame has no number: `Math.max` makes the cursor `NaN`,
which it stays.
-/

namespace HarmonyOS

open Runtime Raise Session

variable {py : Builtins} {wire : Wire}

/-! ## Pages -/

/-- The events of a page are beyond the number that was asked for, and their own numbers increase. -/
theorem listEvents_ascends {userId runId : UUID} {after : Option ℕ} {limit : ℕ} (s : Store) :
    (RunRepository.listEvents userId runId after limit s.runs s.events).Pairwise
        (fun e e' => e.sequence < e'.sequence) ∧
      ∀ e ∈ RunRepository.listEvents userId runId after limit s.runs s.events,
        ∀ n ∈ after, n < e.sequence := by
  unfold RunRepository.listEvents
  generalize hfound : (s.events.select fun e =>
    (∃ r ∈ s.runs.rows, r.id = e.runId ∧ r.userId = userId) ∧ e.runId = runId ∧
      ∀ n ∈ after, n < e.sequence) = found
  have hmem : ∀ e ∈ found, e ∈ s.events ∧ e.runId = runId ∧ ∀ n ∈ after, n < e.sequence := by
    intro e he
    rw [← hfound] at he
    obtain ⟨hevents, hp⟩ := Table.mem_select.mp he
    obtain ⟨-, hrun, hbeyond⟩ := of_decide_eq_true hp
    exact ⟨hevents, hrun, hbeyond⟩
  refine ⟨List.Pairwise.sublist (List.take_sublist _ _) ?_, fun e he => ?_⟩
  · have hapart : found.Pairwise fun e e' => e.sequence ≠ e'.sequence := by
      have hpairs : found.Pairwise fun e e' => ¬ Row.conflict e e' := by
        rw [← hfound]
        exact s.events.consistent.filter _
      refine hpairs.imp_of_mem fun he he' hne hsame => hne (.inr ?_)
      exact ⟨(hmem _ he).2.1.trans (hmem _ he').2.1.symm, hsame⟩
    have hsorted := List.pairwise_insertionSort
      (fun e e' : RunEvent => e.sequence ≤ e'.sequence) found
    have hperm := List.perm_insertionSort (fun e e' : RunEvent => e.sequence ≤ e'.sequence) found
    have hapart' := (hperm.pairwise_iff fun h h' => h h'.symm).mpr hapart
    exact hsorted.imp₂ (fun _ _ hle hne => lt_of_le_of_ne hle hne) hapart'
  · have he := (List.mem_insertionSort _).mp (List.mem_of_mem_take he)
    exact (hmem e he).2.2

theorem page_ascends {userId runId : UUID} {after : Option ℕ} {limit : ℕ} {page : List RunEvent}
    {view : ℕ → Store} (h : listEvents userId runId none after limit view = .ok page) :
    page.Pairwise (fun e e' => e.sequence < e'.sequence) ∧
      ∀ e ∈ page, ∀ n ∈ after, n < e.sequence := by
  simp only [listEvents, bind_eq_ok] at h
  obtain ⟨run, -, h⟩ := h
  have hpage : RunRepository.listEvents userId runId after limit (view 2).runs (view 2).events =
      page := by
    cases after <;> exact pure_eq_ok.mp h
  rw [← hpage]
  exact listEvents_ascends (view 2)

/-! ## The stream -/

namespace Session

variable {x x' : Session}

/-- Where a stream stands: what it has sent and what is pending increase beyond the cursor of the request,
and once nothing is pending its own cursor has passed all of it. -/
structure Place (after : Option ℕ) (sent : List RunEvent) (stream : EventStream) : Prop where
  ascends : (sent ++ stream.pending).Pairwise fun e e' => e.sequence < e'.sequence
  beyond : ∀ e ∈ sent ++ stream.pending, ∀ n ∈ after, n < e.sequence
  passed : stream.pending = [] → (∀ e ∈ sent, ∃ c ∈ stream.cursor, e.sequence ≤ c) ∧
    ∀ n ∈ after, ∃ c ∈ stream.cursor, n ≤ c
  listing : stream.stage = .listing → stream.pending = []

theorem Place.next {after : Option ℕ} {sent : List RunEvent} {stream : EventStream}
    (h : Place after sent stream) (disconnected : Bool) (signal : Option EphemeralFrameDTO)
    (view : ℕ → Store) :
    Place after (sent ++ ((stream.next disconnected signal view).2.bind Frame.durable).toList)
      (stream.next disconnected signal view).1 := by
  unfold EventStream.next
  split
  case h_1 hstage =>
    split
    case h_1 event pending hpending =>
      have hmove : sent ++ [event] ++ pending = sent ++ stream.pending := by
        rw [hpending, List.append_assoc]
        rfl
      refine ⟨?_, ?_, fun hnil => ⟨fun e he => ⟨event.sequence, rfl, ?_⟩, fun n hn => ?_⟩, ?_⟩
      · show (sent ++ [event] ++ pending).Pairwise _
        rw [hmove]
        exact h.ascends
      · show ∀ e ∈ sent ++ [event] ++ pending, _
        rw [hmove]
        exact h.beyond
      · rcases List.mem_append.mp he with he | he
        · have hlt := (List.pairwise_append.mp h.ascends).2.2 e he event
            (by rw [hpending]; exact .head _)
          exact hlt.le
        · rw [List.mem_singleton.mp he]
      · refine ⟨event.sequence, rfl, ?_⟩
        exact (h.beyond event (List.mem_append_right _ (by rw [hpending]; exact .head _)) n hn).le
      · intro hlisting
        rw [hstage] at hlisting
        cases hlisting
    case h_2 hpending =>
      have hsame : ∀ stage, Place after sent { stream with stage } :=
        fun stage => ⟨h.ascends, h.beyond, h.passed, fun _ => hpending⟩
      split
      · rw [Option.bind_none, Option.toList_none, List.append_nil]
        exact hsame _
      · have hnone : ((signal.elim Frame.heartbeat Frame.live).durable).toList = [] := by
          cases signal <;> rfl
        split_ifs
        · rw [Option.bind_none, Option.toList_none, List.append_nil]
          exact hsame _
        · rw [Option.bind_none, Option.toList_none, List.append_nil]
          exact hsame _
        · rw [Option.bind_some, hnone, List.append_nil]
          exact hsame _
  case h_2 hstage =>
    have hpending := h.listing hstage
    obtain ⟨hsent, hafter⟩ := h.passed hpending
    split
    · rw [Option.bind_none, Option.toList_none, List.append_nil]
      exact ⟨h.ascends, h.beyond, h.passed, fun _ => hpending⟩
    · next page hpage =>
      obtain ⟨hascends, hbeyond⟩ := page_ascends hpage
      have hold := h.ascends
      have hold' := h.beyond
      rw [hpending, List.append_nil] at hold hold'
      rw [Option.bind_none, Option.toList_none, List.append_nil]
      refine ⟨List.pairwise_append.mpr ⟨hold, hascends, fun e he e' he' => ?_⟩, ?_,
        fun _ => ⟨hsent, hafter⟩, nofun⟩
      · obtain ⟨c, hc, hle⟩ := hsent e he
        exact hle.trans_lt (hbeyond e' he' c hc)
      · intro e he n hn
        rcases List.mem_append.mp he with he | he
        · exact hold' e he n hn
        · obtain ⟨c, hc, hle⟩ := hafter n hn
          exact hle.trans_lt (hbeyond e he c hc)
  case h_3 =>
    rw [Option.bind_none, Option.toList_none, List.append_nil]
    exact h

/-- A stream begins beyond the cursor of the request. -/
theorem Place.opened {userId runId : UUID} {after : Option ℕ} {view : ℕ → Store}
    {stream : EventStream} (hread : ∀ n ∈ after, py.intOfText n.repr = some (n : ℤ))
    (h : streamRunEvents py userId runId (after.map Nat.repr) true view = .ok stream) :
    Place after [] stream := by
  have hparse : parseLastEventId py (after.map Nat.repr) = some (after, none) := by
    cases after with
    | none => rfl
    | some n =>
      have hint : py.intOfText n.repr = some (Int.ofNat n) := hread n rfl
      simp only [Option.map_some, parseLastEventId, hint]
  simp only [streamRunEvents, hparse] at h
  split at h
  · cases h
  · next page hpage =>
    obtain rfl := Except.ok.inj h
    obtain ⟨hascends, hbeyond⟩ := page_ascends hpage
    refine ⟨hascends, hbeyond, fun hnil =>
      ⟨List.forall_mem_nil _, fun n hn => ⟨n, ?_, le_rfl⟩⟩, fun h => by cases h⟩
    have hnil : page = [] := hnil
    rw [hnil]
    exact hn

/-- The durable events that were sent, as long as there is a stream, and none before. -/
structure Ascends (x : Session) : Prop where
  unopened : x.server = none → x.sent = []
  place : ∀ stream ∈ x.server, Place x.client.afterSequence (x.sent.filterMap Frame.durable) stream

theorem afterSequence_consume (json : JsonText) (flush : Bool) (f : Follow) :
    (f.consume json flush).afterSequence = f.afterSequence := by
  have hfold : ∀ (events : List Json) (f : Follow),
      (events.foldl Follow.handle f).afterSequence = f.afterSequence := by
    intro events
    induction events with
    | nil => exact fun _ => rfl
    | cons event events ih => exact fun f => ih (f.handle event)
  exact hfold _ _

theorem afterSequence_step (hstep : Step py wire x x') :
    x'.client.afterSequence = x.client.afterSequence := by
  cases hstep with
  | receive chunk hactive hchunk => exact afterSequence_consume _ _ _
  | dataEnd hactive hserver hended hall => exact afterSequence_consume _ _ _
  | _ => rfl

theorem Ascends.step (h : Ascends x) (hread : x.CursorRead py) (hstep : Step py wire x x') :
    Ascends x' := by
  have hafter := afterSequence_step hstep
  cases hstep with
  | connect view hviews hserver hstream =>
    have hsent := h.unopened hserver
    refine ⟨nofun, fun stream hmem => ?_⟩
    obtain rfl := Option.some.inj hmem
    show Place x.client.afterSequence (x.sent.filterMap Frame.durable) _
    rw [hsent]
    exact Place.opened hread hstream
  | @serve stream disconnected signal view hviews hserver =>
    refine ⟨nofun, fun stream' hmem => ?_⟩
    obtain rfl := Option.some.inj hmem
    have hplace := (h.place stream hserver).next disconnected signal view
    have hmore : (x.served (stream.next disconnected signal view)).sent.filterMap Frame.durable =
        x.sent.filterMap Frame.durable ++
          ((stream.next disconnected signal view).2.bind Frame.durable).toList := by
      show (x.sent ++ _).filterMap _ = _
      rw [List.filterMap_append]
      congr 1
      cases (stream.next disconnected signal view).2 with
      | none => rfl
      | some frame => cases frame <;> rfl
    rw [hmore]
    exact hplace
  | commit op view hviews => exact ⟨h.unopened, h.place⟩
  | receive chunk hactive hchunk =>
    refine ⟨h.unopened, fun stream hmem => ?_⟩
    rw [hafter]
    exact h.place stream hmem
  | dataEnd hactive hserver hended hall =>
    refine ⟨h.unopened, fun stream hmem => ?_⟩
    rw [hafter]
    exact h.place stream hmem
  | close => exact ⟨h.unopened, h.place⟩
  | settle statusCode hstage => exact ⟨h.unopened, h.place⟩
  | reread hs hstage hrun => exact ⟨h.unopened, h.place⟩
  | rereadFails hstage => exact ⟨h.unopened, h.place⟩
  | refreshed ok hstage => exact ⟨h.unopened, h.place⟩

theorem Reachable.ascends (hr : Reachable py wire x) (hread : x.CursorRead py) : Ascends x := by
  induction hr with
  | start => exact ⟨fun _ => rfl, nofun⟩
  | step _ hstep ih =>
    have hafter := afterSequence_step hstep
    have hbefore : CursorRead py _ := fun n hn => hread n (by rw [hafter]; exact hn)
    exact (ih hbefore).step hbefore hstep

/-- The durable events that were sent have increasing numbers beyond the cursor of the request. -/
theorem Reachable.sent_ascends (hr : Reachable py wire x) (hread : x.CursorRead py) :
    (x.sent.filterMap Frame.durable).Pairwise (fun e e' => e.sequence < e'.sequence) ∧
      ∀ e ∈ x.sent.filterMap Frame.durable, x.initial ≤ e.sequence := by
  obtain ⟨hunopened, hplace⟩ := hr.ascends hread
  cases hserver : x.server with
  | none =>
    rw [hunopened hserver]
    exact ⟨.nil, nofun⟩
  | some stream =>
    obtain ⟨hascends, hbeyond, -, -⟩ := hplace stream hserver
    refine ⟨(List.pairwise_append.mp hascends).1, fun e he => ?_⟩
    unfold initial
    cases hafter : x.client.afterSequence with
    | none => exact Nat.zero_le _
    | some n => exact (hbeyond e (List.mem_append_left _ he) n hafter).le

end Session

/-! ## The client -/

/-- What an event makes of the cursor. -/
def track (last : Option ℚ) (event : Json) : Option ℚ :=
  if event.isNone then last else mathMax last (property event "sequence")

/-- The cursor of a client is what the events that it has handled made of the first one. -/
def Tracks (f : Follow) : Prop :=
  f.viewModel.lastEventSequence =
    (f.handled.map Handled.event).foldl track (some ((f.afterSequence.getD 0 : ℕ) : ℚ))

theorem onEvent_cursor (viewModel : ChatViewModel) (event : Json) :
    (onEvent viewModel event).1.lastEventSequence = track viewModel.lastEventSequence event := by
  unfold onEvent track
  dsimp only
  split_ifs <;> rfl

theorem Tracks.handle {f : Follow} (h : Tracks f) (event : Json) : Tracks (f.handle event) := by
  unfold Tracks at h ⊢
  show (onEvent f.viewModel event).1.lastEventSequence = _
  simp only [Follow.handle, List.map_append, List.map_cons, List.map_nil, List.foldl_append,
    List.foldl_cons, List.foldl_nil]
  rw [onEvent_cursor, h]

theorem Tracks.consume {f : Follow} (h : Tracks f) (json : JsonText) (flush : Bool) :
    Tracks (f.consume json flush) := by
  have hfold : ∀ (events : List Json) (f : Follow), Tracks f → Tracks (events.foldl Follow.handle f) := by
    intro events
    induction events with
    | nil => exact fun _ hf => hf
    | cons event events ih => exact fun f hf => ih _ (hf.handle event)
  exact hfold _ _ h

theorem Tracks.reread {f : Follow} (h : Tracks f) (answer : Option AgentRun) :
    Tracks (f.reread answer) := by
  cases answer with
  | none => exact h
  | some latest =>
    have hcursor : (f.reread (some latest)).viewModel.lastEventSequence =
        f.viewModel.lastEventSequence := by
      unfold Follow.reread
      dsimp only
      split_ifs <;> rfl
    exact hcursor.trans h

theorem Session.Reachable.tracks {x : Session} (hr : Reachable py wire x) : Tracks x.client := by
  induction hr with
  | start hr userId viewModel run =>
    show some _ = some _
    simp only [Session.start, Follow.start]
    split_ifs with hpos
    · rfl
    · rw [Nat.eq_zero_of_not_pos hpos]
      rfl
  | @step x x' _ hstep ih =>
    cases hstep with
    | receive chunk hactive hchunk =>
      have hbuffered : Tracks { x.client with
          stream := { x.client.stream with buffer := x.client.stream.buffer ++ chunk } } := ih
      exact hbuffered.consume _ _
    | dataEnd hactive hserver hended hall => exact Tracks.consume ih _ _
    | reread hs hstage hrun => exact ih.reread _
    | rereadFails hstage => exact ih.reread none
    | _ => exact ih

/-! ## What has been handled -/

theorem property_obj (fields : Dict) (key : String) : property (.obj fields) key = fields.get key :=
  rfl

theorem track_obj (last : Option ℚ) (fields : Dict) :
    track last (.obj fields) = mathMax last (fields.get "sequence") := rfl

/-- The object that the handler gets for a frame. -/
def objectOf (wire : Wire) (frame : Frame) : Option Json := (frame.payload wire).map .obj

theorem sequence_envelope (e : RunEvent) :
    (e.envelope wire).get "sequence" = some (.num e.sequence) := by
  unfold RunEvent.envelope Dict.ofFields Dict.merge
  simp [Dict.get_set_ne, Dict.get_set_self]

theorem track_event {n : ℕ} {e : RunEvent} (h : n ≤ e.sequence) :
    track (some (n : ℚ)) (.obj (e.envelope wire)) = some (e.sequence : ℚ) := by
  rw [track_obj, sequence_envelope]
  show some (max (n : ℚ) e.sequence) = _
  rw [max_eq_right (by exact_mod_cast h)]

theorem track_live (last : Option ℚ) (signal : EphemeralFrameDTO) :
    track last (.obj (signal.envelope wire)) = none := by
  have hnone : (signal.envelope wire).get "sequence" = none :=
    Dict.get_ofFields_of_not_mem (by simp)
  rw [track_obj, hnone]
  cases last <;> rfl

theorem foldl_track_none (frames : List Frame) :
    (frames.filterMap (objectOf wire)).foldl track none = none := by
  induction frames with
  | nil => rfl
  | cons frame frames ih => cases frame <;> exact ih

/-- One live frame makes the cursor `NaN`. -/
theorem foldl_track_live {frames : List Frame} {signal : EphemeralFrameDTO}
    (h : .live signal ∈ frames) (last : Option ℚ) :
    (frames.filterMap (objectOf wire)).foldl track last = none := by
  induction frames generalizing last with
  | nil => cases h
  | cons frame frames ih =>
    rcases List.mem_cons.mp h with rfl | h
    · show (frames.filterMap (objectOf wire)).foldl track (track last _) = none
      rw [track_live]
      exact foldl_track_none frames
    · cases hobject : objectOf wire frame with
      | none =>
        rw [List.filterMap_cons_none hobject]
        exact ih h last
      | some event =>
        rw [List.filterMap_cons_some hobject]
        exact ih h _

/-- Durable events in order take the cursor to the last of them. -/
theorem foldl_track_events {events : List RunEvent} {n : ℕ}
    (hascends : events.Pairwise fun e e' => e.sequence < e'.sequence)
    (hbeyond : ∀ e ∈ events, n ≤ e.sequence) :
    (events.map fun e => Json.obj (e.envelope wire)).foldl track (some (n : ℚ)) =
      some (((events.getLast?.map RunEvent.sequence).getD n : ℕ) : ℚ) := by
  induction events generalizing n with
  | nil => rfl
  | cons e events ih =>
    obtain ⟨hfirst, hrest⟩ := List.pairwise_cons.mp hascends
    rw [List.map_cons, List.foldl_cons, track_event (hbeyond e (.head _)),
      ih hrest fun e' he' => (hfirst e' he').le]
    cases events with
    | nil => rfl
    | cons e' events =>
      rw [List.getLast?_cons_cons, List.getLast?_cons]
      rfl

/-- Without live frames the handler gets the durable events alone. -/
theorem filterMap_objectOf {frames : List Frame} (h : ∀ signal, .live signal ∉ frames) :
    frames.filterMap (objectOf wire) =
      (frames.filterMap Frame.durable).map fun e => .obj (e.envelope wire) := by
  induction frames with
  | nil => rfl
  | cons frame frames ih =>
    have hrest := ih fun signal hmem => h signal (.tail _ hmem)
    cases frame with
    | event e => exact congrArg (Json.obj (e.envelope wire) :: ·) hrest
    | live signal => exact absurd (.head _) (h signal)
    | heartbeat => exact hrest

/-- What is durable of the objects of all frames are the durable events. -/
theorem filter_isDurable (frames : List Frame) :
    (frames.filterMap (objectOf wire)).filter isDurable =
      (frames.filterMap Frame.durable).map fun e => .obj (e.envelope wire) := by
  induction frames with
  | nil => rfl
  | cons frame frames ih =>
    cases frame with
    | event e =>
      have hdurable : isDurable (.obj (e.envelope wire)) = true := by
        unfold isDurable
        rw [property_obj, eventId_envelope]
        rfl
      show (Json.obj (e.envelope wire) :: frames.filterMap (objectOf wire)).filter isDurable = _
      rw [List.filter_cons_of_pos hdurable, ih]
      rfl
    | live signal =>
      have hnot : isDurable (.obj (signal.envelope wire)) = false := by
        unfold isDurable
        rw [property_obj, EphemeralFrameDTO.envelope, Dict.get_ofFields_of_not_mem (by simp)]
        rfl
      show (Json.obj (signal.envelope wire) :: frames.filterMap (objectOf wire)).filter isDurable = _
      rw [List.filter_cons_of_neg (by rw [hnot]; decide), ih]
      rfl
    | heartbeat => exact ih

namespace Session

variable {x : Session}

/-- The handler has got the objects of the frames that have arrived. -/
theorem handled_eq (hr : Reachable py wire x) (hcarried : ∀ frame ∈ x.sent, Carried wire frame)
    (hback : ∀ frame ∈ x.sent, ReadBack wire frame) :
    x.client.handled.map Handled.event = x.delivered.filterMap (objectOf wire) := by
  have hread := hr.read hcarried
  obtain ⟨frames, hframes, hblocks, -⟩ := exists_frames hcarried hr.kept.received
  have hdelivered : x.delivered = frames := by
    unfold delivered
    rw [hblocks, List.length_map]
    exact (List.prefix_iff_eq_take.mp hframes).symm
  have hobject : ∀ frame ∈ frames, readBlock wire.toJsonText (block wire frame) =
      objectOf wire frame := by
    intro frame hframe
    have hsent := hframes.subset hframe
    rw [readBlock_block (hcarried frame hsent)]
    unfold objectOf
    cases hpayload : frame.payload wire with
    | none => rfl
    | some fields => exact hback frame hsent fields hpayload
  rw [hread.handled, hblocks, hdelivered, List.map_map, List.filterMap_map]
  show List.map id _ = _
  rw [List.map_id]
  exact List.filterMap_congr hobject

/-- All frames are delivered when all of the text has arrived. -/
theorem delivered_of_all (hcarried : ∀ frame ∈ x.sent, Carried wire frame)
    (hall : x.received = text wire x.sent) : x.delivered = x.sent := by
  have hplain : ∀ b ∈ x.sent.map (block wire), Blocks.Plain '\n' b := by
    intro b hb
    obtain ⟨frame, hframe, rfl⟩ := List.mem_map.mp hb
    exact plain_block (hcarried frame hframe)
  have hjoin := Blocks.cut_join hplain List.IsChain.nil
  rw [List.append_nil, ← text_eq_join, ← hall] at hjoin
  unfold delivered
  rw [hjoin, List.length_map, List.take_length]

/-- In every session, at every time: the client has inverted what has arrived of the stream if and only if no
live frame has; and when all of the text has arrived, that is all of the stream. -/
theorem stream_inverted_iff (hr : Reachable py wire x)
    (hcarried : ∀ frame ∈ x.sent, Carried wire frame)
    (hback : ∀ frame ∈ x.sent, ReadBack wire frame) (hcursor : x.CursorRead py) :
    (x.received = text wire x.sent → x.delivered = x.sent) ∧
      (x.Inverts wire ↔ ∀ signal, .live signal ∉ x.delivered) := by
  have hhandled := handled_eq hr hcarried hback
  refine ⟨delivered_of_all hcarried, fun h signal hlive => ?_, fun hnone => ⟨?_, ?_⟩⟩
  · have hnan := hr.tracks
    unfold Tracks at hnan
    rw [hhandled, foldl_track_live hlive, h.cursor] at hnan
    cases hnan
  · rw [hhandled]
    exact filter_isDurable x.delivered
  · obtain ⟨hascends, hbeyond⟩ := hr.sent_ascends hcursor
    have hsublist : x.events.Sublist (x.sent.filterMap Frame.durable) :=
      (List.take_sublist _ _).filterMap _
    have hcursor' := hr.tracks
    unfold Tracks at hcursor'
    rw [hcursor', hhandled, filterMap_objectOf hnone]
    exact foldl_track_events (hascends.sublist hsublist)
      fun e he => hbeyond e (hsublist.subset he)

/-- The Run that goes to wait, as a case of the general statement. -/
theorem stream_inverted_iff_followedRun :
    (followedRun.received = text followedWire followedRun.sent →
        followedRun.delivered = followedRun.sent) ∧
      (followedRun.Inverts followedWire ↔ ∀ signal, .live signal ∉ followedRun.delivered) := by
  refine stream_inverted_iff followedRun_reachable followedRun_carried ?_ ?_
  · intro frame hframe fields hfields
    obtain rfl : frame = .event waitEvent := List.mem_singleton.mp hframe
    obtain rfl : waitFields = fields := Option.some.inj hfields
    have hdumps : followedWire.dumps waitFields = waitText := by simp [followedWire]
    have hparse : followedWire.parse waitText = some (.obj waitFields) := by simp [followedWire]
    rw [hdumps, hparse]
  · have hafter : followedRun.client.afterSequence = some 3 := by decide +kernel
    intro n hn
    rw [hafter] at hn
    obtain rfl : 3 = n := Option.some.inj hn
    decide +kernel

/-! ## A live frame -/

/-- A part of an answer that the model is still writing. -/
def deltaSignal : EphemeralFrameDTO where
  runId := 10
  frameType := .assistantDelta
  data := [("text", .str "On it")]
  emittedAt := 3

/-- Its object. -/
def deltaFields : Dict := deltaSignal.envelope ⟨⟨fun _ => [], fun _ => none⟩, followedTime⟩

/-- The text of its object. -/
def deltaText : List Char :=
  ["\x7b\"run_id\": ", "\"00000000-0000-", "0000-0000-", "00000000000a\", ", "\"frame_type\": ",
    "\"assistant.delta\", ", "\"emitted_at\": ", "\"2026-05-01T", "00:00:02+00:00\", ",
    "\"data\": ", "\x7b\"text\": ", "\"On it\"\x7d\x7d"].flatMap String.toList

/-- JSON as far as this frame needs it. -/
def deltaWire : Wire where
  dumps fields := if fields = deltaFields then deltaText else []
  parse text := if text = deltaText then some (.obj deltaFields) else none
  isoformat := followedTime

/-- `int` of the cursor that the client sends. -/
def deltaPy : Builtins := ⟨fun text => if text = "4" then some 4 else none, fun _ => ""⟩

/-- The stream of the Run beyond its last event. -/
def deltaStream : EventStream where
  userId := 1
  runId := 10
  follow := true
  cursor := some 4
  pending := []

/-- The client has followed the Run from its last event on, and the live frame has arrived. -/
def deltaRun : Session :=
  (((Session.start (system.serial {} waitingRun) 1 {}
    { id := 10, status := "WAITING_FOR_USER", version := 3, lastEventSequence := some 4 }).connected
      deltaStream).served (deltaStream.next false (some deltaSignal) waitingView)).receives deltaWire
        (Frame.text deltaWire (.live deltaSignal))

theorem deltaRun_reachable : Reachable deltaPy deltaWire deltaRun := by
  have hview : ∀ n, waitingView n ∈ (system.serial {} waitingRun).states :=
    fun _ => List.mem_cons_self
  refine .step (.step (.step (.start (system.serial_reachable rfl _) 1 {} _)
    (.connect waitingView hview rfl ?_)) (.serve false (some deltaSignal) waitingView hview rfl))
      (.receive _ rfl ?_)
  · decide +kernel
  · have hsent : (deltaStream.next false (some deltaSignal) waitingView).2 =
        some (.live deltaSignal) := by decide +kernel
    simp [served, connected, start, text, hsent]

theorem deltaRun_sent : deltaRun.sent = [.live deltaSignal] := by decide +kernel

theorem deltaRun_carried : ∀ frame ∈ deltaRun.sent, Carried deltaWire frame := by
  have hdumps : deltaWire.dumps deltaFields = deltaText := by simp [deltaWire]
  have hparse : deltaWire.parse deltaText = some (.obj deltaFields) := by simp [deltaWire]
  have hkeeps : deltaWire.Keeps deltaFields := by
    refine ⟨?_, ⟨(deltaText.drop 1).dropLast, ?_⟩, deltaFields, ?_, fun key => ⟨fun _ h => h, id⟩⟩
    · rw [hdumps]
      decide +kernel
    · rw [hdumps]
      decide +kernel
    · rw [hdumps, hparse]
  rw [deltaRun_sent]
  intro frame hframe fields hfields
  obtain rfl : frame = .live deltaSignal := List.mem_singleton.mp hframe
  obtain rfl : deltaFields = fields := Option.some.inj hfields
  exact hkeeps

/-- A live frame that arrives makes the cursor of the client `NaN`: no durable event was delivered, and the
cursor is not the one with which `follow` began. -/
theorem live_frame_loses_cursor :
    Reachable deltaPy deltaWire deltaRun ∧ (∀ frame ∈ deltaRun.sent, Carried deltaWire frame) ∧
      deltaRun.CursorRead deltaPy ∧ deltaRun.received = text deltaWire deltaRun.sent ∧
        deltaRun.events = [] ∧ deltaRun.client.viewModel.lastEventSequence = none ∧
          ¬ deltaRun.Inverts deltaWire := by
  have hcursor : deltaRun.client.viewModel.lastEventSequence = none := by decide +kernel
  refine ⟨deltaRun_reachable, deltaRun_carried, ?_, ?_, ?_, hcursor, fun h => ?_⟩
  · have hafter : deltaRun.client.afterSequence = some 4 := by decide +kernel
    intro n hn
    rw [hafter] at hn
    obtain rfl : 4 = n := Option.some.inj hn
    decide +kernel
  · rw [deltaRun_sent]
    simp [text, deltaRun, receives, served, connected, start]
  · decide +kernel
  · cases h.cursor.symm.trans hcursor

end Session

end HarmonyOS
