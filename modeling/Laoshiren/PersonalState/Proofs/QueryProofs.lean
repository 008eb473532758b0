import Laoshiren.PersonalState.Proofs.IsolationProofs
import Laoshiren.PersonalState.Queries

/-!
# What others write is not seen

A read asks for rows of its user alone, by their user or through the Thing that they hang on. So it
is answered alike in two states that have the same rows of the user, and by statements that see
different ones of such states: no read of a user tells what other users wrote (`others_not_seen`).
-/

namespace PersonalState

open Raise Runtime

variable {cal : Calendar} {ilike : String → String → Bool} {userId thingId : UUID} {s s' : State}
  {view : ℕ → State}

/-! ## A read in one state -/

/-- With all its statements in one state, a read of a description is the one of that state. -/
theorem getThingContextSnapshotAt_same :
    getThingContextSnapshotAt userId thingId (fun _ => s) =
      getThingContextSnapshot userId thingId s := rfl

theorem buildThingPrefetchAt_same {matchReason : String} :
    buildThingPrefetchAt cal userId thingId matchReason (fun _ => s) =
      buildThingPrefetch cal userId thingId matchReason s := rfl

theorem getAgentThingPrefetchAt_same {activeThingId : Option UUID} {query : String} :
    getAgentThingPrefetchAt cal ilike userId activeThingId query 5 (fun _ => s) =
      getAgentThingPrefetch cal ilike userId activeThingId query s := by
  unfold getAgentThingPrefetchAt getAgentThingPrefetch
  rw [bind_of_ensure (by decide)]
  cases activeThingId with
  | some thingId => rfl
  | none =>
    dsimp only
    split
    · rfl
    · next hlength =>
      have hquery : thingSearchQueryFromInput (Text.strip query) ≠ "" := by
        intro h
        rw [h] at hlength
        exact hlength (.inr (by decide))
      have hthings : getThings ilike userId none
          (some (thingSearchQueryFromInput (Text.strip query))) none 5 s =
          .ok (ThingRepository.listForUser ilike userId none (some (Text.strip
            (thingSearchQueryFromInput (Text.strip query)))) none 5 s.things) := by
        unfold getThings checkLimit
        rw [bind_of_ensure (by decide), Option.filter_some, if_pos (decide_eq_true hquery)]
        rfl
      rw [bind_of_ok hthings]
      rfl

/-! ## Statements -/

/-- A Thing that a joined query finds is the user's. -/
theorem owns_of_ofUser (h : ofUser userId thingId s.things = true) : s.Owns userId thingId := by
  obtain ⟨thing, hmem, hp⟩ := List.any_eq_true.mp h
  exact ⟨thing, hmem, of_decide_eq_true hp⟩

/-- A Thing that a query of a Blocker finds is the user's. -/
theorem ofUser_of_get {thing : Thing} (h : (s.things.get fun r => r.id = thingId ∧
    r.userId = userId ∧ r.archivedAt = none) = some thing) :
    ofUser userId thingId s.things = true := by
  obtain ⟨hmem, hp⟩ := Table.get_eq_some h
  obtain ⟨hid, huser, -⟩ := of_decide_eq_true hp
  exact List.any_eq_true.mpr ⟨thing, hmem, decide_eq_true ⟨hid, huser⟩⟩

namespace State.SameFor

theorem getIncludingDeleted (h : State.SameFor userId s s') :
    ThingRepository.getIncludingDeleted userId thingId s'.things =
      ThingRepository.getIncludingDeleted userId thingId s.things :=
  h.things.get_eq fun _ hr => (of_decide_eq_true hr).2

theorem getThing (h : State.SameFor userId s s') :
    getThing userId thingId s' = PersonalState.getThing userId thingId s := by
  unfold PersonalState.getThing
  rw [h.getIncludingDeleted]

theorem requireThing (h : State.SameFor userId s s') :
    requireThing userId thingId s' = PersonalState.requireThing userId thingId s := by
  unfold PersonalState.requireThing ThingRepository.get
  rw [h.things.get_eq fun _ hr => (of_decide_eq_true hr).2.1]

theorem ofUser (h : State.SameFor userId s s') :
    ofUser userId thingId s'.things = PersonalState.ofUser userId thingId s.things :=
  h.things.any_eq fun _ hr => (of_decide_eq_true hr).2

theorem listForThing_tasks (h : State.SameFor userId s s') :
    TaskRepository.listForThing userId thingId s'.tasks =
      TaskRepository.listForThing userId thingId s.tasks := by
  unfold TaskRepository.listForThing
  rw [h.tasks.select_eq fun _ hr => (of_decide_eq_true hr).2]

/-- The rows that hang on one Thing of the user. -/
theorem select_of_thing {α : Type} [Row α] {thing : α → UUID} {t t' : Table α}
    (h : State.SameFor userId s s')
    (ht : Table.SameOn (fun r => s.Owns userId (thing r)) t t') :
    (t'.select fun r => thing r = thingId ∧ PersonalState.ofUser userId thingId s'.things = true) =
      t.select fun r =>
        thing r = thingId ∧ PersonalState.ofUser userId thingId s.things = true := by
  rw [h.ofUser]
  refine ht.select_eq fun r hr => ?_
  obtain ⟨hthing, hof⟩ := of_decide_eq_true hr
  rw [hthing]
  exact owns_of_ofUser hof

theorem listForThing_dates {limit : ℕ} (h : State.SameFor userId s s') :
    ThingDateRepository.listForThing userId thingId limit s'.things s'.dates =
      ThingDateRepository.listForThing userId thingId limit s.things s.dates := by
  unfold ThingDateRepository.listForThing
  rw [h.select_of_thing h.dates]

theorem listForThing_blockers (h : State.SameFor userId s s') :
    BlockerRepository.listForThing userId thingId s'.things s'.blockers =
      BlockerRepository.listForThing userId thingId s.things s.blockers := by
  unfold BlockerRepository.listForThing
  rw [h.select_of_thing h.blockers]

theorem listForThing_entries (h : State.SameFor userId s s') :
    ContextEntryRepository.listForThing userId thingId s'.things s'.contextEntries =
      ContextEntryRepository.listForThing userId thingId s.things s.contextEntries := by
  unfold ContextEntryRepository.listForThing
  rw [h.select_of_thing h.contextEntries]

theorem listForThing_relations (h : State.SameFor userId s s') :
    RelationRepository.listForThing userId thingId s'.things s'.relations =
      RelationRepository.listForThing userId thingId s.things s.relations := by
  unfold RelationRepository.listForThing
  rw [h.select_of_thing h.relations]

theorem listOpen {limit : ℕ} (h : State.SameFor userId s s') :
    BlockerRepository.listOpen userId limit s'.things s'.blockers =
      BlockerRepository.listOpen userId limit s.things s.blockers := by
  have hget : ∀ thingId, (s'.things.get fun r => r.id = thingId ∧ r.userId = userId ∧
      r.archivedAt = none) = s.things.get fun r => r.id = thingId ∧ r.userId = userId ∧
        r.archivedAt = none := fun thingId =>
    h.things.get_eq fun _ hr => (of_decide_eq_true hr).2.1
  -- the Blockers of other users are dropped with their Things
  have hlisted : ∀ t : Table Blocker, (t.select fun b => b.status = .open).filterMap (fun b =>
      (s.things.get fun r => r.id = b.thingId ∧ r.userId = userId ∧ r.archivedAt = none).map
        fun r => (b, r.name)) =
      (t.select fun b => b.status = .open ∧
        PersonalState.ofUser userId b.thingId s.things = true).filterMap fun b =>
          (s.things.get fun r => r.id = b.thingId ∧ r.userId = userId ∧ r.archivedAt = none).map
            fun r => (b, r.name) := by
    intro t
    unfold Table.select
    rw [List.filterMap_filter, List.filterMap_filter]
    refine List.filterMap_congr fun b hb => ?_
    by_cases hof : PersonalState.ofUser userId b.thingId s.things = true
    · simp only [hof, and_true]
    · have hnone : (s.things.get fun r => r.id = b.thingId ∧ r.userId = userId ∧
          r.archivedAt = none) = none :=
        Option.eq_none_iff_forall_ne_some.mpr fun thing hthing => hof (ofUser_of_get hthing)
      simp only [hnone, Option.map_none, ite_self]
  unfold BlockerRepository.listOpen
  simp only [hget]
  rw [hlisted, hlisted, h.blockers.select_eq fun _ hr => owns_of_ofUser (of_decide_eq_true hr).2]

theorem listForUser {status : Option ThingStatus} {query : Option String} {cursor : Option UUID}
    {limit : ℕ} (h : State.SameFor userId s s') :
    ThingRepository.listForUser ilike userId status query cursor limit s'.things =
      ThingRepository.listForUser ilike userId status query cursor limit s.things := by
  unfold ThingRepository.listForUser
  rw [h.things.select_eq fun _ hr => (of_decide_eq_true hr).1]

theorem listUpcoming {now windowEnd : Timestamp} {limit : ℕ} (h : State.SameFor userId s s') :
    ThingRepository.listUpcoming userId now windowEnd limit s'.things =
      ThingRepository.listUpcoming userId now windowEnd limit s.things := by
  unfold ThingRepository.listUpcoming
  rw [h.things.select_eq fun _ hr => (of_decide_eq_true hr).1]

theorem listActive {limit : ℕ} (h : State.SameFor userId s s') :
    Memories.listActive userId limit s'.things = Memories.listActive userId limit s.things := by
  unfold Memories.listActive
  rw [h.things.select_eq fun _ hr => (of_decide_eq_true hr).1]

theorem listRecent {limit : ℕ} (h : State.SameFor userId s s') :
    ThingRepository.listRecent userId limit s'.things =
      ThingRepository.listRecent userId limit s.things := by
  unfold ThingRepository.listRecent
  rw [h.things.select_eq fun _ hr => (of_decide_eq_true hr).1]

theorem countOpen {thingIds : List UUID} (h : State.SameFor userId s s') :
    TaskRepository.countOpen userId thingIds thingId s'.tasks =
      TaskRepository.countOpen userId thingIds thingId s.tasks := by
  unfold TaskRepository.countOpen
  rw [h.tasks.select_eq fun _ hr => (of_decide_eq_true hr).2.2.1]

end State.SameFor

/-! ## Reads of several statements -/

section Reads

variable (h : ∀ n, State.SameFor userId s (view n))

include h

/-- The redirects of a Thing of the user lead to the same Thing. -/
theorem resolveFrom_same {n m : ℕ} {seen : Finset UUID} :
    resolveFrom userId view n seen thingId = resolveFrom userId (fun _ => s) m seen thingId := by
  fun_induction resolveFrom userId view n seen thingId generalizing m with
  | case1 n seen thingId hseen => rw [resolveFrom, dif_pos hseen]
  | case2 n seen thingId hseen hget =>
    have hread := (State.SameFor.getIncludingDeleted (h n)).symm.trans hget
    rw [resolveFrom, dif_neg hseen, hread]
  | case3 n seen thingId hseen thing hget hlive hmerged =>
    have hread := (State.SameFor.getIncludingDeleted (h n)).symm.trans hget
    rw [resolveFrom, dif_neg hseen, hread]
    simp only [hlive, hmerged, if_true]
  | case4 n seen thingId hseen thing hget hlive next hmerged ih =>
    have hread := (State.SameFor.getIncludingDeleted (h n)).symm.trans hget
    rw [@ih (m + 1), resolveFrom.eq_def userId (fun _ => s) m, dif_neg hseen, hread]
    simp only [hlive, hmerged, if_true]
  | case5 n seen thingId hseen thing hget hlive =>
    have hread := (State.SameFor.getIncludingDeleted (h n)).symm.trans hget
    rw [resolveFrom, dif_neg hseen, hread]
    simp only [hlive, if_false]

theorem listOfThing_same {α : Type} {list : State → α} (hlist : list (view 1) = list s) :
    listOfThing userId thingId list view = listOfThing userId thingId list fun _ => s := by
  unfold listOfThing
  rw [(h 0).requireThing, hlist]

theorem getStateOverview_same {now : Timestamp} {limits : OverviewLimits} :
    getStateOverview userId now limits view = getStateOverview userId now limits fun _ => s := by
  have hcount : ∀ thingIds thingId,
      TaskRepository.countOpen userId thingIds thingId (view 4).tasks =
        TaskRepository.countOpen userId thingIds thingId s.tasks := fun _ _ => (h 4).countOpen
  unfold getStateOverview
  simp only [(h 0).listUpcoming, (h 1).listActive, (h 2).listRecent, (h 3).listOpen, hcount]

theorem getThingContextSnapshotAt_of_same :
    getThingContextSnapshotAt userId thingId view =
      getThingContextSnapshotAt userId thingId fun _ => s := by
  have hthing : resolveActiveThing userId thingId (fun n => view (n + 4)) =
      resolveActiveThing userId thingId fun _ => s :=
    resolveFrom_same fun n => h (n + 4)
  have htasks : ∀ thingId, TaskRepository.listForThing userId thingId (view 0).tasks =
      TaskRepository.listForThing userId thingId s.tasks := fun _ => (h 0).listForThing_tasks
  have hdates : ∀ thingId,
      ThingDateRepository.listForThing userId thingId 100 (view 1).things (view 1).dates =
        ThingDateRepository.listForThing userId thingId 100 s.things s.dates :=
    fun _ => (h 1).listForThing_dates
  have hblockers : ∀ thingId,
      BlockerRepository.listForThing userId thingId (view 2).things (view 2).blockers =
        BlockerRepository.listForThing userId thingId s.things s.blockers :=
    fun _ => (h 2).listForThing_blockers
  have hentries : ∀ thingId,
      ContextEntryRepository.listForThing userId thingId (view 3).things (view 3).contextEntries =
        ContextEntryRepository.listForThing userId thingId s.things s.contextEntries :=
    fun _ => (h 3).listForThing_entries
  unfold getThingContextSnapshotAt
  simp only [hthing, htasks, hdates, hblockers, hentries]

theorem getBlockersAt_same :
    getBlockersAt userId thingId view = getBlockersAt userId thingId fun _ => s :=
  listOfThing_same h (h 1).listForThing_blockers

theorem getDatesAt_same {limit : ℤ} :
    getDatesAt userId thingId limit view = getDatesAt userId thingId limit fun _ => s := by
  unfold getDatesAt
  rw [listOfThing_same h (h 1).listForThing_dates]

theorem getContextEntries_same :
    getContextEntries userId thingId view = getContextEntries userId thingId fun _ => s :=
  listOfThing_same h (h 1).listForThing_entries

theorem getRelations_same :
    getRelations userId thingId view = getRelations userId thingId fun _ => s :=
  listOfThing_same h (h 1).listForThing_relations

theorem getTimeline_same {eventType : Option String} {limit : ℤ} :
    getTimeline userId thingId eventType limit view =
      getTimeline userId thingId eventType limit fun _ => s := by
  have hevents : ∀ eventType limit,
      AuditRepository.listTimeline userId thingId eventType limit (view 1).timeline =
        AuditRepository.listTimeline userId thingId eventType limit s.timeline := by
    intro eventType limit
    unfold AuditRepository.listTimeline
    rw [(h 1).timeline.select_eq fun _ hr => (of_decide_eq_true hr).1]
  unfold getTimeline
  rw [listOfThing_same h (hevents _ _)]

theorem getStateHistory_same {limit : ℤ} :
    getStateHistory userId thingId limit view =
      getStateHistory userId thingId limit fun _ => s := by
  have hmutations : ∀ limit, AuditRepository.listMutations userId thingId limit (view 1).mutations =
      AuditRepository.listMutations userId thingId limit s.mutations := by
    intro limit
    unfold AuditRepository.listMutations
    rw [(h 1).mutations.select_eq fun _ hr => (of_decide_eq_true hr).1]
  unfold getStateHistory
  rw [listOfThing_same h (hmutations _)]

theorem buildThingPrefetchAt_of_same {matchReason : String} :
    buildThingPrefetchAt cal userId thingId matchReason view =
      buildThingPrefetchAt cal userId thingId matchReason fun _ => s := by
  have htasks : ∀ thingId, TaskRepository.listForThing userId thingId (view 1).tasks =
      TaskRepository.listForThing userId thingId s.tasks := fun _ => (h 1).listForThing_tasks
  have hblockers : ∀ thingId, getBlockersAt userId thingId (fun n => view (n + 2)) =
      getBlockersAt userId thingId fun _ => s := fun _ => getBlockersAt_same fun n => h (n + 2)
  have hdates : ∀ thingId, getDatesAt userId thingId 100 (fun n => view (n + 4)) =
      getDatesAt userId thingId 100 fun _ => s := fun _ => getDatesAt_same fun n => h (n + 4)
  unfold buildThingPrefetchAt
  simp only [(h 0).getThing, htasks, hblockers, hdates]

theorem getThings_same {status : Option ThingStatus} {query : Option String} {cursor : Option UUID}
    {limit : ℤ} : getThings ilike userId status query cursor limit (view 0) =
      getThings ilike userId status query cursor limit s := by
  unfold getThings
  simp only [(h 0).listForUser]

theorem getAgentThingPrefetchAt_of_same {activeThingId : Option UUID} {query : String}
    {candidateLimit : ℤ} :
    getAgentThingPrefetchAt cal ilike userId activeThingId query candidateLimit view =
      getAgentThingPrefetchAt cal ilike userId activeThingId query candidateLimit fun _ => s := by
  have hprefetch : ∀ thingId matchReason, buildThingPrefetchAt cal userId thingId matchReason view =
      buildThingPrefetchAt cal userId thingId matchReason fun _ => s :=
    fun _ _ => buildThingPrefetchAt_of_same h
  have hcandidate : ∀ thingId matchReason,
      buildThingPrefetchAt cal userId thingId matchReason (fun n => view (n + 1)) =
        buildThingPrefetchAt cal userId thingId matchReason fun _ => s :=
    fun _ _ => buildThingPrefetchAt_of_same fun n => h (n + 1)
  unfold getAgentThingPrefetchAt
  simp only [getThings_same h, hprefetch, hcandidate]

theorem getCandidates_same {now : Timestamp} {dueSoonHours : ℤ} {limit : ℕ}
    {feedback : Table AttentionFeedback} :
    AttentionRepository.getCandidates userId now dueSoonHours limit feedback view =
      AttentionRepository.getCandidates userId now dueSoonHours limit feedback fun _ => s := by
  have hdue : AttentionRepository.dueThings userId now dueSoonHours (view 0).things =
      AttentionRepository.dueThings userId now dueSoonHours s.things :=
    (h 0).things.select_eq fun _ hr => (of_decide_eq_true hr).1
  have hopen : AttentionRepository.openBlockers userId (view 1).things (view 1).blockers =
      AttentionRepository.openBlockers userId s.things s.blockers := by
    show ((view 1).blockers.select fun b => b.status = .open ∧
      ofUser userId b.thingId (view 1).things = true) =
        s.blockers.select fun b => b.status = .open ∧ ofUser userId b.thingId s.things = true
    simp only [(h 1).ofUser]
    exact (h 1).blockers.select_eq fun _ hr => owns_of_ofUser (of_decide_eq_true hr).2
  unfold AttentionRepository.getCandidates
  rw [hdue, hopen]

/-- A read whose statements see states with the same rows of the user. -/
theorem Query.answer_same (q : Query) :
    q.answer cal ilike userId view = q.answer cal ilike userId fun _ => s := by
  have hstandalone : TaskRepository.listStandalone userId (view 0).tasks =
      TaskRepository.listStandalone userId s.tasks := by
    unfold TaskRepository.listStandalone
    rw [(h 0).tasks.select_eq fun _ hr => (of_decide_eq_true hr).1]
  unfold answer
  cases q with
  | thing thingId => simp only [(h 0).getThing]
  | things status query cursor limit => simp only [getThings_same h]
  | tasks thingId => simp only [(h 0).listForThing_tasks]
  | standaloneTasks => simp only [hstandalone]
  | dates thingId limit => simp only [getDatesAt_same h]
  | contextEntries thingId => simp only [getContextEntries_same h]
  | timeline thingId eventType limit => simp only [getTimeline_same h]
  | stateHistory thingId limit => simp only [getStateHistory_same h]
  | blockers thingId => simp only [getBlockersAt_same h]
  | relations thingId => simp only [getRelations_same h]
  | overview now limits => simp only [getStateOverview_same h]
  | snapshot thingId => simp only [getThingContextSnapshotAt_of_same h]
  | prefetch activeThingId query candidateLimit => simp only [getAgentThingPrefetchAt_of_same h]
  | candidates now dueSoonHours limit feedback => simp only [getCandidates_same h]

end Reads

end PersonalState
