import Laoshiren.PersonalState.Proofs.ThingWriteProofs

/-!
# Proofs: what a write on a row of a Thing does

One lemma for each write on a Task, a Blocker, a context entry, a link or a file, as for the writes on
Things; and one for each row that the user gets beside them.
-/

namespace PersonalState

open Raise Runtime

variable {py : Builtins} {cal : Calendar} {fresh : ℕ → Stamp} {stamp : Stamp} {view : ℕ → State}
  {s s' : State} {outcome : WriteOutcome}

/-! ## Tasks -/

namespace CreateTask

/-- The mutation of a new Task. -/
def mutated (cal : Calendar) (c : CreateTask) (thing : Option Thing) (fresh : ℕ → Stamp) :
    StateMutation :=
  c.mutation cal (c.task thing (fresh 0)) (fresh 1)

/-- A Task is created. -/
structure Creates (cal : Calendar) (c : CreateTask) (fresh : ℕ → Stamp) (view : ℕ → State)
    (s s' : State) (thing : Option Thing) : Prop where
  titled : Text.strip c.title ≠ ""
  recurs : c.recurrenceIntervalDays.all (fun n => 0 < n ∧ c.dueAt ≠ none) = true
  found : c.findThing (view 1).things = .ok thing
  stored : ∃ tasks, s.tasks.insert? (c.task thing (fresh 0)) = some tasks ∧
    Recorded (c.mutated cal thing fresh)
      (thing.map fun t => c.event t (c.task thing (fresh 0)) (c.mutated cal thing fresh) (fresh 2))
      { s with tasks } s'

theorem Creates.thing_eq {c : CreateTask} {thing : Option Thing}
    (h : c.Creates cal fresh view s s' thing) : thing.map Thing.id = c.thingId ∧
      ∀ t, thing = some t → ThingRepository.get c.userId t.id (view 1).things = some t := by
  have hthing := h.found
  unfold CreateTask.findThing at hthing
  split at hthing
  next hnone =>
    obtain rfl := Except.ok.inj hthing
    exact ⟨hnone.symm, fun t ht => by cases ht⟩
  next thingId hsome =>
    simp only [bind_eq_ok, orRaise_eq_ok, pure_eq_ok] at hthing
    obtain ⟨t, hfound, rfl⟩ := hthing
    obtain ⟨-, hid, -⟩ := ThingRepository.get_eq_some hfound
    refine ⟨by rw [hsome, ← hid]; rfl, ?_⟩
    intro t' ht
    obtain rfl := Option.some.inj ht
    rw [hid]
    exact hfound

end CreateTask

theorem applyCreateTask_ok {c : CreateTask}
    (h : applyCreateTask cal c fresh view s = .ok (s', outcome)) :
    (Op.createTask c fresh).Seen view ∧ s' = s ∨ ∃ thing, c.Creates cal fresh view s s' thing ∧
      outcome = CreateTask.outcome (c.task thing (fresh 0)) (c.mutated cal thing fresh).id false := by
  simp only [applyCreateTask, bind_eq_ok, ensure_eq_ok] at h
  obtain ⟨_, htitled, _, hrecurs, h⟩ := h
  split at h
  next _ previous hseen =>
    simp only [bind_eq_ok, pure_eq_ok, Prod.mk.injEq] at h
    obtain ⟨_, -, rfl, -⟩ := h
    exact .inl ⟨⟨_, _, rfl, by simp [hseen]⟩, rfl⟩
  next =>
    simp only [bind_eq_ok, orRaise_eq_ok, pure_eq_ok, Prod.mk.injEq] at h
    obtain ⟨thing, hthing, tasks, htasks, _, hrecord, rfl, rfl⟩ := h
    exact .inr ⟨thing, ⟨htitled, hrecurs, hthing, tasks, htasks, recorded_of_recordWith hrecord⟩,
      rfl⟩

/-- A Task that a statement read is written, at the version that was read. -/
structure WritesTask (view : ℕ → State) (s : State) (task task' : Task) : Prop where
  read : task ∈ (view 1).tasks
  id_eq : task'.id = task.id
  thingId_eq : task'.thingId = task.thingId
  title_eq : task'.title = task.title
  version : task' = task ∨ task'.version = task.version + 1
  updated : (TaskRepository.update task' task.version s.tasks).2 = true

/-- The state with `task'` in the place of `task`. -/
def State.setTask (s : State) (task task' : Task) : State :=
  { s with tasks := (TaskRepository.update task' task.version s.tasks).1 }

/-- What a status change can make of a Task. -/
structure Task.Advances (task task' : Task) : Prop where
  id_eq : task'.id = task.id
  thingId_eq : task'.thingId = task.thingId
  title_eq : task'.title = task.title
  version : task'.version = task.version + 1

theorem Task.complete_ok {task task' : Task} {now : Timestamp} (h : task.complete now = .ok task') :
    task.status = .done ∧ task' = task ∨ task.status = .todo ∧ task.Advances task' := by
  simp only [Task.complete, bind_eq_ok, ensure_eq_ok] at h
  obtain ⟨_, hcancelled, h⟩ := h
  split at h
  next hdone => exact .inl ⟨hdone, (Except.ok.inj h).symm⟩
  next hdone =>
    have htodo : task.status = .todo := by
      cases hstatus : task.status with
      | todo => rfl
      | done => exact absurd hstatus hdone
      | cancelled => exact absurd hstatus hcancelled
    refine .inr ⟨htodo, ?_⟩
    split at h
    · simp only [bind_eq_ok, pure_eq_ok] at h
      obtain ⟨_, -, rfl⟩ := h
      exact ⟨rfl, rfl, rfl, rfl⟩
    · obtain rfl := Except.ok.inj h
      exact ⟨rfl, rfl, rfl, rfl⟩

theorem Task.transitionTo_ok {task task' : Task} {target : TaskStatus} {now : Timestamp}
    (h : task.transitionTo target now = .ok task') :
    target = task.status ∧ task' = task ∨ target ≠ task.status ∧ task.Advances task' := by
  unfold Task.transitionTo at h
  split at h
  next hsame => exact .inl ⟨hsame, (Except.ok.inj h).symm⟩
  next hother =>
    refine .inr ⟨hother, ?_⟩
    split at h
    next =>
      split at h
      · simp only [Task.reopen, bind_eq_ok, pure_eq_ok] at h
        obtain ⟨_, -, rfl⟩ := h
        exact ⟨rfl, rfl, rfl, rfl⟩
      · cases h
    next hterminal =>
      cases target with
      | done =>
        rcases Task.complete_ok h with ⟨hdone, -⟩ | ⟨-, hadvances⟩
        · exact absurd (.inl hdone) hterminal
        · exact hadvances
      | cancelled =>
        obtain rfl := Except.ok.inj h
        exact ⟨rfl, rfl, rfl, rfl⟩
      | todo => cases h

theorem Task.Advances.writes {task task' : Task} (h : task.Advances task')
    (hread : task ∈ (view 1).tasks)
    (hupdated : (TaskRepository.update task' task.version s.tasks).2 = true) :
    WritesTask view s task task' :=
  ⟨hread, h.id_eq, h.thingId_eq, h.title_eq, .inr h.version, hupdated⟩

namespace TransitionTask

/-- The event of the change in the timeline. -/
def entered (c : TransitionTask) (task task' : Task) (fresh : ℕ → Stamp) : Option TimelineEvent :=
  task'.thingId.map (c.event task' (c.mutation task task' (fresh 1)) (fresh 2))

/-- The status of a Task changes. -/
structure Changes (c : TransitionTask) (fresh : ℕ → Stamp) (view : ℕ → State) (s s' : State)
    (task task' : Task) : Prop where
  found : TaskRepository.get c.userId c.taskId (view 1).tasks = some task
  expected : (task.version : ℤ) = c.expectedVersion
  changed : task.transitionTo c.targetStatus (fresh 0).now = .ok task'
  advances : task.Advances task'
  updated : (TaskRepository.update task' task.version s.tasks).2 = true
  recorded : Recorded (c.mutation task task' (fresh 1)) (c.entered task task' fresh)
    (s.setTask task task') s'

theorem Changes.writes {c : TransitionTask} {task task' : Task}
    (h : c.Changes fresh view s s' task task') : WritesTask view s task task' :=
  h.advances.writes (Table.get_eq_some h.found).1 h.updated

end TransitionTask

theorem applyTransitionTask_ok {c : TransitionTask}
    (h : applyTransitionTask c fresh view s = .ok (s', outcome)) :
    (Op.transitionTask c fresh).Seen view ∧ s' = s ∨ ∃ task task',
      c.Changes fresh view s s' task task' ∧
        outcome = TransitionTask.outcome task' (c.mutation task task' (fresh 1)) := by
  unfold applyTransitionTask at h
  split at h
  next _ previous hseen =>
    simp only [bind_eq_ok, pure_eq_ok, Prod.mk.injEq] at h
    obtain ⟨_, -, rfl, -⟩ := h
    exact .inl ⟨⟨_, _, rfl, by simp [hseen]⟩, rfl⟩
  next =>
    simp only [bind_eq_ok, orRaise_eq_ok, ensure_eq_ok, pure_eq_ok, Prod.mk.injEq] at h
    obtain ⟨task, hfound, _, hversion, task', hchanged, _, hnew, _, hupdated, _, hrecord, rfl,
      rfl⟩ := h
    rw [← hversion] at hupdated hrecord
    rcases Task.transitionTo_ok hchanged with ⟨-, rfl⟩ | ⟨-, hadvances⟩
    · exact absurd hversion hnew
    · exact .inr ⟨task, task', ⟨hfound, hversion, hchanged, hadvances, hupdated,
        recorded_of_recordWith hrecord⟩, rfl⟩

namespace CompleteTask

/-- The event in the timeline of a Task that is done. -/
def entered (cal : Calendar) (c : CompleteTask) (task task' : Task) (fresh : ℕ → Stamp) :
    Option TimelineEvent :=
  task'.thingId.map (c.event task' (c.mutation cal task task' (fresh 1)) (fresh 2))

/-- A Task is done. -/
structure Completes (cal : Calendar) (c : CompleteTask) (fresh : ℕ → Stamp) (view : ℕ → State)
    (s s' : State) (task task' : Task) : Prop where
  found : TaskRepository.get c.userId c.taskId (view 1).tasks = some task
  expected : (task.version : ℤ) = c.expectedVersion
  completed : task.complete (fresh 0).now = .ok task'
  updated : (TaskRepository.update task' task.version s.tasks).2 = true
  recorded : Recorded (c.mutation cal task task' (fresh 1)) (c.entered cal task task' fresh)
    (s.setTask task task') s'

theorem Completes.writes {c : CompleteTask} {task task' : Task}
    (h : c.Completes cal fresh view s s' task task') : WritesTask view s task task' := by
  have hread := (Table.get_eq_some h.found).1
  rcases Task.complete_ok h.completed with ⟨-, rfl⟩ | ⟨-, hadvances⟩
  · exact ⟨hread, rfl, rfl, rfl, .inl rfl, h.updated⟩
  · exact hadvances.writes hread h.updated

end CompleteTask

theorem applyCompleteTask_ok {c : CompleteTask}
    (h : applyCompleteTask cal c fresh view s = .ok (s', outcome)) :
    (Op.completeTask c fresh).Seen view ∧ s' = s ∨ ∃ task task',
      c.Completes cal fresh view s s' task task' ∧
        outcome = CompleteTask.outcome task' (c.mutation cal task task' (fresh 1)) := by
  unfold applyCompleteTask at h
  split at h
  next _ previous hseen =>
    simp only [bind_eq_ok, pure_eq_ok, Prod.mk.injEq] at h
    obtain ⟨_, -, rfl, -⟩ := h
    exact .inl ⟨⟨_, _, rfl, by simp [hseen]⟩, rfl⟩
  next =>
    simp only [bind_eq_ok, orRaise_eq_ok, ensure_eq_ok, pure_eq_ok, Prod.mk.injEq] at h
    obtain ⟨task, hfound, _, hversion, task', hcompleted, _, hupdated, _, hrecord, rfl, rfl⟩ := h
    rw [← hversion] at hupdated hrecord
    exact .inr ⟨task, task', ⟨hfound, hversion, hcompleted, hupdated,
      recorded_of_recordWith hrecord⟩, rfl⟩

/-! ## Blockers -/

namespace CreateBlocker

/-- The mutation of a new Blocker. -/
def mutated (c : CreateBlocker) (fresh : ℕ → Stamp) : StateMutation :=
  c.mutation (c.blocker (fresh 0)) (fresh 1)

/-- A Blocker is added to a Thing. -/
structure Creates (c : CreateBlocker) (fresh : ℕ → Stamp) (view : ℕ → State) (s s' : State) :
    Prop where
  described : Text.strip c.description ≠ ""
  found : (ThingRepository.get c.userId c.thingId (view 1).things).isSome = true
  stored : ∃ blockers, s.blockers.insert? (c.blocker (fresh 0)) = some blockers ∧
    Recorded (c.mutated fresh) (some (c.event (c.blocker (fresh 0)) (c.mutated fresh) (fresh 2)))
      { s with blockers } s'

end CreateBlocker

theorem applyCreateBlocker_ok {c : CreateBlocker}
    (h : applyCreateBlocker c fresh view s = .ok (s', outcome)) :
    (Op.createBlocker c fresh).Seen view ∧ s' = s ∨ c.Creates fresh view s s' ∧
      outcome = CreateBlocker.outcome (c.blocker (fresh 0)) (c.mutated fresh).id false := by
  simp only [applyCreateBlocker, bind_eq_ok, ensure_eq_ok] at h
  obtain ⟨_, hdescribed, h⟩ := h
  split at h
  next _ previous hseen =>
    simp only [bind_eq_ok, pure_eq_ok, Prod.mk.injEq] at h
    obtain ⟨_, -, rfl, -⟩ := h
    exact .inl ⟨⟨_, _, rfl, by simp [hseen]⟩, rfl⟩
  next =>
    simp only [bind_eq_ok, ensure_eq_ok, orRaise_eq_ok, pure_eq_ok, Prod.mk.injEq] at h
    obtain ⟨_, hfound, _, -, _, -, blockers, hblockers, _, hrecord, rfl, rfl⟩ := h
    exact .inr ⟨⟨hdescribed, hfound, blockers, hblockers, recorded_of_setRecords hrecord⟩, rfl⟩

/-- A Blocker once it is resolved. -/
def Blocker.resolved (blocker : Blocker) (now : Timestamp) : Blocker :=
  { blocker with
    status := .resolved
    resolvedAt := some now
    updatedAt := now
    version := blocker.version + 1 }

namespace ResolveBlocker

/-- The mutation of a resolved Blocker. -/
def mutated (c : ResolveBlocker) (blocker : Blocker) (fresh : ℕ → Stamp) : StateMutation :=
  c.mutation (blocker.resolved (fresh 0).now) (fresh 1)

/-- A Blocker is resolved. -/
structure Resolves (c : ResolveBlocker) (fresh : ℕ → Stamp) (view : ℕ → State) (s s' : State)
    (blocker : Blocker) : Prop where
  found : BlockerRepository.get c.userId c.blockerId (view 1).things (view 1).blockers =
    some blocker
  expected : (blocker.version : ℤ) = c.expectedVersion
  isOpen : blocker.status = .open
  updated : (BlockerRepository.update (blocker.resolved (fresh 0).now) blocker.version
    s.blockers).2 = true
  recorded : Recorded (c.mutated blocker fresh)
    (some (c.event (blocker.resolved (fresh 0).now) (c.mutated blocker fresh) (fresh 2)))
    { s with blockers := (BlockerRepository.update (blocker.resolved (fresh 0).now)
      blocker.version s.blockers).1 } s'

end ResolveBlocker

theorem applyResolveBlocker_ok {c : ResolveBlocker}
    (h : applyResolveBlocker c fresh view s = .ok (s', outcome)) :
    (Op.resolveBlocker c fresh).Seen view ∧ s' = s ∨ ∃ blocker,
      c.Resolves fresh view s s' blocker ∧
        outcome = ResolveBlocker.outcome (blocker.resolved (fresh 0).now) (c.mutated blocker fresh) := by
  unfold applyResolveBlocker at h
  split at h
  next _ previous hseen =>
    simp only [bind_eq_ok, pure_eq_ok, Prod.mk.injEq] at h
    obtain ⟨_, -, rfl, -⟩ := h
    exact .inl ⟨⟨_, _, rfl, by simp [hseen]⟩, rfl⟩
  next =>
    simp only [bind_eq_ok, orRaise_eq_ok, ensure_eq_ok, pure_eq_ok, Prod.mk.injEq] at h
    obtain ⟨blocker, hfound, _, hversion, _, hresolved, _, hupdated, _, hrecord, rfl, rfl⟩ := h
    simp only [Blocker.resolve, bind_eq_ok, ensure_eq_ok, pure_eq_ok] at hresolved
    obtain ⟨_, hopen, rfl⟩ := hresolved
    rw [← hversion] at hupdated hrecord
    exact .inr ⟨blocker, ⟨hfound, hversion, hopen, hupdated, recorded_of_setRecords hrecord⟩, rfl⟩

/-! ## Context entries -/

/-- A context entry once it is revised. -/
def ThingContextEntry.revised (entry : ThingContextEntry) (label content : String)
    (now : Timestamp) : ThingContextEntry :=
  { entry with
    label := Text.strip label
    content := Text.strip content
    updatedAt := now
    version := entry.version + 1 }

namespace SetThingContext

/-- The event of a context entry in the timeline. -/
def entered (c : SetThingContext) (existing : Option ThingContextEntry) (entry : ThingContextEntry)
    (fresh : ℕ → Stamp) : TimelineEvent :=
  c.event existing entry (c.mutation existing entry (fresh 1)) (fresh 2)

/-- A new context entry. -/
structure Adds (c : SetThingContext) (fresh : ℕ → Stamp) (s s' : State) : Prop where
  named : c.entryId = none ∧ c.expectedVersion = none
  stored : ∃ contextEntries, s.contextEntries.insert? (c.entry (fresh 0)) = some contextEntries ∧
    Recorded (c.mutation none (c.entry (fresh 0)) (fresh 1))
      (some (c.entered none (c.entry (fresh 0)) fresh)) { s with contextEntries } s'

/-- A context entry once the call revised it. -/
def revision (c : SetThingContext) (entry : ThingContextEntry) (now : Timestamp) :
    ThingContextEntry :=
  entry.revised (Text.strip c.label) (Text.strip c.content) now

theorem revision_id (c : SetThingContext) (entry : ThingContextEntry) (now : Timestamp) :
    (c.revision entry now).id = entry.id := by
  simp only [revision, ThingContextEntry.revised]

theorem revision_version (c : SetThingContext) (entry : ThingContextEntry) (now : Timestamp) :
    (c.revision entry now).version = entry.version + 1 := by
  simp only [revision, ThingContextEntry.revised]

/-- A context entry is rewritten where it was. -/
structure Revises (c : SetThingContext) (fresh : ℕ → Stamp) (view : ℕ → State) (s s' : State)
    (entry : ThingContextEntry) : Prop where
  named : c.entryId = some entry.id
  expected : c.expectedVersion = some (entry.version : ℤ)
  found : ContextEntryRepository.get c.userId entry.id (view 2).things (view 2).contextEntries =
    some entry
  thing_eq : entry.thingId = c.thingId
  updated : (ContextEntryRepository.update (c.revision entry (fresh 0).now) entry.version
    s.contextEntries).2 = true
  recorded : Recorded (c.mutation (some entry) (c.revision entry (fresh 0).now) (fresh 1))
    (some (c.entered (some entry) (c.revision entry (fresh 0).now) fresh))
    { s with contextEntries := (ContextEntryRepository.update (c.revision entry (fresh 0).now)
      entry.version s.contextEntries).1 } s'

/-- A context entry is set. -/
structure Sets (c : SetThingContext) (fresh : ℕ → Stamp) (view : ℕ → State) (s s' : State)
    (existing : Option ThingContextEntry) : Prop where
  valid : Text.strip c.label ≠ "" ∧ Text.strip c.content ≠ ""
  found : (ThingRepository.get c.userId c.thingId (view 1).things).isSome = true
  stored : existing = none ∧ c.Adds fresh s s' ∨
    ∃ entry, existing = some entry ∧ c.Revises fresh view s s' entry

/-- The context entry that is set. -/
def result (c : SetThingContext) (existing : Option ThingContextEntry) (stamp : Stamp) :
    ThingContextEntry :=
  existing.elim (c.entry stamp) fun entry => c.revision entry stamp.now

end SetThingContext

theorem ThingContextEntry.revise_ok {entry entry' : ThingContextEntry} {label content : String}
    {now : Timestamp} (h : entry.revise label content now = .ok entry') :
    entry.revised label content now = entry' := by
  simp only [ThingContextEntry.revise, bind_eq_ok, pure_eq_ok] at h
  obtain ⟨_, -, heq⟩ := h
  exact heq

theorem applySetThingContext_ok {c : SetThingContext}
    (h : applySetThingContext c fresh view s = .ok (s', outcome)) :
    (Op.setThingContext c fresh).Seen view ∧ s' = s ∨ ∃ existing,
      c.Sets fresh view s s' existing ∧ outcome = SetThingContext.outcome
        (c.result existing (fresh 0)) (c.mutation existing (c.result existing (fresh 0)) (fresh 1)) := by
  simp only [applySetThingContext, bind_eq_ok, ensure_eq_ok] at h
  obtain ⟨_, hvalid, h⟩ := h
  split at h
  next _ previous hseen =>
    simp only [bind_eq_ok, pure_eq_ok, Prod.mk.injEq] at h
    obtain ⟨_, -, rfl, -⟩ := h
    exact .inl ⟨⟨_, _, rfl, by simp [hseen]⟩, rfl⟩
  next =>
    simp only [bind_eq_ok, ensure_eq_ok, pure_eq_ok, Prod.mk.injEq, Prod.exists] at h
    obtain ⟨_, hfound, existing, entry, contextEntries, hstore, _, hrecord, rfl, rfl⟩ := h
    have hrecorded := recorded_of_setRecords hrecord
    unfold SetThingContext.store at hstore
    split at hstore
    next hnone =>
      simp only [bind_eq_ok, ensure_eq_ok, orRaise_eq_ok, pure_eq_ok, Prod.mk.injEq] at hstore
      obtain ⟨_, hunversioned, _, hentries, rfl, rfl, rfl⟩ := hstore
      exact .inr ⟨none, ⟨hvalid, hfound, .inl ⟨rfl, ⟨hnone, hunversioned⟩, _, hentries, hrecorded⟩⟩,
        rfl⟩
    next entryId hsome =>
      simp only [bind_eq_ok, ensure_eq_ok, orRaise_eq_ok, pure_eq_ok, Prod.mk.injEq] at hstore
      obtain ⟨version, hexpected, entry₀, hentry, _, hthing, _, hversion, entry', hrevise, _,
        hupdated, rfl, rfl, rfl⟩ := hstore
      obtain rfl := ThingContextEntry.revise_ok hrevise
      subst hversion
      have hid : entry₀.id = entryId := by
        have hp := (Table.get_eq_some hentry).2
        simp only [decide_eq_true_eq] at hp
        exact hp.1
      subst hid
      exact .inr ⟨some entry₀, ⟨hvalid, hfound, .inr ⟨entry₀, rfl, hsome, hexpected, hentry, hthing,
        hupdated, hrecorded⟩⟩, rfl⟩

/-! ## Links, relations and files -/

namespace LinkToThing

/-- The link is new. -/
def creates (c : LinkToThing) (fresh : ℕ → Stamp) (s : State) : Bool :=
  (s.thingSources.insert? (c.relation (fresh 0))).isSome

/-- A Source is linked to a Thing. -/
structure Links (c : LinkToThing) (fresh : ℕ → Stamp) (view : ℕ → State) (s s' : State) :
    Prop where
  valid : 0 ≤ c.relevance ∧ c.relevance ≤ 1
  found : (ThingRepository.get c.userId c.thingId (view 1).things).isSome = true
  foundSource : (SourceRepository.get c.userId c.sourceId (view 2).sources).isSome = true
  recorded : Recorded (c.mutation (c.creates fresh s) (fresh 1))
    (if c.creates fresh s then
      some (c.event (c.mutation (c.creates fresh s) (fresh 1)) (fresh 2)) else none)
    { s with thingSources := s.thingSources.insertOrIgnore (c.relation (fresh 0)) } s'

end LinkToThing

theorem linkToThing_ok {c : LinkToThing} {created : Bool}
    (h : linkToThing c fresh view s = .ok (s', created)) :
    (Op.linkToThing c fresh).Seen view ∧ s' = s ∨
      c.Links fresh view s s' ∧ created = c.creates fresh s := by
  simp only [linkToThing, bind_eq_ok, ensure_eq_ok] at h
  obtain ⟨_, hvalid, h⟩ := h
  split at h
  next _ previous hseen =>
    simp only [pure_eq_ok, Prod.mk.injEq] at h
    exact .inl ⟨⟨_, _, rfl, by simp [hseen]⟩, h.1.symm⟩
  next =>
    simp only [bind_eq_ok, ensure_eq_ok, pure_eq_ok, Prod.mk.injEq] at h
    obtain ⟨_, hfound, _, hsource, _, hrecord, rfl, rfl⟩ := h
    exact .inr ⟨⟨hvalid, hfound, hsource, recorded_of_recordWith hrecord⟩, rfl⟩

namespace AddRelation

/-- The relation is new. -/
def creates (c : AddRelation) (fresh : ℕ → Stamp) (s : State) : Bool :=
  (s.relations.insert? (c.relation (fresh 0))).isSome

/-- Two Things are related. -/
structure Relates (c : AddRelation) (fresh : ℕ → Stamp) (view : ℕ → State) (s s' : State) :
    Prop where
  distinct : c.fromThingId ≠ c.toThingId
  found : (ThingRepository.get c.userId c.fromThingId (view 1).things).isSome = true
  foundOther : (ThingRepository.get c.userId c.toThingId (view 2).things).isSome = true
  recorded : Recorded (c.mutation (c.creates fresh s) (fresh 1)) none
    { s with relations := s.relations.insertOrIgnore (c.relation (fresh 0)) } s'

end AddRelation

theorem addRelation_ok {c : AddRelation} {created : Bool}
    (h : addRelation c fresh view s = .ok (s', created)) :
    (Op.addRelation c fresh).Seen view ∧ s' = s ∨
      c.Relates fresh view s s' ∧ created = c.creates fresh s := by
  unfold addRelation at h
  split at h
  next _ previous hseen =>
    simp only [pure_eq_ok, Prod.mk.injEq] at h
    exact .inl ⟨⟨_, _, rfl, by simp [hseen]⟩, h.1.symm⟩
  next =>
    simp only [bind_eq_ok, ensure_eq_ok, pure_eq_ok, Prod.mk.injEq] at h
    obtain ⟨_, hfound, _, hother, _, hdistinct, _, hrecord, rfl, rfl⟩ := h
    exact .inr ⟨⟨hdistinct, hfound, hother, recorded_of_recordWith hrecord⟩, rfl⟩

/-- A file is deleted. -/
structure DeleteFile.Deletes (cal : Calendar) (c : DeleteFile) (fresh : ℕ → Stamp)
    (view : ℕ → State) (s s' : State) : Prop where
  found : (SourceRepository.get c.userId c.sourceId (view 1).sources).isSome = true
  foundAgain : (SourceRepository.get c.userId c.sourceId (view 2).sources).isSome = true
  recorded : Recorded (c.mutation cal (fresh 0).now (fresh 1)) none
    { s with sources := SourceRepository.markDeleted c.sourceId (fresh 0).now s.sources } s'

theorem applyDeleteFile_ok {c : DeleteFile}
    (h : applyDeleteFile cal c fresh view s = .ok (s', outcome)) :
    (Op.deleteFile c fresh).Seen view ∧ s' = s ∨ c.Deletes cal fresh view s s' ∧
      outcome = c.outcome (c.mutation cal (fresh 0).now (fresh 1)) := by
  unfold applyDeleteFile at h
  split at h
  next _ previous hseen =>
    simp only [bind_eq_ok, pure_eq_ok, Prod.mk.injEq] at h
    obtain ⟨_, -, rfl, -⟩ := h
    exact .inl ⟨⟨_, _, rfl, by simp [hseen]⟩, rfl⟩
  next =>
    simp only [bind_eq_ok, ensure_eq_ok, pure_eq_ok, Prod.mk.injEq] at h
    obtain ⟨_, hfound, _, hagain, _, hrecord, rfl, rfl⟩ := h
    exact .inr ⟨⟨hfound, hagain, recorded_of_recordWith hrecord⟩, rfl⟩

/-! ## Automations, Memories and Threads -/

theorem applyCreateAutomation_ok {c : CreateAutomation}
    (h : applyCreateAutomation c stamp view s = .ok (s', outcome)) :
    s' = s ∨ ∃ trigger automations,
      s.automations.insert? (c.automation trigger stamp) = some automations ∧
        s' = { s with automations } := by
  simp only [applyCreateAutomation, bind_eq_ok] at h
  obtain ⟨_, -, h⟩ := h
  split at h
  · simp only [pure_eq_ok, Prod.mk.injEq] at h
    exact .inl h.1.symm
  · simp only [bind_eq_ok, orRaise_eq_ok, pure_eq_ok, Prod.mk.injEq] at h
    obtain ⟨_, -, _, -, _, -, trigger, -, automations, hautomations, rfl, -⟩ := h
    exact .inr ⟨trigger, automations, hautomations, rfl⟩

/-- A Memory is new; the one that it supersedes stays with its Thing. -/
theorem applyCreateMemory_ok {c : CreateMemory}
    (h : applyCreateMemory c stamp view s = .ok (s', outcome)) :
    s' = s ∨ c.suppressed = false ∧ c.duplicatesState = false ∧ ∃ superseded before memories,
      c.supersede stamp.now view s.memories = .ok (superseded, before) ∧
        before.insert? (c.memory superseded stamp) = some memories ∧ s' = { s with memories } := by
  simp only [applyCreateMemory, bind_eq_ok] at h
  obtain ⟨_, -, _, -, _, -, _, -, h⟩ := h
  split at h
  · simp only [pure_eq_ok, Prod.mk.injEq] at h
    exact .inl h.1.symm
  rename_i hsuppressed
  split at h
  · simp only [pure_eq_ok, Prod.mk.injEq] at h
    exact .inl h.1.symm
  rename_i hduplicates
  split at h
  · simp only [pure_eq_ok, Prod.mk.injEq] at h
    exact .inl h.1.symm
  · simp only [bind_eq_ok, orRaise_eq_ok, pure_eq_ok, Prod.mk.injEq, Prod.exists] at h
    obtain ⟨_, -, _, -, superseded, before, hbefore, memories, hmemories, rfl, -⟩ := h
    exact .inr ⟨by simpa using hsuppressed, by simpa using hduplicates, superseded, before, memories,
      hbefore, hmemories, rfl⟩

/-- The Memories that were there keep their idempotency keys. -/
theorem supersede_kept {c : CreateMemory} {now : Timestamp} {memories before : Table Memory}
    {superseded : Option Memory} (h : c.supersede now view memories = .ok (superseded, before))
    {r : Memory} (hr : r ∈ memories) :
    ∃ r' ∈ before, r'.userId = r.userId ∧ r'.idempotencyKey = r.idempotencyKey := by
  unfold CreateMemory.supersede at h
  split at h
  · simp only [pure_eq_ok, Prod.mk.injEq] at h
    rw [← h.2]
    exact ⟨r, hr, rfl, rfl⟩
  · simp only [bind_eq_ok, orRaise_eq_ok, ensure_eq_ok, pure_eq_ok, Prod.mk.injEq] at h
    obtain ⟨_, hupdate, _, -, -, rfl⟩ := h
    refine ⟨_, (Table.mem_update? hupdate).mpr ⟨r, hr, rfl⟩, ?_⟩
    unfold Table.updateRow
    split <;> exact ⟨rfl, rfl⟩

theorem applyCreateThread_ok {userId : UUID} {title key : String} {activeThingId : Option UUID}
    {thread : Thread}
    (h : applyCreateThread userId title key activeThingId stamp view s = .ok (s', thread)) :
    s' = s ∨ ∃ thread threads, thread.userId = userId ∧ thread.idempotencyKey = key ∧
      thread.activeThingId = activeThingId ∧ s.threads.insert? thread = some threads ∧
      s' = { s with threads } := by
  simp only [applyCreateThread, createThread, bind_eq_ok, pure_eq_ok, Prod.mk.injEq,
    Prod.exists] at h
  obtain ⟨_, _, ⟨_, -, h⟩, rfl, -⟩ := h
  split at h
  · simp only [pure_eq_ok, Prod.mk.injEq] at h
    obtain ⟨rfl, -⟩ := h
    exact .inl rfl
  · simp only [bind_eq_ok, orRaise_eq_ok, pure_eq_ok, Prod.mk.injEq] at h
    obtain ⟨_, -, threads, hthreads, rfl, -⟩ := h
    exact .inr ⟨_, threads, rfl, rfl, rfl, hthreads, rfl⟩

theorem applyAutomationThread_ok {c : CreateAutomationRun} {threadId : UUID}
    (h : applyAutomationThread c stamp view s = .ok (s', threadId)) :
    s' = s ∨ ∃ thread threads, thread.userId = c.userId ∧
      thread.idempotencyKey = "automation-inbox:" ++ c.userId.str ∧
      thread.activeThingId = c.thingId ∧ s.threads.insert? thread = some threads ∧
      s' = { s with threads } := by
  simp only [applyAutomationThread, automationThread, bind_eq_ok, pure_eq_ok, Prod.mk.injEq,
    Prod.exists] at h
  obtain ⟨_, _, h, rfl, -⟩ := h
  split at h
  · simp only [pure_eq_ok, Prod.mk.injEq] at h
    obtain ⟨rfl, -⟩ := h
    exact .inl rfl
  · simp only [bind_eq_ok, orRaise_eq_ok, pure_eq_ok, Prod.mk.injEq] at h
    obtain ⟨threads, hthreads, rfl, -⟩ := h
    exact .inr ⟨_, threads, rfl, rfl, rfl, hthreads, rfl⟩

end PersonalState
