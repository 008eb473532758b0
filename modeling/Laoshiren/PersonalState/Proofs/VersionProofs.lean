import Laoshiren.PersonalState.Proofs.DeadlineProofs
import Laoshiren.PersonalState.Versions

/-!
# Proofs: the versions of the Personal State

Every write on a versioned row was computed from the version that it replaces, and a transaction that
loses the race for a row raises `VersionConflict`.
-/

namespace PersonalState

open Raise Runtime

variable {py : Builtins} {cal : Calendar} {fresh : ℕ → Stamp} {view : ℕ → State} {s s' : State}
  {reply : Reply} {thing thing' : Thing} {op : Op}

/-! ## One row for a key -/

theorem things_keyed : thingVersions.Keyed := fun _ _ h => h

theorem tasks_keyed : taskVersions.Keyed := fun _ _ h => h

theorem dates_keyed : dateVersions.Keyed := fun _ _ h => .inl h

theorem entries_keyed : entryVersions.Keyed := fun _ _ h => h

theorem blockers_keyed : blockerVersions.Keyed := fun _ _ h => h

/-- A transaction that writes no versioned row. -/
theorem Op.ExtendsChains.refl (op : Op) (view : ℕ → State) (s : State) :
    op.ExtendsChains view s s where
  things := .refl things_keyed _
  tasks := .refl tasks_keyed _
  dates := .refl dates_keyed _
  contextEntries := .refl entries_keyed _
  blockers := .refl blockers_keyed _

theorem Recorded.chains {m : StateMutation} {event : Option TimelineEvent}
    (h : Recorded m event s s') {s₀ : State} (hchains : op.ExtendsChains view s₀ s) :
    op.ExtendsChains view s₀ s' := by
  rw [h.same]
  exact ⟨hchains.things, hchains.tasks, hchains.dates, hchains.contextEntries, hchains.blockers⟩

/-! ## Writes on one row -/

/-- A Thing that is written replaces the row that was read. -/
theorem Writes.chain (hwrites : Writes view s thing thing') (hlater : ∀ n, ThingsLater (view n) s)
    (hexpected : op.expectedThing thing) :
    thingVersions.Chain (op.ReadsThing view) s.things (s.setThing thing thing').things := by
  have hmem := hwrites.mem hlater
  refine .of_rows rfl things_keyed (fun _ => rfl) fun r hr hp => ?_
  simp only [ThingRepository.updateWhere, decide_eq_true_eq] at hp
  obtain rfl := Table.eq_of_conflict hr hmem (hp.1.trans hwrites.id_eq)
  have hvalues : ThingRepository.updateValues thing' r = thing' := by
    unfold ThingRepository.updateValues
    rw [← hwrites.id_eq, ← hwrites.userId_eq, ← hwrites.createdAt_eq]
  rw [hvalues]
  rcases hwrites.version with rfl | hnext
  · exact .inl (.refl _)
  · exact .inr ⟨hnext, hexpected, hwrites.read⟩

/-- The Tasks of every state are there in every later one. -/
def TasksLater (s s' : State) : Prop :=
  Table.Evolves taskVersions.key taskVersions.Later s.tasks s'.tasks

/-- A Task that is written replaces the version that was read. -/
theorem WritesTask.chain {task task' : Task} (hwrites : WritesTask view s task task')
    (hlater : ∀ n, TasksLater (view n) s)
    (hreads : ∀ r : Task, r.id = task.id → taskVersions.Same task r → op.ReadsTask view r) :
    taskVersions.Chain (op.ReadsTask view) s.tasks (s.setTask task task').tasks := by
  refine .of_rows rfl tasks_keyed (fun _ => rfl) fun r hr hp => ?_
  simp only [TaskRepository.updateWhere, decide_eq_true_eq, Nat.cast_inj] at hp
  have hsame : taskVersions.Same task r := Versioned.same_of_evolves tasks_keyed (hlater 1)
    hwrites.read hr (hp.1.trans hwrites.id_eq) hp.2
  rcases hwrites.version with rfl | hnext
  · refine .inl ⟨hsame.1.symm, ?_⟩
    have hcontent : ({ r with thingId := none } : Task) = { task' with thingId := none } := hsame.2
    simp only [Task.mk.injEq] at hcontent
    obtain ⟨-, -, -, -, hstatus, hversion, hcompleted, hdue, hinterval, -, hupdated⟩ := hcontent
    simp only [taskVersions, TaskRepository.updateValues, hstatus, hversion, hcompleted, hdue,
      hinterval, hupdated]
  · refine .inr ⟨?_, hreads r (hp.1.trans hwrites.id_eq) hsame⟩
    show task'.version = r.version + 1
    rw [hnext, hp.2]

theorem Op.ReadsDate.congr {r r' : ThingDate} (hid : r'.id = r.id) (hversion : r'.version = r.version)
    (h : op.ReadsDate view r') : op.ReadsDate view r := by
  obtain ⟨hexpected, n, row, hrow, hrowId, hrowVersion⟩ := h
  refine ⟨?_, n, row, hrow, hrowId.trans hid, hrowVersion.trans hversion⟩
  cases op with
  | updateDate c fresh => exact ⟨hexpected.1.trans hid, hexpected.2.trans (by rw [hversion])⟩
  | _ => exact hexpected

theorem unset_rows (thingId : UUID) (kind : ThingDateType) (t : Table ThingDate) :
    (ThingDateRepository.unsetPrimary thingId kind t).rows = t.rows.map
      (Table.updateRow (ThingDateRepository.unsetWhere thingId kind)
        ThingDateRepository.unsetValues) := rfl

/-- A new date is written, perhaps in the place of a primary one. -/
theorem SetDeadline.Adds.chain {c : SetDeadline} {value : Timestamp}
    (h : c.Adds cal fresh view s s' thing value) :
    dateVersions.Chain (Op.ReadsDate (.setDeadline c fresh) view) s.dates s'.dates := by
  cases hprimary : c.isPrimary with
  | false =>
    obtain ⟨dates, hdates, hrecorded⟩ := h.plain hprimary
    rw [hrecorded.dates]
    exact .insert? dates_keyed rfl hdates
  | true =>
    obtain ⟨dates, -, hdates, hrecorded⟩ := h.primary hprimary
    rw [hrecorded.dates]
    have hinsert : dateVersions.Chain (Op.ReadsDate (.setDeadline c fresh) view)
      (ThingDateRepository.unsetPrimary thing.id c.kind s.dates) dates :=
      .insert? dates_keyed rfl hdates
    exact .after_same (unset_rows _ _ _) (fun _ => rfl) (fun _ => ⟨rfl, rfl⟩)
      (fun _ _ hid hsame hreads => hreads.congr hid hsame.1) hinsert

theorem UpdateDate.Corrects.dates_eq {c : UpdateDate} {date : ThingDate} {value : Timestamp}
    (h : c.Corrects cal fresh view s s' thing date value) :
    ThingDateRepository.update (c.corrected date value (fresh 0).now) c.expectedVersion
      (c.datesBefore thing date s.dates) = some (s'.dates, true) := by
  obtain ⟨dates, hdates, ⟨-, -, hrecorded⟩ | ⟨-, -, hrecorded⟩⟩ := h.stored
  · rw [hrecorded.dates]
    exact hdates
  · rw [hrecorded.dates]
    exact hdates

/-- A date that is corrected replaces the version that was read. -/
theorem UpdateDate.Corrects.chain {c : UpdateDate} {date : ThingDate} {value : Timestamp}
    (h : c.Corrects cal fresh view s s' thing date value) :
    dateVersions.Chain (Op.ReadsDate (.updateDate c fresh) view) s.dates s'.dates := by
  obtain ⟨hdate, hdateId⟩ := Table.get_eq_some h.foundDate
  simp only [decide_eq_true_eq] at hdateId
  have hupdate := h.dates_eq
  simp only [ThingDateRepository.update, Option.map_eq_some_iff, Prod.mk.injEq] at hupdate
  obtain ⟨_, hupdate, rfl, -⟩ := hupdate
  have hcorrected : dateVersions.Chain (Op.ReadsDate (.updateDate c fresh) view)
      (c.datesBefore thing date s.dates) s'.dates := by
    refine .of_rows (Table.rows_update? hupdate) dates_keyed (fun _ => rfl)
      fun r _ hp => .inr ⟨?_, ?_⟩
    · simp only [ThingDateRepository.updateWhere, decide_eq_true_eq] at hp
      have hversion := h.version
      show date.version + 1 = r.version + 1
      omega
    · simp only [ThingDateRepository.updateWhere, decide_eq_true_eq] at hp
      have hid : r.id = date.id := hp.1
      have hversion := h.version
      exact ⟨⟨hdateId.1.symm.trans hid.symm, hp.2.symm⟩, 1, date, hdate, hid.symm, by omega⟩
  unfold UpdateDate.datesBefore at hcorrected
  split at hcorrected
  · exact .after_same (unset_rows _ _ _) (fun _ => rfl) (fun _ => ⟨rfl, rfl⟩)
      (fun _ _ hid hsame hreads => hreads.congr hid hsame.1) hcorrected
  · exact hcorrected

/-- A Blocker that is resolved replaces the version that was read. -/
theorem ResolveBlocker.Resolves.chain {c : ResolveBlocker} {blocker : Blocker}
    (h : c.Resolves fresh view s s' blocker) :
    blockerVersions.Chain (Op.ReadsBlocker (.resolveBlocker c fresh) view) s.blockers
      (BlockerRepository.update (blocker.resolved (fresh 0).now) blocker.version s.blockers).1 := by
  obtain ⟨hread, hid⟩ := Table.get_eq_some h.found
  simp only [decide_eq_true_eq] at hid
  dsimp only [BlockerRepository.update]
  refine .of_rows rfl blockers_keyed (fun _ => rfl) fun r _ hp => .inr ?_
  simp only [BlockerRepository.updateWhere, decide_eq_true_eq, Nat.cast_inj] at hp
  obtain ⟨hrid, hversion⟩ := hp
  have hrid : r.id = blocker.id := hrid
  refine ⟨congrArg (· + 1) hversion.symm, ⟨hid.1.symm.trans hrid.symm, ?_⟩, 1, blocker, hread,
    hrid.symm, hversion.symm⟩
  rw [hversion, h.expected]

/-- A context entry that is revised replaces the version that was read. -/
theorem SetThingContext.Revises.chain {c : SetThingContext} {entry : ThingContextEntry}
    (h : c.Revises fresh view s s' entry) :
    entryVersions.Chain (Op.ReadsEntry (.setThingContext c fresh) view) s.contextEntries
      (ContextEntryRepository.update (c.revision entry (fresh 0).now) entry.version
        s.contextEntries).1 := by
  have hread := (Table.get_eq_some h.found).1
  have hid := c.revision_id entry (fresh 0).now
  have hnext := c.revision_version entry (fresh 0).now
  generalize c.revision entry (fresh 0).now = entry' at hid hnext
  dsimp only [ContextEntryRepository.update]
  refine .of_rows rfl entries_keyed (fun _ => rfl) fun r _ hp => .inr ?_
  simp only [ContextEntryRepository.updateWhere, decide_eq_true_eq, Nat.cast_inj] at hp
  obtain ⟨hrid, hversion⟩ := hp
  have hrid : r.id = entry.id := hrid.trans hid
  refine ⟨?_, ⟨?_, ?_⟩, 2, entry, hread, hrid.symm, hversion.symm⟩
  · show entry'.version = r.version + 1
    rw [hnext, hversion]
  · rw [hrid, h.named]
  · rw [hversion, h.expected]

/-! ## What a transaction does to the chains -/

/-- A merge moves rows to the canonical Thing and leaves their versions. -/
theorem rebind_chains {duplicateThingId canonicalThingId : UUID} {view' : ℕ → State}
    (h : rebindMergedReferences duplicateThingId canonicalThingId view' s = .ok s') {s₀ : State}
    (htasks : s.tasks = s₀.tasks) (hdates : s.dates = s₀.dates)
    (hentries : s.contextEntries = s₀.contextEntries) (hblockers : s.blockers = s₀.blockers)
    (hthings : thingVersions.Chain (op.ReadsThing view) s₀.things s.things) :
    op.ExtendsChains view s₀ s' := by
  simp only [rebindMergedReferences, bind_eq_ok, orRaise_eq_ok, pure_eq_ok] at h
  obtain ⟨dates, hmoved, rfl⟩ := h
  rw [hdates] at hmoved
  refine ⟨hthings, ?_, ?_, ?_, ?_⟩
  · rw [htasks]
    exact .of_same rfl tasks_keyed (fun _ => rfl) fun _ => ⟨rfl, rfl⟩
  · exact .of_same (Table.rows_update? hmoved) dates_keyed (fun _ => rfl) fun _ => ⟨rfl, rfl⟩
  · rw [hentries]
    exact .of_same rfl entries_keyed (fun _ => rfl) fun _ => ⟨rfl, rfl⟩
  · rw [hblockers]
    exact .of_same rfl blockers_keyed (fun _ => rfl) fun _ => ⟨rfl, rfl⟩

theorem Op.Commits.chains (h : op.Commits cal view s s' reply)
    (hthings : ∀ n, ThingsLater (view n) s) (htasks : ∀ n, TasksLater (view n) s) :
    op.ExtendsChains view s s' := by
  have hrefl := Op.ExtendsChains.refl op view s
  cases op with
  | createThing c fresh =>
    obtain ⟨⟨-, things, hinsert, hrecorded⟩, -⟩ := h
    exact hrecorded.chains { hrefl with things := .insert? things_keyed rfl hinsert }
  | updateThing c fresh =>
    obtain ⟨thing, thing', hrevises, -⟩ := h
    obtain ⟨-, hid, -⟩ := ThingRepository.get_eq_some hrevises.found
    have hexpected : c.thingId = thing.id ∧ c.expectedVersion = thing.version :=
      ⟨hid.symm, hrevises.expected.symm⟩
    exact hrevises.recorded.chains
      { hrefl with things := hrevises.writes.chain hthings hexpected }
  | changeArchive c fresh =>
    obtain ⟨thing, hchanges, -⟩ := h
    obtain ⟨-, hid, -⟩ := ThingRepository.get_eq_some hchanges.found
    have hexpected : c.thingId = thing.id ∧ c.expectedVersion = thing.version :=
      ⟨hid.symm, hchanges.expected.symm⟩
    exact hchanges.recorded.chains
      { hrefl with things := hchanges.writes.chain hthings hexpected }
  | deleteThing c fresh =>
    obtain ⟨thing, hdeletes, -⟩ := h
    have hid := (Table.get_eq_some hdeletes.found).2
    simp only [decide_eq_true_eq] at hid
    have hexpected : c.thingId = thing.id ∧ c.expectedVersion = thing.version :=
      ⟨hid.1.symm, hdeletes.expected.symm⟩
    exact hdeletes.recorded.chains {
      things := hdeletes.writes.chain hthings hexpected
      tasks := .of_same rfl tasks_keyed (fun _ => rfl) fun _ => ⟨rfl, rfl⟩
      dates := .delete dates_keyed _
      contextEntries := .delete entries_keyed _
      blockers := .delete blockers_keyed _ }
  | mergeThings c fresh =>
    obtain ⟨canonical, duplicate, hmerges, -⟩ := h
    obtain ⟨-, hid, -⟩ := ThingRepository.get_eq_some hmerges.duplicateFound
    obtain ⟨s₁, hrebound, hrecorded⟩ := hmerges.rebound
    have hexpected :
        c.duplicateThingId = duplicate.id ∧ c.expectedDuplicateVersion = duplicate.version :=
      ⟨hid.symm, hmerges.duplicateVersion.symm⟩
    refine hrecorded.chains (rebind_chains hrebound rfl rfl rfl rfl ?_)
    rw [← hmerges.duplicateVersion]
    exact hmerges.writes.chain hthings hexpected
  | setDeadline c fresh =>
    obtain ⟨thing, value, hadds, -⟩ := h
    obtain ⟨-, hid, -⟩ := ThingRepository.get_eq_some hadds.found
    have hdates := hadds.chain
    cases hprimary : c.isPrimary with
    | false =>
      obtain ⟨dates, -, hrecorded⟩ := hadds.plain hprimary
      rw [hrecorded.dates] at hdates
      exact hrecorded.chains { hrefl with dates := hdates }
    | true =>
      obtain ⟨dates, hwrites, -, hrecorded⟩ := hadds.primary hprimary
      have hexpected : c.thingId = thing.id ∧ c.expectedVersion = thing.version :=
        ⟨hid.symm, hadds.expected.symm⟩
      rw [hrecorded.dates] at hdates
      exact hrecorded.chains
        { hrefl with things := hwrites.chain hthings hexpected, dates := hdates }
  | updateDate c fresh =>
    obtain ⟨thing, date, value, hcorrects, -⟩ := h
    have hdates := hcorrects.chain
    obtain ⟨dates, -, ⟨-, -, hrecorded⟩ | ⟨-, hwrites, hrecorded⟩⟩ := hcorrects.stored
    · rw [hrecorded.dates] at hdates
      exact hrecorded.chains { hrefl with dates := hdates }
    · rw [hrecorded.dates] at hdates
      exact hrecorded.chains
        { hrefl with
          things := hwrites.chain hthings hcorrects.thingVersion.symm
          dates := hdates }
  | createTask c fresh =>
    obtain ⟨_, ⟨-, -, -, _, hinsert, hrecorded⟩, -⟩ := h
    exact hrecorded.chains { hrefl with tasks := .insert? tasks_keyed rfl hinsert }
  | transitionTask c fresh =>
    obtain ⟨task, task', hchanges, -⟩ := h
    obtain ⟨hread, hid⟩ := Table.get_eq_some hchanges.found
    simp only [decide_eq_true_eq] at hid
    refine hchanges.recorded.chains
      { hrefl with tasks := hchanges.writes.chain htasks fun r hrid hsame => ?_ }
    have hversion : r.version = task.version := hsame.1
    refine ⟨⟨hid.1.symm.trans hrid.symm, ?_⟩, 1, task, hread, hrid.symm, hsame⟩
    rw [hversion, hchanges.expected]
  | completeTask c fresh =>
    obtain ⟨task, task', hcompletes, -⟩ := h
    obtain ⟨hread, hid⟩ := Table.get_eq_some hcompletes.found
    simp only [decide_eq_true_eq] at hid
    refine hcompletes.recorded.chains
      { hrefl with tasks := hcompletes.writes.chain htasks fun r hrid hsame => ?_ }
    have hversion : r.version = task.version := hsame.1
    refine ⟨⟨hid.1.symm.trans hrid.symm, ?_⟩, 1, task, hread, hrid.symm, hsame⟩
    rw [hversion, hcompletes.expected]
  | createBlocker c fresh =>
    obtain ⟨⟨-, -, _, hinsert, hrecorded⟩, -⟩ := h
    exact hrecorded.chains { hrefl with blockers := .insert? blockers_keyed rfl hinsert }
  | resolveBlocker c fresh =>
    obtain ⟨blocker, hresolves, -⟩ := h
    exact hresolves.recorded.chains { hrefl with blockers := hresolves.chain }
  | setThingContext c fresh =>
    obtain ⟨_, ⟨-, -, ⟨-, hadds⟩ | ⟨entry, -, hrevises⟩⟩, -⟩ := h
    · obtain ⟨_, hinsert, hrecorded⟩ := hadds.stored
      exact hrecorded.chains { hrefl with contextEntries := .insert? entries_keyed rfl hinsert }
    · exact hrevises.recorded.chains { hrefl with contextEntries := hrevises.chain }
  | linkToThing c fresh => exact h.1.recorded.chains { hrefl with }
  | addRelation c fresh => exact h.1.recorded.chains { hrefl with }
  | deleteFile c fresh => exact h.1.recorded.chains { hrefl with }
  | createAutomation c stamp =>
    obtain ⟨_, _, -, rfl⟩ := h
    exact { hrefl with }
  | createMemory c stamp =>
    obtain ⟨-, -, _, _, _, -, -, rfl⟩ := h
    exact { hrefl with }
  | createThread userId title key activeThingId stamp =>
    obtain ⟨_, _, -, -, -, -, rfl⟩ := h
    exact { hrefl with }
  | automationThread c stamp =>
    obtain ⟨_, _, -, -, -, -, rfl⟩ := h
    exact { hrefl with }
  | addSource source =>
    obtain ⟨_, -, rfl⟩ := h
    exact { hrefl with }
  | upkeep w =>
    have heq : s' = w.apply s := h
    rw [heq]
    exact { hrefl with }

/-! ## Later versions -/

theorem commit_chains (py : Builtins) (cal : Calendar) (op : Op)
    (hthings : ∀ n, ThingsLater (view n) s) (htasks : ∀ n, TasksLater (view n) s) :
    op.ExtendsChains view s (commit py cal op view s).1 := by
  rcases commit_cases py cal op view s with hsame | hcommits
  · rw [hsame]
    exact .refl op view s
  · exact hcommits.chains hthings htasks

/-- The Things and the Tasks of every state are there in every later one. -/
theorem versions_stable (py : Builtins) (cal : Calendar) :
    Program.Stable (system py cal) (fun _ _ _ => True) (fun _ => True)
      (fun s s' => ThingsLater s s' ∧ TasksLater s s') where
  init _ _ := trivial
  refl s := ⟨Table.Evolves.refl ThingLater.refl s.things, Table.Evolves.refl Versioned.Later.refl _⟩
  trans _ _ _ h h' :=
    ⟨Table.Evolves.trans ThingLater.trans h.1 h'.1,
      Table.Evolves.trans (fun _ _ _ => Versioned.Later.trans) h.2 h'.2⟩
  step op view s _ hviews _ := by
    have hthings : ∀ n, ThingsLater (view n) s := fun n => (hviews n).2.1
    have hchains := commit_chains py cal op hthings fun n => (hviews n).2.2
    refine ⟨trivial, (commit_thingEffect py cal op view s).later hthings,
      hchains.tasks.evolves fun r hr => ?_⟩
    rcases commit_cases py cal op view s with hsame | hcommits
    · refine ⟨r, ?_, rfl⟩
      rw [hsame]
      exact hr
    · obtain ⟨r', hr', hid, -⟩ := hcommits.kept.tasks r hr
      exact ⟨r', hr', hid⟩

/-! ## Losing a race -/

/-- The call raises `VersionConflict`. -/
def Conflicts {α : Type} (result : Raises α) : Prop :=
  ∃ message, result = .error (.versionConflict message)

theorem Conflicts.settled {α : Type} {result : Raises (State × α)} (h : Conflicts result) (s : State)
    (answer : α → Reply) :
    ∃ message, settled s answer result = (s, .raised (.versionConflict message)) := by
  obtain ⟨message, rfl⟩ := h
  exact ⟨message, rfl⟩

theorem Conflicts.onRecords {α : Type} {result : Raises (Records × α)} (h : Conflicts result)
    (s : State) : Conflicts (s.onRecords result) := by
  obtain ⟨message, rfl⟩ := h
  exact ⟨message, rfl⟩

/-- A version check that fails. -/
theorem conflicts_of_check {α : Type} {message : String} {c : Prop} [Decidable c] (h : ¬c)
    (f : Unit → Raises α) : Conflicts (ensure (.versionConflict message) c >>= f) :=
  ⟨message, ensure_raises h f⟩

theorem rowcount_ne_one {α : Type} [Row α] {t : Table α} {p : α → Bool} (h : ∀ r ∈ t, p r = false) :
    ¬(t.rowcount p == 1) = true := by
  rw [Table.rowcount_eq_zero.mpr h]
  decide

theorem State.LostThing.not_updated (h : s.LostThing thing) (hid : thing'.id = thing.id)
    {version : ℤ} (hversion : (thing.version : ℤ) = version) :
    ¬(ThingRepository.update thing' version s.things).2 = true := by
  refine rowcount_ne_one fun r hr => ?_
  have hlost := h r hr
  rw [← hid, ← Nat.cast_inj (R := ℤ), hversion] at hlost
  simpa only [ThingRepository.updateWhere, decide_eq_false_iff_not] using hlost

theorem State.LostTask.not_updated {task task' : Task} (h : s.LostTask task)
    (hid : task'.id = task.id) {version : ℤ} (hversion : (task.version : ℤ) = version) :
    ¬(TaskRepository.update task' version s.tasks).2 = true := by
  refine rowcount_ne_one fun r hr => ?_
  have hlost := h r hr
  rw [← hid, ← Nat.cast_inj (R := ℤ), hversion] at hlost
  simpa only [TaskRepository.updateWhere, decide_eq_false_iff_not] using hlost

theorem State.LostBlocker.not_updated {blocker blocker' : Blocker} (h : s.LostBlocker blocker)
    (hid : blocker'.id = blocker.id) {version : ℤ} (hversion : (blocker.version : ℤ) = version) :
    ¬(BlockerRepository.update blocker' version s.blockers).2 = true := by
  refine rowcount_ne_one fun r hr => ?_
  have hlost := h r hr
  rw [← hid, ← Nat.cast_inj (R := ℤ), hversion] at hlost
  simpa only [BlockerRepository.updateWhere, decide_eq_false_iff_not] using hlost

theorem State.LostEntry.not_updated {entry entry' : ThingContextEntry} (h : s.LostEntry entry)
    (hid : entry'.id = entry.id) {version : ℤ} (hversion : (entry.version : ℤ) = version) :
    ¬(ContextEntryRepository.update entry' version s.contextEntries).2 = true := by
  refine rowcount_ne_one fun r hr => ?_
  have hlost := h r hr
  rw [← hid, ← Nat.cast_inj (R := ℤ), hversion] at hlost
  simpa only [ContextEntryRepository.updateWhere, decide_eq_false_iff_not] using hlost

theorem updateThing_conflicts {c : UpdateThing} (h : (Op.updateThing c fresh).Loses view s) :
    Conflicts (updateThingAt c fresh (fun n => (view n).toRecords) s.toRecords) := by
  obtain ⟨hunseen, hedits, thing, hfound, hrace⟩ := h
  unfold updateThingAt
  rw [bind_of_ensure hedits, hunseen _ _ rfl]
  dsimp only
  rw [bind_of_orRaise hfound]
  rcases hrace with hstale | ⟨hlost, thing', hrevised⟩
  · exact conflicts_of_check hstale _
  by_cases hversion : (thing.version : ℤ) = c.expectedVersion
  · rw [bind_of_ensure hversion, bind_of_ok hrevised]
    refine conflicts_of_check (hlost.not_updated ?_ hversion) _
    obtain ⟨_, _, rfl⟩ := revise_ok hrevised
    rfl
  · exact conflicts_of_check hversion _

theorem changeArchive_conflicts {c : ChangeArchive}
    (h : (Op.changeArchive c fresh).Loses view s) :
    Conflicts (applyChangeArchive cal c fresh view s) := by
  obtain ⟨hunseen, thing, hfound, hrace⟩ := h
  unfold applyChangeArchive
  rw [hunseen _ _ rfl]
  dsimp only
  rw [bind_of_orRaise hfound]
  by_cases hversion : (thing.version : ℤ) = c.expectedVersion
  · rw [bind_of_ensure hversion]
    refine conflicts_of_check ((hrace.resolve_left fun h => h hversion).not_updated ?_ hversion) _
    rcases c.changed_cases thing (fresh 0).now with ⟨-, heq⟩ | ⟨-, heq⟩ <;>
      exact (congrArg Thing.id heq).trans rfl
  · exact conflicts_of_check hversion _

theorem deleteThing_conflicts {c : DeleteThing} (h : (Op.deleteThing c fresh).Loses view s) :
    Conflicts (applyDeleteThing cal c fresh view s) := by
  obtain ⟨hunseen, thing, hfound, hrace⟩ := h
  obtain ⟨hmem, hid, huser, hlive⟩ := ThingRepository.get_eq_some hfound
  have hincluding : ThingRepository.getIncludingDeleted c.userId c.thingId (view 1).things =
      some thing := by
    refine Table.get_of_mem hmem (by simp [hid, huser]) fun r hr => ?_
    simp only [decide_eq_true_eq] at hr
    exact hr.1.trans hid.symm
  unfold applyDeleteThing
  rw [hunseen _ _ rfl]
  dsimp only
  rw [bind_of_orRaise hincluding, bind_of_ensure hlive]
  by_cases hversion : (thing.version : ℤ) = c.expectedVersion
  · obtain ⟨hlost, hunmerged⟩ := hrace.resolve_left fun h => h hversion
    have hdelete : thing.delete (fresh 0).now = .ok (thing.deleted (fresh 0).now) := by
      unfold Thing.delete
      rw [if_pos hlive, bind_of_ensure hunmerged]
      rfl
    rw [bind_of_ensure hversion, bind_of_ok hdelete]
    exact conflicts_of_check (hlost.not_updated rfl hversion) _
  · exact conflicts_of_check hversion _

theorem mergeThings_conflicts {c : MergeThings} (h : (Op.mergeThings c fresh).Loses view s) :
    Conflicts (applyMergeThings py c fresh view s) := by
  obtain ⟨hunseen, hdistinct, canonical, duplicate, hcanonical, hduplicate, hrace⟩ := h
  unfold applyMergeThings
  rw [bind_of_ensure hdistinct, hunseen _ _ rfl]
  dsimp only
  rw [bind_of_orRaise hcanonical, bind_of_orRaise hduplicate]
  by_cases hversion : (canonical.version : ℤ) = c.expectedCanonicalVersion
  · rw [bind_of_ensure hversion]
    by_cases hversion' : (duplicate.version : ℤ) = c.expectedDuplicateVersion
    · obtain ⟨hlost, hunmerged⟩ :=
        (hrace.resolve_left fun h => h hversion).resolve_left fun h => h hversion'
      obtain ⟨-, hid, -⟩ := ThingRepository.get_eq_some hcanonical
      obtain ⟨-, hid', -⟩ := ThingRepository.get_eq_some hduplicate
      have hmerge : duplicate.mergeInto canonical.id (fresh 0).now =
          .ok (duplicate.merged canonical.id (fresh 0).now) := by
        refine mergeInto_eq_ok.mpr ⟨?_, hunmerged, rfl⟩
        rw [hid, hid']
        exact hdistinct
      rw [bind_of_ensure hversion', bind_of_ok hmerge]
      exact conflicts_of_check (hlost.not_updated rfl hversion') _
    · exact conflicts_of_check hversion' _
  · exact conflicts_of_check hversion _

theorem setDeadline_conflicts {c : SetDeadline} (h : (Op.setDeadline c fresh).Loses view s) :
    Conflicts (applySetDeadlineAt cal c fresh (fun n => (view n).toRecords) s.toRecords) := by
  obtain ⟨hunseen, ⟨value, hvalue, htimezone, hconfirmed⟩, thing, hfound, hrace⟩ := h
  unfold applySetDeadlineAt
  rw [bind_of_orRaise hvalue, bind_of_ensure htimezone, bind_of_ensure hconfirmed, hunseen _ _ rfl]
  dsimp only
  rw [bind_of_orRaise hfound]
  by_cases hversion : (thing.version : ℤ) = c.expectedVersion
  · obtain ⟨hprimary, hlost, hsource⟩ := hrace.resolve_left fun h => h hversion
    rw [bind_of_ensure hversion, bind_of_ensure hsource]
    have hset : thing.setPrimaryDeadline c.value (fresh 0).now =
        .ok ({ thing with deadlineAt := some value }.touch (fresh 0).now) := by
      unfold Thing.setPrimaryDeadline
      rw [bind_of_orRaise hvalue]
      rfl
    obtain ⟨message, hpromote⟩ : Conflicts (c.promote thing (fresh 0).now s.toRecords) := by
      unfold SetDeadline.promote
      rw [if_pos hprimary, bind_of_ok hset]
      exact conflicts_of_check (hlost.not_updated rfl hversion) _
    rw [hpromote]
    exact ⟨message, rfl⟩
  · exact conflicts_of_check hversion _

/-- A date that nobody has at the version that was read is not written. -/
theorem State.LostDate.not_updated {date : ThingDate} (h : s.LostDate date) {c : UpdateDate}
    (thing : Thing) (value now : Timestamp) (hversion : (date.version : ℤ) = c.expectedVersion) :
    ∃ dates, ThingDateRepository.update (c.corrected date value now) c.expectedVersion
      (c.datesBefore thing date s.dates) = some (dates, false) := by
  have hnone : ∀ r ∈ c.datesBefore thing date s.dates,
      ThingDateRepository.updateWhere (c.corrected date value now) c.expectedVersion r = false := by
    intro r hr
    obtain ⟨r₀, hr₀, hid, hrversion⟩ : ∃ r₀ ∈ s.dates, r.id = r₀.id ∧ r.version = r₀.version := by
      unfold UpdateDate.datesBefore at hr
      split at hr
      · rcases Table.mem_update_cases (ThingDateRepository.unset_keeps thing.id date.kind) hr with
          ⟨r₀, hr₀, -, rfl⟩ | ⟨hr₀, -⟩
        · exact ⟨r₀, hr₀, rfl, rfl⟩
        · exact ⟨r, hr₀, rfl, rfl⟩
      · exact ⟨r, hr, rfl, rfl⟩
    have hlost := h r₀ hr₀
    rw [← hid, ← hrversion, ← Nat.cast_inj (R := ℤ), hversion] at hlost
    have hcorrected : (c.corrected date value now).id = date.id := rfl
    simpa only [ThingDateRepository.updateWhere, decide_eq_false_iff_not, hcorrected] using hlost
  obtain ⟨dates, hdates⟩ : ∃ dates, (c.datesBefore thing date s.dates).update?
      (ThingDateRepository.updateWhere (c.corrected date value now) c.expectedVersion)
      (ThingDateRepository.updateValues (c.corrected date value now)) = some dates := by
    refine Table.exists_update? fun r hr r' hr' hconflict => ?_
    rwa [Table.updateRow_neg (hnone r hr), Table.updateRow_neg (hnone r' hr')] at hconflict
  refine ⟨dates, ?_⟩
  unfold ThingDateRepository.update
  simp only [hdates, Option.map_some, Table.rowcount_eq_zero.mpr hnone]
  rfl

/-- What the correction makes of the Thing, before anything is stored. -/
theorem UpdateDate.promote_eq {c : UpdateDate} {date : ThingDate} {value : Timestamp}
    (hvalid : c.Valid value) (thing : Thing) (now : Timestamp) (db : Records) :
    c.promote thing date now db = .ok (c.newThing thing date value now,
      { db with dates := c.datesBefore thing date db.dates }) := by
  unfold UpdateDate.promote UpdateDate.newThing UpdateDate.datesBefore Thing.setPrimaryDeadline
  split
  · rw [bind_of_orRaise hvalid.1]
    rfl
  · split <;> rfl

/-- The Thing of a corrected date stays as it is, is written, or was updated concurrently. -/
theorem UpdateDate.storeThing_cases (c : UpdateDate) (thing' : Thing) (db : Records) :
    ((thing'.version : ℤ) = c.expectedThingVersion ∧ c.storeThing thing' db = .ok db) ∨
      ((ThingRepository.update thing' c.expectedThingVersion db.things).2 = true ∧
        c.storeThing thing' db = .ok { db with
          things := (ThingRepository.update thing' c.expectedThingVersion db.things).1 }) ∨
      Conflicts (c.storeThing thing' db) := by
  unfold storeThing
  split
  case isTrue hplain => exact .inl ⟨hplain, rfl⟩
  case isFalse =>
    dsimp only
    by_cases hupdated : (ThingRepository.update thing' c.expectedThingVersion db.things).2 = true
    · rw [bind_of_ensure hupdated]
      exact .inr (.inl ⟨hupdated, rfl⟩)
    · exact .inr (.inr (conflicts_of_check hupdated _))

theorem updateDate_conflicts {c : UpdateDate} (h : (Op.updateDate c fresh).Loses view s) :
    Conflicts (applyUpdateDateAt cal c fresh (fun n => (view n).toRecords) s.toRecords) := by
  obtain ⟨hunseen, date, hfoundDate, hrace⟩ := h
  unfold applyUpdateDateAt
  rw [hunseen _ _ rfl]
  dsimp only
  rw [bind_of_orRaise hfoundDate]
  by_cases hversion : (date.version : ℤ) = c.expectedVersion
  swap
  · exact conflicts_of_check hversion _
  obtain ⟨thing, hfound, hrace⟩ := hrace.resolve_left fun h => h hversion
  rw [bind_of_ensure hversion, bind_of_orRaise hfound]
  by_cases hthingVersion : (thing.version : ℤ) = c.expectedThingVersion
  swap
  · exact conflicts_of_check hthingVersion _
  obtain ⟨⟨value, hvalid⟩, hlost⟩ := hrace.resolve_left fun h => h hthingVersion
  rw [bind_of_ensure hthingVersion, bind_of_ok (revise_of_valid hvalid date (fresh 0).now),
    bind_of_ok (UpdateDate.promote_eq hvalid thing (fresh 0).now s.toRecords)]
  dsimp only
  generalize hnew : c.newThing thing date value (fresh 0).now = thing'
  have hid : thing'.id = thing.id := by
    rw [← hnew, UpdateDate.newThing]
    split
    · rfl
    · split <;> rfl
  have hdateLost : s.LostDate date → ∃ dates, ThingDateRepository.update
      (c.corrected date value (fresh 0).now) c.expectedVersion (c.datesBefore thing date s.dates) =
        some (dates, false) :=
    fun hlost => hlost.not_updated thing value (fresh 0).now hversion
  rcases UpdateDate.storeThing_cases c thing'
    { s.toRecords with dates := c.datesBefore thing date s.dates } with
    ⟨hplain, hstore⟩ | ⟨hupdated, hstore⟩ | ⟨message, hstore⟩
  · -- the Thing stays as it is, so the date is what was lost
    have hkept : ¬(c.isPrimary = true ∨ date.isPrimary = true) := by
      intro hprimary
      have hnext : thing'.version = thing.version + 1 := by
        rw [← hnew, UpdateDate.newThing]
        split
        · rfl
        · rw [if_pos (hprimary.resolve_left (by assumption))]
          rfl
      omega
    obtain ⟨dates, hdates⟩ := hdateLost (hlost.resolve_left fun h => hkept h.1)
    rw [bind_of_ok hstore, bind_of_orRaise hdates]
    exact conflicts_of_check Bool.false_ne_true _
  · rw [bind_of_ok hstore]
    rcases hlost with ⟨-, hlost⟩ | hlost
    · exact absurd hupdated (hlost.not_updated hid hthingVersion)
    · obtain ⟨dates, hdates⟩ := hdateLost hlost
      rw [bind_of_orRaise hdates]
      exact conflicts_of_check Bool.false_ne_true _
  · rw [hstore]
    exact ⟨message, rfl⟩

theorem transitionTask_conflicts {c : TransitionTask}
    (h : (Op.transitionTask c fresh).Loses view s) :
    Conflicts (applyTransitionTask c fresh view s) := by
  obtain ⟨hunseen, task, hfound, hrace⟩ := h
  unfold applyTransitionTask
  rw [hunseen _ _ rfl]
  dsimp only
  rw [bind_of_orRaise hfound]
  by_cases hversion : (task.version : ℤ) = c.expectedVersion
  · obtain ⟨hlost, hother, task', hchanged⟩ := hrace.resolve_left fun h => h hversion
    obtain ⟨hsame, -⟩ | ⟨-, hadvances⟩ := Task.transitionTo_ok hchanged
    · exact absurd hsame hother
    · have hnext : (task'.version : ℤ) ≠ c.expectedVersion := by
        rw [hadvances.version, ← hversion]
        omega
      rw [bind_of_ensure hversion, bind_of_ok hchanged, bind_of_ensure hnext]
      exact conflicts_of_check (hlost.not_updated hadvances.id_eq hversion) _
  · exact conflicts_of_check hversion _

theorem completeTask_conflicts {c : CompleteTask} (h : (Op.completeTask c fresh).Loses view s) :
    Conflicts (applyCompleteTask cal c fresh view s) := by
  obtain ⟨hunseen, task, hfound, hrace⟩ := h
  unfold applyCompleteTask
  rw [hunseen _ _ rfl]
  dsimp only
  rw [bind_of_orRaise hfound]
  by_cases hversion : (task.version : ℤ) = c.expectedVersion
  · obtain ⟨hlost, task', hcompleted⟩ := hrace.resolve_left fun h => h hversion
    rw [bind_of_ensure hversion, bind_of_ok hcompleted]
    refine conflicts_of_check (hlost.not_updated ?_ hversion) _
    rcases Task.complete_ok hcompleted with ⟨-, rfl⟩ | ⟨-, hadvances⟩
    · rfl
    · exact hadvances.id_eq
  · exact conflicts_of_check hversion _

theorem resolveBlocker_conflicts {c : ResolveBlocker}
    (h : (Op.resolveBlocker c fresh).Loses view s) :
    Conflicts (applyResolveBlocker c fresh view s) := by
  obtain ⟨hunseen, blocker, hfound, hrace⟩ := h
  unfold applyResolveBlocker
  rw [hunseen _ _ rfl]
  dsimp only
  rw [bind_of_orRaise hfound]
  by_cases hversion : (blocker.version : ℤ) = c.expectedVersion
  · obtain ⟨hlost, hopen⟩ := hrace.resolve_left fun h => h hversion
    have hresolve : blocker.resolve (fresh 0).now = .ok (blocker.resolved (fresh 0).now) := by
      unfold Blocker.resolve
      rw [bind_of_ensure hopen]
      rfl
    rw [bind_of_ensure hversion, bind_of_ok hresolve]
    exact conflicts_of_check (hlost.not_updated rfl hversion) _
  · exact conflicts_of_check hversion _

theorem setThingContext_conflicts {c : SetThingContext}
    (h : (Op.setThingContext c fresh).Loses view s) :
    Conflicts (applySetThingContext c fresh view s) := by
  obtain ⟨hunseen, hvalid, hthing, entryId, entry, version, hnamed, hexpected, hfound, howner,
    hrace⟩ := h
  unfold applySetThingContext
  rw [bind_of_ensure hvalid, hunseen _ _ rfl]
  dsimp only
  rw [bind_of_ensure hthing]
  obtain ⟨message, hstore⟩ : Conflicts (c.store (fresh 0) view s) := by
    unfold SetThingContext.store
    rw [hnamed]
    dsimp only
    rw [bind_of_orRaise hexpected, bind_of_orRaise hfound, bind_of_ensure howner]
    by_cases hversion : (entry.version : ℤ) = version
    · rw [bind_of_ensure hversion]
      cases hrevise : entry.revise (Text.strip c.label) (Text.strip c.content) (fresh 0).now with
      | error e =>
        unfold ThingContextEntry.revise at hrevise
        rw [bind_of_ensure (by rw [Text.strip_strip, Text.strip_strip]; exact hvalid)] at hrevise
        cases hrevise
      | ok entry' =>
        rw [bind_of_ok rfl]
        refine conflicts_of_check ((hrace.resolve_left fun h => h hversion).not_updated ?_ hversion) _
        rw [← ThingContextEntry.revise_ok hrevise]
        simp only [ThingContextEntry.revised]
    · exact conflicts_of_check hversion _
  rw [hstore]
  exact ⟨message, rfl⟩

/-- A transaction that loses a race raises `VersionConflict` and leaves the state as it was. -/
theorem Op.Loses.conflicts (py : Builtins) (cal : Calendar) (h : op.Loses view s) :
    ∃ message, commit py cal op view s = (s, .raised (.versionConflict message)) := by
  cases op with
  | updateThing c fresh => exact ((updateThing_conflicts h).onRecords s).settled s .thing
  | changeArchive c fresh => exact (changeArchive_conflicts h).settled s .outcome
  | deleteThing c fresh => exact (deleteThing_conflicts h).settled s .outcome
  | mergeThings c fresh => exact (mergeThings_conflicts h).settled s .outcome
  | setDeadline c fresh => exact ((setDeadline_conflicts h).onRecords s).settled s .outcome
  | updateDate c fresh => exact ((updateDate_conflicts h).onRecords s).settled s .outcome
  | transitionTask c fresh => exact (transitionTask_conflicts h).settled s .outcome
  | completeTask c fresh => exact (completeTask_conflicts h).settled s .outcome
  | resolveBlocker c fresh => exact (resolveBlocker_conflicts h).settled s .outcome
  | setThingContext c fresh => exact (setThingContext_conflicts h).settled s .outcome
  | _ => exact absurd h.2 id

/-- User 1 archives Thing 10, or takes it out of the archive, at version 1. -/
def archiveMove (archive : Bool) (key : String) : ChangeArchive :=
  { userId := 1, thingId := 10, expectedVersion := 1, actionId := "action", idempotencyKey := key,
    reason := "said so", archive }

/-- User 1 gives Thing 10 a primary deadline, and then another one. -/
def twoDeadlines : List Op :=
  [.createThing ⟨1, "Move", "action", "move", "new", none⟩ (stampsFrom 10 0),
    .setDeadline (setPrimary .deadline 1 "deadline") (stampsFrom 20 0),
    .setDeadline (setPrimary .deadline 2 "later") (stampsFrom 30 0)]

end PersonalState
