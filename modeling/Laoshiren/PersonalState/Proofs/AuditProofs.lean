import Laoshiren.PersonalState.Audit
import Laoshiren.PersonalState.Proofs.ReplayProofs
import Mathlib.Logic.Encodable.Basic

/-!
# Proofs: what mutations tell

One lemma for each write: whether its mutation tells what the write did. A write that finds nothing
to do records a mutation all the same.
-/

namespace PersonalState

open Raise Runtime

variable {py : Builtins} {cal : Calendar} {fresh : ℕ → Stamp} {view : ℕ → State} {s s' : State}
  {reply : Reply} {op : Op} {m : StateMutation} {thing thing' : Thing}

/-! ## Telling of a row -/

section

variable {α : Type} {k : Kind α} {r r' : α} {fields : List (String × Json)}
  {column : String → Json → Prop}

theorem mem_of_lookup {key : String} {v : Json} (h : fields.lookup key = some v) :
    (key, v) ∈ fields := by
  induction fields with
  | nil => cases h
  | cons field fields ih =>
    rw [List.lookup_cons] at h
    by_cases hkey : key = field.1
    · subst hkey
      rw [beq_self_eq_true] at h
      obtain rfl := Option.some.inj h
      exact .head _
    · rw [beq_false_of_ne hkey] at h
      exact .tail _ (ih h)

theorem tells_ofFields (h : ∀ field ∈ fields, column field.1 field.2) :
    Tells column (Dict.ofFields fields) := by
  intro key v hkey
  rw [Dict.get_ofFields] at hkey
  exact h (key, v) (List.mem_reverse.mp (mem_of_lookup hkey))

/-- A display shows a row where it tells its columns and its version. -/
theorem Kind.shows_of_fields {d : Dict} (hd : d = Dict.ofFields fields)
    (htells : ∀ field ∈ fields, k.column r field.1 field.2)
    (hversion : fields.reverse.lookup k.versionField = some (.num (k.rows.version r))) :
    k.Shows r d := by
  rw [hd]
  refine ⟨tells_ofFields htells, ?_⟩
  rw [Dict.get_ofFields]
  exact hversion

/-- The same columns are told of two rows in one version. -/
theorem Kind.Shows.congr {d : Dict} (h : k.Shows r d) (hcolumn : k.column r' = k.column r)
    (hversion : k.rows.version r' = k.rows.version r) : k.Shows r' d := by
  refine ⟨?_, ?_⟩
  · rw [hcolumn]
    exact h.tells
  · rw [hversion]
    exact h.version

variable [Row α] {t t' : Table α}

/-- A mutation tells of a row that it inserts. -/
theorem Kind.told_of_insert (hkeyed : k.rows.Keyed) (htype : m.targetType = k.targetType)
    (hinsert : t.insert? r' = some t') (hkey : k.rows.key r' = m.targetId)
    (hshows : k.Shows r' m.after) (hbefore : m.before = none) (hversion : k.rows.version r' = 1) :
    k.Told m t t' := by
  refine ⟨htype, r', (Table.mem_insert? hinsert).mpr (.inr rfl), hkey, hshows, .inl ⟨hbefore, ?_,
    hversion⟩⟩
  intro r hr hsame
  exact Table.not_conflict_of_insert? hinsert hr (hkeyed _ _ (hsame.trans hkey.symm))

/-- A table that stays has no row in its next version. -/
theorem Kind.Told.ne (hkeyed : k.rows.Keyed) (h : k.Told m t t') : t ≠ t' := by
  rintro rfl
  obtain ⟨r', hr', hkey, -, hcreated | hchanged⟩ := h.row
  · exact hcreated.new r' hr' hkey
  · obtain ⟨r, hr, hkey', -, hversion⟩ := hchanged.old
    obtain rfl := Table.eq_of_conflict hr' hr (hkeyed _ _ (hkey.trans hkey'.symm))
    omega

end

/-! ## Telling of a state -/

theorem Kind.not_told {α : Type} [Row α] {k : Kind α} {t t' : Table α} {type : String}
    (h : m.targetType = type) (hne : type ≠ k.targetType) : ¬k.Told m t t' :=
  fun htold => hne (h.symm.trans htold.targetType)

theorem describes_thing (h : m.targetType = "THING") :
    m.Describes cal s s' ↔ (thingKind cal).Told m s.things s'.things := by
  refine ⟨?_, .inl⟩
  rintro (htold | htold | htold | htold | htold)
  · exact htold
  · exact absurd htold (Kind.not_told h (by simp [taskKind]))
  · exact absurd htold (Kind.not_told h (by simp [dateKind]))
  · exact absurd htold (Kind.not_told h (by simp [entryKind]))
  · exact absurd htold (Kind.not_told h (by simp [blockerKind]))

theorem describes_task (h : m.targetType = "TASK") :
    m.Describes cal s s' ↔ (taskKind cal).Told m s.tasks s'.tasks := by
  refine ⟨?_, fun htold => .inr (.inl htold)⟩
  rintro (htold | htold | htold | htold | htold)
  · exact absurd htold (Kind.not_told h (by simp [thingKind]))
  · exact htold
  · exact absurd htold (Kind.not_told h (by simp [dateKind]))
  · exact absurd htold (Kind.not_told h (by simp [entryKind]))
  · exact absurd htold (Kind.not_told h (by simp [blockerKind]))

theorem describes_date (h : m.targetType = "THING_DATE") :
    m.Describes cal s s' ↔ (dateKind cal).Told m s.dates s'.dates := by
  refine ⟨?_, fun htold => .inr (.inr (.inl htold))⟩
  rintro (htold | htold | htold | htold | htold)
  · exact absurd htold (Kind.not_told h (by simp [thingKind]))
  · exact absurd htold (Kind.not_told h (by simp [taskKind]))
  · exact htold
  · exact absurd htold (Kind.not_told h (by simp [entryKind]))
  · exact absurd htold (Kind.not_told h (by simp [blockerKind]))

theorem describes_entry (h : m.targetType = "THING_CONTEXT_ENTRY") :
    m.Describes cal s s' ↔ entryKind.Told m s.contextEntries s'.contextEntries := by
  refine ⟨?_, fun htold => .inr (.inr (.inr (.inl htold)))⟩
  rintro (htold | htold | htold | htold | htold)
  · exact absurd htold (Kind.not_told h (by simp [thingKind]))
  · exact absurd htold (Kind.not_told h (by simp [taskKind]))
  · exact absurd htold (Kind.not_told h (by simp [dateKind]))
  · exact htold
  · exact absurd htold (Kind.not_told h (by simp [blockerKind]))

theorem describes_blocker (h : m.targetType = "BLOCKER") :
    m.Describes cal s s' ↔ blockerKind.Told m s.blockers s'.blockers := by
  refine ⟨?_, fun htold => .inr (.inr (.inr (.inr htold)))⟩
  rintro (htold | htold | htold | htold | htold)
  · exact absurd htold (Kind.not_told h (by simp [thingKind]))
  · exact absurd htold (Kind.not_told h (by simp [taskKind]))
  · exact absurd htold (Kind.not_told h (by simp [dateKind]))
  · exact absurd htold (Kind.not_told h (by simp [entryKind]))
  · exact htold

/-- No kind of rows has Sources. -/
theorem not_describes_source (h : m.targetType = "SOURCE") : ¬m.Describes cal s s' := by
  rintro (htold | htold | htold | htold | htold)
  · exact Kind.not_told h (by simp [thingKind]) htold
  · exact Kind.not_told h (by simp [taskKind]) htold
  · exact Kind.not_told h (by simp [dateKind]) htold
  · exact Kind.not_told h (by simp [entryKind]) htold
  · exact Kind.not_told h (by simp [blockerKind]) htold

/-- A mutation that describes a write tells that a table changed. -/
theorem StateMutation.Describes.not_same (h : m.Describes cal s s') : ¬SameRows s s' := by
  intro hsame
  rcases h with h | h | h | h | h
  · exact h.ne things_keyed (congrArg (·.things) hsame).symm
  · exact h.ne tasks_keyed (congrArg (·.tasks) hsame).symm
  · exact h.ne dates_keyed (congrArg (·.dates) hsame).symm
  · exact h.ne entries_keyed (congrArg (·.contextEntries) hsame).symm
  · exact h.ne blockers_keyed (congrArg (·.blockers) hsame).symm

/-- A write that records a mutation is audited where the mutation describes it. -/
theorem audited_iff (hinserted : s.mutations.insert? m = some s'.mutations) :
    FaithfullyAudited cal s s' ↔ m.Describes cal s s' := by
  have hrows := Table.rows_insert? hinserted
  constructor
  · intro h
    have hchanged : ¬SameRows s s' := by
      intro hsame
      rw [(h.idle hsame).1] at hrows
      have hlength := congrArg List.length hrows
      simp at hlength
    obtain ⟨m', hinserted', hdescribes⟩ := h.changes hchanged
    have hrows' := Table.rows_insert? hinserted'
    rw [hrows] at hrows'
    obtain rfl := List.cons.inj (List.append_cancel_left hrows') |>.1
    exact hdescribes
  · intro h
    exact ⟨fun _ => ⟨m, hinserted, h⟩, fun hsame => absurd hsame h.not_same⟩

theorem DateCertainty.value_injective : Function.Injective DateCertainty.value := by
  intro a b h
  cases a <;> cases b <;> first | rfl | exact absurd h (by decide)

/-! ## Things -/

/-- A Thing that is written in its next version is described. -/
theorem Writes.describes (hwrites : Writes view s thing thing')
    (hlater : ∀ n, ThingsLater (view n) s) (h : s'.things = (s.setThing thing thing').things)
    (htype : m.targetType = "THING") (hid : thing.id = m.targetId)
    (hversion : thing'.version = thing.version + 1)
    (hold : ∃ before, m.before = some before ∧ (thingKind cal).Shows thing before)
    (hnew : (thingKind cal).Shows thing' m.after) : m.Describes cal s s' := by
  have hmem : thing' ∈ s'.things := by
    rw [h]
    exact (hwrites.mem_iff hlater).mpr (.inl rfl)
  exact (describes_thing htype).mpr ⟨htype, thing', hmem, hwrites.id_eq.trans hid, hnew,
    .inr ⟨thing, hwrites.mem hlater, hid, hold, hversion⟩⟩

/-- A Thing that is written as it was is in no next version. -/
theorem Writes.not_describes (hwrites : Writes view s thing thing)
    (hlater : ∀ n, ThingsLater (view n) s) (h : s'.things = (s.setThing thing thing).things)
    (htype : m.targetType = "THING") : ¬m.Describes cal s s' := by
  intro hdescribes
  obtain ⟨r', hr', hkey, -, hcreated | hchanged⟩ := ((describes_thing htype).mp hdescribes).row
  all_goals
    rw [h, hwrites.mem_iff hlater] at hr'
    have hmem : r' ∈ s.things := by
      rcases hr' with rfl | ⟨hr', -⟩
      · exact hwrites.mem hlater
      · exact hr'
  · exact hcreated.new r' hmem hkey
  · obtain ⟨r, hr, hkey', -, hversion⟩ := hchanged.old
    obtain rfl := Table.eq_of_conflict hmem hr (things_keyed _ _ (hkey.trans hkey'.symm))
    omega

/-! ## Tasks -/

theorem Task.column_of_same {task r : Task} (h : taskVersions.Same task r) :
    (taskKind cal).column r = (taskKind cal).column task := by
  have hcontent : ({ r with thingId := none } : Task) = { task with thingId := none } := h.2
  have hcolumn := congrArg (Task.Column cal) hcontent
  exact hcolumn

/-- The row of a Task that is written, and what becomes of it. -/
theorem WritesTask.row {task task' : Task} (hwrites : WritesTask view s task task')
    (hlater : ∀ n, TasksLater (view n) s) :
    ∃ r ∈ s.tasks, r.id = task.id ∧ taskVersions.Same task r ∧
      TaskRepository.updateValues task' r ∈ (s.setTask task task').tasks := by
  obtain ⟨r, hr, hp⟩ := Table.exists_of_rowcount_eq_one (by simpa [TaskRepository.update] using
    hwrites.updated)
  have hrow : TaskRepository.updateValues task' r ∈ (s.setTask task task').tasks :=
    Table.mem_update_of_pos hr hp
  simp only [TaskRepository.updateWhere, decide_eq_true_eq, Nat.cast_inj] at hp
  have hid : r.id = task.id := hp.1.trans hwrites.id_eq
  have hsame := Versioned.same_of_evolves tasks_keyed (hlater 1) hwrites.read hr hid hp.2
  exact ⟨r, hr, hid, hsame, hrow⟩

/-- A Task that is written in its next version is described. -/
theorem WritesTask.describes {task task' : Task} (hwrites : WritesTask view s task task')
    (hlater : ∀ n, TasksLater (view n) s) (h : s'.tasks = (s.setTask task task').tasks)
    (htype : m.targetType = "TASK") (hid : task.id = m.targetId)
    (hversion : task'.version = task.version + 1)
    (hold : ∃ before, m.before = some before ∧ (taskKind cal).Shows task before)
    (hnew : (taskKind cal).Shows task' m.after) : m.Describes cal s s' := by
  obtain ⟨r, hr, hrid, hsame, hrow⟩ := hwrites.row hlater
  obtain ⟨before, hbefore, hshows⟩ := hold
  have htitle : r.title = task'.title := by
    have hcontent : ({ r with thingId := none } : Task) = { task with thingId := none } := hsame.2
    have htitle := congrArg Task.title hcontent
    exact htitle.trans hwrites.title_eq.symm
  have hcolumn : (taskKind cal).column (TaskRepository.updateValues task' r) =
      (taskKind cal).column task' := by
    funext key v
    simp only [taskKind, Task.Column, TaskRepository.updateValues, htitle]
  rw [← h] at hrow
  refine (describes_task htype).mpr ⟨htype, _, hrow, hrid.trans hid, hnew.congr hcolumn rfl,
    .inr ⟨r, hr, hrid.trans hid, ⟨before, hbefore, ?_⟩, ?_⟩⟩
  · exact hshows.congr (Task.column_of_same hsame) hsame.1
  · have hrversion : r.version = task.version := hsame.1
    show task'.version = r.version + 1
    rw [hversion, hrversion]

/-- A Task that is written as it was is in no next version. -/
theorem setTask_not_describes {task : Task} (h : s'.tasks = (s.setTask task task).tasks)
    (htype : m.targetType = "TASK") : ¬m.Describes cal s s' := by
  intro hdescribes
  obtain ⟨r', hr', hkey, -, hcreated | hchanged⟩ := ((describes_task htype).mp hdescribes).row
  all_goals
    rw [h] at hr'
    obtain ⟨r₀, hr₀, hversion₀⟩ : ∃ r₀ ∈ s.tasks, r'.version = r₀.version ∧ r'.id = r₀.id := by
      rcases Table.mem_update_cases (by exact fun _ _ _ h => h) hr' with
        ⟨r₀, hr₀, hp, rfl⟩ | ⟨hr₀, -⟩
      · simp only [TaskRepository.updateWhere, decide_eq_true_eq, Nat.cast_inj] at hp
        exact ⟨r₀, hr₀, hp.2.symm, rfl⟩
      · exact ⟨r', hr₀, rfl, rfl⟩
  · exact hcreated.new r₀ hr₀ (hversion₀.2.symm.trans hkey)
  · obtain ⟨r, hr, hkey', -, hversion⟩ := hchanged.old
    obtain rfl := Table.eq_of_conflict hr₀ hr
      (tasks_keyed _ _ (hversion₀.2.symm.trans (hkey.trans hkey'.symm)))
    have hnext : r'.version = r₀.version + 1 := hversion
    omega

/-! ## Dates, Blockers and context entries -/

theorem num_of_expected {n : ℕ} {z : ℤ} (h : (n : ℤ) = z) :
    Json.num (z : ℚ) = Json.num (n : ℚ) := by
  rw [← h, Int.cast_natCast]

/-- What a mutation tells of a row before the write, read back. -/
theorem Kind.Told.tells_old {α : Type} [Row α] {k : Kind α} {t t' : Table α} (hkeyed : k.rows.Keyed)
    (h : k.Told m t t') {before : Dict} (hbefore : m.before = some before) {r : α} (hr : r ∈ t)
    (hkey : k.rows.key r = m.targetId) : Tells (k.column r) before := by
  obtain ⟨r', -, -, -, hcreated | hchanged⟩ := h.row
  · exact absurd hkey (hcreated.new r hr)
  · obtain ⟨r₁, hr₁, hkey₁, ⟨_, hbefore₁, hshows⟩, -⟩ := hchanged.old
    obtain rfl := Option.some.inj (hbefore.symm.trans hbefore₁)
    obtain rfl := Table.eq_of_conflict hr hr₁ (hkeyed _ _ (hkey.trans hkey₁.symm))
    exact hshows.tells

theorem ResolveBlocker.Resolves.describes_iff {c : ResolveBlocker} {blocker : Blocker}
    (h : c.Resolves fresh view s s' blocker) :
    (c.mutated blocker fresh).Describes cal s s' ↔
      (Op.resolveBlocker c fresh).ReadsCurrent view s := by
  have hblockers : s'.blockers = (BlockerRepository.update (blocker.resolved (fresh 0).now)
      blocker.version s.blockers).1 := congrArg (·.blockers) h.recorded.same
  rw [describes_blocker rfl]
  constructor
  · intro htold blocker' hfound r hr hid
    obtain rfl := Option.some.inj (hfound.symm.trans h.found)
    have htells := htold.tells_old blockers_keyed rfl hr hid "status" (.str "OPEN")
      (by rw [Dict.get_ofFields]; rfl)
    have hstatus := htells.1 rfl
    rw [h.isOpen]
    cases hr : r.status with
    | «open» => rfl
    | resolved =>
      rw [hr] at hstatus
      exact absurd hstatus (by decide)
  · intro hcurrent
    obtain ⟨r, hr, hp⟩ := Table.exists_of_rowcount_eq_one (by
      simpa [BlockerRepository.update] using h.updated)
    have hrow : BlockerRepository.updateValues (blocker.resolved (fresh 0).now) r ∈
        s'.blockers := by
      rw [hblockers]
      exact Table.mem_update_of_pos hr hp
    simp only [BlockerRepository.updateWhere, decide_eq_true_eq, Nat.cast_inj] at hp
    have hopen : r.status = .open := (hcurrent blocker h.found r hr hp.1).trans h.isOpen
    refine ⟨rfl, _, hrow, hp.1, Kind.shows_of_fields rfl ?_ rfl, .inr ⟨r, hr, hp.1,
      ⟨_, rfl, Kind.shows_of_fields rfl ?_ ?_⟩, ?_⟩⟩
    · simp [blockerKind, Blocker.Column, BlockerRepository.updateValues]
    · simp [blockerKind, Blocker.Column, hopen, BlockerStatus.value, hp.2,
        num_of_expected h.expected]
    · have hversion : blockerKind.rows.version r = blocker.version := hp.2
      rw [num_of_expected h.expected, hversion]
      rfl
    · show blocker.version + 1 = r.version + 1
      rw [hp.2]

theorem SetThingContext.Sets.describes_iff {c : SetThingContext}
    {existing : Option ThingContextEntry} (h : c.Sets fresh view s s' existing) :
    (c.mutation existing (c.result existing (fresh 0)) (fresh 1)).Describes cal s s' ↔
      (Op.setThingContext c fresh).ReadsCurrent view s := by
  rw [describes_entry rfl]
  obtain ⟨rfl, hadds⟩ | ⟨entry, rfl, hrevises⟩ := h.stored
  · obtain ⟨entries, hinsert, hrecorded⟩ := hadds.stored
    have hentries : s'.contextEntries = entries := congrArg (·.contextEntries) hrecorded.same
    rw [hentries]
    refine iff_of_true (Kind.told_of_insert entries_keyed rfl hinsert rfl
      (Kind.shows_of_fields rfl ?_ rfl) rfl rfl) ?_
    · simp [entryKind, ThingContextEntry.Column, SetThingContext.result]
    · intro entryId entry hid
      rw [hadds.named.1] at hid
      cases hid
  · have hentries : s'.contextEntries =
        (ContextEntryRepository.update (c.revision entry (fresh 0).now) entry.version
          s.contextEntries).1 := congrArg (·.contextEntries) hrevises.recorded.same
    have hid : (c.revision entry (fresh 0).now).id = entry.id := c.revision_id _ _
    have hnext : (c.revision entry (fresh 0).now).version = entry.version + 1 :=
      c.revision_version _ _
    have hresult : c.result (some entry) (fresh 0) = c.revision entry (fresh 0).now := rfl
    have hupdated := hrevises.updated
    rw [hresult]
    generalize c.revision entry (fresh 0).now = entry' at hentries hid hnext hupdated ⊢
    constructor
    · intro htold entryId read hnamed hfound r hr hrid
      obtain rfl := Option.some.inj (hnamed.symm.trans hrevises.named)
      obtain rfl := Option.some.inj (hfound.symm.trans hrevises.found)
      have htells := htold.tells_old entries_keyed rfl hr (hrid.trans hid.symm)
      have hlabel := (htells "label" (.str read.label) (by
        rw [SetThingContext.entryState, Dict.get_ofFields]
        rfl)).1 rfl
      have hcontent := (htells "content" (.str read.content) (by
        rw [SetThingContext.entryState, Dict.get_ofFields]
        rfl)).2.1 rfl
      exact ⟨(Json.str.inj hlabel).symm, (Json.str.inj hcontent).symm⟩
    · intro hcurrent
      obtain ⟨r, hr, hp⟩ := Table.exists_of_rowcount_eq_one (by
        simpa [ContextEntryRepository.update] using hupdated)
      have hrow : ContextEntryRepository.updateValues entry' r ∈ s'.contextEntries := by
        rw [hentries]
        exact Table.mem_update_of_pos hr hp
      simp only [ContextEntryRepository.updateWhere, decide_eq_true_eq, Nat.cast_inj, hid] at hp
      obtain ⟨hlabel, hcontent⟩ := hcurrent _ entry hrevises.named hrevises.found r hr hp.1
      have hversion : entryKind.rows.version r = entry.version := hp.2
      refine ⟨rfl, _, hrow, hp.1.trans hid.symm, Kind.shows_of_fields rfl ?_ rfl, .inr ⟨r, hr,
        hp.1.trans hid.symm, ⟨_, rfl, Kind.shows_of_fields rfl ?_ ?_⟩, ?_⟩⟩
      · simp [entryKind, ThingContextEntry.Column, ContextEntryRepository.updateValues]
      · simp [entryKind, ThingContextEntry.Column, hlabel, hcontent, hp.2]
      · rw [hversion]
        rfl
      · rw [hversion]
        exact hnext

theorem UpdateDate.Corrects.describes_iff (hcal : Function.Injective cal.isoformat) {c : UpdateDate}
    {date : ThingDate} {value : Timestamp} (h : c.Corrects cal fresh view s s' thing date value) :
    (c.mutated cal thing date value fresh).Describes cal s s' ↔
      (Op.updateDate c fresh).ReadsCurrent view s := by
  have hupdate := h.dates_eq
  rw [describes_date rfl]
  constructor
  · intro htold date' hfound r hr hid
    obtain rfl := Option.some.inj (hfound.symm.trans h.foundDate)
    have htells := htold.tells_old dates_keyed rfl hr hid
    have hvalue := (htells "value" (.str (cal.isoformat (.utc date'.value))) (by
      rw [UpdateDate.dateState, Dict.get_ofFields]
      rfl)).1 rfl
    have hcertainty := (htells "certainty" (.str date'.certainty.value) (by
      rw [UpdateDate.dateState, Dict.get_ofFields]
      rfl)).2.1 rfl
    have hprimary := (htells "is_primary" (.bool date'.isPrimary) (by
      rw [UpdateDate.dateState, Dict.get_ofFields]
      rfl)).2.2.1 rfl
    obtain ⟨d, hd, htext⟩ := hvalue
    obtain rfl := hcal (Json.str.inj htext)
    refine ⟨?_, ?_, (Json.bool.inj hprimary).symm⟩
    · exact (Option.some.inj hd).symm.trans (by simp [DateTime.utc])
    · exact (DateCertainty.value_injective (Json.str.inj hcertainty)).symm
  · intro hcurrent
    simp only [ThingDateRepository.update, Option.map_eq_some_iff, Prod.mk.injEq,
      beq_iff_eq] at hupdate
    obtain ⟨_, hdates, rfl, hcount⟩ := hupdate
    obtain ⟨r₀, hr₀, hp⟩ := Table.exists_of_rowcount_eq_one hcount
    have hrow := (Table.mem_update? hdates).mpr ⟨r₀, hr₀, rfl⟩
    rw [Table.updateRow_pos hp] at hrow
    simp only [ThingDateRepository.updateWhere, decide_eq_true_eq, ← h.version, Nat.cast_inj] at hp
    -- the row as it was before another date gave up its mark
    obtain ⟨r, hr, hsame⟩ : ∃ r ∈ s.dates, r.id = r₀.id ∧ r.version = r₀.version := by
      unfold UpdateDate.datesBefore at hr₀
      split at hr₀
      · rcases Table.mem_update_cases (by exact ThingDateRepository.unset_keeps _ _) hr₀ with
          ⟨r, hr, -, rfl⟩ | ⟨hr, -⟩
        · exact ⟨r, hr, rfl, rfl⟩
        · exact ⟨r₀, hr, rfl, rfl⟩
      · exact ⟨r₀, hr₀, rfl, rfl⟩
    have hrid : r.id = date.id := hsame.1.trans hp.1
    obtain ⟨hvalue, hcertainty, hprimary⟩ := hcurrent date h.foundDate r hr hrid
    have hversion : (dateKind cal).rows.version r = date.version := hsame.2.trans hp.2
    refine ⟨rfl, _, hrow, hp.1, Kind.shows_of_fields rfl ?_ rfl, .inr ⟨r, hr, hrid,
      ⟨_, rfl, Kind.shows_of_fields rfl ?_ ?_⟩, ?_⟩⟩
    · have htext : ∃ d : DateTime, d.instant = some value ∧
          cal.isoformat c.value = cal.isoformat d := ⟨c.value, h.valid.1, rfl⟩
      simpa [dateKind, ThingDate.Column, ThingDateRepository.updateValues,
        UpdateDate.corrected] using htext
    · have htext : ∃ d : DateTime, d.instant = some date.value ∧
          cal.isoformat (.utc date.value) = cal.isoformat d :=
        ⟨.utc date.value, by simp [DateTime.utc, DateTime.instant], rfl⟩
      simpa [dateKind, ThingDate.Column, hvalue, hcertainty, hprimary, hsame.2, hp.2] using htext
    · rw [hversion]
      rfl
    · rw [hversion]
      rfl

/-! ## Every write -/

/-- Whether the mutation of a write describes it. -/
theorem Op.Commits.audit (hcal : Function.Injective cal.isoformat) (hrequest : op.request ≠ none)
    (hthings : ∀ n, ThingsLater (view n) s) (htasks : ∀ n, TasksLater (view n) s)
    (h : op.Commits cal view s s' reply) :
    ∃ m, s.mutations.insert? m = some s'.mutations ∧ (m.Describes cal s s' ↔
      op.TellsVersion ∧ ¬op.Idle s ∧ op.ReadsCurrent view s) := by
  have hnever : ∀ {P Q R : Prop}, ¬P → ¬Q → (P ↔ Q ∧ R) := fun hP hQ =>
    iff_of_false hP fun hand => hQ hand.1
  have hplain : ∀ {P : Prop}, P → (P ↔ True ∧ ¬False ∧ True) := fun hP =>
    iff_of_true hP ⟨trivial, id, trivial⟩
  cases op <;> first | exact absurd rfl hrequest | skip
  case createThing c fresh =>
    obtain ⟨⟨-, things, hinsert, hrecorded⟩, -⟩ := h
    refine ⟨_, hrecorded.mutation, hplain ?_⟩
    rw [describes_thing rfl, hrecorded.things]
    refine Kind.told_of_insert things_keyed rfl hinsert rfl (Kind.shows_of_fields rfl ?_ rfl) rfl
      rfl
    simp [thingKind, Thing.Column]
  case updateThing c fresh =>
    obtain ⟨thing, thing', hrevises, -⟩ := h
    obtain ⟨_, _, heq⟩ := revise_ok hrevises.revised
    refine ⟨_, hrevises.recorded.mutation, hplain ?_⟩
    refine hrevises.writes.describes hthings hrevises.recorded.things rfl rfl (by rw [heq]; rfl)
      ⟨_, rfl, Kind.shows_of_fields rfl ?_ rfl⟩ (Kind.shows_of_fields rfl ?_ rfl)
    · simp [thingKind, Thing.Column]
    · simp [thingKind, Thing.Column]
  case changeArchive c fresh =>
    obtain ⟨thing, hchanges, -⟩ := h
    have hwrites := hchanges.writes
    have hmem := hwrites.mem hthings
    have hid : thing.id = c.thingId := (ThingRepository.get_eq_some hchanges.found).2.1
    refine ⟨_, hchanges.recorded.mutation, ?_⟩
    rcases c.changed_cases thing (fresh 0).now with ⟨hidle, heq⟩ | ⟨hactive, heq⟩
    · have hthings' := hchanges.recorded.things
      rw [heq] at hwrites hthings'
      refine iff_of_false (hwrites.not_describes hthings hthings' rfl) ?_
      rintro ⟨-, hbusy, -⟩
      exact hbusy ⟨thing, hmem, hid, hidle⟩
    · have hversion : (c.changed thing (fresh 0).now).version = thing.version + 1 := by rw [heq]
      refine iff_of_true ?_ ⟨trivial, ?_, trivial⟩
      · refine hwrites.describes hthings hchanges.recorded.things rfl rfl hversion
          ⟨_, rfl, Kind.shows_of_fields rfl ?_ rfl⟩ (Kind.shows_of_fields rfl ?_ rfl)
        · simp [thingKind, Thing.Column]
        · simp [thingKind, Thing.Column]
      · rintro ⟨r, hr, hrid, hidle⟩
        obtain rfl := Table.eq_of_conflict hr hmem (things_keyed _ _ (hrid.trans hid.symm))
        by_cases harchived : r.archivedAt = none <;> simp [harchived] at hidle hactive
        all_goals simp [hidle] at hactive
  case deleteThing c fresh =>
    obtain ⟨thing, hdeletes, -⟩ := h
    refine ⟨_, hdeletes.recorded.mutation, hplain ?_⟩
    refine hdeletes.writes.describes hthings hdeletes.recorded.things rfl rfl rfl
      ⟨_, rfl, Kind.shows_of_fields rfl ?_ rfl⟩ (Kind.shows_of_fields rfl ?_ rfl)
    · simp [thingKind, Thing.Column, hdeletes.live, isoformat?, Json.ofStr?]
    · simp [thingKind, Thing.Column]
  case mergeThings c fresh =>
    obtain ⟨canonical, duplicate, hmerges, -⟩ := h
    obtain ⟨s₁, hrebound, hrecorded⟩ := hmerges.rebound
    obtain ⟨-, -, -, hmutations, -⟩ := rebind_ok hrebound
    refine ⟨c.mutated canonical duplicate fresh, ?_, hplain ?_⟩
    · rw [← hrecorded.mutation, hmutations]
    · refine hmerges.writes.describes hthings hmerges.things rfl rfl rfl
        ⟨_, rfl, Kind.shows_of_fields rfl ?_ ?_⟩ (Kind.shows_of_fields rfl ?_ rfl)
      · simp [thingKind, Thing.Column, hmerges.unmerged, Json.ofStr?,
          num_of_expected hmerges.duplicateVersion]
      · rw [num_of_expected hmerges.duplicateVersion]
        rfl
      · simp [thingKind, Thing.Column, Thing.merged, Json.ofStr?]
  case setDeadline c fresh =>
    obtain ⟨thing, value, hadds, -⟩ := h
    have hinserted : s.mutations.insert? (c.mutated cal thing value fresh) = some s'.mutations := by
      cases hprimary : c.isPrimary with
      | false =>
        obtain ⟨_, -, hrecorded⟩ := hadds.plain hprimary
        exact hrecorded.mutation
      | true =>
        obtain ⟨_, -, -, hrecorded⟩ := hadds.primary hprimary
        exact hrecorded.mutation
    refine ⟨_, hinserted, hnever ?_ id⟩
    rw [describes_date rfl]
    intro htold
    obtain ⟨_, -, -, hshows, -⟩ := htold.row
    have hnone : (c.mutated cal thing value fresh).after.get "date_version" = none := by
      simp only [SetDeadline.mutated, SetDeadline.mutation, Dict.get_ofFields]
      cases c.sourceId <;> rfl
    cases hnone.symm.trans hshows.version
  case updateDate c fresh =>
    obtain ⟨thing, date, value, hcorrects, -⟩ := h
    have hinserted : s.mutations.insert? (c.mutated cal thing date value fresh) =
        some s'.mutations := by
      obtain ⟨_, -, ⟨-, -, hrecorded⟩ | ⟨-, -, hrecorded⟩⟩ := hcorrects.stored
      · exact hrecorded.mutation
      · exact hrecorded.mutation
    refine ⟨_, hinserted, (hcorrects.describes_iff hcal).trans ?_⟩
    exact ⟨fun hcurrent => ⟨trivial, id, hcurrent⟩, fun hcurrent => hcurrent.2.2⟩
  case createTask c fresh =>
    obtain ⟨_, ⟨-, -, -, tasks, hinsert, hrecorded⟩, -⟩ := h
    have htasks' : s'.tasks = tasks := congrArg (·.tasks) hrecorded.same
    refine ⟨_, hrecorded.mutation, hplain ?_⟩
    rw [describes_task rfl, htasks']
    refine Kind.told_of_insert tasks_keyed rfl hinsert rfl (Kind.shows_of_fields rfl ?_ rfl) rfl rfl
    simp [taskKind, Task.Column]
    rw [Option.map_eq_bind]
    rfl
  case transitionTask c fresh =>
    obtain ⟨task, task', hchanges, -⟩ := h
    have htasks' : s'.tasks = (s.setTask task task').tasks :=
      congrArg (·.tasks) hchanges.recorded.same
    refine ⟨_, hchanges.recorded.mutation, hplain ?_⟩
    refine hchanges.writes.describes htasks htasks' rfl rfl hchanges.advances.version
      ⟨_, rfl, Kind.shows_of_fields rfl ?_ ?_⟩ (Kind.shows_of_fields rfl ?_ rfl)
    · simp [taskKind, Task.Column, num_of_expected hchanges.expected]
    · rw [num_of_expected hchanges.expected]
      rfl
    · simp [taskKind, Task.Column]
  case completeTask c fresh =>
    obtain ⟨task, task', hcompletes, -⟩ := h
    have hwrites := hcompletes.writes
    have htasks' : s'.tasks = (s.setTask task task').tasks :=
      congrArg (·.tasks) hcompletes.recorded.same
    have hid : task.id = c.taskId := by
      have hp := (Table.get_eq_some hcompletes.found).2
      simp only [decide_eq_true_eq] at hp
      exact hp.1
    obtain ⟨r, hr, hrid, hsame, -⟩ := hwrites.row htasks
    have hstatus : r.status = task.status := by
      have hcontent : ({ r with thingId := none } : Task) = { task with thingId := none } := hsame.2
      have hstatus := congrArg Task.status hcontent
      exact hstatus
    refine ⟨_, hcompletes.recorded.mutation, ?_⟩
    rcases Task.complete_ok hcompletes.completed with ⟨hdone, rfl⟩ | ⟨htodo, hadvances⟩
    · refine iff_of_false (setTask_not_describes htasks' rfl) ?_
      rintro ⟨-, hbusy, -⟩
      exact hbusy ⟨r, hr, hrid.trans hid, hstatus.trans hdone⟩
    · refine iff_of_true ?_ ⟨trivial, ?_, trivial⟩
      · refine hwrites.describes htasks htasks' rfl rfl hadvances.version
          ⟨_, rfl, Kind.shows_of_fields rfl ?_ rfl⟩ (Kind.shows_of_fields rfl ?_ rfl)
        · simp [taskKind, Task.Column]
        · simp [taskKind, Task.Column]
      · rintro ⟨r', hr', hrid', hdone⟩
        obtain rfl := Table.eq_of_conflict hr' hr
          (tasks_keyed _ _ (hrid'.trans (hrid.trans hid).symm))
        rw [hstatus, htodo] at hdone
        cases hdone
  case createBlocker c fresh =>
    obtain ⟨⟨-, -, blockers, hinsert, hrecorded⟩, -⟩ := h
    have hblockers : s'.blockers = blockers := congrArg (·.blockers) hrecorded.same
    refine ⟨_, hrecorded.mutation, hplain ?_⟩
    rw [describes_blocker rfl, hblockers]
    refine Kind.told_of_insert blockers_keyed rfl hinsert rfl (Kind.shows_of_fields rfl ?_ rfl) rfl
      rfl
    simp [blockerKind, Blocker.Column]
  case resolveBlocker c fresh =>
    obtain ⟨_, hresolves, -⟩ := h
    refine ⟨_, hresolves.recorded.mutation, hresolves.describes_iff.trans ?_⟩
    exact ⟨fun hcurrent => ⟨trivial, id, hcurrent⟩, fun hcurrent => hcurrent.2.2⟩
  case setThingContext c fresh =>
    obtain ⟨existing, hsets, -⟩ := h
    have hinserted : s.mutations.insert? (c.mutation existing (c.result existing (fresh 0))
        (fresh 1)) = some s'.mutations := by
      obtain ⟨rfl, hadds⟩ | ⟨_, rfl, hrevises⟩ := hsets.stored
      · obtain ⟨_, -, hrecorded⟩ := hadds.stored
        exact hrecorded.mutation
      · exact hrevises.recorded.mutation
    refine ⟨_, hinserted, hsets.describes_iff.trans ?_⟩
    exact ⟨fun hcurrent => ⟨trivial, id, hcurrent⟩, fun hcurrent => hcurrent.2.2⟩
  case linkToThing c fresh =>
    exact ⟨_, h.1.recorded.mutation, hnever (not_describes_source rfl) id⟩
  case addRelation c fresh =>
    refine ⟨_, h.1.recorded.mutation, hnever ?_ id⟩
    rw [describes_thing rfl]
    intro htold
    obtain ⟨_, -, -, hshows, -⟩ := htold.row
    have hnone : (c.mutation (c.creates fresh s) (fresh 1)).after.get "version" = none := by
      rw [AddRelation.mutation, Dict.get_ofFields]
      rfl
    cases hnone.symm.trans hshows.version
  case deleteFile c fresh =>
    exact ⟨_, h.1.recorded.mutation, hnever (not_describes_source rfl) id⟩

/-- In every history, a write that is not a replay and succeeds: it records one mutation that tells
what it did, or nothing where it did nothing,
  if and only if
its mutation tells the version of its target, it found something to do, and the row that it read is
the one that it replaced. -/
theorem audit_faithful_iff (py : Builtins) (hcal : Function.Injective cal.isoformat)
    {h : History State Op Reply} (hr : (system py cal).Reachable h)
    (hviews : ∀ n, view n ∈ h.states)
    (hrequest : op.request ≠ none) (hnew : ¬op.Seen view)
    (hsucceeds : (commit py cal op view h.cur).2.Succeeds) :
    FaithfullyAudited cal h.cur (commit py cal op view h.cur).1 ↔
      op.TellsVersion ∧ ¬op.Idle h.cur ∧ op.ReadsCurrent view h.cur := by
  have hlater := fun n => (versions_stable py cal).rel_mem hr (hviews n)
  rcases commit_outcome py cal op view h.cur with ⟨e, hraised⟩ | hanswers | hcommits
  · rw [hraised] at hsucceeds
    exact hsucceeds.elim
  · obtain ⟨request, hrequest⟩ := Option.ne_none_iff_exists'.mp hrequest
    exact absurd (hanswers.1 request hrequest) hnew
  · obtain ⟨m, hinserted, hdescribes⟩ :=
      hcommits.audit hcal hrequest (fun n => (hlater n).1) fun n => (hlater n).2
    rw [audited_iff hinserted, hdescribes]

/-! ## A Thing that is archived twice -/

/-- A calendar that writes each date as a tally of its own. -/
def tallies : Calendar where
  fromisoformat _ := none
  isoformat d := String.ofList (List.replicate (Encodable.encode (d.wall, d.utcoffset)) '|')

theorem tallies_injective : Function.Injective tallies.isoformat := by
  rintro ⟨wall, utcoffset⟩ ⟨wall', utcoffset'⟩ h
  have hlength := congrArg List.length (String.ofList_injective h)
  simp only [List.length_replicate] at hlength
  obtain ⟨rfl, rfl⟩ := Prod.mk.inj (Encodable.encode_injective hlength)
  rfl

/-- The creation of a Thing is told. -/
theorem audit_faithful_iff_createMove :
    FaithfullyAudited tallies {} (commit noRepr tallies createMove (fun _ => {}) {}).1 := by
  have hr := (system noRepr tallies).serial_reachable (s := {}) rfl []
  have hnew : ¬createMove.Seen fun _ => {} := by
    rintro ⟨_, _, -, hseen⟩
    exact hseen rfl
  have hsucceeds : (commit noRepr tallies createMove (fun _ => {}) {}).2.Succeeds := by
    have hreply : (commit noRepr tallies createMove (fun _ => {}) {}).2 = moveCreated := by
      decide +kernel
    rw [hreply]
    trivial
  have hrequest : createMove.request ≠ none := Option.some_ne_none (1, "move")
  have hidle : ¬createMove.Idle {} := id
  exact (audit_faithful_iff noRepr tallies_injective hr (fun _ => .head _) hrequest hnew
    hsucceeds).mpr ⟨trivial, hidle, trivial⟩

/-- Thing 10 is archived. -/
def archivedMove : State :=
  ((system noRepr noDates).serial {}
    (createMoves ++ [.changeArchive (archiveMove true "first") (stampsFrom 30 1)])).cur

/-- Thing 10 is archived again, under another key. -/
def archiveAgain : ChangeArchive := { archiveMove true "second" with expectedVersion := 2 }

/-- An archived Thing is archived again: every Thing stays as it was, and a mutation and an event of
the second archiving are recorded. -/
theorem archived_twice_recorded :
    ∃ s' outcome, commit noRepr noDates (.changeArchive archiveAgain (stampsFrom 40 2))
        (fun _ => archivedMove) archivedMove = (s', .outcome outcome) ∧
      outcome.data.get "replayed" = some (.bool false) ∧ s'.things = archivedMove.things ∧
      s'.mutations.rows.length = archivedMove.mutations.rows.length + 1 ∧
      s'.timeline.rows.length = archivedMove.timeline.rows.length + 1 := by
  refine ⟨_, _, Prod.ext rfl (by rfl), ?_, ?_, ?_, ?_⟩ <;> decide +kernel

end PersonalState
