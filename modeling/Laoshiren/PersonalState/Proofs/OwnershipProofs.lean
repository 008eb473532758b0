import Laoshiren.PersonalState.Proofs.ReplayProofs
import Laoshiren.PersonalState.Proofs.TombstoneProofs
import Laoshiren.PersonalState.System

/-!
# Proofs: whose rows the Personal State holds

Whatever the users write, and however their transactions interleave, a row only ever refers to what
is of its own user, and a transaction of one user leaves alone the rows of every other one.
-/

namespace PersonalState

open Raise Runtime

variable {py : Builtins} {cal : Calendar} {fresh : ℕ → Stamp} {view : ℕ → State}
  {base s s' mid : State}
  {reply : Reply} {op : Op} {gives : UUID → UUID → Prop}
  {userId userId' thingId : UUID} {thingIds taskIds sourceIds : List UUID}

/-! ## What stays the user's -/

/-- What is the user's stays so. -/
structure Grounds (s base : State) : Prop where
  things : ∀ userId id, s.Owns userId id → base.Owns userId id
  tasks : ∀ userId id, s.OwnsTask userId id → base.OwnsTask userId id
  sources : ∀ userId id, s.OwnsSource userId id → base.OwnsSource userId id

theorem Grounds.of_later (hlater : ThingsLater s base) (hkept : Kept s base) : Grounds s base := by
  refine ⟨?_, ?_, ?_⟩
  · rintro userId _ ⟨thing, hthing, rfl, huser⟩
    obtain ⟨thing', hthing', hid, hthingLater⟩ := hlater thing hthing
    exact ⟨thing', hthing', hid, hthingLater.userId.trans huser⟩
  · rintro userId _ ⟨task, htask, rfl, huser⟩
    obtain ⟨task', htask', hid, huser'⟩ := hkept.tasks task htask
    exact ⟨task', htask', hid, huser'.trans huser⟩
  · rintro userId _ ⟨source, hsource, rfl, huser⟩
    obtain ⟨source', hsource', hid, huser'⟩ := hkept.sources source hsource
    exact ⟨source', hsource', hid, huser'.trans huser⟩

theorem State.OwnsRefs.mono (h : s.OwnsRefs userId thingIds taskIds sourceIds)
    (hgrounds : Grounds s base) : base.OwnsRefs userId thingIds taskIds sourceIds :=
  ⟨fun id hid => hgrounds.things _ _ (h.things id hid),
    fun id hid => hgrounds.tasks _ _ (h.tasks id hid),
    fun id hid => hgrounds.sources _ _ (h.sources id hid)⟩

theorem State.OwnedIn.mono (h : s.OwnedIn gives mid) (hgrounds : Grounds s base) :
    base.OwnedIn gives mid where
  things r hr := (h.things r hr).mono hgrounds
  tasks r hr := (h.tasks r hr).mono hgrounds
  dates r hr := (h.dates r hr).imp fun _ => And.imp_right fun hrefs => hrefs.mono hgrounds
  blockers r hr := (h.blockers r hr).imp fun _ => And.imp_right fun hrefs => hrefs.mono hgrounds
  contextEntries r hr :=
    (h.contextEntries r hr).imp fun _ => And.imp_right fun hrefs => hrefs.mono hgrounds
  thingSources r hr := (h.thingSources r hr).imp fun _ hrefs => hrefs.mono hgrounds
  relations r hr := (h.relations r hr).imp fun _ hrefs => hrefs.mono hgrounds
  automations r hr := (h.automations r hr).mono hgrounds
  memories r hr := (h.memories r hr).mono hgrounds
  threads r hr := (h.threads r hr).mono hgrounds
  mutations r hr := (h.mutations r hr).mono hgrounds
  timeline r hr := (h.timeline r hr).mono hgrounds

/-- A Thing is of one user. -/
theorem State.Owns.unique (h : s.Owns userId thingId) (h' : s.Owns userId' thingId) :
    userId = userId' := by
  obtain ⟨thing, hthing, hid, rfl⟩ := h
  obtain ⟨thing', hthing', hid', rfl⟩ := h'
  rw [Table.eq_of_conflict hthing hthing' (hid.trans hid'.symm)]

theorem ownsRefs_nil : s.OwnsRefs userId [] [] [] :=
  ⟨List.forall_mem_nil _, List.forall_mem_nil _, List.forall_mem_nil _⟩

/-- References to a Thing alone. -/
theorem ownsRefs_thing (h : s.Owns userId thingId) : s.OwnsRefs userId [thingId] [] [] := by
  refine ⟨fun id hid => ?_, List.forall_mem_nil _, List.forall_mem_nil _⟩
  rwa [List.mem_singleton.mp hid]

/-- A Thing that a statement found. -/
theorem owns_of_get {thing : Thing} {n : ℕ} (hgrounds : Grounds (view n) base)
    (h : ThingRepository.get userId thingId (view n).things = some thing) :
    base.Owns userId thingId := by
  obtain ⟨hmem, hid, huser, -⟩ := ThingRepository.get_eq_some h
  exact hgrounds.things _ _ ⟨thing, hmem, hid, huser⟩

theorem owns_of_isSome {n : ℕ} (hgrounds : Grounds (view n) base)
    (h : (ThingRepository.get userId thingId (view n).things).isSome = true) :
    base.Owns userId thingId := by
  obtain ⟨thing, hthing⟩ := Option.isSome_iff_exists.mp h
  exact owns_of_get hgrounds hthing

/-! ## What a transaction looks up -/

/-- What a transaction looked up of the ids that it stores, where that is more than a Thing that it
names anyway. -/
def Op.LooksUp (view : ℕ → State) : Op → Prop
  | .setDeadline c _ =>
    ∀ id ∈ c.sourceId, (SourceRepository.get c.userId id (view 2).sources).isSome = true
  | .createBlocker c _ =>
    (∀ id ∈ c.taskId, (TaskRepository.get c.userId id (view 2).tasks).isSome = true) ∧
      ∀ id ∈ c.sourceId, (SourceRepository.get c.userId id (view 3).sources).isSome = true
  | .createAutomation c _ =>
    (∀ id ∈ c.thingId, (ThingRepository.get c.userId id (view 1).things).isSome = true) ∧
      (∀ id ∈ c.taskId, (TaskRepository.get c.userId id (view 2).tasks).isSome = true) ∧
      ∀ id ∈ c.sourceId, (SourceRepository.get c.userId id (view 3).sources).isSome = true
  | .createMemory c _ =>
    (∀ id ∈ c.thingId, (ThingRepository.get c.userId id (view 1).things).isSome = true) ∧
      ∀ id ∈ c.sourceIds, ∃ n, (SourceRepository.get c.userId id (view n).sources).isSome = true
  | .createThread userId _ _ activeThingId _ =>
    ∀ id ∈ activeThingId, (ThingRepository.get userId id (view 1).things).isSome = true
  | _ => True

theorem settled_ok {α : Type} {answer : α → Reply} {result : Raises (State × α)} {law : Prop}
    (h : ∀ s' a, result = .ok (s', a) → s' = s ∨ law) : (settled s answer result).1 = s ∨ law := by
  rcases settled_cases s answer result with ⟨e, hraised⟩ | ⟨s', a, hresult, heq⟩
  · exact .inl (by rw [hraised])
  · rw [heq]
    exact h s' a hresult

theorem forall_of_all {p : UUID → Bool} {id? : Option UUID} (h : id?.all p = true) :
    ∀ id ∈ id?, p id = true := by
  rintro id ⟨⟩
  exact h

theorem isSome_of_any {α : Type} {p : α → Bool} {x : Option α} (h : x.any p = true) :
    x.isSome = true := by
  cases x with
  | none => cases h
  | some _ => rfl

/-- A transaction that changes anything looked up what it stores. -/
theorem commit_looksUp (py : Builtins) (cal : Calendar) (op : Op) (view : ℕ → State) (s : State) :
    (commit py cal op view s).1 = s ∨ op.LooksUp view := by
  cases op with
  | setDeadline c fresh =>
    refine settled_ok fun s' a h => ?_
    obtain ⟨db', hrecords, rfl⟩ := onRecords_eq_ok.mp h
    simp only [applySetDeadlineAt, bind_eq_ok, ensure_eq_ok] at hrecords
    obtain ⟨_, -, _, -, _, -, hrecords⟩ := hrecords
    split at hrecords
    · simp only [bind_eq_ok, pure_eq_ok, Prod.mk.injEq] at hrecords
      obtain ⟨_, -, rfl, -⟩ := hrecords
      exact .inl rfl
    · simp only [bind_eq_ok, ensure_eq_ok] at hrecords
      obtain ⟨_, -, _, -, _, hsource, -⟩ := hrecords
      exact .inr (forall_of_all hsource)
  | createBlocker c fresh =>
    refine settled_ok fun s' a h => ?_
    simp only [applyCreateBlocker, bind_eq_ok] at h
    obtain ⟨_, -, h⟩ := h
    split at h
    · simp only [bind_eq_ok, pure_eq_ok, Prod.mk.injEq] at h
      obtain ⟨_, -, rfl, -⟩ := h
      exact .inl rfl
    · simp only [bind_eq_ok, ensure_eq_ok] at h
      obtain ⟨_, -, _, htask, _, hsource, -⟩ := h
      exact .inr ⟨fun id hid => isSome_of_any (forall_of_all htask id hid), forall_of_all hsource⟩
  | createAutomation c stamp =>
    refine settled_ok fun s' a h => ?_
    simp only [applyCreateAutomation, bind_eq_ok] at h
    obtain ⟨_, -, h⟩ := h
    split at h
    · simp only [pure_eq_ok, Prod.mk.injEq] at h
      exact .inl h.1.symm
    · simp only [bind_eq_ok, ensure_eq_ok] at h
      obtain ⟨_, hthing, _, htask, _, hsource, -⟩ := h
      exact .inr ⟨forall_of_all hthing, fun id hid => isSome_of_any (forall_of_all htask id hid),
        forall_of_all hsource⟩
  | createMemory c stamp =>
    refine settled_ok fun s' a h => ?_
    simp only [applyCreateMemory, bind_eq_ok] at h
    obtain ⟨_, -, _, -, _, -, _, -, h⟩ := h
    split at h
    · simp only [pure_eq_ok, Prod.mk.injEq] at h
      exact .inl h.1.symm
    split at h
    · simp only [pure_eq_ok, Prod.mk.injEq] at h
      exact .inl h.1.symm
    split at h
    · simp only [pure_eq_ok, Prod.mk.injEq] at h
      exact .inl h.1.symm
    · simp only [bind_eq_ok, ensure_eq_ok] at h
      obtain ⟨_, hthing, _, hsources, -⟩ := h
      refine .inr ⟨forall_of_all hthing, fun id hid => ?_⟩
      obtain ⟨i, hi, rfl⟩ := List.getElem_of_mem hid
      have hzip : (c.sourceIds[i], i) ∈ c.sourceIds.zipIdx := by
        rw [List.mem_zipIdx_iff_getElem?]
        exact List.getElem?_eq_getElem hi
      exact ⟨i + 3, List.all_eq_true.mp hsources _ hzip⟩
  | createThread userId title key activeThingId stamp =>
    refine settled_ok fun s' a h => ?_
    simp only [applyCreateThread, createThread, bind_eq_ok, pure_eq_ok, Prod.mk.injEq,
      Prod.exists] at h
    obtain ⟨_, _, ⟨_, -, h⟩, rfl, -⟩ := h
    split at h
    · simp only [pure_eq_ok, Prod.mk.injEq] at h
      obtain ⟨rfl, -⟩ := h
      exact .inl rfl
    · simp only [bind_eq_ok, ensure_eq_ok] at h
      obtain ⟨_, hknown, -⟩ := h
      refine .inr ?_
      rintro id ⟨⟩
      rcases hknown with hnone | hknown
      · cases hnone
      · exact hknown
  | _ => exact .inr trivial

/-! ## What a transaction stores -/

theorem State.OwnsRefs.thing (h : s.OwnsRefs userId [thingId] taskIds sourceIds) :
    s.Owns userId thingId := h.things thingId (.head _)

theorem owns_of_option {thingId? : Option UUID}
    (h : s.OwnsRefs userId thingId?.toList taskIds sourceIds) :
    ∀ id ∈ thingId?, s.Owns userId id := fun id hid => h.things id (Option.mem_toList.mpr hid)

theorem ownsRefs_of_option {thingId? : Option UUID} (h : ∀ id ∈ thingId?, s.Owns userId id) :
    s.OwnsRefs userId thingId?.toList [] [] :=
  ⟨fun id hid => h id (Option.mem_toList.mp hid), List.forall_mem_nil _, List.forall_mem_nil _⟩

/-- A row that moves from one Thing of a user to another. -/
theorem State.OwnsRefs.moved {thingId' : UUID}
    (h : s.OwnsRefs userId [thingId] taskIds sourceIds) (hfrom : s.Owns userId' thingId)
    (hto : s.Owns userId' thingId') : s.OwnsRefs userId [thingId'] taskIds sourceIds := by
  obtain rfl := h.thing.unique hfrom
  refine ⟨fun id hid => ?_, h.tasks, h.sources⟩
  rwa [List.mem_singleton.mp hid]

theorem task_of_get {task : Task} {taskId : UUID} {n : ℕ}
    (h : TaskRepository.get userId taskId (view n).tasks = some task) :
    task ∈ (view n).tasks ∧ task.id = taskId ∧ task.userId = userId := by
  obtain ⟨hmem, hp⟩ := Table.get_eq_some h
  simp only [decide_eq_true_eq] at hp
  exact ⟨hmem, hp⟩

theorem ownsTask_of_isSome {taskId : UUID} {n : ℕ} (hgrounds : Grounds (view n) base)
    (h : (TaskRepository.get userId taskId (view n).tasks).isSome = true) :
    base.OwnsTask userId taskId := by
  obtain ⟨task, htask⟩ := Option.isSome_iff_exists.mp h
  exact hgrounds.tasks _ _ ⟨task, task_of_get htask⟩

theorem ownsSource_of_isSome {sourceId : UUID} {n : ℕ} (hgrounds : Grounds (view n) base)
    (h : (SourceRepository.get userId sourceId (view n).sources).isSome = true) :
    base.OwnsSource userId sourceId := by
  obtain ⟨source, hsource⟩ := Option.isSome_iff_exists.mp h
  obtain ⟨hmem, hp⟩ := Table.get_eq_some hsource
  simp only [decide_eq_true_eq] at hp
  exact hgrounds.sources _ _ ⟨source, hmem, hp.1, hp.2.1⟩

theorem Recorded.ownedIn {m : StateMutation} {event : Option TimelineEvent}
    (h : Recorded m event mid s') (hmid : base.OwnedIn gives mid)
    (hm : ∀ id ∈ m.thingId, base.Owns m.userId id)
    (he : ∀ e ∈ event, base.Owns e.userId e.thingId) : base.OwnedIn gives s' := by
  rw [h.same]
  refine { hmid with
    mutations := Table.forall_insert? hmid.mutations h.mutation (ownsRefs_of_option hm)
    timeline := ?_ }
  have hevent := h.event
  cases event with
  | none =>
    have htimeline : mid.timeline = s'.timeline := Option.some.inj hevent
    show ∀ e ∈ s'.timeline, base.OwnsRefs e.userId [e.thingId] [] []
    rw [← htimeline]
    exact hmid.timeline
  | some e => exact Table.forall_insert? hmid.timeline hevent (ownsRefs_thing (he e rfl))

/-- A write on a Thing that keeps its redirect. -/
theorem ownedIn_setThing {thing thing' : Thing} (hold : base.OwnedIn gives s)
    (hwrites : Writes view s thing thing') (hlater : ∀ n, ThingsLater (view n) s)
    (hrefs : base.OwnsRefs thing'.userId thing'.mergedIntoThingId.toList [] []) :
    base.OwnedIn gives (s.setThing thing thing') := by
  refine { hold with things := fun r hr => ?_ }
  rcases (hwrites.mem_iff hlater).mp hr with rfl | ⟨hr, -⟩
  · exact hrefs
  · exact hold.things r hr

/-- A Thing that a write read keeps its redirect. -/
theorem Writes.ownsRefs {thing thing' : Thing} (hold : base.OwnedIn gives s)
    (hwrites : Writes view s thing thing') (hlater : ∀ n, ThingsLater (view n) s)
    (hmerged : thing'.mergedIntoThingId = thing.mergedIntoThingId) :
    base.OwnsRefs thing'.userId thing'.mergedIntoThingId.toList [] [] := by
  rw [hwrites.userId_eq, hmerged]
  exact hold.things thing (hwrites.mem hlater)

/-- A write on a Task that keeps its Thing. -/
theorem ownedIn_setTask {task task' : Task} (hold : base.OwnedIn gives s) :
    base.OwnedIn gives (s.setTask task task') :=
  { hold with tasks := Table.forall_of_rows hold.tasks rfl fun r hr _ => hold.tasks r hr }

theorem ownedIn_deleteOwned {id : UUID} (hold : base.OwnedIn gives s) :
    base.OwnedIn gives (deleteOwnedComponents id view s) :=
  { hold with
    tasks := Table.forall_of_rows hold.tasks rfl fun _ _ _ => ownsRefs_nil
    contextEntries := Table.forall_delete hold.contextEntries
    dates := Table.forall_delete hold.dates
    blockers := Table.forall_delete hold.blockers
    thingSources := Table.forall_delete hold.thingSources
    relations := Table.forall_delete hold.relations }

theorem forall_unsetPrimary {dates : Table ThingDate} {id : UUID} {kind : ThingDateType}
    (h : ∀ r ∈ dates, ∃ userId, gives userId r.id ∧
      base.OwnsRefs userId [r.thingId] [] r.sourceId.toList) :
    ∀ r ∈ ThingDateRepository.unsetPrimary id kind dates,
      ∃ userId, gives userId r.id ∧ base.OwnsRefs userId [r.thingId] [] r.sourceId.toList :=
  Table.forall_of_rows h rfl fun r hr _ => h r hr

theorem forall_corrected {c : UpdateDate} {thing : Thing} {date date' : ThingDate}
    {dates before : Table ThingDate} {updated : Bool} {v : ℤ}
    (h : ThingDateRepository.update date' v (c.datesBefore thing date before) =
      some (dates, updated))
    (hbefore : ∀ r ∈ before, ∃ userId, gives userId r.id ∧
      base.OwnsRefs userId [r.thingId] [] r.sourceId.toList) :
    ∀ r ∈ dates, ∃ userId, gives userId r.id ∧
      base.OwnsRefs userId [r.thingId] [] r.sourceId.toList := by
  simp only [ThingDateRepository.update, Option.map_eq_some_iff, Prod.mk.injEq] at h
  obtain ⟨_, hupdate, rfl, -⟩ := h
  have hdemoted : ∀ r ∈ c.datesBefore thing date before,
      ∃ userId, gives userId r.id ∧ base.OwnsRefs userId [r.thingId] [] r.sourceId.toList := by
    unfold UpdateDate.datesBefore
    split
    · exact forall_unsetPrimary hbefore
    · exact hbefore
  exact Table.forall_of_rows hdemoted (Table.rows_update? hupdate) fun r hr _ => hdemoted r hr

theorem forall_updatedEntry {entry : ThingContextEntry} {version : ℤ}
    {entries : Table ThingContextEntry}
    (h : ∀ r ∈ entries, ∃ userId, gives userId r.id ∧ base.OwnsRefs userId [r.thingId] [] []) :
    ∀ r ∈ (ContextEntryRepository.update entry version entries).1,
      ∃ userId, gives userId r.id ∧ base.OwnsRefs userId [r.thingId] [] [] :=
  Table.forall_of_rows h rfl fun r hr _ => h r hr

theorem forall_superseded {c : CreateMemory} {now : Timestamp} {memories before : Table Memory}
    {superseded : Option Memory} (h : c.supersede now view memories = .ok (superseded, before))
    (hmemories : ∀ r ∈ memories, base.OwnsRefs r.userId r.thingId.toList [] r.sourceIds) :
    ∀ r ∈ before, base.OwnsRefs r.userId r.thingId.toList [] r.sourceIds := by
  unfold CreateMemory.supersede at h
  split at h
  · simp only [pure_eq_ok, Prod.mk.injEq] at h
    rwa [← h.2]
  · simp only [bind_eq_ok, orRaise_eq_ok, ensure_eq_ok, pure_eq_ok, Prod.mk.injEq] at h
    obtain ⟨_, hupdate, _, -, -, rfl⟩ := h
    exact Table.forall_of_rows hmemories (Table.rows_update? hupdate) fun r hr _ => hmemories r hr

/-- The links that a merge copies. -/
theorem forall_copySources {canonicalThingId : UUID} {found : List ThingSource}
    {t : Table ThingSource} {kind : ThingSource → Prop} (ht : ∀ r ∈ t, kind r)
    (hfound : ∀ r ∈ found, kind { r with thingId := canonicalThingId }) :
    ∀ r ∈ copySources canonicalThingId found t, kind r := by
  unfold copySources
  induction found generalizing t with
  | nil => exact ht
  | cons source found ih =>
    exact ih (Table.forall_insertOrIgnore ht (hfound source (.head _)))
      fun r hr => hfound r (.tail _ hr)

/-- A merge moves rows from one Thing of the user to another. -/
theorem ownedIn_rebind {duplicateThingId canonicalThingId : UUID}
    (h : rebindMergedReferences duplicateThingId canonicalThingId view s = .ok s')
    (hold : base.OwnedIn gives s) (hseen : ∀ n, base.OwnedIn gives (view n))
    (hduplicate : base.Owns userId duplicateThingId)
    (hcanonical : base.Owns userId canonicalThingId) : base.OwnedIn gives s' := by
  simp only [rebindMergedReferences, bind_eq_ok, orRaise_eq_ok, pure_eq_ok] at h
  obtain ⟨dates, hdates, rfl⟩ := h
  refine { hold with
    tasks := ?_
    dates := ?_
    blockers := ?_
    contextEntries := ?_
    thingSources := ?_
    automations := ?_
    memories := ?_
    threads := ?_ }
  · refine Table.forall_of_rows hold.tasks rfl fun r hr hp => ?_
    have hthing : r.thingId = some duplicateThingId := of_decide_eq_true (Table.foundIn_iff.mp hp).1
    have hrefs := hold.tasks r hr
    rw [hthing] at hrefs
    exact hrefs.moved hduplicate hcanonical
  · refine Table.forall_of_rows hold.dates (Table.rows_update? hdates) fun r hr hp => ?_
    have hthing : r.thingId = duplicateThingId := of_decide_eq_true (Table.foundIn_iff.mp hp).1
    obtain ⟨userId', hgiven, hrefs⟩ := hold.dates r hr
    rw [hthing] at hrefs
    exact ⟨userId', hgiven, hrefs.moved hduplicate hcanonical⟩
  · refine Table.forall_of_rows hold.blockers rfl fun r hr hp => ?_
    have hthing : r.thingId = duplicateThingId := of_decide_eq_true (Table.foundIn_iff.mp hp).1
    obtain ⟨userId', hgiven, hrefs⟩ := hold.blockers r hr
    rw [hthing] at hrefs
    exact ⟨userId', hgiven, hrefs.moved hduplicate hcanonical⟩
  · refine Table.forall_of_rows hold.contextEntries rfl fun r hr hp => ?_
    have hthing : r.thingId = duplicateThingId := of_decide_eq_true (Table.foundIn_iff.mp hp).1
    obtain ⟨userId', hgiven, hrefs⟩ := hold.contextEntries r hr
    rw [hthing] at hrefs
    exact ⟨userId', hgiven, hrefs.moved hduplicate hcanonical⟩
  · refine Table.forall_delete (forall_copySources hold.thingSources fun r hr => ?_)
    obtain ⟨hmem, hp⟩ := Table.mem_select.mp hr
    have hthing : r.thingId = duplicateThingId := of_decide_eq_true hp
    obtain ⟨userId', hrefs⟩ := (hseen 8).thingSources r hmem
    rw [hthing] at hrefs
    exact ⟨userId', hrefs.moved hduplicate hcanonical⟩
  · refine Table.forall_of_rows hold.automations rfl fun r hr hp => ?_
    have hthing : r.thingId = some duplicateThingId := of_decide_eq_true (Table.foundIn_iff.mp hp).1
    have hrefs := hold.automations r hr
    rw [hthing] at hrefs
    exact hrefs.moved hduplicate hcanonical
  · refine Table.forall_of_rows hold.memories rfl fun r hr hp => ?_
    have hthing : r.thingId = some duplicateThingId := of_decide_eq_true (Table.foundIn_iff.mp hp).1
    have hrefs := hold.memories r hr
    rw [hthing] at hrefs
    exact hrefs.moved hduplicate hcanonical
  · refine Table.forall_of_rows hold.threads rfl fun r hr hp => ?_
    have hthing : r.activeThingId = some duplicateThingId :=
      of_decide_eq_true (Table.foundIn_iff.mp hp).1
    have hrefs := hold.threads r hr
    rw [hthing] at hrefs
    exact hrefs.moved hduplicate hcanonical

/-- An audit of a write on a Thing of the user. -/
theorem Recorded.ownedIn_of_thing {m : StateMutation} {event : TimelineEvent}
    (h : Recorded m (some event) mid s') (hmid : base.OwnedIn gives mid)
    (hthing : base.Owns m.userId thingId) (hm : m.thingId = some thingId)
    (he : event.userId = m.userId ∧ event.thingId = thingId) : base.OwnedIn gives s' := by
  refine h.ownedIn hmid (fun id hid => ?_) fun e hevent => ?_
  · rw [hm] at hid
    obtain rfl := Option.some.inj hid
    exact hthing
  · obtain rfl := Option.some.inj hevent
    rwa [he.1, he.2]

section Stores

-- every view is of the history that leads to `base`, and so is the state that a transaction commits
-- on
variable (hgrounds : ∀ n, Grounds (view n) base) (hseen : ∀ n, base.OwnedIn gives (view n))
  (hlater : ∀ n, ThingsLater (view n) s) (hold : base.OwnedIn gives s)

include hold

theorem CreateThing.Creates.owned {c : CreateThing} (h : c.Creates fresh s s')
    (hnew : ∀ thing ∈ s'.things, base.Owns thing.userId thing.id) : base.OwnedIn gives s' := by
  obtain ⟨-, things, hthings, hrecorded⟩ := h
  have howns : base.Owns c.userId (fresh 0).id := by
    refine hnew (c.thing (fresh 0)) ?_
    rw [hrecorded.things]
    exact (Table.mem_insert? hthings).mpr (.inr rfl)
  exact hrecorded.ownedIn_of_thing
    { hold with things := Table.forall_insert? hold.things hthings ownsRefs_nil }
    howns rfl ⟨rfl, rfl⟩

theorem TransitionTask.Changes.owned {c : TransitionTask} {task task' : Task}
    (h : c.Changes fresh view s s' task task')
    (hseen : ∀ n, base.OwnedIn gives (view n)) : base.OwnedIn gives s' := by
  obtain ⟨hmem, -, huser⟩ := task_of_get h.found
  have hrefs := owns_of_option ((hseen 1).tasks task hmem)
  rw [huser, ← h.writes.thingId_eq] at hrefs
  refine h.recorded.ownedIn (ownedIn_setTask hold) ?_ fun e he => ?_
  · rw [h.writes.thingId_eq] at hrefs
    exact hrefs
  · obtain ⟨id, hid, rfl⟩ := Option.map_eq_some_iff.mp he
    exact hrefs id hid

theorem CompleteTask.Completes.owned {c : CompleteTask} {task task' : Task}
    (h : c.Completes cal fresh view s s' task task')
    (hseen : ∀ n, base.OwnedIn gives (view n)) : base.OwnedIn gives s' := by
  obtain ⟨hmem, -, huser⟩ := task_of_get h.found
  have hrefs := owns_of_option ((hseen 1).tasks task hmem)
  rw [huser, ← h.writes.thingId_eq] at hrefs
  refine h.recorded.ownedIn (ownedIn_setTask hold) ?_ fun e he => ?_
  · rw [h.writes.thingId_eq] at hrefs
    exact hrefs
  · obtain ⟨id, hid, rfl⟩ := Option.map_eq_some_iff.mp he
    exact hrefs id hid

include hgrounds

theorem CreateTask.Creates.owned {c : CreateTask} {thing : Option Thing}
    (h : c.Creates cal fresh view s s' thing) : base.OwnedIn gives s' := by
  obtain ⟨tasks, htasks, hrecorded⟩ := h.stored
  have howns : ∀ t, thing = some t → base.Owns c.userId t.id := fun t ht =>
    owns_of_get (hgrounds 1) (h.thing_eq.2 t ht)
  have hrefs : ∀ id ∈ thing.map Thing.id, base.Owns c.userId id := by
    intro id hid
    obtain ⟨t, ht, rfl⟩ := Option.map_eq_some_iff.mp hid
    exact howns t ht
  refine hrecorded.ownedIn { hold with
    tasks := Table.forall_insert? hold.tasks htasks (ownsRefs_of_option hrefs) } hrefs ?_
  intro e he
  obtain ⟨t, ht, rfl⟩ := Option.map_eq_some_iff.mp he
  exact howns t ht

theorem CreateBlocker.Creates.owned {c : CreateBlocker}
    (h : c.Creates fresh view s s')
    (hlooks : (Op.createBlocker c fresh).LooksUp view) (hgives : gives c.userId (fresh 0).id) :
    base.OwnedIn gives s' := by
  obtain ⟨blockers, hblockers, hrecorded⟩ := h.stored
  obtain ⟨htask, hsource⟩ := hlooks
  have howns := owns_of_isSome (hgrounds 1) h.found
  refine hrecorded.ownedIn_of_thing { hold with
    blockers := Table.forall_insert? hold.blockers hblockers ⟨c.userId, hgives, ?_⟩ }
    howns rfl ⟨rfl, rfl⟩
  exact ⟨(ownsRefs_thing howns).things,
    fun id hid => ownsTask_of_isSome (hgrounds 2) (htask id (Option.mem_toList.mp hid)),
    fun id hid => ownsSource_of_isSome (hgrounds 3) (hsource id (Option.mem_toList.mp hid))⟩

theorem ResolveBlocker.Resolves.owned {c : ResolveBlocker} {blocker : Blocker}
    (h : c.Resolves fresh view s s' blocker) : base.OwnedIn gives s' := by
  obtain ⟨-, hp⟩ := Table.get_eq_some h.found
  simp only [decide_eq_true_eq, List.any_eq_true] at hp
  obtain ⟨-, thing, hthing, hid, huser⟩ := hp
  have howns : base.Owns c.userId blocker.thingId :=
    (hgrounds 1).things _ _ ⟨thing, hthing, hid, huser⟩
  refine h.recorded.ownedIn_of_thing { hold with
    blockers := Table.forall_of_rows hold.blockers rfl fun r hr _ => hold.blockers r hr }
    howns rfl ⟨rfl, rfl⟩

theorem SetThingContext.Sets.owned {c : SetThingContext} {existing : Option ThingContextEntry}
    (h : c.Sets fresh view s s' existing) (hgives : gives c.userId (fresh 0).id) :
    base.OwnedIn gives s' := by
  have howns := owns_of_isSome (hgrounds 1) h.found
  obtain ⟨-, hadds⟩ | ⟨entry, -, hrevises⟩ := h.stored
  · obtain ⟨contextEntries, hentries, hrecorded⟩ := hadds.stored
    exact hrecorded.ownedIn_of_thing { hold with
      contextEntries := Table.forall_insert? hold.contextEntries hentries
        ⟨c.userId, hgives, ownsRefs_thing howns⟩ } howns rfl ⟨rfl, rfl⟩
  · exact hrevises.recorded.ownedIn_of_thing
      { hold with contextEntries := forall_updatedEntry hold.contextEntries } howns rfl ⟨rfl, rfl⟩

theorem LinkToThing.Links.owned {c : LinkToThing} (h : c.Links fresh view s s') :
    base.OwnedIn gives s' := by
  have howns := owns_of_isSome (hgrounds 1) h.found
  have hlink : base.OwnsRefs c.userId [c.thingId] [] [c.sourceId] := by
    refine ⟨(ownsRefs_thing howns).things, List.forall_mem_nil _, fun id hid => ?_⟩
    rw [List.mem_singleton.mp hid]
    exact ownsSource_of_isSome (hgrounds 2) h.foundSource
  refine h.recorded.ownedIn { hold with
    thingSources := Table.forall_insertOrIgnore hold.thingSources ⟨c.userId, hlink⟩ } ?_ ?_
  · intro id hid
    obtain rfl := Option.some.inj hid
    exact howns
  · intro e he
    split at he
    · obtain rfl := Option.some.inj he
      exact howns
    · cases he

theorem AddRelation.Relates.owned {c : AddRelation} (h : c.Relates fresh view s s') :
    base.OwnedIn gives s' := by
  have hfrom := owns_of_isSome (hgrounds 1) h.found
  have hto := owns_of_isSome (hgrounds 2) h.foundOther
  have hrelation : base.OwnsRefs c.userId [c.fromThingId, c.toThingId] [] [] := by
    refine ⟨fun id hid => ?_, List.forall_mem_nil _, List.forall_mem_nil _⟩
    simp only [List.mem_cons, List.not_mem_nil, or_false] at hid
    rcases hid with rfl | rfl
    · exact hfrom
    · exact hto
  refine h.recorded.ownedIn { hold with
    relations := Table.forall_insertOrIgnore hold.relations ⟨c.userId, hrelation⟩ } ?_
    fun e he => absurd he (Option.not_mem_none e)
  intro id hid
  obtain rfl := Option.some.inj hid
  exact hfrom

include hlater

theorem UpdateThing.Revises.owned {c : UpdateThing} {thing thing' : Thing}
    (h : c.Revises fresh view s s' thing thing') : base.OwnedIn gives s' := by
  obtain ⟨hmerged, -⟩ := h.keeps
  obtain ⟨-, hid, -⟩ := ThingRepository.get_eq_some h.found
  have howns : base.Owns c.userId thing.id := hid ▸ owns_of_get (hgrounds 1) h.found
  exact h.recorded.ownedIn_of_thing
    (ownedIn_setThing hold h.writes hlater (h.writes.ownsRefs hold hlater hmerged))
    howns rfl ⟨rfl, h.writes.id_eq⟩

theorem ChangeArchive.Changes.owned {c : ChangeArchive} {thing : Thing}
    (h : c.Changes cal fresh view s s' thing) : base.OwnedIn gives s' := by
  obtain ⟨hmerged, -⟩ := c.changed_keeps thing (fresh 0).now
  obtain ⟨-, hid, -⟩ := ThingRepository.get_eq_some h.found
  have howns : base.Owns c.userId thing.id := hid ▸ owns_of_get (hgrounds 1) h.found
  exact h.recorded.ownedIn_of_thing
    (ownedIn_setThing hold h.writes hlater (h.writes.ownsRefs hold hlater hmerged))
    howns rfl ⟨rfl, h.writes.id_eq⟩

theorem DeleteThing.Deletes.owned {c : DeleteThing} {thing : Thing}
    (h : c.Deletes cal fresh view s s' thing) : base.OwnedIn gives s' := by
  obtain ⟨hmem, hp⟩ := Table.get_eq_some h.found
  simp only [decide_eq_true_eq] at hp
  have howns : base.Owns c.userId thing.id := (hgrounds 1).things _ _ ⟨thing, hmem, rfl, hp.2⟩
  have hrefs := h.writes.ownsRefs hold hlater rfl
  obtain ⟨hread, hid, huser, hcreated, hversion, hupdated⟩ := h.writes
  refine h.recorded.ownedIn_of_thing ?_ howns rfl ⟨rfl, rfl⟩
  exact ownedIn_setThing (ownedIn_deleteOwned hold)
    ⟨hread, hid, huser, hcreated, hversion, hupdated⟩ hlater hrefs

theorem SetDeadline.Adds.owned {c : SetDeadline} {thing : Thing} {value : Timestamp}
    (h : c.Adds cal fresh view s s' thing value) (hlooks : (Op.setDeadline c fresh).LooksUp view)
    (hgives : gives c.userId (fresh 0).id) : base.OwnedIn gives s' := by
  obtain ⟨-, hid, -⟩ := ThingRepository.get_eq_some h.found
  have howns : base.Owns c.userId thing.id := hid ▸ owns_of_get (hgrounds 1) h.found
  have hdate : ∃ userId, gives userId (c.date thing value (fresh 0)).id ∧
      base.OwnsRefs userId [(c.date thing value (fresh 0)).thingId] []
        (c.date thing value (fresh 0)).sourceId.toList := by
    refine ⟨c.userId, hgives, (ownsRefs_thing howns).things, List.forall_mem_nil _,
      fun id hid => ?_⟩
    exact ownsSource_of_isSome (hgrounds 2) (hlooks id (Option.mem_toList.mp hid))
  cases hprimary : c.isPrimary with
  | false =>
    obtain ⟨dates, hdates, hrecorded⟩ := h.plain hprimary
    exact hrecorded.ownedIn_of_thing
      { hold with dates := Table.forall_insert? hold.dates hdates hdate } howns rfl ⟨rfl, rfl⟩
  | true =>
    obtain ⟨dates, hwrites, hdates, hrecorded⟩ := h.primary hprimary
    have hmerged := (c.newThing_keeps thing value (fresh 0).now).1
    have hthing := ownedIn_setThing hold hwrites hlater (hwrites.ownsRefs hold hlater hmerged)
    exact hrecorded.ownedIn_of_thing
      { hthing with
        dates := Table.forall_insert? (forall_unsetPrimary hold.dates) hdates hdate }
      howns rfl ⟨rfl, rfl⟩

theorem UpdateDate.Corrects.owned {c : UpdateDate} {thing : Thing} {date : ThingDate}
    {value : Timestamp} (h : c.Corrects cal fresh view s s' thing date value) :
    base.OwnedIn gives s' := by
  obtain ⟨-, hid, -⟩ := ThingRepository.get_eq_some h.found
  have howns : base.Owns c.userId thing.id := hid ▸ owns_of_get (hgrounds 2) h.found
  obtain ⟨dates, hdates, ⟨-, -, hrecorded⟩ | ⟨-, hwrites, hrecorded⟩⟩ := h.stored
  · exact hrecorded.ownedIn_of_thing { hold with dates := forall_corrected hdates hold.dates }
      howns rfl ⟨rfl, rfl⟩
  · have hmerged := (c.newThing_keeps thing date value (fresh 0).now).1
    have hthing := ownedIn_setThing hold hwrites hlater (hwrites.ownsRefs hold hlater hmerged)
    exact hrecorded.ownedIn_of_thing { hthing with dates := forall_corrected hdates hold.dates }
      howns rfl ⟨rfl, rfl⟩

include hseen

theorem MergeThings.Merges.owned {c : MergeThings} {canonical duplicate : Thing}
    (h : c.Merges fresh view s s' canonical duplicate) : base.OwnedIn gives s' := by
  obtain ⟨-, hcanonicalId, -⟩ := ThingRepository.get_eq_some h.canonicalFound
  obtain ⟨-, hduplicateId, huser, -⟩ := ThingRepository.get_eq_some h.duplicateFound
  have hcanonical : base.Owns c.userId canonical.id :=
    hcanonicalId ▸ owns_of_get (hgrounds 1) h.canonicalFound
  have hduplicate : base.Owns c.userId duplicate.id :=
    hduplicateId ▸ owns_of_get (hgrounds 2) h.duplicateFound
  obtain ⟨s₁, hrebound, hrecorded⟩ := h.rebound
  have hthings : ∀ r ∈ (s.setThing duplicate (duplicate.merged canonical.id (fresh 0).now)).things,
      base.OwnsRefs r.userId r.mergedIntoThingId.toList [] [] := by
    refine (ownedIn_setThing hold h.writes hlater ?_).things
    show base.OwnsRefs duplicate.userId [canonical.id] [] []
    rw [huser]
    exact ownsRefs_thing hcanonical
  have hmid : base.OwnedIn gives
      { s with things := (ThingRepository.update (duplicate.merged canonical.id (fresh 0).now)
        c.expectedDuplicateVersion s.things).1 } := by
    rw [State.setThing, h.duplicateVersion] at hthings
    exact { hold with things := hthings }
  refine hrecorded.ownedIn (ownedIn_rebind hrebound hmid (fun n => hseen (n + 3)) hduplicate
    hcanonical) (fun id hid => ?_) fun e hevent => ?_
  · obtain rfl := Option.some.inj hid
    exact hduplicate
  · obtain rfl := Option.some.inj hevent
    exact hcanonical

end Stores

/-- After a transaction every row refers to what is of its own user. -/
theorem Op.Commits.ownedIn (h : op.Commits cal view s s' reply) (hlooks : op.LooksUp view)
    (hkeeps : op.KeepsOwners view) (hgives : op.GivesIds gives)
    (hlater : ∀ n, ThingsLater (view n) s)
    (hgrounds : ∀ n, Grounds (view n) base) (hseen : ∀ n, base.OwnedIn gives (view n))
    (hold : base.OwnedIn gives s) (hnew : ∀ thing ∈ s'.things, base.Owns thing.userId thing.id) :
    base.OwnedIn gives s' := by
  cases op with
  | createThing c fresh => exact h.1.owned hold hnew
  | updateThing c fresh =>
    obtain ⟨_, _, hrevises, -⟩ := h
    exact hrevises.owned hgrounds hlater hold
  | changeArchive c fresh =>
    obtain ⟨_, hchanges, -⟩ := h
    exact hchanges.owned hgrounds hlater hold
  | deleteThing c fresh =>
    obtain ⟨_, hdeletes, -⟩ := h
    exact hdeletes.owned hgrounds hlater hold
  | mergeThings c fresh =>
    obtain ⟨_, _, hmerges, -⟩ := h
    exact hmerges.owned hgrounds hseen hlater hold
  | setDeadline c fresh =>
    obtain ⟨_, _, hadds, -⟩ := h
    exact hadds.owned hgrounds hlater hold hlooks hgives
  | updateDate c fresh =>
    obtain ⟨_, _, _, hcorrects, -⟩ := h
    exact hcorrects.owned hgrounds hlater hold
  | createTask c fresh =>
    obtain ⟨_, hcreates, -⟩ := h
    exact hcreates.owned hgrounds hold
  | transitionTask c fresh =>
    obtain ⟨_, _, hchanges, -⟩ := h
    exact hchanges.owned hold hseen
  | completeTask c fresh =>
    obtain ⟨_, _, hcompletes, -⟩ := h
    exact hcompletes.owned hold hseen
  | createBlocker c fresh => exact h.1.owned hgrounds hold hlooks hgives
  | resolveBlocker c fresh =>
    obtain ⟨_, hresolves, -⟩ := h
    exact hresolves.owned hgrounds hold
  | setThingContext c fresh =>
    obtain ⟨_, hsets, -⟩ := h
    exact hsets.owned hgrounds hold hgives
  | linkToThing c fresh => exact h.1.owned hgrounds hold
  | addRelation c fresh => exact h.1.owned hgrounds hold
  | deleteFile c fresh =>
    exact h.1.recorded.ownedIn { hold with } (fun id hid => absurd hid (Option.not_mem_none id))
      fun e he => absurd he (Option.not_mem_none e)
  | createAutomation c stamp =>
    obtain ⟨trigger, automations, hautomations, rfl⟩ := h
    obtain ⟨hthing, htask, hsource⟩ := hlooks
    refine { hold with
      automations := Table.forall_insert? hold.automations hautomations ⟨?_, ?_, ?_⟩ }
    · exact fun id hid => owns_of_isSome (hgrounds 1) (hthing id (Option.mem_toList.mp hid))
    · exact fun id hid => ownsTask_of_isSome (hgrounds 2) (htask id (Option.mem_toList.mp hid))
    · exact fun id hid => ownsSource_of_isSome (hgrounds 3) (hsource id (Option.mem_toList.mp hid))
  | createMemory c stamp =>
    obtain ⟨-, -, superseded, before, memories, hbefore, hmemories, rfl⟩ := h
    obtain ⟨hthing, hsources⟩ := hlooks
    refine { hold with
      memories := Table.forall_insert? (forall_superseded hbefore hold.memories) hmemories
        ⟨?_, List.forall_mem_nil _, fun id hid => ?_⟩ }
    · exact fun id hid => owns_of_isSome (hgrounds 1) (hthing id (Option.mem_toList.mp hid))
    · obtain ⟨n, hn⟩ := hsources id hid
      exact ownsSource_of_isSome (hgrounds n) hn
  | createThread userId title key activeThingId stamp =>
    obtain ⟨thread, threads, rfl, -, rfl, hthreads, rfl⟩ := h
    exact { hold with
      threads := Table.forall_insert? hold.threads hthreads <| ownsRefs_of_option fun id hid =>
        owns_of_isSome (hgrounds 1) (hlooks id hid) }
  | automationThread c stamp =>
    obtain ⟨thread, threads, huser, -, hactive, hthreads, rfl⟩ := h
    have howns : ∀ id ∈ thread.activeThingId, base.Owns thread.userId id := by
      intro id hid
      rw [hactive] at hid
      rw [huser]
      rcases hkeeps with hnone | ⟨r, hr, hruser, hthing⟩
      · rw [hnone] at hid
        cases hid
      · rw [← hthing] at hid
        exact hruser ▸ owns_of_option ((hseen 0).automations r hr) id hid
    exact { hold with
      threads := Table.forall_insert? hold.threads hthreads (ownsRefs_of_option howns) }
  | addSource source =>
    obtain ⟨_, -, rfl⟩ := h
    exact { hold with }
  | upkeep w =>
    have heq : s' = w.apply s := h
    obtain ⟨hautomations, hmemories⟩ := hkeeps
    rw [heq]
    refine { hold with
      automations := Table.forall_of_rows hold.automations rfl fun r hr _ => ?_
      memories := Table.forall_of_rows hold.memories rfl fun r hr _ => ?_
      threads := Table.forall_of_rows hold.threads rfl fun r hr _ => ?_ }
    · obtain ⟨huser, htask, hsource⟩ := hautomations r
      rw [huser, htask, hsource, w.automations.owner_eq]
      exact hold.automations r hr
    · obtain ⟨huser, hsources⟩ := hmemories r
      rw [huser, hsources, w.memories.owner_eq]
      exact hold.memories r hr
    · obtain ⟨huser, hactive⟩ := Prod.mk.inj (w.threads.owner_eq r)
      rw [huser, hactive]
      exact hold.threads r hr

/-! ## Every history -/

theorem ownedIn_empty : base.OwnedIn gives {} := by
  constructor <;> exact fun r hr => absurd hr Table.not_mem_empty

/-- What is the user's stays so when a transaction commits. -/
theorem grounds_commit (py : Builtins) (cal : Calendar) (hlater : ∀ n, ThingsLater (view n) s) :
    Grounds s (commit py cal op view s).1 := by
  have hthings : ThingsLater s (commit py cal op view s).1 :=
    (commit_thingEffect py cal op view s).later hlater
  have hkept : Kept s (commit py cal op view s).1 := by
    rcases commit_cases py cal op view s with hsame | hcommits
    · rw [hsame]
      exact .refl s
    · exact hcommits.kept
  exact .of_later hthings hkept

theorem Grounds.trans (h : Grounds s mid) (h' : Grounds mid base) : Grounds s base where
  things userId id howns := h'.things userId id (h.things userId id howns)
  tasks userId id howns := h'.tasks userId id (h.tasks userId id howns)
  sources userId id howns := h'.sources userId id (h.sources userId id howns)

/-- Every row refers to what is of its own user, and has an id that is given to his rows. -/
theorem owned_stable (py : Builtins) (cal : Calendar) (gives : UUID → UUID → Prop) :
    Program.Stable (system py cal) (fun op view _ => op.KeepsOwners view ∧ op.GivesIds gives)
      (fun s => (True ∧ True) ∧ s.OwnedIn gives s) (fun s s' => ThingsLater s s' ∧ Kept s s') := by
  refine (((things_stable py cal).and (kept_stable py cal)).restrict
    fun _ _ _ _ => trivial).strengthen (fun s => s.OwnedIn gives s) (fun s hs => ?_) ?_
  · obtain rfl : s = {} := hs
    exact ownedIn_empty
  · rintro op view s - hlaw hviews ⟨hkeeps, hgives⟩
    show (commit py cal op view s).1.OwnedIn gives (commit py cal op view s).1
    have hlater : ∀ n, ThingsLater (view n) s := fun n => (hviews n).2.2.1
    have hgrounds : Grounds s (commit py cal op view s).1 := grounds_commit py cal hlater
    have hseen : ∀ n, Grounds (view n) (commit py cal op view s).1 := fun n =>
      (Grounds.of_later (hlater n) (hviews n).2.2.2).trans hgrounds
    rcases commit_cases py cal op view s with hsame | hcommits
    · rwa [hsame]
    rcases commit_looksUp py cal op view s with hsame | hlooks
    · rwa [hsame]
    exact hcommits.ownedIn hlooks hkeeps hgives hlater hseen
      (fun n => (hviews n).2.1.mono (hseen n)) (hlaw.mono hgrounds)
      fun thing hthing => ⟨thing, hthing, rfl, rfl⟩

theorem givesIds_any (op : Op) : op.GivesIds fun _ _ => True := by
  cases op <;> trivial

/-- User 1 merges Thing 20, with its Task, into Thing 10, while user 2 has a Thing of his own. -/
def twoUsers : List Op :=
  createMoves ++ [.createThing ⟨2, "Rent", "action", "rent", "new", none⟩ (stampsFrom 30 0),
    .createTask packBoxes (stampsFrom 40 0), .mergeThings mergeForth (stampsFrom 50 0)]

end PersonalState
