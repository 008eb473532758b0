import Laoshiren.PersonalState.Proofs.OwnershipProofs

/-!
# Proofs: a transaction of one user leaves alone the rows of every other

The update statements name a row by its id or by its Thing, seldom by its user. That they touch no
row of another user is a matter of the whole history: what the transaction looked up was of its own
user then, and whose a row is does not change until the transaction commits.
-/

namespace PersonalState

open Raise Runtime

variable {py : Builtins} {cal : Calendar} {fresh : ℕ → Stamp} {view : ℕ → State}
  {base s s' mid : State}
  {reply : Reply} {op : Op} {owner : UUID → UUID} {userId other thingId : UUID}
  {thingIds taskIds sourceIds : List UUID}

/-! ## Rows of other users -/

theorem sameIn_refl (base : State) (other : UUID) (s : State) : base.SameIn other s s where
  things := .refl _
  tasks := .refl _
  dates := .refl _
  blockers := .refl _
  contextEntries := .refl _
  thingSources := .refl _
  relations := .refl _
  automations := .refl _
  memories := .refl _
  threads := .refl _
  sources := .refl _
  mutations := .refl _
  timeline := .refl _

theorem State.SameIn.trans (h : base.SameIn other s mid) (h' : base.SameIn other mid s') :
    base.SameIn other s s' where
  things := h.things.trans h'.things
  tasks := h.tasks.trans h'.tasks
  dates := h.dates.trans h'.dates
  blockers := h.blockers.trans h'.blockers
  contextEntries := h.contextEntries.trans h'.contextEntries
  thingSources := h.thingSources.trans h'.thingSources
  relations := h.relations.trans h'.relations
  automations := h.automations.trans h'.automations
  memories := h.memories.trans h'.memories
  threads := h.threads.trans h'.threads
  sources := h.sources.trans h'.sources
  mutations := h.mutations.trans h'.mutations
  timeline := h.timeline.trans h'.timeline

/-- What hangs on a Thing of one user does not hang on one of another. -/
theorem State.Owns.not_other (h : base.Owns userId thingId) (hne : userId ≠ other) :
    ¬base.Owns other thingId := fun h' => hne (h.unique h')

/-- A row that refers to a Thing of a user is that user's. -/
theorem State.OwnsRefs.user_eq (h : base.OwnsRefs other thingIds taskIds sourceIds)
    (hmem : thingId ∈ thingIds) (howns : base.Owns userId thingId) : other = userId :=
  (h.things thingId hmem).unique howns

/-- The id of a row on a Thing of a user is one of his. -/
theorem owner_eq {id : UUID}
    (h : ∃ userId, owner id = userId ∧ base.OwnsRefs userId (thingId :: thingIds) taskIds sourceIds)
    (howns : base.Owns other thingId) : owner id = other := by
  obtain ⟨userId, howner, hrefs⟩ := h
  rw [howner]
  exact hrefs.user_eq (.head _) howns

theorem Recorded.sameIn {m : StateMutation} {event : Option TimelineEvent}
    (h : Recorded m event mid s') (hmid : base.SameIn other s mid) (hm : m.userId ≠ other)
    (he : ∀ e ∈ event, e.userId ≠ other) : base.SameIn other s s' := by
  rw [h.same]
  refine { hmid with
    mutations := hmid.mutations.trans (.insert? h.mutation hm)
    timeline := ?_ }
  have hevent := h.event
  cases event with
  | none =>
    have htimeline : mid.timeline = s'.timeline := Option.some.inj hevent
    show Table.SameOn _ s.timeline s'.timeline
    rw [← htimeline]
    exact hmid.timeline
  | some e => exact hmid.timeline.trans (.insert? hevent (he e rfl))

/-- An audit with an event of the same user. -/
theorem Recorded.sameIn_of_event {m : StateMutation} {event : TimelineEvent}
    (h : Recorded m (some event) mid s') (hmid : base.SameIn other s mid) (hm : m.userId ≠ other)
    (he : event.userId = m.userId) : base.SameIn other s s' := by
  refine h.sameIn hmid hm fun e hevent => ?_
  obtain rfl := Option.some.inj hevent
  rwa [he]

theorem sameIn_setThing {thing thing' : Thing} (hwrites : Writes view s thing thing')
    (hlater : ∀ n, ThingsLater (view n) s) (hne : thing.userId ≠ other) :
    base.SameIn other s (s.setThing thing thing') := by
  refine { sameIn_refl base other s with things := .of_rows rfl fun r hr hp => ?_ }
  have hsame : r.id = thing.id := (of_decide_eq_true hp).1.trans hwrites.id_eq
  obtain rfl := Table.eq_of_conflict hr (hwrites.mem hlater) hsame
  exact ⟨hne, hne⟩

/-- The row that a transaction loaded of its user is still his. -/
theorem user_of_evolves {α : Type} [Row α] {id : α → UUID} {user : α → UUID} {t t' : Table α}
    (h : Table.Evolves id (fun r r' => user r' = user r) t t')
    (hunique : ∀ r ∈ t', ∀ r' ∈ t', id r = id r' → r = r') {r r' : α} (hr : r ∈ t) (hr' : r' ∈ t')
    (hid : id r' = id r) : user r' = user r := by
  obtain ⟨later, hmem, hlater, huser⟩ := h r hr
  rwa [hunique r' hr' later hmem (hid.trans hlater.symm)]

theorem sameIn_setTask {task task' : Task} {n : ℕ} (hkept : Kept (view n) s)
    (hread : task ∈ (view n).tasks) (hid : task'.id = task.id) (hne : task.userId ≠ other) :
    base.SameIn other s (s.setTask task task') := by
  refine { sameIn_refl base other s with tasks := .of_rows rfl fun r hr hp => ?_ }
  have hsame : r.id = task.id := (of_decide_eq_true hp).1.trans hid
  have huser : r.userId = task.userId :=
    user_of_evolves hkept.tasks (fun _ hr _ hr' => Table.eq_of_conflict hr hr') hread hr hsame
  have hother : r.userId ≠ other := huser ▸ hne
  exact ⟨hother, hother⟩

/-! ## The statements of a deletion and of a merge -/

theorem sameIn_deleteOwned (hold : base.OwnedIn (fun userId id => owner id = userId) s)
    (howns : base.Owns userId thingId) (hne : userId ≠ other) :
    base.SameIn other s (deleteOwnedComponents thingId view s) := by
  have hnot := howns.not_other hne
  refine { sameIn_refl base other s with
    tasks := .of_rows rfl fun r hr hp => ?_
    contextEntries := .delete fun r hr hp => ?_
    dates := .delete fun r hr hp => ?_
    blockers := .delete fun r hr hp => ?_
    thingSources := .delete fun r hr hp => ?_
    relations := .delete fun r hr hp => ?_ }
  · have hthing : r.thingId = some thingId := of_decide_eq_true (Table.foundIn_iff.mp hp).1
    have huser : r.userId = userId :=
      (hold.tasks r hr).user_eq (Option.mem_toList.mpr hthing) howns
    have hother : r.userId ≠ other := huser ▸ hne
    exact ⟨hother, hother⟩
  · have hthing : r.thingId = thingId := of_decide_eq_true (Table.foundIn_iff.mp hp).1
    rwa [hthing]
  · have hthing : r.thingId = thingId := of_decide_eq_true (Table.foundIn_iff.mp hp).1
    rwa [hthing]
  · have hthing : r.thingId = thingId := of_decide_eq_true (Table.foundIn_iff.mp hp).1
    rwa [hthing]
  · have hthing : r.thingId = thingId := of_decide_eq_true (Table.foundIn_iff.mp hp).1
    rwa [hthing]
  · -- the two ends of a relation are Things of one user
    obtain ⟨userId', hrefs⟩ := hold.relations r hr
    have hends : r.fromThingId = thingId ∨ r.toThingId = thingId :=
      of_decide_eq_true (Table.foundIn_iff.mp hp).1
    have huser : userId' = userId := by
      rcases hends with rfl | rfl
      · exact hrefs.user_eq (.head _) howns
      · exact hrefs.user_eq (.tail _ (.head _)) howns
    intro hother
    exact hne (huser.symm.trans (hrefs.user_eq (.head _) hother))

theorem sameOn_copySources {canonicalThingId : UUID} {found : List ThingSource}
    {t : Table ThingSource} {kind : ThingSource → Prop}
    (hfound : ∀ r ∈ found, ¬kind { r with thingId := canonicalThingId }) :
    Table.SameOn kind t (copySources canonicalThingId found t) := by
  unfold copySources
  induction found generalizing t with
  | nil => exact .refl t
  | cons source found ih =>
    have hfirst : Table.SameOn kind t
        (t.insertOrIgnore { source with thingId := canonicalThingId }) :=
      .insertOrIgnore (hfound source (.head _))
    exact hfirst.trans (ih fun r hr => hfound r (.tail _ hr))

theorem sameIn_rebind {duplicateThingId canonicalThingId : UUID} {things : Table Thing}
    (h : rebindMergedReferences duplicateThingId canonicalThingId view { s with things } = .ok s')
    (hold : base.OwnedIn (fun userId id => owner id = userId) s)
    (hduplicate : base.Owns userId duplicateThingId)
    (hcanonical : base.Owns userId canonicalThingId) (hne : userId ≠ other) :
    base.SameIn other { s with things } s' := by
  simp only [rebindMergedReferences, bind_eq_ok, orRaise_eq_ok, pure_eq_ok] at h
  obtain ⟨dates, hdates, rfl⟩ := h
  have hnot := hduplicate.not_other hne
  have hnot' := hcanonical.not_other hne
  refine { sameIn_refl base other { s with things } with
    tasks := .of_rows rfl fun r hr hp => ?_
    dates := .of_rows (Table.rows_update? hdates) fun r hr hp => ?_
    blockers := .of_rows rfl fun r hr hp => ?_
    contextEntries := .of_rows rfl fun r hr hp => ?_
    thingSources := ?_
    automations := .of_rows rfl fun r hr hp => ?_
    memories := .of_rows rfl fun r hr hp => ?_
    threads := .of_rows rfl fun r hr hp => ?_ }
  · have hthing : r.thingId = some duplicateThingId := of_decide_eq_true (Table.foundIn_iff.mp hp).1
    have huser := (hold.tasks r hr).user_eq (Option.mem_toList.mpr hthing) hduplicate
    have hother : r.userId ≠ other := huser ▸ hne
    exact ⟨hother, hother⟩
  · have hthing : r.thingId = duplicateThingId := of_decide_eq_true (Table.foundIn_iff.mp hp).1
    exact ⟨by rwa [hthing], hnot'⟩
  · have hthing : r.thingId = duplicateThingId := of_decide_eq_true (Table.foundIn_iff.mp hp).1
    exact ⟨by rwa [hthing], hnot'⟩
  · have hthing : r.thingId = duplicateThingId := of_decide_eq_true (Table.foundIn_iff.mp hp).1
    exact ⟨by rwa [hthing], hnot'⟩
  · have hcopied : Table.SameOn (fun r => base.Owns other r.thingId) s.thingSources
        (copySources canonicalThingId
          ((view 8).thingSources.select fun r => r.thingId = duplicateThingId) s.thingSources) :=
      sameOn_copySources fun _ _ => hnot'
    refine hcopied.trans (.delete fun r _ hp => ?_)
    have hthing : r.thingId = duplicateThingId := of_decide_eq_true (Table.foundIn_iff.mp hp).1
    rwa [hthing]
  · have hthing : r.thingId = some duplicateThingId := of_decide_eq_true (Table.foundIn_iff.mp hp).1
    have huser := (hold.automations r hr).user_eq (Option.mem_toList.mpr hthing) hduplicate
    have hother : r.userId ≠ other := huser ▸ hne
    exact ⟨hother, hother⟩
  · have hthing : r.thingId = some duplicateThingId := of_decide_eq_true (Table.foundIn_iff.mp hp).1
    have huser := (hold.memories r hr).user_eq (Option.mem_toList.mpr hthing) hduplicate
    have hother : r.userId ≠ other := huser ▸ hne
    exact ⟨hother, hother⟩
  · have hthing : r.activeThingId = some duplicateThingId :=
      of_decide_eq_true (Table.foundIn_iff.mp hp).1
    have huser := (hold.threads r hr).user_eq (Option.mem_toList.mpr hthing) hduplicate
    have hother : r.userId ≠ other := huser ▸ hne
    exact ⟨hother, hother⟩

/-! ## Dates, Blockers and Memories -/

/-- The row that a transaction found by its id hangs on a Thing of its user, where ids are not
shared. -/
theorem sameOn_of_id {α : Type} [Row α] {id : α → UUID} {thing : α → UUID} {p : α → Bool}
    {f : α → α}
    {t t' : Table α} {loaded : UUID}
    (howner : ∀ r ∈ t, base.Owns other (thing r) → owner (id r) = other)
    (hp : ∀ r, p r = true → id r = loaded) (hf : ∀ r, thing (f r) = thing r)
    (hloaded : owner loaded ≠ other) (h : t'.rows = t.rows.map (Table.updateRow p f)) :
    Table.SameOn (fun r => base.Owns other (thing r)) t t' := by
  refine .of_rows h fun r hr hpr => ?_
  have hnot : ¬base.Owns other (thing r) := by
    intro howns
    rw [← hp r hpr] at hloaded
    exact hloaded (howner r hr howns)
  refine ⟨hnot, ?_⟩
  rwa [hf]

theorem sameOn_unsetPrimary {dates : Table ThingDate} {kind : ThingDateType}
    (hnot : ¬base.Owns other thingId) :
    Table.SameOn (fun r => base.Owns other r.thingId) dates
      (ThingDateRepository.unsetPrimary thingId kind dates) := by
  refine .of_rows rfl fun r _ hp => ?_
  have hthing : r.thingId = thingId := (of_decide_eq_true hp).1
  rw [← hthing] at hnot
  exact ⟨hnot, hnot⟩

/-- The dates of another user when a date is corrected. -/
theorem sameOn_corrected {c : UpdateDate} {thing : Thing} {date date' : ThingDate}
    {dates before : Table ThingDate} {updated : Bool} {v : ℤ}
    (h : ThingDateRepository.update date' v (c.datesBefore thing date before) =
      some (dates, updated))
    (hid : date'.id = date.id) (hnot : ¬base.Owns other thing.id)
    (howner : ∀ r ∈ before, base.Owns other r.thingId → owner r.id = other)
    (hdate : owner date.id ≠ other) :
    Table.SameOn (fun r => base.Owns other r.thingId) before dates := by
  simp only [ThingDateRepository.update, Option.map_eq_some_iff, Prod.mk.injEq] at h
  obtain ⟨_, hupdate, rfl, -⟩ := h
  have hdemoted : Table.SameOn (fun r => base.Owns other r.thingId) before
      (c.datesBefore thing date before) := by
    unfold UpdateDate.datesBefore
    split
    · exact sameOn_unsetPrimary hnot
    · exact .refl _
  have hfound : ∀ r, ThingDateRepository.updateWhere date' v r = true → r.id = date.id :=
    fun r hp => (of_decide_eq_true hp).1.trans hid
  refine hdemoted.trans (sameOn_of_id (f := ThingDateRepository.updateValues date')
    (fun r hr howns => ?_) hfound (fun _ => rfl) hdate (Table.rows_update? hupdate))
  exact howner r ((hdemoted.mem_iff howns).mp hr) howns

theorem sameOn_updatedBlocker {blocker : Blocker} {version : ℤ} {blockers : Table Blocker}
    (howner : ∀ r ∈ blockers, base.Owns other r.thingId → owner r.id = other)
    (hblocker : owner blocker.id ≠ other) :
    Table.SameOn (fun r => base.Owns other r.thingId) blockers
      (BlockerRepository.update blocker version blockers).1 := by
  have hfound : ∀ r, BlockerRepository.updateWhere blocker version r = true → r.id = blocker.id :=
    fun r hp => (of_decide_eq_true hp).1
  exact sameOn_of_id (f := BlockerRepository.updateValues blocker) howner hfound (fun _ => rfl)
    hblocker rfl

theorem sameOn_updatedEntry {entry : ThingContextEntry} {version : ℤ}
    {entries : Table ThingContextEntry}
    (howner : ∀ r ∈ entries, base.Owns other r.thingId → owner r.id = other)
    (hentry : owner entry.id ≠ other) :
    Table.SameOn (fun r => base.Owns other r.thingId) entries
      (ContextEntryRepository.update entry version entries).1 := by
  have hfound : ∀ r, ContextEntryRepository.updateWhere entry version r = true → r.id = entry.id :=
    fun r hp => (of_decide_eq_true hp).1
  exact sameOn_of_id (f := ContextEntryRepository.updateValues entry) howner hfound (fun _ => rfl)
    hentry rfl

/-- The Memories of another user when a Memory is superseded. -/
theorem sameOn_superseded {c : CreateMemory} {now : Timestamp} {memories before : Table Memory}
    {superseded : Option Memory} (h : c.supersede now view memories = .ok (superseded, before))
    (hkept : ∀ n, Table.Evolves Memory.id (fun r r' => r'.userId = r.userId) (view n).memories
      memories)
    (hne : c.userId ≠ other) :
    Table.SameOn (fun r => r.userId = other) memories before := by
  unfold CreateMemory.supersede at h
  split at h
  next =>
    simp only [pure_eq_ok, Prod.mk.injEq] at h
    rw [← h.2]
    exact .refl _
  next memory hfound =>
    simp only [bind_eq_ok, orRaise_eq_ok, ensure_eq_ok, pure_eq_ok, Prod.mk.injEq] at h
    obtain ⟨_, hupdate, _, -, -, rfl⟩ := h
    obtain ⟨key, -, hkey⟩ := Option.bind_eq_some_iff.mp hfound
    obtain ⟨hseen, hwhere⟩ := Table.get_eq_some hkey
    have huser : memory.userId = c.userId := (of_decide_eq_true hwhere).1
    refine .of_rows (Table.rows_update? hupdate) fun r hr hp => ?_
    have hrow : r.userId = memory.userId :=
      user_of_evolves (hkept 2) (fun _ hr _ hr' hid => Table.eq_of_conflict hr hr' (.inl hid))
        hseen hr
        (of_decide_eq_true hp).1
    have hother : r.userId ≠ other := hrow.trans huser ▸ hne
    exact ⟨hother, hother⟩

/-! ## The writes of a user -/

section Stores

-- every view is of the history of `s`, and the transaction is of another user
variable (hgrounds : ∀ n, Grounds (view n) s)
  (hseen : ∀ n, s.OwnedIn (fun userId id => owner id = userId) (view n))
  (hlater : ∀ n, ThingsLater (view n) s) (hkept : ∀ n, Kept (view n) s)
  (hold : s.OwnedIn (fun userId id => owner id = userId) s)

theorem CreateThing.Creates.sameIn {c : CreateThing} (h : c.Creates fresh s s')
    (hne : c.userId ≠ other) : s.SameIn other s s' := by
  obtain ⟨-, things, hthings, hrecorded⟩ := h
  exact hrecorded.sameIn_of_event
    { sameIn_refl s other s with things := .insert? hthings hne } hne rfl

include hkept in
theorem TransitionTask.Changes.sameIn {c : TransitionTask} {task task' : Task}
    (h : c.Changes fresh view s s' task task') (hne : c.userId ≠ other) : s.SameIn other s s' := by
  obtain ⟨hmem, -, huser⟩ := task_of_get h.found
  have hother : task.userId ≠ other := huser ▸ hne
  refine h.recorded.sameIn (sameIn_setTask (hkept 1) hmem h.writes.id_eq hother) hne fun e he => ?_
  obtain ⟨id, -, rfl⟩ := Option.map_eq_some_iff.mp he
  exact hne

include hkept in
theorem CompleteTask.Completes.sameIn {c : CompleteTask} {task task' : Task}
    (h : c.Completes cal fresh view s s' task task') (hne : c.userId ≠ other) :
    s.SameIn other s s' := by
  obtain ⟨hmem, -, huser⟩ := task_of_get h.found
  have hother : task.userId ≠ other := huser ▸ hne
  refine h.recorded.sameIn (sameIn_setTask (hkept 1) hmem h.writes.id_eq hother) hne fun e he => ?_
  obtain ⟨id, -, rfl⟩ := Option.map_eq_some_iff.mp he
  exact hne

theorem CreateTask.Creates.sameIn {c : CreateTask} {thing : Option Thing}
    (h : c.Creates cal fresh view s s' thing) (hne : c.userId ≠ other) : s.SameIn other s s' := by
  obtain ⟨tasks, htasks, hrecorded⟩ := h.stored
  refine hrecorded.sameIn { sameIn_refl s other s with tasks := .insert? htasks hne } hne ?_
  intro e he
  obtain ⟨t, -, rfl⟩ := Option.map_eq_some_iff.mp he
  exact hne

include hkept in
theorem DeleteFile.Deletes.sameIn {c : DeleteFile} (h : c.Deletes cal fresh view s s')
    (hne : c.userId ≠ other) : s.SameIn other s s' := by
  refine h.recorded.sameIn
    { sameIn_refl s other s with sources := .of_rows rfl fun r hr hp => ?_ } hne
    fun e he => absurd he (Option.not_mem_none e)
  obtain ⟨source, hsource⟩ := Option.isSome_iff_exists.mp h.found
  obtain ⟨hmem, hwhere⟩ := Table.get_eq_some hsource
  obtain ⟨hid, huser, -⟩ := of_decide_eq_true hwhere
  have hrow : r.userId = source.userId :=
    user_of_evolves (hkept 1).sources (fun _ hr _ hr' => Table.eq_of_conflict hr hr') hmem hr
      ((of_decide_eq_true hp).trans hid.symm)
  have hother : r.userId ≠ other := hrow.trans huser ▸ hne
  exact ⟨hother, hother⟩

include hgrounds

theorem CreateBlocker.Creates.sameIn {c : CreateBlocker} (h : c.Creates fresh view s s')
    (hne : c.userId ≠ other) : s.SameIn other s s' := by
  obtain ⟨blockers, hblockers, hrecorded⟩ := h.stored
  have hnot := (owns_of_isSome (hgrounds 1) h.found).not_other hne
  exact hrecorded.sameIn_of_event
    { sameIn_refl s other s with blockers := .insert? hblockers hnot } hne rfl

theorem LinkToThing.Links.sameIn {c : LinkToThing} (h : c.Links fresh view s s')
    (hne : c.userId ≠ other) : s.SameIn other s s' := by
  have hnot := (owns_of_isSome (hgrounds 1) h.found).not_other hne
  refine h.recorded.sameIn
    { sameIn_refl s other s with thingSources := .insertOrIgnore hnot } hne fun e he => ?_
  split at he
  · obtain rfl := Option.some.inj he
    exact hne
  · cases he

theorem AddRelation.Relates.sameIn {c : AddRelation} (h : c.Relates fresh view s s')
    (hne : c.userId ≠ other) : s.SameIn other s s' := by
  have hnot := (owns_of_isSome (hgrounds 1) h.found).not_other hne
  exact h.recorded.sameIn
    { sameIn_refl s other s with relations := .insertOrIgnore hnot } hne
    fun e he => absurd he (Option.not_mem_none e)

include hseen hold

theorem ResolveBlocker.Resolves.sameIn {c : ResolveBlocker} {blocker : Blocker}
    (h : c.Resolves fresh view s s' blocker) (hne : c.userId ≠ other) : s.SameIn other s s' := by
  obtain ⟨hmem, hp⟩ := Table.get_eq_some h.found
  simp only [decide_eq_true_eq, List.any_eq_true] at hp
  obtain ⟨-, thing, hthing, hid, huser⟩ := hp
  have howns : s.Owns c.userId blocker.thingId :=
    (hgrounds 1).things _ _ ⟨thing, hthing, hid, huser⟩
  have hblocker : owner blocker.id ≠ other := by
    rw [owner_eq ((hseen 1).blockers blocker hmem) howns]
    exact hne
  exact h.recorded.sameIn_of_event { sameIn_refl s other s with
    blockers := sameOn_updatedBlocker (fun r hr => owner_eq (hold.blockers r hr)) hblocker } hne rfl

theorem SetThingContext.Sets.sameIn {c : SetThingContext} {existing : Option ThingContextEntry}
    (h : c.Sets fresh view s s' existing) (hne : c.userId ≠ other) : s.SameIn other s s' := by
  have howns := owns_of_isSome (hgrounds 1) h.found
  obtain ⟨-, hadds⟩ | ⟨entry, -, hrevises⟩ := h.stored
  · obtain ⟨contextEntries, hentries, hrecorded⟩ := hadds.stored
    exact hrecorded.sameIn_of_event { sameIn_refl s other s with
      contextEntries := .insert? hentries (howns.not_other hne) } hne rfl
  · obtain ⟨hmem, -⟩ := Table.get_eq_some hrevises.found
    rw [← hrevises.thing_eq] at howns
    have hentry : owner entry.id ≠ other := by
      rw [owner_eq ((hseen 2).contextEntries entry hmem) howns]
      exact hne
    exact hrevises.recorded.sameIn_of_event { sameIn_refl s other s with
      contextEntries := sameOn_updatedEntry (fun r hr => owner_eq (hold.contextEntries r hr)) (by
        rwa [c.revision_id entry (fresh 0).now]) } hne rfl

include hlater

theorem UpdateThing.Revises.sameIn {c : UpdateThing} {thing thing' : Thing}
    (h : c.Revises fresh view s s' thing thing') (hne : c.userId ≠ other) :
    s.SameIn other s s' := by
  obtain ⟨-, -, huser, -⟩ := ThingRepository.get_eq_some h.found
  have hother : thing.userId ≠ other := huser ▸ hne
  exact h.recorded.sameIn_of_event (sameIn_setThing h.writes hlater hother) hne rfl

theorem ChangeArchive.Changes.sameIn {c : ChangeArchive} {thing : Thing}
    (h : c.Changes cal fresh view s s' thing) (hne : c.userId ≠ other) : s.SameIn other s s' := by
  obtain ⟨-, -, huser, -⟩ := ThingRepository.get_eq_some h.found
  have hother : thing.userId ≠ other := huser ▸ hne
  exact h.recorded.sameIn_of_event (sameIn_setThing h.writes hlater hother) hne rfl

theorem DeleteThing.Deletes.sameIn {c : DeleteThing} {thing : Thing}
    (h : c.Deletes cal fresh view s s' thing) (hne : c.userId ≠ other) : s.SameIn other s s' := by
  obtain ⟨hmem, hp⟩ := Table.get_eq_some h.found
  simp only [decide_eq_true_eq] at hp
  have howns : s.Owns c.userId thing.id := (hgrounds 1).things _ _ ⟨thing, hmem, rfl, hp.2⟩
  have hother : thing.userId ≠ other := hp.2 ▸ hne
  obtain ⟨hread, hid, huser, hcreated, hversion, hupdated⟩ := h.writes
  have hthings : s.SameIn other s (s.setThing thing (thing.deleted (fresh 0).now)) :=
    sameIn_setThing ⟨hread, hid, huser, hcreated, hversion, hupdated⟩ hlater hother
  have hdeleted : s.SameIn other s (deleteOwnedComponents thing.id (fun n => view (n + 2)) s) :=
    sameIn_deleteOwned hold howns hne
  exact h.recorded.sameIn_of_event { hdeleted with things := hthings.things } hne rfl

theorem SetDeadline.Adds.sameIn {c : SetDeadline} {thing : Thing} {value : Timestamp}
    (h : c.Adds cal fresh view s s' thing value) (hne : c.userId ≠ other) :
    s.SameIn other s s' := by
  obtain ⟨-, hid, huser, -⟩ := ThingRepository.get_eq_some h.found
  have hother : thing.userId ≠ other := huser ▸ hne
  have howns : s.Owns c.userId thing.id := hid ▸ owns_of_get (hgrounds 1) h.found
  have hnot := howns.not_other hne
  cases hprimary : c.isPrimary with
  | false =>
    obtain ⟨dates, hdates, hrecorded⟩ := h.plain hprimary
    exact hrecorded.sameIn_of_event
      { sameIn_refl s other s with dates := .insert? hdates hnot } hne rfl
  | true =>
    obtain ⟨dates, hwrites, hdates, hrecorded⟩ := h.primary hprimary
    exact hrecorded.sameIn_of_event { sameIn_setThing hwrites hlater hother with
      dates := (sameOn_unsetPrimary hnot).trans (.insert? hdates hnot) } hne rfl

theorem UpdateDate.Corrects.sameIn {c : UpdateDate} {thing : Thing} {date : ThingDate}
    {value : Timestamp} (h : c.Corrects cal fresh view s s' thing date value)
    (hne : c.userId ≠ other) : s.SameIn other s s' := by
  obtain ⟨-, hid, huser, -⟩ := ThingRepository.get_eq_some h.found
  have hother : thing.userId ≠ other := huser ▸ hne
  have howns : s.Owns c.userId thing.id := hid ▸ owns_of_get (hgrounds 2) h.found
  obtain ⟨hmem, -⟩ := Table.get_eq_some h.foundDate
  have hdate : owner date.id ≠ other := by
    rw [owner_eq ((hseen 1).dates date hmem) (hid ▸ howns)]
    exact hne
  obtain ⟨dates, hdates, hstored⟩ := h.stored
  have hsame : Table.SameOn (fun r => s.Owns other r.thingId) s.dates dates :=
    sameOn_corrected hdates rfl (howns.not_other hne) (fun r hr => owner_eq (hold.dates r hr)) hdate
  rcases hstored with ⟨-, -, hrecorded⟩ | ⟨-, hwrites, hrecorded⟩
  · exact hrecorded.sameIn_of_event { sameIn_refl s other s with dates := hsame } hne rfl
  · exact hrecorded.sameIn_of_event
      { sameIn_setThing hwrites hlater hother with dates := hsame } hne rfl

omit hseen in
theorem MergeThings.Merges.sameIn {c : MergeThings} {canonical duplicate : Thing}
    (h : c.Merges fresh view s s' canonical duplicate) (hne : c.userId ≠ other) :
    s.SameIn other s s' := by
  obtain ⟨-, hcanonicalId, -⟩ := ThingRepository.get_eq_some h.canonicalFound
  obtain ⟨-, hduplicateId, huser, -⟩ := ThingRepository.get_eq_some h.duplicateFound
  have hother : duplicate.userId ≠ other := huser ▸ hne
  have hcanonical : s.Owns c.userId canonical.id :=
    hcanonicalId ▸ owns_of_get (hgrounds 1) h.canonicalFound
  have hduplicate : s.Owns c.userId duplicate.id :=
    hduplicateId ▸ owns_of_get (hgrounds 2) h.duplicateFound
  obtain ⟨s₁, hrebound, hrecorded⟩ := h.rebound
  have hthings : s.SameIn other s
      { s with things := (ThingRepository.update (duplicate.merged canonical.id (fresh 0).now)
        c.expectedDuplicateVersion s.things).1 } := by
    rw [← h.duplicateVersion]
    exact sameIn_setThing h.writes hlater hother
  exact hrecorded.sameIn_of_event
    (hthings.trans (sameIn_rebind hrebound hold hduplicate hcanonical hne)) hne rfl

end Stores

/-! ## Whose the Memories are -/

/-- Every Memory is still there, and its user's. -/
def MemoriesKept (s s' : State) : Prop :=
  Table.Evolves Memory.id (fun r r' => r'.userId = r.userId) s.memories s'.memories

theorem memoriesKept_of_eq (h : s'.memories = s.memories) : MemoriesKept s s' := by
  intro r hr
  rw [h]
  exact ⟨r, hr, rfl, rfl⟩

theorem Op.Commits.memoriesKept (h : op.Commits cal view s s' reply)
    (hkeeps : op.KeepsOwners view) : MemoriesKept s s' := by
  rcases h.aside with htouches | haside
  swap
  · exact memoriesKept_of_eq haside.memories
  cases op with
  | deleteThing c fresh =>
    obtain ⟨_, hdeletes, -⟩ := h
    exact memoriesKept_of_eq (congrArg (·.memories) hdeletes.recorded.same)
  | mergeThings c fresh =>
    obtain ⟨_, _, hmerges, -⟩ := h
    obtain ⟨s₁, hrebound, hrecorded⟩ := hmerges.rebound
    simp only [rebindMergedReferences, bind_eq_ok, orRaise_eq_ok, pure_eq_ok] at hrebound
    obtain ⟨_, -, rfl⟩ := hrebound
    have hmemories := congrArg (fun s => s.memories.rows) hrecorded.same
    exact Table.Evolves.of_rows hmemories (fun _ => ⟨rfl, rfl⟩) fun _ => rfl
  | addRelation c fresh => exact memoriesKept_of_eq (congrArg (·.memories) h.1.recorded.same)
  | deleteFile c fresh => exact memoriesKept_of_eq (congrArg (·.memories) h.1.recorded.same)
  | createMemory c stamp =>
    obtain ⟨-, -, superseded, before, memories, hbefore, hmemories, rfl⟩ := h
    have hsuperseded : Table.Evolves Memory.id (fun r r' => r'.userId = r.userId)
        s.memories before := by
      unfold CreateMemory.supersede at hbefore
      split at hbefore
      · simp only [pure_eq_ok, Prod.mk.injEq] at hbefore
        rw [← hbefore.2]
        exact fun r hr => ⟨r, hr, rfl, rfl⟩
      · simp only [bind_eq_ok, orRaise_eq_ok, ensure_eq_ok, pure_eq_ok, Prod.mk.injEq] at hbefore
        obtain ⟨_, hupdate, _, -, -, rfl⟩ := hbefore
        exact Table.Evolves.of_rows (Table.rows_update? hupdate) (fun _ => ⟨rfl, rfl⟩) fun _ => rfl
    have hinserted : Table.Evolves Memory.id (fun r r' => r'.userId = r.userId) before memories :=
      .insert? (fun _ => rfl) hmemories
    exact Table.Evolves.trans (fun _ _ _ huser huser' => huser'.trans huser) hsuperseded hinserted
  | upkeep w =>
    have heq : s' = w.apply s := h
    rw [heq]
    exact Table.Evolves.of_rows rfl (fun r => ⟨w.memories.key_eq r, (hkeeps.2 r).1⟩) fun _ => rfl
  | createAutomation c stamp =>
    obtain ⟨_, _, -, rfl⟩ := h
    exact memoriesKept_of_eq rfl
  | createThread userId title key activeThingId stamp =>
    obtain ⟨_, _, -, -, -, -, rfl⟩ := h
    exact memoriesKept_of_eq rfl
  | automationThread c stamp =>
    obtain ⟨_, _, -, -, -, -, rfl⟩ := h
    exact memoriesKept_of_eq rfl
  | addSource source =>
    obtain ⟨_, -, rfl⟩ := h
    exact memoriesKept_of_eq rfl
  | createThing | updateThing | changeArchive | setDeadline | updateDate | createTask
  | transitionTask | completeTask | createBlocker | resolveBlocker | setThingContext
  | linkToThing => exact absurd htouches id

theorem memories_stable (py : Builtins) (cal : Calendar) :
    Program.Stable (system py cal) (fun op view _ => op.KeepsOwners view) (fun _ => True)
      MemoriesKept where
  init _ _ := trivial
  refl s := memoriesKept_of_eq rfl
  trans _ _ _ := Table.Evolves.trans fun _ _ _ huser huser' => huser'.trans huser
  step op view s _ _ hkeeps := by
    refine ⟨trivial, ?_⟩
    rcases commit_cases py cal op view s with hsame | hcommits
    · exact memoriesKept_of_eq (congrArg State.memories hsame)
    · exact hcommits.memoriesKept hkeeps

/-! ## Every history -/

/-- A transaction of one user leaves alone the rows of every other. -/
theorem Op.Commits.sameFor (h : op.Commits cal view s s' reply)
    (hgrounds : ∀ n, Grounds (view n) s)
    (hseen : ∀ n, s.OwnedIn (fun userId id => owner id = userId) (view n))
    (hlater : ∀ n, ThingsLater (view n) s) (hkept : ∀ n, Kept (view n) s)
    (hmemories : ∀ n, MemoriesKept (view n) s)
    (hold : s.OwnedIn (fun userId id => owner id = userId) s) (huser : op.userId = some userId)
    (hne : userId ≠ other) : s.SameFor other s' := by
  cases op with
  | createThing c fresh =>
    obtain rfl := Option.some.inj huser
    exact h.1.sameIn hne
  | updateThing c fresh =>
    obtain rfl := Option.some.inj huser
    obtain ⟨_, _, hrevises, -⟩ := h
    exact hrevises.sameIn hgrounds hseen hlater hold hne
  | changeArchive c fresh =>
    obtain rfl := Option.some.inj huser
    obtain ⟨_, hchanges, -⟩ := h
    exact hchanges.sameIn hgrounds hseen hlater hold hne
  | deleteThing c fresh =>
    obtain rfl := Option.some.inj huser
    obtain ⟨_, hdeletes, -⟩ := h
    exact hdeletes.sameIn hgrounds hseen hlater hold hne
  | mergeThings c fresh =>
    obtain rfl := Option.some.inj huser
    obtain ⟨_, _, hmerges, -⟩ := h
    exact hmerges.sameIn hgrounds hlater hold hne
  | setDeadline c fresh =>
    obtain rfl := Option.some.inj huser
    obtain ⟨_, _, hadds, -⟩ := h
    exact hadds.sameIn hgrounds hseen hlater hold hne
  | updateDate c fresh =>
    obtain rfl := Option.some.inj huser
    obtain ⟨_, _, _, hcorrects, -⟩ := h
    exact hcorrects.sameIn hgrounds hseen hlater hold hne
  | createTask c fresh =>
    obtain rfl := Option.some.inj huser
    obtain ⟨_, hcreates, -⟩ := h
    exact hcreates.sameIn hne
  | transitionTask c fresh =>
    obtain rfl := Option.some.inj huser
    obtain ⟨_, _, hchanges, -⟩ := h
    exact hchanges.sameIn hkept hne
  | completeTask c fresh =>
    obtain rfl := Option.some.inj huser
    obtain ⟨_, _, hcompletes, -⟩ := h
    exact hcompletes.sameIn hkept hne
  | createBlocker c fresh =>
    obtain rfl := Option.some.inj huser
    exact h.1.sameIn hgrounds hne
  | resolveBlocker c fresh =>
    obtain rfl := Option.some.inj huser
    obtain ⟨_, hresolves, -⟩ := h
    exact hresolves.sameIn hgrounds hseen hold hne
  | setThingContext c fresh =>
    obtain rfl := Option.some.inj huser
    obtain ⟨_, hsets, -⟩ := h
    exact hsets.sameIn hgrounds hseen hold hne
  | linkToThing c fresh =>
    obtain rfl := Option.some.inj huser
    exact h.1.sameIn hgrounds hne
  | addRelation c fresh =>
    obtain rfl := Option.some.inj huser
    exact h.1.sameIn hgrounds hne
  | deleteFile c fresh =>
    obtain rfl := Option.some.inj huser
    exact h.1.sameIn hkept hne
  | createAutomation c stamp =>
    obtain rfl := Option.some.inj huser
    obtain ⟨trigger, automations, hautomations, rfl⟩ := h
    exact { sameIn_refl s other s with automations := .insert? hautomations hne }
  | createMemory c stamp =>
    obtain rfl := Option.some.inj huser
    obtain ⟨-, -, superseded, before, memories, hbefore, hinserted, rfl⟩ := h
    have hsuperseded := sameOn_superseded hbefore hmemories hne
    exact { sameIn_refl s other s with
      memories := hsuperseded.trans (.insert? hinserted hne) }
  | createThread userId title key activeThingId stamp =>
    obtain rfl := Option.some.inj huser
    obtain ⟨thread, threads, hthread, -, -, hthreads, rfl⟩ := h
    exact { sameIn_refl s other s with threads := .insert? hthreads (hthread ▸ hne) }
  | automationThread c stamp =>
    obtain rfl := Option.some.inj huser
    obtain ⟨thread, threads, hthread, -, -, hthreads, rfl⟩ := h
    exact { sameIn_refl s other s with threads := .insert? hthreads (hthread ▸ hne) }
  | addSource source =>
    obtain rfl := Option.some.inj huser
    obtain ⟨_, hsources, rfl⟩ := h
    exact { sameIn_refl s other s with sources := .insert? hsources hne }
  | upkeep w => cases huser

/-- The Things of a user are his in both states where his rows are the same. -/
theorem State.SameFor.owns_iff (h : State.SameFor other s mid) :
    mid.Owns other thingId ↔ s.Owns other thingId := by
  unfold State.Owns
  refine exists_congr fun thing => ?_
  by_cases huser : thing.userId = other
  · rw [h.things.mem_iff huser]
  · simp [huser]

theorem State.SameFor.trans (h : State.SameFor other s mid) (h' : State.SameFor other mid s') :
    State.SameFor other s s' := by
  have howns : mid.Owns other = s.Owns other := funext fun _ => propext h.owns_iff
  obtain ⟨things, tasks, dates, blockers, contextEntries, thingSources, relations, automations,
    memories, threads, sources, mutations, timeline⟩ := h'
  rw [howns] at dates blockers contextEntries thingSources relations
  exact State.SameIn.trans h
    ⟨things, tasks, dates, blockers, contextEntries, thingSources, relations, automations,
      memories, threads, sources, mutations, timeline⟩

/-- The rows of a user in a state and in the ones committed since, where only other users commit. -/
theorem sameFor_since (py : Builtins) (cal : Calendar) (owner : UUID → UUID)
    {h : History State Op Reply}
    (hr : (system py cal).ReachableIf (fun op view _ => op.KeepsOwners view ∧
      op.GivesIds fun userId id => owner id = userId) h)
    {k : ℕ} {v : State} {userId : UUID} (hv : h.states[k]? = some v)
    (hothers : ∀ entry ∈ h.replies.take k,
      ∃ otherId, entry.1.userId = some otherId ∧ otherId ≠ userId) :
    ∀ s ∈ h.states.take (k + 1), v.SameFor userId s := by
  have hstable := (owned_stable py cal fun userId id => owner id = userId).and
    ((memories_stable py cal).restrict
      (p := fun op view _ => op.KeepsOwners view ∧ op.GivesIds fun userId id => owner id = userId)
      fun _ _ _ => And.left)
  refine hstable.lasts (fun s => v.SameFor userId s)
    (fun entry => ∃ otherId, entry.1.userId = some otherId ∧ otherId ≠ userId) ?_ hr hv hothers
    (sameIn_refl _ _ _)
  rintro op view s ⟨⟨-, hold⟩, -⟩ hviews - ⟨otherId, hother, hne⟩ hsame
  refine hsame.trans ?_
  show s.SameFor userId (commit py cal op view s).1
  have hgrounds : ∀ n, Grounds (view n) s := fun n =>
    .of_later (hviews n).2.1.1 (hviews n).2.1.2
  rcases commit_cases py cal op view s with hstays | hcommits
  · rw [hstays]
    exact sameIn_refl _ _ _
  · exact hcommits.sameFor hgrounds (fun n => (hviews n).1.1.2.mono (hgrounds n))
      (fun n => (hviews n).2.1.1) (fun n => (hviews n).2.1.2) (fun n => (hviews n).2.2) hold hother
        hne

/-- From a state on, as long as only other users commit, the rows of a user are as they were:
nothing is changed, taken away or added, whatever ids the others name and however stale their reads
are. -/
theorem others_leave_rows (py : Builtins) (cal : Calendar) (owner : UUID → UUID)
    {h : History State Op Reply}
    (hr : (system py cal).ReachableIf (fun op view _ => op.KeepsOwners view ∧
      op.GivesIds fun userId id => owner id = userId) h)
    {i : Fin h.states.length} {userId : UUID}
    (hothers : ∀ entry ∈ h.replies.take (h.states.length - 1 - i),
      ∃ otherId, entry.1.userId = some otherId ∧ otherId ≠ userId) :
    (h.stateAt i).SameFor userId h.cur :=
  sameFor_since py cal owner hr (List.getElem?_eq_getElem (by omega)) hothers _ List.mem_cons_self

/-- The writes of the two users, one after the other. -/
def twoUsersHistory : History State Op Reply := (system noRepr noDates).serial {} twoUsers

theorem twoUsersHistory_reachable : (system noRepr noDates).ReachableIf
    (fun op view _ => op.KeepsOwners view ∧ op.GivesIds fun userId id => (fun _ => 1) id = userId)
    twoUsersHistory := by
  refine (system noRepr noDates).serial_reachableIf rfl twoUsers ?_
  refine Program.serialMeets_of_forall _ (fun op hop view s => ?_) _
  simp only [twoUsers, createMoves, List.cons_append, List.nil_append, List.mem_cons,
    List.not_mem_nil, or_false] at hop
  rcases hop with rfl | rfl | rfl | rfl | rfl <;> exact ⟨trivial, trivial⟩

/-- The last two writes are of user 1. -/
theorem twoUsersHistory_last :
    ∀ entry ∈ twoUsersHistory.replies.take 2, entry.1.userId = some 1 := by
  have hops : (twoUsersHistory.replies.take 2).map Prod.fst =
      [.mergeThings mergeForth (stampsFrom 50 0), .createTask packBoxes (stampsFrom 40 0)] := rfl
  intro entry hentry
  have hop : entry.1 ∈ (twoUsersHistory.replies.take 2).map Prod.fst := List.mem_map_of_mem hentry
  rw [hops] at hop
  simp only [List.mem_cons, List.not_mem_nil, or_false] at hop
  rcases hop with hop | hop <;> rw [hop] <;> rfl

/-- The Task and the merge of user 1 leave alone the Thing of user 2. -/
theorem others_leave_rows_twoUsers :
    (twoUsersHistory.stateAt ⟨3, by decide⟩).SameFor 2 twoUsersHistory.cur ∧
      twoUsersHistory.cur.Owns 2 30 := by
  constructor
  · exact others_leave_rows noRepr noDates (fun _ => 1) twoUsersHistory_reachable
      fun entry hentry => ⟨1, twoUsersHistory_last entry hentry, by decide⟩
  · have hthing : (twoUsersHistory.cur.things.rows.any fun r =>
        decide (r.id = 30 ∧ r.userId = 2)) = true := by decide +kernel
    obtain ⟨thing, hmem, hp⟩ := List.any_eq_true.mp hthing
    obtain ⟨hid, huser⟩ := of_decide_eq_true hp
    exact ⟨thing, hmem, hid, huser⟩

end PersonalState
