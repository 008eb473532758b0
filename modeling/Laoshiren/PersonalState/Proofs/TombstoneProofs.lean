import Laoshiren.PersonalState.Proofs.RedirectProofs

/-!
# Proofs: what belongs to a merged Thing

Where no write attaches a row to a merged Thing, and every merge finds all that belongs to the
duplicate, nothing ever belongs to a merged Thing.
-/

namespace PersonalState

open Raise Runtime

variable {py : Builtins} {cal : Calendar} {fresh : ℕ → Stamp} {view : ℕ → State} {s s' : State}
  {reply : Reply} {thingId : UUID} {holder : Holder}

/-! ## What a write attaches -/

theorem Recorded.holds {m : StateMutation} {event : Option TimelineEvent} (h : Recorded m event s s') :
    s'.Holds thingId holder ↔ s.Holds thingId holder := by
  rw [h.same]
  cases holder <;> rfl

/-- A write on a Thing attaches nothing. -/
theorem setThing_holds {thing thing' : Thing} :
    (s.setThing thing thing').Holds thingId holder ↔ s.Holds thingId holder := by
  cases holder <;> rfl

/-- A date that is demoted stays with its Thing. -/
theorem Belongs.of_unsetPrimary {id : UUID} {kind : ThingDateType} {dates : Table ThingDate}
    {k b : UUID} (h : (ThingDateRepository.unsetPrimary id kind dates).Belongs ThingDate.id
      ThingDate.thingId k b) : dates.Belongs ThingDate.id ThingDate.thingId k b := by
  unfold ThingDateRepository.unsetPrimary at h
  exact h.of_rewritten rfl (fun _ => rfl) fun _ => rfl

/-- A row that is written stays with its Thing. -/
theorem Belongs.of_updatedEntry {entry : ThingContextEntry} {version : ℤ}
    {entries : Table ThingContextEntry} {k b : UUID}
    (h : (ContextEntryRepository.update entry version entries).1.Belongs ThingContextEntry.id
      ThingContextEntry.thingId k b) :
    entries.Belongs ThingContextEntry.id ThingContextEntry.thingId k b := by
  unfold ContextEntryRepository.update at h
  exact h.of_rewritten rfl (fun _ => rfl) fun _ => rfl

theorem Belongs.of_updatedBlocker {blocker : Blocker} {version : ℤ} {blockers : Table Blocker}
    {k b : UUID}
    (h : (BlockerRepository.update blocker version blockers).1.Belongs Blocker.id
      Blocker.thingId k b) : blockers.Belongs Blocker.id Blocker.thingId k b := by
  unfold BlockerRepository.update at h
  exact h.of_rewritten rfl (fun _ => rfl) fun _ => rfl

theorem Belongs.of_updatedTask {task : Task} {version : ℤ} {tasks : Table Task} {k : UUID}
    {b : Option UUID}
    (h : (TaskRepository.update task version tasks).1.Belongs Task.id Task.thingId k b) :
    tasks.Belongs Task.id Task.thingId k b := by
  unfold TaskRepository.update at h
  exact h.of_rewritten rfl (fun _ => rfl) fun _ => rfl

theorem setTask_holds {task task' : Task} (h : (s.setTask task task').Holds thingId holder) :
    s.Holds thingId holder := by
  cases holder with
  | task id => exact Belongs.of_updatedTask h
  | _ => exact h

theorem upkeep_holds {w : Upkeep} (h : (w.apply s).Holds thingId holder) :
    s.Holds thingId holder := by
  cases holder with
  | automation => exact Table.Belongs.of_rewritten h rfl w.automations.key_eq w.automations.owner_eq
  | memory => exact Table.Belongs.of_rewritten h rfl w.memories.key_eq w.memories.owner_eq
  | thread =>
    exact Table.Belongs.of_rewritten h rfl w.threads.key_eq fun r =>
      congrArg Prod.snd (w.threads.owner_eq r)
  | _ => exact h

/-- Deleting the components of a Thing attaches nothing. -/
theorem deleteOwned_holds {id : UUID}
    (h : (deleteOwnedComponents id view s).Holds thingId holder) : s.Holds thingId holder := by
  cases holder with
  | task =>
    obtain ⟨r, hr, hk, ⟨-, howner⟩ | ⟨-, howner⟩⟩ := Table.Belongs.of_rows h rfl fun _ => rfl
    · cases howner
    · exact ⟨r, hr, hk, howner⟩
  | date => exact Table.Belongs.of_delete h
  | blocker => exact Table.Belongs.of_delete h
  | contextEntry => exact Table.Belongs.of_delete h
  | source => exact Table.Belongs.of_delete h
  | automation => exact h
  | memory => exact h
  | thread => exact h

/-- A date that is corrected stays with its Thing. -/
theorem Belongs.of_corrected {c : UpdateDate} {thing : Thing} {date date' : ThingDate}
    {dates before : Table ThingDate} {updated : Bool} {v : ℤ}
    (h : ThingDateRepository.update date' v (c.datesBefore thing date before) =
      some (dates, updated)) {k b : UUID}
    (hb : dates.Belongs ThingDate.id ThingDate.thingId k b) :
    before.Belongs ThingDate.id ThingDate.thingId k b := by
  simp only [ThingDateRepository.update, Option.map_eq_some_iff, Prod.mk.injEq] at h
  obtain ⟨_, hupdate, rfl, -⟩ := h
  have hbefore := hb.of_rewritten (Table.rows_update? hupdate) (fun _ => rfl) fun _ => rfl
  unfold UpdateDate.datesBefore at hbefore
  split at hbefore
  · exact Belongs.of_unsetPrimary hbefore
  · exact hbefore

/-- A Memory that is superseded stays with its Thing. -/
theorem Belongs.of_superseded {c : CreateMemory} {now : Timestamp} {memories before : Table Memory}
    {superseded : Option Memory} (h : c.supersede now view memories = .ok (superseded, before))
    {k : UUID} {b : Option UUID} (hb : before.Belongs Memory.id Memory.thingId k b) :
    memories.Belongs Memory.id Memory.thingId k b := by
  unfold CreateMemory.supersede at h
  split at h
  · simp only [pure_eq_ok, Prod.mk.injEq] at h
    rwa [h.2]
  · simp only [bind_eq_ok, orRaise_eq_ok, ensure_eq_ok, pure_eq_ok, Prod.mk.injEq] at h
    obtain ⟨_, hupdate, _, -, -, rfl⟩ := h
    exact hb.of_rewritten (Table.rows_update? hupdate) (fun _ => rfl) fun _ => rfl

theorem mem_copySources {canonicalThingId : UUID} {found : List ThingSource} {t : Table ThingSource}
    {r : ThingSource} (h : r ∈ copySources canonicalThingId found t) :
    r ∈ t ∨ r.thingId = canonicalThingId := by
  unfold copySources at h
  induction found generalizing t with
  | nil => exact .inl h
  | cons source found ih =>
    rcases ih h with hold | hnew
    · rcases Table.mem_insertOrIgnore hold with hold | rfl
      · exact .inl hold
      · exact .inr rfl
    · exact .inr hnew

theorem some_moved {p q : Prop} {a b : UUID} (h : p ∧ ¬(some a = some b ∧ q)) : p ∧ ¬(a = b ∧ q) :=
  ⟨h.1, fun hab => h.2 ⟨congrArg some hab.1, hab.2⟩⟩

/-- After a merge everything belongs to what it belonged to, or to the canonical Thing; what the merge
found of the duplicate belongs to the duplicate no more. -/
theorem MergeThings.Merges.holds {c : MergeThings} {canonical duplicate : Thing}
    (h : c.Merges fresh view s s' canonical duplicate) (hold : s'.Holds thingId holder) :
    thingId = canonical.id ∨ s.Holds thingId holder ∧
      ¬(thingId = duplicate.id ∧ (view holder.statement).Holds duplicate.id holder) := by
  obtain ⟨s₁, hrebound, hrecorded⟩ := h.rebound
  have haudited : s₁.Holds thingId holder := hrecorded.holds.mp hold
  simp only [rebindMergedReferences, bind_eq_ok, orRaise_eq_ok, pure_eq_ok] at hrebound
  obtain ⟨dates, hdates, rfl⟩ := hrebound
  cases holder with
  | task id =>
    have hmoved : Table.Belongs Task.id Task.thingId id (some thingId) _ := haudited
    exact (hmoved.of_moved rfl (fun _ => rfl) fun _ => rfl).imp Option.some.inj some_moved
  | date id =>
    have hmoved : Table.Belongs ThingDate.id ThingDate.thingId id thingId _ := haudited
    exact hmoved.of_moved (Table.rows_update? hdates) (fun _ => rfl) fun _ => rfl
  | blocker id =>
    have hmoved : Table.Belongs Blocker.id Blocker.thingId id thingId _ := haudited
    exact hmoved.of_moved rfl (fun _ => rfl) fun _ => rfl
  | contextEntry id =>
    have hmoved : Table.Belongs ThingContextEntry.id ThingContextEntry.thingId id thingId _ := haudited
    exact hmoved.of_moved rfl (fun _ => rfl) fun _ => rfl
  | automation id =>
    have hmoved : Table.Belongs Automation.id Automation.thingId id (some thingId) _ := haudited
    exact (hmoved.of_moved rfl (fun _ => rfl) fun _ => rfl).imp Option.some.inj some_moved
  | memory id =>
    have hmoved : Table.Belongs Memory.id Memory.thingId id (some thingId) _ := haudited
    exact (hmoved.of_moved rfl (fun _ => rfl) fun _ => rfl).imp Option.some.inj some_moved
  | thread id =>
    have hmoved : Table.Belongs Thread.id Thread.activeThingId id (some thingId) _ := haudited
    exact (hmoved.of_moved rfl (fun _ => rfl) fun _ => rfl).imp Option.some.inj some_moved
  | source id =>
    obtain ⟨r, hr, hk, howner⟩ := haudited
    obtain ⟨hcopied, hleft⟩ := Table.mem_delete.mp hr
    rcases mem_copySources hcopied with hold | hnew
    · refine .inr ⟨⟨r, hold, hk, howner⟩, ?_⟩
      rintro ⟨hthing, r₀, hr₀, hk₀, howner₀⟩
      have hin : Table.foundIn (fun r : ThingSource => (r.thingId, r.sourceId)) (view 12).thingSources
          (fun r => decide (r.thingId = duplicate.id)) r = true := by
        refine Table.foundIn_iff.mpr ⟨decide_eq_true (howner.trans hthing), r₀, hr₀, ?_,
          decide_eq_true howner₀⟩
        rw [howner, howner₀, hthing, hk, hk₀]
      rw [hin] at hleft
      cases hleft
    · exact .inl (howner.symm.trans hnew)

/-- Whatever belongs to a Thing after a transaction did before, or the transaction attached it. -/
theorem Op.Commits.holds {op : Op} (h : op.Commits cal view s s' reply)
    (hold : s'.Holds thingId holder) :
    s.Holds thingId holder ∨ op.attachesTo = some thingId := by
  cases op with
  | createThing c fresh =>
    obtain ⟨⟨-, things, -, hrecorded⟩, -⟩ := h
    rw [hrecorded.holds] at hold
    cases holder <;> exact .inl hold
  | updateThing c fresh =>
    obtain ⟨_, _, hrevises, -⟩ := h
    rw [hrevises.recorded.holds, setThing_holds] at hold
    exact .inl hold
  | changeArchive c fresh =>
    obtain ⟨_, hchanges, -⟩ := h
    rw [hchanges.recorded.holds, setThing_holds] at hold
    exact .inl hold
  | deleteThing c fresh =>
    obtain ⟨_, hdeletes, -⟩ := h
    rw [hdeletes.recorded.holds, setThing_holds] at hold
    exact .inl (deleteOwned_holds hold)
  | mergeThings c fresh =>
    obtain ⟨canonical, duplicate, hmerges, -⟩ := h
    obtain ⟨-, hid, -⟩ := ThingRepository.get_eq_some hmerges.canonicalFound
    rcases hmerges.holds hold with rfl | ⟨hbefore, -⟩
    · exact .inr (congrArg some hid.symm)
    · exact .inl hbefore
  | setDeadline c fresh =>
    obtain ⟨thing, value, hadds, -⟩ := h
    obtain ⟨-, hid, -⟩ := ThingRepository.get_eq_some hadds.found
    cases hprimary : c.isPrimary with
    | false =>
      obtain ⟨dates, hdates, hrecorded⟩ := hadds.plain hprimary
      rw [hrecorded.holds] at hold
      cases holder with
      | date id =>
        rcases Table.Belongs.of_insert? hold hdates with hbefore | howner
        · exact .inl hbefore
        · exact .inr (congrArg some (hid.symm.trans howner))
      | _ => exact .inl hold
    | true =>
      obtain ⟨dates, -, hdates, hrecorded⟩ := hadds.primary hprimary
      rw [hrecorded.holds] at hold
      cases holder with
      | date id =>
        rcases Table.Belongs.of_insert? hold hdates with hbefore | howner
        · exact .inl (Belongs.of_unsetPrimary hbefore)
        · exact .inr (congrArg some (hid.symm.trans howner))
      | _ => exact .inl hold
  | updateDate c fresh =>
    obtain ⟨thing, date, value, hcorrects, -⟩ := h
    obtain ⟨dates, hdates, ⟨-, -, hrecorded⟩ | ⟨-, -, hrecorded⟩⟩ := hcorrects.stored
    · rw [hrecorded.holds] at hold
      cases holder with
      | date id => exact .inl (Belongs.of_corrected hdates hold)
      | _ => exact .inl hold
    · rw [hrecorded.holds] at hold
      cases holder with
      | date id => exact .inl (Belongs.of_corrected hdates hold)
      | _ => exact .inl hold
  | createTask c fresh =>
    obtain ⟨thing, hcreates, -⟩ := h
    obtain ⟨tasks, htasks, hrecorded⟩ := hcreates.stored
    rw [hrecorded.holds] at hold
    cases holder with
    | task id =>
      rcases Table.Belongs.of_insert? hold htasks with hbefore | howner
      · exact .inl hbefore
      · exact .inr (hcreates.thing_eq.1.symm.trans howner)
    | _ => exact .inl hold
  | transitionTask c fresh =>
    obtain ⟨_, _, hchanges, -⟩ := h
    exact .inl (setTask_holds (hchanges.recorded.holds.mp hold))
  | completeTask c fresh =>
    obtain ⟨_, _, hcompletes, -⟩ := h
    exact .inl (setTask_holds (hcompletes.recorded.holds.mp hold))
  | createBlocker c fresh =>
    obtain ⟨hcreates, -⟩ := h
    obtain ⟨blockers, hblockers, hrecorded⟩ := hcreates.stored
    rw [hrecorded.holds] at hold
    cases holder with
    | blocker id => exact (Table.Belongs.of_insert? hold hblockers).imp_right (congrArg some)
    | _ => exact .inl hold
  | resolveBlocker c fresh =>
    obtain ⟨_, hresolves, -⟩ := h
    rw [hresolves.recorded.holds] at hold
    cases holder with
    | blocker id => exact .inl (Belongs.of_updatedBlocker hold)
    | _ => exact .inl hold
  | setThingContext c fresh =>
    obtain ⟨_, hsets, -⟩ := h
    obtain ⟨-, hadds⟩ | ⟨entry, -, hrevises⟩ := hsets.stored
    · obtain ⟨contextEntries, hentries, hrecorded⟩ := hadds.stored
      rw [hrecorded.holds] at hold
      cases holder with
      | contextEntry id =>
        refine (Table.Belongs.of_insert? hold hentries).imp_right fun howner => ?_
        rw [Op.attachesTo, if_pos hadds.named.1]
        exact congrArg some howner
      | _ => exact .inl hold
    · rw [hrevises.recorded.holds] at hold
      cases holder with
      | contextEntry id => exact .inl (Belongs.of_updatedEntry hold)
      | _ => exact .inl hold
  | linkToThing c fresh =>
    rw [h.1.recorded.holds] at hold
    cases holder with
    | source id => exact (Table.Belongs.of_insertOrIgnore hold).imp_right (congrArg some)
    | _ => exact .inl hold
  | addRelation c fresh =>
    rw [h.1.recorded.holds] at hold
    cases holder <;> exact .inl hold
  | deleteFile c fresh =>
    rw [h.1.recorded.holds] at hold
    cases holder <;> exact .inl hold
  | createAutomation c stamp =>
    obtain ⟨trigger, automations, hautomations, rfl⟩ := h
    cases holder with
    | automation id => exact Table.Belongs.of_insert? hold hautomations
    | _ => exact .inl hold
  | createMemory c stamp =>
    obtain ⟨-, -, superseded, before, memories, hbefore, hmemories, rfl⟩ := h
    cases holder with
    | memory id =>
      exact (Table.Belongs.of_insert? hold hmemories).imp_left (Belongs.of_superseded hbefore)
    | _ => exact .inl hold
  | createThread userId title key activeThingId stamp =>
    obtain ⟨thread, threads, -, -, hactive, hthreads, rfl⟩ := h
    cases holder with
    | thread id => exact (Table.Belongs.of_insert? hold hthreads).imp_right hactive.symm.trans
    | _ => exact .inl hold
  | automationThread c stamp =>
    obtain ⟨thread, threads, -, -, hactive, hthreads, rfl⟩ := h
    cases holder with
    | thread id => exact (Table.Belongs.of_insert? hold hthreads).imp_right hactive.symm.trans
    | _ => exact .inl hold
  | addSource source =>
    obtain ⟨_, -, rfl⟩ := h
    cases holder <;> exact .inl hold
  | upkeep w =>
    have heq : s' = w.apply s := h
    rw [heq] at hold
    exact .inl (upkeep_holds hold)

/-! ## Merged Things -/

/-- Nothing belongs to a merged Thing after a transaction that keeps off them. -/
theorem Op.Commits.untombed {op : Op} (h : op.Commits cal view s s' reply)
    (hlater : ∀ n, ThingsLater (view n) s) (hkeeps : op.KeepsOffTombstones view s)
    (hs : s.Untombed) : s'.Untombed := by
  obtain ⟨hattached, hfound⟩ := hkeeps h.isNew
  intro thingId holder hold
  cases hredirect : s'.redirect thingId with
  | none => rfl
  | some canonicalId =>
    exfalso
    -- the Thing redirects since before, or it is the duplicate of a merge
    rcases h.thingEffect.redirects hlater with hsub | ⟨c, fresh, canonical, duplicate, rfl, hmerges,
      hnew⟩
    · have hmerged := hsub _ _ hredirect
      rcases h.holds hold with hbefore | hattaches
      · rw [hs _ _ hbefore] at hmerged
        cases hmerged
      · rw [hattached _ hattaches] at hmerged
        cases hmerged
    · obtain ⟨-, hcanonical, -⟩ := ThingRepository.get_eq_some hmerges.canonicalFound
      obtain ⟨-, hduplicate, -⟩ := ThingRepository.get_eq_some hmerges.duplicateFound
      have hfree : s.redirect canonical.id = none := by
        rw [hcanonical]
        exact hattached _ rfl
      rcases hnew _ _ hredirect with hmerged | ⟨rfl, -⟩
      · rcases hmerges.holds hold with rfl | ⟨hbefore, -⟩
        · rw [hfree] at hmerged
          cases hmerged
        · rw [hs _ _ hbefore] at hmerged
          cases hmerged
      · rcases hmerges.holds hold with hsame | ⟨hbefore, hleft⟩
        · exact hmerges.distinct (hcanonical.symm.trans (hsame.symm.trans hduplicate))
        · rw [hduplicate] at hbefore hleft
          exact hleft ⟨rfl, hfound c fresh rfl holder hbefore⟩

/-- In every history in which no transaction attaches a row to a merged Thing, and in which every merge
finds all that belongs to its duplicate, nothing ever belongs to a merged Thing. -/
theorem nothing_on_tombstones (py : Builtins) (cal : Calendar) {h : History State Op Reply}
    (hr : (system py cal).ReachableIf (fun op view s => op.KeepsOffTombstones view s) h) :
    ∀ s ∈ h.states, s.Untombed := by
  have hstable := ((things_stable py cal).restrict
    (p := fun op view s => op.KeepsOffTombstones view s) fun _ _ _ _ => trivial).strengthen
    State.Untombed
    (fun s hs => by
      obtain rfl : s = {} := hs
      exact fun _ _ _ => rfl)
    (fun op view s _ hlaw hviews hkeeps => by
      rcases commit_cases py cal op view s with hsame | hcommits
      · have hlaw' : (commit py cal op view s).1.Untombed := by rwa [hsame]
        exact hlaw'
      · exact hcommits.untombed (fun n => (hviews n).2.2) hkeeps hlaw)
  exact fun s hs => (hstable.inv_mem hr hs).2

/-! ## A Task for a merged Thing -/

/-- User 1 creates a Task for Thing 20. -/
def packBoxes : CreateTask :=
  { userId := 1, thingId := some 20, title := "Pack boxes", actionId := "action",
    idempotencyKey := "pack", reason := "said so" }

/-- A Task of Thing 20 comes along when the Thing is merged into Thing 10. -/
theorem nothing_on_tombstones_packBoxes :
    ((system noRepr noDates).serial {} (createMoves ++
      [.createTask packBoxes (stampsFrom 30 0), .mergeThings mergeForth (stampsFrom 40 0)])).cur.Untombed := by
  have hmeets : (system noRepr noDates).SerialMeets (fun op view s => op.KeepsOffTombstones view s)
      ⟨{}, [], []⟩ (createMoves ++
        [.createTask packBoxes (stampsFrom 30 0), .mergeThings mergeForth (stampsFrom 40 0)]) := by
    refine ⟨fun _ => ⟨?_, ?_⟩, fun _ => ⟨?_, ?_⟩, fun _ => ⟨?_, ?_⟩, fun _ => ⟨?_, ?_⟩, trivial⟩
    · rintro thingId ⟨⟩
    · rintro c fresh ⟨⟩
    · rintro thingId ⟨⟩
    · rintro c fresh ⟨⟩
    · rintro thingId ⟨rfl⟩
      decide +kernel
    · rintro c fresh ⟨⟩
    · rintro thingId ⟨rfl⟩
      decide +kernel
    · exact fun _ _ _ _ h => h
  have hr := (system noRepr noDates).serial_reachableIf rfl _ hmeets
  exact nothing_on_tombstones noRepr noDates hr _ (.head _)

/-- A Task for Thing 20 after the Thing is merged into Thing 10. -/
def packedLate : History State Op Reply :=
  (system noRepr noDates).serial {} (createMoves ++
    [.mergeThings mergeForth (stampsFrom 30 0), .createTask packBoxes (stampsFrom 40 0)])

/-- A Task can be created for a merged Thing, and stays with it. -/
theorem packed_late_on_tombstone :
    (system noRepr noDates).Reachable packedLate ∧ packedLate.cur.redirect 20 = some 10 ∧
      packedLate.cur.Holds 20 (.task 40) ∧ ¬packedLate.cur.Untombed := by
  have hredirect : packedLate.cur.redirect 20 = some 10 := by decide +kernel
  have hholds : packedLate.cur.Holds 20 (.task 40) := by decide +kernel
  refine ⟨(system noRepr noDates).serial_reachable rfl _, hredirect, hholds, fun huntombed => ?_⟩
  rw [huntombed 20 _ hholds] at hredirect
  cases hredirect

end PersonalState
