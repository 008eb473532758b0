import Laoshiren.PersonalState.Attachments
import Laoshiren.PersonalState.Coherence
import Laoshiren.PersonalState.Proofs.WriteProofs
import Laoshiren.Runtime.System

/-!
# Proofs: merging two Things

What a merge does to the Personal State, and when it comes through with the dates that were there.
-/

namespace PersonalState

open Raise Runtime

variable {py : Builtins} {fresh : ℕ → Stamp} {view : ℕ → State} {s s' : State}
  {canonical duplicate thing thing' : Thing} {outcome : WriteOutcome}

/-! ## A Thing that is merged -/

/-- The tombstone of a Thing. -/
def Thing.merged (thing : Thing) (canonicalThingId : UUID) (now : Timestamp) : Thing :=
  { thing with
    mergedIntoThingId := some canonicalThingId
    updatedAt := now
    version := thing.version + 1 }

theorem mergeInto_eq_ok {canonicalThingId : UUID} {now : Timestamp} :
    thing.mergeInto canonicalThingId now = .ok thing' ↔ canonicalThingId ≠ thing.id ∧
      thing.mergedIntoThingId = none ∧ thing.merged canonicalThingId now = thing' := by
  simp only [Thing.mergeInto, bind_eq_ok, ensure_eq_ok, pure_eq_ok]
  constructor
  · rintro ⟨_, hid, _, hmerged, heq⟩
    exact ⟨hid, hmerged, heq⟩
  · rintro ⟨hid, hmerged, heq⟩
    exact ⟨(), hid, (), hmerged, heq⟩

/-! ## The audit -/

/-- The state after a write, with the mutation and the event in the timeline that the write records. -/
structure Recorded (m : StateMutation) (event : Option TimelineEvent) (s s' : State) : Prop where
  same : s' = { s with mutations := s'.mutations, timeline := s'.timeline }
  mutation : s.mutations.insert? m = some s'.mutations
  event : event.elim (some s.timeline) s.timeline.insert? = some s'.timeline

theorem Recorded.new {m : StateMutation} {event : Option TimelineEvent} (h : Recorded m event s s') :
    ∀ r ∈ s.mutations, r.idempotencyKey ≠ m.idempotencyKey := fun _ hr =>
  (not_or.mp (Table.not_conflict_of_insert? h.mutation hr)).2

theorem recorded_of_recordWith {db : Records} {m : StateMutation} {event : Option TimelineEvent}
    (h : s.setRecords (db.recordWith m event) = .ok s') :
    Recorded m event { s with toRecords := db } s' := by
  cases event with
  | some event =>
    simp only [State.setRecords, Records.recordWith, Records.record, bind_eq_ok, orRaise_eq_ok,
      pure_eq_ok] at h
    obtain ⟨_, ⟨mutations, hm, timeline, he, rfl⟩, rfl⟩ := h
    exact ⟨rfl, hm, he⟩
  | none =>
    simp only [State.setRecords, Records.recordWith, bind_eq_ok, orRaise_eq_ok, pure_eq_ok] at h
    obtain ⟨_, ⟨mutations, hm, rfl⟩, rfl⟩ := h
    exact ⟨rfl, hm, rfl⟩

theorem recorded_of_setRecords {db : Records} {m : StateMutation} {event : TimelineEvent}
    (h : s.setRecords (db.record m event) = .ok s') :
    Recorded m (some event) { s with toRecords := db } s' :=
  recorded_of_recordWith h

theorem recorded_of_record {db db' : Records} {m : StateMutation} {event : TimelineEvent}
    (h : db.record m event = .ok db') (s : State) :
    Recorded m (some event) { s with toRecords := db } { s with toRecords := db' } := by
  have hrecord : s.setRecords (db.record m event) = .ok { s with toRecords := db' } := by
    rw [State.setRecords, h]
    rfl
  exact recorded_of_setRecords hrecord

theorem exists_setRecords {db : Records} (m : StateMutation) (event : TimelineEvent)
    (hm : ∀ r ∈ db.mutations, r.id ≠ m.id ∧ r.idempotencyKey ≠ m.idempotencyKey)
    (he : ∀ e ∈ db.timeline, e.id ≠ event.id) (s : State) :
    ∃ s', s.setRecords (db.record m event) = .ok s' := by
  obtain ⟨db', hrecord, -⟩ := exists_record hm he
  refine ⟨{ s with toRecords := db' }, ?_⟩
  rw [State.setRecords, hrecord]
  rfl

/-! ## The bulk updates -/

/-- The dates that a statement over the state that it writes to moves: all of the duplicate's. -/
theorem update?_foundIn {t : Table ThingDate} {f : ThingDate → ThingDate} {p : ThingDate → Bool} :
    t.update? (Table.foundIn ThingDate.id t p) f = t.update? p f := by
  have hrows : t.rows.map (Table.updateRow (Table.foundIn ThingDate.id t p) f) =
      t.rows.map (Table.updateRow p f) := by
    refine List.map_congr_left fun r hr => ?_
    unfold Table.updateRow
    rw [Table.foundIn_self hr]
  unfold Table.update?
  simp only [hrows]

/-- `rebind_merged_references` leaves the Things and the audit alone. -/
theorem rebind_ok {duplicateThingId canonicalThingId : UUID}
    (h : rebindMergedReferences duplicateThingId canonicalThingId view s = .ok s') :
    s.dates.update? (Table.foundIn ThingDate.id (view 1).dates fun r => r.thingId = duplicateThingId)
        (fun r => { r with thingId := canonicalThingId }) = some s'.dates ∧
      s'.things = s.things ∧ s'.sources = s.sources ∧ s'.mutations = s.mutations ∧
      s'.timeline = s.timeline := by
  simp only [rebindMergedReferences, bind_eq_ok, orRaise_eq_ok, pure_eq_ok] at h
  obtain ⟨dates, hdates, rfl⟩ := h
  exact ⟨hdates, rfl, rfl, rfl, rfl⟩

theorem exists_rebind {duplicateThingId canonicalThingId : UUID} {dates : Table ThingDate}
    (h : s.dates.update? (Table.foundIn ThingDate.id (view 1).dates fun r =>
        r.thingId = duplicateThingId) (fun r => { r with thingId := canonicalThingId }) =
      some dates) :
    ∃ s', rebindMergedReferences duplicateThingId canonicalThingId view s = .ok s' := by
  simp only [rebindMergedReferences, bind_eq_ok, orRaise_eq_ok, pure_eq_ok]
  exact ⟨_, dates, h, rfl⟩

namespace MergeThings

variable {c : MergeThings}

/-- The mutation of a merge. -/
def mutated (c : MergeThings) (canonical duplicate : Thing) (fresh : ℕ → Stamp) : StateMutation :=
  c.mutation canonical (duplicate.merged canonical.id (fresh 0).now) (fresh 1)

/-- The event of a merge in the timeline. -/
def entered (c : MergeThings) (canonical duplicate : Thing) (fresh : ℕ → Stamp) : TimelineEvent :=
  c.event canonical (duplicate.merged canonical.id (fresh 0).now)
    (c.mutated canonical duplicate fresh) (fresh 2)

/-- A merge that was carried out. -/
structure Merges (c : MergeThings) (fresh : ℕ → Stamp) (view : ℕ → State) (s s' : State)
    (canonical duplicate : Thing) : Prop where
  distinct : c.canonicalThingId ≠ c.duplicateThingId
  new : AuditRepository.getMutation c.userId c.idempotencyKey (view 0).mutations = none
  canonicalFound : ThingRepository.get c.userId c.canonicalThingId (view 1).things = some canonical
  duplicateFound : ThingRepository.get c.userId c.duplicateThingId (view 2).things = some duplicate
  canonicalVersion : (canonical.version : ℤ) = c.expectedCanonicalVersion
  duplicateVersion : (duplicate.version : ℤ) = c.expectedDuplicateVersion
  unmerged : duplicate.mergedIntoThingId = none
  updated : (ThingRepository.update (duplicate.merged canonical.id (fresh 0).now)
    c.expectedDuplicateVersion s.things).2 = true
  unrecorded : s.Unrecorded c.idempotencyKey fresh
  rebound : ∃ s₁, rebindMergedReferences duplicate.id canonical.id (fun n => view (n + 3))
      { s with things := (ThingRepository.update (duplicate.merged canonical.id (fresh 0).now)
        c.expectedDuplicateVersion s.things).1 } = .ok s₁ ∧
    Recorded (c.mutated canonical duplicate fresh) (some (c.entered canonical duplicate fresh)) s₁ s'

/-- A merge that answers was answered from an earlier mutation, or was carried out. -/
theorem ok_cases (h : applyMergeThings py c fresh view s = .ok (s', outcome)) :
    (∃ previous, AuditRepository.getMutation c.userId c.idempotencyKey (view 0).mutations =
        some previous ∧ MergeThings.replay py previous = .ok outcome ∧ s' = s) ∨
      ∃ canonical duplicate, c.Merges fresh view s s' canonical duplicate ∧
        outcome = MergeThings.outcome canonical (duplicate.merged canonical.id (fresh 0).now)
          (c.mutated canonical duplicate fresh) := by
  simp only [applyMergeThings, bind_eq_ok, ensure_eq_ok] at h
  obtain ⟨_, hdistinct, h⟩ := h
  cases hnew : AuditRepository.getMutation c.userId c.idempotencyKey (view 0).mutations with
  | some previous =>
    simp only [hnew, bind_eq_ok, pure_eq_ok, Prod.mk.injEq] at h
    obtain ⟨_, hreplay, rfl, rfl⟩ := h
    exact Or.inl ⟨previous, rfl, hreplay, rfl⟩
  | none =>
    simp only [hnew, bind_eq_ok, orRaise_eq_ok, ensure_eq_ok, pure_eq_ok, mergeInto_eq_ok,
      Prod.mk.injEq] at h
    obtain ⟨canonical, hcanonical, duplicate, hduplicate, _, hversion, _, hversion', _,
      ⟨hid, hunmerged, rfl⟩, _, hupdated, s₁, hrebound, _, hrecord, rfl, rfl⟩ := h
    have hrecorded := recorded_of_setRecords hrecord
    obtain ⟨-, -, -, hmutations₁, htimeline₁⟩ := rebind_ok hrebound
    refine Or.inr ⟨canonical, duplicate, ⟨hdistinct, hnew, hcanonical, hduplicate, hversion,
      hversion', hunmerged, hupdated, ⟨?_, ?_⟩, s₁, hrebound, hrecorded⟩, rfl⟩
    · rw [← hmutations₁]
      exact fun r hr => not_or.mp (Table.not_conflict_of_insert? hrecorded.mutation hr)
    · rw [← htimeline₁]
      exact fun r hr => Table.not_conflict_of_insert? hrecorded.event hr

/-- A merge over the state that it read meets a unique constraint where the two Things have primary
dates of one kind. -/
theorem exists_update?_iff (hdistinct : canonical.id ≠ duplicate.id) :
    (∃ dates, s.dates.update? (fun r => r.thingId = duplicate.id)
      (fun r => { r with thingId := canonical.id }) = some dates) ↔
        ¬s.BothPrimary canonical.id duplicate.id := by
  have hrow : ∀ r : ThingDate, Table.updateRow (fun r => decide (r.thingId = duplicate.id))
      (fun r => { r with thingId := canonical.id }) r =
        { r with thingId := if r.thingId = duplicate.id then canonical.id else r.thingId } := by
    intro r
    unfold Table.updateRow
    split <;> simp_all
  constructor
  · rintro ⟨dates, hdates⟩ ⟨r, hr, r', hr', hthing, hthing', hkind, hprimary, hprimary'⟩
    have hmem := (Table.mem_update? hdates).mpr ⟨r, hr, hrow r⟩
    have hmem' := (Table.mem_update? hdates).mpr ⟨r', hr', hrow r'⟩
    rw [if_neg fun h => hdistinct (hthing.symm.trans h)] at hmem
    rw [if_pos hthing'] at hmem'
    have hsame := Table.eq_of_conflict hmem hmem' (Or.inr ⟨hthing, hkind, hprimary, hprimary'⟩)
    have hid := congrArg ThingDate.id hsame
    have heq := Table.eq_of_conflict hr hr' (Or.inl hid)
    exact hdistinct (hthing.symm.trans (heq ▸ hthing'))
  · intro hnone
    refine Table.exists_update? fun r hr r' hr' hconflict => ?_
    rw [hrow, hrow] at hconflict
    rcases hconflict with hid | ⟨hthing, hkind, hprimary, hprimary'⟩
    · exact Or.inl hid
    · refine Or.inr ⟨?_, hkind, hprimary, hprimary'⟩
      -- one of the two is a date of the duplicate, and the other one of the canonical Thing
      by_cases hmoved : r.thingId = duplicate.id
      · by_cases hmoved' : r'.thingId = duplicate.id
        · exact hmoved.trans hmoved'.symm
        · rw [if_pos hmoved, if_neg hmoved'] at hthing
          exact absurd ⟨r', hr', r, hr, hthing.symm, hmoved, hkind.symm, hprimary', hprimary⟩ hnone
      · by_cases hmoved' : r'.thingId = duplicate.id
        · rw [if_neg hmoved, if_pos hmoved'] at hthing
          exact absurd ⟨r, hr, r', hr', hthing, hmoved', hkind, hprimary, hprimary'⟩ hnone
        · rwa [if_neg hmoved, if_neg hmoved'] at hthing

/-- A merge keeps the dates: it moves those of the duplicate, and only their Thing changes. -/
theorem Merges.keepsDates (h : c.Merges fresh view s s' canonical duplicate) : c.KeepsDates s s' := by
  obtain ⟨s₁, hrebound, hs'⟩ := h.rebound
  obtain ⟨hdates, -⟩ := rebind_ok hrebound
  have hsame : s'.dates = s₁.dates := by rw [hs'.same]
  refine ⟨fun r hr r' hr' hthing hkind hprimary hprimary' => ?_, fun r hr => ?_⟩
  · exact Table.eq_of_conflict hr hr' (Or.inr ⟨hthing, hkind, hprimary, hprimary'⟩)
  · refine ⟨_, hsame ▸ (Table.mem_update? hdates).mpr ⟨r, hr, rfl⟩, ?_, fun hother => ?_⟩
    · unfold Table.updateRow
      split <;> rfl
    · obtain ⟨-, hid, -⟩ := ThingRepository.get_eq_some h.duplicateFound
      have hout : Table.foundIn ThingDate.id (view 4).dates
          (fun r => decide (r.thingId = duplicate.id)) r = false := by
        simp [Table.foundIn, hid, hother]
      rw [Table.updateRow_neg hout]

theorem KeepsDates.refl (c : MergeThings) (s : State) : c.KeepsDates s s := by
  refine ⟨fun r hr r' hr' hthing hkind hprimary hprimary' => ?_, fun r hr => ?_⟩
  · exact Table.eq_of_conflict hr hr' (Or.inr ⟨hthing, hkind, hprimary, hprimary'⟩)
  · exact ⟨r, hr, rfl, fun _ => rfl⟩

/-- A merge whose key is new and whose Things share no kind of primary date is carried out. -/
theorem Reads.exists_ok (hreads : c.Reads s canonical duplicate)
    (hnew : AuditRepository.getMutation c.userId c.idempotencyKey s.mutations = none)
    (hkey : ∀ m ∈ s.mutations, m.idempotencyKey ≠ c.idempotencyKey)
    (hids : (∀ m ∈ s.mutations, m.id ≠ (fresh 1).id) ∧ ∀ e ∈ s.timeline, e.id ≠ (fresh 2).id)
    (hfree : ¬s.BothPrimary c.canonicalThingId c.duplicateThingId) (py : Builtins) :
    ∃ s' outcome, applyMergeThings py c fresh (fun _ => s) s = .ok (s', outcome) := by
  obtain ⟨hmem, hid, -⟩ := ThingRepository.get_eq_some hreads.duplicateFound
  obtain ⟨-, hid', -⟩ := ThingRepository.get_eq_some hreads.canonicalFound
  have hdistinct : canonical.id ≠ duplicate.id := by
    rw [hid, hid']
    exact hreads.distinct
  obtain ⟨hupdated, -⟩ := update_thing hmem
    (rfl : (duplicate.merged canonical.id (fresh 0).now).id = duplicate.id) hreads.duplicateVersion
  generalize hthings : (ThingRepository.update (duplicate.merged canonical.id (fresh 0).now)
    c.expectedDuplicateVersion s.things).1 = things
  rw [← hid, ← hid'] at hfree
  obtain ⟨dates, hdates⟩ := (exists_update?_iff hdistinct).mpr hfree
  rw [← update?_foundIn] at hdates
  obtain ⟨s₁, hrebound⟩ : ∃ s₁, rebindMergedReferences duplicate.id canonical.id (fun _ => s)
    { s with things } = .ok s₁ := exists_rebind hdates
  obtain ⟨-, -, -, hmutations, htimeline⟩ := rebind_ok hrebound
  have hm : ∀ r ∈ s₁.mutations, r.id ≠ (fresh 1).id ∧ r.idempotencyKey ≠ c.idempotencyKey := by
    rw [hmutations]
    exact fun r hr => ⟨hids.1 r hr, hkey r hr⟩
  have he : ∀ e ∈ s₁.timeline, e.id ≠ (fresh 2).id := by
    rw [htimeline]
    exact hids.2
  let m := c.mutation canonical (duplicate.merged canonical.id (fresh 0).now) (fresh 1)
  obtain ⟨s', hrecord⟩ := exists_setRecords m
    (c.event canonical (duplicate.merged canonical.id (fresh 0).now) m (fresh 2)) hm he s₁
  refine ⟨s', MergeThings.outcome canonical (duplicate.merged canonical.id (fresh 0).now) m, ?_⟩
  simp only [applyMergeThings, bind_eq_ok, ensure_eq_ok, hnew, orRaise_eq_ok, pure_eq_ok,
    mergeInto_eq_ok, Prod.mk.injEq]
  refine ⟨(), hreads.distinct, canonical, hreads.canonicalFound, duplicate, hreads.duplicateFound, (),
    hreads.canonicalVersion, (), hreads.duplicateVersion, _, ⟨hdistinct, hreads.duplicateUnmerged, rfl⟩,
    (), hupdated, s₁, ?_, s', hrecord, rfl, rfl⟩
  rw [hthings]
  exact hrebound

end MergeThings

/-- A merge of two live Things, each at the version that the caller expects, goes through and keeps the
dates if and only if its key is new and no kind of date has a primary date on both (or the key is
known, and the merge is answered from the mutation that has it). -/
theorem merge_keeps_dates_iff (py : Builtins) (c : MergeThings) (fresh : ℕ → Stamp) (s : State)
    (canonical duplicate : Thing) (hreads : c.Reads s canonical duplicate)
    (hids : (∀ m ∈ s.mutations, m.id ≠ (fresh 1).id) ∧ ∀ e ∈ s.timeline, e.id ≠ (fresh 2).id) :
    (∃ s' outcome, applyMergeThings py c fresh (fun _ => s) s = .ok (s', outcome) ∧
      c.KeepsDates s s') ↔ c.CanMerge s := by
  unfold MergeThings.CanMerge
  cases hnew : AuditRepository.getMutation c.userId c.idempotencyKey s.mutations with
  | some previous =>
    simp only [applyMergeThings, hnew, bind_eq_ok, ensure_eq_ok, pure_eq_ok, Prod.mk.injEq,
      MergeThings.replay, orRaise_eq_ok, Option.isSome_iff_exists]
    constructor
    · rintro ⟨s', outcome, ⟨_, -, _, ⟨version, hversion, -⟩, -⟩, -⟩
      exact ⟨version, hversion⟩
    · rintro ⟨version, hversion⟩
      exact ⟨s, _, ⟨(), hreads.distinct, _, ⟨version, hversion, rfl⟩, rfl, rfl⟩, .refl c s⟩
  | none =>
    obtain ⟨-, hid, -⟩ := ThingRepository.get_eq_some hreads.duplicateFound
    obtain ⟨-, hid', -⟩ := ThingRepository.get_eq_some hreads.canonicalFound
    constructor
    · rintro ⟨s', outcome, hok, -⟩
      rcases MergeThings.ok_cases hok with ⟨previous, hprevious, -⟩ | ⟨canonical', duplicate', h, -⟩
      · rw [hnew] at hprevious
        cases hprevious
      · obtain rfl := Option.some.inj (h.canonicalFound.symm.trans hreads.canonicalFound)
        obtain rfl := Option.some.inj (h.duplicateFound.symm.trans hreads.duplicateFound)
        obtain ⟨s₁, hrebound, -⟩ := h.rebound
        obtain ⟨hdates, -⟩ := rebind_ok hrebound
        rw [update?_foundIn] at hdates
        have hdistinct : canonical'.id ≠ duplicate'.id := by
          rw [hid, hid']
          exact hreads.distinct
        refine ⟨fun m hm => (h.unrecorded.1 m hm).2, ?_⟩
        rw [← hid, ← hid']
        exact (MergeThings.exists_update?_iff hdistinct).mp ⟨_, hdates⟩
    · rintro ⟨hkey, hfree⟩
      obtain ⟨s', outcome, hok⟩ := hreads.exists_ok hnew hkey hids hfree py
      refine ⟨s', outcome, hok, ?_⟩
      rcases MergeThings.ok_cases hok with ⟨-, -, -, rfl⟩ | ⟨_, _, h, -⟩
      · exact .refl c _
      · exact h.keepsDates

/-! ## Two Things with a deadline each -/

/-- The Things 3 and 4 of user 1, with the dates `dates`. -/
def twoThings (dates : Table ThingDate) : State where
  things := ⟨[{ userId := 1, name := "Move", id := 3, createdAt := 0, updatedAt := 0 },
    { userId := 1, name := "Moving", id := 4, createdAt := 0, updatedAt := 0 }], by decide⟩
  dates := dates

/-- A primary date of a Thing. -/
def primaryDate (id thingId : UUID) (kind : ThingDateType) : ThingDate :=
  { thingId, kind, value := 7, timezoneName := "UTC", precision := .date, certainty := .confirmed,
    id, isPrimary := true, createdAt := 0, updatedAt := 0 }

/-- User 1 merges Thing 4 into Thing 3. -/
def mergeMoves : MergeThings :=
  { userId := 1, canonicalThingId := 3, duplicateThingId := 4, expectedCanonicalVersion := 1,
    expectedDuplicateVersion := 1, actionId := "action", idempotencyKey := "key", reason := "same" }

/-- An interpreter that prints no value. -/
def noRepr : Builtins := ⟨fun _ => none, fun _ => ""⟩

theorem mergeMoves_reads (dates : Table ThingDate) :
    mergeMoves.Reads (twoThings dates)
      { userId := 1, name := "Move", id := 3, createdAt := 0, updatedAt := 0 }
      { userId := 1, name := "Moving", id := 4, createdAt := 0, updatedAt := 0 } :=
  ⟨by decide, by rfl, by rfl, rfl, rfl, rfl, rfl⟩

/-- A deadline and an event come together. -/
theorem merge_keeps_dates_iff_mergeMoves :
    ∃ s' outcome, applyMergeThings noRepr mergeMoves (stampsFrom 10 0)
        (fun _ => twoThings ⟨[primaryDate 5 3 .deadline, primaryDate 6 4 .event], by decide⟩)
        (twoThings ⟨[primaryDate 5 3 .deadline, primaryDate 6 4 .event], by decide⟩) =
          .ok (s', outcome) ∧
      mergeMoves.KeepsDates
        (twoThings ⟨[primaryDate 5 3 .deadline, primaryDate 6 4 .event], by decide⟩) s' :=
  (merge_keeps_dates_iff noRepr mergeMoves (stampsFrom 10 0) _ _ _ (mergeMoves_reads _)
    (by decide)).mpr ⟨by decide, by decide⟩

/-- Two Things with a deadline each cannot be merged. -/
theorem two_deadlines_not_merged :
    mergeMoves.Reads (twoThings ⟨[primaryDate 5 3 .deadline, primaryDate 6 4 .deadline], by decide⟩)
        { userId := 1, name := "Move", id := 3, createdAt := 0, updatedAt := 0 }
        { userId := 1, name := "Moving", id := 4, createdAt := 0, updatedAt := 0 } ∧
      applyMergeThings noRepr mergeMoves (stampsFrom 10 0)
        (fun _ => twoThings ⟨[primaryDate 5 3 .deadline, primaryDate 6 4 .deadline], by decide⟩)
        (twoThings ⟨[primaryDate 5 3 .deadline, primaryDate 6 4 .deadline], by decide⟩) =
          .error .integrityError :=
  ⟨mergeMoves_reads _, by decide +kernel⟩

end PersonalState
