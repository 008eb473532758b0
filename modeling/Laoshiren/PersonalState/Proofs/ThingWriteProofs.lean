import Laoshiren.PersonalState.Proofs.MergeProofs
import Laoshiren.PersonalState.System

/-!
# Proofs: what a write on a Thing or a date does

One lemma for each write: a write that answers found the mutation of an earlier one and left the state as
it was, or it read the Thing or the date at the version that it expects and changed the tables that it
is about.
-/

namespace PersonalState

open Raise Runtime

variable {py : Builtins} {cal : Calendar} {fresh : ℕ → Stamp} {view : ℕ → State} {s s' : State}
  {thing thing' : Thing} {outcome : WriteOutcome}

/-! ## Shapes of writes -/

/-- The state with `thing'` in the place of `thing`. -/
def State.setThing (s : State) (thing thing' : Thing) : State :=
  { s with things := (ThingRepository.update thing' thing.version s.things).1 }

/-- A Thing that a statement read is written, at the version that was read. -/
structure Writes (view : ℕ → State) (s : State) (thing thing' : Thing) : Prop where
  read : ∃ n, thing ∈ (view n).things
  id_eq : thing'.id = thing.id
  userId_eq : thing'.userId = thing.userId
  createdAt_eq : thing'.createdAt = thing.createdAt
  version : thing' = thing ∨ thing'.version = thing.version + 1
  updated : (ThingRepository.update thing' thing.version s.things).2 = true

/-- An earlier write has the key of the transaction: its mutation is there to answer from. -/
def Op.Seen (op : Op) (view : ℕ → State) : Prop :=
  ∃ userId key, op.request = some (userId, key) ∧
    AuditRepository.getMutation userId key (view 0).mutations ≠ none

theorem Recorded.things {m : StateMutation} {event : Option TimelineEvent}
    (h : Recorded m event s s') : s'.things = s.things := congrArg (·.things) h.same

theorem Recorded.dates {m : StateMutation} {event : Option TimelineEvent}
    (h : Recorded m event s s') : s'.dates = s.dates := congrArg (·.dates) h.same

/-! ## Writes on Things -/

namespace CreateThing

/-- The mutation of a new Thing. -/
def mutated (c : CreateThing) (fresh : ℕ → Stamp) : StateMutation :=
  c.mutation (c.thing (fresh 0)) (fresh 1)

/-- A Thing is created. -/
structure Creates (c : CreateThing) (fresh : ℕ → Stamp) (s s' : State) : Prop where
  valid : Text.strip c.name ≠ ""
  stored : ∃ things, s.things.insert? (c.thing (fresh 0)) = some things ∧
    Recorded (c.mutated fresh) (some (c.event (c.thing (fresh 0)) (c.mutated fresh) (fresh 2)))
      { s with things } s'

end CreateThing

theorem applyCreateThing_ok {c : CreateThing}
    (h : applyCreateThing c fresh view s = .ok (s', outcome)) :
    (Op.createThing c fresh).Seen view ∧ s' = s ∨ c.Creates fresh s s' ∧
      outcome = CreateThing.outcome (c.thing (fresh 0)) (c.mutated fresh).id false := by
  simp only [applyCreateThing, bind_eq_ok, ensure_eq_ok] at h
  obtain ⟨_, hvalid, h⟩ := h
  split at h
  next _ previous hseen =>
    simp only [bind_eq_ok, pure_eq_ok, Prod.mk.injEq] at h
    obtain ⟨_, -, rfl, -⟩ := h
    exact .inl ⟨⟨_, _, rfl, by simp [hseen]⟩, rfl⟩
  next =>
    simp only [bind_eq_ok, orRaise_eq_ok, pure_eq_ok, Prod.mk.injEq] at h
    obtain ⟨things, hthings, _, hrecord, rfl, rfl⟩ := h
    exact .inr ⟨⟨hvalid, things, hthings, recorded_of_setRecords hrecord⟩, rfl⟩

theorem revise_ok {name : Option String} {status : Option ThingStatus}
    {currentStage : Option String} {update : Bool} {now : Timestamp}
    (h : thing.revise name status currentStage update now = .ok thing') :
    ∃ name currentStage, thing' = { thing with
      name, status := status.getD thing.status, currentStage }.touch now := by
  simp only [Thing.revise, bind_eq_ok, pure_eq_ok] at h
  obtain ⟨_, -, rfl⟩ := h
  exact ⟨_, _, rfl⟩

namespace UpdateThing

/-- A Thing is revised. -/
structure Revises (c : UpdateThing) (fresh : ℕ → Stamp) (view : ℕ → State) (s s' : State)
    (thing thing' : Thing) : Prop where
  edits : c.name ≠ none ∨ c.status ≠ none ∨ c.updateCurrentStage = true
  found : ThingRepository.get c.userId c.thingId (view 1).things = some thing
  expected : (thing.version : ℤ) = c.expectedVersion
  revised : thing.revise c.name c.status c.currentStage c.updateCurrentStage (fresh 0).now =
    .ok thing'
  updated : (ThingRepository.update thing' thing.version s.things).2 = true
  recorded : Recorded (c.mutation thing thing' (fresh 1))
    (some (c.event thing' (c.mutation thing thing' (fresh 1)) (fresh 2)))
    (s.setThing thing thing') s'

variable {c : UpdateThing}

theorem Revises.writes (h : c.Revises fresh view s s' thing thing') : Writes view s thing thing' := by
  obtain ⟨name, currentStage, rfl⟩ := revise_ok h.revised
  exact ⟨⟨1, (ThingRepository.get_eq_some h.found).1⟩, rfl, rfl, rfl, .inr rfl, h.updated⟩

theorem Revises.keeps (h : c.Revises fresh view s s' thing thing') :
    thing'.mergedIntoThingId = thing.mergedIntoThingId ∧ thing'.deletedAt = thing.deletedAt ∧
      thing'.deadlineAt = thing.deadlineAt ∧ thing'.archivedAt = thing.archivedAt := by
  obtain ⟨name, currentStage, rfl⟩ := revise_ok h.revised
  exact ⟨rfl, rfl, rfl, rfl⟩

end UpdateThing

theorem updateThingAt_ok {c : UpdateThing} {db' : Records}
    (h : updateThingAt c fresh (fun n => (view n).toRecords) s.toRecords = .ok (db', thing')) :
    (Op.updateThing c fresh).Seen view ∧ db' = s.toRecords ∨
      ∃ thing, c.Revises fresh view s { s with toRecords := db' } thing thing' := by
  simp only [updateThingAt, bind_eq_ok, ensure_eq_ok] at h
  obtain ⟨_, hedits, h⟩ := h
  split at h
  next _ previous hseen =>
    simp only [bind_eq_ok, pure_eq_ok, Prod.mk.injEq] at h
    obtain ⟨_, -, rfl, -⟩ := h
    exact .inl ⟨⟨_, _, rfl, by simp [hseen]⟩, rfl⟩
  next =>
    simp only [bind_eq_ok, orRaise_eq_ok, ensure_eq_ok, pure_eq_ok, Prod.mk.injEq] at h
    obtain ⟨thing, hfound, _, hversion, _, hrevise, _, hupdated, db₁, hrecord, rfl, rfl⟩ := h
    rw [← hversion] at hupdated hrecord
    exact .inr ⟨thing, hedits, hfound, hversion, hrevise, hupdated, recorded_of_record hrecord s⟩

namespace ChangeArchive

/-- The Thing after the change. -/
def changed (c : ChangeArchive) (thing : Thing) (now : Timestamp) : Thing :=
  if c.archive then thing.archive now else thing.unarchive now

/-- The mutation of the change. -/
def mutated (cal : Calendar) (c : ChangeArchive) (thing : Thing) (fresh : ℕ → Stamp) :
    StateMutation :=
  c.mutation cal thing (c.changed thing (fresh 0).now) (fresh 1)

/-- A Thing is archived, or taken out of the archive. -/
structure Changes (cal : Calendar) (c : ChangeArchive) (fresh : ℕ → Stamp) (view : ℕ → State)
    (s s' : State) (thing : Thing) : Prop where
  found : ThingRepository.get c.userId c.thingId (view 1).things = some thing
  expected : (thing.version : ℤ) = c.expectedVersion
  updated : (ThingRepository.update (c.changed thing (fresh 0).now) thing.version s.things).2 = true
  recorded : Recorded (c.mutated cal thing fresh)
    (some (c.event (c.changed thing (fresh 0).now) (c.mutated cal thing fresh) (fresh 2)))
    (s.setThing thing (c.changed thing (fresh 0).now)) s'

variable {c : ChangeArchive}

/-- The change leaves a Thing as it was that is where it should be, and else advances it. -/
theorem changed_cases (c : ChangeArchive) (thing : Thing) (now : Timestamp) :
    (c.archive = true ↔ thing.archivedAt ≠ none) ∧ c.changed thing now = thing ∨
      (c.archive = true ↔ thing.archivedAt = none) ∧ c.changed thing now =
        { thing with
          archivedAt := if c.archive then some now else none
          updatedAt := now
          version := thing.version + 1 } := by
  unfold changed Thing.archive Thing.unarchive
  cases c.archive <;> by_cases harchived : thing.archivedAt = none <;> simp [harchived]

/-- The change is about the archive alone. -/
theorem changed_keeps (c : ChangeArchive) (thing : Thing) (now : Timestamp) :
    (c.changed thing now).mergedIntoThingId = thing.mergedIntoThingId ∧
      (c.changed thing now).deletedAt = thing.deletedAt ∧
      (c.changed thing now).deadlineAt = thing.deadlineAt ∧
      (c.changed thing now).status = thing.status := by
  rcases c.changed_cases thing now with ⟨-, h⟩ | ⟨-, h⟩ <;> rw [h] <;> exact ⟨rfl, rfl, rfl, rfl⟩

theorem Changes.writes (h : c.Changes cal fresh view s s' thing) :
    Writes view s thing (c.changed thing (fresh 0).now) := by
  have hread : ∃ n, thing ∈ (view n).things := ⟨1, (ThingRepository.get_eq_some h.found).1⟩
  have hupdated := h.updated
  rcases c.changed_cases thing (fresh 0).now with ⟨-, heq⟩ | ⟨-, heq⟩ <;> rw [heq] at hupdated ⊢
  · exact ⟨hread, rfl, rfl, rfl, .inl rfl, hupdated⟩
  · exact ⟨hread, rfl, rfl, rfl, .inr rfl, hupdated⟩

end ChangeArchive

theorem applyChangeArchive_ok {c : ChangeArchive}
    (h : applyChangeArchive cal c fresh view s = .ok (s', outcome)) :
    (Op.changeArchive c fresh).Seen view ∧ s' = s ∨
      ∃ thing, c.Changes cal fresh view s s' thing ∧
        outcome = c.outcome (c.changed thing (fresh 0).now) (c.mutated cal thing fresh) := by
  unfold applyChangeArchive at h
  split at h
  next _ previous hseen =>
    simp only [pure_eq_ok, Prod.mk.injEq] at h
    exact .inl ⟨⟨_, _, rfl, by simp [hseen]⟩, h.1.symm⟩
  next =>
    simp only [bind_eq_ok, orRaise_eq_ok, ensure_eq_ok, pure_eq_ok, Prod.mk.injEq] at h
    obtain ⟨thing, hfound, _, hversion, _, hupdated, _, hrecord, rfl, rfl⟩ := h
    rw [← hversion] at hupdated hrecord
    exact .inr ⟨thing, ⟨hfound, hversion, hupdated, recorded_of_setRecords hrecord⟩, rfl⟩

/-- A Thing that is deleted. -/
def Thing.deleted (thing : Thing) (now : Timestamp) : Thing :=
  { thing with deletedAt := some now, updatedAt := now, version := thing.version + 1 }

namespace DeleteThing

/-- The mutation of the deletion. -/
def mutated (cal : Calendar) (c : DeleteThing) (thing : Thing) (fresh : ℕ → Stamp) :
    StateMutation :=
  c.mutation cal thing (thing.deleted (fresh 0).now) (fresh 1)

/-- A Thing is deleted with what it owns. -/
structure Deletes (cal : Calendar) (c : DeleteThing) (fresh : ℕ → Stamp) (view : ℕ → State)
    (s s' : State) (thing : Thing) : Prop where
  found : ThingRepository.getIncludingDeleted c.userId c.thingId (view 1).things = some thing
  live : thing.deletedAt = none
  unmerged : thing.mergedIntoThingId = none
  expected : (thing.version : ℤ) = c.expectedVersion
  updated : (ThingRepository.update (thing.deleted (fresh 0).now) thing.version s.things).2 = true
  recorded : Recorded (c.mutated cal thing fresh)
    (some (c.event (thing.deleted (fresh 0).now) (c.mutated cal thing fresh) (fresh 2)))
    ((deleteOwnedComponents thing.id (fun n => view (n + 2)) s).setThing thing
      (thing.deleted (fresh 0).now)) s'

theorem Deletes.writes {c : DeleteThing} (h : c.Deletes cal fresh view s s' thing) :
    Writes view s thing (thing.deleted (fresh 0).now) :=
  ⟨⟨1, (Table.get_eq_some h.found).1⟩, rfl, rfl, rfl, .inr rfl, h.updated⟩

end DeleteThing

theorem applyDeleteThing_ok {c : DeleteThing}
    (h : applyDeleteThing cal c fresh view s = .ok (s', outcome)) :
    (Op.deleteThing c fresh).Seen view ∧ s' = s ∨
      ∃ thing, c.Deletes cal fresh view s s' thing ∧
        outcome = DeleteThing.outcome (thing.deleted (fresh 0).now) (c.mutated cal thing fresh) := by
  unfold applyDeleteThing at h
  split at h
  next _ previous hseen =>
    simp only [bind_eq_ok, pure_eq_ok, Prod.mk.injEq] at h
    obtain ⟨_, -, rfl, -⟩ := h
    exact .inl ⟨⟨_, _, rfl, by simp [hseen]⟩, rfl⟩
  next =>
    simp only [bind_eq_ok, orRaise_eq_ok, ensure_eq_ok, pure_eq_ok, Prod.mk.injEq] at h
    obtain ⟨thing, hfound, _, hlive, _, hversion, _, hdelete, _, hupdated, _, hrecord, rfl, rfl⟩ := h
    simp only [Thing.delete, hlive, if_true, bind_eq_ok, ensure_eq_ok, pure_eq_ok] at hdelete
    obtain ⟨_, hunmerged, rfl⟩ := hdelete
    rw [← hversion] at hupdated hrecord
    exact .inr ⟨thing, ⟨hfound, hlive, hunmerged, hversion, hupdated,
      recorded_of_setRecords hrecord⟩, rfl⟩

/-- A merge writes the duplicate. -/
theorem MergeThings.Merges.writes {c : MergeThings} {canonical duplicate : Thing}
    (h : c.Merges fresh view s s' canonical duplicate) :
    Writes view s duplicate (duplicate.merged canonical.id (fresh 0).now) := by
  refine ⟨⟨2, (ThingRepository.get_eq_some h.duplicateFound).1⟩, rfl, rfl, rfl, .inr rfl, ?_⟩
  rw [h.duplicateVersion]
  exact h.updated

/-! ## Writes on dates -/

theorem setPrimaryDeadline_ok {value : DateTime} {now : Timestamp}
    (h : thing.setPrimaryDeadline value now = .ok thing') :
    ∃ instant, value.instant = some instant ∧
      thing' = { thing with deadlineAt := some instant }.touch now := by
  simp only [Thing.setPrimaryDeadline, bind_eq_ok, orRaise_eq_ok, pure_eq_ok] at h
  obtain ⟨instant, hinstant, rfl⟩ := h
  exact ⟨instant, hinstant, rfl⟩

namespace SetDeadline

/-- The Thing of a new date. -/
def newThing (c : SetDeadline) (thing : Thing) (value now : Timestamp) : Thing :=
  if c.isPrimary then { thing with deadlineAt := some value }.touch now else thing

/-- The mutation of a new date. -/
def mutated (cal : Calendar) (c : SetDeadline) (thing : Thing) (value : Timestamp)
    (fresh : ℕ → Stamp) : StateMutation :=
  c.mutation cal thing (c.newThing thing value (fresh 0).now) (c.date thing value (fresh 0)) (fresh 1)

/-- A new date, with the Thing that it is a date of. -/
structure Adds (cal : Calendar) (c : SetDeadline) (fresh : ℕ → Stamp) (view : ℕ → State)
    (s s' : State) (thing : Thing) (value : Timestamp) : Prop where
  valid : c.Valid value
  found : ThingRepository.get c.userId c.thingId (view 1).things = some thing
  expected : (thing.version : ℤ) = c.expectedVersion
  plain : c.isPrimary = false → ∃ dates,
    s.dates.insert? (c.date thing value (fresh 0)) = some dates ∧
      Recorded (c.mutated cal thing value fresh)
        (some (c.event thing (c.mutated cal thing value fresh) (fresh 2))) { s with dates } s'
  primary : c.isPrimary = true → ∃ dates,
    Writes view s thing (c.newThing thing value (fresh 0).now) ∧
      (ThingDateRepository.unsetPrimary thing.id c.kind s.dates).insert?
        (c.date thing value (fresh 0)) = some dates ∧
      Recorded (c.mutated cal thing value fresh)
        (some (c.event thing (c.mutated cal thing value fresh) (fresh 2)))
        { s.setThing thing (c.newThing thing value (fresh 0).now) with dates } s'

end SetDeadline

theorem applySetDeadlineAt_ok {c : SetDeadline} {db' : Records}
    (h : applySetDeadlineAt cal c fresh (fun n => (view n).toRecords) s.toRecords =
      .ok (db', outcome)) :
    (Op.setDeadline c fresh).Seen view ∧ db' = s.toRecords ∨ ∃ thing value,
      c.Adds cal fresh view s { s with toRecords := db' } thing value ∧
        outcome = SetDeadline.outcome (c.newThing thing value (fresh 0).now)
          (c.date thing value (fresh 0)) (c.mutated cal thing value fresh) := by
  simp only [applySetDeadlineAt, bind_eq_ok, orRaise_eq_ok, ensure_eq_ok] at h
  obtain ⟨value, hvalue, _, htimezone, _, hconfirmed, h⟩ := h
  split at h
  next _ previous hseen =>
    simp only [bind_eq_ok, pure_eq_ok, Prod.mk.injEq] at h
    obtain ⟨_, -, rfl, -⟩ := h
    exact .inl ⟨⟨_, _, rfl, by simp [hseen]⟩, rfl⟩
  next =>
    simp only [bind_eq_ok, orRaise_eq_ok, ensure_eq_ok, pure_eq_ok, Prod.mk.injEq,
      Prod.exists] at h
    obtain ⟨thing, hfound, _, hversion, _, -, thing', db₁, hpromote, dates, hdates, db₂, hrecord, rfl,
      rfl⟩ := h
    have hrecorded := recorded_of_record hrecord s
    cases hprimary : c.isPrimary with
    | false =>
      simp only [SetDeadline.promote, hprimary, Bool.false_eq_true, if_false, pure_eq_ok,
        Prod.mk.injEq] at hpromote
      obtain ⟨rfl, rfl⟩ := hpromote
      have hsame : c.newThing thing value (fresh 0).now = thing := by
        rw [SetDeadline.newThing, hprimary, if_neg Bool.false_ne_true]
      unfold SetDeadline.mutated
      refine .inr ⟨thing, value, ⟨⟨hvalue, htimezone, hconfirmed⟩, hfound, hversion, fun _ => ?_,
        fun h => ?_⟩, ?_⟩
      · unfold SetDeadline.mutated
        rw [hsame]
        exact ⟨dates, hdates, hrecorded⟩
      · rw [hprimary] at h
        cases h
      · rw [hsame]
    | true =>
      simp only [SetDeadline.promote, hprimary, if_true, bind_eq_ok, ensure_eq_ok, pure_eq_ok,
        Prod.mk.injEq] at hpromote
      obtain ⟨_, hset, _, hupdated, rfl, rfl⟩ := hpromote
      obtain ⟨instant, hinstant, rfl⟩ := setPrimaryDeadline_ok hset
      obtain rfl := Option.some.inj (hinstant.symm.trans hvalue)
      have hnew : c.newThing thing instant (fresh 0).now =
          { thing with deadlineAt := some instant }.touch (fresh 0).now := by
        rw [SetDeadline.newThing, hprimary, if_pos rfl]
      rw [← hversion] at hupdated hrecorded
      rw [← hnew] at hupdated hrecorded hrecord
      refine .inr ⟨thing, instant, ⟨⟨hvalue, htimezone, hconfirmed⟩, hfound, hversion, fun h => ?_,
        fun _ => ?_⟩, ?_⟩
      · rw [hprimary] at h
        cases h
      · refine ⟨dates, ⟨⟨1, (ThingRepository.get_eq_some hfound).1⟩, ?_, ?_, ?_, .inr ?_, hupdated⟩,
          hdates, hrecorded⟩ <;> rw [hnew] <;> rfl
      · rw [← hnew]
        rfl

namespace UpdateDate

/-- The Thing of a date once the date is corrected. -/
def newThing (c : UpdateDate) (thing : Thing) (date : ThingDate) (value now : Timestamp) : Thing :=
  if c.isPrimary then { thing with deadlineAt := some value }.touch now
  else if date.isPrimary then { thing with deadlineAt := none }.touch now
  else thing

/-- The mutation of a corrected date. -/
def mutated (cal : Calendar) (c : UpdateDate) (thing : Thing) (date : ThingDate)
    (value : Timestamp) (fresh : ℕ → Stamp) : StateMutation :=
  c.mutation cal thing (c.newThing thing date value (fresh 0).now) date
    (c.corrected date value (fresh 0).now) (fresh 1)

/-- The event of a corrected date in the timeline. -/
def entered (cal : Calendar) (c : UpdateDate) (thing : Thing) (date : ThingDate)
    (value : Timestamp) (fresh : ℕ → Stamp) : TimelineEvent :=
  c.event thing date (c.corrected date value (fresh 0).now) (c.mutated cal thing date value fresh)
    (fresh 2)

/-- A date that is corrected, with its Thing. -/
structure Corrects (cal : Calendar) (c : UpdateDate) (fresh : ℕ → Stamp) (view : ℕ → State)
    (s s' : State) (thing : Thing) (date : ThingDate) (value : Timestamp) : Prop where
  valid : c.Valid value
  foundDate : ThingDateRepository.get c.userId c.dateId (view 1).things (view 1).dates = some date
  version : (date.version : ℤ) = c.expectedVersion
  found : ThingRepository.get c.userId date.thingId (view 2).things = some thing
  thingVersion : (thing.version : ℤ) = c.expectedThingVersion
  stored : ∃ dates, ThingDateRepository.update (c.corrected date value (fresh 0).now)
      c.expectedVersion (c.datesBefore thing date s.dates) = some (dates, true) ∧
    ((c.isPrimary = false ∧ date.isPrimary = false ∧
        Recorded (c.mutated cal thing date value fresh)
          (some (c.entered cal thing date value fresh)) { s with dates } s') ∨
      ((c.isPrimary = true ∨ date.isPrimary = true) ∧
        Writes view s thing (c.newThing thing date value (fresh 0).now) ∧
        Recorded (c.mutated cal thing date value fresh)
          (some (c.entered cal thing date value fresh))
          { s.setThing thing (c.newThing thing date value (fresh 0).now) with dates } s'))

/-- A Thing with another version is stored at the version that was read. -/
theorem storeThing_ok {c : UpdateDate} {db db' : Records}
    (hversion : (thing.version : ℤ) = c.expectedThingVersion)
    (hadvances : thing'.version = thing.version + 1) (h : c.storeThing thing' db = .ok db') :
    (ThingRepository.update thing' thing.version db.things).2 = true ∧
      db' = { db with things := (ThingRepository.update thing' thing.version db.things).1 } := by
  have hne : (thing'.version : ℤ) ≠ c.expectedThingVersion := by omega
  rw [storeThing, if_neg hne] at h
  simp only [bind_eq_ok, ensure_eq_ok, pure_eq_ok] at h
  obtain ⟨_, hupdated, rfl⟩ := h
  rw [hversion]
  exact ⟨hupdated, rfl⟩

end UpdateDate

theorem applyUpdateDateAt_ok {c : UpdateDate} {db' : Records}
    (h : applyUpdateDateAt cal c fresh (fun n => (view n).toRecords) s.toRecords =
      .ok (db', outcome)) :
    (Op.updateDate c fresh).Seen view ∧ db' = s.toRecords ∨ ∃ thing date value,
      c.Corrects cal fresh view s { s with toRecords := db' } thing date value ∧
        outcome = UpdateDate.outcome (c.newThing thing date value (fresh 0).now)
          (c.corrected date value (fresh 0).now) (c.mutated cal thing date value fresh) := by
  unfold applyUpdateDateAt at h
  split at h
  next _ previous hseen =>
    simp only [bind_eq_ok, pure_eq_ok, Prod.mk.injEq] at h
    obtain ⟨_, -, rfl, -⟩ := h
    exact .inl ⟨⟨_, _, rfl, by simp [hseen]⟩, rfl⟩
  next =>
    simp only [bind_eq_ok, orRaise_eq_ok, ensure_eq_ok, pure_eq_ok, Prod.mk.injEq,
      Prod.exists] at h
    obtain ⟨date, hfoundDate, _, hversion, thing, hfound, _, hthingVersion, _, hrevise, thing', db₁,
      hpromote, db₂, hstore, dates, updated, hupdate, _, rfl, db₃, hrecord, rfl, rfl⟩ := h
    obtain ⟨value, hvalid⟩ := valid_of_revise hrevise
    obtain rfl := Except.ok.inj ((revise_of_valid hvalid date (fresh 0).now).symm.trans hrevise)
    have hrecorded := recorded_of_record hrecord s
    have hread : ∃ n, thing ∈ (view n).things := ⟨2, (ThingRepository.get_eq_some hfound).1⟩
    have hthing : c.newThing thing date value (fresh 0).now = thing' := by
      unfold UpdateDate.newThing
      by_cases hprimary : c.isPrimary = true
      · simp only [UpdateDate.promote, hprimary, if_true, bind_eq_ok, pure_eq_ok,
          Prod.mk.injEq] at hpromote
        obtain ⟨_, hset, rfl, -⟩ := hpromote
        obtain ⟨instant, hinstant, rfl⟩ := setPrimaryDeadline_ok hset
        obtain rfl := Option.some.inj (hinstant.symm.trans hvalid.1)
        rw [if_pos hprimary]
      · rw [if_neg hprimary]
        simp only [UpdateDate.promote, hprimary, Bool.false_eq_true, if_false] at hpromote
        by_cases hwas : date.isPrimary = true
        · simp only [hwas, if_true, pure_eq_ok, Prod.mk.injEq] at hpromote
          rw [if_pos hwas, hpromote.1]
        · simp only [hwas, Bool.false_eq_true, if_false, pure_eq_ok, Prod.mk.injEq] at hpromote
          rw [if_neg hwas, hpromote.1]
    subst hthing
    refine .inr ⟨thing, date, value, ⟨hvalid, hfoundDate, hversion, hfound, hthingVersion, dates,
      ?_⟩, rfl⟩
    unfold UpdateDate.datesBefore
    by_cases hprimary : c.isPrimary = true
    · have hnew : c.newThing thing date value (fresh 0).now =
          { thing with deadlineAt := some value }.touch (fresh 0).now := by
        rw [UpdateDate.newThing, if_pos hprimary]
      simp only [UpdateDate.promote, hprimary, if_true, bind_eq_ok, pure_eq_ok,
        Prod.mk.injEq] at hpromote
      obtain ⟨_, -, -, rfl⟩ := hpromote
      obtain ⟨hupdated, rfl⟩ := UpdateDate.storeThing_ok hthingVersion (by rw [hnew]; rfl) hstore
      rw [if_pos hprimary]
      refine ⟨hupdate, .inr ⟨.inl hprimary, ⟨hread, ?_, ?_, ?_, .inr ?_, hupdated⟩, hrecorded⟩⟩ <;>
        rw [hnew] <;> rfl
    · rw [if_neg hprimary]
      simp only [UpdateDate.promote, hprimary, Bool.false_eq_true, if_false] at hpromote
      by_cases hwas : date.isPrimary = true
      · have hnew : c.newThing thing date value (fresh 0).now =
            { thing with deadlineAt := none }.touch (fresh 0).now := by
          rw [UpdateDate.newThing, if_neg hprimary, if_pos hwas]
        simp only [hwas, if_true, pure_eq_ok, Prod.mk.injEq] at hpromote
        obtain ⟨-, rfl⟩ := hpromote
        obtain ⟨hupdated, rfl⟩ := UpdateDate.storeThing_ok hthingVersion (by rw [hnew]; rfl) hstore
        refine ⟨hupdate, .inr ⟨.inr hwas, ⟨hread, ?_, ?_, ?_, .inr ?_, hupdated⟩, hrecorded⟩⟩ <;>
          rw [hnew] <;> rfl
      · have hnew : c.newThing thing date value (fresh 0).now = thing := by
          rw [UpdateDate.newThing, if_neg hprimary, if_neg hwas]
        simp only [hwas, Bool.false_eq_true, if_false, pure_eq_ok, Prod.mk.injEq] at hpromote
        obtain ⟨-, rfl⟩ := hpromote
        rw [hnew, UpdateDate.storeThing, if_pos hthingVersion] at hstore
        obtain rfl := Except.ok.inj hstore
        exact ⟨hupdate, .inl ⟨by simpa using hprimary, by simpa using hwas, hrecorded⟩⟩

end PersonalState
