import Laoshiren.PersonalState.Writes

/-!
# Proofs: the date writes

A date write that answers was answered from an earlier mutation, or passed every check and left what it
had to; and a write that passes every check answers.
-/

namespace PersonalState

open Raise Runtime

variable {cal : Calendar} {fresh : ℕ → Stamp} {db db' : Records} {thing thing' : Thing}
  {date : ThingDate} {value : Timestamp} {outcome : WriteOutcome}

/-! ## Rows -/

theorem ThingRepository.get_eq_some {userId thingId : UUID} {t : Table Thing}
    (h : ThingRepository.get userId thingId t = some thing) :
    thing ∈ t ∧ thing.id = thingId ∧ thing.userId = userId ∧ thing.deletedAt = none := by
  obtain ⟨hmem, hp⟩ := Table.get_eq_some h
  exact ⟨hmem, by simpa using hp⟩

theorem ThingDateRepository.get_eq_some {userId dateId : UUID} {things : Table Thing}
    {t : Table ThingDate} (h : ThingDateRepository.get userId dateId things t = some date) :
    date ∈ t ∧ date.id = dateId := by
  obtain ⟨hmem, hp⟩ := Table.get_eq_some h
  simp only [decide_eq_true_eq] at hp
  exact ⟨hmem, hp.1⟩

/-- A Thing is found by its id. -/
theorem get_thing (h : thing ∈ db.things) :
    db.things.get (fun r => r.id = thing.id) = some thing :=
  Table.get_of_mem h (by simp) fun _ hr => of_decide_eq_true hr

theorem deadline_of_mem (h : thing ∈ db.things) : db.deadline thing.id = thing.deadlineAt := by
  unfold Records.deadline
  rw [get_thing h]
  rfl

/-- The write of a Thing that is still at the version that was read. -/
theorem update_thing (hmem : thing ∈ db.things) (hid : thing'.id = thing.id) {v : ℤ}
    (hv : (thing.version : ℤ) = v) :
    (ThingRepository.update thing' v db.things).2 = true ∧
    ∀ id, ({ db with things := (ThingRepository.update thing' v db.things).1 } : Records).deadline id =
      if id = thing.id then thing'.deadlineAt else db.deadline id := by
  have hp : ThingRepository.updateWhere thing' v thing = true := by
    simp [ThingRepository.updateWhere, hid, hv]
  have hkeep : Table.Keeps (ThingRepository.updateWhere thing' v)
      (ThingRepository.updateValues thing') := fun _ _ _ h => h
  constructor
  · have hone : db.things.rowcount (ThingRepository.updateWhere thing' v) = 1 := by
      refine Table.rowcount_eq_one (fun r r' hr hr' => ?_) hmem hp
      simp only [ThingRepository.updateWhere, decide_eq_true_eq] at hr hr'
      exact hr.1.trans hr'.1.symm
    simpa [ThingRepository.update] using hone
  · intro id
    show ((db.things.update (ThingRepository.updateWhere thing' v)
      (ThingRepository.updateValues thing') hkeep).get fun r => r.id = id).bind Thing.deadlineAt = _
    have hget : (db.things.update (ThingRepository.updateWhere thing' v)
        (ThingRepository.updateValues thing') hkeep).get (fun r => r.id = id) =
        (db.things.get fun r => r.id = id).map (Table.updateRow
          (ThingRepository.updateWhere thing' v) (ThingRepository.updateValues thing')) :=
      Table.get_update fun _ => rfl
    rw [hget]
    split
    case isTrue h =>
      rw [h, get_thing hmem, Option.map_some, Table.updateRow_pos hp]
      rfl
    case isFalse h =>
      unfold Records.deadline
      cases hfound : db.things.get fun r => r.id = id with
      | none => rfl
      | some r =>
        have hr : r.id = id := by simpa using (Table.get_eq_some hfound).2
        have hother : ThingRepository.updateWhere thing' v r = false := by
          have hne : r.id ≠ thing'.id := by
            rw [hr, hid]
            exact h
          simp [ThingRepository.updateWhere, hne]
        rw [Option.map_some, Table.updateRow_neg hother]

/-- A row after `unset_primary` is no primary date of the kind. -/
theorem not_primary_of_mem_unset {thingId : UUID} {kind : ThingDateType} {t : Table ThingDate}
    {r : ThingDate} (h : r ∈ ThingDateRepository.unsetPrimary thingId kind t)
    (hthing : r.thingId = thingId) (hkind : r.kind = kind) : r.isPrimary = false := by
  rcases Table.mem_update_cases (ThingDateRepository.unset_keeps thingId kind) h with
    ⟨r', -, -, rfl⟩ | ⟨-, hp⟩
  · rfl
  · simpa [ThingDateRepository.unsetWhere, hthing, hkind] using hp

/-- `unset_primary` leaves the ids of the dates alone. -/
theorem exists_of_mem_unset {thingId : UUID} {kind : ThingDateType} {t : Table ThingDate}
    {r : ThingDate} (h : r ∈ ThingDateRepository.unsetPrimary thingId kind t) :
    ∃ r' ∈ t, r'.id = r.id := by
  rcases Table.mem_update_cases (ThingDateRepository.unset_keeps thingId kind) h with
    ⟨r', hr', -, rfl⟩ | ⟨hr, -⟩
  · exact ⟨r', hr', rfl⟩
  · exact ⟨r, hr, rfl⟩

/-- `unset_primary` keeps every date, under its id. -/
theorem mem_unset_of_mem {r : ThingDate} {t : Table ThingDate} (h : r ∈ t) (thingId : UUID)
    (kind : ThingDateType) : ∃ r' ∈ ThingDateRepository.unsetPrimary thingId kind t, r'.id = r.id := by
  refine ⟨_, Table.updateRow_mem h, ?_⟩
  unfold Table.updateRow
  split <;> rfl

/-! ## The audit -/

theorem getMutation_of_unrecorded {key : String} (h : db.Unrecorded key fresh) (userId : UUID) :
    AuditRepository.getMutation userId key db.mutations = none :=
  Table.get_eq_none.mpr fun m hm => by simp [(h.1 m hm).2]

/-- A mutation that is stored was new, and stands beside the other tables. -/
theorem record_ok {m : StateMutation} {event : TimelineEvent}
    (h : db.record m event = .ok db') :
    (∀ r ∈ db.mutations, r.id ≠ m.id ∧ r.idempotencyKey ≠ m.idempotencyKey) ∧
      (∀ e ∈ db.timeline, e.id ≠ event.id) ∧ db'.things = db.things ∧ db'.dates = db.dates ∧
      db'.sources = db.sources := by
  simp only [Records.record, bind_eq_ok, orRaise_eq_ok, pure_eq_ok] at h
  obtain ⟨mutations, hm, timeline, he, rfl⟩ := h
  refine ⟨fun r hr => not_or.mp (Table.not_conflict_of_insert? hm hr),
    fun e hmem => Table.not_conflict_of_insert? he hmem, rfl, rfl, rfl⟩

theorem exists_record {m : StateMutation} {event : TimelineEvent}
    (hm : ∀ r ∈ db.mutations, r.id ≠ m.id ∧ r.idempotencyKey ≠ m.idempotencyKey)
    (he : ∀ e ∈ db.timeline, e.id ≠ event.id) :
    ∃ db', db.record m event = .ok db' ∧ db'.things = db.things ∧ db'.dates = db.dates ∧
      db'.sources = db.sources := by
  obtain ⟨mutations, hmutations⟩ := Table.exists_insert? fun r hr => not_or.mpr (hm r hr)
  obtain ⟨timeline, htimeline⟩ := Table.exists_insert? he
  refine ⟨{ db with mutations, timeline }, ?_, rfl, rfl, rfl⟩
  simp only [Records.record, bind_eq_ok, orRaise_eq_ok, pure_eq_ok]
  exact ⟨mutations, hmutations, timeline, htimeline, rfl⟩

/-! ## Setting a date -/

namespace SetDeadline

variable {c : SetDeadline}

/-- What making a new date primary leaves. -/
structure Promoted (c : SetDeadline) (db : Records) (thing : Thing) (value : Timestamp)
    (db' : Records) : Prop where
  deadline : ∀ id, db'.deadline id =
    if c.isPrimary = true ∧ id = thing.id then some value else db.deadline id
  free : c.isPrimary = true → ∀ r ∈ db'.dates, r.thingId = thing.id → r.kind = c.kind →
    r.isPrimary = false
  back : ∀ r ∈ db'.dates, ∃ r' ∈ db.dates, r'.id = r.id
  kept : ∀ r ∈ db.dates, ∃ r' ∈ db'.dates, r'.id = r.id
  sources : db'.sources = db.sources
  mutations : db'.mutations = db.mutations
  timeline : db'.timeline = db.timeline

theorem exists_promote (hmem : thing ∈ db.things) (hversion : (thing.version : ℤ) = c.expectedVersion)
    (hvalue : c.value.instant = some value) (now : Timestamp) :
    ∃ thing' db', c.promote thing now db = .ok (thing', db') ∧ c.Promoted db thing value db' := by
  by_cases hprimary : c.isPrimary = true
  · obtain ⟨hupdated, hdeadline⟩ := update_thing hmem
      (rfl : ({ thing with deadlineAt := some value }.touch now).id = thing.id) hversion
    refine ⟨{ thing with deadlineAt := some value }.touch now,
      { db with
        things := (ThingRepository.update ({ thing with deadlineAt := some value }.touch now)
          c.expectedVersion db.things).1
        dates := ThingDateRepository.unsetPrimary thing.id c.kind db.dates }, ?_, ?_⟩
    · simp only [promote, hprimary, if_true, Thing.setPrimaryDeadline, bind_eq_ok, orRaise_eq_ok,
        pure_eq_ok, ensure_eq_ok]
      exact ⟨_, ⟨value, hvalue, rfl⟩, (), hupdated, rfl⟩
    · refine ⟨fun id => ?_, fun _ r hr => not_primary_of_mem_unset hr,
        fun r hr => exists_of_mem_unset hr, fun r hr => mem_unset_of_mem hr _ _, rfl, rfl, rfl⟩
      have h := hdeadline id
      simp only [hprimary, true_and]
      exact h
  · refine ⟨thing, db, ?_, ?_⟩
    · simp only [promote, hprimary]
      rfl
    · refine ⟨fun id => ?_, fun h => absurd h hprimary, fun r hr => ⟨r, hr, rfl⟩,
        fun r hr => ⟨r, hr, rfl⟩, rfl, rfl, rfl⟩
      rw [if_neg fun h => hprimary h.1]

theorem promoted_of_ok (hmem : thing ∈ db.things)
    (hversion : (thing.version : ℤ) = c.expectedVersion) (hvalue : c.value.instant = some value)
    {now : Timestamp} (h : c.promote thing now db = .ok (thing', db')) :
    c.Promoted db thing value db' := by
  obtain ⟨_, _, hpromote, hpromoted⟩ := exists_promote hmem hversion hvalue now
  obtain ⟨rfl, rfl⟩ := Prod.mk.inj (Except.ok.inj (hpromote.symm.trans h))
  exact hpromoted

/-- A new date can be inserted once no other date of its kind is primary. -/
theorem Promoted.exists_insert (h : c.Promoted db thing value db') {stamp : Stamp}
    (hnew : ∀ r ∈ db.dates, r.id ≠ stamp.id) :
    ∃ dates, db'.dates.insert? (c.date thing value stamp) = some dates := by
  refine Table.exists_insert? fun r hr => ?_
  rintro (hid | ⟨hthing, hkind, hr', hprimary⟩)
  · obtain ⟨r', hmem, hid'⟩ := h.back r hr
    exact hnew r' hmem (hid'.trans hid)
  · rw [h.free hprimary r hr hthing hkind] at hr'
    cases hr'

theorem dateId_outcome (m : StateMutation) :
    (SetDeadline.outcome thing date m).data.get "date_id" = some (.str date.id.str) := by
  unfold SetDeadline.outcome Dict.ofFields Dict.merge
  simp [Dict.get_set_ne, Dict.get_set_self]

end SetDeadline

/-- A new date was written: every check was passed, and the date is there. -/
theorem setNewDeadline_ok {c : SetDeadline} (hvalid : c.Valid value)
    (h : setNewDeadline cal c value fresh db = .ok (db', outcome)) :
    ∃ thing, c.Accepted fresh db thing value ∧ c.Leaves fresh db thing value db' outcome := by
  simp only [setNewDeadline, bind_eq_ok, orRaise_eq_ok, ensure_eq_ok, pure_eq_ok, Prod.exists,
    Prod.mk.injEq] at h
  obtain ⟨thing, hfound, _, hversion, _, hsource, thing', db₁, hpromote, dates, hinsert, db₂,
    hrecord, rfl, rfl⟩ := h
  obtain ⟨hmem, -⟩ := ThingRepository.get_eq_some hfound
  have hpromoted := SetDeadline.promoted_of_ok hmem hversion hvalid.1 hpromote
  obtain ⟨hmutations, htimeline, hthings, hdates, hsources⟩ := record_ok hrecord
  refine ⟨thing, ⟨hvalid, ⟨?_, ?_⟩, ?_, hfound, hversion, ?_⟩, ⟨?_, ?_, ?_, ?_⟩⟩
  · rw [← hpromoted.mutations]
    exact hmutations
  · rw [← hpromoted.timeline]
    exact htimeline
  · intro r hr hid
    obtain ⟨r', hr', hid'⟩ := hpromoted.kept r hr
    exact Table.not_conflict_of_insert? hinsert hr' (Or.inl (hid'.trans hid))
  · intro id hid
    rw [hid] at hsource
    exact hsource
  · intro id
    rw [← hpromoted.deadline id]
    unfold Records.deadline
    rw [hthings]
  · rw [hdates]
    exact (Table.mem_insert? hinsert).mpr (Or.inr rfl)
  · rw [hsources]
    exact hpromoted.sources
  · exact SetDeadline.dateId_outcome _

/-- A call that passes every check writes the new date. -/
theorem SetDeadline.Accepted.exists_ok {c : SetDeadline} (h : c.Accepted fresh db thing value)
    (cal : Calendar) : ∃ db' outcome, applySetDeadline cal c fresh db = .ok (db', outcome) := by
  obtain ⟨hmem, -⟩ := ThingRepository.get_eq_some h.found
  obtain ⟨thing', db₁, hpromote, hpromoted⟩ :=
    exists_promote hmem h.version h.valid.1 (fresh 0).now
  obtain ⟨dates, hinsert⟩ := hpromoted.exists_insert h.newDate
  have hmutations : ∀ m ∈ db₁.mutations, m.id ≠ (fresh 1).id ∧
      m.idempotencyKey ≠ c.idempotencyKey := by
    rw [hpromoted.mutations]
    exact h.unrecorded.1
  have htimeline : ∀ e ∈ db₁.timeline, e.id ≠ (fresh 2).id := by
    rw [hpromoted.timeline]
    exact h.unrecorded.2
  obtain ⟨db₂, hrecord, -⟩ : ∃ db₂, ({ db₁ with dates } : Records).record
      (c.mutation cal thing thing' (c.date thing value (fresh 0)) (fresh 1))
      (c.event thing (c.mutation cal thing thing' (c.date thing value (fresh 0)) (fresh 1))
        (fresh 2)) = .ok db₂ ∧ _ := exists_record hmutations htimeline
  have hsource : (c.sourceId.all fun id =>
      (SourceRepository.get c.userId id db.sources).isSome) = true := by
    cases hid : c.sourceId with
    | none => rfl
    | some id => exact h.source id hid
  refine ⟨db₂, SetDeadline.outcome thing' (c.date thing value (fresh 0))
    (c.mutation cal thing thing' (c.date thing value (fresh 0)) (fresh 1)), ?_⟩
  simp only [applySetDeadline, bind_eq_ok, orRaise_eq_ok, ensure_eq_ok,
    getMutation_of_unrecorded h.unrecorded]
  refine ⟨value, h.valid.1, (), h.valid.2.1, (), h.valid.2.2, ?_⟩
  simp only [setNewDeadline, bind_eq_ok, orRaise_eq_ok, ensure_eq_ok, pure_eq_ok, Prod.exists,
    Prod.mk.injEq]
  exact ⟨thing, h.found, (), h.version, (), hsource, thing', db₁, hpromote, dates, hinsert, db₂,
    hrecord, rfl, rfl⟩

/-- A call that answers was answered from an earlier mutation, or wrote a new date. -/
theorem applySetDeadline_ok {c : SetDeadline}
    (h : applySetDeadline cal c fresh db = .ok (db', outcome)) :
    (∃ value previous, c.Valid value ∧
      AuditRepository.getMutation c.userId c.idempotencyKey db.mutations = some previous ∧
      replayDate "DEADLINE_SET" "Deadline set." "thing_version"
        "Stored deadline mutation is missing Thing version." previous = .ok outcome ∧ db' = db) ∨
    ∃ thing value, c.Accepted fresh db thing value ∧ c.Leaves fresh db thing value db' outcome := by
  simp only [applySetDeadline, bind_eq_ok, orRaise_eq_ok, ensure_eq_ok] at h
  obtain ⟨value, hvalue, _, htimezone, _, hprimary, h⟩ := h
  cases hprevious : AuditRepository.getMutation c.userId c.idempotencyKey db.mutations with
  | some previous =>
    simp only [hprevious, bind_eq_ok, pure_eq_ok, Prod.mk.injEq] at h
    obtain ⟨outcome', hreplay, rfl, rfl⟩ := h
    exact Or.inl ⟨value, previous, ⟨hvalue, htimezone, hprimary⟩, rfl, hreplay, rfl⟩
  | none =>
    simp only [hprevious] at h
    obtain ⟨thing, haccepted, hleaves⟩ := setNewDeadline_ok ⟨hvalue, htimezone, hprimary⟩ h
    exact Or.inr ⟨thing, value, haccepted, hleaves⟩

/-- A new date leaves what it has to. -/
theorem SetDeadline.Accepted.exists_leaves {c : SetDeadline}
    (h : c.Accepted fresh db thing value) (cal : Calendar) :
    ∃ db' outcome, applySetDeadline cal c fresh db = .ok (db', outcome) ∧
      c.Leaves fresh db thing value db' outcome := by
  obtain ⟨db', outcome, hok⟩ := h.exists_ok cal
  refine ⟨db', outcome, hok, ?_⟩
  rcases applySetDeadline_ok hok with ⟨_, previous, -, hprevious, -⟩ | ⟨thing', value', h', hleaves⟩
  · rw [getMutation_of_unrecorded h.unrecorded] at hprevious
    cases hprevious
  · obtain rfl := Option.some.inj (h'.found.symm.trans h.found)
    obtain rfl := Option.some.inj (h'.valid.1.symm.trans h.valid.1)
    exact hleaves

/-! ## Correcting a date -/

theorem revise_of_valid {c : UpdateDate} (h : c.Valid value) (date : ThingDate) (now : Timestamp) :
    date.revise c.value c.timezoneName c.precision c.certainty c.isPrimary now =
      .ok (c.corrected date value now) := by
  obtain ⟨hvalue, htimezone, hprimary⟩ := h
  simp only [ThingDate.revise, bind_eq_ok, orRaise_eq_ok, ensure_eq_ok, pure_eq_ok]
  exact ⟨value, hvalue, (), htimezone, (), hprimary, rfl⟩

theorem valid_of_revise {c : UpdateDate} {date' : ThingDate} {now : Timestamp}
    (h : date.revise c.value c.timezoneName c.precision c.certainty c.isPrimary now = .ok date') :
    ∃ value, c.Valid value := by
  simp only [ThingDate.revise, bind_eq_ok, orRaise_eq_ok, ensure_eq_ok, pure_eq_ok] at h
  obtain ⟨value, hvalue, _, htimezone, _, hprimary, -⟩ := h
  exact ⟨value, hvalue, htimezone, hprimary⟩

namespace UpdateDate

variable {c : UpdateDate}

/-- The dates before the correction is written: a date that becomes primary finds no other one. -/
def datesBefore (c : UpdateDate) (thing : Thing) (date : ThingDate) (t : Table ThingDate) :
    Table ThingDate :=
  if c.isPrimary then ThingDateRepository.unsetPrimary thing.id date.kind t else t

/-- What the correction of the Thing leaves. -/
structure Promoted (c : UpdateDate) (db : Records) (thing : Thing) (date : ThingDate)
    (value : Timestamp) (db' : Records) : Prop where
  deadline : ∀ id, db'.deadline id =
    if id = thing.id then c.newDeadline date value thing.deadlineAt else db.deadline id
  dates : db'.dates = c.datesBefore thing date db.dates
  sources : db'.sources = db.sources
  mutations : db'.mutations = db.mutations
  timeline : db'.timeline = db.timeline

/-- A Thing with a new version is written. -/
theorem exists_storeThing (hmem : thing ∈ db.things) (hid : thing'.id = thing.id)
    (hversion : (thing.version : ℤ) = c.expectedThingVersion)
    (hversion' : thing'.version = thing.version + 1) :
    ∃ db', c.storeThing thing' db = .ok db' ∧
      (∀ id, db'.deadline id = if id = thing.id then thing'.deadlineAt else db.deadline id) ∧
      db'.dates = db.dates ∧ db'.sources = db.sources ∧ db'.mutations = db.mutations ∧
      db'.timeline = db.timeline := by
  obtain ⟨hupdated, hdeadline⟩ := update_thing hmem hid hversion
  have hne : (thing'.version : ℤ) ≠ c.expectedThingVersion := by omega
  refine ⟨{ db with things := (ThingRepository.update thing' c.expectedThingVersion db.things).1 },
    ?_, hdeadline, rfl, rfl, rfl, rfl⟩
  unfold storeThing
  rw [if_neg hne]
  simp only [bind_eq_ok, ensure_eq_ok, pure_eq_ok]
  exact ⟨(), hupdated, trivial⟩

theorem exists_promote (hmem : thing ∈ db.things)
    (hversion : (thing.version : ℤ) = c.expectedThingVersion)
    (hvalue : c.value.instant = some value) (date : ThingDate) (now : Timestamp) :
    ∃ thing' db₁ db₂, c.promote thing date now db = .ok (thing', db₁) ∧
      c.storeThing thing' db₁ = .ok db₂ ∧ c.Promoted db thing date value db₂ := by
  by_cases hprimary : c.isPrimary = true
  · have hmem₁ : thing ∈ ({ db with
        dates := ThingDateRepository.unsetPrimary thing.id date.kind db.dates } : Records).things :=
      hmem
    obtain ⟨db₂, hstore, hdeadline, hdates, hsources, hmutations, htimeline⟩ :=
      exists_storeThing hmem₁
        (rfl : ({ thing with deadlineAt := some value }.touch now).id = thing.id) hversion rfl
    refine ⟨_, _, db₂, ?_, hstore, fun id => ?_, ?_, hsources, hmutations, htimeline⟩
    · simp only [promote, hprimary, if_true, Thing.setPrimaryDeadline, bind_eq_ok, orRaise_eq_ok,
        pure_eq_ok]
      exact ⟨_, ⟨value, hvalue, rfl⟩, rfl⟩
    · rw [hdeadline id, newDeadline, if_pos hprimary]
      rfl
    · rw [hdates, datesBefore, if_pos hprimary]
  · by_cases hwas : date.isPrimary = true
    · obtain ⟨db₂, hstore, hdeadline, hdates, hsources, hmutations, htimeline⟩ :=
        exists_storeThing hmem (rfl : ({ thing with deadlineAt := none }.touch now).id = thing.id)
          hversion rfl
      refine ⟨_, _, db₂, ?_, hstore, fun id => ?_, ?_, hsources, hmutations, htimeline⟩
      · simp only [promote, hprimary, hwas]
        rfl
      · rw [hdeadline id, newDeadline, if_neg hprimary, if_pos hwas]
        rfl
      · rw [hdates, datesBefore, if_neg hprimary]
    · refine ⟨thing, db, db, ?_, ?_, fun id => ?_, ?_, rfl, rfl, rfl⟩
      · simp only [promote, hprimary, hwas]
        rfl
      · unfold storeThing
        rw [if_pos hversion]
        rfl
      · rw [newDeadline, if_neg hprimary, if_neg hwas]
        split
        case isTrue h =>
          rw [h]
          exact deadline_of_mem hmem
        case isFalse => rfl
      · rw [datesBefore, if_neg hprimary]

/-- The row of the date before the correction is written. -/
theorem exists_row (hmem : date ∈ db.dates) (c : UpdateDate) (thing : Thing) :
    ∃ r ∈ c.datesBefore thing date db.dates, r.id = date.id ∧ r.version = date.version ∧
      r.thingId = date.thingId ∧ r.kind = date.kind ∧ ∀ value now,
        ThingDateRepository.updateValues (c.corrected date value now) r =
          c.corrected date value now := by
  unfold datesBefore
  split
  case isTrue =>
    refine ⟨_, Table.updateRow_mem hmem, ?_⟩
    unfold Table.updateRow
    split <;> exact ⟨rfl, rfl, rfl, rfl, fun _ _ => rfl⟩
  case isFalse => exact ⟨date, hmem, rfl, rfl, rfl, rfl, fun _ _ => rfl⟩

/-- The corrected date can be written: no other date of its kind is primary any more. -/
theorem exists_update (hmem : date ∈ db.dates) (hthing : date.thingId = thing.id)
    (hversion : (date.version : ℤ) = c.expectedVersion) (value now : Timestamp) :
    ∃ dates, ThingDateRepository.update (c.corrected date value now) c.expectedVersion
        (c.datesBefore thing date db.dates) = some (dates, true) ∧
      c.corrected date value now ∈ dates := by
  obtain ⟨row, hrow, hid, hrowVersion, hrowThing, hrowKind, hvalues⟩ := exists_row hmem c thing
  have hfree : c.isPrimary = true → ∀ r ∈ c.datesBefore thing date db.dates,
      r.thingId = thing.id → r.kind = date.kind → r.isPrimary = false := by
    intro hprimary r hr
    rw [datesBefore, if_pos hprimary] at hr
    exact not_primary_of_mem_unset hr
  generalize c.datesBefore thing date db.dates = t at hrow hfree
  have hwhere : ∀ r, ThingDateRepository.updateWhere (c.corrected date value now) c.expectedVersion r =
      true ↔ r.id = date.id ∧ (r.version : ℤ) = c.expectedVersion := by
    intro r
    simp only [ThingDateRepository.updateWhere, decide_eq_true_eq]
    rfl
  have hp := (hwhere row).mpr ⟨hid, by rw [hrowVersion, hversion]⟩
  -- The corrected row can only conflict with a row of the same id.
  have hchanged : ∀ r ∈ t, ThingDateRepository.updateWhere (c.corrected date value now)
      c.expectedVersion r = true → ∀ r' ∈ t, Row.conflict
        (ThingDateRepository.updateValues (c.corrected date value now) r) r' →
          Row.conflict r r' := by
    intro r hr hpr r' hr' hconflict
    rcases hconflict with hsame | ⟨hthing', hkind', hprimary, hprimary'⟩
    · exact Or.inl hsame
    · obtain rfl : r = row :=
        Table.eq_of_conflict hr hrow (Or.inl (((hwhere r).mp hpr).1.trans hid.symm))
      have hnone := hfree hprimary r' hr' (hthing'.symm.trans (hrowThing.trans hthing))
        (hkind'.symm.trans hrowKind)
      rw [hnone] at hprimary'
      cases hprimary'
  obtain ⟨dates, hdates⟩ : ∃ dates, t.update?
      (ThingDateRepository.updateWhere (c.corrected date value now) c.expectedVersion)
      (ThingDateRepository.updateValues (c.corrected date value now)) = some dates := by
    refine Table.exists_update? fun r hr r' hr' hconflict => ?_
    cases hpr : ThingDateRepository.updateWhere (c.corrected date value now) c.expectedVersion r with
    | true =>
      cases hpr' : ThingDateRepository.updateWhere (c.corrected date value now) c.expectedVersion
        r' with
      | true => exact Or.inl (((hwhere r).mp hpr).1.trans ((hwhere r').mp hpr').1.symm)
      | false =>
        rw [Table.updateRow_pos hpr, Table.updateRow_neg hpr'] at hconflict
        exact hchanged r hr hpr r' hr' hconflict
    | false =>
      rw [Table.updateRow_neg hpr] at hconflict
      cases hpr' : ThingDateRepository.updateWhere (c.corrected date value now) c.expectedVersion
        r' with
      | true =>
        rw [Table.updateRow_pos hpr'] at hconflict
        exact Row.symm _ _ (hchanged r' hr' hpr' r hr (Row.symm _ _ hconflict))
      | false =>
        rw [Table.updateRow_neg hpr'] at hconflict
        exact hconflict
  have hone : t.rowcount (ThingDateRepository.updateWhere (c.corrected date value now)
      c.expectedVersion) = 1 := by
    refine Table.rowcount_eq_one (fun r r' hr hr' => ?_) hrow hp
    exact Or.inl (((hwhere r).mp hr).1.trans ((hwhere r').mp hr').1.symm)
  refine ⟨dates, ?_, ?_⟩
  · simp [ThingDateRepository.update, hdates, hone]
  · refine (Table.mem_update? hdates).mpr ⟨row, hrow, ?_⟩
    rw [Table.updateRow_pos hp]
    exact hvalues value now

theorem dateId_outcome (m : StateMutation) :
    (UpdateDate.outcome thing date m).data.get "date_id" = some (.str date.id.str) := by
  unfold UpdateDate.outcome Dict.ofFields Dict.merge
  simp [Dict.get_set_ne, Dict.get_set_self]

end UpdateDate

/-- A date was corrected: every check was passed, and the corrected date is there. -/
theorem updateStoredDate_ok {c : UpdateDate}
    (h : updateStoredDate cal c fresh db = .ok (db', outcome)) :
    ∃ thing date value, c.Accepted fresh db thing date value ∧
      c.Leaves fresh db thing date value db' outcome := by
  simp only [updateStoredDate, bind_eq_ok, orRaise_eq_ok, ensure_eq_ok, pure_eq_ok, Prod.exists,
    Prod.mk.injEq] at h
  obtain ⟨date, hfoundDate, _, hversion, thing, hfound, _, hthingVersion, date', hrevise, thing', db₁,
    hpromote, db₂, hstore, dates, updated, hupdate, _, hupdated, db₃, hrecord, rfl, rfl⟩ := h
  obtain ⟨value, hvalid⟩ := valid_of_revise hrevise
  obtain rfl := Except.ok.inj ((revise_of_valid hvalid date (fresh 0).now).symm.trans hrevise)
  obtain ⟨hmem, hid, -⟩ := ThingRepository.get_eq_some hfound
  obtain ⟨hmemDate, -⟩ := ThingDateRepository.get_eq_some hfoundDate
  obtain ⟨_, _, _, hpromote', hstore', hpromoted⟩ := UpdateDate.exists_promote hmem hthingVersion
    hvalid.1 date (fresh 0).now
  obtain ⟨rfl, rfl⟩ := Prod.mk.inj (Except.ok.inj (hpromote'.symm.trans hpromote))
  obtain rfl := Except.ok.inj (hstore'.symm.trans hstore)
  obtain ⟨_, hupdate', hwritten⟩ := UpdateDate.exists_update hmemDate hid.symm hversion value
    (fresh 0).now
  rw [hpromoted.dates] at hupdate
  obtain ⟨rfl, -⟩ := Prod.mk.inj (Option.some.inj (hupdate'.symm.trans hupdate))
  obtain ⟨hmutations, htimeline, hthings, hdates, hsources⟩ := record_ok hrecord
  refine ⟨thing, date, value, ⟨hvalid, ⟨?_, ?_⟩, hfoundDate, hversion, hfound, hthingVersion⟩,
    ⟨?_, ?_, ?_, ?_⟩⟩
  · rw [← hpromoted.mutations]
    exact hmutations
  · rw [← hpromoted.timeline]
    exact htimeline
  · intro id
    rw [← hpromoted.deadline id]
    unfold Records.deadline
    rw [hthings]
  · rw [hdates]
    exact hwritten
  · rw [hsources]
    exact hpromoted.sources
  · exact UpdateDate.dateId_outcome _

/-- A call that passes every check corrects the date. -/
theorem UpdateDate.Accepted.exists_ok {c : UpdateDate}
    (h : c.Accepted fresh db thing date value) (cal : Calendar) :
    ∃ db' outcome, applyUpdateDate cal c fresh db = .ok (db', outcome) := by
  obtain ⟨hmem, hid, -⟩ := ThingRepository.get_eq_some h.found
  obtain ⟨hmemDate, -⟩ := ThingDateRepository.get_eq_some h.foundDate
  obtain ⟨thing', db₁, db₂, hpromote, hstore, hpromoted⟩ := exists_promote hmem h.thingVersion
    h.valid.1 date (fresh 0).now
  obtain ⟨dates, hupdate, -⟩ := exists_update hmemDate hid.symm h.version value (fresh 0).now
  have hmutations : ∀ m ∈ db₂.mutations, m.id ≠ (fresh 1).id ∧
      m.idempotencyKey ≠ c.idempotencyKey := by
    rw [hpromoted.mutations]
    exact h.unrecorded.1
  have htimeline : ∀ e ∈ db₂.timeline, e.id ≠ (fresh 2).id := by
    rw [hpromoted.timeline]
    exact h.unrecorded.2
  have hrecorded : ∃ db₃, ({ db₂ with dates } : Records).record
      (c.mutation cal thing thing' date (c.corrected date value (fresh 0).now) (fresh 1))
      (c.event thing date (c.corrected date value (fresh 0).now)
        (c.mutation cal thing thing' date (c.corrected date value (fresh 0).now) (fresh 1))
        (fresh 2)) = .ok db₃ ∧ _ := exists_record hmutations htimeline
  obtain ⟨db₃, hrecord, -⟩ := hrecorded
  rw [← hpromoted.dates] at hupdate
  refine ⟨db₃, UpdateDate.outcome thing' (c.corrected date value (fresh 0).now)
    (c.mutation cal thing thing' date (c.corrected date value (fresh 0).now) (fresh 1)), ?_⟩
  simp only [applyUpdateDate, getMutation_of_unrecorded h.unrecorded]
  simp only [updateStoredDate, bind_eq_ok, orRaise_eq_ok, ensure_eq_ok, pure_eq_ok, Prod.exists,
    Prod.mk.injEq]
  exact ⟨date, h.foundDate, (), h.version, thing, h.found, (), h.thingVersion, _,
    revise_of_valid h.valid date (fresh 0).now, thing', db₁, hpromote, db₂, hstore, dates, true,
    hupdate, (), rfl, db₃, hrecord, rfl, rfl⟩

/-- A call that answers was answered from an earlier mutation, or corrected a date. -/
theorem applyUpdateDate_ok {c : UpdateDate}
    (h : applyUpdateDate cal c fresh db = .ok (db', outcome)) :
    (∃ previous, AuditRepository.getMutation c.userId c.idempotencyKey db.mutations = some previous ∧
      replayDate "DATE_UPDATED" "Date updated." "date_version"
        "Stored date mutation is missing target version." previous = .ok outcome ∧ db' = db) ∨
    ∃ thing date value, c.Accepted fresh db thing date value ∧
      c.Leaves fresh db thing date value db' outcome := by
  unfold applyUpdateDate at h
  cases hprevious : AuditRepository.getMutation c.userId c.idempotencyKey db.mutations with
  | some previous =>
    simp only [hprevious, bind_eq_ok, pure_eq_ok, Prod.mk.injEq] at h
    obtain ⟨outcome', hreplay, rfl, rfl⟩ := h
    exact Or.inl ⟨previous, rfl, hreplay, rfl⟩
  | none =>
    simp only [hprevious] at h
    exact Or.inr (updateStoredDate_ok h)

/-- A correction leaves what it has to. -/
theorem UpdateDate.Accepted.exists_leaves {c : UpdateDate}
    (h : c.Accepted fresh db thing date value) (cal : Calendar) :
    ∃ db' outcome, applyUpdateDate cal c fresh db = .ok (db', outcome) ∧
      c.Leaves fresh db thing date value db' outcome := by
  obtain ⟨db', outcome, hok⟩ := h.exists_ok cal
  refine ⟨db', outcome, hok, ?_⟩
  rcases applyUpdateDate_ok hok with ⟨previous, hprevious, -⟩ | ⟨thing', date', value', h', hleaves⟩
  · rw [getMutation_of_unrecorded h.unrecorded] at hprevious
    cases hprevious
  · obtain rfl := Option.some.inj (h'.foundDate.symm.trans h.foundDate)
    obtain rfl := Option.some.inj (h'.found.symm.trans h.found)
    obtain rfl := Option.some.inj (h'.valid.1.symm.trans h.valid.1)
    exact hleaves

end PersonalState
