import Laoshiren.PersonalState.Proofs.TombstoneProofs

/-!
# Proofs: deadlines and dates

The deadline of a Thing is stored beside its dates. It agrees with them at all times where no transaction
demotes one of several primary dates, and no merge brings the first primary dates to the Thing or takes
all of them away.
-/

namespace PersonalState

open Raise Runtime

variable {py : Builtins} {cal : Calendar} {fresh : ℕ → Stamp} {view : ℕ → State} {s s' : State}
  {thing thing' : Thing} {date : ThingDate} {value : Timestamp} {dates dates' : Table ThingDate}
  {reply : Reply} {thingId : UUID}

/-! ## Primary dates -/

/-- Coherence depends on the primary dates of the Thing alone. -/
theorem Thing.Coherent.congr (h : thing.Coherent dates) (hid : thing'.id = thing.id)
    (hdeadline : thing'.deadlineAt = thing.deadlineAt)
    (hdates : ∀ r : ThingDate, r.PrimaryOf thing.id → (r ∈ dates ↔ r ∈ dates')) :
    thing'.Coherent dates' := by
  refine ⟨?_, fun value hvalue => ?_⟩
  · rw [hdeadline, hid, h.none_iff]
    exact ⟨fun hnone r hr hprimary => hnone r ((hdates r hprimary).mpr hr) hprimary,
      fun hnone r hr hprimary => hnone r ((hdates r hprimary).mp hr) hprimary⟩
  · rw [hdeadline] at hvalue
    obtain ⟨r, hr, hprimary, heq⟩ := h.value value hvalue
    exact ⟨r, (hdates r hprimary).mp hr, hid ▸ hprimary, heq⟩

/-- A Thing whose deadline is at one of its primary dates. -/
theorem coherent_of_primary {r : ThingDate} (hdeadline : thing.deadlineAt = some r.value)
    (hr : r ∈ dates) (hprimary : r.PrimaryOf thing.id) : thing.Coherent dates := by
  refine ⟨?_, fun value hvalue => ?_⟩
  · rw [hdeadline]
    refine ⟨fun hnone => ?_, fun hnone => absurd hprimary (hnone r hr)⟩
    cases hnone
  · exact ⟨r, hr, hprimary, Option.some.inj (hdeadline.symm.trans hvalue)⟩

/-- A Thing without a deadline and without a primary date. -/
theorem coherent_of_none (hdeadline : thing.deadlineAt = none)
    (hnone : ∀ r ∈ dates, ¬r.PrimaryOf thing.id) : thing.Coherent dates := by
  refine ⟨⟨fun _ => hnone, fun _ => hdeadline⟩, fun value hvalue => ?_⟩
  rw [hdeadline] at hvalue
  cases hvalue

/-- `unset_primary` leaves the dates of other Things alone. -/
theorem mem_unset_other {kind : ThingDateType} {r : ThingDate} (hother : r.thingId ≠ thingId) :
    r ∈ ThingDateRepository.unsetPrimary thingId kind dates ↔ r ∈ dates := by
  have hkeep := ThingDateRepository.unset_keeps thingId kind
  constructor
  · intro hr
    rcases Table.mem_update_cases hkeep hr with ⟨r', -, hp, rfl⟩ | ⟨hr, -⟩
    · simp only [ThingDateRepository.unsetWhere, decide_eq_true_eq] at hp
      exact absurd hp.1 hother
    · exact hr
  · intro hr
    refine Table.mem_update_of_neg hr ?_
    simp [ThingDateRepository.unsetWhere, hother]

theorem UpdateDate.mem_datesBefore_other {c : UpdateDate} {r : ThingDate}
    (hother : r.thingId ≠ thing.id) : r ∈ c.datesBefore thing date dates ↔ r ∈ dates := by
  unfold datesBefore
  split
  · exact mem_unset_other hother
  · exact Iff.rfl

/-- The dates once a date is corrected. -/
theorem UpdateDate.mem_corrected {c : UpdateDate} {now : Timestamp} {r : ThingDate}
    (hmem : date ∈ s.dates) (hversion : (date.version : ℤ) = c.expectedVersion)
    (h : ThingDateRepository.update (c.corrected date value now) c.expectedVersion
      (c.datesBefore thing date s.dates) = some (dates, true)) :
    r ∈ dates ↔ r = c.corrected date value now ∨
      r ∈ c.datesBefore thing date s.dates ∧ r.id ≠ date.id := by
  obtain ⟨row, hrow, hid, hrowVersion, -, -, hvalues⟩ := UpdateDate.exists_row hmem c thing
  simp only [ThingDateRepository.update, Option.map_eq_some_iff, Prod.mk.injEq] at h
  obtain ⟨_, hupdate, rfl, -⟩ := h
  have hp : ThingDateRepository.updateWhere (c.corrected date value now) c.expectedVersion row =
      true := by
    simp only [ThingDateRepository.updateWhere, decide_eq_true_eq]
    exact ⟨hid, by rw [hrowVersion, hversion]⟩
  rw [Table.mem_update? hupdate]
  constructor
  · rintro ⟨r₀, hr₀, rfl⟩
    by_cases hsame : r₀.id = date.id
    · obtain rfl := Table.eq_of_conflict hr₀ hrow (.inl (hsame.trans hid.symm))
      rw [Table.updateRow_pos hp]
      exact .inl (hvalues value now)
    · have hother : ThingDateRepository.updateWhere (c.corrected date value now) c.expectedVersion
          r₀ = false := by
        have hne : r₀.id ≠ (c.corrected date value now).id := hsame
        simp [ThingDateRepository.updateWhere, hne]
      rw [Table.updateRow_neg hother]
      exact .inr ⟨hr₀, hsame⟩
  · rintro (rfl | ⟨hr, hne⟩)
    · refine ⟨row, hrow, ?_⟩
      rw [Table.updateRow_pos hp]
      exact hvalues value now
    · have hother : ThingDateRepository.updateWhere (c.corrected date value now) c.expectedVersion
          r = false := by
        have hne' : r.id ≠ (c.corrected date value now).id := hne
        simp [ThingDateRepository.updateWhere, hne']
      exact ⟨r, hr, Table.updateRow_neg hother⟩

/-! ## What a transaction makes of deadlines and dates -/

/-- Every Thing has the deadline that it had, or it is new and has none. -/
def SameDeadlines (s s' : State) : Prop :=
  ∀ t' ∈ s'.things,
    (∃ t ∈ s.things, t'.id = t.id ∧ t'.deadlineAt = t.deadlineAt ∧ t'.deletedAt = t.deletedAt) ∨
    t'.deadlineAt = none ∧ ∀ t ∈ s.things, t.id ≠ t'.id

/-- What a transaction makes of the deadlines and the dates. -/
inductive DateEffect (cal : Calendar) (view : ℕ → State) : Op → State → State → Prop
  | same {op : Op} {s s' : State} (hthings : SameDeadlines s s') (hdates : s'.dates = s.dates) :
      DateEffect cal view op s s'
  | deletes {c : DeleteThing} {fresh : ℕ → Stamp} {s s' : State} {thing : Thing} {now : Timestamp}
      (hwrites : Writes view s thing (thing.deleted now))
      (hthings : s'.things = (s.setThing thing (thing.deleted now)).things)
      (hdates : s'.dates = s.dates.delete (Table.foundIn ThingDate.id (view 4).dates
        fun r => r.thingId = thing.id)) : DateEffect cal view (.deleteThing c fresh) s s'
  | adds {c : SetDeadline} {fresh : ℕ → Stamp} {s s' : State} {thing : Thing} {value : Timestamp}
      (h : c.Adds cal fresh view s s' thing value) : DateEffect cal view (.setDeadline c fresh) s s'
  | corrects {c : UpdateDate} {fresh : ℕ → Stamp} {s s' : State} {thing : Thing} {date : ThingDate}
      {value : Timestamp} (h : c.Corrects cal fresh view s s' thing date value) :
      DateEffect cal view (.updateDate c fresh) s s'
  | merges {c : MergeThings} {fresh : ℕ → Stamp} {s s' : State} {canonical duplicate : Thing}
      (h : c.Merges fresh view s s' canonical duplicate) :
      DateEffect cal view (.mergeThings c fresh) s s'

theorem SameDeadlines.of_eq (h : s'.things = s.things) : SameDeadlines s s' := by
  intro t' ht'
  rw [h] at ht'
  exact .inl ⟨t', ht', rfl, rfl, rfl⟩

theorem SameDeadlines.of_writes (hwrites : Writes view s thing thing')
    (hlater : ∀ n, ThingsLater (view n) s) (hdeleted : thing'.deletedAt = thing.deletedAt)
    (hdeadline : thing'.deadlineAt = thing.deadlineAt)
    (h : s'.things = (s.setThing thing thing').things) : SameDeadlines s s' := by
  intro t' ht'
  rw [h] at ht'
  rcases (hwrites.mem_iff hlater).mp ht' with rfl | ⟨hold, -⟩
  · exact .inl ⟨thing, hwrites.mem hlater, hwrites.id_eq, hdeadline, hdeleted⟩
  · exact .inl ⟨t', hold, rfl, rfl, rfl⟩

theorem Op.Commits.dateEffect {op : Op} (h : op.Commits cal view s s' reply)
    (hlater : ∀ n, ThingsLater (view n) s) : DateEffect cal view op s s' := by
  cases op with
  | createThing c fresh =>
    obtain ⟨⟨-, things, hthings, hrecorded⟩, -⟩ := h
    refine .same (fun t' ht' => ?_) hrecorded.dates
    rw [hrecorded.things] at ht'
    rcases (Table.mem_insert? hthings).mp ht' with hold | rfl
    · exact .inl ⟨t', hold, rfl, rfl, rfl⟩
    · exact .inr ⟨rfl, fun t ht => Table.not_conflict_of_insert? hthings ht⟩
  | updateThing c fresh =>
    obtain ⟨thing, thing', hrevises, -⟩ := h
    obtain ⟨-, hdeleted, hdeadline, -⟩ := hrevises.keeps
    exact .same (.of_writes hrevises.writes hlater hdeleted hdeadline hrevises.recorded.things)
      hrevises.recorded.dates
  | changeArchive c fresh =>
    obtain ⟨thing, hchanges, -⟩ := h
    obtain ⟨-, hdeleted, hdeadline, -⟩ := c.changed_keeps thing (fresh 0).now
    exact .same (.of_writes hchanges.writes hlater hdeleted hdeadline hchanges.recorded.things)
      hchanges.recorded.dates
  | deleteThing c fresh =>
    obtain ⟨thing, hdeletes, -⟩ := h
    exact .deletes hdeletes.writes hdeletes.recorded.things hdeletes.recorded.dates
  | mergeThings c fresh =>
    obtain ⟨canonical, duplicate, hmerges, -⟩ := h
    exact .merges hmerges
  | setDeadline c fresh =>
    obtain ⟨thing, value, hadds, -⟩ := h
    exact .adds hadds
  | updateDate c fresh =>
    obtain ⟨thing, date, value, hcorrects, -⟩ := h
    exact .corrects hcorrects
  | createTask c fresh =>
    obtain ⟨_, ⟨-, -, -, _, -, hrecorded⟩, -⟩ := h
    exact .same (.of_eq hrecorded.things) hrecorded.dates
  | transitionTask c fresh =>
    obtain ⟨_, _, hchanges, -⟩ := h
    exact .same (.of_eq hchanges.recorded.things) hchanges.recorded.dates
  | completeTask c fresh =>
    obtain ⟨_, _, hcompletes, -⟩ := h
    exact .same (.of_eq hcompletes.recorded.things) hcompletes.recorded.dates
  | createBlocker c fresh =>
    obtain ⟨⟨-, -, _, -, hrecorded⟩, -⟩ := h
    exact .same (.of_eq hrecorded.things) hrecorded.dates
  | resolveBlocker c fresh =>
    obtain ⟨_, hresolves, -⟩ := h
    exact .same (.of_eq hresolves.recorded.things) hresolves.recorded.dates
  | setThingContext c fresh =>
    obtain ⟨_, ⟨-, -, ⟨-, hadds⟩ | ⟨_, -, hrevises⟩⟩, -⟩ := h
    · obtain ⟨_, -, hrecorded⟩ := hadds.stored
      exact .same (.of_eq hrecorded.things) hrecorded.dates
    · exact .same (.of_eq hrevises.recorded.things) hrevises.recorded.dates
  | linkToThing c fresh => exact .same (.of_eq h.1.recorded.things) h.1.recorded.dates
  | addRelation c fresh => exact .same (.of_eq h.1.recorded.things) h.1.recorded.dates
  | deleteFile c fresh => exact .same (.of_eq h.1.recorded.things) h.1.recorded.dates
  | createAutomation c stamp =>
    obtain ⟨_, _, -, rfl⟩ := h
    exact .same (.of_eq rfl) rfl
  | createMemory c stamp =>
    obtain ⟨-, -, _, _, _, -, -, rfl⟩ := h
    exact .same (.of_eq rfl) rfl
  | createThread userId title key activeThingId stamp =>
    obtain ⟨_, _, -, -, -, -, rfl⟩ := h
    exact .same (.of_eq rfl) rfl
  | automationThread c stamp =>
    obtain ⟨_, _, -, -, -, -, rfl⟩ := h
    exact .same (.of_eq rfl) rfl
  | addSource source =>
    obtain ⟨_, -, rfl⟩ := h
    exact .same (.of_eq rfl) rfl
  | upkeep w => exact .same (.of_eq (congrArg (·.things) h)) (congrArg (·.dates) h)

/-! ## The Things of the dates -/

/-- Every date is a date of some Thing. -/
def State.DatesOwned (s : State) : Prop := ∀ r ∈ s.dates, ∃ t ∈ s.things, t.id = r.thingId

theorem ThingsLater.exists_thing (h : ThingsLater s s') (hthing : ∃ t ∈ s.things, t.id = thingId) :
    ∃ t ∈ s'.things, t.id = thingId := by
  obtain ⟨t, ht, rfl⟩ := hthing
  obtain ⟨t', ht', hid, -⟩ := h t ht
  exact ⟨t', ht', hid⟩

theorem Op.Commits.datesOwned {op : Op} (h : op.Commits cal view s s' reply)
    (hlater : ∀ n, ThingsLater (view n) s) (hs' : ThingsLater s s') (hs : s.DatesOwned) :
    s'.DatesOwned := by
  intro r hr
  have hold : s.Holds r.thingId (.date r.id) → ∃ t ∈ s'.things, t.id = r.thingId := by
    rintro ⟨r₀, hr₀, -, howner⟩
    exact hs'.exists_thing (howner ▸ hs r₀ hr₀)
  have hholds : s'.Holds r.thingId (.date r.id) := ⟨r, hr, rfl, rfl⟩
  -- a date is attached by `apply_set_deadline` and by `apply_merge_things`, to a Thing that they read
  have hfound : ∀ {n t}, t ∈ (view n).things → ∃ t' ∈ s'.things, t'.id = t.id :=
    fun ht => hs'.exists_thing ((hlater _).exists_thing ⟨_, ht, rfl⟩)
  rcases h.holds hholds with hbefore | hattaches
  · exact hold hbefore
  · cases h.dateEffect hlater with
    | same _ hdates => exact hs'.exists_thing (hs r (hdates ▸ hr))
    | deletes => cases hattaches
    | adds hadds =>
      obtain ⟨hmem, hid, -⟩ := ThingRepository.get_eq_some hadds.found
      rw [← Option.some.inj hattaches, ← hid]
      exact hfound hmem
    | corrects => cases hattaches
    | merges hmerges =>
      obtain ⟨hmem, hid, -⟩ := ThingRepository.get_eq_some hmerges.canonicalFound
      rw [← Option.some.inj hattaches, ← hid]
      exact hfound hmem

/-! ## Coherence -/

/-- A primary date that is added becomes the deadline of its Thing. -/
theorem SetDeadline.Adds.coherentAt {c : SetDeadline}
    (h : c.Adds cal fresh (fun _ => s) s s' thing value) (hs : s.CoherentAt thingId) :
    s'.CoherentAt thingId := by
  have hlater : ∀ _ : ℕ, ThingsLater s s := fun _ => Table.Evolves.refl ThingLater.refl s.things
  intro t' ht' hid hlive
  cases hprimary : c.isPrimary with
  | false =>
    obtain ⟨dates, hdates, hs'⟩ := h.plain hprimary
    rw [hs'.things] at ht'
    refine (hs t' ht' hid hlive).congr rfl rfl fun r hr => ?_
    rw [hs'.dates, Table.mem_insert? hdates]
    refine ⟨.inl, fun hmem => hmem.resolve_right fun hnew => ?_⟩
    rw [hnew] at hr
    exact Bool.false_ne_true (hprimary.symm.trans hr.2)
  | true =>
    obtain ⟨dates, hwrites, hdates, hs'⟩ := h.primary hprimary
    rw [hs'.things] at ht'
    rcases (hwrites.mem_iff hlater).mp ht' with rfl | ⟨hold, hother⟩
    · have hnew : c.newThing thing value (fresh 0).now =
          { thing with deadlineAt := some value }.touch (fresh 0).now := by
        rw [SetDeadline.newThing, if_pos hprimary]
      rw [hnew]
      refine coherent_of_primary (r := c.date thing value (fresh 0)) rfl ?_ ⟨rfl, hprimary⟩
      rw [hs'.dates, Table.mem_insert? hdates]
      exact .inr rfl
    · refine (hs t' hold hid hlive).congr rfl rfl fun r hr => ?_
      have hne : r.thingId ≠ thing.id := fun hsame => hother (hr.1.symm.trans hsame)
      rw [hs'.dates, Table.mem_insert? hdates, mem_unset_other hne]
      exact ⟨.inl, fun hmem => hmem.resolve_right fun hnew => hne (by rw [hnew]; rfl)⟩

/-- A date that is corrected takes the deadline of its Thing away only where it was the only primary
date. -/
theorem UpdateDate.Corrects.coherentAt {c : UpdateDate}
    (h : c.Corrects cal fresh (fun _ => s) s s' thing date value)
    (hnew : (Op.updateDate c fresh).IsNew s)
    (hkeeps : ¬(Op.updateDate c fresh).LosesDeadline s thingId) (hs : s.CoherentAt thingId) :
    s'.CoherentAt thingId := by
  have hlater : ∀ _ : ℕ, ThingsLater s s := fun _ => Table.Evolves.refl ThingLater.refl s.things
  obtain ⟨hdate, -⟩ := ThingDateRepository.get_eq_some h.foundDate
  obtain ⟨-, howner, -⟩ := ThingRepository.get_eq_some h.found
  obtain ⟨dates, hdates, hstored⟩ := h.stored
  have hmem : ∀ {r : ThingDate}, r ∈ dates ↔ r = c.corrected date value (fresh 0).now ∨
      r ∈ c.datesBefore thing date s.dates ∧ r.id ≠ date.id :=
    UpdateDate.mem_corrected hdate h.version hdates
  -- the dates of the other Things stay
  have hothers : ∀ {r : ThingDate}, r.thingId ≠ thing.id → (r ∈ s.dates ↔ r ∈ dates) := by
    intro r hne
    have hnotDate : r ∈ s.dates → r.id ≠ date.id := by
      intro hr hsame
      obtain rfl := Table.eq_of_conflict hr hdate (.inl hsame)
      exact hne howner.symm
    rw [hmem, UpdateDate.mem_datesBefore_other hne]
    refine ⟨fun hr => .inr ⟨hr, hnotDate hr⟩, ?_⟩
    rintro (rfl | ⟨hr, -⟩)
    · exact absurd howner.symm hne
    · exact hr
  intro t' ht' hid hlive
  rcases hstored with ⟨hplain, hwas, hs'⟩ | ⟨hwas, hwrites, hs'⟩
  · rw [hs'.things] at ht'
    refine (hs t' ht' hid hlive).congr rfl rfl fun r hprimary => ?_
    rw [hs'.dates, hmem, UpdateDate.datesBefore, if_neg (by simp [hplain])]
    constructor
    · intro hr
      refine .inr ⟨hr, fun hsame => ?_⟩
      obtain rfl := Table.eq_of_conflict hr hdate (.inl hsame)
      exact Bool.false_ne_true (hwas.symm.trans hprimary.2)
    · rintro (rfl | ⟨hr, -⟩)
      · exact absurd hprimary.2 (by simp [UpdateDate.corrected, hplain])
      · exact hr
  · rw [hs'.things] at ht'
    rcases (hwrites.mem_iff hlater).mp ht' with rfl | ⟨hold, hother⟩
    · rw [hs'.dates]
      cases hprimary : c.isPrimary with
      | true =>
        refine coherent_of_primary (r := c.corrected date value (fresh 0).now) ?_ (hmem.mpr (.inl rfl))
          ⟨howner.symm.trans hwrites.id_eq.symm, hprimary⟩
        rw [UpdateDate.newThing, if_pos hprimary]
        rfl
      | false =>
        have hdatePrimary : date.isPrimary = true := hwas.resolve_left (by simp [hprimary])
        have hthing : thing.id = thingId := hwrites.id_eq.symm.trans hid
        have hfound := h.found
        rw [← howner, hthing] at hfound
        refine coherent_of_none ?_ fun r hr hof => ?_
        · rw [UpdateDate.newThing, if_neg (by simp [hprimary]), if_pos hdatePrimary]
          rfl
        · rcases hmem.mp hr with rfl | ⟨hbefore, hne⟩
          · exact Bool.false_ne_true (hprimary.symm.trans hof.2)
          · rw [UpdateDate.datesBefore, if_neg (by simp [hprimary])] at hbefore
            rw [hid] at hof
            exact hkeeps ⟨hnew, hprimary, ⟨value, h.valid⟩, date, thing, h.foundDate, hfound,
              ⟨howner.symm.trans hthing, hdatePrimary⟩, h.version, h.thingVersion, r, hbefore, hne,
              hof⟩
    · refine (hs t' hold hid hlive).congr rfl rfl fun r hprimary => ?_
      have hne : r.thingId ≠ thing.id := fun hsame => hother (hprimary.1.symm.trans hsame)
      rw [hs'.dates]
      exact hothers hne

/-- Dates that are moved from one Thing to another: any other date stays. -/
theorem mem_moved {oldId newId : UUID} {r : ThingDate}
    (h : dates.update? (fun r => r.thingId = oldId) (fun r => { r with thingId := newId }) =
      some dates') :
    r ∈ dates' ↔ (r ∈ dates ∧ r.thingId ≠ oldId) ∨
      ∃ r₀ ∈ dates, r₀.thingId = oldId ∧ { r₀ with thingId := newId } = r := by
  rw [Table.mem_update? h]
  constructor
  · rintro ⟨r₀, hr₀, rfl⟩
    by_cases hmoved : r₀.thingId = oldId
    · refine .inr ⟨r₀, hr₀, hmoved, ?_⟩
      simp only [Table.updateRow, hmoved, decide_true, if_true]
    · simp only [Table.updateRow, hmoved, decide_false, Bool.false_eq_true, if_false]
      exact .inl ⟨hr₀, hmoved⟩
  · rintro (⟨hr, hne⟩ | ⟨r₀, hr₀, hmoved, rfl⟩)
    · refine ⟨r, hr, ?_⟩
      simp only [Table.updateRow, hne, decide_false, Bool.false_eq_true, if_false]
    · refine ⟨r₀, hr₀, ?_⟩
      simp only [Table.updateRow, hmoved, decide_true, if_true]

/-- A merge leaves the deadlines in agreement where the duplicate has no primary date, and that of the
canonical Thing also where the canonical Thing has one of its own. -/
theorem MergeThings.Merges.coherentAt {c : MergeThings} {canonical duplicate : Thing}
    (h : c.Merges fresh (fun _ => s) s s' canonical duplicate)
    (hnew : (Op.mergeThings c fresh).IsNew s)
    (hkeeps : ¬(Op.mergeThings c fresh).LosesDeadline s thingId) (hs : s.CoherentAt thingId) :
    s'.CoherentAt thingId := by
  have hlater : ∀ _ : ℕ, ThingsLater s s := fun _ => Table.Evolves.refl ThingLater.refl s.things
  obtain ⟨-, hcanonical, -⟩ := ThingRepository.get_eq_some h.canonicalFound
  obtain ⟨hduplicateMem, hduplicate, -⟩ := ThingRepository.get_eq_some h.duplicateFound
  have hdistinct : canonical.id ≠ duplicate.id := by
    rw [hcanonical, hduplicate]
    exact h.distinct
  obtain ⟨s₁, hrebound, hs'⟩ := h.rebound
  obtain ⟨hdates, -⟩ := rebind_ok hrebound
  rw [update?_foundIn] at hdates
  have hboth : ¬s.BothPrimary c.canonicalThingId c.duplicateThingId := by
    rw [← hcanonical, ← hduplicate]
    exact (MergeThings.exists_update?_iff hdistinct).mp ⟨_, hdates⟩
  have hsame : s'.dates = s₁.dates := hs'.dates
  rw [← hsame] at hdates
  have hmem : ∀ {r : ThingDate}, r ∈ s'.dates ↔
      (r ∈ s.dates ∧ r.thingId ≠ duplicate.id) ∨
        ∃ r₀ ∈ s.dates, r₀.thingId = duplicate.id ∧ { r₀ with thingId := canonical.id } = r :=
    mem_moved hdates
  have hloses : (∃ r ∈ s.dates, r.PrimaryOf duplicate.id) → thingId ≠ duplicate.id ∧
      (thingId = canonical.id → ∃ r ∈ s.dates, r.PrimaryOf canonical.id) := by
    intro hprimary
    rw [hduplicate, hcanonical]
    rw [hduplicate] at hprimary
    by_contra hnot
    refine hkeeps ⟨hnew, h.distinct, ⟨canonical, duplicate, h.canonicalFound, h.duplicateFound,
      h.canonicalVersion, h.duplicateVersion, h.unmerged⟩, hboth, hprimary, ?_⟩
    by_cases hthing : thingId = c.duplicateThingId
    · exact .inl hthing
    · refine .inr ?_
      by_contra hcanonicalKeeps
      refine hnot ⟨hthing, fun hthing' => ?_⟩
      by_contra hnone
      exact hcanonicalKeeps ⟨hthing', fun r hr hof => hnone ⟨r, hr, hof⟩⟩
  intro t' ht' hid hlive
  rw [h.things] at ht'
  rcases (h.writes.mem_iff hlater).mp ht' with rfl | ⟨hold, hother⟩
  · -- the duplicate had no primary date, and has no dates any more
    have hnone : ∀ r ∈ s.dates, ¬r.PrimaryOf duplicate.id := by
      intro r hr hprimary
      exact (hloses ⟨r, hr, hprimary⟩).1 hid.symm
    refine coherent_of_none ((hs duplicate hduplicateMem hid hlive).none_iff.mpr hnone)
      fun r hr hprimary => ?_
    rcases hmem.mp hr with ⟨-, hne⟩ | ⟨r₀, -, -, rfl⟩
    · exact hne hprimary.1
    · exact hdistinct hprimary.1
  · have hcoherent := hs t' hold hid hlive
    by_cases hcanonicalThing : t'.id = canonical.id
    · by_cases hmoves : ∃ r ∈ s.dates, r.PrimaryOf duplicate.id
      · -- the canonical Thing keeps its own primary dates
        have hkept : ∀ {r : ThingDate}, r ∈ s.dates → r.PrimaryOf t'.id → r ∈ s'.dates := by
          intro r hr hprimary
          exact hmem.mpr (.inl ⟨hr, fun howner => hother (hprimary.1.symm.trans howner)⟩)
        obtain ⟨r, hr, hprimary⟩ := (hloses hmoves).2 (hid.symm.trans hcanonicalThing)
        rw [← hcanonicalThing] at hprimary
        cases hdeadline : t'.deadlineAt with
        | none => exact absurd hprimary (hcoherent.none_iff.mp hdeadline r hr)
        | some value =>
          obtain ⟨r, hr, hprimary, rfl⟩ := hcoherent.value value hdeadline
          exact coherent_of_primary hdeadline (hkept hr hprimary) hprimary
      · refine hcoherent.congr rfl rfl fun r hprimary => ⟨fun hr => ?_, fun hr => ?_⟩
        · exact hmem.mpr (.inl ⟨hr, fun howner => hother (hprimary.1.symm.trans howner)⟩)
        · rcases hmem.mp hr with ⟨hr, -⟩ | ⟨r₀, hr₀, howner, rfl⟩
          · exact hr
          · exact absurd ⟨r₀, hr₀, howner, hprimary.2⟩ hmoves
    · refine hcoherent.congr rfl rfl fun r hprimary => ⟨fun hr => ?_, fun hr => ?_⟩
      · exact hmem.mpr (.inl ⟨hr, fun howner => hother (hprimary.1.symm.trans howner)⟩)
      · rcases hmem.mp hr with ⟨hr, -⟩ | ⟨r₀, -, -, rfl⟩
        · exact hr
        · exact absurd hprimary.1.symm hcanonicalThing

theorem Op.Commits.coherentAt {op : Op} (h : op.Commits cal (fun _ => s) s s' reply) (howned : s.DatesOwned)
    (hkeeps : ¬op.LosesDeadline s thingId) (hs : s.CoherentAt thingId) : s'.CoherentAt thingId := by
  have hlater : ∀ _ : ℕ, ThingsLater s s := fun _ => Table.Evolves.refl ThingLater.refl s.things
  intro t' ht' hid hlive
  cases h.dateEffect hlater with
  | same hthings hdates =>
    rw [hdates]
    rcases hthings t' ht' with ⟨t, ht, hsame, hdeadline, hdeleted⟩ | ⟨hnone, hnew⟩
    · exact (hs t ht (hsame.symm.trans hid) (hdeleted.symm.trans hlive)).congr hsame hdeadline
        fun _ _ => Iff.rfl
    · refine coherent_of_none hnone fun r hr hprimary => ?_
      obtain ⟨t, ht, howner⟩ := howned r hr
      exact hnew t ht (howner.trans hprimary.1)
  | @deletes c fresh _ _ thing now hwrites hthings hdates =>
    rw [hthings] at ht'
    rcases (hwrites.mem_iff hlater).mp ht' with rfl | ⟨hold, hother⟩
    · cases hlive
    · refine (hs t' hold hid hlive).congr rfl rfl fun r hprimary => ?_
      rw [hdates, Table.mem_delete]
      have hout : Table.foundIn ThingDate.id s.dates (fun r => decide (r.thingId = thing.id)) r =
          false := by
        have hne : r.thingId ≠ thing.id := fun hsame => hother (hprimary.1.symm.trans hsame)
        simp [Table.foundIn, hne]
      exact ⟨fun hr => ⟨hr, hout⟩, fun hr => hr.1⟩
  | adds hadds => exact hadds.coherentAt hs t' ht' hid hlive
  | corrects hcorrects => exact hcorrects.coherentAt h.isNew hkeeps hs t' ht' hid hlive
  | merges hmerges => exact hmerges.coherentAt h.isNew hkeeps hs t' ht' hid hlive

/-- In every history of transactions one after the other, the deadline of a Thing agrees with its
dates at all times, where none of them loses it. -/
theorem deadline_coherent (py : Builtins) (cal : Calendar) (thingId : UUID)
    {h : History State Op Reply} (hr : (system py cal).ReachableIf
      (fun op view s => (∀ n, view n = s) ∧ ¬op.LosesDeadline s thingId) h) :
    ∀ s ∈ h.states, s.CoherentAt thingId := by
  have hstable := ((things_stable py cal).restrict
    (p := fun op view s => (∀ n, view n = s) ∧ ¬op.LosesDeadline s thingId)
    fun _ _ _ _ => trivial).strengthen (fun s => s.DatesOwned ∧ s.CoherentAt thingId)
    (fun s hs => by
      obtain rfl : s = {} := hs
      exact ⟨fun r hr => absurd hr Table.not_mem_empty, fun t ht => absurd ht Table.not_mem_empty⟩)
    (fun op view s _ hlaw hviews hok => by
      obtain rfl : view = fun _ => s := funext hok.1
      have hlater := ((things_stable py cal).step op _ s trivial
        (fun n => ⟨trivial, (hviews n).2.2⟩) trivial).2
      rcases commit_cases py cal op (fun _ => s) s with hsame | hcommits
      · have hlaw' : (commit py cal op (fun _ => s) s).1.DatesOwned ∧
            (commit py cal op (fun _ => s) s).1.CoherentAt thingId := by rwa [hsame]
        exact hlaw'
      · exact ⟨hcommits.datesOwned (fun n => (hviews n).2.2) hlater hlaw.1,
          hcommits.coherentAt hlaw.1 hok.2 hlaw.2⟩)
  exact fun s hs => (hstable.inv_mem hr hs).2.2

/-! ## Two primary dates -/

/-- User 1 sets a primary date of Thing 10, at its version `version`. -/
def setPrimary (kind : ThingDateType) (version : ℤ) (key : String) : SetDeadline :=
  { userId := 1, thingId := 10, kind, value := .utc 7, timezoneName := "UTC", precision := .date,
    certainty := .confirmed, isPrimary := true, expectedVersion := version, actionId := "action",
    idempotencyKey := key, reason := "said so" }

/-- User 1 creates Thing 10 with a deadline and an event, both primary. -/
def twoPrimaries : List Op :=
  [.createThing ⟨1, "Move", "action", "move", "new", none⟩ (stampsFrom 10 0),
    .setDeadline (setPrimary .deadline 1 "deadline") (stampsFrom 20 0),
    .setDeadline (setPrimary .event 2 "event") (stampsFrom 30 0)]

/-- The deadline of Thing 10 is no primary date any more. -/
def demoteDeadline : UpdateDate :=
  { userId := 1, dateId := 20, value := .utc 7, timezoneName := "UTC", precision := .date,
    certainty := .confirmed, isPrimary := false, expectedVersion := 1, expectedThingVersion := 3,
    actionId := "action", idempotencyKey := "demote", reason := "said so" }

theorem deadline_coherent_twoPrimaries :
    ((system noRepr noDates).serial {} twoPrimaries).cur.CoherentAt 10 := by
  have hmeets : (system noRepr noDates).SerialMeets
      (fun op view s => (∀ n, view n = s) ∧ ¬op.LosesDeadline s 10) ⟨{}, [], []⟩ twoPrimaries :=
    ⟨⟨fun _ => rfl, And.right⟩, ⟨fun _ => rfl, And.right⟩, ⟨fun _ => rfl, And.right⟩, trivial⟩
  have hr := (system noRepr noDates).serial_reachableIf rfl _ hmeets
  exact deadline_coherent noRepr noDates 10 hr _ (.head _)

/-- The history in which one of two primary dates is demoted. -/
def demoted : History State Op Reply :=
  (system noRepr noDates).serial {} (twoPrimaries ++ [.updateDate demoteDeadline (stampsFrom 40 0)])

/-- A live Thing keeps a primary date and has no deadline. -/
theorem demoted_loses_deadline :
    (system noRepr noDates).Reachable demoted ∧
      ∃ thing ∈ demoted.cur.things, thing.id = 10 ∧ thing.deletedAt = none ∧
        thing.mergedIntoThingId = none ∧ thing.deadlineAt = none ∧
        (∃ r ∈ demoted.cur.dates, r.PrimaryOf 10) ∧ ¬thing.Coherent demoted.cur.dates := by
  have hthing : ∃ thing ∈ demoted.cur.things.rows, thing.id = 10 ∧ thing.deletedAt = none ∧
      thing.mergedIntoThingId = none ∧ thing.deadlineAt = none := by decide +kernel
  have hdate : ∃ r ∈ demoted.cur.dates.rows, r.PrimaryOf 10 := by decide +kernel
  obtain ⟨thing, hmem, hid, hlive, hunmerged, hnone⟩ := hthing
  obtain ⟨r, hr, hprimary⟩ := hdate
  refine ⟨(system noRepr noDates).serial_reachable rfl _, thing, hmem, hid, hlive, hunmerged, hnone,
    ⟨r, hr, hprimary⟩, fun hcoherent => ?_⟩
  exact hcoherent.none_iff.mp hnone r hr (hid ▸ hprimary)

end PersonalState
