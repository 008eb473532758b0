import Laoshiren.PersonalState.Proofs.TombstoneProofs
import Laoshiren.PersonalState.Views

/-!
# Proofs: the views of the current state

Every view leaves out other Things. Where no write hides a Thing that a view still looks for, and none
gives a hidden Thing what a view looks for, no view ever reports a hidden Thing.
-/

namespace PersonalState

open Raise Runtime

variable {py : Builtins} {cal : Calendar} {fresh : ℕ → Stamp} {view : ℕ → State} {s s' : State}
  {reply : Reply} {thing thing' : Thing} {userId thingId : UUID} {limit : ℕ} {now : Timestamp}

/-! ## What the views know of a Thing -/

/-- What keeps a hidden Thing out of every view: a deleted one is archived, and no hidden one has a
deadline to come. -/
structure Thing.Clean (thing : Thing) : Prop where
  archived : thing.deletedAt ≠ none → thing.archivedAt ≠ none
  idle : thing.Hidden → ¬thing.Due

/-- No view reports a hidden Thing: the Things are clean, and no open Blocker is on a hidden one. -/
structure State.Clean (s : State) : Prop where
  things : ∀ thing ∈ s.things, thing.Clean
  unblocked : ∀ thing ∈ s.things, thing.Hidden → ¬s.Blocks thing.id

theorem mem_of_sorted {α : Type} {r : α → α → Prop} [DecidableRel r] {l : List α} {a : α}
    (h : a ∈ (l.insertionSort r).take limit) : a ∈ l :=
  (List.mem_insertionSort r).mp (List.mem_of_mem_take h)

/-- A Thing of a list that leaves out the archived and the merged ones. -/
theorem Thing.Clean.not_hidden (h : thing.Clean) (harchived : thing.archivedAt = none)
    (hmerged : thing.mergedIntoThingId = none) : ¬thing.Hidden := by
  rintro (hdeleted | hmerged' | harchived')
  · exact h.archived hdeleted harchived
  · exact hmerged' hmerged
  · exact harchived' harchived

/-- What a candidate is about. -/
structure AttentionCandidate.About (candidate : AttentionCandidate)
    (subjectType : AttentionSubjectType) (subjectId thingId : UUID) : Prop where
  subjectType : candidate.subjectType = subjectType
  subjectId : candidate.subjectId = subjectId
  thingId : candidate.thingId = thingId

/-- A subject that is not left alone is what the candidate is about. -/
theorem about_of_candidate? {t : Table AttentionFeedback} {candidate made : AttentionCandidate}
    {updatedAt updated : Timestamp}
    (h : AttentionRepository.candidate? userId now t candidate updatedAt = some (made, updated)) :
    made.About candidate.subjectType candidate.subjectId candidate.thingId := by
  unfold AttentionRepository.candidate? at h
  dsimp only at h
  split at h
  · cases h
  · obtain rfl := congrArg Prod.fst (Option.some.inj h)
    exact ⟨rfl, rfl, rfl⟩

/-- Every candidate is about a Thing of the user that is due, or about an open Blocker of such a
Thing. -/
theorem mem_getCandidates {dueSoonHours : ℤ} {t : Table AttentionFeedback}
    {candidate : AttentionCandidate}
    (h : candidate ∈ AttentionRepository.getCandidates userId now dueSoonHours limit t view) :
    (∃ thing ∈ (view 0).things, thing.userId = userId ∧ thing.Due ∧
        candidate.About .deadline thing.id thing.id) ∨
      ∃ b ∈ (view 1).blockers, b.status = .open ∧
        (∃ thing ∈ (view 1).things, thing.id = b.thingId ∧ thing.userId = userId) ∧
        candidate.About .blocker b.id b.thingId := by
  have hsorted := List.mem_of_mem_take h
  obtain ⟨⟨_, updated⟩, hmem, rfl⟩ := List.mem_map.mp hsorted
  rcases List.mem_append.mp ((List.mem_insertionSort _).mp hmem) with hdue | hblocked
  · obtain ⟨thing, hthing, hmade⟩ := List.mem_filterMap.mp hdue
    obtain ⟨deadline, hdeadline, hmade⟩ := Option.bind_eq_some_iff.mp hmade
    obtain ⟨hmem, hp⟩ := Table.mem_select.mp hthing
    simp only [decide_eq_true_eq] at hp
    obtain ⟨huser, -, hopen, hlive⟩ := hp
    refine .inl ⟨thing, hmem, huser, ⟨?_, by rw [hdeadline]; exact Option.some_ne_none _⟩,
      about_of_candidate? hmade⟩
    cases hstatus : thing.status with
    | active => rfl
    | completed => exact absurd hstatus hopen
    | cancelled => exact absurd hstatus hlive
  · obtain ⟨blocker, hblocker, hmade⟩ := List.mem_filterMap.mp hblocked
    obtain ⟨hmem, hp⟩ := Table.mem_select.mp hblocker
    simp only [decide_eq_true_eq] at hp
    obtain ⟨thing, hthing, hof⟩ := List.any_eq_true.mp hp.2
    exact .inr ⟨blocker, hmem, hp.1, ⟨thing, hthing, of_decide_eq_true hof⟩,
      about_of_candidate? hmade⟩

/-- No view of a clean state reports a hidden Thing. -/
theorem State.Clean.visible (hs : s.Clean) (h : s.Reports thingId) :
    ∀ thing ∈ s.things, thing.id = thingId → ¬thing.Hidden := by
  intro thing hthing hid
  have hblocked : ∀ b ∈ s.blockers, b.status = .open → thing.id = b.thingId → ¬thing.Hidden :=
    fun b hb hopen hon hhidden => hs.unblocked thing hthing hhidden ⟨b, hb, hon.symm, hopen⟩
  -- a Thing that a list holds is the Thing itself
  have hlisted : ∀ r ∈ s.things, r.id = thingId → r.archivedAt = none →
      r.mergedIntoThingId = none → ¬thing.Hidden := by
    intro r hr hrid harchived hmerged
    obtain rfl := Table.eq_of_conflict hr hthing (hrid.trans hid.symm)
    exact (hs.things _ hr).not_hidden harchived hmerged
  cases h with
  | forUser h =>
    obtain ⟨hmem, hp⟩ := Table.mem_select.mp (mem_of_sorted h)
    simp only [decide_eq_true_eq] at hp
    exact hlisted _ hmem rfl hp.2.1 hp.2.2.1
  | upcoming h =>
    obtain ⟨hmem, hp⟩ := Table.mem_select.mp (mem_of_sorted h)
    simp only [decide_eq_true_eq] at hp
    exact hlisted _ hmem rfl hp.2.1 hp.2.2.1
  | active h =>
    obtain ⟨hmem, hp⟩ := Table.mem_select.mp (mem_of_sorted h)
    simp only [decide_eq_true_eq] at hp
    exact hlisted _ hmem rfl hp.2.1 hp.2.2.1
  | recent h =>
    obtain ⟨hmem, hp⟩ := Table.mem_select.mp (mem_of_sorted h)
    simp only [decide_eq_true_eq] at hp
    exact hlisted _ hmem rfl hp.2.1 hp.2.2
  | blocked h =>
    obtain ⟨b, hb, hnamed⟩ := List.mem_filterMap.mp (mem_of_sorted h)
    obtain ⟨r, -, heq⟩ := Option.map_eq_some_iff.mp hnamed
    obtain rfl := congrArg Prod.fst heq
    obtain ⟨hmem, hopen⟩ := Table.mem_select.mp hb
    exact hblocked b hmem (of_decide_eq_true hopen) hid
  | attention h =>
    rcases mem_getCandidates h with ⟨r, hr, -, hdue, habout⟩ | ⟨b, hb, hopen, -, habout⟩
    · obtain rfl := Table.eq_of_conflict hr hthing (habout.thingId.symm.trans hid.symm)
      exact fun hhidden => (hs.things _ hr).idle hhidden hdue
    · exact hblocked b hb hopen (hid.trans habout.thingId)

/-! ## What a write does to a clean state -/

/-- Every open Blocker was there before, on the same Thing. -/
def BlockersKept (s s' : State) : Prop := ∀ thingId, s'.Blocks thingId → s.Blocks thingId

theorem BlockersKept.of_eq (h : s'.blockers = s.blockers) : BlockersKept s s' := by
  unfold BlockersKept State.Blocks
  rw [h]
  exact fun _ => id

theorem Recorded.blockers {m : StateMutation} {event : Option TimelineEvent}
    (h : Recorded m event s s') : s'.blockers = s.blockers := congrArg (·.blockers) h.same

theorem State.Clean.of_same (hs : s.Clean) (hthings : s'.things = s.things)
    (hblockers : BlockersKept s s') : s'.Clean := by
  refine ⟨?_, ?_⟩
  · rw [hthings]
    exact hs.things
  · rw [hthings]
    exact fun thing hthing hhidden hblocks => hs.unblocked thing hthing hhidden (hblockers _ hblocks)

/-- A Thing is written and stays clean, and where the write hides it no open Blocker is on it. -/
theorem State.Clean.of_writes (hs : s.Clean) (hwrites : Writes view s thing thing')
    (hlater : ∀ n, ThingsLater (view n) s) (hthings : s'.things = (s.setThing thing thing').things)
    (hblockers : BlockersKept s s') (hclean : thing'.Clean)
    (hunblocked : thing'.Hidden → ¬s.Blocks thing.id) : s'.Clean := by
  have hmem : ∀ r ∈ s'.things, r = thing' ∨ r ∈ s.things := by
    intro r hr
    rw [hthings] at hr
    exact ((hwrites.mem_iff hlater).mp hr).imp_right And.left
  refine ⟨fun r hr => ?_, fun r hr hhidden hblocks => ?_⟩
  · rcases hmem r hr with rfl | hold
    · exact hclean
    · exact hs.things r hold
  · rcases hmem r hr with rfl | hold
    · rw [hwrites.id_eq] at hblocks
      exact hunblocked hhidden (hblockers _ hblocks)
    · exact hs.unblocked r hold hhidden (hblockers _ hblocks)

/-- A write that hides no Thing: whether it is deleted, merged or archived stays. -/
theorem State.Clean.of_kept (hs : s.Clean) (hwrites : Writes view s thing thing')
    (hlater : ∀ n, ThingsLater (view n) s) (hthings : s'.things = (s.setThing thing thing').things)
    (hblockers : BlockersKept s s') (hdeleted : thing'.deletedAt = thing.deletedAt)
    (hmerged : thing'.mergedIntoThingId = thing.mergedIntoThingId)
    (harchived : thing'.archivedAt = thing.archivedAt)
    (hidle : thing.Hidden → ¬thing.Due → ¬thing'.Due) : s'.Clean := by
  have hmem := hwrites.mem hlater
  have hhidden : thing'.Hidden ↔ thing.Hidden := by
    unfold Thing.Hidden
    rw [hdeleted, hmerged, harchived]
  refine hs.of_writes hwrites hlater hthings hblockers ⟨?_, fun h => ?_⟩ fun h => ?_
  · rw [hdeleted, harchived]
    exact (hs.things _ hmem).archived
  · exact hidle (hhidden.mp h) ((hs.things _ hmem).idle (hhidden.mp h))
  · exact hs.unblocked _ hmem (hhidden.mp h)

theorem Writes.finds {version : ℤ} (hwrites : Writes view s thing thing')
    (hlater : ∀ n, ThingsLater (view n) s) {n : ℕ}
    (hfound : ThingRepository.get userId thingId (view n).things = some thing)
    (hversion : (thing.version : ℤ) = version) : s.Finds userId thingId version thing := by
  obtain ⟨-, hid, huser, hlive⟩ := ThingRepository.get_eq_some hfound
  exact ⟨hwrites.mem hlater, hid, huser, hlive, hversion⟩

/-! ## Each write -/

theorem CreateThing.Creates.clean {c : CreateThing} (h : c.Creates fresh s s') (hs : s.Clean) :
    s'.Clean := by
  obtain ⟨things, hthings, hrecorded⟩ := h.stored
  have hvisible : ¬(c.thing (fresh 0)).Hidden := by
    rintro (h | h | h) <;> exact h rfl
  have hmem : ∀ r ∈ s'.things, r = c.thing (fresh 0) ∨ r ∈ s.things := by
    intro r hr
    rw [hrecorded.things] at hr
    exact ((Table.mem_insert? hthings).mp hr).symm
  refine ⟨fun r hr => ?_, fun r hr hhidden hblocks => ?_⟩
  · rcases hmem r hr with rfl | hold
    · exact ⟨fun h => absurd rfl h, fun hhidden => absurd hhidden hvisible⟩
    · exact hs.things r hold
  · rcases hmem r hr with rfl | hold
    · exact hvisible hhidden
    · exact hs.unblocked r hold hhidden (BlockersKept.of_eq hrecorded.blockers _ hblocks)

theorem UpdateThing.Revises.clean {c : UpdateThing} (h : c.Revises fresh view s s' thing thing')
    (hlater : ∀ n, ThingsLater (view n) s) (hs : s.Clean)
    (hclean : c.status = some .active → ∀ thing,
      s.Finds c.userId c.thingId c.expectedVersion thing → thing.Hidden → thing.deadlineAt = none) :
    s'.Clean := by
  obtain ⟨hmerged, hdeleted, hdeadline, harchived⟩ := h.keeps
  refine hs.of_kept h.writes hlater h.recorded.things (.of_eq h.recorded.blockers) hdeleted hmerged
    harchived fun hhidden hidle ⟨hactive, hdue⟩ => ?_
  obtain ⟨name, currentStage, rfl⟩ := revise_ok h.revised
  cases hstatus : c.status with
  | none =>
    rw [hstatus] at hactive
    exact hidle ⟨hactive, hdue⟩
  | some status =>
    rw [hstatus] at hactive
    obtain rfl : status = .active := hactive
    exact hdue (hclean hstatus thing (h.writes.finds hlater h.found h.expected) hhidden)

theorem ChangeArchive.Changes.clean {c : ChangeArchive} (h : c.Changes cal fresh view s s' thing)
    (hlater : ∀ n, ThingsLater (view n) s) (hs : s.Clean)
    (hclean : c.archive = true → ∀ thing,
      s.Finds c.userId c.thingId c.expectedVersion thing → ¬thing.Due ∧ ¬s.Blocks thing.id) :
    s'.Clean := by
  have hmem := h.writes.mem hlater
  have hfinds := h.writes.finds hlater h.found h.expected
  obtain ⟨hmerged, hdeleted, hdeadline, hstatus⟩ := c.changed_keeps thing (fresh 0).now
  have hlive : (c.changed thing (fresh 0).now).deletedAt = none := hdeleted.trans hfinds.live
  have hdue : (c.changed thing (fresh 0).now).Due ↔ thing.Due := by
    unfold Thing.Due
    rw [hstatus, hdeadline]
  -- the Thing is hidden as before, or it has nothing that a view looks for
  have hhides : (c.changed thing (fresh 0).now).Hidden →
      thing.Hidden ∨ ¬thing.Due ∧ ¬s.Blocks thing.id := by
    cases harchive : c.archive with
    | true => exact fun _ => .inr (hclean harchive thing hfinds)
    | false =>
      rintro (hdeleted' | hmerged' | harchived')
      · exact absurd hlive hdeleted'
      · exact .inl (.inr (.inl (by rwa [hmerged] at hmerged')))
      · refine .inl (.inr (.inr ?_))
        rcases c.changed_cases thing (fresh 0).now with ⟨-, heq⟩ | ⟨-, heq⟩
        · rwa [heq] at harchived'
        · rw [heq, harchive] at harchived'
          exact absurd rfl harchived'
  refine hs.of_writes h.writes hlater h.recorded.things (.of_eq h.recorded.blockers)
    ⟨fun hdeleted' => absurd hlive hdeleted', fun hhidden hdue' => ?_⟩ fun hhidden => ?_
  · rcases hhides hhidden with hbefore | ⟨hidle, -⟩
    · exact (hs.things _ hmem).idle hbefore (hdue.mp hdue')
    · exact hidle (hdue.mp hdue')
  · rcases hhides hhidden with hbefore | ⟨-, hunblocked⟩
    · exact hs.unblocked _ hmem hbefore
    · exact hunblocked

theorem DeleteThing.Deletes.clean {c : DeleteThing} (h : c.Deletes cal fresh view s s' thing)
    (hlater : ∀ n, ThingsLater (view n) s) (hs : s.Clean)
    (hclean : ∀ thing, s.Finds c.userId c.thingId c.expectedVersion thing →
      thing.mergedIntoThingId = none → thing.archivedAt ≠ none) : s'.Clean := by
  have hmem := h.writes.mem hlater
  obtain ⟨-, hp⟩ := Table.get_eq_some h.found
  simp only [decide_eq_true_eq] at hp
  have harchived := hclean thing ⟨hmem, hp.1, hp.2, h.live, h.expected⟩ h.unmerged
  have hhidden : thing.Hidden := .inr (.inr harchived)
  have hblockers : BlockersKept s s' := by
    rintro thingId ⟨b, hb, hon, hopen⟩
    rw [h.recorded.blockers] at hb
    exact ⟨b, (Table.mem_delete.mp hb).1, hon, hopen⟩
  refine hs.of_writes h.writes hlater h.recorded.things hblockers
    ⟨fun _ => harchived, fun _ hdue => ?_⟩ fun _ => hs.unblocked _ hmem hhidden
  exact (hs.things _ hmem).idle hhidden hdue

theorem SetDeadline.Adds.clean {c : SetDeadline} {value : Timestamp}
    (h : c.Adds cal fresh view s s' thing value) (hlater : ∀ n, ThingsLater (view n) s)
    (hs : s.Clean) (hclean : c.isPrimary = true → ∀ thing,
      s.Finds c.userId c.thingId c.expectedVersion thing → thing.Hidden →
        thing.status ≠ .active) : s'.Clean := by
  cases hprimary : c.isPrimary with
  | false =>
    obtain ⟨dates, -, hrecorded⟩ := h.plain hprimary
    exact hs.of_same hrecorded.things (.of_eq hrecorded.blockers)
  | true =>
    obtain ⟨dates, hwrites, -, hrecorded⟩ := h.primary hprimary
    have hnew : c.newThing thing value (fresh 0).now =
        { thing with deadlineAt := some value }.touch (fresh 0).now := if_pos hprimary
    have hfinds := hwrites.finds hlater h.found h.expected
    rw [hnew] at hwrites hrecorded
    exact hs.of_kept hwrites hlater hrecorded.things (.of_eq hrecorded.blockers) rfl rfl rfl
      fun hhidden _ hdue => hclean hprimary thing hfinds hhidden hdue.1

theorem UpdateDate.Corrects.clean {c : UpdateDate} {date : ThingDate} {value : Timestamp}
    (h : c.Corrects cal fresh view s s' thing date value) (hlater : ∀ n, ThingsLater (view n) s)
    (hs : s.Clean) (hclean : c.isPrimary = true → ∀ date,
      ThingDateRepository.get c.userId c.dateId (view 1).things (view 1).dates = some date →
        ∀ thing, s.Finds c.userId date.thingId c.expectedThingVersion thing → thing.Hidden →
          thing.status ≠ .active) : s'.Clean := by
  obtain ⟨dates, -, ⟨-, -, hrecorded⟩ | ⟨hchanges, hwrites, hrecorded⟩⟩ := h.stored
  · exact hs.of_same hrecorded.things (.of_eq hrecorded.blockers)
  · have hfinds := hwrites.finds hlater h.found h.thingVersion
    unfold newThing at hwrites hrecorded
    by_cases hprimary : c.isPrimary = true
    · rw [if_pos hprimary] at hwrites hrecorded
      exact hs.of_kept hwrites hlater hrecorded.things (.of_eq hrecorded.blockers) rfl rfl rfl
        fun hhidden _ hdue => hclean hprimary date h.foundDate thing hfinds hhidden hdue.1
    · rw [if_neg hprimary, if_pos (hchanges.resolve_left hprimary)] at hwrites hrecorded
      exact hs.of_kept hwrites hlater hrecorded.things (.of_eq hrecorded.blockers) rfl rfl rfl
        fun _ _ hdue => hdue.2 rfl

theorem CreateBlocker.Creates.clean {c : CreateBlocker} (h : c.Creates fresh view s s')
    (hs : s.Clean) (hclean : ∀ thing ∈ s.things, thing.id = c.thingId → ¬thing.Hidden) :
    s'.Clean := by
  obtain ⟨blockers, hblockers, hrecorded⟩ := h.stored
  refine ⟨?_, ?_⟩
  · rw [hrecorded.things]
    exact hs.things
  · rintro r hr hhidden ⟨b, hb, hon, hopen⟩
    rw [hrecorded.things] at hr
    rw [hrecorded.blockers] at hb
    rcases (Table.mem_insert? hblockers).mp hb with hold | rfl
    · exact hs.unblocked r hr hhidden ⟨b, hold, hon, hopen⟩
    · exact hclean r hr hon.symm hhidden

theorem ResolveBlocker.Resolves.kept {c : ResolveBlocker} {blocker : Blocker}
    (h : c.Resolves fresh view s s' blocker) : BlockersKept s s' := by
  rintro thingId ⟨b, hb, hon, hopen⟩
  rw [h.recorded.blockers] at hb
  have hkeep : Table.Keeps (BlockerRepository.updateWhere (blocker.resolved (fresh 0).now)
    blocker.version) (BlockerRepository.updateValues (blocker.resolved (fresh 0).now)) :=
    fun _ _ _ h => h
  rcases Table.mem_update_cases hkeep hb with ⟨r, -, -, rfl⟩ | ⟨hold, -⟩
  · cases hopen
  · exact ⟨b, hold, hon, hopen⟩

/-- The open Blockers after a merge: those that the merge found of the duplicate are on the canonical
Thing, and the others are where they were. -/
theorem MergeThings.Merges.blocks {c : MergeThings} {canonical duplicate : Thing}
    (h : c.Merges fresh view s s' canonical duplicate) (hblocks : s'.Blocks thingId) :
    thingId = canonical.id ∧ s.Blocks duplicate.id ∨
      ∃ b ∈ s.blockers, b.thingId = thingId ∧ b.status = .open ∧
        (thingId = duplicate.id →
          ¬∃ r ∈ (view 5).blockers, r.id = b.id ∧ r.thingId = duplicate.id) := by
  obtain ⟨s₁, hrebound, hrecorded⟩ := h.rebound
  obtain ⟨b, hb, hon, hopen⟩ := hblocks
  simp only [rebindMergedReferences, bind_eq_ok, orRaise_eq_ok, pure_eq_ok] at hrebound
  obtain ⟨dates, -, rfl⟩ := hrebound
  rw [hrecorded.blockers] at hb
  have hkeep : Table.Keeps (Table.foundIn Blocker.id (view 5).blockers fun r =>
    decide (r.thingId = duplicate.id)) (fun r => { r with thingId := canonical.id }) :=
    fun _ _ _ h => h
  rcases Table.mem_update_cases hkeep hb with ⟨r, hr, hfound, rfl⟩ | ⟨hold, hleft⟩
  · have hbefore := of_decide_eq_true (Table.foundIn_iff.mp hfound).1
    exact .inl ⟨hon.symm, r, hr, hbefore, hopen⟩
  · refine .inr ⟨b, hold, hon, hopen, ?_⟩
    rintro hduplicate ⟨r, hr, hrid, hrthing⟩
    have hfound : Table.foundIn Blocker.id (view 5).blockers
        (fun r => decide (r.thingId = duplicate.id)) b = true :=
      Table.foundIn_iff.mpr
        ⟨decide_eq_true (hon.trans hduplicate), r, hr, hrid, decide_eq_true hrthing⟩
    rw [hfound] at hleft
    cases hleft

theorem MergeThings.Merges.clean {c : MergeThings} {canonical duplicate : Thing}
    (h : c.Merges fresh view s s' canonical duplicate) (hlater : ∀ n, ThingsLater (view n) s)
    (hs : s.Clean) (hclean : ∀ duplicate,
      s.Finds c.userId c.duplicateThingId c.expectedDuplicateVersion duplicate →
        duplicate.mergedIntoThingId = none → ¬duplicate.Due ∧
          ∀ b ∈ s.blockers, b.thingId = duplicate.id → b.status = .open →
            (∃ r ∈ (view 5).blockers, r.id = b.id ∧ r.thingId = duplicate.id) ∧
            ∀ canonical ∈ s.things, canonical.id = c.canonicalThingId → ¬canonical.Hidden) :
    s'.Clean := by
  have hfinds := h.writes.finds hlater h.duplicateFound h.duplicateVersion
  obtain ⟨hidle, hmoves⟩ := hclean duplicate hfinds h.unmerged
  obtain ⟨-, hcanonical, -⟩ := ThingRepository.get_eq_some h.canonicalFound
  have hmem : ∀ r ∈ s'.things,
      r = duplicate.merged canonical.id (fresh 0).now ∨ r ∈ s.things ∧ r.id ≠ duplicate.id := by
    intro r hr
    rw [h.things] at hr
    exact (h.writes.mem_iff hlater).mp hr
  refine ⟨fun r hr => ?_, fun r hr hhidden hblocks => ?_⟩
  · rcases hmem r hr with rfl | ⟨hold, -⟩
    · exact ⟨fun hdeleted => absurd hfinds.live hdeleted, fun _ hdue => hidle hdue⟩
    · exact hs.things r hold
  · rcases h.blocks hblocks with ⟨hon, b, hb, hbthing, hopen⟩ | ⟨b, hb, hon, hopen, hleft⟩
    · rcases hmem r hr with rfl | ⟨hold, -⟩
      · exact h.distinct (hcanonical.symm.trans (hon.symm.trans hfinds.id_eq))
      · exact (hmoves b hb hbthing hopen).2 r hold (hon.trans hcanonical) hhidden
    · rcases hmem r hr with rfl | ⟨hold, -⟩
      · exact hleft rfl (hmoves b hb hon hopen).1
      · exact hs.unblocked r hold hhidden ⟨b, hb, hon, hopen⟩

/-- A transaction that hides cleanly keeps a state clean. -/
theorem Op.Commits.clean {op : Op} (h : op.Commits cal view s s' reply)
    (hlater : ∀ n, ThingsLater (view n) s) (hclean : op.HidesCleanly view s) (hs : s.Clean) :
    s'.Clean := by
  have hclean := hclean h.isNew
  cases op with
  | createThing c fresh => exact h.1.clean hs
  | updateThing c fresh =>
    obtain ⟨thing, thing', hrevises, -⟩ := h
    exact hrevises.clean hlater hs hclean
  | changeArchive c fresh =>
    obtain ⟨thing, hchanges, -⟩ := h
    exact hchanges.clean hlater hs hclean
  | deleteThing c fresh =>
    obtain ⟨thing, hdeletes, -⟩ := h
    exact hdeletes.clean hlater hs hclean
  | mergeThings c fresh =>
    obtain ⟨canonical, duplicate, hmerges, -⟩ := h
    exact hmerges.clean hlater hs hclean
  | setDeadline c fresh =>
    obtain ⟨thing, value, hadds, -⟩ := h
    exact hadds.clean hlater hs hclean
  | updateDate c fresh =>
    obtain ⟨thing, date, value, hcorrects, -⟩ := h
    exact hcorrects.clean hlater hs hclean
  | createTask c fresh =>
    obtain ⟨_, ⟨-, -, -, _, -, hrecorded⟩, -⟩ := h
    exact hs.of_same hrecorded.things (.of_eq hrecorded.blockers)
  | transitionTask c fresh =>
    obtain ⟨_, _, hchanges, -⟩ := h
    exact hs.of_same hchanges.recorded.things (.of_eq hchanges.recorded.blockers)
  | completeTask c fresh =>
    obtain ⟨_, _, hcompletes, -⟩ := h
    exact hs.of_same hcompletes.recorded.things (.of_eq hcompletes.recorded.blockers)
  | createBlocker c fresh => exact h.1.clean hs hclean
  | resolveBlocker c fresh =>
    obtain ⟨_, hresolves, -⟩ := h
    exact hs.of_same hresolves.recorded.things hresolves.kept
  | setThingContext c fresh =>
    obtain ⟨_, ⟨-, -, ⟨-, hadds⟩ | ⟨_, -, hrevises⟩⟩, -⟩ := h
    · obtain ⟨_, -, hrecorded⟩ := hadds.stored
      exact hs.of_same hrecorded.things (.of_eq hrecorded.blockers)
    · exact hs.of_same hrevises.recorded.things (.of_eq hrevises.recorded.blockers)
  | linkToThing c fresh => exact hs.of_same h.1.recorded.things (.of_eq h.1.recorded.blockers)
  | addRelation c fresh => exact hs.of_same h.1.recorded.things (.of_eq h.1.recorded.blockers)
  | deleteFile c fresh => exact hs.of_same h.1.recorded.things (.of_eq h.1.recorded.blockers)
  | createAutomation c stamp =>
    obtain ⟨_, _, -, rfl⟩ := h
    exact hs.of_same rfl (.of_eq rfl)
  | createMemory c stamp =>
    obtain ⟨-, -, _, _, _, -, -, rfl⟩ := h
    exact hs.of_same rfl (.of_eq rfl)
  | createThread userId title key activeThingId stamp =>
    obtain ⟨_, _, -, -, -, -, rfl⟩ := h
    exact hs.of_same rfl (.of_eq rfl)
  | automationThread c stamp =>
    obtain ⟨_, _, -, -, -, -, rfl⟩ := h
    exact hs.of_same rfl (.of_eq rfl)
  | addSource source =>
    obtain ⟨_, -, rfl⟩ := h
    exact hs.of_same rfl (.of_eq rfl)
  | upkeep w => exact hs.of_same (congrArg (·.things) h) (.of_eq (congrArg (·.blockers) h))

/-! ## Every run -/

/-- In every history in which each transaction hides cleanly, no view of any state reports a Thing that
is deleted, merged or archived. -/
theorem current_views_visible (py : Builtins) (cal : Calendar) {h : History State Op Reply}
    (hr : (system py cal).ReachableIf (fun op view s => op.HidesCleanly view s) h) :
    ∀ s ∈ h.states, ∀ thingId, s.Reports thingId →
      ∀ thing ∈ s.things, thing.id = thingId → ¬thing.Hidden := by
  have hstable := ((things_stable py cal).restrict
    (p := fun op view s => op.HidesCleanly view s) fun _ _ _ _ => trivial).strengthen State.Clean
    (fun s hs => by
      obtain rfl : s = {} := hs
      exact ⟨List.forall_mem_nil _, List.forall_mem_nil _⟩)
    (fun op view s _ hlaw hviews hclean => by
      rcases commit_cases py cal op view s with hsame | hcommits
      · have hlaw' : (commit py cal op view s).1.Clean := by rwa [hsame]
        exact hlaw'
      · exact hcommits.clean (fun n => (hviews n).2.2) hclean hlaw)
  exact fun s hs thingId hreports => ((hstable.inv_mem hr hs).2).visible hreports

/-! ## A Thing that is deleted -/

/-- Thing 20 goes to the archive. -/
def putAway : ChangeArchive :=
  { userId := 1, thingId := 20, expectedVersion := 1, actionId := "action",
    idempotencyKey := "put away", reason := "said so", archive := true }

/-- Thing 20 is deleted at the version that it has after `n` writes. -/
def discard (n : ℤ) : DeleteThing := ⟨1, 20, n, "action", "discard", "said so", none⟩

/-- A Thing is created, goes to the archive and is deleted there. -/
def discardedFromArchive : History State Op Reply :=
  (system noRepr noDates).serial {} (createMoves ++
    [.changeArchive putAway (stampsFrom 30 0), .deleteThing (discard 2) (stampsFrom 40 0)])

/-- No view reports the Thing that is deleted in the archive. -/
theorem current_views_visible_discarded : ¬discardedFromArchive.cur.Reports 20 := by
  have hmeets : (system noRepr noDates).SerialMeets (fun op view s => op.HidesCleanly view s)
      ⟨{}, [], []⟩ (createMoves ++
        [.changeArchive putAway (stampsFrom 30 0),
          .deleteThing (discard 2) (stampsFrom 40 0)]) := by
    refine ⟨fun _ => trivial, fun _ => trivial, fun _ _ thing hfinds => ?_, fun _ thing hfinds _ => ?_,
      trivial⟩
    · have hundated : ∀ r ∈ ((system noRepr noDates).serial {} createMoves).cur.things,
          r.deadlineAt = none := by decide +kernel
      refine ⟨fun hdue => hdue.2 (hundated thing hfinds.mem), ?_⟩
      rintro ⟨b, hb, -⟩
      cases hb
    · have harchived : ∀ r ∈ ((system noRepr noDates).serial {} (createMoves ++
          [.changeArchive putAway (stampsFrom 30 0)])).cur.things, r.id = 20 →
            r.archivedAt ≠ none := by decide +kernel
      exact harchived thing hfinds.mem hfinds.id_eq
  have hr := (system noRepr noDates).serial_reachableIf rfl _ hmeets
  obtain ⟨thing, hthing, hid, hdeleted⟩ : ∃ r ∈ discardedFromArchive.cur.things,
      r.id = 20 ∧ r.deletedAt ≠ none := by decide +kernel
  intro hreports
  exact current_views_visible noRepr noDates hr _ (.head _) 20 hreports thing hthing hid (.inl hdeleted)

/-- A Thing is created and deleted. -/
def discardedAtOnce : History State Op Reply :=
  (system noRepr noDates).serial {} (createMoves ++
    [.deleteThing (discard 1) (stampsFrom 30 0)])

/-- A Thing that was deleted is among the recent ones still. -/
theorem discarded_thing_reported :
    (system noRepr noDates).Reachable discardedAtOnce ∧
      ∃ thing ∈ discardedAtOnce.cur.things, discardedAtOnce.cur.Reports thing.id ∧
        thing.deletedAt ≠ none := by
  obtain ⟨thing, hthing, hlisted, hdeleted⟩ : ∃ r ∈ discardedAtOnce.cur.things,
      r ∈ ThingRepository.listRecent 1 10 discardedAtOnce.cur.things ∧ r.deletedAt ≠ none := by
    decide +kernel
  exact ⟨(system noRepr noDates).serial_reachable rfl _, thing, hthing, .recent hlisted, hdeleted⟩

end PersonalState
