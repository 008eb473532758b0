import Laoshiren.PersonalState.Proofs.CommitProofs

/-!
# Proofs: the Things of the Personal State over time

What a transaction does to the Things, and what holds between a state and every later one.
-/

namespace PersonalState

open Raise Runtime

variable {py : Builtins} {cal : Calendar} {fresh : ℕ → Stamp} {view : ℕ → State} {s s' : State}
  {reply : Reply} {thing thing' : Thing}

/-! ## What a transaction does to the Things -/

/-- What a transaction makes of the Things. -/
inductive ThingEffect (cal : Calendar) (view : ℕ → State) : Op → State → State → Prop
  | same {op : Op} {s s' : State} (h : s'.things = s.things) : ThingEffect cal view op s s'
  | creates {c : CreateThing} {fresh : ℕ → Stamp} {s s' : State}
      (h : s.things.insert? (c.thing (fresh 0)) = some s'.things) :
      ThingEffect cal view (.createThing c fresh) s s'
  | revises {op : Op} {s s' : State} {thing thing' : Thing} (hwrites : Writes view s thing thing')
      (hmerged : thing'.mergedIntoThingId = thing.mergedIntoThingId)
      (hlive : thing.deletedAt = none ∧ thing'.deletedAt = none)
      (h : s'.things = (s.setThing thing thing').things) : ThingEffect cal view op s s'
  | deletes {c : DeleteThing} {fresh : ℕ → Stamp} {s s' : State} {thing : Thing}
      (h : c.Deletes cal fresh view s s' thing) : ThingEffect cal view (.deleteThing c fresh) s s'
  | merges {c : MergeThings} {fresh : ℕ → Stamp} {s s' : State} {canonical duplicate : Thing}
      (h : c.Merges fresh view s s' canonical duplicate) :
      ThingEffect cal view (.mergeThings c fresh) s s'

theorem SetDeadline.newThing_keeps (c : SetDeadline) (thing : Thing) (value now : Timestamp) :
    (c.newThing thing value now).mergedIntoThingId = thing.mergedIntoThingId ∧
      (c.newThing thing value now).deletedAt = thing.deletedAt := by
  unfold newThing
  split <;> exact ⟨rfl, rfl⟩

theorem UpdateDate.newThing_keeps (c : UpdateDate) (thing : Thing) (date : ThingDate)
    (value now : Timestamp) :
    (c.newThing thing date value now).mergedIntoThingId = thing.mergedIntoThingId ∧
      (c.newThing thing date value now).deletedAt = thing.deletedAt := by
  unfold newThing
  split
  · exact ⟨rfl, rfl⟩
  · split <;> exact ⟨rfl, rfl⟩

/-- A write that leaves alone whether a live Thing is merged or deleted. -/
theorem ThingEffect.of_keeps {op : Op} {n : ℕ} {userId thingId : UUID}
    (hwrites : Writes view s thing thing')
    (hfound : ThingRepository.get userId thingId (view n).things = some thing)
    (hkeeps : thing'.mergedIntoThingId = thing.mergedIntoThingId ∧
      thing'.deletedAt = thing.deletedAt)
    (h : s'.things = (s.setThing thing thing').things) : ThingEffect cal view op s s' := by
  obtain ⟨-, -, -, hlive⟩ := ThingRepository.get_eq_some hfound
  exact .revises hwrites hkeeps.1 ⟨hlive, hkeeps.2.trans hlive⟩ h

theorem Op.Commits.thingEffect {op : Op} (h : op.Commits cal view s s' reply) :
    ThingEffect cal view op s s' := by
  cases op with
  | createThing c fresh =>
    obtain ⟨⟨-, things, hthings, hrecorded⟩, -⟩ := h
    exact .creates (by rw [hrecorded.things]; exact hthings)
  | updateThing c fresh =>
    obtain ⟨thing, thing', hrevises, -⟩ := h
    obtain ⟨hmerged, hdeleted, -⟩ := hrevises.keeps
    exact .of_keeps hrevises.writes hrevises.found ⟨hmerged, hdeleted⟩ hrevises.recorded.things
  | changeArchive c fresh =>
    obtain ⟨thing, hchanges, -⟩ := h
    obtain ⟨hmerged, hdeleted, -⟩ := c.changed_keeps thing (fresh 0).now
    exact .of_keeps hchanges.writes hchanges.found ⟨hmerged, hdeleted⟩ hchanges.recorded.things
  | deleteThing c fresh =>
    obtain ⟨thing, hdeletes, -⟩ := h
    exact .deletes hdeletes
  | mergeThings c fresh =>
    obtain ⟨canonical, duplicate, hmerges, -⟩ := h
    exact .merges hmerges
  | setDeadline c fresh =>
    obtain ⟨thing, value, hadds, -⟩ := h
    cases hprimary : c.isPrimary with
    | false =>
      obtain ⟨dates, -, hrecorded⟩ := hadds.plain hprimary
      exact .same hrecorded.things
    | true =>
      obtain ⟨dates, hwrites, -, hrecorded⟩ := hadds.primary hprimary
      exact .of_keeps hwrites hadds.found (c.newThing_keeps _ _ _) hrecorded.things
  | updateDate c fresh =>
    obtain ⟨thing, date, value, hcorrects, -⟩ := h
    obtain ⟨dates, -, ⟨-, -, hrecorded⟩ | ⟨-, hwrites, hrecorded⟩⟩ := hcorrects.stored
    · exact .same hrecorded.things
    · exact .of_keeps hwrites hcorrects.found (c.newThing_keeps _ _ _ _) hrecorded.things
  | createTask c fresh =>
    obtain ⟨_, ⟨-, -, -, _, -, hrecorded⟩, -⟩ := h
    exact .same hrecorded.things
  | transitionTask c fresh =>
    obtain ⟨_, _, hchanges, -⟩ := h
    exact .same hchanges.recorded.things
  | completeTask c fresh =>
    obtain ⟨_, _, hcompletes, -⟩ := h
    exact .same hcompletes.recorded.things
  | createBlocker c fresh =>
    obtain ⟨⟨-, -, _, -, hrecorded⟩, -⟩ := h
    exact .same hrecorded.things
  | resolveBlocker c fresh =>
    obtain ⟨_, hresolves, -⟩ := h
    exact .same hresolves.recorded.things
  | setThingContext c fresh =>
    obtain ⟨_, ⟨-, -, ⟨-, hadds⟩ | ⟨_, -, hrevises⟩⟩, -⟩ := h
    · obtain ⟨_, -, hrecorded⟩ := hadds.stored
      exact .same hrecorded.things
    · exact .same hrevises.recorded.things
  | linkToThing c fresh => exact .same h.1.recorded.things
  | addRelation c fresh => exact .same h.1.recorded.things
  | deleteFile c fresh => exact .same h.1.recorded.things
  | createAutomation c stamp =>
    obtain ⟨_, _, -, rfl⟩ := h
    exact .same rfl
  | createMemory c stamp =>
    obtain ⟨-, -, _, _, _, -, -, rfl⟩ := h
    exact .same rfl
  | createThread userId title key activeThingId stamp =>
    obtain ⟨_, _, -, -, -, -, rfl⟩ := h
    exact .same rfl
  | automationThread c stamp =>
    obtain ⟨_, _, -, -, -, -, rfl⟩ := h
    exact .same rfl
  | addSource source =>
    obtain ⟨_, -, rfl⟩ := h
    exact .same rfl
  | upkeep w => exact .same (congrArg (·.things) h)

theorem commit_thingEffect (py : Builtins) (cal : Calendar) (op : Op) (view : ℕ → State)
    (s : State) : ThingEffect cal view op s (commit py cal op view s).1 := by
  rcases commit_cases py cal op view s with hsame | hcommits
  · exact .same (by rw [hsame])
  · exact hcommits.thingEffect

/-! ## Later versions of a Thing -/

/-- A later version of a Thing: it is the same unless the version number went up, and a redirect stays. -/
structure ThingLater (thing thing' : Thing) : Prop where
  userId : thing'.userId = thing.userId
  version : thing.version ≤ thing'.version
  same : thing.version = thing'.version → thing' = thing
  redirect : ∀ canonicalId, thing.mergedIntoThingId = some canonicalId →
    thing'.mergedIntoThingId = some canonicalId

theorem ThingLater.refl (thing : Thing) : ThingLater thing thing :=
  ⟨rfl, le_refl _, fun _ => rfl, fun _ h => h⟩

theorem ThingLater.trans (t₁ t₂ t₃ : Thing) (h : ThingLater t₁ t₂) (h' : ThingLater t₂ t₃) :
    ThingLater t₁ t₃ := by
  refine ⟨h'.userId.trans h.userId, le_trans h.version h'.version, fun hsame => ?_,
    fun canonicalId hredirect => h'.redirect _ (h.redirect _ hredirect)⟩
  have h₁ := h.version
  have h₂ := h'.version
  rw [h'.same (by omega), h.same (by omega)]

/-- Every Thing is still there, in a later version. -/
def ThingsLater (s s' : State) : Prop := Table.Evolves Thing.id ThingLater s.things s'.things

/-- A Thing that is read at the version that it has still is the row. -/
theorem Writes.mem (hwrites : Writes view s thing thing') (hlater : ∀ n, ThingsLater (view n) s) :
    thing ∈ s.things := by
  obtain ⟨n, hread⟩ := hwrites.read
  obtain ⟨r, hr, hp⟩ := Table.exists_of_rowcount_eq_one (by simpa [ThingRepository.update] using
    hwrites.updated)
  simp only [ThingRepository.updateWhere, decide_eq_true_eq, Nat.cast_inj] at hp
  obtain ⟨row, hrow, hid, hrowLater⟩ := hlater n thing hread
  obtain rfl : r = row := Table.eq_of_conflict hr hrow (hp.1.trans (hwrites.id_eq.trans hid.symm))
  rwa [hrowLater.same hp.2.symm] at hr

/-- The Things once a Thing is written. -/
theorem mem_setThing (hmem : thing ∈ s.things) (hid : thing'.id = thing.id)
    (huser : thing'.userId = thing.userId) (hcreated : thing'.createdAt = thing.createdAt)
    {r : Thing} :
    r ∈ (s.setThing thing thing').things ↔ r = thing' ∨ r ∈ s.things ∧ r.id ≠ thing.id := by
  have hkeep : Table.Keeps (ThingRepository.updateWhere thing' thing.version)
      (ThingRepository.updateValues thing') := fun _ _ _ h => h
  have hp : ThingRepository.updateWhere thing' thing.version thing = true := by
    simp [ThingRepository.updateWhere, hid]
  have hvalues : ThingRepository.updateValues thing' thing = thing' := by
    unfold ThingRepository.updateValues
    rw [← hid, ← huser, ← hcreated]
  constructor
  · intro hr
    rcases Table.mem_update_cases hkeep hr with ⟨row, hrow, hprow, rfl⟩ | ⟨hr, hpr⟩
    · simp only [ThingRepository.updateWhere, decide_eq_true_eq] at hprow
      obtain rfl := Table.eq_of_conflict hrow hmem (hprow.1.trans hid)
      exact .inl hvalues
    · refine .inr ⟨hr, fun hsame => ?_⟩
      obtain rfl := Table.eq_of_conflict hr hmem hsame
      rw [hp] at hpr
      cases hpr
  · rintro (rfl | ⟨hr, hother⟩)
    · have hwritten : ThingRepository.updateValues r thing ∈ (s.setThing thing r).things :=
        Table.mem_update_of_pos hmem hp
      rwa [hvalues] at hwritten
    · refine Table.mem_update_of_neg hr ?_
      have hne : r.id ≠ thing'.id := fun h => hother (h.trans hid)
      simp [ThingRepository.updateWhere, hne]

theorem Writes.mem_iff (hwrites : Writes view s thing thing') (hlater : ∀ n, ThingsLater (view n) s)
    {r : Thing} :
    r ∈ (s.setThing thing thing').things ↔ r = thing' ∨ r ∈ s.things ∧ r.id ≠ thing.id :=
  mem_setThing (hwrites.mem hlater) hwrites.id_eq hwrites.userId_eq hwrites.createdAt_eq

/-- A Thing that is written is later, where a redirect that it had stays. -/
theorem Writes.later (hwrites : Writes view s thing thing') (hlater : ∀ n, ThingsLater (view n) s)
    (hredirect : ∀ canonicalId, thing.mergedIntoThingId = some canonicalId →
      thing'.mergedIntoThingId = some canonicalId)
    (h : s'.things = (s.setThing thing thing').things) : ThingsLater s s' := by
  intro r hr
  rw [h]
  by_cases hid : r.id = thing.id
  · obtain rfl := Table.eq_of_conflict hr (hwrites.mem hlater) hid
    refine ⟨thing', (hwrites.mem_iff hlater).mpr (.inl rfl), hwrites.id_eq, hwrites.userId_eq, ?_, ?_,
      hredirect⟩
    · rcases hwrites.version with hsame | hnext
      · rw [hsame]
      · omega
    · intro hversion
      rcases hwrites.version with hsame | hnext
      · exact hsame
      · omega
  · exact ⟨r, (hwrites.mem_iff hlater).mpr (.inr ⟨hr, hid⟩), rfl, .refl r⟩

theorem MergeThings.Merges.things {c : MergeThings} {canonical duplicate : Thing}
    (h : c.Merges fresh view s s' canonical duplicate) :
    s'.things = (s.setThing duplicate (duplicate.merged canonical.id (fresh 0).now)).things := by
  obtain ⟨s₁, hrebound, hs'⟩ := h.rebound
  obtain ⟨-, hthings, -⟩ := rebind_ok hrebound
  rw [hs'.things, State.setThing, h.duplicateVersion]
  exact hthings

theorem ThingEffect.later {op : Op} (h : ThingEffect cal view op s s')
    (hlater : ∀ n, ThingsLater (view n) s) : ThingsLater s s' := by
  cases h with
  | same h =>
    unfold ThingsLater
    rw [h]
    exact Table.Evolves.refl ThingLater.refl _
  | creates h => exact Table.Evolves.insert? ThingLater.refl h
  | revises hwrites hmerged _ h =>
    exact hwrites.later hlater (fun _ hredirect => hmerged.trans hredirect) h
  | deletes h => exact h.writes.later hlater (fun _ hredirect => hredirect) h.recorded.things
  | merges h =>
    refine h.writes.later hlater (fun canonicalId hredirect => ?_) h.things
    rw [h.unmerged] at hredirect
    cases hredirect

/-- The Things of every state are there in every later one. -/
theorem things_stable (py : Builtins) (cal : Calendar) :
    Program.Stable (system py cal) (fun _ _ _ => True) (fun _ => True) ThingsLater where
  init _ _ := trivial
  refl s := Table.Evolves.refl ThingLater.refl s.things
  trans _ _ _ := Table.Evolves.trans ThingLater.trans
  step op view s _ hviews _ :=
    ⟨trivial, (commit_thingEffect py cal op view s).later fun n => (hviews n).2⟩

end PersonalState
