import Laoshiren.PersonalState.ContextRefresh
import Laoshiren.PersonalState.Proofs.DeadlineProofs
import Laoshiren.PersonalState.Proofs.SnapshotProofs
import Laoshiren.PersonalState.Proofs.ViewProofs

/-!
# Proofs: the context of an invocation

Every candidate for attention is there but a deleted Thing with a deadline. Where no such Thing is
deleted, and nothing that a Thread shows or a message cites, the context can be read in every state.
-/

namespace PersonalState

open Raise Runtime

variable {py : Builtins} {cal : Calendar} {fresh : ℕ → Stamp} {view : ℕ → State} {s s' : State}
  {reply : Reply} {op : Op} {thing thing' : Thing} {userId thingId sourceId : UUID} {limit : ℕ}
  {now : Timestamp} {cited : UUID → Prop}

/-! ## Candidates for attention -/

theorem get_isSome {t : Table Thing} :
    (ThingRepository.get userId thingId t).isSome = true ↔
      ∃ thing ∈ t, thing.id = thingId ∧ thing.userId = userId ∧ thing.deletedAt = none := by
  constructor
  · intro h
    obtain ⟨thing, hget⟩ := Option.isSome_iff_exists.mp h
    exact ⟨thing, ThingRepository.get_eq_some hget⟩
  · rintro ⟨thing, hthing, hid, huser, hlive⟩
    have hget := Table.get_of_mem (p := fun r => decide (r.id = thingId ∧ r.userId = userId ∧
      r.deletedAt = none)) hthing (decide_eq_true ⟨hid, huser, hlive⟩)
      fun r hr => (of_decide_eq_true hr).1.trans hid.symm
    exact Option.isSome_iff_exists.mpr ⟨thing, hget⟩

/-- No deleted Thing is due. -/
def State.Quiet (s : State) : Prop := ∀ thing ∈ s.things, thing.deletedAt ≠ none → ¬thing.Due

/-- The subject of every candidate is there where no deleted Thing is due. -/
theorem State.Quiet.subjectExists (hs : s.Quiet) {dueSoonHours : ℤ} {t : Table AttentionFeedback}
    {candidate : AttentionCandidate}
    (h : candidate ∈ AttentionRepository.getCandidates userId now dueSoonHours limit t fun _ => s) :
    subjectExists userId candidate.subjectType candidate.subjectId s = true := by
  rcases mem_getCandidates h with ⟨thing, hthing, huser, hdue, habout⟩ |
    ⟨b, hb, -, ⟨thing, hthing, hid, huser⟩, habout⟩
  · rw [habout.subjectType, habout.subjectId]
    have hlive : thing.deletedAt = none := by
      by_contra hdeleted
      exact hs thing hthing hdeleted hdue
    exact get_isSome.mpr ⟨thing, hthing, rfl, huser, hlive⟩
  · rw [habout.subjectType, habout.subjectId]
    have hget : BlockerRepository.get userId b.id s.things s.blockers = some b := by
      refine Table.get_of_mem hb (decide_eq_true ?_) fun r hr => (of_decide_eq_true hr).1
      exact ⟨rfl, List.any_eq_true.mpr ⟨thing, hthing, decide_eq_true ⟨hid, huser⟩⟩⟩
    exact Option.isSome_iff_exists.mpr ⟨b, hget⟩

variable (now) in
/-- The candidates are marked where their subjects are there. -/
theorem surfaceCandidates_ok (candidates : List AttentionCandidate)
    (h : ∀ candidate ∈ candidates,
      subjectExists userId candidate.subjectType candidate.subjectId s = true)
    (t : Table AttentionFeedback) : ∃ t', surfaceCandidates userId now s candidates t = .ok t' := by
  induction candidates generalizing t with
  | nil => exact ⟨t, rfl⟩
  | cons candidate candidates ih =>
    have hrecorded : recordFeedback userId candidate.subjectType candidate.subjectId .surfaced now none
        s t = .ok (AttentionRepository.recordFeedback userId candidate.subjectType
          candidate.subjectId .surfaced now none t) := by
      unfold recordFeedback
      rw [bind_of_ensure (by rintro ⟨⟩), bind_of_ensure (h candidate (.head _))]
      rfl
    obtain ⟨t', ht'⟩ := ih (fun c hc => h c (.tail _ hc)) (AttentionRepository.recordFeedback userId
      candidate.subjectType candidate.subjectId .surfaced now none t)
    exact ⟨t', by rw [surfaceCandidates, bind_of_ok hrecorded, ht']⟩

/-! ## The prefetch -/

theorem getThing_of_mem (hthing : thing ∈ s.things) (hlive : thing.deletedAt = none) :
    getThing thing.userId thing.id s = .ok thing := by
  refine getThing_eq_ok.mpr ⟨?_, hlive⟩
  exact Table.get_of_mem hthing (decide_eq_true ⟨rfl, rfl⟩) fun r hr => (of_decide_eq_true hr).1

/-- A Thing that a context can show is prefetched. -/
theorem State.Shows.prefetch {matchReason : String} (h : s.Shows userId thingId) :
    ∃ active, buildThingPrefetch cal userId thingId matchReason s = .ok active := by
  obtain ⟨thing, hthing, rfl, rfl, hlive, hcanonical⟩ := h
  have hget := getThing_of_mem hthing hlive
  cases hmerged : thing.mergedIntoThingId with
  | none =>
    exact ⟨_, buildThingPrefetch_ok cal matchReason hget (by rw [hmerged]; exact hget)⟩
  | some canonicalId =>
    obtain ⟨canonical, hmem, rfl, huser, hlive'⟩ := hcanonical canonicalId hmerged
    have hget' := getThing_of_mem hmem hlive'
    rw [huser] at hget'
    exact ⟨_, buildThingPrefetch_ok cal matchReason hget (by rw [hmerged]; exact hget')⟩

variable (cal) in
/-- A prefetch fails only at the active Thing of the Thread. -/
theorem getAgentThingPrefetch_ok (ilike : String → String → Bool) {activeThingId : Option UUID}
    (query : String) (h : ∀ id ∈ activeThingId, s.Shows userId id) :
    ∃ active, getAgentThingPrefetch cal ilike userId activeThingId query s = .ok active := by
  cases hactive : activeThingId with
  | some thingId => exact (h thingId hactive).prefetch
  | none =>
    unfold getAgentThingPrefetch
    dsimp only
    split
    · exact ⟨_, rfl⟩
    split
    · exact ⟨_, rfl⟩
    · next candidate hfound =>
      -- a query lists Things that are neither deleted nor merged
      obtain ⟨hmem, hp⟩ := Table.mem_select.mp (mem_of_sorted (a := candidate) (by
        unfold ThingRepository.listForUser at hfound
        rw [hfound]
        exact .head _))
      simp only [decide_eq_true_eq] at hp
      obtain ⟨huser, -, hmerged, hlive, -⟩ := hp
      refine State.Shows.prefetch ⟨candidate, hmem, rfl, huser, hlive, ?_⟩
      rw [hmerged]
      rintro _ ⟨⟩
    · exact ⟨_, rfl⟩

/-! ## The Sources of a message -/

/-- The Sources of a message are read where every one is found. -/
theorem loadSources_ok (texts : SourceTexts) {sourceRefs : List UUID}
    (h : ∀ sourceId ∈ sourceRefs,
      (SourceRepository.get userId sourceId s.sources).isSome = true) (remaining : ℕ) :
    ∃ taken, loadSources texts userId s remaining sourceRefs = .ok taken := by
  induction sourceRefs generalizing remaining with
  | nil => exact ⟨[], rfl⟩
  | cons sourceId sourceRefs ih =>
    unfold loadSources
    split
    · exact ⟨[], rfl⟩
    · obtain ⟨source, hget⟩ := Option.isSome_iff_exists.mp (h sourceId (.head _))
      have hfound : getSource userId sourceId s = .ok source := by
        unfold getSource
        rw [hget]
        rfl
      rw [bind_of_ok hfound]
      obtain ⟨rest, hrest⟩ := ih (fun id hid => h id (.tail _ hid))
        (takePassages source.id remaining (texts.passages source.id remaining)).2
      exact ⟨_, bind_of_ok hrest _⟩

/-! ## The context -/

/-- The context can be read of a Thread that shows a Thing which is there, where the Sources of the message
are found and no deleted Thing is due. -/
theorem refreshContext_ok {ilike : String → String → Bool} {texts : SourceTexts} {inv : Invocation}
    {feedback : Table AttentionFeedback} {thread : Thread} (hquiet : s.Quiet)
    (hthread : getThread inv.userId inv.threadId s = .ok thread)
    (hshown : ∀ id ∈ thread.activeThingId, s.Shows inv.userId id)
    (hsources : ∀ sourceId ∈ inv.sourceRefs,
      (SourceRepository.get inv.userId sourceId s.sources).isSome = true) :
    ∃ context, refreshContext cal ilike texts now inv feedback s = .ok context := by
  obtain ⟨active, hactive⟩ := getAgentThingPrefetch_ok cal ilike inv.currentInput hshown
  obtain ⟨sourceContext, hcontext⟩ := loadSources_ok texts hsources 12000
  obtain ⟨feedback', hfeedback⟩ := surfaceCandidates_ok now
    ((AttentionRepository.getCandidates inv.userId now 72 5 feedback fun _ => s).take 3)
    (fun candidate hc => hquiet.subjectExists (List.mem_of_mem_take hc)) feedback
  unfold refreshContext
  rw [bind_of_ok hthread, bind_of_ok hactive, bind_of_ok hcontext]
  dsimp only
  rw [bind_of_ok hfeedback]
  exact ⟨_, rfl⟩

/-! ## What a transaction makes of the Things -/

/-- A Thing as a context shows it stays. -/
def Thing.Lasts (thing thing' : Thing) : Prop :=
  thing'.id = thing.id ∧ thing'.userId = thing.userId ∧
    thing'.mergedIntoThingId = thing.mergedIntoThingId ∧ thing'.deletedAt = thing.deletedAt

/-- A Thing is shown where it and the Thing that it is merged into last. -/
theorem State.Shows.of_lasts (h : s.Shows userId thingId)
    (hlasts : ∀ thing ∈ s.things, thing.id = thingId ∨ s.redirect thingId = some thing.id →
      ∃ thing' ∈ s'.things, thing.Lasts thing') : s'.Shows userId thingId := by
  obtain ⟨thing, hthing, hid, huser, hlive, hcanonical⟩ := h
  obtain ⟨thing', hthing', hid', huser', hmerged', hlive'⟩ := hlasts thing hthing (.inl hid)
  refine ⟨thing', hthing', hid'.trans hid, huser'.trans huser, hlive'.trans hlive,
    fun canonicalId hcanonicalId => ?_⟩
  rw [hmerged'] at hcanonicalId
  obtain ⟨canonical, hmem, rfl, hcanonicalUser, hcanonicalLive⟩ := hcanonical _ hcanonicalId
  obtain ⟨canonical', hmem', hid₂, huser₂, -, hlive₂⟩ :=
    hlasts canonical hmem (.inr (redirect_eq_some.mpr ⟨thing, hthing, hid, hcanonicalId⟩))
  exact ⟨canonical', hmem', hid₂, huser₂.trans hcanonicalUser, hlive₂.trans hcanonicalLive⟩

/-- A Thing that is written without being merged or deleted lasts, and so does every other. -/
theorem Writes.lasts (hwrites : Writes view s thing thing') (hlater : ∀ n, ThingsLater (view n) s)
    (hmerged : thing'.mergedIntoThingId = thing.mergedIntoThingId)
    (hdeleted : thing'.deletedAt = thing.deletedAt)
    (h : s'.things = (s.setThing thing thing').things) :
    ∀ r ∈ s.things, ∃ r' ∈ s'.things, r.Lasts r' := by
  intro r hr
  rw [h]
  by_cases hid : r.id = thing.id
  · obtain rfl := Table.eq_of_conflict hr (hwrites.mem hlater) hid
    exact ⟨thing', (hwrites.mem_iff hlater).mpr (.inl rfl), hwrites.id_eq, hwrites.userId_eq,
      hmerged, hdeleted⟩
  · exact ⟨r, (hwrites.mem_iff hlater).mpr (.inr ⟨hr, hid⟩), rfl, rfl, rfl, rfl⟩

/-- The other Things last where a Thing is deleted. -/
theorem DeleteThing.Deletes.lasts {c : DeleteThing} (h : c.Deletes cal fresh view s s' thing)
    (hlater : ∀ n, ThingsLater (view n) s) :
    ∀ r ∈ s.things, r.id ≠ thing.id → ∃ r' ∈ s'.things, r.Lasts r' := by
  intro r hr hother
  rw [h.recorded.things]
  exact ⟨r, (h.writes.mem_iff hlater).mpr (.inr ⟨hr, hother⟩), rfl, rfl, rfl, rfl⟩

/-- A merge shows what was shown, and the duplicate where the canonical Thing was shown. -/
theorem MergeThings.Merges.shows {c : MergeThings} {canonical duplicate : Thing}
    (h : c.Merges fresh view s s' canonical duplicate) (hlater : ∀ n, ThingsLater (view n) s)
    (hcanonical : thingId = duplicate.id → s.Shows c.userId canonical.id)
    (hshows : s.Shows userId thingId) : s'.Shows userId thingId := by
  obtain ⟨-, hcanonicalId, -⟩ := ThingRepository.get_eq_some h.canonicalFound
  obtain ⟨-, hduplicateId, hduplicateUser, hlive⟩ := ThingRepository.get_eq_some h.duplicateFound
  have hmem : ∀ r, r ∈ s'.things ↔ r = duplicate.merged canonical.id (fresh 0).now ∨
      r ∈ s.things ∧ r.id ≠ duplicate.id := by
    intro r
    rw [h.things]
    exact h.writes.mem_iff hlater
  have hduplicate := h.writes.mem hlater
  -- every live Thing of a user is a live Thing of the user still
  have hlasts : ∀ r ∈ s.things, r.deletedAt = none →
      ∃ r' ∈ s'.things, r'.id = r.id ∧ r'.userId = r.userId ∧ r'.deletedAt = none := by
    intro r hr hrlive
    by_cases hid : r.id = duplicate.id
    · obtain rfl := Table.eq_of_conflict hr hduplicate hid
      exact ⟨_, (hmem _).mpr (.inl rfl), rfl, rfl, hlive⟩
    · exact ⟨r, (hmem r).mpr (.inr ⟨hr, hid⟩), rfl, rfl, hrlive⟩
  obtain ⟨r, hr, rfl, rfl, hrlive, hto⟩ := hshows
  by_cases hid : r.id = duplicate.id
  · obtain rfl := Table.eq_of_conflict hr hduplicate hid
    obtain ⟨target, htarget, htargetId, htargetUser, htargetLive, -⟩ := hcanonical rfl
    refine ⟨_, (hmem _).mpr (.inl rfl), rfl, rfl, hlive, ?_⟩
    rintro _ ⟨rfl⟩
    obtain ⟨target', htarget', hid', huser', hlive'⟩ := hlasts target htarget htargetLive
    exact ⟨target', htarget', hid'.trans htargetId,
      huser'.trans (htargetUser.trans hduplicateUser.symm), hlive'⟩
  · refine ⟨r, (hmem r).mpr (.inr ⟨hr, hid⟩), rfl, rfl, hrlive, fun targetId htargetId => ?_⟩
    obtain ⟨target, htarget, rfl, htargetUser, htargetLive⟩ := hto targetId htargetId
    obtain ⟨target', htarget', hid', huser', hlive'⟩ := hlasts target htarget htargetLive
    exact ⟨target', htarget', hid', huser'.trans htargetUser, hlive'⟩

/-- A transaction that spares the context deletes no Thing that is due. -/
theorem Op.Commits.quiet (h : op.Commits cal view s s' reply)
    (hlater : ∀ n, ThingsLater (view n) s) (hspares : op.SparesContext cited s) (hs : s.Quiet) :
    s'.Quiet := by
  have hspares := hspares h.isNew
  intro r hr hdeleted
  cases h.thingEffect with
  | same hthings =>
    rw [hthings] at hr
    exact hs r hr hdeleted
  | creates hthings =>
    rcases (Table.mem_insert? hthings).mp hr with hold | rfl
    · exact hs r hold hdeleted
    · exact absurd rfl hdeleted
  | revises hwrites _ hlive hthings =>
    rw [hthings] at hr
    rcases (hwrites.mem_iff hlater).mp hr with rfl | ⟨hold, -⟩
    · exact absurd hlive.2 hdeleted
    · exact hs r hold hdeleted
  | @deletes c fresh _ _ thing hdeletes =>
    rw [hdeletes.recorded.things] at hr
    rcases (hdeletes.writes.mem_iff hlater).mp hr with rfl | ⟨hold, -⟩
    · obtain ⟨-, hp⟩ := Table.get_eq_some hdeletes.found
      obtain ⟨hid, huser⟩ := of_decide_eq_true hp
      exact (hspares thing ⟨hdeletes.writes.mem hlater, hid, huser, hdeletes.live,
        hdeletes.expected⟩ hdeletes.unmerged).1
    · exact hs r hold hdeleted
  | @merges c fresh _ _ canonical duplicate hmerges =>
    rw [hmerges.things] at hr
    rcases (hmerges.writes.mem_iff hlater).mp hr with rfl | ⟨hold, -⟩
    · obtain ⟨-, -, -, hlive⟩ := ThingRepository.get_eq_some hmerges.duplicateFound
      exact absurd hlive hdeleted
    · exact hs r hold hdeleted

/-- A transaction that spares the context leaves there what a Thread shows. -/
theorem Op.Commits.shows (h : op.Commits cal view s s' reply)
    (hlater : ∀ n, ThingsLater (view n) s) (hspares : op.SparesContext cited s) {thread : Thread}
    (hthread : thread ∈ s.threads) (hactive : thread.activeThingId = some thingId)
    (hshows : s.Shows thread.userId thingId) : s'.Shows thread.userId thingId := by
  have hspares := hspares h.isNew
  cases h.thingEffect with
  | same hthings =>
    refine hshows.of_lasts fun r hr _ => ⟨r, ?_, rfl, rfl, rfl, rfl⟩
    rwa [hthings]
  | creates hthings =>
    exact hshows.of_lasts fun r hr _ =>
      ⟨r, (Table.mem_insert? hthings).mpr (.inl hr), rfl, rfl, rfl, rfl⟩
  | revises hwrites hmerged hlive hthings =>
    exact hshows.of_lasts fun r hr _ =>
      hwrites.lasts hlater hmerged (hlive.2.trans hlive.1.symm) hthings r hr
  | @deletes c fresh _ _ thing hdeletes =>
    obtain ⟨-, hp⟩ := Table.get_eq_some hdeletes.found
    obtain ⟨hid, huser⟩ := of_decide_eq_true hp
    obtain ⟨hnot, hnotTarget⟩ := (hspares thing ⟨hdeletes.writes.mem hlater, hid, huser,
      hdeletes.live, hdeletes.expected⟩ hdeletes.unmerged).2 thread hthread thingId hactive
    refine hshows.of_lasts fun r hr hwhich => hdeletes.lasts hlater r hr ?_
    rintro hsame
    rcases hwhich with hthing | htarget
    · exact hnot (hthing.symm.trans hsame)
    · exact hnotTarget (htarget.trans (congrArg some hsame))
  | @merges c fresh _ _ canonical duplicate hmerges =>
    obtain ⟨-, hcanonical, -⟩ := ThingRepository.get_eq_some hmerges.canonicalFound
    obtain ⟨-, hduplicate, -⟩ := ThingRepository.get_eq_some hmerges.duplicateFound
    refine hmerges.shows hlater (fun hsame => ?_) hshows
    rw [hcanonical]
    exact hspares ⟨thread, hthread, by rw [hactive, hsame, hduplicate]⟩

/-! ## What a transaction makes of the Threads and the Sources -/

/-- The Threads after a merge. -/
theorem MergeThings.Merges.threads {c : MergeThings} {canonical duplicate : Thing}
    (h : c.Merges fresh view s s' canonical duplicate) {thread' : Thread}
    (hthread' : thread' ∈ s'.threads) :
    thread' ∈ s.threads ∨ ∃ thread ∈ s.threads, thread.activeThingId = some duplicate.id ∧
      thread' = { thread with activeThingId := some canonical.id } := by
  obtain ⟨s₁, hrebound, hrecorded⟩ := h.rebound
  simp only [rebindMergedReferences, bind_eq_ok, orRaise_eq_ok, pure_eq_ok] at hrebound
  obtain ⟨dates, -, rfl⟩ := hrebound
  rw [congrArg (·.threads) hrecorded.same] at hthread'
  have hkeep : Table.Keeps (Table.foundIn Thread.id (view 10).threads fun r =>
      decide (r.activeThingId = some duplicate.id))
      (fun r => { r with activeThingId := some canonical.id }) := fun _ _ _ h => h
  rcases Table.mem_update_cases hkeep hthread' with ⟨thread, hthread, hfound, rfl⟩ | ⟨hold, -⟩
  · exact .inr ⟨thread, hthread, of_decide_eq_true (Table.foundIn_iff.mp hfound).1, rfl⟩
  · exact .inl hold

theorem MergeThings.Merges.sources {c : MergeThings} {canonical duplicate : Thing}
    (h : c.Merges fresh view s s' canonical duplicate) : s'.sources = s.sources := by
  obtain ⟨s₁, hrebound, hrecorded⟩ := h.rebound
  simp only [rebindMergedReferences, bind_eq_ok, orRaise_eq_ok, pure_eq_ok] at hrebound
  obtain ⟨dates, -, rfl⟩ := hrebound
  exact congrArg (·.sources) hrecorded.same

/-- Every Thread shows a Thing that is there. -/
def State.Shown (s : State) : Prop :=
  ∀ thread ∈ s.threads, ∀ thingId ∈ thread.activeThingId, s.Shows thread.userId thingId

/-- A transaction that spares the context leaves every Thread with a Thing that is there. -/
theorem Op.Commits.shown (h : op.Commits cal view s s' reply)
    (hlater : ∀ n, ThingsLater (view n) s) (hspares : op.SparesContext cited s) (hs : s.Shown) :
    s'.Shown := by
  -- a Thread that was there, or that shows what one did
  have hkept : ∀ thread ∈ s.threads, ∀ thingId ∈ thread.activeThingId,
      s'.Shows thread.userId thingId := fun thread hthread thingId hactive =>
    h.shows hlater hspares hthread hactive (hs thread hthread thingId hactive)
  have hnew := hspares h.isNew
  intro thread' hthread' thingId hactive
  rcases h.aside with htouches | hsame
  · cases op with
    | mergeThings c fresh =>
      obtain ⟨canonical, duplicate, hmerges, -⟩ := h
      rcases hmerges.threads hthread' with hold | ⟨thread, hthread, hduplicate, rfl⟩
      · exact hkept thread' hold thingId hactive
      · obtain ⟨-, hcanonicalId, -⟩ := ThingRepository.get_eq_some hmerges.canonicalFound
        obtain ⟨-, hduplicateId, hduplicateUser, -⟩ :=
          ThingRepository.get_eq_some hmerges.duplicateFound
        obtain rfl : canonical.id = thingId := Option.some.inj hactive
        have hcanonical : s.Shows c.userId canonical.id := by
          rw [hcanonicalId]
          exact hnew ⟨thread, hthread, hduplicate.trans (congrArg some hduplicateId)⟩
        obtain ⟨r, hr, hid, huser, -⟩ := hs thread hthread duplicate.id hduplicate
        obtain rfl := Table.eq_of_conflict hr (hmerges.writes.mem hlater) hid
        have hshows := hmerges.shows hlater (fun _ => hcanonical) hcanonical
        rwa [← hduplicateUser, huser] at hshows
    | createThread userId title key activeThingId stamp =>
      obtain ⟨thread, threads, huser, -, hthing, hthreads, rfl⟩ := h
      rcases (Table.mem_insert? hthreads).mp hthread' with hold | rfl
      · exact hkept thread' hold thingId hactive
      · rw [huser]
        exact hnew thingId (hthing.symm.trans hactive)
    | automationThread c stamp =>
      obtain ⟨thread, threads, huser, -, hthing, hthreads, rfl⟩ := h
      rcases (Table.mem_insert? hthreads).mp hthread' with hold | rfl
      · exact hkept thread' hold thingId hactive
      · rw [huser]
        exact hnew thingId (hthing.symm.trans hactive)
    | upkeep w =>
      have heq : s' = w.apply s := h
      rw [heq] at hthread'
      obtain ⟨thread, hthread, rfl⟩ := List.mem_map.mp hthread'
      rw [Table.updateRow_pos rfl] at hactive ⊢
      obtain ⟨huser, hthing⟩ := Prod.mk.inj (w.threads.owner_eq thread)
      rw [hthing] at hactive
      rw [huser]
      exact hkept thread hthread thingId hactive
    | deleteFile c fresh =>
      rw [congrArg (·.threads) h.1.recorded.same] at hthread'
      exact hkept thread' hthread' thingId hactive
    | deleteThing c fresh =>
      obtain ⟨_, hdeletes, -⟩ := h
      rw [congrArg (·.threads) hdeletes.recorded.same] at hthread'
      exact hkept thread' hthread' thingId hactive
    | addRelation c fresh =>
      rw [congrArg (·.threads) h.1.recorded.same] at hthread'
      exact hkept thread' hthread' thingId hactive
    | createAutomation c stamp =>
      obtain ⟨_, _, -, rfl⟩ := h
      exact hkept thread' hthread' thingId hactive
    | createMemory c stamp =>
      obtain ⟨-, -, _, _, _, -, -, rfl⟩ := h
      exact hkept thread' hthread' thingId hactive
    | addSource source =>
      obtain ⟨_, -, rfl⟩ := h
      exact hkept thread' hthread' thingId hactive
    | _ => exact htouches.elim
  · rw [hsame.threads] at hthread'
    exact hkept thread' hthread' thingId hactive

/-! ## Sources that are cited -/

theorem getSource_isSome {t : Table Source} :
    (SourceRepository.get userId sourceId t).isSome = true ↔
      ∃ r ∈ t, r.id = sourceId ∧ r.userId = userId ∧ r.deletedAt = none := by
  constructor
  · intro h
    obtain ⟨r, hget⟩ := Option.isSome_iff_exists.mp h
    obtain ⟨hmem, hp⟩ := Table.get_eq_some hget
    exact ⟨r, hmem, of_decide_eq_true hp⟩
  · rintro ⟨r, hr, hid, huser, hlive⟩
    have hget := Table.get_of_mem (p := fun r => decide (r.id = sourceId ∧ r.userId = userId ∧
      r.deletedAt = none)) hr (decide_eq_true ⟨hid, huser, hlive⟩)
      fun r' hr' => (of_decide_eq_true hr').1.trans hid.symm
    exact Option.isSome_iff_exists.mpr ⟨r, hget⟩

/-- The Sources that are cited are found in the later state if they were in the earlier one. -/
def CitedKept (cited : UUID → Prop) (s s' : State) : Prop :=
  ∀ userId sourceId, cited sourceId →
    (SourceRepository.get userId sourceId s.sources).isSome = true →
    (SourceRepository.get userId sourceId s'.sources).isSome = true

/-- A transaction that spares the context keeps the Sources that are cited. -/
theorem Op.Commits.citedKept (h : op.Commits cal view s s' reply) (hspares : op.SparesContext cited s) :
    CitedKept cited s s' := by
  have hnew := hspares h.isNew
  intro userId sourceId hcited hfound
  rcases h.aside with htouches | hsame
  · cases op with
    | mergeThings c fresh =>
      obtain ⟨_, _, hmerges, -⟩ := h
      rwa [hmerges.sources]
    | createThread userId title key activeThingId stamp =>
      obtain ⟨_, _, -, -, -, -, rfl⟩ := h
      exact hfound
    | automationThread c stamp =>
      obtain ⟨_, _, -, -, -, -, rfl⟩ := h
      exact hfound
    | upkeep w =>
      have heq : s' = w.apply s := h
      rwa [heq]
    | deleteFile c fresh =>
      obtain ⟨r, hr, hid, huser, hlive⟩ := getSource_isSome.mp hfound
      have hother : r.id ≠ c.sourceId := fun hsame => hnew (by rwa [← hsame, hid])
      have hstays : r ∈ SourceRepository.markDeleted c.sourceId (fresh 0).now s.sources := by
        unfold SourceRepository.markDeleted
        exact Table.mem_update_of_neg hr (decide_eq_false hother)
      rw [congrArg (·.sources) h.1.recorded.same]
      exact getSource_isSome.mpr ⟨r, hstays, hid, huser, hlive⟩
    | deleteThing c fresh =>
      obtain ⟨_, hdeletes, -⟩ := h
      rwa [congrArg (·.sources) hdeletes.recorded.same]
    | addRelation c fresh => rwa [congrArg (·.sources) h.1.recorded.same]
    | createAutomation c stamp =>
      obtain ⟨_, _, -, rfl⟩ := h
      exact hfound
    | createMemory c stamp =>
      obtain ⟨-, -, _, _, _, -, -, rfl⟩ := h
      exact hfound
    | addSource source =>
      obtain ⟨_, hsources, rfl⟩ := h
      obtain ⟨r, hr, hof⟩ := getSource_isSome.mp hfound
      exact getSource_isSome.mpr ⟨r, (Table.mem_insert? hsources).mpr (.inl hr), hof⟩
    | _ => exact htouches.elim
  · rwa [hsame.sources]

/-! ## Every run -/

/-- In every history whose transactions spare the context, the Sources that are cited stay. -/
theorem cited_stable (py : Builtins) (cal : Calendar) (cited : UUID → Prop) :
    Program.Stable (system py cal) (fun op _ s => op.SparesContext cited s) (fun _ => True)
      (CitedKept cited) where
  init _ _ := trivial
  refl s := fun _ _ _ hfound => hfound
  trans _ _ _ h h' := fun userId sourceId hcited hfound =>
    h' userId sourceId hcited (h userId sourceId hcited hfound)
  step op view s _ _ hspares := by
    refine ⟨trivial, ?_⟩
    rcases commit_cases py cal op view s with hsame | hcommits
    · show CitedKept cited s (commit py cal op view s).1
      rw [hsame]
      exact fun _ _ _ hfound => hfound
    · exact hcommits.citedKept hspares

/-- In every history whose transactions spare the context, the context of every invocation can be read: for
a Thread that is there and a message whose Sources are cited and were found in some state. -/
theorem context_refreshes (py : Builtins) (cal : Calendar) {cited : UUID → Prop}
    {h : History State Op Reply}
    (hr : (system py cal).ReachableIf (fun op _ s => op.SparesContext cited s) h)
    (ilike : String → String → Bool) (texts : SourceTexts) (now : Timestamp)
    (feedback : Table AttentionFeedback) (inv : Invocation)
    (hthread : ∃ thread ∈ h.cur.threads, thread.id = inv.threadId ∧ thread.userId = inv.userId)
    (hsources : ∀ sourceId ∈ inv.sourceRefs, cited sourceId ∧
      ∃ s ∈ h.states, (SourceRepository.get inv.userId sourceId s.sources).isSome = true) :
    ∃ context, refreshContext cal ilike texts now inv feedback h.cur = .ok context := by
  have hstable := ((things_stable py cal).restrict
    (p := fun op _ s => op.SparesContext cited s) fun _ _ _ _ => trivial).strengthen
    (fun s => s.Quiet ∧ s.Shown)
    (fun s hs => by
      obtain rfl : s = {} := hs
      exact ⟨List.forall_mem_nil _, List.forall_mem_nil _⟩)
    (fun op view s _ hlaw hviews hspares => by
      rcases commit_cases py cal op view s with hsame | hcommits
      · have hlaw' : (commit py cal op view s).1.Quiet ∧ (commit py cal op view s).1.Shown := by
          rwa [hsame]
        exact hlaw'
      · have hlater := fun n => (hviews n).2.2
        exact ⟨hcommits.quiet hlater hspares hlaw.1, hcommits.shown hlater hspares hlaw.2⟩)
  obtain ⟨hquiet, hshown⟩ := (hstable.inv_cur hr).2
  obtain ⟨thread, hmem, hid, huser⟩ := hthread
  have hfound : getThread inv.userId inv.threadId h.cur = .ok thread := by
    unfold getThread
    rw [Table.get_of_mem hmem (decide_eq_true ⟨hid, huser⟩) fun r hr =>
      .inl ((of_decide_eq_true hr).1.trans hid.symm)]
    rfl
  refine refreshContext_ok hquiet hfound (fun thingId hactive => ?_) fun sourceId hsourceId => ?_
  · rw [← huser]
    exact hshown thread hmem thingId hactive
  · obtain ⟨hcited, s, hs, hsome⟩ := hsources sourceId hsourceId
    exact (cited_stable py cal cited).rel_mem hr hs inv.userId sourceId hcited hsome

/-! ## A Thing that is deleted before its deadline -/

/-- User 1 creates Thing 10 with a deadline and Thing 20 without, starts Thread 40 and deletes a
Thing. -/
def deletes (c : DeleteThing) : List Op :=
  createMoves ++ [.setDeadline (setPrimary .deadline 1 "deadline") (stampsFrom 30 0),
    .createThread 1 "Chat" "chat" none ⟨40, 0⟩, .deleteThing c (stampsFrom 50 0)]

/-- The user says something in Thread 40. -/
def greeting : Invocation := ⟨1, 40, "Hello", []⟩

def noTexts : SourceTexts := ⟨fun _ _ => [], fun _ => none⟩

/-- Thing 20 is deleted, which is never due. -/
theorem context_refreshes_greeting : ∃ context,
    refreshContext noDates (fun _ _ => false) noTexts 0 greeting .empty
      ((system noRepr noDates).serial {} (deletes (discard 1))).cur = .ok context := by
  have hmeets : (system noRepr noDates).SerialMeets
      (fun op _ s => op.SparesContext (fun _ => True) s) ⟨{}, [], []⟩ (deletes (discard 1)) := by
    refine ⟨fun _ => trivial, fun _ => trivial, fun _ => trivial, ?_, ?_, trivial⟩
    · rintro - id ⟨⟩
    · rintro - thing hfinds -
      have hundated : ∀ r ∈ ((system noRepr noDates).serial {} (createMoves ++
          [.setDeadline (setPrimary .deadline 1 "deadline") (stampsFrom 30 0),
            .createThread 1 "Chat" "chat" none ⟨40, 0⟩])).cur.things, r.id = 20 →
              r.deadlineAt = none := by decide +kernel
      have hidle : ∀ r ∈ ((system noRepr noDates).serial {} (createMoves ++
          [.setDeadline (setPrimary .deadline 1 "deadline") (stampsFrom 30 0),
            .createThread 1 "Chat" "chat" none ⟨40, 0⟩])).cur.threads,
              r.activeThingId = none := by decide +kernel
      refine ⟨fun hdue => hdue.2 (hundated thing hfinds.mem hfinds.id_eq), ?_⟩
      intro thread hthread thingId hactive
      rw [hidle thread hthread] at hactive
      cases hactive
  have hr := (system noRepr noDates).serial_reachableIf rfl _ hmeets
  exact context_refreshes noRepr noDates hr _ noTexts 0 .empty greeting
    (by decide +kernel) (by rintro _ ⟨⟩)

/-- Thing 10 is deleted before its deadline. -/
def discardDue : DeleteThing := ⟨1, 10, 2, "action", "discard", "said so", none⟩

/-- Once a Thing is deleted before its deadline, no context can be read: the deleted Thing is a candidate
for attention still, and is not found where it is marked. -/
theorem context_poisoned :
    (system noRepr noDates).Reachable ((system noRepr noDates).serial {} (deletes discardDue)) ∧
      (∃ thread ∈ ((system noRepr noDates).serial {} (deletes discardDue)).cur.threads,
        thread.id = greeting.threadId ∧ thread.userId = greeting.userId) ∧
      ∀ context, refreshContext noDates (fun _ _ => false) noTexts 0 greeting .empty
        ((system noRepr noDates).serial {} (deletes discardDue)).cur ≠ .ok context := by
  have hfails : (refreshContext noDates (fun _ _ => false) noTexts 0 greeting .empty
      ((system noRepr noDates).serial {} (deletes discardDue)).cur).isOk = false := by
    decide +kernel
  refine ⟨(system noRepr noDates).serial_reachable rfl _, by decide +kernel, ?_⟩
  intro context hok
  rw [hok] at hfails
  cases hfails

end PersonalState
