import Laoshiren.Runtime.Proofs.JobProofs
import Laoshiren.Sources.Proofs.WriteProofs

/-!
# Proofs: Files and the jobs that purge them

Every Source has a File, which is deleted with it, and a File that is deleted has a job that purges it.
-/

namespace Sources

open Runtime Raise Table
open PersonalState (Calendar DeleteFile)

variable {cal : Calendar} {settings : Settings} {op : Op} {view : ℕ → World} {w : World}
  {s : State} {r r' : Source} {f f' : File} {j j' : DurableJob} {reply : Reply}

/-! ## Files -/

/-- The File of a Source. -/
structure Mirror (r : Source) (f : File) : Prop where
  id : f.id = r.id
  owner : f.ownerUserId = r.userId
  storageKey : f.storageKey = r.objectKey
  deleted : f.deletedAt.isSome = r.deletedAt.isSome

/-- Sources and Files are the same. -/
structure Mirrors (sources : Table Source) (files : Table File) : Prop where
  file : ∀ r ∈ sources, ∃ f ∈ files, Mirror r f
  source : ∀ f ∈ files, ∃ r ∈ sources, Mirror r f

/-- The row of a File by its id. -/
theorem file_eq {t : Table File} (hf : f ∈ t) (hf' : f' ∈ t) (h : f.id = f'.id) : f = f' :=
  eq_of_conflict hf hf' (.inl h)

theorem mirror_fileFromSource (r : Source) : Mirror r (fileFromSource r) := ⟨rfl, rfl, rfl, rfl⟩

/-- A File that is mirrored already is not added again. -/
theorem Mirrors.eq_of_mirrored {sources : Table Source} {files files' : Table File}
    (h : Mirrors sources files) (hr : r ∈ sources) (hid : r'.id = r.id)
    (hmirrored : Mirrored r' files files') : files' = files := by
  rcases hmirrored with hinsert | ⟨hsame, -⟩
  · obtain ⟨f, hf, hmirror⟩ := h.file r hr
    exact absurd (.inl (hmirror.id.trans hid.symm)) (not_conflict_of_insert? hinsert hf)
  · exact hsame

/-- What a step that neither uploads nor deletes keeps of a Source. -/
structure SameSource (r r' : Source) : Prop where
  id : r'.id = r.id
  userId : r'.userId = r.userId
  objectKey : r'.objectKey = r.objectKey
  deletedAt : r'.deletedAt = r.deletedAt

/-- What a step that neither uploads nor deletes keeps of a File. -/
structure SameFile (f f' : File) : Prop where
  id : f'.id = f.id
  owner : f'.ownerUserId = f.ownerUserId
  storageKey : f'.storageKey = f.storageKey
  deletedAt : f'.deletedAt = f.deletedAt

theorem Mirror.same (h : Mirror r f) (hr : SameSource r r') (hf : SameFile f f') :
    Mirror r' f' where
  id := (hf.id.trans h.id).trans hr.id.symm
  owner := (hf.owner.trans h.owner).trans hr.userId.symm
  storageKey := (hf.storageKey.trans h.storageKey).trans hr.objectKey.symm
  deleted := by rw [hf.deletedAt, hr.deletedAt, h.deleted]

theorem Mirrors.same {sources sources' : Table Source} {files files' : Table File}
    (h : Mirrors sources files) (hsources : sources.Moves SameSource sources')
    (hfiles : files.Moves SameFile files') : Mirrors sources' files' where
  file r' hr' := by
    obtain ⟨r, hr, hsame⟩ := hsources.mem hr'
    obtain ⟨f, hf, hmirror⟩ := h.file r hr
    obtain ⟨f', hf', hsame'⟩ := hfiles.exists_mem hf
    exact ⟨f', hf', hmirror.same hsame hsame'⟩
  source f' hf' := by
    obtain ⟨f, hf, hsame'⟩ := hfiles.mem hf'
    obtain ⟨r, hr, hmirror⟩ := h.source f hf
    obtain ⟨r', hr', hsame⟩ := hsources.exists_mem hr
    exact ⟨r', hr', hmirror.same hsame hsame'⟩

theorem moves_sameFile (t : Table File) : t.Moves SameFile t :=
  .refl (fun _ => ⟨rfl, rfl, rfl, rfl⟩) t

/-! ## Deleting -/

/-- What a deletion makes of a Source. -/
structure DeleteMove (c : DeleteFile) (now : Timestamp) (r r' : Source) : Prop where
  id : r'.id = r.id
  userId : r'.userId = r.userId
  objectKey : r'.objectKey = r.objectKey
  deletedAt : r'.deletedAt = if r.id = c.sourceId then some now else r.deletedAt

theorem Deletes.moves {c : DeleteFile} {fresh : ℕ → Stamp} {states : ℕ → State} {s₀ : State}
    (h : Deletes c fresh states s₀ s) :
    s₀.sources.Moves (DeleteMove c (fresh 0).now) s.sources := by
  obtain ⟨loaded, hloaded, hsources⟩ := h.loaded
  have hlive : loaded.deletedAt = none := (of_decide_eq_true (get_eq_some hloaded).2).2.2
  refine ⟨_, congrArg Table.rows hsources, fun r _ => ?_⟩
  by_cases hid : r.id = c.sourceId
  · rw [updateRow_pos (p := fun r : Source => decide (r.id = c.sourceId)) (decide_eq_true hid)]
    refine ⟨rfl, rfl, rfl, ?_⟩
    rw [if_pos hid]
    simp only [SourceRepository.deletedValues, SourceRepository.flushed, hlive]
    exact if_neg (Option.some_ne_none _)
  · rw [updateRow_neg (p := fun r : Source => decide (r.id = c.sourceId)) (decide_eq_false hid)]
    exact ⟨rfl, rfl, rfl, (if_neg hid).symm⟩

/-- The Source that a deletion deletes is one of its user, and the job to purge its File is there. -/
theorem Deletes.row {c : DeleteFile} {fresh : ℕ → Stamp}
    (h : Deletes c fresh (fun n => (view n).toState) w.toState s)
    (hlater : ∀ n, SourcesLater (view n) w) :
    ∃ r ∈ w.sources, r.id = c.sourceId ∧ r.userId = c.userId ∧
      Enqueued c.userId c.sourceId r.objectKey (fresh 1) w.durableJobs s.durableJobs := by
  obtain ⟨source, hsource, hjobs⟩ := h.found
  obtain ⟨hmem, hwhere⟩ := get_eq_some hsource
  obtain ⟨hid, huser, -⟩ := of_decide_eq_true hwhere
  obtain ⟨r, hr, hid', hkeeps⟩ := hlater 1 source hmem
  rw [← hkeeps.objectKey] at hjobs
  exact ⟨r, hr, hid'.trans hid, hkeeps.userId.trans huser, hjobs⟩

/-- A deletion deletes the Source together with its File. -/
theorem Mirror.deletes {c : DeleteFile} {now : Timestamp} (hmirror : Mirror r f)
    (howner : r.id = c.sourceId → r.userId = c.userId) (hmove : DeleteMove c now r r') :
    Mirror r' (updateRow (FileRepository.markDeletedWhere c.userId c.sourceId)
      (fun f => { f with deletedAt := some now, assetStatus := .deleted }) f) := by
  by_cases hid : r.id = c.sourceId
  · have hdeletedAt : r'.deletedAt = some now := by rw [hmove.deletedAt, if_pos hid]
    cases hwhere : FileRepository.markDeletedWhere c.userId c.sourceId f with
    | true =>
      rw [updateRow_pos hwhere]
      refine ⟨hmirror.id.trans hmove.id.symm, hmirror.owner.trans hmove.userId.symm,
        hmirror.storageKey.trans hmove.objectKey.symm, ?_⟩
      rw [hdeletedAt]
    | false =>
      rw [updateRow_neg hwhere]
      refine ⟨hmirror.id.trans hmove.id.symm, hmirror.owner.trans hmove.userId.symm,
        hmirror.storageKey.trans hmove.objectKey.symm, ?_⟩
      -- the statement passes over the File only where it is deleted already
      rw [hdeletedAt]
      cases hdeleted : f.deletedAt with
      | some _ => rfl
      | none =>
        exact absurd ⟨hmirror.id.trans hid, hmirror.owner.trans (howner hid), hdeleted⟩
          (of_decide_eq_false hwhere)
  · have hdeletedAt : r'.deletedAt = r.deletedAt := by rw [hmove.deletedAt, if_neg hid]
    have hwhere : FileRepository.markDeletedWhere c.userId c.sourceId f = false :=
      decide_eq_false fun h => hid (hmirror.id.symm.trans h.1)
    rw [updateRow_neg hwhere]
    exact ⟨hmirror.id.trans hmove.id.symm, hmirror.owner.trans hmove.userId.symm,
      hmirror.storageKey.trans hmove.objectKey.symm, by rw [hdeletedAt, hmirror.deleted]⟩

theorem Mirrors.deletes {c : DeleteFile} {fresh : ℕ → Stamp}
    (h : Mirrors w.sources w.files) (hlater : ∀ n, SourcesLater (view n) w)
    (hdeletes : Deletes c fresh (fun n => (view n).toState) w.toState s) :
    Mirrors s.sources s.files := by
  obtain ⟨r₀, hr₀, hid₀, huser₀, -⟩ := hdeletes.row hlater
  have howner : ∀ r ∈ w.sources, r.id = c.sourceId → r.userId = c.userId := by
    intro r hr hid
    obtain rfl := source_eq hr hr₀ (hid.trans hid₀.symm)
    exact huser₀
  rw [hdeletes.files]
  constructor
  · intro r' hr'
    obtain ⟨r, hr, hmove⟩ := hdeletes.moves.mem hr'
    obtain ⟨f, hf, hmirror⟩ := h.file r hr
    exact ⟨_, updateRow_mem hf, hmirror.deletes (howner r hr) hmove⟩
  · intro f' hf'
    obtain ⟨f, hf, rfl⟩ := mem_update.mp hf'
    obtain ⟨r, hr, hmirror⟩ := h.source f hf
    obtain ⟨r', hr', hmove⟩ := hdeletes.moves.exists_mem hr
    exact ⟨r', hr', hmirror.deletes (howner r hr) hmove⟩

/-! ## Every step -/

theorem Purged.files {owner : String} {lease : ℤ} {now : Timestamp} {reached locked : UUID → Bool}
    {s₀ : State} {objectKey : Option String}
    (h : Purged owner lease now reached locked s₀ s objectKey) :
    s.sources = s₀.sources ∧ s₀.files.Moves SameFile s.files := by
  cases h with
  | rolledBack => exact ⟨rfl, moves_sameFile _⟩
  | passed => exact ⟨rfl, moves_sameFile _⟩
  | purged hjob hpurges hjobs hsettled hsame =>
    refine ⟨by rw [hsame], ?_⟩
    rcases hpurges.result.1 with hfiles | hfiles
    · rw [hfiles]
      exact moves_sameFile _
    · rw [hfiles]
      exact .update (fun _ => ⟨rfl, rfl, rfl, rfl⟩) fun _ _ _ => ⟨rfl, rfl, rfl, rfl⟩

theorem Mirrors.step (h : Mirrors w.sources w.files) (hlater : ∀ n, SourcesLater (view n) w)
    (hwrites : Writes settings op view w s reply) : Mirrors s.sources s.files := by
  cases hwrites with
  | nothing => exact h
  | @uploaded _ _ source _ hop hactivity hsources hfiles hsame =>
    have hinsert : w.files.insert? (fileFromSource source) = some s.files := by
      rcases hfiles with hinsert | ⟨-, f, hf, hid, -⟩
      · exact hinsert
      · obtain ⟨r, hr, hmirror⟩ := h.source f hf
        exact absurd (.inl (hmirror.id.symm.trans hid)) (not_conflict_of_insert? hsources hr)
    constructor
    · intro r hr
      rcases (mem_insert? hsources).mp hr with hold | rfl
      · obtain ⟨f, hf, hmirror⟩ := h.file r hold
        exact ⟨f, (mem_insert? hinsert).mpr (.inl hf), hmirror⟩
      · exact ⟨_, (mem_insert? hinsert).mpr (.inr rfl), mirror_fileFromSource r⟩
    · intro f hf
      rcases (mem_insert? hinsert).mp hf with hold | rfl
      · obtain ⟨r, hr, hmirror⟩ := h.source f hold
        exact ⟨r, (mem_insert? hsources).mpr (.inl hr), hmirror⟩
      · exact ⟨source, (mem_insert? hsources).mpr (.inr rfl), mirror_fileFromSource source⟩
  | deleted hop hdeletes => exact h.deletes hlater hdeletes
  | claimed =>
    refine h.same (.update ?_ ?_) (moves_sameFile _)
    · exact fun _ => ⟨rfl, rfl, rfl, rfl⟩
    · exact fun _ _ _ => ⟨rfl, rfl, rfl, rfl⟩
  | renewed =>
    refine h.same (.update ?_ ?_) (moves_sameFile _)
    · exact fun _ => ⟨rfl, rfl, rfl, rfl⟩
    · exact fun _ _ _ => ⟨rfl, rfl, rfl, rfl⟩
  | failed =>
    refine h.same (.update ?_ ?_) (moves_sameFile _)
    · exact fun _ => ⟨rfl, rfl, rfl, rfl⟩
    · exact fun _ _ _ => ⟨rfl, rfl, rfl, rfl⟩
  | completed hop hactivity hcompletes =>
    obtain ⟨normalized, chunks, -, -, hsources, -⟩ := hcompletes.parsed
    have hmoves : w.sources.Moves SameSource s.sources := by
      rw [hsources]
      refine .update ?_ ?_
      · exact fun _ => ⟨rfl, rfl, rfl, rfl⟩
      · exact fun _ _ _ => ⟨rfl, rfl, rfl, rfl⟩
    obtain ⟨r', hr', hid, hmirrored⟩ := hcompletes.mirrored
    obtain ⟨r, hr, hsame⟩ := hmoves.mem hr'
    rw [h.eq_of_mirrored hr hsame.id hmirrored]
    exact h.same hmoves (moves_sameFile _)
  | purged hop hidle hpurged =>
    obtain ⟨hsources, hfiles⟩ := hpurged.files
    rw [hsources]
    exact h.same (.refl (fun _ => ⟨rfl, rfl, rfl, rfl⟩) _) hfiles
  | @foreign change hforeign hop =>
    rw [(hforeign w.toState).sources, (hforeign w.toState).files]
    exact h

/-! ## Jobs -/

/-- The job is one that purges a File, or it has the key of one. -/
def PurgeJob (j : DurableJob) : Prop :=
  j.kind = .filePurge ∨ ∃ fileId, j.dedupeKey = filePurgeKey fileId

/-- The job that purges the File of a Source. -/
structure PurgeOf (r : Source) (j : DurableJob) : Prop where
  kind : j.kind = .filePurge
  userId : j.userId = r.userId
  dedupeKey : j.dedupeKey = filePurgeKey r.id
  payload : j.payload.get "file_id" = some (.str r.id.str)

/-- The Sources that are deleted have a job that purges the File, and the others have none. -/
structure PurgeJobs (sources : Table Source) (jobs : Table DurableJob) : Prop where
  source : ∀ j ∈ jobs, PurgeJob j → ∃ r ∈ sources, r.deletedAt.isSome = true ∧ PurgeOf r j
  job : ∀ r ∈ sources, r.deletedAt.isSome = true → ∃ j ∈ jobs, PurgeOf r j

theorem PurgeJob.same (h : PurgeJob j') (hj : SameJob j j') : PurgeJob j :=
  h.imp (fun hkind => hj.kind.symm.trans hkind)
    fun ⟨fileId, hkey⟩ => ⟨fileId, hj.dedupeKey.symm.trans hkey⟩

theorem PurgeOf.same (h : PurgeOf r j) (hr : r.Later r') (hj : SameJob j j') : PurgeOf r' j' where
  kind := hj.kind.trans h.kind
  userId := (hj.userId.trans h.userId).trans hr.userId.symm
  dedupeKey := by rw [hj.dedupeKey, h.dedupeKey, hr.id]
  payload := by rw [hj.payload, h.payload, hr.id]

theorem filePurgeKey_injective : Function.Injective filePurgeKey :=
  fun _ _ h => UUID.str_injective ((String.append_right_inj _).mp h)

/-- What a step makes of the jobs that purge Files. -/
structure JobsMove (jobs jobs' : Table DurableJob) (new : DurableJob → Prop) : Prop where
  kept : ∀ j ∈ jobs, PurgeJob j → ∃ j' ∈ jobs', j'.id = j.id ∧ SameJob j j'
  origin : ∀ j' ∈ jobs', PurgeJob j' → (∃ j ∈ jobs, j'.id = j.id ∧ SameJob j j') ∨ new j'

theorem JobsMove.refl {new : DurableJob → Prop} (jobs : Table DurableJob) :
    JobsMove jobs jobs new :=
  ⟨fun j hj _ => ⟨j, hj, rfl, .refl j⟩, fun j hj _ => .inl ⟨j, hj, rfl, .refl j⟩⟩

theorem JobsMove.of_moves {jobs jobs' : Table DurableJob} {new : DurableJob → Prop}
    (h : jobs.Moves (fun j j' => j'.id = j.id ∧ SameJob j j') jobs') : JobsMove jobs jobs' new :=
  ⟨fun _ hj _ => h.exists_mem hj, fun _ hj' _ => .inl (h.mem hj')⟩

theorem Purged.jobs {owner : String} {lease : ℤ} {now : Timestamp} {reached locked : UUID → Bool}
    {s₀ : State} {objectKey : Option String}
    (h : Purged owner lease now reached locked s₀ s objectKey) :
    s₀.durableJobs.Moves (fun j j' => j'.id = j.id ∧ SameJob j j') s.durableJobs := by
  have hclaim : s₀.durableJobs.Moves (fun j j' => j'.id = j.id ∧ SameJob j j')
      (claimReadyJobs .filePurge owner now (now + lease) 1 reached locked s₀.durableJobs).1 :=
    claimMove_claimReadyJobs.imp fun _ _ hmove => ⟨hmove.id, hmove.same⟩
  cases h with
  | rolledBack => exact .refl (fun j => ⟨rfl, .refl j⟩) _
  | passed => exact hclaim
  | purged hjob hpurges hjobs hsettled hsame =>
    rw [hjobs]
    refine hclaim.trans (Q := fun j j' => j'.id = j.id ∧ SameJob j j') (.update ?_ ?_) ?_
    · exact fun j => ⟨rfl, .refl j⟩
    · exact fun _ _ _ => ⟨rfl, rfl, rfl, rfl, rfl⟩
    · exact fun _ _ _ h h' => ⟨h'.1.trans h.1, h.2.trans h'.2⟩

/-- A step adds no job that purges a File, but for the one of the Source that it deletes. -/
theorem writes_jobs (h : Writes settings op view w s reply) :
    JobsMove w.durableJobs s.durableJobs fun j => ∃ c fresh objectKey,
      Deletes c fresh (fun n => (view n).toState) w.toState s ∧
        j = filePurgeJob c.userId c.sourceId objectKey (fresh 1) := by
  cases h with
  | nothing | claimed | renewed | failed => exact .refl _
  | uploaded hop hactivity hsources hfiles hsame =>
    rw [hsame]
    exact .refl _
  | deleted hop hdeletes =>
    obtain ⟨source, -, hjobs⟩ := hdeletes.found
    rcases hjobs with hinsert | ⟨hsame, -⟩
    · refine ⟨fun j hj _ => ⟨j, (mem_insert? hinsert).mpr (.inl hj), rfl, .refl j⟩, ?_⟩
      intro j hj _
      rcases (mem_insert? hinsert).mp hj with hold | rfl
      · exact .inl ⟨j, hold, rfl, .refl j⟩
      · exact .inr ⟨_, _, _, hdeletes, rfl⟩
    · rw [hsame]
      exact .refl _
  | completed hop hactivity hcompletes =>
    rw [hcompletes.durableJobs]
    exact .refl _
  | purged hop hidle hpurged => exact .of_moves hpurged.jobs
  | @foreign change hforeign hop =>
    have hjobs := (hforeign w.toState).jobs
    exact ⟨fun j hj hpurge => ⟨j, (hjobs j hpurge).mpr hj, rfl, .refl j⟩,
      fun j hj hpurge => .inl ⟨j, (hjobs j hpurge).mp hj, rfl, .refl j⟩⟩

/-- The job that a deletion adds, or finds, purges the File of its Source. -/
theorem Deletes.purgeOf {c : DeleteFile} {fresh : ℕ → Stamp}
    (h : Deletes c fresh (fun n => (view n).toState) w.toState s)
    (hlater : ∀ n, SourcesLater (view n) w) :
    ∃ r ∈ s.sources, r.id = c.sourceId ∧ r.deletedAt.isSome = true ∧
      ∀ objectKey, PurgeOf r (filePurgeJob c.userId c.sourceId objectKey (fresh 1)) := by
  obtain ⟨r, hr, hid, huser, -⟩ := h.row hlater
  obtain ⟨r', hr', hmove⟩ := h.moves.exists_mem hr
  have hid' : r'.id = c.sourceId := hmove.id.trans hid
  refine ⟨r', hr', hid', ?_, fun objectKey => ⟨rfl, ?_, ?_, ?_⟩⟩
  · rw [hmove.deletedAt, if_pos hid, Option.isSome_some]
  · exact (hmove.userId.trans huser).symm
  · rw [hid']
    rfl
  · rw [hid']
    exact (Dict.get_ofFields _ _).trans (by simp [List.lookup_cons])

/-- A Source is deleted if there is a job with the key of one that purges its File. -/
theorem PurgeJobs.deleted_of_key {sources : Table Source} {jobs : Table DurableJob}
    (h : PurgeJobs sources jobs) (hr : r ∈ sources) (hj : j ∈ jobs)
    (hkey : j.dedupeKey = filePurgeKey r.id) : r.deletedAt.isSome = true := by
  obtain ⟨r₀, hr₀, hdeleted, hof⟩ := h.source j hj (.inr ⟨_, hkey⟩)
  obtain rfl := source_eq hr hr₀ (filePurgeKey_injective (hkey.symm.trans hof.dedupeKey))
  exact hdeleted

theorem PurgeJobs.step (h : PurgeJobs w.sources w.durableJobs) (hnew : NewUploads w)
    (hlater : ∀ n, SourcesLater (view n) w) (hwrites : Writes settings op view w s reply) :
    PurgeJobs s.sources s.durableJobs := by
  have hmoves := writes_jobs hwrites
  have hgrows := writes_sources hwrites
  constructor
  · intro j' hj' hpurge
    rcases hmoves.origin j' hj' hpurge with ⟨j, hj, -, hsame⟩ | ⟨c, fresh, objectKey, hdeletes, rfl⟩
    · obtain ⟨r, hr, hdeleted, hof⟩ := h.source j hj (hpurge.same hsame)
      obtain ⟨r', hr', hmove⟩ := hgrows.kept r hr
      exact ⟨r', hr', hmove.later.deleted hdeleted, hof.same hmove.later hsame⟩
    · obtain ⟨r, hr, -, hdeleted, hof⟩ := hdeletes.purgeOf hlater
      exact ⟨r, hr, hdeleted, hof objectKey⟩
  · intro r' hr' hdeleted
    have hold : ∀ r ∈ w.sources, r.Later r' → r.deletedAt.isSome = true →
        ∃ j ∈ s.durableJobs, PurgeOf r' j := by
      intro r hr hkeeps hdeleted
      obtain ⟨j, hj, hof⟩ := h.job r hr hdeleted
      obtain ⟨j', hj', -, hsame⟩ := hmoves.kept j hj (.inl hof.kind)
      exact ⟨j', hj', hof.same hkeeps hsame⟩
    rcases hgrows.origin r' hr' with ⟨r, hr, hmove⟩ | ⟨process, attachment, -, hstored⟩
    · by_cases hwas : r.deletedAt.isSome = true
      · exact hold r hr hmove.later hwas
      cases hmove with
      | deleted hop _ _ hid =>
        rcases writes_deleteFile hwrites hop with rfl | hdeletes
        · exact h.job _ hr' hdeleted
        · obtain ⟨r₀, hr₀, hid₀, -, hof⟩ := hdeletes.purgeOf hlater
          obtain rfl := source_eq hr₀ hr' (hid₀.trans hid.symm)
          obtain ⟨_, _, _, _, hjobs⟩ := hdeletes.row hlater
          rcases hjobs with hinsert | ⟨-, j, hj, -, hkey⟩
          · exact ⟨_, (mem_insert? hinsert).mpr (.inr rfl), hof _⟩
          · rw [← hid] at hkey
            exact absurd (h.deleted_of_key hr hj hkey) hwas
      | kept | claimed | renewed | completed | failed => exact absurd hdeleted hwas
    · rw [(hnew process r' hstored).deletedAt] at hdeleted
      cases hdeleted

/-- A job that is handed out to a purge worker purges the File of a deleted Source. -/
theorem PurgeJobs.purges {owner : String} {lease : ℤ} {now : Timestamp}
    {reached locked : UUID → Bool} {s₀ : State} {job : DurableJob} {files : Table File}
    {segments : Table RetrievalSegment} {objectKey : Option String} {fileId : UUID}
    (h : PurgeJobs s₀.sources s₀.durableJobs)
    (hjob : job ∈ (claimReadyJobs .filePurge owner now (now + lease) 1 reached locked
      s₀.durableJobs).2)
    (hpurges : Purges job now s₀ files segments objectKey fileId) :
    ∃ r ∈ s₀.sources, r.id = fileId ∧ r.deletedAt.isSome = true ∧ PurgeOf r job := by
  obtain ⟨hthere, hkind, -⟩ := mem_of_claimed hjob
  obtain ⟨j, hj, hmove⟩ := claimMove_claimReadyJobs.mem hthere
  obtain ⟨r, hr, hdeleted, hof⟩ := h.source j hj (.inl (hmove.same.kind.symm.trans hkind))
  have hof' : PurgeOf r job := hof.same (.refl r) hmove.same
  have hid := hpurges.payload
  simp only [hof'.payload, Option.bind_some, Json.asStr?, UUID.parse?_str, Option.some.injEq] at hid
  exact ⟨r, hr, hid, hdeleted, hof'⟩

/-! ## Every run -/

/-- What holds of Sources, Files and jobs in every state. -/
structure Filed (w : World) : Prop where
  new : NewUploads w
  mirrors : Mirrors w.sources w.files
  jobs : PurgeJobs w.sources w.durableJobs

theorem stable_filed {ok : Op → (ℕ → World) → World → Prop} :
    Program.Stable (system cal settings) ok Filed SourcesLater where
  init w hw := by
    obtain rfl : w = {} := hw
    refine ⟨fun _ _ h => (nomatch h), ⟨?_, ?_⟩, ⟨?_, ?_⟩⟩
    · exact fun r hr => absurd hr not_mem_empty
    · exact fun f hf => absurd hf not_mem_empty
    · exact fun j hj => absurd hj not_mem_empty
    · exact fun r hr => absurd hr not_mem_empty
  refl w := Evolves.refl Source.Later.refl w.sources
  trans _ _ _ := Evolves.trans Source.Later.trans
  step op view w hfiled hviews hok := by
    have hlater : ∀ n, SourcesLater (view n) w := fun n => (hviews n).2
    refine ⟨⟨newUploads_step hfiled.new, hfiled.mirrors.step hlater (commit_writes ..),
      hfiled.jobs.step hfiled.new hlater (commit_writes ..)⟩, ?_⟩
    exact (stable_sources.step op view w hfiled.new
      (fun n => ⟨(hviews n).1.new, (hviews n).2⟩) hok).2

end Sources
