import Laoshiren.Sources.Proofs.StorageProofs

/-!
# Proofs: the objects of the Files that are deleted

The job that purges a File is completed before the object is deleted, and the File that was purged keeps
its row, so its key stays one that a scan knows. Between the two only the worker itself remembers the
object.
-/

namespace Sources

open Runtime Raise Table DurableJobRepository
open PersonalState (Calendar DeleteFile)

variable {cal : Calendar} {settings : Settings} {op : Op} {view : ℕ → World} {w : World}
  {s s₀ : State} {r r' : Source} {f : File} {j j' job : DurableJob} {process : UUID} {key : String}
  {reply : Reply} {h : History World Op Reply}

/-! ## Purge jobs -/

/-- A purge worker claims a job and completes it in one transaction, so it is never seen claimed. -/
def JobsRest (jobs : Table DurableJob) : Prop :=
  ∀ j ∈ jobs, PurgeJob j → j.status = .ready ∨ j.status = .completed

/-- The sweep leaves a job alone that is not claimed. -/
theorem sweepMove_of_rest {now : Timestamp} {reached : UUID → Bool} (h : SweepMove now reached j j')
    (hrest : j.status = .ready ∨ j.status = .completed) : j' = j := by
  have hnot : ∀ now, expired now j ≠ true := by
    intro now hexpired
    have hclaimed : j.status = .claimed := (of_decide_eq_true hexpired).1
    rw [hclaimed] at hrest
    rcases hrest with hready | hcompleted
    · cases hready
    · cases hcompleted
  cases h with
  | kept => rfl
  | requeued _ hp => exact absurd (Bool.and_eq_true_iff.mp hp).1 (hnot _)
  | givenUp _ hp => exact absurd (Bool.and_eq_true_iff.mp hp).1 (hnot _)

/-- A statement that settles a job settles the one row that it names. -/
theorem settle_row {jobId : UUID} {owner : String} {claimEpoch : ℕ} {now : Timestamp}
    {jobs : Table DurableJob} (hj : j ∈ jobs) (hid : j.id = jobId)
    (hsettled : (settle jobId owner claimEpoch .completed now none jobs).2 = true) :
    settleWhere jobId owner claimEpoch now j = true := by
  obtain ⟨j₀, hj₀, hp⟩ := exists_of_rowcount_eq_one (beq_iff_eq.mp hsettled)
  have hid₀ : j₀.id = jobId := (heldBy_iff.mp (settleWhere_iff.mp hp).1).1
  obtain rfl : j₀ = j := eq_of_conflict hj₀ hj (.inl (hid₀.trans hid.symm))
  exact hp

/-- The object of a Source whose purge job is handed out is the one that is deleted next. -/
theorem Purges.erases {owner : String} {lease : ℤ} {now : Timestamp} {reached locked : UUID → Bool}
    {files : Table File} {segments : Table RetrievalSegment} {objectKey : Option String}
    {fileId : UUID} (hmirrors : Mirrors s₀.sources s₀.files)
    (hjobs : PurgeJobs s₀.sources s₀.durableJobs) (hnamed : r.objectKey ≠ "")
    (hr : r ∈ s₀.sources) (hof : PurgeOf r job)
    (hjob : job ∈ (claimReadyJobs .filePurge owner now (now + lease) 1 reached locked
      s₀.durableJobs).2)
    (hpurges : Purges job now s₀ files segments objectKey fileId) :
    objectKey.filter (· ≠ "") = some r.objectKey := by
  obtain ⟨r₀, hr₀, hid₀, -, hof₀⟩ := hjobs.purges hjob hpurges
  obtain rfl := source_eq hr hr₀
    (filePurgeKey_injective (hof.dedupeKey.symm.trans hof₀.dedupeKey))
  obtain ⟨f, hf, hmirror⟩ := hmirrors.file r hr
  have hfound : FileRepository.getIncludingDeleted job.userId fileId s₀.files = some f := by
    refine get_of_mem hf (decide_eq_true ⟨hmirror.id.trans hid₀, ?_⟩) fun f' hwhere => .inl ?_
    · exact hmirror.owner.trans hof.userId.symm
    · exact (of_decide_eq_true hwhere).1.trans (hid₀.symm.trans hmirror.id.symm)
  rw [hpurges.objectKey, hfound]
  show (some f.storageKey).filter (· ≠ "") = some r.objectKey
  rw [hmirror.storageKey]
  exact if_pos (decide_eq_true hnamed)

/-- What the transaction of a purge worker makes of a job at rest: nothing, or it completes it, and the
object of the Source is the one that is deleted next. -/
theorem Purged.job_moves {owner : String} {lease : ℤ} {now : Timestamp}
    {reached locked : UUID → Bool} {objectKey : Option String}
    (h : Purged owner lease now reached locked s₀ s objectKey)
    (hmirrors : Mirrors s₀.sources s₀.files) (hjobs : PurgeJobs s₀.sources s₀.durableJobs)
    (hnamed : ∀ r ∈ s₀.sources, r.objectKey ≠ "") :
    s₀.durableJobs.Moves (fun j j' => SameJob j j' ∧ (j.status = .ready ∨ j.status = .completed →
      j' = j ∨ j'.status = .completed ∧
        ∀ r ∈ s₀.sources, PurgeOf r j → objectKey = some r.objectKey)) s.durableJobs := by
  cases h with
  | rolledBack => exact .refl (fun j => ⟨.refl j, fun _ => .inl rfl⟩) _
  | passed hnone =>
    refine (claimed_or_swept ..).imp fun j j' hmove => ?_
    rcases hmove with hswept | ⟨-, -, hmem⟩
    · exact ⟨hswept.same, fun hrest => .inl (sweepMove_of_rest hswept hrest)⟩
    · rw [hnone] at hmem
      exact absurd hmem List.not_mem_nil
  | @purged job objectKey fileId s' hjob hpurges hsettle hsettled hsame =>
    rw [hsettle]
    refine (claimed_or_swept ..).trans .update_cases fun j j₁ j₂ hmove hsettles => ?_
    have hsame₂ : SameJob j₁ j₂ := by
      rcases hsettles with ⟨-, rfl⟩ | ⟨-, rfl⟩
      · exact ⟨rfl, rfl, rfl, rfl⟩
      · exact .refl j₂
    rcases hmove with hswept | ⟨-, hsame₁, hmem⟩
    · refine ⟨hswept.same.trans hsame₂, fun hrest => ?_⟩
      obtain rfl := sweepMove_of_rest hswept hrest
      rcases hsettles with ⟨hp, -⟩ | ⟨-, rfl⟩
      · have hclaimed := (heldBy_iff.mp (settleWhere_iff.mp hp).1).2.1
        rw [hclaimed] at hrest
        exact hrest.elim nofun nofun
      · exact .inl rfl
    · refine ⟨hsame₁.trans hsame₂, fun _ => ?_⟩
      have hjob₁ : j₁ = job := by
        -- one job is handed out at most
        obtain ⟨only, honly⟩ := List.length_eq_one_iff.mp
          (le_antisymm claimed_length (List.length_pos_of_mem hjob))
        rw [honly] at hjob hmem
        rw [List.mem_singleton.mp hjob, List.mem_singleton.mp hmem]
      subst hjob₁
      have hof : ∀ r ∈ s₀.sources, PurgeOf r j → objectKey.filter (· ≠ "") = some r.objectKey :=
        fun r hr hof => hpurges.erases hmirrors hjobs (hnamed r hr) hr (hof.same (.refl r) hsame₁) hjob
      rcases hsettles with ⟨-, rfl⟩ | ⟨hfree, -⟩
      · exact .inr ⟨rfl, hof⟩
      · have hthere := (mem_of_claimed hjob).1
        rw [settle_row hthere rfl hsettled] at hfree
        cases hfree

/-- What every other step makes of the jobs that purge Files: they stay, and a new one is ready. -/
theorem writes_rest (h : Writes settings op view w s reply)
    (hop : ∀ process lease now reached locked, op ≠ .purge process lease now reached locked) :
    (∀ j ∈ w.durableJobs, PurgeJob j → j ∈ s.durableJobs) ∧
      ∀ j ∈ s.durableJobs, PurgeJob j → j ∈ w.durableJobs ∨ j.status = .ready := by
  cases h with
  | nothing | claimed | renewed | failed => exact ⟨fun _ hj _ => hj, fun _ hj _ => .inl hj⟩
  | uploaded hop hactivity hsources hfiles hsame =>
    rw [hsame]
    exact ⟨fun _ hj _ => hj, fun _ hj _ => .inl hj⟩
  | deleted hop hdeletes =>
    obtain ⟨source, -, hjobs⟩ := hdeletes.found
    rcases hjobs with hinsert | ⟨hsame, -⟩
    · refine ⟨fun j hj _ => (mem_insert? hinsert).mpr (.inl hj), fun j hj _ => ?_⟩
      rcases (mem_insert? hinsert).mp hj with hold | rfl
      · exact .inl hold
      · exact .inr rfl
    · rw [hsame]
      exact ⟨fun _ hj _ => hj, fun _ hj _ => .inl hj⟩
  | completed hop hactivity hcompletes =>
    rw [hcompletes.durableJobs]
    exact ⟨fun _ hj _ => hj, fun _ hj _ => .inl hj⟩
  | purged hpurge => exact absurd hpurge (hop _ _ _ _ _)
  | @foreign change hforeign hop =>
    have hjobs := (hforeign w.toState).jobs
    exact ⟨fun j hj hpurge => (hjobs j hpurge).mpr hj, fun j hj hpurge => .inl ((hjobs j hpurge).mp hj)⟩

/-! ## The invariant -/

/-- No upload draws the key of a File, and no worker crashes that is about to delete an object. -/
structure Op.Recovers (op : Op) (w : World) : Prop where
  draws : ∀ process upload name size contentHash stamp,
    op = .put process upload name size contentHash stamp →
      ∀ f ∈ w.files, f.storageKey ≠ upload.objectKey name
  crash : ∀ process key, op = .crash process → w.activities process = .purged key → key ∉ w.objects

/-- Objects have names. -/
structure Named (w : World) : Prop where
  source : ∀ r ∈ w.sources, r.objectKey ≠ ""
  upload : ∀ process source, w.activities process = .stored source → source.objectKey ≠ ""

/-- The object of a deleted Source that is still there has a job that is ready, or a worker that is about
to delete it. -/
def Recoverable (w : World) : Prop :=
  ∀ r ∈ w.sources, r.deletedAt.isSome = true → r.objectKey ∈ w.objects →
    (∃ j ∈ w.durableJobs, PurgeOf r j ∧ j.status = .ready) ∨
      ∃ process, w.activities process = .purged r.objectKey

theorem objectKey_ne_empty {upload : UploadFile} {name : UUID} : upload.objectKey name ≠ "" := by
  intro hempty
  have hchars := congrArg String.toList hempty
  simp [UploadFile.objectKey] at hchars

theorem Named.step (h : Named w) : Named (World.commit cal settings op view w).1 where
  source r' hr' := by
    rcases (writes_sources (commit_writes cal settings op view (w := w))).origin r' hr' with ⟨r, hr, hmove⟩ | ⟨process, _, -, hstored⟩
    · rw [hmove.later.objectKey]
      exact h.source r hr
    · exact h.upload process r' hstored
  upload process source hstored := by
    have hmove := commit_activity cal settings op view
      (w := w) process
    rw [hstored] at hmove
    generalize hbefore : w.activities process = a at hmove
    cases hmove with
    | kept => exact h.upload process source hbefore
    | put =>
      rw [objectKey_source]
      exact objectKey_ne_empty

theorem JobsRest.step (h : JobsRest w.durableJobs) (hfiled : Filed w) (hnamed : Named w)
    (hwrites : Writes settings op view w s reply) : JobsRest s.durableJobs := by
  intro j' hj' hpurge
  by_cases hop : ∀ process lease now reached locked, op ≠ .purge process lease now reached locked
  · rcases (writes_rest hwrites hop).2 j' hj' hpurge with hold | hready
    · exact h j' hold hpurge
    · exact .inl hready
  · push_neg at hop
    obtain ⟨process, lease, now, reached, locked, rfl⟩ := hop
    cases hwrites with
    | nothing => exact h j' hj' hpurge
    | purged hop hidle hpurged =>
      obtain ⟨j, hj, hsame, hmove⟩ :=
        (hpurged.job_moves hfiled.mirrors hfiled.jobs hnamed.source).mem hj'
      have hrest := h j hj (hpurge.same hsame)
      rcases hmove hrest with rfl | ⟨hcompleted, -⟩
      · exact hrest
      · exact .inr hcompleted
    | uploaded hop | deleted hop | claimed hop | renewed hop | completed hop | failed hop
      | foreign hop => cases hop

/-- A worker that purged a File is about to delete its object. -/
theorem commit_purge {lease : ℤ} {now : Timestamp} {reached locked : UUID → Bool} :
    (World.commit cal settings (.purge process lease now reached locked) view w).1.toState =
        w.toState ∨
      ∃ objectKey, Purged (purgeOwner process) lease now reached locked w.toState
          (World.commit cal settings (.purge process lease now reached locked) view w).1.toState
          objectKey ∧
        ∀ key, objectKey = some key →
          (World.commit cal settings (.purge process lease now reached locked) view w).1.activities
            process = .purged key := by
  simp only [World.commit]
  split
  next hidle =>
    split
    next s key hpurged =>
      refine .inr ⟨some key, purgeFile_ok hpurged, fun key' hkey => ?_⟩
      obtain rfl := Option.some.inj hkey
      have hself : Function.update w.activities process (.purged key) process = .purged key :=
        Function.update_self _ _ _
      exact hself
    next s hpurged => exact .inr ⟨none, purgeFile_ok hpurged, fun key' hkey => by cases hkey⟩
    next => exact .inl rfl
  next => exact .inl rfl

/-- A worker that is about to delete an object goes on with that, or deletes it, or crashes. -/
theorem commit_purged (hpurged : w.activities process = .purged key)
    (hrecovers : op.Recovers w) (hkey : key ∈ w.objects) :
    (World.commit cal settings op view w).1.activities process = .purged key ∨
      key ∉ (World.commit cal settings op view w).1.objects := by
  generalize hafter : (World.commit cal settings op view w).1.activities process = a'
  have hmove := commit_activity cal settings op view
    (w := w) process
  rw [hpurged, hafter] at hmove
  cases hmove with
  | kept => exact .inl rfl
  | erased hop =>
    subst hop
    refine .inr ?_
    simp only [World.commit, hpurged]
    exact Finset.notMem_erase key w.objects
  | crashed hop => exact absurd hkey (hrecovers.crash process key hop hpurged)

/-- The object of a File is not one that is stored by the step. -/
theorem Op.Recovers.objects (hrecovers : op.Recovers w) (hmirrors : Mirrors w.sources w.files)
    (hr : r ∈ w.sources) (hkey : r.objectKey ∈ (World.commit cal settings op view w).1.objects) :
    r.objectKey ∈ w.objects := by
  have hmove := commit_objects cal settings op view (w := w)
  generalize (World.commit cal settings op view w).1.objects = objects at hmove hkey
  cases hmove with
  | kept => exact hkey
  | put hop =>
    rcases Finset.mem_insert.mp hkey with hdrawn | hold
    · obtain ⟨f, hf, hmirror⟩ := hmirrors.file r hr
      exact absurd (hmirror.storageKey.trans hdrawn) (hrecovers.draws _ _ _ _ _ _ hop f hf)
    · exact hold
  | cleanedUp | erased | swept => exact Finset.mem_of_mem_erase hkey

theorem Recoverable.step (h : Recoverable w) (hfiled : Filed w) (hnamed : Named w)
    (hrest : JobsRest w.durableJobs) (hlater : ∀ n, SourcesLater (view n) w)
    (hrecovers : op.Recovers w) : Recoverable (World.commit cal settings op view w).1 := by
  intro r' hr' hdeleted hkey
  have hwrites := commit_writes cal settings op view (w := w)
  rcases (writes_sources hwrites).origin r' hr' with ⟨r, hr, hmove⟩ | ⟨process, _, -, hstored⟩
  · have hlater' := hmove.later
    by_cases hwas : r.deletedAt.isSome = true
    · have hkey₀ : r.objectKey ∈ w.objects := by
        rw [hlater'.objectKey] at hkey
        exact hrecovers.objects hfiled.mirrors hr hkey
      rcases h r hr hwas hkey₀ with ⟨j, hj, hof, hready⟩ | ⟨process, hpurged⟩
      · by_cases hop : ∀ process lease now reached locked,
          op ≠ .purge process lease now reached locked
        · exact .inl ⟨j, (writes_rest hwrites hop).1 j hj (.inl hof.kind),
            hof.same hlater' (.refl j), hready⟩
        · push_neg at hop
          obtain ⟨process, lease, now, reached, locked, rfl⟩ := hop
          rcases commit_purge (w := w) with hsame | ⟨objectKey, hpurged, hnext⟩
          · refine .inl ⟨j, ?_, hof.same hlater' (.refl j), hready⟩
            show j ∈ (World.commit cal settings _ view w).1.toState.durableJobs
            rw [hsame]
            exact hj
          · obtain ⟨j', hj', hsame, hmoved⟩ :=
              (hpurged.job_moves hfiled.mirrors hfiled.jobs hnamed.source).exists_mem hj
            rcases hmoved (.inl hready) with rfl | ⟨-, hobject⟩
            · exact .inl ⟨j', hj', hof.same hlater' (.refl j'), hready⟩
            · refine .inr ⟨process, ?_⟩
              rw [hlater'.objectKey]
              exact hnext _ (hobject r hr hof)
      · rcases commit_purged hpurged hrecovers
          hkey₀ with hstill | hgone
        · refine .inr ⟨process, ?_⟩
          rw [hlater'.objectKey]
          exact hstill
        · rw [hlater'.objectKey] at hkey
          exact absurd hkey hgone
    · -- the Source was just deleted
      cases hmove with
      | deleted hop _ _ hid =>
        rcases writes_deleteFile hwrites hop with hsame | hdeletes
        · rw [show (World.commit cal settings op view w).1.sources = w.sources from
            congrArg State.sources hsame] at hr'
          have hrow := source_eq hr hr' rfl
          rw [← hrow] at hdeleted
          exact absurd hdeleted hwas
        · obtain ⟨r₀, hr₀, hid₀, -, hof⟩ := hdeletes.purgeOf hlater
          obtain rfl := source_eq hr₀ hr' (hid₀.trans hid.symm)
          obtain ⟨_, _, _, _, hjobs⟩ := hdeletes.row hlater
          rcases hjobs with hinsert | ⟨-, j, hj, -, hjkey⟩
          · exact .inl ⟨_, (mem_insert? hinsert).mpr (.inr rfl), hof _, rfl⟩
          · rw [← hid] at hjkey
            exact absurd (hfiled.jobs.deleted_of_key hr hj hjkey) hwas
      | kept | claimed | renewed | completed | failed => exact absurd hdeleted hwas
  · rw [(hfiled.new process r' hstored).deletedAt] at hdeleted
    cases hdeleted

/-! ## Every run -/

theorem stable_recoverable : Program.Stable (system cal settings) (fun op _ w => op.Recovers w)
    (fun w => ((Filed w ∧ Named w) ∧ JobsRest w.durableJobs) ∧ Recoverable w) SourcesLater := by
  have hnamed : Program.Stable (system cal settings) (fun op _ w => op.Recovers w)
      (fun w => Filed w ∧ Named w) SourcesLater := by
    refine stable_filed.strengthen Named ?_ fun op view w _ h _ _ => h.step
    intro w hw
    obtain rfl : w = {} := hw
    exact ⟨fun r hr => absurd hr not_mem_empty, fun _ _ h => nomatch h⟩
  have hrest : Program.Stable (system cal settings) (fun op _ w => op.Recovers w)
      (fun w => (Filed w ∧ Named w) ∧ JobsRest w.durableJobs) SourcesLater := by
    refine hnamed.strengthen (fun w => JobsRest w.durableJobs) ?_
      fun op view w hinv h _ _ => h.step hinv.1 hinv.2 (commit_writes ..)
    intro w hw
    obtain rfl : w = {} := hw
    exact fun j hj => absurd hj not_mem_empty
  refine hrest.strengthen Recoverable ?_ ?_
  · intro w hw
    obtain rfl : w = {} := hw
    exact fun r hr => absurd hr not_mem_empty
  · intro op view w hinv h hviews hrecovers
    exact h.step hinv.1.1 hinv.1.2 hinv.2 (fun n => (hviews n).2.2) hrecovers

/-- Where no upload draws the key of a File, and no purge worker crashes before it deletes the object of
the File that it purged, the object of a deleted File that is still there, while no worker is about to
delete it, has a job that is not done or is an orphan. -/
theorem purge_recovers
    (hreachable : (system cal settings).ReachableIf (fun op _ w => op.Recovers w) h)
    (hf : f ∈ h.cur.files) (hdeleted : f.deletedAt.isSome = true)
    (hobject : f.storageKey ∈ h.cur.objects)
    (hidle : ∀ process, h.cur.activities process ≠ .purged f.storageKey) :
    (∃ j ∈ h.cur.durableJobs, j.kind = .filePurge ∧ j.userId = f.ownerUserId ∧
        j.dedupeKey = filePurgeKey f.id ∧ (j.status = .ready ∨ j.status = .claimed)) ∨
      orphan h.cur.files f.storageKey = true := by
  obtain ⟨⟨⟨hfiled, -⟩, -⟩, hrecoverable⟩ := stable_recoverable.inv_cur hreachable
  obtain ⟨r, hr, hmirror⟩ := hfiled.mirrors.source f hf
  rw [hmirror.storageKey] at hobject hidle
  rcases hrecoverable r hr (hmirror.deleted.symm.trans hdeleted) hobject with
    ⟨j, hj, hof, hready⟩ | ⟨process, hpurged⟩
  · refine .inl ⟨j, hj, hof.kind, hof.userId.trans hmirror.owner.symm, ?_, .inl hready⟩
    rw [hof.dedupeKey, hmirror.id]
  · exact absurd hpurged (hidle process)

/-! ## A crash before the object is deleted -/

/-- The process of a step. -/
def Op.actor : Op → Option UUID
  | .put process _ _ _ _ _ | .refuse process _ _ | .addUpload process _ | .cleanUp process
  | .claim process _ _ _ | .heartbeat process _ | .parse process _ | .complete process _ _
  | .fail process _ | .purge process _ _ _ _ | .erase process | .readKeys process
  | .listObjects process _ | .sweep process _ | .crash process => some process
  | .deleteFile _ _ | .other _ _ => none

/-- A step leaves the other processes at what they are at. -/
theorem ActivityMove.of_other {a a' : Activity} (h : ActivityMove settings op view w process a a')
    (hother : op.actor ≠ some process) : a' = a := by
  cases h with
  | kept => rfl
  | put hop | refused hop | added hop | notAdded hop | cleanedUp hop | claimed hop | renewed hop
    | parsed hop | lost hop | raised hop | completed hop | notCompleted hop | failed hop
    | purged hop | erased hop | scanned hop | listed hop | swept hop | stopped hop | crashed hop =>
    rw [hop] at hother
    exact absurd rfl hother

/-- A process without a step is idle. -/
theorem idle_of_no_step (hreachable : (system cal settings).Reachable h)
    (hother : ∀ entry ∈ h.replies, entry.1.actor ≠ some process) :
    h.cur.activities process = .idle := by
  refine stable_sources.log_induction (fun replies w => (∀ entry ∈ replies,
    entry.1.actor ≠ some process) → w.activities process = .idle) ?_ ?_ hreachable hother
  · intro w hw _
    obtain rfl : w = {} := hw
    rfl
  · intro op view w replies _ _ _ hidle hother
    have hbefore := hidle fun entry hentry => hother entry (.tail _ hentry)
    exact ((commit_activity _ _ _ _ process).of_other (hother _ (.head _))).trans hbefore

/-- The note is uploaded and deleted. -/
def deletedNote : List Op := uploadNote ++ [deleteNote]

theorem deletedNote_recovers : (system PersonalState.tallies twoAttempts).SerialMeets
    (fun op _ w => op.Recovers w) ⟨{}, [], []⟩ deletedNote :=
  ⟨⟨fun _ _ _ _ _ _ _ _ hf => absurd hf not_mem_empty, nofun⟩, ⟨nofun, nofun⟩, ⟨nofun, nofun⟩,
    trivial⟩

/-- The object of the deleted note has its job. -/
theorem purge_recovers_deletedNote :
    ∃ f ∈ ((system PersonalState.tallies twoAttempts).serial {} deletedNote).cur.files,
      (∃ j ∈ ((system PersonalState.tallies twoAttempts).serial {} deletedNote).cur.durableJobs,
        j.kind = .filePurge ∧ j.userId = f.ownerUserId ∧ j.dedupeKey = filePurgeKey f.id ∧
          (j.status = .ready ∨ j.status = .claimed)) ∨
        orphan ((system PersonalState.tallies twoAttempts).serial {} deletedNote).cur.files
          f.storageKey = true := by
  have hrow : ∃ f ∈ ((system PersonalState.tallies twoAttempts).serial {}
      deletedNote).cur.files.rows, f.deletedAt.isSome = true ∧
        f.storageKey ∈ ((system PersonalState.tallies twoAttempts).serial {}
          deletedNote).cur.objects := by
    decide +kernel
  obtain ⟨f, hf, hdeleted, hobject⟩ := hrow
  refine ⟨f, hf, purge_recovers ((system _ _).serial_reachableIf rfl _ deletedNote_recovers) hf
    hdeleted hobject fun process hpurged => ?_⟩
  have hidle : ((system PersonalState.tallies twoAttempts).serial {} deletedNote).cur.activities
      process = .idle := by
    by_cases hone : process = 1
    · rw [hone]
      decide +kernel
    · refine idle_of_no_step ((system _ _).serial_reachable rfl _) fun entry hentry hprocess => ?_
      have hentries : ∀ entry ∈ ((system PersonalState.tallies twoAttempts).serial {}
          deletedNote).replies, entry.1.actor = some 1 ∨ entry.1.actor = none := by
        decide +kernel
      rcases hentries entry hentry with hsome | hnone
      · exact hone (Option.some.inj (hprocess.symm.trans hsome))
      · cases hprocess.symm.trans hnone
  rw [hidle] at hpurged
  cases hpurged

/-- Worker 4 purges the File of the note and crashes before it deletes the object. -/
def purgedHalfway : List Op :=
  deletedNote ++ [.purge 4 60 100 (fun _ => true) (fun _ => false), .crash 4]

/-- The object of a deleted File stays for ever: its job is completed, nobody is about to delete it, and
a scan knows its key. -/
theorem object_is_left :
    ∃ h : History World Op Reply, (system PersonalState.tallies twoAttempts).Reachable h ∧
      (∀ process, h.cur.activities process = .idle) ∧
      ∃ f ∈ h.cur.files, f.deletedAt.isSome = true ∧ f.storageKey ∈ h.cur.objects ∧
        (∀ j ∈ h.cur.durableJobs, j.status = .completed) ∧
        orphan h.cur.files f.storageKey = false := by
  refine ⟨_, (system PersonalState.tallies twoAttempts).serial_reachable rfl purgedHalfway, ?_, ?_⟩
  · intro process
    by_cases hone : process = 1
    · rw [hone]
      decide +kernel
    by_cases hfour : process = 4
    · rw [hfour]
      decide +kernel
    refine idle_of_no_step ((system _ _).serial_reachable rfl _) fun entry hentry hprocess => ?_
    have hentries : ∀ entry ∈ ((system PersonalState.tallies twoAttempts).serial {}
        purgedHalfway).replies, entry.1.actor = some 1 ∨ entry.1.actor = some 4 ∨
          entry.1.actor = none := by
      decide +kernel
    rcases hentries entry hentry with hsome | hsome | hnone
    · exact hone (Option.some.inj (hprocess.symm.trans hsome))
    · exact hfour (Option.some.inj (hprocess.symm.trans hsome))
    · cases hprocess.symm.trans hnone
  · have hrow : ∃ f ∈ ((system PersonalState.tallies twoAttempts).serial {}
        purgedHalfway).cur.files.rows, f.deletedAt.isSome = true ∧
          f.storageKey ∈ ((system PersonalState.tallies twoAttempts).serial {}
            purgedHalfway).cur.objects ∧
          (∀ j ∈ ((system PersonalState.tallies twoAttempts).serial {}
            purgedHalfway).cur.durableJobs.rows, j.status = .completed) ∧
          orphan ((system PersonalState.tallies twoAttempts).serial {} purgedHalfway).cur.files
            f.storageKey = false := by
      decide +kernel
    exact hrow

end Sources
