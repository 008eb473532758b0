import Laoshiren.Runtime.Proofs.StoreProofs
import Laoshiren.Sources.Effects

/-!
# Proofs: what a step of Sources writes

Every transaction is inverted once; later proofs read off what it writes.
-/

namespace Sources

open Runtime Raise Table
open PersonalState (Calendar DeleteFile)

variable {cal : Calendar} {settings : Settings} {op : Op} {view : ℕ → World} {w : World}
  {s s' : State}

/-! ## Uploads -/

theorem mirrorSourceUpload_ok {source : Source} (h : mirrorSourceUpload source s = .ok s') :
    Mirrored source s.files s'.files ∧ s' = { s with files := s'.files } := by
  unfold mirrorSourceUpload at h
  split at h
  next _ file hfile =>
    obtain rfl := pure_eq_ok.mp h
    obtain ⟨hmem, hwhere⟩ := get_eq_some hfile
    exact ⟨.inr ⟨rfl, file, hmem, of_decide_eq_true hwhere⟩, rfl⟩
  next =>
    simp only [bind_eq_ok, orRaise_eq_ok, pure_eq_ok] at h
    obtain ⟨files, hfiles, rfl⟩ := h
    exact ⟨.inl hfiles, rfl⟩

theorem addUpload_ok {source : Source} {attachment : Raises Unit}
    (h : addUpload source attachment s = .ok s') :
    s.sources.insert? source = some s'.sources ∧ Mirrored source s.files s'.files ∧
      s' = { s with sources := s'.sources, files := s'.files } := by
  simp only [addUpload, bind_eq_ok, orRaise_eq_ok, pure_eq_ok] at h
  obtain ⟨sources, hsources, s₁, hmirror, _, -, rfl⟩ := h
  obtain ⟨hfiles, hsame⟩ := mirrorSourceUpload_ok hmirror
  rw [hsame]
  exact ⟨hsources, hfiles, rfl⟩

/-! ## Processing -/

theorem mem_of_candidate {userId : Option UUID} {supportedMimeTypes : List String}
    {maxAttempts : ℕ} {now : Timestamp} {locked : UUID → Bool} {t : Table Source} {source : Source}
    (h : SourceRepository.candidate userId supportedMimeTypes maxAttempts now locked t =
      some source) :
    source ∈ t ∧
      SourceRepository.claimableWhere supportedMimeTypes maxAttempts now source = true := by
  have hmem := (List.mem_insertionSort _).mp (List.mem_of_head? h)
  obtain ⟨hrow, hwhere⟩ := mem_select.mp hmem
  simp only [Bool.and_eq_true] at hwhere
  exact ⟨hrow, hwhere.1.1⟩

theorem claimNextProcessing_ok {owner : String} {userId : Option UUID} {now : Timestamp}
    {locked : UUID → Bool} {job : SourceProcessingJob}
    (h : claimNextProcessing settings owner userId now locked s = .ok (s', some job)) :
    ∃ source ∈ s.sources,
      SourceRepository.claimableWhere processableMimeTypes settings.maxAttempts now source = true ∧
        job.id = source.id ∧ job.attemptCount = source.processingAttemptCount + 1 ∧
        s' = { s with
          sources := s.sources.update (fun r => r.id = source.id)
            (SourceRepository.claimValues owner now (now + settings.lease)) fun _ _ _ h => h } := by
  simp only [claimNextProcessing, bind_eq_ok, ensure_eq_ok, pure_eq_ok] at h
  obtain ⟨_, -, h⟩ := h
  unfold SourceRepository.claimNextProcessing at h
  split at h
  next source hcandidate =>
    obtain ⟨hmem, hwhere⟩ := mem_of_candidate hcandidate
    obtain ⟨rfl, hjob⟩ := Prod.mk.inj h
    obtain rfl := Option.some.inj hjob
    exact ⟨source, hmem, hwhere, rfl, rfl, rfl⟩
  next =>
    obtain ⟨-, hjob⟩ := Prod.mk.inj h
    cases hjob

/-- A File that is added to a table of Files, or is there, is added under the Source that is given. -/
theorem mirrorProcessingComplete_ok {source : Source} {chunks : List SourceChunk} {stamp : Stamp}
    {fresh : ℕ → Stamp} (h : mirrorProcessingComplete settings source chunks stamp fresh s = .ok s') :
    Mirrored source s.files s'.files ∧
      (FileRepository.retireActiveGenerations source.id stamp.now s.generations).insert?
        (newGeneration settings source.id stamp) = some s'.generations ∧
      FileRepository.replaceSegments stamp.id (segmentsOf source.id stamp.id chunks fresh)
        s.segments = some s'.segments ∧
      s' = { s with
        files := s'.files, generations := s'.generations, segments := s'.segments } := by
  simp only [mirrorProcessingComplete, bind_eq_ok, orRaise_eq_ok, pure_eq_ok] at h
  obtain ⟨s₁, hmirror, generations, hgenerations, segments, hsegments, rfl⟩ := h
  obtain ⟨hfiles, hsame⟩ := mirrorSourceUpload_ok hmirror
  rw [hsame] at hgenerations hsegments ⊢
  exact ⟨hfiles, hgenerations, hsegments, rfl⟩

theorem completeProcessing_ok {job : SourceProcessingJob} {owner : String}
    {content : ParsedSourceContent} {drawn : Processing} {now : Timestamp}
    (h : completeProcessing settings job.id owner content drawn now s = .ok (s', true)) :
    Completes settings job owner content drawn now s s' := by
  simp only [completeProcessing, bind_eq_ok] at h
  obtain ⟨normalized, hnormalized, chunks, hchunks, h⟩ := h
  split at h
  case isFalse =>
    cases h
  case isTrue hcompleted =>
    have hone : s.sources.rowcount (SourceRepository.claimedBy job.id owner) = 1 := by
      simpa [SourceRepository.completeProcessing] using hcompleted
    obtain ⟨r, hr, hheld⟩ := exists_of_rowcount_eq_one hone
    have hid : r.id = job.id := (of_decide_eq_true hheld).1
    simp only [bind_eq_ok, orRaise_eq_ok] at h
    obtain ⟨table, htable, h⟩ := h
    split at h
    next source hsource =>
      obtain ⟨hmem, hwhere⟩ := get_eq_some hsource
      have hsourceId : source.id = job.id := of_decide_eq_true hwhere
      simp only [pure_eq_ok, bind_eq_ok] at h
      obtain ⟨s₁, hmirror, h⟩ := h
      obtain ⟨rfl, -⟩ := Prod.mk.inj h
      obtain ⟨hfiles, hgenerations, hsegments, hsame⟩ := mirrorProcessingComplete_ok hmirror
      rw [hsourceId] at hgenerations hsegments
      rw [hsame]
      exact ⟨⟨r, hr, hheld⟩, ⟨normalized, chunks, hnormalized, hchunks, rfl, htable, hgenerations,
        hsegments⟩, ⟨source, hmem, hsourceId, hfiles⟩, rfl⟩
    next hnone =>
      have hmoved : SourceRepository.completeValues normalized.text now r ∈
          (SourceRepository.completeProcessing job.id owner normalized.text now s.sources).1 :=
        mem_update_of_pos hr hheld
      have hmissing := get_eq_none.mp hnone _ hmoved
      exact absurd hid (of_decide_eq_false hmissing)

/-- A worker that lost the Source changes nothing. -/
theorem completeProcessing_lost {sourceId : UUID} {owner : String} {content : ParsedSourceContent}
    {drawn : Processing} {now : Timestamp}
    (h : completeProcessing settings sourceId owner content drawn now s = .ok (s', false)) :
    s' = s := by
  simp only [completeProcessing, bind_eq_ok] at h
  obtain ⟨normalized, -, chunks, -, h⟩ := h
  split at h
  case isFalse =>
    exact (Prod.mk.inj (pure_eq_ok.mp h)).1.symm
  case isTrue =>
    simp only [bind_eq_ok] at h
    obtain ⟨table, -, h⟩ := h
    split at h
    · simp only [bind_eq_ok, pure_eq_ok, Prod.mk.injEq] at h
      obtain ⟨_, -, -, h⟩ := h
      cases h
    · cases h

/-! ## Deleting -/

theorem enqueueFilePurge_ok {userId fileId : UUID} {objectKey : String} {stamp : Stamp}
    (h : enqueueFilePurge userId fileId objectKey stamp s = .ok s') :
    Enqueued userId fileId objectKey stamp s.durableJobs s'.durableJobs ∧
      s' = { s with durableJobs := s'.durableJobs } := by
  unfold enqueueFilePurge at h
  split at h
  next _ job hjob =>
    obtain rfl := pure_eq_ok.mp h
    obtain ⟨hmem, hwhere⟩ := get_eq_some hjob
    exact ⟨.inr ⟨rfl, job, hmem, of_decide_eq_true hwhere⟩, rfl⟩
  next =>
    simp only [bind_eq_ok, reraise_eq_ok, orRaise_eq_ok, pure_eq_ok] at h
    obtain ⟨job, hjob, durableJobs, hjobs, rfl⟩ := h
    obtain rfl := DurableJob.postInit_ok hjob
    exact ⟨.inl hjobs, rfl⟩

theorem applyDeleteFile_ok {c : DeleteFile} {fresh : ℕ → Stamp} {states : ℕ → State}
    {outcome : WriteOutcome} (h : applyDeleteFile cal c fresh states s = .ok (s', outcome)) :
    s' = s ∨ Deletes c fresh states s s' := by
  unfold applyDeleteFile at h
  split at h
  next =>
    simp only [bind_eq_ok, pure_eq_ok, Prod.mk.injEq] at h
    obtain ⟨_, -, rfl, -⟩ := h
    exact .inl rfl
  next hnew =>
    simp only [bind_eq_ok, orRaise_eq_ok, pure_eq_ok, Prod.mk.injEq] at h
    obtain ⟨source, hsource, sources, hsources, s₁, henqueue, mutations, -, rfl, -⟩ := h
    obtain ⟨hjobs, hsame⟩ := enqueueFilePurge_ok henqueue
    obtain ⟨loaded, hloaded, rfl⟩ := Option.map_eq_some_iff.mp hsources
    have hid : loaded.id = c.sourceId := (of_decide_eq_true (get_eq_some hloaded).2).1
    rw [hsame]
    refine .inr ⟨⟨source, hsource, hjobs⟩, hnew, ⟨loaded, hloaded, ?_⟩, rfl, rfl, rfl, rfl⟩
    simp only [hid]

/-! ## Purging -/

theorem applyPhysicalPurge_spec {job : DurableJob} {fileId : UUID} (now : Timestamp)
    (hpayload : ((job.payload.get "file_id").bind Json.asStr?).bind UUID.parse? = some fileId) :
    Purges job now s (applyPhysicalPurge job.userId fileId now s).1.files
        (applyPhysicalPurge job.userId fileId now s).1.segments
        (applyPhysicalPurge job.userId fileId now s).2 fileId ∧
      (applyPhysicalPurge job.userId fileId now s).1 = { s with
        files := (applyPhysicalPurge job.userId fileId now s).1.files
        segments := (applyPhysicalPurge job.userId fileId now s).1.segments } := by
  unfold applyPhysicalPurge
  split
  next hnone => exact ⟨⟨hpayload, ⟨.inl rfl, .inl rfl⟩, by rw [hnone]; rfl⟩, rfl⟩
  next _ file hfile =>
    split
    · exact ⟨⟨hpayload, ⟨.inl rfl, .inl rfl⟩, by rw [hfile]; rfl⟩, rfl⟩
    · exact ⟨⟨hpayload, ⟨.inr rfl, .inr rfl⟩, by rw [hfile]; rfl⟩, rfl⟩

theorem purgeFile_ok {owner : String} {lease : ℤ} {now : Timestamp} {reached locked : UUID → Bool}
    {objectKey : Option String}
    (h : purgeFile owner lease now reached locked s = .ok (s', objectKey)) :
    Purged owner lease now reached locked s s' objectKey := by
  unfold purgeFile at h
  simp only at h
  split at h
  next hjobs =>
    obtain ⟨rfl, rfl⟩ := Prod.mk.inj (pure_eq_ok.mp h)
    exact .passed hjobs
  next _ job rest hjobs =>
    simp only [bind_eq_ok, orRaise_eq_ok] at h
    obtain ⟨text, htext, fileId, hfileId, h⟩ := h
    split at h
    case isTrue hsettled =>
      have hpayload : ((job.payload.get "file_id").bind Json.asStr?).bind UUID.parse? =
          some fileId := by
        rw [htext]
        exact hfileId
      obtain ⟨rfl, rfl⟩ := Prod.mk.inj (pure_eq_ok.mp h)
      have hspec := applyPhysicalPurge_spec now (s := { s with durableJobs :=
        (claimReadyJobs .filePurge owner now (now + lease) 1 reached locked s.durableJobs).1 })
        hpayload
      have hjob : job ∈ (claimReadyJobs .filePurge owner now (now + lease) 1 reached locked
          s.durableJobs).2 := by
        rw [hjobs]
        exact .head _
      rw [hspec.2] at hsettled
      refine .purged hjob ⟨hpayload, hspec.1.result, hspec.1.objectKey⟩ ?_ hsettled ?_
      · rw [hspec.2]
      · rw [hspec.2]
    case isFalse =>
      obtain ⟨rfl, rfl⟩ := Prod.mk.inj (pure_eq_ok.mp h)
      exact .rolledBack

/-! ## Steps -/

variable (cal settings op view) in
theorem commit_writes : Writes settings op view w (World.commit cal settings op view w).1.toState
    (World.commit cal settings op view w).2 := by
  have hnothing : ∀ {reply : Reply}, (∀ job, reply ≠ .claimed job) →
      (∀ id content, reply ≠ .completed id content true) →
      Writes settings op view w w.toState reply := .nothing
  cases op with
  | addUpload process attachment =>
    simp only [World.commit]
    split
    next source hactivity =>
      split
      next s' h =>
        obtain ⟨hsources, hfiles, hsame⟩ := addUpload_ok h
        exact .uploaded rfl hactivity hsources hfiles hsame
      next => exact hnothing nofun nofun
    next => exact hnothing nofun nofun
  | deleteFile c fresh =>
    simp only [World.commit]
    split
    next s' outcome h =>
      rcases applyDeleteFile_ok h with rfl | hdeletes
      · exact hnothing nofun nofun
      · exact .deleted rfl hdeletes
    next => exact hnothing nofun nofun
  | claim process userId now locked =>
    simp only [World.commit]
    split
    next hidle =>
      split
      next s' job h =>
        obtain ⟨source, hsource, hclaimable, hid, hattempt, rfl⟩ := claimNextProcessing_ok h
        exact .claimed rfl hidle hsource hclaimable hid hattempt
      next => exact hnothing nofun nofun
      next => exact hnothing nofun nofun
    next => exact hnothing nofun nofun
  | heartbeat process now =>
    simp only [World.commit]
    split
    next hactivity => exact .renewed rfl (by rw [hactivity]; rfl)
    next hactivity => exact .renewed rfl (by rw [hactivity]; rfl)
    next hactivity => exact .renewed rfl (by rw [hactivity]; rfl)
    next => exact hnothing nofun nofun
  | complete process drawn now =>
    simp only [World.commit]
    split
    next job content hactivity =>
      split
      next s' success h =>
        cases success with
        | true => exact .completed rfl hactivity (completeProcessing_ok h)
        | false =>
          obtain rfl := completeProcessing_lost h
          exact hnothing nofun fun _ _ h => Bool.false_ne_true (Reply.completed.inj h).2.2
      next => exact hnothing nofun nofun
    next => exact hnothing nofun nofun
  | fail process now =>
    simp only [World.commit]
    split
    next job failure hactivity => exact .failed rfl hactivity
    next => exact hnothing nofun nofun
  | purge process lease now reached locked =>
    simp only [World.commit]
    split
    next hidle =>
      split
      next s' key h => exact .purged rfl hidle (purgeFile_ok h)
      next s' h => exact .purged rfl hidle (purgeFile_ok h)
      next => exact hnothing nofun nofun
    next => exact hnothing nofun nofun
  | other change hforeign => exact .foreign rfl
  | put process upload name size contentHash stamp =>
    simp only [World.commit]
    split
    · split <;> exact hnothing nofun nofun
    · exact hnothing nofun nofun
  | parse process result =>
    simp only [World.commit]
    split
    · split
      · exact hnothing nofun nofun
      · split <;> exact hnothing nofun nofun
    · exact hnothing nofun nofun
  | sweep process limit =>
    simp only [World.commit]
    split
    · split <;> exact hnothing nofun nofun
    · exact hnothing nofun nofun
    · exact hnothing nofun nofun
  | refuse | cleanUp | erase | readKeys | listObjects =>
    simp only [World.commit]
    split <;> exact hnothing nofun nofun
  | crash process => exact hnothing nofun nofun

/-- What a deletion writes, where it writes anything. -/
theorem writes_deleteFile {c : DeleteFile} {fresh : ℕ → Stamp}
    {reply : Reply} (h : Writes settings op view w s reply) (hop : op = .deleteFile c fresh) :
    s = w.toState ∨ Deletes c fresh (fun n => (view n).toState) w.toState s := by
  subst hop
  cases h with
  | nothing => exact .inl rfl
  | deleted hop hdeletes =>
    obtain ⟨rfl, rfl⟩ := Op.deleteFile.inj hop
    exact .inr hdeletes
  | uploaded hop | claimed hop | renewed hop | completed hop | failed hop | purged hop
    | foreign hop => cases hop

/-- A step that moves one process leaves the others at what they are at. -/
theorem activityMove_update {process p : UUID} {a activity : Activity}
    (hactivity : w.activities process = a)
    (h : ActivityMove settings op view w process a activity) :
    ActivityMove settings op view w p (w.activities p)
      (Function.update w.activities process activity p) := by
  by_cases hsame : p = process
  · subst hsame
    rw [Function.update_self, hactivity]
    exact h
  · rw [Function.update_of_ne hsame]
    exact .kept

variable (cal settings op view) in
theorem commit_activity (p : UUID) : ActivityMove settings op view w p (w.activities p)
    ((World.commit cal settings op view w).1.activities p) := by
  cases op with
  | put process upload name size contentHash stamp =>
    simp only [World.commit]
    split
    next hidle =>
      split
      · exact activityMove_update hidle (.put rfl)
      · exact .kept
      · exact .kept
    next => exact .kept
  | refuse process upload name =>
    simp only [World.commit]
    split
    next hidle => exact activityMove_update hidle (.refused rfl)
    next => exact .kept
  | addUpload process attachment =>
    simp only [World.commit]
    split
    next source hactivity =>
      split
      next s h => exact activityMove_update hactivity (.added rfl h)
      next => exact activityMove_update hactivity (.notAdded rfl)
    next => exact .kept
  | cleanUp process =>
    simp only [World.commit]
    split
    next key hactivity => exact activityMove_update hactivity (.cleanedUp rfl)
    next => exact .kept
  | deleteFile c fresh =>
    simp only [World.commit]
    split <;> exact .kept
  | claim process userId now locked =>
    simp only [World.commit]
    split
    next hidle =>
      split
      next s job h => exact activityMove_update hidle (.claimed rfl h)
      next => exact .kept
      next => exact .kept
    next => exact .kept
  | heartbeat process now =>
    simp only [World.commit]
    split
    next job hactivity => exact activityMove_update hactivity (.renewed rfl)
    next => exact .kept
    next => exact .kept
    next => exact .kept
  | parse process result =>
    simp only [World.commit]
    split
    next job leaseLost hactivity =>
      split
      next failure => exact activityMove_update hactivity (.raised rfl)
      next content =>
        cases leaseLost with
        | true => exact activityMove_update hactivity (.lost rfl)
        | false => exact activityMove_update hactivity (.parsed rfl)
    next => exact .kept
  | complete process drawn now =>
    simp only [World.commit]
    split
    next job content hactivity =>
      split
      next s success h => exact activityMove_update hactivity (.completed rfl h)
      next => exact activityMove_update hactivity (.notCompleted rfl)
    next => exact .kept
  | fail process now =>
    simp only [World.commit]
    split
    next job failure hactivity => exact activityMove_update hactivity (.failed rfl)
    next => exact .kept
  | purge process lease now reached locked =>
    simp only [World.commit]
    split
    next hidle =>
      split
      next s key h => exact activityMove_update hidle (.purged rfl h)
      next => exact .kept
      next => exact .kept
    next => exact .kept
  | erase process =>
    simp only [World.commit]
    split
    next key hactivity => exact activityMove_update hactivity (.erased rfl)
    next => exact .kept
  | readKeys process =>
    simp only [World.commit]
    split
    next hidle => exact activityMove_update hidle (.scanned rfl)
    next => exact .kept
  | listObjects process order =>
    simp only [World.commit]
    split
    next known hactivity => exact activityMove_update hactivity (.listed rfl)
    next => exact .kept
  | sweep process limit =>
    simp only [World.commit]
    split
    next known key found removed hactivity =>
      split
      · exact activityMove_update hactivity (.swept rfl)
      · split
        · exact activityMove_update hactivity (.stopped rfl)
        · exact activityMove_update hactivity (.swept rfl)
    next known removed hactivity => exact activityMove_update hactivity (.stopped rfl)
    next => exact .kept
  | crash process => exact activityMove_update rfl (.crashed rfl)
  | other change hforeign => exact .kept

theorem objectKey_source {upload : UploadFile} {sourceType : SourceType} {name : UUID} {size : ℕ}
    {contentHash : String} {stamp : Stamp} :
    (upload.source settings sourceType name size contentHash stamp).objectKey =
      upload.objectKey name := by
  unfold UploadFile.source
  split <;> rfl

variable (cal settings op view) in
theorem commit_objects : ObjectMove op w (World.commit cal settings op view w).1.objects := by
  cases op with
  | put process upload name size contentHash stamp =>
    simp only [World.commit]
    split
    · split
      · rw [objectKey_source]
        exact .put rfl
      · exact .kept
      · exact .kept
    · exact .kept
  | cleanUp process =>
    simp only [World.commit]
    split
    next key hactivity => exact .cleanedUp rfl hactivity
    next => exact .kept
  | erase process =>
    simp only [World.commit]
    split
    next key hactivity => exact .erased rfl hactivity
    next => exact .kept
  | sweep process limit =>
    simp only [World.commit]
    split
    next known key found removed hactivity =>
      split
      · exact .kept
      next hkey => exact .swept rfl hactivity fun hknown => hkey (.inl hknown)
    next => exact .kept
    next => exact .kept
  | addUpload | claim | complete | purge =>
    simp only [World.commit]
    split
    · split <;> exact .kept
    · exact .kept
  | parse process result =>
    simp only [World.commit]
    split
    · split
      · exact .kept
      · split <;> exact .kept
    · exact .kept
  | refuse | deleteFile | heartbeat | fail | readKeys | listObjects =>
    simp only [World.commit]
    split <;> exact .kept
  | crash | other => exact .kept

/-! ## What becomes of the Sources -/

/-- The row of a Source by its id. -/
theorem source_eq {t : Table Source} {r r' : Source} (hr : r ∈ t) (hr' : r' ∈ t)
    (h : r.id = r'.id) : r = r' := eq_of_conflict hr hr' (.inl h)

theorem writes_sources {reply : Reply} (h : Writes settings op view w s reply) :
    Grows (SourceMove settings op view w) (Uploaded op w) w.sources s.sources := by
  have hrefl : ∀ r, SourceMove settings op view w r r := fun r => .kept
  cases h with
  | nothing => exact .refl hrefl _
  | uploaded hop hactivity hsources =>
    exact .insert? hrefl ⟨_, _, hop, hactivity⟩ hsources
  | deleted hop hdeletes =>
    obtain ⟨loaded, hloaded, hsources⟩ := hdeletes.loaded
    rw [hsources]
    exact .update hrefl fun r _ hid => .deleted hop hdeletes.new hloaded (of_decide_eq_true hid)
  | claimed hop hidle hsource hclaimable =>
    refine .update hrefl fun r hr hid => ?_
    obtain rfl := source_eq hr hsource (of_decide_eq_true hid)
    exact .claimed hop hidle hclaimable
  | renewed hop hjob => exact .update hrefl fun r _ hheld => .renewed hop hjob hheld
  | completed hop hactivity hcompletes =>
    obtain ⟨normalized, chunks, -, -, hsources, -⟩ := hcompletes.parsed
    rw [hsources]
    exact .update hrefl fun r _ hheld => .completed hop hactivity hheld
  | failed hop hactivity =>
    exact .update hrefl fun r _ hheld => .failed hop hactivity rfl hheld
  | purged hop hidle hpurged =>
    have hsame : s.sources = w.sources := by
      cases hpurged with
      | rolledBack => rfl
      | passed => rfl
      | purged _ _ _ _ hsame => rw [hsame]
    rw [hsame]
    exact .refl hrefl _
  | @foreign change hforeign hop =>
    rw [(hforeign w.toState).sources]
    exact .refl hrefl _

/-! ## New Sources -/

/-- A Source that nobody claimed yet. -/
structure Source.IsNew (r : Source) : Prop where
  deletedAt : r.deletedAt = none
  extractedText : r.extractedText = none
  status : r.processingStatus ≠ .ready
  claimOwner : r.processingClaimOwner = none
  attempts : r.processingAttemptCount = 0
  retry : r.nextProcessingAttemptAt = none

theorem UploadFile.source_isNew {upload : UploadFile} {sourceType : SourceType} {name : UUID}
    {size : ℕ} {contentHash : String} {stamp : Stamp} :
    (upload.source settings sourceType name size contentHash stamp).IsNew := by
  unfold UploadFile.source
  split
  · exact ⟨rfl, rfl, nofun, rfl, rfl, rfl⟩
  · exact ⟨rfl, rfl, nofun, rfl, rfl, rfl⟩

/-- What an upload is about to add is new. -/
def NewUploads (w : World) : Prop :=
  ∀ process source, w.activities process = .stored source → source.IsNew

theorem newUploads_step (hnew : NewUploads w) :
    NewUploads (World.commit cal settings op view w).1 := by
  intro process source hstored
  have hmove := commit_activity cal settings op view
    (w := w) process
  rw [hstored] at hmove
  generalize hbefore : w.activities process = a at hmove
  cases hmove with
  | kept => exact hnew process source hbefore
  | put => exact UploadFile.source_isNew

/-! ## Over time -/

/-- What a Source stays, and what it does not take back. -/
structure Source.Later (r r' : Source) : Prop where
  id : r'.id = r.id
  userId : r'.userId = r.userId
  objectKey : r'.objectKey = r.objectKey
  mimeType : r'.mimeType = r.mimeType
  attempts : r.processingAttemptCount ≤ r'.processingAttemptCount
  deleted : r.deletedAt.isSome = true → r'.deletedAt.isSome = true

theorem Source.Later.refl (r : Source) : r.Later r :=
  ⟨rfl, rfl, rfl, rfl, le_rfl, fun hdeleted => hdeleted⟩

theorem Source.Later.trans (r r' r'' : Source) (h : r.Later r') (h' : r'.Later r'') :
    r.Later r'' where
  id := h'.id.trans h.id
  userId := h'.userId.trans h.userId
  objectKey := h'.objectKey.trans h.objectKey
  mimeType := h'.mimeType.trans h.mimeType
  attempts := h.attempts.trans h'.attempts
  deleted hdeleted := h'.deleted (h.deleted hdeleted)

theorem SourceMove.later {r r' : Source} (h : SourceMove settings op view w r r') :
    r.Later r' := by
  cases h with
  | kept => exact .refl r
  | deleted hop hnew hloaded hid =>
    refine ⟨rfl, rfl, rfl, rfl, le_rfl, fun hdeleted => ?_⟩
    simp only [SourceRepository.deletedValues, SourceRepository.flushed]
    split
    · exact hdeleted
    · rfl
  | claimed => exact ⟨rfl, rfl, rfl, rfl, Nat.le_succ _, id⟩
  | renewed | completed | failed => exact ⟨rfl, rfl, rfl, rfl, le_rfl, id⟩

/-- Every Source stays, and takes nothing back. -/
def SourcesLater (w w' : World) : Prop := Evolves Source.id Source.Later w.sources w'.sources

theorem stable_sources {ok : Op → (ℕ → World) → World → Prop} :
    Program.Stable (system cal settings) ok NewUploads SourcesLater where
  init w hw := by
    obtain rfl : w = {} := hw
    exact fun _ _ h => nomatch h
  refl w := Evolves.refl Source.Later.refl w.sources
  trans _ _ _ := Evolves.trans Source.Later.trans
  step op view w hnew _ _ := by
    refine ⟨newUploads_step hnew, fun r hr => ?_⟩
    obtain ⟨r', hr', hmove⟩ := (writes_sources (commit_writes ..)).kept r hr
    exact ⟨r', hr', hmove.later.id, hmove.later⟩

end Sources
