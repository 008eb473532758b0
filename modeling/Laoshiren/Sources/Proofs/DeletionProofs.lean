import Laoshiren.PersonalState.Proofs.AuditProofs
import Laoshiren.Sources.Proofs.ChunkingProofs
import Laoshiren.Sources.Proofs.WriteProofs

/-!
# Proofs: what is left of a deleted Source

A deletion loads the Source and flushes it later, and the flush leaves those columns alone that it loaded
with the value that it sets. So what a worker writes in between stays. Where the deletion loads the columns
as they are, the Source is out of every worker's reach, and its text stays gone.
-/

namespace Sources

open Runtime Raise Table
open PersonalState (Calendar DeleteFile)

variable {cal : Calendar} {settings : Settings} {op : Op} {view : ℕ → World} {w : World}
  {s : State} {r r' : Source} {reply : Reply}

/-! ## What is left -/

/-- Nothing is left of the text of a Source. -/
structure Gone (s : State) (sourceId : UUID) : Prop where
  text : ∀ r ∈ s.sources, r.id = sourceId → r.extractedText = none
  chunks : ∀ chunk ∈ s.chunks, chunk.sourceId ≠ sourceId
  segments : ∀ segment ∈ s.segments, segment.fileId ≠ sourceId

/-- A deleted Source waits for no worker, and nothing is left of its text. -/
def Erased (s : State) : Prop :=
  ∀ r ∈ s.sources, r.deletedAt.isSome = true → r.processingStatus ≠ .pending ∧ Gone s r.id

/-- A deletion that is no replay loads the Source so that its flush leaves no text that was extracted
since, and no claim since of a Source that had failed. -/
def Op.LoadsCurrent (op : Op) (view : ℕ → World) (w : World) : Prop :=
  ∀ c fresh, op = .deleteFile c fresh →
    PersonalState.AuditRepository.getMutation c.userId c.idempotencyKey (view 0).mutations = none →
    ∀ loaded, SourceRepository.get c.userId c.sourceId (view 2).sources = some loaded →
    ∀ r ∈ w.sources, r.id = c.sourceId →
      (loaded.extractedText = none → r.extractedText = none) ∧
        (loaded.processingStatus = .failed → r.processingStatus ≠ .pending)

/-! ## Chunks and segments -/

/-- The answer of a `complete_processing` that completed the Source. -/
def Reply.completes (sourceId : UUID) : Reply → Bool
  | .completed id _ true => id = sourceId
  | _ => false

/-- A chunk was there, or a worker that holds its Source adds it. -/
theorem writes_chunks (h : Writes settings op view w s reply) {chunk : SourceChunk}
    (hchunk : chunk ∈ s.chunks) : chunk ∈ w.chunks ∨ reply.completes chunk.sourceId = true ∧
      ∃ r ∈ w.sources, r.id = chunk.sourceId ∧ r.processingStatus = .pending := by
  cases h with
  | nothing | claimed | renewed | failed => exact .inl hchunk
  | uploaded hop hactivity hsources hfiles hsame =>
    rw [hsame] at hchunk
    exact .inl hchunk
  | deleted hop hdeletes =>
    rw [hdeletes.chunks] at hchunk
    exact .inl (mem_delete.mp hchunk).1
  | completed hop hactivity hcompletes =>
    obtain ⟨normalized, chunks, -, hchunks, -, htable, -⟩ := hcompletes.parsed
    rcases (mem_insertAll? htable).mp hchunk with hold | hadded
    · exact .inl hold
    · obtain ⟨r, hr, hheld⟩ := hcompletes.held
      obtain ⟨hid, hpending, -⟩ := of_decide_eq_true hheld
      have hsource := (processedChunks_sourceId hchunks hadded).symm
      exact .inr ⟨decide_eq_true hsource, r, hr, hid.trans hsource, hpending⟩
  | purged hop hidle hpurged =>
    cases hpurged with
    | rolledBack | passed => exact .inl hchunk
    | purged hjob hpurges hjobs hsettled hsame =>
      rw [hsame] at hchunk
      exact .inl hchunk
  | @foreign change hforeign hop =>
    rw [(hforeign w.toState).chunks] at hchunk
    exact .inl hchunk

/-- A segment was there, or a worker that holds its Source adds it. -/
theorem writes_segments (h : Writes settings op view w s reply) {segment : RetrievalSegment}
    (hsegment : segment ∈ s.segments) : segment ∈ w.segments ∨
      reply.completes segment.fileId = true ∧
        ∃ r ∈ w.sources, r.id = segment.fileId ∧ r.processingStatus = .pending := by
  cases h with
  | nothing | claimed | renewed | failed => exact .inl hsegment
  | uploaded hop hactivity hsources hfiles hsame =>
    rw [hsame] at hsegment
    exact .inl hsegment
  | deleted hop hdeletes =>
    rw [hdeletes.segments] at hsegment
    exact .inl (mem_delete.mp hsegment).1
  | completed hop hactivity hcompletes =>
    obtain ⟨normalized, chunks, -, -, -, -, -, hsegments⟩ := hcompletes.parsed
    rcases (mem_insertAll? hsegments).mp hsegment with hold | hadded
    · exact .inl (mem_delete.mp hold).1
    · obtain ⟨r, hr, hheld⟩ := hcompletes.held
      obtain ⟨hid, hpending, -⟩ := of_decide_eq_true hheld
      have hfile := (segmentsOf_fileId hadded).1.symm
      exact .inr ⟨decide_eq_true hfile, r, hr, hid.trans hfile, hpending⟩
  | purged hop hidle hpurged =>
    cases hpurged with
    | rolledBack | passed => exact .inl hsegment
    | purged hjob hpurges hjobs hsettled hsame =>
      rcases hpurges.result.2 with hsame | hsame
      · rw [hsame] at hsegment
        exact .inl hsegment
      · rw [hsame] at hsegment
        exact .inl (mem_delete.mp hsegment).1
  | @foreign change hforeign hop =>
    rw [(hforeign w.toState).segments] at hsegment
    exact .inl hsegment

/-! ## One step -/

/-- What is gone stays gone where no worker holds the Source. -/
theorem Gone.step (h : Writes settings op view w s reply) (hr : r ∈ w.sources)
    (hstatus : r.processingStatus ≠ .pending) (hgone : Gone w.toState r.id)
    (htext : ∀ r' ∈ s.sources, r'.id = r.id → r'.extractedText = none) : Gone s r.id where
  text := htext
  chunks chunk hchunk hid := by
    rcases writes_chunks h hchunk with hold | ⟨-, r₀, hr₀, hid₀, hpending⟩
    · exact hgone.chunks chunk hold hid
    · obtain rfl := source_eq hr hr₀ (hid.symm.trans hid₀.symm)
      exact hstatus hpending
  segments segment hsegment hid := by
    rcases writes_segments h hsegment with hold | ⟨-, r₀, hr₀, hid₀, hpending⟩
    · exact hgone.segments segment hold hid
    · obtain rfl := source_eq hr hr₀ (hid.symm.trans hid₀.symm)
      exact hstatus hpending

theorem flushed_same {α : Type} [DecidableEq α] {loaded new current : α} (p : α → Prop)
    (hnew : p new) (hcurrent : loaded = new → p current) :
    p (SourceRepository.flushed loaded new current) := by
  unfold SourceRepository.flushed
  split
  next hsame => exact hcurrent hsame.symm
  next => exact hnew

/-- A deletion that loads the Source as it is leaves nothing of its text. -/
theorem gone_of_deletes {c : DeleteFile} {fresh : ℕ → Stamp} (hcurrent : op.LoadsCurrent view w)
    (hop : op = .deleteFile c fresh)
    (hdeletes : Deletes c fresh (fun n => (view n).toState) w.toState s) (hr' : r' ∈ s.sources)
    (hid : r'.id = c.sourceId) : r'.processingStatus ≠ .pending ∧ Gone s r'.id := by
  obtain ⟨loaded, hloaded, hsources⟩ := hdeletes.loaded
  have hrow : ∀ r' ∈ s.sources, r'.id = c.sourceId →
      r'.processingStatus ≠ .pending ∧ r'.extractedText = none := by
    intro r' hr' hid
    rw [hsources] at hr'
    rcases mem_update_cases _ hr' with ⟨r, hr, hwhere, rfl⟩ | ⟨-, hwhere⟩
    · obtain ⟨htext, hstatus⟩ :=
        hcurrent c fresh hop hdeletes.new loaded hloaded r hr (of_decide_eq_true hwhere)
      have hpending : ProcessingStatus.failed ≠ .pending := nofun
      exact ⟨flushed_same (· ≠ ProcessingStatus.pending) hpending hstatus,
        flushed_same (· = none) rfl htext⟩
    · exact absurd hid (of_decide_eq_false hwhere)
  refine ⟨(hrow r' hr' hid).1, fun r hr hsame => (hrow r hr (hsame.trans hid)).2, ?_, ?_⟩
  · intro chunk hchunk hsame
    rw [hdeletes.chunks] at hchunk
    exact of_decide_eq_false (mem_delete.mp hchunk).2 (hsame.trans hid)
  · intro segment hsegment hsame
    rw [hdeletes.segments] at hsegment
    exact of_decide_eq_false (mem_delete.mp hsegment).2 (hsame.trans hid)

theorem Erased.step (h : Writes settings op view w s reply) (herased : Erased w.toState)
    (hnew : NewUploads w) (hcurrent : op.LoadsCurrent view w) : Erased s := by
  intro r' hr' hdeleted
  have hkept : ∀ r ∈ w.sources, r ∈ s.sources → r.deletedAt.isSome = true →
      r.processingStatus ≠ .pending ∧ Gone s r.id := by
    intro r hr hr' hdeleted
    obtain ⟨hstatus, hgone⟩ := herased r hr hdeleted
    refine ⟨hstatus, hgone.step h hr hstatus fun r₀ hr₀ hid => ?_⟩
    rw [source_eq hr₀ hr' hid]
    exact hgone.text r hr rfl
  have hopen : ∀ r ∈ w.sources, r.deletedAt.isSome = true → ∀ jobId owner,
      SourceRepository.claimedBy jobId owner r ≠ true := fun r hr hdeleted jobId owner hheld =>
    (herased r hr hdeleted).1 (of_decide_eq_true hheld).2.1
  rcases (writes_sources h).origin r' hr' with ⟨r, hr, hmove⟩ | ⟨process, attachment, -, hstored⟩
  · cases hmove with
    | kept => exact hkept r' hr hr' hdeleted
    | deleted hop _ _ hid =>
      rcases writes_deleteFile h hop with rfl | hdeletes
      · exact herased _ hr' hdeleted
      · exact gone_of_deletes hcurrent hop hdeletes hr' hid
    | claimed hop hidle hclaimable =>
      have hlive : r.deletedAt = none := (of_decide_eq_true hclaimable).1
      have hdeleted : r.deletedAt.isSome = true := hdeleted
      rw [hlive] at hdeleted
      cases hdeleted
    | renewed hop hjob hheld => exact absurd hheld (hopen r hr hdeleted _ _)
    | completed hop hactivity hheld => exact absurd hheld (hopen r hr hdeleted _ _)
    | failed hop hactivity hretry hheld => exact absurd hheld (hopen r hr hdeleted _ _)
  · rw [(hnew process r' hstored).deletedAt] at hdeleted
    cases hdeleted

/-! ## Every run -/

theorem stable_erased : Program.Stable (system cal settings)
    (fun op view w => op.LoadsCurrent view w) (fun w => NewUploads w ∧ Erased w.toState)
    SourcesLater := by
  refine stable_sources.strengthen (fun w => Erased w.toState) ?_ ?_
  · intro w hw
    obtain rfl : w = {} := hw
    exact fun r hr => absurd hr not_mem_empty
  · intro op view w hnew herased _ hok
    exact Erased.step (commit_writes ..) herased hnew hok

/-- Where no deletion loads a Source that is parsed or claimed before the deletion is flushed, nothing is
left of the text of a deleted Source, and nothing of it comes back. -/
theorem deleted_text_is_gone {h : History World Op Reply}
    (hreachable : (system cal settings).ReachableIf (fun op view w => op.LoadsCurrent view w) h)
    {i j : Fin h.states.length} (hij : i ≤ j) (hr : r ∈ (h.stateAt i).sources)
    (hdeleted : r.deletedAt.isSome = true) :
    (∃ r' ∈ (h.stateAt j).sources, r'.id = r.id ∧ r'.deletedAt.isSome = true) ∧
      Gone (h.stateAt j).toState r.id := by
  obtain ⟨r', hr', hid, hlater⟩ := stable_erased.rel_stateAt hreachable hij r hr
  have hgone := ((stable_erased.inv_mem hreachable (h.stateAt_mem j)).2 r'
    hr' (hlater.deleted hdeleted)).2
  rw [hid] at hgone
  exact ⟨⟨r', hr', hid, hlater.deleted hdeleted⟩, hgone⟩

/-! ## A deletion while the text is parsed -/

/-- A deletion that reads the state that it commits on loads the Source as it is. -/
theorem Op.loadsCurrent_same (op : Op) (w : World) : op.LoadsCurrent (fun _ => w) w := by
  intro c fresh _ _ loaded hloaded r hr hid
  obtain ⟨hmem, hwhere⟩ := get_eq_some hloaded
  obtain rfl := source_eq hr hmem (hid.trans (of_decide_eq_true hwhere).1.symm)
  refine ⟨fun htext => htext, fun hfailed hpending => ?_⟩
  rw [hfailed] at hpending
  cases hpending

/-- A note that user 1 uploads. -/
def note : UploadFile where
  userId := 1
  safeName := "note.txt"
  extension := ".txt"
  mimeType := "text/plain"
  idempotencyKey := "note"

/-- A worker may try two times, for ten seconds each. -/
def twoAttempts : Settings where
  lease := 10
  maxAttempts := 2
  retryBase := 5
  retryMax := 60
  lease_pos := by decide
  maxAttempts_pos := by decide
  retryBase_pos := by decide
  retryMax_pos := by decide

/-- The note is stored under the name 7, and Source 10 is added for it. -/
def uploadNote : List Op :=
  [.put 1 note 7 2 "hash" ⟨10, 0⟩, .addUpload 1 (pure ())]

/-- Worker 2 claims the note and parses it. -/
def parseNote : List Op :=
  [.claim 2 none 1 fun _ => false, .parse 2 (.ok ⟨"hi", []⟩)]

/-- What worker 2 draws for the note. -/
def noteDrawn : Processing where
  chunks := Runtime.stampsFrom 20 2
  generation := ⟨30, 2⟩
  segments := Runtime.stampsFrom 40 2
  embeddings := []

/-- User 1 deletes the note. -/
def deleteNote : Op :=
  .deleteFile ⟨1, 10, "a-1", "delete-note", "Not needed any more."⟩ (Runtime.stampsFrom 50 3)

/-- The note is deleted after it was parsed. -/
def deletedAfter : History World Op Reply :=
  (system PersonalState.tallies twoAttempts).serial {}
    (uploadNote ++ parseNote ++ [.complete 2 noteDrawn 2, deleteNote])

/-- Nothing is left of the note that was parsed and then deleted. -/
theorem deleted_text_is_gone_after :
    ∃ r ∈ (deletedAfter.stateAt ⟨6, by decide⟩).sources, r.deletedAt.isSome = true ∧
      (∃ r' ∈ (deletedAfter.stateAt ⟨6, by decide⟩).sources, r'.id = r.id ∧
        r'.deletedAt.isSome = true) ∧
      Gone (deletedAfter.stateAt ⟨6, by decide⟩).toState r.id := by
  have hreachable : (system PersonalState.tallies twoAttempts).ReachableIf
      (fun op view w => op.LoadsCurrent view w) deletedAfter :=
    (system _ _).serial_reachableIf rfl _
      ((system _ _).serialMeets_of_same (fun op _ w => op.loadsCurrent_same w) _)
  have hrow : ∃ r ∈ (deletedAfter.stateAt ⟨6, by decide⟩).sources.rows,
      r.deletedAt.isSome = true := by
    decide +kernel
  obtain ⟨r, hr, hdeleted⟩ := hrow
  exact ⟨r, hr, hdeleted, deleted_text_is_gone hreachable (le_refl _) hr hdeleted⟩

/-- The deletion loads the note while worker 2 parses it, and is flushed after worker 2 completed it. -/
def deletedBetween : History World Op Reply :=
  (system PersonalState.tallies twoAttempts).extend
    ((system PersonalState.tallies twoAttempts).serial {}
      (uploadNote ++ parseNote ++ [.complete 2 noteDrawn 2]))
    deleteNote fun _ => ((system PersonalState.tallies twoAttempts).serial {}
      (uploadNote ++ parseNote)).cur

/-- The text of the note outlives its deletion. -/
theorem deleted_text_is_left :
    (system PersonalState.tallies twoAttempts).Reachable deletedBetween ∧
      ∃ r ∈ deletedBetween.cur.sources, r.deletedAt.isSome = true ∧ r.extractedText = some "hi" := by
  constructor
  · refine .commit ((system _ _).serial_reachable rfl _) _ _ (fun n => ?_) trivial
    exact .tail _ (.head _)
  · have hrow : ∃ r ∈ deletedBetween.cur.sources.rows,
        r.deletedAt.isSome = true ∧ r.extractedText = some "hi" := by
      decide +kernel
    exact hrow

end Sources
