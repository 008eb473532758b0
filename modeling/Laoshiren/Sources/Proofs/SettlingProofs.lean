import Laoshiren.Sources.Proofs.ExhaustionProofs
import Laoshiren.Sources.Proofs.FileProofs

/-!
# Proofs: the parsing of a Source settles once

The answers of a history tell which workers completed a Source. A Source that waits, or that failed, was
completed by none, and what is stored for one that is ready is what the one winner made of its text.
-/

namespace Sources

open Runtime Raise Table
open PersonalState (Calendar)

variable {cal : Calendar} {settings : Settings} {op : Op} {view : ℕ → World} {w : World}
  {s : State} {r r' : Source} {job : SourceProcessingJob} {process sourceId : UUID} {reply : Reply}
  {replies : List (Op × Reply)} {content : ParsedSourceContent} {drawn : Processing}
  {h : History World Op Reply}

/-! ## What is stored -/

/-- The completions of a Source, latest first. -/
def completions (replies : List (Op × Reply)) (sourceId : UUID) : List (Op × Reply) :=
  replies.filter fun entry => entry.2.completes sourceId

/-- What is stored for a Source is what a worker made of the text that it parsed. -/
structure Stored (settings : Settings) (s : State) (r : Source) (content : ParsedSourceContent)
    (drawn : Processing) : Prop where
  text : ∃ normalized chunks, content.normalized = .ok normalized ∧
    processedChunks settings r.id normalized drawn.embeddings drawn.chunks = .ok chunks ∧
    r.extractedText = some normalized.text ∧
    s.chunks.select (fun chunk => chunk.sourceId = r.id) = chunks ∧
    s.segments.select (fun segment => segment.fileId = r.id) =
      segmentsOf r.id drawn.generation.id chunks drawn.segments
  generation : s.generations.select (fun generation => generation.fileId = r.id ∧
    generation.isActive = true) = [newGeneration settings r.id drawn.generation]
  apart : ∀ segment ∈ s.segments, segment.generationId = drawn.generation.id → segment.fileId = r.id

/-- Nothing is stored for a Source. -/
structure Unparsed (s : State) (sourceId : UUID) : Prop where
  chunks : ∀ chunk ∈ s.chunks, chunk.sourceId ≠ sourceId
  generations : ∀ generation ∈ s.generations, generation.fileId ≠ sourceId
  segments : ∀ segment ∈ s.segments, segment.fileId ≠ sourceId

/-- The answers so far, and what is stored. -/
structure Settling (settings : Settings) (replies : List (Op × Reply)) (s : State) : Prop where
  open_ : ∀ r ∈ s.sources, r.processingStatus = .pending ∨
    r.deletedAt = none ∧ r.processingStatus ≠ .ready → completions replies r.id = []
  known : ∀ sourceId, completions replies sourceId ≠ [] → ∃ r ∈ s.sources, r.id = sourceId
  once : ∀ sourceId, (completions replies sourceId).length ≤ 1
  unparsed : ∀ sourceId, completions replies sourceId = [] → Unparsed s sourceId
  won : ∀ r ∈ s.sources, r.deletedAt = none → r.processingStatus = .ready →
    ∃ process drawn now content, completions replies r.id =
        [(.complete process drawn now, .completed r.id content true)] ∧
      Stored settings s r content drawn

theorem completions_cons_of_not (hreply : reply.completes sourceId ≠ true) :
    completions ((op, reply) :: replies) sourceId = completions replies sourceId :=
  List.filter_cons_of_neg hreply

theorem completions_cons (hreply : reply.completes sourceId = true) :
    completions ((op, reply) :: replies) sourceId = (op, reply) :: completions replies sourceId :=
  List.filter_cons_of_pos hreply

/-! ## Generations -/

/-- A generation was there, or a worker that completes the Source adds it. -/
theorem writes_generations (h : Writes settings op view w s reply)
    {generation : FileProcessingGeneration} (hgeneration : generation ∈ s.generations) :
    (∃ g ∈ w.generations, g.id = generation.id ∧ g.fileId = generation.fileId) ∨
      reply.completes generation.fileId = true := by
  have hkept : generation ∈ w.generations →
      (∃ g ∈ w.generations, g.id = generation.id ∧ g.fileId = generation.fileId) ∨
        reply.completes generation.fileId = true :=
    fun hold => .inl ⟨generation, hold, rfl, rfl⟩
  cases h with
  | nothing | claimed | renewed | failed => exact hkept hgeneration
  | uploaded hop hactivity hsources hfiles hsame =>
    rw [hsame] at hgeneration
    exact hkept hgeneration
  | deleted hop hdeletes =>
    rw [hdeletes.generations] at hgeneration
    exact hkept hgeneration
  | completed hop hactivity hcompletes =>
    obtain ⟨normalized, chunks, -, -, -, -, hgenerations, -⟩ := hcompletes.parsed
    rcases (mem_insert? hgenerations).mp hgeneration with hold | rfl
    · obtain ⟨g, hg, hmoved⟩ := mem_update.mp hold
      refine .inl ⟨g, hg, ?_⟩
      rw [← hmoved]
      unfold updateRow
      split <;> exact ⟨rfl, rfl⟩
    · exact .inr (decide_eq_true rfl)
  | purged hop hidle hpurged =>
    cases hpurged with
    | rolledBack | passed => exact hkept hgeneration
    | purged hjob hpurges hjobs hsettled hsame =>
      rw [hsame] at hgeneration
      exact hkept hgeneration
  | @foreign change hforeign hop =>
    rw [(hforeign w.toState).generations] at hgeneration
    exact hkept hgeneration

theorem Unparsed.step (h : Unparsed w.toState sourceId)
    (hwrites : Writes settings op view w s reply) (hreply : reply.completes sourceId ≠ true) :
    Unparsed s sourceId where
  chunks chunk hchunk hid := by
    rcases writes_chunks hwrites hchunk with hold | ⟨hcompletes, -⟩
    · exact h.chunks chunk hold hid
    · rw [hid] at hcompletes
      exact hreply hcompletes
  generations generation hgeneration hid := by
    rcases writes_generations hwrites hgeneration with ⟨g, hg, -, hfile⟩ | hcompletes
    · exact h.generations g hg (hfile.trans hid)
    · rw [hid] at hcompletes
      exact hreply hcompletes
  segments segment hsegment hid := by
    rcases writes_segments hwrites hsegment with hold | ⟨hcompletes, -⟩
    · exact h.segments segment hold hid
    · rw [hid] at hcompletes
      exact hreply hcompletes

/-! ## A Source that is ready -/

theorem Stored.mem_segments (h : Stored settings s r content drawn) {segment : RetrievalSegment}
    (hsegment : segment ∈ s.segments) (hfile : segment.fileId = r.id) :
    segment.generationId = drawn.generation.id := by
  obtain ⟨_, _, -, -, -, -, hsegments⟩ := h.text
  have hmem : segment ∈ s.segments.select fun segment => segment.fileId = r.id :=
    mem_select.mpr ⟨hsegment, decide_eq_true hfile⟩
  rw [hsegments] at hmem
  exact (segmentsOf_fileId hmem).2

theorem Stored.mem_generation (h : Stored settings s r content drawn) :
    newGeneration settings r.id drawn.generation ∈ s.generations := by
  have hmem : newGeneration settings r.id drawn.generation ∈ s.generations.select
      fun generation => generation.fileId = r.id ∧ generation.isActive = true := by
    rw [h.generation]
    exact .head _
  exact (mem_select.mp hmem).1

/-- What is stored for a Source stays, where the rows that are kept for it do. -/
theorem Stored.of_select {s' : State} (h : Stored settings s r content drawn)
    (hchunks : s'.chunks.select (fun chunk => chunk.sourceId = r.id) =
      s.chunks.select fun chunk => chunk.sourceId = r.id)
    (hgenerations : s'.generations.select (fun generation => generation.fileId = r.id ∧
        generation.isActive = true) =
      s.generations.select fun generation => generation.fileId = r.id ∧ generation.isActive = true)
    (hsegments : s'.segments.select (fun segment => segment.fileId = r.id) =
      s.segments.select fun segment => segment.fileId = r.id)
    (hapart : ∀ segment ∈ s'.segments, segment.generationId = drawn.generation.id →
      segment.fileId = r.id) : Stored settings s' r content drawn := by
  obtain ⟨normalized, chunks, hnormalized, hprocessed, htext, hstored, hmade⟩ := h.text
  exact ⟨⟨normalized, chunks, hnormalized, hprocessed, htext, hchunks.trans hstored,
    hsegments.trans hmade⟩, hgenerations.trans h.generation, hapart⟩

theorem Stored.of_same {s' : State} (h : Stored settings s r content drawn)
    (hchunks : s'.chunks = s.chunks) (hgenerations : s'.generations = s.generations)
    (hsegments : s'.segments = s.segments) : Stored settings s' r content drawn :=
  h.of_select (by rw [hchunks]) (by rw [hgenerations]) (by rw [hsegments]) (by
    rw [hsegments]
    exact h.apart)

/-- Segments that are deleted for another File. -/
theorem Stored.of_purged {s' : State} {fileId : UUID} (h : Stored settings s r content drawn)
    (hfile : fileId ≠ r.id) (hchunks : s'.chunks = s.chunks)
    (hgenerations : s'.generations = s.generations)
    (hsegments : s'.segments = FileRepository.purgeSegmentsForFile fileId s.segments) :
    Stored settings s' r content drawn := by
  refine h.of_select (by rw [hchunks]) (by rw [hgenerations]) ?_ ?_
  · rw [hsegments]
    refine select_delete fun segment _ hmine => decide_eq_false fun htheirs => ?_
    exact hfile (htheirs.symm.trans (of_decide_eq_true hmine))
  · intro segment hsegment
    rw [hsegments] at hsegment
    exact h.apart segment (mem_delete.mp hsegment).1

/-- What another worker completes leaves what is stored alone. -/
theorem Stored.completes {owner : String} {content' : ParsedSourceContent} {drawn' : Processing}
    {now : Timestamp} {s' : State} (h : Stored settings s r content drawn) (hjob : job.id ≠ r.id)
    (hcompletes : Completes settings job owner content' drawn' now s s') :
    Stored settings s' r content drawn := by
  obtain ⟨normalized, chunks, -, hprocessed, -, hchunks, hgenerations, hsegments⟩ :=
    hcompletes.parsed
  -- the new generation is another one
  have hother : drawn.generation.id ≠ drawn'.generation.id := by
    intro hid
    obtain ⟨g, hg, hgid⟩ : ∃ g ∈ FileRepository.retireActiveGenerations job.id
        drawn'.generation.now s.generations, g.id = drawn.generation.id := by
      refine ⟨_, updateRow_mem h.mem_generation, ?_⟩
      unfold updateRow
      split <;> rfl
    exact not_conflict_of_insert? hgenerations hg (hgid.trans hid)
  have hadded : ∀ segment ∈ segmentsOf job.id drawn'.generation.id chunks drawn'.segments,
      segment.fileId = job.id ∧ segment.generationId = drawn'.generation.id :=
    fun segment hsegment => segmentsOf_fileId hsegment
  refine h.of_select ?_ ?_ ?_ ?_
  · refine select_insertAll? hchunks fun chunk hchunk => decide_eq_false fun hmine => ?_
    exact hjob ((processedChunks_sourceId hprocessed hchunk).symm.trans hmine)
  · rw [select_insert? hgenerations (decide_eq_false fun hmine => hjob hmine.1)]
    refine select_update fun g hg => ?_
    have hfile : g.fileId = job.id := (of_decide_eq_true hg).1
    exact ⟨decide_eq_false fun hmine => hjob (hfile.symm.trans hmine.1),
      decide_eq_false fun hmine => hjob (hfile.symm.trans hmine.1)⟩
  · rw [select_insertAll? hsegments fun segment hsegment => decide_eq_false fun hmine =>
      hjob ((hadded segment hsegment).1.symm.trans hmine)]
    refine select_delete fun segment hsegment hmine => decide_eq_false fun hgeneration => ?_
    exact hother ((h.mem_segments hsegment (of_decide_eq_true hmine)).symm.trans hgeneration)
  · intro segment hsegment hgeneration
    rcases (mem_insertAll? hsegments).mp hsegment with hold | hnew
    · exact h.apart segment (mem_delete.mp hold).1 hgeneration
    · exact absurd (hgeneration.symm.trans (hadded segment hnew).2) hother

theorem Stored.step (h : Stored settings w.toState r content drawn) (hfiled : Filed w)
    (hr : r ∈ w.sources) (hready : r.processingStatus = .ready) (hlive : r.deletedAt = none)
    (hkept : r ∈ s.sources) (hwrites : Writes settings op view w s reply) :
    Stored settings s r content drawn := by
  cases hwrites with
  | nothing | claimed | renewed | failed => exact h.of_same rfl rfl rfl
  | uploaded hop hactivity hsources hfiles hsame =>
    rw [hsame]
    exact h.of_same rfl rfl rfl
  | @deleted c fresh s outcome hop hdeletes =>
    have hother : c.sourceId ≠ r.id := by
      intro hid
      obtain ⟨r₀, hr₀, hmove⟩ := hdeletes.moves.mem hkept
      have hdeletedAt := hmove.deletedAt
      rw [if_pos (hmove.id.symm.trans hid.symm), hlive] at hdeletedAt
      cases hdeletedAt
    have hpurged : Stored settings { w.toState with segments := s.segments } r content drawn :=
      h.of_purged hother rfl rfl hdeletes.segments
    refine hpurged.of_select ?_ (by rw [hdeletes.generations]) rfl hpurged.apart
    rw [hdeletes.chunks]
    refine select_delete fun chunk _ hmine => decide_eq_false fun htheirs => ?_
    exact hother (htheirs.symm.trans (of_decide_eq_true hmine))
  | completed hop hactivity hcompletes =>
    refine h.completes (fun hid => ?_) hcompletes
    obtain ⟨r₀, hr₀, hheld⟩ := hcompletes.held
    obtain ⟨hid₀, hpending, -⟩ := claimedBy_iff.mp hheld
    obtain rfl := source_eq hr hr₀ (hid.symm.trans hid₀.symm)
    rw [hready] at hpending
    cases hpending
  | purged hop hidle hpurged =>
    cases hpurged with
    | rolledBack | passed => exact h.of_same rfl rfl rfl
    | @purged job objectKey fileId s' hjob hpurges hjobs hsettled hsame =>
      obtain ⟨r₀, hr₀, hid₀, hdeleted, -⟩ := hfiled.jobs.purges hjob hpurges
      have hother : fileId ≠ r.id := by
        intro hid
        obtain rfl := source_eq hr hr₀ (hid.symm.trans hid₀.symm)
        rw [hlive] at hdeleted
        cases hdeleted
      have hchunks : s.chunks = w.chunks := by rw [hsame]
      have hgenerations : s.generations = w.generations := by rw [hsame]
      rcases hpurges.result.2 with hsegments | hsegments
      · exact h.of_same hchunks hgenerations hsegments
      · exact h.of_purged hother hchunks hgenerations hsegments
  | @foreign change hforeign hop =>
    have hchange := hforeign w.toState
    exact h.of_same hchange.chunks hchange.generations hchange.segments

/-! ## A completion -/

/-- The Source that a worker completes is ready, with what the worker made of its text. -/
theorem Completes.stored {owner : String} {now : Timestamp} {s' : State}
    (hcompletes : Completes settings job owner content drawn now s s')
    (hunparsed : Unparsed s job.id) (hr' : r' ∈ s'.sources) (hid : r'.id = job.id) :
    r'.processingStatus = .ready ∧ Stored settings s' r' content drawn := by
  obtain ⟨normalized, chunks, hnormalized, hprocessed, hsources, hchunks, hgenerations, hsegments⟩ :=
    hcompletes.parsed
  obtain ⟨r₀, hr₀, hheld₀⟩ := hcompletes.held
  have hrow : ∃ r, r' = SourceRepository.completeValues normalized.text now r := by
    rw [hsources] at hr'
    have hr' : r' ∈ s.sources.update (SourceRepository.claimedBy job.id owner)
        (SourceRepository.completeValues normalized.text now) fun _ _ _ h => h := hr'
    rcases mem_update_cases _ hr' with ⟨r, -, -, rfl⟩ | ⟨hmem, hfree⟩
    · exact ⟨r, rfl⟩
    · obtain rfl := source_eq hr₀ hmem ((claimedBy_iff.mp hheld₀).1.trans hid.symm)
      exact absurd hheld₀ (by rw [hfree]; exact Bool.false_ne_true)
  obtain ⟨r, rfl⟩ := hrow
  refine ⟨rfl, ⟨normalized, chunks, hnormalized, ?_, rfl, ?_, ?_⟩, ?_, ?_⟩
  · rw [hid]
    exact hprocessed
  · rw [hid]
    exact select_insertAll?_eq hchunks (fun chunk hchunk => decide_eq_false
      (hunparsed.chunks chunk hchunk)) fun chunk hchunk => decide_eq_true
        (processedChunks_sourceId hprocessed hchunk)
  · rw [hid]
    refine select_insertAll?_eq hsegments (fun segment hsegment => decide_eq_false ?_)
      fun segment hsegment => decide_eq_true (segmentsOf_fileId hsegment).1
    exact hunparsed.segments segment (mem_delete.mp hsegment).1
  · rw [hid]
    refine select_insert?_eq hgenerations (fun g hg => decide_eq_false fun hmine => ?_)
      (decide_eq_true ⟨rfl, rfl⟩)
    obtain ⟨g₀, hg₀, hmoved⟩ := mem_update.mp hg
    refine hunparsed.generations g₀ hg₀ ?_
    rw [← hmine.1, ← hmoved]
    unfold updateRow
    split <;> rfl
  · intro segment hsegment hgeneration
    rcases (mem_insertAll? hsegments).mp hsegment with hold | hnew
    · exact absurd hgeneration (of_decide_eq_false (mem_delete.mp hold).2)
    · exact (segmentsOf_fileId hnew).1.trans hid.symm

/-! ## Answers -/

/-- A Source after a step is one from before it, or one that was not there. -/
theorem writes_origin (h : Writes settings op view w s reply) (hr' : r' ∈ s.sources) :
    (∃ r ∈ w.sources, SourceMove settings op view w r r') ∨
      (∀ r ∈ w.sources, r.id ≠ r'.id) ∧ Uploaded op w r' := by
  by_cases hold : ∃ r ∈ w.sources, r.id = r'.id
  · obtain ⟨r, hr, hid⟩ := hold
    obtain ⟨r'', hr'', hmove⟩ := (writes_sources h).kept r hr
    obtain rfl := source_eq hr' hr'' (hid.symm.trans hmove.later.id.symm)
    exact .inl ⟨r, hr, hmove⟩
  · rcases (writes_sources h).origin r' hr' with hmoved | hadded
    · exact .inl hmoved
    · exact .inr ⟨fun r hr hid => hold ⟨r, hr, hid⟩, hadded⟩

/-- A completion leaves the Source ready. -/
theorem Writes.completed_ready (h : Writes settings op view w s reply)
    (hunparsed : Unparsed w.toState r'.id) (hreply : reply.completes r'.id = true)
    (hr' : r' ∈ s.sources) :
    ∃ process drawn now content, op = .complete process drawn now ∧
      reply = .completed r'.id content true ∧ r'.processingStatus = .ready ∧
        Stored settings s r' content drawn := by
  cases h with
  | nothing hclaimed hcompleted =>
    unfold Reply.completes at hreply
    split at hreply
    · exact absurd rfl (hcompleted _ _)
    · cases hreply
  | completed hop hactivity hcompletes =>
    have hid : _ = r'.id := of_decide_eq_true hreply
    rw [← hid] at hunparsed
    obtain ⟨hready, hstored⟩ := hcompletes.stored hunparsed hr' hid.symm
    exact ⟨_, _, _, _, hop, by rw [hid], hready, hstored⟩
  | uploaded | deleted | claimed | renewed | failed | purged | foreign => cases hreply

/-- The Source that is completed waited for the worker. -/
theorem Writes.completes_pending (h : Writes settings op view w s reply)
    (hreply : reply.completes sourceId = true) :
    ∃ r ∈ w.sources, r.id = sourceId ∧ r.processingStatus = .pending := by
  cases h with
  | nothing hclaimed hcompleted =>
    unfold Reply.completes at hreply
    split at hreply
    · exact absurd rfl (hcompleted _ _)
    · cases hreply
  | completed hop hactivity hcompletes =>
    obtain ⟨r, hr, hheld⟩ := hcompletes.held
    obtain ⟨hid, hpending, -⟩ := claimedBy_iff.mp hheld
    exact ⟨r, hr, hid.trans (of_decide_eq_true hreply), hpending⟩
  | uploaded | deleted | claimed | renewed | failed | purged | foreign => cases hreply

/-- A Source that waits, or is live and not ready, was one before. -/
theorem SourceMove.open_ (h : SourceMove settings op view w r r')
    (hopen : r'.processingStatus = .pending ∨ r'.deletedAt = none ∧ r'.processingStatus ≠ .ready) :
    r.processingStatus = .pending ∨ r.deletedAt = none ∧ r.processingStatus ≠ .ready := by
  cases h with
  | kept => exact hopen
  | @deleted c fresh loaded hop hnew hloaded hid =>
    have hlive : loaded.deletedAt = none := (of_decide_eq_true (get_eq_some hloaded).2).2.2
    rcases hopen with hpending | ⟨hdeletedAt, -⟩
    · have hpending : SourceRepository.flushed loaded.processingStatus .failed r.processingStatus =
          .pending := hpending
      unfold SourceRepository.flushed at hpending
      split at hpending
      · exact .inl hpending
      · cases hpending
    · have hdeletedAt : SourceRepository.flushed loaded.deletedAt (some (fresh 0).now)
          r.deletedAt = none := hdeletedAt
      rw [hlive, SourceRepository.flushed, if_neg (Option.some_ne_none _)] at hdeletedAt
      cases hdeletedAt
  | claimed hop hidle hclaimable =>
    obtain ⟨hlive, -, -, hwaits⟩ := of_decide_eq_true hclaimable
    rcases hwaits with ⟨hpending, -⟩ | ⟨hfailed, -⟩
    · exact .inl hpending
    · refine .inr ⟨hlive, ?_⟩
      rw [hfailed]
      decide
  | renewed hop hjob hheld => exact .inl (claimedBy_iff.mp hheld).2.1
  | completed hop hactivity hheld => exact .inl (claimedBy_iff.mp hheld).2.1
  | failed hop hactivity hretry hheld => exact .inl (claimedBy_iff.mp hheld).2.1

/-- A Source that is live and ready was so before, or it was completed. -/
theorem SourceMove.ready (h : SourceMove settings op view w r r') (hlive : r'.deletedAt = none)
    (hready : r'.processingStatus = .ready) :
    r' = r ∨ ∃ process drawn now, op = .complete process drawn now ∧
      r.processingStatus = .pending := by
  cases h with
  | kept => exact .inl rfl
  | @deleted c fresh loaded hop hnew hloaded hid =>
    have hlive' : loaded.deletedAt = none := (of_decide_eq_true (get_eq_some hloaded).2).2.2
    have hdeletedAt : SourceRepository.flushed loaded.deletedAt (some (fresh 0).now)
        r.deletedAt = none := hlive
    rw [hlive', SourceRepository.flushed, if_neg (Option.some_ne_none _)] at hdeletedAt
    cases hdeletedAt
  | claimed => cases hready
  | renewed hop hjob hheld =>
    have hpending := (claimedBy_iff.mp hheld).2.1
    cases hpending.symm.trans hready
  | completed hop hactivity hheld => exact .inr ⟨_, _, _, hop, (claimedBy_iff.mp hheld).2.1⟩
  | failed => cases hready

/-- A round that completes another Source, or none, leaves the row as it was. -/
theorem Writes.complete_other {now : Timestamp} (h : Writes settings op view w s reply)
    (hop : op = .complete process drawn now) (hreply : reply.completes r'.id ≠ true)
    (hr' : r' ∈ s.sources) : r' ∈ w.sources := by
  subst hop
  cases h with
  | nothing => exact hr'
  | @completed process' drawn' now' job content s hop hactivity hcompletes =>
    obtain ⟨normalized, chunks, -, -, hsources, -⟩ := hcompletes.parsed
    rw [hsources] at hr'
    have hr' : r' ∈ w.sources.update (SourceRepository.claimedBy job.id (workerOwner process'))
        (SourceRepository.completeValues normalized.text now') fun _ _ _ h => h := hr'
    rcases mem_update_cases _ hr' with ⟨r, -, hheld, rfl⟩ | ⟨hmem, -⟩
    · exact absurd (decide_eq_true (claimedBy_iff.mp hheld).1.symm) hreply
    · exact hmem
  | uploaded hop | deleted hop | claimed hop | renewed hop | failed hop | purged hop
    | foreign hop => cases hop

/-- A Source that is completed was completed by nobody before, and nothing is stored for it. -/
theorem Settling.completes (h : Settling settings replies w.toState)
    (hwrites : Writes settings op view w s reply) (hreply : reply.completes sourceId = true) :
    completions replies sourceId = [] ∧ Unparsed w.toState sourceId := by
  obtain ⟨r, hr, rfl, hpending⟩ := hwrites.completes_pending hreply
  have hnone := h.open_ r hr (.inl hpending)
  exact ⟨hnone, h.unparsed _ hnone⟩

theorem Settling.step (h : Settling settings replies w.toState) (hfiled : Filed w)
    (hwrites : Writes settings op view w s reply) : Settling settings ((op, reply) :: replies) s where
  open_ r' hr' hopen := by
    by_cases hreply : reply.completes r'.id = true
    · obtain ⟨hnone, hunparsed⟩ := h.completes hwrites hreply
      obtain ⟨_, _, _, _, -, -, hready, -⟩ := hwrites.completed_ready hunparsed hreply hr'
      rw [hready] at hopen
      rcases hopen with hpending | ⟨-, hnot⟩
      · cases hpending
      · exact absurd rfl hnot
    · rw [completions_cons_of_not hreply]
      rcases writes_origin hwrites hr' with ⟨r, hr, hmove⟩ | ⟨hnew, -⟩
      · rw [hmove.later.id]
        exact h.open_ r hr (hmove.open_ hopen)
      · by_contra hsome
        obtain ⟨r, hr, hid⟩ := h.known _ hsome
        exact hnew r hr hid
  known sourceId hsome := by
    have hold : ∃ r ∈ w.sources, r.id = sourceId := by
      by_cases hreply : reply.completes sourceId = true
      · obtain ⟨r, hr, hid, -⟩ := hwrites.completes_pending hreply
        exact ⟨r, hr, hid⟩
      · rw [completions_cons_of_not hreply] at hsome
        exact h.known sourceId hsome
    obtain ⟨r, hr, hid⟩ := hold
    obtain ⟨r', hr', hmove⟩ := (writes_sources hwrites).kept r hr
    exact ⟨r', hr', hmove.later.id.trans hid⟩
  once sourceId := by
    by_cases hreply : reply.completes sourceId = true
    · rw [completions_cons hreply, (h.completes hwrites hreply).1]
      exact le_rfl
    · rw [completions_cons_of_not hreply]
      exact h.once sourceId
  unparsed sourceId hnone := by
    have hreply : reply.completes sourceId ≠ true := by
      intro hreply
      rw [completions_cons hreply] at hnone
      cases hnone
    rw [completions_cons_of_not hreply] at hnone
    exact (h.unparsed sourceId hnone).step hwrites hreply
  won r' hr' hlive hready := by
    by_cases hreply : reply.completes r'.id = true
    · obtain ⟨hnone, hunparsed⟩ := h.completes hwrites hreply
      obtain ⟨process, drawn, now, content, rfl, rfl, -, hstored⟩ :=
        hwrites.completed_ready hunparsed hreply hr'
      refine ⟨process, drawn, now, content, ?_, hstored⟩
      rw [completions_cons hreply, hnone]
    · rw [completions_cons_of_not hreply]
      have hkept : r' ∈ w.sources := by
        rcases writes_origin hwrites hr' with ⟨r, hr, hmove⟩ | ⟨-, process, attachment, -, hstored⟩
        · rcases hmove.ready hlive hready with rfl | ⟨process, drawn, now, hop, -⟩
          · exact hr
          · exact hwrites.complete_other hop hreply hr'
        · exact absurd hready (hfiled.new process r' hstored).status
      obtain ⟨process, drawn, now, content, hwon, hstored⟩ := h.won r' hkept hlive hready
      exact ⟨process, drawn, now, content, hwon,
        hstored.step hfiled hkept hready hlive hr' hwrites⟩

theorem settling_reachable (hreachable : (system cal settings).Reachable h) :
    Settling settings h.replies h.cur.toState := by
  refine stable_filed.log_induction (fun replies w => Settling settings replies w.toState) ?_ ?_
    hreachable
  · intro w hw
    obtain rfl : w = {} := hw
    refine ⟨fun r hr => absurd hr not_mem_empty, fun _ hsome => absurd rfl hsome,
      fun _ => Nat.zero_le 1, fun sourceId _ => ⟨?_, ?_, ?_⟩, fun r hr => absurd hr not_mem_empty⟩
    · exact fun chunk hchunk => absurd hchunk not_mem_empty
    · exact fun generation hgeneration => absurd hgeneration not_mem_empty
    · exact fun segment hsegment => absurd hsegment not_mem_empty
  · exact fun op view w replies hfiled _ _ hsettling => hsettling.step hfiled (commit_writes ..)

/-! ## Claims -/

/-- A Source that is ready stays so, or it is deleted, and both are out of reach of a claim. -/
def ReadyStays (v w : World) : Prop :=
  Evolves Source.id (fun r r' => (r.processingStatus = .ready ∨ r.deletedAt.isSome = true) →
    r'.processingStatus = .ready ∨ r'.deletedAt.isSome = true) v.sources w.sources

theorem stable_ready : Program.Stable (system cal settings) (fun _ _ _ => True) (fun _ => True)
    ReadyStays where
  init _ _ := trivial
  refl w := Evolves.refl (fun _ hready => hready) w.sources
  trans _ _ _ := Evolves.trans fun _ _ _ h h' hready => h' (h hready)
  step op view w _ _ _ := by
    refine ⟨trivial, fun r hr => ?_⟩
    obtain ⟨r', hr', hmove⟩ := (writes_sources (commit_writes cal settings op view (w := w))).kept r hr
    refine ⟨r', hr', hmove.later.id, ?_⟩
    rintro (hready | hdeleted)
    · by_cases hclosed : r'.deletedAt = none
      · by_contra hnot
        push_neg at hnot
        rcases hmove.open_ (.inr ⟨hclosed, hnot.1⟩) with hpending | ⟨-, hopen⟩
        · exact nomatch hready.symm.trans hpending
        · exact hopen hready
      · exact .inr (Option.isSome_iff_ne_none.mpr hclosed)
    · exact .inr (hmove.later.deleted hdeleted)

/-- What a claim finds, and what it leaves. -/
theorem claimed_at (hreachable : (system cal settings).Reachable h) {j : ℕ}
    (hj : h.replies[j]? = some (op, .claimed job)) :
    ∃ w w' : World, h.states[j + 1]? = some w ∧ h.states[j]? = some w' ∧
      ∃ r ∈ w.sources, r.id = job.id ∧ r.deletedAt = none ∧ r.processingStatus ≠ .ready ∧
        job.attemptCount = r.processingAttemptCount + 1 ∧
        ∃ r' ∈ w'.sources, r'.id = job.id ∧ r'.processingAttemptCount = job.attemptCount := by
  obtain ⟨view, w, hcur, hnext, hreply⟩ := hreachable.answered_at hj
  have hreply : (World.commit cal settings op view w).2 = .claimed job := hreply
  have hwrites := commit_writes cal settings op view (w := w)
  rw [hreply] at hwrites
  refine ⟨_, _, hcur, hnext, ?_⟩
  show ∃ r ∈ w.sources, _ ∧ _ ∧ _ ∧ _ ∧ ∃ r' ∈ (World.commit cal settings op view w).1.sources, _
  generalize (World.commit cal settings op view w).1.toState = s at hwrites ⊢
  cases hwrites with
  | nothing hclaimed => exact absurd rfl (hclaimed job)
  | claimed hop hidle hsource hclaimable hid hattempt =>
    obtain ⟨hlive, -, -, hwaits⟩ := of_decide_eq_true hclaimable
    refine ⟨_, hsource, hid.symm, hlive, ?_, hattempt, _,
      mem_update_of_pos hsource (decide_eq_true rfl), hid.symm, hattempt.symm⟩
    rcases hwaits with ⟨hpending, -⟩ | ⟨hfailed, -⟩
    · rw [hpending]
      exact nofun
    · rw [hfailed]
      exact nofun

/-- A worker that does not hold its Source changes nothing when it completes or fails it. -/
theorem commit_released {now : Timestamp} (hjob : (w.activities process).job = some job)
    (hfree : ∀ r ∈ w.sources, SourceRepository.claimedBy job.id (workerOwner process) r ≠ true)
    (hop : op = .complete process drawn now ∨ op = .fail process now) :
    (World.commit cal settings op view w).1.toState = w.toState := by
  rcases hop with rfl | rfl
  · simp only [World.commit]
    split
    next job' content hactivity =>
      rw [hactivity] at hjob
      obtain rfl := Option.some.inj hjob
      split
      next s success hcompleted =>
        cases success with
        | true =>
          obtain ⟨r, hr, hheld⟩ := (completeProcessing_ok hcompleted).held
          exact absurd hheld (hfree r hr)
        | false => exact completeProcessing_lost hcompleted
      next => rfl
    next => rfl
  · simp only [World.commit]
    split
    next job' failure hactivity =>
      rw [hactivity] at hjob
      obtain rfl := Option.some.inj hjob
      have hnone : w.sources.rowcount (SourceRepository.claimedBy job'.id (workerOwner process)) = 0 :=
        rowcount_eq_zero.mpr fun r hr => Bool.eq_false_iff.mpr (hfree r hr)
      have hsame : ∀ errorCode retryDelay,
          (failProcessing job'.id (workerOwner process) errorCode retryDelay now w.toState).1 =
            w.toState := by
        intro errorCode retryDelay
        have htable : w.sources.update (SourceRepository.claimedBy job'.id (workerOwner process))
            (SourceRepository.failValues errorCode now (retryDelay.map fun delay => now + delay))
            (fun _ _ _ h => h) = w.sources := update_eq_self hnone
        exact congrArg (fun sources => { w.toState with sources }) htable
      exact hsame _ _
    next => rfl

/-! ## Every run -/

/-- How the parsing of Sources settled in a history. -/
structure Settled (settings : Settings) (h : History World Op Reply) : Prop where
  /-- At most one completion of a Source succeeds. -/
  once : ∀ sourceId, (completions h.replies sourceId).length ≤ 1
  /-- What is stored for a Source that is ready is what the winner made of its text. -/
  won : ∀ r ∈ h.cur.sources, r.deletedAt = none → r.processingStatus = .ready →
    ∃ process drawn now content, completions h.replies r.id =
        [(.complete process drawn now, .completed r.id content true)] ∧
      Stored settings h.cur.toState r content drawn
  /-- Nothing is stored for a Source without a winner. -/
  unparsed : ∀ sourceId, completions h.replies sourceId = [] → Unparsed h.cur.toState sourceId
  /-- No Source is claimed that was ready before. -/
  never_again : ∀ (j : ℕ) op job, h.replies[j]? = some (op, .claimed job) →
    ∀ v ∈ h.states.drop (j + 1), ∀ r ∈ v.sources, r.id = job.id → r.processingStatus ≠ .ready
  /-- A worker whose Source another worker claimed since changes nothing when it completes or fails. -/
  taken_over : ∀ (a b c : ℕ) process userId now locked job op₁ job₁ op₂ reply₂ drawn₂ now₂
    (w w' : World), c < b → b < a →
    h.replies[a]? = some (.claim process userId now locked, .claimed job) →
    h.replies[b]? = some (op₁, .claimed job₁) → job₁.id = job.id →
    h.replies[c]? = some (op₂, reply₂) →
    (op₂ = .complete process drawn₂ now₂ ∨ op₂ = .fail process now₂) →
    h.states[c + 1]? = some w → (w.activities process).job = some job →
    h.states[c]? = some w' → w'.toState = w.toState

/-- In every history the parsing of every Source settles once. -/
theorem settles_once (hreachable : (system cal settings).Reachable h) : Settled settings h := by
  have hsettling := settling_reachable hreachable
  refine ⟨hsettling.once, hsettling.won, hsettling.unparsed, ?_, ?_⟩
  · intro j op job hj v hv r hr hid hready
    obtain ⟨w, -, hw, -, r₁, hr₁, hid₁, hlive, hnot, -⟩ := claimed_at hreachable hj
    have hw : w ∈ h.states.take (j + 2) := List.mem_take_iff_getElem.mpr ⟨j + 1, by
      obtain ⟨hlt, -⟩ := List.getElem?_eq_some_iff.mp hw
      omega, (List.getElem?_eq_some_iff.mp hw).2⟩
    obtain ⟨r₂, hr₂, hid₂, hstays⟩ := stable_ready.rel_since hreachable hv hw r hr
    obtain rfl := source_eq hr₁ hr₂ (hid₁.trans (hid₂.trans hid).symm)
    rcases hstays (.inl hready) with hready | hdeleted
    · exact hnot hready
    · rw [hlive] at hdeleted
      cases hdeleted
  · intro a b c process userId now locked job op₁ job₁ op₂ reply₂ drawn₂ now₂ w w' hcb hba ha hb
      hsame hc hop hw hbusy hw'
    obtain ⟨-, w₀, -, hw₀, -, -, -, -, -, -, r₀, hr₀, hid₀, hattempts₀⟩ := claimed_at hreachable ha
    obtain ⟨w₁, w₂, hw₁, hw₂, r₁, hr₁, hid₁, -, -, hattempt₁, r₂, hr₂, hid₂, hattempts₂⟩ :=
      claimed_at hreachable hb
    -- the second claim finds the attempts of the first one, and the worker finds those of the second
    obtain ⟨r₁', hr₁', hid₁', hlater₁⟩ := stable_sources.rel_getElem? hreachable hw₀ hw₁ hba r₀ hr₀
    obtain rfl := source_eq hr₁ hr₁' ((hid₁.trans hsame).trans (hid₁'.trans hid₀).symm)
    obtain ⟨r, hr, hid, hlater⟩ := stable_sources.rel_getElem? hreachable hw₂ hw hcb r₂ hr₂
    have hmore : job.attemptCount < r.processingAttemptCount := by
      have hfirst := hlater₁.attempts
      have hsecond := hlater.attempts
      omega
    obtain ⟨view, w₃, hw₃, hw₃', -⟩ := hreachable.answered_at hc
    obtain rfl := Option.some.inj (hw₃.symm.trans hw)
    obtain rfl := Option.some.inj (hw₃'.symm.trans hw')
    refine commit_released hbusy (fun r' hr' hheld => ?_) hop
    obtain ⟨r'', hr'', htried⟩ := stable_tried.inv_mem hreachable (List.mem_of_getElem? hw) |>.2
      process job hbusy
    have hid' := (claimedBy_iff.mp hheld).1
    obtain rfl := source_eq hr'' hr' (htried.id.trans hid'.symm)
    obtain rfl := source_eq hr hr' ((hid.trans (hid₂.trans hsame)).trans hid'.symm)
    have hattempts := htried.held hheld
    omega

/-- Worker 3 takes the note over from worker 2 and completes it, and then worker 2 tries to. -/
def takenOver : History World Op Reply :=
  (system PersonalState.tallies twoAttempts).serial {} (uploadNote ++
    [.claim 2 none 1 fun _ => false, .parse 2 (.ok ⟨"late", []⟩), .claim 3 none 20 fun _ => false,
      .parse 3 (.ok ⟨"hi", []⟩), .complete 3 noteDrawn 21, .complete 2 noteDrawn 22])

/-- The completion of worker 3 is the one that counts. -/
theorem settles_once_takenOver : Settled twoAttempts takenOver ∧
    (completions takenOver.replies 10).length = 1 ∧
    ∃ r ∈ takenOver.cur.sources.rows, r.processingStatus = .ready ∧ r.extractedText = some "hi" :=
  ⟨settles_once ((system PersonalState.tallies twoAttempts).serial_reachable rfl _),
    by decide +kernel, by decide +kernel⟩

end Sources
