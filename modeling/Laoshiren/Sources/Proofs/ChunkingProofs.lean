import Laoshiren.Sources.Writes

/-!
# Proofs: the chunks of a text

Every round moves on, so the rounds that are given are enough; and the chunks belong to the Source that they
are cut for.
-/

namespace Sources

open Runtime Raise

variable {settings : Settings} {sourceId : UUID} {chunkCharacters overlap : ℕ} {fresh : ℕ → Stamp}
  {chunks : List SourceChunk} {chunk : SourceChunk}

/-- More rounds than the text has characters left give no more chunks. -/
theorem chunksFrom_rounds {text : List Char} {rounds start ordinal : ℕ} (rounds' : ℕ)
    (h : text.length ≤ start + rounds) (h' : text.length ≤ start + rounds') :
    chunksFrom sourceId text chunkCharacters overlap fresh rounds start ordinal =
      chunksFrom sourceId text chunkCharacters overlap fresh rounds' start ordinal := by
  induction rounds generalizing rounds' start ordinal with
  | zero =>
    have hstart : ¬start < text.length := by omega
    cases rounds' with
    | zero => rfl
    | succ rounds' => rw [chunksFrom, chunksFrom, if_neg hstart]
  | succ rounds ih =>
    by_cases hstart : start < text.length
    · obtain ⟨rounds', rfl⟩ : ∃ n, rounds' = n + 1 := ⟨rounds' - 1, by omega⟩
      have hnext : ∀ stop, start + 1 ≤ max (stop - overlap) (start + 1) :=
        fun stop => le_max_right _ _
      rw [chunksFrom, chunksFrom, if_pos hstart, if_pos hstart]
      simp only
      split
      · rfl
      · rw [ih]
        · have := hnext (chunkEnd text chunkCharacters start)
          omega
        · have := hnext (chunkEnd text chunkCharacters start)
          omega
    · cases rounds' with
      | zero => rw [chunksFrom, chunksFrom, if_neg hstart]
      | succ rounds' => rw [chunksFrom, chunksFrom, if_neg hstart, if_neg hstart]

/-! ## What every chunk meets -/

/-- What every stretch of a text and every step of the processing gives a chunk, every chunk has. -/
structure Lasting (settings : Settings) (sourceId : UUID) (P : SourceChunk → Prop) : Prop where
  cut : ∀ {text start stop ordinal stamp chunk},
    chunkAt sourceId text start stop ordinal stamp = some chunk → P chunk
  page : ∀ {page baseOffset count chunk}, P chunk → P (chunkOfPage page baseOffset count chunk)
  versions : ∀ {chunk}, P chunk → P (withVersions settings chunk)
  embedding : ∀ {chunk embedding}, P chunk → P { chunk with embedding := some embedding }

variable {P : SourceChunk → Prop}

theorem Lasting.chunksFrom (hP : Lasting settings sourceId P) {text : List Char}
    {rounds start ordinal : ℕ}
    (h : chunk ∈ chunksFrom sourceId text chunkCharacters overlap fresh rounds start ordinal) :
    P chunk := by
  induction rounds generalizing start ordinal with
  | zero => cases h
  | succ rounds ih =>
    rw [Sources.chunksFrom] at h
    split at h
    · simp only at h
      split at h
      · exact hP.cut (Option.mem_toList.mp h)
      · rcases List.mem_append.mp h with h | h
        · exact hP.cut (Option.mem_toList.mp h)
        · exact ih h
    · cases h

theorem Lasting.buildSourceChunks (hP : Lasting settings sourceId P) {text : String}
    (h : buildSourceChunks sourceId text chunkCharacters overlap fresh = .ok chunks)
    (hchunk : chunk ∈ chunks) : P chunk := by
  simp only [Sources.buildSourceChunks, bind_eq_ok, pure_eq_ok] at h
  obtain ⟨_, -, rfl⟩ := h
  exact hP.chunksFrom hchunk

theorem Lasting.pageChunks (hP : Lasting settings sourceId P) {pages : List ParsedSourcePage}
    {baseOffset : ℕ} {before : List SourceChunk} (hbefore : ∀ c ∈ before, P c)
    (h : pageChunks sourceId chunkCharacters overlap fresh pages baseOffset before = .ok chunks)
    (hchunk : chunk ∈ chunks) : P chunk := by
  induction pages generalizing baseOffset before with
  | nil =>
    obtain rfl := pure_eq_ok.mp h
    exact hbefore chunk hchunk
  | cons page pages ih =>
    simp only [Sources.pageChunks, bind_eq_ok] at h
    obtain ⟨found, hfound, h⟩ := h
    refine ih (fun c hc => ?_) h
    rcases List.mem_append.mp hc with hc | hc
    · exact hbefore c hc
    · obtain ⟨n, hn, rfl⟩ := List.mem_mapIdx.mp hc
      exact hP.page (hP.buildSourceChunks hfound (List.getElem_mem hn))

theorem Lasting.buildSourceChunksFromContent (hP : Lasting settings sourceId P)
    {content : ParsedSourceContent}
    (h : buildSourceChunksFromContent sourceId content fresh = .ok chunks)
    (hchunk : chunk ∈ chunks) : P chunk := by
  unfold Sources.buildSourceChunksFromContent at h
  split at h
  · exact hP.buildSourceChunks h hchunk
  · exact hP.pageChunks (fun c hc => absurd hc List.not_mem_nil) h hchunk

theorem Lasting.withEmbeddings (hP : Lasting settings sourceId P) {embeddings : List Embedding}
    (h : ∀ c ∈ chunks, P c) (hchunk : chunk ∈ withEmbeddings embeddings chunks) : P chunk := by
  unfold Sources.withEmbeddings at hchunk
  split at hchunk
  · obtain ⟨n, hn, rfl⟩ := List.getElem_of_mem hchunk
    rw [List.length_zipWith] at hn
    rw [List.getElem_zipWith]
    exact hP.embedding (h _ (List.getElem_mem (by omega)))
  · exact h chunk hchunk

theorem Lasting.processedChunks (hP : Lasting settings sourceId P) {content : ParsedSourceContent}
    {embeddings : List Embedding}
    (h : processedChunks settings sourceId content embeddings fresh = .ok chunks)
    (hchunk : chunk ∈ chunks) : P chunk := by
  simp only [Sources.processedChunks, bind_eq_ok, pure_eq_ok] at h
  obtain ⟨built, hbuilt, rfl⟩ := h
  refine hP.withEmbeddings (fun c hc => ?_) hchunk
  obtain ⟨b, hb, rfl⟩ := List.mem_map.mp hc
  exact hP.versions (hP.buildSourceChunksFromContent hbuilt hb)

/-! ## Whose chunks they are -/

theorem chunkAt_sourceId {text : List Char} {start stop ordinal : ℕ} {stamp : Stamp}
    (h : chunkAt sourceId text start stop ordinal stamp = some chunk) :
    chunk.sourceId = sourceId ∧
      chunk.metadata = Dict.ofFields [("evidence_type", .str "TEXT_SPAN")] := by
  unfold chunkAt at h
  simp only at h
  split at h
  · obtain rfl := Option.some.inj h
    exact ⟨rfl, rfl⟩
  · cases h

theorem lasting_sourceId : Lasting settings sourceId fun chunk => chunk.sourceId = sourceId where
  cut h := (chunkAt_sourceId h).1
  page h := h
  versions h := h
  embedding h := h

theorem processedChunks_sourceId {content : ParsedSourceContent} {embeddings : List Embedding}
    (h : processedChunks settings sourceId content embeddings fresh = .ok chunks)
    (hchunk : chunk ∈ chunks) : chunk.sourceId = sourceId := lasting_sourceId.processedChunks h hchunk

/-- The metadata of a chunk does not say where it lies. -/
def Unplaced (chunk : SourceChunk) : Prop :=
  chunk.metadata.get "char_start" = none ∧ chunk.metadata.get "char_end" = none

theorem lasting_unplaced : Lasting settings sourceId Unplaced where
  cut h := by
    unfold Unplaced
    rw [(chunkAt_sourceId h).2]
    exact ⟨Dict.get_ofFields_of_not_mem (by decide), Dict.get_ofFields_of_not_mem (by decide)⟩
  page h := ⟨(Dict.get_set_ne (by decide) _ _).trans h.1, (Dict.get_set_ne (by decide) _ _).trans h.2⟩
  versions h :=
    ⟨(Dict.get_merge_of_none (Dict.get_ofFields_of_not_mem (by simp))).trans h.1,
      (Dict.get_merge_of_none (Dict.get_ofFields_of_not_mem (by simp))).trans h.2⟩
  embedding h := h

theorem segmentsOf_fileId {fileId generationId : UUID} {segment : RetrievalSegment}
    (h : segment ∈ segmentsOf fileId generationId chunks fresh) :
    segment.fileId = fileId ∧ segment.generationId = generationId := by
  obtain ⟨n, hn, rfl⟩ := List.mem_mapIdx.mp h
  exact ⟨rfl, rfl⟩

end Sources
