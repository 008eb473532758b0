import Laoshiren.Foundation.Slices
import Laoshiren.Sources.Proofs.ChunkingProofs

/-!
# Proofs: the chunks cover the text

A round takes a stretch of the text that is not empty, and the next one begins where it ends at the latest.
So the rounds leave no character out but blanks.
-/

namespace Sources

open Runtime Raise

variable {sourceId : UUID} {text : List Char} {chunkCharacters overlap start stop ordinal : ℕ}
  {fresh : ℕ → Stamp} {stamp : Stamp} {chunks : List SourceChunk} {chunk : SourceChunk}

/-- What the chunks of a text are from `start` on, when the first of them is numbered `ordinal`. -/
structure Chunked (text : List Char) (chunkCharacters start ordinal : ℕ) (chunks : List SourceChunk) :
    Prop where
  covered : ∀ i c, start ≤ i → text[i]? = some c → Text.isSpace c = false →
    ∃ chunk ∈ chunks, chunk.charStart ≤ i ∧ i < chunk.charEnd
  nonempty : ∀ chunk ∈ chunks, chunk.charStart < chunk.charEnd
  short : ∀ chunk ∈ chunks, chunk.charEnd ≤ chunk.charStart + chunkCharacters
  inside : ∀ chunk ∈ chunks, start ≤ chunk.charStart ∧ chunk.charEnd ≤ text.length
  content : ∀ chunk ∈ chunks,
    Text.strip (String.ofList (Text.slice text chunk.charStart chunk.charEnd)) = chunk.content
  visible : ∀ chunk ∈ chunks, chunk.content ≠ ""
  ordinals : chunks.map SourceChunk.ordinal = List.range' ordinal chunks.length
  increasing : (chunks.map SourceChunk.charStart).Pairwise (· < ·)

/-! ## One round -/

theorem paragraphEnd?_lt {hardEnd paragraphEnd : ℕ}
    (h : paragraphEnd? text start hardEnd = some paragraphEnd) : paragraphEnd < hardEnd := by
  have hmem := List.mem_of_find?_eq_some h
  exact List.mem_range.mp (List.mem_reverse.mp hmem)

/-- A round takes a character at least, and no more than a chunk may have. -/
theorem chunkEnd_bounds (hsize : 0 < chunkCharacters) (hstart : start < text.length) :
    start < chunkEnd text chunkCharacters start ∧
      chunkEnd text chunkCharacters start ≤ start + chunkCharacters ∧
      chunkEnd text chunkCharacters start ≤ text.length := by
  unfold chunkEnd
  simp only
  split
  · split
    next paragraphEnd hparagraph =>
      have hlt := paragraphEnd?_lt hparagraph
      split
      · omega
      · omega
    · omega
  · omega

/-- A text of one paragraph is cut where a chunk is full. -/
theorem chunkEnd_plain (h : '\n' ∉ text) :
    chunkEnd text chunkCharacters start = min (start + chunkCharacters) text.length := by
  have hnone : ∀ hardEnd, paragraphEnd? text start hardEnd = none := fun hardEnd =>
    List.find?_eq_none.mpr fun i _ hi => h (List.mem_of_getElem? (of_decide_eq_true hi).2.2.1)
  unfold chunkEnd
  simp only [hnone, ite_self]

theorem chunkAt_eq_some (h : chunkAt sourceId text start stop ordinal stamp = some chunk) :
    chunk.ordinal = ordinal ∧ chunk.charStart = start ∧ chunk.charEnd = stop ∧
      Text.strip (String.ofList (Text.slice text start stop)) = chunk.content ∧
      chunk.content ≠ "" := by
  unfold chunkAt at h
  simp only at h
  split at h
  next hcontent =>
    obtain rfl := Option.some.inj h
    exact ⟨rfl, rfl, rfl, rfl, hcontent⟩
  · cases h

/-- A stretch without a chunk is blank. -/
theorem chunkAt_eq_none (h : chunkAt sourceId text start stop ordinal stamp = none) :
    ∀ c ∈ Text.slice text start stop, Text.isSpace c = true := by
  unfold chunkAt at h
  simp only at h
  split at h
  · cases h
  next hblank => exact Text.strip_eq_empty.mp (not_not.mp hblank)

variable (start stop) in
/-- A stretch that shows something has a chunk. -/
theorem chunkAt_visible {i : ℕ} {c : Char}
    (hc : text[i]? = some c) (hstart : start ≤ i) (hstop : i < stop) (hvisible : Text.isSpace c = false) :
    ∃ chunk, chunkAt sourceId text start stop ordinal stamp = some chunk ∧ chunk.id = stamp.id := by
  unfold chunkAt
  simp only
  rw [if_pos]
  · exact ⟨_, rfl, rfl⟩
  · intro hblank
    have hspace := Text.strip_eq_empty.mp hblank c (Text.mem_slice hc hstart hstop)
    rw [hvisible] at hspace
    cases hspace

/-- No chunk is needed where no text is left. -/
theorem Chunked.nil (hstart : text.length ≤ start) : Chunked text chunkCharacters start ordinal [] where
  covered i c hi hc _ := by
    obtain ⟨hlt, -⟩ := List.getElem?_eq_some_iff.mp hc
    omega
  nonempty := nofun
  short := nofun
  inside := nofun
  content := nofun
  visible := nofun
  ordinals := rfl
  increasing := .nil

variable (sourceId ordinal stamp) in
/-- The chunk of a stretch comes before the chunks from a place on that the stretch reaches. -/
theorem Chunked.step {next : ℕ} (hsize : stop ≤ start + chunkCharacters) (hstop : start < stop)
    (hlen : stop ≤ text.length) (hnext : start < next) (hreach : next ≤ stop ∨ text.length ≤ stop)
    (h : Chunked text chunkCharacters next
      (ordinal + (chunkAt sourceId text start stop ordinal stamp).toList.length) chunks) :
    Chunked text chunkCharacters start ordinal
      ((chunkAt sourceId text start stop ordinal stamp).toList ++ chunks) := by
  have hlater : ∀ chunk ∈ chunks, start < chunk.charStart := fun chunk hchunk => by
    have := (h.inside chunk hchunk).1
    omega
  cases hfound : chunkAt sourceId text start stop ordinal stamp with
  | none =>
    rw [hfound] at h
    refine { h with covered := fun i c hi hc hvisible => ?_, inside := fun chunk hchunk => ?_ }
    · by_cases hstretch : i < stop
      · have hblank := chunkAt_eq_none hfound c (Text.mem_slice hc hi hstretch)
        rw [hblank] at hvisible
        cases hvisible
      · obtain ⟨hlt, -⟩ := List.getElem?_eq_some_iff.mp hc
        exact h.covered i c (by omega) hc hvisible
    · exact ⟨(hlater chunk hchunk).le, (h.inside chunk hchunk).2⟩
  | some found =>
    rw [hfound] at h
    obtain ⟨hordinal, hcharStart, hcharEnd, hcontent, hvisible⟩ := chunkAt_eq_some hfound
    have hall : ∀ {P : SourceChunk → Prop}, P found → (∀ chunk ∈ chunks, P chunk) →
        ∀ chunk ∈ found :: chunks, P chunk := fun h h' => List.forall_mem_cons.mpr ⟨h, h'⟩
    refine ⟨fun i c hi hc hblank => ?_, hall (by omega) h.nonempty, hall (by omega) h.short,
      hall (by omega) fun chunk hchunk => ⟨(hlater chunk hchunk).le, (h.inside chunk hchunk).2⟩,
      hall ?_ h.content, hall hvisible h.visible, ?_, ?_⟩
    · by_cases hstretch : i < stop
      · exact ⟨found, .head _, by omega⟩
      · obtain ⟨hlt, -⟩ := List.getElem?_eq_some_iff.mp hc
        obtain ⟨chunk, hchunk, hin⟩ := h.covered i c (by omega) hc hblank
        exact ⟨chunk, .tail _ hchunk, hin⟩
    · rw [hcharStart, hcharEnd]
      exact hcontent
    · have hrest := h.ordinals
      simp only [Option.toList_some, List.length_singleton] at hrest
      simp only [Option.toList_some, List.singleton_append, List.map_cons, List.length_cons,
        List.range'_succ, hordinal, hrest]
    · simp only [Option.toList_some, List.singleton_append, List.map_cons]
      refine List.pairwise_cons.mpr ⟨fun charStart hmem => ?_, h.increasing⟩
      obtain ⟨chunk, hchunk, rfl⟩ := List.mem_map.mp hmem
      rw [hcharStart]
      exact hlater chunk hchunk

/-! ## The loop -/

/-- The rounds from `start` on cut the text from there on. -/
theorem chunked_chunksFrom (hsize : 0 < chunkCharacters) {rounds : ℕ}
    (hrounds : text.length ≤ start + rounds) :
    Chunked text chunkCharacters start ordinal
      (chunksFrom sourceId text chunkCharacters overlap fresh rounds start ordinal) := by
  induction rounds generalizing start ordinal with
  | zero => exact .nil (by omega)
  | succ rounds ih =>
    rw [chunksFrom]
    by_cases hstart : start < text.length
    · rw [if_pos hstart]
      obtain ⟨hstop, hshort, hlen⟩ := chunkEnd_bounds hsize hstart
      simp only
      by_cases hlast : text.length ≤ chunkEnd text chunkCharacters start
      · rw [if_pos hlast]
        have hnil : ∀ n, Chunked text chunkCharacters text.length n [] := fun _ => .nil le_rfl
        have hstep := (hnil _).step sourceId ordinal (fresh ordinal)
          hshort hstop hlen hstart (.inr hlast)
        rwa [List.append_nil] at hstep
      · rw [if_neg hlast]
        refine Chunked.step _ _ _ hshort hstop hlen ?_ ?_ (ih ?_)
        · omega
        · left
          omega
        · omega
    · rw [if_neg hstart]
      exact .nil (by omega)

/-- The chunks of a text cover it: every character that is no blank lies in one of them, and they are what
their places say. More rounds than were given would change nothing. -/
theorem buildSourceChunks_covers (sourceId : UUID) (text : String) (chunkCharacters overlap : ℕ)
    (fresh : ℕ → Stamp) (hsize : 0 < chunkCharacters) (hoverlap : overlap < chunkCharacters) :
    ∃ chunks, buildSourceChunks sourceId text chunkCharacters overlap fresh = .ok chunks ∧
      (∀ rounds, text.length ≤ rounds →
        chunksFrom sourceId text.toList chunkCharacters overlap fresh rounds 0 0 = chunks) ∧
      Chunked text.toList chunkCharacters 0 0 chunks := by
  refine ⟨chunksFrom sourceId text.toList chunkCharacters overlap fresh text.toList.length 0 0, ?_,
    fun rounds hrounds => ?_, ?_⟩
  · unfold buildSourceChunks
    rw [bind_of_ensure ⟨hsize, hoverlap⟩]
    rfl
  · have hlength : text.toList.length = text.length := String.length_toList
    exact chunksFrom_rounds _ (by omega) (by omega)
  · exact chunked_chunksFrom hsize (by omega)

/-- The chunks of two paragraphs, with chunks of four characters at most. -/
theorem buildSourceChunks_covers_paragraphs :
    ∃ chunks, buildSourceChunks 7 "abc\n\ndef" 4 1 (fun n => ⟨n, 0⟩) = .ok chunks ∧
      (∀ rounds, "abc\n\ndef".length ≤ rounds →
        chunksFrom 7 "abc\n\ndef".toList 4 1 (fun n => ⟨n, 0⟩) rounds 0 0 = chunks) ∧
      Chunked "abc\n\ndef".toList 4 0 0 chunks :=
  buildSourceChunks_covers 7 "abc\n\ndef" 4 1 _ (by decide) (by decide)

end Sources
