import Laoshiren.Sources.Proofs.CoverageProofs
import Laoshiren.Sources.Proofs.SettlingProofs
import Laoshiren.Sources.Proofs.TextParserProofs

/-!
# Proofs: where the chunks of a Source lie in its text

Only the last page of a parse can end in blanks, so what `complete_processing` strips from the pages it
strips from the text, and the lengths of the pages before a page say where it begins.
-/

namespace Sources

open Runtime Raise TextSourceParser
open PersonalState (Calendar)

variable {cal : Calendar} {settings : Settings} {op : Op} {view : ℕ → World} {w : World}
  {h : History World Op Reply} {parser : TextSourceParser} {document : Document}
  {content normalized : ParsedSourceContent} {sourceId : UUID} {chunks before : List SourceChunk}
  {chunk : SourceChunk} {fresh : ℕ → Stamp} {chunkCharacters overlap baseOffset : ℕ}
  {pages : List ParsedSourcePage}

/-! ## What a parse gives -/

/-- The text joins the pages, which begin with a character that shows; only the last one can end in
blanks. -/
structure Paged (content : ParsedSourceContent) : Prop where
  pages : content.pages ≠ []
  text : content.text.toList = blankLine.intercalate (content.pages.map fun page => page.text.toList)
  starts : ∀ page ∈ content.pages, Text.Starts page.text.toList
  ends : ∀ page ∈ content.pages.dropLast, Text.rstrip page.text.toList = page.text.toList

theorem normalizedPages_zero (rawPages : List RawPage) (started : Bool) :
    normalizedPages rawPages 0 started = [] := by
  cases rawPages with
  | nil => rfl
  | cons raw rawPages =>
    unfold normalizedPages
    rw [if_pos (Nat.zero_sub _)]

/-- The pages that the loop keeps: only one that takes all that is left can be cut. -/
theorem normalizedPages_spec (rawPages : List RawPage) (remaining : ℕ) (started : Bool) :
    (∀ page ∈ normalizedPages rawPages remaining started, Text.Starts page.text.toList) ∧
      ∀ page ∈ (normalizedPages rawPages remaining started).dropLast,
        Text.rstrip page.text.toList = page.text.toList := by
  induction rawPages generalizing remaining started with
  | nil => exact ⟨List.forall_mem_nil _, List.forall_mem_nil _⟩
  | cons raw rawPages ih =>
    obtain ⟨pageNumber, raw⟩ := raw
    unfold normalizedPages
    simp only
    generalize remaining - (if started then 2 else 0) = budget
    by_cases hspent : budget = 0
    · rw [if_pos hspent]
      exact ⟨List.forall_mem_nil _, List.forall_mem_nil _⟩
    · rw [if_neg hspent]
      by_cases htext : (normalizedText raw).take budget = []
      · rw [if_pos htext]
        exact ih budget started
      · rw [if_neg htext]
        have hne : normalizedText raw ≠ [] := fun hnil => htext (by rw [hnil, List.take_nil])
        obtain ⟨c, hc, hvisible⟩ : Text.Starts (normalizedText raw) := Text.starts_trim hne
        obtain ⟨hstarts, hends⟩ := ih (budget - ((normalizedText raw).take budget).length) true
        constructor
        · refine List.forall_mem_cons.mpr ⟨⟨c, ?_, hvisible⟩, hstarts⟩
          rw [String.toList_ofList, List.head?_take, if_neg hspent]
          exact hc
        · by_cases hrest : normalizedPages rawPages
              (budget - ((normalizedText raw).take budget).length) true = []
          · rw [hrest]
            exact List.forall_mem_nil _
          · rw [List.dropLast_cons_of_ne_nil hrest]
            refine List.forall_mem_cons.mpr ⟨?_, hends⟩
            -- something is left of the budget, so the page was not cut
            have hleft : budget - ((normalizedText raw).take budget).length ≠ 0 := fun hzero =>
              hrest (by rw [hzero, normalizedPages_zero])
            rw [List.length_take] at hleft
            rw [String.toList_ofList, List.take_of_length_le (by omega)]
            exact Text.rstrip_trim _

theorem paged_parse (h : parser.parse document = .ok content) : Paged content := by
  unfold parse at h
  cases hraw : parser.rawPages document with
  | error error =>
    rw [hraw] at h
    cases h
  | ok rawPages =>
    rw [hraw] at h
    simp only [bind, Except.bind, pure, Except.pure] at h
    split at h
    · cases h
    next htext =>
      obtain rfl := Except.ok.inj h
      obtain ⟨hstarts, hends⟩ :=
        normalizedPages_spec rawPages parser.maxExtractedCharacters false
      refine ⟨fun hnil => htext ?_, toList_intercalate _, hstarts, hends⟩
      simp only at hnil
      rw [hnil]
      rfl

/-! ## What is stripped -/

/-- The page without the blanks around it. -/
def stripped (page : ParsedSourcePage) : ParsedSourcePage := { page with text := Text.strip page.text }

/-- The texts of the pages without the blanks around them. -/
def partsOf (pages : List ParsedSourcePage) : List (List Char) :=
  pages.map fun page => (Text.strip page.text).toList

theorem toList_strip (text : String) :
    (Text.strip text).toList = Text.trim Text.isSpace text.toList := String.toList_ofList

/-- The pages are stripped like the text that joins them. -/
theorem Paged.strips (h : Paged content) (hnormalized : content.normalized = .ok normalized) :
    normalized.pages = content.pages.map stripped ∧
      normalized.text.toList = blankLine.intercalate (partsOf content.pages) := by
  simp only [ParsedSourceContent.normalized, bind_eq_ok, ensure_eq_ok, pure_eq_ok] at hnormalized
  obtain ⟨_, -, rfl⟩ := hnormalized
  have htrim : ∀ page ∈ content.pages,
      (Text.strip page.text).toList = Text.rstrip page.text.toList := fun page hpage => by
    rw [toList_strip, (h.starts page hpage).trim]
  constructor
  · have hall : content.pages.filter (fun page => Text.strip page.text ≠ "") = content.pages := by
      refine List.filter_eq_self.mpr fun page hpage => decide_eq_true fun hempty => ?_
      refine (h.starts page hpage).rstrip_ne_nil ?_
      rw [← htrim page hpage, hempty]
      rfl
    simp only [hall]
    rfl
  · have hstarts : ∀ part ∈ content.pages.map (fun page => page.text.toList), Text.Starts part := by
      intro part hpart
      obtain ⟨page, hpage, rfl⟩ := List.mem_map.mp hpart
      exact h.starts page hpage
    have hends : ∀ part ∈ (content.pages.map fun page => page.text.toList).dropLast,
        Text.rstrip part = part := by
      intro part hpart
      rw [← List.map_dropLast] at hpart
      obtain ⟨page, hpage, rfl⟩ := List.mem_map.mp hpart
      exact h.ends page hpage
    have hne : content.pages.map (fun page => page.text.toList) ≠ [] := by
      simpa using h.pages
    have hparts : (content.pages.map fun page => page.text.toList).map Text.rstrip =
        partsOf content.pages := by
      rw [List.map_map]
      exact List.map_congr_left fun page hpage => (htrim page hpage).symm
    rw [toList_strip, h.text, (Text.starts_intercalate hne hstarts).trim,
      Text.rstrip_intercalate_last hstarts hends, hparts]

/-! ## The chunks of the pages -/

/-- A chunk lies on a page, when the first page begins at `baseOffset`. -/
def OnPage (pages : List ParsedSourcePage) (baseOffset : ℕ) (chunk : SourceChunk) : Prop :=
  ∃ n page start stop, pages[n]? = some page ∧ chunk.pageNumber = page.pageNumber ∧
    chunk.charStart = baseOffset +
      (Text.offset blankLine (pages.map fun page => page.text.toList) n + start) ∧
    chunk.charEnd = baseOffset +
      (Text.offset blankLine (pages.map fun page => page.text.toList) n + stop) ∧
    start < stop ∧ stop ≤ page.text.toList.length ∧ chunk.content ≠ "" ∧
    Text.strip (String.ofList (Text.slice page.text.toList start stop)) = chunk.content

theorem OnPage.cons {page : ParsedSourcePage}
    (h : OnPage pages (baseOffset + page.text.length + 2) chunk) :
    OnPage (page :: pages) baseOffset chunk := by
  obtain ⟨n, found, start, stop, hfound, hnumber, hstart, hstop, hrest⟩ := h
  have hline : blankLine.length = 2 := rfl
  have hlength : page.text.toList.length = page.text.length := String.length_toList
  refine ⟨n + 1, found, start, stop, hfound, hnumber, ?_, ?_, hrest⟩
  · rw [List.map_cons, Text.offset_cons_succ, hstart]
    omega
  · rw [List.map_cons, Text.offset_cons_succ, hstop]
    omega

theorem ordinal_chunksOfPage (page : ParsedSourcePage) (baseOffset count : ℕ)
    (found : List SourceChunk) :
    (found.mapIdx fun n chunk => chunkOfPage page baseOffset (count + n) chunk).map
      SourceChunk.ordinal = (List.range found.length).map (count + ·) := by
  refine List.ext_getElem ?_ fun n hn hn' => ?_
  · rw [List.length_map, List.length_mapIdx, List.length_map, List.length_range]
  · rw [List.getElem_map, List.getElem_mapIdx, List.getElem_map, List.getElem_range]
    rfl

/-- The loop over the pages: the chunks are numbered on, and each lies on its page. -/
theorem pageChunks_spec (hsize : 0 < chunkCharacters) (hoverlap : overlap < chunkCharacters)
    (hbefore : before.map SourceChunk.ordinal = List.range before.length)
    (h : pageChunks sourceId chunkCharacters overlap fresh pages baseOffset before = .ok chunks) :
    chunks.map SourceChunk.ordinal = List.range chunks.length ∧
      ∀ chunk ∈ chunks, chunk ∈ before ∨ OnPage pages baseOffset chunk := by
  induction pages generalizing baseOffset before with
  | nil =>
    obtain rfl := pure_eq_ok.mp h
    exact ⟨hbefore, fun chunk hchunk => .inl hchunk⟩
  | cons page pages ih =>
    simp only [pageChunks, bind_eq_ok] at h
    obtain ⟨found, hfound, h⟩ := h
    obtain ⟨found', hfound', -, hchunked⟩ := buildSourceChunks_covers sourceId page.text chunkCharacters
      overlap (fun n => fresh (before.length + n)) hsize hoverlap
    obtain rfl := Except.ok.inj (hfound.symm.trans hfound')
    obtain ⟨hordinals, hplaces⟩ := ih (by
      rw [List.map_append, hbefore, ordinal_chunksOfPage, List.length_append, List.length_mapIdx,
        List.range_add]) h
    refine ⟨hordinals, fun chunk hchunk => ?_⟩
    rcases hplaces chunk hchunk with hmem | hpage
    · rcases List.mem_append.mp hmem with hmem | hmem
      · exact .inl hmem
      · obtain ⟨n, hn, rfl⟩ := List.mem_mapIdx.mp hmem
        have hchunk := List.getElem_mem hn
        refine .inr ⟨0, page, found[n].charStart, found[n].charEnd, rfl, rfl, ?_, ?_,
          hchunked.nonempty found[n] hchunk, (hchunked.inside found[n] hchunk).2,
          hchunked.visible found[n] hchunk, hchunked.content found[n] hchunk⟩
        · rw [Text.offset_zero, Nat.zero_add]
          rfl
        · rw [Text.offset_zero, Nat.zero_add]
          rfl
    · exact .inr hpage.cons

/-! ## What is stored -/

/-- What a chunk says of its place. -/
def SourceChunk.place (chunk : SourceChunk) : ℕ × String × ℕ × ℕ × Option ℤ :=
  (chunk.ordinal, chunk.content, chunk.charStart, chunk.charEnd, chunk.pageNumber)

theorem withEmbeddings_place (embeddings : List Embedding) (chunks : List SourceChunk) :
    (withEmbeddings embeddings chunks).map SourceChunk.place = chunks.map SourceChunk.place := by
  unfold withEmbeddings
  split
  next hlength =>
    refine List.ext_getElem (by simp [hlength]) fun n hn hn' => ?_
    rw [List.getElem_map, List.getElem_map, List.getElem_zipWith]
    rfl
  · rfl

/-- The versions and the vectors leave the places of the chunks alone. -/
theorem processedChunks_place {embeddings : List Embedding}
    (h : processedChunks settings sourceId normalized embeddings fresh = .ok chunks) :
    ∃ built, buildSourceChunksFromContent sourceId normalized fresh = .ok built ∧
      chunks.map SourceChunk.place = built.map SourceChunk.place := by
  simp only [processedChunks, bind_eq_ok, pure_eq_ok] at h
  obtain ⟨built, hbuilt, rfl⟩ := h
  refine ⟨built, hbuilt, ?_⟩
  rw [withEmbeddings_place, List.map_map]
  rfl

/-- The chunks of a text that joins pages: each lies on its page, and is what its place says. -/
structure Located (text : List Char) (pages : List ParsedSourcePage) (chunks : List SourceChunk) :
    Prop where
  /-- The part of a page is its text without the blanks around it. -/
  joined : text = blankLine.intercalate (partsOf pages)
  content : ∀ chunk ∈ chunks, chunk.content ≠ "" ∧
    Text.strip (String.ofList (Text.slice text chunk.charStart chunk.charEnd)) = chunk.content
  page : ∀ chunk ∈ chunks, ∃ n page part, pages[n]? = some page ∧ (partsOf pages)[n]? = some part ∧
    chunk.pageNumber = page.pageNumber ∧
    Text.offset blankLine (partsOf pages) n ≤ chunk.charStart ∧ chunk.charStart < chunk.charEnd ∧
    chunk.charEnd ≤ Text.offset blankLine (partsOf pages) n + part.length
  ordinals : chunks.map SourceChunk.ordinal = List.range chunks.length

/-- What `complete_processing` stores for a parse. -/
theorem Paged.located {embeddings : List Embedding} (h : Paged content)
    (hnormalized : content.normalized = .ok normalized)
    (hchunks : processedChunks settings sourceId normalized embeddings fresh = .ok chunks) :
    Located normalized.text.toList content.pages chunks := by
  obtain ⟨hpages, htext⟩ := h.strips hnormalized
  obtain ⟨built, hbuilt, hplace⟩ := processedChunks_place hchunks
  have hne : normalized.pages ≠ [] := by
    rw [hpages]
    simpa using h.pages
  unfold buildSourceChunksFromContent at hbuilt
  rw [if_neg hne] at hbuilt
  obtain ⟨hordinals, hplaces⟩ := pageChunks_spec (by decide) (by decide) rfl hbuilt
  have hparts : normalized.pages.map (fun page => page.text.toList) = partsOf content.pages := by
    rw [hpages, List.map_map]
    rfl
  have hchunk : ∀ chunk ∈ chunks, OnPage normalized.pages 0 chunk := by
    intro chunk hchunk
    have hmem : chunk.place ∈ built.map SourceChunk.place := by
      rw [← hplace]
      exact List.mem_map_of_mem hchunk
    obtain ⟨b, hb, hsame⟩ := List.mem_map.mp hmem
    simp only [SourceChunk.place, Prod.mk.injEq] at hsame
    obtain ⟨-, hcontent, hstart, hstop, hnumber⟩ := hsame
    rcases hplaces b hb with hnone | ⟨n, page, start, stop, hpage, hrest⟩
    · cases hnone
    · rw [hcontent, hstart, hstop, hnumber] at hrest
      exact ⟨n, page, start, stop, hpage, hrest⟩
  refine ⟨htext, fun chunk hmem => ?_, fun chunk hmem => ?_, ?_⟩
  · obtain ⟨n, page, start, stop, hpage, -, hstart, hstop, -, hinside, hne, hcontent⟩ :=
      hchunk chunk hmem
    have hpart : (partsOf content.pages)[n]? = some page.text.toList := by
      rw [← hparts, List.getElem?_map, hpage]
      rfl
    refine ⟨hne, ?_⟩
    rw [hstart, hstop, Nat.zero_add, Nat.zero_add, hparts, htext, Text.slice_intercalate hpart hinside]
    exact hcontent
  · obtain ⟨n, page, start, stop, hpage, hnumber, hstart, hstop, hlt, hinside, -, -⟩ :=
      hchunk chunk hmem
    rw [hpages, List.getElem?_map] at hpage
    obtain ⟨page, hpage', rfl⟩ := Option.map_eq_some_iff.mp hpage
    refine ⟨n, page, (Text.strip page.text).toList, hpage', ?_, hnumber, ?_, by omega, ?_⟩
    · unfold partsOf
      rw [List.getElem?_map, hpage']
      rfl
    · rw [hstart, hparts]
      omega
    · have hinside : stop ≤ (Text.strip page.text).toList.length := hinside
      rw [hstop, hparts]
      omega
  · have hcounts := congrArg (List.map Prod.fst) hplace
    rw [List.map_map, List.map_map] at hcounts
    have hlength := congrArg List.length hplace
    rw [List.length_map, List.length_map] at hlength
    calc chunks.map SourceChunk.ordinal = built.map SourceChunk.ordinal := hcounts
      _ = List.range chunks.length := by rw [hordinals, hlength]

/-! ## Every run -/

/-- A worker that parses a Source has it parsed by the parser. -/
def Op.Parses (op : Op) : Prop :=
  ∀ process content, op = .parse process (.ok content) →
    ∃ (parser : TextSourceParser) (document : Document), parser.parse document = .ok content

/-- The workers hold what the parser made. -/
def ParsesOnly (w : World) : Prop :=
  ∀ process job content, w.activities process = .parsed job content →
    ∃ (parser : TextSourceParser) (document : Document), parser.parse document = .ok content

theorem ParsesOnly.step (h : ParsesOnly w) (hop : op.Parses) :
    ParsesOnly (World.commit cal settings op view w).1 := by
  intro process job content hactivity
  have hmove := commit_activity cal settings op view (w := w)
    process
  rw [hactivity] at hmove
  have hbefore := h process
  generalize w.activities process = before at hmove hbefore
  cases hmove with
  | kept => exact hbefore _ _ rfl
  | parsed hparse => exact hop process content hparse

theorem stable_parses : Program.Stable (system cal settings) (fun op _ _ => op.Parses)
    (fun w => NewUploads w ∧ ParsesOnly w) SourcesLater := by
  refine stable_sources.strengthen ParsesOnly ?_ fun _ _ _ _ hparses _ hop => hparses.step hop
  intro w hw
  obtain rfl : w = {} := hw
  exact fun _ _ _ h => nomatch h

/-- What a completion leaves is what the worker made of a parse. -/
theorem completed_at (hr : (system cal settings).ReachableIf (fun op _ _ => op.Parses) h) {j : ℕ}
    (hj : h.replies[j]? = some (op, .completed sourceId content true)) :
    (∃ (parser : TextSourceParser) (document : Document), parser.parse document = .ok content) ∧
      ∀ w, h.states[j]? = some w → ∀ r ∈ w.sources, r.id = sourceId →
        ∃ drawn, Stored settings w.toState r content drawn := by
  obtain ⟨h₀, view, hr₀, -, -, hreply, hstates⟩ := hr.answered hj
  have hreply : (World.commit cal settings op view h₀.cur).2 = .completed sourceId content true := hreply
  have hwrites := commit_writes cal settings op view
    (w := h₀.cur)
  have hfirst := congrArg List.head? hstates
  rw [List.head?_drop] at hfirst
  have hcompletes : (World.commit cal settings op view h₀.cur).2.completes sourceId = true := by
    rw [hreply]
    exact decide_eq_true rfl
  have hunparsed := ((settling_reachable hr₀.reachable).completes hwrites hcompletes).2
  constructor
  · rw [hreply] at hwrites
    generalize (World.commit cal settings op view h₀.cur).1.toState = s at hwrites
    cases hwrites with
    | nothing hclaimed hcompleted => exact absurd rfl (hcompleted _ _)
    | completed hop hactivity hcompletes => exact (stable_parses.inv_cur hr₀).2 _ _ _ hactivity
  · intro w hw r hmem hid
    obtain rfl : (World.commit cal settings op view h₀.cur).1 = w :=
      Option.some.inj (hfirst.symm.trans hw)
    rw [← hid] at hunparsed hcompletes
    obtain ⟨process, drawn, now, content', -, hreply', -, hstored⟩ :=
      hwrites.completed_ready hunparsed hcompletes hmem
    obtain ⟨-, rfl, -⟩ := Reply.completed.inj (hreply.symm.trans hreply')
    exact ⟨drawn, hstored⟩

/-- The chunks that are stored for a Source are located in its text. -/
def ChunksLocated (w : World) (r : Source) (content : ParsedSourceContent) : Prop :=
  ∃ text, r.extractedText = some text ∧
    Located text.toList content.pages (w.chunks.select fun chunk => chunk.sourceId = r.id)

theorem Stored.located {r : Source} {drawn : Processing}
    (hstored : Stored settings w.toState r content drawn) (hparse : parser.parse document = .ok content) :
    ChunksLocated w r content := by
  obtain ⟨normalized, chunks, hnormalized, hchunks, htext, hselect, -⟩ := hstored.text
  refine ⟨normalized.text, htext, ?_⟩
  rw [hselect]
  exact (paged_parse hparse).located hnormalized hchunks

/-- In every history in which the workers use the parser, the chunks that a completion stores are located in
the text of their Source, and they are as long as the Source is ready. -/
theorem chunks_locate (hr : (system cal settings).ReachableIf (fun op _ _ => op.Parses) h) :
    (∀ (j : ℕ) op sourceId content w,
        h.replies[j]? = some (op, .completed sourceId content true) → h.states[j]? = some w →
        ∀ r ∈ w.sources, r.id = sourceId → ChunksLocated w r content) ∧
      ∀ r ∈ h.cur.sources, r.deletedAt = none → r.processingStatus = .ready →
        ∃ (parser : TextSourceParser) (document : Document) (content : ParsedSourceContent),
          parser.parse document = .ok content ∧ ChunksLocated h.cur r content := by
  constructor
  · intro j op sourceId content w hj hw r hmem hid
    obtain ⟨⟨parser, document, hparse⟩, hstored⟩ := completed_at hr hj
    obtain ⟨drawn, hstored⟩ := hstored w hw r hmem hid
    exact hstored.located hparse
  · intro r hmem hlive hready
    obtain ⟨process, drawn, now, content, hwon, hstored⟩ :=
      (settling_reachable hr.reachable).won r hmem hlive hready
    have hentry : (Op.complete process drawn now, Reply.completed r.id content true) ∈
        completions h.replies r.id := by
      rw [hwon]
      exact .head _
    obtain ⟨j, hj⟩ := List.mem_iff_getElem?.mp (List.mem_filter.mp hentry).1
    obtain ⟨⟨parser, document, hparse⟩, -⟩ := completed_at hr hj
    exact ⟨parser, document, content, hparse, hstored.located hparse⟩

/-- Two pages, of which the limit of five characters cuts the second one after a blank. -/
def cutPages : ParsedSourceContent := ⟨"a\n\nb ", [⟨some 1, "a"⟩, ⟨some 2, "b "⟩]⟩

/-- A PDF with two pages is uploaded, parsed and completed. -/
def uploadCutPages : List Op :=
  [.put 1 { note with safeName := "two.pdf", extension := ".pdf", mimeType := "application/pdf" } 7 2
      "hash" ⟨10, 0⟩,
    .addUpload 1 (pure ()), .claim 2 none 1 fun _ => false, .parse 2 (.ok cutPages),
    .complete 2 noteDrawn 2]

theorem uploadCutPages_parses : (system PersonalState.tallies twoAttempts).SerialMeets
    (fun op _ _ => op.Parses) ⟨{}, [], []⟩ uploadCutPages := by
  refine (system _ _).serialMeets_of_forall (fun op hop _ _ => ?_) _
  intro process content hparse
  subst hparse
  have hsame : process = 2 ∧ content = cutPages := by
    simpa [uploadCutPages] using hop
  obtain ⟨-, rfl⟩ := hsame
  exact ⟨fiveCharacters, .pdf (.ok ⟨false, [.ok "a", .ok "b c"]⟩), by decide +kernel⟩

/-- The chunks of the two pages are located in what is left of their text. -/
theorem chunks_locate_cutPages :
    ∃ r ∈ ((system PersonalState.tallies twoAttempts).serial {} uploadCutPages).cur.sources,
      r.processingStatus = .ready ∧
        ∃ (parser : TextSourceParser) (document : Document) (content : ParsedSourceContent),
          parser.parse document = .ok content ∧
          ChunksLocated ((system PersonalState.tallies twoAttempts).serial {} uploadCutPages).cur r
            content := by
  obtain ⟨r, hr, hlive, hready⟩ : ∃ r ∈ ((system PersonalState.tallies twoAttempts).serial {}
      uploadCutPages).cur.sources.rows, r.deletedAt = none ∧ r.processingStatus = .ready := by
    decide +kernel
  exact ⟨r, hr, hready, (chunks_locate ((system _ _).serial_reachableIf rfl _
    uploadCutPages_parses)).2 r hr hlive hready⟩

end Sources
