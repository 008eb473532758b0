import Laoshiren.Sources.ContextChunks
import Laoshiren.Sources.Proofs.LocatorProofs

/-!
# Proofs: when the citations of a Source are exact

A chunk that is stored has the blanks around it taken off, and its place has not. What is shown begins at
that place all the same, so it is what the text has there if and only if no blank stands there.
-/

namespace Sources

open Runtime Raise TextSourceParser
open PersonalState (Calendar)

variable {cal : Calendar} {settings : Settings} {op : Op} {view : ℕ → World} {w : World} {s : State}
  {h : History World Op Reply} {reply : Reply} {replies replies' : List (Op × Reply)}
  {content normalized : ParsedSourceContent} {userId sourceId : UUID} {chunks : List SourceChunk}
  {chunk : SourceChunk} {segment : RetrievalSegment} {search : Search} {r : Source}
  {maxChunks maxCharacters : ℕ} {query : Option String}

/-! ## One chunk -/

/-- A chunk lies at a place of the text, and is what stands there without the blanks around it. -/
structure Placed (text : List Char) (c : SourceContextChunk) : Prop where
  place : ∃ start stop : ℕ, c.charStart = start ∧ c.charEnd = stop ∧ start < stop ∧
    stop ≤ text.length ∧ Text.strip (String.ofList (Text.slice text start stop)) = c.content
  visible : c.content ≠ ""

theorem pySlice_natCast (text : List Char) (start stop : ℕ) :
    pySlice text start stop = Text.slice text start stop := by
  have hplace : ∀ n : ℕ, (if (n : ℤ) < 0 then (text.length + (n : ℤ)).toNat else (n : ℤ).toNat) = n := by
    intro n
    rw [if_neg (by omega)]
    rfl
  unfold pySlice
  simp only [hplace]

/-- A stretch that begins with a character that shows loses blanks at its end only. -/
theorem trim_prefix_of_starts {cs : List Char} (h : Text.Starts cs) :
    Text.trim Text.isSpace cs <+: cs := by
  rw [h.trim]
  exact List.rdropWhile_prefix _ _

/-- What is shown of a chunk is what the text has at its place if and only if it begins there. -/
theorem Placed.exact_iff {text : List Char} {c : SourceContextChunk} {remaining : ℕ}
    (h : Placed text c) (hremaining : 0 < remaining) :
    pySlice text (cutChunk c remaining).charStart (cutChunk c remaining).charEnd =
      (cutChunk c remaining).content.toList ↔ BeginsVisibly text c := by
  obtain ⟨start, stop, hstart, hstop, hlt, hinside, hcontent⟩ := h.place
  have hcs : c.content.toList = Text.trim Text.isSpace (Text.slice text start stop) := by
    rw [← hcontent, toList_strip, String.toList_ofList]
  have hne : c.content.toList ≠ [] := fun hnil => h.visible (String.toList_eq_nil_iff.mp hnil)
  obtain ⟨first, hfirst, hshows⟩ : Text.Starts c.content.toList := by
    rw [hcs] at hne ⊢
    exact Text.starts_trim hne
  have hat : text[start]? = some text[start] := List.getElem?_eq_getElem (by omega)
  have hhead : (Text.slice text start stop).head? = some text[start] := by
    rw [List.head?_eq_getElem?, Text.getElem?_slice, if_pos (by omega), Nat.add_zero, hat]
  have hcut : (cutChunk c remaining).content.toList = c.content.toList.take remaining :=
    String.toList_ofList
  have hbegins : BeginsVisibly text c ↔ Text.isSpace text[start] = false := by
    unfold BeginsVisibly
    rw [hstart, Int.toNat_natCast, hat]
    exact ⟨fun ⟨d, hd, hvisible⟩ => by rwa [Option.some.inj hd], fun hvisible => ⟨_, rfl, hvisible⟩⟩
  have hlength : (c.content.toList.take remaining).length ≤ stop - start := by
    have htrim := Text.length_trim_le Text.isSpace (Text.slice text start stop)
    rw [Text.length_slice hinside, ← hcs] at htrim
    rw [List.length_take]
    omega
  have hend : (cutChunk c remaining).charEnd =
      ((start + (c.content.toList.take remaining).length : ℕ) : ℤ) := by
    have hcount : (cutChunk c remaining).content.length = (c.content.toList.take remaining).length := by
      rw [← String.length_toList, hcut]
    show min (c.charStart + (cutChunk c remaining).content.length : ℤ) c.charEnd = _
    rw [hcount, hstart, hstop]
    push_cast
    omega
  rw [hbegins, hcut, hend, show (cutChunk c remaining).charStart = start from hstart,
    pySlice_natCast]
  constructor
  · intro hexact
    have hhead' : (Text.slice text start
        (start + (c.content.toList.take remaining).length)).head? = some first := by
      rw [hexact, List.head?_take, if_neg (by omega), hfirst]
    rw [List.head?_eq_getElem?, Text.getElem?_slice] at hhead'
    split at hhead'
    · rw [Nat.add_zero, hat] at hhead'
      rw [Option.some.inj hhead']
      exact hshows
    · cases hhead'
  · intro hvisible
    have hprefix : c.content.toList <+: Text.slice text start stop := by
      rw [hcs]
      exact trim_prefix_of_starts ⟨_, hhead, hvisible⟩
    have htake := List.prefix_iff_eq_take.mp ((List.take_prefix remaining c.content.toList).trans hprefix)
    rw [Text.slice, Nat.add_sub_cancel_left]
    refine Eq.trans ?_ htake.symm
    unfold Text.slice
    rw [List.take_take, Nat.min_eq_left hlength]

/-! ## The loop -/

/-- What is shown is exact if and only if each chunk that is reached begins where it says. -/
theorem cutChunks_exact_iff {text : List Char} {found : List SourceContextChunk}
    (hfound : ∀ c ∈ found, Placed text c) (remaining : ℕ) :
    (∀ c ∈ cutChunks found remaining, pySlice text c.charStart c.charEnd = c.content.toList) ↔
      ∀ c ∈ reachedChunks found remaining, BeginsVisibly text c := by
  induction found generalizing remaining with
  | nil => exact ⟨fun _ => nofun, fun _ => nofun⟩
  | cons c found ih =>
    unfold cutChunks reachedChunks
    by_cases hspent : remaining = 0
    · rw [if_pos hspent, if_pos hspent]
      exact ⟨fun _ => nofun, fun _ => nofun⟩
    · rw [if_neg hspent, if_neg hspent]
      have hleft : remaining - (cutChunk c remaining).content.length = remaining - c.content.length := by
        have hcount : (cutChunk c remaining).content.length = min remaining c.content.length := by
          rw [← String.length_toList, ← String.length_toList]
          show (String.ofList (c.content.toList.take remaining)).toList.length = _
          rw [String.toList_ofList, List.length_take]
        omega
      simp only [List.forall_mem_cons, hleft]
      rw [(hfound c (.head _)).exact_iff (Nat.pos_of_ne_zero hspent),
        ih (fun c hc => hfound c (.tail _ hc)) (remaining - c.content.length)]

/-- No more is shown than the limit allows. -/
theorem cutChunks_total (found : List SourceContextChunk) (remaining : ℕ) :
    ((cutChunks found remaining).map fun c => c.content.length).sum ≤ remaining := by
  induction found generalizing remaining with
  | nil => exact Nat.zero_le _
  | cons c found ih =>
    unfold cutChunks
    by_cases hspent : remaining = 0
    · rw [if_pos hspent]
      exact Nat.zero_le _
    · rw [if_neg hspent]
      have hcut : (cutChunk c remaining).content.length ≤ remaining := by
        rw [← String.length_toList]
        show (String.ofList (c.content.toList.take remaining)).toList.length ≤ remaining
        rw [String.toList_ofList]
        exact List.length_take_le _ _
      have hrest := ih (remaining - (cutChunk c remaining).content.length)
      simp only [List.map_cons, List.sum_cons]
      omega

/-! ## What is found -/

theorem mem_ranked {α : Type} {embedding : α → Option Embedding} {content : α → String} {order : α → ℕ}
    {limit : ℕ} {queryEmbedding : Option Embedding} {queryText : Option String} {rows : List α} {a : α}
    (h : a ∈ search.ranked embedding content order limit queryEmbedding queryText rows) : a ∈ rows := by
  have hmem := List.mem_of_mem_take h
  simp only at hmem
  split at hmem
  · exact List.mem_of_mem_filter ((List.mem_insertionSort _).mp hmem)
  · exact List.mem_of_mem_filter ((List.mem_insertionSort _).mp hmem)
  · exact (List.mem_insertionSort _).mp hmem

/-- What is found of a Source are segments or chunks of it. -/
theorem mem_foundChunks {states : ℕ → State} {c : SourceContextChunk}
    (h : c ∈ search.foundChunks userId sourceId maxChunks query states) :
    (∃ n, ∃ segment ∈ (states n).segments, segment.fileId = sourceId ∧
        c = segmentToContextChunk segment) ∨
      ∃ n, ∃ chunk ∈ (states n).chunks, chunk.sourceId = sourceId ∧ c = chunkToContextChunk chunk := by
  have hsegments : ∀ {limit embedding text s segment},
      segment ∈ search.listSegments userId sourceId limit embedding text s →
        segment ∈ s.segments ∧ segment.fileId = sourceId := fun hmem => by
    have hmem := Table.mem_select.mp (mem_ranked hmem)
    simp only [Bool.and_eq_true, decide_eq_true_eq] at hmem
    exact ⟨hmem.1, hmem.2.1.1⟩
  have hchunks : ∀ {limit embedding text s chunk},
      chunk ∈ search.listChunks userId sourceId limit embedding text s →
        chunk ∈ s.chunks ∧ chunk.sourceId = sourceId := fun hmem => by
    have hmem := Table.mem_select.mp (mem_ranked hmem)
    simp only [Bool.and_eq_true, decide_eq_true_eq] at hmem
    exact ⟨hmem.1, hmem.2.1⟩
  unfold Search.foundChunks Search.foundFor at h
  simp only at h
  split at h
  · split at h
    · obtain ⟨chunk, hchunk, rfl⟩ := List.mem_map.mp h
      exact .inr ⟨3, chunk, (hchunks hchunk).1, (hchunks hchunk).2, rfl⟩
    · obtain ⟨chunk, hchunk, rfl⟩ := List.mem_map.mp h
      exact .inr ⟨2, chunk, (hchunks hchunk).1, (hchunks hchunk).2, rfl⟩
  · obtain ⟨segment, hsegment, rfl⟩ := List.mem_map.mp h
    unfold Search.listInspectSegments at hsegment
    split at hsegment
    · exact .inl ⟨1, segment, (hsegments hsegment).1, (hsegments hsegment).2, rfl⟩
    · exact .inl ⟨0, segment, (hsegments hsegment).1, (hsegments hsegment).2, rfl⟩

/-! ## What is stored at any time -/

/-- A completion made these chunks of a Source. -/
def Made (settings : Settings) (replies : List (Op × Reply)) (sourceId : UUID)
    (normalized : ParsedSourceContent) (chunks : List SourceChunk) : Prop :=
  ∃ process drawn now content, (.complete process drawn now, .completed sourceId content true) ∈ replies ∧
    content.normalized = .ok normalized ∧
    processedChunks settings sourceId normalized drawn.embeddings drawn.chunks = .ok chunks

/-- Every chunk and every segment was made by a completion. -/
structure AllMade (settings : Settings) (replies : List (Op × Reply)) (s : State) : Prop where
  chunks : ∀ chunk ∈ s.chunks, ∃ normalized chunks,
    Made settings replies chunk.sourceId normalized chunks ∧ chunk ∈ chunks
  segments : ∀ segment ∈ s.segments, ∃ normalized chunks generationId fresh,
    Made settings replies segment.fileId normalized chunks ∧
      segment ∈ segmentsOf segment.fileId generationId chunks fresh

theorem Made.mono (h : Made settings replies sourceId normalized chunks)
    (hreplies : ∀ entry ∈ replies, entry ∈ replies') :
    Made settings replies' sourceId normalized chunks := by
  obtain ⟨process, drawn, now, content, hentry, hmade⟩ := h
  exact ⟨process, drawn, now, content, hreplies _ hentry, hmade⟩

/-- The completion of a step made what is stored then. -/
theorem Settling.made (h : Settling settings replies w.toState)
    (hwrites : Writes settings op view w s reply) (hreply : reply.completes sourceId = true)
    (hr : r ∈ w.sources) (hid : r.id = sourceId) :
    ∃ normalized chunks generationId fresh,
      Made settings ((op, reply) :: replies) sourceId normalized chunks ∧
        (∀ chunk ∈ s.chunks, chunk.sourceId = sourceId → chunk ∈ chunks) ∧
        ∀ segment ∈ s.segments, segment.fileId = sourceId →
          segment ∈ segmentsOf sourceId generationId chunks fresh := by
  obtain ⟨r', hr', hmove⟩ := (writes_sources hwrites).kept r hr
  obtain rfl : r'.id = sourceId := hmove.later.id.trans hid
  have hunparsed := (h.completes hwrites hreply).2
  obtain ⟨process, drawn, now, content, rfl, rfl, -, hstored⟩ :=
    hwrites.completed_ready hunparsed hreply hr'
  obtain ⟨normalized, chunks, hnormalized, hchunks, -, hselect, hsegments⟩ := hstored.text
  refine ⟨normalized, chunks, drawn.generation.id, drawn.segments,
    ⟨process, drawn, now, content, .head _, hnormalized, hchunks⟩, fun chunk hchunk hmine => ?_, fun segment hsegment hmine => ?_⟩
  · rw [← hselect]
    exact Table.mem_select.mpr ⟨hchunk, decide_eq_true hmine⟩
  · rw [← hsegments]
    exact Table.mem_select.mpr ⟨hsegment, decide_eq_true hmine⟩

theorem AllMade.step (h : AllMade settings replies w.toState)
    (hsettling : Settling settings replies w.toState) (hwrites : Writes settings op view w s reply) :
    AllMade settings ((op, reply) :: replies) s where
  chunks chunk hchunk := by
    rcases writes_chunks hwrites hchunk with hold | ⟨hreply, r, hr, hid, -⟩
    · obtain ⟨normalized, chunks, hmade, hmem⟩ := h.chunks chunk hold
      exact ⟨normalized, chunks, hmade.mono fun _ => .tail _, hmem⟩
    · obtain ⟨normalized, chunks, -, -, hmade, hmem, -⟩ := hsettling.made hwrites hreply hr hid
      exact ⟨normalized, chunks, hmade, hmem chunk hchunk rfl⟩
  segments segment hsegment := by
    rcases writes_segments hwrites hsegment with hold | ⟨hreply, r, hr, hid, -⟩
    · obtain ⟨normalized, chunks, generationId, fresh, hmade, hmem⟩ := h.segments segment hold
      exact ⟨normalized, chunks, generationId, fresh, hmade.mono fun _ => .tail _, hmem⟩
    · obtain ⟨normalized, chunks, generationId, fresh, hmade, -, hmem⟩ :=
        hsettling.made hwrites hreply hr hid
      exact ⟨normalized, chunks, generationId, fresh, hmade, hmem segment hsegment rfl⟩

theorem allMade_reachable (hreachable : (system cal settings).Reachable h) :
    AllMade settings h.replies h.cur.toState := by
  refine (stable_filed.log_induction (fun replies w => Settling settings replies w.toState ∧
    AllMade settings replies w.toState) ?_ ?_ hreachable).2
  · intro w hw
    have hsettling := settling_reachable (.init hw)
    obtain rfl : w = {} := hw
    exact ⟨hsettling, fun chunk hchunk => absurd hchunk Table.not_mem_empty,
      fun segment hsegment => absurd hsegment Table.not_mem_empty⟩
  · exact fun op view w replies hfiled _ _ ⟨hsettling, hmade⟩ =>
      ⟨hsettling.step hfiled (commit_writes ..), hmade.step hsettling (commit_writes ..)⟩

/-- A Source is completed once, so what was made of it is one text. -/
theorem Made.unique {normalized' : ParsedSourceContent} {chunks' : List SourceChunk}
    (honce : (completions replies sourceId).length ≤ 1)
    (h : Made settings replies sourceId normalized chunks)
    (h' : Made settings replies sourceId normalized' chunks') :
    normalized = normalized' ∧ chunks = chunks' := by
  obtain ⟨process, drawn, now, content, hentry, hnormalized, hchunks⟩ := h
  obtain ⟨process', drawn', now', content', hentry', hnormalized', hchunks'⟩ := h'
  have hmem : ∀ {process drawn now content},
      (Op.complete process drawn now, Reply.completed sourceId content true) ∈ replies →
        (Op.complete process drawn now, Reply.completed sourceId content true) ∈
          completions replies sourceId :=
    fun hentry => List.mem_filter.mpr ⟨hentry, decide_eq_true rfl⟩
  have hsame : (Op.complete process drawn now, Reply.completed sourceId content true) =
      (.complete process' drawn' now', .completed sourceId content' true) := by
    obtain ⟨i, hi, hat⟩ := List.getElem_of_mem (hmem hentry)
    obtain ⟨j, hj, hat'⟩ := List.getElem_of_mem (hmem hentry')
    obtain rfl : i = j := by omega
    exact hat.symm.trans hat'
  obtain ⟨hop, hreply⟩ := Prod.mk.inj hsame
  obtain ⟨-, rfl, -⟩ := Op.complete.inj hop
  obtain ⟨-, rfl, -⟩ := Reply.completed.inj hreply
  obtain rfl := Except.ok.inj (hnormalized.symm.trans hnormalized')
  exact ⟨rfl, Except.ok.inj (hchunks.symm.trans hchunks')⟩

/-! ## The chunks of a parse -/

theorem asInt?_natCast (n : ℕ) : asInt? (.num n) = some (n : ℤ) := by
  simp [asInt?]

theorem Located.placed {text : List Char} {pages : List ParsedSourcePage}
    (h : Located text pages chunks) (hchunk : chunk ∈ chunks) :
    Placed text (chunkToContextChunk chunk) := by
  obtain ⟨hne, hcontent⟩ := h.content chunk hchunk
  obtain ⟨n, page, part, -, hpart, -, -, hlt, hstop⟩ := h.page chunk hchunk
  have hlength := Text.offset_add_length_le blankLine hpart
  rw [← h.joined] at hlength
  exact ⟨⟨chunk.charStart, chunk.charEnd, rfl, rfl, hlt, by omega, hcontent⟩, hne⟩

/-- The locator of a segment says what the places of its chunk say. -/
theorem segmentToContextChunk_place {fileId generationId : UUID} {stamp : Stamp}
    (h : Unplaced chunk) :
    (segmentToContextChunk (segmentOf fileId generationId chunk stamp)).charStart = chunk.charStart ∧
      (segmentToContextChunk (segmentOf fileId generationId chunk stamp)).charEnd = chunk.charEnd := by
  have hstart : (segmentOf fileId generationId chunk stamp).locator.get "char_start" =
      some (.num chunk.charStart) := by
    unfold segmentOf
    rw [Dict.get_merge_of_none h.1, Dict.get_ofFields]
    cases chunk.pageNumber <;> simp [List.lookup_cons]
  have hend : (segmentOf fileId generationId chunk stamp).locator.get "char_end" =
      some (.num chunk.charEnd) := by
    unfold segmentOf
    rw [Dict.get_merge_of_none h.2, Dict.get_ofFields]
    cases chunk.pageNumber <;> simp [List.lookup_cons]
  unfold segmentToContextChunk
  simp only [hstart, hend, Option.getD_some, asInt?_natCast, and_self]

theorem Placed.of_segment {text : List Char} {fileId generationId : UUID} {fresh : ℕ → Stamp}
    (h : ∀ chunk ∈ chunks, Placed text (chunkToContextChunk chunk) ∧ Unplaced chunk)
    (hsegment : segment ∈ segmentsOf fileId generationId chunks fresh) :
    Placed text (segmentToContextChunk segment) := by
  obtain ⟨n, hn, rfl⟩ := List.mem_mapIdx.mp hsegment
  obtain ⟨⟨⟨start, stop, hstart, hstop, hrest⟩, hvisible⟩, hunplaced⟩ := h _ (List.getElem_mem hn)
  obtain ⟨hstart', hstop'⟩ := segmentToContextChunk_place hunplaced
  exact ⟨⟨start, stop, hstart'.trans hstart, hstop'.trans hstop, hrest⟩, hvisible⟩

/-! ## Every run -/

/-- What is shown of a Source that is ready is exact, and within the limit, if and only if each chunk that is
reached begins with a character that shows. -/
theorem context_exact (search : Search) (maxChunks maxCharacters : ℕ) (query : Option String)
    {result : List SourceContextChunk}
    (hr : (system cal settings).ReachableIf (fun op _ _ => op.Parses) h)
    (hview : ∀ n, view n ∈ h.states)
    (hget : SourceRepository.get userId sourceId (view 0).sources = some r)
    (hready : r.processingStatus = .ready)
    (hresult : getContextChunks search userId sourceId maxChunks maxCharacters query
      (fun n => (view n).toState) = .ok result) :
    ∃ text, r.extractedText = some text ∧ (Exact text.toList maxCharacters result ↔
      ∀ c ∈ reachedChunks (search.foundChunks userId sourceId maxChunks query
        fun n => (view (n + 1)).toState) maxCharacters, BeginsVisibly text.toList c) := by
  obtain ⟨hmem, hwhere⟩ := Table.get_eq_some hget
  obtain ⟨rfl, -, hlive⟩ := of_decide_eq_true hwhere
  have honce := (settling_reachable hr.reachable).once r.id
  -- the completion that made the Source ready
  obtain ⟨h₀, hr₀, hcur₀, hreplies₀⟩ := hr.exists_of_mem (hview 0)
  rw [← hcur₀] at hmem
  obtain ⟨process, drawn, now, content, hwon, hstored⟩ :=
    (settling_reachable hr₀.reachable).won r hmem hlive hready
  obtain ⟨normalized, chunks, hnormalized, hchunks, htext, -⟩ := hstored.text
  have hentry₀ : (Op.complete process drawn now, Reply.completed r.id content true) ∈ h₀.replies := by
    have hentry : (Op.complete process drawn now, Reply.completed r.id content true) ∈
        completions h₀.replies r.id := by
      rw [hwon]
      exact .head _
    exact (List.mem_filter.mp hentry).1
  have hentry := hreplies₀.subset hentry₀
  have hmade : Made settings h.replies r.id normalized chunks :=
    ⟨process, drawn, now, content, hentry, hnormalized, hchunks⟩
  obtain ⟨j, hj⟩ := List.mem_iff_getElem?.mp hentry
  obtain ⟨⟨parser, document, hparse⟩, -⟩ := completed_at hr hj
  have hlocated := (paged_parse hparse).located hnormalized hchunks
  have hplaced : ∀ chunk ∈ chunks,
      Placed normalized.text.toList (chunkToContextChunk chunk) ∧ Unplaced chunk := fun chunk hchunk =>
    ⟨hlocated.placed hchunk, lasting_unplaced.processedChunks hchunks hchunk⟩
  -- whatever is found of the Source, that completion made it
  have hfound : ∀ c ∈ search.foundChunks userId r.id maxChunks query
      (fun n => (view (n + 1)).toState), Placed normalized.text.toList c := by
    intro c hc
    rcases mem_foundChunks hc with ⟨n, segment, hsegment, hfile, rfl⟩ | ⟨n, chunk, hchunk, hmine, rfl⟩
    · obtain ⟨h₁, hr₁, hcur₁, hreplies₁⟩ := hr.exists_of_mem (hview (n + 1))
      rw [← hcur₁] at hsegment
      obtain ⟨normalized', chunks', generationId, fresh, hmade', hin⟩ :=
        (allMade_reachable hr₁.reachable).segments segment hsegment
      rw [hfile] at hmade' hin
      obtain ⟨rfl, rfl⟩ := hmade.unique honce (hmade'.mono fun _ hold => hreplies₁.subset hold)
      exact .of_segment hplaced hin
    · obtain ⟨h₁, hr₁, hcur₁, hreplies₁⟩ := hr.exists_of_mem (hview (n + 1))
      rw [← hcur₁] at hchunk
      obtain ⟨normalized', chunks', hmade', hin⟩ :=
        (allMade_reachable hr₁.reachable).chunks chunk hchunk
      rw [hmine] at hmade'
      obtain ⟨rfl, rfl⟩ := hmade.unique honce (hmade'.mono fun _ hold => hreplies₁.subset hold)
      exact (hplaced chunk hin).1
  simp only [getContextChunks, bind_eq_ok, pure_eq_ok] at hresult
  obtain ⟨-, -, -, -, rfl⟩ := hresult
  refine ⟨normalized.text, htext, ?_⟩
  rw [← cutChunks_exact_iff hfound maxCharacters]
  exact ⟨fun hexact => hexact.content, fun hcontent => ⟨hcontent, cutChunks_total _ _⟩⟩

/-- A search that finds nothing by a query. -/
def noSearch : Search where
  cosineDistance _ _ := 0
  ilike _ _ := false
  embed _ := none

/-- What is shown of the two pages is exact if their chunks begin with characters that show. -/
theorem context_exact_cutPages :
    ∃ r text, SourceRepository.get 1 10
        ((system PersonalState.tallies twoAttempts).serial {} uploadCutPages).cur.sources = some r ∧
      r.extractedText = some text ∧
      (Exact text.toList 12000 (cutChunks (noSearch.foundChunks 1 10 8 none fun _ =>
          ((system PersonalState.tallies twoAttempts).serial {} uploadCutPages).cur.toState) 12000) ↔
        ∀ c ∈ reachedChunks (noSearch.foundChunks 1 10 8 none fun _ =>
          ((system PersonalState.tallies twoAttempts).serial {} uploadCutPages).cur.toState) 12000,
          BeginsVisibly text.toList c) := by
  have hstatus : (SourceRepository.get 1 10 ((system PersonalState.tallies twoAttempts).serial {}
      uploadCutPages).cur.sources).map Source.processingStatus = some .ready := by
    decide +kernel
  obtain ⟨r, hget, hready⟩ := Option.map_eq_some_iff.mp hstatus
  obtain ⟨text, htext, hexact⟩ := context_exact noSearch 8 12000 none
    ((system _ _).serial_reachableIf rfl _ uploadCutPages_parses) (fun _ => .head _) hget hready
    (by
      unfold getContextChunks
      rw [bind_of_ensure (by decide), bind_of_orRaise hget]
      rfl)
  exact ⟨r, text, hget, htext, hexact⟩

/-! ## A blank at the beginning of a chunk -/

variable {m n : ℕ} {fresh : ℕ → Stamp}

/-- Two words with a blank between them. -/
def twoWords (m n : ℕ) : List Char := List.replicate m 'a' ++ ' ' :: List.replicate n 'b'

theorem mem_twoWords {c : Char} (h : c ∈ twoWords m n) : c = 'a' ∨ c = ' ' ∨ c = 'b' := by
  rcases List.mem_append.mp h with h | h
  · exact .inl (List.eq_of_mem_replicate h)
  · rcases List.mem_cons.mp h with rfl | h
    · exact .inr (.inl rfl)
    · exact .inr (.inr (List.eq_of_mem_replicate h))

theorem length_twoWords : (twoWords m n).length = m + (n + 1) := by
  rw [twoWords, List.length_append, List.length_cons, List.length_replicate, List.length_replicate]

theorem starts_twoWords : Text.Starts (twoWords (m + 1) n) :=
  ⟨'a', by rw [twoWords, List.replicate_succ]; rfl, by decide⟩

theorem rstrip_twoWords : Text.rstrip (twoWords m (n + 1)) = twoWords m (n + 1) := by
  have hlast : twoWords m (n + 1) = twoWords m n ++ ['b'] := by
    rw [twoWords, twoWords, List.replicate_succ' (n := n), List.append_assoc, List.cons_append]
  rw [hlast]
  exact List.rdropWhile_concat_neg _ _ _ (by decide)

theorem normalizedText_twoWords :
    normalizedText (String.ofList (twoWords (m + 1) (n + 1))) = twoWords (m + 1) (n + 1) := by
  have hbreaks : ∀ c ∈ twoWords (m + 1) (n + 1), Text.isLineBreak c = false := by
    intro c hc
    rcases mem_twoWords hc with rfl | rfl | rfl <;> decide
  unfold normalizedText Text.splitLines
  rw [String.toList_ofList, Text.linesFrom_plain hbreaks (.inr starts_twoWords.ne_nil), List.reverse_nil,
    List.nil_append, List.map_singleton, List.intercalate_singleton, rstrip_twoWords,
    starts_twoWords.trim, rstrip_twoWords]

/-- A text of two words is cut once, and the chunks overlap. -/
theorem buildSourceChunks_twoWords (fresh : ℕ → Stamp) :
    ∃ c c', buildSourceChunks sourceId (String.ofList (twoWords 1800 300)) 2000 200 fresh = .ok [c, c'] ∧
      c.id = (fresh 0).id ∧ c.ordinal = 0 ∧ c.charStart = 0 ∧ c.charEnd = 2000 ∧
      c'.id = (fresh 1).id ∧ c'.ordinal = 1 ∧ c'.charStart = 1800 := by
  have hplain : '\n' ∉ twoWords 1800 300 := by
    intro h
    rcases mem_twoWords h with h | h | h <;> cases h
  have hlength : (twoWords 1800 300).length = 2101 := length_twoWords
  have hfirst : (twoWords 1800 300)[0]? = some 'a' := by
    obtain ⟨c, hc, -⟩ := starts_twoWords (m := 1799) (n := 300)
    rw [← List.head?_eq_getElem?]
    rfl
  have hlast : (twoWords 1800 300)[1801]? = some 'b' := by
    unfold twoWords
    rw [List.getElem?_append_right (by rw [List.length_replicate]; omega), List.length_replicate]
    rfl
  obtain ⟨c, hc, hid⟩ := chunkAt_visible _ 2000 hfirst le_rfl (by omega) (by decide)
  obtain ⟨c', hc', hid'⟩ := chunkAt_visible 1800 2101 hlast (by omega) (by omega) (by decide)
  obtain ⟨hordinal, hstart, hstop, -, -⟩ := chunkAt_eq_some hc
  obtain ⟨hordinal', hstart', -, -, -⟩ := chunkAt_eq_some hc'
  refine ⟨c, c', ?_, hid, hordinal, hstart, hstop, hid', hordinal', hstart'⟩
  unfold buildSourceChunks
  rw [bind_of_ensure (by omega)]
  simp only [String.toList_ofList]
  rw [chunksFrom_rounds (2099 + 1 + 1) (by omega) (by omega), chunksFrom, if_pos (by omega)]
  simp only [chunkEnd_plain hplain, hlength]
  rw [show min (0 + 2000) 2101 = 2000 from rfl, if_neg (by omega), hc, chunksFrom, if_pos (by omega)]
  simp only [chunkEnd_plain hplain, hlength]
  rw [show min (max (2000 - 200) (0 + 1) + 2000) 2101 = 2101 from rfl, if_pos (by omega)]
  simp only [Option.toList_some, List.length_singleton]
  rw [show max (2000 - 200) (0 + 1) = 1800 from rfl, Nat.zero_add, hc']
  rfl

/-- The parse of a text of one page. -/
def onePage (cs : List Char) : ParsedSourceContent := ⟨String.ofList cs, [⟨none, String.ofList cs⟩]⟩

/-- A parser with the limits that the constructor defaults to. -/
def defaultParser : TextSourceParser where
  positive := by decide

/-- A text that is normalised already, and within the limit, is parsed to itself. -/
theorem parse_onePage {cs : List Char} (hnormalized : normalizedText (String.ofList cs) = cs)
    (hne : cs ≠ []) (hlength : cs.length ≤ defaultParser.maxExtractedCharacters) :
    defaultParser.parse (.text (some (String.ofList cs))) = .ok (onePage cs) := by
  have hpages : normalizedPages [(none, String.ofList cs)] defaultParser.maxExtractedCharacters false =
      (onePage cs).pages := by
    unfold normalizedPages
    simp only [Bool.false_eq_true, if_false, Nat.sub_zero, hnormalized, List.take_of_length_le hlength]
    rw [if_neg (by decide), if_neg hne]
    rfl
  have hraw : defaultParser.rawPages (.text (some (String.ofList cs))) =
      .ok [(none, String.ofList cs)] := rfl
  have htext : String.ofList cs ≠ "" := fun hempty => hne (String.ofList_injective hempty)
  unfold TextSourceParser.parse
  rw [hraw]
  simp only [bind, Except.bind, pure, Except.pure, hpages]
  rw [if_neg]
  · rfl
  · exact htext

theorem normalized_onePage {cs : List Char} (hstrip : Text.strip (String.ofList cs) = String.ofList cs)
    (hne : cs ≠ []) : (onePage cs).normalized = .ok (onePage cs) := by
  have htext : String.ofList cs ≠ "" := fun hempty => hne (String.ofList_injective hempty)
  unfold ParsedSourceContent.normalized onePage
  simp only [hstrip]
  rw [bind_of_ensure htext]
  simp only [List.filter_cons, hstrip, List.filter_nil]
  rw [if_pos (decide_eq_true htext)]
  simp only [List.map_cons, List.map_nil, hstrip]
  rfl

/-- The two words, as their parse gives them. -/
def wordsParsed : ParsedSourceContent := onePage (twoWords 1800 300)

theorem starts_words : Text.Starts (twoWords 1800 300) := starts_twoWords (m := 1799)

theorem parse_words :
    defaultParser.parse (.text (some (String.ofList (twoWords 1800 300)))) = .ok wordsParsed := by
  have hlength : (twoWords 1800 300).length = 2101 := length_twoWords
  refine parse_onePage (normalizedText_twoWords (m := 1799) (n := 299)) starts_words.ne_nil ?_
  rw [hlength]
  decide

theorem normalized_words : wordsParsed.normalized = .ok wordsParsed := by
  have hrstrip : Text.rstrip (twoWords 1800 300) = twoWords 1800 300 := rstrip_twoWords (n := 299)
  refine normalized_onePage ?_ starts_words.ne_nil
  unfold Text.strip
  rw [String.toList_ofList, starts_words.trim, hrstrip]

/-- The page of the two words. -/
def wordsPage : ParsedSourcePage := ⟨none, String.ofList (twoWords 1800 300)⟩

/-- The chunks that `complete_processing` makes of the two words. -/
theorem processedChunks_words (settings : Settings) (fresh : ℕ → Stamp) :
    ∃ c c', processedChunks settings sourceId wordsParsed [] fresh = .ok [c, c'] ∧
      c.id = (fresh 0).id ∧ c.ordinal = 0 ∧ c.charStart = 0 ∧ c.charEnd = 2000 ∧
      c'.id = (fresh 1).id ∧ c'.ordinal = 1 ∧ c'.charStart = 1800 := by
  obtain ⟨c, c', hbuilt, hid, hordinal, hstart, hstop, hid', hordinal', hstart'⟩ :=
    buildSourceChunks_twoWords fun n => fresh (0 + n)
  have hbuilt : buildSourceChunks sourceId wordsPage.text 2000 200 (fun n => fresh (0 + n)) =
      .ok [c, c'] := hbuilt
  have hpages : pageChunks sourceId 2000 200 fresh [wordsPage] 0 [] =
      .ok [chunkOfPage wordsPage 0 0 c, chunkOfPage wordsPage 0 1 c'] := by
    unfold pageChunks
    rw [List.length_nil, bind_of_ok hbuilt]
    rfl
  have hchunks : processedChunks settings sourceId wordsParsed [] fresh =
      .ok [withVersions settings (chunkOfPage wordsPage 0 0 c),
        withVersions settings (chunkOfPage wordsPage 0 1 c')] := by
    unfold processedChunks buildSourceChunksFromContent
    rw [show wordsParsed.pages = [wordsPage] from rfl, if_neg (List.cons_ne_nil _ _), bind_of_ok hpages]
    rfl
  refine ⟨_, _, hchunks, hid, rfl, ?_, ?_, hid', rfl, ?_⟩
  · exact (Nat.zero_add _).trans hstart
  · exact (Nat.zero_add _).trans hstop
  · exact (Nat.zero_add _).trans hstart'

/-- Worker 2 claims a note. -/
def claimedNote : History World Op Reply :=
  (system PersonalState.tallies twoAttempts).serial {}
    (uploadNote ++ [.claim 2 none 1 fun _ => false])

/-- The Source of the note, as worker 2 holds it. -/
def heldNote : Source where
  userId := 1
  sourceType := .other
  origin := .upload
  title := "note.txt"
  mimeType := "text/plain"
  objectKey := note.objectKey 7
  contentHash := "hash"
  size := 2
  idempotencyKey := "note"
  id := 10
  metadata := (note.source twoAttempts .other 7 2 "hash" ⟨10, 0⟩).metadata
  processingClaimOwner := some (workerOwner 2)
  processingLeaseExpiresAt := some 11
  processingHeartbeatAt := some 1
  processingAttemptCount := 1
  createdAt := 0

def noteJob : SourceProcessingJob := ⟨10, 1, "note.txt", "text/plain", note.objectKey 7, 1⟩

theorem claimedNote_cur : claimedNote.cur.sources.rows = [heldNote] ∧
    claimedNote.cur.activities 2 = .parsing noteJob false ∧ claimedNote.cur.chunks.rows = [] ∧
    claimedNote.cur.generations.rows = [] ∧ claimedNote.cur.segments.rows = [] ∧
    claimedNote.cur.files.rows = [fileFromSource (note.source twoAttempts .other 7 2 "hash" ⟨10, 0⟩)] := by
  decide +kernel

theorem exists_insertAll?_pair {α : Type} [Row α] {t : Table α} (r r' : α) (hempty : t.rows = [])
    (hne : ¬Row.conflict r r') : ∃ t', t.insertAll? [r, r'] = some t' := by
  obtain ⟨t₁, ht₁⟩ := Table.exists_insert? (t := t) (r := r) fun s hs => by
    rw [← Table.mem_rows, hempty] at hs
    cases hs
  obtain ⟨t₂, ht₂⟩ := Table.exists_insert? (t := t₁) (r := r') fun s hs => by
    rw [← Table.mem_rows, Table.rows_insert? ht₁, hempty] at hs
    obtain rfl := List.mem_singleton.mp hs
    exact hne
  exact ⟨t₂, by simp only [Table.insertAll?, ht₁, ht₂, Option.bind_some]⟩

/-- Worker 2 completes the note with the two words. -/
theorem completeProcessing_words :
    ∃ s c c', completeProcessing twoAttempts 10 (workerOwner 2) wordsParsed noteDrawn 2
        claimedNote.cur.toState = .ok (s, true) ∧
      processedChunks twoAttempts 10 wordsParsed [] noteDrawn.chunks = .ok [c, c'] ∧
      c.charStart = 0 ∧ c.charEnd = 2000 ∧ c'.charStart = 1800 ∧ c.ordinal = 0 ∧ c'.ordinal = 1 ∧
      s.sources.rows = [SourceRepository.completeValues wordsParsed.text 2 heldNote] ∧
      s.files = claimedNote.cur.files ∧
      s.generations.rows = [newGeneration twoAttempts 10 ⟨30, 2⟩] ∧
      s.segments.rows = segmentsOf 10 30 [c, c'] noteDrawn.segments := by
  obtain ⟨hsources, -, hnochunks, hnogenerations, hnosegments, hfiles⟩ := claimedNote_cur
  obtain ⟨c, c', hchunks, hid, hordinal, hstart, hstop, hid', hordinal', hstart'⟩ :=
    processedChunks_words twoAttempts noteDrawn.chunks
  have hmem : heldNote ∈ claimedNote.cur.sources := by
    rw [← Table.mem_rows, hsources]
    exact .head _
  have hcompleted : (SourceRepository.completeProcessing 10 (workerOwner 2) wordsParsed.text 2
      claimedNote.cur.sources).2 = true := by
    show (claimedNote.cur.sources.rowcount (SourceRepository.claimedBy 10 (workerOwner 2)) == 1) = true
    decide +kernel
  have hrows : (SourceRepository.completeProcessing 10 (workerOwner 2) wordsParsed.text 2
      claimedNote.cur.sources).1.rows = [SourceRepository.completeValues wordsParsed.text 2 heldNote] := by
    show claimedNote.cur.sources.rows.map _ = _
    have hheld : SourceRepository.claimedBy 10 (workerOwner 2) heldNote = true := by decide +kernel
    rw [hsources, List.map_singleton, Table.updateRow_pos hheld]
  obtain ⟨chunks, hinsert⟩ := exists_insertAll?_pair c c' hnochunks (by
    rintro (hsame | ⟨-, hsame⟩)
    · rw [hid, hid'] at hsame
      exact absurd hsame (by decide)
    · rw [hordinal, hordinal'] at hsame
      cases hsame)
  obtain ⟨generations, hgenerations⟩ := Table.exists_insert?
    (t := FileRepository.retireActiveGenerations 10 2 claimedNote.cur.generations)
    (r := newGeneration twoAttempts 10 ⟨30, 2⟩) fun g hg => by
      have hnone : (FileRepository.retireActiveGenerations 10 2 claimedNote.cur.generations).rows =
          [] := List.map_eq_nil_iff.mpr hnogenerations
      rw [← Table.mem_rows, hnone] at hg
      cases hg
  have hnone : (claimedNote.cur.segments.delete fun r => r.generationId = 30).rows = [] := by
    exact List.filter_eq_nil_iff.mpr fun r hr => by
      rw [hnosegments] at hr
      cases hr
  obtain ⟨segments, hsegments⟩ := exists_insertAll?_pair (segmentOf 10 30 c (noteDrawn.segments 0))
    (segmentOf 10 30 c' (noteDrawn.segments 1)) hnone (by
      rintro (hsame | ⟨-, hsame⟩)
      · have hdrawn : (noteDrawn.segments 0).id ≠ (noteDrawn.segments 1).id := by decide
        exact hdrawn hsame
      · have hsame : c.ordinal = c'.ordinal := hsame
        rw [hordinal, hordinal'] at hsame
        cases hsame)
  refine ⟨{ claimedNote.cur.toState with
      sources := (SourceRepository.completeProcessing 10 (workerOwner 2) wordsParsed.text 2
        claimedNote.cur.sources).1, chunks, generations, segments }, c, c', ?_, hchunks, hstart, hstop, hstart', hordinal, hordinal', hrows,
    rfl, ?_, ?_⟩
  · unfold completeProcessing
    have hprocessed : processedChunks twoAttempts 10 wordsParsed noteDrawn.embeddings noteDrawn.chunks =
        .ok [c, c'] := hchunks
    rw [bind_of_ok normalized_words, bind_of_ok hprocessed]
    generalize hX : SourceRepository.completeProcessing 10 (workerOwner 2) wordsParsed.text 2
      claimedNote.cur.sources = X at hcompleted hrows ⊢
    obtain ⟨sources, completed⟩ := X
    obtain rfl : completed = true := hcompleted
    simp only [if_true]
    rw [bind_of_orRaise hinsert]
    have hfound : SourceRepository.getById 10 sources =
        some (SourceRepository.completeValues wordsParsed.text 2 heldNote) := by
      refine Table.get_of_mem ?_ (decide_eq_true rfl) fun r hr => .inl (of_decide_eq_true hr)
      rw [← Table.mem_rows, hrows]
      exact .head _
    simp only [hfound]
    have hmirror : mirrorSourceUpload (SourceRepository.completeValues wordsParsed.text 2 heldNote)
        { claimedNote.cur.toState with sources, chunks } =
          .ok { claimedNote.cur.toState with sources, chunks } := by
      have hfile : FileRepository.getIncludingDeleted 1 10 claimedNote.cur.files =
          some (fileFromSource (note.source twoAttempts .other 7 2 "hash" ⟨10, 0⟩)) := by
        decide +kernel
      unfold mirrorSourceUpload
      split
      · rfl
      next hmissing => exact absurd (hmissing.symm.trans hfile) nofun
    unfold mirrorProcessingComplete
    rw [bind_of_ok (x := mirrorSourceUpload _ _ >>= _) (a := { claimedNote.cur.toState with
      sources, chunks, generations, segments })]
    · rfl
    · exact (bind_of_ok hmirror _).trans
        ((bind_of_orRaise hgenerations _).trans (bind_of_orRaise hsegments _))
  · rw [Table.rows_insert? hgenerations]
    have hnone : (FileRepository.retireActiveGenerations 10 2 claimedNote.cur.generations).rows =
        [] := List.map_eq_nil_iff.mpr hnogenerations
    rw [hnone]
    rfl
  · rw [Table.rows_insertAll? hsegments, hnone]
    rfl

theorem activities_setActivity {process : UUID} {activity : Activity} :
    (w.setActivity process activity).activities process = activity := Function.update_self _ _ _

variable (cal settings content view) in
theorem commit_parse {process : UUID} {job : SourceProcessingJob}
    (hparsing : w.activities process = .parsing job false) :
    World.commit cal settings (.parse process (.ok content)) view w =
      (w.setActivity process (.parsed job content), .done) := by
  simp only [World.commit, hparsing, Bool.false_eq_true, if_false]

variable (cal view) in
theorem commit_complete {process : UUID} {job : SourceProcessingJob} {drawn : Processing}
    {now : Timestamp} {success : Bool} (hparsed : w.activities process = .parsed job content)
    (hok : completeProcessing settings job.id (workerOwner process) content drawn now w.toState =
      .ok (s, success)) :
    World.commit cal settings (.complete process drawn now) view w =
      ({ w with toState := s }.setActivity process .idle, .completed job.id content success) := by
  simp only [World.commit, hparsed, hok]

/-- Worker 2 parses the note, and completes it. -/
def readNote (content : ParsedSourceContent) : History World Op Reply :=
  (system PersonalState.tallies twoAttempts).extend
    ((system PersonalState.tallies twoAttempts).extend claimedNote (.parse 2 (.ok content))
      fun _ => claimedNote.cur)
    (.complete 2 noteDrawn 2) fun _ => claimedNote.cur

theorem readNote_cur (hok : completeProcessing twoAttempts 10 (workerOwner 2) content noteDrawn 2
    claimedNote.cur.toState = .ok (s, true)) : (readNote content).cur.toState = s := by
  have hparse := commit_parse PersonalState.tallies twoAttempts
    (fun _ => claimedNote.cur) content claimedNote_cur.2.1
  have hcomplete := commit_complete PersonalState.tallies (fun _ => claimedNote.cur)
    (w := claimedNote.cur.setActivity 2 (.parsed noteJob content)) activities_setActivity hok
  show (World.commit PersonalState.tallies twoAttempts (.complete 2 noteDrawn 2)
    (fun _ => claimedNote.cur) (World.commit PersonalState.tallies twoAttempts
      (.parse 2 (.ok content)) (fun _ => claimedNote.cur) claimedNote.cur).1).1.toState = s
  rw [hparse, hcomplete]
  rfl

theorem readNote_reachable {parser : TextSourceParser} {document : Document}
    (hcontent : parser.parse document = .ok content) :
    (system PersonalState.tallies twoAttempts).ReachableIf (fun op _ _ => op.Parses)
      (readNote content) := by
  have hclaimed : (system PersonalState.tallies twoAttempts).ReachableIf (fun op _ _ => op.Parses)
      claimedNote := by
    refine (system _ _).serial_reachableIf rfl _ ((system _ _).serialMeets_of_forall
      (fun op hop _ _ => ?_) _)
    intro process content hparse
    subst hparse
    simp [uploadNote] at hop
  refine (hclaimed.commit _ _ (fun _ => .head _) ?_).commit _ _ (fun _ => .tail _ (.head _)) ?_
  · intro process content' hparse
    obtain ⟨-, hsame⟩ := Op.parse.inj hparse
    obtain rfl := Except.ok.inj hsame
    exact ⟨parser, document, hcontent⟩
  · intro process content' hparse
    cases hparse

/-- Without a query, what is found are the segments in their order. -/
theorem listSegments_words {c c' : SourceChunk} (hordinal : c.ordinal = 0) (hordinal' : c'.ordinal = 1)
    (hfiles : s.files = claimedNote.cur.files)
    (hgenerations : s.generations.rows = [newGeneration twoAttempts 10 ⟨30, 2⟩])
    (hsegments : s.segments.rows = segmentsOf 10 30 [c, c'] noteDrawn.segments) :
    noSearch.listSegments 1 10 8 none none s = segmentsOf 10 30 [c, c'] noteDrawn.segments := by
  have hfile : (s.files.get fun f => f.id = 10 ∧ f.ownerUserId = 1 ∧ f.deletedAt = none).isSome = true := by
    rw [hfiles]
    decide +kernel
  have hgeneration : (s.generations.get fun g => g.id = 30 ∧ g.isActive = true).isSome = true := by
    unfold Table.get
    rw [hgenerations]
    decide +kernel
  have hselect : (s.segments.select fun segment => segment.fileId = 10 &&
      (s.files.get fun f => f.id = 10 ∧ f.ownerUserId = 1 ∧ f.deletedAt = none).isSome &&
      (s.generations.get fun g => g.id = segment.generationId ∧ g.isActive = true).isSome) =
        segmentsOf 10 30 [c, c'] noteDrawn.segments := by
    unfold Table.select
    rw [hsegments, List.filter_eq_self]
    intro segment hsegment
    obtain ⟨hid, hmine⟩ := segmentsOf_fileId hsegment
    rw [hid, hmine, hfile, hgeneration]
    decide
  have hsorted : (segmentsOf 10 30 [c, c'] noteDrawn.segments).Pairwise fun r r' =>
      r.segmentOrder ≤ r'.segmentOrder := by
    refine List.pairwise_pair.mpr ?_
    show c.ordinal ≤ c'.ordinal
    omega
  unfold Search.listSegments Search.ranked
  simp only
  rw [hselect, hsorted.insertionSort_eq]
  rfl

/-- What is shown of the note is not exact: the second chunk begins at a blank that it does not show. -/
theorem context_inexact :
    (system PersonalState.tallies twoAttempts).ReachableIf (fun op _ _ => op.Parses)
        (readNote wordsParsed) ∧
      ∃ r result, SourceRepository.get 1 10 (readNote wordsParsed).cur.sources = some r ∧
        r.processingStatus = .ready ∧
        getContextChunks noSearch 1 10 8 12000 none
          (fun _ => (readNote wordsParsed).cur.toState) = .ok result ∧
        ∃ text, r.extractedText = some text ∧ ¬Exact text.toList 12000 result := by
  obtain ⟨s, c, c', hcompletes, hchunks, hstart, hstop, hstart', hordinal, hordinal', hsources, hfiles,
    hgenerations, hsegments⟩ := completeProcessing_words
  refine ⟨readNote_reachable parse_words, ?_⟩
  rw [readNote_cur hcompletes]
  have hget : SourceRepository.get 1 10 s.sources =
      some (SourceRepository.completeValues wordsParsed.text 2 heldNote) := by
    refine Table.get_of_mem ?_ (decide_eq_true ⟨rfl, rfl, rfl⟩)
      fun r hr => .inl (of_decide_eq_true hr).1
    rw [← Table.mem_rows, hsources]
    exact .head _
  have hfound : noSearch.foundChunks 1 10 8 none (fun _ => s) =
      (segmentsOf 10 30 [c, c'] noteDrawn.segments).map segmentToContextChunk := by
    have hlist := listSegments_words hordinal hordinal' hfiles hgenerations hsegments
    unfold Search.foundChunks Search.foundFor Search.listInspectSegments
    simp only [Option.map_none, Option.filter_none, Option.bind_none, Option.isNone_none, if_true, hlist]
    rfl
  refine ⟨_, cutChunks (noSearch.foundChunks 1 10 8 none fun _ => s) 12000, hget, rfl, ?_,
    wordsParsed.text, rfl, ?_⟩
  · unfold getContextChunks
    rw [bind_of_ensure (by decide), bind_of_orRaise hget]
    rfl
  · rw [hfound]
    intro hexact
    have hlocated := (paged_parse parse_words).located normalized_words hchunks
    have hplaced : ∀ d ∈ (segmentsOf 10 30 [c, c'] noteDrawn.segments).map segmentToContextChunk,
        Placed wordsParsed.text.toList d := by
      intro d hd
      obtain ⟨segment, hsegment, rfl⟩ := List.mem_map.mp hd
      exact .of_segment (fun chunk hchunk => ⟨hlocated.placed hchunk,
        lasting_unplaced.processedChunks hchunks hchunk⟩) hsegment
    have hbegins := (cutChunks_exact_iff hplaced 12000).mp hexact.content
    have hunplaced : ∀ chunk ∈ [c, c'], Unplaced chunk := fun _ hchunk =>
      lasting_unplaced.processedChunks hchunks hchunk
    have hshort : c.content.length < 12000 := by
      obtain ⟨-, hcontent⟩ := hlocated.content c (.head _)
      have hlength : (Text.trim Text.isSpace (Text.slice wordsParsed.text.toList c.charStart
          c.charEnd)).length = c.content.length := by
        rw [← String.length_toList, ← hcontent, toList_strip, String.toList_ofList]
      have htrim := Text.length_trim_le Text.isSpace (Text.slice wordsParsed.text.toList c.charStart
        c.charEnd)
      have hslice : (Text.slice wordsParsed.text.toList c.charStart c.charEnd).length ≤
          c.charEnd - c.charStart := List.length_take_le _ _
      omega
    obtain ⟨character, hcharacter, hvisible⟩ := hbegins
      (segmentToContextChunk (segmentOf 10 30 c' (noteDrawn.segments 1))) (by
        show _ ∈ reachedChunks [segmentToContextChunk (segmentOf 10 30 c (noteDrawn.segments 0)),
          segmentToContextChunk (segmentOf 10 30 c' (noteDrawn.segments 1))] 12000
        unfold reachedChunks
        rw [if_neg (by decide)]
        unfold reachedChunks
        have hleft : 12000 - (segmentToContextChunk (segmentOf 10 30 c
            (noteDrawn.segments 0))).content.length ≠ 0 := by
          show 12000 - c.content.length ≠ 0
          omega
        rw [if_neg hleft]
        exact .tail _ (.head _))
    rw [(segmentToContextChunk_place (hunplaced c' (.tail _ (.head _)))).1, hstart'] at hcharacter
    have hblank : (twoWords 1800 300)[1800]? = some ' ' := by
      unfold twoWords
      rw [List.getElem?_append_right (by rw [List.length_replicate]), List.length_replicate]
      rfl
    have htext : wordsParsed.text.toList = twoWords 1800 300 := String.toList_ofList
    rw [htext] at hcharacter
    obtain rfl := Option.some.inj (hcharacter.symm.trans hblank)
    cases hvisible

end Sources
