import Laoshiren.Sources.ContextChunks
import Laoshiren.Sources.Proofs.ContextProofs
import Laoshiren.Sources.Proofs.DeletionProofs

/-!
# Proofs: what a search for files answers

A search is answered with Files of the user that were not deleted when they were looked for, and
with fragments of texts that workers parsed for these Files, whatever commits between its statements
(`search_sound`). A File that is deleted is not found again (`deleted_not_found`).
-/

namespace Sources

open Runtime Raise Table
open PersonalState (Calendar)

variable {cal : Calendar} {settings : Settings} {search : Search} {userId fileId : UUID}
  {query : String} {scope : SearchScope} {limit : ℕ} {states : ℕ → State} {s : State} {f : File}
  {h : History World Op Reply} {item : SearchResultItem} {fragment : SearchFragment}

/-! ## Files -/

theorem mem_filesForUser {covers : UUID → Bool}
    (hf : f ∈ search.filesForUser userId query covers limit s) :
    f ∈ s.files ∧ f.ownerUserId = userId ∧ f.deletedAt = none := by
  have hselected := (List.mem_insertionSort _).mp (List.mem_of_mem_take hf)
  obtain ⟨hmem, hwhere⟩ := mem_select.mp hselected
  obtain ⟨howner, hlive, -⟩ := of_decide_eq_true hwhere
  exact ⟨hmem, howner, hlive⟩

theorem mem_sourcesForUser {covers : UUID → Bool} {r : Source}
    (hr : r ∈ search.sourcesForUser userId query covers limit s) :
    r ∈ s.sources ∧ r.userId = userId ∧ r.deletedAt = none := by
  have hselected := (List.mem_insertionSort _).mp (List.mem_of_mem_take hr)
  obtain ⟨hmem, hwhere⟩ := mem_select.mp hselected
  obtain ⟨huser, hlive, -⟩ := of_decide_eq_true hwhere
  exact ⟨hmem, huser, hlive⟩

/-- A File that is found has a Source of the user that is not deleted. -/
theorem source_of_found (hmirrors : ∀ n, Mirrors (states n).sources (states n).files)
    (hf : f ∈ search.foundFiles userId query scope limit states) :
    ∃ n, ∃ r ∈ (states n).sources, r.id = f.id ∧ r.userId = userId ∧ r.deletedAt = none := by
  unfold Search.foundFiles at hf
  split at hf
  · obtain ⟨r, hr, rfl⟩ := List.mem_map.mp hf
    obtain ⟨hmem, huser, hlive⟩ := mem_sourcesForUser hr
    exact ⟨1, r, hmem, rfl, huser, hlive⟩
  · obtain ⟨hmem, howner, hlive⟩ := mem_filesForUser hf
    obtain ⟨r, hr, hmirror⟩ := (hmirrors 0).source f hmem
    refine ⟨0, r, hr, hmirror.id.symm, hmirror.owner.symm.trans howner, ?_⟩
    have hdeleted := hmirror.deleted
    rw [hlive] at hdeleted
    exact Option.isNone_iff_eq_none.mp (by simpa using hdeleted.symm)

/-! ## Fragments -/

theorem mem_listSegments {limit : ℕ} {embedding : Option Embedding} {text : Option String}
    {segment : RetrievalSegment}
    (hmem : segment ∈ search.listSegments userId fileId limit embedding text s) :
    segment ∈ s.segments ∧ segment.fileId = fileId := by
  have hselected := mem_select.mp (mem_ranked hmem)
  simp only [Bool.and_eq_true, decide_eq_true_eq] at hselected
  exact ⟨hselected.1, hselected.2.1.1⟩

theorem mem_listInspectSegments {limit : ℕ} {embedding : Option Embedding} {text : Option String}
    {segment : RetrievalSegment}
    (hmem : segment ∈ search.listInspectSegments userId fileId limit embedding text states) :
    ∃ n, segment ∈ (states n).segments ∧ segment.fileId = fileId := by
  unfold Search.listInspectSegments at hmem
  split at hmem
  · exact ⟨1, mem_listSegments hmem⟩
  · exact ⟨0, mem_listSegments hmem⟩

theorem mem_listChunks {limit : ℕ} {embedding : Option Embedding} {text : Option String}
    {chunk : SourceChunk} (hmem : chunk ∈ search.listChunks userId fileId limit embedding text s) :
    chunk ∈ s.chunks ∧ chunk.sourceId = fileId := by
  have hselected := mem_select.mp (mem_ranked hmem)
  simp only [Bool.and_eq_true, decide_eq_true_eq] at hselected
  exact ⟨hselected.1, hselected.2.1⟩

/-- The fragments of an item are its segments, or its chunks where it has no segments. -/
theorem fragment_of_buildSearchResultItem {source : Option Source}
    {segments : List RetrievalSegment} {chunks : List SourceChunk}
    (hmem : fragment ∈ (buildSearchResultItem f source segments chunks).fragments) :
    (∃ segment ∈ segments, fragment = segmentFragment segment) ∨
      ∃ chunk ∈ chunks, fragment = chunkFragment chunk := by
  unfold buildSearchResultItem at hmem
  by_cases hsegments : segments = []
  · rw [if_pos hsegments] at hmem
    obtain ⟨chunk, hchunk, rfl⟩ := List.mem_map.mp hmem
    exact .inr ⟨chunk, List.mem_of_mem_take hchunk, rfl⟩
  · rw [if_neg hsegments] at hmem
    obtain ⟨segment, hsegment, rfl⟩ := List.mem_map.mp hmem
    exact .inl ⟨segment, List.mem_of_mem_take hsegment, rfl⟩

/-- A fragment shows the beginning of a segment or of a chunk of its File. -/
theorem fragment_of_resultItem
    (hmem : fragment ∈ (search.resultItem userId query f states).fragments) :
    (∃ n, ∃ segment ∈ (states n).segments, segment.fileId = f.id ∧
      fragment.preview = preview segment.content) ∨
    ∃ n, ∃ chunk ∈ (states n).chunks, chunk.sourceId = f.id ∧
      fragment.preview = preview chunk.content := by
  obtain ⟨segment, hsegment, rfl⟩ | ⟨chunk, hchunk, rfl⟩ := fragment_of_buildSearchResultItem hmem
  · obtain ⟨n, hstored, hid⟩ := mem_listInspectSegments hsegment
    exact .inl ⟨n + 1, segment, hstored, hid, rfl⟩
  · obtain ⟨hstored, hid⟩ := mem_listChunks (List.mem_ite_nil_right.mp hchunk).2
    exact .inr ⟨3, chunk, hstored, hid, rfl⟩

theorem mem_resultItems {files : List File}
    (hmem : item ∈ search.resultItems userId query files states) :
    ∃ f ∈ files, ∃ n, item = search.resultItem userId query f fun m => states (m + n) := by
  induction files generalizing states with
  | nil => exact absurd hmem List.not_mem_nil
  | cons f files ih =>
    rcases List.mem_cons.mp hmem with rfl | hmem
    · exact ⟨f, List.mem_cons_self, 0, rfl⟩
    · obtain ⟨f', hf', n, rfl⟩ := ih hmem
      exact ⟨f', List.mem_cons_of_mem _ hf', n + 4, rfl⟩

/-- Every item is about a File that was found. -/
theorem searchFiles_ok {limit : ℤ} {items : List SearchResultItem}
    (hok : search.searchFiles userId query scope limit states = .ok items) (hitem : item ∈ items) :
    ∃ f ∈ search.foundFiles userId (Text.strip query) scope limit.toNat states,
      ∃ n, item = search.resultItem userId (Text.strip query) f fun m => states (m + n) := by
  simp only [Search.searchFiles, bind_eq_ok, ensure_eq_ok] at hok
  obtain ⟨-, -, hok⟩ := hok
  split at hok
  · exact absurd hok (by simp)
  · obtain rfl := pure_eq_ok.mp hok
    obtain ⟨f, hf, n, rfl⟩ := mem_resultItems hitem
    exact ⟨f, hf, n + 2, rfl⟩

/-! ## Every run -/

/-- What is stored in any state of a run was made by a completion. -/
theorem allMade_mem (hreachable : (system cal settings).Reachable h) {w : World}
    (hw : w ∈ h.states) : AllMade settings h.replies w.toState := by
  obtain ⟨h₀, hreachable₀, rfl, hsuffix⟩ := hreachable.exists_of_mem hw
  have hmade := allMade_reachable hreachable₀
  have hreplies : ∀ entry ∈ h₀.replies, entry ∈ h.replies := fun _ => hsuffix.mem
  constructor
  · intro chunk hchunk
    obtain ⟨normalized, chunks, hcompleted, hmem⟩ := hmade.chunks chunk hchunk
    exact ⟨normalized, chunks, hcompleted.mono hreplies, hmem⟩
  · intro segment hsegment
    obtain ⟨normalized, chunks, generationId, fresh, hcompleted, hmem⟩ :=
      hmade.segments segment hsegment
    exact ⟨normalized, chunks, generationId, fresh, hcompleted.mono hreplies, hmem⟩

/-- In every run, a search is answered with Files of the user that were not deleted when it looked
for them, and each fragment begins a chunk of a text that a worker parsed for that File. -/
theorem search_sound (search : Search) (hreachable : (system cal settings).Reachable h)
    {view : ℕ → World} (hviews : ∀ n, view n ∈ h.states) {limit : ℤ} {items : List SearchResultItem}
    (hok : search.searchFiles userId query scope limit (fun n => (view n).toState) = .ok items) :
    ∀ item ∈ items,
      (∃ n, ∃ r ∈ (view n).sources, r.id = item.fileId ∧ r.userId = userId ∧ r.deletedAt = none) ∧
      ∀ fragment ∈ item.fragments, ∃ normalized chunks,
        Made settings h.replies item.fileId normalized chunks ∧
          ∃ chunk ∈ chunks, fragment.preview = preview chunk.content := by
  intro item hitem
  obtain ⟨f, hf, n, rfl⟩ := searchFiles_ok hok hitem
  have hmirrors : ∀ n, Mirrors (view n).sources (view n).files := fun n =>
    (stable_filed.inv_mem hreachable (hviews n)).mirrors
  refine ⟨source_of_found hmirrors hf, fun fragment hfragment => ?_⟩
  rcases fragment_of_resultItem hfragment with
    ⟨m, segment, hsegment, hid, hpreview⟩ | ⟨m, chunk, hchunk, hid, hpreview⟩
  · obtain ⟨normalized, chunks, generationId, fresh, hmade, hmem⟩ :=
      (allMade_mem hreachable (hviews (m + n))).segments segment hsegment
    obtain ⟨k, hk, hsegmentOf⟩ := List.mem_mapIdx.mp hmem
    have hcontent : segment.content = chunks[k].content := by rw [← hsegmentOf]; rfl
    rw [hid] at hmade
    exact ⟨normalized, chunks, hmade, chunks[k], List.getElem_mem hk, by rw [hpreview, hcontent]⟩
  · obtain ⟨normalized, chunks, hmade, hmem⟩ :=
      (allMade_mem hreachable (hviews (m + n))).chunks chunk hchunk
    rw [hid] at hmade
    exact ⟨normalized, chunks, hmade, chunk, hmem, hpreview⟩

/-- The note is parsed. -/
def parsedNote : History World Op Reply :=
  (system PersonalState.tallies twoAttempts).serial {}
    (uploadNote ++ parseNote ++ [.complete 2 noteDrawn 2])

/-- The search for all Files of user 1 answers with the note and with its text. -/
theorem search_sound_note :
    ∃ items,
      noSearch.searchFiles 1 "" .everything 20 (fun _ => parsedNote.cur.toState) = .ok items ∧
      items.map SearchResultItem.fragments = [[⟨"segment_id", 40, 0, "hi"⟩]] ∧
      ∀ item ∈ items,
        (∃ n : ℕ, ∃ r ∈ parsedNote.cur.sources,
          r.id = item.fileId ∧ r.userId = 1 ∧ r.deletedAt = none) ∧
        ∀ fragment ∈ item.fragments, ∃ normalized chunks,
          Made twoAttempts parsedNote.replies item.fileId normalized chunks ∧
            ∃ chunk ∈ chunks, fragment.preview = preview chunk.content := by
  have hreachable : (system PersonalState.tallies twoAttempts).Reachable parsedNote :=
    (system _ _).serial_reachable rfl _
  have hitems : ((noSearch.searchFiles 1 "" .everything 20 fun _ => parsedNote.cur.toState).map
      fun items => items.map SearchResultItem.fragments).toOption =
        some [[⟨"segment_id", 40, 0, "hi"⟩]] := by
    decide +kernel
  cases hok : noSearch.searchFiles 1 "" .everything 20 fun _ => parsedNote.cur.toState with
  | error e =>
    rw [hok] at hitems
    cases hitems
  | ok items =>
    rw [hok] at hitems
    exact ⟨items, rfl, Option.some.inj hitems,
      search_sound noSearch hreachable (fun _ => List.mem_cons_self) hok⟩

/-- A Source that was deleted in some state of a run is deleted in all later ones. -/
theorem deleted_since (hreachable : (system cal settings).Reachable h) {k : ℕ} {v w : World}
    (hv : h.states[k]? = some v)
    (hdeleted : ∃ r ∈ v.sources, r.id = fileId ∧ r.deletedAt.isSome = true)
    (hw : w ∈ h.states.take (k + 1)) {r : Source} (hr : r ∈ w.sources) (hid : r.id = fileId) :
    r.deletedAt.isSome = true := by
  obtain ⟨hk, hat⟩ := List.getElem?_eq_some_iff.mp hv
  have hdropped : v ∈ h.states.drop k :=
    List.mem_drop_iff_getElem.mpr ⟨0, by omega, by simpa using hat⟩
  obtain ⟨r₀, hr₀, hid₀, hdeleted₀⟩ := hdeleted
  obtain ⟨r', hr', hid', hlater⟩ := stable_filed.rel_since hreachable hdropped hw r₀ hr₀
  obtain rfl : r' = r := source_eq hr' hr (by rw [hid', hid₀, hid])
  exact hlater.deleted hdeleted₀

/-- Once a File is deleted, no search that reads later answers with it, and nothing of it comes into
a context. -/
theorem deleted_not_found (search : Search) (hreachable : (system cal settings).Reachable h) {k : ℕ}
    {v : World} (hv : h.states[k]? = some v)
    (hdeleted : ∃ r ∈ v.sources, r.id = fileId ∧ r.deletedAt.isSome = true) {view : ℕ → World}
    (hviews : ∀ n, view n ∈ h.states.take (k + 1)) :
    (∀ query scope limit items,
      search.searchFiles userId query scope limit (fun n => (view n).toState) = .ok items →
        ∀ item ∈ items, item.fileId ≠ fileId) ∧
    ∀ maxChunks maxCharacters query, 0 < maxChunks → 0 < maxCharacters →
      getContextChunks search userId fileId maxChunks maxCharacters query
        (fun n => (view n).toState) = .error (.entityNotFound "Source was not found.") := by
  have hgone : ∀ n, ∀ r ∈ (view n).sources, r.id = fileId → r.deletedAt.isSome = true :=
    fun n r hr hid => deleted_since hreachable hv hdeleted (hviews n) hr hid
  constructor
  · intro query scope limit items hok item hitem hfile
    have hmirrors : ∀ n, Mirrors (view n).sources (view n).files := fun n =>
      (stable_filed.inv_mem hreachable (List.mem_of_mem_take (hviews n))).mirrors
    obtain ⟨f, hf, m, rfl⟩ := searchFiles_ok hok hitem
    obtain ⟨n, r, hr, hid, -, hlive⟩ := source_of_found hmirrors hf
    have hdead := hgone n r hr (hid.trans hfile)
    rw [hlive] at hdead
    cases hdead
  · intro maxChunks maxCharacters query hchunks hcharacters
    have hmissing : SourceRepository.get userId fileId (view 0).sources = none := by
      refine Table.get_eq_none.mpr fun r hr => decide_eq_false fun hwhere => ?_
      obtain ⟨hid, -, hlive⟩ := hwhere
      have hdead := hgone 0 r hr hid
      rw [hlive] at hdead
      cases hdead
    unfold getContextChunks
    rw [bind_of_ensure ⟨hchunks, hcharacters⟩, hmissing]
    rfl

/-- The note that was deleted is not found. -/
theorem deleted_not_found_after :
    ∃ v r, deletedAfter.states[0]? = some v ∧ r ∈ v.sources ∧ r.deletedAt.isSome = true ∧
      (∀ query scope limit items,
        noSearch.searchFiles 1 query scope limit (fun _ => v.toState) = .ok items →
          ∀ item ∈ items, item.fileId ≠ r.id) ∧
      ∀ maxChunks maxCharacters query, 0 < maxChunks → 0 < maxCharacters →
        getContextChunks noSearch 1 r.id maxChunks maxCharacters query (fun _ => v.toState) =
          .error (.entityNotFound "Source was not found.") := by
  have hreachable : (system PersonalState.tallies twoAttempts).Reachable deletedAfter :=
    (system _ _).serial_reachable rfl _
  have hrow : ∃ r ∈ deletedAfter.cur.sources.rows, r.deletedAt.isSome = true := by decide +kernel
  obtain ⟨r, hr, hdeleted⟩ := hrow
  exact ⟨deletedAfter.cur, r, rfl, hr, hdeleted,
    deleted_not_found noSearch hreachable (k := 0) rfl ⟨r, hr, rfl, hdeleted⟩
      (fun _ => List.mem_cons_self)⟩

end Sources
