import Laoshiren.Sources.TextParser

/-!
# Proofs: what the parser keeps of a text

The loop of `parse` keeps what the limit leaves of the pages when the blank pages are joined as well: it
takes the two characters of a blank line from the limit before it knows that a page is blank.
-/

namespace Sources

open TextSourceParser

variable {rawPages : List RawPage} {limit : ℕ} {content : ParsedSourceContent}
  {parser : TextSourceParser} {document : Document}

/-- The texts of the pages, normalised. -/
def normalizedTexts (rawPages : List RawPage) : List (List Char) :=
  rawPages.map fun page => normalizedText page.2

/-- The texts that the loop keeps. -/
def keptTexts (rawPages : List RawPage) (remaining : ℕ) (started : Bool) : List (List Char) :=
  (normalizedPages rawPages remaining started).map fun page => page.text.toList

/-- What the loop keeps of a text with `budget` characters left: `padded` is the text with the blank pages
joined as well. -/
structure Keeps (budget : ℕ) (text padded kept : List Char) : Prop where
  begins : kept <+: text
  short : kept.length ≤ budget
  shows : Text.visible kept = Text.visible (padded.take budget)

/-! ## One page -/

theorem visible_take_blankLine (n : ℕ) : Text.visible (blankLine.take n) = [] :=
  Text.visible_eq_nil.mpr fun c hc => by
    have hline : blankLine.all Text.isSpace = true := by decide
    exact List.all_eq_true.mp hline c (List.mem_of_mem_take hc)

theorem visible_blankLine_append (cs : List Char) :
    Text.visible (blankLine ++ cs) = Text.visible cs := by
  rw [Text.visible_append]
  rfl

theorem take_blankLine_append {budget : ℕ} (h : 2 ≤ budget) (cs : List Char) :
    (blankLine ++ cs).take budget = blankLine ++ cs.take (budget - 2) := by
  rw [List.take_append, List.take_of_length_le (by exact h)]
  rfl

/-- A page, and what is kept of the pages after it with what it leaves of the budget. -/
theorem Keeps.page {budget : ℕ} {page text padded kept : List Char}
    (h : Keeps (budget - (page.take budget).length) text padded kept) :
    Keeps budget (page ++ text) (page ++ padded) (page.take budget ++ kept) := by
  have hleft : budget - (page.take budget).length = budget - page.length := by
    rw [List.length_take]
    omega
  have hlength : (page.take budget).length ≤ budget := List.length_take_le _ _
  refine ⟨?_, ?_, ?_⟩
  · by_cases hfits : page.length ≤ budget
    · rw [List.take_of_length_le hfits]
      exact (List.prefix_append_right_inj page).mpr h.begins
    · have hnone : kept = [] := List.length_eq_zero_iff.mp (by
        have := h.short
        omega)
      rw [hnone, List.append_nil]
      exact (List.take_prefix budget page).trans (List.prefix_append page text)
  · have := h.short
    rw [List.length_append]
    omega
  · rw [Text.visible_append, h.shows, hleft, ← Text.visible_append, ← List.take_append]

/-- A blank line before what is kept. -/
theorem Keeps.blankLine {budget : ℕ} {text padded kept : List Char} (hbudget : 2 ≤ budget)
    (h : Keeps (budget - 2) text padded kept) :
    Keeps budget (blankLine ++ text) (blankLine ++ padded) (blankLine ++ kept) := by
  refine ⟨(List.prefix_append_right_inj _).mpr h.begins, ?_, ?_⟩
  · have := h.short
    have hline : Sources.blankLine.length = 2 := rfl
    rw [List.length_append]
    omega
  · rw [take_blankLine_append hbudget, visible_blankLine_append, visible_blankLine_append, h.shows]

/-- A blank page takes a blank line from the budget, and keeps nothing. -/
theorem Keeps.skip {budget : ℕ} {text padded kept : List Char} (hbudget : 2 ≤ budget)
    (h : Keeps (budget - 2) text padded kept) :
    Keeps budget text (Sources.blankLine ++ padded) kept := by
  refine ⟨h.begins, h.short.trans (Nat.sub_le _ _), ?_⟩
  rw [take_blankLine_append hbudget, visible_blankLine_append, h.shows]

/-- Nothing is kept where the budget does not reach beyond a blank line. -/
theorem Keeps.none {budget : ℕ} {text padded : List Char} (hbudget : budget ≤ 2) :
    Keeps budget text (Sources.blankLine ++ padded) [] := by
  refine ⟨List.nil_prefix, Nat.zero_le _, ?_⟩
  rw [List.take_append_of_le_length (by exact hbudget), visible_take_blankLine]
  rfl

/-! ## The loop -/

/-- The loop after the first page that was kept. -/
theorem keeps_started (rawPages : List RawPage) (budget : ℕ) :
    Keeps budget (((normalizedTexts rawPages).filter (· ≠ [])).flatMap fun page => blankLine ++ page)
      ((normalizedTexts rawPages).flatMap fun page => blankLine ++ page)
      ((keptTexts rawPages budget true).flatMap fun page => blankLine ++ page) := by
  induction rawPages generalizing budget with
  | nil => exact ⟨List.nil_prefix, Nat.zero_le _, by simp [normalizedTexts, keptTexts, normalizedPages]⟩
  | cons raw rawPages ih =>
    obtain ⟨pageNumber, raw⟩ := raw
    unfold keptTexts normalizedTexts normalizedPages
    simp only [if_true, List.map_cons, List.flatMap_cons, List.append_assoc]
    by_cases hspent : budget - 2 = 0
    · rw [if_pos hspent]
      exact .none (by omega)
    · rw [if_neg hspent]
      by_cases htext : (normalizedText raw).take (budget - 2) = []
      · have hblank : normalizedText raw = [] := by
          rcases List.take_eq_nil_iff.mp htext with hzero | hblank
          · exact absurd hzero hspent
          · exact hblank
        rw [if_pos htext, hblank, List.nil_append, List.filter_cons_of_neg (by simp)]
        exact (ih (budget - 2)).skip (by omega)
      · have hblank : normalizedText raw ≠ [] := fun hblank => htext (by rw [hblank, List.take_nil])
        rw [if_neg htext, List.filter_cons_of_pos (by simpa using hblank)]
        simp only [List.map_cons, List.flatMap_cons, List.append_assoc, String.toList_ofList]
        exact (ih _).page.blankLine (by omega)

/-- The loop. -/
theorem keeps_loop (rawPages : List RawPage) (budget : ℕ) :
    Keeps budget (joinedPages rawPages) (paddedPages rawPages)
      (blankLine.intercalate (keptTexts rawPages budget false)) := by
  induction rawPages generalizing budget with
  | nil => exact ⟨List.nil_prefix, Nat.zero_le _, by simp [paddedPages, keptTexts, normalizedPages]⟩
  | cons raw rawPages ih =>
    obtain ⟨pageNumber, raw⟩ := raw
    unfold keptTexts joinedPages paddedPages normalizedPages
    simp only [Bool.false_eq_true, if_false, Nat.sub_zero, List.map_cons]
    by_cases hspent : budget = 0
    · rw [if_pos hspent, hspent]
      exact ⟨List.nil_prefix, le_rfl, by rw [List.take_zero]; rfl⟩
    · rw [if_neg hspent]
      by_cases hblank : normalizedText raw = []
      · rw [if_pos (by rw [hblank, List.take_nil]), hblank, List.filter_cons_of_neg (by simp),
          List.dropWhile_cons_of_pos (by simp)]
        exact ih budget
      · have htext : (normalizedText raw).take budget ≠ [] := fun hnil => by
          rcases List.take_eq_nil_iff.mp hnil with hzero | hnil
          · exact hspent hzero
          · exact hblank hnil
        rw [if_neg htext, List.filter_cons_of_pos (by simpa using hblank),
          List.dropWhile_cons_of_neg (by simpa using hblank)]
        simp only [List.map_cons, Text.intercalate_cons, String.toList_ofList]
        exact (keeps_started rawPages _).page

/-! ## The text of a parse -/

theorem toList_intercalate (pages : List ParsedSourcePage) :
    ("\n\n".intercalate (pages.map ParsedSourcePage.text)).toList =
      blankLine.intercalate (pages.map fun page => page.text.toList) := by
  rw [String.toList_intercalate, List.map_map]
  rfl

/-- What a parse gives is what its loop kept. -/
theorem parsedText_parse (h : parser.rawPages document = .ok rawPages) :
    parsedText (parser.parse document) =
      blankLine.intercalate (keptTexts rawPages parser.maxExtractedCharacters false) := by
  unfold parse keptTexts
  rw [h, ← toList_intercalate]
  simp only [Except.bind, bind, pure, Except.pure]
  split
  next hnone =>
    rw [hnone]
    rfl
  · rfl

/-- The joined pages end in a character that shows. -/
theorem rstrip_joinedPages (rawPages : List RawPage) :
    Text.rstrip (joinedPages rawPages) = joinedPages rawPages := by
  refine Text.rstrip_intercalate fun part hpart => ?_
  obtain ⟨hmem, hne⟩ := List.mem_filter.mp hpart
  obtain ⟨page, -, rfl⟩ := List.mem_map.mp hmem
  exact ⟨of_decide_eq_true hne, Text.rstrip_trim _⟩

/-- A parse cuts the text exactly where its limit is, if and only if the blank pages between the others
push nothing that shows beyond the limit when they are joined as well. -/
theorem parse_truncates (parser : TextSourceParser) (document : Document) (rawPages : List RawPage)
    (h : parser.rawPages document = .ok rawPages) :
    TruncatedAt parser.maxExtractedCharacters rawPages (parsedText (parser.parse document)) ↔
      Text.visible ((paddedPages rawPages).take parser.maxExtractedCharacters) =
        Text.visible ((joinedPages rawPages).take parser.maxExtractedCharacters) := by
  rw [parsedText_parse h]
  have hkeeps := keeps_loop rawPages parser.maxExtractedCharacters
  have hsame := Text.rstrip_eq_iff hkeeps.begins
    (List.take_prefix parser.maxExtractedCharacters (joinedPages rawPages))
  rw [← hkeeps.shows, ← hsame]
  refine ⟨fun htruncated => htruncated.same, fun hrstrip => ⟨hrstrip, hkeeps.short, fun hfits => ?_⟩⟩
  rw [List.take_of_length_le hfits, rstrip_joinedPages] at hrstrip
  refine hkeeps.begins.eq_of_length_le ?_
  calc (joinedPages rawPages).length
      = (Text.rstrip (blankLine.intercalate
          (keptTexts rawPages parser.maxExtractedCharacters false))).length := by rw [hrstrip]
    _ ≤ _ := (List.rdropWhile_prefix Text.isSpace _).length_le

/-- A parser that keeps five characters. -/
def fiveCharacters : TextSourceParser where
  maxExtractedCharacters := 5
  positive := by decide

/-- A PDF with a blank page between two letters. -/
def blankBetween : Document := .pdf (.ok ⟨false, [.ok "a", .ok "", .ok "b"]⟩)

/-- The same without the blank page. -/
def twoLetters : Document := .pdf (.ok ⟨false, [.ok "a", .ok "b"]⟩)

/-- Two pages without a blank one between them are cut exactly where the limit is. -/
theorem parse_truncates_twoLetters :
    TruncatedAt 5 [(some 1, "a"), (some 2, "b")] (parsedText (fiveCharacters.parse twoLetters)) ↔
      Text.visible ((paddedPages [(some 1, "a"), (some 2, "b")]).take 5) =
        Text.visible ((joinedPages [(some 1, "a"), (some 2, "b")]).take 5) :=
  parse_truncates fiveCharacters twoLetters _ (by decide +kernel)

/-- Four characters fit into five, but the last of them is dropped. -/
theorem blank_page_is_charged :
    fiveCharacters.rawPages blankBetween = .ok [(some 1, "a"), (some 2, ""), (some 3, "b")] ∧
      ¬TruncatedAt 5 [(some 1, "a"), (some 2, ""), (some 3, "b")]
        (parsedText (fiveCharacters.parse blankBetween)) := by
  refine ⟨by decide +kernel, fun htruncated => ?_⟩
  have hcomplete := htruncated.complete (by decide +kernel)
  have hdropped : parsedText (fiveCharacters.parse blankBetween) ≠
      joinedPages [(some 1, "a"), (some 2, ""), (some 3, "b")] := by
    decide +kernel
  exact hdropped hcomplete

end Sources
