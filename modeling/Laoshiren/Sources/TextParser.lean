import Laoshiren.Foundation.Slices
import Laoshiren.Sources.Chunking

/-!
# The parser of Sources

The text of a file, page by page. A page is normalised line by line, and what is kept of all of them has a
limit.
-/

namespace Sources

/-! ## What is read of a file -/

/-- The archive of a DOCX file: the size of its body, and the texts of the paragraphs. -/
structure DocxArchive where
  fileSize : Option ℕ
  /-- `none` where the body is no XML. -/
  paragraphs : Option (List (List String))
  deriving DecidableEq

/-- What the PDF library reads: a page is its text, or why there is none. -/
structure PdfReader where
  isEncrypted : Bool
  pages : List (Except String String)

/-- The content of a file by its extension, as the libraries read it. -/
inductive Document where
  /-- `none` where the bytes are no UTF-8. -/
  | text (content : Option String)
  | pdf (reader : Except String PdfReader)
  /-- `none` where the bytes are no archive. -/
  | docx (archive : Option DocxArchive)
  | other

/-- `_extract_docx_text`. -/
def extractDocxText (maxUncompressedBytes : ℕ) (archive : Option DocxArchive) :
    Except String String := do
  let archive ← archive.elim (throw "DOCX container is invalid.") pure
  let fileSize ← archive.fileSize.elim (throw "DOCX document body is missing.") pure
  if maxUncompressedBytes < fileSize then throw "DOCX exceeds the configured extraction limit."
  let paragraphs ← archive.paragraphs.elim (throw "DOCX document XML is invalid.") pure
  return "\n\n".intercalate ((paragraphs.map String.join).filter fun text => !Text.isBlank text)

/-- The limits of the parser, as its constructor accepts them. -/
structure TextSourceParser where
  maxExtractedCharacters : ℕ := 200000
  maxPdfPages : ℕ := 200
  maxPdfPageCharacters : ℕ := 20000
  positive : 0 < min maxExtractedCharacters (min maxPdfPages maxPdfPageCharacters)

/-- The loop of `_extract_pdf_pages`. -/
def extractFrom (maxPageCharacters : ℕ) : List (Except String String) → ℕ →
    Except String (List String)
  | [], _ => return []
  | page :: pages, remaining =>
    if remaining = 0 then return []
    else do
      let text ← page
      let part := (text.toList.take maxPageCharacters).take remaining
      let parts ← extractFrom maxPageCharacters pages (remaining - part.length)
      return String.ofList part :: parts

/-- `_extract_pdf_pages`. -/
def extractPdfPages (reader : PdfReader) (maxPages maxPageCharacters maxCharacters : ℕ) :
    Except String (List String) := do
  if reader.isEncrypted then throw "Encrypted PDF Sources are not supported."
  if maxPages < reader.pages.length then throw "PDF exceeds the configured page limit."
  extractFrom maxPageCharacters reader.pages maxCharacters

/-! ## The text -/

/-- A page that is not normalised, with its number. -/
abbrev RawPage := Option ℤ × String

namespace TextSourceParser

/-- The raw pages of a file, with their numbers. -/
def rawPages (parser : TextSourceParser) : Document → Except String (List RawPage)
  | .text content => do
    let text ← content.elim (throw "Source text extraction failed.") pure
    return [(none, text)]
  | .pdf reader => do
    let reader ← reader
    let pages ← extractPdfPages reader parser.maxPdfPages parser.maxPdfPageCharacters
      parser.maxExtractedCharacters
    return pages.mapIdx fun n text => (some (n + 1), text)
  | .docx archive => do
    let text ← extractDocxText (parser.maxExtractedCharacters * 8) archive
    return [(none, text)]
  | .other => throw "No parser is available for this Source type."

/-- `"\n".join(line.rstrip() for line in raw.splitlines()).strip()`. -/
def normalizedText (raw : String) : List Char :=
  Text.trim Text.isSpace (['\n'].intercalate ((Text.splitLines raw.toList).map Text.rstrip))

/-- The loop of `parse`: a page after the first one that was kept costs two characters more. -/
def normalizedPages : List RawPage → ℕ → Bool → List ParsedSourcePage
  | [], _, _ => []
  | (pageNumber, raw) :: pages, remaining, started =>
    let remaining := remaining - if started then 2 else 0
    if remaining = 0 then []
    else
      let text := (normalizedText raw).take remaining
      if text = [] then normalizedPages pages remaining started
      else
        { pageNumber, text := String.ofList text } ::
          normalizedPages pages (remaining - text.length) true

/-- `parse`. -/
def parse (parser : TextSourceParser) (document : Document) :
    Except String ParsedSourceContent := do
  let rawPages ← parser.rawPages document
  let pages := normalizedPages rawPages parser.maxExtractedCharacters false
  let normalized := "\n\n".intercalate (pages.map ParsedSourcePage.text)
  if normalized = "" then throw "Source contains no extractable text."
  return { text := normalized, pages }

end TextSourceParser

/-! ## What the text should be -/

/-- What stands between two pages. -/
def blankLine : List Char := ['\n', '\n']

/-- The normalised pages that are not blank, joined by blank lines. -/
def joinedPages (rawPages : List RawPage) : List Char :=
  blankLine.intercalate ((rawPages.map fun page => TextSourceParser.normalizedText page.2).filter
    (· ≠ []))

/-- The same, but with the blank pages between the others joined as well. -/
def paddedPages (rawPages : List RawPage) : List Char :=
  blankLine.intercalate ((rawPages.map fun page => TextSourceParser.normalizedText page.2).dropWhile
    (· = []))

/-- The text that a parse gave, with no text where it raised. -/
def parsedText : Except String ParsedSourceContent → List Char
  | .ok content => content.text.toList
  | .error _ => []

/-- The text is what the limit leaves of the pages, but for blanks at its end. -/
structure TruncatedAt (limit : ℕ) (rawPages : List RawPage) (text : List Char) : Prop where
  same : Text.rstrip text = Text.rstrip ((joinedPages rawPages).take limit)
  short : text.length ≤ limit
  complete : (joinedPages rawPages).length ≤ limit → text = joinedPages rawPages

end Sources
