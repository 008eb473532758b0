import Laoshiren.Foundation.Raise
import Laoshiren.Foundation.Text
import Laoshiren.Runtime.Store
import Laoshiren.Sources.Entities

/-!
# Texts in chunks

A text is cut into chunks that overlap. A chunk ends at a blank line where one lies in its second half.
-/

namespace Sources

open Raise Runtime

structure ParsedSourcePage where
  pageNumber : Option ℤ
  text : String
  deriving DecidableEq

/-- What the parser makes of a Source. -/
structure ParsedSourceContent where
  text : String
  pages : List ParsedSourcePage
  deriving DecidableEq

/-- `text.rfind("\n\n", start, hard_end)`. -/
def paragraphEnd? (text : List Char) (start hardEnd : ℕ) : Option ℕ :=
  (List.range hardEnd).reverse.find? fun i => start ≤ i ∧ i + 2 ≤ hardEnd ∧
    text[i]? = some '\n' ∧ text[i + 1]? = some '\n'

/-- Where the chunk ends that begins at `start`. -/
def chunkEnd (text : List Char) (chunkCharacters start : ℕ) : ℕ :=
  let hardEnd := min (start + chunkCharacters) text.length
  if hardEnd < text.length then
    match paragraphEnd? text start hardEnd with
    | some paragraphEnd =>
      if start + chunkCharacters / 2 < paragraphEnd then paragraphEnd else hardEnd
    | none => hardEnd
  else hardEnd

/-- The chunk of the characters from `start` to `stop`, where it is not blank. -/
def chunkAt (sourceId : UUID) (text : List Char) (start stop ordinal : ℕ) (stamp : Stamp) :
    Option SourceChunk :=
  let content := Text.strip (String.ofList ((text.drop start).take (stop - start)))
  if content ≠ "" then
    some
      { sourceId, ordinal, content
        charStart := start
        charEnd := stop
        id := stamp.id
        metadata := Dict.ofFields [("evidence_type", .str "TEXT_SPAN")]
        createdAt := stamp.now }
  else none

/-- The chunks from `start` on, the next one under `ordinal`. Each round moves `start` by a character at
least, so as many rounds as the text has characters are enough. -/
def chunksFrom (sourceId : UUID) (text : List Char) (chunkCharacters overlap : ℕ)
    (fresh : ℕ → Stamp) : ℕ → ℕ → ℕ → List SourceChunk
  | 0, _, _ => []
  | rounds + 1, start, ordinal =>
    if start < text.length then
      let stop := chunkEnd text chunkCharacters start
      let found := (chunkAt sourceId text start stop ordinal (fresh ordinal)).toList
      if text.length ≤ stop then found
      else found ++ chunksFrom sourceId text chunkCharacters overlap fresh rounds
        (max (stop - overlap) (start + 1)) (ordinal + found.length)
    else []

/-- `build_source_chunks`. -/
def buildSourceChunks (sourceId : UUID) (text : String) (chunkCharacters overlap : ℕ)
    (fresh : ℕ → Stamp) : Raises (List SourceChunk) := do
  ensure (.valueError "Source chunk and overlap limits are invalid.")
    (0 < chunkCharacters ∧ overlap < chunkCharacters)
  let text := text.toList
  return chunksFrom sourceId text chunkCharacters overlap fresh text.length 0 0

/-- A chunk of a page, after `count` chunks of the pages before it. -/
def chunkOfPage (page : ParsedSourcePage) (baseOffset count : ℕ) (chunk : SourceChunk) :
    SourceChunk :=
  { chunk with
    ordinal := count
    charStart := baseOffset + chunk.charStart
    charEnd := baseOffset + chunk.charEnd
    pageNumber := page.pageNumber
    metadata := chunk.metadata.set "page_number"
      ((page.pageNumber.map fun n => Json.num n).getD .null) }

/-- The chunks of the pages, after those of the pages before. -/
def pageChunks (sourceId : UUID) (chunkCharacters overlap : ℕ) (fresh : ℕ → Stamp) :
    List ParsedSourcePage → ℕ → List SourceChunk → Raises (List SourceChunk)
  | [], _, chunks => return chunks
  | page :: pages, baseOffset, chunks => do
    let found ← buildSourceChunks sourceId page.text chunkCharacters overlap fun n =>
      fresh (chunks.length + n)
    let found := found.mapIdx fun n chunk => chunkOfPage page baseOffset (chunks.length + n) chunk
    pageChunks sourceId chunkCharacters overlap fresh pages (baseOffset + page.text.length + 2)
      (chunks ++ found)

/-- `build_source_chunks_from_content`, with the limits that it is called with. -/
def buildSourceChunksFromContent (sourceId : UUID) (content : ParsedSourceContent)
    (fresh : ℕ → Stamp) : Raises (List SourceChunk) :=
  if content.pages = [] then buildSourceChunks sourceId content.text 2000 200 fresh
  else pageChunks sourceId 2000 200 fresh content.pages 0 []

end Sources
