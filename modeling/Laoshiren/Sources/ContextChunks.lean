import Laoshiren.Foundation.Slices
import Laoshiren.Sources.System

/-!
# Chunks for the context of a model

What of a Source is shown to the model: its segments, or its chunks where no segment is found, up to a
number of characters. Each statement reads a view of its own.
-/

namespace Sources

open Runtime Raise

/-- `SourceContextChunkDTO`. -/
structure SourceContextChunk where
  id : UUID
  sourceId : UUID
  ordinal : ℕ
  content : String
  charStart : ℤ
  charEnd : ℤ
  pageNumber : Option ℤ
  deriving DecidableEq

/-- `value if isinstance(value, int)`: a truth value is an integer as well. -/
def asInt? : Json → Option ℤ
  | .num q => if q.den = 1 then some q.num else none
  | .bool b => some (if b then 1 else 0)
  | _ => none

/-- `segment_to_context_chunk`. -/
def segmentToContextChunk (segment : RetrievalSegment) : SourceContextChunk where
  id := segment.id
  sourceId := segment.fileId
  ordinal := segment.segmentOrder
  content := segment.content
  charStart := (asInt? ((segment.locator.get "char_start").getD (.num 0))).getD 0
  charEnd := (asInt? ((segment.locator.get "char_end").getD (.num segment.content.length))).getD
    segment.content.length
  pageNumber := (segment.locator.get "page_number").bind asInt?

/-- The context of a chunk. -/
def chunkToContextChunk (chunk : SourceChunk) : SourceContextChunk where
  id := chunk.id
  sourceId := chunk.sourceId
  ordinal := chunk.ordinal
  content := chunk.content
  charStart := chunk.charStart
  charEnd := chunk.charEnd
  pageNumber := chunk.pageNumber

/-- What a search relies on: the distance of vectors, `ILIKE`, and the embedding model, which may be absent
or fail. -/
structure Search where
  cosineDistance : Embedding → Embedding → ℚ
  ilike : String → String → Bool
  embed : String → Option Embedding

namespace Search

variable (search : Search)

/-- `ORDER BY` and `LIMIT` of a search by a vector, by a text, or for anything. -/
def ranked {α : Type} (embedding : α → Option Embedding) (content : α → String) (order : α → ℕ)
    (limit : ℕ) (queryEmbedding : Option Embedding) (queryText : Option String) (rows : List α) :
    List α :=
  let byOrder (rows : List α) := rows.insertionSort fun r r' => order r ≤ order r'
  let found := match queryEmbedding, queryText with
    | some query, _ =>
      let distance (r : α) := ((embedding r).map (search.cosineDistance · query)).getD 0
      (rows.filter fun r => (embedding r).isSome).insertionSort fun r r' =>
        toLex (distance r, order r) ≤ toLex (distance r', order r')
    | none, some query => byOrder (rows.filter fun r => search.ilike (content r) query)
    | none, none => byOrder rows
  found.take limit

/-- `list_segments`. -/
def listSegments (userId fileId : UUID) (limit : ℕ) (queryEmbedding : Option Embedding)
    (queryText : Option String) (s : State) : List RetrievalSegment :=
  search.ranked RetrievalSegment.embedding RetrievalSegment.content RetrievalSegment.segmentOrder limit
    queryEmbedding queryText
    (s.segments.select fun segment => segment.fileId = fileId &&
      (s.files.get fun f => f.id = fileId ∧ f.ownerUserId = userId ∧ f.deletedAt = none).isSome &&
      (s.generations.get fun g => g.id = segment.generationId ∧ g.isActive = true).isSome)

/-- `list_inspect_segments`. -/
def listInspectSegments (userId fileId : UUID) (maxChunks : ℕ) (queryEmbedding : Option Embedding)
    (queryText : Option String) (view : ℕ → State) : List RetrievalSegment :=
  match search.listSegments userId fileId maxChunks queryEmbedding queryText (view 0), queryText with
  | [], some _ => search.listSegments userId fileId maxChunks none none (view 1)
  | segments, _ => segments

/-- `list_chunks`. -/
def listChunks (userId sourceId : UUID) (limit : ℕ) (queryEmbedding : Option Embedding)
    (queryText : Option String) (s : State) : List SourceChunk :=
  search.ranked SourceChunk.embedding SourceChunk.content SourceChunk.ordinal limit queryEmbedding
    queryText
    (s.chunks.select fun chunk => chunk.sourceId = sourceId &&
      (s.sources.get fun r => r.id = sourceId ∧ r.userId = userId).isSome)

/-- What is found of a Source for the text or the vector of a query. -/
def foundFor (userId sourceId : UUID) (maxChunks : ℕ) (asked : Bool)
    (queryEmbedding : Option Embedding) (queryText : Option String) (view : ℕ → State) :
    List SourceContextChunk :=
  match search.listInspectSegments userId sourceId maxChunks queryEmbedding queryText view with
  | [] =>
    match search.listChunks userId sourceId maxChunks queryEmbedding queryText (view 2), asked with
    | [], true => (search.listChunks userId sourceId maxChunks none none (view 3)).map
        chunkToContextChunk
    | chunks, _ => chunks.map chunkToContextChunk
  | segments => segments.map segmentToContextChunk

/-- What is found of a Source for a query: its text is searched for where it has no vector. -/
def foundChunks (userId sourceId : UUID) (maxChunks : ℕ) (query : Option String)
    (view : ℕ → State) : List SourceContextChunk :=
  let queryText := (query.map Text.strip).filter (· ≠ "")
  let queryEmbedding := queryText.bind search.embed
  search.foundFor userId sourceId maxChunks queryText.isSome queryEmbedding
    (if queryEmbedding.isNone then queryText else none) view

end Search

/-- A chunk of which `remaining` characters are shown. -/
def cutChunk (chunk : SourceContextChunk) (remaining : ℕ) : SourceContextChunk :=
  let content := String.ofList (chunk.content.toList.take remaining)
  { chunk with content, charEnd := min (chunk.charStart + content.length) chunk.charEnd }

/-- The loop of `get_context_chunks`. -/
def cutChunks : List SourceContextChunk → ℕ → List SourceContextChunk
  | [], _ => []
  | chunk :: chunks, remaining =>
    if remaining = 0 then []
    else
      let cut := cutChunk chunk remaining
      cut :: cutChunks chunks (remaining - cut.content.length)

/-- `get_context_chunks`. -/
def getContextChunks (search : Search) (userId sourceId : UUID) (maxChunks maxCharacters : ℕ)
    (query : Option String) (view : ℕ → State) : Raises (List SourceContextChunk) := do
  ensure (.valueError "Source context limits must be positive.") (0 < maxChunks ∧ 0 < maxCharacters)
  let _ ← orRaise (.entityNotFound "Source was not found.")
    (SourceRepository.get userId sourceId (view 0).sources)
  return cutChunks (search.foundChunks userId sourceId maxChunks query fun n => view (n + 1))
    maxCharacters

/-! ## Exact citations -/

/-- `text[start:stop]` with Python's integers: a negative one counts from the end. -/
def pySlice (text : List Char) (start stop : ℤ) : List Char :=
  let place (i : ℤ) := if i < 0 then (text.length + i).toNat else i.toNat
  Text.slice text (place start) (place stop)

/-- The chunks are what their places in the text say, and no more than `maxCharacters` characters. -/
structure Exact (text : List Char) (maxCharacters : ℕ) (chunks : List SourceContextChunk) : Prop where
  content : ∀ chunk ∈ chunks, pySlice text chunk.charStart chunk.charEnd = chunk.content.toList
  total : (chunks.map fun chunk => chunk.content.length).sum ≤ maxCharacters

/-- The chunks that begin before `remaining` characters are shown. -/
def reachedChunks : List SourceContextChunk → ℕ → List SourceContextChunk
  | [], _ => []
  | chunk :: chunks, remaining =>
    if remaining = 0 then [] else chunk :: reachedChunks chunks (remaining - chunk.content.length)

/-- The text of a chunk begins with a character that shows. -/
def BeginsVisibly (text : List Char) (chunk : SourceContextChunk) : Prop :=
  ∃ c, text[chunk.charStart.toNat]? = some c ∧ Text.isSpace c = false

end Sources

/-!
## The search for files

A user searches among his Files by their names and by what their segments say, or among the Sources
where no File is found. Every File is answered with a few fragments of its segments, or of its
chunks. Each statement reads a view of its own.
-/

namespace Sources

open Runtime Raise

def ProcessingStatus.value : ProcessingStatus → String
  | .pending => "PENDING"
  | .ready => "READY"
  | .failed => "FAILED"

/-- What a search is limited to: the Thing is looked up first, and the statement that reads `view n`
finds the links that it has then. -/
inductive SearchScope where
  | everything
  | missingThing
  | thing (linked : ℕ → UUID → Bool)

/-- The Source of a File is in the scope. -/
def SearchScope.covers (scope : SearchScope) (n : ℕ) (fileId : UUID) : Bool :=
  match scope with
  | .everything => true
  | .missingThing => false
  | .thing linked => linked n fileId

/-- A fragment of a File, with the name of its id. -/
structure SearchFragment where
  idField : String
  id : UUID
  ordinal : ℕ
  preview : String
  deriving DecidableEq

structure SearchResultItem where
  fileId : UUID
  title : String
  mimeType : String
  processingStatus : String
  fragments : List SearchFragment
  retrievalBackend : String
  deriving DecidableEq

/-- `text[:400]`. -/
def preview (text : String) : String := String.ofList (text.toList.take 400)

def segmentFragment (segment : RetrievalSegment) : SearchFragment where
  idField := "segment_id"
  id := segment.id
  ordinal := segment.segmentOrder
  preview := preview segment.content

def chunkFragment (chunk : SourceChunk) : SearchFragment where
  idField := "chunk_id"
  id := chunk.id
  ordinal := chunk.ordinal
  preview := preview chunk.content

/-- `build_search_result_item`. -/
def buildSearchResultItem (file : File) (source : Option Source) (segments : List RetrievalSegment)
    (legacyChunks : List SourceChunk) : SearchResultItem where
  fileId := file.id
  title := (file.originalFilename.filter fun name => name ≠ "").getD
    ((source.map Source.title).getD "file")
  mimeType := file.validatedMimeType
  processingStatus := (source.map fun source => source.processingStatus.value).getD "READY"
  fragments :=
    if segments = [] then (legacyChunks.take 3).map chunkFragment
    else (segments.take 3).map segmentFragment
  retrievalBackend := if segments = [] then "legacy" else "v2"

namespace Search

variable (search : Search)

/-- `search_for_user` on the Files. -/
def filesForUser (userId : UUID) (query : String) (covers : UUID → Bool) (limit : ℕ) (s : State) :
    List File :=
  ((s.files.select fun f => f.ownerUserId = userId ∧ f.deletedAt = none ∧ f.assetStatus = .active ∧
    covers f.id ∧ (query = "" ∨ (f.originalFilename.any fun name => search.ilike name query) ∨
      s.segments.rows.any fun segment =>
        segment.fileId = f.id && search.ilike segment.content query &&
          (s.generations.get fun g => g.id = segment.generationId ∧ g.isActive = true).isSome)
    ).insertionSort fun f f' =>
      toLex (f'.createdAt, f'.id.toNat) ≤ toLex (f.createdAt, f.id.toNat)).take limit

/-- `search_for_user` on the Sources. -/
def sourcesForUser (userId : UUID) (query : String) (covers : UUID → Bool) (limit : ℕ) (s : State) :
    List Source :=
  ((s.sources.select fun r => r.userId = userId ∧ r.deletedAt = none ∧ covers r.id ∧
    (query = "" ∨ search.ilike r.title query ∨
      r.extractedText.any fun text => search.ilike text query)).insertionSort fun r r' =>
        toLex (r'.createdAt, r'.id.toNat) ≤ toLex (r.createdAt, r.id.toNat)).take limit

/-- The Files that a search finds, or the Sources in their place. -/
def foundFiles (userId : UUID) (query : String) (scope : SearchScope) (limit : ℕ)
    (view : ℕ → State) : List File :=
  match search.filesForUser userId query (scope.covers 0) limit (view 0) with
  | [] => (search.sourcesForUser userId query (scope.covers 1) limit (view 1)).map fileFromSource
  | files => files

/-- What is answered of a File: its fragments say what was searched for, or anything. -/
def resultItem (userId : UUID) (query : String) (file : File) (view : ℕ → State) :
    SearchResultItem :=
  let queryText := if query = "" then none else some query
  let segments := search.listInspectSegments userId file.id 3 none queryText fun n => view (n + 1)
  let legacyChunks :=
    if segments = [] ∧ query ≠ "" then search.listChunks userId file.id 3 none queryText (view 3)
    else []
  buildSearchResultItem file (SourceRepository.get userId file.id (view 0).sources) segments
    legacyChunks

/-- The Files, one after the other: each of them takes four statements. -/
def resultItems (userId : UUID) (query : String) : List File → (ℕ → State) → List SearchResultItem
  | [], _ => []
  | file :: files, view =>
    search.resultItem userId query file view ::
      resultItems userId query files fun n => view (n + 4)

/-- `search_files`. -/
def searchFiles (userId : UUID) (query : String) (scope : SearchScope) (limit : ℤ)
    (view : ℕ → State) : Raises (List SearchResultItem) := do
  ensure (.valueError "File search limit must be between 1 and 20.") (1 ≤ limit ∧ limit ≤ 20)
  match scope with
  | .missingThing => throw (.entityNotFound "Thing was not found.")
  | scope =>
    let query := Text.strip query
    let files := search.foundFiles userId query scope limit.toNat view
    return search.resultItems userId query files fun n => view (n + 2)

end Search

end Sources
