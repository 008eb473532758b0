import Laoshiren.PersonalState.TaskWrites
import Laoshiren.Runtime.JobQueue
import Laoshiren.Sources.Chunking
import Laoshiren.Sources.Repositories

/-!
# Writes on Sources and Files

The transactions of the Source service and of the purge worker. A statement that reads what its
transaction has locked by then reads it as it is committed; every other one reads a view.
-/

namespace Sources

open Runtime Raise
open PersonalState (Calendar StateMutation DeleteFile)

/-- The tables of Sources and Files, with the jobs and the audit. -/
structure State where
  sources : Table Source := .empty
  chunks : Table SourceChunk := .empty
  files : Table File := .empty
  generations : Table FileProcessingGeneration := .empty
  segments : Table RetrievalSegment := .empty
  durableJobs : Table DurableJob := .empty
  mutations : Table StateMutation := .empty

/-- `PROCESSABLE_MIME_TYPES`. -/
def processableMimeTypes : List String :=
  ["text/plain", "text/markdown", "application/pdf",
    "application/vnd.openxmlformats-officedocument.wordprocessingml.document"]

/-- `PARSER_VERSION`. -/
def parserVersion : String := "text-source-v2"

/-- `CHUNK_VERSION`. -/
def chunkVersion : String := "character-overlap-v1"

/-- The settings of the Source worker, as its constructor accepts them. -/
structure Settings where
  embeddingModelVersion : Option String := none
  lease : ℤ
  maxAttempts : ℕ
  retryBase : ℤ
  retryMax : ℤ
  lease_pos : 0 < lease
  maxAttempts_pos : 0 < maxAttempts
  retryBase_pos : 0 < retryBase
  retryMax_pos : 0 < retryMax

/-! ## Uploads -/

/-- The arguments of `upload`: the name of the file and its extension, as they are read off the path. -/
structure UploadFile where
  userId : UUID
  safeName : String
  extension : String
  mimeType : String
  idempotencyKey : String
  origin : SourceOrigin := .upload
  deriving DecidableEq

/-- `ALLOWED_UPLOADS`, but for the signatures that the content is checked for. -/
def allowedUploads : List (String × SourceType × List String) :=
  [(".pdf", .pdf, ["application/pdf"]), (".png", .image, ["image/png"]),
    (".jpg", .image, ["image/jpeg"]), (".jpeg", .image, ["image/jpeg"]),
    (".docx", .word,
      ["application/vnd.openxmlformats-officedocument.wordprocessingml.document"]),
    (".pptx", .ppt,
      ["application/vnd.openxmlformats-officedocument.presentationml.presentation"]),
    (".mp3", .audio, ["audio/mpeg"]), (".txt", .other, ["text/plain"]),
    (".md", .other, ["text/markdown", "text/plain"])]

namespace UploadFile

/-- The checks on the name and the type of an upload. -/
def sourceType (u : UploadFile) : Raises SourceType := do
  let unsupported : RuntimeError := .valueError "Unsupported or missing file extension."
  ensure unsupported (u.safeName ≠ "")
  let (sourceType, allowedMimes) ← orRaise unsupported (allowedUploads.lookup u.extension)
  ensure (.valueError "File MIME type does not match its extension.") (u.mimeType ∈ allowedMimes)
  return sourceType

/-- The key of the object: `name` is a fresh UUID. -/
def objectKey (u : UploadFile) (name : UUID) : String :=
  u.userId.str ++ "/" ++ String.ofList (name.str.toList.filter (· ≠ '-')) ++ u.extension

/-- The Source of an upload whose content was stored. -/
def source (u : UploadFile) (settings : Settings) (sourceType : SourceType) (name : UUID)
    (size : ℕ) (contentHash : String) (stamp : Stamp) : Source :=
  let source : Source :=
    { userId := u.userId
      sourceType
      origin := u.origin
      title := u.safeName
      mimeType := u.mimeType
      objectKey := u.objectKey name
      contentHash, size
      idempotencyKey := u.idempotencyKey
      id := stamp.id
      metadata := Dict.ofFields
        [("parser_version", .str parserVersion), ("chunk_version", .str chunkVersion),
          ("embedding_model_version", Json.ofStr? settings.embeddingModelVersion)]
      createdAt := stamp.now }
  if u.mimeType ∈ processableMimeTypes then source
  else source.markFailed "SOURCE_TYPE_UNSUPPORTED" stamp.now

end UploadFile

/-- `mirror_source_upload`. -/
def mirrorSourceUpload (source : Source) (s : State) : Raises State :=
  match FileRepository.getIncludingDeleted source.userId source.id s.files with
  | some _ => return s
  | none => do
    let files ← orRaise .integrityError (s.files.insert? (fileFromSource source))
    return { s with files }

/-- The transaction of `upload`: `attachment` is what the Message that the file is attached to raises. -/
def addUpload (source : Source) (attachment : Raises Unit) (s : State) : Raises State := do
  let sources ← orRaise .integrityError (s.sources.insert? source)
  let s ← mirrorSourceUpload source { s with sources }
  attachment
  return s

/-! ## Processing -/

/-- `SourceProcessingJobDTO`. -/
structure SourceProcessingJob where
  id : UUID
  userId : UUID
  title : String
  mimeType : String
  objectKey : String
  attemptCount : ℕ
  deriving DecidableEq

/-- `claim_next_processing`. -/
def claimNextProcessing (settings : Settings) (owner : String) (userId : Option UUID)
    (now : Timestamp) (locked : UUID → Bool) (s : State) :
    Raises (State × Option SourceProcessingJob) := do
  ensure (.valueError "Source processing claim settings must be positive.")
    (!Text.isBlank owner && decide (0 < settings.lease) && decide (0 < settings.maxAttempts))
  let (sources, source) := SourceRepository.claimNextProcessing owner userId now
    (now + settings.lease) processableMimeTypes settings.maxAttempts locked s.sources
  return ({ s with sources }, source.map fun r =>
    { id := r.id
      userId := r.userId
      title := r.title
      mimeType := r.mimeType
      objectKey := r.objectKey
      attemptCount := r.processingAttemptCount })

/-- `renew_processing_lease`. -/
def renewProcessingLease (settings : Settings) (sourceId : UUID) (owner : String) (now : Timestamp)
    (s : State) : State × Bool :=
  let (sources, renewed) :=
    SourceRepository.renewProcessingLease sourceId owner now (now + settings.lease) s.sources
  ({ s with sources }, renewed)

/-- What is kept of a parsed text: no blanks around it, and no blank pages. -/
def ParsedSourceContent.normalized (content : ParsedSourceContent) : Raises ParsedSourceContent := do
  let text := Text.strip content.text
  ensure (.valueError "Extracted Source text cannot be empty.") (text ≠ "")
  return { text, pages := (content.pages.filter fun page => Text.strip page.text ≠ "").map fun page =>
    { page with text := Text.strip page.text } }

/-- What the parsing adds to the metadata of a chunk. -/
def withVersions (settings : Settings) (chunk : SourceChunk) : SourceChunk :=
  let versions := Dict.ofFields
    [("parser_version", .str parserVersion), ("chunk_version", .str chunkVersion),
      ("embedding_model_version", Json.ofStr? settings.embeddingModelVersion)]
  { chunk with metadata := chunk.metadata.merge versions }

/-- The chunks with their vectors, where the model answered one for each. -/
def withEmbeddings (embeddings : List Embedding) (chunks : List SourceChunk) : List SourceChunk :=
  if embeddings.length = chunks.length then
    List.zipWith (fun chunk embedding => { chunk with embedding := some embedding }) chunks embeddings
  else chunks

/-- The chunks of a text that was parsed. -/
def processedChunks (settings : Settings) (sourceId : UUID) (content : ParsedSourceContent)
    (embeddings : List Embedding) (fresh : ℕ → Stamp) : Raises (List SourceChunk) := do
  let chunks ← buildSourceChunksFromContent sourceId content fresh
  return withEmbeddings embeddings (chunks.map (withVersions settings))

/-- The segment of a chunk. -/
def segmentOf (fileId generationId : UUID) (chunk : SourceChunk) (stamp : Stamp) :
    RetrievalSegment where
  fileId
  generationId
  segmentOrder := chunk.ordinal
  representationKind := if chunk.pageNumber.isSome then .pageText else .textSpan
  content := chunk.content
  id := stamp.id
  locator := (Dict.ofFields
    ([("char_start", .num chunk.charStart), ("char_end", .num chunk.charEnd)] ++
      (chunk.pageNumber.map fun n => ("page_number", .num n)).toList)).merge chunk.metadata
  embedding := chunk.embedding
  createdAt := stamp.now

/-- The segments of the chunks. -/
def segmentsOf (fileId generationId : UUID) (chunks : List SourceChunk) (fresh : ℕ → Stamp) :
    List RetrievalSegment :=
  chunks.mapIdx fun n chunk => segmentOf fileId generationId chunk (fresh n)

/-- The generation that `mirror_processing_complete` adds. -/
def newGeneration (settings : Settings) (fileId : UUID) (stamp : Stamp) : FileProcessingGeneration :=
  let generation : FileProcessingGeneration :=
    { fileId
      profileName := "default"
      parserVersion, chunkVersion
      embeddingModelVersion := settings.embeddingModelVersion
      id := stamp.id
      status := .ready
      isActive := true
      createdAt := stamp.now }
  generation.markReady stamp.now

/-- `mirror_processing_complete`. -/
def mirrorProcessingComplete (settings : Settings) (source : Source) (chunks : List SourceChunk)
    (stamp : Stamp) (fresh : ℕ → Stamp) (s : State) : Raises State := do
  let s ← mirrorSourceUpload source s
  let generation := newGeneration settings source.id stamp
  let generations ← orRaise .integrityError
    ((FileRepository.retireActiveGenerations source.id stamp.now s.generations).insert? generation)
  let segments ← orRaise .integrityError
    (FileRepository.replaceSegments generation.id (segmentsOf source.id generation.id chunks fresh)
      s.segments)
  return { s with generations, segments }

/-- What `complete_processing` draws: the stamps of the chunks, of the generation and of the segments,
with the vectors of the chunks. -/
structure Processing where
  chunks : ℕ → Stamp
  generation : Stamp
  segments : ℕ → Stamp
  embeddings : List Embedding

/-- `complete_processing`. -/
def completeProcessing (settings : Settings) (sourceId : UUID) (owner : String)
    (content : ParsedSourceContent) (drawn : Processing) (now : Timestamp) (s : State) :
    Raises (State × Bool) := do
  let content ← content.normalized
  let chunks ← processedChunks settings sourceId content drawn.embeddings drawn.chunks
  let (sources, completed) :=
    SourceRepository.completeProcessing sourceId owner content.text now s.sources
  if completed then
    let table ← orRaise .integrityError (s.chunks.insertAll? chunks)
    let s := { s with sources, chunks := table }
    match SourceRepository.getById sourceId s.sources with
    | some source =>
      let s ← mirrorProcessingComplete settings source chunks drawn.generation drawn.segments s
      return (s, true)
    | none => return (s, true)
  else return (s, false)

/-- `fail_processing`. -/
def failProcessing (sourceId : UUID) (owner errorCode : String) (retryDelay : Option ℤ)
    (now : Timestamp) (s : State) : State × Bool :=
  let (sources, failed) := SourceRepository.failProcessing sourceId owner errorCode now
    (retryDelay.map fun delay => now + delay) s.sources
  ({ s with sources }, failed)

/-! ## Deleting -/

/-- `f"file-purge:{file_id}"`. -/
def filePurgeKey (fileId : UUID) : String := "file-purge:" ++ fileId.str

/-- The job that purges a File. -/
def filePurgeJob (userId fileId : UUID) (objectKey : String) (stamp : Stamp) : DurableJob where
  userId
  kind := .filePurge
  dedupeKey := filePurgeKey fileId
  payload := Dict.ofFields [("file_id", .str fileId.str), ("object_key", .str objectKey)]
  id := stamp.id
  availableAt := stamp.now
  createdAt := stamp.now
  updatedAt := stamp.now

/-- `enqueue_file_purge`. -/
def enqueueFilePurge (userId fileId : UUID) (objectKey : String) (stamp : Stamp) (s : State) :
    Raises State :=
  match DurableJobRepository.getByDedupeKey userId (filePurgeKey fileId) s.durableJobs with
  | some _ => return s
  | none => do
    let job ← reraise .valueError (filePurgeJob userId fileId objectKey stamp).postInit
    let durableJobs ← orRaise .integrityError (s.durableJobs.insert? job)
    return { s with durableJobs }

/-- `apply_delete_file`: the Source is read twice, by `get` and by `mark_deleted`. -/
def applyDeleteFile (cal : Calendar) (c : DeleteFile) (fresh : ℕ → Stamp) (view : ℕ → State)
    (s : State) : Raises (State × WriteOutcome) :=
  match PersonalState.AuditRepository.getMutation c.userId c.idempotencyKey (view 0).mutations with
  | some previous => do
    ensure (.runtimeError "Idempotent file delete points to a missing Source.")
      (SourceRepository.getIncludingDeleted c.userId c.sourceId (view 1).sources).isSome
    return (s, c.replay previous)
  | none => do
    let notFound : RuntimeError := .entityNotFound "Source was not found."
    let source ← orRaise notFound (SourceRepository.get c.userId c.sourceId (view 1).sources)
    let now := (fresh 0).now
    let sources ← orRaise notFound
      (SourceRepository.markDeleted c.userId c.sourceId now (view 2).sources s.sources)
    let chunks := SourceRepository.purgeChunks c.sourceId s.chunks
    let files := FileRepository.markDeleted c.userId c.sourceId now s.files
    let segments := FileRepository.purgeSegmentsForFile c.sourceId s.segments
    let s ← enqueueFilePurge c.userId c.sourceId source.objectKey (fresh 1)
      { s with sources, chunks, files, segments }
    let m := c.mutation cal now (fresh 2)
    let mutations ← orRaise .integrityError (s.mutations.insert? m)
    return ({ s with mutations }, c.outcome m)

/-! ## Purging -/

/-- `apply_physical_purge`: the File is read under the lock of its job. -/
def applyPhysicalPurge (userId fileId : UUID) (now : Timestamp) (s : State) :
    State × Option String :=
  match FileRepository.getIncludingDeleted userId fileId s.files with
  | none => (s, none)
  | some file =>
    if file.purgedAt.isSome then (s, some file.storageKey)
    else
      ({ s with
          files := FileRepository.markPurged userId fileId now s.files
          segments := FileRepository.purgeSegmentsForFile fileId s.segments },
        some file.storageKey)

/-- The transaction of the purge worker, with the key of the object to remove after it. -/
def purgeFile (owner : String) (lease : ℤ) (now : Timestamp) (reached locked : UUID → Bool)
    (s : State) : Raises (State × Option String) :=
  let (durableJobs, jobs) :=
    claimReadyJobs .filePurge owner now (now + lease) 1 reached locked s.durableJobs
  match jobs with
  | [] => return ({ s with durableJobs }, none)
  | job :: _ => do
    let text ← orRaise (.keyError "file_id") (job.payload.get "file_id")
    let fileId ← orRaise (.valueError "badly formed hexadecimal UUID string")
      (text.asStr?.bind UUID.parse?)
    let (purged, objectKey) := applyPhysicalPurge job.userId fileId now { s with durableJobs }
    let (durableJobs, settled) := DurableJobRepository.settle job.id owner job.claimEpoch .completed
      now none purged.durableJobs
    if settled then return ({ purged with durableJobs }, objectKey.filter (· ≠ ""))
    else return (s, none)

end Sources
