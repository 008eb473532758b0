import Mathlib.Algebra.Order.Field.Rat
import Laoshiren.Foundation.Json
import Laoshiren.Foundation.Table
import Laoshiren.Runtime.Repositories

/-!
# Sources and Files

A Source is what a user uploaded, with the progress of its parsing. Every Source is mirrored as a File
under the same id; the text that was parsed is kept as chunks of the Source, and again as segments of a
generation of the File.
-/

namespace Sources

open Runtime

inductive SourceType where
  | image
  | pdf
  | word
  | ppt
  | audio
  | other
  deriving DecidableEq, Repr

inductive SourceOrigin where
  | chat
  | share
  | upload
  | automation
  | system
  deriving DecidableEq, Repr

inductive ProcessingStatus where
  | pending
  | ready
  | failed
  deriving DecidableEq, Repr

/-- The vector of a text, as the embedding model answers it. -/
abbrev Embedding := List ℚ

structure Source where
  userId : UUID
  sourceType : SourceType
  origin : SourceOrigin
  title : String
  mimeType : String
  objectKey : String
  contentHash : String
  size : ℕ
  idempotencyKey : String
  id : UUID
  metadata : Dict := []
  processingStatus : ProcessingStatus := .pending
  extractedText : Option String := none
  processingError : Option String := none
  processedAt : Option Timestamp := none
  processingClaimOwner : Option String := none
  processingLeaseExpiresAt : Option Timestamp := none
  processingHeartbeatAt : Option Timestamp := none
  processingAttemptCount : ℕ := 0
  nextProcessingAttemptAt : Option Timestamp := none
  deletedAt : Option Timestamp := none
  createdAt : Timestamp
  deriving DecidableEq

/-- `Source.mark_failed`. -/
def Source.markFailed (source : Source) (errorCode : String) (now : Timestamp) : Source :=
  { source with
    processingStatus := .failed
    processingError := some errorCode
    processedAt := some now
    processingClaimOwner := none
    processingLeaseExpiresAt := none
    processingHeartbeatAt := none
    nextProcessingAttemptAt := none }

structure SourceChunk where
  sourceId : UUID
  ordinal : ℕ
  content : String
  charStart : ℕ
  charEnd : ℕ
  pageNumber : Option ℤ := none
  embedding : Option Embedding := none
  id : UUID
  metadata : Dict := []
  createdAt : Timestamp
  deriving DecidableEq

/-! ## Files -/

inductive FileAssetStatus where
  | active
  | deleted
  deriving DecidableEq, Repr

inductive FileMediaKind where
  | image
  | document
  | audio
  | video
  | other
  deriving DecidableEq, Repr

inductive GenerationStatus where
  | building
  | ready
  | failed
  | retired
  deriving DecidableEq, Repr

inductive RepresentationKind where
  | textSpan
  | pageText
  | ocrBlock
  | transcriptWindow
  | other
  deriving DecidableEq, Repr

structure File where
  ownerUserId : UUID
  validatedMimeType : String
  mediaKind : FileMediaKind
  sizeBytes : ℕ
  contentSha256 : String
  storageKey : String
  idempotencyKey : String
  id : UUID
  originalFilename : Option String := none
  assetStatus : FileAssetStatus := .active
  version : ℕ := 1
  deletedAt : Option Timestamp := none
  purgedAt : Option Timestamp := none
  createdAt : Timestamp
  deriving DecidableEq

structure FileProcessingGeneration where
  fileId : UUID
  profileName : String
  parserVersion : String
  chunkVersion : String
  embeddingModelVersion : Option String
  id : UUID
  status : GenerationStatus := .building
  isActive : Bool := false
  createdAt : Timestamp
  readyAt : Option Timestamp := none
  retiredAt : Option Timestamp := none
  deriving DecidableEq

/-- `FileProcessingGeneration.mark_ready`. -/
def FileProcessingGeneration.markReady (generation : FileProcessingGeneration) (now : Timestamp) :
    FileProcessingGeneration :=
  { generation with status := .ready, isActive := true, readyAt := some now }

structure RetrievalSegment where
  fileId : UUID
  generationId : UUID
  segmentOrder : ℕ
  representationKind : RepresentationKind
  content : String
  id : UUID
  locator : Dict := []
  embedding : Option Embedding := none
  createdAt : Timestamp
  deriving DecidableEq

/-- `media_kind_from_source_type`. -/
def mediaKindFromSourceType : SourceType → FileMediaKind
  | .image => .image
  | .pdf | .word | .ppt => .document
  | .audio => .audio
  | .other => .other

/-- `file_from_source`. -/
def fileFromSource (source : Source) : File where
  id := source.id
  ownerUserId := source.userId
  originalFilename := some source.title
  validatedMimeType := source.mimeType
  mediaKind := mediaKindFromSourceType source.sourceType
  sizeBytes := source.size
  contentSha256 := source.contentHash
  storageKey := source.objectKey
  idempotencyKey := source.idempotencyKey
  assetStatus := if source.deletedAt.isSome then .deleted else .active
  deletedAt := source.deletedAt
  createdAt := source.createdAt

/-! ## Unique constraints -/

/-- `uq_sources_user_idempotency`, and the unique object key. -/
instance : Row Source where
  conflict r r' := r.id = r'.id ∨ r.userId = r'.userId ∧ r.idempotencyKey = r'.idempotencyKey ∨
    r.objectKey = r'.objectKey
  decConflict _ _ := inferInstanceAs (Decidable (_ ∨ _ ∨ _))
  symm _ _ := Or.imp Eq.symm (Or.imp (And.imp Eq.symm Eq.symm) Eq.symm)

/-- `uq_source_chunks_ordinal`. -/
instance : Row SourceChunk where
  conflict r r' := r.id = r'.id ∨ r.sourceId = r'.sourceId ∧ r.ordinal = r'.ordinal
  decConflict _ _ := inferInstanceAs (Decidable (_ ∨ _))
  symm _ _ := Or.imp Eq.symm (And.imp Eq.symm Eq.symm)

/-- `uq_files_user_idempotency`, and the unique storage key. -/
instance : Row File where
  conflict r r' := r.id = r'.id ∨
    r.ownerUserId = r'.ownerUserId ∧ r.idempotencyKey = r'.idempotencyKey ∨
      r.storageKey = r'.storageKey
  decConflict _ _ := inferInstanceAs (Decidable (_ ∨ _ ∨ _))
  symm _ _ := Or.imp Eq.symm (Or.imp (And.imp Eq.symm Eq.symm) Eq.symm)

instance : Row FileProcessingGeneration where
  conflict r r' := r.id = r'.id
  decConflict _ _ := inferInstanceAs (Decidable (_ = _))
  symm _ _ := Eq.symm

/-- `uq_retrieval_segments_order`. -/
instance : Row RetrievalSegment where
  conflict r r' := r.id = r'.id ∨
    r.generationId = r'.generationId ∧ r.segmentOrder = r'.segmentOrder
  decConflict _ _ := inferInstanceAs (Decidable (_ ∨ _))
  symm _ _ := Or.imp Eq.symm (And.imp Eq.symm Eq.symm)

end Sources
