import Laoshiren.Sources.Entities

/-!
# Statements on Sources and Files

A claim selects with `FOR UPDATE SKIP LOCKED` and writes in the same statement, so it is one step; `locked`
are the rows that it passes over. Deleting a Source is different: the row is loaded first, and a flush
writes those columns back whose value is not the one that was loaded.
-/

namespace Sources

open Runtime

namespace SourceRepository

def getById (sourceId : UUID) (t : Table Source) : Option Source := t.get fun r => r.id = sourceId

def get (userId sourceId : UUID) (t : Table Source) : Option Source :=
  t.get fun r => r.id = sourceId ∧ r.userId = userId ∧ r.deletedAt = none

def getIncludingDeleted (userId sourceId : UUID) (t : Table Source) : Option Source :=
  t.get fun r => r.id = sourceId ∧ r.userId = userId

def getByIdempotency (userId : UUID) (key : String) (t : Table Source) : Option Source :=
  t.get fun r => r.userId = userId ∧ r.idempotencyKey = key

/-! ## Processing -/

/-- The condition of `claim_next_processing`. -/
def claimableWhere (supportedMimeTypes : List String) (maxAttempts : ℕ) (now : Timestamp)
    (r : Source) : Bool :=
  r.deletedAt = none ∧ r.mimeType ∈ supportedMimeTypes ∧ r.processingAttemptCount < maxAttempts ∧
    (r.processingStatus = .pending ∧ (∀ t ∈ r.processingLeaseExpiresAt, t ≤ now) ∨
      r.processingStatus = .failed ∧ ∃ t ∈ r.nextProcessingAttemptAt, t ≤ now)

/-- The Source that a claim selects. -/
def candidate (userId : Option UUID) (supportedMimeTypes : List String) (maxAttempts : ℕ)
    (now : Timestamp) (locked : UUID → Bool) (t : Table Source) : Option Source :=
  ((t.select fun r => claimableWhere supportedMimeTypes maxAttempts now r &&
    userId.all (r.userId = ·) && !locked r.id).insertionSort fun r r' =>
      toLex (r.createdAt, r.id.toNat) ≤ toLex (r'.createdAt, r'.id.toNat)).head?

def claimValues (owner : String) (now leaseExpiresAt : Timestamp) (r : Source) : Source :=
  { r with
    processingStatus := .pending
    processingClaimOwner := some owner
    processingLeaseExpiresAt := some leaseExpiresAt
    processingHeartbeatAt := some now
    processingAttemptCount := r.processingAttemptCount + 1
    nextProcessingAttemptAt := none
    processedAt := none }

/-- `claim_next_processing`: the table, and the row that was claimed. -/
def claimNextProcessing (owner : String) (userId : Option UUID) (now leaseExpiresAt : Timestamp)
    (supportedMimeTypes : List String) (maxAttempts : ℕ) (locked : UUID → Bool) (t : Table Source) :
    Table Source × Option Source :=
  match candidate userId supportedMimeTypes maxAttempts now locked t with
  | some source =>
    (t.update (fun r => r.id = source.id) (claimValues owner now leaseExpiresAt) fun _ _ _ h => h,
      some (claimValues owner now leaseExpiresAt source))
  | none => (t, none)

/-- The condition under which a worker may renew, complete or fail. -/
def claimedBy (sourceId : UUID) (owner : String) (r : Source) : Bool :=
  r.id = sourceId ∧ r.processingStatus = .pending ∧ r.processingClaimOwner = some owner

def renewValues (now leaseExpiresAt : Timestamp) (r : Source) : Source :=
  { r with processingHeartbeatAt := some now, processingLeaseExpiresAt := some leaseExpiresAt }

def renewProcessingLease (sourceId : UUID) (owner : String) (now leaseExpiresAt : Timestamp)
    (t : Table Source) : Table Source × Bool :=
  let p := claimedBy sourceId owner
  (t.update p (renewValues now leaseExpiresAt) fun _ _ _ h => h, t.rowcount p == 1)

def completeValues (extractedText : String) (now : Timestamp) (r : Source) : Source :=
  { r with
    processingStatus := .ready
    extractedText := some extractedText
    processingError := none
    processedAt := some now
    processingClaimOwner := none
    processingLeaseExpiresAt := none
    processingHeartbeatAt := none
    nextProcessingAttemptAt := none }

/-- The update of `complete_processing`. -/
def completeProcessing (sourceId : UUID) (owner extractedText : String) (now : Timestamp)
    (t : Table Source) : Table Source × Bool :=
  let p := claimedBy sourceId owner
  (t.update p (completeValues extractedText now) fun _ _ _ h => h, t.rowcount p == 1)

def failValues (errorCode : String) (now : Timestamp) (retryAt : Option Timestamp) (r : Source) :
    Source :=
  { r with
    processingStatus := .failed
    processingError := some errorCode
    processedAt := if retryAt.isNone then some now else none
    processingClaimOwner := none
    processingLeaseExpiresAt := none
    processingHeartbeatAt := none
    nextProcessingAttemptAt := retryAt }

def failProcessing (sourceId : UUID) (owner errorCode : String) (now : Timestamp)
    (retryAt : Option Timestamp) (t : Table Source) : Table Source × Bool :=
  let p := claimedBy sourceId owner
  (t.update p (failValues errorCode now retryAt) fun _ _ _ h => h, t.rowcount p == 1)

/-! ## Deleting -/

/-- What a flush leaves of a column: it is written where its new value is not the one that was loaded. -/
def flushed {α : Type} [DecidableEq α] (loaded new current : α) : α :=
  if new = loaded then current else new

/-- The columns that `mark_deleted` sets, as the flush writes them to the row. -/
def deletedValues (loaded : Source) (now : Timestamp) (r : Source) : Source :=
  { r with
    deletedAt := flushed loaded.deletedAt (some now) r.deletedAt
    extractedText := flushed loaded.extractedText none r.extractedText
    processingStatus := flushed loaded.processingStatus .failed r.processingStatus
    processingError := flushed loaded.processingError (some "SOURCE_DELETED") r.processingError }

/-- `mark_deleted`: the row is loaded from `seen`. -/
def markDeleted (userId sourceId : UUID) (now : Timestamp) (seen t : Table Source) :
    Option (Table Source) :=
  (get userId sourceId seen).map fun loaded =>
    t.update (fun r => r.id = loaded.id) (deletedValues loaded now) fun _ _ _ h => h

def purgeChunks (sourceId : UUID) (t : Table SourceChunk) : Table SourceChunk :=
  t.delete fun r => r.sourceId = sourceId

end SourceRepository

namespace FileRepository

def getIncludingDeleted (userId fileId : UUID) (t : Table File) : Option File :=
  t.get fun r => r.id = fileId ∧ r.ownerUserId = userId

def markDeletedWhere (userId fileId : UUID) (r : File) : Bool :=
  r.id = fileId ∧ r.ownerUserId = userId ∧ r.deletedAt = none

def markDeleted (userId fileId : UUID) (now : Timestamp) (t : Table File) : Table File :=
  t.update (markDeletedWhere userId fileId)
    (fun r => { r with deletedAt := some now, assetStatus := .deleted }) fun _ _ _ h => h

/-- `retire_active_generations`. -/
def retireActiveGenerations (fileId : UUID) (now : Timestamp) (t : Table FileProcessingGeneration) :
    Table FileProcessingGeneration :=
  t.update (fun r => r.fileId = fileId ∧ r.isActive = true)
    (fun r => { r with isActive := false, status := .retired, retiredAt := some now })
    fun _ _ _ h => h

/-- `replace_segments`. -/
def replaceSegments (generationId : UUID) (segments : List RetrievalSegment)
    (t : Table RetrievalSegment) : Option (Table RetrievalSegment) :=
  (t.delete fun r => r.generationId = generationId).insertAll? segments

def purgeSegmentsForFile (fileId : UUID) (t : Table RetrievalSegment) : Table RetrievalSegment :=
  t.delete fun r => r.fileId = fileId

def markPurgedWhere (userId fileId : UUID) (r : File) : Bool :=
  r.id = fileId ∧ r.ownerUserId = userId ∧ r.deletedAt ≠ none ∧ r.purgedAt = none

def markPurged (userId fileId : UUID) (now : Timestamp) (t : Table File) : Table File :=
  t.update (markPurgedWhere userId fileId) (fun r => { r with purgedAt := some now })
    fun _ _ _ h => h

def listStorageKeys (t : Table File) : List String := t.rows.map File.storageKey

end FileRepository

end Sources
