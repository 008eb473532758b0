import Laoshiren.Foundation.Growth
import Laoshiren.Sources.System

/-!
# What a step can write

The tables after a step, with what the step read where it matters later, and with its answer. Every step
that writes nothing is one case.
-/

namespace Sources

open Runtime
open PersonalState (Calendar DeleteFile)

/-- The File of a Source is there, or it is added. -/
def Mirrored (source : Source) (files files' : Table File) : Prop :=
  files.insert? (fileFromSource source) = some files' ∨
    files' = files ∧ ∃ f ∈ files, f.id = source.id ∧ f.ownerUserId = source.userId

/-- The job that purges a File is there, or it is added. -/
def Enqueued (userId fileId : UUID) (objectKey : String) (stamp : Stamp)
    (jobs jobs' : Table DurableJob) : Prop :=
  jobs.insert? (filePurgeJob userId fileId objectKey stamp) = some jobs' ∨
    jobs' = jobs ∧ ∃ j ∈ jobs, j.userId = userId ∧ j.dedupeKey = filePurgeKey fileId

/-- The File of the job, with the tables after it was purged. -/
structure Purges (job : DurableJob) (now : Timestamp) (s : State) (files : Table File)
    (segments : Table RetrievalSegment) (objectKey : Option String) (fileId : UUID) : Prop where
  payload : ((job.payload.get "file_id").bind Json.asStr?).bind UUID.parse? = some fileId
  result : (files = s.files ∨ files = FileRepository.markPurged job.userId fileId now s.files) ∧
    (segments = s.segments ∨ segments = FileRepository.purgeSegmentsForFile fileId s.segments)
  objectKey : objectKey =
    (FileRepository.getIncludingDeleted job.userId fileId s.files).map File.storageKey

/-- What the transaction of the purge worker does, where it does anything. -/
inductive Purged (owner : String) (lease : ℤ) (now : Timestamp) (reached locked : UUID → Bool)
    (s : State) : State → Option String → Prop
  | rolledBack : Purged owner lease now reached locked s s none
  | passed (hjobs : (claimReadyJobs .filePurge owner now (now + lease) 1 reached locked
        s.durableJobs).2 = []) :
      Purged owner lease now reached locked s
        { s with
          durableJobs :=
            (claimReadyJobs .filePurge owner now (now + lease) 1 reached locked s.durableJobs).1 }
        none
  | purged {job : DurableJob} {objectKey : Option String} {fileId : UUID} {s' : State}
      (hjob : job ∈ (claimReadyJobs .filePurge owner now (now + lease) 1 reached locked
        s.durableJobs).2)
      (hpurges : Purges job now s s'.files s'.segments objectKey fileId)
      (hjobs : s'.durableJobs = (DurableJobRepository.settle job.id owner job.claimEpoch .completed
        now none (claimReadyJobs .filePurge owner now (now + lease) 1 reached locked
          s.durableJobs).1).1)
      (hsettled : (DurableJobRepository.settle job.id owner job.claimEpoch .completed now none
        (claimReadyJobs .filePurge owner now (now + lease) 1 reached locked s.durableJobs).1).2 = true)
      (hsame : s' = { s with
        files := s'.files, segments := s'.segments, durableJobs := s'.durableJobs }) :
      Purged owner lease now reached locked s s' (objectKey.filter (· ≠ ""))

/-- A Source is deleted, with what was made of it, and its File is to be purged. -/
structure Deletes (c : DeleteFile) (fresh : ℕ → Stamp) (view : ℕ → State) (s s' : State) : Prop where
  found : ∃ source, SourceRepository.get c.userId c.sourceId (view 1).sources = some source ∧
    Enqueued c.userId c.sourceId source.objectKey (fresh 1) s.durableJobs s'.durableJobs
  new : PersonalState.AuditRepository.getMutation c.userId c.idempotencyKey (view 0).mutations = none
  loaded : ∃ loaded, SourceRepository.get c.userId c.sourceId (view 2).sources = some loaded ∧
    s'.sources = s.sources.update (fun r => r.id = c.sourceId)
      (SourceRepository.deletedValues loaded (fresh 0).now) fun _ _ _ h => h
  chunks : s'.chunks = SourceRepository.purgeChunks c.sourceId s.chunks
  files : s'.files = FileRepository.markDeleted c.userId c.sourceId (fresh 0).now s.files
  generations : s'.generations = s.generations
  segments : s'.segments = FileRepository.purgeSegmentsForFile c.sourceId s.segments

/-- The text was parsed for a worker that still holds the Source: its chunks, its generation and its
segments are added. -/
structure Completes (settings : Settings) (job : SourceProcessingJob) (owner : String)
    (content : ParsedSourceContent) (drawn : Processing) (now : Timestamp) (s s' : State) : Prop where
  held : ∃ r ∈ s.sources, SourceRepository.claimedBy job.id owner r = true
  parsed : ∃ normalized chunks, content.normalized = .ok normalized ∧
    processedChunks settings job.id normalized drawn.embeddings drawn.chunks = .ok chunks ∧
    s'.sources = (SourceRepository.completeProcessing job.id owner normalized.text now s.sources).1 ∧
    s.chunks.insertAll? chunks = some s'.chunks ∧
    (FileRepository.retireActiveGenerations job.id drawn.generation.now s.generations).insert?
      (newGeneration settings job.id drawn.generation) = some s'.generations ∧
    FileRepository.replaceSegments drawn.generation.id
      (segmentsOf job.id drawn.generation.id chunks drawn.segments) s.segments = some s'.segments
  mirrored : ∃ r ∈ s'.sources, r.id = job.id ∧ Mirrored r s.files s'.files
  durableJobs : s'.durableJobs = s.durableJobs

/-- The tables that a step leaves, and its answer. -/
inductive Writes (settings : Settings) (op : Op) (view : ℕ → World) (w : World) :
    State → Reply → Prop
  | nothing {reply : Reply} (hclaimed : ∀ job, reply ≠ .claimed job)
      (hcompleted : ∀ id content, reply ≠ .completed id content true) :
      Writes settings op view w w.toState reply
  | uploaded {process : UUID} {attachment : Raises Unit} {source : Source} {s : State}
      (hop : op = .addUpload process attachment)
      (hactivity : w.activities process = .stored source)
      (hsources : w.sources.insert? source = some s.sources)
      (hfiles : Mirrored source w.files s.files)
      (hsame : s = { w.toState with sources := s.sources, files := s.files }) :
      Writes settings op view w s .done
  | deleted {c : DeleteFile} {fresh : ℕ → Stamp} {s : State} {outcome : WriteOutcome}
      (hop : op = .deleteFile c fresh)
      (hdeletes : Deletes c fresh (fun n => (view n).toState) w.toState s) :
      Writes settings op view w s (.outcome outcome)
  | claimed {process : UUID} {userId : Option UUID} {now : Timestamp} {locked : UUID → Bool}
      {source : Source} {job : SourceProcessingJob} (hop : op = .claim process userId now locked)
      (hidle : w.activities process = .idle) (hsource : source ∈ w.sources)
      (hclaimable : SourceRepository.claimableWhere processableMimeTypes settings.maxAttempts now
        source = true)
      (hid : job.id = source.id) (hattempt : job.attemptCount = source.processingAttemptCount + 1) :
      Writes settings op view w
        { w.toState with
          sources := w.sources.update (fun r => r.id = source.id)
            (SourceRepository.claimValues (workerOwner process) now (now + settings.lease))
            fun _ _ _ h => h }
        (.claimed job)
  | renewed {process : UUID} {now : Timestamp} {job : SourceProcessingJob}
      (hop : op = .heartbeat process now) (hjob : (w.activities process).job = some job) :
      Writes settings op view w
        (renewProcessingLease settings job.id (workerOwner process) now w.toState).1 .done
  | completed {process : UUID} {drawn : Processing} {now : Timestamp} {job : SourceProcessingJob}
      {content : ParsedSourceContent} {s : State} (hop : op = .complete process drawn now)
      (hactivity : w.activities process = .parsed job content)
      (hcompletes : Completes settings job (workerOwner process) content drawn now w.toState s) :
      Writes settings op view w s (.completed job.id content true)
  | failed {process : UUID} {now : Timestamp} {job : SourceProcessingJob} {failure : Failure}
      (hop : op = .fail process now) (hactivity : w.activities process = .failing job failure) :
      Writes settings op view w
        (failProcessing job.id (workerOwner process) (failureOf settings job failure).1
          (failureOf settings job failure).2 now w.toState).1 .done
  | purged {process : UUID} {lease : ℤ} {now : Timestamp} {reached locked : UUID → Bool}
      {s : State} {objectKey : Option String} (hop : op = .purge process lease now reached locked)
      (hidle : w.activities process = .idle)
      (hpurged : Purged (purgeOwner process) lease now reached locked w.toState s objectKey) :
      Writes settings op view w s .done
  | foreign {change : State → State} {hforeign : ∀ s, Foreign s (change s)}
      (hop : op = .other change hforeign) :
      Writes settings op view w (change w.toState) .done

/-! ## Rows -/

/-- What a step makes of one Source. -/
inductive SourceMove (settings : Settings) (op : Op) (view : ℕ → World) (w : World) (r : Source) :
    Source → Prop
  | kept : SourceMove settings op view w r r
  | deleted {c : DeleteFile} {fresh : ℕ → Stamp} {loaded : Source} (hop : op = .deleteFile c fresh)
      (hnew : PersonalState.AuditRepository.getMutation c.userId c.idempotencyKey
        (view 0).mutations = none)
      (hloaded : SourceRepository.get c.userId c.sourceId (view 2).sources = some loaded)
      (hid : r.id = c.sourceId) :
      SourceMove settings op view w r (SourceRepository.deletedValues loaded (fresh 0).now r)
  | claimed {process : UUID} {userId : Option UUID} {now : Timestamp} {locked : UUID → Bool}
      (hop : op = .claim process userId now locked) (hidle : w.activities process = .idle)
      (hclaimable : SourceRepository.claimableWhere processableMimeTypes settings.maxAttempts now
        r = true) :
      SourceMove settings op view w r
        (SourceRepository.claimValues (workerOwner process) now (now + settings.lease) r)
  | renewed {process : UUID} {now : Timestamp} {job : SourceProcessingJob}
      (hop : op = .heartbeat process now) (hjob : (w.activities process).job = some job)
      (hheld : SourceRepository.claimedBy job.id (workerOwner process) r = true) :
      SourceMove settings op view w r (SourceRepository.renewValues now (now + settings.lease) r)
  | completed {process : UUID} {drawn : Processing} {now : Timestamp} {job : SourceProcessingJob}
      {content : ParsedSourceContent} {text : String} (hop : op = .complete process drawn now)
      (hactivity : w.activities process = .parsed job content)
      (hheld : SourceRepository.claimedBy job.id (workerOwner process) r = true) :
      SourceMove settings op view w r (SourceRepository.completeValues text now r)
  | failed {process : UUID} {now : Timestamp} {job : SourceProcessingJob} {failure : Failure}
      {retryAt : Option Timestamp} (hop : op = .fail process now)
      (hactivity : w.activities process = .failing job failure)
      (hretry : retryAt = (failureOf settings job failure).2.map fun delay => now + delay)
      (hheld : SourceRepository.claimedBy job.id (workerOwner process) r = true) :
      SourceMove settings op view w r
        (SourceRepository.failValues (failureOf settings job failure).1 now retryAt r)

/-- A Source that an upload adds. -/
def Uploaded (op : Op) (w : World) (r : Source) : Prop :=
  ∃ process attachment, op = .addUpload process attachment ∧ w.activities process = .stored r

/-! ## Processes and objects -/

/-- What a step makes of one process. -/
inductive ActivityMove (settings : Settings) (op : Op) (view : ℕ → World) (w : World)
    (process : UUID) : Activity → Activity → Prop
  | kept {a : Activity} : ActivityMove settings op view w process a a
  | put {upload : UploadFile} {name : UUID} {size : ℕ} {contentHash : String} {stamp : Stamp}
      {sourceType : SourceType} (hop : op = .put process upload name size contentHash stamp) :
      ActivityMove settings op view w process .idle
        (.stored (upload.source settings sourceType name size contentHash stamp))
  | refused {upload : UploadFile} {name : UUID} (hop : op = .refuse process upload name) :
      ActivityMove settings op view w process .idle (.refused (upload.objectKey name))
  | added {source : Source} {attachment : Raises Unit} {s : State}
      (hop : op = .addUpload process attachment)
      (hadded : addUpload source attachment w.toState = .ok s) :
      ActivityMove settings op view w process (.stored source) .idle
  | notAdded {source : Source} {attachment : Raises Unit}
      (hop : op = .addUpload process attachment) :
      ActivityMove settings op view w process (.stored source) (.refused source.objectKey)
  | cleanedUp {key : String} (hop : op = .cleanUp process) :
      ActivityMove settings op view w process (.refused key) .idle
  | claimed {userId : Option UUID} {now : Timestamp} {locked : UUID → Bool} {s : State}
      {job : SourceProcessingJob} (hop : op = .claim process userId now locked)
      (hclaimed : claimNextProcessing settings (workerOwner process) userId now locked w.toState =
        .ok (s, some job)) :
      ActivityMove settings op view w process .idle (.parsing job false)
  | renewed {now : Timestamp} {job : SourceProcessingJob} (hop : op = .heartbeat process now) :
      ActivityMove settings op view w process (.parsing job false)
        (.parsing job
          !(renewProcessingLease settings job.id (workerOwner process) now w.toState).2)
  | parsed {job : SourceProcessingJob} {content : ParsedSourceContent}
      (hop : op = .parse process (.ok content)) :
      ActivityMove settings op view w process (.parsing job false) (.parsed job content)
  | lost {job : SourceProcessingJob} {content : ParsedSourceContent}
      (hop : op = .parse process (.ok content)) :
      ActivityMove settings op view w process (.parsing job true) .idle
  | raised {job : SourceProcessingJob} {leaseLost : Bool} {failure : Failure}
      (hop : op = .parse process (.error failure)) :
      ActivityMove settings op view w process (.parsing job leaseLost) (.failing job failure)
  | completed {job : SourceProcessingJob} {content : ParsedSourceContent} {drawn : Processing}
      {now : Timestamp} {s : State} {success : Bool} (hop : op = .complete process drawn now)
      (hcompleted : completeProcessing settings job.id (workerOwner process) content drawn now
        w.toState = .ok (s, success)) :
      ActivityMove settings op view w process (.parsed job content) .idle
  | notCompleted {job : SourceProcessingJob} {content : ParsedSourceContent} {drawn : Processing}
      {now : Timestamp} (hop : op = .complete process drawn now) :
      ActivityMove settings op view w process (.parsed job content) (.failing job .other)
  | failed {job : SourceProcessingJob} {failure : Failure} {now : Timestamp}
      (hop : op = .fail process now) :
      ActivityMove settings op view w process (.failing job failure) .idle
  | purged {lease : ℤ} {now : Timestamp} {reached locked : UUID → Bool} {s : State} {key : String}
      (hop : op = .purge process lease now reached locked)
      (hpurged : purgeFile (purgeOwner process) lease now reached locked w.toState =
        .ok (s, some key)) :
      ActivityMove settings op view w process .idle (.purged key)
  | erased {key : String} (hop : op = .erase process) :
      ActivityMove settings op view w process (.purged key) .idle
  | scanned (hop : op = .readKeys process) :
      ActivityMove settings op view w process .idle
        (.scanning (FileRepository.listStorageKeys (view 0).files))
  | listed {known found : List String} {order : List String}
      (hop : op = .listObjects process order) :
      ActivityMove settings op view w process (.scanning known) (.sweeping known found 0)
  | swept {known found : List String} {key : String} {removed removed' limit : ℕ}
      (hop : op = .sweep process limit) :
      ActivityMove settings op view w process (.sweeping known (key :: found) removed)
        (.sweeping known found removed')
  | stopped {known found : List String} {removed limit : ℕ} (hop : op = .sweep process limit) :
      ActivityMove settings op view w process (.sweeping known found removed) .idle
  | crashed {a : Activity} (hop : op = .crash process) :
      ActivityMove settings op view w process a .idle

/-- What a step makes of the storage. -/
inductive ObjectMove (op : Op) (w : World) : Finset String → Prop
  | kept : ObjectMove op w w.objects
  | put {process : UUID} {upload : UploadFile} {name : UUID} {size : ℕ} {contentHash : String}
      {stamp : Stamp} (hop : op = .put process upload name size contentHash stamp) :
      ObjectMove op w (insert (upload.objectKey name) w.objects)
  | cleanedUp {process : UUID} {key : String} (hop : op = .cleanUp process)
      (hactivity : w.activities process = .refused key) : ObjectMove op w (w.objects.erase key)
  | erased {process : UUID} {key : String} (hop : op = .erase process)
      (hactivity : w.activities process = .purged key) : ObjectMove op w (w.objects.erase key)
  | swept {process : UUID} {limit : ℕ} {known found : List String} {key : String} {removed : ℕ}
      (hop : op = .sweep process limit)
      (hactivity : w.activities process = .sweeping known (key :: found) removed)
      (hunknown : key ∉ known) : ObjectMove op w (w.objects.erase key)

end Sources
