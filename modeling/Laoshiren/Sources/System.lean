import Mathlib.Data.Finset.Basic
import Mathlib.Logic.Function.Basic
import Laoshiren.Foundation.ReadCommitted
import Laoshiren.Sources.Writes

/-!
# Sources and Files as a program

The database, the object storage and any number of processes: uploads, workers that parse Sources, workers
that purge deleted Files and scanners that remove objects without a File. A transaction is one step and
an access to the storage another, and between any two of them a process may crash.
-/

namespace Sources

open Runtime Raise
open PersonalState (Calendar DeleteFile)

/-! ## Processes -/

/-- What ended the round of a worker: the parser, or any other exception. -/
inductive Failure where
  | parsing
  | other
  deriving DecidableEq

/-- What a process is at. -/
inductive Activity where
  | idle
  /-- An upload whose content is stored. -/
  | stored (source : Source)
  /-- An upload that failed: the object is to be deleted. -/
  | refused (objectKey : String)
  /-- A worker that parses a Source; its heartbeat stops where it loses the lease. -/
  | parsing (job : SourceProcessingJob) (leaseLost : Bool)
  /-- A worker whose Source is parsed. -/
  | parsed (job : SourceProcessingJob) (content : ParsedSourceContent)
  /-- A worker whose round raised. -/
  | failing (job : SourceProcessingJob) (failure : Failure)
  /-- A worker that purged a File: the object is to be deleted. -/
  | purged (objectKey : String)
  /-- A scanner that read the storage keys of the Files. -/
  | scanning (known : List String)
  /-- A scanner with the objects that it found and did not look at yet. -/
  | sweeping (known found : List String) (removed : ℕ)
  deriving DecidableEq

/-- The Source that a worker is at, with its claim. -/
def Activity.job : Activity → Option SourceProcessingJob
  | .parsing job _ | .parsed job _ | .failing job _ => some job
  | _ => none

/-- The worker id of a process that parses Sources. -/
def workerOwner (process : UUID) : String := "source-worker-" ++ process.str

/-- The worker id of a process that purges Files. -/
def purgeOwner (process : UUID) : String := "file-purge-" ++ process.str

/-! ## Storage -/

/-- The name of an object that is not stored completely. -/
def uploading (key : String) : Bool := ".uploading".toList.isSuffixOf key.toList

/-- Whether a scan that read the Files now would remove the object. -/
def orphan (files : Table File) (key : String) : Bool :=
  !(decide (key ∈ FileRepository.listStorageKeys files) || uploading key)

/-! ## Steps -/

/-- The database, the storage and the processes. -/
structure World extends State where
  objects : Finset String := ∅
  activities : UUID → Activity := fun _ => .idle

/-- A transaction of another component: it leaves these tables and the jobs that purge Files alone. -/
structure Foreign (s s' : State) : Prop where
  sources : s'.sources = s.sources
  chunks : s'.chunks = s.chunks
  files : s'.files = s.files
  generations : s'.generations = s.generations
  segments : s'.segments = s.segments
  jobs : ∀ j : DurableJob, j.kind = .filePurge ∨ (∃ fileId, j.dedupeKey = filePurgeKey fileId) →
    (j ∈ s'.durableJobs ↔ j ∈ s.durableJobs)

inductive Op where
  /-- `upload` stores the content under the name that it drew. -/
  | put (process : UUID) (upload : UploadFile) (name : UUID) (size : ℕ) (contentHash : String)
      (stamp : Stamp)
  /-- The content is refused while it is stored. -/
  | refuse (process : UUID) (upload : UploadFile) (name : UUID)
  /-- The transaction of `upload`. -/
  | addUpload (process : UUID) (attachment : Raises Unit)
  /-- The object of an upload that failed is deleted. -/
  | cleanUp (process : UUID)
  | deleteFile (c : DeleteFile) (fresh : ℕ → Stamp)
  | claim (process : UUID) (userId : Option UUID) (now : Timestamp) (locked : UUID → Bool)
  | heartbeat (process : UUID) (now : Timestamp)
  /-- `extract_claimed_content`, and the look at the lease after it. -/
  | parse (process : UUID) (result : Except Failure ParsedSourceContent)
  | complete (process : UUID) (drawn : Processing) (now : Timestamp)
  | fail (process : UUID) (now : Timestamp)
  /-- The transaction of the purge worker. -/
  | purge (process : UUID) (lease : ℤ) (now : Timestamp) (reached locked : UUID → Bool)
  /-- The purge worker deletes the object. -/
  | erase (process : UUID)
  /-- A scanner reads the storage keys. -/
  | readKeys (process : UUID)
  /-- A scanner walks the storage in some order. -/
  | listObjects (process : UUID) (order : List String)
  /-- A scanner looks at the next object that it found. -/
  | sweep (process : UUID) (limit : ℕ)
  | crash (process : UUID)
  /-- Another component. -/
  | other (change : State → State) (hforeign : ∀ s, Foreign s (change s))

inductive Reply where
  | raised (error : RuntimeError)
  | done
  | outcome (outcome : WriteOutcome)
  | claimed (job : SourceProcessingJob)
  /-- `complete_processing` returned: whether it completed the Source with the text. -/
  | completed (sourceId : UUID) (content : ParsedSourceContent) (success : Bool)
  deriving DecidableEq

/-- The error code of a worker whose round raised, and the delay after which it may be tried again. -/
def failureOf (settings : Settings) (job : SourceProcessingJob) : Failure → String × Option ℤ
  | .parsing => ("SOURCE_PARSE_FAILED", none)
  | .other =>
    if settings.maxAttempts ≤ job.attemptCount then ("SOURCE_PROCESSING_EXHAUSTED", none)
    else ("SOURCE_PROCESSING_RETRYABLE",
      some (min (settings.retryBase * 2 ^ (job.attemptCount - 1)) settings.retryMax))

namespace World

def setActivity (process : UUID) (activity : Activity) (w : World) : World :=
  { w with activities := Function.update w.activities process activity }

/-- What a step makes of the system. -/
def commit (cal : Calendar) (settings : Settings) (op : Op) (view : ℕ → World) (w : World) :
    World × Reply :=
  let states n := (view n).toState
  match op with
  | .put process upload name size contentHash stamp =>
    match w.activities process with
    | .idle =>
      match SourceRepository.getByIdempotency upload.userId upload.idempotencyKey
        (states 0).sources, upload.sourceType with
      | none, .ok sourceType =>
        let source := upload.source settings sourceType name size contentHash stamp
        ({ w with objects := insert source.objectKey w.objects }.setActivity process
          (.stored source), .done)
      | some _, .ok _ => (w, .done)
      | _, .error error => (w, .raised error)
    | _ => (w, .done)
  | .refuse process upload name =>
    match w.activities process with
    | .idle => (w.setActivity process (.refused (upload.objectKey name)), .done)
    | _ => (w, .done)
  | .addUpload process attachment =>
    match w.activities process with
    | .stored source =>
      match Sources.addUpload source attachment w.toState with
      | .ok s => ({ w with toState := s }.setActivity process .idle, .done)
      | .error error => (w.setActivity process (.refused source.objectKey), .raised error)
    | _ => (w, .done)
  | .cleanUp process =>
    match w.activities process with
    | .refused key => ({ w with objects := w.objects.erase key }.setActivity process .idle, .done)
    | _ => (w, .done)
  | .deleteFile c fresh =>
    match applyDeleteFile cal c fresh states w.toState with
    | .ok (s, outcome) => ({ w with toState := s }, .outcome outcome)
    | .error error => (w, .raised error)
  | .claim process userId now locked =>
    match w.activities process with
    | .idle =>
      match claimNextProcessing settings (workerOwner process) userId now locked w.toState with
      | .ok (s, some job) =>
        ({ w with toState := s }.setActivity process (.parsing job false), .claimed job)
      | .ok (_, none) => (w, .done)
      | .error error => (w, .raised error)
    | _ => (w, .done)
  | .heartbeat process now =>
    let renew (job : SourceProcessingJob) :=
      renewProcessingLease settings job.id (workerOwner process) now w.toState
    match w.activities process with
    | .parsing job false =>
      ({ w with toState := (renew job).1 }.setActivity process (.parsing job !(renew job).2), .done)
    | .parsed job _ | .failing job _ => ({ w with toState := (renew job).1 }, .done)
    | _ => (w, .done)
  | .parse process result =>
    match w.activities process with
    | .parsing job leaseLost =>
      match result with
      | .error failure => (w.setActivity process (.failing job failure), .done)
      | .ok content =>
        if leaseLost then (w.setActivity process .idle, .done)
        else (w.setActivity process (.parsed job content), .done)
    | _ => (w, .done)
  | .complete process drawn now =>
    match w.activities process with
    | .parsed job content =>
      match completeProcessing settings job.id (workerOwner process) content drawn now
        w.toState with
      | .ok (s, success) =>
        ({ w with toState := s }.setActivity process .idle, .completed job.id content success)
      | .error error => (w.setActivity process (.failing job .other), .raised error)
    | _ => (w, .done)
  | .fail process now =>
    match w.activities process with
    | .failing job failure =>
      let (errorCode, retryDelay) := failureOf settings job failure
      let (s, _) := failProcessing job.id (workerOwner process) errorCode retryDelay now w.toState
      ({ w with toState := s }.setActivity process .idle, .done)
    | _ => (w, .done)
  | .purge process lease now reached locked =>
    match w.activities process with
    | .idle =>
      match purgeFile (purgeOwner process) lease now reached locked w.toState with
      | .ok (s, some key) => ({ w with toState := s }.setActivity process (.purged key), .done)
      | .ok (s, none) => ({ w with toState := s }, .done)
      | .error error => (w, .raised error)
    | _ => (w, .done)
  | .erase process =>
    match w.activities process with
    | .purged key => ({ w with objects := w.objects.erase key }.setActivity process .idle, .done)
    | _ => (w, .done)
  | .readKeys process =>
    match w.activities process with
    | .idle =>
      (w.setActivity process (.scanning (FileRepository.listStorageKeys (states 0).files)), .done)
    | _ => (w, .done)
  | .listObjects process order =>
    match w.activities process with
    | .scanning known =>
      let found := order.filter fun key => key ∈ w.objects ∧ uploading key = false
      (w.setActivity process (.sweeping known found 0), .done)
    | _ => (w, .done)
  | .sweep process limit =>
    match w.activities process with
    | .sweeping known (key :: found) removed =>
      if key ∈ known ∨ uploading key = true then
        (w.setActivity process (.sweeping known found removed), .done)
      else
        let activity : Activity :=
          if limit ≤ removed + 1 then .idle else .sweeping known found (removed + 1)
        ({ w with objects := w.objects.erase key }.setActivity process activity, .done)
    | .sweeping _ [] _ => (w.setActivity process .idle, .done)
    | _ => (w, .done)
  | .crash process => (w.setActivity process .idle, .done)
  | .other change _ => ({ w with toState := change w.toState }, .done)

end World

/-- Sources and Files: they start with empty tables, an empty storage and idle processes. -/
def system (cal : Calendar) (settings : Settings) : Program World Op Reply where
  init w := w = {}
  commit := World.commit cal settings

end Sources
