import Laoshiren.Foundation.ReadCommitted
import Laoshiren.PersonalState.ContextRefresh

/-!
# The feedback on what is brought to attention

The feedback of all users is in one table, with a row for every subject. A request for feedback
first looks for its subject, which the Personal State may delete meanwhile, and then writes the row
in one statement. Beside the table stands what it is for: a log of all feedback that was recorded,
which tells of every subject whether the user wants to hear of it (`Log.told`, `Awake`).
-/

namespace PersonalState

open Raise Runtime

/-- What a user does about a subject. -/
structure FeedbackRequest where
  userId : UUID
  subjectType : AttentionSubjectType
  subjectId : UUID
  action : AttentionFeedbackAction
  now : Timestamp
  dismissedUntil : Option Timestamp := none
  deriving DecidableEq

/-- The primary key of the row that it writes. -/
def FeedbackRequest.subject (request : FeedbackRequest) : UUID × AttentionSubjectType × UUID :=
  (request.userId, request.subjectType, request.subjectId)

namespace Attention

/-! ## The program -/

/-- The Personal State and the feedback. -/
structure World where
  personalState : State := {}
  feedback : Table AttentionFeedback := .empty

inductive Op where
  /-- The Personal State is written: it may become anything. -/
  | personalState (s : State)
  | recordFeedback (request : FeedbackRequest)

inductive Reply where
  | done
  | raised (error : RuntimeError)
  deriving DecidableEq

def commit (op : Op) (view : ℕ → World) (w : World) : World × Reply :=
  match op with
  | .personalState s => ({ w with personalState := s }, .done)
  | .recordFeedback request =>
    match recordFeedback request.userId request.subjectType request.subjectId request.action
        request.now request.dismissedUntil (view 0).personalState w.feedback with
    | .ok feedback => ({ w with feedback }, .done)
    | .error error => (w, .raised error)

/-- The feedback of any number of requests beside each other. -/
def system : Program World Op Reply where
  init w := w = {}
  commit := commit

/-! ## The log -/

/-- Feedback that was recorded, the latest first. -/
abbrev Log := List FeedbackRequest

/-- The feedback of an answered request. -/
def recordedBy : Op × Reply → Option FeedbackRequest
  | (.recordFeedback request, .done) => some request
  | _ => none

/-- What was recorded on a subject. -/
def logOf (replies : List (Op × Reply)) (subject : UUID × AttentionSubjectType × UUID) : Log :=
  (replies.filterMap recordedBy).filter fun request => request.subject = subject

namespace Log

variable (log : Log)

/-- The latest feedback of an action. -/
def latest (action : AttentionFeedbackAction) : Option FeedbackRequest :=
  log.find? fun request => request.action = action

def lastSurfaced : Option Timestamp := (log.latest .surfaced).map FeedbackRequest.now

def lastAcknowledged : Option Timestamp := (log.latest .acknowledged).map FeedbackRequest.now

/-- Until when the user dismissed the subject, as he said last. -/
def lastDismissed : Option Timestamp := (log.latest .dismissed).bind FeedbackRequest.dismissedUntil

/-- How often the subject was brought to attention. -/
def surfaceCount : ℕ := log.countP fun request => request.action = .surfaced

/-- The row that a log stands for: there is none where nothing was recorded. -/
def told : Option AttentionFeedback :=
  log.head?.map fun request =>
    { userId := request.userId
      subjectType := request.subjectType
      subjectId := request.subjectId
      lastSurfacedAt := log.lastSurfaced
      surfaceCount := log.surfaceCount
      acknowledgedAt := log.lastAcknowledged
      dismissedUntil := log.lastDismissed
      updatedAt := request.now }

end Log

/-- The user may hear of the subject: he never acknowledged it, the time is over for which he
dismissed it last, and it was not brought to attention in the last hours. -/
structure Awake (log : Log) (now : Timestamp) : Prop where
  unacknowledged : ∀ request ∈ log, request.action ≠ .acknowledged
  undismissed : ∀ t ∈ log.lastDismissed, t ≤ now
  unsurfaced : ∀ t ∈ log.lastSurfaced, attentionSurfaceCooldown ≤ now - t

/-! ## What is shown -/

/-- The deadlines that are near or past, and the open Blockers. -/
inductive Raised (userId : UUID) (now : Timestamp) (dueSoonHours : ℤ) (view : ℕ → State) :
    AttentionCandidate → Prop
  | deadline {thing : Thing} {deadline : Timestamp}
      (hthing : thing ∈ AttentionRepository.dueThings userId now dueSoonHours (view 0).things)
      (hdeadline : thing.deadlineAt = some deadline) :
      Raised userId now dueSoonHours view
        (AttentionRepository.deadlineCandidate now thing deadline)
  | blocker {blocker : Blocker}
      (hblocker : blocker ∈ AttentionRepository.openBlockers userId (view 1).things
        (view 1).blockers) :
      Raised userId now dueSoonHours view (AttentionRepository.blockerCandidate now blocker)

/-- A candidate with what the log says of it. -/
def shownAs (log : Log) (candidate : AttentionCandidate) : AttentionCandidate :=
  { candidate with
    lastSurfacedAt := log.lastSurfaced
    nextEligibleAt := log.lastDismissed
    acknowledged := false }

/-- The candidates follow the feedback: what the user wants to hear of is shown and nothing else,
and where there is no room for all of it nothing urgent gives way to what is not. -/
structure Follows (log : UUID × AttentionSubjectType × UUID → Log) (userId : UUID)
    (now : Timestamp) (dueSoonHours : ℤ) (limit : ℕ) (view : ℕ → State)
    (shown : List AttentionCandidate) : Prop where
  sound : ∀ candidate' ∈ shown, ∃ candidate, Raised userId now dueSoonHours view candidate ∧
    Awake (log (userId, candidate.subjectType, candidate.subjectId)) now ∧
    candidate' = shownAs (log (userId, candidate.subjectType, candidate.subjectId)) candidate
  complete : ∀ candidate, Raised userId now dueSoonHours view candidate →
    Awake (log (userId, candidate.subjectType, candidate.subjectId)) now →
    shownAs (log (userId, candidate.subjectType, candidate.subjectId)) candidate ∈ shown ∨
      shown.length = limit ∧
        (candidate.severity = "high" → ∀ candidate' ∈ shown, candidate'.severity = "high")

end Attention

end PersonalState
