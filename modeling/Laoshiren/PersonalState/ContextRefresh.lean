import Laoshiren.PersonalState.Snapshot
import Laoshiren.PersonalState.Views

/-!
# The context of an invocation

Before every step of a model its context is read again: the Thing of the Thread, the Sources of the
message, and the candidates for attention, the first of which are marked as surfaced. Any of these reads
may find that what it looks for is gone, and then the invocation fails.
-/

namespace PersonalState

open Raise Runtime

/-! ## Feedback on a candidate -/

inductive AttentionFeedbackAction where
  | surfaced
  | acknowledged
  | dismissed
  deriving DecidableEq, Repr

namespace AttentionRepository

/-- The columns that the feedback writes. -/
def feedbackValues (action : AttentionFeedbackAction) (now : Timestamp)
    (dismissedUntil : Option Timestamp) (item : AttentionFeedback) : AttentionFeedback :=
  match action with
  | .surfaced =>
    { item with updatedAt := now, lastSurfacedAt := some now, surfaceCount := item.surfaceCount + 1 }
  | .acknowledged => { item with updatedAt := now, acknowledgedAt := some now }
  | .dismissed => { item with updatedAt := now, dismissedUntil := dismissedUntil }

theorem feedback_keeps (p : AttentionFeedback → Bool) (action : AttentionFeedbackAction)
    (now : Timestamp) (dismissedUntil : Option Timestamp) :
    Table.Keeps p (feedbackValues action now dismissedUntil) := by
  intro r _ r' h
  cases action <;> exact h

/-- `record_feedback`: a row is inserted, or the one that is there is updated. -/
def recordFeedback (userId : UUID) (subjectType : AttentionSubjectType) (subjectId : UUID)
    (action : AttentionFeedbackAction) (now : Timestamp) (dismissedUntil : Option Timestamp)
    (t : Table AttentionFeedback) : Table AttentionFeedback :=
  let values := feedbackValues action now dismissedUntil
  match t.insert? (values { userId, subjectType, subjectId, updatedAt := now }) with
  | some t => t
  | none => t.update (fun r => r.subject = (userId, subjectType, subjectId)) values
      (feedback_keeps _ action now dismissedUntil)

end AttentionRepository

/-- The subject of a candidate is there. -/
def subjectExists (userId : UUID) (subjectType : AttentionSubjectType) (subjectId : UUID)
    (s : State) : Bool :=
  match subjectType with
  | .thing | .deadline => (ThingRepository.get userId subjectId s.things).isSome
  | .task => (TaskRepository.get userId subjectId s.tasks).isSome
  | .blocker => (BlockerRepository.get userId subjectId s.things s.blockers).isSome

/-- `AttentionApplicationService.record_feedback`. -/
def recordFeedback (userId : UUID) (subjectType : AttentionSubjectType) (subjectId : UUID)
    (action : AttentionFeedbackAction) (now : Timestamp) (dismissedUntil : Option Timestamp)
    (s : State) (t : Table AttentionFeedback) : Raises (Table AttentionFeedback) := do
  ensure (.valueError "Dismissed feedback requires dismissed_until.")
    (action = .dismissed → dismissedUntil ≠ none)
  ensure (.entityNotFound "Attention subject was not found.")
    (subjectExists userId subjectType subjectId s)
  return AttentionRepository.recordFeedback userId subjectType subjectId action now dismissedUntil t

/-- The candidates are marked as surfaced, one after the other. -/
def surfaceCandidates (userId : UUID) (now : Timestamp) (s : State) :
    List AttentionCandidate → Table AttentionFeedback → Raises (Table AttentionFeedback)
  | [], t => .ok t
  | candidate :: candidates, t => do
    let t ← recordFeedback userId candidate.subjectType candidate.subjectId .surfaced now none s t
    surfaceCandidates userId now s candidates t

/-! ## The prefetch -/

/-- The first run of two or more letters: `re.findall(r"[A-Za-z]{2,}", text)[0]`. -/
def latinToken (run : List Char) : List Char → Option String
  | [] => if 2 ≤ run.length then some (String.ofList run.reverse) else none
  | c :: cs =>
    if c.isAlpha then latinToken (c :: run) cs
    else if 2 ≤ run.length then some (String.ofList run.reverse) else latinToken [] cs

def thingSearchQueryFromInput (text : String) : String :=
  let normalized := Text.strip text
  (latinToken [] normalized.toList).getD normalized

def ambiguousThingCandidates (things : List Thing) : Dict :=
  Dict.ofFields
    [("match_status", .str "ambiguous"),
      ("candidates", .arr (things.map fun thing => .obj (Dict.ofFields
        [("id", .str thing.id.str), ("name", .str thing.name), ("status", .str thing.status.value),
          ("version", .num thing.version)])))]

/-- `get_agent_thing_prefetch`, with all its reads in one state: `ilike` is the `ILIKE` of the
database. -/
def getAgentThingPrefetch (cal : Calendar) (ilike : String → String → Bool) (userId : UUID)
    (activeThingId : Option UUID) (query : String) (s : State) : Raises Dict :=
  match activeThingId with
  | some thingId => buildThingPrefetch cal userId thingId "active_thread" s
  | none =>
    let normalized := Text.strip query
    let searchQuery := thingSearchQueryFromInput normalized
    if normalized.length < 2 ∨ searchQuery.length < 2 then .ok (Dict.ofFields [])
    else
      match ThingRepository.listForUser ilike userId none (some (Text.strip searchQuery)) none 5
        s.things with
      | [] => .ok (Dict.ofFields [])
      | [candidate] => buildThingPrefetch cal userId candidate.id "query_match" s
      | candidates => .ok (ambiguousThingCandidates candidates)

/-! ## The Sources of a message -/

/-- What the Sources say: their chunks, within a number of characters, and their whole text. -/
structure SourceTexts where
  chunks : UUID → ℕ → List String
  extractedText : UUID → Option String

/-- The passages of a Source: its chunks, or else its text. -/
def SourceTexts.passages (texts : SourceTexts) (sourceId : UUID) (remaining : ℕ) : List String :=
  match texts.chunks sourceId remaining with
  | [] => (texts.extractedText sourceId).toList.filter fun text => text ≠ ""
  | chunks => chunks

/-- Passages are taken as long as characters remain, and the last one is cut off. -/
def takePassages (sourceId : UUID) : ℕ → List String → List (UUID × String) × ℕ
  | remaining, [] => ([], remaining)
  | remaining, passage :: passages =>
    if remaining = 0 then ([], 0)
    else
      let content := passage.toList.take remaining
      let (taken, remaining) := takePassages sourceId (remaining - content.length) passages
      ((sourceId, String.ofList content) :: taken, remaining)

/-- `sources.get`. -/
def getSource (userId sourceId : UUID) (s : State) : Raises Source :=
  orRaise (.entityNotFound "Source was not found.") (SourceRepository.get userId sourceId s.sources)

/-- The Sources of a message are read until no characters remain. `get_context_chunks` looks a Source up
once more. -/
def loadSources (texts : SourceTexts) (userId : UUID) (s : State) :
    ℕ → List UUID → Raises (List (UUID × String))
  | _, [] => .ok []
  | remaining, sourceId :: sourceRefs =>
    if remaining = 0 then .ok []
    else do
      let source ← getSource userId sourceId s
      let (taken, remaining) := takePassages source.id remaining (texts.passages source.id remaining)
      let rest ← loadSources texts userId s remaining sourceRefs
      return taken ++ rest

/-! ## The context -/

/-- What a model is invoked for. -/
structure Invocation where
  userId : UUID
  threadId : UUID
  currentInput : String
  sourceRefs : List UUID

/-- What was read, and the feedback with the candidates that were surfaced. -/
structure RefreshedContext where
  active : Dict
  sourceContext : List (UUID × String)
  attention : List AttentionCandidate
  feedback : Table AttentionFeedback

/-- `get_thread`. -/
def getThread (userId threadId : UUID) (s : State) : Raises Thread :=
  orRaise (.entityNotFound "Thread was not found.")
    (s.threads.get fun r => r.id = threadId ∧ r.userId = userId)

/-- `refresh_context`, with all its reads in one state: what it reads that can be missing. -/
def refreshContext (cal : Calendar) (ilike : String → String → Bool) (texts : SourceTexts)
    (now : Timestamp) (inv : Invocation) (feedback : Table AttentionFeedback) (s : State) :
    Raises RefreshedContext := do
  let thread ← getThread inv.userId inv.threadId s
  let active ← getAgentThingPrefetch cal ilike inv.userId thread.activeThingId inv.currentInput s
  let sourceContext ← loadSources texts inv.userId s 12000 inv.sourceRefs
  let attention := AttentionRepository.getCandidates inv.userId now 72 5 feedback fun _ => s
  let feedback ← surfaceCandidates inv.userId now s (attention.take 3) feedback
  return { active, sourceContext, attention, feedback }

/-! ## Conditions on a transaction -/

/-- The context shows the Thing: it is live, and so is the Thing that it is merged into. -/
def State.Shows (s : State) (userId thingId : UUID) : Prop :=
  ∃ thing ∈ s.things, thing.id = thingId ∧ thing.userId = userId ∧ thing.deletedAt = none ∧
    ∀ canonicalId ∈ thing.mergedIntoThingId, ∃ canonical ∈ s.things,
      canonical.id = canonicalId ∧ canonical.userId = userId ∧ canonical.deletedAt = none

/-- A transaction deletes nothing that an invocation reads: no Thing that is due, none that a Thread
shows or that such a one is merged into, and no file that a message cites. And it makes a Thread show
nothing that is deleted. -/
def Op.SparesContext (cited : UUID → Prop) (op : Op) (s : State) : Prop :=
  op.IsNew s →
    match op with
    | .deleteThing c _ =>
      ∀ thing, s.Finds c.userId c.thingId c.expectedVersion thing → thing.mergedIntoThingId = none →
        ¬thing.Due ∧ ∀ thread ∈ s.threads, ∀ activeId ∈ thread.activeThingId,
          activeId ≠ thing.id ∧ s.redirect activeId ≠ some thing.id
    | .mergeThings c _ => (∃ thread ∈ s.threads, thread.activeThingId = some c.duplicateThingId) →
      s.Shows c.userId c.canonicalThingId
    | .createThread userId _ _ activeThingId _ => ∀ id ∈ activeThingId, s.Shows userId id
    | .automationThread c _ => ∀ id ∈ c.thingId, s.Shows c.userId id
    | .deleteFile c _ => ¬cited c.sourceId
    | _ => True

end PersonalState
