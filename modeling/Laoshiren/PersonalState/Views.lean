import Laoshiren.Memories.Candidates
import Laoshiren.PersonalState.System

/-!
# The views of the current state

The queries whose results the home screen and the model see: the lists of Things, the open Blockers and
the candidates for attention.
-/

namespace PersonalState

open Runtime

/-! ## Lists of Things -/

namespace ThingRepository

/-- `list_for_user`: `ilike` is the `ILIKE` of the database. -/
def listForUser (ilike : String → String → Bool) (userId : UUID) (status : Option ThingStatus)
    (query : Option String) (cursor : Option UUID) (limit : ℕ) (t : Table Thing) : List Thing :=
  ((t.select fun r => r.userId = userId ∧ r.archivedAt = none ∧ r.mergedIntoThingId = none ∧
    r.deletedAt = none ∧ (status.all fun status => r.status = status) ∧
    ((query.filter fun query => query ≠ "").all fun query => ilike r.name ("%" ++ query ++ "%")) ∧
    (cursor.all fun cursor => r.id.toNat < cursor.toNat)).insertionSort fun r r' =>
      r'.id.toNat ≤ r.id.toNat).take limit

/-- `list_upcoming`. -/
def listUpcoming (userId : UUID) (now windowEnd : Timestamp) (limit : ℕ) (t : Table Thing) :
    List Thing :=
  ((t.select fun r => r.userId = userId ∧ r.archivedAt = none ∧ r.mergedIntoThingId = none ∧
    r.deadlineAt.any fun deadline => now ≤ deadline ∧ deadline ≤ windowEnd).insertionSort
      fun r r' => toLex (r.deadlineAt.getD 0, r.id.toNat) ≤
        toLex (r'.deadlineAt.getD 0, r'.id.toNat)).take limit

/-- `list_recent`. -/
def listRecent (userId : UUID) (limit : ℕ) (t : Table Thing) : List Thing :=
  ((t.select fun r => r.userId = userId ∧ r.archivedAt = none ∧
    r.mergedIntoThingId = none).insertionSort fun r r' =>
      toLex (r'.updatedAt, r'.id.toNat) ≤ toLex (r.updatedAt, r.id.toNat)).take limit

end ThingRepository

/-! ## Open Blockers -/

/-- `list_open`: every open Blocker with the name of its Thing. -/
def BlockerRepository.listOpen (userId : UUID) (limit : ℕ) (things : Table Thing)
    (t : Table Blocker) : List (Blocker × String) :=
  (((t.select fun b => b.status = .open).filterMap fun b =>
    (things.get fun r => r.id = b.thingId ∧ r.userId = userId ∧ r.archivedAt = none).map fun r =>
      (b, r.name)).insertionSort fun p p' =>
        toLex (p'.1.blockedSince, p'.1.id.toNat) ≤ toLex (p.1.blockedSince, p.1.id.toNat)).take limit

/-! ## Candidates for attention -/

inductive AttentionSubjectType where
  | thing
  | task
  | deadline
  | blocker
  deriving DecidableEq, Repr

/-- What the user did about a subject that was brought to attention. -/
structure AttentionFeedback where
  userId : UUID
  subjectType : AttentionSubjectType
  subjectId : UUID
  lastSurfacedAt : Option Timestamp := none
  surfaceCount : ℕ := 0
  acknowledgedAt : Option Timestamp := none
  dismissedUntil : Option Timestamp := none
  updatedAt : Timestamp
  deriving DecidableEq

/-- The primary key of the feedback. -/
def AttentionFeedback.subject (item : AttentionFeedback) : UUID × AttentionSubjectType × UUID :=
  (item.userId, item.subjectType, item.subjectId)

instance : Row AttentionFeedback where
  conflict r r' := r.subject = r'.subject
  decConflict _ _ := inferInstanceAs (Decidable (_ = _))
  symm _ _ := Eq.symm

structure AttentionCandidate where
  subjectType : AttentionSubjectType
  subjectId : UUID
  thingId : UUID
  candidateType : String
  severity : String
  summary : String
  dueAt : Option Timestamp
  lastSurfacedAt : Option Timestamp
  nextEligibleAt : Option Timestamp
  acknowledged : Bool
  deriving DecidableEq

/-- `timedelta(hours=hours)`. -/
def timedeltaHours (hours : ℤ) : ℤ := hours * 3600000000

/-- `ATTENTION_SURFACE_COOLDOWN`. -/
def attentionSurfaceCooldown : ℤ := timedeltaHours 4

/-- The day of a point in time. -/
def utcDate (t : Timestamp) : ℤ := t / timedeltaDays 1

/-- A subject is left alone: it was acknowledged, dismissed for longer, or surfaced just now. -/
def AttentionFeedback.rests (item : AttentionFeedback) (now : Timestamp) : Bool :=
  item.acknowledgedAt ≠ none ∨ (item.dismissedUntil.any fun t => now < t) ∨
    item.lastSurfacedAt.any fun t => now - t < attentionSurfaceCooldown

namespace AttentionRepository

/-- The feedback on a subject. -/
def feedback (userId : UUID) (subjectType : AttentionSubjectType) (subjectId : UUID)
    (t : Table AttentionFeedback) : Option AttentionFeedback :=
  t.get fun r => r.subject = (userId, subjectType, subjectId)

/-- A candidate with what the feedback on it says. -/
def surfaced (item : Option AttentionFeedback) (candidate : AttentionCandidate) :
    AttentionCandidate :=
  { candidate with
    lastSurfacedAt := item.bind AttentionFeedback.lastSurfacedAt
    nextEligibleAt := item.bind AttentionFeedback.dismissedUntil
    acknowledged := item.any fun item => item.acknowledgedAt ≠ none }

/-- The candidate of a deadline: its kind and its severity. -/
def deadlineKind (now deadline : Timestamp) : String × String :=
  if deadline < now then ("overdue", "high")
  else if utcDate deadline = utcDate now then ("due_today", "high")
  else ("due_soon", "medium")

def deadlineCandidate (now : Timestamp) (thing : Thing) (deadline : Timestamp) :
    AttentionCandidate where
  subjectType := .deadline
  subjectId := thing.id
  thingId := thing.id
  candidateType := (deadlineKind now deadline).1
  severity := (deadlineKind now deadline).2
  summary := thing.name ++ "：" ++ (deadlineKind now deadline).1
  dueAt := some deadline
  lastSurfacedAt := none
  nextEligibleAt := none
  acknowledged := false

def blockerCandidate (now : Timestamp) (blocker : Blocker) : AttentionCandidate :=
  let tooLong : Bool := blocker.blockedSince ≤ now - timedeltaHours 24
  { subjectType := .blocker
    subjectId := blocker.id
    thingId := blocker.thingId
    candidateType := if tooLong then "blocked_too_long" else "blocked"
    severity := if tooLong then "high" else "medium"
    summary := blocker.description
    dueAt := none
    lastSurfacedAt := none
    nextEligibleAt := none
    acknowledged := false }

/-- A subject that is not left alone, and when it last changed. -/
def candidate? (userId : UUID) (now : Timestamp) (t : Table AttentionFeedback)
    (candidate : AttentionCandidate) (updatedAt : Timestamp) :
    Option (AttentionCandidate × Timestamp) :=
  let item := feedback userId candidate.subjectType candidate.subjectId t
  if item.any fun item => item.rests now then none else some (surfaced item candidate, updatedAt)

/-- The order of the candidates: the texts of two ids are ordered as the ids are. -/
def before (now : Timestamp) (p p' : AttentionCandidate × Timestamp) : Prop :=
  let key (p : AttentionCandidate × Timestamp) : ℕ ×ₗ ℤ ×ₗ ℤ ×ₗ ℕ :=
    toLex (if p.1.severity = "high" then 0 else 1,
      toLex (-p.2, toLex (p.1.dueAt.getD now, p.1.subjectId.toNat)))
  key p ≤ key p'

instance (now : Timestamp) : DecidableRel (before now) := fun _ _ =>
  inferInstanceAs (Decidable (_ ≤ _))

/-- The Things with a deadline that is near or past, in any state but completed and cancelled. -/
def dueThings (userId : UUID) (now : Timestamp) (dueSoonHours : ℤ) (t : Table Thing) : List Thing :=
  t.select fun r => r.userId = userId ∧
    (r.deadlineAt.any fun deadline => deadline ≤ now + timedeltaHours dueSoonHours) ∧
    r.status ≠ .completed ∧ r.status ≠ .cancelled

/-- The open Blockers of the Things of a user. -/
def openBlockers (userId : UUID) (things : Table Thing) (t : Table Blocker) : List Blocker :=
  t.select fun b => b.status = .open ∧
    things.rows.any fun thing => thing.id = b.thingId ∧ thing.userId = userId

/-- `get_candidates`: its two last queries read `view 0` and `view 1`. -/
def getCandidates (userId : UUID) (now : Timestamp) (dueSoonHours : ℤ) (limit : ℕ)
    (t : Table AttentionFeedback) (view : ℕ → State) : List AttentionCandidate :=
  let deadlines := (dueThings userId now dueSoonHours (view 0).things).filterMap fun thing =>
    thing.deadlineAt.bind fun deadline =>
      candidate? userId now t (deadlineCandidate now thing deadline) thing.updatedAt
  let blockers := (openBlockers userId (view 1).things (view 1).blockers).filterMap fun blocker =>
    candidate? userId now t (blockerCandidate now blocker) blocker.updatedAt
  (((deadlines ++ blockers).insertionSort (before now)).map Prod.fst).take limit

end AttentionRepository

/-! ## What the views report -/

/-- A Thing that the user deleted, merged or archived. -/
def Thing.Hidden (thing : Thing) : Prop :=
  thing.deletedAt ≠ none ∨ thing.mergedIntoThingId ≠ none ∨ thing.archivedAt ≠ none

instance : DecidablePred Thing.Hidden := fun _ => inferInstanceAs (Decidable (_ ∨ _ ∨ _))

/-- A current-state view reports a Thing: itself, a Blocker on it, or a candidate about it. -/
inductive State.Reports (s : State) : UUID → Prop
  | forUser {ilike : String → String → Bool} {userId : UUID} {status : Option ThingStatus}
      {query : Option String} {cursor : Option UUID} {limit : ℕ} {thing : Thing}
      (h : thing ∈ ThingRepository.listForUser ilike userId status query cursor limit s.things) :
      s.Reports thing.id
  | upcoming {userId : UUID} {now windowEnd : Timestamp} {limit : ℕ} {thing : Thing}
      (h : thing ∈ ThingRepository.listUpcoming userId now windowEnd limit s.things) :
      s.Reports thing.id
  | active {userId : UUID} {limit : ℕ} {thing : Thing}
      (h : thing ∈ Memories.listActive userId limit s.things) : s.Reports thing.id
  | recent {userId : UUID} {limit : ℕ} {thing : Thing}
      (h : thing ∈ ThingRepository.listRecent userId limit s.things) : s.Reports thing.id
  | blocked {userId : UUID} {limit : ℕ} {blocker : Blocker} {name : String}
      (h : (blocker, name) ∈ BlockerRepository.listOpen userId limit s.things s.blockers) :
      s.Reports blocker.thingId
  | attention {userId : UUID} {now : Timestamp} {dueSoonHours : ℤ} {limit : ℕ}
      {t : Table AttentionFeedback} {candidate : AttentionCandidate}
      (h : candidate ∈ AttentionRepository.getCandidates userId now dueSoonHours limit t
        fun _ => s) : s.Reports candidate.thingId

/-! ## Conditions on a transaction -/

/-- A write that expects the `version` of a Thing comes through with it. -/
structure State.Finds (s : State) (userId thingId : UUID) (version : ℤ) (thing : Thing) : Prop where
  mem : thing ∈ s.things
  id_eq : thing.id = thingId
  userId_eq : thing.userId = userId
  live : thing.deletedAt = none
  version_eq : (thing.version : ℤ) = version

/-- A Thing that a deadline makes a candidate for attention. -/
def Thing.Due (thing : Thing) : Prop := thing.status = .active ∧ thing.deadlineAt ≠ none

/-- An open Blocker belongs to a Thing. -/
def State.Blocks (s : State) (thingId : UUID) : Prop :=
  ∃ b ∈ s.blockers, b.thingId = thingId ∧ b.status = .open

/-- A transaction hides no Thing of which a view still knows, and gives a hidden one nothing that a view
looks for: only archived Things are deleted; only Things without a deadline to come and without open
Blockers are archived, and merged where the merge does not find and move the Blockers; a hidden Thing
gets no deadline, no active status and no Blocker. -/
def Op.HidesCleanly (op : Op) (view : ℕ → State) (s : State) : Prop :=
  op.IsNew s →
    match op with
    | .updateThing c _ => c.status = some .active →
      ∀ thing, s.Finds c.userId c.thingId c.expectedVersion thing → thing.Hidden →
        thing.deadlineAt = none
    | .changeArchive c _ => c.archive = true →
      ∀ thing, s.Finds c.userId c.thingId c.expectedVersion thing →
        ¬thing.Due ∧ ¬s.Blocks thing.id
    | .deleteThing c _ =>
      ∀ thing, s.Finds c.userId c.thingId c.expectedVersion thing →
        thing.mergedIntoThingId = none → thing.archivedAt ≠ none
    | .mergeThings c _ =>
      ∀ duplicate, s.Finds c.userId c.duplicateThingId c.expectedDuplicateVersion duplicate →
        duplicate.mergedIntoThingId = none → ¬duplicate.Due ∧
          ∀ b ∈ s.blockers, b.thingId = duplicate.id → b.status = .open →
            (∃ r ∈ (view 5).blockers, r.id = b.id ∧ r.thingId = duplicate.id) ∧
            ∀ canonical ∈ s.things, canonical.id = c.canonicalThingId → ¬canonical.Hidden
    | .setDeadline c _ => c.isPrimary = true →
      ∀ thing, s.Finds c.userId c.thingId c.expectedVersion thing → thing.Hidden →
        thing.status ≠ .active
    | .updateDate c _ => c.isPrimary = true →
      ∀ date, ThingDateRepository.get c.userId c.dateId (view 1).things (view 1).dates = some date →
        ∀ thing, s.Finds c.userId date.thingId c.expectedThingVersion thing → thing.Hidden →
          thing.status ≠ .active
    | .createBlocker c _ => ∀ thing ∈ s.things, thing.id = c.thingId → ¬thing.Hidden
    | _ => True

end PersonalState
