import Laoshiren.Foundation.ReadCommitted
import Laoshiren.Memories.Writes

/-!
# Memories as a program

The user remembers, corrects and forgets, and the Memory Manager of any number of workers carries out
what the extractor proposes. Advisory locks are not modelled: an interleaving that they rule out is
one of the interleavings here.
-/

namespace Memories

open Runtime Raise
open PersonalState (Memory CreateMemory)

/-! ## Steps -/

/-- A transaction of another component: it leaves the Memories alone. -/
structure Foreign (s s' : State) : Prop where
  memories : s'.memories = s.memories
  suppressions : s'.suppressions = s.suppressions
  operations : s'.operations = s.operations

/-- On whose behalf a Memory is updated. -/
inductive Author where
  | user
  | formation
  deriving DecidableEq

inductive Op where
  /-- The user remembers: `create`, and `apply_explicit_remember`. -/
  | create (c : CreateMemory) (stamp : Stamp)
  | createIfAllowed (c : CreateMemory) (stamp : Stamp)
  | update (author : Author) (c : UpdateMemory) (now : Timestamp)
  | forget (c : ForgetMemory) (stamp : Stamp)
  /-- Another component. -/
  | other (change : State → State) (hforeign : ∀ s, Foreign s (change s))

inductive Reply where
  | raised (error : RuntimeError)
  | done
  | outcome (outcome : WriteOutcome)
  /-- `create_if_allowed` rolled back. -/
  | notAllowed
  | memory (memory : Memory) (replayed : Bool)
  deriving DecidableEq

/-- What a step makes of the committed state, and its answer. -/
def commit (texts : Texts) (op : Op) (view : ℕ → State) (s : State) : State × Reply :=
  match op with
  | .create c stamp =>
    match applyCreateMemory texts c false stamp view s with
    | .ok (s', outcome) => (s', .outcome outcome)
    | .error error => (s, .raised error)
  | .createIfAllowed c stamp =>
    match applyCreateMemory texts c true stamp view s with
    | .ok (s', outcome) =>
      if outcome.code ∈ ["MEMORY_SUPPRESSED", "MEMORY_STATE_DUPLICATE"] then (s, .notAllowed)
      else (s', .outcome outcome)
    | .error error => (s, .raised error)
  | .update _ c now =>
    match updateMemory c now view s with
    | .ok (s', memory, replayed) => (s', .memory memory replayed)
    | .error error => (s, .raised error)
  | .forget c stamp =>
    match applyForgetMemory texts c stamp view s with
    | .ok (s', outcome) => (s', .outcome outcome)
    | .error error => (s, .raised error)
  | .other change _ => (change s, .done)

/-- The Memories: they start with empty tables. -/
def system (texts : Texts) : Program State Op Reply where
  init s := s = {}
  commit := commit texts

/-! ## The Memory Manager -/

/-- What `form` needs of its context. -/
structure FormationContext where
  userId : UUID
  runId : UUID

namespace MemoryCandidate

variable (texts : Texts) (candidate : MemoryCandidate) (context : FormationContext)

/-- Whether `form` carries the candidate out. -/
def considered (confidenceThreshold : ℚ) : Bool :=
  candidate.action ≠ .ignore && confidenceThreshold ≤ candidate.confidence &&
    !texts.rejectsStateAuthority candidate.content

/-- `candidate.content[:200]`. -/
def summary : String := String.ofList (candidate.content.toList.take 200)

/-- `_idempotency_key`. -/
def idempotencyKey : String :=
  "agent-memory:" ++ context.runId.str ++ ":" ++
    String.ofList ((texts.sha256 (Texts.joined (texts.casefold candidate.content))).toList.take 16)

/-- The Memory that `create_if_allowed` is asked for. -/
def creation : CreateMemory where
  userId := context.userId
  memoryType := candidate.memoryType
  content := candidate.content
  summary := candidate.summary
  importance := candidate.importance
  confidence := candidate.confidence
  idempotencyKey := candidate.idempotencyKey texts context
  thingId := candidate.thingId
  sourceIds := candidate.sourceRefs
  profileKey :=
    if candidate.memoryType = .profile then
      some (texts.casefold (Text.strip (texts.profileKeyFor candidate.content)))
    else none

/-- The update that retires the target. -/
def retirement (target : Memory) : UpdateMemory where
  userId := context.userId
  memoryId := target.id
  expectedVersion := target.version
  idempotencyKey := candidate.idempotencyKey texts context ++ ":supersede"
  supersede := true

/-- The update that gives the target the content of the candidate. -/
def revision (target : Memory) : UpdateMemory where
  userId := context.userId
  memoryId := target.id
  expectedVersion := target.version
  content := some candidate.content
  summary := some candidate.summary
  importance := some candidate.importance
  confidence := some candidate.confidence
  idempotencyKey := candidate.idempotencyKey texts context

/-- The transactions of `_apply` that write, one after the other: the target is the one that `found`
holds, and `fresh` is what they draw. -/
def transactions (fresh : ℕ → Stamp) (found : Table Memory) : List Op :=
  match candidate.action with
  | .create | .ignore => [.createIfAllowed (candidate.creation texts context) (fresh 1)]
  | .update targetId | .merge targetId =>
    ((MemoryRepository.get context.userId targetId found).map fun target =>
      .update .formation (candidate.revision texts context target) (fresh 0).now).toList
  | .supersede targetId =>
    match MemoryRepository.get context.userId targetId found with
    | none => []
    | some target =>
      [.update .formation (candidate.retirement texts context target) (fresh 0).now,
        .createIfAllowed (candidate.creation texts context) (fresh 1)]

end MemoryCandidate

/-- One transaction after the other, up to the first that raises or to the crash of the process, which
comes after `crash` of them. -/
def runUntil (texts : Texts) : ℕ → List Op → State → State
  | 0, _, s | _ + 1, [], s => s
  | crash + 1, op :: ops, s =>
    match commit texts op (fun _ => s) s with
    | (_, .raised _) => s
    | (s', _) => runUntil texts crash ops s'

/-- `_apply` on the state `s`, with a crash after `crash` of its transactions. -/
def applyCandidate (texts : Texts) (candidate : MemoryCandidate) (context : FormationContext)
    (fresh : ℕ → Stamp) (crash : ℕ) (s : State) : State :=
  runUntil texts crash (candidate.transactions texts context fresh s.memories) s

/-! ## Conditions on a transaction -/

/-- The fingerprint of a content as it is stored. -/
def Texts.stored (texts : Texts) (content : String) : String :=
  texts.fingerprint (Text.strip content)

/-- The user remembers the content of the fingerprint, or gives it to a Memory. -/
def Op.remembers (texts : Texts) (userId : UUID) (fingerprint : String) : Op → Prop
  | .create c _ => c.userId = userId ∧ texts.stored c.content = fingerprint
  | .update .user c _ => c.userId = userId ∧ c.supersede = false ∧
    ∃ content ∈ c.content, texts.stored content = fingerprint
  | _ => False

/-- The Memory that an update or a forget is about, where its operation is new and its version is the
one that the caller expects. -/
def Loads (userId memoryId : UUID) (expectedVersion : ℤ) (key : String) (view : ℕ → State)
    (memory : Memory) : Prop :=
  MemoryRepository.getOperationVersion userId key (view 0).operations = none ∧
    MemoryRepository.get userId memoryId (view 1).memories = some memory ∧
    (memory.version : ℤ) = expectedVersion

/-- A tombstone that the transaction read, where its id is still there, is of the content that it
remembers: no id is drawn twice. -/
def ReadsOwnTombstone (texts : Texts) (c : CreateMemory) (view : ℕ → State) (s : State) : Prop :=
  ∀ row, MemorySuppressionRepository.find c.userId (texts.stored c.content)
    (view 3).suppressions = some row → ∀ r ∈ s.suppressions, r.id = row.id → r = row

/-- No formation brings back what was forgotten: it gives no active Memory a content that was
forgotten, and where it remembers a content that was forgotten it read the tombstone. A forget leaves
no other active Memory of its content, and where it read a tombstone the tombstone is still there. -/
def Unrevived (texts : Texts) (op : Op) (view : ℕ → State) (s : State) : Prop :=
  match op with
  | .create c _ => ReadsOwnTombstone texts c view s
  | .createIfAllowed c _ => ReadsOwnTombstone texts c view s ∧
    (PersonalState.MemoryRepository.getByIdempotency c.userId c.idempotencyKey
        (view 0).memories = none →
      MemorySuppressionRepository.isSuppressed c.userId (texts.stored c.content)
        s.suppressions = true →
      MemorySuppressionRepository.isSuppressed c.userId (texts.stored c.content)
        (view 1).suppressions = true)
  | .update .formation c _ => ∀ memory,
    Loads c.userId c.memoryId c.expectedVersion c.idempotencyKey view memory →
    memory ∈ s.memories → memory.status = .active → c.supersede = false →
    ∀ content ∈ c.content, MemorySuppressionRepository.isSuppressed c.userId (texts.stored content)
      s.suppressions = false
  | .forget c _ => ∀ memory,
    Loads c.userId c.memoryId c.expectedVersion c.idempotencyKey view memory →
    memory ∈ s.memories →
    (∀ r ∈ s.memories, r.userId = c.userId → r.status = .active →
      texts.fingerprint r.content = texts.fingerprint memory.content → r = memory) ∧
    (MemorySuppressionRepository.isSuppressed c.userId (texts.fingerprint memory.content)
        (view 2).suppressions = true →
      MemorySuppressionRepository.isSuppressed c.userId (texts.fingerprint memory.content)
        s.suppressions = true)
  | _ => True

end Memories
