import Laoshiren.Memories.Candidates

/-!
# Writes on Memories

The transactions of the Memory service and of the tools that remember and forget. A Memory is forgotten
by a tombstone of its content, which keeps the background formation from remembering it again.
-/

namespace Memories

open Runtime Raise
open PersonalState (Memory CreateMemory)
open PersonalState.MemoryRepository (updateWhere updateValues)

/-! ## Tables -/

/-- The tombstone of a content that was forgotten. -/
structure MemorySuppression where
  id : UUID
  userId : UUID
  contentFingerprint : String
  memoryId : Option UUID
  deriving DecidableEq

structure MemoryOperation where
  userId : UUID
  memoryId : UUID
  idempotencyKey : String
  targetVersion : ℕ
  deriving DecidableEq

/-- `uq_memory_suppressions_user_fingerprint`. -/
instance : Row MemorySuppression where
  conflict r r' := r.id = r'.id ∨
    r.userId = r'.userId ∧ r.contentFingerprint = r'.contentFingerprint
  decConflict _ _ := inferInstanceAs (Decidable (_ ∨ _))
  symm _ _ := Or.imp Eq.symm (And.imp Eq.symm Eq.symm)

/-- `uq_memory_operations_key`. -/
instance : Row MemoryOperation where
  conflict r r' := r.userId = r'.userId ∧ r.idempotencyKey = r'.idempotencyKey
  decConflict _ _ := inferInstanceAs (Decidable (_ ∧ _))
  symm _ _ := And.imp Eq.symm Eq.symm

/-- The Memories, with the Personal State that they are compared with. -/
structure State extends PersonalState.State where
  suppressions : Table MemorySuppression := .empty
  operations : Table MemoryOperation := .empty
  deriving DecidableEq

namespace MemoryRepository

def get (userId memoryId : UUID) (t : Table Memory) : Option Memory :=
  t.get fun r => r.id = memoryId ∧ r.userId = userId

def getOperationVersion (userId : UUID) (key : String) (t : Table MemoryOperation) : Option ℕ :=
  (t.get fun r => r.userId = userId ∧ r.idempotencyKey = key).map MemoryOperation.targetVersion

end MemoryRepository

namespace MemorySuppressionRepository

def find (userId : UUID) (fingerprint : String) (t : Table MemorySuppression) :
    Option MemorySuppression :=
  t.get fun r => r.userId = userId ∧ r.contentFingerprint = fingerprint

def isSuppressed (userId : UUID) (fingerprint : String) (t : Table MemorySuppression) : Bool :=
  (find userId fingerprint t).isSome

/-- `record`: the tombstone is looked for in `seen`. -/
def record (userId : UUID) (fingerprint : String) (memoryId : Option UUID) (id : UUID)
    (seen t : Table MemorySuppression) : Option (Table MemorySuppression) :=
  match find userId fingerprint seen with
  | some _ => some t
  | none => t.insert? ⟨id, userId, fingerprint, memoryId⟩

/-- `clear`: the tombstone is looked for in `seen`. -/
def clear (userId : UUID) (fingerprint : String) (seen t : Table MemorySuppression) :
    Table MemorySuppression :=
  match find userId fingerprint seen with
  | some row => t.delete fun r => r.id = row.id
  | none => t

end MemorySuppressionRepository

/-! ## Entities -/

/-- `Memory.revise`. -/
def revise (memory : Memory) (content summary : Option String) (importance confidence : Option ℚ)
    (now : Timestamp) : Raises Memory := do
  ensure (.valueError "Only an active memory can be revised.") (memory.status = .active)
  ensure (.valueError "Memory content must not be empty.")
    (content.all fun text => Text.strip text ≠ "")
  ensure (.valueError "Memory summary must not be empty.")
    (summary.all fun text => Text.strip text ≠ "")
  return { memory with
    content := (content.map Text.strip).getD memory.content
    summary := (summary.map Text.strip).getD memory.summary
    importance := importance.getD memory.importance
    confidence := confidence.getD memory.confidence
    updatedAt := now
    version := memory.version + 1 }

/-- `Memory.supersede`. -/
def supersede (memory : Memory) (now : Timestamp) : Raises Memory := do
  ensure (.valueError "A deleted memory cannot be superseded.") (memory.status ≠ .deleted)
  return { memory with status := .superseded, updatedAt := now, version := memory.version + 1 }

/-- `Memory.delete`. -/
def delete (memory : Memory) (now : Timestamp) : Memory :=
  if memory.status = .deleted then memory
  else { memory with status := .deleted, updatedAt := now, version := memory.version + 1 }

/-! ## Remembering -/

variable (texts : Texts)

/-- The arguments of `apply_create_memory`, with what a transaction that reconciles looks up. -/
def reconciled (c : CreateMemory) (view : ℕ → State) : CreateMemory :=
  { c with
    suppressed := MemorySuppressionRepository.isSuppressed c.userId
      (texts.fingerprint (Text.strip c.content)) (view 1).suppressions
    duplicatesState := texts.duplicatesCurrentState (Text.strip c.content) <|
      texts.loadStateFactSnapshot c.userId fun n => (view (2 * n + 5)).toState }

/-- The arguments of `apply_create_memory`, where nothing is looked up. -/
def unreconciled (c : CreateMemory) : CreateMemory :=
  { c with suppressed := false, duplicatesState := false }

/-- Whether `apply_create_memory` stored a Memory. -/
def remembered (outcome : WriteOutcome) : Bool :=
  outcome.code = "MEMORY_REMEMBERED" && outcome.data.get "replayed" == some (.bool false)

/-- `apply_create_memory`: the tombstone of a content that is remembered goes. -/
def applyCreateMemory (c : CreateMemory) (reconcileState : Bool) (stamp : Stamp) (view : ℕ → State)
    (s : State) : Raises (State × WriteOutcome) := do
  let c := if reconcileState then reconciled texts c view else unreconciled c
  let (state, outcome) ←
    PersonalState.applyCreateMemory c stamp (fun n => (view (2 * n)).toState) s.toState
  if remembered outcome then
    let suppressions := MemorySuppressionRepository.clear c.userId
      (texts.fingerprint (Text.strip c.content)) (view 3).suppressions s.suppressions
    return ({ s with toState := state, suppressions }, outcome)
  else
    return (s, outcome)

/-! ## Forgetting and updating -/

/-- `memories.update` of a row that was loaded, and `record_operation`. -/
def writeBack (memory : Memory) (expectedVersion : ℕ) (key : String) (s : State) : Raises State := do
  let p := updateWhere memory expectedVersion
  let memories ← orRaise .integrityError (s.memories.update? p (updateValues memory))
  ensure (.versionConflict "Memory was updated concurrently.") (s.memories.rowcount p = 1)
  let operations ← orRaise .integrityError <|
    s.operations.insert? ⟨memory.userId, memory.id, key, memory.version⟩
  return { s with memories, operations }

structure ForgetMemory where
  userId : UUID
  memoryId : UUID
  expectedVersion : ℤ
  idempotencyKey : String
  deriving DecidableEq

/-- The outcome of `apply_forget_memory`. -/
def ForgetMemory.outcome (memory : Memory) (replayed : Bool) : WriteOutcome where
  code := "MEMORY_FORGOTTEN"
  message := "Memory forgotten."
  data := Dict.ofFields [("id", .str memory.id.str), ("replayed", .bool replayed)]
  mutationRefs := []

/-- The Memory that a write is about, at the version that the caller expects. -/
def loadMemory (userId memoryId : UUID) (expectedVersion : ℤ) (t : Table Memory) : Raises Memory := do
  let memory ← orRaise (.entityNotFound "Memory was not found.")
    (MemoryRepository.get userId memoryId t)
  ensure (.versionConflict "Memory version is stale.") ((memory.version : ℤ) = expectedVersion)
  return memory

/-- The Memory of an operation that was done before. -/
def replayedMemory (userId memoryId : UUID) (t : Table Memory) : Raises Memory :=
  orRaise (.runtimeError "Idempotent Memory operation points to a missing Memory.")
    (MemoryRepository.get userId memoryId t)

/-- `apply_forget_memory`. -/
def applyForgetMemory (c : ForgetMemory) (stamp : Stamp) (view : ℕ → State) (s : State) :
    Raises (State × WriteOutcome) :=
  match MemoryRepository.getOperationVersion c.userId c.idempotencyKey (view 0).operations with
  | some _ => do
    let replay ← replayedMemory c.userId c.memoryId (view 1).memories
    return (s, ForgetMemory.outcome replay true)
  | none => do
    let memory ← loadMemory c.userId c.memoryId c.expectedVersion (view 1).memories
    let s ← writeBack (delete memory stamp.now) memory.version c.idempotencyKey s
    let suppressions ← orRaise .integrityError <|
      MemorySuppressionRepository.record c.userId (texts.fingerprint memory.content) (some memory.id)
        stamp.id (view 2).suppressions s.suppressions
    return ({ s with suppressions }, ForgetMemory.outcome memory false)

/-- The arguments of `update`, where it does not delete. -/
structure UpdateMemory where
  userId : UUID
  memoryId : UUID
  expectedVersion : ℤ
  content : Option String := none
  summary : Option String := none
  importance : Option ℚ := none
  confidence : Option ℚ := none
  idempotencyKey : String
  supersede : Bool := false
  deriving DecidableEq

/-- The Memory as `update` leaves it. -/
def UpdateMemory.revised (c : UpdateMemory) (memory : Memory) (now : Timestamp) : Raises Memory :=
  if c.supersede then Memories.supersede memory now
  else revise memory c.content c.summary c.importance c.confidence now

/-- `MemoryApplicationService.update`: the Memory that it answers, and whether the operation was done
before. -/
def updateMemory (c : UpdateMemory) (now : Timestamp) (view : ℕ → State) (s : State) :
    Raises (State × Memory × Bool) := do
  ensure (.valueError "Memory importance must be between 0 and 1.")
    (c.importance.all fun value => 0 ≤ value ∧ value ≤ 1)
  ensure (.valueError "Memory confidence must be between 0 and 1.")
    (c.confidence.all fun value => 0 ≤ value ∧ value ≤ 1)
  match MemoryRepository.getOperationVersion c.userId c.idempotencyKey (view 0).operations with
  | some _ =>
    let replay ← replayedMemory c.userId c.memoryId (view 1).memories
    return (s, replay, true)
  | none =>
    let memory ← loadMemory c.userId c.memoryId c.expectedVersion (view 1).memories
    let revised ← c.revised memory now
    let s ← writeBack revised memory.version c.idempotencyKey s
    return (s, revised, false)

end Memories
