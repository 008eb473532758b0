import Laoshiren.Foundation.Growth
import Laoshiren.Foundation.Redirects
import Laoshiren.Memories.System

/-!
# What a step can write

The Memories after a step, with what the step read where it matters later, and with its answer. Every
step that writes nothing is one case.
-/

namespace Memories

open Runtime
open PersonalState (Memory CreateMemory)

/-- The state that a step leaves, and its answer. -/
inductive Writes (texts : Texts) (op : Op) (view : ℕ → State) (s : State) : State → Reply → Prop
  | nothing {reply : Reply}
      (hforgotten : ∀ memory, reply ≠ .outcome (ForgetMemory.outcome memory false)) :
      Writes texts op view s s reply
  | created {c : CreateMemory} {stamp : Stamp} {superseded : Option Memory}
      {before memories : Table Memory}
      (hop : op = .create c stamp ∨ op = .createIfAllowed c stamp ∧
        MemorySuppressionRepository.isSuppressed c.userId (texts.stored c.content)
            (view 1).suppressions = false ∧
          (reconciled texts c view).duplicatesState = false)
      (hnew : PersonalState.MemoryRepository.getByIdempotency c.userId c.idempotencyKey
        (view 0).memories = none)
      (hbefore : c.supersede stamp.now (fun n => (view (2 * n)).toState) s.memories =
        .ok (superseded, before))
      (hinsert : before.insert? (c.memory superseded stamp) = some memories) :
      Writes texts op view s
        { s with
          memories
          suppressions := MemorySuppressionRepository.clear c.userId (texts.stored c.content)
            (view 3).suppressions s.suppressions }
        (.outcome (CreateMemory.outcome (c.memory superseded stamp) false))
  | updated {author : Author} {c : UpdateMemory} {now : Timestamp} {memory revised : Memory}
      {s' : State} (hop : op = .update author c now)
      (hloads : Loads c.userId c.memoryId c.expectedVersion c.idempotencyKey view memory)
      (hrevised : c.revised memory now = .ok revised)
      (hwrite : writeBack revised memory.version c.idempotencyKey s = .ok s') :
      Writes texts op view s s' (.memory revised false)
  | forgotten {c : ForgetMemory} {stamp : Stamp} {memory : Memory} {s' : State}
      {suppressions : Table MemorySuppression} (hop : op = .forget c stamp)
      (hloads : Loads c.userId c.memoryId c.expectedVersion c.idempotencyKey view memory)
      (hwrite : writeBack (delete memory stamp.now) memory.version c.idempotencyKey s = .ok s')
      (hrecord : MemorySuppressionRepository.record c.userId (texts.fingerprint memory.content)
        (some memory.id) stamp.id (view 2).suppressions s.suppressions = some suppressions) :
      Writes texts op view s { s' with suppressions }
        (.outcome (ForgetMemory.outcome memory false))
  | foreign {change : State → State} {hforeign : ∀ s, Foreign s (change s)}
      (hop : op = .other change hforeign) : Writes texts op view s (change s) .done

/-- A Memory as it was, or in a later version: it keeps what it supersedes, a deleted one is left as it
is, and no other one becomes active. -/
def Later (r r' : Memory) : Prop :=
  r' = r ∨ (r'.id = r.id ∧ r'.userId = r.userId ∧ r'.idempotencyKey = r.idempotencyKey ∧
    r'.supersedesId = r.supersedesId) ∧ r.version < r'.version ∧ r.status ≠ .deleted ∧
    (r'.status = .active → r.status = .active)

/-- A Memory that is new. -/
def Fresh (r : Memory) : Prop := r.status = .active ∧ r.version = 1

/-- The Memory that another one superseded. -/
def supersedes (t : Table Memory) (id : UUID) : Option UUID :=
  (t.get fun r => r.id = id).bind Memory.supersedesId

/-- What a Memory superseded is there, and no Memories superseded each other. -/
structure Descends (t : Table Memory) : Prop where
  there : ∀ r ∈ t, ∀ id ∈ r.supersedesId, ∃ r' ∈ t, r'.id = id
  acyclic : Redirects.Acyclic (supersedes t)

/-- A content of the user was forgotten: it has a tombstone, and no Memory of it is active. -/
structure Forgotten (texts : Texts) (userId : UUID) (fingerprint : String) (s : State) : Prop where
  suppressed : ∃ r ∈ s.suppressions, r.userId = userId ∧ r.contentFingerprint = fingerprint
  inactive : ∀ r ∈ s.memories, r.userId = userId → r.status = .active →
    texts.fingerprint r.content ≠ fingerprint

/-! ## Supersession -/

/-- The Memory that a candidate was to supersede is superseded. -/
def Retired (userId targetId : UUID) (s : State) : Prop :=
  ∃ r ∈ s.memories, r.id = targetId ∧ r.userId = userId ∧ r.status = .superseded

/-- The Memory that was to take its place is there and active. -/
def Replaced (texts : Texts) (candidate : MemoryCandidate) (context : FormationContext)
    (targetId : UUID) (s : State) : Prop :=
  ∃ r ∈ s.memories, r.id ≠ targetId ∧ r.userId = context.userId ∧
    r.idempotencyKey = candidate.idempotencyKey texts context ∧ r.status = .active ∧
    r.content = Text.strip candidate.content

/-- What `create_if_allowed` asks of the state, so that it stores the Memory that a candidate asks
for. -/
structure Accepted (texts : Texts) (c : CreateMemory) (stamp : Stamp) (s : State) : Prop where
  summary : Text.strip c.summary ≠ ""
  key : c.namedKey.all fun key => key.length ≤ 100
  unsuppressed : MemorySuppressionRepository.isSuppressed c.userId (texts.stored c.content)
    s.suppressions = false
  noFact : texts.duplicatesCurrentState (Text.strip c.content)
    (texts.loadStateFactSnapshot c.userId fun _ => s.toState) = false
  new : PersonalState.MemoryRepository.getByIdempotency c.userId c.idempotencyKey s.memories = none
  thing : c.thingId.all fun id => (PersonalState.ThingRepository.get c.userId id s.things).isSome
  sources : ∀ id ∈ c.sourceIds,
    (PersonalState.SourceRepository.get c.userId id s.sources).isSome = true
  fresh : ∀ r ∈ s.memories, r.id ≠ stamp.id

variable (texts : Texts) (candidate : MemoryCandidate) (context : FormationContext)
  (fresh : ℕ → Stamp) (crash : ℕ) (target : Memory) (s : State)

/-- No earlier attempt of the formation has retired a Memory for the candidate. -/
def FirstAttempt : Prop :=
  MemoryRepository.getOperationVersion context.userId
    (candidate.idempotencyKey texts context ++ ":supersede") s.operations = none

/-- `_apply` gets to retire the target. -/
def Retires : Prop :=
  1 ≤ crash ∧ FirstAttempt texts candidate context s ∧ target.status ≠ .deleted

/-- `_apply` gets to create the Memory that takes its place. -/
def Creates : Prop :=
  2 ≤ crash ∧ (FirstAttempt texts candidate context s → target.status ≠ .deleted) ∧
    Accepted texts (candidate.creation texts context) (fresh 1) s

/-- The target holds the profile key of the new Memory, so that the creation alone supersedes it. -/
def Displaces : Prop :=
  target.memoryType = .profile ∧ target.status = .active ∧ target.profileKey.isSome ∧
    target.profileKey = (candidate.creation texts context).namedKey

/-- The target that `_apply` finds is both retired and replaced: now, now and by an earlier attempt, or
by an earlier attempt; or it is neither. -/
def CarriedOut : Prop :=
  Creates texts candidate context fresh crash target s ∧
      (target.status = .superseded ∨ Retires texts candidate context crash target s ∨
        Displaces texts candidate context target) ∨
    ¬Creates texts candidate context fresh crash target s ∧
      (Replaced texts candidate context target.id s ↔
        target.status = .superseded ∨ Retires texts candidate context crash target s)

/-- `_apply` of a candidate that supersedes a Memory does all of it or nothing. -/
def AllOrNothing (targetId : UUID) : Prop :=
  match MemoryRepository.get context.userId targetId s.memories with
  | some target => CarriedOut texts candidate context fresh crash target s
  | none => ¬Replaced texts candidate context targetId s

end Memories
