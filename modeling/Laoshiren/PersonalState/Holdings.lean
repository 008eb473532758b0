import Laoshiren.PersonalState.Repositories
import Mathlib.Data.Rat.Defs

/-!
# What belongs to a Thing

The rows that refer to a Thing: its Tasks, Blockers and context entries, its links to Sources and to
other Things, and the Automations, notifications, Memories and Threads of the same user. Together with the Things themselves
they are the Personal State.
-/

namespace PersonalState

open Runtime

/-! ## Value objects -/

inductive BlockerStatus where
  | open
  | resolved
  deriving DecidableEq, Repr

def BlockerStatus.value : BlockerStatus → String
  | .open => "OPEN"
  | .resolved => "RESOLVED"

inductive SourceRelationType where
  | primary
  | supporting
  | reference
  | evidence
  | other
  deriving DecidableEq, Repr

def SourceRelationType.value : SourceRelationType → String
  | .primary => "PRIMARY"
  | .supporting => "SUPPORTING"
  | .reference => "REFERENCE"
  | .evidence => "EVIDENCE"
  | .other => "OTHER"

inductive ThingRelationType where
  | relatedTo
  | dependsOn
  | partOf
  deriving DecidableEq, Repr

def ThingRelationType.value : ThingRelationType → String
  | .relatedTo => "RELATED_TO"
  | .dependsOn => "DEPENDS_ON"
  | .partOf => "PART_OF"

inductive AutomationType where
  | oneShot
  | once
  | recurring
  | relative
  | conditionWatch
  | condition
  deriving DecidableEq, Repr

inductive AutomationStatus where
  | active
  | paused
  | completed
  | cancelled
  deriving DecidableEq, Repr

def AutomationStatus.value : AutomationStatus → String
  | .active => "ACTIVE"
  | .paused => "PAUSED"
  | .completed => "COMPLETED"
  | .cancelled => "CANCELLED"

inductive MemoryType where
  | profile
  | semantic
  | episodic
  deriving DecidableEq, Repr

def MemoryType.value : MemoryType → String
  | .profile => "PROFILE"
  | .semantic => "SEMANTIC"
  | .episodic => "EPISODIC"

inductive MemoryStatus where
  | active
  | superseded
  | deleted
  deriving DecidableEq, Repr

/-! ## Entities -/

structure Task where
  userId : UUID
  title : String
  thingId : Option UUID := none
  id : UUID
  status : TaskStatus := .todo
  version : ℕ := 1
  completedAt : Option Timestamp := none
  dueAt : Option Timestamp := none
  recurrenceIntervalDays : Option ℤ := none
  createdAt : Timestamp
  updatedAt : Timestamp
  deriving DecidableEq

structure ThingContextEntry where
  thingId : UUID
  label : String
  content : String
  id : UUID
  sourceId : Option UUID := none
  version : ℕ := 1
  createdAt : Timestamp
  updatedAt : Timestamp
  deriving DecidableEq

structure Blocker where
  thingId : UUID
  description : String
  severity : BlockerSeverity
  id : UUID
  taskId : Option UUID := none
  status : BlockerStatus := .open
  blockedSince : Timestamp
  resolvedAt : Option Timestamp := none
  sourceId : Option UUID := none
  version : ℕ := 1
  createdAt : Timestamp
  updatedAt : Timestamp
  deriving DecidableEq

structure ThingSource where
  thingId : UUID
  sourceId : UUID
  relationType : SourceRelationType
  relevance : ℚ
  createdAt : Timestamp
  deriving DecidableEq

structure ThingRelation where
  fromThingId : UUID
  toThingId : UUID
  relationType : ThingRelationType
  note : Option String := none
  createdAt : Timestamp
  deriving DecidableEq

structure Automation where
  userId : UUID
  automationType : AutomationType
  title : String
  message : String
  timezoneName : String
  nextTriggerAt : Option Timestamp
  idempotencyKey : String
  id : UUID
  thingId : Option UUID := none
  taskId : Option UUID := none
  sourceId : Option UUID := none
  recurrenceIntervalSeconds : Option ℤ := none
  status : AutomationStatus := .active
  version : ℕ := 1
  createdAt : Timestamp
  updatedAt : Timestamp
  deriving DecidableEq

/-- A notification on its way, as far as it refers to a Thing. -/
structure NotificationIntent where
  id : UUID
  thingId : Option UUID := none
  deriving DecidableEq

structure Memory where
  userId : UUID
  memoryType : MemoryType
  content : String
  summary : String
  importance : ℚ
  confidence : ℚ
  idempotencyKey : String
  id : UUID
  thingId : Option UUID := none
  sourceIds : List UUID := []
  profileKey : Option String := none
  supersedesId : Option UUID := none
  status : MemoryStatus := .active
  version : ℕ := 1
  createdAt : Timestamp
  updatedAt : Timestamp
  deriving DecidableEq

/-! ## Unique constraints -/

instance : Row Task where
  conflict r r' := r.id = r'.id
  decConflict _ _ := inferInstanceAs (Decidable (_ = _))
  symm _ _ := Eq.symm

instance : Row ThingContextEntry where
  conflict r r' := r.id = r'.id
  decConflict _ _ := inferInstanceAs (Decidable (_ = _))
  symm _ _ := Eq.symm

instance : Row Blocker where
  conflict r r' := r.id = r'.id
  decConflict _ _ := inferInstanceAs (Decidable (_ = _))
  symm _ _ := Eq.symm

instance : Row ThingSource where
  conflict r r' := r.thingId = r'.thingId ∧ r.sourceId = r'.sourceId
  decConflict _ _ := inferInstanceAs (Decidable (_ ∧ _))
  symm _ _ := And.imp Eq.symm Eq.symm

instance : Row ThingRelation where
  conflict r r' := r.fromThingId = r'.fromThingId ∧ r.toThingId = r'.toThingId ∧
    r.relationType = r'.relationType
  decConflict _ _ := inferInstanceAs (Decidable (_ ∧ _ ∧ _))
  symm _ _ := And.imp Eq.symm (And.imp Eq.symm Eq.symm)

/-- `uq_automations_user_key`. -/
instance : Row Automation where
  conflict r r' := r.id = r'.id ∨ r.userId = r'.userId ∧ r.idempotencyKey = r'.idempotencyKey
  decConflict _ _ := inferInstanceAs (Decidable (_ ∨ _))
  symm _ _ := Or.imp Eq.symm (And.imp Eq.symm Eq.symm)

instance : Row NotificationIntent where
  conflict r r' := r.id = r'.id
  decConflict _ _ := inferInstanceAs (Decidable (_ = _))
  symm _ _ := Eq.symm

/-- A Memory that holds the present value of a profile key. -/
def Memory.holdsProfile (r : Memory) : Prop :=
  r.memoryType = .profile ∧ r.status = .active ∧ r.profileKey ≠ none

instance : DecidablePred Memory.holdsProfile := fun _ => inferInstanceAs (Decidable (_ ∧ _ ∧ _))

/-- `uq_memories_user_idempotency` and `uq_memories_active_profile_key`. -/
instance : Row Memory where
  conflict r r' := r.id = r'.id ∨ r.userId = r'.userId ∧ r.idempotencyKey = r'.idempotencyKey ∨
    r.userId = r'.userId ∧ r.profileKey = r'.profileKey ∧ r.holdsProfile ∧ r'.holdsProfile
  decConflict _ _ := inferInstanceAs (Decidable (_ ∨ _ ∨ _))
  symm _ _ := Or.imp Eq.symm (Or.imp (And.imp Eq.symm Eq.symm)
    fun ⟨huser, hkey, hr, hr'⟩ => ⟨huser.symm, hkey.symm, hr', hr⟩)

/-! ## The Personal State -/

/-- The Personal State of every user. -/
structure State extends Records where
  tasks : Table Task := .empty
  blockers : Table Blocker := .empty
  contextEntries : Table ThingContextEntry := .empty
  thingSources : Table ThingSource := .empty
  relations : Table ThingRelation := .empty
  automations : Table Automation := .empty
  notifications : Table NotificationIntent := .empty
  memories : Table Memory := .empty
  threads : Table Thread := .empty
  deriving DecidableEq

end PersonalState
