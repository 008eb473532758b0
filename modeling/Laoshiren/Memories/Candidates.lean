import Mathlib.Data.List.Infix
import Laoshiren.PersonalState.Attachments

/-!
# Memory candidates

What the extractor proposes to remember, how the content of a Memory is compared, and the facts of the
Personal State that no Memory may repeat.
-/

namespace Memories

open Runtime Raise
open PersonalState (Memory MemoryType Thing Task ThingStatus TaskStatus)

/-- What the code takes from the interpreter. -/
structure Texts where
  /-- `text.casefold()`. -/
  casefold : String → String
  /-- `sha256(text.encode()).hexdigest()`. -/
  sha256 : String → String
  /-- `moment.date().isoformat()`. -/
  isoDate : Timestamp → String
  casefold_ne_empty : ∀ text, text ≠ "" → casefold text ≠ ""

namespace Texts

variable (texts : Texts)

/-! ## Fingerprints -/

/-- `" ".join(text.split())`. -/
def joined (text : String) : String :=
  " ".intercalate (((text.toList.splitOnP Text.isSpace).filter (· ≠ [])).map String.ofList)

/-- `canonicalize_memory_content`. -/
def canonicalize (content : String) : String := joined (texts.casefold (Text.strip content))

/-- `memory_content_fingerprint`. -/
def fingerprint (content : String) : String := texts.sha256 (texts.canonicalize content)

/-- `part in text`. -/
def within (part text : String) : Bool := part.toList <:+: text.toList

/-! ## Candidates -/

/-- `profile_key_for`. -/
def profileKeyFor (content : String) : String :=
  let value := texts.casefold content
  if ["回答", "回复", "简洁", "详细", "语气"].any (within · value) then "preference:response_style"
  else if within "提醒" value then "preference:reminder"
  else if ["中文", "英文", "语言"].any (within · value) then "preference:language"
  else "preference:general"

/-- `rejects_state_authority`. -/
def rejectsStateAuthority (text : String) : Bool :=
  let normalized := joined (Text.strip text)
  normalized = "" ||
    ["截止日期", "deadline", "任务状态", "thing 状态"].any (within · (texts.casefold normalized))

end Texts

/-- `MemoryCandidateAction`, with the target where the action requires one. -/
inductive MemoryCandidateAction where
  | create
  | update (targetMemoryId : UUID)
  | merge (targetMemoryId : UUID)
  | supersede (targetMemoryId : UUID)
  | ignore
  deriving DecidableEq

/-- A proposal of the extractor, as its constructor accepts it. -/
structure MemoryCandidate where
  memoryType : MemoryType
  content : String
  action : MemoryCandidateAction
  importance : ℚ := 3 / 5
  confidence : ℚ := 7 / 10
  thingId : Option UUID := none
  sourceRefs : List UUID := []
  content_ok : Text.strip content ≠ ""
  importance_ok : 0 ≤ importance ∧ importance ≤ 1
  confidence_ok : 0 ≤ confidence ∧ confidence ≤ 1

/-! ## Facts of the Personal State -/

/-- `list_active`. -/
def listActive (userId : UUID) (limit : ℕ) (t : Table Thing) : List Thing :=
  ((t.select fun r => r.userId = userId ∧ r.archivedAt = none ∧ r.mergedIntoThingId = none ∧
    r.status = .active).insertionSort fun r r' =>
      toLex (r'.updatedAt, r'.id.toNat) ≤ toLex (r.updatedAt, r.id.toNat)).take limit

/-- The Tasks of a Thing, or those of none, in the order of their creation. -/
def listTasks (userId : UUID) (thingId : Option UUID) (t : Table Task) : List Task :=
  (t.select fun r => r.thingId = thingId ∧ r.userId = userId).insertionSort fun r r' =>
    toLex (r.createdAt, r.id.toNat) ≤ toLex (r'.createdAt, r'.id.toNat)

/-- A Task that is still to be done. -/
def toDo (task : Task) : Bool := task.status ≠ .done ∧ task.status ≠ .cancelled

namespace Texts

variable (texts : Texts)

/-- What `load_state_fact_snapshot` writes down of a Thing. -/
def thingFacts (thing : Thing) (tasks : List Task) : List String :=
  [texts.canonicalize thing.name] ++
    ((thing.currentStage.filter fun stage => stage ≠ "").map fun stage =>
      texts.canonicalize (thing.name ++ " " ++ stage)).toList ++
    (thing.deadlineAt.map fun deadline =>
      texts.canonicalize (thing.name ++ " deadline " ++ texts.isoDate deadline)).toList ++
    (tasks.filter toDo).flatMap fun task =>
      [texts.canonicalize task.title,
        texts.canonicalize (thing.name ++ " " ++ task.title ++ " " ++ task.status.value)]

/-- `load_state_fact_snapshot`: its `n`-th query reads `view n`. -/
def loadStateFactSnapshot (userId : UUID) (view : ℕ → PersonalState.State) : List String :=
  let things := listActive userId 20 (view 0).things
  let ofThings := things.zipIdx.flatMap fun (thing, i) =>
    texts.thingFacts thing (listTasks userId (some thing.id) (view (i + 2)).tasks)
  let standalone := (listTasks userId none (view 1).tasks).filter toDo
  ((ofThings ++ standalone.map fun task => texts.canonicalize task.title).filter (· ≠ "")).eraseDups

/-- `duplicates_current_state`. -/
def duplicatesCurrentState (content : String) (facts : List String) : Bool :=
  let normalized := texts.canonicalize content
  normalized = "" || facts.any fun fact =>
    4 ≤ fact.length && (within fact normalized || within normalized fact)

end Texts

end Memories
