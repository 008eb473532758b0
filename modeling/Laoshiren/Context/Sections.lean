import Laoshiren.Foundation.Json
import Laoshiren.Foundation.JsonDumps
import Laoshiren.PersonalState.Entities

/-!
# The structured sections of a context

The overview of the Personal State, the active Thing and the candidates for attention go into the
context of a model as JSON, each trimmed to a number of characters. A section that is an object keeps
its fields in the order in which the code inserts them.
-/

namespace Context

open PersonalState

/-- What the code takes from the interpreter. -/
structure Interpreter where
  builtins : Builtins
  /-- A number as `json.dumps` prints it. -/
  num : ℚ → List Char
  /-- `moment.isoformat()`. -/
  isoformat : Timestamp → String

variable (py : Interpreter)

/-- `len(json.dumps(fields, ensure_ascii=False, default=str))`. -/
def Interpreter.cost (fields : List (String × Json)) : ℕ := Json.size py.num (.obj fields)

/-! ## The overview -/

structure UpcomingThing where
  name : String
  deadlineAt : Timestamp
  openTaskCount : ℕ

structure BlockedThing where
  thingName : String
  description : String
  severity : BlockerSeverity

structure ActiveThing where
  name : String
  currentStage : Option String
  openTaskCount : ℕ

structure RecentThing where
  name : String
  status : ThingStatus
  updatedAt : Timestamp

structure StateOverview where
  upcoming : List UpcomingThing := []
  blocked : List BlockedThing := []
  active : List ActiveThing := []
  recent : List RecentThing := []

/-- A section and its items. -/
abbrev Section := String × List Json

def overviewToPromptData (overview : StateOverview) : List Section :=
  [("upcoming", overview.upcoming.map fun item => .obj
      [("name", .str item.name), ("deadline", .str (py.isoformat item.deadlineAt)),
        ("open_tasks", .num item.openTaskCount)]),
    ("blocked", overview.blocked.map fun item => .obj
      [("thing", .str item.thingName), ("description", .str item.description),
        ("severity", .str item.severity.value)]),
    ("active", overview.active.map fun item => .obj
      [("name", .str item.name), ("stage", Json.ofStr? item.currentStage),
        ("open_tasks", .num item.openTaskCount)]),
    ("recent", overview.recent.map fun item => .obj
      [("name", .str item.name), ("status", .str item.status.value),
        ("updated_at", .str (py.isoformat item.updatedAt))])]

/-- The sections as the fields of an object. -/
def fieldsOf (sections : List Section) : List (String × Json) :=
  sections.map fun s => (s.1, .arr s.2)

/-- The inner loop of `_trim_overview`: `kept` are the items of the section so far, and the answer says
whether it went through the section. -/
def trimSection (budget : ℕ) (result : List Section) (name : String) (kept : List Json) :
    List Json → Bool × List Section
  | [] => (true, result ++ [(name, kept)])
  | item :: items =>
    if py.cost (fieldsOf (result ++ [(name, kept ++ [item])])) > budget then
      (false, result ++ [(name, kept)])
    else trimSection budget result name (kept ++ [item]) items

/-- The outer loop of `_trim_overview`. -/
def trimSections (budget : ℕ) (result : List Section) : List Section → List Section
  | [] => result
  | (name, items) :: sections =>
    match trimSection py budget result name [] items with
    | (true, result') => trimSections budget result' sections
    | (false, result') => result'

/-- `_trim_overview`. -/
def trimOverview (data : List Section) (budget : ℕ) : List Section :=
  if data = [] then []
  else if py.cost (fieldsOf data) ≤ budget then data
  else trimSections py budget [] data

/-! ## The active Thing -/

/-- A dictionary, in the order in which its keys were inserted. -/
structure Payload where
  fields : List (String × Json)
  keys : (fields.map Prod.fst).Nodup := by decide

/-- `reduced[key] = value` of a key that is there. -/
def assign (fields : List (String × Json)) (key : String) (value : Json) : List (String × Json) :=
  fields.map fun field => if field.1 = key then (key, value) else field

/-- The first loop of `_trim_json_dict`: the answer says whether it stopped at fields that fit. -/
def halveLists (budget : ℕ) :
    List String → List (String × Json) → Bool × List (String × Json)
  | [], reduced => (false, reduced)
  | key :: keys, reduced =>
    match Dict.get reduced key with
    | some (.arr (item :: items)) =>
      let half := (item :: items).take (max 1 ((item :: items).length / 2))
      let reduced := assign reduced key (.arr half)
      if py.cost reduced ≤ budget then (true, reduced) else halveLists budget keys reduced
    | _ => halveLists budget keys reduced

/-- `_trim_json_dict`. -/
def trimJsonDict (data : List (String × Json)) (budget : ℕ) : List (String × Json) :=
  if data = [] then []
  else if py.cost data ≤ budget then data
  else
    match halveLists py budget ["blockers", "primary_dates", "open_tasks", "candidates"] data with
    | (true, reduced) => reduced
    | (false, reduced) => reduced.filter fun field => field.1 ∉ ["blockers", "primary_dates"]

/-! ## The candidates for attention -/

structure AttentionCandidate where
  subjectType : String
  subjectId : UUID
  thingId : UUID
  candidateType : String
  severity : String
  summary : String
  dueAt : Option Timestamp
  nextEligibleAt : Option Timestamp
  acknowledged : Bool

def attentionToPromptData (candidate : AttentionCandidate) : List (String × Json) :=
  [("subject_type", .str candidate.subjectType), ("subject_id", .str candidate.subjectId.str),
    ("thing_id", .str candidate.thingId.str), ("candidate_type", .str candidate.candidateType),
    ("severity", .str candidate.severity), ("summary", .str candidate.summary),
    ("due_at", Json.ofStr? (candidate.dueAt.map py.isoformat)),
    ("next_eligible_at", Json.ofStr? (candidate.nextEligibleAt.map py.isoformat)),
    ("acknowledged", .bool candidate.acknowledged)]

/-- `_trim_attention`, with `used` of the budget spent. -/
def trimAttention (budget used : ℕ) : List AttentionCandidate → List (List (String × Json))
  | [] => []
  | item :: items =>
    let payload := attentionToPromptData py item
    let cost := py.cost payload
    if used + cost > budget then [] else payload :: trimAttention budget (used + cost) items

end Context
