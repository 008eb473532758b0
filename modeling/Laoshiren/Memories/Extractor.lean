import Laoshiren.Foundation.Json
import Laoshiren.Foundation.Raise
import Laoshiren.Memories.Candidates

/-!
# The reply of the memory extractor

The model lists what it proposes to remember. Its reply is read item by item: an item that is no
candidate is left out.
-/

namespace Memories

open Raise
open PersonalState (MemoryType)

/-! ## Floats -/

/-- A `float`. -/
inductive FloatValue where
  | finite (q : ℚ)
  | infinity (negative : Bool)
  | nan
  deriving DecidableEq

/-- From here on an `int` is too large for `float`. -/
def floatOverflow : ℚ := 2 ^ 1024 - 2 ^ 970

inductive ExtractorError where
  | memoryExtractorError (message : String)
  | keyError (key : String)
  | valueError (message : String)
  | typeError
  | overflowError
  deriving DecidableEq

/-- What the code takes from the interpreter. -/
structure Interpreter where
  /-- `str(value)` of a value that is no text: `none` where it raises `ValueError`, as it does for an
  `int` of too many digits. -/
  repr : Json → Option String
  /-- `float(text)`: `none` where it raises `ValueError`. -/
  floatOfText : String → Option FloatValue

namespace Interpreter

variable (py : Interpreter)

def str? : Json → Option String
  | .str text => some text
  | value => py.repr value

/-- `str(value)`. -/
def str (value : Json) : Except ExtractorError String :=
  orRaise (.valueError "Exceeds the limit for integer string conversion.") (py.str? value)

/-- `float(value)`, before the rounding of an `int`. -/
def float : Json → Except ExtractorError FloatValue
  | .num q => if floatOverflow ≤ |q| then throw .overflowError else return .finite q
  | .bool b => return .finite (if b then 1 else 0)
  | .str text => orRaise (.valueError "could not convert string to float") (py.floatOfText text)
  | .null | .arr _ | .obj _ => throw .typeError

end Interpreter

/-! ## Candidates -/

inductive CandidateAction where
  | create
  | update
  | merge
  | supersede
  | ignore
  deriving DecidableEq

namespace CandidateAction

def value : CandidateAction → String
  | .create => "CREATE"
  | .update => "UPDATE"
  | .merge => "MERGE"
  | .supersede => "SUPERSEDE"
  | .ignore => "IGNORE"

/-- The action is one on an existing Memory. -/
def requiresTarget : CandidateAction → Bool
  | .update | .merge | .supersede => true
  | .create | .ignore => false

/-- `MemoryCandidateAction(text)`. -/
def ofText (text : String) : Option CandidateAction :=
  [CandidateAction.create, .update, .merge, .supersede, .ignore].find? fun action =>
    action.value = text

end CandidateAction

/-- `MemoryType(text)`. -/
def memoryTypeOfText (text : String) : Option MemoryType :=
  [MemoryType.profile, .semantic, .episodic].find? fun memoryType => memoryType.value = text

/-- A `MemoryCandidate`, with everything that the reply says of it. -/
structure ExtractedCandidate where
  memoryType : MemoryType
  content : String
  action : CandidateAction
  reason : String := ""
  importance : ℚ := 3 / 5
  confidence : ℚ := 7 / 10
  thingId : Option UUID := none
  sourceRefs : List UUID := []
  targetMemoryId : Option UUID := none
  content_ok : Text.strip content ≠ ""
  importance_ok : 0 ≤ importance ∧ importance ≤ 1
  confidence_ok : 0 ≤ confidence ∧ confidence ≤ 1
  target_ok : action.requiresTarget = true → targetMemoryId.isSome = true

/-- The candidate as the manager carries it out: it looks at the target where the action requires one,
and at no reason. -/
def ExtractedCandidate.candidate (c : ExtractedCandidate) : MemoryCandidate where
  memoryType := c.memoryType
  content := c.content
  action :=
    match haction : c.action with
    | .create => .create
    | .ignore => .ignore
    | .update => .update (c.targetMemoryId.get (c.target_ok (by rw [haction]; rfl)))
    | .merge => .merge (c.targetMemoryId.get (c.target_ok (by rw [haction]; rfl)))
    | .supersede => .supersede (c.targetMemoryId.get (c.target_ok (by rw [haction]; rfl)))
  importance := c.importance
  confidence := c.confidence
  thingId := c.thingId
  sourceRefs := c.sourceRefs
  content_ok := c.content_ok
  importance_ok := c.importance_ok
  confidence_ok := c.confidence_ok

/-- `0 <= value <= 1`: the number, if it is one between 0 and 1. -/
def FloatValue.inUnit : FloatValue → Option { q : ℚ // 0 ≤ q ∧ q ≤ 1 }
  | .finite q => if h : 0 ≤ q ∧ q ≤ 1 then some ⟨q, h⟩ else none
  | .infinity _ | .nan => none

/-- What the first `try` of `_parse_candidate` reads. -/
structure Scalars where
  memoryType : MemoryType
  action : CandidateAction
  content : String
  reason : String
  importance : FloatValue
  confidence : FloatValue

/-- `MemoryCandidate(...)` with its checks in their order. -/
def newCandidate (s : Scalars) (thingId targetMemoryId : Option UUID) :
    Except ExtractorError ExtractedCandidate :=
  if hcontent : Text.strip s.content = "" then
    throw (.valueError "Memory candidate content must not be empty.")
  else
    match s.importance.inUnit, s.confidence.inUnit with
    | some ⟨importance, importance_ok⟩, some ⟨confidence, confidence_ok⟩ =>
      if htarget : s.action.requiresTarget = true → targetMemoryId.isSome = true then
        return {
          memoryType := s.memoryType, content := s.content, action := s.action, reason := s.reason
          importance, confidence, thingId, targetMemoryId
          content_ok := hcontent, importance_ok, confidence_ok, target_ok := htarget }
      else
        throw (.valueError ("Memory action " ++ s.action.value ++ " requires a target memory id."))
    | _, _ => throw (.valueError "Memory importance and confidence must be between 0 and 1.")

/-! ## The parser -/

section Parser

variable (py : Interpreter)

/-- `str(item[key])`. -/
def fieldText (fields : Dict) (key : String) : Except ExtractorError String := do
  let value ← orRaise (.keyError key) (fields.get key)
  py.str value

def readScalars (fields : Dict) : Except ExtractorError Scalars := do
  let typeText ← fieldText py fields "memory_type"
  let memoryType ← orRaise (.valueError "not a valid MemoryType") (memoryTypeOfText typeText)
  let actionText ← fieldText py fields "action"
  let action ←
    orRaise (.valueError "not a valid MemoryCandidateAction") (CandidateAction.ofText actionText)
  let content ← fieldText py fields "content"
  let reason ← py.str ((fields.get "reason").getD (.str ""))
  let importance ← py.float ((fields.get "importance").getD (.num (3 / 5)))
  let confidence ← py.float ((fields.get "confidence").getD (.num (7 / 10)))
  return ⟨memoryType, action, Text.strip content, reason, importance, confidence⟩

/-- `UUID(str(value)) if value else None`. -/
def readId (value : Json) : Except ExtractorError (Option UUID) :=
  if value.truthy then do
    let text ← py.str value
    let id ← orRaise (.valueError "badly formed hexadecimal UUID string") (UUID.parse? text)
    return some id
  else return none

/-- `try: ... except ...: return None`. -/
def orNone {α : Type} (caught : ExtractorError → Bool) (body : Except ExtractorError (Option α)) :
    Except ExtractorError (Option α) :=
  match body with
  | .ok result => .ok result
  | .error error => if caught error then .ok none else .error error

/-- `ValueError` and `TypeError`. -/
def ExtractorError.isValueOrType : ExtractorError → Bool
  | .valueError _ | .typeError => true
  | .keyError _ | .overflowError | .memoryExtractorError _ => false

/-- `KeyError`, `ValueError` and `TypeError`. -/
def ExtractorError.isKeyValueOrType : ExtractorError → Bool
  | .keyError _ | .valueError _ | .typeError => true
  | .overflowError | .memoryExtractorError _ => false

/-- `_parse_candidate` after the first `try`. -/
def makeCandidate (fields : Dict) (s : Scalars) :
    Except ExtractorError (Option ExtractedCandidate) :=
  if s.content = "" ∨ s.importance.inUnit = none ∨ s.confidence.inUnit = none then return none
  else orNone ExtractorError.isValueOrType do
    let thingId ← readId py ((fields.get "thing_id").getD .null)
    let targetId ← readId py ((fields.get "target_memory_id").getD .null)
    let candidate ← newCandidate s thingId targetId
    return some candidate

def parseCandidate : Json → Except ExtractorError (Option ExtractedCandidate)
  | .obj fields => do
    let scalars ← orNone ExtractorError.isKeyValueOrType ((readScalars py fields).map some)
    match scalars with
    | none => return none
    | some s => makeCandidate py fields s
  | _ => return none

/-- The loop of `_parse_candidates`. -/
def parseItems : List Json → Except ExtractorError (List ExtractedCandidate)
  | [] => return []
  | item :: items => do
    let candidate ← parseCandidate py item
    let candidates ← parseItems items
    return candidate.toList ++ candidates

/-- The list of a reply, which some providers wrap. -/
def listOf (parsed : Json) : Option (List Json) :=
  match parsed with
  | .arr items => some items
  | .obj fields =>
    match Dict.get fields "memories" with
    | some (.arr items) => some items
    | _ => none
  | _ => none

def parseCandidates (parsed : Json) : Except ExtractorError (List ExtractedCandidate) := do
  let items ← orRaise (.memoryExtractorError "Memory extractor payload must be a list.")
    (listOf parsed)
  parseItems py items

/-! ## Valid items -/

/-- A value names an id, or none. -/
def NamesId (value : Json) (id : Option UUID) : Prop :=
  if value.truthy then ∃ text u, py.str? value = some text ∧ UUID.parse? text = some u ∧ id = some u
  else id = none

/-- A value is a number between 0 and 1, or the text of one. -/
def NamesNumber (value : Json) (q : ℚ) : Prop := py.float value = .ok (.finite q)

/-- An item is an object that says everything about a candidate. -/
structure Proposes (item : Json) (c : ExtractedCandidate) (fields : Dict) : Prop where
  isObject : item = .obj fields
  memoryType : (fields.get "memory_type").bind py.str? = some c.memoryType.value
  action : (fields.get "action").bind py.str? = some c.action.value
  content : ((fields.get "content").bind py.str?).map Text.strip = some c.content
  reason : py.str? ((fields.get "reason").getD (.str "")) = some c.reason
  importance : NamesNumber py ((fields.get "importance").getD (.num (3 / 5))) c.importance
  confidence : NamesNumber py ((fields.get "confidence").getD (.num (7 / 10))) c.confidence
  thingId : NamesId py ((fields.get "thing_id").getD .null) c.thingId
  targetMemoryId : NamesId py ((fields.get "target_memory_id").getD .null) c.targetMemoryId
  sourceRefs : c.sourceRefs = []

/-- The candidates are those of the valid items, in their order. -/
inductive ValidItems : List Json → List ExtractedCandidate → Prop
  | nil : ValidItems [] []
  | valid {item items c cs fields} (h : Proposes py item c fields) (rest : ValidItems items cs) :
    ValidItems (item :: items) (c :: cs)
  | malformed {item items cs} (h : ∀ c fields, ¬ Proposes py item c fields)
    (rest : ValidItems items cs) : ValidItems (item :: items) cs

/-- A reply without a list raises, and any other one is read item by item. -/
def ReadItemByItem (parsed : Json) : Prop :=
  match listOf parsed with
  | none => parseCandidates py parsed =
    .error (.memoryExtractorError "Memory extractor payload must be a list.")
  | some items => ∃ cs, parseCandidates py parsed = .ok cs ∧ ValidItems py items cs

/-- A number that is too large for `float`. -/
def Huge (value : Json) : Prop := ∃ q, value = .num q ∧ floatOverflow ≤ |q|

/-- An item whose type, action and texts can be read, and whose importance is a number too large for
`float`, or its confidence after an importance that can be read. -/
structure Overflows (item : Json) (fields : Dict) : Prop where
  isObject : item = .obj fields
  memoryType : ∃ memoryType : MemoryType,
    (fields.get "memory_type").bind py.str? = some memoryType.value
  action : ∃ action : CandidateAction, (fields.get "action").bind py.str? = some action.value
  content : ((fields.get "content").bind py.str?).isSome
  reason : (py.str? ((fields.get "reason").getD (.str ""))).isSome
  huge : Huge ((fields.get "importance").getD (.num (3 / 5))) ∨
    (∃ x, py.float ((fields.get "importance").getD (.num (3 / 5))) = .ok x) ∧
      Huge ((fields.get "confidence").getD (.num (7 / 10)))

end Parser

end Memories
