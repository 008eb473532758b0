import Laoshiren.Agent.Policy
import Laoshiren.Agent.StateTools
import Laoshiren.PersonalState.Snapshot
import Laoshiren.PersonalState.Writes

/-!
# The writes of `thing_date_set` and of `thing_change_state`

How the handlers read the arguments of a call. An argument that is missing or that cannot be read
raises before anything is written.
-/

namespace Agent

open Raise Runtime PersonalState

namespace Arguments

variable (py : Builtins) (cal : Calendar) (arguments : Dict)

/-- `UUID(text)`. -/
def uuid (text : String) : Raises UUID :=
  orRaise (.valueError "badly formed hexadecimal UUID string") (UUID.parse? text)

/-- `UUID(str(arguments[key]))`. -/
def uuidOf (key : String) : Raises UUID := do
  let text ← StateTools.text py arguments key
  uuid text

/-- `int(arguments[key])`. -/
def int (key : String) : Raises ℤ := do
  let value ← orRaise (.keyError key) (arguments.get key)
  orRaise (.valueError "invalid literal for int()") (py.int value)

/-- `datetime.fromisoformat(str(arguments[key]))`. -/
def datetime (key : String) : Raises DateTime := do
  let text ← StateTools.text py arguments key
  orRaise (.valueError "Invalid isoformat string") (cal.fromisoformat text)

/-- `str(arguments.get(key, default))`. -/
def textOr (key default : String) : String := ((arguments.get key).map py.str).getD default

/-- `bool(arguments.get(key, default))`. -/
def boolOr (key : String) (default : Bool) : Bool :=
  ((arguments.get key).map Json.truthy).getD default

/-- `arguments.get(key)` where it counts as true. -/
def given (key : String) : Option Json := (arguments.get key).filter Json.truthy

/-- `DateCertainty(str(arguments["certainty"]))`. -/
def certainty : Raises DateCertainty := do
  let text ← StateTools.text py arguments "certainty"
  orRaise (.valueError "not a valid DateCertainty") (DateCertainty.ofText text)

/-- `DatePrecision(str(arguments.get("precision", "DATE_TIME")))`. -/
def precision : Raises DatePrecision :=
  orRaise (.valueError "not a valid DatePrecision")
    (DatePrecision.ofText (textOr py arguments "precision" "DATE_TIME"))

/-- `ThingDateType(str(arguments.get("kind", "DEADLINE")))`. -/
def kind : Raises ThingDateType :=
  orRaise (.valueError "not a valid ThingDateType")
    (ThingDateType.ofText (textOr py arguments "kind" "DEADLINE"))

/-- The `source_id` of a new date: one that counts as false is left out. -/
def sourceId : Raises (Option UUID) :=
  match given arguments "source_id" with
  | none => return none
  | some raw => do
    let id ← uuid (py.str raw)
    return some id

end Arguments

open Arguments

variable (py : Builtins) (cal : Calendar)

/-- The arguments of `apply_set_deadline` in a call. -/
def setDeadlineOf (context : ToolExecutionContext) (arguments : Dict) : Raises SetDeadline := do
  let sourceId ← sourceId py arguments
  let thingId ← uuidOf py arguments "thing_id"
  let kind ← kind py arguments
  let value ← datetime py cal arguments "value"
  let timezoneName ← StateTools.text py arguments "timezone"
  let precision ← precision py arguments
  let certainty ← certainty py arguments
  let expectedVersion ← int py arguments "expected_version"
  return {
    userId := context.userId
    thingId
    kind
    label := (given arguments "label").map py.str
    value
    timezoneName
    precision
    certainty
    isPrimary := boolOr arguments "is_primary" true
    expectedVersion
    actionId := context.actionId
    idempotencyKey := context.idempotencyKey
    reason := textOr py arguments "reason" "Agent set deadline"
    runId := some context.runId
    sourceId }

/-- The arguments of `apply_update_date` in a call. -/
def updateDateOf (context : ToolExecutionContext) (arguments : Dict) : Raises UpdateDate := do
  let dateId ← uuidOf py arguments "date_id"
  let value ← datetime py cal arguments "value"
  let timezoneName ← StateTools.text py arguments "timezone"
  let precision ← precision py arguments
  let certainty ← certainty py arguments
  let expectedVersion ← int py arguments "expected_version"
  let expectedThingVersion ← int py arguments "expected_thing_version"
  return {
    userId := context.userId
    dateId
    value
    timezoneName
    precision
    certainty
    isPrimary := boolOr arguments "is_primary" false
    expectedVersion
    expectedThingVersion
    actionId := context.actionId
    idempotencyKey := context.idempotencyKey
    reason := textOr py arguments "reason" "Agent updated date" }

/-- `Agent … Thing`. -/
def changeReason : ThingStatus → String
  | .completed => "Agent complete Thing"
  | .cancelled => "Agent cancel Thing"
  | .active => "Agent reactivate Thing"

/-- The arguments of `update_thing` in a call that changes the status of a Thing. -/
def updateThingOf (status : ThingStatus) (context : ToolExecutionContext) (arguments : Dict) :
    Raises UpdateThing := do
  let thingId ← uuidOf py arguments "thing_id"
  let expectedVersion ← int py arguments "expected_version"
  return {
    userId := context.userId
    thingId
    expectedVersion
    status := some status
    actionId := context.actionId
    idempotencyKey := context.idempotencyKey
    reason := textOr py arguments "reason" (changeReason status)
    runId := some context.runId }

/-- What `thing_change_state` reports of a Thing that `update_thing` wrote. -/
def thingOutcome (thing : Thing) : WriteOutcome where
  code := "THING_UPDATED"
  message := ""
  data := Dict.ofFields [("id", .str thing.id.str), ("version", .num thing.version)]
  mutationRefs := []

/-- The write operations on Things and dates. -/
def dateWrite (op : WriteOp) (context : ToolExecutionContext) (arguments : Dict) (fresh : ℕ → Stamp)
    (db : Records) : Option (Raises (Records × WriteOutcome)) :=
  match op with
  | .setDeadline => some do
    let c ← setDeadlineOf py cal context arguments
    applySetDeadline cal c fresh db
  | .updateDate => some do
    let c ← updateDateOf py cal context arguments
    applyUpdateDate cal c fresh db
  | .updateThing status => some do
    let c ← updateThingOf py status context arguments
    let (db, thing) ← updateThing c fresh db
    return (db, thingOutcome thing)
  | _ => none

/-- The services over the tables of Things and dates: `others` are the operations on other tables. -/
def recordOps (others : WriteOps Records) (cal : Calendar) : WriteOps Records where
  py := others.py
  write op context arguments fresh view db :=
    (dateWrite others.py cal op context arguments fresh db).getD
      (others.write op context arguments fresh view db)
  rejectsStateAuthority := others.rejectsStateAuthority

/-! ## A Thing to start examples from -/

/-- The first of May and the first of June. -/
def springCalendar : Calendar where
  fromisoformat text :=
    if text = "2026-05-01T00:00:00+00:00" then some ⟨1777593600000000, some 0⟩
    else if text = "2026-06-01T00:00:00+00:00" then some ⟨1780272000000000, some 0⟩
    else none
  isoformat _ := ""

/-- Thing 5 of user 1, due on the first of May. -/
def moveThing : Thing where
  userId := 1
  name := "Move"
  id := 5
  deadlineAt := some 1777593600000000
  createdAt := 0
  updatedAt := 0

/-- Thing 5 of user 1, and Source 7. -/
def moveRecords : Records where
  things := ⟨[moveThing], List.pairwise_singleton _ _⟩
  sources := ⟨[⟨1, 7, none⟩], List.pairwise_singleton _ _⟩

/-- Services that write nothing. -/
def noOps : WriteOps Records where
  py := ⟨fun _ => none, fun _ => ""⟩
  write _ _ _ _ _ _ := .error (.runtimeError "")

/-- The services over Things and dates alone. -/
def moveOps : WriteOps Records := recordOps noOps springCalendar

/-- A call in the Run 10 of user 1, whose action `a` worker `w` has claimed with the token 30. -/
def moveCall (name : String) (arguments : Dict) : ToolCall where
  name
  context := ⟨1, 10, "a", some "w", some 30⟩
  arguments := Dict.ofFields
    (("thing_id", .str "00000000-0000-0000-0000-000000000005") :: ("expected_version", .num 1) ::
      arguments)
  fresh := stampsFrom 50 0
  now := 0

/-- The Run of `moveCall` with the claim of its action, and the call. -/
def moveTransactions (call : ToolCall) : List (Transaction Records) :=
  (claimedRun.map .runtime) ++
    [.runtime (.claimToolExecution
      ⟨1, 10, "a", call.name, "hash", "w", 60, 20, true, none⟩ (stampsFrom 30 0)), .tool call]

/-- Move the primary deadline to the first of June. -/
def moveDeadline (source : String × Json) : ToolCall :=
  moveCall "thing_date_set"
    [("operation", .str "CREATE"), ("certainty", .str "CONFIRMED"), ("timezone", .str "UTC"),
      ("value", .str "2026-06-01T00:00:00+00:00"), source]

/-- The same, with the Source 7. -/
def moveWithSource : ToolCall :=
  moveDeadline ("source_id", .str "00000000-0000-0000-0000-000000000007")

/-- The same, with a reference that nobody has looked at. -/
def moveWithReference : ToolCall := moveDeadline ("source_refs", .arr [.str "somewhere"])

end Agent

/-!
## The policy of `thing_date_set` and its execution

What the policy lets through without a confirmation of the user, and what such a call can do to the
deadline of the prefetched Thing and to the dates.
-/

namespace Agent

open Runtime PersonalState StateTools

/-- The policy says `ALLOW` to a call of `thing_date_set`. -/
def Allowed (policy : ToolPolicy) (py : Builtins) (s : GraphState) (arguments : Dict) : Prop :=
  ∃ result, policy.evaluate py thingDateSet (some s) arguments = some result ∧
    result.decision = .allow

/-- The arguments call the date confirmed, and name a source or evidence that the policy accepts. -/
def Backed (py : Builtins) (s : GraphState) (arguments : Dict) : Prop :=
  DateCertainty.ofText (py.str ((arguments.get "certainty").getD .null)) = some .confirmed ∧
    (hasSourceProvenance arguments = true ∨ hasVerifiedSearchEvidence (some s) arguments = true)

/-- The guard against overwriting: the policy finds that the Thing of the call was prefetched with a
deadline. -/
def Guarded (py : Builtins) (s : GraphState) (arguments : Dict) : Prop :=
  let thingId := py.str ((arguments.get "thing_id").getD (.str ""))
  parseBool (arguments.get "is_primary") true = true ∧ thingId ≠ "" ∧
    prefetchedThingHasDeadline py s thingId = true

/-- `str(arguments["operation"])`. -/
def operation (py : Builtins) (call : ToolCall) : Option String :=
  (call.arguments.get "operation").map py.str

/-! ## Deadlines -/

/-- The call passes every check and gives the Thing another deadline than it has, or none. -/
inductive Overwrites (py : Builtins) (cal : Calendar) (call : ToolCall) (db : Records)
    (thing : Thing) : Prop
  | create {c : SetDeadline} {value old : Timestamp} (hoperation : operation py call = some "CREATE")
      (hc : setDeadlineOf py cal call.context call.arguments = .ok c)
      (haccepted : c.Accepted call.fresh db thing value) (hold : thing.deadlineAt = some old)
      (hprimary : c.isPrimary = true) (hnew : value ≠ old) : Overwrites py cal call db thing
  | correct {c : UpdateDate} {date : ThingDate} {value old : Timestamp}
      (hoperation : operation py call = some "CORRECT")
      (hc : updateDateOf py cal call.context call.arguments = .ok c)
      (haccepted : c.Accepted call.fresh db thing date value) (hold : thing.deadlineAt = some old)
      (hnew : c.isPrimary = true ∧ value ≠ old ∨ c.isPrimary = false ∧ date.isPrimary = true) :
      Overwrites py cal call db thing

/-! ## Provenance -/

/-- The Source of a date is an existing Source of the user. -/
def Sourced (db : Records) (userId : UUID) (date : ThingDate) : Prop :=
  ∃ id, date.sourceId = some id ∧ (SourceRepository.get userId id db.sources).isSome

/-- One of the evidence URLs of the arguments occurs in a successful answer of `search_web` or
`url_inspect`. -/
def Evidenced (s : GraphState) (arguments : Dict) : Prop :=
  ∃ url ∈ evidenceUrls arguments, ∃ result ∈ s.toolResults,
    result.get "status" = some (.str "SUCCESS") ∧
      (result.get "tool_name" = some (.str "search_web") ∨
        result.get "tool_name" = some (.str "url_inspect")) ∧
      url ∈ extractUrlsFromSearchPayload (((result.get "data").bind Json.asDict?).getD [])

/-- An earlier mutation answers the call: `field` is the version that it has to report. -/
structure Replays (db : Records) (userId : UUID) (idempotencyKey field : String)
    (previous : StateMutation) : Prop where
  found : AuditRepository.getMutation userId idempotencyKey db.mutations = some previous
  version : ∃ version, previous.after.get field = some version ∧ isInt version = true

/-- A primary date that is confirmed, and has no existing Source. -/
structure Guess (db : Records) (userId : UUID) (date : ThingDate) : Prop where
  mem : date ∈ db.dates
  primary : date.isPrimary = true
  confirmed : date.certainty = .confirmed
  unsourced : ¬ Sourced db userId date

/-- The call passes every check and leaves a primary date without an existing Source: a new date
without a `source_id`, a stored date that has none, or the date of an earlier write. -/
inductive LeavesGuess (py : Builtins) (cal : Calendar) (call : ToolCall) (db : Records) : Prop
  | create {c : SetDeadline} {thing : Thing} {value : Timestamp}
      (hoperation : operation py call = some "CREATE")
      (hc : setDeadlineOf py cal call.context call.arguments = .ok c)
      (haccepted : c.Accepted call.fresh db thing value) (hprimary : c.isPrimary = true)
      (hsource : c.sourceId = none) : LeavesGuess py cal call db
  | correct {c : UpdateDate} {thing : Thing} {date : ThingDate} {value : Timestamp}
      (hoperation : operation py call = some "CORRECT")
      (hc : updateDateOf py cal call.context call.arguments = .ok c)
      (haccepted : c.Accepted call.fresh db thing date value) (hprimary : c.isPrimary = true)
      (hsource : ¬ Sourced db call.context.userId date) : LeavesGuess py cal call db
  | replayCreate {c : SetDeadline} {value : Timestamp} {previous : StateMutation} {date : ThingDate}
      (hoperation : operation py call = some "CREATE")
      (hc : setDeadlineOf py cal call.context call.arguments = .ok c) (hvalid : c.Valid value)
      (hreplays : Replays db c.userId c.idempotencyKey "thing_version" previous)
      (hguess : Guess db call.context.userId date) (hid : date.id = previous.targetId) :
      LeavesGuess py cal call db
  | replayCorrect {c : UpdateDate} {previous : StateMutation} {date : ThingDate}
      (hoperation : operation py call = some "CORRECT")
      (hc : updateDateOf py cal call.context call.arguments = .ok c)
      (hreplays : Replays db c.userId c.idempotencyKey "date_version" previous)
      (hguess : Guess db call.context.userId date) (hid : date.id = previous.targetId) :
      LeavesGuess py cal call db

end Agent
