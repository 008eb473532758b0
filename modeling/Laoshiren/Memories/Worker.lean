import Laoshiren.Foundation.Json
import Laoshiren.Memories.Formation
import Laoshiren.Memories.System
import Laoshiren.Runtime.JobQueue

/-!
# The worker of memory formation

A worker that has claimed a job forms the Memories of its Run, and settles the job. The formation asks
the extractor first, and carries out one candidate after the other, each in transactions of its own:
other clients commit between them, and any of them may fail.
-/

namespace Memories

open Runtime Raise
open PersonalState (Memory)

/-! ## The event of a job -/

def idField (py : Builtins) (payload : Dict) (name : String) : Raises UUID := do
  let value ← orRaise (.keyError name) (payload.get name)
  orRaise (.valueError "badly formed hexadecimal UUID string") (UUID.parse? (py.str value))

/-- `event_from_job_payload`. -/
def eventFromJobPayload (py : Builtins) (userId : UUID) (payload : Dict) :
    Raises MemoryFormationEvent := do
  let toolResultCodes := match payload.get "tool_result_codes" with
    | some (.arr codes) => codes.map py.str
    | _ => []
  let runId ← idField py payload "run_id"
  let threadId ← idField py payload "thread_id"
  let sourceMessageId ← idField py payload "source_message_id"
  let userText ← orRaise (.keyError "user_text") (payload.get "user_text")
  return { userId, runId, threadId, sourceMessageId, userText := py.str userText, toolResultCodes }

/-- `_TOOL_CODE_SUMMARIES`. -/
def toolCodeSummaries : List (String × String) :=
  [("THING_CREATED", "创建了事务"), ("THING_UPDATED", "更新了事务"), ("THING_ARCHIVED", "归档了事务"),
    ("TASK_CREATED", "创建了任务"), ("TASK_COMPLETED", "完成了任务"),
    ("TASK_STATUS_CHANGED", "变更了任务状态"), ("DEADLINE_SET", "设置了截止日期"),
    ("DATE_UPDATED", "更新了日期"), ("BLOCKER_ADDED", "添加了阻碍"), ("BLOCKER_RESOLVED", "解决了阻碍"),
    ("AUTOMATION_CREATED", "创建了自动化"), ("AUTOMATION_CHANGED", "变更了自动化")]

/-- `tool_code_summary`. -/
def toolCodeSummary (code : String) : String := (toolCodeSummaries.lookup code).getD code

/-! ## The formation -/

/-- What `form_from_event` gives to the extractor. -/
structure FormationInput where
  event : MemoryFormationEvent
  recentMessages : List String
  stateMutationSummaries : List String
  existingMemories : List Memory

/-- What surrounds a delivery: what it reads before the extractor is asked, what the extractor and the
embedding answer, what other clients commit before each of its transactions and what that transaction
reads, and the transactions in which the database fails. -/
structure Surroundings where
  store : ℕ → Store
  search : Raises (List Memory)
  extract : FormationInput → Raises (List MemoryCandidate)
  embed : MemoryCandidate → Raises Unit
  others : ℕ → State → State
  view : ℕ → ℕ → State
  fault : ℕ → Option RuntimeError
  fresh : ℕ → Stamp

/-- The Memories, and how many transactions the formation began. -/
structure Pass where
  state : State
  begun : ℕ := 0

/-- Code that goes on from what it has committed, and may raise. -/
abbrev Forming := ExceptT RuntimeError (StateM Pass)

namespace Surroundings

variable (env : Surroundings)

/-- One transaction: it is rolled back where it raises. -/
def transaction {α : Type} (body : (ℕ → State) → State → Raises (State × α)) : Forming α := fun p =>
  let s := env.others p.begun p.state
  match env.fault p.begun with
  | some error => (.error error, ⟨s, p.begun + 1⟩)
  | none =>
    match body (env.view p.begun) s with
    | .error error => (.error error, ⟨s, p.begun + 1⟩)
    | .ok (s', a) => (.ok a, ⟨s', p.begun + 1⟩)

/-- `memories.get` of the service. -/
def target (userId memoryId : UUID) : Forming Memory :=
  env.transaction fun view s => do
    let memory ← orRaise (.entityNotFound "Memory was not found.")
      (MemoryRepository.get userId memoryId (view 0).memories)
    return (s, memory)

/-- A transaction that writes. -/
def transact (texts : Texts) (op : Stamp → Op) : Forming Reply := fun p =>
  env.transaction (fun view s =>
    match commit texts (op (env.fresh p.begun)) view s with
    | (_, .raised error) => .error error
    | (s', reply) => .ok (s', reply)) p

end Surroundings

variable (texts : Texts) (py : Builtins) (confidenceThreshold : ℚ) (env : Surroundings)

/-- `_apply`. -/
def MemoryCandidate.carryOut (candidate : MemoryCandidate) (context : FormationContext) :
    Forming Reply := do
  match env.embed candidate with
  | .error error => throw error
  | .ok () =>
    match candidate.action with
    | .create | .ignore =>
      env.transact texts (.createIfAllowed (candidate.creation texts context))
    | .update targetId | .merge targetId =>
      let target ← env.target context.userId targetId
      env.transact texts fun stamp =>
        .update .formation (candidate.revision texts context target) stamp.now
    | .supersede targetId =>
      let target ← env.target context.userId targetId
      let _ ← env.transact texts fun stamp =>
        .update .formation (candidate.retirement texts context target) stamp.now
      env.transact texts (.createIfAllowed (candidate.creation texts context))

/-- A candidate that was accepted, and what became of it. -/
abbrev Attempt := MemoryCandidate × Raises Reply

/-- The loop of `form`: the first candidate that raises ends it. -/
def form (context : FormationContext) : List MemoryCandidate → Pass → List Attempt × Pass
  | [], p => ([], p)
  | candidate :: candidates, p =>
    if candidate.considered texts confidenceThreshold then
      match (candidate.carryOut texts env context).run.run p with
      | (.error error, p) => ([(candidate, .error error)], p)
      | (.ok reply, p) =>
        let (attempts, p) := form context candidates p
        ((candidate, .ok reply) :: attempts, p)
    else form context candidates p

/-- What `_process` did: the candidates of the extractor, if it got to them, and the attempts. -/
structure Processing where
  candidates : Raises (List MemoryCandidate)
  attempts : List Attempt
  pass : Pass

/-- What `_process` reads, and what the extractor answers to it. -/
def Surroundings.candidates (event : MemoryFormationEvent) : Raises (List MemoryCandidate) := do
  let messages ← listMessages event.userId event.threadId 10 env.store
  let existingMemories ← env.search
  env.extract
    { event
      recentMessages := messages.map Message.content
      stateMutationSummaries := event.toolResultCodes.map toolCodeSummary
      existingMemories }

/-- `_process`. -/
def process (event : MemoryFormationEvent) (s : State) : Processing :=
  match env.candidates event with
  | .error error => ⟨.error error, [], { state := s }⟩
  | .ok candidates =>
    let (attempts, pass) :=
      form texts confidenceThreshold env ⟨event.userId, event.runId⟩ candidates { state := s }
    ⟨.ok candidates, attempts, pass⟩

/-- `_process` raised. -/
def Processing.raised (x : Processing) : Bool :=
  !x.candidates.isOk || x.attempts.any fun attempt => !attempt.2.isOk

/-- What a delivery did, and the jobs that it leaves. -/
structure Delivered where
  processing : Option Processing
  durableJobs : Table DurableJob

/-- `run_once` from the job on that it claimed; `t` are the jobs when it gets to settle its own, unless it
dies before. An exception of `_process` is logged. -/
def deliver (job : DurableJob) (owner : String) (dies : Bool) (now : Timestamp) (t : Table DurableJob)
    (s : State) : Delivered :=
  match eventFromJobPayload py job.userId job.payload with
  | .error _ => ⟨none, t⟩
  | .ok event =>
    let processing := process texts confidenceThreshold env event s
    if dies then ⟨some processing, t⟩
    else
      let (durableJobs, settled) :=
        DurableJobRepository.settle job.id owner job.claimEpoch .completed now none t
      if settled then ⟨some processing, durableJobs⟩ else ⟨some processing, t⟩

/-! ## What a delivery owes -/

/-- Every candidate that was accepted was applied, replayed or rejected by a rule. -/
def Processing.Formed (x : Processing) : Prop :=
  ∃ candidates, x.candidates = .ok candidates ∧
    x.attempts.map Prod.fst =
      candidates.filter (fun candidate => candidate.considered texts confidenceThreshold) ∧
    ∀ attempt ∈ x.attempts, ∃ reply, attempt.2 = .ok reply

/-- The delivery completes its job only if it formed what was accepted, and leaves the job as it is if it
failed. -/
structure Honest (job : DurableJob) (t : Table DurableJob) (d : Delivered) : Prop where
  completed : ∀ j ∈ t, j.id = job.id → j.status ≠ .completed →
    ∀ j' ∈ d.durableJobs, j'.id = job.id → j'.status = .completed →
      ∃ x ∈ d.processing, x.Formed texts confidenceThreshold
  failed : (∀ x ∈ d.processing, x.raised = true) → d.durableJobs = t

end Memories
