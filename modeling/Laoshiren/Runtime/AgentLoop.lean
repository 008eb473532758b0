import Mathlib.Logic.Function.Basic
import Laoshiren.Runtime.Effects
import Laoshiren.Runtime.Worker

/-!
# The agent loop

The graph of a Run, the workers that drive it, and the Runtime below them. A worker claims a Run,
decides what to do with it, invokes the graph and takes the Run to its user when the graph is
interrupted; it may die at any point, and a worker whose lease is over may still be alive when
another one claims its Run. Of LangGraph this takes that a value of `Command(resume=…)` is consumed
by the interrupt that the graph waits at, or else by the next one that the invocation reaches, and
that the checkpoint is written before anything follows from it.

`answers`, `accepted`, `latest` and the `response` of a worker are what an observer notes down: no
step of the code reads them.
-/

/-!
## Responses of the user

The response that the user gives to a question crosses the Runtime as the `resume_payload` of the
Run: `resume_run` records it, the next claim hands it to a worker, and the worker decides whether the
graph is invoked with it. Every other transaction leaves what a Run carries as it is (`RunQuiet`).
-/

namespace Runtime

/-- The transactions that neither claim a Run nor ask its user nor take an answer. -/
def Op.quiet : Op → Bool
  | .claimRun _ _ _ _ _ => false
  | .resumeRun _ _ _ _ _ _ _ => false
  | .workerTransition c _ =>
    match c.action with
    | .wait _ _ => false
    | .start _ _ | .complete _ | .fail _ => true
  | _ => true

/-- A Run carries the same response as before, has no new claim, and waits for an answer only if it
waited for it before. -/
structure RunQuiet (r r' : AgentRun) : Prop where
  id : r'.id = r.id
  payload : r'.resumePayload = r.resumePayload
  waits : r'.status = .waitingForUser → r.status = .waitingForUser ∧ r'.interruptId = r.interruptId
  claimed : ∀ token, r'.claimToken = some token → r.claimToken = some token

/-- The facts after a quiet transaction: every Run is there and quiet, and there may be new ones. -/
structure Facts.Quiet (x x' : Facts) : Prop where
  interactions : x'.interactions = x.interactions
  old : ∀ r ∈ x.runs, ∃ r' ∈ x'.runs, RunQuiet r r'
  new : ∀ r' ∈ x'.runs, (∃ r ∈ x.runs, RunQuiet r r') ∨ (r'.IsNew ∧ ∀ r ∈ x.runs, r.id ≠ r'.id)

/-- The response that a transaction recorded, with the Run that it is for. -/
def Op.accepted (op : Op) (reply : Reply) : Option (UUID × Dict) :=
  match op, reply with
  | .resumeRun _ runId _ response _ _ _, .changed _ false => some (runId, response)
  | _, _ => none

/-- The response to a Run that was accepted last. -/
def lastResponse (runId : UUID) : List (Op × Reply) → Option Dict
  | [] => none
  | (op, reply) :: replies =>
    match op.accepted reply with
    | some (answeredId, response) =>
      if answeredId = runId then some response else lastResponse runId replies
    | none => lastResponse runId replies

namespace AgentRunWorker

/-- The pending actions of a checkpoint say which tool they call, and under which id. -/
def actionsFit (actions : List Dict) : Bool :=
  actions.all fun action => hasText action "action_id" && hasText action "tool_name"

/-- Nothing keeps a worker from invoking the graph for a Run that it claimed: there is active time
left, no output was accepted, and the checkpoint holds no final response, no interrupt and no pending
action that is malformed. -/
structure Unblocked (worker : AgentRunWorker) (snapshot : GraphSnapshot) (now : Timestamp)
    (run : AgentRun) : Prop where
  budget : ∃ budget, worker.activeBudget run.budgetSnapshot = some budget ∧
    activeElapsed run now < budget
  output : run.terminalOutput = none
  response : finalResponse (snapshot.values.getD []) = none
  interrupts : snapshot.interrupts = []
  actions : actionsFit (inspect snapshot).pendingActions = true

end AgentRunWorker

/-! ## The graph of a Run -/

/-- The nodes of the graph that stop for the user, with the arguments of their interrupt. -/
inductive InterruptNode where
  | askUser (prompt : Dict)
  | confirmation (actionId toolName : String)
  deriving DecidableEq

namespace InterruptNode

/-- What the node passes to `interrupt`. -/
def payload : InterruptNode → Dict
  | .askUser prompt => prompt
  | .confirmation actionId toolName =>
    Dict.ofFields
      [("type", .str "confirmation"), ("title", .str "确认执行敏感操作"),
        ("message", .str ("是否允许执行 " ++ toolName ++ "？")), ("action_id", .str actionId),
        ("options", .arr
          [.obj (Dict.ofFields [("id", .str "confirm"), ("label", .str "确认")]),
            .obj (Dict.ofFields [("id", .str "cancel"), ("label", .str "取消")])])]

/-- The action that the interrupt is about. -/
def actionId (node : InterruptNode) : Option Json := node.payload.get? "action_id"

/-- The action that the node sends on to execution when it is answered with `response`. -/
def executes (node : InterruptNode) (response : Dict) : Option String :=
  match node with
  | .askUser _ => none
  | .confirmation actionId _ =>
    if response.get "action" = some (.str "confirm") then some actionId else none

end InterruptNode

/-- An interrupt that the graph waits at, under the id that LangGraph gave it. -/
structure PendingInterrupt where
  id : String
  node : InterruptNode
  deriving DecidableEq

/-- An interrupt that consumed a resume value, with the Interaction that the value was the response
to. -/
structure Answer where
  interaction : Option UUID
  node : InterruptNode
  value : Dict
  deriving DecidableEq

/-! ## The workers of a Run -/

/-- How far a worker is with a Run. -/
inductive WorkerPhase where
  | claimed
  | decided (decision : Decision)
  /-- The graph runs, with a resume value that no interrupt has consumed yet. -/
  | running (answer : Option (Option UUID × Dict))
  | interrupted (payload : Dict)
  deriving DecidableEq

structure LoopWorker where
  worker : AgentRunWorker
  /-- The Run as it was claimed. -/
  run : AgentRun
  /-- The Interaction that the `resume_payload` of the Run was the response to. -/
  response : Option UUID
  phase : WorkerPhase := .claimed

/-- What a worker that takes its Run to the user passes to `require_input`. -/
def LoopWorker.question (w : LoopWorker) : Option (Dict × Option UUID) :=
  match w.phase with
  | .decided (.requireInput payload interactionId) => some (payload, interactionId)
  | .interrupted payload => some (payload, none)
  | _ => none

/-- The worker is about to invoke the graph with the response that its Run carries. -/
def LoopWorker.delivers (w : LoopWorker) : Bool :=
  match w.phase with
  | .decided (.invoke (.resume _)) => true
  | _ => false

/-- The checkpoint of a Run and its workers. A worker is known by the token of its claim, which
`uuid4()` gives to no other claim. -/
structure RunLoop where
  values : Option Dict := none
  pending : Option PendingInterrupt := none
  answers : List Answer := []
  /-- The Interaction whose response was accepted last. -/
  accepted : Option UUID := none
  /-- The token of the last claim. -/
  latest : Option UUID := none
  workers : UUID → Option LoopWorker := fun _ => none

namespace RunLoop

/-- What the checkpoint says to `aget_state`. -/
def snapshot (loop : RunLoop) : GraphSnapshot where
  values := loop.values
  interrupts := loop.pending.toList.map fun pending =>
    { id := some pending.id, value := .obj pending.node.payload }

/-- The tools that were executed on the word of the user. -/
def executed (loop : RunLoop) : List String :=
  loop.answers.filterMap fun answer => answer.node.executes answer.value

def setWorker (token : UUID) (worker : Option LoopWorker) (loop : RunLoop) : RunLoop :=
  { loop with workers := Function.update loop.workers token worker }

/-- A Run was claimed. -/
def claim (worker : AgentRunWorker) (run : AgentRun) (loop : RunLoop) : RunLoop :=
  match run.claimToken with
  | none => loop
  | some token =>
    { loop with latest := some token }.setWorker token
      (some { worker, run, response := loop.accepted })

/-- The worker looks at the checkpoint and decides. -/
def reconcile (token : UUID) (now : Timestamp) (loop : RunLoop) : RunLoop :=
  match loop.workers token with
  | none => loop
  | some w =>
    match w.phase with
    | .claimed =>
      loop.setWorker token
        (some { w with phase := .decided (w.worker.decide loop.snapshot now w.run) })
    | _ => loop

/-- The worker invokes the graph: a resume value is consumed by the interrupt that the graph waits
at, and the initial input starts it anew. -/
def invoke (token : UUID) (loop : RunLoop) : RunLoop :=
  match loop.workers token with
  | none => loop
  | some w =>
    match w.phase with
    | .decided (.invoke (.resume payload)) =>
      match loop.pending with
      | some pending =>
        { loop with
          pending := none
          answers := ⟨w.response, pending.node, payload⟩ :: loop.answers }.setWorker token
            (some { w with phase := .running none })
      | none => loop.setWorker token (some { w with phase := .running (some (w.response, payload)) })
    | .decided (.invoke .initial) =>
      { loop with pending := none }.setWorker token (some { w with phase := .running none })
    | _ => loop

/-- The graph goes on from one checkpoint to the next. -/
def advance (token : UUID) (values : Option Dict) (loop : RunLoop) : RunLoop :=
  match loop.workers token with
  | none => loop
  | some w =>
    match w.phase with
    | .running _ => { loop with values }
    | _ => loop

/-- The graph reaches an interrupt: it consumes a resume value that is left, or else stops there. -/
def reach (token : UUID) (pending : PendingInterrupt) (loop : RunLoop) : RunLoop :=
  match loop.workers token with
  | none => loop
  | some w =>
    match w.phase with
    | .running (some (response, value)) =>
      { loop with answers := ⟨response, pending.node, value⟩ :: loop.answers }.setWorker token
        (some { w with phase := .running none })
    | .running none =>
      { loop with pending := some pending }.setWorker token
        (some { w with phase := .interrupted pending.node.payload })
    | _ => loop

end RunLoop

/-! ## The whole system -/

/-- The Runtime, and the checkpoints and workers of its Runs. -/
structure Agents where
  store : Store
  loops : UUID → RunLoop

/-- A step of the system, with its arguments and with what it takes from the clock and from
`uuid4()`. -/
inductive LoopOp where
  /-- A transaction of the Runtime that no worker sends on the way to its graph and back. -/
  | runtime (op : Op) (hquiet : op.quiet = true)
  | resume (userId runId interruptId : UUID) (response : Dict) (expectedVersion : ℕ) (key : String)
      (fresh : ℕ → Stamp)
  | claim (worker : AgentRunWorker) (userId runId : UUID) (lease : ℤ) (fresh : ℕ → Stamp)
  | reconcile (runId token : UUID) (now : Timestamp)
  | invoke (runId token : UUID)
  | advance (runId token : UUID) (values : Option Dict)
  | reach (runId token : UUID) (pending : PendingInterrupt)
  | requireInput (runId token : UUID) (fresh : ℕ → Stamp)
  /-- The worker is done with its Run, or dies. -/
  | stop (runId token : UUID)

namespace Agents

/-- The call of `require_input` that a worker makes. -/
def requireInput (w : LoopWorker) (runId : UUID) (payload : Dict) (interactionId : Option UUID)
    (fresh : ℕ → Stamp) : Op :=
  .workerTransition
    { userId := w.run.userId
      runId
      action := .wait payload interactionId
      claimOwner := some w.worker.workerId
      claimToken := w.run.claimToken }
    fresh

def updateLoop (runId : UUID) (f : RunLoop → RunLoop) (a : Agents) : Agents :=
  { a with loops := Function.update a.loops runId (f (a.loops runId)) }

/-- What a step makes of the system. -/
def commit (op : LoopOp) (view : ℕ → Agents) (a : Agents) : Agents :=
  let run op := Runtime.commit op (fun n => (view n).store) a.store
  match op with
  | .runtime op _ => { a with store := (run op).1 }
  | .resume userId runId interruptId response expectedVersion key fresh =>
    let (store, reply) :=
      run (.resumeRun userId runId interruptId response expectedVersion key fresh)
    match reply with
    | .changed _ false =>
      { a with store }.updateLoop runId fun loop => { loop with accepted := some interruptId }
    | _ => { a with store }
  | .claim worker userId runId lease fresh =>
    let (store, reply) := run (.claimRun userId runId worker.workerId lease fresh)
    match reply with
    | .claimed (some run) => { a with store }.updateLoop runId (.claim worker run)
    | _ => { a with store }
  | .reconcile runId token now => a.updateLoop runId (.reconcile token now)
  | .invoke runId token => a.updateLoop runId (.invoke token)
  | .advance runId token values => a.updateLoop runId (.advance token values)
  | .reach runId token pending => a.updateLoop runId (.reach token pending)
  | .requireInput runId token fresh =>
    match (a.loops runId).workers token with
    | none => a
    | some w =>
      match w.question with
      | none => a
      | some (payload, interactionId) =>
        { a with store := (run (requireInput w runId payload interactionId fresh)).1 }.updateLoop
          runId (.setWorker token none)
  | .stop runId token => a.updateLoop runId (.setWorker token none)

end Agents

/-- The system: it starts with empty tables and without workers. -/
def agents : Program Agents LoopOp Unit where
  init a := a = ⟨{}, fun _ => {}⟩
  commit op view a := (Agents.commit op view a, ())

/-- A step keeps to the turn of its worker: the graph of a Run is driven by the worker that claimed the
Run last, and this worker invokes it with a response only while no interrupt has consumed the
response. -/
def LoopOp.InTurn (op : LoopOp) (a : Agents) : Prop :=
  match op with
  | .invoke runId token =>
    (a.loops runId).latest = some token ∧
      ∀ w ∈ (a.loops runId).workers token, w.delivers = true →
        w.response ∉ (a.loops runId).answers.map Answer.interaction
  | .reach runId token _ => (a.loops runId).latest = some token
  | _ => True

instance : (op : LoopOp) → (a : Agents) → Decidable (op.InTurn a)
  | .invoke runId token, a => inferInstanceAs (Decidable
    ((a.loops runId).latest = some token ∧
      ∀ w ∈ (a.loops runId).workers token, w.delivers = true →
        w.response ∉ (a.loops runId).answers.map Answer.interaction))
  | .reach runId token _, a => inferInstanceAs (Decidable ((a.loops runId).latest = some token))
  | .runtime _ _, _ | .resume _ _ _ _ _ _ _, _ | .claim _ _ _ _ _, _ | .reconcile _ _ _, _
  | .advance _ _ _, _ | .requireInput _ _ _, _ | .stop _ _, _ => inferInstanceAs (Decidable True)

/-- An interrupt of a Run was answered with the response to its own question. -/
structure Answer.Matches (answer : Answer) (runId : UUID) (i : RunInteraction) : Prop where
  id : answer.interaction = some i.id
  run : i.runId = runId
  resolved : i.status = .resolved
  response : i.responsePayload = some answer.value
  action : i.actionId = answer.node.actionId

end Runtime
