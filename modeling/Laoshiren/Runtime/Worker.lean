import Mathlib.Algebra.Order.Field.Rat
import Laoshiren.Runtime.RunService

/-!
# The worker of a Run

What an `AgentRunWorker` does with a Run that it claimed, up to the point where it invokes the graph:
it checks the budget of active time and a terminal output that was accepted earlier, and, if it has
an inspector, reconciles the Run with the checkpoint of the graph.
-/

namespace Runtime

/-! ## The checkpoint of the graph -/

/-- An interrupt that LangGraph reports as pending. -/
structure GraphInterrupt where
  id : Option String := none
  value : Json
  deriving DecidableEq

/-- What `aget_state` answers for the thread of a Run. -/
structure GraphSnapshot where
  /-- `none` where the values are no dictionary. -/
  values : Option Dict := none
  interrupts : List GraphInterrupt := []
  createdAt : Option String := none
  next : List String := []
  deriving DecidableEq

structure CheckpointSnapshotDTO where
  exists? : Bool
  terminalOutput : Option Dict := none
  pendingInterrupt : Option Dict := none
  pendingActions : List Dict := []
  pendingInterruptId : Option String := none
  deriving DecidableEq

/-- The final response that a checkpoint holds: a text that is not blank. -/
def finalResponse (values : Dict) : Option String :=
  ((values.get "final_response").bind Json.asStr?).filter fun text => !Text.isBlank text

/-- `LangGraphCheckpointInspector.inspect`. -/
def inspect (snapshot : GraphSnapshot) : CheckpointSnapshotDTO :=
  let values := snapshot.values.getD []
  let first := snapshot.interrupts.head?
  let pendingAction := ((values.get "pending_action").bind Json.asDict?).toList
  let pendingBatch := ((values.get "pending_batch").bind Json.asList?).getD []
  { exists? := (snapshot.createdAt.any fun t => t ≠ "") || !values.isEmpty || !snapshot.next.isEmpty
    terminalOutput := (finalResponse values).map fun text => [("final_response", .str text)]
    pendingInterrupt := first.map fun interrupt =>
      interrupt.value.asDict?.getD [("value", interrupt.value)]
    pendingActions := pendingAction ++ pendingBatch.filterMap Json.asDict?
    pendingInterruptId := first.bind GraphInterrupt.id }

inductive CheckpointReconciliation where
  | reexecute
  | reconcileTools
  | waitForUser
  | finalize
  | failInconsistency
  deriving DecidableEq, Repr

/-- A field of a pending action that is a text and not blank. -/
def hasText (action : Dict) (key : String) : Bool :=
  ((action.get key).bind Json.asStr?).any fun text => !Text.isBlank text

/-- `reconcile_checkpoint`. -/
def reconcileCheckpoint (runStatus : RunStatus) (snapshot : CheckpointSnapshotDTO) :
    CheckpointReconciliation :=
  if snapshot.terminalOutput.isSome then .finalize
  else if snapshot.pendingInterrupt.isSome then .waitForUser
  else if snapshot.pendingActions ≠ [] then
    if snapshot.pendingActions.any fun action =>
        !hasText action "action_id" || !hasText action "tool_name" then .failInconsistency
    else .reconcileTools
  else if runStatus = .waitingForUser then .failInconsistency
  else .reexecute

/-! ## The worker -/

structure AgentRunWorker where
  workerId : String
  /-- In seconds. -/
  maxActiveWallTimeSeconds : ℚ := 300
  /-- Whether a checkpoint inspector is configured. -/
  inspects : Bool := true
  /-- What `float` makes of a text. -/
  floatOfText : String → Option ℚ := fun _ => none

/-- What the graph is invoked with. -/
inductive GraphInput where
  /-- `Command(resume=…)`. -/
  | resume (payload : Dict)
  /-- The initial state of the Run. -/
  | initial
  deriving DecidableEq

/-- What a worker does with a Run that it claimed. -/
inductive Decision where
  | failRun (errorCode : String)
  | completeRun (content : String)
  /-- Accept the output of the checkpoint, then complete the Run with its response. -/
  | finalize (output : Dict) (content : String)
  | requireInput (payload : Dict) (interactionId : Option UUID)
  | invoke (input : GraphInput)
  /-- The worker raises and leaves the Run to its lease. -/
  | raises
  deriving DecidableEq

namespace AgentRunWorker

/-- `float(budget.get("max_active_wall_time_seconds", …))`. -/
def activeBudget (worker : AgentRunWorker) (budget : Dict) : Option ℚ :=
  match budget.get "max_active_wall_time_seconds" with
  | none => some worker.maxActiveWallTimeSeconds
  | some (.num q) => some q
  | some (.bool b) => some (if b then 1 else 0)
  | some (.str text) => worker.floatOfText text
  | some _ => none

/-- The active time of a Run so far, in seconds. -/
def activeElapsed (run : AgentRun) (now : Timestamp) : ℚ :=
  (run.activeTimeUsedMs : ℚ) / 1000 + ((now - run.activeStartedAt.getD now : ℤ) : ℚ) / 1000000

/-- The payload of the wait for a pending interrupt, and the id of its Interaction. -/
def checkpointWait (checkpoint : CheckpointSnapshotDTO) (pending : Dict) : Decision :=
  match checkpoint.pendingInterruptId with
  | none => .requireInput pending none
  | some id => .requireInput (pending.setdefault "interaction_id" (.str id)) (UUID.parse? id)

/-- The branch on `run.resume_payload`. -/
def graphInput (run : AgentRun) : GraphInput :=
  match run.resumePayload with
  | some payload => .resume payload
  | none => .initial

/-- The branch on the checkpoint of the graph. -/
def decideCheckpoint (checkpoint : CheckpointSnapshotDTO) (run : AgentRun) : Decision :=
  match reconcileCheckpoint run.status checkpoint with
  | .failInconsistency => .failRun "RUNTIME_INCONSISTENCY"
  | .finalize =>
    match checkpoint.terminalOutput with
    | none => .raises
    | some output =>
      match ((output.get "final_response").bind Json.asStr?).filter fun text => !Text.isBlank text with
      | none => .raises
      | some content => .finalize output content
  | .waitForUser =>
    match checkpoint.pendingInterrupt with
    | none => .raises
    | some pending => checkpointWait checkpoint pending
  | .reconcileTools | .reexecute => .invoke (graphInput run)

/-- `run_once` from the claim to the invocation of the graph. -/
def decide (worker : AgentRunWorker) (snapshot : GraphSnapshot) (now : Timestamp) (run : AgentRun) :
    Decision :=
  match worker.activeBudget run.budgetSnapshot with
  | none => .raises
  | some budget =>
    if budget - activeElapsed run now ≤ 0 then .failRun "BUDGET_EXHAUSTED"
    else
      match run.terminalOutput with
      | some output =>
        match ((output.get "final_response").bind Json.asStr?).filter fun text =>
            !Text.isBlank text with
        | none => .failRun "RUNTIME_INCONSISTENCY"
        | some content => .completeRun content
      | none =>
        if worker.inspects then decideCheckpoint (inspect snapshot) run
        else .invoke (graphInput run)

end AgentRunWorker

end Runtime
