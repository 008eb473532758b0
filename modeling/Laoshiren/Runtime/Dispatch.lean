import Mathlib.Logic.Function.Basic
import Laoshiren.Runtime.Effects

/-!
# The dispatch scanners

A `RunDispatchScanner` claims the jobs of a batch at once and executes them one after the other. Only
the one that is executed has a heartbeat, an exception while a job is settled gives up the rest of
the batch, and the claim of any worker sweeps the leases that are over. Any number of scanners share
the Runtime with its other clients; how long an execution takes is a matter of what happens between
two steps of its scanner.

`started` is what an observer notes down: no step of the code reads it.
-/

namespace Runtime

/-- One scanner. -/
structure Scanner where
  /-- The claim whose executor runs. -/
  running : Option DurableJobClaimDTO := none
  /-- The rest of the batch. -/
  waiting : List DurableJobClaimDTO := []

/-- How the name of a scanner begins. -/
def scannerPrefix : String := "run-job-worker-"

/-- `RunDispatchScanner._owner`. -/
def scannerOwner (scanner : UUID) : String := scannerPrefix ++ scanner.str

/-- The transactions of clients that are no scanner: they drive jobs of other kinds, under other
names. -/
def Op.apart : Op → Bool
  | .claimAgentRunJobs _ _ _ _ _ _ | .settleAgentRunJob _ _ _ _ | .renewAgentRunJob _ _ _ _ => false
  | .claimReadyJobs kind _ _ _ _ _ _ => decide (kind ≠ .agentRun)
  | .releaseForRetry _ owner _ _ _ _ => !scannerPrefix.toList.isPrefixOf owner.toList
  | _ => true

/-- The Runtime and the scanners that dispatch its Runs. -/
structure Dispatch where
  store : Store
  scanners : UUID → Scanner
  /-- The claims that the executor was started with, latest first. -/
  started : List DurableJobClaimDTO

/-- A step, with its arguments and with what it takes from the clock and from `uuid4()`. -/
inductive DispatchOp where
  /-- A transaction of a client that is no scanner. -/
  | other (op : Op) (hapart : op.apart = true)
  /-- An idle scanner begins a batch. -/
  | claim (scanner : UUID) (lease : ℤ) (limit : ℕ) (now : Timestamp) (reached locked : UUID → Bool)
  /-- The scanner starts the executor on the next claim of its batch. -/
  | start (scanner : UUID)
  | heartbeat (scanner : UUID) (lease : ℤ) (now : Timestamp)
  /-- The executor has returned, or it raised the exception with the name `errorCode`. -/
  | settle (scanner : UUID) (errorCode : Option String) (now : Timestamp)
  /-- The loop of the scanner begins anew after an exception that is not one of the service. -/
  | abandon (scanner : UUID)

namespace Dispatch

def setScanner (scanner : UUID) (state : Scanner) (d : Dispatch) : Dispatch :=
  { d with scanners := Function.update d.scanners scanner state }

/-- What a step makes of the system. -/
def commit (op : DispatchOp) (view : ℕ → Dispatch) (d : Dispatch) : Dispatch :=
  let run op := Runtime.commit op (fun n => (view n).store) d.store
  match op with
  | .other op _ => { d with store := (run op).1 }
  | .claim scanner lease limit now reached locked =>
    match d.scanners scanner with
    | ⟨none, []⟩ =>
      let (store, reply) :=
        run (.claimAgentRunJobs (scannerOwner scanner) lease limit now reached locked)
      match reply with
      | .claims waiting => { d with store }.setScanner scanner { waiting }
      | _ => { d with store }
    | _ => d
  | .start scanner =>
    match d.scanners scanner with
    | ⟨none, claim :: waiting⟩ =>
      { d with started := claim :: d.started }.setScanner scanner { running := some claim, waiting }
    | _ => d
  | .heartbeat scanner lease now =>
    match (d.scanners scanner).running with
    | some claim =>
      { d with store := (run (.renewAgentRunJob claim (scannerOwner scanner) lease now)).1 }
    | none => d
  | .settle scanner errorCode now =>
    match (d.scanners scanner).running with
    | some claim =>
      let (store, reply) :=
        run (.settleAgentRunJob claim (scannerOwner scanner) errorCode now)
      match reply with
      | .raised _ => { d with store }.setScanner scanner {}
      | _ => { d with store }.setScanner scanner { waiting := (d.scanners scanner).waiting }
    | none => d
  | .abandon scanner => d.setScanner scanner {}

/-- How often the executor was started for a job. -/
def starts (jobId : UUID) (d : Dispatch) : ℕ := d.started.countP fun claim => claim.jobId = jobId

/-- The executor was started with the present claim of a job. -/
def Started (d : Dispatch) (j : DurableJob) : Prop :=
  ∃ claim ∈ d.started, claim.jobId = j.id ∧ claim.claimEpoch = j.claimEpoch

instance (d : Dispatch) (j : DurableJob) : Decidable (d.Started j) :=
  inferInstanceAs (Decidable (∃ claim ∈ d.started, _))

end Dispatch

/-- The system: it starts with empty tables and idle scanners. -/
def dispatch : Program Dispatch DispatchOp Unit where
  init d := d = ⟨{}, fun _ => {}, []⟩
  commit op view d := (Dispatch.commit op view d, ())

/-- The sweep of the leases that are over that a step begins with. -/
def DispatchOp.sweep : DispatchOp → Option (Timestamp × (UUID → Bool))
  | .other op _ => op.sweep
  | .claim _ _ _ now reached _ => some (now, reached)
  | _ => none

/-- The step sweeps no job of a Run that was claimed and not executed yet. -/
def DispatchOp.Spares (op : DispatchOp) (d : Dispatch) : Prop :=
  ∀ swept ∈ op.sweep, ∀ j ∈ d.store.durableJobs.rows, j.kind = .agentRun →
    swept.2 j.id = true → DurableJobRepository.expired swept.1 j = true → d.Started j

instance (op : DispatchOp) (d : Dispatch) : Decidable (op.Spares d) :=
  match h : op.sweep with
  | none => .isTrue fun _ hswept => by simp [h] at hswept
  | some swept =>
    decidable_of_iff (∀ j ∈ d.store.durableJobs.rows, j.kind = .agentRun →
      swept.2 j.id = true → DurableJobRepository.expired swept.1 j = true → d.Started j)
      (by simp [DispatchOp.Spares, h])

end Runtime
