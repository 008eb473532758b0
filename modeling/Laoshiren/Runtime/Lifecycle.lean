import Laoshiren.Runtime.Effects
import Laoshiren.Runtime.Worker

/-!
# The lifecycle of a Run

What holds of a Run in every state (`AgentRun.WellFormed`), and what a transaction that read a Run
may still rely on when it writes (`RunLater`): the version of a Run grows with every change but the
renewal of its lease, so a row that still has the version that was read is the Run that was read.
-/

namespace Runtime

namespace AgentRun

/-- The fields of a Run agree with its status. -/
structure WellFormed (run : AgentRun) : Prop where
  /-- The claim is there as a whole or not at all. -/
  token : run.claimToken.isSome = run.claimOwner.isSome
  lease : run.leaseExpiresAt.isSome = run.claimOwner.isSome
  claimed : run.claimOwner.isSome → run.status = .running
  active : run.activeStartedAt.isSome ↔ run.status = .running
  completed : run.completedAt.isSome ↔ run.status.terminal = true
  final : run.finalMessageId.isSome ↔ run.status = .completed
  error : run.errorCode.isSome → run.status = .failed

/-- A Run without what may change while its version stays: when its lease ends, its heartbeat and
its events. -/
def core (run : AgentRun) : AgentRun :=
  { run with
    leaseExpiresAt := run.leaseExpiresAt.map fun _ => 0
    heartbeatAt := none
    updatedAt := 0
    eventSequence := 0 }

/-- A change of a Run by one of its methods. -/
inductive Moved : AgentRun → AgentRun → Prop
  | start {run run' : AgentRun} {now : Timestamp} {phase label : Option String}
      (h : run.start now phase label = .ok run') : Moved run run'
  | recover {run run' : AgentRun} {now : Timestamp} (h : run.recoverAfterCrash now = .ok run') :
      Moved run run'
  | wait {run run' : AgentRun} {now : Timestamp} {interruptId : UUID} {payload : Dict}
      (h : run.waitForUser now interruptId payload = .ok run') : Moved run run'
  | resume {run run' : AgentRun} {now : Timestamp} {interruptId : UUID} {response : Dict}
      (h : run.resume now interruptId response = .ok run') : Moved run run'
  | complete {run run' : AgentRun} {now : Timestamp} {finalMessageId : UUID}
      (h : run.complete now finalMessageId = .ok run') : Moved run run'
  | accept {run run' : AgentRun} {now : Timestamp} {output : Dict}
      (h : run.acceptTerminalOutput now output = .ok run') (hchanged : run'.version ≠ run.version) :
      Moved run run'
  | fail {run run' : AgentRun} {now : Timestamp} {errorCode : String}
      (h : run.fail now errorCode = .ok run') : Moved run run'
  | cancel {run run' : AgentRun} {now : Timestamp} (h : run.cancel now = .ok run') : Moved run run'

end AgentRun

/-- What a transaction makes of one row: the renewal of its lease, a claim, or the outcome of a
method on a Run that agrees with the row. -/
inductive RunStep : AgentRun → AgentRun → Prop
  | same {r : AgentRun} : RunStep r r
  | renewed {userId runId token : UUID} {owner : String} {now leaseExpiresAt : Timestamp}
      {r : AgentRun} (hp : RunRepository.renewLeaseWhere userId runId owner token r = true) :
      RunStep r (RunRepository.renewLeaseValues now leaseExpiresAt r)
  | claimed {userId runId token : UUID} {owner : String} {now leaseExpiresAt : Timestamp}
      {r : AgentRun} (hp : RunRepository.claimWhere userId runId now r = true) :
      RunStep r (RunRepository.claimValues owner token now leaseExpiresAt r)
  | moved {r run run' : AgentRun} (hcore : r.core = run.core) (h : AgentRun.Moved run run') :
      RunStep r (RunRepository.updateValues run' r)

/-- A step of one row that says which transaction makes it. -/
inductive RowStep (op : Op) : AgentRun → AgentRun → Prop
  | renewed {userId runId token : UUID} {owner : String} {now leaseExpiresAt : Timestamp}
      {r : AgentRun} (hp : RunRepository.renewLeaseWhere userId runId owner token r = true) :
      RowStep op r (RunRepository.renewLeaseValues now leaseExpiresAt r)
  | claimed {userId runId token : UUID} {owner : String} {now leaseExpiresAt : Timestamp}
      {r : AgentRun} (hp : RunRepository.claimWhere userId runId now r = true) :
      RowStep op r (RunRepository.claimValues owner token now leaseExpiresAt r)
  | recovered {r run run' : AgentRun} {now : Timestamp} (hcore : r.core = run.core)
      (h : run.recoverAfterCrash now = .ok run') :
      RowStep op r (RunRepository.updateValues run' r)
  | advanced {r run run' : AgentRun} (hcore : r.core = run.core) (h : Advances op run run') :
      RowStep op r (RunRepository.updateValues run' r)
  | waited {r run run' : AgentRun} {now : Timestamp} {interruptId : UUID} {payload : Dict}
      (hcore : r.core = run.core) (h : run.waitForUser now interruptId payload = .ok run') :
      RowStep op r (RunRepository.updateValues run' r)
  | resumed {r run run' : AgentRun} {now : Timestamp} {interruptId : UUID} {response : Dict}
      (hcore : r.core = run.core) (h : run.resume now interruptId response = .ok run') :
      RowStep op r (RunRepository.updateValues run' r)
  | cancelled {r run run' : AgentRun} {now : Timestamp} (hcore : r.core = run.core)
      (h : run.cancel now = .ok run') : RowStep op r (RunRepository.updateValues run' r)

/-- What any number of transactions leave of a Run. -/
structure RunLater (run run' : AgentRun) : Prop where
  userId : run'.userId = run.userId
  version : run.version ≤ run'.version
  terminal : run.status.terminal = true → run'.status = run.status
  same : run'.version = run.version → run'.core = run.core

/-- The Runs as a transaction may have read them, and as they are now. -/
def RunsLater (t t' : Table AgentRun) : Prop := t.Evolves AgentRun.id RunLater t'

end Runtime

/-!
## Claims that were taken over

A worker holds a Run by the token of its claim. `claim_run` draws a new token, and a Run that leaves
RUNNING forgets its token, so from then on the token of the earlier claim is superseded. Every
transaction of a worker presents the token, with the worker as the owner of the claim.
-/

namespace Runtime

/-- The Run and the claim token that a transaction presents. A call that names no owner presents no
claim: that is how `start_run` is called, and no worker calls another transition so. -/
def Op.presents : Op → Option (UUID × UUID)
  | .workerTransition c _ => if c.claimOwner = none then none else c.claimToken.map (c.runId, ·)
  | .acceptTerminalOutput _ runId _ _ token _ => some (runId, token)
  | .renewRunLease _ runId _ token _ _ => some (runId, token)
  | _ => none

/-- The claim of a Run that draws this token. -/
def Op.draws (runId token : UUID) : Op → Bool
  | .claimRun _ id _ _ fresh => id = runId ∧ (fresh 0).id = token
  | _ => false

/-- The Run is not running under the token. -/
def Superseded (runId token : UUID) (runs : Table AgentRun) : Prop :=
  ∀ r ∈ runs, r.id = runId → r.status ≠ .running ∨ r.claimToken ≠ some token

end Runtime

/-!
## The renewal of a lease

A renewal moves the lease of a Run and its heartbeat and leaves its version. `accept_terminal_output`
writes a whole Run back under the version that it read, so it may write the lease of an older read.
-/

namespace Runtime

/-- When the lease of a Run is over, and its last heartbeat. -/
def AgentRun.leaseTimes (run : AgentRun) : Option Timestamp × Option Timestamp :=
  (run.leaseExpiresAt, run.heartbeatAt)

/-- The times that an answered transaction wrote to the lease of a Run. -/
def writtenLease (runId : UUID) : Op × Reply → Option (Option Timestamp × Option Timestamp)
  | (.renewRunLease _ id _ _ lease now, .flag true) =>
    if id = runId then some (some (now + lease), some now) else none
  | (.claimRun _ id _ lease fresh, .claimed (some _)) =>
    if id = runId then some (some ((fresh 0).now + lease), some (fresh 0).now) else none
  | _ => none

/-- An accepted renewal is the last word on the lease of its claim, but for the renewals after it. -/
def RenewalsLast (replies : List (Op × Reply)) (s : Store) : Prop :=
  ∀ (j : ℕ) userId runId owner token lease now,
    replies[j]? = some (Op.renewRunLease userId runId owner token lease now, Reply.flag true) →
    ∀ r ∈ s.runs, r.id = runId → r.claimToken = some token →
      ∃ k ≤ j, ∃ entry, replies[k]? = some entry ∧ writtenLease runId entry = some r.leaseTimes

/-- The Run keeps its lease and its heartbeat. -/
def LeaseKept (runId : UUID) (s s' : Store) : Prop :=
  ∀ r ∈ s.runs, r.id = runId → ∃ r' ∈ s'.runs, r'.id = runId ∧ r'.leaseTimes = r.leaseTimes

/-- Where `accept_terminal_output` writes the Run that it read, this has the lease of the committed
row. -/
def ReadsLease (userId runId : UUID) (owner : String) (token : UUID) (view s : Store) : Prop :=
  ∀ run ∈ view.runs, run.id = runId → run.userId = userId → run.claimOwner = some owner →
    run.claimToken = some token → run.status = .running → run.terminalOutput = none →
      ∀ r ∈ s.runs, r.id = runId → r.version = run.version → run.leaseTimes = r.leaseTimes

/-- No terminal output is accepted on an old read of the lease. -/
def AcceptsFresh : Op → (ℕ → Store) → Store → Prop
  | .acceptTerminalOutput userId runId _ owner token _, view, s =>
    ReadsLease userId runId owner token (view 0) s
  | _, _, _ => True

end Runtime

/-!
## The active time of a Run

The stopwatch of a Run is started by a claim, stopped by the methods of the Run, and read by the worker
that claimed it. Beside it stands the time that a worker had the Run under a lease: the history of the
Run is cut where a transaction wrote its row, and each stretch counts up to the end of its lease.
-/

namespace Runtime

/-- The row of a Run. -/
def rowOf (runId : UUID) (s : Store) : Option AgentRun := s.runs.get fun r => r.id = runId

/-- The clock that a transaction reads for a Run, where it writes one. -/
def Op.actsAt (runId : UUID) : Op → Option Timestamp
  | .claimRun _ _ _ _ fresh | .workerTransition _ fresh | .resumeRun _ _ _ _ _ _ fresh
  | .cancelRun _ _ _ _ fresh => some (fresh 0).now
  | .renewRunLease _ _ _ _ _ now | .acceptTerminalOutput _ _ _ _ _ now => some now
  | .recoverPendingRuns _ _ fresh => some (fresh runId).now
  | _ => none

/-- A stretch of time in which no transaction wrote the row of a Run. -/
structure Stretch where
  row : Option AgentRun
  since : Timestamp
  till : Timestamp

namespace Stretch

/-- How long the Run was RUNNING under a lease that was not over, in microseconds. -/
def leased (stretch : Stretch) : ℤ :=
  match stretch.row with
  | none => 0
  | some r =>
    if r.status = .running then
      match r.leaseExpiresAt with
      | none => 0
      | some lease => max 0 (min stretch.till lease - stretch.since)
    else 0

/-- Time does not go backwards. -/
def InOrder (stretch : Stretch) : Prop := stretch.since ≤ stretch.till

/-- Where the Run was RUNNING, it had a lease, and this was not over at the end. -/
def WithinLease (stretch : Stretch) : Prop :=
  ∀ r ∈ stretch.row, r.status = .running → ∃ lease ∈ r.leaseExpiresAt, stretch.till ≤ lease

end Stretch

/-- The transactions of a history, latest first, with the state that each of them was committed on. -/
def commitsOf (h : History Store Op Reply) : List (Op × Store) := (h.replies.map Prod.fst).zip h.past

/-- The stretches of a Run up to a moment, latest first. -/
def stretches (runId : UUID) (till : Timestamp) (cur : Store) : List (Op × Store) → List Stretch
  | [] => []
  | (op, s) :: before =>
    match if rowOf runId s = rowOf runId cur then none else op.actsAt runId with
    | some t => ⟨rowOf runId cur, t, till⟩ :: stretches runId t s before
    | none => stretches runId till s before

/-- The stretches of a Run in a history. -/
def stretchesOf (runId : UUID) (till : Timestamp) (h : History Store Op Reply) : List Stretch :=
  stretches runId till h.cur (commitsOf h)

/-- How long a worker had the Run under a lease that was not over, in microseconds. -/
def leasedTime (parts : List Stretch) : ℤ := (parts.map Stretch.leased).sum

/-- The active time that is charged to a Run, in microseconds. -/
def AgentRun.charged (run : AgentRun) (now : Timestamp) : ℤ :=
  run.activeTimeUsedMs * 1000 + (now - run.activeStartedAt.getD now)

end Runtime
