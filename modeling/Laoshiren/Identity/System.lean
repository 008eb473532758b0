import Laoshiren.Foundation.ReadCommitted
import Laoshiren.Identity.Service

/-!
# Identity as a database program

Clients log in, refresh and end their sessions, register devices and push tokens and request the deletion
of their accounts; any number of deletion workers carry the deletions out. The rest of the program is a
client as well: it makes sure that a user is there, and the workers of other kinds claim jobs of their
own from the same queue.
-/

namespace Identity

open Runtime Raise
open Automations (PushEndpoint)

/-- The job of a deletion, or one in its place. -/
def IsDeletion (j : DurableJob) : Prop :=
  j.kind = .accountDeletion ∨ j.dedupeKey = deletionKey j.userId

/-- A transaction of another component: it leaves users, devices, sessions, push endpoints and the jobs
of deletions alone. -/
structure Foreign (s s' : State) : Prop where
  users : s'.users = s.users
  devices : s'.devices = s.devices
  businessSessions : s'.businessSessions = s.businessSessions
  endpoints : s'.endpoints = s.endpoints
  jobs : ∀ j : DurableJob, IsDeletion j → (j ∈ s'.store.durableJobs ↔ j ∈ s.store.durableJobs)

/-- A transaction, with its arguments and with what it takes from the clock, from `uuid4()` and from the
token generator. -/
inductive Op where
  | login (c : HuaweiLogin) (accessToken : String) (fresh : ℕ → Stamp)
  | refresh (accessToken newAccessToken : String) (fresh : ℕ → Stamp)
  | logout (userId : UUID) (accessToken : String) (now : Timestamp)
  | registerDevice (userId deviceId : UUID) (timezoneName : String) (platform : DevicePlatform)
      (now : Timestamp)
  | upsertPushToken (userId deviceId : UUID) (pushToken provider : String) (stamp : Stamp)
  | deletePushToken (userId deviceId : UUID) (now : Timestamp)
  | requestDeletion (userId : UUID) (now : Timestamp) (stamp : Stamp)
  | runDeletion (worker : UUID) (lease : ℤ) (now later : Timestamp) (reached locked : UUID → Bool)
  | ensureExists (userId : UUID) (now : Timestamp)
  /-- A worker of another kind claims jobs, and sweeps the leases that are over. -/
  | claimOther (kind : DurableJobKind) (owner : String) (now leaseUntil : Timestamp) (limit : ℕ)
      (reached locked : UUID → Bool) (hkind : kind ≠ .accountDeletion)
  /-- Another component. -/
  | other (change : State → State) (hforeign : ∀ s, Foreign s (change s))

inductive Reply where
  | raised (error : RuntimeError)
  | done
  | login (result : LoginResultDTO)
  | device (result : DeviceDTO)
  | processed (any : Bool)
  deriving DecidableEq

/-- A transaction is rolled back where it raises. -/
def answered {α : Type} (s : State) (reply : α → Reply) : Raises (State × α) → State × Reply
  | .ok (s', a) => (s', reply a)
  | .error error => (s, .raised error)

/-- What a transaction makes of the database. -/
def commit (hash : String → String) (sessionTtl : ℤ) (op : Op) (view : ℕ → State) (s : State) :
    State × Reply :=
  match op with
  | .login c accessToken fresh =>
    answered s .login (huaweiLogin hash sessionTtl c accessToken fresh view s)
  | .refresh accessToken newAccessToken fresh =>
    answered s .login (refreshSession hash sessionTtl accessToken newAccessToken fresh view s)
  | .logout userId accessToken now =>
    answered s (fun _ => .done) ((logout hash userId accessToken now view s).map (·, ()))
  | .registerDevice userId deviceId timezoneName platform now =>
    answered s .device (registerDevice userId deviceId timezoneName platform now view s)
  | .upsertPushToken userId deviceId pushToken provider stamp =>
    answered s (fun _ => .done)
      ((upsertPushToken userId deviceId pushToken provider stamp view s).map (·, ()))
  | .deletePushToken userId deviceId now => (deletePushToken userId deviceId now view s, .done)
  | .requestDeletion userId now stamp =>
    answered s (fun _ => .done) ((requestAccountDeletion userId now stamp view s).map (·, ()))
  | .runDeletion worker lease now later reached locked =>
    answered s .processed (runOnce worker lease now later reached locked view s)
  | .ensureExists userId now =>
    ({ s with users := UserRepository.ensureExists userId now s.users }, .done)
  | .claimOther kind owner now leaseUntil limit reached locked _ =>
    let (durableJobs, _) := claimReadyJobs kind owner now leaseUntil limit reached locked
      s.store.durableJobs
    ({ s with store := { s.store with durableJobs } }, .done)
  | .other change _ => (change s, .done)

/-- The identity service: it starts with empty tables. -/
def system (hash : String → String) (sessionTtl : ℤ) : Program State Op Reply where
  init s := s = {}
  commit := commit hash sessionTtl

end Identity
