import Laoshiren.Foundation.Growth
import Laoshiren.Identity.System
import Laoshiren.Runtime.Proofs.JobProofs

/-!
# What an identity transaction can write

The tables after a transaction, with the checks that it made on what it read. A login writes users,
devices and sessions one after the other, so what it makes of each table is a case of its own. An account
is deleted under the job that a worker claims and settles; every other transaction leaves the jobs of
deletions as they are.
-/

namespace Identity

open Runtime Table DurableJobRepository
open Automations (PushEndpoint)

/-- The user is there and active. -/
def State.hasActive (userId : UUID) (s : State) : Bool :=
  (UserRepository.get userId s.users).any (·.status = .active)

/-- The device belongs to the user, or nobody registered it. -/
def State.deviceFree (userId deviceId : UUID) (s : State) : Bool :=
  (DeviceRepository.get deviceId s.devices).all fun device => device.userId = userId

/-! ## Logins -/

/-- What a login makes of the users, and the user that it is for. -/
inductive LoginUser (c : HuaweiLogin) (stamp : Stamp) (seen : State) (t : Table User) :
    Table User → UUID → Prop
  | created {users : Table User}
      (hread : UserRepository.getByExternalSubject c.externalSubject seen.users = none)
      (hinsert : t.insert? (newUser c.externalSubject stamp) = some users) :
      LoginUser c stamp seen t users stamp.id
  | found {user : User}
      (hread : UserRepository.getByExternalSubject c.externalSubject seen.users = some user)
      (hactive : user.status = .active) : LoginUser c stamp seen t t user.id

/-- What a registration makes of the devices. -/
inductive Registers (userId deviceId : UUID) (seen : State) (t : Table Device) : Table Device → Prop
  | intro {device : Device} (hid : device.id = deviceId) (huser : device.userId = userId)
      (hfree : seen.deviceFree userId deviceId = true) :
      Registers userId deviceId seen t (DeviceRepository.upsert device t)

/-- What a login makes of the devices. -/
inductive LoginDevice (c : HuaweiLogin) (userId : UUID) (seen : State) (t : Table Device) :
    Table Device → Prop
  | nothing : LoginDevice c userId seen t t
  | registers {deviceId : UUID} {timezoneName : String} {devices : Table Device}
      (hdevice : c.deviceId = some deviceId) (htimezone : c.timezoneName = some timezoneName)
      (h : Registers userId deviceId seen t devices) : LoginDevice c userId seen t devices

/-! ## Account deletion -/

/-- What a request makes of the jobs. -/
inductive RequestsJob (userId : UUID) (stamp : Stamp) (seen s : State) : Table DurableJob → Prop
  | there {job : DurableJob}
      (hread : getByDedupeKey userId (deletionKey userId) seen.store.durableJobs = some job) :
      RequestsJob userId stamp seen s s.store.durableJobs
  | added {durableJobs : Table DurableJob}
      (hinsert : s.store.durableJobs.insert? (deletionJob userId stamp) = some durableJobs) :
      RequestsJob userId stamp seen s durableJobs

/-- What becomes of a job while the deletion of an account is settled under one of them. -/
inductive JobSettles (settled : UUID) (now : Timestamp) (reached : UUID → Bool) (j : DurableJob) :
    DurableJob → Prop
  | swept {j' : DurableJob} (hid : j.id ≠ settled) (hmove : SweepMove now reached j j') :
      JobSettles settled now reached j j'
  | settled {j' : DurableJob} (hid : j.id = settled) (hid' : j'.id = j.id) (hsame : SameJob j j')
      (hstatus : j'.status = .completed) : JobSettles settled now reached j j'

/-- What a deletion makes of the account: an account that is not there, or deleted already, is left
alone. -/
inductive Deletes (userId : UUID) (now : Timestamp) (view : ℕ → State) (s : State) : State → Prop
  | passed (hread : ∀ user, UserRepository.get userId (view 0).users = some user →
      user.status = .deleted) : Deletes userId now view s s
  | deleted {user : User} {s' : State}
      (hread : UserRepository.get userId (view 0).users = some user)
      (hstatus : user.status ≠ .deleted)
      (husers : ∃ user', user'.id = user.id ∧ user'.status = .deleted ∧
        user'.externalSubject = user.externalSubject ∧
        UserRepository.update user' s.users = some s'.users)
      (hdevices : s'.devices =
        DeviceRepository.deactivateForUser userId now (view 3).devices s.devices)
      (hsessions : s'.businessSessions =
        SessionRepository.revokeForUser userId now (view 4).businessSessions s.businessSessions)
      (hattached : s'.toState = Automations.applyAccountDeletion userId now
        (fun n => (view (n + 1)).toState) s.toState) : Deletes userId now view s s'

/-! ## Every transaction -/

/-- The state that a transaction leaves, and its answer. -/
inductive Effect (hash : String → String) (sessionTtl : ℤ) (view : ℕ → State) (s : State) :
    Op → State → Reply → Prop
  | nothing {op : Op} {reply : Reply} (hreply : ∀ result, reply ≠ .login result) :
      Effect hash sessionTtl view s op s reply
  | login {c : HuaweiLogin} {accessToken : String} {fresh : ℕ → Stamp} {userId : UUID}
      {users : Table User} {devices : Table Device} {businessSessions : Table BusinessSession}
      {result : LoginResultDTO} (huser : LoginUser c (fresh 0) (view 0) s.users users userId)
      (hdevice : LoginDevice c userId (view 1) s.devices devices)
      (hsession : s.businessSessions.insert?
        (issuedSession hash sessionTtl userId c.deviceId accessToken (fresh 2)) =
          some businessSessions) :
      Effect hash sessionTtl view s (.login c accessToken fresh)
        { s with users, devices, businessSessions } (.login result)
  | refresh {accessToken newAccessToken : String} {fresh : ℕ → Stamp} {session : BusinessSession}
      {businessSessions : Table BusinessSession} {result : LoginResultDTO}
      (hread : SessionRepository.getByTokenHash (hash accessToken) (view 0).businessSessions =
        some session)
      (hopen : session.revokedAt = none) (hactive : (view 1).hasActive session.userId = true)
      (hsession : (SessionRepository.update (session.revoke (fresh 0).now)
        s.businessSessions).insert? (issuedSession hash sessionTtl session.userId session.deviceId
          newAccessToken (fresh 1)) = some businessSessions) :
      Effect hash sessionTtl view s (.refresh accessToken newAccessToken fresh)
        { s with businessSessions } (.login result)
  | logout {userId : UUID} {accessToken : String} {now : Timestamp} {session : BusinessSession}
      {endpoints : Table PushEndpoint}
      (hread : SessionRepository.getByTokenHash (hash accessToken) (view 0).businessSessions =
        some session)
      (hendpoints : endpoints = s.endpoints ∨ ∃ p,
        endpoints = Automations.EndpointRepository.invalidate p now (view 1).endpoints s.endpoints) :
      Effect hash sessionTtl view s (.logout userId accessToken now)
        { s with
          businessSessions := SessionRepository.update (session.revoke now) s.businessSessions
          endpoints } .done
  | registers {userId deviceId : UUID} {timezoneName : String} {platform : DevicePlatform}
      {now : Timestamp} {devices : Table Device} {result : DeviceDTO}
      (htimezone : Text.strip timezoneName ≠ "")
      (hactive : (view 0).hasActive userId = true)
      (hdevice : Registers userId deviceId (view 1) s.devices devices) :
      Effect hash sessionTtl view s (.registerDevice userId deviceId timezoneName platform now)
        { s with devices } (.device result)
  | upserts {userId deviceId : UUID} {pushToken provider : String} {stamp : Stamp} {token : String}
      {endpoints : Table PushEndpoint} (htoken : Text.strip pushToken ≠ "")
      (hdevice : (DeviceRepository.getForUser userId deviceId (view 0).devices).isSome)
      (hendpoint : Automations.EndpointRepository.upsert
        (newEndpoint userId deviceId token provider stamp) s.endpoints = some endpoints) :
      Effect hash sessionTtl view s (.upsertPushToken userId deviceId pushToken provider stamp)
        { s with endpoints } .done
  | detaches {userId deviceId : UUID} {now : Timestamp} :
      Effect hash sessionTtl view s (.deletePushToken userId deviceId now)
        (deletePushToken userId deviceId now view s) .done
  | requests {userId : UUID} {now : Timestamp} {stamp : Stamp} {user : User} {users : Table User}
      {durableJobs : Table DurableJob}
      (hread : UserRepository.get userId (view 0).users = some user)
      (hstatus : user.status ≠ .deleted)
      (huser : UserRepository.update { user with status := .deleting, updatedAt := now } s.users =
        some users)
      (hjob : RequestsJob userId stamp (view 1) s durableJobs) :
      Effect hash sessionTtl view s (.requestDeletion userId now stamp)
        { s with users, store := { s.store with durableJobs } } .done
  | deletes {worker : UUID} {lease : ℤ} {now later : Timestamp} {reached locked : UUID → Bool}
      {j : DurableJob} {s' : State} {durableJobs : Table DurableJob}
      (hclaimed : ∃ job ∈ (claimReadyJobs .accountDeletion (workerOwner worker) now (now + lease) 1
        reached locked s.store.durableJobs).2, job.userId = j.userId)
      (hready : ∃ j₀ ∈ s.store.durableJobs, SweepMove now reached j₀ j ∧
        claimReadyWhere .accountDeletion now j = true)
      (hdeletes : Deletes j.userId later view s s')
      (hjobs : s.store.durableJobs.Grows (JobSettles j.id now reached) (fun _ => False) durableJobs) :
      Effect hash sessionTtl view s (.runDeletion worker lease now later reached locked)
        { s' with store := { s'.store with durableJobs } } (.processed true)
  | claims {op : Op} {kind : DurableJobKind} {owner : String} {now leaseUntil : Timestamp}
      {reached : UUID → Bool} {durableJobs : Table DurableJob} {reply : Reply}
      (hjobs : s.store.durableJobs.Moves (fun j j' => SweepMove now reached j j' ∨
        j.kind ≠ .accountDeletion ∧ ClaimMove kind owner now leaseUntil reached j j') durableJobs)
      (hreply : ∀ result, reply ≠ .login result) :
      Effect hash sessionTtl view s op { s with store := { s.store with durableJobs } } reply
  | ensures {userId : UUID} {now : Timestamp} :
      Effect hash sessionTtl view s (.ensureExists userId now)
        { s with users := UserRepository.ensureExists userId now s.users } .done
  | other {op : Op} {s' : State} (hforeign : Foreign s s') :
      Effect hash sessionTtl view s op s' .done

end Identity
