import Laoshiren.Automations.Execution
import Laoshiren.Identity.Entities
import Laoshiren.Runtime.JobQueue

/-!
# The identity service

The transactions on users, devices, sessions and push tokens, and the deletion of an account: it is
requested in one transaction, which leaves a job, and applied by a worker in the transaction that claims
and settles the job.
-/

namespace Identity

open Runtime Raise
open Automations (PushEndpoint settleClaim)

/-- The tables of the identity service, beside those that a deletion reaches. -/
structure State extends Automations.State where
  users : Table User := .empty
  devices : Table Device := .empty
  businessSessions : Table BusinessSession := .empty

/-! ## Devices -/

structure DeviceDTO where
  deviceId : UUID
  platform : DevicePlatform
  timezoneName : String
  active : Bool
  lastSeenAt : Timestamp
  deriving DecidableEq

/-- The device of a registration: the one that is there, or a new one. -/
def registration (userId deviceId : UUID) (timezoneName : String) (platform : DevicePlatform)
    (now : Timestamp) (existing : Option Device) : Device :=
  let device := existing.getD
    { userId, timezoneName, id := deviceId, lastSeenAt := now, createdAt := now, updatedAt := now }
  { device with userId, platform, active := true }.touch timezoneName now

/-- `_register_device_locked`; `devices.get` reads `seen`. -/
def registerDeviceLocked (userId deviceId : UUID) (timezoneName : String)
    (platform : DevicePlatform) (now : Timestamp) (seen s : State) : Raises (State × DeviceDTO) := do
  let existing := DeviceRepository.get deviceId seen.devices
  ensure (.invalidStateTransition "Device is owned by another user.")
    (existing.all fun device => device.userId = userId)
  let device := registration userId deviceId timezoneName platform now existing
  return ({ s with devices := DeviceRepository.upsert device s.devices },
    { deviceId := device.id
      platform := device.platform
      timezoneName := device.timezoneName
      active := device.active
      lastSeenAt := device.lastSeenAt })

/-- `register_device`. -/
def registerDevice (userId deviceId : UUID) (timezoneName : String) (platform : DevicePlatform)
    (now : Timestamp) (view : ℕ → State) (s : State) : Raises (State × DeviceDTO) := do
  let cleanTimezone := Text.strip timezoneName
  ensure (.valueError "timezone must not be empty.") (cleanTimezone ≠ "")
  let user := UserRepository.get userId (view 0).users
  ensure (.invalidStateTransition "Account is not active.") (user.any (·.status = .active))
  registerDeviceLocked userId deviceId cleanTimezone platform now (view 1) s

/-! ## Sessions -/

structure LoginResultDTO where
  accessToken : String
  userId : UUID
  expiresAt : Timestamp
  deriving DecidableEq

/-- The arguments of `huawei_login`, with the subject that the provider answered for the code. -/
structure HuaweiLogin where
  externalSubject : String
  deviceId : Option UUID := none
  timezoneName : Option String := none
  platform : DevicePlatform := .harmonyos
  deriving DecidableEq

section Sessions

-- `hash_access_token`, and `session_ttl_hours` in microseconds
variable (hash : String → String) (sessionTtl : ℤ)

/-- A new session for a token that was just issued. -/
def issuedSession (userId : UUID) (deviceId : Option UUID) (accessToken : String) (stamp : Stamp) :
    BusinessSession where
  userId
  deviceId
  tokenHash := hash accessToken
  expiresAt := stamp.now + sessionTtl
  id := stamp.id
  createdAt := stamp.now

/-- A new session, and the answer to the client. -/
def openSession (userId : UUID) (deviceId : Option UUID) (accessToken : String) (stamp : Stamp)
    (s : State) : Raises (State × LoginResultDTO) := do
  let session := issuedSession hash sessionTtl userId deviceId accessToken stamp
  let businessSessions ← orRaise .integrityError (s.businessSessions.insert? session)
  return ({ s with businessSessions }, { accessToken, userId, expiresAt := session.expiresAt })

def newUser (externalSubject : String) (stamp : Stamp) : User where
  id := stamp.id
  externalSubject := some externalSubject
  createdAt := stamp.now
  updatedAt := stamp.now

/-- The user of a login: one that is there has to be active. -/
def loginUser (externalSubject : String) (stamp : Stamp) (seen s : State) : Raises (State × UUID) :=
  match UserRepository.getByExternalSubject externalSubject seen.users with
  | none => do
    let user := newUser externalSubject stamp
    let users ← orRaise .integrityError (s.users.insert? user)
    return ({ s with users }, user.id)
  | some user => do
    ensure (.invalidStateTransition "Account has been deleted.") (user.status ≠ .deleted)
    ensure (.invalidStateTransition "Account deletion is in progress.") (user.status ≠ .deleting)
    return (s, user.id)

/-- The device of a login is registered where a timezone came with it. -/
def loginDevice (c : HuaweiLogin) (userId : UUID) (now : Timestamp) (seen s : State) : Raises State :=
  match c.deviceId, c.timezoneName with
  | some deviceId, some timezoneName => do
    let (s, _) ← registerDeviceLocked userId deviceId timezoneName c.platform now seen s
    return s
  | _, _ => return s

/-- `huawei_login`, with the token that it issues. -/
def huaweiLogin (c : HuaweiLogin) (accessToken : String) (fresh : ℕ → Stamp) (view : ℕ → State)
    (s : State) : Raises (State × LoginResultDTO) := do
  let (s, userId) ← loginUser c.externalSubject (fresh 0) (view 0) s
  let s ← loginDevice c userId (fresh 1).now (view 1) s
  openSession hash sessionTtl userId c.deviceId accessToken (fresh 2) s

/-- `refresh_session`, with the token that it issues. -/
def refreshSession (accessToken newAccessToken : String) (fresh : ℕ → Stamp) (view : ℕ → State)
    (s : State) : Raises (State × LoginResultDTO) := do
  let session ← orRaise (.entityNotFound "Session was not found.")
    (SessionRepository.getByTokenHash (hash accessToken) (view 0).businessSessions)
  ensure (.entityNotFound "Session was not found.") (session.revokedAt = none)
  let user := UserRepository.get session.userId (view 1).users
  ensure (.invalidStateTransition "Account is not active.") (user.any (·.status = .active))
  let businessSessions := SessionRepository.update (session.revoke (fresh 0).now) s.businessSessions
  openSession hash sessionTtl session.userId session.deviceId newAccessToken (fresh 1)
    { s with businessSessions }

/-- `logout`. -/
def logout (userId : UUID) (accessToken : String) (now : Timestamp) (view : ℕ → State) (s : State) :
    Raises State := do
  let session ← orRaise (.entityNotFound "Session was not found.")
    (SessionRepository.getByTokenHash (hash accessToken) (view 0).businessSessions)
  ensure (.entityNotFound "Session was not found.") (session.userId = userId)
  let businessSessions := SessionRepository.update (session.revoke now) s.businessSessions
  let endpoints := match session.deviceId with
    | some deviceId => Automations.EndpointRepository.invalidate
        (fun r => r.userId = userId ∧ r.deviceId = deviceId) now (view 1).endpoints s.endpoints
    | none => s.endpoints
  return { s with businessSessions, endpoints }

end Sessions

/-! ## Push tokens -/

def newEndpoint (userId deviceId : UUID) (pushToken provider : String) (stamp : Stamp) :
    PushEndpoint where
  userId
  deviceId
  provider
  pushToken
  active := true
  notificationsEnabled := true
  id := stamp.id
  lastRegisteredAt := stamp.now
  invalidatedAt := none
  createdAt := stamp.now
  updatedAt := stamp.now

/-- `upsert_push_token`. -/
def upsertPushToken (userId deviceId : UUID) (pushToken provider : String) (stamp : Stamp)
    (view : ℕ → State) (s : State) : Raises State := do
  let cleanToken := Text.strip pushToken
  ensure (.valueError "push_token must not be empty.") (cleanToken ≠ "")
  ensure (.entityNotFound "Device was not found.")
    (DeviceRepository.getForUser userId deviceId (view 0).devices).isSome
  let endpoint := newEndpoint userId deviceId cleanToken provider stamp
  let endpoints ← orRaise .integrityError (Automations.EndpointRepository.upsert endpoint s.endpoints)
  return { s with endpoints }

/-- `delete_push_token`. -/
def deletePushToken (userId deviceId : UUID) (now : Timestamp) (view : ℕ → State) (s : State) :
    State :=
  { s with
    endpoints := Automations.EndpointRepository.invalidate (fun r => r.userId = userId ∧ r.deviceId = deviceId)
      now (view 0).endpoints s.endpoints }

/-! ## Account deletion -/

/-- The key of the job that deletes an account. -/
def deletionKey (userId : UUID) : String := "account-deletion:" ++ userId.str

def deletionJob (userId : UUID) (stamp : Stamp) : DurableJob where
  userId
  kind := .accountDeletion
  dedupeKey := deletionKey userId
  payload := Dict.ofFields [("user_id", .str userId.str)]
  id := stamp.id
  availableAt := stamp.now
  createdAt := stamp.now
  updatedAt := stamp.now

/-- `request_account_deletion`. -/
def requestAccountDeletion (userId : UUID) (now : Timestamp) (stamp : Stamp) (view : ℕ → State)
    (s : State) : Raises State := do
  let user ← orRaise (.entityNotFound "User was not found.")
    (UserRepository.get userId (view 0).users)
  if user.status = .deleted then return s
  else
    let users ← orRaise .integrityError (UserRepository.update (user.beginDeletion now) s.users)
    match DurableJobRepository.getByDedupeKey userId (deletionKey userId)
        (view 1).store.durableJobs with
    | some _ => return { s with users }
    | none =>
      let store ← s.store.addJob (deletionJob userId stamp)
      return { s with users, store }

/-- `apply_account_deletion`. -/
def applyAccountDeletion (userId : UUID) (now : Timestamp) (view : ℕ → State) (s : State) :
    Raises State :=
  match UserRepository.get userId (view 0).users with
  | none => return s
  | some user =>
    if user.status = .deleted then return s
    else do
      let user := if user.status = .deleting then user else user.beginDeletion now
      let attached :=
        Automations.applyAccountDeletion userId now (fun n => (view (n + 1)).toState) s.toState
      let devices := DeviceRepository.deactivateForUser userId now (view 3).devices s.devices
      let businessSessions :=
        SessionRepository.revokeForUser userId now (view 4).businessSessions s.businessSessions
      let users ← orRaise .integrityError (UserRepository.update (user.markDeleted now) s.users)
      return { toState := attached, users, devices, businessSessions }

/-- `AccountDeletionWorker._worker_id`. -/
def workerOwner (worker : UUID) : String := "account-deletion-" ++ worker.str

/-- `AccountDeletionWorker.run_once`: one transaction, which is rolled back where its claim is lost.
`now` is the time of the claim and `later` the one of the deletion. -/
def runOnce (worker : UUID) (lease : ℤ) (now later : Timestamp) (reached locked : UUID → Bool)
    (view : ℕ → State) (s : State) : Raises (State × Bool) :=
  let (durableJobs, jobs) := claimReadyJobs .accountDeletion (workerOwner worker) now (now + lease) 1
    reached locked s.store.durableJobs
  let claimed := { s with store := { s.store with durableJobs } }
  match jobs with
  | [] => return (claimed, false)
  | job :: _ => do
    let applied ← applyAccountDeletion job.userId later view claimed
    match settleClaim job (workerOwner worker) .completed now none applied.toState with
    | some settled => return ({ applied with toState := settled }, true)
    | none => return (s, false)

/-! ## Authentication -/

/-- `HTTPException`, or the `ValueError` of `UUID(dev_user_id)`. -/
inductive AuthError where
  | httpException (statusCode : ℕ) (detail : String)
  | valueError
  deriving DecidableEq

/-- The settings that authentication reads. -/
structure AuthSettings where
  appEnv : String := "development"
  devAuthToken : String := "change-me"
  devUserId : String := "00000000-0000-0000-0000-000000000001"

/-- The token of the `Authorization` header. -/
def bearerToken (authorization : Option String) : Except AuthError String := do
  let refused := AuthError.httpException 401 "Invalid or missing bearer token."
  let header ← orRaise refused authorization
  ensure refused ("Bearer ".toList.isPrefixOf header.toList = true)
  let token := Text.strip (String.ofList (header.toList.drop "Bearer ".length))
  ensure refused (token ≠ "")
  return token

/-- The token that stands for one user in development. -/
def AuthSettings.IsDevToken (settings : AuthSettings) (token : String) : Prop :=
  settings.appEnv = "development" ∧ token = settings.devAuthToken

instance decidableIsDevToken (settings : AuthSettings) (token : String) :
    Decidable (settings.IsDevToken token) := inferInstanceAs (Decidable (_ ∧ _))

/-- The user whose session has the token: the session is read first, and its user after it. -/
def sessionUserId (tokenHash : String) (now : Timestamp) (view : ℕ → State) : Except AuthError UUID := do
  let session ← orRaise (.httpException 401 "Invalid or expired session.")
    (SessionRepository.getByTokenHash tokenHash (view 0).businessSessions)
  ensure (.httpException 401 "Invalid or expired session.") (session.isActive now = true)
  let user := UserRepository.get session.userId (view 1).users
  ensure (.httpException 401 "Account is not active.") (user.any (·.status = .active) = true)
  return session.userId

/-- `get_current_user_id`. -/
def getCurrentUserId (settings : AuthSettings) (hash : String → String) (authorization : Option String)
    (now : Timestamp) (view : ℕ → State) : Except AuthError UUID := do
  let token ← bearerToken authorization
  if settings.IsDevToken token then orRaise .valueError (UUID.parse? settings.devUserId)
  else sessionUserId (hash token) now view

end Identity
