import Laoshiren.Automations.Scheduling

/-!
# Users, devices and sessions

The rows of the identity tables, their unique constraints and the statements on them. A token is not
kept: a session is found by the hash of its token. The bulk updates of an account deletion write the
rows that their statement found.
-/

namespace Identity

open Runtime

/-! ## Value objects -/

inductive UserStatus where
  | active
  | deleting
  | deleted
  deriving DecidableEq, Repr

inductive DevicePlatform where
  | harmonyos
  | other
  deriving DecidableEq, Repr

/-! ## Entities -/

structure User where
  id : UUID
  status : UserStatus := .active
  externalSubject : Option String := none
  createdAt : Timestamp
  updatedAt : Timestamp
  deriving DecidableEq

namespace User

def beginDeletion (now : Timestamp) (user : User) : User :=
  if user.status = .deleted then user else { user with status := .deleting, updatedAt := now }

def markDeleted (now : Timestamp) (user : User) : User :=
  { user with status := .deleted, updatedAt := now }

end User

structure Device where
  userId : UUID
  timezoneName : String
  id : UUID
  platform : DevicePlatform := .harmonyos
  active : Bool := true
  lastSeenAt : Timestamp
  createdAt : Timestamp
  updatedAt : Timestamp
  deriving DecidableEq

def Device.touch (timezoneName : String) (now : Timestamp) (device : Device) : Device :=
  { device with timezoneName, lastSeenAt := now, updatedAt := now }

structure BusinessSession where
  userId : UUID
  tokenHash : String
  expiresAt : Timestamp
  deviceId : Option UUID := none
  id : UUID
  revokedAt : Option Timestamp := none
  createdAt : Timestamp
  deriving DecidableEq

namespace BusinessSession

def revoke (now : Timestamp) (session : BusinessSession) : BusinessSession :=
  { session with revokedAt := some now }

/-- `is_active`, at the time `now`. -/
def isActive (now : Timestamp) (session : BusinessSession) : Bool :=
  session.revokedAt = none ∧ now < session.expiresAt

end BusinessSession

/-! ## Unique constraints -/

/-- `uq_users_external_subject`. -/
instance : Row User where
  conflict r r' := r.id = r'.id ∨ r.externalSubject.isSome ∧ r.externalSubject = r'.externalSubject
  decConflict _ _ := inferInstanceAs (Decidable (_ ∨ _))
  symm _ _ := Or.imp Eq.symm fun h => ⟨h.2 ▸ h.1, h.2.symm⟩

instance : Row Device where
  conflict r r' := r.id = r'.id
  decConflict _ _ := inferInstanceAs (Decidable (_ = _))
  symm _ _ := Eq.symm

instance : Row BusinessSession where
  conflict r r' := r.id = r'.id ∨ r.tokenHash = r'.tokenHash
  decConflict _ _ := inferInstanceAs (Decidable (_ ∨ _))
  symm _ _ := Or.imp Eq.symm Eq.symm

/-! ## Statements -/

namespace UserRepository

def get (userId : UUID) (t : Table User) : Option User := t.get fun r => r.id = userId

def getByExternalSubject (externalSubject : String) (t : Table User) : Option User :=
  t.get fun r => r.externalSubject = some externalSubject

/-- `ensure_exists`: on conflict of the ids, nothing. -/
def ensureExists (userId : UUID) (now : Timestamp) (t : Table User) : Table User :=
  t.insertOrIgnore { id := userId, createdAt := now, updatedAt := now }

def updateValues (user r : User) : User :=
  { r with
    status := user.status, externalSubject := user.externalSubject, updatedAt := user.updatedAt }

def update (user : User) (t : Table User) : Option (Table User) :=
  t.update? (fun r => r.id = user.id) (updateValues user)

end UserRepository

namespace DeviceRepository

def get (deviceId : UUID) (t : Table Device) : Option Device := t.get fun r => r.id = deviceId

def getForUser (userId deviceId : UUID) (t : Table Device) : Option Device :=
  t.get fun r => r.id = deviceId ∧ r.userId = userId

/-- What `upsert` writes over a device that is there: neither its user nor its platform. -/
def upsertValues (device r : Device) : Device :=
  { r with
    timezoneName := device.timezoneName
    active := device.active
    lastSeenAt := device.lastSeenAt
    updatedAt := device.updatedAt }

def upsert (device : Device) (t : Table Device) : Table Device :=
  match t.insert? device with
  | some t' => t'
  | none => t.update (fun r => r.id = device.id) (upsertValues device) fun _ _ _ h => h

def deactivateForUser (userId : UUID) (now : Timestamp) (seen t : Table Device) : Table Device :=
  t.update (Table.foundIn Device.id seen fun r => r.userId = userId ∧ r.active = true)
    (fun r => { r with active := false, updatedAt := now }) fun _ _ _ h => h

end DeviceRepository

namespace SessionRepository

def getByTokenHash (tokenHash : String) (t : Table BusinessSession) : Option BusinessSession :=
  t.get fun r => r.tokenHash = tokenHash

def revokeForUser (userId : UUID) (now : Timestamp) (seen t : Table BusinessSession) :
    Table BusinessSession :=
  t.update (Table.foundIn BusinessSession.id seen fun r => r.userId = userId ∧ r.revokedAt = none)
    (fun r => { r with revokedAt := some now }) fun _ _ _ h => h

def update (session : BusinessSession) (t : Table BusinessSession) : Table BusinessSession :=
  t.update (fun r => r.id = session.id) (fun r => { r with revokedAt := session.revokedAt })
    fun _ _ _ h => h

end SessionRepository

end Identity
