import Laoshiren.Foundation.Table
import Laoshiren.PersonalState.Entities

/-!
# Personal State repositories

The tables of Personal State with their unique constraints, and the statements on them. An update of a
Thing or a date is conditional on the version that the transaction read.
-/

namespace PersonalState

open Runtime

/-! ## Unique constraints -/

instance : Row Thing where
  conflict r r' := r.id = r'.id
  decConflict _ _ := inferInstanceAs (Decidable (_ = _))
  symm _ _ := Eq.symm

/-- `uq_thing_dates_primary_kind`: a Thing has one primary date of a kind at most. -/
instance : Row ThingDate where
  conflict r r' := r.id = r'.id ∨
    r.thingId = r'.thingId ∧ r.kind = r'.kind ∧ r.isPrimary = true ∧ r'.isPrimary = true
  decConflict _ _ := inferInstanceAs (Decidable (_ ∨ _))
  symm _ _ := Or.imp Eq.symm fun ⟨hthing, hkind, hr, hr'⟩ => ⟨hthing.symm, hkind.symm, hr', hr⟩

instance : Row Source where
  conflict r r' := r.id = r'.id
  decConflict _ _ := inferInstanceAs (Decidable (_ = _))
  symm _ _ := Eq.symm

instance : Row StateMutation where
  conflict r r' := r.id = r'.id ∨ r.idempotencyKey = r'.idempotencyKey
  decConflict _ _ := inferInstanceAs (Decidable (_ ∨ _))
  symm _ _ := Or.imp Eq.symm Eq.symm

instance : Row TimelineEvent where
  conflict r r' := r.id = r'.id
  decConflict _ _ := inferInstanceAs (Decidable (_ = _))
  symm _ _ := Eq.symm

/-- The tables that the writes of dates look at. -/
structure Records where
  things : Table Thing := .empty
  dates : Table ThingDate := .empty
  sources : Table Source := .empty
  mutations : Table StateMutation := .empty
  timeline : Table TimelineEvent := .empty
  deriving DecidableEq

/-! ## Statements -/

namespace ThingRepository

def get (userId thingId : UUID) (t : Table Thing) : Option Thing :=
  t.get fun r => r.id = thingId ∧ r.userId = userId ∧ r.deletedAt = none

/-- The row that `update` writes. -/
def updateWhere (thing : Thing) (expectedVersion : ℤ) (r : Thing) : Bool :=
  r.id = thing.id ∧ (r.version : ℤ) = expectedVersion

/-- Every column but the identity of the Thing. -/
def updateValues (thing r : Thing) : Thing :=
  { thing with id := r.id, userId := r.userId, createdAt := r.createdAt }

def update (thing : Thing) (expectedVersion : ℤ) (t : Table Thing) : Table Thing × Bool :=
  let p := updateWhere thing expectedVersion
  (t.update p (updateValues thing) fun _ _ _ h => h, t.rowcount p == 1)

end ThingRepository

namespace ThingDateRepository

/-- The date with its Thing: `things` is the table that is joined. -/
def get (userId dateId : UUID) (things : Table Thing) (t : Table ThingDate) : Option ThingDate :=
  t.get fun r => r.id = dateId ∧
    things.rows.any fun thing => thing.id = r.thingId ∧ thing.userId = userId

/-- The rows that `unset_primary` writes. -/
def unsetWhere (thingId : UUID) (kind : ThingDateType) (r : ThingDate) : Bool :=
  r.thingId = thingId ∧ r.kind = kind ∧ r.isPrimary = true

def unsetValues (r : ThingDate) : ThingDate := { r with isPrimary := false }

theorem unset_keeps (thingId : UUID) (kind : ThingDateType) :
    Table.Keeps (unsetWhere thingId kind) unsetValues := by
  rintro r - r' (h | ⟨-, -, hprimary, -⟩)
  · exact Or.inl h
  · cases hprimary

def unsetPrimary (thingId : UUID) (kind : ThingDateType) (t : Table ThingDate) : Table ThingDate :=
  t.update (unsetWhere thingId kind) unsetValues (unset_keeps thingId kind)

/-- The row that `update` writes. -/
def updateWhere (date : ThingDate) (expectedVersion : ℤ) (r : ThingDate) : Bool :=
  r.id = date.id ∧ (r.version : ℤ) = expectedVersion

def updateValues (date r : ThingDate) : ThingDate :=
  { r with
    value := date.value
    timezoneName := date.timezoneName
    precision := date.precision
    certainty := date.certainty
    isPrimary := date.isPrimary
    version := date.version
    updatedAt := date.updatedAt }

def update (date : ThingDate) (expectedVersion : ℤ) (t : Table ThingDate) :
    Option (Table ThingDate × Bool) :=
  let p := updateWhere date expectedVersion
  (t.update? p (updateValues date)).map fun t' => (t', t.rowcount p == 1)

end ThingDateRepository

/-- A Source that is not deleted. -/
def SourceRepository.get (userId sourceId : UUID) (t : Table Source) : Option Source :=
  t.get fun r => r.id = sourceId ∧ r.userId = userId ∧ r.deletedAt = none

def AuditRepository.getMutation (userId : UUID) (idempotencyKey : String) (t : Table StateMutation) :
    Option StateMutation :=
  t.get fun r => r.userId = userId ∧ r.idempotencyKey = idempotencyKey

end PersonalState
