import Laoshiren.PersonalState.ThingWrites

/-!
# What the Personal State should look like

Where the redirects of merged Things lead, what a merge does to the dates, and when the deadline of a
Thing agrees with its dates.
-/

namespace PersonalState

open Runtime

/-! ## Redirects -/

/-- The Thing that a Thing redirects to. -/
def State.redirect (s : State) (thingId : UUID) : Option UUID :=
  (s.things.get fun r => r.id = thingId).bind Thing.mergedIntoThingId

/-! ## What belongs to a Thing -/

/-- A row that can belong to a Thing: a Source link by its Source, any other row by its id. -/
inductive Holder where
  | task (id : UUID)
  | date (id : UUID)
  | blocker (id : UUID)
  | contextEntry (id : UUID)
  | automation (id : UUID)
  | memory (id : UUID)
  | source (id : UUID)
  | thread (id : UUID)
  deriving DecidableEq

/-- A row of the state belongs to a Thing. -/
def State.Holds (s : State) (thingId : UUID) : Holder → Prop
  | .task id => s.tasks.Belongs Task.id Task.thingId id (some thingId)
  | .date id => s.dates.Belongs ThingDate.id ThingDate.thingId id thingId
  | .blocker id => s.blockers.Belongs Blocker.id Blocker.thingId id thingId
  | .contextEntry id =>
    s.contextEntries.Belongs ThingContextEntry.id ThingContextEntry.thingId id thingId
  | .automation id => s.automations.Belongs Automation.id Automation.thingId id (some thingId)
  | .memory id => s.memories.Belongs Memory.id Memory.thingId id (some thingId)
  | .source id => s.thingSources.Belongs ThingSource.sourceId ThingSource.thingId id thingId
  | .thread id => s.threads.Belongs Thread.id Thread.activeThingId id (some thingId)

instance (s : State) (thingId : UUID) : (holder : Holder) → Decidable (s.Holds thingId holder)
  | .task id => inferInstanceAs (Decidable (s.tasks.Belongs _ _ id _))
  | .date id => inferInstanceAs (Decidable (s.dates.Belongs _ _ id _))
  | .blocker id => inferInstanceAs (Decidable (s.blockers.Belongs _ _ id _))
  | .contextEntry id => inferInstanceAs (Decidable (s.contextEntries.Belongs _ _ id _))
  | .automation id => inferInstanceAs (Decidable (s.automations.Belongs _ _ id _))
  | .memory id => inferInstanceAs (Decidable (s.memories.Belongs _ _ id _))
  | .source id => inferInstanceAs (Decidable (s.thingSources.Belongs _ _ id _))
  | .thread id => inferInstanceAs (Decidable (s.threads.Belongs _ _ id _))

/-- Nothing belongs to a merged Thing. -/
def State.Untombed (s : State) : Prop :=
  ∀ thingId holder, s.Holds thingId holder → s.redirect thingId = none

/-! ## Merging the dates -/

/-- Two Things have a primary date of one kind each. -/
def State.BothPrimary (s : State) (thingId thingId' : UUID) : Prop :=
  ∃ r ∈ s.dates.rows, ∃ r' ∈ s.dates.rows, r.thingId = thingId ∧ r'.thingId = thingId' ∧
    r.kind = r'.kind ∧ r.isPrimary = true ∧ r'.isPrimary = true

instance (s : State) (thingId thingId' : UUID) : Decidable (s.BothPrimary thingId thingId') :=
  inferInstanceAs (Decidable (∃ r ∈ s.dates.rows, ∃ r' ∈ s.dates.rows, _))

/-- A Thing has one primary date of a kind at most. -/
def State.OnePrimary (s : State) : Prop :=
  ∀ r ∈ s.dates, ∀ r' ∈ s.dates, r.thingId = r'.thingId → r.kind = r'.kind → r.isPrimary = true →
    r'.isPrimary = true → r = r'

namespace MergeThings

/-- The two Things of a merge as it reads them: live, not merged, and at the versions that the caller
expects. -/
structure Reads (c : MergeThings) (s : State) (canonical duplicate : Thing) : Prop where
  distinct : c.canonicalThingId ≠ c.duplicateThingId
  canonicalFound : ThingRepository.get c.userId c.canonicalThingId s.things = some canonical
  duplicateFound : ThingRepository.get c.userId c.duplicateThingId s.things = some duplicate
  canonicalUnmerged : canonical.mergedIntoThingId = none
  duplicateUnmerged : duplicate.mergedIntoThingId = none
  canonicalVersion : (canonical.version : ℤ) = c.expectedCanonicalVersion
  duplicateVersion : (duplicate.version : ℤ) = c.expectedDuplicateVersion

/-- The dates come through a merge: every one is there still, with its Thing unless that is the
duplicate, and no Thing has two primary dates of a kind. -/
structure KeepsDates (c : MergeThings) (s s' : State) : Prop where
  onePrimary : s'.OnePrimary
  kept : ∀ r ∈ s.dates, ∃ r' ∈ s'.dates, r' = { r with thingId := r'.thingId } ∧
    (r.thingId ≠ c.duplicateThingId → r'.thingId = r.thingId)

/-- A merge can be carried out: its idempotency key is new and the Things share no kind of primary
date; or it can be answered from the mutation that has the key. -/
def CanMerge (c : MergeThings) (s : State) : Prop :=
  match AuditRepository.getMutation c.userId c.idempotencyKey s.mutations with
  | some previous => ((previous.after.get "version").filter isInt).isSome = true
  | none => (∀ m ∈ s.mutations.rows, m.idempotencyKey ≠ c.idempotencyKey) ∧
      ¬s.BothPrimary c.canonicalThingId c.duplicateThingId

end MergeThings

/-! ## Deadlines -/

/-- A date is a primary date of a Thing. -/
def ThingDate.PrimaryOf (r : ThingDate) (thingId : UUID) : Prop :=
  r.thingId = thingId ∧ r.isPrimary = true

instance (r : ThingDate) (thingId : UUID) : Decidable (r.PrimaryOf thingId) :=
  inferInstanceAs (Decidable (_ ∧ _))

/-- The deadline of a Thing agrees with its dates: it has none where no date is primary, and else it is
at one of the primary dates. -/
structure Thing.Coherent (thing : Thing) (dates : Table ThingDate) : Prop where
  none_iff : thing.deadlineAt = none ↔ ∀ r ∈ dates, ¬r.PrimaryOf thing.id
  value : ∀ value, thing.deadlineAt = some value →
    ∃ r ∈ dates, r.PrimaryOf thing.id ∧ r.value = value

/-- The deadline of a Thing agrees with its dates unless the Thing is deleted. -/
def State.CoherentAt (s : State) (thingId : UUID) : Prop :=
  ∀ thing ∈ s.things, thing.id = thingId → thing.deletedAt = none → thing.Coherent s.dates

end PersonalState
