import Laoshiren.PersonalState.Proofs.AttachmentProofs
import Laoshiren.PersonalState.Replay

/-!
# Proofs: what a transaction does to the Personal State

All that a transaction can do: it raises, it is answered from an earlier one, or it carries out one
write. In the first two cases it leaves the state as it was.
-/

namespace PersonalState

open Raise Runtime

variable {py : Builtins} {cal : Calendar} {view : ℕ → State} {s s' mid : State} {reply : Reply}
  {op : Op} {m : StateMutation}

/-- What a transaction does that is not answered from an earlier one, and what it answers. -/
def Op.Commits (cal : Calendar) (view : ℕ → State) (s s' : State) (reply : Reply) : Op → Prop
  | .createThing c fresh => c.Creates fresh s s' ∧
      reply = .outcome (CreateThing.outcome (c.thing (fresh 0)) (c.mutated fresh).id false)
  | .updateThing c fresh => ∃ thing thing', c.Revises fresh view s s' thing thing' ∧
      reply = .thing thing'
  | .changeArchive c fresh => ∃ thing, c.Changes cal fresh view s s' thing ∧
      reply = .outcome (c.outcome (c.changed thing (fresh 0).now) (c.mutated cal thing fresh))
  | .deleteThing c fresh => ∃ thing, c.Deletes cal fresh view s s' thing ∧
      reply = .outcome
        (DeleteThing.outcome (thing.deleted (fresh 0).now) (c.mutated cal thing fresh))
  | .mergeThings c fresh => ∃ canonical duplicate, c.Merges fresh view s s' canonical duplicate ∧
      reply = .outcome (MergeThings.outcome canonical (duplicate.merged canonical.id (fresh 0).now)
        (c.mutated canonical duplicate fresh))
  | .setDeadline c fresh => ∃ thing value, c.Adds cal fresh view s s' thing value ∧
      reply = .outcome (SetDeadline.outcome (c.newThing thing value (fresh 0).now)
        (c.date thing value (fresh 0)) (c.mutated cal thing value fresh))
  | .updateDate c fresh => ∃ thing date value, c.Corrects cal fresh view s s' thing date value ∧
      reply = .outcome (UpdateDate.outcome (c.newThing thing date value (fresh 0).now)
        (c.corrected date value (fresh 0).now) (c.mutated cal thing date value fresh))
  | .createTask c fresh => ∃ thing, c.Creates cal fresh view s s' thing ∧
      reply = .outcome
        (CreateTask.outcome (c.task thing (fresh 0)) (c.mutated cal thing fresh).id false)
  | .transitionTask c fresh => ∃ task task', c.Changes fresh view s s' task task' ∧
      reply = .outcome (TransitionTask.outcome task' (c.mutation task task' (fresh 1)))
  | .completeTask c fresh => ∃ task task', c.Completes cal fresh view s s' task task' ∧
      reply = .outcome (CompleteTask.outcome task' (c.mutation cal task task' (fresh 1)))
  | .createBlocker c fresh => c.Creates fresh view s s' ∧
      reply = .outcome (CreateBlocker.outcome (c.blocker (fresh 0)) (c.mutated fresh).id false)
  | .resolveBlocker c fresh => ∃ blocker, c.Resolves fresh view s s' blocker ∧
      reply = .outcome
        (ResolveBlocker.outcome (blocker.resolved (fresh 0).now) (c.mutated blocker fresh))
  | .setThingContext c fresh => ∃ existing, c.Sets fresh view s s' existing ∧
      reply = .outcome (SetThingContext.outcome (c.result existing (fresh 0))
        (c.mutation existing (c.result existing (fresh 0)) (fresh 1)))
  | .linkToThing c fresh => c.Links fresh view s s' ∧ reply = .created (c.creates fresh s)
  | .addRelation c fresh => c.Relates fresh view s s' ∧ reply = .created (c.creates fresh s)
  | .deleteFile c fresh => c.Deletes cal fresh view s s' ∧
      reply = .outcome (c.outcome (c.mutation cal (fresh 0).now (fresh 1)))
  | .createAutomation c stamp => ∃ trigger automations,
      s.automations.insert? (c.automation trigger stamp) = some automations ∧
        s' = { s with automations }
  | .createMemory c stamp => c.suppressed = false ∧ c.duplicatesState = false ∧
      ∃ superseded before memories,
        c.supersede stamp.now view s.memories = .ok (superseded, before) ∧
        before.insert? (c.memory superseded stamp) = some memories ∧ s' = { s with memories }
  | .createThread userId _ key activeThingId _ => ∃ thread threads, thread.userId = userId ∧
      thread.idempotencyKey = key ∧ thread.activeThingId = activeThingId ∧
      s.threads.insert? thread = some threads ∧ s' = { s with threads }
  | .automationThread c _ => ∃ thread threads, thread.userId = c.userId ∧
      thread.idempotencyKey = "automation-inbox:" ++ c.userId.str ∧
      thread.activeThingId = c.thingId ∧ s.threads.insert? thread = some threads ∧
      s' = { s with threads }
  | .addSource source => ∃ sources, s.sources.insert? source = some sources ∧
      s' = { s with sources }
  | .upkeep w => s' = w.apply s

/-! ## The cases of a transaction -/

/-- A transaction leaves the state where it raises. -/
theorem settled_cases {α : Type} (s : State) (reply : α → Reply) (result : Raises (State × α)) :
    (∃ e, settled s reply result = (s, .raised e)) ∨
      ∃ s' a, result = .ok (s', a) ∧ settled s reply result = (s', reply a) := by
  cases result with
  | error e => exact .inl ⟨e, rfl⟩
  | ok r => exact .inr ⟨r.1, r.2, rfl, rfl⟩

theorem onRecords_eq_ok {α : Type} {result : Raises (Records × α)} {a : α} :
    s.onRecords result = .ok (s', a) ↔
      ∃ db, result = .ok (db, a) ∧ { s with toRecords := db } = s' := by
  simp only [State.onRecords, bind_eq_ok, pure_eq_ok, Prod.exists, Prod.mk.injEq]
  constructor
  · rintro ⟨db, _, hresult, rfl, rfl⟩
    exact ⟨db, hresult, rfl⟩
  · rintro ⟨db, hresult, rfl⟩
    exact ⟨db, a, hresult, rfl, rfl⟩

/-- An earlier row answers the transaction: the state stays, and a write that records a mutation found
one under its key. -/
def Op.Answers (op : Op) (view : ℕ → State) (s s' : State) : Prop :=
  (∀ request, op.request = some request → op.Seen view) ∧ s' = s

theorem Op.answers_of_seen (h : op.Seen view ∧ s' = s) : op.Answers view s s' :=
  ⟨fun _ _ => h.1, h.2⟩

/-- A write that can raise, answer from an earlier one, or be carried out. -/
theorem settled_outcome {α : Type} {answer : α → Reply} {result : Raises (State × α)}
    (h : ∀ s' a, result = .ok (s', a) →
      op.Answers view s s' ∨ op.Commits cal view s s' (answer a)) :
    (∃ e, settled s answer result = (s, .raised e)) ∨
      op.Answers view s (settled s answer result).1 ∨
        op.Commits cal view s (settled s answer result).1 (settled s answer result).2 := by
  rcases settled_cases s answer result with hraised | ⟨s', a, hresult, heq⟩
  · exact .inl hraised
  · rw [heq]
    exact .inr (h s' a hresult)

/-- All that a transaction can do. -/
theorem commit_outcome (py : Builtins) (cal : Calendar) (op : Op) (view : ℕ → State) (s : State) :
    (∃ e, commit py cal op view s = (s, .raised e)) ∨
      op.Answers view s (commit py cal op view s).1 ∨
        op.Commits cal view s (commit py cal op view s).1 (commit py cal op view s).2 := by
  cases op with
  | createThing c fresh =>
    refine settled_outcome fun s' a h => (applyCreateThing_ok h).imp Op.answers_of_seen ?_
    rintro ⟨hcreates, rfl⟩
    exact ⟨hcreates, rfl⟩
  | updateThing c fresh =>
    refine settled_outcome fun s' a h => ?_
    obtain ⟨db', hrecords, rfl⟩ := onRecords_eq_ok.mp h
    rcases updateThingAt_ok hrecords with ⟨hseen, rfl⟩ | ⟨thing, hrevises⟩
    · exact .inl (Op.answers_of_seen ⟨hseen, rfl⟩)
    · exact .inr ⟨thing, a, hrevises, rfl⟩
  | changeArchive c fresh =>
    refine settled_outcome fun s' a h => (applyChangeArchive_ok h).imp Op.answers_of_seen ?_
    rintro ⟨thing, hchanges, rfl⟩
    exact ⟨thing, hchanges, rfl⟩
  | deleteThing c fresh =>
    refine settled_outcome fun s' a h => (applyDeleteThing_ok h).imp Op.answers_of_seen ?_
    rintro ⟨thing, hdeletes, rfl⟩
    exact ⟨thing, hdeletes, rfl⟩
  | mergeThings c fresh =>
    refine settled_outcome fun s' a h => ?_
    rcases MergeThings.ok_cases h with ⟨previous, hseen, -, rfl⟩ | ⟨_, _, hmerges, rfl⟩
    · exact .inl (Op.answers_of_seen ⟨⟨_, _, rfl, by simp [hseen]⟩, rfl⟩)
    · exact .inr ⟨_, _, hmerges, rfl⟩
  | setDeadline c fresh =>
    refine settled_outcome fun s' a h => ?_
    obtain ⟨db', hrecords, rfl⟩ := onRecords_eq_ok.mp h
    rcases applySetDeadlineAt_ok hrecords with ⟨hseen, rfl⟩ | ⟨_, _, hadds, rfl⟩
    · exact .inl (Op.answers_of_seen ⟨hseen, rfl⟩)
    · exact .inr ⟨_, _, hadds, rfl⟩
  | updateDate c fresh =>
    refine settled_outcome fun s' a h => ?_
    obtain ⟨db', hrecords, rfl⟩ := onRecords_eq_ok.mp h
    rcases applyUpdateDateAt_ok hrecords with ⟨hseen, rfl⟩ | ⟨_, _, _, hcorrects, rfl⟩
    · exact .inl (Op.answers_of_seen ⟨hseen, rfl⟩)
    · exact .inr ⟨_, _, _, hcorrects, rfl⟩
  | createTask c fresh =>
    refine settled_outcome fun s' a h => (applyCreateTask_ok h).imp Op.answers_of_seen ?_
    rintro ⟨thing, hcreates, rfl⟩
    exact ⟨thing, hcreates, rfl⟩
  | transitionTask c fresh =>
    refine settled_outcome fun s' a h => (applyTransitionTask_ok h).imp Op.answers_of_seen ?_
    rintro ⟨task, task', hchanges, rfl⟩
    exact ⟨task, task', hchanges, rfl⟩
  | completeTask c fresh =>
    refine settled_outcome fun s' a h => (applyCompleteTask_ok h).imp Op.answers_of_seen ?_
    rintro ⟨task, task', hcompletes, rfl⟩
    exact ⟨task, task', hcompletes, rfl⟩
  | createBlocker c fresh =>
    refine settled_outcome fun s' a h => (applyCreateBlocker_ok h).imp Op.answers_of_seen ?_
    rintro ⟨hcreates, rfl⟩
    exact ⟨hcreates, rfl⟩
  | resolveBlocker c fresh =>
    refine settled_outcome fun s' a h => (applyResolveBlocker_ok h).imp Op.answers_of_seen ?_
    rintro ⟨blocker, hresolves, rfl⟩
    exact ⟨blocker, hresolves, rfl⟩
  | setThingContext c fresh =>
    refine settled_outcome fun s' a h => (applySetThingContext_ok h).imp Op.answers_of_seen ?_
    rintro ⟨existing, hsets, rfl⟩
    exact ⟨existing, hsets, rfl⟩
  | linkToThing c fresh =>
    refine settled_outcome fun s' a h => (linkToThing_ok h).imp Op.answers_of_seen ?_
    rintro ⟨hlinks, rfl⟩
    exact ⟨hlinks, rfl⟩
  | addRelation c fresh =>
    refine settled_outcome fun s' a h => (addRelation_ok h).imp Op.answers_of_seen ?_
    rintro ⟨hrelates, rfl⟩
    exact ⟨hrelates, rfl⟩
  | deleteFile c fresh =>
    refine settled_outcome fun s' a h => (applyDeleteFile_ok h).imp Op.answers_of_seen ?_
    rintro ⟨hdeletes, rfl⟩
    exact ⟨hdeletes, rfl⟩
  | createAutomation c stamp =>
    exact settled_outcome fun s' a h => (applyCreateAutomation_ok h).imp_left (⟨nofun, ·⟩)
  | createMemory c stamp =>
    exact settled_outcome fun s' a h => (applyCreateMemory_ok h).imp_left (⟨nofun, ·⟩)
  | createThread userId title key activeThingId stamp =>
    exact settled_outcome fun s' a h => (applyCreateThread_ok h).imp_left (⟨nofun, ·⟩)
  | automationThread c stamp =>
    exact settled_outcome fun s' a h => (applyAutomationThread_ok h).imp_left (⟨nofun, ·⟩)
  | addSource source =>
    refine settled_outcome fun s' a h => .inr ?_
    simp only [addSource, bind_eq_ok, orRaise_eq_ok, pure_eq_ok, Prod.mk.injEq] at h
    obtain ⟨sources, hsources, rfl, -⟩ := h
    exact ⟨sources, hsources, rfl⟩
  | upkeep w => exact .inr (.inr rfl)

/-- What a transaction does to the state: nothing, or one write. -/
theorem commit_cases (py : Builtins) (cal : Calendar) (op : Op) (view : ℕ → State) (s : State) :
    (commit py cal op view s).1 = s ∨
      op.Commits cal view s (commit py cal op view s).1 (commit py cal op view s).2 := by
  rcases commit_outcome py cal op view s with ⟨e, hraised⟩ | hanswers | hcommits
  · exact .inl (by rw [hraised])
  · exact .inl hanswers.2
  · exact .inr hcommits

/-! ## The mutation of a write -/

theorem Op.names_of_fields {outcome : WriteOutcome} {fields : List (String × Json)}
    (hdata : outcome.data = Dict.ofFields fields)
    (htarget : fields.reverse.lookup op.targetField = some (.str (op.target m).str))
    (hrefs : outcome.mutationRefs = [m.id.str]) : op.Names m (.outcome outcome) := by
  refine ⟨?_, congrArg some hrefs⟩
  show outcome.data.get op.targetField = _
  rw [hdata, Dict.get_ofFields]
  exact htarget

theorem tells_of_fields {field : String} {fields : List (String × Json)} {version : ℕ}
    (hafter : m.after = Dict.ofFields fields)
    (hversion : fields.reverse.lookup field = some (.num version)) : m.Tells field := by
  refine ⟨.num version, ?_, ?_⟩
  · rw [hafter, Dict.get_ofFields]
    exact hversion
  · simp [isInt]

/-- The rows that an answer is read from, where no transaction takes them away. -/
def Op.Lasting (op : Op) (m : StateMutation) (s : State) : Prop :=
  match op with
  | .createTask c _ => ∃ r ∈ s.tasks, r.id = m.targetId ∧ r.userId = c.userId
  | .deleteFile c _ => ∃ r ∈ s.sources, r.id = c.sourceId ∧ r.userId = c.userId
  | _ => True

/-- The mutation that a write recorded: its answer names it, and it tells what an answer to the same
call needs. -/
structure Op.Audited (op : Op) (view : ℕ → State) (s s' : State) (reply : Reply)
    (m : StateMutation) : Prop where
  inserted : s.mutations.insert? m = some s'.mutations
  request : op.request = some (m.userId, m.idempotencyKey)
  names : op.AnswersOutcome → op.Names m reply
  valid : op.Valid
  tells : ∀ field, op.versionField = some field → m.Tells field
  lasting : op.Lasting m s' ∨ op.Lasting m (view 1)

/-- A write that is carried out records a mutation. -/
theorem Op.Commits.audited (hrequest : op.request ≠ none)
    (h : op.Commits cal view s s' reply) : ∃ m, op.Audited view s s' reply m := by
  cases op <;> first | exact absurd rfl hrequest | skip
  case createThing c fresh =>
    obtain ⟨⟨hvalid, _, -, hrecorded⟩, rfl⟩ := h
    exact ⟨_, hrecorded.mutation, rfl,
      fun _ => Op.names_of_fields rfl rfl rfl, hvalid, nofun, .inl trivial⟩
  case updateThing c fresh =>
    obtain ⟨_, _, hrevises, -⟩ := h
    exact ⟨_, hrevises.recorded.mutation, rfl,
      fun h => absurd h id, hrevises.edits, nofun, .inl trivial⟩
  case changeArchive c fresh =>
    obtain ⟨thing, hchanges, rfl⟩ := h
    have hid : (c.changed thing (fresh 0).now).id = thing.id := hchanges.writes.id_eq
    refine ⟨_, hchanges.recorded.mutation, rfl,
      fun _ => Op.names_of_fields rfl ?_ rfl, trivial, nofun, .inl trivial⟩
    exact congrArg (fun id : UUID => some (Json.str id.str)) hid
  case deleteThing c fresh =>
    obtain ⟨_, hdeletes, rfl⟩ := h
    refine ⟨_, hdeletes.recorded.mutation, rfl,
      fun _ => Op.names_of_fields rfl rfl rfl, trivial, ?_, .inl trivial⟩
    rintro _ ⟨rfl⟩
    exact tells_of_fields rfl rfl
  case mergeThings c fresh =>
    obtain ⟨canonical, duplicate, hmerges, rfl⟩ := h
    obtain ⟨s₁, hrebound, hrecorded⟩ := hmerges.rebound
    obtain ⟨-, -, -, hmutations, -⟩ := rebind_ok hrebound
    refine ⟨c.mutated canonical duplicate fresh, ?_, rfl,
      fun _ => Op.names_of_fields rfl rfl rfl, hmerges.distinct, ?_, .inl trivial⟩
    · rw [← hrecorded.mutation, hmutations]
    · rintro _ ⟨rfl⟩
      exact tells_of_fields rfl rfl
  case setDeadline c fresh =>
    obtain ⟨thing, value, hadds, rfl⟩ := h
    have hinserted : s.mutations.insert? (c.mutated cal thing value fresh) = some s'.mutations := by
      cases hprimary : c.isPrimary with
      | false =>
        obtain ⟨_, -, hrecorded⟩ := hadds.plain hprimary
        exact hrecorded.mutation
      | true =>
        obtain ⟨_, -, -, hrecorded⟩ := hadds.primary hprimary
        exact hrecorded.mutation
    refine ⟨_, hinserted, rfl,
      fun _ => Op.names_of_fields rfl rfl rfl, ⟨value, hadds.valid⟩, ?_, .inl trivial⟩
    rintro _ ⟨rfl⟩
    refine ⟨.num (c.newThing thing value (fresh 0).now).version, ?_, by simp [isInt]⟩
    simp only [SetDeadline.mutated, SetDeadline.mutation, Dict.get_ofFields]
    cases c.sourceId <;> rfl
  case updateDate c fresh =>
    obtain ⟨thing, date, value, hcorrects, rfl⟩ := h
    have hinserted : s.mutations.insert? (c.mutated cal thing date value fresh) =
        some s'.mutations := by
      obtain ⟨_, -, ⟨-, -, hrecorded⟩ | ⟨-, -, hrecorded⟩⟩ := hcorrects.stored
      · exact hrecorded.mutation
      · exact hrecorded.mutation
    refine ⟨_, hinserted, rfl, fun _ => Op.names_of_fields rfl rfl rfl, trivial, ?_, .inl trivial⟩
    rintro _ ⟨rfl⟩
    exact tells_of_fields rfl rfl
  case createTask c fresh =>
    obtain ⟨thing, hcreates, rfl⟩ := h
    obtain ⟨_, hinsert, hrecorded⟩ := hcreates.stored
    refine ⟨_, hrecorded.mutation, rfl, fun _ => Op.names_of_fields rfl rfl rfl,
      ⟨hcreates.titled, hcreates.recurs⟩, nofun, .inl ⟨c.task thing (fresh 0), ?_, rfl, rfl⟩⟩
    have htasks : s'.tasks = _ := congrArg (·.tasks) hrecorded.same
    rw [htasks]
    exact (Table.mem_insert? hinsert).mpr (.inr rfl)
  case transitionTask c fresh =>
    obtain ⟨task, task', hchanges, rfl⟩ := h
    refine ⟨_, hchanges.recorded.mutation, rfl,
      fun _ => Op.names_of_fields rfl ?_ rfl, trivial, ?_, .inl trivial⟩
    · exact congrArg (fun id : UUID => some (Json.str id.str)) hchanges.writes.id_eq
    · rintro _ ⟨rfl⟩
      exact tells_of_fields rfl rfl
  case completeTask c fresh =>
    obtain ⟨task, task', hcompletes, rfl⟩ := h
    refine ⟨_, hcompletes.recorded.mutation, rfl,
      fun _ => Op.names_of_fields rfl ?_ rfl, trivial, ?_, .inl trivial⟩
    · exact congrArg (fun id : UUID => some (Json.str id.str)) hcompletes.writes.id_eq
    · rintro _ ⟨rfl⟩
      exact tells_of_fields rfl rfl
  case createBlocker c fresh =>
    obtain ⟨hcreates, rfl⟩ := h
    obtain ⟨_, -, hrecorded⟩ := hcreates.stored
    exact ⟨_, hrecorded.mutation, rfl,
      fun _ => Op.names_of_fields rfl rfl rfl, hcreates.described, nofun, .inl trivial⟩
  case resolveBlocker c fresh =>
    obtain ⟨_, hresolves, rfl⟩ := h
    refine ⟨_, hresolves.recorded.mutation, rfl,
      fun _ => Op.names_of_fields rfl rfl rfl, trivial, ?_, .inl trivial⟩
    rintro _ ⟨rfl⟩
    exact tells_of_fields rfl rfl
  case setThingContext c fresh =>
    obtain ⟨existing, hsets, rfl⟩ := h
    have hinserted : s.mutations.insert? (c.mutation existing (c.result existing (fresh 0))
        (fresh 1)) = some s'.mutations := by
      obtain ⟨rfl, hadds⟩ | ⟨_, rfl, hrevises⟩ := hsets.stored
      · obtain ⟨_, -, hrecorded⟩ := hadds.stored
        exact hrecorded.mutation
      · exact hrevises.recorded.mutation
    refine ⟨_, hinserted, rfl,
      fun _ => Op.names_of_fields rfl rfl rfl, hsets.valid, ?_, .inl trivial⟩
    rintro _ ⟨rfl⟩
    exact tells_of_fields rfl rfl
  case linkToThing c fresh =>
    exact ⟨_, h.1.recorded.mutation, rfl, fun h => absurd h id, h.1.valid, nofun, .inl trivial⟩
  case addRelation c fresh =>
    exact ⟨_, h.1.recorded.mutation, rfl, fun h => absurd h id, trivial, nofun, .inl trivial⟩
  case deleteFile c fresh =>
    obtain ⟨hdeletes, rfl⟩ := h
    obtain ⟨source, hsource⟩ := Option.isSome_iff_exists.mp hdeletes.found
    obtain ⟨hmem, hp⟩ := Table.get_eq_some hsource
    simp only [decide_eq_true_eq] at hp
    exact ⟨_, hdeletes.recorded.mutation, rfl, fun _ => Op.names_of_fields rfl rfl rfl, trivial,
      nofun, .inr ⟨source, hmem, hp.1, hp.2.1⟩⟩

/-- A transaction that does anything is new. -/
theorem Op.Commits.isNew (h : op.Commits cal view s s' reply) : op.IsNew s := by
  -- a write that records a mutation stores it, so no mutation had its key
  have haudited : ∀ key, op.auditKey = some key → ∀ m ∈ s.mutations, m.idempotencyKey ≠ key := by
    intro key hkey
    obtain ⟨request, hrequest, rfl⟩ := Option.map_eq_some_iff.mp hkey
    obtain ⟨m, haudited⟩ := h.audited (by rw [hrequest]; exact Option.some_ne_none _)
    obtain rfl := Option.some.inj (hrequest.symm.trans haudited.request)
    exact fun r hr hsame => Table.not_conflict_of_insert? haudited.inserted hr (.inr hsame)
  cases op with
  | createAutomation c stamp =>
    obtain ⟨_, _, hautomations, -⟩ := h
    exact fun r hr hsame => Table.not_conflict_of_insert? hautomations hr (.inr hsame)
  | createMemory c stamp =>
    obtain ⟨hsuppressed, hduplicates, _, before, _, hbefore, hmemories, -⟩ := h
    refine ⟨hsuppressed, hduplicates, fun r hr ⟨huser, hkey⟩ => ?_⟩
    obtain ⟨r', hr', huser', hkey'⟩ := supersede_kept hbefore hr
    exact Table.not_conflict_of_insert? hmemories hr'
      (.inr (.inl ⟨huser'.trans huser, hkey'.trans hkey⟩))
  | createThread userId title key activeThingId stamp =>
    obtain ⟨_, _, huser, hkey, -, hthreads, -⟩ := h
    refine fun r hr ⟨huser', hkey'⟩ => Table.not_conflict_of_insert? hthreads hr (.inr ?_)
    exact ⟨huser'.trans huser.symm, hkey'.trans hkey.symm⟩
  | automationThread c stamp =>
    obtain ⟨_, _, huser, hkey, -, hthreads, -⟩ := h
    refine fun r hr ⟨huser', hkey'⟩ => Table.not_conflict_of_insert? hthreads hr (.inr ?_)
    exact ⟨huser'.trans huser.symm, hkey'.trans hkey.symm⟩
  | _ => exact haudited

/-! ## What stays -/

/-- What no transaction takes away: the mutations stay as they are, and Tasks and Sources belong to
their users. -/
structure Kept (s s' : State) : Prop where
  mutations : ∀ m ∈ s.mutations, m ∈ s'.mutations
  tasks : Table.Evolves Task.id (fun r r' => r'.userId = r.userId) s.tasks s'.tasks
  sources : Table.Evolves Source.id (fun r r' => r'.userId = r.userId) s.sources s'.sources

theorem Kept.of_same (hmutations : s'.mutations = s.mutations) (htasks : s'.tasks = s.tasks)
    (hsources : s'.sources = s.sources) : Kept s s' := by
  refine ⟨fun m hm => hmutations ▸ hm, ?_, ?_⟩
  · rw [htasks]
    exact .refl (by exact fun _ => rfl) _
  · rw [hsources]
    exact .refl (by exact fun _ => rfl) _

theorem Recorded.kept {event : Option TimelineEvent} (h : Recorded m event mid s')
    (hmid : Kept s mid) : Kept s s' := by
  refine ⟨fun r hr => (Table.mem_insert? h.mutation).mpr (.inl (hmid.mutations r hr)), ?_, ?_⟩
  · have htasks : s'.tasks = mid.tasks := congrArg (·.tasks) h.same
    rw [htasks]
    exact hmid.tasks
  · have hsources : s'.sources = mid.sources := congrArg (·.sources) h.same
    rw [hsources]
    exact hmid.sources

theorem Op.Commits.kept (h : op.Commits cal view s s' reply) : Kept s s' := by
  have hrefl : Kept s s := .of_same rfl rfl rfl
  cases op with
  | createThing c fresh =>
    obtain ⟨⟨-, _, -, hrecorded⟩, -⟩ := h
    exact hrecorded.kept (.of_same rfl rfl rfl)
  | updateThing c fresh =>
    obtain ⟨_, _, hrevises, -⟩ := h
    exact hrevises.recorded.kept (.of_same rfl rfl rfl)
  | changeArchive c fresh =>
    obtain ⟨_, hchanges, -⟩ := h
    exact hchanges.recorded.kept (.of_same rfl rfl rfl)
  | deleteThing c fresh =>
    obtain ⟨_, hdeletes, -⟩ := h
    exact hdeletes.recorded.kept { hrefl with
      tasks := .of_rows rfl (by exact fun _ => ⟨rfl, rfl⟩) (by exact fun _ => rfl) }
  | mergeThings c fresh =>
    obtain ⟨_, _, hmerges, -⟩ := h
    obtain ⟨s₁, hrebound, hrecorded⟩ := hmerges.rebound
    simp only [rebindMergedReferences, bind_eq_ok, orRaise_eq_ok, pure_eq_ok] at hrebound
    obtain ⟨_, -, rfl⟩ := hrebound
    exact hrecorded.kept { hrefl with
      tasks := .of_rows rfl (by exact fun _ => ⟨rfl, rfl⟩) (by exact fun _ => rfl) }
  | setDeadline c fresh =>
    obtain ⟨_, _, hadds, -⟩ := h
    cases hprimary : c.isPrimary with
    | false =>
      obtain ⟨_, -, hrecorded⟩ := hadds.plain hprimary
      exact hrecorded.kept (.of_same rfl rfl rfl)
    | true =>
      obtain ⟨_, -, -, hrecorded⟩ := hadds.primary hprimary
      exact hrecorded.kept (.of_same rfl rfl rfl)
  | updateDate c fresh =>
    obtain ⟨_, _, _, hcorrects, -⟩ := h
    obtain ⟨_, -, ⟨-, -, hrecorded⟩ | ⟨-, -, hrecorded⟩⟩ := hcorrects.stored
    · exact hrecorded.kept (.of_same rfl rfl rfl)
    · exact hrecorded.kept (.of_same rfl rfl rfl)
  | createTask c fresh =>
    obtain ⟨_, ⟨-, -, -, _, hinsert, hrecorded⟩, -⟩ := h
    exact hrecorded.kept { hrefl with tasks := .insert? (by exact fun _ => rfl) hinsert }
  | transitionTask c fresh =>
    obtain ⟨_, _, hchanges, -⟩ := h
    exact hchanges.recorded.kept
      { hrefl with tasks := .of_rows rfl (by exact fun _ => ⟨rfl, rfl⟩) (by exact fun _ => rfl) }
  | completeTask c fresh =>
    obtain ⟨_, _, hcompletes, -⟩ := h
    exact hcompletes.recorded.kept
      { hrefl with tasks := .of_rows rfl (by exact fun _ => ⟨rfl, rfl⟩) (by exact fun _ => rfl) }
  | createBlocker c fresh =>
    obtain ⟨⟨-, -, _, -, hrecorded⟩, -⟩ := h
    exact hrecorded.kept (.of_same rfl rfl rfl)
  | resolveBlocker c fresh =>
    obtain ⟨_, hresolves, -⟩ := h
    exact hresolves.recorded.kept (.of_same rfl rfl rfl)
  | setThingContext c fresh =>
    obtain ⟨_, ⟨-, -, ⟨-, hadds⟩ | ⟨_, -, hrevises⟩⟩, -⟩ := h
    · obtain ⟨_, -, hrecorded⟩ := hadds.stored
      exact hrecorded.kept (.of_same rfl rfl rfl)
    · exact hrevises.recorded.kept (.of_same rfl rfl rfl)
  | linkToThing c fresh => exact h.1.recorded.kept (.of_same rfl rfl rfl)
  | addRelation c fresh => exact h.1.recorded.kept (.of_same rfl rfl rfl)
  | deleteFile c fresh =>
    exact h.1.recorded.kept { hrefl with
      sources := .of_rows rfl (by exact fun _ => ⟨rfl, rfl⟩) (by exact fun _ => rfl) }
  | createAutomation c stamp =>
    obtain ⟨_, _, -, rfl⟩ := h
    exact .of_same rfl rfl rfl
  | createMemory c stamp =>
    obtain ⟨-, -, _, _, _, -, -, rfl⟩ := h
    exact .of_same rfl rfl rfl
  | createThread userId title key activeThingId stamp =>
    obtain ⟨_, _, -, -, -, -, rfl⟩ := h
    exact .of_same rfl rfl rfl
  | automationThread c stamp =>
    obtain ⟨_, _, -, -, -, -, rfl⟩ := h
    exact .of_same rfl rfl rfl
  | addSource source =>
    obtain ⟨_, hsources, rfl⟩ := h
    exact { hrefl with sources := .insert? (by exact fun _ => rfl) hsources }
  | upkeep w =>
    have heq : s' = w.apply s := h
    rw [heq]
    exact .of_same rfl rfl rfl

/-! ## What most transactions leave alone -/

/-- The tables that most writes do not touch. -/
structure SameAside (s s' : State) : Prop where
  sources : s'.sources = s.sources
  relations : s'.relations = s.relations
  automations : s'.automations = s.automations
  memories : s'.memories = s.memories
  threads : s'.threads = s.threads

theorem Recorded.aside {event : Option TimelineEvent} (h : Recorded m event mid s')
    (hsame : SameAside s mid) : SameAside s s' :=
  ⟨(congrArg (·.sources) h.same).trans hsame.sources,
    (congrArg (·.relations) h.same).trans hsame.relations,
    (congrArg (·.automations) h.same).trans hsame.automations,
    (congrArg (·.memories) h.same).trans hsame.memories,
    (congrArg (·.threads) h.same).trans hsame.threads⟩

/-- A transaction that touches one of them. -/
def Op.TouchesAside : Op → Prop
  | .deleteThing _ _ | .mergeThings _ _ | .addRelation _ _ | .deleteFile _ _ | .createAutomation _ _
  | .createMemory _ _ | .createThread _ _ _ _ _ | .automationThread _ _ | .addSource _
  | .upkeep _ => True
  | _ => False

/-- Every other transaction leaves the tables alone. -/
theorem Op.Commits.aside (h : op.Commits cal view s s' reply) :
    op.TouchesAside ∨ SameAside s s' := by
  cases op with
  | createThing c fresh =>
    obtain ⟨⟨-, things, -, hrecorded⟩, -⟩ := h
    exact .inr (hrecorded.aside ⟨rfl, rfl, rfl, rfl, rfl⟩)
  | updateThing c fresh =>
    obtain ⟨_, _, hrevises, -⟩ := h
    exact .inr (hrevises.recorded.aside ⟨rfl, rfl, rfl, rfl, rfl⟩)
  | changeArchive c fresh =>
    obtain ⟨_, hchanges, -⟩ := h
    exact .inr (hchanges.recorded.aside ⟨rfl, rfl, rfl, rfl, rfl⟩)
  | setDeadline c fresh =>
    obtain ⟨thing, value, hadds, -⟩ := h
    cases hprimary : c.isPrimary with
    | false =>
      obtain ⟨_, -, hrecorded⟩ := hadds.plain hprimary
      exact .inr (hrecorded.aside ⟨rfl, rfl, rfl, rfl, rfl⟩)
    | true =>
      obtain ⟨_, -, -, hrecorded⟩ := hadds.primary hprimary
      exact .inr (hrecorded.aside ⟨rfl, rfl, rfl, rfl, rfl⟩)
  | updateDate c fresh =>
    obtain ⟨thing, date, value, hcorrects, -⟩ := h
    obtain ⟨_, -, ⟨-, -, hrecorded⟩ | ⟨-, -, hrecorded⟩⟩ := hcorrects.stored
    · exact .inr (hrecorded.aside ⟨rfl, rfl, rfl, rfl, rfl⟩)
    · exact .inr (hrecorded.aside ⟨rfl, rfl, rfl, rfl, rfl⟩)
  | createTask c fresh =>
    obtain ⟨_, ⟨-, -, -, _, -, hrecorded⟩, -⟩ := h
    exact .inr (hrecorded.aside ⟨rfl, rfl, rfl, rfl, rfl⟩)
  | transitionTask c fresh =>
    obtain ⟨_, _, hchanges, -⟩ := h
    exact .inr (hchanges.recorded.aside ⟨rfl, rfl, rfl, rfl, rfl⟩)
  | completeTask c fresh =>
    obtain ⟨_, _, hcompletes, -⟩ := h
    exact .inr (hcompletes.recorded.aside ⟨rfl, rfl, rfl, rfl, rfl⟩)
  | createBlocker c fresh =>
    obtain ⟨_, -, hrecorded⟩ := h.1.stored
    exact .inr (hrecorded.aside ⟨rfl, rfl, rfl, rfl, rfl⟩)
  | resolveBlocker c fresh =>
    obtain ⟨_, hresolves, -⟩ := h
    exact .inr (hresolves.recorded.aside ⟨rfl, rfl, rfl, rfl, rfl⟩)
  | setThingContext c fresh =>
    obtain ⟨_, ⟨-, -, ⟨-, hadds⟩ | ⟨_, -, hrevises⟩⟩, -⟩ := h
    · obtain ⟨_, -, hrecorded⟩ := hadds.stored
      exact .inr (hrecorded.aside ⟨rfl, rfl, rfl, rfl, rfl⟩)
    · exact .inr (hrevises.recorded.aside ⟨rfl, rfl, rfl, rfl, rfl⟩)
  | linkToThing c fresh => exact .inr (h.1.recorded.aside ⟨rfl, rfl, rfl, rfl, rfl⟩)
  | deleteThing | mergeThings | addRelation | deleteFile | createAutomation | createMemory
  | createThread | automationThread | addSource | upkeep =>
    exact .inl trivial

end PersonalState
