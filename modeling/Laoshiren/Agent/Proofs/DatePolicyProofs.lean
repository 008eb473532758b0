import Laoshiren.Agent.DateTools
import Laoshiren.Agent.Proofs.StateToolProofs
import Laoshiren.PersonalState.Proofs.WriteProofs

/-!
# Proofs: the policy of `thing_date_set` and its execution

The policy lets a call through that is backed and not guarded, and the guard looks for a field that the
prefetched Thing does not have. So what a backed call does to the deadline and to the dates is what the
write does.
-/

namespace Agent

open Raise Runtime PersonalState StateTools

variable {py : Builtins} {cal : Calendar} {call : ToolCall} {db db' : Records} {thing : Thing}
  {s : GraphState} {outcome : WriteOutcome}

/-! ## The policy -/

theorem evaluate_thingDateSet (policy : ToolPolicy) (py : Builtins) (s : GraphState)
    (arguments : Dict) : policy.evaluate py thingDateSet (some s) arguments =
      some ((ToolPolicy.evaluateDate py (some s) arguments).getD
        ⟨.requireConfirmation, "CONFIRMATION_REQUIRED", "Explicit user confirmation is required."⟩) := by
  rfl

/-- The policy lets a call through that is backed and not guarded. -/
theorem allowed_iff (policy : ToolPolicy) (py : Builtins) (s : GraphState) (arguments : Dict) :
    Allowed policy py s arguments ↔ Backed py s arguments ∧ ¬ Guarded py s arguments := by
  unfold Allowed
  rw [evaluate_thingDateSet]
  simp only [Option.some.injEq, exists_eq_left']
  unfold ToolPolicy.evaluateDate Backed Guarded
  simp only [Option.any_some]
  by_cases hconfirmed : DateCertainty.ofText (py.str ((arguments.get "certainty").getD .null)) =
    some .confirmed
  · by_cases hguard : parseBool (arguments.get "is_primary") true = true ∧
        py.str ((arguments.get "thing_id").getD (.str "")) ≠ "" ∧
        prefetchedThingHasDeadline py s (py.str ((arguments.get "thing_id").getD (.str ""))) = true
    · by_cases hsource : hasSourceProvenance arguments = true <;>
        by_cases hevidence : hasVerifiedSearchEvidence (some s) arguments = true <;>
        simp [hconfirmed, hsource, hevidence, hguard.1, hguard.2.1, hguard.2.2]
    · by_cases hsource : hasSourceProvenance arguments = true
      · simp [hconfirmed, hsource, hguard]
      · by_cases hevidence : hasVerifiedSearchEvidence (some s) arguments = true
        · simp [hconfirmed, hsource, hevidence, hguard]
        · by_cases hprimary : parseBool (arguments.get "is_primary") true = true <;>
            simp [hconfirmed, hsource, hevidence, hprimary]
  · simp [hconfirmed]

/-- The guard looks for the field `thing_id`, which the payload of a prefetched Thing does not have. -/
theorem not_guarded_of_prefetched {tasks : List TaskDTO} {blockers : List BlockerDTO}
    {dates : List ThingDate} {matchReason : String}
    (hprefetch : s.prefetchedState.get "active_thing_context" =
      some (.obj (thingPrefetchPayload cal thing tasks blockers dates matchReason)))
    (arguments : Dict) : ¬ Guarded py s arguments := by
  rintro ⟨-, hthing, hdeadline⟩
  unfold prefetchedThingHasDeadline at hdeadline
  rw [hprefetch] at hdeadline
  have hnone : (thingPrefetchPayload cal thing tasks blockers dates matchReason).get "thing_id" =
      none := by
    refine Dict.get_ofFields_of_not_mem ?_
    simp only [List.map_cons, List.map_nil]
    decide
  simp only [Option.getD_some, decide_eq_true_eq] at hdeadline
  rw [hnone] at hdeadline
  exact hthing hdeadline.1.symm

/-! ## The write of a call -/

theorem plan_of_operation {ops : WriteOps Records} (hname : call.name = "thing_date_set") {v : Json}
    (hv : call.arguments.get "operation" = some v) :
    call.plan ops = some (setThingDate ops.py call.arguments) := by
  have hget : StateTools.registry.get "thing_date_set" = some thingDateSet := by decide +kernel
  have hhandler : StateTools.handler ops "thing_date_set" = setThingDate ops.py := rfl
  unfold ToolCall.plan
  rw [hname, hget, hhandler, Option.bind_some, if_pos (by simp [thingDateSet, hv])]

theorem plan_of_no_operation {ops : WriteOps Records} (hname : call.name = "thing_date_set")
    (hv : call.arguments.get "operation" = none) : call.plan ops = none := by
  have hget : StateTools.registry.get "thing_date_set" = some thingDateSet := by decide +kernel
  unfold ToolCall.plan
  rw [hname, hget, Option.bind_some, if_neg (by simp [thingDateSet, hv])]

/-- A call of `thing_date_set` that writes sets a deadline or corrects a date. -/
theorem run_eq_some {others : WriteOps Records} (hname : call.name = "thing_date_set") :
    call.run (recordOps others cal) db = some (db', outcome) ↔
      (operation others.py call = some "CREATE" ∧
        ∃ c, setDeadlineOf others.py cal call.context call.arguments = .ok c ∧
          applySetDeadline cal c call.fresh db = .ok (db', outcome)) ∨
      (operation others.py call = some "CORRECT" ∧
        ∃ c, updateDateOf others.py cal call.context call.arguments = .ok c ∧
          applyUpdateDate cal c call.fresh db = .ok (db', outcome)) := by
  unfold operation
  cases hv : call.arguments.get "operation" with
  | none =>
    unfold ToolCall.run
    rw [plan_of_no_operation hname hv]
    simp
  | some v =>
    have hplan : call.plan (recordOps others cal) = some (setThingDate others.py call.arguments) :=
      plan_of_operation hname hv
    have htext : StateTools.text others.py call.arguments "operation" = .ok (others.py.str v) := by
      simp only [StateTools.text, hv, bind_eq_ok, orRaise_eq_ok, pure_eq_ok]
      exact ⟨v, rfl, rfl⟩
    rw [Option.map_some]
    by_cases hcreate : others.py.str v = "CREATE"
    · have hwrites : call.Writes (recordOps others cal)
          ⟨.setDeadline, "thing_date_set", "DEADLINE_SET", "Deadline set.", call.arguments⟩ := by
        refine Or.inl (hplan.trans (congrArg some ?_))
        simp only [setThingDate, bind_eq_ok, htext]
        exact ⟨_, rfl, by rw [if_pos hcreate]; rfl⟩
      rw [ToolCall.run_of_writes hwrites, toOption_eq_some, hcreate]
      show (setDeadlineOf others.py cal call.context call.arguments >>= fun c =>
        applySetDeadline cal c call.fresh db) = .ok (db', outcome) ↔ _
      simp
    · by_cases hcorrect : others.py.str v = "CORRECT"
      · have hwrites : call.Writes (recordOps others cal)
            ⟨.updateDate, "thing_date_set", "DATE_UPDATED", "Date updated.", call.arguments⟩ := by
          refine Or.inl (hplan.trans (congrArg some ?_))
          simp only [setThingDate, bind_eq_ok, htext]
          exact ⟨_, rfl, by rw [if_neg hcreate, if_pos hcorrect]; rfl⟩
        rw [ToolCall.run_of_writes hwrites, toOption_eq_some, hcorrect]
        show (updateDateOf others.py cal call.context call.arguments >>= fun c =>
          applyUpdateDate cal c call.fresh db) = .ok (db', outcome) ↔ _
        simp
      · have hraises : setThingDate others.py call.arguments =
            .error (.valueError "Unsupported ThingDate operation.") := by
          unfold setThingDate
          rw [htext]
          show (if _ then _ else if _ then _ else _) = _
          rw [if_neg hcreate, if_neg hcorrect]
          rfl
        unfold ToolCall.run
        rw [hplan, hraises]
        simp [hcreate, hcorrect]

/-! ## Deadlines -/

/-- Two Things of a table with the same id are one. -/
theorem thing_ext {thing thing' : Thing} (hmem : thing ∈ db.things) (hmem' : thing' ∈ db.things)
    (hid : thing.id = thing'.id) : thing = thing' := Table.eq_of_conflict hmem hmem' hid

/-- A call that does not overwrite the deadline leaves it. -/
theorem deadline_of_not_overwrites {others : WriteOps Records} (hname : call.name = "thing_date_set")
    (hmem : thing ∈ db.things) {old : Timestamp} (hold : thing.deadlineAt = some old)
    (hkeeps : ¬ Overwrites others.py cal call db thing) :
    (call.leaves (recordOps others cal) db).deadline thing.id = some old := by
  have hbefore : db.deadline thing.id = some old := (deadline_of_mem hmem).trans hold
  unfold ToolCall.leaves
  cases hrun : call.run (recordOps others cal) db with
  | none => exact hbefore
  | some written =>
    obtain ⟨db', outcome⟩ := written
    show db'.deadline thing.id = some old
    rcases (run_eq_some hname).mp hrun with ⟨hoperation, c, hc, happly⟩ | ⟨hoperation, c, hc, happly⟩
    · rcases applySetDeadline_ok happly with
        ⟨-, -, -, -, -, rfl⟩ | ⟨thing', value, haccepted, hleaves⟩
      · exact hbefore
      · rw [hleaves.deadline]
        split
        case isTrue h =>
          obtain ⟨hprimary, hid⟩ := h
          obtain rfl := thing_ext hmem (ThingRepository.get_eq_some haccepted.found).1 hid
          by_contra hnew
          exact hkeeps (.create hoperation hc haccepted hold hprimary fun h => hnew (by rw [h]))
        case isFalse => exact hbefore
    · rcases applyUpdateDate_ok happly with
        ⟨-, -, -, rfl⟩ | ⟨thing', date, value, haccepted, hleaves⟩
      · exact hbefore
      · rw [hleaves.deadline]
        split
        case isTrue hid =>
          obtain rfl := thing_ext hmem (ThingRepository.get_eq_some haccepted.found).1 hid
          by_contra hnew
          refine hkeeps (.correct hoperation hc haccepted hold ?_)
          unfold UpdateDate.newDeadline at hnew
          cases hprimary : c.isPrimary with
          | true =>
            rw [if_pos hprimary] at hnew
            exact Or.inl ⟨rfl, fun h => hnew (by rw [h])⟩
          | false =>
            rw [if_neg (by simp [hprimary])] at hnew
            cases hwas : date.isPrimary with
            | true => exact Or.inr ⟨rfl, rfl⟩
            | false =>
              rw [if_neg (by simp [hwas])] at hnew
              exact absurd hold hnew
        case isFalse => exact hbefore

/-- A call that overwrites the deadline leaves another one, or none. -/
theorem deadline_of_overwrites {others : WriteOps Records} (hname : call.name = "thing_date_set")
    (h : Overwrites others.py cal call db thing) :
    ∃ old, thing.deadlineAt = some old ∧
      (call.leaves (recordOps others cal) db).deadline thing.id ≠ some old := by
  cases h with
  | @create c value old hoperation hc haccepted hold hprimary hnew =>
    obtain ⟨db', outcome, happly, hleaves⟩ := haccepted.exists_leaves cal
    have hrun : call.run (recordOps others cal) db = some _ := (run_eq_some hname).mpr (Or.inl ⟨hoperation, c, hc, happly⟩)
    refine ⟨old, hold, ?_⟩
    rw [ToolCall.leaves, hrun]
    show db'.deadline thing.id ≠ some old
    rw [hleaves.deadline, if_pos ⟨hprimary, rfl⟩]
    simpa using hnew
  | @correct c date value old hoperation hc haccepted hold hnew =>
    obtain ⟨db', outcome, happly, hleaves⟩ := haccepted.exists_leaves cal
    have hrun : call.run (recordOps others cal) db = some _ := (run_eq_some hname).mpr (Or.inr ⟨hoperation, c, hc, happly⟩)
    refine ⟨old, hold, ?_⟩
    rw [ToolCall.leaves, hrun]
    show db'.deadline thing.id ≠ some old
    rw [hleaves.deadline, if_pos rfl]
    unfold UpdateDate.newDeadline
    rcases hnew with ⟨hprimary, hnew⟩ | ⟨hprimary, hwas⟩
    · rw [if_pos hprimary]
      simpa using hnew
    · rw [if_neg (by simp [hprimary]), if_pos hwas]
      simp

/-- A call of `thing_date_set` that the policy lets through keeps the deadline of the prefetched Thing,
if and only if it is not backed, or does not overwrite the deadline: the guard of the policy never
stops it. -/
theorem deadline_kept_iff (policy : ToolPolicy) (others : WriteOps Records) (cal : Calendar)
    (call : ToolCall) (s : GraphState) (db : Records) (thing : Thing)
    (hname : call.name = "thing_date_set")
    (hthing : ThingRepository.get call.context.userId thing.id db.things = some thing)
    (tasks : List TaskDTO) (blockers : List BlockerDTO) (dates : List ThingDate)
    (matchReason : String)
    (hprefetch : s.prefetchedState.get "active_thing_context" =
      some (.obj (thingPrefetchPayload cal thing tasks blockers dates matchReason))) :
    (Allowed policy others.py s call.arguments → ∀ old, thing.deadlineAt = some old →
      (call.leaves (recordOps others cal) db).deadline thing.id = some old) ↔
    ¬ (Backed others.py s call.arguments ∧ Overwrites others.py cal call db thing) := by
  have hguard : ¬ Guarded others.py s call.arguments :=
    not_guarded_of_prefetched hprefetch call.arguments
  constructor
  · rintro hkept ⟨hbacked, hoverwrites⟩
    obtain ⟨old, hold, hchanged⟩ := deadline_of_overwrites hname hoverwrites
    exact hchanged (hkept ((allowed_iff policy _ _ _).mpr ⟨hbacked, hguard⟩) old hold)
  · intro hnot hallowed old hold
    obtain ⟨hbacked, -⟩ := (allowed_iff policy _ _ _).mp hallowed
    exact deadline_of_not_overwrites hname (ThingRepository.get_eq_some hthing).1 hold
      fun hoverwrites => hnot ⟨hbacked, hoverwrites⟩

/-- The state of a graph that has the Thing 5 prefetched. -/
def moveState : GraphState where
  prefetchedState :=
    [("active_thing_context", .obj (thingPrefetchPayload springCalendar moveThing [] [] [] "active"))]

/-- The deadline of the prefetched Thing is moved with a Source, and nobody is asked. -/
theorem deadline_overwritten :
    Allowed {} moveOps.py moveState moveWithSource.arguments ∧
    moveThing.deadlineAt = some 1777593600000000 ∧
    (moveWithSource.leaves moveOps moveRecords).deadline moveThing.id = some 1780272000000000 :=
  ⟨⟨_, rfl, by decide +kernel⟩, rfl, by decide +kernel⟩

/-- The same call as a case of the general statement. -/
theorem deadline_kept_iff_moveWithSource :
    (Allowed {} noOps.py moveState moveWithSource.arguments →
      ∀ old, moveThing.deadlineAt = some old →
        (moveWithSource.leaves moveOps moveRecords).deadline moveThing.id = some old) ↔
    ¬ (Backed noOps.py moveState moveWithSource.arguments ∧
      Overwrites noOps.py springCalendar moveWithSource moveRecords moveThing) :=
  deadline_kept_iff {} noOps springCalendar moveWithSource moveState moveRecords moveThing rfl
    (by decide) [] [] [] "active" rfl

/-! ## Provenance -/

theorem setDeadlineOf_ok {context : ToolExecutionContext} {arguments : Dict} {c : SetDeadline}
    (h : setDeadlineOf py cal context arguments = .ok c) : c.userId = context.userId := by
  simp only [setDeadlineOf, bind_eq_ok, pure_eq_ok] at h
  obtain ⟨_, -, _, -, _, -, _, -, _, -, _, -, _, -, _, -, rfl⟩ := h
  rfl

theorem updateDateOf_ok {context : ToolExecutionContext} {arguments : Dict} {c : UpdateDate}
    (h : updateDateOf py cal context arguments = .ok c) : c.userId = context.userId := by
  simp only [updateDateOf, bind_eq_ok, pure_eq_ok] at h
  obtain ⟨_, -, _, -, _, -, _, -, _, -, _, -, _, -, rfl⟩ := h
  rfl

theorem Sourced.of_sources {userId : UUID} {date : ThingDate} (hsources : db'.sources = db.sources) :
    Sourced db' userId date ↔ Sourced db userId date := by
  unfold Sourced
  rw [hsources]

theorem date_ext {date date' : ThingDate} (hmem : date ∈ db.dates) (hmem' : date' ∈ db.dates)
    (hid : date.id = date'.id) : date = date' := Table.eq_of_conflict hmem hmem' (Or.inl hid)

/-- The answer of a replay names the date of the earlier mutation. -/
theorem replayDate_ok {code message field error : String} {previous : StateMutation}
    (hfield : field ≠ "date_id") (h : replayDate code message field error previous = .ok outcome) :
    (∃ version, previous.after.get field = some version ∧ isInt version = true) ∧
      outcome.data.get "date_id" = some (.str previous.targetId.str) := by
  simp only [replayDate, bind_eq_ok, orRaise_eq_ok, pure_eq_ok, Option.filter_eq_some_iff] at h
  obtain ⟨version, hversion, rfl⟩ := h
  refine ⟨⟨version, hversion⟩, ?_⟩
  unfold Dict.ofFields Dict.merge
  simp [Dict.get_set_ne, Dict.get_set_self, hfield.symm]

theorem exists_replayDate (code message error : String) {field : String} {previous : StateMutation}
    (hversion : ∃ version, previous.after.get field = some version ∧ isInt version = true) :
    ∃ outcome, replayDate code message field error previous = .ok outcome := by
  obtain ⟨version, hversion⟩ := hversion
  simp only [replayDate, bind_eq_ok, orRaise_eq_ok, pure_eq_ok, Option.filter_eq_some_iff]
  exact ⟨_, version, hversion, rfl⟩

/-- The call writes `db'`, and `date` is a guess in it that the answer names. -/
structure Guesses (ops : WriteOps Records) (call : ToolCall) (db db' : Records)
    (outcome : WriteOutcome) (date : ThingDate) : Prop where
  run : call.run ops db = some (db', outcome)
  guess : Guess db' call.context.userId date
  named : outcome.data.get "date_id" = some (.str date.id.str)

/-- A call that leaves a guess is one of the four kinds. -/
theorem leavesGuess_of_guesses {others : WriteOps Records} (hname : call.name = "thing_date_set")
    {date : ThingDate} (h : Guesses (recordOps others cal) call db db' outcome date) :
    LeavesGuess others.py cal call db := by
  obtain ⟨hrun, hguess, hnamed⟩ := h
  have hid : ∀ id : UUID, outcome.data.get "date_id" = some (.str id.str) → date.id = id := by
    intro id hid
    rw [hnamed] at hid
    exact UUID.str_injective (Json.str.inj (Option.some.inj hid))
  rcases (run_eq_some hname).mp hrun with ⟨hoperation, c, hc, happly⟩ | ⟨hoperation, c, hc, happly⟩
  · rcases applySetDeadline_ok happly with
      ⟨value, previous, hvalid, hprevious, hreplay, rfl⟩ | ⟨thing, value, haccepted, hleaves⟩
    · obtain ⟨hversion, hdateId⟩ := replayDate_ok (by decide) hreplay
      exact .replayCreate hoperation hc hvalid ⟨hprevious, hversion⟩ hguess (hid _ hdateId)
    · obtain rfl := date_ext hguess.mem hleaves.written (hid _ hleaves.dateId)
      refine .create hoperation hc haccepted hguess.primary ?_
      cases hsource : c.sourceId with
      | none => rfl
      | some id =>
        refine absurd ?_ hguess.unsourced
        refine ⟨id, hsource, ?_⟩
        rw [hleaves.sources, ← setDeadlineOf_ok hc]
        exact haccepted.source id hsource
  · rcases applyUpdateDate_ok happly with
      ⟨previous, hprevious, hreplay, rfl⟩ | ⟨thing, date', value, haccepted, hleaves⟩
    · obtain ⟨hversion, hdateId⟩ := replayDate_ok (by decide) hreplay
      exact .replayCorrect hoperation hc ⟨hprevious, hversion⟩ hguess (hid _ hdateId)
    · obtain rfl := date_ext hguess.mem hleaves.written (hid _ hleaves.dateId)
      exact .correct hoperation hc haccepted hguess.primary
        fun hsourced => hguess.unsourced ((Sourced.of_sources hleaves.sources).mpr hsourced)

/-- Each of the four kinds leaves a guess. -/
theorem guesses_of_leavesGuess {others : WriteOps Records} (hname : call.name = "thing_date_set")
    (h : LeavesGuess others.py cal call db) :
    ∃ db' outcome date, Guesses (recordOps others cal) call db db' outcome date := by
  cases h with
  | @create c thing value hoperation hc haccepted hprimary hsource =>
    obtain ⟨db', outcome, happly, hleaves⟩ := haccepted.exists_leaves cal
    refine ⟨db', outcome, c.date thing value (call.fresh 0),
      (run_eq_some hname).mpr (Or.inl ⟨hoperation, c, hc, happly⟩),
      ⟨hleaves.written, hprimary, haccepted.valid.2.2 hprimary, ?_⟩, hleaves.dateId⟩
    rintro ⟨id, hid, -⟩
    rw [show (c.date thing value (call.fresh 0)).sourceId = c.sourceId from rfl, hsource] at hid
    cases hid
  | @correct c thing date value hoperation hc haccepted hprimary hsource =>
    obtain ⟨db', outcome, happly, hleaves⟩ := haccepted.exists_leaves cal
    refine ⟨db', outcome, c.corrected date value (call.fresh 0).now,
      (run_eq_some hname).mpr (Or.inr ⟨hoperation, c, hc, happly⟩),
      ⟨hleaves.written, hprimary, haccepted.valid.2.2 hprimary, ?_⟩, hleaves.dateId⟩
    exact fun hsourced => hsource ((Sourced.of_sources hleaves.sources).mp hsourced)
  | @replayCreate c value previous date hoperation hc hvalid hreplays hguess hid =>
    obtain ⟨outcome, hreplay⟩ := exists_replayDate "DEADLINE_SET" "Deadline set."
      "Stored deadline mutation is missing Thing version." hreplays.version
    refine ⟨db, outcome, date, (run_eq_some hname).mpr (Or.inl ⟨hoperation, c, hc, ?_⟩), hguess, ?_⟩
    · simp only [applySetDeadline, bind_eq_ok, orRaise_eq_ok, ensure_eq_ok, hreplays.found,
        pure_eq_ok, Prod.mk.injEq]
      exact ⟨value, hvalid.1, (), hvalid.2.1, (), hvalid.2.2, outcome, hreplay, trivial, rfl⟩
    · rw [hid]
      exact (replayDate_ok (by decide) hreplay).2
  | @replayCorrect c previous date hoperation hc hreplays hguess hid =>
    obtain ⟨outcome, hreplay⟩ := exists_replayDate "DATE_UPDATED" "Date updated."
      "Stored date mutation is missing target version." hreplays.version
    refine ⟨db, outcome, date, (run_eq_some hname).mpr (Or.inr ⟨hoperation, c, hc, ?_⟩), hguess, ?_⟩
    · simp only [applyUpdateDate, hreplays.found, bind_eq_ok, pure_eq_ok, Prod.mk.injEq]
      exact ⟨outcome, hreplay, trivial, rfl⟩
    · rw [hid]
      exact (replayDate_ok (by decide) hreplay).2

/-- Where the policy lets a call of `thing_date_set` through, a primary confirmed date that it leaves
has an existing Source, or evidence in the search results, if and only if the call does not leave a
guess: a reference alone is enough for the policy. -/
theorem confirmed_date_sourced_iff (policy : ToolPolicy) (others : WriteOps Records) (cal : Calendar)
    (call : ToolCall) (s : GraphState) (db : Records) (hname : call.name = "thing_date_set") :
    (Allowed policy others.py s call.arguments → ∀ db' outcome,
      call.run (recordOps others cal) db = some (db', outcome) → ∀ date ∈ db'.dates,
        outcome.data.get "date_id" = some (.str date.id.str) → date.isPrimary = true →
          date.certainty = .confirmed →
            Sourced db' call.context.userId date ∨ Evidenced s call.arguments) ↔
    ¬ (Backed others.py s call.arguments ∧ ¬ Guarded others.py s call.arguments ∧
      ¬ Evidenced s call.arguments ∧ LeavesGuess others.py cal call db) := by
  constructor
  · rintro hsourced ⟨hbacked, hguard, hevidence, hleaves⟩
    obtain ⟨db', outcome, date, hrun, hguess, hnamed⟩ := guesses_of_leavesGuess hname hleaves
    rcases hsourced ((allowed_iff policy _ _ _).mpr ⟨hbacked, hguard⟩) db' outcome hrun date
      hguess.mem hnamed hguess.primary hguess.confirmed with hsource | hevidenced
    · exact hguess.unsourced hsource
    · exact hevidence hevidenced
  · intro hnot hallowed db' outcome hrun date hmem hnamed hprimary hconfirmed
    obtain ⟨hbacked, hguard⟩ := (allowed_iff policy _ _ _).mp hallowed
    by_contra hneither
    obtain ⟨hunsourced, hevidence⟩ := not_or.mp hneither
    exact hnot ⟨hbacked, hguard, hevidence, leavesGuess_of_guesses hname
      ⟨hrun, ⟨hmem, hprimary, hconfirmed, hunsourced⟩, hnamed⟩⟩

/-- A new deadline whose only source is a reference that nobody has looked at is confirmed, and nobody
is asked. -/
theorem reference_confirms_date :
    Allowed {} moveOps.py {} moveWithReference.arguments ∧
    ¬ Evidenced {} moveWithReference.arguments ∧
    (moveWithReference.leaves moveOps moveRecords).dates.rows.map
      (fun date => (date.isPrimary, date.certainty, date.sourceId)) = [(true, .confirmed, none)] := by
  refine ⟨⟨_, rfl, by decide +kernel⟩, ?_, by decide +kernel⟩
  rintro ⟨url, hurl, -⟩
  rw [show evidenceUrls moveWithReference.arguments = [] by decide +kernel] at hurl
  exact List.not_mem_nil hurl

/-- The same with an existing Source, as a case of the general statement. -/
theorem confirmed_date_sourced_iff_moveWithSource :
    (Allowed {} noOps.py {} moveWithSource.arguments → ∀ db' outcome,
      moveWithSource.run moveOps moveRecords = some (db', outcome) → ∀ date ∈ db'.dates,
        outcome.data.get "date_id" = some (.str date.id.str) → date.isPrimary = true →
          date.certainty = .confirmed →
            Sourced db' moveWithSource.context.userId date ∨ Evidenced {} moveWithSource.arguments) ↔
    ¬ (Backed noOps.py {} moveWithSource.arguments ∧ ¬ Guarded noOps.py {} moveWithSource.arguments ∧
      ¬ Evidenced {} moveWithSource.arguments ∧
      LeavesGuess noOps.py springCalendar moveWithSource moveRecords) :=
  confirmed_date_sourced_iff {} noOps springCalendar moveWithSource {} moveRecords rfl

end Agent
