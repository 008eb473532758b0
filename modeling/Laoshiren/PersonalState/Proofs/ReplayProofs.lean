import Laoshiren.PersonalState.Proofs.VersionProofs

/-!
# Proofs: writes that are repeated

A write that has the key of an earlier one leaves the state as it was and answers from the mutation
of that one. Mutations stay for good, so what can fail is the answer alone.
-/

namespace PersonalState

open Raise Runtime

variable {py : Builtins} {cal : Calendar} {view : ℕ → State} {s s' : State} {reply : Reply}
  {op : Op} {m : StateMutation}

/-! ## Answers from a mutation -/

theorem settled_answered {α : Type} (s : State) (reply : α → Reply) (result : Raises α) :
    settled s reply (result >>= fun a => pure (s, a)) = (s, answered reply result) := by
  cases result <;> rfl

theorem onRecords_answered {α : Type} (s : State) (result : Raises α) :
    s.onRecords (result >>= fun a => pure (s.toRecords, a)) = result >>= fun a => pure (s, a) := by
  cases result <;> rfl

/-- A write that sees a mutation under its key answers from it, and leaves the state as it was. -/
theorem commit_of_seen {userId : UUID} {key : String} (hrequest : op.request = some (userId, key))
    (hseen : AuditRepository.getMutation userId key (view 0).mutations = some m) (s : State) :
    commit py cal op view s = (s, op.replayed py view m) := by
  cases op <;> first
    | cases hrequest; done
    | obtain ⟨rfl, rfl⟩ := Prod.mk.inj (Option.some.inj hrequest)
  case createThing c fresh =>
    rw [commit, Op.replayed, ← settled_answered]
    simp only [applyCreateThing, hseen, bind_assoc, pure_bind]
  case updateThing c fresh =>
    rw [commit, Op.replayed, ← settled_answered, ← onRecords_answered]
    simp only [updateThingAt, hseen, bind_assoc]
  case changeArchive c fresh =>
    simp only [commit, applyChangeArchive, hseen]
    rfl
  case deleteThing c fresh =>
    rw [commit, Op.replayed, ← settled_answered]
    simp only [applyDeleteThing, hseen]
  case mergeThings c fresh =>
    rw [commit, Op.replayed, ← settled_answered]
    simp only [applyMergeThings, hseen, bind_assoc]
  case setDeadline c fresh =>
    rw [commit, Op.replayed, ← settled_answered, ← onRecords_answered]
    simp only [applySetDeadlineAt, hseen, bind_assoc]
  case updateDate c fresh =>
    rw [commit, Op.replayed, ← settled_answered, ← onRecords_answered]
    simp only [applyUpdateDateAt, hseen]
  case createTask c fresh =>
    rw [commit, Op.replayed, ← settled_answered]
    simp only [applyCreateTask, hseen, bind_assoc, pure_bind]
  case transitionTask c fresh =>
    rw [commit, Op.replayed, ← settled_answered]
    simp only [applyTransitionTask, hseen]
  case completeTask c fresh =>
    rw [commit, Op.replayed, ← settled_answered]
    simp only [applyCompleteTask, hseen]
  case createBlocker c fresh =>
    rw [commit, Op.replayed, ← settled_answered]
    simp only [applyCreateBlocker, hseen, bind_assoc, pure_bind]
  case resolveBlocker c fresh =>
    rw [commit, Op.replayed, ← settled_answered]
    simp only [applyResolveBlocker, hseen]
  case setThingContext c fresh =>
    rw [commit, Op.replayed, ← settled_answered]
    simp only [applySetThingContext, hseen, bind_assoc]
  case linkToThing c fresh =>
    rw [commit, Op.replayed, ← settled_answered]
    simp only [linkToThing, hseen, bind_assoc, pure_bind]
  case addRelation c fresh =>
    simp only [commit, addRelation, hseen]
    rfl
  case deleteFile c fresh =>
    rw [commit, Op.replayed, ← settled_answered]
    simp only [applyDeleteFile, hseen, bind_assoc, pure_bind]

theorem answered_succeeds {α : Type} {reply : α → Reply} (hreply : ∀ a, (reply a).Succeeds)
    {result : Raises α} : (answered reply result).Succeeds ↔ ∃ a, result = .ok a := by
  cases result with
  | error e => simp [answered, Reply.Succeeds]
  | ok a => simp [answered, hreply]

theorem exists_ok_filter {α : Type} {f : Json → α} {field : String} {error : RuntimeError} :
    (∃ a, (do let version ← orRaise error ((m.after.get field).filter isInt); return f version) =
      Except.ok a) ↔ m.Tells field := by
  simp only [bind_eq_ok, orRaise_eq_ok, pure_eq_ok, Option.filter_eq_some_iff,
    StateMutation.Tells]
  constructor
  · rintro ⟨_, version, hversion, -⟩
    exact ⟨version, hversion⟩
  · rintro ⟨version, hversion⟩
    exact ⟨_, version, hversion, rfl⟩

theorem replayVersion_iff {code message target error : String} :
    (∃ outcome, replayVersion code message target error m = .ok outcome) ↔ m.Tells "version" :=
  exists_ok_filter

theorem replayDate_iff {code message field error : String} :
    (∃ outcome, replayDate code message field error m = .ok outcome) ↔ m.Tells field :=
  exists_ok_filter

theorem merge_replay_iff : (∃ outcome, MergeThings.replay py m = .ok outcome) ↔ m.Tells "version" :=
  exists_ok_filter

theorem Op.answerable_iff : op.Answerable view m ↔ op.Valid ∧
    (∀ field, op.versionField = some field → m.Tells field) ∧ op.Visible view m.targetId :=
  ⟨fun h => ⟨h.valid, h.tells, h.visible⟩, fun ⟨hvalid, htells, hvisible⟩ =>
    ⟨hvalid, htells, hvisible⟩⟩

/-- An answer needs arguments that pass their checks, a version number in the mutation, and the row
that it is read from. -/
theorem replayed_succeeds_iff (hrequest : op.request ≠ none) :
    (op.replayed py view m).Succeeds ↔ op.Answerable view m := by
  have houtcome : ∀ outcome, (Reply.outcome outcome).Succeeds := fun _ => trivial
  have hthing : ∀ thing, (Reply.thing thing).Succeeds := fun _ => trivial
  have hcreated : ∀ created, (Reply.created created).Succeeds := fun _ => trivial
  rw [Op.answerable_iff]
  cases op <;> first | exact absurd rfl hrequest | skip
  case createThing c fresh =>
    simp [-bind_pure_comp, Op.replayed, answered_succeeds houtcome, Op.Valid, Op.versionField,
      Op.Visible, Option.isSome_iff_exists]
  case updateThing c fresh =>
    simp [-bind_pure_comp, Op.replayed, answered_succeeds hthing, Op.Valid, Op.versionField,
      Op.Visible, Option.isSome_iff_exists]
  case changeArchive c fresh =>
    simp [Op.replayed, Reply.Succeeds, Op.Valid, Op.versionField, Op.Visible]
  case deleteThing c fresh =>
    simp [-bind_pure_comp, Op.replayed, answered_succeeds houtcome, replayVersion_iff, Op.Valid,
      Op.versionField,
      Op.Visible]
  case mergeThings c fresh =>
    simp [-bind_pure_comp, Op.replayed, answered_succeeds houtcome, merge_replay_iff, Op.Valid,
      Op.versionField,
      Op.Visible]
  case setDeadline c fresh =>
    simp [-bind_pure_comp, Op.replayed, answered_succeeds houtcome, replayDate_iff, Op.Valid,
      Op.versionField,
      Op.Visible, SetDeadline.Valid, and_assoc]
  case updateDate c fresh =>
    simp [-bind_pure_comp, Op.replayed, answered_succeeds houtcome, replayDate_iff, Op.Valid,
      Op.versionField,
      Op.Visible]
  case createTask c fresh =>
    simp [-bind_pure_comp, Op.replayed, answered_succeeds houtcome, Op.Valid, Op.versionField,
      Op.Visible, Option.isSome_iff_exists, and_assoc]
  case transitionTask c fresh =>
    simp [-bind_pure_comp, Op.replayed, answered_succeeds houtcome, replayVersion_iff, Op.Valid,
      Op.versionField,
      Op.Visible]
  case completeTask c fresh =>
    simp [-bind_pure_comp, Op.replayed, answered_succeeds houtcome, replayVersion_iff, Op.Valid,
      Op.versionField,
      Op.Visible]
  case createBlocker c fresh =>
    simp [-bind_pure_comp, Op.replayed, answered_succeeds houtcome, Op.Valid, Op.versionField,
      Op.Visible, Option.isSome_iff_exists]
  case resolveBlocker c fresh =>
    simp [-bind_pure_comp, Op.replayed, answered_succeeds houtcome, replayVersion_iff, Op.Valid,
      Op.versionField,
      Op.Visible]
  case setThingContext c fresh =>
    simp [-bind_pure_comp, Op.replayed, answered_succeeds houtcome, replayVersion_iff, Op.Valid,
      Op.versionField,
      Op.Visible]
  case linkToThing c fresh =>
    simp [-bind_pure_comp, Op.replayed, answered_succeeds hcreated, Op.Valid, Op.versionField,
      Op.Visible]
  case addRelation c fresh =>
    simp [Op.replayed, Reply.Succeeds, Op.Valid, Op.versionField, Op.Visible]
  case deleteFile c fresh =>
    simp [-bind_pure_comp, Op.replayed, answered_succeeds houtcome, Op.Valid, Op.versionField,
      Op.Visible]

/-! ## What the answers name -/

theorem succeeds_cases {α : Type} {reply : α → Reply} {result : Raises α}
    (h : (answered reply result).Succeeds) : ∃ a,
      result = .ok a ∧ answered reply result = reply a := by
  cases result with
  | error e => exact absurd h id
  | ok a => exact ⟨a, rfl, rfl⟩

/-- An answer from a mutation names it, and is marked. -/
structure Op.Echoes (op : Op) (m : StateMutation)
    (reply : Reply) : Prop extends op.Names m reply where
  replayed : reply.Replayed

theorem Op.echoes_of_fields {outcome : WriteOutcome}
    (htarget : outcome.data.get op.targetField = some (.str (op.target m).str))
    (hreplayed : outcome.data.get "replayed" = some (.bool true))
    (hrefs : outcome.mutationRefs = [m.id.str]) : op.Echoes m (.outcome outcome) :=
  ⟨⟨htarget, congrArg some hrefs⟩, hreplayed⟩

theorem replayVersion_echoes {code message target error : String} {outcome : WriteOutcome}
    (h : replayVersion code message target error m = .ok outcome)
    (htarget : op.target m = m.targetId) (hfield : op.targetField = target)
    (hne : target ≠ "version" ∧ target ≠ "replayed") : op.Echoes m (.outcome outcome) := by
  simp only [replayVersion, bind_eq_ok, orRaise_eq_ok, pure_eq_ok] at h
  obtain ⟨version, -, rfl⟩ := h
  refine Op.echoes_of_fields ?_ ?_ rfl
  · rw [Dict.get_ofFields, hfield, htarget]
    simp [List.lookup_cons, beq_false_of_ne hne.1, beq_false_of_ne hne.2]
  · rw [Dict.get_ofFields]
    rfl

theorem replayDate_echoes {code message field error : String} {outcome : WriteOutcome}
    (h : replayDate code message field error m = .ok outcome)
    (htarget : op.target m = m.targetId) (hfield : op.targetField = "date_id")
    (hne : "date_id" ≠ field) : op.Echoes m (.outcome outcome) := by
  simp only [replayDate, bind_eq_ok, orRaise_eq_ok, pure_eq_ok] at h
  obtain ⟨version, -, rfl⟩ := h
  refine Op.echoes_of_fields ?_ ?_ rfl
  · rw [Dict.get_ofFields, hfield, htarget]
    simp [List.lookup_cons, beq_false_of_ne hne]
  · rw [Dict.get_ofFields]
    rfl

/-- The answer from a mutation names it. -/
theorem replayed_echoes (hrequest : op.request ≠ none) (houtcome : op.AnswersOutcome)
    (h : (op.replayed py view m).Succeeds) : op.Echoes m (op.replayed py view m) := by
  cases op <;> first | exact absurd rfl hrequest | exact absurd houtcome id | skip
  case changeArchive c fresh =>
    exact Op.echoes_of_fields (by rw [ChangeArchive.replay, Dict.get_ofFields]; rfl)
      (by rw [ChangeArchive.replay, Dict.get_ofFields]; rfl) rfl
  all_goals
    obtain ⟨outcome, hok, heq⟩ := succeeds_cases h
    rw [Op.replayed, heq]
  case createThing c fresh =>
    simp only [bind_eq_ok, orRaise_eq_ok, pure_eq_ok] at hok
    obtain ⟨_, -, thing, hthing, rfl⟩ := hok
    have hid := (ThingRepository.get_eq_some hthing).2.1
    refine Op.echoes_of_fields ?_ ?_ rfl
    · rw [CreateThing.outcome, Dict.get_ofFields, hid]
      rfl
    · rw [CreateThing.outcome, Dict.get_ofFields]
      rfl
  case deleteThing c fresh => exact replayVersion_echoes hok rfl rfl (by decide)
  case mergeThings c fresh =>
    simp only [bind_eq_ok, MergeThings.replay, orRaise_eq_ok, pure_eq_ok] at hok
    obtain ⟨_, -, version, -, rfl⟩ := hok
    exact Op.echoes_of_fields (by rw [Dict.get_ofFields]; rfl) (by rw [Dict.get_ofFields]; rfl) rfl
  case setDeadline c fresh =>
    simp only [bind_eq_ok] at hok
    obtain ⟨_, -, _, -, _, -, hok⟩ := hok
    exact replayDate_echoes hok rfl rfl (by decide)
  case updateDate c fresh => exact replayDate_echoes hok rfl rfl (by decide)
  case createTask c fresh =>
    simp only [bind_eq_ok, orRaise_eq_ok, pure_eq_ok] at hok
    obtain ⟨_, -, _, -, task, htask, rfl⟩ := hok
    have hid := (Table.get_eq_some htask).2
    simp only [decide_eq_true_eq] at hid
    refine Op.echoes_of_fields ?_ ?_ rfl
    · rw [CreateTask.outcome, createdData, Dict.get_ofFields, hid.1]
      rfl
    · rw [CreateTask.outcome, createdData, Dict.get_ofFields]
      rfl
  case transitionTask c fresh => exact replayVersion_echoes hok rfl rfl (by decide)
  case completeTask c fresh => exact replayVersion_echoes hok rfl rfl (by decide)
  case createBlocker c fresh =>
    simp only [bind_eq_ok, orRaise_eq_ok, pure_eq_ok] at hok
    obtain ⟨_, -, blocker, hblocker, rfl⟩ := hok
    have hid := (Table.get_eq_some hblocker).2
    simp only [decide_eq_true_eq] at hid
    refine Op.echoes_of_fields ?_ ?_ rfl
    · rw [CreateBlocker.outcome, createdData, Dict.get_ofFields, hid.1]
      rfl
    · rw [CreateBlocker.outcome, createdData, Dict.get_ofFields]
      rfl
  case resolveBlocker c fresh => exact replayVersion_echoes hok rfl rfl (by decide)
  case setThingContext c fresh =>
    simp only [bind_eq_ok] at hok
    obtain ⟨_, -, hok⟩ := hok
    exact replayVersion_echoes hok rfl rfl (by decide)
  case deleteFile c fresh =>
    simp only [bind_eq_ok, pure_eq_ok] at hok
    obtain ⟨_, -, rfl⟩ := hok
    exact Op.echoes_of_fields (by rw [DeleteFile.replay, Dict.get_ofFields]; rfl)
      (by rw [DeleteFile.replay, Dict.get_ofFields]; rfl) rfl

/-! ## What stays for an answer -/

theorem Kept.refl (s : State) : Kept s s := .of_same rfl rfl rfl

theorem Kept.trans {u v w : State} (h : Kept u v) (h' : Kept v w) : Kept u w where
  mutations m hm := h'.mutations m (h.mutations m hm)
  tasks := Table.Evolves.trans (fun _ _ _ huser huser' => huser'.trans huser) h.tasks h'.tasks
  sources := Table.Evolves.trans (fun _ _ _ huser huser' => huser'.trans huser) h.sources h'.sources

/-- Mutations, Tasks and Sources are there for good. -/
theorem kept_stable (py : Builtins) (cal : Calendar) :
    Program.Stable (system py cal) (fun _ _ _ => True) (fun _ => True) Kept where
  init _ _ := trivial
  refl := .refl
  trans _ _ _ := .trans
  step op view s _ _ _ := by
    refine ⟨trivial, ?_⟩
    rcases commit_cases py cal op view s with hsame | hcommits
    · have heq : ((system py cal).commit op view s).1 = s := hsame
      rw [heq]
      exact .refl s
    · exact hcommits.kept

/-- A mutation that is there is found under its key. -/
theorem getMutation_of_mem (hm : m ∈ s.mutations) :
    AuditRepository.getMutation m.userId m.idempotencyKey s.mutations = some m := by
  refine Table.get_of_mem hm (by simp) fun r hp => ?_
  simp only [decide_eq_true_eq] at hp
  exact .inr hp.2

theorem Op.Lasting.kept (h : op.Lasting m s) (hkept : Kept s s') : op.Lasting m s' := by
  cases op with
  | createTask c fresh =>
    obtain ⟨r, hr, hid, huser⟩ := h
    obtain ⟨r', hr', hid', huser'⟩ := hkept.tasks r hr
    exact ⟨r', hr', hid'.trans hid, huser'.trans huser⟩
  | deleteFile c fresh =>
    obtain ⟨r, hr, hid, huser⟩ := h
    obtain ⟨r', hr', hid', huser'⟩ := hkept.sources r hr
    exact ⟨r', hr', hid'.trans hid, huser'.trans huser⟩
  | _ => trivial

theorem Op.Visible.lasting (h : op.Visible view m.targetId) : op.Lasting m (view 1) := by
  cases op with
  | createTask c fresh =>
    obtain ⟨r, hr⟩ := Option.isSome_iff_exists.mp h
    have hp := (Table.get_eq_some hr).2
    simp only [decide_eq_true_eq] at hp
    exact ⟨r, (Table.get_eq_some hr).1, hp⟩
  | deleteFile c fresh =>
    obtain ⟨r, hr⟩ := Option.isSome_iff_exists.mp h
    have hp := (Table.get_eq_some hr).2
    simp only [decide_eq_true_eq] at hp
    exact ⟨r, (Table.get_eq_some hr).1, hp⟩
  | _ => trivial

/-- The answer to a write, the mutation that it names, and what it can be answered from again. -/
structure Op.Answered (op : Op) (reply : Reply) (m : StateMutation) : Prop where
  request : op.request = some (m.userId, m.idempotencyKey)
  names : op.AnswersOutcome → op.Names m reply
  valid : op.Valid
  tells : ∀ field, op.versionField = some field → m.Tells field

theorem answered_of_reply {h : History State Op Reply} (hr : (system py cal).Reachable h) {j : ℕ}
    (hrequest : op.request ≠ none) (hfirst : h.replies[j]? = some (op, reply))
    (hsucceeds : reply.Succeeds) :
    ∃ m, op.Answered reply m ∧ ∀ v ∈ h.states.take (j + 1), m ∈ v.mutations ∧ op.Lasting m v := by
  obtain ⟨h₀, view₀, hr₀, hviews₀, -, hreply, hstates⟩ := hr.answered hfirst
  have hstep : (system py cal).commit op view₀ h₀.cur = commit py cal op view₀ h₀.cur := rfl
  have hearlier : ∀ u ∈ h₀.states, u ∈ h.states.drop j := by
    intro u hu
    rw [hstates]
    exact .tail _ hu
  have hnow : (commit py cal op view₀ h₀.cur).1 ∈ h.states.drop j := by
    rw [hstates]
    exact .head _
  have hkept : ∀ u ∈ h.states.drop j, ∀ v ∈ h.states.take (j + 1), Kept u v :=
    fun u hu v hv => (kept_stable py cal).rel_since hr hu hv
  rw [hstep] at hreply
  rcases commit_outcome py cal op view₀ h₀.cur with ⟨e, hraised⟩ | hanswers | hcommits
  · rw [← hreply, hraised] at hsucceeds
    exact absurd hsucceeds id
  · -- an earlier mutation answered the first call already
    obtain ⟨⟨userId, key⟩, hcall⟩ := Option.ne_none_iff_exists'.mp hrequest
    obtain ⟨_, _, hcall', hseen⟩ := hanswers.1 _ hcall
    obtain ⟨m, hm⟩ := Option.ne_none_iff_exists'.mp hseen
    rw [commit_of_seen hcall' hm] at hreply
    rw [← hreply] at hsucceeds
    have hanswerable := (replayed_succeeds_iff hrequest).mp hsucceeds
    obtain ⟨hmem, hp⟩ := Table.get_eq_some hm
    simp only [decide_eq_true_eq] at hp
    refine ⟨m, ⟨by rw [hcall', hp.1, hp.2], fun houtcome => ?_, hanswerable.valid,
      hanswerable.tells⟩, fun v hv => ⟨?_, ?_⟩⟩
    · rw [← hreply]
      exact (replayed_echoes hrequest houtcome hsucceeds).toNames
    · exact (hkept _ (hearlier _ (hviews₀ 0)) v hv).mutations m hmem
    · exact hanswerable.visible.lasting.kept (hkept _ (hearlier _ (hviews₀ 1)) v hv)
  · rw [hreply] at hcommits
    obtain ⟨m, haudited⟩ := hcommits.audited hrequest
    have hlasting : ∃ u ∈ h.states.drop j, op.Lasting m u := by
      rcases haudited.lasting with hlasts | hlasts
      · exact ⟨_, hnow, hlasts⟩
      · exact ⟨_, hearlier _ (hviews₀ 1), hlasts⟩
    obtain ⟨u, hu, hlasts⟩ := hlasting
    refine ⟨m, ⟨haudited.request, haudited.names, haudited.valid, haudited.tells⟩,
      fun v hv => ⟨?_, hlasts.kept (hkept u hu v hv)⟩⟩
    exact (hkept _ hnow v hv).mutations m ((Table.mem_insert? haudited.inserted).mpr (.inr rfl))

/-! ## Repeating a write -/

theorem Op.again_request (fresh : ℕ → Stamp) : (op.again fresh).request = op.request := by
  cases op <;> rfl

theorem Op.again_replayed (fresh : ℕ → Stamp) :
    (op.again fresh).replayed py view m = op.replayed py view m := by
  cases op <;> rfl

/-- A write that repeats well can read the row that it answers from. -/
theorem Op.visible_iff (houtcome : op.AnswersOutcome)
    (hrequest : op.request = some (m.userId, m.idempotencyKey)) (hm : m ∈ (view 0).mutations)
    (hlasting : op.Lasting m (view 1)) :
    op.Visible view m.targetId ↔ op.RepeatsWell view := by
  have hseen := getMutation_of_mem hm
  cases op with
  | createThing c fresh =>
    obtain ⟨huser, hkey⟩ := Prod.mk.inj (Option.some.inj hrequest)
    rw [← huser, ← hkey] at hseen
    constructor
    · exact fun h => ⟨m, hseen, h⟩
    · rintro ⟨previous, hprevious, h⟩
      obtain rfl := Option.some.inj (hprevious.symm.trans hseen)
      exact h
  | createBlocker c fresh =>
    obtain ⟨huser, hkey⟩ := Prod.mk.inj (Option.some.inj hrequest)
    rw [← huser, ← hkey] at hseen
    constructor
    · exact fun h => ⟨m, hseen, h⟩
    · rintro ⟨previous, hprevious, h⟩
      obtain rfl := Option.some.inj (hprevious.symm.trans hseen)
      exact h
  | createTask c fresh =>
    obtain ⟨r, hr, hp⟩ := hlasting
    refine ⟨fun _ => trivial, fun _ => Option.isSome_iff_exists.mpr ⟨r, Table.get_of_mem hr ?_ ?_⟩⟩
    · simpa using hp
    · intro r' hp'
      simp only [decide_eq_true_eq] at hp'
      exact hp'.1.trans hp.1.symm
  | deleteFile c fresh =>
    obtain ⟨r, hr, hp⟩ := hlasting
    refine ⟨fun _ => trivial, fun _ => Option.isSome_iff_exists.mpr ⟨r, Table.get_of_mem hr ?_ ?_⟩⟩
    · simpa using hp
    · intro r' hp'
      simp only [decide_eq_true_eq] at hp'
      exact hp'.1.trans hp.1.symm
  | updateThing c fresh => exact absurd houtcome id
  | linkToThing c fresh => exact absurd houtcome id
  | addRelation c fresh => exact absurd houtcome id
  | _ => exact ⟨fun _ => trivial, fun _ => trivial⟩

theorem Op.RepeatsWell.answersOutcome (h : op.RepeatsWell view) : op.AnswersOutcome := by
  cases op with
  | createThing c fresh => trivial
  | createBlocker c fresh => trivial
  | _ => exact h

theorem Reply.Replayed.succeeds (h : reply.Replayed) : reply.Succeeds := by
  cases reply with
  | raised e => exact h
  | _ => trivial

theorem not_replayed_answered {α : Type} {reply : α → Reply} (hreply : ∀ a, ¬(reply a).Replayed)
    (result : Raises α) : ¬(answered reply result).Replayed := by
  cases result with
  | error e => exact id
  | ok a => exact hreply a

/-- An answer that is a Thing or a flag is not marked. -/
theorem not_replayed (houtcome : ¬op.AnswersOutcome) : ¬(op.replayed py view m).Replayed := by
  cases op with
  | updateThing c fresh =>
    exact not_replayed_answered (fun _ => id) _
  | linkToThing c fresh =>
    exact not_replayed_answered (fun _ => id) _
  | addRelation c fresh => exact id
  | _ => exact absurd trivial houtcome

/-- In every history, a write that succeeded under its key and is repeated later on, by a client that sees
the first answer: nothing changes, and the answer is the first one, marked as a replay,
  if and only if
the write answers with an outcome and what it created can still be read. -/
theorem repeats_iff (py : Builtins) (cal : Calendar) {h : History State Op Reply}
    (hr : (system py cal).Reachable h) {j : ℕ} (hrequest : op.request ≠ none)
    (hfirst : h.replies[j]? = some (op, reply)) (hsucceeds : reply.Succeeds)
    (hviews : ∀ n, view n ∈ h.states.take (j + 1)) (fresh : ℕ → Stamp) :
    (commit py cal (op.again fresh) view h.cur).1 = h.cur ∧
        op.Repeats reply (commit py cal (op.again fresh) view h.cur).2 ↔ op.RepeatsWell view := by
  obtain ⟨m, hanswered, hthere⟩ := answered_of_reply hr hrequest hfirst hsucceeds
  have hm := (hthere _ (hviews 0)).1
  have hcommit : commit py cal (op.again fresh) view h.cur = (h.cur, op.replayed py view m) := by
    rw [commit_of_seen ((op.again_request fresh).trans hanswered.request) (getMutation_of_mem hm),
      Op.again_replayed]
  rw [hcommit]
  constructor
  · rintro ⟨-, hrepeats⟩
    have houtcome : op.AnswersOutcome := by
      by_contra houtcome
      exact not_replayed houtcome hrepeats.replayed
    refine (Op.visible_iff houtcome hanswered.request hm (hthere _ (hviews 1)).2).mp ?_
    have hagain : (op.replayed py view m).Succeeds := hrepeats.replayed.succeeds
    exact ((replayed_succeeds_iff hrequest).mp hagain).visible
  · intro hwell
    have houtcome := hwell.answersOutcome
    have hvisible :=
      (Op.visible_iff houtcome hanswered.request hm (hthere _ (hviews 1)).2).mpr hwell
    have hagain : (op.replayed py view m).Succeeds :=
      (replayed_succeeds_iff hrequest).mpr ⟨hanswered.valid, hanswered.tells, hvisible⟩
    have hechoes := replayed_echoes hrequest houtcome hagain
    have hnames := hanswered.names houtcome
    exact ⟨rfl, hechoes.target.trans hnames.target.symm,
      hechoes.mutation.trans hnames.mutation.symm, hechoes.replayed⟩

/-! ## A Thing that was created and is deleted -/

/-- User 1 deletes Thing 10. -/
def deleteMove : DeleteThing :=
  { userId := 1, thingId := 10, expectedVersion := 1, actionId := "action",
    idempotencyKey := "delete", reason := "said so" }

/-- User 1 creates Thing 10. -/
def createMove : Op := .createThing ⟨1, "Move", "action", "move", "new", none⟩ (stampsFrom 10 0)

/-- What the creation of Thing 10 answers. -/
def moveCreated : Reply :=
  .outcome (CreateThing.outcome
    { userId := 1, name := "Move", id := 10, createdAt := 0, updatedAt := 0 } 11 false)

/-- The creation of a Thing is repeated while the Thing is there. -/
theorem repeats_iff_createMove :
    createMove.Repeats moveCreated
      (commit noRepr noDates (createMove.again (stampsFrom 40 2))
        (fun _ => ((system noRepr noDates).serial {} [createMove]).cur)
        ((system noRepr noDates).serial {} [createMove]).cur).2 := by
  have hr := (system noRepr noDates).serial_reachable (s := {}) rfl [createMove]
  have hreply : (commit noRepr noDates createMove (fun _ => {}) {}).2 = moveCreated := by
    decide +kernel
  have hfirst : ((system noRepr noDates).serial {} [createMove]).replies[0]? =
      some (createMove, moveCreated) := congrArg (fun reply => some (createMove, reply)) hreply
  have hrequest : createMove.request ≠ none := Option.some_ne_none (1, "move")
  have hwell : createMove.RepeatsWell
      fun _ => ((system noRepr noDates).serial {} [createMove]).cur :=
    ⟨_, rfl, by decide +kernel⟩
  exact ((repeats_iff noRepr noDates hr hrequest hfirst trivial (fun _ => .head _)
    (stampsFrom 40 2)).mpr hwell).2

/-- Thing 10 is created, and then deleted. -/
def movedAndDeleted : History State Op Reply :=
  (system noRepr noDates).serial {} [createMove, .deleteThing deleteMove (stampsFrom 30 1)]

/-- The creation of a Thing that was deleted since raises. -/
theorem deleted_not_repeated :
    (movedAndDeleted.replies.map Prod.snd)[1]? = some moveCreated ∧
      (commit noRepr noDates (createMove.again (stampsFrom 40 2)) (fun _ => movedAndDeleted.cur)
        movedAndDeleted.cur).2 =
      .raised (.runtimeError "Idempotent Thing creation points to a missing Thing.") := by
  decide +kernel

end PersonalState
