import Laoshiren.Memories.Proofs.LifecycleProofs
import Laoshiren.PersonalState.Proofs.ReplayProofs
import Laoshiren.Requests.Proofs.AutomationKeyProofs
import Laoshiren.Requests.Proofs.RunKeyProofs

/-!
# Proofs: what a key stands for

A key is looked up without the request that it was used for. So a request under the key of another one is
told of success wherever it can be answered from what was recorded for the other.
-/

/-! ## The Personal State -/

namespace PersonalState

open Raise Runtime

variable {py : Builtins} {cal : Calendar} {view : ℕ → State} {s s' : State} {op : Op}

/-- A mutation is recorded under a key. -/
def KeyTaken (s : State) (k : UUID × String) : Prop :=
  ∃ m ∈ s.mutations, m.userId = k.1 ∧ m.idempotencyKey = k.2

theorem getMutation_ne_none {userId : UUID} {key : String} :
    AuditRepository.getMutation userId key s.mutations ≠ none ↔ KeyTaken s (userId, key) := by
  simp only [AuditRepository.getMutation, ne_eq, Table.get_eq_none, KeyTaken,
    decide_eq_false_iff_not, not_forall, not_not, exists_prop]

theorem Op.seen_iff {k : UUID × String} (hkey : op.request = some k) :
    op.Seen view ↔ KeyTaken (view 0) k := by
  constructor
  · rintro ⟨userId, key, hrequest, hseen⟩
    obtain rfl := Option.some.inj (hkey.symm.trans hrequest)
    exact getMutation_ne_none.mp hseen
  · exact fun hseen => ⟨k.1, k.2, hkey, getMutation_ne_none.mpr hseen⟩

theorem commit_kept (py : Builtins) (cal : Calendar) (op : Op) (view : ℕ → State) (s : State) :
    Kept s (commit py cal op view s).1 := by
  rcases commit_cases py cal op view s with hsame | hcommits
  · rw [hsame]
    exact .refl s
  · exact hcommits.kept

/-- The keys of the writes on the Personal State. -/
def requestKeys (py : Builtins) (cal : Calendar) : (system py cal).Keyed (UUID × String) where
  key := Op.request
  lookup _ := 0
  OnRecord := KeyTaken
  Succeeds := Reply.Succeeds
  Answers := Op.AnswersFromRecord
  found op view k hkey hanswers := by
    obtain ⟨userId, key, m, hrequest, hm, -⟩ := hanswers
    obtain rfl := Option.some.inj (hkey.symm.trans hrequest)
    exact getMutation_ne_none.mp (by rw [hm]; exact Option.some_ne_none _)
  keeps op view s k h := by
    obtain ⟨m, hm, hk⟩ := h
    exact ⟨m, (commit_kept py cal op view s).mutations m hm, hk⟩
  records op view s k hkey hsucceeds := by
    rcases commit_outcome py cal op view s with ⟨e, hraised⟩ | hanswers | hcommits
    · have hreply : ((system py cal).commit op view s).2 = .raised e := congrArg Prod.snd hraised
      rw [hreply] at hsucceeds
      exact absurd hsucceeds id
    · exact .inl ((Op.seen_iff hkey).mp (hanswers.1 k hkey))
    · obtain ⟨m, haudited⟩ := hcommits.audited (by rw [hkey]; exact Option.some_ne_none _)
      obtain rfl := Option.some.inj (hkey.symm.trans haudited.request)
      exact .inr ⟨m, (Table.mem_insert? haudited.inserted).mpr (.inr rfl), rfl, rfl⟩
  replays op view s k hkey hseen := by
    obtain ⟨m, hm⟩ := Option.ne_none_iff_exists'.mp (getMutation_ne_none.mpr hseen)
    have hcommit : (system py cal).commit op view s = (s, op.replayed py view m) :=
      commit_of_seen hkey hm s
    rw [hcommit, replayed_succeeds_iff (by rw [hkey]; exact Option.some_ne_none _)]
    constructor
    · exact fun hanswers => ⟨k.1, k.2, m, hkey, hm, hanswers⟩
    · rintro ⟨userId, key, m', hrequest, hm', hanswers⟩
      obtain rfl := Option.some.inj (hkey.symm.trans hrequest)
      obtain rfl := Option.some.inj (hm.symm.trans hm')
      exact hanswers
  blocks op view s k hkey hunseen htaken hsucceeds := by
    rcases commit_outcome py cal op view s with ⟨e, hraised⟩ | hanswers | hcommits
    · have hreply : ((system py cal).commit op view s).2 = .raised e := congrArg Prod.snd hraised
      rw [hreply] at hsucceeds
      exact hsucceeds
    · exact hunseen ((Op.seen_iff hkey).mp (hanswers.1 k hkey))
    · obtain ⟨m, haudited⟩ := hcommits.audited (by rw [hkey]; exact Option.some_ne_none _)
      obtain rfl := Option.some.inj (hkey.symm.trans haudited.request)
      obtain ⟨r, hr, -, hrkey⟩ := htaken
      exact Table.not_conflict_of_insert? haudited.inserted hr (.inr hrkey)

end PersonalState

/-! ## Memories -/

namespace Memories

open Raise Runtime
open PersonalState (Memory)

variable {texts : Texts} {view : ℕ → State} {s s' : State}

/-- An operation is recorded under a key. -/
def KeyTaken (s : State) (k : UUID × String) : Prop :=
  ∃ r ∈ s.operations, r.userId = k.1 ∧ r.idempotencyKey = k.2

theorem getOperationVersion_isSome {userId : UUID} {key : String} :
    (MemoryRepository.getOperationVersion userId key s.operations).isSome ↔
      KeyTaken s (userId, key) := by
  rw [← Option.ne_none_iff_isSome]
  simp only [MemoryRepository.getOperationVersion, ne_eq, Option.map_eq_none_iff,
    Table.get_eq_none, KeyTaken, decide_eq_false_iff_not, not_forall, not_not, exists_prop]

theorem operations_writeBack {memory : Memory} {version : ℕ} {key : String}
    (h : writeBack memory version key s = .ok s') : ∃ r : MemoryOperation,
      r.userId = memory.userId ∧ r.idempotencyKey = key ∧
        s.operations.insert? r = some s'.operations := by
  simp only [writeBack, bind_eq_ok, orRaise_eq_ok, pure_eq_ok] at h
  obtain ⟨memories, -, _, -, operations, hinserted, rfl⟩ := h
  exact ⟨_, rfl, rfl, hinserted⟩

theorem loadMemory_userId {userId memoryId : UUID} {version : ℤ} {t : Table Memory}
    {memory : Memory} (h : loadMemory userId memoryId version t = .ok memory) :
    memory.userId = userId := by
  simp only [loadMemory, bind_eq_ok, orRaise_eq_ok, pure_eq_ok] at h
  obtain ⟨_, hget, _, -, rfl⟩ := h
  have hp := (Table.get_eq_some hget).2
  simp only [decide_eq_true_eq] at hp
  exact hp.2

theorem revised_userId {c : UpdateMemory} {memory revised : Memory} {now : Timestamp}
    (h : c.revised memory now = .ok revised) : revised.userId = memory.userId := by
  unfold UpdateMemory.revised at h
  split at h
  · simp only [Memories.supersede, bind_eq_ok, pure_eq_ok] at h
    obtain ⟨_, -, rfl⟩ := h
    rfl
  · simp only [revise, bind_eq_ok, pure_eq_ok] at h
    obtain ⟨_, -, _, -, _, -, rfl⟩ := h
    rfl

/-- A Memory is forgotten, or the call is answered from an operation. -/
theorem applyForgetMemory_operations {c : ForgetMemory} {stamp : Stamp} {outcome : WriteOutcome}
    (h : applyForgetMemory texts c stamp view s = .ok (s', outcome)) :
    s' = s ∧ KeyTaken (view 0) (c.userId, c.idempotencyKey) ∨
      ∃ r : MemoryOperation, r.userId = c.userId ∧ r.idempotencyKey = c.idempotencyKey ∧
        s.operations.insert? r = some s'.operations := by
  unfold applyForgetMemory at h
  split at h
  next version hseen =>
    simp only [bind_eq_ok, pure_eq_ok, Prod.mk.injEq] at h
    obtain ⟨_, -, rfl, -⟩ := h
    exact .inl ⟨rfl, getOperationVersion_isSome.mp (by rw [hseen]; rfl)⟩
  next =>
    simp only [bind_eq_ok, orRaise_eq_ok, pure_eq_ok, Prod.mk.injEq] at h
    obtain ⟨memory, hload, s₁, hwrite, suppressions, -, rfl, -⟩ := h
    obtain ⟨r, huser, hkey, hinserted⟩ := operations_writeBack hwrite
    have hdeleted : (delete memory stamp.now).userId = memory.userId := by
      unfold delete
      split <;> rfl
    exact .inr ⟨r, huser.trans (hdeleted.trans (loadMemory_userId hload)), hkey, hinserted⟩

/-- A Memory is updated, or the call is answered from an operation. -/
theorem updateMemory_operations {c : UpdateMemory} {now : Timestamp} {answer : Memory × Bool}
    (h : updateMemory c now view s = .ok (s', answer)) :
    s' = s ∧ KeyTaken (view 0) (c.userId, c.idempotencyKey) ∨
      ∃ r : MemoryOperation, r.userId = c.userId ∧ r.idempotencyKey = c.idempotencyKey ∧
        s.operations.insert? r = some s'.operations := by
  simp only [updateMemory, bind_eq_ok] at h
  obtain ⟨_, -, _, -, h⟩ := h
  split at h
  next version hseen =>
    simp only [bind_eq_ok, pure_eq_ok, Prod.mk.injEq] at h
    obtain ⟨_, -, rfl, -⟩ := h
    exact .inl ⟨rfl, getOperationVersion_isSome.mp (by rw [hseen]; rfl)⟩
  next =>
    simp only [bind_eq_ok, pure_eq_ok, Prod.mk.injEq] at h
    obtain ⟨memory, hload, revised, hrevised, s₁, hwrite, rfl, -⟩ := h
    obtain ⟨r, huser, hkey, hinserted⟩ := operations_writeBack hwrite
    exact .inr ⟨r, huser.trans ((revised_userId hrevised).trans (loadMemory_userId hload)), hkey,
      hinserted⟩

theorem commit_operations (texts : Texts) (op : Op) (view : ℕ → State) (s : State) :
    (commit texts op view s).1.operations = s.operations ∨
      ∃ r, s.operations.insert? r = some (commit texts op view s).1.operations := by
  have hcreate : ∀ {c reconcileState stamp s' outcome},
      applyCreateMemory texts c reconcileState stamp view s = .ok (s', outcome) →
        s'.operations = s.operations := by
    intro c reconcileState stamp s' outcome h
    simp only [applyCreateMemory, bind_eq_ok, Prod.exists] at h
    obtain ⟨state, outcome', -, h⟩ := h
    split at h
    · obtain ⟨rfl, -⟩ := Prod.mk.inj (pure_eq_ok.mp h)
      rfl
    · obtain ⟨rfl, -⟩ := Prod.mk.inj (pure_eq_ok.mp h)
      rfl
  cases op with
  | create c stamp =>
    refine .inl ?_
    simp only [commit]
    split
    next s' outcome h => exact hcreate h
    next => rfl
  | createIfAllowed c stamp =>
    refine .inl ?_
    simp only [commit]
    split
    next s' outcome h =>
      split
      · rfl
      · exact hcreate h
    next => rfl
  | update author c now =>
    simp only [commit]
    split
    next s' memory replayed h =>
      rcases updateMemory_operations h with ⟨rfl, -⟩ | ⟨r, -, -, hinserted⟩
      · exact .inl rfl
      · exact .inr ⟨r, hinserted⟩
    next => exact .inl rfl
  | forget c stamp =>
    simp only [commit]
    split
    next s' outcome h =>
      rcases applyForgetMemory_operations h with ⟨rfl, -⟩ | ⟨r, -, -, hinserted⟩
      · exact .inl rfl
      · exact .inr ⟨r, hinserted⟩
    next => exact .inl rfl
  | other change hforeign => exact .inl (hforeign s).operations

/-- An update that succeeds. -/
theorem update_succeeds (texts : Texts) (author : Author) {c : UpdateMemory} {now : Timestamp} :
    (commit texts (.update author c now) view s).2.Succeeds ↔
      ∃ s' a, updateMemory c now view s = .ok (s', a) := by
  simp only [commit]
  split
  next s' memory replayed h => exact ⟨fun _ => ⟨s', (memory, replayed), h⟩, fun _ => trivial⟩
  next error h =>
    refine ⟨fun hsucceeds => absurd hsucceeds id, ?_⟩
    rintro ⟨s', a, h'⟩
    rw [h] at h'
    cases h'

theorem forget_succeeds (texts : Texts) {c : ForgetMemory} {stamp : Stamp} :
    (commit texts (.forget c stamp) view s).2.Succeeds ↔
      ∃ s' a, applyForgetMemory texts c stamp view s = .ok (s', a) := by
  simp only [commit]
  split
  next s' outcome h => exact ⟨fun _ => ⟨s', outcome, h⟩, fun _ => trivial⟩
  next error h =>
    refine ⟨fun hsucceeds => absurd hsucceeds id, ?_⟩
    rintro ⟨s', a, h'⟩
    rw [h] at h'
    cases h'

/-- An update that finds its key is answered where the Memory that it names can be read. -/
theorem update_replays {c : UpdateMemory} {now : Timestamp}
    (hseen : KeyTaken (view 0) (c.userId, c.idempotencyKey)) :
    (∃ s' a, updateMemory c now view s = .ok (s', a)) ↔
      (c.importance.all fun value => 0 ≤ value ∧ value ≤ 1) ∧
      (c.confidence.all fun value => 0 ≤ value ∧ value ≤ 1) ∧
        RecordedMemory c.userId c.memoryId c.idempotencyKey view := by
  obtain ⟨version, hversion⟩ := Option.isSome_iff_exists.mp (getOperationVersion_isSome.mpr hseen)
  simp only [updateMemory, replayedMemory, hversion, bind_eq_ok, ensure_eq_ok, orRaise_eq_ok,
    pure_eq_ok, RecordedMemory, Option.isSome_some, true_and, Option.isSome_iff_exists,
    Prod.mk.injEq]
  constructor
  · rintro ⟨_, _, _, himportance, _, hconfidence, memory, hmemory, -⟩
    exact ⟨himportance, hconfidence, memory, hmemory⟩
  · rintro ⟨himportance, hconfidence, memory, hmemory⟩
    exact ⟨s, (memory, true), (), himportance, (), hconfidence, memory, hmemory, rfl, rfl⟩

theorem forget_replays {c : ForgetMemory} {stamp : Stamp}
    (hseen : KeyTaken (view 0) (c.userId, c.idempotencyKey)) :
    (∃ s' a, applyForgetMemory texts c stamp view s = .ok (s', a)) ↔
      RecordedMemory c.userId c.memoryId c.idempotencyKey view := by
  obtain ⟨version, hversion⟩ := Option.isSome_iff_exists.mp (getOperationVersion_isSome.mpr hseen)
  simp only [applyForgetMemory, replayedMemory, hversion, bind_eq_ok, orRaise_eq_ok, pure_eq_ok,
    RecordedMemory, Option.isSome_some, true_and, Option.isSome_iff_exists, Prod.mk.injEq]
  constructor
  · rintro ⟨_, _, memory, hmemory, -⟩
    exact ⟨memory, hmemory⟩
  · rintro ⟨memory, hmemory⟩
    exact ⟨s, ForgetMemory.outcome memory true, memory, hmemory, rfl, rfl⟩

/-- The keys under which Memories are changed. -/
def requestKeys (texts : Texts) : (system texts).Keyed (UUID × String) where
  key := Op.request
  lookup _ := 0
  OnRecord := KeyTaken
  Succeeds := Reply.Succeeds
  Answers := Op.AnswersFromRecord
  found op view k hkey hanswers := by
    cases op with
    | update author c now =>
      obtain rfl := Option.some.inj hkey
      exact getOperationVersion_isSome.mp hanswers.2.2.1
    | forget c stamp =>
      obtain rfl := Option.some.inj hkey
      exact getOperationVersion_isSome.mp hanswers.1
    | _ => cases hkey
  keeps op view s k h := by
    obtain ⟨r, hr, hk⟩ := h
    rcases commit_operations texts op view s with hsame | ⟨r', hinserted⟩
    · exact ⟨r, (congrArg (r ∈ ·) hsame).mpr hr, hk⟩
    · exact ⟨r, (Table.mem_insert? hinserted).mpr (.inl hr), hk⟩
  records op view s k hkey hsucceeds := by
    cases op with
    | update author c now =>
      obtain rfl := Option.some.inj hkey
      obtain ⟨s', ⟨memory, replayed⟩, h⟩ := (update_succeeds texts author).mp hsucceeds
      rcases updateMemory_operations h with ⟨-, hseen⟩ | ⟨r, huser, hkey', hinserted⟩
      · exact .inl hseen
      · refine .inr ⟨r, ?_, huser, hkey'⟩
        simp only [system, commit, h]
        exact (Table.mem_insert? hinserted).mpr (.inr rfl)
    | forget c stamp =>
      obtain rfl := Option.some.inj hkey
      obtain ⟨s', outcome, h⟩ := (forget_succeeds texts).mp hsucceeds
      rcases applyForgetMemory_operations h with ⟨-, hseen⟩ | ⟨r, huser, hkey', hinserted⟩
      · exact .inl hseen
      · refine .inr ⟨r, ?_, huser, hkey'⟩
        simp only [system, commit, h]
        exact (Table.mem_insert? hinserted).mpr (.inr rfl)
    | _ => cases hkey
  replays op view s k hkey hseen := by
    cases op with
    | update author c now =>
      obtain rfl := Option.some.inj hkey
      exact (update_succeeds texts author).trans (update_replays hseen)
    | forget c stamp =>
      obtain rfl := Option.some.inj hkey
      exact (forget_succeeds texts).trans (forget_replays hseen)
    | _ => cases hkey
  blocks op view s k hkey hunseen htaken hsucceeds := by
    obtain ⟨r', hr', huser', hkey''⟩ := htaken
    cases op with
    | update author c now =>
      obtain rfl := Option.some.inj hkey
      obtain ⟨s', a, h⟩ := (update_succeeds texts author).mp hsucceeds
      rcases updateMemory_operations h with ⟨-, hseen⟩ | ⟨r, huser, hkey', hinserted⟩
      · exact hunseen hseen
      · exact Table.not_conflict_of_insert? hinserted hr'
          ⟨huser'.trans huser.symm, hkey''.trans hkey'.symm⟩
    | forget c stamp =>
      obtain rfl := Option.some.inj hkey
      obtain ⟨s', a, h⟩ := (forget_succeeds texts).mp hsucceeds
      rcases applyForgetMemory_operations h with ⟨-, hseen⟩ | ⟨r, huser, hkey', hinserted⟩
      · exact hunseen hseen
      · exact Table.not_conflict_of_insert? hinserted hr'
          ⟨huser'.trans huser.symm, hkey''.trans hkey'.symm⟩
    | _ => cases hkey

end Memories

/-! ## Every space of keys -/

/-- In every history of each component, a request under the key of an earlier one that succeeded and asked
for another operation or another row does not succeed, unless it finds what was recorded for the earlier
one and can be answered from it. -/
theorem request_refused_iff (py : Builtins) (cal : PersonalState.Calendar)
    (texts : Memories.Texts) (k : UUID × String) (j : ℕ) :
    (∀ h, (PersonalState.system py cal).Reachable h → ∀ op reply op' view,
      op.request = some k → h.replies[j]? = some (op, reply) → reply.Succeeds → op'.request = some k →
        ((¬op.SameCall op' → ¬(PersonalState.commit py cal op' view h.cur).2.Succeeds) ↔
          ¬(¬op.SameCall op' ∧ op'.AnswersFromRecord view))) ∧
    (∀ h, Runtime.system.Reachable h → ∀ op reply op' view,
      op.request = some k → h.replies[j]? = some (op, reply) → reply.Succeeds → op'.request = some k →
        ((¬op.SameCall op' → ¬(Runtime.commit op' view h.cur).2.Succeeds) ↔
          ¬(¬op.SameCall op' ∧ op'.AnswersFromRecord view))) ∧
    (∀ h, (Automations.system cal).Reachable h → ∀ op reply op' view,
      op.request = some k → h.replies[j]? = some (op, reply) → reply.Succeeds → op'.request = some k →
        ((¬op.SameCall op' → ¬(h.cur.commit cal op' view).2.Succeeds) ↔
          ¬(¬op.SameCall op' ∧ op'.AnswersFromRecord view))) ∧
    (∀ h, (Memories.system texts).Reachable h → ∀ op reply op' view,
      op.request = some k → h.replies[j]? = some (op, reply) → reply.Succeeds → op'.request = some k →
        ((¬op.SameCall op' → ¬(Memories.commit texts op' view h.cur).2.Succeeds) ↔
          ¬(¬op.SameCall op' ∧ op'.AnswersFromRecord view))) := by
  refine ⟨?_, ?_, ?_, ?_⟩
  · intro h hr op reply op' view hkey hreply hsucceeds hkey'
    exact (PersonalState.requestKeys py cal).refuses_iff PersonalState.Op.SameCall hr hkey hreply
      hsucceeds hkey'
  · intro h hr op reply op' view hkey hreply hsucceeds hkey'
    exact Runtime.requestKeys.refuses_iff Runtime.Op.SameCall hr hkey hreply hsucceeds hkey'
  · intro h hr op reply op' view hkey hreply hsucceeds hkey'
    exact (Automations.requestKeys cal).refuses_iff Automations.Op.SameCall hr hkey hreply hsucceeds
      hkey'
  · intro h hr op reply op' view hkey hreply hsucceeds hkey'
    exact (Memories.requestKeys texts).refuses_iff Memories.Op.SameCall hr hkey hreply hsucceeds hkey'

/-! ## A key that was used before -/

namespace PersonalState

open Runtime

/-- User 1 creates the Things 10 and 20. -/
def moved : History State Op Reply := (system noRepr noDates).serial {} createMoves

/-- User 1 reports a Blocker on Thing 10 under the key of the creation of the Thing. -/
def blockMove : Op :=
  .createBlocker
    { userId := 1, thingId := 10, description := "No boxes", severity := .high, actionId := "action",
      idempotencyKey := "move", reason := "said so" } (stampsFrom 30 0)

theorem moved_reply :
    ∃ reply, moved.replies[1]? = some (createMove, reply) ∧ reply.Succeeds :=
  ⟨_, rfl, trivial⟩

/-- There is no Blocker that the report could be answered from, so it is refused. -/
theorem request_refused_iff_blockMove :
    ¬(commit noRepr noDates blockMove (fun _ => moved.cur) moved.cur).2.Succeeds := by
  obtain ⟨reply, hreply, hsucceeds⟩ := moved_reply
  have hempty : moved.cur.blockers.rows = [] := by decide +kernel
  have hunanswered : ¬(¬createMove.SameCall blockMove ∧
      blockMove.AnswersFromRecord fun _ => moved.cur) := by
    rintro ⟨-, userId, key, m, -, -, hanswerable⟩
    obtain ⟨blocker, hblocker⟩ := Option.isSome_iff_exists.mp hanswerable.visible
    have hmem := Table.mem_rows.mpr (Table.get_eq_some hblocker).1
    rw [hempty] at hmem
    cases hmem
  exact ((request_refused_iff noRepr noDates Memories.plainTexts (1, "move") 1).1 moved
    ((system noRepr noDates).serial_reachable rfl _) createMove reply blockMove _ rfl hreply hsucceeds
    rfl).mpr hunanswered id

/-- User 1 deletes Thing 20 under the key of the creation of Thing 10. -/
def deleteMoving : Op :=
  .deleteThing
    { userId := 1, thingId := 20, expectedVersion := 1, actionId := "action", idempotencyKey := "move",
      reason := "said so" } (stampsFrom 30 0)

/-- The deletion is told of success, with the id of the other Thing, and deletes nothing. -/
theorem deleteMoving_not_applied :
    (system noRepr noDates).Reachable moved ∧
      (∃ reply, moved.replies[1]? = some (createMove, reply) ∧ reply.Succeeds) ∧
      createMove.request = deleteMoving.request ∧ ¬createMove.SameCall deleteMoving ∧
      (commit noRepr noDates deleteMoving (fun _ => moved.cur) moved.cur).2.Succeeds ∧
      deleteMoving.targetOf (commit noRepr noDates deleteMoving (fun _ => moved.cur) moved.cur).2 =
        some (.str (10 : UUID).str) ∧
      (commit noRepr noDates deleteMoving (fun _ => moved.cur) moved.cur).1 = moved.cur := by
  refine ⟨(system noRepr noDates).serial_reachable rfl _, moved_reply, rfl, id, trivial, ?_, ?_⟩
  · decide +kernel
  · decide +kernel

end PersonalState
