import Laoshiren.Memories.Effects

/-!
# The life of a Memory

An update writes back a row that its transaction loaded, on the condition that the version is still the
one that was loaded. Since every change of a Memory raises its version, the row that is replaced is the
one that was loaded.
-/

namespace Memories

open Runtime Raise
open PersonalState (Memory CreateMemory)
open PersonalState.MemoryRepository (updateWhere updateValues)

variable {texts : Texts} {op : Op} {view : ℕ → State} {s s' : State}

/-! ## What a step writes -/

/-- What `apply_create_memory` answers, and what it stores. -/
theorem create_cases {c : CreateMemory} {stamp : Stamp} {view : ℕ → PersonalState.State}
    {s s' : PersonalState.State} {outcome : WriteOutcome}
    (h : PersonalState.applyCreateMemory c stamp view s = .ok (s', outcome)) :
    s' = s ∧ outcome.code ∈ ["MEMORY_SUPPRESSED", "MEMORY_STATE_DUPLICATE"] ∧
        (c.suppressed = true ∨ c.duplicatesState = true) ∨
      s' = s ∧ (∃ previous, outcome = CreateMemory.outcome previous true) ∨
      c.suppressed = false ∧ c.duplicatesState = false ∧
        PersonalState.MemoryRepository.getByIdempotency c.userId c.idempotencyKey
          (view 0).memories = none ∧
        ∃ superseded before memories,
          c.supersede stamp.now view s.memories = .ok (superseded, before) ∧
          before.insert? (c.memory superseded stamp) = some memories ∧ s' = { s with memories } ∧
          outcome = CreateMemory.outcome (c.memory superseded stamp) false := by
  simp only [PersonalState.applyCreateMemory, bind_eq_ok] at h
  obtain ⟨_, -, _, -, _, -, _, -, h⟩ := h
  split at h
  next hsuppressed =>
    simp only [pure_eq_ok, Prod.mk.injEq] at h
    obtain ⟨rfl, rfl⟩ := h
    exact .inl ⟨rfl, .head _, .inl hsuppressed⟩
  next hsuppressed =>
  split at h
  next hduplicates =>
    simp only [pure_eq_ok, Prod.mk.injEq] at h
    obtain ⟨rfl, rfl⟩ := h
    exact .inl ⟨rfl, .tail _ (.head _), .inr hduplicates⟩
  next hduplicates =>
  split at h
  next previous hprevious =>
    simp only [pure_eq_ok, Prod.mk.injEq] at h
    obtain ⟨rfl, rfl⟩ := h
    exact .inr (.inl ⟨rfl, previous, rfl⟩)
  next hnew =>
    simp only [bind_eq_ok, orRaise_eq_ok, pure_eq_ok, Prod.mk.injEq, Prod.exists] at h
    obtain ⟨_, -, _, -, superseded, before, hbefore, memories, hmemories, rfl, rfl⟩ := h
    exact .inr (.inr ⟨by simpa using hsuppressed, by simpa using hduplicates, hnew, superseded, before, memories, hbefore,
      hmemories, rfl, rfl⟩)

/-- The answers that a forget does not give. -/
theorem ne_forgotten {outcome : WriteOutcome} (h : outcome.code ≠ "MEMORY_FORGOTTEN") (memory : Memory) :
    Reply.outcome outcome ≠ .outcome (ForgetMemory.outcome memory false) := by
  intro heq
  obtain rfl := Reply.outcome.inj heq
  exact h rfl

theorem writes_create {c : CreateMemory} {reconcileState : Bool} {stamp : Stamp}
    {outcome : WriteOutcome}
    (hop : op = .create c stamp ∧ reconcileState = false ∨
      op = .createIfAllowed c stamp ∧ reconcileState = true)
    (h : applyCreateMemory texts c reconcileState stamp view s = .ok (s', outcome)) :
    Writes texts op view s s' (.outcome outcome) ∨
      s' = s ∧ outcome.code ∈ ["MEMORY_SUPPRESSED", "MEMORY_STATE_DUPLICATE"] := by
  simp only [applyCreateMemory, bind_eq_ok, Prod.exists] at h
  obtain ⟨state, outcome', hcreate, h⟩ := h
  have hsame : ∀ c' : CreateMemory,
      (if reconcileState then reconciled texts c view else unreconciled c) = c' →
      c'.userId = c.userId ∧ c'.content = c.content ∧ c'.idempotencyKey = c.idempotencyKey ∧
        c'.supersede = c.supersede ∧ c'.memory = c.memory := by
    rintro c' rfl
    cases reconcileState <;> exact ⟨rfl, rfl, rfl, rfl, rfl⟩
  obtain ⟨huser, hcontent, hkey, hsupersede, hmemory⟩ := hsame _ rfl
  rcases create_cases hcreate with ⟨rfl, hcode, -⟩ | ⟨rfl, previous, rfl⟩ |
    ⟨hsuppressed, hduplicates, hnew, superseded, before, memories, hbefore, hinsert, rfl, rfl⟩
  · have hnot : remembered outcome' = false := by
      rcases List.mem_pair.mp hcode with hcode | hcode <;> simp [remembered, hcode]
    simp only [hnot, Bool.false_eq_true, if_false, pure_eq_ok, Prod.mk.injEq] at h
    obtain ⟨rfl, rfl⟩ := h
    exact .inr ⟨rfl, hcode⟩
  · have hnot : remembered (CreateMemory.outcome previous true) = false := by
      simp [remembered, CreateMemory.outcome, Dict.get_ofFields, List.lookup_cons]
    simp only [hnot, Bool.false_eq_true, if_false, pure_eq_ok, Prod.mk.injEq] at h
    obtain ⟨rfl, rfl⟩ := h
    exact .inl (.nothing (ne_forgotten (by simp [CreateMemory.outcome])))
  · have hyes : ∀ memory : Memory, remembered (CreateMemory.outcome memory false) = true := by
      intro memory
      simp [remembered, CreateMemory.outcome, Dict.get_ofFields, List.lookup_cons]
    simp only [hyes, if_true, pure_eq_ok, Prod.mk.injEq] at h
    obtain ⟨rfl, rfl⟩ := h
    rw [huser, hkey] at hnew
    rw [hsupersede] at hbefore
    rw [hmemory] at hinsert
    rw [huser, hcontent, hmemory]
    refine .inl (.created ?_ hnew hbefore hinsert)
    rcases hop with ⟨hop, -⟩ | ⟨hop, rfl⟩
    · exact .inl hop
    · exact .inr ⟨hop, hsuppressed, hduplicates⟩

theorem load_ok {userId memoryId : UUID} {expectedVersion : ℤ} {t : Table Memory} {memory : Memory}
    (h : loadMemory userId memoryId expectedVersion t = .ok memory) :
    MemoryRepository.get userId memoryId t = some memory ∧
      (memory.version : ℤ) = expectedVersion := by
  simp only [loadMemory, bind_eq_ok, orRaise_eq_ok, ensure_eq_ok, pure_eq_ok] at h
  obtain ⟨_, hget, _, hversion, rfl⟩ := h
  exact ⟨hget, hversion⟩

theorem writes_update {author : Author} {c : UpdateMemory} {now : Timestamp} {memory : Memory}
    {replayed : Bool}
    (h : updateMemory c now view s = .ok (s', memory, replayed)) :
    Writes texts (.update author c now) view s s' (.memory memory replayed) := by
  simp only [updateMemory, bind_eq_ok] at h
  obtain ⟨_, -, _, -, h⟩ := h
  split at h
  next =>
    simp only [bind_eq_ok, pure_eq_ok, Prod.mk.injEq] at h
    obtain ⟨_, -, rfl, rfl, rfl⟩ := h
    exact .nothing fun _ => Reply.noConfusion
  next hnone =>
    simp only [bind_eq_ok, pure_eq_ok, Prod.mk.injEq] at h
    obtain ⟨loaded, hload, revised, hrevised, _, hwrite, rfl, rfl, rfl⟩ := h
    obtain ⟨hget, hversion⟩ := load_ok hload
    exact .updated rfl ⟨hnone, hget, hversion⟩ hrevised hwrite

theorem writes_forget {c : ForgetMemory} {stamp : Stamp} {outcome : WriteOutcome}
    (h : applyForgetMemory texts c stamp view s = .ok (s', outcome)) :
    Writes texts (.forget c stamp) view s s' (.outcome outcome) := by
  simp only [applyForgetMemory] at h
  split at h
  next =>
    simp only [bind_eq_ok, pure_eq_ok, Prod.mk.injEq] at h
    obtain ⟨replay, -, rfl, rfl⟩ := h
    refine .nothing fun memory heq => ?_
    have hreplayed := congrArg (fun o : WriteOutcome => o.data.get "replayed")
      (Reply.outcome.inj heq)
    simp [ForgetMemory.outcome, Dict.get_ofFields] at hreplayed
  next hnone =>
    simp only [bind_eq_ok, orRaise_eq_ok, pure_eq_ok, Prod.mk.injEq] at h
    obtain ⟨memory, hload, written, hwrite, suppressions, hrecord, rfl, rfl⟩ := h
    obtain ⟨hget, hversion⟩ := load_ok hload
    have hkept : written.suppressions = s.suppressions := by
      simp only [writeBack, bind_eq_ok, orRaise_eq_ok, ensure_eq_ok, pure_eq_ok] at hwrite
      obtain ⟨_, -, _, -, _, -, rfl⟩ := hwrite
      rfl
    rw [hkept] at hrecord
    exact .forgotten rfl ⟨hnone, hget, hversion⟩ hwrite hrecord

/-- Every step writes one of the few things that a step can write. -/
theorem writes_commit (texts : Texts) (op : Op) (view : ℕ → State) (s : State) :
    Writes texts op view s (commit texts op view s).1 (commit texts op view s).2 := by
  have hraised : ∀ error, Writes texts op view s s (.raised error) :=
    fun error => .nothing fun _ => Reply.noConfusion
  have hnotAllowed : Writes texts op view s s .notAllowed := .nothing fun _ => Reply.noConfusion
  cases op with
  | create c stamp =>
    rw [commit]
    split
    next s' outcome h =>
      rcases writes_create (.inl ⟨rfl, rfl⟩) h with hwrites | ⟨rfl, hcode⟩
      · exact hwrites
      · refine .nothing (ne_forgotten ?_)
        rcases List.mem_pair.mp hcode with hcode | hcode <;> simp [hcode]
    next => exact hraised _
  | createIfAllowed c stamp =>
    rw [commit]
    split
    next s' outcome h =>
      rcases writes_create (.inr ⟨rfl, rfl⟩) h with hwrites | ⟨rfl, hcode⟩
      · split
        · exact hnotAllowed
        · exact hwrites
      · rw [if_pos hcode]
        exact hnotAllowed
    next => exact hraised _
  | update author c now =>
    rw [commit]
    split
    next s' memory replayed h => exact writes_update h
    next => exact hraised _
  | forget c stamp =>
    rw [commit]
    split
    next s' outcome h => exact writes_forget h
    next => exact hraised _
  | other change hforeign => exact .foreign rfl

/-! ## Rows -/

theorem Later.refl (r : Memory) : Later r r := .inl rfl

theorem Later.trans {r r' r'' : Memory} (h : Later r r') (h' : Later r' r'') : Later r r'' := by
  rcases h with rfl | ⟨⟨hid, huser, hkey, hsupersedes⟩, hversion, hstatus, hactive⟩
  · exact h'
  · rcases h' with rfl | ⟨⟨hid', huser', hkey', hsupersedes'⟩, hversion', -, hactive'⟩
    · exact .inr ⟨⟨hid, huser, hkey, hsupersedes⟩, hversion, hstatus, hactive⟩
    · refine .inr ⟨⟨hid'.trans hid, huser'.trans huser, hkey'.trans hkey,
        hsupersedes'.trans hsupersedes⟩, ?_, hstatus, fun h => hactive (hactive' h)⟩
      omega

theorem Later.same {r r' : Memory} (h : Later r r') :
    r'.id = r.id ∧ r'.userId = r.userId ∧ r'.idempotencyKey = r.idempotencyKey ∧
      r'.supersedesId = r.supersedesId := by
  rcases h with rfl | ⟨hsame, -⟩
  · exact ⟨rfl, rfl, rfl, rfl⟩
  · exact hsame

theorem Later.id_eq {r r' : Memory} (h : Later r r') : r'.id = r.id := h.same.1

/-- A Memory that was loaded is the one of its id that has its version. -/
theorem current_of_version {seen t : Table Memory} (hgrows : Table.Grows Later (fun _ => True) seen t)
    {memory r : Memory} (hseen : memory ∈ seen) (hr : r ∈ t) (hid : r.id = memory.id)
    (hversion : r.version = memory.version) : r = memory := by
  obtain ⟨r', hr', hlater⟩ := hgrows.kept memory hseen
  obtain rfl := Table.eq_of_conflict hr hr' (.inl (hid.trans hlater.id_eq.symm))
  rcases hlater with hsame | ⟨-, hlt, -⟩
  · exact hsame
  · omega

/-- What `update` makes of a Memory. -/
theorem revised_later {c : UpdateMemory} {memory revised : Memory} {now : Timestamp}
    (h : c.revised memory now = .ok revised) :
    updateValues revised memory = revised ∧ Later memory revised ∧ revised ≠ memory := by
  unfold UpdateMemory.revised at h
  split at h
  next =>
    simp only [supersede, bind_eq_ok, ensure_eq_ok, pure_eq_ok] at h
    obtain ⟨_, hstatus, rfl⟩ := h
    refine ⟨rfl, .inr ⟨⟨rfl, rfl, rfl, rfl⟩, Nat.lt_succ_self _, hstatus, by simp⟩, fun heq => ?_⟩
    exact Nat.succ_ne_self _ (congrArg Memory.version heq)
  next =>
    simp only [revise, bind_eq_ok, ensure_eq_ok, pure_eq_ok] at h
    obtain ⟨_, hactive, _, -, _, -, rfl⟩ := h
    refine ⟨rfl, .inr ⟨⟨rfl, rfl, rfl, rfl⟩, Nat.lt_succ_self _, ?_, fun _ => hactive⟩,
      fun heq => Nat.succ_ne_self _ (congrArg Memory.version heq)⟩
    simp [hactive]

theorem delete_later (memory : Memory) (now : Timestamp) :
    updateValues (delete memory now) memory = delete memory now ∧
      Later memory (delete memory now) ∧ (delete memory now).status = .deleted := by
  unfold delete
  split
  next hdeleted => exact ⟨rfl, .refl _, hdeleted⟩
  next hstatus =>
    exact ⟨rfl, .inr ⟨⟨rfl, rfl, rfl, rfl⟩, Nat.lt_succ_self _, hstatus, nofun⟩, rfl⟩

/-- A statement that writes a row back, on the condition that its version is the one that was loaded. -/
theorem replaces_of_loaded {seen t t' : Table Memory} (hgrows : Table.Grows Later (fun _ => True) seen t)
    {memory revised : Memory} (hseen : memory ∈ seen) (hlater : Later memory revised)
    (hvalues : updateValues revised memory = revised)
    (hcount : t.rowcount (updateWhere revised memory.version) = 1)
    (hupdate : t.update? (updateWhere revised memory.version) (updateValues revised) = some t') :
    Table.Replaces memory revised t t' := by
  have honly : ∀ r ∈ t, updateWhere revised memory.version r = true → r = memory := by
    intro r hr hp
    obtain ⟨hid, hversion⟩ := of_decide_eq_true hp
    exact current_of_version hgrows hseen hr (hid.trans hlater.id_eq) hversion
  obtain ⟨r, hr, hp⟩ := Table.exists_of_rowcount_eq_one hcount
  obtain rfl := honly r hr hp
  have hreplaces := Table.Replaces.of_rows (Table.rows_update? hupdate) hr hp honly
  rwa [hvalues] at hreplaces

theorem writeBack_ok {seen : Table Memory} (hgrows : Table.Grows Later (fun _ => True) seen s.memories)
    {memory revised : Memory} {key : String} (hseen : memory ∈ seen) (hlater : Later memory revised)
    (hvalues : updateValues revised memory = revised)
    (hwrite : writeBack revised memory.version key s = .ok s') :
    Table.Replaces memory revised s.memories s'.memories ∧
      s' = { s with memories := s'.memories, operations := s'.operations } := by
  simp only [writeBack, bind_eq_ok, orRaise_eq_ok, ensure_eq_ok, pure_eq_ok] at hwrite
  obtain ⟨memories, hupdate, _, hcount, operations, -, rfl⟩ := hwrite
  exact ⟨replaces_of_loaded hgrows hseen hlater hvalues hcount hupdate, rfl⟩

/-- The active Memory of the profile key is superseded, where there is one. -/
theorem supersede_ok {c : CreateMemory} {now : Timestamp} {view : ℕ → PersonalState.State}
    {t before : Table Memory} {superseded : Option Memory}
    (hgrows : Table.Grows Later (fun _ => True) (view 2).memories t)
    (h : c.supersede now view t = .ok (superseded, before)) :
    superseded = none ∧ before = t ∨ ∃ memory revised, superseded = some memory ∧
      Later memory revised ∧ revised.status = .superseded ∧ Table.Replaces memory revised t before := by
  unfold CreateMemory.supersede at h
  split at h
  next =>
    simp only [pure_eq_ok, Prod.mk.injEq] at h
    exact .inl ⟨h.1.symm, h.2.symm⟩
  next memory hfound =>
    simp only [bind_eq_ok, orRaise_eq_ok, ensure_eq_ok, pure_eq_ok, Prod.mk.injEq] at h
    obtain ⟨memories, hupdate, _, hcount, rfl, rfl⟩ := h
    obtain ⟨key, -, hkey⟩ := Option.bind_eq_some_iff.mp hfound
    obtain ⟨hseen, hwhere⟩ := Table.get_eq_some hkey
    have hactive : memory.status = .active := (of_decide_eq_true hwhere).2.2.1
    have hlater : Later memory { memory with
        status := .superseded, updatedAt := now, version := memory.version + 1 } :=
      .inr ⟨⟨rfl, rfl, rfl, rfl⟩, Nat.lt_succ_self _, by simp [hactive], by simp⟩
    exact .inr ⟨memory, _, rfl, hlater, rfl,
      replaces_of_loaded hgrows hseen hlater rfl hcount hupdate⟩

/-! ## Growth -/

/-- Tables of Memories, one before the other: the ones that are new may have changed since. -/
theorem grows_trans {t t' t'' : Table Memory} (h : Table.Grows Later (fun _ => True) t t')
    (h' : Table.Grows Later (fun _ => True) t' t'') : Table.Grows Later (fun _ => True) t t'' :=
  h.trans h' (fun _ _ _ => Later.trans) fun _ _ _ _ => trivial

/-- What a step makes of the Memories: their rows move to later versions, and one may be added. -/
theorem grows_writes (hviews : ∀ n, Table.Grows Later (fun _ => True) (view n).memories s.memories)
    {reply : Reply} (h : Writes texts op view s s' reply) :
    Table.Grows Later Fresh s.memories s'.memories := by
  cases h with
  | nothing => exact .refl Later.refl _
  | @created c stamp superseded before memories _ _ hbefore hinsert =>
    have hsupersede : Table.Grows Later (fun _ => False) s.memories before := by
      rcases supersede_ok (hviews 4) hbefore with ⟨-, rfl⟩ |
        ⟨memory, revised, -, hlater, -, hreplaces⟩
      · exact .refl Later.refl _
      · exact hreplaces.grows Later.refl hlater
    have hfresh : Fresh (c.memory superseded stamp) := ⟨rfl, rfl⟩
    exact hsupersede.trans (.insert? Later.refl hfresh hinsert) (fun _ _ _ => Later.trans)
      fun _ _ hnone _ => hnone.elim
  | updated _ hloads hrevised hwrite =>
    obtain ⟨hvalues, hlater, -⟩ := revised_later hrevised
    obtain ⟨hreplaces, -⟩ := writeBack_ok (hviews 1) (Table.get_eq_some hloads.2.1).1 hlater hvalues
      hwrite
    exact hreplaces.grows Later.refl hlater
  | forgotten _ hloads hwrite =>
    obtain ⟨hvalues, hlater, -⟩ := delete_later _ _
    obtain ⟨hreplaces, -⟩ := writeBack_ok (hviews 1) (Table.get_eq_some hloads.2.1).1 hlater hvalues
      hwrite
    exact hreplaces.grows Later.refl hlater
  | @foreign change hforeign =>
    rw [(hforeign s).memories]
    exact .refl Later.refl _

/-! ## What Memories supersede -/

theorem supersedes_iff {t : Table Memory} {id target : UUID} :
    supersedes t id = some target ↔ ∃ r ∈ t, r.id = id ∧ r.supersedesId = some target := by
  constructor
  · intro h
    obtain ⟨r, hget, hr⟩ := Option.bind_eq_some_iff.mp h
    obtain ⟨hmem, hid⟩ := Table.get_eq_some hget
    exact ⟨r, hmem, of_decide_eq_true hid, hr⟩
  · rintro ⟨r, hmem, hid, hr⟩
    have hget : t.get (fun r => r.id = id) = some r := by
      refine Table.get_of_mem hmem (by simpa using hid) fun r' hr' => .inl ?_
      have hid' : r'.id = id := by simpa using hr'
      rw [hid', hid]
    rw [supersedes, hget]
    exact hr

theorem Descends.moves {t t' : Table Memory} (h : Descends t) (hmoves : Table.Moves Later t t') :
    Descends t' where
  there r' hr' id hid := by
    obtain ⟨r, hr, hlater⟩ := hmoves.mem hr'
    rw [hlater.same.2.2.2] at hid
    obtain ⟨target, htarget, htargetId⟩ := h.there r hr id hid
    obtain ⟨target', htarget', hlater'⟩ := hmoves.exists_mem htarget
    exact ⟨target', htarget', hlater'.id_eq.trans htargetId⟩
  acyclic := by
    refine h.acyclic.mono fun a b hab => ?_
    obtain ⟨r', hr', hid, hsupersedes⟩ := supersedes_iff.mp hab
    obtain ⟨r, hr, hlater⟩ := hmoves.mem hr'
    obtain ⟨hid', -, -, hsupersedes'⟩ := hlater.same
    exact supersedes_iff.mpr ⟨r, hr, hid'.symm.trans hid, hsupersedes'.symm.trans hsupersedes⟩

/-- A new Memory may supersede one that is there: nothing supersedes the new one yet. -/
theorem Descends.insert {t t' : Table Memory} (h : Descends t) {memory : Memory}
    (hinsert : t.insert? memory = some t')
    (hthere : ∀ id ∈ memory.supersedesId, ∃ r ∈ t, r.id = id) : Descends t' := by
  have hfree : ∀ r ∈ t, r.id ≠ memory.id := fun r hr hid =>
    Table.not_conflict_of_insert? hinsert hr (.inl hid)
  refine ⟨fun r hr id hid => ?_, ?_⟩
  · have htarget : ∃ r' ∈ t, r'.id = id := by
      rcases (Table.mem_insert? hinsert).mp hr with hold | rfl
      · exact h.there r hold id hid
      · exact hthere id hid
    obtain ⟨r', hr', hid'⟩ := htarget
    exact ⟨r', (Table.mem_insert? hinsert).mpr (.inl hr'), hid'⟩
  have hnew : ∀ a b, supersedes t' a = some b →
      supersedes t a = some b ∨ a = memory.id ∧ memory.supersedesId = some b := by
    intro a b hab
    obtain ⟨r, hr, hid, hsupersedes⟩ := supersedes_iff.mp hab
    rcases (Table.mem_insert? hinsert).mp hr with hold | rfl
    · exact .inl (supersedes_iff.mpr ⟨r, hold, hid, hsupersedes⟩)
    · exact .inr ⟨hid.symm, hsupersedes⟩
  cases hsuperseded : memory.supersedesId with
  | none =>
    refine h.acyclic.mono fun a b hab => ?_
    rcases hnew a b hab with hold | ⟨-, hsome⟩
    · exact hold
    · rw [hsuperseded] at hsome
      cases hsome
  | some target =>
    obtain ⟨row, hrow, hrowId⟩ := hthere target hsuperseded
    refine h.acyclic.redirect (a := memory.id) (b := target) (fun a b hab => ?_) fun hleads => ?_
    · refine (hnew a b hab).imp_right fun ⟨ha, hb⟩ => ⟨ha, ?_⟩
      exact (Option.some.inj (hsuperseded.symm.trans hb)).symm
    -- nothing leads to the new Memory: it is no target of the ones that were there
    rcases Relation.ReflTransGen.cases_tail hleads with heq | ⟨b, -, hstep⟩
    · exact hfree row hrow (hrowId.trans heq.symm)
    · obtain ⟨r, hr, -, hsupersedes⟩ := supersedes_iff.mp hstep
      obtain ⟨r', hr', hid'⟩ := h.there r hr _ hsupersedes
      exact hfree r' hr' hid'

theorem descends_writes (hviews : ∀ n, Table.Grows Later (fun _ => True) (view n).memories s.memories)
    (hdescends : Descends s.memories) {reply : Reply} (h : Writes texts op view s s' reply) :
    Descends s'.memories := by
  cases h with
  | nothing => exact hdescends
  | @created c stamp superseded before memories _ _ hbefore hinsert =>
    rcases supersede_ok (hviews 4) hbefore with ⟨rfl, rfl⟩ |
      ⟨memory, revised, rfl, hlater, -, hreplaces⟩
    · exact hdescends.insert hinsert nofun
    · refine (hdescends.moves (hreplaces.moves Later.refl hlater)).insert hinsert ?_
      intro id hid
      have hmemory : memory.id = id := Option.some.inj hid
      exact ⟨revised, hreplaces.mem_new, hlater.id_eq.trans hmemory⟩
  | updated _ hloads hrevised hwrite =>
    obtain ⟨hvalues, hlater, -⟩ := revised_later hrevised
    obtain ⟨hreplaces, -⟩ := writeBack_ok (hviews 1) (Table.get_eq_some hloads.2.1).1 hlater hvalues
      hwrite
    exact hdescends.moves (hreplaces.moves Later.refl hlater)
  | forgotten _ hloads hwrite =>
    obtain ⟨hvalues, hlater, -⟩ := delete_later _ _
    obtain ⟨hreplaces, -⟩ := writeBack_ok (hviews 1) (Table.get_eq_some hloads.2.1).1 hlater hvalues
      hwrite
    exact hdescends.moves (hreplaces.moves Later.refl hlater)
  | @foreign change hforeign =>
    rw [(hforeign s).memories]
    exact hdescends

/-- In every interleaving the Memories move to later versions, and what they superseded was there
before them. -/
theorem stable_memories (texts : Texts) :
    Program.Stable (system texts) (fun _ _ _ => True) (fun s => Descends s.memories)
      fun v s => Table.Grows Later (fun _ => True) v.memories s.memories where
  init s hs := by
    subst hs
    refine ⟨fun r hr => absurd hr Table.not_mem_empty, Redirects.acyclic_of_none fun _ => rfl⟩
  refl s := .refl Later.refl _
  trans _ _ _ := grows_trans
  step op view s hdescends hviews _ := by
    have hwrites := writes_commit texts op view s
    refine ⟨descends_writes (fun n => (hviews n).2) hdescends hwrites, ?_⟩
    exact (grows_writes (fun n => (hviews n).2) hwrites).imp (fun _ _ h => h) fun _ _ => trivial

/-- In every interleaving of what the user and the formation do, a user has one active Memory of a
profile key at most; a Memory that is not active stays so, a deleted one stays as it is, and every
change raises the version; and no Memories superseded each other in a circle. -/
theorem memory_lifecycle (texts : Texts) {h : History State Op Reply}
    (hr : (system texts).Reachable h) :
    (∀ s ∈ h.states,
      (∀ r ∈ s.memories, ∀ r' ∈ s.memories, r.userId = r'.userId → r.profileKey = r'.profileKey →
        r.holdsProfile → r'.holdsProfile → r = r') ∧
      Redirects.Acyclic (supersedes s.memories)) ∧
    ∀ i j : Fin h.states.length, i ≤ j → ∀ r ∈ (h.stateAt i).memories,
      ∃ r' ∈ (h.stateAt j).memories, r'.id = r.id ∧
        (r.status ≠ .active → r'.status ≠ .active) ∧ (r.status = .deleted → r' = r) ∧
        (r' = r ∨ r.version < r'.version) := by
  refine ⟨fun s hs => ⟨fun r hmem r' hmem' huser hkey hholds hholds' => ?_, ?_⟩,
    fun i j hij r hmem => ?_⟩
  · exact Table.eq_of_conflict hmem hmem' (.inr (.inr ⟨huser, hkey, hholds, hholds'⟩))
  · exact ((stable_memories texts).inv_mem hr hs).acyclic
  · obtain ⟨r', hr', hlater⟩ := ((stable_memories texts).rel_stateAt hr hij).kept r hmem
    refine ⟨r', hr', hlater.id_eq, ?_⟩
    rcases hlater with rfl | ⟨-, hversion, hstatus, hactive⟩
    · exact ⟨fun h => h, fun _ => rfl, .inl rfl⟩
    · exact ⟨fun hne heq => hne (hactive heq), fun hdeleted => absurd hdeleted hstatus,
        .inr hversion⟩

/-- The digests of the contents in the examples. -/
def digests : List (String × String) :=
  [("用中文", "95d479de75dfedccfc41e4a9d63db4204d8efe37a877ee3fbda0867c4f12e00e"),
    ("用英文", "131099e0e310b9f7b782bc1aecdf214e1e68d137b1f9787b89e539d12efd6c7d"),
    ("喝茶", "cb79e0cecd8e93924ba108c614d08551c90bc9c9a09d39e60cc82ab97aa75134"),
    ("喝水", "a8720cdfc7de0556d4f07364bf2c05db1ad77ac505a200a0a522d1b1cbaa02ef")]

/-- The interpreter on the contents of the examples, which have no letter case and no dates. -/
def plainTexts : Texts where
  casefold text := text
  sha256 text := (digests.lookup text).getD ""
  isoDate _ := ""
  casefold_ne_empty _ h := h

/-- What user 1 is asked to be spoken to in. -/
def language (content key : String) : CreateMemory where
  userId := 1
  memoryType := .profile
  content
  summary := content
  importance := 3 / 5
  confidence := 7 / 10
  idempotencyKey := key
  profileKey := some "preference:language"

/-- User 1 names a language, the formation finds another one, and the user forgets that one. -/
def twoLanguages : History State Op Reply :=
  (system plainTexts).serial {}
    [.create (language "用中文" "remember-1") ⟨11, 1⟩,
      .createIfAllowed (language "用英文" "agent-memory-1") ⟨12, 2⟩,
      .forget ⟨1, 12, 1, "forget-1"⟩ ⟨21, 3⟩]

/-- The first language is superseded and stays so, and the second one is forgotten. -/
theorem memory_lifecycle_languages :
    ∃ r ∈ (twoLanguages.stateAt ⟨1, by decide⟩).memories, r.status = .active ∧
      ∃ r' ∈ (twoLanguages.stateAt ⟨3, by decide⟩).memories, r'.id = r.id ∧
        (r' = r ∨ r.version < r'.version) := by
  have hreachable : (system plainTexts).Reachable twoLanguages :=
    (system _).serial_reachable rfl _
  have hrow : ∃ r ∈ (twoLanguages.stateAt ⟨1, by decide⟩).memories.rows, r.status = .active := by
    decide +kernel
  obtain ⟨r, hr, hactive⟩ := hrow
  obtain ⟨r', hr', hid, -, -, hversion⟩ := (memory_lifecycle plainTexts hreachable).2
    ⟨1, by decide⟩ ⟨3, by decide⟩ (by decide) r hr
  exact ⟨r, hr, hactive, r', hr', hid, hversion⟩

end Memories
