import Laoshiren.Memories.Proofs.ForgettingProofs

/-!
# Supersession

`_apply` retires the target in one transaction and creates the Memory that takes its place in another.
Both are evaluated here on the state that they commit on, and so is what a crash between them leaves.
-/

namespace Memories

open Runtime Raise
open PersonalState (Memory CreateMemory)
open PersonalState.MemoryRepository (updateWhere updateValues)

variable {texts : Texts} {candidate : MemoryCandidate} {context : FormationContext}
  {s s' : State} {c : CreateMemory} {stamp : Stamp}

/-! ## Superseding the active profile -/

/-- The active Memory of the profile key that a new Memory supersedes. -/
theorem superseded_iff {r : Memory} {t : Table Memory} (hr : r ∈ t) :
    (c.namedKey.bind fun key => PersonalState.MemoryRepository.getActiveProfile c.userId key t) =
        some r ↔
      r.userId = c.userId ∧ r.memoryType = .profile ∧ r.status = .active ∧ r.profileKey.isSome = true ∧
        r.profileKey = c.namedKey := by
  unfold PersonalState.MemoryRepository.getActiveProfile
  constructor
  · intro h
    obtain ⟨key, hkey, hget⟩ := Option.bind_eq_some_iff.mp h
    obtain ⟨huser, htype, hstatus, hprofile⟩ := of_decide_eq_true (Table.get_eq_some hget).2
    exact ⟨huser, htype, hstatus, by simp [hprofile], hprofile.trans hkey.symm⟩
  · rintro ⟨huser, htype, hstatus, hsome, hprofile⟩
    obtain ⟨key, hkey⟩ := Option.isSome_iff_exists.mp hsome
    refine Option.bind_eq_some_iff.mpr ⟨key, hprofile.symm.trans hkey, ?_⟩
    refine Table.get_of_mem hr (decide_eq_true ⟨huser, htype, hstatus, hkey⟩) fun r' hr' => ?_
    obtain ⟨huser', htype', hstatus', hprofile'⟩ := of_decide_eq_true hr'
    refine .inr (.inr ⟨huser'.trans huser.symm, hprofile'.trans hkey.symm,
      ⟨htype', hstatus', ?_⟩, htype, hstatus, ?_⟩)
    · rw [hprofile']
      nofun
    · rw [hkey]
      nofun

/-- A Memory that stops to be active conflicts with no more rows than before. -/
theorem exists_update_inactive {p : Memory → Bool} {revised : Memory} (t : Table Memory)
    (hstatus : revised.status ≠ .active) : ∃ t', t.update? p (updateValues revised) = some t' := by
  have hrow : ∀ r, (Table.updateRow p (updateValues revised) r).id = r.id ∧
      (Table.updateRow p (updateValues revised) r).userId = r.userId ∧
      (Table.updateRow p (updateValues revised) r).idempotencyKey = r.idempotencyKey ∧
      ((Table.updateRow p (updateValues revised) r).holdsProfile →
        Table.updateRow p (updateValues revised) r = r) := by
    intro r
    unfold Table.updateRow
    split
    · exact ⟨rfl, rfl, rfl, fun hholds => absurd hholds.2.1 hstatus⟩
    · exact ⟨rfl, rfl, rfl, fun _ => rfl⟩
  refine Table.exists_update? fun r hr r' hr' hconflict => ?_
  obtain ⟨hid, huser, hkey, hholds⟩ := hrow r
  obtain ⟨hid', huser', hkey', hholds'⟩ := hrow r'
  rcases hconflict with heq | ⟨hu, hk⟩ | ⟨hu, hp, hh, hh'⟩
  · exact .inl (hid.symm.trans (heq.trans hid'))
  · exact .inr (.inl ⟨huser.symm.trans (hu.trans huser'), hkey.symm.trans (hk.trans hkey')⟩)
  · rw [hholds hh, hholds' hh'] at hu hp
    rw [hholds hh] at hh
    rw [hholds' hh'] at hh'
    exact .inr (.inr ⟨hu, hp, hh, hh'⟩)

/-- On the state that it commits on, the active Memory of the profile key can be superseded. -/
theorem exists_supersede (c : CreateMemory) (now : Timestamp) (s : PersonalState.State) :
    ∃ superseded before, c.supersede now (fun _ => s) s.memories = .ok (superseded, before) := by
  unfold CreateMemory.supersede
  split
  next => exact ⟨_, _, rfl⟩
  next memory hfound =>
    obtain ⟨key, -, hkey⟩ := Option.bind_eq_some_iff.mp hfound
    obtain ⟨hmem, hwhere⟩ := Table.get_eq_some hkey
    have hupdate : ∃ before, s.memories.update? (updateWhere memory memory.version)
        (updateValues { memory with
          status := .superseded, updatedAt := now, version := memory.version + 1 }) = some before :=
      exists_update_inactive _ (by simp)
    obtain ⟨before, hbefore⟩ := hupdate
    have hcount : s.memories.rowcount (updateWhere memory memory.version) = 1 :=
      Table.rowcount_eq_one (fun r r' hr hr' =>
        .inl ((of_decide_eq_true hr).1.trans (of_decide_eq_true hr').1.symm)) hmem
        (decide_eq_true ⟨rfl, rfl⟩)
    refine ⟨some memory, before, ?_⟩
    rw [bind_of_orRaise hbefore, bind_of_ensure hcount]
    rfl

/-! ## Creating on the state that is read -/

/-- What a Memory that was stored says of the checks before it. -/
theorem create_checked {view : ℕ → PersonalState.State} {s s' : PersonalState.State} {memory : Memory}
    (h : PersonalState.applyCreateMemory c stamp view s =
      .ok (s', CreateMemory.outcome memory false)) :
    Text.strip c.summary ≠ "" ∧ (c.namedKey.all fun key => key.length ≤ 100) ∧
      c.duplicatesState = false ∧
      (c.thingId.all fun id => (PersonalState.ThingRepository.get c.userId id (view 1).things).isSome) ∧
      (c.sourceIds.zipIdx.all fun (id, i) =>
        (PersonalState.SourceRepository.get c.userId id (view (i + 3)).sources).isSome) := by
  have hskipped : ∀ code message, code ≠ "MEMORY_REMEMBERED" →
      CreateMemory.skipped code message ≠ CreateMemory.outcome memory false :=
    fun code message hcode heq => hcode (congrArg WriteOutcome.code heq)
  simp only [PersonalState.applyCreateMemory, bind_eq_ok, ensure_eq_ok] at h
  obtain ⟨_, hcontent, _, -, _, -, _, hkey, h⟩ := h
  split at h
  next =>
    simp only [pure_eq_ok, Prod.mk.injEq] at h
    exact absurd h.2 (hskipped _ _ (by simp))
  next =>
  split at h
  next =>
    simp only [pure_eq_ok, Prod.mk.injEq] at h
    exact absurd h.2 (hskipped _ _ (by simp))
  next hduplicates =>
  split at h
  next =>
    simp only [pure_eq_ok, Prod.mk.injEq] at h
    have hreplayed := congrArg (fun o : WriteOutcome => o.data.get "replayed") h.2
    simp [CreateMemory.outcome, Dict.get_ofFields, List.lookup_cons] at hreplayed
  next =>
    simp only [bind_eq_ok, ensure_eq_ok] at h
    obtain ⟨_, hthing, _, hsources, -⟩ := h
    exact ⟨hcontent.2, hkey, by simpa using hduplicates, hthing, hsources⟩

/-- The Memory that is superseded is the one that was found. -/
theorem supersede_found {now : Timestamp} {view : ℕ → PersonalState.State} {t before : Table Memory}
    {superseded : Option Memory} (h : c.supersede now view t = .ok (superseded, before)) :
    (c.namedKey.bind fun key =>
      PersonalState.MemoryRepository.getActiveProfile c.userId key (view 2).memories) = superseded := by
  unfold CreateMemory.supersede at h
  split at h
  next hnone =>
    simp only [pure_eq_ok, Prod.mk.injEq] at h
    exact hnone.trans h.1
  next memory hfound =>
    simp only [bind_eq_ok, orRaise_eq_ok, ensure_eq_ok, pure_eq_ok, Prod.mk.injEq] at h
    obtain ⟨_, -, _, -, hsuperseded, -⟩ := h
    exact hfound.trans hsuperseded

/-- A request whose checks of its own arguments pass. -/
structure WellFormed (c : CreateMemory) : Prop where
  content : Text.strip c.content ≠ ""
  bounds : 0 ≤ c.importance ∧ c.importance ≤ 1 ∧ 0 ≤ c.confidence ∧ c.confidence ≤ 1
  profile : c.namedKey ≠ none → c.memoryType = .profile
  named : c.profileKey ≠ some ""

theorem WellFormed.namedKey_eq (h : WellFormed c) : c.namedKey = c.profileKey := by
  unfold CreateMemory.namedKey
  cases hkey : c.profileKey with
  | none => rfl
  | some key =>
    have hne : key ≠ "" := fun heq => h.named (by rw [hkey, heq])
    simp [Option.filter, hne]

/-- The new Memory conflicts with none of those that are left once the active profile is superseded. -/
theorem exists_insert (hc : WellFormed c) (h : Accepted texts c stamp s) {superseded : Option Memory}
    {before : Table Memory}
    (hbefore : c.supersede stamp.now (fun _ => s.toState) s.memories = .ok (superseded, before)) :
    ∃ memories, before.insert? (c.memory superseded stamp) = some memories := by
  have hfree : ∀ r ∈ s.memories, r.id ≠ stamp.id ∧
      ¬(r.userId = c.userId ∧ r.idempotencyKey = c.idempotencyKey) := fun r hr =>
    ⟨h.fresh r hr, of_decide_eq_false (Table.get_eq_none.mp h.new r hr)⟩
  have hfound := supersede_found hbefore
  refine Table.exists_insert? fun r hr hconflict => ?_
  -- a row that holds the profile key is the one that was superseded
  have hthere : r ∈ s.memories ∧ superseded ≠ some r ∨ r.status = .superseded ∧
      ∃ r₀ ∈ s.memories, r.id = r₀.id ∧ r.userId = r₀.userId ∧
        r.idempotencyKey = r₀.idempotencyKey := by
    rcases supersede_ok (.refl Later.refl _) hbefore with ⟨rfl, rfl⟩ |
      ⟨memory, revised, rfl, hlater, hstatus, hreplaces⟩
    · exact .inl ⟨hr, nofun⟩
    · rcases hreplaces.mem_cases hr with rfl | ⟨hmem, hne⟩
      · obtain ⟨hid, huser, hkey, -⟩ := hlater.same
        exact .inr ⟨hstatus, memory, hreplaces.1, hid, huser, hkey⟩
      · exact .inl ⟨hmem, fun heq => hne (Option.some.inj heq).symm⟩
  rcases hthere with ⟨hmem, hne⟩ | ⟨hstatus, r₀, hmem, hid, huser, hkey⟩
  · rcases hconflict with heq | hsame | ⟨huser, hkey, ⟨htype, hactive, hsome⟩, -⟩
    · exact (hfree r hmem).1 heq
    · exact (hfree r hmem).2 hsame
    · refine hne (hfound.symm.trans ((superseded_iff hmem).mpr ⟨huser, htype, hactive, ?_, ?_⟩))
      · exact Option.isSome_iff_ne_none.mpr hsome
      · exact hkey.trans hc.namedKey_eq.symm
  · rcases hconflict with heq | ⟨hu, hk⟩ | ⟨-, -, ⟨-, hactive, -⟩, -⟩
    · exact (hfree r₀ hmem).1 (hid.symm.trans heq)
    · exact (hfree r₀ hmem).2 ⟨huser.symm.trans hu, hkey.symm.trans hk⟩
    · rw [hstatus] at hactive
      cases hactive

/-- A Memory is stored where every check passes. -/
theorem create_stored {s : PersonalState.State} (hc : WellFormed c) (hsummary : Text.strip c.summary ≠ "")
    (hkey : c.namedKey.all fun key => key.length ≤ 100) (hsuppressed : c.suppressed = false)
    (hduplicates : c.duplicatesState = false)
    (hnew : PersonalState.MemoryRepository.getByIdempotency c.userId c.idempotencyKey s.memories = none)
    (hthing : c.thingId.all fun id => (PersonalState.ThingRepository.get c.userId id s.things).isSome)
    (hsources : ∀ id ∈ c.sourceIds,
      (PersonalState.SourceRepository.get c.userId id s.sources).isSome = true)
    {superseded : Option Memory} {before memories : Table Memory}
    (hbefore : c.supersede stamp.now (fun _ => s) s.memories = .ok (superseded, before))
    (hinsert : before.insert? (c.memory superseded stamp) = some memories) :
    PersonalState.applyCreateMemory c stamp (fun _ => s) s =
      .ok ({ s with memories }, CreateMemory.outcome (c.memory superseded stamp) false) := by
  have hall : (c.sourceIds.zipIdx.all fun (id, _) =>
      (PersonalState.SourceRepository.get c.userId id s.sources).isSome) = true := by
    refine List.all_eq_true.mpr fun entry hentry => hsources _ ?_
    exact (List.mem_zipIdx' hentry).2 ▸ List.getElem_mem _
  unfold PersonalState.applyCreateMemory
  rw [bind_of_ensure ⟨hc.content, hsummary⟩, bind_of_ensure hc.bounds, bind_of_ensure hc.profile,
    bind_of_ensure hkey, hsuppressed, hduplicates]
  simp only [Bool.false_eq_true, if_false, hnew]
  rw [bind_of_ensure hthing, bind_of_ensure hall, bind_of_ok hbefore, bind_of_orRaise hinsert]
  rfl

/-- A Memory that is accepted is stored. -/
theorem commit_accepted (hc : WellFormed c) (h : Accepted texts c stamp s) :
    ∃ superseded before memories suppressions outcome,
      c.supersede stamp.now (fun _ => s.toState) s.memories = .ok (superseded, before) ∧
      before.insert? (c.memory superseded stamp) = some memories ∧
      commit texts (.createIfAllowed c stamp) (fun _ => s) s =
        ({ s with memories, suppressions }, .outcome outcome) := by
  obtain ⟨superseded, before, hbefore⟩ := exists_supersede c stamp.now s.toState
  obtain ⟨memories, hinsert⟩ := exists_insert hc h hbefore
  have hcreated : PersonalState.applyCreateMemory (reconciled texts c fun _ => s) stamp
      (fun _ => s.toState) s.toState =
        .ok ({ s.toState with memories }, CreateMemory.outcome (c.memory superseded stamp) false) :=
    create_stored (c := reconciled texts c fun _ => s) ⟨hc.content, hc.bounds, hc.profile, hc.named⟩
      h.summary h.key h.unsuppressed h.noFact h.new h.thing h.sources hbefore hinsert
  refine ⟨superseded, before, memories, MemorySuppressionRepository.clear c.userId
    (texts.stored c.content) s.suppressions s.suppressions,
    CreateMemory.outcome (c.memory superseded stamp) false, hbefore, hinsert, ?_⟩
  have hremembered : remembered (CreateMemory.outcome (c.memory superseded stamp) false) = true := by
    simp [remembered, CreateMemory.outcome, Dict.get_ofFields, List.lookup_cons]
  have happly : applyCreateMemory texts c true stamp (fun _ => s) s =
      .ok ({ s with
        memories
        suppressions := MemorySuppressionRepository.clear c.userId (texts.stored c.content)
          s.suppressions s.suppressions },
        CreateMemory.outcome (c.memory superseded stamp) false) := by
    simp only [applyCreateMemory, if_true]
    rw [bind_of_ok hcreated]
    simp only [hremembered, if_true]
    rfl
  simp only [commit, happly]
  rw [if_neg (by simp [CreateMemory.outcome])]

/-- A Memory that is not accepted leaves nothing behind. -/
theorem commit_not_accepted (h : ¬Accepted texts c stamp s) :
    (commit texts (.createIfAllowed c stamp) (fun _ => s) s).1 = s := by
  simp only [commit]
  split
  next s' outcome happly =>
    split
    next => rfl
    next =>
      simp only [applyCreateMemory, if_true, bind_eq_ok, Prod.exists] at happly
      obtain ⟨state, outcome', hcreate, happly⟩ := happly
      rcases create_cases hcreate with ⟨rfl, hcode, -⟩ | ⟨rfl, previous, rfl⟩ |
        ⟨hsuppressed, -, hnew, superseded, before, memories, hbefore, hinsert, rfl, rfl⟩
      · have hnot : remembered outcome' = false := by
          rcases List.mem_pair.mp hcode with hcode | hcode <;> simp [remembered, hcode]
        simp only [hnot, Bool.false_eq_true, if_false, pure_eq_ok, Prod.mk.injEq] at happly
        exact happly.1.symm
      · have hnot : remembered (CreateMemory.outcome previous true) = false := by
          simp [remembered, CreateMemory.outcome, Dict.get_ofFields, List.lookup_cons]
        simp only [hnot, Bool.false_eq_true, if_false, pure_eq_ok, Prod.mk.injEq] at happly
        exact happly.1.symm
      · refine absurd ?_ h
        obtain ⟨hsummary, hkey, hduplicates, hthing, hsources⟩ := create_checked hcreate
        refine ⟨hsummary, hkey, hsuppressed, hduplicates, hnew, hthing, fun id hid => ?_,
          fun r hr hid => ?_⟩
        · obtain ⟨i, hi, rfl⟩ := List.getElem_of_mem hid
          have hentry : (c.sourceIds[i], i) ∈ c.sourceIds.zipIdx := by
            simp [List.mem_zipIdx_iff_getElem?]
          exact List.all_eq_true.mp hsources _ hentry
        · obtain ⟨r', hr', hlater⟩ : ∃ r' ∈ before, Later r r' := by
            rcases supersede_ok (.refl Later.refl _) hbefore with ⟨-, rfl⟩ |
              ⟨memory, revised, -, hlater, -, hreplaces⟩
            · exact ⟨r, hr, .refl r⟩
            · exact (hreplaces.moves Later.refl hlater).exists_mem hr
          exact Table.not_conflict_of_insert? hinsert hr' (.inl (hlater.id_eq.trans hid))
  next => rfl

/-- What is accepted depends on which Memories there are, not on what became of them. -/
theorem Accepted.congr (h : Accepted texts c stamp s)
    (hrows : ∀ r' ∈ s'.memories, ∃ r ∈ s.memories, Later r r' ∨ Later r' r)
    (hsame : s'.suppressions = s.suppressions ∧ s'.things = s.things ∧ s'.tasks = s.tasks ∧
      s'.sources = s.sources) : Accepted texts c stamp s' := by
  obtain ⟨hsuppressions, hthings, htasks, hsources⟩ := hsame
  have hkept : ∀ r' ∈ s'.memories, ∃ r ∈ s.memories, r'.id = r.id ∧ r'.userId = r.userId ∧
      r'.idempotencyKey = r.idempotencyKey := by
    intro r' hr'
    obtain ⟨r, hr, hlater | hlater⟩ := hrows r' hr'
    · obtain ⟨hid, huser, hkey, -⟩ := hlater.same
      exact ⟨r, hr, hid, huser, hkey⟩
    · obtain ⟨hid, huser, hkey, -⟩ := hlater.same
      exact ⟨r, hr, hid.symm, huser.symm, hkey.symm⟩
  refine ⟨h.summary, h.key, ?_, ?_, ?_, ?_, ?_, ?_⟩
  · rw [hsuppressions]
    exact h.unsuppressed
  · have hfacts := h.noFact
    simp only [Texts.loadStateFactSnapshot] at hfacts ⊢
    rw [hthings, htasks]
    exact hfacts
  · refine Table.get_eq_none.mpr fun r' hr' => ?_
    obtain ⟨r, hr, -, huser, hkey⟩ := hkept r' hr'
    rw [huser, hkey]
    exact Table.get_eq_none.mp h.new r hr
  · rw [hthings]
    exact h.thing
  · rw [hsources]
    exact h.sources
  · intro r' hr' hid
    obtain ⟨r, hr, hid', -⟩ := hkept r' hr'
    exact h.fresh r hr (hid'.symm.trans hid)

/-! ## Retiring on the state that is read -/

/-- A Memory that was loaded is written back, where it stops to be active under a new key. -/
theorem exists_writeBack {memory : Memory} (revised : Memory) {key : String} (hmem : memory ∈ s.memories)
    (hid : revised.id = memory.id) (huser : revised.userId = memory.userId)
    (hstatus : revised.status ≠ .active)
    (hnew : MemoryRepository.getOperationVersion memory.userId key s.operations = none) :
    ∃ s₁, writeBack revised memory.version key s = .ok s₁ := by
  obtain ⟨memories, hupdate⟩ := exists_update_inactive
    (p := updateWhere revised memory.version) s.memories hstatus
  have hcount : s.memories.rowcount (updateWhere revised memory.version) = 1 :=
    Table.rowcount_eq_one (fun r r' hr hr' =>
      .inl ((of_decide_eq_true hr).1.trans (of_decide_eq_true hr').1.symm)) hmem
      (decide_eq_true ⟨hid.symm, rfl⟩)
  have hfree : ∀ r ∈ s.operations, ¬(r.userId = revised.userId ∧ r.idempotencyKey = key) := by
    intro r hr
    rw [huser]
    exact of_decide_eq_false (Table.get_eq_none.mp (Option.map_eq_none_iff.mp hnew) r hr)
  obtain ⟨operations, hoperations⟩ := Table.exists_insert?
    (r := (⟨revised.userId, revised.id, key, revised.version⟩ : MemoryOperation)) hfree
  refine ⟨{ s with memories, operations }, ?_⟩
  unfold writeBack
  rw [bind_of_orRaise hupdate, bind_of_ensure hcount, bind_of_orRaise hoperations]
  rfl

/-- An update whose operation is new, on the state that it commits on. -/
theorem updateMemory_first {c : UpdateMemory} {memory : Memory} (now : Timestamp)
    (himportance : c.importance = none) (hconfidence : c.confidence = none)
    (hnew : MemoryRepository.getOperationVersion c.userId c.idempotencyKey s.operations = none)
    (hfound : MemoryRepository.get c.userId c.memoryId s.memories = some memory)
    (hversion : (memory.version : ℤ) = c.expectedVersion) :
    updateMemory c now (fun _ => s) s = do
      let revised ← c.revised memory now
      let s ← writeBack revised memory.version c.idempotencyKey s
      return (s, revised, false) := by
  have hload : loadMemory c.userId c.memoryId c.expectedVersion s.memories = .ok memory := by
    unfold loadMemory
    rw [bind_of_orRaise hfound, bind_of_ensure hversion]
    rfl
  unfold updateMemory
  rw [bind_of_ensure (by rw [himportance]; rfl), bind_of_ensure (by rw [hconfidence]; rfl)]
  simp only [hnew]
  rw [bind_of_ok hload]

section Retirement

variable {target : Memory} {targetId : UUID} (now : Timestamp)

/-- The first attempt of a retirement. -/
theorem updateMemory_retirement
    (hfound : MemoryRepository.get context.userId targetId s.memories = some target)
    (hfirst : FirstAttempt texts candidate context s) :
    updateMemory (candidate.retirement texts context target) now (fun _ => s) s = do
      let revised ← supersede target now
      let s ← writeBack revised target.version
        (candidate.idempotencyKey texts context ++ ":supersede") s
      return (s, revised, false) := by
  obtain ⟨hid, -⟩ := of_decide_eq_true (Table.get_eq_some hfound).2
  rw [← hid] at hfound
  exact updateMemory_first (c := candidate.retirement texts context target) now rfl rfl hfirst hfound
    rfl

/-- The first attempt retires a target that is not deleted. -/
theorem commit_retirement
    (hfound : MemoryRepository.get context.userId targetId s.memories = some target)
    (hfirst : FirstAttempt texts candidate context s) (hstatus : target.status ≠ .deleted) :
    ∃ revised s₁, commit texts (.update .formation (candidate.retirement texts context target) now)
        (fun _ => s) s = (s₁, .memory revised false) ∧
      Table.Replaces target revised s.memories s₁.memories ∧ Later target revised ∧
      revised.status = .superseded ∧
      s₁ = { s with memories := s₁.memories, operations := s₁.operations } := by
  obtain ⟨hmem, hwhere⟩ := Table.get_eq_some hfound
  obtain ⟨-, huser⟩ := of_decide_eq_true hwhere
  have hrevised : supersede target now =
      .ok { target with status := .superseded, updatedAt := now, version := target.version + 1 } := by
    unfold supersede
    rw [bind_of_ensure hstatus]
    rfl
  have hlater : Later target
      { target with status := .superseded, updatedAt := now, version := target.version + 1 } :=
    .inr ⟨⟨rfl, rfl, rfl, rfl⟩, Nat.lt_succ_self _, hstatus, nofun⟩
  have hnew : MemoryRepository.getOperationVersion target.userId
      (candidate.idempotencyKey texts context ++ ":supersede") s.operations = none := by
    rw [huser]
    exact hfirst
  obtain ⟨s₁, hwrite⟩ := exists_writeBack { target with
    status := .superseded, updatedAt := now, version := target.version + 1 } hmem rfl rfl (by simp) hnew
  obtain ⟨hreplaces, hsame⟩ := writeBack_ok (.refl Later.refl _) hmem hlater rfl hwrite
  refine ⟨_, s₁, ?_, hreplaces, hlater, rfl, hsame⟩
  simp only [commit, updateMemory_retirement now hfound hfirst]
  rw [bind_of_ok hrevised, bind_of_ok hwrite]
  rfl

/-- The first attempt does not retire a target that is deleted. -/
theorem commit_retirement_deleted
    (hfound : MemoryRepository.get context.userId targetId s.memories = some target)
    (hfirst : FirstAttempt texts candidate context s) (hstatus : target.status = .deleted) :
    ∃ error, commit texts (.update .formation (candidate.retirement texts context target) now)
      (fun _ => s) s = (s, .raised error) := by
  simp only [commit, updateMemory_retirement now hfound hfirst, supersede, hstatus]
  exact ⟨_, rfl⟩

/-- A later attempt leaves the target as it is. -/
theorem commit_retirement_again
    (hfound : MemoryRepository.get context.userId targetId s.memories = some target)
    (hfirst : ¬FirstAttempt texts candidate context s) :
    commit texts (.update .formation (candidate.retirement texts context target) now)
      (fun _ => s) s = (s, .memory target true) := by
  obtain ⟨hid, -⟩ := of_decide_eq_true (Table.get_eq_some hfound).2
  rw [← hid] at hfound
  have hreplay : replayedMemory context.userId target.id s.memories = .ok target := by
    unfold replayedMemory
    rw [hfound]
    rfl
  have hupdate : updateMemory (candidate.retirement texts context target) now (fun _ => s) s =
      .ok (s, target, true) := by
    unfold updateMemory
    rw [bind_of_ensure (by rfl), bind_of_ensure (by rfl)]
    split
    next =>
      show (replayedMemory context.userId target.id s.memories >>= _) = _
      rw [bind_of_ok hreplay]
      rfl
    next hnone => exact absurd hnone hfirst
  simp only [commit, hupdate]

end Retirement

/-! ## `_apply` -/

theorem commit_raised {op : Op} {view : ℕ → State} {error : RuntimeError}
    (h : (commit texts op view s).2 = .raised error) : (commit texts op view s).1 = s := by
  have hwrites := writes_commit texts op view s
  rw [h] at hwrites
  generalize (commit texts op view s).1 = s' at hwrites ⊢
  generalize hreply : Reply.raised error = reply at hwrites
  cases hwrites with
  | nothing => rfl
  | created | updated | forgotten | foreign => cases hreply

/-- The last transaction of `_apply`. -/
theorem runUntil_last (op : Op) (crash : ℕ) :
    runUntil texts (crash + 1) [op] s = (commit texts op (fun _ => s) s).1 := by
  have hdone : ∀ s', runUntil texts crash [] s' = s' := by
    intro s'
    cases crash <;> rfl
  simp only [runUntil]
  split
  next s' error h =>
    have hraised := commit_raised (congrArg Prod.snd h)
    rw [hraised]
  next s' reply _ h =>
    rw [hdone, h]

variable {fresh : ℕ → Stamp} {crash : ℕ} {target : Memory} {targetId : UUID}

variable (crash) in
/-- What is left of `_apply`: the state `s₀` after the retirement, where `_apply` gets no further, or
what the creation makes of it. -/
theorem applyCandidate_cases (haction : candidate.action = .supersede targetId)
    (hfound : MemoryRepository.get context.userId targetId s.memories = some target) :
    ∃ s₀, (Retires texts candidate context crash target s ∧
          (∃ revised, Table.Replaces target revised s.memories s₀.memories ∧ Later target revised ∧
            revised.status = .superseded) ∧
          s₀ = { s with memories := s₀.memories, operations := s₀.operations } ∨
        ¬Retires texts candidate context crash target s ∧ s₀ = s) ∧
      (2 ≤ crash ∧ (FirstAttempt texts candidate context s → target.status ≠ .deleted) →
        applyCandidate texts candidate context fresh crash s =
          (commit texts (.createIfAllowed (candidate.creation texts context) (fresh 1))
            (fun _ => s₀) s₀).1) ∧
      (¬(2 ≤ crash ∧ (FirstAttempt texts candidate context s → target.status ≠ .deleted)) →
        applyCandidate texts candidate context fresh crash s = s₀) := by
  have happly : applyCandidate texts candidate context fresh crash s = runUntil texts crash
      [.update .formation (candidate.retirement texts context target) (fresh 0).now,
        .createIfAllowed (candidate.creation texts context) (fresh 1)] s := by
    simp only [applyCandidate, MemoryCandidate.transactions, haction, hfound]
  rw [happly]
  cases crash with
  | zero => exact ⟨s, .inr ⟨fun h => absurd h.1 (by omega), rfl⟩, fun h => absurd h.1 (by omega),
      fun _ => rfl⟩
  | succ crash =>
    -- where the retirement is answered, what is left is the creation on the state after it
    have hafter : ∀ s₀ memory replayed,
        commit texts (.update .formation (candidate.retirement texts context target) (fresh 0).now)
          (fun _ => s) s = (s₀, .memory memory replayed) →
        runUntil texts (crash + 1)
          [.update .formation (candidate.retirement texts context target) (fresh 0).now,
            .createIfAllowed (candidate.creation texts context) (fresh 1)] s =
          runUntil texts crash [.createIfAllowed (candidate.creation texts context) (fresh 1)] s₀ := by
      intro s₀ memory replayed h
      simp only [runUntil, h]
    have hlast : ∀ s₀, (2 ≤ crash + 1 →
        runUntil texts crash [.createIfAllowed (candidate.creation texts context) (fresh 1)] s₀ =
          (commit texts (.createIfAllowed (candidate.creation texts context) (fresh 1))
            (fun _ => s₀) s₀).1) ∧
        (¬2 ≤ crash + 1 →
          runUntil texts crash [.createIfAllowed (candidate.creation texts context) (fresh 1)] s₀ =
            s₀) := by
      intro s₀
      cases crash with
      | zero => exact ⟨fun h => absurd h (by omega), fun _ => rfl⟩
      | succ crash => exact ⟨fun _ => runUntil_last _ _, fun h => absurd (by omega) h⟩
    by_cases hfirst : FirstAttempt texts candidate context s
    · by_cases hstatus : target.status = .deleted
      · obtain ⟨error, hcommit⟩ := commit_retirement_deleted (fresh 0).now hfound hfirst hstatus
        refine ⟨s, .inr ⟨fun h => h.2.2 hstatus, rfl⟩, fun h => absurd hstatus (h.2 hfirst),
          fun _ => ?_⟩
        simp only [runUntil, hcommit]
      · obtain ⟨revised, s₀, hcommit, hreplaces, hlater, hsuperseded, hsame⟩ :=
          commit_retirement (fresh 0).now hfound hfirst hstatus
        refine ⟨s₀, .inl ⟨⟨by omega, hfirst, hstatus⟩, ⟨revised, hreplaces, hlater, hsuperseded⟩,
          hsame⟩, fun h => ?_, fun h => ?_⟩
        · rw [hafter _ _ _ hcommit]
          exact (hlast s₀).1 h.1
        · rw [hafter _ _ _ hcommit]
          exact (hlast s₀).2 fun h2 => h ⟨h2, fun _ => hstatus⟩
    · have hcommit := commit_retirement_again (fresh 0).now hfound hfirst
      refine ⟨s, .inr ⟨fun h => hfirst h.2.1, rfl⟩, fun h => ?_, fun h => ?_⟩
      · rw [hafter _ _ _ hcommit]
        exact (hlast s).1 h.1
      · rw [hafter _ _ _ hcommit]
        exact (hlast s).2 fun h2 => h ⟨h2, fun h1 => absurd h1 hfirst⟩

/-- A creation supersedes the Memory that it displaces. -/
theorem retired_created {userId : UUID} {now : Timestamp} {superseded : Option Memory}
    {before : Table Memory}
    (hbefore : c.supersede now (fun _ => s.toState) s.memories = .ok (superseded, before))
    (hinsert : before.insert? (c.memory superseded stamp) = some s'.memories) :
    Retired userId targetId s' ↔
      Retired userId targetId s ∨ ∃ m, superseded = some m ∧ m.id = targetId ∧ m.userId = userId := by
  have hrows : ∀ r ∈ s'.memories, r.status = .superseded → r ∈ before := by
    intro r hr hstatus
    rcases (Table.mem_insert? hinsert).mp hr with hold | rfl
    · exact hold
    · cases hstatus
  have hkept : ∀ r ∈ before, r ∈ s'.memories := fun r hr =>
    (Table.mem_insert? hinsert).mpr (.inl hr)
  have hfound := supersede_found hbefore
  rcases supersede_ok (.refl Later.refl _) hbefore with ⟨rfl, rfl⟩ |
    ⟨memory, revised, rfl, hlater, hsuperseded, hreplaces⟩
  · constructor
    · rintro ⟨r, hr, hid, huser, hstatus⟩
      exact .inl ⟨r, hrows r hr hstatus, hid, huser, hstatus⟩
    · rintro (⟨r, hr, hthere⟩ | ⟨m, hm, -⟩)
      · exact ⟨r, hkept r hr, hthere⟩
      · cases hm
  · obtain ⟨hid', huser', -⟩ := hlater.same
    constructor
    · rintro ⟨r, hr, hid, huser, hstatus⟩
      rcases hreplaces.mem_cases (hrows r hr hstatus) with rfl | ⟨hold, -⟩
      · exact .inr ⟨memory, rfl, hid'.symm.trans hid, huser'.symm.trans huser⟩
      · exact .inl ⟨r, hold, hid, huser, hstatus⟩
    · rintro (⟨r, hr, hid, huser, hstatus⟩ | ⟨m, hm, hid, huser⟩)
      · refine ⟨r, hkept r (hreplaces.mem_of_ne hr ?_), hid, huser, hstatus⟩
        rintro rfl
        have hactive := ((superseded_iff hreplaces.1).mp hfound).2.2.1
        rw [hstatus] at hactive
        cases hactive
      · obtain rfl := Option.some.inj hm
        exact ⟨revised, hkept _ hreplaces.mem_new, hid'.trans hid, huser'.trans huser, hsuperseded⟩

theorem creation_wellFormed : WellFormed (candidate.creation texts context) where
  content := candidate.content_ok
  bounds := ⟨candidate.importance_ok.1, candidate.importance_ok.2, candidate.confidence_ok.1,
    candidate.confidence_ok.2⟩
  profile hnamed := by
    by_contra htype
    have hnone : (candidate.creation texts context).profileKey = none := if_neg htype
    rw [CreateMemory.namedKey, hnone] at hnamed
    exact hnamed rfl
  named := by
    have hkey : ∀ key, key ∈ ["preference:response_style", "preference:reminder",
        "preference:language", "preference:general"] → Text.strip key ≠ "" := by
      decide +kernel
    have hprofile : texts.profileKeyFor candidate.content ∈ ["preference:response_style",
        "preference:reminder", "preference:language", "preference:general"] := by
      unfold Texts.profileKeyFor
      simp only
      split
      · simp
      · split
        · simp
        · split <;> simp
    unfold MemoryCandidate.creation
    simp only
    split
    · intro heq
      exact texts.casefold_ne_empty _ (hkey _ hprofile) (Option.some.inj heq)
    · nofun

/-- The state after the retirement, where there was one: the other Memories are as they were. -/
theorem after_retirement {s₀ : State}
    (hfound : MemoryRepository.get context.userId targetId s.memories = some target)
    (h : Retires texts candidate context crash target s ∧
          (∃ revised, Table.Replaces target revised s.memories s₀.memories ∧ Later target revised ∧
            revised.status = .superseded) ∧
          s₀ = { s with memories := s₀.memories, operations := s₀.operations } ∨
        ¬Retires texts candidate context crash target s ∧ s₀ = s) :
    (Retired context.userId targetId s₀ ↔
      target.status = .superseded ∨ Retires texts candidate context crash target s) ∧
    (Replaced texts candidate context targetId s₀ ↔ Replaced texts candidate context targetId s) ∧
    (∀ (c : CreateMemory) (stamp : Stamp), Accepted texts c stamp s₀ ↔ Accepted texts c stamp s) := by
  obtain ⟨hmem, hwhere⟩ := Table.get_eq_some hfound
  obtain ⟨hid, huser⟩ := of_decide_eq_true hwhere
  rcases h with ⟨hretires, ⟨revised, hreplaces, hlater, hsuperseded⟩, hsame⟩ | ⟨hnot, rfl⟩
  · obtain ⟨hid', huser', -⟩ := hlater.same
    refine ⟨⟨fun _ => .inr hretires, fun _ => ?_⟩, ⟨?_, ?_⟩, fun c stamp => ⟨fun h => ?_, fun h => ?_⟩⟩
    · exact ⟨revised, hreplaces.mem_new, hid'.trans hid, huser'.trans huser, hsuperseded⟩
    · rintro ⟨r, hr, hne, hthere⟩
      rcases hreplaces.mem_cases hr with rfl | ⟨hold, -⟩
      · exact absurd (hid'.trans hid) hne
      · exact ⟨r, hold, hne, hthere⟩
    · rintro ⟨r, hr, hne, hthere⟩
      refine ⟨r, hreplaces.mem_of_ne hr ?_, hne, hthere⟩
      rintro rfl
      exact hne hid
    · refine h.congr (fun r hr => ?_) ?_
      · obtain ⟨r', hr', hmove⟩ := (hreplaces.moves Later.refl hlater).exists_mem hr
        exact ⟨r', hr', .inr hmove⟩
      · rw [hsame]
        exact ⟨rfl, rfl, rfl, rfl⟩
    · refine h.congr (fun r' hr' => ?_) ?_
      · obtain ⟨r, hr, hmove⟩ := (hreplaces.moves Later.refl hlater).mem hr'
        exact ⟨r, hr, .inl hmove⟩
      · rw [hsame]
        exact ⟨rfl, rfl, rfl, rfl⟩
  · refine ⟨⟨?_, ?_⟩, Iff.rfl, fun _ _ => Iff.rfl⟩
    · rintro ⟨r, hr, hrId, -, hstatus⟩
      obtain rfl := Table.eq_of_conflict hr hmem (.inl (hrId.trans hid.symm))
      exact .inl hstatus
    · rintro (hstatus | hretires)
      · exact ⟨target, hmem, hid, huser, hstatus⟩
      · exact absurd hretires hnot

variable (s') in
/-- What becomes of the target where the new Memory is created. -/
theorem retired_iff_of_creates
    (hfound : MemoryRepository.get context.userId target.id s.memories = some target) {s₀ : State}
    (h : Retires texts candidate context crash target s ∨
      ¬Retires texts candidate context crash target s ∧ s₀ = s)
    (hretired : Retired context.userId target.id s₀ ↔
      target.status = .superseded ∨ Retires texts candidate context crash target s)
    {now : Timestamp} {superseded : Option Memory} {before : Table Memory}
    (hbefore : (candidate.creation texts context).supersede now (fun _ => s₀.toState) s₀.memories =
      .ok (superseded, before))
    (hinsert : before.insert? ((candidate.creation texts context).memory superseded stamp) =
      some s'.memories) :
    Retired context.userId target.id s' ↔ target.status = .superseded ∨
      Retires texts candidate context crash target s ∨ Displaces texts candidate context target := by
  rw [retired_created hbefore hinsert, hretired]
  rcases h with hretires | ⟨hnot, rfl⟩
  · exact ⟨fun _ => .inr (.inl hretires), fun _ => .inl (.inr hretires)⟩
  obtain ⟨hmem, hwhere⟩ := Table.get_eq_some hfound
  obtain ⟨-, huser⟩ := of_decide_eq_true hwhere
  have hdisplaces : (∃ m, superseded = some m ∧ m.id = target.id ∧ m.userId = context.userId) ↔
      Displaces texts candidate context target := by
    have hiff := superseded_iff (c := candidate.creation texts context) hmem
    have hsuperseded := supersede_found hbefore
    constructor
    · rintro ⟨m, rfl, hid, -⟩
      obtain ⟨key, -, hget⟩ := Option.bind_eq_some_iff.mp hsuperseded
      obtain rfl := Table.eq_of_conflict (Table.get_eq_some hget).1 hmem (.inl hid)
      exact (hiff.mp hsuperseded).2
    · intro h
      exact ⟨target, hsuperseded.symm.trans (hiff.mpr ⟨huser, h⟩), rfl, huser⟩
  rw [hdisplaces]
  constructor
  · rintro ((hstatus | hretires) | h)
    · exact .inl hstatus
    · exact absurd hretires hnot
    · exact .inr (.inr h)
  · rintro (hstatus | hretires | h)
    · exact .inl (.inl hstatus)
    · exact absurd hretires hnot
    · exact .inr h

/-- For every candidate, every state and every crash: `_apply` leaves the Memory that was to be superseded
superseded if and only if the one that takes its place is active, exactly where it was carried out
whole or not at all. -/
theorem supersession_all_or_nothing (texts : Texts) (candidate : MemoryCandidate)
    (context : FormationContext) (fresh : ℕ → Stamp) (crash : ℕ) (s : State) (targetId : UUID)
    (haction : candidate.action = .supersede targetId) :
    (Retired context.userId targetId (applyCandidate texts candidate context fresh crash s) ↔
      Replaced texts candidate context targetId
        (applyCandidate texts candidate context fresh crash s)) ↔
      AllOrNothing texts candidate context fresh crash s targetId := by
  unfold AllOrNothing
  split
  next target hfound =>
    obtain ⟨hmem, hwhere⟩ := Table.get_eq_some hfound
    obtain ⟨hid, huser⟩ := of_decide_eq_true hwhere
    subst hid
    obtain ⟨s₀, hs₀, hgoes, hstops⟩ := applyCandidate_cases crash haction hfound
    obtain ⟨hretired, hreplaced, haccepted⟩ := after_retirement hfound hs₀
    by_cases hcreates : Creates texts candidate context fresh crash target s
    · obtain ⟨hcrash, hgo, haccept⟩ := hcreates
      obtain ⟨superseded, before, memories, suppressions, outcome, hbefore, hinsert, hcommit⟩ :=
        commit_accepted creation_wellFormed ((haccepted _ _).mpr haccept)
      have hnew : Replaced texts candidate context target.id
          { s₀ with memories, suppressions } := by
        refine ⟨_, (Table.mem_insert? hinsert).mpr (.inr rfl), ?_, rfl, rfl, rfl, rfl⟩
        exact (haccept.fresh target hmem).symm
      have hretires := retired_iff_of_creates { s₀ with memories, suppressions } hfound
        (hs₀.imp_left And.left) hretired hbefore hinsert
      rw [hgoes ⟨hcrash, hgo⟩, hcommit, hretires]
      constructor
      · exact fun h => .inl ⟨⟨hcrash, hgo, haccept⟩, h.mpr hnew⟩
      · rintro (⟨-, h⟩ | ⟨hnot, -⟩)
        · exact ⟨fun _ => hnew, fun _ => h⟩
        · exact absurd ⟨hcrash, hgo, haccept⟩ hnot
    · have hstate : applyCandidate texts candidate context fresh crash s = s₀ := by
        by_cases hgo : 2 ≤ crash ∧
            (FirstAttempt texts candidate context s → target.status ≠ .deleted)
        · rw [hgoes hgo]
          refine commit_not_accepted fun h => hcreates ⟨hgo.1, hgo.2, (haccepted _ _).mp h⟩
        · exact hstops hgo
      rw [hstate, hretired, hreplaced]
      constructor
      · exact fun h => .inr ⟨hcreates, h.symm⟩
      · rintro (⟨h, -⟩ | ⟨-, h⟩)
        · exact absurd h hcreates
        · exact h.symm
  next hnone =>
    have hstate : applyCandidate texts candidate context fresh crash s = s := by
      simp only [applyCandidate, MemoryCandidate.transactions, haction, hnone]
      cases crash <;> rfl
    have hnot : ¬Retired context.userId targetId s := by
      rintro ⟨r, hr, hid, huser, -⟩
      exact of_decide_eq_false (Table.get_eq_none.mp hnone r hr) ⟨hid, huser⟩
    rw [hstate]
    exact ⟨fun h hreplaced => hnot (h.mpr hreplaced),
      fun h => ⟨fun hretired => absurd hretired hnot, fun hreplaced => absurd hreplaced h⟩⟩

/-- What a process leaves that stops or crashes is a state of the system. -/
theorem runUntil_reachable {ops : List Op} {h : History State Op Reply}
    (hr : (system texts).Reachable h) :
    ∃ h', (system texts).Reachable h' ∧ h'.cur = runUntil texts crash ops h.cur := by
  induction crash generalizing ops h with
  | zero => exact ⟨h, hr, rfl⟩
  | succ crash ih =>
    cases ops with
    | nil => exact ⟨h, hr, rfl⟩
    | cons op ops =>
      simp only [runUntil]
      split
      next => exact ⟨h, hr, rfl⟩
      next s' reply _ hcommit =>
        have hnext : (system texts).Reachable ((system texts).extend h op fun _ => h.cur) :=
          hr.commit op _ (fun _ => .head _) trivial
        obtain ⟨h', hr', hcur⟩ := ih hnext
        refine ⟨h', hr', hcur.trans ?_⟩
        show runUntil texts crash ops (commit texts op (fun _ => h.cur) h.cur).1 = _
        rw [hcommit]

/-- The extractor finds tea in an old Message, and has it supersede the water. -/
def teaInstead : MemoryCandidate where
  memoryType := .semantic
  content := "喝茶"
  action := .supersede 12
  content_ok := drinksTea_ok
  importance_ok := importance_default
  confidence_ok := confidence_default

/-- The formation of Run 5 carries that out, after the tea was forgotten, and nothing crashes. -/
def waterLost : State :=
  applyCandidate plainTexts teaInstead ⟨1, 5⟩ (fun _ => ⟨30, 4⟩) 2 teaForgotten.cur

/-- The water is gone, and no tea takes its place. -/
theorem waterLost_rows :
    (∃ r ∈ waterLost.memories.rows, r.id = 12 ∧ r.userId = 1 ∧ r.status = .superseded) ∧
      ∀ r ∈ waterLost.memories.rows, r.status ≠ .active := by
  decide +kernel

/-- The tea was not to be remembered again, so that its candidate is not carried out whole. -/
theorem supersession_all_or_nothing_tea :
    ¬AllOrNothing plainTexts teaInstead ⟨1, 5⟩ (fun _ => ⟨30, 4⟩) 2 teaForgotten.cur 12 := by
  intro h
  obtain ⟨hretired, hinactive⟩ := waterLost_rows
  obtain ⟨r, hr, -, -, -, hactive, -⟩ := ((supersession_all_or_nothing plainTexts teaInstead ⟨1, 5⟩
    (fun _ => ⟨30, 4⟩) 2 teaForgotten.cur 12 rfl).mpr h).mp hretired
  exact hinactive r hr hactive

/-- A Memory is lost: the one that was to take its place was forgotten by the user, so that it is not
created, and the target was retired before that was looked up. -/
theorem target_lost :
    (system plainTexts).Reachable teaForgotten ∧ teaInstead.considered plainTexts (7 / 10) = true ∧
      (∃ r ∈ teaForgotten.cur.memories, r.id = 12 ∧ r.userId = 1 ∧ r.status = .active) ∧
      Retired 1 12 (applyCandidate plainTexts teaInstead ⟨1, 5⟩ (fun _ => ⟨30, 4⟩) 2
        teaForgotten.cur) ∧
      ¬Replaced plainTexts teaInstead ⟨1, 5⟩ 12 (applyCandidate plainTexts teaInstead ⟨1, 5⟩
        (fun _ => ⟨30, 4⟩) 2 teaForgotten.cur) := by
  have hactive : ∃ r ∈ teaForgotten.cur.memories.rows,
      r.id = 12 ∧ r.userId = 1 ∧ r.status = .active := by
    decide +kernel
  obtain ⟨hretired, hinactive⟩ := waterLost_rows
  refine ⟨?_, by decide +kernel, hactive, hretired, ?_⟩
  · exact .commit ((system _).serial_reachable rfl _) _ _ (fun _ => .head _) trivial
  · rintro ⟨r, hr, -, -, -, hstatus, -⟩
    exact hinactive r hr hstatus

end Memories
