import Laoshiren.Memories.Proofs.ForgettingProofs

/-!
# Duplicate Memories

A Memory has the idempotency key of the Run that formed it, and nothing looks for its content among the
Memories that are there, neither before the lock of the reconciliation nor under it. So two Runs that
remember the same leave it twice. Where no transaction gives a Memory a content that another active one
of its type has, no content is there twice (`no_duplicates`).
-/

namespace Memories

open Runtime Raise
open PersonalState (Memory MemoryType CreateMemory)

variable {texts : Texts} {op : Op} {view : ℕ → State} {s s' : State} {t t' : Table Memory}
  {memory revised : Memory} {h : History State Op Reply}

/-- An active Memory of the user and of the type has a content of the fingerprint. -/
structure Says (texts : Texts) (userId : UUID) (memoryType : MemoryType) (fingerprint : String)
    (r : Memory) : Prop where
  userId : r.userId = userId
  memoryType : r.memoryType = memoryType
  active : r.status = .active
  content : texts.fingerprint r.content = fingerprint

/-- No two active Memories of a user and a type have contents of one fingerprint. -/
def Distinct (texts : Texts) (t : Table Memory) : Prop :=
  ∀ r ∈ t, ∀ r' ∈ t, r.userId = r'.userId → r.memoryType = r'.memoryType → r.status = .active →
    r'.status = .active → texts.fingerprint r.content = texts.fingerprint r'.content → r = r'

/-- No active Memory has the content of the new one already, but the one whose profile key it takes
over. -/
def Unknown (texts : Texts) (c : CreateMemory) (view : ℕ → State) (s : State) : Prop :=
  PersonalState.MemoryRepository.getByIdempotency c.userId c.idempotencyKey (view 0).memories = none →
    ∀ r ∈ s.memories, Says texts c.userId c.memoryType (texts.stored c.content) r →
      r.holdsProfile ∧ r.profileKey = c.profileKey

/-- The transaction gives no Memory a content that another active one of its type has. -/
def Unsaid (texts : Texts) (op : Op) (view : ℕ → State) (s : State) : Prop :=
  match op with
  | .create c _ => Unknown texts c view s
  | .createIfAllowed c _ =>
    (reconciled texts c view).suppressed = false → (reconciled texts c view).duplicatesState = false →
      Unknown texts c view s
  | .update _ c _ => ∀ memory,
    Loads c.userId c.memoryId c.expectedVersion c.idempotencyKey view memory →
    memory ∈ s.memories → memory.status = .active → c.supersede = false →
    ∀ content ∈ c.content, ∀ r ∈ s.memories,
      Says texts c.userId memory.memoryType (texts.stored content) r → r = memory
  | _ => True

/-! ## Tables -/

theorem Distinct.insert (h : Distinct texts t) (hinsert : t.insert? memory = some t')
    (hnew : ∀ r ∈ t, ¬Says texts memory.userId memory.memoryType
      (texts.fingerprint memory.content) r) : Distinct texts t' := by
  intro r hr r' hr' huser htype hactive hactive' hprint
  rcases (Table.mem_insert? hinsert).mp hr with hold | rfl <;>
    rcases (Table.mem_insert? hinsert).mp hr' with hold' | rfl
  · exact h r hold r' hold' huser htype hactive hactive' hprint
  · exact absurd ⟨huser, htype, hactive, hprint⟩ (hnew r hold)
  · exact absurd ⟨huser.symm, htype.symm, hactive', hprint.symm⟩ (hnew r' hold')
  · rfl

theorem Distinct.replaces (h : Distinct texts t) (hreplaces : t.Replaces memory revised t')
    (hnew : revised.status = .active → ∀ r ∈ t, Says texts revised.userId revised.memoryType
      (texts.fingerprint revised.content) r → r = memory) : Distinct texts t' := by
  intro r hr r' hr' huser htype hactive hactive' hprint
  rcases hreplaces.mem_cases hr with rfl | ⟨hold, hne⟩ <;>
    rcases hreplaces.mem_cases hr' with rfl | ⟨hold', hne'⟩
  · rfl
  · exact absurd (hnew hactive r' hold' ⟨huser.symm, htype.symm, hactive', hprint.symm⟩) hne'
  · exact absurd (hnew hactive' r hold ⟨huser, htype, hactive, hprint⟩) hne
  · exact h r hold r' hold' huser htype hactive hactive' hprint

/-- A row that is no longer active is no duplicate. -/
theorem Distinct.retired (h : Distinct texts t) (hreplaces : t.Replaces memory revised t')
    (hstatus : revised.status ≠ .active) : Distinct texts t' :=
  h.replaces hreplaces fun hactive => absurd hactive hstatus

/-! ## One step -/

theorem revised_type {c : UpdateMemory} {now : Timestamp} (h : c.revised memory now = .ok revised) :
    revised.memoryType = memory.memoryType := by
  unfold UpdateMemory.revised at h
  split at h
  · simp only [supersede, bind_eq_ok, ensure_eq_ok, pure_eq_ok] at h
    obtain ⟨_, -, rfl⟩ := h
    rfl
  · simp only [revise, bind_eq_ok, ensure_eq_ok, pure_eq_ok] at h
    obtain ⟨_, -, _, -, _, -, rfl⟩ := h
    rfl

/-- What a creation that goes through was asked of. -/
theorem unknown_of_created {c : CreateMemory} {stamp : Stamp} (hunsaid : Unsaid texts op view s)
    (hop : op = .create c stamp ∨ op = .createIfAllowed c stamp ∧
      MemorySuppressionRepository.isSuppressed c.userId (texts.stored c.content)
          (view 1).suppressions = false ∧
        (reconciled texts c view).duplicatesState = false) : Unknown texts c view s := by
  rcases hop with rfl | ⟨rfl, hsuppressed, hduplicates⟩
  · exact hunsaid
  · exact hunsaid hsuppressed hduplicates

theorem distinct_writes
    (hviews : ∀ n, Table.Grows Later (fun _ => True) (view n).memories s.memories)
    (hunsaid : Unsaid texts op view s) (hdistinct : Distinct texts s.memories) {reply : Reply}
    (h : Writes texts op view s s' reply) : Distinct texts s'.memories := by
  cases h with
  | nothing => exact hdistinct
  | @created c stamp superseded before memories hop hnew hbefore hinsert =>
    have hunknown := unknown_of_created hunsaid hop hnew
    have hearlier : Distinct texts before ∧ ∀ r ∈ before, r.status = .active → r ∈ s.memories := by
      rcases supersede_ok (hviews 4) hbefore with ⟨-, rfl⟩ |
        ⟨memory, revised, -, -, hstatus, hreplaces⟩
      · exact ⟨hdistinct, fun r hr _ => hr⟩
      · refine ⟨hdistinct.retired hreplaces (by rw [hstatus]; decide), fun r hr hactive => ?_⟩
        rcases hreplaces.mem_cases hr with rfl | ⟨hold, -⟩
        · rw [hstatus] at hactive
          cases hactive
        · exact hold
    obtain ⟨hbefore', hthere⟩ := hearlier
    refine hbefore'.insert hinsert fun r hr hsaid => ?_
    -- the one that has the content holds the profile key, and so does the new one
    obtain ⟨hholds, hkey⟩ := hunknown r (hthere r hr hsaid.active) hsaid
    have hnewHolds : (c.memory superseded stamp).holdsProfile :=
      ⟨hsaid.memoryType.symm.trans hholds.1, rfl, fun hnone => hholds.2.2 (hkey.trans hnone)⟩
    exact Table.not_conflict_of_insert? hinsert hr
      (.inr (.inr ⟨hsaid.userId, hkey, hholds, hnewHolds⟩))
  | @updated author c now memory revised _ hop hloads hrevised hwrite =>
    obtain ⟨hvalues, hlater, -⟩ := revised_later hrevised
    obtain ⟨hseen, hwhere⟩ := Table.get_eq_some hloads.2.1
    obtain ⟨-, huser⟩ := of_decide_eq_true hwhere
    obtain ⟨hreplaces, -⟩ := writeBack_ok (hviews 1) hseen hlater hvalues hwrite
    refine hdistinct.replaces hreplaces fun hactive r hr hsaid => ?_
    obtain ⟨hsupersede, hstatus, hcontent⟩ := revised_content hrevised hactive
    have htype : r.memoryType = memory.memoryType := hsaid.memoryType.trans (revised_type hrevised)
    have hruser : r.userId = memory.userId := hsaid.userId.trans hlater.same.2.1
    have hprint := hsaid.content
    rw [hcontent] at hprint
    cases hnew : c.content with
    | none =>
      rw [hnew] at hprint
      exact hdistinct r hr memory hreplaces.1 hruser htype hsaid.active hstatus hprint
    | some content =>
      rw [hnew] at hprint
      subst hop
      exact hunsaid memory hloads hreplaces.1 hstatus hsupersede content hnew r hr
        ⟨hruser.trans huser, htype, hsaid.active, hprint⟩
  | @forgotten c stamp memory _ suppressions _ hloads hwrite hrecord =>
    obtain ⟨hvalues, hlater, hdeleted⟩ := delete_later memory stamp.now
    obtain ⟨hreplaces, -⟩ := writeBack_ok (hviews 1) (Table.get_eq_some hloads.2.1).1 hlater hvalues
      hwrite
    exact hdistinct.retired hreplaces (by rw [hdeleted]; decide)
  | @foreign change hforeign =>
    rw [(hforeign s).memories]
    exact hdistinct

/-! ## Every run -/

/-- In every run in which no transaction gives a Memory a content that another active one of its type has,
no two active Memories of a user and a type have contents of one fingerprint. -/
theorem no_duplicates (texts : Texts) (hr : (system texts).ReachableIf (Unsaid texts) h) :
    ∀ s ∈ h.states, ∀ r ∈ s.memories, ∀ r' ∈ s.memories, r.userId = r'.userId →
      r.memoryType = r'.memoryType → r.status = .active → r'.status = .active →
        texts.fingerprint r.content = texts.fingerprint r'.content → r = r' := by
  have hS : Program.Stable (system texts) (Unsaid texts) (fun s => Descends s.memories)
      fun v s => Table.Grows Later (fun _ => True) v.memories s.memories :=
    (stable_memories texts).restrict fun _ _ _ _ => trivial
  have hlaw := hS.strengthen (fun s => Distinct texts s.memories)
    (fun s hs => by
      obtain rfl : s = {} := hs
      exact fun r hr => absurd hr Table.not_mem_empty)
    fun op view s _ hdistinct hviews hunsaid =>
      distinct_writes (fun n => (hviews n).2.2) hunsaid hdistinct (writes_commit texts op view s)
  exact fun s hs => (hlaw.inv_mem hr hs).2

/-- The tea and the water are no duplicates of each other. -/
theorem no_duplicates_tea :
    ¬∃ s ∈ teaKnown.states, ∃ r ∈ s.memories, ∃ r' ∈ s.memories, r.userId = r'.userId ∧
      r.memoryType = r'.memoryType ∧ r.status = .active ∧ r'.status = .active ∧
        plainTexts.fingerprint r.content = plainTexts.fingerprint r'.content ∧ r ≠ r' := by
  have hnone : ((system plainTexts).serial {}
      [.create (remember "喝茶" "remember-1") ⟨11, 1⟩]).cur.memories.rows.all (fun r =>
        plainTexts.fingerprint r.content ≠ plainTexts.stored "喝水") = true := by
    decide +kernel
  have hreachable : (system plainTexts).ReachableIf (Unsaid plainTexts) teaKnown := by
    refine (system plainTexts).serial_reachableIf rfl _ ⟨?_, ?_, trivial⟩
    · exact fun _ r hr => absurd hr Table.not_mem_empty
    · intro _ r hr hsaid
      exact absurd hsaid.content (of_decide_eq_true (List.all_eq_true.mp hnone r hr))
  rintro ⟨s, hs, r, hr, r', hr', huser, htype, hactive, hactive', hsame, hne⟩
  exact hne (no_duplicates plainTexts hreachable s hs r hr r' hr' huser htype hactive hactive' hsame)

/-- The extractor finds that the user likes tea. -/
def teaFound : MemoryCandidate where
  memoryType := .semantic
  content := "喝茶"
  action := .create
  content_ok := drinksTea_ok
  importance_ok := importance_default
  confidence_ok := confidence_default

/-- The formations of Run 5 and of Run 6 find the same. -/
def teaTwice : List Op :=
  [.createIfAllowed (teaFound.creation plainTexts ⟨1, 5⟩) ⟨30, 4⟩,
    .createIfAllowed (teaFound.creation plainTexts ⟨1, 6⟩) ⟨31, 5⟩]

/-- Two formations leave two active Memories of one content. -/
theorem tea_remembered_twice :
    ∃ h : History State Op Reply, (system plainTexts).Reachable h ∧
      teaFound.considered plainTexts (7 / 10) = true ∧
      ∃ s ∈ h.states, ∃ r ∈ s.memories, ∃ r' ∈ s.memories, r.userId = r'.userId ∧
        r.memoryType = r'.memoryType ∧ r.status = .active ∧ r'.status = .active ∧
        plainTexts.fingerprint r.content = plainTexts.fingerprint r'.content ∧ r ≠ r' := by
  refine ⟨_, (system plainTexts).serial_reachable rfl teaTwice, by decide +kernel, _, .head _, ?_⟩
  have hrows : ∃ r ∈ ((system plainTexts).serial {} teaTwice).cur.memories.rows,
      ∃ r' ∈ ((system plainTexts).serial {} teaTwice).cur.memories.rows, r.userId = r'.userId ∧
        r.memoryType = r'.memoryType ∧ r.status = .active ∧ r'.status = .active ∧
        plainTexts.fingerprint r.content = plainTexts.fingerprint r'.content ∧ r ≠ r' := by
    decide +kernel
  exact hrows

end Memories
