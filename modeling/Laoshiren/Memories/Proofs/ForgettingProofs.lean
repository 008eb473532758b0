import Laoshiren.Memories.Proofs.LifecycleProofs

/-!
# Forgetting

What was forgotten has a tombstone, and no active Memory has its content. That holds from the forget on
for as long as the user does not remember the content again, as long as no formation passes by the
tombstone: `update` does not look at it, and `create_if_allowed` looks at it before it writes.
-/

namespace Memories

open Runtime Raise
open PersonalState (Memory CreateMemory)

variable {texts : Texts} {op : Op} {view : ℕ → State} {s s' : State} {userId : UUID}
  {fingerprint : String}

/-! ## Tombstones -/

theorem isSuppressed_iff {t : Table MemorySuppression} :
    MemorySuppressionRepository.isSuppressed userId fingerprint t = true ↔
      ∃ r ∈ t, r.userId = userId ∧ r.contentFingerprint = fingerprint := by
  unfold MemorySuppressionRepository.isSuppressed MemorySuppressionRepository.find
  constructor
  · intro h
    obtain ⟨r, hr⟩ := Option.isSome_iff_exists.mp h
    obtain ⟨hmem, hp⟩ := Table.get_eq_some hr
    exact ⟨r, hmem, of_decide_eq_true hp⟩
  · rintro ⟨r, hmem, hp⟩
    by_contra hnone
    have hget := Table.get_eq_none.mp (Option.not_isSome_iff_eq_none.mp hnone) r hmem
    exact of_decide_eq_false hget hp

/-- A tombstone goes only where its content is remembered. -/
theorem mem_clear {c : CreateMemory} {seen t : Table MemorySuppression} {r : MemorySuppression}
    (hr : r ∈ t)
    (hown : ∀ row, MemorySuppressionRepository.find c.userId (texts.stored c.content) seen = some row →
      r.id = row.id → r = row)
    (hother : ¬(c.userId = r.userId ∧ texts.stored c.content = r.contentFingerprint)) :
    r ∈ MemorySuppressionRepository.clear c.userId (texts.stored c.content) seen t := by
  unfold MemorySuppressionRepository.clear
  split
  next row hfind =>
    refine Table.mem_delete.mpr ⟨hr, decide_eq_false fun hid => hother ?_⟩
    obtain rfl := hown row hfind hid
    obtain ⟨-, hp⟩ := Table.get_eq_some hfind
    obtain ⟨huser, hprint⟩ := of_decide_eq_true hp
    exact ⟨huser.symm, hprint.symm⟩
  next => exact hr

theorem record_ok {memoryId : Option UUID} {id : UUID} {seen t t' : Table MemorySuppression}
    (h : MemorySuppressionRepository.record userId fingerprint memoryId id seen t = some t') :
    (∀ r ∈ t, r ∈ t') ∧
      (MemorySuppressionRepository.isSuppressed userId fingerprint seen = true ∧ t' = t ∨
        ∃ r ∈ t', r.userId = userId ∧ r.contentFingerprint = fingerprint) := by
  unfold MemorySuppressionRepository.record at h
  split at h
  next row hfind =>
    obtain rfl := Option.some.inj h
    exact ⟨fun _ hr => hr, .inl ⟨by simp [MemorySuppressionRepository.isSuppressed, hfind], rfl⟩⟩
  next =>
    exact ⟨fun r hr => (Table.mem_insert? h).mpr (.inl hr),
      .inr ⟨_, (Table.mem_insert? h).mpr (.inr rfl), rfl, rfl⟩⟩

/-- A transaction that reads the state that it commits on reads the tombstones that are there. -/
theorem readsOwnTombstone_same (c : CreateMemory) (s : State) :
    ReadsOwnTombstone texts c (fun _ => s) s :=
  fun _ hrow _ hr hid => Table.eq_of_conflict hr (Table.get_eq_some hrow).1 (.inl hid)

/-! ## One step -/

/-- An update writes a content only where it is asked to, into a Memory that was active. -/
theorem revised_content {c : UpdateMemory} {memory revised : Memory} {now : Timestamp}
    (h : c.revised memory now = .ok revised) (hactive : revised.status = .active) :
    c.supersede = false ∧ memory.status = .active ∧
      revised.content = (c.content.map Text.strip).getD memory.content := by
  unfold UpdateMemory.revised at h
  split at h
  next =>
    simp only [supersede, bind_eq_ok, ensure_eq_ok, pure_eq_ok] at h
    obtain ⟨_, -, rfl⟩ := h
    cases hactive
  next hsupersede =>
    simp only [revise, bind_eq_ok, ensure_eq_ok, pure_eq_ok] at h
    obtain ⟨_, hstatus, _, -, _, -, rfl⟩ := h
    exact ⟨by simpa using hsupersede, hstatus, rfl⟩

/-- What an active Memory of a new content was made by. -/
theorem create_forgotten {c : CreateMemory} {stamp : Stamp} (hok : Unrevived texts op view s)
    (hkeeps : ¬op.remembers texts userId fingerprint) (hforgotten : Forgotten texts userId fingerprint s)
    (hop : op = .create c stamp ∨ op = .createIfAllowed c stamp ∧
      MemorySuppressionRepository.isSuppressed c.userId (texts.stored c.content)
          (view 1).suppressions = false ∧
        (reconciled texts c view).duplicatesState = false)
    (hnew : PersonalState.MemoryRepository.getByIdempotency c.userId c.idempotencyKey
      (view 0).memories = none) :
    ¬(c.userId = userId ∧ texts.stored c.content = fingerprint) ∧
      ReadsOwnTombstone texts c view s := by
  rcases hop with rfl | ⟨rfl, hread, -⟩
  · exact ⟨hkeeps, hok⟩
  · refine ⟨?_, hok.1⟩
    rintro ⟨rfl, rfl⟩
    have hsuppressed := hok.2 hnew (isSuppressed_iff.mpr hforgotten.suppressed)
    rw [hread] at hsuppressed
    cases hsuppressed

/-- What is forgotten stays so. -/
theorem forgotten_writes (hviews : ∀ n, Table.Grows Later (fun _ => True) (view n).memories s.memories)
    (hok : Unrevived texts op view s) (hkeeps : ¬op.remembers texts userId fingerprint)
    (hforgotten : Forgotten texts userId fingerprint s) {reply : Reply}
    (h : Writes texts op view s s' reply) : Forgotten texts userId fingerprint s' := by
  cases h with
  | nothing => exact hforgotten
  | @created c stamp superseded before memories hop hnew hbefore hinsert =>
    obtain ⟨hother, hown⟩ := create_forgotten hok hkeeps hforgotten hop hnew
    constructor
    · obtain ⟨r, hr, huser, hprint⟩ := hforgotten.suppressed
      refine ⟨r, mem_clear hr (fun row hrow => hown row hrow r hr) ?_, huser, hprint⟩
      rwa [huser, hprint]
    · intro r hr huser hactive
      rcases (Table.mem_insert? hinsert).mp hr with hold | rfl
      · rcases supersede_ok (hviews 4) hbefore with ⟨-, rfl⟩ |
          ⟨memory, revised, -, -, hstatus, hreplaces⟩
        · exact hforgotten.inactive r hold huser hactive
        · rcases hreplaces.mem_cases hold with rfl | ⟨hthere, -⟩
          · rw [hstatus] at hactive
            cases hactive
          · exact hforgotten.inactive r hthere huser hactive
      · exact fun hprint => hother ⟨huser, hprint⟩
  | @updated author c now memory revised _ hop hloads hrevised hwrite =>
    obtain ⟨hvalues, hlater, -⟩ := revised_later hrevised
    obtain ⟨hseen, hwhere⟩ := Table.get_eq_some hloads.2.1
    obtain ⟨-, hmemoryUser⟩ := of_decide_eq_true hwhere
    obtain ⟨hreplaces, hsame⟩ := writeBack_ok (hviews 1) hseen hlater hvalues hwrite
    constructor
    · rw [hsame]
      exact hforgotten.suppressed
    · intro r hr huser hactive hprint
      rcases hreplaces.mem_cases hr with rfl | ⟨hthere, -⟩
      · obtain ⟨hsupersede, hstatus, hcontent⟩ := revised_content hrevised hactive
        have hcUser : c.userId = userId :=
          hmemoryUser.symm.trans (hlater.same.2.1.symm.trans huser)
        rw [hcontent] at hprint
        cases hnew : c.content with
        | none =>
          rw [hnew] at hprint
          exact hforgotten.inactive memory hreplaces.1 (hmemoryUser.trans hcUser) hstatus hprint
        | some content =>
          rw [hnew] at hprint
          subst hop
          cases author with
          | user => exact hkeeps ⟨hcUser, hsupersede, content, hnew, hprint⟩
          | formation =>
            have hfree := hok memory hloads hreplaces.1 hstatus hsupersede content hnew
            have hstored : texts.stored content = fingerprint := hprint
            rw [hcUser, hstored, isSuppressed_iff.mpr hforgotten.suppressed] at hfree
            cases hfree
      · exact hforgotten.inactive r hthere huser hactive hprint
  | @forgotten c stamp memory _ suppressions _ hloads hwrite hrecord =>
    obtain ⟨hvalues, hlater, hdeleted⟩ := delete_later memory stamp.now
    obtain ⟨hreplaces, -⟩ := writeBack_ok (hviews 1) (Table.get_eq_some hloads.2.1).1 hlater hvalues
      hwrite
    constructor
    · obtain ⟨r, hr, hthere⟩ := hforgotten.suppressed
      exact ⟨r, (record_ok hrecord).1 r hr, hthere⟩
    · intro r hr huser hactive
      rcases hreplaces.mem_cases hr with rfl | ⟨hthere, -⟩
      · rw [hdeleted] at hactive
        cases hactive
      · exact hforgotten.inactive r hthere huser hactive
  | @foreign change hforeign =>
    obtain ⟨hmemories, hsuppressions, -⟩ := hforeign s
    refine ⟨?_, ?_⟩
    · rw [hsuppressions]
      exact hforgotten.suppressed
    · rw [hmemories]
      exact hforgotten.inactive

/-- A content is forgotten once a Memory of it was. -/
theorem forget_forgets (hviews : ∀ n, Table.Grows Later (fun _ => True) (view n).memories s.memories)
    {c : ForgetMemory} {stamp : Stamp} (hok : Unrevived texts (.forget c stamp) view s)
    {memory : Memory} {r : Memory} (hr : r ∈ s.memories) (hid : r.id = c.memoryId)
    (hreply : (commit texts (.forget c stamp) view s).2 =
      .outcome (ForgetMemory.outcome memory false)) :
    Forgotten texts c.userId (texts.fingerprint r.content)
      (commit texts (.forget c stamp) view s).1 := by
  have hwrites := writes_commit texts (.forget c stamp) view s
  rw [hreply] at hwrites
  generalize (commit texts (.forget c stamp) view s).1 = s' at hwrites ⊢
  generalize hanswer : Reply.outcome (ForgetMemory.outcome memory false) = reply at hwrites
  cases hwrites with
  | nothing hnot => exact absurd hanswer.symm (hnot memory)
  | created hop => rcases hop with hop | ⟨hop, -⟩ <;> cases hop
  | updated => cases hanswer
  | @forgotten c' stamp' loaded s₁ suppressions hop hloads hwrite hrecord =>
    obtain ⟨rfl, rfl⟩ := Op.forget.inj hop
    obtain ⟨hvalues, hlater, hdeleted⟩ := delete_later loaded stamp.now
    obtain ⟨hseen, hwhere⟩ := Table.get_eq_some hloads.2.1
    obtain ⟨hloadedId, -⟩ := of_decide_eq_true hwhere
    obtain ⟨hreplaces, -⟩ := writeBack_ok (hviews 1) hseen hlater hvalues hwrite
    obtain rfl := Table.eq_of_conflict hr hreplaces.1 (.inl (hid.trans hloadedId.symm))
    obtain ⟨honly, hread⟩ := hok r hloads hr
    constructor
    · rcases (record_ok hrecord).2 with ⟨hseen, rfl⟩ | hthere
      · exact isSuppressed_iff.mp (hread hseen)
      · exact hthere
    · intro r' hr' huser hactive hprint
      rcases hreplaces.mem_cases hr' with rfl | ⟨hthere, hne⟩
      · rw [hdeleted] at hactive
        cases hactive
      · exact hne (honly r' hthere huser hactive hprint)
  | foreign hop => cases hop

/-! ## Every run -/

/-- In every run in which no formation brings back what was forgotten, a content that the user forgot
has no active Memory until the user remembers it again. -/
theorem forgotten_stays_forgotten (texts : Texts) {h : History State Op Reply}
    (hr : (system texts).ReachableIf (Unrevived texts) h) {j : ℕ} {c : ForgetMemory} {stamp : Stamp}
    {memory r : Memory} {before : State}
    (hj : h.replies[j]? = some (.forget c stamp, .outcome (ForgetMemory.outcome memory false)))
    (hbefore : h.states[j + 1]? = some before) (hmem : r ∈ before.memories) (hid : r.id = c.memoryId)
    (hkeeps : ∀ entry ∈ h.replies.take j,
      ¬entry.1.remembers texts c.userId (texts.fingerprint r.content)) :
    ∀ r' ∈ h.cur.memories, r'.userId = c.userId → r'.status = .active →
      texts.fingerprint r'.content ≠ texts.fingerprint r.content := by
  have hS : Program.Stable (system texts) (Unrevived texts) (fun s => Descends s.memories)
      fun v s => Table.Grows Later (fun _ => True) v.memories s.memories :=
    (stable_memories texts).restrict fun _ _ _ _ => trivial
  obtain ⟨h₀, view, hr₀, hview, hok, hreply, hstates⟩ := hr.answered hj
  have hsecond := congrArg (fun states => states[1]?) hstates
  have hfirst := congrArg (fun states => states[0]?) hstates
  simp only [List.getElem?_drop] at hsecond hfirst
  obtain rfl : before = h₀.cur := Option.some.inj (hbefore.symm.trans hsecond)
  have hforgotten := forget_forgets (fun n => hS.rel_mem hr₀ (hview n)) hok hmem hid hreply
  obtain ⟨hlt, hat⟩ := List.getElem?_eq_some_iff.mp hfirst
  have hlen : h.states.length - 1 - (h.states.length - 1 - j) = j := by omega
  refine (hS.persists (Forgotten texts c.userId (texts.fingerprint r.content))
    (fun op => ¬op.remembers texts c.userId (texts.fingerprint r.content)) ?_ hr
    (i := ⟨h.states.length - 1 - j, by omega⟩) ?_ ?_).inactive
  · exact fun op view s _ hviews hok hkeeps hforgotten =>
      forgotten_writes (fun n => (hviews n).2) hok hkeeps hforgotten (writes_commit texts op view s)
  · simpa only [hlen] using hkeeps
  · have hstate : h.stateAt ⟨h.states.length - 1 - j, by omega⟩ = h.states[j] := by
      simp only [History.stateAt, hlen]
    have hafter : h.states[j] = (commit texts (.forget c stamp) view h₀.cur).1 := hat
    rw [hstate, hafter]
    exact hforgotten

/-- What user 1 asks to be remembered. -/
def remember (content key : String) : CreateMemory where
  userId := 1
  memoryType := .semantic
  content
  summary := content
  importance := 3 / 5
  confidence := 7 / 10
  idempotencyKey := key

/-- User 1 likes tea and water. -/
def teaKnown : History State Op Reply :=
  (system plainTexts).serial {}
    [.create (remember "喝茶" "remember-1") ⟨11, 1⟩, .create (remember "喝水" "remember-2") ⟨12, 2⟩]

/-- User 1 has the tea forgotten. -/
def forgetTea : Op := .forget ⟨1, 11, 1, "forget-1"⟩ ⟨21, 3⟩

def teaForgotten : History State Op Reply :=
  (system plainTexts).extend teaKnown forgetTea fun _ => teaKnown.cur

/-- The water, as the formation reads it. -/
def water : Memory where
  userId := 1
  memoryType := .semantic
  content := "喝水"
  summary := "喝水"
  importance := 3 / 5
  confidence := 7 / 10
  idempotencyKey := "remember-2"
  id := 12
  createdAt := 2
  updatedAt := 2

/-- The tea, as it is forgotten. -/
def tea : Memory :=
  { water with
    content := "喝茶"
    summary := "喝茶"
    idempotencyKey := "remember-1"
    id := 11
    createdAt := 1
    updatedAt := 1 }

/-- Nobody brings the tea back that was just forgotten. -/
theorem forgotten_stays_forgotten_tea :
    ¬∃ r' ∈ teaForgotten.cur.memories, r'.userId = 1 ∧ r'.status = .active ∧
      plainTexts.fingerprint r'.content = plainTexts.fingerprint "喝茶" := by
  have hloaded : MemoryRepository.get 1 11 teaKnown.cur.memories = some tea := by
    decide +kernel
  have honly : ∀ r ∈ teaKnown.cur.memories.rows, r.userId = 1 → r.status = .active →
      plainTexts.fingerprint r.content = plainTexts.fingerprint tea.content → r = tea := by
    decide +kernel
  have hmeets : Unrevived plainTexts forgetTea (fun _ => teaKnown.cur) teaKnown.cur := by
    intro memory hloads _
    obtain rfl := Option.some.inj (hloads.2.1.symm.trans hloaded)
    exact ⟨honly, fun h => h⟩
  have hknown : (system plainTexts).ReachableIf (Unrevived plainTexts) teaKnown :=
    (system _).serial_reachableIf rfl _
      ⟨readsOwnTombstone_same _ _, readsOwnTombstone_same _ _, trivial⟩
  have hreachable : (system plainTexts).ReachableIf (Unrevived plainTexts) teaForgotten :=
    hknown.commit forgetTea _ (fun _ => .head _) hmeets
  have hanswer : (commit plainTexts forgetTea (fun _ => teaKnown.cur) teaKnown.cur).2 =
      .outcome (ForgetMemory.outcome tea false) := by
    decide +kernel
  have hreply : teaForgotten.replies[0]? =
      some (forgetTea, .outcome (ForgetMemory.outcome tea false)) :=
    congrArg (fun reply => some (forgetTea, reply)) hanswer
  have hbefore : teaForgotten.states[0 + 1]? = some teaKnown.cur := rfl
  have hmem : tea ∈ teaKnown.cur.memories := (Table.get_eq_some hloaded).1
  have hid : tea.id = 11 := rfl
  have hlaw := forgotten_stays_forgotten plainTexts hreachable hreply hbefore hmem hid (by simp)
  rintro ⟨r', hr', huser, hactive, hsame⟩
  exact hlaw r' hr' huser hactive hsame

theorem drinksTea_ok : Text.strip "喝茶" ≠ "" := by decide +kernel

theorem importance_default : (0 : ℚ) ≤ 3 / 5 ∧ (3 / 5 : ℚ) ≤ 1 := by norm_num

theorem confidence_default : (0 : ℚ) ≤ 7 / 10 ∧ (7 / 10 : ℚ) ≤ 1 := by norm_num

/-- The extractor finds tea in an old Message, and takes the water for its earlier version. -/
def teaAgain : MemoryCandidate where
  memoryType := .semantic
  content := "喝茶"
  action := .update 12
  content_ok := drinksTea_ok
  importance_ok := importance_default
  confidence_ok := confidence_default

/-- The formation of Run 5 carries out what the extractor found. -/
def teaRevived : History State Op Reply :=
  (system plainTexts).extend teaForgotten
    (.update .formation (teaAgain.revision plainTexts ⟨1, 5⟩ water) 4) fun _ => teaForgotten.cur

/-- A formation that updates a Memory brings back what the user forgot, and has not asked for again. -/
theorem forgotten_comes_back :
    (system plainTexts).Reachable teaRevived ∧ teaAgain.considered plainTexts (7 / 10) = true ∧
      teaAgain.transactions plainTexts ⟨1, 5⟩ (fun _ => ⟨30, 4⟩) teaForgotten.cur.memories =
        [.update .formation (teaAgain.revision plainTexts ⟨1, 5⟩ water) 4] ∧
      teaRevived.replies[1]? =
        some (forgetTea, .outcome (ForgetMemory.outcome tea false)) ∧
      (∃ before, teaRevived.states[2]? = some before ∧ tea ∈ before.memories) ∧
      (∀ entry ∈ teaRevived.replies.take 1,
        ¬entry.1.remembers plainTexts 1 (plainTexts.fingerprint "喝茶")) ∧
      ∃ r ∈ teaRevived.cur.memories, r.userId = 1 ∧ r.status = .active ∧
        plainTexts.fingerprint r.content = plainTexts.fingerprint "喝茶" := by
  have hfound : MemoryRepository.get 1 12 teaForgotten.cur.memories = some water := by
    decide +kernel
  have hanswer : (commit plainTexts forgetTea (fun _ => teaKnown.cur) teaKnown.cur).2 =
      .outcome (ForgetMemory.outcome tea false) := by
    decide +kernel
  have hrow : ∃ r ∈ teaRevived.cur.memories.rows, r.userId = 1 ∧ r.status = .active ∧
      plainTexts.fingerprint r.content = plainTexts.fingerprint "喝茶" := by
    decide +kernel
  have hbefore : MemoryRepository.get 1 11 teaKnown.cur.memories = some tea := by
    decide +kernel
  refine ⟨?_, by decide +kernel, ?_, ?_, ⟨_, rfl, (Table.get_eq_some hbefore).1⟩, ?_, hrow⟩
  · refine .commit (.commit ((system _).serial_reachable rfl _) _ _ (fun _ => .head _) trivial) _ _
      (fun _ => .head _) trivial
  · simp only [MemoryCandidate.transactions, teaAgain, hfound]
    rfl
  · exact congrArg (fun reply => some (forgetTea, reply)) hanswer
  · rintro entry (_ | ⟨_, ⟨⟩⟩)
    exact not_false

end Memories
