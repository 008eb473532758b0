import Laoshiren.Memories.Proofs.LifecycleProofs
import Laoshiren.Memories.Proofs.RetrievalProofs

/-!
# Proofs: the context of a Run

A search finds active Memories of the user, in the states that its statements read. No write changes
the type of a Memory, so the searches of a context for different types never find the same one,
whatever commits between them; and a Memory that is not active any more is never found again
(`context_live`).
-/

namespace Memories

open Raise Runtime
open PersonalState (Memory MemoryType MemoryStatus CreateMemory)
open PersonalState.MemoryRepository (updateValues)

variable {δ : Type} [LinearOrder δ] {ilike : String → String → Bool} {q : MemorySearch δ}
  {status : MemoryStatus} {t t' : Table Memory} {memory : Memory} {userId : UUID}
  {memoryType : MemoryType} {view : ℕ → Table Memory} {found : List Memory}

/-! ## What a search finds -/

/-- A Memory that a search may find: its user's, active, of the type that is asked for. -/
structure Sought (q : MemorySearch δ) (memory : Memory) : Prop where
  own : memory.userId = q.userId
  active : memory.status = .active
  typed : ∀ memoryType ∈ q.memoryType, memory.memoryType = memoryType

theorem mem_ranking (h : memory ∈ MemoryRepository.ranking ilike q .active t) :
    memory ∈ t ∧ Sought q memory := by
  have hmatching : memory ∈ MemoryRepository.matching ilike q .active t := by
    unfold MemoryRepository.ranking at h
    split at h
    · exact List.mem_of_mem_filter ((List.mem_insertionSort _).mp h)
    · split at h
      · exact (List.mem_insertionSort _).mp h
      · exact (List.mem_insertionSort _).mp h
  obtain ⟨hmem, hwhere⟩ := Table.mem_select.mp hmatching
  obtain ⟨howner, hactive, htype, -⟩ := of_decide_eq_true hwhere
  refine ⟨hmem, howner, hactive, fun memoryType hsome => ?_⟩
  rw [hsome] at htype
  exact of_decide_eq_true htype

theorem mem_search {limit : ℕ} (h : memory ∈ MemoryRepository.search ilike q .active limit t) :
    memory ∈ t ∧ Sought q memory := mem_ranking (List.mem_of_mem_take h)

/-- A search that is left out finds nothing. -/
theorem mem_candidates {q' : Option (MemorySearch δ)} {limit : ℕ}
    (h : memory ∈ q'.elim [] fun q => MemoryRepository.search ilike q .active limit t) :
    ∃ q ∈ q', memory ∈ t ∧ Sought q memory := by
  cases q' with
  | none => exact absurd h List.not_mem_nil
  | some q => exact ⟨q, rfl, mem_search h⟩

theorem sought_lexical {q' : MemorySearch δ} (hq : q' ∈ q.lexical) (h : Sought q' memory) :
    Sought q memory := by
  obtain ⟨query, -, rfl⟩ := Option.map_eq_some_iff.mp hq
  exact ⟨h.own, h.active, h.typed⟩

theorem sought_vector {q' : MemorySearch δ} (hq : q' ∈ q.vector) (h : Sought q' memory) :
    Sought q memory := by
  obtain ⟨distance, -, rfl⟩ := Option.map_eq_some_iff.mp hq
  exact ⟨h.own, h.active, h.typed⟩

theorem mem_hybridSearchMemories {limit candidateMultiplier : ℕ}
    (h : memory ∈ hybridSearchMemories ilike q limit candidateMultiplier view) :
    ∃ n, memory ∈ view n ∧ Sought q memory := by
  unfold hybridSearchMemories at h
  dsimp only at h
  have hlexical : ∀ {limit}, memory ∈ q.lexical.elim [] (fun q =>
      MemoryRepository.search ilike q .active limit (view 0)) →
      ∃ n, memory ∈ view n ∧ Sought q memory := by
    intro limit hmem
    obtain ⟨q', hq, hmem, hsought⟩ := mem_candidates hmem
    exact ⟨0, hmem, sought_lexical hq hsought⟩
  have hvector : ∀ {limit}, memory ∈ q.vector.elim [] (fun q =>
      MemoryRepository.search ilike q .active limit (view 1)) →
      ∃ n, memory ∈ view n ∧ Sought q memory := by
    intro limit hmem
    obtain ⟨q', hq, hmem, hsought⟩ := mem_candidates hmem
    exact ⟨1, hmem, sought_vector hq hsought⟩
  split at h
  · obtain ⟨id, -, hfound⟩ := List.mem_filterMap.mp h
    rcases List.mem_append.mp (List.mem_reverse.mp (List.mem_of_find?_eq_some hfound)) with
      hmem | hmem
    · exact hlexical hmem
    · exact hvector hmem
  · split at h
    · exact hvector (List.mem_of_mem_take h)
    · split at h
      · exact hlexical (List.mem_of_mem_take h)
      · obtain ⟨hmem, hsought⟩ := mem_search h
        exact ⟨2, hmem, hsought.own, hsought.active, hsought.typed⟩

/-- What `search` answers: Memories that were sought, each once and no more than asked for. -/
theorem searchMemories_ok {limit : ℤ} (h : searchMemories ilike q limit view = .ok found) :
    (∀ memory ∈ found, ∃ n, memory ∈ view n ∧ Sought q memory) ∧ (found.map Memory.id).Nodup ∧
      1 ≤ limit ∧ (found.length : ℤ) ≤ limit := by
  simp only [searchMemories, bind_eq_ok, ensure_eq_ok] at h
  obtain ⟨_, hlimit, h⟩ := h
  have hnat : ((limit.toNat : ℕ) : ℤ) = limit := Int.toNat_of_nonneg (by omega)
  split at h
  · obtain rfl := pure_eq_ok.mp h
    have hfair := searchesFairly ilike { q with
      query := (q.query.filter fun query => query ≠ "").map Text.strip } limit.toNat 3 view
    refine ⟨fun memory hmem => ?_, hfair.distinct, hlimit.1, ?_⟩
    · obtain ⟨n, hview, hsought⟩ := mem_hybridSearchMemories hmem
      exact ⟨n, hview, hsought.own, hsought.active, hsought.typed⟩
    · have hlength := hfair.length_le
      omega
  · obtain rfl := pure_eq_ok.mp h
    refine ⟨fun memory hmem => ?_, ?_, hlimit.1, ?_⟩
    · obtain ⟨hview, hsought⟩ := mem_search hmem
      exact ⟨0, hview, hsought.own, hsought.active, hsought.typed⟩
    · exact MemoryRepository.nodup_ranking.sublist ((List.take_sublist _ _).map _)
    · have hlength := List.length_take_le limit.toNat (MemoryRepository.ranking ilike { q with
        query := (q.query.filter fun query => query ≠ "").map Text.strip } .active (view 0))
      unfold MemoryRepository.search
      omega

/-- The freshest profiles are found first. -/
theorem profile_ok {limit : ℤ}
    (h : searchMemories ilike (⟨userId, none, some .profile, none, none⟩ : MemorySearch δ) limit
      view = .ok found)
    {r : Memory} (hr : r ∈ view 0) (hown : r.userId = userId) (hactive : r.status = .active)
    (htype : r.memoryType = .profile) :
    r ∈ found ∨ (found.length : ℤ) = limit ∧ ∀ memory ∈ found, r.updatedAt ≤ memory.updatedAt := by
  simp only [searchMemories, bind_eq_ok, ensure_eq_ok] at h
  obtain ⟨_, hlimit, h⟩ := h
  rw [if_neg fun hembedding => Bool.false_ne_true hembedding.1] at h
  obtain rfl := pure_eq_ok.mp h
  let fresher (r r' : Memory) : Prop :=
    toLex (r'.updatedAt, r'.id.toNat) ≤ toLex (r.updatedAt, r.id.toNat)
  have htotal : Std.Total fresher := ⟨fun r r' => le_total _ _⟩
  have htrans : IsTrans _ fresher := ⟨fun r r' r'' h h' => le_trans h' h⟩
  have hsorted : (((MemoryRepository.matching ilike (⟨userId, none, some .profile, none, none⟩ :
      MemorySearch δ) .active (view 0)).insertionSort fresher).Pairwise fresher) :=
    List.pairwise_insertionSort fresher _
  have hmatching : r ∈ MemoryRepository.matching ilike (⟨userId, none, some .profile, none, none⟩ :
      MemorySearch δ) .active (view 0) := by
    refine Table.mem_select.mpr ⟨hr, decide_eq_true ⟨hown, hactive, ?_, rfl, rfl⟩⟩
    exact decide_eq_true htype
  rcases hsorted.mem_take_or ((List.mem_insertionSort _).mpr hmatching) limit.toNat with
    hfound | ⟨hlength, hfresher⟩
  · exact .inl hfound
  · refine .inr ⟨?_, fun memory hmemory => ?_⟩
    · have hnat : ((limit.toNat : ℕ) : ℤ) = limit := Int.toNat_of_nonneg (by omega)
      exact (congrArg Nat.cast hlength).trans hnat
    · rcases Prod.Lex.toLex_le_toLex.mp (hfresher memory hmemory) with hlt | ⟨heq, -⟩
      · exact le_of_lt hlt
      · exact le_of_eq heq

/-! ## Types -/

/-- A Memory keeps its type. -/
def SameType (r r' : Memory) : Prop := r'.memoryType = r.memoryType

theorem SameType.refl (r : Memory) : SameType r r := rfl

theorem sameType_update {p : Memory → Bool} {revised : Memory}
    (h : t.update? p (updateValues revised) = some t') :
    Table.Evolves Memory.id SameType t t' := by
  intro r hr
  refine ⟨Table.updateRow p (updateValues revised) r, (Table.mem_update? h).mpr ⟨r, hr, rfl⟩, ?_⟩
  unfold Table.updateRow
  split
  · exact ⟨rfl, rfl⟩
  · exact ⟨rfl, rfl⟩

theorem sameType_writeBack {s s' : State} {revised : Memory} {version : ℕ} {key : String}
    (h : writeBack revised version key s = .ok s') :
    Table.Evolves Memory.id SameType s.memories s'.memories := by
  simp only [writeBack, bind_eq_ok, orRaise_eq_ok, ensure_eq_ok, pure_eq_ok] at h
  obtain ⟨memories, hupdate, _, _, operations, _, rfl⟩ := h
  exact sameType_update hupdate

theorem sameType_trans {t'' : Table Memory} (h : Table.Evolves Memory.id SameType t t')
    (h' : Table.Evolves Memory.id SameType t' t'') : Table.Evolves Memory.id SameType t t'' :=
  h.trans (fun _ _ _ hsame hsame' => hsame'.trans hsame) h'

/-- No step changes the type of a Memory, or loses one. -/
theorem sameType_writes {texts : Texts} {op : Op} {view : ℕ → State} {s s' : State} {reply : Reply}
    (h : Writes texts op view s s' reply) :
    Table.Evolves Memory.id SameType s.memories s'.memories := by
  cases h with
  | nothing => exact .refl SameType.refl _
  | @created c stamp superseded before memories _ _ hbefore hinsert =>
    refine sameType_trans ?_ (.insert? SameType.refl hinsert)
    unfold CreateMemory.supersede at hbefore
    split at hbefore
    next =>
      simp only [pure_eq_ok, Prod.mk.injEq] at hbefore
      obtain ⟨-, rfl⟩ := hbefore
      exact .refl SameType.refl _
    next =>
      simp only [bind_eq_ok, orRaise_eq_ok, ensure_eq_ok, pure_eq_ok, Prod.mk.injEq] at hbefore
      obtain ⟨memories, hupdate, _, _, _, rfl⟩ := hbefore
      exact sameType_update hupdate
  | updated _ _ _ hwrite => exact sameType_writeBack hwrite
  | forgotten _ _ hwrite =>
    have hkept := sameType_writeBack hwrite
    exact hkept
  | @foreign change hforeign =>
    rw [(hforeign s).memories]
    exact .refl SameType.refl _

theorem stable_types (texts : Texts) :
    Program.Stable (system texts) (fun _ _ _ => True) (fun _ => True)
      fun v s => Table.Evolves Memory.id SameType v.memories s.memories where
  init _ _ := trivial
  refl _ := .refl SameType.refl _
  trans _ _ _ := sameType_trans
  step op view s _ _ _ := ⟨trivial, sameType_writes (writes_commit texts op view s)⟩

/-- Two Memories with one id have one type, in whichever states of a run they are. -/
theorem memoryType_eq {texts : Texts} {h : History State Op Reply}
    (hreachable : (system texts).Reachable h) {v w : State} (hv : v ∈ h.states)
    (hw : w ∈ h.states) {r r' : Memory} (hr : r ∈ v.memories) (hr' : r' ∈ w.memories)
    (hid : r.id = r'.id) : r.memoryType = r'.memoryType := by
  obtain ⟨s, hs, hsid, hsame⟩ := (stable_types texts).rel_mem hreachable hv r hr
  obtain ⟨s', hs', hsid', hsame'⟩ := (stable_types texts).rel_mem hreachable hw r' hr'
  obtain rfl := Table.eq_of_conflict hs hs' (.inl (by rw [hsid, hid, hsid']))
  exact hsame.symm.trans hsame'

/-! ## The context -/

theorem mem_rankMemories {activeThingIds : List UUID} {memories : List Memory} :
    memory ∈ rankMemories activeThingIds memories ↔ memory ∈ memories := List.mem_insertionSort _

/-- Lists of Memories of different types have no id in common, where an id has one type. -/
theorem nodup_append_of_types {found found' : List Memory} (hids : (found.map Memory.id).Nodup)
    (hids' : (found'.map Memory.id).Nodup)
    (htypes : ∀ memory ∈ found, ∀ memory' ∈ found', memory.id ≠ memory'.id) :
    ((found ++ found').map Memory.id).Nodup := by
  rw [List.map_append]
  refine List.nodup_append.mpr ⟨hids, hids', fun id hid id' hid' => ?_⟩
  obtain ⟨memory, hmemory, rfl⟩ := List.mem_map.mp hid
  obtain ⟨memory', hmemory', rfl⟩ := List.mem_map.mp hid'
  exact htypes memory hmemory memory' hmemory'

/-- Where an id has one type in all the states that are read, a context is in order. -/
theorem inOrder_loadContext {embed : String → Option (Memory → WithTop δ)} {query : String}
    {profileLimit relevantLimit : ℤ} {activeThingIds : List UUID} {context : MemoryContext}
    (h : loadContext ilike embed userId query profileLimit relevantLimit activeThingIds view =
      .ok context)
    (htypes : ∀ n n', ∀ r ∈ view n, ∀ r' ∈ view n', r.id = r'.id → r.memoryType = r'.memoryType) :
    InOrder userId profileLimit relevantLimit view context := by
  simp only [loadContext, bind_eq_ok, pure_eq_ok] at h
  obtain ⟨profile, hprofile, semantic, hsemantic, episodic, hepisodic, rfl⟩ := h
  obtain ⟨hprofiles, hprofileIds, -, hprofileLength⟩ := searchMemories_ok hprofile
  obtain ⟨hsemantics, hsemanticIds, hlimit, -⟩ := searchMemories_ok hsemantic
  obtain ⟨hepisodics, hepisodicIds, -, -⟩ := searchMemories_ok hepisodic
  -- what is relevant comes from one of the two searches
  have hrelevant : ∀ memory ∈ (rankMemories activeThingIds (semantic ++ episodic)).take
      relevantLimit.toNat, ∃ n, memory ∈ view n ∧ memory.userId = userId ∧
        memory.status = .active ∧ memory.memoryType ≠ .profile := by
    intro memory hmemory
    rcases List.mem_append.mp (mem_rankMemories.mp (List.mem_of_mem_take hmemory)) with
      hfound | hfound
    · obtain ⟨n, hview, hsought⟩ := hsemantics memory hfound
      have htype := hsought.typed .semantic rfl
      exact ⟨n + 1, hview, hsought.own, hsought.active, by simp [htype]⟩
    · obtain ⟨n, hview, hsought⟩ := hepisodics memory hfound
      have htype := hsought.typed .episodic rfl
      exact ⟨n + 4, hview, hsought.own, hsought.active, by simp [htype]⟩
  have hapart : ∀ memory ∈ semantic, ∀ memory' ∈ episodic, memory.id ≠ memory'.id := by
    intro memory hfound memory' hfound' hid
    obtain ⟨n, hview, hsought⟩ := hsemantics memory hfound
    obtain ⟨n', hview', hsought'⟩ := hepisodics memory' hfound'
    have hsame := htypes _ _ memory hview memory' hview' hid
    rw [hsought.typed .semantic rfl, hsought'.typed .episodic rfl] at hsame
    cases hsame
  have hcombined : ((rankMemories activeThingIds (semantic ++ episodic)).map Memory.id).Nodup :=
    ((List.perm_insertionSort _ _).map Memory.id).nodup_iff.mpr
      (nodup_append_of_types hsemanticIds hepisodicIds hapart)
  refine ⟨fun memory hmemory => ?_, fun memory hmemory => ?_, fun memory hmemory => ?_, ?_,
    hprofileLength, ?_, fun r hr hown hactive htype => profile_ok hprofile hr hown hactive htype⟩
  · rcases List.mem_append.mp hmemory with hfound | hfound
    · obtain ⟨n, hview, hsought⟩ := hprofiles memory hfound
      exact ⟨hsought.own, hsought.active, n, hview⟩
    · obtain ⟨n, hview, hown, hactive, -⟩ := hrelevant memory hfound
      exact ⟨hown, hactive, n, hview⟩
  · obtain ⟨n, -, hsought⟩ := hprofiles memory hmemory
    exact hsought.typed .profile rfl
  · obtain ⟨n, -, -, -, htype⟩ := hrelevant memory hmemory
    exact htype
  · refine nodup_append_of_types hprofileIds (hcombined.sublist ((List.take_sublist _ _).map _)) ?_
    intro memory hfound memory' hfound' hid
    obtain ⟨n, hview, hsought⟩ := hprofiles memory hfound
    obtain ⟨n', hview', -, -, htype⟩ := hrelevant memory' hfound'
    exact htype ((htypes n n' memory hview memory' hview' hid).symm.trans
      (hsought.typed .profile rfl))
  · have hlength := List.length_take_le relevantLimit.toNat
      (rankMemories activeThingIds (semantic ++ episodic))
    show (((rankMemories activeThingIds (semantic ++ episodic)).take
      relevantLimit.toNat).length : ℤ) ≤ relevantLimit
    omega

/-- In every run, whatever commits between its reads, a context is in order; and it holds no Memory
that was forgotten or superseded before. -/
theorem context_live {texts : Texts} {h : History State Op Reply}
    (hreachable : (system texts).Reachable h) {view : ℕ → State} (hviews : ∀ n, view n ∈ h.states)
    {embed : String → Option (Memory → WithTop δ)} {query : String}
    {profileLimit relevantLimit : ℤ} {activeThingIds : List UUID} {context : MemoryContext}
    (hloaded : loadContext ilike embed userId query profileLimit relevantLimit activeThingIds
      (fun n => (view n).memories) = .ok context) :
    InOrder userId profileLimit relevantLimit (fun n => (view n).memories) context ∧
      ∀ (k : ℕ) (v : State), h.states[k]? = some v → (∀ n, view n ∈ h.states.take (k + 1)) →
        ∀ r ∈ v.memories, r.status ≠ .active →
          ∀ memory ∈ context.profile ++ context.relevant, memory.id ≠ r.id := by
  have horder := inOrder_loadContext hloaded fun n n' r hr r' hr' hid =>
    memoryType_eq hreachable (hviews n) (hviews n') hr hr' hid
  refine ⟨horder, fun k v hv hlater r hr hinactive memory hmemory hid => ?_⟩
  obtain ⟨-, hactive, n, hview⟩ := horder.active memory hmemory
  obtain ⟨hk, hat⟩ := List.getElem?_eq_some_iff.mp hv
  have hdropped : v ∈ h.states.drop k :=
    List.mem_drop_iff_getElem.mpr ⟨0, by omega, by simpa using hat⟩
  obtain ⟨r', hr', hmoved⟩ :=
    ((stable_memories texts).rel_since hreachable hdropped (hlater n)).kept r hr
  obtain rfl := Table.eq_of_conflict hr' hview (.inl (hmoved.id_eq.trans hid.symm))
  rcases hmoved with rfl | ⟨-, -, -, hback⟩
  · exact hinactive hactive
  · exact hinactive (hback hactive)

/-- User 1 names a language, and the formation finds another one. -/
def renamedLanguage : History State Op Reply :=
  (system plainTexts).serial {}
    [.create (language "用中文" "remember-1") ⟨11, 1⟩,
      .createIfAllowed (language "用英文" "agent-memory-1") ⟨12, 2⟩]

/-- There is no provider of embeddings. -/
def noEmbeddings : String → Option (Memory → WithTop ℕ) := fun _ => none

/-- The context holds the second language, and not the one that it superseded. -/
theorem context_live_renamed :
    ∃ context,
      loadContext (fun _ _ => true) noEmbeddings 1 "语言" 6 6 [] (fun _ =>
        renamedLanguage.cur.memories) = .ok context ∧
      context.profile.map Memory.content = ["用英文"] ∧
      InOrder 1 6 6 (fun _ => renamedLanguage.cur.memories) context ∧
      ∀ r ∈ renamedLanguage.cur.memories, r.status ≠ .active →
        ∀ memory ∈ context.profile ++ context.relevant, memory.id ≠ r.id := by
  have hreachable : (system plainTexts).Reachable renamedLanguage :=
    (system _).serial_reachable rfl _
  have hprofile : ((loadContext (fun _ _ => true) noEmbeddings 1 "语言" 6 6 [] fun _ =>
      renamedLanguage.cur.memories).map fun context =>
        context.profile.map Memory.content).toOption = some ["用英文"] := by
    decide +kernel
  cases hloaded : loadContext (fun _ _ => true) noEmbeddings 1 "语言" 6 6 [] fun _ =>
      renamedLanguage.cur.memories with
  | error error =>
    rw [hloaded] at hprofile
    cases hprofile
  | ok context =>
    rw [hloaded] at hprofile
    obtain ⟨horder, hgone⟩ :=
      context_live hreachable (fun _ => List.mem_cons_self) hloaded
    exact ⟨context, rfl, Option.some.inj hprofile, horder,
      hgone 0 renamedLanguage.cur rfl fun _ => List.mem_cons_self⟩

end Memories
