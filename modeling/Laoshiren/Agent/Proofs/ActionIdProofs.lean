import Mathlib.Data.List.Nodup
import Mathlib.Tactic.IntervalCases
import Laoshiren.Agent.Proofs.VisitProofs
import Laoshiren.Agent.Visit

/-!
# Proofs: the ids of actions

Different actions have different name strings. The invariant is that the keys of the actions that went
to the ledger are distinct and older than the end of the tool results, and that the key of a pending
action is at that end.
-/

namespace Agent

open ExecutiveGraph

variable {g : ExecutiveGraph}

/-! ## Name strings -/

theorem ActionKey.toList_text (runId : String) (key : ActionKey) :
    (key.text runId).toList = runId.toList ++ ':' :: (key.position.repr.toList ++ ':' ::
      match key with
      | .single _ toolName => toolName.toList
      | .batch _ index toolName =>
        ['b', 'a', 't', 'c', 'h'] ++ ':' :: (index.repr.toList ++ ':' :: toolName.toList)) := by
  cases key <;> simp [text, position, toString]

/-- Tools whose names have no colon: different keys have different name strings. -/
theorem ActionKey.text_injective {runId : String} {key key' : ActionKey}
    (hname : ':' ∉ key.toolName.toList) (hname' : ':' ∉ key'.toolName.toList)
    (h : key.text runId = key'.text runId) : key = key' := by
  have hlist := congrArg String.toList h
  rw [ActionKey.toList_text, ActionKey.toList_text] at hlist
  obtain ⟨hposition, hrest⟩ := Text.append_mark_inj (Text.not_mem_repr (by decide) _)
    (Text.not_mem_repr (by decide) _) (List.cons.inj (List.append_cancel_left hlist)).2
  have hposition := Text.repr_injective hposition
  cases key with
  | single position toolName =>
    cases key' with
    | single position' toolName' =>
      obtain rfl : position = position' := hposition
      obtain rfl : toolName = toolName' := String.toList_injective hrest
      rfl
    | batch position' index' toolName' =>
      have hcolon : ':' ∈ toolName.toList := by
        rw [show toolName.toList = _ from hrest]
        exact List.mem_append_right _ List.mem_cons_self
      exact absurd hcolon hname
  | batch position index toolName =>
    cases key' with
    | single position' toolName' =>
      have hcolon : ':' ∈ toolName'.toList := by
        rw [show toolName'.toList = _ from hrest.symm]
        exact List.mem_append_right _ List.mem_cons_self
      exact absurd hcolon hname'
    | batch position' index' toolName' =>
      obtain rfl : position = position' := hposition
      obtain ⟨hindex, htool⟩ := Text.append_mark_inj (Text.not_mem_repr (by decide) _)
        (Text.not_mem_repr (by decide) _) (List.cons.inj (List.append_cancel_left hrest)).2
      obtain rfl : index = index' := Text.repr_injective hindex
      obtain rfl : toolName = toolName' := String.toList_injective htool
      rfl

/-! ## The keys of what went to the ledger -/

/-- The calls of a log have distinct keys, made before there were `bound` tool results, and for places
up to `reach`. -/
def Ids (g : ExecutiveGraph) (runId : String) (bound reach : ℕ) (log : List GraphEvent) : Prop :=
  ∃ keys : List ActionKey, (presented log).map Call.actionId = keys.map (ActionKey.id g runId) ∧
    keys.Nodup ∧
    ∀ key ∈ keys, g.Knows key.toolName ∧ key.place ≤ reach ∧ key.position < bound

namespace Ids

variable {runId : String} {bound reach len : ℕ} {log : List GraphEvent}

theorem nil : Ids g runId bound reach [] := ⟨[], rfl, List.nodup_nil, by simp⟩

theorem mono {bound' reach' : ℕ} (h : Ids g runId bound reach log) (hbound : bound ≤ bound')
    (hreach : reach ≤ reach') : Ids g runId bound' reach' log := by
  obtain ⟨keys, hids, hnodup, hkeys⟩ := h
  refine ⟨keys, hids, hnodup, fun key hkey => ?_⟩
  obtain ⟨hknows, hplace, hposition⟩ := hkeys key hkey
  exact ⟨hknows, by omega, by omega⟩

/-- Events that take nothing to the ledger. -/
theorem quiet (h : Ids g runId bound reach log) {events : List GraphEvent}
    (hevents : presented events = []) : Ids g runId bound reach (log ++ events) := by
  unfold Ids
  rw [presented_append, hevents, List.append_nil]
  exact h

/-- New keys at the end of the tool results. -/
theorem append (h : Ids g runId len len log) {events : List GraphEvent} (keys : List ActionKey)
    (hids : (presented events).map Call.actionId = keys.map (ActionKey.id g runId))
    (hnodup : keys.Nodup)
    (hkeys : ∀ key ∈ keys, g.Knows key.toolName ∧ key.place ≤ reach ∧ key.position = len)
    (hreach : len ≤ reach) : Ids g runId (len + 1) reach (log ++ events) := by
  obtain ⟨old, holdIds, holdNodup, hold⟩ := h
  refine ⟨old ++ keys, ?_, ?_, fun key hkey => ?_⟩
  · rw [presented_append, List.map_append, List.map_append, holdIds, hids]
  · refine List.nodup_append.mpr ⟨holdNodup, hnodup, ?_⟩
    rintro key hkeyOld key' hkeyNew rfl
    have hlt := (hold key hkeyOld).2.2
    have heq := (hkeys key hkeyNew).2.2
    omega
  · rcases List.mem_append.mp hkey with hkey | hkey
    · obtain ⟨hknows, hplace, hposition⟩ := hold key hkey
      exact ⟨hknows, by omega, by omega⟩
    · obtain ⟨hknows, hplace, hposition⟩ := hkeys key hkey
      exact ⟨hknows, hplace, by omega⟩

/-- A single action goes to the ledger. -/
theorem executed {s : GraphState} {action : PendingAction}
    (h : Ids g s.runId s.toolResults.length s.toolResults.length log)
    (hknows : g.Knows action.toolName) (hid : action.actionId = g.actionId s action.toolName) :
    Ids g s.runId (s.toolResults.length + 1) s.toolResults.length
      (log ++ [.executed action.toCall]) := by
  refine h.append [.single s.toolResults.length action.toolName] ?_ (by simp) ?_ le_rfl
  · show [action.actionId] = _
    rw [hid]
    rfl
  · intro key hkey
    obtain rfl := List.mem_singleton.mp hkey
    exact ⟨hknows, le_rfl, rfl⟩

/-- A batch goes to the ledger. -/
theorem executedBatch {s : GraphState} {specs : List ToolCallSpec}
    (h : Ids g s.runId s.toolResults.length s.toolResults.length log)
    (hknows : ∀ spec ∈ specs, g.Knows spec.toolName) :
    Ids g s.runId (s.toolResults.length + 1) (s.toolResults.length + specs.length)
      (log ++ [.executedBatch (specs.zipIdx.map (g.batchCall s))]) := by
  refine h.append (specs.zipIdx.map fun indexed =>
    .batch s.toolResults.length indexed.2 indexed.1.toolName) ?_ ?_ ?_ (Nat.le_add_right _ _)
  · simp only [presented, List.flatMap_cons, List.flatMap_nil, List.append_nil, GraphEvent.calls,
      List.map_map]
    rfl
  · refine List.Nodup.map_on ?_ ?_
    · rintro ⟨spec, index⟩ hmem ⟨spec', index'⟩ hmem' heq
      obtain rfl : index = index' := by simpa using (ActionKey.batch.inj heq).2.1
      have hspec := List.mem_zipIdx' hmem
      have hspec' := List.mem_zipIdx' hmem'
      rw [hspec.2, hspec'.2]
    · exact List.Nodup.of_map Prod.snd (by
        rw [List.zipIdx_map_snd]
        exact List.nodup_range')
  · intro key hkey
    obtain ⟨⟨spec, index⟩, hmem, rfl⟩ := List.mem_map.mp hkey
    obtain ⟨hlt, hspec⟩ := List.mem_zipIdx' hmem
    refine ⟨hknows spec (by rw [hspec]; exact List.getElem_mem _), ?_, rfl⟩
    show s.toolResults.length + index ≤ _
    omega

end Ids

/-! ## The invariant -/

/-- The ids of what a node is about to take to the ledger. -/
def Keyed (g : ExecutiveGraph) (s : GraphState) : Node → Prop
  | .confirmation | .execute => ∃ action, s.pendingAction = some action ∧
      g.Knows action.toolName ∧ action.actionId = g.actionId s action.toolName
  | .parallelExecute => ∃ specs : List ToolCallSpec, (∀ spec ∈ specs, g.Knows spec.toolName) ∧
      s.pendingBatch = specs.zipIdx.map (g.batchCall s)
  | .buildInitialContext | .executive | .respond | .askUser | .policy | .parallelPolicy => True

/-- The invariant of a run. A call whose execution raised is at the end of the tool results, and the
run is over. -/
def Numbered (g : ExecutiveGraph) (r : GraphRun) : Prop :=
  match r.position with
  | .next node | .waiting node =>
    Ids g r.state.runId r.state.toolResults.length r.state.toolResults.length r.log ∧
      Keyed g r.state node
  | .ended | .raised _ =>
    Ids g r.state.runId (r.state.toolResults.length + 1) r.state.toolResults.length r.log

/-- A visit keeps the invariant. -/
theorem numbered_visit {s : GraphState} {node : Node} {resume : Option Json}
    {log events : List GraphEvent} {result : NodeResult}
    (hids : Ids g s.runId s.toolResults.length s.toolResults.length log) (hkeyed : Keyed g s node)
    (hvisit : Visit g s node resume events result) :
    Numbered g (land node s (log ++ events) result) := by
  have hlater : Ids g s.runId (s.toolResults.length + 1) s.toolResults.length log :=
    hids.mono (Nat.le_succ _) le_rfl
  -- a result that is appended makes room for the keys made so far
  have hback : ∀ (result : Dict) (events : List GraphEvent), presented events = [] →
      Ids g s.runId (s.toolResults ++ [result]).length (s.toolResults ++ [result]).length
        (log ++ events) := by
    intro result events hevents
    rw [List.length_append]
    exact (hids.mono (Nat.le_succ _) (Nat.le_succ _)).quiet hevents
  cases hvisit with
  | raises error => exact hlater.quiet rfl
  | raisesInBatch error hjudged => exact hlater.quiet (presented_of_judged hjudged)
  | begins => exact ⟨hids.quiet rfl, trivial⟩
  | failsToDecide => exact hlater.quiet rfl
  | decides _ _ messages prefetchedState contextManifest d =>
    show Numbered g ⟨_, routed _ _, _⟩
    rw [routed_eq rfl (by cases d.kind <;> decide)]
    exact ⟨hids.quiet rfl, by cases d.kind <;> trivial⟩
  | responds => exact hlater.quiet rfl
  | asks => exact ⟨hids.quiet rfl, trivial⟩
  | hears => exact ⟨hids.quiet rfl, trivial⟩
  | turnsBack result hnode hjudged =>
    rcases hnode with rfl | rfl
    · exact ⟨hback result _ (presented_of_judged hjudged), trivial⟩
    · exact ⟨hback result _ (presented_of_judged hjudged), trivial⟩
  | permits pending hknows hid => exact ⟨hids.quiet rfl, pending, rfl, hknows, hid⟩
  | questions pending hknows hid => exact ⟨hids.quiet rfl, pending, rfl, hknows, hid⟩
  | permitsBatch specs hknows =>
    exact ⟨hids.quiet (presented_of_judged (judged_allowAll _)), specs, hknows, rfl⟩
  | stops => exact ⟨hids.quiet rfl, hkeyed⟩
  | confirms => exact ⟨hids.quiet rfl, hkeyed⟩
  | declines _ _ result => exact ⟨hback result _ rfl, trivial⟩
  | failsToExecute haction =>
    obtain ⟨action, haction', hknows, hid⟩ := hkeyed
    obtain rfl : _ = action := Option.some.inj (haction.symm.trans haction')
    exact hids.executed hknows hid
  | executes haction _ _ _ _ result =>
    obtain ⟨action, haction', hknows, hid⟩ := hkeyed
    obtain rfl : _ = action := Option.some.inj (haction.symm.trans haction')
    refine ⟨?_, trivial⟩
    show Ids g s.runId (s.toolResults ++ [result]).length (s.toolResults ++ [result]).length _
    rw [List.length_append]
    exact (hids.executed hknows hid).mono le_rfl (Nat.le_succ _)
  | executesBatch _ _ _ _ results hresults =>
    obtain ⟨specs, hknows, hbatch⟩ := hkeyed
    refine ⟨?_, trivial⟩
    show Ids g s.runId (s.toolResults ++ results).length (s.toolResults ++ results).length _
    have hlength : (s.toolResults ++ results).length =
        s.toolResults.length + (specs.length + 1) := by
      rw [List.length_append, hresults, hbatch, List.length_map, List.length_zipIdx]
    rw [hlength, hbatch]
    exact (hids.executedBatch hknows).mono (by omega) (by omega)

theorem Numbered.step {r r' : GraphRun} (h : Numbered g r) (hstep : Step g r r') :
    Numbered g r' := by
  cases hstep with
  | next hvisit => exact numbered_visit h.1 h.2 hvisit
  | @resumed s node log events result value token hvisit =>
    have hkeyed : Keyed g (claimedBy token s) node := by cases node <;> exact h.2
    exact numbered_visit h.1 hkeyed hvisit

theorem numbered_run (g : ExecutiveGraph) (i : InitialInput) (turns : ℕ → Turn) (n : ℕ) :
    Numbered g (g.run i.start turns n) := by
  refine Machine.run_invariant ⟨Ids.nil, trivial⟩ (fun r t h => ?_) turns n
  by_cases hfinal : r.position.final = true
  · rw [step_of_final hfinal]
    exact h
  · exact h.step (step_of_not_final hfinal t)

theorem Numbered.ids {r : GraphRun} (h : Numbered g r) :
    Ids g r.state.runId (r.state.toolResults.length + 1) r.state.toolResults.length r.log := by
  obtain ⟨s, position, log⟩ := r
  cases position with
  | next node => exact h.1.mono (Nat.le_succ _) le_rfl
  | waiting node => exact h.1.mono (Nat.le_succ _) le_rfl
  | ended => exact h
  | raised error => exact h

/-- A tool that is known has no colon in its name, if no tool has. -/
theorem colon_not_mem_of_knows (hnames : ∀ d ∈ g.tools.definitions, ':' ∉ d.name.toList)
    {toolName : String} (hknows : g.Knows toolName) : ':' ∉ toolName.toList := by
  obtain ⟨d, hget⟩ := Option.isSome_iff_exists.mp hknows
  obtain ⟨hmem, rfl, _⟩ := ToolRegistry.mem_of_get hget
  exact hnames d hmem

/-- No action id goes to the ledger twice in a run of the graph, whatever the model decides, the tools
do and the user answers, if no tool has a colon in its name and `uuid5` does not take two name strings
of the run to the same id: so a call is never taken for an earlier one. -/
theorem action_ids_distinct (g : ExecutiveGraph) (i : InitialInput) (turns : ℕ → Turn) (n : ℕ)
    (hnames : ∀ d ∈ g.tools.definitions, ':' ∉ d.name.toList)
    (huuid5 : Set.InjOn g.uuid5 (nameStrings g (g.run i.start turns n))) :
    ((presented (g.run i.start turns n).log).map Call.actionId).Nodup := by
  obtain ⟨keys, hids, hnodup, hkeys⟩ := (numbered_run g i turns n).ids
  rw [hids]
  refine List.Nodup.map_on (fun key hkey key' hkey' heq => ?_) hnodup
  obtain ⟨hknows, hplace, _⟩ := hkeys key hkey
  obtain ⟨hknows', hplace', _⟩ := hkeys key' hkey'
  have htext := huuid5 ⟨key, hknows, hplace, rfl⟩ ⟨key', hknows', hplace', rfl⟩
    (UUID.str_injective heq)
  exact ActionKey.text_injective (colon_not_mem_of_knows hnames hknows)
    (colon_not_mem_of_knows hnames hknows') htext

/-- The model searches twice. -/
theorem action_ids_distinct_twoSearches :
    ((presented (searchGraph.run searchInput.start
      (turnsOf [searchFor "rent", searchFor "tax"] .null) 7).log).map Call.actionId).Nodup := by
  refine action_ids_distinct searchGraph searchInput _ 7 (by decide) ?_
  have hlength : (searchGraph.run searchInput.start
      (turnsOf [searchFor "rent", searchFor "tax"] .null) 7).state.toolResults.length = 2 := by
    decide +kernel
  have hrun : (searchGraph.run searchInput.start
      (turnsOf [searchFor "rent", searchFor "tax"] .null) 7).state.runId = searchInput.runId := by
    decide +kernel
  have hname : ∀ toolName, searchGraph.Knows toolName → toolName = "search_web" := by
    intro toolName hknows
    obtain ⟨d, hget⟩ := Option.isSome_iff_exists.mp hknows
    obtain ⟨hmem, rfl, _⟩ := ToolRegistry.mem_of_get hget
    obtain rfl := List.mem_singleton.mp hmem
    rfl
  have hlisted : ∀ key : ActionKey, key.toolName = "search_web" → key.place ≤ 2 →
      key.text searchInput.runId ∈ searchIds.map Prod.fst := by
    rintro (⟨position, _⟩ | ⟨position, index, _⟩) rfl hplace
    · have hposition : position ≤ 2 := hplace
      interval_cases position <;> decide +kernel
    · have hsum : position + index ≤ 2 := hplace
      have hposition : position ≤ 2 := by omega
      have hindex : index ≤ 2 := by omega
      clear hplace
      interval_cases position <;> interval_cases index <;> first | omega | decide +kernel
  have hnodup : (searchIds.map fun entry => searchGraph.uuid5 entry.1).Nodup := by decide +kernel
  rintro _ ⟨key, hknows, hplace, rfl⟩ _ ⟨key', hknows', hplace', rfl⟩ heq
  rw [hlength] at hplace hplace'
  rw [hrun] at heq ⊢
  have hmem := hlisted key (hname _ hknows) hplace
  have hmem' := hlisted key' (hname _ hknows') hplace'
  have hnodup' : ((searchIds.map Prod.fst).map searchGraph.uuid5).Nodup := by
    rwa [List.map_map]
  exact List.inj_on_of_nodup_map hnodup' hmem hmem' heq

end Agent
