import Laoshiren.Agent.Takeover
import Laoshiren.Agent.Proofs.ActionIdProofs

/-!
# Proofs: a Run that another worker takes over

What a state holds as pending was made at some place in the life of its Run, and its ids are the ids of
the keys of that place. So the first action of a worker that takes over has a pending id if and only if
it is made at the same place.
-/

namespace Agent

open ExecutiveGraph Runtime

variable {g : ExecutiveGraph} {runId : String} {r : GraphRun} {past : List GraphRun}

/-! ## The life of a Run -/

/-- A run that waits does so at a node that asks the user. -/
def Waits (r : GraphRun) : Prop :=
  ∀ node, r.position = .waiting node → node = .askUser ∨ node = .confirmation

theorem waits_land {s : GraphState} {node : Node} {resume : Option Json}
    {log events : List GraphEvent} {result : NodeResult}
    (h : Visit g s node resume events result) : Waits (land node s log result) := by
  intro node' hposition
  cases result with
  | interrupt payload =>
    obtain rfl : node = node' := Position.waiting.inj hposition
    cases h with
    | asks => exact Or.inl rfl
    | stops => exact Or.inr rfl
  | raises error => cases hposition
  | update s' =>
    have hrouted : ∀ targets, routed targets s' ≠ .waiting node' := by
      intro targets
      unfold routed
      split <;> simp
    cases node <;> first | cases hposition | exact absurd hposition (hrouted _)

/-- What holds wherever the graph of a Run stands. -/
structure Sound (g : ExecutiveGraph) (runId : String) (r : GraphRun) : Prop where
  numbered : Numbered g r
  run : r.state.runId = runId
  waits : Waits r

theorem Sound.step (h : Sound g runId r) (t : Turn) : Sound g runId (g.step r t) := by
  by_cases hfinal : r.position.final = true
  · rw [step_of_final hfinal]
    exact h
  · have hstep := step_of_not_final (g := g) hfinal t
    refine ⟨h.numbered.step hstep, hstep.keeps.1.trans h.run, ?_⟩
    generalize g.step r t = r' at hstep ⊢
    cases hstep with
    | next hvisit => exact waits_land hvisit
    | resumed hvisit => exact waits_land hvisit

theorem Sound.takeOver (h : Sound g runId r) (i : InitialInput) (hrun : i.runId = runId)
    (input : GraphInput) : Sound g runId (r.takeOver i input) := by
  cases input with
  | initial =>
    refine ⟨⟨Ids.nil, trivial⟩, hrun, ?_⟩
    rintro node ⟨⟩
  | resume payload =>
    refine ⟨?_, h.run, h.waits⟩
    obtain ⟨s, position, log⟩ := r
    cases position with
    | next node =>
      have hkeyed : Keyed g (claimedBy i.runClaimToken s) node := by
        cases node <;> exact h.numbered.2
      exact ⟨Ids.nil, hkeyed⟩
    | waiting node =>
      have hkeyed : Keyed g (claimedBy i.runClaimToken s) node := by
        cases node <;> exact h.numbered.2
      exact ⟨Ids.nil, hkeyed⟩
    | ended => exact Ids.nil
    | raised error => exact Ids.nil

/-- The whole life of a Run is sound. -/
theorem Life.sound {life : List GraphRun} (h : Life g runId life) :
    ∀ p ∈ life, Sound g runId p := by
  induction h with
  | start i hrun =>
    intro p hp
    obtain rfl := List.mem_singleton.mp hp
    exact ⟨⟨Ids.nil, trivial⟩, hrun, by rintro node ⟨⟩⟩
  | step _ t ih =>
    intro p hp
    rcases List.mem_cons.mp hp with rfl | hp
    · exact (ih _ List.mem_cons_self).step t
    · exact ih p hp
  | takeOver _ i hrun input ih =>
    intro p hp
    rcases List.mem_cons.mp hp with rfl | hp
    · exact (ih _ List.mem_cons_self).takeOver i hrun input
    · exact ih p hp

/-- The graph of a Run goes on. -/
theorem Life.run (h : Life g runId (r :: past)) (turns : ℕ → Turn) (n : ℕ) :
    ∃ past', Life g runId (g.run r turns n :: past') := by
  induction n with
  | zero => exact ⟨past, h⟩
  | succ n ih =>
    obtain ⟨past', hlife⟩ := ih
    exact ⟨_, hlife.step (turns n)⟩

/-! ## What is pending was made somewhere -/

/-- The run stands where its pending action is about to be executed. -/
def AtAction (p : GraphRun) : Prop :=
  p.position = .next .execute ∨ p.position = .next .confirmation

theorem Visit.pendingAction {s s' : GraphState} {node : Node} {resume : Option Json}
    {events log : List GraphEvent} (h : Visit g s node resume events (.update s')) :
    s'.pendingAction = s.pendingAction ∨ AtAction (land node s log (.update s')) := by
  cases h with
  | permits => exact Or.inr (Or.inl rfl)
  | questions => exact Or.inr (Or.inr rfl)
  | begins | decides | responds | hears | turnsBack | permitsBatch | confirms | declines | executes
  | executesBatch => exact Or.inl rfl

theorem Visit.pendingBatch {s s' : GraphState} {node : Node} {resume : Option Json}
    {events log : List GraphEvent} (h : Visit g s node resume events (.update s')) :
    s'.pendingBatch = s.pendingBatch ∨
      (land node s log (.update s')).position = .next .parallelExecute := by
  cases h with
  | permitsBatch => exact Or.inr rfl
  | begins | decides | responds | hears | turnsBack | permits | questions | confirms | declines
  | executes | executesBatch => exact Or.inl rfl

/-- A step leaves what is pending alone, or stands before it. -/
theorem step_pending (r : GraphRun) (t : Turn) :
    ((g.step r t).state.pendingAction = r.state.pendingAction ∨ AtAction (g.step r t)) ∧
    ((g.step r t).state.pendingBatch = r.state.pendingBatch ∨
      (g.step r t).position = .next .parallelExecute) := by
  by_cases hfinal : r.position.final = true
  · rw [step_of_final hfinal]
    exact ⟨Or.inl rfl, Or.inl rfl⟩
  · have hstep := step_of_not_final (g := g) hfinal t
    generalize g.step r t = r' at hstep ⊢
    cases hstep with
    | @next s node log events result hvisit =>
      cases result with
      | update s' => exact ⟨hvisit.pendingAction, hvisit.pendingBatch⟩
      | interrupt _ => exact ⟨Or.inl rfl, Or.inl rfl⟩
      | raises _ => exact ⟨Or.inl rfl, Or.inl rfl⟩
    | @resumed s node log events result value token hvisit =>
      cases result with
      | update s' => exact ⟨hvisit.pendingAction, hvisit.pendingBatch⟩
      | interrupt _ => exact ⟨Or.inl rfl, Or.inl rfl⟩
      | raises _ => exact ⟨Or.inl rfl, Or.inl rfl⟩

theorem takeOver_pending (r : GraphRun) (i : InitialInput) (input : GraphInput) :
    (r.takeOver i input).state.pendingAction = r.state.pendingAction ∧
      (r.takeOver i input).state.pendingBatch = r.state.pendingBatch := by
  cases input <;> exact ⟨rfl, rfl⟩

/-- The pending action of a Run was made where the Run once stood before it. -/
theorem Life.pendingAction (h : Life g runId (r :: past)) {action : PendingAction}
    (haction : r.state.pendingAction = some action) :
    ∃ p ∈ r :: past, AtAction p ∧ p.state.pendingAction = some action := by
  generalize hlife : r :: past = life at h
  induction h generalizing r past with
  | start i hrun =>
    obtain ⟨rfl, rfl⟩ := List.cons.inj hlife
    cases haction
  | @step r₀ past₀ _ t ih =>
    obtain ⟨rfl, rfl⟩ := List.cons.inj hlife
    rcases (step_pending r₀ t).1 with hsame | hat
    · obtain ⟨p, hp, hfound⟩ := ih (hsame.symm.trans haction) rfl
      exact ⟨p, List.mem_cons_of_mem _ hp, hfound⟩
    · exact ⟨_, List.mem_cons_self, hat, haction⟩
  | @takeOver r₀ past₀ _ i hrun input ih =>
    obtain ⟨rfl, rfl⟩ := List.cons.inj hlife
    obtain ⟨p, hp, hfound⟩ := ih ((takeOver_pending r₀ i input).1.symm.trans haction) rfl
    exact ⟨p, List.mem_cons_of_mem _ hp, hfound⟩

/-- The pending batch of a Run was made where the Run once stood before it. -/
theorem Life.pendingBatch (h : Life g runId (r :: past)) (hbatch : r.state.pendingBatch ≠ []) :
    ∃ p ∈ r :: past, p.position = .next .parallelExecute ∧
      p.state.pendingBatch = r.state.pendingBatch := by
  generalize hlife : r :: past = life at h
  induction h generalizing r past with
  | start i hrun =>
    obtain ⟨rfl, rfl⟩ := List.cons.inj hlife
    exact absurd rfl hbatch
  | @step r₀ past₀ _ t ih =>
    obtain ⟨rfl, rfl⟩ := List.cons.inj hlife
    rcases (step_pending r₀ t).2 with hsame | hat
    · rw [hsame] at hbatch ⊢
      obtain ⟨p, hp, hfound⟩ := ih hbatch rfl
      exact ⟨p, List.mem_cons_of_mem _ hp, hfound⟩
    · exact ⟨_, List.mem_cons_self, hat, rfl⟩
  | @takeOver r₀ past₀ _ i hrun input ih =>
    obtain ⟨rfl, rfl⟩ := List.cons.inj hlife
    rw [(takeOver_pending r₀ i input).2] at hbatch ⊢
    obtain ⟨p, hp, hfound⟩ := ih hbatch rfl
    exact ⟨p, List.mem_cons_of_mem _ hp, hfound⟩

/-! ## The keys of what is pending -/

theorem Sound.key_of_atAction {p : GraphRun} (h : Sound g runId p) (hat : AtAction p)
    {action : PendingAction} (haction : p.state.pendingAction = some action) :
    g.Knows action.toolName ∧
      action.actionId = (ActionKey.single p.state.toolResults.length action.toolName).id g runId := by
  obtain ⟨s, position, log⟩ := p
  have hkeyed : ∃ action', s.pendingAction = some action' ∧ g.Knows action'.toolName ∧
      action'.actionId = g.actionId s action'.toolName := by
    rcases hat with hat | hat
    · obtain rfl : position = .next .execute := hat
      exact h.numbered.2
    · obtain rfl : position = .next .confirmation := hat
      exact h.numbered.2
  obtain ⟨action', haction', hknows, hid⟩ := hkeyed
  obtain rfl : action' = action := Option.some.inj (haction'.symm.trans haction)
  refine ⟨hknows, hid.trans ?_⟩
  rw [← h.run]
  rfl

theorem Sound.specs_of_parallelExecute {p : GraphRun} (h : Sound g runId p)
    (hat : p.position = .next .parallelExecute) :
    ∃ specs : List ToolCallSpec, (∀ spec ∈ specs, g.Knows spec.toolName) ∧
      p.state.pendingBatch = specs.zipIdx.map (g.batchCall p.state) := by
  obtain ⟨s, position, log⟩ := p
  obtain rfl : position = .next .parallelExecute := hat
  exact h.numbered.2

/-- The key of a call of a pending batch. -/
theorem Sound.key_of_mem_batch {p : GraphRun} (h : Sound g runId p)
    (hat : p.position = .next .parallelExecute) {index : ℕ} {call : Call}
    (hcall : p.state.pendingBatch[index]? = some call) :
    g.Knows call.toolName ∧ call.actionId =
      (ActionKey.batch p.state.toolResults.length index call.toolName).id g runId := by
  obtain ⟨specs, hknows, hbatch⟩ := h.specs_of_parallelExecute hat
  rw [hbatch, List.getElem?_map, List.getElem?_zipIdx, Option.map_map, Option.map_eq_some_iff]
    at hcall
  obtain ⟨spec, hspec, rfl⟩ := hcall
  refine ⟨hknows spec (List.mem_of_getElem? hspec), ?_⟩
  rw [← h.run]
  show g.batchActionId p.state (0 + index) spec.toolName = g.batchActionId p.state index spec.toolName
  rw [Nat.zero_add]

/-! ## The first claim -/

/-- The step that takes the first action to the ledger executes the pending action or the pending
batch. -/
theorem Sound.first_claim {q : GraphRun} (h : Sound g runId q) {t : Turn} {call : Call}
    {rest : List Call} (hbefore : presented q.log = [])
    (hfirst : presented (g.step q t).log = call :: rest) :
    (q.position = .next .execute ∧
      ∃ action, q.state.pendingAction = some action ∧ call = action.toCall) ∨
    (q.position = .next .parallelExecute ∧ q.state.pendingBatch = call :: rest) := by
  have hfinal : ¬ q.position.final = true := by
    intro hfinal
    rw [step_of_final hfinal, hbefore] at hfirst
    cases hfirst
  have hstep := step_of_not_final (g := g) hfinal t
  generalize g.step q t = q' at hstep hfirst
  cases hstep with
  | @next s node log events result hvisit =>
    rw [land_log, presented_append, show presented log = [] from hbefore, List.nil_append] at hfirst
    cases hvisit with
    | failsToExecute haction =>
      obtain ⟨rfl, -⟩ := List.cons.inj hfirst
      exact Or.inl ⟨rfl, _, haction, rfl⟩
    | executes haction =>
      obtain ⟨rfl, -⟩ := List.cons.inj hfirst
      exact Or.inl ⟨rfl, _, haction, rfl⟩
    | executesBatch =>
      refine Or.inr ⟨rfl, ?_⟩
      simpa [presented, GraphEvent.calls] using hfirst
    | raisesInBatch _ hjudged =>
      rw [presented_of_judged hjudged] at hfirst
      cases hfirst
    | turnsBack _ _ hjudged =>
      rw [presented_of_judged hjudged] at hfirst
      cases hfirst
    | permitsBatch =>
      rw [presented_of_judged (judged_allowAll _)] at hfirst
      cases hfirst
    | raises | begins | failsToDecide | decides | responds | asks | permits | questions | stops =>
      cases hfirst
  | @resumed s node log events result value token hvisit =>
    rw [land_log, presented_append, show presented log = [] from hbefore, List.nil_append] at hfirst
    rcases h.waits node rfl with rfl | rfl
    · cases hvisit with
      | raises | hears => cases hfirst
      | turnsBack _ hnode => rcases hnode with hnode | hnode <;> cases hnode
    · cases hvisit with
      | raises | confirms | declines => cases hfirst
      | turnsBack _ hnode => rcases hnode with hnode | hnode <;> cases hnode

/-- Two name strings of a Run with the same id have the same key. -/
theorem key_of_id {names : Set String} (hnames : ∀ d ∈ g.tools.definitions, ':' ∉ d.name.toList)
    (huuid5 : Set.InjOn g.uuid5 names) {key key' : ActionKey} (hmem : key.text runId ∈ names)
    (hmem' : key'.text runId ∈ names) (hknows : g.Knows key.toolName)
    (hknows' : g.Knows key'.toolName) (h : key.id g runId = key'.id g runId) : key = key' :=
  ActionKey.text_injective (colon_not_mem_of_knows hnames hknows)
    (colon_not_mem_of_knows hnames hknows') (huuid5 hmem hmem' (UUID.str_injective h))

theorem mem_nameStrings {q : GraphRun} (h : Sound g runId q) (key : ActionKey)
    (hknows : g.Knows key.toolName) (hplace : key.place ≤ q.state.toolResults.length) :
    key.text runId ∈ nameStrings g q := by
  rw [← h.run]
  exact ⟨key, hknows, hplace, rfl⟩

theorem mem_heldNames {p : GraphRun} (h : Sound g runId p) (key : ActionKey)
    (hknows : g.Knows key.toolName)
    (hplace : key.place ≤ p.state.toolResults.length + p.state.pendingBatch.length) :
    key.text runId ∈ heldNames g p := by
  rw [← h.run]
  exact ⟨key, hknows, hplace, rfl⟩

/-- A pending action with the id of the first claim was made at the same place. -/
theorem sameAction_of_mem {q : GraphRun} {call : Call} {rest : List Call}
    (hlife : Life g runId (r :: past)) (hq : Sound g runId q)
    (hnames : ∀ d ∈ g.tools.definitions, ':' ∉ d.name.toList)
    (huuid5 : Set.InjOn g.uuid5
      {name | name ∈ nameStrings g q ∨ ∃ p ∈ r :: past, name ∈ heldNames g p})
    (hclaim : (q.position = .next .execute ∧
        ∃ action, q.state.pendingAction = some action ∧ call = action.toCall) ∨
      (q.position = .next .parallelExecute ∧ q.state.pendingBatch = call :: rest))
    (hmem : call.actionId ∈ r.state.pendingIds) : ∃ p ∈ r :: past, SameAction p q r.state := by
  rcases List.mem_append.mp hmem with hmem | hmem
  · obtain ⟨held, hheld, hid⟩ := List.mem_map.mp hmem
    have hheld : r.state.pendingAction = some held := by simpa using hheld
    obtain ⟨p, hp, hat, hpending⟩ := hlife.pendingAction hheld
    obtain ⟨hknows, hkey⟩ := (hlife.sound p hp).key_of_atAction hat hpending
    have hname := mem_heldNames (hlife.sound p hp)
      (.single p.state.toolResults.length held.toolName) hknows (Nat.le_add_right _ _)
    rcases hclaim with ⟨hposition, action, haction, rfl⟩ | ⟨hposition, hbatch⟩
    · obtain ⟨hknows', hkey'⟩ := hq.key_of_atAction (Or.inl hposition) haction
      have hkeys := key_of_id hnames huuid5 (Or.inr ⟨p, hp, hname⟩)
        (Or.inl (mem_nameStrings hq (.single q.state.toolResults.length action.toolName) hknows' le_rfl))
        hknows hknows' (hkey.symm.trans (hid.trans hkey'))
      obtain ⟨hlength, htool⟩ := ActionKey.single.inj hkeys
      refine ⟨p, hp, hlength, Or.inl ⟨hat, hposition, hpending.trans hheld.symm, ?_⟩⟩
      rw [hpending, haction, Option.map_some, Option.map_some, htool]
    · have hzero : q.state.pendingBatch[0]? = some call := by rw [hbatch]; rfl
      obtain ⟨hknows', hkey'⟩ := hq.key_of_mem_batch hposition hzero
      have hkeys := key_of_id hnames huuid5 (Or.inr ⟨p, hp, hname⟩)
        (Or.inl (mem_nameStrings hq (.batch q.state.toolResults.length 0 call.toolName) hknows' le_rfl))
        hknows hknows' (hkey.symm.trans (hid.trans hkey'))
      cases hkeys
  · obtain ⟨held, hheld, hid⟩ := List.mem_map.mp hmem
    obtain ⟨p, hp, hat, hpending⟩ := hlife.pendingBatch (List.ne_nil_of_mem hheld)
    obtain ⟨index, hindex⟩ := List.mem_iff_getElem?.mp hheld
    rw [← hpending] at hindex
    obtain ⟨hknows, hkey⟩ := (hlife.sound p hp).key_of_mem_batch hat hindex
    have hlt : index < p.state.pendingBatch.length := (List.getElem?_eq_some_iff.mp hindex).1
    have hname := mem_heldNames (hlife.sound p hp)
      (.batch p.state.toolResults.length index held.toolName) hknows
      (show p.state.toolResults.length + index ≤ _ by omega)
    rcases hclaim with ⟨hposition, action, haction, rfl⟩ | ⟨hposition, hbatch⟩
    · obtain ⟨hknows', hkey'⟩ := hq.key_of_atAction (Or.inl hposition) haction
      have hkeys := key_of_id hnames huuid5 (Or.inr ⟨p, hp, hname⟩)
        (Or.inl (mem_nameStrings hq (.single q.state.toolResults.length action.toolName) hknows' le_rfl))
        hknows hknows' (hkey.symm.trans (hid.trans hkey'))
      cases hkeys
    · have hzero : q.state.pendingBatch[0]? = some call := by rw [hbatch]; rfl
      obtain ⟨hknows', hkey'⟩ := hq.key_of_mem_batch hposition hzero
      have hkeys := key_of_id hnames huuid5 (Or.inr ⟨p, hp, hname⟩)
        (Or.inl (mem_nameStrings hq (.batch q.state.toolResults.length 0 call.toolName) hknows' le_rfl))
        hknows hknows' (hkey.symm.trans (hid.trans hkey'))
      obtain ⟨hlength, rfl, htool⟩ := ActionKey.batch.inj hkeys
      refine ⟨p, hp, hlength, Or.inr ⟨hat, hposition, hpending, ?_⟩⟩
      rw [List.head?_eq_getElem?, List.head?_eq_getElem?, hindex, hzero, Option.map_some,
        Option.map_some, htool]

/-- The first claim is made at the place of a pending action: it has its id. -/
theorem mem_of_sameAction {q : GraphRun} {call : Call} {rest : List Call}
    (hlife : Life g runId (r :: past)) (hq : Sound g runId q)
    (hclaim : (q.position = .next .execute ∧
        ∃ action, q.state.pendingAction = some action ∧ call = action.toCall) ∨
      (q.position = .next .parallelExecute ∧ q.state.pendingBatch = call :: rest))
    (h : ∃ p ∈ r :: past, SameAction p q r.state) : call.actionId ∈ r.state.pendingIds := by
  obtain ⟨p, hp, hlength, hsame⟩ := h
  rcases hsame with ⟨hat, hposition, hpending, htools⟩ | ⟨hat, hposition, hpending, htools⟩
  · rcases hclaim with ⟨-, action, haction, rfl⟩ | ⟨hposition', -⟩
    · rw [haction, Option.map_some, Option.map_eq_some_iff] at htools
      obtain ⟨held, hheld, htool⟩ := htools
      obtain ⟨-, hkey⟩ := (hlife.sound p hp).key_of_atAction hat hheld
      obtain ⟨-, hkey'⟩ := hq.key_of_atAction (Or.inl hposition) haction
      have hid : held.actionId = action.actionId := by rw [hkey, hkey', hlength, htool]
      refine List.mem_append_left _ (List.mem_map.mpr ⟨held, ?_, hid⟩)
      rw [← hpending, hheld]
      exact List.mem_singleton_self held
    · rw [hposition] at hposition'
      cases hposition'
  · rcases hclaim with ⟨hposition', -⟩ | ⟨-, hbatch⟩
    · rw [hposition] at hposition'
      cases hposition'
    · rw [hbatch, List.head?_cons, Option.map_some, Option.map_eq_some_iff] at htools
      obtain ⟨held, hheld, htool⟩ := htools
      rw [List.head?_eq_getElem?] at hheld
      have hzero : q.state.pendingBatch[0]? = some call := by rw [hbatch]; rfl
      obtain ⟨-, hkey⟩ := (hlife.sound p hp).key_of_mem_batch hat hheld
      obtain ⟨-, hkey'⟩ := hq.key_of_mem_batch hposition hzero
      have hid : held.actionId = call.actionId := by rw [hkey, hkey', hlength, htool]
      refine List.mem_append_right _ (List.mem_map.mpr ⟨held, ?_, hid⟩)
      rw [← hpending]
      exact List.mem_of_getElem? hheld

end Agent
