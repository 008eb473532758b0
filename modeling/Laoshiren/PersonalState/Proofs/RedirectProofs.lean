import Laoshiren.PersonalState.Proofs.SystemProofs

/-!
# Proofs: the redirects of merged Things

Where no merge closes a cycle, redirects are acyclic at all times, and following them from any Thing,
while other transactions commit, comes to a Thing that is neither merged nor deleted or to a Thing that
is not found.
-/

namespace PersonalState

open Raise Runtime

variable {py : Builtins} {cal : Calendar} {fresh : ℕ → Stamp} {view : ℕ → State} {s s' : State}
  {reply : Reply}

theorem redirect_eq_some {thingId canonicalId : UUID} :
    s.redirect thingId = some canonicalId ↔
      ∃ t ∈ s.things, t.id = thingId ∧ t.mergedIntoThingId = some canonicalId := by
  rw [State.redirect, Option.bind_eq_some_iff]
  constructor
  · rintro ⟨t, hget, hmerged⟩
    obtain ⟨hmem, hid⟩ := Table.get_eq_some hget
    exact ⟨t, hmem, of_decide_eq_true hid, hmerged⟩
  · rintro ⟨t, hmem, hid, hmerged⟩
    refine ⟨t, Table.get_of_mem hmem (decide_eq_true hid) fun r hid' => ?_, hmerged⟩
    exact (of_decide_eq_true hid').trans hid.symm

/-- A Thing of an earlier state that redirects does so still. -/
theorem ThingsLater.redirect {thing : Thing} {canonicalId : UUID} (h : ThingsLater s s')
    (hmem : thing ∈ s.things) (hmerged : thing.mergedIntoThingId = some canonicalId) :
    s'.redirect thing.id = some canonicalId := by
  obtain ⟨thing', hmem', hid, hlater⟩ := h thing hmem
  exact redirect_eq_some.mpr ⟨thing', hmem', hid, hlater.redirect _ hmerged⟩

/-- A Thing that is written redirects as it did. -/
theorem Writes.redirects {thing thing' : Thing} (hwrites : Writes view s thing thing')
    (hlater : ∀ n, ThingsLater (view n) s)
    (hmerged : thing'.mergedIntoThingId = thing.mergedIntoThingId)
    (h : s'.things = (s.setThing thing thing').things) (a b : UUID)
    (hredirect : s'.redirect a = some b) : s.redirect a = some b := by
  obtain ⟨t, hmem, hid, hto⟩ := redirect_eq_some.mp hredirect
  rw [h] at hmem
  rcases (hwrites.mem_iff hlater).mp hmem with rfl | ⟨hold, -⟩
  · exact redirect_eq_some.mpr
      ⟨_, hwrites.mem hlater, hwrites.id_eq.symm.trans hid, hmerged.symm.trans hto⟩
  · exact redirect_eq_some.mpr ⟨t, hold, hid, hto⟩

/-- What a transaction makes of the redirects: none is new but that of a merge. -/
theorem ThingEffect.redirects {op : Op} (h : ThingEffect cal view op s s')
    (hlater : ∀ n, ThingsLater (view n) s) :
    (∀ a b, s'.redirect a = some b → s.redirect a = some b) ∨
      ∃ c fresh canonical duplicate, op = .mergeThings c fresh ∧
        c.Merges fresh view s s' canonical duplicate ∧
        ∀ a b, s'.redirect a = some b → s.redirect a = some b ∨ a = duplicate.id ∧ b = canonical.id := by
  cases h with
  | same h =>
    unfold State.redirect
    rw [h]
    exact .inl fun _ _ => id
  | creates h =>
    refine .inl fun a b hredirect => ?_
    obtain ⟨t, hmem, hid, hmerged⟩ := redirect_eq_some.mp hredirect
    rcases (Table.mem_insert? h).mp hmem with hold | rfl
    · exact redirect_eq_some.mpr ⟨t, hold, hid, hmerged⟩
    · cases hmerged
  | revises hwrites hmerged _ h => exact .inl (hwrites.redirects hlater hmerged h)
  | deletes h => exact .inl (h.writes.redirects hlater rfl h.recorded.things)
  | @merges c fresh _ _ canonical duplicate h =>
    refine .inr ⟨c, fresh, canonical, duplicate, rfl, h, fun a b hredirect => ?_⟩
    obtain ⟨t, ht, hid, hto⟩ := redirect_eq_some.mp hredirect
    rw [h.things] at ht
    rcases (h.writes.mem_iff hlater).mp ht with rfl | ⟨hold, -⟩
    · exact .inr ⟨hid.symm, (Option.some.inj hto).symm⟩
    · exact .inl (redirect_eq_some.mpr ⟨t, hold, hid, hto⟩)

/-- A transaction that closes no cycle leaves the redirects acyclic. -/
theorem Op.Commits.acyclic {op : Op} (h : op.Commits cal view s s' reply)
    (hlater : ∀ n, ThingsLater (view n) s) (hopen : ¬op.ClosesCycle view s)
    (hacyclic : Redirects.Acyclic s.redirect) : Redirects.Acyclic s'.redirect := by
  rcases h.thingEffect.redirects hlater with hsub | ⟨c, fresh, canonical, duplicate, rfl, hmerges,
    hnew⟩
  · exact hacyclic.mono hsub
  · refine hacyclic.redirect hnew fun hleads => ?_
    have hmem := hmerges.writes.mem hlater
    obtain ⟨-, hcanonical, -⟩ := ThingRepository.get_eq_some hmerges.canonicalFound
    obtain ⟨-, hduplicate, huser, hlive⟩ := ThingRepository.get_eq_some hmerges.duplicateFound
    rw [hcanonical, hduplicate] at hleads
    exact hopen ⟨h.isNew, c, fresh, rfl,
      ⟨canonical, hmerges.canonicalFound, hmerges.canonicalVersion⟩,
      ⟨duplicate, hmem, hduplicate, huser, hlive, hmerges.unmerged, hmerges.duplicateVersion⟩, hleads⟩

/-- Redirects are acyclic where no merge closes a cycle. -/
theorem redirects_stable (py : Builtins) (cal : Calendar) :
    Program.Stable (system py cal) (fun op view s => ¬op.ClosesCycle view s)
      (fun s => True ∧ Redirects.Acyclic s.redirect) ThingsLater :=
  ((things_stable py cal).restrict fun _ _ _ _ => trivial).strengthen
    (fun s => Redirects.Acyclic s.redirect)
    (fun s hs => by
      obtain rfl : s = {} := hs
      exact Redirects.acyclic_of_none fun _ => rfl)
    fun op view s _ hacyclic hviews hopen => by
      rcases commit_cases py cal op view s with hsame | hcommits
      · have hacyclic' : Redirects.Acyclic (commit py cal op view s).1.redirect := by rwa [hsame]
        exact hacyclic'
      · exact hcommits.acyclic (fun n => (hviews n).2.2) hopen hacyclic

/-- What `_resolve_active_thing` comes to: a live Thing that it read, or none. -/
def Resolves (view : ℕ → State) (result : Raises Thing) : Prop :=
  (∃ thing n, result = .ok thing ∧ thing ∈ (view n).things ∧ thing.mergedIntoThingId = none ∧
    thing.deletedAt = none) ∨
  result = .error (.entityNotFound "Thing was not found.")

theorem resolve_step {userId thingId next : UUID} {n : ℕ} {seen : Finset UUID} {thing : Thing}
    (hseen : thingId ∉ seen)
    (hget : ThingRepository.getIncludingDeleted userId thingId (view n).things = some thing)
    (hlive : thing.deletedAt = none) (hmerged : thing.mergedIntoThingId = some next) :
    resolveFrom userId view n seen thingId =
      resolveFrom userId view (n + 1) (insert thingId seen) next := by
  rw [resolveFrom, dif_neg hseen, hget]
  simp only [hlive, if_true, hmerged]

/-- Along acyclic redirects the loop never comes back. -/
theorem resolveFrom_resolves (hacyclic : Redirects.Acyclic s.redirect)
    (hlater : ∀ n, ThingsLater (view n) s) (userId : UUID) (n : ℕ) (seen : Finset UUID)
    (currentId : UUID) (htrail : Redirects.Trail s.redirect seen currentId) :
    Resolves view (resolveFrom userId view n seen currentId) := by
  induction n, seen, currentId using resolveFrom.induct userId view with
  | case1 n seen currentId hseen => exact absurd hseen (htrail.not_mem hacyclic)
  | case2 n seen currentId hseen hget =>
    rw [resolveFrom, dif_neg hseen, hget]
    exact .inr rfl
  | case3 n seen currentId hseen thing hget hlive hmerged =>
    rw [resolveFrom, dif_neg hseen, hget]
    simp only [hlive, if_true, hmerged]
    exact .inl ⟨thing, n, rfl, (Table.get_eq_some hget).1, hmerged, hlive⟩
  | case4 n seen currentId hseen thing hget hlive next hmerged ih =>
    rw [resolve_step hseen hget hlive hmerged]
    obtain ⟨hmem, hfound⟩ := Table.get_eq_some hget
    have hid : thing.id = currentId := (of_decide_eq_true hfound).1
    refine ih (htrail.follow ?_)
    rw [← hid]
    exact (hlater n).redirect hmem hmerged
  | case5 n seen currentId hseen thing hget hdeleted =>
    rw [resolveFrom, dif_neg hseen, hget]
    simp only [hdeleted, if_false]
    exact .inr rfl

/-- In every history in which no merge closes a cycle, the redirects of every state are acyclic and
lead from every Thing to an end; and whoever resolves a Thing, whatever commits between the reads,
comes to one that is neither merged nor deleted or finds none. -/
theorem redirects_acyclic (py : Builtins) (cal : Calendar) {h : History State Op Reply}
    (hr : (system py cal).ReachableIf (fun op view s => ¬op.ClosesCycle view s) h) :
    (∀ s ∈ h.states, Redirects.Acyclic s.redirect ∧
      ∀ thingId, ∃ last, Redirects.Leads s.redirect thingId last ∧ s.redirect last = none) ∧
    ∀ userId thingId view, (∀ n, view n ∈ h.states) →
      Resolves view (resolveActiveThing userId thingId view) := by
  have hstable := redirects_stable py cal
  refine ⟨fun s hs => ?_, fun userId thingId view hviews => ?_⟩
  · have hacyclic := (hstable.inv_mem hr hs).2
    exact ⟨hacyclic, hacyclic.exists_end⟩
  · exact resolveFrom_resolves (hstable.inv_cur hr).2 (fun n => hstable.rel_mem hr (hviews n)) userId 0
      ∅ thingId (Redirects.trail_start thingId)

/-! ## Two Things merged into each other -/

/-- User 1 creates the Things 10 and 20. -/
def createMoves : List Op :=
  [.createThing ⟨1, "Move", "action", "move", "new", none⟩ (stampsFrom 10 0),
    .createThing ⟨1, "Moving", "action", "moving", "new", none⟩ (stampsFrom 20 0)]

/-- Thing 20 is merged into Thing 10. -/
def mergeForth : MergeThings := ⟨1, 10, 20, 1, 1, "action", "forth", "same", none⟩

/-- Thing 10 is merged into Thing 20, which was merged into Thing 10. -/
def mergeBack : MergeThings := ⟨1, 20, 10, 2, 1, "action", "back", "same", none⟩

/-- A calendar that reads no date. -/
def noDates : Calendar := ⟨fun _ => none, fun _ => ""⟩

/-- One merge closes no cycle. -/
theorem redirects_acyclic_mergeForth :
    Redirects.Acyclic ((system noRepr noDates).serial {} (createMoves ++
      [.mergeThings mergeForth (stampsFrom 30 0)])).cur.redirect := by
  have hmeets : (system noRepr noDates).SerialMeets (fun op view s => ¬op.ClosesCycle view s) ⟨{}, [], []⟩
      (createMoves ++ [.mergeThings mergeForth (stampsFrom 30 0)]) := by
    refine ⟨?_, ?_, ?_, trivial⟩
    · rintro ⟨-, c, fresh, hop, -⟩
      cases hop
    · rintro ⟨-, c, fresh, hop, -⟩
      cases hop
    · rintro ⟨-, c, fresh, hop, -, -, hleads⟩
      cases hop
      exact absurd (Redirects.eq_of_leads (by decide +kernel) hleads) (by decide)
  have hr := (system noRepr noDates).serial_reachableIf rfl _ hmeets
  exact ((redirects_acyclic noRepr noDates hr).1 _ (.head _)).1

/-- Both merges, one after the other. -/
def mergedTwice : History State Op Reply :=
  (system noRepr noDates).serial {} (createMoves ++
    [.mergeThings mergeForth (stampsFrom 30 0), .mergeThings mergeBack (stampsFrom 40 0)])

/-- Two Things are merged into each other, and then neither can be resolved. -/
theorem merged_twice_cyclic :
    (system noRepr noDates).Reachable mergedTwice ∧
      ¬Redirects.Acyclic mergedTwice.cur.redirect ∧
      resolveActiveThing 1 10 (fun _ => mergedTwice.cur) =
        .error (.runtimeError "Thing merge redirect cycle detected.") := by
  have hforth : mergedTwice.cur.redirect 10 = some 20 := by decide +kernel
  have hback : mergedTwice.cur.redirect 20 = some 10 := by decide +kernel
  refine ⟨(system noRepr noDates).serial_reachable rfl _, ?_, ?_⟩
  · exact Redirects.not_acyclic (fun _ _ h => h) hforth (.single hback)
  · obtain ⟨ten, hten, hlive, hmerged⟩ : ∃ t, ThingRepository.getIncludingDeleted 1 10
        mergedTwice.cur.things = some t ∧ t.deletedAt = none ∧ t.mergedIntoThingId = some 20 :=
      ⟨_, rfl, by decide +kernel, by decide +kernel⟩
    obtain ⟨twenty, htwenty, hlive', hmerged'⟩ : ∃ t, ThingRepository.getIncludingDeleted 1 20
        mergedTwice.cur.things = some t ∧ t.deletedAt = none ∧ t.mergedIntoThingId = some 10 :=
      ⟨_, rfl, by decide +kernel, by decide +kernel⟩
    rw [resolveActiveThing, resolve_step (by decide) hten hlive hmerged,
      resolve_step (by decide) htwenty hlive' hmerged', resolveFrom, dif_pos (by decide)]

end PersonalState
