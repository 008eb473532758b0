import Laoshiren.PersonalState.Proofs.RedirectProofs
import Laoshiren.PersonalState.Snapshot

/-!
# Proofs: where the prefetch of a Thing is the snapshot in short

The prefetch describes the Thing that it was asked for and looks one redirect ahead for what belongs to
it; the snapshot follows every redirect first. They agree on the Things that are not merged, as far as
none of the latest Blockers is resolved.
-/

namespace PersonalState

open Raise Runtime

variable {cal : Calendar} {userId thingId : UUID} {matchReason : String} {s : State} {thing : Thing}

/-! ## Finding the Thing -/

/-- A live row of the user. -/
theorem getThing_eq_ok : getThing userId thingId s = .ok thing ↔
    ThingRepository.getIncludingDeleted userId thingId s.things = some thing ∧
      thing.deletedAt = none := by
  unfold getThing
  cases hget : ThingRepository.getIncludingDeleted userId thingId s.things with
  | none => exact ⟨nofun, nofun⟩
  | some row =>
    dsimp only
    by_cases hlive : row.deletedAt = none
    · rw [if_pos hlive]
      refine ⟨fun h => ?_, fun h => ?_⟩
      · obtain rfl := Except.ok.inj h
        exact ⟨rfl, hlive⟩
      · rw [Option.some.inj h.1]
    · rw [if_neg hlive]
      refine ⟨nofun, fun h => ?_⟩
      rw [Option.some.inj h.1] at hlive
      exact absurd h.2 hlive

theorem getThing_eq_error {error : RuntimeError} (h : getThing userId thingId s = .error error) :
    error = .entityNotFound "Thing was not found." := by
  unfold getThing at h
  split at h
  · exact (Except.error.inj h).symm
  · split at h
    · cases h
    · exact (Except.error.inj h).symm

/-- The two ways to look for a live Thing find the same one. -/
theorem get_eq_some_iff : ThingRepository.get userId thingId s.things = some thing ↔
    getThing userId thingId s = .ok thing := by
  rw [getThing_eq_ok]
  constructor
  · intro h
    obtain ⟨hmem, hid, huser, hlive⟩ := ThingRepository.get_eq_some h
    refine ⟨Table.get_of_mem hmem (by simp [hid, huser]) fun r hr => ?_, hlive⟩
    exact (of_decide_eq_true hr).1.trans hid.symm
  · rintro ⟨hget, hlive⟩
    obtain ⟨hmem, hp⟩ := Table.get_eq_some hget
    obtain ⟨hid, huser⟩ := of_decide_eq_true hp
    refine Table.get_of_mem hmem (by simp [hid, huser, hlive]) fun r hr => ?_
    exact (of_decide_eq_true hr).1.trans hid.symm

theorem requireThing_eq_ok : requireThing userId thingId s = .ok thing ↔
    getThing userId thingId s = .ok thing := by
  unfold requireThing
  rw [orRaise_eq_ok, get_eq_some_iff]

/-- A Thing that is not there is found neither way. -/
theorem resolveActiveThing_of_error (h : ∀ thing, getThing userId thingId s ≠ .ok thing) :
    resolveActiveThing userId thingId (fun _ => s) = .error (.entityNotFound "Thing was not found.") := by
  unfold resolveActiveThing
  rw [resolveFrom, dif_neg (Finset.notMem_empty _)]
  split
  · rfl
  · rename_i row hget
    rw [if_neg fun hlive => h row (getThing_eq_ok.mpr ⟨hget, hlive⟩)]

/-- What the redirects lead to is a row that is not merged. -/
theorem resolveFrom_ok {view : ℕ → State} {n : ℕ} {seen : Finset UUID}
    (h : resolveFrom userId view n seen thingId = .ok thing) :
    thing.mergedIntoThingId = none ∧ ∃ k, thing ∈ (view k).things := by
  fun_induction resolveFrom userId view n seen thingId with
  | case1 | case2 | case5 => cases h
  | case3 n seen thingId _ row hget hlive hmerged =>
    obtain rfl := Except.ok.inj h
    exact ⟨hmerged, n, (Table.get_eq_some hget).1⟩
  | case4 n seen thingId _ row hget hlive next hmerged ih => exact ih h

/-! ## The fields of the descriptions -/

theorem thingField_prefetch {tasks : List TaskDTO} {blockers : List BlockerDTO}
    {dates : List ThingDate} (key : String) :
    thingField (thingPrefetchPayload cal thing tasks blockers dates matchReason) key =
      (thingPayload cal thing).asDict?.bind fun fields => Dict.get fields key := by
  unfold thingField thingPrefetchPayload
  dsimp only
  rw [Dict.get_ofFields]
  simp [List.lookup_cons]

theorem thingField_snapshot (sn : ThingContextSnapshot) (key : String) :
    thingField (sn.payload cal) key =
      (thingPayload cal sn.thing).asDict?.bind fun fields => Dict.get fields key := by
  unfold thingField ThingContextSnapshot.payload
  dsimp only
  rw [Dict.get_ofFields]
  split
  · simp [List.lookup_cons]
  · simp [List.lookup_cons]

/-- The id of a Thing in its description. -/
theorem thingPayload_id : ((thingPayload cal thing).asDict?.bind fun fields => Dict.get fields "id") =
    some (.str thing.id.str) := by
  unfold thingPayload
  simp only [Json.asDict?, Option.bind_some]
  rw [Dict.get_ofFields]
  simp [List.lookup_cons]

/-- Two descriptions with one id are of one Thing. -/
theorem id_of_field {tasks : List TaskDTO} {blockers : List BlockerDTO} {dates : List ThingDate}
    {sn : ThingContextSnapshot}
    (h : thingField (thingPrefetchPayload cal thing tasks blockers dates matchReason) "id" =
      thingField (sn.payload cal) "id") : thing.id = sn.thing.id := by
  rw [thingField_prefetch, thingField_snapshot, thingPayload_id, thingPayload_id] at h
  exact UUID.str_injective (Json.str.inj (Option.some.inj h))

/-- A description of a Blocker names it. -/
theorem blockerPayload_id {blocker blocker' : Blocker}
    (h : blockerPayload blocker.dto = blockerPayload blocker'.dto) : blocker.id = blocker'.id := by
  have hfields := Json.obj.inj h
  have hid := congrArg (fun fields : Dict => Dict.get fields "id") hfields
  simp only [Dict.get_ofFields] at hid
  exact UUID.str_injective (by simpa [List.lookup_cons, Blocker.dto] using hid)

/-- The first rows are all among the chosen ones exactly where they are the first chosen ones. -/
theorem take_filter_iff {α : Type} {p : α → Bool} (rows : List α) (n : ℕ) :
    (rows.filter p).take n = rows.take n ↔ ∀ r ∈ rows.take n, p r = true := by
  constructor
  · intro h r hr
    rw [← h] at hr
    exact List.of_mem_filter (List.mem_of_mem_take hr)
  · intro h
    induction rows generalizing n with
    | nil => rfl
    | cons r rows ih =>
      cases n with
      | zero => rfl
      | succ n =>
        rw [List.filter_cons_of_pos (h r List.mem_cons_self), List.take_succ_cons, List.take_succ_cons,
          ih n fun r' hr' => h r' (List.mem_cons_of_mem _ hr')]

/-- Lists with the same image under a function that tells their elements apart. -/
theorem eq_of_map_eq {α β : Type} {f : α → β} {as bs : List α}
    (hf : ∀ a ∈ as, ∀ b ∈ bs, f a = f b → a = b) (h : as.map f = bs.map f) : as = bs := by
  induction as generalizing bs with
  | nil => exact (List.map_eq_nil_iff.mp h.symm).symm
  | cons a as ih =>
    cases bs with
    | nil => cases h
    | cons b bs =>
      obtain ⟨hhead, htail⟩ := List.cons.inj h
      rw [hf a List.mem_cons_self b List.mem_cons_self hhead,
        ih (fun a ha b hb => hf a (List.mem_cons_of_mem _ ha) b (List.mem_cons_of_mem _ hb)) htail]

/-- The prefetched Blockers are the latest open ones exactly where the latest ones are open. -/
theorem blockers_iff (rows : List Blocker) (hrows : ∀ b ∈ rows, b ∈ s.blockers) :
    ((rows.map Blocker.dto).take 6).map blockerPayload =
        ((rows.filter fun b => b.status = .open).take 6).map (fun b => blockerPayload b.dto) ↔
      ∀ b ∈ rows.take 6, b.status = .open := by
  have htake : ((rows.map Blocker.dto).take 6).map blockerPayload =
      (rows.take 6).map fun b => blockerPayload b.dto := by
    rw [← List.map_take, List.map_map]
    rfl
  have hopen := take_filter_iff (p := fun b : Blocker => decide (b.status = .open)) rows 6
  simp only [decide_eq_true_eq] at hopen
  rw [htake, ← hopen]
  constructor
  · intro h
    refine (eq_of_map_eq (fun b hb b' hb' hsame => ?_) h).symm
    have hmem := hrows b (List.mem_of_mem_take hb)
    have hmem' := hrows b' (List.mem_of_mem_filter (List.mem_of_mem_take hb'))
    exact Table.eq_of_conflict hmem hmem' (blockerPayload_id hsame)
  · intro h
    rw [h]

/-! ## Agreement -/

variable (cal matchReason) in
/-- The prefetch of a Thing whose components are looked up at `canonicalId`. -/
theorem buildThingPrefetch_ok {canonical : Thing}
    (hthing : getThing userId thingId s = .ok thing)
    (hcanonical : getThing userId (thing.mergedIntoThingId.getD thing.id) s = .ok canonical) :
    buildThingPrefetch cal userId thingId matchReason s =
      .ok (thingPrefetchPayload cal thing
        ((TaskRepository.listForThing userId (thing.mergedIntoThingId.getD thing.id) s.tasks).map
          Task.dto)
        ((BlockerRepository.listForThing userId (thing.mergedIntoThingId.getD thing.id) s.things
          s.blockers).map Blocker.dto)
        (ThingDateRepository.listForThing userId (thing.mergedIntoThingId.getD thing.id) 100 s.things
          s.dates) matchReason) := by
  have hrequired := requireThing_eq_ok.mpr hcanonical
  have hblockers : getBlockers userId (thing.mergedIntoThingId.getD thing.id) s = .ok _ :=
    bind_of_ok hrequired _
  have hdates : getDates userId (thing.mergedIntoThingId.getD thing.id) s = .ok _ :=
    bind_of_ok hrequired _
  unfold buildThingPrefetch
  rw [bind_of_ok hthing]
  dsimp only
  rw [bind_of_ok hblockers, bind_of_ok hdates]
  rfl

/-- A Thing that is not merged: the prefetch describes the snapshot where the latest Blockers are
open. -/
theorem agrees_of_unmerged (hthing : getThing userId thingId s = .ok thing)
    (hunmerged : thing.mergedIntoThingId = none) :
    PrefetchAgrees cal userId thingId matchReason s ↔ PlainThing userId thing s := by
  obtain ⟨hget, hlive⟩ := getThing_eq_ok.mp hthing
  obtain ⟨_, hp⟩ := Table.get_eq_some hget
  obtain ⟨rfl, _⟩ := of_decide_eq_true hp
  have hresolved : resolveActiveThing userId thing.id (fun _ => s) = .ok thing := by
    unfold resolveActiveThing
    rw [resolveFrom, dif_neg (Finset.notMem_empty _), hget]
    simp only [hlive, if_true, hunmerged]
  have hprefetch := buildThingPrefetch_ok cal matchReason hthing
    (by rw [hunmerged]; exact hthing)
  rw [hunmerged, Option.getD_none] at hprefetch
  have hsnapshot : getThingContextSnapshot userId thing.id s = .ok _ := bind_of_ok hresolved _
  unfold PrefetchAgrees
  rw [hprefetch, hsnapshot]
  dsimp only
  have hrows : ∀ b ∈ BlockerRepository.listForThing userId thing.id s.things s.blockers,
      b ∈ s.blockers := fun b hb =>
    (Table.mem_select.mp ((List.mem_insertionSort _).mp hb)).1
  have hblockers := blockers_iff _ hrows
  constructor
  · intro h
    refine ⟨hunmerged, hblockers.mp ?_⟩
    have hfield := h.blockers
    unfold thingPrefetchPayload at hfield
    dsimp only at hfield
    rw [Dict.get_ofFields] at hfield
    simpa [List.lookup_cons] using hfield
  · rintro ⟨_, hopen⟩
    have hsame := hblockers.mpr hopen
    have htasks : ∀ tasks : List Task, (((tasks.map Task.dto).filter fun task =>
        task.status ≠ .done ∧ task.status ≠ .cancelled).take 12).map taskPayload =
          ((tasks.filter Task.isOpen).take 12).map fun task => taskPayload task.dto := by
      intro tasks
      rw [List.filter_map, ← List.map_take, List.map_map]
      rfl
    refine ⟨fun key _ => ?_, ?_, ?_, ?_⟩
    · rw [thingField_prefetch, thingField_snapshot]
    · unfold thingPrefetchPayload
      dsimp only
      rw [Dict.get_ofFields, htasks]
      simp [List.lookup_cons]
    · unfold thingPrefetchPayload
      dsimp only
      rw [Dict.get_ofFields, ← hsame]
      simp [List.lookup_cons]
    · unfold thingPrefetchPayload
      dsimp only
      rw [Dict.get_ofFields]
      simp

/-- A Thing that is merged into one that is not there: it is found neither way. -/
theorem agrees_of_lost (hthing : getThing userId thingId s = .ok thing)
    (hlost : LostThing userId thing s) : PrefetchAgrees cal userId thingId matchReason s := by
  obtain ⟨canonicalId, hmerged, hnone⟩ := hlost
  obtain ⟨hget, hlive⟩ := getThing_eq_ok.mp hthing
  have hmissing : ∀ canonical, getThing userId canonicalId s ≠ .ok canonical := by
    intro canonical hcanonical
    rw [get_eq_some_iff.mpr hcanonical] at hnone
    cases hnone
  have hprefetch : buildThingPrefetch cal userId thingId matchReason s =
      .error (.entityNotFound "Thing was not found.") := by
    have hrequired : requireThing userId canonicalId s =
        .error (.entityNotFound "Thing was not found.") := by
      unfold requireThing
      rw [hnone]
      rfl
    unfold buildThingPrefetch getBlockers
    rw [bind_of_ok hthing]
    dsimp only
    rw [show thing.mergedIntoThingId = some canonicalId from hmerged, Option.getD_some, hrequired]
    rfl
  have hsnapshot : getThingContextSnapshot userId thingId s =
      .error (.entityNotFound "Thing was not found.") := by
    have hne : canonicalId ∉ insert thingId (∅ : Finset UUID) := by
      rw [Finset.mem_insert, not_or]
      refine ⟨fun heq => hmissing thing (heq ▸ hthing), Finset.notMem_empty _⟩
    have hresolved : resolveActiveThing userId thingId (fun _ => s) =
        .error (.entityNotFound "Thing was not found.") := by
      unfold resolveActiveThing
      rw [resolve_step (Finset.notMem_empty _) hget hlive hmerged, resolveFrom, dif_neg hne]
      split
      · rfl
      · rename_i row hrow
        rw [if_neg fun hlive => hmissing row (getThing_eq_ok.mpr ⟨hrow, hlive⟩)]
    unfold getThingContextSnapshot
    rw [hresolved]
    rfl
  unfold PrefetchAgrees
  rw [hprefetch, hsnapshot]

/-- A Thing that is merged into one that is there: the prefetch describes the merged one. -/
theorem not_agrees_of_merged {canonicalId : UUID} {canonical : Thing}
    (hthing : getThing userId thingId s = .ok thing)
    (hmerged : thing.mergedIntoThingId = some canonicalId)
    (hcanonical : getThing userId canonicalId s = .ok canonical) :
    ¬PrefetchAgrees cal userId thingId matchReason s := by
  have hprefetch := buildThingPrefetch_ok cal matchReason hthing
    (by rw [hmerged]; exact hcanonical)
  unfold PrefetchAgrees
  rw [hprefetch]
  cases hresolved : resolveActiveThing userId thingId (fun _ => s) with
  | error error =>
    have hsnapshot : getThingContextSnapshot userId thingId s = .error error := by
      unfold getThingContextSnapshot
      rw [hresolved]
      rfl
    rw [hsnapshot]
    exact not_false
  | ok resolved =>
    have hsnapshot : getThingContextSnapshot userId thingId s = .ok _ := bind_of_ok hresolved _
    rw [hsnapshot]
    intro h
    have hid := id_of_field (h.thing "id" (by simp))
    obtain ⟨hunmerged, _, hmem⟩ := resolveFrom_ok hresolved
    have hrow := (Table.get_eq_some (getThing_eq_ok.mp hthing).1).1
    rw [Table.eq_of_conflict hrow hmem hid, hunmerged] at hmerged
    cases hmerged

/-- In every state: the prefetch of a Thing agrees with its snapshot exactly where the Thing is not
there, is not merged and has its six latest Blockers open, or is merged into one that is not there. -/
theorem prefetchAgrees_iff (cal : Calendar) (userId thingId : UUID) (matchReason : String)
    (s : State) :
    PrefetchAgrees cal userId thingId matchReason s ↔
      ∀ thing, getThing userId thingId s = .ok thing →
        PlainThing userId thing s ∨ LostThing userId thing s := by
  cases hthing : getThing userId thingId s with
  | error error =>
    obtain rfl := getThing_eq_error hthing
    refine iff_of_true ?_ nofun
    have hprefetch : buildThingPrefetch cal userId thingId matchReason s =
        .error (.entityNotFound "Thing was not found.") := by
      unfold buildThingPrefetch
      rw [hthing]
      rfl
    have hsnapshot : getThingContextSnapshot userId thingId s =
        .error (.entityNotFound "Thing was not found.") := by
      unfold getThingContextSnapshot
      rw [resolveActiveThing_of_error fun thing => by rw [hthing]; exact nofun]
      rfl
    unfold PrefetchAgrees
    rw [hprefetch, hsnapshot]
  | ok thing =>
    have hone : (∀ thing', Except.ok (ε := RuntimeError) thing = .ok thing' →
        PlainThing userId thing' s ∨ LostThing userId thing' s) ↔
          PlainThing userId thing s ∨ LostThing userId thing s :=
      ⟨fun h => h thing rfl, fun h thing' heq => Except.ok.inj heq ▸ h⟩
    rw [hone]
    cases hmerged : thing.mergedIntoThingId with
    | none =>
      rw [agrees_of_unmerged hthing hmerged]
      refine (or_iff_left ?_).symm
      rintro ⟨_, hsome, _⟩
      rw [hmerged] at hsome
      cases hsome
    | some canonicalId =>
      have hplain : ¬PlainThing userId thing s := by
        rintro ⟨hnone, _⟩
        rw [hmerged] at hnone
        cases hnone
      cases hcanonical : ThingRepository.get userId canonicalId s.things with
      | none =>
        have hlost : LostThing userId thing s := ⟨canonicalId, hmerged, hcanonical⟩
        exact iff_of_true (agrees_of_lost hthing hlost) (Or.inr hlost)
      | some canonical =>
        refine iff_of_false
          (not_agrees_of_merged hthing hmerged (get_eq_some_iff.mp hcanonical)) ?_
        rintro (h | ⟨_, hsome, hnone⟩)
        · exact hplain h
        · obtain rfl := Option.some.inj (hmerged.symm.trans hsome)
          rw [hcanonical] at hnone
          cases hnone

/-- The state after Thing 20 was merged into Thing 10. -/
def mergedMoves : State :=
  ((system noRepr noDates).serial {}
    (createMoves ++ [.mergeThings mergeForth (stampsFrom 30 0)])).cur

/-- The prefetch of Thing 20 has its own id and version, where the snapshot has those of Thing 10. -/
theorem prefetch_describes_merged :
    (system noRepr noDates).Reachable ((system noRepr noDates).serial {}
        (createMoves ++ [.mergeThings mergeForth (stampsFrom 30 0)])) ∧
      (buildThingPrefetch noDates 1 20 "active_thread" mergedMoves).toOption.map
          (fun payload => (thingField payload "id", thingField payload "version")) =
        some (some (.str (UUID.str 20)), some (.num 2)) ∧
      (∃ sn, getThingContextSnapshot 1 20 mergedMoves = .ok sn ∧ sn.thing.id = 10 ∧
        sn.thing.version = 1) ∧
      ¬PrefetchAgrees noDates 1 20 "active_thread" mergedMoves := by
  have hmerged : ∃ thing canonical, getThing 1 20 mergedMoves = .ok thing ∧
      thing.mergedIntoThingId = some 10 ∧ getThing 1 10 mergedMoves = .ok canonical ∧
      canonical.mergedIntoThingId = none ∧ canonical.id = 10 ∧ canonical.version = 1 :=
    ⟨_, _, rfl, rfl, rfl, rfl, rfl, rfl⟩
  obtain ⟨thing, canonical, hthing, hto, hcanonical, hunmerged, hid, hversion⟩ := hmerged
  refine ⟨(system noRepr noDates).serial_reachable rfl _, by decide +kernel, ?_,
    not_agrees_of_merged hthing hto hcanonical⟩
  obtain ⟨hget, hlive⟩ := getThing_eq_ok.mp hthing
  obtain ⟨hget', hlive'⟩ := getThing_eq_ok.mp hcanonical
  have hresolved : resolveActiveThing 1 20 (fun _ => mergedMoves) = .ok canonical := by
    unfold resolveActiveThing
    rw [resolve_step (Finset.notMem_empty _) hget hlive hto, resolveFrom, dif_neg (by decide), hget']
    simp only [hlive', if_true, hunmerged]
  exact ⟨_, bind_of_ok hresolved _, hid, hversion⟩

end PersonalState
