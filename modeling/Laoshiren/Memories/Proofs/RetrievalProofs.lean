import Mathlib.Algebra.Order.Field.Basic
import Mathlib.Algebra.Order.Field.Rat
import Laoshiren.Memories.Retrieval

/-!
# Proofs: rank fusion is fair

The reciprocals of the ranks go down and stay positive, so the fusion keeps what the rankings agree on.
The candidates of a search are the beginnings of two rankings, and what the rankings agree on their
beginnings do.
-/

namespace Memories

open PersonalState (Memory MemoryType MemoryStatus)

variable {δ : Type} [LinearOrder δ] {ilike : String → String → Bool} {q : MemorySearch δ}
  {status : MemoryStatus} {t : Table Memory} {limit candidateMultiplier : ℕ}
  {view : ℕ → Table Memory} {x y : UUID}

/-! ## Reciprocal ranks -/

theorem reciprocal_pos (k : ℕ) (rank : ℕ) (hrank : 0 < rank) : 0 < 1 / ((k : ℚ) + rank) := by
  have hcast : (0 : ℚ) < rank := Nat.cast_pos.mpr hrank
  exact one_div_pos.mpr (add_pos_of_nonneg_of_pos (Nat.cast_nonneg k) hcast)

theorem reciprocal_strictAntiOn (k : ℕ) :
    StrictAntiOn (fun rank : ℕ => 1 / ((k : ℚ) + rank)) (Set.Ioi 0) := by
  intro rank hrank rank' _ hlt
  have hpos : (0 : ℚ) < k + rank :=
    add_pos_of_nonneg_of_pos (Nat.cast_nonneg k) (Nat.cast_pos.mpr hrank)
  have hcast : (rank : ℚ) < rank' := Nat.cast_lt.mpr hlt
  exact one_div_lt_one_div_of_lt hpos (add_lt_add_right hcast _)

theorem fusesFairly (k : ℕ) {rankedIds : List (List UUID)}
    (hranked : ∀ ranked ∈ rankedIds, ranked.Nodup) : FusesFairly k rankedIds where
  nodup := RankFusion.nodup_fuse
  mem _ := RankFusion.mem_fuse
  perm _ h := RankFusion.fuse_perm UUID.str_injective h
  agreed _ _ := RankFusion.precedes_fuse (reciprocal_strictAntiOn k) (reciprocal_pos k) hranked

/-- The second of two Memories in one ranking and first in the other comes before both others. -/
example : reciprocalRankFusion 60 [[10, 20], [20, 30]] = [20, 10, 30] := by decide +kernel

/-! ## Rankings of Memories -/

namespace MemoryRepository

theorem nodup_matching : ((matching ilike q status t).map Memory.id).Nodup := by
  refine List.Nodup.sublist (List.filter_sublist.map _) ?_
  exact List.pairwise_map.mpr (t.consistent.imp fun hne hsame => hne (.inl hsame))

/-- A ranking lists every Memory once. -/
theorem nodup_ranking : ((ranking ilike q status t).map Memory.id).Nodup := by
  have hsorted : ∀ (r : Memory → Memory → Prop) [DecidableRel r] (found : List Memory),
      (found.map Memory.id).Nodup → ((found.insertionSort r).map Memory.id).Nodup :=
    fun r _ found hfound => ((List.perm_insertionSort r found).map _).nodup_iff.mpr hfound
  unfold ranking
  split
  · exact hsorted _ _ (nodup_matching.sublist (List.filter_sublist.map _))
  · split
    · exact hsorted _ _ nodup_matching
    · exact hsorted _ _ nodup_matching

end MemoryRepository

theorem nodup_rankedIds {q : Option (MemorySearch δ)} : (rankedIds ilike q t).Nodup := by
  cases q with
  | none => exact .nil
  | some q => exact MemoryRepository.nodup_ranking

/-- The candidates of a search are the beginning of its ranking. -/
theorem candidates_ids (q : Option (MemorySearch δ)) (limit : ℕ) (t : Table Memory) :
    (q.elim [] fun q => MemoryRepository.search ilike q .active limit t).map Memory.id =
      (rankedIds ilike q t).take limit := by
  cases q with
  | none => exact List.take_nil.symm
  | some q => exact List.map_take

/-- Looking up Memories by ids that are there finds those with the ids. -/
theorem ids_filterMap {found : List Memory} {ids : List UUID}
    (h : ∀ id ∈ ids, ∃ memory ∈ found, memory.id = id) :
    (ids.filterMap fun id => found.find? fun memory => memory.id = id).map Memory.id = ids := by
  induction ids with
  | nil => rfl
  | cons id ids ih =>
    obtain ⟨memory, hmem, hid⟩ := h id (.head _)
    have hrest := ih fun id' hid' => h id' (.tail _ hid')
    cases hfind : found.find? fun memory => decide (memory.id = id) with
    | none => exact absurd (decide_eq_true hid) (List.find?_eq_none.mp hfind memory hmem)
    | some first =>
      have hfirst := List.find?_some hfind
      simp only [decide_eq_true_eq] at hfirst
      rw [List.filterMap_cons, hfind, List.map_cons, hrest, hfirst]

/-! ## Searches -/

/-- The ids that a search finds: a fusion of the two lists of candidates, one of them where the other
is empty, or those of a last resort where both are. -/
inductive FoundFrom (lexical vector : List UUID) (limit : ℕ) : List UUID → Prop
  | fused : FoundFrom lexical vector limit ((reciprocalRankFusion 60 [lexical, vector]).take limit)
  | vector (h : lexical = []) : FoundFrom lexical vector limit (vector.take limit)
  | lexical (h : vector = []) : FoundFrom lexical vector limit (lexical.take limit)
  | last (h : lexical = []) (h' : vector = []) {ids : List UUID} (hids : ids.Nodup) :
      FoundFrom lexical vector limit (ids.take limit)

theorem foundFrom (ilike : String → String → Bool) (q : MemorySearch δ)
    (limit candidateMultiplier : ℕ) (view : ℕ → Table Memory) :
    FoundFrom ((rankedIds ilike q.lexical (view 0)).take (max limit (limit * candidateMultiplier)))
      ((rankedIds ilike q.vector (view 1)).take (max limit (limit * candidateMultiplier))) limit
      ((hybridSearchMemories ilike q limit candidateMultiplier view).map Memory.id) := by
  rw [← candidates_ids, ← candidates_ids]
  unfold hybridSearchMemories
  dsimp only
  generalize q.lexical.elim [] (fun q => MemoryRepository.search ilike q .active
    (max limit (limit * candidateMultiplier)) (view 0)) = lexical
  generalize q.vector.elim [] (fun q => MemoryRepository.search ilike q .active
    (max limit (limit * candidateMultiplier)) (view 1)) = vector
  by_cases hlexical : lexical = []
  · subst hlexical
    rw [if_neg fun h => h.1 rfl]
    by_cases hvector : vector = []
    · subst hvector
      rw [if_neg fun h => h rfl, if_neg fun h => h rfl]
      let words : MemorySearch δ := { q with queryEmbedding := none }
      have hlast : (MemoryRepository.search ilike words .active limit (view 2)).map Memory.id =
          (rankedIds ilike (some words) (view 2)).take limit := candidates_ids (some words) _ _
      rw [hlast]
      exact .last rfl rfl nodup_rankedIds
    · rw [if_pos hvector, List.map_take]
      exact .vector rfl
  · by_cases hvector : vector = []
    · subst hvector
      rw [if_neg fun h => h.2 rfl, if_neg fun h => h rfl, if_pos hlexical, List.map_take]
      exact .lexical rfl
    · rw [if_pos ⟨hlexical, hvector⟩, ids_filterMap fun id hid => ?_]
      · exact .fused
      · obtain ⟨ranked, hranked, hmem⟩ := RankFusion.mem_fuse.mp (List.mem_of_mem_take hid)
        simp only [List.mem_reverse, List.mem_append]
        rcases List.mem_cons.mp hranked with rfl | hlast
        · obtain ⟨memory, hfound, hmemory⟩ := List.mem_map.mp hmem
          exact ⟨memory, .inl hfound, hmemory⟩
        · obtain rfl := List.mem_singleton.mp hlast
          obtain ⟨memory, hfound, hmemory⟩ := List.mem_map.mp hmem
          exact ⟨memory, .inr hfound, hmemory⟩

variable {lexical vector ids : List UUID}

theorem FoundFrom.nodup (h : FoundFrom lexical vector limit ids) (hlexical : lexical.Nodup)
    (hvector : vector.Nodup) : ids.Nodup := by
  cases h with
  | fused => exact RankFusion.nodup_fuse.sublist (List.take_sublist _ _)
  | vector => exact hvector.sublist (List.take_sublist _ _)
  | lexical => exact hlexical.sublist (List.take_sublist _ _)
  | last _ _ hids => exact hids.sublist (List.take_sublist _ _)

theorem FoundFrom.length_le (h : FoundFrom lexical vector limit ids) : ids.length ≤ limit := by
  cases h <;> exact List.length_take_le _ _

/-- What the candidates agree on, a search agrees on. -/
theorem FoundFrom.agreed (h : FoundFrom lexical vector limit ids) (hlexical : lexical.Nodup)
    (hvector : vector.Nodup) (hfound : lexical ≠ [] ∨ vector ≠ []) (hy : y ∈ ids)
    (hagreed : y ∈ lexical → Precedes x y lexical) (hagreed' : y ∈ vector → Precedes x y vector) :
    Precedes x y ids := by
  cases h with
  | fused =>
    have hboth : ∀ ranked ∈ [lexical, vector], ranked.Nodup ∧ (y ∈ ranked → Precedes x y ranked) := by
      intro ranked hmem
      rcases List.mem_cons.mp hmem with rfl | hlast
      · exact ⟨hlexical, hagreed⟩
      · obtain rfl := List.mem_singleton.mp hlast
        exact ⟨hvector, hagreed'⟩
    have hfused := (fusesFairly 60 fun ranked hmem => (hboth ranked hmem).1).agreed x y
      (RankFusion.mem_fuse.mp (List.mem_of_mem_take hy)) fun ranked hmem => (hboth ranked hmem).2
    exact hfused.take RankFusion.nodup_fuse hy
  | vector => exact (hagreed' (List.mem_of_mem_take hy)).take hvector hy
  | lexical => exact (hagreed (List.mem_of_mem_take hy)).take hlexical hy
  | last h h' => exact absurd h (hfound.resolve_right fun hne => hne h')

theorem searchesFairly (ilike : String → String → Bool) (q : MemorySearch δ)
    (limit candidateMultiplier : ℕ) (view : ℕ → Table Memory) :
    SearchesFairly ilike q limit candidateMultiplier view := by
  have hfrom := foundFrom ilike q limit candidateMultiplier view
  have hlexical : (rankedIds ilike q.lexical (view 0)).Nodup := nodup_rankedIds
  have hvector : (rankedIds ilike q.vector (view 1)).Nodup := nodup_rankedIds
  have hnodup := hfrom.nodup (hlexical.sublist (List.take_sublist _ _))
    (hvector.sublist (List.take_sublist _ _))
  have hlength := hfrom.length_le
  refine ⟨by rwa [List.length_map] at hlength, hnodup, fun x y hy hranked hagreed hagreed' => ?_⟩
  -- something is found, so candidates are looked for
  have hlimit : 0 < limit := (List.length_pos_of_mem hy).trans_le hlength
  have hcandidates : ∀ ranked : List UUID, y ∈ ranked →
      ranked.take (max limit (limit * candidateMultiplier)) ≠ [] := by
    intro ranked hmem hnone
    rcases List.take_eq_nil_iff.mp hnone with hzero | rfl
    · exact absurd (le_max_left limit (limit * candidateMultiplier)) (by omega)
    · cases hmem
  exact hfrom.agreed (hlexical.sublist (List.take_sublist _ _))
    (hvector.sublist (List.take_sublist _ _)) (hranked.imp (hcandidates _) (hcandidates _)) hy
    (fun hmem => (hagreed (List.mem_of_mem_take hmem)).take hlexical hmem)
    fun hmem => (hagreed' (List.mem_of_mem_take hmem)).take hvector hmem

/-- Rank fusion is fair, and so are the searches that are built on it. -/
theorem rank_fusion_fair (k : ℕ) {rankedIds : List (List UUID)}
    (hranked : ∀ ranked ∈ rankedIds, ranked.Nodup) {δ : Type} [LinearOrder δ]
    (ilike : String → String → Bool) (q : MemorySearch δ) (limit candidateMultiplier : ℕ)
    (view : ℕ → Table Memory) :
    FusesFairly k rankedIds ∧ SearchesFairly ilike q limit candidateMultiplier view :=
  ⟨fusesFairly k hranked, searchesFairly ilike q limit candidateMultiplier view⟩

/-- Memory 10 comes before Memory 20 in one ranking, and behind another one in the other. -/
theorem rank_fusion_fair_agreed :
    Precedes (10 : UUID) 20 (reciprocalRankFusion 60 [[10, 20], [30, 10, 20]]) := by
  have hranked : ∀ ranked ∈ [[(10 : UUID), 20], [30, 10, 20]], ranked.Nodup := by decide
  have hfair := rank_fusion_fair 60 hranked (fun _ _ => true)
    (⟨1, none, none, none, none⟩ : MemorySearch ℕ) 5 3 fun _ => .empty
  refine hfair.1.agreed 10 20 ⟨_, .head _, by decide⟩ fun ranked hmem _ => ?_
  rcases List.mem_cons.mp hmem with rfl | hlast
  · exact ⟨[10], [], rfl, .head _⟩
  · obtain rfl := List.mem_singleton.mp hlast
    exact ⟨[30, 10], [], rfl, by decide⟩

end Memories
