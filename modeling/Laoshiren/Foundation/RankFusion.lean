import Mathlib.Algebra.Order.BigOperators.Group.List
import Mathlib.Algebra.Order.Group.Unbundled.Basic
import Mathlib.Data.List.Sort
import Mathlib.Data.Prod.Lex
import Mathlib.Tactic.Common

/-!
# Fusing rankings

A ranking lists items, the best first. A fusion adds up what the ranks of an item in several rankings
are worth, and sorts the items by their sums, and by a name where two sums are equal. It does not depend
on the order of the rankings, and it keeps what the rankings agree on.
-/

/-- `x` is listed, and `y` behind it. -/
def Precedes {α : Type*} (x y : α) (l : List α) : Prop :=
  ∃ before after, l = before ++ y :: after ∧ x ∈ before

namespace Precedes

variable {α : Type*} {x y : α} {l : List α}

theorem mem_left (h : Precedes x y l) : x ∈ l := by
  obtain ⟨before, after, rfl, hx⟩ := h
  exact List.mem_append_left _ hx

theorem mem_right (h : Precedes x y l) : y ∈ l := by
  obtain ⟨before, after, rfl, -⟩ := h
  simp

theorem ne (h : Precedes x y l) (hl : l.Nodup) : x ≠ y := by
  obtain ⟨before, after, rfl, hx⟩ := h
  rintro rfl
  exact (List.nodup_append.mp hl).2.2 x hx x (.head _) rfl

/-- One of two different items is listed behind the other. -/
theorem total (hx : x ∈ l) (hy : y ∈ l) (hne : x ≠ y) : Precedes x y l ∨ Precedes y x l := by
  obtain ⟨before, after, rfl⟩ := List.append_of_mem hy
  rcases List.mem_append.mp hx with hbefore | hafter
  · exact .inl ⟨before, after, rfl, hbefore⟩
  · obtain ⟨middle, rest, rfl⟩ := List.append_of_mem ((List.mem_cons.mp hafter).resolve_left hne)
    exact .inr ⟨before ++ y :: middle, rest, by simp, by simp⟩

/-- Items that are listed in order are related as the list is. -/
theorem rel {R : α → α → Prop} (h : Precedes x y l) (hl : l.Pairwise R) : R x y := by
  obtain ⟨before, after, rfl, hx⟩ := h
  exact (List.pairwise_append.mp hl).2.2 x hx y (.head _)

/-- What precedes an item of the beginning of a list is in the beginning too. -/
theorem take (h : Precedes x y l) (hl : l.Nodup) {n : ℕ} (hy : y ∈ l.take n) :
    Precedes x y (l.take n) := by
  obtain ⟨before, after, rfl, hx⟩ := h
  have hnew : y ∉ before := fun hold => (List.nodup_append.mp hl).2.2 y hold y (.head _) rfl
  rw [List.take_append] at hy ⊢
  by_cases hn : n ≤ before.length
  · rw [Nat.sub_eq_zero_of_le hn, List.take_zero, List.append_nil] at hy
    exact absurd (List.mem_of_mem_take hy) hnew
  · obtain ⟨m, rfl⟩ := Nat.exists_eq_add_of_lt (Nat.lt_of_not_le hn)
    have hleft : before.length + m + 1 - before.length = m + 1 := by omega
    rw [hleft, List.take_of_length_le (by omega), List.take_succ_cons]
    exact ⟨before, after.take m, rfl, hx⟩

theorem map {β : Type*} (f : α → β) (h : Precedes x y l) : Precedes (f x) (f y) (l.map f) := by
  obtain ⟨before, after, rfl, hx⟩ := h
  exact ⟨before.map f, after.map f, by simp, List.mem_map_of_mem hx⟩

end Precedes

/-- What is cut off a sorted list comes after all that is left of it. -/
theorem List.Pairwise.mem_take_or {α : Type*} {R : α → α → Prop} {l : List α}
    (hsorted : l.Pairwise R) {x : α} (hx : x ∈ l) (n : ℕ) :
    x ∈ l.take n ∨ (l.take n).length = n ∧ ∀ y ∈ l.take n, R y x := by
  rw [← List.take_append_drop n l] at hx hsorted
  rcases List.mem_append.mp hx with hx | hx
  · exact .inl hx
  · refine .inr ⟨?_, fun y hy => (List.pairwise_append.mp hsorted).2.2 y hy x hx⟩
    have hlength := List.length_pos_of_mem hx
    rw [List.length_drop] at hlength
    rw [List.length_take]
    omega

namespace RankFusion

variable {α β M : Type*} [DecidableEq α]

/-! ## Scores -/

/-- An item gets a score, in the place of its old one or at the end. -/
def setScore (item : α) (value : M) : List (α × M) → List (α × M)
  | [] => [(item, value)]
  | (x, old) :: scores =>
    if x = item then (x, value) :: scores else (x, old) :: setScore item value scores

theorem mem_setScore {item x : α} {value : M} {scores : List (α × M)} :
    x ∈ (setScore item value scores).map Prod.fst ↔ x = item ∨ x ∈ scores.map Prod.fst := by
  induction scores with
  | nil => simp [setScore]
  | cons entry scores ih =>
    obtain ⟨a, old⟩ := entry
    unfold setScore
    split
    next ha =>
      subst ha
      simp
    next =>
      rw [List.map_cons, List.map_cons, List.mem_cons, List.mem_cons, ih]
      tauto

theorem nodup_setScore (item : α) (value : M) {scores : List (α × M)}
    (h : (scores.map Prod.fst).Nodup) :
    ((setScore item value scores).map Prod.fst).Nodup := by
  induction scores with
  | nil => simp [setScore]
  | cons entry scores ih =>
    obtain ⟨a, old⟩ := entry
    obtain ⟨hnew, hrest⟩ := List.nodup_cons.mp h
    unfold setScore
    split
    next => exact h
    next ha =>
      refine List.nodup_cons.mpr ⟨fun hmem => ?_, ih hrest⟩
      rcases mem_setScore.mp hmem with heq | hold
      · exact ha heq
      · exact hnew hold

section Scores

variable [AddCommGroup M]

/-- The score of an item: zero, as long as it has none. -/
def score (item : α) (scores : List (α × M)) : M := (scores.lookup item).getD 0

/-- Every item of a ranking gets what its rank is worth, on top of the score that it has. -/
def addRanking (worth : ℕ → M) (scores : List (α × M)) (ranking : List α) : List (α × M) :=
  (ranking.zipIdx 1).foldl
    (fun scores (item, rank) => setScore item (score item scores + worth rank) scores) scores

/-- The scores that the rankings give. -/
def tally (worth : ℕ → M) (rankings : List (List α)) : List (α × M) :=
  rankings.foldl (addRanking worth) []

/-- What the ranks of an item are worth, where the first rank is `rank`. -/
def credit (worth : ℕ → M) (item : α) (rank : ℕ) : List α → M
  | [] => 0
  | x :: ranking => (if x = item then worth rank else 0) + credit worth item (rank + 1) ranking

/-- What the ranks of an item in all rankings are worth. -/
def total (worth : ℕ → M) (item : α) (rankings : List (List α)) : M :=
  (rankings.map (credit worth item 1)).sum

variable {worth : ℕ → M} {item x y : α} {value : M} {scores : List (α × M)} {rankings : List (List α)}
  {ranking : List α} {rank : ℕ}

theorem score_cons {old : M} :
    score x ((item, old) :: scores) = if x = item then old else score x scores := by
  unfold score
  by_cases hx : x = item
  · rw [if_pos hx, hx, List.lookup_cons_self, Option.getD_some]
  · rw [if_neg hx, List.lookup_cons, beq_eq_false_iff_ne.mpr hx]

theorem score_setScore :
    score x (setScore item value scores) = if x = item then value else score x scores := by
  induction scores with
  | nil => exact score_cons
  | cons entry scores ih =>
    obtain ⟨a, old⟩ := entry
    unfold setScore
    by_cases ha : a = item
    · subst ha
      rw [if_pos rfl, score_cons, score_cons]
      by_cases hx : x = a
      · rw [if_pos hx, if_pos hx]
      · rw [if_neg hx, if_neg hx, if_neg hx]
    · rw [if_neg ha, score_cons, score_cons, ih]
      by_cases hx : x = a
      · rw [if_pos hx, if_pos hx, if_neg fun hitem => ha (hx.symm.trans hitem)]
      · rw [if_neg hx, if_neg hx]

/-! ## Adding up rankings -/

/-- What a ranking adds to the scores, where its first rank is `rank`. -/
theorem foldl_ranking (worth : ℕ → M) (rank : ℕ) (ranking : List α) {scores : List (α × M)}
    (hscores : (scores.map Prod.fst).Nodup) :
    let scores' := (ranking.zipIdx rank).foldl
      (fun scores (item, rank) => setScore item (score item scores + worth rank) scores) scores
    (scores'.map Prod.fst).Nodup ∧
      (∀ x, x ∈ scores'.map Prod.fst ↔ x ∈ ranking ∨ x ∈ scores.map Prod.fst) ∧
      ∀ x, score x scores' = score x scores + credit worth x rank ranking := by
  induction ranking generalizing scores rank with
  | nil => exact ⟨hscores, fun x => by simp, fun x => (add_zero _).symm⟩
  | cons a ranking ih =>
    have hset := nodup_setScore a (score a scores + worth rank) hscores
    obtain ⟨hnodup, hmem, hscore⟩ := ih (rank + 1) hset
    refine ⟨hnodup, fun x => ?_, fun x => ?_⟩
    · refine (hmem x).trans ?_
      rw [mem_setScore, List.mem_cons]
      tauto
    · refine (hscore x).trans ?_
      rw [score_setScore]
      by_cases hx : x = a
      · rw [if_pos hx, hx, credit, if_pos rfl, add_assoc]
      · rw [if_neg hx, credit, if_neg (Ne.symm hx), zero_add]

/-- The rankings give scores to the items that they rank, each the worth of all its ranks. -/
theorem tally_spec (worth : ℕ → M) (rankings : List (List α)) :
    ((tally worth rankings).map Prod.fst).Nodup ∧
      (∀ x, x ∈ (tally worth rankings).map Prod.fst ↔ ∃ ranking ∈ rankings, x ∈ ranking) ∧
      ∀ x, score x (tally worth rankings) = total worth x rankings := by
  have hfold : ∀ (rankings : List (List α)) (scores : List (α × M)), (scores.map Prod.fst).Nodup →
      let scores' := rankings.foldl (addRanking worth) scores
      (scores'.map Prod.fst).Nodup ∧
        (∀ x, x ∈ scores'.map Prod.fst ↔ (∃ ranking ∈ rankings, x ∈ ranking) ∨ x ∈ scores.map Prod.fst) ∧
        ∀ x, score x scores' = score x scores + total worth x rankings := by
    intro rankings
    induction rankings with
    | nil => exact fun scores hscores => ⟨hscores, fun x => by simp, fun x => by simp [total]⟩
    | cons ranking rankings ih =>
      intro scores hscores
      obtain ⟨hnodup, hmem, hscore⟩ := foldl_ranking worth 1 ranking hscores
      obtain ⟨hnodup', hmem', hscore'⟩ := ih (addRanking worth scores ranking) hnodup
      refine ⟨hnodup', fun x => ?_, fun x => ?_⟩
      · refine (hmem' x).trans ?_
        rw [List.exists_mem_cons_iff, @or_comm (x ∈ ranking), or_assoc]
        exact or_congr_right (hmem x)
      · refine (hscore' x).trans ?_
        have htotal : total worth x (ranking :: rankings) =
            credit worth x 1 ranking + total worth x rankings := List.sum_cons
        rw [htotal, ← add_assoc]
        exact congrArg (· + total worth x rankings) (hscore x)
  obtain ⟨hnodup, hmem, hscore⟩ := hfold rankings [] .nil
  exact ⟨hnodup, fun x => (hmem x).trans (by simp), fun x => (hscore x).trans (zero_add _)⟩

theorem total_perm {rankings' : List (List α)} (h : rankings.Perm rankings') :
    total worth x rankings = total worth x rankings' :=
  (h.map _).sum_eq

theorem credit_of_not_mem (h : x ∉ ranking) : credit worth x rank ranking = 0 := by
  induction ranking generalizing rank with
  | nil => rfl
  | cons a ranking ih =>
    obtain ⟨hne, hrest⟩ := not_or.mp (mt List.mem_cons.mpr h)
    rw [credit, if_neg (Ne.symm hne), zero_add, ih hrest]

end Scores

/-! ## The fusion -/

section Order

variable [AddCommGroup M] [LinearOrder M] [LinearOrder β] {worth : ℕ → M} {x y : α}
  {ranking : List α} {rankings : List (List α)}

/-- The items are sorted by their scores, the highest first, and by their names. -/
def byScore (name : α → β) (scores : List (α × M)) : List α :=
  (scores.map Prod.fst).insertionSort fun x y =>
    toLex (-score x scores, name x) ≤ toLex (-score y scores, name y)

/-- The fusion of rankings. -/
def fuse (worth : ℕ → M) (name : α → β) (rankings : List (List α)) : List α :=
  byScore name (tally worth rankings)

variable {name : α → β}

theorem nodup_fuse : (fuse worth name rankings).Nodup :=
  (List.perm_insertionSort _ _).nodup_iff.mpr (tally_spec worth rankings).1

/-- A fusion lists what is ranked. -/
theorem mem_fuse : x ∈ fuse worth name rankings ↔ ∃ ranking ∈ rankings, x ∈ ranking :=
  (List.mem_insertionSort _).trans ((tally_spec worth rankings).2.1 x)

/-- A fusion is sorted by the worth of all ranks, and by the names. -/
theorem pairwise_fuse : (fuse worth name rankings).Pairwise fun x y =>
    toLex (-total worth x rankings, name x) ≤ toLex (-total worth y rankings, name y) := by
  have hscore := (tally_spec worth rankings).2.2
  simp only [← hscore]
  have htotal : Std.Total fun x y => toLex (-score x (tally worth rankings), name x) ≤
      toLex (-score y (tally worth rankings), name y) := ⟨fun x y => le_total _ _⟩
  have htrans : IsTrans α fun x y => toLex (-score x (tally worth rankings), name x) ≤
      toLex (-score y (tally worth rankings), name y) := ⟨fun x y z => le_trans⟩
  exact List.pairwise_insertionSort _ _

/-- A fusion does not depend on the order of the rankings. -/
theorem fuse_perm (hname : Function.Injective name) {rankings' : List (List α)}
    (h : rankings.Perm rankings') : fuse worth name rankings = fuse worth name rankings' := by
  have hperm : (fuse worth name rankings).Perm (fuse worth name rankings') := by
    refine (List.perm_ext_iff_of_nodup nodup_fuse nodup_fuse).mpr fun x => ?_
    rw [mem_fuse, mem_fuse]
    exact ⟨fun ⟨ranking, hmem, hx⟩ => ⟨ranking, h.mem_iff.mp hmem, hx⟩,
      fun ⟨ranking, hmem, hx⟩ => ⟨ranking, h.mem_iff.mpr hmem, hx⟩⟩
  have hsorted : (fuse worth name rankings').Pairwise _ := pairwise_fuse
  simp only [← total_perm h] at hsorted
  refine hperm.eq_of_pairwise (fun x y _ _ hxy hyx => ?_) pairwise_fuse hsorted
  exact hname (congrArg (fun p : M ×ₗ β => (ofLex p).2) (le_antisymm hxy hyx))

/-! ## What the rankings agree on -/

/-- Where a higher rank is worth less, every ranked item gets no more than the first rank is worth. -/
theorem credit_le (hworth : StrictAntiOn worth (Set.Ioi 0)) (hranking : ranking.Nodup) {rank : ℕ}
    (hrank : 0 < rank) (hx : x ∈ ranking) : credit worth x rank ranking ≤ worth rank := by
  induction ranking generalizing rank with
  | nil => cases hx
  | cons a ranking ih =>
    obtain ⟨hnew, hrest⟩ := List.nodup_cons.mp hranking
    by_cases ha : a = x
    · rw [credit, if_pos ha, credit_of_not_mem (ha ▸ hnew), add_zero]
    · have hmem := (List.mem_cons.mp hx).resolve_left (Ne.symm ha)
      have hle := ih hrest (Nat.succ_pos rank) hmem
      have hless : worth (rank + 1) < worth rank :=
        hworth hrank (Nat.succ_pos rank) (Nat.lt_succ_self rank)
      rw [credit, if_neg ha, zero_add]
      exact hle.trans hless.le

/-- In one ranking the item that comes first gets more. -/
theorem credit_lt (hworth : StrictAntiOn worth (Set.Ioi 0)) (hranking : ranking.Nodup) {rank : ℕ}
    (hrank : 0 < rank) (h : Precedes x y ranking) :
    credit worth y rank ranking < credit worth x rank ranking := by
  induction ranking generalizing rank with
  | nil => exact absurd h.mem_left List.not_mem_nil
  | cons a ranking ih =>
    obtain ⟨hnew, hrest⟩ := List.nodup_cons.mp hranking
    obtain ⟨before, after, heq, hx⟩ := h
    cases before with
    | nil => cases hx
    | cons b before =>
      obtain ⟨rfl, hranked⟩ := List.cons.inj heq
      have hy : y ∈ ranking := by
        rw [hranked]
        exact List.mem_append_right _ (.head _)
      have hay : a ≠ y := fun hsame => hnew (hsame ▸ hy)
      rw [credit, credit, if_neg hay, zero_add]
      by_cases ha : a = x
      · subst ha
        rw [if_pos rfl, credit_of_not_mem hnew, add_zero]
        have hless : worth (rank + 1) < worth rank :=
          hworth hrank (Nat.succ_pos rank) (Nat.lt_succ_self rank)
        exact (credit_le hworth hrest (Nat.succ_pos rank) hy).trans_lt hless
      · rw [if_neg ha, zero_add]
        exact ih hrest (Nat.succ_pos rank)
          ⟨before, after, hranked, (List.mem_cons.mp hx).resolve_left (Ne.symm ha)⟩

variable [IsOrderedAddMonoid M]

theorem credit_nonneg (hpos : ∀ rank, 0 < rank → 0 < worth rank) {rank : ℕ} (hrank : 0 < rank) :
    0 ≤ credit worth x rank ranking := by
  induction ranking generalizing rank with
  | nil => exact le_refl _
  | cons a ranking ih =>
    have hrest := ih (Nat.succ_pos rank)
    rw [credit]
    by_cases ha : a = x
    · rw [if_pos ha]
      exact add_nonneg (hpos rank hrank).le hrest
    · rwa [if_neg ha, zero_add]

/-- An item that precedes another one wherever that is ranked gets more in all. -/
theorem total_lt (hworth : StrictAntiOn worth (Set.Ioi 0)) (hpos : ∀ rank, 0 < rank → 0 < worth rank)
    (hrankings : ∀ ranking ∈ rankings, ranking.Nodup) (hy : ∃ ranking ∈ rankings, y ∈ ranking)
    (h : ∀ ranking ∈ rankings, y ∈ ranking → Precedes x y ranking) :
    total worth y rankings < total worth x rankings := by
  have hless : ∀ ranking ∈ rankings, y ∈ ranking →
      credit worth y 1 ranking < credit worth x 1 ranking := fun ranking hmem hranked =>
    credit_lt hworth (hrankings ranking hmem) Nat.one_pos (h ranking hmem hranked)
  refine List.sum_lt_sum _ _ (fun ranking hmem => ?_) ?_
  · by_cases hranked : y ∈ ranking
    · exact (hless ranking hmem hranked).le
    · rw [credit_of_not_mem hranked]
      exact credit_nonneg hpos Nat.one_pos
  · obtain ⟨ranking, hmem, hranked⟩ := hy
    exact ⟨ranking, hmem, hless ranking hmem hranked⟩

/-- A fusion places an item before every one that it precedes wherever that is ranked. -/
theorem precedes_fuse (hworth : StrictAntiOn worth (Set.Ioi 0))
    (hpos : ∀ rank, 0 < rank → 0 < worth rank)
    (hrankings : ∀ ranking ∈ rankings, ranking.Nodup) (hy : ∃ ranking ∈ rankings, y ∈ ranking)
    (h : ∀ ranking ∈ rankings, y ∈ ranking → Precedes x y ranking) :
    Precedes x y (fuse worth name rankings) := by
  have hlt : total worth y rankings < total worth x rankings :=
    total_lt hworth hpos hrankings hy h
  obtain ⟨ranking, hmem, hranked⟩ := hy
  have hprecedes := h ranking hmem hranked
  have hx : x ∈ fuse worth name rankings := mem_fuse.mpr ⟨ranking, hmem, hprecedes.mem_left⟩
  have hy' : y ∈ fuse worth name rankings := mem_fuse.mpr ⟨ranking, hmem, hranked⟩
  rcases Precedes.total hx hy' (hprecedes.ne (hrankings ranking hmem)) with hfirst | hlast
  · exact hfirst
  · -- the other way round the sums would be too
    have hle := (Prod.Lex.toLex_le_toLex.mp (hlast.rel pairwise_fuse)).imp id And.left
    rcases hle with hless | hsame
    · exact absurd (neg_lt_neg_iff.mp hless) hlt.asymm
    · exact absurd (neg_inj.mp hsame) hlt.ne

end Order

end RankFusion
