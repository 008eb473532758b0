import Laoshiren.Foundation.ReadCommitted

/-!
# Requests under a key

A client gives a request a key, and repeats it under that key. A transaction looks its key up first:
where an earlier request is on record it answers from the record, and else it carries the request out and
puts it on record, which fails where another transaction was faster.
-/

namespace Program

variable {σ ι ο κ : Type*} {P : Program σ ι ο}

/-- How the transactions of a program treat their keys. -/
structure Keyed (P : Program σ ι ο) (κ : Type*) where
  /-- The key of a transaction that carries a request. -/
  key : ι → Option κ
  /-- The statement of a transaction that looks for its key. -/
  lookup : ι → ℕ
  /-- A request is on record under a key. -/
  OnRecord : σ → κ → Prop
  Succeeds : ο → Prop
  /-- What a transaction needs to answer from the record that it found. -/
  Answers : ι → (ℕ → σ) → Prop
  found : ∀ op view k, key op = some k → Answers op view → OnRecord (view (lookup op)) k
  keeps : ∀ op view s k, OnRecord s k → OnRecord (P.commit op view s).1 k
  records : ∀ op view s k, key op = some k → Succeeds (P.commit op view s).2 →
    OnRecord (view (lookup op)) k ∨ OnRecord (P.commit op view s).1 k
  replays : ∀ op view s k, key op = some k → OnRecord (view (lookup op)) k →
    (Succeeds (P.commit op view s).2 ↔ Answers op view)
  blocks : ∀ op view s k, key op = some k → ¬OnRecord (view (lookup op)) k → OnRecord s k →
    ¬Succeeds (P.commit op view s).2

namespace Keyed

variable (K : P.Keyed κ) {ok : ι → (ℕ → σ) → σ → Prop} {h : History σ ι ο} {k : κ}

/-- A request that is on record stays on record. -/
theorem stable : P.Stable ok (fun _ => True) fun s s' => ∀ k, K.OnRecord s k → K.OnRecord s' k where
  init _ _ := trivial
  refl _ _ h := h
  trans _ _ _ h h' k hk := h' k (h k hk)
  step op view s _ _ _ := ⟨trivial, K.keeps op view s⟩

/-- A request that succeeded is on record in every later state. -/
theorem onRecord_of_succeeds (hr : P.ReachableIf ok h) {j : ℕ} {op : ι} {reply : ο}
    (hkey : K.key op = some k) (hreply : h.replies[j]? = some (op, reply))
    (hsucceeds : K.Succeeds reply) : K.OnRecord h.cur k := by
  obtain ⟨h₀, view, -, hviews, -, hcommit, hstates⟩ := hr.answered hreply
  have hmem : ∀ u ∈ (P.extend h₀ op view).states, u ∈ h.states := by
    intro u hu
    rw [← hstates] at hu
    exact List.mem_of_mem_drop hu
  rw [← hcommit] at hsucceeds
  rcases K.records op view h₀.cur k hkey hsucceeds with hseen | hrecorded
  · exact K.stable.rel_mem hr (hmem _ (.tail _ (hviews _))) k hseen
  · exact K.stable.rel_mem hr (hmem _ (.head _)) k hrecorded

/-- A request under the key of one that succeeded: it succeeds where it finds that one on record and can
answer from the record, whatever it asks for itself. -/
theorem succeeds_iff (hr : P.ReachableIf ok h) {j : ℕ} {op op' : ι} {reply : ο} {view : ℕ → σ}
    (hkey : K.key op = some k) (hreply : h.replies[j]? = some (op, reply))
    (hsucceeds : K.Succeeds reply) (hkey' : K.key op' = some k) :
    K.Succeeds (P.commit op' view h.cur).2 ↔ K.Answers op' view := by
  have hrecorded := K.onRecord_of_succeeds hr hkey hreply hsucceeds
  by_cases hseen : K.OnRecord (view (K.lookup op')) k
  · exact K.replays op' view h.cur k hkey' hseen
  · have hblocked := K.blocks op' view h.cur k hkey' hseen hrecorded
    exact ⟨fun h => absurd h hblocked, fun h => absurd (K.found op' view k hkey' h) hseen⟩

/-- A request under the key of one that asked for something else is refused unless it can be answered
from the record of that one. -/
theorem refuses_iff (same : ι → ι → Prop) (hr : P.ReachableIf ok h) {j : ℕ} {op op' : ι} {reply : ο}
    {view : ℕ → σ} (hkey : K.key op = some k) (hreply : h.replies[j]? = some (op, reply))
    (hsucceeds : K.Succeeds reply) (hkey' : K.key op' = some k) :
    (¬same op op' → ¬K.Succeeds (P.commit op' view h.cur).2) ↔
      ¬(¬same op op' ∧ K.Answers op' view) := by
  rw [K.succeeds_iff hr hkey hreply hsucceeds hkey', not_and]

end Keyed

end Program
