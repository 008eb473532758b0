import Laoshiren.Foundation.Table

/-!
# Tables that grow

What a transaction makes of a table: every row that was there is still there, as a row that it moved to,
and every other row was added. Insertions and updates are such steps, and they can be chained.
-/

namespace Table

variable {α : Type*} [Row α] {R R' S : α → α → Prop} {new new' : α → Prop} {t t' t'' : Table α}
  {p : α → Bool} {f : α → α} {r r' : α}

/-- Every row moves along `R`, and every row that is added is `new`. -/
structure Grows (R : α → α → Prop) (new : α → Prop) (t t' : Table α) : Prop where
  kept : ∀ r ∈ t, ∃ r' ∈ t', R r r'
  origin : ∀ r' ∈ t', (∃ r ∈ t, R r r') ∨ new r'

namespace Grows

theorem refl (hR : ∀ r, R r r) (t : Table α) : Grows R new t t :=
  ⟨fun r hr => ⟨r, hr, hR r⟩, fun r hr => .inl ⟨r, hr, hR r⟩⟩

theorem of_moves (h : Moves R t t') : Grows R new t t' :=
  ⟨fun _ hr => h.exists_mem hr, fun _ hr' => .inl (h.mem hr')⟩

theorem update {hrows} (hR : ∀ r, R r r) (h : ∀ r ∈ t, p r = true → R r (f r)) :
    Grows R new t ⟨t.rows.map (updateRow p f), hrows⟩ :=
  of_moves (.update hR h)

theorem insert? (hR : ∀ r, R r r) (hnew : new r) (h : t.insert? r = some t') :
    Grows R new t t' where
  kept r₀ hr₀ := ⟨r₀, (mem_insert? h).mpr (.inl hr₀), hR r₀⟩
  origin r' hr' := by
    rcases (mem_insert? h).mp hr' with hr | rfl
    · exact .inl ⟨r', hr, hR r'⟩
    · exact .inr hnew

theorem trans (h : Grows R new t t') (h' : Grows R' new' t' t'')
    (hS : ∀ r₁ r₂ r₃, R r₁ r₂ → R' r₂ r₃ → S r₁ r₃) (hnew : ∀ r r', new r → R' r r' → new' r') :
    Grows S new' t t'' where
  kept r hr := by
    obtain ⟨r₁, hr₁, hR⟩ := h.kept r hr
    obtain ⟨r₂, hr₂, hR'⟩ := h'.kept r₁ hr₁
    exact ⟨r₂, hr₂, hS _ _ _ hR hR'⟩
  origin r' hr' := by
    rcases h'.origin r' hr' with ⟨r₁, hr₁, hR'⟩ | hadded
    · rcases h.origin r₁ hr₁ with ⟨r, hr, hR⟩ | hadded
      · exact .inl ⟨r, hr, hS _ _ _ hR hR'⟩
      · exact .inr (hnew _ _ hadded hR')
    · exact .inr hadded

theorem imp {p : α → Prop} (h : Grows R new t t') (hS : ∀ r r', R r r' → S r r')
    (hnew : ∀ r, new r → p r) : Grows S p t t' where
  kept r hr := by
    obtain ⟨r', hr', hR⟩ := h.kept r hr
    exact ⟨r', hr', hS _ _ hR⟩
  origin r' hr' := (h.origin r' hr').imp (fun ⟨r, hr, hR⟩ => ⟨r, hr, hS _ _ hR⟩) (hnew r')

/-- A law of every row that its moves carry over. -/
theorem forall_mem (h : Grows R new t t') {law law' : α → Prop} (hlaw : ∀ r ∈ t, law r)
    (hR : ∀ r r', R r r' → law r → law' r') (hnew : ∀ r, new r → law' r) : ∀ r' ∈ t', law' r' := by
  intro r' hr'
  rcases h.origin r' hr' with ⟨r, hr, hmove⟩ | hadded
  · exact hR r r' hmove (hlaw r hr)
  · exact hnew r' hadded

end Grows

/-! ## One row -/

/-- The row `r` is replaced by `r'`, and every other row stays. -/
def Replaces (r r' : α) (t t' : Table α) : Prop :=
  r ∈ t ∧ Moves (fun s s' => s = r ∧ s' = r' ∨ s ≠ r ∧ s' = s) t t'

namespace Replaces

theorem refl (hr : r ∈ t) : Replaces r r t t := by
  refine ⟨hr, .refl (fun s => ?_) t⟩
  by_cases hs : s = r
  · exact .inl ⟨hs, hs⟩
  · exact .inr ⟨hs, rfl⟩

/-- A statement that rewrites the one row that it matches. -/
theorem of_rows (h : t'.rows = t.rows.map (updateRow p f)) (hr : r ∈ t) (hp : p r = true)
    (hu : ∀ s ∈ t, p s = true → s = r) : Replaces r (f r) t t' := by
  refine ⟨hr, updateRow p f, h, fun s hs => ?_⟩
  cases hmatch : p s with
  | true =>
    obtain rfl := hu s hs hmatch
    exact .inl ⟨rfl, updateRow_pos hmatch⟩
  | false =>
    refine .inr ⟨?_, updateRow_neg hmatch⟩
    rintro rfl
    rw [hp] at hmatch
    cases hmatch

theorem update {hrows} (hr : r ∈ t) (hp : p r = true) (hu : ∀ s ∈ t, p s = true → s = r) :
    Replaces r (f r) t ⟨t.rows.map (updateRow p f), hrows⟩ :=
  of_rows rfl hr hp hu

theorem moves (h : Replaces r r' t t') (hrefl : ∀ s, R s s) (hR : R r r') : Moves R t t' := by
  refine h.2.imp fun s s' hs => ?_
  rcases hs with ⟨rfl, rfl⟩ | ⟨-, rfl⟩
  · exact hR
  · exact hrefl _

theorem grows (h : Replaces r r' t t') (hrefl : ∀ s, R s s) (hR : R r r') : Grows R new t t' :=
  .of_moves (h.moves hrefl hR)

theorem mem_new (h : Replaces r r' t t') : r' ∈ t' := by
  obtain ⟨s', hs', ⟨-, rfl⟩ | ⟨hne, -⟩⟩ := h.2.exists_mem h.1
  · exact hs'
  · exact absurd rfl hne

theorem mem_of_ne (h : Replaces r r' t t') {s : α} (hs : s ∈ t) (hne : s ≠ r) : s ∈ t' := by
  obtain ⟨s', hs', ⟨rfl, -⟩ | ⟨-, rfl⟩⟩ := h.2.exists_mem hs
  · exact absurd rfl hne
  · exact hs'

theorem mem_cases (h : Replaces r r' t t') {s' : α} (hs' : s' ∈ t') :
    s' = r' ∨ s' ∈ t ∧ s' ≠ r := by
  obtain ⟨s, hs, ⟨-, rfl⟩ | ⟨hne, rfl⟩⟩ := h.2.mem hs'
  · exact .inl rfl
  · exact .inr ⟨hs, hne⟩

end Replaces

end Table
