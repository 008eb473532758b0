import Laoshiren.Foundation.Table

/-!
# Versioned rows

A row with a version number, which every write of its contents raises by one. A write that is conditional
on the version that it read is computed from the row that it replaces, so the writes on a row form a
chain. The rules here say which statements on a table extend the chains of its rows.
-/

/-- How a row is versioned: what tells it from other rows, its version number, and the columns that the
number stands for. -/
structure Versioned (α κ γ : Type*) where
  key : α → κ
  version : α → ℕ
  content : α → γ

namespace Versioned

variable {α κ γ : Type*} (v : Versioned α κ γ)

/-- The same version of a row: the columns beside its contents may differ. -/
def Same (r r' : α) : Prop := v.version r' = v.version r ∧ v.content r' = v.content r

/-- The same version of a row, or a later one. -/
def Later (r r' : α) : Prop := v.version r < v.version r' ∨ v.Same r r'

/-- One link of the chain of a row: the version stays, or the next one is `computed` from it. -/
def Link (computed : α → Prop) (r r' : α) : Prop :=
  v.Same r r' ∨ v.version r' = v.version r + 1 ∧ computed r

variable {v} {computed : α → Prop} {r r' r'' : α}

theorem Same.refl (r : α) : v.Same r r := ⟨rfl, rfl⟩

theorem Same.symm (h : v.Same r r') : v.Same r' r := ⟨h.1.symm, h.2.symm⟩

theorem Same.trans (h : v.Same r r') (h' : v.Same r' r'') : v.Same r r'' :=
  ⟨h'.1.trans h.1, h'.2.trans h.2⟩

theorem Later.refl (r : α) : v.Later r r := .inr (.refl r)

theorem Later.le (h : v.Later r r') : v.version r ≤ v.version r' := by
  rcases h with hlt | hsame
  · omega
  · exact Nat.le_of_eq hsame.1.symm

theorem Later.trans (h : v.Later r r') (h' : v.Later r' r'') : v.Later r r'' := by
  rcases h with hlt | hsame
  · have hle := h'.le
    exact .inl (by omega)
  · rcases h' with hlt | hsame'
    · have hversion := hsame.1
      exact .inl (by omega)
    · exact .inr (hsame.trans hsame')

/-- A row that is later and has the same version number is the same version. -/
theorem Later.same (h : v.Later r r') (hversion : v.version r' = v.version r) : v.Same r r' := by
  rcases h with hlt | hsame
  · omega
  · exact hsame

theorem Link.later (h : v.Link computed r r') : v.Later r r' := by
  rcases h with hsame | ⟨hnext, -⟩
  · exact .inr hsame
  · exact .inl (by omega)

theorem Link.same_left (hsame : v.Same r r') (hcongr : computed r' → computed r)
    (h : v.Link computed r' r'') : v.Link computed r r'' := by
  rcases h with h | ⟨hnext, hcomputed⟩
  · exact .inl (hsame.trans h)
  · exact .inr ⟨by rw [hnext, hsame.1], hcongr hcomputed⟩

variable [Row α] {t t' t'' : Table α} {p : α → Bool} {f : α → α}

/-- The chains of a table extended: every row that stays is linked to what it becomes, and every new row
has the first version. -/
structure Chain (v : Versioned α κ γ) (computed : α → Prop) (t t' : Table α) : Prop where
  links : ∀ r ∈ t, ∀ r' ∈ t', v.key r' = v.key r → v.Link computed r r'
  starts : ∀ r' ∈ t', (∃ r ∈ t, v.key r' = v.key r) ∨ v.version r' = 1

/-- Rows with one key conflict: a table has at most one row for it. -/
def Keyed (v : Versioned α κ γ) : Prop := ∀ r r', v.key r = v.key r' → Row.conflict r r'

namespace Chain

theorem refl (hkeyed : v.Keyed) (t : Table α) : v.Chain computed t t where
  links r hr r' hr' hkey := by
    obtain rfl := Table.eq_of_conflict hr' hr (hkeyed _ _ hkey)
    exact .inl (.refl _)
  starts r' hr' := .inl ⟨r', hr', rfl⟩

/-- A new row of the first version. -/
theorem insert? {r₀ : α} (hkeyed : v.Keyed) (hfirst : v.version r₀ = 1)
    (h : t.insert? r₀ = some t') : v.Chain computed t t' where
  links r hr r' hr' hkey := by
    rcases (Table.mem_insert? h).mp hr' with hold | rfl
    · exact (refl hkeyed t).links r hr r' hold hkey
    · exact absurd (hkeyed _ _ hkey.symm) (Table.not_conflict_of_insert? h hr)
  starts r' hr' := by
    rcases (Table.mem_insert? h).mp hr' with hold | rfl
    · exact .inl ⟨r', hold, rfl⟩
    · exact .inr hfirst

/-- The rows are rewritten one by one. -/
theorem of_rows (h : t'.rows = t.rows.map (Table.updateRow p f)) (hkeyed : v.Keyed)
    (hkey : ∀ r, v.key (f r) = v.key r)
    (hlink : ∀ r ∈ t, p r = true → v.Link computed r (f r)) : v.Chain computed t t' := by
  have hmem : ∀ r' ∈ t', ∃ r ∈ t, Table.updateRow p f r = r' := by
    intro r' hr'
    have hr' : r' ∈ t'.rows := hr'
    rw [h] at hr'
    exact List.mem_map.mp hr'
  have hrow : ∀ r ∈ t, v.key (Table.updateRow p f r) = v.key r ∧
      v.Link computed r (Table.updateRow p f r) := by
    intro r hr
    by_cases hp : p r = true
    · rw [Table.updateRow_pos hp]
      exact ⟨hkey r, hlink r hr hp⟩
    · rw [Table.updateRow_neg (by simpa using hp)]
      exact ⟨rfl, .inl (.refl r)⟩
  refine ⟨fun r hr r' hr' hsame => ?_, fun r' hr' => ?_⟩
  · obtain ⟨r₀, hr₀, rfl⟩ := hmem r' hr'
    obtain ⟨hkey₀, hlink₀⟩ := hrow r₀ hr₀
    obtain rfl := Table.eq_of_conflict hr₀ hr (hkeyed _ _ (hkey₀.symm.trans hsame))
    exact hlink₀
  · obtain ⟨r₀, hr₀, rfl⟩ := hmem r' hr'
    exact .inl ⟨r₀, hr₀, (hrow r₀ hr₀).1⟩

/-- Columns beside the contents are rewritten. -/
theorem of_same (h : t'.rows = t.rows.map (Table.updateRow p f)) (hkeyed : v.Keyed)
    (hkey : ∀ r, v.key (f r) = v.key r) (hsame : ∀ r, v.Same r (f r)) : v.Chain computed t t' :=
  of_rows h hkeyed hkey fun r _ _ => .inl (hsame r)

theorem delete (hkeyed : v.Keyed) (p : α → Bool) : v.Chain computed t (t.delete p) where
  links r hr r' hr' hkey := (refl hkeyed t).links r hr r' (Table.mem_delete.mp hr').1 hkey
  starts r' hr' := .inl ⟨r', (Table.mem_delete.mp hr').1, rfl⟩

/-- A statement that leaves the version of every row, before one that extends the chains. -/
theorem after_same {computed' : α → Prop} (h : t'.rows = t.rows.map (Table.updateRow p f))
    (hkey : ∀ r, v.key (f r) = v.key r) (hsame : ∀ r, v.Same r (f r))
    (hcongr : ∀ r r', v.key r' = v.key r → v.Same r r' → computed r' → computed' r)
    (h' : v.Chain computed t' t'') : v.Chain computed' t t'' := by
  have hrow : ∀ r, v.key (Table.updateRow p f r) = v.key r ∧ v.Same r (Table.updateRow p f r) := by
    intro r
    unfold Table.updateRow
    split
    · exact ⟨hkey r, hsame r⟩
    · exact ⟨rfl, .refl r⟩
  refine ⟨fun r hr r'' hr'' heq => ?_, fun r'' hr'' => ?_⟩
  · have hmem : Table.updateRow p f r ∈ t' := by
      show _ ∈ t'.rows
      rw [h]
      exact List.mem_map_of_mem hr
    obtain ⟨hkey', hsame'⟩ := hrow r
    rcases h'.links _ hmem r'' hr'' (heq.trans hkey'.symm) with hlink | ⟨hnext, hcomputed⟩
    · exact .inl (hsame'.trans hlink)
    · exact .inr ⟨by rw [hnext, hsame'.1], hcongr _ _ hkey' hsame' hcomputed⟩
  · rcases h'.starts r'' hr'' with ⟨r', hr', heq⟩ | hfirst
    · have hr' : r' ∈ t'.rows := hr'
      rw [h] at hr'
      obtain ⟨r, hr, rfl⟩ := List.mem_map.mp hr'
      exact .inl ⟨r, hr, heq.trans (hrow r).1⟩
    · exact .inr hfirst

theorem imp {computed' : α → Prop} (h : v.Chain computed t t')
    (himp : ∀ r, computed r → computed' r) : v.Chain computed' t t' :=
  ⟨fun r hr r' hr' hkey => (h.links r hr r' hr' hkey).imp_right (.imp_right (himp r)), h.starts⟩

/-- Where no row goes, every row is still there in a later version. -/
theorem evolves (h : v.Chain computed t t')
    (hstays : ∀ r ∈ t, ∃ r' ∈ t', v.key r' = v.key r) : Table.Evolves v.key v.Later t t' := by
  intro r hr
  obtain ⟨r', hr', hkey⟩ := hstays r hr
  exact ⟨r', hr', hkey, (h.links r hr r' hr' hkey).later⟩

end Chain

/-- A row that was read is still there where a row of its key and its version is there. -/
theorem same_of_evolves (hkeyed : v.Keyed) (h : Table.Evolves v.key v.Later t t') (hr : r ∈ t)
    (hr' : r' ∈ t') (hkey : v.key r' = v.key r) (hversion : v.version r' = v.version r) :
    v.Same r r' := by
  obtain ⟨row, hrow, hrowKey, hlater⟩ := h r hr
  obtain rfl := Table.eq_of_conflict hr' hrow (hkeyed _ _ (hkey.trans hrowKey.symm))
  exact hlater.same hversion

end Versioned
