import Mathlib.Data.List.Basic
import Mathlib.Data.List.Pairwise

/-!
# Tables and conditional updates

A table is a list of rows that meets the unique constraints of its schema: no two rows conflict. A
row is inserted only where it conflicts with no other one, and `UPDATE … SET f WHERE p` applies `f`
to the rows that meet `p`, so a table that breaks a constraint cannot be built.

`Evolves` compares two states of a table: every row is still there, under the same key, and its new
version is related to the old one.
-/

/-- The rows of a schema with unique constraints: `conflict r r'` says that the two rows together
break one of them. -/
class Row (α : Type*) where
  conflict : α → α → Prop
  decConflict : DecidableRel conflict
  symm : ∀ r r', conflict r r' → conflict r' r

instance {α : Type*} [Row α] : DecidableRel (Row.conflict (α := α)) := Row.decConflict

/-- A table: rows that meet the unique constraints. -/
structure Table (α : Type*) [Row α] where
  rows : List α
  consistent : rows.Pairwise fun r r' => ¬Row.conflict r r'

namespace Table

variable {α κ : Type*} [Row α]

instance : Membership α (Table α) := ⟨fun t r => r ∈ t.rows⟩

instance [DecidableEq α] : DecidableEq (Table α) := fun t t' =>
  decidable_of_iff (t.rows = t'.rows) (by cases t; cases t'; simp)

/-- The table without rows. -/
def empty : Table α := ⟨[], .nil⟩

instance : Inhabited (Table α) := ⟨empty⟩

/-- `INSERT`: refused (an integrity error) where the new row conflicts with a row of the table. -/
def insert? (r : α) (t : Table α) : Option (Table α) :=
  if h : ∀ r' ∈ t.rows, ¬Row.conflict r' r then
    some ⟨t.rows ++ [r], List.pairwise_append.mpr
      ⟨t.consistent, List.pairwise_singleton _ _, fun r' hr' s hs => by
        obtain rfl := List.mem_singleton.mp hs
        exact h r' hr'⟩⟩
  else none

/-- What `UPDATE … SET f WHERE p` makes of one row. -/
def updateRow (p : α → Bool) (f : α → α) (r : α) : α := if p r then f r else r

/-- A changed row conflicts with no row that it did not conflict with before. -/
def Keeps (p : α → Bool) (f : α → α) : Prop :=
  ∀ r, p r = true → ∀ r', Row.conflict (f r) r' → Row.conflict r r'

theorem Keeps.updateRow {p : α → Bool} {f : α → α} (h : Keeps p f) {r r' : α}
    (hc : Row.conflict (updateRow p f r) (updateRow p f r')) : Row.conflict r r' := by
  have hleft : ∀ s s', Row.conflict (Table.updateRow p f s) s' → Row.conflict s s' := by
    intro s s' hs
    unfold Table.updateRow at hs
    split at hs
    case isTrue hp => exact h s hp s' hs
    case isFalse => exact hs
  exact Row.symm _ _ (hleft _ _ (Row.symm _ _ (hleft _ _ hc)))

/-- `UPDATE t SET f WHERE p`. -/
def update (p : α → Bool) (f : α → α) (h : Keeps p f) (t : Table α) : Table α :=
  ⟨t.rows.map (updateRow p f), List.pairwise_map.mpr (t.consistent.imp fun hn hc => hn (h.updateRow hc))⟩

/-- `UPDATE t SET f WHERE p` of a change that can break a unique constraint: refused where two rows
conflict after it. -/
def update? (p : α → Bool) (f : α → α) (t : Table α) : Option (Table α) :=
  if h : (t.rows.map (updateRow p f)).Pairwise fun r r' => ¬Row.conflict r r' then some ⟨_, h⟩
  else none

/-- `DELETE FROM t WHERE p`. -/
def delete (p : α → Bool) (t : Table α) : Table α :=
  ⟨t.rows.filter fun r => !p r, t.consistent.sublist List.filter_sublist⟩

/-- `INSERT … ON CONFLICT DO NOTHING`. -/
def insertOrIgnore (t : Table α) (r : α) : Table α := (t.insert? r).getD t

/-- Several rows, inserted one after the other. -/
def insertAll? : List α → Table α → Option (Table α)
  | [], t => some t
  | r :: rs, t => (t.insert? r).bind (insertAll? rs)

/-- The rows that a statement with the condition `p` writes when it looked for them in `seen`: those
that it found there, under their `key`, and that meet `p` still. -/
def foundIn [DecidableEq κ] (key : α → κ) (seen : Table α) (p : α → Bool) (r : α) : Bool :=
  p r && seen.rows.any fun r' => decide (key r' = key r) && p r'

/-- The row count of an update with the condition `p`. -/
def rowcount (p : α → Bool) (t : Table α) : ℕ := t.rows.countP p

/-- `SELECT … WHERE p` that answers with one row or none. -/
def get (p : α → Bool) (t : Table α) : Option α := t.rows.find? p

/-- `INSERT … ON CONFLICT (key) DO NOTHING`: a row with the same `key` is left alone, and any other
conflict is an integrity error. -/
def insertUnless [DecidableEq κ] (key : α → κ) (r : α) (t : Table α) : Option (Table α × Bool) :=
  if (t.get fun r' => key r' = key r).isSome then some (t, false)
  else (t.insert? r).map fun t' => (t', true)

/-- `SELECT … WHERE p` that answers with every row. -/
def select (p : α → Bool) (t : Table α) : List α := t.rows.filter p

variable {p : α → Bool} {f : α → α} {hf : Keeps p f} {t t' : Table α} {r r' : α}

theorem mem_rows : r ∈ t.rows ↔ r ∈ t := Iff.rfl

@[simp] theorem not_mem_empty : r ∉ (empty : Table α) := List.not_mem_nil

/-- Two rows of a table that conflict are one row. -/
theorem eq_of_conflict (hr : r ∈ t) (hr' : r' ∈ t) (h : Row.conflict r r') : r = r' := by
  by_contra hne
  have : Std.Symm fun r r' : α => ¬Row.conflict r r' := ⟨fun _ _ hn hc => hn (Row.symm _ _ hc)⟩
  exact t.consistent.forall hr hr' hne h

/-! ## Reading -/

theorem get_eq_some (h : t.get p = some r) : r ∈ t ∧ p r = true :=
  ⟨List.mem_of_find?_eq_some h, List.find?_some h⟩

theorem get_eq_none : t.get p = none ↔ ∀ r ∈ t, p r = false := by
  simp [get, mem_rows]

/-- A condition that only one row can meet finds it. -/
theorem get_of_mem (hr : r ∈ t) (hp : p r = true)
    (hu : ∀ r', p r' = true → Row.conflict r' r) : t.get p = some r := by
  cases hg : t.get p with
  | none => simp [get_eq_none.mp hg r hr] at hp
  | some r' =>
    obtain ⟨hr', hp'⟩ := get_eq_some hg
    rw [eq_of_conflict hr' hr (hu r' hp')]

theorem mem_select : r ∈ t.select p ↔ r ∈ t ∧ p r = true := List.mem_filter

/-- A condition that one row of a table meets. -/
theorem select_eq_singleton (hr : r ∈ t) (hp : p r = true) (hrefl : Row.conflict r r)
    (hu : ∀ r' ∈ t, p r' = true → r' = r) : t.select p = [r] := by
  have hall : ∀ r' ∈ t.select p, r' = r := fun r' hr' => by
    obtain ⟨hmem, hp'⟩ := mem_select.mp hr'
    exact hu r' hmem hp'
  have hapart : (t.select p).Pairwise fun r r' => ¬Row.conflict r r' :=
    t.consistent.sublist List.filter_sublist
  have hmem : r ∈ t.select p := mem_select.mpr ⟨hr, hp⟩
  revert hall hapart hmem
  generalize t.select p = found
  intro hall hapart hmem
  match found with
  | [] => exact absurd hmem List.not_mem_nil
  | [r'] => rw [hall r' (.head _)]
  | r' :: r'' :: rest =>
    have hconflict := (List.pairwise_cons.mp hapart).1 r'' (.head _)
    rw [hall r' (.head _), hall r'' (.tail _ (.head _))] at hconflict
    exact absurd hrefl hconflict

/-! ## Writing -/

theorem ext_rows (h : t.rows = t'.rows) : t = t' := by
  cases t
  cases t'
  simpa using h

theorem rows_insert? (h : t.insert? r = some t') : t'.rows = t.rows ++ [r] := by
  unfold insert? at h
  split at h
  · obtain rfl := Option.some.inj h
    rfl
  · cases h

/-- Rows that are inserted come after those that are there. -/
theorem rows_insertAll? {rs : List α} (h : t.insertAll? rs = some t') :
    t'.rows = t.rows ++ rs := by
  induction rs generalizing t with
  | nil =>
    obtain rfl := Option.some.inj h
    exact (List.append_nil _).symm
  | cons r rs ih =>
    obtain ⟨t₁, hfirst, hrest⟩ := Option.bind_eq_some_iff.mp h
    rw [ih hrest, rows_insert? hfirst, List.append_assoc]
    rfl

theorem mem_insertAll? {rs : List α} (h : t.insertAll? rs = some t') {s : α} :
    s ∈ t' ↔ s ∈ t ∨ s ∈ rs := by
  rw [← mem_rows, rows_insertAll? h, List.mem_append, mem_rows]

/-- A row that conflicts with none can be inserted. -/
theorem exists_insert? (h : ∀ r' ∈ t, ¬Row.conflict r' r) : ∃ t', t.insert? r = some t' :=
  ⟨_, dif_pos h⟩

theorem mem_insert? (h : t.insert? r = some t') {s : α} : s ∈ t' ↔ s ∈ t ∨ s = r := by
  rw [← mem_rows, rows_insert? h, List.mem_append, List.mem_singleton, mem_rows]

/-- A row that was inserted conflicts with none that was there. -/
theorem not_conflict_of_insert? (h : t.insert? r = some t') (hr' : r' ∈ t) :
    ¬Row.conflict r' r := by
  unfold insert? at h
  split at h
  case isTrue hc => exact hc r' hr'
  case isFalse => cases h

omit [Row α] in
theorem updateRow_pos (h : p r = true) : updateRow p f r = f r := by simp [updateRow, h]

omit [Row α] in
theorem updateRow_neg (h : p r = false) : updateRow p f r = r := by simp [updateRow, h]

theorem mem_update : r' ∈ t.update p f hf ↔ ∃ r ∈ t, updateRow p f r = r' := List.mem_map

/-- A condition on columns that an update leaves alone finds the same row, updated. -/
theorem get_update {q : α → Bool} (hq : ∀ r, q (f r) = q r) :
    (t.update p f hf).get q = (t.get q).map (updateRow p f) := by
  have hcomp : q ∘ updateRow p f = q := by
    funext r
    simp only [Function.comp, updateRow]
    split
    · exact hq r
    · rfl
  rw [get, update, List.find?_map, hcomp]
  rfl

/-- A condition finds a row that was there, or else the one that was inserted. -/
theorem get_insert? (h : t.insert? r = some t') (q : α → Bool) :
    t'.get q = (t.get q).or (if q r then some r else none) := by
  rw [get, get, rows_insert? h, List.find?_append, List.find?_singleton]

/-- A row that cannot be inserted conflicts with one that is there. -/
theorem conflict_of_insert? (h : t.insert? r = none) : ∃ r' ∈ t, Row.conflict r' r := by
  by_contra hfree
  obtain ⟨t', hinserted⟩ := exists_insert? fun r' hr' hconflict => hfree ⟨r', hr', hconflict⟩
  rw [h] at hinserted
  cases hinserted

/-- What an update makes of a row. -/
theorem updateRow_mem {hrows} (hr : r ∈ t) :
    updateRow p f r ∈ (⟨t.rows.map (updateRow p f), hrows⟩ : Table α) := List.mem_map_of_mem hr

/-- A row after an update was matched and changed, or was there and not matched. -/
theorem mem_update_cases (hf : Keeps p f) (h : r' ∈ t.update p f hf) :
    (∃ r ∈ t, p r = true ∧ r' = f r) ∨ (r' ∈ t ∧ p r' = false) := by
  obtain ⟨r, hr, rfl⟩ := mem_update.mp h
  cases hp : p r with
  | true => exact .inl ⟨r, hr, hp, updateRow_pos hp⟩
  | false =>
    rw [updateRow_neg hp]
    exact .inr ⟨hr, hp⟩

theorem mem_update_of_pos {hrows} (hr : r ∈ t) (hp : p r = true) :
    f r ∈ (⟨t.rows.map (updateRow p f), hrows⟩ : Table α) :=
  List.mem_map.mpr ⟨r, hr, updateRow_pos hp⟩

theorem mem_update_of_neg {hrows} (hr : r ∈ t) (hp : p r = false) :
    r ∈ (⟨t.rows.map (updateRow p f), hrows⟩ : Table α) :=
  List.mem_map.mpr ⟨r, hr, updateRow_neg hp⟩

theorem rowcount_eq_zero : t.rowcount p = 0 ↔ ∀ r ∈ t, p r = false := by
  simp [rowcount, List.countP_eq_zero, mem_rows]

theorem rows_update? (h : t.update? p f = some t') : t'.rows = t.rows.map (updateRow p f) := by
  unfold update? at h
  split at h
  · obtain rfl := Option.some.inj h
    rfl
  · cases h

theorem mem_update? (h : t.update? p f = some t') : r' ∈ t' ↔ ∃ r ∈ t, updateRow p f r = r' := by
  rw [← mem_rows, rows_update? h]
  exact List.mem_map

/-- An update is taken where no two rows conflict after it that did not before. -/
theorem exists_update? (h : ∀ r ∈ t, ∀ r' ∈ t, Row.conflict (updateRow p f r) (updateRow p f r') →
    Row.conflict r r') : ∃ t', t.update? p f = some t' := by
  have hrows : (t.rows.map (updateRow p f)).Pairwise fun r r' => ¬Row.conflict r r' :=
    List.pairwise_map.mpr (t.consistent.imp_of_mem fun hr hr' hn hc => hn (h _ hr _ hr' hc))
  exact ⟨⟨_, hrows⟩, dif_pos hrows⟩

/-- An update that matches no row changes nothing. -/
theorem update_eq_self {hrows} (h : t.rowcount p = 0) :
    (⟨t.rows.map (updateRow p f), hrows⟩ : Table α) = t := by
  have hrow : ∀ r ∈ t.rows, updateRow p f r = id r := fun r hr =>
    updateRow_neg (rowcount_eq_zero.mp h r hr)
  cases t
  simp only [update, List.map_congr_left hrow, List.map_id]

/-- The row that a successful update matches. -/
theorem exists_of_rowcount_eq_one (h : t.rowcount p = 1) : ∃ r ∈ t, p r = true := by
  have hpos : 0 < t.rows.countP p := by unfold rowcount at h; omega
  obtain ⟨r, hr, hp⟩ := List.countP_pos_iff.mp hpos
  exact ⟨r, hr, hp⟩

/-- An update whose condition conflicting rows alone can share matches one row or none. -/
theorem rowcount_le_one (hu : ∀ r r', p r = true → p r' = true → Row.conflict r r') :
    t.rowcount p ≤ 1 := by
  obtain ⟨rows, hc⟩ := t
  unfold rowcount
  induction rows with
  | nil => simp
  | cons r rows ih =>
    obtain ⟨hr, hrest⟩ := List.pairwise_cons.mp hc
    cases hp : p r with
    | false => simpa [hp] using ih hrest
    | true =>
      have hzero : rows.countP p = 0 :=
        List.countP_eq_zero.mpr fun r' hr' hp' => hr r' hr' (hu r r' hp hp')
      simp [hp, hzero]

theorem mem_delete : r ∈ t.delete p ↔ r ∈ t ∧ p r = false := by
  rw [← mem_rows, delete, List.mem_filter, mem_rows]
  simp

/-! ## What a selection finds later -/

theorem select_delete {q : α → Bool} (h : ∀ r ∈ t, q r = true → p r = false) :
    (t.delete p).select q = t.select q := by
  show (t.rows.filter fun r => !p r).filter q = t.rows.filter q
  rw [List.filter_filter]
  refine List.filter_congr fun r hr => ?_
  cases hq : q r with
  | true => simp [h r hr hq]
  | false => rfl

theorem select_update {q : α → Bool} {hrows}
    (h : ∀ r, p r = true → q r = false ∧ q (f r) = false) :
    (⟨t.rows.map (updateRow p f), hrows⟩ : Table α).select q = t.select q := by
  show (t.rows.map (updateRow p f)).filter q = t.rows.filter q
  induction t.rows with
  | nil => rfl
  | cons r rows ih =>
    rw [List.map_cons, List.filter_cons, List.filter_cons, ih]
    cases hp : p r with
    | true => rw [updateRow_pos hp, (h r hp).1, (h r hp).2, if_neg Bool.false_ne_true,
        if_neg Bool.false_ne_true]
    | false => rw [updateRow_neg hp]

theorem select_eq_nil {q : α → Bool} (h : ∀ r ∈ t, q r = false) : t.select q = [] :=
  List.filter_eq_nil_iff.mpr fun r hr => by simp [h r hr]

theorem select_insert? {q : α → Bool} (h : t.insert? r = some t') (hq : q r = false) :
    t'.select q = t.select q := by
  show t'.rows.filter q = t.rows.filter q
  rw [rows_insert? h, List.filter_append, List.filter_cons_of_neg (by simp [hq]), List.filter_nil,
    List.append_nil]

theorem select_insertAll? {q : α → Bool} {rs : List α} (h : t.insertAll? rs = some t')
    (hq : ∀ r ∈ rs, q r = false) : t'.select q = t.select q := by
  have hnone : rs.filter q = [] := List.filter_eq_nil_iff.mpr fun r hr => by simp [hq r hr]
  show t'.rows.filter q = t.rows.filter q
  rw [rows_insertAll? h, List.filter_append, hnone, List.append_nil]

/-- The rows that are inserted are what is selected, where nothing was before. -/
theorem select_insertAll?_eq {q : α → Bool} {rs : List α} (h : t.insertAll? rs = some t')
    (hold : ∀ r ∈ t, q r = false) (hq : ∀ r ∈ rs, q r = true) : t'.select q = rs := by
  have hnone : t.rows.filter q = [] := select_eq_nil hold
  show t'.rows.filter q = rs
  rw [rows_insertAll? h, List.filter_append, hnone, List.nil_append, List.filter_eq_self.mpr hq]

theorem select_insert?_eq {q : α → Bool} (h : t.insert? r = some t') (hold : ∀ r ∈ t, q r = false)
    (hq : q r = true) : t'.select q = [r] := by
  have hnone : t.rows.filter q = [] := select_eq_nil hold
  show t'.rows.filter q = [r]
  rw [rows_insert? h, List.filter_append, hnone, List.nil_append, List.filter_cons_of_pos hq,
    List.filter_nil]

/-! ## Inserting or ignoring -/

/-- A row that was not there is the new one, and nothing conflicted with it. -/
theorem mem_insertOrIgnore_cases {s : α} (h : s ∈ t.insertOrIgnore r) :
    s ∈ t ∨ s = r ∧ ∀ r' ∈ t, ¬Row.conflict r' r := by
  unfold insertOrIgnore at h
  cases hinsert : t.insert? r with
  | none =>
    rw [hinsert] at h
    exact .inl h
  | some t' =>
    rw [hinsert] at h
    rcases (mem_insert? hinsert).mp h with hs | rfl
    · exact .inl hs
    · exact .inr ⟨rfl, fun r' hr' => not_conflict_of_insert? hinsert hr'⟩

theorem mem_insertOrIgnore {s : α} (h : s ∈ t.insertOrIgnore r) : s ∈ t ∨ s = r :=
  (mem_insertOrIgnore_cases h).imp_right And.left

theorem mem_insertOrIgnore_of_mem {s : α} (h : s ∈ t) : s ∈ t.insertOrIgnore r := by
  unfold insertOrIgnore
  cases hinsert : t.insert? r with
  | none => exact h
  | some t' => exact (mem_insert? hinsert).mpr (.inl h)

/-- A row is inserted, or there is one with its key. -/
theorem insertUnless_eq_some [DecidableEq κ] {key : α → κ} {inserted : Bool} :
    t.insertUnless key r = some (t', inserted) ↔
      (inserted = false ∧ t' = t ∧ ∃ r' ∈ t, key r' = key r) ∨
        (inserted = true ∧ t.insert? r = some t' ∧ ∀ r' ∈ t, key r' ≠ key r) := by
  unfold insertUnless
  by_cases hfound : ∃ r' ∈ t, key r' = key r
  · have hsome : (t.get fun r' => key r' = key r).isSome = true := by
      rw [Option.isSome_iff_ne_none]
      intro hnone
      obtain ⟨r', hr', hkey⟩ := hfound
      exact absurd (decide_eq_true hkey) (by rw [get_eq_none.mp hnone r' hr']; decide)
    rw [if_pos hsome]
    constructor
    · intro h
      obtain ⟨rfl, rfl⟩ := Prod.mk.inj (Option.some.inj h)
      exact .inl ⟨rfl, rfl, hfound⟩
    · rintro (⟨rfl, rfl, -⟩ | ⟨-, -, hnew⟩)
      · rfl
      · obtain ⟨r', hr', hkey⟩ := hfound
        exact absurd hkey (hnew r' hr')
  · have hnone : (t.get fun r' => key r' = key r).isSome = false := by
      rw [Option.isSome_eq_false_iff, Option.isNone_iff_eq_none, get_eq_none]
      intro r' hr'
      exact decide_eq_false fun hkey => hfound ⟨r', hr', hkey⟩
    rw [if_neg (by simp [hnone])]
    simp only [Option.map_eq_some_iff, Prod.mk.injEq]
    constructor
    · rintro ⟨_, hinsert, rfl, rfl⟩
      exact .inr ⟨rfl, hinsert, fun r' hr' hkey => hfound ⟨r', hr', hkey⟩⟩
    · rintro (⟨-, -, hthere⟩ | ⟨rfl, hinsert, -⟩)
      · exact absurd hthere hfound
      · exact ⟨t', hinsert, rfl, rfl⟩

theorem foundIn_iff [DecidableEq κ] {key : α → κ} {seen : Table α} :
    foundIn key seen p r = true ↔ p r = true ∧ ∃ r' ∈ seen, key r' = key r ∧ p r' = true := by
  simp only [foundIn, Bool.and_eq_true, List.any_eq_true, decide_eq_true_eq]
  rfl

/-- A statement that looks for its rows in the table that it writes finds all of them. -/
theorem foundIn_self [DecidableEq κ] {key : α → κ} (hr : r ∈ t) : foundIn key t p r = p r := by
  rw [Bool.eq_iff_iff, foundIn_iff]
  exact ⟨fun h => h.1, fun h => ⟨h, r, hr, rfl, h⟩⟩

/-- An update of a row by its key succeeds where the row meets the condition. -/
theorem rowcount_eq_one (hu : ∀ r r', p r = true → p r' = true → Row.conflict r r')
    (hr : r ∈ t) (hp : p r = true) : t.rowcount p = 1 := by
  have hle : t.rowcount p ≤ 1 := rowcount_le_one hu
  have hpos : 0 < t.rows.countP p := List.countP_pos_iff.mpr ⟨r, hr, hp⟩
  unfold rowcount at *
  omega

/-! ## Rows that belong to something -/

/-- A row belongs to `b`, the one with the key `k`. -/
def Belongs {κ β : Type*} (key : α → κ) (owner : α → β) (k : κ) (b : β) (t : Table α) : Prop :=
  ∃ r ∈ t.rows, key r = k ∧ owner r = b

section Belongs

variable {β : Type*} {key : α → κ} {owner : α → β} {k : κ} {b : β}

instance [DecidableEq κ] [DecidableEq β] : Decidable (t.Belongs key owner k b) :=
  inferInstanceAs (Decidable (∃ r ∈ t.rows, _))

theorem Belongs.of_insert? (hb : t'.Belongs key owner k b) (h : t.insert? r = some t') :
    t.Belongs key owner k b ∨ owner r = b := by
  obtain ⟨s, hs, hkey, howner⟩ := hb
  rcases (mem_insert? h).mp hs with hold | rfl
  · exact .inl ⟨s, hold, hkey, howner⟩
  · exact .inr howner

theorem Belongs.of_insertOrIgnore (hb : (t.insertOrIgnore r).Belongs key owner k b) :
    t.Belongs key owner k b ∨ owner r = b := by
  obtain ⟨s, hs, hkey, howner⟩ := hb
  rcases mem_insertOrIgnore hs with hold | rfl
  · exact .inl ⟨s, hold, hkey, howner⟩
  · exact .inr howner

theorem Belongs.of_delete (hb : (t.delete p).Belongs key owner k b) : t.Belongs key owner k b := by
  obtain ⟨s, hs, hkey, howner⟩ := hb
  exact ⟨s, (mem_delete.mp hs).1, hkey, howner⟩

/-- A row that is updated keeps its owner or gets a new one. -/
theorem Belongs.of_rows (hb : t'.Belongs key owner k b)
    (ht : t'.rows = t.rows.map (updateRow p f)) (hkey : ∀ r, key (f r) = key r) :
    ∃ r ∈ t, key r = k ∧ (p r = true ∧ owner (f r) = b ∨ p r = false ∧ owner r = b) := by
  obtain ⟨s, hs, hk, howner⟩ := hb
  rw [ht] at hs
  obtain ⟨r, hr, rfl⟩ := List.mem_map.mp hs
  refine ⟨r, hr, ?_⟩
  cases hp : p r with
  | true =>
    rw [updateRow_pos hp] at hk howner
    exact ⟨(hkey r).symm.trans hk, .inl ⟨rfl, howner⟩⟩
  | false =>
    rw [updateRow_neg hp] at hk howner
    exact ⟨hk, .inr ⟨rfl, howner⟩⟩

theorem Belongs.of_rewritten (hb : t'.Belongs key owner k b)
    (ht : t'.rows = t.rows.map (updateRow p f)) (hkey : ∀ r, key (f r) = key r)
    (howner : ∀ r, owner (f r) = owner r) : t.Belongs key owner k b := by
  obtain ⟨r, hr, hk, ⟨-, hb⟩ | ⟨-, hb⟩⟩ := hb.of_rows ht hkey
  · exact ⟨r, hr, hk, (howner r).symm.trans hb⟩
  · exact ⟨r, hr, hk, hb⟩

/-- A statement that moves what it finds of `b₀` to `b₁` leaves with `b₀` only what it did not find. -/
theorem Belongs.of_moved [DecidableEq κ] [DecidableEq β] {seen : Table α} {b₀ b₁ : β}
    (hb : t'.Belongs key owner k b)
    (ht : t'.rows = t.rows.map (updateRow (foundIn key seen fun r => owner r = b₀) f))
    (hkey : ∀ r, key (f r) = key r) (howner : ∀ r, owner (f r) = b₁) :
    b = b₁ ∨ t.Belongs key owner k b ∧ ¬(b = b₀ ∧ seen.Belongs key owner k b₀) := by
  obtain ⟨r, hr, hk, ⟨-, hb⟩ | ⟨hout, hb⟩⟩ := hb.of_rows ht hkey
  · exact .inl (hb.symm.trans (howner r))
  · refine .inr ⟨⟨r, hr, hk, hb⟩, ?_⟩
    rintro ⟨rfl, r₀, hr₀, hk₀, hb₀⟩
    have hin : foundIn key seen (fun r => decide (owner r = b)) r = true :=
      foundIn_iff.mpr ⟨decide_eq_true hb, r₀, hr₀, hk₀.trans hk.symm, decide_eq_true hb₀⟩
    rw [hin] at hout
    cases hout

end Belongs

/-! ## The rows of a kind -/

section Kind

variable {kind : α → Prop} {t'' : Table α}

/-- All rows are of a kind where the old ones are, and a new one. -/
theorem forall_insert? (ht : ∀ r ∈ t, kind r) (h : t.insert? r = some t') (hr : kind r) :
    ∀ r ∈ t', kind r := by
  intro s hs
  rcases (mem_insert? h).mp hs with hold | rfl
  · exact ht s hold
  · exact hr

theorem forall_insertOrIgnore (ht : ∀ r ∈ t, kind r) (hr : kind r) :
    ∀ s ∈ t.insertOrIgnore r, kind s := by
  intro s hs
  rcases mem_insertOrIgnore hs with hold | heq
  · exact ht s hold
  · rwa [heq]

theorem forall_of_rows (ht : ∀ r ∈ t, kind r) (h : t'.rows = t.rows.map (updateRow p f))
    (hf : ∀ r ∈ t, p r = true → kind (f r)) : ∀ r ∈ t', kind r := by
  intro s hs
  obtain ⟨r, hr, rfl⟩ : ∃ r ∈ t.rows, updateRow p f r = s := by
    rw [← List.mem_map, ← h]
    exact hs
  cases hp : p r with
  | true =>
    rw [updateRow_pos hp]
    exact hf r hr hp
  | false =>
    rw [updateRow_neg hp]
    exact ht r hr

theorem forall_delete (ht : ∀ r ∈ t, kind r) : ∀ r ∈ t.delete p, kind r := fun r hr =>
  ht r (mem_delete.mp hr).1

/-- Every query for rows of a kind finds the same in two states of a table, and in the same order. -/
def SameOn (kind : α → Prop) (t t' : Table α) : Prop :=
  ∀ q : α → Bool, (∀ r, q r = true → kind r) → t'.select q = t.select q

theorem SameOn.refl (t : Table α) : SameOn kind t t := fun _ _ => rfl

theorem SameOn.symm (h : SameOn kind t t') : SameOn kind t' t := fun q hq => (h q hq).symm

theorem SameOn.trans (h : SameOn kind t t') (h' : SameOn kind t' t'') : SameOn kind t t'' :=
  fun q hq => (h' q hq).trans (h q hq)

/-- The rows of the kind are the same. -/
theorem SameOn.mem_iff (h : SameOn kind t t') (hr : kind r) : r ∈ t' ↔ r ∈ t := by
  classical
  have hq := h (fun s => s = r) fun s hs => (of_decide_eq_true hs).symm ▸ hr
  have hmem : ∀ t : Table α, r ∈ t.select (fun s => s = r) ↔ r ∈ t := fun t => by
    rw [mem_select, and_iff_left (decide_eq_true rfl)]
  rw [← hmem t', hq, hmem t]

theorem SameOn.select_eq (h : SameOn kind t t') {q : α → Bool} (hq : ∀ r, q r = true → kind r) :
    t'.select q = t.select q := h q hq

theorem SameOn.get_eq (h : SameOn kind t t') {q : α → Bool} (hq : ∀ r, q r = true → kind r) :
    t'.get q = t.get q := by
  unfold Table.get
  rw [← List.head?_filter, ← List.head?_filter]
  exact congrArg List.head? (h q hq)

theorem SameOn.any_eq (h : SameOn kind t t') {q : α → Bool} (hq : ∀ r, q r = true → kind r) :
    t'.rows.any q = t.rows.any q := by
  rw [Bool.eq_iff_iff, List.any_eq_true, List.any_eq_true]
  refine exists_congr fun r => and_congr_left fun hr => ?_
  exact h.mem_iff (hq r hr)

theorem SameOn.insert? (h : t.insert? r = some t') (hr : ¬kind r) : SameOn kind t t' := by
  intro q hq
  have hqr : q r = false := Bool.eq_false_iff.mpr fun hqr => hr (hq r hqr)
  unfold select
  rw [rows_insert? h, List.filter_append, List.filter_singleton, hqr]
  exact List.append_nil _

theorem SameOn.insertOrIgnore (hr : ¬kind r) : SameOn kind t (t.insertOrIgnore r) := by
  unfold Table.insertOrIgnore
  cases hinsert : t.insert? r with
  | none => exact .refl t
  | some t' => exact .insert? hinsert hr

theorem SameOn.delete (hp : ∀ r ∈ t, p r = true → ¬kind r) : SameOn kind t (t.delete p) := by
  intro q hq
  unfold select Table.delete
  rw [List.filter_filter]
  refine List.filter_congr fun r hr => ?_
  cases hqr : q r with
  | false => rfl
  | true =>
    cases hpr : p r with
    | false => rfl
    | true => exact absurd (hq r hqr) (hp r hr hpr)

/-- A statement that rewrites no row of the kind, and makes none of the kind. -/
theorem SameOn.of_rows (h : t'.rows = t.rows.map (updateRow p f))
    (hp : ∀ r ∈ t, p r = true → ¬kind r ∧ ¬kind (f r)) : SameOn kind t t' := by
  intro q hq
  have hnot : ∀ r, ¬kind r → q r = false := fun r hr =>
    Bool.eq_false_iff.mpr fun hqr => hr (hq r hqr)
  have hrows : ∀ rows : List α, (∀ r ∈ rows, p r = true → ¬kind r ∧ ¬kind (f r)) →
      (rows.map (updateRow p f)).filter q = rows.filter q := by
    intro rows
    induction rows with
    | nil => exact fun _ => rfl
    | cons r rows ih =>
      intro hp
      obtain ⟨hr, hrest⟩ := List.forall_mem_cons.mp hp
      rw [List.map_cons, List.filter_cons, List.filter_cons, ih hrest]
      cases hpr : p r with
      | true =>
        rw [updateRow_pos hpr, hnot r (hr hpr).1, hnot (f r) (hr hpr).2]
        rfl
      | false => rw [updateRow_neg hpr]
  unfold select
  rw [h]
  exact hrows t.rows hp

end Kind

/-! ## Leaving columns out -/

/-- A change of every row that no unique constraint looks at. -/
def Neutral (g : α → α) : Prop := ∀ r r' : α, Row.conflict (g r) (g r') ↔ Row.conflict r r'

/-- The table with every row changed by `g`. -/
def map (g : α → α) (hg : Neutral g) (t : Table α) : Table α :=
  ⟨t.rows.map g, List.pairwise_map.mpr (t.consistent.imp fun hn => mt (hg _ _).mp hn)⟩

variable {g : α → α} {hg : Neutral g}

theorem mem_map {s : α} : s ∈ t.map g hg ↔ ∃ r ∈ t, g r = s := List.mem_map

theorem rowcount_map (hp : ∀ r, p (g r) = p r) : (t.map g hg).rowcount p = t.rowcount p := by
  have hcomp : p ∘ g = p := funext hp
  simp only [rowcount, map, List.countP_map, hcomp]

/-- An update whose condition and values do not look at what `g` changes. -/
theorem map_update {f' : α → α} {hf' : Keeps p f'} (hp : ∀ r, p (g r) = p r)
    (hcomm : ∀ r, g (f r) = f' (g r)) :
    (t.update p f hf).map g hg = (t.map g hg).update p f' hf' := by
  have hrow : ∀ r, g (updateRow p f r) = updateRow p f' (g r) := by
    intro r
    unfold updateRow
    rw [hp]
    split
    case isTrue => exact hcomm r
    case isFalse => rfl
  simp only [map, update, List.map_map, mk.injEq]
  exact List.map_congr_left fun r _ => hrow r

theorem insert?_map (h : t.insert? r = some t') :
    (t.map g hg).insert? (g r) = some (t'.map g hg) := by
  have hfree : ∀ s ∈ t.map g hg, ¬Row.conflict s (g r) := by
    intro s hs
    obtain ⟨r', hr', rfl⟩ := mem_map.mp hs
    exact mt (hg _ _).mp (not_conflict_of_insert? h hr')
  obtain ⟨u, hu⟩ := exists_insert? hfree
  rw [hu]
  exact congrArg some (ext_rows (by simp [rows_insert? hu, map, rows_insert? h]))

/-! ## Later states of a table -/

/-- Every row is replaced by a row that `R` relates it to. -/
def Moves (R : α → α → Prop) (t t' : Table α) : Prop :=
  ∃ g : α → α, t'.rows = t.rows.map g ∧ ∀ r ∈ t, R r (g r)

variable {key : α → κ} {R : α → α → Prop}

theorem Moves.refl (hR : ∀ r, R r r) (t : Table α) : Moves R t t :=
  ⟨id, by simp, fun r _ => hR r⟩

/-- An update moves the rows that it matches. -/
theorem Moves.update {hrows} (hR : ∀ r, R r r) (h : ∀ r ∈ t, p r = true → R r (f r)) :
    Moves R t ⟨t.rows.map (updateRow p f), hrows⟩ := by
  refine ⟨updateRow p f, rfl, fun r hr => ?_⟩
  cases hp : p r with
  | true => rw [updateRow_pos hp]; exact h r hr hp
  | false => rw [updateRow_neg hp]; exact hR r

/-- What an update makes of each row. -/
theorem Moves.update_cases {hrows} :
    Moves (fun r r' => p r = true ∧ r' = f r ∨ p r = false ∧ r' = r) t
      ⟨t.rows.map (updateRow p f), hrows⟩ := by
  refine ⟨updateRow p f, rfl, fun r _ => ?_⟩
  cases hp : p r with
  | true => exact .inl ⟨hp, updateRow_pos hp⟩
  | false => exact .inr ⟨hp, updateRow_neg hp⟩

theorem Moves.imp {S : α → α → Prop} (h : Moves R t t') (hS : ∀ r r', R r r' → S r r') :
    Moves S t t' := by
  obtain ⟨g, hg, hR⟩ := h
  exact ⟨g, hg, fun r hr => hS _ _ (hR r hr)⟩

theorem Moves.trans {Q S : α → α → Prop} {t'' : Table α} (h : Moves R t t')
    (h' : Moves Q t' t'') (hS : ∀ r₁ r₂ r₃, R r₁ r₂ → Q r₂ r₃ → S r₁ r₃) : Moves S t t'' := by
  obtain ⟨g, hg, hR⟩ := h
  obtain ⟨g', hg', hQ⟩ := h'
  refine ⟨g' ∘ g, by rw [hg', hg, List.map_map], fun r hr => hS _ _ _ (hR r hr) (hQ _ ?_)⟩
  rw [← mem_rows, hg]
  exact List.mem_map_of_mem hr

/-- The row that a row comes from. -/
theorem Moves.mem (h : Moves R t t') (hr' : r' ∈ t') : ∃ r ∈ t, R r r' := by
  obtain ⟨g, hg, hR⟩ := h
  rw [← mem_rows, hg] at hr'
  obtain ⟨r, hr, rfl⟩ := List.mem_map.mp hr'
  exact ⟨r, hr, hR r hr⟩

/-- The row that becomes of a row. -/
theorem Moves.exists_mem (h : Moves R t t') (hr : r ∈ t) : ∃ r' ∈ t', R r r' := by
  obtain ⟨g, hg, hR⟩ := h
  refine ⟨g r, ?_, hR r hr⟩
  rw [← mem_rows, hg]
  exact List.mem_map_of_mem hr

/-- Every row of a table has a later version, under the same key and related to it by `R`, in
another state of the table, which may have more rows. -/
def Evolves (key : α → κ) (R : α → α → Prop) (t t' : Table α) : Prop :=
  ∀ r ∈ t, ∃ r' ∈ t', key r' = key r ∧ R r r'

theorem Evolves.refl (hR : ∀ r, R r r) (t : Table α) : Evolves key R t t :=
  fun r hr => ⟨r, hr, rfl, hR r⟩

theorem Evolves.trans (hR : ∀ r₁ r₂ r₃, R r₁ r₂ → R r₂ r₃ → R r₁ r₃) {t₁ t₂ t₃ : Table α}
    (h : Evolves key R t₁ t₂) (h' : Evolves key R t₂ t₃) : Evolves key R t₁ t₃ := by
  intro r hr
  obtain ⟨r', hr', hk, hR1⟩ := h r hr
  obtain ⟨r'', hr'', hk', hR2⟩ := h' r' hr'
  exact ⟨r'', hr'', hk'.trans hk, hR _ _ _ hR1 hR2⟩

/-- Inserting a row leaves the others as they are. -/
theorem Evolves.insert? (hR : ∀ r, R r r) (h : t.insert? r = some t') : Evolves key R t t' :=
  fun s hs => ⟨s, (mem_insert? h).mpr (.inl hs), rfl, hR s⟩

theorem Moves.evolves {S : α → α → Prop} (h : Moves S t t')
    (hS : ∀ r r', S r r' → key r' = key r ∧ R r r') : Evolves key R t t' := by
  intro r hr
  obtain ⟨r', hr', hs⟩ := h.exists_mem hr
  exact ⟨r', hr', hS r r' hs⟩

/-- A statement that rewrites rows leaves each one under its key. -/
theorem Evolves.of_rows (h : t'.rows = t.rows.map (updateRow p f))
    (hf : ∀ r, key (f r) = key r ∧ R r (f r)) (hR : ∀ r, R r r) : Evolves key R t t' := by
  have hmoves : Moves (fun r r' => key r' = key r ∧ R r r') t t' := by
    refine ⟨updateRow p f, h, fun r _ => ?_⟩
    cases hp : p r with
    | true =>
      rw [updateRow_pos hp]
      exact hf r
    | false =>
      rw [updateRow_neg hp]
      exact ⟨rfl, hR r⟩
  exact hmoves.evolves fun _ _ h => h

end Table

/-!
## Loading a table at once

`INSERT INTO … SELECT` into a table without rows, and a change of a column's type, which builds the table
and its indexes again. The statement is refused as a whole where two of the rows conflict.
-/

namespace Table

variable {α β : Type*} [Row α] [Row β]

/-- The table of the rows, where they meet the unique constraints. -/
def load? (rs : List α) : Option (Table α) :=
  if h : rs.Pairwise fun r r' => ¬Row.conflict r r' then some ⟨rs, h⟩ else none

theorem rows_load? {rs : List α} {t : Table α} (h : load? rs = some t) : t.rows = rs := by
  unfold load? at h
  split at h
  · rw [← Option.some.inj h]
  · cases h

/-- Rows can be loaded if and only if no two of them conflict. -/
theorem exists_load?_iff {rs : List α} :
    (∃ t, load? rs = some t) ↔ rs.Pairwise fun r r' => ¬Row.conflict r r' := by
  unfold load?
  split
  · next h => exact ⟨fun _ => h, fun _ => ⟨_, rfl⟩⟩
  · next h =>
    refine ⟨?_, fun hpairs => absurd hpairs h⟩
    rintro ⟨_, hload⟩
    cases hload

/-- Rows that are made of the rows of a table can be loaded where two of them conflict only if those do that
they are made of. -/
theorem exists_load?_map (t : Table α) {f : α → β}
    (h : ∀ r ∈ t.rows, ∀ r' ∈ t.rows, Row.conflict (f r) (f r') → Row.conflict r r') :
    ∃ t', load? (t.rows.map f) = some t' := by
  refine exists_load?_iff.mpr (List.pairwise_map.mpr ?_)
  exact t.consistent.imp_of_mem fun hr hr' hne hc => hne (h _ hr _ hr' hc)

/-- The rows of a table, loaded, conflict only where they are one row. -/
theorem eq_of_load? {rs : List α} {t : Table α} (h : load? rs = some t) {r r' : α} (hr : r ∈ rs)
    (hr' : r' ∈ rs) (hc : Row.conflict r r') : r = r' :=
  t.eq_of_conflict (by rw [← mem_rows, rows_load? h]; exact hr)
    (by rw [← mem_rows, rows_load? h]; exact hr') hc

end Table
