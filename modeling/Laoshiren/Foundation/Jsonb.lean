import Mathlib.Data.String.Basic
import Laoshiren.Foundation.Json

/-!
# JSONB in statements

What the operators and functions of a database make of a JSON value: the text of a field, and an object
without its fields that are `null`.
-/

namespace Json

mutual

/-- `jsonb_strip_nulls`: the items of an array stay, the fields of an object that are `null` go. -/
def stripNulls : Json → Json
  | .arr items => .arr (stripItems items)
  | .obj fields => .obj (stripFields fields)
  | v => v

/-- `jsonb_strip_nulls` on each item of an array. -/
def stripItems : List Json → List Json
  | [] => []
  | v :: vs => stripNulls v :: stripItems vs

/-- `jsonb_strip_nulls` on the fields of an object. -/
def stripFields : List (String × Json) → List (String × Json)
  | [] => []
  | (k, v) :: fields => if v.isNone then stripFields fields else (k, stripNulls v) :: stripFields fields

end

end Json

namespace Dict

/-- `fields->>key`: `text` is how a value that is not a text is written. -/
def textAt (text : Json → String) (d : Dict) (key : String) : Option String :=
  match d.get key with
  | some (.str s) => some s
  | some .null | none => none
  | some v => some (text v)

/-- `jsonb_strip_nulls` on an object. -/
def stripNulls (d : Dict) : Dict := Json.stripFields d

/-- A field whose value is not `null` stays. -/
theorem get_stripNulls {d : Dict} {key : String} {v : Json} (h : d.get key = some v)
    (hv : v.isNone = false) : d.stripNulls.get key = some v.stripNulls := by
  induction d with
  | nil => cases h
  | cons field d ih =>
    obtain ⟨k, w⟩ := field
    unfold stripNulls Json.stripFields
    unfold get at h
    rw [List.lookup_cons] at h
    by_cases hk : key = k
    · rw [hk, beq_self_eq_true] at h
      obtain rfl := Option.some.inj h
      rw [hv, hk]
      exact List.lookup_cons_self
    · rw [beq_false_of_ne hk] at h
      have hrest := ih h
      split
      · exact hrest
      · unfold get
        rw [List.lookup_cons, beq_false_of_ne hk]
        exact hrest

/-- A field that is only ever `null` goes. -/
theorem get_stripNulls_of_null {d : Dict} {key : String}
    (h : ∀ v, (key, v) ∈ d → v.isNone = true) : d.stripNulls.get key = none := by
  induction d with
  | nil => rfl
  | cons field d ih =>
    obtain ⟨k, w⟩ := field
    have hrest := ih fun v hv => h v (.tail _ hv)
    unfold stripNulls Json.stripFields
    split
    · exact hrest
    · next hw =>
      have hk : key ≠ k := by
        rintro rfl
        exact hw (h w (.head _))
      unfold get
      rw [List.lookup_cons, beq_false_of_ne hk]
      exact hrest

/-! ## Keys in order -/

/-- The keys of a dictionary are in order, so that no two of its fields have one key. -/
def SortedKeys (d : Dict) : Prop := d.Pairwise fun field field' => field.1 < field'.1

/-- Fields in order are read whichever way they are looked through. -/
theorem SortedKeys.get_of_mem {d : Dict} (h : d.SortedKeys) {key : String} {v : Json}
    (hmem : (key, v) ∈ d) : d.get key = some v := by
  induction d with
  | nil => cases hmem
  | cons field d ih =>
    obtain ⟨hbelow, hrest⟩ := List.pairwise_cons.mp h
    rcases List.mem_cons.mp hmem with rfl | hmem
    · exact List.lookup_cons_self
    · have hne : key ≠ field.1 := by
        intro hkey
        have hlt := hbelow _ hmem
        rw [← hkey] at hlt
        exact String.lt_irrefl key hlt
      unfold get
      rw [List.lookup_cons, beq_false_of_ne hne]
      exact ih hrest hmem

theorem mem_of_lookup {fields : List (String × Json)} {key : String} {v : Json}
    (h : fields.lookup key = some v) : (key, v) ∈ fields := by
  induction fields with
  | nil => cases h
  | cons field fields ih =>
    rw [List.lookup_cons] at h
    split at h
    · next heq =>
      obtain rfl := Option.some.inj h
      rw [eq_of_beq heq]
      exact .head _
    · exact .tail _ (ih h)

/-- A field of a merged dictionary is that of the second, or else that of the first. -/
theorem get_merge_of_sortedKeys {other : Dict} (h : other.SortedKeys) (d : Dict) (key : String) :
    (d.merge other).get key = (other.get key).or (d.get key) := by
  rw [get_merge]
  congr 1
  cases hget : other.reverse.lookup key with
  | some v => exact (h.get_of_mem (List.mem_reverse.mp (mem_of_lookup hget))).symm
  | none =>
    refine (List.lookup_eq_none_iff.mpr fun field hfield => ?_).symm
    exact List.lookup_eq_none_iff.mp hget field (List.mem_reverse.mpr hfield)

/-- What is left of a dictionary behind the place of a key. -/
theorem SortedKeys.lt_of_mem_dropWhile {d : Dict} (h : d.SortedKeys) {key : String}
    {field : String × Json}
    (hmem : field ∈ (d.dropWhile fun field => field.1 < key).dropWhile fun field => field.1 = key) :
    key < field.1 := by
  induction d with
  | nil => cases hmem
  | cons first d ih =>
    obtain ⟨hbelow, hrest⟩ := List.pairwise_cons.mp h
    by_cases hlt : first.1 < key
    · rw [List.dropWhile_cons_of_pos (by simpa using hlt)] at hmem
      exact ih hrest hmem
    · rw [List.dropWhile_cons_of_neg (by simpa using hlt)] at hmem
      by_cases heq : first.1 = key
      · rw [List.dropWhile_cons_of_pos (by simpa using heq)] at hmem
        rw [← heq]
        exact hbelow field ((List.dropWhile_sublist _).subset hmem)
      · rw [List.dropWhile_cons_of_neg (by simpa using heq)] at hmem
        have hkey : key < first.1 := lt_of_le_of_ne (not_lt.mp hlt) (Ne.symm heq)
        rcases List.mem_cons.mp hmem with rfl | hmem
        · exact hkey
        · exact lt_trans hkey (hbelow field hmem)

/-- Setting a field keeps the keys in order. -/
theorem SortedKeys.set {d : Dict} (h : d.SortedKeys) (key : String) (value : Json) :
    (d.set key value).SortedKeys := by
  have hbefore : ∀ field ∈ d.takeWhile fun field => field.1 < key, field.1 < key :=
    fun field hfield => by simpa using List.all_eq_true.mp List.all_takeWhile field hfield
  refine List.pairwise_append.mpr ⟨h.sublist (List.takeWhile_sublist _), ?_, ?_⟩
  · exact List.pairwise_cons.mpr ⟨fun field hfield => h.lt_of_mem_dropWhile hfield,
      (h.sublist (List.dropWhile_sublist _)).sublist (List.dropWhile_sublist _)⟩
  · intro field hfield field' hfield'
    rcases List.mem_cons.mp hfield' with rfl | hfield'
    · exact hbefore field hfield
    · exact lt_trans (hbefore field hfield) (h.lt_of_mem_dropWhile hfield')

theorem SortedKeys.merge {d : Dict} (h : d.SortedKeys) (other : List (String × Json)) :
    (d.merge other).SortedKeys := by
  induction other generalizing d with
  | nil => exact h
  | cons field other ih => exact ih (h.set field.1 field.2)

theorem sortedKeys_ofFields (fields : List (String × Json)) : (ofFields fields).SortedKeys :=
  SortedKeys.merge .nil fields

/-- A field that is `null` or missing is missing after `jsonb_strip_nulls`. -/
theorem SortedKeys.get_stripNulls_of_null {d : Dict} (h : d.SortedKeys) {key : String}
    (hnull : d.get key = some .null) : d.stripNulls.get key = none := by
  refine Dict.get_stripNulls_of_null fun v hv => ?_
  obtain rfl := Option.some.inj ((h.get_of_mem hv).symm.trans hnull)
  rfl

end Dict
