import Mathlib.Data.List.Forall2
import Laoshiren.Foundation.Json

/-!
# The text of a JSON value

`json.dumps(value, ensure_ascii=False)`, for any way to print numbers, and its length: the text of a
value gets no longer when fields or items are taken out of it or replaced by shorter ones.
-/

namespace Json

/-- A character of a string. -/
def escape (c : Char) : List Char :=
  match c.toNat with
  | 0x22 => ['\\', '"']
  | 0x5C => ['\\', '\\']
  | 0x0A => ['\\', 'n']
  | 0x0D => ['\\', 'r']
  | 0x09 => ['\\', 't']
  | 0x08 => ['\\', 'b']
  | 0x0C => ['\\', 'f']
  | n =>
    if n < 32 then ['\\', 'u', '0', '0', Nat.digitChar (n / 16), Nat.digitChar (n % 16)] else [c]

def quote (text : String) : List Char := '"' :: text.toList.flatMap escape ++ ['"']

/-- The texts with commas between them. -/
def joined : List (List Char) → List Char
  | [] => []
  | [text] => text
  | text :: next :: texts => text ++ [',', ' '] ++ joined (next :: texts)

mutual

def dumps (num : ℚ → List Char) : Json → List Char
  | .null => ['n', 'u', 'l', 'l']
  | .bool true => ['t', 'r', 'u', 'e']
  | .bool false => ['f', 'a', 'l', 's', 'e']
  | .num q => num q
  | .str text => quote text
  | .arr items => '[' :: joined (itemTexts num items) ++ [']']
  | .obj fields => '{' :: joined (fieldTexts num fields) ++ ['}']

/-- The texts of the items of an array. -/
def itemTexts (num : ℚ → List Char) : List Json → List (List Char)
  | [] => []
  | item :: items => dumps num item :: itemTexts num items

/-- The texts of the fields of an object. -/
def fieldTexts (num : ℚ → List Char) : List (String × Json) → List (List Char)
  | [] => []
  | (key, value) :: fields => (quote key ++ [':', ' '] ++ dumps num value) :: fieldTexts num fields

end

/-- The length of the text of a value. -/
def size (num : ℚ → List Char) (value : Json) : ℕ := (dumps num value).length

/-! ## Lengths -/

theorem joined_length (texts : List (List Char)) :
    (joined texts).length = (texts.map fun text => text.length + 2).sum - 2 := by
  induction texts with
  | nil => rfl
  | cons text texts ih =>
    cases texts with
    | nil => simp [joined]
    | cons next texts =>
      rw [joined, List.length_append, List.length_append, ih]
      simp only [List.map_cons, List.sum_cons, List.length_cons, List.length_nil]
      omega

/-- Fewer and shorter texts are shorter together. -/
theorem joined_length_le {texts texts' : List (List Char)}
    (h : List.SublistForall₂ (fun text text' => text.length ≤ text'.length) texts texts') :
    (joined texts).length ≤ (joined texts').length := by
  have hsum : (texts.map fun text => text.length + 2).sum ≤
      (texts'.map fun text => text.length + 2).sum := by
    induction h with
    | nil => exact Nat.zero_le _
    | cons hle _ ih =>
      simp only [List.map_cons, List.sum_cons]
      omega
    | cons_right _ ih =>
      simp only [List.map_cons, List.sum_cons]
      omega
  rw [joined_length, joined_length]
  omega

variable {num : ℚ → List Char}

/-- A field has the name of another and no longer value. -/
def FieldLE (num : ℚ → List Char) (field field' : String × Json) : Prop :=
  field.1 = field'.1 ∧ size num field.2 ≤ size num field'.2

/-- Fewer fields with shorter values. -/
theorem size_obj_le {fields fields' : List (String × Json)}
    (h : List.SublistForall₂ (FieldLE num) fields fields') :
    size num (.obj fields) ≤ size num (.obj fields') := by
  have htexts : List.SublistForall₂ (fun text text' => text.length ≤ text'.length)
      (fieldTexts num fields) (fieldTexts num fields') := by
    induction h with
    | nil => exact .nil
    | @cons field field' _ _ hle _ ih =>
      obtain ⟨key, value⟩ := field
      obtain ⟨key', value'⟩ := field'
      obtain ⟨rfl, hsize⟩ := hle
      refine .cons ?_ ih
      have hvalue : (dumps num value).length ≤ (dumps num value').length := hsize
      simp only [List.length_append]
      omega
    | cons_right _ ih => exact .cons_right ih
  have hle := joined_length_le htexts
  simp only [size, dumps, List.length_append, List.length_cons, List.length_nil]
  omega

variable (num) in
theorem itemTexts_sublist {items items' : List Json} (h : items.Sublist items') :
    List.SublistForall₂ (fun text text' : List Char => text.length ≤ text'.length)
      (itemTexts num items) (itemTexts num items') := by
  induction h with
  | slnil => exact .nil
  | cons _ _ ih => exact .cons_right ih
  | cons_cons _ _ ih => exact .cons le_rfl ih

/-- Fewer items. -/
theorem size_arr_le {items items' : List Json} (h : items.Sublist items') :
    size num (.arr items) ≤ size num (.arr items') := by
  have hle := joined_length_le (itemTexts_sublist num h)
  simp only [size, dumps, List.length_append, List.length_cons, List.length_nil]
  omega

end Json
