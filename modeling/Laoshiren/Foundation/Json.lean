import Mathlib.Data.Rat.Defs
import Mathlib.Data.Rat.Floor

/-!
# JSON values

The values that cross a process boundary: what a JSONB column holds, what a request carries, what a
graph checkpoint stores. An object keeps its fields in the order of their keys, so that equality of
objects is equality of their fields whatever order they were written in. A number is a rational:
JSON has neither infinities nor NaN.
-/

inductive Json where
  | null
  | bool (b : Bool)
  | num (q : ℚ)
  | str (s : String)
  | arr (items : List Json)
  | obj (fields : List (String × Json))
  deriving Repr, Inhabited

/-- The fields of an object. -/
abbrev Dict := List (String × Json)

namespace Json

mutual

/-- Equality of JSON values is decidable. -/
def decEq : (a b : Json) → Decidable (a = b)
  | .null, .null => isTrue rfl
  | .bool a, .bool b => if h : a = b then isTrue (by rw [h]) else isFalse (by simpa using h)
  | .num a, .num b => if h : a = b then isTrue (by rw [h]) else isFalse (by simpa using h)
  | .str a, .str b => if h : a = b then isTrue (by rw [h]) else isFalse (by simpa using h)
  | .arr a, .arr b =>
    match decEqItems a b with
    | isTrue h => isTrue (by rw [h])
    | isFalse h => isFalse (by simpa using h)
  | .obj a, .obj b =>
    match decEqFields a b with
    | isTrue h => isTrue (by rw [h])
    | isFalse h => isFalse (by simpa using h)
  | .null, .bool _ | .null, .num _ | .null, .str _ | .null, .arr _ | .null, .obj _
  | .bool _, .null | .bool _, .num _ | .bool _, .str _ | .bool _, .arr _ | .bool _, .obj _
  | .num _, .null | .num _, .bool _ | .num _, .str _ | .num _, .arr _ | .num _, .obj _
  | .str _, .null | .str _, .bool _ | .str _, .num _ | .str _, .arr _ | .str _, .obj _
  | .arr _, .null | .arr _, .bool _ | .arr _, .num _ | .arr _, .str _ | .arr _, .obj _
  | .obj _, .null | .obj _, .bool _ | .obj _, .num _ | .obj _, .str _ | .obj _, .arr _ =>
    isFalse (by simp)

/-- Equality of the items of two arrays. -/
def decEqItems : (as bs : List Json) → Decidable (as = bs)
  | [], [] => isTrue rfl
  | [], _ :: _ | _ :: _, [] => isFalse (by simp)
  | a :: as, b :: bs =>
    match decEq a b, decEqItems as bs with
    | isTrue h, isTrue hs => isTrue (by rw [h, hs])
    | isFalse h, _ => isFalse (by simp [h])
    | _, isFalse hs => isFalse (by simp [hs])

/-- Equality of the fields of two objects. -/
def decEqFields : (as bs : List (String × Json)) → Decidable (as = bs)
  | [], [] => isTrue rfl
  | [], _ :: _ | _ :: _, [] => isFalse (by simp)
  | (k, a) :: as, (l, b) :: bs =>
    if hk : k = l then
      match decEq a b, decEqFields as bs with
      | isTrue h, isTrue hs => isTrue (by rw [hk, h, hs])
      | isFalse h, _ => isFalse (by simp [h])
      | _, isFalse hs => isFalse (by simp [hs])
    else isFalse (by simp [hk])

end

instance : DecidableEq Json := decEq

/-- `isinstance(value, str)`: the text of a string value. -/
def asStr? : Json → Option String
  | .str s => some s
  | _ => none

/-- `isinstance(value, dict)`: the fields of an object. -/
def asDict? : Json → Option Dict
  | .obj fields => some fields
  | _ => none

/-- `isinstance(value, list)`: the items of an array. -/
def asList? : Json → Option (List Json)
  | .arr items => some items
  | _ => none

/-- `value is not None`. -/
def isNone : Json → Bool
  | .null => true
  | _ => false

/-- A text or `None`. -/
def ofStr? : Option String → Json
  | some s => .str s
  | none => .null

@[simp] theorem asStr?_eq_some {v : Json} {s : String} : v.asStr? = some s ↔ v = .str s := by
  cases v <;> simp [asStr?]

@[simp] theorem asDict?_eq_some {v : Json} {d : Dict} : v.asDict? = some d ↔ v = .obj d := by
  cases v <;> simp [asDict?]

end Json

namespace Dict

/-- `d.get(key)`. -/
def get (d : Dict) (key : String) : Option Json := d.lookup key

/-- `d.get(key)` where a missing key and a `null` both read as `None`. -/
def get? (d : Dict) (key : String) : Option Json :=
  match d.get key with
  | some .null => none
  | other => other

/-- Insert or replace a field: `d[key] = value`. -/
def set (d : Dict) (key : String) (value : Json) : Dict :=
  d.takeWhile (fun field => field.1 < key) ++
    (key, value) :: (d.dropWhile fun field => field.1 < key).dropWhile fun field => field.1 = key

/-- `d.setdefault(key, value)`. -/
def setdefault (d : Dict) (key : String) (value : Json) : Dict :=
  if (d.get key).isSome then d else d.set key value

/-- `{**d, **other}`. -/
def merge (d other : Dict) : Dict := other.foldl (fun d field => d.set field.1 field.2) d

/-- A dictionary display. -/
def ofFields (fields : List (String × Json)) : Dict := merge [] fields

theorem lookup_dropWhile_eq_key {key key' : String} (h : key' ≠ key) (d : Dict) :
    (d.dropWhile fun field => field.1 = key).lookup key' = d.lookup key' := by
  induction d with
  | nil => rfl
  | cons field d ih =>
    obtain ⟨k, v⟩ := field
    by_cases hk : k = key
    · have hne : (key' == k) = false := by
        rw [hk]
        exact beq_false_of_ne h
      rw [List.dropWhile_cons_of_pos (by simpa using hk), ih, List.lookup_cons, hne]
    · rw [List.dropWhile_cons_of_neg (by simpa using hk)]

/-- Setting a field leaves the others alone. -/
theorem get_set_ne {key key' : String} (h : key' ≠ key) (d : Dict) (value : Json) :
    (d.set key value).get key' = d.get key' := by
  have hsplit : d.lookup key' = (d.takeWhile (fun field => field.1 < key) ++
      d.dropWhile fun field => field.1 < key).lookup key' := by
    rw [List.takeWhile_append_dropWhile]
  have hne : (key' == key) = false := beq_false_of_ne h
  unfold set get
  rw [hsplit, List.lookup_append, List.lookup_append, List.lookup_cons, hne,
    lookup_dropWhile_eq_key h]

/-- A field that is set reads as its new value. -/
theorem get_set_self (d : Dict) (key : String) (value : Json) :
    (d.set key value).get key = some value := by
  have hbefore : (d.takeWhile fun field => field.1 < key).lookup key = none := by
    refine List.lookup_eq_none_iff.mpr fun field hfield => ?_
    have hlt : field.1 < key := by
      simpa using List.all_eq_true.mp List.all_takeWhile field hfield
    have hne : key ≠ field.1 := by
      intro hkey
      rw [← hkey] at hlt
      exact String.lt_irrefl key hlt
    simpa using hne
  unfold set get
  rw [List.lookup_append, hbefore, List.lookup_cons, beq_self_eq_true]
  rfl

theorem get_setdefault_ne {key key' : String} (h : key' ≠ key) (d : Dict) (value : Json) :
    (d.setdefault key value).get key' = d.get key' := by
  unfold setdefault
  split
  · rfl
  · exact get_set_ne h d value

theorem get?_setdefault_ne {key key' : String} (h : key' ≠ key) (d : Dict) (value : Json) :
    (d.setdefault key value).get? key' = d.get? key' := by
  unfold get?
  rw [get_setdefault_ne h]

/-- A field of a merged dictionary is the last one of that name. -/
theorem get_merge (d : Dict) (fields : List (String × Json)) (key : String) :
    (merge d fields).get key = (fields.reverse.lookup key).or (d.get key) := by
  induction fields generalizing d with
  | nil => rfl
  | cons field fields ih =>
    show (merge (d.set field.1 field.2) fields).get key = _
    rw [ih, List.reverse_cons, List.lookup_append, Option.or_assoc]
    congr 1
    by_cases hkey : key = field.1
    · rw [hkey, get_set_self, List.lookup_cons, beq_self_eq_true]
      rfl
    · rw [get_set_ne hkey, List.lookup_cons, beq_false_of_ne hkey]
      rfl

/-- Merging leaves a field alone that the other dictionary has not. -/
theorem get_merge_of_none {d other : Dict} {key : String} (h : other.get key = none) :
    (d.merge other).get key = d.get key := by
  have hreverse : other.reverse.lookup key = none := by
    refine List.lookup_eq_none_iff.mpr fun field hfield => ?_
    exact List.lookup_eq_none_iff.mp h field (List.mem_reverse.mp hfield)
  rw [get_merge, hreverse]
  rfl

/-- A display reads as the last of its fields of that name. -/
theorem get_ofFields (fields : List (String × Json)) (key : String) :
    (ofFields fields).get key = fields.reverse.lookup key := by
  rw [ofFields, get_merge]
  exact Option.or_none

/-- A display has no field beside its own. -/
theorem get_ofFields_of_not_mem {fields : List (String × Json)} {key : String}
    (h : key ∉ fields.map Prod.fst) : (ofFields fields).get key = none := by
  rw [get_ofFields, List.lookup_eq_none_iff]
  intro field hfield
  have hne : key ≠ field.1 := by
    rintro rfl
    exact h (List.mem_map_of_mem (List.mem_reverse.mp hfield))
  simpa using hne

end Dict

/-!
## Built-in functions on JSON values

`int`, `str` and `bool` of a value that came in as JSON, and the JSON texts that cross a wire. How
Python reads a number off a text, how it prints a value that is no text, and how JSON is printed and
parsed, are parameters.
-/

/-- What the code takes from the interpreter. -/
structure Builtins where
  /-- `int(text)`: `none` where it raises `ValueError`. -/
  intOfText : String → Option ℤ
  /-- `str(value)` of a value that is no text. -/
  repr : Json → String

namespace Builtins

/-- `int(value)`: `none` where it raises. -/
def int (py : Builtins) : Json → Option ℤ
  | .num q => some (q.num.tdiv q.den)
  | .bool b => some (if b then 1 else 0)
  | .str text => py.intOfText text
  | .null | .arr _ | .obj _ => none

/-- `str(value)`. -/
def str (py : Builtins) : Json → String
  | .str text => text
  | value => py.repr value

/-- `int(d.get(key, default))`: `none` where it raises. -/
def limit (py : Builtins) (d : Dict) (key : String) (default : ℤ) : Option ℤ :=
  (d.get key).elim (some default) py.int

end Builtins

/-- `bool(value)`. -/
def Json.truthy : Json → Bool
  | .null => false
  | .bool b => b
  | .num q => q ≠ 0
  | .str text => text ≠ ""
  | .arr items => !items.isEmpty
  | .obj fields => !fields.isEmpty

/-! ## JSON texts -/

/-- JSON texts as one side prints them and the other side parses them. -/
structure JsonText where
  /-- `json.dumps(fields)`. -/
  dumps : Dict → List Char
  /-- `JSON.parse(text)`: `none` where it throws. -/
  parse : List Char → Option Json

namespace JsonText

/-- What the text of an object keeps: it is one line in braces, and parses to an object with the same
texts and with no field that was not there. -/
structure Keeps (json : JsonText) (fields : Dict) : Prop where
  oneLine : '\n' ∉ json.dumps fields
  braces : ∃ inner, json.dumps fields = '{' :: inner ++ ['}']
  parse : ∃ fields' : Dict, json.parse (json.dumps fields) = some (.obj fields') ∧ ∀ key,
    (∀ text, fields.get key = some (.str text) → fields'.get key = some (.str text)) ∧
      (fields.get key = none → fields'.get key = none)

end JsonText
