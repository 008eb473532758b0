import Mathlib.Algebra.Group.Nat.Defs
import Laoshiren.Foundation.Text

/-!
# UUIDs and their texts

A UUID is a number of 128 bits. Its text has 32 hexadecimal digits in groups of 8, 4, 4, 4 and 12.
Reading a text takes off an optional URN prefix, braces and every hyphen, and wants 32 digits.
-/

abbrev UUID := BitVec 128

namespace UUID

/-- The hexadecimal digit of a number below 16. -/
def hexDigit (n : ℕ) : Char := if n < 10 then Char.ofNat (48 + n) else Char.ofNat (87 + n)

/-- The number of a hexadecimal digit. -/
def hexValue? (c : Char) : Option ℕ :=
  let n := c.toNat
  if 48 ≤ n ∧ n ≤ 57 then some (n - 48)
  else if 97 ≤ n ∧ n ≤ 102 then some (n - 87)
  else if 65 ≤ n ∧ n ≤ 70 then some (n - 55)
  else none

/-- The last `k` hexadecimal digits of a number. -/
def hexDigits : ℕ → ℕ → List Char
  | 0, _ => []
  | k + 1, n => hexDigits k (n / 16) ++ [hexDigit (n % 16)]

/-- `int(digits, 16)`. -/
def hexNumber? (cs : List Char) : Option ℕ :=
  cs.foldl (fun acc c => acc.bind fun n => (hexValue? c).map (16 * n + ·)) (some 0)

/-- `str(uuid)`. -/
def str (u : UUID) : String :=
  let digits := hexDigits 32 u.toNat
  String.ofList (digits.take 8 ++ '-' :: ((digits.drop 8).take 4 ++ '-' ::
    ((digits.drop 12).take 4 ++ '-' :: ((digits.drop 16).take 4 ++ '-' :: digits.drop 20))))

/-- `text.replace(pat, "")`; the counter is what is left of an occurrence that was found. -/
def dropOccurrences (pat : List Char) : ℕ → List Char → List Char
  | _, [] => []
  | k + 1, _ :: cs => dropOccurrences pat k cs
  | 0, c :: cs =>
    if pat.isPrefixOf (c :: cs) then dropOccurrences pat (pat.length - 1) cs
    else c :: dropOccurrences pat 0 cs

/-- `UUID(text)`: `none` where it raises `ValueError`. -/
def parse? (text : String) : Option UUID :=
  let cs := dropOccurrences "urn:".toList 0 text.toList
  let cs := dropOccurrences "uuid:".toList 0 cs
  let digits := (Text.trim (fun c => c == '{' || c == '}') cs).filter (· ≠ '-')
  if digits.length = 32 then (hexNumber? digits).map (BitVec.ofNat 128) else none

/-! ## The text of a UUID reads back -/

theorem hexValue?_hexDigit {n : ℕ} (h : n < 16) : hexValue? (hexDigit n) = some n := by
  have : ∀ n : Fin 16, hexValue? (hexDigit n) = some n.val := by decide
  exact this ⟨n, h⟩

/-- The digits are no letter or mark that reading a text takes off. -/
theorem hexDigit_ne {n : ℕ} (h : n < 16) : hexDigit n ∉ ['u', '{', '}', '-', ':'] := by
  have : ∀ n : Fin 16, hexDigit n ∉ ['u', '{', '}', '-', ':'] := by decide
  exact this ⟨n, h⟩

theorem length_hexDigits (k n : ℕ) : (hexDigits k n).length = k := by
  induction k generalizing n with
  | zero => rfl
  | succ k ih => simp [hexDigits, ih]

theorem hexDigits_ne {k n : ℕ} {c : Char} (h : c ∈ hexDigits k n) : c ∉ ['u', '{', '}', '-', ':'] := by
  induction k generalizing n with
  | zero => cases h
  | succ k ih =>
    rcases List.mem_append.mp h with h | h
    · exact ih h
    · obtain rfl := List.mem_singleton.mp h
      exact hexDigit_ne (Nat.mod_lt _ (by omega))

theorem hexNumber?_hexDigits {k n : ℕ} (h : n < 16 ^ k) : hexNumber? (hexDigits k n) = some n := by
  induction k generalizing n with
  | zero => simp_all [hexDigits, hexNumber?]
  | succ k ih =>
    have hdiv : n / 16 < 16 ^ k := Nat.div_lt_of_lt_mul (by rwa [← Nat.pow_succ'])
    have hstep := ih hdiv
    unfold hexNumber? at hstep ⊢
    rw [hexDigits, List.foldl_append, hstep]
    simp only [List.foldl_cons, List.foldl_nil, Option.bind_some,
      hexValue?_hexDigit (Nat.mod_lt n (by omega : 0 < 16)), Option.map_some, Option.some.injEq]
    omega

theorem dropOccurrences_eq_self {p : Char} {pat cs : List Char} (h : p ∉ cs) :
    dropOccurrences (p :: pat) 0 cs = cs := by
  induction cs with
  | nil => rfl
  | cons c cs ih =>
    obtain ⟨hc, hcs⟩ := not_or.mp (mt List.mem_cons.mpr h)
    simp [dropOccurrences, List.isPrefixOf, hc, ih hcs]

theorem filter_str (u : UUID) : u.str.toList.filter (· ≠ '-') = hexDigits 32 u.toNat := by
  have hkeep : ∀ cs : List Char, (∀ c ∈ cs, c ∈ hexDigits 32 u.toNat) →
      cs.filter (· ≠ '-') = cs := by
    intro cs hcs
    refine List.filter_eq_self.mpr fun c hc => ?_
    have := hexDigits_ne (hcs c hc)
    simp only [List.mem_cons, not_or] at this
    simpa using this.2.2.2.1
  simp only [str, String.toList_ofList, List.filter_append, List.filter_cons]
  rw [hkeep _ fun c hc => List.mem_of_mem_take hc,
    hkeep _ fun c hc => List.mem_of_mem_drop (List.mem_of_mem_take hc),
    hkeep _ fun c hc => List.mem_of_mem_drop (List.mem_of_mem_take hc),
    hkeep _ fun c hc => List.mem_of_mem_drop (List.mem_of_mem_take hc),
    hkeep _ fun c hc => List.mem_of_mem_drop hc]
  simp only [ne_eq, not_true_eq_false, decide_false, Bool.false_eq_true, if_false]
  have hsplit : ∀ (m n : ℕ) (cs : List Char), (cs.drop m).take n ++ cs.drop (m + n) = cs.drop m := by
    intro m n cs
    rw [← List.drop_drop, List.take_append_drop]
  rw [hsplit 16 4, hsplit 12 4, hsplit 8 4, List.take_append_drop]

/-- The characters of a UUID's text: digits and hyphens. -/
theorem mem_str {u : UUID} {c : Char} (h : c ∈ u.str.toList) (hc : c ≠ '-') :
    c ∈ hexDigits 32 u.toNat := by
  rw [← filter_str]
  exact List.mem_filter.mpr ⟨h, by simpa using hc⟩

/-- `UUID(str(u))` is `u`. -/
@[simp] theorem parse?_str (u : UUID) : parse? u.str = some u := by
  have hmark : ∀ c ∈ u.str.toList, c ≠ 'u' ∧ c ≠ '{' ∧ c ≠ '}' := by
    intro c hc
    by_cases hd : c = '-'
    · subst hd
      decide
    · have := hexDigits_ne (mem_str hc hd)
      simp only [List.mem_cons, not_or] at this
      exact ⟨this.1, this.2.1, this.2.2.1⟩
  have hu : 'u' ∉ u.str.toList := fun h => (hmark _ h).1 rfl
  have htrim : Text.trim (fun c => c == '{' || c == '}') u.str.toList = u.str.toList :=
    Text.trim_eq_self fun c hc => by simp [hmark c hc]
  have hurn : "urn:".toList = ['u', 'r', 'n', ':'] := by decide
  have huuid : "uuid:".toList = ['u', 'u', 'i', 'd', ':'] := by decide
  simp only [parse?, hurn, huuid, dropOccurrences_eq_self hu, htrim, filter_str, length_hexDigits]
  rw [if_pos trivial, hexNumber?_hexDigits (by simpa using u.isLt)]
  simp

/-- A UUID has no colon in its text. -/
theorem colon_not_mem_str (u : UUID) : ':' ∉ u.str.toList := by
  intro h
  exact hexDigits_ne (mem_str h (by decide)) (by decide)

/-- Different UUIDs have different texts. -/
theorem str_injective : Function.Injective str := by
  intro u v h
  have := congrArg parse? h
  simpa using this

end UUID
