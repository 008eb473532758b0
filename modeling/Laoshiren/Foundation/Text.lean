import Mathlib.Data.List.Basic
import Mathlib.Data.List.DropRight

/-!
# Text

What Python's `str.strip()` takes off a text, and the texts it leaves nothing of.
-/

namespace Text

/-- The characters that `str.isspace()` accepts. -/
def isSpace (c : Char) : Bool :=
  let n := c.toNat
  (9 ≤ n && n ≤ 13) || (28 ≤ n && n ≤ 32) || n == 0x85 || n == 0xA0 || n == 0x1680 ||
    (0x2000 ≤ n && n ≤ 0x200A) || n == 0x2028 || n == 0x2029 || n == 0x202F || n == 0x205F ||
    n == 0x3000

/-- Take the characters that meet `p` off both ends. -/
def trim (p : Char → Bool) (cs : List Char) : List Char :=
  ((cs.dropWhile p).reverse.dropWhile p).reverse

/-- `text.strip()`. -/
def strip (text : String) : String := String.ofList (trim isSpace text.toList)

/-- `not text.strip()`. -/
def isBlank (text : String) : Bool := text.toList.all isSpace

/-- Trimming leaves a text alone that has no character to take off. -/
theorem trim_eq_self {p : Char → Bool} {cs : List Char} (h : ∀ c ∈ cs, p c = false) :
    trim p cs = cs := by
  have hdrop : ∀ ds : List Char, (∀ c ∈ ds, p c = false) → ds.dropWhile p = ds := by
    intro ds hds
    cases ds with
    | nil => rfl
    | cons d ds => simp [List.dropWhile, hds d]
  unfold trim
  rw [hdrop cs h, hdrop cs.reverse (fun c hc => h c (List.mem_reverse.mp hc)), List.reverse_reverse]

/-- A text that was trimmed has nothing more to take off. -/
theorem trim_trim (p : Char → Bool) (cs : List Char) : trim p (trim p cs) = trim p cs := by
  have hfront : (trim p cs).dropWhile p = trim p cs := by
    cases htrim : trim p cs with
    | nil => rfl
    | cons c rest =>
      -- what is left begins as the text without its front does
      have hprefix : trim p cs <+: cs.dropWhile p := List.rdropWhile_prefix p _
      rw [htrim] at hprefix
      obtain ⟨tail, htail⟩ := hprefix
      have hhead : (cs.dropWhile p).head? = some c := by
        rw [← htail]
        rfl
      have hc := List.head?_dropWhile_not p cs
      rw [hhead] at hc
      have hc : p c = false := hc
      rw [List.dropWhile_cons_of_neg (by rw [hc]; decide)]
  have hback : ((trim p cs).reverse.dropWhile p).reverse = trim p cs :=
    List.rdropWhile_idempotent p (cs.dropWhile p)
  rw [trim, hfront, hback]

theorem strip_strip (text : String) : strip (strip text) = strip text := by
  unfold strip
  rw [String.toList_ofList, trim_trim]

/-- Trimming leaves nothing of a text exactly if it takes off every character. -/
theorem trim_eq_nil {p : Char → Bool} {cs : List Char} : trim p cs = [] ↔ ∀ c ∈ cs, p c = true := by
  have hback : trim p cs = [] ↔ ∀ c ∈ cs.dropWhile p, p c = true := List.rdropWhile_eq_nil_iff
  rw [hback]
  constructor
  · intro h c hc
    rw [← List.takeWhile_append_dropWhile (p := p) (l := cs)] at hc
    rcases List.mem_append.mp hc with hc | hc
    · exact List.mem_takeWhile_imp hc
    · exact h c hc
  · exact fun h c hc => h c ((List.dropWhile_sublist p).subset hc)

theorem strip_eq_empty_iff {text : String} : strip text = "" ↔ isBlank text = true := by
  have hnil : strip text = "" ↔ trim isSpace text.toList = [] := by
    rw [strip]
    exact ⟨fun h => String.ofList_injective h, fun h => by rw [h]⟩
  rw [hnil, trim_eq_nil, isBlank, List.all_eq_true]

/-! ## Texts of numbers, and texts in parts -/

/-- The text of a number has digits only. -/
theorem not_mem_repr {c : Char} (hc : c.isDigit = false) (n : ℕ) : c ∉ n.repr.toList := by
  intro h
  rw [Nat.toList_repr] at h
  have hdigit := Nat.isDigit_of_mem_toDigits (by decide) (by decide) h
  rw [hc] at hdigit
  cases hdigit

/-- Different numbers have different texts. -/
theorem repr_injective {m n : ℕ} (h : m.repr.toList = n.repr.toList) : m = n := by
  rw [Nat.toList_repr, Nat.toList_repr] at h
  have hback := congrArg (fun cs => Nat.ofDigitChars 10 cs 0) h
  simpa using hback

/-- What stands before the first mark, and what after it, can be read off a text. -/
theorem append_mark_inj {mark : Char} {a b rest rest' : List Char} (ha : mark ∉ a) (hb : mark ∉ b)
    (h : a ++ mark :: rest = b ++ mark :: rest') : a = b ∧ rest = rest' := by
  induction a generalizing b with
  | nil =>
    cases b with
    | nil => exact ⟨rfl, (List.cons.inj h).2⟩
    | cons c b =>
      obtain ⟨rfl, _⟩ := List.cons.inj h
      exact absurd List.mem_cons_self hb
  | cons c a ih =>
    cases b with
    | nil =>
      obtain ⟨rfl, _⟩ := List.cons.inj h
      exact absurd List.mem_cons_self ha
    | cons d b =>
      obtain ⟨rfl, htail⟩ := List.cons.inj h
      obtain ⟨rfl, hrest⟩ := ih (fun hc => ha (List.mem_cons_of_mem _ hc))
        (fun hc => hb (List.mem_cons_of_mem _ hc)) htail
      exact ⟨rfl, hrest⟩

/-- Texts that begin with different characters differ. -/
theorem append_ne_append {a b : String} {c d : Char} (ha : a.toList.head? = some c)
    (hb : b.toList.head? = some d) (hne : c ≠ d) (x y : String) : a ++ x ≠ b ++ y := by
  intro h
  have hlist : (a ++ x).toList = (b ++ y).toList := by rw [h]
  rw [String.toList_append, String.toList_append] at hlist
  have hhead := congrArg List.head? hlist
  rw [List.head?_append, List.head?_append, ha, hb] at hhead
  exact hne (Option.some.inj hhead)

end Text
