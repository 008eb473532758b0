import Laoshiren.Foundation.Text
import Mathlib.Algebra.BigOperators.Group.List.Basic
import Mathlib.Algebra.GroupWithZero.Nat

/-!
# Slices

What lies between two places of a text, and the places at which the parts of a joined text lie.
-/

namespace Text

variable {α : Type*}

/-- `text[start:stop]`. -/
def slice (cs : List α) (start stop : ℕ) : List α := (cs.drop start).take (stop - start)

theorem getElem?_slice (cs : List α) (start stop i : ℕ) :
    (slice cs start stop)[i]? = if start + i < stop then cs[start + i]? else none := by
  unfold slice
  by_cases hi : start + i < stop
  · rw [if_pos hi, List.getElem?_take_of_lt (by omega), List.getElem?_drop]
  · rw [if_neg hi, List.getElem?_eq_none]
    rw [List.length_take]
    omega

theorem length_slice {cs : List α} {start stop : ℕ} (hstop : stop ≤ cs.length) :
    (slice cs start stop).length = stop - start := by
  rw [slice, List.length_take, List.length_drop]
  omega

/-- A character of the text lies in the slices around it. -/
theorem mem_slice {cs : List α} {start stop i : ℕ} {c : α} (hc : cs[i]? = some c) (hi : start ≤ i)
    (hi' : i < stop) : c ∈ slice cs start stop := by
  have hplace : (slice cs start stop)[i - start]? = some c := by
    rw [getElem?_slice, if_pos (by omega)]
    rwa [show start + (i - start) = i from by omega]
  exact List.mem_of_getElem? hplace

theorem slice_append_left {cs ds : List α} {start stop : ℕ} (hstop : stop ≤ cs.length) :
    slice (cs ++ ds) start stop = slice cs start stop := by
  refine List.ext_getElem? fun i => ?_
  rw [getElem?_slice, getElem?_slice]
  by_cases hi : start + i < stop
  · rw [if_pos hi, if_pos hi, List.getElem?_append_left (by omega)]
  · rw [if_neg hi, if_neg hi]

theorem slice_append_right (cs ds : List α) (start stop : ℕ) :
    slice (cs ++ ds) (cs.length + start) (cs.length + stop) = slice ds start stop := by
  unfold slice
  rw [List.drop_append, List.drop_of_length_le (by omega), List.nil_append]
  rw [show cs.length + start - cs.length = start from by omega,
    show cs.length + stop - (cs.length + start) = stop - start from by omega]

/-! ## Joined texts -/

/-- Where the part `n` begins when the parts are joined. -/
def offset (sep : List α) (parts : List (List α)) (n : ℕ) : ℕ :=
  ((parts.take n).map fun part => part.length + sep.length).sum

theorem offset_zero (sep : List α) (parts : List (List α)) : offset sep parts 0 = 0 := rfl

theorem offset_cons_succ (sep part : List α) (parts : List (List α)) (n : ℕ) :
    offset sep (part :: parts) (n + 1) = part.length + sep.length + offset sep parts n := by
  simp [offset]

/-- A slice of a part is a slice of the joined text. -/
theorem slice_intercalate {sep part : List α} {parts : List (List α)} {n start stop : ℕ}
    (hpart : parts[n]? = some part) (hstop : stop ≤ part.length) :
    slice (sep.intercalate parts) (offset sep parts n + start) (offset sep parts n + stop) =
      slice part start stop := by
  induction parts generalizing n with
  | nil => cases hpart
  | cons first parts ih =>
    cases n with
    | zero =>
      obtain rfl := Option.some.inj hpart
      rw [offset_zero, Nat.zero_add, Nat.zero_add]
      by_cases hparts : parts = []
      · rw [hparts, List.intercalate_singleton]
      · rw [List.intercalate_cons_of_ne_nil hparts, List.append_assoc, slice_append_left hstop]
    | succ n =>
      have hparts : parts ≠ [] := by
        rintro rfl
        cases hpart
      have hfront : (first ++ sep).length = first.length + sep.length := List.length_append
      rw [List.intercalate_cons_of_ne_nil hparts, offset_cons_succ, Nat.add_assoc _ _ start,
        Nat.add_assoc _ _ stop, ← hfront, slice_append_right]
      exact ih hpart

/-- A part lies within the joined text. -/
theorem offset_add_length_le (sep : List α) {part : List α} {parts : List (List α)} {n : ℕ}
    (hpart : parts[n]? = some part) :
    offset sep parts n + part.length ≤ (sep.intercalate parts).length := by
  induction parts generalizing n with
  | nil => cases hpart
  | cons first parts ih =>
    cases n with
    | zero =>
      obtain rfl := Option.some.inj hpart
      rw [offset_zero, Nat.zero_add]
      by_cases hparts : parts = []
      · rw [hparts, List.intercalate_singleton]
      · rw [List.intercalate_cons_of_ne_nil hparts, List.append_assoc, List.length_append]
        omega
    | succ n =>
      have hparts : parts ≠ [] := by
        rintro rfl
        cases hpart
      have hrest := ih hpart
      rw [List.intercalate_cons_of_ne_nil hparts, offset_cons_succ, List.length_append,
        List.length_append]
      omega

/-! ## Lines -/

/-- The characters that end a line for `str.splitlines()`. -/
def isLineBreak (c : Char) : Bool :=
  let n := c.toNat
  (10 ≤ n && n ≤ 13) || (28 ≤ n && n ≤ 30) || n == 0x85 || n == 0x2028 || n == 0x2029

/-- The lines from here on, after the characters of the current line, the latest first. -/
def linesFrom : List Char → List Char → List (List Char)
  | [], line => if line = [] then [] else [line.reverse]
  | '\r' :: '\n' :: cs, line => line.reverse :: linesFrom cs []
  | c :: cs, line =>
    if isLineBreak c then line.reverse :: linesFrom cs [] else linesFrom cs (c :: line)

/-- `text.splitlines()`. -/
def splitLines (cs : List Char) : List (List Char) := linesFrom cs []

/-- A text without line breaks is one line. -/
theorem linesFrom_plain {cs line : List Char} (h : ∀ c ∈ cs, isLineBreak c = false)
    (hne : line ≠ [] ∨ cs ≠ []) : linesFrom cs line = [line.reverse ++ cs] := by
  induction cs generalizing line with
  | nil =>
    rcases hne with hne | hne
    · rw [linesFrom, if_neg hne, List.append_nil]
    · exact absurd rfl hne
  | cons c cs ih =>
    have hc := h c (.head _)
    rw [linesFrom, if_neg (by rw [hc]; decide), ih (fun d hd => h d (.tail _ hd)) (.inl (by simp))]
    · rw [List.reverse_cons, List.append_assoc]
      rfl
    · rintro _ rfl -
      cases hc

/-! ## Blanks around a text -/

/-- `text.rstrip()`. -/
def rstrip (cs : List Char) : List Char := cs.rdropWhile isSpace

/-- The characters of a text that are no blanks. -/
def visible (cs : List Char) : List Char := cs.filter fun c => !isSpace c

theorem visible_append (cs ds : List Char) : visible (cs ++ ds) = visible cs ++ visible ds :=
  List.filter_append _ _

theorem visible_eq_nil {cs : List Char} : visible cs = [] ↔ ∀ c ∈ cs, isSpace c = true := by
  simp [visible, List.filter_eq_nil_iff]

/-- Blanks at the end of a text leave nothing of its end. -/
theorem rstrip_append_of_blank {cs ds : List Char} (h : visible ds = []) :
    rstrip (cs ++ ds) = rstrip cs := by
  induction ds using List.reverseRecOn with
  | nil => rw [List.append_nil]
  | append_singleton ds d ih =>
    rw [visible_append] at h
    obtain ⟨hds, hd⟩ := List.append_eq_nil_iff.mp h
    have hspace := visible_eq_nil.mp hd d (.head _)
    rw [← List.append_assoc]
    unfold rstrip
    rw [List.rdropWhile_concat_pos _ _ _ hspace]
    exact ih hds

/-- `rstrip` takes blanks off. -/
theorem visible_rstrip (cs : List Char) : visible (rstrip cs) = visible cs := by
  induction cs using List.reverseRecOn with
  | nil => rfl
  | append_singleton cs c ih =>
    unfold rstrip
    by_cases hc : isSpace c = true
    · have hblank : visible [c] = [] := visible_eq_nil.mpr fun d hd => by
        obtain rfl := List.mem_singleton.mp hd
        exact hc
      rw [List.rdropWhile_concat_pos _ _ _ hc, visible_append, hblank, List.append_nil]
      exact ih
    · rw [List.rdropWhile_concat_neg _ _ _ hc]

/-- Two beginnings of one text are the same but for blanks at their ends if they show the same. -/
theorem rstrip_eq_iff {cs ds text : List Char} (hcs : cs <+: text) (hds : ds <+: text) :
    rstrip cs = rstrip ds ↔ visible cs = visible ds := by
  constructor
  · intro h
    rw [← visible_rstrip cs, h, visible_rstrip]
  · intro h
    rcases List.prefix_or_prefix_of_prefix hcs hds with ⟨rest, rfl⟩ | ⟨rest, rfl⟩
    · rw [visible_append] at h
      exact (rstrip_append_of_blank (List.append_right_eq_self.mp h.symm)).symm
    · rw [visible_append] at h
      exact rstrip_append_of_blank (List.append_right_eq_self.mp h)

/-- A text that ends in a character that shows keeps its end. -/
theorem rstrip_append_of_ne_nil {cs ds : List Char} (h : rstrip ds ≠ []) :
    rstrip (cs ++ ds) = cs ++ rstrip ds := by
  induction ds using List.reverseRecOn with
  | nil => exact absurd rfl h
  | append_singleton ds d ih =>
    rw [← List.append_assoc]
    unfold rstrip at h ⊢
    by_cases hd : isSpace d = true
    · rw [List.rdropWhile_concat_pos _ _ _ hd] at h ⊢
      rw [List.rdropWhile_concat_pos _ _ _ hd]
      exact ih h
    · rw [List.rdropWhile_concat_neg _ _ _ hd, List.rdropWhile_concat_neg _ _ _ hd,
        List.append_assoc]

/-- A text that was trimmed has no blanks at its end. -/
theorem rstrip_trim (cs : List Char) : rstrip (trim isSpace cs) = trim isSpace cs :=
  List.rdropWhile_idempotent isSpace (cs.dropWhile isSpace)

/-- A text that begins with a character that shows. -/
def Starts (cs : List Char) : Prop := ∃ c, cs.head? = some c ∧ isSpace c = false

theorem Starts.ne_nil {cs : List Char} (h : Starts cs) : cs ≠ [] := by
  obtain ⟨c, hc, -⟩ := h
  rintro rfl
  cases hc

theorem Starts.append {cs : List Char} (h : Starts cs) (ds : List Char) : Starts (cs ++ ds) := by
  obtain ⟨c, hc, hvisible⟩ := h
  exact ⟨c, by rw [List.head?_append, hc]; rfl, hvisible⟩

/-- There are only blanks at its end to take off. -/
theorem Starts.trim {cs : List Char} (h : Starts cs) : trim isSpace cs = rstrip cs := by
  obtain ⟨c, hc, hvisible⟩ := h
  obtain ⟨ds, rfl⟩ := List.head?_eq_some_iff.mp hc
  unfold Text.trim
  rw [List.dropWhile_cons_of_neg (by rw [hvisible]; decide)]
  rfl

theorem Starts.rstrip_ne_nil {cs : List Char} (h : Starts cs) : rstrip cs ≠ [] := by
  obtain ⟨c, hc, hvisible⟩ := h
  obtain ⟨ds, rfl⟩ := List.head?_eq_some_iff.mp hc
  intro hnil
  have hall := List.rdropWhile_eq_nil_iff.mp hnil c (.head _)
  rw [hvisible] at hall
  cases hall

/-- A text that was trimmed begins with a character that shows, if anything is left of it. -/
theorem starts_trim {cs : List Char} (h : trim isSpace cs ≠ []) : Starts (trim isSpace cs) := by
  have hprefix : Text.trim isSpace cs <+: cs.dropWhile isSpace := List.rdropWhile_prefix isSpace _
  obtain ⟨rest, hrest⟩ := hprefix
  obtain ⟨c, ds, hcons⟩ := List.exists_cons_of_ne_nil h
  refine ⟨c, by rw [hcons]; rfl, ?_⟩
  have hhead : (cs.dropWhile isSpace).head? = some c := by
    rw [← hrest, hcons]
    rfl
  have hnot := List.head?_dropWhile_not isSpace cs
  rw [hhead] at hnot
  exact hnot

/-! ## Parts -/

theorem intercalate_cons (sep part : List α) (parts : List (List α)) :
    sep.intercalate (part :: parts) = part ++ parts.flatMap fun part => sep ++ part := by
  induction parts generalizing part with
  | nil => simp
  | cons next parts ih =>
    rw [List.intercalate_cons_cons, ih, List.flatMap_cons, List.append_assoc, List.append_assoc]

/-- Parts that end in a character that shows are joined to a text that does. -/
theorem rstrip_intercalate {sep : List Char} {parts : List (List Char)}
    (h : ∀ part ∈ parts, part ≠ [] ∧ rstrip part = part) :
    rstrip (sep.intercalate parts) = sep.intercalate parts := by
  induction parts with
  | nil => rfl
  | cons part parts ih =>
    by_cases hparts : parts = []
    · rw [hparts, List.intercalate_singleton]
      exact (h part (.head _)).2
    · have hrest := ih fun part hpart => h part (.tail _ hpart)
      have hne : sep.intercalate parts ≠ [] := by
        obtain ⟨first, rest, rfl⟩ := List.exists_cons_of_ne_nil hparts
        rw [intercalate_cons]
        exact fun hnil => (h first (.tail _ (.head _))).1 (List.append_eq_nil_iff.mp hnil).1
      rw [List.intercalate_cons_of_ne_nil hparts, rstrip_append_of_ne_nil (by rwa [hrest]), hrest]

theorem length_trim_le (p : Char → Bool) (cs : List Char) : (trim p cs).length ≤ cs.length :=
  (List.rdropWhile_prefix p _).length_le.trans (List.dropWhile_sublist p).length_le

/-- `strip` leaves nothing of a text that is blank, and of no other. -/
theorem strip_eq_empty {cs : List Char} :
    strip (String.ofList cs) = "" ↔ ∀ c ∈ cs, isSpace c = true := by
  rw [strip_eq_empty_iff, isBlank, String.toList_ofList, List.all_eq_true]

/-- Blanks can only stand at the end of the last part: they are taken off where it is joined. -/
theorem rstrip_intercalate_last {sep : List Char} {parts : List (List Char)}
    (hstarts : ∀ part ∈ parts, Starts part) (hends : ∀ part ∈ parts.dropLast, rstrip part = part) :
    rstrip (sep.intercalate parts) = sep.intercalate (parts.map rstrip) := by
  induction parts with
  | nil => rfl
  | cons part parts ih =>
    by_cases hparts : parts = []
    · rw [hparts, List.map_singleton, List.intercalate_singleton, List.intercalate_singleton]
    · obtain ⟨next, rest, rfl⟩ := List.exists_cons_of_ne_nil hparts
      rw [List.dropLast_cons₂] at hends
      have hrest := ih (fun part hpart => hstarts part (.tail _ hpart))
        fun part hpart => hends part (.tail _ hpart)
      have hnext : Starts (sep.intercalate (next :: rest)) := by
        rw [intercalate_cons]
        exact (hstarts next (.tail _ (.head _))).append _
      have hmap : (next :: rest).map rstrip ≠ [] := by simp
      rw [List.map_cons (l := next :: rest), List.intercalate_cons_of_ne_nil hparts,
        List.intercalate_cons_of_ne_nil hmap, rstrip_append_of_ne_nil hnext.rstrip_ne_nil, hrest,
        hends part (.head _)]

theorem starts_intercalate {sep : List Char} {parts : List (List Char)} (hne : parts ≠ [])
    (hstarts : ∀ part ∈ parts, Starts part) : Starts (sep.intercalate parts) := by
  obtain ⟨first, rest, rfl⟩ := List.exists_cons_of_ne_nil hne
  rw [intercalate_cons]
  exact (hstarts first (.head _)).append _

end Text
