import Mathlib.Data.List.Infix
import Mathlib.Data.List.Chain

/-!
# Blocks that end at a blank line

A stream of symbols carries blocks one after the other, each followed by two marks. A reader gets the
stream in pieces that need not end where a block does: it keeps what stands after the last blank line
and puts the next piece behind it. The blocks that it reads do not depend on the pieces (`cut_append`),
and they are the ones that were sent (`cut_of_begins`).
-/

namespace Blocks

variable {α : Type*} (mark : α)

/-- The blocks as they are sent. -/
def join (blocks : List (List α)) : List α := blocks.flatMap (· ++ [mark, mark])

/-- There is no blank line in a text. -/
def Unbroken (cs : List α) : Prop := cs.IsChain fun c d => ¬ (c = mark ∧ d = mark)

/-- A block that is sent as one: no blank line in it, nor with the first mark behind it. -/
def Plain (block : List α) : Prop := Unbroken mark (block ++ [mark])

variable {mark} {cs : List α} {blocks : List (List α)}

@[simp] theorem join_nil : join mark ([] : List (List α)) = [] := rfl

@[simp] theorem join_cons (block : List α) :
    join mark (block :: blocks) = block ++ mark :: mark :: join mark blocks := by
  simp [join]

@[simp] theorem join_append (blocks' : List (List α)) :
    join mark (blocks ++ blocks') = join mark blocks ++ join mark blocks' := by
  simp [join]

/-! ## Blocks of lines -/

theorem unbroken_of_not_mem (h : mark ∉ cs) : Unbroken mark cs := by
  induction cs with
  | nil => exact List.IsChain.nil
  | cons c cs ih =>
    obtain ⟨hc, hcs⟩ := not_or.mp (mt List.mem_cons.mpr h)
    cases cs with
    | nil => exact List.IsChain.singleton c
    | cons d cs => exact List.isChain_cons_cons.mpr ⟨fun hmark => hc hmark.1.symm, ih hcs⟩

theorem unbroken_lines {lines : List (List α)} (hlines : ∀ line ∈ lines, line ≠ [] ∧ mark ∉ line) :
    Unbroken mark (lines.flatMap (· ++ [mark])) := by
  induction lines with
  | nil => exact List.IsChain.nil
  | cons line lines ih =>
    obtain ⟨-, hmem⟩ := hlines line List.mem_cons_self
    have hline : Unbroken mark (line ++ [mark]) := by
      refine List.isChain_append.mpr
        ⟨unbroken_of_not_mem hmem, List.IsChain.singleton _, fun c hc d _ hmark => ?_⟩
      exact hmem (hmark.1 ▸ List.mem_of_getLast? hc)
    have hrest := ih fun l hl => hlines l (List.mem_cons_of_mem _ hl)
    rw [List.flatMap_cons]
    refine List.isChain_append.mpr ⟨hline, hrest, fun c _ d hd hmark => ?_⟩
    cases lines with
    | nil => cases hd
    | cons next lines =>
      obtain ⟨hnext, hnextMem⟩ := hlines next (List.mem_cons_of_mem _ List.mem_cons_self)
      obtain ⟨first, tail, rfl⟩ := List.exists_cons_of_ne_nil hnext
      obtain rfl : first = d := Option.some.inj hd
      exact hnextMem (hmark.2 ▸ List.mem_cons_self)

/-- Lines that are not empty make a block. -/
theorem plain_intercalate {lines : List (List α)} (hne : lines ≠ [])
    (hlines : ∀ line ∈ lines, line ≠ [] ∧ mark ∉ line) : Plain mark ([mark].intercalate lines) := by
  have hends : [mark].intercalate lines ++ [mark] = lines.flatMap (· ++ [mark]) := by
    clear hlines
    induction lines with
    | nil => exact absurd rfl hne
    | cons line lines ih =>
      cases lines with
      | nil => simp [List.intercalate]
      | cons next lines =>
        rw [List.flatMap_cons, ← ih (List.cons_ne_nil _ _)]
        simp [List.intercalate]
  unfold Plain
  rw [hends]
  exact unbroken_lines hlines

/-! ## Reading in pieces -/

/-- Put a symbol before the first block, or before the rest where there is no block. -/
def push (c : α) : List (List α) × List α → List (List α) × List α
  | ([], rest) => ([], c :: rest)
  | (block :: blocks, rest) => ((c :: block) :: blocks, rest)

variable [DecidableEq α]

/-- Split at the blank lines: the blocks, and what stands after the last of them. -/
def cut (mark : α) : List α → List (List α) × List α
  | [] => ([], [])
  | [c] => ([], [c])
  | c :: d :: cs =>
    if c = mark ∧ d = mark then ([] :: (cut mark cs).1, (cut mark cs).2)
    else push c (cut mark (d :: cs))

theorem cut_of_unbroken (h : Unbroken mark cs) : cut mark cs = ([], cs) := by
  induction cs using cut.induct mark with
  | case1 => rfl
  | case2 c => rfl
  | case3 c d cs hmark _ => exact absurd hmark (List.isChain_cons_cons.mp h).1
  | case4 c d cs hmark ih =>
    rw [cut, if_neg hmark, ih (List.isChain_cons_cons.mp h).2]
    rfl

theorem cut_of_no_block (h : (cut mark cs).1 = []) : cut mark cs = ([], cs) := by
  induction cs using cut.induct mark with
  | case1 => rfl
  | case2 c => rfl
  | case3 c d cs hmark _ =>
    rw [cut, if_pos hmark] at h
    cases h
  | case4 c d cs hmark ih =>
    rw [cut, if_neg hmark] at h ⊢
    generalize hcut : cut mark (d :: cs) = p at h ih ⊢
    obtain ⟨blocks, rest⟩ := p
    cases blocks with
    | nil =>
      rw [ih rfl]
      rfl
    | cons block blocks => cases h

/-- A piece more: the blocks so far, and those that the rest gives with the piece behind it. -/
theorem cut_append (cs ds : List α) :
    cut mark (cs ++ ds) =
      ((cut mark cs).1 ++ (cut mark ((cut mark cs).2 ++ ds)).1, (cut mark ((cut mark cs).2 ++ ds)).2) := by
  induction cs using cut.induct mark with
  | case1 => simp [cut]
  | case2 c => simp [cut]
  | case3 c d cs hmark ih => simp only [List.cons_append, cut, if_pos hmark, ih]
  | case4 c d cs hmark ih =>
    by_cases hnone : (cut mark (c :: d :: cs)).1 = []
    · rw [cut_of_no_block hnone]
      rfl
    · have hmore : cut mark (c :: d :: cs) = push c (cut mark (d :: cs)) := by rw [cut, if_neg hmark]
      have hwhole : cut mark ((c :: d :: cs) ++ ds) = push c (cut mark ((d :: cs) ++ ds)) := by
        rw [List.cons_append, List.cons_append, cut, if_neg hmark]
      rw [hmore] at hnone ⊢
      rw [hwhole, ih]
      generalize cut mark (d :: cs) = p at hnone ⊢
      obtain ⟨blocks, rest⟩ := p
      cases blocks with
      | nil => exact absurd rfl hnone
      | cons block blocks => rfl

/-! ## Reading what was sent -/

theorem cut_block {block : List α} (h : Plain mark block) (cs : List α) :
    cut mark (block ++ mark :: mark :: cs) = (block :: (cut mark cs).1, (cut mark cs).2) := by
  induction block with
  | nil => simp [cut]
  | cons c block ih =>
    have hrest : Plain mark block := List.IsChain.tail h
    cases block with
    | nil =>
      have hmark : ¬ (c = mark ∧ mark = mark) := (List.isChain_cons_cons.mp h).1
      rw [List.cons_append, List.nil_append, cut, if_neg hmark]
      have hnil := ih hrest
      rw [List.nil_append] at hnil
      rw [hnil]
      rfl
    | cons d block =>
      have hmark : ¬ (c = mark ∧ d = mark) := (List.isChain_cons_cons.mp h).1
      rw [List.cons_append, List.cons_append, cut, if_neg hmark, ← List.cons_append, ih hrest]
      rfl

/-- The blocks come out as they went in, whatever is under way behind them. -/
theorem cut_join (hplain : ∀ block ∈ blocks, Plain mark block) (hrest : Unbroken mark cs) :
    cut mark (join mark blocks ++ cs) = (blocks, cs) := by
  induction blocks with
  | nil => exact cut_of_unbroken hrest
  | cons block blocks ih =>
    have htail := ih fun b hb => hplain b (List.mem_cons_of_mem _ hb)
    rw [join_cons, List.append_assoc, List.cons_append, List.cons_append,
      cut_block (hplain block List.mem_cons_self), htail]

omit [DecidableEq α] in
/-- The beginning of what is sent: some blocks, and a part of the next one. -/
theorem exists_of_begins_join (hplain : ∀ block ∈ blocks, Plain mark block)
    (h : cs <+: join mark blocks) :
    ∃ first rest, first <+: blocks ∧ Unbroken mark rest ∧ cs = join mark first ++ rest := by
  induction blocks generalizing cs with
  | nil =>
    obtain rfl := List.prefix_nil.mp h
    exact ⟨[], [], List.nil_prefix, List.IsChain.nil, rfl⟩
  | cons block blocks ih =>
    by_cases hlong : (block ++ [mark]).length < cs.length
    · have hwhole : block ++ [mark, mark] <+: cs := by
        refine List.prefix_of_prefix_length_le ?_ h ?_
        · rw [join_cons]
          exact ⟨join mark blocks, by simp⟩
        · simp only [List.length_append, List.length_cons, List.length_nil] at hlong ⊢
          omega
      obtain ⟨ds, rfl⟩ := hwhole
      have htail : ds <+: join mark blocks := by
        rw [join_cons] at h
        have heq : block ++ mark :: mark :: join mark blocks =
            (block ++ [mark, mark]) ++ join mark blocks := by simp
        rw [heq] at h
        exact (List.prefix_append_right_inj _).mp h
      obtain ⟨first, rest, hfirst, hrest, rfl⟩ :=
        ih (fun b hb => hplain b (List.mem_cons_of_mem _ hb)) htail
      exact ⟨block :: first, rest, List.cons_prefix_cons.mpr ⟨rfl, hfirst⟩, hrest, by simp⟩
    · refine ⟨[], cs, List.nil_prefix, ?_, rfl⟩
      have hpart : cs <+: block ++ [mark] := by
        refine List.prefix_of_prefix_length_le h ?_ (by omega)
        rw [join_cons]
        exact ⟨mark :: join mark blocks, by simp⟩
      exact List.IsChain.prefix (hplain block List.mem_cons_self) hpart

/-- A reader of the beginning of what is sent has read the beginning of the blocks. -/
theorem cut_of_begins (hplain : ∀ block ∈ blocks, Plain mark block) (h : cs <+: join mark blocks) :
    (cut mark cs).1 <+: blocks ∧ cs = join mark (cut mark cs).1 ++ (cut mark cs).2 := by
  obtain ⟨first, rest, hfirst, hrest, rfl⟩ := exists_of_begins_join hplain h
  rw [cut_join (fun b hb => hplain b (hfirst.subset hb)) hrest]
  exact ⟨hfirst, rfl⟩

end Blocks
