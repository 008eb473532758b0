import Mathlib.Data.List.Basic
import Mathlib.Data.List.Infix
import Mathlib.Data.List.Sort

/-!
# Numbered logs

An append-only log numbers its entries 1, 2, 3 and so on. A reader takes it page by page: a page has
the entries with a greater number than the last one that the reader has seen, in the order of their
numbers and up to a limit. The log may grow between two pages. What the reader has seen is always
the beginning of the log (`follow_begins`), and every page brings it further until it has seen all
that there is (`take_begins_follow`).
-/

namespace NumberedLog

variable {α : Type*} (num : α → ℕ)

/-- The entries have the numbers 1, 2, 3 … in the order of the log. -/
def Numbered (log : List α) : Prop := log.map num = List.range' 1 log.length

/-- The first `limit` entries beyond the number `after`, in the order of their numbers. -/
def page (after : Option ℕ) (limit : ℕ) (log : List α) : List α :=
  ((log.filter fun a => ∀ n ∈ after, n < num a).insertionSort fun a b => num a ≤ num b).take limit

/-- The number of the last entry that was seen. -/
def cursor (seen : List α) : Option ℕ := seen.getLast?.map num

/-- What a reader has seen after `k` pages, where the page `k` is one of `logs k`. -/
def follow (limit : ℕ) (logs : ℕ → List α) : ℕ → List α
  | 0 => []
  | k + 1 =>
    let seen := follow limit logs k
    seen ++ page num (cursor num seen) limit (logs k)

variable {num} {log log' : List α}

theorem Numbered.nil : Numbered num [] := rfl

/-- One more entry, under the next number. -/
theorem Numbered.append {a : α} (h : Numbered num log) (ha : num a = log.length + 1) :
    Numbered num (log ++ [a]) := by
  have hlog : log.map num = List.range' 1 log.length := h
  simp only [Numbered, List.map_append, List.map_cons, List.map_nil, List.length_append,
    List.length_cons, List.length_nil, List.range'_concat, hlog, ha]
  simp [Nat.add_comm]

/-- The beginning of a numbered log is numbered. -/
theorem Numbered.of_begins (h : Numbered num log') (hp : log <+: log') : Numbered num log := by
  obtain ⟨rest, rfl⟩ := hp
  have hall : (log ++ rest).map num = List.range' 1 (log ++ rest).length := h
  rw [List.map_append, List.length_append, ← List.range'_append_1] at hall
  exact (List.append_inj hall (by simp)).1

/-- The number of an entry is its place in the log. -/
theorem Numbered.getElem (h : Numbered num log) {i : ℕ} (hi : i < log.length) :
    num log[i] = i + 1 := by
  have hall : log.map num = List.range' 1 log.length := h
  have hat : (log.map num)[i]? = (List.range' 1 log.length)[i]? := by rw [hall]
  rw [List.getElem?_map, List.getElem?_eq_getElem hi, Option.map_some,
    List.getElem?_eq_getElem (by simpa using hi), List.getElem_range', Option.some.injEq] at hat
  omega

/-- The cursor of a numbered log is its length. -/
theorem Numbered.cursor (h : Numbered num log) :
    cursor num log = if log.length = 0 then none else some log.length := by
  unfold NumberedLog.cursor
  split
  case isTrue hnil => simp [List.length_eq_zero_iff.mp hnil]
  case isFalse hpos =>
    rw [List.getLast?_eq_getElem?, List.getElem?_eq_getElem (by omega), Option.map_some,
      h.getElem (by omega)]
    congr 1
    omega

/-- The entries beyond a number are the rest of the log. -/
theorem Numbered.filter (h : Numbered num log) (n : ℕ) :
    log.filter (fun a => n < num a) = log.drop n := by
  have hsplit := List.take_append_drop n log
  conv_lhs => rw [← hsplit]
  rw [List.filter_append]
  have hbefore : (log.take n).filter (fun a => n < num a) = [] := by
    rw [List.filter_eq_nil_iff]
    intro a ha
    obtain ⟨i, hi, rfl⟩ := List.mem_iff_getElem.mp ha
    rw [List.length_take] at hi
    rw [List.getElem_take, h.getElem (by omega)]
    simp only [decide_eq_true_eq]
    omega
  have hafter : (log.drop n).filter (fun a => n < num a) = log.drop n := by
    rw [List.filter_eq_self]
    intro a ha
    obtain ⟨i, hi, rfl⟩ := List.mem_iff_getElem.mp ha
    rw [List.length_drop] at hi
    rw [List.getElem_drop, h.getElem (by omega)]
    simp only [decide_eq_true_eq]
    omega
  rw [hbefore, hafter, List.nil_append]

/-- A numbered log is in the order of its numbers. -/
theorem Numbered.pairwise (h : Numbered num log) : log.Pairwise fun a b => num a ≤ num b := by
  have hmap : (log.map num).Pairwise (· ≤ ·) := by
    rw [show log.map num = List.range' 1 log.length from h]
    exact List.pairwise_le_range'
  exact List.pairwise_map.mp hmap

/-- A page of a numbered log is a piece of it. -/
theorem Numbered.page_eq (h : Numbered num log) (after : Option ℕ) (limit : ℕ) :
    page num after limit log = (log.drop (after.getD 0)).take limit := by
  have hsorted : ∀ n, (log.drop n).insertionSort (fun a b => num a ≤ num b) = log.drop n :=
    fun n => (h.pairwise.sublist (List.drop_sublist n log)).insertionSort_eq
  cases after with
  | none =>
    have hall : log.filter (fun a => ∀ n ∈ (none : Option ℕ), n < num a) = log.drop 0 := by simp
    rw [page, hall, hsorted]
    rfl
  | some n =>
    have hbeyond : log.filter (fun a => ∀ m ∈ some n, m < num a) = log.drop n := by
      rw [← h.filter n]
      simp
    rw [page, hbeyond, hsorted]
    rfl

/-! ## Reading while the log grows -/

variable {limit : ℕ} {logs : ℕ → List α}

theorem begins_of_le (hgrow : ∀ k, logs k <+: logs (k + 1)) {i j : ℕ} (hij : i ≤ j) :
    logs i <+: logs j := by
  induction hij with
  | refl => exact List.prefix_refl _
  | step _ ih => exact ih.trans (hgrow _)

/-- One more page, for a reader that has seen the beginning of the log. -/
theorem follow_succ (hnum : ∀ k, Numbered num (logs k)) {k : ℕ}
    (h : follow num limit logs k <+: logs k) :
    follow num limit logs (k + 1) = (logs k).take ((follow num limit logs k).length + limit) := by
  have hseen := (hnum k).of_begins h
  have hcursor : (cursor num (follow num limit logs k)).getD 0 =
      (follow num limit logs k).length := by
    rw [hseen.cursor]
    split
    case isTrue hnil => exact hnil.symm
    case isFalse => rfl
  show follow num limit logs k ++ page num _ limit (logs k) = _
  rw [(hnum k).page_eq, hcursor, List.take_add, ← List.prefix_iff_eq_take.mp h]

/-- What a reader has seen is the beginning of the log: every entry once, in order, none left
out. -/
theorem follow_begins (hnum : ∀ k, Numbered num (logs k)) (hgrow : ∀ k, logs k <+: logs (k + 1))
    (k : ℕ) : follow num limit logs k <+: logs k := by
  induction k with
  | zero => exact List.nil_prefix
  | succ k ih =>
    rw [follow_succ hnum ih]
    exact (List.take_prefix _ _).trans (hgrow k)

/-- From the page `i` on, every page brings a reader at least one entry further in a log that was
there by then. -/
theorem take_begins_follow (hnum : ∀ k, Numbered num (logs k))
    (hgrow : ∀ k, logs k <+: logs (k + 1)) (hlimit : 0 < limit) {i : ℕ} (hlog : log <+: logs i)
    (n : ℕ) : log.take n <+: follow num limit logs (i + n) := by
  induction n with
  | zero => simp
  | succ n ih =>
    have hthere : log <+: logs (i + n) := hlog.trans (begins_of_le hgrow (by omega))
    have hlen : min n log.length ≤ (follow num limit logs (i + n)).length := by
      simpa using ih.length_le
    rw [← Nat.add_assoc, follow_succ hnum (follow_begins hnum hgrow _),
      List.prefix_iff_eq_take.mp hthere, List.take_take]
    refine List.take_prefix_take_left ?_
    omega

/-- A reader sees every entry of a log after as many pages as the log has entries. -/
theorem begins_follow (hnum : ∀ k, Numbered num (logs k)) (hgrow : ∀ k, logs k <+: logs (k + 1))
    (hlimit : 0 < limit) {i k : ℕ} (hlog : log <+: logs i) (hk : i + log.length ≤ k) :
    log <+: follow num limit logs k := by
  obtain ⟨d, rfl⟩ := Nat.exists_eq_add_of_le hk
  have hstart : log <+: logs (i + d) := hlog.trans (begins_of_le hgrow (by omega))
  have hall := take_begins_follow hnum hgrow hlimit hstart log.length
  rw [List.take_length] at hall
  rwa [Nat.add_right_comm] at hall

/-- A page, for a reader that has seen the entries from a place on, brings the next ones: it may come
from any earlier log. -/
theorem begins_page {cur seen : List α} {start : ℕ} (hcur : Numbered num cur) (hlog : log <+: cur)
    (hseen : seen <+: cur.drop start) :
    seen ++ page num (some (start + seen.length)) limit log <+: cur.drop start := by
  obtain ⟨rest, hrest⟩ := hseen
  have hbeyond : cur.drop (start + seen.length) = rest := by
    rw [← List.drop_drop, ← hrest, List.drop_left]
  rw [(hcur.of_begins hlog).page_eq, ← hrest]
  refine (List.prefix_append_right_inj seen).mpr ?_
  rw [← hbeyond]
  exact (List.take_prefix _ _).trans (hlog.drop _)

/-- What a log has beyond a place is the beginning of what any longer one has there, and as much of it
as it is long. -/
theorem begins_of_length {cur seen : List α} {start : ℕ} (hlog : log <+: cur)
    (hseen : seen <+: cur.drop start) (hlen : log.length ≤ start + seen.length) :
    log.drop start <+: seen := by
  refine List.prefix_of_prefix_length_le (hlog.drop start) hseen ?_
  rw [List.length_drop]
  omega

/-- The numbers of the entries that a reader has seen from a place on. -/
theorem Numbered.map_of_begins {seen : List α} {start : ℕ} (h : Numbered num log)
    (hseen : seen <+: log.drop start) : seen.map num = List.range' (start + 1) seen.length := by
  refine List.ext_getElem (by simp) fun i hi _ => ?_
  rw [List.length_map] at hi
  have hlen := hseen.length_le
  rw [List.length_drop] at hlen
  rw [List.getElem_map, hseen.getElem hi, List.getElem_drop, h.getElem (by omega),
    List.getElem_range']
  omega

end NumberedLog

/-!
## Logs in which every event fits its past

A log is `Traced P` if each of its events stands in the relation `P` to the events before it.
-/

/-- Every event of a log fits the events before it. -/
def Traced {ε : Type*} (P : List ε → ε → Prop) (log : List ε) : Prop :=
  ∀ pre e post, log = pre ++ e :: post → P pre e

namespace Traced

variable {ε : Type*} {P : List ε → ε → Prop} {log : List ε}

theorem nil : Traced P [] := by
  intro pre e post h
  exact absurd h.symm (by simp)

/-- A log grows by an event that fits it. -/
theorem concat (h : Traced P log) {e : ε} (he : P log e) : Traced P (log ++ [e]) := by
  intro pre e' post hsplit
  rcases List.eq_nil_or_concat post with rfl | ⟨post, last, rfl⟩
  · obtain ⟨rfl, hlast⟩ := List.append_inj' hsplit rfl
    obtain rfl := List.singleton_inj.mp hlast
    exact he
  · have hsplit' : log ++ [e] = (pre ++ e' :: post) ++ [last] := by simpa using hsplit
    exact h pre e' post (List.append_inj_left' hsplit' rfl)

/-- A log grows by events that fit it wherever they stand among themselves: each of them fits a log
that meets `Q`, and leaves one that does. -/
theorem append_of {Q : List ε → Prop} (h : Traced P log) (hQ : Q log) {events : List ε}
    (hfits : ∀ l, ∀ e ∈ events, Q l → P l e ∧ Q (l ++ [e])) :
    Traced P (log ++ events) ∧ Q (log ++ events) := by
  induction events generalizing log with
  | nil =>
    rw [List.append_nil]
    exact ⟨h, hQ⟩
  | cons e events ih =>
    obtain ⟨he, hQ'⟩ := hfits log e List.mem_cons_self hQ
    have hstep := ih (h.concat he) hQ' fun l e' he' => hfits l e' (List.mem_cons_of_mem _ he')
    rwa [List.append_assoc] at hstep

end Traced
