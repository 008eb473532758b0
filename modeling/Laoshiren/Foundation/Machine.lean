import Mathlib.Data.Nat.Basic
import Mathlib.Tactic.Common

/-!
# Machines that are driven by inputs

A machine takes one step for each input and stays where it is once it has halted. The rules here say
what holds of every run from what one step does: an invariant, a meter that is checked before it is
spent, and a measure that goes down until the machine halts.
-/

namespace Machine

variable {σ ι : Type*}

/-- The state after `n` inputs. -/
def run (step : σ → ι → σ) (s : σ) (inputs : ℕ → ι) : ℕ → σ
  | 0 => s
  | n + 1 => step (run step s inputs n) (inputs n)

variable {step : σ → ι → σ} {s : σ}

/-- A property that every step keeps holds throughout a run. -/
theorem run_invariant {I : σ → Prop} (hstart : I s) (hstep : ∀ s i, I s → I (step s i))
    (inputs : ℕ → ι) (n : ℕ) : I (run step s inputs n) := by
  induction n with
  | zero => exact hstart
  | succ n ih => exact hstep _ _ ih

/-- What a meter has to meet: a step that spends has enough left by the count in the state, and the
count of a machine that goes on takes in what was spent. -/
structure Metered (step : σ → ι → σ) (I halted : σ → Prop) (spent count : σ → ℕ) (limit : ℕ) :
    Prop where
  keeps : ∀ s i, I s → I (step s i)
  stays : ∀ s i, halted s → step s i = s
  spends : ∀ s i, I s → ¬ halted s → ∃ k, spent (step s i) = spent s + k ∧
    (k = 0 ∨ count s + k ≤ limit) ∧ (halted (step s i) ∨ count (step s i) = count s + k)

/-- A meter is never overdrawn. -/
theorem Metered.spent_le {I halted : σ → Prop} {spent count : σ → ℕ} {limit : ℕ}
    (h : Metered step I halted spent count limit) (hI : I s) (hzero : spent s = 0)
    (inputs : ℕ → ι) (n : ℕ) : spent (run step s inputs n) ≤ limit := by
  suffices hinv : I (run step s inputs n) ∧ spent (run step s inputs n) ≤ limit ∧
      (halted (run step s inputs n) ∨ spent (run step s inputs n) ≤ count (run step s inputs n)) from
    hinv.2.1
  induction n with
  | zero =>
    refine ⟨hI, ?_, Or.inr ?_⟩
    · show spent s ≤ limit
      omega
    · show spent s ≤ count s
      omega
  | succ n ih =>
    obtain ⟨hI, hlimit, hcount⟩ := ih
    show I (step _ (inputs n)) ∧ spent (step _ (inputs n)) ≤ limit ∧
      (halted (step _ (inputs n)) ∨ spent (step _ (inputs n)) ≤ count (step _ (inputs n)))
    by_cases hhalt : halted (run step s inputs n)
    · rw [h.stays _ _ hhalt]
      exact ⟨hI, hlimit, Or.inl hhalt⟩
    · have hspent := hcount.resolve_left hhalt
      obtain ⟨k, hk, hroom, hgoes⟩ := h.spends _ (inputs n) hI hhalt
      refine ⟨h.keeps _ _ hI, ?_, hgoes.imp id fun hcount => ?_⟩
      · rcases hroom with rfl | hle
        · omega
        · omega
      · omega

/-- A machine whose measure goes down with every step before it halts has halted once it took as many
steps as the measure says. -/
theorem run_halts {I halted : σ → Prop} {measure : σ → ℕ} (hI : I s)
    (hkeeps : ∀ s i, I s → I (step s i)) (hstays : ∀ s i, halted s → step s i = s)
    (hdown : ∀ s i, I s → ¬ halted s → halted (step s i) ∨ measure (step s i) < measure s)
    (inputs : ℕ → ι) {n : ℕ} (hn : measure s < n) : halted (run step s inputs n) := by
  suffices hinv : I (run step s inputs n) ∧
      (halted (run step s inputs n) ∨ measure (run step s inputs n) + n ≤ measure s) by
    rcases hinv.2 with hhalt | hle
    · exact hhalt
    · omega
  clear hn
  induction n with
  | zero => exact ⟨hI, Or.inr le_rfl⟩
  | succ n ih =>
    obtain ⟨hI, ih⟩ := ih
    refine ⟨hkeeps _ _ hI, ?_⟩
    show halted (step _ (inputs n)) ∨ measure (step _ (inputs n)) + (n + 1) ≤ measure s
    by_cases hhalt : halted (run step s inputs n)
    · left
      rw [hstays _ _ hhalt]
      exact hhalt
    · rcases hdown _ (inputs n) hI hhalt with hnow | hlt
      · exact Or.inl hnow
      · right
        rcases ih with hhalt' | hle
        · exact absurd hhalt' hhalt
        · omega

end Machine
