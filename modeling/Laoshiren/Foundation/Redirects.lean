import Mathlib.Algebra.Group.Nat.Defs
import Mathlib.Data.Fintype.EquivFin
import Mathlib.Logic.Relation

/-!
# Redirects

A node of a graph redirects to one other node or to none. Redirects are *acyclic* where following them
never comes back to where it was, so that everyone who follows them arrives.
-/

namespace Redirects

open Relation

variable {κ : Type*}

/-- One redirect. -/
def Step (next : κ → Option κ) (a b : κ) : Prop := next a = some b

/-- Redirects from `a` on lead to `b`. -/
def Leads (next : κ → Option κ) : κ → κ → Prop := ReflTransGen (Step next)

/-- No redirects lead back to where they started. -/
def Acyclic (next : κ → Option κ) : Prop := ∀ a, ¬TransGen (Step next) a a

variable {next next' : κ → Option κ} {a b : κ}

theorem acyclic_of_none (h : ∀ a, next a = none) : Acyclic next := by
  intro a hcycle
  obtain ⟨b, hstep, -⟩ := TransGen.head'_iff.mp hcycle
  have hnone : next a = none := h a
  rw [Step, hnone] at hstep
  cases hstep

theorem Acyclic.mono (h : Acyclic next) (hsub : ∀ a b, next' a = some b → next a = some b) :
    Acyclic next' :=
  fun a hcycle => h a (TransGen.mono hsub _ _ hcycle)

/-- What a further redirect from `a` to `b` adds to the ways that were there: those that take it. -/
theorem way_cases (hnew : ∀ c d, next' c = some d → next c = some d ∨ c = a ∧ d = b)
    (hfree : ¬Leads next b a) {c d : κ} (h : TransGen (Step next') c d) :
    TransGen (Step next) c d ∨ Leads next c a ∧ Leads next b d := by
  induction h with
  | single hstep =>
    rcases hnew _ _ hstep with hold | ⟨rfl, rfl⟩
    · exact .inl (.single hold)
    · exact .inr ⟨.refl, .refl⟩
  | tail _ hstep ih =>
    rcases ih with hway | ⟨hto, hfrom⟩
    · rcases hnew _ _ hstep with hold | ⟨rfl, rfl⟩
      · exact .inl (hway.tail hold)
      · exact .inr ⟨hway.to_reflTransGen, .refl⟩
    · rcases hnew _ _ hstep with hold | ⟨rfl, rfl⟩
      · exact .inr ⟨hto, hfrom.tail hold⟩
      · exact absurd hfrom hfree

/-- A node may redirect to one that does not lead to it. -/
theorem Acyclic.redirect (h : Acyclic next)
    (hnew : ∀ c d, next' c = some d → next c = some d ∨ c = a ∧ d = b)
    (hfree : ¬Leads next b a) : Acyclic next' := by
  intro c hcycle
  rcases way_cases hnew hfree hcycle with hway | ⟨hto, hfrom⟩
  · exact h c hway
  · exact hfree (hfrom.trans hto)

/-- A redirect from a node to one that leads to it closes a cycle. -/
theorem not_acyclic (hsub : ∀ c d, next c = some d → next' c = some d) (hab : next' a = some b)
    (hback : Leads next b a) : ¬Acyclic next' := by
  intro h
  exact h a (TransGen.head' hab (ReflTransGen.mono hsub _ _ hback))

/-! ## Following redirects -/

theorem eq_of_leads (hnone : next a = none) (h : Leads next a b) : b = a := by
  rcases ReflTransGen.cases_head h with rfl | ⟨c, hstep, -⟩
  · rfl
  · have hsome : next a = some c := hstep
    rw [hnone] at hsome
    cases hsome

/-- Acyclic redirects lead to an end. -/
theorem Acyclic.exists_end [Finite κ] (h : Acyclic next) (a : κ) :
    ∃ b, Leads next a b ∧ next b = none := by
  have : IsTrans κ fun b a => TransGen (Step next) a b := ⟨fun _ _ _ hcb hba => hba.trans hcb⟩
  have : Std.Irrefl fun b a => TransGen (Step next) a b := ⟨h⟩
  have hwf := Finite.wellFounded_of_trans_of_irrefl fun b a => TransGen (Step next) a b
  induction a using hwf.induction with
  | _ a ih =>
    cases hnext : next a with
    | none => exact ⟨a, .refl, hnext⟩
    | some c =>
      have hstep : Step next a c := hnext
      obtain ⟨b, hleads, hnone⟩ := ih c (.single hstep)
      exact ⟨b, .head hstep hleads, hnone⟩

/-- Each of the nodes that someone came through leads to the present one. -/
def Trail (next : κ → Option κ) (seen : Finset κ) (current : κ) : Prop :=
  ∀ a ∈ seen, TransGen (Step next) a current

theorem trail_start (current : κ) : Trail next ∅ current := by
  intro a ha
  exact absurd ha (Finset.notMem_empty a)

/-- Nobody comes to a node twice. -/
theorem Trail.not_mem {seen : Finset κ} (h : Trail next seen a) (hacyclic : Acyclic next) :
    a ∉ seen :=
  fun hseen => hacyclic a (h a hseen)

theorem Trail.follow [DecidableEq κ] {seen : Finset κ} (h : Trail next seen a)
    (hstep : next a = some b) : Trail next (insert a seen) b := by
  intro c hc
  rcases Finset.mem_insert.mp hc with rfl | hc
  · exact .single hstep
  · exact (h c hc).tail hstep

theorem toFin_injective (w : ℕ) : Function.Injective (BitVec.toFin : BitVec w → Fin (2 ^ w)) :=
  fun _ _ h => BitVec.eq_of_toNat_eq (congrArg Fin.val h)

instance finite (w : ℕ) : Finite (BitVec w) := Finite.of_injective _ (toFin_injective w)

/-- The nodes that are still to be seen get fewer, where nodes are numbers of `w` bits. -/
theorem card_insert_lt {w : ℕ} {seen : Finset (BitVec w)} {a : BitVec w} (h : a ∉ seen) :
    2 ^ w - (insert a seen).card < 2 ^ w - seen.card := by
  have hinsert : (insert a seen).card = seen.card + 1 := Finset.card_insert_of_notMem h
  have hcard : (insert a seen).card ≤ 2 ^ w := by
    have hle : ((insert a seen).map ⟨BitVec.toFin, toFin_injective w⟩).card ≤
        Fintype.card (Fin (2 ^ w)) := Finset.card_le_univ _
    rwa [Finset.card_map, Fintype.card_fin] at hle
  omega

end Redirects
