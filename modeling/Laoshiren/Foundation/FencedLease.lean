import Mathlib.Data.List.Basic

/-!
# Leases with fencing tokens

A lease is granted to one holder at a time. Every grant counts an epoch up and hands it out as the
fencing token of the grant; a holder gives the lease back by presenting its token, and anybody may
revoke it. `Fenced` is what then holds of the tokens that were handed out and of those that were
accepted back, in any order of such steps: tokens only grow, and each is accepted once.
-/

/-- A lease: the epoch of its last grant, and its holder while it is out. -/
structure Lease (ω : Type*) where
  epoch : ℕ
  holder : Option ω

namespace Lease

variable {ω : Type*}

/-- What a step does: it hands a token out, accepts one back, or neither. -/
inductive Event where
  | granted (token : ℕ)
  | released (token : ℕ)
  | silent
  deriving DecidableEq

/-- The steps of a lease. -/
inductive Step : Lease ω → Event → Lease ω → Prop
  | grant {l : Lease ω} {owner : ω} : Step l (.granted (l.epoch + 1)) ⟨l.epoch + 1, some owner⟩
  | release {l : Lease ω} (h : l.holder.isSome) : Step l (.released l.epoch) ⟨l.epoch, none⟩
  | revoke {l : Lease ω} : Step l .silent ⟨l.epoch, none⟩
  | keep {l : Lease ω} : Step l .silent l

/-- Two steps that nobody is told about are one. -/
theorem Step.silent_trans {l₁ l₂ l₃ : Lease ω} (h : Step l₁ .silent l₂) (h' : Step l₂ .silent l₃) :
    Step l₁ .silent l₃ := by
  cases h with
  | keep => exact h'
  | revoke =>
    cases h' with
    | keep => exact .revoke
    | revoke => exact .revoke

def Event.grants : Event → List ℕ
  | .granted token => [token]
  | _ => []

def Event.releases : Event → List ℕ
  | .released token => [token]
  | _ => []

/-- The tokens handed out and accepted so far (latest first) fit the lease. -/
structure Fenced (grants releases : List ℕ) (l : Lease ω) : Prop where
  increasing : grants.Pairwise (· > ·)
  granted : ∀ token ∈ grants, token ≤ l.epoch
  once : releases.Nodup
  released : ∀ token ∈ releases, token ≤ l.epoch
  /-- The token of the present holder was not accepted yet. -/
  fresh : l.holder.isSome → l.epoch ∉ releases

/-- A lease of which nothing is known yet. -/
theorem Fenced.nil (l : Lease ω) : Fenced [] [] l := by
  constructor <;> simp

/-- Every step keeps the tokens in order. -/
theorem Fenced.step {grants releases : List ℕ} {l l' : Lease ω} {e : Event}
    (h : Fenced grants releases l) (hstep : Step l e l') :
    Fenced (e.grants ++ grants) (e.releases ++ releases) l' := by
  cases hstep with
  | grant =>
    refine ⟨List.pairwise_cons.mpr ⟨fun token ht => ?_, h.increasing⟩, fun token ht => ?_, h.once,
      fun token ht => Nat.le_succ_of_le (h.released token ht), fun _ ht => ?_⟩
    · exact Nat.lt_succ_of_le (h.granted token ht)
    · rcases List.mem_cons.mp ht with rfl | ht
      · exact Nat.le_refl _
      · exact Nat.le_succ_of_le (h.granted token ht)
    · exact absurd (h.released _ ht) (by simp)
  | release hheld =>
    refine ⟨h.increasing, h.granted, List.nodup_cons.mpr ⟨h.fresh hheld, h.once⟩,
      fun token ht => ?_, fun hnone => by simp at hnone⟩
    rcases List.mem_cons.mp ht with rfl | ht
    · exact Nat.le_refl _
    · exact h.released token ht
  | revoke => exact ⟨h.increasing, h.granted, h.once, h.released, fun hnone => by simp at hnone⟩
  | keep => exact h

end Lease
