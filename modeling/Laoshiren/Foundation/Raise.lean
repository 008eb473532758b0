import Mathlib.Data.Option.Basic

/-!
# Code that raises

`Except ε` is the monad of code that may raise. A program written with `ensure` and `orRaise` is
inverted by rewriting: a run that returned went through every check.
-/

namespace Raise

variable {ε : Type*} {α β : Type}

/-- `if not c: raise e`. -/
def ensure (e : ε) (c : Prop) [Decidable c] : Except ε Unit := if c then .ok () else .error e

/-- `if value is None: raise e`. -/
def orRaise (e : ε) : Option α → Except ε α
  | some a => .ok a
  | none => .error e

@[simp] theorem ensure_eq_ok {e : ε} {c : Prop} [Decidable c] {u : Unit} :
    ensure e c = .ok u ↔ c := by
  unfold ensure
  split <;> simp_all

@[simp] theorem orRaise_eq_ok {e : ε} {o : Option α} {a : α} :
    orRaise e o = .ok a ↔ o = some a := by
  cases o <;> simp [orRaise]

@[simp] theorem bind_eq_ok {x : Except ε α} {f : α → Except ε β} {b : β} :
    (x >>= f) = .ok b ↔ ∃ a, x = .ok a ∧ f a = .ok b := by
  cases x <;> simp [bind, Except.bind]

@[simp] theorem pure_eq_ok {a b : α} : (pure a : Except ε α) = .ok b ↔ a = b := by
  simp [pure, Except.pure]

@[simp] theorem throw_eq_ok {e : ε} {b : α} : (throw e : Except ε α) = .ok b ↔ False := by
  simp [throw, throwThe, MonadExceptOf.throw]

/-! ## The errors -/

theorem ensure_eq_error {e e' : ε} {c : Prop} [Decidable c] :
    ensure e c = .error e' ↔ e = e' ∧ ¬c := by
  unfold ensure
  split <;> simp_all

theorem orRaise_eq_error {e e' : ε} {o : Option α} :
    orRaise e o = .error e' ↔ e = e' ∧ o = none := by
  cases o <;> simp [orRaise]

theorem bind_eq_error {x : Except ε α} {f : α → Except ε β} {e : ε} :
    (x >>= f) = .error e ↔ x = .error e ∨ ∃ a, x = .ok a ∧ f a = .error e := by
  cases x <;> simp [bind, Except.bind]

/-! ## Running forward -/

theorem bind_of_ok {x : Except ε α} {a : α} (h : x = .ok a) (f : α → Except ε β) :
    (x >>= f) = f a := by
  rw [h]
  rfl

theorem bind_of_ensure {e : ε} {c : Prop} [Decidable c] (h : c) (f : Unit → Except ε β) :
    (ensure e c >>= f) = f () := bind_of_ok (ensure_eq_ok.mpr h) f

theorem bind_of_orRaise {e : ε} {o : Option α} {a : α} (h : o = some a) (f : α → Except ε β) :
    (orRaise e o >>= f) = f a := bind_of_ok (orRaise_eq_ok.mpr h) f

/-- A check that fails raises its error. -/
theorem ensure_raises {e : ε} {c : Prop} [Decidable c] (h : ¬c) (f : Unit → Except ε β) :
    (ensure e c >>= f) = .error e := by
  unfold ensure
  rw [if_neg h]
  rfl

/-- `except … as e: raise g(e)`: another error in the place of the one raised. -/
def reraise {ε' : Type*} (g : ε → ε') : Except ε α → Except ε' α
  | .ok a => .ok a
  | .error e => .error (g e)

@[simp] theorem reraise_eq_ok {ε' : Type*} {g : ε → ε'} {x : Except ε α} {a : α} :
    reraise g x = .ok a ↔ x = .ok a := by
  cases x <;> simp [reraise]

theorem toOption_eq_some {x : Except ε α} {a : α} : x.toOption = some a ↔ x = .ok a := by
  cases x <;> simp [Except.toOption]

/-- Each result of a `for` comes from one of its items. -/
theorem mem_of_mapM_eq_ok {f : α → Except ε β} {l : List α} {bs : List β} (h : l.mapM f = .ok bs) :
    ∀ b ∈ bs, ∃ a ∈ l, f a = .ok b := by
  induction l generalizing bs with
  | nil =>
    obtain rfl : [] = bs := by simpa using h
    simp
  | cons a l ih =>
    simp only [List.mapM_cons, bind_eq_ok, pure_eq_ok] at h
    obtain ⟨b, hb, rest, hrest, rfl⟩ := h
    intro c hc
    rcases List.mem_cons.mp hc with rfl | hc
    · exact ⟨a, List.mem_cons_self, hb⟩
    · obtain ⟨a', ha', hf⟩ := ih hrest c hc
      exact ⟨a', List.mem_cons_of_mem _ ha', hf⟩

end Raise
