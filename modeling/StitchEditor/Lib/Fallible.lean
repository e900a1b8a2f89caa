import Mathlib

/-!
# StitchEditor.Lib.Fallible

When a computation in `Except` succeeds, step by step, and with what it
fails.
-/

namespace Fallible

universe u

variable {ε : Type*} {α β γ : Type u}

theorem bind_eq_ok_iff {x : Except ε α} {f : α → Except ε β} {b : β} :
    x >>= f = .ok b ↔ ∃ a, x = .ok a ∧ f a = .ok b := by
  cases x <;> simp [bind, Except.bind]

theorem pure_eq_ok_iff {a b : α} : (pure a : Except ε α) = .ok b ↔ a = b := by
  simp [pure, Except.pure]

/-- Behind a check that fails, the rest succeeds. -/
theorem ite_error_eq_ok_iff {c : Prop} [Decidable c] {e : ε} {x : Except ε α} {a : α} :
    (if c then .error e else x) = .ok a ↔ ¬ c ∧ x = .ok a := by
  split <;> simp_all

/-- A check that must hold. -/
theorem ite_ok_eq_ok_iff {c : Prop} [Decidable c] {e : ε} {a b : α} :
    (if c then .ok a else .error e : Except ε α) = .ok b ↔ c ∧ a = b := by
  split <;> simp_all

theorem foldlM_concat_eq_ok_iff {f : γ → α → Except ε γ} {l : List α} {a : α}
    {c d : γ} : (l ++ [a]).foldlM f c = .ok d ↔ ∃ b, l.foldlM f c = .ok b ∧ f b a = .ok d := by
  rw [List.foldlM_append, bind_eq_ok_iff]
  simp

/-- Every error of the computation satisfies the predicate. -/
def Raises (x : Except ε α) (P : ε → Prop) : Prop := ∀ e, x = .error e → P e

namespace Raises

variable {P : ε → Prop} {x : Except ε α} {f : α → Except ε β}

theorem ok (a : α) : Raises (.ok a) P := fun _ h => by cases h

theorem error {e : ε} (h : P e) : Raises (.error e : Except ε α) P := fun _ he => by
  cases he
  exact h

theorem bind (hx : Raises x P) (hf : ∀ a, x = .ok a → Raises (f a) P) : Raises (x >>= f) P := by
  cases x with
  | error e => exact error (hx e rfl)
  | ok a => exact hf a rfl

theorem ite {c : Prop} [Decidable c] {y : Except ε α} (hx : Raises x P) (hy : Raises y P) :
    Raises (if c then x else y) P := by
  split
  · exact hx
  · exact hy

theorem foldlM {g : γ → α → Except ε γ} (hg : ∀ c a, Raises (g c a) P) (l : List α) (c : γ) :
    Raises (l.foldlM g c) P := by
  induction l generalizing c with
  | nil => exact ok c
  | cons a l ih =>
      rw [List.foldlM_cons]
      exact (hg c a).bind fun b _ => ih b

end Raises

end Fallible
