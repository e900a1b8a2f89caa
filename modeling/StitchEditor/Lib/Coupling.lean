import Mathlib
import StitchEditor.Lib.Procedure

/-!
# StitchEditor.Lib.Coupling

Two procedures side by side, each from its own state.

`Couples x s y t Q` says that `x` from `s` and `y` from `t` end as `Q`
relates them.  As long as the two run in step (`Lockstep`: the same error or
corresponding values, and related states) they are taken apart together,
from the front; where only one of them moves, the rules for one procedure
apply to each (`Couples.of_ensures`).
-/

namespace Procedure

variable {ε σ τ σ' τ' α β γ δ : Type}

/-! ## results -/

/-- The same error, or values that correspond. -/
inductive Corresponds (V : α → β → Prop) : Except ε α → Except ε β → Prop where
  | error (e : ε) : Corresponds V (.error e) (.error e)
  | ok {a : α} {b : β} (h : V a b) : Corresponds V (.ok a) (.ok b)

namespace Corresponds

theorem eq_iff {x y : Except ε α} : Corresponds Eq x y ↔ x = y := by
  constructor
  · rintro (e | ⟨rfl⟩) <;> rfl
  · rintro rfl
    cases x with
    | error e => exact .error e
    | ok a => exact .ok rfl

theorem refl (x : Except ε α) : Corresponds Eq x x := eq_iff.mpr rfl

theorem bind {V : α → β → Prop} {W : γ → δ → Prop} {x : Except ε α} {y : Except ε β}
    {f : α → Except ε γ} {g : β → Except ε δ} (h : Corresponds V x y)
    (hnext : ∀ a b, V a b → Corresponds W (f a) (g b)) : Corresponds W (x >>= f) (y >>= g) := by
  cases h with
  | error e => exact .error e
  | ok h => exact hnext _ _ h

end Corresponds

/-! ## procedures -/

/-- Where two procedures end, each from its own state. -/
def Couples (x : Proc ε σ α) (s : σ) (y : Proc ε τ β) (t : τ)
    (Q : Except ε α → σ → Except ε β → τ → Prop) : Prop :=
  Q (x s).1 (x s).2 (y t).1 (y t).2

/-- The results correspond and the states stay related. -/
def Lockstep (x : Proc ε σ α) (s : σ) (y : Proc ε τ β) (t : τ) (V : α → β → Prop)
    (I : σ → τ → Prop) : Prop :=
  Couples x s y t fun r s' r' t' => Corresponds V r r' ∧ I s' t'

section Rules

variable {x : Proc ε σ α} {y : Proc ε τ β} {f : α → Proc ε σ γ} {g : β → Proc ε τ δ} {s : σ} {t : τ}
  {V : α → β → Prop} {I : σ → τ → Prop}

namespace Couples

/-- Two procedures that are known one by one. -/
theorem of_ensures {P : Except ε α → σ → Prop} {P' : Except ε β → τ → Prop}
    {Q : Except ε α → σ → Except ε β → τ → Prop} (hx : Ensures x s P) (hy : Ensures y t P')
    (himp : ∀ r s' r' t', P r s' → P' r' t' → Q r s' r' t') : Couples x s y t Q :=
  himp _ _ _ _ hx hy

theorem pure {Q : Except ε α → σ → Except ε β → τ → Prop} {a : α} {b : β}
    (h : Q (.ok a) s (.ok b) t) :
    Couples (Pure.pure a : Proc ε σ α) s (Pure.pure b : Proc ε τ β) t Q := h

theorem get_bind {f : σ → Proc ε σ γ} {g : τ → Proc ε τ δ}
    {Q : Except ε γ → σ → Except ε δ → τ → Prop} (h : Couples (f s) s (g t) t Q) :
    Couples (get >>= f) s (get >>= g) t Q := h

theorem set_bind {f : Unit → Proc ε σ γ} {g : Unit → Proc ε τ δ} {s' : σ} {t' : τ}
    {Q : Except ε γ → σ → Except ε δ → τ → Prop} (h : Couples (f ()) s' (g ()) t' Q) :
    Couples (set s' >>= f) s (set t' >>= g) t Q := h

end Couples

namespace Lockstep

/-- Two procedures in step, and then their rests. -/
theorem bind {Q : Except ε γ → σ → Except ε δ → τ → Prop} (h : Lockstep x s y t V I)
    (herror : ∀ e s' t', I s' t' → Q (.error e) s' (.error e) t')
    (hok : ∀ a b s' t', V a b → I s' t' → Couples (f a) s' (g b) t' Q) :
    Couples (x >>= f) s (y >>= g) t Q := by
  unfold Lockstep Couples at h
  unfold Couples
  rcases hx : x s with ⟨r, s'⟩
  rcases hy : y t with ⟨r', t'⟩
  rw [hx, hy] at h
  obtain ⟨hcorresponds, hI⟩ := h
  dsimp only at hcorresponds
  cases hcorresponds with
  | error e =>
      rw [bind_of_error hx, bind_of_error hy]
      exact herror e s' t' hI
  | ok hV =>
      rw [bind_of_ok hx, bind_of_ok hy]
      exact hok _ _ s' t' hV hI

theorem lift {r : Except ε α} {r' : Except ε β} (h : Corresponds V r r') (hI : I s t) :
    Lockstep (liftM r : Proc ε σ α) s (liftM r' : Proc ε τ β) t V I := ⟨h, hI⟩

theorem mono {I' : σ → τ → Prop} (h : Lockstep x s y t V I) (himp : ∀ s t, I s t → I' s t) :
    Lockstep x s y t V I' := ⟨h.1, himp _ _ h.2⟩

theorem zoom {view : σ → σ'} {update : σ → σ' → σ} {view' : τ → τ'} {update' : τ → τ' → τ}
    {x : Proc ε σ' α} {y : Proc ε τ' β}
    (h : Lockstep x (view s) y (view' t) V fun s' t' => I (update s s') (update' t t')) :
    Lockstep (x.zoom view update) s (y.zoom view' update') t V I := h

end Lockstep

/-- Computations that do not touch the states. -/
theorem Couples.lift_bind {Q : Except ε γ → σ → Except ε δ → τ → Prop} {r : Except ε α}
    {r' : Except ε β} (h : Corresponds V r r') (herror : ∀ e, Q (.error e) s (.error e) t)
    (hok : ∀ a b, V a b → Couples (f a) s (g b) t Q) :
    Couples (liftM r >>= f) s (liftM r' >>= g) t Q := by
  refine (Lockstep.lift (I := fun s' t' => s' = s ∧ t' = t) h ⟨rfl, rfl⟩).bind ?_ ?_
  · rintro e _ _ ⟨rfl, rfl⟩
    exact herror e
  · rintro a b _ _ hV ⟨rfl, rfl⟩
    exact hok a b hV

end Rules

end Procedure
