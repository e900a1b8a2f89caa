import Mathlib

/-!
# StitchEditor.Lib.Drive

Drivers: a fallible step applied to the items of a list in order, up to the
first item that it fails on.

Two drivers whose steps agree accept the same lists, and stop at the same
item with errors that agree (`drive_agrees`).
-/

namespace Drive

variable {σ τ α β ε δ : Type*}

/-- Take the items in order; an error comes with the index of its item. -/
def drive (step : σ → α → Except ε σ) (s : σ) : List α → Except (Nat × ε) σ
  | [] => .ok s
  | item :: items =>
      match step s item with
      | .error e => .error (0, e)
      | .ok s' => (drive step s' items).mapError fun stop => (stop.1 + 1, stop.2)

/-- Both succeed with related states, or both fail with related errors. -/
inductive Agrees (R : σ → τ → Prop) (E : ε → δ → Prop) : Except ε σ → Except δ τ → Prop where
  | ok {s : σ} {t : τ} (h : R s t) : Agrees R E (.ok s) (.ok t)
  | error {e : ε} {d : δ} (h : E e d) : Agrees R E (.error e) (.error d)

namespace Agrees

variable {R : σ → τ → Prop} {E : ε → δ → Prop} {x : Except ε σ} {y : Except δ τ}

theorem mono {R' : σ → τ → Prop} {E' : ε → δ → Prop} (h : Agrees R E x y)
    (hR : ∀ s t, R s t → R' s t) (hE : ∀ e d, E e d → E' e d) : Agrees R' E' x y := by
  cases h with
  | ok h => exact .ok (hR _ _ h)
  | error h => exact .error (hE _ _ h)

theorem mapError {ε' δ' : Type*} {f : ε → ε'} {g : δ → δ'} {E' : ε' → δ' → Prop}
    (h : Agrees R E x y) (hE : ∀ e d, E e d → E' (f e) (g d)) :
    Agrees R E' (x.mapError f) (y.mapError g) := by
  cases h with
  | ok h => exact .ok h
  | error h => exact .error (hE _ _ h)

end Agrees

theorem drive_map {step : σ → β → Except ε σ} {s : σ} {f : α → β} {items : List α} :
    drive step s (items.map f) = drive (fun s item => step s (f item)) s items := by
  induction items generalizing s with
  | nil => rfl
  | cons item items ih =>
      simp only [List.map_cons, drive]
      cases step s (f item) with
      | error e => rfl
      | ok s' => simp only [ih]

/-- A driver that accepts its items is a fold. -/
theorem drive_eq_ok_iff {step : σ → α → Except ε σ} {s s' : σ} {items : List α} :
    drive step s items = .ok s' ↔ items.foldlM step s = .ok s' := by
  induction items generalizing s with
  | nil => simp [drive, pure, Except.pure]
  | cons item items ih =>
      rw [drive, List.foldlM_cons]
      cases step s item with
      | error e => simp [bind, Except.bind]
      | ok next =>
          simp only [bind, Except.bind, ← ih]
          cases drive step next items <;> simp [Except.mapError]

/-- **Agreement**: the relation may look at the items that are still to
come. -/
theorem drive_agrees {f : σ → α → Except ε σ} {g : τ → α → Except δ τ}
    {R : List α → σ → τ → Prop} {E : ε → δ → Prop}
    (hstep : ∀ ⦃item items s t⦄, R (item :: items) s t → Agrees (R items) E (f s item) (g t item))
    {items : List α} {s : σ} {t : τ} (h : R items s t) :
    Agrees (R []) (fun e d => e.1 = d.1 ∧ E e.2 d.2) (drive f s items) (drive g t items) := by
  induction items generalizing s t with
  | nil => exact .ok h
  | cons item items ih =>
      have hitem := hstep h
      simp only [drive]
      generalize f s item = x at hitem
      generalize g t item = y at hitem
      cases hitem with
      | error he => exact .error ⟨rfl, he⟩
      | ok hrest => exact (ih hrest).mapError fun e d h => ⟨congrArg (· + 1) h.1, h.2⟩

end Drive
