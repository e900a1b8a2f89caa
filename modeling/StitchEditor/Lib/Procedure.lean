import Mathlib

/-!
# StitchEditor.Lib.Procedure

Procedures: computations that read and write a state and may stop.

A stop does not undo what was written before it.  `Ensures x s Q` says that
`x`, started in `s`, ends with a result and a state for which `Q` holds; the
rules take a procedure apart from its front.
-/

namespace Procedure

variable {ε σ τ α β : Type}

/-- A procedure over the state `σ` that may stop with an `ε`. -/
def Proc (ε σ α : Type) : Type := σ → Except ε α × σ

instance : Monad (Proc ε σ) where
  pure a := fun s => (.ok a, s)
  bind x f := fun s =>
    match x s with
    | (.ok a, t) => f a t
    | (.error e, t) => (.error e, t)

/-- A computation that does not touch the state. -/
instance : MonadLift (Except ε) (Proc ε σ) := ⟨fun x s => (x, s)⟩

instance : MonadStateOf σ (Proc ε σ) where
  get := fun s => (.ok s, s)
  set s := fun _ => (.ok (), s)
  modifyGet f := fun s => (.ok (f s).1, (f s).2)

/-- Run a procedure on a part of the state. -/
def Proc.zoom (view : τ → σ) (update : τ → σ → τ) (x : Proc ε σ α) : Proc ε τ α := fun t =>
  ((x (view t)).1, update t (x (view t)).2)

theorem lift_bind_ok {a : α} {f : α → Proc ε σ β} {s : σ} :
    ((liftM (Except.ok a : Except ε α) : Proc ε σ α) >>= f) s = f a s := rfl

section Bind

variable {x : Proc ε σ α} {f : α → Proc ε σ β} {s t : σ}

theorem bind_of_ok {a : α} (h : x s = (.ok a, t)) : (x >>= f) s = f a t := by
  change (match x s with
    | (.ok a, t) => f a t
    | (.error e, t) => (.error e, t)) = _
  rw [h]

theorem bind_of_error {e : ε} (h : x s = (.error e, t)) : (x >>= f) s = (.error e, t) := by
  change (match x s with
    | (.ok a, t) => f a t
    | (.error e, t) => (.error e, t)) = _
  rw [h]

end Bind

/-- Where a procedure ends. -/
def Ensures (x : Proc ε σ α) (s : σ) (Q : Except ε α → σ → Prop) : Prop := Q (x s).1 (x s).2

namespace Ensures

variable {x : Proc ε σ α} {f : α → Proc ε σ β} {s : σ} {Q : Except ε β → σ → Prop}

theorem mono {Q Q' : Except ε α → σ → Prop} (h : Ensures x s Q) (himp : ∀ r t, Q r t → Q' r t) :
    Ensures x s Q' := himp _ _ h

/-- A procedure ends where it ends. -/
theorem self (x : Proc ε σ α) (s : σ) : Ensures x s fun r t => x s = (r, t) := rfl

theorem post {Q : Except ε α → σ → Prop} {r : Except ε α} {t : σ} (h : Ensures x s Q)
    (hx : x s = (r, t)) : Q r t := by
  rw [Ensures, hx] at h
  exact h

theorem pure {Q : Except ε α → σ → Prop} {a : α} (h : Q (.ok a) s) :
    Ensures (Pure.pure a : Proc ε σ α) s Q := h

theorem lift {Q : Except ε α → σ → Prop} {r : Except ε α} (h : Q r s) :
    Ensures (liftM r : Proc ε σ α) s Q := h

/-- The rest runs from where the first part ends, unless that stopped. -/
theorem bind {P : Except ε α → σ → Prop} (hx : Ensures x s P)
    (herror : ∀ e t, P (.error e) t → Q (.error e) t)
    (hok : ∀ a t, P (.ok a) t → Ensures (f a) t Q) : Ensures (x >>= f) s Q := by
  unfold Ensures at hx ⊢
  rcases h : x s with ⟨r, t⟩
  rw [h] at hx
  cases r with
  | error e =>
      rw [bind_of_error h]
      exact herror e t hx
  | ok a =>
      rw [bind_of_ok h]
      exact hok a t hx

/-- A first part that does not touch the state. -/
theorem lift_bind {r : Except ε α} (herror : ∀ e, r = .error e → Q (.error e) s)
    (hok : ∀ a, r = .ok a → Ensures (f a) s Q) : Ensures (liftM r >>= f) s Q := by
  refine bind (P := fun r' t => r = r' ∧ s = t) ⟨rfl, rfl⟩ ?_ ?_
  · rintro e t ⟨he, rfl⟩
    exact herror e he
  · rintro a t ⟨ha, rfl⟩
    exact hok a ha

/-- A first part that has succeeded. -/
theorem ok_bind {a : α} (h : Ensures (f a) s Q) :
    Ensures ((liftM (Except.ok a : Except ε α) : Proc ε σ α) >>= f) s Q := h

/-- A check that passes exactly when the condition holds. -/
theorem check_bind {r : Except ε Unit} {f : Unit → Proc ε σ β} {c : Prop} (hr : r = .ok () ↔ c)
    (herror : ∀ e, ¬ c → Q (.error e) s) (hok : c → Ensures (f ()) s Q) :
    Ensures (liftM r >>= f) s Q := by
  refine lift_bind ?_ ?_
  · intro e he
    have hc : ¬ c := fun hc => by
      rw [hr.mpr hc] at he
      cases he
    exact herror e hc
  · rintro ⟨⟩ hu
    exact hok (hr.mp hu)

theorem get_bind {f : σ → Proc ε σ β} (h : Ensures (f s) s Q) : Ensures (get >>= f) s Q := h

theorem set_bind {f : Unit → Proc ε σ β} {t : σ} (h : Ensures (f ()) t Q) :
    Ensures (set t >>= f) s Q := h

theorem modify_bind {f : Unit → Proc ε σ β} {g : σ → σ} (h : Ensures (f ()) (g s) Q) :
    Ensures (modify g >>= f) s Q := h

theorem zoom {view : τ → σ} {update : τ → σ → τ} {t : τ} {Q : Except ε α → τ → Prop}
    (h : Ensures x (view t) fun r s' => Q r (update t s')) : Ensures (x.zoom view update) t Q := h

end Ensures

end Procedure
