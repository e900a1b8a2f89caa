import Mathlib
import StitchEditor.Lib.Cursor

/-!
# StitchEditor.Lib.Traced

Computations that leave a trace, and what a trace may cost.

A traced computation runs on a state like a `StateT` program, and logs events
on the way; its log is kept when it fails.  `erase` forgets the log.

`Pays` is an amortised bound: the events of the log are moves of the state,
each has a cost, and what the moves add to a potential pays for them.  A
failure may leave a debt, up to a bound.
-/

universe u

/-- A computation that returns with a new state or fails, and logs events. -/
def Traced (σ ω ε α : Type u) : Type u := σ → List ω × Except ε (α × σ)

namespace Traced

variable {σ ω ε α β γ : Type u}

def log (m : Traced σ ω ε α) (s : σ) : List ω := (m s).1

def outcome (m : Traced σ ω ε α) (s : σ) : Except ε (α × σ) := (m s).2

instance : Monad (Traced σ ω ε) where
  pure a s := ([], .ok (a, s))
  bind m f s :=
    match m s with
    | (log, .error e) => (log, .error e)
    | (log, .ok (a, s')) => (log ++ (f a s').1, (f a s').2)

theorem bind_of_error {m : Traced σ ω ε α} {f : α → Traced σ ω ε β} {s : σ} {l : List ω} {e : ε}
    (h : m s = (l, .error e)) : (m >>= f) s = (l, .error e) := by
  change (match m s with
    | (log, .error e) => (log, .error e)
    | (log, .ok (a, s')) => (log ++ (f a s').1, (f a s').2) : List ω × Except ε (β × σ)) = _
  rw [h]

theorem bind_of_ok {m : Traced σ ω ε α} {f : α → Traced σ ω ε β} {s s' : σ} {l : List ω} {a : α}
    (h : m s = (l, .ok (a, s'))) : (m >>= f) s = (l ++ (f a s').1, (f a s').2) := by
  change (match m s with
    | (log, .error e) => (log, .error e)
    | (log, .ok (a, s')) => (log ++ (f a s').1, (f a s').2) : List ω × Except ε (β × σ)) = _
  rw [h]

/-- A failure without an event. -/
def fail (e : ε) : Traced σ ω ε α := fun _ => ([], .error e)

def emit (event : ω) : Traced σ ω ε PUnit := fun s => ([event], .ok (⟨⟩, s))

/-! ## erasure -/

/-- The computation without its log. -/
def erase (m : Traced σ ω ε α) : StateT σ (Except ε) α := fun s => m.outcome s

@[simp] theorem erase_pure (a : α) : (pure a : Traced σ ω ε α).erase = pure a := rfl

@[simp] theorem erase_bind (m : Traced σ ω ε α) (f : α → Traced σ ω ε β) :
    (m >>= f).erase = m.erase >>= fun a => (f a).erase := by
  funext s
  have hrun : (m.erase >>= fun a => (f a).erase) s =
      (m.outcome s >>= fun p => (f p.1).outcome p.2) := rfl
  rw [hrun]
  unfold erase outcome
  rcases h : m s with ⟨l, e | ⟨a, s'⟩⟩
  · rw [bind_of_error h]
    rfl
  · rw [bind_of_ok h]
    rfl

@[simp] theorem erase_fail (e : ε) : (fail e : Traced σ ω ε α).erase = throw e := rfl

@[simp] theorem erase_emit (event : ω) :
    (emit event : Traced σ ω ε PUnit).erase = pure ⟨⟩ := rfl

@[simp] theorem erase_ite {c : Prop} [Decidable c] (m n : Traced σ ω ε α) :
    (if c then m else n).erase = if c then m.erase else n.erase := by
  split <;> rfl

theorem erase_repeatM {body : γ → Traced σ ω ε γ} {body' : γ → StateT σ (Except ε) γ}
    (hbody : ∀ g, (body g).erase = body' g) (n : Nat) (g : γ) :
    (Cursor.repeatM body n g).erase = Cursor.repeatM body' n g := by
  induction n generalizing g with
  | zero => rfl
  | succ n ih =>
      simp only [Cursor.repeatM, erase_bind, hbody]
      exact congrArg _ (funext ih)

/-! ## paths -/

/-- The events of a log move the state from one to another. -/
inductive Path (move : σ → ω → σ → Prop) : σ → List ω → σ → Prop where
  | nil (s : σ) : Path move s [] s
  | cons {s t u : σ} {event : ω} {log : List ω} (h : move s event t) (hrest : Path move t log u) :
      Path move s (event :: log) u

namespace Path

variable {move : σ → ω → σ → Prop} {s t u : σ} {l l' : List ω}

theorem single {event : ω} (h : move s event t) : Path move s [event] t := .cons h (.nil t)

theorem append (h : Path move s l t) (h' : Path move t l' u) : Path move s (l ++ l') u := by
  induction h with
  | nil s => exact h'
  | cons hmove _ ih => exact .cons hmove (ih h')

/-- What happens at an event of a path. -/
theorem split {event : ω} (h : Path move s (l ++ event :: l') u) :
    ∃ a b, Path move s l a ∧ move a event b ∧ Path move b l' u := by
  induction l generalizing s with
  | nil =>
      cases h with
      | cons hmove hrest => exact ⟨_, _, .nil s, hmove, hrest⟩
  | cons _ l ih =>
      cases h with
      | cons hmove hrest =>
          obtain ⟨a, b, hbefore, hevent, hafter⟩ := ih hrest
          exact ⟨a, b, .cons hmove hbefore, hevent, hafter⟩

/-- What every move keeps holds along a path. -/
theorem invariant {P : σ → Prop} (hP : ∀ s event t, move s event t → P s → P t)
    (h : Path move s l t) (hs : P s) : P t := by
  induction h with
  | nil s => exact hs
  | cons hmove _ ih => exact ih (hP _ _ _ hmove hs)

end Path

/-! ## cost -/

section

variable (move : σ → ω → σ → Prop) (cost : ω → Nat) (potential : σ → Nat) (debt : Nat)

def totalCost (log : List ω) : Nat := (log.map cost).sum

@[simp] theorem totalCost_append (l l' : List ω) :
    totalCost cost (l ++ l') = totalCost cost l + totalCost cost l' := by
  simp [totalCost]

/-- The log is a path of the state, and the potential along it pays for the
log and for a credit beyond it; a failure owes no more than the debt. -/
def Pays (credit : Nat) (m : Traced σ ω ε α) : Prop :=
  ∀ s, ∃ t, Path move s (m.log s) t ∧
    match m.outcome s with
    | .ok (_, s') => s' = t ∧ totalCost cost (m.log s) + credit + potential s ≤ potential t
    | .error _ => totalCost cost (m.log s) + credit + potential s ≤ potential t + debt

end

namespace Pays

variable {move : σ → ω → σ → Prop} {cost : ω → Nat} {potential : σ → Nat} {debt credit : Nat}
variable {m : Traced σ ω ε α} {f : α → Traced σ ω ε β}

theorem pure (a : α) : Pays move cost potential debt 0 (Pure.pure a : Traced σ ω ε α) :=
  fun s => ⟨s, .nil s, rfl, by simp [totalCost, log, Pure.pure]⟩

theorem fail (e : ε) : Pays move cost potential debt 0 (Traced.fail e : Traced σ ω ε α) :=
  fun s => ⟨s, .nil s, by simp [totalCost, log, outcome, Traced.fail]⟩

theorem bind (hm : Pays move cost potential debt credit m)
    (hf : ∀ a, Pays move cost potential debt 0 (f a)) :
    Pays move cost potential debt credit (m >>= f) := by
  intro s
  obtain ⟨t, hpath, hpays⟩ := hm s
  simp only [log, outcome] at hpath hpays ⊢
  rcases h : m s with ⟨l, e | ⟨a, s'⟩⟩
  · rw [h] at hpath hpays
    rw [bind_of_error h]
    exact ⟨t, hpath, hpays⟩
  · rw [h] at hpath hpays
    obtain ⟨rfl, hpays⟩ := hpays
    obtain ⟨u, hrest, hrestPays⟩ := hf a s'
    simp only [log, outcome] at hrest hrestPays
    rw [bind_of_ok h]
    refine ⟨u, hpath.append hrest, ?_⟩
    dsimp only
    rw [totalCost_append]
    cases hresult : (f a s').2 with
    | error e =>
        rw [hresult] at hrestPays
        dsimp only at hpays hrestPays ⊢
        omega
    | ok p =>
        rw [hresult] at hrestPays
        obtain ⟨rfl, hrestPays⟩ := hrestPays
        dsimp only at hpays hrestPays ⊢
        exact ⟨rfl, by omega⟩

theorem ite {c : Prop} [Decidable c] {n : Traced σ ω ε α}
    (hm : Pays move cost potential debt credit m) (hn : Pays move cost potential debt credit n) :
    Pays move cost potential debt credit (if c then m else n) := by
  split
  · exact hm
  · exact hn

/-- An event that the rest of the computation pays for. -/
theorem emit_bind {event : ω} {f : PUnit → Traced σ ω ε α} (hevent : ∀ s, move s event s)
    (hcredit : cost event ≤ credit) (hf : ∀ u, Pays move cost potential debt credit (f u)) :
    Pays move cost potential debt 0 (Traced.emit event >>= f) := by
  intro s
  obtain ⟨t, hpath, hpays⟩ := hf ⟨⟩ s
  simp only [log, outcome] at hpath hpays ⊢
  rw [bind_of_ok (show Traced.emit event s = ([event], .ok (⟨⟩, s)) from rfl)]
  refine ⟨t, (Path.single (hevent s)).append hpath, ?_⟩
  dsimp only
  rw [totalCost_append]
  have hsingle : totalCost cost [event] = cost event := by simp [totalCost]
  cases hresult : (f ⟨⟩ s).2 with
  | error e =>
      rw [hresult] at hpays
      dsimp only at hpays ⊢
      omega
  | ok p =>
      rw [hresult] at hpays
      obtain ⟨rfl, hpays⟩ := hpays
      exact ⟨rfl, by omega⟩

theorem repeatM {body : γ → Traced σ ω ε γ}
    (hbody : ∀ g, Pays move cost potential debt 0 (body g)) :
    ∀ (n : Nat) (g : γ), Pays move cost potential debt 0 (Cursor.repeatM body n g)
  | 0, g => pure g
  | n + 1, g => (hbody g).bind fun g' => repeatM hbody n g'

end Pays

end Traced
