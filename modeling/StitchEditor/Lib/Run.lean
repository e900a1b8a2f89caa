import Mathlib
import StitchEditor.Lib.Fallible

/-!
# StitchEditor.Lib.Run

Labelled transition systems and their finite runs.

A system is a step relation `State → Label → State → Prop`.  A run records
its labels in order, and grows at the end, so that an invariant of runs is
proved from what one more step preserves (`Runs.invariant`) and a refinement
from what one step of the concrete system answers for in the abstract one
(`Runs.simulate`).
-/

namespace Run

universe u

variable {σ τ α : Type*}

/-- A run from one state to another and the labels along it. -/
inductive Runs (step : σ → α → σ → Prop) (start : σ) : List α → σ → Prop where
  | nil : Runs step start [] start
  | snoc {labels : List α} {s s' : σ} {a : α} (hrun : Runs step start labels s)
      (hstep : step s a s') : Runs step start (labels ++ [a]) s'

namespace Runs

variable {step : σ → α → σ → Prop} {start s : σ} {labels : List α}

/-- A run may also be built from its first step on. -/
theorem cons {start s t : σ} {a : α} {labels : List α} (hstep : step start a s)
    (hrun : Runs step s labels t) : Runs step start (a :: labels) t := by
  induction hrun with
  | nil => exact .snoc .nil hstep
  | snoc _ h ih => exact .snoc ih h

/-- Two runs, one after the other. -/
theorem append {t : σ} {more : List α} (hrun : Runs step start labels s)
    (hmore : Runs step s more t) : Runs step start (labels ++ more) t := by
  induction hmore with
  | nil => simpa using hrun
  | snoc _ h ih => simpa using Runs.snoc ih h

theorem nil_iff : Runs step start [] s ↔ s = start := by
  constructor
  · intro hrun
    generalize hlabels : ([] : List α) = labels at hrun
    cases hrun with
    | nil => rfl
    | snoc _ _ => simp at hlabels
  · rintro rfl
    exact .nil

theorem snoc_iff {t : σ} {a : α} : Runs step start (labels ++ [a]) t ↔
    ∃ s, Runs step start labels s ∧ step s a t := by
  constructor
  · intro hrun
    generalize hlabels : labels ++ [a] = more at hrun
    cases hrun with
    | nil => simp at hlabels
    | snoc hrun hstep =>
        obtain ⟨rfl, hlast⟩ := List.append_inj' hlabels rfl
        obtain rfl := List.singleton_inj.mp hlast
        exact ⟨_, hrun, hstep⟩
  · rintro ⟨s, hrun, hstep⟩
    exact .snoc hrun hstep

theorem singleton_iff {t : σ} {a : α} : Runs step start [a] t ↔ step start a t := by
  rw [← List.nil_append [a], snoc_iff]
  simp [nil_iff]

theorem append_iff {t : σ} {more : List α} : Runs step start (labels ++ more) t ↔
    ∃ s, Runs step start labels s ∧ Runs step s more t := by
  constructor
  · intro hrun
    induction more using List.reverseRecOn generalizing t with
    | nil => exact ⟨t, by simpa using hrun, .nil⟩
    | append_singleton more a ih =>
        rw [← List.append_assoc] at hrun
        obtain ⟨u, hfront, hlast⟩ := snoc_iff.mp hrun
        obtain ⟨s, hrun, hmore⟩ := ih hfront
        exact ⟨s, hrun, .snoc hmore hlast⟩
  · rintro ⟨s, hrun, hmore⟩
    exact hrun.append hmore

theorem cons_iff {t : σ} {a : α} : Runs step start (a :: labels) t ↔
    ∃ s, step start a s ∧ Runs step s labels t := by
  rw [← List.singleton_append, append_iff]
  simp only [singleton_iff]

/-- What holds at the start and is kept by every step holds along every
run. -/
theorem invariant {I : σ → Prop} (hrun : Runs step start labels s) (hstart : I start)
    (hstep : ∀ {s a s'}, I s → step s a s' → I s') : I s := by
  induction hrun with
  | nil => exact hstart
  | snoc _ h ih => exact hstep ih h

theorem mono {step' : σ → α → σ → Prop} (hrun : Runs step start labels s)
    (hstep : ∀ {s a s'}, step s a s' → step' s a s') : Runs step' start labels s := by
  induction hrun with
  | nil => exact .nil
  | snoc _ h ih => exact .snoc ih (hstep h)

/-- Every step of the first system is answered by a step of the second with
the same label. -/
theorem simulate {step' : τ → α → τ → Prop} {R : σ → τ → Prop} {start' : τ}
    (hrun : Runs step start labels s) (hstart : R start start')
    (hstep : ∀ {s t a s'}, R s t → step s a s' → ∃ t', step' t a t' ∧ R s' t') :
    ∃ t, Runs step' start' labels t ∧ R s t := by
  induction hrun with
  | nil => exact ⟨start', .nil, hstart⟩
  | snoc _ h ih =>
      obtain ⟨t, hrun', hR⟩ := ih
      obtain ⟨t', hstep', hR'⟩ := hstep hR h
      exact ⟨t', .snoc hrun' hstep', hR'⟩

/-- A refinement that does not show every step: a visible one is answered by
a step of the second system, a hidden one by none. -/
theorem simulateVisible {β : Type*} {step' : τ → β → τ → Prop} {R : σ → τ → Prop} {start' : τ}
    (visible : α → Option β) (hrun : Runs step start labels s) (hstart : R start start')
    (hstep : ∀ {s t a s'}, R s t → step s a s' →
      ∃ t', Runs step' t (visible a).toList t' ∧ R s' t') :
    ∃ t, Runs step' start' (labels.filterMap visible) t ∧ R s t := by
  induction hrun with
  | nil => exact ⟨start', .nil, hstart⟩
  | @snoc labels s s' a _ h ih =>
      obtain ⟨t, hrun', hR⟩ := ih
      obtain ⟨t', hmore, hR'⟩ := hstep hR h
      have hlast : [a].filterMap visible = (visible a).toList := by
        cases ha : visible a <;> simp [ha]
      refine ⟨t', ?_, hR'⟩
      rw [List.filterMap_append, hlast]
      exact hrun'.append hmore

/-- The run of a system whose steps are computed. -/
theorem of_foldlM {f : σ → α → Option σ} (h : labels.foldlM f start = some s) :
    Runs (fun s a s' => f s a = some s') start labels s := by
  induction labels using List.reverseRecOn generalizing s with
  | nil =>
      cases h
      exact .nil
  | append_singleton labels a ih =>
      rw [List.foldlM_append, Option.bind_eq_bind, Option.bind_eq_some_iff] at h
      obtain ⟨t, ht, ha⟩ := h
      exact .snoc (ih ht) (by simpa using ha)

/-- The run of a system whose steps are computed and may fail. -/
theorem iff_foldlM_eq_ok {ε : Type*} {σ α : Type u} {f : σ → α → Except ε σ} {start s : σ}
    {labels : List α} :
    Runs (fun s a s' => f s a = .ok s') start labels s ↔ labels.foldlM f start = .ok s := by
  induction labels using List.reverseRecOn generalizing s with
  | nil => simp [nil_iff, pure, Except.pure, eq_comm]
  | append_singleton labels a ih => simp only [snoc_iff, ih, Fallible.foldlM_concat_eq_ok_iff]

/-- Make a move, and write down the label of the step that it makes. -/
def replay {μ : Type*} (move : σ → μ → Option (α × σ)) (replayed : σ × List α) (m : μ) :
    Option (σ × List α) :=
  (move replayed.1 m).map fun next => (next.2, replayed.2 ++ [next.1])

/-- The run that a list of moves makes. -/
theorem of_replay {μ : Type*} {move : σ → μ → Option (α × σ)}
    {moves : List μ} {replayed : σ × List α}
    (h : moves.foldlM (replay move) (start, []) = some replayed)
    (hmove : ∀ ⦃s m a s'⦄, move s m = some (a, s') → step s a s') :
    Runs step start replayed.2 replayed.1 := by
  induction moves using List.reverseRecOn generalizing replayed with
  | nil =>
      cases h
      exact .nil
  | append_singleton moves m ih =>
      rw [List.foldlM_append, Option.bind_eq_bind, Option.bind_eq_some_iff] at h
      obtain ⟨before, hbefore, hlast⟩ := h
      simp only [List.foldlM_cons, List.foldlM_nil, bind_pure] at hlast
      obtain ⟨⟨a, s'⟩, hnext, rfl⟩ := Option.map_eq_some_iff.mp hlast
      exact .snoc (ih hbefore) (hmove hnext)

end Runs

end Run
