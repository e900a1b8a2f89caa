import Mathlib
import StitchEditor.Lib.Run

/-!
# StitchEditor.Lib.Commute

Runs whose labels are reordered.

Where independent labels commute, a run survives every reordering of its
labels that keeps the dependent ones in order (`Runs.reorder`): the first
label is carried to its new place past independent ones only, and so on with
the rest.
-/

namespace Run

variable {σ α : Type*} {step : σ → α → σ → Prop} {I : σ → Prop}

/-- From states of the invariant, the second label may as well come first. -/
def Commutes (step : σ → α → σ → Prop) (I : σ → Prop) (a b : α) : Prop :=
  ∀ ⦃s t u⦄, I s → step s a t → step t b u → ∃ t', step s b t' ∧ step t' a u

/-- The second list has the items of the first, and of any two dependent
ones the same comes first. -/
def Reorders (Dep : α → α → Prop) (l l' : List α) : Prop :=
  ∃ place : Fin l.length ≃ Fin l'.length, (∀ i, l'[place i] = l[i]) ∧
    ∀ i j, i < j → Dep l[i] l[j] → place i < place j

theorem Reorders.symm {Dep : α → α → Prop} (hsymm : ∀ ⦃a b⦄, Dep a b → Dep b a) {l l' : List α}
    (h : Reorders Dep l l') : Reorders Dep l' l := by
  obtain ⟨place, hget, hkeeps⟩ := h
  have hget' : ∀ j, l[place.symm j] = l'[j] := by
    intro j
    simp [← hget]
  refine ⟨place.symm, hget', fun i j hij hdep => ?_⟩
  rw [← hget', ← hget'] at hdep
  -- in the other order the first list would keep them in that order
  by_contra hnot
  have hne : place.symm j ≠ place.symm i := fun heq => hij.ne' (place.symm.injective heq)
  have hlt := hkeeps _ _ (lt_of_le_of_ne (not_lt.mp hnot) hne) (hsymm hdep)
  simp only [Equiv.apply_symm_apply] at hlt
  exact hij.asymm hlt

namespace Runs

/-- The first label moves behind labels that it commutes with. -/
theorem behind (hkeep : ∀ ⦃s a s'⦄, I s → step s a s' → I s') {a : α} {front back : List α}
    (hcomm : ∀ b ∈ front, Commutes step I a b) {s t : σ} (hs : I s)
    (hrun : Runs step s (a :: (front ++ back)) t) : Runs step s (front ++ a :: back) t := by
  induction front generalizing s with
  | nil => exact hrun
  | cons b front ih =>
      obtain ⟨m, ha, hrest⟩ := cons_iff.mp hrun
      obtain ⟨n, hb, hrest⟩ := cons_iff.mp hrest
      obtain ⟨m', hb', ha'⟩ := hcomm b (by simp) hs ha hb
      have hrest' := ih (fun c hc => hcomm c (by simp [hc])) (hkeep hs hb') (cons ha' hrest)
      exact cons hb' hrest'

/-- A run along numbered labels survives a reordering that inverts commuting
labels only. -/
theorem reorder_numbered (hkeep : ∀ ⦃s a s'⦄, I s → step s a s' → I s') {l l' : List (α × ℕ)}
    (hperm : l'.Perm l) (hsorted : l.Pairwise fun x y => x.2 < y.2)
    (hinverts : l'.Pairwise fun x y => y.2 < x.2 → Commutes step I y.1 x.1) {s t : σ} (hs : I s)
    (hrun : Runs step s (l.map Prod.fst) t) : Runs step s (l'.map Prod.fst) t := by
  induction l generalizing l' s with
  | nil =>
      obtain rfl := hperm.eq_nil
      exact hrun
  | cons x l ih =>
      obtain ⟨front, back, rfl⟩ := List.append_of_mem (hperm.mem_iff.mpr List.mem_cons_self)
      have hrest : (front ++ back).Perm l := (List.perm_middle.symm.trans hperm).cons_inv
      obtain ⟨hfirst, hsorted⟩ := List.pairwise_cons.mp hsorted
      obtain ⟨m, hx, hrun⟩ := cons_iff.mp hrun
      have hsub : (front ++ back).Sublist (front ++ x :: back) :=
        (List.sublist_cons_self x back).append_left front
      have hrun' := ih hrest hsorted (hinverts.sublist hsub) (hkeep hs hx) hrun
      rw [List.map_append] at hrun'
      rw [List.map_append, List.map_cons]
      refine behind hkeep ?_ hs (cons hx hrun')
      intro b hb
      obtain ⟨y, hy, rfl⟩ := List.mem_map.mp hb
      have hlt : x.2 < y.2 := hfirst y (hrest.subset (List.mem_append_left back hy))
      exact (List.pairwise_append.mp hinverts).2.2 y hy x List.mem_cons_self hlt

/-- **A run survives the reordering of independent labels.** -/
theorem reorder {Dep : α → α → Prop} (hkeep : ∀ ⦃s a s'⦄, I s → step s a s' → I s')
    (hcomm : ∀ ⦃a b⦄, ¬ Dep a b → Commutes step I a b) {l l' : List α} (h : Reorders Dep l l')
    {s t : σ} (hs : I s) (hrun : Runs step s l t) : Runs step s l' t := by
  obtain ⟨place, hget, hkeeps⟩ := h
  let number (i : Fin l.length) : α × ℕ := (l[i], i.val)
  have hl : ((List.finRange l.length).map number).map Prod.fst = l := by
    rw [List.map_map]
    exact List.map_getElem_finRange l
  have hl' : ((List.finRange l'.length).map (number ∘ place.symm)).map Prod.fst = l' := by
    have hfst : Prod.fst ∘ number ∘ place.symm = fun j => l'[j] := by
      funext j
      simp [number, ← hget]
    rw [List.map_map, hfst]
    exact List.map_getElem_finRange l'
  rw [← hl] at hrun
  rw [← hl']
  refine reorder_numbered hkeep ?_ ?_ ?_ hs hrun
  · rw [← List.map_map]
    refine List.Perm.map number ?_
    refine (List.perm_ext_iff_of_nodup ((List.nodup_finRange _).map place.symm.injective)
      (List.nodup_finRange _)).mpr fun i => ⟨fun _ => List.mem_finRange i, fun _ => ?_⟩
    exact List.mem_map.mpr ⟨place i, List.mem_finRange _, place.symm_apply_apply i⟩
  · rw [List.pairwise_map]
    exact List.pairwise_lt_finRange _
  · rw [List.pairwise_map]
    refine (List.pairwise_lt_finRange _).imp fun {j j'} hlt hinv => hcomm fun hdep => ?_
    have hplace := hkeeps _ _ hinv hdep
    simp only [Equiv.apply_symm_apply] at hplace
    exact absurd hlt hplace.asymm

end Runs

end Run
