import Mathlib
import StitchEditor.Abi.Record

/-!
# StitchEditor.Abi.Handles

The counter of handles along a run.

`next_handle` counts up from 1 and wraps around; as long as fewer than
`2 ^ 64 - 1` handles were taken, the next one is new
(`Recorded.toNat_nextHandle`).
-/

namespace StitchEditor.Abi

open StitchEditor Fallible Run

/-- The transition takes a handle from the counter. -/
def Transition.allocates (tr : Transition) : Bool := tr.after.nextHandle ≠ tr.before.nextHandle

/-- How many handles the transitions take. -/
def allocations (trs : List Transition) : Nat := trs.countP Transition.allocates

theorem allocations_append (front back : List Transition) :
    allocations (front ++ back) = allocations front + allocations back := List.countP_append

theorem allocations_le_append (front back : List Transition) :
    allocations front ≤ allocations (front ++ back) := by
  rw [allocations_append]
  exact Nat.le_add_right _ _

theorem few_of_append {front back : List Transition}
    (hfew : allocations (front ++ back) < 2 ^ 64 - 1) : allocations front < 2 ^ 64 - 1 :=
  (allocations_le_append front back).trans_lt hfew

section Handles

variable [Sha256]

variable {p p' q : Process} {tr : Transition} {trs : List Transition}

theorem Process.Executes.nextHandle {thread : ThreadId} {pc : Pc} {progress : Progress}
    (h : p.Executes thread pc q progress) :
    q.nextHandle = p.nextHandle ∨ q.nextHandle = p.nextHandle + 1 := by
  cases h with
  | allocateCore | allocateDiff => exact .inr rfl
  | locked _ haccess =>
      rw [haccess.nextHandle]
      split
      · exact .inr rfl
      · exact .inl rfl
  | insertCore | destroy | lookup | insertDiff _ | counted _ _ => exact .inl rfl

theorem Transition.Joins.nextHandle (h : Transition.Joins p tr p') :
    p'.nextHandle = if tr.allocates then p.nextHandle + 1 else p.nextHandle := by
  have htwo : p'.nextHandle = p.nextHandle ∨ p'.nextHandle = p.nextHandle + 1 := by
    obtain ⟨before, label, after⟩ := tr
    obtain ⟨rfl, rfl, hstep⟩ := h
    have htakes : before.Takes label after := hstep.takes
    cases htakes with
    | reject _ _ | start _ _ | fail _ _ | endCallback _ => exact .inl rfl
    | run _ hexecutes => exact hexecutes.nextHandle
  unfold Transition.allocates
  rw [h.before, h.after]
  rcases htwo with hsame | hnext
  · simp [hsame]
  · simp [hnext]

/-- What one more transition keeps holds along every run that takes few
handles: the part before the transition takes few as well. -/
theorem Recorded.invariant_of_few {I : List Transition → Process → Prop} (hrun : Recorded trs p)
    (hfew : allocations trs < 2 ^ 64 - 1) (hstart : I [] Process.initial)
    (hstep : ∀ ⦃trs p tr p'⦄, Recorded trs p → allocations trs < 2 ^ 64 - 1 →
      allocations (trs ++ [tr]) < 2 ^ 64 - 1 → I trs p → Transition.Joins p tr p' →
      I (trs ++ [tr]) p') : I trs p := by
  refine hrun.invariant (I := fun trs p => allocations trs < 2 ^ 64 - 1 → I trs p)
    (fun _ => hstart) ?_ hfew
  intro trs p tr p' hrun ih hjoins hfew'
  have hfew := few_of_append hfew'
  exact hstep hrun hfew hfew' (ih hfew) hjoins

/-- **Handles are new** as long as the counter has not wrapped around. -/
theorem Recorded.toNat_nextHandle (hrun : Recorded trs p) (hfew : allocations trs < 2 ^ 64 - 1) :
    p.nextHandle.toNat = allocations trs + 1 := by
  refine hrun.invariant_of_few (I := fun trs p => p.nextHandle.toNat = allocations trs + 1)
    hfew rfl ?_
  intro trs p tr p' _ _ hfew ih hjoins
  rw [allocations_append] at hfew ⊢
  rw [hjoins.nextHandle]
  cases hallocates : tr.allocates with
  | false => simp [allocations, hallocates, ih]
  | true =>
      have hone : allocations [tr] = 1 := by simp [allocations, hallocates]
      rw [hone] at hfew ⊢
      simp only [if_true, UInt64.toNat_add, ih]
      exact Nat.mod_eq_of_lt (by simp; omega)

/-- The next handle is the counter. -/
theorem Recorded.toNat_freshHandle (hrun : Recorded trs p) (hfew : allocations trs < 2 ^ 64 - 1) :
    p.freshHandle.toNat = allocations trs + 1 := by
  have hnext := hrun.toNat_nextHandle hfew
  change (if p.nextHandle ≤ 1 then 1 else p.nextHandle).toNat = _
  split
  · next hle =>
    rw [UInt64.le_iff_toNat_le, hnext] at hle
    simp only [UInt64.toNat_one] at hle ⊢
    omega
  · exact hnext

end Handles

end StitchEditor.Abi
