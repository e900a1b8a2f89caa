import Mathlib
import StitchEditor.Abi.Record

/-!
# StitchEditor.Abi.Callers

The call that a thread is in.

A thread begins a call only between two others, so that the call it is in
is the one it began last, and every section it runs belongs to that call
(`Recorded.within`).  For the sections that move leases this tells which id
and device generation the caller has named.
-/

namespace StitchEditor.Abi

open StitchEditor Fallible Run

/-- The call that the transition begins for the thread. -/
def Transition.begun? (tr : Transition) (thread : ThreadId) : Option Call :=
  match tr.label.action with
  | .begin other call => if other = thread then some call else none
  | _ => none

/-- The call that the thread began last. -/
def callOf (trs : List Transition) (thread : ThreadId) : Option Call :=
  (trs.filterMap fun tr => tr.begun? thread).getLast?

theorem callOf_concat (trs : List Transition) (tr : Transition) (thread : ThreadId) :
    callOf (trs ++ [tr]) thread = (tr.begun? thread).or (callOf trs thread) := by
  unfold callOf
  rw [List.filterMap_append]
  cases h : tr.begun? thread with
  | none => simp [h]
  | some call => simp [h]

theorem Transition.begun?_eq_none {tr : Transition} {thread : ThreadId}
    (hne : thread ≠ tr.label.action.thread) : tr.begun? thread = none := by
  unfold begun?
  split
  · next other call haction =>
    rw [haction] at hne
    exact if_neg (Ne.symm hne)
  · rfl

/-- The access moves no lease. -/
def Access.Still : Access → Prop
  | .setEpoch _ => True
  | .snapshot => True
  | .submit _ _ => True
  | .metadataGet _ _ => True
  | _ => False

/-- The access is part of the call. -/
inductive Access.Within : Call → Access → Prop where
  | still {call : Call} {access : Access} (h : access.Still) : Within call access
  | register {core : UInt64} {metadata : StitchFrameMetadata} {outLease : Bool} :
      Within (.frameLeaseRegister core (some metadata) outLease) (.register metadata)
  | checkAcquire {core id device epoch : UInt64} {revision : StitchDigest} :
      Within (.frameLeaseAcquire core id device epoch (some revision))
        (.checkAcquire core id device epoch revision)
  | acquire {core id device epoch : UInt64} {revision : StitchDigest} :
      Within (.frameLeaseAcquire core id device epoch (some revision))
        (.transition id device .registered .acquired none)
  | discard {core id device : UInt64} :
      Within (.frameLeaseDiscard core id device) (.discard id device)
  | checkSubmit {core id device : UInt64} :
      Within (.frameLeaseSubmit core id device) (.checkSubmit core id device)
  | submit {core id device : UInt64} :
      Within (.frameLeaseSubmit core id device) (.transition id device .acquired .submitted none)
  | complete {core id device : UInt64} :
      Within (.frameLeaseComplete core id device) (.transition id device .submitted .completed none)
  | retire {core id device : UInt64} :
      Within (.frameLeaseRetire core id device)
        (.transition id device .completed .retired (some core))
  | remove {core id device : UInt64} : Within (.frameLeaseRetire core id device) (.remove id)

/-- The section is part of the call. -/
def Pc.Within (call : Call) : Pc → Prop
  | .lookup _ access => access.Within call
  | .locked _ access => access.Within call
  | _ => True

theorem Pc.within_of_start {call : Call} {inCallback : Bool} {pc : Pc}
    (h : call.start inCallback = .ok pc) : pc.Within call := by
  cases call with
  | frameLeaseRegister core metadata outLease =>
      simp only [Call.start, bind_eq_ok_iff, pure_eq_ok_iff] at h
      obtain ⟨_, -, _, -, found, hfound, _, -, rfl⟩ := h
      cases metadata with
      | none => cases hfound
      | some metadata =>
          cases hfound
          exact .register
  | frameLeaseAcquire core id device epoch revision =>
      simp only [Call.start, bind_eq_ok_iff, pure_eq_ok_iff] at h
      obtain ⟨_, -, found, hfound, rfl⟩ := h
      cases revision with
      | none => cases hfound
      | some revision =>
          cases hfound
          exact .checkAcquire
  | frameLeaseDiscard core id device =>
      simp only [Call.start, bind_eq_ok_iff, pure_eq_ok_iff] at h
      obtain ⟨_, -, rfl⟩ := h
      exact .discard
  | frameLeaseSubmit core id device =>
      simp only [Call.start, bind_eq_ok_iff, pure_eq_ok_iff] at h
      obtain ⟨_, -, rfl⟩ := h
      exact .checkSubmit
  | frameLeaseComplete core id device =>
      simp only [Call.start, bind_eq_ok_iff, pure_eq_ok_iff] at h
      obtain ⟨_, -, rfl⟩ := h
      exact .complete
  | frameLeaseRetire core id device =>
      simp only [Call.start, bind_eq_ok_iff, pure_eq_ok_iff] at h
      obtain ⟨_, -, rfl⟩ := h
      exact .retire
  | coreSetEpoch core epoch =>
      simp only [Call.start, bind_eq_ok_iff, pure_eq_ok_iff] at h
      obtain ⟨_, -, rfl⟩ := h
      exact .still trivial
  | coreSnapshot core outSnapshot =>
      simp only [Call.start, bind_eq_ok_iff, pure_eq_ok_iff] at h
      obtain ⟨_, -, rfl⟩ := h
      exact .still trivial
  | coreSubmit core batch callback outDiff =>
      simp only [Call.start, bind_eq_ok_iff, pure_eq_ok_iff] at h
      obtain ⟨_, -, _, -, _, -, _, -, rfl⟩ := h
      exact .still trivial
  | frameLeaseMetadataGet core id outMetadata =>
      cases h
      exact .still trivial
  | coreCreate config outCore =>
      simp only [Call.start, bind_eq_ok_iff, pure_eq_ok_iff] at h
      obtain ⟨_, -, _, -, _, -, rfl⟩ := h
      trivial
  | coreDestroy core =>
      simp only [Call.start, bind_eq_ok_iff, pure_eq_ok_iff] at h
      obtain ⟨_, -, rfl⟩ := h
      trivial
  | snapshotRetain handle | snapshotRelease handle | snapshotMetadataGet handle out
  | diffRetain handle | diffRelease handle | diffMetadataGet handle out =>
      cases h
      trivial

section Callers

variable [Sha256]

/-- A section leads to the next one of its call. -/
theorem Pc.Within.executes {p q : Process} {thread : ThreadId} {pc pc' : Pc} {call : Call}
    (h : pc.Within call) (hexecutes : p.Executes thread pc q (.continues pc')) :
    pc'.Within call := by
  cases hexecutes with
  | allocateCore | allocateDiff => trivial
  | lookup _ => exact h
  | insertDiff hprogress => split at hprogress <;> cases hprogress
  | locked _ haccess =>
      cases haccess.serves with
      | submit _ => trivial
      | checkAcquire _ =>
          cases h with
          | still h => exact h.elim
          | checkAcquire => exact .acquire
      | checkSubmit _ =>
          cases h with
          | still h => exact h.elim
          | checkSubmit => exact .submit
      | retire _ =>
          cases h with
          | still h => exact h.elim
          | retire => exact .remove

/-- **Every section belongs to the call that its thread began last.** -/
theorem Recorded.within {trs : List Transition} {p : Process} (hrun : Recorded trs p)
    {thread : ThreadId} {pc : Pc} (hpc : (p.threads thread).pc = some pc) :
    ∃ call, callOf trs thread = some call ∧ pc.Within call := by
  refine hrun.invariant (I := fun trs p => ∀ thread pc, (p.threads thread).pc = some pc →
    ∃ call, callOf trs thread = some call ∧ pc.Within call) nofun ?_ thread pc hpc
  intro trs p tr p' _ ih hjoins thread pc hpc
  have hreaches := hjoins.reaches hpc
  obtain ⟨rfl, rfl, -⟩ := hjoins
  rw [callOf_concat]
  cases hreaches with
  | stays hne hpc =>
      rw [Transition.begun?_eq_none hne, Option.none_or]
      exact ih thread pc hpc
  | @starts call haction hstart =>
      exact ⟨call, by simp [Transition.begun?, haction], Pc.within_of_start hstart⟩
  | goes haction hpc₀ hexecutes _ =>
      obtain ⟨call, hcall, hwithin⟩ := ih thread _ hpc₀
      exact ⟨call, by simp [Transition.begun?, haction, hcall], hwithin.executes hexecutes⟩

end Callers

end StitchEditor.Abi
