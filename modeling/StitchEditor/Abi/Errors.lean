import Mathlib
import StitchEditor.Lib.Fallible
import StitchEditor.Abi.Calls

/-!
# StitchEditor.Abi.Errors

How calls and sections fail.

A section that fails says so, and is never refused for being inside a
callback (`Process.raises_exec`); outside a callback no call is either
(`Call.raises_start`).
-/

namespace StitchEditor.Abi

open StitchEditor Fallible

/-! ## arguments -/

/-- An error that a section may raise: none of them succeeds, and a section
does not look whether it is inside a callback. -/
def StitchResult.Fails (result : StitchResult) : Prop := result ≠ .ok ∧ result ≠ .reentrantMutation

instance (result : StitchResult) : Decidable result.Fails := inferInstanceAs (Decidable (_ ∧ _))

/-- A check fails with its own error. -/
theorem raises_refuse {check : Prop} [Decidable check] {error : StitchResult}
    (herror : error.Fails) : Raises (refuse check error) StitchResult.Fails :=
  .ite (.error herror) (.ok _)

/-- What is wrong with a time is `BadRational`. -/
theorem raises_orBadRational {α : Type} (x : Except TimeError α) :
    Raises (orBadRational x) StitchResult.Fails := by
  cases x with
  | ok a => exact .ok a
  | error e => exact .error (by decide)

theorem raises_input {α : Type} (value : Option α) : Raises (input value) StitchResult.Fails := by
  cases value with
  | none => exact .error (by decide)
  | some value => exact .ok value

/-- A header fails by its version or by its size. -/
theorem raises_validHeader (size : UInt32) (header : StitchHeader) :
    Raises (validHeader size header) StitchResult.Fails :=
  (raises_refuse (by decide)).bind fun _ _ => raises_refuse (by decide)

theorem raises_range (value : StitchTimeRange) : Raises (range value) StitchResult.Fails :=
  (raises_orBadRational _).bind fun _ _ => (raises_orBadRational _).bind fun _ _ =>
    raises_orBadRational _

/-- A raw command fails by its header, by an unused field, by a time or by its
kind. -/
theorem raises_command (value : StitchCommand) : Raises (command value) StitchResult.Fails := by
  refine (raises_validHeader _ _).bind fun _ _ => (raises_refuse (by decide)).bind fun _ _ => ?_
  split
  · exact (raises_refuse (by decide)).bind fun _ _ => .ok _
  · exact (raises_refuse (by decide)).bind fun _ _ => .ok _
  · exact (raises_refuse (by decide)).bind fun _ _ => (raises_range _).bind fun _ _ =>
      (raises_range _).bind fun _ _ => .ok _
  · exact (raises_refuse (by decide)).bind fun _ _ => (raises_range _).bind fun _ _ => .ok _
  · exact (raises_refuse (by decide)).bind fun _ _ => .ok _
  · exact .error (by decide)

/-- Outside a callback no call is refused for being inside one. -/
theorem Call.raises_start (call : Call) : Raises (call.start false) StitchResult.Fails := by
  have hwritable : ∀ out, Raises (writable out) StitchResult.Fails :=
    fun out => raises_refuse (by decide)
  cases call with
  | coreCreate config outCore =>
      exact (hwritable outCore).bind fun _ _ => (raises_input config).bind fun _ _ =>
        (raises_validHeader _ _).bind fun _ _ => .ok _
  | coreSnapshot core outSnapshot => exact (hwritable outSnapshot).bind fun _ _ => .ok _
  | coreSubmit core batch callback outDiff =>
      have hcheck : ∀ batch, Raises (checkBatch batch) StitchResult.Fails := fun _ =>
        (raises_validHeader _ _).bind fun _ _ => (raises_refuse (by decide)).bind fun _ _ =>
          raises_refuse (by decide)
      exact (hwritable outDiff).bind fun _ _ => (raises_input batch).bind fun _ _ =>
        (hcheck _).bind fun _ _ => .ok _
  | frameLeaseRegister core metadata outLease =>
      have hcheck : ∀ metadata, Raises (checkMetadata metadata) StitchResult.Fails := fun _ =>
        (raises_validHeader _ _).bind fun _ _ => (raises_orBadRational _).bind fun _ _ =>
          raises_refuse (by decide)
      exact (hwritable outLease).bind fun _ _ => (raises_input metadata).bind fun _ _ =>
        (hcheck _).bind fun _ _ => .ok _
  | frameLeaseAcquire core lease device epoch revision =>
      exact (raises_input revision).bind fun _ _ => .ok _
  | _ => exact .ok _

/-! ## sections -/

section Sections

variable [Sha256]

namespace CoreState

/-- A batch fails by its owner, its revision and its epoch, or at one of its
commands. -/
theorem raises_submit (self : CoreState) (thread : ThreadId) (batch : StitchCommandBatch) :
    Raises (self.submit thread batch) StitchResult.Fails := by
  have hraw : ∀ history raw, Raises (applyRaw history raw) StitchResult.Fails := by
    intro history raw
    refine (raises_command raw).bind fun c _ => ?_
    split
    · exact .ok _
    · exact .error (by decide)
  have hfold : ∀ (raws : List StitchCommand) (history : EditorHistory),
      Raises (raws.foldlM applyRaw history) StitchResult.Fails := by
    intro raws
    induction raws with
    | nil => exact fun history => .ok history
    | cons raw raws ih => exact fun history => (hraw history raw).bind fun next _ => ih next
  exact (raises_refuse (by decide)).bind fun _ _ => (raises_refuse (by decide)).bind fun _ _ =>
    (raises_refuse (by decide)).bind fun _ _ => (hfold _ _).bind fun _ _ => .ok _

omit [Sha256] in
theorem raises_ownedLease (self : CoreState) (thread : ThreadId) (id device : UInt64) :
    Raises (self.ownedLease thread id device) StitchResult.Fails := by
  unfold ownedLease
  cases self.leases[id]? with
  | none => exact .error (by decide)
  | some lease =>
      exact (raises_refuse (by decide)).bind fun _ _ => (raises_refuse (by decide)).bind
        fun _ _ => .ok _

end CoreState

variable (p : Process) (thread : ThreadId)

/-- A section under the lock of a core that fails says so. -/
theorem Process.raises_access (entry : Nat) (core : CoreState) (access : Access) :
    Raises (p.access thread entry core access) StitchResult.Fails := by
  cases access with
  | setEpoch epoch =>
      exact ((raises_refuse (by decide)).bind fun _ _ => (raises_refuse (by decide)).bind
        fun _ _ => .ok _).bind fun _ _ => .ok _
  | snapshot => exact .ok _
  | submit batch callback => exact (core.raises_submit thread batch).bind fun _ _ => .ok _
  | register metadata =>
      exact ((raises_refuse (by decide)).bind fun _ _ => raises_refuse (by decide)).bind
        fun _ _ => .ok _
  | metadataGet lease out =>
      simp only [Process.access]
      split
      · exact .error (by decide)
      · exact (raises_refuse (by decide)).bind fun _ _ => .ok _
  | checkAcquire handle lease device epoch revision =>
      exact ((raises_refuse (by decide)).bind fun _ _ => raises_refuse (by decide)).bind
        fun _ _ => .ok _
  | checkSubmit handle lease device =>
      simp only [Process.access, CoreState.checkSubmit]
      split
      · exact .error (by decide)
      · exact ((raises_refuse (by decide)).bind fun _ _ => raises_refuse (by decide)).bind
          fun _ _ => .ok _
  | transition lease device expected next retire =>
      exact ((core.raises_ownedLease thread lease device).bind fun _ _ =>
        (raises_refuse (by decide)).bind fun _ _ => .ok _).bind fun _ _ => .ok _
  | discard lease device =>
      exact ((core.raises_ownedLease thread lease device).bind fun _ _ =>
        (raises_refuse (by decide)).bind fun _ _ => .ok _).bind fun _ _ => .ok _
  | remove lease => exact .ok _

omit [Sha256] in
/-- A core is not destroyed by another thread, or while it has leases. -/
theorem Process.raises_destroy (handle : UInt64) :
    Raises (p.destroy thread handle) StitchResult.Fails := by
  unfold Process.destroy
  split
  · exact .error (by decide)
  · exact (raises_refuse (by decide)).bind fun _ _ => (raises_refuse (by decide)).bind
      fun _ _ => .ok _

/-- **A section that fails says so.** -/
theorem Process.raises_exec (pc : Pc) : Raises (p.exec thread pc) StitchResult.Fails := by
  have hretain : ∀ {α : Type} (entries : OrdMap UInt64 (RefHandle α)) (handle : UInt64),
      Raises (retain entries handle) StitchResult.Fails := by
    intro α entries handle
    unfold retain
    split
    · exact .error (by decide)
    · exact .ite (.ok _) (.error (by decide))
  have hrelease : ∀ {α : Type} (entries : OrdMap UInt64 (RefHandle α)) (handle : UInt64),
      Raises (release entries handle) StitchResult.Fails := by
    intro α entries handle
    unfold release
    split
    · exact .error (by decide)
    · exact .ite (.ok _) (.ok _)
  have hmetadata : ∀ {α : Type} (entries : OrdMap UInt64 (RefHandle α)) (handle : UInt64)
      (out : Bool), Raises (metadataGet entries handle out) StitchResult.Fails := by
    intro α entries handle out
    unfold metadataGet
    split
    · exact .error (by decide)
    · exact (raises_refuse (by decide)).bind fun _ _ => .ok _
  cases pc with
  | allocateCore epoch | insertCore handle epoch | allocateDiff metadata callback
  | insertDiff handle metadata callback => exact .ok _
  | destroy handle => exact (p.raises_destroy thread handle).bind fun _ _ => .ok _
  | lookup handle access =>
      simp only [Process.exec]
      split
      · exact .error (by decide)
      · exact .ok _
  | locked entry access =>
      simp only [Process.exec]
      split
      · exact .error (by decide)
      · exact p.raises_access thread _ _ _
  | snapshotRetain handle | diffRetain handle => exact (hretain _ _).bind fun _ _ => .ok _
  | snapshotRelease handle | diffRelease handle => exact (hrelease _ _).bind fun _ _ => .ok _
  | snapshotMetadataGet handle out | diffMetadataGet handle out =>
      exact (hmetadata _ _ _).bind fun _ _ => .ok _

end Sections

end StitchEditor.Abi
