import Mathlib
import StitchEditor.Lib.Counted
import StitchEditor.Abi.Errors
import StitchEditor.Abi.Leases

/-!
# StitchEditor.Abi.Tables

The tables of snapshots and diffs.

A section that succeeds creates, retains or releases a handle, or leaves both
tables alone (`Process.tables_of_exec`); one that fails leaves them alone.
-/

namespace StitchEditor.Abi

open StitchEditor Fallible Run Counted

section Sections

variable [Sha256] {p : Process} {thread : ThreadId}

/-! ## handles by reference -/

/-- The values and counts of a table. -/
def tally {α : Type} (entries : OrdMap UInt64 (RefHandle α)) : Entries UInt64 α :=
  fun handle => entries[handle]?.map fun entry => (entry.value, entry.refs.toNat)

/-- What a section may do to a table. -/
inductive Tabulates {α : Type} (entries : OrdMap UInt64 (RefHandle α)) :
    Event UInt64 α → OrdMap UInt64 (RefHandle α) → Prop where
  | create {handle : UInt64} {value : α} :
      Tabulates entries (.create handle value) (entries.insert handle ⟨value, 1⟩)
  | retain {handle : UInt64} {entries' : OrdMap UInt64 (RefHandle α)}
      (h : Abi.retain entries handle = .ok entries') : Tabulates entries (.retain handle) entries'
  | release {handle : UInt64} {entries' : OrdMap UInt64 (RefHandle α)}
      (h : Abi.release entries handle = .ok entries') : Tabulates entries (.release handle) entries'

section Tally

variable {α : Type} {entries entries' : OrdMap UInt64 (RefHandle α)} {handle : UInt64}
  {event : Event UInt64 α}

omit [Sha256]

theorem tally_insert (entry : RefHandle α) : tally (entries.insert handle entry) =
    Function.update (tally entries) handle (some (entry.value, entry.refs.toNat)) := by
  funext other
  by_cases hother : other = handle
  · simp [tally, hother]
  · simp [tally, hother, Table.getElem?_insert_eq]

theorem tally_erase : tally (entries.erase handle) =
    Function.update (tally entries) handle none := by
  funext other
  by_cases hother : other = handle
  · simp [tally, hother]
  · simp [tally, hother, Table.getElem?_erase_eq]

/-- **The tables count references**: a count never wraps. -/
theorem Tabulates.changes (h : Tabulates entries event entries')
    (hfresh : ∀ handle ∈ event.created?, entries[handle]? = none)
    (hcounts : ∀ handle value count, tally entries handle = some (value, count) → 0 < count) :
    Changes (tally entries) event (tally entries') := by
  cases h with
  | create =>
      rw [tally_insert]
      exact .create (by simp [tally, hfresh _ rfl])
  | @retain handle _ h =>
      unfold Abi.retain at h
      split at h
      · cases h
      · next entry hentry =>
        obtain ⟨hlt, rfl⟩ := ite_ok_eq_ok_iff.mp h
        have hcount : (entry.refs + 1).toNat = entry.refs.toNat + 1 := by
          rw [UInt32.toNat_add, Nat.mod_eq_of_lt]
          · rfl
          · exact hlt
        rw [tally_insert, hcount]
        exact .retain (by simp [tally, hentry])
  | @release handle _ h =>
      unfold Abi.release at h
      split at h
      · cases h
      · next entry hentry =>
        have htally : tally entries handle = some (entry.value, entry.refs.toNat) := by
          simp [tally, hentry]
        have hpos := hcounts _ _ _ htally
        obtain ⟨count, hcount⟩ : ∃ count, entry.refs.toNat = count + 1 :=
          ⟨_, (Nat.sub_add_cancel hpos).symm⟩
        rw [hcount] at htally
        have hchanges := Changes.release htally
        split at h
        · next hone =>
          cases h
          have hzero : count = 0 := by
            rw [hone] at hcount
            simpa using hcount.symm
          rwa [if_pos hzero, ← tally_erase] at hchanges
        · next hone =>
          cases h
          have hle : (1 : UInt32) ≤ entry.refs := by
            rw [UInt32.le_iff_toNat_le, hcount]
            simp
          have hrest : (entry.refs - 1).toNat = count := by
            rw [UInt32.toNat_sub_of_le _ _ hle, hcount]
            rfl
          have hne : count ≠ 0 := by
            rintro rfl
            exact hone (UInt32.toNat_inj.mp hcount)
          rw [tally_insert, hrest]
          rwa [if_neg hne] at hchanges

end Tally

/-! ## events -/

/-- What a section, if it succeeds, does to a handle of a snapshot. -/
def Process.snapshotEvent? (self : Process) :
    Pc → Option (Event UInt64 StitchSnapshotMetadata)
  | .locked entry .snapshot =>
      self.heap[entry]?.map fun core => .create self.freshHandle core.snapshotMetadata
  | .snapshotRetain handle => some (.retain handle)
  | .snapshotRelease handle => some (.release handle)
  | _ => none

omit [Sha256] in
/-- What a section, if it succeeds, does to a handle of a diff. -/
def Pc.diffEvent? : Pc → Option (Event UInt64 StitchDiffMetadata)
  | .insertDiff handle metadata _ => some (.create handle metadata)
  | .diffRetain handle => some (.retain handle)
  | .diffRelease handle => some (.release handle)
  | _ => none

omit [Sha256] in
/-- The step does not end a call with an error. -/
def Label.succeeds (label : Label) : Bool :=
  match label.returned with
  | some (result, _) => result = .ok
  | none => true

omit [Sha256] in
/-- What a successful section of the transition does. -/
def Transition.event? {ε : Type} (event? : Process → Pc → Option ε) (tr : Transition) : Option ε :=
  match tr.label.action with
  | .advance thread =>
      if tr.label.succeeds then (tr.before.threads thread).pc.bind (event? tr.before) else none
  | _ => none

omit [Sha256] in
theorem Transition.event?_eq_some_iff {ε : Type} {event? : Process → Pc → Option ε}
    {tr : Transition} {e : ε} : tr.event? event? = some e ↔
      ∃ thread pc, tr.label.action = .advance thread ∧ tr.label.succeeds ∧
        (tr.before.threads thread).pc = some pc ∧ event? tr.before pc = some e := by
  unfold Transition.event?
  cases tr.label.action with
  | begin thread call | endCallback thread => simp
  | advance thread => simp [Option.bind_eq_some_iff]

omit [Sha256] in
/-- A table after an event, if there was one. -/
def Tabulated {α : Type} (entries : OrdMap UInt64 (RefHandle α)) (event? : Option (Event UInt64 α))
    (entries' : OrdMap UInt64 (RefHandle α)) : Prop :=
  match event? with
  | none => entries' = entries
  | some event => Tabulates entries event entries'

/-- A section under the lock of a core takes a snapshot, or leaves both
tables alone. -/
theorem Process.tables_of_access {q : Process} {entry : Nat} {core : CoreState} {access : Access}
    {progress : Progress} (hcore : p.heap[entry]? = some core)
    (h : p.access thread entry core access = .ok (q, progress)) :
    Tabulated p.snapshots (p.snapshotEvent? (.locked entry access)) q.snapshots ∧
      q.diffs = p.diffs := by
  cases access with
  | snapshot =>
      simp only [Process.access, pure_eq_ok_iff, Prod.mk.injEq] at h
      obtain ⟨rfl, -⟩ := h
      refine ⟨?_, rfl⟩
      rw [Process.snapshotEvent?, hcore]
      exact .create
  | metadataGet lease out =>
      simp only [Process.access] at h
      split at h
      · cases h
      · simp only [bind_eq_ok_iff, pure_eq_ok_iff, Prod.mk.injEq] at h
        obtain ⟨-, -, rfl, -⟩ := h
        exact ⟨rfl, rfl⟩
  | remove lease =>
      simp only [Process.access, pure_eq_ok_iff, Prod.mk.injEq] at h
      obtain ⟨rfl, -⟩ := h
      exact ⟨rfl, rfl⟩
  | setEpoch epoch | submit batch callback | register metadata
  | checkAcquire handle lease device epoch revision | checkSubmit handle lease device
  | transition lease device expected next retire | discard lease device =>
      simp only [Process.access, bind_eq_ok_iff, pure_eq_ok_iff, Prod.mk.injEq] at h
      obtain ⟨_, -, rfl, -⟩ := h
      exact ⟨rfl, rfl⟩

/-- **What a section does to the tables.** -/
theorem Process.tables_of_exec {q : Process} {pc : Pc} {progress : Progress}
    (h : p.exec thread pc = .ok (q, progress)) :
    Tabulated p.snapshots (p.snapshotEvent? pc) q.snapshots ∧
      Tabulated p.diffs pc.diffEvent? q.diffs := by
  cases pc with
  | locked entry access =>
      simp only [Process.exec] at h
      split at h
      · cases h
      · next core hcore => exact Process.tables_of_access hcore h
  | lookup handle access =>
      simp only [Process.exec] at h
      split at h <;> cases h
      exact ⟨rfl, rfl⟩
  | destroy handle =>
      simp only [Process.exec, bind_eq_ok_iff, pure_eq_ok_iff, Prod.mk.injEq] at h
      obtain ⟨_, hdestroy, rfl, -⟩ := h
      obtain ⟨_, _, -, -, -, -, rfl⟩ := Process.destroy_eq_ok hdestroy
      exact ⟨rfl, rfl⟩
  | insertDiff handle metadata callback =>
      cases h
      exact ⟨rfl, .create⟩
  | allocateCore epoch | insertCore handle epoch | allocateDiff metadata callback =>
      cases h
      exact ⟨rfl, rfl⟩
  | snapshotRetain handle =>
      simp only [Process.exec, bind_eq_ok_iff, pure_eq_ok_iff, Prod.mk.injEq] at h
      obtain ⟨_, hretain, rfl, -⟩ := h
      exact ⟨.retain hretain, rfl⟩
  | snapshotRelease handle =>
      simp only [Process.exec, bind_eq_ok_iff, pure_eq_ok_iff, Prod.mk.injEq] at h
      obtain ⟨_, hrelease, rfl, -⟩ := h
      exact ⟨.release hrelease, rfl⟩
  | diffRetain handle =>
      simp only [Process.exec, bind_eq_ok_iff, pure_eq_ok_iff, Prod.mk.injEq] at h
      obtain ⟨_, hretain, rfl, -⟩ := h
      exact ⟨rfl, .retain hretain⟩
  | diffRelease handle =>
      simp only [Process.exec, bind_eq_ok_iff, pure_eq_ok_iff, Prod.mk.injEq] at h
      obtain ⟨_, hrelease, rfl, -⟩ := h
      exact ⟨rfl, .release hrelease⟩
  | snapshotMetadataGet handle out | diffMetadataGet handle out =>
      simp only [Process.exec, bind_eq_ok_iff, pure_eq_ok_iff, Prod.mk.injEq] at h
      obtain ⟨_, -, rfl, -⟩ := h
      exact ⟨rfl, rfl⟩

/-- What a section returns, if anything, is `Ok`. -/
theorem Process.succeeds_of_exec {q : Process} {pc : Pc} {progress : Progress}
    (h : p.exec thread pc = .ok (q, progress)) (action : Action) :
    Label.succeeds ⟨action, progress.returned⟩ := by
  have hexecutes := Process.exec_executes h
  cases hexecutes with
  | locked _ haccess => cases haccess.serves <;> rfl
  | insertDiff hprogress => subst hprogress; split <;> rfl
  | allocateCore | insertCore | destroy | lookup | allocateDiff | counted _ _ => rfl

/-- **What a transition does to the tables.** -/
theorem Transition.Joins.tables {p' : Process} {tr : Transition} (h : Transition.Joins p tr p') :
    Tabulated p.snapshots (tr.event? Process.snapshotEvent?) p'.snapshots ∧
      Tabulated p.diffs (tr.event? fun _ => Pc.diffEvent?) p'.diffs := by
  obtain ⟨before, ⟨action, returned⟩, after⟩ := tr
  obtain ⟨rfl, rfl, hstep⟩ := h
  cases action with
  | begin thread call =>
      have htakes : before.Takes _ after := hstep.takes
      cases htakes <;> exact ⟨rfl, rfl⟩
  | endCallback thread =>
      have htakes : before.Takes _ after := hstep.takes
      cases htakes
      exact ⟨rfl, rfl⟩
  | advance thread =>
      have hstep : before.Step ⟨.advance thread, returned⟩ after := hstep
      obtain ⟨pc, hpc⟩ := hstep.pc
      obtain ⟨error, hexec, rfl, rfl⟩ | ⟨q, progress, hexec, rfl, rfl⟩ := hstep.exec hpc
      · have herror := before.raises_exec thread pc error hexec
        simp [Transition.event?, Label.succeeds, herror.1, Tabulated, Process.setThread]
      · have hsucceeds := Process.succeeds_of_exec hexec (.advance thread)
        have htables := Process.tables_of_exec hexec
        simp only [Transition.event?, hsucceeds, if_true, hpc, Option.bind_some]
        exact htables

end Sections

end StitchEditor.Abi
