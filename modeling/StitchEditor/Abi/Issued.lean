import Mathlib
import StitchEditor.Abi.Lifetime
import StitchEditor.Abi.Tables

/-!
# StitchEditor.Abi.Issued

The handles that calls return.

A handle is taken from the counter, and either returned in the same section
or held by its thread for a while: until the core or the diff is in its
table, and a diff also while its callback runs.  As long as the counter has
not wrapped around, no handle is held or returned twice (`Recorded.issued`).
-/

namespace StitchEditor.Abi

open StitchEditor Fallible Run

/-! ## returned handles and held ones -/

/-- The handle that the step returns. -/
def Label.handle? (label : Label) : Option UInt64 :=
  match label.returned with
  | some (.ok, .handle handle) => some handle
  | _ => none

theorem Label.handle?_error (action : Action) (error : StitchResult) :
    handle? ⟨action, some (error, .none)⟩ = none := by
  cases error <;> rfl

/-- The handles that were returned, in order. -/
def returned (trs : List Transition) : List UInt64 := trs.filterMap fun tr => tr.label.handle?

theorem returned_concat (trs : List Transition) (tr : Transition) :
    returned (trs ++ [tr]) = returned trs ++ tr.label.handle?.toList := by
  unfold returned
  rw [List.filterMap_append]
  cases h : tr.label.handle? <;> simp [h]

/-- Where a thread keeps a handle that it has not returned yet. -/
inductive Slot where
  | pc
  | callback
  deriving DecidableEq

/-- The handle that a section is about to put into its table. -/
def Pc.handle? : Pc → Option UInt64
  | .insertCore handle _ => some handle
  | .insertDiff handle _ _ => some handle
  | _ => none

def Thread.held? (self : Thread) : Slot → Option UInt64
  | .pc => self.pc.bind Pc.handle?
  | .callback => self.callback

/-- What a transition does to handles. -/
inductive Transition.AtHandles (tr : Transition) (thread : ThreadId) (state : Thread) : Prop where
  /-- It may return a held handle. -/
  | keeps (hnext : tr.after.nextHandle = tr.before.nextHandle)
      (hheld : ∀ slot handle, state.held? slot = some handle →
        (tr.before.threads thread).held? slot = some handle)
      (hreturned : ∀ handle, tr.label.handle? = some handle →
        ∃ slot, (tr.before.threads thread).held? slot = some handle ∧ state.held? slot = none)
  /-- It begins the callback for a diff. -/
  | enters {handle : UInt64} (hnext : tr.after.nextHandle = tr.before.nextHandle)
      (hheld : (tr.before.threads thread).held? .pc = some handle)
      (hstate : state = ⟨some handle, none⟩) (hreturned : tr.label.handle? = none)
  /-- It takes a handle and keeps it for its next section. -/
  | takes (hnext : tr.after.nextHandle = tr.before.nextHandle + 1)
      (hheld : ∀ slot handle, state.held? slot = some handle →
        (slot = .pc ∧ handle = tr.before.freshHandle) ∨
          (tr.before.threads thread).held? slot = some handle)
      (hreturned : tr.label.handle? = none)
  /-- It takes a handle and returns it. -/
  | gives (hnext : tr.after.nextHandle = tr.before.nextHandle + 1)
      (hheld : ∀ slot handle, state.held? slot = some handle →
        (tr.before.threads thread).held? slot = some handle)
      (hreturned : tr.label.handle? = some tr.before.freshHandle)

section Issued

variable [Sha256]

variable {p p' q : Process} {tr : Transition} {trs : List Transition} {thread : ThreadId}

omit [Sha256] in
theorem Pc.handle?_of_start {call : Call} {inCallback : Bool} {pc : Pc}
    (h : call.start inCallback = .ok pc) : pc.handle? = none := by
  cases call <;> simp only [Call.start, bind_eq_ok_iff, pure_eq_ok_iff] at h <;> grind [Pc.handle?]

omit [Sha256] in
/-- A thread that goes on without a handle at its program counter. -/
theorem Thread.held?_mono {self : Thread} {pc : Option Pc} (hpc : pc.bind Pc.handle? = none)
    {slot : Slot} {handle : UInt64}
    (h : ({ self with pc := pc } : Thread).held? slot = some handle) :
    self.held? slot = some handle := by
  cases slot with
  | pc => simp [Thread.held?, hpc] at h
  | callback => exact h

/-- A section on the tables returns no handle. -/
theorem Progress.handle?_of_onTables {pc : Pc} {progress : Progress} (htables : pc.onTables)
    (h : p.exec thread pc = .ok (q, progress)) (action : Action) :
    Label.handle? ⟨action, progress.returned⟩ = none := by
  cases pc with
  | snapshotRetain handle | snapshotRelease handle | snapshotMetadataGet handle out
  | diffRetain handle | diffRelease handle | diffMetadataGet handle out =>
      simp only [Process.exec, bind_eq_ok_iff, pure_eq_ok_iff, Prod.mk.injEq] at h
      obtain ⟨_, _, _, rfl⟩ := h
      rfl
  | _ => cases htables

/-- What a successful section of the thread does to handles. -/
theorem Transition.atHandles_of_exec {pc : Pc} {progress : Progress}
    (hpc : (p.threads thread).pc = some pc) (hexec : p.exec thread pc = .ok (q, progress)) :
    Transition.AtHandles ⟨p, ⟨.advance thread, progress.returned⟩,
      q.setThread thread (progress.leaves (p.threads thread))⟩ thread
      (progress.leaves (p.threads thread)) := by
  have hexecutes := Process.exec_executes hexec
  cases hexecutes with
  | allocateCore | allocateDiff =>
      refine .takes rfl (fun slot handle h => ?_) rfl
      cases slot with
      | pc => exact .inl ⟨rfl, (Option.some.inj h).symm⟩
      | callback => exact .inr h
  | @insertCore handle epoch =>
      refine .keeps rfl (fun _ _ => Thread.held?_mono rfl) fun returned h => ⟨.pc, ?_, rfl⟩
      cases h
      simp [Thread.held?, hpc, Pc.handle?]
  | @insertDiff handle metadata callback _ h =>
      have hheld : (p.threads thread).held? .pc = some handle := by
        simp [Thread.held?, hpc, Pc.handle?]
      subst h
      cases callback with
      | true => exact .enters rfl hheld rfl rfl
      | false =>
          refine .keeps rfl (fun _ _ => Thread.held?_mono rfl) fun returned h => ⟨.pc, ?_, rfl⟩
          cases h
          exact hheld
  | destroy _ _ _ _ => exact .keeps rfl (fun _ _ => Thread.held?_mono rfl) nofun
  | lookup _ => exact .keeps rfl (fun _ _ => Thread.held?_mono rfl) nofun
  | counted htables _ =>
      refine .keeps rfl (fun _ _ => Thread.held?_mono rfl) fun returned h => ?_
      rw [Progress.handle?_of_onTables htables hexec] at h
      cases h
  | @locked entry access core core' _ _ _ haccess =>
      have hnext := haccess.nextHandle
      cases haccess.serves with
      | snapshot | register _ => exact .gives hnext (fun _ _ => Thread.held?_mono rfl) rfl
      | _ => exact .keeps hnext (fun _ _ => Thread.held?_mono rfl) nofun

/-- **What a transition does to handles.** -/
theorem Transition.Joins.atHandles (h : Transition.Joins p tr p') :
    ∃ thread state, p'.threads = Function.update p.threads thread state ∧
      tr.AtHandles thread state := by
  obtain ⟨before, ⟨action, returned⟩, after⟩ := tr
  obtain ⟨rfl, rfl, hstep⟩ := h
  cases action with
  | begin thread call =>
      have htakes : before.Takes ⟨.begin thread call, returned⟩ after := hstep.takes
      cases htakes with
      | reject _ _ =>
          refine ⟨thread, _, (Function.update_eq_self ..).symm, .keeps rfl (fun _ _ h => h) ?_⟩
          intro handle h
          rw [Label.handle?_error] at h
          cases h
      | @start _ _ pc _ hstart =>
          have hpc : (some pc).bind Pc.handle? = none := Pc.handle?_of_start hstart
          exact ⟨thread, _, rfl, .keeps rfl (fun _ _ => Thread.held?_mono hpc) nofun⟩
  | endCallback thread =>
      have htakes : before.Takes ⟨.endCallback thread, returned⟩ after := hstep.takes
      cases htakes with
      | @endCallback _ diff hthread =>
          refine ⟨thread, ⟨none, none⟩, rfl, .keeps rfl ?_ ?_⟩
          · intro slot handle h
            cases slot <;> cases h
          · rintro handle ⟨⟩
            exact ⟨.callback, by simp [Thread.held?, hthread], rfl⟩
  | advance thread =>
      have hstep : before.Step ⟨.advance thread, returned⟩ after := hstep
      obtain ⟨pc, hpc⟩ := hstep.pc
      obtain ⟨error, -, rfl, rfl⟩ | ⟨q, progress, hexec, rfl, rfl⟩ := hstep.exec hpc
      · refine ⟨thread, _, rfl, .keeps rfl (fun _ _ => Thread.held?_mono rfl) ?_⟩
        intro handle h
        rw [Label.handle?_error] at h
        cases h
      · refine ⟨thread, _, ?_, Transition.atHandles_of_exec hpc hexec⟩
        change Function.update q.threads _ _ = _
        rw [(Process.exec_executes hexec).threads]

/-! ## the ledger -/

/-- What is known of the handles taken so far. -/
structure Issued (trs : List Transition) (p : Process) : Prop where
  nodup : (returned trs).Nodup
  bounds : ∀ ⦃handle⦄, handle ∈ returned trs → 0 < handle.toNat ∧ handle.toNat ≤ allocations trs
  held_bounds : ∀ ⦃thread slot handle⦄, (p.threads thread).held? slot = some handle →
    0 < handle.toNat ∧ handle.toNat ≤ allocations trs
  held_new : ∀ ⦃thread slot handle⦄, (p.threads thread).held? slot = some handle →
    handle ∉ returned trs
  held_inj : ∀ ⦃thread slot thread' slot' handle⦄, (p.threads thread).held? slot = some handle →
    (p.threads thread').held? slot' = some handle → thread = thread' ∧ slot = slot'

omit [Sha256] in
theorem mem_returned_concat_iff {handle : UInt64} :
    handle ∈ returned (trs ++ [tr]) ↔
      handle ∈ returned trs ∨ tr.label.handle? = some handle := by
  simp [returned_concat]

omit [Sha256] in
theorem nodup_returned_concat (h : (returned trs).Nodup)
    (hnew : ∀ handle, tr.label.handle? = some handle → handle ∉ returned trs) :
    (returned (trs ++ [tr])).Nodup := by
  rw [returned_concat, List.nodup_append]
  refine ⟨h, by cases tr.label.handle? <;> simp, fun handle hhandle other hother => ?_⟩
  rintro rfl
  exact hnew handle (Option.mem_toList.mp hother) hhandle

omit [Sha256] in
/-- What a thread holds, after one of them has moved. -/
theorem held_of_update {state : Thread} {other : ThreadId} {slot : Slot} {handle : UInt64}
    (hthreads : p'.threads = Function.update p.threads thread state)
    (hheld : (p'.threads other).held? slot = some handle) :
    (other = thread ∧ state.held? slot = some handle) ∨
      (other ≠ thread ∧ (p.threads other).held? slot = some handle) := by
  rw [hthreads] at hheld
  by_cases hother : other = thread
  · subst hother
    rw [Function.update_self] at hheld
    exact .inl ⟨rfl, hheld⟩
  · rw [Function.update_of_ne hother] at hheld
    exact .inr ⟨hother, hheld⟩

omit [Sha256] in
/-- Nothing new is held, and nothing returned but what was held. -/
theorem Issued.keeps {state : Thread} (h : Issued trs p)
    (hthreads : p'.threads = Function.update p.threads thread state)
    (hallocates : allocations (trs ++ [tr]) = allocations trs)
    (hheld : ∀ slot handle, state.held? slot = some handle →
      (p.threads thread).held? slot = some handle)
    (hreturned : ∀ handle, tr.label.handle? = some handle →
      ∃ slot, (p.threads thread).held? slot = some handle ∧ state.held? slot = none) :
    Issued (trs ++ [tr]) p' := by
  have hold : ∀ {other slot handle}, (p'.threads other).held? slot = some handle →
      (p.threads other).held? slot = some handle := by
    intro other slot handle hnow
    obtain ⟨rfl, hnow⟩ | ⟨-, hnow⟩ := held_of_update hthreads hnow
    · exact hheld slot handle hnow
    · exact hnow
  refine ⟨nodup_returned_concat h.nodup fun handle hhandle => ?_, ?_, ?_, ?_,
    fun thread slot thread' slot' handle h₁ h₂ => h.held_inj (hold h₁) (hold h₂)⟩
  · obtain ⟨slot, hslot, -⟩ := hreturned handle hhandle
    exact h.held_new hslot
  · intro handle hhandle
    rw [hallocates]
    obtain hhandle | hhandle := mem_returned_concat_iff.mp hhandle
    · exact h.bounds hhandle
    · obtain ⟨slot, hslot, -⟩ := hreturned handle hhandle
      exact h.held_bounds hslot
  · intro other slot handle hnow
    rw [hallocates]
    exact h.held_bounds (hold hnow)
  · intro other slot handle hnow hhandle
    obtain hhandle | hhandle := mem_returned_concat_iff.mp hhandle
    · exact h.held_new (hold hnow) hhandle
    · -- the slot that the handle was in is empty now
      obtain ⟨slot', hslot', hempty⟩ := hreturned handle hhandle
      obtain ⟨rfl, rfl⟩ := h.held_inj (hold hnow) hslot'
      rw [hthreads, Function.update_self, hempty] at hnow
      cases hnow

omit [Sha256] in
/-- A held diff is held for its callback. -/
theorem Issued.enters {handle : UInt64} (h : Issued trs p)
    (hthreads : p'.threads = Function.update p.threads thread ⟨some handle, none⟩)
    (hallocates : allocations (trs ++ [tr]) = allocations trs)
    (hheld : (p.threads thread).held? .pc = some handle) (hreturned : tr.label.handle? = none) :
    Issued (trs ++ [tr]) p' := by
  have hsame : returned (trs ++ [tr]) = returned trs := by
    rw [returned_concat, hreturned, Option.toList_none, List.append_nil]
  -- what a slot holds now it held before, or the other slot of the thread did
  have hold : ∀ {other slot found}, (p'.threads other).held? slot = some found →
      (other = thread ∧ slot = .callback ∧ found = handle) ∨
        (other ≠ thread ∧ (p.threads other).held? slot = some found) := by
    intro other slot found hnow
    obtain ⟨rfl, hnow⟩ | hnow := held_of_update hthreads hnow
    · cases slot <;> cases hnow
      exact .inl ⟨rfl, rfl, rfl⟩
    · exact .inr hnow
  refine ⟨hsame ▸ h.nodup, ?_, ?_, ?_, ?_⟩
  · rw [hsame, hallocates]
    exact h.bounds
  · intro other slot found hnow
    rw [hallocates]
    obtain ⟨rfl, rfl, rfl⟩ | ⟨-, hbefore⟩ := hold hnow
    · exact h.held_bounds hheld
    · exact h.held_bounds hbefore
  · intro other slot found hnow
    rw [hsame]
    obtain ⟨rfl, rfl, rfl⟩ | ⟨-, hbefore⟩ := hold hnow
    · exact h.held_new hheld
    · exact h.held_new hbefore
  · intro other slot other' slot' found h₁ h₂
    obtain ⟨rfl, rfl, rfl⟩ | ⟨hne, h₁⟩ := hold h₁
    · obtain ⟨rfl, rfl, -⟩ | ⟨hne, h₂⟩ := hold h₂
      · exact ⟨rfl, rfl⟩
      · exact absurd (h.held_inj hheld h₂).1.symm hne
    · obtain ⟨rfl, rfl, rfl⟩ | ⟨-, h₂⟩ := hold h₂
      · exact absurd (h.held_inj hheld h₁).1.symm hne
      · exact h.held_inj h₁ h₂

omit [Sha256] in
/-- A fresh handle is held, or returned. -/
theorem Issued.fresh {state : Thread} {handle : UInt64} (h : Issued trs p)
    (hthreads : p'.threads = Function.update p.threads thread state)
    (hallocates : allocations (trs ++ [tr]) = allocations trs + 1)
    (hhandle : handle.toNat = allocations trs + 1)
    (hheld : ∀ slot found, state.held? slot = some found →
      (tr.label.handle? = none ∧ slot = .pc ∧ found = handle) ∨
        (p.threads thread).held? slot = some found)
    (hreturned : ∀ found, tr.label.handle? = some found → found = handle) :
    Issued (trs ++ [tr]) p' := by
  have hnew : handle ∉ returned trs := fun hmem => by
    have := (h.bounds hmem).2
    omega
  have hunheld : ∀ {other slot}, (p.threads other).held? slot ≠ some handle := fun hheld => by
    have := (h.held_bounds hheld).2
    omega
  have hold : ∀ {other slot found}, (p'.threads other).held? slot = some found →
      (tr.label.handle? = none ∧ other = thread ∧ slot = .pc ∧ found = handle) ∨
        (p.threads other).held? slot = some found := by
    intro other slot found hnow
    obtain ⟨rfl, hnow⟩ | ⟨-, hnow⟩ := held_of_update hthreads hnow
    · obtain ⟨hnone, hslot, hfound⟩ | hbefore := hheld slot found hnow
      · exact .inl ⟨hnone, rfl, hslot, hfound⟩
      · exact .inr hbefore
    · exact .inr hnow
  refine ⟨nodup_returned_concat h.nodup fun found hfound => ?_, ?_, ?_, ?_, ?_⟩
  · obtain rfl := hreturned found hfound
    exact hnew
  · intro found hfound
    rw [hallocates]
    obtain hfound | hfound := mem_returned_concat_iff.mp hfound
    · have := h.bounds hfound
      omega
    · obtain rfl := hreturned found hfound
      omega
  · intro other slot found hnow
    rw [hallocates]
    obtain ⟨-, -, -, rfl⟩ | hbefore := hold hnow
    · omega
    · have := h.held_bounds hbefore
      omega
  · intro other slot found hnow hfound
    obtain ⟨hnone, -, -, rfl⟩ | hbefore := hold hnow
    · obtain hfound | hfound := mem_returned_concat_iff.mp hfound
      · exact hnew hfound
      · rw [hnone] at hfound
        cases hfound
    · obtain hfound | hfound := mem_returned_concat_iff.mp hfound
      · exact h.held_new hbefore hfound
      · obtain rfl := hreturned found hfound
        exact hunheld hbefore
  · intro other slot other' slot' found h₁ h₂
    obtain ⟨-, rfl, rfl, rfl⟩ | h₁ := hold h₁
    · obtain ⟨-, rfl, rfl, -⟩ | h₂ := hold h₂
      · exact ⟨rfl, rfl⟩
      · exact absurd h₂ hunheld
    · obtain ⟨-, -, -, rfl⟩ | h₂ := hold h₂
      · exact absurd h₁ hunheld
      · exact h.held_inj h₁ h₂

/-- **No handle is held or returned twice**, as long as the counter has not
wrapped around. -/
theorem Recorded.issued (hrun : Recorded trs p) (hfew : allocations trs < 2 ^ 64 - 1) :
    Issued trs p := by
  refine hrun.invariant_of_few hfew ?_ ?_
  · refine ⟨List.nodup_nil, nofun, ?_, ?_, ?_⟩
    · intro thread slot handle h
      cases slot <;> cases h
    · intro thread slot handle h
      cases slot <;> cases h
    · intro thread slot thread' slot' handle h
      cases slot <;> cases h
  intro trs p tr p' hrun hfew _ ih hjoins
  have hfresh := hrun.toNat_freshHandle hfew
  obtain ⟨thread, state, hthreads, hhandles⟩ := hjoins.atHandles
  obtain ⟨rfl, rfl, -⟩ := hjoins
  have hsame : tr.after.nextHandle = tr.before.nextHandle →
      allocations (trs ++ [tr]) = allocations trs := by
    intro hnext
    simp [allocations, Transition.allocates, hnext]
  have hone : tr.after.nextHandle = tr.before.nextHandle + 1 →
      allocations (trs ++ [tr]) = allocations trs + 1 := by
    intro hnext
    simp [allocations, Transition.allocates, hnext]
  cases hhandles with
  | keeps hnext hheld hreturned => exact ih.keeps hthreads (hsame hnext) hheld hreturned
  | enters hnext hheld hstate hreturned =>
      subst hstate
      exact ih.enters hthreads (hsame hnext) hheld hreturned
  | takes hnext hheld hreturned =>
      refine ih.fresh hthreads (hone hnext) hfresh (fun slot found h => ?_) fun found h => ?_
      · exact (hheld slot found h).imp_left fun h => ⟨hreturned, h⟩
      · rw [hreturned] at h
        cases h
  | gives hnext hheld hreturned =>
      refine ih.fresh hthreads (hone hnext) hfresh (fun slot found h => .inr (hheld slot found h))
        fun found h => ?_
      exact Option.some.inj (h.symm.trans hreturned)

/-- A handle in the registry was returned. -/
theorem Recorded.mem_returned_of_bound (hrun : Recorded trs p) {handle : UInt64} {entry : Nat}
    (hbound : p.cores[handle]? = some entry) : handle ∈ returned trs := by
  refine hrun.invariant (I := fun trs p => ∀ handle entry, p.cores[handle]? = some entry →
    handle ∈ returned trs) ?_ ?_ handle entry hbound
  · simp [Process.initial]
  intro trs p tr p' _ ih hjoins handle entry hbound
  have hregistry := hjoins.atRegistry
  obtain ⟨rfl, rfl, hstep⟩ := hjoins
  rw [returned_concat, List.mem_append]
  cases hregistry with
  | keeps hcores _ => exact .inl (ih handle entry (hcores ▸ hbound))
  | destroys _ _ _ _ _ _ hcores _ =>
      rw [hcores] at hbound
      exact .inl (ih handle entry (Table.getElem?_erase_eq_some_iff.mp hbound).2)
  | @creates thread handle' epoch haction hpc hcores _ =>
      rw [hcores] at hbound
      obtain ⟨rfl, -⟩ | ⟨-, hbound⟩ := Table.getElem?_insert_eq_some_iff.mp hbound
      · right
        obtain ⟨before, ⟨action, returned⟩, after⟩ := tr
        obtain rfl : action = .advance thread := haction
        have hstep : before.Step ⟨.advance thread, returned⟩ after := hstep
        obtain ⟨error, hexec, -⟩ | ⟨q, progress, hexec, hreturned, -⟩ := hstep.exec hpc
        · cases hexec
        · cases hexec
          subst hreturned
          simp [Label.handle?, Progress.returned]
      · exact .inl (ih handle entry hbound)

end Issued

end StitchEditor.Abi
