import Mathlib
import StitchEditor.Lib.Room
import StitchEditor.Abi.Handles
import StitchEditor.Abi.Library

/-!
# StitchEditor.Abi.Ownership

The calls of the thread that owns the cores as atomic calls.

A call takes up to five sections, and between two of them other threads may
take handles and move leases.  The thread sees calls that are answered at
once, by its own tables (`ownerService_atomic`), as long as the counter of
handles does not run over (`owner_refines`).
-/

namespace StitchEditor.Abi

open StitchEditor Client Fallible Run

/-! ## the owner's own calls -/

/-- The first section of a call outside a callback. -/
inductive OwnerCall.Enters : OwnerCall → Pc → Prop where
  | create {epoch : UInt64} : Enters (.create epoch) (.allocateCore epoch)
  | destroy {core : UInt64} : Enters (.destroy core) (.destroy core)
  | setEpoch {core epoch : UInt64} : Enters (.setEpoch core epoch) (.lookup core (.setEpoch epoch))
  | snapshot {core : UInt64} : Enters (.snapshot core) (.lookup core .snapshot)
  | submit {core : UInt64} {batch : StitchCommandBatch} :
      Enters (.submit core batch) (.lookup core (.submit batch true))
  | snapshotMetadataGet {handle : UInt64} :
      Enters (.snapshotMetadataGet handle) (.snapshotMetadataGet handle true)
  | snapshotRelease {handle : UInt64} : Enters (.snapshotRelease handle) (.snapshotRelease handle)
  | diffMetadataGet {handle : UInt64} :
      Enters (.diffMetadataGet handle) (.diffMetadataGet handle true)
  | diffRelease {handle : UInt64} : Enters (.diffRelease handle) (.diffRelease handle)

/-- What the call does under the lock of the core. -/
inductive OwnerCall.Locks : OwnerCall → UInt64 → Access → Prop where
  | setEpoch {core epoch : UInt64} : Locks (.setEpoch core epoch) core (.setEpoch epoch)
  | snapshot {core : UInt64} : Locks (.snapshot core) core .snapshot
  | submit {core : UInt64} {batch : StitchCommandBatch} :
      Locks (.submit core batch) core (.submit batch true)

section Calls

variable [Sha256] {p q : Process} {thread : ThreadId} {pc : Option Pc} {lib lib' : Library}
  {call : OwnerCall}

/-- The thread is within the call: before it has done anything, with a handle
for what it makes, or with its batch accepted. -/
inductive Process.WithinOwner (thread : ThreadId) :
    OwnerCall → Process → Library → Prop where
  | enters {call : OwnerCall} {pc : Pc} {p : Process} {lib : Library} (hpc : call.Enters pc)
      (h : p.Owns thread (some pc) lib) : WithinOwner thread call p lib
  | locks {call : OwnerCall} {core : UInt64} {access : Access} {entry : Nat} {p : Process}
      {lib : Library} (haccess : call.Locks core access) (hbound : p.cores[core]? = some entry)
      (h : p.Owns thread (some (.locked entry access)) lib) : WithinOwner thread call p lib
  | creates {epoch handle : UInt64} {p : Process} {lib : Library} (hhandle : handle ≠ 0)
      (hunused : lib.Unused handle) (hlt : handle < p.nextHandle)
      (h : p.Owns thread (some (.insertCore handle epoch)) lib) :
      WithinOwner thread (.create epoch) p lib
  | accepted {core : UInt64} {batch : StitchCommandBatch} {found next : CoreState}
      {metadata : StitchDiffMetadata} {p : Process} {lib : Library}
      (hfound : lib.cores[core]? = some found)
      (hsubmit : found.submit thread batch = .ok (next, metadata))
      (h : p.Owns thread (some (.allocateDiff metadata true))
        { lib with cores := lib.cores.insert core next }) :
      WithinOwner thread (.submit core batch) p lib
  | announces {core diff : UInt64} {batch : StitchCommandBatch} {found next : CoreState}
      {metadata : StitchDiffMetadata} {p : Process} {lib : Library}
      (hfound : lib.cores[core]? = some found)
      (hsubmit : found.submit thread batch = .ok (next, metadata)) (hdiff : diff ≠ 0)
      (hunused : lib.Unused diff) (hlt : diff < p.nextHandle)
      (h : p.Owns thread (some (.insertDiff diff metadata true))
        { lib with cores := lib.cores.insert core next }) :
      WithinOwner thread (.submit core batch) p lib

/-- The thread is between two calls. -/
def Process.BetweenOwner (thread : ThreadId) (p : Process) (lib : Library) : Prop :=
  p.Owns thread none lib

/-- What a step of the call comes to. -/
abbrev OwnerCall.Answers (thread : ThreadId) :
    OwnerCall → Library → Process × Option OwnerReply → Prop :=
  Client.Answers (OwnerCall.Served thread) (Process.BetweenOwner thread)
    (Process.WithinOwner thread)

omit [Sha256] in
/-- The owner has moved on. -/
theorem Process.Owns.goes (h : p.Owns thread pc lib) (hshows : q.Shows thread lib')
    (hthreads : q.threads = p.threads) {next : Option Pc} :
    (q.setThread thread ⟨lib'.callback, next⟩).Owns thread next lib' where
  stands := Function.update_self ..
  others other pc' hne hpc' := by
    simp only [Process.setThread, hthreads, Function.update_of_ne hne] at hpc'
    exact h.others hne hpc'
  shows := { hshows with }

/-- A call that fails changes nothing. -/
theorem Process.Owns.fails (h : p.Owns thread pc lib) {error : StitchResult} (herror : error ≠ .ok)
    (hsucceeds : ¬ call.Succeeds thread lib) : call.Answers thread lib
      (p.setThread thread ⟨lib.callback, none⟩, some (.returned error .none)) :=
  ⟨lib, .fails herror hsucceeds, h.goes h.shows rfl⟩

/-- The library as the owner uses it, while other threads move leases. -/
def ownerService (thread : ThreadId) : Service Process OwnerCall OwnerReply Action where
  begins p call := (p.step (call.action thread)).map (Process.reply thread)
  advances p := (p.step (.advance thread)).map (Process.reply thread)
  interferes p action := if action.leases thread then (p.step action).map Prod.fst else none

omit [Sha256] in
theorem Process.reply_of_pending {callback : Option UInt64} {next : Pc}
    (h : p.threads thread = ⟨callback, some next⟩) :
    Process.reply thread (p, none) = (p, none) := by
  simp only [Process.reply, h]

/-! ### one step of a call -/

theorem Process.Owns.advances_of_error {next : Pc} (h : p.Owns thread (some next) lib)
    {error : StitchResult} (hexec : p.exec thread next = .error error) :
    (ownerService thread).advances p =
      some (p.setThread thread ⟨lib.callback, none⟩, some (.returned error .none)) := by
  simp only [ownerService, Process.step, h.stands, hexec, Option.map_some, Process.reply]

theorem Process.Owns.advances_of_finished {next : Pc} (h : p.Owns thread (some next) lib)
    {result : StitchResult} {output : Output}
    (hexec : p.exec thread next = .ok (q, .finished result output)) :
    (ownerService thread).advances p =
      some (q.setThread thread ⟨lib.callback, none⟩, some (.returned result output)) := by
  simp only [ownerService, Process.step, h.stands, hexec, Option.map_some, Process.reply]

theorem Process.Owns.advances_of_continues {next next' : Pc} (h : p.Owns thread (some next) lib)
    (hexec : p.exec thread next = .ok (q, .continues next')) :
    (ownerService thread).advances p =
      some (q.setThread thread ⟨lib.callback, some next'⟩, none) := by
  simp only [ownerService, Process.step, h.stands, hexec, Option.map_some]
  rw [reply_of_pending (Function.update_self ..)]

theorem Process.Owns.advances_of_callback {next : Pc} (h : p.Owns thread (some next) lib)
    {diff : UInt64} (hexec : p.exec thread next = .ok (q, .callback diff)) :
    (ownerService thread).advances p =
      some (q.setThread thread ⟨some diff, none⟩, some (.callback thread diff)) := by
  simp only [ownerService, Process.step, h.stands, hexec, Option.map_some, Process.reply,
    Process.setThread, Function.update_self]

variable {answer : Process × Option OwnerReply}

/-- A call that begins fails on its arguments or goes to its first section. -/
theorem Process.Owns.begins_of (h : p.Owns thread none lib) {c : Call}
    (haction : call.action thread = .begin thread c)
    (herror : ∀ error, c.start lib.callback.isSome = .error error →
      error ≠ .ok ∧ ¬ call.Succeeds thread lib)
    (hpc : ∀ pc, c.start lib.callback.isSome = .ok pc → call.Enters pc)
    (hbegins : (ownerService thread).begins p call = some answer) :
    call.Answers thread lib answer := by
  simp only [ownerService, haction, Process.step, h.stands] at hbegins
  cases hstart : c.start lib.callback.isSome with
  | error error =>
      rw [hstart] at hbegins
      cases hbegins
      obtain ⟨herror, hsucceeds⟩ := herror error hstart
      exact ⟨lib, .fails herror hsucceeds, h⟩
  | ok pc =>
      rw [hstart] at hbegins
      have hpending : (p.setThread thread ⟨lib.callback, some pc⟩).threads thread =
          ⟨lib.callback, some pc⟩ := Function.update_self ..
      rw [Option.map_some, reply_of_pending hpending] at hbegins
      cases hbegins
      exact Process.WithinOwner.enters (hpc pc hstart) (h.goes h.shows rfl)

omit [Sha256] in
/-- A call is refused for a callback within one only. -/
theorem refuse_callback {callback : Option UInt64} {next : Pc} {error : StitchResult}
    (h : (do refuse callback.isSome .reentrantMutation; pure next : Except StitchResult Pc) =
      .error error) : error ≠ .ok ∧ callback ≠ none := by
  cases callback with
  | none => cases h
  | some diff =>
      cases h
      exact ⟨by decide, nofun⟩

omit [Sha256] in
theorem refuse_submit {callback : Option UInt64} {core : UInt64} {batch : StitchCommandBatch}
    {error : StitchResult}
    (h : (Call.coreSubmit core (some batch) true true).start callback.isSome = .error error) :
    error ≠ .ok ∧ ¬ (callback = none ∧ checkBatch batch = .ok ()) := by
  cases callback with
  | none =>
      refine ⟨(Call.raises_start _ _ h).1, ?_⟩
      rintro ⟨-, hcheck⟩
      have hstart : (Call.coreSubmit core (some batch) true true).start false =
          checkBatch batch >>= fun _ => .ok (.lookup core (.submit batch true)) := rfl
      rw [Option.isSome_none, hstart, hcheck] at h
      cases h
  | some diff =>
      cases h
      exact ⟨by decide, nofun⟩

theorem Process.Owns.begins (h : p.Owns thread none lib)
    (hbegins : (ownerService thread).begins p call = some answer) :
    call.Answers thread lib answer := by
  cases call with
  | create epoch =>
      refine h.begins_of rfl (fun error hstart => ?_) (fun pc hstart => ?_) hbegins
      · cases hstart
      · cases hstart
        exact .create
  | destroy core =>
      refine h.begins_of rfl (fun error hstart => ?_) (fun pc hstart => ?_) hbegins
      · obtain ⟨herror, hcallback⟩ := refuse_callback hstart
        exact ⟨herror, fun hsucceeds => hcallback hsucceeds.1⟩
      · simp only [Call.start, bind_eq_ok_iff, pure_eq_ok_iff] at hstart
        obtain ⟨_, -, rfl⟩ := hstart
        exact .destroy
  | setEpoch core epoch =>
      refine h.begins_of rfl (fun error hstart => ?_) (fun pc hstart => ?_) hbegins
      · obtain ⟨herror, hcallback⟩ := refuse_callback hstart
        exact ⟨herror, fun hsucceeds => hcallback hsucceeds.1⟩
      · simp only [Call.start, bind_eq_ok_iff, pure_eq_ok_iff] at hstart
        obtain ⟨_, -, rfl⟩ := hstart
        exact .setEpoch
  | submit core batch =>
      refine h.begins_of rfl (fun error hstart => ?_) (fun pc hstart => ?_) hbegins
      · obtain ⟨herror, hrefused⟩ := refuse_submit hstart
        exact ⟨herror, fun hsucceeds => hrefused ⟨hsucceeds.1, hsucceeds.2.1⟩⟩
      · simp only [Call.start, input, bind_eq_ok_iff, pure_eq_ok_iff, Except.ok.injEq] at hstart
        obtain ⟨_, -, _, -, _, rfl, _, -, rfl⟩ := hstart
        exact .submit
  | snapshot core =>
      refine h.begins_of rfl (fun error hstart => ?_) (fun pc hstart => ?_) hbegins
      · cases hstart
      · cases hstart
        exact .snapshot
  | snapshotMetadataGet handle =>
      refine h.begins_of rfl (fun error hstart => ?_) (fun pc hstart => ?_) hbegins
      · cases hstart
      · cases hstart
        exact .snapshotMetadataGet
  | snapshotRelease handle =>
      refine h.begins_of rfl (fun error hstart => ?_) (fun pc hstart => ?_) hbegins
      · cases hstart
      · cases hstart
        exact .snapshotRelease
  | diffMetadataGet handle =>
      refine h.begins_of rfl (fun error hstart => ?_) (fun pc hstart => ?_) hbegins
      · cases hstart
      · cases hstart
        exact .diffMetadataGet
  | diffRelease handle =>
      refine h.begins_of rfl (fun error hstart => ?_) (fun pc hstart => ?_) hbegins
      · cases hstart
      · cases hstart
        exact .diffRelease
  | endCallback =>
      simp only [ownerService, OwnerCall.action, Process.step, h.stands] at hbegins
      cases hcallback : lib.callback with
      | none =>
          rw [hcallback] at hbegins
          cases hbegins
      | some diff =>
          rw [hcallback] at hbegins
          cases hbegins
          exact ⟨_, .ends hcallback, h.goes (h.shows.setCallback none) rfl⟩

omit [Sha256] in
theorem metadataGet_of_mem {α : Type} {entries : OrdMap UInt64 (RefHandle α)} {handle : UInt64}
    (h : handle ∈ entries) : ∃ metadata, metadataGet entries handle true = .ok metadata := by
  obtain ⟨entry, hentry⟩ := Table.mem_iff_exists.mp h
  refine ⟨entry.value, ?_⟩
  rw [metadataGet, hentry]
  rfl

omit [Sha256] in
theorem release_of_mem {α : Type} {entries : OrdMap UInt64 (RefHandle α)} {handle : UInt64}
    (h : handle ∈ entries) : ∃ entries', release entries handle = .ok entries' := by
  obtain ⟨entry, hentry⟩ := Table.mem_iff_exists.mp h
  rw [release, hentry]
  dsimp only
  split
  · exact ⟨_, rfl⟩
  · exact ⟨_, rfl⟩

/-- A section that ends the call with its result. -/
theorem Process.Owns.ends_of {α : Type} {next : Pc} (h : p.Owns thread (some next) lib)
    {x : Except StitchResult α} {after : α → Process} {output : α → Output} {lib' : α → Library}
    (hexec : p.exec thread next = x >>= fun a => pure (after a, .finished .ok (output a)))
    (hsucceeds : call.Succeeds thread lib → ∃ a, x = .ok a)
    (hserved : ∀ a, x = .ok a →
      OwnerCall.Served thread lib call (.returned .ok (output a)) (lib' a))
    (hshows : ∀ a, x = .ok a → (after a).Shows thread (lib' a))
    (hsame : ∀ a, (after a).threads = p.threads ∧ (lib' a).callback = lib.callback)
    (hadvances : (ownerService thread).advances p = some answer) :
    call.Answers thread lib answer := by
  cases x with
  | error error =>
      rw [h.advances_of_error hexec] at hadvances
      cases hadvances
      refine h.fails (p.raises_exec thread _ _ hexec).1 fun hcall => ?_
      obtain ⟨a, ha⟩ := hsucceeds hcall
      cases ha
  | ok a =>
      rw [h.advances_of_finished hexec] at hadvances
      cases hadvances
      have howns : ((after a).setThread thread ⟨(lib' a).callback, none⟩).Owns thread none
          (lib' a) :=
        h.goes (hshows a rfl) (hsame a).1
      rw [(hsame a).2] at howns
      exact ⟨_, hserved a rfl, howns⟩

/-- The section of a destruction. -/
theorem Process.Owns.destroys {core : UInt64} (h : p.Owns thread (some (.destroy core)) lib)
    (hadvances : (ownerService thread).advances p = some answer) :
    (OwnerCall.destroy core).Answers thread lib answer := by
  by_cases hmem : core ∈ lib.cores
  · obtain ⟨found, hfound⟩ := Table.mem_iff_exists.mp hmem
    obtain ⟨entry, state, hbound, hstate, rfl⟩ := h.shows.exists_core hfound
    have howner : state.bare.owner = thread := h.shows.owner hfound
    change state.owner = thread at howner
    by_cases hleases : state.leases = ∅
    · have hexec : p.exec thread (.destroy core) =
          .ok ({ p with cores := p.cores.erase core }, .finished .ok .none) := by
        simp [Process.exec, Process.destroy, hbound, hstate, howner, hleases, refuse]
        rfl
      rw [h.advances_of_finished hexec] at hadvances
      cases hadvances
      exact ⟨_, .destroys, h.goes (h.shows.eraseCore core) rfl⟩
    · have hexec : p.exec thread (.destroy core) = .error .badLeaseState := by
        simp [Process.exec, Process.destroy, hbound, hstate, howner, hleases, refuse]
        rfl
      rw [h.advances_of_error hexec] at hadvances
      cases hadvances
      exact ⟨_, .keeps, h.goes h.shows rfl⟩
  · have hexec : p.exec thread (.destroy core) = .error .unknownHandle := by
      simp only [Process.exec, Process.destroy, h.shows.cores_eq_none hmem]
      rfl
    rw [h.advances_of_error hexec] at hadvances
    cases hadvances
    exact h.fails (by decide) fun hsucceeds => hmem hsucceeds.2

/-- The section that finds the core. -/
theorem Process.Owns.looksUp {core : UInt64} {access : Access} (haccess : call.Locks core access)
    (h : p.Owns thread (some (.lookup core access)) lib)
    (hadvances : (ownerService thread).advances p = some answer) :
    call.Answers thread lib answer := by
  cases hbound : p.cores[core]? with
  | none =>
      have hexec : p.exec thread (.lookup core access) = .error .unknownHandle := by
        simp only [Process.exec, hbound]
      have hnone : ∀ found, lib.cores[core]? ≠ some found := by
        intro found hfound
        obtain ⟨entry, state, hsome, -⟩ := h.shows.exists_core hfound
        rw [hbound] at hsome
        cases hsome
      rw [h.advances_of_error hexec] at hadvances
      cases hadvances
      refine h.fails (by decide) ?_
      cases haccess with
      | setEpoch =>
          rintro ⟨-, found, -, hfound, -⟩
          exact hnone found hfound
      | snapshot =>
          intro hmem
          obtain ⟨found, hfound⟩ := Table.mem_iff_exists.mp hmem
          exact hnone found hfound
      | submit =>
          rintro ⟨-, -, found, -, hfound, -⟩
          exact hnone found hfound
  | some entry =>
      have hexec : p.exec thread (.lookup core access) =
          .ok (p, .continues (.locked entry access)) := by
        simp only [Process.exec, hbound]
        rfl
      rw [h.advances_of_continues hexec] at hadvances
      cases hadvances
      exact Process.WithinOwner.locks haccess hbound (h.goes h.shows rfl)

/-- The section that holds the core. -/
theorem Process.Owns.locks {core : UInt64} {access : Access} {entry : Nat} (hroom : p.Room)
    (haccess : call.Locks core access) (hbound : p.cores[core]? = some entry)
    (h : p.Owns thread (some (.locked entry access)) lib)
    (hadvances : (ownerService thread).advances p = some answer) :
    call.Answers thread lib answer := by
  obtain ⟨state, hstate⟩ : ∃ state, p.heap[entry]? = some state :=
    ⟨_, List.getElem?_eq_getElem (h.shows.placed hbound)⟩
  have hfound := h.shows.core_eq hbound hstate
  cases haccess with
  | @setEpoch _ epoch =>
      have hexec : p.exec thread (.locked entry (.setEpoch epoch)) =
          state.setEpoch thread epoch >>= fun next =>
            pure (p.setCore entry next, .finished .ok .none) := by
        simp only [Process.exec, hstate, Process.access]
      refine h.ends_of hexec ?_
        (fun _ hset => .setsEpoch hfound (CoreState.setEpoch_bare hset)) (fun next hset => ?_)
        (fun _ => ⟨rfl, rfl⟩) hadvances
      · rintro ⟨-, found, next, hsome, hnext⟩
        obtain rfl := Option.some.inj (hfound.symm.trans hsome)
        exact CoreState.setEpoch_bare_iff.mp ⟨next, hnext⟩
      · obtain ⟨howner, -, rfl⟩ := CoreState.setEpoch_eq_ok_iff.mp hset
        exact h.shows.setCore hbound howner
  | snapshot =>
      obtain ⟨hunused, hlt⟩ := h.shows.fresh hroom
      have hexec : p.exec thread (.locked entry .snapshot) = .ok ({ p.bump with
          snapshots := lib.snapshots.insert p.freshHandle ⟨state.snapshotMetadata, 1⟩ },
          .finished .ok (.handle p.freshHandle)) := by
        simp only [Process.exec, hstate, Process.access, ← h.shows.snapshots]
        rfl
      rw [h.advances_of_finished hexec] at hadvances
      cases hadvances
      have hshows := (h.shows.bump hroom).setSnapshots
        (below_insert ⟨state.snapshotMetadata, 1⟩ hlt)
      exact ⟨_, .opens hfound p.freshHandle_ne_zero hunused, h.goes hshows rfl⟩
  | @submit _ batch =>
      cases hsubmit : state.submit thread batch with
      | error error =>
          have hexec : p.exec thread (.locked entry (.submit batch true)) = .error error := by
            simp only [Process.exec, hstate, Process.access, hsubmit]
            rfl
          rw [h.advances_of_error hexec] at hadvances
          cases hadvances
          refine h.fails (p.raises_exec thread _ _ hexec).1 ?_
          rintro ⟨-, -, found, next, hsome, hnext⟩
          obtain rfl := Option.some.inj (hfound.symm.trans hsome)
          obtain ⟨next', hnext'⟩ := CoreState.exists_submit hnext
          rw [hsubmit] at hnext'
          cases hnext'
      | ok ended =>
          obtain ⟨next, metadata⟩ := ended
          have hexec : p.exec thread (.locked entry (.submit batch true)) =
              .ok (p.setCore entry next, .continues (.allocateDiff metadata true)) := by
            simp only [Process.exec, hstate, Process.access, hsubmit]
            rfl
          have haccepts := CoreState.submit_eq_ok_iff.mp hsubmit
          have howner : next.owner = thread := by
            rw [haccepts.keeps]
            exact haccepts.owner
          have hshows : (p.setCore entry next).Shows thread _ := h.shows.setCore hbound howner
          rw [h.advances_of_continues hexec] at hadvances
          cases hadvances
          exact Process.WithinOwner.accepted hfound (CoreState.submit_bare hsubmit)
            (h.goes hshows rfl)

/-- The one section of a call on a table. -/
theorem Process.Owns.onTable {next : Pc} (hpc : call.Enters next) (htable : next.onTables)
    (h : p.Owns thread (some next) lib)
    (hadvances : (ownerService thread).advances p = some answer) :
    call.Answers thread lib answer := by
  cases hpc with
  | create | destroy | setEpoch | snapshot | submit => cases htable
  | @snapshotMetadataGet handle =>
      refine h.ends_of (x := metadataGet lib.snapshots handle true) ?_ metadataGet_of_mem
        (fun _ hget => .readsSnapshot hget) (fun _ _ => h.shows) (fun _ => ⟨rfl, rfl⟩) hadvances
      simp only [Process.exec, h.shows.snapshots]
  | @diffMetadataGet handle =>
      refine h.ends_of (x := metadataGet lib.diffs handle true) ?_ metadataGet_of_mem
        (fun _ hget => .readsDiff hget) (fun _ _ => h.shows) (fun _ => ⟨rfl, rfl⟩) hadvances
      simp only [Process.exec, h.shows.diffs]
  | @snapshotRelease handle =>
      refine h.ends_of (x := release lib.snapshots handle) ?_ release_of_mem
        (fun _ hrelease => .releasesSnapshot hrelease)
        (fun _ hrelease => h.shows.setSnapshots fun _ hmem => .inl (mem_of_release hrelease hmem))
        (fun _ => ⟨rfl, rfl⟩) hadvances
      simp only [Process.exec, h.shows.snapshots]
  | @diffRelease handle =>
      refine h.ends_of (x := release lib.diffs handle) ?_ release_of_mem
        (fun _ hrelease => .releasesDiff hrelease)
        (fun _ hrelease => h.shows.setDiffs fun _ hmem => .inl (mem_of_release hrelease hmem))
        (fun _ => ⟨rfl, rfl⟩) hadvances
      simp only [Process.exec, h.shows.diffs]

/-- **One step** of a call of the owner. -/
theorem Process.WithinOwner.advances (hroom : p.Room) (h : p.WithinOwner thread call lib)
    (hadvances : (ownerService thread).advances p = some answer) :
    call.Answers thread lib answer := by
  cases h with
  | enters hpc h =>
      cases hpc with
      | create =>
          obtain ⟨hunused, hlt⟩ := h.shows.fresh hroom
          rw [h.advances_of_continues rfl] at hadvances
          cases hadvances
          exact Process.WithinOwner.creates p.freshHandle_ne_zero hunused hlt
            (h.goes (h.shows.bump hroom) rfl)
      | destroy => exact h.destroys hadvances
      | setEpoch => exact h.looksUp .setEpoch hadvances
      | snapshot => exact h.looksUp .snapshot hadvances
      | submit => exact h.looksUp .submit hadvances
      | snapshotMetadataGet => exact h.onTable .snapshotMetadataGet rfl hadvances
      | snapshotRelease => exact h.onTable .snapshotRelease rfl hadvances
      | diffMetadataGet => exact h.onTable .diffMetadataGet rfl hadvances
      | diffRelease => exact h.onTable .diffRelease rfl hadvances
  | locks haccess hbound h => exact h.locks hroom haccess hbound hadvances
  | creates hhandle hunused hlt h =>
      rw [h.advances_of_finished rfl] at hadvances
      cases hadvances
      exact ⟨_, .creates hhandle hunused, h.goes (h.shows.insertCore hunused hlt _) rfl⟩
  | accepted hfound hsubmit h =>
      obtain ⟨hunused, hlt⟩ := h.shows.fresh hroom
      rw [h.advances_of_continues rfl] at hadvances
      cases hadvances
      exact Process.WithinOwner.announces hfound hsubmit p.freshHandle_ne_zero
        hunused.of_insertCore hlt (h.goes (h.shows.bump hroom) rfl)
  | @announces _ diff _ _ _ metadata _ _ hfound hsubmit hdiff hunused hlt h =>
      have hshows := h.shows.setDiffs (below_insert ⟨metadata, 1⟩ hlt)
      have hexec : p.exec thread (.insertDiff diff metadata true) = .ok ({ p with
          diffs := lib.diffs.insert diff ⟨metadata, 1⟩ }, .callback diff) := by
        simp only [Process.exec, h.shows.diffs]
        rfl
      rw [h.advances_of_callback hexec] at hadvances
      cases hadvances
      exact ⟨_, .submits hfound hsubmit hdiff hunused, h.goes (hshows.setCallback (some diff)) rfl⟩

/-! ## atomicity -/

theorem Process.Owns.interferes_eq (h : p.Owns thread pc lib) {action : Action}
    (hinterferes : ((ownerService thread).within Process.Room).interferes p action = some q) :
    q.Owns thread pc lib ∧ q.cores = p.cores ∧ p.nextHandle ≤ q.nextHandle := by
  obtain ⟨hroom, hinterferes⟩ := Option.ite_none_right_eq_some.mp hinterferes
  obtain ⟨hleases, hstep⟩ := Option.ite_none_right_eq_some.mp hinterferes
  obtain ⟨⟨q, returned⟩, hlabel, rfl⟩ := Option.map_eq_some_iff.mp hstep
  have hlabel : p.Step ⟨action, returned⟩ q := hlabel
  exact h.interferes hroom hleases hlabel

/-- **The owner's calls are atomic**, while there is room for another handle. -/
theorem ownerService_atomic (thread : ThreadId) :
    ((ownerService thread).within Process.Room).Atomic (OwnerCall.Served thread)
      (Process.BetweenOwner thread) (Process.WithinOwner thread) where
  begins {p lib call answer} h hbegins := by
    obtain ⟨-, hbegins⟩ := Option.ite_none_right_eq_some.mp hbegins
    exact Process.Owns.begins h hbegins
  advances {p lib call answer} h hadvances := by
    obtain ⟨hroom, hadvances⟩ := Option.ite_none_right_eq_some.mp hadvances
    exact h.advances hroom hadvances
  idle_interferes h hinterferes := (Process.Owns.interferes_eq h hinterferes).1
  within_interferes {p lib call action q} h hinterferes := by
    cases h with
    | enters hpc h => exact .enters hpc (h.interferes_eq hinterferes).1
    | locks haccess hbound h =>
        obtain ⟨howns, hcores, -⟩ := h.interferes_eq hinterferes
        exact .locks haccess (hcores ▸ hbound) howns
    | creates hhandle hunused hlt h =>
        obtain ⟨howns, -, hle⟩ := h.interferes_eq hinterferes
        exact .creates hhandle hunused (UInt64.lt_of_lt_of_le hlt hle) howns
    | accepted hfound hsubmit h =>
        exact .accepted hfound hsubmit (h.interferes_eq hinterferes).1
    | announces hfound hsubmit hdiff hunused hlt h =>
        obtain ⟨howns, -, hle⟩ := h.interferes_eq hinterferes
        exact .announces hfound hsubmit hdiff hunused (UInt64.lt_of_lt_of_le hlt hle) howns

theorem Process.nextHandle_of_step {action : Action} {returned : Option (StitchResult × Output)}
    (h : p.step action = some (q, returned)) :
    q.nextHandle = p.nextHandle ∨ q.nextHandle = p.nextHandle + 1 := by
  have hstep : p.Step ⟨action, returned⟩ q := h
  cases hstep.takes with
  | reject _ _ | start _ _ | fail _ _ | endCallback _ => exact .inl rfl
  | run _ hexecutes => exact hexecutes.nextHandle

omit [Sha256] in
theorem Process.toNat_nextHandle_le (h : q.nextHandle = p.nextHandle ∨
    q.nextHandle = p.nextHandle + 1) : q.nextHandle.toNat ≤ p.nextHandle.toNat + 1 := by
  obtain heq | heq := h
  · rw [heq]
    exact Nat.le_succ _
  · rw [heq, UInt64.toNat_add]
    exact Nat.mod_le _ _

omit [Sha256] in
theorem Process.reply_fst (ended : Process × Option (StitchResult × Output)) :
    (Process.reply thread ended).1 = ended.1 := by
  obtain ⟨q, none | ⟨result, output⟩⟩ := ended
  · simp only [Process.reply]
    split <;> rfl
  · rfl

/-- A step takes one handle at most. -/
theorem ownerService_counts (thread : ThreadId) :
    (ownerService thread).Counts fun p => p.nextHandle.toNat where
  begins {p call answer} hbegins := by
    obtain ⟨⟨q, returned⟩, hstep, rfl⟩ := Option.map_eq_some_iff.mp hbegins
    rw [Process.reply_fst]
    exact Process.toNat_nextHandle_le (Process.nextHandle_of_step hstep)
  advances {p answer} hadvances := by
    obtain ⟨⟨q, returned⟩, hstep, rfl⟩ := Option.map_eq_some_iff.mp hadvances
    rw [Process.reply_fst]
    exact Process.toNat_nextHandle_le (Process.nextHandle_of_step hstep)
  interferes {p action q} hinterferes := by
    obtain ⟨-, hinterferes⟩ := Option.ite_none_right_eq_some.mp hinterferes
    obtain ⟨⟨q, returned⟩, hstep, rfl⟩ := Option.map_eq_some_iff.mp hinterferes
    exact Process.toNat_nextHandle_le (Process.nextHandle_of_step hstep)

omit [Sha256] in
theorem Process.room_of_lt (h : p.nextHandle.toNat < 2 ^ 64 - 1) : p.Room := by
  change p.nextHandle.toNat < (p.nextHandle + 1).toNat
  have hone : (1 : UInt64).toNat = 1 := rfl
  rw [UInt64.toNat_add, hone]
  omega

end Calls

/-- **The owner's programs** end as if the library were its own, as long as the
counter of handles does not run over. -/
theorem owner_refines [Sha256] {Op α : Type} {program : Op → Program OwnerCall OwnerReply α}
    {thread : ThreadId} {p : Process} {lib : Library}
    {labels : List (Session.Label Op Action OwnerCall OwnerReply α)}
    {session : Session Process OwnerCall OwnerReply α} (howns : p.Owns thread none lib)
    (hrun : Runs (Session.Step (ownerService thread) program) ⟨p, none⟩ labels session)
    (hfew : p.nextHandle.toNat + labels.length < 2 ^ 64) :
    ∃ lib', Runs (Sequential (OwnerCall.Served thread) program) lib
        (labels.filterMap Session.Label.ended) lib' ∧
      session.Follows (OwnerCall.Served thread) (Process.BetweenOwner thread)
        (Process.WithinOwner thread) program lib' :=
  (ownerService_atomic thread).refines_of_few (ownerService_counts thread)
    (fun _ => Process.room_of_lt) howns hrun (by omega)

end StitchEditor.Abi
