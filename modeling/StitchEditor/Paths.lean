import Mathlib
import StitchEditor.Lib.Drive
import StitchEditor.Store.Client
import StitchEditor.Store.Retry
import StitchEditor.Abi.Sequential

/-!
# StitchEditor.Paths

The four ways in which a list of commands reaches a project: applied to a
history one by one, submitted to a core in batches, committed to a store,
and restored from that store.

They share the reducer and the hash chain but not the loop around them.
`edit_paths_agree` says that they accept the same lists and end with the same
project, digest and head, and that history and store stop at the same command.
-/

namespace StitchEditor

open Abi Drive Fallible Procedure Chain Std

section Paths

variable [Sha256]

/-! ## the paths -/

/-- What the paths are compared by. -/
structure View where
  project : Project
  semanticDigest : ProjectDigest
  head : Option RevisionHash
  deriving DecidableEq

def EditorHistory.view (self : EditorHistory) : View :=
  ⟨self.project, self.project.semanticDigest, self.currentHash⟩

def State.view (self : State) : View :=
  ⟨self.project, self.project.semanticDigest, self.head⟩

/-- The commands one by one through `EditorHistory::apply`. -/
def appliedView (commands : List Command) : Except (Nat × ModelError) View :=
  (drive EditorHistory.applied .default commands).map EditorHistory.view

/-- The batches one by one through `stitch_core_submit`. -/
def submittedView (p : Process) (thread : ThreadId) (handle : UInt64) (callback : Bool)
    (batches : List (List StitchCommand)) : Option View := do
  let p ← batches.foldlM (Process.submitBatch thread handle callback) p
  let core ← p.core? handle
  pure core.history.view

/-- A request that has to be granted. -/
def World.committed (self : World) (request : RequestId × Command) : Except StoreError World :=
  match requestCommit request.1 request.2 none .faultless self with
  | (.ok _, next) => .ok next
  | (.error error, _) => .error error

/-- The requests one by one through `ProjectStore::commit`. -/
def committedView (world : World) (requests : List (RequestId × Command)) :
    Except (Nat × StoreError) View :=
  (drive World.committed world requests).map fun world => world.state.view

/-- The same, and what `restore` finds when the store is opened again. -/
def restoredView (world : World) (requests : List (RequestId × Command)) : Option View :=
  match drive World.committed world requests with
  | .error _ => none
  | .ok world =>
      match openState world.state.databasePath world.state.connection .faultless with
      | .error _ => none
      | .ok state => some state.view

/-- Raw commands, batch by batch, and the commands that they decode to. -/
def Spelling (batches : List (List StitchCommand)) (cut : List (List Command)) : Prop :=
  List.Forall₂ (fun (raws : List StitchCommand) batch => raws.mapM command = .ok batch) batches cut

/-! ## history and store -/

/-- The history and the store hold the same commands, and the store has room
and no receipts for the requests to come. -/
structure InStep (requests : List (RequestId × Command)) (h : EditorHistory) (w : World) :
    Prop where
  distinct : (requests.map Prod.fst).Nodup
  fresh : ∀ request ∈ requests, request.1.bytes.toList ∉ w.state.connection.receipts
  holds : ∃ commands, h.Logs commands ∧ w.Healthy commands ∧
    commands.length + requests.length < 2 ^ 63

variable {requests : List (RequestId × Command)} {h : EditorHistory} {w : World}

/-- One command: applied and granted, or refused by the reducer on both
sides. -/
theorem InStep.step {request : RequestId × Command} (hin : InStep (request :: requests) h w) :
    Agrees (InStep requests) (fun e d => d = .model e) (h.applied request.2)
      (w.committed request) := by
  obtain ⟨commands, hl, hhealthy, hfits⟩ := hin.holds
  obtain ⟨hnew, hdistinct⟩ := List.nodup_cons.mp hin.distinct
  obtain ⟨hfresh, hfreshes⟩ := List.forall_mem_cons.mp hin.fresh
  rw [List.length_cons] at hfits
  have hreplay : replay (commands ++ [request.2]) = reduce w.state.project request.2 := by
    rw [replay_concat, hhealthy.tracks.replays]
    rfl
  obtain ⟨answer, w', hrequest, hanswers⟩ :=
    hhealthy.requestCommit_faultless (by omega) hfresh request.2
  rw [World.committed, hrequest]
  obtain ⟨h', happlied, hl'⟩ | ⟨e, happlied, hrefused⟩ := hl.applied request.2
  · rw [happlied]
    cases hanswers with
    | granted hreduce hhealthy' hreceipts =>
        refine .ok ⟨hdistinct, ?_, _, hl', hhealthy', by simp; omega⟩
        intro other hother
        have hne : other.1.bytes.toList ≠ request.1.bytes.toList := fun heq =>
          hnew (Id.toList_inj.mp heq ▸ List.mem_map_of_mem hother)
        rw [hreceipts, Table.not_mem_iff, Table.getElem?_insert_eq, if_neg hne]
        exact Table.not_mem_iff.mp (hfreshes other hother)
    | refused hreduce =>
        rw [← hreplay, hl'.replays] at hreduce
        cases hreduce
  · rw [happlied]
    rw [hreplay] at hrefused
    cases hanswers with
    | granted hreduce _ _ =>
        rw [hrefused] at hreduce
        cases hreduce
    | refused hreduce =>
        rw [hrefused] at hreduce
        cases hreduce
        exact .error rfl

/-- Where history and store are in step, they show the same, and so does the
store once it is opened again. -/
theorem InStep.view_eq (hin : InStep requests h w) : w.state.view = h.view ∧
    ∃ s, openState w.state.databasePath w.state.connection .faultless = .ok s ∧
      s.view = h.view := by
  obtain ⟨commands, hl, hhealthy, -⟩ := hin.holds
  have hproject : w.state.project = h.project :=
    Except.ok.inj (hhealthy.tracks.replays.symm.trans hl.replays)
  have hview : w.state.view = h.view := by
    rw [State.view, EditorHistory.view, hproject, hhealthy.tracks.head, hl.currentHash]
  refine ⟨hview, ?_⟩
  rw [openState_faultless, tracks_iff.mp ⟨commands, hhealthy.tracks⟩]
  exact ⟨_, rfl, hview⟩

/-- A new store is in step with a new history. -/
theorem inStep_default {path : Path} {env : Env} {s : State}
    (hopen : openState path .empty env = .ok s) (hdistinct : (requests.map Prod.fst).Nodup)
    (hfits : requests.length < 2 ^ 63) (files : Files) :
    InStep requests .default ⟨s, files, none⟩ := by
  obtain ⟨hrows, commands, htracks⟩ := openState_eq_ok hopen
  have hnil : commands = [] := by
    have hspells := htracks.holds.spells
    rw [hrows] at hspells
    exact Spells.nil_iff.mp hspells
  have hunfailed : s.maintenanceFailure = none := by
    have hfaultless := (interruptible_openState path .empty).eq_ok hopen
    rw [openState_faultless] at hfaultless
    cases hrestore : restore .empty .faultless with
    | error stop => simp [hrestore, Except.map] at hfaultless
    | ok found =>
        rw [hrestore] at hfaultless
        cases hfaultless
        rfl
  subst hnil
  refine ⟨hdistinct, ?_, [], .default, ⟨htracks, hunfailed⟩, by simpa using hfits⟩
  intro request _
  rw [hrows]
  simp [Database.empty]

/-- **History and store** take the same requests, or stop at the same one. -/
theorem drive_committed_agrees {path : Path} {env : Env} {s : State}
    (hopen : openState path .empty env = .ok s) (hdistinct : (requests.map Prod.fst).Nodup)
    (hfits : requests.length < 2 ^ 63) (files : Files) :
    Agrees (InStep []) (fun e d => d = (e.1, .model e.2))
      (drive EditorHistory.applied .default (requests.map Prod.snd))
      (drive World.committed ⟨s, files, none⟩ requests) := by
  rw [drive_map]
  refine (drive_agrees (fun _ _ _ _ => InStep.step)
    (inStep_default hopen hdistinct hfits files)).mono (fun _ _ h => h) ?_
  rintro ⟨i, e⟩ ⟨j, d⟩ ⟨hindex, hmodel⟩
  exact Prod.ext hindex.symm hmodel

/-! ## agreement -/

omit [Sha256] in
theorem exists_spelling (cut : List (List Command)) : ∃ batches, Spelling batches cut := by
  refine ⟨cut.map fun batch => batch.map StitchCommand.of, ?_⟩
  rw [Spelling, List.forall₂_map_left_iff, List.forall₂_same]
  exact fun batch _ => mapM_command_of batch

/-- A core takes the batches when a history takes their commands. -/
theorem submittedView_eq_some_iff {cut : List (List Command)}
    (hsizes : ∀ batch ∈ cut, batch ≠ [] ∧ batch.length ≤ maxCommands)
    {batches : List (List StitchCommand)} (hspelling : Spelling batches cut)
    {p : Process} {thread : ThreadId} {handle : UInt64} {core : CoreState}
    (hcore : p.Offers thread handle core) (hnew : core.history = .default) (callback : Bool)
    (view : View) : submittedView p thread handle callback batches = some view ↔
      appliedView cut.flatten = .ok view := by
  have hdecodes : List.Forall₂ Decodes batches cut := by
    refine (List.forall₂_iff_get.mpr ?_)
    obtain ⟨hlength, hget⟩ := List.forall₂_iff_get.mp hspelling
    refine ⟨hlength, fun i hi hi' => ?_⟩
    obtain ⟨hne, hfew⟩ := hsizes _ (List.get_mem cut ⟨i, hi'⟩)
    exact ⟨hget i hi hi', hne, hfew⟩
  have hsubmits := hcore.submitBatches hdecodes callback
  rw [hnew] at hsubmits
  unfold submittedView appliedView
  obtain ⟨next, p', happlied, hsubmit, hoffers⟩ | ⟨error, happlied, hsubmit⟩ := hsubmits
  · rw [drive_eq_ok_iff.mpr happlied, hsubmit]
    simp [hoffers.core?_eq, Except.map]
  · have hrefused : ∀ h, drive EditorHistory.applied .default cut.flatten ≠ .ok h := by
      intro h hok
      rw [drive_eq_ok_iff.mp hok] at happlied
      cases happlied
    rw [hsubmit]
    cases hdrive : drive EditorHistory.applied .default cut.flatten with
    | ok h => exact absurd hdrive (hrefused h)
    | error stop => simp [Except.map]

/-- **All edit paths agree**: whatever the batches, the spelling of the raw
commands and the request ids, history, core and store accept the same lists
and end with the same project, digest and head, which is what `restore`
finds; history and store stop at the same command with the same error.

A list in memory is shorter than `2 ^ 63`, as is a log that a table
numbers. -/
theorem edit_paths_agree {commands : List Command} (hfits : commands.length < 2 ^ 63)
    {cut : List (List Command)} (hcut : cut.flatten = commands)
    (hsizes : ∀ batch ∈ cut, batch ≠ [] ∧ batch.length ≤ maxCommands)
    {requests : List (RequestId × Command)} (hrequests : requests.map Prod.snd = commands)
    (hdistinct : (requests.map Prod.fst).Nodup)
    {p : Process} {thread : ThreadId} {handle : UInt64} {core : CoreState}
    (hcore : p.Offers thread handle core) (hnew : core.history = .default) (callback : Bool)
    {path : Path} {env : Env} {s : State} (hopen : openState path .empty env = .ok s)
    (files : Files) :
    (∃ batches, Spelling batches cut) ∧
    (∀ batches, Spelling batches cut → ∀ view,
      submittedView p thread handle callback batches = some view ↔
        appliedView commands = .ok view) ∧
    (∀ view, committedView ⟨s, files, none⟩ requests = .ok view ↔
      appliedView commands = .ok view) ∧
    (∀ view, restoredView ⟨s, files, none⟩ requests = some view ↔
      appliedView commands = .ok view) ∧
    ∀ index error, committedView ⟨s, files, none⟩ requests = .error (index, .model error) ↔
      appliedView commands = .error (index, error) := by
  subst hcut
  refine ⟨exists_spelling cut, fun batches hspelling =>
    submittedView_eq_some_iff hsizes hspelling hcore hnew callback, ?_⟩
  have hlength : requests.length < 2 ^ 63 := by
    rw [← List.length_map Prod.snd, hrequests]
    exact hfits
  have hagrees := drive_committed_agrees hopen hdistinct hlength files
  rw [hrequests] at hagrees
  unfold committedView restoredView appliedView
  generalize drive EditorHistory.applied .default cut.flatten = applied at hagrees
  generalize drive World.committed ⟨s, files, none⟩ requests = committed at hagrees
  cases hagrees with
  | ok hin =>
      obtain ⟨hview, s', hreopen, hview'⟩ := hin.view_eq
      simp [Except.map, hview, hreopen, hview']
  | error herror =>
      subst herror
      simp [Except.map, Prod.ext_iff]

end Paths

section TwoTracks

/-- A core that has just been created, and nothing else. -/
def newCoreProcess : Process :=
  { Process.initial with
    nextHandle := 2
    cores := (∅ : OrdMap UInt64 Nat).insert 1 0
    heap := [⟨.default, 0, ∅, 0⟩] }

theorem newCoreProcess_offers : newCoreProcess.Offers 0 1 ⟨.default, 0, ∅, 0⟩ :=
  ⟨rfl, ⟨0, by decide, rfl⟩, rfl⟩

def twoRequests : List (RequestId × Command) :=
  [(⟨Vector.replicate 16 1⟩, addFirstTrack), (⟨Vector.replicate 16 2⟩, addSecondTrack)]

/-- The first track is added again. -/
def threeRequests : List (RequestId × Command) :=
  twoRequests ++ [(⟨Vector.replicate 16 3⟩, addFirstTrack)]

/-- A store that has just been created. -/
def newStore : World :=
  ⟨⟨.empty, Project.default, none, 0, storePath, none⟩, ⟨fun _ => none, 0⟩, none⟩

theorem openState_newStore :
    letI := twoTracksSha256
    openState storePath .empty .faultless = .ok newStore.state := by decide +kernel

/-- Two batches are taken by all, and the first track is refused by all where
the second batch adds it again. -/
theorem edit_paths_agree_twoTracks :
    letI := twoTracksSha256
    let view : View := ⟨twoTracksProject, twoTracksDigest, some secondTrackHash⟩
    (submittedView newCoreProcess 0 1 false [[.of addFirstTrack], [.of addSecondTrack]] =
        some view ∧
      committedView newStore twoRequests = .ok view ∧
      restoredView newStore twoRequests = some view) ∧
    submittedView newCoreProcess 0 1 false
      [[.of addFirstTrack], [.of addSecondTrack, .of addFirstTrack]] = none ∧
    committedView newStore threeRequests =
      .error (2, .model (.duplicateTrack ⟨Vector.replicate 16 0x2a⟩)) := by
  let _ := twoTracksSha256
  have happlied : appliedView twoTracks =
      .ok ⟨twoTracksProject, twoTracksDigest, some secondTrackHash⟩ := by decide +kernel
  have hrefused : appliedView (twoTracks ++ [addFirstTrack]) =
      .error (2, .duplicateTrack ⟨Vector.replicate 16 0x2a⟩) := by decide +kernel
  obtain ⟨-, hsubmitted, hcommitted, hrestored, -⟩ := edit_paths_agree (by decide)
    (rfl : [[addFirstTrack], [addSecondTrack]].flatten = twoTracks) (by decide)
    (rfl : twoRequests.map Prod.snd = twoTracks) (by decide)
    newCoreProcess_offers rfl false openState_newStore newStore.files
  obtain ⟨-, hsubmitted', -, -, hstopped⟩ := edit_paths_agree (by decide)
    (rfl : [[addFirstTrack], [addSecondTrack, addFirstTrack]].flatten =
      twoTracks ++ [addFirstTrack]) (by decide)
    (rfl : threeRequests.map Prod.snd = twoTracks ++ [addFirstTrack]) (by decide)
    newCoreProcess_offers rfl false openState_newStore newStore.files
  refine ⟨⟨(hsubmitted _ (.cons rfl (.cons rfl .nil)) _).mpr happlied,
    (hcommitted _).mpr happlied, (hrestored _).mpr happlied⟩, ?_, (hstopped _ _).mpr hrefused⟩
  refine Option.eq_none_iff_forall_ne_some.mpr fun view hview => ?_
  have hok : appliedView (twoTracks ++ [addFirstTrack]) = .ok view :=
    (hsubmitted' _ (.cons rfl (.cons rfl .nil)) view).mp hview
  rw [hrefused] at hok
  cases hok

end TwoTracks

end StitchEditor
