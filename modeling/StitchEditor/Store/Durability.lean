import Mathlib
import StitchEditor.Lib.Run
import StitchEditor.Store.Integrity
import StitchEditor.Store.Messages

/-!
# StitchEditor.Store.Durability

Whole runs of the store: messages, crashes and reopenings in any order, with
any faults and any failing call.

Each event keeps rows and memory those of one list of commands and at most
appends the command of its own message (`Node.Tracks.step`), so reopening
finds, after every run, exactly what was in memory (`store_durable`).
-/

namespace StitchEditor

open Chain Fallible Procedure Run

section Durability

variable [Sha256]

/-! ## the system -/

/-- A running worker, or what a process that ended has left behind. -/
inductive Node where
  | running (world : World)
  | down (rows : Database) (files : Files)

inductive Event where
  | message (work : Work) (env : Env)
  | crash
  | reopen (path : Path) (env : Env)

def Node.rows : Node → Database
  | .running world => world.state.connection
  | .down rows _ => rows

/-- The process has ended. -/
def World.exit (world : World) : Node := .down world.state.connection world.files

/-- What an event leads to; `none` where it cannot happen. -/
def Node.step (node : Node) (event : Event) : Option Node :=
  match node, event with
  | .running world, .message work env =>
      match handle work env { world with reply := none } with
      | (.ok true, world) => some (.running world)
      | (_, world) => some world.exit
  | .running world, .crash => some world.exit
  | .down rows files, .reopen path env =>
      match openState path rows env with
      | .ok state => some (.running ⟨state, { files with temporaries := 0 }, none⟩)
      | .error _ => some (.down rows files)
  | _, _ => none

def Node.Step (node : Node) (event : Event) (node' : Node) : Prop := node.step event = some node'

/-- The command that a message asks to commit. -/
def Work.command? : Work → Option Command
  | .commit _ command _ => some command
  | _ => none

def Event.command? : Event → Option Command
  | .message work _ => work.command?
  | _ => none

/-! ## opening -/

theorem interruptible_openState (path : Path) (rows : Database) :
    Interruptible (openState path rows) :=
  (Interruptible.execute _).bind fun _ => (Interruptible.execute _).bind fun _ =>
    (Interruptible.execute _).bind fun _ => (Interruptible.execute _).bind fun _ =>
      (Interruptible.execute _).bind fun _ => (interruptible_restore rows).bind fun _ => .const _

theorem openState_faultless (path : Path) (rows : Database) : openState path rows .faultless =
    (restore rows .faultless).map fun r => ⟨rows, r.1, r.2.1, r.2.2, path, none⟩ := by
  simp only [openState, execute_faultless]
  cases restore rows .faultless <;> rfl

/-- Opening puts in memory what the rows hold. -/
theorem openState_eq_ok {path : Path} {rows : Database} {env : Env} {state : State}
    (hopen : openState path rows env = .ok state) :
    state.connection = rows ∧ ∃ commands, state.Tracks commands := by
  have hopen := (interruptible_openState path rows).eq_ok hopen
  rw [openState_faultless] at hopen
  cases hrestore : restore rows .faultless with
  | error e => simp [hrestore, Except.map] at hopen
  | ok result =>
      rw [hrestore] at hopen
      cases hopen
      exact ⟨rfl, tracks_iff.mpr hrestore⟩

/-- Only a failing call or a crash keeps held rows from being opened. -/
theorem Database.Holds.openState_ne_corruptStore {rows : Database} {commands : List Command}
    (h : rows.Holds commands) (path : Path) (env : Env) :
    openState path rows env ≠ .error (.error .corruptStore) := by
  obtain ⟨project, hreplays⟩ := h.replays
  have hopens : openState path rows .faultless =
      .ok ⟨rows, project, chain revisionHash commands, commands.length, path, none⟩ := by
    rw [openState_faultless, restore_eq_ok_iff.mpr ⟨commands, h, hreplays, rfl, rfl⟩]
    rfl
  obtain heq | heq | heq := (interruptible_openState path rows).error_cases hopens env <;>
    rw [heq] <;> simp

/-! ## one event -/

/-- A message adds at most the command that it asks to commit. -/
theorem State.Serves.tracks {s s' : State} {work : Work} {reply : Option Reply}
    {commands : List Command} (h : s.Serves work reply s') (ht : s.Tracks commands) :
    ∃ added, added.Sublist work.command?.toList ∧ s'.Tracks (commands ++ added) := by
  cases work with
  | commit requestId command fault =>
      obtain ⟨result, s₁, hcommits, hmaintains, -⟩ := h
      cases hcommits with
      | kept => exact ⟨[], by simp, by simpa using hmaintains.tracks ht⟩
      | appended happends => exact ⟨[command], by simp [Work.command?],
          hmaintains.tracks (happends.tracks ht)⟩
  | receipt requestId => exact ⟨[], by simp, by simpa [h.1] using ht⟩
  | snapshot | checkpoint | compact | archive | shutdown =>
      exact ⟨[], by simp, by simpa using h.1.tracks ht⟩

/-- The rows, and the memory of a running worker, are those of the
commands. -/
def Node.Tracks (node : Node) (commands : List Command) : Prop :=
  match node with
  | .running world => world.state.Tracks commands
  | .down rows _ => rows.Holds commands

theorem Node.Tracks.holds {node : Node} {commands : List Command} (h : node.Tracks commands) :
    node.rows.Holds commands := by
  cases node with
  | running world => exact State.Tracks.holds h
  | down rows files => exact h

/-- **One event** appends at most the command that it asks for. -/
theorem Node.Tracks.step {node node' : Node} {event : Event} {commands : List Command}
    (ht : node.Tracks commands) (hstep : node.Step event node') :
    ∃ added, added.Sublist event.command?.toList ∧ node'.Tracks (commands ++ added) := by
  cases node with
  | running world =>
      cases event with
      | message work env =>
          obtain ⟨added, hadded, ht'⟩ := (serves_handle world work env).tracks ht
          refine ⟨added, hadded, ?_⟩
          simp only [Node.Step, Node.step] at hstep
          split at hstep
          · next heq =>
            cases hstep
            rwa [heq] at ht'
          · next heq =>
            cases hstep
            rw [heq] at ht'
            exact ht'.holds
      | crash =>
          cases hstep
          refine ⟨[], by simp, ?_⟩
          rw [List.append_nil]
          exact State.Tracks.holds ht
      | reopen path env => cases hstep
  | down rows files =>
      cases event with
      | message work env => cases hstep
      | crash => cases hstep
      | reopen path env =>
          refine ⟨[], by simp, ?_⟩
          rw [List.append_nil]
          simp only [Node.Step, Node.step] at hstep
          split at hstep
          · next hopen =>
            cases hstep
            obtain ⟨rfl, commands', ht'⟩ := openState_eq_ok hopen
            exact Database.Holds.unique ht'.holds ht ▸ ht'
          · cases hstep
            exact ht

/-- **A run** appends some of the commands that were asked for, in order. -/
theorem Node.Tracks.run {start node : Node} {events : List Event} {commands : List Command}
    (ht : start.Tracks commands) (hrun : Runs Node.Step start events node) :
    ∃ added, added.Sublist (events.filterMap Event.command?) ∧ node.Tracks (commands ++ added) := by
  induction hrun with
  | nil => exact ⟨[], by simp, by simpa using ht⟩
  | @snoc events node node' event _ hstep ih =>
      obtain ⟨added, hadded, ht'⟩ := ih
      obtain ⟨more, hmore, ht''⟩ := ht'.step hstep
      refine ⟨added ++ more, ?_, by simpa using ht''⟩
      have hlast : [event].filterMap Event.command? = event.command?.toList := by
        cases h : event.command? <;> simp [h]
      rw [List.filterMap_append, hlast]
      exact hadded.append hmore

/-! ## runs -/

/-- `restore` accepts the rows and finds in them what a running worker has
in memory. -/
def Node.Restores (node : Node) : Prop :=
  ∃ result, restore node.rows .faultless = .ok result ∧ ∀ {world : World}, node = .running world →
    result = (world.state.project, world.state.head, world.state.sequence)

theorem Node.restores_iff {node : Node} : node.Restores ↔ ∃ commands, node.Tracks commands := by
  cases node with
  | running world =>
      change _ ↔ ∃ commands, world.state.Tracks commands
      rw [tracks_iff]
      constructor
      · rintro ⟨result, hrestore, hmemory⟩
        rwa [hmemory rfl] at hrestore
      · intro h
        exact ⟨_, h, by rintro _ ⟨rfl⟩; rfl⟩
  | down rows files =>
      constructor
      · rintro ⟨⟨project, head, sequence⟩, hrestore, -⟩
        obtain ⟨commands, hholds, -⟩ := restore_eq_ok_iff.mp hrestore
        exact ⟨commands, hholds⟩
      · rintro ⟨commands, hholds⟩
        obtain ⟨project, hreplays⟩ := Database.Holds.replays hholds
        exact ⟨_, restore_eq_ok_iff.mpr ⟨commands, hholds, hreplays, rfl, rfl⟩, by simp⟩

/-- **Durability**: from rows that `restore` accepts, every run leads to
rows that `restore` accepts, with what is in memory as the result; the log
has only grown by commands that were asked for, and opening never reports a
corrupt store. -/
theorem store_durable {start node : Node} {events : List Event} (hstart : start.Restores)
    (hrun : Runs Node.Step start events node) :
    node.Restores ∧
      (∃ added, added.Sublist (events.filterMap Event.command?) ∧
        node.rows.log = start.rows.log ++ added) ∧
      ∀ path env, openState path node.rows env ≠ .error (.error .corruptStore) := by
  obtain ⟨commands, ht⟩ := Node.restores_iff.mp hstart
  obtain ⟨added, hadded, ht'⟩ := ht.run hrun
  refine ⟨Node.restores_iff.mpr ⟨_, ht'⟩, ⟨added, hadded, ?_⟩, fun path env =>
    ht'.holds.openState_ne_corruptStore path env⟩
  rw [ht'.holds.log_eq, ht.holds.log_eq]

end Durability

section FirstTrack

/-- Opening an empty store, one commit, a crash and opening again. -/
def firstTrackEvents : List Event :=
  [.reopen ⟨true, ["store"]⟩ .faultless,
    .message (.commit ⟨Vector.replicate 16 1⟩ addFirstTrack none) .faultless,
    .crash,
    .reopen ⟨true, ["store"]⟩ .faultless]

def emptyNode : Node := .down .empty ⟨fun _ => none, 0⟩

theorem isSome_firstTrackEvents :
    letI := firstTrackSha256
    (firstTrackEvents.foldlM Node.step emptyNode).isSome := by
  decide +kernel

theorem store_durable_firstTrackEvents :
    letI := firstTrackSha256
    ∃ node, Runs Node.Step emptyNode firstTrackEvents node ∧ node.Restores ∧
      node.rows.log = [addFirstTrack] := by
  let _ := firstTrackSha256
  have hrun : Runs Node.Step emptyNode firstTrackEvents _ :=
    Runs.of_foldlM (Option.some_get isSome_firstTrackEvents).symm
  have hstart : emptyNode.Restores :=
    ⟨(Project.default, none, 0), by decide +kernel, by simp [emptyNode]⟩
  obtain ⟨hrestores, -⟩ := store_durable hstart hrun
  exact ⟨_, hrun, hrestores, by decide +kernel⟩

end FirstTrack

end StitchEditor
