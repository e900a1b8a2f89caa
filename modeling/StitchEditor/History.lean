import Mathlib
import StitchEditor.Lib.Chain
import StitchEditor.Lib.Run
import StitchEditor.Lib.Zipper
import StitchEditor.Contracts.Codec

/-!
# StitchEditor.History

`EditorHistory`, the undo history of the editor core: a vector of revisions,
each with its project and its hash, and a cursor into it.

Nothing is ever replayed when the cursor moves.  That stored projects and
hashes nevertheless are those of a replay is the refinement
`EditorHistory.refines_zipper`: the history behaves as a zipper of commands
whose past is what is in force.
-/

namespace StitchEditor

open Chain

section Refinement

variable [Sha256]

/-! ## the history -/

structure HistoryRevision where
  project : Project
  hash : RevisionHash
  deriving DecidableEq

/-- Immutable-revision history with deterministic undo and redo cursor
movement. -/
structure EditorHistory where
  revisions : List HistoryRevision
  cursor : Nat
  deriving DecidableEq

namespace EditorHistory

/-- `EditorHistory::default()`. -/
def default : EditorHistory := ⟨[], 0⟩

/-- `cursor.checked_sub(1).and_then(|index| revisions.get(index))`. -/
def current (self : EditorHistory) : Option HistoryRevision :=
  match self.cursor with
  | 0 => none
  | index + 1 => self.revisions[index]?

def project (self : EditorHistory) : Project :=
  match self.current with
  | some revision => revision.project
  | none => Project.default

def currentHash (self : EditorHistory) : Option RevisionHash :=
  self.current.map HistoryRevision.hash

def revisionCount (self : EditorHistory) : Nat := self.revisions.length

/-- Applies a typed command, replacing any redo branch with a new
revision.  An error returns before anything is written. -/
def apply (self : EditorHistory) (command : Command) :
    Except ModelError RevisionHash × EditorHistory :=
  match reduce self.project command with
  | .error e => (.error e, self)
  | .ok next =>
      let hash := revisionHash self.currentHash command
      (.ok hash, {
        revisions := self.revisions.take self.cursor ++ [⟨next, hash⟩]
        cursor := self.cursor + 1 })

def undo (self : EditorHistory) : Bool × EditorHistory :=
  if self.cursor = 0 then (false, self) else (true, { self with cursor := self.cursor - 1 })

def redo (self : EditorHistory) : Bool × EditorHistory :=
  if self.cursor = self.revisions.length then (false, self)
  else (true, { self with cursor := self.cursor + 1 })

end EditorHistory

/-! ## calls -/

/-- A call on a history, with what it returned. -/
inductive HistoryCall where
  | apply (command : Command) (result : Except ModelError RevisionHash)
  | undo (moved : Bool)
  | redo (moved : Bool)

/-- One call on the history. -/
def EditorHistory.Step (h : EditorHistory) : HistoryCall → EditorHistory → Prop
  | .apply command result, h' => h.apply command = (result, h')
  | .undo moved, h' => h.undo = (moved, h')
  | .redo moved, h' => h.redo = (moved, h')

/-- What each call does to a zipper of commands: an edit that applies to the
replayed past joins it and empties the future, one that does not changes
nothing, and undo and redo move one command until they reach their end. -/
inductive ZipperStep : Zipper Command → HistoryCall → Zipper Command → Prop where
  | applied {z : Zipper Command} {command : Command} {p q : Project}
      (hpast : replay z.past = .ok p) (hreduce : reduce p command = .ok q) :
      ZipperStep z (.apply command (.ok (revisionHash (chain revisionHash z.past) command)))
        (z.record command)
  | failed {z : Zipper Command} {command : Command} {p : Project} {e : ModelError}
      (hpast : replay z.past = .ok p) (hreduce : reduce p command = .error e) :
      ZipperStep z (.apply command (.error e)) z
  | undone {z z' : Zipper Command} (h : z.undo = some z') : ZipperStep z (.undo true) z'
  | atStart {z : Zipper Command} (h : z.undo = none) : ZipperStep z (.undo false) z
  | redone {z z' : Zipper Command} (h : z.redo = some z') : ZipperStep z (.redo true) z'
  | atEnd {z : Zipper Command} (h : z.redo = none) : ZipperStep z (.redo false) z

/-- What a zipper says about the history it stands for. -/
structure EditorHistory.Shows (h : EditorHistory) (z : Zipper Command) : Prop where
  project : replay z.past = .ok h.project
  hash : chain revisionHash z.past = h.currentHash
  count : h.revisionCount = z.past.length + z.future.length
  cursor : h.cursor = z.past.length
  cursor_le : h.cursor ≤ h.revisions.length

/-! ## the refinement -/

/-- The revisions store, for each prefix of the entries, its replay and its
head. -/
structure Stores (revisions : List HistoryRevision) (entries : List Command) : Prop where
  length : revisions.length = entries.length
  project : ∀ {i : Nat} {revision : HistoryRevision}, revisions[i]? = some revision →
    replay (entries.take (i + 1)) = .ok revision.project
  hash : ∀ {i : Nat} {revision : HistoryRevision}, revisions[i]? = some revision →
    chain revisionHash (entries.take (i + 1)) = some revision.hash

/-- The revisions store the entries, and the cursor stands behind the past. -/
structure EditorHistory.Tracks (h : EditorHistory) (z : Zipper Command) : Prop where
  stores : Stores h.revisions z.entries
  cursor : h.cursor = z.past.length

namespace Stores

variable {revisions : List HistoryRevision} {entries : List Command}

theorem nil : Stores [] [] := ⟨rfl, by simp, by simp⟩

theorem take (h : Stores revisions entries) (n : Nat) :
    Stores (revisions.take n) (entries.take n) := by
  have hget : ∀ {i : Nat} {revision : HistoryRevision}, (revisions.take n)[i]? = some revision →
      revisions[i]? = some revision ∧ (entries.take n).take (i + 1) = entries.take (i + 1) := by
    intro i revision hi
    rw [List.getElem?_take] at hi
    split at hi
    · exact ⟨hi, by rw [List.take_take, Nat.min_eq_left (by omega)]⟩
    · cases hi
  refine ⟨by rw [List.length_take, List.length_take, h.length], ?_, ?_⟩
  · intro i revision hi
    obtain ⟨hi, htake⟩ := hget hi
    rw [htake, h.project hi]
  · intro i revision hi
    obtain ⟨hi, htake⟩ := hget hi
    rw [htake, h.hash hi]

/-- One more revision, computed from the replay and the head before it. -/
theorem concat (h : Stores revisions entries) {command : Command} {p q : Project}
    (hp : replay entries = .ok p) (hq : reduce p command = .ok q) :
    Stores (revisions ++ [⟨q, revisionHash (chain revisionHash entries) command⟩])
      (entries ++ [command]) := by
  have hget : ∀ {i : Nat} {revision : HistoryRevision},
      (revisions ++ [⟨q, revisionHash (chain revisionHash entries) command⟩])[i]? = some revision →
      (revisions[i]? = some revision ∧ (entries ++ [command]).take (i + 1) = entries.take (i + 1)) ∨
      (revision = ⟨q, revisionHash (chain revisionHash entries) command⟩ ∧
        (entries ++ [command]).take (i + 1) = entries ++ [command]) := by
    intro i revision hi
    rw [List.getElem?_append] at hi
    split at hi
    · next hlt =>
      have := h.length
      exact .inl ⟨hi, List.take_append_of_le_length (by omega)⟩
    · next hge =>
      obtain ⟨hlast, hrev⟩ := List.getElem?_eq_some_iff.mp hi
      rw [List.length_singleton] at hlast
      have := h.length
      refine .inr ⟨?_, List.take_of_length_le (by simp; omega)⟩
      rw [← hrev, List.getElem_singleton]
  refine ⟨by simp [h.length], ?_, ?_⟩
  · intro i revision hi
    rcases hget hi with ⟨hi, htake⟩ | ⟨rfl, htake⟩
    · rw [htake, h.project hi]
    · rw [htake, replay_concat, hp]
      exact hq
  · intro i revision hi
    rcases hget hi with ⟨hi, htake⟩ | ⟨rfl, htake⟩
    · rw [htake, h.hash hi]
    · rw [htake, chain_concat]

end Stores

namespace EditorHistory

variable {h h' : EditorHistory} {z : Zipper Command}

theorem Tracks.default : EditorHistory.default.Tracks Zipper.empty := ⟨Stores.nil, rfl⟩

/-- **What can be read off a tracked history** is what the replay of the
past would give. -/
theorem Tracks.shows (ht : h.Tracks z) : h.Shows z := by
  have hlen : h.revisions.length = z.past.length + z.future.length := by
    rw [ht.stores.length, Zipper.entries, List.length_append]
  have hcurrent : (z.past = [] ∧ h.current = none) ∨ ∃ revision, h.current = some revision ∧
      replay z.past = .ok revision.project ∧ chain revisionHash z.past = some revision.hash := by
    rw [current, ht.cursor]
    cases hpast : z.past.length with
    | zero => exact .inl ⟨List.length_eq_zero_iff.mp hpast, rfl⟩
    | succ n =>
        have hn : n < h.revisions.length := by omega
        have hget := List.getElem?_eq_getElem hn
        have htake : z.entries.take (n + 1) = z.past := by rw [← hpast, z.take_entries]
        exact .inr ⟨_, hget, htake ▸ ht.stores.project hget, htake ▸ ht.stores.hash hget⟩
  refine ⟨?_, ?_, hlen, ht.cursor, by rw [ht.cursor]; omega⟩
  · rcases hcurrent with ⟨hpast, hnone⟩ | ⟨revision, hsome, hproject, -⟩
    · rw [hpast, project, hnone]
      rfl
    · rw [hproject, project, hsome]
  · rcases hcurrent with ⟨hpast, hnone⟩ | ⟨revision, hsome, -, hhash⟩
    · rw [hpast, currentHash, hnone]
      rfl
    · rw [hhash, currentHash, hsome]
      rfl

/-- An edit: the redo branch is cut off and one revision is pushed. -/
theorem Tracks.apply (ht : h.Tracks z) {command : Command} {result : Except ModelError RevisionHash}
    (hcall : h.apply command = (result, h')) :
    ∃ z', ZipperStep z (.apply command result) z' ∧ h'.Tracks z' := by
  have hshows := ht.shows
  rw [EditorHistory.apply] at hcall
  cases hr : reduce h.project command with
  | error e =>
      rw [hr] at hcall
      obtain ⟨rfl, rfl⟩ := Prod.mk.inj hcall
      exact ⟨z, .failed hshows.project hr, ht⟩
  | ok next =>
      rw [hr] at hcall
      obtain ⟨rfl, rfl⟩ := Prod.mk.inj hcall
      rw [← hshows.hash, ht.cursor]
      refine ⟨z.record command, .applied hshows.project hr, ?_, ?_⟩
      · have hpast := ht.stores.take z.past.length
        rw [z.take_entries] at hpast
        have hstores := hpast.concat hshows.project hr
        rwa [← List.append_nil (z.past ++ [command])] at hstores
      · simp [Zipper.record]

/-- Undo moves the cursor back unless it stands at the start. -/
theorem Tracks.undo (ht : h.Tracks z) {moved : Bool} (hcall : h.undo = (moved, h')) :
    ∃ z', ZipperStep z (.undo moved) z' ∧ h'.Tracks z' := by
  rw [EditorHistory.undo] at hcall
  cases hz : z.undo with
  | none =>
      have hzero := Zipper.undo_eq_none_iff.mp hz
      rw [if_pos (by rw [ht.cursor, hzero])] at hcall
      obtain ⟨rfl, rfl⟩ := Prod.mk.inj hcall
      exact ⟨z, .atStart hz, ht⟩
  | some z' =>
      obtain ⟨hentries, hlen⟩ := Zipper.undo_spec hz
      rw [if_neg (by rw [ht.cursor]; omega)] at hcall
      obtain ⟨rfl, rfl⟩ := Prod.mk.inj hcall
      refine ⟨z', .undone hz, by rw [hentries]; exact ht.stores, ?_⟩
      have := ht.cursor
      dsimp only
      omega

/-- Redo moves the cursor on unless it stands at the end. -/
theorem Tracks.redo (ht : h.Tracks z) {moved : Bool} (hcall : h.redo = (moved, h')) :
    ∃ z', ZipperStep z (.redo moved) z' ∧ h'.Tracks z' := by
  rw [EditorHistory.redo] at hcall
  cases hz : z.redo with
  | none =>
      have hend := Zipper.redo_eq_none_iff.mp hz
      rw [if_pos (by rw [ht.cursor, ht.stores.length, hend])] at hcall
      obtain ⟨rfl, rfl⟩ := Prod.mk.inj hcall
      exact ⟨z, .atEnd hz, ht⟩
  | some z' =>
      obtain ⟨hentries, hlen⟩ := Zipper.redo_spec hz
      have hne : ¬ h.cursor = h.revisions.length := by
        rw [ht.cursor, ht.stores.length, ← Zipper.redo_eq_none_iff, hz]
        simp
      rw [if_neg hne] at hcall
      obtain ⟨rfl, rfl⟩ := Prod.mk.inj hcall
      refine ⟨z', .redone hz, by rw [hentries]; exact ht.stores, ?_⟩
      have := ht.cursor
      dsimp only
      omega

theorem Tracks.step (ht : h.Tracks z) {call : HistoryCall} (hcall : h.Step call h') :
    ∃ z', ZipperStep z call z' ∧ h'.Tracks z' := by
  cases call with
  | apply command result => exact ht.apply hcall
  | undo moved => exact ht.undo hcall
  | redo moved => exact ht.redo hcall

/-! ## logs -/

/-- An edit that has to succeed. -/
def applied (self : EditorHistory) (command : Command) : Except ModelError EditorHistory :=
  match self.apply command with
  | (.ok _, next) => .ok next
  | (.error e, _) => .error e

/-- The history is that of the commands, none of them taken back. -/
def Logs (self : EditorHistory) (commands : List Command) : Prop := self.Tracks ⟨commands, []⟩

theorem Logs.default : EditorHistory.default.Logs [] := Tracks.default

namespace Logs

variable {commands : List Command}

theorem replays (hl : h.Logs commands) : replay commands = .ok h.project := hl.shows.project

theorem currentHash (hl : h.Logs commands) : h.currentHash = chain revisionHash commands :=
  hl.shows.hash.symm

/-- An edit logs its command, or fails as the replay does. -/
theorem applied (hl : h.Logs commands) (command : Command) :
    (∃ h', h.applied command = .ok h' ∧ h'.Logs (commands ++ [command])) ∨
      ∃ e, h.applied command = .error e ∧ replay (commands ++ [command]) = .error e := by
  have hcall : h.apply command = ((h.apply command).1, (h.apply command).2) := rfl
  obtain ⟨z, hstep, hz⟩ := hl.apply hcall
  have hreplay : replay (commands ++ [command]) = reduce h.project command := by
    rw [replay_concat, hl.replays]
    rfl
  unfold EditorHistory.applied
  generalize h.apply command = ended at hstep hz
  obtain ⟨result, h'⟩ := ended
  cases hstep with
  | applied hpast hreduce => exact .inl ⟨h', rfl, hz⟩
  | failed hpast hreduce =>
      have hproject := hpast.symm.trans hl.replays
      cases hproject
      exact .inr ⟨_, rfl, hreplay.trans hreduce⟩

/-- Edits one by one log their commands, or stop as the replay does. -/
theorem foldlM_applied (hl : h.Logs commands) (more : List Command) :
    (∃ h', more.foldlM EditorHistory.applied h = .ok h' ∧ h'.Logs (commands ++ more)) ∨
      ∃ e, more.foldlM EditorHistory.applied h = .error e ∧
        replay (commands ++ more) = .error e := by
  induction more generalizing h commands with
  | nil => exact .inl ⟨h, rfl, by simpa using hl⟩
  | cons command more ih =>
      rw [List.foldlM_cons]
      obtain ⟨h₁, happlied, hl₁⟩ | ⟨e, happlied, hreplay⟩ := hl.applied command
      · rw [happlied, ← List.singleton_append, ← List.append_assoc]
        exact ih hl₁
      · refine .inr ⟨e, by rw [happlied]; rfl, ?_⟩
        rw [← List.singleton_append, ← List.append_assoc, replay, List.foldlM_append]
        rw [replay] at hreplay
        rw [hreplay]
        rfl

/-- A log has one history. -/
theorem unique (hl : h.Logs commands) (hl' : h'.Logs commands) : h = h' := by
  have hrevisions : h.revisions = h'.revisions := by
    have hlength := hl.stores.length.trans hl'.stores.length.symm
    refine List.ext_getElem? fun i => ?_
    cases hi : h.revisions[i]? with
    | none => rw [List.getElem?_eq_none (by rw [← hlength]; exact List.getElem?_eq_none_iff.mp hi)]
    | some revision =>
        have hlt : i < h'.revisions.length := hlength ▸ (List.getElem?_eq_some_iff.mp hi).1
        have hi' := List.getElem?_eq_getElem hlt
        have hproject := (hl.stores.project hi).symm.trans (hl'.stores.project hi')
        have hhash := (hl.stores.hash hi).symm.trans (hl'.stores.hash hi')
        rw [hi', Option.some.injEq]
        generalize h'.revisions[i] = revision' at hproject hhash
        cases revision
        cases revision'
        cases hproject
        cases hhash
        rfl
  have hcursor := hl.cursor.trans hl'.cursor.symm
  cases h
  cases h'
  cases hrevisions
  cases hcursor
  rfl

/-- The history of a log is that of its commands one by one. -/
theorem foldlM_default (hl : h.Logs commands) :
    commands.foldlM EditorHistory.applied EditorHistory.default = .ok h := by
  obtain ⟨h', happlied, hl'⟩ | ⟨e, -, hreplay⟩ := Logs.default.foldlM_applied commands
  · rw [happlied, hl.unique hl']
  · rw [List.nil_append, hl.replays] at hreplay
    cases hreplay

end Logs

/-- **The history refines an undo zipper**: every run of calls from the
default history is a run of the zipper with the same results, and what the
history shows is the replay and the chain of the past. -/
theorem refines_zipper {calls : List HistoryCall}
    (hrun : Run.Runs Step EditorHistory.default calls h) :
    ∃ z, Run.Runs ZipperStep Zipper.empty calls z ∧ h.Shows z := by
  obtain ⟨z, hz, ht⟩ := hrun.simulate Tracks.default fun ht hcall => ht.step hcall
  exact ⟨z, hz, ht.shows⟩

end EditorHistory

end Refinement

/-! ## a run -/

/-- The track is added, added again in vain, taken back and put back in
force, twice to the end. -/
theorem EditorHistory.refines_zipper_addTrack :
    letI := firstTrackSha256
    ∃ z, Run.Runs ZipperStep Zipper.empty
      [.apply addFirstTrack (.ok firstTrackHash),
        .apply addFirstTrack (.error (.duplicateTrack ⟨Vector.replicate 16 0x2a⟩)),
        .undo true, .undo false, .redo true, .redo false] z ∧
      EditorHistory.Shows ⟨[⟨{ Project.default with
        tracks := (∅ : OrdMap TrackId Track).insert ⟨Vector.replicate 16 0x2a⟩
          ⟨⟨Vector.replicate 16 0x2a⟩, []⟩ }, firstTrackHash⟩], 1⟩ z :=
  letI := firstTrackSha256
  EditorHistory.refines_zipper <|
    .cons rfl <| .cons rfl <| .cons rfl <| .cons rfl <| .cons rfl <| .cons rfl .nil

end StitchEditor
