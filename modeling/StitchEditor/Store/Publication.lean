import Mathlib
import StitchEditor.Store.Archive
import StitchEditor.Store.Replies

/-!
# StitchEditor.Store.Publication

When `archive` is all or nothing.  Up to the rename every failure leaves the
destination alone (`ensures_archive`); what follows the rename can only fail
with the archive in its place.  The archive is the main file only: a log that
stands beside the destination already is replayed over it.
-/

namespace StitchEditor

open Fallible Procedure

/-! ## checks -/

theorem refuse_eq_ok_iff {check : Prop} [Decidable check] {error : StoreError} :
    refuse check error = .ok () ↔ ¬ check := by
  unfold refuse
  split <;> simp_all

theorem maintenanceFault_eq_ok_iff {fault : Option FaultPoint} {point : FaultPoint} :
    maintenanceFault fault point = .ok () ↔ fault ≠ some point := refuse_eq_ok_iff

/-! ## paths beside a path -/

section Suffixes

variable {path : Path} {name : String}

theorem withSuffix_eq (hname : path.components.getLast? = some name) (suffix : String) :
    withSuffix path suffix =
      { path with components := path.components.dropLast ++ [name ++ suffix] } := by
  simp only [withSuffix, hname]

theorem getLast?_withSuffix (hname : path.components.getLast? = some name) (suffix : String) :
    (withSuffix path suffix).components.getLast? = some (name ++ suffix) := by
  rw [withSuffix_eq hname, List.getLast?_concat]

theorem withSuffix_empty (hname : path.components.getLast? = some name) :
    withSuffix path "" = path := by
  rw [withSuffix_eq hname, String.append_empty, List.dropLast_append_getLast? name hname]

theorem withSuffix_withSuffix (hname : path.components.getLast? = some name)
    (suffix more : String) :
    withSuffix (withSuffix path suffix) more = withSuffix path (suffix ++ more) := by
  rw [withSuffix_eq (getLast?_withSuffix hname suffix), withSuffix_eq hname (suffix ++ more),
    withSuffix_eq hname suffix, List.dropLast_concat, String.append_assoc]

theorem withSuffix_inj (hname : path.components.getLast? = some name) {suffix suffix' : String} :
    withSuffix path suffix = withSuffix path suffix' ↔ suffix = suffix' := by
  rw [withSuffix_eq hname, withSuffix_eq hname, Path.mk.injEq, List.append_cancel_left_eq,
    List.cons.injEq, String.append_right_inj]
  simp

end Suffixes

/-! ## the temporary file -/

/-- The path of the temporary file, if the destination has a parent and a
name. -/
def Path.temporary (destination : Path) (env : Env) (files : Files) : Option Path := do
  let parent ← destination.parent
  let name ← destination.fileName
  return parent.join
    (name ++ ".tmp-" ++ toString env.processId ++ "-" ++ toString files.temporaries)

/-- The temporary file stands beside the destination. -/
theorem Path.temporary_eq {destination temporary : Path} {env : Env} {files : Files}
    (h : destination.temporary env files = some temporary) :
    ∃ name, destination.components.getLast? = some name ∧ temporary = withSuffix destination
      (".tmp-" ++ (toString env.processId ++ ("-" ++ toString files.temporaries))) := by
  simp only [Path.temporary, Option.bind_eq_bind, Option.bind_eq_some_iff, Option.pure_def,
    Option.some.injEq] at h
  obtain ⟨parent, hparent, name, hname, rfl⟩ := h
  have hlast : destination.components.getLast? = some name := by
    unfold fileName at hname
    split at hname
    · cases hname
    · next last hlast =>
      split at hname <;> cases hname
      exact hlast
  obtain rfl : { destination with components := destination.components.dropLast } = parent := by
    unfold Path.parent at hparent
    split at hparent
    · cases hparent
    · exact Option.some.inj hparent
  refine ⟨name, hlast, ?_⟩
  simp only [withSuffix_eq hlast, join, String.append_assoc]

theorem ne_temporary {suffix : String} (hsuffix : suffix ∈ "" :: logSuffixes) (text : String) :
    suffix ≠ ".tmp-" ++ text := by
  intro heq
  have hhead := congrArg (fun s => s.toList.head?) heq
  simp only [String.toList_append] at hhead
  simp only [logSuffixes, List.mem_cons, List.not_mem_nil, or_false] at hsuffix
  rcases hsuffix with rfl | rfl | rfl <;> simp at hhead

/-- Neither the destination nor a log of it is the temporary file or a log of
that. -/
theorem Path.temporary_apart {destination temporary : Path} {env : Env} {files : Files}
    (h : destination.temporary env files = some temporary) {suffix : String}
    (hsuffix : suffix ∈ "" :: logSuffixes) :
    withSuffix destination suffix ≠ temporary ∧
      ∀ more ∈ logSuffixes, withSuffix destination suffix ≠ withSuffix temporary more := by
  obtain ⟨name, hname, rfl⟩ := temporary_eq h
  constructor
  · rw [Ne, withSuffix_inj hname]
    exact ne_temporary hsuffix _
  · intro more _
    rw [withSuffix_withSuffix hname, Ne, withSuffix_inj hname, String.append_assoc]
    exact ne_temporary hsuffix _

/-! ## logs beside a database -/

namespace Files

variable {files files' : Files} {path : Path} {name : String} {rows : Database}

/-- Only the logs of the path matter for what is replayed there. -/
theorem replayed_congr (h : ∀ suffix ∈ logSuffixes, files'.entries (withSuffix path suffix) =
    files.entries (withSuffix path suffix)) :
    files'.replayed path rows = files.replayed path rows := by
  simp only [logSuffixes, List.forall_mem_cons] at h
  simp only [replayed, logSuffixes, List.foldlM_cons, List.foldlM_nil, h]

theorem replayed_eq_some
    (h : ∀ suffix ∈ logSuffixes, files.entries (withSuffix path suffix) = none) :
    files.replayed path rows = some rows := by
  simp only [logSuffixes, List.forall_mem_cons] at h
  simp [replayed, logSuffixes, h, File.replay]

theorem withSuffix_ne (hname : path.components.getLast? = some name) {suffix : String}
    (hsuffix : suffix ∈ logSuffixes) : withSuffix path suffix ≠ path := by
  nth_rewrite 2 [← withSuffix_empty hname]
  rw [Ne, withSuffix_inj hname]
  rintro rfl
  revert hsuffix
  decide

theorem create_entries_of_ne {other : Path} (hother : other ≠ path)
    (hlogs : ∀ suffix ∈ logSuffixes, other ≠ withSuffix path suffix) :
    (files.create path rows).entries other = files.entries other := by
  simp only [logSuffixes, List.forall_mem_cons] at hlogs
  simp [create, logSuffixes, put, hother, hlogs]

theorem create_entries_self : (files.create path rows).entries path = some (.database rows) := by
  simp [create, put]

/-- A new database reads as its rows. -/
theorem database_create (hname : path.components.getLast? = some name) :
    (files.create path rows).database path = some rows := by
  rw [database, create_entries_self]
  refine replayed_eq_some fun suffix hsuffix => ?_
  have hne := withSuffix_ne hname hsuffix
  have hjournal : withSuffix path "-journal" ≠ withSuffix path "-wal" := by
    rw [Ne, withSuffix_inj hname]
    decide
  simp only [logSuffixes, List.mem_cons, List.not_mem_nil, or_false] at hsuffix
  rcases hsuffix with rfl | rfl <;> simp [create, logSuffixes, put, hne, hjournal]

/-- A file that is renamed is read with the logs of its new path. -/
theorem database_rename {source target : Path} (hname : target.components.getLast? = some name)
    (hsource : files.entries source = some (.database rows))
    (hapart : ∀ suffix ∈ "" :: logSuffixes, withSuffix target suffix ≠ source) :
    (files.rename source target).entries target = some (.database rows) ∧
      (files.rename source target).database target = files.replayed target rows := by
  rw [List.forall_mem_cons, withSuffix_empty hname] at hapart
  have htarget : (files.rename source target).entries target = some (.database rows) := by
    simp [rename, put, hapart.1, hsource]
  refine ⟨htarget, ?_⟩
  rw [database, htarget]
  refine replayed_congr fun suffix hsuffix => ?_
  simp [rename, put, hapart.2 suffix hsuffix, withSuffix_ne hname hsuffix]

end Files

theorem ensures_archiveTemporaryPath (destination : Path) (env : Env) (files : Files) :
    Ensures (archiveTemporaryPath destination env) files fun result files' =>
      files'.entries = files.entries ∧ ∀ temporary, result = .ok temporary ↔
        destination.temporary env files = some temporary ∧ files.entries temporary = none := by
  unfold archiveTemporaryPath Path.temporary
  cases destination.parent with
  | none => exact .lift ⟨rfl, by simp [raise]⟩
  | some parent =>
      cases destination.fileName with
      | none => exact .lift ⟨rfl, by simp [raise]⟩
      | some name =>
          refine Ensures.get_bind (Ensures.set_bind (Ensures.check_bind refuse_eq_ok_iff ?_ ?_))
          · intro e htaken
            refine ⟨rfl, fun temporary => ?_⟩
            constructor
            · intro hok
              cases hok
            · rintro ⟨⟨⟩, hfree⟩
              rw [hfree] at htaken
              exact absurd (by simp) htaken
          · intro hfree
            refine .pure ⟨rfl, fun temporary => ?_⟩
            simp only [Except.ok.injEq, Option.bind_eq_bind, Option.bind_some, Option.pure_def,
              Option.some.injEq]
            constructor
            · rintro rfl
              exact ⟨rfl, by simpa using hfree⟩
            · exact fun h => h.1

/-- A backup writes nothing but the temporary file and its logs. -/
theorem ensures_backup (rows : Database) (temporary : Path) (env : Env) (files : Files) :
    Ensures (backup rows temporary env) files fun result files' =>
      (result = .ok () ↔ env.verdict .backup = .completes) ∧
      (result = .ok () → files' = files.create temporary rows) ∧
      ∀ path, path ≠ temporary → (∀ suffix ∈ logSuffixes, path ≠ withSuffix temporary suffix) →
        files'.entries path = files.entries path := by
  unfold Ensures backup
  cases hbackup : execute env .backup with
  | ok u =>
      have hverdict := execute_eq_ok_iff.mp hbackup
      exact ⟨iff_of_true rfl hverdict, fun _ => rfl, fun _ => Files.create_entries_of_ne⟩
  | error stop =>
      have hverdict : env.verdict .backup ≠ .completes := fun h => by
        have hok : execute env .backup = .ok () := execute_eq_ok_iff.mpr h
        rw [hok] at hbackup
        cases hbackup
      have hresult : mapErr (.maintenance .archive) (.error stop : Except Stop Unit) ≠ .ok () := by
        rw [Ne, mapErr_eq_ok_iff]
        exact nofun
      refine ⟨iff_of_false hresult hverdict, fun h => absurd h hresult, fun path hpath _ => ?_⟩
      dsimp only
      split
      · simp [Files.put, hpath]
      · rfl

section Publication

variable [Sha256]

/-! ## up to the rename -/

/-- The calls on the way to the rename. -/
def archiveSites (rows : Database) : List Site :=
  [.backup, .openDatabase, .verifyRuntime, .validateSchema, .quickCheck] ++ rows.restoreSites ++
    [.syncArchive, .renameArchive]

/-- Nothing stops the archive before its rename is done. -/
structure State.Publishes (state : State) (destination : Path) (fault : Option FaultPoint)
    (env : Env) (files : Files) : Prop where
  elsewhere : destination ≠ state.databasePath ∧
    destination ≠ withSuffix state.databasePath "-wal" ∧
    destination ≠ withSuffix state.databasePath "-shm"
  temporary : ∃ temporary, destination.temporary env files = some temporary ∧
    files.entries temporary = none
  unfaulted : ∀ point ∈ [FaultPoint.beforeArchive, .duringArchive, .afterArchive],
    fault ≠ some point
  completes : ∀ site ∈ archiveSites state.connection, env.verdict site = .completes

variable {state : State} {destination : Path} {fault : Option FaultPoint} {env : Env}
    {files : Files}

/-- A complete copy of an accepted store passes validation unless a call
fails. -/
theorem validateArchive_eq_ok_iff
    (haccepted : restore state.connection .faultless =
      .ok (state.project, state.head, state.sequence))
    {path : Path} (hcopy : files.database path = some state.connection) :
    validateArchive path state files env = .ok () ↔
      ∀ site ∈ [.openDatabase, .verifyRuntime, .validateSchema, .quickCheck] ++
        state.connection.restoreSites, env.verdict site = .completes := by
  have hrestore : ∀ r, restore state.connection env = .ok r ↔
      (state.project, state.head, state.sequence) = r ∧
        ∀ site ∈ state.connection.restoreSites, env.verdict site = .completes := by
    intro r
    rw [visits_restore state.connection env r, haccepted, Except.ok.injEq]
  simp only [validateArchive, bind_eq_ok_iff, execute_eq_ok_iff, hcopy, hrestore, Prod.exists,
    Prod.mk.injEq, refuse_eq_ok_iff, List.forall_mem_append, List.forall_mem_cons]
  constructor
  · rintro ⟨_, hopen, _, hruntime, _, hschema, _, hcheck, _, _, _, ⟨-, hsites⟩, -⟩
    exact ⟨⟨hopen, hruntime, hschema, hcheck, by simp⟩, hsites⟩
  · rintro ⟨⟨hopen, hruntime, hschema, hcheck, -⟩, hsites⟩
    exact ⟨(), hopen, (), hruntime, (), hschema, (), hcheck, _, _, _, ⟨⟨rfl, rfl, rfl⟩, hsites⟩,
      by simp⟩

/-- **Up to the rename**, a failure leaves the destination free; then the
copy stands there, under the logs of the destination, and only the directory
is left to be synced. -/
theorem ensures_archive
    (haccepted : restore state.connection .faultless =
      .ok (state.project, state.head, state.sequence))
    (hfree : files.entries destination = none) :
    Ensures (archive state destination fault env) files fun result files' =>
      (state.Publishes destination fault env files ∧ result = syncArchiveParent destination env ∧
        files'.entries destination = some (.database state.connection) ∧
        files'.database destination = files.replayed destination state.connection) ∨
      (¬ state.Publishes destination fault env files ∧ (∃ stop, result = .error stop) ∧
        files'.entries destination = none) := by
  refine Ensures.get_bind (Ensures.check_bind refuse_eq_ok_iff ?_ fun helsewhere =>
    Ensures.check_bind maintenanceFault_eq_ok_iff ?_ fun hbefore =>
      (ensures_archiveTemporaryPath destination env files).bind ?_ ?_)
  · intro e hrefused
    refine .inr ⟨fun h => hrefused ?_, ⟨e, rfl⟩, hfree⟩
    obtain ⟨hdatabase, hwal, hshm⟩ := h.elsewhere
    simp [hdatabase, hwal, hshm, hfree]
  · intro e hfault
    exact .inr ⟨fun h => hfault (h.unfaulted _ (by simp)), ⟨e, rfl⟩, hfree⟩
  · rintro e files₁ ⟨hentries, htemporary⟩
    refine .inr ⟨fun h => ?_, ⟨e, rfl⟩, by rw [hentries, hfree]⟩
    obtain ⟨temporary, hpath⟩ := h.temporary
    cases (htemporary temporary).mpr hpath
  rintro temporary files₁ ⟨hentries, htemporary⟩
  have hpath := (htemporary temporary).mp rfl
  obtain ⟨name, hname, hbeside⟩ := Path.temporary_eq hpath.1
  have hcopy : (files₁.create temporary state.connection).database temporary =
      some state.connection := by
    rw [hbeside]
    exact Files.database_create (getLast?_withSuffix hname _)
  -- a backup writes neither the destination nor its logs
  have hkeeps {files₂ : Files} (hkept : ∀ path, path ≠ temporary →
      (∀ more ∈ logSuffixes, path ≠ withSuffix temporary more) →
        files₂.entries path = files₁.entries path) (suffix : String)
      (hsuffix : suffix ∈ "" :: logSuffixes) :
      files₂.entries (withSuffix destination suffix) =
        files.entries (withSuffix destination suffix) := by
    obtain ⟨hne, hlogs⟩ := Path.temporary_apart hpath.1 hsuffix
    rw [hkept _ hne hlogs, hentries]
  have hfree' {files₂ : Files} (hkept : ∀ path, path ≠ temporary →
      (∀ more ∈ logSuffixes, path ≠ withSuffix temporary more) →
        files₂.entries path = files₁.entries path) : files₂.entries destination = none := by
    have hsame := hkeeps hkept "" List.mem_cons_self
    rwa [withSuffix_empty hname, hfree] at hsame
  refine (ensures_backup state.connection temporary env files₁).bind ?_ ?_
  · rintro e files₂ ⟨hbackup, -, hkept⟩
    refine .inr ⟨fun h => ?_, ⟨e, rfl⟩, hfree' hkept⟩
    cases hbackup.mpr (h.completes _ (by simp [archiveSites]))
  rintro _ files₂ ⟨hbackup, hcreates, hkept⟩
  obtain rfl := hcreates rfl
  have hfree₂ := hfree' hkept
  refine Ensures.check_bind maintenanceFault_eq_ok_iff ?_ fun hduring => Ensures.get_bind <|
    Ensures.check_bind (mapErr_eq_ok_iff.trans (validateArchive_eq_ok_iff haccepted hcopy)) ?_
      fun hvalid => Ensures.check_bind (mapErr_eq_ok_iff.trans execute_eq_ok_iff) ?_ fun hsync =>
        Ensures.check_bind maintenanceFault_eq_ok_iff ?_ fun hafter =>
          Ensures.check_bind (mapErr_eq_ok_iff.trans execute_eq_ok_iff) ?_ fun hrename =>
            Ensures.modify_bind (.lift ?_)
  · intro e hfault
    exact .inr ⟨fun h => hfault (h.unfaulted _ (by simp)), ⟨e, rfl⟩, hfree₂⟩
  · intro e hinvalid
    refine .inr ⟨fun h => hinvalid fun site hsite => h.completes site ?_, ⟨e, rfl⟩, hfree₂⟩
    simp only [archiveSites, List.mem_append, List.mem_cons] at hsite ⊢
    tauto
  · intro e hfails
    exact .inr ⟨fun h => hfails (h.completes _ (by simp [archiveSites])), ⟨e, rfl⟩, hfree₂⟩
  · intro e hfault
    exact .inr ⟨fun h => hfault (h.unfaulted _ (by simp)), ⟨e, rfl⟩, hfree₂⟩
  · intro e hfails
    exact .inr ⟨fun h => hfails (h.completes _ (by simp [archiveSites])), ⟨e, rfl⟩, hfree₂⟩
  · obtain ⟨hrenamed, hread⟩ := Files.database_rename hname Files.create_entries_self
      fun suffix hsuffix => (Path.temporary_apart hpath.1 hsuffix).1
    refine .inl ⟨⟨?_, ⟨temporary, hpath⟩, ?_, ?_⟩, rfl, hrenamed, hread.trans ?_⟩
    · simp only [not_or] at helsewhere
      exact ⟨helsewhere.1, helsewhere.2.1, helsewhere.2.2.1⟩
    · simp [hbefore, hduring, hafter]
    · have hcompletes := hbackup.mp rfl
      simp only [archiveSites, List.forall_mem_append, List.forall_mem_cons] at hvalid ⊢
      tauto
    · exact Files.replayed_congr fun suffix hsuffix =>
        hkeeps hkept suffix (List.mem_cons_of_mem _ hsuffix)

/-! ## behind the rename -/

/-- On Unix the directory of the destination cannot be opened, as it is the
empty path of a bare file name or for another reason, or cannot be synced. -/
structure Path.SyncFails (destination : Path) (env : Env) : Prop where
  unix : env.unix
  fails : env.verdict .openParent = .fails ∨ (env.verdict .openParent = .completes ∧
    (destination.parent = some Path.empty ∨ env.verdict .syncParent = .fails))

/-- The directory is synced where it has to be. -/
structure Path.Syncs (destination : Path) (env : Env) : Prop where
  completes : env.unix → env.verdict .openParent = .completes ∧
    destination.parent ≠ some Path.empty ∧ env.verdict .syncParent = .completes

omit [Sha256] in
theorem syncArchiveParent_eq_ok_iff {parent : Path} (hparent : destination.parent = some parent) :
    syncArchiveParent destination env = .ok () ↔ destination.Syncs env := by
  have hsyncs : destination.Syncs env ↔ (env.unix → env.verdict .openParent = .completes ∧
      parent ≠ Path.empty ∧ env.verdict .syncParent = .completes) := by
    rw [Ne, ← Option.some.injEq parent, ← hparent]
    exact ⟨fun h => h.completes, fun h => ⟨h⟩⟩
  rw [hsyncs]
  unfold syncArchiveParent openDirectory
  rw [hparent]
  by_cases hunix : env.unix
  · by_cases hempty : parent = Path.empty <;>
      simp [hunix, hempty, refuse, bind_eq_ok_iff, mapErr_eq_ok_iff, execute_eq_ok_iff]
  · simp [hunix]

omit [Sha256] in
theorem syncArchiveParent_error_iff {parent : Path} (hparent : destination.parent = some parent) :
    (∃ error, syncArchiveParent destination env = .error (.error error)) ↔
      destination.SyncFails env := by
  have hsync : destination.SyncFails env ↔ env.unix ∧ (env.verdict .openParent = .fails ∨
      (env.verdict .openParent = .completes ∧
        (parent = Path.empty ∨ env.verdict .syncParent = .fails))) := by
    rw [← Option.some.injEq parent, ← hparent]
    exact ⟨fun h => ⟨h.unix, h.fails⟩, fun h => ⟨h.1, h.2⟩⟩
  rw [hsync]
  unfold syncArchiveParent openDirectory execute refuse
  rw [hparent]
  by_cases hunix : env.unix
  · cases env.verdict .openParent with
    | completes =>
        by_cases hempty : parent = Path.empty
        · simp [hunix, hempty, mapErr, bind, Except.bind]
        · cases env.verdict .syncParent <;> simp [hunix, hempty, mapErr, bind, Except.bind]
    | fails => simp [hunix, mapErr, bind, Except.bind]
    | crashes => simp [hunix, mapErr, bind, Except.bind]
  · simp [hunix]

omit [Sha256] in
theorem Path.exists_parent {temporary : Path}
    (h : destination.temporary env files = some temporary) :
    ∃ parent, destination.parent = some parent := by
  simp only [Path.temporary, Option.bind_eq_bind, Option.bind_eq_some_iff] at h
  obtain ⟨parent, hparent, -⟩ := h
  exact ⟨parent, hparent⟩

/-! ## all or nothing -/

/-- The rows restore to the project digest, the head and the sequence of the
state, with the same receipts. -/
structure State.Archived (state : State) (rows : Database) : Prop where
  restores : ∃ project, restore rows .faultless = .ok (project, state.head, state.sequence) ∧
    project.semanticDigest = state.project.semanticDigest
  receipts : rows.receipts = state.connection.receipts

/-- What SQLite reads when it replays the logs beside the destination over the
store's rows restores as they do. -/
def State.Spared (state : State) (destination : Path) (files : Files) : Prop :=
  ∃ rows, files.replayed destination state.connection = some rows ∧ state.Archived rows

/-- So it is where no log stands beside the destination. -/
theorem State.spared_of_none
    (haccepted : restore state.connection .faultless =
      .ok (state.project, state.head, state.sequence))
    (h : ∀ suffix ∈ logSuffixes, files.entries (withSuffix destination suffix) = none) :
    state.Spared destination files :=
  ⟨state.connection, Files.replayed_eq_some h, ⟨_, haccepted, rfl⟩, rfl⟩

/-- An error leaves no file at the destination, a success the archive. -/
structure State.AllOrNothing (state : State) (destination : Path) (fault : Option FaultPoint)
    (env : Env) (files : Files) : Prop where
  nothing : ∀ error, (archive state destination fault env files).1 = .error (.error error) →
    (archive state destination fault env files).2.entries destination = none
  all : (archive state destination fault env files).1 = .ok () →
    ∃ rows, (archive state destination fault env files).2.database destination = some rows ∧
      state.Archived rows

/-- **When an archive is all or nothing**: unless it gets past the rename and
then fails to sync the directory, or a log beside the destination makes other
rows of it. -/
theorem archive_all_or_nothing_iff
    (haccepted : restore state.connection .faultless =
      .ok (state.project, state.head, state.sequence))
    (hfree : files.entries destination = none) :
    state.AllOrNothing destination fault env files ↔
      (state.Publishes destination fault env files →
        ¬ destination.SyncFails env ∧
          (destination.Syncs env → state.Spared destination files)) := by
  have hends : Ensures (archive state destination fault env) files _ :=
    ensures_archive haccepted hfree
  unfold Ensures at hends
  obtain ⟨hpublishes, hresult, hcopy, hread⟩ | ⟨hstopped, ⟨stop, hstop⟩, hnone⟩ := hends
  · obtain ⟨temporary, hpath, -⟩ := hpublishes.temporary
    obtain ⟨parent, hparent⟩ := Path.exists_parent hpath
    have hfails : _ ↔ destination.SyncFails env := syncArchiveParent_error_iff hparent
    have hsyncs : _ ↔ destination.Syncs env := syncArchiveParent_eq_ok_iff hparent
    rw [← hresult] at hfails hsyncs
    constructor
    · refine fun hall _ => ⟨fun hsync => ?_, fun hsync => ?_⟩
      · obtain ⟨error, herror⟩ := hfails.mpr hsync
        have hnone := hall.nothing error herror
        rw [hcopy] at hnone
        cases hnone
      · obtain ⟨rows, hrows, harchived⟩ := hall.all (hsyncs.mpr hsync)
        exact ⟨rows, hread.symm.trans hrows, harchived⟩
    · intro hcondition
      obtain ⟨hsync, hspared⟩ := hcondition hpublishes
      refine ⟨fun error herror => absurd (hfails.mp ⟨error, herror⟩) hsync, fun hok => ?_⟩
      obtain ⟨rows, hrows, harchived⟩ := hspared (hsyncs.mp hok)
      exact ⟨rows, hread.trans hrows, harchived⟩
  · refine iff_of_true ?_ fun hpublishes => absurd hpublishes hstopped
    · refine ⟨fun _ _ => hnone, fun hok => ?_⟩
      rw [hstop] at hok
      cases hok

end Publication

section BareName

/-- No files at all. -/
def Files.empty : Files := ⟨fun _ => none, 0⟩

def archivePath : Path := ⟨true, ["archive"]⟩

def barePath : Path := ⟨false, ["archive"]⟩

theorem archive_all_or_nothing_iff_archivePath :
    letI := firstTrackSha256
    let s := (opened firstTrackStore).get isSome_opened_firstTrackStore
    s.AllOrNothing archivePath none .faultless .empty := by
  let _ := firstTrackSha256
  intro s
  have haccepted : restore s.connection .faultless = .ok (s.project, s.head, s.sequence) := by
    decide +kernel
  refine (archive_all_or_nothing_iff haccepted rfl).mpr fun _ => ⟨?_, fun _ => ?_⟩
  · rintro ⟨-, hfails⟩
    revert hfails
    decide
  · exact State.spared_of_none haccepted fun _ _ => rfl

/-- A write-ahead log of an empty store, left behind beside `archivePath`. -/
def Files.staleLog : Files :=
  Files.empty.put (withSuffix archivePath "-wal") (some (.log fun _ => some .empty))

/-- Over a log that was left behind, an archive restores to another store. -/
theorem archive_restores_staleLog :
    letI := firstTrackSha256
    let s := (opened firstTrackStore).get isSome_opened_firstTrackStore
    ¬ s.AllOrNothing archivePath none .faultless .staleLog := by
  let _ := firstTrackSha256
  intro s h
  obtain ⟨rows, hrows, harchived⟩ := h.all (by decide +kernel)
  have hreceipts : ((archive s archivePath none .faultless .staleLog).2.database archivePath).all
      (·.receipts = ∅) := by
    decide +kernel
  rw [hrows] at hreceipts
  have hempty : rows.receipts = ∅ := by simpa using hreceipts
  rw [harchived.receipts] at hempty
  revert hempty
  decide +kernel

/-- The archive stands at a bare file name and `archive` returns an error. -/
theorem archive_publishes_and_fails_barePath :
    letI := firstTrackSha256
    let s := (opened firstTrackStore).get isSome_opened_firstTrackStore
    ¬ s.AllOrNothing barePath none .faultless .empty := by
  let _ := firstTrackSha256
  intro s h
  have hnone := h.nothing (.maintenance .archive) (by decide +kernel)
  have hsome : ((archive s barePath none .faultless .empty).2.entries barePath).isSome := by
    decide +kernel
  rw [hnone] at hsome
  cases hsome

end BareName

end StitchEditor
