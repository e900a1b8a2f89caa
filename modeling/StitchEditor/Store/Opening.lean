import Mathlib
import StitchEditor.Store.Catalog
import StitchEditor.Store.ExactlyOnce

/-!
# StitchEditor.Store.Opening

What an opening does to the file, whichever of its calls fails and wherever the
process dies.

A file is a store, blank, or neither.  An opening leaves a blank file as it is,
but for its journal mode, or makes it a store in one step (`ensures_openState`),
and where nothing fails it succeeds exactly where `Accepts` says (`opens_iff`).

A run from a blank file is one of an empty store (`store_from_blank_file`), and
from a file that is neither, none ever runs (`others_never_open`).  Which of them
a file is goes by the objects that are not named like `sqlite_%`: a table
`sqlitedata` of another program is overlooked, in a blank file and in a store
(`accepts_add`).
-/

namespace StitchEditor

open Fallible Procedure Run

/-! ## files -/

/-- What is compared of an object. -/
def SchemaObject.shape (object : SchemaObject) : String × String × Option String :=
  (object.type, object.name, object.sql.map normalizeSql)

/-- The tables of a store. -/
def storeShapes : List (String × String × Option String) :=
  expectedTables.map fun table => ("table", table.1, some (normalizeSql table.2))

theorem names_storeShapes : storeShapes.map (fun shape => shape.2.1) =
    ["heads", "metadata", "receipts", "revisions", "snapshots"] := rfl

theorem matchesSchema_iff {objects : List SchemaObject} :
    Opening.MatchesSchema objects ↔ objects.map SchemaObject.shape = storeShapes := by
  have hforall : Opening.MatchesSchema objects ↔ List.Forall₂ (fun object table =>
      object.shape = ("table", table.1, some (normalizeSql table.2))) objects expectedTables := by
    simp [Opening.MatchesSchema, List.forall₂_iff_zip, SchemaObject.shape]
  rw [hforall, ← List.forall₂_eq_eq_eq, List.forall₂_map_left_iff, storeShapes,
    List.forall₂_map_right_iff]

/-- **The schema of a store**: these tables, whatever their order. -/
theorem matchesSchema_byName_iff {objects : List SchemaObject} :
    Opening.MatchesSchema (Opening.byName objects) ↔
      (objects.map SchemaObject.shape).Perm storeShapes := by
  rw [matchesSchema_iff]
  have hperm : ((Opening.byName objects).map SchemaObject.shape).Perm
      (objects.map SchemaObject.shape) := (List.perm_insertionSort _ objects).map _
  refine ⟨fun h => h ▸ hperm.symm, fun h => ?_⟩
  have hnames : (storeShapes.map fun shape => shape.2.1).Nodup ∧
      (storeShapes.map fun shape => shape.2.1).Pairwise (· ≤ ·) := by
    rw [names_storeShapes]
    decide +kernel
  have htotal : Std.Total fun a b : SchemaObject => a.name ≤ b.name := ⟨fun _ _ => le_total _ _⟩
  have htrans : IsTrans SchemaObject fun a b => a.name ≤ b.name := ⟨fun _ _ _ => le_trans⟩
  have hsorted : ((Opening.byName objects).map SchemaObject.shape).Pairwise
      fun a b => a.2.1 ≤ b.2.1 :=
    List.pairwise_map.mpr (List.pairwise_insertionSort _ objects)
  refine List.Perm.eq_of_pairwise (fun a b ha hb hle hle' => ?_) hsorted
    (List.pairwise_map.mp hnames.2) (hperm.trans h)
  exact List.inj_on_of_nodup_map hnames.1 ((hperm.trans h).mem_iff.mp ha) hb (le_antisymm hle hle')
namespace Catalog

/-- A database that `open_state` takes for a store. -/
structure IsStore (catalog : Catalog) : Prop where
  numbered : catalog.Numbered
  schema : Opening.MatchesSchema (Opening.byName catalog.visible)
  metadata : catalog.metadata = storeMetadata

/-- A database of another program, as far as the checks see: it has a number or
a table, and the numbers, the tables or the rows of `metadata` are not those of
a store. -/
structure Other (catalog : Catalog) : Prop where
  used : catalog.applicationId ≠ 0 ∨ catalog.userVersion ≠ 0 ∨ catalog.visible ≠ []
  differs : ¬ catalog.Numbered ∨ ¬ (catalog.visible.map SchemaObject.shape).Perm storeShapes ∨
    catalog.metadata ≠ storeMetadata

/-- The database with more objects. -/
def add (catalog : Catalog) (objects : List SchemaObject) : Catalog :=
  { catalog with objects := catalog.objects ++ objects }

/-- In `WAL` mode, where the file can be. -/
def configured (catalog : Catalog) (walAvailable : Bool) : Catalog :=
  { catalog with wal := catalog.wal || walAvailable }

variable {catalog : Catalog} {walAvailable : Bool}

/-- **Three kinds of files**: a store, a blank one, or another one. -/
theorem other_iff : catalog.Other ↔ ¬ catalog.Blank ∧ ¬ catalog.IsStore := by
  have hblank : (catalog.applicationId ≠ 0 ∨ catalog.userVersion ≠ 0 ∨ catalog.visible ≠ []) ↔
      ¬ catalog.Blank := by
    simp only [Blank, List.length_eq_zero_iff]
    tauto
  have hstore : (¬ catalog.Numbered ∨
      ¬ (catalog.visible.map SchemaObject.shape).Perm storeShapes ∨
        catalog.metadata ≠ storeMetadata) ↔ ¬ catalog.IsStore := by
    rw [← matchesSchema_byName_iff, ← not_and_or, ← not_and_or, not_iff_not]
    exact ⟨fun ⟨hnumbered, hschema, hmetadata⟩ => ⟨hnumbered, hschema, hmetadata⟩,
      fun ⟨hnumbered, hschema, hmetadata⟩ => ⟨hnumbered, hschema, hmetadata⟩⟩
  rw [← hblank, ← hstore]
  exact ⟨fun h => ⟨h.used, h.differs⟩, fun h => ⟨h.1, h.2⟩⟩

/-- A table that is seen and is none of a store's. -/
theorem other_of_object {object : SchemaObject} (hobject : object ∈ catalog.objects)
    (hseen : likeSqlite object.name = false) (hforeign : object.shape ∉ storeShapes) :
    catalog.Other := by
  have hvisible : object ∈ catalog.visible := List.mem_filter.mpr ⟨hobject, by simp [hseen]⟩
  refine ⟨.inr (.inr (List.ne_nil_of_mem hvisible)), .inr (.inl fun hperm => ?_)⟩
  exact hforeign (hperm.mem_iff.mp (List.mem_map_of_mem hvisible))

/-! ## what is overlooked -/

variable {objects : List SchemaObject}

theorem visible_add (hoverlooked : ∀ object ∈ objects, likeSqlite object.name) :
    (catalog.add objects).visible = catalog.visible := by
  simpa [visible, add, List.filter_append] using hoverlooked

theorem blank_add (hoverlooked : ∀ object ∈ objects, likeSqlite object.name) :
    (catalog.add objects).Blank ↔ catalog.Blank := by
  simp only [Blank, visible_add hoverlooked]
  rfl

example : (⟨0, 0, false, [⟨"table", "sqlitedata", none⟩], []⟩ : Catalog).Blank := by decide +kernel

theorem isStore_add (hoverlooked : ∀ object ∈ objects, likeSqlite object.name) :
    (catalog.add objects).IsStore ↔ catalog.IsStore := by
  have hvisible : (catalog.add objects).visible = catalog.visible := visible_add hoverlooked
  exact ⟨fun h => ⟨h.numbered, hvisible ▸ h.schema, h.metadata⟩,
    fun h => ⟨h.numbered, hvisible.symm ▸ h.schema, h.metadata⟩⟩

/-! ## kinds of files -/

@[simp] theorem blank_configured :
    (catalog.configured walAvailable).Blank ↔ catalog.Blank := Iff.rfl

@[simp] theorem numbered_configured :
    (catalog.configured walAvailable).Numbered ↔ catalog.Numbered := Iff.rfl

@[simp] theorem isStore_configured :
    (catalog.configured walAvailable).IsStore ↔ catalog.IsStore :=
  ⟨fun h => ⟨h.numbered, h.schema, h.metadata⟩, fun h => ⟨h.numbered, h.schema, h.metadata⟩⟩

theorem configured_configured (walAvailable' : Bool) :
    (catalog.configured walAvailable).configured walAvailable' =
      catalog.configured (walAvailable || walAvailable') := by
  simp [configured, Bool.or_assoc]

@[simp] theorem configured_false : catalog.configured false = catalog := by
  simp [configured]

@[simp] theorem configured_initialized : (catalog.initialized).configured walAvailable =
    (catalog.configured walAvailable).initialized := rfl

theorem likeSqlite_names :
    (["revisions", "receipts", "heads", "snapshots", "metadata"].map likeSqlite =
      [false, false, false, false, false]) ∧
    (["sqlite_autoindex_revisions_1", "sqlite_autoindex_receipts_1", "sqlite_autoindex_heads_1",
      "sqlite_autoindex_snapshots_1", "sqlite_autoindex_metadata_1"].map likeSqlite =
      [true, true, true, true, true]) := by
  decide +kernel

theorem filter_storeObjects : (storeObjects.filter fun object => !likeSqlite object.name) =
    [⟨"table", "revisions", some createRevisions⟩, ⟨"table", "receipts", some createReceipts⟩,
      ⟨"table", "heads", some createHeads⟩, ⟨"table", "snapshots", some createSnapshots⟩,
      ⟨"table", "metadata", some createMetadata⟩] := by
  have hnames := likeSqlite_names
  simp only [List.map_cons, List.map_nil, List.cons.injEq, and_true] at hnames
  simp [storeObjects, createTable, hnames]

/-- The tables of a new store pass their own check. -/
theorem matchesSchema_storeObjects : Opening.MatchesSchema
    (Opening.byName (storeObjects.filter fun object => !likeSqlite object.name)) := by
  have hsorted : Opening.byName (storeObjects.filter fun object => !likeSqlite object.name) =
      [⟨"table", "heads", some createHeads⟩, ⟨"table", "metadata", some createMetadata⟩,
        ⟨"table", "receipts", some createReceipts⟩, ⟨"table", "revisions", some createRevisions⟩,
        ⟨"table", "snapshots", some createSnapshots⟩] := by
    rw [filter_storeObjects]
    simp [Opening.byName, List.insertionSort, List.orderedInsert]
  rw [hsorted]
  simp [Opening.MatchesSchema, expectedTables]

/-- **A blank file becomes a store.** -/
theorem Blank.isStore_initialized (h : catalog.Blank) : catalog.initialized.IsStore := by
  obtain ⟨-, -, hobjects⟩ := h
  rw [List.length_eq_zero_iff, visible] at hobjects
  refine ⟨⟨rfl, rfl⟩, ?_, rfl⟩
  rw [visible, initialized, List.filter_append, hobjects, List.nil_append]
  exact matchesSchema_storeObjects

theorem Blank.not_numbered (h : catalog.Blank) : ¬ catalog.Numbered := by
  rintro ⟨hid, -⟩
  rw [h.1] at hid
  revert hid
  decide

theorem Blank.not_isStore (h : catalog.Blank) : ¬ catalog.IsStore := fun hstore =>
  h.not_numbered hstore.numbered

end Catalog

namespace StoreFile

def configured (file : StoreFile) (walAvailable : Bool) : StoreFile :=
  { file with catalog := file.catalog.configured walAvailable }

theorem configured_configured (file : StoreFile) (walAvailable walAvailable' : Bool) :
    (file.configured walAvailable).configured walAvailable' =
      file.configured (walAvailable || walAvailable') := by
  simp [configured, Catalog.configured_configured]

@[simp] theorem configured_false (file : StoreFile) : file.configured false = file := by
  simp [configured]

/-- The store in a file once it is opened. -/
def prepared (file : StoreFile) (walAvailable : Bool) : StoreFile :=
  if file.catalog.Blank then ⟨(file.catalog.configured walAvailable).initialized, .empty⟩
  else file.configured walAvailable

end StoreFile

namespace Opening

/-- What an opening may leave of a file. -/
inductive Leaves (walAvailable : Bool) (file : StoreFile) : StoreFile → Prop where
  | untouched : Leaves walAvailable file file
  | configured (h : file.catalog.Blank ∨ file.catalog.Numbered) :
      Leaves walAvailable file (file.configured walAvailable)
  | initialized (h : file.catalog.Blank) :
      Leaves walAvailable file (file.prepared walAvailable)

/-! ## steps -/

section Steps

variable {env : OpenEnv} {α : Type} {file : StoreFile} {connection : Connection}

/-- No call fails, and the process does not die. -/
structure OpenEnv.Quiet (env : OpenEnv) : Prop where
  opening : ∀ site, env.verdict site = .completes
  restoring : env.restoring = .faultless

theorem attempt_of_quiet (h : env.Quiet) (site : OpenSite) : attempt env site = .ok () := by
  simp only [attempt, h.opening site]

@[simp] theorem refuse_not_eq_ok_iff {check : Prop} [Decidable check] {error : StoreError} :
    refuse (¬ check) error = .ok () ↔ check := by
  unfold refuse
  split <;> simp_all

theorem verifyRuntime_eq_ok (h : verifyRuntime env = .ok ()) : env.runtime.Verified := by
  simp only [verifyRuntime, bind_eq_ok_iff, refuse_not_eq_ok_iff] at h
  obtain ⟨_, -, _, -, _, -, h⟩ := h
  exact h

theorem validateSchema_eq_ok {catalog : Catalog} (h : validateSchema catalog env = .ok ()) :
    MatchesSchema (byName catalog.visible) ∧ catalog.metadata = storeMetadata := by
  simp only [validateSchema, bind_eq_ok_iff] at h
  obtain ⟨_, -, _, hschema, _, -, hmetadata⟩ := h
  exact ⟨refuse_not_eq_ok_iff.mp hschema, refuse_not_eq_ok_iff.mp hmetadata⟩

theorem validateConnection_eq_ok (h : validateConnection connection env = .ok ()) :
    connection.file.catalog.wal ∧ env.quickCheck = "ok" ∧ env.foreignKeyCheck = none := by
  simp only [validateConnection, bind_eq_ok_iff] at h
  obtain ⟨_, -, _, -, _, -, _, hsettings, _, -, _, -, hchecks⟩ := h
  unfold refuse at hsettings hchecks
  simp_all

/-- A call that may fail. -/
theorem ensures_attempt_bind {f : Unit → Proc Stop Connection α} {site : OpenSite}
    {Q : Except Stop α → Connection → Prop} (herror : ∀ stop, Q (.error stop) connection)
    (hok : Ensures (f ()) connection Q) : Ensures (liftM (attempt env site) >>= f) connection Q :=
  .lift_bind (fun stop _ => herror stop) fun _ _ => hok

/-- A call that completes. -/
theorem ensures_ok_bind {β : Type} {r : Except Stop β} {b : β} {f : β → Proc Stop Connection α}
    {Q : Except Stop α → Connection → Prop} (hr : r = .ok b) (h : Ensures (f b) connection Q) :
    Ensures (liftM r >>= f) connection Q := by
  subst hr
  exact .ok_bind h

theorem refuse_of_not {check : Prop} [Decidable check] {error : StoreError} (h : ¬ check) :
    refuse check error = .ok () := if_neg h

theorem verifyRuntime_of_quiet (hquiet : env.Quiet) (h : env.runtime.Verified) :
    verifyRuntime env = .ok () := by
  simp only [verifyRuntime, attempt_of_quiet hquiet, refuse_of_not (not_not.mpr h)]
  rfl

theorem validateSchema_of_quiet (hquiet : env.Quiet) {catalog : Catalog} (h : catalog.IsStore) :
    validateSchema catalog env = .ok () := by
  simp only [validateSchema, attempt_of_quiet hquiet, refuse_of_not (not_not.mpr h.schema),
    refuse_of_not (not_not.mpr h.metadata)]
  rfl

theorem validateConnection_of_quiet (hquiet : env.Quiet) (hwal : connection.file.catalog.wal)
    (hquick : env.quickCheck = "ok") (hkeys : env.foreignKeyCheck = none) :
    validateConnection (setSettings connection) env = .ok () := by
  have hsettings : ¬ (¬ (setSettings connection).file.catalog.wal ∨
      (setSettings connection).synchronous ≠ 2 ∨
      (setSettings connection).walAutocheckpoint ≠ walAutocheckpointPages) := by
    simp [setSettings, hwal, walAutocheckpointPages]
  have hchecks : ¬ (env.quickCheck ≠ "ok" ∨ env.foreignKeyCheck.isSome) := by simp [hquick, hkeys]
  simp only [validateConnection, attempt_of_quiet hquiet, refuse_of_not hsettings,
    refuse_of_not hchecks]
  rfl

theorem ensures_configureConnection_of_quiet (hquiet : env.Quiet) :
    Ensures (configureConnection env) connection fun result connection' =>
      result = .ok () ∧ connection' = setSettings (setJournalMode env connection) := by
  refine ensures_ok_bind (attempt_of_quiet hquiet _) (.modify_bind ?_)
  exact ensures_ok_bind (attempt_of_quiet hquiet _) ⟨rfl, rfl⟩

theorem ensures_initializeStore_of_quiet (hquiet : env.Quiet) :
    Ensures (initializeStore env) connection fun result _ => result = .ok () := by
  refine ensures_ok_bind (attempt_of_quiet hquiet _) (.modify_bind ?_)
  refine ensures_ok_bind (attempt_of_quiet hquiet _) (.modify_bind ?_)
  refine ensures_ok_bind (attempt_of_quiet hquiet _) ?_
  refine ensures_ok_bind (attempt_of_quiet hquiet _) ?_
  refine ensures_ok_bind (attempt_of_quiet hquiet _) ?_
  exact ensures_ok_bind (attempt_of_quiet hquiet _) rfl

/-- A blank file stays one until it is a store. -/
theorem ensures_initializeStore (h : connection.file.catalog.Blank) :
    Ensures (initializeStore env) connection fun result connection' =>
      Leaves env.walAvailable connection.file connection'.file ∧
        (result = .ok () → connection'.file = connection.file.prepared env.walAvailable) := by
  have hconfigured : Leaves env.walAvailable connection.file
      (setJournalMode env connection).file := .configured (.inl h)
  refine ensures_attempt_bind (fun _ => ⟨.untouched, by simp⟩) (.modify_bind ?_)
  refine ensures_attempt_bind (fun _ => ⟨hconfigured, by simp⟩) (.modify_bind ?_)
  refine ensures_attempt_bind (fun _ => ⟨hconfigured, by simp⟩) ?_
  refine ensures_attempt_bind (fun _ => ⟨hconfigured, by simp⟩) ?_
  refine ensures_attempt_bind (fun _ => ⟨hconfigured, by simp⟩) ?_
  refine ensures_attempt_bind (fun _ => ⟨hconfigured, by simp⟩) ?_
  have hprepared : ⟨(setJournalMode env connection).file.catalog.initialized, .empty⟩ =
      connection.file.prepared env.walAvailable := by
    rw [StoreFile.prepared, if_pos h]
    rfl
  refine ⟨?_, fun _ => hprepared⟩
  have hleaves : Leaves env.walAvailable connection.file
    (connection.file.prepared env.walAvailable) := .initialized h
  rwa [← hprepared] at hleaves

theorem ensures_configureConnection : Ensures (configureConnection env) connection
    fun result connection' => (connection'.file = connection.file ∨
        connection'.file = connection.file.configured env.walAvailable) ∧
      (result = .ok () → connection' = setSettings (setJournalMode env connection)) := by
  refine ensures_attempt_bind (fun _ => ⟨.inl rfl, by simp⟩) (.modify_bind ?_)
  exact ensures_attempt_bind (fun _ => ⟨.inr rfl, by simp⟩) ⟨.inr rfl, fun _ => rfl⟩

end Steps

/-! ## an opening -/

section Opening

variable [Sha256]

/-- The linked SQLite is the right one, and has nothing against the file. -/
structure Usable (env : OpenEnv) (file : StoreFile) : Prop where
  verified : env.runtime.Verified
  wal : file.catalog.wal ∨ env.walAvailable
  quickCheck : env.quickCheck = "ok"
  foreignKeyCheck : env.foreignKeyCheck = none

/-- What it takes to open a file. -/
structure Accepts (env : OpenEnv) (file : StoreFile) : Prop extends Usable env file where
  recognized : file.catalog.Blank ∨ file.catalog.IsStore
  restores : ∃ commands, (file.prepared env.walAvailable).rows.Holds commands

variable {env : OpenEnv} {file : StoreFile} {path : Path}

omit [Sha256] in
theorem prepared_of_not_blank {walAvailable : Bool} (h : ¬ file.catalog.Blank) :
    file.prepared walAvailable = file.configured walAvailable := if_neg h

omit [Sha256] in
theorem wal_prepared {walAvailable : Bool} :
    (file.prepared walAvailable).catalog.wal = (file.catalog.wal || walAvailable) := by
  unfold StoreFile.prepared
  split <;> rfl

omit [Sha256] in
/-- The first part of an opening: the file is a store, as far as can be told by
its numbers. -/
theorem ensures_recognize : Ensures (recognize env) (.to file) fun result connection =>
    Leaves env.walAvailable file connection.file ∧
      (result = .ok () → (file.catalog.Blank ∨ file.catalog.Numbered) ∧
        connection.file.configured env.walAvailable = file.prepared env.walAvailable) := by
  refine .get_bind ?_
  by_cases hblank : (Connection.to file).file.catalog.Blank
  · rw [if_pos hblank]
    refine (ensures_initializeStore hblank).mono fun result connection h => ⟨h.1, fun hok => ?_⟩
    rw [h.2 hok, Connection.file_to]
    refine ⟨.inl hblank, ?_⟩
    rw [Connection.file_to] at hblank
    rw [StoreFile.prepared, if_pos hblank]
    simp [StoreFile.configured, Catalog.configured_configured]
  · rw [if_neg hblank]
    refine ⟨.untouched, fun hok => ?_⟩
    have hnumbered := refuse_not_eq_ok_iff.mp hok
    exact ⟨.inr hnumbered, (prepared_of_not_blank hblank).symm⟩

omit [Sha256] in
/-- What an opening leaves where the file is configured. -/
theorem Leaves.configure {file' : StoreFile} (h : Leaves env.walAvailable file file')
    (hknown : file.catalog.Blank ∨ file.catalog.Numbered) :
    Leaves env.walAvailable file (file'.configured env.walAvailable) := by
  cases h with
  | untouched => exact .configured hknown
  | configured h =>
      have hsame : (file.configured env.walAvailable).configured env.walAvailable =
          file.configured env.walAvailable := by
        rw [StoreFile.configured_configured, Bool.or_self]
      rw [hsame]
      exact .configured h
  | initialized h =>
      have hsame : (file.prepared env.walAvailable).configured env.walAvailable =
          file.prepared env.walAvailable := by
        rw [StoreFile.prepared, if_pos h]
        simp [StoreFile.configured, Catalog.configured_configured]
      rw [hsame]
      exact .initialized h

omit [Sha256] in
/-- The rows that are read go by what the checks see. -/
theorem rows_prepared_add {catalog : Catalog} {rows : Database} {objects : List SchemaObject}
    (hoverlooked : ∀ object ∈ objects, likeSqlite object.name) (walAvailable : Bool) :
    (StoreFile.prepared ⟨catalog.add objects, rows⟩ walAvailable).rows =
      (StoreFile.prepared ⟨catalog, rows⟩ walAvailable).rows := by
  by_cases hblank : catalog.Blank
  · rw [StoreFile.prepared, StoreFile.prepared, if_pos hblank,
      if_pos ((Catalog.blank_add hoverlooked).mpr hblank)]
  · rw [StoreFile.prepared, StoreFile.prepared, if_neg hblank,
      if_neg ((Catalog.blank_add hoverlooked).not.mpr hblank)]
    rfl

/-- **What is overlooked** changes nothing: a table `sqlitedata` of another
program does not keep a file from being opened. -/
theorem accepts_add {catalog : Catalog} {rows : Database} {objects : List SchemaObject}
    (hoverlooked : ∀ object ∈ objects, likeSqlite object.name) :
    Accepts env ⟨catalog.add objects, rows⟩ ↔ Accepts env ⟨catalog, rows⟩ := by
  have hkind : (catalog.add objects).Blank ∨ (catalog.add objects).IsStore ↔
      catalog.Blank ∨ catalog.IsStore :=
    or_congr (Catalog.blank_add hoverlooked) (Catalog.isStore_add hoverlooked)
  have hrows : (StoreFile.prepared ⟨catalog.add objects, rows⟩ env.walAvailable).rows =
      (StoreFile.prepared ⟨catalog, rows⟩ env.walAvailable).rows :=
    rows_prepared_add hoverlooked env.walAvailable
  constructor
  · rintro ⟨⟨hverified, hwal, hquick, hkeys⟩, hrecognized, hrestores⟩
    exact ⟨⟨hverified, hwal, hquick, hkeys⟩, hkind.mp hrecognized, hrows ▸ hrestores⟩
  · rintro ⟨⟨hverified, hwal, hquick, hkeys⟩, hrecognized, hrestores⟩
    exact ⟨⟨hverified, hwal, hquick, hkeys⟩, hkind.mpr hrecognized, hrows.symm ▸ hrestores⟩

/-- The project of a store that was opened. -/
structure Opened (path : Path) (env : OpenEnv) (file : StoreFile) (state : State)
    (file' : StoreFile) : Prop where
  accepts : Accepts env file
  left : file' = file.prepared env.walAvailable
  state : StitchEditor.openState path file'.rows .faultless = .ok state

/-- **An opening.** -/
theorem ensures_openState : Ensures (openState path env) (.to file) fun result connection =>
    Leaves env.walAvailable file connection.file ∧
      ∀ state, result = .ok state → Opened path env file state connection.file := by
  have huntouched : ∀ stop : Stop, Leaves env.walAvailable file (Connection.to file).file ∧
      ∀ state, (.error stop : Except Stop State) = .ok state →
        Opened path env file state (Connection.to file).file := fun _ => ⟨.untouched, by simp⟩
  refine ensures_attempt_bind huntouched (.lift_bind (fun stop _ => huntouched stop) ?_)
  intro _ hverified
  have hverified := verifyRuntime_eq_ok hverified
  refine ensures_attempt_bind huntouched (ensures_attempt_bind huntouched
    (ensures_attempt_bind huntouched (ensures_recognize.bind ?_ ?_)))
  · exact fun stop connection h => ⟨h.1, by simp⟩
  · intro _ connection ⟨hleaves, hok⟩
    obtain ⟨hknown, hprepared⟩ := hok rfl
    refine ensures_configureConnection.bind ?_ ?_
    · intro stop connection' ⟨hfile, _⟩
      refine ⟨?_, by simp⟩
      obtain hfile | hfile := hfile
      · exact hfile ▸ hleaves
      · exact hfile ▸ hleaves.configure hknown
    · intro _ connection' ⟨_, hok⟩
      have hconfigured := hok rfl
      have hfile : connection'.file = file.prepared env.walAvailable := by
        rw [hconfigured, ← hprepared]
        rfl
      have hleft : Leaves env.walAvailable file connection'.file := by
        rw [hfile, ← hprepared]
        exact hleaves.configure hknown
      refine .get_bind (.lift_bind (fun stop _ => ⟨hleft, by simp⟩) ?_)
      intro _ hschema
      obtain ⟨hschema, hmetadata⟩ := validateSchema_eq_ok hschema
      refine .lift_bind (fun stop _ => ⟨hleft, by simp⟩) ?_
      intro _ hconnection
      obtain ⟨hwal, hquick, hkeys⟩ := validateConnection_eq_ok hconnection
      refine .lift_bind (fun stop _ => ⟨hleft, by simp⟩) ?_
      intro (project, head, sequence) hrestore
      refine .pure ⟨hleft, fun state hstate => ?_⟩
      cases hstate
      have hrestore := (interruptible_restore connection'.file.rows).eq_ok hrestore
      obtain ⟨commands, hholds, -⟩ := restore_eq_ok_iff.mp hrestore
      rw [hfile] at hschema hmetadata hwal hholds
      rw [wal_prepared, Bool.or_eq_true] at hwal
      refine ⟨⟨⟨hverified, hwal, hquick, hkeys⟩, ?_, commands, hholds⟩, hfile, ?_⟩
      · obtain hblank | hnumbered := hknown
        · exact .inl hblank
        · right
          rw [prepared_of_not_blank
            fun hblank => hblank.not_numbered hnumbered] at hschema hmetadata
          exact ⟨hnumbered, hschema, hmetadata⟩
      · rw [openState_faultless, hrestore]
        rfl

omit [Sha256] in
theorem ensures_recognize_of_quiet (hquiet : env.Quiet)
    (hknown : file.catalog.Blank ∨ file.catalog.IsStore) :
    Ensures (recognize env) (.to file) fun result _ => result = .ok () := by
  unfold recognize
  refine .get_bind ?_
  by_cases hblank : (Connection.to file).file.catalog.Blank
  · rw [if_pos hblank]
    exact ensures_initializeStore_of_quiet hquiet
  · rw [if_neg hblank]
    have hstore := hknown.resolve_left hblank
    exact refuse_of_not (not_not.mpr hstore.numbered)

omit [Sha256] in
theorem isStore_prepared {walAvailable : Bool}
    (hknown : file.catalog.Blank ∨ file.catalog.IsStore) :
    (file.prepared walAvailable).catalog.IsStore := by
  unfold StoreFile.prepared
  split
  · next hblank => exact Catalog.Blank.isStore_initialized (Catalog.blank_configured.mpr hblank)
  · next hblank => exact Catalog.isStore_configured.mpr (hknown.resolve_left hblank)

/-- **Where nothing fails** a file is opened that meets the conditions. -/
theorem ensures_openState_of_quiet (path : Path) (hquiet : env.Quiet)
    (haccepts : Accepts env file) :
    Ensures (openState path env) (.to file) fun result connection =>
      ∃ state, result = .ok state ∧ Opened path env file state connection.file := by
  have hsuccess : Ensures (openState path env) (.to file) fun result _ =>
      ∃ state, result = .ok state := by
    refine ensures_ok_bind (attempt_of_quiet hquiet _) ?_
    refine ensures_ok_bind (verifyRuntime_of_quiet hquiet haccepts.verified) ?_
    refine ensures_ok_bind (attempt_of_quiet hquiet _) (ensures_ok_bind (attempt_of_quiet hquiet _)
      (ensures_ok_bind (attempt_of_quiet hquiet _) ?_))
    have hrecognize := ensures_recognize_of_quiet hquiet haccepts.recognized
    refine Ensures.bind (P := fun result connection => result = .ok () ∧
      connection.file.configured env.walAvailable = file.prepared env.walAvailable)
      ⟨hrecognize, (ensures_recognize.2 hrecognize).2⟩ (fun _ _ h => by simp at h) ?_
    intro _ connection ⟨_, hprepared⟩
    refine (ensures_configureConnection_of_quiet hquiet).bind (fun _ _ h => by simp at h) ?_
    intro _ connection' ⟨_, hconnection⟩
    have hfile : connection'.file = file.prepared env.walAvailable := by
      rw [hconnection, ← hprepared]
      rfl
    have hstore : (file.prepared env.walAvailable).catalog.IsStore :=
      isStore_prepared haccepts.recognized
    have hwal : (file.prepared env.walAvailable).catalog.wal := by
      simpa [wal_prepared] using haccepts.wal
    obtain ⟨commands, hholds⟩ := haccepts.restores
    obtain ⟨project, hreplay⟩ := hholds.replays
    have hrestore := restore_eq_ok_iff.mpr ⟨commands, hholds, hreplay, rfl, rfl⟩
    rw [← hfile] at hstore hwal hrestore
    rw [← hquiet.restoring] at hrestore
    have hvalidate : validateConnection connection' env = .ok () := by
      rw [hconnection] at hwal ⊢
      exact validateConnection_of_quiet hquiet hwal haccepts.quickCheck haccepts.foreignKeyCheck
    exact .get_bind (ensures_ok_bind (validateSchema_of_quiet hquiet hstore)
      (ensures_ok_bind hvalidate (ensures_ok_bind hrestore ⟨_, rfl⟩)))
  exact hsuccess.imp fun state hstate => ⟨hstate, ensures_openState.2 state hstate⟩

/-- **What an opening leaves.** -/
theorem leaves_openFile (path : Path) (env : OpenEnv) (file : StoreFile) :
    Leaves env.walAvailable file (openFile path env file).2 := ensures_openState.1

theorem opened_of_openFile {state : State} {file' : StoreFile}
    (h : openFile path env file = (.ok state, file')) : Opened path env file state file' := by
  obtain ⟨hstate, rfl⟩ := Prod.mk.inj h
  exact ensures_openState.2 state hstate

theorem exists_openFile (hquiet : env.Quiet) (path : Path) (haccepts : Accepts env file) :
    ∃ state, openFile path env file = (.ok state, file.prepared env.walAvailable) ∧
      StitchEditor.openState path (file.prepared env.walAvailable).rows .faultless = .ok state := by
  obtain ⟨state, hstate, hopened⟩ := ensures_openState_of_quiet path hquiet haccepts
  exact ⟨state, Prod.ext hstate hopened.left, hopened.left ▸ hopened.state⟩

/-- **Where nothing fails**, files are opened exactly where the conditions
hold, with the project that is in them.  The tables that are not named like
`sqlite_%` are none then, or exactly the five of a store. -/
theorem opens_iff (hquiet : env.Quiet) (path : Path) (file file' : StoreFile) (state : State) :
    openFile path env file = (.ok state, file') ↔ Opened path env file state file' := by
  constructor
  · exact opened_of_openFile
  · intro hopened
    obtain ⟨state', hopen, hstate'⟩ := exists_openFile hquiet path hopened.accepts
    have hstate := hopened.state
    rw [hopened.left, hstate'] at hstate
    cases hstate
    rw [hopen, hopened.left]

end Opening

/-! ## runs -/

/-- A running worker and what else is in its file, or the file. -/
inductive FileNode where
  | running (world : World) (catalog : Catalog)
  | down (file : StoreFile) (files : Files)

inductive FileEvent where
  | message (work : Work) (env : Env)
  | crash
  | reopen (path : Path) (env : OpenEnv)

namespace FileNode

/-- The node without what else is in the file. -/
def node : FileNode → Node
  | .running world _ => .running world
  | .down file files => .down file.rows files

def catalog : FileNode → Catalog
  | .running _ catalog => catalog
  | .down file _ => file.catalog

def ofNode (catalog : Catalog) : Node → FileNode
  | .running world => .running world catalog
  | .down rows files => .down ⟨catalog, rows⟩ files

@[simp] theorem node_ofNode (catalog : Catalog) (node : Node) :
    (ofNode catalog node).node = node := by
  cases node <;> rfl

@[simp] theorem catalog_ofNode (catalog : Catalog) (node : Node) :
    (ofNode catalog node).catalog = catalog := by
  cases node <;> rfl

/-- What is in a file that was blank once. -/
inductive Sound : FileNode → Prop where
  | blank {files : Files} {catalog : Catalog} (h : catalog.Blank) :
      Sound (.down ⟨catalog, .empty⟩ files)
  | store {node : FileNode} (h : node.catalog.IsStore) : Sound node

/-- How an event shows of the rows. -/
inductive Shows : FileEvent → Event → Prop where
  | message (work : Work) (env : Env) : Shows (.message work env) (.message work env)
  | crash : Shows .crash .crash
  | reopen (path : Path) (env : OpenEnv) (env' : Env) :
      Shows (.reopen path env) (.reopen path env')

section Sound

variable {files : Files} {file file' : StoreFile} {walAvailable : Bool}

/-- A blank file has no rows. -/
theorem Sound.rows_eq_empty (h : Sound (.down file files)) (hblank : file.catalog.Blank) :
    file.rows = .empty := by
  cases h with
  | blank _ => rfl
  | store hstore => exact absurd hstore hblank.not_isStore

theorem Sound.rows_prepared (h : Sound (.down file files)) (walAvailable : Bool) :
    (file.prepared walAvailable).rows = file.rows := by
  unfold StoreFile.prepared
  split
  · next hblank => exact (h.rows_eq_empty hblank).symm
  · rfl

theorem Sound.recognized (h : Sound (.down file files)) :
    file.catalog.Blank ∨ file.catalog.IsStore := by
  cases h with
  | blank hblank => exact .inl hblank
  | store hstore => exact .inr hstore

/-- An opening that is cut short. -/
theorem Sound.leaves (h : Sound (.down file files)) (hleaves : Leaves walAvailable file file') :
    Sound (.down file' files) ∧ file'.rows = file.rows := by
  cases hleaves with
  | untouched => exact ⟨h, rfl⟩
  | configured _ =>
      refine ⟨?_, rfl⟩
      cases h with
      | blank hblank => exact .blank (Catalog.blank_configured.mpr hblank)
      | store hstore => exact .store (Catalog.isStore_configured.mpr hstore)
  | initialized hblank => exact ⟨.store (isStore_prepared (.inl hblank)), h.rows_prepared _⟩

end Sound

section Runs

variable [Sha256]

/-- Messages leave what else is in the file alone. -/
def step (node : FileNode) (event : FileEvent) : Option FileNode :=
  match node, event with
  | .running world catalog, .message work env =>
      ((Node.running world).step (.message work env)).map (ofNode catalog)
  | .running world catalog, .crash => some (ofNode catalog world.exit)
  | .down file files, .reopen path env =>
      match openFile path env file with
      | (.ok state, file') =>
          some (.running ⟨state, { files with temporaries := 0 }, none⟩ file'.catalog)
      | (.error _, file') => some (.down file' files)
  | _, _ => none

def Step (node : FileNode) (event : FileEvent) (node' : FileNode) : Prop :=
  node.step event = some node'

variable {node node' : FileNode} {event : FileEvent} {events : List FileEvent} {files : Files}
  {file : StoreFile} {catalog : Catalog}

/-- An environment in which nothing is opened. -/
theorem openState_fails (path : Path) (rows : Database) :
    StitchEditor.openState path rows { Env.faultless with verdict := fun _ => .fails } =
      .error (.error (.sql .failed)) := rfl

/-- **An opening** of a file is one of its rows. -/
theorem Sound.reopen (h : Sound (.down file files)) {path : Path} {env : OpenEnv}
    (hstep : Step (.down file files) (.reopen path env) node') :
    Sound node' ∧ ∃ env', (Node.down file.rows files).Step (.reopen path env') node'.node := by
  simp only [Step, step] at hstep
  split at hstep
  · next state file' hopen =>
    cases hstep
    have hopened := opened_of_openFile hopen
    have hstate := hopened.state
    rw [hopened.left, h.rows_prepared] at hstate
    refine ⟨.store ?_, .faultless, ?_⟩
    · rw [hopened.left]
      exact isStore_prepared hopened.accepts.recognized
    · simp only [Node.Step, Node.step, hstate]
      rfl
  · next stop file' hopen =>
    cases hstep
    have hleaves := leaves_openFile path env file
    rw [hopen] at hleaves
    obtain ⟨hsound, hrows⟩ := h.leaves hleaves
    refine ⟨hsound, { Env.faultless with verdict := fun _ => .fails }, ?_⟩
    simp only [Node.Step, Node.step, openState_fails]
    rw [node, hrows]

/-- **One event** of a file is one of its rows. -/
theorem Sound.step (h : Sound node) (hstep : Step node event node') :
    Sound node' ∧ ∃ event', Shows event event' ∧ node.node.Step event' node'.node := by
  cases node with
  | running world catalog =>
      have hstore : catalog.IsStore := by
        cases h with
        | store hstore => exact hstore
      cases event with
      | message work env =>
          obtain ⟨next, hnext, rfl⟩ := Option.map_eq_some_iff.mp hstep
          refine ⟨.store (by rwa [catalog_ofNode]), _, .message work env, ?_⟩
          rwa [node_ofNode]
      | crash =>
          cases hstep
          exact ⟨.store hstore, _, .crash, rfl⟩
      | reopen path env => contradiction
  | down file files =>
      cases event with
      | message work env => contradiction
      | crash => contradiction
      | reopen path env =>
          obtain ⟨hsound, env', hnode⟩ := h.reopen hstep
          exact ⟨hsound, _, .reopen path env env', hnode⟩

/-- **A run** of a file that was blank is one of an empty store. -/
theorem sound_of_runs (hblank : catalog.Blank)
    (hrun : Runs Step (.down ⟨catalog, .empty⟩ files) events node) :
    Sound node ∧ ∃ events', List.Forall₂ Shows events events' ∧
      Runs Node.Step (.down .empty files) events' node.node := by
  induction hrun with
  | nil => exact ⟨.blank hblank, [], .nil, .nil⟩
  | snoc _ hstep ih =>
      obtain ⟨hsound, events', hshows, hrun⟩ := ih
      obtain ⟨hsound', event', hshows', hstep'⟩ := hsound.step hstep
      exact ⟨hsound', events' ++ [event'], List.rel_append hshows (.cons hshows' .nil),
        hrun.snoc hstep'⟩

/-- **A blank file becomes a store**, in one step, and is one in every process
after that: whichever openings fail or die, its rows are those of an empty store
that was opened first, and it opens again. -/
theorem store_from_blank_file (hblank : catalog.Blank)
    (hrun : Runs Step (.down ⟨catalog, .empty⟩ files) events node) :
    Sound node ∧
    (∃ events', List.Forall₂ Shows events events' ∧
      Runs Node.Step (.down .empty files) events' node.node) ∧
    ∀ file files', node = .down file files' → ∀ path env, env.Quiet → Usable env file →
      ∃ state, openFile path env file = (.ok state, file.prepared env.walAvailable) ∧
        StitchEditor.openState path file.rows .faultless = .ok state := by
  obtain ⟨hsound, events', hshows, hnode⟩ := sound_of_runs hblank hrun
  refine ⟨hsound, ⟨events', hshows, hnode⟩, ?_⟩
  rintro file files' rfl path env hquiet husable
  have hempty : (Node.down .empty files).Tracks [] := holds_empty
  obtain ⟨commands, -, hholds⟩ := hempty.run hnode
  have hrows := hsound.rows_prepared env.walAvailable
  have haccepts : Accepts env file := ⟨husable, hsound.recognized, commands, hrows ▸ hholds⟩
  obtain ⟨state, hopen, hstate⟩ := exists_openFile hquiet path haccepts
  exact ⟨state, hopen, hrows ▸ hstate⟩

/-- An opening of a file that is no store. -/
theorem step_other (hblank : ¬ file.catalog.Blank) (hstore : ¬ file.catalog.IsStore)
    (hstep : Step (.down file files) event node) :
    ∃ walAvailable, node = .down (file.configured walAvailable) files ∧
      (¬ file.catalog.Numbered → walAvailable = false) := by
  cases event with
  | message work env => contradiction
  | crash => contradiction
  | reopen path env =>
      simp only [Step, step] at hstep
      split at hstep
      · next state file' hopen =>
        obtain hknown | hknown := (opened_of_openFile hopen).accepts.recognized
        · exact absurd hknown hblank
        · exact absurd hknown hstore
      · next stop file' hopen =>
        cases hstep
        have hleaves := leaves_openFile path env file
        rw [hopen] at hleaves
        cases hleaves with
        | untouched => exact ⟨false, by rw [StoreFile.configured_false], fun _ => rfl⟩
        | configured hknown =>
            exact ⟨env.walAvailable, rfl, fun hnumbered =>
              absurd (hknown.resolve_left hblank) hnumbered⟩
        | initialized hknown => exact absurd hknown hblank

/-- **Other files are never opened**, and only those with the numbers of a store
are touched: their journal mode may be changed.  A file is no other one by what
the checks overlook (`accepts_add`). -/
theorem others_never_open (hother : file.catalog.Other)
    (hrun : Runs Step (.down file files) events node) :
    (∃ walAvailable, node = .down (file.configured walAvailable) files) ∧
      (¬ file.catalog.Numbered → node = .down file files) := by
  obtain ⟨hblank, hstore⟩ := Catalog.other_iff.mp hother
  have hleft : ∃ walAvailable, node = .down (file.configured walAvailable) files ∧
      (¬ file.catalog.Numbered → walAvailable = false) := by
    induction hrun with
    | nil => exact ⟨false, by rw [StoreFile.configured_false], fun _ => rfl⟩
    | snoc _ hstep ih =>
        obtain ⟨walAvailable, rfl, hkept⟩ := ih
        have hblank' : ¬ (file.configured walAvailable).catalog.Blank := by
          simpa [StoreFile.configured] using hblank
        have hstore' : ¬ (file.configured walAvailable).catalog.IsStore := by
          simpa [StoreFile.configured] using hstore
        obtain ⟨walAvailable', rfl, hkept'⟩ := step_other hblank' hstore' hstep
        refine ⟨walAvailable || walAvailable', ?_, fun hnumbered => ?_⟩
        · rw [StoreFile.configured_configured]
        · rw [hkept hnumbered, hkept' (by simpa [StoreFile.configured] using hnumbered)]
          rfl
  obtain ⟨walAvailable, hnode, hkept⟩ := hleft
  refine ⟨⟨walAvailable, hnode⟩, fun hnumbered => ?_⟩
  rw [hnode, hkept hnumbered, StoreFile.configured_false]

end Runs

end FileNode

section Blank

/-- Nothing is in the way of an opening. -/
def workingEnv : OpenEnv where
  verdict _ := .completes
  runtime := ⟨sqliteVersion, sqliteSourceId, ["COMPILER=clang", "THREADSAFE=1"]⟩
  walAvailable := true
  quickCheck := "ok"
  foreignKeyCheck := none
  restoring := .faultless

/-- The process dies right before its transaction commits. -/
def dyingEnv : OpenEnv :=
  { workingEnv with
    verdict := fun site => if site = .commitInitialize then .crashes else .completes }

def blankFile : StoreFile := ⟨⟨0, 0, false, [], []⟩, .empty⟩

/-- A table of another program that the checks overlook. -/
def sqlitedata : SchemaObject :=
  ⟨"table", "sqlitedata", some "CREATE TABLE sqlitedata (value TEXT NOT NULL)"⟩

theorem likeSqlite_sqlitedata : ∀ object ∈ [sqlitedata], likeSqlite object.name := by
  decide +kernel

/-- A store with such a table. -/
def sqlitedataCatalog : Catalog := (blankFile.catalog.configured true).initialized.add [sqlitedata]

theorem isStore_sqlitedataCatalog : sqlitedataCatalog.IsStore :=
  (Catalog.isStore_add likeSqlite_sqlitedata).mpr
    (Catalog.Blank.isStore_initialized ⟨rfl, rfl, rfl⟩)

/-- A database with a table of another program. -/
def unrelatedFile : StoreFile :=
  ⟨⟨0, 0, false, [⟨"table", "unrelated", some "CREATE TABLE unrelated (value TEXT NOT NULL)"⟩], []⟩,
    .empty⟩

theorem usable_workingEnv (file : StoreFile) : Usable workingEnv file :=
  ⟨by decide +kernel, .inr rfl, rfl, rfl⟩

theorem opens_iff_twoTracksFile :
    letI := secondTrackSha256
    (∃ state, openFile ⟨true, ["store"]⟩ workingEnv blankFile =
      (.ok state, blankFile.prepared true)) ∧
    ∃ rows state, twoTracksStore = some rows ∧ state.sequence = 2 ∧
      openFile ⟨true, ["store"]⟩ workingEnv ⟨sqlitedataCatalog, rows⟩ =
        (.ok state, ⟨sqlitedataCatalog, rows⟩) := by
  let _ := secondTrackSha256
  have hquiet : workingEnv.Quiet := ⟨fun _ => rfl, rfl⟩
  constructor
  · have haccepts : Accepts workingEnv blankFile :=
      ⟨usable_workingEnv _, .inl ⟨rfl, rfl, rfl⟩, [], holds_empty⟩
    exact ⟨_, (opens_iff hquiet _ _ _ _).mpr ⟨haccepts, rfl, rfl⟩⟩
  · obtain ⟨rows, state, hrows, hopen, hsequence⟩ : ∃ rows state, twoTracksStore = some rows ∧
        StitchEditor.openState ⟨true, ["store"]⟩ rows .faultless = .ok state ∧
          state.sequence = 2 := ⟨_, _, rfl, rfl, rfl⟩
    obtain ⟨hconnection, commands, htracks⟩ := openState_eq_ok hopen
    have hstore := isStore_sqlitedataCatalog
    have hleft : (⟨sqlitedataCatalog, rows⟩ : StoreFile) =
        StoreFile.prepared ⟨sqlitedataCatalog, rows⟩ true := by
      rw [StoreFile.prepared, if_neg fun hblank => hblank.not_isStore hstore]
      rfl
    have haccepts : Accepts workingEnv ⟨sqlitedataCatalog, rows⟩ := by
      refine ⟨usable_workingEnv _, .inr hstore, commands, ?_⟩
      have hholds := htracks.holds
      rw [hconnection] at hholds
      exact hleft ▸ hholds
    exact ⟨rows, state, hrows, hsequence, (opens_iff hquiet _ _ _ _).mpr ⟨haccepts, hleft, hopen⟩⟩

theorem store_from_blank_file_dyingEnv :
    letI := firstTrackSha256
    ∃ state, openFile ⟨true, ["store"]⟩ workingEnv (blankFile.configured true) =
      (.ok state, (blankFile.configured true).prepared true) := by
  let _ := firstTrackSha256
  have hdies : openFile ⟨true, ["store"]⟩ dyingEnv blankFile =
      (.error .crash, blankFile.configured true) := by decide +kernel
  have hstep : FileNode.Step (.down blankFile emptyWorld.files)
      (.reopen ⟨true, ["store"]⟩ dyingEnv)
      (.down (blankFile.configured true) emptyWorld.files) := by
    simp only [FileNode.Step, FileNode.step, hdies]
  obtain ⟨-, -, hopens⟩ := FileNode.store_from_blank_file ⟨rfl, rfl, rfl⟩ (Runs.nil.snoc hstep)
  obtain ⟨state, hopen, -⟩ := hopens _ _ rfl ⟨true, ["store"]⟩ workingEnv ⟨fun _ => rfl, rfl⟩
    (usable_workingEnv _)
  exact ⟨state, hopen⟩

theorem others_never_open_unrelatedFile :
    letI := firstTrackSha256
    ∃ node, Runs FileNode.Step (.down unrelatedFile emptyWorld.files)
      [.reopen ⟨true, ["store"]⟩ workingEnv] node ∧
        node = .down unrelatedFile emptyWorld.files := by
  let _ := firstTrackSha256
  have hnumbered : ¬ unrelatedFile.catalog.Numbered := by decide
  have hother : unrelatedFile.catalog.Other :=
    Catalog.other_of_object (List.mem_singleton_self _) (by decide +kernel)
      (by simp [SchemaObject.shape, storeShapes, expectedTables])
  obtain ⟨node, hstep⟩ : ∃ node, FileNode.Step (.down unrelatedFile emptyWorld.files)
      (.reopen ⟨true, ["store"]⟩ workingEnv) node := by
    simp only [FileNode.Step, FileNode.step]
    split <;> exact ⟨_, rfl⟩
  have hrun := Runs.nil.snoc hstep
  exact ⟨node, hrun, (FileNode.others_never_open hother hrun).2 hnumbered⟩

end Blank

end Opening

end StitchEditor
