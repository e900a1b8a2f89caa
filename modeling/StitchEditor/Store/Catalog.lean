import Mathlib
import StitchEditor.Lib.Procedure
import StitchEditor.Store.Worker

/-!
# StitchEditor.Store.Catalog

`open_state` on any file: what it reads of a database beside the rows of a
project, how it initialises a blank one, and which others it rejects.

A blank file has no tables that the checks see, and none is told from one that
does not exist.  What is named like `sqlite_%` is overlooked, be it SQLite's own
or not: `_` stands for any character.
-/

namespace StitchEditor

open Procedure

/-! ## files -/

/-- A row of `sqlite_master`. -/
structure SchemaObject where
  type : String
  name : String
  sql : Option String
  deriving DecidableEq

/-- What a database holds beside the rows of the four tables: numbers of its
header, whether its journal mode is `WAL`, its schema, and the rows of
`metadata` by their keys. -/
structure Catalog where
  applicationId : Int
  userVersion : Int
  wal : Bool
  objects : List SchemaObject
  metadata : List (String × String)
  deriving DecidableEq

structure StoreFile where
  catalog : Catalog
  rows : Database
  deriving DecidableEq

/-- `name LIKE 'sqlite_%'`, where `_` stands for any character. -/
def likeSqlite (name : String) : Bool :=
  (name.toList.take 6).map Char.toLower = "sqlite".toList && 6 < name.length

/-- `... FROM sqlite_master WHERE name NOT LIKE 'sqlite_%'`. -/
def Catalog.visible (catalog : Catalog) : List SchemaObject :=
  catalog.objects.filter fun object => !likeSqlite object.name

/-! ## the schema of a store -/

def applicationId : Int := 0x53544348

def userVersion : Int := 1

def storeSchemaVersion : String := "1"

def walAutocheckpointPages : Int := 0

def createRevisions : String :=
  "CREATE TABLE revisions (sequence INTEGER PRIMARY KEY NOT NULL CHECK(sequence>0), " ++
  "revision_hash BLOB NOT NULL CHECK(length(revision_hash)=32), " ++
  "parent_hash BLOB CHECK(parent_hash IS NULL OR length(parent_hash)=32), " ++
  "command BLOB NOT NULL CHECK(length(command)>0), UNIQUE(sequence,revision_hash), " ++
  "CHECK((sequence=1 AND parent_hash IS NULL) OR (sequence>1 AND parent_hash IS NOT NULL))) STRICT"

def createReceipts : String :=
  "CREATE TABLE receipts (request_id BLOB PRIMARY KEY NOT NULL CHECK(length(request_id)=16), " ++
  "revision_hash BLOB NOT NULL CHECK(length(revision_hash)=32), " ++
  "sequence INTEGER NOT NULL CHECK(sequence>0), command BLOB NOT NULL CHECK(length(command)>0), " ++
  "FOREIGN KEY(sequence,revision_hash) REFERENCES revisions(sequence,revision_hash)) STRICT"

def createHeads : String :=
  "CREATE TABLE heads (name TEXT PRIMARY KEY NOT NULL CHECK(name='main'), " ++
  "sequence INTEGER NOT NULL CHECK(sequence>0), " ++
  "revision_hash BLOB NOT NULL CHECK(length(revision_hash)=32), " ++
  "FOREIGN KEY(sequence,revision_hash) REFERENCES revisions(sequence,revision_hash)) STRICT"

def createSnapshots : String :=
  "CREATE TABLE snapshots (sequence INTEGER NOT NULL CHECK(sequence>0), " ++
  "revision_hash BLOB NOT NULL CHECK(length(revision_hash)=32), " ++
  "project BLOB NOT NULL CHECK(length(project)>0), " ++
  "project_digest BLOB NOT NULL CHECK(length(project_digest)=32), " ++
  "PRIMARY KEY(sequence,revision_hash), " ++
  "FOREIGN KEY(sequence,revision_hash) REFERENCES revisions(sequence,revision_hash)) STRICT"

def createMetadata : String :=
  "CREATE TABLE metadata (key TEXT PRIMARY KEY NOT NULL, value TEXT NOT NULL) STRICT"

/-- What `CREATE TABLE` adds to the schema; a key that is not an `INTEGER` has
an index. -/
def createTable (name sql : String) : List SchemaObject :=
  [⟨"table", name, some sql⟩, ⟨"index", "sqlite_autoindex_" ++ name ++ "_1", none⟩]

/-- The schema that `initialize_store` creates. -/
def storeObjects : List SchemaObject :=
  createTable "revisions" createRevisions ++ createTable "receipts" createReceipts ++
    createTable "heads" createHeads ++ createTable "snapshots" createSnapshots ++
    createTable "metadata" createMetadata

def storeMetadata : List (String × String) := [("schema_version", storeSchemaVersion)]

/-- The names and the texts of the tables, in the order of the names. -/
def expectedTables : List (String × String) :=
  [("heads", createHeads), ("metadata", createMetadata), ("receipts", createReceipts),
    ("revisions", createRevisions), ("snapshots", createSnapshots)]

/-- `char::is_ascii_whitespace`. -/
def isAsciiWhitespace (character : Char) : Bool :=
  character ∈ [' ', '\t', '\n', '\x0c', '\r']

def normalizeSql (sql : String) : String :=
  String.ofList ((sql.toList.filter fun character => !isAsciiWhitespace character).map Char.toLower)

namespace Catalog

/-- A database without a number, a version or an object that is counted; a
table `sqlitedata` is not. -/
def Blank (catalog : Catalog) : Prop :=
  catalog.applicationId = 0 ∧ catalog.userVersion = 0 ∧ catalog.visible.length = 0

instance (catalog : Catalog) : Decidable catalog.Blank := inferInstanceAs (Decidable (_ ∧ _))

/-- A database with the numbers of a store. -/
def Numbered (catalog : Catalog) : Prop :=
  catalog.applicationId = StitchEditor.applicationId ∧
    catalog.userVersion = StitchEditor.userVersion

instance (catalog : Catalog) : Decidable catalog.Numbered := inferInstanceAs (Decidable (_ ∧ _))

/-- The transaction of `initialize_store`. -/
def initialized (catalog : Catalog) : Catalog :=
  { catalog with
    applicationId := StitchEditor.applicationId
    userVersion := StitchEditor.userVersion
    objects := catalog.objects ++ storeObjects
    metadata := storeMetadata }

end Catalog

/-! ## opening -/

namespace Opening

/-- The calls of an opening that leave the program; the statements of a batch
that change settings of the connection only are one. -/
inductive OpenSite where
  | openConnection
  -- `verify_runtime`
  | selectVersion
  | selectSourceId
  | compileOptions
  -- `open_state`
  | selectApplicationId
  | selectUserVersion
  | countObjects
  -- `initialize_store`
  | initializeJournalMode
  | initializeSettings
  | beginInitialize
  | createTables
  | insertMetadata
  | commitInitialize
  -- `configure_connection`
  | journalMode
  | settings
  -- `validate_schema`
  | selectObjects
  | selectMetadata
  -- `open_state`
  | selectJournalMode
  | selectSynchronous
  | selectAutocheckpoint
  | quickCheck
  | foreignKeyCheck
  deriving DecidableEq

/-- The SQLite that the program is linked with. -/
structure Runtime where
  version : String
  sourceId : String
  compileOptions : List String
  deriving DecidableEq

/-- What an opening meets: beside the calls that fail, whether the journal mode
can be `WAL` where the file is, and what the checks of SQLite report. -/
structure OpenEnv where
  verdict : OpenSite → Verdict
  runtime : Runtime
  walAvailable : Bool
  quickCheck : String
  foreignKeyCheck : Option String
  restoring : Env

def attempt (env : OpenEnv) (site : OpenSite) : Except Stop Unit :=
  match env.verdict site with
  | .completes => .ok ()
  | .fails => .error (.error (.sql .failed))
  | .crashes => .error .crash

/-- The file with the settings of the connection to it. -/
structure Connection where
  file : StoreFile
  synchronous : Int
  walAutocheckpoint : Int

/-- A connection has the defaults of SQLite. -/
def Connection.to (file : StoreFile) : Connection := ⟨file, 2, 1000⟩

@[simp] theorem Connection.file_to (file : StoreFile) : (Connection.to file).file = file := rfl

def sqliteVersion : String := "3.53.2"

def sqliteSourceId : String :=
  "2026-06-03 19:12:13 d6e03d8c777cfa2d35e3b60d8ec3e0187f3e9f99d8e2ee9cac695fd6fcdf1a24"

/-- The checks of `verify_runtime`. -/
def Runtime.Verified (runtime : Runtime) : Prop :=
  runtime.version = sqliteVersion ∧ runtime.sourceId = sqliteSourceId ∧
    "THREADSAFE=1" ∈ runtime.compileOptions ∧
    ¬ ∃ option ∈ runtime.compileOptions, option = "OMIT_WAL" ∨ option = "OMIT_COMPILEOPTION_DIAGS"

instance (runtime : Runtime) : Decidable runtime.Verified := inferInstanceAs (Decidable (_ ∧ _))

def verifyRuntime (env : OpenEnv) : Except Stop Unit := do
  attempt env .selectVersion
  attempt env .selectSourceId
  attempt env .compileOptions
  refuse (¬ env.runtime.Verified) .runtimeMismatch

/-- `PRAGMA journal_mode=WAL`, which is no error where it cannot be. -/
def setJournalMode (env : OpenEnv) (connection : Connection) : Connection :=
  { connection with
    file.catalog.wal := connection.file.catalog.wal || env.walAvailable }

/-- `PRAGMA synchronous=FULL` and `PRAGMA wal_autocheckpoint=0`. -/
def setSettings (connection : Connection) : Connection :=
  { connection with synchronous := 2, walAutocheckpoint := 0 }

def initializeStore (env : OpenEnv) : Proc Stop Connection Unit := do
  attempt env .initializeJournalMode
  modify (setJournalMode env)
  attempt env .initializeSettings
  modify setSettings
  attempt env .beginInitialize
  attempt env .createTables
  attempt env .insertMetadata
  attempt env .commitInitialize
  modify fun connection => { connection with file := ⟨connection.file.catalog.initialized, .empty⟩ }

def configureConnection (env : OpenEnv) : Proc Stop Connection Unit := do
  attempt env .journalMode
  modify (setJournalMode env)
  attempt env .settings
  modify setSettings

/-- The part of `open_state` that initialises the file, or goes by its
numbers. -/
def recognize (env : OpenEnv) : Proc Stop Connection Unit := do
  let catalog := (← get).file.catalog
  if catalog.Blank then initializeStore env
  else liftM (refuse (¬ catalog.Numbered) .corruptStore)

/-- The tables are those of a store, whitespace and case apart. -/
def MatchesSchema (objects : List SchemaObject) : Prop :=
  objects.length = expectedTables.length ∧ ∀ pair ∈ objects.zip expectedTables,
    pair.1.type = "table" ∧ pair.1.name = pair.2.1 ∧
      pair.1.sql.map normalizeSql = some (normalizeSql pair.2.2)

instance (objects : List SchemaObject) : Decidable (MatchesSchema objects) :=
  inferInstanceAs (Decidable (_ ∧ _))

/-- `ORDER BY name`. -/
def byName (objects : List SchemaObject) : List SchemaObject :=
  objects.insertionSort fun a b => a.name ≤ b.name

def validateSchema (catalog : Catalog) (env : OpenEnv) : Except Stop Unit := do
  attempt env .selectObjects
  refuse (¬ MatchesSchema (byName catalog.visible)) .corruptStore
  attempt env .selectMetadata
  refuse (catalog.metadata ≠ storeMetadata) .corruptStore

/-- The checks of `open_state` behind those of the schema. -/
def validateConnection (connection : Connection) (env : OpenEnv) : Except Stop Unit := do
  attempt env .selectJournalMode
  attempt env .selectSynchronous
  attempt env .selectAutocheckpoint
  refuse (¬ connection.file.catalog.wal ∨ connection.synchronous ≠ 2 ∨
    connection.walAutocheckpoint ≠ walAutocheckpointPages) .corruptStore
  attempt env .quickCheck
  attempt env .foreignKeyCheck
  refuse (env.quickCheck ≠ "ok" ∨ env.foreignKeyCheck.isSome) .corruptStore

section Opening

variable [Sha256]

def openState (path : Path) (env : OpenEnv) : Proc Stop Connection State := do
  attempt env .openConnection
  verifyRuntime env
  attempt env .selectApplicationId
  attempt env .selectUserVersion
  attempt env .countObjects
  recognize env
  configureConnection env
  let connection ← get
  validateSchema connection.file.catalog env
  validateConnection connection env
  let rows := connection.file.rows
  let (project, head, sequence) ← restore rows env.restoring
  pure ⟨rows, project, head, sequence, path, none⟩

/-- An opening of a file, and what it leaves of it. -/
def openFile (path : Path) (env : OpenEnv) (file : StoreFile) : Except Stop State × StoreFile :=
  let (result, connection) := openState path env (.to file)
  (result, connection.file)

end Opening

end Opening

end StitchEditor
