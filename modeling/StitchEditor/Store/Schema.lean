import Mathlib
import StitchEditor.Lib.Table
import StitchEditor.Contracts.Project

/-!
# StitchEditor.Store.Schema

The rows of a project store and the statements that change them.

Every table is an ordered map from its primary key to the rest of the row;
a `BLOB` is a byte string, an `INTEGER` a 64-bit signed number.  The `name`
of a head is checked to be `'main'`, so there is at most one head row.

A `Database` carries its constraints (checks, keys and foreign keys, which
`PRAGMA foreign_keys=ON` enforces per statement): a statement either yields
rows that satisfy them or fails.
-/

namespace StitchEditor

open Std

/-! ## rows -/

/-- A row of `revisions` beside its `sequence`. -/
structure RevisionRow where
  revisionHash : List UInt8
  parentHash : Option (List UInt8)
  command : List UInt8
  deriving DecidableEq

/-- A row of `receipts` beside its `request_id`. -/
structure ReceiptRow where
  revisionHash : List UInt8
  sequence : Int
  command : List UInt8
  deriving DecidableEq

/-- The row of `heads` named `'main'`. -/
structure HeadRow where
  sequence : Int
  revisionHash : List UInt8
  deriving DecidableEq

/-- The primary key of `snapshots`. -/
structure SnapshotKey where
  sequence : Int
  revisionHash : List UInt8
  deriving DecidableEq

/-- A row of `snapshots` beside its key. -/
structure SnapshotRow where
  project : List UInt8
  projectDigest : List UInt8
  deriving DecidableEq

namespace SnapshotKey

/-- Snapshot keys are ordered by their sequence first. -/
instance : Ord SnapshotKey :=
  ⟨compareLex (compareOn SnapshotKey.sequence) (compareOn SnapshotKey.revisionHash)⟩

instance : TransOrd SnapshotKey :=
  inferInstanceAs (TransCmp (compareLex (compareOn SnapshotKey.sequence)
    (compareOn SnapshotKey.revisionHash)))

instance : LawfulEqOrd SnapshotKey where
  eq_of_compare {a b} h := by
    have hlex : (compare a.sequence b.sequence).then (compare a.revisionHash b.revisionHash) =
        .eq := h
    rw [Ordering.then_eq_eq] at hlex
    cases a
    cases b
    rw [mk.injEq]
    exact ⟨LawfulEqCmp.eq_of_compare hlex.1, LawfulEqCmp.eq_of_compare hlex.2⟩

theorem sequence_le_of_isLE {a b : SnapshotKey} (h : (compare a b).isLE) :
    a.sequence ≤ b.sequence := by
  have hlex : ((compare a.sequence b.sequence).then
    (compare a.revisionHash b.revisionHash)).isLE := h
  by_contra hlt
  have hgt : compare a.sequence b.sequence = .gt := Int.compare_eq_gt.mpr (by omega)
  rw [hgt] at hlex
  cases hlex

end SnapshotKey

/-- The rows of the four tables that hold project data. -/
structure Tables where
  revisions : OrdMap Int RevisionRow
  receipts : OrdMap (List UInt8) ReceiptRow
  heads : Option HeadRow
  snapshots : OrdMap SnapshotKey SnapshotRow
  deriving DecidableEq

/-! ## constraints -/

/-- `INTEGER NOT NULL CHECK(sequence>0)`. -/
def ValidSequence (sequence : Int) : Prop := 0 < sequence ∧ sequence < 2 ^ 63

instance (sequence : Int) : Decidable (ValidSequence sequence) :=
  inferInstanceAs (Decidable (_ ∧ _))

/-- The checks of `CREATE_REVISIONS`. -/
structure RevisionRow.Valid (sequence : Int) (row : RevisionRow) : Prop where
  sequence_valid : ValidSequence sequence
  hash_length : row.revisionHash.length = 32
  parent_length : ∀ parent ∈ row.parentHash, parent.length = 32
  command_nonempty : 0 < row.command.length
  first_iff : (sequence = 1 ∧ row.parentHash = none) ∨ (1 < sequence ∧ row.parentHash ≠ none)

/-- The checks of `CREATE_RECEIPTS`. -/
structure ReceiptRow.Valid (requestId : List UInt8) (row : ReceiptRow) : Prop where
  id_length : requestId.length = 16
  hash_length : row.revisionHash.length = 32
  sequence_valid : ValidSequence row.sequence
  command_nonempty : 0 < row.command.length

/-- The checks of `CREATE_HEADS`. -/
structure HeadRow.Valid (row : HeadRow) : Prop where
  sequence_valid : ValidSequence row.sequence
  hash_length : row.revisionHash.length = 32

/-- The checks of `CREATE_SNAPSHOTS`. -/
structure SnapshotRow.Valid (key : SnapshotKey) (row : SnapshotRow) : Prop where
  sequence_valid : ValidSequence key.sequence
  hash_length : key.revisionHash.length = 32
  project_nonempty : 0 < row.project.length
  digest_length : row.projectDigest.length = 32

instance (n : Int) (row : RevisionRow) : Decidable (row.Valid n) :=
  decidable_of_iff (ValidSequence n ∧ row.revisionHash.length = 32 ∧
    (∀ parent ∈ row.parentHash, parent.length = 32) ∧ 0 < row.command.length ∧
    ((n = 1 ∧ row.parentHash = none) ∨ (1 < n ∧ row.parentHash ≠ none)))
    ⟨fun h => ⟨h.1, h.2.1, h.2.2.1, h.2.2.2.1, h.2.2.2.2⟩, fun h => ⟨h.1, h.2, h.3, h.4, h.5⟩⟩

instance (id : List UInt8) (row : ReceiptRow) : Decidable (row.Valid id) :=
  decidable_of_iff (id.length = 16 ∧ row.revisionHash.length = 32 ∧ ValidSequence row.sequence ∧
    0 < row.command.length)
    ⟨fun h => ⟨h.1, h.2.1, h.2.2.1, h.2.2.2⟩, fun h => ⟨h.1, h.2, h.3, h.4⟩⟩

instance (row : HeadRow) : Decidable row.Valid :=
  decidable_of_iff (ValidSequence row.sequence ∧ row.revisionHash.length = 32)
    ⟨fun h => ⟨h.1, h.2⟩, fun h => ⟨h.1, h.2⟩⟩

instance (key : SnapshotKey) (row : SnapshotRow) : Decidable (row.Valid key) :=
  decidable_of_iff (ValidSequence key.sequence ∧ key.revisionHash.length = 32 ∧
    0 < row.project.length ∧ row.projectDigest.length = 32)
    ⟨fun h => ⟨h.1, h.2.1, h.2.2.1, h.2.2.2⟩, fun h => ⟨h.1, h.2, h.3, h.4⟩⟩

/-- `FOREIGN KEY(sequence,revision_hash) REFERENCES revisions`. -/
def Tables.References (t : Tables) (sequence : Int) (hash : List UInt8) : Prop :=
  t.revisions[sequence]?.map RevisionRow.revisionHash = some hash

instance (t : Tables) (sequence : Int) (hash : List UInt8) :
    Decidable (t.References sequence hash) := inferInstanceAs (Decidable (_ = _))

theorem Tables.references_iff {t : Tables} {sequence : Int} {hash : List UInt8} :
    t.References sequence hash ↔ ∃ row, t.revisions[sequence]? = some row ∧
      row.revisionHash = hash := Option.map_eq_some_iff

/-- The constraints of the schema. -/
structure Tables.Valid (t : Tables) : Prop where
  revisions : ∀ {n : Int} {row : RevisionRow}, t.revisions[n]? = some row → row.Valid n
  receipts : ∀ {id : List UInt8} {row : ReceiptRow}, t.receipts[id]? = some row →
    row.Valid id ∧ t.References row.sequence row.revisionHash
  heads : ∀ {row : HeadRow}, t.heads = some row →
    row.Valid ∧ t.References row.sequence row.revisionHash
  snapshots : ∀ {key : SnapshotKey} {row : SnapshotRow}, t.snapshots[key]? = some row →
    row.Valid key ∧ t.References key.sequence key.revisionHash

/-- Rows that satisfy the schema. -/
structure Database extends Tables where
  valid : toTables.Valid
  deriving DecidableEq

namespace Database

/-- A store right after its tables were created. -/
def empty : Database where
  revisions := ∅
  receipts := ∅
  heads := none
  snapshots := ∅
  valid := ⟨by simp, by simp, by simp, by simp⟩

/-! ## statements -/

/-- `INSERT INTO revisions`. -/
def insertRevision (db : Database) (sequence : Int) (row : RevisionRow) : Option Database :=
  if h : sequence ∉ db.revisions ∧ row.Valid sequence then
    some { db with
      revisions := db.revisions.insert sequence row
      valid := by
        have hkeep : ∀ {n : Int} {hash : List UInt8}, db.toTables.References n hash →
            (db.revisions.insert sequence row)[n]?.map RevisionRow.revisionHash = some hash := by
          intro n hash href
          obtain ⟨row', hrow', hhash⟩ := Tables.references_iff.mp href
          have hne : n ≠ sequence := by
            intro heq
            exact h.1 (heq ▸ Table.mem_iff_exists.mpr ⟨row', hrow'⟩)
          rw [Table.getElem?_insert_eq, if_neg hne, hrow', Option.map_some, hhash]
        refine ⟨?_, fun hr => ?_, fun hr => ?_, fun hr => ?_⟩
        · intro n row' hrow'
          rw [Table.getElem?_insert_eq] at hrow'
          split at hrow'
          · next heq => cases hrow'; exact heq ▸ h.2
          · exact db.valid.revisions hrow'
        · exact ⟨(db.valid.receipts hr).1, hkeep (db.valid.receipts hr).2⟩
        · exact ⟨(db.valid.heads hr).1, hkeep (db.valid.heads hr).2⟩
        · exact ⟨(db.valid.snapshots hr).1, hkeep (db.valid.snapshots hr).2⟩ }
  else none

/-- `INSERT INTO receipts`. -/
def insertReceipt (db : Database) (requestId : List UInt8) (row : ReceiptRow) : Option Database :=
  if h : requestId ∉ db.receipts ∧ row.Valid requestId ∧
      db.References row.sequence row.revisionHash then
    some { db with
      receipts := db.receipts.insert requestId row
      valid := by
        refine ⟨db.valid.revisions, ?_, db.valid.heads, db.valid.snapshots⟩
        intro id row' hrow'
        rw [Table.getElem?_insert_eq] at hrow'
        split at hrow'
        · next heq => cases hrow'; exact heq ▸ h.2
        · exact db.valid.receipts hrow' }
  else none

/-- `INSERT INTO heads … ON CONFLICT(name) DO UPDATE`. -/
def upsertHead (db : Database) (row : HeadRow) : Option Database :=
  if h : row.Valid ∧ db.References row.sequence row.revisionHash then
    some { db with
      heads := some row
      valid := by
        refine ⟨db.valid.revisions, db.valid.receipts, ?_, db.valid.snapshots⟩
        intro row' hrow'
        cases hrow'
        exact h }
  else none

/-- `INSERT OR IGNORE INTO snapshots`: a conflict or a failed check skips
the row, a dangling reference fails the statement. -/
def insertOrIgnoreSnapshot (db : Database) (key : SnapshotKey) (row : SnapshotRow) :
    Option Database :=
  if hnew : key ∉ db.snapshots ∧ row.Valid key then
    if href : db.References key.sequence key.revisionHash then
      some { db with
        snapshots := db.snapshots.insert key row
        valid := by
          refine ⟨db.valid.revisions, db.valid.receipts, db.valid.heads, ?_⟩
          intro key' row' hrow'
          rw [Table.getElem?_insert_eq] at hrow'
          split at hrow'
          · next heq => cases hrow'; rw [heq]; exact ⟨hnew.2, href⟩
          · exact db.valid.snapshots hrow' }
    else none
  else some db

/-- `SELECT … FROM snapshots ORDER BY sequence DESC LIMIT 1`. -/
def latestSnapshot (db : Database) : Option (SnapshotKey × SnapshotRow) :=
  db.snapshots.toList.getLast?

/-- `DELETE FROM snapshots WHERE sequence < (SELECT max(sequence) FROM
snapshots)`. -/
def deleteOldSnapshots (db : Database) : Database :=
  match db.latestSnapshot with
  | none => db
  | some (latest, _) => { db with
      snapshots := db.snapshots.filter fun key _ => latest.sequence ≤ key.sequence
      valid := by
        refine ⟨db.valid.revisions, db.valid.receipts, db.valid.heads, ?_⟩
        intro key row hrow
        rw [ExtTreeMap.getElem?_filter', Option.filter_eq_some_iff] at hrow
        exact db.valid.snapshots hrow.1 }

/-! ## what statements do -/

variable {db db' : Database}

theorem insertRevision_eq_some_iff {n : Int} {row : RevisionRow} :
    db.insertRevision n row = some db' ↔ n ∉ db.revisions ∧ row.Valid n ∧
      db'.toTables = { db.toTables with revisions := db.revisions.insert n row } := by
  unfold insertRevision
  constructor
  · intro h
    split at h
    · next hc => cases h; exact ⟨hc.1, hc.2, rfl⟩
    · cases h
  · rintro ⟨hn, hrow, heq⟩
    rw [dif_pos ⟨hn, hrow⟩]
    cases db'
    cases heq
    rfl

theorem insertReceipt_eq_some_iff {id : List UInt8} {row : ReceiptRow} :
    db.insertReceipt id row = some db' ↔ id ∉ db.receipts ∧ row.Valid id ∧
      db.References row.sequence row.revisionHash ∧
      db'.toTables = { db.toTables with receipts := db.receipts.insert id row } := by
  unfold insertReceipt
  constructor
  · intro h
    split at h
    · next hc => cases h; exact ⟨hc.1, hc.2.1, hc.2.2, rfl⟩
    · cases h
  · rintro ⟨hid, hrow, href, heq⟩
    rw [dif_pos ⟨hid, hrow, href⟩]
    cases db'
    cases heq
    rfl

theorem upsertHead_eq_some_iff {row : HeadRow} :
    db.upsertHead row = some db' ↔ row.Valid ∧ db.References row.sequence row.revisionHash ∧
      db'.toTables = { db.toTables with heads := some row } := by
  unfold upsertHead
  constructor
  · intro h
    split at h
    · next hc => cases h; exact ⟨hc.1, hc.2, rfl⟩
    · cases h
  · rintro ⟨hrow, href, heq⟩
    rw [dif_pos ⟨hrow, href⟩]
    cases db'
    cases heq
    rfl

/-- A snapshot is added or skipped; no other table changes. -/
theorem insertOrIgnoreSnapshot_spec {key : SnapshotKey} {row : SnapshotRow}
    (h : db.insertOrIgnoreSnapshot key row = some db') : db' = db ∨
      (key ∉ db.snapshots ∧ row.Valid key ∧ db.References key.sequence key.revisionHash ∧
        db'.toTables = { db.toTables with snapshots := db.snapshots.insert key row }) := by
  unfold insertOrIgnoreSnapshot at h
  split at h
  · next hnew =>
    split at h
    · next href => cases h; exact .inr ⟨hnew.1, hnew.2, href, rfl⟩
    · cases h
  · cases h; exact .inl rfl

/-- The latest snapshot is a row, and no snapshot has a larger sequence. -/
theorem latestSnapshot_eq_some_iff {key : SnapshotKey} {row : SnapshotRow} :
    db.latestSnapshot = some (key, row) ↔ db.snapshots[key]? = some row ∧
      ∀ key' ∈ db.snapshots, (compare key' key).isLE :=
  Table.getLast?_toList_eq_some_iff

/-- Snapshot deletion touches no other table. -/
theorem toTables_deleteOldSnapshots : ∃ snapshots,
    db.deleteOldSnapshots.toTables = { db.toTables with snapshots := snapshots } := by
  unfold deleteOldSnapshots
  split
  · exact ⟨db.snapshots, rfl⟩
  · exact ⟨_, rfl⟩

/-- The latest snapshot survives the deletion. -/
theorem latestSnapshot_deleteOldSnapshots :
    db.deleteOldSnapshots.latestSnapshot = db.latestSnapshot := by
  unfold deleteOldSnapshots
  split
  · rfl
  · next latest row hlatest =>
    rw [hlatest]
    obtain ⟨hrow, hmax⟩ := latestSnapshot_eq_some_iff.mp hlatest
    refine latestSnapshot_eq_some_iff.mpr ⟨?_, ?_⟩
    · dsimp only
      rw [ExtTreeMap.getElem?_filter', Option.filter_eq_some_iff]
      exact ⟨hrow, by simp⟩
    · intro key hkey
      obtain ⟨row', hrow'⟩ := Table.mem_iff_exists.mp hkey
      dsimp only at hrow'
      rw [ExtTreeMap.getElem?_filter', Option.filter_eq_some_iff] at hrow'
      exact hmax key (Table.mem_iff_exists.mpr ⟨row', hrow'.1⟩)

end Database

end StitchEditor
