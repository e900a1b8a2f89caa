import Mathlib
import StitchEditor.Contracts.Commitment
import StitchEditor.Store.Accepts

/-!
# StitchEditor.Store.Integrity

What the checks of `restore` prove about the rows they accept: how far
receipts and revisions match, and what the head row commits to.
-/

namespace StitchEditor

open Chain Std

section Integrity

variable [Sha256]

/-! ## receipts against revisions -/

/-- Receipts and revisions are in bijection, and each receipt repeats its
revision. -/
structure Database.ReceiptsMatch (db : Database) : Prop where
  referenced_once : ∀ {n : Int} {revision : RevisionRow}, db.revisions[n]? = some revision →
    ∃! id : List UInt8, ∃ receipt : ReceiptRow, db.receipts[id]? = some receipt ∧
      receipt.sequence = n ∧ receipt.revisionHash = revision.revisionHash
  repeats : ∀ {id : List UInt8} {receipt : ReceiptRow}, db.receipts[id]? = some receipt →
    ∃ revision, db.revisions[receipt.sequence]? = some revision ∧
      revision.revisionHash = receipt.revisionHash ∧ revision.command = receipt.command

/-- No two receipt rows have the same sequence. -/
def Database.SequencesDiffer (db : Database) : Prop :=
  ∀ {id id' : List UInt8} {receipt receipt' : ReceiptRow}, db.receipts[id]? = some receipt →
    db.receipts[id']? = some receipt' → receipt.sequence = receipt'.sequence → id = id'

omit [Sha256] in
/-- As many receipts as revisions, no two for one sequence: every revision
has its receipt. -/
theorem exists_receipt {db : Database} (hcount : db.receipts.size = db.revisions.size)
    (hagree : db.ReceiptsAgree) (hdiffer : db.SequencesDiffer) {n : Int} (hn : n ∈ db.revisions) :
    ∃ (id : List UInt8) (receipt : ReceiptRow), db.receipts[id]? = some receipt ∧
      receipt.sequence = n := by
  have hnodup : (db.receipts.toList.map fun e => e.2.sequence).Nodup := by
    refine List.Nodup.map_on ?_ (Table.nodup_toList db.receipts)
    rintro ⟨id, receipt⟩ h ⟨id', receipt'⟩ h' heq
    have hid := hdiffer (Table.mem_toList_iff.mp h) (Table.mem_toList_iff.mp h') heq
    subst hid
    have hsame := (Table.mem_toList_iff.mp h).symm.trans (Table.mem_toList_iff.mp h')
    rw [Option.some.inj hsame]
  have hkeys : ∀ m ∈ db.receipts.toList.map fun e => e.2.sequence, m ∈ db.revisions := by
    intro m hm
    obtain ⟨⟨id, receipt⟩, hmem, rfl⟩ := List.mem_map.mp hm
    obtain ⟨revision, hrevision, -⟩ := hagree (Table.mem_toList_iff.mp hmem)
    exact Table.mem_iff_exists.mpr ⟨revision, hrevision⟩
  have hlen : (db.receipts.toList.map fun e => e.2.sequence).length = db.revisions.size := by
    rw [List.length_map, ExtTreeMap.length_toList, hcount]
  obtain ⟨⟨id, receipt⟩, hmem, hseq⟩ :=
    List.mem_map.mp (Table.mem_of_length_eq_size hnodup hkeys hlen hn)
  exact ⟨id, receipt, Table.mem_toList_iff.mp hmem, hseq⟩

/-- **When accepted receipts match the revisions**: exactly when no two of
them have the same sequence. -/
theorem receiptsMatch_iff {db : Database} {env : Env} {result : Project × Option RevisionHash × Int}
    (h : restore db env = .ok result) : db.ReceiptsMatch ↔ db.SequencesDiffer := by
  obtain ⟨commands, hholds, -⟩ := restore_eq_ok_iff.mp ((interruptible_restore db).eq_ok h)
  constructor
  · intro hmatch id id' receipt receipt' hr hr' hseq
    obtain ⟨revision, hrevision, hhash, -⟩ := hmatch.repeats hr
    obtain ⟨revision', hrevision', hhash', -⟩ := hmatch.repeats hr'
    rw [hseq, hrevision', Option.some.injEq] at hrevision
    subst hrevision
    exact (hmatch.referenced_once hrevision').unique ⟨receipt, hr, hseq, hhash.symm⟩
      ⟨receipt', hr', rfl, hhash'.symm⟩
  · intro hdiffer
    refine ⟨?_, hholds.receipts⟩
    intro n revision hrevision
    obtain ⟨id, receipt, hr, rfl⟩ := exists_receipt hholds.receiptCount hholds.receipts hdiffer
      (Table.mem_iff_exists.mpr ⟨revision, hrevision⟩)
    obtain ⟨revision', hrevision', hhash, -⟩ := hholds.receipts hr
    rw [hrevision, Option.some.injEq] at hrevision'
    refine ⟨id, ⟨receipt, hr, rfl, by rw [hrevision', hhash]⟩, ?_⟩
    rintro id' ⟨receipt', hr', hseq, -⟩
    exact hdiffer hr' hr hseq

end Integrity

section DoubledReceipts

/-- One revision with its receipt. -/
def firstTrackStore : Option Database := do
  let first := addFirstTrack.canonicalBytes
  let db ← Database.empty.insertRevision 1 ⟨firstTrackHash.bytes.toList, none, first⟩
  let db ← db.insertReceipt (List.replicate 16 1) ⟨firstTrackHash.bytes.toList, 1, first⟩
  db.upsertHead ⟨1, firstTrackHash.bytes.toList⟩

/-- Two revisions, each with its receipt. -/
def twoTracksStore : Option Database := do
  let first := addFirstTrack.canonicalBytes
  let second := addSecondTrack.canonicalBytes
  let db ← Database.empty.insertRevision 1 ⟨firstTrackHash.bytes.toList, none, first⟩
  let db ← db.insertRevision 2
    ⟨secondTrackHash.bytes.toList, some firstTrackHash.bytes.toList, second⟩
  let db ← db.insertReceipt (List.replicate 16 1) ⟨firstTrackHash.bytes.toList, 1, first⟩
  let db ← db.insertReceipt (List.replicate 16 2) ⟨secondTrackHash.bytes.toList, 2, second⟩
  db.upsertHead ⟨2, secondTrackHash.bytes.toList⟩

theorem receiptsMatch_iff_twoTracksStore :
    letI := secondTrackSha256
    ∃ db, twoTracksStore = some db ∧ db.receipts.size = 2 ∧ db.ReceiptsMatch := by
  let _ := secondTrackSha256
  refine ⟨_, rfl, by decide +kernel,
    (receiptsMatch_iff (show restore _ .faultless = .ok _ from rfl)).mpr ?_⟩
  intro id id' receipt receipt' hr hr' hsequence
  have hall : twoTracksStore.all fun db => db.receipts.toList.all fun entry =>
      db.receipts.toList.all fun entry' =>
        entry.2.sequence = entry'.2.sequence → entry.1 = entry'.1 := by
    decide +kernel
  have hentry := List.all_eq_true.mp hall (id, receipt) (Table.mem_toList_iff.mpr hr)
  have hentry' := List.all_eq_true.mp hentry (id', receipt') (Table.mem_toList_iff.mpr hr')
  exact of_decide_eq_true hentry' hsequence

/-- Two revisions, and two receipts that both reference the first. -/
def doubledReceipts : Option Database := do
  let first := addFirstTrack.canonicalBytes
  let db ← Database.empty.insertRevision 1 ⟨firstTrackHash.bytes.toList, none, first⟩
  let db ← db.insertRevision 2
    ⟨secondTrackHash.bytes.toList, some firstTrackHash.bytes.toList, addSecondTrack.canonicalBytes⟩
  let db ← db.insertReceipt (List.replicate 16 1) ⟨firstTrackHash.bytes.toList, 1, first⟩
  let db ← db.insertReceipt (List.replicate 16 2) ⟨firstTrackHash.bytes.toList, 1, first⟩
  db.upsertHead ⟨2, secondTrackHash.bytes.toList⟩

/-- `restore` accepts receipts that leave a revision without one. -/
theorem restore_accepts_doubledReceipts :
    letI := secondTrackSha256
    ∃ db, doubledReceipts = some db ∧ (∃ result, restore db .faultless = .ok result) ∧
      ¬ db.ReceiptsMatch := by
  refine ⟨_, rfl, ⟨_, rfl⟩, fun hmatch => ?_⟩
  -- the second revision has no receipt
  have hsecond := hmatch.referenced_once (n := 2) rfl
  obtain ⟨id, ⟨receipt, hreceipt, hsequence, -⟩, -⟩ := hsecond
  have hall := List.all_eq_true.mp (show doubledReceipts.any (fun db =>
    db.receipts.toList.all fun entry => entry.2.sequence ≠ 2) = true by rfl)
    (id, receipt) (Table.mem_toList_iff.mpr hreceipt)
  simp [hsequence] at hall

end DoubledReceipts

section Commitment

variable [Sha256]

/-! ## the head commits to the log -/

/-- The commands that the revision rows decode to. -/
def Database.log (db : Database) : List Command :=
  db.revisions.toList.filterMap fun entry => (Command.fromCanonicalBytes entry.2.command).toOption

omit [Sha256] in
/-- What a revision row says, its command decoded. -/
def revisionView (entry : Int × RevisionRow) :
    Int × List UInt8 × Option (List UInt8) × Except ModelError Command :=
  (entry.1, entry.2.revisionHash, entry.2.parentHash, Command.fromCanonicalBytes entry.2.command)

theorem Spells.filterMap_eq {rows : List (Int × RevisionRow)} {commands : List Command}
    (h : Spells rows commands) :
    (rows.filterMap fun entry => (Command.fromCanonicalBytes entry.2.command).toOption) =
      commands := by
  induction h with
  | nil => rfl
  | snoc _ hcommand _ _ ih =>
      rw [List.filterMap_append, ih]
      simp [hcommand, Except.toOption]

theorem Database.Holds.log_eq {db : Database} {commands : List Command} (h : db.Holds commands) :
    db.log = commands := h.spells.filterMap_eq

/-- Rows that spell one list of commands differ at most in how the commands
are encoded. -/
theorem Spells.map_revisionView_eq {rows rows' : List (Int × RevisionRow)} {commands : List Command}
    (h : Spells rows commands) (h' : Spells rows' commands) :
    rows.map revisionView = rows'.map revisionView := by
  induction h generalizing rows' with
  | nil =>
      have hlen := h'.length_eq
      rw [List.length_nil, List.length_eq_zero_iff] at hlen
      rw [hlen]
  | @snoc rows commands row command hrows hcommand hparent hhash ih =>
      obtain ⟨front, entry, rfl⟩ := (List.eq_nil_or_concat' rows').resolve_left (by
        intro hnil
        have := h'.length_eq
        simp [hnil] at this)
      obtain ⟨front', command', heq, hfront, hn, hcommand', hparent', hhash'⟩ :=
        Spells.concat_iff.mp h'
      obtain ⟨rfl, hlast⟩ := List.append_inj' heq rfl
      obtain rfl : command = command' := by simpa using hlast
      rw [List.map_append, List.map_append, ih hfront]
      have hlen : rows.length = front.length := by rw [hrows.length_eq, hfront.length_eq]
      simp [revisionView, hn, hlen, hcommand, hcommand', hparent, hparent', hhash, hhash']

theorem chain_eq_of_headAgrees {heads : Option HeadRow} {commands commands' : List Command}
    (h : HeadAgrees heads commands) (h' : HeadAgrees heads commands') :
    chain revisionHash commands = chain revisionHash commands' := by
  rw [HeadAgrees] at h h'
  rw [h] at h'
  cases hc : chain revisionHash commands with
  | none =>
      rw [hc, Option.map_none, eq_comm, Option.map_eq_none_iff] at h'
      rw [h']
  | some hash =>
      cases hc' : chain revisionHash commands' with
      | none => simp [hc, hc'] at h'
      | some hash' =>
          rw [hc, hc', Option.map_some, Option.map_some, Option.some.injEq, HeadRow.mk.injEq,
            Vector.toList_inj] at h'
          exact congrArg some (congrArg RevisionHash.mk h'.2)

/-- **Tamper evidence**: as long as no two links of the two logs collide,
accepted rows with one head row spell one log, restore to one project, and
their latest snapshots are taken from that log. -/
theorem restore_tamper_evident {db db' : Database} {env env' : Env}
    {result result' : Project × Option RevisionHash × Int} (h : restore db env = .ok result)
    (h' : restore db' env' = .ok result') (hheads : db.heads = db'.heads)
    (hsep : Chain.Separates revisionHash db.log db'.log) :
    db.revisions.toList.map revisionView = db'.revisions.toList.map revisionView ∧
      result = result' ∧ replay db.log = .ok result.1 ∧
      result.2 = (chain revisionHash db.log, (db.log.length : Int)) ∧
      (∀ snapshot, db.latestSnapshot = some snapshot → ∃ n, Captures snapshot db.log n) ∧
      ∀ snapshot, db'.latestSnapshot = some snapshot → ∃ n, Captures snapshot db.log n := by
  obtain ⟨project, head, sequence⟩ := result
  obtain ⟨project', head', sequence'⟩ := result'
  obtain ⟨commands, hholds, hreplay, rfl, rfl⟩ :=
    restore_eq_ok_iff.mp ((interruptible_restore db).eq_ok h)
  obtain ⟨commands', hholds', hreplay', rfl, rfl⟩ :=
    restore_eq_ok_iff.mp ((interruptible_restore db').eq_ok h')
  rw [hholds.log_eq, hholds'.log_eq] at hsep
  obtain rfl : commands = commands' :=
    eq_of_chain_eq _ hsep (chain_eq_of_headAgrees hholds.head (hheads ▸ hholds'.head))
  rw [hholds.log_eq]
  refine ⟨hholds.spells.map_revisionView_eq hholds'.spells, ?_, hreplay, rfl, ?_, ?_⟩
  · rw [hreplay, Except.ok.injEq] at hreplay'
    rw [hreplay']
  · intro snapshot hs
    obtain ⟨n, -, -, hcaptures⟩ := hholds.snapshot hs
    exact ⟨n, hcaptures⟩
  · intro snapshot hs
    obtain ⟨n, -, -, hcaptures⟩ := hholds'.snapshot hs
    exact ⟨n, hcaptures⟩

end Commitment

section Snapshots

/-- The project with the first track only. -/
def firstTrackProject : Project :=
  { Project.default with
    tracks := (∅ : OrdMap TrackId Track).insert ⟨Vector.replicate 16 0x2a⟩
      ⟨⟨Vector.replicate 16 0x2a⟩, []⟩ }

/-- The project with both tracks, and its digest. -/
def twoTracksProject : Project :=
  { firstTrackProject with
    tracks := firstTrackProject.tracks.insert ⟨Vector.replicate 16 0x2b⟩
      ⟨⟨Vector.replicate 16 0x2b⟩, []⟩ }

@[reducible] def twoTracksSha256 : Sha256 :=
  .ofKnown [(revisionBytes none addFirstTrack, firstTrackHash.bytes),
    (revisionBytes firstTrackHash addSecondTrack, secondTrackHash.bytes),
    (firstTrackProject.canonicalBytes, firstTrackDigest.bytes),
    (twoTracksProject.canonicalBytes, twoTracksDigest.bytes)]

/-- The same revisions with a snapshot of the last one. -/
def twoTracksSnapshotStore : Option Database := do
  (← twoTracksStore).insertOrIgnoreSnapshot ⟨2, secondTrackHash.bytes.toList⟩
    ⟨twoTracksProject.canonicalBytes, twoTracksDigest.bytes.toList⟩

theorem isSome_twoTracksStore : twoTracksStore.isSome := by decide +kernel

theorem isSome_twoTracksSnapshotStore : twoTracksSnapshotStore.isSome := by decide +kernel

theorem restore_tamper_evident_twoTracksStore :
    letI := twoTracksSha256
    let db := twoTracksStore.get isSome_twoTracksStore
    let db' := twoTracksSnapshotStore.get isSome_twoTracksSnapshotStore
    db.log = twoTracks ∧ db.revisions.toList.map revisionView =
        db'.revisions.toList.map revisionView ∧
      ∀ snapshot, db'.latestSnapshot = some snapshot → ∃ n, Captures snapshot db.log n := by
  let _ := twoTracksSha256
  have hopens : restore (twoTracksStore.get isSome_twoTracksStore) .faultless =
      .ok (twoTracksProject, some secondTrackHash, 2) := by decide +kernel
  have hopens' : restore (twoTracksSnapshotStore.get isSome_twoTracksSnapshotStore) .faultless =
      .ok (twoTracksProject, some secondTrackHash, 2) := by decide +kernel
  have hlog : (twoTracksStore.get isSome_twoTracksStore).log = twoTracks := by decide +kernel
  have hlog' : (twoTracksSnapshotStore.get isSome_twoTracksSnapshotStore).log = twoTracks := by
    decide +kernel
  have hseparates : Chain.Separates revisionHash twoTracks twoTracks := by
    unfold Chain.Separates
    decide +kernel
  have hevident := restore_tamper_evident hopens hopens' (by decide +kernel)
    (by rwa [hlog, hlog'])
  exact ⟨hlog, hevident.1, hevident.2.2.2.2.2⟩

end Snapshots

end StitchEditor
