import Mathlib
import StitchEditor.Store.Durability

/-!
# StitchEditor.Store.Retry

Repeated requests on a store that was opened: which stored receipts a retry
with the stored command gets back.

`restore` judges a stored command by what it decodes to, `commit` a retry by
the stored bytes, and the two agree on the bytes that `commit` itself
writes.
-/

namespace StitchEditor

open Fallible Procedure

theorem exists_eq_toList {n : Nat} {bytes : List UInt8} (h : bytes.length = n) :
    ∃ v : Vector UInt8 n, bytes = v.toList :=
  ⟨⟨bytes.toArray, by simpa using h⟩, by simp [Vector.toList]⟩

section Retry

variable [Sha256]

/-- A retry with the stored command gets the stored receipt back and changes
nothing. -/
def State.Honours (s : State) (id : List UInt8) (row : ReceiptRow) : Prop :=
  ∃ (requestId : RequestId) (hash : RevisionHash) (command : Command),
    id = requestId.bytes.toList ∧ row.revisionHash = hash.bytes.toList ∧
    Command.fromCanonicalBytes row.command = .ok command ∧
    commit requestId command none .faultless s = (.ok ⟨requestId, hash, row.sequence⟩, s)

theorem Spells.decodes {rows : List (Int × RevisionRow)} {commands : List Command}
    (h : Spells rows commands) {entry : Int × RevisionRow} (hentry : entry ∈ rows) :
    ∃ command, Command.fromCanonicalBytes entry.2.command = .ok command := by
  induction h with
  | nil => simp at hentry
  | snoc _ hcommand _ _ ih =>
      obtain hmem | hmem := List.mem_append.mp hentry
      · exact ih hmem
      · obtain rfl := List.mem_singleton.mp hmem
        exact ⟨_, hcommand⟩

/-- Every receipt of an accepted store holds a command. -/
theorem Database.Holds.receipt_decodes {db : Database} {commands : List Command}
    (h : db.Holds commands) {id : List UInt8} {row : ReceiptRow}
    (hrow : db.receipts[id]? = some row) :
    ∃ command, Command.fromCanonicalBytes row.command = .ok command := by
  obtain ⟨revision, hrevision, -, hcommand⟩ := h.receipts hrow
  obtain ⟨command, hdecodes⟩ := h.spells.decodes (Table.mem_toList_iff.mpr hrevision)
  exact ⟨command, by rw [← hcommand, hdecodes]⟩

/-- The two queries of a retry complete. -/
structure Env.ReadsReceipt (env : Env) : Prop where
  receipt : env.verdict .selectReceipt = .completes
  command : env.verdict .selectReceiptCommand = .completes

omit [Sha256] in
theorem receipt_of_acknowledges {db : Database} {command : Command} {receipt : CommitReceipt}
    (h : db.Acknowledges command receipt) {env : Env} (hreads : env.ReadsReceipt) :
    StitchEditor.receipt db receipt.requestId env = .ok (some receipt) := by
  have hexecute := execute_eq_ok_iff (u := ()).mpr hreads.receipt
  unfold StitchEditor.receipt
  rw [hexecute, h.row]
  refine bind_eq_ok_iff.mpr ⟨(), rfl, bind_eq_ok_iff.mpr ⟨receipt.revisionHash, ?_, rfl⟩⟩
  exact hashFromBytes_eq_ok_iff.mpr rfl

omit [Sha256] in
theorem retry_of_acknowledges {db : Database} {command : Command} {receipt : CommitReceipt}
    (h : db.Acknowledges command receipt) {env : Env} (hreads : env.ReadsReceipt) :
    retry db receipt.requestId command receipt env = .ok receipt := by
  have hexecute := execute_eq_ok_iff (u := ()).mpr hreads.command
  unfold retry
  rw [hexecute, h.row]
  refine bind_eq_ok_iff.mpr ⟨(), rfl, bind_eq_ok_iff.mpr ⟨(), ?_, rfl⟩⟩
  exact if_neg (by simp)

/-- A stored receipt for the bytes of the command answers a retry. -/
theorem commit_of_acknowledges {s : State} {command : Command} {receipt : CommitReceipt}
    (h : s.connection.Acknowledges command receipt) (fault : Option FaultPoint) {env : Env}
    (hreads : env.ReadsReceipt) :
    commit receipt.requestId command fault env s = (.ok receipt, s) := by
  change (liftM (StitchEditor.receipt s.connection receipt.requestId env) >>= _ :
    Proc Stop State CommitReceipt) s = _
  rw [receipt_of_acknowledges h hreads, lift_bind_ok]
  change (liftM (retry s.connection receipt.requestId command receipt env) :
    Proc Stop State CommitReceipt) s = _
  rw [retry_of_acknowledges h hreads]
  rfl

/-- **Which receipts are honoured** after opening: those whose command is
stored with every fraction in lowest terms. -/
theorem honours_iff {path : Path} {db : Database} {env : Env} {s : State}
    (hopen : openState path db env = .ok s) {id : List UInt8} {row : ReceiptRow}
    (hrow : db.receipts[id]? = some row) :
    s.Honours id row ↔ ∃ raw : RawCommand, raw.put = row.command ∧ raw.Reduced := by
  obtain ⟨rfl, commands, ht⟩ := openState_eq_ok hopen
  obtain ⟨command, hdecodes⟩ := ht.holds.receipt_decodes hrow
  constructor
  · rintro ⟨requestId, hash, command', rfl, -, -, hcommit⟩
    have hcommits : Ensures (commit requestId command' none .faultless) s
        (s.Commits requestId command') := ensures_commit none .faultless
    rw [Ensures, hcommit] at hcommits
    have hcommand : row.command = command'.canonicalBytes := by
      cases hcommits with
      | kept hok =>
          obtain ⟨-, hrow'⟩ := hok _ rfl
          rw [hrow'.row, Option.some.injEq] at hrow
          rw [← hrow]
      | appended happends =>
          exact absurd (Table.mem_iff_exists.mpr ⟨row, hrow⟩) happends.fresh
    exact ⟨command'.raw, by rw [Command.put_raw, hcommand],
      (RawCommand.eq_raw_iff command'.value_raw).mp rfl⟩
  · rintro ⟨raw, hput, hreduced⟩
    obtain ⟨raw', hput', hvalue⟩ := Command.fromCanonicalBytes_eq_ok_iff.mp hdecodes
    obtain rfl : raw = raw' := RawCommand.prefixFree_put.injective (hput.trans hput'.symm)
    have hbytes := (Command.canonicalBytes_eq_iff hvalue).mpr hreduced
    have hvalid := (s.connection.valid.receipts hrow).1
    obtain ⟨requestId, rfl⟩ := exists_eq_toList hvalid.id_length
    obtain ⟨hash, hhash⟩ := exists_eq_toList hvalid.hash_length
    refine ⟨⟨requestId⟩, ⟨hash⟩, command, rfl, hhash, hdecodes, ?_⟩
    have hrow' : s.connection.Acknowledges command ⟨⟨requestId⟩, ⟨hash⟩, row.sequence⟩ :=
      ⟨by rw [hrow, ← hhash, hbytes, hput]⟩
    exact commit_of_acknowledges hrow' none ⟨rfl, rfl⟩

end Retry

section FirstTrack

def storePath : Path := ⟨true, ["store"]⟩

/-- The state of a store that was opened. -/
def opened [Sha256] (rows : Option Database) : Option State :=
  rows.bind fun rows => (openState storePath rows .faultless).toOption

theorem isSome_opened_firstTrackStore :
    letI := firstTrackSha256
    (opened firstTrackStore).isSome := by decide +kernel

end FirstTrack

section OneClip

/-- An asset and a clip of it, added after the first track. -/
def addOneAsset : Command :=
  .addAsset ⟨⟨Vector.replicate 16 0x2b⟩, ⟨Vector.replicate 32 0x2d, 4096, Vector.replicate 16 0x2e⟩⟩

def oneAssetHash : RevisionHash :=
  ⟨#v[0xe2, 0xb4, 0x8e, 0x4a, 0xa0, 0xb1, 0x83, 0xd3, 0xaa, 0x36, 0xcf, 0x5c,
  0x33, 0x3b, 0x8f, 0x2d, 0x8b, 0x79, 0x1c, 0x40, 0x19, 0xf8, 0xb5, 0x1f,
  0x43, 0xd5, 0x08, 0x16, 0xb7, 0xfd, 0xb5, 0x40]⟩

def firstHalf : TimeRange := ⟨Rational.zero, ⟨1, 2, by decide, by decide⟩, by decide⟩

def addOneClip : Command :=
  .addClip ⟨Vector.replicate 16 0x2c⟩ ⟨Vector.replicate 16 0x2b⟩ ⟨Vector.replicate 16 0x2a⟩
    firstHalf firstHalf

def oneClipHash : RevisionHash :=
  ⟨#v[0x50, 0x43, 0x39, 0xb5, 0x23, 0x40, 0x4b, 0x14, 0xb7, 0x3c, 0xc4, 0x98,
  0x79, 0x84, 0x69, 0xad, 0xd3, 0x4e, 0x58, 0xab, 0x63, 0x84, 0x34, 0x44,
  0xce, 0x96, 0x1a, 0x35, 0x47, 0x56, 0x3f, 0x57]⟩

@[reducible] def oneClipSha256 : Sha256 :=
  .ofKnown [(revisionBytes none addFirstTrack, firstTrackHash.bytes),
    (revisionBytes firstTrackHash addOneAsset, oneAssetHash.bytes),
    (revisionBytes oneAssetHash addOneClip, oneClipHash.bytes)]

/-- Three revisions with their receipts; the last one adds the clip, in the
bytes. -/
def clipStore (bytes : List UInt8) : Option Database := do
  let track := firstTrackHash.bytes.toList
  let asset := oneAssetHash.bytes.toList
  let clip := oneClipHash.bytes.toList
  let db ← Database.empty.insertRevision 1 ⟨track, none, addFirstTrack.canonicalBytes⟩
  let db ← db.insertRevision 2 ⟨asset, some track, addOneAsset.canonicalBytes⟩
  let db ← db.insertRevision 3 ⟨clip, some asset, bytes⟩
  let db ← db.insertReceipt (List.replicate 16 1) ⟨track, 1, addFirstTrack.canonicalBytes⟩
  let db ← db.insertReceipt (List.replicate 16 2) ⟨asset, 2, addOneAsset.canonicalBytes⟩
  let db ← db.insertReceipt (List.replicate 16 3) ⟨clip, 3, bytes⟩
  db.upsertHead ⟨3, clip⟩

theorem isSome_clipStore : (clipStore addOneClip.canonicalBytes).isSome := by decide +kernel

theorem isSome_opened_clipStore :
    letI := oneClipSha256
    (opened (clipStore addOneClip.canonicalBytes)).isSome := by decide +kernel

theorem honours_iff_clipStore :
    letI := oneClipSha256
    let s := (opened (clipStore addOneClip.canonicalBytes)).get isSome_opened_clipStore
    s.Honours (List.replicate 16 3) ⟨oneClipHash.bytes.toList, 3, addOneClip.canonicalBytes⟩ := by
  let _ := oneClipSha256
  have hopen : openState storePath ((clipStore addOneClip.canonicalBytes).get isSome_clipStore)
      .faultless = .ok ((opened (clipStore addOneClip.canonicalBytes)).get
        isSome_opened_clipStore) := by
    decide +kernel
  refine (honours_iff hopen (by decide +kernel)).mpr ⟨addOneClip.raw, addOneClip.put_raw, ?_⟩
  exact (RawCommand.eq_raw_iff addOneClip.value_raw).mp rfl

/-- The clip, with its timeline range written as `[0/7, 2/4)`. -/
def unreducedClip : RawCommand :=
  .addClip ⟨⟨Vector.replicate 16 0x2c⟩, ⟨Vector.replicate 16 0x2b⟩, ⟨Vector.replicate 16 0x2a⟩,
    ⟨⟨0, 7⟩, ⟨2, 4⟩⟩, firstHalf.raw⟩

/-- The store with the clip written so. -/
def unreducedStore : Option Database := clipStore unreducedClip.put

theorem isSome_opened_unreducedStore :
    letI := oneClipSha256
    (opened unreducedStore).isSome := by decide +kernel

/-- A store that opens answers the retry of a stored receipt with a
conflict. -/
theorem retry_conflicts_unreducedStore :
    letI := oneClipSha256
    let s := (opened unreducedStore).get isSome_opened_unreducedStore
    ∃ row, s.connection.receipts[List.replicate 16 (3 : UInt8)]? = some row ∧
      ¬ s.Honours (List.replicate 16 3) row := by
  let _ := oneClipSha256
  refine ⟨⟨oneClipHash.bytes.toList, 3, unreducedClip.put⟩, by decide +kernel, ?_⟩
  rintro ⟨requestId, hash, command, hid, -, hdecodes, hcommit⟩
  obtain rfl : requestId = ⟨Vector.replicate 16 3⟩ := by
    rw [← Id.toList_inj, ← hid]
    rfl
  obtain rfl : command = addOneClip := by
    have hclip : Command.fromCanonicalBytes unreducedClip.put = .ok addOneClip := by decide +kernel
    rw [hclip, Except.ok.injEq] at hdecodes
    exact hdecodes.symm
  have hconflict : (commit ⟨Vector.replicate 16 3⟩ addOneClip none .faultless
      ((opened unreducedStore).get isSome_opened_unreducedStore)).1 =
        .error (.error (.requestConflict ⟨Vector.replicate 16 3⟩)) := by decide +kernel
  rw [hcommit] at hconflict
  cases hconflict

end OneClip

end StitchEditor
