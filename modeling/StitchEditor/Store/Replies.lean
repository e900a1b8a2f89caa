import Mathlib
import StitchEditor.Store.Retry

/-!
# StitchEditor.Store.Replies

What the reply of `commit` says about the state it leaves behind.
-/

namespace StitchEditor

open Chain Fallible Procedure Std

/-- The revision, the receipt and the head row of a commit agree. -/
structure Database.RecordsCommit (db : Database) (command : Command) (receipt : CommitReceipt) :
    Prop where
  revision : ∃ parentHash, db.revisions[receipt.sequence]? =
    some ⟨receipt.revisionHash.bytes.toList, parentHash, command.canonicalBytes⟩
  acknowledged : db.Acknowledges command receipt
  head : db.heads = some ⟨receipt.sequence, receipt.revisionHash.bytes.toList⟩

section Replies

variable [Sha256] {s s' : State} {requestId : RequestId} {command : Command}

/-- Rows and memory have advanced together by the command, as the receipt
says. -/
structure State.Advances (s : State) (command : Command) (receipt : CommitReceipt) (s' : State) :
    Prop where
  appends : s.Appends receipt.requestId command s'
  head : s'.head = some receipt.revisionHash
  sequence : s'.sequence = receipt.sequence
  records : s'.connection.RecordsCommit command receipt
  tracks : ∀ {commands : List Command}, s.Tracks commands → s'.Tracks (commands ++ [command])
  accepted : restore s'.connection .faultless = .ok (s'.project, s'.head, s'.sequence)

theorem State.Appends.recordsCommit (happ : s.Appends requestId command s') :
    s'.connection.RecordsCommit command (s.receipt requestId command) where
  revision := ⟨s.head.map fun hash => hash.bytes.toList, by
    rw [happ.revisions_eq]
    exact ExtTreeMap.getElem?_insert_self⟩
  acknowledged := ⟨by
    rw [happ.receipts_eq]
    exact ExtTreeMap.getElem?_insert_self⟩
  head := congrArg Tables.heads happ.rows

theorem State.Appends.advances {commands : List Command} (happ : s.Appends requestId command s')
    (ht : s.Tracks commands) : s.Advances command (s.receipt requestId command) s' where
  appends := happ
  head := happ.head
  sequence := happ.sequence
  records := happ.recordsCommit
  tracks := happ.tracks
  accepted := tracks_iff.mp ⟨_, happ.tracks ht⟩

/-- **Replies tell the truth about durability**: a definite error has left
everything as it was, an ambiguous one or a first receipt stands for exactly
one command more, and a repeated receipt has changed nothing. -/
theorem commit_replies_truthful
    (haccepted : restore s.connection .faultless = .ok (s.project, s.head, s.sequence))
    (requestId : RequestId) (command : Command) (fault : Option FaultPoint) (env : Env) :
    let (result, s') := commit requestId command fault env s
    (∀ stop, result = .error stop → stop.Definite → s' = s) ∧
    (∀ id, result = .error (.error (.ambiguous id)) →
      id = requestId ∧ ∃ receipt, receipt.requestId = requestId ∧ s.Advances command receipt s') ∧
    ∀ receipt, result = .ok receipt → receipt.requestId = requestId ∧
      (requestId.bytes.toList ∉ s.connection.receipts → s.Advances command receipt s') ∧
      (requestId.bytes.toList ∈ s.connection.receipts → s' = s) := by
  obtain ⟨commands, ht⟩ := tracks_iff.mpr haccepted
  have hcommits : s.Commits requestId command _ _ := ensures_commit fault env
  generalize commit requestId command fault env s = ended at hcommits
  obtain ⟨result, s'⟩ := ended
  cases hcommits with
  | kept hok herror =>
      refine ⟨fun _ _ _ => rfl, ?_, ?_⟩
      · intro id h
        exact absurd rfl (herror _ h id)
      · intro receipt h
        obtain ⟨rfl, hrow⟩ := hok receipt h
        have hmem : receipt.requestId.bytes.toList ∈ s'.connection.receipts :=
          Table.mem_iff_exists.mpr ⟨_, hrow.row⟩
        exact ⟨rfl, fun hfresh => absurd hmem hfresh, fun _ => rfl⟩
  | appended happends hresult =>
      have hadvances := happends.advances ht
      obtain rfl | rfl := hresult
      · refine ⟨nofun, nofun, ?_⟩
        rintro receipt ⟨⟩
        exact ⟨rfl, fun _ => hadvances, fun hmem => absurd hmem happends.fresh⟩
      · refine ⟨?_, ?_, nofun⟩
        · rintro stop ⟨⟩ hdefinite
          exact absurd rfl (hdefinite requestId)
        · rintro id ⟨⟩
          exact ⟨rfl, s.receipt requestId command, rfl, hadvances⟩

end Replies

section SecondTrack

theorem isSome_opened_beforeSecondTrack :
    letI := secondTrackSha256
    (opened firstTrackStore).isSome := by decide +kernel

/-- The commit of a second track: a transaction that fails leaves the store as
it was, and one whose reply is lost advances it. -/
theorem commit_replies_truthful_secondTrack :
    letI := secondTrackSha256
    let s := (opened firstTrackStore).get isSome_opened_beforeSecondTrack
    let failing := { Env.faultless with verdict := fun site =>
      if site = .commitCommit then .fails else .completes }
    s.sequence = 1 ∧
    (commit ⟨Vector.replicate 16 2⟩ addSecondTrack none failing s).2 = s ∧
    ∃ receipt, receipt.requestId = ⟨Vector.replicate 16 2⟩ ∧
      s.Advances addSecondTrack receipt (commit ⟨Vector.replicate 16 2⟩ addSecondTrack
        (some .afterCommitBeforeResponse) .faultless s).2 := by
  let _ := secondTrackSha256
  intro s failing
  have haccepted : restore s.connection .faultless = .ok (s.project, s.head, s.sequence) := by
    decide +kernel
  obtain ⟨hdefinite, -, -⟩ := commit_replies_truthful haccepted ⟨Vector.replicate 16 2⟩
    addSecondTrack none failing
  obtain ⟨-, hambiguous, -⟩ := commit_replies_truthful haccepted ⟨Vector.replicate 16 2⟩
    addSecondTrack (some .afterCommitBeforeResponse) .faultless
  refine ⟨by decide +kernel, hdefinite (.error (.sql .failed)) (by decide +kernel) ?_,
    (hambiguous ⟨Vector.replicate 16 2⟩ (by decide +kernel)).2⟩
  intro id heq
  cases heq

end SecondTrack

end StitchEditor
