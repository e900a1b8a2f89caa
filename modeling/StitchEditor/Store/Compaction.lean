import Mathlib
import StitchEditor.Store.Client

/-!
# StitchEditor.Store.Compaction

What a compaction that succeeds leaves of the snapshots: that of the head and
no other.

No snapshot lies beyond the head, as each references a revision, and there is
one revision for a sequence number; so the rows that `DELETE` keeps are one.
-/

namespace StitchEditor

open Chain Fallible Procedure Std

section Compaction

variable [Sha256]

/-- The snapshot of the head. -/
def State.headSnapshot (s : State) (head : RevisionHash) : SnapshotKey × SnapshotRow :=
  (⟨s.sequence, head.bytes.toList⟩,
    ⟨s.project.canonicalBytes, s.project.semanticDigest.bytes.toList⟩)

variable {s : State} {commands : List Command} {head : RevisionHash} {env : Env}

/-- A stored snapshot lies at or behind the head. -/
theorem State.Tracks.snapshot_behind (ht : s.Tracks commands) (hhead : s.head = some head)
    {key : SnapshotKey} (hkey : key ∈ s.connection.snapshots) : key.sequence ≤ s.sequence ∧
      (key.sequence = s.sequence → key = (s.headSnapshot head).1) := by
  obtain ⟨row, hrow⟩ := Table.mem_iff_exists.mp hkey
  have href := (s.connection.valid.snapshots hrow).2
  obtain ⟨revision, hrevision, hhash⟩ := Tables.references_iff.mp href
  have hle := ((mem_revisions_iff ht.holds.spells).mp
    (Table.mem_iff_exists.mpr ⟨revision, hrevision⟩)).2
  refine ⟨by rw [ht.sequence]; exact hle, fun hsequence => ?_⟩
  have hsame := ht.references hhead
  rw [Tables.References, ← hsequence] at hsame
  rw [Tables.References, hsame, Option.some.injEq] at href
  cases key
  simp_all [State.headSnapshot]

/-- The snapshot of the head, once it is there, is the latest one. -/
theorem State.Tracks.latestSnapshot_eq (ht : s.Tracks commands) (hhead : s.head = some head)
    (hmem : (s.headSnapshot head).1 ∈ s.connection.snapshots) :
    s.connection.latestSnapshot = some (s.headSnapshot head) := by
  obtain ⟨row, hrow⟩ := Table.mem_iff_exists.mp hmem
  cases hlatest : s.connection.latestSnapshot with
  | none =>
      rw [Database.latestSnapshot, List.getLast?_eq_none_iff] at hlatest
      have hlisted := Table.mem_toList_iff.mpr hrow
      rw [hlatest] at hlisted
      cases hlisted
  | some latest =>
      obtain ⟨key, row'⟩ := latest
      obtain ⟨hrow', hmax⟩ := Database.latestSnapshot_eq_some_iff.mp hlatest
      have hge : s.sequence ≤ key.sequence := SnapshotKey.sequence_le_of_isLE (hmax _ hmem)
      obtain ⟨hle, hkey⟩ := ht.snapshot_behind hhead (Table.mem_iff_exists.mpr ⟨row', hrow'⟩)
      have hsequence : key.sequence = s.sequence := Int.le_antisymm hle hge
      obtain ⟨n, -, -, hcaptures, project, hash, hreplay, -, -, hproject, hdigest⟩ :=
        ht.holds.snapshot hlatest
      obtain rfl : n = commands.length := by
        have hlength := ht.sequence
        have hn : key.sequence = n := hcaptures
        omega
      rw [List.take_length, ht.replays, Except.ok.injEq] at hreplay
      obtain rfl := hkey hsequence
      subst hreplay
      cases row'
      simp_all [State.headSnapshot]

/-- Deletion leaves one snapshot. -/
theorem State.Tracks.toList_deleteOldSnapshots (ht : s.Tracks commands) (hhead : s.head = some head)
    (hmem : (s.headSnapshot head).1 ∈ s.connection.snapshots) :
    s.connection.deleteOldSnapshots.snapshots.toList = [s.headSnapshot head] := by
  have hlatest := ht.latestSnapshot_eq hhead hmem
  have hrow := (Database.latestSnapshot_eq_some_iff.mp hlatest).1
  refine Table.toList_eq_of_perm ((List.perm_ext_iff_of_nodup (Table.nodup_toList _)
    (List.nodup_singleton _)).mpr ?_) (List.pairwise_singleton _ _)
  rintro ⟨key, row⟩
  rw [Table.mem_toList_iff, List.mem_singleton]
  unfold Database.deleteOldSnapshots
  rw [hlatest]
  dsimp only [State.headSnapshot] at *
  rw [ExtTreeMap.getElem?_filter', Option.filter_eq_some_iff]
  constructor
  · rintro ⟨hrow', hkept⟩
    obtain ⟨hle, hkey⟩ := ht.snapshot_behind hhead (Table.mem_iff_exists.mpr ⟨row, hrow'⟩)
    obtain rfl := hkey (Int.le_antisymm hle (by simpa using hkept))
    obtain rfl := Option.some.inj (hrow'.symm.trans hrow)
    rfl
  · rintro ⟨⟩
    exact ⟨hrow, by simp⟩

/-- The row passes the checks of its table, so that `INSERT OR IGNORE` does
not skip it. -/
theorem State.Tracks.headSnapshot_valid (ht : s.Tracks commands) (hhead : s.head = some head) :
    (s.headSnapshot head).2.Valid (s.headSnapshot head).1 where
  sequence_valid := by
    obtain ⟨revision, hrevision, -⟩ := Tables.references_iff.mp (ht.references hhead)
    exact (s.connection.valid.revisions hrevision).sequence_valid
  hash_length := by simp [State.headSnapshot]
  project_nonempty := by simp [State.headSnapshot, Project.canonicalBytes, projectMagic]
  digest_length := by simp [State.headSnapshot]

theorem State.Tracks.mem_of_stageSnapshot (ht : s.Tracks commands) (hhead : s.head = some head)
    {rows : Database} (h : stageSnapshot s head env = .ok rows) :
    (s.headSnapshot head).1 ∈ rows.snapshots := by
  simp only [stageSnapshot, bind_eq_ok_iff, constrained_eq_ok_iff, pure_eq_ok_iff] at h
  obtain ⟨_, -, _, -, rows', hinsert, _, -, rfl⟩ := h
  by_cases hmem : (s.headSnapshot head).1 ∈ s.connection.snapshots
  · obtain rfl | ⟨hnew, -⟩ := Database.insertOrIgnoreSnapshot_spec hinsert
    · exact hmem
    · exact absurd hmem hnew
  · have hcheck := ht.headSnapshot_valid hhead
    unfold Database.insertOrIgnoreSnapshot at hinsert
    rw [dif_pos ⟨hmem, hcheck⟩, dif_pos (ht.references hhead)] at hinsert
    cases hinsert
    exact ExtTreeMap.mem_insert_self

/-- A snapshot that was taken is there. -/
theorem State.Tracks.ensures_persistSnapshot_mem (ht : s.Tracks commands)
    (hhead : s.head = some head) (env : Env) : Ensures (persistSnapshot none env) s fun result s' =>
      result = .ok () → s.Maintains s' ∧ (s.headSnapshot head).1 ∈ s'.connection.snapshots := by
  refine Ensures.get_bind ?_
  split
  · next hempty =>
    -- without revisions there is no head
    rw [ht.head] at hhead
    rw [ht.sequence] at hempty
    obtain rfl := List.length_eq_zero_iff.mp (Int.ofNat_eq_zero.mp hempty)
    cases hhead
  · refine Ensures.lift_bind (fun _ _ => nofun) fun _ _ => ?_
    split
    · exact .lift nofun
    · next head' hhead' =>
      obtain rfl : head' = head := Option.some.inj (hhead'.symm.trans hhead)
      refine Ensures.lift_bind (fun _ _ => nofun) fun _ _ => ?_
      split
      · next hmem => exact .pure fun _ => ⟨.refl s, hmem⟩
      · refine Ensures.lift_bind (fun _ _ => nofun) fun _ _ =>
          Ensures.lift_bind (fun _ _ => nofun) fun rows hrows => ?_
        have hstaged := mapErr_eq_ok_iff.mp hrows
        refine Ensures.set_bind (.lift fun _ => ?_)
        exact ⟨stageSnapshot_maintains hhead hstaged, ht.mem_of_stageSnapshot hhead hstaged⟩

/-- **A compaction that succeeds** leaves the snapshot of the head alone in
its table. -/
theorem State.Tracks.ensures_compact_ok (ht : s.Tracks commands) (hhead : s.head = some head)
    (fault : Option FaultPoint) (env : Env) : Ensures (compact fault env) s fun result s' =>
      result = .ok () → s'.connection.snapshots.toList = [s.headSnapshot head] := by
  refine Ensures.lift_bind (fun _ _ => nofun) fun _ _ =>
    (ht.ensures_persistSnapshot_mem hhead env).bind (fun _ _ _ => nofun) fun _ s₁ hsnapshot =>
      Ensures.lift_bind (fun _ _ => nofun) fun _ _ => Ensures.modify_bind ?_
  obtain ⟨hmaintains, hmem⟩ := hsnapshot rfl
  have hsame : s₁.headSnapshot head = s.headSnapshot head := by
    rw [State.headSnapshot, State.headSnapshot, hmaintains.sequence, hmaintains.project]
  have hone : s₁.connection.deleteOldSnapshots.snapshots.toList = [s.headSnapshot head] := by
    rw [← hsame] at hmem ⊢
    exact (hmaintains.tracks ht).toList_deleteOldSnapshots (hmaintains.head.trans hhead) hmem
  exact Ensures.lift_bind (fun _ _ _ => hone) fun _ _ =>
    Ensures.lift_bind (fun _ _ _ => hone) fun _ _ =>
      Ensures.lift_bind (fun _ _ _ => hone) fun _ _ => .lift fun _ => hone

end Compaction

end StitchEditor
