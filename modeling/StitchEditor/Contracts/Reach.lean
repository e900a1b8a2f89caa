import Mathlib
import StitchEditor.Contracts.Invariant

/-!
# StitchEditor.Contracts.Reach

The projects that edits reach from the empty one are the well-formed ones.

That edits keep the invariant is `Project.WellFormed.of_reduce`.  For the
converse an arbitrary well-formed project is taken apart
(`Project.WellFormed.exists_predecessor`): the last clip of a track is
removed, then an empty track or an asset, and each removal is undone by one
edit.
-/

namespace StitchEditor

open Std

/-- The projects that successful edits reach from the empty project.  Every
project of the run is a value of the program: its lengths are `usize`
words. -/
inductive Reachable : Project → Prop where
  | default : Reachable Project.default
  | step {p q : Project} (command : Command) (hp : Reachable p)
      (hreduce : reduce p command = .ok q) (hfits : q.Addressable) : Reachable q

namespace Project

variable {p q : Project}

/-! ## lengths -/

theorem WellFormed.length_clipIds_le (h : p.WellFormed) {k : TrackId} {track : Track}
    (ht : p.tracks[k]? = some track) : track.clipIds.length ≤ p.clips.size := by
  rw [← ExtTreeMap.length_keys]
  refine (List.subperm_of_subset (h.listed_nodup ht) fun c hc => ?_).length_le
  exact ExtTreeMap.mem_keys.mpr (h.listed ht hc).mem

theorem WellFormed.addressable (h : p.WellFormed) (hassets : p.assets.size < 2 ^ 64)
    (htracks : p.tracks.size < 2 ^ 64) (hclips : p.clips.size < 2 ^ 64) : p.Addressable :=
  ⟨hassets, htracks, hclips, fun ht => (h.length_clipIds_le ht).trans_lt hclips⟩

theorem addressable_default : Project.default.Addressable :=
  WellFormed.default.addressable (by decide) (by decide) (by decide)

/-- One edit adds at most one record to each table. -/
theorem size_le_of_reduce {c : Command} (hr : reduce p c = .ok q) :
    q.assets.size ≤ p.assets.size + 1 ∧ q.tracks.size ≤ p.tracks.size + 1 ∧
      q.clips.size ≤ p.clips.size + 1 := by
  cases c with
  | addAsset asset =>
      obtain ⟨-, rfl⟩ := reduce_addAsset_eq_ok_iff.mp hr
      exact ⟨ExtTreeMap.size_insert_le, Nat.le_succ _, Nat.le_succ _⟩
  | addTrack trackId =>
      obtain ⟨-, rfl⟩ := reduce_addTrack_eq_ok_iff.mp hr
      exact ⟨Nat.le_succ _, ExtTreeMap.size_insert_le, Nat.le_succ _⟩
  | addClip clipId assetId trackId timelineRange sourceRange =>
      obtain ⟨-, -, _, -, rfl⟩ := reduce_addClip_eq_ok_iff.mp hr
      exact ⟨Nat.le_succ _, ExtTreeMap.size_insert_le, ExtTreeMap.size_insert_le⟩
  | moveClip clipId timelineRange =>
      obtain ⟨_, -, rfl⟩ := reduce_moveClip_eq_ok_iff.mp hr
      exact ⟨Nat.le_succ _, Nat.le_succ _, ExtTreeMap.size_insert_le⟩
  | removeClip clipId =>
      obtain ⟨_, -, _, -, rfl⟩ := reduce_removeClip_eq_ok_iff.mp hr
      exact ⟨Nat.le_succ _, ExtTreeMap.size_insert_le,
        ExtTreeMap.size_erase_le.trans (Nat.le_succ _)⟩

/-- What a log of edits builds: a well-formed project no larger than the
log. -/
theorem wellFormed_of_replay {commands : List Command} {p : Project}
    (h : replay commands = .ok p) : p.WellFormed ∧ p.assets.size ≤ commands.length ∧
      p.tracks.size ≤ commands.length ∧ p.clips.size ≤ commands.length := by
  induction commands using List.reverseRecOn generalizing p with
  | nil =>
      cases h
      exact ⟨WellFormed.default, Nat.le_refl 0, Nat.le_refl 0, Nat.le_refl 0⟩
  | append_singleton commands command ih =>
      rw [replay_concat] at h
      cases hp : replay commands with
      | error e => rw [hp] at h; cases h
      | ok p' =>
          rw [hp] at h
          obtain ⟨hwf, hassets, htracks, hclips⟩ := ih hp
          obtain ⟨ha, ht, hc⟩ := size_le_of_reduce h
          rw [List.length_append, List.length_singleton]
          exact ⟨hwf.of_reduce h, by omega, by omega, by omega⟩

theorem addressable_of_replay {commands : List Command} {p : Project}
    (h : replay commands = .ok p) (hlen : commands.length < 2 ^ 64) : p.Addressable := by
  obtain ⟨hwf, hassets, htracks, hclips⟩ := wellFormed_of_replay h
  exact hwf.addressable (by omega) (by omega) (by omega)

/-! ## taking a project apart -/

/-- The number of records. -/
def weight (p : Project) : Nat := p.assets.size + p.tracks.size + p.clips.size

/-- `p'` is a smaller project that one edit turns into `p`. -/
def Precedes (p' p : Project) : Prop :=
  p'.WellFormed ∧ p'.weight < p.weight ∧ p'.assets.size ≤ p.assets.size ∧
    p'.tracks.size ≤ p.tracks.size ∧ p'.clips.size ≤ p.clips.size ∧
    ∃ c, reduce p' c = .ok p

/-- Undo adding the last clip of a track. -/
theorem WellFormed.precedes_of_clip (h : p.WellFormed) {k : TrackId} {track : Track}
    (ht : p.tracks[k]? = some track) {ids : List ClipId} {c : ClipId}
    (hids : track.clipIds = ids ++ [c]) : ∃ p', Precedes p' p := by
  obtain ⟨clip, hclip, rfl⟩ := h.listed ht (show c ∈ track.clipIds by simp [hids])
  have hfilter : track.clipIds.filter (· ≠ c) = ids := by
    have hnd := h.listed_nodup ht
    rw [hids, List.nodup_append] at hnd
    rw [hids, List.filter_append, List.filter_eq_self.mpr, List.filter_cons_of_neg (by simp),
      List.filter_nil, List.append_nil]
    intro d hd
    simpa using hnd.2.2 d hd c (by simp)
  have hc : c ∈ p.clips := Table.mem_iff_exists.mpr ⟨clip, hclip⟩
  have hk : clip.trackId ∈ p.tracks := Table.mem_iff_exists.mpr ⟨track, ht⟩
  let p' : Project := { p with
    tracks := p.tracks.insert clip.trackId { track with clipIds := ids }
    clips := p.clips.erase c }
  have hremove : reduce p (.removeClip c) = .ok p' :=
    reduce_removeClip_eq_ok_iff.mpr ⟨clip, hclip, track, ht, by rw [hfilter]⟩
  have hassets : p'.assets.size = p.assets.size := rfl
  have htracks : p'.tracks.size = p.tracks.size := Table.size_insert_of_mem hk
  have hclips : p'.clips.size + 1 = p.clips.size := Table.size_erase_add_one hc
  -- both tables go back to what they were
  have hadd : reduce p' (.addClip c clip.assetId clip.trackId clip.timelineRange clip.sourceRange) =
      .ok p := by
    refine reduce_addClip_eq_ok_iff.mpr ⟨Table.not_mem_erase_self, h.sourced hclip,
      { track with clipIds := ids }, ExtTreeMap.getElem?_insert_self, ?_⟩
    have htrack : { track with clipIds := ids ++ [c] } = track := by rw [← hids]
    have hself : (⟨c, clip.assetId, clip.trackId, clip.timelineRange, clip.sourceRange⟩ : Clip)
        = clip := by rw [← h.clip_key hclip]
    simp only [p', htrack, hself, Table.insert_insert_self ht, Table.insert_erase_self hclip]
  exact ⟨p', h.removeClip hremove, by unfold weight; omega, Nat.le_refl _, htracks.le, by omega,
    _, hadd⟩

/-- Undo adding a track, once no clips are left. -/
theorem WellFormed.precedes_of_track (h : p.WellFormed) (hclips : p.clips = ∅) {k : TrackId}
    {track : Track} (ht : p.tracks[k]? = some track) : ∃ p', Precedes p' p := by
  have hnone : ∀ {c : ClipId} {clip : Clip}, p.clips[c]? ≠ some clip := by simp [hclips]
  have hids : track.clipIds = [] := by
    refine List.eq_nil_iff_forall_not_mem.mpr fun c hc => ?_
    obtain ⟨clip, hclip, -⟩ := h.listed ht hc
    exact hnone hclip
  have hk : k ∈ p.tracks := Table.mem_iff_exists.mpr ⟨track, ht⟩
  let p' : Project := { p with tracks := p.tracks.erase k }
  have hback : ∀ {k' : TrackId} {t : Track}, p'.tracks[k']? = some t → p.tracks[k']? = some t :=
    fun ht' => (Table.getElem?_erase_eq_some_iff.mp ht').2
  have hwf : p'.WellFormed :=
    { h with
      track_key := fun ht => h.track_key (hback ht)
      listed_nodup := fun ht => h.listed_nodup (hback ht)
      listed := fun ht => h.listed (hback ht)
      placed := fun hclip => absurd hclip hnone }
  have hassets : p'.assets.size = p.assets.size := rfl
  have htracks : p'.tracks.size + 1 = p.tracks.size := Table.size_erase_add_one hk
  have hclips' : p'.clips.size = p.clips.size := rfl
  have hadd : reduce p' (.addTrack k) = .ok p := by
    refine reduce_addTrack_eq_ok_iff.mpr ⟨Table.not_mem_erase_self, ?_⟩
    have htrack : (⟨k, []⟩ : Track) = track := by rw [← hids, ← h.track_key ht]
    simp only [p', htrack, Table.insert_erase_self ht]
  exact ⟨p', hwf, by unfold weight; omega, hassets.le, by omega, hclips'.le, _, hadd⟩

/-- Undo adding an asset, once only assets are left. -/
theorem WellFormed.precedes_of_asset (h : p.WellFormed) (hclips : p.clips = ∅) {k : AssetId}
    {asset : Asset} (ha : p.assets[k]? = some asset) : ∃ p', Precedes p' p := by
  have hnone : ∀ {c : ClipId} {clip : Clip}, p.clips[c]? ≠ some clip := by simp [hclips]
  have hk : k ∈ p.assets := Table.mem_iff_exists.mpr ⟨asset, ha⟩
  obtain rfl := h.asset_key ha
  let p' : Project := { p with assets := p.assets.erase asset.id }
  have hwf : p'.WellFormed :=
    { h with
      asset_key := fun ha => h.asset_key (Table.getElem?_erase_eq_some_iff.mp ha).2
      placed := fun hclip => absurd hclip hnone
      sourced := fun hclip => absurd hclip hnone }
  have hassets : p'.assets.size + 1 = p.assets.size := Table.size_erase_add_one hk
  have htracks : p'.tracks.size = p.tracks.size := rfl
  have hclips' : p'.clips.size = p.clips.size := rfl
  have hadd : reduce p' (.addAsset asset) = .ok p := by
    refine reduce_addAsset_eq_ok_iff.mpr ⟨Table.not_mem_erase_self, ?_⟩
    simp only [p', Table.insert_erase_self ha]
  exact ⟨p', hwf, by unfold weight; omega, by omega, htracks.le, hclips'.le, _, hadd⟩

/-- Every well-formed project other than the empty one is one edit away from
a smaller one. -/
theorem WellFormed.exists_predecessor (h : p.WellFormed) (hne : 0 < p.weight) :
    ∃ p', Precedes p' p := by
  by_cases hclips : p.clips.size = 0
  · have hclips := Table.eq_empty_of_size_eq_zero hclips
    by_cases htracks : p.tracks.size = 0
    · obtain ⟨k, asset, ha⟩ := Table.exists_getElem?_of_size_pos (t := p.assets) (by
        rw [weight, htracks, hclips] at hne
        exact hne)
      exact h.precedes_of_asset hclips ha
    · obtain ⟨k, track, ht⟩ := Table.exists_getElem?_of_size_pos (Nat.pos_of_ne_zero htracks)
      exact h.precedes_of_track hclips ht
  · obtain ⟨c, clip, hclip⟩ := Table.exists_getElem?_of_size_pos (Nat.pos_of_ne_zero hclips)
    obtain ⟨track, ht, hc⟩ := h.placed hclip
    obtain ⟨ids, last, hids⟩ := (List.eq_nil_or_concat' track.clipIds).resolve_left
      (List.ne_nil_of_mem hc)
    exact h.precedes_of_clip ht hids

theorem WellFormed.eq_default (h : p.WellFormed) (hzero : p.weight = 0) : p = Project.default := by
  unfold weight at hzero
  have hassets := Table.eq_empty_of_size_eq_zero (t := p.assets) (by omega)
  have htracks := Table.eq_empty_of_size_eq_zero (t := p.tracks) (by omega)
  have hclips := Table.eq_empty_of_size_eq_zero (t := p.clips) (by omega)
  obtain ⟨schema, assets, tracks, clips⟩ := p
  obtain rfl : schema = contractSchemaVersion := h.schema
  subst hassets htracks hclips
  rfl

/-- **Reachability is the invariant**: the projects that edits reach are the
well-formed ones whose lengths fit a machine word. -/
theorem reachable_iff : Reachable p ↔ p.WellFormed ∧ p.Addressable := by
  constructor
  · intro h
    induction h with
    | default => exact ⟨WellFormed.default, addressable_default⟩
    | step command _ hreduce hfits ih => exact ⟨ih.1.of_reduce hreduce, hfits⟩
  · rintro ⟨hwf, hfits⟩
    generalize hn : p.weight = n
    induction n using Nat.strong_induction_on generalizing p with
    | _ n ih =>
      by_cases hzero : p.weight = 0
      · rw [hwf.eq_default hzero]
        exact .default
      · obtain ⟨p', hwf', hlt, ha, ht, hc, c, hr⟩ :=
          hwf.exists_predecessor (Nat.pos_of_ne_zero hzero)
        have hfits' : p'.Addressable := hwf'.addressable (ha.trans_lt hfits.assets)
          (ht.trans_lt hfits.tracks) (hc.trans_lt hfits.clips)
        exact .step c (ih _ (hn ▸ hlt) hwf' hfits' rfl) hr hfits

end Project

end StitchEditor
