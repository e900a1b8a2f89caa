import Mathlib
import StitchEditor.Lib.Table
import StitchEditor.Contracts.Project

/-!
# StitchEditor.Contracts.Invariant

The invariant that ties the three tables together, and the projects that
satisfy it.

`Project.WellFormed` says that every clip is listed exactly once, in the
list of its own track, and that its asset exists.  It is what `validate`
checks of a decoded project (`Project.validate_eq_ok_iff`), what `reduce`
preserves (`Project.WellFormed.of_reduce`), and, up to the size of a machine
word, what characterises the projects that edits reach from the empty one
(`Project.reachable_iff`).
-/

namespace StitchEditor

open Std

/-! ## the invariant -/

namespace Project

/-- `clipId` is a clip placed on track `trackId`. -/
def PlacedOn (p : Project) (trackId : TrackId) (clipId : ClipId) : Prop :=
  ∃ clip, p.clips[clipId]? = some clip ∧ clip.trackId = trackId

structure WellFormed (p : Project) : Prop where
  schema : p.schemaVersion = contractSchemaVersion
  asset_key : ∀ {k : AssetId} {asset : Asset}, p.assets[k]? = some asset → asset.id = k
  track_key : ∀ {k : TrackId} {track : Track}, p.tracks[k]? = some track → track.id = k
  clip_key : ∀ {k : ClipId} {clip : Clip}, p.clips[k]? = some clip → clip.id = k
  /-- A track lists a clip at most once. -/
  listed_nodup : ∀ {k : TrackId} {track : Track}, p.tracks[k]? = some track → track.clipIds.Nodup
  /-- What a track lists is placed on it. -/
  listed : ∀ {k : TrackId} {track : Track}, p.tracks[k]? = some track →
    ∀ {c : ClipId}, c ∈ track.clipIds → p.PlacedOn k c
  /-- A clip is listed by the track it is placed on. -/
  placed : ∀ {k : ClipId} {clip : Clip}, p.clips[k]? = some clip →
    ∃ track, p.tracks[clip.trackId]? = some track ∧ k ∈ track.clipIds
  /-- The asset of a clip exists. -/
  sourced : ∀ {k : ClipId} {clip : Clip}, p.clips[k]? = some clip → clip.assetId ∈ p.assets

/-- The lengths of tables and lists are `usize` words. -/
structure Addressable (p : Project) : Prop where
  assets : p.assets.size < 2 ^ 64
  tracks : p.tracks.size < 2 ^ 64
  clips : p.clips.size < 2 ^ 64
  clipIds : ∀ {k : TrackId} {track : Track}, p.tracks[k]? = some track →
    track.clipIds.length < 2 ^ 64

/-! ## what validation checks -/

/-- The clip ids of all tracks, in the order validation meets them. -/
def listedClips (p : Project) : List ClipId := p.tracks.toList.flatMap fun entry => entry.2.clipIds

theorem validateClip_eq_ok_iff {p : Project} {k : TrackId} {s s' : ExtTreeSet ClipId compare}
    {c : ClipId} :
    p.validateClip k s c = .ok s' ↔ c ∉ s ∧ p.PlacedOn k c ∧ s' = s.insert c := by
  unfold validateClip PlacedOn
  by_cases hmem : c ∈ s
  · simp [hmem]
  · rw [if_neg hmem]
    cases hclip : p.clips[c]? with
    | none => simp
    | some clip =>
        by_cases hk : clip.trackId = k
        · simp [hmem, hk, eq_comm]
        · simp [hk]

/-- One track's list passes when it is new, free of duplicates and placed
here. -/
theorem foldlM_validateClip_eq_ok_iff {p : Project} {k : TrackId}
    {s s' : ExtTreeSet ClipId compare} {ids : List ClipId} :
    ids.foldlM (p.validateClip k) s = .ok s' ↔
      ids.Nodup ∧ (∀ c ∈ ids, c ∉ s ∧ p.PlacedOn k c) ∧ s' = ids.foldl ExtTreeSet.insert s := by
  induction ids generalizing s with
  | nil => simp [pure, Except.pure, eq_comm]
  | cons c ids ih =>
      have hcons : (c :: ids).foldlM (p.validateClip k) s = .ok s' ↔
          ∃ t, p.validateClip k s c = .ok t ∧ ids.foldlM (p.validateClip k) t = .ok s' := by
        rw [List.foldlM_cons]
        cases p.validateClip k s c <;> simp [bind, Except.bind]
      rw [hcons]
      constructor
      · rintro ⟨t, hstep, hrest⟩
        obtain ⟨hfresh, hplaced, rfl⟩ := validateClip_eq_ok_iff.mp hstep
        obtain ⟨hnodup, hall, rfl⟩ := ih.mp hrest
        refine ⟨List.nodup_cons.mpr ⟨fun hmem => (hall c hmem).1 ?_, hnodup⟩, ?_, rfl⟩
        · simp [ExtTreeSet.mem_insert]
        · intro d hd
          rcases List.mem_cons.mp hd with rfl | hd
          · exact ⟨hfresh, hplaced⟩
          · exact ⟨fun hmem => (hall d hd).1 (by simp [ExtTreeSet.mem_insert, hmem]), (hall d hd).2⟩
      · rintro ⟨hnodup, hall, rfl⟩
        obtain ⟨hc, hnodup⟩ := List.nodup_cons.mp hnodup
        refine ⟨s.insert c, validateClip_eq_ok_iff.mpr ⟨(hall c (by simp)).1, (hall c (by simp)).2,
          rfl⟩, ih.mpr ⟨hnodup, fun d hd => ⟨?_, (hall d (by simp [hd])).2⟩, rfl⟩⟩
        rw [ExtTreeSet.mem_insert, LawfulEqCmp.compare_eq_iff_eq]
        rintro (rfl | hmem)
        · exact hc hd
        · exact (hall d (by simp [hd])).1 hmem

/-- All tracks pass when their keys are their ids and the lists behind each
other pass. -/
theorem foldlM_validateTrack_eq_ok_iff {p : Project} {s s' : ExtTreeSet ClipId compare}
    {entries : List (TrackId × Track)} :
    entries.foldlM p.validateTrack s = .ok s' ↔
      (∀ e ∈ entries, e.2.id = e.1 ∧ ∀ c ∈ e.2.clipIds, p.PlacedOn e.1 c) ∧
      (entries.flatMap fun e => e.2.clipIds).Nodup ∧
      (∀ c ∈ entries.flatMap fun e => e.2.clipIds, c ∉ s) ∧
      s' = (entries.flatMap fun e => e.2.clipIds).foldl ExtTreeSet.insert s := by
  induction entries generalizing s with
  | nil => simp [pure, Except.pure, eq_comm]
  | cons e entries ih =>
      have hcons : (e :: entries).foldlM p.validateTrack s = .ok s' ↔ e.2.id = e.1 ∧
          ∃ t, e.2.clipIds.foldlM (p.validateClip e.1) s = .ok t ∧
            entries.foldlM p.validateTrack t = .ok s' := by
        rw [List.foldlM_cons, validateTrack]
        by_cases hid : e.2.id = e.1
        · rw [if_neg (not_not.mpr hid)]
          cases e.2.clipIds.foldlM (p.validateClip e.1) s <;> simp [bind, Except.bind, hid]
        · simp [bind, Except.bind, hid]
      rw [hcons]
      constructor
      · rintro ⟨hid, t, hstep, hrest⟩
        obtain ⟨hnodup, hall, rfl⟩ := foldlM_validateClip_eq_ok_iff.mp hstep
        obtain ⟨hplaced, hnodup', hfresh, rfl⟩ := ih.mp hrest
        refine ⟨?_, ?_, ?_, ?_⟩
        · intro e' he'
          rcases List.mem_cons.mp he' with rfl | he'
          · exact ⟨hid, fun c hc => (hall c hc).2⟩
          · exact hplaced e' he'
        · rw [List.flatMap_cons, List.nodup_append]
          refine ⟨hnodup, hnodup', ?_⟩
          rintro c hc _ hd rfl
          exact hfresh c hd (Table.mem_foldl_insert.mpr (.inr hc))
        · intro c hc
          rcases List.mem_append.mp (List.flatMap_cons ▸ hc) with hc | hc
          · exact (hall c hc).1
          · exact fun hs => hfresh c hc (Table.mem_foldl_insert.mpr (.inl hs))
        · rw [List.flatMap_cons, List.foldl_append]
      · rintro ⟨hplaced, hnodup, hfresh, rfl⟩
        rw [List.flatMap_cons, List.nodup_append] at hnodup
        obtain ⟨hnodup, hnodup', hdisjoint⟩ := hnodup
        obtain ⟨hid, hhere⟩ := hplaced e List.mem_cons_self
        refine ⟨hid, _, foldlM_validateClip_eq_ok_iff.mpr ⟨hnodup, fun c hc =>
          ⟨hfresh c (by simp [hc]), hhere c hc⟩, rfl⟩, ih.mpr ⟨fun e' he' =>
            hplaced e' (List.mem_cons_of_mem _ he'), hnodup', fun c hc => ?_, ?_⟩⟩
        · rw [Table.mem_foldl_insert]
          rintro (hs | hd)
          · exact hfresh c (by rw [List.flatMap_cons]; exact List.mem_append_right _ hc) hs
          · exact hdisjoint c hd c hc rfl
        · rw [List.flatMap_cons, List.foldl_append]

/-- The checks after the loop over the tracks. -/
theorem clipChecks_eq_ok_iff {p : Project} (s : ExtTreeSet ClipId compare) :
    (if s.size ≠ p.clips.size then (.error .corruptProject : Except ModelError Unit)
      else if p.clips.toList.any fun (_, clip) =>
        !p.assets.contains clip.assetId || !p.tracks.contains clip.trackId then
          .error .corruptProject
      else .ok ()) = .ok () ↔ s.size = p.clips.size ∧
        ∀ e ∈ p.clips.toList, e.2.assetId ∈ p.assets ∧ e.2.trackId ∈ p.tracks := by
  by_cases hsize : s.size = p.clips.size
  · rw [if_neg (not_not.mpr hsize)]
    simp only [hsize, true_and]
    split
    · next hany =>
      simp only [reduceCtorEq, false_iff]
      intro hall
      obtain ⟨e, he, hbad⟩ := List.any_eq_true.mp hany
      have := hall e he
      simp [ExtTreeMap.mem_iff_contains.mp this.1, ExtTreeMap.mem_iff_contains.mp this.2] at hbad
    · next hany =>
      simp only [true_iff]
      intro e he
      have hgood := (Bool.not_eq_true _ ▸ hany : _ = false)
      rw [List.any_eq_false] at hgood
      have := hgood e he
      simp only [Bool.or_eq_true, Bool.not_eq_true', not_or, Bool.not_eq_false] at this
      exact ⟨ExtTreeMap.mem_iff_contains.mpr this.1, ExtTreeMap.mem_iff_contains.mpr this.2⟩
  · simp [hsize]

/-- Validation as three conditions on the whole project. -/
theorem validate_eq_ok_iff_lists {p : Project} :
    p.validate = .ok () ↔
      (∀ e ∈ p.tracks.toList, e.2.id = e.1 ∧ ∀ c ∈ e.2.clipIds, p.PlacedOn e.1 c) ∧
      p.listedClips.Nodup ∧ p.listedClips.length = p.clips.size ∧
      ∀ e ∈ p.clips.toList, e.2.assetId ∈ p.assets ∧ e.2.trackId ∈ p.tracks := by
  have hbind : p.validate = .ok () ↔ ∃ s, p.tracks.toList.foldlM p.validateTrack ∅ = .ok s ∧
      s.size = p.clips.size ∧
        ∀ e ∈ p.clips.toList, e.2.assetId ∈ p.assets ∧ e.2.trackId ∈ p.tracks := by
    unfold validate
    cases p.tracks.toList.foldlM p.validateTrack ∅ with
    | error e => simp [bind, Except.bind]
    | ok s => simpa [bind, Except.bind] using clipChecks_eq_ok_iff s
  have hsize : ∀ l : List ClipId, l.Nodup →
      (l.foldl ExtTreeSet.insert (∅ : ExtTreeSet ClipId compare)).size = l.length := by
    intro l hl
    rw [Table.size_foldl_insert hl fun _ _ => ExtTreeSet.not_mem_empty, ExtTreeSet.size_empty,
      Nat.zero_add]
  rw [hbind]
  constructor
  · rintro ⟨s, hfold, hcount, hclips⟩
    obtain ⟨hplaced, hnodup, -, rfl⟩ := foldlM_validateTrack_eq_ok_iff.mp hfold
    rw [hsize _ hnodup] at hcount
    exact ⟨hplaced, hnodup, hcount, hclips⟩
  · rintro ⟨hplaced, hnodup, hcount, hclips⟩
    exact ⟨_, foldlM_validateTrack_eq_ok_iff.mpr ⟨hplaced, hnodup, fun _ _ =>
      ExtTreeSet.not_mem_empty, rfl⟩, by rw [← listedClips, hsize _ hnodup, hcount], hclips⟩

theorem mem_listedClips {p : Project} {c : ClipId} :
    c ∈ p.listedClips ↔ ∃ (k : TrackId) (track : Track), p.tracks[k]? = some track ∧
      c ∈ track.clipIds := by
  simp only [listedClips, List.mem_flatMap, Prod.exists, Table.mem_toList_iff]

theorem PlacedOn.mem {p : Project} {k : TrackId} {c : ClipId} (h : p.PlacedOn k c) :
    c ∈ p.clips := by
  obtain ⟨clip, hclip, -⟩ := h
  exact Table.mem_iff_exists.mpr ⟨clip, hclip⟩

/-- The lists of different tracks do not share clips. -/
theorem WellFormed.nodup_listedClips {p : Project} (h : p.WellFormed) : p.listedClips.Nodup := by
  refine List.nodup_flatMap.mpr ⟨fun e he => h.listed_nodup (Table.mem_toList_iff.mp he), ?_⟩
  refine (ExtTreeMap.distinct_keys_toList (t := p.tracks)).imp_of_mem ?_
  rintro ⟨k, t⟩ ⟨k', t'⟩ ht ht' hne
  rw [Function.onFun, List.disjoint_left]
  intro c hc hc'
  obtain ⟨clip, hclip, rfl⟩ := h.listed (Table.mem_toList_iff.mp ht) hc
  obtain ⟨clip', hclip', rfl⟩ := h.listed (Table.mem_toList_iff.mp ht') hc'
  rw [hclip, Option.some.injEq] at hclip'
  subst hclip'
  exact hne ReflCmp.compare_self

theorem WellFormed.mem_listedClips_iff {p : Project} (h : p.WellFormed) {c : ClipId} :
    c ∈ p.listedClips ↔ c ∈ p.clips := by
  rw [mem_listedClips]
  constructor
  · rintro ⟨k, track, ht, hc⟩
    exact (h.listed ht hc).mem
  · intro hc
    obtain ⟨clip, hclip⟩ := Table.mem_iff_exists.mp hc
    obtain ⟨track, ht, hmem⟩ := h.placed hclip
    exact ⟨clip.trackId, track, ht, hmem⟩

theorem WellFormed.length_listedClips {p : Project} (h : p.WellFormed) :
    p.listedClips.length = p.clips.size :=
  Table.length_eq_size_of_mem_iff h.nodup_listedClips fun _ => h.mem_listedClips_iff

/-- **Validation is the invariant**: on tables keyed by the records' own
ids, `validate` accepts exactly the well-formed projects. -/
theorem validate_eq_ok_iff {p : Project} (hschema : p.schemaVersion = contractSchemaVersion)
    (hassets : ∀ {k : AssetId} {asset : Asset}, p.assets[k]? = some asset → asset.id = k)
    (hclips : ∀ {k : ClipId} {clip : Clip}, p.clips[k]? = some clip → clip.id = k) :
    p.validate = .ok () ↔ p.WellFormed := by
  rw [validate_eq_ok_iff_lists]
  constructor
  · rintro ⟨htracks, hnodup, hcount, hrefs⟩
    have hplaced : ∀ {k : TrackId} {track : Track}, p.tracks[k]? = some track →
        ∀ {c : ClipId}, c ∈ track.clipIds → p.PlacedOn k c := by
      intro k track ht c hc
      exact (htracks _ (Table.mem_toList_iff.mpr ht)).2 _ hc
    refine ⟨hschema, hassets, ?_, hclips, ?_, hplaced, ?_, ?_⟩
    · exact fun ht => (htracks _ (Table.mem_toList_iff.mpr ht)).1
    · exact fun ht => (List.nodup_flatMap.mp hnodup).1 _ (Table.mem_toList_iff.mpr ht)
    · -- as many clips as listed ids: every clip is listed somewhere, hence on its track
      intro c clip hclip
      have hall : ∀ d ∈ p.listedClips, d ∈ p.clips := by
        intro d hd
        obtain ⟨k, track, ht, hd⟩ := mem_listedClips.mp hd
        exact (hplaced ht hd).mem
      have hmem := Table.mem_of_length_eq_size hnodup hall hcount
        (Table.mem_iff_exists.mpr ⟨clip, hclip⟩)
      obtain ⟨k, track, ht, hc⟩ := mem_listedClips.mp hmem
      obtain ⟨clip', hclip', rfl⟩ := hplaced ht hc
      rw [hclip, Option.some.injEq] at hclip'
      subst hclip'
      exact ⟨track, ht, hc⟩
    · exact fun hclip => (hrefs _ (Table.mem_toList_iff.mpr hclip)).1
  · intro h
    refine ⟨fun e he => ?_, h.nodup_listedClips, h.length_listedClips, fun e he => ?_⟩
    · have ht := Table.mem_toList_iff.mp he
      exact ⟨h.track_key ht, fun c hc => h.listed ht hc⟩
    · have hclip := Table.mem_toList_iff.mp he
      obtain ⟨track, ht, -⟩ := h.placed hclip
      exact ⟨h.sourced hclip, Table.mem_iff_exists.mpr ⟨track, ht⟩⟩

end Project

/-! ## what a successful edit does -/

section Reduce

variable {p q : Project}

theorem reduce_addAsset_eq_ok_iff {asset : Asset} :
    reduce p (.addAsset asset) = .ok q ↔
      asset.id ∉ p.assets ∧ q = { p with assets := p.assets.insert asset.id asset } := by
  simp only [reduce]
  by_cases h : asset.id ∈ p.assets <;> simp [h, eq_comm]

theorem reduce_addTrack_eq_ok_iff {k : TrackId} :
    reduce p (.addTrack k) = .ok q ↔
      k ∉ p.tracks ∧ q = { p with tracks := p.tracks.insert k ⟨k, []⟩ } := by
  simp only [reduce]
  by_cases h : k ∈ p.tracks <;> simp [h, eq_comm]

theorem reduce_addClip_eq_ok_iff {c : ClipId} {a : AssetId} {k : TrackId} {r r' : TimeRange} :
    reduce p (.addClip c a k r r') = .ok q ↔ c ∉ p.clips ∧ a ∈ p.assets ∧
      ∃ track, p.tracks[k]? = some track ∧ q = { p with
        tracks := p.tracks.insert k { track with clipIds := track.clipIds ++ [c] }
        clips := p.clips.insert c ⟨c, a, k, r, r'⟩ } := by
  simp only [reduce]
  by_cases hc : c ∈ p.clips
  · simp [hc]
  · by_cases ha : a ∈ p.assets
    · cases ht : p.tracks[k]? <;> simp [hc, ha, eq_comm]
    · simp [hc, ha]

theorem reduce_moveClip_eq_ok_iff {c : ClipId} {r : TimeRange} :
    reduce p (.moveClip c r) = .ok q ↔ ∃ clip, p.clips[c]? = some clip ∧
      q = { p with clips := p.clips.insert c { clip with timelineRange := r } } := by
  simp only [reduce]
  cases p.clips[c]? <;> simp [eq_comm]

theorem reduce_removeClip_eq_ok_iff {c : ClipId} :
    reduce p (.removeClip c) = .ok q ↔ ∃ clip, p.clips[c]? = some clip ∧
      ∃ track, p.tracks[clip.trackId]? = some track ∧ q = { p with
        tracks := p.tracks.insert clip.trackId
          { track with clipIds := track.clipIds.filter (· ≠ c) }
        clips := p.clips.erase c } := by
  simp only [reduce]
  cases p.clips[c]? with
  | none => simp
  | some clip =>
      dsimp only
      cases ht : p.tracks[clip.trackId]? with
      | none => simp [ht]
      | some track => simp [ht, eq_comm (a := q)]

end Reduce

/-! ## edits preserve the invariant -/

namespace Project.WellFormed

variable {p q : Project}

theorem default : Project.default.WellFormed where
  schema := rfl
  asset_key h := by simp [Project.default] at h
  track_key h := by simp [Project.default] at h
  clip_key h := by simp [Project.default] at h
  listed_nodup h := by simp [Project.default] at h
  listed h := by simp [Project.default] at h
  placed h := by simp [Project.default] at h
  sourced h := by simp [Project.default] at h

theorem addAsset (h : p.WellFormed) {asset : Asset} (hr : reduce p (.addAsset asset) = .ok q) :
    q.WellFormed := by
  obtain ⟨-, rfl⟩ := reduce_addAsset_eq_ok_iff.mp hr
  refine { h with asset_key := fun ha => ?_, sourced := fun hclip => ?_ }
  · obtain ⟨rfl, rfl⟩ | ⟨-, ha⟩ := Table.getElem?_insert_eq_some_iff.mp ha
    · rfl
    · exact h.asset_key ha
  · exact ExtTreeMap.mem_insert.mpr (.inr (h.sourced hclip))

theorem addTrack (h : p.WellFormed) {k : TrackId} (hr : reduce p (.addTrack k) = .ok q) :
    q.WellFormed := by
  obtain ⟨hfresh, rfl⟩ := reduce_addTrack_eq_ok_iff.mp hr
  refine { h with
    track_key := fun ht => ?_
    listed_nodup := fun ht => ?_
    listed := fun ht c hc => ?_
    placed := fun hclip => ?_ }
  · obtain ⟨rfl, rfl⟩ | ⟨-, ht⟩ := Table.getElem?_insert_eq_some_iff.mp ht
    · rfl
    · exact h.track_key ht
  · obtain ⟨rfl, rfl⟩ | ⟨-, ht⟩ := Table.getElem?_insert_eq_some_iff.mp ht
    · exact List.nodup_nil
    · exact h.listed_nodup ht
  · obtain ⟨rfl, rfl⟩ | ⟨-, ht⟩ := Table.getElem?_insert_eq_some_iff.mp ht
    · cases hc
    · exact h.listed ht hc
  · obtain ⟨t, ht, hc⟩ := h.placed hclip
    have hne : _ ≠ k := fun heq => hfresh (heq ▸ Table.mem_iff_exists.mpr ⟨t, ht⟩)
    exact ⟨t, Table.getElem?_insert_eq_some_iff.mpr (.inr ⟨hne, ht⟩), hc⟩

/-- The clips that were placed before an insertion of a new clip still
are. -/
theorem placedOn_insert {c : ClipId} {clip : Clip} (hc : c ∉ p.clips) {k : TrackId} {d : ClipId}
    (h : p.PlacedOn k d) :
    ∃ clip', (p.clips.insert c clip)[d]? = some clip' ∧ clip'.trackId = k := by
  obtain ⟨clip', hclip', hplace⟩ := h
  have hne : d ≠ c := fun heq => hc (heq ▸ Table.mem_iff_exists.mpr ⟨clip', hclip'⟩)
  exact ⟨clip', Table.getElem?_insert_eq_some_iff.mpr (.inr ⟨hne, hclip'⟩), hplace⟩

theorem addClip (h : p.WellFormed) {c : ClipId} {a : AssetId} {k : TrackId} {r r' : TimeRange}
    (hr : reduce p (.addClip c a k r r') = .ok q) : q.WellFormed := by
  obtain ⟨hc, ha, track, htrack, rfl⟩ := reduce_addClip_eq_ok_iff.mp hr
  have hfresh : c ∉ track.clipIds := fun hmem => hc (h.listed htrack hmem).mem
  refine ⟨h.schema, h.asset_key, fun ht => ?_, fun hclip => ?_, fun ht => ?_, fun ht d hd => ?_,
    fun {c'} clip hclip => ?_, fun hclip => ?_⟩
  · obtain ⟨rfl, rfl⟩ | ⟨-, ht⟩ := Table.getElem?_insert_eq_some_iff.mp ht
    · exact (h.track_key htrack : track.id = _)
    · exact h.track_key ht
  · obtain ⟨rfl, rfl⟩ | ⟨-, hclip⟩ := Table.getElem?_insert_eq_some_iff.mp hclip
    · rfl
    · exact h.clip_key hclip
  · obtain ⟨rfl, rfl⟩ | ⟨-, ht⟩ := Table.getElem?_insert_eq_some_iff.mp ht
    · exact List.nodup_append'.mpr ⟨h.listed_nodup htrack, by simp, by simpa using hfresh⟩
    · exact h.listed_nodup ht
  · obtain ⟨rfl, rfl⟩ | ⟨-, ht⟩ := Table.getElem?_insert_eq_some_iff.mp ht
    · rcases List.mem_append.mp hd with hd | hd
      · exact placedOn_insert hc (h.listed htrack hd)
      · rw [List.mem_singleton] at hd
        exact ⟨_, Table.getElem?_insert_eq_some_iff.mpr (.inl ⟨hd, rfl⟩), rfl⟩
    · exact placedOn_insert hc (h.listed ht hd)
  · obtain ⟨rfl, rfl⟩ | ⟨-, hclip⟩ := Table.getElem?_insert_eq_some_iff.mp hclip
    · exact ⟨_, Table.getElem?_insert_eq_some_iff.mpr (.inl ⟨rfl, rfl⟩), by simp⟩
    · obtain ⟨t, ht, hmem⟩ := h.placed hclip
      by_cases hk : clip.trackId = k
      · rw [hk, htrack, Option.some.injEq] at ht
        subst ht
        exact ⟨_, Table.getElem?_insert_eq_some_iff.mpr (.inl ⟨hk, rfl⟩), by simp [hmem]⟩
      · exact ⟨t, Table.getElem?_insert_eq_some_iff.mpr (.inr ⟨hk, ht⟩), hmem⟩
  · obtain ⟨rfl, rfl⟩ | ⟨-, hclip⟩ := Table.getElem?_insert_eq_some_iff.mp hclip
    · exact ha
    · exact h.sourced hclip

theorem moveClip (h : p.WellFormed) {c : ClipId} {r : TimeRange}
    (hr : reduce p (.moveClip c r) = .ok q) : q.WellFormed := by
  obtain ⟨clip₀, hclip₀, rfl⟩ := reduce_moveClip_eq_ok_iff.mp hr
  -- every clip keeps its id, its asset and its track
  have hback : ∀ {c' : ClipId} {clip : Clip},
      (p.clips.insert c { clip₀ with timelineRange := r })[c']? = some clip →
      ∃ clip', p.clips[c']? = some clip' ∧ clip.id = clip'.id ∧ clip.assetId = clip'.assetId ∧
        clip.trackId = clip'.trackId := by
    intro c' clip hclip
    obtain ⟨rfl, rfl⟩ | ⟨-, hclip⟩ := Table.getElem?_insert_eq_some_iff.mp hclip
    · exact ⟨clip₀, hclip₀, rfl, rfl, rfl⟩
    · exact ⟨clip, hclip, rfl, rfl, rfl⟩
  refine { h with
    clip_key := fun hclip => ?_
    listed := fun ht d hd => ?_
    placed := fun hclip => ?_
    sourced := fun hclip => ?_ }
  · obtain ⟨clip', hclip', hid, -, -⟩ := hback hclip
    rw [hid, h.clip_key hclip']
  · obtain ⟨clip, hclip, hplace⟩ := h.listed ht hd
    by_cases heq : d = c
    · subst heq
      rw [hclip₀, Option.some.injEq] at hclip
      subst hclip
      exact ⟨_, Table.getElem?_insert_eq_some_iff.mpr (.inl ⟨rfl, rfl⟩), hplace⟩
    · exact ⟨clip, Table.getElem?_insert_eq_some_iff.mpr (.inr ⟨heq, hclip⟩), hplace⟩
  · obtain ⟨clip', hclip', -, -, htrack⟩ := hback hclip
    rw [htrack]
    exact h.placed hclip'
  · obtain ⟨clip', hclip', -, hasset, -⟩ := hback hclip
    rw [hasset]
    exact h.sourced hclip'

theorem removeClip (h : p.WellFormed) {c : ClipId} (hr : reduce p (.removeClip c) = .ok q) :
    q.WellFormed := by
  obtain ⟨clip₀, hclip₀, track, htrack, rfl⟩ := reduce_removeClip_eq_ok_iff.mp hr
  refine ⟨h.schema, h.asset_key, fun ht => ?_, fun hclip => ?_, fun ht => ?_, fun ht d hd => ?_,
    fun {c'} clip hclip => ?_, fun hclip => ?_⟩
  · obtain ⟨rfl, rfl⟩ | ⟨-, ht⟩ := Table.getElem?_insert_eq_some_iff.mp ht
    · exact (h.track_key htrack : track.id = _)
    · exact h.track_key ht
  · exact h.clip_key (Table.getElem?_erase_eq_some_iff.mp hclip).2
  · obtain ⟨rfl, rfl⟩ | ⟨-, ht⟩ := Table.getElem?_insert_eq_some_iff.mp ht
    · exact (h.listed_nodup htrack).filter _
    · exact h.listed_nodup ht
  · obtain ⟨rfl, rfl⟩ | ⟨hk, ht⟩ := Table.getElem?_insert_eq_some_iff.mp ht
    · obtain ⟨hd, hne⟩ := List.mem_filter.mp hd
      obtain ⟨clip, hclip, hplace⟩ := h.listed htrack hd
      exact ⟨clip, Table.getElem?_erase_eq_some_iff.mpr ⟨by simpa using hne, hclip⟩, hplace⟩
    · obtain ⟨clip, hclip, hplace⟩ := h.listed ht hd
      -- the removed clip is listed by its own track only
      have hne : d ≠ c := by
        rintro rfl
        rw [hclip₀, Option.some.injEq] at hclip
        exact hk (hplace ▸ hclip ▸ rfl)
      exact ⟨clip, Table.getElem?_erase_eq_some_iff.mpr ⟨hne, hclip⟩, hplace⟩
  · obtain ⟨hne, hclip⟩ := Table.getElem?_erase_eq_some_iff.mp hclip
    obtain ⟨t, ht, hmem⟩ := h.placed hclip
    by_cases hk : clip.trackId = clip₀.trackId
    · rw [hk, htrack, Option.some.injEq] at ht
      subst ht
      exact ⟨_, Table.getElem?_insert_eq_some_iff.mpr (.inl ⟨hk, rfl⟩), by simp [hmem, hne]⟩
    · exact ⟨t, Table.getElem?_insert_eq_some_iff.mpr (.inr ⟨hk, ht⟩), hmem⟩
  · exact h.sourced (Table.getElem?_erase_eq_some_iff.mp hclip).2

/-- **Edits preserve the invariant.** -/
theorem of_reduce (h : p.WellFormed) {c : Command} (hr : reduce p c = .ok q) :
    q.WellFormed := by
  cases c with
  | addAsset asset => exact h.addAsset hr
  | addTrack trackId => exact h.addTrack hr
  | addClip clipId assetId trackId timelineRange sourceRange => exact h.addClip hr
  | moveClip clipId timelineRange => exact h.moveClip hr
  | removeClip clipId => exact h.removeClip hr

/-- On a well-formed project no edit finds a broken reference. -/
theorem reduce_ne_corruptProject (h : p.WellFormed) (c : Command) :
    reduce p c ≠ .error .corruptProject := by
  intro hr
  cases c with
  | addAsset asset => simp only [reduce] at hr; split at hr <;> cases hr
  | addTrack trackId => simp only [reduce] at hr; split at hr <;> cases hr
  | addClip clipId assetId trackId timelineRange sourceRange =>
      simp only [reduce] at hr
      split at hr
      · cases hr
      · split at hr
        · cases hr
        · split at hr <;> cases hr
  | moveClip clipId timelineRange => simp only [reduce] at hr; split at hr <;> cases hr
  | removeClip clipId =>
      simp only [reduce] at hr
      split at hr
      · cases hr
      · next clip hclip =>
        obtain ⟨t, ht, -⟩ := h.placed hclip
        rw [ht] at hr
        cases hr

end Project.WellFormed

end StitchEditor
