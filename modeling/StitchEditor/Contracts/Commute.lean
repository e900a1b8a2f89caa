import Mathlib
import StitchEditor.Lib.Commute
import StitchEditor.Contracts.Codec
import StitchEditor.Contracts.Reach

/-!
# StitchEditor.Contracts.Commute

Edits that do not depend on each other, in any order.

On a well-formed project an edit is a condition on what exists
(`Command.Enabled`) and a change of the tables entry by entry
(`Project.edit`); neither looks at an entry that an independent edit
changes.
-/

namespace StitchEditor

open Std Run

/-! ## dependence -/

/-- The clip that a clip command names. -/
def Command.clipId? : Command → Option ClipId
  | .addAsset _ => none
  | .addTrack _ => none
  | .addClip clipId _ _ _ _ => some clipId
  | .moveClip clipId _ => some clipId
  | .removeClip clipId => some clipId

/-- Two commands whose order matters. -/
inductive Command.Dependent : Command → Command → Prop where
  | asset {a b : Asset} (h : a.id = b.id) : Dependent (.addAsset a) (.addAsset b)
  | track {k : TrackId} : Dependent (.addTrack k) (.addTrack k)
  | clipAsset {c : ClipId} {a : Asset} {k : TrackId} {r r' : TimeRange} :
      Dependent (.addClip c a.id k r r') (.addAsset a)
  | assetClip {c : ClipId} {a : Asset} {k : TrackId} {r r' : TimeRange} :
      Dependent (.addAsset a) (.addClip c a.id k r r')
  | clipTrack {c : ClipId} {a : AssetId} {k : TrackId} {r r' : TimeRange} :
      Dependent (.addClip c a k r r') (.addTrack k)
  | trackClip {c : ClipId} {a : AssetId} {k : TrackId} {r r' : TimeRange} :
      Dependent (.addTrack k) (.addClip c a k r r')
  | sameTrack {c d : ClipId} {a b : AssetId} {k : TrackId} {r r' s s' : TimeRange} :
      Dependent (.addClip c a k r r') (.addClip d b k s s')
  | sameClip {x y : Command} {c : ClipId} (hx : x.clipId? = some c) (hy : y.clipId? = some c) :
      Dependent x y

theorem Command.Dependent.symm {x y : Command} (h : x.Dependent y) : y.Dependent x := by
  cases h with
  | asset h => exact .asset h.symm
  | track => exact .track
  | clipAsset => exact .assetClip
  | assetClip => exact .clipAsset
  | clipTrack => exact .trackClip
  | trackClip => exact .clipTrack
  | sameTrack => exact .sameTrack
  | sameClip hx hy => exact .sameClip hy hx

/-! ## edits entry by entry -/

/-- What has to exist for the command, and what must not. -/
def Command.Enabled (p : Project) : Command → Prop
  | .addAsset asset => asset.id ∉ p.assets
  | .addTrack trackId => trackId ∉ p.tracks
  | .addClip clipId assetId trackId _ _ =>
      clipId ∉ p.clips ∧ assetId ∈ p.assets ∧ trackId ∈ p.tracks
  | .moveClip clipId _ => clipId ∈ p.clips
  | .removeClip clipId => clipId ∈ p.clips

def Track.push (clipId : ClipId) (track : Track) : Track :=
  { track with clipIds := track.clipIds ++ [clipId] }

def Track.drop (clipId : ClipId) (track : Track) : Track :=
  { track with clipIds := track.clipIds.filter (· ≠ clipId) }

/-- What the command changes.  A clip leaves every track that lists it. -/
def Project.edit (p : Project) : Command → Project
  | .addAsset asset => { p with assets := p.assets.insert asset.id asset }
  | .addTrack trackId => { p with tracks := p.tracks.insert trackId ⟨trackId, []⟩ }
  | .addClip clipId assetId trackId timelineRange sourceRange =>
      { p with
        tracks := p.tracks.modify trackId (Track.push clipId)
        clips := p.clips.insert clipId ⟨clipId, assetId, trackId, timelineRange, sourceRange⟩ }
  | .moveClip clipId timelineRange =>
      { p with
        clips := p.clips.modify clipId fun clip => { clip with timelineRange := timelineRange } }
  | .removeClip clipId =>
      { p with
        tracks := p.tracks.map fun _ => Track.drop clipId
        clips := p.clips.erase clipId }

/-- **On a well-formed project** `reduce` edits where it is enabled. -/
theorem Project.WellFormed.reduce_eq_ok_iff {p q : Project} (h : p.WellFormed) {x : Command} :
    reduce p x = .ok q ↔ x.Enabled p ∧ q = p.edit x := by
  cases x with
  | addAsset asset => exact reduce_addAsset_eq_ok_iff
  | addTrack trackId => exact reduce_addTrack_eq_ok_iff
  | addClip c a k r r' =>
      rw [reduce_addClip_eq_ok_iff, Command.Enabled, edit, Table.mem_iff_exists (k := k)]
      constructor
      · rintro ⟨hc, ha, track, ht, rfl⟩
        exact ⟨⟨hc, ha, track, ht⟩, by rw [Table.modify_eq_insert _ ht]; rfl⟩
      · rintro ⟨⟨hc, ha, track, ht⟩, rfl⟩
        exact ⟨hc, ha, track, ht, by rw [Table.modify_eq_insert _ ht]; rfl⟩
  | moveClip c r =>
      rw [reduce_moveClip_eq_ok_iff, Command.Enabled, edit, Table.mem_iff_exists]
      constructor
      · rintro ⟨clip, hclip, rfl⟩
        exact ⟨⟨clip, hclip⟩, by rw [Table.modify_eq_insert _ hclip]⟩
      · rintro ⟨⟨clip, hclip⟩, rfl⟩
        exact ⟨clip, hclip, by rw [Table.modify_eq_insert _ hclip]⟩
  | removeClip c =>
      -- the clip is listed by its own track only
      have hdrop : ∀ {clip track}, p.clips[c]? = some clip → p.tracks[clip.trackId]? = some track →
          (p.tracks.map fun _ => Track.drop c) = p.tracks.insert clip.trackId (track.drop c) := by
        intro clip track hclip ht
        refine Table.map_eq_insert _ ht fun k other hne hother => ?_
        have hnot : ∀ d ∈ other.clipIds, d ≠ c := by
          rintro d hd rfl
          obtain ⟨clip', hclip', hplace⟩ := h.listed hother hd
          rw [hclip, Option.some.injEq] at hclip'
          exact hne (by rw [hclip', hplace])
        rw [Track.drop, List.filter_eq_self.mpr (by simpa using hnot)]
      rw [reduce_removeClip_eq_ok_iff, Command.Enabled, edit, Table.mem_iff_exists]
      constructor
      · rintro ⟨clip, hclip, track, ht, rfl⟩
        exact ⟨⟨clip, hclip⟩, by rw [hdrop hclip ht]; rfl⟩
      · rintro ⟨⟨clip, hclip⟩, rfl⟩
        obtain ⟨track, ht, -⟩ := h.placed hclip
        exact ⟨clip, hclip, track, ht, by rw [hdrop hclip ht]; rfl⟩

/-! ## one entry -/

namespace Command

/-- What the command does to one entry of each table. -/
def onAsset (id : AssetId) (entry : Option Asset) : Command → Option Asset
  | .addAsset asset => if id = asset.id then some asset else entry
  | _ => entry

def onTrack (id : TrackId) (entry : Option Track) : Command → Option Track
  | .addTrack trackId => if id = trackId then some ⟨trackId, []⟩ else entry
  | .addClip clipId _ trackId _ _ => if id = trackId then entry.map (Track.push clipId) else entry
  | .removeClip clipId => entry.map (Track.drop clipId)
  | _ => entry

def onClip (id : ClipId) (entry : Option Clip) : Command → Option Clip
  | .addClip clipId assetId trackId timelineRange sourceRange =>
      if id = clipId then some ⟨clipId, assetId, trackId, timelineRange, sourceRange⟩ else entry
  | .moveClip clipId timelineRange =>
      if id = clipId then
        entry.map fun clip => { clip with timelineRange := timelineRange } else entry
  | .removeClip clipId => if id = clipId then none else entry
  | _ => entry

variable {a b : Command} {p : Project}

@[simp] theorem getElem?_edit_assets (x : AssetId) :
    (p.edit a).assets[x]? = a.onAsset x p.assets[x]? := by
  cases a with
  | addAsset asset => exact Table.getElem?_insert_eq _ _ _ _
  | addTrack trackId => rfl
  | addClip c y k r r' => rfl
  | moveClip c r => rfl
  | removeClip c => rfl

@[simp] theorem getElem?_edit_tracks (k : TrackId) :
    (p.edit a).tracks[k]? = a.onTrack k p.tracks[k]? := by
  cases a with
  | addAsset asset => rfl
  | addTrack trackId => exact Table.getElem?_insert_eq _ _ _ _
  | addClip c y k' r r' =>
      simp only [Project.edit, onTrack, Table.getElem?_modify_eq]
      by_cases hk : k = k' <;> simp [hk]
  | moveClip c r => rfl
  | removeClip c => exact ExtTreeMap.getElem?_map

@[simp] theorem getElem?_edit_clips (c : ClipId) :
    (p.edit a).clips[c]? = a.onClip c p.clips[c]? := by
  cases a with
  | addAsset asset => rfl
  | addTrack trackId => rfl
  | addClip c' y k r r' => exact Table.getElem?_insert_eq _ _ _ _
  | moveClip c' r =>
      simp only [Project.edit, onClip, Table.getElem?_modify_eq]
      by_cases hc : c = c' <;> simp [hc]
  | removeClip c' => exact Table.getElem?_erase_eq _ _ _

/-! ## independent edits -/

/-- Only clip commands that name the clip touch it. -/
theorem onClip_of_clipId?_ne {c : ClipId} {entry : Option Clip} (h : a.clipId? ≠ some c) :
    a.onClip c entry = entry := by
  cases a <;> simp_all [onClip, clipId?, eq_comm]

theorem onClip_comm (h : ¬ a.Dependent b) (c : ClipId) (entry : Option Clip) :
    b.onClip c (a.onClip c entry) = a.onClip c (b.onClip c entry) := by
  by_cases ha : a.clipId? = some c
  · have hb : b.clipId? ≠ some c := fun hb => h (.sameClip ha hb)
    rw [onClip_of_clipId?_ne hb, onClip_of_clipId?_ne hb]
  · rw [onClip_of_clipId?_ne ha, onClip_of_clipId?_ne ha]

theorem onAsset_comm (h : ¬ a.Dependent b) (x : AssetId) (entry : Option Asset) :
    b.onAsset x (a.onAsset x entry) = a.onAsset x (b.onAsset x entry) := by
  cases a <;> cases b <;> try rfl
  next asset asset' =>
    have hne : asset.id ≠ asset'.id := fun heq => h (.asset heq)
    simp only [onAsset]
    grind

/-- The track that an addition names. -/
def trackId? : Command → Option TrackId
  | .addTrack trackId => some trackId
  | .addClip _ _ trackId _ _ => some trackId
  | _ => none

theorem dependent_of_trackId? {k : TrackId} (ha : a.trackId? = some k) (hb : b.trackId? = some k) :
    a.Dependent b := by
  cases a <;> cases b <;> simp only [trackId?, Option.some.injEq, reduceCtorEq] at ha hb
  all_goals subst ha hb
  · exact .track
  · exact .trackClip
  · exact .clipTrack
  · exact .sameTrack

/-- Removing a clip commutes with what adds no such clip. -/
theorem onTrack_removeClip_comm {c : ClipId} (h : a.clipId? ≠ some c) (k : TrackId)
    (entry : Option Track) :
    (removeClip c).onTrack k (a.onTrack k entry) =
      a.onTrack k ((removeClip c).onTrack k entry) := by
  cases a with
  | addAsset asset => rfl
  | addTrack k' =>
      simp only [onTrack]
      by_cases hk : k = k' <;> simp [hk, Track.drop]
  | addClip d y k' r r' =>
      have hd : d ≠ c := fun heq => h (congrArg some heq)
      simp only [onTrack]
      by_cases hk : k = k' <;> cases entry <;> simp [hk, hd, Track.drop, Track.push]
  | moveClip d r => rfl
  | removeClip d =>
      simp only [onTrack]
      cases entry <;> simp [Track.drop, Bool.and_comm]

/-- Other commands touch the track they name. -/
theorem onTrack_of_trackId?_ne {k : TrackId} {entry : Option Track} (h : a.trackId? ≠ some k)
    (hremove : ∀ c, a ≠ .removeClip c) : a.onTrack k entry = entry := by
  cases a <;> simp_all [onTrack, trackId?, eq_comm]

theorem onTrack_comm (h : ¬ a.Dependent b) (k : TrackId) (entry : Option Track) :
    b.onTrack k (a.onTrack k entry) = a.onTrack k (b.onTrack k entry) := by
  by_cases ha : ∃ c, a = .removeClip c
  · obtain ⟨c, rfl⟩ := ha
    exact (onTrack_removeClip_comm (fun hb => h (.sameClip rfl hb)) k entry).symm
  by_cases hb : ∃ c, b = .removeClip c
  · obtain ⟨c, rfl⟩ := hb
    exact onTrack_removeClip_comm (fun ha => h (.sameClip ha rfl)) k entry
  simp only [not_exists] at ha hb
  by_cases hk : a.trackId? = some k
  · have hk' : b.trackId? ≠ some k := fun hk' => h (dependent_of_trackId? hk hk')
    rw [onTrack_of_trackId?_ne hk' hb, onTrack_of_trackId?_ne hk' hb]
  · rw [onTrack_of_trackId?_ne hk ha, onTrack_of_trackId?_ne hk ha]

/-- The changes of independent commands commute. -/
theorem edit_comm (h : ¬ a.Dependent b) : (p.edit a).edit b = (p.edit b).edit a := by
  have hassets : ((p.edit a).edit b).assets = ((p.edit b).edit a).assets :=
    ExtTreeMap.ext_getElem? fun x => by simpa using onAsset_comm h x _
  have htracks : ((p.edit a).edit b).tracks = ((p.edit b).edit a).tracks :=
    ExtTreeMap.ext_getElem? fun k => by simpa using onTrack_comm h k _
  have hclips : ((p.edit a).edit b).clips = ((p.edit b).edit a).clips :=
    ExtTreeMap.ext_getElem? fun c => by simpa using onClip_comm h c _
  have hschema : ∀ (q : Project) (x : Command), (q.edit x).schemaVersion = q.schemaVersion := by
    intro q x
    cases x <;> rfl
  rw [Project.mk.injEq, hschema, hschema, hschema, hschema]
  exact ⟨rfl, hassets, htracks, hclips⟩

theorem mem_edit_assets {x : AssetId} (h : ∀ asset, a = .addAsset asset → asset.id ≠ x) :
    x ∈ (p.edit a).assets ↔ x ∈ p.assets := by
  cases a <;> simp_all [Project.edit]

theorem mem_edit_tracks {k : TrackId} (h : a ≠ .addTrack k) :
    k ∈ (p.edit a).tracks ↔ k ∈ p.tracks := by
  cases a <;> simp_all [Project.edit, ExtTreeMap.mem_modify]

theorem mem_edit_clips {c : ClipId} (h : a.clipId? ≠ some c) :
    c ∈ (p.edit a).clips ↔ c ∈ p.clips := by
  rw [ExtTreeMap.mem_iff_isSome_getElem?, getElem?_edit_clips, onClip_of_clipId?_ne h,
    ExtTreeMap.mem_iff_isSome_getElem?]

/-- An edit does not enable or disable an independent command. -/
theorem enabled_edit_iff (h : ¬ a.Dependent b) : b.Enabled (p.edit a) ↔ b.Enabled p := by
  cases b with
  | addAsset asset =>
      exact not_congr (mem_edit_assets fun asset' heq hid => h (heq ▸ .asset hid))
  | addTrack k =>
      exact not_congr (mem_edit_tracks fun heq => h (heq ▸ .track))
  | addClip c y k r r' =>
      have hclip := mem_edit_clips (p := p) (a := a) (c := c) fun ha => h (.sameClip ha rfl)
      have hasset : y ∈ (p.edit a).assets ↔ y ∈ p.assets := by
        refine mem_edit_assets fun asset heq hid => ?_
        subst heq hid
        exact h .assetClip
      have htrack := mem_edit_tracks (p := p) (a := a) (k := k) fun heq => h (heq ▸ .trackClip)
      simp only [Enabled, hclip, hasset, htrack]
  | moveClip c r => exact mem_edit_clips fun ha => h (.sameClip ha rfl)
  | removeClip c => exact mem_edit_clips fun ha => h (.sameClip ha rfl)

/-- **Independent commands commute** on well-formed projects. -/
theorem commutes (h : ¬ a.Dependent b) :
    Commutes (fun p x q => reduce p x = .ok q) Project.WellFormed a b := by
  intro p q r hp ha hb
  have hq := hp.of_reduce ha
  obtain ⟨haenabled, rfl⟩ := hp.reduce_eq_ok_iff.mp ha
  obtain ⟨hbenabled, rfl⟩ := hq.reduce_eq_ok_iff.mp hb
  have hfirst : reduce p b = .ok (p.edit b) :=
    hp.reduce_eq_ok_iff.mpr ⟨(enabled_edit_iff h).mp hbenabled, rfl⟩
  have hsecond : a.Enabled (p.edit b) :=
    (enabled_edit_iff fun hdep => h hdep.symm).mpr haenabled
  exact ⟨p.edit b, hfirst, (hp.of_reduce hfirst).reduce_eq_ok_iff.mpr ⟨hsecond, edit_comm h⟩⟩

end Command

theorem reorder_foldlM {p q : Project} (hp : p.WellFormed) {commands commands' : List Command}
    (h : Reorders Command.Dependent commands commands') (hq : commands.foldlM reduce p = .ok q) :
    commands'.foldlM reduce p = .ok q := by
  have hrun := Runs.iff_foldlM_eq_ok.mpr hq
  refine Runs.iff_foldlM_eq_ok.mp (hrun.reorder ?_ ?_ h hp)
  · exact fun _ _ _ hp hr => hp.of_reduce hr
  · exact fun _ _ hindep => Command.commutes hindep

/-- **Independent edits in any order** succeed or fail together, and build the
same project. -/
theorem reorder_edits [Sha256] {p : Project} (hp : Reachable p) {commands commands' : List Command}
    (h : Reorders Command.Dependent commands commands') :
    ((∃ q, commands.foldlM reduce p = .ok q) ↔ ∃ q, commands'.foldlM reduce p = .ok q) ∧
    ∀ q q', commands.foldlM reduce p = .ok q → commands'.foldlM reduce p = .ok q' →
      q = q' ∧ q.canonicalBytes = q'.canonicalBytes ∧ q.semanticDigest = q'.semanticDigest := by
  have hwf := (Project.reachable_iff.mp hp).1
  have hback := h.symm fun _ _ hdep => hdep.symm
  constructor
  · constructor
    · rintro ⟨q, hq⟩
      exact ⟨q, reorder_foldlM hwf h hq⟩
    · rintro ⟨q, hq⟩
      exact ⟨q, reorder_foldlM hwf hback hq⟩
  · intro q q' hq hq'
    obtain rfl : q = q' := by
      rw [reorder_foldlM hwf h hq, Except.ok.injEq] at hq'
      exact hq'
    exact ⟨rfl, rfl, rfl⟩

def addRedAsset : Command :=
  .addAsset ⟨⟨Vector.replicate 16 0x2d⟩, ⟨Vector.replicate 32 0x2e, 4096, Vector.replicate 16 0x2f⟩⟩

/-- A track before an asset, and after it. -/
theorem reorder_edits_addRedAsset :
    ∃ q, [addFirstTrack, addRedAsset].foldlM reduce Project.default = .ok q ∧
      [addRedAsset, addFirstTrack].foldlM reduce Project.default = .ok q := by
  let _ := firstTrackSha256
  have hswap : Reorders Command.Dependent [addFirstTrack, addRedAsset]
      [addRedAsset, addFirstTrack] := by
    refine ⟨Equiv.swap 0 1, by decide, ?_⟩
    intro i j hij hdep
    fin_cases i <;> fin_cases j <;> simp at hij
    cases hdep with
    | sameClip hx _ => cases hx
  obtain ⟨hsucceed, hsame⟩ := reorder_edits .default hswap
  have hfirst : ∃ q, [addFirstTrack, addRedAsset].foldlM reduce Project.default = .ok q := ⟨_, rfl⟩
  obtain ⟨q', hq'⟩ := hsucceed.mp hfirst
  obtain ⟨q, hq⟩ := hfirst
  obtain rfl := (hsame q q' hq hq').1
  exact ⟨q, hq, hq'⟩

end StitchEditor
