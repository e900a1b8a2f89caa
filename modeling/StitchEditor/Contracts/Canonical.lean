import Mathlib
import StitchEditor.Contracts.Decode
import StitchEditor.Contracts.Reach

/-!
# StitchEditor.Contracts.Canonical

Encoding and decoding against each other.

Writing a value out as a raw value (`Command.raw`, `Project.raw`) and
interpreting it again is the identity, which gives the round trips
(`Command.fromCanonicalBytes_canonicalBytes`,
`Project.WellFormed.fromCanonicalBytes_canonicalBytes`).

The other way round a raw value need not be the one its meaning is written
out as: fractions may be unreduced, records may be out of order.
`RawCommand.Reduced` and `RawProject.Canonical` are exactly the raw values
that are (`RawCommand.eq_raw_iff`, `RawProject.Builds.eq_raw_iff`).
-/

namespace StitchEditor

open Wire Std

/-! ## values as they are written -/

namespace Rational

def raw (q : Rational) : RawRational := ⟨q.numerator, q.denominator⟩

theorem value_raw (q : Rational) : q.raw.value = some q := by
  rw [RawRational.value, raw, new_self]
  rfl

end Rational

theorem RawRational.eq_raw_iff {raw : RawRational} {q : Rational} (h : raw.value = some q) :
    raw = q.raw ↔ raw.Reduced := by
  obtain ⟨n, d⟩ := raw
  have hnew : Rational.new n d = .ok q := by
    rw [RawRational.value] at h
    cases hq : Rational.new n d with
    | error e => rw [hq] at h; cases h
    | ok q' => rw [hq] at h; cases h; rfl
  have hiff := Rational.new_eq_iff hnew
  rw [RawRational.Reduced, ← hiff, Rational.raw, RawRational.mk.injEq, eq_comm (a := n),
    eq_comm (a := d)]

namespace TimeRange

def raw (r : TimeRange) : RawRange := ⟨r.start.raw, r.stop.raw⟩

theorem value_raw (r : TimeRange) : r.raw.value = some r := by
  have hnew : TimeRange.new r.start r.stop = .ok r := TimeRange.new_eq_ok_iff.mpr ⟨rfl, rfl⟩
  simp [RawRange.value, raw, Rational.value_raw, hnew, Except.toOption]

end TimeRange

theorem RawRange.eq_raw_iff {raw : RawRange} {r : TimeRange} (h : raw.value = some r) :
    raw = r.raw ↔ raw.Reduced := by
  obtain ⟨rawStart, rawStop⟩ := raw
  obtain ⟨start, hstart, hrest⟩ := Option.bind_eq_some_iff.mp h
  obtain ⟨stop, hstop, hrange⟩ := Option.bind_eq_some_iff.mp hrest
  have hnew : TimeRange.new start stop = .ok r := by
    cases hq : TimeRange.new start stop with
    | error e => rw [hq] at hrange; cases hrange
    | ok r' => rw [hq] at hrange; cases hrange; rfl
  obtain ⟨rfl, rfl⟩ := TimeRange.new_eq_ok_iff.mp hnew
  rw [TimeRange.raw, RawRange.mk.injEq, RawRational.eq_raw_iff hstart, RawRational.eq_raw_iff hstop]
  rfl

namespace Clip

def raw (c : Clip) : RawClip :=
  ⟨c.id, c.assetId, c.trackId, c.timelineRange.raw, c.sourceRange.raw⟩

theorem value_raw (c : Clip) : c.raw.value = some c := by
  simp [RawClip.value, raw, TimeRange.value_raw]

end Clip

theorem RawClip.eq_raw_iff {raw : RawClip} {c : Clip} (h : raw.value = some c) :
    raw = c.raw ↔ raw.Reduced := by
  obtain ⟨timeline, htimeline, hrest⟩ := Option.bind_eq_some_iff.mp h
  obtain ⟨source, hsource, hclip⟩ := Option.bind_eq_some_iff.mp hrest
  cases hclip
  rw [RawClip.Reduced, ← RawRange.eq_raw_iff htimeline, ← RawRange.eq_raw_iff hsource]
  cases raw
  simp [Clip.raw]

theorem RawClip.id_eq_of_value {raw : RawClip} {c : Clip} (h : raw.value = some c) :
    c.id = raw.id := by
  obtain ⟨_, -, hrest⟩ := Option.bind_eq_some_iff.mp h
  obtain ⟨_, -, hclip⟩ := Option.bind_eq_some_iff.mp hrest
  cases hclip
  rfl

/-! ## commands -/

namespace Command

def raw : Command → RawCommand
  | .addAsset asset => .addAsset asset
  | .addTrack trackId => .addTrack trackId
  | .addClip clipId assetId trackId timelineRange sourceRange =>
      .addClip ⟨clipId, assetId, trackId, timelineRange.raw, sourceRange.raw⟩
  | .moveClip clipId timelineRange => .moveClip clipId timelineRange.raw
  | .removeClip clipId => .removeClip clipId

theorem put_raw (c : Command) : c.raw.put = c.canonicalBytes := by
  cases c <;> rfl

theorem value_raw (c : Command) : c.raw.value = some c := by
  cases c <;> simp [raw, RawCommand.value, RawClip.value, TimeRange.value_raw]

/-- **Commands round-trip.** -/
theorem fromCanonicalBytes_canonicalBytes (c : Command) :
    fromCanonicalBytes c.canonicalBytes = .ok c :=
  fromCanonicalBytes_eq_ok_iff.mpr ⟨c.raw, c.put_raw, c.value_raw⟩

theorem canonicalBytes_injective : Function.Injective canonicalBytes := by
  intro c c' h
  have hc := fromCanonicalBytes_canonicalBytes c
  rw [h, fromCanonicalBytes_canonicalBytes, Except.ok.injEq] at hc
  exact hc.symm

end Command

theorem RawCommand.eq_raw_iff {raw : RawCommand} {c : Command} (h : raw.value = some c) :
    raw = c.raw ↔ raw.Reduced := by
  cases raw with
  | addAsset asset => cases h; simp [Command.raw, RawCommand.Reduced]
  | addTrack trackId => cases h; simp [Command.raw, RawCommand.Reduced]
  | addClip clip =>
      obtain ⟨value, hvalue, rfl⟩ := Option.map_eq_some_iff.mp h
      simp only [RawCommand.Reduced, ← RawClip.eq_raw_iff hvalue, Command.raw, addClip.injEq]
      rfl
  | moveClip clipId timelineRange =>
      obtain ⟨value, hvalue, rfl⟩ := Option.map_eq_some_iff.mp h
      simp [RawCommand.Reduced, ← RawRange.eq_raw_iff hvalue, Command.raw]
  | removeClip clipId => cases h; simp [Command.raw, RawCommand.Reduced]

/-- A decoded command encodes to the bytes it came from exactly when its
time values were written in lowest terms. -/
theorem Command.canonicalBytes_eq_iff {raw : RawCommand} {c : Command} (h : raw.value = some c) :
    c.canonicalBytes = raw.put ↔ raw.Reduced := by
  rw [← RawCommand.eq_raw_iff h, ← Command.put_raw, RawCommand.prefixFree_put.injective.eq_iff,
    eq_comm]

/-! ## projects -/

/-- Records in strictly increasing id order, time values in lowest terms. -/
structure RawProject.Canonical (raw : RawProject) : Prop where
  assets : raw.assets.Pairwise fun a b => compare a.id b.id = .lt
  tracks : raw.tracks.Pairwise fun a b => compare a.track.id b.track.id = .lt
  clips : raw.clips.Pairwise fun a b => compare a.id b.id = .lt
  reduced : ∀ clip ∈ raw.clips, clip.Reduced

/-- Keys listed beside the records that carry them. -/
theorem OrdMap.toList_eq_map_values {κ ν : Type} [Ord κ] [TransOrd κ] [LawfulEqOrd κ]
    {m : OrdMap κ ν} {f : ν → κ} (hkey : ∀ {k : κ} {v : ν}, m[k]? = some v → f v = k) :
    m.toList = m.values.map fun v => (f v, v) := by
  rw [OrdMap.values, List.map_map]
  conv_lhs => rw [← List.map_id m.toList]
  refine List.map_congr_left fun e he => ?_
  have hk := hkey (Table.mem_toList_iff.mp he)
  simp [Function.comp, hk]

/-- The records of a table come in increasing order of their ids. -/
theorem OrdMap.pairwise_values {κ ν : Type} [Ord κ] [TransOrd κ] [LawfulEqOrd κ]
    {m : OrdMap κ ν} {f : ν → κ} (hkey : ∀ {k : κ} {v : ν}, m[k]? = some v → f v = k) :
    m.values.Pairwise fun a b => compare (f a) (f b) = .lt := by
  have hsorted : m.toList.Pairwise fun a b => compare a.1 b.1 = .lt :=
    ExtTreeMap.ordered_keys_toList
  rw [OrdMap.toList_eq_map_values hkey, List.pairwise_map] at hsorted
  exact hsorted

/-- Records in increasing order of their ids are the values of the table
they fill. -/
theorem OrdMap.values_eq_of_perm {κ ν : Type} [Ord κ] [TransOrd κ] {m : OrdMap κ ν} {f : ν → κ}
    {l : List ν} (hperm : m.toList.Perm (l.map fun v => (f v, v)))
    (hsorted : l.Pairwise fun a b => compare (f a) (f b) = .lt) : m.values = l := by
  rw [OrdMap.values, Table.toList_eq_of_perm hperm (List.pairwise_map.mpr hsorted), List.map_map]
  exact List.map_id'' (fun _ => rfl) l

theorem OrdMap.length_values {κ ν : Type} [Ord κ] [TransOrd κ] (m : OrdMap κ ν) :
    m.values.length = m.size := by
  rw [OrdMap.values, List.length_map, ExtTreeMap.length_toList]

/-- A table keyed by its records' own ids. -/
theorem OrdMap.key_eq_of_perm {κ ν : Type} [Ord κ] [TransOrd κ] [LawfulEqOrd κ]
    {m : OrdMap κ ν} {f : ν → κ} {l : List ν} (hperm : m.toList.Perm (l.map fun v => (f v, v)))
    {k : κ} {v : ν} (h : m[k]? = some v) : f v = k := by
  obtain ⟨w, -, heq⟩ := List.mem_map.mp (hperm.mem_iff.mp (Table.mem_toList_iff.mpr h))
  cases heq
  rfl

namespace Project

variable {p : Project}

/-- The project as it is written out. -/
def raw (p : Project) (hfits : p.Addressable) : RawProject where
  assets := p.assets.values
  tracks := p.tracks.values.attach.map fun t => ⟨t.val, by
    obtain ⟨⟨k, track⟩, hmem, heq⟩ := List.mem_map.mp t.property
    exact heq ▸ hfits.clipIds (Table.mem_toList_iff.mp hmem)⟩
  clips := p.clips.values.map Clip.raw
  assets_fit := by rw [OrdMap.length_values]; exact hfits.assets
  tracks_fit := by
    rw [List.length_map, List.length_attach, OrdMap.length_values]; exact hfits.tracks
  clips_fit := by rw [List.length_map, OrdMap.length_values]; exact hfits.clips

theorem map_track_raw (hfits : p.Addressable) :
    (p.raw hfits).tracks.map RawTrack.track = p.tracks.values := by
  simp only [raw, List.map_map, Function.comp_def, List.attach_map_subtype_val]

theorem put_raw (hschema : p.schemaVersion = contractSchemaVersion) (hfits : p.Addressable) :
    (p.raw hfits).put = p.canonicalBytes := by
  have htracks : putCounted RawTrack.put (p.raw hfits).tracks =
      putCounted Track.canonicalBytes p.tracks.values := by
    rw [← map_track_raw hfits, putCounted, putCounted, List.length_map, List.flatMap_map]
    rfl
  have hclips : putCounted RawClip.put (p.raw hfits).clips =
      putCounted Clip.canonicalBytes p.clips.values := by
    rw [raw, putCounted, putCounted, List.length_map, List.flatMap_map]
    rfl
  rw [RawProject.put, canonicalBytes, htracks, hclips, hschema]
  rfl

theorem mapM_value_raw (clips : List Clip) :
    (clips.map Clip.raw).mapM RawClip.value = some clips := by
  induction clips with
  | nil => rfl
  | cons c clips ih => simp [ih, Clip.value_raw]

theorem WellFormed.builds_raw (h : p.WellFormed) (hfits : p.Addressable) :
    (p.raw hfits).Builds p where
  schema := h.schema
  assets := by
    rw [OrdMap.toList_eq_map_values (f := Asset.id) h.asset_key]
    exact List.Perm.refl _
  tracks := by
    have hmap : (p.raw hfits).tracks.map (fun t => (t.track.id, t.track)) =
        p.tracks.values.map fun t => (t.id, t) := by
      rw [← map_track_raw hfits, List.map_map]
      rfl
    rw [hmap, ← OrdMap.toList_eq_map_values (f := Track.id) h.track_key]
  clips := ⟨p.clips.values, mapM_value_raw _, by
    rw [← OrdMap.toList_eq_map_values (f := Clip.id) h.clip_key]⟩

/-- **Projects round-trip**: a well-formed project decodes from its
canonical bytes. -/
theorem WellFormed.fromCanonicalBytes_canonicalBytes (h : p.WellFormed) (hfits : p.Addressable) :
    fromCanonicalBytes p.canonicalBytes = .ok p :=
  fromCanonicalBytes_eq_ok_iff.mpr ⟨p.raw hfits, put_raw h.schema hfits, h.builds_raw hfits,
    (validate_eq_ok_iff h.schema h.asset_key h.clip_key).mpr h⟩

theorem WellFormed.canonicalBytes_inj {q : Project} (hp : p.WellFormed) (hpf : p.Addressable)
    (hq : q.WellFormed) (hqf : q.Addressable)
    (h : p.canonicalBytes = q.canonicalBytes) : p = q := by
  have hdecode := hp.fromCanonicalBytes_canonicalBytes hpf
  rw [h, hq.fromCanonicalBytes_canonicalBytes hqf, Except.ok.injEq] at hdecode
  exact hdecode.symm

end Project

namespace RawProject.Builds

variable {raw : RawProject} {p : Project}

theorem mapM_value_map_id {raws : List RawClip} {clips : List Clip}
    (h : raws.mapM RawClip.value = some clips) : clips.map Clip.id = raws.map RawClip.id := by
  induction raws generalizing clips with
  | nil => cases h; rfl
  | cons raw raws ih =>
      rw [List.mapM_cons] at h
      obtain ⟨c, hc, hrest⟩ := Option.bind_eq_some_iff.mp h
      obtain ⟨clips', hclips', hcons⟩ := Option.bind_eq_some_iff.mp hrest
      cases hcons
      rw [List.map_cons, List.map_cons, ih hclips', RawClip.id_eq_of_value hc]

/-- Clip records are the ones their meanings are written out as exactly when
they are reduced. -/
theorem mapM_value_eq_map_raw_iff {raws : List RawClip} {clips : List Clip}
    (h : raws.mapM RawClip.value = some clips) :
    raws = clips.map Clip.raw ↔ ∀ raw ∈ raws, raw.Reduced := by
  induction raws generalizing clips with
  | nil => cases h; simp
  | cons raw raws ih =>
      rw [List.mapM_cons] at h
      obtain ⟨c, hc, hrest⟩ := Option.bind_eq_some_iff.mp h
      obtain ⟨clips', hclips', hcons⟩ := Option.bind_eq_some_iff.mp hrest
      cases hcons
      rw [List.map_cons, List.cons.injEq, RawClip.eq_raw_iff hc, ih hclips', List.forall_mem_cons]

/-- The tables that a raw project fills validate exactly when the project is
well-formed. -/
theorem validate_iff (h : raw.Builds p) : p.validate = .ok () ↔ p.WellFormed := by
  obtain ⟨clips, -, hclips⟩ := h.clips
  exact Project.validate_eq_ok_iff h.schema (OrdMap.key_eq_of_perm (f := Asset.id) h.assets)
    (OrdMap.key_eq_of_perm (f := Clip.id) hclips)

theorem addressable (h : raw.Builds p) : p.Addressable where
  assets := by
    rw [← ExtTreeMap.length_toList, h.assets.length_eq, List.length_map]
    exact raw.assets_fit
  tracks := by
    rw [← ExtTreeMap.length_toList, h.tracks.length_eq, List.length_map]
    exact raw.tracks_fit
  clips := by
    obtain ⟨clips, hvalues, hclips⟩ := h.clips
    have hlen : clips.length = raw.clips.length := by
      rw [← List.length_map (f := Clip.id), mapM_value_map_id hvalues, List.length_map]
    rw [← ExtTreeMap.length_toList, hclips.length_eq, List.length_map, hlen]
    exact raw.clips_fit
  clipIds ht := by
    obtain ⟨t, -, heq⟩ := List.mem_map.mp (h.tracks.mem_iff.mp (Table.mem_toList_iff.mpr ht))
    cases heq
    exact t.fits

/-- A raw project is the one its meaning is written out as exactly when its
records are in order and reduced. -/
theorem eq_raw_iff (h : raw.Builds p) (hwf : p.WellFormed) :
    raw = p.raw h.addressable ↔ raw.Canonical := by
  have htracks := Project.map_track_raw h.addressable
  obtain ⟨clips, hvalues, hclips⟩ := h.clips
  have hids := mapM_value_map_id hvalues
  constructor
  · intro heq
    have hassets' : raw.assets = p.assets.values := by rw [heq]; rfl
    have htracks' : raw.tracks.map RawTrack.track = p.tracks.values := by rw [heq, htracks]
    have hclips' : raw.clips = p.clips.values.map Clip.raw := by rw [heq]; rfl
    have hcount : clips = p.clips.values := by
      rw [hclips', Project.mapM_value_raw, Option.some.injEq] at hvalues
      exact hvalues.symm
    refine ⟨?_, ?_, ?_, ?_⟩
    · rw [hassets']
      exact OrdMap.pairwise_values (f := Asset.id) hwf.asset_key
    · have hsorted := OrdMap.pairwise_values (f := Track.id) hwf.track_key
      rw [← htracks', List.pairwise_map] at hsorted
      exact hsorted
    · rw [hclips', List.pairwise_map]
      exact OrdMap.pairwise_values (f := Clip.id) hwf.clip_key
    · rw [← mapM_value_eq_map_raw_iff hvalues, hclips', hcount]
  · rintro ⟨hassets, htracksSorted, hclipsSorted, hreduced⟩
    have hassets' : raw.assets = p.assets.values := (OrdMap.values_eq_of_perm h.assets hassets).symm
    have htracks' : raw.tracks.map RawTrack.track = p.tracks.values := by
      refine (OrdMap.values_eq_of_perm (f := Track.id) ?_
        (List.pairwise_map.mpr htracksSorted)).symm
      rw [List.map_map]
      exact h.tracks
    have hclipValues : p.clips.values = clips := by
      refine OrdMap.values_eq_of_perm (f := Clip.id) hclips ?_
      have hpair : (raw.clips.map RawClip.id).Pairwise fun a b => compare a b = .lt :=
        List.pairwise_map.mpr hclipsSorted
      rw [← hids, List.pairwise_map] at hpair
      exact hpair
    have hclips' : raw.clips = p.clips.values.map Clip.raw := by
      rw [hclipValues]
      exact (mapM_value_eq_map_raw_iff hvalues).mpr hreduced
    have hinj : Function.Injective RawTrack.track := by
      rintro ⟨t, _⟩ ⟨t', _⟩ ht
      cases ht
      rfl
    have htracksEq : raw.tracks = (p.raw h.addressable).tracks :=
      hinj.list_map (by rw [htracks', htracks])
    exact RawProject.ext hassets' htracksEq hclips'

/-- A decoded project encodes to the bytes it came from exactly when these
were in canonical form. -/
theorem canonicalBytes_eq_iff (h : raw.Builds p) (hwf : p.WellFormed) :
    p.canonicalBytes = raw.put ↔ raw.Canonical := by
  rw [← h.eq_raw_iff hwf, ← Project.put_raw h.schema h.addressable,
    RawProject.prefixFree_put.injective.eq_iff, eq_comm]

end RawProject.Builds

end StitchEditor
