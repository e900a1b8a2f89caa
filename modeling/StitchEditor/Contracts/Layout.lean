import Mathlib
import StitchEditor.Contracts.Codec

/-!
# StitchEditor.Contracts.Layout

The two byte formats as *layouts*: what a well-formed byte string holds
field by field, before the decoder normalizes anything.

A raw value keeps the fractions as they are written and the records in the
order they are written, so writing it out (`put`) is injective and
prefix-free.  What a raw value stands for (`value`, `RawProject.Builds`) is
where the decoder normalizes: fractions are reduced, and records fill
ordered tables.
-/

namespace StitchEditor

open Wire

/-! ## raw values -/

/-- A fraction as it is written. -/
structure RawRational where
  numerator : Int64
  denominator : Int64
  deriving DecidableEq

namespace RawRational

def put (raw : RawRational) : List UInt8 := putI64 raw.numerator ++ putI64 raw.denominator

def value (raw : RawRational) : Option Rational :=
  (Rational.new raw.numerator raw.denominator).toOption

/-- Written in lowest terms with a positive denominator. -/
def Reduced (raw : RawRational) : Prop :=
  0 < raw.denominator.toInt ∧ Int.gcd raw.numerator.toInt raw.denominator.toInt = 1

instance (raw : RawRational) : Decidable raw.Reduced := inferInstanceAs (Decidable (_ ∧ _))

theorem prefixFree_put : PrefixFree put :=
  (prefixFree_putI64.pair prefixFree_putI64).comp
    (e := fun raw : RawRational => (raw.numerator, raw.denominator))
    fun a b h => by cases a; cases b; simpa using h

end RawRational

/-- A range as it is written. -/
structure RawRange where
  start : RawRational
  stop : RawRational
  deriving DecidableEq

namespace RawRange

def put (raw : RawRange) : List UInt8 := raw.start.put ++ raw.stop.put

def value (raw : RawRange) : Option TimeRange := do
  (TimeRange.new (← raw.start.value) (← raw.stop.value)).toOption

def Reduced (raw : RawRange) : Prop := raw.start.Reduced ∧ raw.stop.Reduced

instance (raw : RawRange) : Decidable raw.Reduced := inferInstanceAs (Decidable (_ ∧ _))

theorem prefixFree_put : PrefixFree put :=
  (RawRational.prefixFree_put.pair RawRational.prefixFree_put).comp
    (e := fun raw : RawRange => (raw.start, raw.stop))
    fun a b h => by cases a; cases b; simpa using h

end RawRange

/-- A clip record as it is written. -/
structure RawClip where
  id : ClipId
  assetId : AssetId
  trackId : TrackId
  timelineRange : RawRange
  sourceRange : RawRange
  deriving DecidableEq

namespace RawClip

def put (raw : RawClip) : List UInt8 :=
  raw.id.bytes.toList ++ (raw.assetId.bytes.toList ++ (raw.trackId.bytes.toList ++
    (raw.timelineRange.put ++ raw.sourceRange.put)))

def value (raw : RawClip) : Option Clip := do
  return ⟨raw.id, raw.assetId, raw.trackId, ← raw.timelineRange.value, ← raw.sourceRange.value⟩

def Reduced (raw : RawClip) : Prop := raw.timelineRange.Reduced ∧ raw.sourceRange.Reduced

instance (raw : RawClip) : Decidable raw.Reduced := inferInstanceAs (Decidable (_ ∧ _))

end RawClip

/-- A track whose clip count fits its count word. -/
structure RawTrack where
  track : Track
  fits : track.clipIds.length < 2 ^ 64

/-- A track is spelled as `Track::canonical_bytes` does it. -/
def RawTrack.put (raw : RawTrack) : List UInt8 := raw.track.canonicalBytes

/-- A project as it is written: three counted lists of records. -/
@[ext] structure RawProject where
  assets : List Asset
  tracks : List RawTrack
  clips : List RawClip
  assets_fit : assets.length < 2 ^ 64
  tracks_fit : tracks.length < 2 ^ 64
  clips_fit : clips.length < 2 ^ 64

namespace RawProject

def put (raw : RawProject) : List UInt8 :=
  projectMagic ++ (putU32 contractSchemaVersion ++ (putCounted Asset.canonicalBytes raw.assets ++
    (putCounted RawTrack.put raw.tracks ++ putCounted RawClip.put raw.clips)))

end RawProject

/-- The project whose tables a raw project's records fill. -/
structure RawProject.Builds (raw : RawProject) (p : Project) : Prop where
  schema : p.schemaVersion = contractSchemaVersion
  assets : p.assets.toList.Perm (raw.assets.map fun a => (a.id, a))
  tracks : p.tracks.toList.Perm (raw.tracks.map fun t => (t.track.id, t.track))
  clips : ∃ clips, raw.clips.mapM RawClip.value = some clips ∧
    p.clips.toList.Perm (clips.map fun c => (c.id, c))

/-- A command as it is written. -/
inductive RawCommand where
  | addAsset (asset : Asset)
  | addTrack (trackId : TrackId)
  | addClip (clip : RawClip)
  | moveClip (clipId : ClipId) (timelineRange : RawRange)
  | removeClip (clipId : ClipId)
  deriving DecidableEq

namespace RawCommand

def fields : RawCommand → List UInt8
  | .addAsset asset => 1 :: asset.canonicalBytes
  | .addTrack trackId => 2 :: trackId.bytes.toList
  | .addClip clip => 3 :: clip.put
  | .moveClip clipId timelineRange => 4 :: (clipId.bytes.toList ++ timelineRange.put)
  | .removeClip clipId => 5 :: clipId.bytes.toList

def put (raw : RawCommand) : List UInt8 :=
  commandMagic ++ (putU32 contractSchemaVersion ++ raw.fields)

def value : RawCommand → Option Command
  | .addAsset asset => some (.addAsset asset)
  | .addTrack trackId => some (.addTrack trackId)
  | .addClip clip => clip.value.map fun c =>
      .addClip c.id c.assetId c.trackId c.timelineRange c.sourceRange
  | .moveClip clipId timelineRange => timelineRange.value.map (.moveClip clipId)
  | .removeClip clipId => some (.removeClip clipId)

/-- Every time value is written in lowest terms. -/
def Reduced : RawCommand → Prop
  | .addClip clip => clip.Reduced
  | .moveClip _ timelineRange => timelineRange.Reduced
  | _ => True

instance (raw : RawCommand) : Decidable raw.Reduced := by
  cases raw <;> unfold Reduced <;> infer_instance

end RawCommand

/-! ## layouts are prefix-free -/

/-- An id takes sixteen bytes. -/
theorem prefixFree_id (kind : IdKind) : PrefixFree fun id : Id kind => id.bytes.toList :=
  PrefixFree.of_length (w := 16) (by simp) fun _ _ h => Id.toList_inj.mp h

/-- An asset takes as many bytes as any other. -/
theorem Asset.prefixFree_canonicalBytes : PrefixFree Asset.canonicalBytes :=
  ((prefixFree_id .asset).pair ((prefixFree_vector 32).pair
    (prefixFree_putU64.pair (prefixFree_vector 16)))).comp
    (e := fun a : Asset =>
      (a.id, a.identity.contentSha256, a.identity.byteLength, a.identity.providerId))
    fun a b h => by obtain ⟨_, _, _, _⟩ := a; obtain ⟨_, _, _, _⟩ := b; simpa using h

theorem RawClip.prefixFree_put : PrefixFree RawClip.put :=
  ((prefixFree_id .clip).pair ((prefixFree_id .asset).pair ((prefixFree_id .track).pair
    (RawRange.prefixFree_put.pair RawRange.prefixFree_put)))).comp
    (e := fun c : RawClip => (c.id, c.assetId, c.trackId, c.timelineRange, c.sourceRange))
    fun a b h => by cases a; cases b; simpa using h

/-- The count comes first, so that the ids end where it says. -/
theorem RawTrack.prefixFree_put : PrefixFree RawTrack.put := by
  rintro ⟨⟨id, ids⟩, hfit⟩ ⟨⟨id', ids'⟩, hfit'⟩ r s h
  simp only [RawTrack.put, Track.canonicalBytes, List.append_assoc] at h
  obtain ⟨hid, htail⟩ := prefixFree_id .track h
  obtain ⟨hids, hrs⟩ := (prefixFree_id .clip).counted hfit hfit' htail
  refine ⟨?_, hrs⟩
  congr

/-- Three counted lists behind the magic bytes. -/
theorem RawProject.prefixFree_put : PrefixFree RawProject.put := by
  intro a b r s h
  simp only [RawProject.put, List.append_assoc] at h
  have htables := List.append_cancel_left (List.append_cancel_left h)
  obtain ⟨hassets, htail⟩ :=
    Asset.prefixFree_canonicalBytes.counted a.assets_fit b.assets_fit htables
  obtain ⟨htracks, htail⟩ := RawTrack.prefixFree_put.counted a.tracks_fit b.tracks_fit htail
  obtain ⟨hclips, hrs⟩ := RawClip.prefixFree_put.counted a.clips_fit b.clips_fit htail
  refine ⟨?_, hrs⟩
  cases a; cases b
  congr

/-- The tag says which fields follow. -/
theorem RawCommand.prefixFree_fields : PrefixFree RawCommand.fields := by
  intro a b r s h
  cases a <;> cases b <;> simp only [fields, List.cons_append, List.cons.injEq] at h <;>
    first
    | exact absurd h.1 (by decide)
    | skip
  case addAsset.addAsset =>
    obtain ⟨ha, hrs⟩ := Asset.prefixFree_canonicalBytes h.2
    exact ⟨by rw [ha], hrs⟩
  case addTrack.addTrack =>
    obtain ⟨ha, hrs⟩ := prefixFree_id .track h.2
    exact ⟨by rw [ha], hrs⟩
  case addClip.addClip =>
    obtain ⟨ha, hrs⟩ := RawClip.prefixFree_put h.2
    exact ⟨by rw [ha], hrs⟩
  case moveClip.moveClip =>
    obtain ⟨hpair, hrs⟩ := (prefixFree_id .clip).pair RawRange.prefixFree_put
      (a := (_, _)) (b := (_, _)) h.2
    rw [Prod.mk.injEq] at hpair
    exact ⟨by rw [hpair.1, hpair.2], hrs⟩
  case removeClip.removeClip =>
    obtain ⟨ha, hrs⟩ := prefixFree_id .clip h.2
    exact ⟨by rw [ha], hrs⟩

/-- Of two commands that are spelled, none starts the other. -/
theorem RawCommand.prefixFree_put : PrefixFree RawCommand.put :=
  (RawCommand.prefixFree_fields.cons (putU32 contractSchemaVersion)).cons commandMagic

end StitchEditor
