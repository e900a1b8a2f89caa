import Mathlib
import StitchEditor.Lib.Table
import StitchEditor.Contracts.Time

/-!
# StitchEditor.Contracts.Project

The project model and its reducer: three ordered tables (assets, tracks,
clips), five edit commands, and `reduce`, which applies one command or
reports why it cannot.

`im::OrdMap` is an ordered finite map iterated in key order and
`im::Vector` is a list.  Identifiers are 16 bytes, ordered bytewise as the
derived `Ord` orders them.
-/

namespace StitchEditor

open Std

/-! ## identifiers -/

/-- What a 128-bit identifier names. -/
inductive IdKind where
  | asset
  | track
  | clip
  | request
  deriving DecidableEq, Repr

/-- A stable 128-bit identifier.  Its bytes, not display formatting, are
part of canonical project encoding. -/
structure Id (kind : IdKind) where
  bytes : Vector UInt8 16
  deriving DecidableEq

abbrev AssetId := Id .asset
abbrev TrackId := Id .track
abbrev ClipId := Id .clip

/-- Caller-supplied idempotency key for a durable command request. -/
abbrev RequestId := Id .request

namespace Id

variable {kind : IdKind}

theorem toList_inj {a b : Id kind} : a.bytes.toList = b.bytes.toList ↔ a = b := by
  cases a; cases b; simp [Vector.toList_inj]

/-- Identifiers are ordered by their bytes. -/
instance : Ord (Id kind) := ⟨fun a b => compare a.bytes.toList b.bytes.toList⟩

instance : TransOrd (Id kind) where
  eq_swap {a b} := (OrientedCmp.eq_swap : compare a.bytes.toList b.bytes.toList = _)
  isLE_trans {a _ c} h₁ h₂ :=
    (TransCmp.isLE_trans h₁ h₂ : (compare a.bytes.toList c.bytes.toList).isLE)

instance : LawfulEqOrd (Id kind) where
  eq_of_compare {a b} h := toList_inj.mp
    (LawfulEqCmp.eq_of_compare h : a.bytes.toList = b.bytes.toList)

end Id

/-- A SHA-256 digest that identifies a revision. -/
structure RevisionHash where
  bytes : Vector UInt8 32
  deriving DecidableEq

/-- A SHA-256 digest of complete canonical project state, separate from
revision identity. -/
structure ProjectDigest where
  bytes : Vector UInt8 32
  deriving DecidableEq

/-! ## the project -/

/-- Stable source identity used to detect different media behind a
provider. -/
structure AssetIdentity where
  contentSha256 : Vector UInt8 32
  byteLength : UInt64
  providerId : Vector UInt8 16
  deriving DecidableEq

/-- A portable identity record for source media. -/
structure Asset where
  id : AssetId
  identity : AssetIdentity
  deriving DecidableEq

/-- A track has a deterministic clip order. -/
structure Track where
  id : TrackId
  clipIds : List ClipId
  deriving DecidableEq

/-- Clip placement and source selection in canonical timeline time. -/
structure Clip where
  id : ClipId
  assetId : AssetId
  trackId : TrackId
  timelineRange : TimeRange
  sourceRange : TimeRange
  deriving DecidableEq

abbrev OrdMap (κ ν : Type) [Ord κ] := ExtTreeMap κ ν compare

/-- Minimal normalized project model. -/
structure Project where
  schemaVersion : UInt32
  assets : OrdMap AssetId Asset
  tracks : OrdMap TrackId Track
  clips : OrdMap ClipId Clip
  deriving DecidableEq

/-- First stable version of the canonical project-contract encoding. -/
def contractSchemaVersion : UInt32 := 1

/-- `Project::default()`. -/
def Project.default : Project where
  schemaVersion := contractSchemaVersion
  assets := ∅
  tracks := ∅
  clips := ∅

/-! ## commands -/

/-- Typed project edit commands. -/
inductive Command where
  | addAsset (asset : Asset)
  | addTrack (trackId : TrackId)
  | addClip (clipId : ClipId) (assetId : AssetId) (trackId : TrackId)
      (timelineRange sourceRange : TimeRange)
  | moveClip (clipId : ClipId) (timelineRange : TimeRange)
  | removeClip (clipId : ClipId)
  deriving DecidableEq

inductive ModelError where
  | duplicateAsset (id : AssetId)
  | missingAsset (id : AssetId)
  | duplicateTrack (id : TrackId)
  | missingTrack (id : TrackId)
  | duplicateClip (id : ClipId)
  | missingClip (id : ClipId)
  | corruptProject
  deriving DecidableEq

/-- Applies a typed command atomically: on error, `project` is untouched. -/
def reduce (project : Project) : Command → Except ModelError Project
  | .addAsset asset =>
      if asset.id ∈ project.assets then .error (.duplicateAsset asset.id)
      else .ok { project with assets := project.assets.insert asset.id asset }
  | .addTrack trackId =>
      if trackId ∈ project.tracks then .error (.duplicateTrack trackId)
      else .ok { project with tracks := project.tracks.insert trackId ⟨trackId, []⟩ }
  | .addClip clipId assetId trackId timelineRange sourceRange =>
      if clipId ∈ project.clips then .error (.duplicateClip clipId)
      else if assetId ∉ project.assets then .error (.missingAsset assetId)
      else match project.tracks[trackId]? with
        | none => .error (.missingTrack trackId)
        | some track => .ok { project with
            tracks := project.tracks.insert trackId
              { track with clipIds := track.clipIds ++ [clipId] }
            clips := project.clips.insert clipId
              ⟨clipId, assetId, trackId, timelineRange, sourceRange⟩ }
  | .moveClip clipId timelineRange =>
      match project.clips[clipId]? with
      | none => .error (.missingClip clipId)
      | some clip => .ok { project with
          clips := project.clips.insert clipId { clip with timelineRange := timelineRange } }
  | .removeClip clipId =>
      match project.clips[clipId]? with
      | none => .error (.missingClip clipId)
      | some clip => match project.tracks[clip.trackId]? with
        | none => .error .corruptProject
        | some track => .ok { project with
            tracks := project.tracks.insert clip.trackId
              { track with clipIds := track.clipIds.filter (· ≠ clipId) }
            clips := project.clips.erase clipId }

/-- Replays a command log from the empty project. -/
def replay (commands : List Command) : Except ModelError Project :=
  commands.foldlM reduce Project.default

theorem replay_concat (commands : List Command) (command : Command) :
    replay (commands ++ [command]) = replay commands >>= fun project => reduce project command := by
  simp [replay, List.foldlM_append]

/-! ## validation of decoded projects -/

namespace Project

/-- One clip id of a track: it is listed for the first time, exists, and is
placed on this track. -/
def validateClip (self : Project) (trackId : TrackId) (listed : ExtTreeSet ClipId compare)
    (clipId : ClipId) : Except ModelError (ExtTreeSet ClipId compare) :=
  if clipId ∈ listed then .error .corruptProject
  else match self.clips[clipId]? with
    | none => .error .corruptProject
    | some clip =>
        if clip.trackId ≠ trackId then .error .corruptProject else .ok (listed.insert clipId)

/-- One track: its key is its id, and its clip ids pass. -/
def validateTrack (self : Project) (listed : ExtTreeSet ClipId compare) (entry : TrackId × Track) :
    Except ModelError (ExtTreeSet ClipId compare) :=
  if entry.2.id ≠ entry.1 then .error .corruptProject
  else entry.2.clipIds.foldlM (self.validateClip entry.1) listed

/-- Cross-reference validation of a decoded project. -/
def validate (self : Project) : Except ModelError Unit := do
  let listed ← self.tracks.toList.foldlM self.validateTrack ∅
  if listed.size ≠ self.clips.size then .error .corruptProject
  else if self.clips.toList.any fun (_, clip) =>
      !self.assets.contains clip.assetId || !self.tracks.contains clip.trackId then
    .error .corruptProject
  else .ok ()

end Project

end StitchEditor
