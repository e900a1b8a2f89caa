import Mathlib
import StitchEditor.Lib.Wire
import StitchEditor.Lib.Cursor
import StitchEditor.Contracts.Project

/-!
# StitchEditor.Contracts.Codec

The canonical byte encodings of projects and commands, their decoders, and
the hashes over canonical bytes.

The decoders are programs over `Reader`, an input and an offset; every
failure is `ModelError::CorruptProject`.  A `usize` is 64 bits wide, so
`usize::try_from(u64)` always succeeds, and the `checked_add` of
`Reader::take` needs no branch of its own: an end beyond `usize::MAX` is
beyond the input as well, where the slice lookup fails with the same
error.
-/

namespace StitchEditor

open Wire

/-! ## hashing -/

/-- SHA-256, which the program takes from an external crate. -/
class Sha256 where
  digest : List UInt8 → Vector UInt8 32

/-- SHA-256 as far as a list of known digests goes. -/
@[reducible] def Sha256.ofKnown (known : List (List UInt8 × Vector UInt8 32)) : Sha256 where
  digest bytes := (known.lookup bytes).getD (Vector.replicate 32 0)

/-- Two byte strings are no collision: if their digests agree, they are
equal. -/
def Sha256.Separates [Sha256] (a b : List UInt8) : Prop :=
  Sha256.digest a = Sha256.digest b → a = b

/-! ## encoders -/

/-- `write_u32`. -/
def putU32 (value : UInt32) : List UInt8 := putBE 4 value.toNat

/-- The values of a table in key order. -/
def OrdMap.values {κ ν : Type} [Ord κ] [Std.TransOrd κ] (m : OrdMap κ ν) : List ν :=
  m.toList.map Prod.snd

def Asset.canonicalBytes (asset : Asset) : List UInt8 :=
  asset.id.bytes.toList ++ (asset.identity.contentSha256.toList ++
    (putU64 asset.identity.byteLength ++ asset.identity.providerId.toList))

def ClipId.canonicalBytes (clipId : ClipId) : List UInt8 := clipId.bytes.toList

/-- A track record holds its own count of clip ids. -/
def Track.canonicalBytes (track : Track) : List UInt8 :=
  track.id.bytes.toList ++ putCounted ClipId.canonicalBytes track.clipIds

def Clip.canonicalBytes (clip : Clip) : List UInt8 :=
  clip.id.bytes.toList ++ (clip.assetId.bytes.toList ++ (clip.trackId.bytes.toList ++
    (clip.timelineRange.canonicalBytes ++ clip.sourceRange.canonicalBytes)))

/-- `b"STITCH-PROJECT\0"`. -/
def projectMagic : List UInt8 :=
  [0x53, 0x54, 0x49, 0x54, 0x43, 0x48, 0x2d, 0x50, 0x52, 0x4f, 0x4a, 0x45, 0x43, 0x54, 0x00]

/-- `b"STITCH-COMMAND\0"`. -/
def commandMagic : List UInt8 :=
  [0x53, 0x54, 0x49, 0x54, 0x43, 0x48, 0x2d, 0x43, 0x4f, 0x4d, 0x4d, 0x41, 0x4e, 0x44, 0x00]

/-- `b"STITCH-REVISION\0"`. -/
def revisionMagic : List UInt8 :=
  [0x53, 0x54, 0x49, 0x54, 0x43, 0x48, 0x2d, 0x52, 0x45, 0x56, 0x49, 0x53, 0x49, 0x4f, 0x4e, 0x00]

/-- The complete canonical state: each table behind its count, in key
order. -/
def Project.canonicalBytes (self : Project) : List UInt8 :=
  projectMagic ++ (putU32 self.schemaVersion ++
    (putCounted Asset.canonicalBytes self.assets.values ++
      (putCounted Track.canonicalBytes self.tracks.values ++
        putCounted Clip.canonicalBytes self.clips.values)))

/-- The version word, the tag of the command and its fields. -/
def Command.canonicalBytes (self : Command) : List UInt8 :=
  commandMagic ++ (putU32 contractSchemaVersion ++
    match self with
    | .addAsset asset => 1 :: asset.canonicalBytes
    | .addTrack trackId => 2 :: trackId.bytes.toList
    | .addClip clipId assetId trackId timelineRange sourceRange =>
        3 :: (clipId.bytes.toList ++ (assetId.bytes.toList ++ (trackId.bytes.toList ++
          (timelineRange.canonicalBytes ++ sourceRange.canonicalBytes))))
    | .moveClip clipId timelineRange =>
        4 :: (clipId.bytes.toList ++ timelineRange.canonicalBytes)
    | .removeClip clipId => 5 :: clipId.bytes.toList)

section Hashing

variable [Sha256]

def Project.semanticDigest (self : Project) : ProjectDigest :=
  ⟨Sha256.digest self.canonicalBytes⟩

/-- The bytes hashed for a revision: the optional parent behind a flag, then
the command behind its length. -/
def revisionBytes (parent : Option RevisionHash) (command : Command) : List UInt8 :=
  revisionMagic ++ (putU32 contractSchemaVersion ++
    ((match parent with
      | some parent => 1 :: parent.bytes.toList
      | none => [0]) ++
      (putBE 8 command.canonicalBytes.length ++ command.canonicalBytes)))

/-- Computes the domain-separated immutable command-chain hash. -/
def revisionHash (parent : Option RevisionHash) (command : Command) : RevisionHash :=
  ⟨Sha256.digest (revisionBytes parent command)⟩

end Hashing

/-- A track to add, the hash of the revision that adds it first, and the digest
of the project with that track only. -/
def addFirstTrack : Command := .addTrack ⟨Vector.replicate 16 0x2a⟩

def firstTrackHash : RevisionHash := ⟨#v[0xb0, 0x67, 0x50, 0xd0, 0xe6, 0x2e, 0xce, 0x07, 0x3c, 0xf0,
  0x06, 0xce, 0xea, 0x93, 0x80, 0x31, 0x8a, 0xf4, 0x24, 0x65, 0xc0, 0x46, 0xe0, 0x4a, 0xd8, 0xf0,
  0xf5, 0x56, 0x53, 0xef, 0xbe, 0x26]⟩

def firstTrackDigest : ProjectDigest := ⟨#v[0x05, 0x3b, 0x0c, 0x10, 0x9a, 0x17, 0x9e, 0xcb, 0xab,
  0x11, 0x42, 0xc6, 0x0a, 0x99, 0x16, 0xf0, 0x23, 0x22, 0x2f, 0xa6, 0xb6, 0xb9, 0x40, 0xe4, 0x29,
  0x5f, 0x80, 0x3e, 0xb6, 0x3b, 0xdd, 0x36]⟩

@[reducible] def firstTrackSha256 : Sha256 :=
  .ofKnown [(revisionBytes none addFirstTrack, firstTrackHash.bytes)]

/-! ## the reader -/

/-- `bytes.try_into()` for a byte array of a fixed length. -/
def toArray? (length : Nat) (bytes : List UInt8) : Option (Vector UInt8 length) :=
  if h : bytes.length = length then some ⟨bytes.toArray, by simp [h]⟩ else none

@[simp] theorem toArray?_eq_some_iff {length : Nat} {bytes : List UInt8} {v : Vector UInt8 length} :
    toArray? length bytes = some v ↔ bytes = v.toList := by
  unfold toArray?
  constructor
  · intro h
    split at h
    · cases h; simp [Vector.toList]
    · cases h
  · rintro rfl
    rw [dif_pos (by simp)]
    simp [Vector.toList]

structure Reader where
  input : List UInt8
  offset : Nat
  deriving DecidableEq

/-- A decoding step: it moves the reader or reports a corrupt project. -/
abbrev ReadM := StateT Reader (Except ModelError)

namespace Reader

def new (input : List UInt8) : Reader := ⟨input, 0⟩

/-- The next `length` bytes, when the input holds them. -/
def take (length : Nat) : ReadM (List UInt8) := fun self =>
  let stop := self.offset + length
  if stop ≤ self.input.length then
    .ok ((self.input.drop self.offset).take length, { self with offset := stop })
  else .error .corruptProject

/-- `map_err(|_| ModelError::CorruptProject)` on a value computed from what
was read. -/
def orCorrupt {α : Type} : Option α → ReadM α
  | some a => pure a
  | none => throw .corruptProject

def expect (expected : List UInt8) : ReadM Unit := do
  if (← take expected.length) = expected then pure () else throw .corruptProject

def array (length : Nat) : ReadM (Vector UInt8 length) := do
  orCorrupt (toArray? length (← take length))

def u32 : ReadM UInt32 := do
  return UInt32.ofNat (natBE (← array 4).toList)

def u64 : ReadM UInt64 := do
  return getU64 (← array 8).toList

/-- `i64::from_be_bytes(self.array()?)`. -/
def i64 : ReadM Int64 := do
  return getI64 (← array 8).toList

def byte : ReadM UInt8 := do
  return (← array 1)[0]

/-- A count word as a `usize`. -/
def count : ReadM Nat := do
  return (← u64).toNat

def rational : ReadM Rational := do
  let numerator ← i64
  let denominator ← i64
  orCorrupt (Rational.new numerator denominator).toOption

def timeRange : ReadM TimeRange := do
  let start ← rational
  let stop ← rational
  orCorrupt (TimeRange.new start stop).toOption

/-- An identifier: `AssetId(reader.array()?)` and its siblings. -/
def id (kind : IdKind) : ReadM (Id kind) := do
  return ⟨← array 16⟩

def asset : ReadM Asset := do
  let id ← id .asset
  let contentSha256 ← array 32
  let byteLength ← u64
  let providerId ← array 16
  return ⟨id, contentSha256, byteLength, providerId⟩

def clip : ReadM Clip := do
  let id ← id .clip
  let assetId ← Reader.id .asset
  let trackId ← Reader.id .track
  let timelineRange ← timeRange
  let sourceRange ← timeRange
  return ⟨id, assetId, trackId, timelineRange, sourceRange⟩

/-- Only a reader at the end of its input may stop. -/
def finish (self : Reader) : Except ModelError Unit :=
  if self.offset = self.input.length then .ok () else .error .corruptProject

end Reader

/-! ## decoders -/

/-- `if table.insert(key, value).is_some() { return Err(CorruptProject) }`. -/
def insertNew {κ ν : Type} [Ord κ] [Std.TransOrd κ] (table : OrdMap κ ν) (key : κ) (value : ν) :
    ReadM (OrdMap κ ν) :=
  Reader.orCorrupt (Table.addFresh table (key, value))

namespace Project

def readAsset (assets : OrdMap AssetId Asset) : ReadM (OrdMap AssetId Asset) := do
  let asset ← Reader.asset
  insertNew assets asset.id asset

def readClipId (clipIds : List ClipId) : ReadM (List ClipId) := do
  return clipIds ++ [← Reader.id .clip]

def readTrack (tracks : OrdMap TrackId Track) : ReadM (OrdMap TrackId Track) := do
  let id ← Reader.id .track
  let clipCount ← Reader.count
  let clipIds ← Cursor.repeatM readClipId clipCount []
  insertNew tracks id ⟨id, clipIds⟩

def readClip (clips : OrdMap ClipId Clip) : ReadM (OrdMap ClipId Clip) := do
  let clip ← Reader.clip
  insertNew clips clip.id clip

/-- The header and the three tables. -/
def readTables : ReadM Project := do
  Reader.expect projectMagic
  if (← Reader.u32) ≠ contractSchemaVersion then throw .corruptProject
  let assets ← Cursor.repeatM readAsset (← Reader.count) ∅
  let tracks ← Cursor.repeatM readTrack (← Reader.count) ∅
  let clips ← Cursor.repeatM readClip (← Reader.count) ∅
  return ⟨contractSchemaVersion, assets, tracks, clips⟩

/-- Decodes a project: the tables, the end of the input, then
cross-reference validation. -/
def fromCanonicalBytes (bytes : List UInt8) : Except ModelError Project := do
  let (project, reader) ← readTables (Reader.new bytes)
  reader.finish
  project.validate
  return project

end Project

namespace Command

/-- The fields behind a tag. -/
def readFields (tag : UInt8) : ReadM Command :=
  match tag with
  | 1 => return .addAsset (← Reader.asset)
  | 2 => return .addTrack (← Reader.id .track)
  | 3 => do
      let clip ← Reader.clip
      return .addClip clip.id clip.assetId clip.trackId clip.timelineRange clip.sourceRange
  | 4 => do
      let clipId ← Reader.id .clip
      let timelineRange ← Reader.timeRange
      return .moveClip clipId timelineRange
  | 5 => return .removeClip (← Reader.id .clip)
  | _ => throw .corruptProject

/-- The header, the tag and the fields of the command. -/
def read : ReadM Command := do
  Reader.expect commandMagic
  if (← Reader.u32) ≠ contractSchemaVersion then throw .corruptProject
  readFields (← Reader.byte)

/-- Decodes a command and demands the end of the input. -/
def fromCanonicalBytes (bytes : List UInt8) : Except ModelError Command := do
  let (command, reader) ← read (Reader.new bytes)
  reader.finish
  return command

end Command

end StitchEditor
