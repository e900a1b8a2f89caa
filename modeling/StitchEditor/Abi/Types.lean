import Mathlib
import StitchEditor.History

/-!
# StitchEditor.Abi.Types

The plain structures of the C ABI and the checks on them: headers, batches
and the decoder of raw commands.

A pointer that a caller may leave null is an `Option`, an output pointer a
`Bool` that says whether there is one.
-/

namespace StitchEditor.Abi

/-! ## structures -/

/-- Every structure begins with its size and the version of the ABI. -/
structure StitchHeader where
  structSize : UInt32
  version : UInt32
  deriving DecidableEq

/-- A hash, or zeros. -/
abbrev StitchDigest := Vector UInt8 32

abbrev StitchId := Vector UInt8 16

/-- A fraction that nobody has checked yet. -/
structure StitchRational where
  numerator : Int64
  denominator : Int64
  deriving DecidableEq

structure StitchTimeRange where
  start : StitchRational
  stop : StitchRational
  deriving DecidableEq

structure StitchCoreConfig where
  header : StitchHeader
  initialEpoch : UInt64
  deriving DecidableEq

/-- A raw command; which fields it uses goes by its kind. -/
structure StitchCommand where
  header : StitchHeader
  kind : UInt32
  reserved : UInt32
  primaryId : StitchId
  secondaryId : StitchId
  tertiaryId : StitchId
  contentSha256 : StitchDigest
  byteLength : UInt64
  providerId : StitchId
  timelineRange : StitchTimeRange
  sourceRange : StitchTimeRange
  deriving DecidableEq

/-- A batch; behind `commands` lie exactly `commandCount` commands, as the
caller promises. -/
structure StitchCommandBatch where
  header : StitchHeader
  commands : Option (List StitchCommand)
  commandCount : UInt32
  reserved : UInt32
  expectedRevision : StitchDigest
  epoch : UInt64
  deriving DecidableEq

/-- What a snapshot tells of its project. -/
structure StitchSnapshotMetadata where
  header : StitchHeader
  revision : StitchDigest
  projectDigest : StitchDigest
  epoch : UInt64
  assetCount : UInt64
  trackCount : UInt64
  clipCount : UInt64
  deriving DecidableEq

/-- What a diff tells of the batch that it is of. -/
structure StitchDiffMetadata where
  header : StitchHeader
  previousRevision : StitchDigest
  revision : StitchDigest
  projectDigest : StitchDigest
  epoch : UInt64
  deriving DecidableEq

/-- What a lease tells of its frame. -/
structure StitchFrameMetadata where
  header : StitchHeader
  leaseId : UInt64
  revision : StitchDigest
  epoch : UInt64
  deviceGeneration : UInt64
  surfaceToken : UInt64
  synchronizationToken : UInt64
  ownerThreadToken : UInt64
  pixelWidth : UInt32
  pixelHeight : UInt32
  pixelFormat : UInt32
  synchronizationKind : UInt32
  synchronizationValue : UInt64
  presentationTime : StitchRational
  state : UInt32
  reserved : UInt32
  deriving DecidableEq

inductive StitchResult where
  | ok
  | invalidArgument
  | unsupportedVersion
  | unknownHandle
  | malformedStruct
  | badEnum
  | badRational
  | invalidBatch
  | staleRevision
  | staleEpoch
  | staleDevice
  | badLeaseState
  | reentrantMutation
  | modelError
  | panic
  deriving DecidableEq

/-! ## checks -/

def abiVersion : UInt32 := 1

def maxCommands : Nat := 4096

/-- The sizes that the layout assertions fix. -/
def coreConfigSize : UInt32 := 16
def commandSize : UInt32 := 184
def commandBatchSize : UInt32 := 64
def snapshotMetadataSize : UInt32 := 104
def diffMetadataSize : UInt32 := 112
def frameMetadataSize : UInt32 := 136

/-- `header::<T>()` for a type of the size. -/
def header (size : UInt32) : StitchHeader := ⟨size, abiVersion⟩

/-- An error that a check raises. -/
def refuse (check : Prop) [Decidable check] (error : StitchResult) : Except StitchResult Unit :=
  if check then .error error else .ok ()

/-- A check passes where there is nothing to refuse. -/
theorem refuse_eq_ok_iff {check : Prop} [Decidable check] {error : StitchResult} {u : Unit} :
    refuse check error = .ok u ↔ ¬ check := by
  unfold refuse
  split <;> simp_all

/-- `valid_header::<T>()` for a type of the size. -/
def validHeader (size : UInt32) (header : StitchHeader) : Except StitchResult Unit := do
  refuse (header.version ≠ abiVersion) .unsupportedVersion
  refuse (header.structSize ≠ size) .malformedStruct

/-- `input`: what a pointer points to. -/
def input {α : Type} : Option α → Except StitchResult α
  | some a => .ok a
  | none => .error .invalidArgument

/-- `writable`. -/
def writable (out : Bool) : Except StitchResult Unit := refuse (out = false) .invalidArgument

/-- `digest`: no hash is all zeros. -/
def digest (hash : Option RevisionHash) : StitchDigest :=
  match hash with
  | some hash => hash.bytes
  | none => Vector.replicate 32 0

/-! ## raw commands -/

/-- `map_err(|_| StitchResult::BadRational)`. -/
def orBadRational {α : Type} : Except TimeError α → Except StitchResult α
  | .ok a => .ok a
  | .error _ => .error .badRational

def rational (value : StitchRational) : Except StitchResult Rational :=
  orBadRational (Rational.new value.numerator value.denominator)

/-- A range of two fractions, each checked before the range is. -/
def range (value : StitchTimeRange) : Except StitchResult TimeRange := do
  let start ← rational value.start
  let stop ← rational value.stop
  orBadRational (TimeRange.new start stop)

/-- An id that is unused. -/
def zeroId (value : StitchId) : Bool := value = Vector.replicate 16 0

def zeroDigest (value : StitchDigest) : Bool := value = Vector.replicate 32 0

def zeroRange (value : StitchTimeRange) : Bool :=
  value.start.numerator = 0 ∧ value.start.denominator = 0 ∧ value.stop.numerator = 0 ∧
    value.stop.denominator = 0

/-- The fields of the second and third id are unused. -/
def unusedIds (value : StitchCommand) : Bool := zeroId value.secondaryId && zeroId value.tertiaryId

/-- The fields of an asset's identity are unused. -/
def unusedIdentity (value : StitchCommand) : Bool :=
  zeroDigest value.contentSha256 && value.byteLength = 0 && zeroId value.providerId

/-- `command`: what each kind leaves unused has to be zero. -/
def command (value : StitchCommand) : Except StitchResult Command := do
  validHeader commandSize value.header
  refuse (value.reserved ≠ 0) .invalidArgument
  match value.kind with
  | 1 => do
      refuse (!(unusedIds value && zeroRange value.timelineRange && zeroRange value.sourceRange))
        .invalidArgument
      pure (.addAsset ⟨⟨value.primaryId⟩,
        ⟨value.contentSha256, value.byteLength, value.providerId⟩⟩)
  | 2 => do
      refuse (!(unusedIds value && unusedIdentity value && zeroRange value.timelineRange &&
        zeroRange value.sourceRange)) .invalidArgument
      pure (.addTrack ⟨value.primaryId⟩)
  | 3 => do
      refuse (!unusedIdentity value) .invalidArgument
      let timelineRange ← range value.timelineRange
      let sourceRange ← range value.sourceRange
      pure (.addClip ⟨value.primaryId⟩ ⟨value.secondaryId⟩ ⟨value.tertiaryId⟩ timelineRange
        sourceRange)
  | 4 => do
      refuse (!(unusedIds value && unusedIdentity value && zeroRange value.sourceRange))
        .invalidArgument
      let timelineRange ← range value.timelineRange
      pure (.moveClip ⟨value.primaryId⟩ timelineRange)
  | 5 => do
      refuse (!(unusedIds value && unusedIdentity value && zeroRange value.timelineRange &&
        zeroRange value.sourceRange)) .invalidArgument
      pure (.removeClip ⟨value.primaryId⟩)
  | _ => .error .badEnum

end StitchEditor.Abi
