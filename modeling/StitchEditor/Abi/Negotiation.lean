import Mathlib
import StitchEditor.Lib.Fallible
import StitchEditor.Abi.Types

/-!
# StitchEditor.Abi.Negotiation

`stitch_abi_negotiate`, and what a result looks like from outside: its number
and the detail that is written for it.
-/

namespace StitchEditor.Abi

open Fallible

/-! ## results -/

/-- The discriminant of the enumeration. -/
def StitchResult.toUInt32 : StitchResult → UInt32
  | .ok => 0
  | .invalidArgument => 1
  | .unsupportedVersion => 2
  | .unknownHandle => 3
  | .malformedStruct => 4
  | .badEnum => 5
  | .badRational => 6
  | .invalidBatch => 7
  | .staleRevision => 8
  | .staleEpoch => 9
  | .staleDevice => 10
  | .badLeaseState => 11
  | .reentrantMutation => 12
  | .modelError => 13
  | .panic => 14

/-- A caller tells all results apart by their numbers. -/
theorem StitchResult.toUInt32_injective : Function.Injective StitchResult.toUInt32 := by
  intro one other h
  cases one <;> cases other <;> first | rfl | cases h

/-! ## negotiation -/

/-- `STITCH_ABI_MINOR_VERSION`. -/
def abiMinorVersion : UInt32 := 0

def abiNegotiationSize : UInt32 := 24

structure StitchAbiNegotiation where
  header : StitchHeader
  requestedMajor : UInt32
  requestedMinor : UInt32
  supportedMajor : UInt32
  supportedMinor : UInt32
  deriving DecidableEq

/-- `stitch_abi_negotiate`, with what it leaves behind `in_out`. -/
def stitchAbiNegotiate (inOut : Option StitchAbiNegotiation) :
    Except StitchResult StitchAbiNegotiation := do
  let value ← input inOut
  validHeader abiNegotiationSize value.header
  refuse (value.requestedMajor ≠ abiVersion ∨ value.requestedMinor > 0) .unsupportedVersion
  pure {
    header := header abiNegotiationSize
    requestedMajor := value.requestedMajor
    requestedMinor := value.requestedMinor
    supportedMajor := abiVersion
    supportedMinor := 0 }

/-- A request is granted when it asks for no more than there is, and the answer
is then the request with the version that there is. -/
theorem stitchAbiNegotiate_eq_ok_iff {value granted : StitchAbiNegotiation} :
    stitchAbiNegotiate (some value) = .ok granted ↔
      value.header = header abiNegotiationSize ∧ value.requestedMajor = abiVersion ∧
        value.requestedMinor = 0 ∧
        granted = { value with supportedMajor := abiVersion, supportedMinor := 0 } := by
  obtain ⟨⟨size, version⟩, major, minor, _, _⟩ := value
  simp only [stitchAbiNegotiate, input, validHeader, bind_eq_ok_iff, pure_eq_ok_iff,
    refuse_eq_ok_iff, exists_const, not_not, not_or, UInt32.not_lt, header, gt_iff_lt,
    StitchHeader.mk.injEq, Except.ok.injEq, exists_eq_left', UInt32.le_zero_iff]
  constructor
  · rintro ⟨⟨rfl, rfl⟩, ⟨rfl, rfl⟩, rfl⟩
    exact ⟨⟨rfl, rfl⟩, rfl, rfl, rfl⟩
  · rintro ⟨⟨rfl, rfl⟩, rfl, rfl, rfl⟩
    exact ⟨⟨rfl, rfl⟩, ⟨rfl, rfl⟩, rfl⟩

end StitchEditor.Abi
