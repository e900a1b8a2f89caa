import Mathlib
import StitchEditor.Abi.Sequential
import StitchEditor.Contracts.Arithmetic

/-!
# StitchEditor.Abi.Commands

Which raw commands decode to a command.

The fields that the kind of a raw command does not use are zero
(`StitchCommand.Spells`), and the ranges that it uses may be written with any
fractions of their ends.  So no field is ignored.
-/

namespace StitchEditor.Abi

open StitchEditor Fallible

/-! ## time values -/

namespace StitchRational

/-- The value of a raw fraction. -/
def toRat (self : StitchRational) : ℚ := self.numerator.toInt / self.denominator.toInt

/-- Fractions of one rational value. -/
def SameValue (a b : StitchRational) : Prop :=
  a.denominator ≠ 0 ∧ b.denominator ≠ 0 ∧ a.toRat = b.toRat

end StitchRational

def StitchTimeRange.SameValue (a b : StitchTimeRange) : Prop :=
  a.start.SameValue b.start ∧ a.stop.SameValue b.stop

theorem orBadRational_eq_ok_iff {α : Type} {result : Except TimeError α} {a : α} :
    orBadRational result = .ok a ↔ result = .ok a := by
  cases result <;> simp [orBadRational]

/-- A raw fraction decodes to its value. -/
theorem rational_spells {raw : StitchRational} {q : Rational} (h : rational raw = .ok q) :
    raw.denominator ≠ 0 ∧ raw.toRat = q.toRat := by
  obtain ⟨result, hnew, hcomputes⟩ := Rational.newChecked_does raw.numerator raw.denominator
  rw [Rational.newChecked_eq, Trap.lift_inj, orBadRational_eq_ok_iff.mp h] at hnew
  subst hnew
  have hne : raw.denominator ≠ 0 := by
    intro hzero
    have hnone : Rational.quotient raw.numerator.toInt raw.denominator.toInt = none := by
      rw [hzero]
      exact if_pos (by simp)
    cases hcomputes.zeroDenominator hnone
  have hne' : (raw.denominator.toInt : ℚ) ≠ 0 := by
    intro hzero
    exact hne (Int64.toInt_inj.mp (by exact_mod_cast hzero))
  rw [Rational.quotient, if_neg hne'] at hcomputes
  exact ⟨hne, hcomputes.toRat_eq.symm⟩

theorem rational_sameValue {raw raw' : StitchRational} {q : Rational} (h : rational raw = .ok q)
    (h' : rational raw' = .ok q) : raw.SameValue raw' := by
  obtain ⟨hne, hvalue⟩ := rational_spells h
  obtain ⟨hne', hvalue'⟩ := rational_spells h'
  exact ⟨hne, hne', hvalue.trans hvalue'.symm⟩

theorem range_eq_ok_iff {raw : StitchTimeRange} {r : TimeRange} :
    range raw = .ok r ↔ rational raw.start = .ok r.start ∧ rational raw.stop = .ok r.stop := by
  simp only [range, bind_eq_ok_iff, orBadRational_eq_ok_iff, TimeRange.new_eq_ok_iff]
  constructor
  · rintro ⟨start, hstart, stop, hstop, rfl, rfl⟩
    exact ⟨hstart, hstop⟩
  · rintro ⟨hstart, hstop⟩
    exact ⟨_, hstart, _, hstop, rfl, rfl⟩

theorem range_sameValue {raw raw' : StitchTimeRange} {r : TimeRange} (h : range raw = .ok r)
    (h' : range raw' = .ok r) : raw.SameValue raw' := by
  obtain ⟨hstart, hstop⟩ := range_eq_ok_iff.mp h
  obtain ⟨hstart', hstop'⟩ := range_eq_ok_iff.mp h'
  exact ⟨rational_sameValue hstart hstart', rational_sameValue hstop hstop'⟩

theorem zeroRange_iff {raw : StitchTimeRange} : zeroRange raw = true ↔ raw = ⟨⟨0, 0⟩, ⟨0, 0⟩⟩ := by
  obtain ⟨⟨n, d⟩, ⟨n', d'⟩⟩ := raw
  simp [zeroRange, and_assoc]

/-! ## raw commands -/

/-- The raw commands of a command: those of `StitchCommand.of`, with other
fractions where a range is used. -/
def StitchCommand.Spells (raw : StitchCommand) (c : Command) : Prop :=
  match c with
  | .addClip _ _ _ timelineRange sourceRange =>
      range raw.timelineRange = .ok timelineRange ∧ range raw.sourceRange = .ok sourceRange ∧
        raw = { StitchCommand.of c with
          timelineRange := raw.timelineRange
          sourceRange := raw.sourceRange }
  | .moveClip _ timelineRange =>
      range raw.timelineRange = .ok timelineRange ∧
        raw = { StitchCommand.of c with timelineRange := raw.timelineRange }
  | _ => raw = StitchCommand.of c

theorem unusedIds_iff {raw : StitchCommand} : unusedIds raw = true ↔
    raw.secondaryId = .replicate 16 0 ∧ raw.tertiaryId = .replicate 16 0 := by
  simp [unusedIds, zeroId]

theorem unusedIdentity_iff {raw : StitchCommand} : unusedIdentity raw = true ↔
    raw.contentSha256 = .replicate 32 0 ∧ raw.byteLength = 0 ∧
      raw.providerId = .replicate 16 0 := by
  simp [unusedIdentity, zeroDigest, zeroId, and_assoc]

theorem validHeader_eq_ok_iff {size : UInt32} {h : StitchHeader} {u : Unit} :
    validHeader size h = .ok u ↔ h = header size := by
  obtain ⟨structSize, version⟩ := h
  simp only [validHeader, bind_eq_ok_iff, refuse_eq_ok_iff, not_not, header, StitchHeader.mk.injEq]
  constructor
  · rintro ⟨-, hversion, hsize⟩
    exact ⟨hsize, hversion⟩
  · rintro ⟨hsize, hversion⟩
    exact ⟨(), hversion, hsize⟩

theorem spells_of_command {raw : StitchCommand} {c : Command} (h : command raw = .ok c) :
    raw.Spells c := by
  obtain ⟨header, kind, reserved, primaryId, secondaryId, tertiaryId, contentSha256, byteLength,
    providerId, timelineRange, sourceRange⟩ := raw
  simp only [command, bind_eq_ok_iff, validHeader_eq_ok_iff, refuse_eq_ok_iff, not_not] at h
  obtain ⟨-, rfl, -, rfl, h⟩ := h
  split at h
  · simp only [bind_eq_ok_iff, refuse_eq_ok_iff, Bool.not_eq_true', Bool.not_eq_false,
      Bool.and_eq_true, unusedIds_iff, zeroRange_iff, pure_eq_ok_iff] at h
    obtain ⟨-, ⟨⟨⟨rfl, rfl⟩, rfl⟩, rfl⟩, rfl⟩ := h
    rfl
  · simp only [bind_eq_ok_iff, refuse_eq_ok_iff, Bool.not_eq_true', Bool.not_eq_false,
      Bool.and_eq_true, unusedIds_iff, unusedIdentity_iff, zeroRange_iff, pure_eq_ok_iff] at h
    obtain ⟨-, ⟨⟨⟨⟨rfl, rfl⟩, rfl, rfl, rfl⟩, rfl⟩, rfl⟩, rfl⟩ := h
    rfl
  · simp only [bind_eq_ok_iff, refuse_eq_ok_iff, Bool.not_eq_true', Bool.not_eq_false,
      unusedIdentity_iff, pure_eq_ok_iff] at h
    obtain ⟨-, ⟨rfl, rfl, rfl⟩, timeline, htimeline, source, hsource, rfl⟩ := h
    exact ⟨htimeline, hsource, rfl⟩
  · simp only [bind_eq_ok_iff, refuse_eq_ok_iff, Bool.not_eq_true', Bool.not_eq_false,
      Bool.and_eq_true, unusedIds_iff, unusedIdentity_iff, zeroRange_iff, pure_eq_ok_iff] at h
    obtain ⟨-, ⟨⟨⟨rfl, rfl⟩, rfl, rfl, rfl⟩, rfl⟩, timeline, htimeline, rfl⟩ := h
    exact ⟨htimeline, rfl⟩
  · simp only [bind_eq_ok_iff, refuse_eq_ok_iff, Bool.not_eq_true', Bool.not_eq_false,
      Bool.and_eq_true, unusedIds_iff, unusedIdentity_iff, zeroRange_iff, pure_eq_ok_iff] at h
    obtain ⟨-, ⟨⟨⟨⟨rfl, rfl⟩, rfl, rfl, rfl⟩, rfl⟩, rfl⟩, rfl⟩ := h
    rfl
  · cases h

theorem command_of_spells {raw : StitchCommand} {c : Command} (h : raw.Spells c) :
    command raw = .ok c := by
  cases c with
  | addClip clipId assetId trackId timelineRange sourceRange =>
      obtain ⟨htimeline, hsource, hraw⟩ := h
      rw [hraw]
      simp only [command, StitchCommand.of, StitchCommand.blank, htimeline, hsource]
      rfl
  | moveClip clipId timelineRange =>
      obtain ⟨htimeline, hraw⟩ := h
      rw [hraw]
      simp only [command, StitchCommand.of, StitchCommand.blank, htimeline]
      rfl
  | addAsset asset => exact h ▸ command_of _
  | addTrack trackId => exact h ▸ command_of _
  | removeClip clipId => exact h ▸ command_of _

/-- **The command decoder, exactly**: it accepts the raw commands that spell
a command. -/
theorem command_eq_ok_iff {raw : StitchCommand} {c : Command} :
    command raw = .ok c ↔ raw.Spells c := ⟨spells_of_command, command_of_spells⟩

/-! ## no field is ignored -/

/-- The kinds that use the range on the timeline, and the range in the source. -/
def usesTimelineRange (kind : UInt32) : Prop := kind = 3 ∨ kind = 4

def usesSourceRange (kind : UInt32) : Prop := kind = 3

theorem unused_of_kind {kind : UInt32} (h : kind = 1 ∨ kind = 2 ∨ kind = 5) :
    ¬ usesTimelineRange kind ∧ ¬ usesSourceRange kind := by
  rcases h with rfl | rfl | rfl <;> simp [usesTimelineRange, usesSourceRange]

/-- Raw commands that agree in every field, the ranges that their kind uses
up to the fractions that they are written with. -/
structure StitchCommand.Agrees (raw raw' : StitchCommand) : Prop where
  header : raw.header = raw'.header
  kind : raw.kind = raw'.kind
  reserved : raw.reserved = raw'.reserved
  primaryId : raw.primaryId = raw'.primaryId
  secondaryId : raw.secondaryId = raw'.secondaryId
  tertiaryId : raw.tertiaryId = raw'.tertiaryId
  contentSha256 : raw.contentSha256 = raw'.contentSha256
  byteLength : raw.byteLength = raw'.byteLength
  providerId : raw.providerId = raw'.providerId
  usedTimelineRange : usesTimelineRange raw.kind → raw.timelineRange.SameValue raw'.timelineRange
  unusedTimelineRange : ¬ usesTimelineRange raw.kind → raw.timelineRange = raw'.timelineRange
  usedSourceRange : usesSourceRange raw.kind → raw.sourceRange.SameValue raw'.sourceRange
  unusedSourceRange : ¬ usesSourceRange raw.kind → raw.sourceRange = raw'.sourceRange

/-- Equal raw commands of a kind that uses no range. -/
theorem StitchCommand.Agrees.of_eq {raw raw' : StitchCommand} (h : raw = raw')
    (hunused : ¬ usesTimelineRange raw.kind ∧ ¬ usesSourceRange raw.kind) : raw.Agrees raw' := by
  subst h
  exact ⟨rfl, rfl, rfl, rfl, rfl, rfl, rfl, rfl, rfl, fun hused => absurd hused hunused.1,
    fun _ => rfl, fun hused => absurd hused hunused.2, fun _ => rfl⟩

/-- **No field of a raw command is ignored**: raw commands that decode to
the same command agree, and every command has a raw command. -/
theorem commands_ignore_no_field :
    (∀ raw raw' c, command raw = .ok c → command raw' = .ok c → raw.Agrees raw') ∧
    ∀ c, ∃ raw, command raw = .ok c := by
  refine ⟨fun raw raw' c h h' => ?_, fun c => ⟨.of c, command_of c⟩⟩
  have hspells := spells_of_command h
  have hspells' := spells_of_command h'
  cases c with
  | addClip clipId assetId trackId timelineRange sourceRange =>
      obtain ⟨htimeline, hsource, hraw⟩ := hspells
      obtain ⟨htimeline', hsource', hraw'⟩ := hspells'
      have hsame := range_sameValue htimeline htimeline'
      have hsame' := range_sameValue hsource hsource'
      rw [hraw, hraw']
      exact ⟨rfl, rfl, rfl, rfl, rfl, rfl, rfl, rfl, rfl, fun _ => hsame,
        fun hunused => absurd (.inl rfl) hunused, fun _ => hsame',
        fun hunused => absurd rfl hunused⟩
  | moveClip clipId timelineRange =>
      obtain ⟨htimeline, hraw⟩ := hspells
      obtain ⟨htimeline', hraw'⟩ := hspells'
      have hsame := range_sameValue htimeline htimeline'
      rw [hraw, hraw']
      exact ⟨rfl, rfl, rfl, rfl, rfl, rfl, rfl, rfl, rfl, fun _ => hsame,
        fun hunused => absurd (.inr rfl) hunused,
        fun hused => absurd (show (4 : UInt32) = 3 from hused) (by decide), fun _ => rfl⟩
  | addAsset asset =>
      obtain rfl : raw = .of (.addAsset asset) := hspells
      exact .of_eq hspells'.symm (unused_of_kind (.inl rfl))
  | addTrack trackId =>
      obtain rfl : raw = .of (.addTrack trackId) := hspells
      exact .of_eq hspells'.symm (unused_of_kind (.inr (.inl rfl)))
  | removeClip clipId =>
      obtain rfl : raw = .of (.removeClip clipId) := hspells
      exact .of_eq hspells'.symm (unused_of_kind (.inr (.inr rfl)))

end StitchEditor.Abi
