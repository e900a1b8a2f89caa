import Mathlib
import StitchEditor.Contracts.Invariant
import StitchEditor.Contracts.Decode

/-!
# StitchEditor.Contracts.Rejection

What the decoders refuse.

Every failure is `ModelError::CorruptProject`, from the first magic byte to
the last cross reference.  The layouts are prefix-free, so cutting an
accepted byte string short, or adding to it, leaves nothing that is accepted.
-/

namespace StitchEditor

open Wire Cursor

/-! ## the only error -/

/-- A reading step whose only error is `CorruptProject`. -/
def Corrupts {α : Type} (m : ReadM α) : Prop := Fails m (· = .corruptProject)

/-- The one error that a reading step throws by itself. -/
theorem corrupts_throw {α : Type} : Corrupts (throw .corruptProject : ReadM α) := Fails.throw rfl

namespace Reader

/-- `Reader::take` fails where fewer bytes are left than it is asked for. -/
theorem corrupts_take (length : Nat) : Corrupts (take length) :=
  fun _ => .ite (.ok _) (.error rfl)

/-- Every `None` on the way becomes `CorruptProject`. -/
theorem corrupts_orCorrupt {α : Type} (o : Option α) : Corrupts (orCorrupt o) := by
  cases o with
  | none => exact Fails.throw rfl
  | some a => exact Fails.pure a

/-- `Reader::expect` fails where other bytes are read. -/
theorem corrupts_expect (expected : List UInt8) : Corrupts (expect expected) :=
  (corrupts_take _).bind fun _ => Fails.ite (Fails.pure ()) (Fails.throw rfl)

theorem corrupts_array (length : Nat) : Corrupts (array length) :=
  (corrupts_take length).bind fun _ => corrupts_orCorrupt _

theorem corrupts_u32 : Corrupts u32 := (corrupts_array 4).bind fun _ => Fails.pure _

theorem corrupts_u64 : Corrupts u64 := (corrupts_array 8).bind fun _ => Fails.pure _

theorem corrupts_i64 : Corrupts i64 := (corrupts_array 8).bind fun _ => Fails.pure _

theorem corrupts_byte : Corrupts byte := (corrupts_array 1).bind fun _ => Fails.pure _

theorem corrupts_count : Corrupts count := corrupts_u64.bind fun _ => Fails.pure _

/-- A fraction fails where its denominator is no positive number, too. -/
theorem corrupts_rational : Corrupts rational :=
  corrupts_i64.bind fun _ => corrupts_i64.bind fun _ => corrupts_orCorrupt _

/-- A range fails where it would be empty, too. -/
theorem corrupts_timeRange : Corrupts timeRange :=
  corrupts_rational.bind fun _ => corrupts_rational.bind fun _ => corrupts_orCorrupt _

theorem corrupts_id (kind : IdKind) : Corrupts (Reader.id kind) :=
  (corrupts_array 16).bind fun _ => Fails.pure _

theorem corrupts_asset : Corrupts asset :=
  (corrupts_id _).bind fun _ => (corrupts_array 32).bind fun _ => corrupts_u64.bind fun _ =>
    (corrupts_array 16).bind fun _ => Fails.pure _

theorem corrupts_clip : Corrupts clip :=
  (corrupts_id _).bind fun _ => (corrupts_id _).bind fun _ => (corrupts_id _).bind fun _ =>
    corrupts_timeRange.bind fun _ => corrupts_timeRange.bind fun _ => Fails.pure _

/-- `Reader::finish` fails where bytes are left. -/
theorem raises_finish (reader : Reader) :
    Fallible.Raises reader.finish (· = ModelError.corruptProject) := .ite (.ok _) (.error rfl)

end Reader

/-- A format fails by its magic bytes, by its version, or by what follows. -/
theorem corrupts_header {γ : Type} {magic : List UInt8} {m : ReadM γ} (hm : Corrupts m) :
    Corrupts (do
      Reader.expect magic
      if (← Reader.u32) ≠ contractSchemaVersion then throw .corruptProject
      m) :=
  (Reader.corrupts_expect _).bind fun _ => Reader.corrupts_u32.bind fun _ =>
    Fails.ite (corrupts_throw.bind fun _ : PUnit => hm) ((Fails.pure PUnit.unit).bind fun _ => hm)

namespace Command

/-- A tag that is not one of the five fails, too. -/
theorem corrupts_readFields (tag : UInt8) : Corrupts (readFields tag) := by
  unfold readFields
  split
  · exact Reader.corrupts_asset.bind fun _ => Fails.pure _
  · exact (Reader.corrupts_id _).bind fun _ => Fails.pure _
  · exact Reader.corrupts_clip.bind fun _ => Fails.pure _
  · exact (Reader.corrupts_id _).bind fun _ => Reader.corrupts_timeRange.bind fun _ => Fails.pure _
  · exact (Reader.corrupts_id _).bind fun _ => Fails.pure _
  · exact Fails.throw rfl

theorem corrupts_read : Corrupts read :=
  corrupts_header (Reader.corrupts_byte.bind corrupts_readFields)

theorem raises_fromCanonicalBytes (bytes : List UInt8) :
    Fallible.Raises (fromCanonicalBytes bytes) (· = ModelError.corruptProject) :=
  (corrupts_read _).bind fun p _ => (Reader.raises_finish p.2).bind fun _ _ => .ok _

end Command

namespace Project

/-- A second record with one id fails. -/
theorem corrupts_insertNew {κ ν : Type} [Ord κ] [Std.TransOrd κ] (table : OrdMap κ ν) (k : κ)
    (v : ν) : Corrupts (insertNew table k v) := Reader.corrupts_orCorrupt _

theorem corrupts_readAsset (assets : OrdMap AssetId Asset) : Corrupts (readAsset assets) :=
  Reader.corrupts_asset.bind fun _ => corrupts_insertNew _ _ _

theorem corrupts_readClipId (clipIds : List ClipId) : Corrupts (readClipId clipIds) :=
  (Reader.corrupts_id _).bind fun _ => Fails.pure _

theorem corrupts_readTrack (tracks : OrdMap TrackId Track) : Corrupts (readTrack tracks) :=
  (Reader.corrupts_id _).bind fun _ => Reader.corrupts_count.bind fun n =>
    (Fails.repeatM corrupts_readClipId n []).bind fun _ => corrupts_insertNew _ _ _

theorem corrupts_readClip (clips : OrdMap ClipId Clip) : Corrupts (readClip clips) :=
  Reader.corrupts_clip.bind fun _ => corrupts_insertNew _ _ _

/-- The three tables, each with its count and its records. -/
theorem corrupts_readTables : Corrupts readTables :=
  corrupts_header (Reader.corrupts_count.bind fun n =>
    (Fails.repeatM corrupts_readAsset n ∅).bind fun _ => Reader.corrupts_count.bind fun n =>
      (Fails.repeatM corrupts_readTrack n ∅).bind fun _ => Reader.corrupts_count.bind fun n =>
        (Fails.repeatM corrupts_readClip n ∅).bind fun _ => Fails.pure _)

/-- A cross reference of a clip: listed once, stored, and on this track. -/
theorem raises_validateClip (p : Project) (k : TrackId) (listed : Std.ExtTreeSet ClipId compare)
    (c : ClipId) : Fallible.Raises (p.validateClip k listed c) (· = ModelError.corruptProject) := by
  unfold validateClip
  refine .ite (.error rfl) ?_
  split
  · exact .error rfl
  · exact .ite (.error rfl) (.ok _)

/-- The cross references, once all tables are read. -/
theorem raises_validate (p : Project) :
    Fallible.Raises p.validate (· = ModelError.corruptProject) := by
  have htrack (listed : Std.ExtTreeSet ClipId compare) (entry : TrackId × Track) :
      Fallible.Raises (p.validateTrack listed entry) (· = ModelError.corruptProject) :=
    .ite (.error rfl) (.foldlM (p.raises_validateClip entry.1) _ _)
  exact (Fallible.Raises.foldlM htrack _ _).bind fun _ _ =>
    .ite (.error rfl) (.ite (.error rfl) (.ok ()))

theorem raises_fromCanonicalBytes (bytes : List UInt8) :
    Fallible.Raises (fromCanonicalBytes bytes) (· = ModelError.corruptProject) :=
  (corrupts_readTables _).bind fun p _ => (Reader.raises_finish p.2).bind fun _ _ =>
    p.1.raises_validate.bind fun _ _ => .ok _

end Project

/-! ## truncated and extended inputs -/

/-- A set of byte strings of which none starts another. -/
def PrefixFreeLanguage (accepted : Set (List UInt8)) : Prop :=
  ∀ a ∈ accepted, ∀ b ∈ accepted, a <+: b → a = b

/-- A decoder with one error refuses what its language does not hold. -/
theorem rejects_of_prefixFree {α : Type} {decode : List UInt8 → Except ModelError α}
    (hfree : PrefixFreeLanguage {bytes | ∃ a, decode bytes = .ok a})
    (hraises : ∀ bytes, Fallible.Raises (decode bytes) (· = ModelError.corruptProject))
    {bytes other : List UInt8} {a : α} (h : decode bytes = .ok a) (hne : other ≠ bytes)
    (hcut : other <+: bytes ∨ bytes <+: other) : decode other = .error .corruptProject := by
  cases hother : decode other with
  | error e => rw [hraises other e hother]
  | ok b =>
      rcases hcut with hshort | hlong
      · exact absurd (hfree other ⟨b, hother⟩ bytes ⟨a, h⟩ hshort) hne
      · exact absurd (hfree bytes ⟨a, h⟩ other ⟨b, hother⟩ hlong).symm hne

/-- What is decoded is a layout, whichever fractions it spells. -/
theorem Project.prefixFreeLanguage :
    PrefixFreeLanguage {bytes | ∃ p, Project.fromCanonicalBytes bytes = .ok p} := by
  rintro _ ⟨p, hp⟩ _ ⟨q, hq⟩ hprefix
  obtain ⟨raw, rfl, -⟩ := Project.fromCanonicalBytes_eq_ok_iff.mp hp
  obtain ⟨raw', rfl, -⟩ := Project.fromCanonicalBytes_eq_ok_iff.mp hq
  exact RawProject.prefixFree_put.eq_of_prefix hprefix

theorem Command.prefixFreeLanguage :
    PrefixFreeLanguage {bytes | ∃ c, Command.fromCanonicalBytes bytes = .ok c} := by
  rintro _ ⟨c, hc⟩ _ ⟨c', hc'⟩ hprefix
  obtain ⟨raw, rfl, -⟩ := Command.fromCanonicalBytes_eq_ok_iff.mp hc
  obtain ⟨raw', rfl, -⟩ := Command.fromCanonicalBytes_eq_ok_iff.mp hc'
  exact RawCommand.prefixFree_put.eq_of_prefix hprefix

/-- **Truncated and overlong blobs are refused**: every proper prefix and
every proper extension of an accepted byte string is `CorruptProject`, for
projects and for commands. -/
theorem decoders_reject_cuts :
    (∀ bytes p, Project.fromCanonicalBytes bytes = .ok p →
      ∀ other, other ≠ bytes → (other <+: bytes ∨ bytes <+: other) →
        Project.fromCanonicalBytes other = .error .corruptProject) ∧
    ∀ bytes c, Command.fromCanonicalBytes bytes = .ok c →
      ∀ other, other ≠ bytes → (other <+: bytes ∨ bytes <+: other) →
        Command.fromCanonicalBytes other = .error .corruptProject :=
  ⟨fun _ _ h _ hne hcut =>
      rejects_of_prefixFree Project.prefixFreeLanguage Project.raises_fromCanonicalBytes h hne hcut,
    fun _ _ h _ hne hcut =>
      rejects_of_prefixFree Command.prefixFreeLanguage Command.raises_fromCanonicalBytes h hne hcut⟩

end StitchEditor
