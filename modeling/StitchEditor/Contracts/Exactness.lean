import Mathlib
import StitchEditor.Contracts.Canonical

/-!
# StitchEditor.Contracts.Exactness

What the project contracts promise their users, and where they promise too
much: encodings round-trip, decoded projects are the reachable ones, and a
decoder accepts some byte strings that its own encoder never writes.
-/

namespace StitchEditor

open Std

/-! ## round trips -/

/-- **Encodings round-trip**, so they are injective, and so are digests as
far as SHA-256 separates the encodings. -/
theorem canonical_encodings_round_trip [Sha256] :
    (∀ p, Reachable p → Project.fromCanonicalBytes p.canonicalBytes = .ok p) ∧
    (∀ c : Command, Command.fromCanonicalBytes c.canonicalBytes = .ok c) ∧
    (∀ p q, Reachable p → Reachable q → p.canonicalBytes = q.canonicalBytes → p = q) ∧
    (∀ c c' : Command, c.canonicalBytes = c'.canonicalBytes → c = c') ∧
    ∀ p q, Reachable p → Reachable q → Sha256.Separates p.canonicalBytes q.canonicalBytes →
      p.semanticDigest = q.semanticDigest → p = q := by
  have hinj : ∀ p q, Reachable p → Reachable q → p.canonicalBytes = q.canonicalBytes → p = q := by
    intro p q hp hq h
    obtain ⟨hp, hpf⟩ := Project.reachable_iff.mp hp
    obtain ⟨hq, hqf⟩ := Project.reachable_iff.mp hq
    exact hp.canonicalBytes_inj hpf hq hqf h
  refine ⟨?_, Command.fromCanonicalBytes_canonicalBytes, hinj,
    fun _ _ h => Command.canonicalBytes_injective h, ?_⟩
  · intro p hp
    obtain ⟨hwf, hfits⟩ := Project.reachable_iff.mp hp
    exact hwf.fromCanonicalBytes_canonicalBytes hfits
  · intro p q hp hq hsep hdigest
    exact hinj p q hp hq (hsep (ProjectDigest.mk.inj hdigest))

/-! ## the project invariant -/

/-- What users of a project rely on: each clip is listed exactly once, by
its own track, its asset and its track exist, and no edit runs into a
broken reference. -/
structure Project.Consistent (p : Project) : Prop where
  listed_once : ∀ (c : ClipId) (clip : Clip), p.clips[c]? = some clip →
    ∀ (k : TrackId) (track : Track), p.tracks[k]? = some track →
      track.clipIds.count c = if k = clip.trackId then 1 else 0
  asset_exists : ∀ (c : ClipId) (clip : Clip), p.clips[c]? = some clip → clip.assetId ∈ p.assets
  track_exists : ∀ (c : ClipId) (clip : Clip), p.clips[c]? = some clip → clip.trackId ∈ p.tracks
  never_corrupt : ∀ command, reduce p command ≠ .error .corruptProject

theorem Project.WellFormed.consistent {p : Project} (h : p.WellFormed) : p.Consistent where
  listed_once c clip hclip k track ht := by
    split
    · next heq =>
      obtain ⟨track', ht', hmem⟩ := h.placed hclip
      rw [← heq, ht, Option.some.injEq] at ht'
      subst ht'
      exact List.count_eq_one_of_mem (h.listed_nodup ht) hmem
    · next hne =>
      refine List.count_eq_zero_of_not_mem fun hmem => hne ?_
      obtain ⟨clip', hclip', hplace⟩ := h.listed ht hmem
      rw [hclip, Option.some.injEq] at hclip'
      rw [hclip', hplace]
  asset_exists _ _ hclip := h.sourced hclip
  track_exists _ _ hclip := by
    obtain ⟨track, ht, -⟩ := h.placed hclip
    exact Table.mem_iff_exists.mpr ⟨track, ht⟩
  never_corrupt := h.reduce_ne_corruptProject

theorem Project.wellFormed_of_fromCanonicalBytes {bytes : List UInt8} {p : Project}
    (h : Project.fromCanonicalBytes bytes = .ok p) : p.WellFormed ∧ p.Addressable := by
  obtain ⟨raw, -, hbuilds, hvalid⟩ := Project.fromCanonicalBytes_eq_ok_iff.mp h
  exact ⟨hbuilds.validate_iff.mp hvalid, hbuilds.addressable⟩

/-- **The project invariant is exact**: the decoder produces exactly the
projects that edits reach, these are consistent, and edits keep them so. -/
theorem decoded_iff_reachable :
    (∀ p, (∃ bytes, Project.fromCanonicalBytes bytes = .ok p) ↔ Reachable p) ∧
    ∀ p, Reachable p → p.Consistent ∧ ∀ command q, reduce p command = .ok q → q.Consistent := by
  constructor
  · intro p
    rw [Project.reachable_iff]
    constructor
    · rintro ⟨bytes, h⟩
      exact Project.wellFormed_of_fromCanonicalBytes h
    · rintro ⟨hwf, hfits⟩
      exact ⟨p.canonicalBytes, hwf.fromCanonicalBytes_canonicalBytes hfits⟩
  · intro p hp
    have hwf := (Project.reachable_iff.mp hp).1
    exact ⟨hwf.consistent, fun command q hr => (hwf.of_reduce hr).consistent⟩

/-! ## other encodings -/

/-- **Which encodings survive**: a decoded value encodes to the bytes it
came from exactly when these hold reduced fractions and, for a project,
records in increasing order of their ids. -/
theorem decoders_keep_bytes_iff (bytes : List UInt8) :
    (∀ p, Project.fromCanonicalBytes bytes = .ok p →
      (p.canonicalBytes = bytes ↔ ∃ raw : RawProject, raw.put = bytes ∧ raw.Canonical)) ∧
    ∀ c, Command.fromCanonicalBytes bytes = .ok c →
      (c.canonicalBytes = bytes ↔ ∃ raw : RawCommand, raw.put = bytes ∧ raw.Reduced) := by
  constructor
  · intro p h
    obtain ⟨raw, rfl, hbuilds, hvalid⟩ := Project.fromCanonicalBytes_eq_ok_iff.mp h
    rw [hbuilds.canonicalBytes_eq_iff (hbuilds.validate_iff.mp hvalid)]
    constructor
    · exact fun hcanonical => ⟨raw, rfl, hcanonical⟩
    · rintro ⟨raw', heq, hcanonical⟩
      exact RawProject.prefixFree_put.injective heq ▸ hcanonical
  · intro c h
    obtain ⟨raw, rfl, hvalue⟩ := Command.fromCanonicalBytes_eq_ok_iff.mp h
    rw [Command.canonicalBytes_eq_iff hvalue]
    constructor
    · exact fun hreduced => ⟨raw, rfl, hreduced⟩
    · rintro ⟨raw', heq, hreduced⟩
      exact RawCommand.prefixFree_put.injective heq ▸ hreduced

/-- A move to `[0/7, 2/4)`: another zero, and a fraction that is not in
lowest terms. -/
def unreducedMove : RawCommand := .moveClip ⟨Vector.replicate 16 1⟩ ⟨⟨0, 7⟩, ⟨2, 4⟩⟩

/-- Two empty tracks, the larger id first. -/
def reorderedTracks : RawProject where
  assets := []
  tracks := [⟨⟨⟨Vector.replicate 16 2⟩, []⟩, by decide⟩, ⟨⟨⟨Vector.replicate 16 1⟩, []⟩, by decide⟩]
  clips := []
  assets_fit := by decide
  tracks_fit := by decide
  clips_fit := by decide

/-- Both decoders accept bytes that are not the encoding of what they
return. -/
theorem decoders_accept_other_encodings :
    (∃ c, Command.fromCanonicalBytes unreducedMove.put = .ok c ∧
      c.canonicalBytes ≠ unreducedMove.put) ∧
    ∃ p, Project.fromCanonicalBytes reorderedTracks.put = .ok p ∧
      p.canonicalBytes ≠ reorderedTracks.put := by
  constructor
  · let c : Command := .moveClip ⟨Vector.replicate 16 1⟩
      ⟨Rational.zero, ⟨1, 2, by decide, by decide⟩, by decide⟩
    have hvalue : unreducedMove.value = some c := by decide +kernel
    refine ⟨c, Command.fromCanonicalBytes_eq_ok_iff.mpr ⟨unreducedMove, rfl, hvalue⟩, ?_⟩
    rw [Ne, Command.canonicalBytes_eq_iff hvalue]
    decide
  · let one : TrackId := ⟨Vector.replicate 16 1⟩
    let two : TrackId := ⟨Vector.replicate 16 2⟩
    let p : Project :=
      { Project.default with
        tracks := ((∅ : OrdMap TrackId Track).insert two ⟨two, []⟩).insert one ⟨one, []⟩ }
    have hbuilds : reorderedTracks.Builds p :=
      ⟨rfl, List.Perm.refl _, Table.foldlM_addFresh_empty_iff.mp (by rfl), [], rfl,
        List.Perm.refl _⟩
    have hvalid : p.validate = .ok () := by rfl
    refine ⟨p, Project.fromCanonicalBytes_eq_ok_iff.mpr ⟨_, rfl, hbuilds, hvalid⟩, ?_⟩
    rw [Ne, hbuilds.canonicalBytes_eq_iff (hbuilds.validate_iff.mp hvalid)]
    rintro ⟨-, htracks, -, -⟩
    revert htracks
    decide

end StitchEditor
