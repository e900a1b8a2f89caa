import Mathlib
import StitchEditor.Lib.Chain
import StitchEditor.Contracts.Canonical

/-!
# StitchEditor.Contracts.Commitment

What a revision hash commits to: the bytes hashed for a revision determine
its parent and its command, no project is hashed from the same bytes, and
so the hash of a chain of revisions determines all its commands.
-/

namespace StitchEditor

open Wire Chain

/-! ## the bytes of a revision -/

/-- The flag tells a revision with a parent from one without, and the words
in front of the command have a fixed width. -/
theorem revisionBytes_inj {parent parent' : Option RevisionHash} {command command' : Command} :
    revisionBytes parent command = revisionBytes parent' command' ↔
      parent = parent' ∧ command = command' := by
  have htail : ∀ {c c' : Command}, putBE 8 c.canonicalBytes.length ++ c.canonicalBytes =
      putBE 8 c'.canonicalBytes.length ++ c'.canonicalBytes → c = c' := fun h =>
    Command.canonicalBytes_injective (List.append_inj h (by simp)).2
  constructor
  · intro h
    have hbody := List.append_cancel_left (List.append_cancel_left h)
    cases parent with
    | none =>
        cases parent' with
        | none => exact ⟨rfl, htail (List.append_cancel_left hbody)⟩
        | some hash' => simp at hbody
    | some hash =>
        cases parent' with
        | none => simp at hbody
        | some hash' =>
            obtain ⟨hparent, hcommand⟩ := List.append_inj hbody (by simp)
            have hbytes := (prefixFree_vector 32).injective (List.cons.inj hparent).2
            exact ⟨congrArg some (congrArg RevisionHash.mk hbytes), htail hcommand⟩
  · rintro ⟨rfl, rfl⟩
    rfl

/-- The two magic words part at their eighth byte. -/
theorem revisionBytes_ne_canonicalBytes (parent : Option RevisionHash) (command : Command)
    (project : Project) : revisionBytes parent command ≠ project.canonicalBytes := by
  intro h
  have heighth := congrArg (fun bytes => bytes[7]?) h
  simp [revisionBytes, Project.canonicalBytes, revisionMagic, projectMagic] at heighth

/-! ## chains of revisions -/

section Hashing

variable [Sha256]

/-- The byte strings hashed along the chain of the commands. -/
def hashedStrings (commands : List Command) : List (List UInt8) :=
  (links revisionHash commands).map fun link => revisionBytes link.1 link.2

/-- SHA-256 does not collide on the strings hashed along the two chains. -/
def Sha256.SeparatesChains (commands commands' : List Command) : Prop :=
  ∀ bytes ∈ hashedStrings commands, ∀ bytes' ∈ hashedStrings commands',
    Sha256.Separates bytes bytes'

theorem Sha256.SeparatesChains.separates {commands commands' : List Command}
    (h : Sha256.SeparatesChains commands commands') :
    Chain.Separates revisionHash commands commands' := by
  rintro ⟨parent, command⟩ hl ⟨parent', command'⟩ hl' heq
  have hbytes := h _ (List.mem_map_of_mem hl) _ (List.mem_map_of_mem hl') (RevisionHash.mk.inj heq)
  obtain ⟨rfl, rfl⟩ := revisionBytes_inj.mp hbytes
  rfl

theorem hashedStrings_isPrefix {commands commands' : List Command} (h : commands <+: commands') :
    hashedStrings commands <+: hashedStrings commands' :=
  (links_isPrefix revisionHash h).map _

/-- The head is the digest of a string that was hashed. -/
theorem exists_digest_of_chain {commands : List Command} {hash : RevisionHash}
    (h : chain revisionHash commands = some hash) :
    ∃ bytes ∈ hashedStrings commands, hash.bytes = Sha256.digest bytes := by
  induction commands using List.reverseRecOn with
  | nil => cases h
  | append_singleton commands command _ =>
      rw [chain_concat, Option.some.injEq] at h
      subst h
      exact ⟨revisionBytes (chain revisionHash commands) command,
        by simp [hashedStrings, links_concat],
        rfl⟩

/-- **The revision hash commits to the whole history.** -/
theorem revision_chains_commit :
    (∀ parent parent' command command',
      revisionBytes parent command = revisionBytes parent' command' →
        parent = parent' ∧ command = command') ∧
    (∀ parent command (project : Project),
      revisionBytes parent command ≠ project.canonicalBytes) ∧
    (∀ commands commands', Sha256.SeparatesChains commands commands' →
      chain revisionHash commands = chain revisionHash commands' → commands = commands') ∧
    ∀ commands, Sha256.SeparatesChains commands commands → ∀ i j, i < j → j ≤ commands.length →
      chain revisionHash (commands.take i) ≠ chain revisionHash (commands.take j) := by
  refine ⟨fun _ _ _ _ h => revisionBytes_inj.mp h, revisionBytes_ne_canonicalBytes, ?_, ?_⟩
  · intro commands commands' hsep h
    exact eq_of_chain_eq revisionHash hsep.separates h
  · intro commands hsep i j hij hj h
    have heq := eq_of_chain_take_eq revisionHash hsep.separates (hij.le.trans hj) hj h
    omega

end Hashing

/-- A second track, and the hash of the revision that adds it after the
first. -/
def addSecondTrack : Command := .addTrack ⟨Vector.replicate 16 0x2b⟩

def secondTrackHash : RevisionHash :=
  ⟨#v[0xe5, 0x06, 0x08, 0xfa, 0xd1, 0x27, 0x74, 0x41, 0x67, 0xf6, 0x99, 0xf7,
  0xe8, 0x15, 0x7f, 0x00, 0x87, 0xea, 0x47, 0xa3, 0x23, 0x2c, 0x8e, 0xcb,
  0x5e, 0x5a, 0x37, 0x08, 0xea, 0x42, 0x6e, 0x01]⟩

@[reducible] def secondTrackSha256 : Sha256 :=
  .ofKnown [(revisionBytes none addFirstTrack, firstTrackHash.bytes),
    (revisionBytes firstTrackHash addSecondTrack, secondTrackHash.bytes)]

def twoTracks : List Command := [addFirstTrack, addSecondTrack]

/-- The digest of the project with both tracks. -/
def twoTracksDigest : ProjectDigest := ⟨#v[0xdb, 0x83, 0x92, 0x80, 0x64, 0x21, 0x59, 0x3b, 0x42,
  0x0d, 0xff, 0x77, 0x3d, 0xe9, 0x47, 0x3c, 0x98, 0xc4, 0xef, 0xa1, 0x3c, 0xc0, 0x47, 0xa7, 0x93,
  0xad, 0x2a, 0x63, 0xae, 0xb6, 0x3b, 0x8a]⟩

theorem separatesChains_twoTracks :
    letI := secondTrackSha256
    Sha256.SeparatesChains twoTracks twoTracks := by
  unfold Sha256.SeparatesChains Sha256.Separates
  decide +kernel

theorem revision_chains_commit_twoTracks :
    letI := secondTrackSha256
    chain revisionHash (twoTracks.take 1) ≠ chain revisionHash (twoTracks.take 2) := by
  let _ := secondTrackSha256
  obtain ⟨-, -, -, hnodup⟩ := revision_chains_commit
  exact hnodup twoTracks separatesChains_twoTracks 1 2 (by decide) (by decide)

end StitchEditor
