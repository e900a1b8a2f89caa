import Mathlib
import StitchEditor.Store.Restore

/-!
# StitchEditor.Store.Accepts

What `restore` accepts, exactly.

A list of revision rows `Spells` a list of commands when the rows are
numbered from one, decode to the commands and form their hash chain.  The
replay loop computes, row by row, the replay and the head of the commands
spelled so far (`Replayed.Follows`), so `restore` accepts a
database exactly when it `Holds` some list of commands
(`restore_eq_ok_iff`), and returns what that list builds.
-/

namespace StitchEditor

open Chain Fallible Std

/-! ## hashes as bytes -/

theorem hashFromBytes_eq_ok_iff {bytes : List UInt8} {hash : RevisionHash} :
    hashFromBytes bytes = .ok hash ↔ bytes = hash.bytes.toList := by
  unfold hashFromBytes
  cases h : toArray? 32 bytes with
  | none =>
      simp only [corrupt, reduceCtorEq, false_iff]
      intro heq
      rw [toArray?_eq_some_iff.mpr heq] at h
      cases h
  | some v =>
      rw [Except.ok.injEq, toArray?_eq_some_iff.mp h]
      cases hash
      simp [Vector.toList_inj]

theorem mapM_hashFromBytes_eq_ok_iff {parent : Option (List UInt8)} {head : Option RevisionHash} :
    parent.mapM hashFromBytes = .ok head ↔ parent = head.map fun hash => hash.bytes.toList := by
  cases parent with
  | none => cases head <;> simp [pure_eq_ok_iff]
  | some bytes =>
      have hmap : (some bytes).mapM hashFromBytes = hashFromBytes bytes >>= fun hash =>
          pure (some hash) := by
        simp
      rw [hmap, bind_eq_ok_iff]
      cases head <;> simp [pure_eq_ok_iff, hashFromBytes_eq_ok_iff]

section Accepts

variable [Sha256]

/-! ## what rows say -/

/-- The rows are numbered from one, decode to the commands and form their
hash chain. -/
inductive Spells : List (Int × RevisionRow) → List Command → Prop where
  | nil : Spells [] []
  | snoc {rows : List (Int × RevisionRow)} {commands : List Command} {row : RevisionRow}
      {command : Command} (hrows : Spells rows commands)
      (hcommand : Command.fromCanonicalBytes row.command = .ok command)
      (hparent : row.parentHash = (chain revisionHash commands).map fun hash => hash.bytes.toList)
      (hhash : row.revisionHash =
        (revisionHash (chain revisionHash commands) command).bytes.toList) :
      Spells (rows ++ [((rows.length : Int) + 1, row)]) (commands ++ [command])

/-- The snapshot is the project after `n` commands. -/
def Captures (snapshot : SnapshotKey × SnapshotRow) (commands : List Command) (n : Nat) : Prop :=
  snapshot.1.sequence = n ∧ ∃ project hash, replay (commands.take n) = .ok project ∧
    chain revisionHash (commands.take n) = some hash ∧
    snapshot.1.revisionHash = hash.bytes.toList ∧
    snapshot.2.project = project.canonicalBytes ∧
    snapshot.2.projectDigest = project.semanticDigest.bytes.toList

/-- Every receipt holds the command of the revision it references. -/
def Database.ReceiptsAgree (db : Database) : Prop :=
  ∀ {id : List UInt8} {receipt : ReceiptRow}, db.receipts[id]? = some receipt →
    ∃ revision, db.revisions[receipt.sequence]? = some revision ∧
      revision.revisionHash = receipt.revisionHash ∧ revision.command = receipt.command

/-- The head row is the end of the list. -/
def HeadAgrees (heads : Option HeadRow) (commands : List Command) : Prop :=
  heads = (chain revisionHash commands).map fun hash => ⟨commands.length, hash.bytes.toList⟩

/-- The database holds the commands. -/
structure Database.Holds (db : Database) (commands : List Command) : Prop where
  spells : Spells db.revisions.toList commands
  replays : ∃ project, replay commands = .ok project
  snapshot : ∀ {snapshot : SnapshotKey × SnapshotRow}, db.latestSnapshot = some snapshot →
    ∃ n, 1 ≤ n ∧ n ≤ commands.length ∧ Captures snapshot commands n
  receiptCount : db.receipts.size = db.revisions.size
  receipts : db.ReceiptsAgree
  head : HeadAgrees db.heads commands

namespace Spells

variable {rows : List (Int × RevisionRow)} {commands : List Command}

theorem length_eq (h : Spells rows commands) : rows.length = commands.length := by
  induction h with
  | nil => rfl
  | snoc _ _ _ _ ih => simp [ih]

theorem nil_iff : Spells [] commands ↔ commands = [] := by
  constructor
  · intro h
    exact List.length_eq_zero_iff.mp h.length_eq.symm
  · intro h
    exact h ▸ .nil

/-- The last row and the last command. -/
theorem concat_iff {entry : Int × RevisionRow} :
    Spells (rows ++ [entry]) commands ↔ ∃ front command, commands = front ++ [command] ∧
      Spells rows front ∧ entry.1 = rows.length + 1 ∧
      Command.fromCanonicalBytes entry.2.command = .ok command ∧
      entry.2.parentHash = (chain revisionHash front).map (fun hash => hash.bytes.toList) ∧
      entry.2.revisionHash = (revisionHash (chain revisionHash front) command).bytes.toList := by
  constructor
  · generalize hall : rows ++ [entry] = all
    intro h
    cases h with
    | nil => simp at hall
    | snoc hrows hcommand hparent hhash =>
        obtain ⟨rfl, hentry⟩ := List.append_inj' hall rfl
        cases hentry
        exact ⟨_, _, rfl, hrows, rfl, hcommand, hparent, hhash⟩
  · rintro ⟨front, command, rfl, hrows, hn, hcommand, hparent, hhash⟩
    obtain ⟨n, row⟩ := entry
    cases hn
    exact .snoc hrows hcommand hparent hhash

/-- Rows spell at most one list. -/
theorem unique (h : Spells rows commands) {commands' : List Command}
    (h' : Spells rows commands') : commands = commands' := by
  induction h generalizing commands' with
  | nil => exact (nil_iff.mp h').symm
  | snoc _ hcommand _ _ ih =>
      obtain ⟨front, command, rfl, hfront, -, hcommand', -, -⟩ := concat_iff.mp h'
      rw [hcommand, Except.ok.injEq] at hcommand'
      rw [ih hfront, hcommand']

/-- The rows are numbered from one. -/
theorem fst_eq (h : Spells rows commands) {i : Nat} {entry : Int × RevisionRow}
    (hi : rows[i]? = some entry) : entry.1 = i + 1 := by
  induction h with
  | nil => simp at hi
  | @snoc rows _ row _ _ _ _ _ ih =>
      rw [List.getElem?_append] at hi
      split at hi
      · exact ih hi
      · next hge =>
        obtain ⟨hlt, heq⟩ := List.getElem?_eq_some_iff.mp hi
        rw [List.length_singleton] at hlt
        rw [List.getElem_singleton] at heq
        have hi : i = rows.length := by omega
        rw [← heq, hi]

/-- The row behind the front of the list. -/
theorem get (h : Spells rows commands) {i : Nat} {command : Command}
    (hi : commands[i]? = some command) : ∃ row, rows[i]? = some ((i : Int) + 1, row) ∧
      Command.fromCanonicalBytes row.command = .ok command ∧
      row.parentHash = (chain revisionHash (commands.take i)).map (fun hash => hash.bytes.toList) ∧
      row.revisionHash =
        (revisionHash (chain revisionHash (commands.take i)) command).bytes.toList := by
  induction h with
  | nil => simp at hi
  | @snoc rows commands row last hrows hcommand hparent hhash ih =>
      have hlen := hrows.length_eq
      rw [List.getElem?_append] at hi
      split at hi
      · next hlt =>
        obtain ⟨row, hrow, hrest⟩ := ih hi
        rw [List.take_append_of_le_length (by omega)]
        exact ⟨row, by rw [List.getElem?_append_left (by omega), hrow], hrest⟩
      · next hge =>
        obtain ⟨hlt, heq⟩ := List.getElem?_eq_some_iff.mp hi
        rw [List.length_singleton] at hlt
        rw [List.getElem_singleton] at heq
        obtain rfl : i = commands.length := by omega
        subst heq
        rw [List.take_left']
        · exact ⟨row, by rw [← hlen, List.getElem?_concat_length], hcommand, hparent, hhash⟩
        · rfl

end Spells

/-! ## small steps -/

/-- One turn of the replay loop, when every statement completes. -/
theorem replayRow_eq_ok_iff {snapshot : Option (SnapshotKey × SnapshotRow)}
    {replayed replayed' : Replayed} {entry : Int × RevisionRow} :
    replayRow snapshot replayed entry .faultless = .ok replayed' ↔
      entry.1 = replayed.sequence + 1 ∧ ∃ command,
        Command.fromCanonicalBytes entry.2.command = .ok command ∧
        entry.2.parentHash = replayed.head.map (fun hash => hash.bytes.toList) ∧
        entry.2.revisionHash = (revisionHash replayed.head command).bytes.toList ∧
        ∃ project, reduce replayed.project command = .ok project ∧
          matchSnapshot snapshot ⟨project, some (revisionHash replayed.head command), entry.1,
            replayed.matchedSnapshot⟩ = .ok replayed' := by
  unfold replayRow
  rw [execute_faultless]
  change (if entry.1 ≠ replayed.sequence + 1 then _ else _) = _ ↔ _
  rw [corrupt, ite_error_eq_ok_iff, not_not]
  refine and_congr_right fun _ => ?_
  cases Command.fromCanonicalBytes entry.2.command with
  | error e => simp
  | ok command =>
      simp only [bind_eq_ok_iff, mapM_hashFromBytes_eq_ok_iff, ite_error_eq_ok_iff,
        hashFromBytes_eq_ok_iff, not_not, Except.ok.injEq, exists_eq_left']
      constructor
      · rintro ⟨parent, hparent, rfl, hash, hhash, heq, hrest⟩
        refine ⟨hparent, heq ▸ hhash, ?_⟩
        cases hr : reduce replayed.project command with
        | error e => simp [hr] at hrest
        | ok project => exact ⟨project, rfl, by simpa [hr] using hrest⟩
      · rintro ⟨hparent, hhash, project, hr, hrest⟩
        exact ⟨_, hparent, rfl, _, hhash, rfl, by simpa [hr] using hrest⟩

/-- The comparison with the snapshot. -/
theorem matchSnapshot_eq_ok_iff {snapshot : Option (SnapshotKey × SnapshotRow)}
    {replayed replayed' : Replayed} :
    matchSnapshot snapshot replayed = .ok replayed' ↔
      (∀ s ∈ snapshot, s.1.sequence = replayed.sequence →
        replayed.head.map (fun hash => hash.bytes.toList) = some s.1.revisionHash ∧
        replayed.project.canonicalBytes = s.2.project ∧
        replayed.project.semanticDigest.bytes.toList = s.2.projectDigest) ∧
      replayed' = { replayed with matchedSnapshot :=
        (replayed.matchedSnapshot || snapshot.any fun s => s.1.sequence = replayed.sequence) } := by
  unfold matchSnapshot
  cases snapshot with
  | none =>
      simp only [Option.not_mem_none, false_imp_iff, implies_true, true_and, Option.any_none,
        Bool.or_false, Except.ok.injEq]
      exact ⟨Eq.symm, Eq.symm⟩
  | some s =>
      obtain ⟨key, row⟩ := s
      by_cases hseq : key.sequence = replayed.sequence
      · simp only [hseq, ↓reduceIte, bind_eq_ok_iff, hashFromBytes_eq_ok_iff, corrupt,
          ite_error_eq_ok_iff, not_or, not_not, Except.ok.injEq, Option.mem_some_iff,
          forall_eq', true_imp_iff, Option.any_some, decide_true, Bool.or_true]
        constructor
        · rintro ⟨hash, hbytes, ⟨hhead, hproject, hdigest⟩, heq⟩
          exact ⟨⟨by rw [hhead, hbytes]; rfl, hproject, hdigest⟩, heq.symm⟩
        · rintro ⟨⟨hhead, hproject, hdigest⟩, heq⟩
          obtain ⟨hash, hhash, hbytes⟩ := Option.map_eq_some_iff.mp hhead
          exact ⟨hash, hbytes.symm, ⟨hhash, hproject, hdigest⟩, heq.symm⟩
      · simp only [hseq, Ne.symm hseq, ↓reduceIte, Option.mem_some_iff, forall_eq', false_imp_iff,
          true_and, Option.any_some, decide_false, Bool.or_false, Except.ok.injEq]
        exact ⟨Eq.symm, Eq.symm⟩

/-! ## the replay loop -/

/-- The snapshot agrees with the commands, if it lies among them. -/
def SnapshotPasses (snapshot : Option (SnapshotKey × SnapshotRow)) (commands : List Command) :
    Prop :=
  ∀ s ∈ snapshot, ∀ n : Nat, 1 ≤ n → n ≤ commands.length → s.1.sequence = n → Captures s commands n

/-- The commands reach as far as the snapshot. -/
def SnapshotReached (snapshot : Option (SnapshotKey × SnapshotRow)) (commands : List Command) :
    Prop :=
  ∀ s ∈ snapshot, 1 ≤ s.1.sequence ∧ s.1.sequence ≤ commands.length

/-- Later commands do not change what a snapshot captures. -/
theorem captures_append_iff {s : SnapshotKey × SnapshotRow} {commands : List Command} {n : Nat}
    (more : List Command) (hn : n ≤ commands.length) :
    Captures s (commands ++ more) n ↔ Captures s commands n := by
  rw [Captures, Captures, List.take_append_of_le_length hn]

theorem snapshotPasses_concat_iff {snapshot : Option (SnapshotKey × SnapshotRow)}
    {commands : List Command} {command : Command} {project : Project}
    (hreplay : replay (commands ++ [command]) = .ok project) :
    SnapshotPasses snapshot (commands ++ [command]) ↔ SnapshotPasses snapshot commands ∧
      ∀ s ∈ snapshot, s.1.sequence = (commands.length : Int) + 1 →
        (revisionHash (chain revisionHash commands) command).bytes.toList = s.1.revisionHash ∧
        project.canonicalBytes = s.2.project ∧
        project.semanticDigest.bytes.toList = s.2.projectDigest := by
  have hlast : ∀ s : SnapshotKey × SnapshotRow, s.1.sequence = (commands.length : Int) + 1 →
      (Captures s (commands ++ [command]) (commands.length + 1) ↔
        (revisionHash (chain revisionHash commands) command).bytes.toList = s.1.revisionHash ∧
        project.canonicalBytes = s.2.project ∧
        project.semanticDigest.bytes.toList = s.2.projectDigest) := by
    intro s hs
    have htake : (commands ++ [command]).take (commands.length + 1) = commands ++ [command] :=
      List.take_of_length_le (by simp)
    rw [Captures, htake, hreplay, chain_concat]
    constructor
    · rintro ⟨-, project', hash, hp, hh, hhash, hproject, hdigest⟩
      cases hp
      cases hh
      exact ⟨hhash.symm, hproject.symm, hdigest.symm⟩
    · rintro ⟨hhash, hproject, hdigest⟩
      exact ⟨by simpa using hs, project, _, rfl, rfl, hhash.symm, hproject.symm, hdigest.symm⟩
  constructor
  · intro h
    refine ⟨fun s hs n h1 hn hseq => ?_, fun s hs hseq => ?_⟩
    · rw [← captures_append_iff [command] hn]
      exact h s hs n h1 (by simp; omega) hseq
    · exact (hlast s hseq).mp
        (h s hs (commands.length + 1) (by omega) (by simp) (by simpa using hseq))
  · rintro ⟨hfront, hnew⟩ s hs n h1 hn hseq
    rw [List.length_append, List.length_singleton] at hn
    by_cases hle : n ≤ commands.length
    · exact (captures_append_iff [command] hle).mpr (hfront s hs n h1 hle hseq)
    · obtain rfl : n = commands.length + 1 := by omega
      have hseq : s.1.sequence = (commands.length : Int) + 1 := by simpa using hseq
      exact (hlast s hseq).mpr (hnew s hs hseq)

omit [Sha256] in
theorem snapshotReached_concat_iff {snapshot : Option (SnapshotKey × SnapshotRow)}
    {commands : List Command} {command : Command} :
    SnapshotReached snapshot (commands ++ [command]) ↔ SnapshotReached snapshot commands ∨
      snapshot.any (fun s => s.1.sequence = (commands.length : Int) + 1) = true := by
  cases snapshot with
  | none => simp [SnapshotReached]
  | some s =>
      simp only [SnapshotReached, Option.mem_some_iff, forall_eq', List.length_append,
        List.length_singleton, Option.any_some, decide_eq_true_eq]
      push_cast
      omega

/-- What the loop has computed when the rows so far spell the commands. -/
structure Replayed.Follows (replayed : Replayed) (snapshot : Option (SnapshotKey × SnapshotRow))
    (commands : List Command) : Prop where
  project : replay commands = .ok replayed.project
  head : replayed.head = chain revisionHash commands
  sequence : replayed.sequence = commands.length
  passes : SnapshotPasses snapshot commands
  matched : replayed.matchedSnapshot = true ↔ SnapshotReached snapshot commands

namespace Replayed.Follows

variable {snapshot : Option (SnapshotKey × SnapshotRow)} {commands : List Command}
  {replayed replayed' : Replayed}

theorem start : Replayed.Follows ⟨Project.default, none, 0, snapshot.isNone⟩ snapshot [] where
  project := rfl
  head := rfl
  sequence := rfl
  passes s _ n h1 hn := absurd hn (by rw [List.length_nil]; omega)
  matched := by
    cases snapshot with
    | none => simp [SnapshotReached]
    | some s =>
        simp only [SnapshotReached, Option.mem_some_iff, forall_eq', List.length_nil,
          Option.isNone_some, Bool.false_eq_true, false_iff]
        omega

theorem unique (h : replayed.Follows snapshot commands) (h' : replayed'.Follows snapshot commands) :
    replayed = replayed' := by
  have hproject : replayed.project = replayed'.project :=
    Except.ok.inj (h.project.symm.trans h'.project)
  have hhead : replayed.head = replayed'.head := h.head.trans h'.head.symm
  have hsequence : replayed.sequence = replayed'.sequence := h.sequence.trans h'.sequence.symm
  have hmatched : replayed.matchedSnapshot = replayed'.matchedSnapshot :=
    Bool.eq_iff_iff.mpr (h.matched.trans h'.matched.symm)
  obtain ⟨project, head, sequence, matched⟩ := replayed
  obtain ⟨project', head', sequence', matched'⟩ := replayed'
  simp only at hproject hhead hsequence hmatched
  rw [hproject, hhead, hsequence, hmatched]

/-- A loop that follows the whole list has followed its front. -/
theorem front {command : Command} (h : replayed.Follows snapshot (commands ++ [command])) :
    ∃ replayed' : Replayed, replayed'.Follows snapshot commands := by
  have hreplay := h.project
  rw [replay_concat, bind_eq_ok_iff] at hreplay
  obtain ⟨project, hproject, -⟩ := hreplay
  have hpasses := ((snapshotPasses_concat_iff h.project).mp h.passes).1
  by_cases hreached : SnapshotReached snapshot commands
  · exact ⟨⟨project, _, _, true⟩, hproject, rfl, rfl, hpasses, by simp [hreached]⟩
  · exact ⟨⟨project, _, _, false⟩, hproject, rfl, rfl, hpasses, by simp [hreached]⟩

/-- **One turn** follows one more command. -/
theorem replayRow_eq_ok_iff (h : replayed.Follows snapshot commands) {entry : Int × RevisionRow} :
    replayRow snapshot replayed entry .faultless = .ok replayed' ↔
      entry.1 = (commands.length : Int) + 1 ∧ ∃ command,
        Command.fromCanonicalBytes entry.2.command = .ok command ∧
        entry.2.parentHash =
          (chain revisionHash commands).map (fun hash => hash.bytes.toList) ∧
        entry.2.revisionHash = (revisionHash (chain revisionHash commands) command).bytes.toList ∧
        replayed'.Follows snapshot (commands ++ [command]) := by
  rw [StitchEditor.replayRow_eq_ok_iff, h.sequence, h.head]
  refine and_congr_right fun hnumber => exists_congr fun command => and_congr_right fun _ =>
    and_congr_right fun _ => and_congr_right fun _ => ?_
  have hreplay : ∀ {project : Project}, reduce replayed.project command = .ok project ↔
      replay (commands ++ [command]) = .ok project := by
    simp [replay_concat, h.project, bind_eq_ok_iff]
  simp only [hreplay, matchSnapshot_eq_ok_iff]
  constructor
  · rintro ⟨project, hproject, hcompare, rfl⟩
    refine ⟨hproject, (chain_concat ..).symm, by simpa using hnumber, ?_, ?_⟩
    · refine (snapshotPasses_concat_iff hproject).mpr ⟨h.passes, fun s hs hseq => ?_⟩
      obtain ⟨hhash, hrest⟩ := hcompare s hs (hseq.trans hnumber.symm)
      exact ⟨Option.some.inj hhash, hrest⟩
    · rw [snapshotReached_concat_iff, ← h.matched, Bool.or_eq_true, hnumber]
  · intro h'
    have hnew := ((snapshotPasses_concat_iff h'.project).mp h'.passes).2
    refine ⟨replayed'.project, h'.project, fun s hs hseq => ?_, ?_⟩
    · obtain ⟨hhash, hrest⟩ := hnew s hs (hseq.trans hnumber)
      exact ⟨congrArg some hhash, hrest⟩
    · refine h'.unique ⟨h'.project, (chain_concat ..).symm, by simpa using hnumber, h'.passes, ?_⟩
      rw [snapshotReached_concat_iff, ← h.matched, Bool.or_eq_true, hnumber]

end Replayed.Follows

/-- **The replay loop** follows the commands that the rows spell. -/
theorem foldlM_replayRow_eq_ok_iff {snapshot : Option (SnapshotKey × SnapshotRow)}
    {rows : List (Int × RevisionRow)} {replayed : Replayed} :
    rows.foldlM (fun replayed entry => replayRow snapshot replayed entry .faultless)
        ⟨Project.default, none, 0, snapshot.isNone⟩ = .ok replayed ↔
      ∃ commands, Spells rows commands ∧ replayed.Follows snapshot commands := by
  induction rows using List.reverseRecOn generalizing replayed with
  | nil =>
      simp only [List.foldlM_nil, pure_eq_ok_iff, Spells.nil_iff, exists_eq_left]
      constructor
      · intro h
        exact h ▸ .start
      · intro h
        exact Replayed.Follows.start.unique h
  | append_singleton rows entry ih =>
      rw [foldlM_concat_eq_ok_iff]
      constructor
      · rintro ⟨front, hfront, hstep⟩
        obtain ⟨commands, hspells, hfollows⟩ := ih.mp hfront
        obtain ⟨hnumber, command, hcommand, hparent, hhash, hfollows'⟩ :=
          hfollows.replayRow_eq_ok_iff.mp hstep
        have hentry : entry.1 = (rows.length : Int) + 1 := by rw [hnumber, hspells.length_eq]
        exact ⟨_, Spells.concat_iff.mpr
          ⟨commands, command, rfl, hspells, hentry, hcommand, hparent, hhash⟩, hfollows'⟩
      · rintro ⟨all, hspells, hfollows'⟩
        obtain ⟨commands, command, rfl, hspells, hentry, hcommand, hparent, hhash⟩ :=
          Spells.concat_iff.mp hspells
        have hnumber : entry.1 = (commands.length : Int) + 1 := by rw [hentry, hspells.length_eq]
        obtain ⟨front, hfollows⟩ := hfollows'.front
        exact ⟨front, ih.mpr ⟨commands, hspells, hfollows⟩, hfollows.replayRow_eq_ok_iff.mpr
          ⟨hnumber, command, hcommand, hparent, hhash, hfollows'⟩⟩

/-! ## the whole of `restore` -/

theorem snapshot_settled_iff {db : Database} {commands : List Command} :
    (SnapshotPasses db.latestSnapshot commands ∧ SnapshotReached db.latestSnapshot commands) ↔
      ∀ {s : SnapshotKey × SnapshotRow}, db.latestSnapshot = some s →
        ∃ n, 1 ≤ n ∧ n ≤ commands.length ∧ Captures s commands n := by
  constructor
  · rintro ⟨hpasses, hreached⟩ s hs
    obtain ⟨h1, hn⟩ := hreached s hs
    refine ⟨s.1.sequence.toNat, by omega, by omega, hpasses s hs _ (by omega) (by omega) (by omega)⟩
  · intro h
    refine ⟨fun s hs n h1 hn hseq => ?_, fun s hs => ?_⟩
    · obtain ⟨m, -, -, hcaptures⟩ := h hs
      obtain rfl : n = m := by have := hcaptures.1; omega
      exact hcaptures
    · obtain ⟨m, h1, hm, hcaptures⟩ := h hs
      have := hcaptures.1
      omega

/-- A snapshot of a replayed prefix passes the checks that need no
replay. -/
theorem checkSnapshot_of_captures {db : Database} {commands : List Command}
    (hlen : commands.length < 2 ^ 64)
    (h : ∀ {s : SnapshotKey × SnapshotRow}, db.latestSnapshot = some s →
      ∃ n, 1 ≤ n ∧ n ≤ commands.length ∧ Captures s commands n) :
    checkSnapshot db .faultless = .ok () := by
  unfold checkSnapshot
  cases hs : db.latestSnapshot with
  | none => rfl
  | some s =>
      obtain ⟨key, row⟩ := s
      obtain ⟨n, -, hn, -, project, hash, hreplay, -, hhash, hproject, hdigest⟩ := h hs
      have hfits : project.Addressable := Project.addressable_of_replay hreplay
        ((List.length_take_le n commands).trans_lt (by omega))
      have hdecode :=
        (Project.wellFormed_of_replay hreplay).1.fromCanonicalBytes_canonicalBytes hfits
      have hsome : toArray? 32 key.revisionHash = some hash.bytes := toArray?_eq_some_iff.mpr hhash
      obtain ⟨hrow, -⟩ := Database.latestSnapshot_eq_some_iff.mp hs
      dsimp only at hproject hdigest ⊢
      rw [hproject, hdecode]
      dsimp only
      rw [if_neg (by rw [hdigest]; simp), hsome, if_neg (by simp)]
      change (if db.References key.sequence key.revisionHash then _ else _) = _
      rw [if_pos (db.valid.snapshots hrow).2]

omit [Sha256] in
theorem mismatch_eq_false_iff {db : Database} : db.mismatch = false ↔ db.ReceiptsAgree := by
  rw [Database.mismatch, List.any_eq_false]
  constructor
  · intro h id receipt hreceipt
    have hrow := h (id, receipt) (Table.mem_toList_iff.mpr hreceipt)
    dsimp only at hrow
    cases hrevision : db.revisions[receipt.sequence]? with
    | none => simp [hrevision] at hrow
    | some revision =>
        simp only [hrevision, Bool.or_eq_true, decide_eq_true_eq, not_or, not_not] at hrow
        exact ⟨revision, rfl, hrow.1, hrow.2.symm⟩
  · rintro h ⟨id, receipt⟩ hmem
    obtain ⟨revision, hrevision, hhash, hcommand⟩ := h (Table.mem_toList_iff.mp hmem)
    simp [hrevision, hhash, hcommand]

omit [Sha256] in
theorem validateReceipts_eq_ok_iff {db : Database} :
    validateReceipts db .faultless = .ok () ↔
      db.receipts.size = db.revisions.size ∧ db.ReceiptsAgree := by
  rw [← mismatch_eq_false_iff]
  change (if db.receipts.size ≠ db.revisions.size ∨ db.mismatch then _ else _) = _ ↔ _
  rw [corrupt, ite_error_eq_ok_iff, not_or, not_not, Bool.not_eq_true]
  simp

/-- The head row agrees with the end of the replay. -/
theorem checkHead_eq_ok_iff {heads : Option HeadRow} {commands : List Command} {replayed : Replayed}
    {result : Project × Option RevisionHash × Int}
    (hhead : replayed.head = chain revisionHash commands)
    (hsequence : replayed.sequence = commands.length) :
    checkHead heads replayed = .ok result ↔ HeadAgrees heads commands ∧
      result = (replayed.project, replayed.head, replayed.sequence) := by
  unfold checkHead HeadAgrees
  rw [hhead, hsequence]
  cases heads with
  | none =>
      rw [corrupt, ite_ok_eq_ok_iff, eq_comm (a := none), Option.map_eq_none_iff,
        chain_eq_none_iff, eq_comm (b := result)]
      simp
  | some row =>
      obtain ⟨sequence, bytes⟩ := row
      dsimp only
      by_cases hseq : sequence = (commands.length : Int)
      · rw [if_pos hseq]
        simp only [bind_eq_ok_iff, hashFromBytes_eq_ok_iff, corrupt, ite_ok_eq_ok_iff]
        cases chain revisionHash commands with
        | none => simp
        | some hash =>
            simp only [Option.some.injEq, Option.map_some, HeadRow.mk.injEq, hseq, true_and]
            constructor
            · rintro ⟨_, rfl, rfl, heq⟩
              exact ⟨rfl, heq.symm⟩
            · rintro ⟨rfl, heq⟩
              exact ⟨hash, rfl, rfl, heq.symm⟩
      · rw [if_neg hseq]
        cases chain revisionHash commands <;> simp [corrupt, hseq]

/-- Sequences are 64-bit numbers, so a log is not longer than that. -/
theorem Spells.length_lt {db : Database} {commands : List Command}
    (h : Spells db.revisions.toList commands) : commands.length < 2 ^ 63 := by
  induction commands using List.reverseRecOn with
  | nil => simp
  | append_singleton commands command _ =>
      obtain ⟨row, hrow, -⟩ := h.get (i := commands.length) List.getElem?_concat_length
      have hvalid := db.valid.revisions (Table.mem_toList_iff.mp (List.mem_of_getElem? hrow))
      have := hvalid.sequence_valid.2
      rw [List.length_append, List.length_singleton]
      omega

/-- **What `restore` accepts and returns**: the databases that hold a list
of commands, its replay, its head and its length. -/
theorem restore_eq_ok_iff {db : Database} {project : Project} {head : Option RevisionHash}
    {sequence : Int} :
    restore db .faultless = .ok (project, head, sequence) ↔ ∃ commands, db.Holds commands ∧
      replay commands = .ok project ∧ head = chain revisionHash commands ∧
      sequence = commands.length := by
  have hloop : restore db .faultless = .ok (project, head, sequence) ↔
      checkSnapshot db .faultless = .ok () ∧ ∃ replayed, db.revisions.toList.foldlM
        (fun replayed entry => replayRow db.latestSnapshot replayed entry .faultless)
        ⟨Project.default, none, 0, db.latestSnapshot.isNone⟩ = .ok replayed ∧
        replayed.matchedSnapshot = true ∧ validateReceipts db .faultless = .ok () ∧
        checkHead db.heads replayed = .ok (project, head, sequence) := by
    simp only [restore, execute_faultless, bind_eq_ok_iff, corrupt, ite_error_eq_ok_iff,
      Bool.not_eq_false, Unique.exists_iff, PUnit.default_eq_unit, true_and]
  rw [hloop]
  constructor
  · rintro ⟨-, replayed, hfold, hmatched, hreceipts, hhead⟩
    obtain ⟨commands, hspells, hfollows⟩ := foldlM_replayRow_eq_ok_iff.mp hfold
    obtain ⟨hcount, hagree⟩ := validateReceipts_eq_ok_iff.mp hreceipts
    obtain ⟨hagrees, hresult⟩ := (checkHead_eq_ok_iff hfollows.head hfollows.sequence).mp hhead
    cases hresult
    have hreached := hfollows.matched.mp hmatched
    exact ⟨commands, ⟨hspells, ⟨_, hfollows.project⟩,
      snapshot_settled_iff.mp ⟨hfollows.passes, hreached⟩, hcount, hagree, hagrees⟩,
      hfollows.project, hfollows.head, hfollows.sequence⟩
  · rintro ⟨commands, hholds, hreplay, rfl, rfl⟩
    obtain ⟨hpasses, hreached⟩ := snapshot_settled_iff.mpr hholds.snapshot
    have hlen := hholds.spells.length_lt
    refine ⟨checkSnapshot_of_captures (by omega) hholds.snapshot,
      ⟨project, chain revisionHash commands, commands.length, true⟩,
      foldlM_replayRow_eq_ok_iff.mpr ⟨commands, hholds.spells, hreplay, rfl, rfl, hpasses,
        by simp [hreached]⟩, rfl,
      validateReceipts_eq_ok_iff.mpr ⟨hholds.receiptCount, hholds.receipts⟩, ?_⟩
    exact (checkHead_eq_ok_iff rfl rfl).mpr ⟨hholds.head, rfl⟩

/-- A database holds at most one list of commands. -/
theorem Database.Holds.unique {db : Database} {commands commands' : List Command}
    (h : db.Holds commands) (h' : db.Holds commands') : commands = commands' :=
  h.spells.unique h'.spells

end Accepts

end StitchEditor
