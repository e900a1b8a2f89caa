import Mathlib
import StitchEditor.Contracts.Commitment
import StitchEditor.Abi.Record

/-!
# StitchEditor.Abi.Log

The batches that a core accepts, over every interleaving of the threads.

The history of a core is the log of the commands of its accepted batches
(`Recorded.logs`), and their diffs are links of one chain.  As long as the
revisions of a log differ, the core's revision tells where in the log it
stands, so that no batch is accepted on top of another that it did not see.
-/

namespace StitchEditor.Abi

open StitchEditor Chain Fallible Run

/-! ## batches -/

/-- The raw commands of a batch. -/
def StitchCommandBatch.raws (batch : StitchCommandBatch) : List StitchCommand :=
  (batch.commands.getD []).take batch.commandCount.toNat

/-- The commands of a batch whose raw commands decode. -/
def StitchCommandBatch.decoded (batch : StitchCommandBatch) : List Command :=
  match batch.raws.mapM command with
  | .ok commands => commands
  | .error _ => []

/-- What the caller promises: as many commands as the count says. -/
def StitchCommandBatch.Honest (batch : StitchCommandBatch) : Prop :=
  ∀ raws, batch.commands = some raws → raws.length = batch.commandCount.toNat

theorem length_of_mapM_eq_ok {α β ε : Type} {f : α → Except ε β} {l : List α} {l' : List β}
    (h : l.mapM f = .ok l') : l'.length = l.length := by
  induction l generalizing l' with
  | nil =>
      cases h
      rfl
  | cons a l ih =>
      simp only [List.mapM_cons, bind_eq_ok_iff, pure_eq_ok_iff] at h
      obtain ⟨b, -, bs, hrest, rfl⟩ := h
      simp [ih hrest]

section Hashing

variable [Sha256]

theorem CoreState.applyRaw_eq_ok_iff {history next : EditorHistory} {raw : StitchCommand} :
    applyRaw history raw = .ok next ↔
      ∃ decoded, command raw = .ok decoded ∧ history.applied decoded = .ok next := by
  simp only [applyRaw, bind_eq_ok_iff, EditorHistory.applied]
  refine exists_congr fun decoded => and_congr_right fun _ => ?_
  generalize history.apply decoded = ended
  obtain ⟨result, h'⟩ := ended
  cases result <;> simp

/-- A batch applies when its commands decode and apply. -/
theorem CoreState.foldlM_applyRaw_eq_ok_iff {history next : EditorHistory}
    {raws : List StitchCommand} : raws.foldlM applyRaw history = .ok next ↔
      ∃ decoded, raws.mapM command = .ok decoded ∧
        decoded.foldlM EditorHistory.applied history = .ok next := by
  induction raws generalizing history with
  | nil => simp [pure_eq_ok_iff]
  | cons raw raws ih =>
      simp only [List.foldlM_cons, List.mapM_cons, bind_eq_ok_iff, applyRaw_eq_ok_iff, ih,
        pure_eq_ok_iff]
      constructor
      · rintro ⟨h₁, ⟨c, hc, happlied⟩, cs, hcs, hrest⟩
        exact ⟨c :: cs, ⟨c, hc, cs, hcs, rfl⟩, by
          rw [List.foldlM_cons, happlied]
          exact hrest⟩
      · rintro ⟨_, ⟨c, hc, cs, hcs, rfl⟩, happlied⟩
        rw [List.foldlM_cons, bind_eq_ok_iff] at happlied
        obtain ⟨h₁, happlied, hrest⟩ := happlied
        exact ⟨h₁, ⟨c, hc, happlied⟩, cs, hcs, hrest⟩

/-- The revision that callers see after the commands. -/
def revisionOf (commands : List Command) : StitchDigest := digest (chain revisionHash commands)

theorem CoreState.revision_eq {core : CoreState} {log : List Command}
    (hl : core.history.Logs log) : core.revision = revisionOf log := by
  rw [revision, hl.currentHash, revisionOf]

/-- What an accepted batch does to a core and says in its diff. -/
structure CoreState.Accepts (core : CoreState) (thread : ThreadId) (batch : StitchCommandBatch)
    (core' : CoreState) (metadata : StitchDiffMetadata) : Prop where
  owner : core.owner = thread
  epoch : batch.epoch = core.epoch
  expected : batch.expectedRevision = core.revision
  decodes : batch.raws.mapM command = .ok batch.decoded
  applied : batch.decoded.foldlM EditorHistory.applied core.history = .ok core'.history
  keeps : core' = { core with history := core'.history }
  metadata : metadata = {
    header := header diffMetadataSize
    previousRevision := core.revision
    revision := core'.revision
    projectDigest := core'.history.project.semanticDigest.bytes
    epoch := core.epoch }

theorem CoreState.submit_eq_ok_iff {core core' : CoreState} {thread : ThreadId}
    {batch : StitchCommandBatch} {metadata : StitchDiffMetadata} :
    core.submit thread batch = .ok (core', metadata) ↔
      core.Accepts thread batch core' metadata := by
  simp only [submit, bind_eq_ok_iff, refuse_eq_ok_iff, pure_eq_ok_iff, Prod.mk.injEq, not_not,
    exists_const, ← StitchCommandBatch.raws.eq_1, foldlM_applyRaw_eq_ok_iff]
  constructor
  · rintro ⟨howner, hepoch, hexpected, next, ⟨decoded, hdecodes, happlied⟩, rfl, rfl⟩
    have hdecoded : batch.decoded = decoded := by rw [StitchCommandBatch.decoded, hdecodes]
    exact ⟨howner, hepoch, hexpected.symm, hdecoded ▸ hdecodes, hdecoded ▸ happlied, rfl, rfl⟩
  · rintro ⟨howner, hepoch, hexpected, hdecodes, happlied, hcore, rfl⟩
    refine ⟨howner, hepoch, hexpected.symm, core'.history, ⟨_, hdecodes, happlied⟩, hcore.symm, ?_⟩
    rw [← hcore]

/-! ## accepted batches -/

/-- The batch that the transition adds to the entry's core, and its diff. -/
def Transition.submission? (tr : Transition) (entry : Nat) :
    Option (StitchCommandBatch × StitchDiffMetadata) :=
  match tr.label.action with
  | .advance thread =>
      match (tr.before.threads thread).pc, (tr.after.threads thread).pc with
      | some (.locked found (.submit batch _)), some (.allocateDiff metadata _) =>
          if found = entry then some (batch, metadata) else none
      | _, _ => none
  | _ => none

/-- The batches that the entry's core accepts, in order. -/
def submissions (trs : List Transition) (entry : Nat) :
    List (StitchCommandBatch × StitchDiffMetadata) :=
  trs.filterMap fun tr => tr.submission? entry

/-- The commands of the batches, in order. -/
def logOf (batches : List (StitchCommandBatch × StitchDiffMetadata)) : List Command :=
  batches.flatMap fun submission => submission.1.decoded

omit [Sha256] in
theorem submissions_append (front back : List Transition) (entry : Nat) :
    submissions (front ++ back) entry = submissions front entry ++ submissions back entry :=
  List.filterMap_append

omit [Sha256] in
theorem submissions_concat (trs : List Transition) (tr : Transition) (entry : Nat) :
    submissions (trs ++ [tr]) entry = submissions trs entry ++ (tr.submission? entry).toList := by
  rw [submissions_append]
  cases hs : tr.submission? entry <;> simp [submissions, hs]

omit [Sha256] in
theorem logOf_append (front back : List (StitchCommandBatch × StitchDiffMetadata)) :
    logOf (front ++ back) = logOf front ++ logOf back := List.flatMap_append

namespace Transition

variable {tr : Transition} {entry : Nat} {thread : ThreadId} {access : Access}
  {core core' : CoreState} {progress : Progress}

omit [Sha256] in
theorem Spares.submission? (h : tr.Spares entry) : tr.submission? entry = none := by
  unfold Transition.submission?
  split
  · next thread haction =>
    split
    · next found batch _ metadata _ hpc hafter =>
      split
      · next hfound =>
        subst hfound
        rw [(h haction hpc).1] at hafter
        cases hafter
      · rfl
    · rfl
  · rfl

theorem Serves.submission? (h : tr.Serves entry thread access core core' progress) :
    (∃ batch callback metadata, access = .submit batch callback ∧
        core.Accepts thread batch core' metadata ∧
        tr.submission? entry = some (batch, metadata)) ∨
      (core'.history = core.history ∧ tr.submission? entry = none) := by
  have hpc' : (tr.after.threads thread).pc = (progress.leaves (tr.before.threads thread)).pc := by
    rw [h.threads, Function.update_self]
  have hnone : (∀ batch callback, access ≠ .submit batch callback) →
      tr.submission? entry = none := by
    intro hne
    simp only [Transition.submission?, h.label, h.pc]
    split
    · next heq _ =>
      cases heq
      exact absurd rfl (hne _ _)
    · rfl
  cases h.serves with
  | @submit batch callback _ metadata hsubmit =>
      refine .inl ⟨batch, callback, metadata, rfl, CoreState.submit_eq_ok_iff.mp hsubmit, ?_⟩
      simp [Transition.submission?, h.label, h.pc, hpc', Progress.leaves]
  | setEpoch hset =>
      obtain ⟨-, -, rfl⟩ := CoreState.setEpoch_eq_ok_iff.mp hset
      exact .inr ⟨rfl, hnone nofun⟩
  | transition htransition | retire htransition =>
      obtain ⟨_, -, -, rfl⟩ := CoreState.leaseTransition_eq_ok_iff.mp htransition
      exact .inr ⟨rfl, hnone nofun⟩
  | discard hdiscard =>
      obtain rfl := CoreState.discard_eq_ok hdiscard
      exact .inr ⟨rfl, hnone nofun⟩
  | snapshot | register _ | metadataGet _ | checkAcquire _ | checkSubmit _ | remove =>
      exact .inr ⟨rfl, hnone nofun⟩

end Transition

/-! ## the log of a core -/

/-- The diff of a batch accepted behind the log. -/
structure Link (log : List Command) (submission : StitchCommandBatch × StitchDiffMetadata) :
    Prop where
  decodes : submission.1.raws.mapM command = .ok submission.1.decoded
  previous : submission.2.previousRevision = revisionOf log
  revision : submission.2.revision = revisionOf (log ++ submission.1.decoded)
  projectDigest : ∃ project, replay (log ++ submission.1.decoded) = .ok project ∧
    submission.2.projectDigest = project.semanticDigest.bytes

/-- Each diff is a link behind the batches before it. -/
def Linked (batches : List (StitchCommandBatch × StitchDiffMetadata)) : Prop :=
  ∀ ⦃i submission⦄, batches[i]? = some submission → Link (logOf (batches.take i)) submission

theorem Linked.concat {batches : List (StitchCommandBatch × StitchDiffMetadata)}
    {submission : StitchCommandBatch × StitchDiffMetadata} (h : Linked batches)
    (hlink : Link (logOf batches) submission) : Linked (batches ++ [submission]) := by
  intro i found hfound
  by_cases hi : i < batches.length
  · rw [List.getElem?_append_left hi] at hfound
    rw [List.take_append_of_le_length hi.le]
    exact h hfound
  · have hle : i < batches.length + 1 := by simpa using (List.getElem?_eq_some_iff.mp hfound).1
    obtain rfl : i = batches.length := by omega
    rw [List.getElem?_concat_length, Option.some.injEq] at hfound
    rw [List.take_left, ← hfound]
    exact hlink

theorem CoreState.Accepts.logs {core core' : CoreState} {thread : ThreadId}
    {batch : StitchCommandBatch} {metadata : StitchDiffMetadata} {log : List Command}
    (h : core.Accepts thread batch core' metadata) (hl : core.history.Logs log) :
    core'.history.Logs (log ++ batch.decoded) ∧ Link log (batch, metadata) := by
  have hl' : core'.history.Logs (log ++ batch.decoded) := by
    obtain ⟨history, happlied, hl'⟩ | ⟨e, happlied, -⟩ := hl.foldlM_applied batch.decoded
    · rw [h.applied, Except.ok.injEq] at happlied
      rwa [happlied]
    · rw [h.applied] at happlied
      cases happlied
  refine ⟨hl', h.decodes, ?_, ?_, core'.history.project, hl'.replays, ?_⟩
  · rw [h.metadata, CoreState.revision_eq hl]
  · rw [h.metadata, CoreState.revision_eq hl']
  · rw [h.metadata]

/-- What is known of one entry's core along a run. -/
structure Logged (entry : Nat) (trs : List Transition) (p : Process) : Prop where
  absent : p.heap[entry]? = none → submissions trs entry = []
  logs : ∀ ⦃core⦄, p.heap[entry]? = some core →
    core.history.Logs (logOf (submissions trs entry))
  linked : Linked (submissions trs entry)

/-- **The history of a core is the log of its accepted batches.** -/
theorem Recorded.logged {trs : List Transition} {p : Process} (hrun : Recorded trs p)
    (entry : Nat) : Logged entry trs p := by
  refine hrun.invariant (I := Logged entry) ⟨fun _ => rfl, nofun, nofun⟩ ?_
  intro trs p tr p' _ h hjoins
  have hon := hjoins.on entry
  obtain ⟨rfl, rfl, -⟩ := hjoins
  have hsubmissions := submissions_concat trs tr entry
  cases hon with
  | creates hspares hbefore hafter =>
      rw [hspares.submission?, Option.toList_none, List.append_nil] at hsubmissions
      have hnil := h.absent hbefore
      refine ⟨fun habsent => ?_, fun core hcore => ?_, hsubmissions ▸ h.linked⟩
      · rw [hafter] at habsent
        cases habsent
      · rw [hafter, Option.some.injEq] at hcore
        subst hcore
        rw [hsubmissions, hnil]
        exact .default
  | keeps hspares hheap =>
      rw [hspares.submission?, Option.toList_none, List.append_nil] at hsubmissions
      exact ⟨fun habsent => hsubmissions ▸ h.absent (hheap ▸ habsent),
        fun core hcore => hsubmissions ▸ h.logs (hheap ▸ hcore), hsubmissions ▸ h.linked⟩
  | @serves thread access core core' progress hserves =>
      have hafter := hserves.after
      have hpresent : tr.after.heap[entry]? = none → submissions (trs ++ [tr]) entry = [] :=
        fun habsent => by
          rw [hafter] at habsent
          cases habsent
      obtain ⟨batch, callback, metadata, -, haccepts, hsubmission⟩ | ⟨hhistory, hnone⟩ :=
        hserves.submission?
      · rw [hsubmission, Option.toList_some] at hsubmissions
        obtain ⟨hl', hlink⟩ := haccepts.logs (h.logs hserves.found)
        refine ⟨hpresent, fun found hfound => ?_, hsubmissions ▸ h.linked.concat hlink⟩
        rw [hafter, Option.some.injEq] at hfound
        subst hfound
        rw [hsubmissions, logOf_append]
        simpa [logOf] using hl'
      · rw [hnone, Option.toList_none, List.append_nil] at hsubmissions
        refine ⟨hpresent, fun found hfound => ?_, hsubmissions ▸ h.linked⟩
        rw [hafter, Option.some.injEq] at hfound
        subst hfound
        rw [hsubmissions, hhistory]
        exact h.logs hserves.found

/-- **One chain of diffs**: each starts where the one before it ended, the
first at no revision, and ends where a history of the commands up to its own
stands. -/
structure DiffChain (batches : List (StitchCommandBatch × StitchDiffMetadata)) : Prop where
  decodes : ∀ submission ∈ batches, submission.1.raws.mapM command = .ok submission.1.decoded
  first : ∀ submission ∈ batches.head?, submission.2.previousRevision = Vector.replicate 32 0
  previous : ∀ ⦃i submission next⦄, batches[i]? = some submission → batches[i + 1]? = some next →
    next.2.previousRevision = submission.2.revision
  replays : ∀ ⦃i submission⦄, batches[i]? = some submission →
    ∃ history, (logOf (batches.take (i + 1))).foldlM EditorHistory.applied .default = .ok history ∧
      submission.2.revision = digest history.currentHash ∧
      submission.2.projectDigest = history.project.semanticDigest.bytes

omit [Sha256] in
theorem logOf_take_succ {batches : List (StitchCommandBatch × StitchDiffMetadata)} {i : Nat}
    {submission : StitchCommandBatch × StitchDiffMetadata} (h : batches[i]? = some submission) :
    logOf (batches.take (i + 1)) = logOf (batches.take i) ++ submission.1.decoded := by
  rw [List.take_add_one, h, logOf_append]
  simp [logOf]

theorem Linked.diffChain {batches : List (StitchCommandBatch × StitchDiffMetadata)}
    (h : Linked batches) : DiffChain batches where
  decodes submission hmem := by
    obtain ⟨i, hi⟩ := List.mem_iff_getElem?.mp hmem
    exact (h hi).decodes
  first submission hfirst := by
    rw [List.head?_eq_getElem?] at hfirst
    rw [(h hfirst).previous]
    rfl
  previous i submission next hi hnext := by
    rw [(h hnext).previous, (h hi).revision, logOf_take_succ hi]
  replays i submission hi := by
    obtain ⟨project, hreplay, hdigest⟩ := (h hi).projectDigest
    rw [← logOf_take_succ hi] at hreplay
    obtain ⟨history, happlied, hl⟩ | ⟨e, -, herror⟩ :=
      EditorHistory.Logs.default.foldlM_applied (logOf (batches.take (i + 1)))
    · rw [List.nil_append] at hl
      refine ⟨history, happlied, ?_, ?_⟩
      · rw [(h hi).revision, ← logOf_take_succ hi, revisionOf, hl.currentHash]
      · rw [hreplay.symm.trans hl.replays |> Except.ok.inj] at hdigest
        exact hdigest
    · rw [List.nil_append, hreplay] at herror
      cases herror

/-! ## revisions tell prefixes apart -/

/-- SHA-256 does not collide on what is hashed for the commands, and gives no
string of zeros there. -/
structure RevisionsApart (commands : List Command) : Prop where
  separates : Sha256.SeparatesChains commands commands
  nonzero : ∀ bytes ∈ hashedStrings commands, Sha256.digest bytes ≠ Vector.replicate 32 0

namespace RevisionsApart

variable {commands commands' : List Command}

theorem of_isPrefix (h : RevisionsApart commands) (hfront : commands' <+: commands) :
    RevisionsApart commands' where
  separates bytes hbytes bytes' hbytes' :=
    h.separates bytes ((hashedStrings_isPrefix hfront).subset hbytes) bytes'
      ((hashedStrings_isPrefix hfront).subset hbytes')
  nonzero bytes hbytes := h.nonzero bytes ((hashedStrings_isPrefix hfront).subset hbytes)

theorem revisionOf_ne_zero (h : RevisionsApart commands) (hne : commands ≠ []) :
    revisionOf commands ≠ Vector.replicate 32 0 := by
  unfold revisionOf
  cases hhash : chain revisionHash commands with
  | none => exact absurd ((chain_eq_none_iff revisionHash).mp hhash) hne
  | some hash =>
      obtain ⟨bytes, hbytes, hdigest⟩ := exists_digest_of_chain hhash
      rw [digest, hdigest]
      exact h.nonzero bytes hbytes

/-- **A revision stands for one prefix of the log.** -/
theorem length_eq (h : RevisionsApart commands) {front front' : List Command}
    (hfront : front <+: commands) (hfront' : front' <+: commands)
    (heq : revisionOf front = revisionOf front') : front.length = front'.length := by
  have hchain : chain revisionHash front = chain revisionHash front' := by
    have hzero : ∀ {l : List Command}, l <+: commands →
        revisionOf l = Vector.replicate 32 0 → l = [] :=
      fun hl hz => by_contra fun hne => (h.of_isPrefix hl).revisionOf_ne_zero hne hz
    cases hhash : chain revisionHash front with
    | none =>
        rw [(chain_eq_none_iff revisionHash).mp hhash] at heq
        rw [hzero hfront' heq.symm]
        rfl
    | some hash =>
        cases hhash' : chain revisionHash front' with
        | none =>
            rw [(chain_eq_none_iff revisionHash).mp hhash'] at heq
            rw [hzero hfront heq] at hhash
            cases hhash
        | some hash' =>
            rw [revisionOf, revisionOf, hhash, hhash'] at heq
            exact congrArg some (congrArg RevisionHash.mk heq)
  have hsep := h.separates.separates.of_isPrefix revisionHash hfront hfront'
  rw [eq_of_chain_eq revisionHash hsep hchain]

end RevisionsApart

end Hashing

end StitchEditor.Abi
