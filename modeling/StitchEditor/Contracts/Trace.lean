import Mathlib
import StitchEditor.Lib.Traced
import StitchEditor.Contracts.Rejection

/-!
# StitchEditor.Contracts.Trace

The project decoder with a trace: every `take` of its reader, and every
iteration that one of its loops begins.

Forgetting the trace gives the decoder back.  An iteration begins with an id
of 16 bytes, so the counts in the input may be as large as they like: the
bytes that are read pay for the iterations, up to the last one.
-/

namespace StitchEditor

open Traced

/-! ## events -/

/-- The loops of the decoder. -/
inductive DecoderLoop where
  | assets
  | tracks
  | clipIds
  | clips
  deriving DecidableEq

/-- What the decoder does with its reader. -/
inductive ReaderEvent where
  /-- `take` returns its bytes and moves the reader. -/
  | taken (before : Reader) (length : Nat) (after : Reader)
  /-- `take` fails. -/
  | refused (before : Reader) (length : Nat)
  /-- A loop begins an iteration. -/
  | iteration (loop : DecoderLoop)
  deriving DecidableEq

/-- A decoding step with its trace. -/
abbrev TraceM := Traced Reader ReaderEvent ModelError

/-! ## the code, with its trace -/

namespace TraceM

/-- `Reader::take`, which moves the reader on. -/
def take (length : Nat) : TraceM (List UInt8) := fun self =>
  match Reader.take length self with
  | .ok (value, reader) => ([.taken self length reader], .ok (value, reader))
  | .error e => ([.refused self length], .error e)

def orCorrupt {α : Type} : Option α → TraceM α
  | some a => pure a
  | none => fail .corruptProject

def expect (expected : List UInt8) : TraceM Unit := do
  if (← take expected.length) = expected then pure () else fail .corruptProject

def array (length : Nat) : TraceM (Vector UInt8 length) := do
  orCorrupt (toArray? length (← take length))

def u32 : TraceM UInt32 := do
  return UInt32.ofNat (Wire.natBE (← array 4).toList)

def u64 : TraceM UInt64 := do
  return Wire.getU64 (← array 8).toList

def i64 : TraceM Int64 := do
  return Wire.getI64 (← array 8).toList

def count : TraceM Nat := do
  return (← u64).toNat

def rational : TraceM Rational := do
  let numerator ← i64
  let denominator ← i64
  orCorrupt (Rational.new numerator denominator).toOption

def timeRange : TraceM TimeRange := do
  let start ← rational
  let stop ← rational
  orCorrupt (TimeRange.new start stop).toOption

def id (kind : IdKind) : TraceM (Id kind) := do
  return ⟨← array 16⟩

def asset : TraceM Asset := do
  let id ← id .asset
  let contentSha256 ← array 32
  let byteLength ← u64
  let providerId ← array 16
  return ⟨id, contentSha256, byteLength, providerId⟩

def clip : TraceM Clip := do
  let id ← id .clip
  let assetId ← TraceM.id .asset
  let trackId ← TraceM.id .track
  let timelineRange ← timeRange
  let sourceRange ← timeRange
  return ⟨id, assetId, trackId, timelineRange, sourceRange⟩

/-- `insert_new`. -/
def insertNew {κ ν : Type} [Ord κ] [Std.TransOrd κ] (table : OrdMap κ ν) (key : κ) (value : ν) :
    TraceM (OrdMap κ ν) :=
  orCorrupt (Table.addFresh table (key, value))

def readAsset (assets : OrdMap AssetId Asset) : TraceM (OrdMap AssetId Asset) := do
  emit (.iteration .assets)
  let asset ← TraceM.asset
  insertNew assets asset.id asset

def readClipId (clipIds : List ClipId) : TraceM (List ClipId) := do
  emit (.iteration .clipIds)
  return clipIds ++ [← TraceM.id .clip]

def readTrack (tracks : OrdMap TrackId Track) : TraceM (OrdMap TrackId Track) := do
  emit (.iteration .tracks)
  let id ← TraceM.id .track
  let clipCount ← count
  let clipIds ← Cursor.repeatM readClipId clipCount []
  insertNew tracks id ⟨id, clipIds⟩

def readClip (clips : OrdMap ClipId Clip) : TraceM (OrdMap ClipId Clip) := do
  emit (.iteration .clips)
  let clip ← TraceM.clip
  insertNew clips clip.id clip

/-- The loops of `from_canonical_bytes`, each begun once for every record that
is counted. -/
def readTables : TraceM Project := do
  expect projectMagic
  if (← u32) ≠ contractSchemaVersion then fail .corruptProject
  let assets ← Cursor.repeatM readAsset (← count) ∅
  let tracks ← Cursor.repeatM readTrack (← count) ∅
  let clips ← Cursor.repeatM readClip (← count) ∅
  return ⟨contractSchemaVersion, assets, tracks, clips⟩

/-! ## without the trace -/

/-- Without its log a step is the reader's. -/
@[simp] theorem erase_take (length : Nat) : (take length).erase = Reader.take length := by
  funext reader
  unfold Traced.erase outcome take
  cases Reader.take length reader <;> rfl

@[simp] theorem erase_orCorrupt {α : Type} (o : Option α) :
    (orCorrupt o).erase = Reader.orCorrupt o := by
  cases o <;> rfl

@[simp] theorem erase_expect (expected : List UInt8) :
    (expect expected).erase = Reader.expect expected := by
  simp only [expect, erase_bind, erase_take, erase_ite, erase_pure, erase_fail, Reader.expect]

@[simp] theorem erase_array (length : Nat) : (array length).erase = Reader.array length := by
  simp only [array, erase_bind, erase_take, erase_orCorrupt, Reader.array]

@[simp] theorem erase_u32 : u32.erase = Reader.u32 := by
  simp only [u32, erase_bind, erase_array, erase_pure, Reader.u32]

@[simp] theorem erase_u64 : u64.erase = Reader.u64 := by
  simp only [u64, erase_bind, erase_array, erase_pure, Reader.u64]

@[simp] theorem erase_i64 : i64.erase = Reader.i64 := by
  simp only [i64, erase_bind, erase_array, erase_pure, Reader.i64]

@[simp] theorem erase_count : count.erase = Reader.count := by
  simp only [count, erase_bind, erase_u64, erase_pure, Reader.count]

@[simp] theorem erase_rational : rational.erase = Reader.rational := by
  simp only [rational, erase_bind, erase_i64, erase_orCorrupt, Reader.rational]

@[simp] theorem erase_timeRange : timeRange.erase = Reader.timeRange := by
  simp only [timeRange, erase_bind, erase_rational, erase_orCorrupt, Reader.timeRange]

@[simp] theorem erase_id (kind : IdKind) : (TraceM.id kind).erase = Reader.id kind := by
  simp only [TraceM.id, erase_bind, erase_array, erase_pure, Reader.id]

@[simp] theorem erase_asset : asset.erase = Reader.asset := by
  simp only [asset, erase_bind, erase_id, erase_array, erase_u64, erase_pure, Reader.asset]

@[simp] theorem erase_clip : clip.erase = Reader.clip := by
  simp only [clip, erase_bind, erase_id, erase_timeRange, erase_pure, Reader.clip]

/-- Inserting logs nothing. -/
@[simp] theorem erase_insertNew {κ ν : Type} [Ord κ] [Std.TransOrd κ] (table : OrdMap κ ν) (k : κ)
    (v : ν) : (insertNew table k v).erase = StitchEditor.insertNew table k v :=
  erase_orCorrupt _

@[simp] theorem erase_readAsset (assets : OrdMap AssetId Asset) :
    (readAsset assets).erase = Project.readAsset assets := by
  simp only [readAsset, erase_bind, erase_emit, erase_asset, erase_insertNew, Project.readAsset,
    pure_bind]

@[simp] theorem erase_readClipId (clipIds : List ClipId) :
    (readClipId clipIds).erase = Project.readClipId clipIds := by
  simp only [readClipId, erase_bind, erase_emit, erase_id, erase_pure, Project.readClipId,
    pure_bind]

@[simp] theorem erase_readTrack (tracks : OrdMap TrackId Track) :
    (readTrack tracks).erase = Project.readTrack tracks := by
  simp only [readTrack, erase_bind, erase_emit, erase_id, erase_count, erase_insertNew,
    erase_repeatM erase_readClipId, Project.readTrack, pure_bind]

@[simp] theorem erase_readClip (clips : OrdMap ClipId Clip) :
    (readClip clips).erase = Project.readClip clips := by
  simp only [readClip, erase_bind, erase_emit, erase_clip, erase_insertNew, Project.readClip,
    pure_bind]

/-- **The trace changes nothing.** -/
theorem erase_readTables : readTables.erase = Project.readTables := by
  simp only [readTables, erase_bind, erase_expect, erase_u32, erase_count, erase_ite, erase_pure,
    erase_fail, erase_repeatM erase_readAsset, erase_repeatM erase_readTrack,
    erase_repeatM erase_readClip, Project.readTables]

/-- The decoder, with the trace of its run. -/
def fromCanonicalBytes (bytes : List UInt8) : List ReaderEvent × Except ModelError Project :=
  (readTables.log (Reader.new bytes), do
    let (project, reader) ← readTables.outcome (Reader.new bytes)
    reader.finish
    project.validate
    return project)

/-- **The log changes nothing** about what is decoded. -/
theorem fromCanonicalBytes_eq (bytes : List UInt8) :
    (fromCanonicalBytes bytes).2 = Project.fromCanonicalBytes bytes := by
  have hrun : readTables.outcome (Reader.new bytes) = Project.readTables (Reader.new bytes) :=
    congrFun erase_readTables _
  simp only [fromCanonicalBytes, Project.fromCanonicalBytes, hrun]

end TraceM

/-! ## bytes pay for iterations -/

/-- What an event does to the reader: only a `take` that succeeds moves it,
forward and within its input. -/
def ReaderEvent.Moves : Reader → ReaderEvent → Reader → Prop
  | s, .taken before length after, t =>
      before = s ∧ after = t ∧ t = { s with offset := s.offset + length } ∧
        t.offset ≤ t.input.length
  | s, .refused before length, t => before = s ∧ t = s ∧ s.input.length < s.offset + length
  | s, .iteration _, t => t = s

/-- The bytes that an iteration begins with. -/
def ReaderEvent.cost : ReaderEvent → Nat
  | .iteration _ => 16
  | _ => 0

/-- The bytes that are read pay for the iterations that begin, and for
`credit` bytes more; a failed run owes no more than one iteration. -/
def Paid {α : Type} (credit : Nat) (m : TraceM α) : Prop :=
  Pays ReaderEvent.Moves ReaderEvent.cost Reader.offset 16 credit m

namespace TraceM

/-- Reading pays for an iteration with the bytes that it takes. -/
theorem paid_take {length credit : Nat} (hcredit : credit ≤ length) (hdebt : credit ≤ 16) :
    Paid credit (take length) := by
  intro s
  simp only [log, outcome, take, Reader.take]
  by_cases h : s.offset + length ≤ s.input.length
  · rw [if_pos h]
    refine ⟨{ s with offset := s.offset + length }, .single ⟨rfl, rfl, rfl, h⟩, rfl, ?_⟩
    simp [totalCost, ReaderEvent.cost]
    omega
  · rw [if_neg h]
    refine ⟨s, .single ⟨rfl, rfl, Nat.lt_of_not_le h⟩, ?_⟩
    simp [totalCost, ReaderEvent.cost]
    omega

/-- What reads nothing pays for nothing. -/
theorem paid_orCorrupt {α : Type} (o : Option α) : Paid 0 (orCorrupt o) := by
  cases o with
  | none => exact Pays.fail _
  | some a => exact Pays.pure a

theorem paid_array {length credit : Nat} (hcredit : credit ≤ length) (hdebt : credit ≤ 16) :
    Paid credit (array length) :=
  (paid_take hcredit hdebt).bind fun _ => paid_orCorrupt _

theorem paid_expect (expected : List UInt8) : Paid 0 (expect expected) :=
  (paid_take (Nat.zero_le _) (Nat.zero_le _)).bind fun _ => Pays.ite (Pays.pure ()) (Pays.fail _)

/-- A value that is made of an array. -/
theorem paid_of_array {α : Type} {length : Nat} (f : Vector UInt8 length → α) :
    Paid 0 (array length >>= fun bytes => pure (f bytes)) :=
  (paid_array (Nat.zero_le _) (Nat.zero_le _)).bind fun _ => Pays.pure _

theorem paid_u64 : Paid 0 u64 := paid_of_array _

theorem paid_count : Paid 0 count := paid_u64.bind fun _ => Pays.pure _

theorem paid_rational : Paid 0 rational :=
  (paid_of_array _).bind fun _ => (paid_of_array _).bind fun _ => paid_orCorrupt _

theorem paid_timeRange : Paid 0 timeRange :=
  paid_rational.bind fun _ => paid_rational.bind fun _ => paid_orCorrupt _

/-- An id pays for the iteration that begins with it. -/
theorem paid_id (kind : IdKind) {credit : Nat} (hcredit : credit ≤ 16) :
    Paid credit (TraceM.id kind) :=
  (paid_array hcredit hcredit).bind fun _ => Pays.pure _

/-- An asset takes more than sixteen bytes: it pays for its iteration. -/
theorem paid_asset : Paid 16 asset :=
  (paid_id _ le_rfl).bind fun _ => (paid_array (Nat.zero_le _) (Nat.zero_le _)).bind fun _ =>
    paid_u64.bind fun _ => paid_of_array _

/-- So does a clip. -/
theorem paid_clip : Paid 16 clip :=
  (paid_id _ le_rfl).bind fun _ => (paid_id _ (Nat.zero_le _)).bind fun _ =>
    (paid_id _ (Nat.zero_le _)).bind fun _ => paid_timeRange.bind fun _ =>
      paid_timeRange.bind fun _ => Pays.pure _

/-- An iteration that its body pays for. -/
theorem paid_iteration {α : Type} {loop : DecoderLoop} {m : TraceM α} (hm : Paid 16 m) :
    Paid 0 (emit (.iteration loop) >>= fun _ => m) :=
  Pays.emit_bind (fun _ => rfl) le_rfl fun _ => hm

theorem paid_readAsset (assets : OrdMap AssetId Asset) : Paid 0 (readAsset assets) :=
  paid_iteration (paid_asset.bind fun _ => paid_orCorrupt _)

/-- An id in a track pays for its own iteration. -/
theorem paid_readClipId (clipIds : List ClipId) : Paid 0 (readClipId clipIds) :=
  paid_iteration ((paid_id _ le_rfl).bind fun _ => Pays.pure _)

/-- A track pays for its own iteration, and every id in it for one more. -/
theorem paid_readTrack (tracks : OrdMap TrackId Track) : Paid 0 (readTrack tracks) :=
  paid_iteration ((paid_id _ le_rfl).bind fun _ => paid_count.bind fun n =>
    (Pays.repeatM paid_readClipId n []).bind fun _ => paid_orCorrupt _)

theorem paid_readClip (clips : OrdMap ClipId Clip) : Paid 0 (readClip clips) :=
  paid_iteration (paid_clip.bind fun _ => paid_orCorrupt _)

/-- **Every iteration is paid for**, whatever the counts say. -/
theorem paid_readTables : Paid 0 readTables := by
  have htables : Paid 0 (do
      let assets ← Cursor.repeatM readAsset (← count) ∅
      let tracks ← Cursor.repeatM readTrack (← count) ∅
      let clips ← Cursor.repeatM readClip (← count) ∅
      return (⟨contractSchemaVersion, assets, tracks, clips⟩ : Project) : TraceM Project) :=
    paid_count.bind fun n => (Pays.repeatM paid_readAsset n ∅).bind fun _ =>
      paid_count.bind fun n => (Pays.repeatM paid_readTrack n ∅).bind fun _ =>
        paid_count.bind fun n => (Pays.repeatM paid_readClip n ∅).bind fun _ => Pays.pure _
  exact (paid_expect _).bind fun _ => (paid_of_array _).bind fun _ =>
    Pays.ite ((Pays.fail _).bind fun _ : PUnit => htables)
      ((Pays.pure PUnit.unit).bind fun _ => htables)

end TraceM

/-! ## what the decoder does to its reader -/

/-- The iterations that a log begins. -/
def iterations (log : List ReaderEvent) : Nat := log.countP (· matches .iteration _)

/-- Sixteen bytes for each iteration. -/
theorem totalCost_eq (log : List ReaderEvent) :
    totalCost ReaderEvent.cost log = 16 * iterations log := by
  induction log with
  | nil => rfl
  | cons event log ih =>
      have hcons : totalCost ReaderEvent.cost (event :: log) =
          event.cost + totalCost ReaderEvent.cost log := by simp [totalCost]
      rw [hcons, ih, iterations, iterations, List.countP_cons]
      cases event with
      | taken before length after => simp [ReaderEvent.cost]
      | refused before length => simp [ReaderEvent.cost]
      | iteration loop =>
          simp [ReaderEvent.cost]
          omega

section

variable {s t : Reader} {event : ReaderEvent}

/-- The input stays the same. -/
theorem ReaderEvent.Moves.input_eq (h : ReaderEvent.Moves s event t) : t.input = s.input := by
  cases event with
  | taken before length after =>
      obtain ⟨-, -, rfl, -⟩ := h
      rfl
  | refused before length => rw [h.2.1]
  | iteration loop => rw [show t = s from h]

/-- A move goes forward, stays within the input, and is made by a `take`. -/
theorem ReaderEvent.Moves.forward (h : ReaderEvent.Moves s event t) :
    s.offset ≤ t.offset ∧ (s.offset ≤ s.input.length → t.offset ≤ t.input.length) ∧
      (s.offset < t.offset → ∃ length, event = .taken s length t) := by
  cases event with
  | taken before length after =>
      obtain ⟨rfl, rfl, rfl, hle⟩ := h
      exact ⟨Nat.le_add_right _ _, fun _ => hle, fun _ => ⟨length, rfl⟩⟩
  | refused before length =>
      obtain ⟨-, rfl, -⟩ := h
      exact ⟨le_rfl, fun h => h, fun h => absurd h (Nat.lt_irrefl _)⟩
  | iteration loop =>
      obtain rfl : t = s := h
      exact ⟨le_rfl, fun h => h, fun h => absurd h (Nat.lt_irrefl _)⟩

end

/-- Along a path of a new reader the offset stays within the input. -/
theorem Path.within {bytes : List UInt8} {log : List ReaderEvent} {s : Reader}
    (h : Path ReaderEvent.Moves (Reader.new bytes) log s) :
    s.input = bytes ∧ s.offset ≤ bytes.length := by
  refine h.invariant (P := fun s => s.input = bytes ∧ s.offset ≤ bytes.length) ?_
    ⟨rfl, Nat.zero_le _⟩
  rintro s event t hmove ⟨rfl, hle⟩
  have hinput := hmove.input_eq
  exact ⟨hinput, hinput ▸ hmove.forward.2.1 hle⟩

/-- **Decoding is bounded by its input**, whatever counts it holds.  The reader
moves forward only, only by a `take` that succeeds and never beyond the
input; the iterations that the four loops begin are at most one more than the
input has room for; and the run ends with a project or `CorruptProject`. -/
theorem decoding_bounded_by_input (bytes : List UInt8) :
    (TraceM.fromCanonicalBytes bytes).2 = Project.fromCanonicalBytes bytes ∧
    (∀ e, Project.fromCanonicalBytes bytes = .error e → e = .corruptProject) ∧
    (∀ before event after, (TraceM.fromCanonicalBytes bytes).1 = before ++ event :: after →
      ∃ s t, Path ReaderEvent.Moves (Reader.new bytes) before s ∧ ReaderEvent.Moves s event t ∧
        s.offset ≤ t.offset ∧ t.offset ≤ bytes.length ∧
        (s.offset < t.offset → ∃ length, event = .taken s length t)) ∧
    (∀ p reader, TraceM.readTables.outcome (Reader.new bytes) = .ok (p, reader) →
      Path ReaderEvent.Moves (Reader.new bytes) (TraceM.fromCanonicalBytes bytes).1 reader) ∧
    iterations (TraceM.fromCanonicalBytes bytes).1 ≤ bytes.length / 16 + 1 := by
  obtain ⟨reader, hpath, hpays⟩ := TraceM.paid_readTables (Reader.new bytes)
  have hlog : (TraceM.fromCanonicalBytes bytes).1 = TraceM.readTables.log (Reader.new bytes) := rfl
  rw [hlog]
  refine ⟨TraceM.fromCanonicalBytes_eq bytes, Project.raises_fromCanonicalBytes bytes, ?_, ?_, ?_⟩
  · intro before event after hsplit
    rw [hsplit] at hpath
    obtain ⟨s, t, hbefore, hmove, -⟩ := hpath.split
    obtain ⟨hle, -, htake⟩ := hmove.forward
    exact ⟨s, t, hbefore, hmove, hle, (Path.within (hbefore.append (.single hmove))).2, htake⟩
  · intro p reader' hrun
    rw [hrun] at hpays
    obtain ⟨rfl, -⟩ := hpays
    exact hpath
  · have hwithin := (Path.within hpath).2
    have hzero : (Reader.new bytes).offset = 0 := rfl
    rw [totalCost_eq] at hpays
    split at hpays
    · omega
    · omega

end StitchEditor
