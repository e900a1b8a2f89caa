import Mathlib
import StitchEditor.Contracts.Layout

/-!
# StitchEditor.Contracts.Decode

What the decoders accept, exactly.

Each reading step gets one `Reads` lemma saying which byte strings it
consumes and what it returns for them; they compose by the rules of
`StitchEditor.Lib.Cursor` up to `Command.fromCanonicalBytes_eq_ok_iff` and
`Project.fromCanonicalBytes_eq_ok_iff`: the decoders accept the byte
strings of the raw values they can interpret, and nothing else.
-/

namespace StitchEditor

open Wire Cursor

/-! ## what each reading step accepts -/

instance : Cursor Reader UInt8 where
  rest r := r.input.drop r.offset
  advance r n := { r with offset := r.offset + n }
  rest_advance r n := by rw [List.drop_drop]
  advance_zero _ := rfl
  advance_advance r m n := by rw [Nat.add_assoc]

namespace Reader

theorem reads_take {length : Nat} (hpos : 0 < length) :
    Reads (take length) fun bytes bs => bytes = bs ∧ bs.length = length := by
  intro r bytes r'
  simp only [take]
  constructor
  · intro h
    split at h
    · next hle =>
      cases h
      refine ⟨_, ⟨rfl, ?_⟩, List.take_prefix _ _, ?_⟩
      · rw [List.length_take, List.length_drop]; omega
      · simp only [Cursor.advance, List.length_take, List.length_drop]
        congr 1; omega
    · cases h
  · rintro ⟨bs, ⟨rfl, rfl⟩, hpre, rfl⟩
    have hle : bytes.length ≤ (r.input.drop r.offset).length := hpre.length_le
    rw [List.length_drop] at hle
    rw [if_pos (by omega)]
    exact congrArg (fun l => Except.ok (l, _)) (List.prefix_iff_eq_take.mp hpre).symm

/-- An `ok_or` reads nothing. -/
theorem reads_orCorrupt {α : Type} (o : Option α) :
    Reads (orCorrupt o) fun a bs => o = some a ∧ bs = [] := by
  cases o with
  | none => exact (Reads.throw _).congr (by simp)
  | some a => exact (Reads.pure a).congr fun b bs => by simp [eq_comm]

/-- A value computed from what one step read. -/
theorem Reads.orCorrupt {α γ : Type} {m : ReadM α} {S : α → List UInt8 → Prop} (hm : Reads m S)
    (f : α → Option γ) :
    Reads (m >>= fun a => Reader.orCorrupt (f a)) fun c bs => ∃ a, S a bs ∧ f a = some c :=
  (hm.bind fun a => reads_orCorrupt (f a)).congr fun c bs => by
    constructor
    · rintro ⟨a, bs₁, bs₂, rfl, hS, hc, rfl⟩
      exact ⟨a, by simpa using hS, hc⟩
    · rintro ⟨a, hS, hc⟩
      exact ⟨a, bs, [], by simp, hS, hc, rfl⟩

/-- `Reader::expect` reads the bytes that it expects. -/
theorem reads_expect {expected : List UInt8} (hpos : 0 < expected.length) :
    Reads (expect expected) fun _ bs => bs = expected :=
  ((reads_take hpos).bind fun bytes =>
    Reads.ite (bytes = expected) (Reads.pure ()) (Reads.throw _)).congr fun _ bs => by
    constructor
    · rintro ⟨_, bs₁, bs₂, rfl, ⟨rfl, -⟩, ⟨rfl, -, rfl⟩ | ⟨-, h⟩⟩
      · exact List.append_nil _
      · exact h.elim
    · rintro rfl
      exact ⟨bs, bs, [], by simp, ⟨rfl, rfl⟩, .inl ⟨rfl, rfl, rfl⟩⟩

theorem reads_array {length : Nat} (hpos : 0 < length) :
    Reads (array length) fun v bs => bs = v.toList :=
  (Reads.orCorrupt (reads_take hpos) (toArray? length)).congr fun v bs => by
    simp only [toArray?_eq_some_iff]
    constructor
    · rintro ⟨_, ⟨rfl, -⟩, h⟩
      exact h
    · rintro rfl
      exact ⟨v.toList, ⟨rfl, by simp⟩, rfl⟩

/-- Every four bytes are a number, and the number spells them. -/
theorem reads_u32 : Reads u32 fun x bs => bs = putU32 x :=
  ((reads_array (show 0 < 4 by decide)).map _).congr fun x bs => by
    constructor
    · rintro ⟨v, rfl, rfl⟩
      have hlt : natBE v.toList < 2 ^ 32 := by
        have := natBE_lt v.toList
        rw [Vector.length_toList] at this
        omega
      rw [putU32, UInt32.toNat_ofNat_of_lt' hlt]
      conv_lhs => rw [← putBE_natBE v.toList, Vector.length_toList]
    · rintro rfl
      refine ⟨⟨(putU32 x).toArray, by simp [putU32]⟩, by simp [Vector.toList], ?_⟩
      have hlt : x.toNat < 256 ^ 4 := by have := x.toNat_lt; omega
      simp [Vector.toList, putU32, natBE_putBE_of_lt hlt]

theorem reads_u64 : Reads u64 fun x bs => bs = putU64 x :=
  ((reads_array (show 0 < 8 by decide)).map _).congr fun x bs => by
    constructor
    · rintro ⟨v, rfl, rfl⟩
      rw [putU64_getU64 (by simp)]
    · rintro rfl
      exact ⟨⟨(putU64 x).toArray, by simp⟩, by simp [Vector.toList],
        by simp [Vector.toList, getU64_putU64]⟩

theorem reads_i64 : Reads i64 fun x bs => bs = putI64 x :=
  ((reads_array (show 0 < 8 by decide)).map _).congr fun x bs => by
    constructor
    · rintro ⟨v, rfl, rfl⟩
      rw [putI64_getI64 (by simp)]
    · rintro rfl
      exact ⟨⟨(putI64 x).toArray, by simp⟩, by simp [Vector.toList],
        by simp [Vector.toList, getI64_putI64]⟩

theorem reads_byte : Reads byte fun b bs => bs = [b] :=
  ((reads_array (show 0 < 1 by decide)).map _).congr fun b bs => by
    constructor
    · rintro ⟨v, rfl, rfl⟩
      obtain ⟨⟨l⟩, hl⟩ := v
      obtain ⟨a, rfl⟩ := List.length_eq_one_iff.mp (by simpa using hl)
      rfl
    · rintro rfl
      exact ⟨#v[b], rfl, rfl⟩

/-- A count is below `2 ^ 64`, as the length of a stored table is. -/
theorem reads_count : Reads count fun n bs => n < 2 ^ 64 ∧ bs = putBE 8 n :=
  (reads_u64.map _).congr fun n bs => by
    constructor
    · rintro ⟨x, rfl, rfl⟩
      exact ⟨x.toNat_lt, rfl⟩
    · rintro ⟨hlt, rfl⟩
      refine ⟨UInt64.ofNat n, ?_, ?_⟩
      · rw [putU64, UInt64.toNat_ofNat_of_lt' hlt]
      · rw [UInt64.toNat_ofNat_of_lt' hlt]

theorem reads_id (kind : IdKind) : Reads (Reader.id kind) fun id bs => bs = id.bytes.toList :=
  ((reads_array (show 0 < 16 by decide)).map _).congr fun id bs => by
    constructor
    · rintro ⟨v, rfl, rfl⟩; rfl
    · rintro rfl; exact ⟨id.bytes, rfl, rfl⟩

/-- A fraction is read from any spelling of it, reduced or not. -/
theorem reads_rational :
    Reads rational fun q bs => ∃ raw : RawRational, raw.value = some q ∧ bs = raw.put :=
  (reads_i64.bind fun n => Reads.orCorrupt reads_i64 fun d => (Rational.new n d).toOption).congr
    fun q bs => by
    constructor
    · rintro ⟨n, _, _, rfl, rfl, d, rfl, hq⟩
      exact ⟨⟨n, d⟩, hq, rfl⟩
    · rintro ⟨⟨n, d⟩, hq, rfl⟩
      exact ⟨n, _, _, rfl, rfl, d, rfl, hq⟩

/-- A range is read from any spelling of its two ends. -/
theorem reads_timeRange :
    Reads timeRange fun r bs => ∃ raw : RawRange, raw.value = some r ∧ bs = raw.put :=
  (reads_rational.bind fun start =>
    Reads.orCorrupt reads_rational fun stop => (TimeRange.new start stop).toOption).congr
    fun r bs => by
    simp only [RawRange.value, Option.bind_eq_bind, Option.bind_eq_some_iff]
    constructor
    · rintro ⟨start, _, _, rfl, ⟨raw, hstart, rfl⟩, stop, ⟨raw', hstop, rfl⟩, hr⟩
      exact ⟨⟨raw, raw'⟩, ⟨start, hstart, stop, hstop, hr⟩, rfl⟩
    · rintro ⟨⟨raw, raw'⟩, ⟨start, hstart, stop, hstop, hr⟩, rfl⟩
      exact ⟨start, _, _, rfl, ⟨raw, hstart, rfl⟩, stop, ⟨raw', hstop, rfl⟩, hr⟩

/-- An asset has one spelling: it has no fraction. -/
theorem reads_asset : Reads asset fun a bs => bs = a.canonicalBytes :=
  ((reads_id .asset).bind fun id => (reads_array (show 0 < 32 by decide)).bind fun sha =>
    reads_u64.bind fun len => (reads_array (show 0 < 16 by decide)).map fun provider =>
      (⟨id, sha, len, provider⟩ : Asset)).congr fun a bs => by
    constructor
    · rintro ⟨id, _, _, rfl, rfl, sha, _, _, rfl, rfl, len, _, _, rfl, rfl, provider, rfl, rfl⟩
      rfl
    · rintro rfl
      exact ⟨a.id, _, _, rfl, rfl, _, _, _, rfl, rfl, _, _, _, rfl, rfl, _, rfl, rfl⟩

/-- A clip is read from any spelling of its two ranges. -/
theorem reads_clip :
    Reads clip fun c bs => ∃ raw : RawClip, raw.value = some c ∧ bs = raw.put :=
  ((reads_id .clip).bind fun id => (reads_id .asset).bind fun assetId =>
    (reads_id .track).bind fun trackId => reads_timeRange.bind fun timeline =>
      reads_timeRange.map fun source =>
        (⟨id, assetId, trackId, timeline, source⟩ : Clip)).congr fun c bs => by
    simp only [RawClip.value, Option.bind_eq_bind, Option.bind_eq_some_iff, Option.pure_def,
      Option.some.injEq]
    constructor
    · rintro ⟨id, _, _, rfl, rfl, assetId, _, _, rfl, rfl, trackId, _, _, rfl, rfl, timeline,
        _, _, rfl, ⟨raw, ht, rfl⟩, source, ⟨raw', hs, rfl⟩, rfl⟩
      exact ⟨⟨id, assetId, trackId, raw, raw'⟩, ⟨timeline, ht, source, hs, rfl⟩, rfl⟩
    · rintro ⟨⟨id, assetId, trackId, raw, raw'⟩, ⟨timeline, ht, source, hs, rfl⟩, rfl⟩
      exact ⟨id, _, _, rfl, rfl, assetId, _, _, rfl, rfl, trackId, _, _, rfl, rfl, timeline,
        _, _, rfl, ⟨raw, ht, rfl⟩, source, ⟨raw', hs, rfl⟩, rfl⟩

/-- Reading to the end: the program must accept the whole input. -/
theorem finish_eq_ok_iff {α : Type} {m : ReadM α} {S : α → List UInt8 → Prop} (hm : Reads m S)
    {bytes : List UInt8} {a : α} :
    (∃ reader, m (Reader.new bytes) = .ok (a, reader) ∧ reader.finish = .ok ()) ↔ S a bytes := by
  have hfinish : ∀ n, (advance (Reader.new bytes) n).finish = .ok () ↔ n = bytes.length := by
    intro n
    simp [finish, Reader.new, Cursor.advance]
  constructor
  · rintro ⟨reader, hrun, hend⟩
    obtain ⟨bs, hS, hpre, rfl⟩ := (hm _ _ _).mp hrun
    have hbs : bs = bytes := hpre.eq_of_length ((hfinish _).mp hend)
    exact hbs ▸ hS
  · intro hS
    exact ⟨_, (hm _ _ _).mpr ⟨bytes, hS, List.prefix_refl bytes, rfl⟩, (hfinish _).mpr rfl⟩

end Reader

/-! ## what the command decoder accepts -/

/-- Behind the magic bytes and the version, the format goes on. -/
theorem reads_header {γ : Type} {magic : List UInt8} (hpos : 0 < magic.length) {m : ReadM γ}
    {S : γ → List UInt8 → Prop} (hm : Reads m S) :
    Reads (do
      Reader.expect magic
      if (← Reader.u32) ≠ contractSchemaVersion then throw .corruptProject
      m) fun c bs => ∃ bs', bs = magic ++ (putU32 contractSchemaVersion ++ bs') ∧ S c bs' :=
  ((Reader.reads_expect hpos).bind fun _ => Reader.reads_u32.bind fun version =>
    Reads.ite (version ≠ contractSchemaVersion)
      ((Reads.throw ModelError.corruptProject).bind fun _ : PUnit => hm)
      ((Reads.pure PUnit.unit).bind fun _ => hm)).congr fun c bs => by
    constructor
    · rintro ⟨_, _, _, rfl, rfl, version, _, bs', rfl, rfl, ⟨-, _, _, _, _, h, -⟩ |
        ⟨hversion, _, _, bs', rfl, ⟨-, rfl⟩, hS⟩⟩
      · exact h.elim
      · rw [not_not] at hversion
        exact ⟨bs', by rw [hversion]; rfl, hS⟩
    · rintro ⟨bs', rfl, hS⟩
      exact ⟨(), _, _, rfl, rfl, _, _, _, rfl, rfl,
        .inr ⟨by simp, (), [], bs', rfl, ⟨rfl, rfl⟩, hS⟩⟩

namespace Command

/-- The tag and the fields of a command spell a record of it. -/
theorem reads_readFields (tag : UInt8) : Reads (readFields tag) fun c bs =>
    ∃ raw : RawCommand, raw.fields = tag :: bs ∧ raw.value = some c := by
  unfold readFields
  split
  · refine (Reader.reads_asset.map Command.addAsset).congr fun c bs => ?_
    constructor
    · rintro ⟨asset, rfl, rfl⟩
      exact ⟨.addAsset asset, rfl, rfl⟩
    · rintro ⟨raw, hfields, hvalue⟩
      cases raw <;> simp [RawCommand.fields, RawCommand.value] at hfields hvalue
      exact ⟨_, hfields.symm, hvalue.symm⟩
  · refine ((Reader.reads_id .track).map Command.addTrack).congr fun c bs => ?_
    constructor
    · rintro ⟨trackId, rfl, rfl⟩
      exact ⟨.addTrack trackId, rfl, rfl⟩
    · rintro ⟨raw, hfields, hvalue⟩
      cases raw <;> simp [RawCommand.fields, RawCommand.value] at hfields hvalue
      exact ⟨_, hfields.symm, hvalue.symm⟩
  · refine (Reader.reads_clip.map fun clip =>
      Command.addClip clip.id clip.assetId clip.trackId clip.timelineRange
        clip.sourceRange).congr fun c bs => ?_
    constructor
    · rintro ⟨clip, ⟨raw, hraw, rfl⟩, rfl⟩
      exact ⟨.addClip raw, rfl, by simp [RawCommand.value, hraw]⟩
    · rintro ⟨raw, hfields, hvalue⟩
      cases raw <;> simp [RawCommand.fields, RawCommand.value] at hfields hvalue
      obtain ⟨clip, hclip, rfl⟩ := hvalue
      exact ⟨clip, ⟨_, hclip, hfields.symm⟩, rfl⟩
  · refine ((Reader.reads_id .clip).bind fun clipId =>
      Reader.reads_timeRange.map (Command.moveClip clipId)).congr fun c bs => ?_
    constructor
    · rintro ⟨clipId, _, _, rfl, rfl, range, ⟨raw, hraw, rfl⟩, rfl⟩
      exact ⟨.moveClip clipId raw, rfl, by simp [RawCommand.value, hraw]⟩
    · rintro ⟨raw, hfields, hvalue⟩
      cases raw <;> simp [RawCommand.fields, RawCommand.value] at hfields hvalue
      obtain ⟨range, hrange, rfl⟩ := hvalue
      exact ⟨_, _, _, hfields.symm, rfl, range, ⟨_, hrange, rfl⟩, rfl⟩
  · refine ((Reader.reads_id .clip).map Command.removeClip).congr fun c bs => ?_
    constructor
    · rintro ⟨clipId, rfl, rfl⟩
      exact ⟨.removeClip clipId, rfl, rfl⟩
    · rintro ⟨raw, hfields, hvalue⟩
      cases raw <;> simp [RawCommand.fields, RawCommand.value] at hfields hvalue
      exact ⟨_, hfields.symm, hvalue.symm⟩
  · next h1 h2 h3 h4 h5 =>
    refine (Reads.throw _).congr fun c bs => ?_
    constructor
    · exact False.elim
    · rintro ⟨raw, hfields, -⟩
      cases raw <;> simp only [RawCommand.fields, List.cons.injEq] at hfields
      · exact h1 hfields.1.symm
      · exact h2 hfields.1.symm
      · exact h3 hfields.1.symm
      · exact h4 hfields.1.symm
      · exact h5 hfields.1.symm

theorem reads_read : Reads read fun c bs =>
    ∃ raw : RawCommand, raw.put = bs ∧ raw.value = some c :=
  (reads_header (by decide) (Reader.reads_byte.bind reads_readFields)).congr fun c bs => by
    constructor
    · rintro ⟨_, rfl, tag, _, _, rfl, rfl, raw, hfields, hvalue⟩
      exact ⟨raw, by rw [RawCommand.put, hfields]; rfl, hvalue⟩
    · rintro ⟨raw, rfl, hvalue⟩
      obtain ⟨tag, bs, hfields⟩ : ∃ tag bs, raw.fields = tag :: bs := by
        cases raw <;> exact ⟨_, _, rfl⟩
      exact ⟨raw.fields, rfl, tag, [tag], bs, by rw [hfields]; rfl, rfl, raw, hfields, hvalue⟩

/-- **The command decoder, exactly**: it accepts the byte strings of the raw
commands it can interpret. -/
theorem fromCanonicalBytes_eq_ok_iff {bytes : List UInt8} {c : Command} :
    fromCanonicalBytes bytes = .ok c ↔
      ∃ raw : RawCommand, raw.put = bytes ∧ raw.value = some c := by
  rw [← Reader.finish_eq_ok_iff reads_read, fromCanonicalBytes]
  cases hrun : read (Reader.new bytes) with
  | error e => simp [bind, Except.bind]
  | ok p =>
      obtain ⟨c', reader⟩ := p
      cases hend : reader.finish with
      | error e => simp [bind, Except.bind, hend]
      | ok u => simp [bind, Except.bind, pure, Except.pure, hend]

end Command

/-! ## what the project decoder accepts -/

/-- A fold whose step first interprets its item folds the interpreted
items. -/
theorem foldlM_bind_eq_some_iff {α β γ : Type} {f : α → Option β} {g : γ → β → Option γ}
    {l : List α} {acc res : γ} :
    l.foldlM (fun acc a => (f a).bind (g acc)) acc = some res ↔
      ∃ l', l.mapM f = some l' ∧ l'.foldlM g acc = some res := by
  induction l generalizing acc with
  | nil => simp
  | cons a l ih =>
      cases hfa : f a with
      | none => simp [List.foldlM_cons, hfa]
      | some b =>
          simp only [List.foldlM_cons, List.mapM_cons, hfa, Option.bind_some, Option.bind_eq_bind,
            Option.pure_def]
          cases hgb : g acc b with
          | none =>
              simp only [Option.bind_none, reduceCtorEq, false_iff, not_exists, not_and]
              intro l' hl'
              obtain ⟨l'', -, hcons⟩ := Option.bind_eq_some_iff.mp hl'
              cases hcons
              simp [List.foldlM_cons, hgb]
          | some acc' =>
              simp only [Option.bind_some, ih]
              constructor
              · rintro ⟨l', hl', hfold⟩
                exact ⟨b :: l', by simp [hl'], by simp [List.foldlM_cons, hgb, hfold]⟩
              · rintro ⟨l', hl', hfold⟩
                obtain ⟨l'', hl'', hcons⟩ := Option.bind_eq_some_iff.mp hl'
                cases hcons
                exact ⟨l'', hl'', by simpa [List.foldlM_cons, hgb] using hfold⟩

/-- Ids are collected in the order in which they are read. -/
theorem foldlM_concat_eq_some_iff {α : Type} {ds acc res : List α} :
    ds.foldlM (fun acc d => some (acc ++ [d])) acc = some res ↔ res = acc ++ ds := by
  induction ds generalizing acc with
  | nil => simp [eq_comm]
  | cons d ds ih => simp [List.foldlM_cons, ih]

namespace Project

/-- A record enters a table that has none under its id. -/
theorem reads_insertNew {κ ν : Type} [Ord κ] [Std.TransOrd κ] (table : OrdMap κ ν) (k : κ) (v : ν) :
    Reads (insertNew table k v) fun t bs => Table.addFresh table (k, v) = some t ∧ bs = [] :=
  Reader.reads_orCorrupt _

theorem reads_readAsset (assets : OrdMap AssetId Asset) :
    Reads (readAsset assets) fun t bs =>
      ∃ a : Asset, bs = a.canonicalBytes ∧ Table.addFresh assets (a.id, a) = some t :=
  Reader.Reads.orCorrupt Reader.reads_asset _

theorem reads_readClipId (clipIds : List ClipId) :
    Reads (readClipId clipIds) fun ids bs =>
      ∃ id : ClipId, bs = ClipId.canonicalBytes id ∧ some (clipIds ++ [id]) = some ids :=
  ((Reader.reads_id .clip).map fun id => clipIds ++ [id]).congr fun ids bs => by
    simp only [ClipId.canonicalBytes, Option.some.injEq, eq_comm]

/-- A track is read with the ids of its clips. -/
theorem reads_readTrack (tracks : OrdMap TrackId Track) :
    Reads (readTrack tracks) fun t bs => ∃ raw : RawTrack, bs = raw.put ∧
      Table.addFresh tracks (raw.track.id, raw.track) = some t :=
  ((Reader.reads_id .track).bind fun id => Reader.reads_count.bind fun n =>
    (Reads.repeatM reads_readClipId n []).bind fun clipIds =>
      reads_insertNew tracks id ⟨id, clipIds⟩).congr fun t bs => by
    constructor
    · rintro ⟨id, _, _, rfl, rfl, n, _, _, rfl, ⟨hlt, rfl⟩, clipIds, _, _, rfl,
        ⟨ds, rfl, rfl, hfold⟩, hadd, rfl⟩
      obtain rfl : clipIds = ds := foldlM_concat_eq_some_iff.mp hfold
      exact ⟨⟨⟨id, clipIds⟩, hlt⟩, by simp [RawTrack.put, Track.canonicalBytes, putCounted], hadd⟩
    · rintro ⟨⟨⟨id, clipIds⟩, hfit⟩, rfl, hadd⟩
      exact ⟨id, _, _, rfl, rfl, clipIds.length, _, _, rfl, ⟨hfit, rfl⟩, clipIds, _, [],
        (List.append_nil _).symm, ⟨clipIds, rfl, rfl, foldlM_concat_eq_some_iff.mpr rfl⟩, hadd, rfl⟩

theorem reads_readClip (clips : OrdMap ClipId Clip) :
    Reads (readClip clips) fun t bs => ∃ raw : RawClip, bs = raw.put ∧
      (raw.value.bind fun c => Table.addFresh clips (c.id, c)) = some t :=
  (Reader.Reads.orCorrupt Reader.reads_clip fun c => Table.addFresh clips (c.id, c)).congr
    fun t bs => by
    simp only [Option.bind_eq_some_iff]
    constructor
    · rintro ⟨c, ⟨raw, hraw, rfl⟩, hadd⟩
      exact ⟨raw, rfl, c, hraw, hadd⟩
    · rintro ⟨raw, rfl, c, hraw, hadd⟩
      exact ⟨c, ⟨raw, hraw, rfl⟩, hadd⟩

/-- A counted table of records. -/
theorem reads_table {γ δ : Type} {body : γ → ReadM γ} {put : δ → List UInt8}
    {add : γ → δ → Option γ}
    (hbody : ∀ g, Reads (body g) fun g' bs => ∃ d, bs = put d ∧ add g d = some g') (g : γ) :
    Reads (Reader.count >>= fun n => Cursor.repeatM body n g) fun g' bs => ∃ ds : List δ,
      ds.length < 2 ^ 64 ∧ bs = putCounted put ds ∧ ds.foldlM add g = some g' :=
  (Reader.reads_count.bind fun n => Reads.repeatM hbody n g).congr fun g' bs => by
    constructor
    · rintro ⟨n, _, _, rfl, ⟨hlt, rfl⟩, ds, rfl, rfl, hfold⟩
      exact ⟨ds, hlt, rfl, hfold⟩
    · rintro ⟨ds, hlt, rfl, hfold⟩
      exact ⟨ds.length, _, _, rfl, ⟨hlt, rfl⟩, ds, rfl, rfl, hfold⟩

/-- The tables are built from the records of a layout, in whatever order it has
them. -/
theorem reads_readTables : Reads readTables fun p bs =>
    ∃ raw : RawProject, bs = raw.put ∧ raw.Builds p := by
  have htables := (reads_table reads_readAsset ∅).bind fun assets =>
    (reads_table reads_readTrack ∅).bind fun tracks =>
      (reads_table reads_readClip ∅).map fun clips =>
        (⟨contractSchemaVersion, assets, tracks, clips⟩ : Project)
  have hread := reads_header (show 0 < projectMagic.length by decide) htables
  have hshape : readTables = (do
      Reader.expect projectMagic
      if (← Reader.u32) ≠ contractSchemaVersion then throw .corruptProject
      let assets ← Reader.count >>= fun n => Cursor.repeatM readAsset n ∅
      let tracks ← Reader.count >>= fun n => Cursor.repeatM readTrack n ∅
      let clips ← Reader.count >>= fun n => Cursor.repeatM readClip n ∅
      return ⟨contractSchemaVersion, assets, tracks, clips⟩) := by
    simp only [readTables, bind_assoc]
  rw [hshape]
  refine hread.congr fun p bs => ?_
  constructor
  · rintro ⟨_, rfl, assets, _, _, rfl, ⟨as, has, rfl, hassets⟩, tracks, _, _, rfl,
      ⟨ts, hts, rfl, htracks⟩, clips, ⟨cs, hcs, rfl, hclips⟩, rfl⟩
    obtain ⟨clipList, hvalues, hclips⟩ := foldlM_bind_eq_some_iff.mp hclips
    refine ⟨⟨as, ts, cs, has, hts, hcs⟩, by simp [RawProject.put], rfl, ?_, ?_, clipList, hvalues,
      ?_⟩
    · exact Table.foldlM_addFresh_empty_iff.mp (by rw [List.foldlM_map]; exact hassets)
    · exact Table.foldlM_addFresh_empty_iff.mp (by rw [List.foldlM_map]; exact htracks)
    · exact Table.foldlM_addFresh_empty_iff.mp (by rw [List.foldlM_map]; exact hclips)
  · rintro ⟨raw, rfl, hschema, hassets, htracks, clipList, hvalues, hclips⟩
    have hassets := Table.foldlM_addFresh_empty_iff.mpr hassets
    have htracks := Table.foldlM_addFresh_empty_iff.mpr htracks
    have hclips := Table.foldlM_addFresh_empty_iff.mpr hclips
    rw [List.foldlM_map] at hassets htracks hclips
    refine ⟨_, rfl, p.assets, _, _, rfl, ⟨raw.assets, raw.assets_fit, rfl, hassets⟩, p.tracks, _, _,
      rfl, ⟨raw.tracks, raw.tracks_fit, rfl, htracks⟩, p.clips,
      ⟨raw.clips, raw.clips_fit, rfl, foldlM_bind_eq_some_iff.mpr ⟨clipList, hvalues, hclips⟩⟩, ?_⟩
    cases p
    cases hschema
    rfl

/-- **The project decoder, exactly**: it accepts the byte strings of the raw
projects whose records fill the tables of a project that validates. -/
theorem fromCanonicalBytes_eq_ok_iff {bytes : List UInt8} {p : Project} :
    fromCanonicalBytes bytes = .ok p ↔
      ∃ raw : RawProject, raw.put = bytes ∧ raw.Builds p ∧ p.validate = .ok () := by
  have hiff : (∃ reader, readTables (Reader.new bytes) = .ok (p, reader) ∧
      reader.finish = .ok ()) ↔ ∃ raw : RawProject, bytes = raw.put ∧ raw.Builds p :=
    Reader.finish_eq_ok_iff reads_readTables
  rw [fromCanonicalBytes]
  constructor
  · intro h
    cases hrun : readTables (Reader.new bytes) with
    | error e => rw [hrun] at h; cases h
    | ok pair =>
        obtain ⟨p', reader⟩ := pair
        cases hend : reader.finish with
        | error e => simp [hrun, hend, bind, Except.bind] at h
        | ok u =>
            cases hvalid : p'.validate with
            | error e => simp [hrun, hend, hvalid, bind, Except.bind] at h
            | ok v =>
                simp only [hrun, hend, hvalid, bind, Except.bind, pure, Except.pure,
                  Except.ok.injEq] at h
                subst h
                obtain ⟨raw, rfl, hbuilds⟩ := hiff.mp ⟨reader, hrun, hend⟩
                exact ⟨raw, rfl, hbuilds, hvalid⟩
  · rintro ⟨raw, rfl, hbuilds, hvalid⟩
    obtain ⟨reader, hrun, hend⟩ := hiff.mpr ⟨raw, rfl, hbuilds⟩
    simp [hrun, hend, hvalid, bind, Except.bind, pure, Except.pure]

end Project

end StitchEditor
