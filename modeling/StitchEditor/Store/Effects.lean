import Mathlib
import StitchEditor.Store.Worker

/-!
# StitchEditor.Store.Effects

What the operations of the worker do to rows and memory.

A commit appends exactly one revision (`State.Appends`) or changes nothing;
maintenance changes nothing but snapshots (`State.Maintains`).  Both keep
rows and memory those of one list of commands (`State.Tracks`).
-/

namespace StitchEditor

open Chain Fallible Procedure Std

section Effects

variable [Sha256]

/-! ## rows and memory -/

/-- Rows and memory are those of the commands. -/
structure State.Tracks (s : State) (commands : List Command) : Prop where
  holds : s.connection.Holds commands
  replays : replay commands = .ok s.project
  head : s.head = chain revisionHash commands
  sequence : s.sequence = commands.length

/-- Rows and memory are those of some list exactly when `restore` finds in
the rows what is in memory. -/
theorem tracks_iff {s : State} : (∃ commands, s.Tracks commands) ↔
    restore s.connection .faultless = .ok (s.project, s.head, s.sequence) := by
  rw [restore_eq_ok_iff]
  constructor
  · rintro ⟨commands, h⟩
    exact ⟨commands, h.holds, h.replays, h.head, h.sequence⟩
  · rintro ⟨commands, hholds, hreplays, hhead, hsequence⟩
    exact ⟨commands, hholds, hreplays, hhead, hsequence⟩

/-- The revisions of held commands are numbered from one. -/
theorem mem_revisions_iff {db : Database} {commands : List Command}
    (h : Spells db.revisions.toList commands) {n : Int} :
    n ∈ db.revisions ↔ 1 ≤ n ∧ n ≤ commands.length := by
  rw [Table.mem_iff_exists]
  constructor
  · rintro ⟨row, hrow⟩
    obtain ⟨i, hi⟩ := List.mem_iff_getElem?.mp (Table.mem_toList_iff.mpr hrow)
    have hn : n = i + 1 := h.fst_eq hi
    have hlt := (List.getElem?_eq_some_iff.mp hi).1
    rw [h.length_eq] at hlt
    omega
  · rintro ⟨h1, hn⟩
    obtain ⟨i, rfl⟩ : ∃ i : Nat, n = i + 1 := ⟨(n - 1).toNat, by omega⟩
    have hlt : i < commands.length := by omega
    obtain ⟨row, hrow, -⟩ := h.get (List.getElem?_eq_getElem hlt)
    exact ⟨row, Table.mem_toList_iff.mp (List.mem_of_getElem? hrow)⟩

/-! ## appending a revision -/

/-- The revision that a commit of the command writes. -/
def State.revision (s : State) (command : Command) : RevisionRow where
  revisionHash := (revisionHash s.head command).bytes.toList
  parentHash := s.head.map fun hash => hash.bytes.toList
  command := command.canonicalBytes

/-- The receipt that a commit of the command writes. -/
def State.receiptRow (s : State) (command : Command) : ReceiptRow where
  revisionHash := (revisionHash s.head command).bytes.toList
  sequence := s.sequence + 1
  command := command.canonicalBytes

/-- The receipt that a commit of the command returns. -/
def State.receipt (s : State) (requestId : RequestId) (command : Command) : CommitReceipt where
  requestId := requestId
  revisionHash := revisionHash s.head command
  sequence := s.sequence + 1

/-- The request adds the command to rows and memory. -/
structure State.Appends (s : State) (requestId : RequestId) (command : Command) (s' : State) :
    Prop where
  fresh : requestId.bytes.toList ∉ s.connection.receipts
  next : s.sequence + 1 ∉ s.connection.revisions
  reduces : reduce s.project command = .ok s'.project
  rows : s'.connection.toTables =
    { s.connection.toTables with
      revisions := s.connection.revisions.insert (s.sequence + 1) (s.revision command)
      receipts := s.connection.receipts.insert requestId.bytes.toList (s.receiptRow command)
      heads := some ⟨s.sequence + 1, (revisionHash s.head command).bytes.toList⟩ }
  head : s'.head = some (revisionHash s.head command)
  sequence : s'.sequence = s.sequence + 1
  databasePath : s'.databasePath = s.databasePath
  maintenanceFailure : s'.maintenanceFailure = s.maintenanceFailure

variable {s s' s'' : State} {commands : List Command} {requestId : RequestId} {command : Command}

namespace State.Appends

theorem revisions_eq (happ : s.Appends requestId command s') : s'.connection.revisions =
    s.connection.revisions.insert (s.sequence + 1) (s.revision command) :=
  congrArg Tables.revisions happ.rows

theorem receipts_eq (happ : s.Appends requestId command s') : s'.connection.receipts =
    s.connection.receipts.insert requestId.bytes.toList (s.receiptRow command) :=
  congrArg Tables.receipts happ.rows

/-- The new revision is listed last. -/
theorem spells (happ : s.Appends requestId command s') (h : s.Tracks commands) :
    Spells s'.connection.revisions.toList (commands ++ [command]) := by
  have hspells := h.holds.spells
  have hlast : ∀ e ∈ s.connection.revisions.toList, compare e.1 (s.sequence + 1) = .lt := by
    intro e he
    have hmem : e.1 ∈ s.connection.revisions :=
      Table.mem_iff_exists.mpr ⟨e.2, Table.mem_toList_iff.mp he⟩
    have hle := ((mem_revisions_iff hspells).mp hmem).2
    have hsequence := h.sequence
    exact Int.compare_eq_lt.mpr (by omega)
  rw [happ.revisions_eq, Table.toList_insert_of_lt _ hlast, h.sequence, ← hspells.length_eq]
  exact .snoc hspells (Command.fromCanonicalBytes_canonicalBytes command)
    (by rw [State.revision, h.head]) (by rw [State.revision, h.head])

/-- Old receipts keep their revisions, the new one has the new revision. -/
theorem receiptsAgree (happ : s.Appends requestId command s') (h : s.Tracks commands) :
    s'.connection.ReceiptsAgree := by
  intro id receipt hreceipt
  rw [happ.receipts_eq] at hreceipt
  rw [happ.revisions_eq]
  obtain ⟨-, rfl⟩ | ⟨-, hreceipt⟩ := Table.getElem?_insert_eq_some_iff.mp hreceipt
  · exact ⟨s.revision command, ExtTreeMap.getElem?_insert_self, rfl, rfl⟩
  · obtain ⟨revision, hrevision, hrest⟩ := h.holds.receipts hreceipt
    have hne : receipt.sequence ≠ s.sequence + 1 := fun heq =>
      happ.next (heq ▸ Table.mem_iff_exists.mpr ⟨revision, hrevision⟩)
    exact ⟨revision, Table.getElem?_insert_eq_some_iff.mpr (.inr ⟨hne, hrevision⟩), hrest⟩

/-- **Appending keeps rows and memory together.** -/
theorem tracks (happ : s.Appends requestId command s') (h : s.Tracks commands) :
    s'.Tracks (commands ++ [command]) := by
  have hreplay : replay (commands ++ [command]) = .ok s'.project := by
    rw [replay_concat, h.replays]
    exact happ.reduces
  have hsnapshots : s'.connection.snapshots = s.connection.snapshots := by rw [happ.rows]
  have hheads : s'.connection.heads =
      some ⟨s.sequence + 1, (revisionHash s.head command).bytes.toList⟩ :=
    congrArg Tables.heads happ.rows
  refine ⟨⟨happ.spells h, ⟨_, hreplay⟩, ?_, ?_, happ.receiptsAgree h, ?_⟩, hreplay, ?_, ?_⟩
  · intro snapshot hsnapshot
    rw [Database.latestSnapshot, hsnapshots] at hsnapshot
    obtain ⟨n, h1, hn, hcaptures⟩ := h.holds.snapshot hsnapshot
    exact ⟨n, h1, by rw [List.length_append]; omega,
      (captures_append_iff [command] hn).mpr hcaptures⟩
  · rw [happ.receipts_eq, happ.revisions_eq, Table.size_insert_of_not_mem happ.fresh,
      Table.size_insert_of_not_mem happ.next, h.holds.receiptCount]
  · rw [HeadAgrees, hheads, chain_concat, h.sequence, h.head]
    simp
  · rw [happ.head, chain_concat, h.head]
  · rw [happ.sequence, h.sequence]
    simp

end State.Appends

/-! ## maintenance -/

/-- Nothing changes but snapshots and the recorded failure. -/
structure State.Maintains (s s' : State) : Prop where
  revisions : s'.connection.revisions = s.connection.revisions
  receipts : s'.connection.receipts = s.connection.receipts
  heads : s'.connection.heads = s.connection.heads
  project : s'.project = s.project
  head : s'.head = s.head
  sequence : s'.sequence = s.sequence
  databasePath : s'.databasePath = s.databasePath
  snapshot : ∀ {commands : List Command}, s.Tracks commands →
    ∀ {snapshot : SnapshotKey × SnapshotRow}, s'.connection.latestSnapshot = some snapshot →
      ∃ n, 1 ≤ n ∧ n ≤ commands.length ∧ Captures snapshot commands n

namespace State.Maintains

/-- **Maintenance keeps rows and memory together.** -/
theorem tracks (hm : s.Maintains s') (h : s.Tracks commands) : s'.Tracks commands := by
  refine ⟨⟨?_, h.holds.replays, hm.snapshot h, ?_, ?_, ?_⟩, ?_, ?_, ?_⟩
  · rw [hm.revisions]
    exact h.holds.spells
  · rw [hm.receipts, hm.revisions, h.holds.receiptCount]
  · intro id receipt hreceipt
    rw [hm.receipts] at hreceipt
    rw [hm.revisions]
    exact h.holds.receipts hreceipt
  · rw [hm.heads]
    exact h.holds.head
  · rw [hm.project, h.replays]
  · rw [hm.head, h.head]
  · rw [hm.sequence, h.sequence]

/-- A state that differs in the recorded failure only. -/
theorem failure (s : State) (failure : Option MaintenanceError) :
    s.Maintains { s with maintenanceFailure := failure } :=
  ⟨rfl, rfl, rfl, rfl, rfl, rfl, rfl, fun h => h.holds.snapshot⟩

theorem refl (s : State) : s.Maintains s := failure s s.maintenanceFailure

theorem trans (h : s.Maintains s') (h' : s'.Maintains s'') : s.Maintains s'' :=
  ⟨h'.revisions.trans h.revisions, h'.receipts.trans h.receipts, h'.heads.trans h.heads,
    h'.project.trans h.project, h'.head.trans h.head, h'.sequence.trans h.sequence,
    h'.databasePath.trans h.databasePath, fun ht => h'.snapshot (h.tracks ht)⟩

/-- Rows that keep the log and whose latest snapshot is captured from it. -/
theorem of_rows {rows : Database} {snapshots : OrdMap SnapshotKey SnapshotRow}
    (hrows : rows.toTables = { s.connection.toTables with snapshots := snapshots })
    (hsnapshot : ∀ {commands : List Command}, s.Tracks commands →
      ∀ {snapshot : SnapshotKey × SnapshotRow}, rows.latestSnapshot = some snapshot →
        ∃ n, 1 ≤ n ∧ n ≤ commands.length ∧ Captures snapshot commands n) :
    s.Maintains { s with connection := rows } :=
  ⟨by rw [hrows], by rw [hrows], by rw [hrows], rfl, rfl, rfl, rfl, hsnapshot⟩

end State.Maintains

/-! ## commits -/

/-- An error other than `StoreError::Ambiguous`. -/
def Stop.Definite (stop : Stop) : Prop := ∀ id, stop ≠ .error (.ambiguous id)

/-- The row of the request says what the receipt says, for the command. -/
structure Database.Acknowledges (db : Database) (command : Command) (receipt : CommitReceipt) :
    Prop where
  row : db.receipts[receipt.requestId.bytes.toList]? =
    some ⟨receipt.revisionHash.bytes.toList, receipt.sequence, command.canonicalBytes⟩

/-- How a commit ends: rows and memory are left alone, or the command is
appended and the caller is told so. -/
inductive State.Commits (s : State) (requestId : RequestId) (command : Command) :
    Except Stop CommitReceipt → State → Prop where
  | kept {result : Except Stop CommitReceipt}
      (hok : ∀ receipt, result = .ok receipt →
        receipt.requestId = requestId ∧ s.connection.Acknowledges command receipt)
      (herror : Raises result Stop.Definite) : s.Commits requestId command result s
  | appended {result : Except Stop CommitReceipt} {s' : State}
      (happends : s.Appends requestId command s')
      (hresult : result = .ok (s.receipt requestId command) ∨
        result = .error (.error (.ambiguous requestId))) : s.Commits requestId command result s'

section Raises

omit [Sha256]

theorem raises_execute (env : Env) (site : Site) : Raises (execute env site) Stop.Definite := by
  unfold execute
  cases env.verdict site with
  | completes => exact .ok _
  | fails => exact .error fun _ h => by cases h
  | crashes => exact .error fun _ h => by cases h

theorem raises_corrupt {α : Type} : Raises (corrupt : Except Stop α) Stop.Definite :=
  .error fun _ h => by cases h

theorem raises_constrained {α : Type} (rows : Option α) :
    Raises (constrained rows) Stop.Definite := by
  cases rows with
  | none => exact .error fun _ h => by cases h
  | some rows => exact .ok _

theorem raises_refuse {check : Prop} [Decidable check] {error : StoreError}
    (h : Stop.Definite (.error error)) : Raises (refuse check error) Stop.Definite :=
  .ite (.error h) (.ok _)

theorem raises_hashFromBytes (bytes : List UInt8) :
    Raises (hashFromBytes bytes) Stop.Definite := by
  unfold hashFromBytes
  cases toArray? 32 bytes with
  | none => exact raises_corrupt
  | some bytes => exact .ok _

theorem raises_receipt (connection : Database) (requestId : RequestId) (env : Env) :
    Raises (StitchEditor.receipt connection requestId env) Stop.Definite := by
  refine (raises_execute env _).bind fun _ _ => ?_
  cases connection.receipts[requestId.bytes.toList]? with
  | none => exact .ok _
  | some row => exact (raises_hashFromBytes _).bind fun _ _ => .ok _

theorem raises_retry (connection : Database) (requestId : RequestId) (command : Command)
    (receipt : CommitReceipt) (env : Env) :
    Raises (retry connection requestId command receipt env) Stop.Definite := by
  refine (raises_execute env _).bind fun _ _ => ?_
  cases connection.receipts[requestId.bytes.toList]? with
  | none => exact .error fun _ h => by cases h
  | some row => exact (raises_refuse fun _ h => by cases h).bind fun _ _ => .ok _

theorem raises_reduceModel (project : Project) (command : Command) :
    Raises (reduceModel project command) Stop.Definite := by
  unfold reduceModel
  split
  · exact .ok _
  · exact .error fun _ h => by cases h

theorem raises_nextSequence (sequence : Int) : Raises (nextSequence sequence) Stop.Definite :=
  .ite (.ok _) raises_corrupt

theorem raises_transact (state : State) (receipt : CommitReceipt) (command : Command)
    (fault : Option FaultPoint) (env : Env) :
    Raises (transact state receipt command fault env) Stop.Definite :=
  (raises_execute env _).bind fun _ _ => (raises_execute env _).bind fun _ _ =>
    (raises_constrained _).bind fun _ _ => (raises_execute env _).bind fun _ _ =>
      (raises_constrained _).bind fun _ _ => (raises_execute env _).bind fun _ _ =>
        (raises_constrained _).bind fun _ _ => (raises_refuse fun _ h => by cases h).bind fun _ _ =>
          (raises_execute env _).bind fun _ _ => .ok _

end Raises

omit [Sha256] in
/-- A receipt that is found is the stored row. -/
theorem receipt_eq_ok_some {db : Database} {env : Env} {receipt : CommitReceipt}
    (h : StitchEditor.receipt db requestId env = .ok (some receipt)) :
    receipt.requestId = requestId ∧ ∃ row, db.receipts[requestId.bytes.toList]? = some row ∧
      row.revisionHash = receipt.revisionHash.bytes.toList ∧ row.sequence = receipt.sequence := by
  obtain ⟨_, -, h⟩ := bind_eq_ok_iff.mp h
  cases hrow : db.receipts[requestId.bytes.toList]? with
  | none => simp [hrow, pure, Except.pure] at h
  | some row =>
      simp only [hrow, bind_eq_ok_iff, hashFromBytes_eq_ok_iff, pure_eq_ok_iff] at h
      obtain ⟨hash, hbytes, heq⟩ := h
      cases heq
      exact ⟨rfl, row, rfl, hbytes, rfl⟩

omit [Sha256] in
/-- A retry succeeds when the stored command has the bytes of the repeated
one. -/
theorem retry_eq_ok {db : Database} {env : Env} {receipt receipt' : CommitReceipt}
    (h : retry db requestId command receipt env = .ok receipt') : receipt' = receipt ∧
      ∃ row, db.receipts[requestId.bytes.toList]? = some row ∧
        row.command = command.canonicalBytes := by
  obtain ⟨_, -, h⟩ := bind_eq_ok_iff.mp h
  cases hrow : db.receipts[requestId.bytes.toList]? with
  | none => simp [hrow, raise] at h
  | some row =>
      simp only [hrow, refuse, bind_eq_ok_iff, ite_error_eq_ok_iff, not_not, pure_eq_ok_iff] at h
      obtain ⟨_, ⟨hcommand, -⟩, rfl⟩ := h
      exact ⟨rfl, row, rfl, hcommand⟩

omit [Sha256] in
theorem constrained_eq_ok_iff {α : Type} {rows : Option α} {a : α} :
    constrained rows = .ok a ↔ rows = some a := by
  cases rows <;> simp [constrained]

omit [Sha256] in
theorem reduceModel_eq_ok_iff {p q : Project} : reduceModel p command = .ok q ↔
    reduce p command = .ok q := by
  unfold reduceModel
  split <;> simp_all

/-- What the transaction of a commit writes. -/
theorem transact_eq_ok {rows : Database} {fault : Option FaultPoint} {env : Env}
    (h : transact s (s.receipt requestId command) command fault env = .ok rows) :
    requestId.bytes.toList ∉ s.connection.receipts ∧ s.sequence + 1 ∉ s.connection.revisions ∧
      rows.toTables = { s.connection.toTables with
        revisions := s.connection.revisions.insert (s.sequence + 1) (s.revision command)
        receipts := s.connection.receipts.insert requestId.bytes.toList (s.receiptRow command)
        heads := some ⟨s.sequence + 1, (revisionHash s.head command).bytes.toList⟩ } := by
  simp only [transact, bind_eq_ok_iff, constrained_eq_ok_iff, pure_eq_ok_iff] at h
  obtain ⟨_, -, _, -, rows₁, hrevision, _, -, rows₂, hreceipt, _, -, rows₃, hhead, _, -, _, -,
    rfl⟩ := h
  obtain ⟨hnext, -, h₁⟩ := Database.insertRevision_eq_some_iff.mp hrevision
  obtain ⟨hfresh, -, -, h₂⟩ := Database.insertReceipt_eq_some_iff.mp hreceipt
  obtain ⟨-, -, h₃⟩ := Database.upsertHead_eq_some_iff.mp hhead
  rw [h₁] at hfresh h₂
  exact ⟨hfresh, hnext, by rw [h₃, h₂]; rfl⟩

/-- A definite error before anything is written. -/
theorem State.Commits.refused {α : Type} {x : Except Stop α} {stop : Stop}
    (hx : Raises x Stop.Definite) (hstop : x = .error stop) :
    s.Commits requestId command (.error stop) s :=
  .kept (fun _ h => by cases h) (.error (hx stop hstop))

/-- A request that has a receipt is answered from its row. -/
theorem State.Commits.retry {receipt : CommitReceipt} {env : Env}
    (hfound : StitchEditor.receipt s.connection requestId env = .ok (some receipt)) :
    s.Commits requestId command (StitchEditor.retry s.connection requestId command receipt env)
      s := by
  obtain ⟨hid, row, hrow, hhash, hsequence⟩ := receipt_eq_ok_some hfound
  refine .kept (fun receipt' hreceipt' => ?_) (raises_retry _ _ _ _ _)
  obtain ⟨rfl, row', hrow', hcommand⟩ := retry_eq_ok hreceipt'
  rw [hrow, Option.some.injEq] at hrow'
  subst hrow'
  refine ⟨hid, ⟨?_⟩⟩
  rw [hid, hrow, ← hhash, ← hsequence, ← hcommand]

/-- A transaction that went through appends the command. -/
theorem appends_of_transact {next : Project} {rows : Database} {fault : Option FaultPoint}
    {env : Env} (hnext : reduceModel s.project command = .ok next)
    (hrows : transact s (s.receipt requestId command) command fault env = .ok rows) :
    s.Appends requestId command { s with
      connection := rows, project := next
      head := some (revisionHash s.head command), sequence := s.sequence + 1 } := by
  obtain ⟨hfresh, hnew, htables⟩ := transact_eq_ok hrows
  exact ⟨hfresh, hnew, reduceModel_eq_ok_iff.mp hnext, htables, rfl, rfl, rfl, rfl⟩

/-- **How a commit ends.** -/
theorem ensures_commit (fault : Option FaultPoint) (env : Env) :
    Ensures (commit requestId command fault env) s (s.Commits requestId command) := by
  refine Ensures.get_bind (Ensures.lift_bind ?_ ?_)
  · intro e he
    exact .refused (raises_receipt _ _ _) he
  · intro found hfound
    cases found with
    | some receipt => exact Ensures.lift (.retry hfound)
    | none =>
        refine Ensures.lift_bind ?_ fun next hnext => Ensures.lift_bind ?_ fun sequence hsequence =>
          Ensures.lift_bind ?_ fun rows hrows => Ensures.set_bind (Ensures.lift_bind ?_ ?_)
        · intro e he
          exact .refused (raises_reduceModel _ _) he
        · intro e he
          exact .refused (raises_nextSequence _) he
        · intro e he
          exact .refused (raises_transact _ _ _ _ _) he
        all_goals
          obtain ⟨-, rfl⟩ := ite_ok_eq_ok_iff.mp hsequence
          have happends := appends_of_transact hnext hrows
        · intro e he
          obtain rfl : e = .error (.ambiguous requestId) := by
            unfold refuse at he
            split at he <;> cases he
            rfl
          exact .appended happends (.inr rfl)
        · intro _ _
          exact Ensures.pure (.appended happends (.inl rfl))

/-! ## maintenance procedures -/

omit [Sha256] in
theorem mapErr_eq_ok_iff {α : Type} {error : StoreError} {x : Except Stop α} {a : α} :
    mapErr error x = .ok a ↔ x = .ok a := by
  cases x with
  | error stop => cases stop <;> simp [mapErr]
  | ok a => simp [mapErr]

/-- The snapshot of the head that `persist_snapshot` inserts becomes the
latest one. -/
theorem stageSnapshot_maintains {head : RevisionHash} {env : Env} {rows : Database}
    (hhead : s.head = some head) (h : stageSnapshot s head env = .ok rows) :
    s.Maintains { s with connection := rows } := by
  simp only [stageSnapshot, bind_eq_ok_iff, constrained_eq_ok_iff, pure_eq_ok_iff] at h
  obtain ⟨_, -, _, -, rows', hinsert, _, -, rfl⟩ := h
  obtain rfl | ⟨hnew, -, href, htables⟩ := Database.insertOrIgnoreSnapshot_spec hinsert
  · exact .refl s
  refine .of_rows htables fun {commands} ht snapshot hlatest => ?_
  obtain ⟨key, row⟩ := snapshot
  obtain ⟨hrow, hmax⟩ := Database.latestSnapshot_eq_some_iff.mp hlatest
  rw [htables] at hrow
  obtain ⟨rfl, rfl⟩ | ⟨hne, hrow⟩ := Table.getElem?_insert_eq_some_iff.mp hrow
  · have hne : commands ≠ [] := by
      rintro rfl
      rw [ht.head] at hhead
      cases hhead
    refine ⟨commands.length, List.length_pos_iff.mpr hne, le_rfl, ?_⟩
    rw [Captures, List.take_length]
    exact ⟨ht.sequence, s.project, head, ht.replays, by rw [← ht.head, hhead], rfl, rfl, rfl⟩
  · -- an older snapshot lies behind the head, as its revision exists
    have hold := (s.connection.valid.snapshots hrow).2
    obtain ⟨revision, hrevision, hhash⟩ := Tables.references_iff.mp hold
    have hle := ((mem_revisions_iff ht.holds.spells).mp
      (Table.mem_iff_exists.mpr ⟨revision, hrevision⟩)).2
    have hmem : (⟨s.sequence, head.bytes.toList⟩ : SnapshotKey) ∈ rows'.snapshots := by
      rw [htables]
      exact ExtTreeMap.mem_insert_self
    have hge := SnapshotKey.sequence_le_of_isLE (hmax _ hmem)
    have hseq : key.sequence = s.sequence := by
      rw [ht.sequence] at hge ⊢
      exact Int.le_antisymm hle hge
    have hhash : key.revisionHash = head.bytes.toList := by
      have hsame : some key.revisionHash = some head.bytes.toList :=
        hold.symm.trans (hseq ▸ href)
      exact Option.some.inj hsame
    exact absurd (by cases key; simp_all) hne

theorem ensures_persistSnapshot (fault : Option FaultPoint) (env : Env) :
    Ensures (persistSnapshot fault env) s fun _ s' => s.Maintains s' := by
  refine Ensures.get_bind ?_
  split
  · exact .pure (.refl s)
  · refine Ensures.lift_bind (fun _ _ => .refl s) fun _ _ => ?_
    split
    · exact .lift (.refl s)
    · next head hhead =>
      refine Ensures.lift_bind (fun _ _ => .refl s) fun _ _ => ?_
      split
      · exact .pure (.refl s)
      · refine Ensures.lift_bind (fun _ _ => .refl s) fun _ _ =>
          Ensures.lift_bind (fun _ _ => .refl s) fun rows hrows => ?_
        have hmaintains := stageSnapshot_maintains hhead (mapErr_eq_ok_iff.mp hrows)
        exact Ensures.set_bind (.lift hmaintains)

theorem deleteOldSnapshots_maintains (s : State) :
    s.Maintains { s with connection := s.connection.deleteOldSnapshots } := by
  obtain ⟨snapshots, htables⟩ := @Database.toTables_deleteOldSnapshots s.connection
  refine .of_rows htables fun ht snapshot hlatest => ?_
  rw [Database.latestSnapshot_deleteOldSnapshots] at hlatest
  exact ht.holds.snapshot hlatest

theorem ensures_compact (fault : Option FaultPoint) (env : Env) :
    Ensures (compact fault env) s fun _ s' => s.Maintains s' := by
  refine Ensures.lift_bind (fun _ _ => .refl s) fun _ _ =>
    (ensures_persistSnapshot none env).bind (fun _ _ h => h) fun _ s₁ hsnapshot =>
      Ensures.lift_bind (fun _ _ => hsnapshot) fun _ _ => Ensures.modify_bind ?_
  have hdeleted := hsnapshot.trans (deleteOldSnapshots_maintains s₁)
  exact Ensures.lift_bind (fun _ _ => hdeleted) fun _ _ =>
    Ensures.lift_bind (fun _ _ => hdeleted) fun _ _ =>
      Ensures.lift_bind (fun _ _ => hdeleted) fun _ _ => .lift hdeleted

end Effects

end StitchEditor
