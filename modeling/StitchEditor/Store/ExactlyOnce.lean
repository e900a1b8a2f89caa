import Mathlib
import StitchEditor.Lib.Ledger
import StitchEditor.Store.Durability

/-!
# StitchEditor.Store.ExactlyOnce

Clients, the work queue and the worker as one message-passing system.

Clients put requests into a bounded queue, in any order and as often as they
like; the worker serves the front of the queue; a crash loses the queue and
the memory, and reopening starts over from the rows.  A reply stands in the
label of the step that sends it, whether or not its client ever reads it.

The system refines a ledger of requests that take effect once
(`records_of_runs`), from which the exactly-once guarantees follow.
-/

namespace StitchEditor

open Fallible Ledger Procedure Run Std

section ExactlyOnce

variable [Sha256]

/-! ## the system -/

def channelCapacity : Nat := 32

/-- The store and its queue: each request with the client that waits for
it. -/
structure System where
  node : Node
  queue : List (Nat × Work)

/-- One step, with the reply that it sends and whether the log changes. -/
inductive Label where
  | submit (client : Nat) (work : Work)
  | serve (client : Nat) (work : Work) (env : Env) (reply : Option Reply) (changed : Bool)
  | crash
  | reopen (path : Path) (env : Env)

/-- The queue lives as long as the process. -/
def Node.keep (node : Node) (queue : List (Nat × Work)) : List (Nat × Work) :=
  match node with
  | .running _ => queue
  | .down _ _ => []

inductive System.Step : System → Label → System → Prop where
  | submit {world : World} {queue : List (Nat × Work)} {client : Nat} {work : Work}
      (hroom : queue.length < channelCapacity) :
      Step ⟨.running world, queue⟩ (.submit client work)
        ⟨.running world, queue ++ [(client, work)]⟩
  | serve {world : World} {queue : List (Nat × Work)} {client : Nat} {work : Work} {env : Env}
      {node : Node} (hstep : (Node.running world).Step (.message work env) node) :
      Step ⟨.running world, (client, work) :: queue⟩
        (.serve client work env (handle work env { world with reply := none }).2.reply
          (node.rows.revisions ≠ world.state.connection.revisions))
        ⟨node, node.keep queue⟩
  | crash {world : World} {queue : List (Nat × Work)} {node : Node}
      (hstep : (Node.running world).Step .crash node) :
      Step ⟨.running world, queue⟩ .crash ⟨node, []⟩
  | reopen {rows : Database} {files : Files} {path : Path} {env : Env} {node : Node}
      (hstep : (Node.down rows files).Step (.reopen path env) node) :
      Step ⟨.down rows files, []⟩ (.reopen path env) ⟨node, []⟩

/-- An empty store that nobody has opened yet. -/
def System.initial (files : Files) : System := ⟨.down .empty files, []⟩

/-! ## what a ledger sees -/

/-- The answer of a reply to a commit. -/
def Reply.answer? : Reply → Option (Answer CommitReceipt)
  | .commit (.ok granted) => some (.accepted granted)
  | .commit (.error (.ambiguous _)) => some .ambiguous
  | .commit (.error _) => some .refused
  | _ => none

/-- The receipt that a lookup finds. -/
def Reply.found? : Reply → Option CommitReceipt
  | .receipt (.ok found) => found
  | _ => none

/-- What a client sees of a message that is served. -/
def exchange? (work : Work) (reply : Option Reply) (changed : Bool) :
    Option (Exchange RequestId Command CommitReceipt) :=
  match work with
  | .commit requestId command _ =>
      some (.commit requestId command (reply.bind Reply.answer?) changed)
  | .receipt requestId => some (.lookup requestId (reply.bind Reply.found?))
  | _ => none

/-- What a client sees of a step. -/
def Label.exchange? : Label → Option (Exchange RequestId Command CommitReceipt)
  | .serve _ work _ reply changed => StitchEditor.exchange? work reply changed
  | _ => none

/-- The row that the receipt of an entry is stored in. -/
def entryRow (e : Entry RequestId Command CommitReceipt) : ReceiptRow where
  revisionHash := e.receipt.revisionHash.bytes.toList
  sequence := e.receipt.sequence
  command := e.command.canonicalBytes

/-- The rows record the entries. -/
structure Database.Records (db : Database)
    (entries : List (Entry RequestId Command CommitReceipt)) : Prop where
  named : ∀ e ∈ entries, e.receipt.requestId = e.request
  numbered : entries.map (fun e => e.receipt.sequence) =
    (List.range entries.length).map fun i => (i : Int) + 1
  revision : ∀ e ∈ entries, ∃ row, db.revisions[e.receipt.sequence]? = some row ∧
    row.revisionHash = e.receipt.revisionHash.bytes.toList ∧
    row.command = e.command.canonicalBytes
  receipts : ∀ {id : List UInt8} {row : ReceiptRow}, db.receipts[id]? = some row ↔
    ∃ e ∈ entries, id = e.request.bytes.toList ∧ row = entryRow e
  size : db.revisions.size = entries.length

/-! ## one message -/

variable {s s' : State} {entries : List (Entry RequestId Command CommitReceipt)}
  {commands : List Command}

omit [Sha256] in
theorem Database.Records.of_eq {db db' : Database} (h : db.Records entries)
    (hrevisions : db'.revisions = db.revisions) (hreceipts : db'.receipts = db.receipts) :
    db'.Records entries :=
  ⟨h.named, h.numbered, by rw [hrevisions]; exact h.revision, by rw [hreceipts]; exact h.receipts,
    by rw [hrevisions, h.size]⟩

omit [Sha256] in
/-- A stored receipt is that of an entry. -/
theorem Database.Records.entry {db : Database} (h : db.Records entries) {receipt : CommitReceipt}
    {row : ReceiptRow} (hrow : db.receipts[receipt.requestId.bytes.toList]? = some row)
    (hhash : row.revisionHash = receipt.revisionHash.bytes.toList)
    (hsequence : row.sequence = receipt.sequence) :
    ∃ e ∈ entries, e.request = receipt.requestId ∧ e.receipt = receipt ∧
      row.command = e.command.canonicalBytes := by
  obtain ⟨e, he, hid, rfl⟩ := h.receipts.mp hrow
  have hrequest : e.request = receipt.requestId := (Id.toList_inj.mp hid).symm
  refine ⟨e, he, hrequest, ?_, rfl⟩
  have hname := h.named e he
  obtain ⟨requestId, ⟨hash⟩, sequence⟩ := receipt
  obtain ⟨_, _, requestId', ⟨hash'⟩, sequence'⟩ := e
  simp only [entryRow, Vector.toList_inj] at hhash hsequence
  simp_all

/-- The entry of a commit that appends. -/
def State.entry (s : State) (requestId : RequestId) (command : Command) :
    Entry RequestId Command CommitReceipt := ⟨requestId, command, s.receipt requestId command⟩

namespace State.Appends

variable {requestId : RequestId} {command : Command}

/-- Old entries stay in the log, and the new one is in it. -/
theorem records_revision (happ : s.Appends requestId command s')
    (h : s.connection.Records entries) :
    ∀ e ∈ entries ++ [s.entry requestId command],
      ∃ row, s'.connection.revisions[e.receipt.sequence]? = some row ∧
        row.revisionHash = e.receipt.revisionHash.bytes.toList ∧
        row.command = e.command.canonicalBytes := by
  rw [happ.revisions_eq, List.forall_mem_append]
  constructor
  · intro e he
    obtain ⟨row, hrow, hrest⟩ := h.revision e he
    have hne : e.receipt.sequence ≠ s.sequence + 1 := fun heq =>
      happ.next (heq ▸ Table.mem_iff_exists.mpr ⟨row, hrow⟩)
    exact ⟨row, Table.getElem?_insert_eq_some_iff.mpr (.inr ⟨hne, hrow⟩), hrest⟩
  · rw [List.forall_mem_singleton]
    exact ⟨s.revision command, by simp [State.entry, State.receipt], rfl, rfl⟩

/-- The receipt rows are those of the old entries and of the new one. -/
theorem records_receipts (happ : s.Appends requestId command s') (h : s.connection.Records entries)
    {id : List UInt8} {row : ReceiptRow} : s'.connection.receipts[id]? = some row ↔
      ∃ e ∈ entries ++ [s.entry requestId command],
        id = e.request.bytes.toList ∧ row = entryRow e := by
  have hfresh : ∀ e ∈ entries, e.request.bytes.toList ≠ requestId.bytes.toList := by
    intro e he heq
    have hrow := h.receipts.mpr ⟨e, he, rfl, rfl⟩
    rw [heq] at hrow
    exact happ.fresh (Table.mem_iff_exists.mpr ⟨_, hrow⟩)
  rw [happ.receipts_eq, Table.getElem?_insert_eq]
  simp only [List.mem_append, List.mem_singleton, or_and_right, exists_or, exists_eq_left]
  by_cases hid : id = requestId.bytes.toList
  · have hold : ¬ ∃ e ∈ entries, id = e.request.bytes.toList ∧ row = entryRow e := by
      rintro ⟨e, he, heq, -⟩
      exact hfresh e he (heq.symm.trans hid)
    rw [if_pos hid]
    simp only [hold, false_or]
    constructor
    · intro hrow
      cases hrow
      exact ⟨hid, rfl⟩
    · rintro ⟨-, rfl⟩
      rfl
  · have hnew : ¬ (id = (s.entry requestId command).request.bytes.toList ∧
        row = entryRow (s.entry requestId command)) := fun h => hid h.1
    rw [if_neg hid, h.receipts]
    simp only [hnew, or_false]

/-- **Appending records one more entry.** -/
theorem records (happ : s.Appends requestId command s') (ht : s.Tracks commands)
    (h : s.connection.Records entries) :
    s'.connection.Records (entries ++ [s.entry requestId command]) where
  named := by
    rw [List.forall_mem_append, List.forall_mem_singleton]
    exact ⟨h.named, rfl⟩
  numbered := by
    have hlength : s.sequence = entries.length := by
      rw [ht.sequence, ← h.size, ← ExtTreeMap.length_toList, ht.holds.spells.length_eq]
    simp [h.numbered, List.range_succ, State.entry, State.receipt, hlength]
  revision := happ.records_revision h
  receipts := happ.records_receipts h
  size := by
    rw [happ.revisions_eq, Table.size_insert_of_not_mem happ.next, h.size, List.length_append,
      List.length_singleton]

/-- The ledger grows by the entry, whether or not the answer arrives. -/
theorem step (happ : s.Appends requestId command s') (h : s.connection.Records entries)
    {answer : Option (Answer CommitReceipt)}
    (hanswer : answer = none ∨ answer = some (.accepted (s.receipt requestId command)) ∨
      answer = some .ambiguous) :
    Ledger.Step entries (.commit requestId command answer true)
      (entries ++ [s.entry requestId command]) := by
  refine .append (e := s.entry requestId command) ?_ hanswer
  intro hmem
  obtain ⟨e, he, hrequest⟩ := List.mem_map.mp hmem
  have hrow := h.receipts.mpr ⟨e, he, rfl, rfl⟩
  rw [hrequest] at hrow
  exact happ.fresh (Table.mem_iff_exists.mpr ⟨_, hrow⟩)

theorem revisions_ne (happ : s.Appends requestId command s') :
    s'.connection.revisions ≠ s.connection.revisions := by
  intro heq
  refine happ.next (heq ▸ ?_)
  rw [happ.revisions_eq]
  exact ExtTreeMap.mem_insert_self

end State.Appends

omit [Sha256] in
/-- The reply to a commit that changed nothing: a receipt that is on record,
or an error that says so. -/
theorem Database.Records.step_of_kept {db : Database} (h : db.Records entries)
    {requestId : RequestId} {command : Command} {result : Except StoreError CommitReceipt}
    (hok : ∀ receipt, result = .ok receipt →
      receipt.requestId = requestId ∧ db.Acknowledges command receipt)
    (herror : ∀ id, result ≠ .error (.ambiguous id)) :
    Ledger.Step entries (.commit requestId command (Reply.commit result).answer? false)
      entries := by
  cases result with
  | ok granted =>
      obtain ⟨rfl, hrow⟩ := hok granted rfl
      obtain ⟨e, he, hrequest, hreceipt, hcommand⟩ := h.entry hrow.row rfl rfl
      have hcommand : command = e.command := Command.canonicalBytes_injective hcommand
      rw [← hrequest, hcommand, ← hreceipt]
      exact .remember he
  | error error =>
      have hrefused : (Reply.commit (.error error)).answer? = some .refused := by
        cases error with
        | ambiguous id => exact absurd rfl (herror id)
        | _ => rfl
      exact .decline (.inr hrefused)

omit [Sha256] in
/-- A lookup finds a receipt that is on record. -/
theorem Database.Records.step_of_lookup {db : Database} (h : db.Records entries)
    {requestId : RequestId} {found : Option CommitReceipt}
    (hfound : ∀ receipt, found = some receipt → receipt.requestId = requestId ∧
      ∃ row, db.receipts[requestId.bytes.toList]? = some row ∧
        row.revisionHash = receipt.revisionHash.bytes.toList ∧ row.sequence = receipt.sequence) :
    Ledger.Step entries (.lookup requestId found) entries := by
  refine .lookup fun granted hgranted => ?_
  obtain ⟨rfl, row, hrow, hhash, hsequence⟩ := hfound granted hgranted
  obtain ⟨e, he, hrequest, hreceipt, -⟩ := h.entry hrow hhash hsequence
  exact ⟨e, he, hrequest, hreceipt⟩

/-- **One message** is a step of the ledger. -/
theorem State.Serves.records {work : Work} {reply : Option Reply} (h : s.Serves work reply s')
    (ht : s.Tracks commands) (hr : s.connection.Records entries) :
    ∃ entries', Runs Ledger.Step entries
        (exchange? work reply (s'.connection.revisions ≠ s.connection.revisions)).toList entries' ∧
      s'.connection.Records entries' := by
  cases work with
  | commit requestId command fault =>
      obtain ⟨result, s₁, hcommits, hmaintains, hreply⟩ := h
      simp only [exchange?, Option.toList_some, hmaintains.revisions]
      cases hcommits with
      | kept hok herror =>
          have hr' : s'.connection.Records entries :=
            hr.of_eq hmaintains.revisions hmaintains.receipts
          refine ⟨entries, .snoc .nil ?_, hr'⟩
          rw [decide_eq_false (by simp)]
          cases reply with
          | none => exact .decline (.inl rfl)
          | some answer =>
              obtain ⟨r, rfl, rfl⟩ := hreply answer rfl
              refine hr.step_of_kept (fun receipt hr => hok receipt (by rw [hr]; rfl)) ?_
              rintro id rfl
              exact herror (.error (.ambiguous id)) rfl id rfl
      | appended happends hresult =>
          have hr' := (happends.records ht hr).of_eq hmaintains.revisions hmaintains.receipts
          refine ⟨_, .snoc .nil ?_, hr'⟩
          rw [decide_eq_true happends.revisions_ne]
          refine happends.step hr ?_
          cases reply with
          | none => exact .inl rfl
          | some answer =>
              obtain ⟨r, hr, rfl⟩ := hreply answer rfl
              obtain hresult | hresult := hresult
              · obtain rfl : r = .ok (s.receipt requestId command) := by
                  cases r <;> simp_all [Except.mapError]
                exact .inr (.inl rfl)
              · obtain rfl : r = .error (.ambiguous requestId) := by
                  cases r <;> simp_all [Except.mapError]
                exact .inr (.inr rfl)
  | receipt requestId =>
      obtain ⟨rfl, hreply⟩ := h
      refine ⟨entries, .snoc .nil (hr.step_of_lookup fun granted hgranted => ?_), hr⟩
      cases reply with
      | none => cases hgranted
      | some answer =>
          obtain ⟨r, rfl, hrow⟩ := hreply answer rfl
          cases r with
          | error error => cases hgranted
          | ok found => exact hrow granted (congrArg Except.ok hgranted)
  | snapshot | checkpoint | compact | archive | shutdown =>
      exact ⟨entries, .nil, hr.of_eq h.1.revisions h.1.receipts⟩

/-! ## the system refines the ledger -/

/-- What is left of the rows after a message. -/
theorem rows_of_message {world : World} {work : Work} {env : Env} {node : Node}
    (h : (Node.running world).Step (.message work env) node) :
    node.rows = (handle work env { world with reply := none }).2.state.connection := by
  simp only [Node.Step, Node.step] at h
  split at h
  · next heq => cases h; rw [heq]; rfl
  · next heq => cases h; rw [heq]; rfl

theorem rows_of_reopen {rows : Database} {files : Files} {path : Path} {env : Env} {node : Node}
    (h : (Node.down rows files).Step (.reopen path env) node) : node.rows = rows := by
  simp only [Node.Step, Node.step] at h
  split at h
  · next hopen => cases h; exact (openState_eq_ok hopen).1
  · cases h; rfl

omit [Sha256] in
theorem records_empty : Database.empty.Records [] :=
  ⟨by simp, rfl, by simp, by simp [Database.empty], rfl⟩

theorem holds_empty : Database.empty.Holds [] :=
  ⟨.nil, ⟨Project.default, rfl⟩, by rintro _ ⟨⟩, rfl,
    by simp [Database.ReceiptsAgree, Database.empty],
    rfl⟩

/-- What ties the system to the ledger. -/
def System.Refines (sys : System) (entries : List (Entry RequestId Command CommitReceipt)) : Prop :=
  sys.node.rows.Records entries ∧ ∃ commands, sys.node.Tracks commands

/-- **One step** of the system is at most one of the ledger. -/
theorem System.Refines.step {sys sys' : System} {label : Label} (h : sys.Refines entries)
    (hstep : sys.Step label sys') :
    ∃ entries', Runs Ledger.Step entries label.exchange?.toList entries' ∧
      sys'.Refines entries' := by
  obtain ⟨hrecords, commands, ht⟩ := h
  cases hstep with
  | submit => exact ⟨entries, .nil, hrecords, commands, ht⟩
  | @serve world queue client work env node hstep =>
      obtain ⟨entries', hledger, hrecords'⟩ := (serves_handle world work env).records ht hrecords
      obtain ⟨added, -, ht'⟩ := ht.step hstep
      rw [← rows_of_message hstep] at hledger hrecords'
      exact ⟨entries', hledger, hrecords', _, ht'⟩
  | crash hstep =>
      obtain ⟨added, -, ht'⟩ := ht.step hstep
      cases hstep
      exact ⟨entries, .nil, hrecords, _, ht'⟩
  | @reopen rows files path env node hstep =>
      obtain ⟨added, -, ht'⟩ := ht.step hstep
      have hrecords' : node.rows.Records entries := by
        rw [rows_of_reopen hstep]
        exact hrecords
      exact ⟨entries, .nil, hrecords', _, ht'⟩

/-- **Refinement**: whatever clients see is a run of the ledger that the
rows record. -/
theorem records_of_runs {files : Files} {labels : List Label} {sys : System}
    (hrun : Runs System.Step (System.initial files) labels sys) :
    ∃ entries, Runs Ledger.Step [] (labels.filterMap Label.exchange?) entries ∧
      sys.node.rows.Records entries := by
  have hinitial : (System.initial files).Refines [] := ⟨records_empty, [], holds_empty⟩
  obtain ⟨entries, hledger, hrecords, -⟩ :=
    hrun.simulateVisible Label.exchange? hinitial System.Refines.step
  exact ⟨entries, hledger, hrecords⟩

/-! ## exactly once -/

/-- The request whose message changed the log. -/
def Label.contributor? : Label → Option RequestId
  | .serve _ (.commit requestId _ _) _ _ true => some requestId
  | _ => none

/-- The receipt that the reply to a commit or a lookup carries. -/
def Label.receipt? : Label → Option CommitReceipt
  | .serve _ (.commit _ _ _) _ (some (.commit (.ok granted))) _ => some granted
  | .serve _ (.receipt _) _ (some (.receipt (.ok (some granted)))) _ => some granted
  | _ => none

/-- The step commits the command, or its reply says that it is, or may be,
committed. -/
def Label.Settles (label : Label) (requestId : RequestId) (command : Command) : Prop :=
  ∃ client fault env reply changed,
    label = .serve client (.commit requestId command fault) env reply changed ∧
      (changed = true ∨ (∃ granted, reply = some (.commit (.ok granted))) ∨
        ∃ id, reply = some (.commit (.error (.ambiguous id))))

/-- The log holds the command where the receipt says. -/
structure Database.Logs (db : Database) (command : Command) (receipt : CommitReceipt) : Prop where
  acknowledges : db.Acknowledges command receipt
  revision : ∃ row, db.revisions[receipt.sequence]? = some row ∧
    row.revisionHash = receipt.revisionHash.bytes.toList ∧ row.command = command.canonicalBytes

/-- Commits take effect exactly once. -/
structure ExactlyOnce (labels : List Label) (rows : Database) : Prop where
  contributes_once : (labels.filterMap Label.contributor?).Nodup ∧
    rows.revisions.size = (labels.filterMap Label.contributor?).length
  receipts_agree : ∀ label ∈ labels, ∀ label' ∈ labels, ∀ {granted granted' : CommitReceipt},
    label.receipt? = some granted → label'.receipt? = some granted' →
      granted.requestId = granted'.requestId → granted = granted'
  committed_iff : ∀ requestId : RequestId, requestId.bytes.toList ∈ rows.receipts ↔
    requestId ∈ labels.filterMap Label.contributor?
  sequences : (rows.receipts.toList.map fun entry => entry.2.sequence).Perm
    ((List.range rows.revisions.size).map fun i => (i : Int) + 1)
  acknowledged : ∀ {client : Nat} {requestId : RequestId} {command : Command}
    {fault : Option FaultPoint} {env : Env} {result : Except StoreError CommitReceipt}
    {changed : Bool}, .serve client (.commit requestId command fault) env
      (some (.commit result)) changed ∈ labels →
    (∀ granted, result = .ok granted → granted.requestId = requestId ∧ rows.Logs command granted) ∧
    ∀ id, result = .error (.ambiguous id) →
      ∃ granted, granted.requestId = requestId ∧ rows.Logs command granted
  conflicts_refused : labels.Pairwise fun label label' => ∀ {requestId : RequestId}
    {command command' : Command} {client : Nat} {fault : Option FaultPoint} {env : Env}
    {reply : Option Reply} {changed : Bool}, label.Settles requestId command →
      label' = .serve client (.commit requestId command' fault) env reply changed →
        command' ≠ command → changed = false ∧ ∀ granted, reply ≠ some (.commit (.ok granted))

omit [Sha256] in
/-- Every entry is logged where its receipt says. -/
theorem Database.Records.logs {db : Database} (h : db.Records entries)
    {e : Entry RequestId Command CommitReceipt} (he : e ∈ entries) :
    e.receipt.requestId = e.request ∧ db.Logs e.command e.receipt := by
  refine ⟨h.named e he, ⟨?_⟩, h.revision e he⟩
  rw [h.named e he, h.receipts.mpr ⟨e, he, rfl, rfl⟩]
  rfl

omit [Sha256] in
/-- The receipt rows are the entries. -/
theorem Database.Records.perm_receipts {db : Database} (h : db.Records entries)
    (hnodup : (entries.map Entry.request).Nodup) :
    db.receipts.toList.Perm (entries.map fun e => (e.request.bytes.toList, entryRow e)) := by
  have hkeys : (entries.map fun e => (e.request.bytes.toList, entryRow e)).Nodup := by
    refine List.Nodup.of_map Prod.fst ?_
    rw [List.map_map]
    have hinj : (fun id : RequestId => id.bytes.toList).Injective := fun _ _ h => Id.toList_inj.mp h
    simpa [Function.comp_def] using hnodup.map hinj
  refine (List.perm_ext_iff_of_nodup (Table.nodup_toList _) hkeys).mpr ?_
  rintro ⟨id, row⟩
  rw [Table.mem_toList_iff, h.receipts, List.mem_map]
  constructor
  · rintro ⟨e, he, rfl, rfl⟩
    exact ⟨e, he, rfl⟩
  · rintro ⟨e, he, heq⟩
    cases heq
    exact ⟨e, he, rfl, rfl⟩

omit [Sha256] in
theorem contributor?_eq (label : Label) :
    label.contributor? = label.exchange?.bind Exchange.contributor? := by
  cases label with
  | serve client work env reply changed =>
      cases work with
      | commit => cases changed <;> rfl
      | receipt | snapshot | checkpoint | compact | archive | shutdown => rfl
  | submit | crash | reopen => rfl

omit [Sha256] in
theorem exchange?_of_receipt? {label : Label} {granted : CommitReceipt}
    (h : label.receipt? = some granted) :
    ∃ x requestId, label.exchange? = some x ∧ x.receipt? = some (requestId, granted) := by
  unfold Label.receipt? at h
  split at h
  · cases h
    exact ⟨_, _, rfl, rfl⟩
  · cases h
    exact ⟨_, _, rfl, rfl⟩
  · cases h

omit [Sha256] in
theorem exchange?_of_settles {label : Label} {requestId : RequestId} {command : Command}
    (h : label.Settles requestId command) :
    ∃ x, label.exchange? = some x ∧ x.Settles requestId command := by
  obtain ⟨client, fault, env, reply, changed, rfl, hcase⟩ := h
  refine ⟨_, rfl, ?_⟩
  obtain rfl | ⟨granted, rfl⟩ | ⟨id, rfl⟩ := hcase
  · exact .appended
  · exact .accepted
  · exact .ambiguous

section Settled

variable {labels : List Label} {rows : Database}
  (hs : Settled (labels.filterMap Label.exchange?) entries) (hr : rows.Records entries)

omit [Sha256]
include hs

theorem contributors_eq : labels.filterMap Label.contributor? = entries.map Entry.request := by
  rw [← hs.contributors, List.filterMap_filterMap]
  exact List.filterMap_congr fun label _ => contributor?_eq label

/-- A receipt that was handed out is that of an entry. -/
theorem exists_entry_of_receipt? {label : Label} (hlabel : label ∈ labels)
    {granted : CommitReceipt} (hgranted : label.receipt? = some granted) :
    ∃ e ∈ entries, e.receipt = granted := by
  obtain ⟨x, requestId, hx, hgranted⟩ := exchange?_of_receipt? hgranted
  obtain ⟨e, he, -, hreceipt⟩ := hs.receipt x (List.mem_filterMap.mpr ⟨label, hlabel, hx⟩) hgranted
  exact ⟨e, he, hreceipt⟩

/-- A command that was settled is that of an entry. -/
theorem exists_entry_of_settles {label : Label} (hlabel : label ∈ labels) {requestId : RequestId}
    {command : Command} (hsettles : label.Settles requestId command) :
    ∃ e ∈ entries, e.request = requestId ∧ e.command = command := by
  obtain ⟨x, hx, hsettles⟩ := exchange?_of_settles hsettles
  exact hs.settles x (List.mem_filterMap.mpr ⟨label, hlabel, hx⟩) hsettles

include hr

theorem receipts_agree_of_settled {label label' : Label} (hlabel : label ∈ labels)
    (hlabel' : label' ∈ labels) {granted granted' : CommitReceipt}
    (hgranted : label.receipt? = some granted) (hgranted' : label'.receipt? = some granted')
    (hid : granted.requestId = granted'.requestId) : granted = granted' := by
  obtain ⟨e, he, rfl⟩ := exists_entry_of_receipt? hs hlabel hgranted
  obtain ⟨e', he', rfl⟩ := exists_entry_of_receipt? hs hlabel' hgranted'
  rw [hr.named e he, hr.named e' he'] at hid
  rw [List.inj_on_of_nodup_map hs.nodup he he' hid]

theorem committed_iff_of_settled (requestId : RequestId) :
    requestId.bytes.toList ∈ rows.receipts ↔
      requestId ∈ labels.filterMap Label.contributor? := by
  rw [contributors_eq hs, List.mem_map, Table.mem_iff_exists]
  constructor
  · rintro ⟨row, hrow⟩
    obtain ⟨e, he, hid, -⟩ := hr.receipts.mp hrow
    exact ⟨e, he, (Id.toList_inj.mp hid).symm⟩
  · rintro ⟨e, he, rfl⟩
    exact ⟨entryRow e, hr.receipts.mpr ⟨e, he, rfl, rfl⟩⟩

theorem sequences_of_settled :
    (rows.receipts.toList.map fun entry => entry.2.sequence).Perm
      ((List.range rows.revisions.size).map fun i => (i : Int) + 1) := by
  have hperm := (hr.perm_receipts hs.nodup).map fun entry => entry.2.sequence
  have hsequence : (fun entry : List UInt8 × ReceiptRow => entry.2.sequence) ∘
      (fun e : Entry RequestId Command CommitReceipt => (e.request.bytes.toList, entryRow e)) =
        fun e => e.receipt.sequence := rfl
  rwa [List.map_map, hsequence, hr.numbered, ← hr.size] at hperm

end Settled

/-- **Commits take effect exactly once**, for every interleaving of clients,
faults, failing calls, crashes and reopenings. -/
theorem commits_exactly_once {files : Files} {labels : List Label} {sys : System}
    (hrun : Runs System.Step (System.initial files) labels sys) :
    ExactlyOnce labels sys.node.rows := by
  obtain ⟨entries, hledger, hr⟩ := records_of_runs hrun
  have hs := settled_of_runs hledger
  have hcontributors := contributors_eq hs
  refine ⟨⟨by rw [hcontributors]; exact hs.nodup, by rw [hcontributors, List.length_map, hr.size]⟩,
    fun label hlabel label' hlabel' => receipts_agree_of_settled hs hr hlabel hlabel',
    committed_iff_of_settled hs hr, sequences_of_settled hs hr, ?_, ?_⟩
  · intro client requestId command fault env result changed hlabel
    constructor
    · rintro granted rfl
      have he := hs.accepted (List.mem_filterMap.mpr ⟨_, hlabel, rfl⟩)
      exact hr.logs he
    · rintro id rfl
      obtain ⟨e, he, rfl, rfl⟩ := exists_entry_of_settles hs hlabel
        ⟨client, fault, env, _, changed, rfl, .inr (.inr ⟨id, rfl⟩)⟩
      exact ⟨e.receipt, hr.logs he⟩
  · refine (List.pairwise_filterMap.mp hs.conflict).imp ?_
    rintro label label' hconflict requestId command command' client fault env reply changed
      hsettles rfl hne
    obtain ⟨x, hx, hsettles⟩ := exchange?_of_settles hsettles
    obtain ⟨hunchanged, hanswer⟩ := hconflict x hx _ rfl hsettles rfl hne
    refine ⟨hunchanged, ?_⟩
    rintro granted rfl
    exact hanswer granted rfl

end ExactlyOnce

section FirstTrack

/-- The worker of an empty store that was opened. -/
def emptyWorld : World :=
  ⟨⟨.empty, Project.default, none, 0, ⟨true, ["store"]⟩, none⟩, ⟨fun _ => none, 0⟩, none⟩

/-- A request to add the first track. -/
def firstTrackWork : Work := .commit ⟨Vector.replicate 16 1⟩ addFirstTrack none

/-! ## replaying a schedule -/

/-- What is done to the system; the worker takes the next request. -/
inductive Move where
  | submit (client : Nat) (work : Work)
  | serve (env : Env)
  | crash
  | reopen (path : Path) (env : Env)

section Replaying

variable [Sha256]

/-- The step that a move makes, if it can be made. -/
def System.move (system : System) (move : Move) : Option (Label × System) :=
  match system, move with
  | ⟨.running world, queue⟩, .submit client work =>
      if queue.length < channelCapacity then
        some (.submit client work, ⟨.running world, queue ++ [(client, work)]⟩)
      else none
  | ⟨.running world, (client, work) :: queue⟩, .serve env =>
      ((Node.running world).step (.message work env)).map fun node =>
        (.serve client work env (handle work env { world with reply := none }).2.reply
          (node.rows.revisions ≠ world.state.connection.revisions), ⟨node, node.keep queue⟩)
  | ⟨.running world, _⟩, .crash =>
      ((Node.running world).step .crash).map fun node => (.crash, ⟨node, []⟩)
  | ⟨.down rows files, []⟩, .reopen path env =>
      ((Node.down rows files).step (.reopen path env)).map fun node =>
        (.reopen path env, ⟨node, []⟩)
  | _, _ => none

theorem System.step_of_move {system system' : System} {move : Move} {label : Label}
    (h : system.move move = some (label, system')) : System.Step system label system' := by
  unfold System.move at h
  split at h
  · next world queue client work =>
    split at h
    · next hroom =>
      cases h
      exact .submit hroom
    · cases h
  · obtain ⟨node, hnode, heq⟩ := Option.map_eq_some_iff.mp h
    cases heq
    exact .serve hnode
  · obtain ⟨node, hnode, heq⟩ := Option.map_eq_some_iff.mp h
    cases heq
    exact .crash hnode
  · obtain ⟨node, hnode, heq⟩ := Option.map_eq_some_iff.mp h
    cases heq
    exact .reopen hnode
  · cases h

end Replaying

/-- A request to add the second track. -/
def secondTrackWork : Work := .commit ⟨Vector.replicate 16 2⟩ addSecondTrack none

/-- The first request loses its reply and is sent again, and the second one is
sent again after a crash. -/
def retriedMoves : List Move :=
  [.reopen ⟨true, ["store"]⟩ .faultless,
    .submit 0 (.commit ⟨Vector.replicate 16 1⟩ addFirstTrack (some .afterCommitBeforeResponse)),
    .submit 1 secondTrackWork, .serve .faultless, .submit 0 firstTrackWork, .serve .faultless,
    .serve .faultless, .crash, .reopen ⟨true, ["store"]⟩ .faultless, .submit 1 secondTrackWork,
    .serve .faultless]

theorem any_retriedMoves :
    letI := secondTrackSha256
    (retriedMoves.foldlM (Runs.replay System.move) (System.initial emptyWorld.files, [])).any
      fun replayed =>
      replayed.2.length = 11 ∧
      replayed.2.filterMap Label.contributor? =
        [⟨Vector.replicate 16 1⟩, ⟨Vector.replicate 16 2⟩] ∧
      replayed.2.filterMap Label.receipt? =
        [⟨⟨Vector.replicate 16 2⟩, secondTrackHash, 2⟩,
         ⟨⟨Vector.replicate 16 1⟩, firstTrackHash, 1⟩,
          ⟨⟨Vector.replicate 16 2⟩, secondTrackHash, 2⟩] := by
  decide +kernel

theorem commits_exactly_once_retriedMoves :
    letI := secondTrackSha256
    ∃ labels sys, Runs System.Step (System.initial emptyWorld.files) labels sys ∧
      ExactlyOnce labels sys.node.rows ∧ labels.length = 11 ∧
      labels.filterMap Label.contributor? =
        [⟨Vector.replicate 16 1⟩, ⟨Vector.replicate 16 2⟩] ∧
      labels.filterMap Label.receipt? =
        [⟨⟨Vector.replicate 16 2⟩, secondTrackHash, 2⟩,
         ⟨⟨Vector.replicate 16 1⟩, firstTrackHash, 1⟩,
          ⟨⟨Vector.replicate 16 2⟩, secondTrackHash, 2⟩] := by
  let _ := secondTrackSha256
  obtain ⟨⟨sys, labels⟩, hreplay, hfacts⟩ := (Option.any_eq_true _ _).mp any_retriedMoves
  have hrun : Runs System.Step (System.initial emptyWorld.files) labels sys :=
    Runs.of_replay hreplay fun _ _ _ _ => System.step_of_move
  exact ⟨labels, sys, hrun, commits_exactly_once hrun, of_decide_eq_true hfacts⟩

end FirstTrack

end StitchEditor
