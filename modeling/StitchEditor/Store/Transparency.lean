import Mathlib
import StitchEditor.Lib.Coupling
import StitchEditor.Store.Compaction
import StitchEditor.Store.Failure

/-!
# StitchEditor.Store.Transparency

Maintenance is transparent: two workers that differ in snapshots only answer
requests alike.

The two are run side by side.  A commit and a lookup go in step
(`lockstep_commit`), whatever the environment does; the snapshot behind a
commit may run on one side only, but it comes after the reply and keeps the
log (`couples_handle`).
-/

namespace StitchEditor

open Chain Fallible Procedure Run Std

/-- The same revisions, receipts and head, with any snapshots. -/
structure Database.SameLog (db db' : Database) : Prop where
  revisions : db'.revisions = db.revisions
  receipts : db'.receipts = db.receipts
  heads : db'.heads = db.heads

section Transparency

variable [Sha256]

/-- The same log, and the same of it in memory. -/
structure State.Agrees (s s' : State) : Prop where
  log : s.connection.SameLog s'.connection
  project : s'.project = s.project
  head : s'.head = s.head
  sequence : s'.sequence = s.sequence

/-! ## statements -/

section Statements

variable {db db' : Database} (h : db.SameLog db')

omit [Sha256]
include h

theorem Database.SameLog.references_iff {n : Int} {hash : List UInt8} :
    db'.References n hash ↔ db.References n hash := by
  rw [Tables.References, Tables.References, h.revisions]

theorem corresponds_insertRevision (n : Int) (row : RevisionRow) :
    Corresponds Database.SameLog (constrained (db.insertRevision n row))
      (constrained (db'.insertRevision n row)) := by
  unfold Database.insertRevision
  by_cases hcheck : n ∉ db.revisions ∧ row.Valid n
  · have hcheck' : n ∉ db'.revisions ∧ row.Valid n := by rwa [h.revisions]
    rw [dif_pos hcheck, dif_pos hcheck']
    exact .ok ⟨by simp [h.revisions], h.receipts, h.heads⟩
  · have hcheck' : ¬ (n ∉ db'.revisions ∧ row.Valid n) := by rwa [h.revisions]
    rw [dif_neg hcheck, dif_neg hcheck']
    exact .error _

theorem corresponds_insertReceipt (id : List UInt8) (row : ReceiptRow) :
    Corresponds Database.SameLog (constrained (db.insertReceipt id row))
      (constrained (db'.insertReceipt id row)) := by
  unfold Database.insertReceipt
  by_cases hcheck : id ∉ db.receipts ∧ row.Valid id ∧ db.References row.sequence row.revisionHash
  · have hcheck' : id ∉ db'.receipts ∧ row.Valid id ∧
        db'.References row.sequence row.revisionHash := by
      rwa [h.receipts, h.references_iff]
    rw [dif_pos hcheck, dif_pos hcheck']
    exact .ok ⟨h.revisions, by simp [h.receipts], h.heads⟩
  · have hcheck' : ¬ (id ∉ db'.receipts ∧ row.Valid id ∧
        db'.References row.sequence row.revisionHash) := by
      rwa [h.receipts, h.references_iff]
    rw [dif_neg hcheck, dif_neg hcheck']
    exact .error _

theorem corresponds_upsertHead (row : HeadRow) :
    Corresponds Database.SameLog (constrained (db.upsertHead row))
      (constrained (db'.upsertHead row)) := by
  unfold Database.upsertHead
  by_cases hcheck : row.Valid ∧ db.References row.sequence row.revisionHash
  · have hcheck' : row.Valid ∧ db'.References row.sequence row.revisionHash := by
      rwa [h.references_iff]
    rw [dif_pos hcheck, dif_pos hcheck']
    exact .ok ⟨h.revisions, h.receipts, rfl⟩
  · have hcheck' : ¬ (row.Valid ∧ db'.References row.sequence row.revisionHash) := by
      rwa [h.references_iff]
    rw [dif_neg hcheck, dif_neg hcheck']
    exact .error _

theorem receipt_congr (requestId : RequestId) (env : Env) :
    receipt db' requestId env = receipt db requestId env := by
  rw [receipt, receipt, h.receipts]

theorem retry_congr (requestId : RequestId) (command : Command) (found : CommitReceipt)
    (env : Env) :
    retry db' requestId command found env = retry db requestId command found env := by
  rw [retry, retry, h.receipts]

end Statements

/-! ## requests -/

variable {s s' : State}

omit [Sha256] in
theorem corresponds_transact (h : s.Agrees s') (found : CommitReceipt) (command : Command)
    (fault : Option FaultPoint) (env : Env) :
    Corresponds Database.SameLog (transact s found command fault env)
      (transact s' found command fault env) := by
  unfold transact
  rw [h.head]
  refine (Corresponds.refl _).bind fun _ _ _ => (Corresponds.refl _).bind fun _ _ _ =>
    (corresponds_insertRevision h.log _ _).bind fun _ _ h₁ => (Corresponds.refl _).bind fun _ _ _ =>
      (corresponds_insertReceipt h₁ _ _).bind fun _ _ h₂ => (Corresponds.refl _).bind fun _ _ _ =>
        (corresponds_upsertHead h₂ _).bind fun _ _ h₃ => (Corresponds.refl _).bind fun _ _ _ =>
          (Corresponds.refl _).bind fun _ _ _ => .ok h₃

/-- **Commits go in step**, also where they fail or the process dies. -/
theorem lockstep_commit (h : s.Agrees s') (requestId : RequestId) (command : Command)
    (fault : Option FaultPoint) (env : Env) :
    Lockstep (commit requestId command fault env) s (commit requestId command fault env) s' Eq
      State.Agrees := by
  refine Couples.get_bind ?_
  rw [receipt_congr h.log, h.project, h.head, h.sequence]
  have hstop : ∀ e, Corresponds (Eq (α := CommitReceipt)) (.error e : Except Stop CommitReceipt)
      (.error e) ∧ s.Agrees s' := fun e => ⟨.error e, h⟩
  refine Couples.lift_bind (.refl _) hstop ?_
  rintro found _ rfl
  cases found with
  | some found =>
      dsimp only
      rw [retry_congr h.log]
      exact Lockstep.lift (.refl _) h
  | none =>
      refine Couples.lift_bind (.refl _) hstop ?_
      rintro next _ rfl
      refine Couples.lift_bind (.refl _) hstop ?_
      rintro sequence _ rfl
      refine Couples.lift_bind (corresponds_transact h _ _ _ _) hstop fun rows rows' hrows =>
        Couples.set_bind (Couples.lift_bind (.refl _) ?_ ?_)
      · exact fun e => ⟨.error e, hrows, rfl, rfl, rfl⟩
      · exact fun _ _ _ => Couples.pure ⟨.ok rfl, hrows, rfl, rfl, rfl⟩

/-! ## messages -/

/-- Workers that agree, with the same reply. -/
structure World.Agrees (w w' : World) : Prop where
  state : w.state.Agrees w'.state
  reply : w'.reply = w.reply

variable {w w' : World} {env : Env}

theorem State.Agrees.maintains {t t' : State} (h : s.Agrees s') (hs : s.Maintains t)
    (hs' : s'.Maintains t') : t.Agrees t' where
  log := ⟨by rw [hs'.revisions, h.log.revisions, hs.revisions],
    by rw [hs'.receipts, h.log.receipts, hs.receipts], by rw [hs'.heads, h.log.heads, hs.heads]⟩
  project := by rw [hs'.project, h.project, hs.project]
  head := by rw [hs'.head, h.head, hs.head]
  sequence := by rw [hs'.sequence, h.sequence, hs.sequence]

omit [Sha256] in
theorem lockstep_call {σ τ α : Type} {x : Proc Stop σ α} {y : Proc Stop τ α} {s : σ} {t : τ}
    {I : σ → τ → Prop} (h : Lockstep x s y t Eq I) :
    Lockstep (StitchEditor.call x) s (StitchEditor.call y) t Eq I := by
  obtain ⟨hresult, hI⟩ := h
  refine ⟨Corresponds.eq_iff.mpr ?_, hI⟩
  rw [StitchEditor.call, StitchEditor.call, Corresponds.eq_iff.mp hresult]

omit [Sha256] in
theorem lockstep_send (h : w.Agrees w') (reply : Reply) :
    Lockstep (send reply env) w (send reply env) w' Eq World.Agrees := by
  unfold send Lockstep Couples
  cases env.verdict .respond with
  | completes => exact ⟨.ok rfl, h.state, rfl⟩
  | fails => exact ⟨.ok rfl, h⟩
  | crashes => exact ⟨.error _, h⟩

/-- A request: a commit or a lookup. -/
def Work.Request : Work → Prop
  | .commit _ _ _ | .receipt _ => True
  | _ => False

/-- **Requests go in step**, and leave workers that agree. -/
theorem couples_handle (h : w.Agrees w') (hunfailed : w.state.maintenanceFailure = none)
    (hunfailed' : w'.state.maintenanceFailure = none) {work : Work} (hwork : work.Request) :
    Couples (handle work env) w (handle work env) w' fun _ v _ v' => v.Agrees v' := by
  cases work with
  | commit requestId command fault =>
      refine Couples.get_bind ?_
      rw [hunfailed, hunfailed']
      have hcommit : Lockstep (onState (commit requestId command fault env)) w
          (onState (commit requestId command fault env)) w' Eq World.Agrees :=
        .zoom ((lockstep_commit h.state requestId command fault env).mono fun _ _ h' =>
          ⟨h', h.reply⟩)
      refine (lockstep_call hcommit).bind (fun _ _ _ h => h) ?_
      rintro result _ w₁ w₁' rfl h₁
      refine Couples.get_bind ((lockstep_send h₁ _).bind (fun _ _ _ h => h) ?_)
      rintro _ _ w₂ w₂' - h₂
      -- the snapshots come after the reply
      refine Couples.of_ensures (ensures_automaticSnapshot _ w₂) (ensures_automaticSnapshot _ w₂')
        ?_
      rintro _ w₃ _ w₃' ⟨hmaintains, hreply⟩ ⟨hmaintains', hreply'⟩
      exact ⟨h₂.state.maintains hmaintains hmaintains', by rw [hreply', h₂.reply, hreply]⟩
  | receipt requestId =>
      refine Couples.get_bind ?_
      rw [receipt_congr h.state.log]
      have hreceipt :
          Lockstep (liftM (receipt w.state.connection requestId env) : Proc Stop World _) w
          (liftM (receipt w.state.connection requestId env) : Proc Stop World _) w'
          Eq World.Agrees :=
        .lift (.refl _) h
      refine (lockstep_call hreceipt).bind (fun _ _ _ h => h) ?_
      rintro result _ w₁ w₁' rfl h₁
      exact (lockstep_send h₁ _).bind (fun _ _ _ h => h) fun _ _ _ _ _ h => Couples.pure h
  | snapshot | checkpoint | compact | archive | shutdown => cases hwork

/-! ## runs -/

/-- A message that is served, and the reply to it. -/
structure Turn where
  work : Work
  env : Env
  reply : Option Reply

/-- The worker serves the message and goes on. -/
def World.Step (world : World) (turn : Turn) (world' : World) : Prop :=
  handle turn.work turn.env { world with reply := none } = (.ok true, world') ∧
    turn.reply = world'.reply

/-- The message of a turn, and how it is served. -/
def Turn.message (turn : Turn) : Work × Env := (turn.work, turn.env)

/-- A worker that has no failure never had one. -/
theorem World.Step.unfailed {v : World} {turn : Turn} (hstep : w.Step turn v)
    (hunfailed : v.state.maintenanceFailure = none) : w.state.maintenanceFailure = none := by
  cases hfailed : w.state.maintenanceFailure with
  | none => rfl
  | some error =>
      have hkept := handle_failed hfailed turn.work turn.env
      rw [hstep.1] at hkept
      rw [hkept, hfailed] at hunfailed
      cases hunfailed

/-- A request is answered alike. -/
theorem agrees_handle (env : Env) (h : w.state.Agrees w'.state)
    (hunfailed : w.state.maintenanceFailure = none)
    (hunfailed' : w'.state.maintenanceFailure = none) {work : Work} (hwork : work.Request) :
    World.Agrees (handle work env { w with reply := none }).2
      (handle work env { w' with reply := none }).2 := by
  have hreset : World.Agrees { w with reply := none } { w' with reply := none } := ⟨h, rfl⟩
  exact couples_handle hreset hunfailed hunfailed' hwork

/-- **Requests from workers that agree** get the same replies, as long as no
failure is remembered. -/
theorem agrees_of_runs {v v' : World} {turns turns' : List Turn} (h : w.state.Agrees w'.state)
    (hrun : Runs World.Step w turns v) (hrun' : Runs World.Step w' turns' v')
    (hrequests : ∀ turn ∈ turns, turn.work.Request)
    (hsame : turns'.map Turn.message = turns.map Turn.message)
    (hunfailed : v.state.maintenanceFailure = none)
    (hunfailed' : v'.state.maintenanceFailure = none) :
    turns' = turns ∧ v.state.Agrees v'.state := by
  induction hrun generalizing turns' v' with
  | nil =>
      obtain rfl : turns' = [] := by simpa using hsame
      rw [Runs.nil_iff] at hrun'
      exact ⟨rfl, hrun' ▸ h⟩
  | @snoc turns u v turn hrun hstep ih =>
      obtain ⟨front, last, rfl, hfront, hlast⟩ : ∃ front last, turns' = front ++ [last] ∧
          front.map Turn.message = turns.map Turn.message ∧ last.message = turn.message := by
        rw [List.map_append, List.map_singleton, List.map_eq_append_iff] at hsame
        obtain ⟨front, rest, rfl, hfront, hrest⟩ := hsame
        obtain ⟨last, rfl, hlast⟩ := List.map_eq_singleton_iff.mp hrest
        exact ⟨front, last, rfl, hfront, hlast⟩
      obtain ⟨u', hrun', hstep'⟩ := Runs.snoc_iff.mp hrun'
      have hu := hstep.unfailed hunfailed
      have hu' := hstep'.unfailed hunfailed'
      obtain ⟨rfl, hagrees⟩ := ih hrun' (fun t ht => hrequests t (by simp [ht])) hfront hu hu'
      obtain ⟨work, env, reply⟩ := turn
      obtain ⟨work', env', reply'⟩ := last
      cases hlast
      obtain ⟨hhandle, rfl⟩ := hstep
      obtain ⟨hhandle', rfl⟩ := hstep'
      have hnext := agrees_handle env hagrees hu hu' (hrequests ⟨work, env, v.reply⟩ (by simp))
      dsimp only at hhandle hhandle'
      rw [hhandle, hhandle'] at hnext
      exact ⟨by rw [hnext.reply], hnext.state⟩

/-! ## maintenance -/

/-- A maintenance message. -/
def Event.Maintenance : Event → Prop
  | .message (.snapshot _) _ | .message (.checkpoint _) _ | .message (.compact _) _
  | .message (.archive _ _) _ => True
  | _ => False

/-- Whatever is asked of the two workers, as long as neither has a failure:
the replies are the same and so is the log, also of the request after
that. -/
def World.Indistinguishable (world world' : World) : Prop :=
  ∀ ⦃turns turns' : List Turn⦄ ⦃v v' : World⦄, (∀ turn ∈ turns, turn.work.Request) →
    turns'.map Turn.message = turns.map Turn.message →
    Runs World.Step world turns v → Runs World.Step world' turns' v' →
    v.state.maintenanceFailure = none → v'.state.maintenanceFailure = none →
      turns' = turns ∧ v.state.connection.SameLog v'.state.connection ∧
      ∀ (work : Work) (env : Env), work.Request →
        let next := (handle work env { v with reply := none }).2
        let next' := (handle work env { v' with reply := none }).2
        next'.reply = next.reply ∧ next.state.connection.SameLog next'.state.connection

theorem State.Agrees.indistinguishable (h : w.state.Agrees w'.state) :
    w.Indistinguishable w' := by
  intro turns turns' v v' hrequests hsame hrun hrun' hunfailed hunfailed'
  obtain ⟨hturns, hagrees⟩ := agrees_of_runs h hrun hrun' hrequests hsame hunfailed hunfailed'
  refine ⟨hturns, hagrees.log, fun work env hwork => ?_⟩
  have hnext := agrees_handle env hagrees hunfailed hunfailed' hwork
  exact ⟨hnext.reply, hnext.state.log⟩

omit [Sha256] in
theorem State.Agrees.refl (s : State) : s.Agrees s := ⟨⟨rfl, rfl, rfl⟩, rfl, rfl, rfl⟩

theorem State.Serves.maintains {work : Work} {reply : Option Reply}
    (hwork : (Event.message work env).Maintenance) (h : s.Serves work reply s') :
    s.Maintains s' := by
  cases work with
  | commit | receipt | shutdown => cases hwork
  | snapshot | checkpoint | compact | archive => exact h.1

/-- The log that a node holds, and the memory of its worker, are those of the
worker. -/
def World.Kept (world : World) (node : Node) : Prop :=
  world.state.connection.SameLog node.rows ∧
    ∀ {world' : World}, node = .running world' → world.state.Agrees world'.state

theorem World.Kept.step {node node' : Node} {event : Event} (h : w.Kept node)
    (hevent : event.Maintenance) (hstep : node.Step event node') : w.Kept node' := by
  obtain ⟨hlog, hagrees⟩ := h
  cases event with
  | crash | reopen => cases hevent
  | message work env =>
      cases node with
      | down => cases hstep
      | running world =>
          have hmaintains := (serves_handle world work env).maintains hevent
          have hkept := (hagrees rfl).maintains (.refl _) hmaintains
          refine ⟨by rw [rows_of_message hstep]; exact hkept.log, ?_⟩
          rintro world' rfl
          have hhandle := Node.message_running_iff.mp hstep
          rwa [hhandle] at hkept

/-- **Maintenance is transparent.** -/
theorem maintenance_transparent {start node : Node} {events maintenance : List Event}
    {world : World} (hstart : start.Restores) (hrun : Runs Node.Step start events (.running world))
    (hmaintenance : ∀ event ∈ maintenance, event.Maintenance)
    (hmaintained : Runs Node.Step (.running world) maintenance node) :
    world.state.connection.SameLog node.rows ∧
    (∀ {world' : World}, node = .running world' →
      world.state.Agrees world'.state ∧ world.Indistinguishable world') ∧
    ∀ fault env, (compact fault env world.state).1 = .ok () → world.state.connection.log ≠ [] →
      ∃ head, world.state.head = some head ∧
        (compact fault env world.state).2.connection.snapshots.toList =
          [world.state.headSnapshot head] := by
  have hkept : world.Kept node := by
    induction hmaintained with
    | nil => exact ⟨⟨rfl, rfl, rfl⟩, by rintro _ ⟨⟩; exact .refl _⟩
    | snoc _ hstep ih =>
        exact (ih fun e he => hmaintenance e (by simp [he])).step
          (hmaintenance _ (by simp)) hstep
  refine ⟨hkept.1, fun hnode => ⟨hkept.2 hnode, (hkept.2 hnode).indistinguishable⟩, ?_⟩
  intro fault env hok hlog
  obtain ⟨commands, ht⟩ := Node.restores_iff.mp hstart
  obtain ⟨added, -, ht'⟩ := ht.run hrun
  generalize commands ++ added = commands' at ht'
  have ht' : world.state.Tracks commands' := ht'
  rw [ht'.holds.log_eq] at hlog
  cases hhead : world.state.head with
  | none =>
      rw [ht'.head, chain_eq_none_iff] at hhead
      exact absurd hhead hlog
  | some head => exact ⟨head, rfl, ht'.ensures_compact_ok hhead fault env hok⟩

end Transparency

section FirstTrack

/-- A store with one track, compacted. -/
def compactedWorld : World :=
  letI := oneClipSha256
  (handle (.compact none) .faultless { firstTrackWorld with reply := none }).2

theorem maintenance_transparent_compactedWorld :
    letI := oneClipSha256
    firstTrackWorld.Indistinguishable compactedWorld := by
  let _ := oneClipSha256
  have hstart : emptyNode.Restores :=
    ⟨(Project.default, none, 0), by decide +kernel, by simp [emptyNode]⟩
  have hopen : emptyNode.Step (.reopen ⟨true, ["store"]⟩ .faultless) (.running emptyWorld) := rfl
  have hcommit : (handle firstTrackWork .faultless emptyWorld).1 = .ok true := by decide +kernel
  have hcompact : (handle (.compact none) .faultless
      { firstTrackWorld with reply := none }).1 = .ok true := by decide +kernel
  have hrun : Runs Node.Step emptyNode _ (.running firstTrackWorld) :=
    (Runs.nil.snoc hopen).snoc (Node.message_running_iff.mpr (Prod.ext hcommit rfl))
  have hmaintained : (Node.running firstTrackWorld).Step (.message (.compact none) .faultless)
      (.running compactedWorld) := Node.message_running_iff.mpr (Prod.ext hcompact rfl)
  obtain ⟨-, hkept, -⟩ := maintenance_transparent hstart hrun
    (by simp [Event.Maintenance]) (Runs.singleton_iff.mpr hmaintained)
  exact (hkept rfl).2

end FirstTrack

end StitchEditor
