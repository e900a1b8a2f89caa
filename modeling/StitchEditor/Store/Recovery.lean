import Mathlib
import StitchEditor.Store.Failure

/-!
# StitchEditor.Store.Recovery

Retries of durable commits, over runs that crash, reopen and maintain.

A receipt row is never lost, so a retry that reaches the rows is answered
from them.  `worker_main` looks at `maintenance_failure` first: a worker that
remembers a failed snapshot refuses the retry together with every new commit.
-/

namespace StitchEditor

open Fallible Procedure Run Std

section Recovery

variable [Sha256] {command : Command} {receipt : CommitReceipt}

/-! ## durable receipts -/

theorem State.Serves.acknowledges {s s' : State} {work : Work} {reply : Option Reply}
    (h : s.Serves work reply s') (hdurable : s.connection.Acknowledges command receipt) :
    s'.connection.Acknowledges command receipt := by
  cases work with
  | commit requestId command' fault =>
      obtain ⟨result, s₁, hcommits, hmaintains, -⟩ := h
      refine ⟨?_⟩
      rw [hmaintains.receipts]
      cases hcommits with
      | kept => exact hdurable.row
      | appended happends =>
          have hne : receipt.requestId.bytes.toList ≠ requestId.bytes.toList := fun heq =>
            happends.fresh (heq ▸ Table.mem_iff_exists.mpr ⟨_, hdurable.row⟩)
          rw [happends.receipts_eq]
          exact Table.getElem?_insert_eq_some_iff.mpr (.inr ⟨hne, hdurable.row⟩)
  | receipt requestId => exact h.1 ▸ hdurable
  | snapshot | checkpoint | compact | archive | shutdown =>
      refine ⟨?_⟩
      rw [h.1.receipts]
      exact hdurable.row

theorem Node.acknowledges_step {node node' : Node} {event : Event}
    (hdurable : node.rows.Acknowledges command receipt) (hstep : node.Step event node') :
    node'.rows.Acknowledges command receipt := by
  cases node with
  | running world =>
      cases event with
      | message work env =>
          rw [rows_of_message hstep]
          exact (serves_handle world work env).acknowledges hdurable
      | crash =>
          cases hstep
          exact hdurable
      | reopen => cases hstep
  | down rows files =>
      cases event with
      | message | crash => cases hstep
      | reopen path env =>
          rw [rows_of_reopen hstep]
          exact hdurable

/-! ## the retry -/

/-- What a retry of a durable commit is answered. -/
def State.retryAnswer (s : State) (receipt : CommitReceipt) : Except StoreError CommitReceipt :=
  match s.maintenanceFailure with
  | some error => .error (.maintenance error)
  | none => .ok receipt

/-- The reply to a retry that reads its row and can be answered. -/
theorem ensures_handle_retry {w : World} {env : Env} (fault : Option FaultPoint)
    (hdurable : w.state.connection.Acknowledges command receipt) (hreads : env.ReadsReceipt)
    (hrespond : env.verdict .respond = .completes) :
    Ensures (handle (.commit receipt.requestId command fault) env) w fun _ w' =>
      w'.reply = some (.commit (w.state.retryAnswer receipt)) := by
  have hsent : ∀ {answer : Except StoreError CommitReceipt} {w₁ : World},
      Ensures (send (.commit answer) env) w₁ fun result w₂ =>
        result = .ok () ∧ w₂.reply = some (.commit answer) := by
    unfold send
    rw [hrespond]
    exact ⟨rfl, rfl⟩
  refine Ensures.get_bind ?_
  cases hfailure : w.state.maintenanceFailure with
  | some error =>
      refine hsent.bind ?_ ?_
      · rintro _ _ ⟨⟨⟩, -⟩
      · rintro _ w₁ ⟨-, hreply⟩
        refine .pure ?_
        rw [hreply, State.retryAnswer, hfailure]
  | none =>
      have hcommit : Ensures (commit receipt.requestId command fault env) w.state fun result _ =>
          result = .ok receipt := by
        rw [Ensures, commit_of_acknowledges hdurable fault hreads]
      refine (ensures_call (ensures_onState hcommit)).bind ?_ ?_
      · rintro _ _ ⟨_, ⟨rfl, -⟩, ⟨⟩⟩
      · rintro _ w₁ ⟨_, ⟨rfl, -⟩, ⟨⟩⟩
        refine Ensures.get_bind (hsent.bind ?_ ?_)
        · rintro _ _ ⟨⟨⟩, -⟩
        · rintro _ w₂ ⟨-, hreply⟩
          -- what follows the reply is maintenance
          refine (ensures_automaticSnapshot _ w₂).mono fun _ w₃ h => ?_
          rw [h.2, hreply, State.retryAnswer, hfailure]

/-- **A retry of a durable commit resolves** exactly when no snapshot failure
is remembered, whatever has happened since the commit. -/
theorem retry_resolves_iff {durable : Node} {events : List Event} {world : World}
    (hdurable : durable.rows.Acknowledges command receipt)
    (hrun : Runs Node.Step durable events (.running world)) {env : Env}
    (hreads : env.ReadsReceipt) (hrespond : env.verdict .respond = .completes)
    (fault : Option FaultPoint) :
    (handle (.commit receipt.requestId command fault) env { world with reply := none }).2.reply =
        some (.commit (.ok receipt)) ↔
      world.state.maintenanceFailure = none := by
  have hrows : (Node.running world).rows.Acknowledges command receipt :=
    hrun.invariant hdurable Node.acknowledges_step
  have hretry : Ensures (handle (.commit receipt.requestId command fault) env)
      { world with reply := none } fun _ w' =>
        w'.reply = some (.commit (world.state.retryAnswer receipt)) :=
    ensures_handle_retry fault hrows hreads hrespond
  rw [show (handle (.commit receipt.requestId command fault) env
    { world with reply := none }).2.reply
    = _ from hretry, State.retryAnswer]
  cases world.state.maintenanceFailure <;> simp

end Recovery

section FirstTrack

/-- The receipt of the first track. -/
def firstTrackReceipt : CommitReceipt := ⟨⟨Vector.replicate 16 1⟩, firstTrackHash, 1⟩

theorem acknowledges_firstTrackWorld :
    (Node.running firstTrackWorld).rows.Acknowledges addFirstTrack firstTrackReceipt :=
  ⟨by decide +kernel⟩

theorem isSome_opened_firstTrackWorld :
    letI := oneClipSha256
    (opened (some firstTrackWorld.state.connection)).isSome := by decide +kernel

/-- The store of the first track, opened again. -/
def reopenedWorld : World :=
  letI := oneClipSha256
  ⟨(opened (some firstTrackWorld.state.connection)).get isSome_opened_firstTrackWorld,
    { firstTrackWorld.files with temporaries := 0 }, none⟩

theorem retry_resolves_iff_reopenedWorld :
    letI := oneClipSha256
    (handle (.commit firstTrackReceipt.requestId addFirstTrack none) .faultless
      { reopenedWorld with reply := none }).2.reply = some (.commit (.ok firstTrackReceipt)) ↔
        reopenedWorld.state.maintenanceFailure = none := by
  let _ := oneClipSha256
  have hcrash : (Node.running firstTrackWorld).Step .crash firstTrackWorld.exit := rfl
  have hopen : openState storePath firstTrackWorld.state.connection .faultless =
      .ok reopenedWorld.state := by decide +kernel
  have hreopen : firstTrackWorld.exit.Step (.reopen storePath .faultless)
      (.running reopenedWorld) := by
    simp only [World.exit, Node.Step, Node.step, hopen]
    rfl
  exact retry_resolves_iff acknowledges_firstTrackWorld ((Runs.nil.snoc hcrash).snoc hreopen)
    ⟨rfl, rfl⟩ rfl none

/-- A snapshot fails, and the retry of the commit before it is refused. -/
theorem retry_refused_after_failed_snapshot :
    letI := oneClipSha256
    ∃ world, Runs Node.Step emptyNode [.reopen ⟨true, ["store"]⟩ .faultless,
        .message firstTrackWork .faultless,
        .message (.snapshot (some .beforeSnapshot)) .faultless] (.running world) ∧
      (Node.running world).rows.Acknowledges addFirstTrack firstTrackReceipt ∧
      (handle firstTrackWork .faultless { world with reply := none }).2.reply =
        some (.commit (.error (.maintenance (.fault .beforeSnapshot)))) := by
  let _ := oneClipSha256
  have hopen : emptyNode.Step (.reopen ⟨true, ["store"]⟩ .faultless) (.running emptyWorld) := rfl
  have hcommit : (handle firstTrackWork .faultless emptyWorld).1 = .ok true := by decide +kernel
  have hsnapshot : (handle (.snapshot (some .beforeSnapshot)) .faultless
      { firstTrackWorld with reply := none }).1 = .ok true := by decide +kernel
  refine ⟨_, ((Runs.nil.snoc hopen).snoc (Node.message_running_iff.mpr (Prod.ext hcommit rfl))).snoc
    (Node.message_running_iff.mpr (Prod.ext hsnapshot rfl)), ⟨?_⟩, rfl⟩
  decide +kernel

end FirstTrack

end StitchEditor
