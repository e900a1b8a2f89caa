import Mathlib
import StitchEditor.Store.Archive
import StitchEditor.Store.Effects

/-!
# StitchEditor.Store.Messages

`worker_main`: what the worker does with one message from its queue.

A reply goes out as soon as the requested operation has ended; an automatic
snapshot follows the reply to a commit.  `State.Serves` sums up what a
message does to the worker's state and what it is answered.
-/

namespace StitchEditor

open Fallible Procedure

/-! ## the code -/

inductive Work where
  | commit (requestId : RequestId) (command : Command) (fault : Option FaultPoint)
  | receipt (requestId : RequestId)
  | snapshot (fault : Option FaultPoint)
  | checkpoint (fault : Option FaultPoint)
  | compact (fault : Option FaultPoint)
  | archive (destination : Path) (fault : Option FaultPoint)
  | shutdown
  deriving DecidableEq

inductive Reply where
  | commit (result : Except StoreError CommitReceipt)
  | receipt (result : Except StoreError (Option CommitReceipt))
  | checkpoint (result : Except StoreError CheckpointReceipt)
  | maintenance (result : Except StoreError Unit)
  deriving DecidableEq

/-- The worker between two messages, and the reply to the last one. -/
structure World where
  state : State
  files : Files
  reply : Option Reply

/-- The result of a call; a process that dies has none. -/
def settle {α : Type} : Except Stop α → Except Stop (Except StoreError α)
  | .ok a => .ok (.ok a)
  | .error (.error error) => .ok (.error error)
  | .error .crash => .error .crash

def call {σ α : Type} (x : Proc Stop σ α) : Proc Stop σ (Except StoreError α) := fun s =>
  (settle (x s).1, (x s).2)

def onState {α : Type} (x : Proc Stop State α) : Proc Stop World α :=
  x.zoom World.state fun world state => { world with state := state }

def onFiles {α : Type} (x : Proc Stop Files α) : Proc Stop World α :=
  x.zoom World.files fun world files => { world with files := files }

/-- `let _ = response.send(..)`: nobody may be waiting any more. -/
def send (reply : Reply) (env : Env) : Proc Stop World Unit := fun world =>
  match env.verdict .respond with
  | .completes => (.ok (), { world with reply := some reply })
  | .fails => (.ok (), world)
  | .crashes => (.error .crash, world)

/-- A call that an earlier snapshot failure blocks. -/
def unlessFailed {α : Type} (x : Proc Stop State α) : Proc Stop State α := do
  match (← get).maintenanceFailure with
  | some error => raise (.maintenance error)
  | none => x

/-- Remember a failed snapshot. -/
def noteFailure (result : Except StoreError Unit) : Proc Stop State Unit :=
  match result with
  | .error (.maintenance error) =>
      modify fun state => { state with maintenanceFailure := some error }
  | _ => pure ()

section Handle

variable [Sha256]

/-- One turn of the loop; `false` ends it. -/
def handle (work : Work) (env : Env) : Proc Stop World Bool :=
  match work with
  | .commit requestId command fault => do
      match (← get).state.maintenanceFailure with
      | some error => do
          send (.commit (.error (.maintenance error))) env
          pure true
      | none => do
          let result ← call (onState (commit requestId command fault env))
          let snapshotDue := result.isOk ∧ (← get).state.sequence.tmod snapshotInterval = 0
          send (.commit result) env
          let snapshot ← call (onState (if snapshotDue then persistSnapshot none env else pure ()))
          onState (noteFailure snapshot)
          pure true
  | .receipt requestId => do
      let result ← call (receipt (← get).state.connection requestId env)
      send (.receipt result) env
      pure true
  | .snapshot fault => do
      let result ← call (onState (unlessFailed (persistSnapshot fault env)))
      onState (noteFailure result)
      send (.maintenance result) env
      pure true
  | .checkpoint fault => do
      let result ← call (onState (unlessFailed (checkpoint fault env)))
      send (.checkpoint result) env
      pure true
  | .compact fault => do
      let result ← call (onState (unlessFailed (compact fault env)))
      send (.maintenance result) env
      pure true
  | .archive destination fault => do
      let world ← get
      match world.state.maintenanceFailure with
      | some error => do
          send (.maintenance (.error (.maintenance error))) env
          pure true
      | none => do
          let result ← call (onFiles (archive world.state destination fault env))
          send (.maintenance result) env
          pure true
  | .shutdown => pure false

end Handle

/-! ## calls and replies -/

theorem settle_eq_ok_iff {α : Type} {x : Except Stop α} {r : Except StoreError α} :
    settle x = .ok r ↔ x = r.mapError .error := by
  cases x with
  | error stop =>
      cases stop with
      | error e => cases r <;> simp [settle, Except.mapError]
      | crash => cases r <;> simp [settle, Except.mapError]
  | ok a => cases r <;> simp [settle, Except.mapError]

theorem ensures_call {σ α : Type} {x : Proc Stop σ α} {s : σ} {P : Except Stop α → σ → Prop}
    (h : Ensures x s P) : Ensures (call x) s fun r t => ∃ r', P r' t ∧ r = settle r' :=
  ⟨_, h, rfl⟩

theorem ensures_onState {α : Type} {x : Proc Stop State α} {w : World}
    {P : Except Stop α → State → Prop} (h : Ensures x w.state P) :
    Ensures (onState x) w fun r w' => P r w'.state ∧ w'.reply = w.reply :=
  .zoom (h.mono fun _ _ hP => ⟨hP, rfl⟩)

/-- A reply is sent or lost, and the state is left alone. -/
theorem ensures_send (reply : Reply) (env : Env) (w : World) :
    Ensures (send reply env) w fun _ w' =>
      w'.state = w.state ∧ (w'.reply = w.reply ∨ w'.reply = some reply) := by
  unfold send Ensures
  cases env.verdict .respond with
  | completes => exact ⟨rfl, .inr rfl⟩
  | fails => exact ⟨rfl, .inl rfl⟩
  | crashes => exact ⟨rfl, .inl rfl⟩

/-- Sending the reply to a message that has none so far. -/
theorem ensures_send_last {reply : Reply} {env : Env} {w : World} (hreply : w.reply = none)
    {P : State → Option Reply → Prop} (hnone : P w.state none) (hsome : P w.state (some reply)) :
    Ensures (do send reply env; pure true) w fun _ w' => P w'.state w'.reply := by
  have hsend : ∀ w' : World, (w'.state = w.state ∧ (w'.reply = w.reply ∨ w'.reply = some reply)) →
      P w'.state w'.reply := by
    rintro w' ⟨hstate, h | h⟩
    · rw [hstate, h, hreply]; exact hnone
    · rw [hstate, h]; exact hsome
  exact (ensures_send reply env w).bind (fun _ _ h => hsend _ h) fun _ _ h => .pure (hsend _ h)

section Serves

variable [Sha256]

/-! ## what a message does -/

/-- What a message does to the state and what it is answered, if anything:
a commit ends as `State.Commits` says, with at most a snapshot after it; a
lookup reads the row; everything else is maintenance. -/
def State.Serves (s : State) (work : Work) (reply : Option Reply) (s' : State) : Prop :=
  match work with
  | .commit requestId command _ => ∃ result s₁, s.Commits requestId command result s₁ ∧
      s₁.Maintains s' ∧ ∀ answer ∈ reply, ∃ r : Except StoreError CommitReceipt,
        result = r.mapError .error ∧ answer = .commit r
  | .receipt requestId => s' = s ∧ ∀ answer ∈ reply,
      ∃ r : Except StoreError (Option CommitReceipt), answer = .receipt r ∧
        ∀ receipt, r = .ok (some receipt) → receipt.requestId = requestId ∧
          ∃ row, s.connection.receipts[requestId.bytes.toList]? = some row ∧
            row.revisionHash = receipt.revisionHash.bytes.toList ∧ row.sequence = receipt.sequence
  | _ => s.Maintains s' ∧ ∀ answer ∈ reply,
      (∀ r, answer ≠ .commit r) ∧ ∀ r, answer ≠ .receipt r

theorem ensures_noteFailure (result : Except StoreError Unit) (s : State) :
    Ensures (noteFailure result) s fun _ s' => s.Maintains s' := by
  unfold noteFailure
  split
  · exact .failure s _
  · exact .refl s

theorem ensures_unlessFailed {α : Type} {x : Proc Stop State α} {s : State}
    (h : Ensures x s fun _ s' => s.Maintains s') :
    Ensures (unlessFailed x) s fun _ s' => s.Maintains s' := by
  refine Ensures.get_bind ?_
  split
  · exact .lift (.refl s)
  · exact h

variable {w : World} {env : Env}

/-- The snapshot that follows a commit is maintenance and sends nothing. -/
theorem ensures_automaticSnapshot (due : Prop) [Decidable due] (w : World) :
    Ensures (do
      let snapshot ← call (onState (if due then persistSnapshot none env else pure ()))
      onState (noteFailure snapshot)
      pure true) w fun _ w' => w.state.Maintains w'.state ∧ w'.reply = w.reply := by
  have hsnapshot : Ensures (if due then persistSnapshot none env else pure ()) w.state
      fun _ s => w.state.Maintains s := by
    split
    · exact ensures_persistSnapshot none env
    · exact .pure (.refl _)
  refine (ensures_call (ensures_onState hsnapshot)).bind ?_ ?_
  · rintro e w₁ ⟨_, h, -⟩
    exact h
  · rintro failure w₁ ⟨_, ⟨hmaintains, hsame⟩, -⟩
    refine (ensures_onState (ensures_noteFailure failure w₁.state)).bind ?_ ?_
    · intro e w₂ h
      exact ⟨hmaintains.trans h.1, h.2.trans hsame⟩
    · intro _ w₂ h
      exact .pure ⟨hmaintains.trans h.1, h.2.trans hsame⟩

theorem ensures_handle_commit (hreply : w.reply = none) {requestId : RequestId} {command : Command}
    {fault : Option FaultPoint} : Ensures (handle (.commit requestId command fault) env) w
      fun _ w' => w.state.Serves (.commit requestId command fault) w'.reply w'.state := by
  refine Ensures.get_bind ?_
  split
  · next error _ =>
    have hkept : w.state.Commits requestId command (.error (.error (.maintenance error))) w.state :=
      .kept (fun _ h => by cases h) (.error fun _ h => by cases h)
    exact ensures_send_last
      (P := fun s reply => w.state.Serves (.commit requestId command fault) reply s) hreply
      ⟨_, _, hkept, .refl _, by simp⟩ ⟨_, _, hkept, .refl _, by simp [Except.mapError]⟩
  · refine (ensures_call (ensures_onState (ensures_commit fault env))).bind ?_ ?_
    · rintro e w₁ ⟨result, ⟨hcommits, hquiet⟩, -⟩
      rw [hquiet, hreply]
      exact ⟨result, w₁.state, hcommits, .refl _, by simp⟩
    · rintro r w₁ ⟨result, ⟨hcommits, hquiet⟩, hsettle⟩
      have hresult := settle_eq_ok_iff.mp hsettle.symm
      -- whatever follows the commit is maintenance, and the reply is that of the commit
      have hserves : ∀ w₂ : World, w₁.state.Maintains w₂.state →
          (w₂.reply = w₁.reply ∨ w₂.reply = some (.commit r)) →
            w.state.Serves (.commit requestId command fault) w₂.reply w₂.state := by
        rintro w₂ hmaintains (h | h)
        · rw [h, hquiet, hreply]
          exact ⟨result, w₁.state, hcommits, hmaintains, by simp⟩
        · rw [h]
          exact ⟨result, w₁.state, hcommits, hmaintains, by simpa using hresult⟩
      refine Ensures.get_bind ((ensures_send _ env w₁).bind ?_ ?_)
      · rintro e w₂ ⟨hstate, h⟩
        exact hserves w₂ (hstate ▸ .refl _) h
      · rintro _ w₂ ⟨hstate, h⟩
        refine (ensures_automaticSnapshot _ w₂).mono fun _ w₃ h' => ?_
        exact hserves w₃ (hstate ▸ h'.1) (h'.2 ▸ h)

/-- A maintenance message: the operation, then the reply. -/
theorem ensures_maintenance (hreply : w.reply = none) {α : Type} {x : Proc Stop World α}
    {next : Except StoreError α → Proc Stop World Bool}
    (hx : Ensures x w fun _ w' => w.state.Maintains w'.state ∧ w'.reply = w.reply)
    (hnext : ∀ r w', w'.reply = none → Ensures (next r) w' fun _ w'' =>
      w'.state.Maintains w''.state ∧ ∀ answer ∈ w''.reply,
        (∀ r, answer ≠ .commit r) ∧ ∀ r, answer ≠ .receipt r) :
    Ensures (call x >>= next) w fun _ w' => w.state.Maintains w'.state ∧ ∀ answer ∈ w'.reply,
      (∀ r, answer ≠ .commit r) ∧ ∀ r, answer ≠ .receipt r := by
  refine (ensures_call hx).bind ?_ ?_
  · rintro e w' ⟨_, ⟨hmaintains, hquiet⟩, -⟩
    exact ⟨hmaintains, by simp [hquiet, hreply]⟩
  · rintro r w' ⟨_, ⟨hmaintains, hquiet⟩, -⟩
    exact (hnext r w' (hquiet.trans hreply)).mono fun _ w'' h => ⟨hmaintains.trans h.1, h.2⟩

theorem ensures_reply {reply : Reply} (hreply : w.reply = none)
    (hkind : (∀ r, reply ≠ .commit r) ∧ ∀ r, reply ≠ .receipt r) :
    Ensures (do send reply env; pure true) w fun _ w' => w.state.Maintains w'.state ∧
      ∀ answer ∈ w'.reply, (∀ r, answer ≠ .commit r) ∧ ∀ r, answer ≠ .receipt r :=
  ensures_send_last (P := fun s reply => w.state.Maintains s ∧ ∀ answer ∈ reply,
    (∀ r, answer ≠ .commit r) ∧ ∀ r, answer ≠ .receipt r) hreply ⟨.refl _, by simp⟩
    ⟨.refl _, by simpa using hkind⟩

/-- **What a message does.** -/
theorem ensures_handle (hreply : w.reply = none) (work : Work) :
    Ensures (handle work env) w fun _ w' => w.state.Serves work w'.reply w'.state := by
  cases work with
  | commit requestId command fault => exact ensures_handle_commit hreply
  | receipt requestId =>
      refine Ensures.get_bind ((ensures_call (P := fun r w' =>
        r = receipt w.state.connection requestId env ∧ w' = w) (.lift ⟨rfl, rfl⟩)).bind ?_ ?_)
      · rintro e w' ⟨_, ⟨-, rfl⟩, -⟩
        exact ⟨rfl, by simp [hreply]⟩
      · rintro r w' ⟨_, ⟨rfl, rfl⟩, hsettle⟩
        have hresult := settle_eq_ok_iff.mp hsettle.symm
        refine ensures_send_last (P := fun s reply => w'.state.Serves (.receipt requestId) reply s)
          hreply ⟨rfl, by simp⟩ ⟨rfl, ?_⟩
        rintro answer ⟨rfl⟩
        refine ⟨r, rfl, ?_⟩
        rintro found rfl
        exact receipt_eq_ok_some hresult
  | snapshot fault =>
      refine ensures_maintenance hreply (ensures_onState
        (ensures_unlessFailed (ensures_persistSnapshot fault env))) fun r w' hquiet => ?_
      refine (ensures_onState (ensures_noteFailure r w'.state)).bind ?_ ?_
      · rintro e w'' ⟨hnoted, hsame⟩
        exact ⟨hnoted, by simp [hsame, hquiet]⟩
      · rintro _ w'' ⟨hnoted, hsame⟩
        refine (ensures_reply (hsame.trans hquiet) (by simp)).mono fun _ _ h => ?_
        exact ⟨hnoted.trans h.1, h.2⟩
  | checkpoint fault =>
      exact ensures_maintenance hreply (ensures_onState (ensures_unlessFailed (.lift (.refl _))))
        fun r w' hquiet => ensures_reply hquiet (by simp)
  | compact fault =>
      exact ensures_maintenance hreply (ensures_onState
        (ensures_unlessFailed (ensures_compact fault env)))
        fun r w' hquiet => ensures_reply hquiet (by simp)
  | archive destination fault =>
      refine Ensures.get_bind ?_
      split
      · exact ensures_reply hreply (by simp)
      · refine ensures_maintenance hreply ?_ fun r w' hquiet => ensures_reply hquiet (by simp)
        exact Ensures.zoom ⟨.refl _, rfl⟩
  | shutdown => exact .pure ⟨.refl _, by simp [hreply]⟩

/-- What serving one message does, from a worker that owes no reply. -/
theorem serves_handle (world : World) (work : Work) (env : Env) :
    world.state.Serves work (handle work env { world with reply := none }).2.reply
      (handle work env { world with reply := none }).2.state := by
  have hhandle : Ensures (handle work env) { world with reply := none } fun _ w' =>
      world.state.Serves work w'.reply w'.state := ensures_handle rfl work
  exact hhandle

end Serves

end StitchEditor
