import Mathlib
import StitchEditor.Abi.Atomic
import StitchEditor.Desktop.Controller

/-!
# StitchEditor.Desktop.Bridge

`registerAcquireFrame` and `submitFrame` call by call, on the render thread,
while the GUI thread edits the core and cancels epochs.

Between two calls, and within one, the epoch and the revision of the core may
change, and each call may fail for it.  A lease that has been registered is
then discarded, and the discard succeeds, since nobody but the render thread
moves the lease (`frames_leak_no_lease`).
-/

namespace StitchEditor.Desktop

open StitchEditor Abi Client Fallible Run

/-! ## programs -/

/-- What a lease call returns. -/
abbrev Reply := StitchResult × Output

/-- A function of the controller that makes lease calls. -/
abbrev Bridge (α : Type) := Program LeaseCall Reply α

/-- The lease behind `out_lease`, which is 0 before the call. -/
def outLease : Output → UInt64
  | .handle lease => lease
  | _ => 0

/-- `stitch_frame_metadata{}`. -/
def zeroMetadata : StitchFrameMetadata where
  header := ⟨0, 0⟩
  leaseId := 0
  revision := .replicate 32 0
  epoch := 0
  deviceGeneration := 0
  surfaceToken := 0
  synchronizationToken := 0
  ownerThreadToken := 0
  pixelWidth := 0
  pixelHeight := 0
  pixelFormat := 0
  synchronizationKind := 0
  synchronizationValue := 0
  presentationTime := ⟨0, 0⟩
  state := 0
  reserved := 0

/-- The metadata behind `out_metadata`. -/
def outMetadata : Output → StitchFrameMetadata
  | .frameMetadata metadata => metadata
  | _ => zeroMetadata

/-- The arguments of `registerAcquireFrame`, and the context that it finds
published. -/
structure FrameRequest where
  outLease : Bool
  outContext : Bool
  context : FrameContext
  deviceGeneration : UInt64
  surfaceToken : UInt64
  synchronizationToken : UInt64
  width : UInt32
  height : UInt32
  deriving DecidableEq

/-- The metadata are those of an acquired frame with the tokens. -/
def FrameRequest.Confirmed (request : FrameRequest) (confirmed : StitchFrameMetadata) : Prop :=
  confirmed.state = LeaseState.acquired.toUInt32 ∧ confirmed.ownerThreadToken ≠ 0 ∧
    confirmed.surfaceToken = request.surfaceToken ∧
    confirmed.synchronizationToken = request.synchronizationToken

instance (request : FrameRequest) (confirmed : StitchFrameMetadata) :
    Decidable (request.Confirmed confirmed) := inferInstanceAs (Decidable (_ ∧ _))

def discardFrame (core device lease : UInt64) : Bridge Bool :=
  if core = 0 ∨ lease = 0 then pure false
  else do
    let (result, _) ← invoke (.discard lease device)
    pure (result = .ok)

/-- `registerAcquireFrame`; `none` for `false`. -/
def registerAcquireFrame (core : UInt64) (request : FrameRequest) :
    Bridge (Option (UInt64 × FrameContext)) :=
  if request.outLease = false ∨ request.outContext = false ∨ core = 0 then pure none
  else if request.context.valid = false then pure none
  else do
    let context := request.context
    let device := request.deviceGeneration
    let (result, output) ← invoke (.register (EditorController.frameMetadata context device
      request.surfaceToken request.synchronizationToken request.width request.height))
    let lease := outLease output
    if result ≠ .ok then pure none
    else do
      let (result, _) ← invoke (.acquire lease device context.epoch context.revision)
      if result ≠ .ok then do
        let _ ← discardFrame core device lease
        pure none
      else do
        let (result, output) ← invoke (.metadataGet lease)
        if result ≠ .ok then do
          let _ ← discardFrame core device lease
          pure none
        else if request.Confirmed (outMetadata output) then pure (some (lease, context))
        else do
          let _ ← discardFrame core device lease
          pure none

def submitFrame (core device lease : UInt64) : Bridge Bool :=
  if core = 0 ∨ lease = 0 then pure false
  else do
    let (result, _) ← invoke (.submit lease device)
    if result ≠ .ok then do
      let _ ← discardFrame core device lease
      pure false
    else pure true

/-! ## the calls of a function -/

/-- The calls of a function, with what they returned. -/
abbrev CallLog := List (LeaseCall × Reply)

/-- A registration among the calls has returned the id. -/
def Created (log : CallLog) (id : UInt64) : Prop :=
  ∃ metadata, (LeaseCall.register metadata, ((.ok, .handle id) : Reply)) ∈ log

@[simp] theorem not_created_nil (id : UInt64) : ¬ Created [] id := by simp [Created]

@[simp] theorem created_cons_iff {call : LeaseCall} {reply : Reply} {log : CallLog} {id : UInt64} :
    Created ((call, reply) :: log) id ↔
      ((∃ metadata, call = .register metadata) ∧ reply = (.ok, .handle id)) ∨ Created log id := by
  simp only [Created, List.mem_cons, Prod.mk.injEq]
  constructor
  · rintro ⟨metadata, ⟨rfl, rfl⟩ | hmem⟩
    · exact .inl ⟨⟨metadata, rfl⟩, rfl⟩
    · exact .inr ⟨metadata, hmem⟩
  · rintro (⟨⟨metadata, rfl⟩, rfl⟩ | ⟨metadata, hmem⟩)
    · exact ⟨metadata, .inl ⟨rfl, rfl⟩⟩
    · exact ⟨metadata, .inr hmem⟩

@[simp] theorem created_append_iff {front back : CallLog} {id : UInt64} :
    Created (front ++ back) id ↔ Created front id ∨ Created back id := by
  simp only [Created, List.mem_append, exists_or]

section Programs

variable {thread : ThreadId} {core device id : UInt64} {leases leases' : OrdMap UInt64 Lease}

/-- How `discardFrame` ends. -/
inductive DiscardEnds (thread : ThreadId) (core device id : UInt64)
    (leases : OrdMap UInt64 Lease) : OrdMap UInt64 Lease → Prop where
  | discarded : DiscardEnds thread core device id leases (leases.erase id)
  | refused (h : core = 0 ∨ id = 0 ∨ ¬ Discardable leases thread id device) :
      DiscardEnds thread core device id leases leases

theorem ensures_discardFrame : (discardFrame core device id).Ensures (LeaseCall.Served thread)
    leases fun log _ leases' => (∀ other, ¬ Created log other) ∧
      DiscardEnds thread core device id leases leases' := by
  unfold discardFrame
  split
  · next hzero => exact .pure ⟨by simp, .refused (hzero.imp_right .inl)⟩
  · refine .invoke_bind ?_
    rintro ⟨result, output⟩ leases' hserved
    refine .pure ⟨by simp, ?_⟩
    cases hserved with
    | fails _ hsucceeds => exact .refused (.inr (.inr hsucceeds))
    | discards _ => exact .discarded

/-- A lease that the thread may discard is discarded. -/
theorem ensures_discardFrame_of_discardable (hcore : core ≠ 0) (hid : id ≠ 0)
    (hdiscardable : Discardable leases thread id device) :
    (discardFrame core device id).Ensures (LeaseCall.Served thread) leases
      fun log _ leases' => (∀ other, ¬ Created log other) ∧ leases' = leases.erase id := by
  refine ensures_discardFrame.mono fun log _ leases' hends => ⟨hends.1, ?_⟩
  cases hends.2 with
  | discarded => rfl
  | refused h =>
      obtain h | h | h := h
      · exact absurd h hcore
      · exact absurd h hid
      · exact absurd hdiscardable h

/-- How `registerAcquireFrame` ends: with no lease of its own, or with an
acquired one. -/
inductive FrameRequest.Ends (request : FrameRequest) (thread : ThreadId) (core : UInt64)
    (leases : OrdMap UInt64 Lease) :
    CallLog → Option (UInt64 × FrameContext) → OrdMap UInt64 Lease → Prop where
  | refused {log : CallLog} (hlog : ∀ id, ¬ Created log id) :
      Ends request thread core leases log none leases
  | discarded {log : CallLog} {id : UInt64} (hlog : ∀ other, Created log other → other = id) :
      Ends request thread core leases log none (leases.erase id)
  | acquired {log : CallLog} {id : UInt64} {lease : Lease} (hcore : core ≠ 0) (hid : id ≠ 0)
      (howner : lease.owner = thread)
      (hdevice : lease.metadata.deviceGeneration = request.deviceGeneration)
      (hstate : lease.state = .acquired) :
      Ends request thread core leases log (some (id, request.context)) (leases.insert id lease)

/-- What is done after a failure with a lease that was registered. -/
theorem ensures_giveUp {request : FrameRequest} (log : CallLog) {lease : Lease} (hcore : core ≠ 0)
    (hid : id ≠ 0) (howner : lease.owner = thread)
    (hdevice : lease.metadata.deviceGeneration = request.deviceGeneration)
    (hstate : lease.state = .registered ∨ lease.state = .acquired)
    (hlog : ∀ other, Created log other → other = id) :
    (do
      let _ ← discardFrame core request.deviceGeneration id
      pure none : Bridge (Option (UInt64 × FrameContext))).Ensures (LeaseCall.Served thread)
        (leases.insert id lease) fun log' => request.Ends thread core leases (log ++ log') := by
  have hdiscardable : Discardable (leases.insert id lease) thread id request.deviceGeneration :=
    ⟨lease, Std.ExtTreeMap.getElem?_insert_self, hdevice, howner, hstate⟩
  refine (ensures_discardFrame_of_discardable hcore hid hdiscardable).bind ?_
  rintro log' _ _ ⟨hnone, rfl⟩
  rw [Table.erase_insert_self]
  refine .pure (.discarded fun other hother => ?_)
  rw [List.append_nil, created_append_iff] at hother
  exact hother.elim (hlog other) fun h => absurd h (hnone other)

theorem ensures_registerAcquireFrame (request : FrameRequest) :
    (registerAcquireFrame core request).Ensures (LeaseCall.Served thread) leases
      (request.Ends thread core leases) := by
  unfold registerAcquireFrame
  split
  · exact .pure (.refused (by simp))
  next hthere =>
  have hcore : core ≠ 0 := fun h => hthere (.inr (.inr h))
  split
  · exact .pure (.refused (by simp))
  refine .invoke_bind ?_
  rintro ⟨result, output⟩ leases₁ hregister
  cases hregister with
  | fails herror _ =>
      simp only [ne_eq, herror, not_false_eq_true, if_true]
      exact .pure (.refused (by simp))
  | @registers _ id hid =>
      simp only [ne_eq, not_true_eq_false, if_false, outLease]
      refine .invoke_bind ?_
      rintro ⟨result, output⟩ leases₂ hacquire
      cases hacquire with
      | fails herror _ =>
          simp only [herror, not_false_eq_true, if_true]
          exact ensures_giveUp [_, _] hcore hid rfl rfl (.inl rfl) (by simp)
      | acquires _ howner hdevice _ =>
          simp only [not_true_eq_false, if_false]
          rw [Table.insert_insert]
          refine .invoke_bind ?_
          rintro ⟨result, output⟩ leases₃ hget
          cases hget with
          | fails herror _ =>
              simp only [herror, not_false_eq_true, if_true]
              exact ensures_giveUp [_, _, _] hcore hid howner hdevice (.inr rfl) (by simp)
          | reads _ =>
              simp only [not_true_eq_false, if_false]
              split
              · exact .pure (.acquired hcore hid howner hdevice rfl)
              · exact ensures_giveUp [_, _, _] hcore hid howner hdevice (.inr rfl) (by simp)

/-- How `submitFrame` ends. -/
inductive SubmitEnds (thread : ThreadId) (core device id : UInt64)
    (leases : OrdMap UInt64 Lease) : Bool → OrdMap UInt64 Lease → Prop where
  | submitted {lease : Lease} (hstate : lease.state = .submitted) :
      SubmitEnds thread core device id leases true (leases.insert id lease)
  | failed {leases' : OrdMap UInt64 Lease}
      (h : DiscardEnds thread core device id leases leases') :
      SubmitEnds thread core device id leases false leases'

theorem ensures_submitFrame : (submitFrame core device id).Ensures (LeaseCall.Served thread) leases
    fun _ submitted leases' => SubmitEnds thread core device id leases submitted leases' := by
  unfold submitFrame
  split
  · next hzero => exact .pure (.failed (.refused (hzero.imp_right .inl)))
  refine .invoke_bind ?_
  rintro ⟨result, output⟩ leases₁ hserved
  cases hserved with
  | fails herror _ =>
      simp only [ne_eq, herror, not_false_eq_true, if_true]
      exact ensures_discardFrame.bind fun _ _ _ hends => .pure (.failed hends.2)
  | submits _ _ _ _ =>
      simp only [ne_eq, not_true_eq_false, if_false]
      exact .pure (.submitted rfl)

end Programs

/-! ## sessions -/

inductive FrameCall where
  | registerAcquireFrame (request : FrameRequest)
  | submitFrame (deviceGeneration lease : UInt64)

/-- A call with its arguments and its result. -/
inductive FrameResult where
  | registerAcquireFrame (request : FrameRequest) (acquired : Option (UInt64 × FrameContext))
  | submitFrame (deviceGeneration lease : UInt64) (submitted : Bool)
  deriving DecidableEq

def FrameCall.program (core : UInt64) : FrameCall → Bridge FrameResult
  | .registerAcquireFrame request => do
      let acquired ← Desktop.registerAcquireFrame core request
      pure (.registerAcquireFrame request acquired)
  | .submitFrame device lease => do
      let submitted ← Desktop.submitFrame core device lease
      pure (.submitFrame device lease submitted)

/-- The call has acquired the lease for the device generation. -/
def FrameResult.Acquires (device lease : UInt64) : FrameResult → Prop
  | .registerAcquireFrame request (some (id, _)) => request.deviceGeneration = device ∧ id = lease
  | _ => False

def FrameResult.Submits (lease : UInt64) : FrameResult → Prop
  | .submitFrame _ id true => id = lease
  | _ => False

/-- The lease was acquired for the device generation and is not yet submitted;
an id stands for the last lease that has it. -/
def Outstanding (history : List FrameResult) (device lease : UInt64) : Prop :=
  ∃ front result back, history = front ++ result :: back ∧ result.Acquires device lease ∧
    ∀ later ∈ back, (∀ other, ¬ later.Acquires other lease) ∧ ¬ later.Submits lease

theorem Outstanding.of_concat {history : List FrameResult} {result : FrameResult}
    {device lease : UInt64} (h : Outstanding (history ++ [result]) device lease) :
    result.Acquires device lease ∨
      (Outstanding history device lease ∧ (∀ other, ¬ result.Acquires other lease) ∧
        ¬ result.Submits lease) := by
  obtain ⟨front, acquired, back, heq, hacquires, hlater⟩ := h
  cases back using List.reverseRecOn with
  | nil =>
      obtain ⟨-, hlast⟩ := List.append_inj' heq rfl
      cases hlast
      exact .inl hacquires
  | append_singleton back last =>
      rw [← List.cons_append, ← List.append_assoc] at heq
      obtain ⟨rfl, hlast⟩ := List.append_inj' heq rfl
      cases hlast
      refine .inr ⟨⟨front, acquired, back, rfl, hacquires, fun later hmem => ?_⟩, ?_⟩
      · exact hlater later (List.mem_append_left _ hmem)
      · exact hlater result (by simp)

/-- The lease is in the state. -/
def InState (leases : OrdMap UInt64 Lease) (id : UInt64) (state : LeaseState) : Prop :=
  ∃ lease, leases[id]? = some lease ∧ lease.state = state

/-- What the result of a call says about the leases of the core; `history` is
what the thread called before. -/
def FrameResult.Settled (history : List FrameResult) (log : CallLog)
    (leases : OrdMap UInt64 Lease) : FrameResult → Prop
  | .registerAcquireFrame _ none => ∀ id, Created log id → id ∉ leases
  | .registerAcquireFrame _ (some (lease, _)) => InState leases lease .acquired
  | .submitFrame device lease false => Outstanding history device lease → lease ∉ leases
  | .submitFrame _ lease true => InState leases lease .submitted

section Sessions

variable {thread : ThreadId} {core : UInt64} {leases leases' : OrdMap UInt64 Lease}
  {history : List FrameResult}

/-- The lease, where it is still there, is acquired by the thread for the
device generation. -/
structure Kept (thread : ThreadId) (core : UInt64) (leases : OrdMap UInt64 Lease)
    (device lease : UInt64) : Prop where
  core_ne_zero : core ≠ 0
  lease_ne_zero : lease ≠ 0
  kept : ∀ ⦃found : Lease⦄, leases[lease]? = some found →
    found.owner = thread ∧ found.metadata.deviceGeneration = device ∧ found.state = .acquired

/-- The invariant of sessions: every outstanding lease is kept. -/
def KeepsOutstanding (thread : ThreadId) (core : UInt64) (history : List FrameResult)
    (leases : OrdMap UInt64 Lease) : Prop :=
  ∀ ⦃device lease⦄, Outstanding history device lease → Kept thread core leases device lease

theorem Kept.insert {device lease id : UInt64} {new : Lease}
    (h : Kept thread core leases device lease) (hid : id ≠ lease) :
    Kept thread core (leases.insert id new) device lease where
  core_ne_zero := h.core_ne_zero
  lease_ne_zero := h.lease_ne_zero
  kept found hfound := by
    rw [Table.getElem?_insert_eq, if_neg hid.symm] at hfound
    exact h.kept hfound

theorem Kept.erase {device lease : UInt64} (h : Kept thread core leases device lease)
    (id : UInt64) : Kept thread core (leases.erase id) device lease where
  core_ne_zero := h.core_ne_zero
  lease_ne_zero := h.lease_ne_zero
  kept _ hfound := h.kept (Table.getElem?_erase_eq_some_iff.mp hfound).2

/-- A kept lease that a failed submit leaves behind is gone. -/
theorem Kept.not_mem_of_discardEnds {device lease : UInt64}
    (h : Kept thread core leases device lease)
    (hends : DiscardEnds thread core device lease leases leases') : lease ∉ leases' := by
  cases hends with
  | discarded => exact Table.not_mem_erase_self
  | refused hrefused =>
      intro hmem
      obtain ⟨found, hfound⟩ := Table.mem_iff_exists.mp hmem
      obtain ⟨howner, hdevice, hstate⟩ := h.kept hfound
      obtain hzero | hzero | hdiscardable := hrefused
      · exact h.core_ne_zero hzero
      · exact h.lease_ne_zero hzero
      · exact hdiscardable ⟨found, hfound, hdevice, howner, .inr hstate⟩

theorem DiscardEnds.keeps {device id : UInt64}
    (hends : DiscardEnds thread core device id leases leases') {other lease : UInt64}
    (h : Kept thread core leases other lease) : Kept thread core leases' other lease := by
  cases hends with
  | discarded => exact h.erase id
  | refused _ => exact h

/-- **One call** keeps the invariant, and its result is settled. -/
theorem FrameRequest.Ends.settles {request : FrameRequest} {log : CallLog}
    {acquired : Option (UInt64 × FrameContext)}
    (hends : request.Ends thread core leases log acquired leases')
    (h : KeepsOutstanding thread core history leases) :
    KeepsOutstanding thread core (history ++ [.registerAcquireFrame request acquired]) leases' ∧
      (FrameResult.registerAcquireFrame request acquired).Settled history log leases' := by
  cases hends with
  | refused hlog =>
      refine ⟨fun device lease houtstanding => ?_, fun id hid => absurd hid (hlog id)⟩
      obtain hacquires | ⟨hbefore, -, -⟩ := houtstanding.of_concat
      · cases hacquires
      · exact h hbefore
  | discarded hlog =>
      refine ⟨fun device lease houtstanding => ?_, fun id hid => ?_⟩
      · obtain hacquires | ⟨hbefore, -, -⟩ := houtstanding.of_concat
        · cases hacquires
        · exact (h hbefore).erase _
      · rw [hlog id hid]
        exact Table.not_mem_erase_self
  | @acquired id new hcore hid howner hdevice hstate =>
      refine ⟨fun device lease houtstanding => ?_,
        new, Std.ExtTreeMap.getElem?_insert_self, hstate⟩
      obtain ⟨rfl, rfl⟩ | ⟨hbefore, hothers, -⟩ := houtstanding.of_concat
      · refine ⟨hcore, hid, fun found hfound => ?_⟩
        rw [Std.ExtTreeMap.getElem?_insert_self] at hfound
        cases hfound
        exact ⟨howner, hdevice, hstate⟩
      · exact (h hbefore).insert fun hsame => hothers request.deviceGeneration ⟨rfl, hsame⟩

theorem SubmitEnds.settles {device id : UInt64} {submitted : Bool} {log : CallLog}
    (hends : SubmitEnds thread core device id leases submitted leases')
    (h : KeepsOutstanding thread core history leases) :
    KeepsOutstanding thread core (history ++ [.submitFrame device id submitted]) leases' ∧
      (FrameResult.submitFrame device id submitted).Settled history log leases' := by
  cases hends with
  | @submitted new hstate =>
      refine ⟨fun other lease houtstanding => ?_,
        new, Std.ExtTreeMap.getElem?_insert_self, hstate⟩
      obtain hacquires | ⟨hbefore, -, hsubmits⟩ := houtstanding.of_concat
      · cases hacquires
      · exact (h hbefore).insert hsubmits
  | failed hends =>
      refine ⟨fun other lease houtstanding => ?_,
        fun houtstanding => (h houtstanding).not_mem_of_discardEnds hends⟩
      obtain hacquires | ⟨hbefore, -, -⟩ := houtstanding.of_concat
      · cases hacquires
      · exact hends.keeps (h hbefore)

/-- The calls of a session without interference, one after the other: the
invariant, and the result of the last call. -/
def SessionKeeps (thread : ThreadId) (core : UInt64)
    (history : List (Ended LeaseCall Reply FrameResult)) (leases : OrdMap UInt64 Lease) : Prop :=
  KeepsOutstanding thread core (history.map Ended.result) leases ∧
    ∀ front ended, history = front ++ [ended] →
      ended.result.Settled (front.map Ended.result) ended.log leases

theorem SessionKeeps.concat {history : List (Ended LeaseCall Reply FrameResult)} {log : CallLog}
    {result : FrameResult}
    (h : KeepsOutstanding thread core (history.map Ended.result ++ [result]) leases ∧
      result.Settled (history.map Ended.result) log leases) :
    SessionKeeps thread core (history ++ [⟨log, result⟩]) leases := by
  refine ⟨by simpa using h.1, fun front ended heq => ?_⟩
  obtain ⟨rfl, hlast⟩ := List.append_inj' heq rfl
  cases hlast
  exact h.2

theorem SessionKeeps.program {history : List (Ended LeaseCall Reply FrameResult)}
    (h : SessionKeeps thread core history leases) (call : FrameCall) :
    (call.program core).Ensures (LeaseCall.Served thread) leases
      fun log result leases' => SessionKeeps thread core (history ++ [⟨log, result⟩]) leases' := by
  cases call with
  | registerAcquireFrame request =>
      refine (ensures_registerAcquireFrame request).bind fun log acquired leases' hends => ?_
      exact .pure (.concat (by simpa using hends.settles h.1))
  | submitFrame device lease =>
      refine ensures_submitFrame.bind fun log submitted leases' hends => ?_
      exact .pure (.concat (by simpa using hends.settles h.1))

end Sessions

section Bridge

variable [Sha256]

/-- **No lease leaks**: whatever the other threads edit and cancel between the
sections of the calls, a frame that is not acquired leaves no lease behind,
and neither does an acquired one that is not submitted. -/
theorem frames_leak_no_lease {thread : ThreadId} {handle : UInt64} {entry : Nat}
    {leases : OrdMap UInt64 Lease} {p q : Process}
    {labels : List (Session.Label FrameCall Action LeaseCall Reply FrameResult)}
    {history : List (Ended LeaseCall Reply FrameResult)}
    {ended : Ended LeaseCall Reply FrameResult}
    (hstart : p.Hosts thread handle entry none leases)
    (hrun : Runs (Session.Step (leaseService thread handle) (FrameCall.program handle)) ⟨p, none⟩
      labels ⟨q, none⟩)
    (hended : labels.filterMap Session.Label.ended = history ++ [ended]) :
    ∃ core, q.cores[handle]? = some entry ∧ q.heap[entry]? = some core ∧
      ended.result.Settled (history.map Ended.result) ended.log core.leases := by
  obtain ⟨leases', hsequential, hfollows⟩ :=
    (leaseService_atomic thread handle entry).refines hstart hrun
  have hkeeps : SessionKeeps thread handle (labels.filterMap Session.Label.ended) leases' := by
    refine Sequential.invariant hsequential ⟨?_, ?_⟩ fun _ _ call h => h.program call
    · rintro device lease ⟨front, result, back, heq, -⟩
      simp at heq
    · simp
  cases hfollows with
  | idle hidle =>
      have hhosts : q.Hosts thread handle entry none leases' := hidle
      obtain ⟨core, hcore, rfl⟩ := hhosts.core
      exact ⟨core, hhosts.bound, hcore, hkeeps.2 history ended hended⟩

end Bridge

section Schedule

/-- Thread 0 has created the core 1. -/
def createdProcess : Process :=
  { Process.initial with
    nextHandle := 2
    cores := (∅ : OrdMap UInt64 Nat).insert 1 0
    heap := [⟨.default, 0, ∅, 0⟩] }

theorem createdProcess_hosts : createdProcess.Hosts 1 1 0 none ∅ where
  bound := by decide +kernel
  core := ⟨_, rfl, rfl⟩
  stands := rfl
  others := nofun

def frameRequest : FrameRequest where
  outLease := true
  outContext := true
  context := ⟨digest none, 0, true⟩
  deviceGeneration := 1
  surfaceToken := 1
  synchronizationToken := 1
  width := 1
  height := 1

open Session.Move in
/-- Thread 1 acquires the frame 2.  Thread 0 has begun to raise the epoch in
the meantime and does so, so that thread 1 cannot submit the frame. -/
def cancelledMoves : List (Session.Move FrameCall Action) :=
  [start (FrameCall.registerAcquireFrame frameRequest)] ++ List.replicate 4 run ++
    [interfere (Action.begin 0 (.coreSetEpoch 1 1))] ++ List.replicate 5 run ++
    [interfere (Action.advance 0)] ++ List.replicate 3 run ++
    [start (FrameCall.submitFrame 1 2), run, interfere (Action.advance 0)] ++ List.replicate 6 run

/-- The session that the moves make, with its labels. -/
def cancelledSession [Sha256] : Option (Session Process LeaseCall Reply FrameResult ×
    List (Session.Label FrameCall Action LeaseCall Reply FrameResult)) :=
  cancelledMoves.foldlM (Session.replay (leaseService 1 1) (FrameCall.program 1))
    (⟨createdProcess, none⟩, [])

theorem isSome_cancelledSession :
    letI := firstTrackSha256
    cancelledSession.isSome := by
  decide +kernel

/-- The frame that cannot be submitted is gone. -/
theorem frames_leak_no_lease_cancelledMoves :
    letI := firstTrackSha256
    ∃ labels q history ended core,
      Runs (Session.Step (leaseService 1 1) (FrameCall.program 1)) ⟨createdProcess, none⟩ labels
        ⟨q, none⟩ ∧
      labels.filterMap Session.Label.ended = history ++ [ended] ∧
      ended.result = .submitFrame 1 2 false ∧ q.heap[0]? = some core ∧ 2 ∉ core.leases := by
  let _ := firstTrackSha256
  have hrun := Session.runs_of_replay (Option.some_get isSome_cancelledSession).symm
  generalize hsession : cancelledSession.get isSome_cancelledSession = replayed at hrun
  have hnone : replayed.1.activity.isNone := by
    rw [← hsession]
    decide +kernel
  have hresults : (replayed.2.filterMap Session.Label.ended).map Ended.result =
      [.registerAcquireFrame frameRequest (some (2, frameRequest.context)),
        .submitFrame 1 2 false] := by
    rw [← hsession]
    decide +kernel
  obtain ⟨⟨q, activity⟩, labels⟩ := replayed
  obtain rfl := Option.isNone_iff_eq_none.mp hnone
  obtain ⟨first, rest, hlabels, hfirst, hrest⟩ := List.map_eq_cons_iff.mp hresults
  obtain ⟨last, nothing, rfl, hlast, hnothing⟩ := List.map_eq_cons_iff.mp hrest
  obtain rfl := List.map_eq_nil_iff.mp hnothing
  have hlabels : labels.filterMap Session.Label.ended = [first] ++ [last] := hlabels
  obtain ⟨core, -, hcore, hsettled⟩ := frames_leak_no_lease createdProcess_hosts hrun hlabels
  rw [hlast] at hsettled
  have houtstanding : Outstanding [first.result] 1 2 := by
    refine ⟨[], first.result, [], rfl, ?_, nofun⟩
    rw [hfirst]
    exact ⟨rfl, rfl⟩
  exact ⟨labels, q, [first], last, core, hrun, hlabels, hlast, hcore, hsettled houtstanding⟩

end Schedule

end StitchEditor.Desktop
