import Mathlib
import StitchEditor.Lib.Run

/-!
# StitchEditor.Lib.Desk

A worker behind a bounded queue, and the clients that call it.

A client sends its request, as soon as there is room in the queue, and waits
for its own answer.  The worker takes one request after the other.  The owner
of the desk stops the worker with a message of its own; no call is under way
then, and none begins before it is done.

* `Sound.step` — what holds between any two steps;
* `orderly_of_runs` — requests are answered once each and in the order in which
  they were sent, each call hears of its own, and only a worker that was stopped
  refuses one;
* `refuses_of_joined` — what there is after the worker was stopped;
* `steps_le`, `settled_of_stuck` — nobody waits for ever.
-/

namespace Desk

open Run

/-! ## the desk -/

/-- Where a client is in its call. -/
inductive Place (Q R : Type) where
  | idle
  | sending (q : Q)
  | waiting (q : Q)
  | answered (q : Q) (r : R)

/-- The worker goes on with a request after it has answered it. -/
inductive Worker (σ κ Q R : Type) where
  | ready (s : σ)
  | busy (s : σ) (client : κ) (q : Q)
  | replied (s : σ) (client : κ) (q : Q) (r : R)
  | stopped (s : σ)

/-- Where the owner is when it stops the worker. -/
inductive Owner where
  | idle
  | closing
  | joining
  deriving DecidableEq

/-- The queue holds requests and the message to stop; `joined` once the worker
was stopped and waited for. -/
structure State (σ κ Q R : Type) where
  worker : Worker σ κ Q R
  queue : List (Option (κ × Q))
  place : κ → Place Q R
  owner : Owner
  joined : Bool

/-- A desk that was just opened. -/
def State.fresh {σ κ Q R : Type} (s : σ) : State σ κ Q R :=
  ⟨.ready s, [], fun _ => .idle, .idle, false⟩

inductive Label (κ Q R : Type) where
  | call (client : κ) (q : Q)
  | send (client : κ) (q : Q)
  | take
  | answer (client : κ) (q : Q) (r : R)
  | finish (client : κ) (q : Q) (r : R)
  | returns (client : κ) (r : Option R)
  | close
  | sendStop
  | stop
  | joins (ok : Bool)

variable {σ κ Q R : Type}

def Worker.state : Worker σ κ Q R → σ
  | .ready s => s
  | .busy s _ _ => s
  | .replied s _ _ _ => s
  | .stopped s => s

/-- The worker still receives. -/
def Worker.works : Worker σ κ Q R → Bool
  | .stopped _ => false
  | _ => true

section Step

variable [DecidableEq κ]

def State.move (d : State σ κ Q R) (client : κ) (place : Place Q R) : State σ κ Q R :=
  { d with place := Function.update d.place client place }

variable (serve : σ → Q → R → σ → Prop) (capacity : Nat)

/-- One step of a client, of the worker or of the owner. -/
inductive Step : State σ κ Q R → Label κ Q R → State σ κ Q R → Prop where
  | call {d : State σ κ Q R} {client : κ} {q : Q} (hplace : d.place client = .idle)
      (howner : d.owner = .idle) : Step d (.call client q) (d.move client (.sending q))
  | send {d : State σ κ Q R} {client : κ} {q : Q} (hplace : d.place client = .sending q)
      (hworks : d.worker.works) (hroom : d.queue.length < capacity) :
      Step d (.send client q)
        { d.move client (.waiting q) with queue := d.queue ++ [some (client, q)] }
  | take {d : State σ κ Q R} {s : σ} {client : κ} {q : Q} {queue : List (Option (κ × Q))}
      (hworker : d.worker = .ready s) (hqueue : d.queue = some (client, q) :: queue) :
      Step d .take { d with worker := .busy s client q, queue := queue }
  | answer {d : State σ κ Q R} {s s' : σ} {client : κ} {q : Q} {r : R}
      (hworker : d.worker = .busy s client q) (hserve : serve s q r s') :
      Step d (.answer client q r)
        { d.move client (.answered q r) with worker := .replied s client q r }
  | finish {d : State σ κ Q R} {s s' : σ} {client : κ} {q : Q} {r : R}
      (hworker : d.worker = .replied s client q r) (hserve : serve s q r s') :
      Step d (.finish client q r) { d with worker := .ready s' }
  | fetch {d : State σ κ Q R} {client : κ} {q : Q} {r : R}
      (hplace : d.place client = .answered q r) :
      Step d (.returns client (some r)) (d.move client .idle)
  | refuse {d : State σ κ Q R} {client : κ} {q : Q} (hplace : d.place client = .sending q)
      (hstopped : d.worker.works = false) : Step d (.returns client none) (d.move client .idle)
  | lose {d : State σ κ Q R} {client : κ} {q : Q} (hplace : d.place client = .waiting q)
      (hstopped : d.worker.works = false) : Step d (.returns client none) (d.move client .idle)
  | close {d : State σ κ Q R} (hplace : ∀ client, d.place client = .idle)
      (howner : d.owner = .idle) : Step d .close { d with owner := .closing }
  | sendStop {d : State σ κ Q R} (howner : d.owner = .closing) (hworks : d.worker.works)
      (hroom : d.queue.length < capacity) :
      Step d .sendStop { d with queue := d.queue ++ [none], owner := .joining }
  | skipStop {d : State σ κ Q R} (howner : d.owner = .closing)
      (hstopped : d.worker.works = false) : Step d .sendStop { d with owner := .joining }
  | stop {d : State σ κ Q R} {s : σ} {queue : List (Option (κ × Q))}
      (hworker : d.worker = .ready s) (hqueue : d.queue = none :: queue) :
      Step d .stop { d with worker := .stopped s, queue := [] }
  | join {d : State σ κ Q R} (howner : d.owner = .joining) (hjoined : d.joined = false)
      (hstopped : d.worker.works = false) :
      Step d (.joins true) { d with owner := .idle, joined := true }
  | rejoin {d : State σ κ Q R} (howner : d.owner = .joining) (hjoined : d.joined = true) :
      Step d (.joins false) { d with owner := .idle }

end Step

/-! ## what holds between two steps -/

/-- The request that the worker has taken and not answered. -/
def Worker.taken : Worker σ κ Q R → List (κ × Q)
  | .busy _ client q => [(client, q)]
  | _ => []

/-- The requests that were sent and not answered, in order. -/
def State.pending (d : State σ κ Q R) : List (κ × Q) := d.worker.taken ++ d.queue.filterMap id

/-- What holds between any two steps. -/
structure Sound (serve : σ → Q → R → σ → Prop) (d : State σ κ Q R) : Prop where
  waits : ∀ client q, d.place client = .waiting q ↔ (client, q) ∈ d.pending
  nodup : (d.pending.map Prod.fst).Nodup
  exclusive : d.owner ≠ .idle → ∀ client, d.place client = .idle
  stops : d.owner = .joining → d.worker.works → none ∈ d.queue
  joins : none ∈ d.queue → d.owner = .joining
  closed : d.worker.works = false → d.queue = [] ∧ (d.owner = .idle → d.joined)
  joined : d.joined → d.worker.works = false
  replied : ∀ s client q r, d.worker = .replied s client q r → ∃ s', serve s q r s'

theorem Sound.fresh (serve : σ → Q → R → σ → Prop) (s : σ) :
    Sound serve (.fresh s : State σ κ Q R) where
  waits := by simp [State.fresh, State.pending, Worker.taken]
  nodup := by simp [State.fresh, State.pending, Worker.taken]
  exclusive := by simp [State.fresh]
  stops := by simp [State.fresh]
  joins := by simp [State.fresh]
  closed := by simp [State.fresh, Worker.works]
  joined := by simp [State.fresh]
  replied := by simp [State.fresh]

section Steps

variable [DecidableEq κ] {serve : σ → Q → R → σ → Prop} {capacity : Nat} {d d' : State σ κ Q R}
  {label : Label κ Q R} {labels : List (Label κ Q R)} {client : κ} {place : Place Q R}

@[simp] theorem State.move_worker : (d.move client place).worker = d.worker := rfl

@[simp] theorem State.move_queue : (d.move client place).queue = d.queue := rfl

@[simp] theorem State.move_owner : (d.move client place).owner = d.owner := rfl

@[simp] theorem State.move_joined : (d.move client place).joined = d.joined := rfl

@[simp] theorem State.move_place :
    (d.move client place).place = Function.update d.place client place := rfl

@[simp] theorem State.move_pending : (d.move client place).pending = d.pending := rfl

omit [DecidableEq κ] in
theorem Sound.pending_eq_nil (h : Sound serve d) (hidle : ∀ client, d.place client = .idle) :
    d.pending = [] := by
  rw [List.eq_nil_iff_forall_not_mem]
  intro (client, q) hmem
  have hwaits := (h.waits client q).mpr hmem
  rw [hidle client] at hwaits
  contradiction

/-- A client moves that does not wait. -/
theorem Sound.move (h : Sound serve d) (hold : ∀ q, d.place client ≠ .waiting q)
    (hnew : ∀ q, place ≠ .waiting q) (hidle : d.owner ≠ .idle → place = .idle) :
    Sound serve (d.move client place) where
  waits other q := by
    have hwaits := h.waits other q
    by_cases hother : other = client
    · subst hother
      have hnot := mt hwaits.mpr (hold q)
      simp [hnot, hnew q]
    · simp [Function.update_of_ne hother, hwaits]
  nodup := h.nodup
  exclusive howner other := by
    by_cases hother : other = client
    · simp [hother, hidle howner]
    · simp [Function.update_of_ne hother, h.exclusive howner other]
  stops := h.stops
  joins := h.joins
  closed := h.closed
  joined := h.joined
  replied := h.replied

theorem Sound.send {q : Q} (h : Sound serve d) (hplace : d.place client = .sending q)
    (hworks : d.worker.works) :
    Sound serve { d.move client (.waiting q) with queue := d.queue ++ [some (client, q)] } := by
  have hpending : ({ d.move client (.waiting q) with
      queue := d.queue ++ [some (client, q)] } : State σ κ Q R).pending =
      d.pending ++ [(client, q)] := by
    simp [State.pending]
  have howner : d.owner = .idle := by
    by_contra howner
    have hidle := h.exclusive howner client
    rw [hplace] at hidle
    contradiction
  have hfresh : ∀ q', (client, q') ∉ d.pending := by
    intro q' hmem
    have hwaits := (h.waits client q').mpr hmem
    rw [hplace] at hwaits
    contradiction
  exact {
    waits := by
      intro other q'
      have hwaits := h.waits other q'
      rw [hpending]
      by_cases hother : other = client
      · subst hother
        have hnot := hfresh q'
        simp [hnot, eq_comm]
      · simp [hwaits, hother]
    nodup := by
      rw [hpending]
      simp only [List.map_append, List.nodup_append, h.nodup]
      grind
    exclusive := by simp [howner]
    stops := by simp [howner]
    joins := by simpa using h.joins
    closed := by simp [hworks]
    joined := h.joined
    replied := h.replied }

theorem Sound.answer {s s' : σ} {q : Q} {r : R} (h : Sound serve d)
    (hworker : d.worker = .busy s client q) (hserve : serve s q r s') :
    Sound serve { d.move client (.answered q r) with worker := .replied s client q r } := by
  have hpending : d.pending = (client, q) :: d.queue.filterMap id := by
    simp [State.pending, hworker, Worker.taken]
  have hnodup := h.nodup
  have hwaiting : d.place client = .waiting q := (h.waits client q).mpr (by simp [hpending])
  rw [hpending] at hnodup
  have howner : d.owner = .idle := by
    by_contra howner
    have hidle := h.exclusive howner client
    rw [hwaiting] at hidle
    contradiction
  exact {
    waits := by
      intro other q'
      have hwaits := h.waits other q'
      rw [hpending] at hwaits
      by_cases hother : other = client
      · subst hother
        have hgone : (other, q') ∉ d.queue.filterMap id := fun hmem =>
          (List.nodup_cons.mp hnodup).1 (List.mem_map.mpr ⟨_, hmem, rfl⟩)
        simpa [State.pending, Worker.taken] using hgone
      · simp [State.pending, Worker.taken, hwaits, hother]
    nodup := by
      simp [State.pending, Worker.taken] at hnodup ⊢
      exact hnodup.2
    exclusive := by simp [howner]
    stops := by simp [howner]
    joins := h.joins
    closed := by simp [Worker.works]
    joined := by
      intro hjoined
      have hstopped := h.joined hjoined
      simp [hworker, Worker.works] at hstopped
    replied := by
      intro s₁ client₁ q₁ r₁ hreplied
      simp only [Worker.replied.injEq] at hreplied
      grind }

/-- **One step.** -/
theorem Sound.step (h : Sound serve d) (hstep : Step serve capacity d label d') :
    Sound serve d' := by
  cases hstep with
  | call hplace howner => exact h.move (by simp [hplace]) (by simp) (by simp [howner])
  | send hplace hworks _ => exact h.send hplace hworks
  | @take s client q queue hworker hqueue =>
      have hpending : ({ d with worker := .busy s client q, queue := queue } :
          State σ κ Q R).pending =
          d.pending := by
        simp [State.pending, Worker.taken, hworker, hqueue]
      have hnone : none ∈ d.queue ↔ none ∈ queue := by simp [hqueue]
      exact {
        waits := by simpa [hpending] using h.waits
        nodup := by simpa [hpending] using h.nodup
        exclusive := h.exclusive
        stops := fun howner _ => hnone.mp (h.stops howner (by simp [hworker, Worker.works]))
        joins := fun hmem => h.joins (hnone.mpr hmem)
        closed := by simp [Worker.works]
        joined := fun hjoined => by simpa [hworker, Worker.works] using h.joined hjoined
        replied := by simp }
  | answer hworker hserve => exact h.answer hworker hserve
  | @finish s s' client q r hworker _ =>
      have hpending : ({ d with worker := .ready s' } : State σ κ Q R).pending = d.pending := by
        simp [State.pending, Worker.taken, hworker]
      exact {
        waits := by simpa [hpending] using h.waits
        nodup := by simpa [hpending] using h.nodup
        exclusive := h.exclusive
        stops := fun howner _ => h.stops howner (by simp [hworker, Worker.works])
        joins := h.joins
        closed := by simp [Worker.works]
        joined := fun hjoined => by simpa [hworker, Worker.works] using h.joined hjoined
        replied := by simp }
  | fetch hplace => exact h.move (by simp [hplace]) (by simp) (by simp)
  | refuse hplace _ => exact h.move (by simp [hplace]) (by simp) (by simp)
  | lose hplace hstopped =>
      have hmem := (h.waits _ _).mp hplace
      obtain ⟨hqueue, -⟩ := h.closed hstopped
      rw [State.pending, hqueue] at hmem
      cases hworker : d.worker <;> simp_all [Worker.taken, Worker.works]
  | close hplace howner =>
      exact { h with
        exclusive := fun _ => hplace
        stops := by simp
        joins := fun hmem => by simpa [howner] using h.joins hmem
        closed := fun hstopped => ⟨(h.closed hstopped).1, by simp⟩ }
  | sendStop howner hworks _ =>
      have hpending : ({ d with queue := d.queue ++ [none], owner := .joining } :
          State σ κ Q R).pending = d.pending := by
        simp [State.pending]
      exact {
        waits := by simpa [hpending] using h.waits
        nodup := by simpa [hpending] using h.nodup
        exclusive := fun _ => h.exclusive (by simp [howner])
        stops := by simp
        joins := by simp
        closed := by simp [hworks]
        joined := h.joined
        replied := h.replied }
  | skipStop howner hstopped =>
      exact { h with
        exclusive := fun _ => h.exclusive (by simp [howner])
        stops := by simp [hstopped]
        joins := by simp
        closed := fun _ => ⟨(h.closed hstopped).1, by simp⟩ }
  | @stop s queue hworker hqueue =>
      have howner := h.joins (by simp [hqueue])
      have hidle := h.exclusive (by simp [howner])
      exact {
        waits := by simp [hidle, State.pending, Worker.taken]
        nodup := by simp [State.pending, Worker.taken]
        exclusive := fun _ => hidle
        stops := by simp [Worker.works]
        joins := by simp
        closed := by simp [howner]
        joined := by simp [Worker.works]
        replied := by simp }
  | join howner _ hstopped =>
      exact { h with
        exclusive := by simp
        stops := by simp
        joins := fun hmem => by simp [(h.closed hstopped).1] at hmem
        closed := fun _ => ⟨(h.closed hstopped).1, by simp⟩
        joined := fun _ => hstopped }
  | rejoin howner hjoined =>
      have hstopped := h.joined hjoined
      exact { h with
        exclusive := by simp
        stops := by simp
        joins := fun hmem => by simp [(h.closed hstopped).1] at hmem
        closed := fun _ => ⟨(h.closed hstopped).1, fun _ => hjoined⟩ }

theorem Sound.run (h : Sound serve d) (hrun : Runs (Step serve capacity) d labels d') :
    Sound serve d' := hrun.invariant h Sound.step

omit [DecidableEq κ] in
/-- Where a client is under way, the owner is not. -/
theorem Sound.owner_eq (h : Sound serve d) (hplace : d.place client ≠ .idle) :
    d.owner = .idle := by
  by_contra howner
  exact hplace (h.exclusive howner client)

omit [DecidableEq κ] in
/-- A client that waits is not lost. -/
theorem Sound.works_of_waiting {q : Q} (h : Sound serve d) (hplace : d.place client = .waiting q) :
    d.worker.works := by
  by_contra hstopped
  have hmem := (h.waits client q).mp hplace
  rw [State.pending, (h.closed (by simpa using hstopped)).1] at hmem
  cases hworker : d.worker <;> simp_all [Worker.taken, Worker.works]

end Steps

/-! ## what the clients see -/

/-- What a client does, and the answer that it is given. -/
inductive Event (Q R : Type) where
  | call (q : Q)
  | answer (q : Q) (r : R)
  | returns (r : Option R)

/-- A client calls, is answered and takes the answer, or is refused; what the
last call asks and was answered, where it has not returned. -/
inductive Talk : List (Event Q R) → Option (Q × Option R) → Prop where
  | nil : Talk [] none
  | call {events : List (Event Q R)} {q : Q} (h : Talk events none) :
      Talk (events ++ [.call q]) (some (q, none))
  | answer {events : List (Event Q R)} {q : Q} {r : R} (h : Talk events (some (q, none))) :
      Talk (events ++ [.answer q r]) (some (q, some r))
  | returns {events : List (Event Q R)} {q : Q} {r : R} (h : Talk events (some (q, some r))) :
      Talk (events ++ [.returns (some r)]) none
  | refused {events : List (Event Q R)} {q : Q} (h : Talk events (some (q, none))) :
      Talk (events ++ [.returns none]) none

def Place.standing : Place Q R → Option (Q × Option R)
  | .idle => none
  | .sending q => some (q, none)
  | .waiting q => some (q, none)
  | .answered q r => some (q, some r)

def Label.event? [DecidableEq κ] (client : κ) : Label κ Q R → Option (Event Q R)
  | .call other q => if other = client then some (.call q) else none
  | .answer other q r => if other = client then some (.answer q r) else none
  | .returns other r => if other = client then some (.returns r) else none
  | _ => none

def Label.sent? : Label κ Q R → Option (κ × Q)
  | .send client q => some (client, q)
  | _ => none

def Label.answered? : Label κ Q R → Option (κ × Q × R)
  | .answer client q r => some (client, q, r)
  | _ => none

/-- The request that the worker has answered and goes on with. -/
def Worker.replying : Worker σ κ Q R → List (κ × Q × R)
  | .replied _ client q r => [(client, q, r)]
  | _ => []

/-- Requests are answered once each and in their order, each client hears of its
own, and only a worker that was stopped refuses one. -/
structure Orderly [DecidableEq κ] (labels : List (Label κ Q R)) (d : State σ κ Q R) : Prop where
  sent : labels.filterMap Label.sent? =
    (labels.filterMap Label.answered?).map (fun answered => (answered.1, answered.2.1)) ++ d.pending
  talks : ∀ client, Talk (labels.filterMap (Label.event? client)) (d.place client).standing
  joined : d.joined → .joins true ∈ labels
  refused : ∀ client, .returns client none ∈ labels → .joins true ∈ labels

section Seeing

variable [DecidableEq κ] {serve : σ → Q → R → σ → Prop} {capacity : Nat} {d d' : State σ κ Q R}
  {label : Label κ Q R} {labels : List (Label κ Q R)} {client : κ} {s : σ}

/-- One step of a talk. -/
theorem talk_step {events : List (Event Q R)} (h : Talk events (d.place client).standing)
    (hsound : Sound serve d) (hstep : Step serve capacity d label d') :
    Talk (events ++ (label.event? client).toList) (d'.place client).standing := by
  cases hstep with
  | @call other q hplace _ =>
      by_cases hother : other = client
      · subst hother
        rw [hplace] at h
        simpa [Label.event?, Place.standing] using h.call
      · simpa [Label.event?, hother, Function.update_of_ne (Ne.symm hother)] using h
  | @send other q hplace _ _ =>
      by_cases hother : other = client
      · subst hother
        rw [hplace] at h
        simpa [Label.event?, Place.standing] using h
      · simpa [Label.event?, hother, Function.update_of_ne (Ne.symm hother)] using h
  | @answer s s' other q r hworker _ =>
      by_cases hother : other = client
      · subst hother
        have hplace := (hsound.waits other q).mpr (by simp [State.pending, hworker, Worker.taken])
        rw [hplace] at h
        simpa [Label.event?, Place.standing] using h.answer
      · simpa [Label.event?, hother, Function.update_of_ne (Ne.symm hother)] using h
  | @fetch other q r hplace =>
      by_cases hother : other = client
      · subst hother
        rw [hplace] at h
        simpa [Label.event?, Place.standing] using h.returns
      · simpa [Label.event?, hother, Function.update_of_ne (Ne.symm hother)] using h
  | @refuse other q hplace _ | @lose other q hplace _ =>
      by_cases hother : other = client
      · subst hother
        rw [hplace] at h
        simpa [Label.event?, Place.standing] using h.refused
      · simpa [Label.event?, hother, Function.update_of_ne (Ne.symm hother)] using h
  | take | finish | close | sendStop | skipStop | stop | join | rejoin =>
      simpa [Label.event?] using h

theorem Orderly.fresh (s : σ) : Orderly [] (.fresh s : State σ κ Q R) where
  sent := by simp [State.fresh, State.pending, Worker.taken]
  talks _ := .nil
  joined := by simp [State.fresh]
  refused := by simp

/-- The requests that were sent, one step later. -/
theorem sent_step (hsound : Sound serve d) (hstep : Step serve capacity d label d')
    {sent answered : List (κ × Q)} (h : sent = answered ++ d.pending) :
    sent ++ label.sent?.toList =
      answered ++ (label.answered?.toList.map fun answered => (answered.1, answered.2.1)) ++
        d'.pending := by
  subst h
  cases hstep with
  | send _ _ _ => simp [Label.sent?, Label.answered?, State.pending]
  | take hworker hqueue | answer hworker _ | finish hworker _ =>
      simp_all [Label.sent?, Label.answered?, State.pending, Worker.taken]
  | stop hworker hqueue =>
      have howner := hsound.joins (by simp [hqueue])
      have hpending := hsound.pending_eq_nil (hsound.exclusive (by simp [howner]))
      rw [hpending]
      simp [Label.sent?, Label.answered?, State.pending, Worker.taken]
  | call | fetch | refuse | lose | close | sendStop | skipStop | join | rejoin =>
      simp [Label.sent?, Label.answered?, State.pending]

omit [DecidableEq κ] in
theorem filterMap_concat {α β : Type} (f : α → Option β) (l : List α) (a : α) :
    (l ++ [a]).filterMap f = l.filterMap f ++ (f a).toList := by
  cases h : f a <;> simp [h]

theorem Orderly.step (h : Orderly labels d) (hsound : Sound serve d)
    (hstep : Step serve capacity d label d') : Orderly (labels ++ [label]) d' where
  sent := by
    rw [filterMap_concat, filterMap_concat, List.map_append]
    exact sent_step hsound hstep h.sent
  talks client := by
    rw [filterMap_concat]
    exact talk_step (h.talks client) hsound hstep
  joined := by
    have hjoined := h.joined
    cases hstep <;> simp_all
  refused client hmem := by
    rw [List.mem_append, List.mem_singleton] at hmem ⊢
    obtain hmem | rfl := hmem
    · exact .inl (h.refused client hmem)
    · left
      cases hstep with
      | refuse hplace hstopped =>
          have hmoving : d.place client ≠ .idle := by simp [hplace]
          have howner := hsound.owner_eq hmoving
          exact h.joined ((hsound.closed hstopped).2 howner)
      | lose hplace hstopped =>
          have hworks := hsound.works_of_waiting hplace
          simp [hworks] at hstopped

/-- **Requests are answered in order**, each to its own client. -/
theorem orderly_of_runs (hrun : Runs (Step serve capacity) (.fresh s) labels d) :
    Orderly labels d := by
  induction hrun with
  | nil => exact .fresh s
  | snoc hrun hstep ih => exact ih.step ((Sound.fresh serve s).run hrun) hstep

/-! ### after the worker was stopped -/

/-- What there still is after the worker was stopped. -/
def Label.refuses : Label κ Q R → Bool
  | .call _ _ => true
  | .returns _ none => true
  | .close => true
  | .sendStop => true
  | .joins ok => !ok
  | _ => false

/-- The worker was stopped and waited for. -/
structure State.Closed (d : State σ κ Q R) : Prop where
  joined : d.joined
  unheard : ∀ client, (∀ q, d.place client ≠ .waiting q) ∧ ∀ q r, d.place client ≠ .answered q r

theorem State.Closed.move (h : d.Closed) {place : Place Q R} (hwaiting : ∀ q, place ≠ .waiting q)
    (hanswered : ∀ q r, place ≠ .answered q r) : (d.move client place).Closed where
  joined := h.joined
  unheard other := by
    by_cases hother : other = client
    · simp [hother, hwaiting, hanswered]
    · simpa [Function.update_of_ne hother] using h.unheard other

theorem State.Closed.step (h : d.Closed) (hsound : Sound serve d)
    (hstep : Step serve capacity d label d') :
    d'.Closed ∧ d'.worker = d.worker ∧ label.refuses := by
  have hstopped := hsound.joined h.joined
  cases hstep with
  | call _ _ | refuse _ _ => exact ⟨h.move (by simp) (by simp), rfl, rfl⟩
  | send _ hworks _ | sendStop _ hworks _ => simp [hstopped] at hworks
  | take hworker _ | answer hworker _ | finish hworker _ | stop hworker _ =>
      simp [hworker, Worker.works] at hstopped
  | fetch hplace => exact absurd hplace ((h.unheard _).2 _ _)
  | lose hplace _ => exact absurd hplace ((h.unheard _).1 _)
  | close _ _ | skipStop _ _ | rejoin _ _ => exact ⟨⟨h.joined, h.unheard⟩, rfl, rfl⟩
  | join _ hjoined _ => simp [h.joined] at hjoined

theorem State.Closed.run (h : d.Closed) (hsound : Sound serve d)
    (hrun : Runs (Step serve capacity) d labels d') :
    d'.Closed ∧ d'.worker = d.worker ∧ ∀ label ∈ labels, label.refuses := by
  induction hrun with
  | nil => exact ⟨h, rfl, by simp⟩
  | snoc hrun hstep ih =>
      obtain ⟨hclosed, hworker, hlabels⟩ := ih
      obtain ⟨hclosed', hworker', hlabel⟩ := hclosed.step (hsound.run hrun) hstep
      refine ⟨hclosed', hworker'.trans hworker, ?_⟩
      simpa [or_imp, forall_and] using ⟨hlabels, hlabel⟩

/-- **After the worker was stopped** calls are refused, and only they: it has
answered all that was sent. -/
theorem refuses_of_joined {before after : List (Label κ Q R)}
    (hrun : Runs (Step serve capacity) (.fresh s) (before ++ .joins true :: after) d) :
    (∀ label ∈ after, label.refuses) ∧
      before.filterMap Label.sent? =
        (before.filterMap Label.answered?).map fun answered => (answered.1, answered.2.1) := by
  obtain ⟨d₀, hbefore, hrest⟩ := Runs.append_iff.mp hrun
  obtain ⟨d₁, hjoin, hafter⟩ := Runs.cons_iff.mp hrest
  have hsound := (Sound.fresh serve s).run hbefore
  have hsound₁ := hsound.step hjoin
  have hsent := (orderly_of_runs hbefore).sent
  cases hjoin with
  | join howner _ hstopped =>
      have hidle := hsound.exclusive (by simp [howner])
      rw [hsound.pending_eq_nil hidle, List.append_nil] at hsent
      have hclosed : ({ d₀ with owner := .idle, joined := true } : State σ κ Q R).Closed :=
        ⟨rfl, fun client => by simp [hidle client]⟩
      exact ⟨(hclosed.run hsound₁ hafter).2.2, hsent⟩

end Seeing

/-! ## nobody waits for ever -/

/-- The steps between two calls are those of the desk itself. -/
def Label.internal : Label κ Q R → Bool
  | .call _ _ => false
  | .close => false
  | _ => true

def Label.caller? : Label κ Q R → Option κ
  | .call client _ => some client
  | _ => none

def Place.weight : Place Q R → Nat
  | .idle => 0
  | .sending _ => 5
  | .waiting _ => 1
  | .answered _ _ => 1

def Worker.weight : Worker σ κ Q R → Nat
  | .busy _ _ _ => 2
  | .replied _ _ _ _ => 1
  | _ => 0

def Owner.weight : Owner → Nat
  | .idle => 0
  | .closing => 5
  | .joining => 1

/-- The steps that are left, where the clients are those of the set. -/
def State.potential (d : State σ κ Q R) (clients : Finset κ) : Nat :=
  ∑ client ∈ clients, (d.place client).weight + 3 * d.queue.length + d.worker.weight +
    d.owner.weight

/-- Nothing is under way. -/
structure State.Settled (d : State σ κ Q R) : Prop where
  idle : ∀ client, d.place client = .idle
  owner : d.owner = .idle
  worker : d.worker.taken = [] ∧ d.worker.replying = []

section Progress

variable [DecidableEq κ] {serve : σ → Q → R → σ → Prop} {capacity : Nat} {d d' : State σ κ Q R}
  {label : Label κ Q R} {labels : List (Label κ Q R)} {clients : Finset κ} {client : κ} {s : σ}

theorem sum_move (d : State σ κ Q R) (hmem : client ∈ clients) (place : Place Q R) :
    ∑ other ∈ clients, ((d.move client place).place other).weight + (d.place client).weight =
      ∑ other ∈ clients, (d.place other).weight + place.weight := by
  rw [← Finset.add_sum_erase clients _ hmem, ← Finset.add_sum_erase clients (fun other =>
    (d.place other).weight) hmem]
  have hrest : ∑ other ∈ clients.erase client, ((d.move client place).place other).weight =
      ∑ other ∈ clients.erase client, (d.place other).weight := by
    refine Finset.sum_congr rfl fun other hother => ?_
    rw [State.move_place, Function.update_of_ne (Finset.ne_of_mem_erase hother)]
  rw [hrest, State.move_place, Function.update_self]
  omega

/-- The clients outside of the set stay away. -/
theorem idle_step (hidle : ∀ client ∉ clients, d.place client = .idle)
    (hcall : ∀ client q, label = .call client q → client ∈ clients)
    (hsound : Sound serve d) (hstep : Step serve capacity d label d') :
    ∀ client ∉ clients, d'.place client = .idle := by
  intro client hclient
  have hplace := hidle client hclient
  cases hstep with
  | @call other q _ _ =>
      have hne : client ≠ other := fun heq => hclient (heq ▸ hcall other q rfl)
      simp [Function.update_of_ne hne, hplace]
  | @send other _ hother _ _ =>
      have hne : client ≠ other := fun heq => by simp [heq, hother] at hplace
      simp [Function.update_of_ne hne, hplace]
  | @answer s s' other q r hworker _ =>
      have hother := (hsound.waits other q).mpr (by simp [State.pending, hworker, Worker.taken])
      have hne : client ≠ other := fun heq => by simp [heq, hother] at hplace
      simp [Function.update_of_ne hne, hplace]
  | fetch _ | refuse _ _ | lose _ _ => simp [Function.update_apply, hplace]
  | take | finish | close | sendStop | skipStop | stop | join | rejoin => exact hplace

/-- Each step of the desk uses one of the steps that are left, and a call adds
five. -/
theorem potential_step (hidle : ∀ client ∉ clients, d.place client = .idle)
    (hcall : ∀ client q, label = .call client q → client ∈ clients)
    (hsound : Sound serve d) (hstep : Step serve capacity d label d') :
    d'.potential clients + (if label.internal then 1 else 0) ≤
      d.potential clients + (if label.internal then 0 else 5) := by
  have hmem : ∀ client, d.place client ≠ .idle → client ∈ clients := fun client hplace => by
    by_contra hclient
    exact hplace (hidle client hclient)
  cases hstep with
  | @call client q hplace _ =>
      have hsum := sum_move d (hcall client q rfl) (.sending q)
      simp [State.potential, Label.internal, hplace, Place.weight] at hsum ⊢
      omega
  | @send client q hplace _ _ =>
      have hsum := sum_move d (hmem client (by simp [hplace])) (.waiting q)
      simp [State.potential, Label.internal, hplace, Place.weight] at hsum ⊢
      omega
  | take hworker hqueue =>
      simp [State.potential, Label.internal, hworker, hqueue, Worker.weight]
      omega
  | @answer s s' client q r hworker _ =>
      have hplace := (hsound.waits client q).mpr (by simp [State.pending, hworker, Worker.taken])
      have hsum := sum_move d (hmem client (by simp [hplace])) (.answered q r)
      simp [State.potential, Label.internal, hplace, hworker, Place.weight, Worker.weight] at hsum ⊢
      omega
  | finish hworker _ => simp [State.potential, Label.internal, hworker, Worker.weight]
  | @fetch client q r hplace =>
      have hsum := sum_move d (hmem client (by simp [hplace])) .idle
      simp [State.potential, Label.internal, hplace, Place.weight] at hsum ⊢
      omega
  | @refuse client q hplace _ | @lose client q hplace _ =>
      have hsum := sum_move d (hmem client (by simp [hplace])) .idle
      simp [State.potential, Label.internal, hplace, Place.weight] at hsum ⊢
      omega
  | close _ howner =>
      simp [State.potential, Label.internal, howner, Owner.weight]
  | sendStop howner _ _ =>
      simp [State.potential, Label.internal, howner, Owner.weight]
      omega
  | skipStop howner _ | join howner _ _ | rejoin howner _ =>
      simp [State.potential, Label.internal, howner, Owner.weight]
  | stop hworker hqueue => simp [State.potential, Label.internal, hworker, hqueue, Worker.weight]

/-- **A call takes five steps at most**, and so does a stop. -/
theorem steps_le (hrun : Runs (Step serve capacity) (.fresh s) labels d) :
    labels.countP Label.internal ≤ 5 * labels.countP (fun label => !label.internal) := by
  have hbound : ∀ clients : Finset κ, (∀ client q, .call client q ∈ labels → client ∈ clients) →
      (∀ client ∉ clients, d.place client = .idle) ∧
        labels.countP Label.internal + d.potential clients ≤
          5 * labels.countP (fun label => !label.internal) := by
    intro clients hcalls
    induction hrun with
    | nil => simp [State.fresh, State.potential, Place.weight, Worker.weight, Owner.weight]
    | @snoc labels d d' label hrun hstep ih =>
        have hsound := (Sound.fresh serve s).run hrun
        obtain ⟨hidle, hle⟩ := ih fun client q hmem => hcalls client q (List.mem_append_left _ hmem)
        have hcall : ∀ client q, label = .call client q → client ∈ clients := by
          rintro client q rfl
          exact hcalls client q (by simp)
        have hstep' := potential_step hidle hcall hsound hstep
        refine ⟨idle_step hidle hcall hsound hstep, ?_⟩
        rw [List.countP_append, List.countP_append, List.countP_singleton, List.countP_singleton]
        cases hinternal : label.internal <;> simp [hinternal] at hstep' ⊢ <;> omega
  have hcallers := (hbound (labels.filterMap Label.caller?).toFinset fun client q hmem => by
    rw [List.mem_toFinset, List.mem_filterMap]
    exact ⟨_, hmem, rfl⟩).2
  omega

/-- **Nobody is stuck**: where no step of the desk is possible, nothing is under
way. -/
theorem settled_of_stuck (hcapacity : 0 < capacity) (hserve : ∀ s q, ∃ r s', serve s q r s')
    (hsound : Sound serve d)
    (hstuck : ∀ label d', Step serve capacity d label d' → label.internal = false) : d.Settled := by
  have hrefutes : ∀ label d', Step serve capacity d label d' → label.internal → False := by
    intro label d' hstep hinternal
    simp [hstuck label d' hstep] at hinternal
  -- the worker has nothing to go on with, and the queue is empty
  have hrest : d.worker.taken = [] ∧ d.worker.replying = [] ∧ d.queue = [] := by
    cases hworker : d.worker with
    | ready s =>
        cases hqueue : d.queue with
        | nil => exact ⟨rfl, rfl, rfl⟩
        | cons message queue =>
            cases message with
            | none => exact (hrefutes _ _ (.stop hworker hqueue) rfl).elim
            | some request => exact (hrefutes _ _ (.take hworker hqueue) rfl).elim
    | busy s client q =>
        obtain ⟨r, s', hs'⟩ := hserve s q
        exact (hrefutes _ _ (.answer hworker hs') rfl).elim
    | replied s client q r =>
        obtain ⟨s', hs'⟩ := hsound.replied s client q r hworker
        exact (hrefutes _ _ (.finish hworker hs') rfl).elim
    | stopped s => exact ⟨rfl, rfl, (hsound.closed (by simp [hworker, Worker.works])).1⟩
  obtain ⟨htaken, hreplying, hqueue⟩ := hrest
  have hroom : d.queue.length < capacity := by simpa [hqueue] using hcapacity
  refine ⟨fun client => ?_, ?_, htaken, hreplying⟩
  · cases hplace : d.place client with
    | idle => rfl
    | sending q =>
        cases hworks : d.worker.works with
        | true => exact (hrefutes _ _ (.send hplace hworks hroom) rfl).elim
        | false => exact (hrefutes _ _ (.refuse hplace hworks) rfl).elim
    | waiting q =>
        have hmem := (hsound.waits client q).mp hplace
        simp [State.pending, htaken, hqueue] at hmem
    | answered q r => exact (hrefutes _ _ (.fetch hplace) rfl).elim
  · cases howner : d.owner with
    | idle => rfl
    | closing =>
        cases hworks : d.worker.works with
        | true => exact (hrefutes _ _ (.sendStop howner hworks hroom) rfl).elim
        | false => exact (hrefutes _ _ (.skipStop howner hworks) rfl).elim
    | joining =>
        cases hworks : d.worker.works with
        | true => simpa [hqueue] using hsound.stops howner hworks
        | false =>
            cases hjoined : d.joined with
            | true => exact (hrefutes _ _ (.rejoin howner hjoined) rfl).elim
            | false => exact (hrefutes _ _ (.join howner hjoined hworks) rfl).elim

end Progress

end Desk
