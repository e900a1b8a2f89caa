import Mathlib
import StitchEditor.Lib.Desk

/-!
# StitchEditor.Lib.Reopening

Desks of a process that dies and is started again.

What a process leaves behind is what the next one opens.  A process may die
while its worker is at a request, before or after the answer.

* `Site.plain_of_runs`, `Site.answered_of_runs` — the worker does what it does
  without a desk, one request after the other, and its clients hear of that;
* `Site.opening` — since it was last opened, a desk has run as desks do.
-/

namespace Desk

open Run

variable {σ δ κ Q R : Type}

/-- What is behind a desk: how a request is served, what is left where the
process dies over one or between two, and what opens it again. -/
structure Service (σ δ Q R : Type) where
  serve : σ → Q → R → σ → Prop
  dies : σ → Q → Option R → δ → Prop
  leaves : σ → δ
  opens : δ → σ → Prop

/-! ## without a desk -/

inductive Plain (σ δ : Type) where
  | up (s : σ)
  | down (rest : δ)

namespace Plain

inductive Label (κ Q R : Type) where
  | serve (client : κ) (q : Q) (r : R)
  | die (client : κ) (q : Q) (r : Option R)
  | leave
  | open

/-- The answer that a client is given. -/
def Label.served? : Label κ Q R → Option (κ × Q × R)
  | .serve client q r => some (client, q, r)
  | .die client q (some r) => some (client, q, r)
  | _ => none

/-- One request after the other, and the client that each is from. -/
inductive Step (service : Service σ δ Q R) : Plain σ δ → Label κ Q R → Plain σ δ → Prop where
  | serve {s s' : σ} {client : κ} {q : Q} {r : R} (hserve : service.serve s q r s') :
      Step service (.up s) (.serve client q r) (.up s')
  | die {s : σ} {rest : δ} {client : κ} {q : Q} {r : Option R} (hdies : service.dies s q r rest) :
      Step service (.up s) (.die client q r) (.down rest)
  | leave {s : σ} : Step service (.up s) .leave (.down (service.leaves s))
  | open {rest : δ} {s : σ} (hopens : service.opens rest s) :
      Step service (.down rest) .open (.up s)

end Plain

/-! ## with a desk -/

/-- A process with its desk, or what it left behind. -/
inductive Site (σ δ κ Q R : Type) where
  | up (d : State σ κ Q R)
  | down (rest : δ)

namespace Site

/-- `exit` for a process whose worker was stopped. -/
inductive Label (κ Q R : Type) where
  | desk (label : Desk.Label κ Q R)
  | die (client : κ) (q : Q) (r : Option R)
  | leave
  | exit
  | open

/-- The worker is not at a request. -/
def atRest : Worker σ κ Q R → Bool
  | .ready _ => true
  | _ => false

inductive Step [DecidableEq κ] (service : Service σ δ Q R) (capacity : Nat) :
    Site σ δ κ Q R → Label κ Q R → Site σ δ κ Q R → Prop where
  | desk {d d' : State σ κ Q R} {label : Desk.Label κ Q R}
      (hstep : Desk.Step service.serve capacity d label d') :
      Step service capacity (.up d) (.desk label) (.up d')
  | dieUnanswered {d : State σ κ Q R} {s : σ} {client : κ} {q : Q} {rest : δ}
      (hworker : d.worker = .busy s client q) (hdies : service.dies s q none rest) :
      Step service capacity (.up d) (.die client q none) (.down rest)
  | dieAnswered {d : State σ κ Q R} {s : σ} {client : κ} {q : Q} {r : R} {rest : δ}
      (hworker : d.worker = .replied s client q r) (hdies : service.dies s q (some r) rest) :
      Step service capacity (.up d) (.die client q (some r)) (.down rest)
  | leave {d : State σ κ Q R} (hworker : atRest d.worker) :
      Step service capacity (.up d) .leave (.down (service.leaves d.worker.state))
  | exit {d : State σ κ Q R} (hworker : d.worker.works = false) :
      Step service capacity (.up d) .exit (.down (service.leaves d.worker.state))
  | open {rest : δ} {s : σ} (hopens : service.opens rest s) :
      Step service capacity (.down rest) .open (.up (.fresh s))

/-- What shows of a step without the desk. -/
def Label.plain? : Label κ Q R → Option (Plain.Label κ Q R)
  | .desk (.finish client q r) => some (.serve client q r)
  | .desk .stop => some .leave
  | .die client q r => some (.die client q r)
  | .leave => some .leave
  | .open => some .open
  | _ => none

/-- The answer that a client is given. -/
def Label.answered? : Label κ Q R → Option (κ × Q × R)
  | .desk label => label.answered?
  | _ => none

/-- The answer that the worker has given and goes on with. -/
def replying : Site σ δ κ Q R → List (κ × Q × R)
  | .up d => d.worker.replying
  | .down _ => []

/-- What is there without the desk. -/
def plain (service : Service σ δ Q R) : Site σ δ κ Q R → Plain σ δ
  | .up d => if d.worker.works then .up d.worker.state else .down (service.leaves d.worker.state)
  | .down rest => .down rest

section Runs

variable [DecidableEq κ] {service : Service σ δ Q R} {capacity : Nat}
  {site site' : Site σ δ κ Q R} {label : Label κ Q R} {labels : List (Label κ Q R)} {rest : δ}

/-- **One step** shows as one without the desk, or not at all. -/
theorem plain_step (hstep : Step service capacity site label site') :
    Runs (Plain.Step service) (site.plain service) label.plain?.toList (site'.plain service) := by
  cases hstep with
  | desk hstep =>
      cases hstep with
      | finish hworker hserve =>
          simp only [Site.plain, Label.plain?, hworker, Worker.works, Worker.state, if_true]
          exact Runs.singleton_iff.mpr (.serve hserve)
      | stop hworker hqueue =>
          simp only [Site.plain, Label.plain?, hworker, Worker.works, Worker.state, if_true]
          exact Runs.singleton_iff.mpr .leave
      | take hworker _ | answer hworker _ =>
          simp only [Site.plain, Label.plain?, hworker, Worker.works, Worker.state]
          exact .nil
      | call | send | fetch | refuse | lose | close | sendStop | skipStop | join | rejoin =>
          exact .nil
  | dieUnanswered hworker hdies | dieAnswered hworker hdies =>
      simp only [Site.plain, Label.plain?, hworker, Worker.works, Worker.state, if_true]
      exact Runs.singleton_iff.mpr (.die hdies)
  | @leave d hworker =>
      have hworks : d.worker.works := by
        cases hstate : d.worker <;> simp_all [atRest, Worker.works]
      simp only [Site.plain, Label.plain?, hworks, if_true]
      exact Runs.singleton_iff.mpr .leave
  | exit hworker =>
      simp only [Site.plain, Label.plain?, hworker]
      exact .nil
  | «open» hopens => exact Runs.singleton_iff.mpr (.open hopens)

/-- **The worker** does what it does without a desk. -/
theorem plain_of_runs (hrun : Runs (Step service capacity) site labels site') :
    Runs (Plain.Step service) (site.plain service) (labels.filterMap Label.plain?)
      (site'.plain service) := by
  obtain ⟨plain, hplain, rfl⟩ := hrun.simulateVisible Label.plain?
    (R := fun site plain => plain = site.plain service) rfl fun hplain hstep => by
      subst hplain
      exact ⟨_, plain_step hstep, rfl⟩
  exact hplain

/-- **What the clients are told** is what the worker serves, in its order. -/
theorem answered_of_runs (hrun : Runs (Step service capacity) (.down rest) labels site) :
    labels.filterMap Label.answered? =
      (labels.filterMap Label.plain?).filterMap Plain.Label.served? ++ site.replying := by
  induction hrun with
  | nil => rfl
  | snoc _ hstep ih =>
      rw [filterMap_concat, filterMap_concat, List.filterMap_append, ih]
      cases hstep with
      | desk hstep =>
          cases hstep <;> simp_all [Label.answered?, Desk.Label.answered?, Label.plain?,
            Plain.Label.served?, replying, Worker.replying]
      | @leave d hworker | @exit d hworker =>
          cases hstate : d.worker <;> simp_all [Label.answered?, Label.plain?,
            Plain.Label.served?, replying, Worker.replying, atRest, Worker.works]
      | dieUnanswered hworker _ | dieAnswered hworker _ =>
          simp [Label.answered?, Label.plain?, Plain.Label.served?, replying, hworker,
            Worker.replying]
      | «open» _ =>
          simp [Label.answered?, Label.plain?, Plain.Label.served?, replying, State.fresh,
            Worker.replying]

theorem runs_desk {d d' : State σ κ Q R} {since : List (Desk.Label κ Q R)}
    (hrun : Runs (Desk.Step service.serve capacity) d since d') :
    Runs (Step service capacity) (.up d) (since.map .desk) (.up d') := by
  induction hrun with
  | nil => exact .nil
  | snoc _ hstep ih =>
      rw [List.map_append]
      exact ih.snoc (.desk hstep)

/-- Between two openings a desk runs as desks do. -/
theorem desk_of_runs {d : State σ κ Q R} {since : List (Desk.Label κ Q R)}
    (hrun : Runs (Step service capacity) (.up d) (since.map .desk) site) :
    ∃ d', site = .up d' ∧ Runs (Desk.Step service.serve capacity) d since d' := by
  induction since using List.reverseRecOn generalizing site with
  | nil =>
      rw [List.map_nil, Runs.nil_iff] at hrun
      exact ⟨d, hrun, .nil⟩
  | append_singleton since label ih =>
      rw [List.map_append, List.map_singleton, Runs.snoc_iff] at hrun
      obtain ⟨site', hrun, hstep⟩ := hrun
      obtain ⟨d', rfl, hdesk⟩ := ih hrun
      cases hstep with
      | desk hstep => exact ⟨_, rfl, .snoc hdesk hstep⟩

/-- **Since it was last opened** the desk has run as desks do. -/
theorem opening (hrun : Runs (Step service capacity) (.down rest) labels site) :
    ∀ d, site = .up d → ∃ s front since, labels = front ++ .open :: since.map .desk ∧
      Runs (Desk.Step service.serve capacity) (.fresh s) since d := by
  induction hrun with
  | nil =>
      intro d hd
      contradiction
  | @snoc labels site site' label hrun hstep ih =>
      intro d hd
      subst hd
      cases hstep with
      | desk hstep =>
          obtain ⟨s, front, since, rfl, hsince⟩ := ih _ rfl
          exact ⟨s, front, since ++ [_], by simp, .snoc hsince hstep⟩
      | «open» hopens => exact ⟨_, labels, [], rfl, .nil⟩

end Runs

end Site

end Desk
