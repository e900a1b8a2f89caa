import Mathlib
import StitchEditor.Lib.Client

/-!
# StitchEditor.Lib.Room

Sessions that end before a counter runs over.

A service may depend on a counter of its state that grows by one with each
step at most.  A session that is short enough is then one of the service that
stops where there is no more room (`Session.runs_within`), and the atomicity of
that service is enough (`Service.Atomic.refines_of_few`).
-/

namespace Client

open Run

variable {σ τ Q R E Op α : Type}

/-- The service, as long as its state has room. -/
def Service.within (service : Service σ Q R E) (Room : σ → Prop) [DecidablePred Room] :
    Service σ Q R E where
  begins s q := if Room s then service.begins s q else none
  advances s := if Room s then service.advances s else none
  interferes s e := if Room s then service.interferes s e else none

/-- Each step of the service adds at most one to the counter. -/
structure Service.Counts (service : Service σ Q R E) (counter : σ → Nat) : Prop where
  begins : ∀ {s q answer}, service.begins s q = some answer → counter answer.1 ≤ counter s + 1
  advances : ∀ {s answer}, service.advances s = some answer → counter answer.1 ≤ counter s + 1
  interferes : ∀ {s e s'}, service.interferes s e = some s' → counter s' ≤ counter s + 1

namespace Session

variable {service : Service σ Q R E} {program : Op → Program Q R α} {Room : σ → Prop}
  [DecidablePred Room] {counter : σ → Nat} {session session' : Session σ Q R α}
  {label : Label Op E Q R α}

theorem state_follow (log : List (Q × R)) (q : Q) (next : R → Program Q R α)
    (answer : σ × Option R) : (follow log q next answer).state = answer.1 := by
  obtain ⟨s, none | r⟩ := answer <;> rfl

theorem Step.within (h : session.Step service program label session') (hroom : Room session.state) :
    session.Step (service.within Room) program label session' := by
  simp only [Session.Step, Session.step, Service.within, if_pos hroom] at h ⊢
  exact h

theorem Step.counter_le (h : session.Step service program label session')
    (hcounts : service.Counts counter) : counter session'.state ≤ counter session.state + 1 := by
  obtain ⟨move, ended⟩ := label
  obtain ⟨s, activity⟩ := session
  cases move with
  | interfere e =>
      obtain ⟨s', hs', heq⟩ := Option.map_eq_some_iff.mp h
      cases heq
      exact hcounts.interferes hs'
  | start op =>
      cases activity with
      | none =>
          cases h
          exact Nat.le_succ _
      | some activity => cases h
  | run =>
      cases activity with
      | none => cases h
      | some activity =>
          obtain ⟨log, control⟩ := activity
          cases control with
          | ready rest =>
              cases rest with
              | done a =>
                  cases h
                  exact Nat.le_succ _
              | call q next =>
                  obtain ⟨answer, hanswer, heq⟩ := Option.map_eq_some_iff.mp h
                  cases heq
                  rw [state_follow]
                  exact hcounts.begins hanswer
          | waiting q next =>
              obtain ⟨answer, hanswer, heq⟩ := Option.map_eq_some_iff.mp h
              cases heq
              rw [state_follow]
              exact hcounts.advances hanswer

/-- **A short session** never runs out of room. -/
theorem runs_within {s : σ} {labels : List (Label Op E Q R α)} {bound : Nat}
    (hcounts : service.Counts counter) (hroom : ∀ s, counter s < bound → Room s)
    (hrun : Runs (Session.Step service program) ⟨s, none⟩ labels session)
    (hfew : counter s + labels.length ≤ bound) :
    Runs (Session.Step (service.within Room) program) ⟨s, none⟩ labels session ∧
      counter session.state ≤ counter s + labels.length := by
  induction hrun with
  | nil => exact ⟨.nil, Nat.le_refl _⟩
  | snoc _ hstep ih =>
      rw [List.length_append, List.length_singleton] at hfew ⊢
      obtain ⟨hrun, hle⟩ := ih (by omega)
      refine ⟨.snoc hrun (hstep.within (hroom _ (by omega))), ?_⟩
      have hstep := hstep.counter_le hcounts
      omega

end Session

/-- **Atomicity** of short sessions. -/
theorem Service.Atomic.refines_of_few {service : Service σ Q R E} {Room : σ → Prop}
    [DecidablePred Room] {serve : τ → Q → R → τ → Prop} {Idle : σ → τ → Prop}
    {Within : Q → σ → τ → Prop} {program : Op → Program Q R α} {counter : σ → Nat} {bound : Nat}
    (h : (service.within Room).Atomic serve Idle Within) (hcounts : service.Counts counter)
    (hroom : ∀ s, counter s < bound → Room s) {s : σ} {t : τ} (hidle : Idle s t)
    {labels : List (Session.Label Op E Q R α)} {session : Session σ Q R α}
    (hrun : Runs (Session.Step service program) ⟨s, none⟩ labels session)
    (hfew : counter s + labels.length ≤ bound) :
    ∃ t', Runs (Sequential serve program) t (labels.filterMap Session.Label.ended) t' ∧
      session.Follows serve Idle Within program t' :=
  h.refines hidle (Session.runs_within hcounts hroom hrun hfew).1

end Client
