import Mathlib
import StitchEditor.Lib.Run

/-!
# StitchEditor.Lib.Client

Clients of a shared service.

A client runs programs, one after the other, and a program calls the service
(`Program`).  The service works on a call in several steps, and others may
use it in between (`Service`).  What the client sees is yet as if every call
were answered at once, as long as the others leave alone what the calls are
about (`Service.Atomic`): each run of the client is then one without
interference (`Service.Atomic.refines`), where its programs are taken apart
call by call (`Program.Ensures`).
-/

namespace Client

open Run

variable {σ τ Q R E Op α β : Type}

/-! ## programs -/

/-- A program that calls a service and ends with a result. -/
inductive Program (Q R α : Type) where
  | done (a : α)
  | call (q : Q) (next : R → Program Q R α)

/-- A single call. -/
def invoke (q : Q) : Program Q R R := .call q .done

namespace Program

def bind (x : Program Q R α) (f : α → Program Q R β) : Program Q R β :=
  match x with
  | .done a => f a
  | .call q next => .call q fun r => (next r).bind f

instance : Monad (Program Q R) where
  pure := .done
  bind := bind

/-- A call that is answered at once. -/
inductive Step (serve : τ → Q → R → τ → Prop) :
    τ × Program Q R α → Q × R → τ × Program Q R α → Prop where
  | call {t t' : τ} {q : Q} {r : R} {next : R → Program Q R α} (h : serve t q r t') :
      Step serve (t, .call q next) (q, r) (t', next r)

/-- The program makes the calls of the log and ends with the result. -/
def Ends (serve : τ → Q → R → τ → Prop) (t : τ) (x : Program Q R α) (log : List (Q × R)) (a : α)
    (t' : τ) : Prop :=
  Runs (Step serve) (t, x) log (t', .done a)

/-- Whatever the answers, the program ends as `Post` says. -/
def Ensures (serve : τ → Q → R → τ → Prop) :
    Program Q R α → τ → (List (Q × R) → α → τ → Prop) → Prop
  | .done a, t, Post => Post [] a t
  | .call q next, t, Post =>
      ∀ r t', serve t q r t' → Ensures serve (next r) t' fun log => Post ((q, r) :: log)

namespace Ensures

variable {serve : τ → Q → R → τ → Prop} {x : Program Q R α} {f : α → Program Q R β} {t : τ}

theorem mono {Post Post' : List (Q × R) → α → τ → Prop} (h : Ensures serve x t Post)
    (himp : ∀ log a t', Post log a t' → Post' log a t') : Ensures serve x t Post' := by
  induction x generalizing t Post Post' with
  | done a => exact himp _ _ _ h
  | call q next ih =>
      intro r t' hserve
      exact ih r (h r t' hserve) fun log => himp _

theorem pure {Post : List (Q × R) → α → τ → Prop} {a : α} (h : Post [] a t) :
    Ensures serve (Pure.pure a : Program Q R α) t Post := h

/-- A call, and the rest of the program for each answer. -/
theorem invoke_bind {q : Q} {f : R → Program Q R β} {Post : List (Q × R) → β → τ → Prop}
    (h : ∀ r t', serve t q r t' → Ensures serve (f r) t' fun log => Post ((q, r) :: log)) :
    Ensures serve (invoke q >>= f) t Post := h

theorem bind {P : List (Q × R) → α → τ → Prop} {Post : List (Q × R) → β → τ → Prop}
    (hx : Ensures serve x t P)
    (hf : ∀ log a t', P log a t' → Ensures serve (f a) t' fun log' => Post (log ++ log')) :
    Ensures serve (x >>= f) t Post := by
  induction x generalizing t P Post with
  | done a => exact hf [] a t hx
  | call q next ih =>
      intro r t' hserve
      exact ih r (hx r t' hserve) fun log => hf _

/-- What a program ensures holds where it ends. -/
theorem post {Post : List (Q × R) → α → τ → Prop} (h : Ensures serve x t Post)
    {log : List (Q × R)} {a : α} {t' : τ} (hends : Ends serve t x log a t') : Post log a t' := by
  unfold Ends at hends
  induction x generalizing t log Post with
  | done b =>
      cases log with
      | nil =>
          cases Runs.nil_iff.mp hends
          exact h
      | cons _ log =>
          obtain ⟨_, hstep, -⟩ := Runs.cons_iff.mp hends
          cases hstep
  | call q next ih =>
      cases log with
      | nil => cases Runs.nil_iff.mp hends
      | cons _ log =>
          obtain ⟨_, hstep, hrest⟩ := Runs.cons_iff.mp hends
          cases hstep with
          | call hserve => exact ih _ (h _ _ hserve) hrest

end Ensures

end Program

/-! ## sessions -/

/-- A service: how it takes up a call of the client and goes on with it, with
the answer where it has one, and what others make of it. -/
structure Service (σ Q R E : Type) where
  begins : σ → Q → Option (σ × Option R)
  advances : σ → Option (σ × Option R)
  interferes : σ → E → Option σ

/-- A program is about to go on, or waits for an answer. -/
inductive Control (Q R α : Type) where
  | ready (rest : Program Q R α)
  | waiting (q : Q) (next : R → Program Q R α)

/-- A program that was started, with the calls that it has made. -/
structure Activity (Q R α : Type) where
  log : List (Q × R)
  control : Control Q R α

/-- A program that has ended, with the calls that it made. -/
structure Ended (Q R α : Type) where
  log : List (Q × R)
  result : α

/-- The service, and the program that the client is in. -/
structure Session (σ Q R α : Type) where
  state : σ
  activity : Option (Activity Q R α)

namespace Session

inductive Move (Op E : Type) where
  | start (op : Op)
  | run
  | interfere (e : E)

/-- A move, and the program that it ends. -/
structure Label (Op E Q R α : Type) where
  move : Move Op E
  ended : Option (Ended Q R α)

/-- Where a program stands after a step of its call. -/
def follow (log : List (Q × R)) (q : Q) (next : R → Program Q R α) :
    σ × Option R → Session σ Q R α
  | (s, none) => ⟨s, some ⟨log, .waiting q next⟩⟩
  | (s, some r) => ⟨s, some ⟨log ++ [(q, r)], .ready (next r)⟩⟩

section Step

variable (service : Service σ Q R E) (program : Op → Program Q R α)

/-- One step of the client or of the others; `none` where it cannot happen. -/
def step (self : Session σ Q R α) (move : Move Op E) :
    Option (Session σ Q R α × Option (Ended Q R α)) :=
  match move, self.activity with
  | .interfere e, activity => (service.interferes self.state e).map fun s => (⟨s, activity⟩, none)
  | .start op, none => some (⟨self.state, some ⟨[], .ready (program op)⟩⟩, none)
  | .start _, some _ => none
  | .run, none => none
  | .run, some ⟨log, .ready (.done a)⟩ => some (⟨self.state, none⟩, some ⟨log, a⟩)
  | .run, some ⟨log, .ready (.call q next)⟩ =>
      (service.begins self.state q).map fun answer => (follow log q next answer, none)
  | .run, some ⟨log, .waiting q next⟩ =>
      (service.advances self.state).map fun answer => (follow log q next answer, none)

def Step (session : Session σ Q R α) (label : Label Op E Q R α) (session' : Session σ Q R α) :
    Prop :=
  session.step service program label.move = some (session', label.ended)

/-! ### replaying a schedule -/

/-- A move, and the label that it leaves behind the others. -/
def replay (replayed : Session σ Q R α × List (Label Op E Q R α)) (move : Move Op E) :
    Option (Session σ Q R α × List (Label Op E Q R α)) :=
  (replayed.1.step service program move).map fun next =>
    (next.1, replayed.2 ++ [⟨move, next.2⟩])

variable {service program}

theorem runs_of_replay {session : Session σ Q R α} {moves : List (Move Op E)}
    {replayed : Session σ Q R α × List (Label Op E Q R α)}
    (h : moves.foldlM (replay service program) (session, []) = some replayed) :
    Runs (Step service program) session replayed.2 replayed.1 := by
  induction moves using List.reverseRecOn generalizing replayed with
  | nil =>
      cases h
      exact .nil
  | append_singleton moves move ih =>
      rw [List.foldlM_append, Option.bind_eq_bind, Option.bind_eq_some_iff] at h
      obtain ⟨before, hbefore, hlast⟩ := h
      simp only [List.foldlM_cons, List.foldlM_nil, bind_pure] at hlast
      obtain ⟨next, hnext, rfl⟩ := Option.map_eq_some_iff.mp hlast
      exact .snoc (ih hbefore) hnext

end Step

end Session

/-! ## atomicity -/

/-- A program of the client that runs without interference. -/
def Sequential (serve : τ → Q → R → τ → Prop) (program : Op → Program Q R α) (t : τ)
    (ended : Ended Q R α) (t' : τ) : Prop :=
  ∃ op, (program op).Ends serve t ended.log ended.result t'

/-- What every program keeps, with the programs that have ended so far, holds
at the end. -/
theorem Sequential.invariant {serve : τ → Q → R → τ → Prop} {program : Op → Program Q R α}
    {I : List (Ended Q R α) → τ → Prop} {t t' : τ} {history : List (Ended Q R α)}
    (hrun : Runs (Sequential serve program) t history t') (hstart : I [] t)
    (hstep : ∀ ⦃history t⦄ (op : Op), I history t →
      (program op).Ensures serve t fun log a t' => I (history ++ [⟨log, a⟩]) t') :
    I history t' := by
  induction hrun with
  | nil => exact hstart
  | snoc _ hends ih =>
      obtain ⟨op, hends⟩ := hends
      exact (hstep op ih).post hends

section Atomicity

variable (serve : τ → Q → R → τ → Prop) (Idle : σ → τ → Prop) (Within : Q → σ → τ → Prop)

/-- A step of a call answers it, or is still within it. -/
def Answers (q : Q) (t : τ) : σ × Option R → Prop
  | (s, none) => Within q s t
  | (s, some r) => ∃ t', serve t q r t' ∧ Idle s t'

/-- A service whose calls take effect with their answers, whatever the others
do: `Idle` and `Within` relate it to the one that answers at once, between
two calls and within one. -/
structure Service.Atomic (service : Service σ Q R E) : Prop where
  begins : ∀ {s t q answer}, Idle s t → service.begins s q = some answer →
    Answers serve Idle Within q t answer
  advances : ∀ {s t q answer}, Within q s t → service.advances s = some answer →
    Answers serve Idle Within q t answer
  idle_interferes : ∀ {s t e s'}, Idle s t → service.interferes s e = some s' → Idle s' t
  within_interferes : ∀ {s t q e s'}, Within q s t → service.interferes s e = some s' →
    Within q s' t

/-- The session stands where the program stands after its calls, if they had
been answered at once. -/
inductive Session.Follows (program : Op → Program Q R α) : Session σ Q R α → τ → Prop where
  | idle {s : σ} {t : τ} (h : Idle s t) : Follows program ⟨s, none⟩ t
  | ready {s : σ} {t u : τ} {op : Op} {log : List (Q × R)} {rest : Program Q R α}
      (hruns : Runs (Program.Step serve) (t, program op) log (u, rest)) (h : Idle s u) :
      Follows program ⟨s, some ⟨log, .ready rest⟩⟩ t
  | waiting {s : σ} {t u : τ} {op : Op} {log : List (Q × R)} {q : Q} {next : R → Program Q R α}
      (hruns : Runs (Program.Step serve) (t, program op) log (u, .call q next))
      (h : Within q s u) : Follows program ⟨s, some ⟨log, .waiting q next⟩⟩ t

variable {serve Idle Within} {service : Service σ Q R E} {program : Op → Program Q R α}

theorem Session.Follows.follow {t u : τ} {op : Op} {log : List (Q × R)} {q : Q}
    {next : R → Program Q R α} {answer : σ × Option R}
    (hruns : Runs (Program.Step serve) (t, program op) log (u, .call q next))
    (h : Answers serve Idle Within q u answer) :
    Session.Follows serve Idle Within program (Session.follow log q next answer) t := by
  obtain ⟨s, none | r⟩ := answer
  · exact .waiting hruns h
  · obtain ⟨u', hserve, hidle⟩ := h
    exact .ready (.snoc hruns (.call hserve)) hidle

/-- **One step** of a session: the program that it ends has run as if its
calls were answered at once. -/
theorem Service.Atomic.step (h : service.Atomic serve Idle Within)
    {session session' : Session σ Q R α} {label : Session.Label Op E Q R α} {t : τ}
    (hfollows : session.Follows serve Idle Within program t)
    (hstep : session.Step service program label session') :
    ∃ t', Runs (Sequential serve program) t label.ended.toList t' ∧
      session'.Follows serve Idle Within program t' := by
  obtain ⟨move, ended⟩ := label
  cases move with
  | interfere e =>
      obtain ⟨s', hs', heq⟩ := Option.map_eq_some_iff.mp hstep
      cases heq
      refine ⟨t, .nil, ?_⟩
      cases hfollows with
      | idle hidle => exact .idle (h.idle_interferes hidle hs')
      | ready hruns hidle => exact .ready hruns (h.idle_interferes hidle hs')
      | waiting hruns hwithin => exact .waiting hruns (h.within_interferes hwithin hs')
  | start op =>
      cases hfollows with
      | idle hidle =>
          cases hstep
          exact ⟨t, .nil, .ready .nil hidle⟩
      | ready _ _ | waiting _ _ => cases hstep
  | run =>
      cases hfollows with
      | idle _ => cases hstep
      | @ready s _ u op log rest hruns hidle =>
          cases rest with
          | done a =>
              cases hstep
              exact ⟨u, Runs.singleton_iff.mpr ⟨op, hruns⟩, .idle hidle⟩
          | call q next =>
              obtain ⟨answer, hanswer, heq⟩ := Option.map_eq_some_iff.mp hstep
              cases heq
              exact ⟨t, .nil, .follow hruns (h.begins hidle hanswer)⟩
      | waiting hruns hwithin =>
          obtain ⟨answer, hanswer, heq⟩ := Option.map_eq_some_iff.mp hstep
          cases heq
          exact ⟨t, .nil, .follow hruns (h.advances hwithin hanswer)⟩

/-- **Atomicity**: the programs of a session end as they would without
interference, one after the other. -/
theorem Service.Atomic.refines (h : service.Atomic serve Idle Within) {s : σ} {t : τ}
    (hidle : Idle s t) {labels : List (Session.Label Op E Q R α)} {session : Session σ Q R α}
    (hrun : Runs (Session.Step service program) ⟨s, none⟩ labels session) :
    ∃ t', Runs (Sequential serve program) t (labels.filterMap Session.Label.ended) t' ∧
      session.Follows serve Idle Within program t' :=
  hrun.simulateVisible Session.Label.ended (.idle hidle) h.step

end Atomicity

end Client
