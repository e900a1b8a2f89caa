import Mathlib
import StitchEditor.Lib.Fallible

/-!
# StitchEditor.Lib.Cursor

A program logic for readers that walk a cursor over an input.

A reader is a `StateT` program over any state that has a remaining input
(`Cursor.rest`) and can be moved forward (`Cursor.advance`).  `Reads m S`
says *exactly* when it succeeds: `m` returns `a` just when the remaining
input starts with a string `bs` that `S` relates to `a`, and then it has
consumed `bs` and nothing else.  Because the statement is an equivalence,
one rule per way of building readers is enough for both directions of a
codec proof: that encodings are read back, and that nothing else is read.
`Fails m P` says with which errors it does not succeed.
-/

universe u

/-- A state that remembers what is left to read. -/
class Cursor (σ : Type u) (β : outParam (Type u)) where
  rest : σ → List β
  advance : σ → Nat → σ
  rest_advance : ∀ s n, rest (advance s n) = (rest s).drop n
  advance_zero : ∀ s, advance s 0 = s
  advance_advance : ∀ s m n, advance (advance s m) n = advance s (m + n)

namespace Cursor

attribute [simp] rest_advance advance_zero advance_advance

variable {σ β ε α γ δ : Type u} [Cursor σ β]

/-- `m` succeeds with `a` exactly on the inputs that start with a spelling
of `a`, and consumes that spelling. -/
def Reads (m : StateT σ (Except ε) α) (S : α → List β → Prop) : Prop :=
  ∀ s a s', m s = .ok (a, s') ↔ ∃ bs, S a bs ∧ bs <+: rest s ∧ s' = advance s bs.length

/-- A spelling relation may be replaced by an equivalent one. -/
theorem Reads.congr {m : StateT σ (Except ε) α} {S T : α → List β → Prop} (h : Reads m S)
    (hST : ∀ a bs, S a bs ↔ T a bs) : Reads m T := by
  intro s a s'
  rw [h s a s']
  simp only [hST]

theorem Reads.pure (a : α) :
    Reads (Pure.pure a : StateT σ (Except ε) α) fun b (bs : List β) => b = a ∧ bs = [] := by
  intro s b s'
  constructor
  · intro h
    cases h
    exact ⟨[], ⟨rfl, rfl⟩, List.nil_prefix, by simp⟩
  · rintro ⟨bs, ⟨rfl, rfl⟩, -, rfl⟩
    simp only [List.length_nil, advance_zero]
    rfl

theorem Reads.throw (e : ε) :
    Reads (MonadExcept.throw e : StateT σ (Except ε) α) fun _ (_ : List β) => False := by
  intro s a s'
  constructor
  · intro h; cases h
  · rintro ⟨bs, h, -⟩; exact h.elim

/-- One reader after another: the spellings concatenate. -/
theorem Reads.bind {m : StateT σ (Except ε) α} {f : α → StateT σ (Except ε) γ}
    {S : α → List β → Prop} {T : α → γ → List β → Prop} (hm : Reads m S)
    (hf : ∀ a, Reads (f a) (T a)) :
    Reads (m >>= f) fun c bs => ∃ a bs₁ bs₂, bs = bs₁ ++ bs₂ ∧ S a bs₁ ∧ T a c bs₂ := by
  intro s c s'
  have hrun : (m >>= f) s = (m s >>= fun p => f p.1 p.2) := rfl
  rw [hrun]
  constructor
  · intro h
    cases hms : m s with
    | error e => rw [hms] at h; cases h
    | ok p =>
        obtain ⟨a, t⟩ := p
        rw [hms] at h
        obtain ⟨bs₁, hS, hpre₁, rfl⟩ := (hm s a t).mp hms
        obtain ⟨bs₂, hT, hpre₂, rfl⟩ := (hf a _ c s').mp h
        obtain ⟨r₁, hr₁⟩ := hpre₁
        rw [rest_advance, ← hr₁, List.drop_left] at hpre₂
        refine ⟨bs₁ ++ bs₂, ⟨a, bs₁, bs₂, rfl, hS, hT⟩, ?_, by simp⟩
        rw [← hr₁]
        exact (List.prefix_append_right_inj bs₁).mpr hpre₂
  · rintro ⟨bs, ⟨a, bs₁, bs₂, rfl, hS, hT⟩, hpre, rfl⟩
    have hpre₁ : bs₁ <+: rest s := (List.prefix_append bs₁ bs₂).trans hpre
    have hpre₂ : bs₂ <+: rest (advance s bs₁.length) := by
      obtain ⟨r, hr⟩ := hpre
      rw [rest_advance, ← hr, List.append_assoc, List.drop_left]
      exact List.prefix_append bs₂ r
    have hms : m s = .ok (a, advance s bs₁.length) := (hm s a _).mpr ⟨bs₁, hS, hpre₁, rfl⟩
    rw [hms]
    refine (hf a _ c _).mpr ⟨bs₂, hT, hpre₂, by simp⟩

/-- A result that is only repackaged. -/
theorem Reads.map {m : StateT σ (Except ε) α} {S : α → List β → Prop} (hm : Reads m S)
    (f : α → γ) : Reads (m >>= fun a => Pure.pure (f a)) fun c bs => ∃ a, S a bs ∧ c = f a :=
  (hm.bind fun a => Reads.pure (f a)).congr fun c bs => by
    constructor
    · rintro ⟨a, bs₁, bs₂, rfl, hS, rfl, rfl⟩
      exact ⟨a, by simpa using hS, rfl⟩
    · rintro ⟨a, hS, rfl⟩
      exact ⟨a, bs, [], by simp, hS, rfl, rfl⟩

/-- A check that consumes nothing. -/
theorem Reads.ite (p : Prop) [Decidable p] {m n : StateT σ (Except ε) α}
    {S T : α → List β → Prop} (hm : Reads m S) (hn : Reads n T) :
    Reads (if p then m else n) fun a bs => (p ∧ S a bs) ∨ (¬ p ∧ T a bs) := by
  by_cases hp : p
  · simpa [hp] using hm
  · simpa [hp] using hn

/-! ## counted loops -/

/-- `for _ in 0..n { state = body(state)? }`. -/
def repeatM {m : Type u → Type*} [Monad m] (body : γ → m γ) : Nat → γ → m γ
  | 0, g => Pure.pure g
  | n + 1, g => body g >>= repeatM body n

/-- A loop whose body reads one record and folds it into an accumulator
reads that many records back to back. -/
theorem Reads.repeatM {body : γ → StateT σ (Except ε) γ} {put : δ → List β}
    {add : γ → δ → Option γ}
    (hbody : ∀ g, Reads (body g) fun g' bs => ∃ d, bs = put d ∧ add g d = some g') :
    ∀ (n : Nat) (g : γ), Reads (repeatM body n g) fun g' bs =>
      ∃ ds : List δ, ds.length = n ∧ bs = ds.flatMap put ∧ ds.foldlM add g = some g'
  | 0, g => (Reads.pure g).congr fun g' bs => by
      constructor
      · rintro ⟨rfl, rfl⟩
        exact ⟨[], rfl, rfl, rfl⟩
      · rintro ⟨ds, hlen, rfl, hfold⟩
        obtain rfl := List.length_eq_zero_iff.mp hlen
        exact ⟨by simpa using hfold.symm, rfl⟩
  | n + 1, g => ((hbody g).bind fun g₁ => Reads.repeatM hbody n g₁).congr fun g' bs => by
      constructor
      · rintro ⟨g₁, _, _, rfl, ⟨d, rfl, hadd⟩, ds, hlen, rfl, hfold⟩
        exact ⟨d :: ds, by simp [hlen], rfl, by simp [List.foldlM_cons, hadd, hfold]⟩
      · rintro ⟨ds, hlen, rfl, hfold⟩
        obtain ⟨d, ds, rfl⟩ := List.exists_cons_of_length_eq_add_one hlen
        rw [List.foldlM_cons, Option.bind_eq_bind, Option.bind_eq_some_iff] at hfold
        obtain ⟨g₁, hadd, hfold⟩ := hfold
        exact ⟨g₁, put d, ds.flatMap put, by simp, ⟨d, rfl, hadd⟩, ds, by simpa using hlen,
          rfl, hfold⟩

/-! ## failures -/

/-- Whatever there is to read, every error of the reader satisfies the
predicate. -/
def Fails (m : StateT σ (Except ε) α) (P : ε → Prop) : Prop := ∀ s, Fallible.Raises (m s) P

namespace Fails

variable {P : ε → Prop} {m : StateT σ (Except ε) α} {f : α → StateT σ (Except ε) γ}

omit [Cursor σ β] in
theorem pure (a : α) : Fails (Pure.pure a : StateT σ (Except ε) α) P :=
  fun _ => Fallible.Raises.ok _

omit [Cursor σ β] in
theorem throw {e : ε} (h : P e) : Fails (MonadExcept.throw e : StateT σ (Except ε) α) P :=
  fun _ => Fallible.Raises.error h

omit [Cursor σ β] in
theorem bind (hm : Fails m P) (hf : ∀ a, Fails (f a) P) : Fails (m >>= f) P :=
  fun s => (hm s).bind fun p _ => hf p.1 p.2

omit [Cursor σ β] in
theorem ite {c : Prop} [Decidable c] {n : StateT σ (Except ε) α} (hm : Fails m P)
    (hn : Fails n P) : Fails (if c then m else n) P := by
  split
  · exact hm
  · exact hn

omit [Cursor σ β] in
theorem repeatM {body : γ → StateT σ (Except ε) γ} (hbody : ∀ g, Fails (body g) P) :
    ∀ (n : Nat) (g : γ), Fails (Cursor.repeatM body n g) P
  | 0, g => pure g
  | n + 1, g => (hbody g).bind fun g' => repeatM hbody n g'

end Fails

end Cursor
