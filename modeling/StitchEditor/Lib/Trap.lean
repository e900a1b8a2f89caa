import Mathlib

/-!
# StitchEditor.Lib.Trap

Signed machine arithmetic that traps.

A value of a signed type lies between `-2 ^ n` and `2 ^ n`, where `n` is one
less than its bits.  A computation raises an error of its own, or traps: an
operation whose exact result does not fit ends it without any result.
-/

namespace Trap

/-- The values of a signed integer of `n + 1` bits. -/
def Fits (n : Nat) (x : Int) : Prop := -2 ^ n ≤ x ∧ x < 2 ^ n

instance (n : Nat) (x : Int) : Decidable (Fits n x) := inferInstanceAs (Decidable (_ ∧ _))

/-! ## ranges -/

namespace Fits

variable {m n : Nat} {x y : Int}

theorem mono (h : Fits m x) (hle : m ≤ n) : Fits n x := by
  have hpow : (2 : Int) ^ m ≤ 2 ^ n := pow_le_pow_right₀ (by decide) hle
  unfold Fits at h ⊢
  omega

theorem add (hx : Fits n x) (hy : Fits n y) : Fits (n + 1) (x + y) := by
  unfold Fits at hx hy ⊢
  rw [pow_succ]
  omega

theorem sub (hx : Fits n x) (hy : Fits n y) : Fits (n + 1) (x - y) := by
  unfold Fits at hx hy ⊢
  rw [pow_succ]
  omega

theorem natAbs_le (h : Fits n x) : (x.natAbs : Int) ≤ 2 ^ n := by
  unfold Fits at h
  omega

/-- A product of values of two types. -/
theorem mul (hx : Fits m x) (hy : Fits n y) : Fits (m + n + 1) (x * y) := by
  have hle : ((x * y).natAbs : Int) ≤ 2 ^ (m + n) := by
    rw [Int.natAbs_mul, Nat.cast_mul, pow_add]
    exact mul_le_mul hx.natAbs_le hy.natAbs_le (by positivity) (by positivity)
  have hpos : (0 : Int) < 2 ^ (m + n) := by positivity
  unfold Fits
  rw [pow_succ]
  omega

/-- A product with a positive factor has one bit less. -/
theorem mul_pos (hx : Fits m x) (hy : Fits n y) (hpos : 0 < y) : Fits (m + n) (x * y) := by
  have hlow : -2 ^ m * 2 ^ n ≤ x * y := by
    calc -2 ^ m * 2 ^ n ≤ -2 ^ m * y :=
          mul_le_mul_of_nonpos_left hy.2.le (neg_nonpos.mpr (by positivity))
      _ ≤ x * y := mul_le_mul_of_nonneg_right hx.1 hpos.le
  have hhigh : x * y < 2 ^ m * 2 ^ n := by
    calc x * y < 2 ^ m * y := mul_lt_mul_of_pos_right hx.2 hpos
      _ ≤ 2 ^ m * 2 ^ n := mul_le_mul_of_nonneg_left hy.2.le (by positivity)
  exact ⟨by rw [pow_add, ← neg_mul]; exact hlow, by rw [pow_add]; exact hhigh⟩

/-- Division towards zero by a positive value. -/
theorem tdiv (hx : Fits n x) (hy : 0 < y) : Fits n (x.tdiv y) := by
  have hle := Int.natAbs_tdiv_le_natAbs x y
  have hnonpos : x ≤ 0 → x.tdiv y ≤ 0 := by
    intro hneg
    have hquotient := Int.tdiv_nonneg (Int.neg_nonneg_of_nonpos hneg) hy.le
    rw [Int.neg_tdiv] at hquotient
    omega
  unfold Fits at hx ⊢
  omega

theorem ediv (hx : Fits n x) (hy : 0 < y) : Fits n (x / y) := by
  have hlow : -2 ^ n ≤ x / y := by
    refine Int.le_ediv_of_mul_le hy ?_
    have hpow : (0 : Int) ≤ 2 ^ n := by positivity
    nlinarith [hx.1]
  have hhigh : x / y < 2 ^ n := by
    refine Int.ediv_lt_of_lt_mul hy ?_
    have hpow : (0 : Int) < 2 ^ n := by positivity
    nlinarith [hx.2]
  exact ⟨hlow, hhigh⟩

theorem emod (hy : Fits n y) (hpos : 0 < y) : Fits n (x % y) := by
  have hnonneg := Int.emod_nonneg x hpos.ne'
  have hlt := Int.emod_lt_of_pos x hpos
  unfold Fits at hy ⊢
  omega

end Fits

/-! ## computations -/

/-- A computation that returns, raises an error, or traps. -/
abbrev Computation (ε : Type) := ExceptT ε Option

variable {ε α β : Type}

/-- A result without a trap. -/
def lift (result : Except ε α) : Computation ε α := ExceptT.mk (some result)

/-- An operation with its exact result. -/
def exactly (n : Nat) (x : Int) : Computation ε Int :=
  ExceptT.mk (if Fits n x then some (.ok x) else none)

def add (n : Nat) (x y : Int) : Computation ε Int := exactly n (x + y)

def sub (n : Nat) (x y : Int) : Computation ε Int := exactly n (x - y)

def mul (n : Nat) (x y : Int) : Computation ε Int := exactly n (x * y)

def neg (n : Nat) (x : Int) : Computation ε Int := exactly n (-x)

/-- Division towards zero; it traps for 0. -/
def div (n : Nat) (x y : Int) : Computation ε Int :=
  if y = 0 then ExceptT.mk none else exactly n (x.tdiv y)

/-- Euclidean division; it traps for 0. -/
def divEuclid (n : Nat) (x y : Int) : Computation ε Int :=
  if y = 0 then ExceptT.mk none else exactly n (x / y)

/-- The Euclidean remainder; it traps for 0, and where the quotient does. -/
def remEuclid (n : Nat) (x y : Int) : Computation ε Int :=
  if y = 0 then ExceptT.mk none
  else do
    let _ ← exactly n (x / y)
    exactly n (x % y)

variable {n : Nat} {x y : Int}

theorem lift_injective : Function.Injective (lift : Except ε α → Computation ε α) :=
  fun _ _ h => Option.some.inj h

@[simp] theorem lift_inj {r s : Except ε α} : lift r = lift s ↔ r = s := lift_injective.eq_iff

@[simp] theorem lift_ok_bind (a : α) (f : α → Computation ε β) : lift (.ok a) >>= f = f a := rfl

@[simp] theorem lift_error_bind (e : ε) (f : α → Computation ε β) :
    lift (.error e) >>= f = lift (.error e) := rfl

theorem pure_eq_lift (a : α) : (pure a : Computation ε α) = lift (.ok a) := rfl

/-- One computation after another returns when both do. -/
theorem bind_eq_ok_iff {c : Computation ε α} {f : α → Computation ε β} {b : β} :
    c >>= f = lift (.ok b) ↔ ∃ a, c = lift (.ok a) ∧ f a = lift (.ok b) := by
  constructor
  · match c with
    | none => intro h; cases h
    | some (.error e) => intro h; cases h
    | some (.ok a) => exact fun h => ⟨a, rfl, h⟩
  · rintro ⟨a, rfl, h⟩
    exact h

/-- One computation after another fails when the first does, or the second
after the first. -/
theorem bind_eq_error_iff {c : Computation ε α} {f : α → Computation ε β} {e : ε} :
    c >>= f = lift (.error e) ↔
      c = lift (.error e) ∨ ∃ a, c = lift (.ok a) ∧ f a = lift (.error e) := by
  constructor
  · match c with
    | none => intro h; cases h
    | some (.error e) => intro h; cases h; exact .inl rfl
    | some (.ok a) => exact fun h => .inr ⟨a, rfl, h⟩
  · rintro (rfl | ⟨a, rfl, h⟩)
    · rfl
    · exact h

/-- Renaming the error keeps the results. -/
theorem adapt_eq_ok_iff {ε' : Type} {c : Computation ε α} {f : ε → ε'} {a : α} :
    c.adapt f = lift (.ok a) ↔ c = lift (.ok a) := by
  constructor
  · match c with
    | none => intro h; cases h
    | some (.error e) => intro h; cases h
    | some (.ok b) => intro h; cases h; rfl
  · rintro rfl
    rfl

theorem exactly_of_fits (h : Fits n x) : (exactly n x : Computation ε Int) = lift (.ok x) := by
  rw [exactly, if_pos h, lift]

/-- A division has its exact result, or traps. -/
theorem div_cases (n : Nat) (x y : Int) :
    (div n x y : Computation ε Int) = ExceptT.mk none ∨
      (div n x y : Computation ε Int) = lift (.ok (x.tdiv y)) := by
  unfold div exactly lift
  split
  · exact .inl rfl
  · split
    · exact .inr rfl
    · exact .inl rfl

theorem neg_cases (n : Nat) (x : Int) :
    (neg n x : Computation ε Int) = ExceptT.mk none ∨
      (neg n x : Computation ε Int) = lift (.ok (-x)) := by
  unfold neg exactly lift
  split
  · exact .inr rfl
  · exact .inl rfl

theorem div_of_fits (hx : Fits n x) (hy : 0 < y) :
    (div n x y : Computation ε Int) = lift (.ok (x.tdiv y)) := by
  rw [div, if_neg hy.ne', exactly_of_fits (hx.tdiv hy)]

theorem divEuclid_of_fits (hx : Fits n x) (hy : 0 < y) :
    (divEuclid n x y : Computation ε Int) = lift (.ok (x / y)) := by
  rw [divEuclid, if_neg hy.ne', exactly_of_fits (hx.ediv hy)]

theorem remEuclid_of_fits (hx : Fits n x) (hy : Fits n y) (hpos : 0 < y) :
    (remEuclid n x y : Computation ε Int) = lift (.ok (x % y)) := by
  rw [remEuclid, if_neg hpos.ne', exactly_of_fits (hx.ediv hpos), lift_ok_bind,
    exactly_of_fits (hy.emod hpos)]

/-! ## loops -/

variable {γ : Type} {f : γ → α → Computation ε γ} {l : List α} {c d : γ}

theorem foldlM_concat_eq_ok_iff {a : α} : (l ++ [a]).foldlM f c = lift (.ok d) ↔
    ∃ b, l.foldlM f c = lift (.ok b) ∧ f b a = lift (.ok d) := by
  rw [List.foldlM_append, bind_eq_ok_iff]
  simp

/-- A loop of steps that do not trap does not trap. -/
theorem foldlM_total (hf : ∀ c a, ∃ result, f c a = lift result) :
    ∃ result, l.foldlM f c = lift result := by
  induction l generalizing c with
  | nil => exact ⟨.ok c, rfl⟩
  | cons a l ih =>
      rw [List.foldlM_cons]
      obtain ⟨result, h⟩ := hf c a
      cases result with
      | error e => exact ⟨.error e, by rw [h, lift_error_bind]⟩
      | ok b =>
          obtain ⟨rest, hrest⟩ := ih (c := b)
          exact ⟨rest, by rw [h, lift_ok_bind, hrest]⟩

/-- A loop fails at the first step that does. -/
theorem foldlM_eq_error_iff {e : ε} : l.foldlM f c = lift (.error e) ↔
    ∃ i a b, l[i]? = some a ∧ (l.take i).foldlM f c = lift (.ok b) ∧ f b a = lift (.error e) := by
  induction l generalizing c with
  | nil =>
      simp only [List.foldlM_nil, pure_eq_lift, lift_inj, reduceCtorEq, false_iff, not_exists]
      simp
  | cons a l ih =>
      rw [List.foldlM_cons, bind_eq_error_iff]
      constructor
      · rintro (h | ⟨b, hb, h⟩)
        · exact ⟨0, a, c, rfl, rfl, h⟩
        · obtain ⟨i, a', b', ha', hb', h⟩ := ih.mp h
          refine ⟨i + 1, a', b', by simpa using ha', ?_, h⟩
          rw [List.take_succ_cons, List.foldlM_cons, hb, lift_ok_bind, hb']
      · rintro ⟨i, a', b', ha', hb', h⟩
        cases i with
        | zero =>
            cases ha'
            cases hb'
            exact .inl h
        | succ i =>
            rw [List.take_succ_cons, List.foldlM_cons, bind_eq_ok_iff] at hb'
            obtain ⟨b, hb, hb'⟩ := hb'
            exact .inr ⟨b, hb, ih.mpr ⟨i, a', b', by simpa using ha', hb', h⟩⟩

end Trap
