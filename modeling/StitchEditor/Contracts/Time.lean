import Mathlib
import StitchEditor.Lib.Wire

/-!
# StitchEditor.Contracts.Time

Canonical time: `Rational`, a normalized `i64` fraction, and `TimeRange`, a
half-open range of them.

Both types have private fields in the source and are only built by their
checked constructors, so the invariants those establish are fields here: a
positive denominator coprime to the numerator, and a start before the stop.
The constructors work on `i128` values, which are `Int` in the model, and
narrow to `i64` at the end.
-/

namespace StitchEditor

inductive TimeError where
  | zeroDenominator
  | overflow
  | invalidRange
  | invalidUnit
  | nonMonotonicAdaptedTicks
  deriving DecidableEq, Repr

/-! ## rationals -/

/-- A checked, normalized rational value.  Zero is represented only as
`0/1`. -/
structure Rational where
  numerator : Int64
  denominator : Int64
  denominator_pos : 0 < denominator.toInt
  reduced : Int.gcd numerator.toInt denominator.toInt = 1
  deriving DecidableEq

/-- Euclid's loop on `u128` values. -/
def gcd (left right : Nat) : Nat :=
  if right = 0 then left else gcd right (left % right)
termination_by right
decreasing_by exact Nat.mod_lt _ (by omega)

theorem gcd_eq (left right : Nat) : gcd left right = Nat.gcd left right := by
  induction left, right using gcd.induct with
  | case1 left => rw [gcd, if_pos rfl, Nat.gcd_zero_right]
  | case2 left right hne ih =>
      rw [gcd, if_neg hne, ih, Nat.gcd_comm right, ← Nat.gcd_rec, Nat.gcd_comm]

/-- The values that `i64::try_from` accepts. -/
def FitsI64 (value : Int) : Prop := -2 ^ 63 ≤ value ∧ value < 2 ^ 63

instance (value : Int) : Decidable (FitsI64 value) := inferInstanceAs (Decidable (_ ∧ _))

theorem FitsI64.toInt_ofInt {value : Int} (h : FitsI64 value) :
    (Int64.ofInt value).toInt = value := Int64.toInt_ofInt_of_le h.1 h.2

theorem fitsI64_toInt (x : Int64) : FitsI64 x.toInt := ⟨x.le_toInt, x.toInt_lt⟩

/-- Divide out the common divisor and move the sign to the numerator. -/
def normalize (numerator denominator : Int) : Int × Int :=
  let divisor : Int := gcd numerator.natAbs denominator.natAbs
  let numerator := numerator.tdiv divisor
  let denominator := denominator.tdiv divisor
  if denominator < 0 then (-numerator, -denominator) else (numerator, denominator)

theorem normalize_of_neg {n d : Int} (h : d.tdiv (gcd n.natAbs d.natAbs : Nat) < 0) :
    normalize n d = (-n.tdiv (gcd n.natAbs d.natAbs : Nat),
      -d.tdiv (gcd n.natAbs d.natAbs : Nat)) := by
  rw [normalize]
  exact if_pos h

theorem normalize_of_not_neg {n d : Int} (h : ¬ d.tdiv (gcd n.natAbs d.natAbs : Nat) < 0) :
    normalize n d = (n.tdiv (gcd n.natAbs d.natAbs : Nat),
      d.tdiv (gcd n.natAbs d.natAbs : Nat)) := by
  rw [normalize]
  exact if_neg h

/-- Dividing by the common divisor is exact. -/
theorem tdiv_gcd_eq (n d : Int) :
    n.tdiv (gcd n.natAbs d.natAbs : Nat) = n / (Int.gcd n d : Int) ∧
      d.tdiv (gcd n.natAbs d.natAbs : Nat) = d / (Int.gcd n d : Int) := by
  rw [gcd_eq]
  exact ⟨Int.tdiv_eq_ediv_of_dvd (Int.gcd_dvd_left ..),
    Int.tdiv_eq_ediv_of_dvd (Int.gcd_dvd_right ..)⟩

theorem normalize_pos (n : Int) {d : Int} (hd : d ≠ 0) : 0 < (normalize n d).2 := by
  have hne : d / (Int.gcd n d : Int) ≠ 0 := by
    intro hzero
    exact hd (Int.eq_zero_of_ediv_eq_zero (Int.gcd_dvd_right ..) hzero)
  simp only [normalize, (tdiv_gcd_eq n d).1, (tdiv_gcd_eq n d).2]
  split
  · dsimp only; omega
  · dsimp only; omega

theorem normalize_reduced (n : Int) {d : Int} (hd : d ≠ 0) :
    Int.gcd (normalize n d).1 (normalize n d).2 = 1 := by
  have hpos : 0 < Int.gcd n d := Int.gcd_pos_of_ne_zero_right n hd
  have hone := Int.gcd_ediv_gcd_ediv_gcd hpos
  simp only [normalize, (tdiv_gcd_eq n d).1, (tdiv_gcd_eq n d).2]
  split
  · simpa using hone
  · exact hone

/-- A fraction in lowest terms with a positive denominator is left alone. -/
theorem normalize_of_reduced {n d : Int} (hd : 0 < d) (h : Int.gcd n d = 1) :
    normalize n d = (n, d) := by
  simp only [normalize, (tdiv_gcd_eq n d).1, (tdiv_gcd_eq n d).2, h]
  simp [Int.not_lt.mpr hd.le]

namespace Rational

/-- The one representation of zero. -/
def zero : Rational where
  numerator := 0
  denominator := 1
  denominator_pos := by decide
  reduced := by decide

/-- Normalizes before narrowing to the canonical `i64` fields. -/
def fromI128 (numerator denominator : Int) : Except TimeError Rational :=
  if hd : denominator = 0 then .error .zeroDenominator
  else if numerator = 0 then .ok zero
  -- `i128::try_from` of the `u128` divisor
  else if 2 ^ 127 ≤ gcd numerator.natAbs denominator.natAbs then .error .overflow
  else
    if hfits : FitsI64 (normalize numerator denominator).1 ∧
        FitsI64 (normalize numerator denominator).2 then
      .ok {
        numerator := Int64.ofInt (normalize numerator denominator).1
        denominator := Int64.ofInt (normalize numerator denominator).2
        denominator_pos := by
          rw [hfits.2.toInt_ofInt]
          exact normalize_pos numerator hd
        reduced := by
          rw [hfits.1.toInt_ofInt, hfits.2.toInt_ofInt]
          exact normalize_reduced numerator hd }
    else .error .overflow

/-- Creates a normalized rational without silently rounding or
overflowing. -/
def new (numerator denominator : Int64) : Except TimeError Rational :=
  fromI128 numerator.toInt denominator.toInt

theorem ext_iff' {q r : Rational} :
    q = r ↔ q.numerator = r.numerator ∧ q.denominator = r.denominator := by
  cases q; cases r; simp

/-- **Canonical fractions are kept**: `new` accepts a fraction in lowest
terms as it stands. -/
theorem new_self (q : Rational) : new q.numerator q.denominator = .ok q := by
  have hd : q.denominator.toInt ≠ 0 := q.denominator_pos.ne'
  have hnorm := normalize_of_reduced q.denominator_pos q.reduced
  rw [new, fromI128, dif_neg hd]
  by_cases hn : q.numerator.toInt = 0
  · have hone : q.denominator.toInt = 1 := by
      have h := q.reduced
      rw [hn, Int.gcd_zero_left] at h
      have := q.denominator_pos
      omega
    rw [if_pos hn, Except.ok.injEq, ext_iff']
    exact ⟨Int64.toInt_inj.mp hn.symm, Int64.toInt_inj.mp hone.symm⟩
  · have hgcd : ¬ 2 ^ 127 ≤ gcd q.numerator.toInt.natAbs q.denominator.toInt.natAbs := by
      have hone : gcd q.numerator.toInt.natAbs q.denominator.toInt.natAbs = 1 := by
        rw [gcd_eq]; exact q.reduced
      omega
    rw [if_neg hn, if_neg hgcd, dif_pos (by
      rw [hnorm]; exact ⟨fitsI64_toInt _, fitsI64_toInt _⟩), Except.ok.injEq, ext_iff']
    simp [hnorm]

/-- The stored fields survive `new` exactly when they already were in
lowest terms with a positive denominator. -/
theorem new_eq_iff {n d : Int64} {q : Rational} (h : new n d = .ok q) :
    (q.numerator = n ∧ q.denominator = d) ↔ 0 < d.toInt ∧ Int.gcd n.toInt d.toInt = 1 := by
  constructor
  · rintro ⟨rfl, rfl⟩
    exact ⟨q.denominator_pos, q.reduced⟩
  · rintro ⟨hpos, hred⟩
    rw [new_self ⟨n, d, hpos, hred⟩, Except.ok.injEq] at h
    subst h
    exact ⟨rfl, rfl⟩

/-- Cross-multiplied comparison in `i128`. -/
def cmp (self other : Rational) : Ordering :=
  compare (self.numerator.toInt * other.denominator.toInt)
    (other.numerator.toInt * self.denominator.toInt)

instance : LT Rational := ⟨fun a b => a.cmp b = .lt⟩
instance : LE Rational := ⟨fun a b => a.cmp b ≠ .gt⟩
instance (a b : Rational) : Decidable (a < b) := inferInstanceAs (Decidable (a.cmp b = .lt))
instance (a b : Rational) : Decidable (a ≤ b) := inferInstanceAs (Decidable (a.cmp b ≠ .gt))

theorem lt_iff {a b : Rational} : a < b ↔
    a.numerator.toInt * b.denominator.toInt < b.numerator.toInt * a.denominator.toInt :=
  Int.compare_eq_lt

theorem not_le {a b : Rational} : ¬ a ≤ b ↔ b < a := by
  have h : (a ≤ b) = (a.cmp b ≠ .gt) := rfl
  rw [h, not_not, lt_iff]
  exact Int.compare_eq_gt

/-- Big-endian canonical encoding. -/
def canonicalBytes (q : Rational) : List UInt8 :=
  Wire.putI64 q.numerator ++ Wire.putI64 q.denominator

end Rational

/-! ## half-open ranges -/

/-- A canonical half-open range; `stop` is the source's `end`. -/
structure TimeRange where
  start : Rational
  stop : Rational
  start_lt_stop : start < stop
  deriving DecidableEq

namespace TimeRange

/-- Constructs a nonempty half-open range. -/
def new (start stop : Rational) : Except TimeError TimeRange :=
  if h : stop ≤ start then .error .invalidRange
  else .ok ⟨start, stop, Rational.not_le.mp h⟩

theorem new_eq_ok_iff {start stop : Rational} {r : TimeRange} :
    new start stop = .ok r ↔ r.start = start ∧ r.stop = stop := by
  unfold new
  constructor
  · intro h
    split at h
    · cases h
    · cases h; exact ⟨rfl, rfl⟩
  · rintro ⟨rfl, rfl⟩
    rw [dif_neg (Rational.not_le.mpr r.start_lt_stop)]

def canonicalBytes (r : TimeRange) : List UInt8 :=
  r.start.canonicalBytes ++ r.stop.canonicalBytes

end TimeRange

end StitchEditor
