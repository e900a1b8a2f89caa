import Mathlib
import StitchEditor.Lib.Trap
import StitchEditor.Contracts.Time

/-!
# StitchEditor.Contracts.Arithmetic

The checked arithmetic of `Rational`, in the `i128` operations of the code.

An operation of the code returns, raises a `TimeError`, or traps where an
`i128` operation overflows; it is compared with the exact rational result in
lowest terms.
-/

namespace StitchEditor

open Trap

namespace Rational

/-! ## the code -/

/-- `i64::try_from` of both fields.  Dividing out the divisor has made the
fraction canonical. -/
def narrow (numerator denominator : Int) : Computation TimeError Rational :=
  if h : (FitsI64 numerator ∧ FitsI64 denominator) ∧
      0 < denominator ∧ Int.gcd numerator denominator = 1 then
    pure {
      numerator := Int64.ofInt numerator
      denominator := Int64.ofInt denominator
      denominator_pos := by
        rw [h.1.2.toInt_ofInt]
        exact h.2.1
      reduced := by
        rw [h.1.1.toInt_ofInt, h.1.2.toInt_ofInt]
        exact h.2.2 }
  else throw .overflow

/-- `from_i128`, with its `i128` operations. -/
def fromI128Checked (numerator denominator : Int) : Computation TimeError Rational :=
  if denominator = 0 then throw .zeroDenominator
  else if numerator = 0 then pure zero
  else do
    let divisor : Int := gcd numerator.natAbs denominator.natAbs
    -- `i128::try_from` of the `u128` divisor
    if 2 ^ 127 ≤ divisor then throw .overflow
    let numerator ← div 127 numerator divisor
    let denominator ← div 127 denominator divisor
    if denominator < 0 then do
      let numerator ← neg 127 numerator
      let denominator ← neg 127 denominator
      narrow numerator denominator
    else narrow numerator denominator

def newChecked (numerator denominator : Int64) : Computation TimeError Rational :=
  fromI128Checked numerator.toInt denominator.toInt

def checkedAdd (self other : Rational) : Computation TimeError Rational := do
  let left ← mul 127 self.numerator.toInt other.denominator.toInt
  let right ← mul 127 other.numerator.toInt self.denominator.toInt
  let numerator ← add 127 left right
  let denominator ← mul 127 self.denominator.toInt other.denominator.toInt
  fromI128Checked numerator denominator

def checkedSub (self other : Rational) : Computation TimeError Rational := do
  let left ← mul 127 self.numerator.toInt other.denominator.toInt
  let right ← mul 127 other.numerator.toInt self.denominator.toInt
  let numerator ← sub 127 left right
  let denominator ← mul 127 self.denominator.toInt other.denominator.toInt
  fromI128Checked numerator denominator

def checkedMul (self other : Rational) : Computation TimeError Rational := do
  let numerator ← mul 127 self.numerator.toInt other.numerator.toInt
  let denominator ← mul 127 self.denominator.toInt other.denominator.toInt
  fromI128Checked numerator denominator

def checkedReciprocal (self : Rational) : Computation TimeError Rational :=
  newChecked self.denominator self.numerator

/-! ## no trap -/

variable {n d : Int}

theorem narrow_eq (hd : 0 < d) (hgcd : Int.gcd n d = 1) :
    narrow n d = lift (if h : FitsI64 n ∧ FitsI64 d then .ok {
      numerator := Int64.ofInt n
      denominator := Int64.ofInt d
      denominator_pos := by rw [h.2.toInt_ofInt]; exact hd
      reduced := by rw [h.1.toInt_ofInt, h.2.toInt_ofInt]; exact hgcd }
    else .error .overflow) := by
  unfold narrow
  by_cases h : FitsI64 n ∧ FitsI64 d
  · rw [dif_pos ⟨h, hd, hgcd⟩, dif_pos h]
    rfl
  · rw [dif_neg fun h' => h h'.1, dif_neg h]
    rfl

/-- The divisor of two numbers is below the bound on either. -/
theorem gcd_lt (hd : d ≠ 0) (hlow : -2 ^ 127 < d) (hhigh : d < 2 ^ 127) :
    gcd n.natAbs d.natAbs < 2 ^ 127 := by
  rw [gcd_eq]
  refine Nat.lt_of_le_of_lt (Nat.gcd_le_right _ (Int.natAbs_pos.mpr hd)) ?_
  omega

/-- **The `i128` operations do not overflow**, below the smallest value of
the type. -/
theorem fromI128Checked_eq (hn : Fits 127 n) (hd : Fits 127 d) (hlow : -2 ^ 127 < d)
    (hneg : d < 0 → -2 ^ 127 < n) : fromI128Checked n d = lift (fromI128 n d) := by
  unfold fromI128Checked fromI128
  by_cases hd0 : d = 0
  · rw [if_pos hd0, dif_pos hd0]
    rfl
  rw [if_neg hd0, dif_neg hd0]
  by_cases hn0 : n = 0
  · rw [if_pos hn0, if_pos hn0]
    rfl
  rw [if_neg hn0, if_neg hn0]
  have hgcd := gcd_lt (n := n) hd0 hlow hd.2
  have hpos : (0 : Int) < (gcd n.natAbs d.natAbs : Nat) := by
    rw [gcd_eq]
    exact_mod_cast Nat.gcd_pos_of_pos_left _ (Int.natAbs_pos.mpr hn0)
  have hreduced := normalize_reduced n hd0
  have hpositive := normalize_pos n hd0
  rw [if_neg (by omega), if_neg (by exact_mod_cast Nat.not_le.mpr hgcd)]
  simp only [div_of_fits hn hpos, div_of_fits hd hpos, lift_ok_bind]
  by_cases hsign : d.tdiv (gcd n.natAbs d.natAbs : Nat) < 0
  · have hnorm := normalize_of_neg hsign
    have hd' : d < 0 := by
      by_contra hge
      exact absurd (Int.tdiv_nonneg (Int.not_lt.mp hge) hpos.le) (Int.not_le.mpr hsign)
    have hnlow := hneg hd'
    have hnabs := Int.natAbs_tdiv_le_natAbs n (gcd n.natAbs d.natAbs : Nat)
    have hdabs := Int.natAbs_tdiv_le_natAbs d (gcd n.natAbs d.natAbs : Nat)
    have hnfits : Fits 127 (-n.tdiv (gcd n.natAbs d.natAbs : Nat)) := by
      have := hn.2
      unfold Fits
      omega
    have hdfits : Fits 127 (-d.tdiv (gcd n.natAbs d.natAbs : Nat)) := by
      have := hd.2
      unfold Fits
      omega
    rw [if_pos hsign]
    simp only [neg, exactly_of_fits hnfits, exactly_of_fits hdfits, lift_ok_bind]
    rw [hnorm] at hreduced hpositive
    rw [narrow_eq hpositive hreduced]
    simp only [hnorm]
  · have hnorm := normalize_of_not_neg hsign
    rw [if_neg hsign]
    rw [hnorm] at hreduced hpositive
    rw [narrow_eq hpositive hreduced]
    simp only [hnorm]

/-! ## exact results -/

/-- The value of a rational. -/
def toRat (self : Rational) : ℚ := self.numerator.toInt / self.denominator.toInt

theorem toRat_eq {r : Rational} {q : ℚ} (hnum : r.numerator.toInt = q.num)
    (hden : r.denominator.toInt = q.den) : r.toRat = q := by
  rw [toRat, hnum, hden]
  exact_mod_cast Rat.num_div_den q

/-- Normalizing gives numerator and denominator of the quotient in lowest
terms. -/
theorem normalize_eq (hd : d ≠ 0) :
    normalize n d = (((n : ℚ) / d).num, (((n : ℚ) / d).den : Int)) := by
  have hpositive := normalize_pos n hd
  have hreduced := normalize_reduced n hd
  have hvalue : ((normalize n d).1 : ℚ) / (normalize n d).2 = (n : ℚ) / d := by
    have hgcd : ((Int.gcd n d : Int) : ℚ) ≠ 0 := by
      exact_mod_cast (Int.gcd_pos_of_ne_zero_right n hd).ne'
    have hexact : ((n / (Int.gcd n d : Int) : Int) : ℚ) / (d / (Int.gcd n d : Int) : Int) =
        n / d := by
      rw [Int.cast_div (Int.gcd_dvd_left ..) hgcd, Int.cast_div (Int.gcd_dvd_right ..) hgcd,
        div_div_div_cancel_right₀ hgcd]
    simp only [normalize, (tdiv_gcd_eq n d).1, (tdiv_gcd_eq n d).2]
    split
    · simpa [neg_div_neg_eq] using hexact
    · exact hexact
  rw [← hvalue, Rat.num_div_eq_of_coprime hpositive hreduced,
    Rat.den_div_eq_of_coprime hpositive hreduced]

/-- A quotient by a positive number, in lowest terms. -/
theorem normalize_of_pos (n : Int) (hd : 0 < d) :
    normalize n d = (n.tdiv (gcd n.natAbs d.natAbs : Nat), d.tdiv (gcd n.natAbs d.natAbs : Nat)) :=
  normalize_of_not_neg (Int.not_lt.mpr (Int.tdiv_nonneg hd.le (Int.natCast_nonneg _)))

/-- A quotient of two `i64` numbers is representable. -/
theorem div_fits (hn : FitsI64 n) (hd : FitsI64 d) (hpos : 0 < d) :
    FitsI64 ((n : ℚ) / d).num ∧ (((n : ℚ) / d).den : Int) < 2 ^ 63 := by
  have hgcd : (0 : Int) < (gcd n.natAbs d.natAbs : Nat) := by
    rw [gcd_eq]
    exact_mod_cast Nat.gcd_pos_of_pos_right _ (Int.natAbs_pos.mpr hpos.ne')
  have hnorm := normalize_of_pos n hpos
  rw [normalize_eq hpos.ne'] at hnorm
  obtain ⟨hnum, hden⟩ := Prod.mk.inj hnorm
  rw [hnum, hden]
  have hnfits : Fits 63 n := hn
  have hdfits : Fits 63 d := hd
  exact ⟨hnfits.tdiv hgcd, (hdfits.tdiv hgcd).2⟩

/-- What an operation returns for an exact result, or for a division by 0:
the result in lowest terms where it is representable. -/
structure Computes (exact : Option ℚ) (result : Except TimeError Rational) : Prop where
  zeroDenominator : exact = none → result = .error .zeroDenominator
  ok : ∀ q, exact = some q → FitsI64 q.num → (q.den : Int) < 2 ^ 63 →
    ∃ r, result = .ok r ∧ r.numerator.toInt = q.num ∧ r.denominator.toInt = q.den
  overflow : ∀ q, exact = some q → ¬ (FitsI64 q.num ∧ (q.den : Int) < 2 ^ 63) →
    result = .error .overflow

/-- A result is the exact one. -/
theorem Computes.toRat_eq {q : ℚ} {r : Rational} (h : Computes (some q) (.ok r)) :
    r.toRat = q := by
  by_cases hfits : FitsI64 q.num ∧ (q.den : Int) < 2 ^ 63
  · obtain ⟨r', heq, hnum, hden⟩ := h.ok q rfl hfits.1 hfits.2
    obtain rfl := Except.ok.inj heq
    exact Rational.toRat_eq hnum hden
  · cases h.overflow q rfl hfits

theorem Computes.eq_overflow {q : ℚ} {e : TimeError} (h : Computes (some q) (.error e)) :
    e = .overflow := by
  by_cases hfits : FitsI64 q.num ∧ (q.den : Int) < 2 ^ 63
  · obtain ⟨r, heq, -⟩ := h.ok q rfl hfits.1 hfits.2
    cases heq
  · exact Except.error.inj (h.overflow q rfl hfits)

/-- Division, where it is defined. -/
def quotient (x y : ℚ) : Option ℚ := if y = 0 then none else some (x / y)

theorem fromI128_computes (hd : Fits 127 d) (hlow : -2 ^ 127 < d) :
    Computes (quotient n d) (fromI128 n d) := by
  unfold fromI128 quotient
  by_cases hd0 : d = 0
  · rw [dif_pos hd0, if_pos (by exact_mod_cast hd0)]
    exact ⟨fun _ => rfl, nofun, nofun⟩
  rw [dif_neg hd0, if_neg (by exact_mod_cast hd0)]
  refine ⟨nofun, ?_, ?_⟩
  · rintro q ⟨rfl⟩ hnum hden
    by_cases hn0 : n = 0
    · rw [if_pos hn0]
      exact ⟨zero, rfl, by simp [hn0, zero], by simp [hn0, zero]⟩
    have hfits : FitsI64 (normalize n d).1 ∧ FitsI64 (normalize n d).2 := by
      rw [normalize_eq hd0]
      refine ⟨hnum, ?_, hden⟩
      omega
    rw [if_neg hn0, if_neg (Nat.not_le.mpr (gcd_lt hd0 hlow hd.2)), dif_pos hfits]
    refine ⟨_, rfl, ?_, ?_⟩
    · rw [hfits.1.toInt_ofInt, normalize_eq hd0]
    · rw [hfits.2.toInt_ofInt, normalize_eq hd0]
  · rintro q ⟨rfl⟩ hnot
    have hn0 : n ≠ 0 := by
      rintro rfl
      simp [FitsI64] at hnot
    have hfits : ¬ (FitsI64 (normalize n d).1 ∧ FitsI64 (normalize n d).2) := by
      rw [normalize_eq hd0]
      exact fun h => hnot ⟨h.1, h.2.2⟩
    rw [if_neg hn0, if_neg (Nat.not_le.mpr (gcd_lt hd0 hlow hd.2)), dif_neg hfits]

/-- A computation of the code for an exact result: it does not trap, and
returns what it should. -/
def Does (computation : Computation TimeError Rational) (exact : Option ℚ) : Prop :=
  ∃ result, computation = lift result ∧ Computes exact result

theorem fromI128Checked_does (hn : Fits 127 n) (hd : Fits 127 d) (hlow : -2 ^ 127 < d)
    (hneg : d < 0 → -2 ^ 127 < n) : Does (fromI128Checked n d) (quotient n d) :=
  ⟨_, fromI128Checked_eq hn hd hlow hneg, fromI128_computes hd hlow⟩

/-! ## the operations -/

theorem fits_numerator (q : Rational) : Fits 63 q.numerator.toInt := fitsI64_toInt _

theorem fits_denominator (q : Rational) : Fits 63 q.denominator.toInt := fitsI64_toInt _

theorem denominator_ne_zero (q : Rational) : (q.denominator.toInt : ℚ) ≠ 0 := by
  exact_mod_cast q.denominator_pos.ne'

variable (a b : Rational)

theorem fits_cross : Fits 126 (a.numerator.toInt * b.denominator.toInt) :=
  a.fits_numerator.mul_pos b.fits_denominator b.denominator_pos

theorem fits_denominators : Fits 126 (a.denominator.toInt * b.denominator.toInt) :=
  a.fits_denominator.mul_pos b.fits_denominator b.denominator_pos

theorem denominators_pos : 0 < a.denominator.toInt * b.denominator.toInt :=
  Int.mul_pos a.denominator_pos b.denominator_pos

/-- A fraction over the product of the denominators. -/
theorem fromI128Checked_does_of_denominators (hn : Fits 127 n) :
    Does (fromI128Checked n (a.denominator.toInt * b.denominator.toInt))
      (some (n / (a.denominator.toInt * b.denominator.toInt))) := by
  have hd : Fits 127 (a.denominator.toInt * b.denominator.toInt) :=
    (fits_denominators a b).mono (by decide)
  have hpos := denominators_pos a b
  have hne : ((a.denominator.toInt * b.denominator.toInt : Int) : ℚ) ≠ 0 := by
    exact_mod_cast hpos.ne'
  have hdoes := fromI128Checked_does hn hd (by omega) (by omega)
  rw [quotient, if_neg hne] at hdoes
  simpa using hdoes

theorem checkedAdd_does : Does (a.checkedAdd b) (some (a.toRat + b.toRat)) := by
  have hleft := fits_cross a b
  have hright := fits_cross b a
  have hsum := hleft.add hright
  unfold checkedAdd
  simp only [mul, add, exactly_of_fits (hleft.mono (by decide : 126 ≤ 127)),
    exactly_of_fits (hright.mono (by decide : 126 ≤ 127)), exactly_of_fits hsum,
    exactly_of_fits ((fits_denominators a b).mono (by decide : 126 ≤ 127)), lift_ok_bind]
  have hdoes := fromI128Checked_does_of_denominators a b hsum
  have hvalue : a.toRat + b.toRat = ((a.numerator.toInt * b.denominator.toInt +
      b.numerator.toInt * a.denominator.toInt : Int) : ℚ) /
        (a.denominator.toInt * b.denominator.toInt) := by
    have ha := denominator_ne_zero a
    have hb := denominator_ne_zero b
    unfold toRat
    push_cast
    field_simp
  rw [hvalue]
  exact hdoes

theorem checkedSub_does : Does (a.checkedSub b) (some (a.toRat - b.toRat)) := by
  have hleft := fits_cross a b
  have hright := fits_cross b a
  have hdifference := hleft.sub hright
  unfold checkedSub
  simp only [mul, sub, exactly_of_fits (hleft.mono (by decide : 126 ≤ 127)),
    exactly_of_fits (hright.mono (by decide : 126 ≤ 127)), exactly_of_fits hdifference,
    exactly_of_fits ((fits_denominators a b).mono (by decide : 126 ≤ 127)), lift_ok_bind]
  have hdoes := fromI128Checked_does_of_denominators a b hdifference
  have hvalue : a.toRat - b.toRat = ((a.numerator.toInt * b.denominator.toInt -
      b.numerator.toInt * a.denominator.toInt : Int) : ℚ) /
        (a.denominator.toInt * b.denominator.toInt) := by
    have ha := denominator_ne_zero a
    have hb := denominator_ne_zero b
    unfold toRat
    push_cast
    field_simp
  rw [hvalue]
  exact hdoes

theorem checkedMul_does : Does (a.checkedMul b) (some (a.toRat * b.toRat)) := by
  have hproduct : Fits 127 (a.numerator.toInt * b.numerator.toInt) :=
    a.fits_numerator.mul b.fits_numerator
  unfold checkedMul
  simp only [mul, exactly_of_fits hproduct,
    exactly_of_fits ((fits_denominators a b).mono (by decide : 126 ≤ 127)), lift_ok_bind]
  have hdoes := fromI128Checked_does_of_denominators a b hproduct
  have hvalue : a.toRat * b.toRat = ((a.numerator.toInt * b.numerator.toInt : Int) : ℚ) /
      (a.denominator.toInt * b.denominator.toInt) := by
    unfold toRat
    push_cast
    rw [div_mul_div_comm]
  rw [hvalue]
  exact hdoes

theorem newChecked_eq (n d : Int64) : newChecked n d = lift (new n d) := by
  have hn : Fits 63 n.toInt := fitsI64_toInt n
  have hd : Fits 63 d.toInt := fitsI64_toInt d
  refine fromI128Checked_eq (hn.mono (by decide)) (hd.mono (by decide)) ?_ fun _ => ?_
  · exact lt_of_lt_of_le (by decide) hd.1
  · exact lt_of_lt_of_le (by decide) hn.1

theorem newChecked_does (n d : Int64) :
    Does (newChecked n d) (quotient n.toInt d.toInt) := by
  have hd : Fits 63 d.toInt := fitsI64_toInt d
  refine ⟨_, newChecked_eq n d, fromI128_computes (hd.mono (by decide)) ?_⟩
  exact lt_of_lt_of_le (by decide) hd.1

theorem checkedReciprocal_does : Does a.checkedReciprocal (quotient 1 a.toRat) := by
  have hdoes := newChecked_does a.denominator a.numerator
  have hvalue : quotient 1 a.toRat = quotient a.denominator.toInt a.numerator.toInt := by
    have hd := denominator_ne_zero a
    unfold quotient toRat
    simp [hd]
  rw [hvalue]
  exact hdoes

end Rational

/-- **The arithmetic is exact and complete**: every operation returns the
exact result in lowest terms where it is representable, raises
`ZeroDenominator` for a division by zero and `Overflow` otherwise, and no
`i128` operation inside overflows. -/
theorem rational_arithmetic_exact :
    (∀ n d : Int64,
      Rational.Does (Rational.newChecked n d) (Rational.quotient n.toInt d.toInt)) ∧
    ∀ a b : Rational,
      Rational.Does (a.checkedAdd b) (some (a.toRat + b.toRat)) ∧
      Rational.Does (a.checkedSub b) (some (a.toRat - b.toRat)) ∧
      Rational.Does (a.checkedMul b) (some (a.toRat * b.toRat)) ∧
      Rational.Does a.checkedReciprocal (Rational.quotient 1 a.toRat) :=
  ⟨Rational.newChecked_does, fun a b => ⟨a.checkedAdd_does b, a.checkedSub_does b,
    a.checkedMul_does b, a.checkedReciprocal_does⟩⟩

end StitchEditor
