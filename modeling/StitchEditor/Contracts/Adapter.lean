import Mathlib
import StitchEditor.Lib.Rounding
import StitchEditor.Contracts.Arithmetic

/-!
# StitchEditor.Contracts.Adapter

`adapt_absolute`, the one boundary where canonical time becomes a tick count.

The ticks are the scaled time rounded under a named policy, and the error is
the exact difference between the time and what the ticks stand for.
-/

namespace StitchEditor

open Trap Rounding

/-! ## the code -/

inductive RoundingPolicy where
  | floor
  | ceil
  | nearestEven
  deriving DecidableEq, Repr

inductive AdapterUnit where
  | hns
  | timescale (rate : UInt64)
  | samples (rate : UInt64)
  deriving DecidableEq

namespace AdapterUnit

def rate : AdapterUnit → UInt64
  | hns => 10_000_000
  | timescale rate | samples rate => rate

def ticksPerSecond (self : AdapterUnit) : Except TimeError Int64 :=
  if self.rate = 0 then .error .invalidUnit
  else if self.rate.toNat < 2 ^ 63 then .ok (Int64.ofInt self.rate.toNat) else .error .overflow

end AdapterUnit

structure AdaptedTime where
  canonicalTime : Rational
  unit : AdapterUnit
  policy : RoundingPolicy
  ticks : Int64
  error : Rational
  deriving DecidableEq

def roundQuotient (numerator denominator : Int) (policy : RoundingPolicy) :
    Computation TimeError Int := do
  let quotient ← divEuclid 127 numerator denominator
  let remainder ← remEuclid 127 numerator denominator
  match policy with
  | .floor => pure quotient
  | .ceil => add 127 quotient (if remainder ≠ 0 then 1 else 0)
  | .nearestEven =>
      -- `checked_mul`
      if Fits 127 (remainder * 2) then
        match compare (remainder * 2) denominator with
        | .lt => pure quotient
        | .eq => do
            if (← remEuclid 127 quotient 2) = 0 then pure quotient else add 127 quotient 1
        | .gt => add 127 quotient 1
      else throw .overflow

def adaptAbsolute (canonicalTime : Rational) (unit : AdapterUnit) (policy : RoundingPolicy) :
    Computation TimeError AdaptedTime := do
  let rate ← lift unit.ticksPerSecond
  let scaledNumerator ← mul 127 canonicalTime.numerator.toInt rate.toInt
  let ticks ← roundQuotient scaledNumerator canonicalTime.denominator.toInt policy
  -- `i64::try_from`
  let ticks ← if FitsI64 ticks then pure (Int64.ofInt ticks) else throw .overflow
  let represented ← Rational.newChecked ticks rate
  let error ← canonicalTime.checkedSub represented
  pure ⟨canonicalTime, unit, policy, ticks, error⟩

/-! ## rounding -/

/-- The policy rounds a value to an integer. -/
def RoundingPolicy.Rounds : RoundingPolicy → ℚ → Int → Prop
  | .floor => IsFloor
  | .ceil => IsCeil
  | .nearestEven => IsNearestEven

theorem RoundingPolicy.Rounds.unique {policy : RoundingPolicy} {x : ℚ} {k l : Int}
    (hk : policy.Rounds x k) (hl : policy.Rounds x l) : k = l := by
  cases policy with
  | floor => exact IsFloor.unique hk hl
  | ceil => exact IsCeil.unique hk hl
  | nearestEven => exact IsNearestEven.unique hk hl

/-- **The quotient is rounded as the policy says**, without overflow. -/
theorem roundQuotient_rounds {n d : Int} (hn : Fits 126 n) (hd : Fits 63 d) (hpos : 0 < d)
    (policy : RoundingPolicy) :
    ∃ k, roundQuotient n d policy = lift (.ok k) ∧ policy.Rounds ((n : ℚ) / d) k := by
  have hquotient := hn.ediv hpos
  have hnext : Fits 127 (n / d + 1) := hquotient.add ⟨by decide, by decide⟩
  have hremainder := hd.emod (x := n) hpos
  unfold roundQuotient
  rw [divEuclid_of_fits (hn.mono (by decide)) hpos, lift_ok_bind,
    remEuclid_of_fits (hn.mono (by decide)) (hd.mono (by decide)) hpos, lift_ok_bind]
  cases policy with
  | floor => exact ⟨_, rfl, isFloor_ediv hpos⟩
  | ceil =>
      refine ⟨_, ?_, isCeil_ediv hpos⟩
      refine exactly_of_fits ?_
      split
      · exact hnext
      · simpa using hquotient.mono (by decide : 126 ≤ 127)
  | nearestEven =>
      refine ⟨_, ?_, isNearestEven_ediv hpos⟩
      have hdoubled : Fits 127 (n % d * 2) :=
        (hremainder.mul (n := 2) ⟨by decide, by decide⟩).mono (by decide)
      have hparity : (remEuclid 127 (n / d) 2 : Computation TimeError Int) =
          lift (.ok (n / d % 2)) :=
        remEuclid_of_fits (hquotient.mono (by decide)) ⟨by decide, by decide⟩ (by decide)
      dsimp only
      rw [if_pos hdoubled, mul_comm (n % d) 2]
      rcases lt_trichotomy (2 * (n % d)) d with hlt | heq | hgt
      · rw [Int.compare_eq_lt.mpr hlt, if_pos (.inl hlt)]
        rfl
      · rw [Int.compare_eq_eq.mpr heq]
        dsimp only
        rw [hparity, lift_ok_bind]
        by_cases heven : n / d % 2 = 0
        · rw [if_pos heven, if_pos (.inr ⟨heq, heven⟩)]
          rfl
        · rw [if_neg heven, if_neg (by omega)]
          exact exactly_of_fits hnext
      · rw [Int.compare_eq_gt.mpr hgt, if_neg (by omega)]
        exact exactly_of_fits hnext

/-! ## one adaptation -/

namespace AdapterUnit

/-- The rate is one that the adapter can use. -/
def Valid (unit : AdapterUnit) : Prop := 0 < unit.rate.toNat ∧ unit.rate.toNat < 2 ^ 63

theorem ticksPerSecond_of_valid {unit : AdapterUnit} (h : unit.Valid) :
    unit.ticksPerSecond = .ok (Int64.ofInt unit.rate.toNat) ∧
      (Int64.ofInt unit.rate.toNat).toInt = unit.rate.toNat := by
  have hne : unit.rate ≠ 0 := by
    intro hzero
    have hpos := h.1
    simp [hzero] at hpos
  have hfits : FitsI64 unit.rate.toNat := ⟨by omega, by exact_mod_cast h.2⟩
  refine ⟨?_, hfits.toInt_ofInt⟩
  rw [ticksPerSecond, if_neg hne, if_pos h.2]

theorem ticksPerSecond_of_not_valid {unit : AdapterUnit} (h : ¬ unit.Valid) :
    ∃ e, unit.ticksPerSecond = .error e := by
  unfold ticksPerSecond
  by_cases hzero : unit.rate = 0
  · exact ⟨_, if_pos hzero⟩
  · have hpos : 0 < unit.rate.toNat := by
      rw [Nat.pos_iff_ne_zero]
      exact fun h => hzero (UInt64.toNat_inj.mp h)
    rw [if_neg hzero, if_neg fun hlt => h ⟨hpos, hlt⟩]
    exact ⟨_, rfl⟩

end AdapterUnit

/-- The value that a unit scales a time to. -/
def scaled (time : Rational) (unit : AdapterUnit) : ℚ := time.toRat * unit.rate.toNat

variable {time : Rational} {unit : AdapterUnit}

theorem scaled_eq : scaled time unit =
    ((time.numerator.toInt * (unit.rate.toNat : Int) : Int) : ℚ) / time.denominator.toInt := by
  unfold scaled Rational.toRat
  push_cast
  ring

/-- **What an adaptation does** with a valid unit: the ticks are rounded once,
and the error is what `checked_sub` makes of the exact difference. -/
theorem adaptAbsolute_eq (time : Rational) (hunit : unit.Valid) (policy : RoundingPolicy) :
    ∃ k, policy.Rounds (scaled time unit) k ∧
      ((¬ FitsI64 k ∧ adaptAbsolute time unit policy = lift (.error .overflow)) ∨
        FitsI64 k ∧ ∃ result,
          Rational.Computes (some (time.toRat - k / unit.rate.toNat)) result ∧
          adaptAbsolute time unit policy =
            lift (result.map fun error => ⟨time, unit, policy, Int64.ofInt k, error⟩)) := by
  obtain ⟨hticks, hrate⟩ := AdapterUnit.ticksPerSecond_of_valid hunit
  have hpos : (0 : Int) < unit.rate.toNat := by exact_mod_cast hunit.1
  have hfits : FitsI64 (unit.rate.toNat : Int) := ⟨by omega, by exact_mod_cast hunit.2⟩
  have hscaled : Fits 126 (time.numerator.toInt * (unit.rate.toNat : Int)) :=
    time.fits_numerator.mul_pos hfits hpos
  obtain ⟨k, hround, hrounds⟩ :=
    roundQuotient_rounds hscaled time.fits_denominator time.denominator_pos policy
  refine ⟨k, scaled_eq ▸ hrounds, ?_⟩
  have hstart : adaptAbsolute time unit policy =
      (do
        let ticks ← if FitsI64 k then pure (Int64.ofInt k) else throw .overflow
        let represented ← Rational.newChecked ticks (Int64.ofInt unit.rate.toNat)
        let error ← time.checkedSub represented
        pure ⟨time, unit, policy, ticks, error⟩) := by
    unfold adaptAbsolute
    rw [hticks, lift_ok_bind, hrate, mul, exactly_of_fits (hscaled.mono (by decide)), lift_ok_bind,
      hround, lift_ok_bind]
  by_cases hk : FitsI64 k
  · right
    refine ⟨hk, ?_⟩
    obtain ⟨made, hnew, hmade⟩ :=
      Rational.newChecked_does (Int64.ofInt k) (Int64.ofInt unit.rate.toNat)
    rw [hk.toInt_ofInt, hrate, Rational.quotient, if_neg (by exact_mod_cast hpos.ne')] at hmade
    obtain ⟨hnum, hden⟩ := Rational.div_fits hk hfits hpos
    obtain ⟨represented, rfl, hrnum, hrden⟩ := hmade.ok _ rfl hnum hden
    obtain ⟨result, hsub, hcomputes⟩ := time.checkedSub_does represented
    rw [Rational.toRat_eq hrnum hrden] at hcomputes
    refine ⟨result, by simpa using hcomputes, ?_⟩
    rw [hstart, if_pos hk, pure_bind]
    dsimp only
    rw [hnew, lift_ok_bind, hsub]
    cases result with
    | error e => rfl
    | ok error => rfl
  · left
    refine ⟨hk, ?_⟩
    rw [hstart, if_neg hk]
    rfl

/-- An adaptation with an invalid unit fails. -/
theorem adaptAbsolute_of_not_valid (time : Rational) (hunit : ¬ unit.Valid)
    (policy : RoundingPolicy) :
    ∃ e, adaptAbsolute time unit policy = lift (.error e) := by
  obtain ⟨e, he⟩ := AdapterUnit.ticksPerSecond_of_not_valid hunit
  refine ⟨e, ?_⟩
  rw [adaptAbsolute, he, lift_error_bind]

/-- No adaptation traps. -/
theorem adaptAbsolute_total (time : Rational) (unit : AdapterUnit) (policy : RoundingPolicy) :
    ∃ result, adaptAbsolute time unit policy = lift result := by
  by_cases hunit : unit.Valid
  · obtain ⟨k, -, ⟨-, h⟩ | ⟨-, result, -, h⟩⟩ := adaptAbsolute_eq time hunit policy
    · exact ⟨_, h⟩
    · exact ⟨_, h⟩
  · obtain ⟨e, h⟩ := adaptAbsolute_of_not_valid time hunit policy
    exact ⟨_, h⟩

/-- An adapted time with its exact error, which is that of the policy, and
ticks that are the only ones correctly rounded. -/
structure AdaptedTime.Correct (adapted : AdaptedTime) (time : Rational) (unit : AdapterUnit)
    (policy : RoundingPolicy) : Prop where
  error : adapted.error.toRat = time.toRat - adapted.ticks.toInt / unit.rate.toNat
  floor : policy = .floor →
    0 ≤ adapted.error.toRat ∧ adapted.error.toRat < 1 / unit.rate.toNat
  ceil : policy = .ceil →
    -(1 / unit.rate.toNat) < adapted.error.toRat ∧ adapted.error.toRat ≤ 0
  nearestEven : policy = .nearestEven →
    |adapted.error.toRat| ≤ 1 / (2 * unit.rate.toNat) ∧
      (|adapted.error.toRat| = 1 / (2 * unit.rate.toNat) → Even adapted.ticks.toInt)
  unique : ∀ k : Int, policy.Rounds (scaled time unit) k ↔ k = adapted.ticks.toInt

/-- The error in units of a tick. -/
theorem sub_div_rate (hunit : unit.Valid) (k : Int) :
    time.toRat - k / unit.rate.toNat = (scaled time unit - k) / unit.rate.toNat := by
  have hrate : (unit.rate.toNat : ℚ) ≠ 0 := by exact_mod_cast hunit.1.ne'
  unfold scaled
  field_simp

/-- Correct rounding makes a correct error. -/
theorem correct_of_rounds (hunit : unit.Valid) {policy : RoundingPolicy} {adapted : AdaptedTime}
    (hrounds : policy.Rounds (scaled time unit) adapted.ticks.toInt)
    (herror : adapted.error.toRat = time.toRat - adapted.ticks.toInt / unit.rate.toNat) :
    adapted.Correct time unit policy := by
  have hrate : (0 : ℚ) < unit.rate.toNat := by exact_mod_cast hunit.1
  have hscaled := herror.trans (sub_div_rate hunit _)
  refine ⟨herror, ?floor, ?ceil, ?nearestEven, fun k => ⟨fun hk => hk.unique hrounds, ?_⟩⟩
  case floor =>
    rintro rfl
    rw [hscaled]
    exact ⟨div_nonneg hrounds.1 hrate.le, (div_lt_div_iff_of_pos_right hrate).mpr hrounds.2⟩
  case ceil =>
    rintro rfl
    rw [hscaled, ← neg_div]
    exact ⟨(div_lt_div_iff_of_pos_right hrate).mpr hrounds.1,
      div_nonpos_of_nonpos_of_nonneg hrounds.2 hrate.le⟩
  case nearestEven =>
    rintro rfl
    have hhalf : (1 : ℚ) / (2 * unit.rate.toNat) = 1 / 2 / unit.rate.toNat := by
      rw [div_div]
    rw [hscaled, abs_div, abs_of_pos hrate, hhalf]
    refine ⟨(div_le_div_iff_of_pos_right hrate).mpr hrounds.1, fun htie => hrounds.2 ?_⟩
    exact (div_left_inj' hrate.ne').mp htie
  · rintro rfl
    exact hrounds

/-- **Adapted time is correct**: whatever the time, the unit and the policy,
nothing overflows unnoticed, and a result has the exact error and correctly
rounded ticks. -/
theorem adaptAbsolute_correct (time : Rational) (unit : AdapterUnit) (policy : RoundingPolicy) :
    ∃ result, adaptAbsolute time unit policy = lift result ∧
      ∀ adapted, result = .ok adapted → adapted.Correct time unit policy := by
  by_cases hunit : unit.Valid
  · obtain ⟨k, hrounds, ⟨-, h⟩ | ⟨hk, result, hcomputes, h⟩⟩ :=
      adaptAbsolute_eq time hunit policy
    · exact ⟨_, h, nofun⟩
    · refine ⟨_, h, fun adapted hadapted => ?_⟩
      cases result with
      | error e => cases hadapted
      | ok error =>
          obtain rfl := Except.ok.inj hadapted
          have hticks : (Int64.ofInt k).toInt = k := hk.toInt_ofInt
          exact correct_of_rounds hunit (by rw [hticks]; exact hrounds)
            (by rw [hticks]; exact hcomputes.toRat_eq)
  · obtain ⟨e, h⟩ := adaptAbsolute_of_not_valid time hunit policy
    exact ⟨_, h, nofun⟩

/-- A time in the middle of two ticks. -/
def halfTick : Rational := ⟨-3, 20_000_000, by decide, by decide⟩

theorem adaptAbsolute_correct_halfTick :
    ∃ adapted, adaptAbsolute halfTick .hns .nearestEven = lift (.ok adapted) ∧
      adapted.Correct halfTick .hns .nearestEven := by
  obtain ⟨result, hresult, hcorrect⟩ := adaptAbsolute_correct halfTick .hns .nearestEven
  have hok : Option.any Except.isOk (adaptAbsolute halfTick .hns .nearestEven) = true := by
    decide +kernel
  rw [hresult] at hok
  cases result with
  | error e => cases hok
  | ok adapted => exact ⟨adapted, hresult, hcorrect adapted rfl⟩

/-! ## failures -/

/-- What rounding a quotient leaves of the numerator, up to its sign. -/
def RoundingPolicy.residue (policy : RoundingPolicy) (remainder denominator : Int) : Int :=
  match policy with
  | .floor => remainder
  | .ceil => if remainder = 0 then 0 else remainder - denominator
  | .nearestEven => if 2 * remainder ≤ denominator then remainder else remainder - denominator

/-- The unit's rate is zero or no `i64`, or the rounded ticks are no `i64`. -/
def DocumentedFailure (time : Rational) (unit : AdapterUnit) (policy : RoundingPolicy) : Prop :=
  unit.rate = 0 ∨ 2 ^ 63 ≤ unit.rate.toNat ∨
    ∃ k, policy.Rounds (scaled time unit) k ∧ ¬ FitsI64 k

/-- The denominator of the exact error, in lowest terms, is an `i64`. -/
def ErrorFits (time : Rational) (unit : AdapterUnit) (policy : RoundingPolicy) : Prop :=
  let numerator := time.numerator.toInt * unit.rate.toNat
  let denominator := time.denominator.toInt * unit.rate.toNat
  let residue := policy.residue (numerator % time.denominator.toInt) time.denominator.toInt
  denominator / Int.gcd residue denominator < 2 ^ 63

theorem RoundingPolicy.Rounds.residue {policy : RoundingPolicy} {n d k : Int} (hd : 0 < d)
    (h : policy.Rounds ((n : ℚ) / d) k) :
    n - k * d = policy.residue (n % d) d ∨ n - k * d = -policy.residue (n % d) d := by
  have hsplit := Int.mul_ediv_add_emod n d
  cases policy with
  | floor =>
      obtain rfl := IsFloor.unique h (isFloor_ediv hd)
      left
      rw [RoundingPolicy.residue]
      linear_combination -hsplit
  | ceil =>
      obtain rfl := IsCeil.unique h (isCeil_ediv hd)
      left
      by_cases hzero : n % d = 0
      · rw [hzero] at hsplit ⊢
        simp only [RoundingPolicy.residue, ne_eq, not_true_eq_false, if_false, if_true]
        linear_combination -hsplit
      · simp only [RoundingPolicy.residue, hzero, ne_eq, not_false_eq_true, if_true, if_false]
        linear_combination -hsplit
  | nearestEven =>
      obtain rfl := IsNearestEven.unique h (isNearestEven_ediv hd)
      by_cases hlow : 2 * (n % d) < d ∨ 2 * (n % d) = d ∧ n / d % 2 = 0
      · left
        have hle : 2 * (n % d) ≤ d := by omega
        rw [if_pos hlow, RoundingPolicy.residue, if_pos hle]
        linear_combination -hsplit
      · rw [if_neg hlow, RoundingPolicy.residue]
        by_cases hle : 2 * (n % d) ≤ d
        · -- a tie with an odd quotient
          right
          have htie : 2 * (n % d) = d := by omega
          rw [if_pos hle]
          linear_combination -hsplit + htie
        · left
          rw [if_neg hle]
          linear_combination -hsplit

/-- The denominator of the exact error. -/
theorem den_error (hunit : unit.Valid) {policy : RoundingPolicy} {k : Int}
    (hrounds : policy.Rounds (scaled time unit) k) :
    ((time.toRat - k / unit.rate.toNat).den : Int) < 2 ^ 63 ↔ ErrorFits time unit policy := by
  have hrate : (0 : Int) < unit.rate.toNat := by exact_mod_cast hunit.1
  have hpos := Int.mul_pos time.denominator_pos hrate
  have hvalue : time.toRat - k / unit.rate.toNat =
      ((time.numerator.toInt * (unit.rate.toNat : Int) - k * time.denominator.toInt : Int) : ℚ) /
        ((time.denominator.toInt * (unit.rate.toNat : Int) : Int) : ℚ) := by
    have hne : (unit.rate.toNat : ℚ) ≠ 0 := by exact_mod_cast hunit.1.ne'
    have hd := time.denominator_ne_zero
    unfold Rational.toRat
    push_cast
    field_simp
  have hnorm := (Rational.normalize_of_pos
    (time.numerator.toInt * (unit.rate.toNat : Int) - k * time.denominator.toInt) hpos)
  rw [Rational.normalize_eq hpos.ne'] at hnorm
  obtain ⟨-, hden⟩ := Prod.mk.inj hnorm
  rw [hvalue, hden, (tdiv_gcd_eq _ _).2, ErrorFits]
  rw [scaled_eq] at hrounds
  rcases hrounds.residue time.denominator_pos with hresidue | hresidue
  · rw [hresidue]
  · rw [hresidue, Int.neg_gcd]

theorem RoundingPolicy.Rounds.abs_sub_lt_one {policy : RoundingPolicy} {x : ℚ} {k : Int}
    (h : policy.Rounds x k) : |x - k| < 1 := by
  cases policy with
  | floor => exact abs_lt.mpr ⟨by linarith [h.1], h.2⟩
  | ceil => exact abs_lt.mpr ⟨h.1, by linarith [h.2]⟩
  | nearestEven => exact lt_of_le_of_lt h.1 (by norm_num)

/-- The error is less than 1, so that its numerator fits where its denominator
does. -/
theorem num_error_fits (hunit : unit.Valid) {policy : RoundingPolicy} {k : Int}
    (hrounds : policy.Rounds (scaled time unit) k)
    (hden : ((time.toRat - k / unit.rate.toNat).den : Int) < 2 ^ 63) :
    FitsI64 (time.toRat - k / unit.rate.toNat).num := by
  have hrate : (1 : ℚ) ≤ unit.rate.toNat := by exact_mod_cast hunit.1
  have hsmall : |time.toRat - k / unit.rate.toNat| < 1 := by
    have hpos : (0 : ℚ) < unit.rate.toNat := by linarith
    rw [sub_div_rate hunit, abs_div, abs_of_pos hpos]
    exact (div_lt_one hpos).mpr (lt_of_lt_of_le hrounds.abs_sub_lt_one hrate)
  generalize time.toRat - k / unit.rate.toNat = q at hsmall hden
  have hlt : |q.num| < q.den := by
    have hpos : (0 : ℚ) < q.den := by exact_mod_cast q.pos
    rw [← Rat.num_div_den q, abs_div, abs_of_pos hpos, div_lt_one hpos] at hsmall
    exact_mod_cast hsmall
  rw [abs_lt] at hlt
  unfold FitsI64
  omega

theorem valid_of_not_documentedFailure {policy : RoundingPolicy}
    (h : ¬ DocumentedFailure time unit policy) : unit.Valid := by
  refine ⟨Nat.pos_of_ne_zero fun hzero => h (.inl ?_), ?_⟩
  · exact UInt64.toNat_inj.mp hzero
  · exact not_le.mp fun hle => h (.inr (.inl hle))

/-- Apart from the documented failures, an adaptation succeeds exactly when
its error fits. -/
theorem adaptAbsolute_cases {policy : RoundingPolicy} (h : ¬ DocumentedFailure time unit policy) :
    (ErrorFits time unit policy ∧
        ∃ adapted, adaptAbsolute time unit policy = lift (.ok adapted)) ∨
      ¬ ErrorFits time unit policy ∧ adaptAbsolute time unit policy = lift (.error .overflow) := by
  have hunit := valid_of_not_documentedFailure h
  obtain ⟨k, hrounds, ⟨hk, -⟩ | ⟨hk, result, hcomputes, hadapt⟩⟩ :=
    adaptAbsolute_eq time hunit policy
  · exact absurd (.inr (.inr ⟨k, hrounds, hk⟩)) h
  by_cases hfits : ErrorFits time unit policy
  · left
    have hden := (den_error hunit hrounds).mpr hfits
    obtain ⟨error, rfl, -⟩ := hcomputes.ok _ rfl (num_error_fits hunit hrounds hden) hden
    exact ⟨hfits, _, hadapt⟩
  · right
    obtain rfl := hcomputes.overflow _ rfl fun h => hfits ((den_error hunit hrounds).mp h.2)
    exact ⟨hfits, hadapt⟩

/-- **When an adaptation fails for the documented reasons only**: when the
denominator of the exact error is an `i64`. -/
theorem adaptAbsolute_fails_as_documented_iff (time : Rational) (unit : AdapterUnit)
    (policy : RoundingPolicy) :
    ((∀ e, adaptAbsolute time unit policy = lift (.error e) →
        DocumentedFailure time unit policy) ∧
      (¬ DocumentedFailure time unit policy →
        ∃ adapted, adaptAbsolute time unit policy = lift (.ok adapted))) ↔
      DocumentedFailure time unit policy ∨ ErrorFits time unit policy := by
  by_cases hdocumented : DocumentedFailure time unit policy
  · simp [hdocumented]
  rcases adaptAbsolute_cases hdocumented with ⟨hfits, adapted, h⟩ | ⟨hfits, h⟩
  · simp [hdocumented, hfits, h]
  · simp [hdocumented, hfits, h]

/-- A little more than a third of a second, with a large denominator. -/
def overThird : Rational :=
  ⟨1537228672809129302, 4611686018427387905, by decide, by decide⟩

/-- The ticks are 1, and the error is not representable. -/
theorem adaptAbsolute_overflows_overThird :
    adaptAbsolute overThird (.timescale 3) .nearestEven = lift (.error .overflow) ∧
      ¬ DocumentedFailure overThird (.timescale 3) .nearestEven := by
  have hticks : RoundingPolicy.nearestEven.Rounds (scaled overThird (.timescale 3)) 1 := by
    rw [scaled_eq]
    exact isNearestEven_ediv (n := 4611686018427387906) (d := 4611686018427387905) (by decide)
  have hdocumented : ¬ DocumentedFailure overThird (.timescale 3) .nearestEven := by
    rintro (hzero | hlarge | ⟨k, hk, hfits⟩)
    · exact absurd hzero (by decide)
    · exact absurd hlarge (by decide)
    · obtain rfl := hk.unique hticks
      exact hfits (by decide)
  refine ⟨?_, hdocumented⟩
  rcases adaptAbsolute_cases hdocumented with ⟨hfits, -⟩ | ⟨-, h⟩
  · exact absurd hfits (by unfold ErrorFits; decide +kernel)
  · exact h

end StitchEditor
