import Mathlib
import StitchEditor.Contracts.Arithmetic
import StitchEditor.Contracts.Canonical

/-!
# StitchEditor.Contracts.Order

The order of rationals, and the invariant that it rests on.

The code derives equality from the fields, compares by cross multiplication
and encodes the fields as they stand.  These agree because every operation
leaves its result in lowest terms.  So that this is a result and not a field
of a structure, the operations stand here on bare fields, and `Made` collects
what they return.
-/

namespace StitchEditor

open Trap

/-! ## the code, on bare fields -/

namespace RawRational

variable {ε : Type}

/-- `i64::try_from`, with the error that it is mapped to. -/
def toI64 (value : Int) : Computation TimeError Int64 :=
  if FitsI64 value then pure (Int64.ofInt value) else throw .overflow

def narrow (numerator denominator : Int) : Computation TimeError RawRational := do
  let numerator ← toI64 numerator
  let denominator ← toI64 denominator
  pure ⟨numerator, denominator⟩

def fromI128 (numerator denominator : Int) : Computation TimeError RawRational :=
  if denominator = 0 then throw .zeroDenominator
  else if numerator = 0 then pure ⟨0, 1⟩
  else do
    let divisor : Int := gcd numerator.natAbs denominator.natAbs
    -- `i128::try_from` of the `u128` divisor
    if 2 ^ 127 ≤ divisor then throw .overflow
    let numerator ← div 127 numerator divisor
    let denominator ← div 127 denominator divisor
    if denominator < 0 then do
      let numerator ← neg 127 numerator
      let denominator ← neg 127 denominator
      narrow numerator denominator
    else narrow numerator denominator

def new (numerator denominator : Int64) : Computation TimeError RawRational :=
  fromI128 numerator.toInt denominator.toInt

def checkedAdd (self other : RawRational) : Computation TimeError RawRational := do
  let left ← mul 127 self.numerator.toInt other.denominator.toInt
  let right ← mul 127 other.numerator.toInt self.denominator.toInt
  let numerator ← add 127 left right
  let denominator ← mul 127 self.denominator.toInt other.denominator.toInt
  fromI128 numerator denominator

def checkedSub (self other : RawRational) : Computation TimeError RawRational := do
  let left ← mul 127 self.numerator.toInt other.denominator.toInt
  let right ← mul 127 other.numerator.toInt self.denominator.toInt
  let numerator ← sub 127 left right
  let denominator ← mul 127 self.denominator.toInt other.denominator.toInt
  fromI128 numerator denominator

def checkedMul (self other : RawRational) : Computation TimeError RawRational := do
  let numerator ← mul 127 self.numerator.toInt other.numerator.toInt
  let denominator ← mul 127 self.denominator.toInt other.denominator.toInt
  fromI128 numerator denominator

def checkedReciprocal (self : RawRational) : Computation TimeError RawRational :=
  new self.denominator self.numerator

/-- `reader.rational()`. -/
def read (reader : Reader) : Computation ModelError (RawRational × Reader) := do
  let (numerator, reader) ← lift (Reader.i64 reader)
  let (denominator, reader) ← lift (Reader.i64 reader)
  let q ← (new numerator denominator).adapt fun _ => ModelError.corruptProject
  pure (q, reader)

/-- `Ord::cmp`: the products of the comparison are `i128` operations. -/
def cmp (self other : RawRational) : Computation ε Ordering := do
  let left ← mul 127 self.numerator.toInt other.denominator.toInt
  let right ← mul 127 other.numerator.toInt self.denominator.toInt
  pure (compare left right)

/-- `canonical_bytes`, field by field. -/
def canonicalBytes (self : RawRational) : List UInt8 := self.put

end RawRational

namespace RawRange

variable {ε : Type}

def new (start stop : RawRational) : Computation TimeError RawRange := do
  if (← start.cmp stop).isGE then throw .invalidRange
  pure ⟨start, stop⟩

def contains (self : RawRange) (time : RawRational) : Computation ε Bool := do
  if (← self.start.cmp time).isLE then return (← time.cmp self.stop).isLT
  return false

end RawRange

/-- The rationals that the operations make, in any composition. -/
inductive Made : RawRational → Prop where
  | new {n d : Int64} {q : RawRational} (h : RawRational.new n d = lift (.ok q)) : Made q
  | checkedAdd {a b q : RawRational} (ha : Made a) (hb : Made b)
      (h : a.checkedAdd b = lift (.ok q)) : Made q
  | checkedSub {a b q : RawRational} (ha : Made a) (hb : Made b)
      (h : a.checkedSub b = lift (.ok q)) : Made q
  | checkedMul {a b q : RawRational} (ha : Made a) (hb : Made b)
      (h : a.checkedMul b = lift (.ok q)) : Made q
  | checkedReciprocal {a q : RawRational} (ha : Made a)
      (h : a.checkedReciprocal = lift (.ok q)) : Made q
  | read {reader reader' : Reader} {q : RawRational}
      (h : RawRational.read reader = lift (.ok (q, reader'))) : Made q

/-! ## lowest terms -/

namespace RawRational

theorem reduced_iff {raw : RawRational} : raw.Reduced ↔ ∃ q : Rational, q.raw = raw := by
  constructor
  · rintro ⟨hpos, hred⟩
    exact ⟨⟨raw.numerator, raw.denominator, hpos, hred⟩, rfl⟩
  · rintro ⟨q, rfl⟩
    exact ⟨q.denominator_pos, q.reduced⟩

/-- Narrowing checks nothing but the width: lowest terms stay. -/
theorem narrow_eq {n d : Int} (hd : 0 < d) (hgcd : Int.gcd n d = 1) :
    narrow n d = Rational.raw <$> Rational.narrow n d := by
  rw [Rational.narrow_eq hd hgcd]
  unfold narrow toI64
  by_cases hn : FitsI64 n
  · by_cases hd' : FitsI64 d
    · rw [if_pos hn, if_pos hd', dif_pos ⟨hn, hd'⟩]
      rfl
    · rw [if_pos hn, if_neg hd', dif_neg fun h => hd' h.2]
      rfl
  · rw [if_neg hn, dif_neg fun h => hn h.1]
    rfl

/-- Dividing out the divisor and moving the sign leave lowest terms. -/
theorem fromI128_eq (n d : Int) : fromI128 n d = Rational.raw <$> Rational.fromI128Checked n d := by
  unfold fromI128 Rational.fromI128Checked
  by_cases hd0 : d = 0
  · rw [if_pos hd0, if_pos hd0]
    rfl
  rw [if_neg hd0, if_neg hd0]
  by_cases hn0 : n = 0
  · rw [if_pos hn0, if_pos hn0]
    rfl
  rw [if_neg hn0, if_neg hn0]
  have hreduced := normalize_reduced n hd0
  have hpositive := normalize_pos n hd0
  dsimp only
  by_cases hwide : (2 : Int) ^ 127 ≤ (gcd n.natAbs d.natAbs : Nat)
  · rw [if_pos hwide, if_pos hwide]
    rfl
  rw [if_neg hwide, if_neg hwide]
  simp only [map_bind]
  rcases div_cases (ε := TimeError) 127 n (gcd n.natAbs d.natAbs : Nat) with hn | hn
  · rw [hn]
    rfl
  rcases div_cases (ε := TimeError) 127 d (gcd n.natAbs d.natAbs : Nat) with hd | hd
  · rw [hn, hd]
    rfl
  rw [hn, hd, lift_ok_bind, lift_ok_bind, lift_ok_bind, lift_ok_bind]
  by_cases hsign : d.tdiv (gcd n.natAbs d.natAbs : Nat) < 0
  · rw [normalize_of_neg hsign] at hreduced hpositive
    rw [if_pos hsign, if_pos hsign]
    simp only [map_bind]
    rcases neg_cases (ε := TimeError) 127 (n.tdiv (gcd n.natAbs d.natAbs : Nat)) with hn | hn
    · rw [hn]
      rfl
    rcases neg_cases (ε := TimeError) 127 (d.tdiv (gcd n.natAbs d.natAbs : Nat)) with hd | hd
    · rw [hn, hd]
      rfl
    rw [hn, hd]
    exact narrow_eq hpositive hreduced
  · rw [normalize_of_not_neg hsign] at hreduced hpositive
    rw [if_neg hsign, if_neg hsign]
    exact narrow_eq hpositive hreduced

theorem new_eq (n d : Int64) : new n d = Rational.raw <$> Rational.newChecked n d :=
  fromI128_eq _ _

theorem checkedAdd_eq (a b : Rational) :
    a.raw.checkedAdd b.raw = Rational.raw <$> a.checkedAdd b := by
  simp only [checkedAdd, Rational.checkedAdd, Rational.raw, fromI128_eq, map_bind]

theorem checkedSub_eq (a b : Rational) :
    a.raw.checkedSub b.raw = Rational.raw <$> a.checkedSub b := by
  simp only [checkedSub, Rational.checkedSub, Rational.raw, fromI128_eq, map_bind]

theorem checkedMul_eq (a b : Rational) :
    a.raw.checkedMul b.raw = Rational.raw <$> a.checkedMul b := by
  simp only [checkedMul, Rational.checkedMul, Rational.raw, fromI128_eq, map_bind]

theorem checkedReciprocal_eq (a : Rational) :
    a.raw.checkedReciprocal = Rational.raw <$> a.checkedReciprocal :=
  new_eq _ _

/-- What a computation on rationals returns is in lowest terms. -/
theorem reduced_of_map {c : Computation TimeError Rational} {raw : RawRational}
    (h : Rational.raw <$> c = lift (.ok raw)) : raw.Reduced := by
  match c, h with
  | some (.ok q), h =>
      obtain rfl : q.raw = raw := Except.ok.inj (Option.some.inj h)
      exact reduced_iff.mpr ⟨q, rfl⟩

end RawRational

/-- **The invariant is exact**: the operations make the fractions in lowest
terms, and only these. -/
theorem made_iff {raw : RawRational} : Made raw ↔ raw.Reduced := by
  constructor
  · intro h
    induction h with
    | new h => exact RawRational.reduced_of_map (RawRational.new_eq _ _ ▸ h)
    | checkedAdd _ _ h iha ihb =>
        obtain ⟨a, rfl⟩ := RawRational.reduced_iff.mp iha
        obtain ⟨b, rfl⟩ := RawRational.reduced_iff.mp ihb
        exact RawRational.reduced_of_map (RawRational.checkedAdd_eq a b ▸ h)
    | checkedSub _ _ h iha ihb =>
        obtain ⟨a, rfl⟩ := RawRational.reduced_iff.mp iha
        obtain ⟨b, rfl⟩ := RawRational.reduced_iff.mp ihb
        exact RawRational.reduced_of_map (RawRational.checkedSub_eq a b ▸ h)
    | checkedMul _ _ h iha ihb =>
        obtain ⟨a, rfl⟩ := RawRational.reduced_iff.mp iha
        obtain ⟨b, rfl⟩ := RawRational.reduced_iff.mp ihb
        exact RawRational.reduced_of_map (RawRational.checkedMul_eq a b ▸ h)
    | checkedReciprocal _ h iha =>
        obtain ⟨a, rfl⟩ := RawRational.reduced_iff.mp iha
        exact RawRational.reduced_of_map (RawRational.checkedReciprocal_eq a ▸ h)
    | read h =>
        obtain ⟨⟨n, _⟩, -, h⟩ := bind_eq_ok_iff.mp h
        obtain ⟨⟨d, _⟩, -, h⟩ := bind_eq_ok_iff.mp h
        obtain ⟨q, hq, h⟩ := bind_eq_ok_iff.mp h
        cases h
        exact RawRational.reduced_of_map (RawRational.new_eq n d ▸ adapt_eq_ok_iff.mp hq)
  · intro h
    obtain ⟨q, rfl⟩ := RawRational.reduced_iff.mp h
    refine .new (n := q.numerator) (d := q.denominator) ?_
    rw [RawRational.new_eq, Rational.newChecked_eq, Rational.new_self]
    rfl

/-! ## the order -/

/-- The value of a fraction. -/
def RawRational.toRat (self : RawRational) : ℚ := self.numerator.toInt / self.denominator.toInt

namespace Rational

variable {a b : Rational}

theorem toRat_injective : Function.Injective toRat := by
  intro a b h
  have hnum (q : Rational) : q.toRat.num = q.numerator.toInt :=
    Rat.num_div_eq_of_coprime q.denominator_pos q.reduced
  have hden (q : Rational) : (q.toRat.den : Int) = q.denominator.toInt :=
    Rat.den_div_eq_of_coprime q.denominator_pos q.reduced
  rw [ext_iff', ← Int64.toInt_inj, ← Int64.toInt_inj, ← hnum, ← hnum, ← hden, ← hden, h]
  exact ⟨rfl, rfl⟩

theorem toRat_lt_iff : a.toRat < b.toRat ↔
    a.numerator.toInt * b.denominator.toInt < b.numerator.toInt * a.denominator.toInt := by
  have ha : (0 : ℚ) < a.denominator.toInt := by exact_mod_cast a.denominator_pos
  have hb : (0 : ℚ) < b.denominator.toInt := by exact_mod_cast b.denominator_pos
  rw [toRat, toRat, div_lt_div_iff₀ ha hb]
  exact_mod_cast Iff.rfl

theorem lt_iff_toRat : a < b ↔ a.toRat < b.toRat := lt_iff.trans toRat_lt_iff.symm

theorem le_iff_toRat : a ≤ b ↔ a.toRat ≤ b.toRat := by
  rw [← not_lt, ← lt_iff_toRat, ← not_le, not_not]

theorem not_lt : ¬ a < b ↔ b ≤ a := by
  rw [← not_le, not_not]

theorem le_of_lt (h : a < b) : a ≤ b := le_iff_toRat.mpr (lt_iff_toRat.mp h).le

/-- Cross multiplication by positive denominators compares the values. -/
theorem compare_cross (a b : Rational) :
    compare (a.numerator.toInt * b.denominator.toInt) (b.numerator.toInt * a.denominator.toInt) =
      compare a.toRat b.toRat := by
  rcases lt_trichotomy a.toRat b.toRat with hlt | heq | hgt
  · rw [compare_lt_iff_lt.mpr hlt, compare_lt_iff_lt.mpr (toRat_lt_iff.mp hlt)]
  · obtain rfl := toRat_injective heq
    rw [compare_eq_iff_eq.mpr rfl, compare_eq_iff_eq.mpr rfl]
  · rw [compare_gt_iff_gt.mpr hgt, compare_gt_iff_gt.mpr (toRat_lt_iff.mp hgt)]

theorem canonicalBytes_inj : a.raw.canonicalBytes = b.raw.canonicalBytes ↔ a = b := by
  constructor
  · intro h
    exact ext_iff'.mpr (RawRational.mk.inj (RawRational.prefixFree_put.injective h))
  · rintro rfl
    rfl

end Rational

theorem isLE_compare {α : Type*} [LinearOrder α] {x y : α} : (compare x y).isLE ↔ x ≤ y := by
  rw [← compare_le_iff_le, Ordering.isLE_iff_ne_gt]

theorem isLT_compare {α : Type*} [LinearOrder α] (x y : α) :
    (compare x y).isLT = decide (x < y) := by
  rw [Bool.eq_iff_iff, decide_eq_true_iff, ← compare_lt_iff_lt, Ordering.isLT_iff_eq_lt]

section

variable {ε : Type}

/-- The products of a comparison do not overflow. -/
theorem RawRational.cmp_eq (a b : Rational) :
    (a.raw.cmp b.raw : Computation ε Ordering) = lift (.ok (compare a.toRat b.toRat)) := by
  have hleft : Fits 127 (a.numerator.toInt * b.denominator.toInt) :=
    (a.fits_cross b).mono (by decide)
  have hright : Fits 127 (b.numerator.toInt * a.denominator.toInt) :=
    (b.fits_cross a).mono (by decide)
  rw [← Rational.compare_cross]
  simp only [RawRational.cmp, Rational.raw, mul, exactly_of_fits hleft, exactly_of_fits hright,
    lift_ok_bind]
  rfl

/-- A range holds the times of a half-open interval. -/
theorem RawRange.contains_eq (start stop time : Rational) :
    ((⟨start.raw, stop.raw⟩ : RawRange).contains time.raw : Computation ε Bool) =
      lift (.ok (decide (time.toRat ∈ Set.Ico start.toRat stop.toRat))) := by
  unfold RawRange.contains
  rw [RawRational.cmp_eq, RawRational.cmp_eq, lift_ok_bind, lift_ok_bind]
  by_cases hle : start.toRat ≤ time.toRat
  · rw [if_pos (isLE_compare.mpr hle)]
    simp [Set.mem_Ico, hle, pure_eq_lift, isLT_compare]
  · rw [if_neg (mt isLE_compare.mp hle)]
    simp [Set.mem_Ico, hle, pure_eq_lift]

/-- A range is made of two rationals in increasing order. -/
theorem RawRange.new_eq {start stop : Rational} (h : start.toRat < stop.toRat) :
    RawRange.new start.raw stop.raw = lift (.ok ⟨start.raw, stop.raw⟩) := by
  unfold RawRange.new
  rw [RawRational.cmp_eq, lift_ok_bind, compare_lt_iff_lt.mpr h]
  rfl

end

/-- Two adjacent half-open intervals split their union. -/
theorem mem_Ico_iff_xor {α : Type*} [LinearOrder α] {a b c t : α} (hab : a < b) (hbc : b < c) :
    t ∈ Set.Ico a c ↔ Xor (t ∈ Set.Ico a b) (t ∈ Set.Ico b c) := by
  rcases lt_or_ge t b with hlt | hge
  · simp [Set.mem_Ico, xor_def, hlt, hlt.not_ge, hlt.trans hbc]
  · simp [Set.mem_Ico, xor_def, hge, hge.not_gt, hab.le.trans hge]

/-- **One representation for each value**: every rational that the operations
make is in lowest terms with a positive denominator.  So equality of the
fields, `Equal` from `cmp` and equality of the bytes are equality in ℚ, `cmp`
is the order of ℚ and never overflows, and adjacent ranges split the range
that they cover. -/
theorem rationals_represent_values :
    (∀ q, Made q →
      0 < q.denominator.toInt ∧ Int.gcd q.numerator.toInt q.denominator.toInt = 1) ∧
    (∀ a b, Made a → Made b →
      ((a == b) = true ↔ a.toRat = b.toRat) ∧
      (a.cmp b = (lift (.ok .eq) : Computation TimeError Ordering) ↔ a.toRat = b.toRat) ∧
      (a.canonicalBytes = b.canonicalBytes ↔ a.toRat = b.toRat) ∧
      a.cmp b = (lift (.ok (compare a.toRat b.toRat)) : Computation TimeError Ordering)) ∧
    ∀ a b c t, Made a → Made b → Made c → Made t → a.toRat < b.toRat → b.toRat < c.toRat →
      ∃ whole left right : RawRange, ∃ inWhole inLeft inRight : Bool,
        RawRange.new a c = lift (.ok whole) ∧ RawRange.new a b = lift (.ok left) ∧
        RawRange.new b c = lift (.ok right) ∧
        whole.contains t = (lift (.ok inWhole) : Computation TimeError Bool) ∧
        left.contains t = (lift (.ok inLeft) : Computation TimeError Bool) ∧
        right.contains t = (lift (.ok inRight) : Computation TimeError Bool) ∧
        (inWhole = true ↔ Xor (inLeft = true) (inRight = true)) := by
  refine ⟨fun q hq => made_iff.mp hq, ?_, ?_⟩
  · intro a b ha hb
    obtain ⟨a, rfl⟩ := RawRational.reduced_iff.mp (made_iff.mp ha)
    obtain ⟨b, rfl⟩ := RawRational.reduced_iff.mp (made_iff.mp hb)
    have heq : a.raw.toRat = b.raw.toRat ↔ a = b := Rational.toRat_injective.eq_iff
    have hraw : a.raw = b.raw ↔ a = b := by
      rw [Rational.ext_iff']
      exact RawRational.mk.injEq .. ▸ Iff.rfl
    have hcompare : compare a.toRat b.toRat = .eq ↔ a = b :=
      compare_eq_iff_eq.trans Rational.toRat_injective.eq_iff
    refine ⟨?_, ?_, ?_, RawRational.cmp_eq a b⟩
    · rw [beq_iff_eq, heq, hraw]
    · rw [RawRational.cmp_eq, lift_inj, Except.ok.injEq, heq, hcompare]
    · rw [heq, Rational.canonicalBytes_inj]
  · intro a b c t ha hb hc ht hab hbc
    obtain ⟨a, rfl⟩ := RawRational.reduced_iff.mp (made_iff.mp ha)
    obtain ⟨b, rfl⟩ := RawRational.reduced_iff.mp (made_iff.mp hb)
    obtain ⟨c, rfl⟩ := RawRational.reduced_iff.mp (made_iff.mp hc)
    obtain ⟨t, rfl⟩ := RawRational.reduced_iff.mp (made_iff.mp ht)
    refine ⟨_, _, _, _, _, _, RawRange.new_eq (hab.trans hbc), RawRange.new_eq hab,
      RawRange.new_eq hbc, RawRange.contains_eq a c t, RawRange.contains_eq a b t,
      RawRange.contains_eq b c t, ?_⟩
    simp only [decide_eq_true_eq]
    exact mem_Ico_iff_xor hab hbc

end StitchEditor
