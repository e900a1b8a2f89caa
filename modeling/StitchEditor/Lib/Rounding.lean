import Mathlib

/-!
# StitchEditor.Lib.Rounding

Rounding to an integer, in an ordered field.

Each way to round is a relation between a value and an integer; the integer
is unique, and for a quotient of integers it is found by Euclidean division.
-/

namespace Rounding

variable {K : Type*} [Field K] [LinearOrder K] [IsStrictOrderedRing K] {x y : K} {k l n d : ℤ}

/-! ## relations -/

def IsFloor (x : K) (k : ℤ) : Prop := 0 ≤ x - k ∧ x - k < 1

def IsCeil (x : K) (k : ℤ) : Prop := -1 < x - k ∧ x - k ≤ 0

/-- A nearest integer; of two, the even one. -/
def IsNearestEven (x : K) (k : ℤ) : Prop := |x - k| ≤ 1 / 2 ∧ (|x - k| = 1 / 2 → Even k)

/-- Nearest integers that are 1 apart are neighbours, and one of them is odd. -/
theorem IsNearestEven.not_apart (hk : IsNearestEven x k) (hl : IsNearestEven x l) :
    ¬ (1 : K) ≤ l - k := by
  intro hle
  have hxk := (abs_le.mp hk.1).2
  have hxl := (abs_le.mp hl.1).1
  have hk2 : x - k = 1 / 2 := by linarith only [hle, hxk, hxl]
  have hl2 : x - l = -(1 / 2) := by linarith only [hle, hxk, hxl]
  have hkeven : Even k := hk.2 (by rw [hk2, abs_of_pos one_half_pos])
  have hleven : Even l := hl.2 (by rw [hl2, abs_neg, abs_of_pos one_half_pos])
  have hsucc : l = k + 1 := by
    have hcast : (l : K) = (k + 1 : ℤ) := by
      push_cast
      linarith only [hk2, hl2]
    exact_mod_cast hcast
  subst hsucc
  exact absurd hkeven.add_one (Int.not_odd_iff_even.mpr hleven)

/-! ## order -/

theorem IsFloor.mono (hk : IsFloor x k) (hxy : x ≤ y) (hl : IsFloor y l) : k ≤ l := by
  have hlt : (k : K) < (l + 1 : ℤ) := by
    push_cast
    linarith [hk.1, hl.2]
  exact Int.lt_add_one_iff.mp (by exact_mod_cast hlt)

theorem IsCeil.mono (hk : IsCeil x k) (hxy : x ≤ y) (hl : IsCeil y l) : k ≤ l := by
  have hlt : (k : K) < (l + 1 : ℤ) := by
    push_cast
    linarith [hk.1, hl.2]
  exact Int.lt_add_one_iff.mp (by exact_mod_cast hlt)

/-- Only values in the middle of two integers could be rounded the wrong way
round, and then they are the same value. -/
theorem IsNearestEven.mono (hk : IsNearestEven x k) (hxy : x ≤ y) (hl : IsNearestEven y l) :
    k ≤ l := by
  by_contra hlt
  have hle : ((l + 1 : ℤ) : K) ≤ k := by exact_mod_cast Int.add_one_le_of_lt (Int.not_le.mp hlt)
  push_cast at hle
  have hxk := (abs_le.mp hk.1).1
  have hyl := (abs_le.mp hl.1).2
  obtain rfl : x = y := le_antisymm hxy (by linarith only [hle, hxk, hyl])
  exact hl.not_apart hk (by linarith only [hle])

theorem IsFloor.unique (hk : IsFloor x k) (hl : IsFloor x l) : k = l :=
  le_antisymm (hk.mono le_rfl hl) (hl.mono le_rfl hk)

theorem IsCeil.unique (hk : IsCeil x k) (hl : IsCeil x l) : k = l :=
  le_antisymm (hk.mono le_rfl hl) (hl.mono le_rfl hk)

theorem IsNearestEven.unique (hk : IsNearestEven x k) (hl : IsNearestEven x l) : k = l :=
  le_antisymm (hk.mono le_rfl hl) (hl.mono le_rfl hk)

/-- Values one apart have different floors. -/
theorem IsFloor.lt (hk : IsFloor x k) (hxy : 1 ≤ y - x) (hl : IsFloor y l) : k < l := by
  have hlt : (k : K) < l := by linarith [hk.1, hl.2]
  exact_mod_cast hlt

theorem IsCeil.lt (hk : IsCeil x k) (hxy : 1 ≤ y - x) (hl : IsCeil y l) : k < l := by
  have hlt : (k : K) < l := by linarith [hk.1, hl.2]
  exact_mod_cast hlt

/-- Values one apart may be rounded to the even integer between them. -/
theorem IsNearestEven.lt (hk : IsNearestEven x k) (hxy : 1 < y - x) (hl : IsNearestEven y l) :
    k < l := by
  have hlt : (k : K) < l := by
    linarith only [hxy, (abs_le.mp hk.1).1, (abs_le.mp hl.1).2]
  exact_mod_cast hlt

/-! ## quotients -/

/-- What Euclidean division leaves. -/
theorem div_sub_ediv (hd : 0 < d) : (n : K) / d - (n / d : ℤ) = (n % d : ℤ) / d := by
  have hd' : (d : K) ≠ 0 := by exact_mod_cast hd.ne'
  have hsplit : (n : K) = d * (n / d : ℤ) + (n % d : ℤ) := by
    exact_mod_cast (Int.mul_ediv_add_emod n d).symm
  rw [div_sub' hd', div_left_inj' hd']
  linear_combination hsplit

/-- The remainder is a proper part of the divisor. -/
theorem emod_div_mem (hd : 0 < d) :
    0 ≤ ((n % d : ℤ) : K) / d ∧ ((n % d : ℤ) : K) / d < 1 := by
  have hd' : (0 : K) < d := by exact_mod_cast hd
  have hnonneg : (0 : K) ≤ (n % d : ℤ) := by exact_mod_cast Int.emod_nonneg n hd.ne'
  have hlt : ((n % d : ℤ) : K) < d := by exact_mod_cast Int.emod_lt_of_pos n hd
  exact ⟨div_nonneg hnonneg hd'.le, (div_lt_one hd').mpr hlt⟩

theorem isFloor_ediv (hd : 0 < d) : IsFloor ((n : K) / d) (n / d) := by
  unfold IsFloor
  rw [div_sub_ediv hd]
  exact emod_div_mem hd

theorem isCeil_ediv (hd : 0 < d) :
    IsCeil ((n : K) / d) (n / d + if n % d ≠ 0 then 1 else 0) := by
  have hd' : (0 : K) < d := by exact_mod_cast hd
  have hmem := emod_div_mem (K := K) (n := n) hd
  have hsub := div_sub_ediv (K := K) (n := n) hd
  unfold IsCeil
  by_cases hzero : n % d = 0
  · have hrest : (n : K) / d - (n / d : ℤ) = 0 := by rw [hsub, hzero]; simp
    rw [if_neg (not_not.mpr hzero), add_zero, hrest]
    norm_num
  · have hpos : (0 : K) < ((n % d : ℤ) : K) / d := by
      refine div_pos ?_ hd'
      have := Int.emod_nonneg n hd.ne'
      exact_mod_cast (by omega : 0 < n % d)
    rw [if_pos hzero]
    rw [Int.cast_add, Int.cast_one, ← sub_sub, hsub]
    exact ⟨by linarith only [hpos], sub_nonpos.mpr hmem.2.le⟩

theorem emod_div_lt_half_iff (hd : 0 < d) :
    ((n % d : ℤ) : K) / d < 1 / 2 ↔ 2 * (n % d) < d := by
  have hd' : (0 : K) < d := by exact_mod_cast hd
  rw [div_lt_div_iff₀ hd' two_pos, one_mul, mul_comm]
  exact_mod_cast Iff.rfl

theorem emod_div_eq_half_iff (hd : 0 < d) :
    ((n % d : ℤ) : K) / d = 1 / 2 ↔ 2 * (n % d) = d := by
  have hd' : (d : K) ≠ 0 := by exact_mod_cast hd.ne'
  rw [div_eq_div_iff hd' two_ne_zero, one_mul, mul_comm]
  exact_mod_cast Iff.rfl

/-- Twice the remainder against the divisor tells which neighbour is nearer. -/
theorem isNearestEven_ediv (hd : 0 < d) :
    IsNearestEven ((n : K) / d)
      (if 2 * (n % d) < d ∨ 2 * (n % d) = d ∧ (n / d) % 2 = 0 then n / d else n / d + 1) := by
  have hmem := emod_div_mem (K := K) (n := n) hd
  have hsub := div_sub_ediv (K := K) (n := n) hd
  have hhalf := emod_div_lt_half_iff (K := K) (n := n) hd
  have htie := emod_div_eq_half_iff (K := K) (n := n) hd
  unfold IsNearestEven
  by_cases hlow : 2 * (n % d) < d ∨ 2 * (n % d) = d ∧ (n / d) % 2 = 0
  · rw [if_pos hlow, hsub, abs_of_nonneg hmem.1]
    constructor
    · rcases hlow with hlt | ⟨heq, -⟩
      · exact (hhalf.mpr hlt).le
      · exact (htie.mpr heq).le
    · intro hhalf'
      rcases hlow with hlt | ⟨-, heven⟩
      · exact absurd hhalf' (hhalf.mpr hlt).ne
      · exact Int.even_iff.mpr heven
  · have hge : ¬ 2 * (n % d) < d := fun h => hlow (.inl h)
    have hsub' : (n : K) / d - ((n / d + 1 : ℤ) : K) = ((n % d : ℤ) : K) / d - 1 := by
      rw [Int.cast_add, Int.cast_one, ← sub_sub, hsub]
    have hlow' : 1 / 2 ≤ ((n % d : ℤ) : K) / d := not_lt.mp (mt hhalf.mp hge)
    rw [if_neg hlow, hsub', abs_of_nonpos (sub_nonpos.mpr hmem.2.le)]
    constructor
    · linarith only [hlow']
    · intro hhalf'
      have heq : 2 * (n % d) = d := htie.mp (by linarith only [hhalf'])
      have hodd : ¬ (n / d) % 2 = 0 := fun h => hlow (.inr ⟨heq, h⟩)
      exact Int.even_iff.mpr (by omega)

end Rounding
