import Mathlib
import StitchEditor.Contracts.Adapter
import StitchEditor.Contracts.Order

/-!
# StitchEditor.Contracts.Sequence

`adapt_absolute_sequence`, which adapts a list of times one by one.

The loop carries what is adapted so far and the time before.  Each time is
adapted on its own, so nothing accumulates; rounding is monotone, so ticks
can collapse but never run backwards.
-/

namespace StitchEditor

open Trap Rounding

/-! ## the code -/

/-- One iteration, on the adapted times so far and the previous time. -/
def adaptNext (unit : AdapterUnit) (policy : RoundingPolicy)
    (state : List AdaptedTime × Option Rational) (time : Rational) :
    Computation TimeError (List AdaptedTime × Option Rational) := do
  let (adapted, previous) := state
  if previous.any fun previousTime => time ≤ previousTime then throw .invalidRange
  let next ← adaptAbsolute time unit policy
  if adapted.getLast?.any fun previousTime => next.ticks ≤ previousTime.ticks then
    throw .nonMonotonicAdaptedTicks
  pure (adapted ++ [next], some time)

def adaptAbsoluteSequence (canonicalTimes : List Rational) (unit : AdapterUnit)
    (policy : RoundingPolicy) : Computation TimeError (List AdaptedTime) := do
  let (adapted, _) ← canonicalTimes.foldlM (adaptNext unit policy) ([], none)
  pure adapted

/-! ## one time -/

variable {unit : AdapterUnit} {policy : RoundingPolicy}

theorem AdapterUnit.eq_of_ticksPerSecond {e : TimeError} (h : unit.ticksPerSecond = .error e) :
    e = .invalidUnit ∨ e = .overflow := by
  unfold AdapterUnit.ticksPerSecond at h
  split at h
  · exact .inl (Except.error.inj h).symm
  · split at h
    · cases h
    · exact .inr (Except.error.inj h).symm

/-- The ticks of an adapted time are its scaled value, rounded. -/
theorem rounds_of_adapted {time : Rational} {adapted : AdaptedTime}
    (h : adaptAbsolute time unit policy = lift (.ok adapted)) :
    unit.Valid ∧ policy.Rounds (scaled time unit) adapted.ticks.toInt := by
  by_cases hunit : unit.Valid
  · obtain ⟨k, hrounds, ⟨-, heq⟩ | ⟨hk, result, -, heq⟩⟩ := adaptAbsolute_eq time hunit policy
    · cases lift_injective (h.symm.trans heq)
    · have hresult := lift_injective (h.symm.trans heq)
      cases result with
      | error e => cases hresult
      | ok error =>
          cases hresult
          exact ⟨hunit, by rw [hk.toInt_ofInt]; exact hrounds⟩
  · obtain ⟨e, heq⟩ := adaptAbsolute_of_not_valid time hunit policy
    cases lift_injective (h.symm.trans heq)

/-- A time on its own fails with its unit or by overflow. -/
theorem eq_of_adaptAbsolute_error {time : Rational} {e : TimeError}
    (h : adaptAbsolute time unit policy = lift (.error e)) : e = .invalidUnit ∨ e = .overflow := by
  by_cases hunit : unit.Valid
  · obtain ⟨k, -, ⟨-, heq⟩ | ⟨-, result, hcomputes, heq⟩⟩ := adaptAbsolute_eq time hunit policy
    · cases lift_injective (h.symm.trans heq)
      exact .inr rfl
    · have hresult := lift_injective (h.symm.trans heq)
      cases result with
      | error e' =>
          cases hresult
          exact .inr (hcomputes.eq_overflow)
      | ok error => cases hresult
  · obtain ⟨e', heq⟩ := AdapterUnit.ticksPerSecond_of_not_valid hunit
    rw [adaptAbsolute, heq, lift_error_bind, lift_inj] at h
    cases h
    exact AdapterUnit.eq_of_ticksPerSecond heq

namespace RoundingPolicy

/-- A gap between values that keeps them apart when they are rounded to
multiples of a tick: of the tick itself, or of more. -/
def Separates : RoundingPolicy → (tick gap : ℚ) → Prop
  | .floor, tick, gap | .ceil, tick, gap => tick ≤ gap
  | .nearestEven, tick, gap => tick < gap

theorem Separates.scale {tick gap rate : ℚ} (h : policy.Separates tick gap) (hrate : 0 < rate) :
    policy.Separates (tick * rate) (gap * rate) := by
  cases policy with
  | floor => exact mul_le_mul_of_nonneg_right h hrate.le
  | ceil => exact mul_le_mul_of_nonneg_right h hrate.le
  | nearestEven => exact mul_lt_mul_of_pos_right h hrate

theorem Rounds.mono {x y : ℚ} {k l : Int} (hk : policy.Rounds x k) (hxy : x ≤ y)
    (hl : policy.Rounds y l) : k ≤ l := by
  cases policy with
  | floor => exact IsFloor.mono hk hxy hl
  | ceil => exact IsCeil.mono hk hxy hl
  | nearestEven => exact IsNearestEven.mono hk hxy hl

theorem Rounds.lt {x y : ℚ} {k l : Int} (hk : policy.Rounds x k) (hxy : policy.Separates 1 (y - x))
    (hl : policy.Rounds y l) : k < l := by
  cases policy with
  | floor => exact IsFloor.lt hk hxy hl
  | ceil => exact IsCeil.lt hk hxy hl
  | nearestEven => exact IsNearestEven.lt hk hxy hl

end RoundingPolicy

section

variable {previous time : Rational} {adapted next : AdaptedTime}

/-- **Ticks never decrease.** -/
theorem ticks_mono (hadapted : adaptAbsolute previous unit policy = lift (.ok adapted))
    (hle : previous ≤ time) (hnext : adaptAbsolute time unit policy = lift (.ok next)) :
    adapted.ticks ≤ next.ticks := by
  have hscaled : scaled previous unit ≤ scaled time unit :=
    mul_le_mul_of_nonneg_right (Rational.le_iff_toRat.mp hle) (Nat.cast_nonneg _)
  exact Int64.le_iff_toInt_le.mpr
    ((rounds_of_adapted hadapted).2.mono hscaled (rounds_of_adapted hnext).2)

/-- Times that are far enough apart keep their ticks apart. -/
theorem ticks_lt (hadapted : adaptAbsolute previous unit policy = lift (.ok adapted))
    (hgap : policy.Separates (1 / unit.rate.toNat) (time.toRat - previous.toRat))
    (hnext : adaptAbsolute time unit policy = lift (.ok next)) : adapted.ticks < next.ticks := by
  obtain ⟨hunit, hrounds⟩ := rounds_of_adapted hadapted
  have hrate : (0 : ℚ) < unit.rate.toNat := by exact_mod_cast hunit.1
  have hscaled := hgap.scale hrate
  rw [one_div_mul_cancel hrate.ne', sub_mul] at hscaled
  exact Int64.lt_iff_toInt_lt.mpr (hrounds.lt hscaled (rounds_of_adapted hnext).2)

end

/-! ## one iteration -/

/-- The time comes after the previous one. -/
def After (previous : Option Rational) (time : Rational) : Prop := ∀ p ∈ previous, p < time

theorem after_iff {previous : Option Rational} {time : Rational} :
    After previous time ↔ (previous.any fun p => time ≤ p) = false := by
  cases previous with
  | none => simp [After]
  | some p => simp [After, ← Rational.not_le]

/-- Adapted times in the order of their ticks. -/
def AdaptedTime.Before (a b : AdaptedTime) : Prop := a.ticks < b.ticks

/-- The ticks come after those of the time adapted last. -/
def TicksAfter (last : Option AdaptedTime) (next : AdaptedTime) : Prop :=
  ∀ a ∈ last, a.Before next

theorem ticksAfter_iff {last : Option AdaptedTime} {next : AdaptedTime} :
    TicksAfter last next ↔ (last.any fun a => next.ticks ≤ a.ticks) = false := by
  cases last with
  | none => simp [TicksAfter]
  | some a => simp [TicksAfter, AdaptedTime.Before]

section

variable {adapted : List AdaptedTime} {previous : Option Rational} {time : Rational}

/-- **What an iteration does**, check by check. -/
theorem adaptNext_cases (unit : AdapterUnit) (policy : RoundingPolicy) (adapted : List AdaptedTime)
    (previous : Option Rational) (time : Rational) :
    (¬ After previous time ∧
      adaptNext unit policy (adapted, previous) time = lift (.error .invalidRange)) ∨
    After previous time ∧
      ((∃ e, adaptAbsolute time unit policy = lift (.error e) ∧
          adaptNext unit policy (adapted, previous) time = lift (.error e)) ∨
        ∃ next, adaptAbsolute time unit policy = lift (.ok next) ∧
          ((¬ TicksAfter adapted.getLast? next ∧ adaptNext unit policy (adapted, previous) time =
              lift (.error .nonMonotonicAdaptedTicks)) ∨
            TicksAfter adapted.getLast? next ∧ adaptNext unit policy (adapted, previous) time =
              lift (.ok (adapted ++ [next], some time)))) := by
  unfold adaptNext
  dsimp only
  by_cases hafter : After previous time
  · right
    refine ⟨hafter, ?_⟩
    rw [if_neg (by simp [after_iff.mp hafter])]
    obtain ⟨result, hresult⟩ := adaptAbsolute_total time unit policy
    cases result with
    | error e => exact .inl ⟨e, hresult, by rw [hresult]; rfl⟩
    | ok next =>
        refine .inr ⟨next, hresult, ?_⟩
        rw [hresult]
        by_cases hticks : TicksAfter adapted.getLast? next
        · right
          refine ⟨hticks, ?_⟩
          have hany := ticksAfter_iff.mp hticks
          simp [hany]
          rfl
        · left
          refine ⟨hticks, ?_⟩
          have hany := ticksAfter_iff.not.mp hticks
          simp [hany]
          rfl
  · left
    refine ⟨hafter, ?_⟩
    rw [if_pos (by simpa using after_iff.not.mp hafter)]
    rfl

theorem adaptNext_total (unit : AdapterUnit) (policy : RoundingPolicy) (adapted : List AdaptedTime)
    (previous : Option Rational) (time : Rational) :
    ∃ result, adaptNext unit policy (adapted, previous) time = lift result := by
  rcases adaptNext_cases unit policy adapted previous time with
    ⟨-, h⟩ | ⟨-, ⟨e, -, h⟩ | ⟨next, -, ⟨-, h⟩ | ⟨-, h⟩⟩⟩
  · exact ⟨_, h⟩
  · exact ⟨_, h⟩
  · exact ⟨_, h⟩
  · exact ⟨_, h⟩

theorem adaptNext_eq_ok_iff {state : List AdaptedTime × Option Rational} :
    adaptNext unit policy (adapted, previous) time = lift (.ok state) ↔
      After previous time ∧ ∃ next, adaptAbsolute time unit policy = lift (.ok next) ∧
        TicksAfter adapted.getLast? next ∧ state = (adapted ++ [next], some time) := by
  rcases adaptNext_cases unit policy adapted previous time with
    ⟨hafter, h⟩ | ⟨hafter, ⟨e, hresult, h⟩ | ⟨next, hresult, ⟨hticks, h⟩ | ⟨hticks, h⟩⟩⟩
  · simp [h, hafter]
  · simp [h, hresult]
  · simp [h, hresult, hticks]
  · simp [h, hresult, hafter, hticks, eq_comm]

theorem adaptNext_eq_error_iff {e : TimeError} :
    adaptNext unit policy (adapted, previous) time = lift (.error e) ↔
      (¬ After previous time ∧ e = .invalidRange) ∨
      (After previous time ∧ adaptAbsolute time unit policy = lift (.error e)) ∨
      After previous time ∧ ∃ next, adaptAbsolute time unit policy = lift (.ok next) ∧
        ¬ TicksAfter adapted.getLast? next ∧ e = .nonMonotonicAdaptedTicks := by
  rcases adaptNext_cases unit policy adapted previous time with
    ⟨hafter, h⟩ | ⟨hafter, ⟨e, hresult, h⟩ | ⟨next, hresult, ⟨hticks, h⟩ | ⟨hticks, h⟩⟩⟩
  · simp [h, hafter, eq_comm]
  · simp [h, hresult, hafter]
  · simp [h, hresult, hafter, hticks, eq_comm]
  · simp [h, hresult, hafter, hticks]

end

/-! ## the loop -/

/-- The times are in order, each adapts on its own, and the ticks are in
order. -/
structure AdaptsTo (unit : AdapterUnit) (policy : RoundingPolicy) (times : List Rational)
    (adapted : List AdaptedTime) : Prop where
  increasing : times.Pairwise (· < ·)
  each : List.Forall₂ (fun time a => adaptAbsolute time unit policy = lift (.ok a)) times adapted
  ticks : adapted.Pairwise AdaptedTime.Before

/-- A list stays in order when what is added comes after its last element. -/
theorem pairwise_concat_iff {α : Type*} {R : α → α → Prop} [Trans R R R] {l : List α} {a : α} :
    (l ++ [a]).Pairwise R ↔ l.Pairwise R ∧ ∀ b ∈ l.getLast?, R b a := by
  simp only [← List.isChain_iff_pairwise, List.isChain_append]
  simp

instance : Trans (α := Rational) (· < ·) (· < ·) (· < ·) where
  trans h h' := Rational.lt_iff_toRat.mpr
    ((Rational.lt_iff_toRat.mp h).trans (Rational.lt_iff_toRat.mp h'))

instance : Trans AdaptedTime.Before AdaptedTime.Before AdaptedTime.Before where
  trans h h' := Int64.lt_trans h h'

variable {times : List Rational} {adapted : List AdaptedTime}

theorem AdaptsTo.concat_iff {time : Rational} {next : AdaptedTime} :
    AdaptsTo unit policy (times ++ [time]) (adapted ++ [next]) ↔
      AdaptsTo unit policy times adapted ∧ After times.getLast? time ∧
        adaptAbsolute time unit policy = lift (.ok next) ∧ TicksAfter adapted.getLast? next := by
  constructor
  · rintro ⟨hincreasing, heach, hticks⟩
    obtain ⟨hincreasing, hafter⟩ := pairwise_concat_iff.mp hincreasing
    obtain ⟨hticks, hlast⟩ := pairwise_concat_iff.mp hticks
    rw [← List.forall₂_reverse_iff, List.reverse_append, List.reverse_append] at heach
    obtain ⟨hnext, heach⟩ := List.forall₂_cons.mp heach
    exact ⟨⟨hincreasing, List.forall₂_reverse_iff.mp heach, hticks⟩, hafter, hnext, hlast⟩
  · rintro ⟨⟨hincreasing, heach, hticks⟩, hafter, hnext, hlast⟩
    exact ⟨pairwise_concat_iff.mpr ⟨hincreasing, hafter⟩,
      List.rel_append heach (.cons hnext .nil), pairwise_concat_iff.mpr ⟨hticks, hlast⟩⟩

/-- **The loop succeeds** with what the times adapt to. -/
theorem foldlM_adaptNext_eq_ok_iff {state : List AdaptedTime × Option Rational} :
    times.foldlM (adaptNext unit policy) ([], none) = lift (.ok state) ↔
      AdaptsTo unit policy times state.1 ∧ state.2 = times.getLast? := by
  induction times using List.reverseRecOn generalizing state with
  | nil =>
      obtain ⟨adapted, previous⟩ := state
      simp only [List.foldlM_nil, pure_eq_lift, lift_inj, Except.ok.injEq, Prod.mk.injEq,
        List.getLast?_nil]
      constructor
      · rintro ⟨rfl, rfl⟩
        exact ⟨⟨.nil, .nil, .nil⟩, rfl⟩
      · rintro ⟨⟨-, heach, -⟩, rfl⟩
        exact ⟨(List.forall₂_nil_left_iff.mp heach).symm, rfl⟩
  | append_singleton times time ih =>
      rw [foldlM_concat_eq_ok_iff]
      constructor
      · rintro ⟨⟨adapted, previous⟩, hloop, hstep⟩
        obtain ⟨hadapts, rfl⟩ := ih.mp hloop
        obtain ⟨hafter, next, hnext, hlast, rfl⟩ := adaptNext_eq_ok_iff.mp hstep
        exact ⟨AdaptsTo.concat_iff.mpr ⟨hadapts, hafter, hnext, hlast⟩, by simp⟩
      · obtain ⟨adapted, previous⟩ := state
        rintro ⟨hadapts, rfl⟩
        obtain rfl | ⟨adapted, next, rfl⟩ := List.eq_nil_or_concat' adapted
        · simpa using hadapts.each.length_eq
        obtain ⟨hadapts, hafter, hnext, hlast⟩ := AdaptsTo.concat_iff.mp hadapts
        exact ⟨_, ih.mpr ⟨hadapts, rfl⟩,
          adaptNext_eq_ok_iff.mpr ⟨hafter, next, hnext, hlast, by simp⟩⟩

/-! ## offences -/

/-- What an index of the times offends against, given that the indices
before it do not. -/
inductive Offends (times : List Rational) (unit : AdapterUnit) (policy : RoundingPolicy) :
    Nat → TimeError → Prop where
  /-- The time does not come after the one before. -/
  | range {i : Nat} {previous time : Rational} (hprevious : times[i]? = some previous)
      (htime : times[i + 1]? = some time) (hle : time ≤ previous) :
      Offends times unit policy (i + 1) .invalidRange
  /-- The first time does not adapt. -/
  | first {time : Rational} {e : TimeError} (htime : times[0]? = some time)
      (hresult : adaptAbsolute time unit policy = lift (.error e)) : Offends times unit policy 0 e
  /-- A time that comes after the one before does not adapt. -/
  | element {i : Nat} {previous time : Rational} {e : TimeError}
      (hprevious : times[i]? = some previous) (htime : times[i + 1]? = some time)
      (hlt : previous < time) (hresult : adaptAbsolute time unit policy = lift (.error e)) :
      Offends times unit policy (i + 1) e
  /-- A time adapts to ticks that do not come after those of the one before. -/
  | ticks {i : Nat} {previous time : Rational} {adapted next : AdaptedTime}
      (hprevious : times[i]? = some previous) (htime : times[i + 1]? = some time)
      (hlt : previous < time) (hadapted : adaptAbsolute previous unit policy = lift (.ok adapted))
      (hnext : adaptAbsolute time unit policy = lift (.ok next))
      (hle : next.ticks ≤ adapted.ticks) :
      Offends times unit policy (i + 1) .nonMonotonicAdaptedTicks

/-- The last of the adapted times belongs to the last of the times. -/
theorem AdaptsTo.last {i : Nat} {previous : Rational} (hprevious : times[i]? = some previous)
    (hadapts : AdaptsTo unit policy (times.take (i + 1)) adapted) :
    (times.take (i + 1)).getLast? = some previous ∧
      ∃ last, adapted.getLast? = some last ∧
        adaptAbsolute previous unit policy = lift (.ok last) := by
  have htake : times.take (i + 1) = times.take i ++ [previous] := by
    rw [List.take_add_one, hprevious, Option.toList_some]
  rw [htake] at hadapts ⊢
  obtain rfl | ⟨adapted, last, rfl⟩ := List.eq_nil_or_concat' adapted
  · simpa using hadapts.each.length_eq
  · obtain ⟨-, -, hlast, -⟩ := AdaptsTo.concat_iff.mp hadapts
    exact ⟨by simp, last, by simp, hlast⟩

theorem offends_zero_iff {time : Rational} {e : TimeError} (htime : times[0]? = some time) :
    adaptNext unit policy ([], none) time = lift (.error e) ↔ Offends times unit policy 0 e := by
  have hafter : After none time := nofun
  have hticks (next : AdaptedTime) : TicksAfter ([] : List AdaptedTime).getLast? next := nofun
  rw [adaptNext_eq_error_iff]
  constructor
  · rintro (⟨hnot, -⟩ | ⟨-, h⟩ | ⟨-, next, -, hnot, -⟩)
    · exact absurd hafter hnot
    · exact .first htime h
    · exact absurd (hticks next) hnot
  · intro h
    cases h with
    | first htime' h =>
        cases htime.symm.trans htime'
        exact .inr (.inl ⟨hafter, h⟩)

theorem offends_succ_iff {i : Nat} {time : Rational} {e : TimeError}
    (htime : times[i + 1]? = some time)
    (hadapts : AdaptsTo unit policy (times.take (i + 1)) adapted) :
    adaptNext unit policy (adapted, (times.take (i + 1)).getLast?) time = lift (.error e) ↔
      Offends times unit policy (i + 1) e := by
  obtain ⟨previous, hprevious⟩ : ∃ previous, times[i]? = some previous :=
    ⟨_, List.getElem?_eq_getElem
      ((Nat.lt_succ_self i).trans (List.getElem?_eq_some_iff.mp htime).1)⟩
  obtain ⟨hlast, last, hadapted, hresult⟩ := hadapts.last hprevious
  have hafter : After (some previous) time ↔ previous < time := by simp [After]
  have hticks (next : AdaptedTime) : TicksAfter (some last) next ↔ last.ticks < next.ticks := by
    simp [TicksAfter, AdaptedTime.Before]
  simp only [adaptNext_eq_error_iff, hlast, hadapted, hafter, hticks]
  constructor
  · rintro (⟨hle, rfl⟩ | ⟨hlt, h⟩ | ⟨hlt, next, hnext, hle, rfl⟩)
    · exact .range hprevious htime (Rational.not_lt.mp hle)
    · exact .element hprevious htime hlt h
    · exact .ticks hprevious htime hlt hresult hnext (Int64.not_lt.mp hle)
  · intro h
    cases h with
    | range hprevious' htime' hle =>
        cases hprevious.symm.trans hprevious'
        cases htime.symm.trans htime'
        exact .inl ⟨Rational.not_lt.mpr hle, rfl⟩
    | element hprevious' htime' hlt h =>
        cases hprevious.symm.trans hprevious'
        cases htime.symm.trans htime'
        exact .inr (.inl ⟨hlt, h⟩)
    | ticks hprevious' htime' hlt hadapted' hnext hle =>
        cases hprevious.symm.trans hprevious'
        cases htime.symm.trans htime'
        cases lift_injective (hresult.symm.trans hadapted')
        exact .inr (.inr ⟨hlt, _, hnext, Int64.not_lt.mpr hle, rfl⟩)

/-- After indices without an offence, the step at an index fails with what
the index offends against. -/
theorem offends_iff {i : Nat} {time : Rational} {e : TimeError} (htime : times[i]? = some time)
    (hadapts : AdaptsTo unit policy (times.take i) adapted) :
    adaptNext unit policy (adapted, (times.take i).getLast?) time = lift (.error e) ↔
      Offends times unit policy i e := by
  cases i with
  | zero =>
      obtain rfl : adapted = [] := List.forall₂_nil_left_iff.mp hadapts.each
      exact offends_zero_iff htime
  | succ i => exact offends_succ_iff htime hadapts

theorem Offends.lt_length {i : Nat} {e : TimeError} (h : Offends times unit policy i e) :
    ∃ time, times[i]? = some time := by
  cases h with
  | range _ htime _ => exact ⟨_, htime⟩
  | first htime _ => exact ⟨_, htime⟩
  | element _ htime _ _ => exact ⟨_, htime⟩
  | ticks _ htime _ _ _ _ => exact ⟨_, htime⟩

/-- The times before an index adapt when none of them offends. -/
theorem adaptsTo_take_iff {i : Nat} (hi : i ≤ times.length) :
    (∃ adapted, AdaptsTo unit policy (times.take i) adapted) ↔
      ∀ j < i, ∀ e, ¬ Offends times unit policy j e := by
  induction i with
  | zero => exact ⟨nofun, fun _ => ⟨[], .nil, .nil, .nil⟩⟩
  | succ i ih =>
      obtain ⟨time, htime⟩ : ∃ time, times[i]? = some time := ⟨_, List.getElem?_eq_getElem hi⟩
      have htake : times.take (i + 1) = times.take i ++ [time] := by
        rw [List.take_add_one, htime, Option.toList_some]
      have hih := ih (Nat.le_of_succ_le hi)
      constructor
      · rintro ⟨adapted, hadapts⟩
        have hloop := foldlM_adaptNext_eq_ok_iff.mpr
          (⟨hadapts, rfl⟩ : AdaptsTo unit policy _ (adapted, _).1 ∧ (adapted, _).2 = _)
        rw [htake, foldlM_concat_eq_ok_iff] at hloop
        obtain ⟨⟨before, previous⟩, hbefore, hstep⟩ := hloop
        obtain ⟨hbefore, rfl⟩ := foldlM_adaptNext_eq_ok_iff.mp hbefore
        intro j hj e hoffends
        rcases Nat.lt_succ_iff_lt_or_eq.mp hj with hlt | rfl
        · exact hih.mp ⟨before, hbefore⟩ j hlt e hoffends
        · have herror := (offends_iff htime hbefore).mpr hoffends
          cases lift_injective (hstep.symm.trans herror)
      · intro hnone
        obtain ⟨before, hbefore⟩ := hih.mpr fun j hj => hnone j (Nat.lt_succ_of_lt hj)
        obtain ⟨result, hstep⟩ :=
          adaptNext_total unit policy before (times.take i).getLast? time
        cases result with
        | error e =>
            exact absurd ((offends_iff htime hbefore).mp hstep) (hnone i (Nat.lt_succ_self i) e)
        | ok state =>
            have hloop : (times.take (i + 1)).foldlM (adaptNext unit policy) ([], none) =
                lift (.ok state) := by
              rw [htake, foldlM_concat_eq_ok_iff]
              exact ⟨_, foldlM_adaptNext_eq_ok_iff.mpr ⟨hbefore, rfl⟩, hstep⟩
            exact ⟨state.1, (foldlM_adaptNext_eq_ok_iff.mp hloop).1⟩

/-- **The loop fails** with the first offence. -/
theorem foldlM_adaptNext_eq_error_iff {e : TimeError} :
    times.foldlM (adaptNext unit policy) ([], none) = lift (.error e) ↔
      ∃ i, Offends times unit policy i e ∧ ∀ j < i, ∀ e', ¬ Offends times unit policy j e' := by
  rw [foldlM_eq_error_iff]
  constructor
  · rintro ⟨i, time, ⟨adapted, previous⟩, htime, hloop, hstep⟩
    obtain ⟨hadapts, rfl⟩ := foldlM_adaptNext_eq_ok_iff.mp hloop
    have hi := (List.getElem?_eq_some_iff.mp htime).1
    exact ⟨i, (offends_iff htime hadapts).mp hstep, (adaptsTo_take_iff hi.le).mp ⟨adapted, hadapts⟩⟩
  · rintro ⟨i, hoffends, hfirst⟩
    obtain ⟨time, htime⟩ := hoffends.lt_length
    have hi := (List.getElem?_eq_some_iff.mp htime).1
    obtain ⟨adapted, hadapts⟩ := (adaptsTo_take_iff hi.le).mpr hfirst
    exact ⟨i, time, _, htime, foldlM_adaptNext_eq_ok_iff.mpr ⟨hadapts, rfl⟩,
      (offends_iff htime hadapts).mpr hoffends⟩

/-! ## the sequence -/

theorem adaptAbsoluteSequence_eq_ok_iff : adaptAbsoluteSequence times unit policy =
    lift (.ok adapted) ↔ AdaptsTo unit policy times adapted := by
  unfold adaptAbsoluteSequence
  rw [bind_eq_ok_iff]
  constructor
  · rintro ⟨⟨adapted', previous⟩, hloop, h⟩
    cases lift_injective h
    exact (foldlM_adaptNext_eq_ok_iff.mp hloop).1
  · intro h
    exact ⟨(adapted, times.getLast?), foldlM_adaptNext_eq_ok_iff.mpr ⟨h, rfl⟩, rfl⟩

theorem adaptAbsoluteSequence_eq_error_iff {e : TimeError} :
    adaptAbsoluteSequence times unit policy = lift (.error e) ↔
      ∃ i, Offends times unit policy i e ∧ ∀ j < i, ∀ e', ¬ Offends times unit policy j e' := by
  unfold adaptAbsoluteSequence
  rw [bind_eq_error_iff, foldlM_adaptNext_eq_error_iff]
  constructor
  · rintro (h | ⟨state, -, h⟩)
    · exact h
    · cases lift_injective h
  · exact .inl

theorem adaptAbsoluteSequence_total (times : List Rational) (unit : AdapterUnit)
    (policy : RoundingPolicy) :
    ∃ result, adaptAbsoluteSequence times unit policy = lift result := by
  obtain ⟨result, h⟩ := foldlM_total (l := times) (c := (([], none) : List AdaptedTime × _))
    fun c time => adaptNext_total unit policy c.1 c.2 time
  unfold adaptAbsoluteSequence
  rw [h]
  cases result with
  | error e => exact ⟨.error e, rfl⟩
  | ok state => exact ⟨.ok state.1, rfl⟩

/-- Only ticks that collapse offend as `NonMonotonicAdaptedTicks`. -/
theorem Offends.collapse {i : Nat} (h : Offends times unit policy i .nonMonotonicAdaptedTicks) :
    ∃ j previous time adapted next, times[j]? = some previous ∧
      times[j + 1]? = some time ∧ adaptAbsolute previous unit policy = lift (.ok adapted) ∧
      adaptAbsolute time unit policy = lift (.ok next) ∧
      next.ticks = adapted.ticks := by
  cases h with
  | first _ h => exact absurd (eq_of_adaptAbsolute_error h) (by decide)
  | element _ _ _ h => exact absurd (eq_of_adaptAbsolute_error h) (by decide)
  | ticks hprevious htime hlt hadapted hnext hle =>
      have hmono := ticks_mono hadapted (Rational.le_of_lt hlt) hnext
      exact ⟨_, _, _, _, _, hprevious, htime, hadapted, hnext, Int64.le_antisymm hle hmono⟩

/-- **A sequence is adapted time by time**: it succeeds exactly when the times
are in order, each adapts on its own and the ticks are in order, and otherwise
fails with the first offence.  Ticks never decrease, so they are out of order
only when two are equal, and never when the times are far enough apart. -/
theorem adaptAbsoluteSequence_exact (times : List Rational) (unit : AdapterUnit)
    (policy : RoundingPolicy) :
    ∃ result, adaptAbsoluteSequence times unit policy = lift result ∧
      (∀ v, result = .ok v ↔ AdaptsTo unit policy times v) ∧
      (∀ e, result = .error e ↔
        ∃ i, Offends times unit policy i e ∧ ∀ j < i, ∀ e', ¬ Offends times unit policy j e') ∧
      (∀ previous time adapted next, previous < time →
        adaptAbsolute previous unit policy = lift (.ok adapted) →
        adaptAbsolute time unit policy = lift (.ok next) → adapted.ticks ≤ next.ticks) ∧
      (result = .error .nonMonotonicAdaptedTicks →
        ∃ i previous time adapted next, times[i]? = some previous ∧ times[i + 1]? = some time ∧
          adaptAbsolute previous unit policy = lift (.ok adapted) ∧
          adaptAbsolute time unit policy = lift (.ok next) ∧ next.ticks = adapted.ticks) ∧
      ((∀ i previous time, times[i]? = some previous → times[i + 1]? = some time →
          policy.Separates (1 / unit.rate.toNat) (time.toRat - previous.toRat)) →
        result ≠ .error .nonMonotonicAdaptedTicks) := by
  obtain ⟨result, hresult⟩ := adaptAbsoluteSequence_total times unit policy
  have hcollapse (h : result = .error .nonMonotonicAdaptedTicks) :
      ∃ i, Offends times unit policy i .nonMonotonicAdaptedTicks := by
    obtain ⟨i, hoffends, -⟩ := adaptAbsoluteSequence_eq_error_iff.mp (h ▸ hresult)
    exact ⟨i, hoffends⟩
  refine ⟨result, hresult, ?_, ?_, ?_, ?_, ?_⟩
  · intro v
    rw [← adaptAbsoluteSequence_eq_ok_iff, hresult, lift_inj]
  · intro e
    rw [← adaptAbsoluteSequence_eq_error_iff, hresult, lift_inj]
  · intro previous time adapted next hlt hadapted hnext
    exact ticks_mono hadapted (Rational.le_of_lt hlt) hnext
  · intro h
    obtain ⟨i, hoffends⟩ := hcollapse h
    exact hoffends.collapse
  · intro hgap h
    obtain ⟨i, hoffends⟩ := hcollapse h
    obtain ⟨j, previous, time, adapted, next, hprevious, htime, hadapted, hnext, heq⟩ :=
      hoffends.collapse
    have hlt := ticks_lt hadapted (hgap j previous time hprevious htime) hnext
    rw [heq] at hlt
    exact Int64.lt_irrefl hlt

/-- A gap of exactly one tick collapses between two odd halves. -/
example : (adaptAbsoluteSequence [⟨3, 2, by decide, by decide⟩, ⟨5, 2, by decide, by decide⟩]
    (.timescale 1) .nearestEven).run.any (· matches .error .nonMonotonicAdaptedTicks) := by
  decide +kernel

end StitchEditor
