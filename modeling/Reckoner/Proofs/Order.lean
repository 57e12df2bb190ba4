-- The laws of order. Rounding never turns two numbers round. A bound in wholes is held against
-- sizes as they are, also where no cell holds it in steps, and rounding leaves it where it is,
-- so a result within its bound stays there.
import Reckoner.Proofs.Rounding

namespace Reckoner

variable {s : Scale} {places : ℕ} {v w : Ratio}

/-! ## Order of values -/

/-- Ratios are in the order of their cross products. -/
theorem Ratio.value_le_value_iff : v.value ≤ w.value ↔ v.numer * w.denom ≤ w.numer * v.denom := by
  have hv : (0 : ℚ) < v.denom := by exact_mod_cast v.denom_pos
  have hw : (0 : ℚ) < w.denom := by exact_mod_cast w.denom_pos
  rw [value, value, div_le_div_iff₀ hv hw]
  exact_mod_cast Iff.rfl

theorem Fixed.value_le_value_iff {a b : Fixed s} : a.value ≤ b.value ↔ a.raw ≤ b.raw := by
  rw [value, value, div_le_div_iff_of_pos_right s.unit_cast_pos, Int.cast_le]

/-! ## Order of rounded numbers -/

theorem RoundsTo.mono {x x' y y' : ℚ} (h : RoundsTo places x y) (h' : RoundsTo places x' y')
    (hle : x ≤ x') : y ≤ y' := by
  obtain ⟨r, hr, rfl⟩ := h
  obtain ⟨q, hq, rfl⟩ := h'
  have hten : (0 : ℚ) < 10 ^ places := by positivity
  have hrq : r ≤ q := hr.mono hq (mul_le_mul_of_nonneg_right hle hten.le)
  rw [div_le_div_iff_of_pos_right hten]
  exact_mod_cast hrq

/-- Of two ratios the one that is not larger is rounded to a number that is not larger. -/
theorem rounding_keeps_the_order (s : Scale) (places : ℕ) (v w : Ratio) (a b : Fixed s)
    (hle : v.value ≤ w.value) (ha : v.roundTo s places = .ok a)
    (hb : w.roundTo s places = .ok b) : a.raw ≤ b.raw := by
  have hrounded : a.value ≤ b.value :=
    (Ratio.roundsTo_of_roundTo ha).mono (Ratio.roundsTo_of_roundTo hb) hle
  exact Fixed.value_le_value_iff.mp hrounded

def halfStep : Ratio := ⟨-2, 40000, by decide, by decide, by decide⟩

/-- Two midpoints that lie a step apart are rounded away from each other. -/
theorem rounding_keeps_the_order_of_two_halves :
    stepAndHalf.value ≤ halfStep.value ∧ stepAndHalf.roundTo 4 4 = .ok ⟨-2, by decide⟩ ∧
      halfStep.roundTo 4 4 = .ok ⟨0, by decide⟩ ∧ (-2 : ℤ) ≤ 0 := by
  have hle : stepAndHalf.value ≤ halfStep.value := Ratio.value_le_value_iff.mpr (by decide)
  have htwo : stepAndHalf.roundTo 4 4 = .ok ⟨-2, by decide⟩ := by rfl
  have hzero : halfStep.roundTo 4 4 = .ok ⟨0, by decide⟩ := by rfl
  exact ⟨hle, htwo, hzero, rounding_keeps_the_order 4 4 stepAndHalf halfStep _ _ hle htwo hzero⟩

/-! ## Sizes and bounds -/

namespace Ratio

theorem exceeds_iff_lt_abs (v : Ratio) (bound : ℕ) :
    v.exceeds bound = true ↔ (bound : ℤ) * v.denom < |v.numer| := by
  rw [exceeds_iff_lt_natAbs, Int.abs_eq_natAbs]
  exact_mod_cast Iff.rfl

theorem exceeds_ofQuotient_iff {n d : ℤ} (h : ofQuotient n d = .ok v) (bound : ℕ) :
    v.exceeds bound = true ↔ (bound : ℤ) * |d| < |n| := by
  obtain ⟨hnumer, hdenom⟩ := ofQuotient_eq_ok h
  rw [exceeds_iff_lt_abs, hnumer, hdenom, Int.natCast_natAbs]
  split
  · rw [abs_neg]
  · rfl

/-- A bound that no cell holds once it is scaled is not exceeded. -/
theorem exceeds_of_not_fits {bound : ℕ} (h : ¬ Cell.FitsUnsigned (bound * v.denom)) :
    v.exceeds bound = false ∧ |v.numer| < (bound : ℤ) * v.denom := by
  have hlt : |v.numer| < (bound : ℤ) * v.denom := by
    rw [Int.abs_eq_natAbs]
    exact_mod_cast natAbs_numer_lt (v := v) h
  refine ⟨?_, hlt⟩
  rw [Bool.eq_false_iff, Ne, exceeds_iff_lt_abs]
  exact hlt.not_gt

end Ratio

namespace Fixed

theorem exceeds_iff_lt_abs (a : Fixed s) (bound : ℕ) :
    a.exceeds bound = true ↔ (bound : ℤ) * 10 ^ s.val < |a.raw| := by
  have hratio := a.toRatio.exceeds_iff_lt_abs bound
  exact_mod_cast hratio

theorem exceeds_of_not_fits {a : Fixed s} {bound : ℕ}
    (h : ¬ Cell.FitsUnsigned (bound * 10 ^ s.val)) :
    a.exceeds bound = false ∧ |a.raw| < (bound : ℤ) * 10 ^ s.val := by
  have hratio := Ratio.exceeds_of_not_fits (v := a.toRatio) h
  exact_mod_cast hratio

end Fixed

/-- A ratio exceeds a bound when its upper number is larger in size than the bound times the
lower one, whichever two integers it was made of. A number does when it has more steps than the
bound, and that is when the ratio that it is does. A bound that no cell holds once it is scaled
is larger than every ratio and every number, so there is nothing to hold it against. -/
theorem a_bound_is_held_against_the_true_size :
    (∀ (v : Ratio) (bound : ℕ),
      (v.exceeds bound = true ↔ (bound : ℤ) * v.denom < |v.numer|) ∧
      (¬ Cell.FitsUnsigned (bound * v.denom) →
        v.exceeds bound = false ∧ |v.numer| < (bound : ℤ) * v.denom)) ∧
    (∀ (n d : ℤ) (v : Ratio), Ratio.ofQuotient n d = .ok v →
      ∀ bound : ℕ, v.exceeds bound = true ↔ (bound : ℤ) * |d| < |n|) ∧
    ∀ (s : Scale) (a : Fixed s) (bound : ℕ),
      (a.exceeds bound = true ↔ (bound : ℤ) * 10 ^ s.val < |a.raw|) ∧
      (¬ Cell.FitsUnsigned (bound * 10 ^ s.val) →
        a.exceeds bound = false ∧ |a.raw| < (bound : ℤ) * 10 ^ s.val) ∧
      a.exceeds bound = a.toRatio.exceeds bound := by
  refine ⟨?_, fun n d v h => Ratio.exceeds_ofQuotient_iff h, ?_⟩
  · intro v bound
    exact ⟨v.exceeds_iff_lt_abs bound, Ratio.exceeds_of_not_fits⟩
  · intro s a bound
    exact ⟨a.exceeds_iff_lt_abs bound, Fixed.exceeds_of_not_fits, rfl⟩

/-- The least integer of a cell over the greatest, just beyond one. -/
def leastOverGreatest : Ratio :=
  ⟨Cell.least, 2 ^ 127 - 1, by decide, by decide, by decide⟩

/-- A bound that no cell holds, and the least number with 38 digits between one and two. -/
theorem a_bound_is_held_against_the_least_number :
    (leastOverGreatest.exceeds 1 = true ∧ leastOverGreatest.exceeds 3 = false ∧
      |leastOverGreatest.numer| < (3 : ℕ) * leastOverGreatest.denom) ∧
    (∃ v, Ratio.ofQuotient 5 (-2) = .ok v ∧ v.exceeds 2 = true) ∧
    (Fixed.least : Fixed 38).exceeds 1 = true ∧ (Fixed.least : Fixed 38).exceeds 2 = false := by
  obtain ⟨hratio, hquotient, hnumber⟩ := a_bound_is_held_against_the_true_size
  obtain ⟨hthree, hsize⟩ := (hratio leastOverGreatest 3).2 (by decide)
  obtain ⟨hone, -⟩ := hnumber 38 Fixed.least 1
  obtain ⟨htwo, -⟩ := hnumber 38 Fixed.least 2
  refine ⟨⟨(hratio leastOverGreatest 1).1.mpr (by decide), hthree, hsize⟩,
    ⟨_, rfl, (hquotient 5 (-2) _ rfl 2).mpr (by decide)⟩, hone.mpr (by decide), ?_⟩
  rw [Bool.eq_false_iff, Ne, htwo]
  decide

/-! ## Results and their bound -/

namespace Ratio

variable {settings : Settings} {r : ℤ}

/-- The bound comes first, then the number of digits, and then the room in the cells. -/
theorem toAmount_of_nearest (hr : Nearest (v.value * 10 ^ settings.fractionDigits) r) :
    v.toAmount settings =
      if (settings.resultBound : ℚ) < |v.value| then
        .error (.resultOutOfRange settings.resultBound)
      else if 4 < settings.fractionDigits then
        .error (.internal s!"cannot round to {settings.fractionDigits} fractional digits")
      else if h : Cell.Fits (v.numer * 10 ^ settings.fractionDigits) ∧
          Cell.Fits (r * 10 ^ (4 - settings.fractionDigits)) then
        .ok ⟨r * 10 ^ (4 - settings.fractionDigits), h.2⟩
      else .error .overflow := by
  have hround := roundTo_of_nearest (s := amountScale) hr
  rw [show amountScale.val = 4 from rfl] at hround
  unfold toAmount
  by_cases hbound : (settings.resultBound : ℚ) < |v.value|
  · rw [if_pos hbound, if_pos ((v.exceeds_iff _).mpr hbound)]
  · rw [if_neg hbound, if_neg (mt (v.exceeds_iff _).mp hbound), hround]
    split_ifs
    · rfl
    · rfl
    · rfl
    · rfl

/-- A result that is rounded within its bound is within it once it is rounded. -/
theorem within_of_toAmount {a : Amount} (h : v.toAmount settings = .ok a) :
    |a.value| ≤ settings.resultBound ∧ (10 : ℤ) ^ (4 - settings.fractionDigits) ∣ a.raw := by
  obtain ⟨hbound, hround⟩ := toAmount_eq_ok h
  exact ⟨(roundsTo_of_roundTo hround).size_le hbound, dvd_of_roundTo hround⟩

end Ratio

/-- A result is out of range exactly when it is larger in size than its bound, as it stands and
not as it would be rounded. Within the bound it is an internal fault to ask for more digits than
an amount has; with fewer, the result is rounded half to even, or it overflows where a cell has
no room for it. And no amount that comes out is beyond the bound, or between two of the numbers
with that many digits. -/
theorem a_bound_holds_before_and_after_rounding (settings : Settings) (v : Ratio) :
    (∃ r : ℤ, Nearest (v.value * 10 ^ settings.fractionDigits) r ∧
      v.toAmount settings =
        if (settings.resultBound : ℚ) < |v.value| then
          .error (.resultOutOfRange settings.resultBound)
        else if 4 < settings.fractionDigits then
          .error (.internal s!"cannot round to {settings.fractionDigits} fractional digits")
        else if h : Cell.Fits (v.numer * 10 ^ settings.fractionDigits) ∧
            Cell.Fits (r * 10 ^ (4 - settings.fractionDigits)) then
          .ok ⟨r * 10 ^ (4 - settings.fractionDigits), h.2⟩
        else .error .overflow) ∧
    ∀ a, v.toAmount settings = .ok a →
      |a.value| ≤ settings.resultBound ∧ a.exceeds settings.resultBound = false ∧
        (10 : ℤ) ^ (4 - settings.fractionDigits) ∣ a.raw := by
  have hnear := v.nearest_numer settings.fractionDigits
  refine ⟨⟨_, hnear, Ratio.toAmount_of_nearest hnear⟩, ?_⟩
  intro a h
  obtain ⟨hbound, hdigits⟩ := Ratio.within_of_toAmount h
  refine ⟨hbound, ?_, hdigits⟩
  rw [Bool.eq_false_iff, Ne, a.exceeds_iff]
  exact hbound.not_gt

/-- Four hundred-thousandths beyond the standard bound. -/
def justBeyond : Ratio := ⟨25000000000001, 25000, by decide, by decide, by decide⟩

def onBound : Ratio := ⟨-1000000000, 1, by decide, by decide, by decide⟩

/-- What would be rounded to the bound is out of range, and the bound itself is not. -/
theorem a_bound_holds_just_beyond_and_on_it :
    (justBeyond.roundTo 4 4 = .ok ⟨10000000000000, by decide⟩ ∧
      justBeyond.toAmount {} = .error (.resultOutOfRange 1000000000)) ∧
    (onBound.toAmount {} = .ok ⟨-10000000000000, by decide⟩ ∧
      |Fixed.value (s := amountScale) ⟨-10000000000000, by decide⟩| ≤ (1000000000 : ℕ)) ∧
    onBound.toAmount { fractionDigits := 5 } =
      .error (.internal "cannot round to 5 fractional digits") := by
  have hround : justBeyond.roundTo 4 4 = .ok ⟨10000000000000, by decide⟩ := by rfl
  have hbeyond : ((1000000000 : ℕ) : ℚ) < |justBeyond.value| := by
    norm_num [justBeyond, Ratio.value, abs_of_pos]
  have hwithin : ¬ ((1000000000 : ℕ) : ℚ) < |onBound.value| := by
    norm_num [onBound, Ratio.value, abs_of_neg]
  have hvalue : onBound.toAmount {} = .ok ⟨-10000000000000, by decide⟩ := by rfl
  obtain ⟨⟨r, -, hlarge⟩, -⟩ := a_bound_holds_before_and_after_rounding {} justBeyond
  obtain ⟨-, hbound⟩ := a_bound_holds_before_and_after_rounding {} onBound
  obtain ⟨⟨q, -, hfive⟩, -⟩ :=
    a_bound_holds_before_and_after_rounding { fractionDigits := 5 } onBound
  refine ⟨⟨hround, ?_⟩, ⟨hvalue, (hbound _ hvalue).1⟩, ?_⟩
  · rw [hlarge]
    exact if_pos hbeyond
  · rw [hfive, if_neg hwithin]
    rfl

end Reckoner
