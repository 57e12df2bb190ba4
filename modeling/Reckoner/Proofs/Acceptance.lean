-- The laws of acceptance. Whether two numerals become an operation is told here from
-- their digits and their sizes alone. A bound is not all that is asked of a size: an
-- amount has to hold the number as well, and a bound may be larger than every amount.
import Reckoner.Proofs.Rejections

namespace Reckoner

/-! ## What an amount holds -/

section Sizes

variable {s : Scale} {n : Numeral}

theorem Numeral.fits_magnitude_iff (hdigits : n.fraction.length ≤ s.val) :
    Cell.Fits (n.magnitude s) ↔ |n.value| ≤ (Fixed.greatest : Fixed s).value := by
  rw [fits_magnitude_iff_size_le hdigits, n.abs_value, Fixed.value,
    le_div_iff₀ s.unit_cast_pos, Scale.unit_eq]
  push_cast
  rfl

/-- Every number of a scale but the least one is at most as large as the greatest. -/
theorem Fixed.abs_value_le_greatest_iff {a : Fixed s} :
    |a.value| ≤ (greatest : Fixed s).value ↔ a.raw ≠ Cell.least := by
  have hunit := s.unit_cast_pos
  have hfits := a.fits
  have hraw : |a.raw| ≤ Cell.greatest ↔ a.raw ≠ Cell.least := by
    rw [abs_le]
    unfold Cell.Fits Cell.least Cell.greatest at *
    omega
  rw [← hraw, value, value, abs_div, abs_of_pos hunit, div_le_div_iff_of_pos_right hunit]
  exact_mod_cast Iff.rfl

theorem Numeral.dvd_raw {a : Fixed s} {d : ℕ} (hdigits : n.fraction.length ≤ d) (hd : d ≤ s.val)
    (h : a.value = n.value) : (10 : ℤ) ^ (s.val - d) ∣ a.raw := by
  have hsize := magnitude_eq (le_trans hdigits hd)
  rw [← n.abs_value, ← h, Fixed.value, abs_div, abs_of_pos s.unit_cast_pos,
    div_mul_cancel₀ _ s.unit_ne_zero, ← Int.cast_abs, Int.abs_eq_natAbs] at hsize
  have hmagnitude : n.magnitude s = a.raw.natAbs := by exact_mod_cast hsize
  have hdvd : 10 ^ (s.val - d) ∣ n.magnitude s := by
    rw [magnitude, List.rightpad, Digits.value_append_zeros, Scale.unit_eq]
    apply dvd_add
    · exact dvd_mul_of_dvd_right (pow_dvd_pow 10 (Nat.sub_le _ _)) _
    · exact dvd_mul_of_dvd_right (pow_dvd_pow 10 (by omega)) _
  rw [← Int.natCast_dvd_natCast, hmagnitude, Int.dvd_natAbs] at hdvd
  exact_mod_cast hdvd

end Sizes

/-! ## Two numerals -/

namespace Settings

variable {settings : Settings} {left right n : Numeral} {operator : Operator} {input : String}
  {a : Amount}

/-- The largest size of an operand: the bound, or the largest amount where that is smaller. -/
def reach (settings : Settings) : ℚ := min settings.operandBound (Fixed.greatest : Amount).value

/-- Why two numerals are not accepted, unless they are. -/
def refusal? (settings : Settings) (left right : Numeral) : Option Rejection :=
  if settings.fractionDigits < left.fraction.length ∨
      settings.fractionDigits < right.fraction.length then
    some ⟨.operand, .operand (.tooManyFractionDigits settings.fractionDigits)⟩
  else if settings.reach < |left.value| ∨ settings.reach < |right.value| then
    some ⟨.operandRange, .operandOutOfRange settings.operandBound⟩
  else
    none

theorem refusal?_eq_none_iff : settings.refusal? left right = none ↔
    (left.fraction.length ≤ settings.fractionDigits ∧ |left.value| ≤ settings.reach) ∧
      right.fraction.length ≤ settings.fractionDigits ∧ |right.value| ≤ settings.reach := by
  unfold refusal?
  split
  · next hdigits =>
    simp only [reduceCtorEq, false_iff]
    rintro ⟨⟨hleft, -⟩, hright, -⟩
    omega
  · next hdigits =>
    rw [not_or, not_lt, not_lt] at hdigits
    split
    · next hbeyond =>
      simp only [reduceCtorEq, false_iff]
      rintro ⟨⟨-, hleft⟩, -, hright⟩
      exact hbeyond.elim hleft.not_gt hright.not_gt
    · next hwithin =>
      rw [not_or, not_lt, not_lt] at hwithin
      simp [hdigits, hwithin]

/-- The operand that a numeral gives. -/
structure Gives (settings : Settings) (n : Numeral) (a : Amount) : Prop where
  value : a.value = n.value
  bound : |a.value| ≤ settings.operandBound
  grid : (10 : ℤ) ^ (4 - settings.fractionDigits) ∣ a.raw
  ne_least : a.raw ≠ Cell.least

theorem Gives.unique {b : Amount} (ha : Gives settings n a) (hb : Gives settings n b) : a = b :=
  Fixed.value_inj.mp (ha.value.trans hb.value.symm)

/-- Beyond the reach lies what no amount holds, and what is above the bound. -/
theorem reach_lt_iff (hdigits : n.fraction.length ≤ amountScale.val) :
    settings.reach < |n.value| ↔
      ¬ Cell.Fits (n.magnitude amountScale) ∨ ¬ |n.value| ≤ settings.operandBound := by
  rw [reach, min_lt_iff, Numeral.fits_magnitude_iff hdigits, not_le, not_le, or_comm]

/-- The input is not too long, and it is cut into an operator between two numerals. -/
structure Writes (settings : Settings) (input : String) (left : Numeral) (operator : Operator)
    (right : Numeral) : Prop where
  length : input.length ≤ settings.maxLength
  cut : Expression.Cut settings.separators.point input.toList left operator right

theorem Writes.of_cut? (hlength : input.length ≤ settings.maxLength)
    (hcut : Expression.cut? settings.separators.point input.toList =
      some (left, operator, right)) : settings.Writes input left operator right :=
  ⟨hlength, Expression.cut_of_cut? hcut⟩

/-- An input that writes two numerals is accepted unless they are refused. -/
theorem accept_of_writes (hvalid : settings.Valid)
    (hwrites : settings.Writes input left operator right) :
    (∃ rejection, settings.refusal? left right = some rejection ∧
        settings.accept input = .error rejection) ∨
      settings.refusal? left right = none ∧ ∃ a b, settings.accept input = .ok ⟨a, operator, b⟩ ∧
        Gives settings left a ∧ Gives settings right b := by
  obtain ⟨-, hfour, -⟩ := valid_iff.mp hvalid
  have haccept := accept_of_cut hvalid hwrites.length hwrites.cut
  generalize settings.accept input = result at haccept
  unfold refusal?
  cases haccept with
  | digits h =>
    rw [if_pos h]
    exact Or.inl ⟨_, rfl, rfl⟩
  | range hleft hright h =>
    have hbeyond : settings.reach < |left.value| ∨ settings.reach < |right.value| := by
      rw [reach_lt_iff (le_trans hleft hfour), reach_lt_iff (le_trans hright hfour)]
      rcases h with (hl | hr) | hbound
      · exact Or.inl (Or.inl hl)
      · exact Or.inr (Or.inl hr)
      · rcases not_and_or.mp hbound with hl | hr
        · exact Or.inl (Or.inr hl)
        · exact Or.inr (Or.inr hr)
    rw [if_neg (by omega), if_pos hbeyond]
    exact Or.inl ⟨_, rfl, rfl⟩
  | both a b hleft hright ha hb ha' hb' hrange =>
    have within {n : Numeral} {a : Amount} (hvalue : a.value = n.value)
        (hbound : |n.value| ≤ settings.operandBound) (hne : a.raw ≠ Cell.least) :
        ¬ settings.reach < |n.value| := by
      rw [reach, not_lt, le_min_iff, ← hvalue]
      exact ⟨hvalue ▸ hbound, Fixed.abs_value_le_greatest_iff.mpr hne⟩
    rw [if_neg (by omega), if_neg (not_or.mpr ⟨within ha hrange.1 ha', within hb hrange.2 hb'⟩)]
    exact Or.inr ⟨rfl, a, b, rfl,
      ⟨ha, ha ▸ hrange.1, Numeral.dvd_raw hleft hfour ha, ha'⟩,
      ⟨hb, hb ▸ hrange.2, Numeral.dvd_raw hright hfour hb, hb'⟩⟩

theorem accept_of_refusal (hvalid : settings.Valid)
    (hwrites : settings.Writes input left operator right) {rejection : Rejection}
    (h : settings.refusal? left right = some rejection) :
    settings.accept input = .error rejection := by
  rcases accept_of_writes hvalid hwrites with ⟨rejection', hsome, haccept⟩ | ⟨hnone, -⟩
  · rw [h] at hsome
    cases hsome
    exact haccept
  · rw [h] at hnone
    cases hnone

theorem exists_accept_of_writes (hvalid : settings.Valid)
    (hwrites : settings.Writes input left operator right)
    (h : settings.refusal? left right = none) :
    ∃ a b, settings.accept input = .ok ⟨a, operator, b⟩ ∧
      Gives settings left a ∧ Gives settings right b := by
  rcases accept_of_writes hvalid hwrites with ⟨rejection, hsome, -⟩ | ⟨-, haccept⟩
  · rw [h] at hsome
    cases hsome
  · exact haccept

theorem refusal?_of_accept (hvalid : settings.Valid)
    (hwrites : settings.Writes input left operator right) {o : Operation}
    (h : settings.accept input = .ok o) : settings.refusal? left right = none := by
  cases hrefusal : settings.refusal? left right with
  | none => rfl
  | some rejection =>
    rw [accept_of_refusal hvalid hwrites hrefusal] at h
    cases h

theorem exists_gives_of_accept (hvalid : settings.Valid) {o : Operation}
    (h : settings.accept input = .ok o) :
    ∃ left right, settings.Writes input left o.operator right ∧
      settings.refusal? left right = none ∧
      Gives settings left o.left ∧ Gives settings right o.right := by
  have haccept := accept_cases hvalid input
  rw [h] at haccept
  cases haccept with
  | cut left operator right _ hlength hcut hoperands =>
    have hwrites : settings.Writes input left operator right := ⟨hlength, hcut⟩
    have hnone := refusal?_of_accept hvalid hwrites h
    obtain ⟨a, b, hok, ha, hb⟩ := exists_accept_of_writes hvalid hwrites hnone
    rw [h] at hok
    cases hok
    exact ⟨left, right, hwrites, hnone, ha, hb⟩

end Settings

/-- Nothing behind the acceptance of an operation speaks of its operands. -/
theorem Settings.Fails.not_operandOutOfRange {settings : Settings} {o : Operation}
    {rejection : Rejection} {bound : ℕ} (h : Fails settings o rejection) :
    rejection.fault ≠ .operandOutOfRange bound := by
  cases h <;> simp

/-- Two numerals with few enough digits are out of range when one of them is above the
bound or above the greatest amount, whichever is smaller, and then the bound is named. So
under a bound that an amount holds, it is the bound alone that decides. -/
theorem an_operand_is_out_of_range_beyond_its_reach (e : Evaluator) {input : String}
    {left right : Numeral} {operator : Operator}
    (hwrites : e.settings.Writes input left operator right)
    (hleft : left.fraction.length ≤ e.settings.fractionDigits)
    (hright : right.fraction.length ≤ e.settings.fractionDigits) :
    (∀ bound, e.evaluate input = .failure (.operandOutOfRange bound) ↔
      bound = e.settings.operandBound ∧
        (e.settings.reach < |left.value| ∨ e.settings.reach < |right.value|)) ∧
    (e.settings.operandBound ≤ (Fixed.greatest : Amount).value →
      (e.evaluate input = .failure (.operandOutOfRange e.settings.operandBound) ↔
        e.settings.operandBound < |left.value| ∨ e.settings.operandBound < |right.value|)) := by
  have hreach (bound : ℕ) : e.evaluate input = .failure (.operandOutOfRange bound) ↔
      bound = e.settings.operandBound ∧
        (e.settings.reach < |left.value| ∨ e.settings.reach < |right.value|) := by
    have hrefusal : e.settings.refusal? left right =
        if e.settings.reach < |left.value| ∨ e.settings.reach < |right.value| then
          some ⟨.operandRange, .operandOutOfRange e.settings.operandBound⟩
        else none := by
      unfold Settings.refusal?
      exact if_neg (by omega)
    by_cases hbeyond : e.settings.reach < |left.value| ∨ e.settings.reach < |right.value|
    · rw [if_pos hbeyond] at hrefusal
      rw [Evaluator.evaluate_of_reject (Settings.accept_of_refusal e.valid hwrites hrefusal)]
      simp [hbeyond, eq_comm]
    · rw [if_neg hbeyond] at hrefusal
      obtain ⟨a, b, haccept, -, -⟩ := Settings.exists_accept_of_writes e.valid hwrites hrefusal
      simp only [hbeyond, and_false, iff_false]
      intro h
      obtain ⟨rejection, hfault, hreject | ⟨o, -, hfinish⟩⟩ := Evaluator.exists_of_failure h
      · rw [haccept] at hreject
        cases hreject
      · exact (Settings.fails_of_finish e.valid hfinish).not_operandOutOfRange hfault
  refine ⟨hreach, ?_⟩
  intro hbound
  rw [hreach, Settings.reach, min_eq_left hbound]
  simp

def Numeral.belowMinusMillion : Numeral :=
  ⟨some .minus, "1000000".toList, "0001".toList, by decide, by decide⟩

/-- A step beyond the bound, next to an operand at the bound. -/
theorem an_operand_is_out_of_range_below_minus_one_million :
    Evaluator.standard.settings.Writes "1000000 * -1000000.0001"
        ⟨none, "1000000".toList, [], by decide, by decide⟩ .multiply .belowMinusMillion ∧
      Evaluator.standard.evaluate "1000000 * -1000000.0001" =
        .failure (.operandOutOfRange 1000000) := by
  have hwrites : Evaluator.standard.settings.Writes "1000000 * -1000000.0001"
      ⟨none, "1000000".toList, [], by decide, by decide⟩ .multiply .belowMinusMillion :=
    .of_cut? (by decide +kernel) (by decide +kernel)
  have hlarge : ((1000000 : ℕ) : ℚ) < |Numeral.belowMinusMillion.value| := by
    have hwhole : Digits.value Numeral.belowMinusMillion.whole = 1000000 := by decide +kernel
    have hfraction : Digits.value Numeral.belowMinusMillion.fraction = 1 := by decide +kernel
    rw [Numeral.abs_value, Numeral.size, hwhole, hfraction]
    norm_num
  have hbound : ((1000000 : ℕ) : ℚ) ≤ (Fixed.greatest : Amount).value := by
    norm_num [Fixed.value, Fixed.greatest, Cell.greatest, Scale.unit_eq]
  have hlaw := an_operand_is_out_of_range_beyond_its_reach Evaluator.standard hwrites
    (by decide) (by decide)
  exact ⟨hwrites, (hlaw.2 hbound).mpr (Or.inr hlarge)⟩

/-- Ten to the thirty-five. -/
def Numeral.aboveEveryAmount : Numeral :=
  ⟨none, '1' :: List.replicate 35 '0', [], by decide, Digits.allDigits_nil⟩

/-- Above the greatest amount a number is out of range even within a bound that allows it. -/
theorem an_operand_within_its_bound_is_out_of_range :
    let input := "100000000000000000000000000000000000 / 100000000000000000000000000000000000"
    let settings := Evaluator.unbounded.settings
    let n := Numeral.aboveEveryAmount
    settings.Writes input n .divide n ∧ n.fraction.length ≤ settings.fractionDigits ∧
      |n.value| ≤ settings.operandBound ∧
      Evaluator.unbounded.evaluate input = .failure (.operandOutOfRange settings.operandBound) := by
  have hsize : |Numeral.aboveEveryAmount.value| = 10 ^ 35 := by
    have hwhole : Digits.value Numeral.aboveEveryAmount.whole = 10 ^ 35 := by decide +kernel
    rw [Numeral.abs_value, Numeral.size, hwhole]
    norm_num [Numeral.aboveEveryAmount, Digits.value]
  refine ⟨.of_cut? (by decide +kernel) (by decide +kernel), by decide, ?_, by decide +kernel⟩
  rw [hsize]
  norm_num [Evaluator.unbounded]

end Reckoner
