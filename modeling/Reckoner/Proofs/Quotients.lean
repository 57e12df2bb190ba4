-- The laws of division. A quotient is kept as its dividend over its divisor, and the
-- dividend takes the digits of the result before it is divided. So what a quotient needs
-- room for is its dividend: under large bounds it may overflow however small it is.
import Reckoner.Proofs.Acceptance
import Reckoner.Proofs.Events
import Reckoner.Proofs.Rounding

namespace Reckoner

/-! ## Room for the dividend -/

namespace Operation

variable {a b : Amount}

/-- A quotient has room for more digits when its dividend has. -/
theorem exists_quotient (ha : a.raw ≠ Cell.least) (hb : b.raw ≠ Cell.least) (hzero : b.value ≠ 0) :
    ∃ v : Ratio, apply ⟨a, .divide, b⟩ = .ok v ∧ v.value = a.value / b.value ∧
      ∀ places, Cell.Fits (v.numer * 10 ^ places) ↔ Cell.Fits (a.raw * 10 ^ places) := by
  have hnumer : Cell.Fits (if b.raw < 0 then -a.raw else a.raw) := by
    split
    · exact (Cell.fits_neg_iff a.fits).mpr ha
    · exact a.fits
  have hdenom : Cell.Fits b.raw.natAbs := by
    have hfits := b.fits
    have hleast := Cell.least_eq
    rw [Cell.fits_iff] at hfits ⊢
    omega
  have hpos : 0 < b.raw.natAbs := Int.natAbs_pos.mpr (mt Fixed.value_eq_zero_iff.mpr hzero)
  have happly : apply ⟨a, .divide, b⟩ = .ok ⟨_, _, hpos, hnumer, hdenom⟩ :=
    apply_eq_ok_iff.mpr ⟨fun _ => hzero, rfl, rfl⟩
  refine ⟨_, happly, (value_of_apply happly).2, ?_⟩
  intro places
  dsimp only
  split
  · exact Cell.fits_neg_mul_pow_iff a.fits ha places
  · exact Iff.rfl

end Operation

/-- A quotient that is within its bound and rounded to an amount has that amount for its
value if its dividend has room for the digits of the result, and else it overflows. Under
an operand bound with that room every such quotient has its value. -/
theorem a_quotient_needs_room_for_its_dividend (e : Evaluator) {input : String} {a b q : Amount}
    (haccepts : Accepts e.settings input ⟨a, .divide, b⟩) (hzero : b.value ≠ 0)
    (hbound : |a.value / b.value| ≤ e.settings.resultBound)
    (hround : RoundsTo e.settings.fractionDigits (a.value / b.value) q.value) :
    (e.evaluate input =
      if Cell.Fits (a.raw * 10 ^ e.settings.fractionDigits) then .success q
      else .failure .overflow) ∧
    ((e.settings.operandBound : ℤ) * 10 ^ (4 + e.settings.fractionDigits) ≤ Cell.greatest →
      e.evaluate input = .success q) := by
  obtain ⟨-, hdigits, -⟩ := Settings.valid_iff.mp e.valid
  have haccept := (Settings.accept_eq_ok_iff_accepts e.valid).mpr haccepts
  obtain ⟨_, _, -, -, hleft, hright⟩ := Settings.exists_gives_of_accept e.valid haccept
  obtain ⟨v, happly, hvalue, hroom⟩ :=
    Operation.exists_quotient hleft.ne_least hright.ne_least hzero
  rw [← hvalue] at hround
  have hlaw : e.evaluate input =
      if Cell.Fits (a.raw * 10 ^ e.settings.fractionDigits) then .success q
      else .failure .overflow := by
    split
    · next hfits =>
      have hvalue' := Ratio.roundTo_of_roundsTo hdigits ((hroom _).mpr hfits) hround
      exact Evaluator.evaluate_of_value haccept
        ((Settings.finish_eq_ok_iff e.valid).mpr ⟨v, happly, hbound, hvalue'⟩)
    · next hfits =>
      have hfault := Ratio.roundTo_of_no_room (s := amountScale) hdigits (mt (hroom _).mp hfits)
      exact Evaluator.evaluate_of_no_value haccept
        (Settings.finish_of_no_rounding e.valid happly hbound hfault)
  refine ⟨hlaw, ?_⟩
  intro hbounds
  rw [hlaw, if_pos (Fixed.fits_of_bound hleft.bound hbounds)]

/-- Two thirds below zero, under the standard bounds. -/
theorem a_quotient_with_room_is_minus_two_thirds :
    Accepts Evaluator.standard.settings "2 / -3"
        ⟨⟨20000, by decide⟩, .divide, ⟨-30000, by decide⟩⟩ ∧
      RoundsTo 4 (Fixed.value (s := amountScale) ⟨20000, by decide⟩ /
        Fixed.value (s := amountScale) ⟨-30000, by decide⟩)
        (Fixed.value (s := amountScale) ⟨-6667, by decide⟩) ∧
      Evaluator.standard.evaluate "2 / -3" = .success ⟨-6667, by decide⟩ := by
  have haccepts : Accepts Evaluator.standard.settings "2 / -3"
      ⟨⟨20000, by decide⟩, .divide, ⟨-30000, by decide⟩⟩ :=
    (Settings.accept_eq_ok_iff_accepts Evaluator.standard.valid).mp (by decide +kernel)
  have hround : RoundsTo 4 (Fixed.value (s := amountScale) ⟨20000, by decide⟩ /
      Fixed.value (s := amountScale) ⟨-30000, by decide⟩)
      (Fixed.value (s := amountScale) ⟨-6667, by decide⟩) := by
    refine ⟨-6667, ?_, ?_⟩
    · norm_num [IsNearestEven, Fixed.value, Scale.unit_eq, abs_of_pos]
    · norm_num [Fixed.value, Scale.unit_eq]
  have hlaw := a_quotient_needs_room_for_its_dividend Evaluator.standard haccepts
    (by norm_num [Fixed.value, Scale.unit_eq])
    (by norm_num [Fixed.value, Scale.unit_eq, Evaluator.standard, abs_of_pos]) hround
  exact ⟨haccepts, hround, hlaw.2 (by decide)⟩

/-- Ten to the thirty-four over itself is one, and the evaluation of it overflows. -/
theorem a_quotient_without_room_is_one :
    let input := "10000000000000000000000000000000000 / 10000000000000000000000000000000000"
    let settings := Evaluator.unbounded.settings
    let a : Amount := ⟨10 ^ 38, by decide⟩
    Accepts settings input ⟨a, .divide, a⟩ ∧ a.value ≠ 0 ∧
      |a.value / a.value| ≤ settings.resultBound ∧
      RoundsTo settings.fractionDigits (a.value / a.value) (Fixed.one : Amount).value ∧
      Evaluator.unbounded.evaluate input = .failure .overflow := by
  intro input settings a
  have hvalue : a.value ≠ 0 := by norm_num [a, Fixed.value, Scale.unit_eq]
  have hone : (Fixed.one : Amount).value = 1 := by norm_num [Fixed.one, Fixed.value, Scale.unit_eq]
  refine ⟨?_, hvalue, ?_, ⟨10000, ?_, ?_⟩, by decide +kernel⟩
  · exact (Settings.accept_eq_ok_iff_accepts Evaluator.unbounded.valid).mp (by decide +kernel)
  · rw [div_self hvalue]
    norm_num [settings, Evaluator.unbounded]
  · rw [div_self hvalue]
    norm_num [IsNearestEven, settings, Evaluator.unbounded]
  · rw [hone]
    norm_num [settings, Evaluator.unbounded]

end Reckoner
