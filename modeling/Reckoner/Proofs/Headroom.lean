-- The laws of room. Operands up to ten trillion leave every cell on the way from them to
-- the result enough room: a sum, a product of all their digits, and a product that takes
-- four more digits before it is rounded. So nothing but a division by zero stops them.
import Reckoner.Proofs.Stages

namespace Reckoner

/-- The operand bound up to which no cell is too small for a result. -/
def roomyBound : ℕ := 10 ^ 13

/-! ## Sizes -/

theorem Cell.fits_of_natAbs_le {n : ℤ} (h : n.natAbs ≤ 10 ^ 38) : Cell.Fits n := by
  rw [Cell.fits_iff]
  omega

theorem Fixed.natAbs_raw_le {a : Amount} (h : |a.value| ≤ roomyBound) :
    a.raw.natAbs ≤ 10 ^ 17 := by
  have hunit := amountScale.unit_cast_pos
  rw [value, abs_div, abs_of_pos hunit, div_le_iff₀ hunit, ← Int.cast_abs, Int.abs_eq_natAbs,
    Int.cast_natCast] at h
  exact_mod_cast h

theorem Numeral.roomyBound_lt_of_not_fits {n : Numeral}
    (hdigits : n.fraction.length ≤ amountScale.val)
    (hfits : ¬ Cell.Fits (n.magnitude amountScale)) : (roomyBound : ℚ) < |n.value| := by
  have hunit := amountScale.unit_cast_pos
  have hlarge : roomyBound * amountScale.unit < n.magnitude amountScale := by
    by_contra hle
    apply hfits
    apply Cell.fits_of_natAbs_le
    rw [Int.natAbs_natCast]
    exact le_trans (not_lt.mp hle) (by decide)
  rw [n.abs_value, ← mul_lt_mul_iff_left₀ hunit, ← magnitude_eq hdigits]
  exact_mod_cast hlarge

/-! ## Results -/

theorem Ratio.exists_ofQuotient {n d : ℤ} (hd : d ≠ 0) (hn : n.natAbs ≤ 10 ^ 38)
    (hd' : d.natAbs ≤ 10 ^ 38) :
    ∃ v, ofQuotient n d = .ok v ∧ v.numer.natAbs = n.natAbs := by
  have hsize : (if d < 0 then -n else n).natAbs = n.natAbs := by
    split
    · exact Int.natAbs_neg n
    · rfl
  have hfits : Cell.Fits (if d < 0 then -n else n) ∧ Cell.Fits d.natAbs := by
    refine ⟨Cell.fits_of_natAbs_le ?_, Cell.fits_of_natAbs_le ?_⟩
    · rw [hsize]
      exact hn
    · rw [Int.natAbs_natCast]
      exact hd'
  unfold ofQuotient
  rw [dif_neg hd]
  simp only [dif_pos hfits]
  exact ⟨_, rfl, hsize⟩

theorem Fixed.exists_toRatio_ofRaw {n : ℤ} {fault : Fault} (h : n.natAbs ≤ 10 ^ 34) :
    ∃ v, (ofRaw n fault : Except Fault Amount).map toRatio = .ok v ∧ v.numer.natAbs ≤ 10 ^ 34 := by
  rw [ofRaw_of_fits (Cell.fits_of_natAbs_le (by omega))]
  exact ⟨_, rfl, h⟩

/-- The exact result of small operands, with the product as the largest of the four. -/
theorem Operation.exists_ratio {o : Operation} (hl : o.left.raw.natAbs ≤ 10 ^ 17)
    (hr : o.right.raw.natAbs ≤ 10 ^ 17) (hdefined : o.Defined) :
    ∃ v, o.ratio = .ok v ∧ v.numer.natAbs ≤ 10 ^ 34 := by
  obtain ⟨left, operator, right⟩ := o
  simp only at hl hr
  cases operator with
  | add =>
    have hsum := Int.natAbs_add_le left.raw right.raw
    apply Fixed.exists_toRatio_ofRaw
    simp only
    omega
  | subtract =>
    have hsum := Int.natAbs_sub_le left.raw right.raw
    apply Fixed.exists_toRatio_ofRaw
    simp only
    omega
  | multiply =>
    have hproduct : (left.raw * right.raw).natAbs ≤ 10 ^ 34 := by
      rw [Int.natAbs_mul]
      exact le_trans (Nat.mul_le_mul hl hr) (by norm_num)
    obtain ⟨v, hv, hsize⟩ := Ratio.exists_ofQuotient (n := left.raw * right.raw)
      (d := amountScale.unit * amountScale.unit) (by decide) (by omega) (by decide)
    refine ⟨v, ?_, by omega⟩
    simp only [ratio, Fixed.mul]
    rw [if_pos (Cell.fits_of_natAbs_le (by omega)), hv]
  | divide =>
    have hne : right.raw ≠ 0 := fun h => hdefined rfl (Fixed.value_eq_zero_iff.mpr h)
    obtain ⟨v, hv, hsize⟩ := Ratio.exists_ofQuotient (n := left.raw) hne (by omega) (by omega)
    refine ⟨v, ?_, by omega⟩
    simp only [ratio, Fixed.div]
    rw [if_neg (by simpa [Fixed.isZero] using hne), hv]

/-- Four digits that are taken in before rounding, or filled up after it, fit as well. -/
theorem Ratio.exists_roundTo {v : Ratio} {places : ℕ} (hsize : v.numer.natAbs ≤ 10 ^ 34)
    (hplaces : places ≤ 4) : ∃ a, v.roundTo amountScale places = .ok a := by
  have hscaled : (v.numer * 10 ^ places).natAbs ≤ 10 ^ 34 * 10 ^ places := by
    rw [Int.natAbs_mul, Int.natAbs_pow]
    exact Nat.mul_le_mul_right _ hsize
  have hrounded : (nearestEven (v.numer * 10 ^ places) v.denom).natAbs ≤ 10 ^ 34 * 10 ^ places := by
    have hle := abs_nearestEven_le (v.numer * 10 ^ places) v.denom_pos
    rw [Int.abs_eq_natAbs, Int.abs_eq_natAbs] at hle
    omega
  have hten : 10 ^ places ≤ 10 ^ 4 := Nat.pow_le_pow_right (by decide) hplaces
  have hfits : Cell.Fits (v.numer * 10 ^ places) := Cell.fits_of_natAbs_le (by omega)
  have hfilled : Cell.Fits
      (nearestEven (v.numer * 10 ^ places) v.denom * 10 ^ (amountScale.val - places)) := by
    apply Cell.fits_of_natAbs_le
    rw [Int.natAbs_mul, Int.natAbs_pow]
    calc (nearestEven (v.numer * 10 ^ places) v.denom).natAbs * 10 ^ (4 - places)
        ≤ 10 ^ 34 * 10 ^ places * 10 ^ (4 - places) := Nat.mul_le_mul_right _ hrounded
      _ = 10 ^ 38 := by
        rw [mul_assoc, ← pow_add, Nat.add_sub_cancel' hplaces, ← pow_add]
  exact ⟨⟨_, hfilled⟩, roundTo_eq_ok_iff.mpr ⟨hplaces, hfits, rfl⟩⟩

/-- Operands within a roomy bound have an exact result, and every way of rounding it succeeds. -/
theorem Operation.exists_apply {o : Operation} (hl : |o.left.value| ≤ roomyBound)
    (hr : |o.right.value| ≤ roomyBound) (hdefined : o.Defined) :
    ∃ v, o.apply = .ok v ∧
      ∀ places ≤ 4, ∃ a, v.roundTo amountScale places = .ok a := by
  obtain ⟨v, hv, hsize⟩ :=
    exists_ratio (Fixed.natAbs_raw_le hl) (Fixed.natAbs_raw_le hr) hdefined
  refine ⟨v, ?_, fun places hplaces => Ratio.exists_roundTo hsize hplaces⟩
  rw [apply, hv]
  rfl

/-- Under a roomy bound nothing but a division by zero and the range of the result is in the way. -/
theorem Settings.finish_of_roomy {settings : Settings} (hvalid : settings.Valid)
    (hroom : settings.operandBound ≤ roomyBound) {o : Operation}
    (hl : |o.left.value| ≤ settings.operandBound) (hr : |o.right.value| ≤ settings.operandBound) :
    (¬ o.Defined ∧ settings.finish o = .error ⟨.arithmetic, .divisionByZero⟩) ∨
    (o.Defined ∧ settings.resultBound < |o.exact| ∧
      settings.finish o = .error ⟨.resultRange, .resultOutOfRange settings.resultBound⟩) ∨
    (o.Defined ∧ |o.exact| ≤ settings.resultBound ∧
      ∃ a, settings.finish o = .ok a ∧ RoundsTo settings.fractionDigits o.exact a.value) := by
  obtain ⟨-, hdigits, -⟩ := valid_iff.mp hvalid
  have hroom' : (settings.operandBound : ℚ) ≤ roomyBound := by exact_mod_cast hroom
  have hroomy := Operation.exists_apply (le_trans hl hroom') (le_trans hr hroom')
  have hfinish := finish_cases hvalid o
  generalize settings.finish o = result at hfinish
  cases hfinish with
  | undefined h => exact Or.inl ⟨h, rfl⟩
  | overflow h happly =>
    obtain ⟨v, hv, -⟩ := hroomy h
    rw [hv] at happly
    cases happly
  | range h hbound => exact Or.inr (Or.inl ⟨h, hbound, rfl⟩)
  | rounding v fault h happly hbound hround =>
    obtain ⟨w, hw, hrounds⟩ := hroomy h
    obtain ⟨a, ha⟩ := hrounds settings.fractionDigits hdigits
    obtain rfl := Except.ok.inj (hw.symm.trans happly)
    rw [ha] at hround
    cases hround
  | value v a h happly hbound hround =>
    refine Or.inr (Or.inr ⟨h, hbound, a, rfl, ?_⟩)
    rw [← (Operation.value_of_apply happly).2]
    exact Ratio.roundsTo_of_roundTo hround

end Reckoner
