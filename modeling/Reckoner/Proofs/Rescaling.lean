-- The laws of rescaling. A number may be written with more digits than it needs, at a larger
-- scale or as a decimal for other programs, and it is still the same number. Nothing is lost on
-- the way there, and so the way back is open; what may be missing is room for the digits.
import Reckoner.Number.Interchange
import Reckoner.Proofs.Rounding

namespace Reckoner

variable {s e : Scale}

/-! ## One number with more and with fewer digits -/

theorem div_pow_eq_div_pow_iff {m n : ℤ} {i j : ℕ} (h : i ≤ j) :
    (n : ℚ) / 10 ^ j = m / 10 ^ i ↔ n = m * 10 ^ (j - i) := by
  have hten : (10 : ℚ) ^ j = 10 ^ (j - i) * 10 ^ i := by rw [← pow_add, Nat.sub_add_cancel h]
  rw [div_eq_div_iff (by positivity) (by positivity), hten, ← mul_assoc,
    mul_left_inj' (by positivity)]
  exact_mod_cast Iff.rfl

theorem Fixed.value_eq_div_pow (a : Fixed s) : a.value = a.raw / 10 ^ s.val := by
  rw [value, Scale.unit_eq]
  push_cast
  rfl

theorem Fixed.value_eq_value_iff {a : Fixed s} {b : Fixed e} (h : s ≤ e) :
    b.value = a.value ↔ b.raw = a.raw * 10 ^ (e.val - s.val) := by
  rw [value_eq_div_pow, value_eq_div_pow, div_pow_eq_div_pow_iff h]

/-! ## Other scales -/

/-- A ratio that is worth a number of the scale is rounded to it, if it has room for its digits. -/
theorem Ratio.round_of_value_eq {v : Ratio} {a : Fixed s} (hvalue : v.value = a.value)
    (hroom : Cell.Fits (v.numer * 10 ^ s.val)) : v.round s = .ok a := by
  refine (roundTo_of_value_eq le_rfl ?_ hvalue).trans (if_pos hroom)
  rw [Nat.sub_self, pow_zero]
  exact one_dvd _

namespace Fixed

variable {a : Fixed s} {b : Fixed e}

theorem value_of_round (hle : s ≤ e) (h : a.toRatio.round e = .ok b) : b.value = a.value := by
  have hten : (10 : ℚ) ^ e.val = 10 ^ (e.val - s.val) * 10 ^ s.val := by
    rw [← pow_add, Nat.sub_add_cancel hle]
  have hdigits : a.value * 10 ^ e.val = (a.raw * 10 ^ (e.val - s.val) : ℤ) := by
    rw [value_eq_div_pow, hten]
    push_cast
    field_simp
  exact (Ratio.roundsTo_of_roundTo h).unique (roundsTo_self hdigits)

theorem round_eq_ok_iff (hle : s ≤ e) : a.toRatio.round e = .ok b ↔
    Cell.Fits (a.raw * 10 ^ e.val) ∧ b.raw = a.raw * 10 ^ (e.val - s.val) := by
  refine ⟨?_, ?_⟩
  · intro h
    exact ⟨(Ratio.roundTo_eq_ok_iff.mp h).2.1, (value_eq_value_iff hle).mp (value_of_round hle h)⟩
  · rintro ⟨hroom, hraw⟩
    exact Ratio.round_of_value_eq ((value_eq_value_iff hle).mpr hraw).symm hroom

/-- Both ways need room for the digits of the two scales together. -/
theorem round_of_round (hle : s ≤ e) (h : a.toRatio.round e = .ok b) :
    b.toRatio.round s = .ok a := by
  obtain ⟨hroom, hraw⟩ := (round_eq_ok_iff hle).mp h
  apply Ratio.round_of_value_eq (v := b.toRatio) (a := a) (value_of_round hle h)
  change Cell.Fits (b.raw * 10 ^ s.val)
  rwa [hraw, mul_assoc, ← pow_add, Nat.sub_add_cancel hle]

end Fixed

/-- A number that is rounded to as many digits as it has, or to more, stays as it is, or it has
no room for them and its fault is on its own side of zero. At a larger scale, where there is room
for it, it is the same number, and it comes back from there. -/
theorem a_rescaled_number_comes_back :
    (∀ (s : Scale) (p q : ℕ) (a : Fixed s), p ≤ q → q ≤ s.val →
      (10 : ℤ) ^ (s.val - p) ∣ a.raw →
      a.toRatio.roundTo s q =
        if Cell.Fits (a.raw * 10 ^ q) then .ok a
        else .error (if a.raw < 0 then .underflow else .overflow)) ∧
    ∀ (s e : Scale) (a : Fixed s) (b : Fixed e), s ≤ e →
      (a.toRatio.round e = .ok b ↔
        Cell.Fits (a.raw * 10 ^ e.val) ∧ b.raw = a.raw * 10 ^ (e.val - s.val)) ∧
      (a.toRatio.round e = .ok b → b.toRatio.round s = .ok a) := by
  refine ⟨?_, ?_⟩
  · intro s p q a hpq hq hdvd
    have hdvd' : (10 : ℤ) ^ (s.val - q) ∣ a.raw :=
      (pow_dvd_pow 10 (Nat.sub_le_sub_left hpq s.val)).trans hdvd
    exact Ratio.roundTo_of_value_eq hq hdvd' rfl
  · intro s e a b hle
    exact ⟨Fixed.round_eq_ok_iff hle, Fixed.round_of_round hle⟩

/-- Twelve and 34 hundredths below zero, with two digits more than they need. -/
def paddedAmount : Amount := ⟨-123400, by decide⟩

def oneStep : Amount := ⟨1, by decide⟩

/-- Two digits are kept in three, and a single step goes from four digits to 38 and back. -/
theorem a_rescaled_step_comes_back :
    paddedAmount.toRatio.roundTo 4 3 = .ok paddedAmount ∧
      (⟨-10 ^ 38, by decide⟩ : Amount).toRatio.roundTo 4 2 = .error .underflow ∧
      oneStep.toRatio.round 38 = .ok ⟨10 ^ 34, by decide⟩ ∧
      (⟨10 ^ 34, by decide⟩ : Fixed 38).toRatio.round 4 = .ok oneStep := by
  obtain ⟨hkept, hscale⟩ := a_rescaled_number_comes_back
  have hthree := hkept 4 2 3 paddedAmount (by decide) (by decide) (by decide)
  have hnone := hkept 4 0 2 ⟨-10 ^ 38, by decide⟩ (by decide) (by decide) (by decide)
  obtain ⟨hthere, hback⟩ := hscale 4 38 oneStep ⟨10 ^ 34, by decide⟩ (by decide)
  rw [if_pos (by decide)] at hthree
  rw [if_neg (by decide), if_pos (by decide)] at hnone
  have hstep := hthere.mpr ⟨by decide, rfl⟩
  exact ⟨hthree, hnone, hstep, hback hstep⟩

/-! ## Decimals -/

/-- The number that a decimal stands for. -/
def Interchange.value (d : Interchange) : ℚ := d.mantissa / 10 ^ d.scale

namespace Fixed

variable {d : Interchange} {a : Fixed s}

theorem value_eq_decimal_iff_of_le (h : s.val ≤ d.scale) :
    a.value = d.value ↔ d.mantissa = a.raw * 10 ^ (d.scale - s.val) := by
  rw [value_eq_div_pow, Interchange.value, eq_comm, div_pow_eq_div_pow_iff h]

theorem value_eq_decimal_iff_of_ge (h : d.scale ≤ s.val) :
    a.value = d.value ↔ a.raw = d.mantissa * 10 ^ (s.val - d.scale) := by
  rw [value_eq_div_pow, Interchange.value, div_pow_eq_div_pow_iff h]

/-- A decimal with more digits than the scale is cut if nothing but zeros is cut off. -/
theorem ofInterchange_of_lt (h : s.val < d.scale) :
    ofInterchange s d =
      if (10 : ℤ) ^ (d.scale - s.val) ∣ d.mantissa then
        ofRaw (d.mantissa.tdiv (10 ^ (d.scale - s.val))) .overflow
      else .error .precisionLoss := by
  unfold ofInterchange
  simp only [if_pos h, Int.pow_eq, Int.dvd_iff_tmod_eq_zero]

/-- And one with no more digits gets those that it lacks. -/
theorem ofInterchange_of_ge (h : d.scale ≤ s.val) :
    ofInterchange s d = ofRaw (d.mantissa * 10 ^ (s.val - d.scale)) .overflow := by
  unfold ofInterchange
  simp only [if_neg (not_lt.mpr h), Int.pow_eq]

theorem exists_ofInterchange_of_dvd (h : s.val < d.scale)
    (hdvd : (10 : ℤ) ^ (d.scale - s.val) ∣ d.mantissa) :
    ∃ a : Fixed s, ofInterchange s d = .ok a ∧ a.value = d.value := by
  have hfits : Cell.Fits (d.mantissa.tdiv (10 ^ (d.scale - s.val))) := by
    have hsize : (d.mantissa.tdiv (10 ^ (d.scale - s.val))).natAbs ≤ d.mantissa.natAbs := by
      rw [Int.natAbs_tdiv]
      exact Nat.div_le_self _ _
    have hmantissa := d.mantissa_lt
    simp only [Nat.pow_eq] at hmantissa
    rw [Cell.fits_iff]
    omega
  refine ⟨⟨_, hfits⟩, ?_, ?_⟩
  · rw [ofInterchange_of_lt h, if_pos hdvd, ofRaw_of_fits hfits]
  · rw [value_eq_decimal_iff_of_le h.le, Int.tdiv_mul_cancel hdvd]

theorem ofInterchange_cases (s : Scale) (d : Interchange) :
    (s.val < d.scale ∧ ¬ (10 : ℤ) ^ (d.scale - s.val) ∣ d.mantissa ∧
      ofInterchange s d = .error .precisionLoss) ∨
    (d.scale ≤ s.val ∧ ¬ Cell.Fits (d.mantissa * 10 ^ (s.val - d.scale)) ∧
      ofInterchange s d = .error .overflow) ∨
    ((s.val < d.scale → (10 : ℤ) ^ (d.scale - s.val) ∣ d.mantissa) ∧
      (d.scale ≤ s.val → Cell.Fits (d.mantissa * 10 ^ (s.val - d.scale))) ∧
      ∃ a : Fixed s, ofInterchange s d = .ok a ∧ a.value = d.value) := by
  rcases lt_or_ge s.val d.scale with hlt | hge
  · by_cases hdvd : (10 : ℤ) ^ (d.scale - s.val) ∣ d.mantissa
    · exact Or.inr (Or.inr ⟨fun _ => hdvd, fun hge => absurd hge (not_le.mpr hlt),
        exists_ofInterchange_of_dvd hlt hdvd⟩)
    · exact Or.inl ⟨hlt, hdvd, (ofInterchange_of_lt hlt).trans (if_neg hdvd)⟩
  · rw [ofInterchange_of_ge hge]
    by_cases hfits : Cell.Fits (d.mantissa * 10 ^ (s.val - d.scale))
    · exact Or.inr (Or.inr ⟨fun hlt => absurd hge (not_le.mpr hlt), fun _ => hfits,
        ⟨_, hfits⟩, ofRaw_of_fits hfits, (value_eq_decimal_iff_of_ge hge).mpr rfl⟩)
    · exact Or.inr (Or.inl ⟨hge, hfits, ofRaw_of_not_fits hfits⟩)

/-- A decimal is read as the number that it stands for, if the scale has one. -/
theorem ofInterchange_eq_ok_iff : ofInterchange s d = .ok a ↔ a.value = d.value := by
  rcases ofInterchange_cases s d with ⟨hlt, hdvd, h⟩ | ⟨hge, hfits, h⟩ | ⟨-, -, b, h, hvalue⟩
  · simp only [h, reduceCtorEq, false_iff, value_eq_decimal_iff_of_le hlt.le]
    intro hmantissa
    exact hdvd (Dvd.intro_left _ hmantissa.symm)
  · simp only [h, reduceCtorEq, false_iff, value_eq_decimal_iff_of_ge hge]
    intro hraw
    exact hfits (hraw ▸ a.fits)
  · rw [h, Except.ok.injEq, ← hvalue, value_inj, eq_comm]

theorem ofInterchange_eq_precisionLoss_iff : ofInterchange s d = .error .precisionLoss ↔
    s.val < d.scale ∧ ¬ (10 : ℤ) ^ (d.scale - s.val) ∣ d.mantissa := by
  rcases ofInterchange_cases s d with ⟨hlt, hdvd, h⟩ | ⟨hge, -, h⟩ | ⟨hdvd, -, b, h, -⟩
  · simp [h, hlt, hdvd]
  · simp [h, hge]
  · simpa [h] using hdvd

theorem ofInterchange_eq_overflow_iff : ofInterchange s d = .error .overflow ↔
    d.scale ≤ s.val ∧ ¬ Cell.Fits (d.mantissa * 10 ^ (s.val - d.scale)) := by
  rcases ofInterchange_cases s d with ⟨hlt, -, h⟩ | ⟨hge, hfits, h⟩ | ⟨-, hfits, b, h, -⟩
  · simp [h, hlt]
  · simp [h, hge, hfits]
  · simpa [h] using hfits

theorem fault_of_ofInterchange {fault : Fault} (hfault : ofInterchange s d = .error fault) :
    fault = .precisionLoss ∨ fault = .overflow := by
  rcases ofInterchange_cases s d with ⟨-, -, h⟩ | ⟨-, -, h⟩ | ⟨-, -, b, h, -⟩
  · exact Or.inl (Except.error.inj (hfault.symm.trans h))
  · exact Or.inr (Except.error.inj (hfault.symm.trans h))
  · cases hfault.symm.trans h

/-- The decimal of a number has its steps and its scale, if a decimal can have them. -/
theorem toInterchange_eq_ok_iff :
    a.toInterchange = .ok d ↔ d.mantissa = a.raw ∧ d.scale = s.val := by
  obtain ⟨mantissa, scale, hmantissa, hscale⟩ := d
  unfold toInterchange Interchange.ofParts?
  by_cases hparts : a.raw.natAbs < Nat.pow 2 96 ∧ s.val ≤ 28
  · rw [dif_pos hparts]
    simp [eq_comm]
  · rw [dif_neg hparts]
    simp only [reduceCtorEq, false_iff]
    rintro ⟨rfl, rfl⟩
    exact hparts ⟨hmantissa, hscale⟩

theorem value_of_toInterchange (h : a.toInterchange = .ok d) : d.value = a.value := by
  obtain ⟨hmantissa, hscale⟩ := toInterchange_eq_ok_iff.mp h
  rw [Interchange.value, hmantissa, hscale, value_eq_div_pow]

end Fixed

/-- A decimal is read as the number that it stands for and as no other: it has too many digits
for a scale if what is cut off is not all zeros, and no room if it lacks digits that do not fit.
A number has a decimal with its steps and its scale, as far as there is one. The number is read
back from that, and at another scale what is read is the same number, where there is one. -/
theorem a_decimal_is_read_as_its_number (s : Scale) :
    (∀ d : Interchange,
      (∀ a : Fixed s, Fixed.ofInterchange s d = .ok a ↔ a.value = d.value) ∧
      (Fixed.ofInterchange s d = .error .precisionLoss ↔
        s.val < d.scale ∧ ¬ (10 : ℤ) ^ (d.scale - s.val) ∣ d.mantissa) ∧
      (Fixed.ofInterchange s d = .error .overflow ↔
        d.scale ≤ s.val ∧ ¬ Cell.Fits (d.mantissa * 10 ^ (s.val - d.scale))) ∧
      ∀ fault, Fixed.ofInterchange s d = .error fault →
        fault = .precisionLoss ∨ fault = .overflow) ∧
    ∀ (a : Fixed s) (d : Interchange),
      (a.toInterchange = .ok d ↔ d.mantissa = a.raw ∧ d.scale = s.val) ∧
      (a.toInterchange = .ok d → Fixed.ofInterchange s d = .ok a ∧
        ∀ (e : Scale) (b : Fixed e), Fixed.ofInterchange e d = .ok b ↔ b.value = a.value) := by
  refine ⟨?_, ?_⟩
  · intro d
    exact ⟨fun _ => Fixed.ofInterchange_eq_ok_iff, Fixed.ofInterchange_eq_precisionLoss_iff,
      Fixed.ofInterchange_eq_overflow_iff, fun _ => Fixed.fault_of_ofInterchange⟩
  · intro a d
    refine ⟨Fixed.toInterchange_eq_ok_iff, ?_⟩
    intro h
    have hvalue := Fixed.value_of_toInterchange h
    refine ⟨Fixed.ofInterchange_eq_ok_iff.mpr hvalue.symm, ?_⟩
    intro e b
    rw [Fixed.ofInterchange_eq_ok_iff, hvalue]

/-- The decimal of the same number. -/
def paddedDecimal : Interchange := ⟨-123400, 4, by decide, by decide⟩

/-- The greatest mantissa, as a whole number. -/
def greatestDecimal : Interchange := ⟨2 ^ 96 - 1, 0, by decide, by decide⟩

/-- Zeros are cut off, the greatest mantissa lacks room, and the greatest amount has no decimal. -/
theorem a_decimal_is_read_as_its_number_between_its_limits :
    paddedAmount.toInterchange = .ok paddedDecimal ∧
      Fixed.ofInterchange 4 paddedDecimal = .ok paddedAmount ∧
      Fixed.ofInterchange 2 paddedDecimal = .ok ⟨-1234, by decide⟩ ∧
      Fixed.ofInterchange 1 paddedDecimal = .error .precisionLoss ∧
      Fixed.ofInterchange 38 greatestDecimal = .error .overflow ∧
      ∀ d, (Fixed.greatest : Amount).toInterchange ≠ .ok d := by
  obtain ⟨-, hfour⟩ := a_decimal_is_read_as_its_number 4
  obtain ⟨hone, -⟩ := a_decimal_is_read_as_its_number 1
  obtain ⟨hlast, -⟩ := a_decimal_is_read_as_its_number 38
  obtain ⟨hparts, hread⟩ := hfour paddedAmount paddedDecimal
  have hdecimal := hparts.mpr ⟨rfl, rfl⟩
  obtain ⟨hback, hother⟩ := hread hdecimal
  refine ⟨hdecimal, hback, (hother 2 ⟨-1234, by decide⟩).mpr ?_, ?_, ?_, ?_⟩
  · norm_num [Fixed.value, Scale.unit_eq, paddedAmount]
  · exact (hone paddedDecimal).2.1.mpr (by decide)
  · exact (hlast greatestDecimal).2.2.1.mpr (by decide)
  · intro d h
    have hmantissa := ((hfour Fixed.greatest d).1.mp h).1
    exact absurd d.mantissa_lt (by rw [hmantissa]; decide)

end Reckoner
