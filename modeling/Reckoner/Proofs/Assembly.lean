-- The laws of reading a number from a text. Of a numeral the digits behind the point are
-- counted before its size is looked at, and the size decides the rest. The number can be put
-- together from its parts as well, and none of them fails by itself.
import Reckoner.Proofs.Canonical

namespace Reckoner

variable {s : Scale} {n : Numeral}

/-! ## Parts of a numeral -/

namespace Numeral

theorem value_fraction_lt (h : n.fraction.length ≤ s.val) :
    Digits.value (n.fraction.rightpad s.val '0') < s.unit := by
  have hdigits : Digits.AllDigits (n.fraction.rightpad s.val '0') :=
    n.fraction_digits.append (Digits.allDigits_zeros _)
  have hlength : (n.fraction.rightpad s.val '0').length = s.val := by
    rw [List.length_rightpad]
    omega
  have hlt := Digits.value_lt hdigits
  rwa [hlength] at hlt

/-- The numeral with zeros in front of its whole part. -/
def leadingZeros (k : ℕ) (n : Numeral) : Numeral where
  sign := n.sign
  whole := List.replicate k '0' ++ n.whole
  fraction := n.fraction
  whole_run :=
    ⟨List.append_ne_nil_of_right_ne_nil _ n.whole_run.1,
      (Digits.allDigits_zeros k).append n.whole_run.2⟩
  fraction_digits := n.fraction_digits

theorem magnitude_leadingZeros (s : Scale) (k : ℕ) (n : Numeral) :
    (n.leadingZeros k).magnitude s = n.magnitude s := by
  rw [magnitude, magnitude, leadingZeros, Digits.value_append, Digits.value_replicate_zero,
    zero_mul, zero_add]

end Numeral

/-! ## Numbers from numerals -/

namespace Fixed

/-- Zeros in front of a numeral change nothing about what is read from it. -/
theorem ofNumeral_leadingZeros (s : Scale) (k : ℕ) (n : Numeral) :
    ofNumeral s (n.leadingZeros k) = ofNumeral s n := by
  unfold ofNumeral
  rw [n.magnitude_leadingZeros s k]
  rfl

theorem ofNumeral_eq_precisionLoss_iff :
    ofNumeral s n = .error .precisionLoss ↔ s.val < n.fraction.length := by
  rcases ofNumeral_cases s n with ⟨hmany, h⟩ | ⟨hdigits, -, h⟩ | ⟨hdigits, -, a, h, -⟩
  · simp [h, hmany]
  · simp [h, hdigits]
  · simp [h, hdigits]

theorem ofNumeral_eq_overflow_iff : ofNumeral s n = .error .overflow ↔
    n.fraction.length ≤ s.val ∧ Cell.greatest < n.size * 10 ^ s.val := by
  rcases ofNumeral_cases s n with ⟨hmany, h⟩ | ⟨hdigits, hfits, h⟩ | ⟨hdigits, hfits, a, h, -⟩
  · simp [h, hmany]
  · rw [Numeral.fits_magnitude_iff_size_le hdigits] at hfits
    simp [h, hdigits, not_le.mp hfits]
  · rw [Numeral.fits_magnitude_iff_size_le hdigits] at hfits
    simp [h, hfits]

theorem exists_ofNumeral (hdigits : n.fraction.length ≤ s.val)
    (hsize : n.size * 10 ^ s.val ≤ Cell.greatest) :
    ∃ a : Fixed s, ofNumeral s n = .ok a ∧ (a.raw : ℚ) = n.value * 10 ^ s.val := by
  obtain ⟨a, hread, hvalue, -⟩ :=
    ofNumeral_of_fits hdigits ((Numeral.fits_magnitude_iff_size_le hdigits).mpr hsize)
  refine ⟨a, hread, ?_⟩
  rw [← hvalue, value, Scale.unit_eq]
  push_cast
  exact (div_mul_cancel₀ _ (by positivity)).symm

theorem fault_of_ofNumeral {fault : Fault} (h : ofNumeral s n = .error fault) :
    fault = .precisionLoss ∨ fault = .overflow := by
  rcases ofNumeral_cases s n with ⟨-, hread⟩ | ⟨-, -, hread⟩ | ⟨-, -, a, hread, -⟩
  · exact Or.inl (Except.error.inj (h.symm.trans hread))
  · exact Or.inr (Except.error.inj (h.symm.trans hread))
  · cases h.symm.trans hread

/-! ## Numbers from parts -/

/-- The number of a numeral, put together from parts that each have a cell to fit. -/
def assemble (s : Scale) (n : Numeral) : Except Fault (Fixed s) :=
  let whole := Digits.value n.whole
  let fraction := Digits.value (n.fraction.rightpad s.val '0')
  if s.val < n.fraction.length then
    .error .precisionLoss
  else if ¬ Cell.FitsUnsigned fraction then
    .error .malformed
  else if ¬ Cell.Fits whole then
    .error .overflow
  else do
    let size : Fixed s ← ofParts whole fraction
    if n.isNegative then size.neg else pure size

/-- Where a part is too large for its cell, the size is too. -/
theorem assemble_eq (s : Scale) (n : Numeral) : assemble s n = ofNumeral s n := by
  unfold assemble ofNumeral
  by_cases hmany : s.val < n.fraction.length
  · rw [if_pos hmany, if_pos hmany]
  have hlt := Numeral.value_fraction_lt (not_lt.mp hmany)
  have hunit : s.unit ≤ 10 ^ 38 := Nat.pow_le_pow_right (by norm_num) (by omega)
  have hfraction : Cell.FitsUnsigned (Digits.value (n.fraction.rightpad s.val '0')) := by
    simp only [Cell.FitsUnsigned, Nat.pow_eq]
    omega
  rw [if_neg hmany]
  simp only [if_neg hmany, not_not.mpr hfraction, if_false, ofParts_of_lt hlt, steps_natCast]
  by_cases hwhole : Cell.Fits (Digits.value n.whole)
  · rw [if_neg (not_not.mpr hwhole)]
    rfl
  · have hsize : ¬ Cell.Fits (n.magnitude s) := by
      have hle : Digits.value n.whole ≤ n.magnitude s :=
        (Nat.le_mul_of_pos_right _ s.unit_pos).trans (Nat.le_add_right _ _)
      rw [Cell.fits_iff] at hwhole ⊢
      omega
    rw [if_pos hwhole, ofRaw_of_not_fits hsize]
    rfl

/-! ## Texts -/

theorem ofText_of_numeral {t : String} (h : n.chars '.' = t.toList) :
    ofText s t = ofNumeral s n := by
  rw [← ofText_chars, h, String.ofList_toList]

theorem ofText_of_no_numeral {t : String} (h : ¬ ∃ n : Numeral, n.chars '.' = t.toList) :
    ofText s t = .error .malformed := by
  unfold ofText ofChars
  cases hread : Numeral.read? '.' t.toList with
  | none => rfl
  | some n => exact absurd ⟨n, Numeral.chars_of_read? hread⟩ h

theorem ofText_eq_malformed_iff {t : String} :
    ofText s t = .error .malformed ↔ ¬ ∃ n : Numeral, n.chars '.' = t.toList := by
  refine ⟨?_, ofText_of_no_numeral⟩
  rintro hread ⟨n, hn⟩
  rw [ofText_of_numeral hn] at hread
  rcases fault_of_ofNumeral hread with h | h
  · cases h
  · cases h

theorem fault_of_ofText {t : String} {fault : Fault} (h : ofText s t = .error fault) :
    fault = .malformed ∨ fault = .precisionLoss ∨ fault = .overflow := by
  by_cases hform : ∃ n : Numeral, n.chars '.' = t.toList
  · obtain ⟨n, hn⟩ := hform
    rw [ofText_of_numeral hn] at h
    exact Or.inr (fault_of_ofNumeral h)
  · rw [ofText_of_no_numeral hform] at h
    exact Or.inl (Except.error.inj h).symm

end Fixed

/-- A text is malformed exactly when it is no numeral. A numeral with more digits behind its
point than the scale has loses precision, however large it is; another one overflows, on
either side of zero, exactly when its size is above the greatest number; and every other one
is read as the number that it writes. Its parts, put together one after the other, give the
same, and so does the numeral with zeros in front. -/
theorem a_text_is_read_by_its_form_and_its_size (s : Scale) (t : String) :
    (Fixed.ofText s t = .error .malformed ↔ ¬ ∃ n : Numeral, n.chars '.' = t.toList) ∧
    (∀ fault, Fixed.ofText s t = .error fault →
      fault = .malformed ∨ fault = .precisionLoss ∨ fault = .overflow) ∧
    ∀ n : Numeral, n.chars '.' = t.toList →
      (Fixed.ofText s t = .error .precisionLoss ↔ s.val < n.fraction.length) ∧
      (Fixed.ofText s t = .error .overflow ↔
        n.fraction.length ≤ s.val ∧ Cell.greatest < n.size * 10 ^ s.val) ∧
      (n.fraction.length ≤ s.val → n.size * 10 ^ s.val ≤ Cell.greatest →
        ∃ a, Fixed.ofText s t = .ok a ∧ (a.raw : ℚ) = n.value * 10 ^ s.val) ∧
      Fixed.ofText s t = Fixed.assemble s n ∧
      ∀ k, Fixed.ofText s (String.ofList ((n.leadingZeros k).chars '.')) = Fixed.ofText s t := by
  refine ⟨Fixed.ofText_eq_malformed_iff, fun fault h => Fixed.fault_of_ofText h, ?_⟩
  intro n hn
  rw [Fixed.ofText_of_numeral hn, Fixed.assemble_eq]
  refine ⟨Fixed.ofNumeral_eq_precisionLoss_iff, Fixed.ofNumeral_eq_overflow_iff,
    Fixed.exists_ofNumeral, rfl, ?_⟩
  intro k
  rw [Fixed.ofText_chars, Fixed.ofNumeral_leadingZeros]

def leastNumeral : Numeral :=
  ⟨some .minus, "17014118346046923173168730371588410".toList, "5728".toList, by decide, by decide⟩

/-- The numeral of a half below zero, which no scale without digits keeps. -/
def minusHalf : Numeral := ⟨some .minus, ['0'], ['5'], by decide, by decide⟩

/-- The least number fits a cell, and its size does not. -/
theorem the_least_number_is_not_read :
    leastNumeral.chars '.' = "-17014118346046923173168730371588410.5728".toList ∧
      Cell.greatest < leastNumeral.size * 10 ^ 4 ∧
      Fixed.ofText 4 "-17014118346046923173168730371588410.5728" = .error .overflow ∧
      Fixed.ofText 4 (String.ofList ((leastNumeral.leadingZeros 3).chars '.')) =
        .error .overflow ∧
      minusHalf.chars '.' = "-0.5".toList ∧
      (∃ a, Fixed.ofText 4 "-0.5" = .ok a ∧ (a.raw : ℚ) = minusHalf.value * 10 ^ 4) ∧
      Fixed.ofText 0 "-0.5" = .error .precisionLoss ∧
      ¬ ∃ n : Numeral, n.chars '.' = "".toList := by
  have hleast : leastNumeral.chars '.' = "-17014118346046923173168730371588410.5728".toList := rfl
  have hhalf : minusHalf.chars '.' = "-0.5".toList := rfl
  have hwhole : Digits.value leastNumeral.whole = 17014118346046923173168730371588410 := by
    decide +kernel
  have hfraction : Digits.value leastNumeral.fraction = 5728 := by decide +kernel
  have hsize : Cell.greatest < leastNumeral.size * 10 ^ 4 := by
    rw [Numeral.size, hwhole, hfraction, show leastNumeral.fraction.length = 4 from rfl]
    norm_num [Cell.greatest]
  have hsmall : minusHalf.size * 10 ^ 4 ≤ Cell.greatest := by
    rw [Numeral.size, show Digits.value minusHalf.whole = 0 from rfl,
      show Digits.value minusHalf.fraction = 5 from rfl]
    norm_num [minusHalf, Cell.greatest]
  obtain ⟨-, hover, -, -, hzeros⟩ :=
    (a_text_is_read_by_its_form_and_its_size 4 "-17014118346046923173168730371588410.5728").2.2
      leastNumeral hleast
  obtain ⟨-, -, hread, -⟩ :=
    (a_text_is_read_by_its_form_and_its_size 4 "-0.5").2.2 minusHalf hhalf
  obtain ⟨hdigits, -⟩ :=
    (a_text_is_read_by_its_form_and_its_size 0 "-0.5").2.2 minusHalf hhalf
  obtain ⟨hempty, -⟩ := a_text_is_read_by_its_form_and_its_size 4 ""
  have hoverflow := hover.mpr ⟨by decide, hsize⟩
  exact ⟨hleast, hsize, hoverflow, (hzeros 3).trans hoverflow, hhalf, hread (by decide) hsmall,
    hdigits.mpr (by decide), hempty.mp (by decide)⟩

end Reckoner
