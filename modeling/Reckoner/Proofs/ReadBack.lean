-- The laws of printing and reading back. The shortest text of a number is the text of a
-- numeral that writes it. So an amount is read back from its text, or it has more digits than
-- an operand may have; and a result never has.
import Mathlib.Data.List.DropRight
import Reckoner.Proofs.Outcomes

namespace Reckoner

/-! ## Zeros at the end -/

namespace Digits

variable {cs : List Char} {width d n : ℕ}

theorem trimZeros_eq (cs : List Char) : trimZeros cs = cs.rdropWhile (· == '0') := rfl

theorem exists_zeros_trimZeros (cs : List Char) :
    ∃ k, trimZeros cs ++ List.replicate k '0' = cs := by
  have hzeros : cs.rtakeWhile (· == '0') =
      List.replicate (cs.rtakeWhile (· == '0')).length '0' := by
    rw [List.eq_replicate_iff]
    refine ⟨rfl, ?_⟩
    intro c hc
    simpa using List.mem_rtakeWhile_imp hc
  refine ⟨(cs.rtakeWhile (· == '0')).length, ?_⟩
  rw [← hzeros, trimZeros_eq]
  exact List.rdropWhile_append_rtakeWhile

theorem getLast_trimZeros (hne : trimZeros cs ≠ []) : (trimZeros cs).getLast hne ≠ '0' := by
  intro heq
  exact List.rdropWhile_last_not (· == '0') cs hne (beq_iff_eq.mpr heq)

theorem getLast?_trimZeros (cs : List Char) : (trimZeros cs).getLast? ≠ some '0' := by
  intro hlast
  have hne : trimZeros cs ≠ [] := by
    intro hnil
    simp [hnil] at hlast
  rw [List.getLast?_eq_some_getLast hne, Option.some.injEq] at hlast
  exact getLast_trimZeros hne hlast

theorem allDigits_trimZeros (h : AllDigits cs) : AllDigits (trimZeros cs) := by
  intro c hc
  exact h c ((List.rdropWhile_prefix (· == '0') cs).subset hc)

/-- A number that ends in a digit other than zero is no multiple of ten. -/
theorem not_ten_dvd_value (h : AllDigits cs) (hne : cs ≠ []) (hlast : cs.getLast hne ≠ '0') :
    ¬ 10 ∣ value cs := by
  intro hdvd
  have hdigit := h _ (List.getLast_mem hne)
  rw [← List.dropLast_append_getLast hne, value_append] at hdvd
  generalize cs.getLast hne = c at hlast hdigit hdvd
  have hvalue : value [c] = c.toNat - 48 := by
    simp [value, Nat.ofDigitChars_cons]
  rw [hvalue, List.length_singleton, pow_one] at hdvd
  have hzero : c.toNat ≠ 48 := by
    intro heq
    exact hlast (Char.toNat_inj.mp heq)
  obtain ⟨hlow, hhigh⟩ := Char.isDigit_iff_toNat.mp hdigit
  simp only [Char.reduceToNat] at hlow hhigh
  omega

theorem length_trimZeros_le_iff (h : AllDigits cs) (hd : d ≤ cs.length) :
    (trimZeros cs).length ≤ d ↔ 10 ^ (cs.length - d) ∣ value cs := by
  obtain ⟨k, hk⟩ := exists_zeros_trimZeros cs
  have hlength : (trimZeros cs).length + k = cs.length := by
    rw [← hk, List.length_append, List.length_replicate, hk]
  have hvalue : value cs = value (trimZeros cs) * 10 ^ k := by
    rw [← value_append_zeros, hk]
  rw [hvalue]
  refine ⟨?_, ?_⟩
  · intro hle
    exact dvd_mul_of_dvd_right (pow_dvd_pow 10 (by omega)) _
  · intro hdvd
    by_contra hlt
    have hne : trimZeros cs ≠ [] := by
      rintro heq
      simp [heq] at hlt
    have hmore : 10 ^ (k + 1) ∣ value (trimZeros cs) * 10 ^ k :=
      dvd_trans (pow_dvd_pow 10 (by omega)) hdvd
    rw [pow_succ', mul_comm (value _), mul_comm 10] at hmore
    have hten := Nat.dvd_of_mul_dvd_mul_left (by positivity) hmore
    exact not_ten_dvd_value (allDigits_trimZeros h) hne (getLast_trimZeros hne) hten

/-! ## Fractions -/

theorem allDigits_padded (width n : ℕ) : AllDigits (padded width n) :=
  (allDigits_zeros _).append (allDigits_ofNat n)

theorem value_padded (width n : ℕ) : value (padded width n) = n := by
  rw [padded, List.leftpad, value_append, value_replicate_zero, zero_mul, zero_add, value_ofNat]

theorem length_padded (hwidth : 0 < width) (h : n < 10 ^ width) :
    (padded width n).length = width := by
  rw [padded, List.length_leftpad, max_eq_left]
  exact (Nat.length_toDigits_le_iff (by decide) hwidth).mpr h

/-- How many digits the fraction of `n` steps needs, out of `width`. -/
theorem length_trimZeros_padded_le_iff (h : n < 10 ^ width) (hd : d ≤ width) :
    (trimZeros (padded width n)).length ≤ d ↔ 10 ^ (width - d) ∣ n := by
  by_cases hwidth : width = 0
  · subst hwidth
    have hn : n = 0 := by omega
    subst hn
    simp [trimZeros, padded, ofNat]
  · have hlength := length_padded (Nat.pos_of_ne_zero hwidth) h
    have hle := length_trimZeros_le_iff (d := d) (allDigits_padded width n) (by omega)
    rw [hlength, value_padded] at hle
    exact hle

theorem value_trimZeros_padded (h : n < 10 ^ width) :
    value (trimZeros (padded width n)) * 10 ^ width =
      n * 10 ^ (trimZeros (padded width n)).length := by
  by_cases hwidth : width = 0
  · subst hwidth
    have hn : n = 0 := by omega
    subst hn
    simp [trimZeros, padded, ofNat, value]
  · obtain ⟨k, hk⟩ := exists_zeros_trimZeros (padded width n)
    have hvalue := value_padded width n
    have hlength := length_padded (Nat.pos_of_ne_zero hwidth) h
    rw [← hk, value_append_zeros] at hvalue
    rw [← hk, List.length_append, List.length_replicate] at hlength
    generalize trimZeros (padded width n) = digits at hvalue hlength ⊢
    rw [← hvalue, ← hlength, pow_add]
    ring

end Digits

/-! ## The numeral of a number -/

namespace Fixed

variable {s : Scale} {d : ℕ}

/-- The shortest numeral of a number. -/
def numeral (a : Fixed s) : Numeral where
  sign := if a.raw < 0 then some .minus else none
  whole := Digits.ofNat (a.raw.natAbs / s.unit)
  fraction := Digits.trimZeros (Digits.padded s.val (a.raw.natAbs % s.unit))
  whole_run := ⟨Digits.ofNat_ne_nil _, Digits.allDigits_ofNat _⟩
  fraction_digits := Digits.allDigits_trimZeros (Digits.allDigits_padded _ _)

theorem mod_unit_lt (a : Fixed s) : a.raw.natAbs % s.unit < 10 ^ s.val :=
  Nat.mod_lt _ s.unit_pos

theorem sign_numeral (a : Fixed s) :
    a.numeral.sign = if a.raw < 0 then some .minus else none := rfl

theorem whole_numeral (a : Fixed s) :
    a.numeral.whole = Digits.ofNat (a.raw.natAbs / s.unit) := rfl

theorem fraction_numeral (a : Fixed s) : a.numeral.fraction =
    Digits.trimZeros (Digits.padded s.val (a.raw.natAbs % s.unit)) := rfl

/-- How many digits a number needs behind its point. -/
theorem length_fraction_le_iff (a : Fixed s) (hd : d ≤ s.val) :
    a.numeral.fraction.length ≤ d ↔ (10 : ℤ) ^ (s.val - d) ∣ a.raw := by
  have hunit : 10 ^ (s.val - d) ∣ s.unit := pow_dvd_pow 10 (Nat.sub_le _ _)
  have hcast : (10 : ℤ) ^ (s.val - d) = ((10 ^ (s.val - d) : ℕ) : ℤ) := by push_cast; rfl
  rw [fraction_numeral, Digits.length_trimZeros_padded_le_iff a.mod_unit_lt hd,
    Nat.dvd_mod_iff hunit, hcast, Int.natCast_dvd]

theorem length_fraction_le (a : Fixed s) : a.numeral.fraction.length ≤ s.val := by
  rw [a.length_fraction_le_iff le_rfl, Nat.sub_self, pow_zero]
  exact one_dvd _

theorem chars_sign (a : Fixed s) :
    ((if a.raw < 0 then some Sign.minus else none).map Sign.char).toList =
      if a.raw < 0 then ['-'] else [] := by
  split <;> rfl

theorem chars_numeral (a : Fixed s) (point : Char) :
    a.numeral.chars point = a.plainChars point := by
  have hnil : a.numeral.fraction = [] ↔ a.raw.natAbs % s.unit = 0 := by
    have hle := Digits.length_trimZeros_padded_le_iff a.mod_unit_lt (Nat.zero_le _)
    rw [Nat.le_zero, List.length_eq_zero_iff] at hle
    rw [fraction_numeral, hle]
    refine ⟨?_, ?_⟩
    · intro hdvd
      exact Nat.eq_zero_of_dvd_of_lt hdvd a.mod_unit_lt
    · intro hzero
      rw [hzero]
      exact dvd_zero _
  unfold Numeral.chars plainChars
  rw [sign_numeral, a.chars_sign]
  simp only [hnil]
  rfl

/-- A numeral with the sign, the wholes and the steps of a number writes the number. -/
theorem value_of_parts (a : Fixed s) {n : Numeral}
    (hsign : n.sign = if a.raw < 0 then some .minus else none)
    (hwhole : n.whole = Digits.ofNat (a.raw.natAbs / s.unit))
    (hfraction : Digits.value n.fraction * 10 ^ s.val =
      a.raw.natAbs % s.unit * 10 ^ n.fraction.length) :
    n.value = a.value := by
  have hsteps : (Digits.value n.fraction : ℚ) / 10 ^ n.fraction.length =
      (a.raw.natAbs % s.unit : ℕ) / s.unit := by
    rw [div_eq_div_iff (by positivity) s.unit_ne_zero, Scale.unit_eq]
    exact_mod_cast hfraction
  have hsize : n.size = a.raw.natAbs / s.unit := by
    have hsum := Nat.div_add_mod a.raw.natAbs s.unit
    rw [Numeral.size, hsteps, hwhole, Digits.value_ofNat, eq_div_iff s.unit_ne_zero, add_mul,
      div_mul_cancel₀ _ s.unit_ne_zero, mul_comm]
    exact_mod_cast hsum
  rw [Numeral.value, Numeral.isNegative, hsign, hsize, value, Nat.cast_natAbs]
  by_cases hneg : a.raw < 0
  · simp only [hneg, if_true, beq_self_eq_true, abs_of_neg hneg]
    push_cast
    ring
  · simp only [hneg, if_false, abs_of_nonneg (not_lt.mp hneg)]
    rfl

theorem value_numeral (a : Fixed s) : a.numeral.value = a.value :=
  a.value_of_parts rfl rfl (Digits.value_trimZeros_padded a.mod_unit_lt)

/-- A number is read back from every numeral that writes it, unless it is the least one. -/
theorem ofNumeral_of_value_eq {n : Numeral} {a : Fixed s} (hdigits : n.fraction.length ≤ s.val)
    (h : n.value = a.value) :
    ofNumeral s n = if a.raw = Cell.least then .error .overflow else .ok a := by
  have hcell := a.fits
  have hleast := Cell.least_eq
  have hmagnitude : n.magnitude s = a.raw.natAbs := by
    have hsize := Numeral.magnitude_eq hdigits
    rw [← n.abs_value, h, value, abs_div, abs_of_pos s.unit_cast_pos,
      div_mul_cancel₀ _ s.unit_ne_zero, ← Int.cast_abs, Int.abs_eq_natAbs] at hsize
    exact_mod_cast hsize
  rw [Cell.fits_iff] at hcell
  split
  · next hraw =>
    apply ofNumeral_of_not_fits hdigits
    rw [hmagnitude, Cell.fits_iff]
    omega
  · next hraw =>
    have hfits : Cell.Fits (n.magnitude s) := by
      rw [hmagnitude, Cell.fits_iff]
      omega
    obtain ⟨b, hread, hvalue, -⟩ := ofNumeral_of_fits hdigits hfits
    rw [hread, value_inj.mp (hvalue.trans h)]

theorem ofNumeral_numeral {a : Fixed s} (h : a.raw ≠ Cell.least) :
    ofNumeral s a.numeral = .ok a := by
  rw [ofNumeral_of_value_eq a.length_fraction_le a.value_numeral, if_neg h]

end Fixed

/-! ## Amounts -/

section Amounts

variable {settings : Settings} {a : Amount}

/-- An amount is read back from its text unless that has more digits than an operand may. -/
theorem Operand.ofText_plain (hvalid : settings.Valid) (h : a.raw ≠ Cell.least) :
    ofText settings (a.plain settings.separators.point) =
      if (10 : ℤ) ^ (4 - settings.fractionDigits) ∣ a.raw then
        .ok a
      else
        .error (.tooManyFractionDigits settings.fractionDigits) := by
  obtain ⟨-, hdigits, -⟩ := Settings.valid_iff.mp hvalid
  have hlength : a.numeral.fraction.length ≤ settings.fractionDigits ↔
      (10 : ℤ) ^ (4 - settings.fractionDigits) ∣ a.raw := a.length_fraction_le_iff hdigits
  rw [ofText, Fixed.plain, String.toList_ofList, ← Fixed.chars_numeral, ofChars_chars hvalid,
    Fixed.ofNumeral_numeral h]
  by_cases hfew : a.numeral.fraction.length ≤ settings.fractionDigits
  · rw [if_neg (by omega), if_pos (hlength.mp hfew)]
    rfl
  · rw [if_pos (by omega), if_neg (mt hlength.mpr hfew)]

/-- A value has no more digits than are kept, and it is not the least amount. -/
theorem Settings.dvd_of_finish (hvalid : settings.Valid) {o : Operation}
    (h : settings.finish o = .ok a) :
    (10 : ℤ) ^ (4 - settings.fractionDigits) ∣ a.raw ∧ a.raw ≠ Cell.least := by
  have hfinish := finish_cases hvalid o
  rw [h] at hfinish
  cases hfinish with
  | value v _ _ _ _ hround =>
    refine ⟨Ratio.dvd_of_roundTo hround, ?_⟩
    intro hleast
    exact absurd (Ratio.raw_eq_least_of_roundTo hround hleast).1 (by decide)

end Amounts

/-- Every amount but the least one is read back from its text, as far as its digits are
allowed in an operand, and a result is always read back from the line that shows it. -/
theorem a_shown_amount_is_read_back (e : Evaluator) :
    (∀ a : Amount, a.raw ≠ Cell.least →
      Operand.ofText e.settings (a.plain e.settings.separators.point) =
        if (10 : ℤ) ^ (4 - e.settings.fractionDigits) ∣ a.raw then
          .ok a
        else
          .error (.tooManyFractionDigits e.settings.fractionDigits)) ∧
    ∀ input a, e.evaluate input = .success a →
      Operand.ofText e.settings ((Outcome.success a).render e.settings.separators) = .ok a := by
  refine ⟨fun a h => Operand.ofText_plain e.valid h, ?_⟩
  intro input a h
  obtain ⟨o, -, hfinish⟩ := Evaluator.exists_of_success h
  obtain ⟨hdvd, hleast⟩ := Settings.dvd_of_finish e.valid hfinish
  rw [Outcome.render, Operand.ofText_plain e.valid hleast, if_pos hdvd]

/-- The evaluator of two digits and a comma for the point. -/
def Evaluator.withComma : Evaluator := ⟨{ fractionDigits := 2, separators := ⟨',', '.'⟩ }, rfl⟩

/-- A value between minus one and zero has a sign before its zero, and is read with it. -/
theorem a_shown_amount_with_a_comma_is_read_back :
    Evaluator.withComma.evaluate "1 / -3" = .success ⟨-3300, by decide⟩ ∧
      (Outcome.success ⟨-3300, by decide⟩).render ⟨',', '.'⟩ = "-0,33" ∧
      Operand.ofText Evaluator.withComma.settings "-0,33" = .ok ⟨-3300, by decide⟩ ∧
      Operand.ofText Evaluator.withComma.settings "0,0512" =
        .error (.tooManyFractionDigits 2) := by
  obtain ⟨hamount, hsuccess⟩ := a_shown_amount_is_read_back Evaluator.withComma
  have hvalue : Evaluator.withComma.evaluate "1 / -3" = .success ⟨-3300, by decide⟩ := by
    decide +kernel
  have hshown : (Outcome.success ⟨-3300, by decide⟩).render ⟨',', '.'⟩ = "-0,33" := by
    decide +kernel
  have hlong : (⟨512, by decide⟩ : Amount).plain ',' = "0,0512" := by decide +kernel
  refine ⟨hvalue, hshown, ?_, ?_⟩
  · rw [← hshown]
    exact hsuccess _ _ hvalue
  · rw [← hlong]
    exact hamount ⟨512, by decide⟩ (by decide)

end Reckoner
