-- The laws of reading. A numeral writes a number, however many digits it has, and the
-- amount that is read from it is worth that number. Whatever separators the settings
-- choose, the reading fails on a numeral in two ways only.
import Reckoner.Proofs.Cuts
import Reckoner.Proofs.Values

namespace Reckoner

/-! ## Digits -/

namespace Digits

theorem AllDigits.append {cs ds : List Char} (hcs : AllDigits cs) (hds : AllDigits ds) :
    AllDigits (cs ++ ds) := by
  intro c hc
  exact (List.mem_append.mp hc).elim (hcs c) (hds c)

theorem allDigits_zeros (k : ℕ) : AllDigits (List.replicate k '0') := by
  intro c hc
  rw [List.eq_of_mem_replicate hc]
  rfl

theorem value_append (cs ds : List Char) :
    value (cs ++ ds) = value cs * 10 ^ ds.length + value ds := by
  rw [value, Nat.ofDigitChars_append, Nat.ofDigitChars_eq_ofDigitChars_zero, mul_comm]
  rfl

theorem value_replicate_zero (k : ℕ) : value (List.replicate k '0') = 0 := by
  rw [value, Nat.ofDigitChars_replicate_zero, mul_zero]

theorem value_append_zeros (cs : List Char) (k : ℕ) :
    value (cs ++ List.replicate k '0') = value cs * 10 ^ k := by
  rw [value_append, value_replicate_zero, List.length_replicate, add_zero]

theorem value_rightpad {cs : List Char} {width : ℕ} (h : cs.length ≤ width) :
    value (cs.rightpad width '0') * 10 ^ cs.length = value cs * 10 ^ width := by
  rw [List.rightpad, value_append_zeros, mul_assoc, ← pow_add, Nat.sub_add_cancel h]

end Digits

/-! ## The number that a numeral writes -/

namespace Numeral

variable {s : Scale} {n : Numeral}

/-- The size of the number, with all digits of the fraction. -/
def size (n : Numeral) : ℚ :=
  Digits.value n.whole + Digits.value n.fraction / 10 ^ n.fraction.length

/-- The number that a numeral writes. -/
def value (n : Numeral) : ℚ := if n.isNegative then -n.size else n.size

theorem size_nonneg (n : Numeral) : 0 ≤ n.size := by
  unfold size
  positivity

theorem abs_value (n : Numeral) : |n.value| = n.size := by
  unfold value
  split
  · rw [abs_neg, abs_of_nonneg n.size_nonneg]
  · exact abs_of_nonneg n.size_nonneg

theorem magnitude_eq (h : n.fraction.length ≤ s.val) :
    (n.magnitude s : ℚ) = n.size * s.unit := by
  have hpad := Digits.value_rightpad h
  have hpad' : (Digits.value (n.fraction.rightpad s.val '0') : ℚ) * 10 ^ n.fraction.length =
      Digits.value n.fraction * s.unit := by
    rw [Scale.unit_eq]
    exact_mod_cast hpad
  rw [magnitude, size, add_mul, div_mul_eq_mul_div, ← hpad', mul_div_cancel_right₀ _ (by positivity)]
  push_cast
  rfl

/-- A cell holds the steps of a numeral when its size is at most the greatest number. -/
theorem fits_magnitude_iff_size_le (h : n.fraction.length ≤ s.val) :
    Cell.Fits (n.magnitude s) ↔ n.size * 10 ^ s.val ≤ Cell.greatest := by
  have hleast := Cell.least_eq
  have hsize : n.size * 10 ^ s.val = ((n.magnitude s : ℤ) : ℚ) := by
    rw [Int.cast_natCast, magnitude_eq h, Scale.unit_eq]
    push_cast
    rfl
  rw [hsize, Int.cast_le, Cell.Fits]
  omega

end Numeral

namespace Fixed

variable {s : Scale} {n : Numeral}

/-- The least number is never read, since a size is read before its sign. -/
theorem ofNumeral_of_fits (hdigits : n.fraction.length ≤ s.val)
    (hfits : Cell.Fits (n.magnitude s)) :
    ∃ a : Fixed s, ofNumeral s n = .ok a ∧ a.value = n.value ∧ a.raw ≠ Cell.least := by
  have hleast := Cell.least_eq
  have hsize : ((n.magnitude s : ℤ) : ℚ) / s.unit = n.size := by
    rw [Int.cast_natCast, Numeral.magnitude_eq hdigits, mul_div_cancel_right₀ _ s.unit_ne_zero]
  have hneg : Cell.Fits (-(n.magnitude s : ℤ)) := (Cell.fits_neg_iff hfits).mpr (by omega)
  unfold ofNumeral
  rw [if_neg (by omega), ofRaw_of_fits hfits]
  cases hn : n.isNegative with
  | true =>
    refine ⟨⟨_, hneg⟩, ofRaw_of_fits hneg, ?_, ?_⟩
    · rw [value, Numeral.value, if_pos hn, ← hsize]
      push_cast
      rw [neg_div]
    · rw [Cell.fits_iff] at hfits
      simp only
      omega
  | false =>
    refine ⟨⟨_, hfits⟩, rfl, ?_, ?_⟩
    · rw [value, Numeral.value, if_neg (by simp [hn]), ← hsize]
    · simp only
      omega

theorem ofNumeral_of_not_fits (hdigits : n.fraction.length ≤ s.val)
    (hfits : ¬ Cell.Fits (n.magnitude s)) : ofNumeral s n = .error .overflow := by
  unfold ofNumeral
  rw [if_neg (by omega), ofRaw_of_not_fits hfits]
  rfl

/-- A numeral has too many digits, or it is too large, or it is read. -/
theorem ofNumeral_cases (s : Scale) (n : Numeral) :
    (s.val < n.fraction.length ∧ ofNumeral s n = .error .precisionLoss) ∨
    (n.fraction.length ≤ s.val ∧ ¬ Cell.Fits (n.magnitude s) ∧
      ofNumeral s n = .error .overflow) ∨
    (n.fraction.length ≤ s.val ∧ Cell.Fits (n.magnitude s) ∧
      ∃ a : Fixed s, ofNumeral s n = .ok a ∧ a.value = n.value ∧ a.raw ≠ Cell.least) := by
  by_cases hmany : s.val < n.fraction.length
  · exact Or.inl ⟨hmany, if_pos hmany⟩
  · have hdigits := not_lt.mp hmany
    by_cases hfits : Cell.Fits (n.magnitude s)
    · exact Or.inr (Or.inr ⟨hdigits, hfits, ofNumeral_of_fits hdigits hfits⟩)
    · exact Or.inr (Or.inl ⟨hdigits, hfits, ofNumeral_of_not_fits hdigits hfits⟩)

end Fixed

/-! ## Separators in a numeral -/

theorem map_eq_of_keeps {f : Char → Char} {cs : List Char} (hkeep : ∀ c ∈ cs, f c = c) :
    cs.map f = cs := (List.map_congr_left hkeep).trans (List.map_id cs)

namespace Separators

theorem clashes_of_isDigit {c : Char} (h : c.isDigit = true) : clashes c = true := by
  simp [clashes, h]

theorem clashes_of_isBlank {c : Char} (h : isBlank c = true) : clashes c = true := by
  simp [clashes, h]

theorem clashes_symbol (o : Operator) : clashes o.symbol = true := by
  simp [clashes, Operator.ofSymbol?_symbol]

/-- A sign is also an operator. -/
theorem clashes_sign (sign : Sign) : clashes sign.char = true := by
  cases sign <;> decide

end Separators

namespace Numeral

variable {point c : Char} {n : Numeral}

theorem mem_chars (h : c ∈ n.chars point) :
    c.isDigit = true ∨ (∃ sign : Sign, c = sign.char) ∨ c = point := by
  unfold chars at h
  rcases List.mem_append.mp h with h | h
  · rcases List.mem_append.mp h with h | h
    · cases hsign : n.sign with
      | none => simp [hsign] at h
      | some sign => exact Or.inr (Or.inl ⟨sign, by simpa [hsign] using h⟩)
    · exact Or.inl (n.whole_run.2 c h)
  · split at h
    · cases h
    · rcases List.mem_cons.mp h with rfl | h
      · exact Or.inr (Or.inr rfl)
      · exact Or.inl (n.fraction_digits c h)

theorem ne_sign_of_clear (hc : Separators.clashes c = false) (sign : Sign) : c ≠ sign.char := by
  obtain ⟨-, -, hsymbol⟩ := Separators.clashes_eq_false_iff.mp hc
  cases sign with
  | plus => exact hsymbol .add
  | minus => exact hsymbol .subtract

/-- A separator other than the point is nowhere in a numeral. -/
theorem not_mem_chars (hc : c.isDigit = false) (hsign : ∀ sign : Sign, c ≠ sign.char)
    (hpoint : c ≠ point) : c ∉ n.chars point := by
  intro hmem
  rcases mem_chars hmem with hdigit | ⟨sign, rfl⟩ | rfl
  · rw [hc] at hdigit
    cases hdigit
  · exact hsign sign rfl
  · exact hpoint rfl

theorem ne_of_isDigit (hc : c.isDigit = false) {d : Char} (hd : d.isDigit = true) : d ≠ c := by
  rintro rfl
  rw [hc] at hd
  cases hd

/-- There is no point in front of the point. -/
theorem ne_point_of_mem (hpoint : Separators.clashes point = false)
    (hc : c ∈ (n.sign.map Sign.char).toList ++ n.whole) : c ≠ point := by
  obtain ⟨hdigit, -, -⟩ := Separators.clashes_eq_false_iff.mp hpoint
  rcases List.mem_append.mp hc with hc | hc
  · cases hsign : n.sign with
    | none => simp [hsign] at hc
    | some sign =>
      have hc' : c = sign.char := by simpa [hsign] using hc
      rw [hc']
      exact (ne_sign_of_clear hpoint sign).symm
  · exact ne_of_isDigit hdigit (n.whole_run.2 c hc)

/-- Behind the first point of a numeral stands its fraction. -/
theorem dropWhile_chars (hpoint : Separators.clashes point = false) :
    (n.chars point).dropWhile (· != point) = n.tailChars point := by
  apply dropWhile_front
  · intro c hc
    rw [bne_iff_ne]
    exact ne_point_of_mem hpoint hc
  · intro c hc
    split at hc
    · cases hc
    · cases hc
      simp

/-- A change that keeps digits and signs changes nothing but the point. -/
theorem map_chars_of_keeps {f : Char → Char} (hkeep : ∀ c, Separators.clashes c = true → f c = c) :
    (n.chars point).map f = n.chars (f point) := by
  have hdigits {cs : List Char} (hcs : Digits.AllDigits cs) : cs.map f = cs :=
    map_eq_of_keeps fun c hc => hkeep c (Separators.clashes_of_isDigit (hcs c hc))
  have hsign : ((n.sign.map Sign.char).toList).map f = (n.sign.map Sign.char).toList := by
    cases n.sign with
    | none => rfl
    | some sign => simp [hkeep _ (Separators.clashes_sign sign)]
  unfold chars
  rw [List.map_append, List.map_append, hsign, hdigits n.whole_run.2]
  split
  · rfl
  · rw [List.map_cons, hdigits n.fraction_digits]

theorem map_chars (hpoint : Separators.clashes point = false) :
    (n.chars point).map (fun c => if c = point then '.' else c) = n.chars '.' := by
  have hkeep (c : Char) (hc : Separators.clashes c = true) :
      (if c = point then '.' else c) = c := by
    apply if_neg
    rintro rfl
    rw [hpoint] at hc
    cases hc
  rw [map_chars_of_keeps hkeep, if_pos rfl]

end Numeral

/-! ## Operands -/

namespace Operand

variable {settings : Settings} {n : Numeral}

/-- A fraction is at fault when it has too many digits. -/
theorem fractionFault?_chars (hpoint : Separators.clashes settings.separators.point = false) :
    fractionFault? settings (n.chars settings.separators.point) =
      if settings.fractionDigits < n.fraction.length then
        some (.tooManyFractionDigits settings.fractionDigits)
      else
        none := by
  unfold fractionFault?
  rw [Numeral.dropWhile_chars hpoint, Numeral.tailChars]
  by_cases hf : n.fraction = []
  · simp [hf]
  · simp [hf]

theorem withFullStop?_chars {point : Char} (hpoint : Separators.clashes point = false) :
    withFullStop? point (n.chars point) = some (n.chars '.') := by
  unfold withFullStop?
  by_cases hstop : point = '.'
  · rw [if_pos hstop, hstop]
  · have hnot : '.' ∉ n.chars point :=
      Numeral.not_mem_chars (by decide) (fun sign => by cases sign <;> decide) (Ne.symm hstop)
    rw [if_neg hstop, if_neg hnot, Numeral.map_chars hpoint]

/-- A numeral is read as an operand, unless it has too many digits behind its point. -/
theorem ofChars_chars (hvalid : settings.Valid) (n : Numeral) :
    ofChars settings (n.chars settings.separators.point) =
      if settings.fractionDigits < n.fraction.length then
        .error (.tooManyFractionDigits settings.fractionDigits)
      else
        (Fixed.ofNumeral amountScale n).mapError (OperandFault.ofFault settings.fractionDigits) := by
  obtain ⟨-, -, -, -, hne, hpoint, hgrouping⟩ := Settings.valid_iff.mp hvalid
  obtain ⟨hdigit, -, -⟩ := Separators.clashes_eq_false_iff.mp hgrouping
  have hnot : settings.separators.grouping ∉ n.chars settings.separators.point :=
    Numeral.not_mem_chars hdigit (Numeral.ne_sign_of_clear hgrouping) hne.symm
  unfold ofChars
  rw [fractionFault?_chars hpoint]
  by_cases hmany : settings.fractionDigits < n.fraction.length
  · simp [hmany]
  · simp only [hmany, if_false, hnot, withFullStop?_chars hpoint]
    rw [Fixed.ofChars, Numeral.read?_chars (by decide)]

theorem ofChars_numeral (hvalid : settings.Valid) (n : Numeral) :
    (settings.fractionDigits < n.fraction.length ∧
      ofChars settings (n.chars settings.separators.point) =
        .error (.tooManyFractionDigits settings.fractionDigits)) ∨
    (n.fraction.length ≤ settings.fractionDigits ∧ ¬ Cell.Fits (n.magnitude amountScale) ∧
      ofChars settings (n.chars settings.separators.point) = .error .tooLarge) ∨
    (n.fraction.length ≤ settings.fractionDigits ∧ ∃ a : Amount,
      ofChars settings (n.chars settings.separators.point) = .ok a ∧ a.value = n.value ∧
        a.raw ≠ Cell.least) := by
  obtain ⟨-, hfour, -⟩ := Settings.valid_iff.mp hvalid
  rw [ofChars_chars hvalid]
  by_cases hmany : settings.fractionDigits < n.fraction.length
  · exact Or.inl ⟨hmany, if_pos hmany⟩
  · rw [if_neg hmany]
    rcases Fixed.ofNumeral_cases amountScale n with
      ⟨hlong, -⟩ | ⟨-, hfits, hread⟩ | ⟨-, -, a, hread, hvalue, hleast⟩
    · exact absurd (hlong.trans_le (not_lt.mp hmany)) (not_lt.mpr hfour)
    · exact Or.inr (Or.inl ⟨not_lt.mp hmany, hfits, by rw [hread]; rfl⟩)
    · exact Or.inr (Or.inr ⟨not_lt.mp hmany, a, by rw [hread]; rfl, hvalue, hleast⟩)

end Operand

end Reckoner
