-- The laws of the two texts side by side. The full one is written from the number with its
-- sign, and the plain one from its size; they have the same sign, whole part and fraction all
-- the same, but for the zeros at the end of the fraction.
import Reckoner.Proofs.Canonical

namespace Reckoner

/-! ## Zeros at the end -/

namespace Digits

/-- `kept` is what is left of the text when all zeros at its end are cut off. -/
def Trims (cs kept : List Char) : Prop :=
  (∃ k, kept ++ List.replicate k '0' = cs) ∧ kept.getLast? ≠ some '0'

theorem trims_trimZeros (cs : List Char) : Trims cs (trimZeros cs) :=
  ⟨exists_zeros_trimZeros cs, getLast?_trimZeros cs⟩

theorem trims_nil : Trims [] [] := by simp [Trims]

end Digits

/-! ## Fractions -/

namespace Fixed

variable {s : Scale}

theorem fraction_fullNumeral_eq_nil_iff (a : Fixed s) :
    a.fullNumeral.fraction = [] ↔ s.val = 0 := by
  rw [← List.length_eq_zero_iff, length_fraction_fullNumeral]

/-- The shortest fraction of a number is its full one without the zeros at the end. -/
theorem trims_fraction (a : Fixed s) : Digits.Trims a.fullNumeral.fraction a.numeral.fraction := by
  by_cases hs : s.val = 0
  · have hfull := a.fraction_fullNumeral_eq_nil_iff.mpr hs
    have hlength := a.length_fraction_le
    rw [hs, Nat.le_zero, List.length_eq_zero_iff] at hlength
    rw [hfull, hlength]
    exact Digits.trims_nil
  · simp only [fullNumeral, hs, if_false]
    exact Digits.trims_trimZeros _

end Fixed

/-- The texts of a number have a minus below zero and only there, and then the wholes of its size
without a zero in front. The full text goes on with a full stop and as many digits as the scale
has, if it has any; they are the rest of the size. The plain text goes on with what is left of
these digits without the zeros at their end, behind the given point, or it ends there. -/
theorem the_two_texts_have_the_same_parts (s : Scale) (a : Fixed s) :
    ∃ whole fraction kept : List Char,
      (Digits.IsRun whole ∧ Digits.NoLeadingZero whole ∧
        Digits.value whole = a.raw.natAbs / s.unit) ∧
      (Digits.AllDigits fraction ∧ fraction.length = s.val ∧
        Digits.value fraction = a.raw.natAbs % s.unit) ∧
      Digits.Trims fraction kept ∧
      a.display.toList = (if a.raw < 0 then ['-'] else []) ++ whole ++
        (if s.val = 0 then [] else '.' :: fraction) ∧
      ∀ point, (a.plain point).toList = (if a.raw < 0 then ['-'] else []) ++ whole ++
        (if kept = [] then [] else point :: kept) := by
  refine ⟨a.numeral.whole, a.fullNumeral.fraction, a.numeral.fraction,
    ⟨a.numeral.whole_run, a.canonical_numeral.no_leading_zero, Digits.value_ofNat _⟩,
    ⟨a.fullNumeral.fraction_digits, a.length_fraction_fullNumeral, a.value_fraction_fullNumeral⟩,
    a.trims_fraction, ?_, ?_⟩
  · rw [Fixed.display_eq, String.toList_ofList, Numeral.chars, ← a.chars_sign]
    simp only [a.fraction_fullNumeral_eq_nil_iff]
    rfl
  · intro point
    rw [Fixed.plain, String.toList_ofList, ← a.chars_numeral, Numeral.chars, a.sign_numeral,
      a.chars_sign]

/-- A number between minus one and zero, and one whose zeros are not those of a fraction. -/
example : (⟨-500, by decide⟩ : Amount).display = "-0.0500" ∧
    (⟨-500, by decide⟩ : Amount).plain ',' = "-0,05" ∧
    (⟨-100, by decide⟩ : Fixed 0).display = "-100" ∧
    (⟨-100, by decide⟩ : Fixed 0).plain ',' = "-100" := by decide +kernel

end Reckoner
