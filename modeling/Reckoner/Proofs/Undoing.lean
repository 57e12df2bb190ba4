-- The laws of taking back. Operands and results have the same number of digits, so a sum
-- or a difference is never rounded. What was added can then be subtracted again from the
-- text of the sum, and the other way round, as long as the sum may be an operand.
import Reckoner.Proofs.Acceptance
import Reckoner.Proofs.Events
import Reckoner.Proofs.ReadBack
import Reckoner.Proofs.Rounding

namespace Reckoner

/-! ## Sums and differences -/

namespace Operator

def IsAdditive (o : Operator) : Prop := o = add ∨ o = subtract

/-- The operator that takes back what another one did. -/
def undo : Operator → Operator
  | add => subtract
  | subtract => add
  | multiply => divide
  | divide => multiply

theorem IsAdditive.ne_divide {o : Operator} (h : o.IsAdditive) : o ≠ divide := by
  rcases h with rfl | rfl <;> nofun

theorem IsAdditive.undo {o : Operator} (h : o.IsAdditive) : o.undo.IsAdditive := by
  rcases h with rfl | rfl
  · exact Or.inr rfl
  · exact Or.inl rfl

end Operator

namespace Operation

variable {o : Operation} {c : Amount}

/-- The result of a sum or a difference is an amount. -/
theorem apply_eq_ok_iff_of_additive (h : o.operator.IsAdditive) :
    o.apply = .ok c.toRatio ↔ c.raw = o.numer := by
  have hdenom : o.denom = amountScale.unit := by
    unfold denom
    rcases h with hadd | hsub
    · rw [hadd]
    · rw [hsub]
  rw [apply_eq_ok_iff, hdenom]
  exact ⟨fun happly => happly.2.1, fun hraw => ⟨defined_of_ne_divide h.ne_divide, hraw, rfl⟩⟩

theorem exists_apply_of_additive {v : Ratio} (h : o.operator.IsAdditive)
    (happly : o.apply = .ok v) : ∃ c : Amount, v = c.toRatio ∧ c.raw = o.numer := by
  have hnumer := (apply_eq_ok_iff.mp happly).2.1
  have hresult := (apply_eq_ok_iff_of_additive (c := ⟨v.numer, v.numer_fits⟩) h).mpr hnumer
  rw [happly] at hresult
  exact ⟨_, Except.ok.inj hresult, hnumer⟩

theorem numer_undo (h : o.operator.IsAdditive) (hc : c.raw = o.numer) :
    numer ⟨c, o.operator.undo, o.right⟩ = o.left.raw := by
  obtain ⟨left, operator, right⟩ := o
  rcases h with hop | hop <;> simp only at hop <;> subst hop
  · change c.raw - right.raw = left.raw
    rw [hc]
    exact add_sub_cancel_right left.raw right.raw
  · change c.raw + right.raw = left.raw
    rw [hc]
    exact sub_add_cancel left.raw right.raw

end Operation

namespace Settings

variable {settings : Settings} {o : Operation} {c : Amount}

/-- A sum or a difference of operands has the value that it is, with nothing rounded. -/
theorem finish_eq_ok_iff_of_additive (hvalid : settings.Valid) (hop : o.operator.IsAdditive)
    (hleft : (10 : ℤ) ^ (4 - settings.fractionDigits) ∣ o.left.raw)
    (hright : (10 : ℤ) ^ (4 - settings.fractionDigits) ∣ o.right.raw) :
    settings.finish o = .ok c ↔ c.raw = o.numer ∧ |c.value| ≤ settings.resultBound ∧
      Cell.Fits (c.raw * 10 ^ settings.fractionDigits) := by
  obtain ⟨-, hdigits, -⟩ := valid_iff.mp hvalid
  have hgrid := Operation.dvd_numer hleft hright
  rw [finish_eq_ok_iff hvalid]
  refine ⟨?_, ?_⟩
  · rintro ⟨v, happly, hbound, hround⟩
    obtain ⟨a, rfl, hraw⟩ := Operation.exists_apply_of_additive hop happly
    obtain ⟨hroom, rfl⟩ := (Ratio.roundTo_toRatio_eq_ok_iff hdigits (hraw ▸ hgrid)).mp hround
    rw [← (Operation.value_of_apply happly).2] at hbound
    exact ⟨hraw, hbound, hroom⟩
  · rintro ⟨hraw, hbound, hroom⟩
    have happly := (Operation.apply_eq_ok_iff_of_additive hop).mpr hraw
    refine ⟨c.toRatio, happly, ?_,
      (Ratio.roundTo_toRatio_eq_ok_iff hdigits (hraw ▸ hgrid)).mpr ⟨hroom, rfl⟩⟩
    rw [← (Operation.value_of_apply happly).2]
    exact hbound

/-- The numeral of a value is not refused if the bound on operands allows the value. -/
theorem refusal?_numeral {left right : Numeral} (hvalid : settings.Valid)
    (hnone : settings.refusal? left right = none) (hfinish : settings.finish o = .ok c)
    (hbound : |c.value| ≤ settings.operandBound) : settings.refusal? c.numeral right = none := by
  obtain ⟨-, hdigits, -⟩ := valid_iff.mp hvalid
  obtain ⟨hdvd, hleast⟩ := dvd_of_finish hvalid hfinish
  obtain ⟨-, hright⟩ := refusal?_eq_none_iff.mp hnone
  refine refusal?_eq_none_iff.mpr ⟨⟨?_, ?_⟩, hright⟩
  · exact (c.length_fraction_le_iff hdigits).mpr hdvd
  · rw [c.value_numeral, reach, le_min_iff]
    exact ⟨hbound, Fixed.abs_value_le_greatest_iff.mpr hleast⟩

end Settings

/-- The text of a value in front of the other operator and the right operand of the step. -/
def Expression.back (point : Char) (x : Expression) (c : Amount) : String :=
  text ⟨c.plain point, x.operator.undo, x.right⟩

/-- The value of a sum or a difference is that of its operands, with nothing rounded. If it
may be an operand itself, under bounds that leave room for that, taking back the right
operand from the text of the value gives the left one. -/
theorem sums_and_differences_are_taken_back (e : Evaluator) {input : String} {x : Expression}
    {c : Amount} (hparse : e.settings.parse input = .ok x) (hop : x.operator.IsAdditive)
    (h : e.evaluate input = .success c) :
    ∃ a b, Operand.ofText e.settings x.left = .ok a ∧ Operand.ofText e.settings x.right = .ok b ∧
      (x.operator = .add → c.raw = a.raw + b.raw) ∧
      (x.operator = .subtract → c.raw = a.raw - b.raw) ∧
      (e.settings.operandBound ≤ e.settings.resultBound → e.settings.operandBound ≤ 10 ^ 30 →
        |c.value| ≤ e.settings.operandBound →
        (x.back e.settings.separators.point c).length ≤ e.settings.maxLength →
        e.evaluate (x.back e.settings.separators.point c) = .success a) := by
  obtain ⟨-, hdigits, -⟩ := Settings.valid_iff.mp e.valid
  obtain ⟨o, haccept, hfinish⟩ := Evaluator.exists_of_success h
  obtain ⟨x', hparse', hoperands, -⟩ := Settings.accept_eq_ok_iff.mp haccept
  cases hparse.symm.trans hparse'
  obtain ⟨hleft, hoperator, hright⟩ := Settings.operands_eq_ok_iff.mp hoperands
  obtain ⟨left, right, hwrites, hnone, ha, hb⟩ := Settings.exists_gives_of_accept e.valid haccept
  rw [hoperator] at hop
  have hraw := ((Settings.finish_eq_ok_iff_of_additive e.valid hop ha.grid hb.grid).mp hfinish).1
  refine ⟨o.left, o.right, hleft, hright, ?_, ?_, ?_⟩
  · intro hadd
    rw [hraw, Operation.numer, ← hoperator, hadd]
  · intro hsub
    rw [hraw, Operation.numer, ← hoperator, hsub]
  · intro hbounds hroom hbound hlength
    -- The text is cut into the numeral of the value and the right numeral of the input.
    have htext : x.back e.settings.separators.point c = (Expression.ofNumerals
        e.settings.separators.point c.numeral o.operator.undo right).text := by
      have hx := hparse.symm.trans (Settings.parse_of_cut e.valid hwrites.length hwrites.cut)
      rw [Except.ok.inj hx, Expression.back, Fixed.plain, ← Fixed.chars_numeral]
      rfl
    have hwrites' : e.settings.Writes (x.back e.settings.separators.point c) c.numeral
        o.operator.undo right := ⟨hlength, htext ▸ Expression.cut_text _ _ _ _⟩
    obtain ⟨c', b', haccept', hc, hb'⟩ := Settings.exists_accept_of_writes e.valid hwrites'
      (Settings.refusal?_numeral e.valid hnone hfinish hbound)
    have hsame : c' = c := Fixed.value_inj.mp (hc.value.trans c.value_numeral)
    rw [hsame, hb'.unique hb] at haccept'
    have hgrid : (10 : ℤ) ^ (4 - e.settings.fractionDigits) ∣ c.raw := hsame ▸ hc.grid
    have hback : o.left.raw = Operation.numer ⟨c, o.operator.undo, o.right⟩ :=
      (Operation.numer_undo hop hraw).symm
    have hfits : Cell.Fits (o.left.raw * 10 ^ e.settings.fractionDigits) := by
      apply Fixed.fits_of_bound ha.bound
      calc (e.settings.operandBound : ℤ) * 10 ^ (4 + e.settings.fractionDigits)
          ≤ 10 ^ 30 * 10 ^ (4 + 4) := by gcongr <;> first | exact_mod_cast hroom | omega
        _ ≤ Cell.greatest := by decide
    have hresult : |o.left.value| ≤ e.settings.resultBound :=
      le_trans ha.bound (by exact_mod_cast hbounds)
    have hfinish' : e.settings.finish ⟨c, o.operator.undo, o.right⟩ = .ok o.left :=
      (Settings.finish_eq_ok_iff_of_additive (o := ⟨c, o.operator.undo, o.right⟩)
        e.valid hop.undo hgrid hb.grid).mpr ⟨hback, hresult, hfits⟩
    exact Evaluator.evaluate_of_value haccept' hfinish'

/-- The left operand comes back with the comma and the digits that its value has. -/
theorem a_difference_with_a_comma_is_taken_back :
    Evaluator.withComma.evaluate "1,50--2" = .success ⟨35000, by decide⟩ ∧
      Evaluator.withComma.evaluate "3,5 + -2" = .success ⟨15000, by decide⟩ := by
  have hvalue : Evaluator.withComma.evaluate "1,50--2" = .success ⟨35000, by decide⟩ := by
    decide +kernel
  have hback : Expression.back ',' ⟨"1,50", .subtract, "-2"⟩ ⟨35000, by decide⟩ = "3,5 + -2" := by
    decide +kernel
  have hparse : Evaluator.withComma.settings.parse "1,50--2" = .ok ⟨"1,50", .subtract, "-2"⟩ := by
    decide +kernel
  obtain ⟨a, b, ha, -, -, -, htaken⟩ :=
    sums_and_differences_are_taken_back Evaluator.withComma hparse (Or.inr rfl) hvalue
  have hleft : Operand.ofText Evaluator.withComma.settings "1,50" = .ok ⟨15000, by decide⟩ := by
    decide +kernel
  obtain rfl := Except.ok.inj (hleft.symm.trans ha)
  have hbound : |(⟨35000, by decide⟩ : Amount).value| ≤
      Evaluator.withComma.settings.operandBound := by
    rw [← not_lt, ← Fixed.exceeds_iff]
    decide
  refine ⟨hvalue, ?_⟩
  rw [← hback]
  exact htaken (by decide) (by decide) hbound (by decide +kernel)

end Reckoner
