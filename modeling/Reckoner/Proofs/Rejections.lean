-- The laws of rejection. What the stages can say is listed here once, together with the
-- stage that says it. What is not on the lists is never said: a fault inside, and those
-- faults of operands that the shape of an expression rules out.
import Reckoner.Proofs.Outcomes

namespace Reckoner

/-! ## What the stages say -/

namespace Settings

variable {settings : Settings} {input : String} {o : Operation} {rejection : Rejection}

/-- What is said of an input that has no accepted operation. -/
inductive Refuses (settings : Settings) (input : String) : Rejection → Prop
  | tooLong (h : settings.maxLength < input.length) :
      Refuses settings input ⟨.length, .inputTooLong settings.maxLength⟩
  | shape (h : settings.parse input = .error (settings.shapeFault input)) :
      Refuses settings input ⟨.shape, settings.shapeFault input⟩
  | digits :
      Refuses settings input
        ⟨.operand, .operand (.tooManyFractionDigits settings.fractionDigits)⟩
  | range : Refuses settings input ⟨.operandRange, .operandOutOfRange settings.operandBound⟩

theorem refuses_of_accept (hvalid : settings.Valid)
    (h : settings.accept input = .error rejection) : Refuses settings input rejection := by
  have haccept := accept_cases hvalid input
  rw [h] at haccept
  cases haccept with
  | tooLong hlong => exact .tooLong hlong
  | noCut hlength hcut =>
    apply Refuses.shape
    apply parse_of_not_reads hlength
    rintro ⟨e, left, operator, right, hc, -⟩
    exact hcut left operator right hc
  | cut left operator right _ _ _ hoperands =>
    cases hoperands with
    | digits => exact .digits
    | range => exact .range

/-- What is said of an accepted operation that has no value. An overflow is said at two stages. -/
inductive Fails (settings : Settings) (o : Operation) : Rejection → Prop
  | division : Fails settings o ⟨.arithmetic, .divisionByZero⟩
  | arithmetic (h : o.apply = .error .overflow) : Fails settings o ⟨.arithmetic, .overflow⟩
  | range : Fails settings o ⟨.resultRange, .resultOutOfRange settings.resultBound⟩
  | rounding (v : Ratio) (h : o.apply = .ok v) : Fails settings o ⟨.rounding, .overflow⟩

theorem fails_of_finish (hvalid : settings.Valid) (h : settings.finish o = .error rejection) :
    Fails settings o rejection := by
  have hfinish := finish_cases hvalid o
  rw [h] at hfinish
  cases hfinish with
  | undefined => exact .division
  | overflow _ happly => exact .arithmetic happly
  | range => exact .range
  | rounding v _ _ happly => exact .rounding v happly

end Settings

/-! ## Failures -/

theorem Evaluator.rejection_of_failure {e : Evaluator} {input : String}
    {fault : EvaluationFault} (h : e.evaluate input = .failure fault) :
    ∃ rejection : Rejection, rejection.fault = fault ∧
      (e.settings.Refuses input rejection ∨ ∃ o, e.settings.Fails o rejection) := by
  obtain ⟨rejection, hfault, haccept | ⟨o, -, hfinish⟩⟩ := exists_of_failure h
  · exact ⟨rejection, hfault, Or.inl (Settings.refuses_of_accept e.valid haccept)⟩
  · exact ⟨rejection, hfault, Or.inr ⟨o, Settings.fails_of_finish e.valid hfinish⟩⟩

namespace EvaluationFault

/-- A fault that an earlier stage should have kept away. -/
def isDefensive : EvaluationFault → Bool
  | internal _ => true
  | operand .missingFractionDigits | operand .unparsable | operand .tooLarge => true
  | _ => false

end EvaluationFault

namespace Settings

variable {settings : Settings} {input : String} {o : Operation} {rejection : Rejection}

theorem isDefensive_shapeFault : (settings.shapeFault input).isDefensive = false := by
  unfold shapeFault
  split <;> rfl

theorem Refuses.not_defensive (h : Refuses settings input rejection) :
    rejection.fault.isDefensive = false := by
  cases h with
  | shape => exact isDefensive_shapeFault
  | tooLong => rfl
  | digits => rfl
  | range => rfl

theorem Fails.not_defensive (h : Fails settings o rejection) :
    rejection.fault.isDefensive = false := by
  cases h <;> rfl

/-- A grouping character is named by the shape of the input, and by nothing behind it. -/
theorem Refuses.grouping {point : Char} (h : Refuses settings input rejection)
    (hfault : rejection.fault = .operand (.groupingSeparator point)) :
    settings.parse input = .error (.operand (.groupingSeparator point)) := by
  cases h with
  | shape h => exact h.trans (congrArg Except.error hfault)
  | tooLong => cases hfault
  | digits => cases hfault
  | range => cases hfault

theorem Fails.not_grouping {point : Char} (h : Fails settings o rejection) :
    rejection.fault ≠ .operand (.groupingSeparator point) := by
  cases h <;> simp

end Settings

/-! ## Texts that are cut out -/

namespace Expression

variable {x : Expression}

theorem Reads.exists_numeral {point : Char} {cs : List Char} {text : String}
    (h : Reads point cs x) (htext : text ∈ [x.left, x.right]) :
    ∃ n : Numeral, text = String.ofList (n.chars point) := by
  obtain ⟨left, operator, right, -, rfl⟩ := h
  rcases List.mem_pair.mp htext with rfl | rfl
  · exact ⟨left, rfl⟩
  · exact ⟨right, rfl⟩

end Expression

/-- The text of a numeral is read, or it has too many digits, or it is too large. -/
theorem Operand.ofText_numeral {settings : Settings} (hvalid : settings.Valid) (n : Numeral) :
    (∃ a, ofText settings (String.ofList (n.chars settings.separators.point)) = .ok a) ∨
      ofText settings (String.ofList (n.chars settings.separators.point)) =
        .error (.tooManyFractionDigits settings.fractionDigits) ∨
      ofText settings (String.ofList (n.chars settings.separators.point)) = .error .tooLarge := by
  rw [ofText, String.toList_ofList]
  rcases ofChars_numeral hvalid n with ⟨-, h⟩ | ⟨-, -, h⟩ | ⟨-, a, h, -⟩
  · exact Or.inr (Or.inl h)
  · exact Or.inr (Or.inr h)
  · exact Or.inl ⟨a, h⟩

/-- No input gets to a branch that is there for defence. A grouping character is named
only where the input has no expression; and where it has one, each of its two texts is
read as an amount, has too many digits, or is too large. -/
theorem no_defensive_branch_is_reached (e : Evaluator) (input : String) :
    (∀ fault, e.evaluate input = .failure fault →
      (∀ detail, fault ≠ .internal detail) ∧ fault ≠ .operand .missingFractionDigits ∧
        fault ≠ .operand .unparsable ∧ fault ≠ .operand .tooLarge ∧
        ∀ point, fault = .operand (.groupingSeparator point) →
          e.settings.parse input = .error fault) ∧
    ∀ x, (e.settings.parse input = .ok x →
        Expression.Reads e.settings.separators.point input.toList x) ∧
      (Expression.Reads e.settings.separators.point input.toList x →
        ∀ text ∈ [x.left, x.right],
          (∃ a, Operand.ofText e.settings text = .ok a) ∨
          Operand.ofText e.settings text =
            .error (.tooManyFractionDigits e.settings.fractionDigits) ∨
          Operand.ofText e.settings text = .error .tooLarge) := by
  refine ⟨?_, ?_⟩
  · intro fault h
    obtain ⟨rejection, rfl, hsaid⟩ := Evaluator.rejection_of_failure h
    have hnot : rejection.fault.isDefensive = false := by
      rcases hsaid with hrefuses | ⟨o, hfails⟩
      · exact hrefuses.not_defensive
      · exact hfails.not_defensive
    have hne {other : EvaluationFault} (hother : other.isDefensive = true) :
        rejection.fault ≠ other := by
      rintro heq
      rw [heq, hother] at hnot
      cases hnot
    refine ⟨fun detail => hne rfl, hne rfl, hne rfl, hne rfl, ?_⟩
    intro point hpoint
    rcases hsaid with hrefuses | ⟨o, hfails⟩
    · rw [hpoint]
      exact hrefuses.grouping hpoint
    · exact absurd hpoint hfails.not_grouping
  · intro x
    refine ⟨fun hparse => ((Settings.parse_eq_ok_iff_reads e.valid).mp hparse).2, ?_⟩
    intro hreads text htext
    obtain ⟨n, rfl⟩ := hreads.exists_numeral htext
    exact Operand.ofText_numeral e.valid n

/-- A grouping character in front of an expression, and an operand with a digit too many. -/
theorem no_defensive_branch_behind_a_grouping_character :
    (Evaluator.standard.evaluate "1,000 + 1" = .failure (.operand (.groupingSeparator '.')) ∧
      Evaluator.standard.settings.parse "1,000 + 1" =
        .error (.operand (.groupingSeparator '.'))) ∧
    Evaluator.standard.settings.parse "0.00001 * 2" = .ok ⟨"0.00001", .multiply, "2"⟩ ∧
      Expression.Reads '.' "0.00001 * 2".toList ⟨"0.00001", .multiply, "2"⟩ ∧
      ((∃ a, Operand.ofText Evaluator.standard.settings "0.00001" = .ok a) ∨
        Operand.ofText Evaluator.standard.settings "0.00001" =
          .error (.tooManyFractionDigits 4) ∨
        Operand.ofText Evaluator.standard.settings "0.00001" = .error .tooLarge) := by
  have hgrouped : Evaluator.standard.evaluate "1,000 + 1" =
      .failure (.operand (.groupingSeparator '.')) := by
    decide +kernel
  have hparse : Evaluator.standard.settings.parse "0.00001 * 2" =
      .ok ⟨"0.00001", .multiply, "2"⟩ := by
    decide +kernel
  obtain ⟨hfault, -⟩ := no_defensive_branch_is_reached Evaluator.standard "1,000 + 1"
  obtain ⟨hreads, htexts⟩ :=
    (no_defensive_branch_is_reached Evaluator.standard "0.00001 * 2").2
      ⟨"0.00001", .multiply, "2"⟩
  exact ⟨⟨hgrouped, (hfault _ hgrouped).2.2.2.2 '.' rfl⟩, hparse, hreads hparse,
    htexts (hreads hparse) "0.00001" (by simp)⟩

end Reckoner
