-- The laws of the stages: for each one, when an input gets through it and what it says
-- of an input that does not. Together they tell from the text of an input whether it is
-- accepted, and from an accepted operation whether it has a value.
import Reckoner.Proofs.Nearest
import Reckoner.Proofs.Reading

namespace Reckoner.Settings

variable {settings : Settings} {input : String}

/-! ## Up to the operation -/

theorem accept_of_parse_error {fault : EvaluationFault} (h : settings.parse input = .error fault) :
    settings.accept input = .error ⟨parseStage fault, fault⟩ := by
  unfold accept
  rw [h]
  rfl

theorem accept_of_operands_error {e : Expression} {rejection : Rejection}
    (h : settings.parse input = .ok e) (ho : settings.operands e = .error rejection) :
    settings.accept input = .error rejection := by
  unfold accept
  rw [h]
  change (settings.operands e >>= _) = _
  rw [ho]
  rfl

theorem accept_of_operands_ok {e : Expression} {o : Operation}
    (h : settings.parse input = .ok e) (ho : settings.operands e = .ok o) :
    settings.accept input =
      if |o.left.value| ≤ settings.operandBound ∧ |o.right.value| ≤ settings.operandBound then
        .ok o
      else
        .error ⟨.operandRange, .operandOutOfRange settings.operandBound⟩ := by
  unfold accept
  rw [h]
  change (settings.operands e >>= _) = _
  rw [ho]
  change ((o.checkRange settings).mapError _ >>= _) = _
  cases hr : o.checkRange settings with
  | ok _ =>
    rw [if_pos (Operation.checkRange_eq_ok_iff.mp hr)]
    rfl
  | error fault =>
    have hnot : ¬ o.checkRange settings = .ok () := by simp [hr]
    rw [Operation.checkRange_eq_ok_iff] at hnot
    rw [if_neg hnot, Operation.checkRange_eq_error hr]
    rfl

/-! ## Operands -/

variable {left right : Numeral} {operator : Operator}

/-- What the operands of two numerals come to. -/
inductive OperandsOf (settings : Settings) (left : Numeral) (operator : Operator)
    (right : Numeral) : Except Rejection Operation → Prop
  | digits (h : settings.fractionDigits < left.fraction.length ∨
        settings.fractionDigits < right.fraction.length) :
      OperandsOf settings left operator right
        (.error ⟨.operand, .operand (.tooManyFractionDigits settings.fractionDigits)⟩)
  | size (hleft : left.fraction.length ≤ settings.fractionDigits)
      (hright : right.fraction.length ≤ settings.fractionDigits)
      (h : ¬ Cell.Fits (left.magnitude amountScale) ∨ ¬ Cell.Fits (right.magnitude amountScale)) :
      OperandsOf settings left operator right
        (.error ⟨.operandRange, .operandOutOfRange settings.operandBound⟩)
  | both (a b : Amount) (hleft : left.fraction.length ≤ settings.fractionDigits)
      (hright : right.fraction.length ≤ settings.fractionDigits)
      (ha : a.value = left.value) (hb : b.value = right.value)
      (ha' : a.raw ≠ Cell.least) (hb' : b.raw ≠ Cell.least) :
      OperandsOf settings left operator right (.ok ⟨a, operator, b⟩)

theorem operands_ofNumerals (hvalid : settings.Valid) (left right : Numeral)
    (operator : Operator) :
    OperandsOf settings left operator right
      (settings.operands (.ofNumerals settings.separators.point left operator right)) := by
  unfold operands
  simp only [Expression.ofNumerals, Operand.ofText, String.toList_ofList]
  rcases Operand.ofChars_numeral hvalid left with ⟨hl, el⟩ | ⟨hl, hfl, el⟩ | ⟨hl, a, el, hva, hla⟩ <;>
    rcases Operand.ofChars_numeral hvalid right with
      ⟨hr, er⟩ | ⟨hr, hfr, er⟩ | ⟨hr, b, er, hvb, hlb⟩ <;> rw [el, er]
  · exact .digits (Or.inl hl)
  · exact .digits (Or.inl hl)
  · exact .digits (Or.inl hl)
  · exact .digits (Or.inr hr)
  · exact .size hl hr (Or.inl hfl)
  · exact .size hl hr (Or.inl hfl)
  · exact .digits (Or.inr hr)
  · exact .size hl hr (Or.inr hfr)
  · exact .both a b hl hr hva hvb hla hlb

/-- A size that no cell holds and one above the bound are told in the same words. -/
inductive AcceptOf (settings : Settings) (left : Numeral) (operator : Operator)
    (right : Numeral) : Except Rejection Operation → Prop
  | digits (h : settings.fractionDigits < left.fraction.length ∨
        settings.fractionDigits < right.fraction.length) :
      AcceptOf settings left operator right
        (.error ⟨.operand, .operand (.tooManyFractionDigits settings.fractionDigits)⟩)
  | range (hleft : left.fraction.length ≤ settings.fractionDigits)
      (hright : right.fraction.length ≤ settings.fractionDigits)
      (h : (¬ Cell.Fits (left.magnitude amountScale) ∨
          ¬ Cell.Fits (right.magnitude amountScale)) ∨
        ¬ (|left.value| ≤ settings.operandBound ∧ |right.value| ≤ settings.operandBound)) :
      AcceptOf settings left operator right
        (.error ⟨.operandRange, .operandOutOfRange settings.operandBound⟩)
  | both (a b : Amount) (hleft : left.fraction.length ≤ settings.fractionDigits)
      (hright : right.fraction.length ≤ settings.fractionDigits)
      (ha : a.value = left.value) (hb : b.value = right.value)
      (ha' : a.raw ≠ Cell.least) (hb' : b.raw ≠ Cell.least)
      (hrange : |left.value| ≤ settings.operandBound ∧ |right.value| ≤ settings.operandBound) :
      AcceptOf settings left operator right (.ok ⟨a, operator, b⟩)

/-- Under a good point the expression of an input is the only one it can be cut into. -/
theorem parse_eq_ok_iff_reads {e : Expression} (hvalid : settings.Valid) :
    settings.parse input = .ok e ↔ input.length ≤ settings.maxLength ∧
      Expression.Reads settings.separators.point input.toList e := by
  obtain ⟨-, -, -, -, -, hpoint, -⟩ := valid_iff.mp hvalid
  by_cases hlong : settings.maxLength < input.length
  · simp [parse_of_longer hlong, not_le.mpr hlong]
  · rw [parse_eq_ok_iff (not_lt.mp hlong), Expression.ofText?_eq_some_iff]
    refine ⟨fun h => ⟨not_lt.mp hlong, h.1⟩, ?_⟩
    rintro ⟨-, hreads⟩
    refine ⟨hreads, ?_⟩
    intro e' hreads'
    rw [hreads'.unique hpoint hreads]

theorem parse_of_cut (hvalid : settings.Valid) (hlength : input.length ≤ settings.maxLength)
    (hcut : Expression.Cut settings.separators.point input.toList left operator right) :
    settings.parse input = .ok (.ofNumerals settings.separators.point left operator right) :=
  (parse_eq_ok_iff_reads hvalid).mpr ⟨hlength, left, operator, right, hcut, rfl⟩

theorem accept_of_cut (hvalid : settings.Valid) (hlength : input.length ≤ settings.maxLength)
    (hcut : Expression.Cut settings.separators.point input.toList left operator right) :
    AcceptOf settings left operator right (settings.accept input) := by
  have hparse := parse_of_cut hvalid hlength hcut
  have hoperands := operands_ofNumerals hvalid left right operator
  generalize ho : settings.operands _ = result at hoperands
  cases hoperands with
  | digits h =>
    rw [accept_of_operands_error hparse ho]
    exact .digits h
  | size hleft hright h =>
    rw [accept_of_operands_error hparse ho]
    exact .range hleft hright (Or.inl h)
  | both a b hleft hright ha hb ha' hb' =>
    rw [accept_of_operands_ok hparse ho]
    simp only [ha, hb]
    split
    · next hrange => exact .both a b hleft hright ha hb ha' hb' hrange
    · next hrange => exact .range hleft hright (Or.inr hrange)

theorem accept_of_no_cut (hlength : input.length ≤ settings.maxLength)
    (hcut : ∀ left operator right,
      ¬ Expression.Cut settings.separators.point input.toList left operator right) :
    settings.accept input = .error ⟨.shape, settings.shapeFault input⟩ := by
  have hnone : ¬ ∃ e, Expression.Reads settings.separators.point input.toList e := by
    rintro ⟨e, left, operator, right, h, -⟩
    exact hcut left operator right h
  rw [accept_of_parse_error (parse_of_not_reads hlength hnone)]
  unfold shapeFault
  split <;> rfl

/-- What any input comes to, up to its operation. -/
inductive AcceptOfInput (settings : Settings) (input : String) :
    Except Rejection Operation → Prop
  | tooLong (h : settings.maxLength < input.length) :
      AcceptOfInput settings input (.error ⟨.length, .inputTooLong settings.maxLength⟩)
  | noCut (hlength : input.length ≤ settings.maxLength)
      (h : ∀ left operator right,
        ¬ Expression.Cut settings.separators.point input.toList left operator right) :
      AcceptOfInput settings input (.error ⟨.shape, settings.shapeFault input⟩)
  | cut (left : Numeral) (operator : Operator) (right : Numeral)
      (result : Except Rejection Operation) (hlength : input.length ≤ settings.maxLength)
      (hcut : Expression.Cut settings.separators.point input.toList left operator right)
      (h : AcceptOf settings left operator right result) :
      AcceptOfInput settings input result

theorem accept_cases (hvalid : settings.Valid) (input : String) :
    AcceptOfInput settings input (settings.accept input) := by
  by_cases hlong : settings.maxLength < input.length
  · rw [accept_of_parse_error (parse_of_longer hlong)]
    exact .tooLong hlong
  have hlength := not_lt.mp hlong
  by_cases hcut : ∃ left operator right,
      Expression.Cut settings.separators.point input.toList left operator right
  · obtain ⟨left, operator, right, hcut⟩ := hcut
    exact .cut left operator right _ hlength hcut (accept_of_cut hvalid hlength hcut)
  · simp only [not_exists] at hcut
    rw [accept_of_no_cut hlength hcut]
    exact .noCut hlength hcut

/-! ## From the operation on -/

/-- What an accepted operation comes to. -/
inductive FinishOf (settings : Settings) (o : Operation) : Except Rejection Amount → Prop
  | undefined (h : ¬ o.Defined) : FinishOf settings o (.error ⟨.arithmetic, .divisionByZero⟩)
  | overflow (h : o.Defined) (happly : o.apply = .error .overflow) :
      FinishOf settings o (.error ⟨.arithmetic, .overflow⟩)
  | range (h : o.Defined) (hbound : settings.resultBound < |o.exact|) :
      FinishOf settings o (.error ⟨.resultRange, .resultOutOfRange settings.resultBound⟩)
  | rounding (v : Ratio) (fault : Fault) (h : o.Defined) (happly : o.apply = .ok v)
      (hbound : |o.exact| ≤ settings.resultBound)
      (hround : v.roundTo amountScale settings.fractionDigits = .error fault) :
      FinishOf settings o (.error ⟨.rounding, .overflow⟩)
  | value (v : Ratio) (a : Amount) (h : o.Defined) (happly : o.apply = .ok v)
      (hbound : |o.exact| ≤ settings.resultBound)
      (hround : v.roundTo amountScale settings.fractionDigits = .ok a) :
      FinishOf settings o (.ok a)

theorem finish_cases (hvalid : settings.Valid) (o : Operation) :
    FinishOf settings o (settings.finish o) := by
  obtain ⟨-, hdigits, -⟩ := valid_iff.mp hvalid
  unfold finish
  cases happly : o.apply with
  | error fault =>
    rcases Operation.apply_eq_error happly with ⟨hdef, rfl⟩ | ⟨hdef, rfl⟩
    · exact .undefined hdef
    · exact .overflow hdef happly
  | ok v =>
    obtain ⟨hdef, hvalue⟩ := Operation.value_of_apply happly
    change FinishOf settings o ((v.toAmount settings).mapError _)
    cases hresult : v.toAmount settings with
    | ok a =>
      obtain ⟨hbound, hround⟩ := Ratio.toAmount_eq_ok hresult
      exact .value v a hdef happly (hvalue ▸ hbound) hround
    | error fault =>
      rcases Ratio.toAmount_eq_error hdigits hresult with ⟨hbound, rfl⟩ | ⟨hbound, rfl, cause, hround⟩
      · exact .range hdef (hvalue ▸ hbound)
      · exact .rounding v cause hdef happly (hvalue ▸ hbound) hround

theorem finish_eq_ok_iff (hvalid : settings.Valid) {o : Operation} {a : Amount} :
    settings.finish o = .ok a ↔ ∃ v, o.apply = .ok v ∧ |o.exact| ≤ settings.resultBound ∧
      v.roundTo amountScale settings.fractionDigits = .ok a := by
  have hfinish := finish_cases hvalid o
  refine ⟨?_, ?_⟩
  · intro h
    rw [h] at hfinish
    cases hfinish with
    | value v _ _ happly hbound hround => exact ⟨v, happly, hbound, hround⟩
  · rintro ⟨v, happly, hbound, hround⟩
    generalize settings.finish o = result at hfinish
    cases hfinish with
    | undefined h => exact absurd (Operation.value_of_apply happly).1 h
    | overflow _ h => cases h.symm.trans happly
    | range _ h => exact absurd hbound (not_le.mpr h)
    | rounding w _ _ h _ hfault =>
      cases h.symm.trans happly
      cases hfault.symm.trans hround
    | value w _ _ h _ hround' =>
      cases h.symm.trans happly
      cases hround'.symm.trans hround
      rfl

/-- Where rounding fails, the overflow is told by the last stage. -/
theorem finish_of_no_rounding (hvalid : settings.Valid) {o : Operation} {v : Ratio}
    {fault : Fault} (happly : o.apply = .ok v) (hbound : |o.exact| ≤ settings.resultBound)
    (hround : v.roundTo amountScale settings.fractionDigits = .error fault) :
    settings.finish o = .error ⟨.rounding, .overflow⟩ := by
  have hfinish := finish_cases hvalid o
  generalize settings.finish o = result at hfinish
  cases hfinish with
  | undefined h => exact absurd (Operation.value_of_apply happly).1 h
  | overflow _ h => cases h.symm.trans happly
  | range _ h => exact absurd hbound (not_le.mpr h)
  | rounding => rfl
  | value w _ _ h _ hround' =>
    cases h.symm.trans happly
    cases hround'.symm.trans hround

theorem exact_of_finish (hvalid : settings.Valid) {o : Operation} {a : Amount}
    (h : settings.finish o = .ok a) :
    o.Defined ∧ |o.exact| ≤ settings.resultBound ∧
      RoundsTo settings.fractionDigits o.exact a.value := by
  obtain ⟨v, happly, hbound, hround⟩ := (finish_eq_ok_iff hvalid).mp h
  obtain ⟨hdefined, hvalue⟩ := Operation.value_of_apply happly
  have hrounds := Ratio.roundsTo_of_roundTo hround
  rw [hvalue] at hrounds
  exact ⟨hdefined, hbound, hrounds⟩

theorem fault_of_finish (hvalid : settings.Valid) {o : Operation} {rejection : Rejection}
    (h : settings.finish o = .error rejection) :
    (rejection.fault = .divisionByZero → ¬ o.Defined) ∧
      ∀ bound, rejection.fault = .resultOutOfRange bound →
        bound = settings.resultBound ∧ o.Defined ∧ settings.resultBound < |o.exact| := by
  have hfinish := finish_cases hvalid o
  rw [h] at hfinish
  cases hfinish with
  | undefined hundefined => simp [hundefined]
  | overflow => simp
  | range hdefined hbound => simp_all
  | rounding => simp

end Reckoner.Settings
