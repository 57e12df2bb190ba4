-- The laws of the outcome, told from the text of the input and from rational numbers alone.
-- Whatever the bounds are, no result is reported that is not the exact one, rounded; and where
-- cells have enough room, the first of seven cases that fits is the outcome.
import Reckoner.Proofs.Headroom

namespace Reckoner

/-! ## Outcomes and stages -/

namespace Evaluator

variable {e : Evaluator} {input : String}

theorem run_of_reject {rejection : Rejection} (h : e.settings.accept input = .error rejection) :
    e.run input =
      ⟨[.received input.length, .rejected rejection], .failure rejection.fault⟩ := by
  unfold run
  rw [h]

theorem run_of_value {o : Operation} {a : Amount} (h : e.settings.accept input = .ok o)
    (hvalue : e.settings.finish o = .ok a) :
    e.run input = ⟨[.received input.length, .accepted o, .completed a], .success a⟩ := by
  unfold run
  rw [h]
  dsimp only
  rw [hvalue]

theorem run_of_no_value {o : Operation} {rejection : Rejection}
    (h : e.settings.accept input = .ok o) (hfinish : e.settings.finish o = .error rejection) :
    e.run input = ⟨[.received input.length, .accepted o, .rejected rejection],
      .failure rejection.fault⟩ := by
  unfold run
  rw [h]
  dsimp only
  rw [hfinish]

theorem evaluate_of_reject {rejection : Rejection}
    (h : e.settings.accept input = .error rejection) :
    e.evaluate input = .failure rejection.fault := by
  rw [evaluate, run_of_reject h]

theorem evaluate_of_value {o : Operation} {a : Amount} (h : e.settings.accept input = .ok o)
    (hvalue : e.settings.finish o = .ok a) : e.evaluate input = .success a := by
  rw [evaluate, run_of_value h hvalue]

theorem evaluate_of_no_value {o : Operation} {rejection : Rejection}
    (h : e.settings.accept input = .ok o) (hfinish : e.settings.finish o = .error rejection) :
    e.evaluate input = .failure rejection.fault := by
  rw [evaluate, run_of_no_value h hfinish]

/-- A success is the value of an accepted operation. -/
theorem exists_of_success {a : Amount} (h : e.evaluate input = .success a) :
    ∃ o, e.settings.accept input = .ok o ∧ e.settings.finish o = .ok a := by
  cases haccept : e.settings.accept input with
  | error rejection =>
    rw [evaluate_of_reject haccept] at h
    cases h
  | ok o =>
    refine ⟨o, rfl, ?_⟩
    cases hfinish : e.settings.finish o with
    | error rejection =>
      rw [evaluate_of_no_value haccept hfinish] at h
      cases h
    | ok b =>
      rw [evaluate_of_value haccept hfinish] at h
      rw [Outcome.success.inj h]

/-- A failure is the fault of the stage that stopped, before the operation or behind it. -/
theorem exists_of_failure {fault : EvaluationFault} (h : e.evaluate input = .failure fault) :
    ∃ rejection : Rejection, rejection.fault = fault ∧
      (e.settings.accept input = .error rejection ∨
        ∃ o, e.settings.accept input = .ok o ∧ e.settings.finish o = .error rejection) := by
  cases haccept : e.settings.accept input with
  | error rejection =>
    rw [evaluate_of_reject haccept] at h
    exact ⟨rejection, Outcome.failure.inj h, Or.inl rfl⟩
  | ok o =>
    cases hfinish : e.settings.finish o with
    | error rejection =>
      rw [evaluate_of_no_value haccept hfinish] at h
      exact ⟨rejection, Outcome.failure.inj h, Or.inr ⟨o, rfl, hfinish⟩⟩
    | ok a =>
      rw [evaluate_of_value haccept hfinish] at h
      cases h

end Evaluator

/-- The input is taken apart into an operator between two numerals. -/
structure Parses (settings : Settings) (input : String) (left : Numeral) (operator : Operator)
    (right : Numeral) : Prop where
  cut : Expression.Cut settings.separators.point input.toList left operator right
  parse : settings.parse input = .ok (.ofNumerals settings.separators.point left operator right)

/-! ## Any bounds -/

namespace Settings

variable {settings : Settings} {input : String}

/-- An accepted operation is what the input says, with both numbers within their bound. -/
theorem exists_parses_of_accept (hvalid : settings.Valid) {o : Operation}
    (h : settings.accept input = .ok o) :
    ∃ left right, Parses settings input left o.operator right ∧
      o.exact = o.operator.exact left.value right.value ∧
      (o.Defined ↔ o.operator.Defined right.value) ∧
      |left.value| ≤ settings.operandBound ∧ |right.value| ≤ settings.operandBound := by
  have haccept := accept_cases hvalid input
  rw [h] at haccept
  cases haccept with
  | cut left operator right _ hlength hcut hoperands =>
    cases hoperands with
    | both a b _ _ ha hb _ _ hrange =>
      refine ⟨left, right, ⟨hcut, parse_of_cut hvalid hlength hcut⟩, ?_, ?_, hrange⟩
      · rw [Operation.exact, ha, hb]
      · rw [Operation.Defined, hb]

/-- Nothing that stops an input before it is accepted speaks of its result. -/
theorem fault_of_accept (hvalid : settings.Valid) {rejection : Rejection}
    (h : settings.accept input = .error rejection) :
    rejection.fault ≠ .divisionByZero ∧
      ∀ bound, rejection.fault ≠ .resultOutOfRange bound := by
  have haccept := accept_cases hvalid input
  rw [h] at haccept
  cases haccept with
  | tooLong => simp
  | noCut =>
    unfold shapeFault
    split <;> simp
  | cut left operator right _ _ _ hoperands => cases hoperands <;> simp

/-- Under a roomy bound, what no cell holds is above the bound too. -/
theorem beyond_of_range {left right : Numeral} (hvalid : settings.Valid)
    (hroom : settings.operandBound ≤ roomyBound)
    (hleft : left.fraction.length ≤ settings.fractionDigits)
    (hright : right.fraction.length ≤ settings.fractionDigits)
    (h : (¬ Cell.Fits (left.magnitude amountScale) ∨
        ¬ Cell.Fits (right.magnitude amountScale)) ∨
      ¬ (|left.value| ≤ settings.operandBound ∧ |right.value| ≤ settings.operandBound)) :
    settings.operandBound < |left.value| ∨ settings.operandBound < |right.value| := by
  obtain ⟨-, hdigits, -⟩ := valid_iff.mp hvalid
  have hroom' : (settings.operandBound : ℚ) ≤ roomyBound := by exact_mod_cast hroom
  rcases h with (hfits | hfits) | hbound
  · left
    exact lt_of_le_of_lt hroom' (Numeral.roomyBound_lt_of_not_fits (le_trans hleft hdigits) hfits)
  · right
    exact lt_of_le_of_lt hroom' (Numeral.roomyBound_lt_of_not_fits (le_trans hright hdigits) hfits)
  · rw [not_and_or, not_le, not_le] at hbound
    exact hbound

end Settings

/-- The evaluator of the largest bounds that an unsigned cell holds. -/
def Evaluator.unbounded : Evaluator :=
  ⟨{ operandBound := 2 ^ 128 - 1, resultBound := 2 ^ 128 - 1 }, rfl⟩

/-- Whatever the bounds are, a success is the exact result of the two numbers that the
input writes, rounded half to even; a result out of range is out of range; and a
division by zero is one. -/
theorem no_result_is_invented (e : Evaluator) (input : String) :
    (∀ value, e.evaluate input = .success value →
      ∃ left operator right, Parses e.settings input left operator right ∧
        |left.value| ≤ e.settings.operandBound ∧ |right.value| ≤ e.settings.operandBound ∧
        operator.Defined right.value ∧
        |operator.exact left.value right.value| ≤ e.settings.resultBound ∧
        RoundsTo e.settings.fractionDigits (operator.exact left.value right.value) value.value) ∧
    (∀ bound, e.evaluate input = .failure (.resultOutOfRange bound) →
      bound = e.settings.resultBound ∧
      ∃ left operator right, Parses e.settings input left operator right ∧
        operator.Defined right.value ∧
        e.settings.resultBound < |operator.exact left.value right.value|) ∧
    (e.evaluate input = .failure .divisionByZero →
      ∃ left right, Parses e.settings input left .divide right ∧ right.value = 0) := by
  refine ⟨?_, ?_, ?_⟩
  · intro value h
    obtain ⟨o, haccept, hfinish⟩ := Evaluator.exists_of_success h
    obtain ⟨left, right, hparses, hexact, hdefined, hl, hr⟩ :=
      Settings.exists_parses_of_accept e.valid haccept
    obtain ⟨hdef, hbound, hrounds⟩ := Settings.exact_of_finish e.valid hfinish
    rw [hexact] at hbound hrounds
    exact ⟨left, o.operator, right, hparses, hl, hr, hdefined.mp hdef, hbound, hrounds⟩
  · intro bound h
    obtain ⟨rejection, hfault, haccept | ⟨o, haccept, hfinish⟩⟩ := Evaluator.exists_of_failure h
    · exact absurd hfault ((Settings.fault_of_accept e.valid haccept).2 bound)
    · obtain ⟨left, right, hparses, hexact, hdefined, -, -⟩ :=
        Settings.exists_parses_of_accept e.valid haccept
      obtain ⟨hbound, hdef, hlarge⟩ := (Settings.fault_of_finish e.valid hfinish).2 bound hfault
      rw [hexact] at hlarge
      exact ⟨hbound, left, o.operator, right, hparses, hdefined.mp hdef, hlarge⟩
  · intro h
    obtain ⟨rejection, hfault, haccept | ⟨o, haccept, hfinish⟩⟩ := Evaluator.exists_of_failure h
    · exact absurd hfault (Settings.fault_of_accept e.valid haccept).1
    · obtain ⟨left, right, hparses, -, hdefined, -, -⟩ :=
        Settings.exists_parses_of_accept e.valid haccept
      have hundefined := (Settings.fault_of_finish e.valid hfinish).1 hfault
      rw [hdefined, Operator.Defined, Classical.not_imp, not_not] at hundefined
      exact ⟨left, right, hundefined.1 ▸ hparses, hundefined.2⟩

/-- A third that is rounded, a division by zero and a product out of range. -/
theorem nothing_is_invented_in_three_cases :
    (Evaluator.unbounded.evaluate "1 / 3" = .success ⟨3333, by decide⟩ ∧
      ∃ left operator right, Parses Evaluator.unbounded.settings "1 / 3" left operator right ∧
        RoundsTo 4 (operator.exact left.value right.value)
          (Fixed.value (s := amountScale) ⟨3333, by decide⟩)) ∧
    (Evaluator.unbounded.evaluate "1 / 0" = .failure .divisionByZero ∧
      ∃ left right, Parses Evaluator.unbounded.settings "1 / 0" left .divide right ∧
        right.value = 0) ∧
    Evaluator.standard.evaluate "99999 * 99999" = .failure (.resultOutOfRange 1000000000) ∧
      ∃ left operator right,
        Parses Evaluator.standard.settings "99999 * 99999" left operator right ∧
        1000000000 < |operator.exact left.value right.value| := by
  have hthird : Evaluator.unbounded.evaluate "1 / 3" = .success ⟨3333, by decide⟩ := by
    decide +kernel
  have hzero : Evaluator.unbounded.evaluate "1 / 0" = .failure .divisionByZero := by
    decide +kernel
  have hlarge : Evaluator.standard.evaluate "99999 * 99999" =
      .failure (.resultOutOfRange 1000000000) := by
    decide +kernel
  refine ⟨⟨hthird, ?_⟩, ⟨hzero, ?_⟩, hlarge, ?_⟩
  · obtain ⟨left, operator, right, hparses, -, -, -, -, hrounds⟩ :=
      (no_result_is_invented Evaluator.unbounded "1 / 3").1 _ hthird
    exact ⟨left, operator, right, hparses, hrounds⟩
  · exact (no_result_is_invented Evaluator.unbounded "1 / 0").2.2 hzero
  · obtain ⟨-, left, operator, right, hparses, -, hrange⟩ :=
      (no_result_is_invented Evaluator.standard "99999 * 99999").2.1 _ hlarge
    exact ⟨left, operator, right, hparses, by exact_mod_cast hrange⟩

/-! ## Roomy bounds -/

/-- How an operator between two numerals is answered: the first case that fits. -/
def AnswerTo (settings : Settings) (left : Numeral) (operator : Operator) (right : Numeral)
    (outcome : Outcome) : Prop :=
  if settings.fractionDigits < left.fraction.length ∨
      settings.fractionDigits < right.fraction.length then
    outcome = .failure (.operand (.tooManyFractionDigits settings.fractionDigits))
  else if settings.operandBound < |left.value| ∨ settings.operandBound < |right.value| then
    outcome = .failure (.operandOutOfRange settings.operandBound)
  else if operator = .divide ∧ right.value = 0 then
    outcome = .failure .divisionByZero
  else if settings.resultBound < |operator.exact left.value right.value| then
    outcome = .failure (.resultOutOfRange settings.resultBound)
  else
    ∃ value, outcome = .success value ∧
      RoundsTo settings.fractionDigits (operator.exact left.value right.value) value.value

/-- How an input is answered. The cases that look at its numbers need a cut. -/
def Answer (settings : Settings) (input : String) (outcome : Outcome) : Prop :=
  if settings.maxLength < input.length then
    outcome = .failure (.inputTooLong settings.maxLength)
  else
    (∃ left operator right,
      Expression.Cut settings.separators.point input.toList left operator right ∧
        AnswerTo settings left operator right outcome) ∨
    ((∀ left operator right,
      ¬ Expression.Cut settings.separators.point input.toList left operator right) ∧
        outcome = .failure (settings.shapeFault input))

section Answers

variable {settings : Settings} {left right : Numeral} {operator : Operator}
  {outcome outcome' : Outcome}

theorem AnswerTo.unique (h : AnswerTo settings left operator right outcome)
    (h' : AnswerTo settings left operator right outcome') : outcome = outcome' := by
  unfold AnswerTo at h h'
  split_ifs at h h'
  · rw [h, h']
  · rw [h, h']
  · rw [h, h']
  · rw [h, h']
  · obtain ⟨value, rfl, hvalue⟩ := h
    obtain ⟨value', rfl, hvalue'⟩ := h'
    rw [Fixed.value_inj.mp (hvalue.unique hvalue')]

theorem Answer.unique (hvalid : settings.Valid) {input : String}
    (h : Answer settings input outcome) (h' : Answer settings input outcome') :
    outcome = outcome' := by
  obtain ⟨-, -, -, -, -, hpoint, -⟩ := Settings.valid_iff.mp hvalid
  unfold Answer at h h'
  split_ifs at h h'
  · rw [h, h']
  · rcases h with ⟨l, o, r, hcut, h⟩ | ⟨hnone, h⟩ <;>
      rcases h' with ⟨l', o', r', hcut', h'⟩ | ⟨hnone', h'⟩
    · obtain ⟨rfl, rfl, rfl⟩ := Expression.cut_unique hpoint hcut hcut'
      exact h.unique h'
    · exact absurd hcut (hnone' l o r)
    · exact absurd hcut' (hnone l' o' r')
    · rw [h, h']

/-- No answer speaks of a cell that is too small or of a fault inside. -/
theorem AnswerTo.not_overflow (h : AnswerTo settings left operator right outcome) :
    outcome ≠ .failure .overflow ∧ ∀ detail, outcome ≠ .failure (.internal detail) := by
  unfold AnswerTo at h
  split_ifs at h
  · simp [h]
  · simp [h]
  · simp [h]
  · simp [h]
  · obtain ⟨value, rfl, -⟩ := h
    simp

theorem Answer.not_overflow {input : String} (h : Answer settings input outcome) :
    outcome ≠ .failure .overflow ∧ ∀ detail, outcome ≠ .failure (.internal detail) := by
  unfold Answer at h
  split_ifs at h
  · simp [h]
  · rcases h with ⟨left, operator, right, -, h⟩ | ⟨-, rfl⟩
    · exact h.not_overflow
    · unfold Settings.shapeFault
      split <;> simp

end Answers

namespace Evaluator

variable {e : Evaluator} {input : String} {left right : Numeral} {operator : Operator}

theorem answerTo_of_accept (hroom : e.settings.operandBound ≤ roomyBound) {a b : Amount}
    (hdigits : ¬ (e.settings.fractionDigits < left.fraction.length ∨
      e.settings.fractionDigits < right.fraction.length))
    (hrange : ¬ (e.settings.operandBound < |left.value| ∨ e.settings.operandBound < |right.value|))
    (ha : a.value = left.value) (hb : b.value = right.value)
    (haccept : e.settings.accept input = .ok ⟨a, operator, b⟩) :
    AnswerTo e.settings left operator right (e.evaluate input) := by
  unfold AnswerTo
  rw [if_neg hdigits, if_neg hrange, ← ha, ← hb]
  rw [← ha, ← hb, not_or, not_lt, not_lt] at hrange
  have hdefined : ¬ (operator = .divide ∧ b.value = 0) ↔ operator.Defined b.value := not_and
  have hfinish := Settings.finish_of_roomy (o := ⟨a, operator, b⟩) e.valid hroom hrange.1 hrange.2
  rcases hfinish with
    ⟨h, hfinish⟩ | ⟨h, hbound, hfinish⟩ | ⟨h, hbound, v, hfinish, hrounds⟩
  · rw [evaluate_of_no_value haccept hfinish, if_pos (not_not.mp (mt hdefined.mp h))]
  · rw [evaluate_of_no_value haccept hfinish, if_neg (hdefined.mpr h)]
    change if e.settings.resultBound < |Operation.exact ⟨a, operator, b⟩| then _ else _
    rw [if_pos hbound]
  · rw [evaluate_of_value haccept hfinish, if_neg (hdefined.mpr h)]
    change if e.settings.resultBound < |Operation.exact ⟨a, operator, b⟩| then _ else _
    rw [if_neg (not_lt.mpr hbound)]
    exact ⟨v, rfl, hrounds⟩

/-- Under a roomy bound every input is answered by the first case that fits. -/
theorem answer_evaluate (hroom : e.settings.operandBound ≤ roomyBound) :
    Answer e.settings input (e.evaluate input) := by
  have hinput := Settings.accept_cases e.valid input
  generalize hresult : e.settings.accept input = result at hinput
  unfold Answer
  cases hinput with
  | tooLong h => rw [evaluate_of_reject hresult, if_pos h]
  | noCut hlength h =>
    rw [evaluate_of_reject hresult, if_neg (not_lt.mpr hlength)]
    exact Or.inr ⟨h, rfl⟩
  | cut left operator right _ hlength hcut haccept =>
    rw [if_neg (not_lt.mpr hlength)]
    refine Or.inl ⟨left, operator, right, hcut, ?_⟩
    cases haccept with
    | digits h =>
      unfold AnswerTo
      rw [evaluate_of_reject hresult, if_pos h]
    | range hleft hright h =>
      unfold AnswerTo
      rw [evaluate_of_reject hresult, if_neg (by omega), if_pos]
      exact Settings.beyond_of_range e.valid hroom hleft hright h
    | both a b hleft hright ha hb _ _ hrange =>
      apply answerTo_of_accept hroom (by omega) _ ha hb hresult
      rw [not_or, not_lt, not_lt]
      exact hrange

end Evaluator

/-- Under an operand bound of at most ten trillion the outcome of an input is its answer.
Overflow is never told, nor is a fault inside. -/
theorem the_first_case_that_fits_decides (e : Evaluator)
    (hroom : e.settings.operandBound ≤ roomyBound) (input : String) :
    (∀ outcome, e.evaluate input = outcome ↔ Answer e.settings input outcome) ∧
      e.evaluate input ≠ .failure .overflow ∧
      ∀ detail, e.evaluate input ≠ .failure (.internal detail) := by
  have hanswer : Answer e.settings input (e.evaluate input) := Evaluator.answer_evaluate hroom
  refine ⟨?_, hanswer.not_overflow⟩
  intro outcome
  refine ⟨?_, hanswer.unique e.valid⟩
  rintro rfl
  exact hanswer

/-- Half a step is answered by the even neighbour. -/
theorem the_first_case_of_half_a_step :
    Evaluator.standard.settings.operandBound ≤ roomyBound ∧
      Answer Evaluator.standard.settings "-0.0003 / 2" (.success ⟨-2, by decide⟩) := by
  have hlaw := the_first_case_that_fits_decides Evaluator.standard (by decide) "-0.0003 / 2"
  exact ⟨by decide, (hlaw.1 _).mp (by decide +kernel)⟩

end Reckoner
