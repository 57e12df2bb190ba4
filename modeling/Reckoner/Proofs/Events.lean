-- The laws of events. The events of a run tell it from its beginning to its end: what
-- came in, the operation if there was one, and the outcome. Where that is a rejection,
-- its stage and its fault fit each other, and the stage fits the events before it.
import Reckoner.Proofs.Rejections

namespace Reckoner

/-! ## Accepted operations -/

/-- Both texts of the expression are read as amounts, and both amounts are within their bound. -/
def Accepts (settings : Settings) (input : String) (o : Operation) : Prop :=
  ∃ x : Expression, input.length ≤ settings.maxLength ∧
    Expression.Reads settings.separators.point input.toList x ∧
    Operand.ofText settings x.left = .ok o.left ∧ x.operator = o.operator ∧
    Operand.ofText settings x.right = .ok o.right ∧
    |o.left.value| ≤ settings.operandBound ∧ |o.right.value| ≤ settings.operandBound

namespace Settings

variable {settings : Settings} {input : String} {x : Expression} {o : Operation}

theorem operands_eq_ok_iff : settings.operands x = .ok o ↔
    Operand.ofText settings x.left = .ok o.left ∧ x.operator = o.operator ∧
      Operand.ofText settings x.right = .ok o.right := by
  obtain ⟨left, operator, right⟩ := o
  unfold operands
  generalize Operand.ofText settings x.left = l
  generalize Operand.ofText settings x.right = r
  cases l with
  | ok a =>
    cases r with
    | ok b => simp
    | error fault => cases fault <;> simp
  | error fault =>
    cases r with
    | ok b => cases fault <;> simp
    | error fault' => cases fault <;> cases fault' <;> simp

theorem accept_eq_ok_iff : settings.accept input = .ok o ↔
    ∃ x, settings.parse input = .ok x ∧ settings.operands x = .ok o ∧
      |o.left.value| ≤ settings.operandBound ∧ |o.right.value| ≤ settings.operandBound := by
  cases hparse : settings.parse input with
  | error fault => simp [accept_of_parse_error hparse]
  | ok x =>
    cases hoperands : settings.operands x with
    | error rejection => simp [accept_of_operands_error hparse hoperands, hoperands]
    | ok o' =>
      rw [accept_of_operands_ok hparse hoperands]
      simp only [Except.ok.injEq, exists_eq_left', hoperands]
      split
      · next hrange =>
        rw [Except.ok.injEq]
        refine ⟨?_, fun h => h.1⟩
        rintro rfl
        exact ⟨rfl, hrange⟩
      · next hrange =>
        simp only [reduceCtorEq, false_iff, not_and]
        rintro rfl
        rw [← not_and]
        exact hrange

theorem accept_eq_ok_iff_accepts (hvalid : settings.Valid) :
    settings.accept input = .ok o ↔ Accepts settings input o := by
  simp only [accept_eq_ok_iff, parse_eq_ok_iff_reads hvalid, operands_eq_ok_iff, Accepts, and_assoc]

end Settings

/-! ## Stages and faults -/

/-- The stage of a rejection is the one that looks for its fault. Overflow is looked for at
two: in the arithmetic, before there is an exact result, and in the rounding behind it. -/
def Agrees (accepted : Option Operation) (stage : Stage) : EvaluationFault → Prop
  | .inputTooLong _ => stage = .length
  | .malformed _ | .operand (.groupingSeparator _) => stage = .shape
  | .operand (.tooManyFractionDigits _) => stage = .operand
  | .operandOutOfRange _ => stage = .operandRange
  | .resultOutOfRange _ => stage = .resultRange
  | .divisionByZero => stage = .arithmetic
  | .overflow => ∃ o, accepted = some o ∧
      (stage = .arithmetic ↔ ∃ fault, o.apply = .error fault) ∧
      (stage = .rounding ↔ ∃ v, o.apply = .ok v)
  | .operand .missingFractionDigits | .operand .unparsable | .operand .tooLarge
  | .internal _ => False

/-- The stages behind the acceptance of an operation. -/
def Stage.late : List Stage := [arithmetic, resultRange, rounding]

namespace Settings

variable {settings : Settings} {input : String} {o : Operation} {rejection : Rejection}

theorem Refuses.agrees (h : Refuses settings input rejection) :
    Agrees none rejection.stage rejection.fault ∧ rejection.stage ∉ Stage.late := by
  cases h with
  | tooLong => exact ⟨rfl, (by decide : Stage.length ∉ Stage.late)⟩
  | digits => exact ⟨rfl, (by decide : Stage.operand ∉ Stage.late)⟩
  | range => exact ⟨rfl, (by decide : Stage.operandRange ∉ Stage.late)⟩
  | shape =>
    refine ⟨?_, (by decide : Stage.shape ∉ Stage.late)⟩
    unfold shapeFault
    split <;> rfl

theorem Fails.agrees (h : Fails settings o rejection) :
    Agrees (some o) rejection.stage rejection.fault ∧ rejection.stage ∈ Stage.late := by
  cases h with
  | division => exact ⟨rfl, by decide⟩
  | range => exact ⟨rfl, (by decide : Stage.resultRange ∈ Stage.late)⟩
  | arithmetic h =>
    refine ⟨⟨o, rfl, ?_, ?_⟩, by decide⟩
    · simp [h]
    · simp [h]
  | rounding v h =>
    refine ⟨⟨o, rfl, ?_, ?_⟩, by decide⟩
    · simp [h]
    · simp [h]

end Settings

/-- A run has an event for the input, then one for its operation exactly when that is
accepted, and last one for the outcome. The stage of a rejection agrees with its fault,
and it is a late one exactly when an operation was accepted. -/
theorem the_events_tell_the_run (e : Evaluator) (input : String) :
    ∃ accepted last,
      (e.run input).events =
        .received input.length :: ((accepted.map Event.accepted).toList ++ [last]) ∧
      (∀ o, accepted = some o ↔ Accepts e.settings input o) ∧
      ((∃ value, (e.run input).outcome = .success value ∧ last = .completed value) ∨
        ∃ rejection : Rejection, (e.run input).outcome = .failure rejection.fault ∧
          last = .rejected rejection ∧ Agrees accepted rejection.stage rejection.fault ∧
          (accepted.isSome ↔ rejection.stage ∈ Stage.late)) := by
  cases haccept : e.settings.accept input with
  | error rejection =>
    obtain ⟨hagrees, hearly⟩ := (Settings.refuses_of_accept e.valid haccept).agrees
    rw [Evaluator.run_of_reject haccept]
    refine ⟨none, _, rfl, ?_, Or.inr ⟨rejection, rfl, rfl, hagrees, ?_⟩⟩
    · intro o
      rw [← Settings.accept_eq_ok_iff_accepts e.valid, haccept]
      simp
    · simp [hearly]
  | ok o =>
    have honly (o' : Operation) : some o = some o' ↔ Accepts e.settings input o' := by
      rw [← Settings.accept_eq_ok_iff_accepts e.valid, haccept]
      simp
    cases hfinish : e.settings.finish o with
    | ok a =>
      rw [Evaluator.run_of_value haccept hfinish]
      exact ⟨some o, _, rfl, honly, Or.inl ⟨a, rfl, rfl⟩⟩
    | error rejection =>
      obtain ⟨hagrees, hbehind⟩ := (Settings.fails_of_finish e.valid hfinish).agrees
      rw [Evaluator.run_of_no_value haccept hfinish]
      refine ⟨some o, _, rfl, honly, Or.inr ⟨rejection, rfl, rfl, hagrees, ?_⟩⟩
      simp [hbehind]

end Reckoner
