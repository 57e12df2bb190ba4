-- What an evaluation ends with: a value, or a fault. The faults come with the texts that
-- say what is wrong, and with the stage at which they are found.
import Reckoner.Number.Text
import Reckoner.Settings

namespace Reckoner

/-! ## Faults of operands -/

inductive OperandFault
  | missingFractionDigits
  | tooManyFractionDigits (most : Nat)
  | groupingSeparator (point : Char)
  | unparsable
  | tooLarge
  deriving DecidableEq, Repr

namespace OperandFault

def message : OperandFault → String
  | missingFractionDigits => "no digits after decimal point."
  | tooManyFractionDigits most => s!"at most {most} digits after decimal point."
  | groupingSeparator point => s!"use `{point}` as the fractional separator"
  | unparsable => "could not parse number."
  | tooLarge => "number is too large."

/-- The text is a numeral, but no cell holds its number. -/
def isTooLarge : OperandFault → Bool
  | tooLarge => true
  | _ => false

/-- What a fault of the number means for an operand of at most `most` fractional digits. -/
def ofFault (most : Nat) : Fault → OperandFault
  | .precisionLoss => tooManyFractionDigits most
  | .overflow | .underflow => tooLarge
  | .divisionByZero | .malformed => unparsable

end OperandFault

/-! ## Faults of evaluations -/

inductive EvaluationFault
  | inputTooLong (most : Nat)
  | malformed (point : Char)
  | operand (fault : OperandFault)
  | operandOutOfRange (bound : Nat)
  | divisionByZero
  | overflow
  | resultOutOfRange (bound : Nat)
  /-- What the earlier stages should have ruled out. -/
  | internal (detail : String)
  deriving DecidableEq, Repr

namespace EvaluationFault

def rangeText (bound : Nat) : String :=
  "[-" ++ groupThousands bound ++ ", " ++ groupThousands bound ++ "]"

def message : EvaluationFault → String
  | inputTooLong _ => "expression too long."
  | malformed point =>
    s!"expected expression of form <number> <operator> <number> with `{point}` as " ++
      "fractional separator."
  | operand fault => fault.message
  | operandOutOfRange bound =>
    s!"operands must be within the allowed range of {rangeText bound}."
  | divisionByZero => "division by zero is not allowed."
  | overflow => "overflow during computation; refine the values."
  | resultOutOfRange bound => s!"result exceeds the allowed range of {rangeText bound}."
  | internal detail => s!"internal error: {detail}"

/-- The fault lies with the evaluation and not with the input. -/
def isInternal : EvaluationFault → Bool
  | internal _ => true
  | _ => false

def ofFault : Fault → EvaluationFault
  | .overflow | .underflow => overflow
  | .divisionByZero => divisionByZero
  | fault@(.precisionLoss) | fault@(.malformed) =>
    internal s!"unexpected arithmetic failure: {fault.message}"

end EvaluationFault

/-! ## Stages -/

/-- Where an evaluation stops. -/
inductive Stage
  | length
  | shape
  | operand
  | operandRange
  | arithmetic
  | resultRange
  | rounding
  deriving DecidableEq, Repr

def Stage.name : Stage → String
  | length => "length"
  | shape => "shape"
  | operand => "operand"
  | operandRange => "operand-range"
  | arithmetic => "arithmetic"
  | resultRange => "result-range"
  | rounding => "rounding"

/-- A fault and the stage that found it. -/
structure Rejection where
  stage : Stage
  fault : EvaluationFault
  deriving DecidableEq, Repr

/-! ## Outcomes -/

/-- A value, or the reason why there is none. -/
inductive Outcome
  | success (value : Amount)
  | failure (fault : EvaluationFault)
  deriving DecidableEq

namespace Outcome

def isSuccess : Outcome → Bool
  | success _ => true
  | failure _ => false

def render (separators : Separators) : Outcome → String
  | success value => value.plain separators.point
  | failure fault => "Error: " ++ fault.message

/-- The line that shows the outcome with the standard characters. -/
def text (o : Outcome) : String := o.render Separators.standard

/-- What a program that shows one outcome ends with. -/
def exitCode : Outcome → Nat
  | success _ => 0
  | failure _ => 1

end Outcome

end Reckoner
