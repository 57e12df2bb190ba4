-- Operands and operations. Of several faults of an operand always the same one is named, and
-- an operation has an exact result before it has a rounded one.
import Reckoner.Evaluation.Outcome

namespace Reckoner

/-! ## Operands -/

namespace Operand

/-- Counts the characters behind the first point, whatever they are. -/
def fractionFault? (settings : Settings) (cs : List Char) : Option OperandFault :=
  match cs.dropWhile (· != settings.separators.point) with
  | [] => none
  | _ :: fraction =>
    if fraction = [] then
      some .missingFractionDigits
    else if settings.fractionDigits < fraction.length then
      some (.tooManyFractionDigits settings.fractionDigits)
    else
      none

/-- A full stop that is not the point makes the text no numeral. -/
def withFullStop? (point : Char) (cs : List Char) : Option (List Char) :=
  if point = '.' then
    some cs
  else if '.' ∈ cs then
    none
  else
    some (cs.map fun c => if c = point then '.' else c)

def ofChars (settings : Settings) (cs : List Char) : Except OperandFault Amount :=
  match fractionFault? settings cs with
  | some fault => .error fault
  | none =>
    if settings.separators.grouping ∈ cs then
      .error (.groupingSeparator settings.separators.point)
    else
      match withFullStop? settings.separators.point cs with
      | none => .error .unparsable
      | some cs =>
        (Fixed.ofChars amountScale cs).mapError (OperandFault.ofFault settings.fractionDigits)

def ofText (settings : Settings) (text : String) : Except OperandFault Amount :=
  ofChars settings text.toList

end Operand

/-! ## Operations -/

structure Operation where
  left : Amount
  operator : Operator
  right : Amount
  deriving DecidableEq

namespace Operation

def checkRange (settings : Settings) (o : Operation) : Except EvaluationFault Unit :=
  if o.left.exceeds settings.operandBound || o.right.exceeds settings.operandBound then
    .error (.operandOutOfRange settings.operandBound)
  else
    .ok ()

/-- The result as a ratio, with nothing rounded. -/
def ratio (o : Operation) : Except Fault Ratio :=
  match o.operator with
  | .add => (o.left.add o.right).map Fixed.toRatio
  | .subtract => (o.left.sub o.right).map Fixed.toRatio
  | .multiply => o.left.mul o.right
  | .divide => o.left.div o.right

def apply (o : Operation) : Except EvaluationFault Ratio :=
  o.ratio.mapError EvaluationFault.ofFault

end Operation

namespace Ratio

def roundingFault (digits : Nat) : Fault → EvaluationFault
  | .precisionLoss => .internal s!"cannot round to {digits} fractional digits"
  | _ => .overflow

/-- The bound is held against the result before it is rounded. -/
def toAmount (settings : Settings) (v : Ratio) : Except EvaluationFault Amount :=
  if v.exceeds settings.resultBound then
    .error (.resultOutOfRange settings.resultBound)
  else
    (v.roundTo amountScale settings.fractionDigits).mapError
      (roundingFault settings.fractionDigits)

end Ratio

end Reckoner
