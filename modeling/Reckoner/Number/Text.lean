-- The texts of fixed-point numbers: the one that is read, a full one with every digit of the
-- scale, and a plain one that leaves out what the number does not need.
import Reckoner.Number.Fixed
import Reckoner.Numeral

namespace Reckoner.Fixed

/-! ## Reading -/

/-- The number of a numeral. Too many digits are looked for before too large a size. -/
def ofNumeral (s : Scale) (n : Numeral) : Except Fault (Fixed s) :=
  if s.val < n.fraction.length then
    .error .precisionLoss
  else do
    let size : Fixed s ← ofRaw (n.magnitude s) .overflow
    if n.isNegative then size.neg else pure size

def ofChars (s : Scale) (cs : List Char) : Except Fault (Fixed s) :=
  match Numeral.read? '.' cs with
  | some n => ofNumeral s n
  | none => .error .malformed

def ofText (s : Scale) (text : String) : Except Fault (Fixed s) := ofChars s text.toList

/-! ## Writing -/

variable {s : Scale}

/-- The sign of a number between minus one and zero is written apart, for its whole part has none. -/
def displayChars (a : Fixed s) : List Char :=
  if s.val = 0 then
    Digits.ofInt a.integerPart
  else
    (if a.raw < 0 ∧ a.integerPart = 0 then ['-', '0'] else Digits.ofInt a.integerPart) ++
      '.' :: Digits.padded s.val a.fractionPart

def display (a : Fixed s) : String := String.ofList a.displayChars

/-- No plus, no grouping, no zero at the end of a fraction, and no point without one. -/
def plainChars (point : Char) (a : Fixed s) : List Char :=
  let whole := a.raw.natAbs / s.unit
  let fraction := a.raw.natAbs % s.unit
  (if a.raw < 0 then ['-'] else []) ++ Digits.ofNat whole ++
    (if fraction = 0 then [] else point :: Digits.trimZeros (Digits.padded s.val fraction))

def plain (point : Char) (a : Fixed s) : String := String.ofList (a.plainChars point)

def normalized (a : Fixed s) : String := a.plain '.'

/-- The text that a log shows. -/
def describe (a : Fixed s) : String :=
  s!"FixedDecimal<{s.val}>({a.display}, raw={a.raw})"

end Reckoner.Fixed
