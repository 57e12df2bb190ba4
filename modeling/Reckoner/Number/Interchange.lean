-- The decimal that amounts are exchanged in with other programs: a whole mantissa
-- of 96 bits with a sign, and a scale of at most 28.
import Reckoner.Number.Fixed

namespace Reckoner

/-- The number `mantissa / 10 ^ scale`. -/
structure Interchange where
  mantissa : Int
  scale : Nat
  mantissa_lt : mantissa.natAbs < Nat.pow 2 96
  scale_le : scale ≤ 28
  deriving DecidableEq

namespace Interchange

def ofParts? (mantissa : Int) (scale : Nat) : Option Interchange :=
  if h : mantissa.natAbs < Nat.pow 2 96 ∧ scale ≤ 28 then some ⟨mantissa, scale, h.1, h.2⟩ else none

/-- The text, with as many fractional digits as the scale says. -/
def text (d : Interchange) : String :=
  let digits := (Nat.toDigits 10 d.mantissa.natAbs).leftpad (d.scale + 1) '0'
  let whole := digits.take (digits.length - d.scale)
  let fraction := digits.drop (digits.length - d.scale)
  String.ofList <|
    (if d.mantissa < 0 then ['-'] else []) ++ whole ++
      (if fraction.isEmpty then [] else '.' :: fraction)

end Interchange

namespace Fixed

/-- The number of a decimal, which must not have more digits than the scale keeps.
Zeros at the end of the mantissa are no such digits. -/
def ofInterchange (s : Scale) (d : Interchange) : Except Fault (Fixed s) :=
  if s.val < d.scale then
    let surplus : Int := Int.pow 10 (d.scale - s.val)
    if d.mantissa.tmod surplus = 0 then
      ofRaw (d.mantissa.tdiv surplus) .overflow
    else
      .error .precisionLoss
  else
    ofRaw (d.mantissa * Int.pow 10 (s.val - d.scale)) .overflow

def toInterchange {s : Scale} (a : Fixed s) : Except Fault Interchange :=
  match Interchange.ofParts? a.raw s.val with
  | some d => .ok d
  | none => .error .overflow

end Fixed

end Reckoner
