-- Fixed-point numbers: a whole count of steps of a scale, kept in a signed cell. Sums and
-- differences stay at the scale. Products and quotients come out as ratios, so that
-- nothing is rounded before its size was looked at.
import Reckoner.Number.Cell

namespace Reckoner

/-! ## Ratios -/

/-- The number `numer / denom`. It is not reduced, and its sign is that of `numer`. -/
structure Ratio where
  numer : Int
  denom : Nat
  denom_pos : 0 < denom
  numer_fits : Cell.Fits numer
  denom_fits : Cell.Fits denom
  deriving DecidableEq

namespace Ratio

/-- The ratio of two integers, with the sign moved to the upper one. -/
def ofQuotient (numer denom : Int) : Except Fault Ratio :=
  if hz : denom = 0 then
    .error .divisionByZero
  else
    let upper := if denom < 0 then -numer else numer
    if h : Cell.Fits upper ∧ Cell.Fits denom.natAbs then
      .ok ⟨upper, denom.natAbs, Int.natAbs_pos.mpr hz, h.1, h.2⟩
    else
      .error .overflow

def isZero (v : Ratio) : Bool := v.numer == 0

def isNegative (v : Ratio) : Bool := v.numer < 0

/-- The ratio is larger in size than `bound` wholes. A bound that does not fit once it
is scaled is larger than every ratio. -/
def exceeds (v : Ratio) (bound : Nat) : Bool :=
  let limit := bound * v.denom
  decide (Cell.FitsUnsigned limit) && decide (limit < v.numer.natAbs)

end Ratio

/-! ## Fixed-point numbers -/

/-- The number `raw / 10 ^ s`. -/
@[ext]
structure Fixed (s : Scale) where
  raw : Int
  fits : Cell.Fits raw

instance {s : Scale} (a b : Fixed s) : Decidable (a = b) :=
  decidable_of_iff (a.raw = b.raw) Fixed.ext_iff.symm

/-- The scale of the numbers in expressions. -/
abbrev amountScale : Scale := 4

abbrev Amount := Fixed amountScale

namespace Fixed

variable {s : Scale}

/-- The number of `n` steps, if a cell holds it, and else the given fault. -/
def ofRaw (n : Int) (fault : Fault) : Except Fault (Fixed s) :=
  if h : Cell.Fits n then .ok ⟨n, h⟩ else .error fault

theorem ofRaw_of_fits {n : Int} {fault : Fault} (h : Cell.Fits n) :
    ofRaw (s := s) n fault = .ok ⟨n, h⟩ := dif_pos h

theorem ofRaw_of_not_fits {n : Int} {fault : Fault} (h : ¬ Cell.Fits n) :
    ofRaw (s := s) n fault = .error fault := dif_neg h

def zero : Fixed s := ⟨0, Cell.fits_zero⟩

def one : Fixed s := ⟨s.unit, s.fits_unit⟩

def least : Fixed s := ⟨Cell.least, Cell.fits_least⟩

def greatest : Fixed s := ⟨Cell.greatest, Cell.fits_greatest⟩

instance : Inhabited (Fixed s) := ⟨zero⟩

def ofInteger (n : Int) : Except Fault (Fixed s) := ofRaw (n * s.unit) .overflow

/-- The number with the given whole part, and `fraction` steps further from zero. -/
def ofParts (whole : Int) (fraction : Nat) : Except Fault (Fixed s) :=
  if s.unit ≤ fraction then
    .error .malformed
  else do
    let base : Fixed s ← ofInteger whole
    ofRaw (if whole < 0 then base.raw - fraction else base.raw + fraction) .overflow

/-- The whole part, cut toward zero. -/
def integerPart (a : Fixed s) : Int := a.raw.tdiv s.unit

/-- The steps beyond the whole part. -/
def fractionPart (a : Fixed s) : Nat := (a.raw.tmod s.unit).natAbs

def isZero (a : Fixed s) : Bool := a.raw == 0

def isPositive (a : Fixed s) : Bool := 0 < a.raw

def isNegative (a : Fixed s) : Bool := a.raw < 0

/-- The number is larger in size than `bound` wholes, as for a ratio. -/
def exceeds (a : Fixed s) (bound : Nat) : Bool :=
  let limit := bound * s.unit
  decide (Cell.FitsUnsigned limit) && decide (limit < a.raw.natAbs)

/-- The same number as a ratio over the unit of its scale. -/
def toRatio (a : Fixed s) : Ratio := ⟨a.raw, s.unit, s.unit_pos, a.fits, s.fits_unit⟩

/-! ## Order -/

instance : LE (Fixed s) := ⟨fun a b => a.raw ≤ b.raw⟩

instance : LT (Fixed s) := ⟨fun a b => a.raw < b.raw⟩

instance (a b : Fixed s) : Decidable (a ≤ b) := inferInstanceAs (Decidable (a.raw ≤ b.raw))

instance (a b : Fixed s) : Decidable (a < b) := inferInstanceAs (Decidable (a.raw < b.raw))

instance : Ord (Fixed s) := ⟨fun a b => compare a.raw b.raw⟩

instance : Min (Fixed s) := ⟨fun a b => if a ≤ b then a else b⟩

instance : Max (Fixed s) := ⟨fun a b => if a ≤ b then b else a⟩

/-! ## Arithmetic -/

def abs (a : Fixed s) : Except Fault (Fixed s) := ofRaw a.raw.natAbs .overflow

def neg (a : Fixed s) : Except Fault (Fixed s) := ofRaw (-a.raw) .overflow

def add (a b : Fixed s) : Except Fault (Fixed s) :=
  ofRaw (a.raw + b.raw) (if 0 < b.raw then .overflow else .underflow)

def sub (a b : Fixed s) : Except Fault (Fixed s) :=
  ofRaw (a.raw - b.raw) (if b.raw < 0 then .overflow else .underflow)

/-- The product with all of its fractional digits, twice as many as the scale has. -/
def mul (a b : Fixed s) : Except Fault Ratio :=
  if Cell.Fits (a.raw * b.raw) then
    Ratio.ofQuotient (a.raw * b.raw) (s.unit * s.unit)
  else
    .error (.ofSide (a.isNegative != b.isNegative))

/-- The quotient. Both sides have one scale, so their units cancel. -/
def div (a b : Fixed s) : Except Fault Ratio :=
  if b.isZero then .error .divisionByZero else Ratio.ofQuotient a.raw b.raw

end Fixed

/-! ## Rounding -/

/-- The integer nearest to `n / d`, the even one where two are equally near. The
quotient is cut toward zero first, and takes one step away from zero when what was
cut off is more than a half, or a half beside an odd quotient. -/
def nearestEven (n : Int) (d : Nat) : Int :=
  let quotient := n.tdiv d
  let twice := 2 * (n.tmod d).natAbs
  if d < twice ∨ twice = d ∧ quotient % 2 ≠ 0 then
    quotient + (if n < 0 then -1 else 1)
  else
    quotient

namespace Ratio

/-- The ratio at `places` fractional digits, kept at the scale `s`. -/
def roundTo (s : Scale) (places : Nat) (v : Ratio) : Except Fault (Fixed s) :=
  let outside := Fault.ofSide v.isNegative
  if s.val < places then
    .error .precisionLoss
  else if Cell.Fits (v.numer * Int.pow 10 places) then
    Fixed.ofRaw (nearestEven (v.numer * Int.pow 10 places) v.denom * Int.pow 10 (s.val - places)) outside
  else
    .error outside

def round (s : Scale) (v : Ratio) : Except Fault (Fixed s) := v.roundTo s s.val

end Ratio

end Reckoner
