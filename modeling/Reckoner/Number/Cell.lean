-- The cells of 128 bits that numbers are kept in, the faults of numbers that no cell holds,
-- and the scales at which cells are counted. Numbers themselves are unbounded integers here.
namespace Reckoner

/-! ## Cells -/

namespace Cell

def least : Int := -Nat.pow 2 127

def greatest : Int := Nat.pow 2 127 - 1

/-- A signed cell holds `n`. -/
def Fits (n : Int) : Prop := least ≤ n ∧ n ≤ greatest

/-- An unsigned cell holds `n`. -/
def FitsUnsigned (n : Nat) : Prop := n < Nat.pow 2 128

instance (n : Int) : Decidable (Fits n) := inferInstanceAs (Decidable (_ ∧ _))

instance (n : Nat) : Decidable (FitsUnsigned n) := inferInstanceAs (Decidable (_ < _))

theorem least_eq : least = -170141183460469231731687303715884105728 := rfl

/-- The range of a signed cell, as a linear condition. -/
theorem fits_iff {n : Int} : Fits n ↔
    -170141183460469231731687303715884105728 ≤ n ∧
      n ≤ 170141183460469231731687303715884105727 := by
  simp [Fits, least, greatest]

theorem fits_zero : Fits 0 := by decide

theorem fits_least : Fits least := by decide

theorem fits_greatest : Fits greatest := by decide

theorem fits_neg_iff {n : Int} (h : Fits n) : Fits (-n) ↔ n ≠ least := by
  have hleast := least_eq
  rw [fits_iff] at h ⊢
  omega

theorem Fits.natAbs {n : Int} (h : Fits n) : FitsUnsigned n.natAbs := by
  rw [fits_iff] at h
  simp only [FitsUnsigned, Nat.pow_eq]
  omega

end Cell

/-! ## Faults -/

/-- Why a number could not be made. -/
inductive Fault
  | overflow
  | underflow
  | divisionByZero
  | precisionLoss
  | malformed
  deriving DecidableEq, Repr

namespace Fault

def message : Fault → String
  | overflow => "arithmetic overflow: result exceeded maximum value"
  | underflow => "arithmetic underflow: result below minimum value"
  | divisionByZero => "division by zero"
  | precisionLoss => "precision loss: value has more fractional digits than the scale allows"
  | malformed => "invalid input: could not parse value"

/-- The number exists, but the cell does not hold it. -/
def isRange : Fault → Bool
  | overflow | underflow => true
  | divisionByZero | precisionLoss | malformed => false

/-- The range fault on the side of zero that `negative` names. -/
def ofSide (negative : Bool) : Fault := if negative then underflow else overflow

end Fault

/-! ## Scales -/

/-- A count of fractional digits, up to the last one at which one still fits its cell. -/
abbrev Scale := Fin 39

namespace Scale

/-- How many steps of the scale make one whole. -/
def unit (s : Scale) : Nat := Nat.pow 10 s.val

theorem unit_pos (s : Scale) : 0 < s.unit := Nat.pow_pos (by decide)

theorem fits_unit (s : Scale) : Cell.Fits s.unit := by
  have h : s.unit ≤ 10 ^ 38 := Nat.pow_le_pow_right (by decide) (by omega)
  rw [Cell.fits_iff]
  omega

end Scale

end Reckoner
