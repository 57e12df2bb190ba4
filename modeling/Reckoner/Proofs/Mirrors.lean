-- The laws of the mirror at zero. A cell holds one more number below zero than above it, and
-- yet no ratio has room on one side only: what would reach the least number is a multiple of
-- ten, which the least number is not, or it was the least number before.
import Reckoner.Proofs.Rounding

namespace Reckoner

variable {s : Scale} {places : ℕ} {v : Ratio}

/-! ## Faults -/

/-- The fault on the other side of zero. -/
def Fault.opposite : Fault → Fault
  | overflow => underflow
  | underflow => overflow
  | fault => fault

theorem Fault.opposite_involutive : Function.Involutive opposite := by
  intro fault
  cases fault <;> rfl

/-! ## Room -/

/-- A rounded ratio is not the least integer of a cell unless its upper number was. -/
theorem fits_nearestEven {n : ℤ} {d : ℕ} (hd : 0 < d) (hfits : Cell.Fits n)
    (hleast : n ≠ Cell.least) : Cell.Fits (nearestEven n d) ∧ nearestEven n d ≠ Cell.least := by
  have hsize := abs_nearestEven_le n hd
  have hvalue := Cell.least_eq
  rw [Int.abs_eq_natAbs, Int.abs_eq_natAbs] at hsize
  rw [Cell.fits_iff] at hfits ⊢
  omega

namespace Ratio

/-- Cells hold the upper number with its new digits, and what it is rounded to. -/
def HasRoom (s : Scale) (places : ℕ) (v : Ratio) : Prop :=
  Cell.Fits (v.numer * 10 ^ places) ∧
    Cell.Fits (nearestEven (v.numer * 10 ^ places) v.denom * 10 ^ (s.val - places))

theorem roundTo_eq_error_iff {fault : Fault} : v.roundTo s places = .error fault ↔
    (s.val < places ∧ fault = .precisionLoss) ∨
      (places ≤ s.val ∧ ¬ v.HasRoom s places ∧
        fault = if v.numer < 0 then .underflow else .overflow) := by
  rw [roundTo_of_nearest (v.nearest_numer places)]
  by_cases hplaces : s.val < places
  · simp [hplaces, not_le.mpr hplaces, eq_comm]
  · rw [if_neg hplaces]
    split
    · next hroom =>
      replace hroom : v.HasRoom s places := hroom
      simp [hplaces, hroom]
    · next hroom =>
      replace hroom : ¬ v.HasRoom s places := hroom
      simp [hplaces, not_lt.mp hplaces, hroom, eq_comm]

theorem hasRoom_of_numer_eq_zero (h : v.numer = 0) : v.HasRoom s places := by
  have hzero : nearestEven 0 v.denom = 0 := by
    simpa using nearestEven_mul_self 0 v.denom_pos
  rw [HasRoom, h, zero_mul, hzero, zero_mul]
  exact ⟨Cell.fits_zero, Cell.fits_zero⟩

/-- There is as much room on the other side of zero. -/
theorem hasRoom_mirror_iff (hleast : v.numer ≠ Cell.least) :
    (v.mirror hleast).HasRoom s places ↔ v.HasRoom s places := by
  refine (and_congr_left' (Cell.fits_neg_mul_pow_iff v.numer_fits hleast places)).trans ?_
  refine and_congr_right ?_
  intro hroom
  obtain ⟨hfits, hne⟩ :=
    fits_nearestEven v.denom_pos hroom (Cell.mul_pow_ne_least hleast places)
  simp only [mirror]
  rw [neg_mul, nearestEven_neg _ v.denom_pos]
  exact Cell.fits_neg_mul_pow_iff hfits hne _

/-- A mirrored ratio has the mirrored fault. -/
theorem roundTo_mirror_eq_error_iff (hleast : v.numer ≠ Cell.least) {fault : Fault} :
    (v.mirror hleast).roundTo s places = .error fault.opposite ↔
      v.roundTo s places = .error fault := by
  rw [roundTo_eq_error_iff, roundTo_eq_error_iff, hasRoom_mirror_iff,
    Fault.opposite_involutive.eq_iff, Fault.opposite_involutive.eq_iff]
  refine or_congr Iff.rfl (and_congr_right' (and_congr_right ?_))
  intro hroom
  have hne : v.numer ≠ 0 := mt hasRoom_of_numer_eq_zero hroom
  have hside : (-v.numer < 0) ↔ ¬ v.numer < 0 := by omega
  simp only [mirror, hside, ite_not, apply_ite Fault.opposite]
  rfl

end Ratio

/-- A ratio and its mirror image are rounded to numbers that are as far from zero, or both have
a fault: too many digits in either case, or no room, each on its own side. No number that comes
out is the least one of a cell. The least one itself has no mirror image. -/
theorem rounding_mirrors_at_zero (s : Scale) (places : ℕ) (v : Ratio)
    (hleast : v.numer ≠ Cell.least) :
    (∀ a, v.roundTo s places = .ok a → a.raw ≠ Cell.least ∧
      ∃ b, (v.mirror hleast).roundTo s places = .ok b ∧ b.raw = -a.raw) ∧
    ∀ fault, v.roundTo s places = .error fault ↔
      (v.mirror hleast).roundTo s places = .error fault.opposite := by
  refine ⟨?_, ?_⟩
  · intro a h
    obtain ⟨b, hneg, hmirror⟩ := Ratio.roundTo_mirror hleast h
    refine ⟨?_, b, hmirror, Fixed.neg_eq_ok_iff.mp hneg⟩
    intro ha
    exact hleast (Ratio.raw_eq_least_of_roundTo h ha).2
  · intro fault
    exact (Ratio.roundTo_mirror_eq_error_iff hleast).symm

def nextToLeast : Amount := ⟨-Cell.greatest, by decide⟩

/-- Two steps on both sides of zero, and the two amounts that are the farthest from it. -/
theorem rounding_mirrors_two_steps_and_the_farthest_amounts :
    (stepAndHalf.roundTo 4 4 = .ok ⟨-2, by decide⟩ ∧
      ∃ b, (stepAndHalf.mirror (by decide)).roundTo 4 4 = .ok b ∧ b.raw = 2) ∧
    (nextToLeast.toRatio.roundTo 4 0 = .error .underflow ∧
      (nextToLeast.toRatio.mirror (by decide)).roundTo 4 0 = .error .overflow) ∧
    (stepAndHalf.mirror (by decide)).roundTo 4 5 = .error .precisionLoss := by
  have htwo : stepAndHalf.roundTo 4 4 = .ok ⟨-2, by decide⟩ := by rfl
  have hroom : nextToLeast.toRatio.roundTo 4 0 = .error .underflow := by rfl
  have hdigits : stepAndHalf.roundTo 4 5 = .error .precisionLoss := by rfl
  obtain ⟨hstep, -⟩ := rounding_mirrors_at_zero 4 4 stepAndHalf (by decide)
  obtain ⟨-, hfar⟩ := rounding_mirrors_at_zero 4 0 nextToLeast.toRatio (by decide)
  obtain ⟨-, hlong⟩ := rounding_mirrors_at_zero 4 5 stepAndHalf (by decide)
  exact ⟨⟨htwo, (hstep _ htwo).2⟩, ⟨hroom, (hfar _).mp hroom⟩, (hlong _).mp hdigits⟩

end Reckoner
