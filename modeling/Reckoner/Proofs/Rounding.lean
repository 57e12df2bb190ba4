-- The laws of rounded ratios. Rounding mirrors at zero, it leaves alone what has few enough
-- digits, and where it succeeds it depends on nothing but the value of a ratio. Whether it
-- succeeds depends on more: the upper number takes its new digits before it is divided.
import Reckoner.Proofs.Arithmetic

namespace Reckoner

variable {s : Scale} {places : ℕ} {v : Ratio}

/-! ## The other side of zero -/

namespace Cell

variable {n : ℤ}

theorem mul_pow_ne_least (h : n ≠ least) (k : ℕ) : n * 10 ^ k ≠ least := by
  cases k with
  | zero => simpa using h
  | succ k => exact ne_least_of_ten_dvd (dvd_mul_of_dvd_right (dvd_pow_self 10 k.succ_ne_zero) n)

/-- Away from the ends of a cell a number has room when its counterpart has. -/
theorem fits_neg_iff_fits (h : n ≠ least) (h' : -n ≠ least) : Fits (-n) ↔ Fits n := by
  refine ⟨?_, ?_⟩
  · intro hfits
    rw [← neg_neg n]
    exact (fits_neg_iff hfits).mpr h'
  · intro hfits
    exact (fits_neg_iff hfits).mpr h

theorem Fits.neg_ne_least (hfits : Fits n) : -n ≠ least := by
  have hleast := least_eq
  rw [fits_iff] at hfits
  omega

theorem fits_neg_mul_pow_iff (hfits : Fits n) (h : n ≠ least) (k : ℕ) :
    Fits (-n * 10 ^ k) ↔ Fits (n * 10 ^ k) := by
  rw [neg_mul]
  apply fits_neg_iff_fits (mul_pow_ne_least h k)
  rw [← neg_mul]
  exact mul_pow_ne_least hfits.neg_ne_least k

end Cell

theorem IsNearestEven.neg {x : ℚ} {r : ℤ} (h : IsNearestEven x r) : IsNearestEven (-x) (-r) := by
  obtain ⟨hnear, heven⟩ := h
  have hdist : |-x - (-r : ℤ)| = |x - r| := by
    rw [Int.cast_neg, neg_sub_neg, abs_sub_comm]
  rw [IsNearestEven, hdist]
  exact ⟨hnear, fun hhalf => (heven hhalf).neg⟩

theorem nearestEven_neg (n : ℤ) {d : ℕ} (hd : 0 < d) : nearestEven (-n) d = -nearestEven n d := by
  have h := (isNearestEven_nearestEven n hd).neg
  rw [← neg_div, ← Int.cast_neg] at h
  exact (isNearestEven_nearestEven (-n) hd).unique h

theorem Fixed.neg_eq_ok_iff {a b : Fixed s} : a.neg = .ok b ↔ b.raw = -a.raw := ofRaw_eq_ok_iff

namespace Ratio

/-- A mirrored ratio is rounded to the mirrored number. -/
theorem roundTo_mirror {a : Fixed s} (hleast : v.numer ≠ Cell.least)
    (h : v.roundTo s places = .ok a) :
    ∃ b, a.neg = .ok b ∧ (v.mirror hleast).roundTo s places = .ok b := by
  obtain ⟨hplaces, hfits, hraw⟩ := roundTo_eq_ok_iff.mp h
  have hneg : Cell.Fits (-a.raw) :=
    (Cell.fits_neg_iff a.fits).mpr fun ha => hleast (raw_eq_least_of_roundTo h ha).2
  refine ⟨⟨-a.raw, hneg⟩, Fixed.neg_eq_ok_iff.mpr rfl, roundTo_eq_ok_iff.mpr ⟨hplaces, ?_, ?_⟩⟩
  · exact (Cell.fits_neg_mul_pow_iff v.numer_fits hleast places).mpr hfits
  · simp only [mirror]
    rw [neg_mul, nearestEven_neg _ v.denom_pos, hraw, neg_mul]

theorem value_mirror (v : Ratio) (hleast : v.numer ≠ Cell.least) :
    (v.mirror hleast).value = -v.value := by
  rw [value, value, ← neg_div]
  push_cast [mirror]
  rfl

end Ratio

/-! ## Enough room -/

/-- An amount has room for more digits if its bound has. -/
theorem Fixed.fits_of_bound {a : Amount} {bound : ℕ} (ha : |a.value| ≤ bound)
    (hbound : (bound : ℤ) * 10 ^ (4 + places) ≤ Cell.greatest) :
    Cell.Fits (a.raw * 10 ^ places) := by
  have hunit := amountScale.unit_cast_pos
  rw [value, abs_div, abs_of_pos hunit, div_le_iff₀ hunit, ← Int.cast_abs] at ha
  have hraw : |a.raw| ≤ bound * 10 ^ 4 := by exact_mod_cast ha
  have hsize : |a.raw * 10 ^ places| ≤ Cell.greatest := by
    rw [abs_mul, abs_of_pos (by positivity : (0 : ℤ) < 10 ^ places)]
    calc |a.raw| * 10 ^ places ≤ bound * 10 ^ 4 * 10 ^ places :=
          mul_le_mul_of_nonneg_right hraw (by positivity)
      _ = bound * 10 ^ (4 + places) := by rw [mul_assoc, ← pow_add]
      _ ≤ Cell.greatest := hbound
  obtain ⟨hlow, hhigh⟩ := abs_le.mp hsize
  have hends : Cell.least = -Cell.greatest - 1 := by decide
  exact ⟨by omega, hhigh⟩

namespace Ratio

/-- A ratio is rounded as its value is, if its upper number has room for the digits. -/
theorem roundTo_of_roundsTo {a : Fixed s} (hplaces : places ≤ s.val)
    (hroom : Cell.Fits (v.numer * 10 ^ places)) (h : RoundsTo places v.value a.value) :
    v.roundTo s places = .ok a := by
  obtain ⟨r, hr, ha⟩ := h
  refine roundTo_eq_ok_iff.mpr ⟨hplaces, hroom, ?_⟩
  rw [(v.isNearestEven_numer places).unique hr]
  have hunit : (s.unit : ℚ) = 10 ^ places * 10 ^ (s.val - places) := by
    rw [Scale.unit_eq, ← pow_add, Nat.add_sub_cancel' hplaces]
    push_cast
    rfl
  rw [Fixed.value, div_eq_div_iff s.unit_ne_zero (by positivity), hunit] at ha
  have hten : (10 : ℚ) ^ places ≠ 0 := by positivity
  have hraw : (a.raw : ℚ) = r * 10 ^ (s.val - places) := by
    apply mul_right_cancel₀ hten
    rw [ha]
    ring
  exact_mod_cast hraw

theorem roundTo_of_no_room (hplaces : places ≤ s.val)
    (hroom : ¬ Cell.Fits (v.numer * 10 ^ places)) :
    v.roundTo s places = .error (.ofSide v.isNegative) := by
  unfold roundTo
  rw [if_neg (not_lt.mpr hplaces)]
  exact if_neg hroom

theorem ofSide_isNegative (v : Ratio) :
    Fault.ofSide v.isNegative = if v.numer < 0 then .underflow else .overflow := by
  simp [Fault.ofSide, isNegative]

/-! ## Few enough digits -/

/-- A ratio that is worth a number with few enough digits is rounded to it, if it has room. -/
theorem roundTo_of_value_eq {a : Fixed s} (hplaces : places ≤ s.val)
    (hdvd : (10 : ℤ) ^ (s.val - places) ∣ a.raw) (hvalue : v.value = a.value) :
    v.roundTo s places =
      if Cell.Fits (v.numer * 10 ^ places) then .ok a
      else .error (if v.numer < 0 then .underflow else .overflow) := by
  obtain ⟨q, hq⟩ := hdvd
  have hdigits : v.value * 10 ^ places = q := by
    have hunit : (s.unit : ℚ) = 10 ^ (s.val - places) * 10 ^ places := by
      rw [Scale.unit_eq, ← pow_add, Nat.sub_add_cancel hplaces]
      push_cast
      rfl
    rw [hvalue, Fixed.value, hq, hunit]
    push_cast
    field_simp
  split
  · next hroom => exact roundTo_of_roundsTo hplaces hroom (hvalue ▸ roundsTo_self hdigits)
  · next hroom => rw [roundTo_of_no_room hplaces hroom, ofSide_isNegative]

/-- A number with few enough digits is not changed, if it has room for them. -/
theorem roundTo_toRatio_eq_ok_iff {a b : Fixed s} (hplaces : places ≤ s.val)
    (hdvd : (10 : ℤ) ^ (s.val - places) ∣ a.raw) :
    a.toRatio.roundTo s places = .ok b ↔ Cell.Fits (a.raw * 10 ^ places) ∧ b = a := by
  rw [roundTo_of_value_eq hplaces hdvd rfl]
  change (if Cell.Fits (a.raw * 10 ^ places) then _ else _) = _ ↔ _
  split
  · next hroom => simp [hroom, eq_comm]
  · next hroom => simp [hroom]

end Ratio

namespace Ratio

variable {r : ℤ}

theorem nearest_numer (v : Ratio) (places : ℕ) :
    Nearest (v.value * 10 ^ places) (nearestEven (v.numer * 10 ^ places) v.denom) :=
  nearest_iff.mpr (v.isNearestEven_numer places)

/-- What decides about a rounding once the nearest integer is known. -/
theorem roundTo_of_nearest (hr : Nearest (v.value * 10 ^ places) r) :
    v.roundTo s places =
      if s.val < places then .error .precisionLoss
      else if h : Cell.Fits (v.numer * 10 ^ places) ∧ Cell.Fits (r * 10 ^ (s.val - places)) then
        .ok ⟨r * 10 ^ (s.val - places), h.2⟩
      else .error (if v.numer < 0 then .underflow else .overflow) := by
  rw [← (v.isNearestEven_numer places).unique (nearest_iff.mp hr), ← v.ofSide_isNegative]
  by_cases hplaces : s.val < places
  · rw [if_pos hplaces]
    exact if_pos hplaces
  · rw [if_neg hplaces]
    by_cases hroom : Cell.Fits (v.numer * 10 ^ places)
    · simp only [roundTo, Int.pow_eq, if_neg hplaces, hroom, true_and]
      rfl
    · rw [roundTo_of_no_room (not_lt.mp hplaces) hroom, dif_neg (not_and_of_not_left _ hroom)]

theorem roundTo_congr {w : Ratio} {a b : Fixed s} (hvalue : w.value = v.value)
    (ha : v.roundTo s places = .ok a) (hb : w.roundTo s places = .ok b) : a = b := by
  have hround := roundsTo_of_roundTo hb
  rw [hvalue] at hround
  exact Fixed.value_inj.mp ((roundsTo_of_roundTo ha).unique hround)

end Ratio

/-- A ratio is rounded to the nearest integer of its last digit, the even one of two, where
the scale has the digits and where its upper number and the result have room in a cell. The
result, where there is one, is told by the value of the ratio alone. -/
theorem a_ratio_is_rounded_where_there_is_room (s : Scale) (places : ℕ) (v : Ratio) :
    (∃! r : ℤ, Nearest (v.value * 10 ^ places) r) ∧
    (∀ r : ℤ, Nearest (v.value * 10 ^ places) r → v.roundTo s places =
      if s.val < places then .error .precisionLoss
      else if h : Cell.Fits (v.numer * 10 ^ places) ∧ Cell.Fits (r * 10 ^ (s.val - places)) then
        .ok ⟨r * 10 ^ (s.val - places), h.2⟩
      else .error (if v.numer < 0 then .underflow else .overflow)) ∧
    ∀ (w : Ratio) (a b : Fixed s), w.value = v.value → v.roundTo s places = .ok a →
      w.roundTo s places = .ok b → a = b := by
  refine ⟨⟨_, v.nearest_numer places, ?_⟩, ?_, ?_⟩
  · intro r hr
    exact (nearest_iff.mp hr).unique (v.isNearestEven_numer places)
  · intro r hr
    exact Ratio.roundTo_of_nearest hr
  · intro w a b hvalue ha hb
    exact Ratio.roundTo_congr hvalue ha hb

/-- A step and a half below zero, as it stands and reduced. -/
def stepAndHalf : Ratio := ⟨-15, 100000, by decide, by decide, by decide⟩

def stepAndHalfReduced : Ratio := ⟨-3, 20000, by decide, by decide, by decide⟩

/-- Both become two steps, which is the even one of the two nearest numbers of them. -/
theorem a_step_and_a_half_is_rounded_to_two_steps :
    Nearest (stepAndHalf.value * 10 ^ 4) (-2) ∧
      stepAndHalf.roundTo 4 4 = .ok ⟨-2, by decide⟩ ∧
      stepAndHalfReduced.value = stepAndHalf.value ∧
      ∀ b, stepAndHalfReduced.roundTo 4 4 = .ok b → ⟨-2, by decide⟩ = b := by
  obtain ⟨-, hround, hsame⟩ := a_ratio_is_rounded_where_there_is_room 4 4 stepAndHalf
  have hnear : Nearest (stepAndHalf.value * 10 ^ 4) (-2) := by
    rw [nearest_iff, show stepAndHalf.value * 10 ^ 4 = -3 / 2 by norm_num [stepAndHalf, Ratio.value]]
    exact ⟨by norm_num [abs_of_pos], fun _ => by decide⟩
  have htwo : stepAndHalf.roundTo 4 4 = .ok ⟨-2, by decide⟩ := by
    rw [hround (-2) hnear]
    rfl
  have hvalue : stepAndHalfReduced.value = stepAndHalf.value := by
    norm_num [stepAndHalf, stepAndHalfReduced, Ratio.value]
  exact ⟨hnear, htwo, hvalue, fun b hb => hsame stepAndHalfReduced _ b hvalue htwo hb⟩

end Reckoner
