-- The laws of parts. A number is taken apart into its whole part, which carries its sign, and the
-- steps beyond it, which carry none, and it can be put together from the two again. Between minus
-- one and zero the whole part is zero, and there the sign is lost on the way.
import Reckoner.Proofs.Values

namespace Reckoner

namespace Fixed

variable {s : Scale} {a : Fixed s} {whole : ℤ} {fraction : ℕ}

/-! ## Taking a number apart -/

theorem natAbs_integerPart (a : Fixed s) : a.integerPart.natAbs = a.raw.natAbs / s.unit := by
  rw [integerPart, Int.natAbs_tdiv, Int.natAbs_natCast]
  rfl

theorem fractionPart_eq (a : Fixed s) : a.fractionPart = a.raw.natAbs % s.unit := by
  rw [fractionPart, Int.natAbs_tmod, Int.natAbs_natCast]

theorem fractionPart_lt (a : Fixed s) : a.fractionPart < s.unit := by
  rw [fractionPart_eq]
  exact Nat.mod_lt _ s.unit_pos

theorem integerPart_nonneg (h : 0 ≤ a.raw) : 0 ≤ a.integerPart :=
  Int.tdiv_nonneg h (Int.natCast_nonneg _)

theorem integerPart_nonpos (h : a.raw ≤ 0) : a.integerPart ≤ 0 := by
  have hge := Int.tdiv_nonneg (Int.neg_nonneg_of_nonpos h) (Int.natCast_nonneg s.unit)
  rwa [Int.neg_tdiv, Int.neg_nonneg] at hge

/-- The whole part is below zero from minus one on. -/
theorem integerPart_neg_iff : a.integerPart < 0 ↔ a.raw ≤ -(s.unit : ℤ) := by
  have hsize := a.natAbs_integerPart
  have hunit := s.unit_pos
  have hwhole : 0 < a.raw.natAbs / s.unit ↔ 0 < s.unit ∧ s.unit ≤ a.raw.natAbs := Nat.div_pos_iff
  by_cases hraw : a.raw < 0
  · have hle := integerPart_nonpos hraw.le
    omega
  · have hge := integerPart_nonneg (not_lt.mp hraw)
    omega

/-- The number is between minus one and zero, where neither of its parts tells its sign. -/
def LosesSign (a : Fixed s) : Prop := -(s.unit : ℤ) < a.raw ∧ a.raw < 0

instance (a : Fixed s) : Decidable a.LosesSign := inferInstanceAs (Decidable (_ ∧ _))

/-! ## Putting it together -/

/-- The steps of wholes and fraction together. No wholes at all are not below zero. -/
def steps (s : Scale) (whole : ℤ) (fraction : ℕ) : ℤ :=
  let size : ℕ := whole.natAbs * s.unit + fraction
  if whole < 0 then -size else size

theorem natAbs_steps (s : Scale) (whole : ℤ) (fraction : ℕ) :
    (steps s whole fraction).natAbs = whole.natAbs * s.unit + fraction := by
  rw [steps]
  split <;> omega

theorem steps_natCast (s : Scale) (w f : ℕ) : steps s w f = (w * s.unit + f : ℕ) := by
  unfold steps
  rw [if_neg (Int.natCast_nonneg w).not_gt, Int.natAbs_natCast]

/-- The fraction goes away from zero, from where the wholes end. -/
theorem steps_eq (s : Scale) (whole : ℤ) (fraction : ℕ) : steps s whole fraction =
    if whole < 0 then whole * s.unit - fraction else whole * s.unit + fraction := by
  unfold steps
  split
  · next hneg =>
    push_cast
    rw [abs_of_neg hneg]
    ring
  · next hpos =>
    push_cast
    rw [abs_of_nonneg (not_lt.mp hpos)]

/-- Where there is no room for the wholes there is none for the whole number. -/
theorem fits_of_fits_steps (h : Cell.Fits (steps s whole fraction)) :
    Cell.Fits (whole * s.unit) := by
  rw [steps_eq] at h
  by_cases hneg : whole < 0
  · have hwholes : whole * s.unit < 0 := mul_neg_of_neg_of_pos hneg (by exact_mod_cast s.unit_pos)
    rw [if_pos hneg, Cell.fits_iff] at h
    rw [Cell.fits_iff]
    omega
  · have hwholes : 0 ≤ whole * s.unit := mul_nonneg (not_lt.mp hneg) (Int.natCast_nonneg _)
    rw [if_neg hneg, Cell.fits_iff] at h
    rw [Cell.fits_iff]
    omega

theorem ofParts_of_le (h : s.unit ≤ fraction) :
    (ofParts whole fraction : Except Fault (Fixed s)) = .error .malformed := if_pos h

theorem ofParts_of_lt (h : fraction < s.unit) :
    (ofParts whole fraction : Except Fault (Fixed s)) =
      ofRaw (steps s whole fraction) .overflow := by
  unfold ofParts ofInteger
  rw [if_neg (not_le.mpr h)]
  by_cases hwholes : Cell.Fits (whole * s.unit)
  · rw [ofRaw_of_fits hwholes, steps_eq]
    rfl
  · rw [ofRaw_of_not_fits hwholes, ofRaw_of_not_fits (mt fits_of_fits_steps hwholes)]
    rfl

theorem ofParts_eq_error_iff {fault : Fault} :
    (ofParts whole fraction : Except Fault (Fixed s)) = .error fault ↔
      (s.unit ≤ fraction ∧ fault = .malformed) ∨
        (fraction < s.unit ∧ ¬ Cell.Fits (steps s whole fraction) ∧ fault = .overflow) := by
  by_cases h : s.unit ≤ fraction
  · simp [ofParts_of_le h, h, not_lt.mpr h, eq_comm]
  · rw [ofParts_of_lt (not_le.mp h), ofRaw_eq_error_iff]
    simp [h, not_le.mp h, eq_comm]

/-! ## There and back -/

/-- The steps of the parts are those of the number, with the sign of its whole part. -/
theorem steps_parts (a : Fixed s) : steps s a.integerPart a.fractionPart =
    if a.integerPart < 0 then -(a.raw.natAbs : ℤ) else a.raw.natAbs := by
  unfold steps
  rw [natAbs_integerPart, fractionPart_eq, Nat.div_add_mod']

theorem steps_parts_of_losesSign (h : a.LosesSign) :
    steps s a.integerPart a.fractionPart = -a.raw := by
  obtain ⟨hlow, hneg⟩ := h
  rw [steps_parts, if_neg (mt integerPart_neg_iff.mp (not_le.mpr hlow))]
  omega

theorem steps_parts_of_not_losesSign (h : ¬ a.LosesSign) :
    steps s a.integerPart a.fractionPart = a.raw := by
  have hunit := s.unit_pos
  have hside : a.integerPart < 0 ↔ a.raw < 0 := by
    rw [integerPart_neg_iff]
    unfold LosesSign at h
    omega
  rw [steps_parts]
  simp only [hside]
  split <;> omega

theorem parts_of_raw_eq (hlt : fraction < s.unit) (h : a.raw = steps s whole fraction) :
    a.integerPart = whole ∧ a.fractionPart = fraction ∧ ¬ a.LosesSign := by
  have hsize : a.raw.natAbs = whole.natAbs * s.unit + fraction := by rw [h, natAbs_steps]
  have hwhole : a.integerPart.natAbs = whole.natAbs := by
    rw [natAbs_integerPart, hsize, mul_comm, Nat.mul_add_div s.unit_pos, Nat.div_eq_of_lt hlt,
      add_zero]
  have hfraction : a.fractionPart = fraction := by
    rw [fractionPart_eq, hsize, Nat.mul_add_mod_self_right, Nat.mod_eq_of_lt hlt]
  by_cases hneg : whole < 0
  · have hraw : a.raw ≤ 0 := by
      rw [h, steps, if_pos hneg]
      omega
    have hside := integerPart_nonpos hraw
    have hbeyond : a.raw ≤ -(s.unit : ℤ) := integerPart_neg_iff.mp (by omega)
    exact ⟨by omega, hfraction, fun hloses => absurd hbeyond (not_le.mpr hloses.1)⟩
  · have hraw : 0 ≤ a.raw := by
      rw [h, steps, if_neg hneg]
      omega
    have hside := integerPart_nonneg hraw
    exact ⟨by omega, hfraction, fun hloses => absurd hloses.2 (not_lt.mpr hraw)⟩

/-- Every number but those that lose their sign is made of its parts, and of no others. -/
theorem ofParts_eq_ok_iff : ofParts whole fraction = .ok a ↔
    a.integerPart = whole ∧ a.fractionPart = fraction ∧ ¬ a.LosesSign := by
  refine ⟨?_, ?_⟩
  · intro h
    by_cases hlt : fraction < s.unit
    · rw [ofParts_of_lt hlt, ofRaw_eq_ok_iff] at h
      exact parts_of_raw_eq hlt h
    · rw [ofParts_of_le (not_lt.mp hlt)] at h
      cases h
  · rintro ⟨rfl, rfl, hkeeps⟩
    rw [ofParts_of_lt a.fractionPart_lt, ofRaw_eq_ok_iff, steps_parts_of_not_losesSign hkeeps]

/-- A number that loses its sign comes back on the other side of zero. -/
theorem exists_ofParts_of_losesSign (h : a.LosesSign) :
    ∃ b : Fixed s, ofParts a.integerPart a.fractionPart = .ok b ∧ b.raw = -a.raw := by
  have hfits : Cell.Fits (-a.raw) := by
    have hunit := s.fits_unit
    rw [Cell.fits_iff] at hunit ⊢
    obtain ⟨hlow, hneg⟩ := h
    omega
  refine ⟨⟨-a.raw, hfits⟩, ?_, rfl⟩
  rw [ofParts_of_lt a.fractionPart_lt, steps_parts_of_losesSign h, ofRaw_of_fits hfits]

end Fixed

/-- A number is made of its parts again, but one between minus one and zero comes back without its
sign. Two parts make the one number whose parts they are. They make none if the fraction is not
smaller than a whole, which is a malformed number, or if a cell does not hold their steps, which is
an overflow. -/
theorem a_number_is_made_of_its_parts (s : Scale) :
    (∀ a : Fixed s,
      if a.LosesSign then
        ∃ b : Fixed s, Fixed.ofParts a.integerPart a.fractionPart = .ok b ∧ b.raw = -a.raw
      else
        Fixed.ofParts a.integerPart a.fractionPart = .ok a) ∧
    ∀ (whole : ℤ) (fraction : ℕ),
      (∀ a : Fixed s, Fixed.ofParts whole fraction = .ok a ↔
        a.integerPart = whole ∧ a.fractionPart = fraction ∧ ¬ a.LosesSign) ∧
      ∀ fault, (Fixed.ofParts whole fraction : Except Fault (Fixed s)) = .error fault ↔
        (s.unit ≤ fraction ∧ fault = .malformed) ∨
          (fraction < s.unit ∧ ¬ Cell.Fits (Fixed.steps s whole fraction) ∧ fault = .overflow) := by
  refine ⟨?_, ?_⟩
  · intro a
    split
    · next hloses => exact Fixed.exists_ofParts_of_losesSign hloses
    · next hkeeps => exact Fixed.ofParts_eq_ok_iff.mpr ⟨rfl, rfl, hkeeps⟩
  · intro whole fraction
    exact ⟨fun a => Fixed.ofParts_eq_ok_iff, fun fault => Fixed.ofParts_eq_error_iff⟩

/-- A twentieth below zero comes back above it, and the least number comes back as it is. The
parts of the least number with 38 digits are too large for a number above zero, and so is one step
more below it, though in either case there is room for the wholes. A whole is no fraction. -/
theorem the_least_number_is_made_of_its_parts :
    (∃ b : Amount, Fixed.ofParts 0 500 = .ok b ∧ b.raw = 500) ∧
      Fixed.ofParts (-1) 70141183460469231731687303715884105728 = .ok (Fixed.least : Fixed 38) ∧
      (Fixed.ofParts 1 70141183460469231731687303715884105728 : Except Fault (Fixed 38)) =
        .error .overflow ∧
      (Fixed.ofParts (-1) 70141183460469231731687303715884105729 : Except Fault (Fixed 38)) =
        .error .overflow ∧
      (Fixed.ofParts 7 10000 : Except Fault Amount) = .error .malformed := by
  obtain ⟨hamount, hmalformed⟩ := a_number_is_made_of_its_parts 4
  obtain ⟨hback, hparts⟩ := a_number_is_made_of_its_parts 38
  have hlost := hamount ⟨-500, by decide⟩
  have hleast := hback Fixed.least
  rw [if_pos (by decide)] at hlost
  rw [if_neg (by decide)] at hleast
  exact ⟨hlost, hleast, ((hparts _ _).2 _).mpr (by decide), ((hparts _ _).2 _).mpr (by decide),
    ((hmalformed _ _).2 _).mpr (by decide)⟩

end Reckoner
