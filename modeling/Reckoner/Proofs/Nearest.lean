-- The laws of rounding. `nearestEven` cuts a quotient and then looks at what it cut
-- off; the laws say what comes out without a word about how: an integer that is no
-- further away than any other, and an even one where two are equally near.
import Reckoner.Proofs.Values

namespace Reckoner

/-! ## The nearest integer -/

/-- No integer is nearer to `x` than `r`, and if another one is as near, `r` is even. -/
def IsNearestEven (x : ℚ) (r : ℤ) : Prop := |x - r| ≤ 1 / 2 ∧ (|x - r| = 1 / 2 → Even r)

/-- A larger number has no smaller nearest integer. -/
theorem IsNearestEven.mono {x y : ℚ} {r q : ℤ} (hr : IsNearestEven x r)
    (hq : IsNearestEven y q) (hxy : x ≤ y) : r ≤ q := by
  obtain ⟨hrd, hre⟩ := hr
  obtain ⟨hqd, hqe⟩ := hq
  rw [abs_le] at hrd hqd
  by_contra hlt
  have hgap : (q : ℚ) + 1 ≤ r := by exact_mod_cast not_le.mp hlt
  -- Both are then halfway between `q` and `r`, which are neighbours and cannot both be even.
  have hx : |x - r| = 1 / 2 := by
    rw [abs_of_nonpos (by linarith)]
    linarith
  have hy : |y - q| = 1 / 2 := by
    rw [abs_of_nonneg (by linarith)]
    linarith
  have hnext : r = q + 1 := by
    have : (r : ℚ) = q + 1 := by linarith
    exact_mod_cast this
  have hr2 := hre hx
  have hq2 := hqe hy
  rw [hnext, Int.even_add_one] at hr2
  exact hr2 hq2

theorem IsNearestEven.unique {x : ℚ} {r q : ℤ} (hr : IsNearestEven x r)
    (hq : IsNearestEven x q) : r = q :=
  le_antisymm (hr.mono hq le_rfl) (hq.mono hr le_rfl)

/-- The same without a bound on the distance: it is compared with that of every integer. -/
def Nearest (x : ℚ) (r : ℤ) : Prop :=
  (∀ q : ℤ, |x - r| ≤ |x - q|) ∧ ∀ q : ℤ, q ≠ r → |x - q| = |x - r| → Even r

/-- The neighbour on the side of `x` is as far from `x` as the distance to `r` is from one. -/
theorem exists_neighbour (x : ℚ) (r : ℤ) : ∃ q, q ≠ r ∧ |x - (q : ℤ)| = |1 - (|x - r|)| := by
  rcases le_total (r : ℚ) x with hle | hle
  · refine ⟨r + 1, by omega, ?_⟩
    rw [abs_of_nonneg (sub_nonneg.mpr hle), abs_sub_comm]
    push_cast
    congr 1
    ring
  · refine ⟨r - 1, by omega, ?_⟩
    rw [abs_of_nonpos (sub_nonpos.mpr hle)]
    push_cast
    congr 1
    ring

theorem half_le_of_ne {x : ℚ} {r q : ℤ} (hr : |x - r| ≤ 1 / 2) (hne : q ≠ r) :
    1 / 2 ≤ |x - q| := by
  have hgap : (1 : ℚ) ≤ |(q : ℚ) - r| := by
    exact_mod_cast Int.one_le_abs (sub_ne_zero.mpr hne)
  have hsum : |(q : ℚ) - r| ≤ |x - q| + |x - r| := by
    rw [abs_sub_comm x q]
    exact abs_sub_le _ _ _
  linarith

theorem nearest_iff {x : ℚ} {r : ℤ} : Nearest x r ↔ IsNearestEven x r := by
  refine ⟨?_, ?_⟩
  · rintro ⟨hnear, htie⟩
    -- Beyond a half the neighbour would be nearer, and at a half it is as near.
    obtain ⟨q, hne, hq⟩ := exists_neighbour x r
    refine ⟨?_, ?_⟩
    · have hle := hnear q
      rw [hq, le_abs] at hle
      rcases hle with hle | hle
      · linarith
      · linarith
    · intro hhalf
      apply htie q hne
      rw [hq, hhalf]
      norm_num
  · rintro ⟨hnear, heven⟩
    refine ⟨?_, ?_⟩
    · intro q
      by_cases hq : q = r
      · rw [hq]
      · exact hnear.trans (half_le_of_ne hnear hq)
    · intro q hq htie
      apply heven
      exact le_antisymm hnear (htie ▸ half_le_of_ne hnear hq)

theorem isNearestEven_intCast (n : ℤ) : IsNearestEven n n := by
  refine ⟨?_, ?_⟩
  · simp
  · intro h
    norm_num at h

/-- Rounding never passes an integer. -/
theorem IsNearestEven.size_le {x : ℚ} {r m : ℤ} (hr : IsNearestEven x r) (hx : |x| ≤ m) :
    |r| ≤ m := by
  obtain ⟨hlow, hhigh⟩ := abs_le.mp hx
  rw [abs_le]
  refine ⟨?_, ?_⟩
  · apply (isNearestEven_intCast (-m)).mono hr
    push_cast
    exact hlow
  · exact hr.mono (isNearestEven_intCast m) hhigh

/-- What is cut off a quotient, with the sign of the upper number. -/
theorem tmod_range (n : ℤ) {d : ℕ} (hd : 0 < d) :
    (n < 0 → -(d : ℤ) < n.tmod d ∧ n.tmod d ≤ 0) ∧
      (0 ≤ n → 0 ≤ n.tmod d ∧ n.tmod d < d) := by
  have hd' : (0 : ℤ) < d := by exact_mod_cast hd
  refine ⟨?_, ?_⟩
  · intro hn
    have h0 := Int.tmod_nonneg (a := -n) d (by omega)
    have h1 := Int.tmod_lt_of_pos (-n) hd'
    rw [Int.neg_tmod] at h0 h1
    omega
  · intro hn
    exact ⟨Int.tmod_nonneg d hn, Int.tmod_lt_of_pos n hd'⟩

/-- The distance between a ratio and what it is rounded to, without a fraction. -/
theorem nearestEven_near (n : ℤ) {d : ℕ} (hd : 0 < d) :
    2 * (n - nearestEven n d * d).natAbs ≤ d ∧
      (2 * (n - nearestEven n d * d).natAbs = d → Even (nearestEven n d)) := by
  obtain ⟨hneg, hpos⟩ := tmod_range n hd
  have hsum : n = n.tdiv d * d + n.tmod d := (Int.tdiv_mul_add_tmod n d).symm
  unfold nearestEven
  simp only
  generalize n.tdiv d = q at hsum ⊢
  generalize n.tmod d = m at hneg hpos hsum ⊢
  rw [Int.even_iff]
  split
  · next haway =>
    split
    · next hn =>
      have hdist : n - (q + -1) * d = m + d := by rw [hsum]; ring
      have := hneg hn
      rw [hdist]
      omega
    · next hn =>
      have hdist : n - (q + 1) * d = m - d := by rw [hsum]; ring
      have := hpos (by omega)
      rw [hdist]
      omega
  · next hstay =>
    have hdist : n - q * d = m := by rw [hsum]; ring
    rw [hdist]
    omega

/-- `nearestEven` gives the nearest integer, and the even one of two. -/
theorem isNearestEven_nearestEven (n : ℤ) {d : ℕ} (hd : 0 < d) :
    IsNearestEven (n / d) (nearestEven n d) := by
  obtain ⟨hle, heven⟩ := nearestEven_near n hd
  generalize nearestEven n d = r at hle heven ⊢
  have hd' : (0 : ℚ) < d := by exact_mod_cast hd
  have hdist : |(n : ℚ) / d - r| = (n - r * d).natAbs / d := by
    have hsub : (n : ℚ) / d - r = (n - r * d) / d := by field_simp
    rw [hsub, abs_div, abs_of_pos hd', Nat.cast_natAbs]
    push_cast
    rfl
  rw [IsNearestEven, hdist]
  refine ⟨?_, ?_⟩
  · rw [div_le_div_iff₀ hd' (by norm_num)]
    have : (2 * (n - r * d).natAbs : ℚ) ≤ d := by exact_mod_cast hle
    linarith
  · intro hhalf
    rw [div_eq_div_iff hd'.ne' (by norm_num)] at hhalf
    apply heven
    have : (2 * (n - r * d).natAbs : ℚ) = d := by linarith
    exact_mod_cast this

theorem abs_nearestEven_le (n : ℤ) {d : ℕ} (hd : 0 < d) : |nearestEven n d| ≤ |n| := by
  have hd' : (1 : ℚ) ≤ d := by exact_mod_cast hd
  apply (isNearestEven_nearestEven n hd).size_le
  rw [abs_div, abs_of_pos (by linarith : (0 : ℚ) < d), Int.cast_abs]
  exact div_le_self (abs_nonneg _) hd'

/-- Rounding a whole number of units changes nothing. -/
theorem nearestEven_mul_self (q : ℤ) {d : ℕ} (hd : 0 < d) : nearestEven (q * d) d = q := by
  have hd' : (d : ℚ) ≠ 0 := by exact_mod_cast hd.ne'
  apply (isNearestEven_nearestEven (q * d) hd).unique
  push_cast
  rw [mul_div_cancel_right₀ _ hd']
  exact isNearestEven_intCast q

/-! ## A number of digits -/

/-- `y` has at most `places` fractional digits and is the nearest such number to `x`. Of
two that are equally near it is the one whose last digit is even. -/
def RoundsTo (places : ℕ) (x y : ℚ) : Prop :=
  ∃ r : ℤ, IsNearestEven (x * 10 ^ places) r ∧ y = r / 10 ^ places

theorem RoundsTo.unique {places : ℕ} {x y z : ℚ} (hy : RoundsTo places x y)
    (hz : RoundsTo places x z) : y = z := by
  obtain ⟨r, hr, rfl⟩ := hy
  obtain ⟨q, hq, rfl⟩ := hz
  rw [hr.unique hq]

/-- A number with few enough digits is rounded to itself. -/
theorem roundsTo_self {places : ℕ} {x : ℚ} {r : ℤ} (h : x * 10 ^ places = r) :
    RoundsTo places x x := by
  refine ⟨r, h ▸ isNearestEven_intCast r, ?_⟩
  rw [← h, mul_div_cancel_right₀ _ (by positivity)]

/-- A bound in wholes holds for what a number is rounded to if it holds for the number. -/
theorem RoundsTo.size_le {places bound : ℕ} {x y : ℚ} (h : RoundsTo places x y)
    (hx : |x| ≤ bound) : |y| ≤ bound := by
  obtain ⟨r, hr, rfl⟩ := h
  have hten : (0 : ℚ) < 10 ^ places := by positivity
  have hr' : |r| ≤ (bound * 10 ^ places : ℤ) := by
    apply hr.size_le
    rw [abs_mul, abs_of_pos hten]
    push_cast
    exact mul_le_mul_of_nonneg_right hx hten.le
  rw [abs_div, abs_of_pos hten, div_le_iff₀ hten]
  exact_mod_cast hr'

/-! ## Ratios -/

/-- The least integer of a cell is a power of two, and so no multiple of ten. -/
theorem Cell.ne_least_of_ten_dvd {n : ℤ} (h : 10 ∣ n) : n ≠ least := by
  rintro rfl
  exact absurd h (by decide)

variable {s : Scale} {places : ℕ} {v : Ratio}

namespace Ratio

theorem roundTo_eq_ok_iff {a : Fixed s} : v.roundTo s places = .ok a ↔
    places ≤ s.val ∧ Cell.Fits (v.numer * 10 ^ places) ∧
      a.raw = nearestEven (v.numer * 10 ^ places) v.denom * 10 ^ (s.val - places) := by
  unfold roundTo
  simp only [Int.pow_eq]
  split
  · next hlt => simp [not_le.mpr hlt]
  · next hle =>
    split
    · next hfits =>
      rw [Fixed.ofRaw_eq_ok_iff]
      simp [not_lt.mp hle, hfits]
    · next hfits => simp [hfits]

theorem roundTo_eq_error {fault : Fault} (hplaces : places ≤ s.val)
    (h : v.roundTo s places = .error fault) : fault.isRange = true := by
  unfold roundTo at h
  simp only [not_lt.mpr hplaces, if_false] at h
  split at h
  · rw [← (Fixed.ofRaw_eq_error_iff.mp h).2]
    exact Fault.isRange_ofSide _
  · rw [← Except.error.inj h]
    exact Fault.isRange_ofSide _

theorem isNearestEven_numer (v : Ratio) (places : ℕ) :
    IsNearestEven (v.value * 10 ^ places) (nearestEven (v.numer * 10 ^ places) v.denom) := by
  have h := isNearestEven_nearestEven (v.numer * 10 ^ places) v.denom_pos
  have hvalue : ((v.numer * 10 ^ places : ℤ) : ℚ) / v.denom = v.value * 10 ^ places := by
    rw [value]
    push_cast
    ring
  rwa [hvalue] at h

/-- A rounded ratio is the ratio rounded half to even. -/
theorem roundsTo_of_roundTo {a : Fixed s} (h : v.roundTo s places = .ok a) :
    RoundsTo places v.value a.value := by
  obtain ⟨hplaces, -, hraw⟩ := roundTo_eq_ok_iff.mp h
  refine ⟨_, v.isNearestEven_numer places, ?_⟩
  rw [Fixed.value, hraw, Scale.unit_eq]
  push_cast
  rw [← Nat.sub_add_cancel hplaces, pow_add, Nat.add_sub_cancel]
  field_simp

theorem dvd_of_roundTo {a : Fixed s} (h : v.roundTo s places = .ok a) :
    10 ^ (s.val - places) ∣ a.raw := by
  rw [(roundTo_eq_ok_iff.mp h).2.2]
  exact Dvd.intro_left _ rfl

/-- The least integer of a cell, which has no counterpart above zero, comes only from
itself. It is no multiple of ten, and so it needs a scale without digits. -/
theorem raw_eq_least_of_roundTo {a : Fixed s} (h : v.roundTo s places = .ok a)
    (ha : a.raw = Cell.least) : s.val = 0 ∧ v.numer = Cell.least := by
  have hten (n : ℤ) {k : ℕ} (hk : k ≠ 0) : n * 10 ^ k ≠ Cell.least :=
    Cell.ne_least_of_ten_dvd (dvd_mul_of_dvd_right (dvd_pow_self 10 hk) n)
  obtain ⟨hplaces, hfits, hraw⟩ := roundTo_eq_ok_iff.mp h
  have hs : s.val - places = 0 := by
    by_contra hne
    exact hten _ hne (hraw ▸ ha)
  rw [hs, pow_zero, mul_one, ha] at hraw
  have hle := abs_nearestEven_le (v.numer * 10 ^ places) v.denom_pos
  have hnumer : v.numer * 10 ^ places = Cell.least := by
    rw [← hraw, Int.abs_eq_natAbs, Int.abs_eq_natAbs] at hle
    rw [Cell.fits_iff] at hfits
    have hleast := Cell.least_eq
    omega
  have hzero : places = 0 := by
    by_contra hne
    exact hten _ hne hnumer
  rw [hzero, pow_zero, mul_one] at hnumer
  exact ⟨by omega, hnumer⟩

/-! ## Results -/

theorem toAmount_eq_ok {settings : Settings} {a : Amount} (h : v.toAmount settings = .ok a) :
    |v.value| ≤ settings.resultBound ∧ v.roundTo amountScale settings.fractionDigits = .ok a := by
  unfold toAmount at h
  split at h
  · cases h
  · next hbound =>
    rw [v.exceeds_iff, not_lt] at hbound
    exact ⟨hbound, Except.mapError_eq_ok_iff.mp h⟩

/-- A result has a fault when it is too large, or else when a cell is too small for it. -/
theorem toAmount_eq_error {settings : Settings} {fault : EvaluationFault}
    (hdigits : settings.fractionDigits ≤ 4) (h : v.toAmount settings = .error fault) :
    (settings.resultBound < |v.value| ∧ fault = .resultOutOfRange settings.resultBound) ∨
      (|v.value| ≤ settings.resultBound ∧ fault = .overflow ∧
        ∃ cause, v.roundTo amountScale settings.fractionDigits = .error cause) := by
  unfold toAmount at h
  split at h
  · next hbound =>
    rw [v.exceeds_iff] at hbound
    exact Or.inl ⟨hbound, (Except.error.inj h).symm⟩
  · next hbound =>
    rw [v.exceeds_iff, not_lt] at hbound
    obtain ⟨cause, hcause, rfl⟩ := Except.mapError_eq_error_iff.mp h
    refine Or.inr ⟨hbound, ?_, cause, hcause⟩
    have hrange := roundTo_eq_error hdigits hcause
    cases cause <;> first | rfl | exact absurd hrange (by decide)

end Ratio

end Reckoner
