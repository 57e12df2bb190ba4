-- The laws of traps. Arithmetic looks at the size of a sum, a product and a negation, and at
-- no other. Here it is written once more with a trap wherever a cell might not hold a number
-- or a divisor might be zero. No trap is ever reached, and the results are the same.
import Reckoner.Number.Text
import Reckoner.Number.Interchange
import Reckoner.Proofs.Nearest
import Reckoner.Proofs.Parts

namespace Reckoner

/-! ## Endings -/

/-- How a computation on cells ends. -/
inductive Ending (α : Type)
  | value (a : α)
  | fault (fault : Fault)
  | trap
  deriving DecidableEq

namespace Ending

variable {α β : Type}

/-- The first fault or trap ends the computation. -/
def andThen (x : Ending α) (f : α → Ending β) : Ending β :=
  match x with
  | value a => f a
  | fault e => fault e
  | trap => trap

instance : Monad Ending where
  pure := value
  bind := andThen

def ofExcept : Except Fault α → Ending α
  | .ok a => value a
  | .error e => fault e

@[simp]
theorem value_bind (a : α) (f : α → Ending β) : (value a >>= f) = f a := rfl

theorem ofExcept_map_eq_value_iff {f : α → β} {x : Except Fault α} {b : β} :
    ofExcept (x.map f) = value b ↔ ∃ a, x = .ok a ∧ f a = b := by
  cases x <;> simp [ofExcept, Except.map]

end Ending

/-! ## Cells -/

namespace Cell

/-- What a signed cell holds of `n`. -/
def signed (n : ℤ) : Ending ℤ := if Fits n then .value n else .trap

/-- What an unsigned cell holds of `n`. -/
def unsigned (n : ℕ) : Ending ℕ := if FitsUnsigned n then .value n else .trap

/-- A result that is looked at before it is kept. -/
def checked (n : ℤ) (fault : Fault) : Ending ℤ := if Fits n then .value n else .fault fault

def quotient (n d : ℤ) : Ending ℤ := if d = 0 then .trap else signed (n.tdiv d)

/-- A remainder comes with its quotient, and traps where that does. -/
def remainder (n d : ℤ) : Ending ℤ := do
  let _ ← quotient n d
  signed (n.tmod d)

def unsignedQuotient (n d : ℕ) : Ending ℕ := if d = 0 then .trap else unsigned (n / d)

def unsignedRemainder (n d : ℕ) : Ending ℕ := if d = 0 then .trap else unsigned (n % d)

/-- A signed number in an unsigned cell. -/
def toUnsigned (n : ℤ) : Ending ℕ := if 0 ≤ n then unsigned n.toNat else .trap

/-- An unsigned number in a signed cell. -/
def toSigned (n : ℕ) : Ending ℤ := signed n

/-- A difference of two counts of digits. -/
def difference (m n : ℕ) : Ending ℕ := if n ≤ m then .value (m - n) else .trap

/-- A count of digits in a cell of eight bits. -/
def byte (n : ℕ) : Ending ℕ := if n < 2 ^ 8 then .value n else .trap

variable {n d : ℤ} {fault : Fault}

theorem signed_of_fits (h : Fits n) : signed n = .value n := if_pos h

theorem checked_of_fits (h : Fits n) : checked n fault = .value n := if_pos h

theorem checked_of_not_fits (h : ¬ Fits n) : checked n fault = .fault fault := if_neg h

theorem unsigned_of_fits {n : ℕ} (h : FitsUnsigned n) : unsigned n = .value n := if_pos h

/-- What lies between zero and a number of a cell fits the cell. -/
theorem Fits.of_between {m : ℤ} (h : Fits n) (hneg : n < 0 → n ≤ m ∧ m ≤ 0)
    (hpos : 0 ≤ n → 0 ≤ m ∧ m ≤ n) : Fits m := by
  rw [fits_iff] at h ⊢
  omega

/-- Only minus one would turn the least number into one that no cell holds. -/
theorem Fits.tdiv (h : Fits n) (hd : 0 < d) : Fits (n.tdiv d) := by
  have hsize : (n.tdiv d).natAbs ≤ n.natAbs := by
    rw [Int.natAbs_tdiv]
    exact Nat.div_le_self _ _
  apply h.of_between
  · intro hn
    have hsign : 0 ≤ (-n).tdiv d := Int.tdiv_nonneg (by omega) hd.le
    rw [Int.neg_tdiv] at hsign
    omega
  · intro hn
    have hsign : 0 ≤ n.tdiv d := Int.tdiv_nonneg hn hd.le
    omega

theorem Fits.tmod (d : ℤ) (h : Fits n) : Fits (n.tmod d) := by
  have hsize : (n.tmod d).natAbs ≤ n.natAbs := by
    rw [Int.natAbs_tmod]
    exact Nat.mod_le _ _
  apply h.of_between
  · intro hn
    have hsign : 0 ≤ (-n).tmod d := Int.tmod_nonneg d (by omega)
    rw [Int.neg_tmod] at hsign
    omega
  · intro hn
    have hsign : 0 ≤ n.tmod d := Int.tmod_nonneg d hn
    omega

theorem quotient_eq (h : Fits n) (hd : 0 < d) : quotient n d = .value (n.tdiv d) := by
  rw [quotient, if_neg hd.ne', signed_of_fits (h.tdiv hd)]

theorem remainder_eq (h : Fits n) (hd : 0 < d) : remainder n d = .value (n.tmod d) := by
  rw [remainder, quotient_eq h hd, Ending.value_bind, signed_of_fits (h.tmod d)]

theorem unsignedQuotient_eq {n d : ℕ} (h : FitsUnsigned n) (hd : 0 < d) :
    unsignedQuotient n d = .value (n / d) := by
  rw [unsignedQuotient, if_neg hd.ne', unsigned_of_fits (lt_of_le_of_lt (Nat.div_le_self n d) h)]

theorem unsignedRemainder_eq {n d : ℕ} (h : FitsUnsigned n) (hd : 0 < d) :
    unsignedRemainder n d = .value (n % d) := by
  rw [unsignedRemainder, if_neg hd.ne', unsigned_of_fits (lt_of_le_of_lt (Nat.mod_le n d) h)]

theorem toUnsigned_natCast {n : ℕ} (h : Fits n) : toUnsigned n = .value n := by
  have hfits : FitsUnsigned n := by simpa using h.natAbs
  rw [toUnsigned, if_pos (Int.natCast_nonneg n), Int.toNat_natCast, unsigned_of_fits hfits]

theorem difference_eq {m n : ℕ} (h : n ≤ m) : difference m n = .value (m - n) := if_pos h

theorem byte_eq {n : ℕ} (h : n < 2 ^ 8) : byte n = .value n := if_pos h

theorem not_fits_mul (h : ¬ Fits n) (hd : 0 < d) : ¬ Fits (n * d) := by
  rw [fits_iff] at h ⊢
  by_cases hn : 0 ≤ n
  · have := le_mul_of_one_le_right hn (Int.add_one_le_of_lt hd)
    omega
  · have := mul_le_of_one_le_right (not_le.mp hn).le (Int.add_one_le_of_lt hd)
    omega

end Cell

theorem Fixed.map_raw_ofRaw {s : Scale} (n : ℤ) (fault : Fault) :
    Ending.ofExcept ((ofRaw n fault : Except Fault (Fixed s)).map Fixed.raw) =
      Cell.checked n fault := by
  by_cases h : Cell.Fits n
  · rw [ofRaw_of_fits h, Cell.checked_of_fits h]
    rfl
  · rw [ofRaw_of_not_fits h, Cell.checked_of_not_fits h]
    rfl

namespace Trapping

variable {s : Scale}

/-! ## Powers of ten -/

/-- Ten as a factor, `k` times. -/
def powerOfTen : ℕ → Ending ℤ
  | 0 => .value 1
  | k + 1 => do Cell.signed ((← powerOfTen k) * 10)

def unit (s : Scale) : Ending ℤ := powerOfTen s.val

theorem fits_ten_pow {k : ℕ} (hk : k ≤ 38) : Cell.Fits (10 ^ k) := by
  have h : (10 : ℤ) ^ k ≤ 10 ^ 38 := pow_le_pow_right₀ (by norm_num) hk
  have hpos : (0 : ℤ) < 10 ^ k := by positivity
  rw [Cell.fits_iff]
  omega

theorem powerOfTen_eq {k : ℕ} (hk : k ≤ 38) : powerOfTen k = .value (10 ^ k) := by
  induction k with
  | zero => rfl
  | succ k ih =>
    rw [powerOfTen, ih (by omega), Ending.value_bind, ← pow_succ,
      Cell.signed_of_fits (fits_ten_pow hk)]

theorem unit_pos (s : Scale) : (0 : ℤ) < s.unit := by exact_mod_cast s.unit_pos

theorem unit_eq (s : Scale) : unit s = .value s.unit := by
  rw [unit, powerOfTen_eq (by omega), Scale.unit_eq]
  push_cast
  rfl

/-! ## Ratios -/

/-- The two cells of a ratio, with nothing said about them. -/
structure Pair where
  numer : ℤ
  denom : ℤ
  deriving DecidableEq

def pair (v : Ratio) : Pair := ⟨v.numer, v.denom⟩

def ofQuotient (numer denom : ℤ) : Ending Pair :=
  if denom = 0 then
    .fault .divisionByZero
  else if denom < 0 then do
    let upper ← Cell.checked (-numer) .overflow
    let lower ← Cell.checked (-denom) .overflow
    return ⟨upper, lower⟩
  else
    return ⟨numer, denom⟩

def ofFixed (a : Fixed s) : Ending Pair := do return ⟨a.raw, ← unit s⟩

def mul (a b : Fixed s) : Ending Pair := do
  let product ← Cell.checked (a.raw * b.raw) (.ofSide (a.isNegative != b.isNegative))
  let step ← unit s
  let denom ← Cell.checked (step * step) .overflow
  ofQuotient product denom

def div (a b : Fixed s) : Ending Pair :=
  if b.isZero then .fault .divisionByZero else ofQuotient a.raw b.raw

theorem ofQuotient_eq {n d : ℤ} (hn : Cell.Fits n) (hd : Cell.Fits d) :
    ofQuotient n d = .ofExcept ((Ratio.ofQuotient n d).map pair) := by
  unfold ofQuotient Ratio.ofQuotient
  by_cases hzero : d = 0
  · rw [if_pos hzero, dif_pos hzero]
    rfl
  rw [if_neg hzero, dif_neg hzero]
  by_cases hneg : d < 0
  · have hsize : ((d.natAbs : ℕ) : ℤ) = -d := by omega
    simp only [if_pos hneg, hsize]
    by_cases hupper : Cell.Fits (-n)
    · by_cases hlower : Cell.Fits (-d)
      · rw [Cell.checked_of_fits hupper, Cell.checked_of_fits hlower, dif_pos ⟨hupper, hlower⟩]
        exact congrArg (fun lower => Ending.value (Pair.mk (-n) lower)) hsize.symm
      · rw [Cell.checked_of_fits hupper, Cell.checked_of_not_fits hlower,
          dif_neg fun h => hlower h.2]
        rfl
    · rw [Cell.checked_of_not_fits hupper, dif_neg fun h => hupper h.1]
      rfl
  · have hsize : ((d.natAbs : ℕ) : ℤ) = d := by omega
    simp only [if_neg hneg, hsize]
    rw [dif_pos ⟨hn, hd⟩]
    exact congrArg (fun lower => Ending.value (Pair.mk n lower)) hsize.symm

theorem ofFixed_eq (a : Fixed s) : ofFixed a = .value (pair a.toRatio) := by
  rw [ofFixed, unit_eq]
  rfl

theorem mul_eq (a b : Fixed s) : mul a b = .ofExcept ((a.mul b).map pair) := by
  unfold mul Fixed.mul
  by_cases hproduct : Cell.Fits (a.raw * b.raw)
  · rw [Cell.checked_of_fits hproduct, if_pos hproduct, unit_eq]
    simp only [Ending.value_bind]
    by_cases hdenom : Cell.Fits (s.unit * s.unit)
    · rw [Cell.checked_of_fits hdenom, Ending.value_bind, ofQuotient_eq hproduct hdenom]
    · -- The scale has too many digits for any product of two of its numbers.
      rw [Cell.checked_of_not_fits hdenom]
      have hpos : (0 : ℤ) < s.unit * s.unit := mul_pos (unit_pos s) (unit_pos s)
      cases hquotient : Ratio.ofQuotient (a.raw * b.raw) (s.unit * s.unit) with
      | ok v =>
        have hfits := v.denom_fits
        rw [(Ratio.ofQuotient_eq_ok hquotient).2, Int.natAbs_of_nonneg hpos.le] at hfits
        exact absurd hfits hdenom
      | error fault =>
        rw [Ratio.ofQuotient_eq_error hquotient hpos.ne']
        rfl
  · rw [Cell.checked_of_not_fits hproduct, if_neg hproduct]
    rfl

theorem div_eq (a b : Fixed s) : div a b = .ofExcept ((a.div b).map pair) := by
  unfold div Fixed.div
  split
  · rfl
  · exact ofQuotient_eq a.fits b.fits

/-- The pairs that are made in one of the four ways there are. -/
inductive Obtainable : Pair → Prop
  | quotient {n d : ℤ} {p : Pair} (hn : Cell.Fits n) (hd : Cell.Fits d)
      (h : ofQuotient n d = .value p) : Obtainable p
  | number {s : Scale} {p : Pair} (a : Fixed s) (h : ofFixed a = .value p) : Obtainable p
  | product {s : Scale} {p : Pair} (a b : Fixed s) (h : mul a b = .value p) : Obtainable p
  | ratio {s : Scale} {p : Pair} (a b : Fixed s) (h : div a b = .value p) : Obtainable p

/-- They are the cells of ratios, so the lower one is above zero. -/
theorem Obtainable.exists_ratio {p : Pair} (h : Obtainable p) : ∃ v : Ratio, pair v = p := by
  cases h with
  | quotient hn hd h =>
    rw [ofQuotient_eq hn hd] at h
    obtain ⟨v, -, hv⟩ := Ending.ofExcept_map_eq_value_iff.mp h
    exact ⟨v, hv⟩
  | number a h =>
    rw [ofFixed_eq] at h
    exact ⟨a.toRatio, Ending.value.inj h⟩
  | product a b h =>
    rw [mul_eq] at h
    obtain ⟨v, -, hv⟩ := Ending.ofExcept_map_eq_value_iff.mp h
    exact ⟨v, hv⟩
  | ratio a b h =>
    rw [div_eq] at h
    obtain ⟨v, -, hv⟩ := Ending.ofExcept_map_eq_value_iff.mp h
    exact ⟨v, hv⟩

/-! ## Rounding -/

def nearestEven (outside : Fault) (n d : ℤ) : Ending ℤ := do
  let quotient ← Cell.quotient n d
  let rest ← Cell.remainder n d
  let twice ← Cell.unsigned (rest.natAbs * 2)
  let parity ← Cell.remainder quotient 2
  if d.natAbs < twice ∨ twice = d.natAbs ∧ parity ≠ 0 then
    Cell.checked (quotient + if n < 0 then -1 else 1) outside
  else
    return quotient

def roundTo (s : Scale) (places : ℕ) (p : Pair) : Ending ℤ :=
  if s.val < places then
    .fault .precisionLoss
  else do
    let outside := Fault.ofSide (p.numer < 0)
    let scaled ← Cell.checked (p.numer * (← powerOfTen places)) outside
    let rounded ← nearestEven outside scaled p.denom
    Cell.checked (rounded * (← powerOfTen (← Cell.difference s.val places))) outside

/-- Twice a remainder fits where a sign takes no room. -/
theorem fitsUnsigned_twice (n : ℤ) {d : ℕ} (hd : 0 < d) (hfits : Cell.Fits d) :
    Cell.FitsUnsigned ((n.tmod d).natAbs * 2) := by
  obtain ⟨hneg, hpos⟩ := tmod_range n hd
  rw [Cell.fits_iff] at hfits
  simp only [Cell.FitsUnsigned, Nat.pow_eq]
  omega

theorem nearestEven_eq {n : ℤ} {d : ℕ} (outside : Fault) (hn : Cell.Fits n) (hd : 0 < d)
    (hfits : Cell.Fits d) :
    nearestEven outside n d = Cell.checked (Reckoner.nearestEven n d) outside := by
  have hd' : (0 : ℤ) < d := by exact_mod_cast hd
  have hquotient := hn.tdiv hd'
  have hparity : (n.tdiv d).tmod 2 ≠ 0 ↔ n.tdiv d % 2 ≠ 0 := by
    rw [ne_eq, ← Int.dvd_iff_tmod_eq_zero, Int.dvd_iff_emod_eq_zero]
  unfold nearestEven Reckoner.nearestEven
  rw [Cell.quotient_eq hn hd', Cell.remainder_eq hn hd']
  simp only [Ending.value_bind, Cell.unsigned_of_fits (fitsUnsigned_twice n hd hfits),
    Cell.remainder_eq hquotient (by norm_num : (0 : ℤ) < 2), hparity, Int.natAbs_natCast,
    mul_comm 2]
  by_cases haway : d < (n.tmod d).natAbs * 2 ∨ (n.tmod d).natAbs * 2 = d ∧ n.tdiv d % 2 ≠ 0
  · rw [if_pos haway, if_pos haway]
  · rw [if_neg haway, if_neg haway, Cell.checked_of_fits hquotient]
    rfl

theorem roundTo_eq (s : Scale) (places : ℕ) (v : Ratio) :
    roundTo s places (pair v) = .ofExcept ((v.roundTo s places).map Fixed.raw) := by
  unfold roundTo Ratio.roundTo
  dsimp only [pair, Int.pow_eq]
  by_cases hplaces : s.val < places
  · rw [if_pos hplaces, if_pos hplaces]
    rfl
  have hle := not_lt.mp hplaces
  rw [if_neg hplaces, if_neg hplaces, powerOfTen_eq (by omega)]
  simp only [Ending.value_bind]
  change _ = Ending.ofExcept (Except.map _ (if _ then Fixed.ofRaw _ (Fault.ofSide _) else _))
  by_cases hscaled : Cell.Fits (v.numer * 10 ^ places)
  · rw [Cell.checked_of_fits hscaled, if_pos hscaled, Ending.value_bind,
      nearestEven_eq _ hscaled v.denom_pos v.denom_fits, Fixed.map_raw_ofRaw]
    by_cases hrounded : Cell.Fits (Reckoner.nearestEven (v.numer * 10 ^ places) v.denom)
    · rw [Cell.checked_of_fits hrounded, Ending.value_bind, Cell.difference_eq hle,
        Ending.value_bind, powerOfTen_eq (by omega), Ending.value_bind]
      rfl
    · rw [Cell.checked_of_not_fits hrounded,
        Cell.checked_of_not_fits (Cell.not_fits_mul hrounded (by positivity))]
      rfl
  · rw [Cell.checked_of_not_fits hscaled, if_neg hscaled]
    rfl

/-! ## Fixed-point numbers -/

def integerPart (a : Fixed s) : Ending ℤ := do Cell.quotient a.raw (← unit s)

def fractionPart (a : Fixed s) : Ending ℕ := do
  return (← Cell.remainder a.raw (← unit s)).natAbs

def exceeds (bound : ℕ) (a : Fixed s) : Ending Bool := do
  let limit := bound * (← Cell.toUnsigned (← unit s))
  return decide (Cell.FitsUnsigned limit) && decide (limit < a.raw.natAbs)

def ofParts (s : Scale) (whole : ℤ) (fraction : ℕ) : Ending ℤ := do
  if (← Cell.toUnsigned (← unit s)) ≤ fraction then
    .fault .malformed
  else
    let base ← Cell.checked (whole * (← unit s)) .overflow
    let steps ← Cell.toSigned fraction
    let steps ← if whole < 0 then Cell.signed (-steps) else .value steps
    Cell.checked (base + steps) .overflow

def displayChars (a : Fixed s) : Ending (List Char) := do
  let whole ← integerPart a
  let fraction ← fractionPart a
  return if s.val = 0 then
      Digits.ofInt whole
    else
      (if a.raw < 0 ∧ whole = 0 then ['-', '0'] else Digits.ofInt whole) ++
        '.' :: Digits.padded s.val fraction

def plainChars (point : Char) (a : Fixed s) : Ending (List Char) := do
  let step ← Cell.toUnsigned (← unit s)
  let whole ← Cell.unsignedQuotient a.raw.natAbs step
  let fraction ← Cell.unsignedRemainder a.raw.natAbs step
  return (if a.raw < 0 then ['-'] else []) ++ Digits.ofNat whole ++
    (if fraction = 0 then [] else point :: Digits.trimZeros (Digits.padded s.val fraction))

def ofInterchange (s : Scale) (d : Interchange) : Ending ℤ :=
  if s.val < d.scale then do
    let surplus ← powerOfTen (← Cell.byte (← Cell.difference d.scale s.val))
    if (← Cell.remainder d.mantissa surplus) = 0 then
      Cell.quotient d.mantissa surplus
    else
      .fault .precisionLoss
  else do
    let missing ← powerOfTen (← Cell.byte (← Cell.difference s.val d.scale))
    Cell.checked (d.mantissa * missing) .overflow

theorem integerPart_eq (a : Fixed s) : integerPart a = .value a.integerPart := by
  rw [integerPart, unit_eq, Ending.value_bind, Cell.quotient_eq a.fits (unit_pos s)]
  rfl

theorem fractionPart_eq (a : Fixed s) : fractionPart a = .value a.fractionPart := by
  rw [fractionPart, unit_eq, Ending.value_bind, Cell.remainder_eq a.fits (unit_pos s)]
  rfl

theorem exceeds_eq (bound : ℕ) (a : Fixed s) : exceeds bound a = .value (a.exceeds bound) := by
  rw [exceeds, unit_eq, Ending.value_bind, Cell.toUnsigned_natCast s.fits_unit]
  rfl

theorem displayChars_eq (a : Fixed s) : displayChars a = .value a.displayChars := by
  rw [displayChars, integerPart_eq, fractionPart_eq]
  rfl

theorem plainChars_eq (point : Char) (a : Fixed s) :
    plainChars point a = .value (a.plainChars point) := by
  rw [plainChars, unit_eq, Ending.value_bind, Cell.toUnsigned_natCast s.fits_unit,
    Ending.value_bind, Cell.unsignedQuotient_eq a.fits.natAbs s.unit_pos,
    Cell.unsignedRemainder_eq a.fits.natAbs s.unit_pos]
  rfl

/-- A fraction is shorter than a whole, so it fits with either sign. -/
theorem ofParts_eq (s : Scale) (whole : ℤ) (fraction : ℕ) : ofParts s whole fraction =
    .ofExcept ((Fixed.ofParts whole fraction : Except Fault (Fixed s)).map Fixed.raw) := by
  unfold ofParts
  rw [unit_eq, Ending.value_bind, Cell.toUnsigned_natCast s.fits_unit, Ending.value_bind]
  by_cases hlong : s.unit ≤ fraction
  · rw [if_pos hlong, Fixed.ofParts_of_le hlong]
    rfl
  rw [if_neg hlong, Ending.value_bind, Fixed.ofParts_of_lt (not_le.mp hlong), Fixed.map_raw_ofRaw]
  have hunit := s.fits_unit
  rw [Cell.fits_iff] at hunit
  have hplus : Cell.Fits fraction := by
    rw [Cell.fits_iff]
    omega
  have hminus : Cell.Fits (-(fraction : ℤ)) := by
    rw [Cell.fits_iff]
    omega
  by_cases hbase : Cell.Fits (whole * s.unit)
  · rw [Cell.checked_of_fits hbase, Ending.value_bind, Cell.toSigned, Cell.signed_of_fits hplus,
      Ending.value_bind, Cell.signed_of_fits hminus, Fixed.steps_eq]
    split <;> rfl
  · rw [Cell.checked_of_not_fits hbase,
      Cell.checked_of_not_fits (mt Fixed.fits_of_fits_steps hbase)]
    rfl

theorem ofInterchange_eq (s : Scale) (d : Interchange) :
    ofInterchange s d = .ofExcept ((Fixed.ofInterchange s d).map Fixed.raw) := by
  have hmantissa : Cell.Fits d.mantissa := by
    have := d.mantissa_lt
    simp only [Nat.pow_eq] at this
    rw [Cell.fits_iff]
    omega
  have hscale := d.scale_le
  unfold ofInterchange Fixed.ofInterchange
  dsimp only [Int.pow_eq]
  by_cases hlonger : s.val < d.scale
  · have hsurplus : (0 : ℤ) < 10 ^ (d.scale - s.val) := by positivity
    rw [if_pos hlonger, if_pos hlonger, Cell.difference_eq hlonger.le, Ending.value_bind,
      Cell.byte_eq (by omega), Ending.value_bind, powerOfTen_eq (by omega), Ending.value_bind,
      Cell.remainder_eq hmantissa hsurplus, Ending.value_bind,
      Cell.quotient_eq hmantissa hsurplus]
    split
    · rw [Fixed.map_raw_ofRaw, Cell.checked_of_fits (hmantissa.tdiv hsurplus)]
    · rfl
  · rw [if_neg hlonger, if_neg hlonger, Cell.difference_eq (not_lt.mp hlonger), Ending.value_bind,
      Cell.byte_eq (by omega), Ending.value_bind, powerOfTen_eq (by omega), Ending.value_bind,
      Fixed.map_raw_ofRaw]

/-- At every scale, and for all numbers that cells hold, the arithmetic ends without a trap,
and in what it ends in where nothing is said about cells. The lower cell of a ratio is
never zero or less, however the ratio was made. -/
theorem no_trap_is_reached (s : Scale) :
    (∀ p, Obtainable p → (1 ≤ p.denom ∧ p.denom ≤ Cell.greatest) ∧
      ∃ v : Ratio, pair v = p ∧ ∀ places,
        roundTo s places p = .ofExcept ((v.roundTo s places).map Fixed.raw)) ∧
    (∀ n d, Cell.Fits n → Cell.Fits d →
      ofQuotient n d = .ofExcept ((Ratio.ofQuotient n d).map pair)) ∧
    (∀ a b : Fixed s, mul a b = .ofExcept ((a.mul b).map pair) ∧
      div a b = .ofExcept ((a.div b).map pair)) ∧
    (∀ a : Fixed s, ofFixed a = .value (pair a.toRatio) ∧
      integerPart a = .value a.integerPart ∧ fractionPart a = .value a.fractionPart ∧
      displayChars a = .value a.displayChars ∧
      (∀ point, plainChars point a = .value (a.plainChars point)) ∧
      ∀ bound, exceeds bound a = .value (a.exceeds bound)) ∧
    (∀ whole fraction, ofParts s whole fraction =
      .ofExcept ((Fixed.ofParts whole fraction : Except Fault (Fixed s)).map Fixed.raw)) ∧
    ∀ d : Interchange, ofInterchange s d = .ofExcept ((Fixed.ofInterchange s d).map Fixed.raw) := by
  refine ⟨?_, fun n d hn hd => ofQuotient_eq hn hd, fun a b => ⟨mul_eq a b, div_eq a b⟩, ?_,
    ofParts_eq s, ofInterchange_eq s⟩
  · intro p hp
    obtain ⟨v, rfl⟩ := hp.exists_ratio
    refine ⟨⟨?_, v.denom_fits.2⟩, v, rfl, fun places => roundTo_eq s places v⟩
    have hpos := v.denom_pos
    simp only [pair]
    omega
  · intro a
    exact ⟨ofFixed_eq a, integerPart_eq a, fractionPart_eq a, displayChars_eq a,
      fun point => plainChars_eq point a, fun bound => exceeds_eq bound a⟩

/-- With 38 digits a whole takes up more than half of a cell, and the least number is written all
the same. -/
theorem no_trap_is_reached_at_the_least_number :
    ofQuotient Cell.least (-1) = .fault .overflow ∧
      ofFixed (Fixed.least : Fixed 38) = .value ⟨Cell.least, 10 ^ 38⟩ ∧
      roundTo 38 0 ⟨Cell.least, 10 ^ 38⟩ = .fault .underflow ∧
      integerPart (Fixed.least : Fixed 38) = .value (-1) ∧
      displayChars (Fixed.least : Fixed 38) =
        .value "-1.70141183460469231731687303715884105728".toList := by
  obtain ⟨hratio, hquotient, -, hnumber, -⟩ := no_trap_is_reached 38
  obtain ⟨hfixed, hwhole, -, htext, -⟩ := hnumber Fixed.least
  have hleast : ofFixed (Fixed.least : Fixed 38) = .value ⟨Cell.least, 10 ^ 38⟩ :=
    hfixed.trans (by decide)
  obtain ⟨-, ⟨numer, denom, _, _, _⟩, hpair, hround⟩ :=
    hratio _ (.number Fixed.least hleast)
  obtain ⟨rfl, hten⟩ := Pair.mk.inj hpair
  obtain rfl : denom = 10 ^ 38 := by exact_mod_cast hten
  have hrounded : Ending.ofExcept
      (((Fixed.least : Fixed 38).toRatio.roundTo 38 0).map Fixed.raw) = .fault .underflow := by
    decide
  exact ⟨(hquotient _ _ Cell.fits_least (by decide)).trans (by decide), hleast,
    (hround 0).trans hrounded, hwhole.trans (by decide), htext.trans (by decide)⟩

end Trapping

end Reckoner
