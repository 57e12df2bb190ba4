-- The laws of the arithmetic. Each operation has an upper and a lower number, and a result
-- exactly when it is defined and cells hold both. Where a cell does not hold one, the fault
-- names the side of zero on which the exact result lies.
import Reckoner.Proofs.Stages

namespace Reckoner

/-! ## Ratios -/

theorem Ratio.ofQuotient_eq_ok_iff {n d : ℤ} {v : Ratio} : ofQuotient n d = .ok v ↔
    d ≠ 0 ∧ v.numer = (if d < 0 then -n else n) ∧ v.denom = d.natAbs := by
  refine ⟨?_, ?_⟩
  · intro h
    refine ⟨?_, ofQuotient_eq_ok h⟩
    rintro rfl
    simp [ofQuotient] at h
  · obtain ⟨numer, denom, hpos, hnumer, hdenom⟩ := v
    rintro ⟨hd, rfl, rfl⟩
    unfold ofQuotient
    rw [dif_neg hd]
    exact dif_pos ⟨hnumer, hdenom⟩

/-- Only the least integer of a cell has no counterpart on the other side of zero. -/
def Ratio.mirror (v : Ratio) (h : v.numer ≠ Cell.least) : Ratio :=
  ⟨-v.numer, v.denom, v.denom_pos, (Cell.fits_neg_iff v.numer_fits).mpr h, v.denom_fits⟩

namespace Fixed

variable {s : Scale} {a b : Fixed s} {v : Ratio}

theorem map_toRatio_ofRaw_eq_ok_iff {n : ℤ} {fault : Fault} :
    (ofRaw n fault : Except Fault (Fixed s)).map toRatio = .ok v ↔
      v.numer = n ∧ v.denom = s.unit := by
  simp only [Except.map_eq_ok_iff, ofRaw_eq_ok_iff]
  refine ⟨?_, ?_⟩
  · rintro ⟨c, rfl, rfl⟩
    exact ⟨rfl, rfl⟩
  · obtain ⟨numer, denom, -, hnumer, -⟩ := v
    rintro ⟨rfl, rfl⟩
    exact ⟨⟨numer, hnumer⟩, rfl, rfl⟩

theorem mul_eq_ok_iff : a.mul b = .ok v ↔
    v.numer = a.raw * b.raw ∧ v.denom = s.unit * s.unit := by
  have hunit : (0 : ℤ) < s.unit * s.unit := by
    have := s.unit_pos
    positivity
  have hquotient : Ratio.ofQuotient (a.raw * b.raw) (s.unit * s.unit) = .ok v ↔
      v.numer = a.raw * b.raw ∧ v.denom = s.unit * s.unit := by
    rw [Ratio.ofQuotient_eq_ok_iff, if_neg hunit.not_gt, ← Nat.cast_mul, Int.natAbs_natCast]
    simp [hunit.ne']
  unfold mul
  split
  · exact hquotient
  · next hfits =>
    simp only [reduceCtorEq, false_iff]
    rintro ⟨hnumer, -⟩
    exact hfits (hnumer ▸ v.numer_fits)

theorem div_eq_ok_iff : a.div b = .ok v ↔
    b.value ≠ 0 ∧ v.numer = (if b.raw < 0 then -a.raw else a.raw) ∧ v.denom = b.raw.natAbs := by
  have hzero : b.isZero = true ↔ b.raw = 0 := by rw [isZero_iff, value_eq_zero_iff]
  unfold div
  rw [Ne, value_eq_zero_iff]
  split
  · next h => simp [hzero.mp h]
  · exact Ratio.ofQuotient_eq_ok_iff

end Fixed

/-! ## Operations -/

namespace Operation

variable {o o' : Operation} {v : Ratio} {k : ℤ}

/-- The upper number of an operation. The sign of a divisor is moved up to it. -/
def numer (o : Operation) : ℤ :=
  match o.operator with
  | .add => o.left.raw + o.right.raw
  | .subtract => o.left.raw - o.right.raw
  | .multiply => o.left.raw * o.right.raw
  | .divide => if o.right.raw < 0 then -o.left.raw else o.left.raw

def denom (o : Operation) : ℕ :=
  match o.operator with
  | .add | .subtract => amountScale.unit
  | .multiply => amountScale.unit * amountScale.unit
  | .divide => o.right.raw.natAbs

theorem defined_of_ne_divide (h : o.operator ≠ .divide) : o.Defined := fun hop => absurd hop h

/-- The result is the ratio of the two numbers, if the operation is defined and both of them fit. -/
theorem apply_eq_ok_iff :
    o.apply = .ok v ↔ o.Defined ∧ v.numer = o.numer ∧ v.denom = o.denom := by
  obtain ⟨left, operator, right⟩ := o
  rw [apply, Except.mapError_eq_ok_iff]
  cases operator with
  | add =>
    refine Fixed.map_toRatio_ofRaw_eq_ok_iff.trans (iff_and_self.mpr ?_)
    exact fun _ => defined_of_ne_divide nofun
  | subtract =>
    refine Fixed.map_toRatio_ofRaw_eq_ok_iff.trans (iff_and_self.mpr ?_)
    exact fun _ => defined_of_ne_divide nofun
  | multiply =>
    refine Fixed.mul_eq_ok_iff.trans (iff_and_self.mpr ?_)
    exact fun _ => defined_of_ne_divide nofun
  | divide =>
    refine Fixed.div_eq_ok_iff.trans (and_congr_left' ?_)
    simp [Defined, Operator.Defined]

/-- Operations with the same numbers come to the same, also where that is a fault. -/
theorem apply_congr (hdefined : o'.Defined ↔ o.Defined) (hnumer : o'.numer = o.numer)
    (hdenom : o'.denom = o.denom) : o'.apply = o.apply := by
  have hok (v : Ratio) : o'.apply = .ok v ↔ o.apply = .ok v := by
    rw [apply_eq_ok_iff, apply_eq_ok_iff, hdefined, hnumer, hdenom]
  cases h : o.apply with
  | ok v => exact (hok v).mpr h
  | error fault =>
    cases h' : o'.apply with
    | ok v =>
      rw [(hok v).mp h'] at h
      cases h
    | error fault' =>
      rcases apply_eq_error h with ⟨hundef, rfl⟩ | ⟨hdef, rfl⟩ <;>
        rcases apply_eq_error h' with ⟨hundef', rfl⟩ | ⟨hdef', rfl⟩
      · rfl
      · exact absurd (hdefined.mp hdef') hundef
      · exact absurd (hdefined.mpr hdef) hundef'
      · rfl

/-- The results of two operations are as far from zero, on two sides of it. -/
structure Mirrors (o o' : Operation) : Prop where
  defined : o'.Defined ↔ o.Defined
  numer : o.Defined → o'.numer = -o.numer
  denom : o'.denom = o.denom

theorem Mirrors.apply (h : o.Mirrors o') (happly : o.apply = .ok v)
    (hleast : v.numer ≠ Cell.least) : o'.apply = .ok (v.mirror hleast) := by
  obtain ⟨hdefined, hnumer, hdenom⟩ := apply_eq_ok_iff.mp happly
  refine apply_eq_ok_iff.mpr ⟨h.defined.mpr hdefined, ?_, ?_⟩
  · rw [h.numer hdefined, ← hnumer]
    rfl
  · rw [h.denom, ← hdenom]
    rfl

theorem dvd_numer (hleft : k ∣ o.left.raw) (hright : k ∣ o.right.raw) : k ∣ o.numer := by
  unfold numer
  split
  · exact dvd_add hleft hright
  · exact dvd_sub hleft hright
  · exact dvd_mul_of_dvd_left hleft _
  · split
    · exact (dvd_neg).mpr hleft
    · exact hleft

end Operation

/-! ## Sides -/

namespace Cell

variable {n : ℤ}

/-- What a signed cell makes of an integer: a fault says on which side it does not hold it. -/
def hold (n : ℤ) : Except Fault ℤ :=
  if greatest < n then .error .overflow else if n < least then .error .underflow else .ok n

theorem hold_of_fits (h : Fits n) : hold n = .ok n := by
  unfold hold
  rw [if_neg (not_lt.mpr h.2), if_neg (not_lt.mpr h.1)]

theorem hold_of_above (h : greatest < n) : hold n = .error .overflow := if_pos h

theorem hold_of_below (h : n < least) : hold n = .error .underflow := by
  have hends : least ≤ greatest := by decide
  unfold hold
  rw [if_neg (not_lt.mpr (h.le.trans hends)), if_pos h]

/-- What a cell does not hold is told by its sign. -/
theorem hold_of_not_fits (h : ¬ Fits n) : hold n = .error (.ofSide (decide (n < 0))) := by
  have hleast : least ≤ 0 := by decide
  have hgreatest : 0 ≤ greatest := by decide
  by_cases habove : greatest < n
  · rw [hold_of_above habove, decide_eq_false (by omega)]
    rfl
  · have hbelow : n < least := not_le.mp fun hle => h ⟨hle, not_lt.mp habove⟩
    rw [hold_of_below hbelow, decide_eq_true (by omega)]
    rfl

end Cell

namespace Fixed

variable {s : Scale}

theorem map_raw_ofRaw_of_side {n : ℤ} {up : Prop} [Decidable up] (hup : up → Cell.least ≤ n)
    (hdown : ¬ up → n ≤ Cell.greatest) :
    (ofRaw n (if up then .overflow else .underflow) : Except Fault (Fixed s)).map raw =
      Cell.hold n := by
  by_cases hn : Cell.Fits n
  · rw [ofRaw_of_fits hn, Cell.hold_of_fits hn]
    rfl
  · rw [ofRaw_of_not_fits hn]
    by_cases h : up
    · have habove : Cell.greatest < n := not_le.mp fun hle => hn ⟨hup h, hle⟩
      rw [if_pos h, Cell.hold_of_above habove]
      rfl
    · have hbelow : n < Cell.least := not_le.mp fun hle => hn ⟨hle, hdown h⟩
      rw [if_neg h, Cell.hold_of_below hbelow]
      rfl

/-- A sum lies on the side of the number that is added. -/
theorem map_raw_add (a b : Fixed s) : (a.add b).map raw = Cell.hold (a.raw + b.raw) := by
  obtain ⟨hlow, hhigh⟩ := a.fits
  apply map_raw_ofRaw_of_side
  · intro hpos
    omega
  · intro hneg
    omega

theorem map_raw_sub (a b : Fixed s) : (a.sub b).map raw = Cell.hold (a.raw - b.raw) := by
  obtain ⟨hlow, hhigh⟩ := a.fits
  apply map_raw_ofRaw_of_side
  · intro hneg
    omega
  · intro hpos
    omega

/-! ## Products and quotients -/

theorem unit_mul_unit (s : Scale) : s.unit * s.unit = 10 ^ (2 * s.val) := by
  rw [Scale.unit_eq, ← pow_add, two_mul]

/-- Up to nineteen digits a cell holds the unit of a product, and with twenty it does not. -/
theorem fits_unit_mul_unit_iff : Cell.Fits (s.unit * s.unit : ℕ) ↔ s.val ≤ 19 := by
  rw [unit_mul_unit, Cell.fits_iff]
  refine ⟨?_, ?_⟩
  · intro hfits
    by_contra hlarge
    have hge : 10 ^ 40 ≤ 10 ^ (2 * s.val) := Nat.pow_le_pow_right (by norm_num) (by omega)
    omega
  · intro hsmall
    have hle : 10 ^ (2 * s.val) ≤ 10 ^ 38 := Nat.pow_le_pow_right (by norm_num) (by omega)
    generalize 10 ^ (2 * s.val) = unit at hle ⊢
    omega

/-- The signs of two numbers tell the sign of a product that no cell holds. -/
theorem isNegative_bne {a b : Fixed s} (h : ¬ Cell.Fits (a.raw * b.raw)) :
    (a.isNegative != b.isNegative) = decide (a.raw * b.raw < 0) := by
  have hne : a.raw * b.raw ≠ 0 := by
    intro hzero
    exact h (hzero ▸ Cell.fits_zero)
  obtain ⟨ha, hb⟩ := mul_ne_zero_iff.mp hne
  unfold isNegative
  rcases lt_or_gt_of_ne ha with ha | ha <;> rcases lt_or_gt_of_ne hb with hb | hb
  · simp [ha, hb, (mul_pos_of_neg_of_neg ha hb).not_gt]
  · simp [ha, hb.not_gt, mul_neg_of_neg_of_pos ha hb]
  · simp [hb, ha.not_gt, mul_neg_of_pos_of_neg ha hb]
  · simp [ha.not_gt, hb.not_gt, (mul_pos ha hb).not_gt]

theorem map_parts_mul (a b : Fixed s) (hs : s.val ≤ 19) :
    (a.mul b).map (fun v => (v.numer, v.denom)) =
      (Cell.hold (a.raw * b.raw)).map fun n => (n, 10 ^ (2 * s.val)) := by
  by_cases hfits : Cell.Fits (a.raw * b.raw)
  · have hproduct : a.mul b = .ok ⟨a.raw * b.raw, s.unit * s.unit,
        Nat.mul_pos s.unit_pos s.unit_pos, hfits, fits_unit_mul_unit_iff.mpr hs⟩ :=
      mul_eq_ok_iff.mpr ⟨rfl, rfl⟩
    rw [hproduct, Cell.hold_of_fits hfits, ← unit_mul_unit]
    rfl
  · unfold mul
    rw [if_neg hfits, isNegative_bne hfits, Cell.hold_of_not_fits hfits]
    rfl

/-- On a scale with more digits there is no product. -/
theorem mul_ne_ok (a b : Fixed s) (hs : 20 ≤ s.val) (v : Ratio) : a.mul b ≠ .ok v := by
  intro h
  have hfits := v.denom_fits
  rw [(mul_eq_ok_iff.mp h).2, fits_unit_mul_unit_iff] at hfits
  omega

/-- There is a quotient unless its divisor is zero or its sign cannot be moved up. -/
theorem div_cases (a b : Fixed s) :
    if b.raw = 0 then
      a.div b = .error .divisionByZero
    else if b.raw < 0 ∧ (a.raw = Cell.least ∨ b.raw = Cell.least) then
      a.div b = .error .overflow
    else
      ∃ v, a.div b = .ok v ∧ v.denom = b.raw.natAbs ∧ v.value = a.raw / b.raw := by
  have ha := a.fits
  have hb := b.fits
  have hleast := Cell.least_eq
  rw [Cell.fits_iff] at ha hb
  by_cases hzero : b.raw = 0
  · rw [if_pos hzero]
    unfold div
    exact if_pos (beq_iff_eq.mpr hzero)
  -- A divisor below zero gives its sign to the dividend, and neither of them may be the least one.
  have hfits : Cell.Fits (if b.raw < 0 then -a.raw else a.raw) ∧ Cell.Fits b.raw.natAbs ↔
      ¬ (b.raw < 0 ∧ (a.raw = Cell.least ∨ b.raw = Cell.least)) := by
    rw [Cell.fits_iff, Cell.fits_iff]
    split <;> omega
  have hdiv : a.div b = Ratio.ofQuotient a.raw b.raw := by
    unfold div
    exact if_neg (mt beq_iff_eq.mp hzero)
  rw [if_neg hzero, hdiv]
  split
  · next hbeyond =>
    unfold Ratio.ofQuotient
    rw [dif_neg hzero]
    exact dif_neg (fun h => hfits.mp h hbeyond)
  · next hwithin =>
    obtain ⟨hupper, hlower⟩ := hfits.mpr hwithin
    have hquotient : Ratio.ofQuotient a.raw b.raw =
        .ok ⟨_, _, Int.natAbs_pos.mpr hzero, hupper, hlower⟩ :=
      Ratio.ofQuotient_eq_ok_iff.mpr ⟨hzero, rfl, rfl⟩
    exact ⟨_, hquotient, rfl, Ratio.value_of_ofQuotient hquotient⟩

end Fixed

namespace Operation

variable {o : Operation}

theorem defined_iff : o.Defined ↔ ¬ (o.operator = .divide ∧ o.right.raw = 0) := by
  unfold Defined Operator.Defined
  rw [Ne, Fixed.value_eq_zero_iff, not_and]

theorem denom_pos (h : o.Defined) : 0 < o.denom := by
  unfold denom
  split
  · exact amountScale.unit_pos
  · exact amountScale.unit_pos
  · exact Nat.mul_pos amountScale.unit_pos amountScale.unit_pos
  · next hdivide =>
    exact Int.natAbs_pos.mpr (mt Fixed.value_eq_zero_iff.mpr (h hdivide))

/-- An operation is a division by zero, or exact, or a cell is too small for one of its numbers. -/
theorem apply_cases (o : Operation) :
    if o.operator = .divide ∧ o.right.raw = 0 then
      o.apply = .error .divisionByZero
    else if Cell.Fits o.numer ∧ Cell.Fits o.denom then
      ∃ v, o.apply = .ok v ∧ v.value = o.exact
    else
      o.apply = .error .overflow := by
  by_cases hdefined : o.Defined
  · rw [if_neg (defined_iff.mp hdefined)]
    split
    · next hfits =>
      have happly : o.apply = .ok ⟨o.numer, o.denom, denom_pos hdefined, hfits.1, hfits.2⟩ :=
        apply_eq_ok_iff.mpr ⟨hdefined, rfl, rfl⟩
      exact ⟨_, happly, (value_of_apply happly).2⟩
    · next hbeyond =>
      cases happly : o.apply with
      | ok v =>
        obtain ⟨-, hnumer, hdenom⟩ := apply_eq_ok_iff.mp happly
        exact absurd ⟨hnumer ▸ v.numer_fits, hdenom ▸ v.denom_fits⟩ hbeyond
      | error fault =>
        rcases apply_eq_error happly with ⟨hundefined, -⟩ | ⟨-, rfl⟩
        · exact absurd hdefined hundefined
        · rfl
  · rw [if_pos (not_not.mp (mt defined_iff.mpr hdefined))]
    cases happly : o.apply with
    | ok v => exact absurd (value_of_apply happly).1 hdefined
    | error fault =>
      rcases apply_eq_error happly with ⟨-, rfl⟩ | ⟨hdef, -⟩
      · rfl
      · exact absurd hdef hdefined

end Operation

/-- A sum or a difference is exact, or the fault names the side on which it lies beyond the
cell. So it is with a product, on a scale whose squared unit a cell holds, and on the others
there is none. A quotient is exact, it is a division by zero, or it overflows where the least
number would have to change its sign. So the result of an operation is exact or an overflow,
and the divisions by zero are those by zero. -/
theorem arithmetic_is_exact_or_names_its_fault :
    (∀ (s : Scale) (a b : Fixed s),
      (a.add b).map Fixed.raw = Cell.hold (a.raw + b.raw) ∧
      (a.sub b).map Fixed.raw = Cell.hold (a.raw - b.raw) ∧
      (s.val ≤ 19 → (a.mul b).map (fun v => (v.numer, v.denom)) =
        (Cell.hold (a.raw * b.raw)).map fun n => (n, 10 ^ (2 * s.val))) ∧
      (20 ≤ s.val → ∀ v, a.mul b ≠ .ok v) ∧
      if b.raw = 0 then
        a.div b = .error .divisionByZero
      else if b.raw < 0 ∧ (a.raw = Cell.least ∨ b.raw = Cell.least) then
        a.div b = .error .overflow
      else
        ∃ v, a.div b = .ok v ∧ v.denom = b.raw.natAbs ∧ v.value = a.raw / b.raw) ∧
    ∀ o : Operation,
      if o.operator = .divide ∧ o.right.raw = 0 then
        o.apply = .error .divisionByZero
      else if Cell.Fits o.numer ∧ Cell.Fits o.denom then
        ∃ v, o.apply = .ok v ∧ v.value = o.exact
      else
        o.apply = .error .overflow := by
  refine ⟨?_, Operation.apply_cases⟩
  intro s a b
  exact ⟨a.map_raw_add b, a.map_raw_sub b, a.map_parts_mul b, a.mul_ne_ok b, a.div_cases b⟩

/-- Ones on the last scale that has products, zeros on the first that has none, the two ends of
a cell, and the least amount divided by itself. -/
theorem arithmetic_is_exact_or_names_its_fault_at_the_ends :
    ((Fixed.one : Fixed 19).mul Fixed.one).map (fun v => (v.numer, v.denom)) =
        .ok (10 ^ 38, 10 ^ 38) ∧
      ((Fixed.greatest : Fixed 19).mul Fixed.least).map (fun v => (v.numer, v.denom)) =
        .error .underflow ∧
      (∀ v, (Fixed.zero : Fixed 20).mul Fixed.zero ≠ .ok v) ∧
      ((Fixed.least : Fixed 38).add Fixed.least).map Fixed.raw = .error .underflow ∧
      ((Fixed.greatest : Fixed 38).sub Fixed.least).map Fixed.raw = .error .overflow ∧
      (Fixed.one : Fixed 0).div Fixed.least = .error .overflow ∧
      (∃ v, (Fixed.least : Fixed 0).div Fixed.one = .ok v ∧ v.value = Cell.least) ∧
      Operation.apply ⟨.least, .divide, .zero⟩ = .error .divisionByZero ∧
      Operation.apply ⟨.least, .divide, .least⟩ = .error .overflow := by
  obtain ⟨hfixed, hoperation⟩ := arithmetic_is_exact_or_names_its_fault
  obtain ⟨-, -, hones, -⟩ := hfixed 19 .one .one
  obtain ⟨-, -, hends, -⟩ := hfixed 19 .greatest .least
  obtain ⟨-, -, -, hnone, -⟩ := hfixed 20 .zero .zero
  obtain ⟨hsum, -⟩ := hfixed 38 .least .least
  obtain ⟨-, hdifference, -⟩ := hfixed 38 .greatest .least
  obtain ⟨-, -, -, -, hbeyond⟩ := hfixed 0 .one .least
  obtain ⟨-, -, -, -, hquotient⟩ := hfixed 0 .least .one
  have hzero := hoperation ⟨.least, .divide, .zero⟩
  have hleast := hoperation ⟨.least, .divide, .least⟩
  rw [if_neg (by decide), if_pos (by decide)] at hbeyond
  rw [if_neg (by decide), if_neg (by decide)] at hquotient
  rw [if_pos (by decide)] at hzero
  rw [if_neg (by decide), if_neg (by decide)] at hleast
  obtain ⟨v, hv, -, hvalue⟩ := hquotient
  refine ⟨(hones (by decide)).trans rfl, (hends (by decide)).trans rfl, hnone (by decide),
    hsum.trans rfl, hdifference.trans rfl, hbeyond, ⟨v, hv, ?_⟩, hzero, hleast⟩
  rw [hvalue]
  norm_num [Fixed.one, Fixed.least, Scale.unit_eq]

end Reckoner
