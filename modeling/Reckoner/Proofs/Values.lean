-- What numbers are worth. Each kind of number stands for a rational one, and the laws
-- say that arithmetic and the comparison with a bound see all of it: a result is
-- exact or it is a fault, and a bound too large for its cell is a bound like any other.
import Mathlib.Algebra.Order.Field.Rat
import Mathlib.Data.Rat.Cast.Order
import Mathlib.Tactic.FieldSimp
import Mathlib.Tactic.Linarith
import Mathlib.Tactic.Positivity
import Mathlib.Tactic.Ring
import Reckoner.Evaluation.Operation

namespace Reckoner

variable {s : Scale}

/-! ## Passing faults on -/

section Except

variable {ε ε' α β : Type}

theorem Except.map_eq_ok_iff {f : α → β} {x : Except ε α} {b : β} :
    x.map f = .ok b ↔ ∃ a, x = .ok a ∧ f a = b := by
  cases x <;> simp [Except.map]

theorem Except.map_eq_error_iff {f : α → β} {x : Except ε α} {e : ε} :
    x.map f = .error e ↔ x = .error e := by
  cases x <;> simp [Except.map]

theorem Except.mapError_eq_ok_iff {f : ε → ε'} {x : Except ε α} {a : α} :
    x.mapError f = .ok a ↔ x = .ok a := by
  cases x <;> simp [Except.mapError]

theorem Except.mapError_eq_error_iff {f : ε → ε'} {x : Except ε α} {e : ε'} :
    x.mapError f = .error e ↔ ∃ e', x = .error e' ∧ f e' = e := by
  cases x <;> simp [Except.mapError]

end Except

/-! ## Values -/

/-- The number that a count of steps stands for. -/
def Fixed.value (a : Fixed s) : ℚ := a.raw / s.unit

def Ratio.value (v : Ratio) : ℚ := v.numer / v.denom

/-- What an operator makes of two numbers, with nothing rounded. -/
def Operator.exact : Operator → ℚ → ℚ → ℚ
  | add, x, y => x + y
  | subtract, x, y => x - y
  | multiply, x, y => x * y
  | divide, x, y => x / y

/-- An operator has a result in front of `y`. -/
def Operator.Defined (o : Operator) (y : ℚ) : Prop := o = divide → y ≠ 0

namespace Operation

def exact (o : Operation) : ℚ := o.operator.exact o.left.value o.right.value

/-- The operation is no division by zero. -/
def Defined (o : Operation) : Prop := o.operator.Defined o.right.value

end Operation

theorem Scale.unit_eq (s : Scale) : s.unit = 10 ^ s.val := rfl

theorem Scale.unit_ne_zero (s : Scale) : (s.unit : ℚ) ≠ 0 := by
  exact_mod_cast s.unit_pos.ne'

theorem Scale.unit_cast_pos (s : Scale) : (0 : ℚ) < s.unit := by
  exact_mod_cast s.unit_pos

theorem Fixed.value_inj {a b : Fixed s} : a.value = b.value ↔ a = b := by
  refine ⟨?_, ?_⟩
  · intro h
    rw [value, value, div_left_inj' s.unit_ne_zero] at h
    exact Fixed.ext (by exact_mod_cast h)
  · rintro rfl
    rfl

theorem Fixed.value_eq_zero_iff {a : Fixed s} : a.value = 0 ↔ a.raw = 0 := by
  rw [value, div_eq_zero_iff]
  simp [s.unit_ne_zero]

theorem Fixed.isZero_iff {a : Fixed s} : a.isZero = true ↔ a.value = 0 := by
  rw [isZero, beq_iff_eq, value_eq_zero_iff]

/-! ## Bounds -/

namespace Ratio

/-- A bound that does not fit once it is scaled is above every upper number that a cell holds. -/
theorem natAbs_numer_lt {v : Ratio} {limit : ℕ} (h : ¬ Cell.FitsUnsigned limit) :
    v.numer.natAbs < limit :=
  lt_of_lt_of_le v.numer_fits.natAbs (not_lt.mp h)

/-- So the check for a bound that does not fit leaves the comparison as it is. -/
theorem exceeds_iff_lt_natAbs (v : Ratio) (bound : ℕ) :
    v.exceeds bound = true ↔ bound * v.denom < v.numer.natAbs := by
  unfold exceeds
  simp only [Bool.and_eq_true, decide_eq_true_eq, and_iff_right_iff_imp]
  intro hlt
  by_contra hfits
  exact absurd hlt (natAbs_numer_lt hfits).not_gt

/-- A ratio exceeds a bound when it is larger in size. No bound is too large for that. -/
theorem exceeds_iff (v : Ratio) (bound : ℕ) :
    v.exceeds bound = true ↔ (bound : ℚ) < |v.value| := by
  have hdenom : (0 : ℚ) < v.denom := by exact_mod_cast v.denom_pos
  rw [exceeds_iff_lt_natAbs, value, abs_div, abs_of_pos hdenom, lt_div_iff₀ hdenom,
    ← Int.cast_abs, ← Int.natCast_natAbs]
  norm_cast

end Ratio

theorem Fixed.exceeds_iff (a : Fixed s) (bound : ℕ) :
    a.exceeds bound = true ↔ (bound : ℚ) < |a.value| := a.toRatio.exceeds_iff bound

theorem Operation.checkRange_eq_ok_iff {settings : Settings} {o : Operation} :
    o.checkRange settings = .ok () ↔
      |o.left.value| ≤ settings.operandBound ∧ |o.right.value| ≤ settings.operandBound := by
  have hl := o.left.exceeds_iff settings.operandBound
  have hr := o.right.exceeds_iff settings.operandBound
  rw [← not_lt, ← not_lt, ← hl, ← hr]
  unfold checkRange
  cases o.left.exceeds settings.operandBound <;> cases o.right.exceeds settings.operandBound <;>
    simp

theorem Operation.checkRange_eq_error {settings : Settings} {o : Operation}
    {fault : EvaluationFault} (h : o.checkRange settings = .error fault) :
    fault = .operandOutOfRange settings.operandBound := by
  unfold checkRange at h
  split at h
  · exact (Except.error.inj h).symm
  · cases h

/-! ## Exact results -/

theorem Fixed.ofRaw_eq_ok_iff {n : ℤ} {fault : Fault} {a : Fixed s} :
    ofRaw n fault = .ok a ↔ a.raw = n := by
  refine ⟨?_, ?_⟩
  · intro h
    unfold ofRaw at h
    split at h
    · rw [← Except.ok.inj h]
    · cases h
  · rintro rfl
    exact ofRaw_of_fits a.fits

theorem Fixed.ofRaw_eq_error_iff {n : ℤ} {fault fault' : Fault} :
    (ofRaw n fault : Except Fault (Fixed s)) = .error fault' ↔
      ¬ Cell.Fits n ∧ fault = fault' := by
  unfold ofRaw
  split <;> simp_all

theorem Ratio.ofQuotient_eq_ok {n d : ℤ} {v : Ratio} (h : ofQuotient n d = .ok v) :
    v.numer = (if d < 0 then -n else n) ∧ v.denom = d.natAbs := by
  unfold ofQuotient at h
  split at h
  · cases h
  · by_cases hfit : Cell.Fits (if d < 0 then -n else n) ∧ Cell.Fits d.natAbs
    · simp only [dif_pos hfit] at h
      rw [← Except.ok.inj h]
      exact ⟨rfl, rfl⟩
    · simp only [dif_neg hfit] at h
      cases h

theorem Ratio.value_of_ofQuotient {n d : ℤ} {v : Ratio} (h : ofQuotient n d = .ok v) :
    v.value = n / d := by
  obtain ⟨hn, hd⟩ := ofQuotient_eq_ok h
  rw [value, hn, hd, Nat.cast_natAbs]
  split
  · next hneg =>
    rw [abs_of_neg hneg]
    push_cast
    rw [neg_div_neg_eq]
  · next hpos => rw [abs_of_nonneg (by omega)]

/-- A quotient has no fault but an overflow, unless its lower number is zero. -/
theorem Ratio.ofQuotient_eq_error {n d : ℤ} {fault : Fault}
    (h : ofQuotient n d = .error fault) (hd : d ≠ 0) : fault = .overflow := by
  unfold ofQuotient at h
  rw [dif_neg hd] at h
  by_cases hfit : Cell.Fits (if d < 0 then -n else n) ∧ Cell.Fits d.natAbs
  · simp only [dif_pos hfit] at h
    cases h
  · simp only [dif_neg hfit] at h
    exact (Except.error.inj h).symm

theorem Fixed.value_of_add {a b c : Fixed s} (h : a.add b = .ok c) :
    c.value = a.value + b.value := by
  rw [value, ofRaw_eq_ok_iff.mp h, value, value, ← add_div]
  push_cast
  rfl

theorem Fixed.value_of_sub {a b c : Fixed s} (h : a.sub b = .ok c) :
    c.value = a.value - b.value := by
  rw [value, ofRaw_eq_ok_iff.mp h, value, value, ← sub_div]
  push_cast
  rfl

theorem Fixed.value_of_mul {a b : Fixed s} {v : Ratio} (h : a.mul b = .ok v) :
    v.value = a.value * b.value := by
  unfold mul at h
  split at h
  · rw [Ratio.value_of_ofQuotient h, value, value, div_mul_div_comm]
    push_cast
    rfl
  · cases h

theorem Fixed.value_of_div {a b : Fixed s} {v : Ratio} (h : a.div b = .ok v) :
    b.value ≠ 0 ∧ v.value = a.value / b.value := by
  unfold div at h
  split at h
  · cases h
  · next hzero =>
    rw [isZero_iff] at hzero
    refine ⟨hzero, ?_⟩
    rw [Ratio.value_of_ofQuotient h, value, value, div_div_div_cancel_right₀ s.unit_ne_zero]

/-- The exact result is what the operator makes of the two values. -/
theorem Operation.value_of_apply {o : Operation} {v : Ratio} (h : o.apply = .ok v) :
    o.Defined ∧ v.value = o.exact := by
  obtain ⟨left, operator, right⟩ := o
  have hratio := Except.mapError_eq_ok_iff.mp h
  cases operator with
  | add =>
    obtain ⟨c, hc, rfl⟩ := Except.map_eq_ok_iff.mp hratio
    exact ⟨fun hop => (nomatch hop), Fixed.value_of_add hc⟩
  | subtract =>
    obtain ⟨c, hc, rfl⟩ := Except.map_eq_ok_iff.mp hratio
    exact ⟨fun hop => (nomatch hop), Fixed.value_of_sub hc⟩
  | multiply => exact ⟨fun hop => (nomatch hop), Fixed.value_of_mul hratio⟩
  | divide =>
    obtain ⟨hne, hv⟩ := Fixed.value_of_div hratio
    exact ⟨fun _ => hne, hv⟩

/-! ## Faults -/

theorem Fault.isRange_ofSide (negative : Bool) : (ofSide negative).isRange = true := by
  cases negative <;> rfl

theorem Fixed.isRange_of_mul {a b : Fixed s} {fault : Fault} (h : a.mul b = .error fault) :
    fault.isRange = true := by
  unfold mul at h
  split at h
  · have hunit := s.unit_pos
    have hfault := Ratio.ofQuotient_eq_error h (by positivity)
    rw [hfault]
    rfl
  · rw [← Except.error.inj h]
    exact Fault.isRange_ofSide _

theorem Fixed.div_eq_error {a b : Fixed s} {fault : Fault} (h : a.div b = .error fault) :
    (b.value = 0 ∧ fault = .divisionByZero) ∨ (b.value ≠ 0 ∧ fault.isRange = true) := by
  unfold div at h
  split at h
  · next hzero => exact Or.inl ⟨isZero_iff.mp hzero, (Except.error.inj h).symm⟩
  · next hzero =>
    rw [isZero_iff] at hzero
    have hfault := Ratio.ofQuotient_eq_error h (fun h0 => hzero (value_eq_zero_iff.mpr h0))
    rw [hfault]
    exact Or.inr ⟨hzero, rfl⟩

theorem Operation.ratio_eq_error {o : Operation} {fault : Fault} (h : o.ratio = .error fault) :
    (¬ o.Defined ∧ fault = .divisionByZero) ∨ (o.Defined ∧ fault.isRange = true) := by
  obtain ⟨left, operator, right⟩ := o
  cases operator with
  | add =>
    obtain ⟨-, hfault⟩ := Fixed.ofRaw_eq_error_iff.mp (Except.map_eq_error_iff.mp h)
    refine Or.inr ⟨fun hop => (nomatch hop), ?_⟩
    rw [← hfault]
    split <;> rfl
  | subtract =>
    obtain ⟨-, hfault⟩ := Fixed.ofRaw_eq_error_iff.mp (Except.map_eq_error_iff.mp h)
    refine Or.inr ⟨fun hop => (nomatch hop), ?_⟩
    rw [← hfault]
    split <;> rfl
  | multiply => exact Or.inr ⟨fun hop => (nomatch hop), Fixed.isRange_of_mul h⟩
  | divide =>
    rcases Fixed.div_eq_error h with ⟨hzero, hfault⟩ | ⟨hzero, hfault⟩
    · exact Or.inl ⟨fun hdef => hdef rfl hzero, hfault⟩
    · exact Or.inr ⟨fun _ => hzero, hfault⟩

/-- So an evaluation hears of a division by zero or of an overflow, and of nothing else. -/
theorem Operation.apply_eq_error {o : Operation} {fault : EvaluationFault}
    (h : o.apply = .error fault) :
    (¬ o.Defined ∧ fault = .divisionByZero) ∨ (o.Defined ∧ fault = .overflow) := by
  obtain ⟨cause, hcause, rfl⟩ := Except.mapError_eq_error_iff.mp h
  rcases ratio_eq_error hcause with ⟨hdef, rfl⟩ | ⟨hdef, hrange⟩
  · exact Or.inl ⟨hdef, rfl⟩
  · refine Or.inr ⟨hdef, ?_⟩
    cases cause <;> first | rfl | exact absurd hrange (by decide)

end Reckoner
