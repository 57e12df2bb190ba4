-- The laws of symmetry: what the order and the signs of operands do to a value. Numerals are
-- refused without regard to side and sign, and no value comes from the one number of a cell
-- that has no counterpart on the other side of zero.
import Reckoner.Proofs.Acceptance
import Reckoner.Proofs.Rounding

namespace Reckoner

/-! ## Numerals -/

/-- The same digits with the other sign. A plus may be written or left out. -/
structure Numeral.Opposite (n m : Numeral) : Prop where
  whole : m.whole = n.whole
  fraction : m.fraction = n.fraction
  sign : m.isNegative = !n.isNegative

namespace Numeral.Opposite

variable {n m : Numeral}

theorem symm (h : n.Opposite m) : m.Opposite n :=
  ⟨h.whole.symm, h.fraction.symm, by rw [h.sign, Bool.not_not]⟩

theorem value (h : n.Opposite m) : m.value = -n.value := by
  have hsize : m.size = n.size := by rw [size, size, h.whole, h.fraction]
  unfold Numeral.value
  rw [hsize, h.sign]
  cases n.isNegative <;> simp

end Numeral.Opposite

namespace Settings

variable {settings : Settings} {left right left' right' n m : Numeral} {a b : Amount}

theorem refusal?_comm : settings.refusal? right left = settings.refusal? left right := by
  unfold refusal?
  simp only [or_comm]

/-- Numerals are refused for their digits and their sizes. -/
theorem refusal?_congr (hleft : left'.fraction.length = left.fraction.length)
    (hright : right'.fraction.length = right.fraction.length)
    (hleft' : |left'.value| = |left.value|) (hright' : |right'.value| = |right.value|) :
    settings.refusal? left' right' = settings.refusal? left right := by
  unfold refusal?
  rw [hleft, hright, hleft', hright']

theorem Gives.opposite (ha : settings.Gives n a) (hb : settings.Gives m b) (h : n.Opposite m) :
    b.raw = -a.raw := by
  have hvalue : b.value = -a.value := by rw [hb.value, h.value, ha.value]
  rw [Fixed.value, Fixed.value, ← neg_div, div_left_inj' amountScale.unit_ne_zero] at hvalue
  exact_mod_cast hvalue

end Settings

/-! ## Operations -/

namespace Operation

variable {o o' : Operation} {operator : Operator} {a b a' b' : Amount}

theorem mirrors_subtract (a b : Amount) : Mirrors ⟨a, .subtract, b⟩ ⟨b, .subtract, a⟩ where
  defined := iff_of_true (defined_of_ne_divide nofun) (defined_of_ne_divide nofun)
  numer _ := (neg_sub a.raw b.raw).symm
  denom := rfl

theorem mirrors_left (hop : operator = .multiply ∨ operator = .divide) (h : a'.raw = -a.raw)
    (b : Amount) : Mirrors ⟨a, operator, b⟩ ⟨a', operator, b⟩ := by
  refine ⟨Iff.rfl, ?_, ?_⟩
  · intro _
    rcases hop with rfl | rfl
    · simp only [numer]
      rw [h, neg_mul]
    · simp only [numer]
      rw [h]
      split <;> rfl
  · rcases hop with rfl | rfl <;> rfl

theorem mirrors_right (hop : operator = .multiply ∨ operator = .divide) (a : Amount)
    (h : b'.raw = -b.raw) : Mirrors ⟨a, operator, b⟩ ⟨a, operator, b'⟩ := by
  rcases hop with rfl | rfl
  · refine ⟨iff_of_true (defined_of_ne_divide nofun) (defined_of_ne_divide nofun), ?_, rfl⟩
    intro _
    simp only [numer]
    rw [h, mul_neg]
  · have hzero : b'.value ≠ 0 ↔ b.value ≠ 0 := by
      rw [Ne, Ne, Fixed.value_eq_zero_iff, Fixed.value_eq_zero_iff, h, neg_eq_zero]
    refine ⟨imp_congr_right fun _ => hzero, ?_, ?_⟩
    · intro hdefined
      have hraw : b.raw ≠ 0 := mt Fixed.value_eq_zero_iff.mpr (hdefined rfl)
      simp only [numer]
      rw [h]
      split <;> split <;> omega
    · simp only [denom]
      rw [h, Int.natAbs_neg]

theorem apply_comm (hop : operator = .add ∨ operator = .multiply) (a b : Amount) :
    apply ⟨b, operator, a⟩ = apply ⟨a, operator, b⟩ := by
  rcases hop with rfl | rfl
  · exact apply_congr (iff_of_true (defined_of_ne_divide nofun) (defined_of_ne_divide nofun))
      (add_comm b.raw a.raw) rfl
  · exact apply_congr (iff_of_true (defined_of_ne_divide nofun) (defined_of_ne_divide nofun))
      (mul_comm b.raw a.raw) rfl

end Operation

namespace Settings

variable {settings : Settings} {o o' : Operation} {a : Amount}

/-- Operands with few enough digits do not make the least integer of a cell into a value. It
is no multiple of ten, and it has no room for another digit. -/
theorem numer_ne_least_of_roundTo {v : Ratio}
    (hgrid : (10 : ℤ) ^ (4 - settings.fractionDigits) ∣ v.numer)
    (hround : v.roundTo amountScale settings.fractionDigits = .ok a) : v.numer ≠ Cell.least := by
  by_cases hdigits : settings.fractionDigits = 0
  · rw [hdigits] at hgrid
    exact Cell.ne_least_of_ten_dvd (dvd_trans (by norm_num) hgrid)
  · intro hleast
    obtain ⟨-, hfits, -⟩ := Ratio.roundTo_eq_ok_iff.mp hround
    have hten : (10 : ℤ) ≤ 10 ^ settings.fractionDigits := by
      simpa using pow_le_pow_right₀ (by norm_num : (1 : ℤ) ≤ 10) (Nat.pos_of_ne_zero hdigits)
    rw [hleast, Cell.least_eq, Cell.fits_iff] at hfits
    omega

/-- A mirrored operation has the mirrored value. -/
theorem finish_mirror (hvalid : settings.Valid) (hmirror : o.Mirrors o')
    (hleft : (10 : ℤ) ^ (4 - settings.fractionDigits) ∣ o.left.raw)
    (hright : (10 : ℤ) ^ (4 - settings.fractionDigits) ∣ o.right.raw)
    (h : settings.finish o = .ok a) : ∃ b, a.neg = .ok b ∧ settings.finish o' = .ok b := by
  obtain ⟨v, happly, hbound, hround⟩ := (finish_eq_ok_iff hvalid).mp h
  have hnumer := (Operation.apply_eq_ok_iff.mp happly).2.1
  have hleast : v.numer ≠ Cell.least :=
    numer_ne_least_of_roundTo (hnumer ▸ Operation.dvd_numer hleft hright) hround
  have happly' := hmirror.apply happly hleast
  obtain ⟨b, hneg, hround'⟩ := Ratio.roundTo_mirror hleast hround
  refine ⟨b, hneg, (finish_eq_ok_iff hvalid).mpr ⟨_, happly', ?_, hround'⟩⟩
  rw [← (Operation.value_of_apply happly').2, v.value_mirror hleast, abs_neg,
    (Operation.value_of_apply happly).2]
  exact hbound

end Settings

/-! ## Inputs -/

namespace Evaluator

variable {e : Evaluator} {input input' : String} {left right left' right' : Numeral}
  {operator : Operator}

/-- One input has a value exactly when the other has the negation of it. -/
def Opposes (e : Evaluator) (input input' : String) : Prop :=
  ∀ a, e.evaluate input = .success a ↔ ∃ b, a.neg = .ok b ∧ e.evaluate input' = .success b

theorem opposes_of_forall
    (h : ∀ a, e.evaluate input = .success a → ∃ b, a.neg = .ok b ∧ e.evaluate input' = .success b)
    (h' : ∀ b, e.evaluate input' = .success b →
      ∃ a, b.neg = .ok a ∧ e.evaluate input = .success a) : e.Opposes input input' := by
  intro a
  refine ⟨h a, ?_⟩
  rintro ⟨b, hneg, hsuccess⟩
  obtain ⟨c, hback, hvalue⟩ := h' b hsuccess
  rw [Fixed.neg_eq_ok_iff] at hneg hback
  have hsame : c = a := Fixed.ext (by rw [hback, hneg, neg_neg])
  rw [← hsame]
  exact hvalue

/-- Inputs that make mirrored operations have values on two sides of zero. -/
theorem exists_neg_of_success
    (hwrites : e.settings.Writes input left operator right)
    (hwrites' : e.settings.Writes input' left' operator right')
    (hrefusal : e.settings.refusal? left' right' = e.settings.refusal? left right)
    (hmirror : ∀ a b a' b', e.settings.Gives left a → e.settings.Gives right b →
      e.settings.Gives left' a' → e.settings.Gives right' b' →
      Operation.Mirrors ⟨a, operator, b⟩ ⟨a', operator, b'⟩)
    (c : Amount) (h : e.evaluate input = .success c) :
    ∃ d, c.neg = .ok d ∧ e.evaluate input' = .success d := by
  obtain ⟨o, haccept, hfinish⟩ := exists_of_success h
  have hnone := Settings.refusal?_of_accept e.valid hwrites haccept
  obtain ⟨a, b, hok, ha, hb⟩ := Settings.exists_accept_of_writes e.valid hwrites hnone
  obtain ⟨a', b', hok', ha', hb'⟩ :=
    Settings.exists_accept_of_writes e.valid hwrites' (hrefusal.trans hnone)
  rw [haccept] at hok
  cases hok
  obtain ⟨d, hneg, hfinish'⟩ := Settings.finish_mirror e.valid
    (hmirror a b a' b' ha hb ha' hb') ha.grid hb.grid hfinish
  exact ⟨d, hneg, evaluate_of_value hok' hfinish'⟩

theorem exists_neg_subtract (hwrites : e.settings.Writes input left .subtract right)
    (hwrites' : e.settings.Writes input' right .subtract left) (c : Amount)
    (h : e.evaluate input = .success c) : ∃ d, c.neg = .ok d ∧ e.evaluate input' = .success d := by
  refine exists_neg_of_success hwrites hwrites' Settings.refusal?_comm ?_ c h
  intro a b b' a' ha hb hb' ha'
  rw [ha'.unique ha, hb'.unique hb]
  exact Operation.mirrors_subtract a b

theorem exists_neg_left (hop : operator = .multiply ∨ operator = .divide)
    (hopposite : left.Opposite left') (hwrites : e.settings.Writes input left operator right)
    (hwrites' : e.settings.Writes input' left' operator right) (c : Amount)
    (h : e.evaluate input = .success c) : ∃ d, c.neg = .ok d ∧ e.evaluate input' = .success d := by
  have hrefusal : e.settings.refusal? left' right = e.settings.refusal? left right :=
    Settings.refusal?_congr (by rw [hopposite.fraction]) rfl (by rw [hopposite.value, abs_neg]) rfl
  refine exists_neg_of_success hwrites hwrites' hrefusal ?_ c h
  intro a b a' b' ha hb ha' hb'
  rw [hb'.unique hb]
  exact Operation.mirrors_left hop (ha.opposite ha' hopposite) b

theorem exists_neg_right (hop : operator = .multiply ∨ operator = .divide)
    (hopposite : right.Opposite right') (hwrites : e.settings.Writes input left operator right)
    (hwrites' : e.settings.Writes input' left operator right') (c : Amount)
    (h : e.evaluate input = .success c) : ∃ d, c.neg = .ok d ∧ e.evaluate input' = .success d := by
  have hrefusal : e.settings.refusal? left right' = e.settings.refusal? left right :=
    Settings.refusal?_congr rfl (by rw [hopposite.fraction]) rfl (by rw [hopposite.value, abs_neg])
  refine exists_neg_of_success hwrites hwrites' hrefusal ?_ c h
  intro a b a' b' ha hb ha' hb'
  rw [ha'.unique ha]
  exact Operation.mirrors_right hop a (hb.opposite hb' hopposite)

theorem evaluate_congr {o o' : Operation} (h : e.settings.accept input = .ok o)
    (h' : e.settings.accept input' = .ok o') (happly : o'.apply = o.apply) :
    e.evaluate input' = e.evaluate input := by
  have hfinish : e.settings.finish o' = e.settings.finish o := by
    unfold Settings.finish
    rw [happly]
  cases hresult : e.settings.finish o with
  | ok a => rw [evaluate_of_value h hresult, evaluate_of_value h' (hfinish.trans hresult)]
  | error rejection =>
    rw [evaluate_of_no_value h hresult, evaluate_of_no_value h' (hfinish.trans hresult)]

theorem evaluate_comm (hop : operator = .add ∨ operator = .multiply)
    (hwrites : e.settings.Writes input left operator right)
    (hwrites' : e.settings.Writes input' right operator left) :
    e.evaluate input' = e.evaluate input := by
  have hswap : e.settings.refusal? right left = e.settings.refusal? left right :=
    Settings.refusal?_comm
  cases hrefusal : e.settings.refusal? left right with
  | none =>
    obtain ⟨a, b, hok, ha, hb⟩ := Settings.exists_accept_of_writes e.valid hwrites hrefusal
    obtain ⟨b', a', hok', hb', ha'⟩ :=
      Settings.exists_accept_of_writes e.valid hwrites' (hswap.trans hrefusal)
    rw [ha'.unique ha, hb'.unique hb] at hok'
    exact evaluate_congr hok hok' (Operation.apply_comm hop a b)
  | some rejection =>
    have hreject := Settings.accept_of_refusal e.valid hwrites hrefusal
    have hreject' := Settings.accept_of_refusal e.valid hwrites' (hswap.trans hrefusal)
    rw [evaluate_of_reject hreject, evaluate_of_reject hreject']

end Evaluator

/-- A sum and a product have the same outcome in both orders, whatever it is. A difference
has a value exactly when the difference the other way round has the negation of it, and so
does a product or a quotient with the other sign for one of its operands. -/
theorem operators_keep_their_symmetries (e : Evaluator) {n m n' m' : Numeral}
    (hn : n.Opposite n') (hm : m.Opposite m') (input input' : String) :
    (∀ operator, operator = .add ∨ operator = .multiply →
      e.settings.Writes input n operator m → e.settings.Writes input' m operator n →
      e.evaluate input' = e.evaluate input) ∧
    (e.settings.Writes input n .subtract m → e.settings.Writes input' m .subtract n →
      e.Opposes input input') ∧
    (∀ operator, operator = .multiply ∨ operator = .divide →
      e.settings.Writes input n operator m →
      e.settings.Writes input' n' operator m ∨ e.settings.Writes input' n operator m' →
      e.Opposes input input') := by
  refine ⟨?_, ?_, ?_⟩
  · intro operator hop hwrites hwrites'
    exact Evaluator.evaluate_comm hop hwrites hwrites'
  · intro hwrites hwrites'
    exact Evaluator.opposes_of_forall (Evaluator.exists_neg_subtract hwrites hwrites')
      (Evaluator.exists_neg_subtract hwrites' hwrites)
  · intro operator hop hwrites hwrites'
    rcases hwrites' with hwrites' | hwrites'
    · exact Evaluator.opposes_of_forall (Evaluator.exists_neg_left hop hn hwrites hwrites')
        (Evaluator.exists_neg_left hop hn.symm hwrites' hwrites)
    · exact Evaluator.opposes_of_forall (Evaluator.exists_neg_right hop hm hwrites hwrites')
        (Evaluator.exists_neg_right hop hm.symm hwrites' hwrites)

namespace Numeral

def one : Numeral := ⟨none, ['1'], [], by decide, Digits.allDigits_nil⟩

def minusOne : Numeral := ⟨some .minus, ['1'], [], by decide, Digits.allDigits_nil⟩

def three : Numeral := ⟨none, ['3'], [], by decide, Digits.allDigits_nil⟩

def minusThree : Numeral := ⟨some .minus, ['3'], [], by decide, Digits.allDigits_nil⟩

end Numeral

/-- One and three, and their counterparts below zero. -/
theorem operators_keep_their_symmetries_between_one_and_three :
    (Numeral.one.Opposite .minusOne ∧ Numeral.three.Opposite .minusThree) ∧
    Evaluator.standard.evaluate "3+1" = Evaluator.standard.evaluate "1 + 3" ∧
    Evaluator.standard.Opposes "1-3" "3 - 1" ∧
    Evaluator.standard.evaluate "1 / 3" = .success ⟨3333, by decide⟩ ∧
    Evaluator.standard.evaluate "-1 / 3" = .success ⟨-3333, by decide⟩ ∧
    Evaluator.standard.evaluate "1 / -3" = .success ⟨-3333, by decide⟩ := by
  have hone : Numeral.one.Opposite .minusOne := ⟨rfl, rfl, rfl⟩
  have hthree : Numeral.three.Opposite .minusThree := ⟨rfl, rfl, rfl⟩
  have hlaw := operators_keep_their_symmetries Evaluator.standard hone hthree
  have hthird : Evaluator.standard.settings.Writes "1 / 3" .one .divide .three :=
    .of_cut? (by decide +kernel) (by decide +kernel)
  have hleft : Evaluator.standard.Opposes "1 / 3" "-1 / 3" :=
    (hlaw _ _).2.2 .divide (Or.inr rfl) hthird
      (Or.inl (.of_cut? (by decide +kernel) (by decide +kernel)))
  have hright : Evaluator.standard.Opposes "1 / 3" "1 / -3" :=
    (hlaw _ _).2.2 .divide (Or.inr rfl) hthird
      (Or.inr (.of_cut? (by decide +kernel) (by decide +kernel)))
  have hvalue : Evaluator.standard.evaluate "1 / 3" = .success ⟨3333, by decide⟩ := by
    decide +kernel
  have negated {input : String} (h : Evaluator.standard.Opposes "1 / 3" input) :
      Evaluator.standard.evaluate input = .success ⟨-3333, by decide⟩ := by
    obtain ⟨b, hneg, hsuccess⟩ := (h _).mp hvalue
    rw [hsuccess, Outcome.success.injEq]
    exact Fixed.ext (Fixed.neg_eq_ok_iff.mp hneg)
  refine ⟨⟨hone, hthree⟩, ?_, ?_, hvalue, negated hleft, negated hright⟩
  · exact (hlaw _ _).1 .add (Or.inl rfl) (.of_cut? (by decide +kernel) (by decide +kernel))
      (.of_cut? (by decide +kernel) (by decide +kernel))
  · exact (hlaw _ _).2.1 (.of_cut? (by decide +kernel) (by decide +kernel))
      (.of_cut? (by decide +kernel) (by decide +kernel))

end Reckoner
