-- The laws of the two texts of a number. Both are texts of numerals that write it, so both
-- are read back. Of all the texts that write a number one is canonical: nothing in it
-- could be left out. That one is the shorter of the two.
import Mathlib.Data.Rat.Floor
import Reckoner.Proofs.Parts
import Reckoner.Proofs.ReadBack

namespace Reckoner

/-! ## Digits that write a number -/

namespace Digits

variable {cs ds : List Char} {c : Char}

/-- No zero stands in front of another digit. -/
def NoLeadingZero (cs : List Char) : Prop := ∀ rest, cs = '0' :: rest → rest = []

theorem value_singleton (h : c.isDigit = true) : value [c] < 10 ∧ ofNat (value [c]) = [c] := by
  have hvalue : value [c] = c.toNat - 48 := by simp [value, Nat.ofDigitChars_cons]
  obtain ⟨hlow, hhigh⟩ := Char.isDigit_iff_toNat.mp h
  simp only [Char.reduceToNat] at hlow hhigh
  have hlt : value [c] < 10 := by omega
  have hchar : (value [c]).digitChar = Char.ofNat (48 + value [c]) :=
    (by decide : ∀ k < 10, k.digitChar = Char.ofNat (48 + k)) _ hlt
  refine ⟨hlt, ?_⟩
  rw [ofNat, Nat.toDigits_of_lt_base hlt, hchar, hvalue, Nat.add_sub_cancel' hlow,
    Char.ofNat_toNat]

theorem value_cons (c : Char) (cs : List Char) :
    value (c :: cs) = value [c] * 10 ^ cs.length + value cs := value_append [c] cs

theorem value_lt (h : AllDigits cs) : value cs < 10 ^ cs.length := by
  induction cs with
  | nil => decide
  | cons c cs ih =>
    have hcs := ih fun d hd => h d (List.mem_cons_of_mem _ hd)
    have hc := (value_singleton (h c (by simp))).1
    rw [value_cons, List.length_cons, pow_succ']
    nlinarith

theorem ofNat_append {n : ℕ} (hn : 0 < n) (h : AllDigits cs) :
    ofNat n ++ cs = ofNat (n * 10 ^ cs.length + value cs) := by
  induction cs generalizing n with
  | nil => simp [value]
  | cons c cs ih =>
    obtain ⟨hlt, hc⟩ := value_singleton (h c (by simp))
    have hnext : ofNat n ++ [c] = ofNat (10 * n + value [c]) := by
      have happend := Nat.toDigits_append_toDigits (b := 10) (by decide) hn hlt
      rw [← ofNat, ← ofNat, hc, ← ofNat] at happend
      exact happend
    have hcs : AllDigits cs := fun d hd => h d (List.mem_cons_of_mem _ hd)
    calc ofNat n ++ c :: cs
        = ofNat n ++ [c] ++ cs := by rw [List.append_assoc, List.singleton_append]
      _ = ofNat (10 * n + value [c]) ++ cs := by rw [hnext]
      _ = ofNat ((10 * n + value [c]) * 10 ^ cs.length + value cs) := ih (by omega) hcs
      _ = ofNat (n * 10 ^ (c :: cs).length + value (c :: cs)) := by
        rw [value_cons c cs, List.length_cons, pow_succ']
        congr 1
        ring

theorem noLeadingZero_ofNat (n : ℕ) : NoLeadingZero (ofNat n) := by
  induction n using Nat.strong_induction_on with
  | _ n ih =>
    intro rest hrest
    by_cases hn : n < 10
    · rw [ofNat, Nat.toDigits_of_lt_base hn] at hrest
      exact (List.cons.inj hrest).2.symm
    · -- The digits in front of the last one would be a zero alone.
      exfalso
      rw [ofNat, Nat.toDigits_of_base_le (by decide) (not_lt.mp hn)] at hrest
      obtain ⟨d, front, hfront⟩ := List.exists_cons_of_ne_nil (ofNat_ne_nil (n / 10))
      rw [← ofNat, hfront, List.cons_append, List.cons.injEq] at hrest
      obtain ⟨rfl, -⟩ := hrest
      have hnil := ih (n / 10) (by omega) front hfront
      have hvalue := value_ofNat (n / 10)
      rw [hfront, hnil] at hvalue
      have hzero : value ['0'] = 0 := rfl
      omega

/-- Digits are the digits of their number, unless a zero stands in front. -/
theorem ofNat_value (h : IsRun cs) (hlead : NoLeadingZero cs) : ofNat (value cs) = cs := by
  obtain ⟨hne, hdigits⟩ := h
  obtain ⟨c, rest, rfl⟩ := List.exists_cons_of_ne_nil hne
  obtain ⟨-, hc⟩ := value_singleton (hdigits c (by simp))
  by_cases hzero : value [c] = 0
  · rw [hzero] at hc
    obtain rfl : '0' = c := (List.cons.inj hc).1
    rw [hlead rest rfl, hzero, hc]
  · have hrest : AllDigits rest := fun d hd => hdigits d (List.mem_cons_of_mem _ hd)
    rw [value_cons, ← ofNat_append (Nat.pos_of_ne_zero hzero) hrest, hc, List.singleton_append]

theorem eq_of_value_eq (hcs : AllDigits cs) (hds : AllDigits ds) (hlength : cs.length = ds.length)
    (h : value cs = value ds) : cs = ds := by
  -- Behind a one they make the same number, and zeros in front of them are kept.
  have hone : ofNat 1 ++ cs = ofNat 1 ++ ds := by
    rw [ofNat_append one_pos hcs, ofNat_append one_pos hds, hlength, h]
  exact List.append_cancel_left hone

/-- Digits of a fraction that ends in no zero are told by what they are worth. -/
theorem eq_of_worth_eq (hcs : AllDigits cs) (hds : AllDigits ds)
    (hcs' : cs.getLast? ≠ some '0') (hds' : ds.getLast? ≠ some '0')
    (h : value cs * 10 ^ ds.length = value ds * 10 ^ cs.length) : cs = ds := by
  -- The longer of two would have to end in the zeros that the shorter one lacks.
  have hlonger {cs ds : List Char} (hds : AllDigits ds) (hds' : ds.getLast? ≠ some '0')
      (h : value cs * 10 ^ ds.length = value ds * 10 ^ cs.length) : ds.length ≤ cs.length := by
    by_contra hlt
    have hne : ds ≠ [] := by
      rintro rfl
      simp at hlt
    obtain ⟨k, hk⟩ := Nat.exists_eq_add_of_lt (not_le.mp hlt)
    have hten : 10 ∣ value ds := by
      rw [hk, pow_add, pow_add, pow_one] at h
      have hpos : 0 < 10 ^ cs.length := by positivity
      have hvalue : value ds = value cs * 10 ^ k * 10 :=
        Nat.eq_of_mul_eq_mul_right hpos (by rw [← h]; ring)
      rw [hvalue]
      exact dvd_mul_left _ _
    refine not_ten_dvd_value hds hne ?_ hten
    intro hlast
    exact hds' (by rw [List.getLast?_eq_some_getLast hne, hlast])
  have hlength : cs.length = ds.length :=
    le_antisymm (hlonger hcs hcs' h.symm) (hlonger hds hds' h)
  rw [hlength] at h
  exact eq_of_value_eq hcs hds hlength (Nat.eq_of_mul_eq_mul_right (by positivity) h)

end Digits

/-! ## Canonical numerals -/

namespace Numeral

variable {n m : Numeral}

/-- Nothing in the numeral could be left out. A point without a fraction is in no numeral. -/
structure Canonical (n : Numeral) : Prop where
  no_plus : n.sign ≠ some .plus
  no_leading_zero : Digits.NoLeadingZero n.whole
  no_trailing_zero : n.fraction.getLast? ≠ some '0'
  no_negative_zero : n.sign = some .minus → n.value ≠ 0

theorem floor_size (n : Numeral) : ⌊n.size⌋₊ = Digits.value n.whole := by
  rw [Nat.floor_eq_iff n.size_nonneg, size]
  have hlt : (Digits.value n.fraction : ℚ) / 10 ^ n.fraction.length < 1 := by
    rw [div_lt_one (by positivity)]
    exact_mod_cast Digits.value_lt n.fraction_digits
  refine ⟨?_, by linarith⟩
  have hpos : (0 : ℚ) ≤ Digits.value n.fraction / 10 ^ n.fraction.length := by positivity
  linarith

theorem Canonical.digits_eq (hn : n.Canonical) (hm : m.Canonical) (h : n.size = m.size) :
    n.whole = m.whole ∧ n.fraction = m.fraction := by
  have hwhole : Digits.value n.whole = Digits.value m.whole := by
    rw [← n.floor_size, h, m.floor_size]
  refine ⟨?_, ?_⟩
  · rw [← Digits.ofNat_value n.whole_run hn.no_leading_zero, hwhole,
      Digits.ofNat_value m.whole_run hm.no_leading_zero]
  · rw [size, size, hwhole, add_right_inj, div_eq_div_iff (by positivity) (by positivity)] at h
    exact Digits.eq_of_worth_eq n.fraction_digits m.fraction_digits hn.no_trailing_zero
      hm.no_trailing_zero (by exact_mod_cast h)

theorem Canonical.sign_eq (hn : n.Canonical) :
    n.sign = if n.value < 0 then some .minus else none := by
  have hsize := n.size_nonneg
  cases hsign : n.sign with
  | none =>
    have hvalue : n.value = n.size := by simp [value, isNegative, hsign]
    rw [hvalue, if_neg (not_lt.mpr hsize)]
  | some sign =>
    cases sign with
    | plus => exact absurd hsign hn.no_plus
    | minus =>
      have hvalue : n.value = -n.size := by simp [value, isNegative, hsign]
      have hne := hn.no_negative_zero hsign
      rw [if_pos (lt_of_le_of_ne (by linarith) hne)]

/-- A number has one canonical numeral. -/
theorem Canonical.eq_of_value_eq (hn : n.Canonical) (hm : m.Canonical)
    (h : n.value = m.value) : n = m := by
  have hsize : n.size = m.size := by rw [← n.abs_value, h, m.abs_value]
  have hsign : n.sign = m.sign := by rw [hn.sign_eq, h, hm.sign_eq]
  obtain ⟨hwhole, hfraction⟩ := hn.digits_eq hm hsize
  cases n
  cases m
  simp only at hsign hwhole hfraction
  subst hsign hwhole hfraction
  rfl

end Numeral

namespace Fixed

variable {s : Scale} {t : String}

/-! ## The two texts of a number -/

/-- The shortest numeral of a number is canonical. -/
theorem canonical_numeral (a : Fixed s) : a.numeral.Canonical where
  no_plus := by
    rw [sign_numeral]
    split <;> simp
  no_leading_zero := Digits.noLeadingZero_ofNat _
  no_trailing_zero := Digits.getLast?_trimZeros _
  no_negative_zero := by
    intro hminus hzero
    rw [value_numeral, value_eq_zero_iff] at hzero
    simp [sign_numeral, hzero] at hminus

/-- The numeral of a number with all digits of its scale. -/
def fullNumeral (a : Fixed s) : Numeral :=
  { a.numeral with
    fraction := if s.val = 0 then [] else Digits.padded s.val (a.raw.natAbs % s.unit)
    fraction_digits := by
      split
      · exact Digits.allDigits_nil
      · exact Digits.allDigits_padded _ _ }

theorem length_fraction_fullNumeral (a : Fixed s) : a.fullNumeral.fraction.length = s.val := by
  unfold fullNumeral
  by_cases hs : s.val = 0
  · simp [hs]
  · simp only [hs, if_false]
    exact Digits.length_padded (Nat.pos_of_ne_zero hs) a.mod_unit_lt

theorem value_fraction_fullNumeral (a : Fixed s) :
    Digits.value a.fullNumeral.fraction = a.raw.natAbs % s.unit := by
  unfold fullNumeral
  by_cases hs : s.val = 0
  · have hmod := a.mod_unit_lt
    simp only [hs, if_true] at hmod ⊢
    have hzero : Digits.value [] = 0 := rfl
    omega
  · simp only [hs, if_false, Digits.value_padded]

theorem value_fullNumeral (a : Fixed s) : a.fullNumeral.value = a.value := by
  apply a.value_of_parts rfl rfl
  rw [length_fraction_fullNumeral, value_fraction_fullNumeral]

/-- Below zero the whole part has a minus of its own, unless it is zero. -/
theorem ofInt_integerPart (a : Fixed s) (h : ¬ (a.raw < 0 ∧ a.integerPart = 0)) :
    Digits.ofInt a.integerPart =
      (if a.raw < 0 then ['-'] else []) ++ Digits.ofNat (a.raw.natAbs / s.unit) := by
  rw [Digits.ofInt, natAbs_integerPart]
  by_cases hneg : a.raw < 0
  · have hlt : a.integerPart < 0 :=
      lt_of_le_of_ne (integerPart_nonpos hneg.le) fun hzero => h ⟨hneg, hzero⟩
    rw [if_pos hlt, if_pos hneg, List.singleton_append]
  · have hge := integerPart_nonneg (not_lt.mp hneg)
    rw [if_neg (not_lt.mpr hge), if_neg hneg, List.nil_append]

theorem chars_fullNumeral (a : Fixed s) : a.fullNumeral.chars '.' = a.displayChars := by
  unfold Numeral.chars displayChars fullNumeral
  rw [sign_numeral, whole_numeral, chars_sign, fractionPart_eq]
  by_cases hs : s.val = 0
  · -- Without digits behind the point the whole part is the number.
    have hunit : s.unit = 1 := by rw [Scale.unit_eq, hs, pow_zero]
    have hwhole : ¬ (a.raw < 0 ∧ a.integerPart = 0) := by
      rw [integerPart, hunit, Nat.cast_one, Int.tdiv_one]
      omega
    simp only [hs, if_true, List.append_nil, ofInt_integerPart a hwhole]
  · have hne : Digits.padded s.val (a.raw.natAbs % s.unit) ≠ [] := by
      intro hnil
      have hlength := Digits.length_padded (Nat.pos_of_ne_zero hs) a.mod_unit_lt
      rw [hnil, List.length_nil] at hlength
      exact hs hlength.symm
    simp only [hs, if_false, hne]
    congr 1
    by_cases hzero : a.raw < 0 ∧ a.integerPart = 0
    · have hwhole := a.natAbs_integerPart
      rw [hzero.2, Int.natAbs_zero] at hwhole
      rw [if_pos hzero, if_pos hzero.1, ← hwhole]
      rfl
    · rw [if_neg hzero, ofInt_integerPart a hzero]

/-! ## Reading -/

theorem ofText_chars (s : Scale) (n : Numeral) :
    ofText s (String.ofList (n.chars '.')) = ofNumeral s n := by
  rw [ofText, ofChars, String.toList_ofList, Numeral.read?_chars (by decide)]

theorem value_of_ofNumeral {n : Numeral} {a : Fixed s} (h : ofNumeral s n = .ok a) :
    n.value = a.value := by
  rcases ofNumeral_cases s n with ⟨-, hread⟩ | ⟨-, -, hread⟩ | ⟨-, -, b, hread, hvalue, -⟩
  · cases h.symm.trans hread
  · cases h.symm.trans hread
  · rw [h, Except.ok.injEq] at hread
    rw [hread, hvalue]

theorem exists_numeral_of_ofText {a : Fixed s} (h : ofText s t = .ok a) :
    ∃ n : Numeral, n.chars '.' = t.toList ∧ n.value = a.value := by
  unfold ofText ofChars at h
  cases hread : Numeral.read? '.' t.toList with
  | none =>
    rw [hread] at h
    cases h
  | some n =>
    rw [hread] at h
    exact ⟨n, Numeral.chars_of_read? hread, value_of_ofNumeral h⟩

theorem display_eq (a : Fixed s) : a.display = String.ofList (a.fullNumeral.chars '.') := by
  rw [display, chars_fullNumeral]

theorem normalized_eq (a : Fixed s) : a.normalized = String.ofList (a.numeral.chars '.') := by
  rw [normalized, plain, chars_numeral]

end Fixed

/-- The text is a numeral with a full stop for its point, and it writes the number. -/
def Writes (t : String) (x : ℚ) : Prop := ∃ n : Numeral, n.chars '.' = t.toList ∧ n.value = x

/-- The text is a numeral with a full stop, and nothing in it could be left out. -/
def IsCanonical (t : String) : Prop := ∃ n : Numeral, n.chars '.' = t.toList ∧ n.Canonical

theorem Writes.unique {t : String} {x y : ℚ} (hx : Writes t x) (hy : Writes t y) : x = y := by
  obtain ⟨n, hn, rfl⟩ := hx
  obtain ⟨m, hm, rfl⟩ := hy
  rw [Numeral.chars_injective (by decide) (hn.trans hm.symm)]

namespace Fixed

variable {s : Scale} {t : String} {a : Fixed s}

theorem writes_iff_of_ofText (h : ofText s t = .ok a) (x : ℚ) : Writes t x ↔ x = a.value := by
  obtain ⟨n, hchars, hvalue⟩ := exists_numeral_of_ofText h
  refine ⟨fun hx => hx.unique ⟨n, hchars, hvalue⟩, ?_⟩
  rintro rfl
  exact ⟨n, hchars, hvalue⟩

theorem writes_normalized (a : Fixed s) : Writes a.normalized a.value :=
  ⟨a.numeral, by rw [normalized_eq, String.toList_ofList], a.value_numeral⟩

theorem isCanonical_normalized (a : Fixed s) : IsCanonical a.normalized :=
  ⟨a.numeral, by rw [normalized_eq, String.toList_ofList], a.canonical_numeral⟩

theorem eq_normalized {u : String} (hcanonical : IsCanonical u) (h : Writes u a.value) :
    u = a.normalized := by
  obtain ⟨n, hchars, hn⟩ := hcanonical
  obtain ⟨m, hm, hvalue⟩ := h
  obtain rfl := Numeral.chars_injective (by decide) (hm.trans hchars.symm)
  rw [normalized_eq, ← hn.eq_of_value_eq a.canonical_numeral (hvalue.trans a.value_numeral.symm),
    hchars, String.ofList_toList]

end Fixed

/-- Both texts of a number are read back as the number, unless it is the least one. The
normalized text of what is read from a text is the canonical text of the number written
there; two texts have the same one exactly when they write the same number, and a text
has itself exactly when it is canonical. -/
theorem a_number_has_one_canonical_text (s : Scale) :
    (∀ a : Fixed s, ∀ t ∈ [a.display, a.normalized],
      Fixed.ofText s t = if a.raw = Cell.least then .error .overflow else .ok a) ∧
    ∀ t (a : Fixed s), Fixed.ofText s t = .ok a →
      (∀ x, Writes t x ↔ x = a.value) ∧
      (Writes a.normalized a.value ∧ IsCanonical a.normalized ∧
        ∀ u, IsCanonical u → Writes u a.value → u = a.normalized) ∧
      (∀ t' (a' : Fixed s), Fixed.ofText s t' = .ok a' →
        (a.normalized = a'.normalized ↔ ∃ x, Writes t x ∧ Writes t' x)) ∧
      (a.normalized = t ↔ IsCanonical t) := by
  refine ⟨?_, ?_⟩
  · intro a t ht
    rcases List.mem_pair.mp ht with rfl | rfl
    · rw [Fixed.display_eq, Fixed.ofText_chars]
      exact Fixed.ofNumeral_of_value_eq a.length_fraction_fullNumeral.le a.value_fullNumeral
    · rw [Fixed.normalized_eq, Fixed.ofText_chars]
      exact Fixed.ofNumeral_of_value_eq a.length_fraction_le a.value_numeral
  · intro t a h
    have hwrites := Fixed.writes_iff_of_ofText h
    refine ⟨hwrites, ⟨a.writes_normalized, a.isCanonical_normalized, ?_⟩, ?_, ?_⟩
    · exact fun u hu hvalue => Fixed.eq_normalized hu hvalue
    · intro t' a' h'
      have hwrites' := Fixed.writes_iff_of_ofText h'
      refine ⟨?_, ?_⟩
      · intro heq
        have hvalue : a.value = a'.value :=
          a.writes_normalized.unique (heq ▸ a'.writes_normalized)
        exact ⟨a.value, (hwrites _).mpr rfl, (hwrites' _).mpr hvalue⟩
      · rintro ⟨x, hx, hx'⟩
        have hvalue : a.value = a'.value := ((hwrites x).mp hx).symm.trans ((hwrites' x).mp hx')
        rw [Fixed.value_inj.mp hvalue]
    · refine ⟨?_, ?_⟩
      · rintro rfl
        exact a.isCanonical_normalized
      · intro hcanonical
        exact (Fixed.eq_normalized hcanonical ((hwrites _).mpr rfl)).symm

/-- Two texts of one number, neither of them the canonical one, and the least number. -/
theorem the_canonical_text_of_seven_and_a_half :
    Fixed.ofText 4 "+007.50" = .ok ⟨75000, by decide⟩ ∧
      Fixed.ofText 4 "7.5000" = .ok ⟨75000, by decide⟩ ∧
      (∃ x, Writes "+007.50" x ∧ Writes "7.5000" x) ∧ ¬ IsCanonical "+007.50" ∧
      IsCanonical "7.5" ∧ Fixed.ofText 4 "7.5" = .ok ⟨75000, by decide⟩ ∧
      Fixed.ofText 38 (Fixed.least (s := 38)).display = .error .overflow := by
  obtain ⟨hback, hread⟩ := a_number_has_one_canonical_text 4
  have hnormalized : Fixed.normalized (s := 4) ⟨75000, by decide⟩ = "7.5" := by decide +kernel
  have hplus : Fixed.ofText 4 "+007.50" = .ok ⟨75000, by decide⟩ := by decide +kernel
  have hfull : Fixed.ofText 4 "7.5000" = .ok ⟨75000, by decide⟩ := by decide +kernel
  obtain ⟨-, ⟨-, hcanonical, -⟩, hsame, hself⟩ := hread _ _ hplus
  refine ⟨hplus, hfull, (hsame _ _ hfull).mp rfl, ?_, hnormalized ▸ hcanonical, ?_, ?_⟩
  · rw [← hself, hnormalized]
    decide
  · have h := hback ⟨75000, by decide⟩ _ (List.mem_pair.mpr (Or.inr rfl))
    rw [hnormalized] at h
    exact h
  · exact (a_number_has_one_canonical_text 38).1 Fixed.least _ (List.mem_pair.mpr (Or.inl rfl))

end Reckoner
